import SmallLisp.Evaluator
import SmallLisp.Proofs.ContextMark

/-!
# The faults of operations are raw

An operation prints values of the state into its faults and leaves the form open. In a native state
such a fault is raw. The operations that can fail by themselves are gone through one by one.
-/

namespace SmallLisp

open Fault (MarkFree raw_evaluation raw_type)

theorem Fault.raw_of_not_placed {fault : Fault} (h : ¬ fault.Placed) : fault.Raw := by
  refine ⟨?_, fun hplaced => absurd hplaced h⟩
  cases fault
  case evaluation | type => exact absurd trivial h
  all_goals trivial

theorem markFree_pair {a b : String} (ha : MarkFree a.toList) (hb : MarkFree b.toList) :
    ∀ t ∈ [a, b], MarkFree t.toList :=
  List.forall_mem_cons.mpr ⟨ha, List.forall_mem_singleton.mpr hb⟩

theorem Value.typeName_inCapitals (v : Value) : Text.InCapitals v.typeName.toList := by
  refine Text.inCapitals_of_all ?_
  cases v <;> dsimp only [typeName] <;> decide +kernel

theorem Value.markFree_typeName (v : Value) : ∀ t ∈ [v.typeName], MarkFree t.toList :=
  List.forall_mem_singleton.mpr v.typeName_inCapitals.markFree

variable {s : Interp} {f : Fault}

theorem error_of_map {ε α β : Type} {r : Except ε α} {g : α → β} {e : ε}
    (h : r.map g = .error e) : r = .error e := by
  cases r with
  | error e' =>
    cases h
    rfl
  | ok a => cases h

namespace Interp

theorem raw_noCollection (v : Value) : (noCollection v).Raw := raw_type v.markFree_typeName

theorem raw_noHashKey (v : Value) : (noHashKey v).Raw := raw_type v.markFree_typeName

namespace Native

/-- The texts of a message that are a single printed value. -/
theorem markFree_printed (hs : s.Native) (v : Value) : ∀ t ∈ [s.print v], MarkFree t.toList :=
  List.forall_mem_singleton.mpr (hs.markFree_print v)

theorem raw_indexBelow (hs : s.Native) {key : Value} {length : Nat}
    (h : s.indexBelow key length = .error f) : f.Raw := by
  unfold indexBelow at h
  split at h
  · split at h
    · cases h
    · cases h
      exact raw_evaluation (List.forall_mem_nil _)
  · cases h
    exact raw_type (hs.markFree_printed _)

theorem raw_lookUp {α : Type} (hs : s.Native) {key : Value} {length : Nat} {find : Nat → Option α}
    (h : s.lookUp key length find = .error f) : f.Raw := by
  unfold lookUp at h
  split at h
  next hindex =>
    cases h
    exact hs.raw_indexBelow hindex
  next =>
    split at h
    · cases h
    · cases h
      exact raw_evaluation (List.forall_mem_nil _)

theorem raw_access (hs : s.Native) {target key : Value} (h : s.access target key = .error f) :
    f.Raw := by
  unfold access at h
  split at h
  · exact hs.raw_indexBelow (error_of_map h)
  · cases h
  · split at h
    · cases h
    · cases h
      exact raw_noHashKey key
  · exact hs.raw_lookUp h
  · exact hs.raw_lookUp h
  · exact hs.raw_lookUp h
  · cases h
    exact raw_noCollection target

theorem raw_place (hs : s.Native) {target key : Value} (h : s.place target key = .error f) :
    f.Raw := by
  unfold place at h
  split at h
  · exact hs.raw_indexBelow (error_of_map h)
  · cases h
  · split at h
    · cases h
    · cases h
      exact raw_noHashKey key
  · exact hs.raw_lookUp (error_of_map h)
  · exact hs.raw_lookUp (error_of_map h)
  · cases h
    exact raw_type (List.forall_mem_nil _)
  · cases h
    exact raw_noCollection target

theorem raw_numberOf (hs : s.Native) {operator : String} (hoperator : MarkFree operator.toList)
    {v : Value} (h : Operation.numberOf operator s v = .error f) : f.Raw := by
  unfold Operation.numberOf at h
  split at h
  · cases h
  · cases h
    exact raw_type (markFree_pair hoperator (hs.markFree_print _))

end Native

theorem raw_length {target : Value} (h : s.length target = .error f) : f.Raw := by
  unfold Interp.length at h
  split at h
  all_goals cases h
  exact raw_noCollection target

end Interp

section Folds

variable {α : Type} {read : α → Except Fault Number}
  (hread : ∀ a f, read a = .error f → f.Raw)

theorem Arithmetic.markFree_operator (op : Arithmetic) : MarkFree op.operator.toList := by
  cases op <;> decide +kernel

theorem Arithmetic.raw_step {op : Arithmetic} {a b : Number} (h : op.step a b = .error f) :
    f.Raw := by
  have htexts : ∀ t ∈ [op.operator], MarkFree t.toList :=
    List.forall_mem_singleton.mpr op.markFree_operator
  unfold step at h
  split at h
  · cases h
    exact raw_evaluation htexts
  · split at h
    · split at h
      · cases h
      · cases h
        exact raw_evaluation htexts
    · cases h

include hread

theorem Arithmetic.raw_foldFrom {op : Arithmetic} {acc : Number} {as : List α}
    (h : op.foldFrom read acc as = .error f) : f.Raw := by
  induction as generalizing acc with
  | nil => cases h
  | cons a rest ih =>
    unfold foldFrom at h
    split at h
    next hfault =>
      cases h
      exact hread a _ hfault
    · split at h
      next hfault =>
        cases h
        exact raw_step hfault
      · exact ih h

theorem Arithmetic.raw_fold {op : Arithmetic} {as : List α} (h : op.fold read as = .error f) :
    f.Raw := by
  unfold fold at h
  split at h
  · cases h
  · split at h
    next hfault =>
      cases h
      exact hread _ _ hfault
    · split at h
      · exact raw_step h
      · cases h
  · split at h
    next hfault =>
      cases h
      exact hread _ _ hfault
    · exact raw_foldFrom hread h

theorem Comparison.raw_chainFrom {op : Comparison} {previous : Number} {as : List α}
    (h : op.chainFrom read previous as = .error f) : f.Raw := by
  induction as generalizing previous with
  | nil => cases h
  | cons a rest ih =>
    unfold chainFrom at h
    split at h
    next hfault =>
      cases h
      exact hread a _ hfault
    · split at h
      · exact ih h
      · cases h

theorem Extremum.raw_foldFrom {op : Extremum} {best : Number} {as : List α}
    (h : op.foldFrom read best as = .error f) : f.Raw := by
  induction as generalizing best with
  | nil => cases h
  | cons a rest ih =>
    unfold foldFrom at h
    split at h
    next hfault =>
      cases h
      exact hread a _ hfault
    · exact ih h

end Folds

namespace Operation

theorem raw_pairOf (hs : s.Native) {collection : String} (hcollection : MarkFree collection.toList)
    {v : Value} (h : pairOf collection s v = .error f) : f.Raw := by
  unfold pairOf at h
  split at h
  · cases h
  · cases h
    exact raw_evaluation (markFree_pair hcollection (hs.markFree_print v))

theorem raw_fillEntries (hs : s.Native) {entries : List (Value × Value)} {vs : List Value}
    (h : fillEntries s entries vs = .error f) : f.Raw := by
  induction vs generalizing entries with
  | nil => cases h
  | cons v rest ih =>
    unfold fillEntries at h
    split at h
    next hfault =>
      cases h
      exact raw_pairOf hs (by decide +kernel) hfault
    · exact ih h

theorem raw_fillHashed (hs : s.Native) {table : Table Value Value} {vs : List Value}
    (h : fillHashed s table vs = .error f) : f.Raw := by
  induction vs generalizing table with
  | nil => cases h
  | cons v rest ih =>
    unfold fillHashed at h
    split at h
    next hfault =>
      cases h
      exact raw_pairOf hs (by decide +kernel) hfault
    next key value _ =>
      split at h
      next hfault =>
        cases h
        unfold Interp.assignHashed at hfault
        split at hfault
        · cases hfault
        · cases hfault
          exact Interp.raw_noHashKey key
      · exact ih h

theorem raw_sizeOf (hs : s.Native) {arguments : Value} (h : sizeOf s arguments = .error f) :
    f.Raw := by
  unfold sizeOf at h
  split at h
  · split at h
    · cases h
      exact raw_evaluation (List.forall_mem_nil _)
    · cases h
  · cases h
    exact raw_type (hs.markFree_printed _)

end Operation

theorem raw_reservedBinding (s : Interp) (x : SymbolId) : (reservedBinding s x).Raw :=
  Fault.raw_of_not_placed fun h => h

namespace SpecialForm

variable {operator : String} (hoperator : MarkFree operator.toList)

include hoperator

theorem raw_parameters (hs : s.Native) {items : List Value}
    (h : parameters operator s items = .error f) : f.Raw := by
  induction items with
  | nil => cases h
  | cons item rest ih =>
    cases item with
    | symbol x =>
      unfold parameters at h
      split at h
      · cases h
        exact raw_reservedBinding s x
      · exact ih (error_of_map h)
    | _ =>
      cases h
      exact raw_type (markFree_pair hoperator (hs.markFree_print _))

theorem raw_parameterList (hs : s.Native) {arguments : Value}
    (h : parameterList operator s arguments = .error f) : f.Raw := by
  unfold parameterList at h
  dsimp only at h
  split at h
  · cases h
    exact raw_type (markFree_pair hoperator (hs.markFree_print _))
  · exact raw_parameters hoperator hs h

end SpecialForm

namespace NamespaceForm

theorem raw_nameOf (hs : s.Native) {v : Value} (h : nameOf s v = .error f) : f.Raw := by
  unfold nameOf at h
  split at h
  · cases h
  · cases h
  · cases h
    exact raw_type (hs.markFree_printed _)

theorem Draft.raw_clauses (hs : s.Native) {d : Draft} {vs : List Value}
    (h : d.clauses s vs = .error f) : f.Raw := by
  induction vs generalizing d with
  | nil => cases h
  | cons v rest ih =>
    cases v with
    | cons id =>
      unfold clauses at h
      split at h
      · cases h
        exact raw_type (hs.markFree_printed _)
      · split at h
        · cases h
          exact Fault.raw_of_not_placed fun h => h
        · split at h
          · cases h
            exact Fault.raw_of_not_placed fun h => h
          · exact ih h
    | _ =>
      cases h
      exact Fault.raw_of_not_placed fun h => h

theorem raw_create (hs : s.Native) {arguments : Value} (h : create s arguments = .error f) :
    f.Raw := by
  unfold create at h
  split at h
  next hfault =>
    cases h
    exact raw_nameOf hs hfault
  · dsimp only at h
    split at h
    next hfault =>
      cases h
      exact Draft.raw_clauses hs hfault
    · split at h
      · cases h
        exact Fault.raw_of_not_placed fun h => h
      · cases h

theorem raw_onNamed (hs : s.Native) {arguments : Value}
    {operation : Interp → String → Except NamespaceFault (NamespaceId × Interp)}
    (h : onNamed operation s arguments = .error f) : f.Raw := by
  unfold onNamed at h
  split at h
  next hfault =>
    cases h
    exact raw_nameOf hs hfault
  · split at h
    · cases h
      exact Fault.raw_of_not_placed fun h => h
    · cases h

end NamespaceForm

end SmallLisp
