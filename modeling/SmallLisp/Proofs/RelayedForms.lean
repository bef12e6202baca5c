import SmallLisp.Proofs.RawFaults
import SmallLisp.Proofs.Relaying

/-!
# Every operation relays

The operations of the evaluator are faithful in the sense of `Relays`: what they ask for is asked in
native states, their own faults are raw, and they pass on the faults of what they ask for. A
protected form with a form that is always evaluated is the only one that asks for something after a
fault. `Relays.call` and `Relays.applyForm` put the operations together. Native states have no
functions of the host, so the programs of the host do not come into it.
-/

namespace SmallLisp

open Fault (MarkFree raw_evaluation raw_type)

/-- A form that is evaluated when an attempt is over, however it ends, with the state that the
attempt leaves. -/
structure FollowsAttempt (ev : Evaluators) (context arguments : Value) (s : Interp)
    (form : Value) (u : Interp) : Prop where
  form : s.third? arguments = some form
  state : leftState (SpecialForm.attempt ev context (s.first arguments) (s.second arguments) s) = u

namespace Relays

variable {evaluator : Evaluators} {context : Value} {always : Value → Interp → Prop}
  {s : Interp}

/-! ## Actions that ask for nothing -/

section Quiet

variable {α : Type} (hs : s.Native)

include hs

theorem read (f : Interp → α) :
    Relays evaluator context always none fun _ => EvalM.read f s :=
  value (f s) hs

theorem build (builder : ListBuilder) (tail : Value) :
    Relays evaluator context always none fun _ => EvalM.build builder tail s :=
  value _ (hs.build builder tail)

theorem list (items : List Value) :
    Relays evaluator context always none fun _ => EvalM.list items s :=
  value _ (hs.grown (grown_consReversed items.reverse s .nil))

theorem query {f : Interp → Except Fault Value} (hraw : ∀ cause, f s = .error cause → cause.Raw) :
    Relays evaluator context always none fun _ => Operation.query f s := by
  unfold Operation.query
  cases hf : f s with
  | ok v => exact value v hs
  | error cause => exact fault hs (hraw cause hf)

theorem answer {operation : Interp → Value → Except Fault (NamespaceId × Interp)}
    {arguments : Value} (hnative : ∀ id u, operation s arguments = .ok (id, u) → u.Native)
    (hraw : ∀ cause, operation s arguments = .error cause → cause.Raw) :
    Relays evaluator context always none fun _ => NamespaceForm.answer operation arguments s := by
  unfold NamespaceForm.answer
  cases hf : operation s arguments with
  | ok r => exact value _ (hnative r.1 r.2 hf)
  | error cause => exact fault hs (hraw cause hf)

theorem onNamed {operation : Interp → String → Except NamespaceFault (NamespaceId × Interp)}
    {arguments : Value} (hnative : ∀ name id u, operation s name = .ok (id, u) → u.Native) :
    Relays evaluator context always none fun _ =>
      NamespaceForm.answer (NamespaceForm.onNamed operation) arguments s := by
  refine answer hs (fun id u h => ?_) fun cause => NamespaceForm.raw_onNamed hs
  unfold NamespaceForm.onNamed at h
  split at h
  · cases h
  · split at h
    · cases h
    next hoperation =>
      cases h
      exact hnative _ _ _ hoperation

theorem makeFunction {operator : String} (hoperator : MarkFree operator.toList) (expands : Bool)
    (arguments : Value) : Relays evaluator context always none fun _ =>
      SpecialForm.makeFunction operator (.ofClosure expands) arguments s := by
  unfold SpecialForm.makeFunction
  cases hxs : SpecialForm.parameterList operator s arguments with
  | error cause => exact fault hs (SpecialForm.raw_parameterList hoperator hs hxs)
  | ok xs => exact value _ (hs.allocClosure expands xs arguments)

theorem half {operator : String} (hoperator : MarkFree operator.toList)
    (part : Interp → CellId → Value) (arguments : Value) :
    Relays evaluator context always none fun _ => Operation.half operator part arguments s := by
  refine query hs fun cause h => ?_
  split at h
  · cases h
  · cases h
  · cases h
    exact raw_type (markFree_pair hoperator (hs.markFree_print _))

theorem typeOf (arguments : Value) :
    Relays evaluator context always none fun _ => Operation.typeOf arguments s := by
  have hinterned : Relays evaluator context always none fun _ =>
      EvalM.namespaceStep (fun s => s.internKeyword (s.first arguments).typeName) s := by
    unfold EvalM.namespaceStep
    dsimp only
    cases hintern : s.internKeyword (s.first arguments).typeName with
    | ok r => exact value _ (hs.internKeyword (s.first arguments).typeName_inCapitals hintern)
    | error cause => exact fault hs (Fault.raw_of_not_placed fun h => h)
  exact hinterned.bind fun x t _ ht => value (Value.symbol x) ht

theorem element (arguments : Value) :
    Relays evaluator context always none fun _ => Operation.element arguments s :=
  query hs fun _ => hs.raw_access

theorem length (arguments : Value) :
    Relays evaluator context always none fun _ => Operation.length arguments s :=
  query hs fun _ h => Interp.raw_length (error_of_map h)

theorem makeArray (arguments : Value) :
    Relays evaluator context always none fun _ => Operation.makeArray arguments s := by
  unfold Operation.makeArray
  cases hsize : Operation.sizeOf s arguments with
  | error cause => exact fault hs (Operation.raw_sizeOf hs hsize)
  | ok size => exact value _ (hs.congr rfl rfl rfl)

theorem dictionary (arguments : Value) :
    Relays evaluator context always none fun _ => Operation.dictionary arguments s := by
  unfold Operation.dictionary
  cases hentries : Operation.fillEntries s [] (s.elementsOf arguments) with
  | error cause => exact fault hs (Operation.raw_fillEntries hs hentries)
  | ok entries => exact value _ (hs.congr rfl rfl rfl)

theorem hashTable (arguments : Value) :
    Relays evaluator context always none fun _ => Operation.hashTable arguments s := by
  unfold Operation.hashTable
  cases htable : Operation.fillHashed s .empty (s.elementsOf arguments) with
  | error cause => exact fault hs (Operation.raw_fillHashed hs htable)
  | ok table => exact value _ (hs.congr rfl rfl rfl)

theorem arithmetic (op : Arithmetic) (arguments : Value) :
    Relays evaluator context always none fun _ => Operation.arithmetic op arguments s :=
  query hs fun _ h => Arithmetic.raw_fold (fun _ _ => hs.raw_numberOf op.markFree_operator)
    (error_of_map h)

theorem comparison (op : Comparison) (arguments : Value) :
    Relays evaluator context always none fun _ => Operation.comparison op arguments s := by
  have hoperator : MarkFree op.operator.toList := by cases op <;> decide +kernel
  refine query hs fun cause h => ?_
  split at h
  next hfault =>
    cases h
    exact hs.raw_numberOf hoperator hfault
  · exact Comparison.raw_chainFrom (fun _ _ => hs.raw_numberOf hoperator) (error_of_map h)

theorem extremum (op : Extremum) (arguments : Value) :
    Relays evaluator context always none fun _ => Operation.extremum op arguments s := by
  have hoperator : MarkFree op.operator.toList := by cases op <;> decide +kernel
  refine query hs fun cause h => ?_
  split at h
  next hfault =>
    cases h
    exact hs.raw_numberOf hoperator hfault
  · exact Extremum.raw_foldFrom (fun _ _ => hs.raw_numberOf hoperator) (error_of_map h)

theorem breakLoop : Relays evaluator context always none fun _ => SpecialForm.breakLoop s := by
  refine read_bind ?_
  split
  · exact fault hs (raw_evaluation (List.forall_mem_nil _))
  · exact faultless hs rfl

theorem returnValue (arguments : Value) :
    Relays evaluator context always none fun _ => Operation.returnValue arguments s := by
  refine read_bind ?_
  split
  · exact fault hs (raw_evaluation (List.forall_mem_nil _))
  · exact faultless hs rfl

theorem throwText (arguments : Value) :
    Relays evaluator context always none fun _ => Operation.throwText arguments s := by
  refine read_bind ?_
  split
  · exact fault hs (raw_evaluation (List.forall_mem_nil _))
  · refine read_bind ?_
    cases s.first arguments with
    | string text => exact faultless hs rfl
    | _ => exact fault hs (raw_type (List.forall_mem_nil _))

theorem assignElement (arguments value : Value) :
    Relays evaluator context always none fun _ =>
      SpecialForm.assignElement arguments value s := by
  refine read_bind (read_bind (bind ?_ fun _ _ _ ht => .value value ht))
  unfold EvalM.assign
  split
  · exact faultless hs rfl
  · unfold Interp.assign
    cases hplace : s.place (s.first arguments) (s.second arguments) with
    | error cause => exact fault hs (hs.raw_place hplace)
    | ok place => exact .value () (by cases place <;> exact hs.congr rfl rfl rfl)

theorem assignSymbol (x : SymbolId) (v : Value) :
    Relays evaluator context always none fun _ => SpecialForm.assignSymbol x v s := by
  unfold SpecialForm.assignSymbol
  split
  · exact value () (hs.congr rfl rfl rfl)
  · exact fault hs (Fault.raw_of_not_placed fun h => h)

theorem notAssignable (got : Value) :
    Relays evaluator context always none fun _ => SpecialForm.notAssignable got s :=
  read_bind (fault hs (raw_evaluation (hs.markFree_printed got)))

theorem bindParameters (total bound : Nat) (xs : List SymbolId) (arguments : Value) :
    Relays evaluator context always none fun _ =>
      Closure.bindParameters total bound xs arguments s := by
  induction xs generalizing s bound arguments with
  | nil => exact value arguments hs
  | cons x rest ih =>
    unfold Closure.bindParameters
    split
    · exact fault hs (raw_reservedBinding s x)
    · cases arguments with
      | cons id =>
        have hbound : (s.bind x (s.car id)).Native := hs.congr rfl rfl rfl
        exact ih hbound (bound + 1) (s.cdr id)
      | _ => exact fault hs (Fault.raw_of_not_placed fun h => h)

end Quiet

/-! ## Lists of forms -/

section Asking

variable (hev : KeepsNative evaluator context)

include hev

omit hev in
theorem walk {α : Type} {visit : Evaluators → Value → α → EvalM (ForInStep α)} (hs : s.Native)
    (hvisit : ∀ item a s, s.Native →
      Relays evaluator context always none fun ev => visit ev item a s)
    (n : Nat) (list : Value) (a : α) :
    Relays evaluator context always none fun ev => EvalM.walk (visit ev) n list a s := by
  induction n generalizing s list a with
  | zero =>
    cases list with
    | cons id => exact faultless hs rfl
    | _ => exact value a hs
  | succ n ih =>
    cases list with
    | cons id =>
      refine read_bind (read_bind ((hvisit (s.car id) a s hs).bind fun next t _ ht => ?_))
      cases next with
      | yield a => exact ih ht (s.cdr id) a
      | done a => exact value a ht
    | _ => exact value a hs

/-- Forms that are evaluated in a row, with a step after each of them that asks for nothing. -/
theorem forEachForm {α : Type} (next : Value → α → EvalM (ForInStep α)) (hs : s.Native)
    (hnext : ∀ v a s, s.Native → Relays evaluator context always none fun _ => next v a s)
    (forms : Value) (a : α) :
    Relays evaluator context always none fun ev => EvalM.forEach forms a (fun form a => do
      let v ← (ev context).form form
      next v a) s :=
  read_bind (walk hs (fun _ a _ hs => (ask hev hs).bind fun v _ _ ht => hnext v a _ ht) _ forms a)

theorem body (hs : s.Native) (forms : Value) :
    Relays evaluator context always none fun ev => ev.body context forms s :=
  forEachForm hev (fun v _ => Pure.pure (.yield v)) hs (fun _ _ _ ht => value _ ht) forms Value.nil

theorem evaluated (hs : s.Native) (forms : Value) :
    Relays evaluator context always none fun ev => ev.list context forms s :=
  (forEachForm hev (fun v builder => Pure.pure (.yield (ListBuilder.push builder v))) hs
    (fun _ _ _ ht => value _ ht) forms ListBuilder.empty).bind
      fun builder _ _ ht => build ht builder .nil

/-! ## Templates -/

omit hev in
theorem misplacedSplice (hs : s.Native) (form : Value) :
    Relays evaluator context always none fun _ => Template.misplacedSplice form s :=
  read_bind (fault hs (raw_evaluation (hs.markFree_printed form)))

omit hev in
theorem splice (hs : s.Native) (builder : ListBuilder) (v : Value) :
    Relays evaluator context always none fun _ => Template.splice builder v s := by
  refine read_bind ?_
  split
  · exact read hs _
  · exact read_bind (fault hs (raw_evaluation (hs.markFree_printed v)))

omit hev in
theorem retag (tag : SymbolId) {operand : Evaluators → EvalM Value}
    (h : Relays evaluator context always none fun ev => operand ev s) :
    Relays evaluator context always none fun ev => Template.retag tag (operand ev) s :=
  h.bind fun v _ _ ht => list ht [.symbol tag, v]

section Template

variable {expand : Evaluators → Nat → Value → EvalM Value}
  (hexpand : ∀ level form s, s.Native →
    Relays evaluator context always none fun ev => expand ev level form s)

include hexpand

theorem templateElement (hs : s.Native) (level : Nat) (builder : ListBuilder) (item : Value) :
    Relays evaluator context always none fun ev =>
      Template.element ev context (expand ev) level builder item s := by
  refine read_bind ?_
  cases Template.operand? s .splice item with
  | none => exact (hexpand level item s hs).bind fun v _ _ ht => value (builder.push v) ht
  | some operand =>
    dsimp only
    split
    · exact (ask hev hs).bind fun v t _ ht => splice ht builder v
    · exact (retag .splice (hexpand (level - 1) operand s hs)).bind
        fun v _ _ ht => value (builder.push v) ht

theorem templateElements (hs : s.Native) (level n : Nat) (isTail : Bool) (builder : ListBuilder)
    (rest : Value) : Relays evaluator context always none fun ev =>
      Template.elements ev context (expand ev) level n isTail builder rest s := by
  induction n generalizing s isTail builder rest with
  | zero => exact faultless hs rfl
  | succ n ih =>
    refine read_bind ?_
    split
    · exact (hexpand level rest s hs).bind fun v t _ ht => build ht builder v
    · cases rest with
      | cons id =>
        refine read_bind ((templateElement hev hexpand hs level builder (s.car id)).bind ?_)
        exact fun builder t _ ht => read_bind (ih ht true builder (t.cdr id))
      | _ => exact build hs builder _

theorem templateStep (hs : s.Native) (n level : Nat) (form : Value) :
    Relays evaluator context always none fun ev =>
      Template.step ev context n (expand ev) level form s := by
  unfold Template.step
  cases form with
  | cons id =>
    refine read_bind ?_
    cases Template.operand? s .unquote (.cons id) with
    | some operand =>
      dsimp only
      split
      · exact ask hev hs
      · exact retag .unquote (hexpand (level - 1) operand s hs)
    | none =>
      refine read_bind ?_
      cases Template.operand? s .splice (.cons id) with
      | some operand =>
        dsimp only
        split
        · exact misplacedSplice hs _
        · exact retag .splice (hexpand (level - 1) operand s hs)
      | none =>
        refine read_bind ?_
        cases Template.operand? s .backquote (.cons id) with
        | some operand => exact retag .backquote (hexpand (level + 1) operand s hs)
        | none => exact templateElements hev hexpand hs level n false ListBuilder.empty (.cons id)
  | _ => exact value _ hs

end Template

theorem expand (hs : s.Native) (n level : Nat) (form : Value) :
    Relays evaluator context always none fun ev =>
      Template.expand ev context n level form s := by
  induction n generalizing s level form with
  | zero => exact faultless hs rfl
  | succ n ih =>
    have hexpand : ∀ level form s, s.Native → Relays evaluator context always none fun ev =>
        Template.expand ev context n level form s := fun level form s hs => ih hs level form
    exact templateStep hev hexpand hs n level form

theorem backquote (hs : s.Native) (n : Nat) (arguments : Value) :
    Relays evaluator context always none fun ev =>
      SpecialForm.backquote ev context n arguments s := by
  refine read_bind (read_bind ?_)
  cases Template.operand? s .splice (s.first arguments) with
  | some operand => exact misplacedSplice hs _
  | none => exact expand hev hs n 0 _

/-! ## Special forms -/

theorem bindVariable (hs : s.Native) (arguments : Value) :
    Relays evaluator context always none fun ev =>
      SpecialForm.bindVariable ev context arguments s := by
  have hbind : ∀ x v t, t.Native → Relays evaluator context always none fun _ =>
      (do EvalM.update fun s => s.bind x v; Pure.pure v : EvalM Value) t :=
    fun x v t ht => value v (ht.congr rfl rfl rfl)
  refine read_bind ?_
  cases s.first arguments with
  | symbol x =>
    refine read_bind ?_
    split
    · exact read_bind (fault hs (raw_reservedBinding s x))
    · refine read_bind ?_
      cases s.elementAt? arguments 1 with
      | none => exact hbind x Value.nil s hs
      | some form => exact (ask hev hs).bind fun v t _ ht => hbind x v t ht
  | _ => exact read_bind (fault hs (raw_type (hs.markFree_printed _)))

theorem assignThrough (hs : s.Native) (place form : Value) :
    Relays evaluator context always none fun ev =>
      SpecialForm.assignThrough ev context place form s := by
  refine read_bind ((ask hev hs).bind fun operator t _ ht => ?_)
  cases operator with
  | function id =>
    refine read_bind ?_
    cases hplace : SpecialForm.assignPlace? (t.callable id) with
    | none => exact notAssignable ht _
    | some store =>
      refine read_bind (read_bind ?_)
      split
      · exact read_bind (fault ht (raw_evaluation (ht.markFree_printed place)))
      · refine read_bind ?_
        split
        · exact read_bind (fault ht (raw_evaluation (ht.markFree_printed _)))
        · refine (evaluated hev ht _).bind fun arguments u _ hu => ?_
          rw [SpecialForm.eq_assignElement hplace]
          exact (ask hev hu).bind fun v w _ hw => assignElement hw arguments v
  | _ => exact notAssignable ht _

theorem assign (hs : s.Native) (arguments : Value) :
    Relays evaluator context always none fun ev =>
      SpecialForm.assign ev context arguments s := by
  refine read_bind (read_bind ?_)
  cases s.first arguments with
  | symbol x =>
    refine read_bind ?_
    split
    · exact read_bind (fault hs (Fault.raw_of_not_placed fun h => h))
    · refine (ask hev hs).bind fun v t _ ht => ?_
      exact (assignSymbol ht x v).bind fun _ u _ hu => value v hu
  | cons id => exact assignThrough hev hs _ _
  | _ => exact notAssignable hs _

theorem scope (hs : s.Native) (forms : Value) :
    Relays evaluator context always none fun ev => SpecialForm.scope ev context forms s := by
  have hfresh : (s.allocScope .empty).2.Native := hs.congr rfl rfl rfl
  have hentered : ((s.allocScope .empty).2.pushScope (s.allocScope .empty).1).Native :=
    hfresh.congr rfl rfl rfl
  exact inScope (body hev hentered forms)

theorem choose (hs : s.Native) (arguments : Value) :
    Relays evaluator context always none fun ev =>
      SpecialForm.choose ev context arguments s := by
  refine read_bind ((ask hev hs).bind fun v t _ ht => ?_)
  split
  · exact read_bind (ask hev ht)
  · refine read_bind ?_
    cases t.third? arguments with
    | none => exact value Value.nil ht
    | some form => exact ask hev ht

theorem conjunction (hs : s.Native) (arguments : Value) :
    Relays evaluator context always none fun ev =>
      SpecialForm.conjunction ev context arguments s :=
  forEachForm hev (fun v _ => Pure.pure (if v.isNil then .done v else .yield v)) hs
    (fun _ _ _ ht => value _ ht) arguments Value.truth

theorem disjunction (hs : s.Native) (arguments : Value) :
    Relays evaluator context always none fun ev =>
      SpecialForm.disjunction ev context arguments s :=
  forEachForm hev (fun v _ => Pure.pure (if v.isTrue then .done v else .yield .nil)) hs
    (fun _ _ _ ht => value _ ht) arguments Value.nil

theorem passes (hs : s.Native) (test forms : Value) (n : Nat) (last : Value) :
    Relays evaluator context always none fun ev =>
      SpecialForm.passes ev context test forms n last s := by
  induction n generalizing s last with
  | zero => exact faultless hs rfl
  | succ n ih =>
    refine (ask hev hs).bind fun v t _ ht => ?_
    split
    · exact (body hev ht forms).bind fun result u _ hu => ih hu result
    · exact value last ht

omit hev in
theorem landBreak {act : Evaluators → EvalM Value} (depth : Nat)
    (h : Relays evaluator context always none fun ev => act ev s) :
    Relays evaluator context always none fun ev => SpecialForm.landBreak depth (act ev) s := by
  let land (r : EStateM.Result Flow Interp Value) : EStateM.Result Flow Interp Value :=
    SpecialForm.landBreak depth (fun _ => r) s
  have hland : Relays evaluator context always none fun ev => land (act ev s) := by
    refine h.map (fun r hr => ?_) (fun r => ?_) ?_
    · dsimp only [land, SpecialForm.landBreak]
      split
      · split <;> exact hr
      · exact hr
    · dsimp only [land, SpecialForm.landBreak]
      split
      · split <;> rfl
      · rfl
    · rintro mark _ ⟨t, rfl, hmark⟩
      exact ⟨t, rfl, hmark⟩
  exact hland

theorem loop (hs : s.Native) (n : Nat) (arguments : Value) :
    Relays evaluator context always none fun ev =>
      SpecialForm.loop ev context n arguments s := by
  have hentered : { s with depths := s.depths.enter .loop }.Native := hs.congr rfl rfl rfl
  refine read_bind (read_bind (inFrame (read_bind (landBreak _ ?_))))
  exact passes hev hentered _ _ n .nil

omit hev in
theorem landThrow {act : Evaluators → EvalM Value} (depth : Nat)
    (h : Relays evaluator context always none fun ev => act ev s) :
    Relays evaluator context always none fun ev => SpecialForm.landThrow depth (act ev) s := by
  let land (r : EStateM.Result Flow Interp Value) :
      EStateM.Result Flow Interp SpecialForm.Protected := SpecialForm.landThrow depth (fun _ => r) s
  have hland : Relays evaluator context always none fun ev => land (act ev s) := by
    refine h.map (fun r hr => ?_) (fun r => ?_) ?_
    · dsimp only [land, SpecialForm.landThrow]
      split
      · exact hr
      · split <;> exact hr
      · exact hr
    · dsimp only [land, SpecialForm.landThrow]
      split
      · rfl
      · split <;> rfl
      next flow _ _ => cases flow <;> rfl
    · rintro mark _ ⟨t, rfl, hmark⟩
      exact ⟨t, rfl, hmark⟩
  exact hland

theorem attempt (hs : s.Native) (protectedForm handler : Value) :
    Relays evaluator context always none fun ev =>
      SpecialForm.attempt ev context protectedForm handler s := by
  have hentered : { s with depths := s.depths.enter .guarded }.Native := hs.congr rfl rfl rfl
  refine (inFrame (read_bind (landThrow _ (ask hev hentered)))).bind fun outcome t _ ht => ?_
  cases outcome with
  | finished v => exact value v ht
  | caught text =>
    refine (ask hev ht).bind fun f u _ hu => ?_
    exact (list hu [f, .string text]).bind fun call w _ hw => ask hev hw

theorem guarded (hs : s.Native) (arguments : Value)
    (halways : ∀ form u, FollowsAttempt evaluator context arguments s form u → always form u) :
    Relays evaluator context always none fun ev =>
      SpecialForm.guarded ev context arguments s := by
  refine read_bind (read_bind (read_bind ?_))
  cases hform : s.third? arguments with
  | none => exact attempt hev hs _ _
  | some form => exact followedBy hev (halways form _ ⟨hform, rfl⟩) (attempt hev hs _ _)

/-! ## Mapping -/

theorem mapEntries (hs : s.Native) (f : FunctionId) (done rest : List (Value × Value)) :
    Relays evaluator context always none fun ev =>
      Operation.mapEntries ev context f done rest s := by
  induction rest generalizing s done with
  | nil => exact value _ hs
  | cons entry rest ih =>
    refine (list hs [entry.1, entry.2]).bind fun arguments t _ ht => ?_
    exact (ask hev ht).bind fun v u _ hu => ih hu _

omit hev in
theorem collectLike (hs : s.Native) (target : Value) (pairs : List (Value × Value)) :
    Relays evaluator context always none fun _ => Operation.collectLike target pairs s := by
  cases target with
  | array | dictionary | hashTable => exact value _ (hs.congr rfl rfl rfl)
  | _ => exact list hs _

theorem mapOver (hs : s.Native) (arguments : Value) :
    Relays evaluator context always none fun ev => Operation.map ev context arguments s := by
  refine read_bind (read_bind ?_)
  cases s.entries (s.first arguments) with
  | error cause => exact read_bind (fault hs (raw_type (hs.markFree_printed _)))
  | ok entries =>
    refine read_bind ?_
    cases s.second arguments with
    | function f =>
      exact (mapEntries hev hs f [] entries).bind fun pairs t _ ht => collectLike ht _ pairs
    | _ => exact fault hs (raw_type (List.forall_mem_nil _))

/-! ## Calls -/

omit hev in
theorem landReturn {act : Evaluators → EvalM Value} (depth : Nat)
    (h : Relays evaluator context always none fun ev => act ev s) :
    Relays evaluator context always none fun ev => Closure.landReturn depth (act ev) s := by
  let land (r : EStateM.Result Flow Interp Value) : EStateM.Result Flow Interp Value :=
    Closure.landReturn depth (fun _ => r) s
  have hland : Relays evaluator context always none fun ev => land (act ev s) := by
    refine h.map (fun r hr => ?_) (fun r => ?_) ?_
    · dsimp only [land, Closure.landReturn]
      split
      · split <;> exact hr
      · exact hr
    · dsimp only [land, Closure.landReturn]
      split
      · split <;> rfl
      · rfl
    · rintro mark _ ⟨t, rfl, hmark⟩
      exact ⟨t, rfl, hmark⟩
  exact hland

theorem runBody (hs : s.Native) (c : Closure) (arguments : Value) (this : Option Value) :
    Relays evaluator context always none fun ev =>
      Closure.runBody ev context c arguments this s := by
  refine read_bind ((bindParameters hs _ 0 c.parameters arguments).bind fun left t _ ht => ?_)
  have hbound : (t.bind .rest left).Native := ht.congr rfl rfl rfl
  have hself : (this.elim (t.bind .rest left) ((t.bind .rest left).bind .self)).Native := by
    cases this with
    | none => exact hbound
    | some v => exact hbound.congr rfl rfl rfl
  exact landReturn _ (body hev hself c.body)

theorem run (hs : s.Native) (c : Closure) (arguments : Value) (this : Option Value) :
    Relays evaluator context always none fun ev =>
      Closure.run ev context c arguments this s := by
  have hfresh : (s.allocScope .empty).2.Native := hs.congr rfl rfl rfl
  refine inScope (inScope (inFrame (runBody hev ?_ c arguments this)))
  exact hfresh.congr rfl rfl rfl

theorem primitive (hs : s.Native) (n : Nat) (op : Primitive) (arguments : Value)
    (halways : op = .guarded →
      ∀ form u, FollowsAttempt evaluator context arguments s form u → always form u) :
    Relays evaluator context always none fun ev => op.run ev context n arguments s := by
  cases op with
  | quote | unquote | splice | list | not | eql | equal => exact value _ hs
  | backquote => exact backquote hev hs n arguments
  | makeLambda => exact makeFunction hs (by decide +kernel) false arguments
  | makeMacro => exact makeFunction hs (by decide +kernel) true arguments
  | bindVariable => exact bindVariable hev hs arguments
  | assign => exact assign hev hs arguments
  | scope => exact scope hev hs arguments
  | gensym => exact value _ hs.generate
  | choose => exact choose hev hs arguments
  | sequence | sequenceDo => exact body hev hs arguments
  | conjunction => exact conjunction hev hs arguments
  | disjunction => exact disjunction hev hs arguments
  | loop => exact loop hev hs n arguments
  | guarded => exact guarded hev hs arguments (halways rfl)
  | breakLoop => exact breakLoop hs
  | returnValue => exact returnValue hs arguments
  | throwText => exact throwText hs arguments
  | defineNamespace =>
    exact answer hs (fun _ _ => NamespaceForm.native_create hs)
      fun _ => NamespaceForm.raw_create hs
  | inNamespace => exact onNamed hs fun _ _ _ => hs.changeNamespace
  | useNamespace => exact onNamed hs fun _ _ _ => hs.useNamed
  | car | cdr => exact half hs (by decide +kernel) _ arguments
  | cons => exact value _ (hs.congr rfl rfl rfl)
  | evaluate => exact read_bind (ask hev hs)
  | typeOf => exact typeOf hs arguments
  | element => exact element hs arguments
  | array => exact value _ (hs.congr rfl rfl rfl)
  | makeArray => exact makeArray hs arguments
  | dictionary => exact dictionary hs arguments
  | hashTable => exact hashTable hs arguments
  | length => exact length hs arguments
  | map => exact mapOver hev hs arguments
  | add | subtract | multiply | divide | remainder => exact arithmetic hs _ arguments
  | less | lessEqual | greater | greaterEqual => exact comparison hs _ arguments
  | max | min => exact extremum hs _ arguments

theorem call (hs : s.Native) (hosts : HostTable) (n : Nat) (id : FunctionId) {f : Callable}
    (arguments : Value) (hf : ∀ g, f ≠ .host g)
    (halways : f = .primitive .guarded →
      ∀ form u, FollowsAttempt evaluator context arguments s form u → always form u) :
    Relays evaluator context always none fun ev => f.call hosts ev n context id arguments s := by
  cases f with
  | primitive op => exact primitive hev hs n op arguments fun hop => halways (congrArg _ hop)
  | host g => exact absurd rfl (hf g)
  | lambda c => exact run hev hs c arguments (some (.function id))
  | expander c => exact (run hev hs c arguments none).bind fun expansion t _ ht => ask hev ht

/-- The form that is always evaluated is looked at when the operator has its value. -/
theorem applyForm (hs : s.Native) (hosts : HostTable) (n : Nat) (cell : CellId)
    (halways : ∀ id t form u,
      evaluator context (.evaluate (s.car cell)) s = .ok (.function id) t →
      t.callable id = .primitive .guarded →
      FollowsAttempt evaluator context (s.cdr cell) t form u → always form u) :
    Relays evaluator context always none fun ev =>
      Evaluator.applyForm hosts ev n context cell s := by
  refine read_bind (read_bind ((ask hev hs).bind fun head t hhead ht => ?_))
  cases head with
  | function id =>
    refine read_bind ?_
    cases hfit : Evaluator.fit t id (s.cdr cell) with
    | dotted => exact read_bind (fault ht (raw_evaluation (ht.markFree_printed _)))
    | short expected got => exact read_bind (fault ht (Fault.raw_of_not_placed fun h => h))
    | fits f =>
      have hf := Pairing.callable_of_fits hfit
      have hnative : ∀ g, f ≠ .host g := fun g hg => ht.callable_ne_host id g (hf.trans hg)
      dsimp only
      split
      next hevaluates =>
        refine (evaluated hev ht _).bind fun arguments u _ hu => ?_
        refine call hev hu hosts n id arguments hnative fun hguarded => ?_
        rw [hguarded] at hevaluates
        cases hevaluates
      next =>
        exact call hev ht hosts n id (s.cdr cell) hnative fun hguarded form u =>
          halways id t form u hhead (hf.trans hguarded)
  | _ => exact read_bind (fault ht (raw_type (ht.markFree_printed _)))

theorem applyReady (hs : s.Native) (hosts : HostTable) (n : Nat) (id : FunctionId)
    (arguments : Value) (halways : s.callable id = .primitive .guarded →
      ∀ form u, FollowsAttempt evaluator context arguments s form u → always form u) :
    Relays evaluator context always none fun ev =>
      Evaluator.applyReady hosts ev n context id arguments s := by
  refine read_bind ?_
  cases hfit : Evaluator.fit s id arguments with
  | dotted => exact read_bind (fault hs (raw_evaluation (hs.markFree_printed _)))
  | short expected got => exact fault hs (Fault.raw_of_not_placed fun h => h)
  | fits f =>
    have hf := Pairing.callable_of_fits hfit
    exact call hev hs hosts n id arguments (fun g hg => hs.callable_ne_host id g (hf.trans hg))
      fun hguarded => halways (hf.trans hguarded)

end Asking

end Relays

end SmallLisp
