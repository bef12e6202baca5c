import Mathlib.Data.List.Chain
import SmallLisp.Proofs.ExactArithmetic

/-!
# Comparisons and extrema

A comparison looks at neighbours only, from the left, and stops at the first pair that does not
satisfy it. The four relations are transitive, so on integers the answer is about all pairs. An
argument that is no number is a fault when its turn comes: a comparison gets there only if all pairs
in front of it satisfy it, an extremum always.
-/

namespace SmallLisp

/-- The relation of integers that a comparison tests. -/
def Comparison.relation : Comparison → Int → Int → Prop
  | .less => (· < ·)
  | .lessEqual => (· ≤ ·)
  | .greater => (· > ·)
  | .greaterEqual => (· ≥ ·)

instance (op : Comparison) : DecidableRel op.relation :=
  match op with
  | .less => inferInstanceAs (DecidableRel ((· < ·) : Int → Int → Prop))
  | .lessEqual => inferInstanceAs (DecidableRel ((· ≤ ·) : Int → Int → Prop))
  | .greater => inferInstanceAs (DecidableRel ((· > ·) : Int → Int → Prop))
  | .greaterEqual => inferInstanceAs (DecidableRel ((· ≥ ·) : Int → Int → Prop))

/-- The operation of the standard library that tests this comparison. -/
def Comparison.primitive : Comparison → Primitive
  | .less => .less
  | .lessEqual => .lessEqual
  | .greater => .greater
  | .greaterEqual => .greaterEqual

/-- The operation of the standard library that finds this extremum. -/
def Extremum.primitive : Extremum → Primitive
  | .max => .max
  | .min => .min

/-- On which side of an extremum the other integers are. -/
def Extremum.Bounds : Extremum → Int → Int → Prop
  | .max, r, x => x ≤ r
  | .min, r, x => r ≤ x

/-- The fault of an argument that is no number. -/
def noNumber (operator : String) (s : Interp) (v : Value) : Flow :=
  .fault (.type (.numberOperand operator (s.print v)) none)

/-- What a comparison answers on some arguments. -/
structure Comparison.Answers (op : Comparison) (s : Interp) (items : List Value)
    (result : EStateM.Result Flow Interp Value) : Prop where
  /-- On integers the relation holds of all pairs, or the answer is `NIL`. -/
  integers : ∀ xs : List Int64, items = xs.map .ofInt64 →
    ((xs.map Int64.toInt).Pairwise op.relation → result = .ok .truth s) ∧
      (¬ (xs.map Int64.toInt).Pairwise op.relation → result = .ok .nil s)
  /-- The first argument that is no number is a fault if all neighbours before it satisfy the
  comparison. -/
  mixed : ∀ (numbers : List Number) (v : Value) (rest : List Value),
    items = numbers.map .number ++ v :: rest → (∀ n, v ≠ .number n) →
      (numbers.IsChain (fun a b => op.holds a b = true) →
        result = .error (noNumber op.operator s v) s) ∧
      (¬ numbers.IsChain (fun a b => op.holds a b = true) → result = .ok .nil s)
  /-- Two integers satisfy the comparison if they stand in the relation. -/
  satisfied : ∀ x y : Int64,
    op.holds (.int x) (.int y) = true ↔ op.relation x.toInt y.toInt

/-- What an extremum answers on some arguments. -/
structure Extremum.Answers (op : Extremum) (s : Interp) (items : List Value)
    (result : EStateM.Result Flow Interp Value) : Prop where
  /-- Of integers it is one that bounds all of them. -/
  integers : ∀ xs : List Int64, items = xs.map .ofInt64 →
    ∃ r ∈ xs, (∀ x ∈ xs, op.Bounds r.toInt x.toInt) ∧ result = .ok (.ofInt64 r) s
  /-- An argument that is no number is a fault. -/
  mixed : ∀ (numbers : List Number) (v : Value) (rest : List Value),
    items = numbers.map .number ++ v :: rest → (∀ n, v ≠ .number n) →
      result = .error (noNumber op.operator s v) s

/-! ## Reading arguments -/

section Reading

variable {s : Interp}

theorem Operation.numberOf_eq_error {v : Value} (operator : String) (hv : ∀ n, v ≠ .number n) :
    numberOf operator s v = .error (.type (.numberOperand operator (s.print v)) none) := by
  cases v with
  | number n => exact absurd rfl (hv n)
  | _ => rfl

theorem ProperList.first_rest {arguments item : Value} {items : List Value}
    (h : ProperList s arguments (item :: items)) :
    s.first arguments = item ∧ s.elementsOf (s.rest arguments) = items := by
  obtain ⟨id, rfl, rfl, hrest⟩ := ProperList.cons_iff.mp h
  exact ⟨rfl, (ProperList.iff_isProper.mp hrest).2⟩

end Reading

variable {read : Value → Except Fault Number}

/-! ## Comparisons -/

namespace Comparison

variable {op : Comparison}

theorem holds_int (x y : Int64) :
    op.holds (.int x) (.int y) = true ↔ op.relation x.toInt y.toInt := by
  have hlt : compare x.toInt y.toInt = .lt ↔ x.toInt < y.toInt := Int.compare_eq_lt
  have hgt : compare x.toInt y.toInt = .gt ↔ y.toInt < x.toInt := Int.compare_eq_gt
  cases op <;> simp [holds, Number.compare?, accepts, relation, hlt, hgt]

instance : IsTrans Int op.relation where
  trans := by
    cases op <;> simp only [relation] <;> omega

/-- While neighbours satisfy the comparison, the chain goes on with the last of them. -/
theorem chainFrom_append (hread : ∀ n, read (.number n) = .ok n) (previous : Number)
    (numbers : List Number) (rest : List Value)
    (h : (previous :: numbers).IsChain fun a b => op.holds a b = true) :
    ∃ last, op.chainFrom read previous (numbers.map .number ++ rest) =
      op.chainFrom read last rest := by
  induction numbers generalizing previous with
  | nil => exact ⟨previous, rfl⟩
  | cons n numbers ih =>
    obtain ⟨hholds, hchain⟩ := List.isChain_cons_cons.mp h
    obtain ⟨last, hlast⟩ := ih n hchain
    refine ⟨last, ?_⟩
    simp only [List.map_cons, List.cons_append, chainFrom, hread, hholds, if_true]
    exact hlast

/-- The first pair that does not satisfy the comparison ends the chain. -/
theorem chainFrom_broken (hread : ∀ n, read (.number n) = .ok n) (previous : Number)
    (numbers : List Number) (rest : List Value)
    (h : ¬ (previous :: numbers).IsChain fun a b => op.holds a b = true) :
    op.chainFrom read previous (numbers.map .number ++ rest) = .ok false := by
  induction numbers generalizing previous with
  | nil => exact absurd (.singleton _) h
  | cons n numbers ih =>
    simp only [List.map_cons, List.cons_append, chainFrom, hread]
    by_cases hholds : op.holds previous n = true
    · rw [if_pos hholds]
      exact ih n fun hchain => h (.cons_cons hholds hchain)
    · rw [if_neg hholds]

/-- Neighbours satisfy the comparison exactly if all pairs of integers stand in the relation. -/
theorem isChain_int {xs : List Int64} :
    ((xs.map Number.int).IsChain fun a b => op.holds a b = true) ↔
      (xs.map Int64.toInt).Pairwise op.relation := by
  rw [← List.isChain_iff_pairwise, List.isChain_map, List.isChain_map]
  exact List.IsChain.iff fun x y => holds_int x y

theorem run_eq (op : Comparison) (ev : Evaluators) (context : Value) (n : Nat)
    (arguments : Value) :
    op.primitive.run ev context n arguments = Operation.comparison op arguments := by
  cases op <;> rfl

variable {s : Interp} {arguments : Value} {items : List Value}

/-- A comparison is the chain from its first argument through the others. -/
theorem comparison_eq {first : Number} (h : ProperList s arguments (.number first :: items))
    {r : Except Fault Bool}
    (hchain : op.chainFrom (Operation.numberOf op.operator s) first items = r) :
    Operation.comparison op arguments s = Operation.query (fun _ => r.map .ofBool) s := by
  obtain ⟨hfirst, hrest⟩ := h.first_rest
  unfold Operation.comparison Operation.query
  dsimp only
  rw [hfirst, hrest, ← hchain]
  rfl

/-- A first argument that is no number is read before anything is compared. -/
theorem comparison_fault {v : Value} {fault : Fault} (h : ProperList s arguments (v :: items))
    (hv : Operation.numberOf op.operator s v = .error fault) :
    Operation.comparison op arguments s = .error (.fault fault) s := by
  unfold Operation.comparison Operation.query
  dsimp only
  rw [h.first_rest.1, hv]

theorem answers (h : ProperList s arguments items) (hne : items ≠ []) :
    op.Answers s items (Operation.comparison op arguments s) := by
  have hread : ∀ n, Operation.numberOf op.operator s (.number n) = .ok n := fun _ => rfl
  constructor
  · intro xs hxs
    obtain _ | ⟨x, xs⟩ := xs
    · exact absurd hxs hne
    subst hxs
    have hvalues : xs.map Value.ofInt64 = (xs.map Number.int).map .number ++ [] := by
      rw [List.map_map, List.append_nil]
      rfl
    rw [List.map_cons, hvalues] at h
    rw [← isChain_int]
    constructor
    · intro hchain
      obtain ⟨last, hlast⟩ := chainFrom_append hread (.int x) _ [] hchain
      exact comparison_eq h hlast
    · intro hchain
      exact comparison_eq h (chainFrom_broken hread (.int x) _ [] hchain)
  · intro numbers v rest hitems hv
    have hfault := Operation.numberOf_eq_error (s := s) op.operator hv
    subst hitems
    obtain _ | ⟨n, numbers⟩ := numbers
    · exact ⟨fun _ => comparison_fault h hfault, fun hchain => absurd .nil hchain⟩
    · constructor
      · intro hchain
        obtain ⟨last, hlast⟩ := chainFrom_append hread n numbers (v :: rest) hchain
        rw [chainFrom, hfault] at hlast
        exact comparison_eq h hlast
      · intro hchain
        exact comparison_eq h (chainFrom_broken hread n numbers (v :: rest) hchain)
  · exact holds_int

end Comparison

/-! ## Extrema -/

namespace Extremum

variable {op : Extremum}

/-- The better of two integers bounds both of them. -/
theorem pick_int (x y : Int64) :
    ∃ r : Int64, op.pick (.int x) (.int y) = .int r ∧ (r = x ∨ r = y) ∧
      op.Bounds r.toInt x.toInt ∧ op.Bounds r.toInt y.toInt := by
  have hlt : compare y.toInt x.toInt = .lt ↔ y.toInt < x.toInt := Int.compare_eq_lt
  have hgt : compare y.toInt x.toInt = .gt ↔ x.toInt < y.toInt := Int.compare_eq_gt
  by_cases hbetter : compare y.toInt x.toInt = op.better
  · refine ⟨y, by simp [pick, Number.compare?, hbetter], .inr rfl, ?_⟩
    cases op <;> simp only [better, hlt, hgt] at hbetter <;> simp only [Bounds] <;> omega
  · refine ⟨x, by simp [pick, Number.compare?, hbetter], .inl rfl, ?_⟩
    cases op <;> simp only [better, hlt, hgt] at hbetter <;> simp only [Bounds] <;> omega

theorem Bounds.trans {a b c : Int} (hab : op.Bounds a b) (hbc : op.Bounds b c) :
    op.Bounds a c := by
  cases op <;> simp only [Bounds] at hab hbc ⊢ <;> omega

theorem foldFrom_int (hread : ∀ n, read (.number n) = .ok n) (best : Int64) (xs : List Int64) :
    ∃ r ∈ best :: xs, (∀ x ∈ best :: xs, op.Bounds r.toInt x.toInt) ∧
      op.foldFrom read (.int best) (xs.map .ofInt64) = .ok (.int r) := by
  induction xs generalizing best with
  | nil =>
    refine ⟨best, List.mem_cons_self, ?_, rfl⟩
    rw [List.forall_mem_singleton]
    cases op <;> exact Int.le_refl _
  | cons x xs ih =>
    obtain ⟨b, hpick, hb, hbest, hx⟩ := op.pick_int best x
    obtain ⟨r, hr, hbounds, hfold⟩ := ih b
    have hrb : op.Bounds r.toInt b.toInt := hbounds b List.mem_cons_self
    refine ⟨r, ?_, ?_, ?_⟩
    · rcases List.mem_cons.mp hr with rfl | hr
      · rcases hb with rfl | rfl <;> simp
      · simp [hr]
    · intro y hy
      rcases List.mem_cons.mp hy with rfl | hy
      · exact hrb.trans hbest
      rcases List.mem_cons.mp hy with rfl | hy
      · exact hrb.trans hx
      · exact hbounds y (List.mem_cons_of_mem b hy)
    · simp only [List.map_cons, foldFrom, Value.ofInt64, hread, hpick]
      exact hfold

theorem foldFrom_mixed (hread : ∀ n, read (.number n) = .ok n) {v : Value} {fault : Fault}
    (hv : read v = .error fault) (best : Number) (numbers : List Number) (rest : List Value) :
    op.foldFrom read best (numbers.map .number ++ v :: rest) = .error fault := by
  induction numbers generalizing best with
  | nil => simp only [List.map_nil, List.nil_append, foldFrom, hv]
  | cons n numbers ih =>
    simp only [List.map_cons, List.cons_append, foldFrom, hread]
    exact ih (op.pick best n)

theorem run_eq (op : Extremum) (ev : Evaluators) (context : Value) (n : Nat)
    (arguments : Value) :
    op.primitive.run ev context n arguments = Operation.extremum op arguments := by
  cases op <;> rfl

variable {s : Interp} {arguments : Value} {items : List Value}

theorem extremum_eq {first : Number} (h : ProperList s arguments (.number first :: items))
    {r : Except Fault Number}
    (hfold : op.foldFrom (Operation.numberOf op.operator s) first items = r) :
    Operation.extremum op arguments s = Operation.query (fun _ => r.map .number) s := by
  obtain ⟨hfirst, hrest⟩ := h.first_rest
  unfold Operation.extremum Operation.query
  dsimp only
  rw [hfirst, hrest, ← hfold]
  rfl

theorem extremum_fault {v : Value} {fault : Fault} (h : ProperList s arguments (v :: items))
    (hv : Operation.numberOf op.operator s v = .error fault) :
    Operation.extremum op arguments s = .error (.fault fault) s := by
  unfold Operation.extremum Operation.query
  dsimp only
  rw [h.first_rest.1, hv]

theorem answers (h : ProperList s arguments items) (hne : items ≠ []) :
    op.Answers s items (Operation.extremum op arguments s) := by
  have hread : ∀ n, Operation.numberOf op.operator s (.number n) = .ok n := fun _ => rfl
  constructor
  · intro xs hxs
    obtain _ | ⟨x, xs⟩ := xs
    · exact absurd hxs hne
    subst hxs
    obtain ⟨r, hr, hbounds, hfold⟩ := op.foldFrom_int hread x xs
    exact ⟨r, hr, hbounds, extremum_eq h hfold⟩
  · intro numbers v rest hitems hv
    have hfault := Operation.numberOf_eq_error (s := s) op.operator hv
    subst hitems
    obtain _ | ⟨n, numbers⟩ := numbers
    · exact extremum_fault h hfault
    · exact extremum_eq h (foldFrom_mixed hread hfault n numbers rest)

end Extremum

/-! ## Applying them -/

/-- A comparison of at least two arguments and an extremum of at least one. -/
theorem integers_in_order (hosts : HostTable) (n : Nat) (context : Value) (id : FunctionId)
    {s : Interp} {arguments : Value} {items : List Value}
    (harguments : ProperList s arguments items) :
    let result := Evaluator.perform hosts (n + 1) context (.apply id arguments) s
    (∀ op : Comparison, s.callable id = .primitive op.primitive → 2 ≤ items.length →
      op.Answers s items result) ∧
    ∀ op : Extremum, s.callable id = .primitive op.primitive → 1 ≤ items.length →
      op.Answers s items result := by
  intro result
  have hresult : ∀ p : Primitive, s.callable id = .primitive p → p.minArgs ≤ items.length →
      result = p.run (Evaluator.perform hosts n) context n arguments s := by
    intro p hid henough
    refine Evaluator.perform_primitive hid (harguments.supplies ?_)
    rw [hid]
    exact henough
  constructor
  · intro op hid hlength
    have harity : op.primitive.minArgs = 2 := by cases op <;> rfl
    rw [hresult op.primitive hid (by omega), op.run_eq]
    exact Comparison.answers harguments (List.ne_nil_of_length_pos (by omega))
  · intro op hid hlength
    have harity : op.primitive.minArgs = 1 := by cases op <;> rfl
    rw [hresult op.primitive hid (by omega), op.run_eq]
    exact Extremum.answers harguments (List.ne_nil_of_length_pos (by omega))

/-- A string behind a pair that is out of order is never looked at, but it has no greatest number
beside it. -/
theorem disorder_hides_string :
    ∃ (s : Interp) (less max : FunctionId) (arguments : Value),
      ProperList s arguments [.ofNat 2, .ofNat 1, .string "x"] ∧
      Evaluator.perform HostProgram.demonstration 1 .nil (.apply less arguments) s = .ok .nil s ∧
      Evaluator.perform HostProgram.demonstration 1 .nil (.apply max arguments) s =
        .error (noNumber "MAX" s (.string "x")) s := by
  let items : List Value := [.ofNat 2, .ofNat 1, .string "x"]
  let r := (Interp.initial 8).listOf items
  have hless : r.2.callable ⟨44⟩ = .primitive Comparison.less.primitive := by decide +kernel
  have hmax : r.2.callable ⟨48⟩ = .primitive Extremum.max.primitive := by decide +kernel
  have hlist : r.2.isProper r.1 = true ∧ r.2.elementsOf r.1 = items := by decide +kernel
  have harguments : ProperList r.2 r.1 items := ProperList.iff_isProper.mpr hlist
  have hmixed : items = [Number.int 2, .int 1].map .number ++ Value.string "x" :: [] := rfl
  have hchain : ¬ [Number.int 2, .int 1].IsChain fun a b => Comparison.less.holds a b = true := by
    rw [List.isChain_pair, Comparison.holds_int]
    decide
  obtain ⟨hcomparison, -⟩ :=
    integers_in_order HostProgram.demonstration 0 .nil ⟨44⟩ harguments
  obtain ⟨-, hextremum⟩ := integers_in_order HostProgram.demonstration 0 .nil ⟨48⟩ harguments
  have hanswer := ((hcomparison .less hless (by decide)).mixed _ _ _ hmixed nofun).2 hchain
  have hfault := (hextremum .max hmax (by decide)).mixed _ _ _ hmixed nofun
  exact ⟨r.2, ⟨44⟩, ⟨48⟩, r.1, harguments, hanswer, hfault⟩

end SmallLisp
