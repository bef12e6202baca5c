import Mathlib.Algebra.Ring.Int.Defs
import SmallLisp.Proofs.Arguments
import SmallLisp.Proofs.Token

/-!
# Integer arithmetic is exact

The reference is a left fold over integers without a bound: `Arithmetic.operands` says where it
starts and what it goes through, `Arithmetic.partialResult` what it has come to after some of the
operands. An operation on 64-bit integers gives the value of this fold, or it fails with the first
step that divides by zero or leaves 64 bits; nothing wraps. One more step is refused, the remainder
of the least integer by -1.
-/

namespace SmallLisp

namespace Arithmetic

/-- The operation of the standard library that folds with this step. -/
def primitive : Arithmetic → Primitive
  | .add => .add
  | .subtract => .subtract
  | .multiply => .multiply
  | .divide => .divide
  | .remainder => .remainder

/-- The exact number that an operation without further arguments starts from. -/
def neutral : Arithmetic → Int
  | .add | .subtract => 0
  | .multiply | .divide | .remainder => 1

/-- Where the exact fold over some arguments starts, and the operands that it goes through. -/
def operands (op : Arithmetic) : List Int → Int × List Int
  | [] => (op.neutral, [])
  | [x] => if op.invertsSingle then (op.neutral, [x]) else (x, [])
  | x :: ys => (x, ys)

/-- The exact result after `k` operands. -/
def partialResult (op : Arithmetic) (start : Int) (ys : List Int) (k : Nat) : Int :=
  (ys.take k).foldl op.onInt start

/-- A step that the exact fold can take within 64 bits. -/
structure Admits (op : Arithmetic) (x y : Int) : Prop where
  nonzero : op.divides = true → y ≠ 0
  fits : Number.fits (op.onInt x y) = true

/-- The step that is not taken although its exact result is zero. -/
def Refuses (op : Arithmetic) (x y : Int) : Prop :=
  op = .remainder ∧ x = Int64.minValue.toInt ∧ y = -1

/-- A step that the operation takes. -/
def Takes (op : Arithmetic) (x y : Int) : Prop := op.Admits x y ∧ ¬ op.Refuses x y

/-- What is wrong with a step by `y` that is not taken. -/
def failure (op : Arithmetic) (y : Int) : EvaluationFault :=
  if op.divides = true ∧ y = 0 then .divisionByZero op.operator else .overflow op.operator

/-- Quotients are truncated toward zero, and remainders have the sign of the dividend. -/
structure Truncates (quotient remainder : Int → Int → Int) : Prop where
  whole : ∀ x y, y * quotient x y + remainder x y = x
  small : ∀ x y, y ≠ 0 → (remainder x y).natAbs < y.natAbs
  nonneg : ∀ x y, 0 ≤ x → 0 ≤ remainder x y
  nonpos : ∀ x y, x ≤ 0 → remainder x y ≤ 0

theorem truncates : Truncates (onInt .divide) (onInt .remainder) where
  whole := Int.mul_tdiv_add_tmod
  small := by
    intro x y hy
    have hpos : 0 < y.natAbs := Int.natAbs_pos.mpr hy
    calc (x.tmod y).natAbs = x.natAbs % y.natAbs := Int.natAbs_tmod x y
      _ < y.natAbs := Nat.mod_lt _ hpos
  nonneg := fun _ y hx => Int.tmod_nonneg y hx
  nonpos := by
    intro x y hx
    have hopposite : 0 ≤ (-x).tmod y := Int.tmod_nonneg y (by omega)
    rw [Int.neg_tmod] at hopposite
    exact Int.nonpos_of_neg_nonneg hopposite

theorem identity_eq (op : Arithmetic) : op.identity = .int (Int64.ofInt op.neutral) := by
  cases op <;> rfl

theorem toInt_neutral (op : Arithmetic) : (Int64.ofInt op.neutral).toInt = op.neutral := by
  cases op <;> rfl

variable {op : Arithmetic} {x y : Int64}

theorem isZero_int : (Number.int y).isZero = true ↔ y.toInt = 0 := by
  rw [Number.isZero, beq_iff_eq, ← Int64.toInt_inj, Int64.toInt_zero]

/-- The refusal of the operation is the one step. -/
theorem refused_iff :
    (op == .remainder && x == Int64.minValue && y == -1) = true ↔ op.Refuses x.toInt y.toInt := by
  have hminus : (-1 : Int64).toInt = -1 := rfl
  simp only [Refuses, Bool.and_eq_true, beq_iff_eq, and_assoc, Int64.toInt_inj, ← hminus]

/-- A step that can be taken gives the exact result. -/
theorem step_taken (h : op.Takes x.toInt y.toInt) :
    ∃ r : Int64, r.toInt = op.onInt x.toInt y.toInt ∧ op.step (.int x) (.int y) = .ok (.int r) := by
  obtain ⟨⟨hnonzero, hfits⟩, hrefuses⟩ := h
  have hdivides : (op.divides && (Number.int y).isZero) = false := by
    rw [Bool.and_eq_false_iff, ← Bool.not_eq_true, ← Bool.not_eq_true, isZero_int]
    exact Decidable.not_and_iff_or_not.mp fun h => hnonzero h.1 h.2
  have hresult : op.onInt64? x y = some (Int64.ofInt (op.onInt x.toInt y.toInt)) := by
    rw [← refused_iff, Bool.not_eq_true] at hrefuses
    simp [onInt64?, hfits, hrefuses]
  refine ⟨_, toInt_of_onInt64? hresult, ?_⟩
  simp [step, hdivides, hresult]

/-- A step that can not be taken fails, and the fault says why. -/
theorem step_failed (h : ¬ op.Takes x.toInt y.toInt) :
    op.step (.int x) (.int y) = .error (.evaluation (op.failure y.toInt) none) := by
  by_cases hzero : op.divides = true ∧ y.toInt = 0
  · have hdivides : (op.divides && (Number.int y).isZero) = true := by
      rw [Bool.and_eq_true, isZero_int]
      exact hzero
    rw [step, if_pos hdivides, failure, if_pos hzero]
  · have hdivides : ¬ (op.divides && (Number.int y).isZero) = true := by
      rw [Bool.and_eq_true, isZero_int]
      exact hzero
    have hresult : op.onInt64? x y = none := by
      refine Option.eq_none_iff_forall_ne_some.mpr fun r hr => h ?_
      simp only [onInt64?, Option.ite_none_right_eq_some, Bool.and_eq_true] at hr
      refine ⟨⟨fun hdiv hy => hzero ⟨hdiv, hy⟩, hr.1.1⟩, fun hrefuses => ?_⟩
      have hrefused := refused_iff.mpr hrefuses
      simp only [Bool.and_eq_true] at hrefused
      simp [hrefused] at hr
    rw [step, if_neg hdivides, failure, if_neg hzero]
    simp [hresult]

/-! ## Folding from the left -/

variable {read : Value → Except Fault Number} {start : Int} {ys : List Int}

@[simp]
theorem partialResult_zero : op.partialResult start ys 0 = start := rfl

@[simp]
theorem partialResult_succ (y : Int) (k : Nat) :
    op.partialResult start (y :: ys) (k + 1) = op.partialResult (op.onInt start y) ys k := rfl

/-- Where every step is taken, the fold comes to the exact result. -/
theorem foldFrom_exact (hread : ∀ x, read (.ofInt64 x) = .ok (.int x)) (acc : Int64)
    (xs : List Int64)
    (h : ∀ k y, (xs.map Int64.toInt)[k]? = some y →
      op.Takes (op.partialResult acc.toInt (xs.map Int64.toInt) k) y) :
    ∃ r : Int64, r.toInt = (xs.map Int64.toInt).foldl op.onInt acc.toInt ∧
      op.foldFrom read (.int acc) (xs.map .ofInt64) = .ok (.int r) := by
  induction xs generalizing acc with
  | nil => exact ⟨acc, rfl, rfl⟩
  | cons x xs ih =>
    obtain ⟨r, hr, hstep⟩ := step_taken (h 0 x.toInt rfl)
    have hrest : ∀ k y, (xs.map Int64.toInt)[k]? = some y →
        op.Takes (op.partialResult r.toInt (xs.map Int64.toInt) k) y := by
      intro k y hy
      rw [hr]
      exact h (k + 1) y hy
    obtain ⟨result, hresult, hfold⟩ := ih r hrest
    refine ⟨result, ?_, ?_⟩
    · rw [hresult, hr]
      rfl
    · simp only [List.map_cons, foldFrom, hread, hstep]
      exact hfold

/-- The first step that is not taken ends the fold. -/
theorem foldFrom_failed (hread : ∀ x, read (.ofInt64 x) = .ok (.int x)) (acc : Int64)
    (xs : List Int64) {k : Nat} {y : Int} (hy : (xs.map Int64.toInt)[k]? = some y)
    (hbefore : ∀ j z, j < k → (xs.map Int64.toInt)[j]? = some z →
      op.Takes (op.partialResult acc.toInt (xs.map Int64.toInt) j) z)
    (h : ¬ op.Takes (op.partialResult acc.toInt (xs.map Int64.toInt) k) y) :
    op.foldFrom read (.int acc) (xs.map .ofInt64) =
      .error (.evaluation (op.failure y) none) := by
  induction xs generalizing acc k with
  | nil => cases hy
  | cons x xs ih =>
    cases k with
    | zero =>
      obtain rfl : x.toInt = y := Option.some.inj hy
      simp only [List.map_cons, foldFrom, hread, step_failed h]
    | succ k =>
      obtain ⟨r, hr, hstep⟩ := step_taken (hbefore 0 x.toInt (Nat.succ_pos k) rfl)
      simp only [List.map_cons, foldFrom, hread, hstep]
      refine ih r hy (fun j z hj hz => ?_) ?_
      · rw [hr]
        exact hbefore (j + 1) z (Nat.succ_lt_succ hj) hz
      · rw [hr]
        exact h

/-- Folding some integers is folding the exact operands from the exact start. -/
theorem fold_eq (op : Arithmetic) (hread : ∀ x, read (.ofInt64 x) = .ok (.int x))
    (xs : List Int64) :
    ∃ (acc : Int64) (zs : List Int64),
      op.operands (xs.map Int64.toInt) = (acc.toInt, zs.map Int64.toInt) ∧
      op.fold read (xs.map .ofInt64) = op.foldFrom read (.int acc) (zs.map .ofInt64) := by
  match xs with
  | [] =>
    refine ⟨Int64.ofInt op.neutral, [], ?_, ?_⟩
    · rw [toInt_neutral]
      rfl
    · rw [← identity_eq]
      rfl
  | [x] =>
    cases hinverts : op.invertsSingle with
    | true =>
      refine ⟨Int64.ofInt op.neutral, [x], ?_, ?_⟩
      · rw [toInt_neutral]
        simp [operands, hinverts]
      · simp only [List.map_cons, List.map_nil, fold, foldFrom, hread, hinverts, if_true,
          ← identity_eq]
        cases op.step op.identity (.int x) <;> rfl
    | false =>
      refine ⟨x, [], ?_, ?_⟩
      · simp [operands, hinverts]
      · simp [fold, foldFrom, hread, hinverts]
  | x :: z :: zs => exact ⟨x, z :: zs, rfl, by simp [fold, hread]⟩

end Arithmetic

/-! ## Applying an operation -/

theorem Operation.numberOf_ofInt64 (operator : String) (s : Interp) (x : Int64) :
    numberOf operator s (.ofInt64 x) = .ok (.int x) := rfl

/-- An operation on integers folds the elements of its argument list and changes nothing. -/
theorem Arithmetic.run_eq (op : Arithmetic) (ev : Evaluators) (context : Value) (n : Nat)
    (arguments : Value) :
    op.primitive.run ev context n arguments = Operation.arithmetic op arguments := by
  cases op <;> rfl

/-- A primitive that its arguments supply is run on them. -/
theorem Evaluator.perform_primitive {hosts : HostTable} {n : Nat} {context arguments : Value}
    {id : FunctionId} {p : Primitive} (hid : s.callable id = .primitive p)
    (hsupplies : s.Supplies (s.callable id) arguments) :
    perform hosts (n + 1) context (.apply id arguments) s =
      p.run (perform hosts n) context n arguments s := by
  rcases fit_cases s id arguments with ⟨-, hfit⟩ | ⟨hnot, -⟩
  · show applyReady hosts (perform hosts n) n context id arguments s = _
    unfold applyReady
    rw [EvalM.read_bind_apply, hfit, hid]
    rfl
  · exact absurd hsupplies hnot

/-- An operation that is applied to as many integers as it needs gives the exact result if it takes
every step of the exact fold. Otherwise it fails with the first step that it does not take: a
division by zero, or one that leaves 64 bits, or the one that is refused. -/
theorem integer_folds_exact (op : Arithmetic) (hosts : HostTable) (n : Nat)
    (context : Value) {id : FunctionId} {arguments : Value} {xs : List Int64}
    (hid : s.callable id = .primitive op.primitive)
    (harguments : ProperList s arguments (xs.map .ofInt64))
    (harity : op.primitive.minArgs ≤ xs.length) :
    let result := Evaluator.perform hosts (n + 1) context (.apply id arguments) s
    let start := (op.operands (xs.map Int64.toInt)).1
    let ys := (op.operands (xs.map Int64.toInt)).2
    ((∀ k y, ys[k]? = some y → op.Takes (op.partialResult start ys k) y) →
      ∃ r : Int64, r.toInt = ys.foldl op.onInt start ∧ result = .ok (.ofInt64 r) s) ∧
    (∀ k y, ys[k]? = some y →
      (∀ j z, j < k → ys[j]? = some z → op.Takes (op.partialResult start ys j) z) →
      ¬ op.Takes (op.partialResult start ys k) y →
      result = .error (.fault (.evaluation (op.failure y) none)) s) ∧
    Arithmetic.Truncates (Arithmetic.onInt .divide) (Arithmetic.onInt .remainder) := by
  intro result start ys
  obtain ⟨hproper, helements⟩ := ProperList.iff_isProper.mp harguments
  have hlength : s.lengthOf arguments = xs.length := by
    have h := congrArg List.length helements
    rwa [Interp.elementsOf, List.length_map, List.length_map] at h
  have hsupplies : s.Supplies (s.callable id) arguments := by
    refine ⟨hproper, ?_⟩
    rw [hlength, hid]
    exact harity
  have hread := Operation.numberOf_ofInt64 op.operator s
  obtain ⟨acc, zs, hoperands, hfold⟩ := op.fold_eq hread xs
  have hstart : start = acc.toInt := congrArg Prod.fst hoperands
  have hys : ys = zs.map Int64.toInt := congrArg Prod.snd hoperands
  have hresult : result = Operation.query (fun s =>
      (op.foldFrom (Operation.numberOf op.operator s) (.int acc) (zs.map .ofInt64)).map .number)
        s := by
    show Evaluator.perform hosts (n + 1) context (.apply id arguments) s = _
    rw [Evaluator.perform_primitive hid hsupplies, Arithmetic.run_eq]
    unfold Operation.arithmetic Operation.query
    dsimp only
    rw [helements, hfold]
  rw [hstart, hys]
  refine ⟨fun htakes => ?_, fun k y hy hbefore hstep => ?_, Arithmetic.truncates⟩
  · obtain ⟨r, hr, hexact⟩ := Arithmetic.foldFrom_exact hread acc zs htakes
    refine ⟨r, hr, ?_⟩
    rw [hresult, Operation.query, hexact]
    rfl
  · have hfailed := Arithmetic.foldFrom_failed hread acc zs hy hbefore hstep
    rw [hresult, Operation.query, hfailed]
    rfl

/-- A sum that leaves 64 bits on the way fails, although its exact value would fit. -/
theorem greatest_integer_plus_one :
    ∃ (s : Interp) (id : FunctionId) (arguments : Value) (xs : List Int64),
      s.callable id = .primitive Arithmetic.add.primitive ∧
      ProperList s arguments (xs.map .ofInt64) ∧ Arithmetic.add.primitive.minArgs ≤ xs.length ∧
      (xs.map Int64.toInt).sum = 0 ∧
      Evaluator.perform HostProgram.demonstration 1 .nil (.apply id arguments) s =
        .error (.fault (.evaluation (.overflow "+") none)) s := by
  let xs : List Int64 := [9223372036854775807, 1, -9223372036854775808]
  let r := (Interp.initial 8).listOf (xs.map .ofInt64)
  have hid : r.2.callable ⟨39⟩ = .primitive Arithmetic.add.primitive := by decide +kernel
  have hlist : r.2.isProper r.1 = true ∧ r.2.elementsOf r.1 = xs.map .ofInt64 := by
    decide +kernel
  have harguments : ProperList r.2 r.1 (xs.map .ofInt64) := ProperList.iff_isProper.mpr hlist
  have harity : Arithmetic.add.primitive.minArgs ≤ xs.length := Nat.zero_le _
  obtain ⟨-, hfails, -⟩ := integer_folds_exact .add HostProgram.demonstration 0 .nil hid harguments
    harity
  refine ⟨r.2, ⟨39⟩, r.1, xs, hid, harguments, harity, by decide, ?_⟩
  refine hfails 0 1 (by decide) (fun j z hj => absurd hj (Nat.not_lt_zero j)) fun htakes => ?_
  exact absurd htakes.1.fits (by decide)

end SmallLisp
