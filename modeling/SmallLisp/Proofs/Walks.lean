import SmallLisp.Proofs.Arguments
import SmallLisp.Proofs.Chains
import SmallLisp.Proofs.Completion

/-!
# Walks along a list

The length, the elements and the properness of a list are read off its spine, which a bounded walk
finds. Here a list is walked by itself in each of these cases, cell by cell for as long as there is
one: an iterator yields the elements, a count takes the cells and looks at what ends them, and an
element can be asked for by its index. How many steps a walk takes is not said.

On a list that has an end every walk comes to its end, and all walks agree with each other and with
what is read off the spine.
-/

namespace SmallLisp

namespace Interp

/-! ## The walks -/

/-- What an iterator at this value yields, and where it is afterwards. -/
def next? (s : Interp) : Value → Option (Value × Value)
  | .cons id => some (s.car id, s.cdr id)
  | _ => none

theorem next?_eq_none {s : Interp} {v : Value} (hatom : ¬ v.IsCell) : s.next? v = none := by
  cases v with
  | cons id => exact absurd (Value.isCell_cons id) hatom
  | _ => rfl

/-- Everything that an iterator yields. -/
def yielded? (s : Interp) : Nat → Value → Option (List Value)
  | 0, _ => none
  | n + 1, v =>
    match s.next? v with
    | none => some []
    | some (item, rest) => do
      let items ← s.yielded? n rest
      some (item :: items)

/-- Pass over `n` elements and yield the next one. -/
def nthYielded? (s : Interp) : Nat → Value → Option Value
  | 0, v => (s.next? v).map Prod.fst
  | n + 1, v => (s.next? v).bind fun (_, rest) => s.nthYielded? n rest

/-- Whether a list ends in the empty list, and how many cells it has beside the `count` before
it. -/
def listInfo? (s : Interp) : Nat → Nat → Value → Option (Bool × Nat)
  | 0, _, _ => none
  | _ + 1, count, .nil => some (true, count)
  | n + 1, count, .cons id => s.listInfo? n (count + 1) (s.cdr id)
  | _ + 1, count, _ => some (false, count)

/-- The elements of a proper list: its end is looked at first, then they are yielded. -/
def vector? (s : Interp) (n : Nat) (v : Value) : Option (Option (List Value)) := do
  let (proper, _) ← s.listInfo? n 0 v
  if proper then
    let items ← s.yielded? n v
    some (some items)
  else some none

/-! ## Lists with an end -/

/-- A list with an end, all of whose cells are in the store. -/
def FiniteList (s : Interp) (v : Value) : Prop :=
  ∃ ids tail, Spine s v ids tail ∧ ∀ id ∈ ids, id.index < s.cells.size

variable {s : Interp} {v tail : Value} {ids : List CellId}

/-- In every state of a session every value that is there is such a list. -/
theorem finiteList_of_session {limit : Nat} (h : Session (fun _ => True) (.initial limit) s)
    (hv : v.Live s) : s.FiniteList v := by
  have hlive : s.Live := (h.sound (live_initial limit)).live (fun _ _ hc => hc) (live_initial limit)
  obtain ⟨ids, tail, hspine⟩ := h.descends.spine v
  exact ⟨ids, tail, hspine, hspine.live hlive hv⟩

end Interp

namespace Spine

open Interp

variable {s : Interp} {v tail : Value} {ids : List CellId}

theorem completes_yielded? (h : Spine s v ids tail) :
    Completes (fun n => s.yielded? n v) (ids.map s.car) := by
  induction h with
  | @atom v hatom =>
    have hrun (n : Nat) : s.yielded? (n + 1) v = some [] := by
      rw [yielded?, next?_eq_none hatom]
    exact .step (funext hrun ▸ .const _)
  | cell _ ih => exact .step (ih.bind (.const _))

theorem nthYielded?_eq (h : Spine s v ids tail) (n : Nat) :
    s.nthYielded? n v = (s.cellAt? n v).map s.car := by
  induction h generalizing n with
  | @atom v hatom =>
    cases v with
    | cons id => exact absurd (Value.isCell_cons id) hatom
    | _ => cases n <;> rfl
  | cell _ ih =>
    cases n with
    | zero => rfl
    | succ n => exact ih n

theorem completes_listInfo? (h : Spine s v ids tail) (count : Nat) :
    Completes (fun n => s.listInfo? n count v) (tail.isNil, count + ids.length) := by
  induction h generalizing count with
  | @atom v hatom =>
    refine .step ?_
    cases v with
    | cons id => exact absurd (Value.isCell_cons id) hatom
    | _ => exact .const _
  | @cell id ids tail _ ih =>
    rw [List.length_cons, Nat.add_comm ids.length, ← Nat.add_assoc]
    exact .step (ih (count + 1))

end Spine

namespace Interp

variable {s : Interp} {v : Value}

/-- The walks along a list agree with each other and with what is read off its spine. -/
structure WalksAgree (s : Interp) (v : Value) : Prop where
  yielded : Completes (fun n => s.yielded? n v) (s.elementsOf v)
  info : Completes (fun n => s.listInfo? n 0 v) (s.isProper v, (s.elementsOf v).length)
  /-- An index leads to an element exactly if it is below the length. -/
  nth : ∀ i, (s.nthYielded? i v).isSome = true ↔ i < s.lengthOf v
  cell : ∀ i, (s.cellAt? i v).isSome = true ↔ i < s.lengthOf v
  element : ∀ i, s.nthYielded? i v = (s.elementsOf v)[i]?
  /-- The element at an index is the first half of the cell there. -/
  car : ∀ i, (s.cellAt? i v).map s.car = s.nthYielded? i v
  /-- The elements of a proper list, and of no other one, are taken as a whole. -/
  vector : Completes (fun n => s.vector? n v) (s.properElements? v)
  proper : ∀ items, s.properElements? v = some items ↔ ProperList s v items

theorem FiniteList.walksAgree (h : s.FiniteList v) : s.WalksAgree v := by
  obtain ⟨ids, tail, hspine, -⟩ := h
  have helements : s.elementsOf v = ids.map s.car := by
    rw [elementsOf, cellsOf, hspine.spine_eq]
  have hlength : s.lengthOf v = ids.length := by rw [lengthOf, cellsOf, hspine.spine_eq]
  have hproper : s.isProper v = tail.isNil := by rw [isProper, tailOf, hspine.spine_eq]
  have hinfo : Completes (fun n => s.listInfo? n 0 v) (s.isProper v, (s.elementsOf v).length) := by
    rw [hproper, helements, List.length_map, ← Nat.zero_add ids.length]
    exact hspine.completes_listInfo? 0
  have hyielded : Completes (fun n => s.yielded? n v) (s.elementsOf v) := by
    rw [helements]
    exact hspine.completes_yielded?
  have hnth (i : Nat) : s.nthYielded? i v = (s.elementsOf v)[i]? := by
    rw [hspine.nthYielded?_eq, hspine.cellAt?, helements, List.getElem?_map]
  constructor
  case yielded => exact hyielded
  case info => exact hinfo
  case nth =>
    intro i
    rw [hnth, helements, hlength, ← List.length_map s.car]
    simp
  case cell =>
    intro i
    rw [hspine.cellAt?, hlength]
    simp
  case element => exact hnth
  case car => exact fun i => (hspine.nthYielded?_eq i).symm
  case vector =>
    refine hinfo.bind ?_
    rw [properElements?]
    by_cases hp : s.isProper v = true
    · simp only [hp]
      exact hyielded.bind (.const _)
    · simp only [hp]
      exact .const _
  case proper =>
    intro items
    rw [ProperList.iff_isProper, properElements?]
    by_cases hp : s.isProper v = true
    · rw [if_pos hp]
      simp [hp]
    · rw [if_neg hp]
      simp [hp]

end Interp

end SmallLisp
