import Mathlib.Data.List.Perm.Subperm
import Mathlib.Data.List.Nodup
import SmallLisp.Sequence

/-!
# Finite chains of cells

`Spine s v ids tail` says that the cells `ids` follow each other from `v` on and that the atom
`tail` follows the last of them. A spine goes through no cell twice, and all of its cells but the
last one are in the store, since a missing cell reads as one that is followed by the empty list. So
the bounded walk of `Interp.spine` reaches the end of every finite chain.
-/

namespace SmallLisp

variable {s : Interp}

/-- Whether a value is a cell. -/
def Value.IsCell (v : Value) : Prop := ∃ id, v = .cons id

theorem Value.isCell_cons (id : CellId) : (Value.cons id).IsCell := ⟨id, rfl⟩

/-- An atom has no elements to visit. -/
theorem EvalM.walk_atom {α : Type} {visit : Value → α → EvalM (ForInStep α)} {list : Value}
    (h : ¬ list.IsCell) (n : Nat) (a : α) : walk visit n list a = pure a := by
  cases list with
  | cons id => exact absurd (Value.isCell_cons id) h
  | _ => cases n <;> rfl

/-- The cells of a finite chain, and the atom at its end. -/
inductive Spine (s : Interp) : Value → List CellId → Value → Prop
  | atom {v : Value} (hatom : ¬ v.IsCell) : Spine s v [] v
  | cell {id : CellId} {ids : List CellId} {tail : Value} (hrest : Spine s (s.cdr id) ids tail) :
      Spine s (.cons id) (id :: ids) tail

/-- The elements of a list that ends in the empty list. -/
inductive ProperList (s : Interp) : Value → List Value → Prop
  | nil : ProperList s .nil []
  | cell {id : CellId} {items : List Value} (hrest : ProperList s (s.cdr id) items) :
      ProperList s (.cons id) (s.car id :: items)

/-- What is followed by a cell is in the store. -/
theorem Interp.index_lt_of_isCell_cdr {id : CellId} (h : (s.cdr id).IsCell) :
    id.index < s.cells.size := by
  rcases Nat.lt_or_ge id.index s.cells.size with hlt | hge
  · exact hlt
  · obtain ⟨next, hnext⟩ := h
    unfold cdr cell at hnext
    rw [Array.getElem?_eq_none hge] at hnext
    cases hnext

namespace Spine

/-- A list is what the second halves of its cells make it. -/
theorem congr {t : Interp} {v tail : Value} {ids : List CellId} (h : Spine s v ids tail)
    (hcdr : ∀ id ∈ ids, t.cdr id = s.cdr id) : Spine t v ids tail := by
  induction h with
  | atom hatom => exact .atom hatom
  | @cell id ids tail _ ih =>
    refine .cell ?_
    rw [hcdr id List.mem_cons_self]
    exact ih fun j hj => hcdr j (List.mem_cons_of_mem _ hj)

theorem isCell {v tail : Value} {id : CellId} {ids : List CellId}
    (h : Spine s v (id :: ids) tail) : v.IsCell := by
  cases h
  exact Value.isCell_cons id

/-- A value has one spine at most. -/
theorem unique {v tail tail' : Value} {ids ids' : List CellId} (h : Spine s v ids tail)
    (h' : Spine s v ids' tail') : ids = ids' ∧ tail = tail' := by
  induction h generalizing ids' with
  | atom hatom =>
    cases h' with
    | atom _ => exact ⟨rfl, rfl⟩
    | cell _ => exact absurd (Value.isCell_cons _) hatom
  | cell _ ih =>
    cases h' with
    | atom hatom => exact absurd (Value.isCell_cons _) hatom
    | cell hrest =>
      obtain ⟨hids, htail⟩ := ih hrest
      rw [hids]
      exact ⟨rfl, htail⟩

/-- From every cell of a spine on there is a spine, which is no longer than the whole. -/
theorem suffix_of_mem {v tail : Value} {ids : List CellId} (h : Spine s v ids tail) {id : CellId}
    (hmem : id ∈ ids) :
    ∃ rest, Spine s (.cons id) (id :: rest) tail ∧ rest.length < ids.length := by
  induction h with
  | atom _ => cases hmem
  | @cell head ids tail hrest ih =>
    rcases List.mem_cons.mp hmem with rfl | hmem
    · exact ⟨ids, .cell hrest, Nat.lt_succ_self _⟩
    · obtain ⟨rest, hspine, hlength⟩ := ih hmem
      exact ⟨rest, hspine, Nat.lt_succ_of_lt hlength⟩

/-- A spine goes through no cell twice. -/
theorem nodup {v tail : Value} {ids : List CellId} (h : Spine s v ids tail) : ids.Nodup := by
  induction h with
  | atom _ => exact List.nodup_nil
  | @cell id ids tail hrest ih =>
    refine List.nodup_cons.mpr ⟨fun hmem => ?_, ih⟩
    -- met again, the cell would have a shorter spine than it has
    obtain ⟨rest, hspine, hlength⟩ := hrest.suffix_of_mem hmem
    obtain ⟨hids, _⟩ := hspine.unique (.cell hrest)
    obtain ⟨_, hrestIds⟩ := List.cons.inj hids
    rw [hrestIds] at hlength
    exact absurd hlength (Nat.lt_irrefl _)

/-- Every cell of a spine but the last one is in the store. -/
theorem index_lt {v tail : Value} {ids : List CellId} (h : Spine s v ids tail) :
    ∀ id ∈ ids.dropLast, id.index < s.cells.size := by
  induction h with
  | atom _ => exact nofun
  | @cell head ids tail hrest ih =>
    intro id hmem
    cases ids with
    | nil => cases hmem
    | cons next ids =>
      rw [List.dropLast_cons_cons] at hmem
      rcases List.mem_cons.mp hmem with rfl | hmem
      · exact Interp.index_lt_of_isCell_cdr hrest.isCell
      · exact ih id hmem

theorem length_le {v tail : Value} {ids : List CellId} (h : Spine s v ids tail) :
    ids.length ≤ s.cells.size + 1 := by
  have hnodup : (ids.dropLast.map CellId.index).Nodup :=
    (h.nodup.sublist ids.dropLast_sublist).map fun ⟨_⟩ ⟨_⟩ heq => congrArg CellId.mk heq
  have hrange : ids.dropLast.map CellId.index ⊆ List.range s.cells.size := by
    intro i hi
    obtain ⟨id, hid, rfl⟩ := List.mem_map.mp hi
    exact List.mem_range.mpr (h.index_lt id hid)
  have hlength := (List.subperm_of_subset hnodup hrange).length_le
  rw [List.length_map, List.length_dropLast, List.length_range] at hlength
  omega

/-- A walk with enough fuel reaches the end of a spine. -/
theorem walk?_eq {v tail : Value} {ids : List CellId} (h : Spine s v ids tail) {n : Nat}
    (hn : ids.length ≤ n) (seen : List CellId) :
    s.walk? n seen v = some (seen.reverse ++ ids, tail) := by
  induction h generalizing n seen with
  | @atom v hatom =>
    rw [List.append_nil]
    cases v with
    | cons id => exact absurd (Value.isCell_cons id) hatom
    | _ => cases n <;> rfl
  | @cell id ids tail _ ih =>
    cases n with
    | zero => cases hn
    | succ n =>
      have hrest := ih (Nat.le_of_succ_le_succ hn) (id :: seen)
      rw [List.reverse_cons, List.append_assoc] at hrest
      exact hrest

/-- The bounded walk is exact on finite chains. -/
theorem spine_eq {v tail : Value} {ids : List CellId} (h : Spine s v ids tail) :
    s.spine v = (ids, tail) := by
  rw [Interp.spine, h.walk?_eq h.length_le]
  rfl

end Spine

/-- A walk that comes to an end went through a spine. -/
theorem Interp.spine_of_walk? {n : Nat} {seen ids : List CellId} {v tail : Value}
    (h : s.walk? n seen v = some (ids, tail)) :
    ∃ rest, Spine s v rest tail ∧ ids = seen.reverse ++ rest := by
  induction n generalizing seen v with
  | zero =>
    cases v with
    | cons id => cases h
    | _ =>
      cases h
      exact ⟨[], .atom nofun, (List.append_nil _).symm⟩
  | succ n ih =>
    cases v with
    | cons id =>
      obtain ⟨rest, hspine, hids⟩ := ih h
      refine ⟨id :: rest, .cell hspine, ?_⟩
      rw [List.reverse_cons, List.append_assoc] at hids
      exact hids
    | _ =>
      cases h
      exact ⟨[], .atom nofun, (List.append_nil _).symm⟩

theorem Interp.spine_eq_of_walk? {n : Nat} {v : Value} {p : List CellId × Value}
    (h : s.walk? n [] v = some p) : s.spine v = p := by
  obtain ⟨ids, hspine, hids⟩ := spine_of_walk? h
  rw [hspine.spine_eq]
  exact Prod.ext hids.symm rfl

/-- A chain without an end is read as an atom. -/
theorem Interp.spine_of_endless {v : Value} (h : ∀ ids tail, ¬ Spine s v ids tail) :
    s.spine v = ([], v) := by
  rw [spine]
  cases hwalk : s.walk? (s.cells.size + 1) [] v with
  | none => rfl
  | some r =>
    obtain ⟨rest, hspine, -⟩ := spine_of_walk? hwalk
    exact absurd hspine (h rest r.2)

/-- What is read off a value is a chain with its end, or the value itself. -/
theorem Interp.spine_cases (s : Interp) (v : Value) :
    (∃ ids tail, Spine s v ids tail ∧ s.spine v = (ids, tail)) ∨
      v.IsCell ∧ s.spine v = ([], v) := by
  by_cases h : ∃ ids tail, Spine s v ids tail
  · obtain ⟨ids, tail, hspine⟩ := h
    exact .inl ⟨ids, tail, hspine, hspine.spine_eq⟩
  · refine .inr ⟨?_, spine_of_endless fun ids tail hspine => h ⟨ids, tail, hspine⟩⟩
    by_contra hatom
    exact h ⟨[], v, .atom hatom⟩

/-! ## Proper lists -/

theorem ProperList.nil_iff {v : Value} : ProperList s v [] ↔ v = .nil := by
  constructor
  · intro h
    cases h
    rfl
  · rintro rfl
    exact .nil

theorem ProperList.cons_iff {v item : Value} {items : List Value} :
    ProperList s v (item :: items) ↔
      ∃ id, v = .cons id ∧ s.car id = item ∧ ProperList s (s.cdr id) items := by
  constructor
  · intro h
    generalize hlist : item :: items = list at h
    cases h with
    | nil => cases hlist
    | @cell id rest hrest =>
      obtain ⟨hitem, hitems⟩ := List.cons.inj hlist
      exact ⟨id, rfl, hitem.symm, hitems ▸ hrest⟩
  · rintro ⟨id, rfl, rfl, hrest⟩
    exact .cell hrest

theorem ProperList.iff_spine {v : Value} {items : List Value} :
    ProperList s v items ↔ ∃ ids, Spine s v ids .nil ∧ items = ids.map s.car := by
  constructor
  · intro h
    induction h with
    | nil => exact ⟨[], .atom nofun, rfl⟩
    | @cell id items _ ih =>
      obtain ⟨ids, hspine, hitems⟩ := ih
      exact ⟨id :: ids, .cell hspine, congrArg (s.car id :: ·) hitems⟩
  · rintro ⟨ids, hspine, rfl⟩
    generalize hnil : Value.nil = tail at hspine
    induction hspine with
    | atom _ =>
      subst hnil
      exact .nil
    | cell _ ih => exact .cell (ih hnil)

/-- The test for proper lists finds them, and the elements are theirs. -/
theorem ProperList.iff_isProper {v : Value} {items : List Value} :
    ProperList s v items ↔ s.isProper v = true ∧ s.elementsOf v = items := by
  rw [ProperList.iff_spine]
  constructor
  · rintro ⟨ids, hspine, rfl⟩
    unfold Interp.isProper Interp.tailOf Interp.elementsOf Interp.cellsOf
    rw [hspine.spine_eq]
    exact ⟨rfl, rfl⟩
  · rintro ⟨hproper, rfl⟩
    have htail : s.tailOf v = .nil := Value.isNil_iff.mp hproper
    rcases s.spine_cases v with ⟨ids, tail, hspine, heq⟩ | ⟨hcell, heq⟩
    · unfold Interp.tailOf at htail
      rw [heq] at htail
      cases htail
      unfold Interp.elementsOf Interp.cellsOf
      rw [heq]
      exact ⟨ids, hspine, rfl⟩
    · unfold Interp.tailOf at htail
      rw [heq] at htail
      obtain ⟨id, rfl⟩ := hcell
      cases htail

end SmallLisp
