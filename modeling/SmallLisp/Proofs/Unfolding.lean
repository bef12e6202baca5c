import SmallLisp.Proofs.Nesting

/-!
# Trees of values

A value of lists, arrays and atoms unfolds to a tree: a cell has two branches, an array one for each
of its items. `Interp.unfolding` gives the tree as what stands at the end of each path from the
root. Cells that several paths lead to stand in it several times. Two finite values without floats
and dictionaries are equal in structure exactly if they unfold to the same tree, so what they share,
and that one object is equal to itself without a look inside, never shows in the answer. A later
state in which such a value has the same parts all the way down compares it as before.
-/

namespace SmallLisp

variable {s t : Interp} {v w : Value}

def Value.isDictionary : Value → Bool
  | .dictionary _ => true
  | _ => false

/-- The way from a list or an array to what stands directly in it. -/
inductive Branch where
  | car
  | cdr
  | item (index : Nat)
deriving DecidableEq, Repr

/-- What stands at a position of a tree. -/
inductive Node where
  | pair
  | row (size : Nat)
  | leaf (v : Value)
deriving DecidableEq, Repr

namespace Interp

/-- A finite value of lists, arrays and atoms other than floats. -/
structure Plain (s : Interp) (v : Value) : Prop extends s.Exact v where
  dictionaryFree : s.Throughout (fun w => w.isDictionary = false) v

instance decidablePlain : Decidable (s.Plain v) :=
  decidable_of_iff
    (s.Exact v ∧ s.examine (fun w => w.isDictionary = false) (s.containers + 1) v = true)
    ⟨fun h => ⟨h.1, h.1.throughout_iff.mpr h.2⟩,
      fun h => ⟨h.toExact, h.toFinite.throughout_iff.mp h.dictionaryFree⟩⟩

def branch? (s : Interp) : Value → Branch → Option Value
  | .cons id, .car => some (s.car id)
  | .cons id, .cdr => some (s.cdr id)
  | .array id, .item i => (s.arrayItems id).toList[i]?
  | _, _ => none

def node (s : Interp) : Value → Node
  | .cons _ => .pair
  | .array id => .row (s.arrayItems id).toList.length
  | v => .leaf v

/-- The tree that a value unfolds to: what stands at the end of each path. -/
def unfolding (s : Interp) : Value → List Branch → Option Node
  | v, [] => some (s.node v)
  | v, b :: path => (s.branch? v b).bind fun w => s.unfolding w path

theorem Plain.part (hv : s.Plain v) (hw : w ∈ s.parts v) : s.Plain w :=
  ⟨hv.toExact.part hw, hv.dictionaryFree.part hw⟩

theorem branch?_mem {b : Branch} (h : s.branch? v b = some w) : w ∈ s.parts v := by
  unfold branch? at h
  split at h
  next id => exact Option.some.inj h ▸ part_car id
  next id => exact Option.some.inj h ▸ part_cdr id
  next id i => exact List.mem_of_getElem? h
  next => cases h

/-- Trees are the same if their roots and all trees below them are. -/
theorem unfolding_eq_iff :
    s.unfolding v = t.unfolding w ↔ s.node v = t.node w ∧
      ∀ b, (s.branch? v b).map s.unfolding = (t.branch? w b).map t.unfolding := by
  constructor
  · intro h
    refine ⟨Option.some.inj (congrFun h []), fun b => ?_⟩
    have hpath : ∀ path, ((s.branch? v b).bind fun a => s.unfolding a path) =
        (t.branch? w b).bind fun a => t.unfolding a path := fun path => congrFun h (b :: path)
    cases hv : s.branch? v b with
    | none =>
      cases hw : t.branch? w b with
      | none => rfl
      | some d =>
        rw [hv, hw] at hpath
        cases hpath []
    | some c =>
      cases hw : t.branch? w b with
      | none =>
        rw [hv, hw] at hpath
        cases hpath []
      | some d =>
        rw [hv, hw] at hpath
        exact congrArg some (funext hpath)
  · rintro ⟨hnode, hbranches⟩
    funext path
    cases path with
    | nil => exact congrArg some hnode
    | cons b path =>
      have hbranch := congrArg (·.bind fun tree => tree path) (hbranches b)
      simp only [Option.bind_map] at hbranch
      exact hbranch

/-- No path is longer than there are levels. -/
theorem Levels.unfolding_eq_none {n : Nat} (h : s.Levels n v) {path : List Branch}
    (hpath : n ≤ path.length) : s.unfolding v path = none := by
  induction n generalizing v path with
  | zero => exact h.elim
  | succ n ih =>
    cases path with
    | nil => cases hpath
    | cons b path =>
      cases hbranch : s.branch? v b with
      | none => simp [unfolding, hbranch]
      | some w =>
        rw [unfolding, hbranch, Option.bind_some]
        exact ih (h w (branch?_mem hbranch)) (Nat.le_of_succ_le_succ hpath)

theorem unfolding_array_iff {x y : ArrayId} :
    s.unfolding (.array x) = s.unfolding (.array y) ↔
      List.Forall₂ (fun a b => s.unfolding a = s.unfolding b) (s.arrayItems x).toList
        (s.arrayItems y).toList := by
  have hmaps : List.Forall₂ (fun a b => s.unfolding a = s.unfolding b) (s.arrayItems x).toList
      (s.arrayItems y).toList ↔
        (s.arrayItems x).toList.map s.unfolding = (s.arrayItems y).toList.map s.unfolding := by
    rw [← List.forall₂_eq_eq_eq, List.forall₂_map_left_iff, List.forall₂_map_right_iff]
  rw [unfolding_eq_iff]
  constructor
  · rintro ⟨-, hbranches⟩
    refine hmaps.mpr (List.ext_getElem? fun i => ?_)
    rw [List.getElem?_map, List.getElem?_map]
    exact hbranches (.item i)
  · intro h
    refine ⟨congrArg Node.row h.length_eq, fun b => ?_⟩
    cases b with
    | item i =>
      have hitem := congrArg (·[i]?) (hmaps.mp h)
      simp only [List.getElem?_map] at hitem
      exact hitem
    | _ => rfl

theorem unfolding_cons_iff {x y : CellId} :
    s.unfolding (.cons x) = s.unfolding (.cons y) ↔
      s.unfolding (s.car x) = s.unfolding (s.car y) ∧
        s.unfolding (s.cdr x) = s.unfolding (s.cdr y) := by
  rw [unfolding_eq_iff]
  constructor
  · rintro ⟨-, hbranches⟩
    exact ⟨Option.some.inj (hbranches .car), Option.some.inj (hbranches .cdr)⟩
  · rintro ⟨hcar, hcdr⟩
    refine ⟨rfl, fun b => ?_⟩
    cases b with
    | car => exact congrArg some hcar
    | cdr => exact congrArg some hcdr
    | item i => rfl

/-- Two plain values are equal in structure if they unfold to the same tree, and only then. -/
theorem Levels.equal_iff_unfolding {n : Nat} (hn : s.Levels n v) (hv : s.Plain v)
    (hw : s.Plain w) : s.equal v w = true ↔ s.unfolding v = s.unfolding w := by
  induction n generalizing v w with
  | zero => exact hn.elim
  | succ n ih =>
    have hparts : ∀ a ∈ s.parts v, ∀ b ∈ s.parts w,
        (s.equal a b = true ↔ s.unfolding a = s.unfolding b) :=
      fun a ha b hb => ih (hn a ha) (hv.part ha) (hw.part hb)
    rw [hv.equal_iff hw.toFinite]
    constructor
    · intro h
      cases h with
      | same => rfl
      | numbers h => rw [hv.eq_of_compare? hw.toExact h]
      | cells hcar hcdr =>
        exact unfolding_cons_iff.mpr ⟨(hparts _ (part_car _) _ (part_car _)).mp hcar,
          (hparts _ (part_cdr _) _ (part_cdr _)).mp hcdr⟩
      | arrays hitems =>
        exact unfolding_array_iff.mpr
          (forall₂_imp_of_mem hitems fun a ha b hb => (hparts a ha b hb).mp)
      | dictionaries => cases hv.dictionaryFree.self
    · intro h
      have hnode : s.node v = s.node w := (unfolding_eq_iff.mp h).1
      cases v with
      | cons x =>
        cases w with
        | cons y =>
          obtain ⟨hcar, hcdr⟩ := unfolding_cons_iff.mp h
          exact .cells ((hparts _ (part_car _) _ (part_car _)).mpr hcar)
            ((hparts _ (part_cdr _) _ (part_cdr _)).mpr hcdr)
        | _ => cases hnode
      | array x =>
        cases w with
        | array y =>
          exact .arrays (forall₂_imp_of_mem (unfolding_array_iff.mp h)
            fun a ha b hb => (hparts a ha b hb).mpr)
        | _ => cases hnode
      | dictionary x => cases hv.dictionaryFree.self
      | _ =>
        -- an atom is its own tree
        cases w <;> cases hnode
        all_goals exact (hv.equal_iff hv.toFinite).mp hv.equal_self

theorem Plain.equal_iff_unfolding (hv : s.Plain v) (hw : s.Plain w) :
    s.equal v w = true ↔ s.unfolding v = s.unfolding w :=
  hv.levels.equal_iff_unfolding hv hw

/-- Structural equality of plain values is equality of the trees that they unfold to, and these are
finite. -/
theorem equal_iff_same_tree (hv : s.Plain v) (hw : s.Plain w) :
    (s.equal v w = true ↔ s.unfolding v = s.unfolding w) ∧
      ∀ path, s.containers < path.length → s.unfolding v path = none ∧ s.unfolding w path = none :=
  ⟨hv.equal_iff_unfolding hw, fun _ hpath =>
    ⟨hv.levels.unfolding_eq_none hpath, hw.levels.unfolding_eq_none hpath⟩⟩

/-- A list with one item at two places unfolds as a list with two copies of it. -/
theorem shared_item_unfolds_twice :
    ∃ s v w, Session (fun _ => True) (.initial 64) s ∧ (s.Plain v ∧ s.Plain w) ∧
      s.elementAt? v 0 = s.elementAt? v 1 ∧ s.elementAt? w 0 ≠ s.elementAt? w 1 ∧
      s.unfolding v = s.unfolding w := by
  obtain ⟨s, hs⟩ : ∃ s, s = (Interp.initial 64).afterTexts
    [(.small, "(var x (list 1 2)) (list x x (array x))"),
      (.small, "(list (list 1 2) (cons 1 (list 2)) (array (list 1 2)))")] := ⟨_, rfl⟩
  have hsession : Session (fun _ => True) (.initial 64) s := hs ▸ Session.start.afterTexts _
  obtain ⟨hv, hw, hequal, hone, htwo⟩ :
      s.Plain (.cons ⟨17⟩) ∧ s.Plain (.cons ⟨46⟩) ∧ s.equal (.cons ⟨17⟩) (.cons ⟨46⟩) = true ∧
        s.elementAt? (.cons ⟨17⟩) 0 = s.elementAt? (.cons ⟨17⟩) 1 ∧
        s.elementAt? (.cons ⟨46⟩) 0 ≠ s.elementAt? (.cons ⟨46⟩) 1 := by
    rw [hs]
    decide +kernel
  exact ⟨s, _, _, hsession, ⟨hv, hw⟩, hone, htwo, (equal_iff_same_tree hv hw).1.mp hequal⟩

/-! ## States that agree on a value -/

theorem Levels.transfer {n : Nat} (h : s.Levels n v)
    (hparts : s.Throughout (fun w => t.parts w = s.parts w) v) : t.Levels n v := by
  induction n generalizing v with
  | zero => exact h
  | succ n ih =>
    intro w hw
    rw [hparts.self] at hw
    exact ih (h w hw) (hparts.part hw)

theorem Plain.transfer (hv : s.Plain v)
    (hparts : s.Throughout (fun w => t.parts w = s.parts w) v)
    (hlive : ∀ w : Value, w.Live s → w.Live t) : t.Plain v where
  stored := (hv.stored.mono hlive).transfer hparts
  acyclic := (hv.levels.transfer hparts).acyclic
  floatFree := hv.floatFree.transfer hparts
  dictionaryFree := hv.dictionaryFree.transfer hparts

/-- The parts of a value decide what stands at the top of its tree and where its branches lead. -/
theorem top_of_parts (hparts : t.parts v = s.parts v) :
    t.node v = s.node v ∧ ∀ b, t.branch? v b = s.branch? v b := by
  cases v with
  | cons id =>
    have hcar : t.car id = s.car id := (List.cons.inj hparts).1
    have hcdr : t.cdr id = s.cdr id := (List.cons.inj (List.cons.inj hparts).2).1
    refine ⟨rfl, fun b => ?_⟩
    cases b with
    | car => exact congrArg some hcar
    | cdr => exact congrArg some hcdr
    | item i => rfl
  | array id =>
    have hitems : (t.arrayItems id).toList = (s.arrayItems id).toList := hparts
    refine ⟨congrArg (fun items : List Value => Node.row items.length) hitems, fun b => ?_⟩
    cases b with
    | item i => exact congrArg (·[i]?) hitems
    | _ => rfl
  | _ => exact ⟨rfl, fun b => rfl⟩

/-- A value with the same parts all the way down has the same tree. -/
theorem unfolding_transfer (hparts : s.Throughout (fun w => t.parts w = s.parts w) v) :
    t.unfolding v = s.unfolding v := by
  funext path
  induction path generalizing v with
  | nil => exact congrArg some (top_of_parts hparts.self).1
  | cons b path ih =>
    rw [unfolding, unfolding, (top_of_parts hparts.self).2 b]
    cases hbranch : s.branch? v b with
    | none => rfl
    | some w => exact ih (hparts.part (branch?_mem hbranch))

/-- Plain values compare in a state as in every other one in which they have the same trees. -/
theorem Plain.equal_kept {j k : Value} (hj : s.Plain j) (hk : s.Plain k) (hj' : t.Plain j)
    (hk' : t.Plain k) (hkept : t.unfolding j = s.unfolding j)
    (hkept' : t.unfolding k = s.unfolding k) : t.equal j k = s.equal j k := by
  rw [Bool.eq_iff_iff, hj'.equal_iff_unfolding hk', hj.equal_iff_unfolding hk, hkept, hkept']

/-- What leaves cells and arrays alone leaves plain values and their trees alone. -/
theorem Plain.keep (hv : s.Plain v) (hcells : t.cells = s.cells) (harrays : t.arrays = s.arrays)
    (hext : Extends s t) : t.Plain v ∧ t.unfolding v = s.unfolding v := by
  have hparts : s.Throughout (fun w => t.parts w = s.parts w) v := by
    intro w hw
    cases w with
    | cons id => simp only [parts, car, cdr, cell, hcells]
    | array id => simp only [parts, arrayItems, harrays]
    | dictionary id => cases hv.dictionaryFree _ hw
    | _ => rfl
  exact ⟨hv.transfer hparts fun w hw => hw.mono hext, unfolding_transfer hparts⟩

end Interp

end SmallLisp
