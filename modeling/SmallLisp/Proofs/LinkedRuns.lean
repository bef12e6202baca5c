import SmallLisp.Proofs.DiscreetSessions
import SmallLisp.Proofs.Linking

/-!
# Lists that are linked while forms are evaluated

A `LinkedBuilder` keeps its list in the store, and changes the second half of the last cell with
each element, while other forms are evaluated before the next one. Nothing else refers to these
cells until the list is finished: what is evaluated meanwhile withholds them, so it neither sees nor
changes them. No chain of cells goes from a later value into the unfinished list either, so linking
the last cell to a new one, or in the end to a tail, closes no chain.
-/

namespace SmallLisp

variable {hidden secret : CellId → Prop} {s t u : Interp}

/-! ## Linking a withheld cell -/

/-- A change of second halves leaves every cell alone, or it reaches a cell that exists. -/
theorem Interp.cell_setCdr (s : Interp) (id j : CellId) (v : Value) :
    (s.setCdr id v).cell j = s.cell j ∨ j = id ∧ (s.setCdr id v).cell j = ⟨s.car j, v⟩ := by
  by_cases hid : id = j
  · subst hid
    cases hcell : s.cells[id.index]? with
    | none => exact .inl (by simp [setCdr, cell, Array.getElem?_modify, hcell])
    | some c => exact .inr ⟨rfl, by simp [setCdr, car, cell, Array.getElem?_modify, hcell]⟩
  · exact .inl (s.cell_setCdr_of_ne v hid)

/-- A cell is linked to a chain that it is not in: no chain closes. -/
theorem Interp.ChainsEnd.setCdr (h : s.ChainsEnd) {id : CellId} {v tail : Value}
    {ids : List CellId} (hspine : Spine s v ids tail) (hid : id ∉ ids) :
    (s.setCdr id v).ChainsEnd := by
  have hlinked : Spine (s.setCdr id v) v ids tail := by
    refine hspine.congr fun j hj => congrArg Cell.cdr (s.cell_setCdr_of_ne v ?_)
    rintro rfl
    exact hid hj
  intro w
  obtain ⟨ids, tail, hspine⟩ := h w
  induction hspine with
  | @atom w hatom => exact ⟨[], w, .atom hatom⟩
  | @cell j ids tail _ ih =>
    obtain ⟨ids, tail, hrest⟩ :
        ∃ ids tail, Spine (s.setCdr id v) ((s.setCdr id v).cdr j) ids tail := by
      rcases s.cell_setCdr id j v with hsame | ⟨-, hnew⟩
      · have hcdr : (s.setCdr id v).cdr j = s.cdr j := congrArg Cell.cdr hsame
        rw [hcdr]
        exact ih
      · have hcdr : (s.setCdr id v).cdr j = v := congrArg Cell.cdr hnew
        rw [hcdr]
        exact ⟨_, _, hlinked⟩
    exact ⟨j :: ids, tail, .cell hrest⟩

/-- A hidden cell may be linked to anything, any other one to a known value. -/
theorem Interp.Withholds.setCdr (hs : s.Withholds hidden) {id : CellId} {v : Value}
    (h : hidden id ∨ v.Known hidden s) : (s.setCdr id v).Withholds hidden := by
  have hsize := s.size_setCdr id v
  refine ⟨fun j hj => hsize.symm ▸ hs.exist j hj, fun j hj => ?_, fun w hw => ?_⟩
  · obtain ⟨hcar, hcdr⟩ := hs.cells j hj
    refine ⟨s.car_setCdr id j v ▸ hcar.mono hsize.ge, ?_⟩
    rcases s.cell_setCdr id j v with hsame | ⟨rfl, hnew⟩
    · have hread : (s.setCdr id v).cdr j = s.cdr j := congrArg Cell.cdr hsame
      rw [hread]
      exact hcdr.mono hsize.ge
    · have hread : (s.setCdr j v).cdr j = v := congrArg Cell.cdr hnew
      rw [hread]
      exact (h.resolve_left hj).mono hsize.ge
  · exact (hs.stored w hw.withCells).mono hsize.ge

/-- What spares more cells spares fewer, as long as these are withheld by themselves. -/
theorem Spared.of_imp (h : Spared secret s t) (hs : s.Withholds hidden)
    (hsecret : ∀ id, hidden id → secret id) : Spared hidden s t where
  size_le := h.size_le
  kept := fun id hid => h.kept id (hsecret id hid)
  cdr := h.cdr
  chains := h.chains
  withholds := by
    refine ⟨fun id hid => h.withholds.exist id (hsecret id hid), fun id hid => ?_,
      fun v hv => (h.withholds.stored v hv).of_imp hsecret⟩
    by_cases hkept : secret id
    · have hcell := h.kept id hkept
      obtain ⟨hcar, hcdr⟩ := hs.cells id hid
      have hcarSame : t.car id = s.car id := congrArg Cell.car hcell
      have hcdrSame : t.cdr id = s.cdr id := congrArg Cell.cdr hcell
      rw [hcarSame, hcdrSame]
      exact ⟨hcar.mono h.size_le, hcdr.mono h.size_le⟩
    · obtain ⟨hcar, hcdr⟩ := h.withholds.cells id hkept
      exact ⟨hcar.of_imp hsecret, hcdr.of_imp hsecret⟩

/-- A cell that is newer than `s` is linked to a chain that it is not in. -/
theorem Spared.setCdr (h : Spared hidden s t) (hold : ∀ id, hidden id → id.index < s.cells.size)
    {id : CellId} (hid : s.cells.size ≤ id.index) {v : Value} (hv : v.Known hidden t)
    (hchain : t.ChainsEnd → ∃ ids tail, Spine t v ids tail ∧ id ∉ ids) :
    Spared hidden s (t.setCdr id v) := by
  have hcell : ∀ j : CellId, j.index < s.cells.size → (t.setCdr id v).cell j = t.cell j := by
    intro j hj
    refine t.cell_setCdr_of_ne v ?_
    rintro rfl
    exact Nat.not_lt_of_le hid hj
  constructor
  case size_le => exact (t.size_setCdr id v).symm ▸ h.size_le
  case kept => exact fun j hj => (hcell j (hold j hj)).trans (h.kept j hj)
  case withholds => exact h.withholds.setCdr (.inr hv)
  case cdr => exact fun j hj => (congrArg Cell.cdr (hcell j hj)).trans (h.cdr j hj)
  case chains =>
    intro hs
    obtain ⟨ids, tail, hspine, hnot⟩ := hchain (h.chains hs)
    exact (h.chains hs).setCdr hspine hnot

/-! ## Lists under construction -/

/-- A list that was begun in `s` is in `t` made up of cells that are newer than `s` and withheld
with the hidden ones. -/
structure LinkedBuilder.Withheld (hidden secret : CellId → Prop) (s t : Interp)
    (b : LinkedBuilder) : Prop where
  spared : Spared hidden s t
  withholds : t.Withholds secret
  old : ∀ id, hidden id → id.index < s.cells.size
  hides : ∀ id, hidden id → secret id
  new : ∀ id, secret id → hidden id ∨ s.cells.size ≤ id.index
  own : ∀ id, b.head = some id ∨ b.last = some id → secret id ∧ s.cells.size ≤ id.index

namespace LinkedBuilder.Withheld

variable {b : LinkedBuilder}

theorem empty (hs : s.Withholds hidden) : Withheld hidden hidden s s .empty where
  spared := .refl hs
  withholds := hs
  old := hs.exist
  hides := fun _ => id
  new := fun _ => .inl
  own := by
    rintro id (h | h) <;> cases h

theorem after (h : Withheld hidden secret s t b) (hu : Spared secret t u) :
    Withheld hidden secret s u b where
  spared := h.spared.trans (hu.of_imp h.spared.withholds h.hides)
  withholds := hu.withholds
  old := h.old
  hides := h.hides
  new := h.new
  own := h.own

theorem exist (h : Withheld hidden secret s t b) {id : CellId} (hid : b.last = some id) :
    id.index < t.cells.size :=
  h.withholds.exist id (h.own id (.inr hid)).1

/-- The cell of a new element is withheld too. What was known before is still. -/
theorem push (h : Withheld hidden secret s t b) {v : Value} (hv : v.Known secret t) :
    ∃ secret', Withheld hidden secret' s (b.push v t).2 (b.push v t).1 ∧
      (∀ id, secret id → secret' id) ∧
      ∀ w : Value, w.Known secret t → w.Known secret' (b.push v t).2 := by
  let cell : CellId := ⟨t.cells.size⟩
  let t₁ := (t.allocCell v .nil).2
  let secret' (id : CellId) : Prop :=
    secret id ∨ t.cells.size ≤ id.index ∧ id.index < t₁.cells.size
  have hgrown : Grown t t₁ := grown_allocCell t v .nil
  have hallocated := h.after (h.withholds.allocCell hv .nil)
  have hsecret : t₁.Withholds secret' := h.withholds.grow hgrown
  have hsize : t₁.cells.size = t.cells.size + 1 := t.size_allocCell v .nil
  have hcell : secret' cell ∧ s.cells.size ≤ cell.index :=
    ⟨.inr ⟨Nat.le_refl _, by rw [hsize]; exact Nat.lt_succ_self _⟩, h.spared.size_le⟩
  have hnew : ∀ id, secret' id → hidden id ∨ s.cells.size ≤ id.index := by
    rintro id (hid | ⟨hle, -⟩)
    · exact h.new id hid
    · exact .inr (Nat.le_trans h.spared.size_le hle)
  have hknown : ∀ w : Value, w.Known secret t → w.Known secret' t₁ := fun w hw => hw.grow hgrown
  refine ⟨secret', ?_⟩
  unfold LinkedBuilder.push
  cases hlast : b.last with
  | none =>
    refine ⟨⟨hallocated.spared, hsecret, h.old, fun id hid => .inl (h.hides id hid), hnew, ?_⟩,
      fun _ => .inl, hknown⟩
    rintro id (hid | hid) <;> cases hid <;> exact hcell
  | some last =>
    obtain ⟨hown, hle⟩ := h.own last (.inr hlast)
    have hchain : Spine t₁ (.cons cell) [cell] .nil := by
      refine .cell ?_
      rw [show t₁.cdr cell = .nil from t.cdr_allocCell_new v .nil]
      exact .atom (by rintro ⟨id, hid⟩; cases hid)
    have hcellKnown : (Value.cons cell).Known hidden t₁ := by
      rintro id hid
      cases hid
      exact ⟨by rw [hsize]; exact Nat.lt_succ_self _,
        fun hhidden => Nat.not_lt_of_le hcell.2 (h.old _ hhidden)⟩
    have hne : last ∉ [cell] := by
      intro hmem
      rw [List.mem_singleton.mp hmem] at hlast
      exact Nat.lt_irrefl _ (h.exist hlast)
    refine ⟨⟨?_, hsecret.setCdr (.inl (.inl hown)), h.old, fun id hid => .inl (h.hides id hid),
      hnew, ?_⟩, fun _ => .inl, fun w hw => (hknown w hw).mono (t₁.size_setCdr last _).ge⟩
    · exact hallocated.spared.setCdr h.old hle hcellKnown fun _ => ⟨_, _, hchain, hne⟩
    · rintro id (hid | hid)
      · exact ⟨.inl (h.own id (.inl hid)).1, (h.own id (.inl hid)).2⟩
      · cases hid
        exact hcell

/-- What a tail that is known refers to is not in the list, so no chain closes. -/
theorem finish (h : Withheld hidden secret s t b) {tail : Value} (htail : tail.Known secret t) :
    Spared hidden s (b.finish t tail).2 ∧
      (b.finish t tail).1.Known hidden (b.finish t tail).2 := by
  unfold LinkedBuilder.finish
  split
  next head last hhead hlast =>
    obtain ⟨hown, hle⟩ := h.own last (.inr hlast)
    refine ⟨h.spared.setCdr h.old hle (htail.of_imp h.hides) fun hchains => ?_, ?_⟩
    · obtain ⟨ids, atom, hspine⟩ := hchains tail
      exact ⟨ids, atom, hspine, fun hmem =>
        ((h.withholds.spine hspine htail).1 last hmem last rfl).2 hown⟩
    · obtain ⟨hown, hle⟩ := h.own head (.inl hhead)
      rintro id hid
      cases hid
      refine ⟨?_, fun hhidden => Nat.not_lt_of_le hle (h.old _ hhidden)⟩
      rw [t.size_setCdr last tail]
      exact h.withholds.exist head hown
  next => exact ⟨h.spared, htail.of_imp h.hides⟩

/-- The elements of a list are read one by one while cells are linked. None of them is in its
cells. -/
theorem append (h : Withheld hidden secret s t b) {n : Nat} {list : Value}
    (hlist : list.Known secret t) :
    Discreet hidden (fun u b => ∃ secret, Withheld hidden secret s u b) s
      (EvalM.walk (fun item b => do
        let b ← EvalM.step (LinkedBuilder.push b item)
        pure (.yield b)) n list b t) := by
  induction n generalizing secret t b list with
  | zero =>
    cases list with
    | cons id => exact .error h.spared trivial
    | _ => exact .ok h.spared ⟨secret, h⟩
  | succ n ih =>
    cases list with
    | cons id =>
      obtain ⟨secret', hpushed, -, hknown⟩ := h.push (h.withholds.car hlist)
      exact .read_bind (.read_bind (ih hpushed (hknown _ (h.withholds.cdr hlist))))
    | _ => exact .ok h.spared ⟨secret, h⟩

end LinkedBuilder.Withheld

/-- A list that is linked in place is kept from what runs before it is finished. -/
instance ListBuilding.Sparing.linking : Sparing linking where
  Holds hidden secret s t b := LinkedBuilder.Withheld hidden secret s t b
  start hs := .empty hs
  spared h := h.spared
  withholds h := h.withholds
  secret_iff h id hid :=
    ⟨fun hsecret => (h.new id hsecret).resolve_right (Nat.not_le_of_lt hid), h.hides id⟩
  hides h := h.hides
  after h hu := h.after hu
  push h hv := by
    obtain ⟨secret', hpushed, -, -⟩ := h.push hv
    exact .ok hpushed.spared ⟨secret', hpushed⟩
  append h hv := by
    show Discreet _ _ _ (EvalM.forEach _ _ _ _)
    exact .read_bind (h.append hv)
  finish h hv := .ok (h.finish hv).1 (h.finish hv).2

/-! ## Whole sessions -/

theorem Spared.keepsSpines (h : Spared hidden s t) : s.KeepsSpines t := .of_cdr h.size_le h.cdr

/-- Evaluate texts one after the other, linking lists in place. -/
abbrev Interp.afterTextsInPlace (s : Interp) (texts : List (Machine × String)) : Interp :=
  @Interp.afterTexts .linking s texts

end SmallLisp
