import SmallLisp.Proofs.Mapping
import SmallLisp.Proofs.Relocation
import SmallLisp.Proofs.Withheld

/-!
# Lists that are passed as new ones

If nothing refers to the cells of a list but the list itself, a new list of the same elements can
stand in for it: give the cells of the list the addresses of the new cells, and the state without
the new list is relocated to the state with it. All other cells keep their addresses, and those
that are allocated from now on come behind.
-/

namespace SmallLisp

variable {s t : Interp} {r : Relocation} {arguments : Value}

/-! ## Lists that nothing else refers to -/

/-- An argument list that exists, and whose cells only the list itself refers to. -/
structure Interp.Unshared (s : Interp) (arguments : Value) : Prop where
  live : arguments.Live s
  cells : ∀ id ∈ s.cellsOf arguments, ∀ other, other ∉ s.cellsOf arguments →
    s.car other ≠ .cons id ∧ s.cdr other ≠ .cons id
  elements : ∀ id ∈ s.cellsOf arguments, .cons id ∉ s.elementsOf arguments
  stored : ∀ id ∈ s.cellsOf arguments, ¬ s.Stores (.cons id)

/-- Only the cells of the list refer to each other. -/
theorem Interp.Unshared.withholds (h : s.Unshared arguments) (hs : s.Live) {ids : List CellId}
    {tail : Value} (hspine : Spine s arguments ids tail) : s.Withholds (· ∈ ids) := by
  have hids : s.cellsOf arguments = ids := by rw [cellsOf, hspine.spine_eq]
  have hgrounded := hs.grounded
  refine ⟨hspine.live hs h.live, fun id hid => ⟨?_, ?_⟩, fun v hv => ?_⟩
  · refine fun other hother => ⟨((hgrounded.cells id not_false).1 other hother).1, fun hmem => ?_⟩
    exact (h.cells other (hids ▸ hmem) id (hids ▸ hid)).1 hother
  · refine fun other hother => ⟨((hgrounded.cells id not_false).2 other hother).1, fun hmem => ?_⟩
    exact (h.cells other (hids ▸ hmem) id (hids ▸ hid)).2 hother
  · refine fun other hother => ⟨(hgrounded.stored v hv other hother).1, fun hmem => ?_⟩
    exact h.stored other (hids ▸ hmem) (hother ▸ hv)

theorem Trace.consReversed {items : List Value} {tail : Value} (hitems : ∀ v ∈ items, v.Live s)
    (htail : tail.Live s) :
    Trace (fun u c => c.Sound u) s (s.consReversed items tail).2 := by
  induction items generalizing s tail with
  | nil => exact .refl
  | cons v rest ih =>
    obtain ⟨hv, hrest⟩ := List.forall_mem_cons.mp hitems
    have hcell : Trace (fun u c => c.Sound u) s (s.allocCell v tail).2 :=
      .single (c := .cell v tail) ⟨hv, htail⟩
    have hhead : (s.allocCell v tail).1.Live (s.allocCell v tail).2 := by
      show s.cells.size < (s.allocCell v tail).2.cells.size
      rw [Interp.size_allocCell]
      exact Nat.lt_succ_self _
    exact hcell.trans (ih (fun w hw => (hrest w hw).mono hcell.extended) hhead)

/-- The cells of a new list are all that is new. -/
theorem Interp.NewList.mem_cellsOf {items : List Value} {v : Value} (h : s.NewList items v t)
    (id : CellId) :
    id ∈ t.cellsOf v ↔ s.cells.size ≤ id.index ∧ id.index < t.cells.size := by
  obtain ⟨ids, hspine, hitems, hrange⟩ := h.spine
  have hids : t.cellsOf v = ids := by rw [cellsOf, hspine.spine_eq]
  have hlength : ids.length = items.length := by rw [← hitems, List.length_map]
  rw [hids]
  refine ⟨hrange id, fun hid => ?_⟩
  -- as many different cells as there are new ones are all of them
  let news := (List.range' s.cells.size items.length).map CellId.mk
  have hnews : ∀ other : CellId, other ∈ news ↔
      s.cells.size ≤ other.index ∧ other.index < t.cells.size := by
    rintro ⟨i⟩
    simp [news, List.mem_range'_1, h.size]
  have hsub : ids.Subperm news :=
    hspine.nodup.subperm fun other hother => (hnews other).mpr (hrange other hother)
  have hperm : ids.Perm news := hsub.perm_of_length_le (by simp [news, hlength])
  exact hperm.mem_iff.mpr ((hnews id).mpr hid)

/-- Nothing refers to a list that has just been made. -/
theorem Interp.NewList.unshared {items : List Value} {v : Value} (h : s.NewList items v t)
    (hs : s.Live) (hitems : ∀ item ∈ items, item.Live s) : t.Unshared v := by
  have hcells := h.mem_cellsOf
  have hwithholds : t.Withholds (· ∈ t.cellsOf v) :=
    (hs.grounded.grow h.grown).of_iff fun id => by simp [hcells]
  obtain ⟨ids, hspine, helements, hrange⟩ := h.spine
  have hids : t.cellsOf v = ids := by rw [cellsOf, hspine.spine_eq]
  constructor
  case live =>
    cases hspine with
    | atom _ => trivial
    | @cell id _ _ _ => exact (hrange id List.mem_cons_self).2
  case cells =>
    intro id hid other hother
    obtain ⟨hcar, hcdr⟩ := hwithholds.cells other hother
    exact ⟨fun heq => (hcar id heq).2 hid, fun heq => (hcdr id heq).2 hid⟩
  case elements =>
    intro id hid hmem
    rw [elementsOf, hids, helements] at hmem
    exact Nat.not_lt_of_le ((hcells id).mp hid).1 (hitems _ hmem)
  case stored => exact fun id hid hstored => (hwithholds.stored _ hstored id rfl).2 hid

/-! ## New addresses for the cells of a list -/

/-- The address of a cell after the cells `ids` have got the addresses `news` behind all others. -/
def CellId.renewed (size : Nat) (ids news : List CellId) (id : CellId) : CellId :=
  if id ∈ ids then (news[ids.idxOf id]?).getD id
  else if id.index < size then id
  else ⟨id.index + ids.length⟩

/-- Of `size` cells some are to get the addresses of new ones. -/
structure Renewal (size : Nat) (ids news : List CellId) : Prop where
  length : news.length = ids.length
  nodup : ids.Nodup
  nodup_news : news.Nodup
  old : ∀ id ∈ ids, id.index < size
  new : ∀ id ∈ news, size ≤ id.index ∧ id.index < size + ids.length

namespace Renewal

variable {size : Nat} {ids news : List CellId} (h : Renewal size ids news)

include h

theorem map_renewed : ids.map (CellId.renewed size ids news) = news := by
  refine List.ext_getElem (by rw [List.length_map, h.length]) fun i hi hi' => ?_
  have hlt : i < ids.length := by rwa [List.length_map] at hi
  rw [List.getElem_map, CellId.renewed, if_pos (List.getElem_mem hlt), h.nodup.idxOf_getElem,
    List.getElem?_eq_getElem hi', Option.getD_some]

omit h in
theorem renewed_old {id : CellId} (hid : id ∉ ids) (hlt : id.index < size) :
    CellId.renewed size ids news id = id := by
  rw [CellId.renewed, if_neg hid, if_pos hlt]

theorem renewed_mem {id : CellId} (hid : id ∈ ids) : CellId.renewed size ids news id ∈ news := by
  have hmem := List.mem_map_of_mem (f := CellId.renewed size ids news) hid
  rwa [h.map_renewed] at hmem

theorem renewed_fresh {id : CellId} (hge : size ≤ id.index) :
    CellId.renewed size ids news id = ⟨id.index + ids.length⟩ := by
  have hid : id ∉ ids := fun hid => Nat.not_lt_of_le hge (h.old id hid)
  rw [CellId.renewed, if_neg hid, if_neg (Nat.not_lt_of_le hge)]

/-- The cells of the list, the other old ones and those behind stay apart. -/
theorem renewed_injective : Function.Injective (CellId.renewed size ids news) := by
  have hnews : (ids.map (CellId.renewed size ids news)).Nodup := by
    rw [h.map_renewed]
    exact h.nodup_news
  have hcases : ∀ i, (⟨i⟩ ∈ ids ∧ size ≤ (CellId.renewed size ids news ⟨i⟩).index ∧
        (CellId.renewed size ids news ⟨i⟩).index < size + ids.length) ∨
      (i < size ∧ (CellId.renewed size ids news ⟨i⟩).index = i) ∨
      (size ≤ i ∧ (CellId.renewed size ids news ⟨i⟩).index = i + ids.length) := by
    intro i
    by_cases hid : ⟨i⟩ ∈ ids
    · exact .inl ⟨hid, h.new _ (h.renewed_mem hid)⟩
    · rcases Nat.lt_or_ge i size with hlt | hge
      · exact .inr (.inl ⟨hlt, by rw [renewed_old hid hlt]⟩)
      · exact .inr (.inr ⟨hge, by rw [h.renewed_fresh hge]⟩)
  rintro ⟨i⟩ ⟨j⟩ heq
  have hindex := congrArg CellId.index heq
  rcases hcases i with ⟨hi, hrange⟩ | hi | hi <;> rcases hcases j with ⟨hj, hrange'⟩ | hj | hj
  case inl.inl => exact List.inj_on_of_nodup_map hnews hi hj heq
  all_goals exact congrArg CellId.mk (by omega)

end Renewal

def Renewal.relocation {size : Nat} {ids news : List CellId} (h : Renewal size ids news) :
    Relocation :=
  ⟨CellId.renewed size ids news, h.renewed_injective⟩

/-! ## The state with the new list -/

theorem map_of_fixed {α : Type} {g : α → α} {xs : List α} (h : ∀ x ∈ xs, g x = x) :
    xs.map g = xs :=
  (List.map_congr_left h).trans (List.map_id xs)

theorem mapArray_of_fixed {α : Type} {g : α → α} {xs : Array α} (h : ∀ x ∈ xs, g x = x) :
    xs.map g = xs :=
  (Array.map_congr_left h).trans (Array.map_id xs)

/-- Growth that puts the cells at their addresses relocates a state, if all that it holds outside
of them stays where it is. -/
theorem Relocated.of_grown (hgrown : Grown s t) (hstored : ∀ v, s.Stores v → v.relocate r = v)
    (hcell : ∀ id, t.cell (r.move id) = (s.cell id).relocate r)
    (hfresh : ∀ n, r.move ⟨s.cells.size + n⟩ = ⟨t.cells.size + n⟩)
    (hhosts : s.HostsAre fun _ => False) : Relocated r s t := by
  have hothers := hgrown.others
  generalize t.cells = cells at *
  subst hothers
  constructor
  case cell => exact hcell
  case fresh => exact hfresh
  case arrays =>
    refine (mapArray_of_fixed fun items hitems => mapArray_of_fixed fun v hv => ?_).symm
    exact hstored v (.item hitems hv)
  case dictionaries =>
    refine (mapArray_of_fixed fun es hes => map_of_fixed fun e he => ?_).symm
    exact Prod.ext (hstored _ (.entryKey hes he)) (hstored _ (.entryValue hes he))
  case hashTables =>
    refine (mapArray_of_fixed fun table htable => ?_).symm
    refine congrArg Table.mk (map_of_fixed fun e he => ?_)
    exact Prod.ext (hstored _ (.hashKey htable he)) (hstored _ (.hashValue htable he))
  case callables =>
    refine (mapArray_of_fixed fun g hg => ?_).symm
    cases g with
    | primitive op => rfl
    | host g => rfl
    | lambda c => rw [Callable.relocate, Closure.relocate, hstored _ (.body hg rfl)]
    | expander c => rw [Callable.relocate, Closure.relocate, hstored _ (.body hg rfl)]
  case scopes =>
    refine (mapArray_of_fixed fun scope hscope => ?_).symm
    refine congrArg Table.mk (map_of_fixed fun e he => ?_)
    exact Prod.ext rfl (hstored _ (.bound hscope he))
  case hostless => exact hhosts
  all_goals rfl

/-- Where nothing moves, a state is its own copy. -/
theorem Relocated.refl (hhosts : s.HostsAre fun _ => False) : Relocated .still s s := by
  refine .of_grown (.refl s) (fun v _ => v.relocate_still) (fun id => ?_) (fun _ => rfl) hhosts
  show s.cell id = (s.cell id).relocate .still
  rw [Cell.relocate, Value.relocate_still, Value.relocate_still]

/-- A list is at its new addresses if its cells are and it is linked again. -/
theorem Spine.relocated {v w : Value} {ids : List CellId} (h : Spine s v ids .nil)
    (h' : Spine t w (ids.map r.move) .nil) :
    w = v.relocate r ∧ ∀ id ∈ ids, t.cdr (r.move id) = (s.cdr id).relocate r := by
  generalize htail : Value.nil = tail at h
  induction h generalizing w with
  | atom _ =>
    subst htail
    cases h'
    exact ⟨rfl, nofun⟩
  | @cell id ids tail _ ih =>
    cases h' with
    | cell hrest =>
      obtain ⟨hcdr, hids⟩ := ih hrest htail
      exact ⟨rfl, List.forall_mem_cons.mpr ⟨hcdr, hids⟩⟩

theorem Interp.cell_of_size_le {id : CellId} (h : s.cells.size ≤ id.index) :
    s.cell id = ⟨.nil, .nil⟩ := by
  rw [cell, Array.getElem?_eq_none h]
  rfl

namespace Renewal

variable {ids news : List CellId} (h : Renewal s.cells.size ids news)

theorem relocate_known {v : Value} (hv : v.Known (· ∈ ids) s) : v.relocate h.relocation = v := by
  cases v with
  | cons id => exact congrArg Value.cons (renewed_old (hv id rfl).2 (hv id rfl).1)
  | _ => rfl

/-- Every cell is found at its address, if the cells of the list are. -/
theorem cell_relocated (hgrown : Grown s t) (hsize : t.cells.size = s.cells.size + ids.length)
    (hs : s.Withholds (· ∈ ids))
    (hids : ∀ id ∈ ids, t.car (h.relocation.move id) = (s.car id).relocate h.relocation ∧
      t.cdr (h.relocation.move id) = (s.cdr id).relocate h.relocation) (id : CellId) :
    t.cell (h.relocation.move id) = (s.cell id).relocate h.relocation := by
  by_cases hid : id ∈ ids
  · exact congrArg₂ Cell.mk (hids id hid).1 (hids id hid).2
  obtain ⟨hcar, hcdr⟩ := hs.cells id hid
  have hkept : (s.cell id).relocate h.relocation = s.cell id :=
    congrArg₂ Cell.mk (h.relocate_known hcar) (h.relocate_known hcdr)
  rw [hkept]
  rcases Nat.lt_or_ge id.index s.cells.size with hlt | hge
  · rw [show h.relocation.move id = id from renewed_old hid hlt, hgrown.cell id hlt]
  · rw [show h.relocation.move id = _ from h.renewed_fresh hge, Interp.cell_of_size_le hge]
    exact Interp.cell_of_size_le (hsize ▸ Nat.add_le_add_right hge _)

end Renewal

/-- The cells of an argument list get the addresses of new ones, all other cells stay. -/
structure Relocation.Renews (r : Relocation) (s : Interp) (arguments : Value) : Prop where
  kept : ∀ id, id.index < s.cells.size → id ∉ s.cellsOf arguments → r.move id = id
  renewed : ∀ id ∈ s.cellsOf arguments, s.cells.size ≤ (r.move id).index

/-- A new list of the arguments is the argument list at other addresses. -/
theorem Interp.Unshared.newList {v : Value} (h : s.Unshared arguments) (hs : s.Live)
    (hproper : s.isProper arguments = true) (hnew : s.NewList (s.elementsOf arguments) v t) :
    ∃ r : Relocation, r.Renews s arguments ∧ v = arguments.relocate r ∧ Relocated r s t := by
  obtain ⟨ids, hspine, -⟩ := ProperList.iff_spine.mp (ProperList.iff_isProper.mpr ⟨hproper, rfl⟩)
  obtain ⟨news, hnews, hitems, hrange⟩ := hnew.spine
  have hids : s.cellsOf arguments = ids := by rw [cellsOf, hspine.spine_eq]
  have helements : s.elementsOf arguments = ids.map s.car := by rw [elementsOf, hids]
  rw [helements] at hitems
  have hsize : t.cells.size = s.cells.size + ids.length := by
    rw [hnew.size, helements, List.length_map]
  have hrenewal : Renewal s.cells.size ids news :=
    { length := by simpa using congrArg List.length hitems
      nodup := hspine.nodup
      nodup_news := hnews.nodup
      old := hspine.live hs h.live
      new := hsize ▸ hrange }
  have hwithholds := h.withholds hs hspine
  let r := hrenewal.relocation
  have hmove : ids.map r.move = news := hrenewal.map_renewed
  obtain ⟨hv, hcdr⟩ := hspine.relocated (hmove ▸ hnews)
  have hcar : ∀ id ∈ ids, t.car (r.move id) = (s.car id).relocate r := by
    intro id hid
    have hknown : (s.car id).Known (· ∈ ids) s := fun inner hinner =>
      ⟨((hs.grounded.cells id not_false).1 inner hinner).1, fun hmem =>
        h.elements inner (hids ▸ hmem) (helements ▸ hinner ▸ List.mem_map_of_mem hid)⟩
    rw [hrenewal.relocate_known hknown]
    rw [← hmove, List.map_map] at hitems
    exact List.map_inj_left.mp hitems id hid
  have hcell := hrenewal.cell_relocated hnew.grown hsize hwithholds
    fun id hid => ⟨hcar id hid, hcdr id hid⟩
  refine ⟨r, ⟨?_, ?_⟩, hv, .of_grown hnew.grown ?_ hcell ?_ (.of_live hs)⟩
  · exact fun id hlt hid => Renewal.renewed_old (hids ▸ hid) hlt
  · exact fun id hid => (hrenewal.new _ (hrenewal.renewed_mem (hids ▸ hid))).1
  · exact fun v hv => hrenewal.relocate_known (hwithholds.stored v hv)
  · intro n
    show CellId.renewed _ _ _ _ = _
    rw [hrenewal.renewed_fresh (Nat.le_add_right _ n), hsize]
    exact congrArg CellId.mk (Nat.add_right_comm _ n _)

end SmallLisp
