import SmallLisp.Proofs.Growth
import SmallLisp.Proofs.Walks

/-!
# Building a list by linking cells

`ListBuilder` collects elements, and their cells are allocated when the list is finished. A
`LinkedBuilder` allocates a cell for each element at once and links it behind the last one, whose
second half it changes in place; a list that is appended is walked while this goes on. Whatever is
pushed and appended, both build a list of the same elements in the same order in front of the tail,
from fresh cells, and leave every older cell as it was.
-/

namespace SmallLisp

variable {s t u : Interp}

/-! ## Linked cells -/

/-- The cells `ids` follow each other from `v` on, and `w` follows the last of them. -/
inductive Linked (s : Interp) : Value → List CellId → Value → Prop
  | here (v : Value) : Linked s v [] v
  | cell {id : CellId} {ids : List CellId} {w : Value} (hrest : Linked s (s.cdr id) ids w) :
      Linked s (.cons id) (id :: ids) w

namespace Linked

variable {v w : Value} {ids : List CellId}

theorem congr (h : Linked s v ids w) (hcdr : ∀ id ∈ ids, t.cdr id = s.cdr id) :
    Linked t v ids w := by
  induction h with
  | here v => exact .here v
  | @cell id ids w _ ih =>
    refine .cell ?_
    rw [hcdr id List.mem_cons_self]
    exact ih fun id hid => hcdr id (List.mem_cons_of_mem _ hid)

theorem snoc {id : CellId} (h : Linked s v ids (.cons id)) :
    Linked s v (ids ++ [id]) (s.cdr id) := by
  generalize hw : Value.cons id = w at h
  induction h with
  | here v =>
    subst hw
    exact .cell (.here _)
  | cell _ ih => exact .cell (ih hw)

/-- Linked cells in front of a list make a longer list. -/
theorem spine {ids' : List CellId} {tail : Value} (h : Linked s v ids w)
    (htail : Spine s w ids' tail) : Spine s v (ids ++ ids') tail := by
  induction h with
  | here v => exact htail
  | cell _ ih => exact .cell (ih htail)

end Linked

theorem Spine.linked {v tail : Value} {ids : List CellId} (h : Spine s v ids tail) :
    Linked s v ids tail := by
  induction h with
  | atom _ => exact .here _
  | cell _ ih => exact .cell ih

/-! ## Changing second halves -/

namespace Interp

theorem cell_setCdr_of_ne (s : Interp) {id j : CellId} (v : Value) (h : id ≠ j) :
    (s.setCdr id v).cell j = s.cell j := by
  have hindex : id.index ≠ j.index := fun e => h (by cases id; cases j; simp_all)
  simp [setCdr, cell, Array.getElem?_modify, hindex]

theorem car_setCdr (s : Interp) (id j : CellId) (v : Value) : (s.setCdr id v).car j = s.car j := by
  simp only [setCdr, car, cell, Array.getElem?_modify]
  split
  · cases s.cells[j.index]? <;> rfl
  · rfl

theorem cdr_setCdr (s : Interp) {id : CellId} (hid : id.index < s.cells.size) (v : Value) :
    (s.setCdr id v).cdr id = v := by
  simp [setCdr, cdr, cell, Array.getElem?_modify, Array.getElem?_eq_getElem hid]

theorem size_setCdr (s : Interp) (id : CellId) (v : Value) :
    (s.setCdr id v).cells.size = s.cells.size :=
  Array.size_modify

end Interp

/-- Changing the second half of the last cell links it to something else. -/
theorem Linked.setCdr {v : Value} {front : List CellId} {last : CellId}
    (h : Linked s v front (.cons last)) (hnodup : (front ++ [last]).Nodup)
    (hlast : last.index < s.cells.size) (w : Value) :
    Linked (s.setCdr last w) v (front ++ [last]) w := by
  have hfront : ∀ id ∈ front, (s.setCdr last w).cdr id = s.cdr id := by
    intro id hid
    have hne : last ≠ id := by
      rintro rfl
      exact (List.nodup_append.mp hnodup).2.2 _ hid _ List.mem_cons_self rfl
    exact congrArg Cell.cdr (s.cell_setCdr_of_ne w hne)
  have hsnoc := (h.congr hfront).snoc
  rw [s.cdr_setCdr hlast] at hsnoc
  exact hsnoc

/-- A state has grown whatever the second half of a newer cell is changed to. -/
theorem Grown.setCdr (h : Grown s t) {id : CellId} (hid : s.cells.size ≤ id.index) (v : Value) :
    Grown s (t.setCdr id v) := by
  refine ⟨?_, fun j hj => ?_, ?_⟩
  · rw [Interp.size_setCdr]
    exact h.size_le
  · have hne : id ≠ j := by
      rintro rfl
      exact Nat.not_lt_of_le hid hj
    rw [t.cell_setCdr_of_ne v hne, h.cell j hj]
  · rw [h.others]
    rfl

/-- A list stays as it was in a state that has grown. -/
theorem Grown.spine (h : Grown s t) {v tail : Value} {ids : List CellId}
    (hspine : Spine s v ids tail) (hids : ∀ id ∈ ids, id.index < s.cells.size) :
    Spine t v ids tail ∧ ids.map t.car = ids.map s.car :=
  ⟨hspine.congr fun id hid => h.cdr (hids id hid),
    List.map_congr_left fun id hid => h.car (hids id hid)⟩

/-! ## Builders -/

/-- Push each element that an iterator yields. -/
def LinkedBuilder.append (b : LinkedBuilder) :
    Nat → Value → Interp → Option (LinkedBuilder × Interp)
  | 0, _, _ => none
  | n + 1, v, s =>
    match s.next? v with
    | none => some (b, s)
    | some (item, rest) => (b.push item s).1.append n rest (b.push item s).2

/-- What can be done with a builder. -/
inductive BuildStep where
  | push (v : Value)
  | append (list : Value)

namespace BuildStep

/-- The elements that a step adds. -/
def items (s : Interp) : BuildStep → List Value
  | push v => [v]
  | append list => s.elementsOf list

/-- Carry out steps by linking cells. -/
def link (n : Nat) : List BuildStep → LinkedBuilder → Interp → Option (LinkedBuilder × Interp)
  | [], b, s => some (b, s)
  | push v :: rest, b, s => link n rest (b.push v s).1 (b.push v s).2
  | append list :: rest, b, s => do
    let (b, s) ← b.append n list s
    link n rest b s

/-- Carry out steps by collecting elements. -/
def collect (s : Interp) : List BuildStep → ListBuilder → ListBuilder
  | [], b => b
  | push v :: rest, b => collect s rest (b.push v)
  | append list :: rest, b => collect s rest (b.append s list)

end BuildStep

/-! ## What has been linked -/

/-- Cells that are fresh since `s` hold the elements in order, from `v` on and up to the tail. -/
structure Chained (s : Interp) (items : List Value) (tail v : Value) (t : Interp) : Prop where
  grown : Grown s t
  cells : ∃ new, Linked t v new tail ∧ new.map t.car = items ∧ new.Nodup ∧
    ∀ id ∈ new, s.cells.size ≤ id.index ∧ id.index < t.cells.size
  bare : items = [] → v = tail ∧ t = s

theorem chained_nil (s : Interp) (tail : Value) : Chained s [] tail tail s :=
  ⟨.refl s, ⟨[], .here tail, rfl, List.nodup_nil, fun _ hid => absurd hid List.not_mem_nil⟩,
    fun _ => ⟨rfl, rfl⟩⟩

/-- One more cell in front. -/
theorem Chained.cons {items : List Value} {tail v : Value} (h : Chained s items tail v t)
    (item : Value) :
    Chained s (item :: items) tail (t.allocCell item v).1 (t.allocCell item v).2 := by
  obtain ⟨new, hlinked, hitems, hnodup, hfresh⟩ := h.cells
  have hgrown := grown_allocCell t item v
  have hsize := t.size_allocCell item v
  refine ⟨h.grown.trans hgrown, ⟨⟨t.cells.size⟩ :: new, .cell ?_, ?_, ?_, ?_⟩,
    fun hnil => absurd hnil (List.cons_ne_nil item items)⟩
  · rw [Interp.cdr_allocCell_new]
    exact hlinked.congr fun id hid => hgrown.cdr (hfresh id hid).2
  · rw [List.map_cons, Interp.car_allocCell_new, ← hitems]
    exact congrArg _ (List.map_congr_left fun id hid => hgrown.car (hfresh id hid).2)
  · exact List.nodup_cons.mpr ⟨fun hmem => Nat.lt_irrefl _ (hfresh _ hmem).2, hnodup⟩
  · intro id hid
    rcases List.mem_cons.mp hid with rfl | hid
    · exact ⟨h.grown.size_le, by rw [hsize]; exact Nat.lt_succ_self _⟩
    · exact ⟨(hfresh id hid).1, Nat.lt_of_lt_of_le (hfresh id hid).2 hgrown.size_le⟩

theorem Chained.consReversed {items : List Value} {tail v : Value} (h : Chained s items tail v t)
    (reversed : List Value) :
    Chained s (reversed.reverse ++ items) tail (t.consReversed reversed v).1
      (t.consReversed reversed v).2 := by
  induction reversed generalizing items v t with
  | nil => exact h
  | cons item rest ih =>
    rw [List.reverse_cons, List.append_assoc]
    exact ih (h.cons item)

/-- How far a builder that started in `s` has come in `t`: its cells are linked from the first to
the last one. -/
inductive Building (s : Interp) : List Value → LinkedBuilder → Interp → Prop
  | empty : Building s [] .empty s
  | cells {items : List Value} {head last : CellId} {front : List CellId} {t : Interp}
      (hgrown : Grown s t) (hlinked : Linked t (.cons head) front (.cons last))
      (hitems : (front ++ [last]).map t.car = items) (hnodup : (front ++ [last]).Nodup)
      (hfresh : ∀ id ∈ front ++ [last], s.cells.size ≤ id.index ∧ id.index < t.cells.size) :
      Building s items ⟨some head, some last⟩ t

namespace Building

variable {items : List Value} {b : LinkedBuilder}

theorem grown (h : Building s items b t) : Grown s t := by
  cases h with
  | empty => exact .refl s
  | cells hgrown _ _ _ _ => exact hgrown

/-- A cell that is linked behind the last one. Nothing but the second half of that one changes. -/
theorem push (h : Building s items b t) (v : Value) :
    Building s (items ++ [v]) (b.push v t).1 (b.push v t).2 := by
  have halloc := grown_allocCell t v .nil
  have hsize := t.size_allocCell v .nil
  have hcar := t.car_allocCell_new v .nil
  cases h with
  | empty =>
    have hitems : [CellId.mk s.cells.size].map (s.allocCell v .nil).2.car = [v] :=
      congrArg (fun w => [w]) hcar
    refine .cells halloc (.here _) hitems (List.nodup_singleton _) fun id hid => ?_
    rw [List.mem_singleton.mp hid]
    exact ⟨Nat.le_refl _, hsize ▸ Nat.lt_succ_self _⟩
  | @cells _ head last front _ hgrown hlinked hitems hnodup hfresh =>
    have hlast : last.index < (t.allocCell v .nil).2.cells.size :=
      Nat.lt_of_lt_of_le (hfresh last (List.mem_append_right front List.mem_cons_self)).2
        halloc.size_le
    have hchain : Linked (t.allocCell v .nil).2 (.cons head) front (.cons last) :=
      hlinked.congr fun id hid => halloc.cdr (hfresh id (List.mem_append_left _ hid)).2
    have hnew : ⟨t.cells.size⟩ ∉ front ++ [last] := fun hmem => Nat.lt_irrefl _ (hfresh _ hmem).2
    show Building s _ ⟨some head, some ⟨t.cells.size⟩⟩ ((t.allocCell v .nil).2.setCdr last _)
    refine .cells ((hgrown.trans halloc).setCdr (hfresh last ?_).1 _) (hchain.setCdr hnodup hlast _)
      ?_ ?_ ?_
    · exact List.mem_append_right front List.mem_cons_self
    · have hcars : ((t.allocCell v .nil).2.setCdr last (.cons ⟨t.cells.size⟩)).car =
          (t.allocCell v .nil).2.car := funext fun id => Interp.car_setCdr _ last id _
      rw [List.map_append, hcars, List.map_singleton, hcar, ← hitems]
      exact congrArg (· ++ [v]) (List.map_congr_left fun id hid => halloc.car (hfresh id hid).2)
    · exact List.nodup_append.mpr ⟨hnodup, List.nodup_singleton _, fun id hid _ hcell heq =>
        hnew (List.mem_singleton.mp hcell ▸ heq ▸ hid)⟩
    · intro id hid
      rw [Interp.size_setCdr, hsize]
      rcases List.mem_append.mp hid with hid | hid
      · exact ⟨(hfresh id hid).1, Nat.lt_succ_of_lt (hfresh id hid).2⟩
      · rw [List.mem_singleton.mp hid]
        exact ⟨hgrown.size_le, Nat.lt_succ_self _⟩

/-- A list that is appended is read while cells are linked; its own cells stay as they were. -/
theorem append {list tail : Value} {ids : List CellId} (h : Building s items b t)
    (hspine : Spine s list ids tail) (hids : ∀ id ∈ ids, id.index < s.cells.size) :
    ∃ b' t', Completes (fun n => b.append n list t) (b', t') ∧
      Building s (items ++ ids.map s.car) b' t' := by
  induction hspine generalizing items b t with
  | @atom v hatom =>
    have hrun (n : Nat) : b.append (n + 1) v t = some (b, t) := by
      rw [LinkedBuilder.append, Interp.next?_eq_none hatom]
    exact ⟨b, t, .step (funext hrun ▸ .const _), (List.append_nil items).symm ▸ h⟩
  | @cell id ids tail _ ih =>
    -- the cell is read after cells have been linked, and is older than all of these
    have hid := hids id List.mem_cons_self
    have hnext : t.next? (.cons id) = some (s.car id, s.cdr id) := by
      rw [← h.grown.car hid, ← h.grown.cdr hid]
      rfl
    obtain ⟨b', t', hrun, hbuilt⟩ :=
      ih (h.push (s.car id)) fun id hid => hids id (List.mem_cons_of_mem _ hid)
    have hstep (n : Nat) : b.append (n + 1) (.cons id) t =
        (b.push (s.car id) t).1.append n (s.cdr id) (b.push (s.car id) t).2 := by
      rw [LinkedBuilder.append, hnext]
    refine ⟨b', t', .step (funext hstep ▸ hrun), ?_⟩
    rw [List.append_assoc] at hbuilt
    exact hbuilt

theorem link (h : Building s items b t) {steps : List BuildStep}
    (hsteps : ∀ list, .append list ∈ steps → s.FiniteList list) :
    ∃ b' t', Completes (fun n => BuildStep.link n steps b t) (b', t') ∧
      Building s (items ++ steps.flatMap (BuildStep.items s)) b' t' := by
  induction steps generalizing items b t with
  | nil => exact ⟨b, t, .const _, (List.append_nil items).symm ▸ h⟩
  | cons step rest ih =>
    have hrest : ∀ list, .append list ∈ rest → s.FiniteList list :=
      fun list hlist => hsteps list (List.mem_cons_of_mem _ hlist)
    rw [List.flatMap_cons, ← List.append_assoc]
    cases step with
    | push v => exact ih (h.push v) hrest
    | append list =>
      obtain ⟨ids, tail, hspine, hids⟩ := hsteps list List.mem_cons_self
      obtain ⟨b', t', hrun, hbuilt⟩ := h.append hspine hids
      have helements : BuildStep.items s (.append list) = ids.map s.car := by
        rw [BuildStep.items, Interp.elementsOf, Interp.cellsOf, hspine.spine_eq]
      obtain ⟨b'', t'', hlink, hlinked⟩ := ih hbuilt hrest
      rw [helements]
      exact ⟨b'', t'', hrun.bind hlink, hlinked⟩

theorem finish (h : Building s items b t) (tail : Value) :
    Chained s items tail (b.finish t tail).1 (b.finish t tail).2 := by
  cases h with
  | empty => exact chained_nil s tail
  | @cells _ head last front _ hgrown hlinked hitems hnodup hfresh =>
    have hlast := hfresh last (List.mem_append_right front List.mem_cons_self)
    have hcars : (t.setCdr last tail).car = t.car := funext fun id => t.car_setCdr last id tail
    refine ⟨hgrown.setCdr hlast.1 tail, ⟨front ++ [last], hlinked.setCdr hnodup hlast.2 tail, ?_,
      hnodup, ?_⟩, ?_⟩
    · exact hcars ▸ hitems
    · intro id hid
      exact (t.size_setCdr last tail).symm ▸ hfresh id hid
    · rintro rfl
      simp at hitems

end Building

/-- A list `v` in `t` that has been built in `s` from elements and a tail. -/
structure Interp.Joined (s : Interp) (items : List Value) (tail v : Value) (t : Interp) : Prop where
  /-- No older cell has changed, and nothing beside the cells. -/
  grown : Grown s t
  elements : t.elementsOf v = items ++ s.elementsOf tail
  proper : t.isProper v = s.isProper tail
  ending : t.tailOf v = s.tailOf tail
  /-- Fresh cells stand in front of the cells of the tail. -/
  fresh : ∃ new, new.Nodup ∧ new.length = items.length ∧
    t.cellsOf v = new ++ s.cellsOf tail ∧
    ∀ id ∈ new, s.cells.size ≤ id.index ∧ id.index < t.cells.size
  finite : t.FiniteList v
  /-- Where nothing was added the list is the tail, and the state is as it was. -/
  bare : items = [] → v = tail ∧ t = s

theorem Chained.joined {items : List Value} {tail v : Value} (h : Chained s items tail v t)
    (htail : s.FiniteList tail) : s.Joined items tail v t := by
  obtain ⟨ids, ending, hspine, hids⟩ := htail
  obtain ⟨new, hlinked, hitems, hnodup, hfresh⟩ := h.cells
  obtain ⟨hkept, hcars⟩ := h.grown.spine hspine hids
  have hwhole : Spine t v (new ++ ids) ending := hlinked.spine hkept
  constructor
  case grown => exact h.grown
  case elements =>
    simp only [Interp.elementsOf, Interp.cellsOf, hwhole.spine_eq, hspine.spine_eq,
      List.map_append, hitems, hcars]
  case proper => simp only [Interp.isProper, Interp.tailOf, hwhole.spine_eq, hspine.spine_eq]
  case ending => simp only [Interp.tailOf, hwhole.spine_eq, hspine.spine_eq]
  case fresh =>
    refine ⟨new, hnodup, by rw [← hitems, List.length_map], ?_, hfresh⟩
    simp only [Interp.cellsOf, hwhole.spine_eq, hspine.spine_eq]
  case finite =>
    refine ⟨new ++ ids, ending, hwhole, fun id hid => ?_⟩
    rcases List.mem_append.mp hid with hid | hid
    · exact (hfresh id hid).2
    · exact Nat.lt_of_lt_of_le (hids id hid) h.grown.size_le
  case bare => exact h.bare

/-! ## Both builders -/

theorem BuildStep.toList_collect (s : Interp) (steps : List BuildStep) (b : ListBuilder) :
    (collect s steps b).toList = b.toList ++ steps.flatMap (items s) := by
  induction steps generalizing b with
  | nil => exact (List.append_nil _).symm
  | cons step rest ih =>
    rw [List.flatMap_cons, ← List.append_assoc]
    cases step with
    | push v => exact (ih _).trans (by rw [b.toList_push]; rfl)
    | append list => exact (ih _).trans (by rw [b.toList_append]; rfl)

theorem ListBuilder.chained (b : ListBuilder) (s : Interp) (tail : Value) :
    Chained s b.toList tail (b.finish s tail).1 (b.finish s tail).2 := by
  have hchained := (chained_nil s tail).consReversed b.reversed
  rw [List.append_nil] at hchained
  exact hchained

/-- Whatever is pushed and appended in front of a tail, linking the cells comes to an end, and both
builders give a list of the elements in order with the end of the tail, made of fresh cells and with
no older cell changed. The walks along a list, a built one too, agree about it. -/
theorem lists_built_and_walked (s : Interp) (steps : List BuildStep) (tail : Value)
    (hsteps : ∀ list, .append list ∈ steps → s.FiniteList list) (htail : s.FiniteList tail) :
    (∃ b t, Completes (fun n => BuildStep.link n steps .empty s) (b, t) ∧
      s.Joined (steps.flatMap (BuildStep.items s)) tail (b.finish t tail).1 (b.finish t tail).2) ∧
    (∃ b : ListBuilder, b = BuildStep.collect s steps .empty ∧
      s.Joined (steps.flatMap (BuildStep.items s)) tail (b.finish s tail).1 (b.finish s tail).2) ∧
    ∀ (u : Interp) (v : Value), u.FiniteList v → u.WalksAgree v := by
  refine ⟨?_, ⟨_, rfl, ?_⟩, fun u v hv => hv.walksAgree⟩
  · obtain ⟨b, t, hrun, hbuilt⟩ := (Building.empty (s := s)).link hsteps
    exact ⟨b, t, hrun, (hbuilt.finish tail).joined htail⟩
  · have hcollected := BuildStep.toList_collect s steps .empty
    have hchained := (BuildStep.collect s steps .empty).chained s tail
    rw [hcollected] at hchained
    exact hchained.joined htail

/-- A list is copied behind another element and in front of an atom, and stays as it is. -/
theorem two_elements_copied : ∃ (s t u : Interp) (list v : Value) (b : LinkedBuilder),
    Completes (fun n => BuildStep.link n [.push (.ofNat 0), .append list] .empty s) (b, t) ∧
      b.finish t (.ofNat 7) = (v, u) ∧
      u.elementsOf v = [.ofNat 0, .ofNat 1, .ofNat 2] ∧ u.tailOf v = .ofNat 7 ∧
      Completes (fun n => u.vector? n v) none ∧ u.elementsOf list = [.ofNat 1, .ofNat 2] := by
  have hatom (s : Interp) {v : Value} (hv : ∀ id, v ≠ .cons id) : s.FiniteList v :=
    ⟨[], v, .atom (not_exists.mpr hv), fun _ hid => absurd hid List.not_mem_nil⟩
  obtain ⟨list, s, hsource⟩ : ∃ list s,
      (Interp.initial 64).Joined [.ofNat 1, .ofNat 2] .nil list s :=
    ⟨_, _, (((ListBuilder.empty.push (.ofNat 1)).push (.ofNat 2)).chained _ _).joined
      (hatom _ fun id hid => by cases hid)⟩
  have hitems : s.elementsOf list = [.ofNat 1, .ofNat 2] := hsource.elements
  have hsteps : ∀ l, .append l ∈ [BuildStep.push (.ofNat 0), .append list] → s.FiniteList l := by
    intro l hl
    rcases List.mem_cons.mp hl with hl | hl
    · cases hl
    · cases List.mem_singleton.mp hl
      exact hsource.finite
  obtain ⟨⟨b, t, hrun, hjoined⟩, -, hwalks⟩ :=
    lists_built_and_walked s _ (.ofNat 7) hsteps (hatom s fun id hid => by cases hid)
  obtain ⟨v, u, hfinish⟩ : ∃ v u, b.finish t (.ofNat 7) = (v, u) := ⟨_, _, rfl⟩
  rw [hfinish] at hjoined
  refine ⟨s, t, u, list, v, b, hrun, hfinish, ?_, hjoined.ending, ?_, ?_⟩
  · have helements := hjoined.elements
    rw [List.flatMap_cons, List.flatMap_cons, BuildStep.items, BuildStep.items, hitems] at helements
    exact helements
  · have himproper : u.properElements? v = none := by
      rw [Interp.properElements?, hjoined.proper]
      rfl
    exact himproper ▸ (hwalks u v hjoined.finite).vector
  · obtain ⟨ids, ending, hspine, hids⟩ := hsource.finite
    obtain ⟨hkept, hcars⟩ := hjoined.grown.spine hspine hids
    rw [← hitems]
    simp only [Interp.elementsOf, Interp.cellsOf, hkept.spine_eq, hspine.spine_eq, hcars]

end SmallLisp
