import SmallLisp.Sequence

/-!
# Growing stores

Allocating cells changes nothing that is there: the state has grown. What is known of the cells and
of everything outside the store stays known, so the lemmas about evaluation, templates and copies
all go through `Grown` where a list is built.
-/

namespace SmallLisp

/-- A state has all cells of an earlier one and differs from it in further cells only. -/
structure Grown (s u : Interp) : Prop where
  size_le : s.cells.size ≤ u.cells.size
  cell : ∀ id : CellId, id.index < s.cells.size → u.cell id = s.cell id
  others : u = { s with cells := u.cells }

variable {s u t : Interp}

theorem Grown.refl (s : Interp) : Grown s s := ⟨Nat.le_refl _, fun _ _ => rfl, rfl⟩

theorem Grown.trans (h : Grown s u) (h' : Grown u t) : Grown s t := by
  refine ⟨Nat.le_trans h.size_le h'.size_le, fun id hid => ?_, ?_⟩
  · have hlt : id.index < u.cells.size := Nat.lt_of_lt_of_le hid h.size_le
    rw [h'.cell id hlt, h.cell id hid]
  · have hothers := h'.others
    rw [h.others] at hothers
    exact hothers

theorem Grown.car (h : Grown s u) {id : CellId} (hid : id.index < s.cells.size) :
    u.car id = s.car id :=
  congrArg Cell.car (h.cell id hid)

theorem Grown.cdr (h : Grown s u) {id : CellId} (hid : id.index < s.cells.size) :
    u.cdr id = s.cdr id :=
  congrArg Cell.cdr (h.cell id hid)

theorem Grown.namespaceAt (h : Grown s u) (id : NamespaceId) :
    u.namespaceAt id = s.namespaceAt id := by
  rw [h.others]
  rfl

theorem Grown.current (h : Grown s u) : u.current = s.current := by
  rw [h.others]

theorem Grown.symbol (h : Grown s u) (id : SymbolId) : u.symbol id = s.symbol id := by
  rw [h.others]
  rfl

theorem Interp.size_allocCell (s : Interp) (a b : Value) :
    (s.allocCell a b).2.cells.size = s.cells.size + 1 :=
  Array.size_push _

theorem Interp.car_allocCell_new (s : Interp) (a b : Value) :
    (s.allocCell a b).2.car ⟨s.cells.size⟩ = a := by
  unfold car
  rw [cell_allocCell, if_pos rfl]

theorem Interp.cdr_allocCell_new (s : Interp) (a b : Value) :
    (s.allocCell a b).2.cdr ⟨s.cells.size⟩ = b := by
  unfold cdr
  rw [cell_allocCell, if_pos rfl]

theorem grown_allocCell (s : Interp) (car cdr : Value) : Grown s (s.allocCell car cdr).2 := by
  refine ⟨?_, fun id hid => ?_, rfl⟩
  · rw [Interp.size_allocCell]
    exact Nat.le_succ _
  · rw [Interp.cell_allocCell, if_neg (Nat.ne_of_lt hid)]

theorem grown_consReversed (items : List Value) (s : Interp) (tail : Value) :
    Grown s (s.consReversed items tail).2 := by
  induction items generalizing s tail with
  | nil => exact .refl s
  | cons v items ih => exact (grown_allocCell s v tail).trans (ih _ _)

end SmallLisp
