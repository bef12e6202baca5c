import SmallLisp.Proofs.Growth
import SmallLisp.Proofs.Spine
import SmallLisp.Template

/-!
# What a template means

`Reads` is the meaning of a template by the structure of its cells: unquotes, splices and nested
backquotes, lists and their tails. It does not evaluate anything; a derivation lists the evaluations
that it rests on, in their order, and `Means` asks that an evaluator carries them out.

Every finite template has a meaning, if the evaluations answer and leave the cells of the template
alone. That an expansion ends as the template means is left to `SmallLisp.Proofs.TemplateFilling`.
-/

namespace SmallLisp.Template

/-- A form is exactly the list of a tag and an operand. -/
def Tagged (s : Interp) (tag : SymbolId) (form operand : Value) : Prop :=
  ProperList s form [.symbol tag, operand]

/-- A form that no tag makes special. -/
def Plain (s : Interp) (form : Value) : Prop :=
  ∀ x, ¬ Tagged s .unquote form x ∧ ¬ Tagged s .splice form x ∧ ¬ Tagged s .backquote form x

/-- Tags that stay in the template: an unquote or a splice above level zero, whose operand is one
level lower, and a backquote, whose operand is one level higher. -/
inductive Shifts : SymbolId → Nat → Nat → Prop
  | unquote (level : Nat) : Shifts .unquote (level + 1) level
  | splice (level : Nat) : Shifts .splice (level + 1) level
  | backquote (level : Nat) : Shifts .backquote level (level + 1)

/-- An evaluation that was carried out. -/
structure Evaluation where
  form : Value
  before : Interp
  ending : Ending Value
  after : Interp

/-- An evaluator carries out evaluations in this way. -/
def Performs (ev : Evaluator) (trace : List Evaluation) : Prop :=
  ∀ call ∈ trace, (ev.form call.form).Ends call.before call.ending call.after

mutual

/-- Expanded at a level, from the state `s` on, a form takes the evaluations `trace`, one after the
other, and ends in this way in the state `t`. -/
inductive Reads : Nat → Value → Interp → List Evaluation → Ending Value → Interp → Prop
  | atom {level : Nat} {form : Value} {s : Interp} (hatom : ¬ form.IsCell) :
      Reads level form s [] (.ok form) s
  | unquoted {form x : Value} {s t : Interp} {ending : Ending Value}
      (htag : Tagged s .unquote form x) : Reads 0 form s [⟨x, s, ending, t⟩] ending t
  | misplaced {form x : Value} {s : Interp} (htag : Tagged s .splice form x) :
      Reads 0 form s []
        (.error (.fault (.evaluation (.spliceOutsideList (s.print form)) none))) s
  | rebuilt {level inner : Nat} {tag : SymbolId} {form x v w : Value} {s u t : Interp}
      {trace : List Evaluation} (hshift : Shifts tag level inner) (htag : Tagged s tag form x)
      (hoperand : Reads inner x s trace (.ok v) u) (hnew : u.listOf [.symbol tag, v] = (w, t)) :
      Reads level form s trace (.ok w) t
  | operandStops {level inner : Nat} {tag : SymbolId} {form x : Value} {s t : Interp} {stop : Stop}
      {trace : List Evaluation} (hshift : Shifts tag level inner) (htag : Tagged s tag form x)
      (hoperand : Reads inner x s trace (.error stop) t) :
      Reads level form s trace (.error stop) t
  | list {level : Nat} {id : CellId} {tail v : Value} {items : List Value} {s u t : Interp}
      {trace : List Evaluation} (hplain : Plain s (.cons id))
      (hcells : ReadsCells level id s trace (.ok (items, tail)) u)
      (hnew : u.consAll items tail = (v, t)) : Reads level (.cons id) s trace (.ok v) t
  | listStops {level : Nat} {id : CellId} {s t : Interp} {stop : Stop} {trace : List Evaluation}
      (hplain : Plain s (.cons id)) (hcells : ReadsCells level id s trace (.error stop) t) :
      Reads level (.cons id) s trace (.error stop) t

/-- From a cell on, a list contributes elements and a tail: first the element in the cell, then
what follows. -/
inductive ReadsCells :
    Nat → CellId → Interp → List Evaluation → Ending (List Value × Value) → Interp → Prop
  | cell {level : Nat} {id : CellId} {items rest : List Value} {tail : Value} {s u t : Interp}
      {trace trace' : List Evaluation} (hitem : Contributes level (s.car id) s trace (.ok items) u)
      (htail : ReadsTail level (u.cdr id) u trace' (.ok (rest, tail)) t) :
      ReadsCells level id s (trace ++ trace') (.ok (items ++ rest, tail)) t
  | itemStops {level : Nat} {id : CellId} {s t : Interp} {stop : Stop} {trace : List Evaluation}
      (hitem : Contributes level (s.car id) s trace (.error stop) t) :
      ReadsCells level id s trace (.error stop) t
  | tailStops {level : Nat} {id : CellId} {items : List Value} {s u t : Interp} {stop : Stop}
      {trace trace' : List Evaluation} (hitem : Contributes level (s.car id) s trace (.ok items) u)
      (htail : ReadsTail level (u.cdr id) u trace' (.error stop) t) :
      ReadsCells level id s (trace ++ trace') (.error stop) t

/-- What follows a cell: the end of the list, an unquote in place of it, or a further cell. -/
inductive ReadsTail :
    Nat → Value → Interp → List Evaluation → Ending (List Value × Value) → Interp → Prop
  | atom {level : Nat} {v : Value} {s : Interp} (hatom : ¬ v.IsCell) :
      ReadsTail level v s [] (.ok ([], v)) s
  | unquoted {level : Nat} {v x : Value} {s t : Interp} {ending : Ending Value}
      {trace : List Evaluation} (htag : Tagged s .unquote v x)
      (hform : Reads level v s trace ending t) :
      ReadsTail level v s trace (ending.map fun tail => ([], tail)) t
  | cells {level : Nat} {id : CellId} {s t : Interp} {ending : Ending (List Value × Value)}
      {trace : List Evaluation} (hplain : ∀ x, ¬ Tagged s .unquote (.cons id) x)
      (hcells : ReadsCells level id s trace ending t) :
      ReadsTail level (.cons id) s trace ending t

/-- The elements that one element of the template contributes. -/
inductive Contributes :
    Nat → Value → Interp → List Evaluation → Ending (List Value) → Interp → Prop
  | spliced {item x v : Value} {items : List Value} {s t : Interp}
      (htag : Tagged s .splice item x) (hproper : ProperList t v items) :
      Contributes 0 item s [⟨x, s, .ok v, t⟩] (.ok items) t
  | improper {item x v : Value} {s t : Interp} (htag : Tagged s .splice item x)
      (himproper : ∀ items, ¬ ProperList t v items) :
      Contributes 0 item s [⟨x, s, .ok v, t⟩]
        (.error (.fault (.evaluation (.spliceOfNonList (t.print v)) none))) t
  | spliceStops {item x : Value} {s t : Interp} {stop : Stop} (htag : Tagged s .splice item x) :
      Contributes 0 item s [⟨x, s, .error stop, t⟩] (.error stop) t
  | form {level : Nat} {item : Value} {s t : Interp} {ending : Ending Value}
      {trace : List Evaluation} (hplain : 0 < level ∨ ∀ x, ¬ Tagged s .splice item x)
      (hitem : Reads level item s trace ending t) :
      Contributes level item s trace (ending.map fun v => [v]) t

end

/-- As the operand of a backquote, with this evaluator, a form ends in this way. -/
def Means (ev : Evaluator) (form : Value) (s : Interp) (ending : Ending Value) (t : Interp) :
    Prop :=
  ∃ trace, Performs ev trace ∧ Reads 0 form s trace ending t

/-! ## Tags -/

variable {s t : Interp}

theorem tagged_iff {tag : SymbolId} {form x : Value} :
    Tagged s tag form x ↔ ∃ id rest, form = .cons id ∧ s.car id = .symbol tag ∧
      s.cdr id = .cons rest ∧ s.car rest = x ∧ s.cdr rest = .nil := by
  unfold Tagged
  rw [ProperList.cons_iff]
  constructor
  · rintro ⟨id, hform, htag, hrest⟩
    obtain ⟨rest, hcdr, hoperand, hnil⟩ := ProperList.cons_iff.mp hrest
    exact ⟨id, rest, hform, htag, hcdr, hoperand, ProperList.nil_iff.mp hnil⟩
  · rintro ⟨id, rest, hform, htag, hcdr, hoperand, hnil⟩
    refine ⟨id, hform, htag, ProperList.cons_iff.mpr ⟨rest, hcdr, hoperand, ?_⟩⟩
    exact ProperList.nil_iff.mpr hnil

/-- The test for a tag finds the operand of a tagged form. -/
theorem operand?_eq_some_iff {tag : SymbolId} {form x : Value} :
    operand? s tag form = some x ↔ Tagged s tag form x := by
  rw [tagged_iff]
  constructor
  · intro h
    unfold operand? at h
    split at h
    next id =>
      split at h
      next htag =>
        split at h
        next rest hcdr =>
          split at h
          next hnil =>
            refine ⟨id, rest, rfl, htag, hcdr, Option.some.inj h, ?_⟩
            exact Value.isNil_iff.mp hnil
          next => cases h
        next => cases h
      next => cases h
    next => cases h
  · rintro ⟨id, rest, rfl, htag, hcdr, rfl, hnil⟩
    unfold operand?
    simp only [htag, if_true, hcdr, hnil]
    rfl

theorem operand?_eq_none_iff {tag : SymbolId} {form : Value} :
    operand? s tag form = none ↔ ∀ x, ¬ Tagged s tag form x := by
  simp only [Option.eq_none_iff_forall_ne_some, ne_eq, operand?_eq_some_iff]

theorem Tagged.isCell {tag : SymbolId} {form x : Value} (h : Tagged s tag form x) :
    form.IsCell := by
  obtain ⟨id, _, rfl, _⟩ := tagged_iff.mp h
  exact Value.isCell_cons id

/-- A form has one tag at most. -/
theorem Tagged.operand?_ne {tag tag' : SymbolId} {form x : Value} (h : Tagged s tag form x)
    (hne : tag ≠ tag') : operand? s tag' form = none := by
  rw [operand?_eq_none_iff]
  intro y h'
  obtain ⟨id, _, hform, htag, _⟩ := tagged_iff.mp h
  obtain ⟨id', _, hform', htag', _⟩ := tagged_iff.mp h'
  rw [hform] at hform'
  cases hform'
  rw [htag] at htag'
  cases htag'
  exact hne rfl

/-- A form is an atom, tagged, or a plain list. -/
theorem form_cases (s : Interp) (form : Value) :
    ¬ form.IsCell ∨ (∃ x, Tagged s .unquote form x) ∨ (∃ x, Tagged s .splice form x) ∨
      (∃ x, Tagged s .backquote form x) ∨ ∃ id, form = .cons id ∧ Plain s form := by
  by_cases hcell : form.IsCell
  · by_cases hunquote : ∃ x, Tagged s .unquote form x
    · exact .inr (.inl hunquote)
    by_cases hsplice : ∃ x, Tagged s .splice form x
    · exact .inr (.inr (.inl hsplice))
    by_cases hbackquote : ∃ x, Tagged s .backquote form x
    · exact .inr (.inr (.inr (.inl hbackquote)))
    obtain ⟨id, rfl⟩ := hcell
    refine .inr (.inr (.inr (.inr ⟨id, rfl, fun x => ⟨fun h => hunquote ⟨x, h⟩, ?_, ?_⟩⟩)))
    · exact fun h => hsplice ⟨x, h⟩
    · exact fun h => hbackquote ⟨x, h⟩
  · exact .inl hcell

/-! ## Finite templates -/

variable {ev : Evaluator}

theorem performs_nil : Performs ev [] := fun _ hcall => absurd hcall List.not_mem_nil

theorem performs_singleton {x : Value} {ending : Ending Value} :
    Performs ev [⟨x, s, ending, t⟩] ↔ (ev.form x).Ends s ending t := by
  simp [Performs]

theorem performs_append {trace trace' : List Evaluation} :
    Performs ev (trace ++ trace') ↔ Performs ev trace ∧ Performs ev trace' :=
  List.forall_mem_append

/-- A state has some cells as `s` has them. -/
def Keeps (cells : CellId → Prop) (s u : Interp) : Prop :=
  ∀ id, cells id → id.index < u.cells.size ∧ u.cell id = s.cell id

/-- A finite tree of cells. -/
inductive Tree (cells : CellId → Prop) (s : Interp) : Value → Prop
  | atom {v : Value} (hatom : ¬ v.IsCell) : Tree cells s v
  | cell {id : CellId} (hid : cells id) (hcar : Tree cells s (s.car id))
      (hcdr : Tree cells s (s.cdr id)) : Tree cells s (.cons id)

/-- Evaluations answer and leave some cells alone. -/
def Harmless (ev : Evaluator) (cells : CellId → Prop) (s : Interp) : Prop :=
  ∀ x u, Keeps cells s u → ∃ ending t, (ev.form x).Ends u ending t ∧ Keeps cells s t

variable {cells : CellId → Prop} {u : Interp}

theorem Keeps.car (h : Keeps cells s u) {id : CellId} (hid : cells id) : u.car id = s.car id :=
  congrArg Cell.car (h id hid).2

theorem Keeps.cdr (h : Keeps cells s u) {id : CellId} (hid : cells id) : u.cdr id = s.cdr id :=
  congrArg Cell.cdr (h id hid).2

theorem Keeps.grow (h : Keeps cells s u) (ht : Grown u t) : Keeps cells s t := by
  intro id hid
  obtain ⟨hlt, hcell⟩ := h id hid
  refine ⟨Nat.lt_of_lt_of_le hlt ht.size_le, ?_⟩
  rw [ht.cell id hlt, hcell]

/-- Whatever state that keeps the cells it starts from, a reading of this part answers. -/
def Answers {α : Type} (ev : Evaluator) (cells : CellId → Prop) (s : Interp)
    (reading : Nat → Interp → List Evaluation → Ending α → Interp → Prop) : Prop :=
  ∀ level u, Keeps cells s u → ∃ trace ending t,
    Performs ev trace ∧ reading level u trace ending t ∧ Keeps cells s t

/-- However a part of a template is read, the reading answers. -/
structure Part (ev : Evaluator) (cells : CellId → Prop) (s : Interp) (v : Value) : Prop where
  form : Answers ev cells s fun level => Reads level v
  tail : Answers ev cells s fun level => ReadsTail level v
  item : Answers ev cells s fun level => Contributes level v
  head : ∀ id, v = .cons id → Answers ev cells s fun level => Reads level (s.car id)

theorem shifted_answers {level inner : Nat} {tag : SymbolId} {form x : Value}
    (hx : Answers ev cells s fun level => Reads level x) (hu : Keeps cells s u)
    (hshift : Shifts tag level inner) (htag : Tagged u tag form x) :
    ∃ trace ending t, Performs ev trace ∧ Reads level form u trace ending t ∧ Keeps cells s t := by
  obtain ⟨trace, ending, t, hperforms, hreads, ht⟩ := hx inner u hu
  match ending with
  | .ok v =>
    have hlist : Keeps cells s (t.listOf [.symbol tag, v]).2 :=
      ht.grow (grown_consReversed _ t .nil)
    exact ⟨trace, _, _, hperforms, .rebuilt hshift htag hreads (Prod.eta _).symm, hlist⟩
  | .error stop => exact ⟨trace, _, t, hperforms, .operandStops hshift htag hreads, ht⟩

theorem cells_answer {id : CellId} (hid : cells id) (hcar : Part ev cells s (s.car id))
    (hcdr : Part ev cells s (s.cdr id)) :
    Answers ev cells s fun level => ReadsCells level id := by
  intro level u hu
  have hitem := hcar.item level u hu
  rw [← hu.car hid] at hitem
  obtain ⟨trace, contribution, t, hperforms, hitem, ht⟩ := hitem
  match contribution with
  | .error stop => exact ⟨trace, _, t, hperforms, .itemStops hitem, ht⟩
  | .ok items =>
    have htail := hcdr.tail level t ht
    rw [← ht.cdr hid] at htail
    obtain ⟨trace', tail, t', hperforms', htail, ht'⟩ := htail
    have hboth := performs_append.mpr ⟨hperforms, hperforms'⟩
    match tail with
    | .ok (rest, tail) => exact ⟨_, _, t', hboth, .cell hitem htail, ht'⟩
    | .error stop => exact ⟨_, _, t', hboth, .tailStops hitem htail, ht'⟩

theorem form_answers {id : CellId} (hev : Harmless ev cells s)
    (hoperand : ∀ u tag x, Keeps cells s u → Tagged u tag (.cons id) x →
      Answers ev cells s fun level => Reads level x)
    (hcells : Answers ev cells s fun level => ReadsCells level id) :
    Answers ev cells s fun level => Reads level (.cons id) := by
  intro level u hu
  rcases form_cases u (.cons id) with hatom | ⟨x, htag⟩ | ⟨x, htag⟩ | ⟨x, htag⟩ | ⟨_, _, hplain⟩
  · exact absurd (Value.isCell_cons id) hatom
  · cases level with
    | zero =>
      obtain ⟨ending, t, hends, ht⟩ := hev x u hu
      exact ⟨_, ending, t, performs_singleton.mpr hends, .unquoted htag, ht⟩
    | succ level => exact shifted_answers (hoperand u _ x hu htag) hu (.unquote level) htag
  · cases level with
    | zero => exact ⟨[], _, u, performs_nil, .misplaced htag, hu⟩
    | succ level => exact shifted_answers (hoperand u _ x hu htag) hu (.splice level) htag
  · exact shifted_answers (hoperand u _ x hu htag) hu (.backquote level) htag
  · obtain ⟨trace, list, t, hperforms, hcells, ht⟩ := hcells level u hu
    match list with
    | .ok (items, tail) =>
      have hlist : Keeps cells s (t.consAll items tail).2 :=
        ht.grow (grown_consReversed _ t tail)
      exact ⟨trace, _, _, hperforms, .list hplain hcells (Prod.eta _).symm, hlist⟩
    | .error stop => exact ⟨trace, _, t, hperforms, .listStops hplain hcells, ht⟩

theorem tail_answers {id : CellId} (hform : Answers ev cells s fun level => Reads level (.cons id))
    (hcells : Answers ev cells s fun level => ReadsCells level id) :
    Answers ev cells s fun level => ReadsTail level (.cons id) := by
  intro level u hu
  by_cases hunquote : ∃ x, Tagged u .unquote (.cons id) x
  · obtain ⟨x, htag⟩ := hunquote
    obtain ⟨trace, ending, t, hperforms, hreads, ht⟩ := hform level u hu
    exact ⟨trace, _, t, hperforms, .unquoted htag hreads, ht⟩
  · obtain ⟨trace, list, t, hperforms, hreads, ht⟩ := hcells level u hu
    exact ⟨trace, list, t, hperforms, .cells (fun x hx => hunquote ⟨x, hx⟩) hreads, ht⟩

theorem item_answers {v : Value} (hev : Harmless ev cells s)
    (hform : Answers ev cells s fun level => Reads level v) :
    Answers ev cells s fun level => Contributes level v := by
  intro level u hu
  by_cases hplain : 0 < level ∨ ∀ x, ¬ Tagged u .splice v x
  · obtain ⟨trace, ending, t, hperforms, hreads, ht⟩ := hform level u hu
    exact ⟨trace, _, t, hperforms, .form hplain hreads, ht⟩
  · obtain ⟨hlevel, hsplice⟩ := not_or.mp hplain
    obtain rfl : level = 0 := Nat.eq_zero_of_not_pos hlevel
    obtain ⟨x, htag⟩ := Classical.not_forall_not.mp hsplice
    obtain ⟨ending, t, hends, ht⟩ := hev x u hu
    have hperforms := performs_singleton.mpr hends
    match ending with
    | .error stop => exact ⟨_, _, t, hperforms, .spliceStops htag, ht⟩
    | .ok w =>
      by_cases hproper : ∃ items, ProperList t w items
      · obtain ⟨items, hitems⟩ := hproper
        exact ⟨_, _, t, hperforms, .spliced htag hitems, ht⟩
      · have himproper : ∀ items, ¬ ProperList t w items := fun items h => hproper ⟨items, h⟩
        exact ⟨_, _, t, hperforms, .improper htag himproper, ht⟩

theorem Tree.part (hev : Harmless ev cells s) {v : Value} (h : Tree cells s v) :
    Part ev cells s v := by
  induction h with
  | @atom v hatom =>
    have hform : Answers ev cells s fun level => Reads level v :=
      fun level u hu => ⟨[], _, u, performs_nil, .atom hatom, hu⟩
    refine ⟨hform, fun level u hu => ⟨[], _, u, performs_nil, .atom hatom, hu⟩,
      item_answers hev hform, ?_⟩
    rintro id rfl
    exact absurd (Value.isCell_cons id) hatom
  | @cell id hid _ hcdr ihcar ihcdr =>
    have hcells := cells_answer hid ihcar ihcdr
    have hoperand : ∀ u tag x, Keeps cells s u → Tagged u tag (.cons id) x →
        Answers ev cells s fun level => Reads level x := by
      intro u tag x hu htag
      obtain ⟨_, rest, hform, _, hrest, rfl, _⟩ := tagged_iff.mp htag
      cases hform
      rw [hu.cdr hid] at hrest
      rw [hrest] at hcdr
      cases hcdr with
      | atom hatom => exact absurd (Value.isCell_cons rest) hatom
      | cell hidRest _ _ =>
        rw [hu.car hidRest]
        exact ihcdr.head rest hrest
    have hform := form_answers hev hoperand hcells
    refine ⟨hform, tail_answers hform hcells, item_answers hev hform, ?_⟩
    rintro _ h
    cases h
    exact ihcar.form

/-- Every finite template has a meaning, if evaluations answer and leave it alone. -/
theorem tree_means {form : Value} (hstore : Keeps cells s s) (htree : Tree cells s form)
    (hev : Harmless ev cells s) : ∃ ending t, Means ev form s ending t := by
  obtain ⟨trace, ending, t, hperforms, hreads, _⟩ := (htree.part hev).form 0 s hstore
  exact ⟨ending, t, trace, hperforms, hreads⟩

end SmallLisp.Template
