import SmallLisp.Proofs.TemplateCells

/-!
# Expansions allocate

An expansion changes no cell that was there, and the cells of its value are fresh and known to
nothing else, up to the values that were inserted. This needs the evaluator to be discreet: the
cells that a template has been copied into wait for the evaluations of what follows, and no
evaluation may come across them.

The induction follows a successful reading. What it carries is `Weaves`: the hidden cells were
spared, the fresh ones are hidden besides, and the values so far are woven of fresh cells and
inserted values.
-/

namespace SmallLisp.Template

variable {hidden own own' : CellId → Prop} {inserted inserted' : List Value} {s t u : Interp}

/-! ## Values woven of cells of their own -/

/-- A value is put together from cells of its own, atoms and inserted values. -/
inductive Woven (own : CellId → Prop) (inserted : List Value) (t : Interp) : Value → Prop
  | atom {v : Value} (hatom : ¬ v.IsCell) : Woven own inserted t v
  | inserted {v : Value} (hv : v ∈ inserted) : Woven own inserted t v
  | cell {id : CellId} (hid : own id) (hcar : Woven own inserted t (t.car id))
      (hcdr : Woven own inserted t (t.cdr id)) : Woven own inserted t (.cons id)

/-- The cells that are reached from a value without passing through one of the others. -/
inductive Reaches (t : Interp) (stops : List Value) : Value → CellId → Prop
  | here {id : CellId} (hid : Value.cons id ∉ stops) : Reaches t stops (.cons id) id
  | car {id j : CellId} (hid : Value.cons id ∉ stops) (h : Reaches t stops (t.car id) j) :
      Reaches t stops (.cons id) j
  | cdr {id j : CellId} (hid : Value.cons id ∉ stops) (h : Reaches t stops (t.cdr id) j) :
      Reaches t stops (.cons id) j

namespace Woven

/-- Up to the inserted values, all cells are its own. -/
theorem own_of_reaches {v : Value} {id : CellId} (h : Woven own inserted t v)
    (hreaches : Reaches t inserted v id) : own id := by
  have hcell : ∀ {id}, Value.cons id ∉ inserted → Woven own inserted t (.cons id) →
      own id ∧ Woven own inserted t (t.car id) ∧ Woven own inserted t (t.cdr id) := by
    intro id hid h
    cases h with
    | atom hatom => exact absurd (Value.isCell_cons id) hatom
    | inserted hv => exact absurd hv hid
    | cell hown hcar hcdr => exact ⟨hown, hcar, hcdr⟩
  induction hreaches with
  | here hid => exact (hcell hid h).1
  | car hid _ ih => exact ih (hcell hid h).2.1
  | cdr hid _ ih => exact ih (hcell hid h).2.2

/-- A value stays woven as long as its own cells are left alone. -/
theorem mono {v : Value} (h : Woven own inserted u v) (hown : ∀ id, own id → own' id)
    (hinserted : ∀ w ∈ inserted, w ∈ inserted') (hkept : ∀ id, own id → t.cell id = u.cell id) :
    Woven own' inserted' t v := by
  induction h with
  | atom hatom => exact .atom hatom
  | inserted hv => exact .inserted (hinserted _ hv)
  | @cell id hid _ _ ihcar ihcdr =>
    have hcar : t.car id = u.car id := congrArg Cell.car (hkept id hid)
    have hcdr : t.cdr id = u.cdr id := congrArg Cell.cdr (hkept id hid)
    exact .cell (hown id hid) (hcar ▸ ihcar) (hcdr ▸ ihcdr)

/-- A list of woven elements is woven, of the cells that are new besides. -/
theorem consAll {items : List Value} {tail : Value} (hown : ∀ id, own id → id.index < u.cells.size)
    (hitems : ∀ item ∈ items, Woven own inserted u item) (htail : Woven own inserted u tail) :
    Woven (fun id => own id ∨
        u.cells.size ≤ id.index ∧ id.index < (u.consAll items tail).2.cells.size) inserted
      (u.consAll items tail).2 (u.consAll items tail).1 := by
  induction items with
  | nil => exact htail.mono (fun _ hid => .inl hid) (fun _ hw => hw) fun _ _ => rfl
  | cons item items ih =>
    obtain ⟨hitem, hitems⟩ := List.forall_mem_cons.mp hitems
    have hlist := ih hitems
    have hgrown : Grown u (u.consAll items tail).2 := grown_consReversed _ u tail
    rw [consAll_cons]
    generalize u.consAll items tail = r at hlist hgrown
    obtain ⟨rest, w⟩ := r
    have hnew : Grown w (w.allocCell item rest).2 := grown_allocCell w item rest
    have hsize := w.size_allocCell item rest
    refine .cell (.inr ⟨hgrown.size_le, hsize ▸ Nat.lt_succ_self _⟩) ?_ ?_
    · rw [Interp.car_allocCell_new]
      refine hitem.mono (fun _ hid => .inl hid) (fun _ hw => hw) fun id hid => ?_
      exact (hgrown.trans hnew).cell id (hown id hid)
    · rw [Interp.cdr_allocCell_new]
      have hlt : ∀ id, own id ∨ u.cells.size ≤ id.index ∧ id.index < w.cells.size →
          id.index < w.cells.size := by
        rintro id (hid | ⟨-, hlt⟩)
        · exact Nat.lt_of_lt_of_le (hown id hid) hgrown.size_le
        · exact hlt
      refine hlist.mono (fun id hid => ?_) (fun _ hw => hw) fun id hid => hnew.cell id (hlt id hid)
      exact hid.imp_right fun ⟨hle, hlt⟩ => ⟨hle, hsize ▸ Nat.lt_succ_of_lt hlt⟩

end Woven

/-! ## What a reading hides -/

/-- Given a context that is known, an evaluation of a known form is discreet. -/
def Evaluation.Discreet (context : Value) (call : Evaluation) : Prop :=
  ∀ hidden, call.before.Withholds hidden → context.Known hidden call.before →
    call.form.Known hidden call.before →
    Spared hidden call.before call.after ∧ EndingKnown hidden call.after call.ending

/-- From `s` to `t` the hidden cells were spared, and the fresh ones are hidden as well. -/
structure Secluded (hidden : CellId → Prop) (s : Interp) (trace : List Evaluation) (t : Interp) :
    Prop where
  between : Between s trace t
  size_le : s.cells.size ≤ t.cells.size
  kept : ∀ id, hidden id → t.cell id = s.cell id
  newer : ∀ id, Fresh s trace t id → s.cells.size ≤ id.index
  withholds : t.Withholds fun id => hidden id ∨ Fresh s trace t id

namespace Secluded

variable {trace trace' : List Evaluation}

theorem refl (hs : s.Withholds hidden) : Secluded hidden s [] s where
  between := .refl s
  size_le := Nat.le_refl _
  kept := fun _ _ => rfl
  newer := fun _ h => absurd h not_fresh_refl
  withholds := hs.of_iff fun _ => (or_iff_left not_fresh_refl).symm

theorem of_spared (h : Spared hidden s t) (x : Value) (ending : Ending Value) :
    Secluded hidden s [⟨x, s, ending, t⟩] t where
  between := .single s t x ending
  size_le := h.size_le
  kept := h.kept
  newer := fun _ h => absurd h not_fresh_single
  withholds := h.withholds.of_iff fun _ => (or_iff_left not_fresh_single).symm

theorem append (h : Secluded hidden s trace u)
    (h' : Secluded (fun id => hidden id ∨ Fresh s trace u id) u trace' t) :
    Secluded hidden s (trace ++ trace') t where
  between := h.between.append h'.between
  size_le := Nat.le_trans h.size_le h'.size_le
  kept := fun id hid => (h'.kept id (.inl hid)).trans (h.kept id hid)
  newer := by
    intro id hid
    rcases (fresh_append h.between h'.between id).mp hid with hid | hid
    · exact h.newer id hid
    · exact Nat.le_trans h.size_le (h'.newer id hid)
  withholds := h'.withholds.of_iff fun id => by rw [fresh_append h.between h'.between, or_assoc]

theorem grow (h : Secluded hidden s trace u) (hs : s.Withholds hidden) (hut : Grown u t) :
    Secluded hidden s trace t where
  between := h.between.grow hut
  size_le := Nat.le_trans h.size_le hut.size_le
  kept := by
    intro id hid
    rw [hut.cell id (Nat.lt_of_lt_of_le (hs.exist id hid) h.size_le), h.kept id hid]
  newer := by
    intro id hid
    rcases (fresh_grow h.between hut id).mp hid with hid | ⟨hle, -⟩
    · exact h.newer id hid
    · exact Nat.le_trans h.size_le hle
  withholds := (h.withholds.grow hut).of_iff fun id => by
    rw [fresh_grow h.between hut, or_assoc]

/-- What was known is none of the fresh cells. -/
theorem known (h : Secluded hidden s trace t) {v : Value} (hv : v.Known hidden s) :
    v.Known (fun id => hidden id ∨ Fresh s trace t id) t := by
  intro id hid
  obtain ⟨hlt, hnot⟩ := hv id hid
  refine ⟨Nat.lt_of_lt_of_le hlt h.size_le, ?_⟩
  rintro (hhidden | hfresh)
  · exact hnot hhidden
  · exact Nat.lt_irrefl _ (Nat.lt_of_lt_of_le hlt (h.newer id hfresh))

end Secluded

/-- A part of a reading: it hid the fresh cells, the values that it has come to are woven of them,
and what it inserted is none of them. -/
structure Weaves (hidden : CellId → Prop) (s : Interp) (trace : List Evaluation)
    (inserted vs : List Value) (t : Interp) : Prop where
  secluded : Secluded hidden s trace t
  woven : ∀ v ∈ vs, Woven (Fresh s trace t) inserted t v
  apart : ∀ w ∈ inserted, w.Known (fun id => hidden id ∨ Fresh s trace t id) t

namespace Weaves

variable {trace trace' : List Evaluation} {vs vs' : List Value}

theorem atom {v : Value} (hs : s.Withholds hidden) (hv : ¬ v.IsCell) :
    Weaves hidden s [] [] [v] s where
  secluded := .refl hs
  woven := List.forall_mem_singleton.mpr (.atom hv)
  apart := fun _ hw => absurd hw List.not_mem_nil

/-- The values that an evaluation yields are inserted. -/
theorem of_spared (h : Spared hidden s t) (x : Value) (ending : Ending Value)
    (hvs : ∀ v ∈ vs, v.Known hidden t) : Weaves hidden s [⟨x, s, ending, t⟩] vs vs t where
  secluded := .of_spared h x ending
  woven := fun _ hv => .inserted hv
  apart := fun w hw => (hvs w hw).of_iff fun _ => (or_iff_left not_fresh_single).symm

/-- Later evaluations leave what has been woven alone. -/
theorem append (h : Weaves hidden s trace inserted vs u)
    (h' : Weaves (fun id => hidden id ∨ Fresh s trace u id) u trace' inserted' vs' t) :
    Weaves hidden s (trace ++ trace') (inserted ++ inserted') (vs ++ vs') t := by
  have happend := fresh_append h.secluded.between h'.secluded.between
  have hiff : ∀ id, ((hidden id ∨ Fresh s trace u id) ∨ Fresh u trace' t id) ↔
      (hidden id ∨ Fresh s (trace ++ trace') t id) := by
    intro id
    rw [happend id, or_assoc]
  constructor
  case secluded => exact h.secluded.append h'.secluded
  case woven =>
    refine List.forall_mem_append.mpr ⟨fun v hv => ?_, fun v hv => ?_⟩
    · exact (h.woven v hv).mono (fun id hid => (happend id).mpr (.inl hid))
        (fun _ hw => List.mem_append_left _ hw) fun id hid => h'.secluded.kept id (.inr hid)
    · exact (h'.woven v hv).mono (fun id hid => (happend id).mpr (.inr hid))
        (fun _ hw => List.mem_append_right _ hw) fun _ _ => rfl
  case apart =>
    refine List.forall_mem_append.mpr ⟨fun w hw => ?_, fun w hw => ?_⟩
    · exact (h'.secluded.known (h.apart w hw)).of_iff hiff
    · exact (h'.apart w hw).of_iff hiff

/-- A list of what has been woven takes fresh cells. -/
theorem build {items : List Value} {tail v : Value} (hs : s.Withholds hidden)
    (h : Weaves hidden s trace inserted vs u) (hitems : ∀ item ∈ items, item ∈ vs ∨ ¬ item.IsCell)
    (htail : tail ∈ vs ∨ ¬ tail.IsCell) (hnew : u.consAll items tail = (v, t)) :
    Weaves hidden s trace inserted [v] t := by
  have hut : Grown u t := grown_consAll hnew
  have hwoven : ∀ w, w ∈ vs ∨ ¬ w.IsCell → Woven (Fresh s trace u) inserted u w :=
    fun w hw => hw.elim (h.woven w) .atom
  have hlt : ∀ id, Fresh s trace u id → id.index < u.cells.size :=
    fun id hid => h.secluded.withholds.exist id (.inr hid)
  have hlist := Woven.consAll hlt (fun item hitem => hwoven item (hitems item hitem))
    (hwoven tail htail)
  rw [hnew] at hlist
  constructor
  case secluded => exact h.secluded.grow hs hut
  case woven =>
    refine List.forall_mem_singleton.mpr (hlist.mono (fun id hid => ?_) (fun _ hw => hw) ?_)
    · exact (fresh_grow h.secluded.between hut id).mpr hid
    · exact fun _ _ => rfl
  case apart =>
    refine fun w hw => ((h.apart w hw).grow hut).of_iff fun id => ?_
    rw [fresh_grow h.secluded.between hut, or_assoc]

end Weaves

/-- Whatever is hidden besides the fresh cells, a reading of a known form with discreet evaluations
weaves its value. -/
theorem Makes.weaves {context : Value} {level : Nat} {form v : Value} {trace : List Evaluation}
    (h : Makes level form s trace inserted v t) (hcalls : ∀ call ∈ trace, call.Discreet context) :
    ∀ hidden, s.Withholds hidden → context.Known hidden s → form.Known hidden s →
      Weaves hidden s trace inserted [v] t := by
  let Goal (form : Value) (s : Interp) (trace : List Evaluation) (inserted vs : List Value)
      (t : Interp) : Prop :=
    (∀ call ∈ trace, call.Discreet context) → ∀ hidden, s.Withholds hidden →
      context.Known hidden s → form.Known hidden s → Weaves hidden s trace inserted vs t
  refine @Makes.rec
    (fun _ form s trace inserted v t _ => Goal form s trace inserted [v] t)
    (fun _ id s trace inserted items tail t _ =>
      Goal (.cons id) s trace inserted (items ++ [tail]) t)
    (fun _ v s trace inserted items tail t _ => Goal v s trace inserted (items ++ [tail]) t)
    (fun _ item s trace inserted items t _ => Goal item s trace inserted items t)
    ?atom ?unquoted ?rebuilt ?list ?cell ?tailAtom ?tailUnquoted ?tailCells ?spliced ?form
    _ _ _ _ _ _ _ h hcalls
  case atom => exact fun hatom _ hidden hs _ _ => .atom hs hatom
  case unquoted =>
    intro form x v s t htag hcalls hidden hs hcontext hform
    have hx := hs.operand? hform (operand?_eq_some_iff.mpr htag)
    obtain ⟨hspared, hv⟩ := hcalls _ List.mem_cons_self hidden hs hcontext hx
    exact .of_spared hspared x (.ok v) (List.forall_mem_singleton.mpr hv)
  case rebuilt =>
    intro level inner tag form x v w s u t trace inserted _ htag _ hnew ih hcalls hidden hs
      hcontext hform
    have hx := hs.operand? hform (operand?_eq_some_iff.mpr htag)
    have hnil : ¬ Value.nil.IsCell := nofun
    have hitems : ∀ item ∈ [.symbol tag, v], item ∈ [v] ∨ ¬ item.IsCell :=
      List.forall_mem_cons.mpr ⟨.inr nofun, fun _ hitem => .inl hitem⟩
    exact (ih hcalls hidden hs hcontext hx).build hs hitems (.inr hnil) hnew
  case list =>
    intro level id tail v items inserted s u t trace _ _ hnew ih hcalls hidden hs hcontext hform
    exact (ih hcalls hidden hs hcontext hform).build hs
      (fun _ hitem => .inl (List.mem_append_left _ hitem))
      (.inl (List.mem_append_right _ List.mem_cons_self)) hnew
  case cell =>
    intro level id items rest inserted inserted' tail s u t trace trace' _ _ ihitem ihtail hcalls
      hidden hs hcontext hid
    obtain ⟨hcalls, hcalls'⟩ := List.forall_mem_append.mp hcalls
    have hitem := ihitem hcalls hidden hs hcontext (hs.car hid)
    -- for the rest of the list the cells of this element are hidden besides
    have hhidden := hitem.secluded.withholds
    have htail := ihtail hcalls' _ hhidden (hitem.secluded.known hcontext)
      (hhidden.cdr (hitem.secluded.known hid))
    rw [List.append_assoc]
    exact hitem.append htail
  case tailAtom => exact fun hatom _ hidden hs _ _ => .atom hs hatom
  case tailUnquoted => exact fun _ _ ih => ih
  case tailCells => exact fun _ _ ih => ih
  case spliced =>
    intro item x v items s t htag hproper hcalls hidden hs hcontext hitem
    have hx := hs.operand? hitem (operand?_eq_some_iff.mpr htag)
    obtain ⟨hspared, hv⟩ := hcalls _ List.mem_cons_self hidden hs hcontext hx
    obtain ⟨-, rfl⟩ := ProperList.iff_isProper.mp hproper
    exact .of_spared hspared x (.ok v) (hspared.withholds.elementsOf hv)
  case form => exact fun _ _ ih => ih

/-! ## Templates in which nothing is reached -/

mutual

/-- A finite form in which no unquote and no splice is reached at level zero. -/
inductive Inert (s : Interp) : Nat → Value → Prop
  | atom {level : Nat} {form : Value} (hatom : ¬ form.IsCell) : Inert s level form
  | shifted {level inner : Nat} {tag : SymbolId} {form x : Value} (hshift : Shifts tag level inner)
      (htag : Tagged s tag form x) (hoperand : Inert s inner x) : Inert s level form
  | list {level : Nat} {id : CellId} (hplain : Plain s (.cons id))
      (hcells : InertCells s level id) : Inert s level (.cons id)

inductive InertCells (s : Interp) : Nat → CellId → Prop
  | cell {level : Nat} {id : CellId} (hitem : Inert s level (s.car id))
      (htail : InertTail s level (s.cdr id)) : InertCells s level id

inductive InertTail (s : Interp) : Nat → Value → Prop
  | atom {level : Nat} {v : Value} (hatom : ¬ v.IsCell) : InertTail s level v
  | unquoted {level : Nat} {v x : Value} (htag : Tagged s .unquote v x)
      (hform : Inert s level v) : InertTail s level v
  | cells {level : Nat} {id : CellId} (hplain : ∀ x, ¬ Tagged s .unquote (.cons id) x)
      (hcells : InertCells s level id) : InertTail s level (.cons id)

end

/-- In `t`, the second value has the structure that the first one has in `s`, down to the same
atoms. -/
inductive SameShape (s : Interp) : Value → Interp → Value → Prop
  | atom {v : Value} {t : Interp} (hatom : ¬ v.IsCell) : SameShape s v t v
  | cell {x y : CellId} {t : Interp} (hy : y.index < t.cells.size)
      (hcar : SameShape s (s.car x) t (t.car y)) (hcdr : SameShape s (s.cdr x) t (t.cdr y)) :
      SameShape s (.cons x) t (.cons y)

theorem SameShape.grow {v w : Value} (h : SameShape s v u w) (hut : Grown u t) :
    SameShape s v t w := by
  induction h with
  | atom hatom => exact .atom hatom
  | @cell x y u hy _ _ ihcar ihcdr =>
    refine .cell (Nat.lt_of_lt_of_le hy hut.size_le) ?_ ?_
    · rw [hut.car hy]
      exact ihcar hut
    · rw [hut.cdr hy]
      exact ihcdr hut

/-- In every store that grows out of `t`, the list of these elements and this tail has the shape of
`v`. -/
def Lists (s : Interp) (v : Value) (t : Interp) (items : List Value) (tail : Value) : Prop :=
  ∀ u, Grown t u → SameShape s v (u.consAll items tail).2 (u.consAll items tail).1

theorem lists_nil {v tail : Value} (h : SameShape s v t tail) : Lists s v t [] tail :=
  fun _ hu => h.grow hu

theorem lists_cons {id : CellId} {item tail : Value} {items : List Value}
    (hcar : SameShape s (s.car id) t item) (hcdr : Lists s (s.cdr id) t items tail) :
    Lists s (.cons id) t (item :: items) tail := by
  intro u hu
  have hrest := hcdr u hu
  have hgrown : Grown u (u.consAll items tail).2 := grown_consReversed _ u tail
  rw [consAll_cons]
  generalize u.consAll items tail = r at hrest hgrown
  obtain ⟨rest, w⟩ := r
  have hnew : Grown w (w.allocCell item rest).2 := grown_allocCell w item rest
  refine .cell (w.size_allocCell item rest ▸ Nat.lt_succ_self _) ?_ ?_
  · rw [Interp.car_allocCell_new]
    exact hcar.grow ((hu.trans hgrown).trans hnew)
  · rw [Interp.cdr_allocCell_new]
    exact hrest.grow hnew

/-- In a grown store the parts of a form are read as before. -/
theorem operand?_grown (hs : s.Grounded) (hsu : Grown s u) {form : Value}
    (hform : form.Known (fun _ => False) s) (tag : SymbolId) :
    operand? u tag form = operand? s tag form := by
  cases form with
  | cons id =>
    have hid := (hform id rfl).1
    have hrest := hs.cdr hform
    unfold operand?
    dsimp only
    rw [hsu.car hid, hsu.cdr hid]
    cases hcdr : s.cdr id with
    | cons rest =>
      have hlt := (hrest rest hcdr).1
      dsimp only
      rw [hsu.car hlt, hsu.cdr hlt]
    | _ => rfl
  | _ => rfl

theorem tagged_grown (hs : s.Grounded) (hsu : Grown s u) {form x : Value} {tag : SymbolId}
    (hform : form.Known (fun _ => False) s) : Tagged u tag form x ↔ Tagged s tag form x := by
  rw [← operand?_eq_some_iff, operand?_grown hs hsu hform, operand?_eq_some_iff]

/-- At level zero an inert form is no splice. -/
theorem Inert.not_spliced {form : Value} (h : Inert s 0 form) (x : Value) :
    ¬ Tagged s .splice form x := by
  intro hsplice
  cases h with
  | atom hatom => exact hatom hsplice.isCell
  | shifted hshift htag =>
    cases hshift
    have hnone : operand? s .splice form = none := htag.operand?_ne (by decide)
    exact operand?_eq_none_iff.mp hnone x hsplice
  | list hplain => exact (hplain x).2.1 hsplice

/-- In a grown store an inert form is made into a copy, and nothing is evaluated. -/
theorem Inert.makes {level : Nat} {form : Value} (h : Inert s level form) (hs : s.Grounded) :
    ∀ u, Grown s u → form.Known (fun _ => False) s →
      ∃ v t, Makes level form u [] [] v t ∧ Grown u t ∧ SameShape s form t v := by
  refine @Inert.rec s
    (fun level form _ => ∀ u, Grown s u → form.Known (fun _ => False) s →
      ∃ v t, Makes level form u [] [] v t ∧ Grown u t ∧ SameShape s form t v)
    (fun level id _ => ∀ u, Grown s u → (Value.cons id).Known (fun _ => False) s →
      ∃ items tail t, MakesCells level id u [] [] items tail t ∧ Grown u t ∧
        Lists s (.cons id) t items tail)
    (fun level v _ => ∀ u, Grown s u → v.Known (fun _ => False) s →
      ∃ items tail t, MakesTail level v u [] [] items tail t ∧ Grown u t ∧ Lists s v t items tail)
    ?atom ?shifted ?list ?cell ?tailAtom ?tailUnquoted ?tailCells level form h
  case atom => exact fun hatom u _ _ => ⟨_, u, .atom hatom, .refl u, .atom hatom⟩
  case shifted =>
    intro level inner tag form x hshift htag _ ih u hsu hform
    have hx := hs.operand? hform (operand?_eq_some_iff.mpr htag)
    obtain ⟨v, t, hmakes, hut, hshape⟩ := ih u hsu hx
    have hlist : Grown t (t.listOf [.symbol tag, v]).2 := grown_consReversed _ t .nil
    refine ⟨_, _, .rebuilt hshift ((tagged_grown hs hsu hform).mpr htag) hmakes rfl,
      hut.trans hlist, ?_⟩
    obtain ⟨id, rest, rfl, hcar, hcdr, rfl, hnil⟩ := tagged_iff.mp htag
    have hlists : Lists s (.cons id) t [.symbol tag, v] .nil := by
      refine lists_cons ?_ ?_
      · rw [hcar]
        exact .atom nofun
      · rw [hcdr]
        refine lists_cons hshape (lists_nil ?_)
        rw [hnil]
        exact .atom nofun
    exact hlists t (.refl t)
  case list =>
    intro level id hplain _ ih u hsu hid
    obtain ⟨items, tail, t, hcells, hut, hlists⟩ := ih u hsu hid
    have hplain' : Plain u (.cons id) := by
      intro x
      rw [tagged_grown hs hsu hid, tagged_grown hs hsu hid, tagged_grown hs hsu hid]
      exact hplain x
    have hlist : Grown t (t.consAll items tail).2 := grown_consReversed _ t tail
    exact ⟨_, _, .list hplain' hcells rfl, hut.trans hlist, hlists t (.refl t)⟩
  case cell =>
    intro level id hitem _ ihitem ihtail u hsu hid
    have hlt := (hid id rfl).1
    obtain ⟨v, t, hmakes, hut, hshape⟩ := ihitem u hsu (hs.car hid)
    have hst := hsu.trans hut
    obtain ⟨items, tail, w, htail, htw, hlists⟩ := ihtail t hst (hs.cdr hid)
    rw [← hsu.car hlt] at hmakes
    rw [← hst.cdr hlt] at htail
    have hplain : 0 < level ∨ ∀ x, ¬ Tagged u .splice (u.car id) x := by
      cases level with
      | zero =>
        refine .inr fun x => ?_
        rw [hsu.car hlt, tagged_grown hs hsu (hs.car hid)]
        exact hitem.not_spliced x
      | succ level => exact .inl (Nat.succ_pos level)
    exact ⟨_, _, w, .cell (.form hplain hmakes) htail, hut.trans htw,
      lists_cons (hshape.grow htw) hlists⟩
  case tailAtom =>
    exact fun hatom u _ _ => ⟨_, _, u, .atom hatom, .refl u, lists_nil (.atom hatom)⟩
  case tailUnquoted =>
    intro level v x htag _ ih u hsu hv
    obtain ⟨w, t, hmakes, hut, hshape⟩ := ih u hsu hv
    exact ⟨_, _, t, .unquoted ((tagged_grown hs hsu hv).mpr htag) hmakes, hut, lists_nil hshape⟩
  case tailCells =>
    intro level id hplain _ ih u hsu hid
    obtain ⟨items, tail, t, hcells, hut, hlists⟩ := ih u hsu hid
    refine ⟨items, tail, t, .cells (fun x => ?_) hcells, hut, hlists⟩
    rw [tagged_grown hs hsu hid]
    exact hplain x

/-! ## Main statement -/

/-- The cells of a value that an expansion made. Up to the inserted values they are fresh, they are
newer than all cells that there were, nothing but fresh cells refers to them, and no inserted value
is one of them. -/
structure Allocated (s : Interp) (trace : List Evaluation) (inserted : List Value) (v : Value)
    (t : Interp) : Prop where
  own : ∀ id, Reaches t inserted v id → Fresh s trace t id
  newer : ∀ id, Fresh s trace t id → s.cells.size ≤ id.index ∧ id.index < t.cells.size
  withheld : t.Withholds (Fresh s trace t)
  apart : ∀ w ∈ inserted, w.Known (Fresh s trace t) t

theorem Makes.allocated {context : Value} {level : Nat} {form v : Value} {trace : List Evaluation}
    (h : Makes level form s trace inserted v t) (hcalls : ∀ call ∈ trace, call.Discreet context)
    (hs : s.Grounded) (hcontext : context.Known (fun _ => False) s)
    (hform : form.Known (fun _ => False) s) : Allocated s trace inserted v t := by
  have hweaves := h.weaves hcalls _ hs hcontext hform
  have hiff : ∀ id, (False ∨ Fresh s trace t id) ↔ Fresh s trace t id :=
    fun _ => iff_of_eq (false_or _)
  have hwithheld := hweaves.secluded.withholds.of_iff hiff
  constructor
  case own => exact fun id => (hweaves.woven v List.mem_cons_self).own_of_reaches
  case newer => exact fun id hid => ⟨hweaves.secluded.newer id hid, hwithheld.exist id hid⟩
  case withheld => exact hwithheld
  case apart => exact fun w hw => (hweaves.apart w hw).of_iff hiff

/-- What is reached from a value in a grounded state exists. -/
theorem Reaches.index_lt {stops : List Value} {v : Value} {id : CellId} (h : Reaches s stops v id)
    (hs : s.Grounded) (hv : v.Known (fun _ => False) s) : id.index < s.cells.size := by
  induction h with
  | here _ => exact (hv _ rfl).1
  | car _ _ ih => exact ih (hs.car hv)
  | cdr _ _ ih => exact ih (hs.cdr hv)

/-- With discreet host programs the evaluations of a known form are discreet. -/
theorem discreet_of_performs {hosts : HostTable} (hhosts : hosts.Discreet) {n : Nat}
    {context : Value} {trace : List Evaluation}
    (h : Performs (Evaluator.perform hosts n context) trace) :
    ∀ call ∈ trace, call.Discreet context := by
  intro call hcall hidden hbefore hcontext hform
  have hrun := Evaluator.perform_discreet hhosts n hidden context (.evaluate call.form) call.before
    ⟨hbefore, hcontext⟩ hform
  have hends : Evaluator.perform hosts n context (.evaluate call.form) call.before =
      EvalM.resume call.ending call.after := h call hcall
  rw [hends] at hrun
  exact hrun.of_ends

/-- A template is filled as it is expanded at level zero. -/
theorem fill_iff_expand {ev : Evaluators} {context form : Value} {ending : Ending Value} :
    (∃ n, (fill ev context n form).Ends s ending t) ↔
      ∃ n, (Template.expand ev context n 0 form).Ends s ending t := by
  constructor
  · rintro ⟨n, h⟩
    obtain ⟨trace, hperforms, hreads⟩ := fill_follows h
    obtain ⟨N, hN⟩ := reads_expands hreads hperforms
    exact ⟨N, hN N (Nat.le_refl N)⟩
  · rintro ⟨n, h⟩
    obtain ⟨N, hN⟩ := Means.filled (expand_follows ev context n 0 form s ending t h)
    exact ⟨N, hN N (Nat.le_refl N)⟩

/-- A value is a copy of a form, made without evaluating anything, and shares no cell with it. -/
structure Copied (level : Nat) (form : Value) (s : Interp) (v : Value) (t : Interp) : Prop where
  makes : Makes level form s [] [] v t
  grown : Grown s t
  shape : SameShape s form t v
  allocated : Allocated s [] [] v t
  disjoint : ∀ id, Reaches t [] v id → ¬ Reaches s [] form id

theorem Inert.copied {level : Nat} {form : Value} (h : Inert s level form) (hs : s.Grounded)
    (hform : form.Known (fun _ => False) s) : ∃ v t, Copied level form s v t := by
  obtain ⟨v, t, hmakes, hst, hshape⟩ := h.makes hs s (.refl s) hform
  have hcalls : ∀ call ∈ [], Evaluation.Discreet .nil call :=
    fun _ hcall => absurd hcall List.not_mem_nil
  have hallocated := hmakes.allocated hcalls hs nofun hform
  refine ⟨v, t, hmakes, hst, hshape, hallocated, fun id hnew hold => ?_⟩
  exact Nat.not_lt_of_le (hallocated.own id hnew).1 (hold.index_lt hs hform)

/-- An expansion changes nothing itself that was there, on every ending and with any evaluator.
If it succeeds, then up to the inserted values the cells of its value are fresh, and nothing else
refers to them. A template in which nothing is reached at level zero is copied whatever the
evaluator would do. -/
theorem expansion_allocates {hosts : HostTable} (hhosts : hosts.Discreet) {context form : Value}
    {s : Interp} (hs : s.Grounded) (hcontext : context.Known (fun _ => False) s)
    (hform : form.Known (fun _ => False) s) (level : Nat) :
    (∀ ev n ending t, (Template.expand ev context n level form).Ends s ending t →
      ∃ trace, Performs (ev context) trace ∧ Reads level form s trace ending t ∧
        Between s trace t) ∧
    (∀ depth n v t,
      (Template.expand (Evaluator.perform hosts depth) context n level form).Ends s (.ok v) t →
      ∃ trace inserted, Performs (Evaluator.perform hosts depth context) trace ∧
        Makes level form s trace inserted v t ∧ Allocated s trace inserted v t) ∧
    (Inert s level form → ∃ v t, Copied level form s v t ∧
      ∀ ev, ∃ N, ∀ n, N ≤ n → (Template.expand ev context n level form).Ends s (.ok v) t) ∧
    ∀ ev ending t, (∃ n, (fill ev context n form).Ends s ending t) ↔
      ∃ n, (Template.expand ev context n 0 form).Ends s ending t := by
  refine ⟨?_, ?_, ?_, fun _ _ _ => fill_iff_expand⟩
  · intro ev n ending t h
    obtain ⟨trace, hperforms, hreads⟩ := expand_follows ev context n level form s ending t h
    exact ⟨trace, hperforms, hreads, hreads.between⟩
  · intro depth n v t h
    obtain ⟨trace, hperforms, hreads⟩ := expand_follows _ context n level form s (.ok v) t h
    obtain ⟨inserted, hmakes⟩ := hreads.makes
    have hcalls := discreet_of_performs hhosts hperforms
    exact ⟨trace, inserted, hperforms, hmakes, hmakes.allocated hcalls hs hcontext hform⟩
  · intro hinert
    obtain ⟨v, t, hcopied⟩ := hinert.copied hs hform
    exact ⟨v, t, hcopied, fun ev => reads_expands hcopied.makes.reads performs_nil⟩

/-- The template is ``(1 ,2 ,@(LIST 7) `,3 . 4)``. In its fourth element nothing is reached at level
zero. -/
theorem nested_template_allocated :
    let s := { Interp.initial 100 with
      cells := #[⟨.ofNat 1, .cons ⟨1⟩⟩, ⟨.cons ⟨4⟩, .cons ⟨2⟩⟩, ⟨.cons ⟨6⟩, .cons ⟨3⟩⟩,
        ⟨.cons ⟨10⟩, .ofNat 4⟩, ⟨.symbol .unquote, .cons ⟨5⟩⟩, ⟨.ofNat 2, .nil⟩,
        ⟨.symbol .splice, .cons ⟨7⟩⟩, ⟨.cons ⟨8⟩, .nil⟩, ⟨.symbol ⟨27⟩, .cons ⟨9⟩⟩,
        ⟨.ofNat 7, .nil⟩, ⟨.symbol .backquote, .cons ⟨11⟩⟩, ⟨.cons ⟨12⟩, .nil⟩,
        ⟨.symbol .unquote, .cons ⟨13⟩⟩, ⟨.ofNat 3, .nil⟩] }
    let ev : Evaluators := Evaluator.perform HostProgram.demonstration 5
    let run := Template.expand ev .nil 8 0 (.cons ⟨0⟩)
    HostProgram.demonstration.Discreet ∧ s.Grounded ∧ run.answer? s = some (.cons ⟨22⟩) ∧
      (∃ trace inserted, Performs (ev .nil) trace ∧
        Makes 0 (.cons ⟨0⟩) s trace inserted (.cons ⟨22⟩) (run.final s) ∧
        Allocated s trace inserted (.cons ⟨22⟩) (run.final s)) ∧
      ∃ v t, Copied 0 (.cons ⟨10⟩) s v t ∧
        ∀ ev, ∃ N, ∀ n, N ≤ n → (Template.expand ev .nil n 0 (.cons ⟨10⟩)).Ends s (.ok v) t := by
  intro s ev run
  have hhosts : HostTable.Discreet HostProgram.demonstration := HostProgram.demonstration_discreet
  have hs : s.Grounded := by
    refine (Interp.live_initial 100).grounded.withCells (Nat.zero_le _) ?_
    simp [Value.Below, Value.ofNat]
  have hcontext : Value.Known (fun _ => False) s .nil := nofun
  have hform : Value.Known (fun _ => False) s (.cons ⟨0⟩) := by
    rintro id hid
    cases hid
    exact ⟨by decide, not_false⟩
  have hnested : Value.Known (fun _ => False) s (.cons ⟨10⟩) := by
    rintro id hid
    cases hid
    exact ⟨by decide, not_false⟩
  have hanswer : run.answer? s = some (.cons ⟨22⟩) := by decide +kernel
  have hinert : Inert s 0 (.cons ⟨10⟩) := by
    refine .shifted (.backquote 0) (tagged_iff.mpr ⟨⟨10⟩, ⟨11⟩, rfl, rfl, rfl, rfl, rfl⟩) ?_
    refine .shifted (.unquote 0) (tagged_iff.mpr ⟨⟨12⟩, ⟨13⟩, rfl, rfl, rfl, rfl, rfl⟩) ?_
    exact .atom nofun
  refine ⟨hhosts, hs, hanswer, ?_, ?_⟩
  · obtain ⟨-, hfresh, -⟩ := expansion_allocates hhosts hs hcontext hform 0
    exact hfresh 5 8 _ _ (EvalM.ends_of_answer? hanswer)
  · obtain ⟨-, -, hcopied, -⟩ := expansion_allocates hhosts hs hcontext hnested 0
    exact hcopied hinert

end SmallLisp.Template
