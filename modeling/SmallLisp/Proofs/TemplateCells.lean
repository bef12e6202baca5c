import SmallLisp.Proofs.Copy
import SmallLisp.Proofs.DiscreetRuns
import SmallLisp.Proofs.TemplateFilling

/-!
# The cells of an expansion

Between the evaluations that it rests on, an expansion does nothing but allocate cells. The cells
that it allocates itself, `Fresh`, are referred to by nothing but each other for as long as the
evaluations are discreet, and they are what an expansion is made of up to the values that were
inserted. `Makes` says which these are: it is what a successful reading of a template puts together.

A template in which nothing is reached at level zero is copied, whatever the evaluator would do.
-/

namespace SmallLisp.Template

variable {s t u : Interp}

/-! ## Between the evaluations -/

/-- From `s` to `t` by these evaluations and by gaining cells before, between and after them. -/
inductive Between : Interp → List Evaluation → Interp → Prop
  | grown {s t : Interp} (h : Grown s t) : Between s [] t
  | call {s t : Interp} {call : Evaluation} {trace : List Evaluation} (h : Grown s call.before)
      (hrest : Between call.after trace t) : Between s (call :: trace) t

namespace Between

theorem refl (s : Interp) : Between s [] s := .grown (.refl s)

theorem single (s t : Interp) (x : Value) (ending : Ending Value) :
    Between s [⟨x, s, ending, t⟩] t :=
  .call (.refl s) (.refl t)

theorem of_grown {trace : List Evaluation} (h : Grown s u) (h' : Between u trace t) :
    Between s trace t := by
  cases h' with
  | grown hut => exact .grown (h.trans hut)
  | call hcall hrest => exact .call (h.trans hcall) hrest

theorem append {trace trace' : List Evaluation} (h : Between s trace u)
    (h' : Between u trace' t) : Between s (trace ++ trace') t := by
  induction h with
  | grown hsu => exact .of_grown hsu h'
  | call hcall _ ih => exact .call hcall (ih h')

theorem grow {trace : List Evaluation} (h : Between s trace u) (hut : Grown u t) :
    Between s trace t :=
  List.append_nil trace ▸ h.append (.grown hut)

end Between

theorem grown_consAll {items : List Value} {tail v : Value} (h : u.consAll items tail = (v, t)) :
    Grown u t := by
  have hgrown : Grown u (u.consAll items tail).2 := grown_consReversed items.reverse u tail
  rw [h] at hgrown
  exact hgrown

/-- However a reading ends, it changes nothing itself that was there. -/
theorem Reads.between {level : Nat} {form : Value} {trace : List Evaluation}
    {ending : Ending Value} (h : Reads level form s trace ending t) : Between s trace t := by
  refine @Reads.rec
    (fun _ _ s trace _ t _ => Between s trace t) (fun _ _ s trace _ t _ => Between s trace t)
    (fun _ _ s trace _ t _ => Between s trace t) (fun _ _ s trace _ t _ => Between s trace t)
    ?atom ?unquoted ?misplaced ?rebuilt ?operandStops ?list ?listStops ?cell ?itemStops ?tailStops
    ?tailAtom ?tailUnquoted ?tailCells ?spliced ?improper ?spliceStops ?form _ _ _ _ _ _ h
  case atom => exact fun _ => .refl _
  case unquoted => exact fun _ => .single ..
  case misplaced => exact fun _ => .refl _
  case rebuilt => exact fun _ _ _ hnew ih => ih.grow (grown_consAll hnew)
  case operandStops => exact fun _ _ _ ih => ih
  case list => exact fun _ _ hnew ih => ih.grow (grown_consAll hnew)
  case listStops => exact fun _ _ ih => ih
  case cell => exact fun _ _ ihitem ihtail => ihitem.append ihtail
  case itemStops => exact fun _ ih => ih
  case tailStops => exact fun _ _ ihitem ihtail => ihitem.append ihtail
  case tailAtom => exact fun _ => .refl _
  case tailUnquoted => exact fun _ _ ih => ih
  case tailCells => exact fun _ _ ih => ih
  case spliced => exact fun _ _ => .single ..
  case improper => exact fun _ _ => .single ..
  case spliceStops => exact fun _ => .single ..
  case form => exact fun _ _ ih => ih

/-- The cells that came to be from `s` to `t`, outside of the evaluations. -/
def Fresh : Interp → List Evaluation → Interp → CellId → Prop
  | s, [], t, id => s.cells.size ≤ id.index ∧ id.index < t.cells.size
  | s, call :: trace, t, id =>
    s.cells.size ≤ id.index ∧ id.index < call.before.cells.size ∨ Fresh call.after trace t id

theorem not_fresh_refl {id : CellId} : ¬ Fresh s [] s id :=
  fun ⟨hle, hlt⟩ => Nat.lt_irrefl _ (Nat.lt_of_le_of_lt hle hlt)

theorem not_fresh_single {x : Value} {ending : Ending Value} {id : CellId} :
    ¬ Fresh s [⟨x, s, ending, t⟩] t id := by
  rintro (⟨hle, hlt⟩ | hrest)
  · exact Nat.lt_irrefl _ (Nat.lt_of_le_of_lt hle hlt)
  · exact not_fresh_refl hrest

theorem fresh_append {trace trace' : List Evaluation} (h : Between s trace u)
    (h' : Between u trace' t) (id : CellId) :
    Fresh s (trace ++ trace') t id ↔ Fresh s trace u id ∨ Fresh u trace' t id := by
  induction h with
  | @grown s u hsu =>
    have hsize := hsu.size_le
    cases h' with
    | grown hut =>
      have hsize' := hut.size_le
      simp only [List.nil_append, Fresh]
      omega
    | @call _ _ call trace hcall hrest =>
      have hsize' := hcall.size_le
      simp only [List.nil_append, Fresh]
      rw [← or_assoc]
      refine or_congr_left ?_
      omega
  | call _ _ ih =>
    simp only [List.cons_append, Fresh]
    rw [ih h', or_assoc]

theorem fresh_grow {trace : List Evaluation} (h : Between s trace u) (hut : Grown u t)
    (id : CellId) :
    Fresh s trace t id ↔
      Fresh s trace u id ∨ u.cells.size ≤ id.index ∧ id.index < t.cells.size := by
  have happend := fresh_append h (.grown hut) id
  rw [List.append_nil] at happend
  exact happend

/-! ## What a successful reading puts together -/

mutual

/-- From `s` to `t`, by the evaluations `trace`, a form is made into a value. The values `inserted`
were put into it as they were. -/
inductive Makes :
    Nat → Value → Interp → List Evaluation → List Value → Value → Interp → Prop
  | atom {level : Nat} {form : Value} {s : Interp} (hatom : ¬ form.IsCell) :
      Makes level form s [] [] form s
  | unquoted {form x v : Value} {s t : Interp} (htag : Tagged s .unquote form x) :
      Makes 0 form s [⟨x, s, .ok v, t⟩] [v] v t
  | rebuilt {level inner : Nat} {tag : SymbolId} {form x v w : Value} {s u t : Interp}
      {trace : List Evaluation} {inserted : List Value} (hshift : Shifts tag level inner)
      (htag : Tagged s tag form x) (hoperand : Makes inner x s trace inserted v u)
      (hnew : u.listOf [.symbol tag, v] = (w, t)) : Makes level form s trace inserted w t
  | list {level : Nat} {id : CellId} {tail v : Value} {items inserted : List Value}
      {s u t : Interp} {trace : List Evaluation} (hplain : Plain s (.cons id))
      (hcells : MakesCells level id s trace inserted items tail u)
      (hnew : u.consAll items tail = (v, t)) : Makes level (.cons id) s trace inserted v t

/-- From a cell on, a list is made into elements and a tail. -/
inductive MakesCells :
    Nat → CellId → Interp → List Evaluation → List Value → List Value → Value → Interp → Prop
  | cell {level : Nat} {id : CellId} {items rest inserted inserted' : List Value} {tail : Value}
      {s u t : Interp} {trace trace' : List Evaluation}
      (hitem : MakesItems level (s.car id) s trace inserted items u)
      (htail : MakesTail level (u.cdr id) u trace' inserted' rest tail t) :
      MakesCells level id s (trace ++ trace') (inserted ++ inserted') (items ++ rest) tail t

/-- What follows a cell is made into further elements and a tail. -/
inductive MakesTail :
    Nat → Value → Interp → List Evaluation → List Value → List Value → Value → Interp → Prop
  | atom {level : Nat} {v : Value} {s : Interp} (hatom : ¬ v.IsCell) :
      MakesTail level v s [] [] [] v s
  | unquoted {level : Nat} {v x tail : Value} {s t : Interp} {trace : List Evaluation}
      {inserted : List Value} (htag : Tagged s .unquote v x)
      (hform : Makes level v s trace inserted tail t) : MakesTail level v s trace inserted [] tail t
  | cells {level : Nat} {id : CellId} {tail : Value} {items inserted : List Value} {s t : Interp}
      {trace : List Evaluation} (hplain : ∀ x, ¬ Tagged s .unquote (.cons id) x)
      (hcells : MakesCells level id s trace inserted items tail t) :
      MakesTail level (.cons id) s trace inserted items tail t

/-- An element of the template is made into elements. Of a spliced list only the elements are
inserted. -/
inductive MakesItems :
    Nat → Value → Interp → List Evaluation → List Value → List Value → Interp → Prop
  | spliced {item x v : Value} {items : List Value} {s t : Interp}
      (htag : Tagged s .splice item x) (hproper : ProperList t v items) :
      MakesItems 0 item s [⟨x, s, .ok v, t⟩] items items t
  | form {level : Nat} {item v : Value} {s t : Interp} {trace : List Evaluation}
      {inserted : List Value} (hplain : 0 < level ∨ ∀ x, ¬ Tagged s .splice item x)
      (hitem : Makes level item s trace inserted v t) :
      MakesItems level item s trace inserted [v] t

end

/-- A reading that succeeds makes its value. -/
theorem Reads.makes {level : Nat} {form v : Value} {trace : List Evaluation}
    (h : Reads level form s trace (.ok v) t) :
    ∃ inserted, Makes level form s trace inserted v t := by
  suffices hall : ∀ w, (.ok v : Ending Value) = .ok w →
      ∃ inserted, Makes level form s trace inserted w t from hall v rfl
  refine @Reads.rec
    (fun level form s trace ending t _ =>
      ∀ v, ending = .ok v → ∃ inserted, Makes level form s trace inserted v t)
    (fun level id s trace cells t _ => ∀ items tail, cells = .ok (items, tail) →
      ∃ inserted, MakesCells level id s trace inserted items tail t)
    (fun level v s trace tail t _ => ∀ items atom, tail = .ok (items, atom) →
      ∃ inserted, MakesTail level v s trace inserted items atom t)
    (fun level item s trace contribution t _ => ∀ items, contribution = .ok items →
      ∃ inserted, MakesItems level item s trace inserted items t)
    ?atom ?unquoted ?misplaced ?rebuilt ?operandStops ?list ?listStops ?cell ?itemStops ?tailStops
    ?tailAtom ?tailUnquoted ?tailCells ?spliced ?improper ?spliceStops ?form _ _ _ _ _ _ h
  case atom =>
    intro level form s hatom v hv
    cases hv
    exact ⟨_, .atom hatom⟩
  case unquoted =>
    intro form x s t ending htag v hv
    cases hv
    exact ⟨_, .unquoted htag⟩
  case misplaced => exact fun _ _ hv => nomatch hv
  case rebuilt =>
    intro level inner tag form x v w s u t trace hshift htag _ hnew ih v' hv
    cases hv
    obtain ⟨inserted, hoperand⟩ := ih v rfl
    exact ⟨inserted, .rebuilt hshift htag hoperand hnew⟩
  case operandStops => exact fun _ _ _ _ _ hv => nomatch hv
  case list =>
    intro level id tail v items s u t trace hplain _ hnew ih v' hv
    cases hv
    obtain ⟨inserted, hcells⟩ := ih items tail rfl
    exact ⟨inserted, .list hplain hcells hnew⟩
  case listStops => exact fun _ _ _ _ hv => nomatch hv
  case cell =>
    intro level id items rest tail s u t trace trace' _ _ ihitem ihtail items' tail' hv
    cases hv
    obtain ⟨inserted, hitem⟩ := ihitem items rfl
    obtain ⟨inserted', htail⟩ := ihtail rest tail rfl
    exact ⟨_, .cell hitem htail⟩
  case itemStops => exact fun _ _ _ _ hv => nomatch hv
  case tailStops => exact fun _ _ _ _ _ _ hv => nomatch hv
  case tailAtom =>
    intro level v s hatom items atom hv
    cases hv
    exact ⟨_, .atom hatom⟩
  case tailUnquoted =>
    intro level v x s t ending trace htag _ ih items atom hv
    obtain ⟨tail, rfl, heq⟩ := ok_of_map hv
    cases heq
    obtain ⟨inserted, hform⟩ := ih _ rfl
    exact ⟨inserted, .unquoted htag hform⟩
  case tailCells =>
    intro level id s t ending trace hplain _ ih items atom hv
    obtain ⟨inserted, hcells⟩ := ih items atom hv
    exact ⟨inserted, .cells hplain hcells⟩
  case spliced =>
    intro item x v items s t htag hproper items' hv
    cases hv
    exact ⟨_, .spliced htag hproper⟩
  case improper => exact fun _ _ _ hv => nomatch hv
  case spliceStops => exact fun _ _ hv => nomatch hv
  case form =>
    intro level item s t ending trace hplain _ ih items hv
    obtain ⟨v, rfl, heq⟩ := ok_of_map hv
    cases heq
    obtain ⟨inserted, hitem⟩ := ih _ rfl
    exact ⟨inserted, .form hplain hitem⟩

/-- What is made is read. -/
theorem Makes.reads {level : Nat} {form v : Value} {trace : List Evaluation}
    {inserted : List Value} (h : Makes level form s trace inserted v t) :
    Reads level form s trace (.ok v) t := by
  refine @Makes.rec
    (fun level form s trace _ v t _ => Reads level form s trace (.ok v) t)
    (fun level id s trace _ items tail t _ => ReadsCells level id s trace (.ok (items, tail)) t)
    (fun level v s trace _ items tail t _ => ReadsTail level v s trace (.ok (items, tail)) t)
    (fun level item s trace _ items t _ => Contributes level item s trace (.ok items) t)
    ?atom ?unquoted ?rebuilt ?list ?cell ?tailAtom ?tailUnquoted ?tailCells ?spliced ?form
    _ _ _ _ _ _ _ h
  case atom => exact fun hatom => .atom hatom
  case unquoted => exact fun htag => .unquoted htag
  case rebuilt => exact fun hshift htag _ hnew ih => .rebuilt hshift htag ih hnew
  case list => exact fun hplain _ hnew ih => .list hplain ih hnew
  case cell => exact fun _ _ ihitem ihtail => .cell ihitem ihtail
  case tailAtom => exact fun hatom => .atom hatom
  case tailUnquoted => exact fun htag _ ih => .unquoted htag ih
  case tailCells => exact fun hplain _ ih => .cells hplain ih
  case spliced => exact fun htag hproper => .spliced htag hproper
  case form => exact fun hplain _ ih => .form hplain ih

end SmallLisp.Template
