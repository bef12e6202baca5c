import SmallLisp.Proofs.Ending
import SmallLisp.Proofs.TemplateMeaning

/-!
# Filling a template

The loop of `Template.expand` collects elements in a builder and looks for an unquote at every tail.
Whatever the evaluator, it ends as the template means and in no other way; both directions go
through the same equations for its tests. The fuel decides only whether it ends at all: for every
derivation of a meaning there is enough of it.
-/

namespace SmallLisp.Template

variable {s t : Interp}

/-! ## The tests of the expansion -/

variable {ev : Evaluators} {context : Value} {expand : Nat → Value → EvalM Value} {level n : Nat}

theorem step_unquoted {form x : Value} (htag : Tagged s .unquote form x) :
    step ev context n expand level form s =
      (if level = 0 then (ev context).form x else retag .unquote (expand (level - 1) x)) s := by
  obtain ⟨id, rfl⟩ := htag.isCell
  unfold step
  dsimp only
  rw [EvalM.read_bind_apply, operand?_eq_some_iff.mpr htag]

theorem step_spliced {form x : Value} (htag : Tagged s .splice form x) :
    step ev context n expand level form s =
      (if level = 0 then misplacedSplice form else retag .splice (expand (level - 1) x)) s := by
  obtain ⟨id, rfl⟩ := htag.isCell
  unfold step
  dsimp only
  rw [EvalM.read_bind_apply, htag.operand?_ne (by decide)]
  dsimp only
  rw [EvalM.read_bind_apply, operand?_eq_some_iff.mpr htag]

theorem step_backquoted {form x : Value} (htag : Tagged s .backquote form x) :
    step ev context n expand level form s = retag .backquote (expand (level + 1) x) s := by
  obtain ⟨id, rfl⟩ := htag.isCell
  unfold step
  dsimp only
  rw [EvalM.read_bind_apply, htag.operand?_ne (by decide)]
  dsimp only
  rw [EvalM.read_bind_apply, htag.operand?_ne (by decide)]
  dsimp only
  rw [EvalM.read_bind_apply, operand?_eq_some_iff.mpr htag]

/-- Above level zero, and for a backquote at every level, the tag stays. -/
theorem step_shifted {tag : SymbolId} {form x : Value} {inner : Nat}
    (hshift : Shifts tag level inner) (htag : Tagged s tag form x) :
    step ev context n expand level form s = retag tag (expand inner x) s := by
  cases hshift with
  | unquote => exact step_unquoted htag
  | splice => exact step_spliced htag
  | backquote => exact step_backquoted htag

theorem step_plain {id : CellId} (hplain : Plain s (.cons id)) :
    step ev context n expand level (.cons id) s =
      elements ev context expand level n false ListBuilder.empty (.cons id) s := by
  have hunquote := operand?_eq_none_iff.mpr fun x => (hplain x).1
  have hsplice := operand?_eq_none_iff.mpr fun x => (hplain x).2.1
  have hbackquote := operand?_eq_none_iff.mpr fun x => (hplain x).2.2
  unfold step
  dsimp only
  rw [EvalM.read_bind_apply, hunquote]
  dsimp only
  rw [EvalM.read_bind_apply, hsplice]
  dsimp only
  rw [EvalM.read_bind_apply, hbackquote]
  rfl

theorem step_atom {form : Value} (hatom : ¬ form.IsCell) :
    step ev context n expand level form s = .ok form s := by
  cases form with
  | cons id => exact absurd (Value.isCell_cons id) hatom
  | _ => rfl

/-- A cell that is taken for an element: its element first. -/
theorem elements_cell {isTail : Bool} {b : ListBuilder} {id : CellId}
    (hplain : (isTail && (operand? s .unquote (.cons id)).isSome) = false) :
    elements ev context expand level (n + 1) isTail b (.cons id) s =
      (element ev context expand level b (s.car id) >>= fun b' =>
        EvalM.read (fun s => s.cdr id) >>= elements ev context expand level n true b') s := by
  unfold elements
  rw [EvalM.read_bind_apply, hplain, if_neg Bool.false_ne_true]
  rfl

theorem element_plain {b : ListBuilder} {item : Value} (hplain : ∀ x, ¬ Tagged s .splice item x) :
    element ev context expand level b item s =
      (expand level item >>= fun v => pure (b.push v)) s := by
  unfold element
  rw [EvalM.read_bind_apply, operand?_eq_none_iff.mpr hplain]
  rfl

theorem element_rebuilt {b : ListBuilder} {item x : Value} (htag : Tagged s .splice item x) :
    element ev context expand (level + 1) b item s =
      (retag .splice (expand level x) >>= fun v => pure (b.push v)) s := by
  unfold element
  rw [EvalM.read_bind_apply, operand?_eq_some_iff.mpr htag]
  rfl

theorem element_spliced {b : ListBuilder} {item x : Value} (htag : Tagged s .splice item x) :
    element ev context expand 0 b item s = ((ev context).form x >>= splice b) s := by
  unfold element
  rw [EvalM.read_bind_apply, operand?_eq_some_iff.mpr htag]
  rfl

theorem elements_unquoted {b : ListBuilder} {v x : Value} (htag : Tagged s .unquote v x) :
    elements ev context expand level (n + 1) true b v s = (expand level v >>= EvalM.build b) s := by
  unfold elements
  rw [EvalM.read_bind_apply, operand?_eq_some_iff.mpr htag]
  rfl

theorem elements_atom {b : ListBuilder} {v : Value} (hatom : ¬ v.IsCell) :
    elements ev context expand level (n + 1) true b v s = EvalM.build b v s := by
  cases v with
  | cons id => exact absurd (Value.isCell_cons id) hatom
  | _ => rfl

/-! ## Collected elements -/

/-- A builder with further elements. -/
def extend (b : ListBuilder) (items : List Value) : ListBuilder := ⟨items.reverse ++ b.reversed⟩

theorem append_eq_extend (b : ListBuilder) (s : Interp) (v : Value) :
    b.append s v = extend b (s.elementsOf v) := by
  unfold extend ListBuilder.append
  rw [List.reverseAux_eq]

/-- Go on to the list when the rest of its elements and its tail are known. -/
def assemble (b : ListBuilder) : Ending (List Value × Value) → EvalM Value
  | .ok (items, tail) => EvalM.build (extend b items) tail
  | .error stop => throw stop.flow

theorem assemble_extend (b : ListBuilder) (items rest : List Value) (tail : Value) :
    assemble (extend b items) (.ok (rest, tail)) = assemble b (.ok (items ++ rest, tail)) := by
  have hextend : extend (extend b items) rest = extend b (items ++ rest) := by
    unfold extend
    rw [List.reverse_append, List.append_assoc]
  unfold assemble
  simp only [hextend]

/-- Without earlier elements, the list is allocated as it is. -/
theorem ends_assemble_empty {items : List Value} {tail : Value} {ending : Ending Value} :
    (assemble .empty (.ok (items, tail))).Ends s ending t ↔
      ending = .ok (s.consAll items tail).1 ∧ t = (s.consAll items tail).2 := by
  unfold assemble EvalM.build
  rw [EvalM.ends_step, ListBuilder.finish_eq_consAll]
  simp [ListBuilder.toList, extend, ListBuilder.empty]

/-! ## From the expansion to the meaning -/

/-- An expansion ends as forms mean. -/
def Follows (ev : Evaluator) (expand : Nat → Value → EvalM Value) : Prop :=
  ∀ level form s ending t, (expand level form).Ends s ending t →
    ∃ trace, Performs ev trace ∧ Reads level form s trace ending t

theorem retag_reads (hfollows : Follows (ev context) expand) {inner : Nat} {tag : SymbolId}
    {form x : Value} {ending : Ending Value} (hshift : Shifts tag level inner)
    (htag : Tagged s tag form x) (h : (retag tag (expand inner x)).Ends s ending t) :
    ∃ trace, Performs (ev context) trace ∧ Reads level form s trace ending t := by
  unfold retag at h
  rcases EvalM.ends_bind.mp h with ⟨v, u, hoperand, hlist⟩ | ⟨stop, hoperand, rfl⟩
  · obtain ⟨trace, hperforms, hreads⟩ := hfollows _ _ _ _ _ hoperand
    obtain ⟨rfl, rfl⟩ := EvalM.ends_step.mp hlist
    exact ⟨trace, hperforms, .rebuilt hshift htag hreads rfl⟩
  · obtain ⟨trace, hperforms, hreads⟩ := hfollows _ _ _ _ _ hoperand
    exact ⟨trace, hperforms, .operandStops hshift htag hreads⟩

/-- A form that is pushed as a single element. -/
theorem pushed_contributes {act : EvalM Value} {b : ListBuilder} {item : Value}
    {ending : Ending ListBuilder} (hplain : 0 < level ∨ ∀ x, ¬ Tagged s .splice item x)
    (hact : ∀ ending t, act.Ends s ending t →
      ∃ trace, Performs (ev context) trace ∧ Reads level item s trace ending t)
    (h : (act >>= fun v => pure (b.push v)).Ends s ending t) :
    ∃ trace contribution, Performs (ev context) trace ∧
      Contributes level item s trace contribution t ∧ ending = contribution.map (extend b) := by
  rcases EvalM.ends_bind.mp h with ⟨v, u, hv, hpure⟩ | ⟨stop, hstop, rfl⟩
  · obtain ⟨trace, hperforms, hreads⟩ := hact _ _ hv
    obtain ⟨rfl, rfl⟩ := EvalM.ends_pure.mp hpure
    exact ⟨trace, _, hperforms, .form hplain hreads, rfl⟩
  · obtain ⟨trace, hperforms, hreads⟩ := hact _ _ hstop
    exact ⟨trace, _, hperforms, .form hplain hreads, rfl⟩

theorem splice_contributes {b : ListBuilder} {item x v : Value} {u : Interp}
    {ending : Ending ListBuilder} (htag : Tagged s .splice item x)
    (hv : ((ev context).form x).Ends s (.ok v) u) (h : (splice b v).Ends u ending t) :
    ∃ trace contribution, Performs (ev context) trace ∧ Contributes 0 item s trace contribution t ∧
      ending = contribution.map (extend b) := by
  unfold splice at h
  rw [EvalM.ends_read_bind] at h
  by_cases hproper : u.isProper v = true
  · rw [if_pos hproper] at h
    obtain ⟨rfl, rfl⟩ := EvalM.ends_read.mp h
    have hlist := ProperList.iff_isProper.mpr ⟨hproper, rfl⟩
    refine ⟨_, _, performs_singleton.mpr hv, .spliced htag hlist, ?_⟩
    exact congrArg Except.ok (append_eq_extend b t v)
  · rw [if_neg hproper] at h
    obtain ⟨rfl, rfl⟩ := EvalM.ends_fail.mp h
    have himproper : ∀ items, ¬ ProperList t v items := fun items hitems =>
      hproper (ProperList.iff_isProper.mp hitems).1
    exact ⟨_, _, performs_singleton.mpr hv, .improper htag himproper, rfl⟩

theorem element_contributes (hfollows : Follows (ev context) expand) {b : ListBuilder}
    {item : Value} {ending : Ending ListBuilder}
    (h : (element ev context expand level b item).Ends s ending t) :
    ∃ trace contribution, Performs (ev context) trace ∧
      Contributes level item s trace contribution t ∧ ending = contribution.map (extend b) := by
  cases hoperand : operand? s .splice item with
  | none =>
    have hplain := operand?_eq_none_iff.mp hoperand
    have hform := h.of_eq (element_plain hplain).symm
    exact pushed_contributes (.inr hplain) (hfollows level item s) hform
  | some x =>
    have htag := operand?_eq_some_iff.mp hoperand
    cases level with
    | succ level =>
      have hform := h.of_eq (element_rebuilt htag).symm
      have hact : ∀ ending t, (retag .splice (expand level x)).Ends s ending t →
          ∃ trace, Performs (ev context) trace ∧ Reads (level + 1) item s trace ending t :=
        fun ending t => retag_reads hfollows (.splice level) htag
      exact pushed_contributes (.inl (Nat.succ_pos level)) hact hform
    | zero =>
      have hsplice := h.of_eq (element_spliced htag).symm
      rcases EvalM.ends_bind.mp hsplice with ⟨v, u, hv, hrest⟩ | ⟨stop, hstop, rfl⟩
      · exact splice_contributes htag hv hrest
      · exact ⟨_, _, performs_singleton.mpr hstop, .spliceStops htag, rfl⟩

/-- What an expansion of the tails of lists does for them. -/
def TailsFollow (ev : Evaluator) (walk : ListBuilder → Value → EvalM Value) (level : Nat) : Prop :=
  ∀ b v s ending t, (walk b v).Ends s ending t → ∃ trace tail u, Performs ev trace ∧
    ReadsTail level v s trace tail u ∧ (assemble b tail).Ends u ending t

/-- A walk that takes a cell for an element reads what is in it, and then the tail. -/
theorem cells_read (hfollows : Follows (ev context) expand)
    (htails : TailsFollow (ev context) (elements ev context expand level n true) level)
    {isTail : Bool} {b : ListBuilder} {id : CellId} {ending : Ending Value}
    (hplain : (isTail && (operand? s .unquote (.cons id)).isSome) = false)
    (h : (elements ev context expand level (n + 1) isTail b (.cons id)).Ends s ending t) :
    ∃ trace cells u, Performs (ev context) trace ∧ ReadsCells level id s trace cells u ∧
      (assemble b cells).Ends u ending t := by
  have hcell := h.of_eq (elements_cell hplain).symm
  rcases EvalM.ends_bind.mp hcell with ⟨b', u, helement, hrest⟩ | ⟨stop, hstop, rfl⟩
  · obtain ⟨trace, contribution, hperforms, hitem, hb'⟩ := element_contributes hfollows helement
    rw [EvalM.ends_read_bind] at hrest
    obtain ⟨trace', tail, w, hperforms', htail, hassemble⟩ := htails _ _ _ _ _ hrest
    have hboth := performs_append.mpr ⟨hperforms, hperforms'⟩
    match contribution, tail with
    | .error stop, _ => cases hb'
    | .ok items, .ok (rest, tail) =>
      cases hb'
      rw [assemble_extend] at hassemble
      exact ⟨_, _, w, hboth, .cell hitem htail, hassemble⟩
    | .ok items, .error stop => exact ⟨_, _, w, hboth, .tailStops hitem htail, hassemble⟩
  · obtain ⟨trace, contribution, hperforms, hitem, hstop'⟩ := element_contributes hfollows hstop
    match contribution with
    | .ok items => cases hstop'
    | .error stop' =>
      cases hstop'
      exact ⟨_, _, t, hperforms, .itemStops hitem, rfl⟩

theorem tails_follow (hfollows : Follows (ev context) expand) (n : Nat) :
    TailsFollow (ev context) (elements ev context expand level n true) level := by
  induction n with
  | zero => exact fun b v s ending t h => absurd h EvalM.not_ends_aborted
  | succ n ih =>
    intro b v s ending t h
    cases hoperand : operand? s .unquote v with
    | some x =>
      have htag := operand?_eq_some_iff.mp hoperand
      have hunquote := h.of_eq (elements_unquoted htag).symm
      rcases EvalM.ends_bind.mp hunquote with ⟨w, u, hw, hbuild⟩ | ⟨stop, hstop, rfl⟩
      · obtain ⟨trace, hperforms, hreads⟩ := hfollows _ _ _ _ _ hw
        exact ⟨trace, _, u, hperforms, .unquoted htag hreads, hbuild⟩
      · obtain ⟨trace, hperforms, hreads⟩ := hfollows _ _ _ _ _ hstop
        exact ⟨trace, _, t, hperforms, .unquoted htag hreads, rfl⟩
    | none =>
      by_cases hcell : v.IsCell
      · obtain ⟨id, rfl⟩ := hcell
        have hplain : (true && (operand? s .unquote (.cons id)).isSome) = false := by
          rw [hoperand]
          rfl
        obtain ⟨trace, cells, u, hperforms, hcells, hassemble⟩ := cells_read hfollows ih hplain h
        have huntagged := operand?_eq_none_iff.mp hoperand
        exact ⟨trace, cells, u, hperforms, .cells huntagged hcells, hassemble⟩
      · have hbuild := h.of_eq (elements_atom hcell).symm
        exact ⟨[], _, s, performs_nil, .atom hcell, hbuild⟩

theorem list_reads (hfollows : Follows (ev context) expand) {id : CellId} {ending : Ending Value}
    (hplain : Plain s (.cons id))
    (h : (elements ev context expand level n false ListBuilder.empty (.cons id)).Ends s ending t) :
    ∃ trace, Performs (ev context) trace ∧ Reads level (.cons id) s trace ending t := by
  cases n with
  | zero => exact absurd h EvalM.not_ends_aborted
  | succ n =>
    obtain ⟨trace, cells, u, hperforms, hcells, hassemble⟩ :=
      cells_read hfollows (tails_follow hfollows n) (Bool.false_and _) h
    match cells with
    | .ok (items, tail) =>
      obtain ⟨rfl, rfl⟩ := ends_assemble_empty.mp hassemble
      exact ⟨trace, hperforms, .list hplain hcells rfl⟩
    | .error stop =>
      obtain ⟨rfl, rfl⟩ := EvalM.ends_stop.mp hassemble
      exact ⟨trace, hperforms, .listStops hplain hcells⟩

theorem step_reads (hfollows : Follows (ev context) expand) {form : Value} {ending : Ending Value}
    (h : (step ev context n expand level form).Ends s ending t) :
    ∃ trace, Performs (ev context) trace ∧ Reads level form s trace ending t := by
  rcases form_cases s form with hatom | ⟨x, htag⟩ | ⟨x, htag⟩ | ⟨x, htag⟩ | ⟨id, rfl, hplain⟩
  · obtain ⟨rfl, rfl⟩ := EvalM.ends_pure.mp (h.of_eq (step_atom hatom).symm)
    exact ⟨[], performs_nil, .atom hatom⟩
  · have hunquote := h.of_eq (step_unquoted htag).symm
    cases level with
    | zero => exact ⟨_, performs_singleton.mpr hunquote, .unquoted htag⟩
    | succ level => exact retag_reads hfollows (.unquote level) htag hunquote
  · have hsplice := h.of_eq (step_spliced htag).symm
    cases level with
    | zero =>
      obtain ⟨rfl, rfl⟩ := EvalM.ends_fail.mp hsplice
      exact ⟨[], performs_nil, .misplaced htag⟩
    | succ level => exact retag_reads hfollows (.splice level) htag hsplice
  · exact retag_reads hfollows (.backquote level) htag (h.of_eq (step_backquoted htag).symm)
  · exact list_reads hfollows hplain (h.of_eq (step_plain hplain).symm)

theorem expand_follows (ev : Evaluators) (context : Value) (n : Nat) :
    Follows (ev context) (Template.expand ev context n) := by
  induction n with
  | zero => exact fun level form s ending t h => absurd h EvalM.not_ends_aborted
  | succ n ih => exact fun level form s ending t h => step_reads ih h

/-! ## From the meaning to the expansion -/

/-- With enough fuel, an expansion of the form ends in this way. -/
def Expands (ev : Evaluators) (context : Value) (level : Nat) (form : Value) (s : Interp)
    (ending : Ending Value) (t : Interp) : Prop :=
  ∃ N, ∀ n, N ≤ n → (Template.expand ev context n level form).Ends s ending t

/-- With enough fuel, a walk that takes this cell for an element gets to these elements and this
tail. -/
def WalksCells (ev : Evaluators) (context : Value) (level : Nat) (id : CellId) (s : Interp)
    (cells : Ending (List Value × Value)) (t : Interp) : Prop :=
  ∃ N, ∀ n m, N ≤ n → N ≤ m → ∀ isTail b,
    (isTail && (operand? s .unquote (.cons id)).isSome) = false →
      elements ev context (Template.expand ev context n) level m isTail b (.cons id) s =
        assemble b cells t

/-- With enough fuel, a walk that has come to this tail gets to these elements and this tail. -/
def WalksTail (ev : Evaluators) (context : Value) (level : Nat) (v : Value) (s : Interp)
    (tail : Ending (List Value × Value)) (t : Interp) : Prop :=
  ∃ N, ∀ n m, N ≤ n → N ≤ m → ∀ b,
    elements ev context (Template.expand ev context n) level m true b v s = assemble b tail t

/-- With enough fuel, this element adds its contribution to what is collected. -/
def Adds (ev : Evaluators) (context : Value) (level : Nat) (item : Value) (s : Interp)
    (contribution : Ending (List Value)) (t : Interp) : Prop :=
  ∃ N, ∀ n, N ≤ n → ∀ b,
    (element ev context (Template.expand ev context n) level b item).Ends s
      (contribution.map (extend b)) t

theorem Expands.intro {form : Value} {ending : Ending Value} (N : Nat)
    (h : ∀ n, N ≤ n →
      (step ev context n (Template.expand ev context n) level form).Ends s ending t) :
    Expands ev context level form s ending t := by
  refine ⟨N + 1, fun n hn => ?_⟩
  obtain ⟨m, rfl⟩ := Nat.exists_eq_add_of_le hn
  have hm : N + 1 + m = (N + m) + 1 := by omega
  rw [hm]
  exact h _ (Nat.le_add_right N m)

theorem expands_atom {form : Value} (hatom : ¬ form.IsCell) :
    Expands ev context level form s (.ok form) s :=
  .intro 0 fun _ _ => step_atom hatom

theorem expands_unquoted {form x : Value} {ending : Ending Value} (htag : Tagged s .unquote form x)
    (h : ((ev context).form x).Ends s ending t) : Expands ev context 0 form s ending t :=
  .intro 0 fun _ _ => h.of_eq (step_unquoted htag)

theorem expands_misplaced {form x : Value} (htag : Tagged s .splice form x) :
    Expands ev context 0 form s
      (.error (.fault (.evaluation (.spliceOutsideList (s.print form)) none))) s :=
  .intro 0 fun _ _ => step_spliced htag

theorem expands_rebuilt {inner : Nat} {tag : SymbolId} {form x v w : Value} {u : Interp}
    (hshift : Shifts tag level inner) (htag : Tagged s tag form x)
    (hoperand : Expands ev context inner x s (.ok v) u)
    (hnew : u.listOf [.symbol tag, v] = (w, t)) :
    Expands ev context level form s (.ok w) t := by
  obtain ⟨N, hN⟩ := hoperand
  refine .intro N fun n hn => ?_
  have hlist : (EvalM.list [.symbol tag, v]).Ends u (.ok w) t := by
    rw [EvalM.list, EvalM.ends_step, hnew]
    exact ⟨rfl, rfl⟩
  have hretag : (retag tag (Template.expand ev context n inner x)).Ends s (.ok w) t :=
    hlist.of_eq (hN n hn).bind_eq
  exact hretag.of_eq (step_shifted hshift htag)

theorem expands_operandStops {inner : Nat} {tag : SymbolId} {form x : Value} {stop : Stop}
    (hshift : Shifts tag level inner) (htag : Tagged s tag form x)
    (hoperand : Expands ev context inner x s (.error stop) t) :
    Expands ev context level form s (.error stop) t := by
  obtain ⟨N, hN⟩ := hoperand
  refine .intro N fun n hn => ?_
  have hretag : (retag tag (Template.expand ev context n inner x)).Ends s (.error stop) t :=
    (hN n hn).bind_stop
  exact hretag.of_eq (step_shifted hshift htag)

theorem expands_cells {id : CellId} {cells : Ending (List Value × Value)} {ending : Ending Value}
    {u : Interp} (hplain : Plain s (.cons id)) (hcells : WalksCells ev context level id s cells u)
    (hend : (assemble .empty cells).Ends u ending t) :
    Expands ev context level (.cons id) s ending t := by
  obtain ⟨N, hN⟩ := hcells
  refine .intro N fun n hn => ?_
  have hwalk :
      (elements ev context (Template.expand ev context n) level n false ListBuilder.empty
        (.cons id)).Ends s ending t :=
    hend.of_eq (hN n n hn hn false ListBuilder.empty (Bool.false_and _))
  exact hwalk.of_eq (step_plain hplain)

theorem walksCells_cell {id : CellId} {items : List Value} {tail : Ending (List Value × Value)}
    {u : Interp} (hitem : Adds ev context level (s.car id) s (.ok items) u)
    (htail : WalksTail ev context level (u.cdr id) u tail t) :
    WalksCells ev context level id s (tail.map fun (rest, tail) => (items ++ rest, tail)) t := by
  obtain ⟨N, hN⟩ := hitem
  obtain ⟨M, hM⟩ := htail
  refine ⟨max N M + 1, fun n m hn hm isTail b hplain => ?_⟩
  obtain ⟨m, rfl⟩ : ∃ k, m = k + 1 := ⟨m - 1, by omega⟩
  have helement := hN n (by omega) b
  have hrest := hM n m (by omega) (by omega) (extend b items)
  rw [elements_cell hplain, helement.bind_eq, EvalM.read_bind_apply, hrest]
  cases tail with
  | ok tail => rw [assemble_extend]; rfl
  | error stop => rfl

theorem walksCells_itemStops {id : CellId} {stop : Stop}
    (hitem : Adds ev context level (s.car id) s (.error stop) t) :
    WalksCells ev context level id s (.error stop) t := by
  obtain ⟨N, hN⟩ := hitem
  refine ⟨N + 1, fun n m hn hm isTail b hplain => ?_⟩
  obtain ⟨m, rfl⟩ : ∃ k, m = k + 1 := ⟨m - 1, by omega⟩
  rw [elements_cell hplain]
  exact (hN n (by omega) b).bind_stop

theorem walksTail_atom {v : Value} (hatom : ¬ v.IsCell) :
    WalksTail ev context level v s (.ok ([], v)) s := by
  refine ⟨1, fun n m _ hm b => ?_⟩
  obtain ⟨m, rfl⟩ : ∃ k, m = k + 1 := ⟨m - 1, by omega⟩
  exact elements_atom hatom

theorem walksTail_unquoted {v x : Value} {ending : Ending Value} (htag : Tagged s .unquote v x)
    (hform : Expands ev context level v s ending t) :
    WalksTail ev context level v s (ending.map fun tail => ([], tail)) t := by
  obtain ⟨N, hN⟩ := hform
  refine ⟨N + 1, fun n m hn hm b => ?_⟩
  obtain ⟨m, rfl⟩ : ∃ k, m = k + 1 := ⟨m - 1, by omega⟩
  have hexpand := hN n (by omega)
  rw [elements_unquoted htag]
  cases ending with
  | ok tail => exact hexpand.bind_eq
  | error stop => exact hexpand.bind_stop

theorem walksTail_cells {id : CellId} {cells : Ending (List Value × Value)}
    (hplain : ∀ x, ¬ Tagged s .unquote (.cons id) x)
    (hcells : WalksCells ev context level id s cells t) :
    WalksTail ev context level (.cons id) s cells t := by
  obtain ⟨N, hN⟩ := hcells
  refine ⟨N, fun n m hn hm b => hN n m hn hm true b ?_⟩
  rw [operand?_eq_none_iff.mpr hplain]
  rfl

theorem adds_form {item : Value} {ending : Ending Value}
    (hplain : 0 < level ∨ ∀ x, ¬ Tagged s .splice item x)
    (hitem : Expands ev context level item s ending t) :
    Adds ev context level item s (ending.map fun v => [v]) t := by
  obtain ⟨N, hN⟩ := hitem
  refine ⟨N, fun n hn b => ?_⟩
  have hpush : ∀ act : EvalM Value, act.Ends s ending t →
      (act >>= fun v => pure (b.push v)).Ends s ((ending.map fun v => [v]).map (extend b)) t := by
    intro act hact
    cases ending with
    | ok v => exact hact.bind_eq
    | error stop => exact hact.bind_stop
  cases hoperand : operand? s .splice item with
  | none => exact (hpush _ (hN n hn)).of_eq (element_plain (operand?_eq_none_iff.mp hoperand))
  | some x =>
    have htag := operand?_eq_some_iff.mp hoperand
    cases level with
    | zero =>
      rcases hplain with hpos | hplain
      · exact absurd hpos (Nat.lt_irrefl 0)
      · exact absurd htag (hplain x)
    | succ level =>
      -- the expansion of the item goes through `step` first, the element does not
      have hretag : (retag .splice (Template.expand ev context n level x)).Ends s ending t :=
        (hN (n + 1) (by omega)).of_eq (step_shifted (.splice level) htag).symm
      exact (hpush _ hretag).of_eq (element_rebuilt htag)

theorem adds_spliced {item x v : Value} {items : List Value} (htag : Tagged s .splice item x)
    (h : ((ev context).form x).Ends s (.ok v) t) (hproper : ProperList t v items) :
    Adds ev context 0 item s (.ok items) t := by
  obtain ⟨hlist, rfl⟩ := ProperList.iff_isProper.mp hproper
  refine ⟨0, fun n _ b => ?_⟩
  have hsplice : (splice b v).Ends t (.ok (extend b (t.elementsOf v))) t := by
    unfold splice
    rw [EvalM.ends_read_bind, if_pos hlist, ListBuilding.append_collecting, EvalM.ends_read,
      append_eq_extend]
    exact ⟨rfl, rfl⟩
  exact (hsplice.of_eq h.bind_eq).of_eq (element_spliced htag)

theorem adds_improper {item x v : Value} (htag : Tagged s .splice item x)
    (h : ((ev context).form x).Ends s (.ok v) t) (himproper : ∀ items, ¬ ProperList t v items) :
    Adds ev context 0 item s
      (.error (.fault (.evaluation (.spliceOfNonList (t.print v)) none))) t := by
  have hproper : ¬ t.isProper v = true := fun hproper =>
    himproper _ (ProperList.iff_isProper.mpr ⟨hproper, rfl⟩)
  refine ⟨0, fun n _ b => ?_⟩
  have hsplice : (splice b v).Ends t
      (.error (.fault (.evaluation (.spliceOfNonList (t.print v)) none))) t := by
    unfold splice
    rw [EvalM.ends_read_bind, if_neg hproper]
    rfl
  exact (hsplice.of_eq h.bind_eq).of_eq (element_spliced htag)

theorem adds_spliceStops {item x : Value} {stop : Stop} (htag : Tagged s .splice item x)
    (h : ((ev context).form x).Ends s (.error stop) t) :
    Adds ev context 0 item s (.error stop) t := by
  refine ⟨0, fun n _ b => ?_⟩
  have hsplice : ((ev context).form x >>= splice b).Ends s (.error stop) t := h.bind_stop
  exact hsplice.of_eq (element_spliced htag)

theorem reads_expands {form : Value} {trace : List Evaluation} {ending : Ending Value}
    (h : Reads level form s trace ending t) :
    Performs (ev context) trace → Expands ev context level form s ending t := by
  refine @Reads.rec
    (fun level form s trace ending t _ => Performs (ev context) trace →
      Expands ev context level form s ending t)
    (fun level id s trace cells t _ => Performs (ev context) trace →
      WalksCells ev context level id s cells t)
    (fun level v s trace tail t _ => Performs (ev context) trace →
      WalksTail ev context level v s tail t)
    (fun level item s trace contribution t _ => Performs (ev context) trace →
      Adds ev context level item s contribution t)
    ?atom ?unquoted ?misplaced ?rebuilt ?operandStops ?list ?listStops ?cell ?itemStops ?tailStops
    ?tailAtom ?tailUnquoted ?tailCells ?spliced ?improper ?spliceStops ?form _ _ _ _ _ _ h
  case atom => exact fun hatom _ => expands_atom hatom
  case unquoted => exact fun htag hp => expands_unquoted htag (performs_singleton.mp hp)
  case misplaced => exact fun htag _ => expands_misplaced htag
  case rebuilt => exact fun hshift htag _ hnew ih hp => expands_rebuilt hshift htag (ih hp) hnew
  case operandStops => exact fun hshift htag _ ih hp => expands_operandStops hshift htag (ih hp)
  case list =>
    intro level id tail v items s u t trace hplain _ hnew ih hp
    refine expands_cells hplain (ih hp) (ends_assemble_empty.mpr ?_)
    rw [hnew]
    exact ⟨rfl, rfl⟩
  case listStops => exact fun hplain _ ih hp => expands_cells hplain (ih hp) rfl
  case cell =>
    intro level id items rest tail s u t trace trace' _ _ ihitem ihtail hp
    obtain ⟨hitem, htail⟩ := performs_append.mp hp
    exact walksCells_cell (ihitem hitem) (ihtail htail)
  case itemStops => exact fun _ ih hp => walksCells_itemStops (ih hp)
  case tailStops =>
    intro level id items s u t stop trace trace' _ _ ihitem ihtail hp
    obtain ⟨hitem, htail⟩ := performs_append.mp hp
    exact walksCells_cell (ihitem hitem) (ihtail htail)
  case tailAtom => exact fun hatom _ => walksTail_atom hatom
  case tailUnquoted => exact fun htag _ ih hp => walksTail_unquoted htag (ih hp)
  case tailCells => exact fun hplain _ ih hp => walksTail_cells hplain (ih hp)
  case spliced =>
    exact fun htag hproper hp => adds_spliced htag (performs_singleton.mp hp) hproper
  case improper =>
    exact fun htag himproper hp => adds_improper htag (performs_singleton.mp hp) himproper
  case spliceStops => exact fun htag hp => adds_spliceStops htag (performs_singleton.mp hp)
  case form => exact fun hplain _ ih hp => adds_form hplain (ih hp)

/-! ## Main statements -/

theorem fill_spliced {form x : Value} (htag : Tagged s .splice form x) :
    fill ev context n form s = misplacedSplice form s := by
  unfold fill
  rw [EvalM.read_bind_apply, operand?_eq_some_iff.mpr htag]

theorem fill_unspliced {form : Value} (hplain : ∀ x, ¬ Tagged s .splice form x) :
    fill ev context n form s = Template.expand ev context n 0 form s := by
  unfold fill
  rw [EvalM.read_bind_apply, operand?_eq_none_iff.mpr hplain]

theorem fill_follows {form : Value} {ending : Ending Value}
    (h : (fill ev context n form).Ends s ending t) : Means (ev context) form s ending t := by
  by_cases hsplice : ∃ x, Tagged s .splice form x
  · obtain ⟨x, htag⟩ := hsplice
    obtain ⟨rfl, rfl⟩ := EvalM.ends_fail.mp (h.of_eq (fill_spliced htag).symm)
    exact ⟨[], performs_nil, .misplaced htag⟩
  · have hplain : ∀ x, ¬ Tagged s .splice form x := fun x hx => hsplice ⟨x, hx⟩
    exact expand_follows ev context n 0 form s ending t (h.of_eq (fill_unspliced hplain).symm)

theorem Means.filled {form : Value} {ending : Ending Value}
    (h : Means (ev context) form s ending t) :
    ∃ N, ∀ n, N ≤ n → (fill ev context n form).Ends s ending t := by
  obtain ⟨trace, hperforms, hreads⟩ := h
  obtain ⟨N, hN⟩ := reads_expands hreads hperforms
  refine ⟨N + 1, fun n hn => ?_⟩
  obtain ⟨n, rfl⟩ : ∃ k, n = k + 1 := ⟨n - 1, by omega⟩
  have hexpand := hN (n + 1) (by omega)
  by_cases hsplice : ∃ x, Tagged s .splice form x
  · obtain ⟨x, htag⟩ := hsplice
    -- at the top, a splice is as misplaced as within the template
    have hstep : Template.expand ev context (n + 1) 0 form s = misplacedSplice form s :=
      step_spliced htag
    exact hexpand.of_eq ((fill_spliced htag).trans hstep.symm)
  · exact hexpand.of_eq (fill_unspliced fun x hx => hsplice ⟨x, hx⟩)

/-- A template has one meaning at most. -/
theorem Means.unique {form : Value} {ending ending' : Ending Value} {t' : Interp}
    (h : Means (ev context) form s ending t) (h' : Means (ev context) form s ending' t') :
    ending = ending' ∧ t = t' := by
  obtain ⟨N, hN⟩ := h.filled
  obtain ⟨M, hM⟩ := h'.filled
  have hend : (fill ev context (max N M) form).Ends s ending t := hN _ (Nat.le_max_left N M)
  have hend' : (fill ev context (max N M) form).Ends s ending' t' := hM _ (Nat.le_max_right N M)
  exact hend.unique hend'

/-- Filling a template ends as the template means, whatever the evaluator does, and the evaluations
that it rests on are carried out once each and in order. With harmless evaluations, every finite
template is filled. -/
theorem fill_means (ev : Evaluators) (context form : Value) (s : Interp) :
    (∀ n ending t, (fill ev context n form).Ends s ending t → Means (ev context) form s ending t) ∧
    (∀ ending t, Means (ev context) form s ending t →
      ∃ N, ∀ n, N ≤ n → (fill ev context n form).Ends s ending t) ∧
    ∀ cells, Keeps cells s s → Tree cells s form → Harmless (ev context) cells s →
      ∃ N ending t, ∀ n, N ≤ n → (fill ev context n form).Ends s ending t := by
  refine ⟨fun n ending t h => fill_follows h, fun ending t h => h.filled, ?_⟩
  intro cells hstore htree hev
  obtain ⟨ending, t, hmeans⟩ := tree_means hstore htree hev
  obtain ⟨N, hN⟩ := hmeans.filled
  exact ⟨N, ending, t, hN⟩

end SmallLisp.Template
