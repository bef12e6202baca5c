import SmallLisp.Proofs.Narrowing

/-!
# Unquotes stand in backquotes

Each backquote above a datum opens a level of quotation and each unquote above it closes one. A
datum is *balanced* if every unquote in it finds a level to close. The count that the reader keeps
describes exactly this: next to a reader that lets unquotes stand everywhere, it gives the data that
are balanced and refuses the others. Where the count is zero it is never lowered, so it does not
matter what lowering it would give there.
-/

namespace SmallLisp

namespace Datum

/-- Whether a datum is the operand of a backquote, behind its mark. -/
def opens (d : Datum) : Bool := d.mark? == some .backquote

/-- Whether a datum is an operand taken out of a backquote, behind its mark. -/
def closes (d : Datum) : Bool := d.mark?.any QuoteKind.unquotes

/-- Every unquote in a datum, itself included, stands below more backquotes than unquotes, counting
`around` backquotes around the datum. -/
def Balanced (around : Nat) (d : Datum) : Prop :=
  ∀ above part, d.Sits above part → part.closes = true →
    above.countP closes < around + above.countP opens

variable {around : Nat} {d : Datum}

/-- An unquote needs a backquote around it. What stands below a datum is balanced if it is so among
the backquotes that are open behind the mark of the datum. -/
theorem balanced_iff (inside : Nat)
    (hcount : (d.closes = true → 0 < around) → ∀ above : List Datum,
      (d :: above).countP closes < around + (d :: above).countP opens ↔
        above.countP closes < inside + above.countP opens) :
    d.Balanced around ↔
      (d.closes = true → 0 < around) ∧ ∀ child ∈ d.parts, child.Balanced inside := by
  constructor
  · intro h
    have hself : d.closes = true → 0 < around := h [] d (.self d)
    refine ⟨hself, fun child hchild above part hsits hcloses => ?_⟩
    exact (hcount hself above).mp (h (d :: above) part (.under hchild hsits) hcloses)
  · rintro ⟨hself, hparts⟩ above part hsits hcloses
    cases hsits with
    | self => exact hself hcloses
    | under hchild hsits => exact (hcount hself _).mpr (hparts _ hchild _ _ hsits hcloses)

/-- A datum without a mark neither opens nor closes a level. -/
theorem balanced_unmarked (hmark : d.mark? = none) :
    d.Balanced around ↔ ∀ child ∈ d.parts, child.Balanced around := by
  have hopens : d.opens = false := by rw [opens, hmark]; rfl
  have hcloses : d.closes = false := by rw [closes, hmark]; rfl
  rw [balanced_iff around, hcloses]
  · simp
  · simp [hopens, hcloses]

/-- The operand of a mark is balanced among the backquotes that the reader counts for it. -/
theorem balanced_quoted {kind : QuoteKind} :
    (quoted kind d).Balanced around ↔
      (kind.unquotes = true → 0 < around) ∧
        d.Balanced (UnquoteRule.counting.opened kind around) := by
  have hparts (n : Nat) : (∀ child ∈ (quoted kind d).parts, child.Balanced n) ↔ d.Balanced n :=
    List.forall_mem_singleton
  rw [balanced_iff (UnquoteRule.counting.opened kind around), hparts]
  · rfl
  · intro hself above
    rw [List.countP_cons, List.countP_cons]
    cases kind with
    | quote => rfl
    | backquote =>
      show above.countP closes + 0 < around + (above.countP opens + 1) ↔
        above.countP closes < around + 1 + above.countP opens
      omega
    | unquote | splice =>
      have haround : 0 < around := hself rfl
      show above.countP closes + 1 < around + (above.countP opens + 0) ↔
        above.countP closes < around - 1 + above.countP opens
      omega

end Datum

variable {comments : Bool}

/-- Counting backquotes, the reader gives the data that are balanced among those that are open. -/
theorem narrows_balanced {free : UnquoteRule} (hfree : ∀ n, free.refuses n = false)
    (levels backquotes around : Nat) :
    Narrows (Datum.Balanced around) (fun stuck => ∃ rest, stuck = .unquoteOutside rest)
      (readDatumBy free comments levels backquotes)
      (readDatumBy .counting comments levels around) := by
  induction levels generalizing backquotes around with
  | zero => exact fun cs => .stopped
  | succ levels ih =>
    refine Narrows.level (fun text kind => ?_) (ih backquotes around) fun d hmark =>
      Datum.balanced_unmarked hmark
    have hoperand : free.operand (readDatumBy free comments levels) backquotes text kind =
        readDatumBy free comments levels (free.opened kind backquotes) := by
      rw [UnquoteRule.operand, hfree, Bool.and_false]
      rfl
    rw [hoperand, UnquoteRule.operand]
    intro cs
    split
    next hrefused =>
      obtain ⟨hkind, hnone⟩ := Bool.and_eq_true_iff.mp hrefused
      refine .dropped ⟨text, rfl⟩ fun read _ hbalanced => ?_
      have haround : 0 < around := (Datum.balanced_quoted.mp hbalanced).1 hkind
      exact absurd (beq_iff_eq.mp hnone) (Nat.ne_of_gt haround)
    next hopen =>
      have haround : kind.unquotes = true → 0 < around := by
        intro hkind
        refine Nat.pos_of_ne_zero fun hnone => hopen ?_
        rw [hkind, hnone]
        rfl
      exact (ih _ _ cs).mono fun read _ =>
        ⟨fun hbalanced => Datum.balanced_quoted.mpr ⟨haround, hbalanced⟩,
          fun hbalanced => (Datum.balanced_quoted.mp hbalanced).2⟩

/-- A rule that refuses an unquote where none is open, and counts down elsewhere, is as good as any
other such rule. -/
theorem readDatumBy_eq_counting {rule : UnquoteRule} (hrefuses : ∀ n, rule.refuses n = (n == 0))
    (hlower : ∀ n, rule.lower (n + 1) = n) (levels backquotes : Nat) :
    readDatumBy rule comments levels backquotes =
      readDatumBy .counting comments levels backquotes := by
  induction levels generalizing backquotes with
  | zero => rfl
  | succ levels ih =>
    have hoperand (text : List Char) :
        rule.operand (readDatumBy rule comments levels) backquotes text =
          UnquoteRule.counting.operand (readDatumBy .counting comments levels) backquotes text := by
      funext kind
      rw [UnquoteRule.operand, UnquoteRule.operand, hrefuses, funext ih]
      cases backquotes with
      | zero => cases kind <;> rfl
      | succ n =>
        have hopened : rule.opened kind (n + 1) = UnquoteRule.counting.opened kind (n + 1) := by
          cases kind with
          | quote | backquote => rfl
          | unquote | splice => exact hlower n
        rw [hopened]
        rfl
    funext cs
    rw [readDatumBy, readDatumBy, ih backquotes, funext hoperand]

/-- What can be read has every unquote in a backquote, and conversely: where a reader that lets
unquotes stand everywhere gives data, the same are read if they are balanced, and else the text is
refused. Counting never goes below zero, or the rule for it would show in what is read. -/
theorem unquotes_in_backquotes (options : ReadOptions) (source : String) {free : UnquoteRule}
    (hfree : ∀ n, free.refuses n = false) :
    (∀ data, readData options source = .ok data →
      readDataBy free options source = .ok data ∧ ∀ d ∈ data, d.Balanced 0) ∧
    (∀ data, readDataBy free options source = .ok data →
      ((∀ d ∈ data, d.Balanced 0) → readData options source = .ok data) ∧
      ((∃ d ∈ data, ¬ d.Balanced 0) → ∃ position,
        readData options source = .error (.parse (.unquoteOutside position)))) ∧
    ∀ rule : UnquoteRule, (∀ n, rule.refuses n = (n == 0)) → (∀ n, rule.lower (n + 1) = n) →
      readDataBy rule options source = readData options source := by
  have hnot : ¬ ∃ rest, Stuck.noDatum = Stuck.unquoteOutside rest := nofun
  have hnarrows (data : List Datum) := readDataBy_narrowed options options rfl hnot
    (narrows_balanced hfree options.maxDepth 0 0) source data
  rw [← readDataBy_counting]
  refine ⟨fun data => (hnarrows data).1, fun data h => ⟨((hnarrows data).2 h).1, ?_⟩, ?_⟩
  · rintro ⟨d, hd, houtside⟩
    obtain ⟨_, ⟨rest, rfl⟩, hstop⟩ := ((hnarrows data).2 h).2 fun hall => houtside (hall d hd)
    exact ⟨_, hstop⟩
  · intro rule hrefuses hlower
    rw [readDataBy, readDataBy, readDatumBy_eq_counting hrefuses hlower]

/-- One backquote is enough for one unquote and not for two, one below the other. -/
theorem second_unquote_outside :
    (∀ n, UnquoteRule.lenient.refuses n = false) ∧
      readDataBy .lenient .standard "`(,a ,,b)" = .ok [.quoted .backquote (.list
        [.quoted .unquote (.symbol (.plain "A")),
          .quoted .unquote (.quoted .unquote (.symbol (.plain "B")))])] ∧
      ∃ position, readData .standard "`(,a ,,b)" = .error (.parse (.unquoteOutside position)) := by
  have hfree : ∀ n, UnquoteRule.lenient.refuses n = false := fun _ => rfl
  have hread : readDataBy .lenient .standard "`(,a ,,b)" = .ok [.quoted .backquote (.list
      [.quoted .unquote (.symbol (.plain "A")),
        .quoted .unquote (.quoted .unquote (.symbol (.plain "B")))])] := by
    rfl
  refine ⟨hfree, hread, ((unquotes_in_backquotes _ _ hfree).2.1 _ hread).2 ?_⟩
  refine ⟨_, List.mem_cons_self, fun hbalanced => ?_⟩
  have hlist := (Datum.balanced_quoted.mp hbalanced).2
  have hitem := (Datum.balanced_unmarked rfl).mp hlist _
    (List.mem_cons_of_mem _ List.mem_cons_self)
  have hinner := (Datum.balanced_quoted.mp hitem).2
  exact absurd ((Datum.balanced_quoted.mp hinner).1 rfl) (Nat.lt_irrefl 0)

end SmallLisp
