import SmallLisp.Proofs.Spacing

/-!
# Progress

Skipping leaves an end of the text, and one that does not start with anything that it skips.
`Leaves` says of a reader that what it leaves is an end of its text. Reading takes at least one
character, so what a datum leaves is what stands behind some text that has been used.
-/

namespace SmallLisp

variable {comments : Bool} {cs rest : List Char} {datum : Datum}

/-! ## Skipping -/

/-- Whether a text starts with something that is skipped between tokens. -/
def startsGap (comments : Bool) : List Char → Bool
  | '#' :: '|' :: _ => comments
  | c :: _ => Text.isSkipped c || comments && c == ';'
  | [] => false

theorem skipGap_suffix {gap : Gap} (h : skipGap comments gap cs = .ok rest) : rest <:+ cs := by
  fun_induction skipGap comments gap cs with
  | case1 | case3 | case6 | case7 =>
    cases h
    exact List.suffix_refl _
  | case10 => cases h
  | case2 _ _ ih | case11 _ ih =>
    exact (ih h).trans ((List.suffix_cons _ _).trans (List.suffix_cons _ _))
  | case4 _ _ _ _ ih | case5 _ _ _ _ _ ih | case8 _ _ _ ih | case9 _ _ _ ih
  | case12 _ _ _ ih => exact (ih h).trans (List.suffix_cons _ _)

theorem skipGap_settled {gap : Gap} (h : skipGap comments gap cs = .ok rest) :
    startsGap comments rest = false := by
  fun_induction skipGap comments gap cs with
  | case1 | case7 =>
    cases h
    rfl
  | case3 text hcomments =>
    cases h
    exact Bool.eq_false_iff.mpr hcomments
  | case6 c text hno hskipped hline =>
    cases h
    rw [startsGap]
    · rw [Bool.eq_false_iff.mpr hskipped, Bool.eq_false_iff.mpr hline]
      rfl
    · exact hno
  | case10 => cases h
  | case2 _ _ ih | case4 _ _ _ _ ih | case5 _ _ _ _ _ ih | case8 _ _ _ ih | case9 _ _ _ ih
  | case11 _ ih | case12 _ _ _ ih => exact ih h

theorem skipSpace_suffix (h : skipSpace comments cs = .ok rest) : rest <:+ cs := skipGap_suffix h

theorem skipSpace_settled (h : skipSpace comments cs = .ok rest) :
    startsGap comments rest = false :=
  skipGap_settled h

/-! ## Readers -/

/-- What a reader leaves is an end of its text. -/
def Leaves (reader : DatumReader) : Prop :=
  ∀ ⦃cs datum rest⦄, reader cs = .ok (datum, rest) → rest <:+ cs

theorem afterToken_suffix (cs : List Char) : afterToken cs <:+ cs := List.dropWhile_suffix _

theorem leaves_readAtom : Leaves readAtom := by
  intro cs datum rest h
  cases (readAtom_congr rfl h).symm.trans h
  exact afterToken_suffix cs

theorem leaves_readString (seen : List Char) : Leaves (readString seen) := by
  intro cs datum rest h
  fun_induction readString seen cs with
  | case1 | case3 | case5 => cases h
  | case2 =>
    cases h
    exact List.suffix_cons _ _
  | case4 _ _ _ _ _ ih => exact (ih h).trans ((List.suffix_cons _ _).trans (List.suffix_cons _ _))
  | case6 _ _ _ _ _ _ ih => exact (ih h).trans (List.suffix_cons _ _)

theorem leaves_readCharacter : Leaves readCharacter := by
  intro cs datum rest h
  obtain ⟨c, -, rfl, -⟩ | ⟨-, rfl, -⟩ := readCharacter_cases h
  · exact List.suffix_cons c rest
  · exact afterToken_suffix cs

variable {reader : DatumReader}

theorem Leaves.operand (hreader : Leaves reader) (kind : QuoteKind) :
    Leaves (readOperand kind reader) := by
  intro cs datum rest h
  obtain ⟨operand, hoperand, -⟩ := readOperand_eq_ok.mp h
  exact hreader hoperand

theorem Leaves.tail (hreader : Leaves reader) (items : List Datum) :
    Leaves (readTail comments reader items) := by
  intro cs datum rest h
  obtain ⟨tail, behind, htail, hclose, -⟩ := readTail_eq_ok.mp h
  exact (List.suffix_cons _ _).trans ((skipSpace_suffix hclose).trans (hreader htail))

theorem Leaves.items (hreader : Leaves reader) (n : Nat) (seen : List Datum) :
    Leaves (readItems comments reader n seen) := by
  intro cs datum rest h
  induction n generalizing seen cs with
  | zero => cases h
  | succ n ih =>
    obtain ⟨text, hskip, hcases⟩ := readItems_succ_eq_ok.mp h
    have htext := skipSpace_suffix hskip
    obtain ⟨rfl, -⟩ | ⟨-, -, ⟨after, hpoint, -, htail⟩ | ⟨-, item, behind, hitem, hitems⟩⟩ := hcases
    · exact (List.suffix_cons _ _).trans htext
    · rw [(afterLonePoint?_eq_some.mp hpoint).1] at htext
      exact (hreader.tail _ htail).trans ((List.suffix_cons _ _).trans htext)
    · exact (ih _ hitems).trans ((hreader hitem).trans htext)

theorem Leaves.lead {operand : QuoteKind → DatumReader} (hoperand : ∀ kind, Leaves (operand kind))
    (hreader : Leaves reader) : Leaves (readLead comments operand reader) := by
  intro cs datum rest
  unfold readLead
  fun_cases SmallLisp.lead cs with
  | case1 text | case2 text | case4 text _ =>
    exact fun h => ((hoperand _).operand _ h).trans (List.suffix_cons _ _)
  | case3 text =>
    intro h
    exact ((hoperand _).operand _ h).trans ((List.suffix_cons _ _).trans (List.suffix_cons _ _))
  | case5 text => exact fun h => (hreader.items _ _ h).trans (List.suffix_cons _ _)
  | case6 text => exact fun h => (leaves_readString _ h).trans (List.suffix_cons _ _)
  | case7 text =>
    intro h
    exact (leaves_readCharacter h).trans ((List.suffix_cons _ _).trans (List.suffix_cons _ _))
  | case8 => exact fun h => leaves_readAtom h

theorem leaves_readDatum (levels backquotes : Nat) :
    Leaves (readDatum comments levels backquotes) := by
  rw [← readDatumBy_counting]
  induction levels generalizing backquotes with
  | zero =>
    intro _ _ _ h
    cases h
  | succ levels ih =>
    intro cs datum rest h
    obtain ⟨text, hskip, hread⟩ := readDatumBy_succ_eq_ok.mp h
    have hoperand (kind : QuoteKind) :
        Leaves (UnquoteRule.counting.operand (readDatumBy .counting comments levels) backquotes
          text kind) := by
      intro _ _ _ hoperand
      unfold UnquoteRule.operand at hoperand
      split at hoperand
      next => cases hoperand
      next => exact ih _ hoperand
    exact ((ih backquotes).lead hoperand hread).trans (skipSpace_suffix hskip)

/-- A datum uses up some text and leaves the rest. -/
theorem readDatum_uses {levels backquotes : Nat}
    (h : readDatum comments levels backquotes cs = .ok (datum, rest)) :
    ∃ used, used ≠ [] ∧ cs = used ++ rest := by
  obtain ⟨used, hused⟩ := leaves_readDatum levels backquotes h
  have hshorter := (readsOn_readDatum levels backquotes).shorter h
  refine ⟨used, ?_, hused.symm⟩
  rintro rfl
  rw [← hused] at hshorter
  exact Nat.lt_irrefl _ hshorter

end SmallLisp
