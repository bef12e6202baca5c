import SmallLisp.Proofs.Token

/-!
# A text behind a line

Tokens, comments, strings and lists end where what follows says so. A line feed ends everything that
can end at all: a datum that a text gives is given as well when a line feed and any further text
stand behind it, and what is left is left in front of that line feed. `ReadsOn` says this of a
reader, and that the reader uses up some text. The data of a text are read one after the other, so
those of two texts on separate lines are the data of the one and then those of the other.
-/

namespace SmallLisp

variable {comments : Bool} {cs rest : List Char}

/-! ## Skipping -/

/-- A character other than a line feed that starts a text with a line behind it starts the text. -/
theorem cons_of_append_line {b r : List Char} {c : Char} (hc : c ≠ '\n')
    (h : rest ++ '\n' :: b = c :: r) : ∃ r', rest = c :: r' := by
  cases rest with
  | nil =>
    obtain ⟨rfl, -⟩ := List.cons.inj h
    exact absurd rfl hc
  | cons d rest =>
    obtain ⟨rfl, -⟩ := List.cons.inj h
    exact ⟨rest, rfl⟩

theorem append_line_ne_cons {c : Char} (hc : c ≠ '\n') (h : ∀ r, rest ≠ c :: r)
    (b r : List Char) : rest ++ '\n' :: b ≠ c :: r := by
  intro heq
  obtain ⟨r', hr'⟩ := cons_of_append_line hc heq
  exact h r' hr'

/-- No mark of a comment is completed by the line feed. -/
theorem not_mark_append {first second c : Char} {b text : List Char} (hsecond : second ≠ '\n')
    (hno : ∀ r, c = first → text = second :: r → False) (r : List Char) (hc : c = first)
    (heq : text ++ '\n' :: b = second :: r) : False :=
  append_line_ne_cons hsecond (fun r' => hno r' hc) b r heq

/-- Skipping goes on behind a line feed as if it had begun there. -/
theorem skipGap_append {gap : Gap} (b : List Char) (h : skipGap comments gap cs = .ok rest) :
    skipGap comments gap (cs ++ '\n' :: b) = skipGap comments .between (rest ++ '\n' :: b) := by
  fun_induction skipGap comments gap cs with
  | case1 | case3 | case6 | case7 =>
    cases h
    rfl
  | case2 text hcomments ih =>
    show skipGap comments .between ('#' :: '|' :: (text ++ '\n' :: b)) = _
    rw [skipGap, if_pos hcomments]
    exact ih h
  | case4 c text hno hskipped ih =>
    show skipGap comments .between (c :: (text ++ '\n' :: b)) = _
    rw [skipGap, if_pos hskipped]
    · exact ih h
    · exact not_mark_append (by decide) hno
  | case5 c text hno hskipped hline ih =>
    show skipGap comments .between (c :: (text ++ '\n' :: b)) = _
    rw [skipGap, if_neg hskipped, if_pos hline]
    · exact ih h
    · exact not_mark_append (by decide) hno
  | case8 c text hend ih =>
    show skipGap comments .line (c :: (text ++ '\n' :: b)) = _
    rw [skipGap, if_pos hend]
    exact ih h
  | case9 c text hend ih =>
    show skipGap comments .line (c :: (text ++ '\n' :: b)) = _
    rw [skipGap, if_neg hend]
    exact ih h
  | case10 => cases h
  | case11 text ih =>
    show skipGap comments .block ('|' :: '#' :: (text ++ '\n' :: b)) = _
    rw [skipGap]
    exact ih h
  | case12 c text hno ih =>
    show skipGap comments .block (c :: (text ++ '\n' :: b)) = _
    rw [skipGap]
    · exact ih h
    · exact not_mark_append (by decide) hno

/-- Where skipping has stopped there is nothing more to skip. -/
theorem skipGap_idem {gap : Gap} (h : skipGap comments gap cs = .ok rest) :
    skipGap comments .between rest = .ok rest := by
  fun_induction skipGap comments gap cs with
  | case1 | case7 =>
    cases h
    rfl
  | case3 text hcomments =>
    cases h
    rw [skipGap, if_neg hcomments]
  | case6 c text hno hskipped hline =>
    cases h
    rw [skipGap, if_neg hskipped, if_neg hline]
    exact hno
  | case10 => cases h
  | case2 _ _ ih | case4 _ _ _ _ ih | case5 _ _ _ _ _ ih | case8 _ _ _ ih | case9 _ _ _ ih
  | case11 _ ih | case12 _ _ _ ih => exact ih h

theorem skipGap_length_le {gap : Gap} (h : skipGap comments gap cs = .ok rest) :
    rest.length ≤ cs.length := by
  fun_induction skipGap comments gap cs with
  | case1 | case3 | case6 | case7 =>
    cases h
    exact Nat.le_refl _
  | case10 => cases h
  | case2 _ _ ih | case4 _ _ _ _ ih | case5 _ _ _ _ _ ih | case8 _ _ _ ih | case9 _ _ _ ih
  | case11 _ ih | case12 _ _ _ ih =>
    have hle := ih h
    simp only [List.length_cons]
    omega

theorem skipGap_ne_longer {gap : Gap} (hlt : cs.length < rest.length) :
    skipGap comments gap cs ≠ .ok rest :=
  fun h => absurd (skipGap_length_le h) (Nat.not_le_of_lt hlt)

/-- Where skipping stops in front of some text, it stops there with a further line behind it too. -/
theorem skipGap_stop_append (b : List Char) (hne : rest ≠ [])
    (h : skipGap comments .between rest = .ok rest) :
    skipGap comments .between (rest ++ '\n' :: b) = .ok (rest ++ '\n' :: b) := by
  rw [skipGap.eq_def] at h
  split at h
  next => exact absurd rfl hne
  next text _ =>
    show skipGap comments .between ('#' :: '|' :: (text ++ '\n' :: b)) = _
    by_cases hcomments : comments = true
    · rw [if_pos hcomments] at h
      exact absurd h (skipGap_ne_longer (Nat.lt_succ_of_lt (Nat.lt_succ_self _)))
    · rw [skipGap, if_neg hcomments]
      rfl
  next c text hno _ =>
    show skipGap comments .between (c :: (text ++ '\n' :: b)) = _
    rw [skipGap]
    · split at h
      next => exact absurd h (skipGap_ne_longer (Nat.lt_succ_self _))
      next hskipped =>
        split at h
        next => exact absurd h (skipGap_ne_longer (Nat.lt_succ_self _))
        next hline =>
          rw [if_neg hskipped, if_neg hline]
          rfl
    · exact not_mark_append (by decide) hno
  all_goals contradiction

/-- What skipping leaves it leaves with a further line too. -/
theorem skipSpace_append (b : List Char) (hne : rest ≠ []) (h : skipSpace comments cs = .ok rest) :
    skipSpace comments (cs ++ '\n' :: b) = .ok (rest ++ '\n' :: b) :=
  (skipGap_append b h).trans (skipGap_stop_append b hne (skipGap_idem h))

/-- A text that is skipped as a whole is skipped with the line feed behind it. -/
theorem skipSpace_append_nil (b : List Char) (h : skipSpace comments cs = .ok []) :
    skipSpace comments (cs ++ '\n' :: b) = skipSpace comments b :=
  (skipGap_append b h).trans (by rw [List.nil_append, skipGap.eq_def]; rfl)

theorem skipSpace_length_le (h : skipSpace comments cs = .ok rest) : rest.length ≤ cs.length :=
  skipGap_length_le h

/-! ## Tokens -/

theorem tokenOf_append (h : Boundary rest) : tokenOf (cs ++ rest) = tokenOf cs := by
  induction cs with
  | nil => exact h
  | cons c cs ih =>
    unfold tokenOf at ih ⊢
    rw [List.cons_append, List.takeWhile_cons, List.takeWhile_cons, ih]

theorem afterToken_append (h : Boundary rest) :
    afterToken (cs ++ rest) = afterToken cs ++ rest := by
  induction cs with
  | nil => exact h.afterToken
  | cons c cs ih =>
    unfold afterToken at ih ⊢
    rw [List.cons_append, List.dropWhile_cons, List.dropWhile_cons, ih]
    split <;> rfl

theorem boundary_line (b : List Char) : Boundary ('\n' :: b) := boundary_cons (by decide) b

theorem length_afterToken_lt (h : tokenOf cs ≠ []) : (afterToken cs).length < cs.length := by
  have hsplit : tokenOf cs ++ afterToken cs = cs := List.takeWhile_append_dropWhile
  have hlength := congrArg List.length hsplit
  rw [List.length_append] at hlength
  have hpos := List.length_pos_iff.mpr h
  omega

/-! ## Readers -/

/-- A reader that uses up some text for a datum, and gives the same datum when a line follows. -/
structure ReadsOn (reader : DatumReader) : Prop where
  shorter : ∀ {cs datum rest}, reader cs = .ok (datum, rest) → rest.length < cs.length
  behind : ∀ {cs datum rest}, reader cs = .ok (datum, rest) → ∀ b,
    reader (cs ++ '\n' :: b) = .ok (datum, rest ++ '\n' :: b)

variable {datum : Datum}

/-- The datum of an atom is the one of its token. -/
theorem readAtom_congr {cs' : List Char} (htoken : tokenOf cs' = tokenOf cs)
    (h : readAtom cs = .ok (datum, rest)) : readAtom cs' = .ok (datum, afterToken cs') := by
  unfold readAtom at h ⊢
  rw [htoken]
  generalize tokenOf cs = token at h
  dsimp only at h ⊢
  split at h
  next => cases h
  next hne =>
    rw [if_neg hne]
    cases hinteger : integer? token with
    | some n =>
      rw [hinteger] at h
      dsimp only at h ⊢
      split at h
      next hfits =>
        rw [if_pos hfits]
        cases h
        rfl
      next => cases h
    | none =>
      rw [hinteger] at h
      cases hfloat : float? token with
      | some x =>
        rw [hfloat] at h
        cases h
        rfl
      | none =>
        rw [hfloat] at h
        dsimp only at h ⊢
        split at h
        next => cases h
        next hpoint =>
          rw [if_neg hpoint]
          cases hname : symbolName? (Text.upperChars token) with
          | some name =>
            rw [hname] at h
            cases h
            rfl
          | none =>
            rw [hname] at h
            cases h

theorem tokenOf_ne_nil_of_readAtom (h : readAtom cs = .ok (datum, rest)) : tokenOf cs ≠ [] := by
  intro hnil
  unfold readAtom at h
  rw [hnil] at h
  cases h

theorem readsOn_readAtom : ReadsOn readAtom where
  shorter h := by
    have hafter := (readAtom_congr rfl h).symm.trans h
    cases hafter
    exact length_afterToken_lt (tokenOf_ne_nil_of_readAtom h)
  behind h b := by
    have hafter := (readAtom_congr rfl h).symm.trans h
    cases hafter
    rw [← afterToken_append (boundary_line b)]
    exact readAtom_congr (tokenOf_append (boundary_line b)) h

theorem readsOn_readString (seen : List Char) : ReadsOn (readString seen) := by
  constructor
  · intro cs datum rest h
    fun_induction readString seen cs with
    | case1 | case3 => cases h
    | case2 =>
      cases h
      exact Nat.lt_succ_self _
    | case4 _ _ _ _ _ ih | case6 _ _ _ _ _ _ ih =>
      have hlt := ih h
      simp only [List.length_cons]
      omega
    | case5 => cases h
  · intro cs datum rest h b
    fun_induction readString seen cs with
    | case1 | case3 | case5 => cases h
    | case2 =>
      cases h
      rfl
    | case4 seen c text e he ih =>
      show readString seen ('\\' :: c :: (text ++ '\n' :: b)) = _
      rw [readString, he]
      exact ih h
    | case6 seen c text hquote hend hescape ih =>
      have hslash : c ≠ '\\' := by
        cases text with
        | nil => exact fun hc => hend hc rfl
        | cons d text => exact fun hc => hescape d text hc rfl
      show readString seen (c :: (text ++ '\n' :: b)) = _
      rw [readString]
      · exact ih h
      · exact hquote
      · exact fun hc => absurd hc hslash
      · exact fun _ _ hc => absurd hc hslash

/-- A character is a delimiter, or the one that the token stands for. -/
theorem readCharacter_cases (h : readCharacter cs = .ok (datum, rest)) :
    (∃ c, tokenOf cs = [] ∧ cs = c :: rest ∧ datum = .character c) ∨
      tokenOf cs ≠ [] ∧ rest = afterToken cs ∧ ∀ cs', tokenOf cs' = tokenOf cs →
        readCharacter cs' = .ok (datum, afterToken cs') := by
  unfold readCharacter at h
  cases htoken : tokenOf cs with
  | nil =>
    rw [htoken] at h
    cases cs with
    | nil => cases h
    | cons c text =>
      cases h
      exact .inl ⟨c, rfl, rfl, rfl⟩
  | cons c name =>
    rw [htoken] at h
    cases name with
    | nil =>
      cases h
      refine .inr ⟨List.cons_ne_nil _ _, rfl, fun cs' hcs' => ?_⟩
      unfold readCharacter
      rw [hcs']
    | cons d name =>
      dsimp only at h
      cases hname : Text.characterNamed? (c :: d :: name) with
      | none =>
        rw [hname] at h
        cases h
      | some e =>
        rw [hname] at h
        cases h
        refine .inr ⟨List.cons_ne_nil _ _, rfl, fun cs' hcs' => ?_⟩
        unfold readCharacter
        rw [hcs']
        dsimp only
        rw [hname]

theorem readsOn_readCharacter : ReadsOn readCharacter where
  shorter h := by
    obtain ⟨c, -, rfl, -⟩ | ⟨htoken, rfl, -⟩ := readCharacter_cases h
    · exact Nat.lt_succ_self _
    · exact length_afterToken_lt htoken
  behind {cs datum rest} h b := by
    obtain ⟨c, htoken, rfl, rfl⟩ | ⟨-, rfl, hread⟩ := readCharacter_cases h
    · have hbehind : tokenOf (c :: rest ++ '\n' :: b) = [] :=
        (tokenOf_append (boundary_line b)).trans htoken
      show readCharacter (c :: (rest ++ '\n' :: b)) = _
      unfold readCharacter
      rw [← List.cons_append, hbehind]
      rfl
    · rw [← afterToken_append (boundary_line b)]
      exact hread _ (tokenOf_append (boundary_line b))

/-! ## Quotation marks and lists -/

variable {reader : DatumReader} {seen : List Datum} {n : Nat}

theorem readOperand_eq_ok {kind : QuoteKind} :
    readOperand kind reader cs = .ok (datum, rest) ↔
      ∃ operand, reader cs = .ok (operand, rest) ∧ datum = .quoted kind operand := by
  unfold readOperand
  cases reader cs with
  | error stuck => simp
  | ok read =>
    obtain ⟨operand, behind⟩ := read
    constructor
    · intro h
      cases h
      exact ⟨operand, rfl, rfl⟩
    · rintro ⟨_, hoperand, rfl⟩
      cases hoperand
      rfl

theorem ReadsOn.operand (hreader : ReadsOn reader) (kind : QuoteKind) :
    ReadsOn (readOperand kind reader) where
  shorter h := by
    obtain ⟨operand, hoperand, -⟩ := readOperand_eq_ok.mp h
    exact hreader.shorter hoperand
  behind h b := by
    obtain ⟨operand, hoperand, hdatum⟩ := readOperand_eq_ok.mp h
    exact readOperand_eq_ok.mpr ⟨operand, hreader.behind hoperand b, hdatum⟩

theorem readTail_eq_ok {items : List Datum} :
    readTail comments reader items cs = .ok (datum, rest) ↔
      ∃ tail behind, reader cs = .ok (tail, behind) ∧
        skipSpace comments behind = .ok (')' :: rest) ∧ datum = .dotted items tail := by
  unfold readTail
  cases reader cs with
  | error stuck => simp
  | ok read =>
    obtain ⟨tail, behind⟩ := read
    dsimp only
    constructor
    · intro h
      split at h
      next => cases h
      next => cases h
      next hclose =>
        cases h
        exact ⟨tail, behind, rfl, hclose, rfl⟩
      next => cases h
    · rintro ⟨_, _, htail, hclose, hdatum⟩
      cases htail
      rw [hclose, hdatum]
      rfl

theorem ReadsOn.tail (hreader : ReadsOn reader) (items : List Datum) :
    ReadsOn (readTail comments reader items) where
  shorter h := by
    obtain ⟨tail, behind, htail, hclose, -⟩ := readTail_eq_ok.mp h
    have hbehind := hreader.shorter htail
    have hrest := skipSpace_length_le hclose
    rw [List.length_cons] at hrest
    omega
  behind h b := by
    obtain ⟨tail, behind, htail, hclose, hdatum⟩ := readTail_eq_ok.mp h
    have hclose' := skipSpace_append b (List.cons_ne_nil _ _) hclose
    exact readTail_eq_ok.mpr ⟨tail, _, hreader.behind htail b, hclose', hdatum⟩

theorem afterLonePoint?_eq_some {after : List Char} :
    afterLonePoint? cs = some after ↔ cs = '.' :: after ∧ Boundary after := by
  constructor
  · intro h
    unfold afterLonePoint? at h
    split at h
    next =>
      cases h
      exact ⟨rfl, boundary_nil⟩
    next c text =>
      split at h
      next hc =>
        cases h
        exact ⟨rfl, boundary_cons hc text⟩
      next => cases h
    next => cases h
  · rintro ⟨rfl, hafter⟩
    cases after with
    | nil => rfl
    | cons c after =>
      show (if isDelimiter c = true then some (c :: after) else none) = _
      rw [if_pos hafter.isDelimiter]

theorem afterLonePoint?_append {after : List Char} (b : List Char)
    (h : afterLonePoint? cs = some after) :
    afterLonePoint? (cs ++ '\n' :: b) = some (after ++ '\n' :: b) := by
  obtain ⟨rfl, hafter⟩ := afterLonePoint?_eq_some.mp h
  have hbehind : Boundary (after ++ '\n' :: b) := (tokenOf_append (boundary_line b)).trans hafter
  exact afterLonePoint?_eq_some.mpr ⟨rfl, hbehind⟩

theorem afterLonePoint?_append_eq_none (b : List Char) (h : afterLonePoint? cs = none) :
    afterLonePoint? (cs ++ '\n' :: b) = none := by
  cases hpoint : afterLonePoint? (cs ++ '\n' :: b) with
  | none => rfl
  | some after =>
    obtain ⟨htext, hafter⟩ := afterLonePoint?_eq_some.mp hpoint
    obtain ⟨text, rfl⟩ := cons_of_append_line (by decide) htext
    obtain ⟨-, rfl⟩ := List.cons.inj htext
    have htext : Boundary text := (tokenOf_append (boundary_line b)).symm.trans hafter
    rw [afterLonePoint?_eq_some.mpr ⟨rfl, htext⟩] at h
    cases h

/-- What a list is made of: its end, the tail behind a point, or an item in front of more. -/
theorem readItems_succ_eq_ok :
    readItems comments reader (n + 1) seen cs = .ok (datum, rest) ↔
      ∃ text, skipSpace comments cs = .ok text ∧
        ((text = ')' :: rest ∧ datum = .list seen.reverse) ∨
          (text ≠ [] ∧ (∀ r, text ≠ ')' :: r) ∧
            ((∃ after, afterLonePoint? text = some after ∧ seen ≠ [] ∧
                readTail comments reader seen.reverse after = .ok (datum, rest)) ∨
              (afterLonePoint? text = none ∧ ∃ item behind, reader text = .ok (item, behind) ∧
                readItems comments reader n (item :: seen) behind = .ok (datum, rest))))) := by
  rw [readItems]
  constructor
  · intro h
    split at h
    next => cases h
    next => cases h
    next hskip =>
      cases h
      exact ⟨_, hskip, .inl ⟨rfl, rfl⟩⟩
    next text hne hclose hskip =>
      refine ⟨text, hskip, .inr ⟨hne, hclose, ?_⟩⟩
      split at h
      next after hpoint =>
        split at h
        next => cases h
        next hseen => exact .inl ⟨after, hpoint, fun hnil => hseen (by rw [hnil]; rfl), h⟩
      next hpoint =>
        cases hitem : reader text with
        | error stuck =>
          rw [hitem] at h
          cases h
        | ok read =>
          rw [hitem] at h
          exact .inr ⟨hpoint, _, _, rfl, h⟩
  · rintro ⟨text, hskip, ⟨rfl, rfl⟩ | ⟨hne, hclose, hmore⟩⟩
    · rw [hskip]
      rfl
    · rw [hskip]
      split
      next heq => cases heq
      next heq => exact absurd (Except.ok.inj heq) hne
      next heq => exact absurd (Except.ok.inj heq) (hclose _)
      next heq =>
        cases heq
        obtain ⟨after, hpoint, hseen, htail⟩ | ⟨hpoint, item, behind, hitem, hitems⟩ := hmore
        · have hopen : ¬ seen.isEmpty = true := fun hempty => hseen (List.isEmpty_iff.mp hempty)
          rw [hpoint]
          dsimp only
          rw [if_neg hopen, htail]
        · rw [hpoint]
          dsimp only
          rw [hitem]
          exact hitems

/-- A list is read as well when a line follows, also with more items allowed. -/
theorem ReadsOn.items (hreader : ReadsOn reader)
    (h : readItems comments reader n seen cs = .ok (datum, rest)) :
    rest.length < cs.length ∧ ∀ b m, n ≤ m →
      readItems comments reader m seen (cs ++ '\n' :: b) = .ok (datum, rest ++ '\n' :: b) := by
  induction n generalizing seen cs with
  | zero => cases h
  | succ n ih =>
    obtain ⟨text, hskip, hcases⟩ := readItems_succ_eq_ok.mp h
    have hle := skipSpace_length_le hskip
    obtain ⟨rfl, rfl⟩ | ⟨hne, hclose, hmore⟩ := hcases
    · rw [List.length_cons] at hle
      refine ⟨by omega, fun b m hm => ?_⟩
      obtain ⟨m, rfl⟩ : ∃ k, m = k + 1 := ⟨m - 1, by omega⟩
      have hskip' := skipSpace_append b (List.cons_ne_nil _ _) hskip
      exact readItems_succ_eq_ok.mpr ⟨_, hskip', .inl ⟨rfl, rfl⟩⟩
    · have hclose' : ∀ b r, text ++ '\n' :: b ≠ ')' :: r :=
        append_line_ne_cons (by decide) hclose
      have hne' : ∀ b, text ++ '\n' :: b ≠ [] := fun b =>
        List.append_ne_nil_of_left_ne_nil hne _
      obtain ⟨after, hpoint, hseen, htail⟩ | ⟨hpoint, item, behind, hitem, hitems⟩ := hmore
      · have hlt := (hreader.tail seen.reverse).shorter htail
        have hafter : text.length = after.length + 1 := by
          rw [(afterLonePoint?_eq_some.mp hpoint).1, List.length_cons]
        refine ⟨by omega, fun b m hm => ?_⟩
        obtain ⟨m, rfl⟩ : ∃ k, m = k + 1 := ⟨m - 1, by omega⟩
        have htail' := (hreader.tail seen.reverse).behind htail b
        exact readItems_succ_eq_ok.mpr ⟨_, skipSpace_append b hne hskip, .inr
          ⟨hne' b, hclose' b, .inl ⟨_, afterLonePoint?_append b hpoint, hseen, htail'⟩⟩⟩
      · obtain ⟨hlt, hbehind⟩ := ih hitems
        have hitemlt := hreader.shorter hitem
        refine ⟨by omega, fun b m hm => ?_⟩
        obtain ⟨m, rfl⟩ : ∃ k, m = k + 1 := ⟨m - 1, by omega⟩
        have hitems' := hbehind b m (by omega)
        exact readItems_succ_eq_ok.mpr ⟨_, skipSpace_append b hne hskip, .inr
          ⟨hne' b, hclose' b, .inr
            ⟨afterLonePoint?_append_eq_none b hpoint, item, _, hreader.behind hitem b, hitems'⟩⟩⟩

theorem ReadsOn.list (hreader : ReadsOn reader) :
    ReadsOn fun cs => readItems comments reader (cs.length + 1) [] cs where
  shorter h := (hreader.items h).1
  behind {cs _ _} h b := by
    refine (hreader.items h).2 b _ ?_
    rw [List.length_append]
    omega

/-! ## Data -/

/-- What a reader gives behind blanks and a mark, it gives with a line that follows. -/
theorem ReadsOn.behind_mark (hreader : ReadsOn reader) (mark : List Char) {text : List Char}
    (hskip : skipSpace comments cs = .ok (mark ++ text)) (h : reader text = .ok (datum, rest)) :
    rest.length < cs.length ∧ ∀ b,
      skipSpace comments (cs ++ '\n' :: b) = .ok (mark ++ (text ++ '\n' :: b)) ∧
        reader (text ++ '\n' :: b) = .ok (datum, rest ++ '\n' :: b) := by
  have hle := skipSpace_length_le hskip
  have hlt := hreader.shorter h
  have hne : mark ++ text ≠ [] := by
    apply List.append_ne_nil_of_right_ne_nil
    rintro rfl
    exact Nat.not_lt_zero _ hlt
  rw [List.length_append] at hle
  refine ⟨by omega, fun b => ⟨?_, hreader.behind h b⟩⟩
  rw [← List.append_assoc]
  exact skipSpace_append b hne hskip

/-- Which reader is asked for a datum is decided by the mark in front of it. -/
theorem readDatum_succ_cases {levels backquotes : Nat}
    (ih : ∀ backquotes, ReadsOn (readDatum comments levels backquotes))
    (h : readDatum comments (levels + 1) backquotes cs = .ok (datum, rest)) :
    ∃ mark text reader, skipSpace comments cs = .ok (mark ++ text) ∧ ReadsOn reader ∧
      reader text = .ok (datum, rest) ∧ ∀ cs' b,
        skipSpace comments cs' = .ok (mark ++ (text ++ '\n' :: b)) →
          readDatum comments (levels + 1) backquotes cs' = reader (text ++ '\n' :: b) := by
  rw [readDatum] at h
  split at h
  next => cases h
  next text hskip =>
    refine ⟨['\x27'], text, _, hskip, (ih backquotes).operand .quote, h, fun cs' b hskip' => ?_⟩
    rw [readDatum, hskip']
    rfl
  next text hskip =>
    refine ⟨['\x60'], text, _, hskip, (ih (backquotes + 1)).operand .backquote, h,
      fun cs' b hskip' => ?_⟩
    rw [readDatum, hskip']
    rfl
  next text hskip =>
    split at h
    next => cases h
    next hopen =>
      split at h
      next text =>
        refine ⟨[',', '@'], text, _, hskip, (ih (backquotes - 1)).operand .splice, h,
          fun cs' b hskip' => ?_⟩
        rw [readDatum, hskip']
        exact if_neg hopen
      next hsplice =>
        refine ⟨[','], text, _, hskip, (ih (backquotes - 1)).operand .unquote, h,
          fun cs' b hskip' => ?_⟩
        rw [readDatum, hskip']
        refine (if_neg hopen).trans ?_
        split
        next heq => exact absurd heq (append_line_ne_cons (by decide) hsplice b _)
        next => rfl
  next text hskip =>
    refine ⟨['('], text, _, hskip, (ih backquotes).list, h, fun cs' b hskip' => ?_⟩
    rw [readDatum, hskip']
    rfl
  next text hskip =>
    refine ⟨['"'], text, _, hskip, readsOn_readString [], h, fun cs' b hskip' => ?_⟩
    rw [readDatum, hskip']
    rfl
  next text hskip =>
    refine ⟨['#', '\\'], text, _, hskip, readsOn_readCharacter, h, fun cs' b hskip' => ?_⟩
    rw [readDatum, hskip']
    rfl
  next text hquote hbackquote hunquote hlist hstring hcharacter hskip =>
    refine ⟨[], text, _, hskip, readsOn_readAtom, h, fun cs' b hskip' => ?_⟩
    rw [readDatum, hskip', List.nil_append]
    -- a mark in front of the text and a line behind it is a mark in front of the text
    split
    next heq => cases heq
    next heq => exact absurd (Except.ok.inj heq) (append_line_ne_cons (by decide) hquote b _)
    next heq => exact absurd (Except.ok.inj heq) (append_line_ne_cons (by decide) hbackquote b _)
    next heq => exact absurd (Except.ok.inj heq) (append_line_ne_cons (by decide) hunquote b _)
    next heq => exact absurd (Except.ok.inj heq) (append_line_ne_cons (by decide) hlist b _)
    next heq => exact absurd (Except.ok.inj heq) (append_line_ne_cons (by decide) hstring b _)
    next heq =>
      obtain ⟨r, rfl⟩ := cons_of_append_line (by decide) (Except.ok.inj heq)
      obtain ⟨-, heq⟩ := List.cons.inj (Except.ok.inj heq)
      obtain ⟨r, rfl⟩ := cons_of_append_line (by decide) heq
      exact absurd rfl (hcharacter r)
    next heq => rw [← Except.ok.inj heq]

theorem readsOn_readDatum (levels backquotes : Nat) :
    ReadsOn (readDatum comments levels backquotes) := by
  induction levels generalizing backquotes with
  | zero =>
    constructor
    · intro _ _ _ h
      cases h
    · intro _ _ _ h
      cases h
  | succ levels ih =>
    constructor
    · intro cs datum rest h
      obtain ⟨mark, text, reader, hskip, hreader, hread, -⟩ := readDatum_succ_cases ih h
      exact (hreader.behind_mark mark hskip hread).1
    · intro cs datum rest h b
      obtain ⟨mark, text, reader, hskip, hreader, hread, hsame⟩ := readDatum_succ_cases ih h
      obtain ⟨hskip', hread'⟩ := (hreader.behind_mark mark hskip hread).2 b
      exact (hsame _ b hskip').trans hread'

/-! ## Whole texts -/

variable {options : ReadOptions} {backquotes : Nat}

/-- The first datum of a text and what follows it, or nothing where the text has none. -/
def nextDatum (options : ReadOptions) (backquotes : Nat) (cs : List Char) :
    Except Stuck (Option (Datum × List Char)) :=
  match skipSpace options.comments cs with
  | .error stuck => .error stuck
  | .ok [] => .ok none
  | .ok text =>
    match readDatum options.comments options.maxDepth backquotes text with
    | .error .noDatum => .error (.malformed text)
    | .error stuck => .error stuck
    | .ok read => .ok (some read)

theorem readTop_succ (n : Nat) (seen : List Datum) (cs : List Char) :
    readTop options backquotes (n + 1) seen cs =
      match nextDatum options backquotes cs with
      | .error stuck => .error stuck
      | .ok none => .ok seen.reverse
      | .ok (some (datum, rest)) => readTop options backquotes n (datum :: seen) rest := by
  rw [readTop]
  unfold nextDatum
  cases skipSpace options.comments cs with
  | error stuck => rfl
  | ok text =>
    cases text with
    | nil => rfl
    | cons c text =>
      dsimp only
      cases readDatum options.comments options.maxDepth backquotes (c :: text) with
      | error stuck => cases stuck <;> rfl
      | ok read => rfl

theorem nextDatum_eq_none :
    nextDatum options backquotes cs = .ok none ↔ skipSpace options.comments cs = .ok [] := by
  unfold nextDatum
  cases skipSpace options.comments cs with
  | error stuck => simp
  | ok text =>
    cases text with
    | nil => simp
    | cons c text =>
      dsimp only
      cases readDatum options.comments options.maxDepth backquotes (c :: text) with
      | error stuck => cases stuck <;> simp
      | ok read => simp

theorem nextDatum_eq_some :
    nextDatum options backquotes cs = .ok (some (datum, rest)) ↔
      ∃ text, skipSpace options.comments cs = .ok text ∧ text ≠ [] ∧
        readDatum options.comments options.maxDepth backquotes text = .ok (datum, rest) := by
  unfold nextDatum
  cases skipSpace options.comments cs with
  | error stuck => simp
  | ok text =>
    cases text with
    | nil => simp
    | cons c text =>
      dsimp only
      cases hread : readDatum options.comments options.maxDepth backquotes (c :: text) with
      | error stuck => cases stuck <;> simp [hread]
      | ok read => simp [hread]

theorem nextDatum_congr {cs' : List Char}
    (h : skipSpace options.comments cs = skipSpace options.comments cs') :
    nextDatum options backquotes cs = nextDatum options backquotes cs' := by
  unfold nextDatum
  rw [h]

theorem nextDatum_shorter (h : nextDatum options backquotes cs = .ok (some (datum, rest))) :
    rest.length < cs.length := by
  obtain ⟨text, hskip, -, hread⟩ := nextDatum_eq_some.mp h
  have hle := skipSpace_length_le hskip
  have hlt := (readsOn_readDatum _ _).shorter hread
  omega

theorem nextDatum_append (b : List Char)
    (h : nextDatum options backquotes cs = .ok (some (datum, rest))) :
    nextDatum options backquotes (cs ++ '\n' :: b) = .ok (some (datum, rest ++ '\n' :: b)) := by
  obtain ⟨text, hskip, hne, hread⟩ := nextDatum_eq_some.mp h
  exact nextDatum_eq_some.mpr ⟨_, skipSpace_append b hne hskip,
    List.append_ne_nil_of_left_ne_nil hne _, (readsOn_readDatum _ _).behind hread b⟩

/-- Once it covers the text, the bound on the number of data does not matter. -/
theorem readTop_bound {m : Nat} (hn : cs.length < n) (hm : cs.length < m) :
    readTop options backquotes n seen cs = readTop options backquotes m seen cs := by
  induction n generalizing m seen cs with
  | zero => omega
  | succ n ih =>
    obtain ⟨m, rfl⟩ : ∃ k, m = k + 1 := ⟨m - 1, by omega⟩
    rw [readTop_succ, readTop_succ]
    cases hnext : nextDatum options backquotes cs with
    | error stuck => rfl
    | ok next =>
      cases next with
      | none => rfl
      | some read =>
        have hlt := nextDatum_shorter hnext
        exact ih (by omega) (by omega)

/-- The data read before stand in front of the others. -/
theorem readTop_seen (n : Nat) (seen : List Datum) (cs : List Char) :
    readTop options backquotes n seen cs =
      (readTop options backquotes n [] cs).map (seen.reverse ++ ·) := by
  induction n generalizing seen cs with
  | zero => exact congrArg Except.ok (List.append_nil _).symm
  | succ n ih =>
    rw [readTop_succ, readTop_succ]
    cases hnext : nextDatum options backquotes cs with
    | error stuck => rfl
    | ok next =>
      cases next with
      | none => exact congrArg Except.ok (List.append_nil _).symm
      | some read =>
        obtain ⟨datum, rest⟩ := read
        dsimp only
        rw [ih (datum :: seen), ih [datum]]
        cases readTop options backquotes n [] rest with
        | error stuck => rfl
        | ok data =>
          show Except.ok ((datum :: seen).reverse ++ data) =
            Except.ok (seen.reverse ++ ([datum].reverse ++ data))
          rw [List.reverse_cons, List.append_assoc]
          rfl

/-- Behind a text that can be read to its end, reading goes on with the next line. -/
theorem readTop_append {m : Nat} {data : List Datum} {a b : List Char} (hn : a.length < n)
    (hm : (a ++ '\n' :: b).length < m) (ha : readTop options backquotes n seen a = .ok data) :
    readTop options backquotes m seen (a ++ '\n' :: b) =
      readTop options backquotes m data.reverse b := by
  have hlength : (a ++ '\n' :: b).length = a.length + (b.length + 1) := by
    rw [List.length_append, List.length_cons]
  induction n generalizing m seen a with
  | zero => omega
  | succ n ih =>
    obtain ⟨m, rfl⟩ : ∃ k, m = k + 1 := ⟨m - 1, by omega⟩
    rw [readTop_succ] at ha
    cases hnext : nextDatum options backquotes a with
    | error stuck =>
      rw [hnext] at ha
      cases ha
    | ok next =>
      rw [hnext] at ha
      cases next with
      | none =>
        cases ha
        rw [List.reverse_reverse, readTop_succ, readTop_succ]
        rw [nextDatum_congr (skipSpace_append_nil b (nextDatum_eq_none.mp hnext))]
      | some read =>
        obtain ⟨datum, rest⟩ := read
        have hlt := nextDatum_shorter hnext
        have hlength' : (rest ++ '\n' :: b).length = rest.length + (b.length + 1) := by
          rw [List.length_append, List.length_cons]
        rw [readTop_succ, nextDatum_append b hnext]
        dsimp only
        rw [ih (by omega) (by omega) ha hlength']
        exact readTop_bound (by omega) (by omega)

/-- The data of two texts on separate lines are those of the one and then those of the other. -/
theorem readTop_lines {m k : Nat} {data : List Datum} {a b : List Char} (hn : a.length < n)
    (hm : (a ++ '\n' :: b).length < m) (hk : b.length < k)
    (ha : readTop options backquotes n [] a = .ok data) :
    readTop options backquotes m [] (a ++ '\n' :: b) =
      (readTop options backquotes k [] b).map (data ++ ·) := by
  have hlength : (a ++ '\n' :: b).length = a.length + (b.length + 1) := by
    rw [List.length_append, List.length_cons]
  rw [readTop_append hn hm ha, readTop_bound (by omega) hk, readTop_seen, List.reverse_reverse]

theorem readData_eq_ok {source : String} {data : List Datum} :
    readData options source = .ok data ↔
      readTop options 0 (source.toList.length + 1) [] source.toList = .ok data := by
  unfold readData
  dsimp only
  split
  next heq => rw [heq, Except.ok.injEq, Except.ok.injEq]
  next heq => simp [heq]

end SmallLisp
