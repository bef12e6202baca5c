import SmallLisp.Proofs.ReadingOn

/-!
# Regions of a text

Whether a blank separates tokens or belongs to one is decided by the text in front of it. A `Region`
is what has to be known of that text: an automaton goes through a text once, character by character,
without reading any datum. Two texts are `Reblanked` if they differ only in the blanks between
tokens, and a text is `Clear` if all of these can be skipped. This module says what skipping,
tokens, strings and characters do with such texts; `SmallLisp.Proofs.Spacing` goes on with data.
-/

namespace SmallLisp

/-- What the text in front of a character makes of it. -/
inductive Region where
  /-- A token may start. -/
  | gap
  /-- Behind a comma, to which an at sign would belong. -/
  | comma
  /-- Behind a number sign at the start of a token. -/
  | hash
  /-- Inside a token. -/
  | token
  /-- Behind the mark of a character, which follows whatever it is. -/
  | mark
  | string
  /-- Behind a backslash in a string. -/
  | escape
  /-- In a comment up to the end of the line. -/
  | line
  /-- In a block comment. -/
  | block
  /-- Behind a bar in a block comment. -/
  | bar
deriving DecidableEq, Repr

namespace Region

/-- Whether a blank stands between tokens. -/
def separates : Region → Bool
  | gap | comma | hash | token => true
  | _ => false

/-- The region behind a character that no token includes yet. -/
def opened (comments : Bool) (c : Char) : Region :=
  if c = '#' then hash
  else if c = ',' then comma
  else if c = '"' then string
  else if c == ';' && comments then line
  else if isDelimiter c then gap
  else token

/-- The region behind a character that a token would include. -/
def continued (comments : Bool) (c : Char) : Region :=
  if isDelimiter c then opened comments c else token

/-- The region behind a character. -/
def next (comments : Bool) : Region → Char → Region
  | gap, c => opened comments c
  | comma, c => if c = '@' then gap else opened comments c
  | hash, c =>
    if c = '\\' then mark
    else if c == '|' && comments then block
    else continued comments c
  | token, c => continued comments c
  | mark, c => if isDelimiter c then gap else token
  | string, c => if c = '"' then gap else if c = '\\' then escape else string
  | escape, _ => string
  | line, c => if c = '\n' then gap else line
  | block, c => if c = '|' then bar else block
  | bar, c => if c = '#' then gap else if c = '|' then bar else block

/-- The region behind a text. -/
def after (comments : Bool) (cs : List Char) (r : Region) : Region := cs.foldl (next comments) r

-- in strings, in characters and in comments no blank separates
example : ["(a", "`,", "#| a |#", "(\"a", "#\\", "; a"].map
    (fun text => (gap.after true text.toList).separates) =
      [true, true, true, false, false, false] := by
  decide

end Region

/-- A blank between tokens leaves no trace. -/
theorem Region.next_blank {comments : Bool} {r : Region} {c : Char} (hr : r.separates = true)
    (hc : Text.isBlank c = true) : r.next comments c = .gap := by
  have hne : ∀ d : Char, Text.isBlank d = false → c ≠ d := by
    rintro d hd rfl
    rw [hd] at hc
    cases hc
  have hdelimiter : isDelimiter c = true := by
    unfold isDelimiter
    rw [hc]
    rfl
  have hopened : opened comments c = gap := by
    have hline : ¬ (c == ';' && comments) = true := by simp [hne ';' rfl]
    rw [opened, if_neg (hne _ rfl), if_neg (hne _ rfl), if_neg (hne _ rfl), if_neg hline,
      if_pos hdelimiter]
  have hcontinued : continued comments c = gap := by rw [continued, if_pos hdelimiter, hopened]
  have hblock : ¬ (c == '|' && comments) = true := by simp [hne '|' rfl]
  cases r with
  | gap => exact hopened
  | comma => rw [next, if_neg (hne _ rfl), hopened]
  | hash => rw [next, if_neg (hne _ rfl), if_neg hblock, hcontinued]
  | token => exact hcontinued
  | mark | string | escape | line | block | bar => cases hr

/-! ## Texts that differ in blanks -/

/-- Two texts, both behind the same region, that differ only in blanks between tokens. These can be
skipped in both. -/
inductive Reblanked (comments : Bool) : Region → List Char → List Char → Prop
  | nil (r : Region) : Reblanked comments r [] []
  | same {r : Region} {c : Char} {cs cs' : List Char}
      (h : Reblanked comments (r.next comments c) cs cs') :
      Reblanked comments r (c :: cs) (c :: cs')
  | blank {r : Region} {c c' : Char} {cs cs' : List Char} (hr : r.separates = true)
      (hc : Text.isSkipped c = true) (hc' : Text.isSkipped c' = true)
      (h : Reblanked comments .gap cs cs') : Reblanked comments r (c :: cs) (c' :: cs')

/-- All blanks between tokens can be skipped. -/
def Clear (comments : Bool) : Region → List Char → Prop
  | _, [] => True
  | r, c :: cs =>
    (r.separates = true → Text.isBlank c = true → Text.isSkipped c = true) ∧
      Clear comments (r.next comments c) cs

/-- Two regions behind which a text is seen in the same way. -/
structure Region.Agree (comments : Bool) (r r' : Region) (cs : List Char) : Prop where
  separates : r.separates = r'.separates
  next : ∀ c t, cs = c :: t → r.next comments c = r'.next comments c

section

variable {comments : Bool} {r r' : Region} {c : Char} {cs cs' rest : List Char}

theorem Region.Agree.symm (h : Region.Agree comments r r' cs) : Region.Agree comments r' r cs :=
  ⟨h.separates.symm, fun c t hcs => (h.next c t hcs).symm⟩

/-! ### Two texts -/

namespace Reblanked

theorem refl (comments : Bool) (r : Region) (cs : List Char) : Reblanked comments r cs cs := by
  induction cs generalizing r with
  | nil => exact .nil r
  | cons c cs ih => exact .same (ih _)

theorem symm (h : Reblanked comments r cs cs') : Reblanked comments r cs' cs := by
  induction h with
  | nil r => exact .nil r
  | same h ih => exact .same ih
  | blank hr hc hc' h ih => exact .blank hr hc' hc ih

theorem length_eq (h : Reblanked comments r cs cs') : cs'.length = cs.length := by
  induction h with
  | nil r => rfl
  | same h ih | blank hr hc hc' h ih => rw [List.length_cons, List.length_cons, ih]

theorem eq_nil (h : Reblanked comments r [] cs') : cs' = [] := by
  cases h
  rfl

theorem ne_nil (h : Reblanked comments r cs cs') (hne : cs ≠ []) : cs' ≠ [] := by
  rintro rfl
  exact hne h.symm.eq_nil

/-- A character that cannot be skipped stands in both texts. -/
theorem cons (h : Reblanked comments r (c :: cs) cs') (hc : Text.isSkipped c = false) :
    ∃ t', cs' = c :: t' ∧ Reblanked comments (r.next comments c) cs t' := by
  cases h with
  | same h => exact ⟨_, rfl, h⟩
  | blank hr hskipped hc' h =>
    rw [hc] at hskipped
    cases hskipped

/-- Where no blank stands between tokens the texts have the same characters. -/
theorem cons_inside (h : Reblanked comments r (c :: cs) cs') (hr : r.separates = false) :
    ∃ t', cs' = c :: t' ∧ Reblanked comments (r.next comments c) cs t' := by
  cases h with
  | same h => exact ⟨_, rfl, h⟩
  | blank hseparates hc hc' h =>
    rw [hr] at hseparates
    cases hseparates

theorem cons_skipped (h : Reblanked comments .gap (c :: cs) cs') (hc : Text.isSkipped c = true) :
    ∃ c' t', cs' = c' :: t' ∧ Text.isSkipped c' = true ∧ Reblanked comments .gap cs t' := by
  cases h with
  | same h =>
    rw [Region.next_blank rfl (Text.isBlank_of_isSkipped hc)] at h
    exact ⟨c, _, rfl, hc, h⟩
  | blank hr hskipped hc' h => exact ⟨_, _, rfl, hc', h⟩

/-- No text starts with a character that cannot be skipped if the other one does not. -/
theorem ne_cons (h : Reblanked comments r cs cs') (hc : Text.isSkipped c = false)
    (hne : ∀ t, cs ≠ c :: t) (t' : List Char) : cs' ≠ c :: t' := by
  rintro rfl
  obtain ⟨t, rfl, -⟩ := h.symm.cons hc
  exact hne t rfl

theorem agree (h : Reblanked comments r cs cs') (hagree : r.Agree comments r' cs) :
    Reblanked comments r' cs cs' := by
  cases h with
  | nil => exact .nil r'
  | same h =>
    rw [hagree.next _ _ rfl] at h
    exact .same h
  | blank hr hc hc' h => exact .blank (hagree.separates ▸ hr) hc hc' h

/-- One blank between tokens is replaced. -/
theorem replaced {c' : Char} (before rest : List Char)
    (hr : (r.after comments before).separates = true) (hc : Text.isSkipped c = true)
    (hc' : Text.isSkipped c' = true) :
    Reblanked comments r (before ++ c :: rest) (before ++ c' :: rest) := by
  induction before generalizing r with
  | nil => exact .blank hr hc hc' (refl comments .gap rest)
  | cons d before ih => exact .same (ih hr)

end Reblanked

/-! ### One text -/

namespace Clear

theorem cons (hc : Text.isBlank c = false) (h : Clear comments (r.next comments c) cs) :
    Clear comments r (c :: cs) := by
  refine ⟨fun _ hblank => ?_, h⟩
  rw [hc] at hblank
  cases hblank

theorem cons_inside (hr : r.separates = false) (h : Clear comments (r.next comments c) cs) :
    Clear comments r (c :: cs) := by
  refine ⟨fun hseparates => ?_, h⟩
  rw [hr] at hseparates
  cases hseparates

theorem cons_skipped (hc : Text.isSkipped c = true) (h : Clear comments .gap cs) :
    Clear comments .gap (c :: cs) := by
  refine ⟨fun _ _ => hc, ?_⟩
  rw [Region.next_blank rfl (Text.isBlank_of_isSkipped hc)]
  exact h

theorem agree (h : Clear comments r cs) (hagree : r.Agree comments r' cs) :
    Clear comments r' cs := by
  cases cs with
  | nil => trivial
  | cons c cs =>
    refine ⟨fun hr => h.1 (hagree.separates ▸ hr), ?_⟩
    rw [← hagree.next c cs rfl]
    exact h.2

/-- In a clear text every blank between tokens can be skipped. -/
theorem skipped {before : List Char} (h : Clear comments r (before ++ c :: rest))
    (hr : (r.after comments before).separates = true) (hc : Text.isBlank c = true) :
    Text.isSkipped c = true := by
  induction before generalizing r with
  | nil => exact h.1 hr hc
  | cons d before ih => exact ih h.2 hr

end Clear

/-! ## Skipping -/

/-- The region of a skip. -/
def Gap.region : Gap → Region
  | .between => .gap
  | .line => .line
  | .block => .block

theorem skipGap_skipped (hc : Text.isSkipped c = true) :
    skipGap comments .between (c :: cs) = skipGap comments .between cs := by
  rw [skipGap, if_pos hc]
  rintro _ rfl
  cases hc

/-- A bar that closes no block comment is like any other character in it. -/
theorem agree_block (hopen : ∀ t, c = '|' → cs = '#' :: t → False) :
    (Region.next comments .block c).Agree comments .block cs := by
  by_cases hc : c = '|'
  · rw [Region.next, if_pos hc]
    refine ⟨rfl, fun d t hcs => ?_⟩
    have hd : d ≠ '#' := by
      rintro rfl
      exact hopen t hc hcs
    exact if_neg hd
  · rw [Region.next, if_neg hc]
    exact ⟨rfl, fun _ _ _ => rfl⟩

theorem skipGap_reblanked {gap : Gap} (h : skipGap comments gap cs = .ok rest)
    (hcs : Reblanked comments gap.region cs cs') :
    ∃ rest', skipGap comments gap cs' = .ok rest' ∧ Reblanked comments .gap rest rest' := by
  fun_induction skipGap comments gap cs generalizing cs' with
  | case1 | case7 =>
    cases h
    obtain rfl := hcs.eq_nil
    exact ⟨[], rfl, .nil _⟩
  | case2 text hcomments ih =>
    subst hcomments
    obtain ⟨_, rfl, hbar⟩ := hcs.cons rfl
    obtain ⟨text', rfl, htext⟩ := hbar.cons rfl
    obtain ⟨rest', hskip, hrest⟩ := ih h htext
    exact ⟨rest', hskip, hrest⟩
  | case3 text hcomments =>
    cases h
    obtain ⟨_, rfl, hbar⟩ := hcs.cons rfl
    obtain ⟨text', rfl, -⟩ := hbar.cons rfl
    refine ⟨_, ?_, hcs⟩
    rw [skipGap, if_neg hcomments]
  | case4 c text hno hskipped ih =>
    obtain ⟨c', text', rfl, hc', htext⟩ := hcs.cons_skipped hskipped
    rw [skipGap_skipped hc']
    exact ih h htext
  | case5 c text hno hskipped hline ih =>
    obtain ⟨rfl, hc⟩ := Bool.and_eq_true_iff.mp hline
    obtain rfl := beq_iff_eq.mp hc
    obtain ⟨text', rfl, htext⟩ := hcs.cons rfl
    obtain ⟨rest', hskip, hrest⟩ := ih h htext
    exact ⟨rest', hskip, hrest⟩
  | case6 c text hno hskipped hline =>
    cases h
    obtain ⟨text', rfl, htext⟩ := hcs.cons (Bool.eq_false_iff.mpr hskipped)
    refine ⟨_, ?_, hcs⟩
    rw [skipGap, if_neg hskipped, if_neg hline]
    exact fun t hc => htext.ne_cons rfl (fun t' => hno t' hc) t
  | case8 c text hend ih =>
    obtain rfl := beq_iff_eq.mp hend
    obtain ⟨text', rfl, htext⟩ := hcs.cons_inside rfl
    exact ih h htext
  | case9 c text hend ih =>
    obtain ⟨text', rfl, htext⟩ := hcs.cons_inside rfl
    have hc : c ≠ '\n' := fun hc => hend (beq_iff_eq.mpr hc)
    have hregion : Region.next comments .line c = .line := if_neg hc
    rw [Gap.region, hregion] at htext
    rw [skipGap, if_neg hend]
    exact ih h htext
  | case10 => cases h
  | case11 text ih =>
    obtain ⟨_, rfl, hsign⟩ := hcs.cons rfl
    obtain ⟨text', rfl, htext⟩ := hsign.cons rfl
    exact ih h htext
  | case12 c text hno ih =>
    obtain ⟨text', rfl, htext⟩ := hcs.cons_inside rfl
    rw [skipGap]
    · exact ih h (htext.agree (agree_block hno))
    · exact fun t hc => htext.ne_cons rfl (fun t' => hno t' hc) t

theorem skipGap_clear {gap : Gap} (h : skipGap comments gap cs = .ok rest)
    (hrest : Clear comments .gap rest) : Clear comments gap.region cs := by
  fun_induction skipGap comments gap cs with
  | case1 | case7 => trivial
  | case2 text hcomments ih =>
    subst hcomments
    exact .cons rfl (.cons rfl (ih h))
  | case3 | case6 =>
    cases h
    exact hrest
  | case4 c text hno hskipped ih => exact .cons_skipped hskipped (ih h)
  | case5 c text hno hskipped hline ih =>
    obtain ⟨rfl, hc⟩ := Bool.and_eq_true_iff.mp hline
    obtain rfl := beq_iff_eq.mp hc
    exact .cons rfl (ih h)
  | case8 c text hend ih =>
    obtain rfl := beq_iff_eq.mp hend
    exact .cons_inside rfl (ih h)
  | case9 c text hend ih =>
    have hc : c ≠ '\n' := fun hc => hend (beq_iff_eq.mpr hc)
    have hregion : Region.next comments .line c = .line := if_neg hc
    refine .cons_inside rfl ?_
    rw [Gap.region, hregion]
    exact ih h
  | case10 => cases h
  | case11 text ih => exact .cons rfl (.cons rfl (ih h))
  | case12 c text hno ih =>
    exact .cons_inside rfl ((ih h).agree (agree_block hno).symm)

/-! ## Tokens -/

theorem isBlank_of_not_isDelimiter (hc : isDelimiter c = false) : Text.isBlank c = false := by
  cases hblank : Text.isBlank c with
  | false => rfl
  | true =>
    rw [isDelimiter, hblank] at hc
    cases hc

theorem isSkipped_of_not_isDelimiter (hc : isDelimiter c = false) : Text.isSkipped c = false :=
  Bool.eq_false_iff.mpr fun hskipped =>
    Bool.eq_false_iff.mp hc (isDelimiter_of_isSkipped hskipped)

theorem tokenOf_cons (hc : isDelimiter c = false) : tokenOf (c :: cs) = c :: tokenOf cs := by
  rw [tokenOf, List.takeWhile_cons, hc]
  rfl

theorem afterToken_cons (hc : isDelimiter c = false) : afterToken (c :: cs) = afterToken cs := by
  rw [afterToken, List.dropWhile_cons, hc]
  rfl

theorem exists_cons_of_tokenOf (h : tokenOf cs ≠ []) :
    ∃ c t, cs = c :: t ∧ isDelimiter c = false := by
  cases cs with
  | nil => exact absurd rfl h
  | cons c t =>
    refine ⟨c, t, rfl, ?_⟩
    cases hc : isDelimiter c with
    | false => rfl
    | true => exact absurd (boundary_cons hc t) h

/-- Where a token ends another one may start. -/
theorem Boundary.agree (h : Boundary cs) : Region.Agree comments .token .gap cs := by
  refine ⟨rfl, ?_⟩
  rintro c t rfl
  exact if_pos h.isDelimiter

theorem tokenOf_reblanked (hcs : Reblanked comments .token cs cs') :
    tokenOf cs' = tokenOf cs ∧ Reblanked comments .gap (afterToken cs) (afterToken cs') := by
  induction cs generalizing cs' with
  | nil =>
    obtain rfl := hcs.eq_nil
    exact ⟨rfl, .nil _⟩
  | cons c cs ih =>
    cases hc : isDelimiter c with
    | true =>
      have hboundary := boundary_cons hc cs
      have hboundary' : Boundary cs' := by
        cases hcs with
        | same => exact boundary_cons hc _
        | blank hr hskipped hskipped' h =>
          exact boundary_cons (isDelimiter_of_isSkipped hskipped') _
      rw [hboundary.afterToken, hboundary'.afterToken]
      exact ⟨hboundary'.trans hboundary.symm, hcs.agree hboundary.agree⟩
    | false =>
      obtain ⟨t', rfl, ht⟩ := hcs.cons (isSkipped_of_not_isDelimiter hc)
      have hregion : Region.next comments .token c = .token := if_neg (Bool.eq_false_iff.mp hc)
      rw [hregion] at ht
      obtain ⟨htoken, hafter⟩ := ih ht
      rw [tokenOf_cons hc, tokenOf_cons hc, afterToken_cons hc, afterToken_cons hc, htoken]
      exact ⟨rfl, hafter⟩

theorem tokenOf_clear (h : Clear comments .gap (afterToken cs)) : Clear comments .token cs := by
  induction cs with
  | nil => trivial
  | cons c cs ih =>
    cases hc : isDelimiter c with
    | true =>
      have hboundary := boundary_cons hc cs
      rw [hboundary.afterToken] at h
      exact h.agree hboundary.agree.symm
    | false =>
      rw [afterToken_cons hc] at h
      refine .cons (isBlank_of_not_isDelimiter hc) ?_
      rw [Region.next, Region.continued, if_neg (Bool.eq_false_iff.mp hc)]
      exact ih h

theorem Region.opened_token (hc : isDelimiter c = false) (hhash : c ≠ '#') :
    opened comments c = token := by
  have hne : ∀ d : Char, isDelimiter d = true → c ≠ d := by
    rintro d hd rfl
    rw [hc] at hd
    cases hd
  have hline : ¬ (c == ';' && comments) = true := by simp [hne ';' rfl]
  rw [opened, if_neg hhash, if_neg (hne _ rfl), if_neg (hne _ rfl), if_neg hline,
    if_neg (Bool.eq_false_iff.mp hc)]

/-- Behind a region the first character of a token is in the token, as its others are. -/
def Region.Starts (comments : Bool) (r : Region) (cs : List Char) : Prop :=
  ∀ c t, cs = c :: t → isDelimiter c = false → (r.next comments c).Agree comments .token t

theorem Region.starts_mark (cs : List Char) : Region.Starts comments .mark cs := by
  intro c t _ hc
  rw [Region.next, if_neg (Bool.eq_false_iff.mp hc)]
  exact ⟨rfl, fun _ _ _ => rfl⟩

theorem Region.Starts.reblanked (hstart : r.Starts comments cs) (htoken : tokenOf cs ≠ [])
    (hcs : Reblanked comments r cs cs') :
    tokenOf cs' = tokenOf cs ∧ Reblanked comments .gap (afterToken cs) (afterToken cs') := by
  obtain ⟨c, t, rfl, hc⟩ := exists_cons_of_tokenOf htoken
  obtain ⟨t', rfl, ht⟩ := hcs.cons (isSkipped_of_not_isDelimiter hc)
  obtain ⟨htoken', hafter⟩ := tokenOf_reblanked (ht.agree (hstart c t rfl hc))
  rw [tokenOf_cons hc, tokenOf_cons hc, afterToken_cons hc, afterToken_cons hc, htoken']
  exact ⟨rfl, hafter⟩

theorem Region.Starts.clear (hstart : r.Starts comments cs) (htoken : tokenOf cs ≠ [])
    (h : Clear comments .gap (afterToken cs)) : Clear comments r cs := by
  obtain ⟨c, t, rfl, hc⟩ := exists_cons_of_tokenOf htoken
  rw [afterToken_cons hc] at h
  exact .cons (isBlank_of_not_isDelimiter hc) ((tokenOf_clear h).agree (hstart c t rfl hc).symm)

/-! ## Strings and characters -/

variable {datum : Datum} {seen : List Char}

/-- A character of a string that neither ends it nor starts an escape. -/
theorem Region.next_string (comments : Bool) (hquote : c ≠ '"')
    (hend : c = '\\' → cs = [] → False)
    (hescape : ∀ d t, c = '\\' → cs = d :: t → False) :
    c ≠ '\\' ∧ Region.next comments .string c = .string := by
  have hslash : c ≠ '\\' := by
    cases cs with
    | nil => exact fun hc => hend hc rfl
    | cons d t => exact fun hc => hescape d t hc rfl
  exact ⟨hslash, by rw [next, if_neg hquote, if_neg hslash]⟩

theorem readString_reblanked (h : readString seen cs = .ok (datum, rest))
    (hcs : Reblanked comments .string cs cs') :
    ∃ rest', readString seen cs' = .ok (datum, rest') ∧ Reblanked comments .gap rest rest' := by
  fun_induction readString seen cs generalizing cs' with
  | case1 | case3 | case5 => cases h
  | case2 seen text =>
    cases h
    obtain ⟨text', rfl, htext⟩ := hcs.cons rfl
    exact ⟨text', rfl, htext⟩
  | case4 seen c text e he ih =>
    obtain ⟨_, rfl, hescaped⟩ := hcs.cons rfl
    obtain ⟨text', rfl, htext⟩ := hescaped.cons_inside rfl
    rw [readString, he]
    exact ih h htext
  | case6 seen c text hquote hend hescape ih =>
    obtain ⟨text', rfl, htext⟩ := hcs.cons_inside rfl
    obtain ⟨hslash, hregion⟩ := Region.next_string comments hquote hend hescape
    rw [hregion] at htext
    rw [readString]
    · exact ih h htext
    · exact hquote
    · exact fun hc => absurd hc hslash
    · exact fun _ _ hc => absurd hc hslash

theorem readString_clear (h : readString seen cs = .ok (datum, rest))
    (hrest : Clear comments .gap rest) : Clear comments .string cs := by
  fun_induction readString seen cs with
  | case1 | case3 | case5 => cases h
  | case2 seen text =>
    cases h
    exact .cons rfl hrest
  | case4 seen c text e he ih => exact .cons rfl (.cons_inside rfl (ih h))
  | case6 seen c text hquote hend hescape ih =>
    have hregion := (Region.next_string comments hquote hend hescape).2
    refine .cons_inside rfl ?_
    rw [hregion]
    exact ih h

theorem readCharacter_reblanked (h : readCharacter cs = .ok (datum, rest))
    (hcs : Reblanked comments .mark cs cs') :
    ∃ rest', readCharacter cs' = .ok (datum, rest') ∧ Reblanked comments .gap rest rest' := by
  obtain ⟨c, htoken, rfl, rfl⟩ | ⟨htoken, rfl, hread⟩ := readCharacter_cases h
  · have hc : isDelimiter c = true := Boundary.isDelimiter htoken
    have hregion : Region.next comments .mark c = .gap := if_pos hc
    obtain ⟨rest', rfl, hrest⟩ := hcs.cons_inside rfl
    rw [hregion] at hrest
    refine ⟨rest', ?_, hrest⟩
    have htoken' : tokenOf (c :: rest') = [] := boundary_cons hc rest'
    unfold readCharacter
    rw [htoken']
  · obtain ⟨htoken', hafter⟩ := (Region.starts_mark cs).reblanked htoken hcs
    exact ⟨_, hread _ htoken', hafter⟩

theorem readCharacter_clear (h : readCharacter cs = .ok (datum, rest))
    (hrest : Clear comments .gap rest) : Clear comments .mark cs := by
  obtain ⟨c, htoken, rfl, rfl⟩ | ⟨htoken, rfl, hread⟩ := readCharacter_cases h
  · have hregion : Region.next comments .mark c = .gap := if_pos (Boundary.isDelimiter htoken)
    refine .cons_inside rfl ?_
    rw [hregion]
    exact hrest
  · exact (Region.starts_mark cs).clear htoken hrest

end

end SmallLisp
