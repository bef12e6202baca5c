import SmallLisp.Proofs.Completion
import SmallLisp.Proofs.Progress

/-!
# Parsing by alternatives

A parser tries alternatives one after the other, each from the start of its text, and repeats what
is repeated for as long as the steps of a run are enough. It refuses a text that is not for it,
which lets the next alternative try; it fails where no other one is to be tried.

`Gives` says that a run has an end and gives what the reader gives. It does for the first parser,
that of blanks and comments: each part of a gap uses up text, so the repetition stops where nothing
is left to skip.
-/

namespace SmallLisp

/-! ## Parsers -/

/-- Why a parser gives no value. -/
inductive Halt where
  /-- The text is not for this parser. -/
  | refused (place : List Char)
  | failed (stuck : Stuck)

/-- A run of a parser. Its steps may not be enough. -/
abbrev ParseM := ExceptT Halt Option

section

variable {α : Type}

def refuse (place : List Char) : ParseM α := throw (.refused place)

def fail (stuck : Stuck) : ParseM α := throw (.failed stuck)

/-- No steps are left. -/
def exhausted : ParseM α := (none : Option (Except Halt α))

def isRefusal : Except Halt α → Bool
  | .error (.refused _) => true
  | _ => false

/-- The first alternative, or the second one where the first one refuses. -/
def orElse (first second : ParseM α) : ParseM α :=
  show Option (Except Halt α) from do
    let result ← (first : Option (Except Halt α))
    if isRefusal result then second else some result

end

/-- What follows a mark. -/
def tag (mark cs : List Char) : ParseM (List Char) :=
  if mark.isPrefixOf cs then pure (cs.drop mark.length) else refuse cs

/-- Repeat a parser until it refuses. It has to use up some text each time. -/
def many0 (p : List Char → ParseM (List Char)) : Nat → List Char → ParseM (List Char)
  | 0, _ => exhausted
  | n + 1, cs =>
    show Option (Except Halt (List Char)) from do
      match ← (p cs : Option (Except Halt (List Char))) with
      | .error (.refused _) => some (.ok cs)
      | .error halt => some (.error halt)
      | .ok rest => if rest.length = cs.length then refuse cs else many0 p n rest

/-! ## What a run gives -/

/-- What stops the reader refuses the text at `place` if no datum starts there. -/
def Stuck.halt (place : List Char) : Stuck → Halt
  | .noDatum => .refused place
  | stuck => .failed stuck

/-- What a reader gives, as the outcome of a parser that refuses at `place`. -/
def outcome {α : Type} (place : List Char) (result : Except Stuck α) : ParseM α :=
  show Option (Except Halt α) from some (result.mapError (Stuck.halt place))

/-- A run comes to what the reader gives, and refuses at `place` where no datum starts. -/
def Gives {α : Type} (place : List Char) (run : Nat → ParseM α) (result : Except Stuck α) : Prop :=
  Completes run (result.mapError (Stuck.halt place))

section

variable {α β : Type} {mark cs place : List Char} {run : Nat → ParseM α}
  {next : Nat → α → ParseM β} {result : Except Stuck β}

theorem Gives.of_eq {result : Except Stuck α} (h : ∀ n, run n = outcome place result) :
    Gives place run result :=
  ⟨0, fun n _ => h n⟩

theorem Gives.step {result : Except Stuck α} (h : Gives place (fun n => run (n + 1)) result) :
    Gives place run result :=
  Completes.step h

/-- A run that leaves out its first step comes to the same. -/
theorem Gives.succ {result : Except Stuck α} (h : Gives place run result) :
    Gives place (fun n => run (n + 1)) result :=
  Completes.succ h

/-- A run goes on with what it has come to. -/
theorem Gives.completes {a : α} {result : Except Halt β} (h : Gives place run (.ok a))
    (h' : Completes (fun n => next n a) result) :
    Completes (fun n => (run n >>= next n : ParseM β)) result :=
  Completes.bind h h'

/-- Where a run that goes on would have been refused does not matter. -/
theorem Gives.bind {a : α} {place' : List Char} (h : Gives place run (.ok a))
    (h' : Gives place' (fun n => next n a) result) :
    Gives place' (fun n => run n >>= next n) result :=
  h.completes h'

theorem Gives.error {stuck : Stuck} (h : Gives place run (.error stuck)) :
    Gives place (fun n => run n >>= next n) (.error stuck) :=
  Completes.bind h (.const _)

theorem orElse_refuse (second : ParseM α) : orElse (refuse place) second = second := rfl

theorem tag_other (h : ∀ rest, cs ≠ mark ++ rest) : tag mark cs = refuse cs := by
  refine if_neg fun hprefix => ?_
  obtain ⟨rest, hrest⟩ := List.isPrefixOf_iff_prefix.mp hprefix
  exact h rest hrest.symm

end

/-! ## What stands between tokens -/

def blanks (cs : List Char) : ParseM (List Char) :=
  let rest := cs.dropWhile Text.isSkipped
  if rest.length = cs.length then refuse cs else pure rest

def lineComment (cs : List Char) : ParseM (List Char) := do
  let rest ← tag [';'] cs
  return rest.dropWhile (· != '\n')

/-- What follows the first mark that closes a block. -/
def behindBlock? : List Char → Option (List Char)
  | [] => none
  | '|' :: '#' :: rest => some rest
  | _ :: rest => behindBlock? rest

def blockComment (cs : List Char) : ParseM (List Char) := do
  let rest ← tag ['#', '|'] cs
  match behindBlock? rest with
  | some rest => return rest
  | none => fail .openComment

def gapPart (cs : List Char) : ParseM (List Char) :=
  orElse (blanks cs) (orElse (lineComment cs) (blockComment cs))

def parseSpace (comments : Bool) (n : Nat) (cs : List Char) : ParseM (List Char) :=
  if comments then many0 gapPart n cs else pure (cs.dropWhile Text.isSkipped)

/-! ## Skipping -/

section

variable {comments : Bool} {cs : List Char}

theorem skipGap_blanks (cs : List Char) :
    skipGap comments .between (cs.dropWhile Text.isSkipped) = skipGap comments .between cs := by
  induction cs with
  | nil => rfl
  | cons c cs ih =>
    by_cases hc : Text.isSkipped c = true
    · rw [List.dropWhile_cons_of_pos hc, ih, skipGap_skipped hc]
    · rw [List.dropWhile_cons_of_neg hc]

/-- A line comment ends where the line does, and the line feed is skipped. -/
theorem skipGap_line (cs : List Char) :
    skipGap comments .between (cs.dropWhile (· != '\n')) = skipGap comments .line cs := by
  induction cs with
  | nil => rfl
  | cons c cs ih =>
    by_cases hc : c = '\n'
    · subst hc
      rfl
    · rw [List.dropWhile_cons_of_pos (by simpa using hc), ih, skipGap, if_neg (by simpa using hc)]

theorem skipGap_block (cs : List Char) :
    skipGap comments .block cs =
      match behindBlock? cs with
      | some rest => skipGap comments .between rest
      | none => .error .openComment := by
  fun_induction behindBlock? cs with
  | case1 => rfl
  | case2 rest => rfl
  | case3 c rest hno ih =>
    rw [skipGap]
    · exact ih
    · exact hno

/-- What does not start with anything to skip is left as it is. -/
theorem skipSpace_of_settled (h : startsGap comments cs = false) :
    skipSpace comments cs = .ok cs := by
  unfold startsGap at h
  split at h
  next rest => exact if_neg (Bool.eq_false_iff.mp h)
  next c rest hno =>
    obtain ⟨hskipped, hline⟩ := Bool.or_eq_false_iff.mp h
    rw [skipSpace, skipGap, if_neg (Bool.eq_false_iff.mp hskipped),
      if_neg (Bool.eq_false_iff.mp hline)]
    exact hno
  next => rfl

theorem startsGap_dropWhile (cs : List Char) :
    startsGap false (cs.dropWhile Text.isSkipped) = false := by
  induction cs with
  | nil => rfl
  | cons c cs ih =>
    by_cases hc : Text.isSkipped c = true
    · rw [List.dropWhile_cons_of_pos hc]
      exact ih
    · rw [List.dropWhile_cons_of_neg hc]
      unfold startsGap
      split
      next => rfl
      next heq =>
        cases heq
        rw [Bool.eq_false_iff.mpr hc]
        rfl
      next => rfl

theorem behindBlock?_shorter {behind : List Char} (h : behindBlock? cs = some behind) :
    behind.length < cs.length := by
  fun_induction behindBlock? cs with
  | case1 => cases h
  | case2 =>
    cases h
    simp only [List.length_cons]
    omega
  | case3 _ _ _ ih => exact Nat.lt_succ_of_lt (ih h)

/-- Skipping fails only in a block comment that is left open. -/
theorem skipGap_error {gap : Gap} {stuck : Stuck} (h : skipGap comments gap cs = .error stuck) :
    stuck = .openComment := by
  fun_induction skipGap comments gap cs with
  | case1 | case3 | case6 | case7 => cases h
  | case10 =>
    cases h
    rfl
  | case2 _ _ ih | case4 _ _ _ _ ih | case5 _ _ _ _ _ ih | case8 _ _ _ ih | case9 _ _ _ ih
  | case11 _ ih | case12 _ _ _ ih => exact ih h

/-- What one part of a gap comes to, beside what is skipped as a whole. -/
inductive GapPart (cs : List Char) : Prop where
  | refused {place : List Char} (hpart : gapPart cs = refuse place)
      (hskip : skipSpace true cs = .ok cs)
  | skipped {rest : List Char} (hpart : gapPart cs = pure rest) (hshorter : rest.length < cs.length)
      (hskip : skipSpace true cs = skipSpace true rest)
  | openComment (hpart : gapPart cs = fail .openComment)
      (hskip : skipSpace true cs = .error .openComment)

/-- Without a blank in front, a part of a gap is a comment. -/
theorem gapPart_comment {c : Char} {rest : List Char} (hc : ¬ Text.isSkipped c = true) :
    gapPart (c :: rest) = orElse (lineComment (c :: rest)) (blockComment (c :: rest)) := by
  have hblanks : blanks (c :: rest) = refuse (c :: rest) := by
    rw [blanks, List.dropWhile_cons_of_neg hc]
    exact if_pos rfl
  rw [gapPart, hblanks, orElse_refuse]

theorem gapPart_blanks {c : Char} {rest : List Char} (hc : Text.isSkipped c = true) :
    gapPart (c :: rest) = pure (rest.dropWhile Text.isSkipped) := by
  have hle := (List.dropWhile_suffix (l := rest) Text.isSkipped).length_le
  have hblanks : blanks (c :: rest) = pure (rest.dropWhile Text.isSkipped) := by
    rw [blanks, List.dropWhile_cons_of_pos hc]
    exact if_neg (by rw [List.length_cons]; omega)
  rw [gapPart, hblanks]
  rfl

theorem gapPart_cases (cs : List Char) : GapPart cs := by
  fun_cases startsGap true cs with
  | case1 rest =>
    have hpart : gapPart ('#' :: '|' :: rest) = blockComment ('#' :: '|' :: rest) :=
      gapPart_comment (by decide)
    have hskip : skipSpace true ('#' :: '|' :: rest) = _ := skipGap_block rest
    have hblock : blockComment ('#' :: '|' :: rest) =
        match behindBlock? rest with
        | some rest => pure rest
        | none => fail .openComment := rfl
    cases hbehind : behindBlock? rest with
    | none =>
      rw [hbehind] at hskip hblock
      exact .openComment (hpart.trans hblock) hskip
    | some behind =>
      rw [hbehind] at hskip hblock
      have hshorter := behindBlock?_shorter hbehind
      exact .skipped (hpart.trans hblock) (by simp only [List.length_cons]; omega) hskip
  | case2 c rest hno =>
    by_cases hskipped : Text.isSkipped c = true
    · have hle := (List.dropWhile_suffix (l := rest) Text.isSkipped).length_le
      refine .skipped (gapPart_blanks hskipped) (by rw [List.length_cons]; omega) ?_
      exact (skipGap_skipped hskipped).trans (skipGap_blanks rest).symm
    · by_cases hline : c = ';'
      · subst hline
        have hle := (List.dropWhile_suffix (l := rest) (· != '\n')).length_le
        have hpart : gapPart (';' :: rest) = pure (rest.dropWhile (· != '\n')) :=
          gapPart_comment hskipped
        exact .skipped hpart (by rw [List.length_cons]; omega) (skipGap_line rest).symm
      · have hrefused : gapPart (c :: rest) = refuse (c :: rest) := by
          rw [gapPart_comment hskipped, lineComment, tag_other, blockComment, tag_other]
          · rfl
          · rintro _ ⟨⟩
            exact hno _ rfl rfl
          · rintro _ ⟨⟩
            exact hline rfl
        refine .refused hrefused (skipSpace_of_settled ?_)
        rw [startsGap, Bool.eq_false_iff.mpr hskipped]
        · simpa using hline
        · exact hno
  | case3 => exact .refused rfl rfl

/-- Parts of a gap are skipped until there is none. -/
theorem gives_many0_gapPart (place cs : List Char) :
    Gives place (fun n => many0 gapPart n cs) (skipSpace true cs) := by
  -- what is skipped makes the text shorter, so the check for progress never refuses
  generalize hlength : cs.length = size
  induction size using Nat.strongRecOn generalizing cs with
  | ind size ih =>
    refine .step ?_
    cases gapPart_cases cs with
    | refused hpart hskip =>
      rw [hskip]
      refine .of_eq fun n => ?_
      rw [many0, hpart]
      rfl
    | @skipped rest hpart hshorter hskip =>
      have hrun (n : Nat) : many0 gapPart (n + 1) cs = many0 gapPart n rest := by
        rw [many0, hpart]
        exact if_neg (Nat.ne_of_lt hshorter)
      rw [hskip, funext hrun]
      exact ih _ (hlength ▸ hshorter) _ rfl
    | openComment hpart hskip =>
      rw [hskip]
      refine .of_eq fun n => ?_
      rw [many0, hpart]
      rfl

theorem gives_parseSpace (place cs : List Char) :
    Gives place (fun n => parseSpace comments n cs) (skipSpace comments cs) := by
  cases comments with
  | true => exact gives_many0_gapPart place cs
  | false =>
    have hskip : skipSpace false cs = .ok (cs.dropWhile Text.isSkipped) :=
      (skipGap_blanks cs).symm.trans (skipSpace_of_settled (startsGap_dropWhile cs))
    rw [hskip]
    exact .of_eq fun _ => rfl

end

end SmallLisp
