import SmallLisp.Proofs.Alternatives

/-!
# Parsing data

`readDatum` looks at the start of a text and then knows what to read, and its loops are bounded by
the length of the text. Here the kinds of data are alternatives, and lists and whole texts are
parsed item by item without a bound. `completes_parseData` and what stands before it say that every
run has an end: it gives what the reader gives. What makes it end is that a datum uses up text and
that levels are limited.
-/

namespace SmallLisp

/-! ## Tokens -/

/-- A datum with the text that follows it. -/
abbrev Parsed := Datum × List Char

/-- The rest of a string after its opening quote, with the characters so far in reverse. -/
def parseChars : Nat → List Char → List Char → ParseM Parsed
  | 0, _, _ => exhausted
  | _ + 1, _, [] => fail .unexpectedEnd
  | _ + 1, seen, '"' :: rest => return (.string (String.ofList seen.reverse), rest)
  | _ + 1, _, ['\\'] => fail (.malformed ['\\'])
  | n + 1, seen, '\\' :: c :: rest =>
    match escaped? c with
    | some e => parseChars n (e :: seen) rest
    | none => fail (.malformed ('\\' :: c :: rest))
  | n + 1, seen, c :: rest => parseChars n (c :: seen) rest

def parseString (n : Nat) (cs : List Char) : ParseM Parsed := do
  let rest ← tag ['"'] cs
  parseChars n [] rest

def parseCharacter (cs : List Char) : ParseM Parsed := do
  let rest ← tag ['#', '\\'] cs
  outcome rest (readCharacter rest)

def parseAtom (cs : List Char) : ParseM Parsed := outcome cs (readAtom cs)

def parseToken (n : Nat) (cs : List Char) : ParseM Parsed :=
  orElse (parseString n cs) (orElse (parseCharacter cs) (parseAtom cs))

/-! ## Data -/

def marked (kind : QuoteKind) (mark cs : List Char) : ParseM (QuoteKind × List Char) := do
  let rest ← tag mark cs
  return (kind, rest)

def parseMark (cs : List Char) : ParseM (QuoteKind × List Char) :=
  orElse (marked .quote ['\x27'] cs) (orElse (marked .backquote ['\x60'] cs)
    (orElse (marked .splice [',', '@'] cs) (marked .unquote [','] cs)))

/-- The closing parenthesis behind the tail of a list. -/
def parseClose (comments : Bool) (n : Nat) (datum : Datum) (cs : List Char) : ParseM Parsed := do
  let text ← parseSpace comments n cs
  match text with
  | [] => fail .unexpectedEnd
  | ')' :: rest => return (datum, rest)
  | text => fail (.missingClose text)

mutual

/-- Parse one datum inside `depth` others, with `backquotes` backquotes open. -/
def parseDatum (options : ReadOptions) : Nat → Nat → Nat → List Char → ParseM Parsed
  | 0, _, _, _ => exhausted
  | n + 1, depth, backquotes, cs =>
    if options.maxDepth ≤ depth then fail .tooDeep
    else do
      let text ← parseSpace options.comments n cs
      orElse (parseQuoted options n depth backquotes text)
        (orElse (parseList options n depth backquotes text) (parseToken n text))
termination_by structural n => n

def parseQuoted (options : ReadOptions) : Nat → Nat → Nat → List Char → ParseM Parsed
  | 0, _, _, _ => exhausted
  | n + 1, depth, backquotes, cs => do
    let (kind, rest) ← parseMark cs
    if kind.unquotes && backquotes == 0 then fail (.unquoteOutside cs)
    else
      let (operand, rest) ←
        parseDatum options n (depth + 1) (UnquoteRule.counting.opened kind backquotes) rest
      return (.quoted kind operand, rest)
termination_by structural n => n

def parseList (options : ReadOptions) : Nat → Nat → Nat → List Char → ParseM Parsed
  | 0, _, _, _ => exhausted
  | n + 1, depth, backquotes, cs => do
    let rest ← tag ['('] cs
    parseItems options n depth backquotes [] rest
termination_by structural n => n

/-- The rest of a list, with the items so far in reverse. -/
def parseItems (options : ReadOptions) :
    Nat → Nat → Nat → List Datum → List Char → ParseM Parsed
  | 0, _, _, _, _ => exhausted
  | n + 1, depth, backquotes, seen, cs => do
    let text ← parseSpace options.comments n cs
    parseFurther options n depth backquotes seen text
termination_by structural n => n

/-- The end of a list, its tail, or one more item and what follows it. -/
def parseFurther (options : ReadOptions) :
    Nat → Nat → Nat → List Datum → List Char → ParseM Parsed
  | 0, _, _, _, _ => exhausted
  | _ + 1, _, _, _, [] => fail .unexpectedEnd
  | _ + 1, _, _, seen, ')' :: rest => return (.list seen.reverse, rest)
  | n + 1, depth, backquotes, seen, text =>
    match afterLonePoint? text with
    | some afterPoint =>
      if seen.isEmpty then fail (.malformed text)
      else do
        let (tail, rest) ← parseDatum options n (depth + 1) backquotes afterPoint
        parseClose options.comments n (.dotted seen.reverse tail) rest
    | none => do
      let (item, rest) ← parseDatum options n (depth + 1) backquotes text
      parseItems options n depth backquotes (item :: seen) rest
termination_by structural n => n

end

/-- Parse data up to the end of the text, with the data so far in reverse. -/
def parseTop (options : ReadOptions) : Nat → List Datum → List Char → ParseM (List Datum)
  | 0, _, _ => exhausted
  | n + 1, seen, cs => do
    let text ← parseSpace options.comments n cs
    match text with
    | [] => return seen.reverse
    | text =>
      let (datum, rest) ← parseDatum options n 0 0 text
      parseTop options n (datum :: seen) rest

/-- What is wrong with a text where a parser halts. -/
def Halt.stuck : Halt → Stuck
  | .refused place => .malformed place
  | .failed stuck => stuck

/-- Parse every datum of a text. -/
def parseData (options : ReadOptions) (n : Nat) (source : String) :
    Option (Except Fault (List Datum)) := do
  let cs := source.toList
  match ← (parseTop options n [] cs : Option (Except Halt (List Datum))) with
  | .ok data => some (.ok data)
  | .error halt => some (.error (.parse (halt.stuck.toFault options cs)))

/-! ## What tokens give -/

theorem gives_parseChars (place seen cs : List Char) :
    Gives place (fun n => parseChars n seen cs) (readString seen cs) := by
  fun_induction readString seen cs with
  | case1 | case2 | case3 => exact .step (.of_eq fun _ => rfl)
  | case4 seen c rest e he ih =>
    have hrun (n : Nat) :
        parseChars (n + 1) seen ('\\' :: c :: rest) = parseChars n (e :: seen) rest := by
      rw [parseChars, he]
    exact .step (funext hrun ▸ ih)
  | case5 seen c rest he =>
    refine .step (.of_eq fun n => ?_)
    rw [parseChars, he]
    rfl
  | case6 seen c rest hquote hend hescape ih =>
    have hrun (n : Nat) : parseChars (n + 1) seen (c :: rest) = parseChars n (c :: seen) rest := by
      rw [parseChars]
      · exact hquote
      · exact hend
      · exact hescape
    exact .step (funext hrun ▸ ih)

/-! ## What data give -/

variable {options : ReadOptions} {levels depth backquotes : Nat} {cs : List Char}

theorem marked_other {kind : QuoteKind} {mark : List Char} (h : ∀ rest, cs ≠ mark ++ rest) :
    marked kind mark cs = refuse cs := by
  rw [marked, tag_other h]
  rfl

/-- The start of a datum decides which mark there is. -/
theorem parseMark_eq (cs : List Char) :
    parseMark cs =
      match lead cs with
      | .mark kind rest => pure (kind, rest)
      | _ => refuse cs := by
  fun_cases lead cs with
  | case1 | case2 | case3 | case5 | case6 | case7 => rfl
  | case4 rest hno =>
    have hsplice : marked .splice [',', '@'] (',' :: rest) = refuse (',' :: rest) :=
      marked_other fun r heq => hno r (List.cons.inj heq).2
    rw [parseMark, hsplice]
    rfl
  | case8 _ hquote hbackquote hsplice hcomma =>
    rw [parseMark, marked_other hquote, marked_other hbackquote, marked_other hsplice,
      marked_other hcomma]
    rfl

/-- No token starts with a delimiter other than a double quote. -/
theorem parseToken_delimiter {c : Char} (hc : isDelimiter c = true) (hquote : c ≠ '"')
    (n : Nat) (rest : List Char) : parseToken n (c :: rest) = refuse (c :: rest) := by
  have hstring : parseString n (c :: rest) = refuse (c :: rest) := by
    rw [parseString, tag_other]
    · rfl
    · rintro _ ⟨⟩
      exact hquote rfl
  have hcharacter : parseCharacter (c :: rest) = refuse (c :: rest) := by
    rw [parseCharacter, tag_other]
    · rfl
    · rintro _ ⟨⟩
      cases hc
  have hatom : readAtom (c :: rest) = .error .noDatum := by
    have htoken : tokenOf (c :: rest) = [] := boundary_cons hc rest
    rw [readAtom, htoken]
    rfl
  rw [parseToken, hstring, hcharacter, parseAtom, hatom]
  rfl

theorem gives_parseTail {reader : DatumReader} {items : List Datum} {place : List Char}
    {first : Nat → ParseM Parsed} (hfirst : Gives place first (reader cs)) :
    Gives place (fun n => first n >>= fun (tail, rest) =>
        parseClose options.comments n (.dotted items tail) rest)
      (readTail options.comments reader items cs) := by
  rw [readTail]
  cases hread : reader cs with
  | error stuck => exact (hread ▸ hfirst).error
  | ok read =>
    refine (hread ▸ hfirst).bind ?_
    have hspace : Gives place (fun n => parseSpace options.comments n read.2) _ :=
      gives_parseSpace place read.2
    dsimp only
    cases hskip : skipSpace options.comments read.2 with
    | error stuck => exact (hskip ▸ hspace).error
    | ok text =>
      refine (hskip ▸ hspace).bind ?_
      refine .of_eq fun _ => ?_
      split
      next => rfl
      next => rfl
      next hne hclose =>
        split
        next heq => cases heq
        next heq => exact absurd (Except.ok.inj heq) hne
        next heq => exact absurd (Except.ok.inj heq) (hclose _)
        next heq =>
          cases heq
          rfl

/-- Where a list goes on, there is the point in front of its tail or an item. -/
theorem readItems_further {comments : Bool} {reader : DatumReader} {n : Nat} {seen : List Datum}
    {text : List Char} (hskip : skipSpace comments cs = .ok text) (hne : text ≠ [])
    (hclose : ∀ rest, text ≠ ')' :: rest) :
    readItems comments reader (n + 1) seen cs =
      match afterLonePoint? text with
      | some afterPoint =>
        if seen.isEmpty then .error (.malformed text)
        else readTail comments reader seen.reverse afterPoint
      | none =>
        match reader text with
        | .error stuck => .error stuck
        | .ok (item, rest) => readItems comments reader n (item :: seen) rest := by
  rw [readItems, hskip]
  split
  next heq => cases heq
  next heq => exact absurd (Except.ok.inj heq) hne
  next heq => exact absurd (Except.ok.inj heq) (hclose _)
  next heq =>
    cases heq
    rfl

/-- Where the text is not over and does not close the list, its tail or one more item follows. -/
theorem parseFurther_eq {text : List Char} {seen : List Datum} (hend : text ≠ [])
    (hclose : ∀ rest, text ≠ ')' :: rest) (n : Nat) :
    parseFurther options (n + 1) depth backquotes seen text =
      match afterLonePoint? text with
      | some afterPoint =>
        if seen.isEmpty then fail (.malformed text)
        else parseDatum options n (depth + 1) backquotes afterPoint >>= fun (tail, rest) =>
          parseClose options.comments n (.dotted seen.reverse tail) rest
      | none =>
        parseDatum options n (depth + 1) backquotes text >>= fun (item, rest) =>
          parseItems options n depth backquotes (item :: seen) rest := by
  rw [parseFurther]
  · exact hend
  · exact hclose

/-- A list is parsed item by item without a bound; each item uses up text. -/
theorem gives_parseItems {reader : DatumReader} (hreader : ReadsOn reader)
    (hdatum : ∀ cs, ∃ place,
      Gives place (fun n => parseDatum options n (depth + 1) backquotes cs) (reader cs))
    {size : Nat} (seen : List Datum) (hsize : cs.length < size) :
    ∃ place, Gives place (fun n => parseItems options n depth backquotes seen cs)
      (readItems options.comments reader size seen cs) := by
  induction size generalizing seen cs with
  | zero => exact absurd hsize (Nat.not_lt_zero _)
  | succ size ih =>
    have hspace (place : List Char) :
        Gives place (fun n => parseSpace options.comments n cs) _ := gives_parseSpace place cs
    cases hskip : skipSpace options.comments cs with
    | error stuck =>
      have hread : readItems options.comments reader (size + 1) seen cs = .error stuck := by
        rw [readItems, hskip]
      rw [hread]
      exact ⟨cs, .step (hskip ▸ hspace cs).error⟩
    | ok text =>
      have hle := skipSpace_length_le hskip
      -- once the gap is skipped, the rest of the list is to be parsed from `text`
      suffices hrest : ∃ place,
          Gives place (fun n => parseFurther options (n + 1) depth backquotes seen text)
            (readItems options.comments reader (size + 1) seen cs) by
        obtain ⟨place, hrest⟩ := hrest
        exact ⟨place, .step ((hskip ▸ hspace place).bind (.step hrest))⟩
      by_cases hend : text = []
      · subst hend
        rw [readItems, hskip]
        exact ⟨cs, .of_eq fun _ => rfl⟩
      by_cases hclose : ∃ rest, text = ')' :: rest
      · obtain ⟨rest, rfl⟩ := hclose
        rw [readItems, hskip]
        exact ⟨cs, .of_eq fun _ => rfl⟩
      rw [readItems_further hskip hend (not_exists.mp hclose),
        funext (parseFurther_eq hend (not_exists.mp hclose))]
      cases afterLonePoint? text with
      | some afterPoint =>
        by_cases hseen : seen.isEmpty = true
        · simp only [hseen]
          exact ⟨cs, .of_eq fun _ => rfl⟩
        · simp only [hseen]
          obtain ⟨place, hplace⟩ := hdatum afterPoint
          exact ⟨place, gives_parseTail hplace⟩
      | none =>
        obtain ⟨place, hplace⟩ := hdatum text
        dsimp only
        cases hread : reader text with
        | error stuck => exact ⟨place, (hread ▸ hplace).error⟩
        | ok read =>
          have hshorter := hreader.shorter hread
          have hrestSize : read.2.length < size := by omega
          obtain ⟨place', hrest⟩ := ih (read.1 :: seen) hrestSize
          exact ⟨place', (hread ▸ hplace).bind hrest⟩

/-- A refusal is one of all alternatives, and it is of the text as a whole. -/
theorem orElse_outcome_refuse {place : List Char} (result : Except Stuck Parsed) :
    orElse (outcome place result) (refuse cs) = outcome cs result := by
  cases result with
  | ok read => rfl
  | error stuck => cases stuck <;> rfl

theorem Gives.orElse_refuse {run : Nat → ParseM Parsed} {result : Except Stuck Parsed}
    {place : List Char} (h : Gives place run result) :
    Gives cs (fun n => orElse (run n) (refuse cs)) result := by
  obtain ⟨n, hn⟩ := h
  refine ⟨n, fun m hm => ?_⟩
  have hrun : run m = outcome place result := hn m hm
  show orElse (run m) (refuse cs) = outcome cs result
  rw [hrun]
  exact orElse_outcome_refuse result

/-- What a reader that never refuses gives, no other alternative changes. -/
theorem orElse_outcome {place : List Char} {result : Except Stuck Parsed}
    (h : result ≠ .error .noDatum) (second : ParseM Parsed) :
    orElse (outcome place result) second = outcome cs result := by
  cases result with
  | ok read => rfl
  | error stuck =>
    cases stuck
    case noDatum => exact absurd rfl h
    all_goals rfl

theorem parseQuoted_other (h : ∀ kind rest, lead cs ≠ .mark kind rest) (n : Nat) :
    parseQuoted options (n + 1) depth backquotes cs = refuse cs := by
  rw [parseQuoted, parseMark_eq]
  split
  next heq => exact absurd heq (h _ _)
  next => rfl

theorem gives_parseQuoted {kind : QuoteKind} {rest place : List Char} {reader : Nat → DatumReader}
    (hlead : lead cs = .mark kind rest)
    (hdatum : Gives place
      (fun n => parseDatum options n (depth + 1) (UnquoteRule.counting.opened kind backquotes) rest)
      (reader (UnquoteRule.counting.opened kind backquotes) rest)) :
    Gives place (fun n => parseQuoted options n depth backquotes cs)
      (readOperand kind (UnquoteRule.counting.operand reader backquotes cs kind) rest) := by
  have hrefuses : UnquoteRule.counting.refuses backquotes = (backquotes == 0) := rfl
  have hrun (n : Nat) : parseQuoted options (n + 1) depth backquotes cs =
      if kind.unquotes && backquotes == 0 then fail (.unquoteOutside cs)
      else parseDatum options n (depth + 1) (UnquoteRule.counting.opened kind backquotes) rest >>=
        fun (operand, rest) => pure (.quoted kind operand, rest) := by
    rw [parseQuoted, parseMark_eq, hlead]
    rfl
  refine .step ?_
  rw [funext hrun, UnquoteRule.operand, hrefuses]
  by_cases houtside : (kind.unquotes && backquotes == 0) = true
  · simp only [houtside]
    exact .of_eq fun _ => rfl
  · simp only [houtside, readOperand, Bool.false_eq_true, if_false]
    cases hread : reader (UnquoteRule.counting.opened kind backquotes) rest with
    | error stuck => exact (hread ▸ hdatum).error
    | ok read => exact (hread ▸ hdatum).bind (.of_eq fun _ => rfl)

theorem parseList_other (h : ∀ rest, cs ≠ '(' :: rest) (n : Nat) :
    parseList options (n + 1) depth backquotes cs = refuse cs := by
  rw [parseList, tag_other h]
  rfl

theorem readCharacter_ne_noDatum (cs : List Char) : readCharacter cs ≠ .error .noDatum := by
  unfold readCharacter
  intro h
  cases htoken : tokenOf cs with
  | nil =>
    rw [htoken] at h
    cases cs <;> cases h
  | cons c token =>
    rw [htoken] at h
    cases token with
    | nil => cases h
    | cons d token =>
      dsimp only at h
      cases hnamed : Text.characterNamed? (c :: d :: token) <;> rw [hnamed] at h <;> cases h

section

variable (hdatum : ∀ backquotes cs, ∃ place,
  Gives place (fun n => parseDatum options n (depth + 1) backquotes cs)
    (readDatum options.comments levels backquotes cs))

include hdatum

theorem gives_alternatives_mark {c : Char} {kind : QuoteKind} {rest : List Char}
    (hlead : lead (c :: cs) = .mark kind rest) (hc : isDelimiter c = true) (hquote : c ≠ '"')
    (hopen : c ≠ '(') :
    Gives (c :: cs) (fun n => orElse (parseQuoted options n depth backquotes (c :: cs))
        (orElse (parseList options n depth backquotes (c :: cs)) (parseToken n (c :: cs))))
      (readOperand kind (UnquoteRule.counting.operand
        (readDatum options.comments levels) backquotes (c :: cs) kind) rest) := by
  obtain ⟨place, hplace⟩ := hdatum (UnquoteRule.counting.opened kind backquotes) rest
  have hquoted : Gives place (fun n => parseQuoted options (n + 1) depth backquotes (c :: cs)) _ :=
    (gives_parseQuoted hlead hplace).succ
  have hothers (n : Nat) : orElse (parseList options (n + 1) depth backquotes (c :: cs))
      (parseToken (n + 1) (c :: cs)) = refuse (c :: cs) := by
    rw [parseList_other fun _ heq => hopen (List.cons.inj heq).1, parseToken_delimiter hc hquote]
    rfl
  refine .step ?_
  simp only [hothers]
  exact hquoted.orElse_refuse

/-- What the alternatives for a datum come to is what its start says. -/
theorem gives_alternatives (text : List Char) :
    Gives text (fun n => orElse (parseQuoted options n depth backquotes text)
        (orElse (parseList options n depth backquotes text) (parseToken n text)))
      (readLead options.comments
        (UnquoteRule.counting.operand (readDatum options.comments levels) backquotes text)
        (readDatum options.comments levels backquotes) text) := by
  -- where the alternative that fits refuses after all, every later one does too
  unfold readLead
  have hquoted (h : ∀ kind rest, lead text ≠ .mark kind rest) (n : Nat) :
      parseQuoted options (n + 1) depth backquotes text = refuse text := parseQuoted_other h n
  have hlist (h : ∀ rest, text ≠ '(' :: rest) (n : Nat) :
      parseList options (n + 1) depth backquotes text = refuse text := parseList_other h n
  fun_cases lead text with
  | case1 rest => exact gives_alternatives_mark hdatum rfl (by decide) (by decide) (by decide)
  | case2 rest => exact gives_alternatives_mark hdatum rfl (by decide) (by decide) (by decide)
  | case3 rest => exact gives_alternatives_mark hdatum rfl (by decide) (by decide) (by decide)
  | case4 rest hno =>
    refine gives_alternatives_mark hdatum ?_ (by decide) (by decide) (by decide)
    rw [lead]
    exact hno
  | case5 rest =>
    have hreader : ReadsOn (readDatum options.comments levels backquotes) := readsOn_readDatum _ _
    obtain ⟨place, hplace⟩ :=
      gives_parseItems hreader (hdatum backquotes) [] (Nat.lt_succ_self rest.length)
    have hrun (n : Nat) : orElse (parseQuoted options (n + 1) depth backquotes ('(' :: rest))
        (orElse (parseList options (n + 1) depth backquotes ('(' :: rest))
          (parseToken (n + 1) ('(' :: rest))) =
        orElse (parseItems options n depth backquotes [] rest) (refuse ('(' :: rest)) := by
      rw [hquoted (fun _ _ h => by cases h), parseToken_delimiter (by decide) (by decide)]
      rfl
    refine .step ?_
    rw [funext hrun]
    exact hplace.orElse_refuse
  | case6 rest =>
    have hrun (n : Nat) : orElse (parseQuoted options (n + 1) depth backquotes ('"' :: rest))
        (orElse (parseList options (n + 1) depth backquotes ('"' :: rest))
          (parseToken (n + 1) ('"' :: rest))) =
        orElse (parseChars (n + 1) [] rest) (refuse ('"' :: rest)) := by
      rw [hquoted (fun _ _ h => by cases h), hlist (fun _ h => by cases h)]
      rfl
    have hstring : Gives rest (fun n => parseChars (n + 1) [] rest) _ :=
      (gives_parseChars rest [] rest).succ
    refine .step ?_
    rw [funext hrun]
    exact hstring.orElse_refuse
  | case7 rest =>
    refine .step (.of_eq fun n => ?_)
    rw [hquoted (fun _ _ h => by cases h), hlist (fun _ h => by cases h)]
    exact orElse_outcome (readCharacter_ne_noDatum rest) (parseAtom ('#' :: '\\' :: rest))
  | case8 _ hquote hbackquote hsplice hcomma hopen hstring hcharacter =>
    have hlead := lead_eq_atom hquote hbackquote hcomma hopen hstring hcharacter
    refine .step (.of_eq fun n => ?_)
    rw [hquoted (fun _ _ h => by rw [hlead] at h; cases h), hlist hopen, parseToken, parseString,
      parseCharacter, tag_other hstring, tag_other hcharacter]
    rfl

end

theorem readDatum_succ {comments : Bool} (cs : List Char) :
    readDatum comments (levels + 1) backquotes cs =
      match skipSpace comments cs with
      | .error stuck => .error stuck
      | .ok text =>
        readLead comments (UnquoteRule.counting.operand (readDatum comments levels) backquotes text)
          (readDatum comments levels backquotes) text := by
  have hby : readDatumBy .counting comments levels = readDatum comments levels :=
    funext (readDatumBy_counting levels)
  rw [← readDatumBy_counting, ← hby]
  rfl

/-- What a datum is looked for in. -/
def behindGap (comments : Bool) (cs : List Char) : List Char :=
  match skipSpace comments cs with
  | .ok text => text
  | .error _ => cs

/-- Parsing a datum gives what the reader gives, with as many levels as the depth leaves. -/
theorem gives_parseDatum (hlevels : options.maxDepth - depth = levels) (cs : List Char) :
    Gives (behindGap options.comments cs) (fun n => parseDatum options n depth backquotes cs)
      (readDatum options.comments levels backquotes cs) := by
  -- the levels bound the nesting; the length of a text is what bounds the loops at one level
  induction levels generalizing depth backquotes cs with
  | zero =>
    refine .step (.of_eq fun n => ?_)
    rw [parseDatum, if_pos (by omega)]
    rfl
  | succ levels ih =>
    have hrun (n : Nat) : parseDatum options (n + 1) depth backquotes cs =
        parseSpace options.comments n cs >>= fun text =>
          orElse (parseQuoted options n depth backquotes text)
            (orElse (parseList options n depth backquotes text) (parseToken n text)) := by
      rw [parseDatum, if_neg (by omega)]
    have hdatum (backquotes : Nat) (cs : List Char) : ∃ place,
        Gives place (fun n => parseDatum options n (depth + 1) backquotes cs)
          (readDatum options.comments levels backquotes cs) :=
      ⟨_, ih (by omega) cs⟩
    have hspace : Gives cs (fun n => parseSpace options.comments n cs) _ := gives_parseSpace cs cs
    refine .step ?_
    rw [funext hrun, readDatum_succ, behindGap]
    cases hskip : skipSpace options.comments cs with
    | error stuck => exact (hskip ▸ hspace).error
    | ok text => exact (hskip ▸ hspace).bind (gives_alternatives hdatum text)

/-- A list is parsed up to its end, or refused where none starts. -/
theorem gives_parseList (cs : List Char) :
    ∃ place result, Gives place (fun n => parseList options n depth backquotes cs) result := by
  by_cases hopen : ∃ rest, cs = '(' :: rest
  · obtain ⟨rest, rfl⟩ := hopen
    have hreader :
        ReadsOn (readDatum options.comments (options.maxDepth - (depth + 1)) backquotes) :=
      readsOn_readDatum _ _
    obtain ⟨place, hplace⟩ := gives_parseItems hreader (fun cs => ⟨_, gives_parseDatum rfl cs⟩) []
      (Nat.lt_succ_self rest.length)
    exact ⟨place, _, .step hplace⟩
  · exact ⟨cs, .error .noDatum, .step (.of_eq (parseList_other (not_exists.mp hopen)))⟩

/-- Data are parsed one after the other without a bound; each uses up text. -/
theorem completes_parseTop {size : Nat} (seen : List Datum) (hsize : cs.length < size) :
    ∃ result, Completes (fun n => parseTop options n seen cs) result ∧
      result.mapError Halt.stuck = readTop options 0 size seen cs := by
  induction size generalizing seen cs with
  | zero => exact absurd hsize (Nat.not_lt_zero _)
  | succ size ih =>
    have hspace : Gives cs (fun n => parseSpace options.comments n cs) _ := gives_parseSpace cs cs
    rw [readTop]
    cases hskip : skipSpace options.comments cs with
    | error stuck =>
      obtain rfl := skipGap_error hskip
      exact ⟨_, .step (hskip ▸ hspace).error, rfl⟩
    | ok text =>
      have hle := skipSpace_length_le hskip
      have hstart : Gives cs (fun n => parseSpace options.comments n cs) (.ok text) :=
        hskip ▸ hspace
      cases text with
      | nil =>
        have hrun : Gives cs (fun n => parseTop options n seen cs) (.ok seen.reverse) :=
          .step (hstart.bind (.of_eq fun _ => rfl))
        exact ⟨_, hrun, rfl⟩
      | cons c text =>
        have hbehind : behindGap options.comments (c :: text) = c :: text := by
          rw [behindGap, skipSpace, skipGap_idem hskip]
        have hdatum : Gives _ (fun n => parseDatum options n 0 0 (c :: text)) _ :=
          gives_parseDatum (Nat.sub_zero options.maxDepth) (c :: text)
        rw [hbehind] at hdatum
        dsimp only
        cases hread : readDatum options.comments options.maxDepth 0 (c :: text) with
        | error stuck =>
          refine ⟨_, .step (hstart.bind (hread ▸ hdatum).error), ?_⟩
          cases stuck <;> rfl
        | ok read =>
          have hshorter := (readsOn_readDatum _ _).shorter hread
          have hrestSize : read.2.length < size := by omega
          obtain ⟨result, hrest, hresult⟩ := ih (read.1 :: seen) hrestSize
          exact ⟨result, .step (hstart.completes ((hread ▸ hdatum).completes hrest)), hresult⟩

theorem completes_parseData (options : ReadOptions) (source : String) :
    Completes (fun n => parseData options n source) (readData options source) := by
  obtain ⟨result, hrun, hresult⟩ : ∃ result,
      Completes (fun n => parseTop options n [] source.toList) result ∧
        result.mapError Halt.stuck =
          readTop options 0 (source.toList.length + 1) [] source.toList :=
    completes_parseTop [] (Nat.lt_succ_self source.toList.length)
  unfold readData
  dsimp only
  rw [← hresult]
  cases result with
  | ok data => exact hrun.bind (.const _)
  | error halt => exact hrun.bind (.const _)

/-! ## Every run has an end -/

/-- Parsing from some place of a text comes to an end, in agreement with the reader, and where it
succeeds it makes progress. -/
structure Proceeds (options : ReadOptions) (depth backquotes : Nat) (cs : List Char) : Prop where
  /-- A datum uses up at least one character. -/
  datum : ∃ result, Completes (fun n => parseDatum options n depth backquotes cs) result ∧
    ∀ datum rest, result = .ok (datum, rest) →
      (∃ used, used ≠ [] ∧ cs = used ++ rest) ∧
      readDatum options.comments (options.maxDepth - depth) backquotes cs = .ok (datum, rest)
  /-- What is left when blanks and comments are skipped does not start with any. -/
  space : ∃ result, Completes (fun n => parseSpace options.comments n cs) result ∧
    ∀ rest, result = .ok rest →
      rest <:+ cs ∧ startsGap options.comments rest = false ∧
      skipSpace options.comments cs = .ok rest
  list : ∃ result, Completes (fun n => parseList options n depth backquotes cs) result
  string : ∃ result, Completes (fun n => parseString n cs) result

/-- A parser succeeds where the reader does. -/
theorem mapError_eq_ok {α : Type} {place : List Char} {result : Except Stuck α} {a : α}
    (h : result.mapError (Stuck.halt place) = .ok a) : result = .ok a := by
  cases result with
  | ok b =>
    cases h
    rfl
  | error stuck => cases h

theorem completes_parseString (cs : List Char) :
    ∃ result, Completes (fun n => parseString n cs) result := by
  by_cases hquote : ∃ rest, cs = '"' :: rest
  · obtain ⟨rest, rfl⟩ := hquote
    exact ⟨_, gives_parseChars rest [] rest⟩
  · have hrun (n : Nat) : parseString n cs = some (.error (.refused cs)) := by
      rw [parseString, tag_other (not_exists.mp hquote)]
      rfl
    exact ⟨_, 0, fun n _ => hrun n⟩

theorem proceeds (options : ReadOptions) (depth backquotes : Nat) (cs : List Char) :
    Proceeds options depth backquotes cs where
  datum := by
    refine ⟨_, gives_parseDatum rfl cs, fun datum rest h => ?_⟩
    have hread := mapError_eq_ok h
    exact ⟨readDatum_uses hread, hread⟩
  space := by
    refine ⟨_, gives_parseSpace cs cs, fun rest h => ?_⟩
    have hskip := mapError_eq_ok h
    exact ⟨skipSpace_suffix hskip, skipSpace_settled hskip, hskip⟩
  list := by
    obtain ⟨place, result, hlist⟩ : ∃ place result,
        Gives place (fun n => parseList options n depth backquotes cs) result :=
      gives_parseList cs
    exact ⟨_, hlist⟩
  string := completes_parseString cs

/-- Reading has an end: whatever the text, the options and the nesting, every parser comes to one
and makes progress on the way, so a whole text gives data or a fault. -/
theorem reading_ends (options : ReadOptions) :
    (∀ depth backquotes cs, Proceeds options depth backquotes cs) ∧
    ∀ source, ∃ result, Completes (fun n => parseData options n source) result ∧
      readData options source = result ∧
      ((∃ data, result = .ok data) ∨ ∃ fault, result = .error (.parse fault)) := by
  refine ⟨proceeds options, fun source => ⟨_, completes_parseData options source, rfl, ?_⟩⟩
  unfold readData
  dsimp only
  split
  next data _ => exact .inl ⟨data, rfl⟩
  next => exact .inr ⟨_, rfl⟩

end SmallLisp
