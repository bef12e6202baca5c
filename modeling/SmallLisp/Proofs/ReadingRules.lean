import SmallLisp.Proofs.ReadingOn

/-!
# Reading under a rule for unquotes

`readDatum` counts the backquotes that are open and refuses an unquote where there are none. An
`UnquoteRule` says what is done instead, so that the reader without the check, and a reader that
counts in another way below zero, can be compared with it: `readDataBy` reads a text under a rule.
What starts a datum is looked at once, in `lead`, and one level of reading is `readLead`, which
leaves open how operands and items are read. `readDatumBy_counting` says that `readDatum` is the
reader under the rule that counts.
-/

namespace SmallLisp

variable {comments : Bool} {cs rest : List Char}

/-! ## What starts a datum -/

/-- The start of a datum, with the text behind it. An atom starts with itself. -/
inductive Lead where
  | mark (kind : QuoteKind) (rest : List Char)
  | list (rest : List Char)
  | string (rest : List Char)
  | character (rest : List Char)
  | atom

def lead : List Char → Lead
  | '\x27' :: rest => .mark .quote rest
  | '\x60' :: rest => .mark .backquote rest
  | ',' :: '@' :: rest => .mark .splice rest
  | ',' :: rest => .mark .unquote rest
  | '(' :: rest => .list rest
  | '"' :: rest => .string rest
  | '#' :: '\\' :: rest => .character rest
  | _ => .atom

/-- Read the datum that starts here. Its operand and its items are read by other readers. -/
def readLead (comments : Bool) (operand : QuoteKind → DatumReader) (item : DatumReader)
    (cs : List Char) : Except Stuck (Datum × List Char) :=
  match lead cs with
  | .mark kind rest => readOperand kind (operand kind) rest
  | .list rest => readItems comments item (rest.length + 1) [] rest
  | .string rest => readString [] rest
  | .character rest => readCharacter rest
  | .atom => readAtom cs

/-! ## Rules -/

/-- Whether a mark takes its operand out of a backquote. -/
def QuoteKind.unquotes : QuoteKind → Bool
  | .unquote | .splice => true
  | _ => false

/-- What is done about an unquote where some number of backquotes is open. -/
structure UnquoteRule where
  /-- Whether the unquote is refused. -/
  refuses : Nat → Bool
  /-- How many backquotes are open for its operand. -/
  lower : Nat → Nat

namespace UnquoteRule

/-- Every unquote takes one backquote away and needs one. -/
def counting : UnquoteRule := ⟨fun n => n == 0, fun n => n - 1⟩

/-- Unquotes may stand everywhere. -/
def lenient : UnquoteRule := ⟨fun _ => false, fun n => n - 1⟩

/-- How many backquotes are open for the operand of a mark. -/
def opened (rule : UnquoteRule) : QuoteKind → Nat → Nat
  | .quote, n => n
  | .backquote, n => n + 1
  | .unquote, n | .splice, n => rule.lower n

/-- Read the operand of a mark at `cs`, unless it is refused. -/
def operand (rule : UnquoteRule) (reader : Nat → DatumReader) (backquotes : Nat) (cs : List Char)
    (kind : QuoteKind) : DatumReader :=
  if kind.unquotes && rule.refuses backquotes then fun _ => .error (.unquoteOutside cs)
  else reader (rule.opened kind backquotes)

end UnquoteRule

/-- Read one datum under a rule, with `levels` levels left and `backquotes` backquotes open. -/
def readDatumBy (rule : UnquoteRule) (comments : Bool) : Nat → Nat → DatumReader
  | 0, _, _ => .error .tooDeep
  | levels + 1, backquotes, cs =>
    match skipSpace comments cs with
    | .error stuck => .error stuck
    | .ok text =>
      readLead comments (rule.operand (readDatumBy rule comments levels) backquotes text)
        (readDatumBy rule comments levels backquotes) text

/-- Read data up to the end of the text, the data so far in reverse and at most `n` more. -/
def readAll (comments : Bool) (reader : DatumReader) :
    Nat → List Datum → List Char → Except Stuck (List Datum)
  | 0, seen, _ => .ok seen.reverse
  | n + 1, seen, cs =>
    match skipSpace comments cs with
    | .error stuck => .error stuck
    | .ok [] => .ok seen.reverse
    | .ok rest =>
      match reader rest with
      | .error .noDatum => .error (.malformed rest)
      | .error stuck => .error stuck
      | .ok (datum, rest) => readAll comments reader n (datum :: seen) rest

/-- Read every datum of a text under a rule. -/
def readDataBy (rule : UnquoteRule) (options : ReadOptions) (source : String) :
    Except Fault (List Datum) :=
  let cs := source.toList
  let reader := readDatumBy rule options.comments options.maxDepth 0
  match readAll options.comments reader (cs.length + 1) [] cs with
  | .ok data => .ok data
  | .error stuck => .error (.parse (stuck.toFault options cs))

/-! ## What reading gives -/

section

variable {rule : UnquoteRule} {levels backquotes : Nat} {read : Datum × List Char}

theorem readDatumBy_succ_eq_ok :
    readDatumBy rule comments (levels + 1) backquotes cs = .ok read ↔
      ∃ text, skipSpace comments cs = .ok text ∧
        readLead comments (rule.operand (readDatumBy rule comments levels) backquotes text)
          (readDatumBy rule comments levels backquotes) text = .ok read := by
  rw [readDatumBy]
  cases skipSpace comments cs <;> simp

variable {reader : DatumReader} {n : Nat} {seen data : List Datum}

/-- A text is at its end, or it starts with a datum. -/
theorem readAll_succ_eq_ok :
    readAll comments reader (n + 1) seen cs = .ok data ↔
      ∃ text, skipSpace comments cs = .ok text ∧
        ((text = [] ∧ data = seen.reverse) ∨
          (text ≠ [] ∧ ∃ datum behind, reader text = .ok (datum, behind) ∧
            readAll comments reader n (datum :: seen) behind = .ok data)) := by
  rw [readAll]
  cases skipSpace comments cs with
  | error stuck => simp
  | ok text =>
    cases text with
    | nil => simp [eq_comm]
    | cons c text =>
      cases hread : reader (c :: text) with
      | error stuck => cases stuck <;> simp [hread]
      | ok read =>
        obtain ⟨datum, behind⟩ := read
        dsimp only
        rw [hread]
        constructor
        · intro h
          exact ⟨_, rfl, .inr ⟨List.cons_ne_nil c text, datum, behind, hread, h⟩⟩
        · rintro ⟨_, ⟨⟩, ⟨hnil, -⟩ | ⟨-, _, _, hdatum, h⟩⟩
          · cases hnil
          · cases hread.symm.trans hdatum
            exact h

end

/-! ## The reader that counts -/

/-- A comma, and an at sign if it follows, is the mark of an operand. -/
theorem readLead_comma (operand : QuoteKind → DatumReader) (item : DatumReader)
    (rest : List Char) :
    readLead comments operand item (',' :: rest) =
      match rest with
      | '@' :: rest => readOperand .splice (operand .splice) rest
      | rest => readOperand .unquote (operand .unquote) rest := by
  split
  next => rfl
  next hsplice =>
    rw [readLead, lead]
    exact hsplice

theorem lead_eq_atom (hquote : ∀ r, cs ≠ '\x27' :: r) (hbackquote : ∀ r, cs ≠ '\x60' :: r)
    (hcomma : ∀ r, cs ≠ ',' :: r) (hlist : ∀ r, cs ≠ '(' :: r) (hstring : ∀ r, cs ≠ '"' :: r)
    (hcharacter : ∀ r, cs ≠ '#' :: '\\' :: r) : lead cs = .atom := by
  unfold lead
  split
  next => exact absurd rfl (hquote _)
  next => exact absurd rfl (hbackquote _)
  next => exact absurd rfl (hcomma _)
  next => exact absurd rfl (hcomma _)
  next => exact absurd rfl (hlist _)
  next => exact absurd rfl (hstring _)
  next => exact absurd rfl (hcharacter _)
  next => rfl

/-- Counting, an unquote is refused exactly where no backquote is open. -/
theorem UnquoteRule.counting_operand (reader : Nat → DatumReader) {backquotes : Nat}
    {kind : QuoteKind} (hkind : kind.unquotes = true) :
    counting.operand reader backquotes cs kind =
      if backquotes = 0 then fun _ => .error (.unquoteOutside cs) else reader (backquotes - 1) := by
  cases kind with
  | quote | backquote => cases hkind
  | unquote | splice => simp [operand, counting, opened, QuoteKind.unquotes]

theorem readDatumBy_counting (levels backquotes : Nat) :
    readDatumBy .counting comments levels backquotes = readDatum comments levels backquotes := by
  induction levels generalizing backquotes with
  | zero => rfl
  | succ levels ih =>
    funext cs
    rw [readDatumBy, readDatum, funext ih]
    cases skipSpace comments cs with
    | error stuck => rfl
    | ok text =>
      dsimp only
      generalize hby : readLead comments _ _ text = result
      split
      next heq => cases heq
      next heq =>
        cases heq
        exact hby.symm
      next heq =>
        cases heq
        exact hby.symm
      next rest heq =>
        cases heq
        rw [← hby, readLead_comma, UnquoteRule.counting_operand _ rfl,
          UnquoteRule.counting_operand _ rfl]
        by_cases hopen : backquotes = 0
        · rw [if_pos hopen, if_pos hopen]
          split <;> rfl
        · rw [if_neg hopen]
          exact (if_neg hopen).symm
      next heq =>
        cases heq
        exact hby.symm
      next heq =>
        cases heq
        exact hby.symm
      next heq =>
        cases heq
        exact hby.symm
      next hquote hbackquote hcomma hlist hstring hcharacter heq =>
        cases heq
        rw [← hby, readLead, lead_eq_atom hquote hbackquote hcomma hlist hstring hcharacter]

/-- Reading a whole text takes the readings of single data together. -/
theorem readTop_eq_readAll (options : ReadOptions) (backquotes n : Nat) (seen : List Datum)
    (cs : List Char) :
    readTop options backquotes n seen cs =
      readAll options.comments (readDatum options.comments options.maxDepth backquotes) n seen
        cs := by
  induction n generalizing seen cs with
  | zero => rfl
  | succ n ih =>
    rw [readTop, readAll]
    cases skipSpace options.comments cs with
    | error stuck => rfl
    | ok text =>
      cases text with
      | nil => rfl
      | cons c text =>
        dsimp only
        cases readDatum options.comments options.maxDepth backquotes (c :: text) with
        | error stuck => cases stuck <;> rfl
        | ok read => exact ih (read.1 :: seen) read.2

theorem readDataBy_counting (options : ReadOptions) (source : String) :
    readDataBy .counting options source = readData options source := by
  unfold readDataBy readData
  dsimp only
  have htop := readTop_eq_readAll options 0 (source.toList.length + 1) [] source.toList
  rw [← readDatumBy_counting] at htop
  cases hread : readTop options 0 (source.toList.length + 1) [] source.toList with
  | error stuck => rw [htop.symm.trans hread]
  | ok data => rw [htop.symm.trans hread]

end SmallLisp
