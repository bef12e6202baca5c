import SmallLisp.Datum
import SmallLisp.Text.Blank
import SmallLisp.Text.CharacterName
import SmallLisp.Text.Uppercase

/-!
# Tokens

What stands between two tokens, and what a single token denotes. A token that is no number is a
symbol; its upper case is split at its colons.
-/

namespace SmallLisp

/-- Why reading stops, with the text that is left where a message needs a position. -/
inductive Stuck where
  /-- No datum starts here. -/
  | noDatum
  | unexpectedEnd
  | missingClose (rest : List Char)
  | tooDeep
  | unquoteOutside (rest : List Char)
  | integerRange (rest : List Char)
  | openComment
  | malformed (rest : List Char)
deriving DecidableEq, Repr

/-- Whether a character ends a token. -/
def isDelimiter (c : Char) : Bool :=
  Text.isBlank c || c == '(' || c == ')' || c == '\x27' || c == '\x60' || c == '"' || c == ',' ||
    c == ';'

def tokenOf (cs : List Char) : List Char := cs.takeWhile fun c => !isDelimiter c

def afterToken (cs : List Char) : List Char := cs.dropWhile fun c => !isDelimiter c

/-- Where a skip is: between tokens, in a comment up to the end of the line, or in a block. -/
inductive Gap where
  | between | line | block
deriving DecidableEq, Repr

/-- Skip blanks, and comments where they are allowed. A line comment ends at the line feed, a block
comment at the first mark that closes one. -/
def skipGap (comments : Bool) : Gap → List Char → Except Stuck (List Char)
  | .between, [] => .ok []
  | .between, '#' :: '|' :: rest =>
    if comments then skipGap comments .block rest else .ok ('#' :: '|' :: rest)
  | .between, c :: rest =>
    if Text.isSkipped c then skipGap comments .between rest
    else if comments && c == ';' then skipGap comments .line rest
    else .ok (c :: rest)
  | .line, [] => .ok []
  | .line, c :: rest =>
    if c == '\n' then skipGap comments .between rest else skipGap comments .line rest
  | .block, [] => .error .openComment
  | .block, '|' :: '#' :: rest => skipGap comments .between rest
  | .block, _ :: rest => skipGap comments .block rest

/-- Skip what may stand between tokens. -/
def skipSpace (comments : Bool) (cs : List Char) : Except Stuck (List Char) :=
  skipGap comments .between cs

def digitValue (c : Char) : Nat := c.toNat - '0'.toNat

/-- The value of a sequence of decimal digits. -/
def naturalOf (digits : List Char) : Nat := digits.foldl (fun n c => 10 * n + digitValue c) 0

def splitSign : List Char → Bool × List Char
  | '-' :: rest => (true, rest)
  | '+' :: rest => (false, rest)
  | cs => (false, cs)

def signed (negative : Bool) (n : Nat) : Int := if negative then -(n : Int) else n

/-- The integer that a token denotes: digits, perhaps after a sign. -/
def integer? (token : List Char) : Option Int :=
  let (negative, digits) := splitSign token
  if !digits.isEmpty && digits.all Char.isDigit then some (signed negative (naturalOf digits))
  else none

/-- The exponent part of a token, zero if there is none. -/
def exponent? : List Char → Option Int
  | [] => some 0
  | c :: rest => if c == 'e' || c == 'E' then integer? rest else none

/-- The double that a token denotes: digits with a point among or around them, perhaps after a sign
and before an exponent. -/
def float? (token : List Char) : Option Binary64 :=
  let (negative, body) := splitSign token
  let whole := body.takeWhile Char.isDigit
  let afterWhole := body.dropWhile Char.isDigit
  let (fraction, ending) :=
    match afterWhole with
    | '.' :: rest => (rest.takeWhile Char.isDigit, rest.dropWhile Char.isDigit)
    | _ => ([], afterWhole)
  if whole.isEmpty && fraction.isEmpty then none
  else
    (exponent? ending).map fun e =>
      .ofDecimal negative (naturalOf (whole ++ fraction)) (e - fraction.length)

/-- Split a token at its first colon. -/
def splitColon : List Char → Option (List Char × List Char)
  | [] => none
  | ':' :: rest => some ([], rest)
  | c :: rest => (splitColon rest).map fun (before, after) => (c :: before, after)

/-- Split a token at its first pair of colons. -/
def splitColons : List Char → Option (List Char × List Char)
  | [] => none
  | ':' :: ':' :: rest => some ([], rest)
  | c :: rest => (splitColons rest).map fun (before, after) => (c :: before, after)

/-- The symbol that a token in upper case denotes. A qualified name needs both of its parts, and no
name has a colon in it. -/
def symbolName? (token : List Char) : Option SymbolName :=
  let isName (cs : List Char) := !cs.isEmpty && !cs.contains ':'
  match token with
  | ':' :: name => if isName name then some (.keyword (String.ofList name)) else none
  | _ =>
    match splitColons token with
    | some (container, name) =>
      if !container.isEmpty && isName name then
        some (.interned (String.ofList container) (String.ofList name))
      else none
    | none =>
      match splitColon token with
      | some (container, name) =>
        if !container.isEmpty && isName name then
          some (.exported (String.ofList container) (String.ofList name))
        else none
      | none => some (.plain (String.ofList token))

/-- The number or symbol at the start of a text, with what follows it. -/
def readAtom (cs : List Char) : Except Stuck (Datum × List Char) :=
  let token := tokenOf cs
  let rest := afterToken cs
  if token.isEmpty then .error .noDatum
  else
    match integer? token with
    | some n =>
      if Number.fits n then .ok (.number (.int (.ofInt n)), rest) else .error (.integerRange cs)
    | none =>
      match float? token with
      | some x => .ok (.number (.float x), rest)
      | none =>
        if token == ['.'] then .error (.malformed cs)
        else
          match symbolName? (Text.upperChars token) with
          | some name => .ok (.symbol name, rest)
          | none => .error (.malformed cs)

/-- The character that an escape in a string stands for. -/
def escaped? (c : Char) : Option Char :=
  if c = 'n' then some '\n'
  else if c = 't' then some '\t'
  else if c = 'r' then some '\r'
  else if c = '\\' then some '\\'
  else if c = '"' then some '"'
  else none

/-- The rest of a string after its opening quote, with the characters so far in reverse. -/
def readString (seen : List Char) : List Char → Except Stuck (Datum × List Char)
  | [] => .error .unexpectedEnd
  | '"' :: rest => .ok (.string (String.ofList seen.reverse), rest)
  | ['\\'] => .error (.malformed ['\\'])
  | '\\' :: c :: rest =>
    match escaped? c with
    | some e => readString (e :: seen) rest
    | none => .error (.malformed ('\\' :: c :: rest))
  | c :: rest => readString (c :: seen) rest

/-- The rest of a character after its mark: a single character, which may be a delimiter, or a
name. -/
def readCharacter (cs : List Char) : Except Stuck (Datum × List Char) :=
  match tokenOf cs, cs with
  | [], [] => .error .unexpectedEnd
  | [], c :: rest => .ok (.character c, rest)
  | [c], _ => .ok (.character c, afterToken cs)
  | name, _ =>
    match Text.characterNamed? name with
    | some c => .ok (.character c, afterToken cs)
    | none => .error (.malformed cs)

end SmallLisp
