import SmallLisp.Datum.Token
import SmallLisp.Fault

/-!
# Reading text

`readData` turns a text into data. Nesting is limited: each list, tail and quotation mark is one
level, and the recursion is on the levels that are left. A count of open backquotes decides where an
unquote may stand. A list is read item by item; each item uses up text, so the length of the text
bounds their number.

Reading stops at the first problem. Where no datum starts although one must, the whole datum at top
level is at fault.
-/

namespace SmallLisp

/-- How to read. -/
structure ReadOptions where
  /-- Whether comments count as blanks. -/
  comments : Bool
  /-- How many levels data may have. -/
  maxDepth : Nat
deriving DecidableEq, Repr

/-- Comments are blanks, and data have at most 64 levels. -/
def ReadOptions.standard : ReadOptions := ⟨true, 64⟩

/-- A reader of one datum: the datum, and the text that follows it. -/
abbrev DatumReader := List Char → Except Stuck (Datum × List Char)

/-- What follows a point that stands alone, which introduces the tail of a list. -/
def afterLonePoint? : List Char → Option (List Char)
  | ['.'] => some []
  | '.' :: c :: rest => if isDelimiter c then some (c :: rest) else none
  | _ => none

/-- The tail of a list and its closing parenthesis, after the point. -/
def readTail (comments : Bool) (datum : DatumReader) (items : List Datum) (cs : List Char) :
    Except Stuck (Datum × List Char) :=
  match datum cs with
  | .error stuck => .error stuck
  | .ok (tail, rest) =>
    match skipSpace comments rest with
    | .error stuck => .error stuck
    | .ok [] => .error .unexpectedEnd
    | .ok (')' :: rest) => .ok (.dotted items tail, rest)
    | .ok rest => .error (.missingClose rest)

/-- The rest of a list, with the items so far in reverse and at most `n` more to come. -/
def readItems (comments : Bool) (datum : DatumReader) :
    Nat → List Datum → List Char → Except Stuck (Datum × List Char)
  | 0, _, _ => .error .unexpectedEnd
  | n + 1, seen, cs =>
    match skipSpace comments cs with
    | .error stuck => .error stuck
    | .ok [] => .error .unexpectedEnd
    | .ok (')' :: rest) => .ok (.list seen.reverse, rest)
    | .ok rest =>
      match afterLonePoint? rest with
      | some afterPoint =>
        if seen.isEmpty then .error (.malformed rest)
        else readTail comments datum seen.reverse afterPoint
      | none =>
        match datum rest with
        | .error stuck => .error stuck
        | .ok (item, rest) => readItems comments datum n (item :: seen) rest

/-- The operand of a quotation mark. -/
def readOperand (kind : QuoteKind) (datum : DatumReader) (cs : List Char) :
    Except Stuck (Datum × List Char) :=
  match datum cs with
  | .error stuck => .error stuck
  | .ok (operand, rest) => .ok (.quoted kind operand, rest)

/-- Read one datum with `levels` levels left and `backquotes` backquotes open. -/
def readDatum (comments : Bool) : Nat → Nat → DatumReader
  | 0, _, _ => .error .tooDeep
  | levels + 1, backquotes, cs =>
    match skipSpace comments cs with
    | .error stuck => .error stuck
    | .ok ('\x27' :: rest) => readOperand .quote (readDatum comments levels backquotes) rest
    | .ok ('\x60' :: rest) =>
      readOperand .backquote (readDatum comments levels (backquotes + 1)) rest
    | .ok (',' :: rest) =>
      if backquotes = 0 then .error (.unquoteOutside (',' :: rest))
      else
        match rest with
        | '@' :: rest => readOperand .splice (readDatum comments levels (backquotes - 1)) rest
        | rest => readOperand .unquote (readDatum comments levels (backquotes - 1)) rest
    | .ok ('(' :: rest) =>
      readItems comments (readDatum comments levels backquotes) (rest.length + 1) [] rest
    | .ok ('"' :: rest) => readString [] rest
    | .ok ('#' :: '\\' :: rest) => readCharacter rest
    | .ok rest => readAtom rest

/-- Read data up to the end of the text, with `backquotes` backquotes open around it, the data so
far in reverse and at most `n` more. -/
def readTop (options : ReadOptions) (backquotes : Nat) :
    Nat → List Datum → List Char → Except Stuck (List Datum)
  | 0, seen, _ => .ok seen.reverse
  | n + 1, seen, cs =>
    match skipSpace options.comments cs with
    | .error stuck => .error stuck
    | .ok [] => .ok seen.reverse
    | .ok rest =>
      match readDatum options.comments options.maxDepth backquotes rest with
      | .error .noDatum => .error (.malformed rest)
      | .error stuck => .error stuck
      | .ok (datum, rest) => readTop options backquotes n (datum :: seen) rest

/-- How many bytes characters have in UTF-8. -/
def byteLength (cs : List Char) : Nat := cs.foldl (fun n c => n + c.utf8Size) 0

/-- The fault of a problem in a text. Positions are byte offsets; the excerpt of a malformed text
starts after as many characters as its position has bytes. -/
def Stuck.toFault (options : ReadOptions) (source : List Char) : Stuck → ReadFault :=
  let position (rest : List Char) := byteLength source - byteLength rest
  fun
  | .noDatum | .unexpectedEnd => .unexpectedEnd
  | .missingClose rest => .missingClose (position rest)
  | .tooDeep => .tooDeep options.maxDepth
  | .unquoteOutside rest => .unquoteOutside (position rest)
  | .integerRange rest => .integerRange (position rest)
  | .openComment => .openComment
  | .malformed [] => .unexpectedEnd
  | .malformed rest => .malformed (String.ofList ((source.drop (position rest)).take 10))

/-- Read every datum of a text. -/
def readData (options : ReadOptions) (source : String) : Except Fault (List Datum) :=
  let cs := source.toList
  match readTop options 0 (cs.length + 1) [] cs with
  | .ok data => .ok data
  | .error stuck => .error (.parse (stuck.toFault options cs))

end SmallLisp
