import SmallLisp.Sequence
import SmallLisp.Text.CharacterName

/-!
# Printed values

The text of a value. Lists, arrays and tables print their parts; a container inside 256 others
prints as `...`, so structures that contain themselves print too. The recursion is on the number of
levels that are left.
-/

namespace SmallLisp

/-- How deep containers may nest in a printed text. -/
def printLevels : Nat := 256

def spaced (texts : List (List Char)) : List Char := [' '].intercalate texts

/-- How a character is written inside a string. -/
def escapeInString (c : Char) : List Char :=
  if c = '"' then ['\\', '"']
  else if c = '\\' then ['\\', '\\']
  else if c = '\n' then ['\\', 'n']
  else if c = '\t' then ['\\', 't']
  else if c = '\r' then ['\\', 'r']
  else [c]

/-- The text of a string, between double quotes. -/
def renderString (s : String) : List Char := '"' :: (s.toList.flatMap escapeInString ++ ['"'])

/-- The text of a character: its name if it has one. -/
def renderCharacter (c : Char) : List Char :=
  '#' :: '\\' :: ((Text.characterName? c).elim [c] String.toList)

/-- Whether a value prints parts, and so counts as a level. -/
def Value.isContainer : Value → Bool
  | .cons _ | .array _ | .dictionary _ | .hashTable _ => true
  | _ => false

namespace Interp

def renderSymbol (s : Interp) (id : SymbolId) : List Char := (s.symbol id).render

def renderCallable (s : Interp) (f : Callable) : List Char :=
  let parameters (c : Closure) := spaced (c.parameters.map s.renderSymbol)
  match f with
  | .primitive op => "#<builtin ".toList ++ op.name.toList ++ ['>']
  | .host h => "#<builtin ".toList ++ h.name.toList ++ ['>']
  | .lambda c => "#<lambda (".toList ++ parameters c ++ [')', '>']
  | .expander c => "#<macro (".toList ++ parameters c ++ [')', '>']

/-- The text of a value that is no container. -/
def renderAtom (s : Interp) : Value → List Char
  | .nil => "NIL".toList
  | .truth => "T".toList
  | .symbol id => s.renderSymbol id
  | .number n => n.render
  | .string t => renderString t
  | .character c => renderCharacter c
  | .function id => s.renderCallable (s.callable id)
  | .names id => "#<The ".toList ++ (s.namespaceAt id).name.toList ++ " namespace>".toList
  | .cons _ | .array _ | .dictionary _ | .hashTable _ => "...".toList

/-- The text of a value inside at most `printLevels - n` containers. -/
def render (s : Interp) : Nat → Value → List Char
  | 0, v => s.renderAtom v
  | n + 1, .cons id =>
    let (cells, tail) := s.spine (.cons id)
    let ending := if tail.isNil then [] else " . ".toList ++ s.render n tail
    '(' :: (spaced (cells.map fun c => s.render n (s.car c)) ++ ending ++ [')'])
  | n + 1, .array id => '[' :: (spaced ((s.arrayItems id).toList.map (s.render n)) ++ [']'])
  | n + 1, .dictionary id =>
    "(dictionary".toList ++
      (s.dictionaryEntries id).flatMap (fun e =>
        " (".toList ++ s.render n e.1 ++ ' ' :: s.render n e.2 ++ [')']) ++ [')']
  | n + 1, .hashTable id =>
    "(hashtable".toList ++
      (s.hashTable id).entries.flatMap (fun e =>
        " (".toList ++ s.render n e.1 ++ ' ' :: s.render n e.2 ++ [')']) ++ [')']
  | _ + 1, v => s.renderAtom v

/-- Whether the text of a value inside at most `printLevels - n` containers goes through an
array. -/
def rendersArray (s : Interp) (target : ArrayId) : Nat → Value → Bool
  | n + 1, .cons id =>
    let (cells, tail) := s.spine (.cons id)
    cells.any (fun c => s.rendersArray target n (s.car c)) || s.rendersArray target n tail
  | n + 1, .array id => id = target || (s.arrayItems id).toList.any (s.rendersArray target n)
  | n + 1, .dictionary id =>
    (s.dictionaryEntries id).any fun e =>
      s.rendersArray target n e.1 || s.rendersArray target n e.2
  | n + 1, .hashTable id =>
    (s.hashTable id).entries.any fun e =>
      s.rendersArray target n e.1 || s.rendersArray target n e.2
  | _, _ => false

/-- The printed text of a value. -/
def print (s : Interp) (v : Value) : String := String.ofList (s.render printLevels v)

def printSymbol (s : Interp) (id : SymbolId) : String := String.ofList (s.renderSymbol id)

end Interp

end SmallLisp
