import SmallLisp.Printer
import SmallLisp.Text.Shown

/-!
# Descriptions

The description of a value names its kind and then prints it. Strings and characters are shown
character by character instead, so that blanks and combining marks can be told apart.
-/

namespace SmallLisp.Interp

/-- The description of a value. -/
def describe (s : Interp) (v : Value) : String :=
  let tagged (kind : String) (text : List Char) := kind ++ "(" ++ String.ofList text ++ ")"
  let printed (kind : String) := tagged kind (s.render printLevels v)
  match v with
  | .nil => "Nil"
  | .truth => "True"
  | .symbol _ => printed "Symbol"
  | .cons _ => printed "List"
  | .number _ => printed "Number"
  | .string t => tagged "String" (Text.shownText t)
  | .character c => tagged "Character" (Text.shownCharacter c)
  | .array _ => printed "Array"
  | .dictionary _ => printed "Dictionary"
  | .hashTable _ => printed "HashTable"
  | .function _ => printed "Function"
  | .names _ => printed "Namespace"

end SmallLisp.Interp
