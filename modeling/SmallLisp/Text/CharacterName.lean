/-!
# Names of characters

Six characters are written by name. Names are read in any case of their ASCII letters.
-/

namespace SmallLisp.Text

/-- The characters that have a name. -/
def characterNames : List (Char × String) :=
  [(' ', "Space"), ('\n', "Newline"), ('\t', "Tab"), ('\r', "Return"), ('\x08', "Backspace"),
    ('\x0c', "Page")]

def characterName? (c : Char) : Option String := characterNames.lookup c

/-- The ASCII letters of a text in lower case. -/
def lowerASCII (cs : List Char) : List Char := cs.map Char.toLower

/-- The character with a name. -/
def characterNamed? (name : List Char) : Option Char :=
  (characterNames.find? fun e => lowerASCII e.2.toList == lowerASCII name).map (·.1)

/-- A name stands for the character that it is the name of. -/
theorem characterNamed?_of_characterName? {c : Char} {name : String}
    (h : characterName? c = some name) : characterNamed? name.toList = some c := by
  simp only [characterName?, characterNames, List.lookup_cons, List.lookup_nil] at h
  repeat' split at h
  all_goals first
    | (simp_all only [beq_iff_eq, Option.some.injEq]; subst h; subst_vars; decide +kernel)
    | simp_all

end SmallLisp.Text
