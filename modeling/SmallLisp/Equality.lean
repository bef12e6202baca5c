import SmallLisp.Sequence

/-!
# Structural equality

`EQUAL` compares lists, arrays and dictionaries by their parts and numbers by value; all else is
equal only to itself. One object is equal to itself without looking inside. The recursion goes
through one container at a time, in the order in which the parts stand. It never comes back to a
pair of containers if it has an end, so there are no more levels than there are pairs; a comparison
without an end, of values that contain themselves, counts as no equality.

While a dictionary is being assigned to, it is borrowed, and a comparison that would look into it
has no answer.
-/

namespace SmallLisp

/-- The value of the first entry whose key agrees with `key`. -/
def findAgreeing? (test : Value → Value → Bool) (key : Value) :
    List (Value × Value) → Option Value
  | [] => none
  | (k, v) :: rest => if test k key then some v else findAgreeing? test key rest

/-! ## Comparisons that may be open -/

/-- Whether two sequences of one length agree element by element, up to the first pair that does
not. -/
def comparePairs (test : Value → Value → Option Bool) : List Value → List Value → Option Bool
  | a :: as, b :: bs =>
    match test a b with
    | some true => comparePairs test as bs
    | other => other
  | _, _ => some true

/-- Look for the first entry whose key agrees with `key`. -/
def searchEntries (test : Value → Value → Option Bool) (key : Value) :
    List (Value × Value) → Option (Option Value)
  | [] => some none
  | (k, v) :: rest =>
    match test k key with
    | some true => some (some v)
    | some false => searchEntries test key rest
    | none => none

/-- Whether each entry is found in a dictionary with entries `right`, up to the first one that is
not. -/
def compareEntries (test : Value → Value → Option Bool) (right : List (Value × Value)) :
    List (Value × Value) → Option Bool
  | [] => some true
  | (key, value) :: rest =>
    match searchEntries test key right with
    | some (some v) =>
      match test v value with
      | some true => compareEntries test right rest
      | other => other
    | some none => some false
    | none => none

namespace Interp

/-- Compare two values, `test` being used for what stands directly in them. -/
def compareParts (s : Interp) (test : Value → Value → Option Bool) : Value → Value → Option Bool
  | .cons x, .cons y =>
    if x = y then some true else comparePairs test [s.car x, s.cdr x] [s.car y, s.cdr y]
  | .number a, .number b => some (a.compare? b == some .eq)
  | .array x, .array y =>
    let left := (s.arrayItems x).toList
    let right := (s.arrayItems y).toList
    if x = y then some true
    else if left.length = right.length then comparePairs test left right
    else some false
  | .dictionary x, .dictionary y =>
    let left := s.dictionaryEntries x
    let right := s.dictionaryEntries y
    if x = y then some true
    else if left.length = right.length then compareEntries test right left
    else some false
  | a, b => some (a = b)

/-- Whether comparing two values looks into a dictionary. One dictionary is equal to itself without
that. -/
def looksInto (id : DictionaryId) : Value → Value → Bool
  | .dictionary x, .dictionary y => x ≠ y && (x = id || y = id)
  | _, _ => false

/-- Compare two values down to `n` levels while a dictionary may be borrowed. -/
def compareWithin? (s : Interp) (borrowed : Option DictionaryId) :
    Nat → Value → Value → Option Bool
  | 0, _, _ => none
  | n + 1, a, b =>
    if borrowed.any (looksInto · a b) then none
    else s.compareParts (s.compareWithin? borrowed n) a b

/-- Compare two values down to `n` levels. -/
def compare? (s : Interp) : Nat → Value → Value → Option Bool := s.compareWithin? none

theorem compare?_succ (s : Interp) (n : Nat) (a b : Value) :
    s.compare? (n + 1) a b = s.compareParts (s.compare? n) a b := rfl

/-- How many containers there are: no path through a value that does not contain itself is
longer. -/
def containers (s : Interp) : Nat := s.cells.size + s.arrays.size + s.dictionaries.size

/-- Enough levels for every comparison that has an end. -/
def compareLevels (s : Interp) : Nat := s.containers * s.containers + 2

/-- Whether two values are equal in structure. -/
def equal (s : Interp) (a b : Value) : Bool := (s.compare? s.compareLevels a b).getD false

/-- Whether the entries of a dictionary can be searched for a key while it is borrowed itself. -/
def searchable (s : Interp) (id : DictionaryId) (key : Value) (entries : List (Value × Value)) :
    Bool :=
  (searchEntries (s.compareWithin? (some id) s.compareLevels) key entries).isSome

end Interp

end SmallLisp
