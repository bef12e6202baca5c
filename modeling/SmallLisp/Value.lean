import SmallLisp.Number

/-!
# Values

Runtime objects. Everything with an identity is an address into the store; the rest is immediate.
Equality of `Value` is therefore the identity that `EQL` tests: the same object, or the same
immediate value. There is a type of addresses for each kind of object.
-/

namespace SmallLisp

structure CellId where
  index : Nat
deriving DecidableEq, Repr, Inhabited

structure ArrayId where
  index : Nat
deriving DecidableEq, Repr, Inhabited

structure DictionaryId where
  index : Nat
deriving DecidableEq, Repr, Inhabited

structure HashTableId where
  index : Nat
deriving DecidableEq, Repr, Inhabited

structure FunctionId where
  index : Nat
deriving DecidableEq, Repr, Inhabited

structure SymbolId where
  index : Nat
deriving DecidableEq, Repr, Inhabited

structure NamespaceId where
  index : Nat
deriving DecidableEq, Repr, Inhabited

structure ScopeId where
  index : Nat
deriving DecidableEq, Repr, Inhabited

/-- A runtime object: data and unevaluated code alike. -/
inductive Value where
  /-- The empty list, which is also the false value. -/
  | nil
  /-- The canonical true value. -/
  | truth
  | symbol (id : SymbolId)
  | cons (id : CellId)
  | number (n : Number)
  | string (s : String)
  | character (c : Char)
  | array (id : ArrayId)
  | dictionary (id : DictionaryId)
  | hashTable (id : HashTableId)
  | function (id : FunctionId)
  | names (id : NamespaceId)
deriving DecidableEq, Repr, Inhabited

/-- The pair that lists are made of. -/
structure Cell where
  car : Value
  cdr : Value
deriving DecidableEq, Repr, Inhabited

namespace Value

/-- The value of a test. -/
def ofBool (b : Bool) : Value := if b then .truth else .nil

def ofInt64 (n : Int64) : Value := .number (.int n)

def ofNat (n : Nat) : Value := .number (.int (Int64.ofNat n))

def isNil : Value → Bool
  | .nil => true
  | _ => false

theorem isNil_iff {v : Value} : v.isNil = true ↔ v = .nil := by
  cases v <;> simp [isNil]

/-- Everything but the empty list counts as true. -/
def isTrue (v : Value) : Bool := !v.isNil

/-- Whether the value is a list: empty, or a cons cell. -/
def isList : Value → Bool
  | .nil | .cons _ => true
  | _ => false

def typeName : Value → String
  | .nil => "NULL"
  | .truth => "BOOLEAN"
  | .symbol _ => "SYMBOL"
  | .cons _ => "CONS"
  | .number _ => "NUMBER"
  | .string _ => "STRING"
  | .character _ => "CHARACTER"
  | .array _ => "ARRAY"
  | .dictionary _ => "DICTIONARY"
  | .hashTable _ => "HASHTABLE"
  | .function _ => "FUNCTION"
  | .names _ => "NAMESPACE"

/-- Whether a value may be the key of a hash table: it is an atom without parts. -/
def isAtomKey : Value → Bool
  | .nil | .truth | .symbol _ | .number _ | .string _ | .character _ => true
  | _ => false

/-- Order of numbers, texts and characters; all else is unordered. -/
def compare? : Value → Value → Option Ordering
  | .number a, .number b => a.compare? b
  | .string a, .string b => some (compareOfLessAndEq a b)
  | .character a, .character b => some (compareOfLessAndEq a b)
  | _, _ => none

end Value

end SmallLisp
