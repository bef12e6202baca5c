import SmallLisp.Equality
import SmallLisp.Printer

/-!
# Collections

Lists, strings, arrays, dictionaries and hash tables are read, written, measured and listed in one
way. The first three are indexed from zero; a dictionary takes any key and compares keys with
`EQUAL`; a hash table takes atoms and compares them with `EQL`. A key that is absent reads as the
empty list.

An array or a dictionary is borrowed while it is assigned to. The interpreter panics when it then
has to look into it: to print a key that is no index, or to compare a key with another one. A
comparison that does not end exhausts the stack there; both count as one abort.
-/

namespace SmallLisp

/-- Replace the value of the first entry whose key agrees, or add an entry at the end. -/
def assignAgreeing (test : Value → Value → Bool) (key value : Value) :
    List (Value × Value) → List (Value × Value)
  | [] => [(key, value)]
  | (k, v) :: rest =>
    if test k key then (k, value) :: rest else (k, v) :: assignAgreeing test key value rest

def indexed (items : List Value) : List (Value × Value) :=
  items.zipIdx.map fun (v, i) => (v, Value.ofNat i)

/-- A place in a collection that a value can be stored in. -/
inductive Place where
  | item (id : ArrayId) (index : Nat)
  | entry (id : DictionaryId) (key : Value)
  | hashed (id : HashTableId) (key : Value)
  | cell (id : CellId)
deriving DecidableEq, Repr

namespace Interp

/-- A key as an index below a length. -/
def indexBelow (s : Interp) (key : Value) (length : Nat) : Except Fault Nat :=
  match key with
  | .number (.int n) =>
    if 0 ≤ n.toInt ∧ n.toInt < length then .ok n.toInt.toNat
    else .error (.evaluation (.indexOutOfBounds n.toInt) none)
  | other => .error (.type (.integerIndex (s.print other)) none)

/-- What `find` has under a key that is an index below a length. That it has something is looked at
once more. -/
def lookUp {α : Type} (s : Interp) (key : Value) (length : Nat) (find : Nat → Option α) :
    Except Fault α :=
  match s.indexBelow key length with
  | .error fault => .error fault
  | .ok i =>
    match find i with
    | some a => .ok a
    | none => .error (.evaluation (.indexOutOfBounds i) none)

/-- What is looked up was found, under an index that is in bounds. -/
theorem lookUp_eq_ok_iff {α : Type} {s : Interp} {key : Value} {length : Nat}
    {find : Nat → Option α} {a : α} :
    s.lookUp key length find = .ok a ↔ ∃ i, s.indexBelow key length = .ok i ∧ find i = some a := by
  unfold lookUp
  cases s.indexBelow key length with
  | error fault => simp
  | ok i => cases h : find i <;> simp [h]

/-- The fault of using a value that is no collection as one. -/
def noCollection (v : Value) : Fault := .type (.collection v.typeName) none

/-- The fault of using a value with parts as a key of a hash table. -/
def noHashKey (v : Value) : Fault := .type (.hashKey v.typeName) none

def assignEntry (s : Interp) (entries : List (Value × Value)) (key value : Value) :
    List (Value × Value) :=
  assignAgreeing s.equal key value entries

def assignHashed (table : Table Value Value) (key value : Value) :
    Except Fault (Table Value Value) :=
  if key.isAtomKey then .ok (table.insert key value) else .error (noHashKey key)

/-- The element of a collection under a key. -/
def access (s : Interp) (target key : Value) : Except Fault Value :=
  match target with
  | .array id =>
    let items := s.arrayItems id
    (s.indexBelow key items.size).map fun i => (items[i]?).getD .nil
  | .dictionary id => .ok ((findAgreeing? s.equal key (s.dictionaryEntries id)).getD .nil)
  | .hashTable id =>
    if key.isAtomKey then .ok (((s.hashTable id).find? key).getD .nil)
    else .error (noHashKey key)
  | .nil | .cons _ => s.lookUp key (s.lengthOf target) (s.elementAt? target)
  | .string t =>
    let cs := t.toList
    s.lookUp key cs.length fun i => cs[i]?.map .character
  | other => .error (noCollection other)

/-- Whether assigning under a key comes back to the collection that is borrowed for it. -/
def looksBack (s : Interp) (target key : Value) : Bool :=
  match target with
  | .array id => s.rendersArray id printLevels key
  | .dictionary id => !s.searchable id key (s.dictionaryEntries id)
  | _ => false

/-- Where a key leads in a collection, if the assignment does not look back. A list keeps its cells;
one of them is the place. -/
def place (s : Interp) (target key : Value) : Except Fault Place :=
  match target with
  | .array id => (s.indexBelow key (s.arrayItems id).size).map (.item id)
  | .dictionary id => .ok (.entry id key)
  | .hashTable id => if key.isAtomKey then .ok (.hashed id key) else .error (noHashKey key)
  | .nil | .cons _ =>
    (s.lookUp key (s.lengthOf target) fun i => s.cellAt? i target).map .cell
  | .string _ => .error (.type .immutableString none)
  | other => .error (noCollection other)

def store (s : Interp) (value : Value) : Place → Interp
  | .item id i => s.setArrayItem id i value
  | .entry id key =>
    let entries := s.assignEntry (s.dictionaryEntries id) key value
    s.setDictionary id entries
  | .hashed id key =>
    let table := (s.hashTable id).insert key value
    s.setHashTable id table
  | .cell id => s.setCar id value

/-- The state after an assignment that does not look back. -/
def assign (s : Interp) (target key value : Value) : Except Fault Interp :=
  (s.place target key).map (s.store value)

def length (s : Interp) (target : Value) : Except Fault Nat :=
  match target with
  | .array id => .ok (s.arrayItems id).size
  | .dictionary id => .ok (s.dictionaryEntries id).length
  | .hashTable id => .ok (s.hashTable id).size
  | .nil | .cons _ => .ok (s.lengthOf target)
  | .string t => .ok t.length
  | other => .error (noCollection other)

/-- The elements of a collection with their keys, in order. -/
def entries (s : Interp) (target : Value) : Except Fault (List (Value × Value)) :=
  match target with
  | .array id => .ok (indexed (s.arrayItems id).toList)
  | .dictionary id => .ok ((s.dictionaryEntries id).map fun e => (e.2, e.1))
  | .hashTable id => .ok ((s.hashTable id).entries.map fun e => (e.2, e.1))
  | .nil | .cons _ => .ok (indexed (s.elementsOf target))
  | .string t => .ok (indexed (t.toList.map Value.character))
  | other => .error (noCollection other)

end Interp

/-- Store a value under a key of a collection. -/
def EvalM.assign (target key value : Value) : EvalM Unit := fun s =>
  if s.looksBack target key then .error .panicked s
  else
    match s.assign target key value with
    | .ok s => .ok () s
    | .error fault => .error (.fault fault) s

end SmallLisp
