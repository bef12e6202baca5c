import SmallLisp.Callable
import SmallLisp.Namespace

/-!
# The state of an interpreter

One value holds everything that an evaluation can change: the store of objects, each at an address
that never goes away, the namespaces, the chain of active scopes, the depth counters that exits aim
at, and the counters of generated symbols and of active evaluations. Nothing is outside it, so an
evaluation is a function of this value.

`Interp.initial` is the state before anything has been evaluated.
-/

namespace SmallLisp

abbrev Scope := Table SymbolId Value

/-- The depth counters, one for each kind of frame that an exit can aim at. -/
structure Depths where
  /-- Running lambdas and expanders. -/
  call : Nat
  /-- Running protected forms. -/
  guarded : Nat
  /-- Running loops. -/
  loop : Nat
  /-- Counters that only the host uses. -/
  other : Table String Nat
deriving Repr, Inhabited

inductive DepthKey where
  | call
  | guarded
  | loop
  | other (name : String)
deriving DecidableEq, Repr

namespace Depths

def zero : Depths := ⟨0, 0, 0, .empty⟩

def get (d : Depths) : DepthKey → Nat
  | .call => d.call
  | .guarded => d.guarded
  | .loop => d.loop
  | .other name => (d.other.find? name).getD 0

def set (d : Depths) (n : Nat) : DepthKey → Depths
  | .call => { d with call := n }
  | .guarded => { d with guarded := n }
  | .loop => { d with loop := n }
  | .other name => { d with other := d.other.insert name n }

def enter (d : Depths) (key : DepthKey) : Depths := d.set (d.get key + 1) key

/-- Leave a frame. A counter stays at zero once it is there. -/
def leave (d : Depths) (key : DepthKey) : Depths := d.set (d.get key - 1) key

/-- Setting a counter changes that one and no other. -/
theorem get_set (d : Depths) (n : Nat) (key k : DepthKey) :
    (d.set n key).get k = if key = k then n else d.get k := by
  cases key with
  | other name =>
    cases k with
    | other j => by_cases h : name = j <;> simp [set, get, Table.find?_insert, h]
    | _ => simp [set, get]
  | _ => cases k <;> simp [set, get]

@[simp]
theorem get_enter_self (d : Depths) (key : DepthKey) : (d.enter key).get key = d.get key + 1 := by
  simp [enter, get_set]

/-- Leaving the frame that was just entered restores every counter. -/
@[simp]
theorem get_leave_enter (d : Depths) (key k : DepthKey) :
    ((d.enter key).leave key).get k = d.get k := by
  by_cases h : key = k
  · subst h
    simp [leave, get_set]
  · simp [leave, enter, get_set, h]

@[simp]
theorem leave_enter_call (d : Depths) : (d.enter .call).leave .call = d := by
  simp [leave, enter, set, get]

@[simp]
theorem leave_enter_guarded (d : Depths) : (d.enter .guarded).leave .guarded = d := by
  simp [leave, enter, set, get]

@[simp]
theorem leave_enter_loop (d : Depths) : (d.enter .loop).leave .loop = d := by
  simp [leave, enter, set, get]

end Depths

/-- The state of an interpreter. -/
structure Interp where
  cells : Array Cell
  arrays : Array (Array Value)
  /-- Keys and values in the order of first insertion. -/
  dictionaries : Array (List (Value × Value))
  hashTables : Array (Table Value Value)
  callables : Array Callable
  scopes : Array Scope
  symbols : SymbolStore
  /-- Every namespace; no two have the same name. -/
  namespaces : Array Namespace
  /-- The namespace in which unqualified names are looked up. -/
  current : NamespaceId
  /-- The active scopes above the global one, innermost first. -/
  chain : List ScopeId
  depths : Depths
  /-- How many symbols have been generated. -/
  generated : Nat
  /-- How many form evaluations are active. -/
  active : Nat
  /-- How many form evaluations may be active. -/
  limit : Nat
deriving Repr

/-- The scope that is below every chain. -/
def ScopeId.global : ScopeId := ⟨0⟩

/-- The locked namespace of the standard library. -/
def NamespaceId.system : NamespaceId := ⟨0⟩

/-- The namespace of self-evaluating keywords. -/
def NamespaceId.keywords : NamespaceId := ⟨1⟩

/-- The namespace that is current at the start. -/
def NamespaceId.user : NamespaceId := ⟨2⟩

namespace Interp

def systemName : String := "GLISP"

def keywordsName : String := "KEYWORD"

def userName : String := "USER"

/-- The symbols of the standard library, in the order of their addresses: four that are no
operations, then the operations. -/
def systemSymbols : List Symbol :=
  [Symbol.named "NIL" true (some .nil), Symbol.named "T" true (some .truth),
    Symbol.named "&REST" true none, Symbol.named "&SELF" true none] ++
  Primitive.all.map fun op => Symbol.named op.name true none

/-- The names of the standard library with their symbols. -/
def systemTable : Table String SymbolId :=
  ⟨systemSymbols.zipIdx.map fun (s, i) => (s.name, ⟨i⟩)⟩

/-- The global bindings at the start: the two constants, and each operation under its name. -/
def systemScope : Scope :=
  ⟨[(SymbolId.nilSymbol, .nil), (SymbolId.trueSymbol, .truth)] ++
    Primitive.all.zipIdx.map fun (_, i) => (⟨i + 4⟩, .function ⟨i⟩)⟩

/-- The state before anything has been evaluated. The user namespace is current and has taken over
every name of the standard library. -/
def initial (limit : Nat) : Interp where
  cells := #[]
  arrays := #[]
  dictionaries := #[]
  hashTables := #[]
  callables := (Primitive.all.map Callable.primitive).toArray
  scopes := #[systemScope]
  symbols := systemSymbols.toArray
  namespaces := #[
    ⟨systemName, systemTable, systemTable, false, false, []⟩,
    ⟨keywordsName, .empty, .empty, true, true, []⟩,
    ⟨userName, systemTable, .empty, true, false, [systemName]⟩]
  current := .user
  chain := []
  depths := .zero
  generated := 0
  active := 0
  limit := limit

instance : Inhabited Interp := ⟨initial 0⟩

/-! ## Reading the store -/

def cell (s : Interp) (id : CellId) : Cell := (s.cells[id.index]?).getD ⟨.nil, .nil⟩

def car (s : Interp) (id : CellId) : Value := (s.cell id).car

def cdr (s : Interp) (id : CellId) : Value := (s.cell id).cdr

def arrayItems (s : Interp) (id : ArrayId) : Array Value := (s.arrays[id.index]?).getD #[]

def dictionaryEntries (s : Interp) (id : DictionaryId) : List (Value × Value) :=
  (s.dictionaries[id.index]?).getD []

def hashTable (s : Interp) (id : HashTableId) : Table Value Value :=
  (s.hashTables[id.index]?).getD .empty

def callable (s : Interp) (id : FunctionId) : Callable := (s.callables[id.index]?).getD default

def symbol (s : Interp) (id : SymbolId) : Symbol := (s.symbols[id.index]?).getD default

def namespaceAt (s : Interp) (id : NamespaceId) : Namespace :=
  (s.namespaces[id.index]?).getD default

def scope (s : Interp) (id : ScopeId) : Scope := (s.scopes[id.index]?).getD .empty

/-! ## Allocating and changing objects -/

def allocCell (s : Interp) (car cdr : Value) : Value × Interp :=
  (.cons ⟨s.cells.size⟩, { s with cells := s.cells.push ⟨car, cdr⟩ })

def setCar (s : Interp) (id : CellId) (v : Value) : Interp :=
  { s with cells := s.cells.modify id.index fun c => { c with car := v } }

/-- Change the second half of a cell. No program does this; see `LinkedBuilder`. -/
def setCdr (s : Interp) (id : CellId) (v : Value) : Interp :=
  { s with cells := s.cells.modify id.index fun c => { c with cdr := v } }

/-- A new cell has the next address; every older cell is as it was. -/
theorem cell_allocCell (s : Interp) (car cdr : Value) (id : CellId) :
    (s.allocCell car cdr).2.cell id =
      if id.index = s.cells.size then ⟨car, cdr⟩ else s.cell id := by
  by_cases h : id.index = s.cells.size <;> simp [allocCell, cell, Array.getElem?_push, h]

/-- A change of first halves leaves every second half alone. -/
@[simp]
theorem cdr_setCar (s : Interp) (id j : CellId) (v : Value) : (s.setCar id v).cdr j = s.cdr j := by
  simp only [setCar, cdr, cell, Array.getElem?_modify]
  split
  · cases s.cells[j.index]? <;> rfl
  · rfl

/-- A change of first halves reaches a single cell. -/
theorem car_setCar_of_ne (s : Interp) {id j : CellId} (v : Value) (h : id ≠ j) :
    (s.setCar id v).car j = s.car j := by
  have hindex : id.index ≠ j.index := fun e => h (by cases id; cases j; simp_all)
  simp [setCar, car, cell, Array.getElem?_modify, hindex]

def allocArray (s : Interp) (items : Array Value) : Value × Interp :=
  (.array ⟨s.arrays.size⟩, { s with arrays := s.arrays.push items })

def setArrayItem (s : Interp) (id : ArrayId) (i : Nat) (v : Value) : Interp :=
  { s with arrays := s.arrays.modify id.index fun items => items.setIfInBounds i v }

def allocDictionary (s : Interp) (entries : List (Value × Value)) : Value × Interp :=
  (.dictionary ⟨s.dictionaries.size⟩, { s with dictionaries := s.dictionaries.push entries })

def setDictionary (s : Interp) (id : DictionaryId) (entries : List (Value × Value)) : Interp :=
  { s with dictionaries := s.dictionaries.setIfInBounds id.index entries }

def allocHashTable (s : Interp) (table : Table Value Value) : Value × Interp :=
  (.hashTable ⟨s.hashTables.size⟩, { s with hashTables := s.hashTables.push table })

def setHashTable (s : Interp) (id : HashTableId) (table : Table Value Value) : Interp :=
  { s with hashTables := s.hashTables.setIfInBounds id.index table }

def allocCallable (s : Interp) (f : Callable) : Value × Interp :=
  (.function ⟨s.callables.size⟩, { s with callables := s.callables.push f })

def allocScope (s : Interp) (bindings : Scope) : ScopeId × Interp :=
  (⟨s.scopes.size⟩, { s with scopes := s.scopes.push bindings })

def bindIn (s : Interp) (id : ScopeId) (x : SymbolId) (v : Value) : Interp :=
  { s with scopes := s.scopes.modify id.index fun scope => scope.insert x v }

def setNamespace (s : Interp) (id : NamespaceId) (ns : Namespace) : Interp :=
  { s with namespaces := s.namespaces.setIfInBounds id.index ns }

theorem namespaceAt_setNamespace (s : Interp) (id j : NamespaceId) (ns : Namespace) :
    (s.setNamespace id ns).namespaceAt j =
      if id = j ∧ id.index < s.namespaces.size then ns else s.namespaceAt j := by
  obtain ⟨i⟩ := id
  obtain ⟨j⟩ := j
  by_cases hi : i < s.namespaces.size
  · by_cases hij : i = j
    · subst hij
      simp [setNamespace, namespaceAt, hi]
    · simp [setNamespace, namespaceAt, hij]
  · have hsame : s.namespaces.setIfInBounds i ns = s.namespaces :=
      Array.setIfInBounds_eq_of_size_le (Nat.le_of_not_lt hi)
    simp [setNamespace, namespaceAt, hsame, hi]

/-- Putting back the namespace that is there changes nothing. -/
theorem setNamespace_self (s : Interp) (id : NamespaceId) :
    s.setNamespace id (s.namespaceAt id) = s := by
  have hnamespaces : s.namespaces.setIfInBounds id.index (s.namespaceAt id) = s.namespaces := by
    apply Array.ext_getElem?
    intro i
    rw [Array.getElem?_setIfInBounds]
    split
    next hi =>
      subst hi
      split
      next hlt =>
        unfold namespaceAt
        rw [Array.getElem?_eq_getElem hlt]
        rfl
      next hge => rw [Array.getElem?_eq_none (Nat.le_of_not_lt hge)]
    next => rfl
  unfold setNamespace
  rw [hnamespaces]

/-- The address of a namespace by name. -/
def findNamespace? (s : Interp) (name : String) : Option NamespaceId :=
  (s.namespaces.findIdx? fun ns => ns.name == name).map (⟨·⟩)

/-! ## The scope chain -/

def currentScope (s : Interp) : ScopeId := s.chain.headD .global

/-- The active scopes, innermost first and the global one last. -/
def activeScopes (s : Interp) : List ScopeId := s.chain ++ [.global]

/-- The value of a symbol in the innermost scope that binds it. -/
def lookup? (s : Interp) (x : SymbolId) : Option Value :=
  match s.chain.findSome? fun id => (s.scope id).find? x with
  | some v => some v
  | none => (s.scope .global).find? x

/-- A look-up finds the first of the active scopes that binds the symbol. -/
theorem lookup?_eq_findSome? (s : Interp) (x : SymbolId) :
    s.lookup? x = s.activeScopes.findSome? fun id => (s.scope id).find? x := by
  simp only [lookup?, activeScopes, List.findSome?_append]
  cases s.chain.findSome? fun id => (s.scope id).find? x <;> simp

/-- The innermost scope that binds a symbol. -/
def holder? (s : Interp) (x : SymbolId) : Option ScopeId :=
  s.activeScopes.find? fun id => (s.scope id).contains x

def bind (s : Interp) (x : SymbolId) (v : Value) : Interp := s.bindIn s.currentScope x v

def bindGlobal (s : Interp) (x : SymbolId) (v : Value) : Interp := s.bindIn .global x v

def pushScope (s : Interp) (id : ScopeId) : Interp := { s with chain := id :: s.chain }

/-- Leave the innermost scope. The global scope is never left. -/
def popScope (s : Interp) : Interp := { s with chain := s.chain.tail }

@[simp]
theorem popScope_pushScope (s : Interp) (id : ScopeId) : (s.pushScope id).popScope = s := rfl

/-- A binding changes one scope, in the entry of one symbol. -/
theorem find?_bindIn (s : Interp) (id j : ScopeId) (x y : SymbolId) (v : Value)
    (h : id.index < s.scopes.size) :
    ((s.bindIn id x v).scope j).find? y =
      if id = j ∧ x = y then some v else (s.scope j).find? y := by
  obtain ⟨i⟩ := id
  obtain ⟨j⟩ := j
  by_cases hij : i = j
  · subst hij
    simp only [bindIn, scope, Array.getElem?_modify, true_and, if_true]
    have hsome : s.scopes[i]? = some s.scopes[i] := Array.getElem?_eq_getElem h
    simp [hsome, Table.find?_insert]
  · simp [bindIn, scope, Array.getElem?_modify, hij]

theorem bindIn_of_size_le (s : Interp) {id : ScopeId} (x : SymbolId) (v : Value)
    (h : s.scopes.size ≤ id.index) : s.bindIn id x v = s := by
  have hmodify : (s.scopes.modify id.index fun scope => scope.insert x v) = s.scopes := by
    apply Array.ext_getElem?
    intro i
    rw [Array.getElem?_modify]
    split
    next heq => rw [← heq, Array.getElem?_eq_none h, Option.map_none]
    next => rfl
  unfold bindIn
  rw [hmodify]

theorem find?_bindIn_of_ne (s : Interp) (id j : ScopeId) {x y : SymbolId} (v : Value) (h : x ≠ y) :
    ((s.bindIn id x v).scope j).find? y = (s.scope j).find? y := by
  by_cases hid : id.index < s.scopes.size
  · rw [find?_bindIn s id j x y v hid, if_neg fun hx => h hx.2]
  · rw [bindIn_of_size_le s x v (Nat.le_of_not_lt hid)]

/-- A scope that binds something exists. -/
theorem lt_of_find?_scope {s : Interp} {id : ScopeId} {x : SymbolId}
    (h : ((s.scope id).find? x).isSome = true) : id.index < s.scopes.size := by
  apply Nat.lt_of_not_le
  intro hle
  unfold scope at h
  rw [Array.getElem?_eq_none hle] at h
  cases h

/-- A new scope has the next address; every older scope is as it was. -/
theorem scope_allocScope (s : Interp) (bindings : Scope) (id : ScopeId) :
    (s.allocScope bindings).2.scope id =
      if id.index = s.scopes.size then bindings else s.scope id := by
  by_cases h : id.index = s.scopes.size <;> simp [allocScope, scope, Array.getElem?_push, h]

/-- The bindings of all scopes above the global one in a single scope, the innermost winning. -/
def captured (s : Interp) : Scope :=
  s.chain.foldr (fun id acc => acc.insertAll (s.scope id)) .empty

/-- What is captured is what a look-up finds above the global scope. -/
theorem find?_captured (s : Interp) (x : SymbolId) :
    s.captured.find? x = s.chain.findSome? fun id => (s.scope id).find? x := by
  unfold captured
  induction s.chain with
  | nil => rfl
  | cons id rest ih =>
    rw [List.foldr_cons, Table.find?_insertAll, ih, List.findSome?_cons]
    cases (s.scope id).find? x <;> rfl

end Interp

end SmallLisp
