import SmallLisp.Proofs.Comparison
import SmallLisp.Proofs.PairedRuns
import SmallLisp.Proofs.Spine

/-!
# Cells at other addresses

A relocation gives every cell an address of its own. `Relocated r s t` says that `t` is the state
`s` with its cells at these addresses, cells that are allocated from now on included. Between them
`t` may have further cells that nothing refers to, and the counts of active evaluations are left
out. What is read off `t` at relocated values is then what is read off `s`, relocated, and what is
printed or compared is the same.
-/

namespace SmallLisp

/-- A choice of addresses for cells. No two of them get the same. -/
structure Relocation where
  move : CellId → CellId
  injective : Function.Injective move

/-- Every cell stays where it is. -/
def Relocation.still : Relocation := ⟨id, Function.injective_id⟩

variable {r : Relocation}

/-! ## Relocated data -/

def Value.relocate (r : Relocation) : Value → Value
  | .cons id => .cons (r.move id)
  | v => v

namespace Value

@[simp]
theorem relocate_cons (id : CellId) : (cons id).relocate r = cons (r.move id) := rfl

@[simp]
theorem relocate_nil : nil.relocate r = nil := rfl

@[simp]
theorem relocate_truth : truth.relocate r = truth := rfl

@[simp]
theorem relocate_symbol (x : SymbolId) : (symbol x).relocate r = symbol x := rfl

@[simp]
theorem relocate_number (n : Number) : (number n).relocate r = number n := rfl

@[simp]
theorem relocate_string (text : String) : (string text).relocate r = string text := rfl

@[simp]
theorem relocate_character (c : Char) : (character c).relocate r = character c := rfl

@[simp]
theorem relocate_array (id : ArrayId) : (array id).relocate r = array id := rfl

@[simp]
theorem relocate_dictionary (id : DictionaryId) : (dictionary id).relocate r = dictionary id := rfl

@[simp]
theorem relocate_hashTable (id : HashTableId) : (hashTable id).relocate r = hashTable id := rfl

@[simp]
theorem relocate_function (f : FunctionId) : (function f).relocate r = function f := rfl

@[simp]
theorem relocate_names (id : NamespaceId) : (names id).relocate r = names id := rfl

theorem relocate_injective (r : Relocation) : Function.Injective (relocate r) := by
  intro v w h
  cases v with
  | cons id =>
    cases w with
    | cons id' => rw [r.injective (cons.inj h)]
    | _ => cases h
  | _ =>
    cases w with
    | cons id' => cases h
    | _ => exact h

@[simp]
theorem relocate_inj {v w : Value} : v.relocate r = w.relocate r ↔ v = w :=
  (relocate_injective r).eq_iff

@[simp]
theorem relocate_still (v : Value) : v.relocate .still = v := by cases v <;> rfl

@[simp]
theorem isNil_relocate (v : Value) : (v.relocate r).isNil = v.isNil := by cases v <;> rfl

@[simp]
theorem isTrue_relocate (v : Value) : (v.relocate r).isTrue = v.isTrue := by cases v <;> rfl

@[simp]
theorem isAtomKey_relocate (v : Value) : (v.relocate r).isAtomKey = v.isAtomKey := by
  cases v <;> rfl

@[simp]
theorem typeName_relocate (v : Value) : (v.relocate r).typeName = v.typeName := by
  cases v <;> rfl

@[simp]
theorem relocate_ofBool (b : Bool) : (ofBool b).relocate r = ofBool b := by cases b <;> rfl

@[simp]
theorem relocate_ofNat (n : Nat) : (ofNat n).relocate r = ofNat n := rfl

end Value

/-- The key and the value of an entry, relocated. -/
abbrev relocateEntry (r : Relocation) : Value × Value → Value × Value :=
  Prod.map (Value.relocate r) (Value.relocate r)

def Cell.relocate (r : Relocation) (c : Cell) : Cell := ⟨c.car.relocate r, c.cdr.relocate r⟩

def Closure.relocate (r : Relocation) (c : Closure) : Closure :=
  { c with body := c.body.relocate r }

def Callable.relocate (r : Relocation) : Callable → Callable
  | .lambda c => .lambda (c.relocate r)
  | .expander c => .expander (c.relocate r)
  | f => f

namespace Callable

variable (r : Relocation) (f : Callable)

@[simp]
theorem minArgs_relocate : (f.relocate r).minArgs = f.minArgs := by cases f <;> rfl

@[simp]
theorem evaluatesArguments_relocate :
    (f.relocate r).evaluatesArguments = f.evaluatesArguments := by cases f <;> rfl

@[simp]
theorem assignPlace?_relocate :
    SpecialForm.assignPlace? (f.relocate r) = SpecialForm.assignPlace? f := by cases f <;> rfl

end Callable

def Signal.relocate (r : Relocation) : Signal → Signal
  | .returning v depth => .returning (v.relocate r) depth
  | σ => σ

def Flow.relocate (r : Relocation) : Flow → Flow
  | .signal σ => .signal (σ.relocate r)
  | flow => flow

def Place.relocate (r : Relocation) : Place → Place
  | .entry id key => .entry id (key.relocate r)
  | .hashed id key => .hashed id (key.relocate r)
  | .cell id => .cell (r.move id)
  | place => place

/-! ## Tables -/

namespace Table

variable {κ α : Type} {f : κ → κ} {g : α → α}

/-- The table with its keys and its values changed. -/
def mapEntries (f : κ → κ) (g : α → α) (t : Table κ α) : Table κ α :=
  ⟨t.entries.map (Prod.map f g)⟩

@[simp]
theorem size_mapEntries (t : Table κ α) : (t.mapEntries f g).size = t.size := by
  simp [mapEntries, size]

variable [DecidableEq κ] (hf : Function.Injective f)

include hf

theorem find?_mapEntries (t : Table κ α) (k : κ) :
    (t.mapEntries f g).find? (f k) = (t.find? k).map g := by
  obtain ⟨es⟩ := t
  unfold find? mapEntries
  induction es with
  | nil => rfl
  | cons e rest ih =>
    simp only [List.map_cons, lookupIn?, Prod.map_fst, Prod.map_snd, hf.eq_iff, ih]
    split <;> rfl

theorem insert_mapEntries (t : Table κ α) (k : κ) (a : α) :
    (t.mapEntries f g).insert (f k) (g a) = (t.insert k a).mapEntries f g := by
  obtain ⟨es⟩ := t
  unfold insert mapEntries
  congr 1
  induction es with
  | nil => rfl
  | cons e rest ih =>
    simp only [List.map_cons, insertIn, Prod.map_fst, Prod.map_snd, hf.eq_iff, ih]
    split <;> rfl

theorem insertAll_mapEntries (base t : Table κ α) :
    (base.mapEntries f g).insertAll (t.mapEntries f g) =
      (base.insertAll t).mapEntries f g := by
  obtain ⟨es⟩ := t
  unfold insertAll
  induction es with
  | nil => rfl
  | cons e rest ih =>
    simp only [mapEntries, List.map_cons, List.foldr_cons, Prod.map_fst, Prod.map_snd] at ih ⊢
    rw [ih]
    exact insert_mapEntries hf _ e.1 e.2

end Table

/-- A scope with its values relocated. -/
abbrev relocateScope (r : Relocation) : Scope → Scope := Table.mapEntries id (Value.relocate r)

/-- A hash table with its keys and values relocated. -/
abbrev relocateTable (r : Relocation) : Table Value Value → Table Value Value :=
  Table.mapEntries (Value.relocate r) (Value.relocate r)

/-! ## Relocated states -/

/-- `t` is `s` with its cells relocated. -/
structure Relocated (r : Relocation) (s t : Interp) : Prop where
  cell : ∀ id, t.cell (r.move id) = (s.cell id).relocate r
  /-- The cells that are not there yet will be relocated in order. -/
  fresh : ∀ n, r.move ⟨s.cells.size + n⟩ = ⟨t.cells.size + n⟩
  arrays : t.arrays = s.arrays.map fun items => items.map (Value.relocate r)
  dictionaries : t.dictionaries = s.dictionaries.map fun es => es.map (relocateEntry r)
  hashTables : t.hashTables = s.hashTables.map (relocateTable r)
  callables : t.callables = s.callables.map (Callable.relocate r)
  scopes : t.scopes = s.scopes.map (relocateScope r)
  symbols : t.symbols = s.symbols
  namespaces : t.namespaces = s.namespaces
  current : t.current = s.current
  chain : t.chain = s.chain
  depths : t.depths = s.depths
  generated : t.generated = s.generated
  /-- No function of the host is installed, which might look at addresses. -/
  hostless : s.HostsAre fun _ => False

namespace Relocated

variable {s t : Interp} (h : Relocated r s t)

include h

/-- A cell is there in both states or in none. -/
theorem index_lt_iff {id : CellId} :
    (r.move id).index < t.cells.size ↔ id.index < s.cells.size := by
  constructor
  · intro hlt
    by_contra hge
    have hfresh := h.fresh (id.index - s.cells.size)
    rw [Nat.add_sub_cancel' (Nat.le_of_not_lt hge)] at hfresh
    rw [hfresh] at hlt
    exact absurd hlt (Nat.not_lt_of_le (Nat.le_add_right _ _))
  · intro hlt
    by_contra hge
    have hfresh := h.fresh ((r.move id).index - t.cells.size)
    rw [Nat.add_sub_cancel' (Nat.le_of_not_lt hge)] at hfresh
    rw [← r.injective hfresh] at hlt
    exact absurd hlt (Nat.not_lt_of_le (Nat.le_add_right _ _))

/-! ## Reading the store -/

theorem car (id : CellId) : t.car (r.move id) = (s.car id).relocate r :=
  congrArg Cell.car (h.cell id)

theorem cdr (id : CellId) : t.cdr (r.move id) = (s.cdr id).relocate r :=
  congrArg Cell.cdr (h.cell id)

theorem arrayItems (id : ArrayId) :
    t.arrayItems id = (s.arrayItems id).map (Value.relocate r) := by
  unfold Interp.arrayItems
  rw [h.arrays, Array.getElem?_map]
  cases s.arrays[id.index]? <;> simp

theorem dictionaryEntries (id : DictionaryId) :
    t.dictionaryEntries id = (s.dictionaryEntries id).map (relocateEntry r) := by
  unfold Interp.dictionaryEntries
  rw [h.dictionaries, Array.getElem?_map]
  cases s.dictionaries[id.index]? <;> rfl

theorem hashTable (id : HashTableId) :
    t.hashTable id = relocateTable r (s.hashTable id) := by
  unfold Interp.hashTable
  rw [h.hashTables, Array.getElem?_map]
  cases s.hashTables[id.index]? <;> rfl

theorem callable (f : FunctionId) : t.callable f = (s.callable f).relocate r := by
  unfold Interp.callable
  rw [h.callables, Array.getElem?_map]
  cases s.callables[f.index]? <;> rfl

theorem scope (id : ScopeId) : t.scope id = relocateScope r (s.scope id) := by
  unfold Interp.scope
  rw [h.scopes, Array.getElem?_map]
  cases s.scopes[id.index]? <;> rfl

theorem symbol (x : SymbolId) : t.symbol x = s.symbol x := by
  unfold Interp.symbol
  rw [h.symbols]

theorem namespaceAt (id : NamespaceId) : t.namespaceAt id = s.namespaceAt id := by
  unfold Interp.namespaceAt
  rw [h.namespaces]

theorem find?_scope (id : ScopeId) (x : SymbolId) :
    (t.scope id).find? x = ((s.scope id).find? x).map (Value.relocate r) := by
  rw [h.scope]
  exact Table.find?_mapEntries Function.injective_id _ x

theorem lookup? (x : SymbolId) : t.lookup? x = (s.lookup? x).map (Value.relocate r) := by
  rw [Interp.lookup?_eq_findSome?, Interp.lookup?_eq_findSome?, List.map_findSome?]
  unfold Interp.activeScopes
  simp only [h.chain, h.find?_scope]
  rfl

theorem holder? (x : SymbolId) : t.holder? x = s.holder? x := by
  unfold Interp.holder? Interp.activeScopes Table.contains
  simp only [h.chain, h.find?_scope, Option.isSome_map]

theorem captured : t.captured = relocateScope r s.captured := by
  unfold Interp.captured
  rw [h.chain]
  induction s.chain with
  | nil => rfl
  | cons id rest ih =>
    rw [List.foldr_cons, List.foldr_cons, ih, h.scope, relocateScope]
    exact Table.insertAll_mapEntries Function.injective_id _ _

/-! ## Lists -/

theorem walk? (n : Nat) (seen : List CellId) (v : Value) :
    t.walk? n (seen.map r.move) (v.relocate r) =
      (s.walk? n seen v).map fun p => (p.1.map r.move, p.2.relocate r) := by
  induction n generalizing seen v with
  | zero => cases v <;> simp [Interp.walk?]
  | succ n ih =>
    cases v with
    | cons id => simpa [Interp.walk?, h.cdr] using ih (id :: seen) (s.cdr id)
    | _ => simp [Interp.walk?]

theorem spine (v : Value) :
    t.spine (v.relocate r) = ((s.spine v).1.map r.move, (s.spine v).2.relocate r) := by
  by_cases hend : ∃ n p, s.walk? n [] v = some p
  · obtain ⟨n, p, hp⟩ := hend
    have hwalk := h.walk? n [] v
    rw [hp] at hwalk
    rw [Interp.spine_eq_of_walk? hp, Interp.spine_eq_of_walk? hwalk]
  · simp only [not_exists, ← Option.eq_none_iff_forall_ne_some] at hend
    rw [Interp.spine, Interp.spine, hend]
    have hwalk := h.walk? (t.cells.size + 1) [] v
    rw [hend] at hwalk
    exact congrArg (fun o => Option.getD o ([], v.relocate r)) hwalk

theorem cellsOf (v : Value) : t.cellsOf (v.relocate r) = (s.cellsOf v).map r.move := by
  rw [Interp.cellsOf, h.spine, Interp.cellsOf]

theorem isProper (v : Value) : t.isProper (v.relocate r) = s.isProper v := by
  simp [Interp.isProper, Interp.tailOf, h.spine]

theorem lengthOf (v : Value) : t.lengthOf (v.relocate r) = s.lengthOf v := by
  simp [Interp.lengthOf, h.cellsOf]

theorem elementsOf (v : Value) :
    t.elementsOf (v.relocate r) = (s.elementsOf v).map (Value.relocate r) := by
  simp [Interp.elementsOf, h.cellsOf, h.car, Function.comp_def]

theorem properElements? (v : Value) :
    t.properElements? (v.relocate r) =
      (s.properElements? v).map (List.map (Value.relocate r)) := by
  unfold Interp.properElements?
  rw [h.isProper, h.elementsOf]
  split <;> rfl

theorem car? (v : Value) : t.car? (v.relocate r) = (s.car? v).map (Value.relocate r) := by
  cases v with
  | cons id => exact congrArg some (h.car id)
  | _ => rfl

theorem cdr? (v : Value) : t.cdr? (v.relocate r) = (s.cdr? v).map (Value.relocate r) := by
  cases v with
  | cons id => exact congrArg some (h.cdr id)
  | _ => rfl

theorem cellAt? (n : Nat) (v : Value) :
    t.cellAt? n (v.relocate r) = (s.cellAt? n v).map r.move := by
  induction n generalizing v with
  | zero => cases v <;> rfl
  | succ n ih =>
    cases v with
    | cons id => simpa [Interp.cellAt?, h.cdr] using ih (s.cdr id)
    | _ => rfl

theorem elementAt? (v : Value) (i : Nat) :
    t.elementAt? (v.relocate r) i = (s.elementAt? v i).map (Value.relocate r) := by
  simp [Interp.elementAt?, h.cellAt?, h.car, Function.comp_def]

theorem first (v : Value) : t.first (v.relocate r) = (s.first v).relocate r := by
  unfold Interp.first
  rw [h.car?]
  cases s.car? v <;> rfl

theorem second (v : Value) : t.second (v.relocate r) = (s.second v).relocate r := by
  unfold Interp.second
  rw [h.elementAt?]
  cases s.elementAt? v 1 <;> rfl

theorem third? (v : Value) : t.third? (v.relocate r) = (s.third? v).map (Value.relocate r) :=
  h.elementAt? v 2

theorem rest (v : Value) : t.rest (v.relocate r) = (s.rest v).relocate r := by
  unfold Interp.rest
  rw [h.cdr?]
  cases s.cdr? v <;> rfl

/-! ## Printed values -/

theorem printSymbol (x : SymbolId) : t.printSymbol x = s.printSymbol x := by
  simp [Interp.printSymbol, Interp.renderSymbol, h.symbol]

theorem reservedBinding (x : SymbolId) :
    reservedBinding t x = SmallLisp.reservedBinding s x := by
  rw [SmallLisp.reservedBinding, h.printSymbol, SmallLisp.reservedBinding]

theorem renderSymbol : t.renderSymbol = s.renderSymbol := by
  funext x
  rw [Interp.renderSymbol, h.symbol, Interp.renderSymbol]

theorem renderCallable (f : Callable) :
    t.renderCallable (f.relocate r) = s.renderCallable f := by
  unfold Interp.renderCallable
  rw [h.renderSymbol]
  cases f <;> rfl

theorem renderAtom (v : Value) : t.renderAtom (v.relocate r) = s.renderAtom v := by
  cases v with
  | symbol x => exact congrFun h.renderSymbol x
  | function f =>
    show t.renderCallable (t.callable f) = s.renderCallable (s.callable f)
    rw [h.callable, h.renderCallable]
  | names id =>
    show _ ++ (t.namespaceAt id).name.toList ++ _ = _
    rw [h.namespaceAt]
    rfl
  | _ => rfl

theorem render (n : Nat) (v : Value) : t.render n (v.relocate r) = s.render n v := by
  induction n generalizing v with
  | zero => exact h.renderAtom v
  | succ n ih =>
    have hrender : t.render n ∘ Value.relocate r = s.render n := funext ih
    cases v with
    | cons id =>
      have hspine := h.spine (.cons id)
      rw [Value.relocate_cons] at hspine ⊢
      unfold Interp.render
      simp only [hspine, Value.isNil_relocate, ih, List.map_map, Function.comp_def, h.car]
    | array id =>
      unfold Interp.render
      simp [h.arrayItems, hrender]
    | dictionary id =>
      unfold Interp.render
      simp [h.dictionaryEntries, ih, List.flatMap_map]
    | hashTable id =>
      unfold Interp.render
      simp [h.hashTable, ih, Table.mapEntries, List.flatMap_map]
    | _ => exact h.renderAtom _

theorem print (v : Value) : t.print (v.relocate r) = s.print v := by
  rw [Interp.print, h.render, Interp.print]

theorem rendersArray (target : ArrayId) (n : Nat) (v : Value) :
    t.rendersArray target n (v.relocate r) = s.rendersArray target n v := by
  induction n generalizing v with
  | zero => cases v <;> rfl
  | succ n ih =>
    cases v with
    | cons id =>
      have hspine := h.spine (.cons id)
      rw [Value.relocate_cons] at hspine ⊢
      unfold Interp.rendersArray
      simp only [hspine, ih, List.any_map, Function.comp_def, h.car]
    | array id =>
      unfold Interp.rendersArray
      simp [h.arrayItems, ih]
    | dictionary id =>
      unfold Interp.rendersArray
      simp [h.dictionaryEntries, ih, Function.comp_def]
    | hashTable id =>
      unfold Interp.rendersArray
      simp [h.hashTable, ih, Table.mapEntries, Function.comp_def]
    | _ => rfl

/-- A fault that mentions a value. -/
theorem mentioning {α : Type} (cause : String → Fault) (v : Value) :
    (.error (cause (t.print (v.relocate r))) : Except Fault α) = .error (cause (s.print v)) := by
  rw [h.print]

/-! ## Comparisons -/

omit h in
theorem comparePairs {test test' : Value → Value → Option Bool}
    (htest : ∀ a b, test' (a.relocate r) (b.relocate r) = test a b) (as bs : List Value) :
    comparePairs test' (as.map (Value.relocate r)) (bs.map (Value.relocate r)) =
      SmallLisp.comparePairs test as bs := by
  induction as generalizing bs with
  | nil => cases bs <;> rfl
  | cons a as ih =>
    cases bs with
    | nil => rfl
    | cons b bs => simp only [List.map_cons, SmallLisp.comparePairs, htest, ih]

omit h in
theorem searchEntries {test test' : Value → Value → Option Bool}
    (htest : ∀ a b, test' (a.relocate r) (b.relocate r) = test a b) (key : Value)
    (es : List (Value × Value)) :
    searchEntries test' (key.relocate r) (es.map (relocateEntry r)) =
      (SmallLisp.searchEntries test key es).map (Option.map (Value.relocate r)) := by
  induction es with
  | nil => rfl
  | cons e es ih =>
    simp only [List.map_cons, SmallLisp.searchEntries, Prod.map_fst, Prod.map_snd, htest, ih]
    rcases test e.1 key with _ | _ | _ <;> rfl

omit h in
theorem compareEntries {test test' : Value → Value → Option Bool}
    (htest : ∀ a b, test' (a.relocate r) (b.relocate r) = test a b)
    (right es : List (Value × Value)) :
    compareEntries test' (right.map (relocateEntry r)) (es.map (relocateEntry r)) =
      SmallLisp.compareEntries test right es := by
  induction es with
  | nil => rfl
  | cons e es ih =>
    simp only [List.map_cons, SmallLisp.compareEntries, Prod.map_fst, Prod.map_snd,
      searchEntries htest, ih]
    rcases SmallLisp.searchEntries test e.1 right with _ | _ | v
    · rfl
    · rfl
    · simp only [Option.map_some, htest]

theorem compareParts {test test' : Value → Value → Option Bool}
    (htest : ∀ a b, test' (a.relocate r) (b.relocate r) = test a b) (v w : Value) :
    t.compareParts test' (v.relocate r) (w.relocate r) = s.compareParts test v w := by
  cases v with
  | cons x =>
    cases w with
    | cons y =>
      have hpairs := comparePairs htest [s.car x, s.cdr x] [s.car y, s.cdr y]
      simp only [List.map_cons, List.map_nil] at hpairs
      simp only [Value.relocate_cons, Interp.compareParts, h.car, h.cdr, hpairs,
        r.injective.eq_iff]
    | _ => rfl
  | array x =>
    cases w with
    | array y =>
      simp only [Value.relocate_array, Interp.compareParts, h.arrayItems, Array.toList_map,
        List.length_map, comparePairs htest]
    | _ => rfl
  | dictionary x =>
    cases w with
    | dictionary y =>
      simp only [Value.relocate_dictionary, Interp.compareParts, h.dictionaryEntries,
        List.length_map, compareEntries htest]
    | _ => rfl
  | _ => cases w <;> rfl

omit h in
theorem looksInto (id : DictionaryId) (v w : Value) :
    Interp.looksInto id (v.relocate r) (w.relocate r) = Interp.looksInto id v w := by
  cases v <;> cases w <;> rfl

theorem compareWithin? (borrowed : Option DictionaryId) (n : Nat) (v w : Value) :
    t.compareWithin? borrowed n (v.relocate r) (w.relocate r) =
      s.compareWithin? borrowed n v w := by
  induction n generalizing v w with
  | zero => rfl
  | succ n ih => simp only [Interp.compareWithin?, looksInto, h.compareParts ih]

theorem equal (v w : Value) : t.equal (v.relocate r) (w.relocate r) = s.equal v w := by
  have hcompare := h.compareWithin? none
  by_cases hend : ∃ n answer, s.compare? n v w = some answer
  · obtain ⟨n, answer, hanswer⟩ := hend
    rw [Interp.equal_of_compare? hanswer,
      Interp.equal_of_compare? ((hcompare n v w).trans hanswer)]
  · simp only [not_exists, ← Option.eq_none_iff_forall_ne_some] at hend
    rw [Interp.equal_of_endless hend,
      Interp.equal_of_endless fun n => (hcompare n v w).trans (hend n)]

theorem searchable (id : DictionaryId) (key : Value) (es : List (Value × Value)) :
    t.searchable id (key.relocate r) (es.map (relocateEntry r)) = s.searchable id key es := by
  rw [Bool.eq_iff_iff]
  simp only [Interp.searchable_iff, searchEntries (h.compareWithin? (some id) _),
    Option.map_eq_some_iff]
  constructor
  · rintro ⟨n, _, found, hfound, -⟩
    exact ⟨n, found, hfound⟩
  · rintro ⟨n, found, hfound⟩
    exact ⟨n, _, found, hfound, rfl⟩

/-! ## Collections -/

theorem findAgreeing? (key : Value) (es : List (Value × Value)) :
    findAgreeing? t.equal (key.relocate r) (es.map (relocateEntry r)) =
      (SmallLisp.findAgreeing? s.equal key es).map (Value.relocate r) := by
  induction es with
  | nil => rfl
  | cons e es ih =>
    simp only [List.map_cons, SmallLisp.findAgreeing?, Prod.map_fst, Prod.map_snd, h.equal, ih]
    split <;> rfl

theorem assignEntry (es : List (Value × Value)) (key v : Value) :
    t.assignEntry (es.map (relocateEntry r)) (key.relocate r) (v.relocate r) =
      (s.assignEntry es key v).map (relocateEntry r) := by
  unfold Interp.assignEntry
  induction es with
  | nil => rfl
  | cons e es ih =>
    simp only [List.map_cons, assignAgreeing, Prod.map_fst, Prod.map_snd, h.equal, ih]
    split <;> rfl

theorem indexBelow (key : Value) (length : Nat) :
    t.indexBelow (key.relocate r) length = s.indexBelow key length := by
  cases key with
  | number n =>
    cases n with
    | int n => rfl
    | float x =>
      exact h.mentioning (fun text => .type (.integerIndex text) none) (.number (.float x))
  | _ => exact h.mentioning (fun text => .type (.integerIndex text) none) _

theorem lookUp {α : Type} (key : Value) (length : Nat) (find : Nat → Option α) (g : α → α) :
    t.lookUp (key.relocate r) length (fun i => (find i).map g) =
      (s.lookUp key length find).map g := by
  unfold Interp.lookUp
  rw [h.indexBelow]
  cases s.indexBelow key length with
  | error fault => rfl
  | ok i => cases hfind : find i <;> simp [hfind, Except.map]

theorem access (target key : Value) :
    t.access (target.relocate r) (key.relocate r) =
      (s.access target key).map (Value.relocate r) := by
  have hlist : ∀ target, t.lookUp (key.relocate r) (t.lengthOf (target.relocate r))
      (t.elementAt? (target.relocate r)) =
        (s.lookUp key (s.lengthOf target) (s.elementAt? target)).map (Value.relocate r) := by
    intro target
    rw [h.lengthOf, ← h.lookUp]
    exact congrArg _ (funext fun i => h.elementAt? target i)
  cases target with
  | array id =>
    simp only [Value.relocate_array, Interp.access, h.arrayItems, Array.size_map, h.indexBelow]
    cases s.indexBelow key (s.arrayItems id).size with
    | error fault => rfl
    | ok i => cases hitem : (s.arrayItems id)[i]? <;> simp [Except.map, hitem]
  | dictionary id =>
    simp only [Value.relocate_dictionary, Interp.access, h.dictionaryEntries, h.findAgreeing?]
    cases SmallLisp.findAgreeing? s.equal key (s.dictionaryEntries id) <;> rfl
  | hashTable id =>
    simp only [Value.relocate_hashTable, Interp.access, h.hashTable, Value.isAtomKey_relocate,
      Table.find?_mapEntries (Value.relocate_injective r)]
    cases key.isAtomKey with
    | false => simp [Interp.noHashKey, Except.map]
    | true => cases (s.hashTable id).find? key <;> rfl
  | nil | cons => exact hlist _
  | string text =>
    show t.lookUp _ _ _ = (s.lookUp _ _ _).map _
    rw [← h.lookUp]
    congr 1
    funext i
    cases text.toList[i]? <;> rfl
  | _ => rfl

theorem place (target key : Value) :
    t.place (target.relocate r) (key.relocate r) =
      (s.place target key).map (Place.relocate r) := by
  have hlist : ∀ target, (t.lookUp (key.relocate r) (t.lengthOf (target.relocate r))
      fun i => t.cellAt? i (target.relocate r)).map Place.cell =
        ((s.lookUp key (s.lengthOf target) fun i => s.cellAt? i target).map Place.cell).map
          (Place.relocate r) := by
    intro target
    rw [h.lengthOf]
    simp only [h.cellAt?, h.lookUp]
    cases s.lookUp key (s.lengthOf target) fun i => s.cellAt? i target <;> rfl
  cases target with
  | array id =>
    simp only [Value.relocate_array, Interp.place, h.arrayItems, Array.size_map, h.indexBelow]
    cases s.indexBelow key (s.arrayItems id).size <;> rfl
  | hashTable id =>
    simp only [Value.relocate_hashTable, Interp.place, Value.isAtomKey_relocate, Interp.noHashKey,
      Value.typeName_relocate]
    cases key.isAtomKey <;> rfl
  | nil | cons => exact hlist _
  | _ => rfl

theorem looksBack (target key : Value) :
    t.looksBack (target.relocate r) (key.relocate r) = s.looksBack target key := by
  cases target with
  | array id => exact h.rendersArray id printLevels key
  | dictionary id =>
    show (!t.searchable id _ (t.dictionaryEntries id)) = !s.searchable id key _
    rw [h.dictionaryEntries, h.searchable]
  | _ => rfl

theorem length (target : Value) : t.length (target.relocate r) = s.length target := by
  cases target with
  | array id => simp [Interp.length, h.arrayItems]
  | dictionary id => simp [Interp.length, h.dictionaryEntries]
  | hashTable id => simp [Interp.length, h.hashTable]
  | nil | cons => exact congrArg Except.ok (h.lengthOf _)
  | _ => rfl

omit h in
theorem indexed (items : List Value) :
    indexed (items.map (Value.relocate r)) = (SmallLisp.indexed items).map (relocateEntry r) := by
  simp [SmallLisp.indexed, List.zipIdx_map, Function.comp_def]

theorem entries (target : Value) :
    t.entries (target.relocate r) = (s.entries target).map (List.map (relocateEntry r)) := by
  cases target with
  | array id => simp [Interp.entries, h.arrayItems, indexed, Except.map]
  | dictionary id => simp [Interp.entries, h.dictionaryEntries, Except.map, Function.comp_def]
  | hashTable id =>
    simp [Interp.entries, h.hashTable, Table.mapEntries, Except.map, Function.comp_def]
  | nil | cons =>
    show Except.ok (SmallLisp.indexed (t.elementsOf _)) = _
    rw [h.elementsOf, indexed]
    rfl
  | string text =>
    show Except.ok (SmallLisp.indexed _) = Except.ok _
    rw [← indexed, List.map_map]
    rfl
  | _ => rfl

end Relocated

end SmallLisp
