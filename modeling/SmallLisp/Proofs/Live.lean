import SmallLisp.Collection
import SmallLisp.Interp

/-!
# Live addresses

A value is live in a state when the object it names exists there. A state is live when everything it
holds is: the parts of its objects, its bindings, its symbol tables and the bodies of its functions.
What is read off a live state is live, and a state with more objects keeps what was live.

Functions of the host may answer with any address, so a live state has none of them, unless it is
live under an assumption about the host.
-/

namespace SmallLisp

variable {s u : Interp}

/-! ## States that only gained objects -/

/-- Every object of `s` is one of `u`, where its symbols and the second halves of its cells are as
they were. -/
structure Extends (s u : Interp) : Prop where
  cells : s.cells.size ≤ u.cells.size
  arrays : s.arrays.size ≤ u.arrays.size
  dictionaries : s.dictionaries.size ≤ u.dictionaries.size
  hashTables : s.hashTables.size ≤ u.hashTables.size
  callables : s.callables.size ≤ u.callables.size
  symbols : s.symbols.size ≤ u.symbols.size
  namespaces : s.namespaces.size ≤ u.namespaces.size
  cdr : ∀ id : CellId, id.index < s.cells.size → u.cdr id = s.cdr id
  symbol : ∀ x : SymbolId, x.index < s.symbols.size → u.symbol x = s.symbol x

theorem Extends.refl (s : Interp) : Extends s s := by
  constructor <;> intros <;> first | exact Nat.le_refl _ | rfl

theorem Extends.trans {t : Interp} (h : Extends s u) (h' : Extends u t) : Extends s t where
  cells := Nat.le_trans h.cells h'.cells
  arrays := Nat.le_trans h.arrays h'.arrays
  dictionaries := Nat.le_trans h.dictionaries h'.dictionaries
  hashTables := Nat.le_trans h.hashTables h'.hashTables
  callables := Nat.le_trans h.callables h'.callables
  symbols := Nat.le_trans h.symbols h'.symbols
  namespaces := Nat.le_trans h.namespaces h'.namespaces
  cdr := by
    intro id hid
    rw [h'.cdr id (Nat.lt_of_lt_of_le hid h.cells), h.cdr id hid]
  symbol := by
    intro x hx
    rw [h'.symbol x (Nat.lt_of_lt_of_le hx h.symbols), h.symbol x hx]

/-! ## Live values -/

def SymbolId.Live (s : Interp) (x : SymbolId) : Prop := x.index < s.symbols.size

def Value.Live (s : Interp) : Value → Prop
  | .symbol x => x.Live s
  | .cons id => id.index < s.cells.size
  | .array id => id.index < s.arrays.size
  | .dictionary id => id.index < s.dictionaries.size
  | .hashTable id => id.index < s.hashTables.size
  | .function id => id.index < s.callables.size
  | .names id => id.index < s.namespaces.size
  | _ => True

structure Closure.Live (s : Interp) (c : Closure) : Prop where
  parameters : ∀ x ∈ c.parameters, x.Live s
  body : c.body.Live s

/-- A function of the host is live under the assumption `hosted`. -/
def Callable.LiveUnder (hosted : Prop) (s : Interp) : Callable → Prop
  | .primitive _ => True
  | .host _ => hosted
  | .lambda c | .expander c => c.Live s

def EntryLive (s : Interp) (e : Value × Value) : Prop := e.1.Live s ∧ e.2.Live s

def BindingLive (s : Interp) (e : SymbolId × Value) : Prop := e.1.Live s ∧ e.2.Live s

/-- The symbols of a namespace exist among `symbols`. -/
structure Namespace.Within (symbols : SymbolStore) (ns : Namespace) : Prop where
  interned : ∀ e ∈ ns.interned.entries, e.2.index < symbols.size
  exported : ∀ e ∈ ns.exported.entries, e.2.index < symbols.size

/-- Everything that a state holds exists, functions of the host under the assumption `hosted`. -/
structure Interp.LiveUnder (hosted : Prop) (s : Interp) : Prop where
  cells : ∀ c ∈ s.cells, c.car.Live s ∧ c.cdr.Live s
  arrays : ∀ items ∈ s.arrays, ∀ v ∈ items, v.Live s
  dictionaries : ∀ entries ∈ s.dictionaries, ∀ e ∈ entries, EntryLive s e
  hashTables : ∀ table ∈ s.hashTables, ∀ e ∈ table.entries, EntryLive s e
  callables : ∀ f ∈ s.callables, f.LiveUnder hosted s
  scopes : ∀ scope ∈ s.scopes, ∀ e ∈ scope.entries, BindingLive s e
  selfValues : ∀ x ∈ s.symbols, ∀ v, x.selfValue = some v → v.Live s
  namespaces : ∀ ns ∈ s.namespaces, ns.Within s.symbols
  /-- The symbols with fixed addresses are there. -/
  fixed : 8 ≤ s.symbols.size

/-- Everything that a state holds exists, and it has no functions of the host. -/
abbrev Interp.Live (s : Interp) : Prop := s.LiveUnder False

/-- The assumption about the host may be weakened. -/
theorem Interp.LiveUnder.mono {hosted hosted' : Prop} (h : s.LiveUnder hosted)
    (hhosted : hosted → hosted') : s.LiveUnder hosted' := by
  refine ⟨h.cells, h.arrays, h.dictionaries, h.hashTables, fun f hf => ?_, h.scopes, h.selfValues,
    h.namespaces, h.fixed⟩
  have hlive := h.callables f hf
  cases f with
  | host f => exact hhosted hlive
  | _ => exact hlive

theorem Value.Live.mono {v : Value} (h : v.Live s) (hext : Extends s u) : v.Live u := by
  cases v with
  | symbol x => exact Nat.lt_of_lt_of_le h hext.symbols
  | cons id => exact Nat.lt_of_lt_of_le h hext.cells
  | array id => exact Nat.lt_of_lt_of_le h hext.arrays
  | dictionary id => exact Nat.lt_of_lt_of_le h hext.dictionaries
  | hashTable id => exact Nat.lt_of_lt_of_le h hext.hashTables
  | function id => exact Nat.lt_of_lt_of_le h hext.callables
  | names id => exact Nat.lt_of_lt_of_le h hext.namespaces
  | _ => trivial

theorem Closure.Live.mono {c : Closure} (h : c.Live s) (hext : Extends s u) : c.Live u where
  parameters := fun x hx => Nat.lt_of_lt_of_le (h.parameters x hx) hext.symbols
  body := h.body.mono hext

theorem Callable.LiveUnder.mono {hosted : Prop} {f : Callable} (h : f.LiveUnder hosted s)
    (hext : Extends s u) : f.LiveUnder hosted u := by
  cases f with
  | primitive op => trivial
  | host f => exact h
  | lambda c => exact Closure.Live.mono h hext
  | expander c => exact Closure.Live.mono h hext

theorem EntryLive.mono {e : Value × Value} (h : EntryLive s e) (hext : Extends s u) :
    EntryLive u e :=
  ⟨h.1.mono hext, h.2.mono hext⟩

theorem BindingLive.mono {e : SymbolId × Value} (h : BindingLive s e) (hext : Extends s u) :
    BindingLive u e :=
  ⟨Nat.lt_of_lt_of_le h.1 hext.symbols, h.2.mono hext⟩

theorem Namespace.Within.mono {symbols symbols' : SymbolStore} {ns : Namespace}
    (h : ns.Within symbols) (hsize : symbols.size ≤ symbols'.size) : ns.Within symbols' where
  interned := fun e he => Nat.lt_of_lt_of_le (h.interned e he) hsize
  exported := fun e he => Nat.lt_of_lt_of_le (h.exported e he) hsize

@[simp]
theorem Value.live_ofBool (b : Bool) : (Value.ofBool b).Live s := by
  cases b <;> trivial

/-! ## What is read off a live state -/

theorem ok_of_map {ε α β : Type} {r : Except ε α} {f : α → β} {b : β} (h : r.map f = .ok b) :
    ∃ a, r = .ok a ∧ f a = b := by
  cases r with
  | error e => cases h
  | ok a =>
    cases h
    exact ⟨a, rfl, rfl⟩

theorem mem_of_findAgreeing? {test : Value → Value → Bool} {key v : Value}
    {es : List (Value × Value)} (h : findAgreeing? test key es = some v) : ∃ k, (k, v) ∈ es := by
  induction es with
  | nil => cases h
  | cons e rest ih =>
    unfold findAgreeing? at h
    split at h
    · cases h
      exact ⟨e.1, List.mem_cons_self⟩
    · obtain ⟨k, hk⟩ := ih h
      exact ⟨k, List.mem_cons_of_mem _ hk⟩

theorem entryLive_indexed {items : List Value} (h : ∀ v ∈ items, v.Live s) :
    ∀ e ∈ indexed items, EntryLive s e := by
  intro e he
  obtain ⟨⟨v, i⟩, hmem, rfl⟩ := List.mem_map.mp he
  exact ⟨h v (List.fst_mem_of_mem_zipIdx hmem), trivial⟩

namespace Interp.LiveUnder

variable {hosted : Prop}

theorem cell (hs : s.LiveUnder hosted) (id : CellId) :
    (s.cell id).car.Live s ∧ (s.cell id).cdr.Live s := by
  unfold Interp.cell
  cases h : s.cells[id.index]? with
  | none => exact ⟨trivial, trivial⟩
  | some c => exact hs.cells c (Array.mem_of_getElem? h)

theorem car (hs : s.LiveUnder hosted) (id : CellId) : (s.car id).Live s := (hs.cell id).1

theorem cdr (hs : s.LiveUnder hosted) (id : CellId) : (s.cdr id).Live s := (hs.cell id).2

theorem elementsOf (hs : s.LiveUnder hosted) (v : Value) :
    ∀ item ∈ s.elementsOf v, item.Live s := by
  intro item hitem
  obtain ⟨id, -, rfl⟩ := List.mem_map.mp hitem
  exact hs.car id

theorem elementAt? (hs : s.LiveUnder hosted) {v item : Value} {i : Nat}
    (h : s.elementAt? v i = some item) : item.Live s := by
  obtain ⟨id, -, rfl⟩ := Option.map_eq_some_iff.mp h
  exact hs.car id

/-- An absent element reads as the empty list. -/
theorem elementAt_getD (hs : s.LiveUnder hosted) (v : Value) (i : Nat) :
    ((s.elementAt? v i).getD .nil).Live s := by
  cases h : s.elementAt? v i with
  | none => trivial
  | some item => exact hs.elementAt? h

theorem first (hs : s.LiveUnder hosted) (v : Value) : (s.first v).Live s := by
  cases v with
  | cons id => exact hs.car id
  | _ => trivial

theorem second (hs : s.LiveUnder hosted) (v : Value) : (s.second v).Live s := hs.elementAt_getD v 1

theorem rest (hs : s.LiveUnder hosted) (v : Value) : (s.rest v).Live s := by
  cases v with
  | cons id => exact hs.cdr id
  | _ => trivial

theorem arrayItems (hs : s.LiveUnder hosted) (id : ArrayId) : ∀ v ∈ s.arrayItems id, v.Live s := by
  unfold Interp.arrayItems
  cases h : s.arrays[id.index]? with
  | none => exact nofun
  | some items => exact hs.arrays items (Array.mem_of_getElem? h)

theorem dictionaryEntries (hs : s.LiveUnder hosted) (id : DictionaryId) :
    ∀ e ∈ s.dictionaryEntries id, EntryLive s e := by
  unfold Interp.dictionaryEntries
  cases h : s.dictionaries[id.index]? with
  | none => exact nofun
  | some entries => exact hs.dictionaries entries (Array.mem_of_getElem? h)

theorem hashTable (hs : s.LiveUnder hosted) (id : HashTableId) :
    ∀ e ∈ (s.hashTable id).entries, EntryLive s e := by
  unfold Interp.hashTable
  cases h : s.hashTables[id.index]? with
  | none => exact nofun
  | some table => exact hs.hashTables table (Array.mem_of_getElem? h)

theorem callable (hs : s.LiveUnder hosted) (id : FunctionId) :
    (s.callable id).LiveUnder hosted s := by
  unfold Interp.callable
  cases h : s.callables[id.index]? with
  | none => trivial
  | some f => exact hs.callables f (Array.mem_of_getElem? h)

theorem scope (hs : s.LiveUnder hosted) (id : ScopeId) :
    ∀ e ∈ (s.scope id).entries, BindingLive s e := by
  unfold Interp.scope
  cases h : s.scopes[id.index]? with
  | none => exact nofun
  | some scope => exact hs.scopes scope (Array.mem_of_getElem? h)

theorem namespaceAt (hs : s.LiveUnder hosted) (id : NamespaceId) :
    (s.namespaceAt id).Within s.symbols := by
  unfold Interp.namespaceAt
  cases h : s.namespaces[id.index]? with
  | none => exact ⟨nofun, nofun⟩
  | some ns => exact hs.namespaces ns (Array.mem_of_getElem? h)

theorem lookup? (hs : s.LiveUnder hosted) {x : SymbolId} {v : Value} (h : s.lookup? x = some v) :
    v.Live s := by
  rw [lookup?_eq_findSome?] at h
  obtain ⟨id, -, hfind⟩ := List.exists_of_findSome?_eq_some h
  exact (hs.scope id _ (Table.mem_of_find? hfind)).2

theorem selfValue (hs : s.LiveUnder hosted) {x : SymbolId} {v : Value}
    (h : (s.symbol x).selfValue = some v) : v.Live s := by
  unfold Interp.symbol at h
  cases hx : s.symbols[x.index]? with
  | none =>
    rw [hx] at h
    cases h
  | some symbol =>
    rw [hx] at h
    exact hs.selfValues symbol (Array.mem_of_getElem? hx) v h

/-- The bindings that a closure captures are those of scopes on the chain. -/
theorem captured (hs : s.LiveUnder hosted) : ∀ e ∈ s.captured.entries, BindingLive s e := by
  unfold Interp.captured
  generalize s.chain = ids
  induction ids with
  | nil => exact nofun
  | cons id ids ih =>
    intro e he
    rcases Table.mem_insertAll he with hinner | houter
    · exact hs.scope id e hinner
    · exact ih e houter

theorem access (hs : s.LiveUnder hosted) {target key v : Value} (h : s.access target key = .ok v) :
    v.Live s := by
  unfold Interp.access at h
  split at h
  next id =>
    obtain ⟨i, -, rfl⟩ := ok_of_map h
    cases hi : (s.arrayItems id)[i]? with
    | none => trivial
    | some item => exact hs.arrayItems id item (Array.mem_of_getElem? hi)
  next id =>
    cases h
    cases hfind : findAgreeing? s.equal key (s.dictionaryEntries id) with
    | none => trivial
    | some item =>
      obtain ⟨k, hk⟩ := mem_of_findAgreeing? hfind
      exact (hs.dictionaryEntries id _ hk).2
  next id =>
    split at h
    · cases h
      cases hfind : (s.hashTable id).find? key with
      | none => trivial
      | some item => exact (hs.hashTable id _ (Table.mem_of_find? hfind)).2
    · cases h
  next =>
    obtain ⟨i, -, hi⟩ := lookUp_eq_ok_iff.mp h
    exact hs.elementAt? hi
  next id =>
    obtain ⟨i, -, hi⟩ := lookUp_eq_ok_iff.mp h
    exact hs.elementAt? hi
  next =>
    obtain ⟨i, -, hi⟩ := lookUp_eq_ok_iff.mp h
    obtain ⟨c, -, rfl⟩ := Option.map_eq_some_iff.mp hi
    trivial
  next => cases h

/-- The elements and keys that a collection is mapped over. -/
theorem entries (hs : s.LiveUnder hosted) {target : Value} {es : List (Value × Value)}
    (h : s.entries target = .ok es) : ∀ e ∈ es, EntryLive s e := by
  unfold Interp.entries at h
  split at h
  all_goals cases h
  next id => exact entryLive_indexed fun v hv => hs.arrayItems id v (Array.mem_def.mpr hv)
  next id =>
    intro e he
    obtain ⟨entry, hentry, rfl⟩ := List.mem_map.mp he
    exact (hs.dictionaryEntries id entry hentry).symm
  next id =>
    intro e he
    obtain ⟨entry, hentry, rfl⟩ := List.mem_map.mp he
    exact (hs.hashTable id entry hentry).symm
  next => exact entryLive_indexed (hs.elementsOf _)
  next => exact entryLive_indexed (hs.elementsOf _)
  next =>
    refine entryLive_indexed fun v hv => ?_
    obtain ⟨c, -, rfl⟩ := List.mem_map.mp hv
    trivial

end Interp.LiveUnder

/-- What the standard library consists of exists from the start. -/
theorem Interp.live_initial (limit : Nat) : (initial limit).Live := by
  have hsize : (initial limit).symbols.size = 4 + Primitive.all.length := by
    simp [initial, systemSymbols]
    omega
  have hfixed : 8 ≤ (initial limit).symbols.size := by
    rw [hsize]
    decide
  constructor
  case cells => exact nofun
  case arrays => exact nofun
  case dictionaries => exact nofun
  case hashTables => exact nofun
  case callables =>
    intro f hf
    obtain ⟨op, -, rfl⟩ := List.mem_map.mp (List.mem_toArray.mp hf)
    trivial
  case scopes =>
    intro scope hscope e he
    rw [List.mem_singleton.mp (Array.mem_def.mp hscope)] at he
    rcases List.mem_append.mp he with he | he
    · rcases List.mem_cons.mp he with rfl | he
      · exact ⟨Nat.lt_of_lt_of_le (by decide) hfixed, trivial⟩
      · rw [List.mem_singleton.mp he]
        exact ⟨Nat.lt_of_lt_of_le (by decide) hfixed, trivial⟩
    · obtain ⟨⟨op, i⟩, hmem, rfl⟩ := List.mem_map.mp he
      have hi : i < Primitive.all.length := List.snd_lt_of_mem_zipIdx hmem
      refine ⟨?_, ?_⟩
      · show i + 4 < (initial limit).symbols.size
        omega
      · show i < ((Primitive.all.map Callable.primitive).toArray).size
        simpa using hi
  case selfValues =>
    intro x hx v hv
    rcases List.mem_append.mp (List.mem_toArray.mp hx) with hx | hx
    · simp only [List.mem_cons, List.not_mem_nil, or_false] at hx
      rcases hx with rfl | rfl | rfl | rfl <;> cases hv <;> trivial
    · obtain ⟨op, -, rfl⟩ := List.mem_map.mp hx
      cases hv
  case namespaces =>
    have htable : ∀ e ∈ systemTable.entries, e.2.index < (initial limit).symbols.size := by
      intro e he
      obtain ⟨⟨x, i⟩, hmem, rfl⟩ := List.mem_map.mp he
      exact Nat.lt_of_lt_of_eq (List.snd_lt_of_mem_zipIdx hmem) List.size_toArray.symm
    intro ns hns
    replace hns := Array.mem_def.mp hns
    simp only [initial, List.mem_cons, List.not_mem_nil, or_false] at hns
    rcases hns with rfl | rfl | rfl
    · exact ⟨htable, htable⟩
    · exact ⟨nofun, nofun⟩
    · exact ⟨htable, nofun⟩
  case fixed => exact hfixed

/-- At the start there are no closures. -/
theorem Interp.closure?_initial (limit : Nat) (f : FunctionId) :
    ((initial limit).callable f).closure? = none := by
  unfold callable
  cases hfound : (initial limit).callables[f.index]? with
  | none => rfl
  | some g =>
    obtain ⟨op, -, rfl⟩ := List.mem_map.mp (List.mem_toArray.mp (Array.mem_of_getElem? hfound))
    rfl

end SmallLisp
