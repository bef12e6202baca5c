import SmallLisp.Evaluator
import SmallLisp.Proofs.Edit
import SmallLisp.Proofs.Growth

/-!
# Changes of a state

Interning and evaluating change a state in fourteen ways, apart from the active scopes and the
counters. `Change.apply` carries one out. No change takes an object back, overwrites a symbol or
moves the second half of a cell, and a sound change, one that brings in live values only, keeps a
state live. A `Trace` is a sequence of changes that a law permits: whatever each of them preserves
is preserved by all of them.
-/

namespace SmallLisp

/-- The state after an operation. A failure changes nothing. -/
def Interp.resultOf {ε α : Type} (s : Interp) : Except ε (α × Interp) → Interp
  | .ok (_, u) => u
  | .error _ => s

def Callable.ofClosure (expands : Bool) : Closure → Callable :=
  if expands then .expander else .lambda

inductive Change where
  | cell (car cdr : Value)
  | array (items : Array Value)
  | dictionary (entries : List (Value × Value))
  | hashTable (table : Table Value Value)
  | store (v : Value) (place : Place)
  /-- A new scope without bindings. -/
  | scope
  /-- A new closure over a copy of the active scopes. -/
  | function (expands : Bool) (xs : List SymbolId) (arguments : Value)
  | bind (id : ScopeId) (x : SymbolId) (v : Value)
  | generate
  | keyword (name : String)
  | intern (id : NamespaceId) (name : String)
  | create (arguments : Value)
  | select (name : String)
  | use (name : String)

/-- A symbol that an evaluation may bind. -/
def SymbolId.Bindable (s : Interp) (x : SymbolId) : Prop :=
  x.Live s ∧ ((s.symbol x).reserved = false ∨ x = .rest ∨ x = .self)

/-- The key under which a place stores exists. -/
def Place.KeyLive (s : Interp) : Place → Prop
  | .entry _ key | .hashed _ key => key.Live s
  | .item .. | .cell _ => True

namespace Change

def apply (s : Interp) : Change → Interp
  | .cell car cdr => (s.allocCell car cdr).2
  | .array items => (s.allocArray items).2
  | .dictionary entries => (s.allocDictionary entries).2
  | .hashTable table => (s.allocHashTable table).2
  | .store v place => s.store v place
  | .scope => (s.allocScope .empty).2
  | .function expands xs arguments =>
    (SpecialForm.allocClosure (.ofClosure expands) xs arguments s).2
  | .bind id x v => s.bindIn id x v
  | .generate => s.generate.2
  | .keyword name => s.resultOf (s.internKeyword name)
  | .intern id name => s.resultOf (s.internIn id name)
  | .create arguments => s.resultOf (NamespaceForm.create s arguments)
  | .select name => s.resultOf (s.changeNamespace name)
  | .use name => s.resultOf (s.useNamed name)

/-- Everything that the change brings in exists, and what it binds may be bound. The parameters of
a closure are bound later. -/
def Sound (s : Interp) : Change → Prop
  | .cell car cdr => car.Live s ∧ cdr.Live s
  | .array items => ∀ v ∈ items, v.Live s
  | .dictionary entries => ∀ e ∈ entries, EntryLive s e
  | .hashTable table => ∀ e ∈ table.entries, EntryLive s e
  | .store v place => v.Live s ∧ place.KeyLive s
  | .function _ xs _ => ∀ x ∈ xs, x.Live s ∧ (s.symbol x).reserved = false
  | .bind _ x v => x.Bindable s ∧ v.Live s
  | _ => True

end Change

variable {hosted : Prop} {s u : Interp}

/-- What holds of the state before and of every answer holds of the result. -/
theorem Interp.resultOf_induction {ε α : Type} {motive : Interp → Prop}
    {r : Except ε (α × Interp)} (hs : motive s) (hr : ∀ a u, r = .ok (a, u) → motive u) :
    motive (s.resultOf r) := by
  cases r with
  | error e => exact hs
  | ok a => exact hr a.1 a.2 rfl

/-! ## Objects stay -/

namespace Extends

/-- Where the cells are as they were, the other stores only have to grow. -/
theorem objects (hcells : u.cells = s.cells) (hsymbols : s.symbols.Grows (fun _ => True) u.symbols)
    (hsizes : s.arrays.size ≤ u.arrays.size ∧ s.dictionaries.size ≤ u.dictionaries.size ∧
      s.hashTables.size ≤ u.hashTables.size ∧ s.callables.size ≤ u.callables.size ∧
      s.namespaces.size ≤ u.namespaces.size) : Extends s u where
  cells := Nat.le_of_eq (by rw [hcells])
  arrays := hsizes.1
  dictionaries := hsizes.2.1
  hashTables := hsizes.2.2.1
  callables := hsizes.2.2.2.1
  symbols := hsymbols.size_le
  namespaces := hsizes.2.2.2.2
  cdr := fun id _ => by simp only [Interp.cdr, Interp.cell, hcells]
  symbol := fun x hx => by simp only [Interp.symbol, hsymbols.kept x.index hx]

/-- Scopes, the current namespace and the counters are no objects. -/
theorem outside (hcells : u.cells = s.cells) (hsymbols : u.symbols = s.symbols)
    (harrays : u.arrays = s.arrays) (hdictionaries : u.dictionaries = s.dictionaries)
    (hhashTables : u.hashTables = s.hashTables) (hcallables : u.callables = s.callables)
    (hnamespaces : u.namespaces = s.namespaces) : Extends s u := by
  refine objects hcells (hsymbols ▸ .refl _) ?_
  simp only [harrays, hdictionaries, hhashTables, hcallables, hnamespaces, Nat.le_refl, and_self]

theorem setNamespace (s : Interp) (id : NamespaceId) (ns : Namespace) :
    Extends s (s.setNamespace id ns) :=
  objects rfl (.refl _) (by simp [Interp.setNamespace])

theorem of_grown (h : Grown s u) : Extends s u := by
  have hcdr : ∀ id : CellId, id.index < s.cells.size → u.cdr id = s.cdr id := fun _ => h.cdr
  have hsize := h.size_le
  rw [h.others] at hcdr ⊢
  constructor
  case cells => exact hsize
  case cdr => exact hcdr
  case symbol => exact fun _ _ => rfl
  all_goals exact Nat.le_refl _

theorem store (s : Interp) (v : Value) (place : Place) : Extends s (s.store v place) := by
  cases place with
  | item id i => exact objects rfl (.refl _) (by simp [Interp.store, Interp.setArrayItem])
  | entry id key => exact objects rfl (.refl _) (by simp [Interp.store, Interp.setDictionary])
  | hashed id key => exact objects rfl (.refl _) (by simp [Interp.store, Interp.setHashTable])
  | cell id =>
    constructor
    case cells => exact Nat.le_of_eq Array.size_modify.symm
    case cdr => exact fun j _ => Interp.cdr_setCar s id j v
    case symbol => exact fun _ _ => rfl
    all_goals exact Nat.le_refl _

theorem internIn {id : NamespaceId} {name : String} {x : SymbolId}
    (h : s.internIn id name = .ok (x, u)) : Extends s u := by
  rcases Interp.internIn_cases h with ⟨-, rfl⟩ | ⟨-, -, -, rfl⟩
  · exact .refl u
  · exact objects rfl (.push trivial _) (by simp [Interp.setNamespace])

end Extends

/-- No change takes an object back. -/
theorem Change.extended (s : Interp) (c : Change) : Extends s (c.apply s) := by
  cases c with
  | cell car cdr => exact .of_grown (grown_allocCell s car cdr)
  | array items => exact .objects rfl (.refl _) (by simp [apply, Interp.allocArray])
  | dictionary entries => exact .objects rfl (.refl _) (by simp [apply, Interp.allocDictionary])
  | hashTable table => exact .objects rfl (.refl _) (by simp [apply, Interp.allocHashTable])
  | store v place => exact .store s v place
  | scope => exact .outside rfl rfl rfl rfl rfl rfl rfl
  | function expands xs arguments =>
    exact .objects rfl (.refl _)
      (by simp [apply, SpecialForm.allocClosure, Interp.allocScope, Interp.allocCallable])
  | bind id x v => exact .outside rfl rfl rfl rfl rfl rfl rfl
  | generate =>
    exact .objects rfl (.push trivial _) (by simp [apply, Interp.generate])
  | keyword name =>
    refine Interp.resultOf_induction (.refl s) fun x u h => ?_
    rcases Interp.internKeyword_cases h with ⟨-, rfl⟩ | ⟨t, -, hintern, rfl⟩
    · exact .refl u
    · exact (Extends.internIn hintern).trans (.outside rfl rfl rfl rfl rfl rfl rfl)
  | intern id name => exact Interp.resultOf_induction (.refl s) fun x u h => .internIn h
  | create arguments =>
    refine Interp.resultOf_induction (.refl s) fun id u h => ?_
    obtain ⟨name, es, symbols, -, -, hgrows, -, rfl⟩ := NamespaceForm.create_cases h
    exact .objects rfl (hgrows.mono fun _ _ => trivial) (by simp)
  | select name =>
    refine Interp.resultOf_induction (.refl s) fun id u h => ?_
    obtain ⟨-, rfl⟩ := Interp.changeNamespace_cases h
    exact .outside rfl rfl rfl rfl rfl rfl rfl
  | use name =>
    refine Interp.resultOf_induction (.refl s) fun id u h => ?_
    rcases Interp.useNamed_cases h with ⟨-, rfl⟩ | ⟨-, rfl⟩
    · exact .refl u
    · exact .setNamespace s s.current _

/-- Interning touches symbols and namespaces only. -/
theorem Interp.internIn_eq {id : NamespaceId} {name : String} {x : SymbolId}
    (h : s.internIn id name = .ok (x, u)) :
    u = { s with symbols := u.symbols, namespaces := u.namespaces } := by
  rcases Interp.internIn_cases h with ⟨-, rfl⟩ | ⟨-, -, -, rfl⟩ <;> rfl

/-- A change of what names stand for, keywords apart. -/
def Change.Naming : Change → Prop
  | .intern .. | .create _ | .select _ | .use _ => True
  | _ => False

theorem Change.Naming.apply_eq {c : Change} (hc : c.Naming) (s : Interp) :
    c.apply s = { s with
      symbols := (c.apply s).symbols
      namespaces := (c.apply s).namespaces
      current := (c.apply s).current } := by
  let Renamed (u : Interp) : Prop :=
    u = { s with symbols := u.symbols, namespaces := u.namespaces, current := u.current }
  cases c with
  | intern id name =>
    refine Interp.resultOf_induction (motive := Renamed) rfl fun x u h => ?_
    rcases Interp.internIn_cases h with ⟨-, rfl⟩ | ⟨-, -, -, rfl⟩ <;> rfl
  | create arguments =>
    refine Interp.resultOf_induction (motive := Renamed) rfl fun id u h => ?_
    obtain ⟨name, es, symbols, -, -, -, -, rfl⟩ := NamespaceForm.create_cases h
    rfl
  | select name =>
    refine Interp.resultOf_induction (motive := Renamed) rfl fun id u h => ?_
    obtain ⟨-, rfl⟩ := Interp.changeNamespace_cases h
    rfl
  | use name =>
    refine Interp.resultOf_induction (motive := Renamed) rfl fun id u h => ?_
    rcases Interp.useNamed_cases h with ⟨-, rfl⟩ | ⟨-, rfl⟩ <;> rfl
  | _ => exact hc.elim

/-- A new keyword is bound in a scope besides. -/
theorem Change.keyword_apply_eq (name : String) (s : Interp) :
    Change.apply s (.keyword name) = { s with
      symbols := (Change.apply s (.keyword name)).symbols
      namespaces := (Change.apply s (.keyword name)).namespaces
      scopes := (Change.apply s (.keyword name)).scopes } := by
  refine Interp.resultOf_induction (motive := fun u : Interp => u = { s with
    symbols := u.symbols, namespaces := u.namespaces, scopes := u.scopes }) rfl fun x u h => ?_
  rcases Interp.internKeyword_cases h with ⟨-, rfl⟩ | ⟨t, -, ht, rfl⟩
  · rfl
  · rw [Interp.internIn_eq ht]
    rfl

/-- No change touches the active scopes, the count of active evaluations or the limit. -/
theorem Change.outside_apply (s : Interp) (c : Change) :
    (c.apply s).chain = s.chain ∧ (c.apply s).active = s.active ∧ (c.apply s).limit = s.limit := by
  cases c
  case store v place => cases place <;> exact ⟨rfl, rfl, rfl⟩
  case keyword name =>
    rw [Change.keyword_apply_eq]
    exact ⟨rfl, rfl, rfl⟩
  case intern | create | select | use =>
    rw [Naming.apply_eq]
    · exact ⟨rfl, rfl, rfl⟩
    · trivial
  all_goals exact ⟨rfl, rfl, rfl⟩

theorem Change.chain_apply (s : Interp) (c : Change) : (c.apply s).chain = s.chain :=
  (c.outside_apply s).1

/-- A function stays what it is. Every one that a change makes is a closure over a new scope, and
only one kind of change makes any. -/
theorem Change.callable_apply (s : Interp) (c : Change) (f : FunctionId) :
    (c.apply s).callable f = s.callable f ∨
    f.index = s.callables.size ∧ ∃ expands xs arguments, c = .function expands xs arguments ∧
      (c.apply s).callable f = .ofClosure expands ⟨xs, ⟨s.scopes.size⟩, s.rest arguments⟩ := by
  have hsame : (c.apply s).callables = s.callables → (c.apply s).callable f = s.callable f := by
    intro hcallables
    unfold Interp.callable
    rw [hcallables]
  cases c
  case store v place => exact .inl (hsame (by cases place <;> rfl))
  case function expands xs arguments =>
    let closure : Closure := ⟨xs, ⟨s.scopes.size⟩, s.rest arguments⟩
    have hread : (apply s (.function expands xs arguments)).callable f =
        if f.index = s.callables.size then .ofClosure expands closure else s.callable f := by
      show ((s.callables.push (.ofClosure expands closure))[f.index]?).getD default = _
      rw [Array.getElem?_push]
      split <;> rfl
    rw [hread]
    split
    next hlast => exact .inr ⟨hlast, expands, xs, arguments, rfl, rfl⟩
    next => exact .inl rfl
  case keyword name =>
    refine .inl (hsame ?_)
    rw [Change.keyword_apply_eq]
  case intern | create | select | use =>
    refine .inl (hsame ?_)
    rw [Naming.apply_eq]
    trivial
  all_goals exact .inl (hsame rfl)

/-- A closure is from before, or it is the one that the change makes. -/
theorem Change.closure_apply {c : Change} {f : FunctionId} {closure : Closure}
    (h : ((c.apply s).callable f).closure? = some closure) :
    (s.callable f).closure? = some closure ∨
    closure.captured = ⟨s.scopes.size⟩ ∧
      ∃ expands arguments, c = .function expands closure.parameters arguments := by
  rcases c.callable_apply s f with hsame | ⟨-, expands, xs, arguments, hc, hnew⟩
  · rw [hsame] at h
    exact .inl h
  · rw [hnew] at h
    obtain rfl : ⟨xs, ⟨s.scopes.size⟩, s.rest arguments⟩ = closure := by
      cases expands <;> exact Option.some.inj h
    exact .inr ⟨rfl, expands, arguments, hc⟩

/-- No change takes a scope back. -/
theorem Change.scopes_size_le (s : Interp) (c : Change) :
    s.scopes.size ≤ (c.apply s).scopes.size := by
  cases c
  case store v place => cases place <;> exact Nat.le_refl _
  case scope => simp [apply, Interp.allocScope]
  case function expands xs arguments =>
    simp [apply, SpecialForm.allocClosure, Interp.allocScope, Interp.allocCallable]
  case bind id x v => simp [apply, Interp.bindIn]
  case keyword name =>
    refine Interp.resultOf_induction (motive := fun u => s.scopes.size ≤ u.scopes.size)
      (Nat.le_refl _) fun x u h => ?_
    rcases Interp.internKeyword_cases h with ⟨-, rfl⟩ | ⟨t, -, ht, rfl⟩
    · exact Nat.le_refl _
    · rw [Interp.internIn_eq ht]
      simp [Interp.bindGlobal, Interp.bindIn]
  case intern | create | select | use =>
    refine Nat.le_of_eq ?_
    rw [Naming.apply_eq]
    trivial
  all_goals exact Nat.le_refl _

/-! ## Sound changes keep a state live -/

/-- What `u` holds beyond the objects of `s` is live. -/
structure Gains (hosted : Prop) (s u : Interp) : Prop where
  cells : ∀ c ∈ u.cells, c ∈ s.cells ∨ (c.car.Live u ∧ c.cdr.Live u)
  arrays : ∀ items ∈ u.arrays, items ∈ s.arrays ∨ ∀ v ∈ items, v.Live u
  dictionaries : ∀ es ∈ u.dictionaries, es ∈ s.dictionaries ∨ ∀ e ∈ es, EntryLive u e
  hashTables : ∀ t ∈ u.hashTables, t ∈ s.hashTables ∨ ∀ e ∈ t.entries, EntryLive u e
  callables : ∀ f ∈ u.callables, f ∈ s.callables ∨ f.LiveUnder hosted u
  scopes : ∀ scope ∈ u.scopes, scope ∈ s.scopes ∨ ∀ e ∈ scope.entries, BindingLive u e
  symbols : ∀ x ∈ u.symbols, x ∈ s.symbols ∨ x.selfValue = none
  namespaces : ∀ ns ∈ u.namespaces, ns ∈ s.namespaces ∨ ns.Within u.symbols

theorem Interp.LiveUnder.extend (hs : s.LiveUnder hosted) (hext : Extends s u)
    (h : Gains hosted s u) : u.LiveUnder hosted where
  cells := by
    intro c hc
    rcases h.cells c hc with hold | hnew
    · obtain ⟨hcar, hcdr⟩ := hs.cells c hold
      exact ⟨hcar.mono hext, hcdr.mono hext⟩
    · exact hnew
  arrays := by
    intro items hitems
    rcases h.arrays items hitems with hold | hnew
    · exact fun v hv => (hs.arrays items hold v hv).mono hext
    · exact hnew
  dictionaries := by
    intro es hes
    rcases h.dictionaries es hes with hold | hnew
    · exact fun e he => (hs.dictionaries es hold e he).mono hext
    · exact hnew
  hashTables := by
    intro t ht
    rcases h.hashTables t ht with hold | hnew
    · exact fun e he => (hs.hashTables t hold e he).mono hext
    · exact hnew
  callables := by
    intro f hf
    rcases h.callables f hf with hold | hnew
    · exact (hs.callables f hold).mono hext
    · exact hnew
  scopes := by
    intro scope hscope
    rcases h.scopes scope hscope with hold | hnew
    · exact fun e he => (hs.scopes scope hold e he).mono hext
    · exact hnew
  selfValues := by
    intro x hx v hv
    rcases h.symbols x hx with hold | hnone
    · exact (hs.selfValues x hold v hv).mono hext
    · rw [hnone] at hv
      cases hv
  namespaces := by
    intro ns hns
    rcases h.namespaces ns hns with hold | hnew
    · exact (hs.namespaces ns hold).mono hext.symbols
    · exact hnew
  fixed := Nat.le_trans hs.fixed hext.symbols

theorem mem_of_mem_modify {α : Type} {xs : Array α} {i : Nat} {f : α → α} {b : α}
    (h : b ∈ xs.modify i f) : b ∈ xs ∨ ∃ a ∈ xs, b = f a := by
  obtain ⟨j, hj⟩ := Array.mem_iff_getElem?.mp h
  rw [Array.getElem?_modify] at hj
  split at hj
  · obtain ⟨a, ha, rfl⟩ := Option.map_eq_some_iff.mp hj
    exact .inr ⟨a, Array.mem_of_getElem? ha, rfl⟩
  · exact .inl (Array.mem_of_getElem? hj)

theorem mem_of_mem_push {α : Type} {xs : Array α} {a b : α} (h : b ∈ xs.push a) :
    b ∈ xs ∨ b = a :=
  Array.mem_push.mp h

/-- Storing under a key that agrees with an older one keeps the older one. -/
theorem EntryLive.assignEntry {entries : List (Value × Value)} {key v : Value}
    (hentries : ∀ e ∈ entries, EntryLive s e) (hkey : key.Live s) (hv : v.Live s) :
    ∀ e ∈ s.assignEntry entries key v, EntryLive s e := by
  unfold Interp.assignEntry
  induction entries with
  | nil =>
    intro e he
    rw [List.mem_singleton.mp he]
    exact ⟨hkey, hv⟩
  | cons head rest ih =>
    have hhead := hentries head List.mem_cons_self
    have hrest : ∀ e ∈ rest, EntryLive s e := fun e he => hentries e (List.mem_cons_of_mem _ he)
    intro e he
    unfold assignAgreeing at he
    split at he
    · rcases List.mem_cons.mp he with rfl | he
      · exact ⟨hhead.1, hv⟩
      · exact hrest e he
    · rcases List.mem_cons.mp he with rfl | he
      · exact hhead
      · exact ih hrest e he

namespace Interp.LiveUnder

variable (hs : s.LiveUnder hosted)

include hs

theorem allocCell {car cdr : Value} (hcar : car.Live s) (hcdr : cdr.Live s) :
    (s.allocCell car cdr).2.LiveUnder hosted := by
  have hext : Extends s (s.allocCell car cdr).2 := Change.extended s (.cell car cdr)
  refine hs.extend hext ?_
  constructor
  case cells =>
    intro c hc
    rcases mem_of_mem_push hc with hold | rfl
    · exact .inl hold
    · exact .inr ⟨hcar.mono hext, hcdr.mono hext⟩
  all_goals exact fun _ h => .inl h

theorem allocArray {items : Array Value} (hitems : ∀ v ∈ items, v.Live s) :
    (s.allocArray items).2.LiveUnder hosted := by
  have hext : Extends s (s.allocArray items).2 := Change.extended s (.array items)
  refine hs.extend hext ?_
  constructor
  case arrays =>
    intro vs hvs
    rcases mem_of_mem_push hvs with hold | rfl
    · exact .inl hold
    · exact .inr fun v hv => (hitems v hv).mono hext
  all_goals exact fun _ h => .inl h

theorem allocDictionary {entries : List (Value × Value)} (hentries : ∀ e ∈ entries, EntryLive s e) :
    (s.allocDictionary entries).2.LiveUnder hosted := by
  have hext : Extends s (s.allocDictionary entries).2 := Change.extended s (.dictionary entries)
  refine hs.extend hext ?_
  constructor
  case dictionaries =>
    intro es hes
    rcases mem_of_mem_push hes with hold | rfl
    · exact .inl hold
    · exact .inr fun e he => (hentries e he).mono hext
  all_goals exact fun _ h => .inl h

theorem allocHashTable {table : Table Value Value} (htable : ∀ e ∈ table.entries, EntryLive s e) :
    (s.allocHashTable table).2.LiveUnder hosted := by
  have hext : Extends s (s.allocHashTable table).2 := Change.extended s (.hashTable table)
  refine hs.extend hext ?_
  constructor
  case hashTables =>
    intro t ht
    rcases mem_of_mem_push ht with hold | rfl
    · exact .inl hold
    · exact .inr fun e he => (htable e he).mono hext
  all_goals exact fun _ h => .inl h

theorem allocScope {bindings : Scope} (hbindings : ∀ e ∈ bindings.entries, BindingLive s e) :
    (s.allocScope bindings).2.LiveUnder hosted := by
  have hext : Extends s (s.allocScope bindings).2 := .outside rfl rfl rfl rfl rfl rfl rfl
  refine hs.extend hext ?_
  constructor
  case scopes =>
    intro scope hscope
    rcases mem_of_mem_push hscope with hold | rfl
    · exact .inl hold
    · exact .inr fun e he => (hbindings e he).mono hext
  all_goals exact fun _ h => .inl h

theorem bindIn (id : ScopeId) {x : SymbolId} {v : Value} (hx : x.Live s) (hv : v.Live s) :
    (s.bindIn id x v).LiveUnder hosted := by
  have hext : Extends s (s.bindIn id x v) := Change.extended s (.bind id x v)
  refine hs.extend hext ?_
  constructor
  case scopes =>
    intro scope hscope
    replace hscope : scope ∈ s.scopes.modify id.index fun b => b.insert x v := hscope
    rcases mem_of_mem_modify hscope with hold | ⟨old, hold, rfl⟩
    · exact .inl hold
    · refine .inr fun e he => ?_
      rcases Table.mem_insert he with rfl | he
      · exact ⟨hx, hv.mono hext⟩
      · exact (hs.scopes old hold e he).mono hext
  all_goals exact fun _ h => .inl h

theorem allocClosure {expands : Bool} {xs : List SymbolId} {arguments : Value}
    (hxs : ∀ x ∈ xs, x.Live s) :
    (SpecialForm.allocClosure (.ofClosure expands) xs arguments s).2.LiveUnder hosted := by
  have hext : Extends s (SpecialForm.allocClosure (.ofClosure expands) xs arguments s).2 :=
    Change.extended s (.function expands xs arguments)
  refine hs.extend hext ?_
  constructor
  case scopes =>
    intro scope hscope
    rcases mem_of_mem_push hscope with hold | rfl
    · exact .inl hold
    · exact .inr fun e he => (hs.captured e he).mono hext
  case callables =>
    intro f hf
    rcases mem_of_mem_push hf with hold | rfl
    · exact .inl hold
    · have hclosure : Closure.Live s ⟨xs, ⟨s.scopes.size⟩, s.rest arguments⟩ :=
        ⟨hxs, hs.rest arguments⟩
      cases expands <;> exact .inr (Closure.Live.mono hclosure hext)
  all_goals exact fun _ h => .inl h

theorem store {v : Value} {place : Place} (hv : v.Live s) (hplace : place.KeyLive s) :
    (s.store v place).LiveUnder hosted := by
  have hext : Extends s (s.store v place) := .store s v place
  refine hs.extend hext ?_
  cases place with
  | item id i =>
    constructor
    case arrays =>
      intro items hitems
      replace hitems : items ∈ s.arrays.modify id.index fun old => old.setIfInBounds i v := hitems
      rcases mem_of_mem_modify hitems with hold | ⟨old, hold, rfl⟩
      · exact .inl hold
      · refine .inr fun w hw => ?_
        rcases Array.mem_or_eq_of_mem_setIfInBounds hw with hw | rfl
        · exact (hs.arrays old hold w hw).mono hext
        · exact hv.mono hext
    all_goals exact fun _ h => .inl h
  | entry id key =>
    constructor
    case dictionaries =>
      intro es hes
      rcases Array.mem_or_eq_of_mem_setIfInBounds hes with hold | rfl
      · exact .inl hold
      · refine .inr fun e he => ?_
        exact (EntryLive.assignEntry (hs.dictionaryEntries id) hplace hv e he).mono hext
    all_goals exact fun _ h => .inl h
  | hashed id key =>
    constructor
    case hashTables =>
      intro t ht
      rcases Array.mem_or_eq_of_mem_setIfInBounds ht with hold | rfl
      · exact .inl hold
      · refine .inr fun e he => ?_
        rcases Table.mem_insert he with rfl | he
        · exact ⟨hplace.mono hext, hv.mono hext⟩
        · exact (hs.hashTable id e he).mono hext
    all_goals exact fun _ h => .inl h
  | cell id =>
    constructor
    case cells =>
      intro c hc
      replace hc : c ∈ s.cells.modify id.index fun old => { old with car := v } := hc
      rcases mem_of_mem_modify hc with hold | ⟨old, hold, rfl⟩
      · exact .inl hold
      · exact .inr ⟨hv.mono hext, (hs.cells old hold).2.mono hext⟩
    all_goals exact fun _ h => .inl h

/-- New symbols without values of their own, and namespaces of symbols that exist. -/
theorem names {symbols : SymbolStore} {namespaces : Array Namespace}
    (hsymbols : s.symbols.Grows (fun x => x.selfValue = none) symbols)
    (hsize : s.namespaces.size ≤ namespaces.size)
    (hnamespaces : ∀ ns ∈ namespaces, ns ∈ s.namespaces ∨ ns.Within symbols) :
    Interp.LiveUnder hosted { s with symbols := symbols, namespaces := namespaces } := by
  refine hs.extend (.objects rfl (hsymbols.mono fun _ _ => trivial) ?_) ?_
  · exact ⟨Nat.le_refl _, Nat.le_refl _, Nat.le_refl _, Nat.le_refl _, hsize⟩
  · constructor
    case symbols => exact fun x hx => hsymbols.mem hx
    case namespaces => exact hnamespaces
    all_goals exact fun _ h => .inl h

theorem internIn {id : NamespaceId} {name : String} {x : SymbolId}
    (h : s.internIn id name = .ok (x, u)) : u.LiveUnder hosted ∧ x.Live u := by
  rcases Interp.internIn_cases h with ⟨hfind, rfl⟩ | ⟨-, -, rfl, rfl⟩
  · exact ⟨hs, (hs.namespaceAt id).find? hfind⟩
  · have hnone : ((s.namespaceAt id).newSymbol name).selfValue = none := by
      unfold Namespace.newSymbol
      split <;> rfl
    have hgrows : s.symbols.Grows (fun x => x.selfValue = none) (s.symbols.push _) :=
      .push hnone s.symbols
    have hlast : s.symbols.size < (s.symbols.push ((s.namespaceAt id).newSymbol name)).size := by
      rw [Array.size_push]
      exact Nat.lt_succ_self _
    refine ⟨hs.names hgrows (Nat.le_of_eq Array.size_setIfInBounds.symm) fun ns hns => ?_, hlast⟩
    rcases Array.mem_or_eq_of_mem_setIfInBounds hns with hold | rfl
    · exact .inl hold
    · exact .inr (Edit.within_apply ((hs.namespaceAt id).mono hgrows.size_le) hlast)

theorem internKeyword {name : String} {x : SymbolId} (h : s.internKeyword name = .ok (x, u)) :
    u.LiveUnder hosted ∧ x.Live u := by
  rcases Interp.internKeyword_cases h with ⟨hfind, rfl⟩ | ⟨t, -, hintern, rfl⟩
  · exact ⟨hs, (hs.namespaceAt .keywords).find? hfind⟩
  · obtain ⟨ht, hx⟩ := hs.internIn hintern
    exact ⟨ht.bindIn .global hx hx, hx⟩

theorem generate : s.generate.2.LiveUnder hosted := by
  have hnone : (Symbol.generated ("G" ++ toString (s.generated + 1))).selfValue = none := rfl
  have hgrows : s.symbols.Grows (fun x => x.selfValue = none) (s.symbols.push _) :=
    .push hnone s.symbols
  have hlive := hs.names hgrows (Nat.le_refl _) fun _ h => .inl h
  exact hlive.extend (.outside rfl rfl rfl rfl rfl rfl rfl) (by
    constructor <;> exact fun _ h => .inl h)

theorem create {arguments : Value} {id : NamespaceId}
    (h : NamespaceForm.create s arguments = .ok (id, u)) : u.LiveUnder hosted := by
  obtain ⟨name, es, symbols, -, -, hgrows, hfrom, rfl⟩ := NamespaceForm.create_cases h
  refine hs.names (hgrows.mono fun _ hx => hx.selfValue) (by simp) fun ns hns => ?_
  rcases mem_of_mem_push hns with hold | rfl
  · exact .inl hold
  · have hbrings : ∀ e ∈ es, e.Brings fun _ x => x.index < symbols.size := by
      refine fun e he => (hfrom e he).brings (fun id entry hentry => ?_) fun _ _ _ hx => hx.lt
      exact Nat.lt_of_lt_of_le ((hs.namespaceAt id).exported entry hentry) hgrows.size_le
    exact .inr (Namespace.within_iff_holds.mpr
      (Edit.holds_applyAll (Namespace.holds_fresh _ name true) hbrings))

theorem useNamed {name : String} {id : NamespaceId} (h : s.useNamed name = .ok (id, u)) :
    u.LiveUnder hosted := by
  rcases Interp.useNamed_cases h with ⟨-, rfl⟩ | ⟨-, rfl⟩
  · exact hs
  · refine hs.names (.refl _) (Nat.le_of_eq Array.size_setIfInBounds.symm) fun ns hns => ?_
    rcases Array.mem_or_eq_of_mem_setIfInBounds hns with hold | rfl
    · exact .inl hold
    · exact .inr (Edit.within_apply (hs.namespaceAt s.current) (hs.namespaceAt id).exported)

end Interp.LiveUnder

/-- The place that a key leads to stores under that key. -/
theorem Value.Live.place {target key : Value} {place : Place} (hkey : key.Live s)
    (h : s.place target key = .ok place) : place.KeyLive s := by
  unfold Interp.place at h
  split at h
  · obtain ⟨i, -, rfl⟩ := ok_of_map h
    trivial
  · cases h
    exact hkey
  · split at h
    · cases h
      exact hkey
    · cases h
  · obtain ⟨i, -, rfl⟩ := ok_of_map h
    trivial
  · obtain ⟨i, -, rfl⟩ := ok_of_map h
    trivial
  · cases h
  · cases h

/-- A sound change keeps a state live. -/
theorem Change.live {c : Change} (hs : s.LiveUnder hosted) (hc : c.Sound s) :
    (c.apply s).LiveUnder hosted := by
  cases c with
  | cell car cdr => exact hs.allocCell hc.1 hc.2
  | array items => exact hs.allocArray hc
  | dictionary entries => exact hs.allocDictionary hc
  | hashTable table => exact hs.allocHashTable hc
  | store v place => exact hs.store hc.1 hc.2
  | scope => exact hs.allocScope nofun
  | function expands xs arguments => exact hs.allocClosure fun x hx => (hc x hx).1
  | bind id x v => exact hs.bindIn id hc.1.1 hc.2
  | generate => exact hs.generate
  | keyword name => exact Interp.resultOf_induction hs fun x u h => (hs.internKeyword h).1
  | intern id name => exact Interp.resultOf_induction hs fun x u h => (hs.internIn h).1
  | create arguments => exact Interp.resultOf_induction hs fun id u h => hs.create h
  | select name =>
    refine Interp.resultOf_induction hs fun id u h => ?_
    obtain ⟨-, rfl⟩ := Interp.changeNamespace_cases h
    exact hs.extend (.outside rfl rfl rfl rfl rfl rfl rfl) (by
      constructor <;> exact fun _ h => .inl h)
  | use name => exact Interp.resultOf_induction hs fun id u h => hs.useNamed h

/-! ## Traces -/

/-- Which change a state permits. -/
abbrev Law := Interp → Change → Prop

/-- A state with other active scopes and counters. -/
def Interp.withFrames (s : Interp) (chain : List ScopeId) (depths : Depths) (active : Nat) :
    Interp :=
  { s with chain := chain, depths := depths, active := active }

/-- Frames hold no values. -/
theorem Interp.LiveUnder.withFrames (hs : s.LiveUnder hosted) (chain : List ScopeId)
    (depths : Depths) (active : Nat) : (s.withFrames chain depths active).LiveUnder hosted := by
  refine hs.extend (.outside rfl rfl rfl rfl rfl rfl rfl) ?_
  constructor <;> exact fun _ h => .inl h

/-- `u` comes out of `s` by permitted changes, however the frames changed meanwhile. -/
inductive Trace (law : Law) (s : Interp) : Interp → Prop
  | refl : Trace law s s
  | change {u : Interp} {c : Change} (before : Trace law s u) (hc : law u c) :
      Trace law s (c.apply u)
  | frames {u : Interp} (before : Trace law s u) (chain : List ScopeId) (depths : Depths)
      (active : Nat) : Trace law s (u.withFrames chain depths active)

namespace Trace

variable {law law' : Law} {t : Interp}

theorem single {c : Change} (hc : law s c) : Trace law s (c.apply s) := .change .refl hc

theorem trans (h : Trace law s u) (h' : Trace law u t) : Trace law s t := by
  induction h' with
  | refl => exact h
  | change _ hc ih => exact .change ih hc
  | frames _ chain depths active ih => exact .frames ih chain depths active

theorem mono (h : Trace law s u) (hlaw : ∀ s c, law s c → law' s c) : Trace law' s u := by
  induction h with
  | refl => exact .refl
  | change _ hc ih => exact .change ih (hlaw _ _ hc)
  | frames _ chain depths active ih => exact .frames ih chain depths active

/-- What every permitted change preserves, and frames do not touch, a trace preserves. -/
theorem preserves {I : Interp → Prop} (h : Trace law s u)
    (hchange : ∀ s c, law s c → I s → I (c.apply s))
    (hframes : ∀ s chain depths active, I s → I (s.withFrames chain depths active)) (hs : I s) :
    I u := by
  induction h with
  | refl => exact hs
  | change _ hc ih => exact hchange _ _ hc ih
  | frames _ chain depths active ih => exact hframes _ chain depths active ih

theorem extended (h : Trace law s u) : Extends s u :=
  h.preserves (I := Extends s) (fun t c _ hst => hst.trans (c.extended t))
    (fun _ _ _ _ hst => hst.trans (.outside rfl rfl rfl rfl rfl rfl rfl)) (.refl s)

/-- A trace of sound changes keeps a state live. -/
theorem live (h : Trace law s u) (hsound : ∀ s c, law s c → c.Sound s)
    (hs : s.LiveUnder hosted) : u.LiveUnder hosted := by
  refine h.preserves (fun t c hc ht => Change.live ht (hsound t c hc)) (fun t _ _ _ ht => ?_) hs
  exact ht.withFrames _ _ _

end Trace

/-! ## What evaluating and interning may change -/

/-- Evaluations intern no names of the program text. Under `strict` what they bring in is sound. -/
def Change.Evaluates (strict : Prop) : Law := fun s c =>
  (∀ id name, c ≠ .intern id name) ∧ (strict → c.Sound s)

/-- Data are interned into lists, as keywords, and in namespaces; in the namespace of keywords
itself only where it is `here`, the current one. -/
def Change.Interns (strict : Prop) (here : NamespaceId) : Law := fun s c =>
  match c with
  | .cell car cdr => strict → car.Live s ∧ cdr.Live s
  | .keyword _ => True
  | .intern id _ => id = here ∨ id ≠ .keywords
  | _ => False

/-- What the forms of a text may change, when they are interned in the namespace `here`. -/
def Change.Reads (strict : Prop) (here : NamespaceId) : Law := fun s c =>
  c.Interns strict here s ∨ c.Evaluates strict s

theorem Change.Interns.sound {strict : Prop} {here : NamespaceId} {c : Change}
    (hc : c.Interns strict here s) (hstrict : strict) : c.Sound s := by
  cases c with
  | cell car cdr => exact hc hstrict
  | keyword name => trivial
  | intern id name => trivial
  | _ => exact hc.elim

end SmallLisp
