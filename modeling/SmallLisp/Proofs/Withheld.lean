import SmallLisp.Proofs.Change
import SmallLisp.Proofs.Copy

/-!
# Withheld cells

A cell that nothing refers to is out of reach. A state withholds cells if no value that it holds,
outside of these cells themselves, refers to one of them; with no cells to hide that says that every
cell which is referred to exists. What is read off such a state, starting from values that are
known, is known, and a change that brings in known values leaves the hidden cells hidden and as they
are. Such a change moves no second half that is there, and closes no chain of cells.
-/

namespace SmallLisp

variable {hidden : CellId → Prop} {s t u : Interp}

/-- If the value is a cell, then one that exists and is not hidden. -/
def Value.Known (hidden : CellId → Prop) (s : Interp) (v : Value) : Prop :=
  ∀ id, v = .cons id → id.index < s.cells.size ∧ ¬ hidden id

/-- The keys and values of a dictionary or a hash table are known. -/
abbrev EntriesKnown (hidden : CellId → Prop) (s : Interp) (es : List (Value × Value)) : Prop :=
  ∀ e ∈ es, e.1.Known hidden s ∧ e.2.Known hidden s

/-- The values that a state holds outside of cells. -/
inductive Interp.Stores (s : Interp) : Value → Prop
  | item {items : Array Value} {v : Value} (hitems : items ∈ s.arrays) (hv : v ∈ items) : Stores s v
  | entryKey {es : List (Value × Value)} {e : Value × Value} (hes : es ∈ s.dictionaries)
      (he : e ∈ es) : Stores s e.1
  | entryValue {es : List (Value × Value)} {e : Value × Value} (hes : es ∈ s.dictionaries)
      (he : e ∈ es) : Stores s e.2
  | hashKey {table : Table Value Value} {e : Value × Value} (htable : table ∈ s.hashTables)
      (he : e ∈ table.entries) : Stores s e.1
  | hashValue {table : Table Value Value} {e : Value × Value} (htable : table ∈ s.hashTables)
      (he : e ∈ table.entries) : Stores s e.2
  | body {f : Callable} {c : Closure} (hf : f ∈ s.callables) (hc : f.closure? = some c) :
      Stores s c.body
  | bound {scope : Scope} {e : SymbolId × Value} (hscope : scope ∈ s.scopes)
      (he : e ∈ scope.entries) : Stores s e.2
  | self {x : Symbol} {v : Value} (hx : x ∈ s.symbols) (hv : x.selfValue = some v) : Stores s v

/-- What is held outside of cells does not depend on them. -/
theorem Interp.Stores.withCells {cells : Array Cell} {v : Value}
    (h : Interp.Stores { s with cells := cells } v) : s.Stores v := by
  cases h with
  | item h hv => exact .item h hv
  | entryKey h he => exact .entryKey h he
  | entryValue h he => exact .entryValue h he
  | hashKey h he => exact .hashKey h he
  | hashValue h he => exact .hashValue h he
  | body h hc => exact .body h hc
  | bound h he => exact .bound h he
  | self h hv => exact .self h hv

/-- The hidden cells exist, and only hidden cells refer to them. -/
structure Interp.Withholds (hidden : CellId → Prop) (s : Interp) : Prop where
  exist : ∀ id, hidden id → id.index < s.cells.size
  cells : ∀ id, ¬ hidden id → (s.car id).Known hidden s ∧ (s.cdr id).Known hidden s
  stored : ∀ v, s.Stores v → v.Known hidden s

/-- Every cell that a state refers to exists. -/
abbrev Interp.Grounded (s : Interp) : Prop := s.Withholds fun _ => False

/-- Every chain of cells comes to an end. -/
def Interp.ChainsEnd (s : Interp) : Prop := ∀ v, ∃ ids tail, Spine s v ids tail

/-- `t` comes after `s`, and the hidden cells are in it as they were and still hidden. -/
structure Spared (hidden : CellId → Prop) (s t : Interp) : Prop where
  size_le : s.cells.size ≤ t.cells.size
  kept : ∀ id, hidden id → t.cell id = s.cell id
  withholds : t.Withholds hidden
  cdr : ∀ id : CellId, id.index < s.cells.size → t.cdr id = s.cdr id
  chains : s.ChainsEnd → t.ChainsEnd

namespace Value.Known

theorem mono {v : Value} (h : v.Known hidden s) (hsize : s.cells.size ≤ t.cells.size) :
    v.Known hidden t :=
  fun id hid => ⟨Nat.lt_of_lt_of_le (h id hid).1 hsize, (h id hid).2⟩

theorem of_iff {hidden' : CellId → Prop} {v : Value} (hv : v.Known hidden s)
    (h : ∀ id, hidden id ↔ hidden' id) : v.Known hidden' s :=
  fun id hid => ⟨(hv id hid).1, fun hhidden => (hv id hid).2 ((h id).mpr hhidden)⟩

/-- The cells that a store gains can be hidden besides. -/
theorem grow {v : Value} (hv : v.Known hidden s) (hst : Grown s t) :
    v.Known (fun id => hidden id ∨ s.cells.size ≤ id.index ∧ id.index < t.cells.size) t := by
  intro id hid
  obtain ⟨hlt, hnot⟩ := hv id hid
  refine ⟨Nat.lt_of_lt_of_le hlt hst.size_le, ?_⟩
  rintro (hhidden | ⟨hle, -⟩)
  · exact hnot hhidden
  · exact Nat.lt_irrefl _ (Nat.lt_of_lt_of_le hlt hle)

theorem nil : Value.nil.Known hidden s := nofun

theorem character (c : Char) : (Value.character c).Known hidden s := nofun

@[simp]
theorem ofBool (b : Bool) : (Value.ofBool b).Known hidden s := by
  cases b <;> exact nofun

end Value.Known

namespace Spared

theorem refl (hs : s.Withholds hidden) : Spared hidden s s :=
  ⟨Nat.le_refl _, fun _ _ => rfl, hs, fun _ _ => rfl, id⟩

theorem trans (h : Spared hidden s t) (h' : Spared hidden t u) : Spared hidden s u where
  size_le := Nat.le_trans h.size_le h'.size_le
  kept := fun id hid => (h'.kept id hid).trans (h.kept id hid)
  withholds := h'.withholds
  cdr := fun id hid => (h'.cdr id (Nat.lt_of_lt_of_le hid h.size_le)).trans (h.cdr id hid)
  chains := fun hs => h'.chains (h.chains hs)

theorem known (h : Spared hidden s t) {v : Value} (hv : v.Known hidden s) : v.Known hidden t :=
  hv.mono h.size_le

end Spared

/-! ## What is read off a state that withholds cells -/

theorem Interp.Withholds.of_iff {hidden' : CellId → Prop} (hs : s.Withholds hidden)
    (h : ∀ id, hidden id ↔ hidden' id) : s.Withholds hidden' :=
  (funext fun id => propext (h id) : hidden = hidden') ▸ hs

namespace Interp.Withholds

variable (hs : s.Withholds hidden)

include hs

theorem car {id : CellId} (hid : (Value.cons id).Known hidden s) : (s.car id).Known hidden s :=
  (hs.cells id (hid id rfl).2).1

theorem cdr {id : CellId} (hid : (Value.cons id).Known hidden s) : (s.cdr id).Known hidden s :=
  (hs.cells id (hid id rfl).2).2

omit hs in
/-- The cells of a list from a known value on are known, and so is its end. -/
theorem spine {v tail : Value} {ids : List CellId} (hs : s.Withholds hidden)
    (h : Spine s v ids tail) (hv : v.Known hidden s) :
    (∀ id ∈ ids, (Value.cons id).Known hidden s) ∧ tail.Known hidden s := by
  induction h with
  | atom _ => exact ⟨nofun, hv⟩
  | cell _ ih =>
    obtain ⟨hids, htail⟩ := ih (hs.cdr hv)
    exact ⟨List.forall_mem_cons.mpr ⟨hv, hids⟩, htail⟩

theorem cellsOf {v : Value} (hv : v.Known hidden s) :
    ∀ id ∈ s.cellsOf v, (Value.cons id).Known hidden s := by
  unfold Interp.cellsOf
  rcases s.spine_cases v with ⟨ids, tail, hspine, heq⟩ | ⟨-, heq⟩
  · rw [heq]
    exact (hs.spine hspine hv).1
  · rw [heq]
    exact nofun

theorem elementsOf {v : Value} (hv : v.Known hidden s) :
    ∀ item ∈ s.elementsOf v, item.Known hidden s := by
  intro item hitem
  obtain ⟨id, hid, rfl⟩ := List.mem_map.mp hitem
  exact hs.car (hs.cellsOf hv id hid)

theorem properElements? {v : Value} {items : List Value} (hv : v.Known hidden s)
    (h : s.properElements? v = some items) : ∀ item ∈ items, item.Known hidden s := by
  unfold Interp.properElements? at h
  split at h
  · cases h
    exact hs.elementsOf hv
  · cases h

theorem cellAt? {n : Nat} {v : Value} {id : CellId} (hv : v.Known hidden s)
    (h : s.cellAt? n v = some id) : (Value.cons id).Known hidden s := by
  induction n generalizing v with
  | zero =>
    cases v with
    | cons j => exact Option.some.inj h ▸ hv
    | _ => cases h
  | succ n ih =>
    cases v with
    | cons j => exact ih (hs.cdr hv) h
    | _ => cases h

theorem elementAt? {n : Nat} {v item : Value} (hv : v.Known hidden s)
    (h : s.elementAt? v n = some item) : item.Known hidden s := by
  obtain ⟨id, hid, rfl⟩ := Option.map_eq_some_iff.mp h
  exact hs.car (hs.cellAt? hv hid)

/-- An absent element reads as the empty list. -/
theorem elementAt_getD {v : Value} (hv : v.Known hidden s) (n : Nat) :
    ((s.elementAt? v n).getD .nil).Known hidden s := by
  cases h : s.elementAt? v n with
  | none => exact .nil
  | some item => exact hs.elementAt? hv h

theorem first {v : Value} (hv : v.Known hidden s) : (s.first v).Known hidden s := by
  cases v with
  | cons id => exact hs.car hv
  | _ => exact nofun

theorem second {v : Value} (hv : v.Known hidden s) : (s.second v).Known hidden s :=
  hs.elementAt_getD hv 1

theorem rest {v : Value} (hv : v.Known hidden s) : (s.rest v).Known hidden s := by
  cases v with
  | cons id => exact hs.cdr hv
  | _ => exact nofun

theorem arrayItems (id : ArrayId) : ∀ v ∈ s.arrayItems id, v.Known hidden s := by
  unfold Interp.arrayItems
  cases h : s.arrays[id.index]? with
  | none => exact fun v hv => nomatch hv
  | some items => exact fun v hv => hs.stored v (.item (Array.mem_of_getElem? h) hv)

theorem dictionaryEntries (id : DictionaryId) :
    EntriesKnown hidden s (s.dictionaryEntries id) := by
  unfold Interp.dictionaryEntries
  cases h : s.dictionaries[id.index]? with
  | none => exact fun e he => nomatch he
  | some es =>
    have hes : es ∈ s.dictionaries := Array.mem_of_getElem? h
    exact fun e he => ⟨hs.stored _ (.entryKey hes he), hs.stored _ (.entryValue hes he)⟩

theorem hashTable (id : HashTableId) :
    EntriesKnown hidden s (s.hashTable id).entries := by
  unfold Interp.hashTable
  cases h : s.hashTables[id.index]? with
  | none => exact fun e he => nomatch he
  | some table =>
    have htable : table ∈ s.hashTables := Array.mem_of_getElem? h
    exact fun e he => ⟨hs.stored _ (.hashKey htable he), hs.stored _ (.hashValue htable he)⟩

theorem closure {id : FunctionId} {c : Closure} (h : (s.callable id).closure? = some c) :
    c.body.Known hidden s := by
  unfold callable at h
  cases hf : s.callables[id.index]? with
  | none =>
    rw [hf] at h
    cases h
  | some f =>
    rw [hf] at h
    exact hs.stored _ (.body (Array.mem_of_getElem? hf) h)

theorem scope (id : ScopeId) : ∀ e ∈ (s.scope id).entries, e.2.Known hidden s := by
  unfold Interp.scope
  cases h : s.scopes[id.index]? with
  | none => exact fun e he => nomatch he
  | some scope => exact fun e he => hs.stored _ (.bound (Array.mem_of_getElem? h) he)

theorem lookup? {x : SymbolId} {v : Value} (h : s.lookup? x = some v) : v.Known hidden s := by
  rw [lookup?_eq_findSome?] at h
  obtain ⟨id, -, hfind⟩ := List.exists_of_findSome?_eq_some h
  exact hs.scope id _ (Table.mem_of_find? hfind)

/-- What a closure captures is bound in a scope on the chain. -/
theorem captured : ∀ e ∈ s.captured.entries, e.2.Known hidden s := by
  unfold Interp.captured
  generalize s.chain = ids
  induction ids with
  | nil => exact fun e he => nomatch he
  | cons id ids ih =>
    intro e he
    rcases Table.mem_insertAll he with hinner | houter
    · exact hs.scope id e hinner
    · exact ih e houter

theorem access {target key v : Value} (htarget : target.Known hidden s)
    (h : s.access target key = .ok v) : v.Known hidden s := by
  unfold Interp.access at h
  split at h
  next id =>
    obtain ⟨i, -, rfl⟩ := ok_of_map h
    cases hi : (s.arrayItems id)[i]? with
    | none => exact .nil
    | some item => exact hs.arrayItems id item (Array.mem_of_getElem? hi)
  next id =>
    cases h
    cases hfind : findAgreeing? s.equal key (s.dictionaryEntries id) with
    | none => exact .nil
    | some item =>
      obtain ⟨k, hk⟩ := mem_of_findAgreeing? hfind
      exact (hs.dictionaryEntries id _ hk).2
  next id =>
    split at h
    · cases h
      cases hfind : (s.hashTable id).find? key with
      | none => exact .nil
      | some item => exact (hs.hashTable id _ (Table.mem_of_find? hfind)).2
    · cases h
  next =>
    obtain ⟨i, -, hi⟩ := lookUp_eq_ok_iff.mp h
    exact hs.elementAt? htarget hi
  next id =>
    obtain ⟨i, -, hi⟩ := lookUp_eq_ok_iff.mp h
    exact hs.elementAt? htarget hi
  next =>
    obtain ⟨i, -, hi⟩ := lookUp_eq_ok_iff.mp h
    obtain ⟨c, -, rfl⟩ := Option.map_eq_some_iff.mp hi
    exact .character c
  next => cases h

omit hs in
theorem known_indexed {items : List Value} (h : ∀ v ∈ items, v.Known hidden s) :
    EntriesKnown hidden s (indexed items) := by
  intro e he
  obtain ⟨⟨v, i⟩, hmem, rfl⟩ := List.mem_map.mp he
  exact ⟨h v (List.fst_mem_of_mem_zipIdx hmem), nofun⟩

/-- The elements and keys that a collection is mapped over. -/
theorem entries {target : Value} {es : List (Value × Value)} (htarget : target.Known hidden s)
    (h : s.entries target = .ok es) : EntriesKnown hidden s es := by
  unfold Interp.entries at h
  split at h
  all_goals cases h
  next id => exact known_indexed fun v hv => hs.arrayItems id v (Array.mem_def.mpr hv)
  next id =>
    intro e he
    obtain ⟨entry, hentry, rfl⟩ := List.mem_map.mp he
    exact (hs.dictionaryEntries id entry hentry).symm
  next id =>
    intro e he
    obtain ⟨entry, hentry, rfl⟩ := List.mem_map.mp he
    exact (hs.hashTable id entry hentry).symm
  next => exact known_indexed (hs.elementsOf htarget)
  next => exact known_indexed (hs.elementsOf htarget)
  next =>
    refine known_indexed fun v hv => ?_
    obtain ⟨c, -, rfl⟩ := List.mem_map.mp hv
    exact .character c

end Interp.Withholds

/-! ## Changes that bring in known values -/

/-- A change of first halves leaves every cell alone, or it reaches a cell that exists. -/
theorem Interp.cell_setCar (s : Interp) (id j : CellId) (v : Value) :
    (s.setCar id v).cell j = s.cell j ∨ j = id ∧ (s.setCar id v).cell j = ⟨v, s.cdr j⟩ := by
  obtain ⟨i⟩ := id
  obtain ⟨j⟩ := j
  by_cases hij : i = j
  · subst hij
    cases hcell : s.cells[i]? with
    | none => exact .inl (by simp [setCar, cell, Array.getElem?_modify, hcell])
    | some c => exact .inr ⟨rfl, by simp [setCar, cdr, cell, Array.getElem?_modify, hcell]⟩
  · exact .inl (by simp [setCar, cell, Array.getElem?_modify, hij])

/-- What `u` stores outside of cells beyond what `s` does is known. -/
structure Interp.StoresKnown (hidden : CellId → Prop) (s u : Interp) : Prop where
  arrays : ∀ items ∈ u.arrays, items ∈ s.arrays ∨ ∀ v ∈ items, v.Known hidden s
  dictionaries : ∀ es ∈ u.dictionaries, es ∈ s.dictionaries ∨
    EntriesKnown hidden s es
  hashTables : ∀ table ∈ u.hashTables, table ∈ s.hashTables ∨
    EntriesKnown hidden s table.entries
  callables : ∀ f ∈ u.callables, f ∈ s.callables ∨
    ∀ c, f.closure? = some c → c.body.Known hidden s
  scopes : ∀ scope ∈ u.scopes, scope ∈ s.scopes ∨ ∀ e ∈ scope.entries, e.2.Known hidden s
  symbols : ∀ x ∈ u.symbols, x ∈ s.symbols ∨ x.selfValue = none

theorem Interp.StoresKnown.known {v : Value} (h : s.StoresKnown hidden u)
    (hs : s.Withholds hidden) (hv : u.Stores v) : v.Known hidden s := by
  cases hv with
  | item hitems hv =>
    rcases h.arrays _ hitems with hold | hnew
    · exact hs.stored _ (.item hold hv)
    · exact hnew _ hv
  | entryKey hes he =>
    rcases h.dictionaries _ hes with hold | hnew
    · exact hs.stored _ (.entryKey hold he)
    · exact (hnew _ he).1
  | entryValue hes he =>
    rcases h.dictionaries _ hes with hold | hnew
    · exact hs.stored _ (.entryValue hold he)
    · exact (hnew _ he).2
  | hashKey htable he =>
    rcases h.hashTables _ htable with hold | hnew
    · exact hs.stored _ (.hashKey hold he)
    · exact (hnew _ he).1
  | hashValue htable he =>
    rcases h.hashTables _ htable with hold | hnew
    · exact hs.stored _ (.hashValue hold he)
    · exact (hnew _ he).2
  | body hf hc =>
    rcases h.callables _ hf with hold | hnew
    · exact hs.stored _ (.body hold hc)
    · exact hnew _ hc
  | bound hscope he =>
    rcases h.scopes _ hscope with hold | hnew
    · exact hs.stored _ (.bound hold he)
    · exact hnew _ he
  | self hx hv =>
    rcases h.symbols _ hx with hold | hnone
    · exact hs.stored _ (.self hold hv)
    · rw [hnone] at hv
      cases hv

namespace Interp.Withholds

variable (hs : s.Withholds hidden)

include hs

/-- A chain is closed by no cell that is followed by a known value. -/
theorem chainsEnd (hcells : ∀ id, u.cdr id = s.cdr id ∨ (u.cdr id).Known hidden s)
    (hcdr : ∀ id : CellId, id.index < s.cells.size → u.cdr id = s.cdr id) (h : s.ChainsEnd) :
    u.ChainsEnd := by
  have hknown : ∀ v : Value, v.Known hidden s → ∃ ids tail, Spine u v ids tail := by
    intro v hv
    obtain ⟨ids, tail, hspine⟩ := h v
    have hids := (hs.spine hspine hv).1
    exact ⟨ids, tail, hspine.congr fun id hid => hcdr id (hids id hid id rfl).1⟩
  intro v
  obtain ⟨ids, tail, hspine⟩ := h v
  induction hspine with
  | @atom v hatom => exact ⟨[], v, .atom hatom⟩
  | @cell id _ _ _ ih =>
    obtain ⟨ids, tail, hrest⟩ : ∃ ids tail, Spine u (u.cdr id) ids tail := by
      rcases hcells id with hsame | hnew
      · exact hsame ▸ ih
      · exact hknown _ hnew
    exact ⟨id :: ids, tail, .cell hrest⟩

/-- A state that gains known values spares the hidden cells. -/
theorem spared (hsize : s.cells.size ≤ u.cells.size)
    (hcells : ∀ id, u.cell id = s.cell id ∨
      ¬ hidden id ∧ (u.car id).Known hidden s ∧ (u.cdr id).Known hidden s)
    (hcdr : ∀ id : CellId, id.index < s.cells.size → u.cdr id = s.cdr id)
    (hstores : s.StoresKnown hidden u) : Spared hidden s u where
  size_le := hsize
  cdr := hcdr
  chains := hs.chainsEnd (fun id => (hcells id).imp (congrArg Cell.cdr) fun h => h.2.2) hcdr
  kept := fun id hid => (hcells id).resolve_right fun h => h.1 hid
  withholds := by
    refine ⟨fun id hid => Nat.lt_of_lt_of_le (hs.exist id hid) hsize, fun id hid => ?_,
      fun v hv => (hstores.known hs hv).mono hsize⟩
    rcases hcells id with hsame | ⟨-, hcar, hcdr⟩
    · obtain ⟨hcar, hcdr⟩ := hs.cells id hid
      have hcarSame : u.car id = s.car id := congrArg Cell.car hsame
      have hcdrSame : u.cdr id = s.cdr id := congrArg Cell.cdr hsame
      rw [hcarSame, hcdrSame]
      exact ⟨hcar.mono hsize, hcdr.mono hsize⟩
    · exact ⟨hcar.mono hsize, hcdr.mono hsize⟩

/-- Most changes leave all cells alone. -/
theorem spared_outside (hcells : u.cells = s.cells) (hstores : s.StoresKnown hidden u) :
    Spared hidden s u := by
  have hcell : ∀ id, u.cell id = s.cell id := by
    intro id
    unfold cell
    rw [hcells]
  exact hs.spared (Nat.le_of_eq (by rw [hcells])) (fun id => .inl (hcell id))
    (fun id _ => congrArg Cell.cdr (hcell id)) hstores

theorem allocCell {a b : Value} (ha : a.Known hidden s) (hb : b.Known hidden s) :
    Spared hidden s (s.allocCell a b).2 := by
  have hext : Extends s (s.allocCell a b).2 := Change.extended s (.cell a b)
  refine hs.spared hext.cells (fun id => ?_) hext.cdr ?_
  · have hread := Interp.cell_allocCell s a b id
    split at hread
    next hnew =>
      have hcar : (s.allocCell a b).2.car id = a := congrArg Cell.car hread
      have hcdr : (s.allocCell a b).2.cdr id = b := congrArg Cell.cdr hread
      rw [hcar, hcdr]
      exact .inr ⟨fun hid => Nat.lt_irrefl _ (hnew ▸ hs.exist id hid), ha, hb⟩
    next => exact .inl hread
  · constructor <;> exact fun _ h => .inl h

theorem known_allocCell (a b : Value) : (s.allocCell a b).1.Known hidden (s.allocCell a b).2 := by
  rintro id hid
  cases hid
  refine ⟨?_, fun hhidden => Nat.lt_irrefl _ (hs.exist _ hhidden)⟩
  show s.cells.size < (s.cells.push ⟨a, b⟩).size
  simp

theorem consReversed {items : List Value} {tail : Value} (hitems : ∀ v ∈ items, v.Known hidden s)
    (htail : tail.Known hidden s) :
    Spared hidden s (s.consReversed items tail).2 ∧
      (s.consReversed items tail).1.Known hidden (s.consReversed items tail).2 := by
  induction items generalizing s tail with
  | nil => exact ⟨.refl hs, htail⟩
  | cons v items ih =>
    obtain ⟨hv, hitems⟩ := List.forall_mem_cons.mp hitems
    have hcell := hs.allocCell hv htail
    obtain ⟨hlist, hhead⟩ := ih hcell.withholds (fun w hw => hcell.known (hitems w hw))
      (hs.known_allocCell v tail)
    exact ⟨hcell.trans hlist, hhead⟩

theorem allocArray {items : Array Value} (hitems : ∀ v ∈ items, v.Known hidden s) :
    Spared hidden s (s.allocArray items).2 := by
  refine hs.spared_outside rfl ?_
  constructor
  case arrays =>
    intro vs hvs
    rcases mem_of_mem_push hvs with hold | rfl
    · exact .inl hold
    · exact .inr hitems
  all_goals exact fun _ h => .inl h

theorem allocDictionary {es : List (Value × Value)} (hes : EntriesKnown hidden s es) :
    Spared hidden s (s.allocDictionary es).2 := by
  refine hs.spared_outside rfl ?_
  constructor
  case dictionaries =>
    intro ds hds
    rcases mem_of_mem_push hds with hold | rfl
    · exact .inl hold
    · exact .inr hes
  all_goals exact fun _ h => .inl h

theorem allocHashTable {table : Table Value Value}
    (htable : EntriesKnown hidden s table.entries) :
    Spared hidden s (s.allocHashTable table).2 := by
  refine hs.spared_outside rfl ?_
  constructor
  case hashTables =>
    intro ts hts
    rcases mem_of_mem_push hts with hold | rfl
    · exact .inl hold
    · exact .inr htable
  all_goals exact fun _ h => .inl h

theorem allocScope : Spared hidden s (s.allocScope .empty).2 := by
  refine hs.spared_outside rfl ?_
  constructor
  case scopes =>
    intro scope hscope
    rcases mem_of_mem_push hscope with hold | rfl
    · exact .inl hold
    · exact .inr fun e he => nomatch he
  all_goals exact fun _ h => .inl h

theorem bindIn (id : ScopeId) (x : SymbolId) {v : Value} (hv : v.Known hidden s) :
    Spared hidden s (s.bindIn id x v) := by
  refine hs.spared_outside rfl ?_
  constructor
  case scopes =>
    intro scope hscope
    replace hscope : scope ∈ s.scopes.modify id.index fun b => b.insert x v := hscope
    rcases mem_of_mem_modify hscope with hold | ⟨old, hold, rfl⟩
    · exact .inl hold
    · refine .inr fun e he => ?_
      rcases Table.mem_insert he with rfl | he
      · exact hv
      · exact hs.stored _ (.bound hold he)
  all_goals exact fun _ h => .inl h

theorem allocClosure (expands : Bool) (xs : List SymbolId) {arguments : Value}
    (harguments : arguments.Known hidden s) :
    Spared hidden s (SpecialForm.allocClosure (.ofClosure expands) xs arguments s).2 := by
  refine hs.spared_outside rfl ?_
  constructor
  case scopes =>
    intro scope hscope
    rcases mem_of_mem_push hscope with hold | rfl
    · exact .inl hold
    · exact .inr hs.captured
  case callables =>
    intro f hf
    rcases mem_of_mem_push hf with hold | rfl
    · exact .inl hold
    · have hbody := hs.rest harguments
      refine .inr fun c hc => ?_
      cases expands <;> cases hc <;> exact hbody
  all_goals exact fun _ h => .inl h

omit hs in
/-- Storing under a key that agrees with an older one keeps the older one. -/
theorem assignEntry {es : List (Value × Value)} {key v : Value} (hes : EntriesKnown hidden s es)
    (hkey : key.Known hidden s) (hv : v.Known hidden s) :
    EntriesKnown hidden s (s.assignEntry es key v) := by
  unfold Interp.assignEntry
  induction es with
  | nil =>
    intro e he
    rw [List.mem_singleton.mp he]
    exact ⟨hkey, hv⟩
  | cons head rest ih =>
    obtain ⟨hhead, hrest⟩ := List.forall_mem_cons.mp hes
    intro e he
    unfold assignAgreeing at he
    split at he
    · rcases List.mem_cons.mp he with rfl | he
      · exact ⟨hhead.1, hv⟩
      · exact hrest e he
    · rcases List.mem_cons.mp he with rfl | he
      · exact hhead
      · exact ih hrest e he

theorem storeItem (id : ArrayId) (i : Nat) {v : Value} (hv : v.Known hidden s) :
    Spared hidden s (s.store v (.item id i)) := by
  refine hs.spared_outside rfl ?_
  constructor
  case arrays =>
    intro items hitems
    replace hitems : items ∈ s.arrays.modify id.index fun old => old.setIfInBounds i v := hitems
    rcases mem_of_mem_modify hitems with hold | ⟨old, hold, rfl⟩
    · exact .inl hold
    · refine .inr fun w hw => ?_
      rcases Array.mem_or_eq_of_mem_setIfInBounds hw with hw | rfl
      · exact hs.stored w (.item hold hw)
      · exact hv
  all_goals exact fun _ h => .inl h

theorem storeEntry (id : DictionaryId) {key v : Value} (hkey : key.Known hidden s)
    (hv : v.Known hidden s) : Spared hidden s (s.store v (.entry id key)) := by
  refine hs.spared_outside rfl ?_
  constructor
  case dictionaries =>
    intro es hes
    rcases Array.mem_or_eq_of_mem_setIfInBounds hes with hold | rfl
    · exact .inl hold
    · exact .inr (assignEntry (hs.dictionaryEntries id) hkey hv)
  all_goals exact fun _ h => .inl h

theorem storeHashed (id : HashTableId) {key v : Value} (hkey : key.Known hidden s)
    (hv : v.Known hidden s) : Spared hidden s (s.store v (.hashed id key)) := by
  refine hs.spared_outside rfl ?_
  constructor
  case hashTables =>
    intro table htable
    rcases Array.mem_or_eq_of_mem_setIfInBounds htable with hold | rfl
    · exact .inl hold
    · refine .inr fun e he => ?_
      rcases Table.mem_insert he with rfl | he
      · exact ⟨hkey, hv⟩
      · exact hs.hashTable id e he
  all_goals exact fun _ h => .inl h

theorem storeCell {id : CellId} {v : Value} (hid : ¬ hidden id) (hv : v.Known hidden s) :
    Spared hidden s (s.store v (.cell id)) := by
  have hext : Extends s (s.store v (.cell id)) := Change.extended s (.store v (.cell id))
  refine hs.spared hext.cells (fun j => ?_) hext.cdr ?_
  · rcases cell_setCar s id j v with hsame | ⟨rfl, hnew⟩
    · exact .inl hsame
    · have hcar : (s.setCar j v).car j = v := congrArg Cell.car hnew
      change (s.setCar j v).cell j = s.cell j ∨ ¬ hidden j ∧
        ((s.setCar j v).car j).Known hidden s ∧ ((s.setCar j v).cdr j).Known hidden s
      rw [hcar, cdr_setCar]
      exact .inr ⟨hid, hv, (hs.cells j hid).2⟩
  · constructor <;> exact fun _ h => .inl h

/-- An assignment to a list stores into a cell of it. -/
theorem store {target key v : Value} {place : Place} (htarget : target.Known hidden s)
    (hkey : key.Known hidden s) (hv : v.Known hidden s) (hplace : s.place target key = .ok place) :
    Spared hidden s (s.store v place) := by
  unfold Interp.place at hplace
  split at hplace
  next id =>
    obtain ⟨i, -, rfl⟩ := ok_of_map hplace
    exact hs.storeItem id i hv
  next id =>
    cases hplace
    exact hs.storeEntry id hkey hv
  next id =>
    split at hplace
    · cases hplace
      exact hs.storeHashed id hkey hv
    · cases hplace
  next =>
    obtain ⟨id, hid, rfl⟩ := ok_of_map hplace
    obtain ⟨i, -, hi⟩ := lookUp_eq_ok_iff.mp hid
    exact hs.storeCell ((hs.cellAt? htarget hi) id rfl).2 hv
  next =>
    obtain ⟨id, hid, rfl⟩ := ok_of_map hplace
    obtain ⟨i, -, hi⟩ := lookUp_eq_ok_iff.mp hid
    exact hs.storeCell ((hs.cellAt? htarget hi) id rfl).2 hv
  next => cases hplace
  next => cases hplace

/-- New symbols have no values of their own. -/
theorem names {symbols : SymbolStore} {namespaces : Array Namespace} {current : NamespaceId}
    {generated : Nat} (hsymbols : s.symbols.Grows (fun x => x.selfValue = none) symbols) :
    Spared hidden s
      { s with
        symbols := symbols, namespaces := namespaces, current := current,
        generated := generated } := by
  refine hs.spared_outside rfl ?_
  constructor
  case symbols => exact fun x hx => hsymbols.mem hx
  all_goals exact fun _ h => .inl h

theorem internIn {id : NamespaceId} {name : String} {x : SymbolId}
    (h : s.internIn id name = .ok (x, u)) : Spared hidden s u := by
  rcases Interp.internIn_cases h with ⟨-, rfl⟩ | ⟨-, -, -, rfl⟩
  · exact .refl hs
  · have hnone : ((s.namespaceAt id).newSymbol name).selfValue = none := by
      unfold Namespace.newSymbol
      split <;> rfl
    exact hs.names (.push hnone s.symbols)

/-- A new keyword is bound to itself. -/
theorem internKeyword {name : String} {x : SymbolId} (h : s.internKeyword name = .ok (x, u)) :
    Spared hidden s u := by
  rcases Interp.internKeyword_cases h with ⟨-, rfl⟩ | ⟨t, -, hintern, rfl⟩
  · exact .refl hs
  · have ht := hs.internIn hintern
    exact ht.trans (ht.withholds.bindIn .global x nofun)

theorem generate : Spared hidden s s.generate.2 := by
  have hnone : (Symbol.generated ("G" ++ toString (s.generated + 1))).selfValue = none := rfl
  exact hs.names (.push hnone s.symbols)

theorem create {arguments : Value} {id : NamespaceId}
    (h : NamespaceForm.create s arguments = .ok (id, u)) : Spared hidden s u := by
  obtain ⟨name, es, symbols, -, -, hgrows, -, rfl⟩ := NamespaceForm.create_cases h
  exact hs.names (hgrows.mono fun _ hx => hx.selfValue)

theorem changeNamespace {name : String} {id : NamespaceId}
    (h : s.changeNamespace name = .ok (id, u)) : Spared hidden s u := by
  obtain ⟨-, rfl⟩ := Interp.changeNamespace_cases h
  exact hs.names (.refl s.symbols)

theorem useNamed {name : String} {id : NamespaceId} (h : s.useNamed name = .ok (id, u)) :
    Spared hidden s u := by
  rcases Interp.useNamed_cases h with ⟨-, rfl⟩ | ⟨-, rfl⟩
  · exact .refl hs
  · exact hs.names (.refl s.symbols)

/-- Cells that are gained can be hidden whatever they contain. -/
theorem grow (hst : Grown s t) :
    t.Withholds fun id => hidden id ∨ s.cells.size ≤ id.index ∧ id.index < t.cells.size := by
  constructor
  case exist =>
    rintro id (hhidden | ⟨-, hlt⟩)
    · exact Nat.lt_of_lt_of_le (hs.exist id hhidden) hst.size_le
    · exact hlt
  case cells =>
    intro id hid
    obtain ⟨hnot, hold⟩ := not_or.mp hid
    rcases Nat.lt_or_ge id.index s.cells.size with hlt | hge
    · obtain ⟨hcar, hcdr⟩ := hs.cells id hnot
      rw [hst.car hlt, hst.cdr hlt]
      exact ⟨hcar.grow hst, hcdr.grow hst⟩
    · have hmissing : t.cells.size ≤ id.index := Nat.le_of_not_lt fun hlt => hold ⟨hge, hlt⟩
      have hcell : t.cell id = ⟨.nil, .nil⟩ := by
        unfold cell
        rw [Array.getElem?_eq_none hmissing]
        rfl
      unfold Interp.car Interp.cdr
      rw [hcell]
      exact ⟨.nil, .nil⟩
  case stored =>
    intro v hv
    rw [hst.others] at hv
    exact (hs.stored v hv.withCells).grow hst

/-- Frames hold no values. -/
theorem withFrames (chain : List ScopeId) (depths : Depths) (active : Nat) :
    Spared hidden s (s.withFrames chain depths active) := by
  refine hs.spared_outside rfl ?_
  constructor <;> exact fun _ h => .inl h

end Interp.Withholds

/-- Another store, whose cells refer to each other only. -/
theorem Interp.Withholds.withCells (hs : s.Grounded) {cells : Array Cell}
    (hsize : s.cells.size ≤ cells.size)
    (hcells : ∀ c ∈ cells, c.car.Below cells.size ∧ c.cdr.Below cells.size) :
    Interp.Grounded { s with cells := cells } := by
  refine ⟨fun id hid => hid.elim, fun id _ => ?_, fun v hv id hid => ?_⟩
  · unfold Interp.car Interp.cdr cell
    cases h : cells[id.index]? with
    | none => exact ⟨.nil, .nil⟩
    | some c =>
      obtain ⟨hcar, hcdr⟩ := hcells c (Array.mem_of_getElem? h)
      exact ⟨fun j hj => ⟨hcar j hj, not_false⟩, fun j hj => ⟨hcdr j hj, not_false⟩⟩
  · refine ⟨Nat.lt_of_lt_of_le ((hs.stored v ?_) id hid).1 hsize, not_false⟩
    exact hv.withCells

/-- Every cell that a live state refers to exists. -/
theorem Interp.Live.grounded (hs : s.Live) : s.Grounded := by
  have hknown : ∀ v : Value, v.Live s → v.Known (fun _ => False) s := by
    rintro v hv id rfl
    exact ⟨hv, not_false⟩
  refine ⟨fun id hid => hid.elim, fun id _ => ⟨hknown _ (hs.car id), hknown _ (hs.cdr id)⟩, ?_⟩
  intro v hv
  refine hknown v ?_
  cases hv with
  | item h hv => exact hs.arrays _ h _ hv
  | entryKey h he => exact (hs.dictionaries _ h _ he).1
  | entryValue h he => exact (hs.dictionaries _ h _ he).2
  | hashKey h he => exact (hs.hashTables _ h _ he).1
  | hashValue h he => exact (hs.hashTables _ h _ he).2
  | @body f c h hc =>
    have hf := hs.callables _ h
    cases f with
    | lambda c' => cases hc; exact Closure.Live.body hf
    | expander c' => cases hc; exact Closure.Live.body hf
    | _ => cases hc
  | bound h he => exact (hs.scopes _ h _ he).2
  | self h hv => exact hs.selfValues _ h _ hv

end SmallLisp
