import SmallLisp.Proofs.Indexing
import SmallLisp.Proofs.Relocation

/-!
# Runs on relocated states

`Tracks r move act act'` says that `act'` does in a relocated state what `act` does in the state
itself: both leave states that are again related, and the answers, the values of signals included,
are the same but for the relocation. The changes that evaluations make keep states related, and
there is one rule for each way in which actions are put together.
-/

namespace SmallLisp

variable {r : Relocation} {s t : Interp} {α β : Type}

/-- Two operations fail for one reason, or they answer the same and leave related states. -/
def Relocation.Agrees {ε : Type} (r : Relocation) :
    Except ε (α × Interp) → Except ε (α × Interp) → Prop
  | .ok p, .ok p' => p'.1 = p.1 ∧ Relocated r p.2 p'.2
  | .error cause, .error cause' => cause' = cause
  | _, _ => False

theorem Relocation.Agrees.map {ε : Type} {f f' : α × Interp → β × Interp}
    {a a' : Except ε (α × Interp)} (h : r.Agrees a a')
    (hf : ∀ x u w, Relocated r u w → r.Agrees (ε := ε) (.ok (f (x, u))) (.ok (f' (x, w)))) :
    r.Agrees (a.map f) (a'.map f') := by
  cases a with
  | error cause =>
    cases a' with
    | error cause' => exact h
    | ok p' => exact h.elim
  | ok p =>
    cases a' with
    | error cause' => exact h.elim
    | ok p' =>
      obtain ⟨x, u⟩ := p
      obtain ⟨x', w⟩ := p'
      obtain ⟨rfl, hu⟩ : x' = x ∧ Relocated r u w := h
      exact hf x' u w hu

/-! ## Changes of relocated states -/

theorem Interp.setCar_of_size_le (s : Interp) {id : CellId} (v : Value)
    (h : s.cells.size ≤ id.index) : s.setCar id v = s := by
  have hmodify : (s.cells.modify id.index fun c => { c with car := v }) = s.cells := by
    apply Array.ext_getElem?
    intro i
    rw [Array.getElem?_modify]
    split
    next heq => rw [← heq, Array.getElem?_eq_none h, Option.map_none]
    next => rfl
  rw [setCar, hmodify]

namespace Relocated

variable (h : Relocated r s t)

include h

theorem move_new : r.move ⟨s.cells.size⟩ = ⟨t.cells.size⟩ := h.fresh 0

theorem allocCell (a b : Value) :
    Relocated r (s.allocCell a b).2 (t.allocCell (a.relocate r) (b.relocate r)).2 :=
  { h with
    cell := fun id => by
      rw [Interp.cell_allocCell, Interp.cell_allocCell, h.cell]
      have hnew : (r.move id).index = t.cells.size ↔ id.index = s.cells.size := by
        constructor
        · intro heq
          have hmove : r.move id = r.move ⟨s.cells.size⟩ := by
            rw [h.move_new, ← heq]
          rw [r.injective hmove]
        · intro heq
          obtain ⟨i⟩ := id
          obtain rfl : i = s.cells.size := heq
          rw [h.move_new]
      simp only [hnew]
      split <;> rfl
    fresh := fun n => by
      rw [Interp.size_allocCell, Interp.size_allocCell, Nat.add_assoc, Nat.add_assoc]
      exact h.fresh (1 + n) }

theorem setCar (id : CellId) (v : Value) :
    Relocated r (s.setCar id v) (t.setCar (r.move id) (v.relocate r)) := by
  by_cases hid : id.index < s.cells.size
  · exact { h with
      cell := fun j => by
        rw [t.cell_setCar_eq (h.index_lt_iff.mpr hid), s.cell_setCar_eq hid]
        simp only [r.injective.eq_iff, h.cell, h.cdr]
        split <;> rfl
      fresh := fun n => by simpa [Interp.setCar] using h.fresh n }
  · have hmissing := Nat.le_of_not_lt (mt h.index_lt_iff.mp hid)
    rw [t.setCar_of_size_le _ hmissing, s.setCar_of_size_le _ (Nat.le_of_not_lt hid)]
    exact h

omit h in
/-- Changing an item in place, before and after a change of all items. -/
theorem map_modify {f f' : α → α} {g : α → α} (hf : ∀ a, g (f a) = f' (g a)) (xs : Array α)
    (i : Nat) : (xs.modify i f).map g = (xs.map g).modify i f' := by
  apply Array.ext_getElem?
  intro j
  simp only [Array.getElem?_map, Array.getElem?_modify]
  split
  · cases xs[j]? <;> simp [hf]
  · rfl

theorem allocArray (items : Array Value) :
    Relocated r (s.allocArray items).2 (t.allocArray (items.map (Value.relocate r))).2 :=
  { h with arrays := by simp [Interp.allocArray, h.arrays] }

theorem setArrayItem (id : ArrayId) (i : Nat) (v : Value) :
    Relocated r (s.setArrayItem id i v) (t.setArrayItem id i (v.relocate r)) :=
  { h with
    arrays := by
      have hitems : ∀ items : Array Value, (items.setIfInBounds i v).map (Value.relocate r) =
          (items.map (Value.relocate r)).setIfInBounds i (v.relocate r) :=
        fun items => Array.map_setIfInBounds
      simp only [Interp.setArrayItem, h.arrays]
      exact (map_modify hitems s.arrays id.index).symm }

theorem allocDictionary (es : List (Value × Value)) :
    Relocated r (s.allocDictionary es).2 (t.allocDictionary (es.map (relocateEntry r))).2 :=
  { h with dictionaries := by simp [Interp.allocDictionary, h.dictionaries] }

theorem setDictionary (id : DictionaryId) (es : List (Value × Value)) :
    Relocated r (s.setDictionary id es) (t.setDictionary id (es.map (relocateEntry r))) :=
  { h with dictionaries := by simp [Interp.setDictionary, h.dictionaries, Array.map_setIfInBounds] }

theorem allocHashTable (table : Table Value Value) :
    Relocated r (s.allocHashTable table).2 (t.allocHashTable (relocateTable r table)).2 :=
  { h with hashTables := by simp [Interp.allocHashTable, h.hashTables] }

theorem setHashTable (id : HashTableId) (table : Table Value Value) :
    Relocated r (s.setHashTable id table) (t.setHashTable id (relocateTable r table)) :=
  { h with hashTables := by simp [Interp.setHashTable, h.hashTables, Array.map_setIfInBounds] }

theorem allocScope (scope : Scope) :
    Relocated r (s.allocScope scope).2 (t.allocScope (relocateScope r scope)).2 :=
  { h with scopes := by simp [Interp.allocScope, h.scopes] }

theorem bindIn (id : ScopeId) (x : SymbolId) (v : Value) :
    Relocated r (s.bindIn id x v) (t.bindIn id x (v.relocate r)) :=
  { h with
    scopes := by
      have hscope : ∀ scope : Scope, relocateScope r (scope.insert x v) =
          (relocateScope r scope).insert x (v.relocate r) :=
        fun scope => (Table.insert_mapEntries Function.injective_id scope x v).symm
      simp only [Interp.bindIn, h.scopes]
      exact (map_modify hscope s.scopes id.index).symm }

theorem currentScope : t.currentScope = s.currentScope := by
  rw [Interp.currentScope, h.chain, Interp.currentScope]

theorem bind (x : SymbolId) (v : Value) :
    Relocated r (s.bind x v) (t.bind x (v.relocate r)) := by
  rw [Interp.bind, Interp.bind, h.currentScope]
  exact h.bindIn _ x v

theorem allocCallable (f : Callable) (hf : ∀ g, f ≠ .host g) :
    Relocated r (s.allocCallable f).2 (t.allocCallable (f.relocate r)).2 :=
  { h with
    callables := by simp [Interp.allocCallable, h.callables]
    hostless := by
      intro g hg
      rcases Array.mem_push.mp hg with hg | hg
      · exact h.hostless g hg
      · exact hf g hg.symm }

theorem store (v : Value) (place : Place) :
    Relocated r (s.store v place) (t.store (v.relocate r) (place.relocate r)) := by
  cases place with
  | item id i => exact h.setArrayItem id i v
  | entry id key =>
    simp only [Place.relocate, Interp.store, h.dictionaryEntries, h.assignEntry]
    exact h.setDictionary id _
  | hashed id key =>
    simp only [Place.relocate, Interp.store, h.hashTable, relocateTable,
      Table.insert_mapEntries (Value.relocate_injective r)]
    exact h.setHashTable id _
  | cell id => exact h.setCar id v

/-- How many evaluations are active is left out. -/
theorem withActive (active active' : Nat) :
    Relocated r (s.withActive active) (t.withActive active') :=
  { h with }

/-! ## Names -/

/-- A new symbol has the same address and the same name in both states. -/
theorem generate :
    t.generate.1 = s.generate.1 ∧ Relocated r s.generate.2 t.generate.2 := by
  unfold Interp.generate
  rw [h.symbols, h.generated]
  exact ⟨rfl, { h with symbols := rfl, generated := rfl }⟩

theorem setNamespace (id : NamespaceId) (ns : Namespace) :
    Relocated r (s.setNamespace id ns) (t.setNamespace id ns) :=
  { h with namespaces := by rw [Interp.setNamespace, h.namespaces, Interp.setNamespace] }

theorem withSymbols (symbols : SymbolStore) :
    Relocated r { s with symbols := symbols } { t with symbols := symbols } :=
  { h with symbols := rfl }

theorem internIn (id : NamespaceId) (name : String) :
    r.Agrees (s.internIn id name) (t.internIn id name) := by
  unfold Interp.internIn
  rw [h.namespaceAt, h.symbols]
  cases (s.namespaceAt id).intern s.symbols name with
  | error cause => exact rfl
  | ok result => exact ⟨rfl, (h.withSymbols _).setNamespace id _⟩

theorem internKeyword (name : String) :
    r.Agrees (s.internKeyword name) (t.internKeyword name) := by
  unfold Interp.internKeyword
  rw [h.namespaceAt]
  cases (s.namespaceAt .keywords).find? name with
  | some x => exact ⟨rfl, h⟩
  | none => exact (h.internIn .keywords name).map fun x u w hu => ⟨rfl, hu.bindIn .global x _⟩

theorem namespaceNamed (name : String) : t.namespaceNamed name = s.namespaceNamed name := by
  simp [Interp.namespaceNamed, Interp.findNamespace?, h.namespaces]

theorem changeNamespace (name : String) :
    r.Agrees (s.changeNamespace name) (t.changeNamespace name) := by
  unfold Interp.changeNamespace
  rw [h.namespaceNamed]
  cases s.namespaceNamed name with
  | error cause => exact rfl
  | ok id =>
    dsimp only
    rw [h.namespaceAt]
    split
    · exact ⟨rfl, { h with current := rfl }⟩
    · exact rfl

theorem useNamed (name : String) : r.Agrees (s.useNamed name) (t.useNamed name) := by
  unfold Interp.useNamed
  rw [h.namespaceNamed]
  cases s.namespaceNamed name with
  | error cause => exact rfl
  | ok id =>
    refine ⟨rfl, ?_⟩
    simp only [h.current, Interp.useIn, h.namespaceAt]
    split
    · exact h
    · exact h.setNamespace s.current _

theorem nameOf (v : Value) : NamespaceForm.nameOf t (v.relocate r) = NamespaceForm.nameOf s v := by
  cases v with
  | symbol x =>
    show Except.ok (t.symbol x).name = Except.ok (s.symbol x).name
    rw [h.symbol]
  | string text => rfl
  | _ => exact h.mentioning (fun text => .type (.namespaceName text) none) _

theorem namesOf (vs : List Value) :
    NamespaceForm.namesOf t (vs.map (Value.relocate r)) = NamespaceForm.namesOf s vs := by
  induction vs with
  | nil => rfl
  | cons v rest ih => simp only [List.map_cons, NamespaceForm.namesOf, h.nameOf, ih]

theorem useAll (d : NamespaceForm.Draft) (names : List String) :
    NamespaceForm.Draft.useAll t d names = NamespaceForm.Draft.useAll s d names := by
  induction names generalizing d with
  | nil => rfl
  | cons name rest ih =>
    simp only [NamespaceForm.Draft.useAll, h.namespaceNamed, h.namespaceAt, ih]

theorem clause (d : NamespaceForm.Draft) (names : List String) :
    d.clause t names = d.clause s names := by
  cases names with
  | nil => rfl
  | cons keyword operands =>
    simp only [NamespaceForm.Draft.clause, h.useAll, Interp.findNamespace?, h.namespaces,
      h.namespaceAt]

theorem clauses (d : NamespaceForm.Draft) (vs : List Value) :
    d.clauses t (vs.map (Value.relocate r)) = d.clauses s vs := by
  induction vs generalizing d with
  | nil => rfl
  | cons v rest ih =>
    cases v with
    | cons id =>
      have hprint := h.print (.cons id)
      have helements := h.properElements? (.cons id)
      rw [Value.relocate_cons] at hprint helements
      simp only [List.map_cons, Value.relocate_cons, NamespaceForm.Draft.clauses, hprint,
        helements, h.clause, ih]
      cases s.properElements? (.cons id) with
      | none => rfl
      | some items => simp only [Option.map_some, h.namesOf]
    | _ => exact h.mentioning (fun text => .namespaces (.illegalClause text)) _

theorem create (arguments : Value) :
    r.Agrees (NamespaceForm.create s arguments)
      (NamespaceForm.create t (arguments.relocate r)) := by
  unfold NamespaceForm.create
  rw [h.first, h.nameOf]
  cases NamespaceForm.nameOf s (s.first arguments) with
  | error fault => exact rfl
  | ok name =>
    dsimp only
    rw [h.rest, h.elementsOf, h.clauses, h.symbols]
    cases NamespaceForm.Draft.clauses s ⟨.fresh name true, s.symbols⟩
        (s.elementsOf (s.rest arguments)) with
    | error fault => exact rfl
    | ok d =>
      unfold Interp.addNamespace Interp.findNamespace?
      dsimp only
      rw [h.namespaces]
      cases hfound : (s.namespaces.findIdx? fun ns => ns.name == d.names.name).map
          (fun i => (⟨i⟩ : NamespaceId)) with
      | some id => exact rfl
      | none => exact ⟨rfl, { h with symbols := rfl, namespaces := rfl }⟩

end Relocated

/-! ## Actions -/

/-- Two results that are the same but for a relocation. -/
inductive Moved (r : Relocation) (move : α → α) :
    EStateM.Result Flow Interp α → EStateM.Result Flow Interp α → Prop
  | ok {a : α} {u w : Interp} (h : Relocated r u w) : Moved r move (.ok a u) (.ok (move a) w)
  | error {flow : Flow} {u w : Interp} (h : Relocated r u w) :
      Moved r move (.error flow u) (.error (flow.relocate r) w)

/-- The second action does in relocated states what the first one does. -/
def Tracks (r : Relocation) (move : α → α) (act act' : EvalM α) : Prop :=
  ∀ s t, Relocated r s t → Moved r move (act s) (act' t)

/-- The second evaluator does with relocated requests what the first one does. -/
def Evaluator.Tracked (r : Relocation) (ev ev' : Evaluator) : Prop :=
  (∀ form, Tracks r (Value.relocate r) (ev (.evaluate form)) (ev' (.evaluate (form.relocate r)))) ∧
  ∀ f arguments, Tracks r (Value.relocate r) (ev (.apply f arguments))
    (ev' (.apply f (arguments.relocate r)))

namespace Tracks

variable {move : α → α} {move' : β → β} {act act' : EvalM α}

theorem pure (a : α) : Tracks r move (Pure.pure a) (Pure.pure (move a)) := fun _ _ h => .ok h

theorem fail (cause : Fault) : Tracks r move (EvalM.fail cause) (EvalM.fail cause) :=
  fun _ _ h => .error h

theorem exhausted : Tracks r move (throw .spent) (throw .spent) := fun _ _ h => .error h

theorem exit (σ : Signal) : Tracks r move (EvalM.exit σ) (EvalM.exit (σ.relocate r)) :=
  fun _ _ h => .error h

theorem bind {next next' : α → EvalM β} (h : Tracks r move act act')
    (hnext : ∀ a, Tracks r move' (next a) (next' (move a))) :
    Tracks r move' (act >>= next) (act' >>= next') := by
  intro s t hst
  have hfirst := h s t hst
  change Moved r move' (EStateM.bind act next s) (EStateM.bind act' next' t)
  unfold EStateM.bind
  generalize act s = result at hfirst
  generalize act' t = result' at hfirst
  cases hfirst with
  | @ok a u w hu => exact hnext a u w hu
  | error hu => exact .error hu

/-- What is read off related states is the same but for the relocation. -/
theorem read {f f' : Interp → α} (hf : ∀ {s t}, Relocated r s t → f' t = move (f s)) :
    Tracks r move (EvalM.read f) (EvalM.read f') := by
  intro s t h
  change Moved r move (.ok (f s) s) (.ok (f' t) t)
  rw [hf h]
  exact .ok h

/-- What is read off a state is known of it afterwards. -/
theorem known {f f' : Interp → α} {next next' : α → EvalM β}
    (hf : ∀ {s t}, Relocated r s t → f' t = move (f s))
    (hnext : ∀ {s t}, Relocated r s t →
      Moved r move' (next (f s) s) (next' (move (f s)) t)) :
    Tracks r move' (EvalM.read f >>= next) (EvalM.read f' >>= next') := by
  intro s t h
  change Moved r move' (next (f s) s) (next' (f' t) t)
  rw [hf h]
  exact hnext h

/-- What refers to no cell is the same in related states. -/
theorem same {f f' : Interp → α} (hf : ∀ {s t}, Relocated r s t → f' t = f s) :
    Tracks r (fun a => a) (EvalM.read f) (EvalM.read f') :=
  read hf

theorem step {f f' : Interp → α × Interp}
    (hf : ∀ {s t}, Relocated r s t → (f' t).1 = move (f s).1 ∧ Relocated r (f s).2 (f' t).2) :
    Tracks r move (EvalM.step f) (EvalM.step f') := by
  intro s t h
  obtain ⟨hanswer, hstate⟩ := hf h
  change Moved r move (.ok (f s).1 (f s).2) (.ok (f' t).1 (f' t).2)
  rw [hanswer]
  exact .ok hstate

theorem update {f f' : Interp → Interp} (hf : ∀ {s t}, Relocated r s t → Relocated r (f s) (f' t)) :
    Tracks r (fun a => a) (EvalM.update f) (EvalM.update f') :=
  fun _ _ h => .ok (hf h)

/-- A fault that mentions a value. -/
theorem mentioning (cause : String → Fault) (v : Value) :
    Tracks r move
      (EvalM.read (fun s => s.print v) >>= fun text => EvalM.fail (cause text))
      (EvalM.read (fun s => s.print (v.relocate r)) >>= fun text => EvalM.fail (cause text)) :=
  (same fun h => h.print v).bind fun text => fail (cause text)

/-- An answer or a fault that the state decides. -/
theorem query {f f' : Interp → Except Fault Value}
    (hf : ∀ {s t}, Relocated r s t → f' t = (f s).map (Value.relocate r)) :
    Tracks r (Value.relocate r) (Operation.query f) (Operation.query f') := by
  intro s t h
  unfold Operation.query
  rw [hf h]
  cases f s with
  | ok v => exact .ok h
  | error fault => exact .error h

/-- An operation that fails and changes nothing, or answers with a change. -/
theorem concluded {ε α β : Type} {move : β → β} {f f' : Interp → Except ε (α × Interp)}
    (answer : α → β) (fault : ε → Fault) (hanswer : ∀ a, move (answer a) = answer a)
    (hf : ∀ {s t}, Relocated r s t → r.Agrees (f s) (f' t)) :
    Tracks r move (fun s => concluding answer fault s (f s))
      (fun t => concluding answer fault t (f' t)) := by
  intro s t h
  have hagrees := hf h
  dsimp only
  generalize f s = a at hagrees
  generalize f' t = a' at hagrees
  cases a with
  | error cause =>
    cases a' with
    | error cause' =>
      obtain rfl : cause' = cause := hagrees
      exact .error h
    | ok p' => exact hagrees.elim
  | ok p =>
    cases a' with
    | error cause' => exact hagrees.elim
    | ok p' =>
      obtain ⟨x, u⟩ := p
      obtain ⟨x', w⟩ := p'
      obtain ⟨rfl, hu⟩ : x' = x ∧ Relocated r u w := hagrees
      have hmoved : Moved r move (.ok (answer x') u) (.ok (move (answer x')) w) := .ok hu
      rw [hanswer] at hmoved
      exact hmoved

/-! ### Frames -/

/-- Leaving frames keeps results the same. -/
theorem leave {result result' : EStateM.Result Flow Interp α} (restore : Interp → Interp)
    (h : Moved r move result result')
    (hrestore : ∀ {u w}, Relocated r u w → Relocated r (restore u) (restore w)) :
    Moved r move (leaving restore result) (leaving restore result') := by
  cases h with
  | ok h => exact .ok (hrestore h)
  | error h => exact .error (hrestore h)

theorem inScope (id : ScopeId) (h : Tracks r move act act') :
    Tracks r move (EvalM.inScope id act) (EvalM.inScope id act') := by
  intro s t hst
  have hpushed : Relocated r (s.pushScope id) (t.pushScope id) :=
    { hst with chain := congrArg (id :: ·) hst.chain }
  exact leave Interp.popScope (h _ _ hpushed) fun hu =>
    { hu with chain := congrArg List.tail hu.chain }

theorem inFrame (key : DepthKey) (h : Tracks r move act act') :
    Tracks r move (EvalM.inFrame key act) (EvalM.inFrame key act') := by
  intro s t hst
  have hentered : Relocated r { s with depths := s.depths.enter key }
      { t with depths := t.depths.enter key } :=
    { hst with depths := congrArg (·.enter key) hst.depths }
  exact leave (fun u => { u with depths := u.depths.leave key }) (h _ _ hentered) fun hu =>
    { hu with depths := congrArg (·.leave key) hu.depths }

theorem counted (h : Tracks r move act act') :
    Tracks r move (EvalM.counted act) (EvalM.counted act') := by
  intro s t hst
  exact leave (fun u => u.withActive (u.active - 1)) (h _ _ (hst.withActive _ _)) fun hu =>
    hu.withActive _ _

end Tracks

end SmallLisp
