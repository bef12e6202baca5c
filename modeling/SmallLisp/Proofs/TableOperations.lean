import SmallLisp.Proofs.Exports
import SmallLisp.Proofs.Registry

/-!
# Operations on namespaces and the names of symbols

Whatever is done to namespaces, by programs or by the host, every entry of a table stands under the
name of its symbol, and that symbol is interned. Names are never removed from a table, interning
changes no entry that is there, and an operation on one namespace leaves all others alone, except
that a function of the host becomes visible in the namespaces that use the standard library.

So a symbol token denotes an interned symbol of its name. Generated symbols can only be read where
such a symbol has been given one as its own value.
-/

namespace SmallLisp

open NamespaceForm (Draft)

variable {s t u : Interp} {d d' : Draft} {x : SymbolId} {id j : NamespaceId} {name n : String}

/-! ## Operations on one namespace -/

/-- The symbol that a name stands for, outside or inside the namespace. -/
def Namespace.lookup? (ns : Namespace) (outside : Bool) (name : String) : Option SymbolId :=
  if outside then ns.findExported? name else ns.find? name

inductive TableOperation where
  | intern (name : String)
  | define (name : String) (reserved : Bool) (selfValue : Option Value) (exporting : Bool)
  | shadow (name : String)
  | expose (name : String)
  /-- Add the symbol that a name stands for in a registered namespace. -/
  | add (source : NamespaceId) (outside : Bool) (name : String) (exporting : Bool)
  | use (other : NamespaceId)
  | importFrom (other : NamespaceId) (name : String)

namespace TableOperation

/-- Carry out an operation on a namespace that is not registered. A failure changes nothing. -/
def applyTo (s : Interp) (d : Draft) : TableOperation → Draft
  | .intern name =>
    match d.names.intern d.symbols name with
    | .ok (_, names, symbols) => ⟨names, symbols⟩
    | .error _ => d
  | .define name reserved selfValue exporting =>
    let (_, names, symbols) := d.names.define d.symbols name reserved selfValue exporting
    ⟨names, symbols⟩
  | .shadow name =>
    let (_, names, symbols) := d.names.shadow d.symbols name
    ⟨names, symbols⟩
  | .expose name =>
    match d.names.exportSymbol name with
    | .ok (_, names) => { d with names := names }
    | .error _ => d
  | .add source outside name exporting =>
    match (s.namespaceAt source).lookup? outside name with
    | some x =>
      { d with names := d.names.add ((d.symbols[x.index]?).getD default).name x exporting }
    | none => d
  | .use other => { d with names := d.names.use (s.namespaceAt other) }
  | .importFrom other name =>
    match d.names.importSymbol? name (s.namespaceAt other) with
    | some names => { d with names := names }
    | none => d

/-- Carry out an operation on a registered namespace. -/
def applyIn (s : Interp) (id : NamespaceId) : TableOperation → Interp
  | .intern name => s.resultOf (s.internIn id name)
  | .define name reserved selfValue exporting =>
    (s.defineIn id name reserved selfValue exporting).2
  | .shadow name => (s.shadowIn id name).2
  | .expose name => s.resultOf (s.exportIn id name)
  | .add source outside name exporting =>
    match (s.namespaceAt source).lookup? outside name with
    | some x => s.addTo id x exporting
    | none => s
  | .use other => s.useIn id other
  | .importFrom other name => (s.importIn id other name).2

/-- A registered namespace with the symbols that exist. -/
def draftAt (s : Interp) (id : NamespaceId) : Draft := ⟨s.namespaceAt id, s.symbols⟩

/-- The state with a draft in the place of a namespace. -/
def commitDraft (s : Interp) (id : NamespaceId) (d : Draft) : Interp :=
  { s with symbols := d.symbols }.setNamespace id d.names

theorem commitDraft_self (s : Interp) (id : NamespaceId) : commitDraft s id (draftAt s id) = s :=
  s.setNamespace_self id

/-- It makes no difference whether a namespace is registered. -/
theorem applyIn_eq (s : Interp) (id : NamespaceId) (op : TableOperation) :
    op.applyIn s id = commitDraft s id (op.applyTo s (draftAt s id)) := by
  have hself := commitDraft_self s id
  cases op with
  | intern name =>
    dsimp only [applyIn, applyTo, draftAt, Interp.internIn]
    cases (s.namespaceAt id).intern s.symbols name with
    | ok r => rfl
    | error cause => exact hself.symm
  | define | shadow | use => rfl
  | expose name =>
    dsimp only [applyIn, applyTo, draftAt, Interp.exportIn]
    cases (s.namespaceAt id).exportSymbol name with
    | ok r => rfl
    | error cause => exact hself.symm
  | add source outside name exporting =>
    dsimp only [applyIn, applyTo, draftAt]
    cases (s.namespaceAt source).lookup? outside name with
    | some x => rfl
    | none => exact hself.symm
  | importFrom other name =>
    dsimp only [applyIn, applyTo, draftAt, Interp.importIn]
    cases (s.namespaceAt id).importSymbol? name (s.namespaceAt other) with
    | some names => rfl
    | none => exact hself.symm

end TableOperation

/-! ## Edits -/

/-- Every entry of a table stands under the name of its symbol, and the symbol is interned. -/
def Interp.RightlyNamed (s : Interp) : Prop := ∀ id, (s.namespaceAt id).Holds s.symbols.Named

/-- A draft becomes another one by edits, and new symbols stand behind the old ones. What the edits
bring in is rightly named, if it is so in the namespaces of `s`. -/
structure DraftReworked (s : Interp) (d d' : Draft) : Prop where
  grows : d.symbols.Grows (fun _ => True) d'.symbols
  edits : ∃ es, d'.names = Edit.applyAll d.names es ∧
    ((∀ id, (s.namespaceAt id).Holds d.symbols.Named) → ∀ e ∈ es, e.Brings d'.symbols.Named)

namespace DraftReworked

theorem refl (s : Interp) (d : Draft) : DraftReworked s d d :=
  ⟨.refl _, [], rfl, fun _ => nofun⟩

theorem trans {d'' : Draft} (h : DraftReworked s d d') (h' : DraftReworked s d' d'') :
    DraftReworked s d d'' := by
  obtain ⟨hgrows, es, hnames, hbrings⟩ := h
  obtain ⟨hgrows', es', hnames', hbrings'⟩ := h'
  refine ⟨hgrows.trans hgrows', es ++ es', ?_, fun hs e he => ?_⟩
  · rw [hnames', hnames, Edit.applyAll_append]
  · rcases List.mem_append.mp he with he | he
    · exact (hbrings hs e he).mono fun _ _ hx => hx.mono hgrows'
    · exact hbrings' (fun id => (hs id).mono fun _ _ hx => hx.mono hgrows) e he

/-- A single edit that needs no new symbol. -/
theorem edit {e : Edit}
    (he : (∀ id, (s.namespaceAt id).Holds d.symbols.Named) → e.Brings d.symbols.Named) :
    DraftReworked s d { d with names := e.apply d.names } := by
  refine ⟨.refl _, [e], rfl, fun hs e' he' => ?_⟩
  rw [List.mem_singleton.mp he']
  exact he hs

/-- A new symbol is put under its name. -/
theorem create {y : Symbol} (hname : y.name = name) (hinterned : y.interned = true)
    (exporting : Bool) :
    DraftReworked s d
      ⟨(Edit.put name ⟨d.symbols.size⟩ exporting).apply d.names, d.symbols.push y⟩ := by
  refine ⟨.push trivial _, [.put name ⟨d.symbols.size⟩ exporting], rfl, fun _ e he => ?_⟩
  rw [List.mem_singleton.mp he]
  exact SymbolStore.Named.push hname hinterned d.symbols

end DraftReworked

theorem Namespace.Holds.lookup? {good : String → SymbolId → Prop} {ns : Namespace} {outside : Bool}
    (h : ns.Holds good) (hfind : ns.lookup? outside name = some x) : good name x := by
  unfold Namespace.lookup? at hfind
  split at hfind
  · exact h.exported (name, x) (Table.mem_of_find? hfind)
  · exact h.interned (name, x) (Table.mem_of_find? hfind)

theorem TableOperation.reworks (s : Interp) (d : Draft) (op : TableOperation) :
    DraftReworked s d (op.applyTo s d) := by
  cases op with
  | intern name =>
    dsimp only [applyTo]
    split
    next names symbols hintern =>
      rcases Namespace.intern_cases hintern with ⟨-, rfl, rfl⟩ | ⟨-, -, rfl, rfl, rfl⟩
      · exact .refl s d
      · exact .create (d.names.newSymbol_name name) (d.names.newSymbol_interned name) _
    next => exact .refl s d
  | define name reserved selfValue exporting =>
    exact .create (y := .named name reserved selfValue) rfl rfl exporting
  | shadow name => exact .create (y := .named name false none) rfl rfl false
  | expose name =>
    dsimp only [applyTo]
    split
    next hexport =>
      obtain ⟨-, rfl⟩ := Namespace.exportSymbol_cases hexport
      exact .edit fun _ => trivial
    next => exact .refl s d
  | add source outside name exporting =>
    dsimp only [applyTo]
    split
    next x hfind =>
      refine .edit (e := .put _ x exporting) fun hs => ?_
      -- the symbol was found under its own name
      obtain ⟨y, hy, rfl, hinterned⟩ := (hs source).lookup? hfind
      refine ⟨y, hy, ?_, hinterned⟩
      rw [hy]
      rfl
    next => exact .refl s d
  | use other => exact .edit (e := .use (s.namespaceAt other)) fun hs => (hs other).exported
  | importFrom other name =>
    dsimp only [applyTo]
    split
    next himport =>
      obtain ⟨x, hfind, rfl⟩ := Namespace.importSymbol_cases himport
      exact .edit fun hs => (hs other).exported (name, x) (Table.mem_of_find? hfind)
    next => exact .refl s d

/-! ## Operations on the registry -/

inductive NamespaceOperation where
  | within (id : NamespaceId) (op : TableOperation)
  | keyword (name : String)
  /-- Make a namespace, work on it, and register it. -/
  | register (name : String) (canIntern : Bool) (ops : List TableOperation)
  /-- A namespace form. -/
  | form (arguments : Value)
  | select (name : String)
  /-- Install a function of the host. -/
  | install (f : HostFunction)
  | generate

namespace NamespaceOperation

/-- The namespace that is built and registered. -/
def built (s : Interp) (name : String) (canIntern : Bool) (ops : List TableOperation) : Draft :=
  ops.foldl (fun d op => op.applyTo s d) ⟨.fresh name canIntern, s.symbols⟩

def apply (s : Interp) : NamespaceOperation → Interp
  | .within id op => op.applyIn s id
  | .keyword name => s.resultOf (s.internKeyword name)
  | .register name canIntern ops =>
    let d := built s name canIntern ops
    let t := { s with symbols := d.symbols }
    t.resultOf (t.addNamespace d.names)
  | .form arguments => s.resultOf (NamespaceForm.create s arguments)
  | .select name => s.resultOf (s.changeNamespace name)
  | .install f => (s.register f).2
  | .generate => s.generate.2

/-- Carry out operations one after the other. -/
def applyAll (s : Interp) (ops : List NamespaceOperation) : Interp := ops.foldl apply s

/-- The namespace that is worked on, if it was there before. -/
def target? : NamespaceOperation → Option NamespaceId
  | .within id _ => some id
  | .keyword _ => some .keywords
  | .install _ => some .system
  | .register .. | .form _ | .select _ | .generate => none

end NamespaceOperation

/-- A state becomes another one by edits of its namespaces and of new ones. What the edits bring in
is rightly named, if it was so before. -/
structure Interp.Reworked (s u : Interp) : Prop where
  grows : s.symbols.Grows (fun _ => True) u.symbols
  edits : ∀ j, ∃ ns es, u.namespaceAt j = Edit.applyAll ns es ∧
    (ns = s.namespaceAt j ∨
      s.namespaces.size ≤ j.index ∧ ∃ name canIntern, ns = .fresh name canIntern) ∧
    (s.RightlyNamed → ∀ e ∈ es, e.Brings u.symbols.Named)

namespace Interp.Reworked

/-- Whatever leaves the namespaces alone. -/
theorem elsewhere (hgrows : s.symbols.Grows (fun _ => True) u.symbols)
    (hnamespaces : u.namespaces = s.namespaces) : s.Reworked u := by
  refine ⟨hgrows, fun j => ⟨s.namespaceAt j, [], ?_, .inl rfl, fun _ => nofun⟩⟩
  unfold Interp.namespaceAt
  rw [hnamespaces]
  rfl

/-- A registered namespace is reworked. -/
theorem within {d : Draft} (h : DraftReworked s (TableOperation.draftAt s id) d) :
    s.Reworked (TableOperation.commitDraft s id d) := by
  obtain ⟨hgrows, es, hnames, hbrings⟩ := h
  refine ⟨hgrows, fun j => ?_⟩
  show ∃ ns es, (Interp.setNamespace _ id d.names).namespaceAt j = _ ∧ _
  rw [namespaceAt_setNamespace]
  split
  next heq =>
    obtain ⟨rfl, -⟩ := heq
    exact ⟨s.namespaceAt id, es, hnames, .inl rfl, hbrings⟩
  next => exact ⟨s.namespaceAt j, [], rfl, .inl rfl, fun _ => nofun⟩

/-- One more namespace. -/
theorem push {symbols : SymbolStore} {es : List Edit} {name : String} {canIntern : Bool}
    (hgrows : s.symbols.Grows (fun _ => True) symbols)
    (hbrings : s.RightlyNamed → ∀ e ∈ es, e.Brings symbols.Named) :
    s.Reworked { s with
      symbols := symbols
      namespaces := s.namespaces.push (Edit.applyAll (.fresh name canIntern) es) } := by
  refine ⟨hgrows, fun j => ?_⟩
  unfold Interp.namespaceAt
  rw [Array.getElem?_push]
  split
  next hj =>
    exact ⟨.fresh name canIntern, es, rfl, .inr ⟨Nat.le_of_eq hj.symm, name, canIntern, rfl⟩,
      hbrings⟩
  next => exact ⟨s.namespaceAt j, [], rfl, .inl rfl, fun _ => nofun⟩

/-- Names stay right. -/
theorem rightlyNamed (h : s.Reworked u) (hs : s.RightlyNamed) : u.RightlyNamed := by
  intro j
  obtain ⟨ns, es, heq, hns, hbrings⟩ := h.edits j
  rw [heq]
  refine Edit.holds_applyAll ?_ (hbrings hs)
  rcases hns with rfl | ⟨-, name, canIntern, rfl⟩
  · exact (hs j).mono fun _ _ hx => hx.mono h.grows
  · exact Namespace.holds_fresh _ name canIntern

/-- Exported names still resolve. -/
theorem resolves (h : s.Reworked u) (hs : ∀ j, (s.namespaceAt j).Resolves) (j : NamespaceId) :
    (u.namespaceAt j).Resolves := by
  obtain ⟨ns, es, heq, hns, -⟩ := h.edits j
  rw [heq]
  refine Edit.resolves_applyAll ?_ es
  rcases hns with rfl | ⟨-, name, canIntern, rfl⟩
  · exact hs j
  · exact nofun

/-- No table loses a name. -/
theorem names (h : s.Reworked u) (j : NamespaceId) (n : String) :
    (((s.namespaceAt j).find? n).isSome → ((u.namespaceAt j).find? n).isSome) ∧
    (((s.namespaceAt j).findExported? n).isSome →
      ((u.namespaceAt j).findExported? n).isSome) := by
  obtain ⟨ns, es, heq, hns, -⟩ := h.edits j
  rw [heq]
  rcases hns with rfl | ⟨hj, -⟩
  · exact ⟨Edit.find?_isSome_applyAll es, Edit.findExported?_isSome_applyAll es⟩
  · rw [namespaceAt_of_size_le hj]
    exact ⟨nofun, nofun⟩

end Interp.Reworked

/-! ## What each operation does -/

theorem SymbolStore.Named.symbol (h : s.symbols.Named name x) :
    (s.symbol x).name = name ∧ (s.symbol x).interned = true := by
  obtain ⟨y, hy, hname, hinterned⟩ := h
  unfold Interp.symbol
  rw [hy]
  exact ⟨hname, hinterned⟩

/-- The symbol of a function of the host is found in the standard library or defined there. -/
theorem Interp.systemSymbol_cases (s : Interp) (name : String) :
    ((s.namespaceAt .system).find? name = some (s.systemSymbol name).1 ∧
      (s.systemSymbol name).2 = s) ∨
    ((s.namespaceAt .system).find? name = none ∧
      s.systemSymbol name = s.defineIn .system name true none true) := by
  unfold systemSymbol
  split
  next x hfind => exact .inl ⟨hfind, rfl⟩
  next hnone => exact .inr ⟨hnone, rfl⟩

namespace Interp

/-- Bind a function of the host to a symbol, globally and in the namespaces that use the library. -/
def installAt (s : Interp) (x : SymbolId) (f : HostFunction) : Interp :=
  { (s.allocCallable (.host f)).2.bindGlobal x (.function ⟨s.callables.size⟩) with
    namespaces := s.namespaces.map fun ns =>
      if systemName ∈ ns.uses then ns.add (s.symbol x).name x false else ns }

theorem register_eq (s : Interp) (f : HostFunction) :
    s.register f = ((s.systemSymbol f.name).1,
      (s.systemSymbol f.name).2.installAt (s.systemSymbol f.name).1 f) :=
  rfl

theorem namespaceAt_installAt (s : Interp) (x : SymbolId) (f : HostFunction) (id : NamespaceId) :
    (s.installAt x f).namespaceAt id =
      if systemName ∈ (s.namespaceAt id).uses then
        (Edit.put (s.symbol x).name x false).apply (s.namespaceAt id)
      else s.namespaceAt id := by
  show ((s.namespaces.map _)[id.index]?).getD default = _
  unfold namespaceAt
  rw [Array.getElem?_map]
  cases s.namespaces[id.index]? with
  | some ns => rfl
  | none => rfl

/-- Installing a function adds its symbol to the namespaces that use the standard library. -/
theorem namespaceAt_register (s : Interp) (f : HostFunction) (j : NamespaceId) :
    (s.register f).2.namespaceAt j =
      if systemName ∈ ((s.systemSymbol f.name).2.namespaceAt j).uses then
        (Edit.put ((s.systemSymbol f.name).2.symbol (s.systemSymbol f.name).1).name
          (s.systemSymbol f.name).1 false).apply ((s.systemSymbol f.name).2.namespaceAt j)
      else (s.systemSymbol f.name).2.namespaceAt j := by
  rw [register_eq]
  exact namespaceAt_installAt _ _ f j

end Interp

theorem Interp.systemSymbol_reworks (s : Interp) (name : String) :
    s.Reworked (s.systemSymbol name).2 ∧
      (s.RightlyNamed →
        (s.systemSymbol name).2.symbols.Named name (s.systemSymbol name).1) := by
  rcases s.systemSymbol_cases name with ⟨hfind, heq⟩ | ⟨-, heq⟩
  · rw [heq]
    refine ⟨.elsewhere (.refl _) rfl, fun hs => ?_⟩
    exact (hs .system).interned (name, _) (Table.mem_of_find? hfind)
  · rw [heq]
    exact ⟨.within (.create (y := .named name true none) rfl rfl true),
      fun _ => .push (y := .named name true none) rfl rfl s.symbols⟩

/-- Where the standard library is used, the symbol of the function is put under its name. -/
theorem Interp.register_reworks (s : Interp) (f : HostFunction) :
    s.Reworked (s.register f).2 := by
  obtain ⟨hreworked, hnamed⟩ := s.systemSymbol_reworks f.name
  refine ⟨hreworked.grows, fun j => ?_⟩
  obtain ⟨ns, es, heq, hns, hbrings⟩ := hreworked.edits j
  let x := (s.systemSymbol f.name).1
  let added := Edit.put ((s.systemSymbol f.name).2.symbol x).name x false
  rw [namespaceAt_register]
  split
  · refine ⟨ns, es ++ [added], ?_, hns, fun hs e he => ?_⟩
    · rw [heq, Edit.applyAll_append]
      rfl
    · rcases List.mem_append.mp he with he | he
      · exact hbrings hs e he
      · rw [List.mem_singleton.mp he]
        show (s.systemSymbol f.name).2.symbols.Named ((s.systemSymbol f.name).2.symbol x).name x
        rw [(hnamed hs).symbol.1]
        exact hnamed hs
  · exact ⟨ns, es, heq, hns, hbrings⟩

namespace NamespaceOperation

theorem reworks_built (s : Interp) (name : String) (canIntern : Bool)
    (ops : List TableOperation) :
    DraftReworked s ⟨.fresh name canIntern, s.symbols⟩ (built s name canIntern ops) := by
  unfold built
  generalize (⟨.fresh name canIntern, s.symbols⟩ : Draft) = d
  induction ops generalizing d with
  | nil => exact .refl s d
  | cons op ops ih => exact (op.reworks s d).trans (ih _)

/-- Every operation only makes edits. -/
theorem reworks (s : Interp) (op : NamespaceOperation) : s.Reworked (op.apply s) := by
  have hsame : s.Reworked s := .elsewhere (.refl _) rfl
  cases op with
  | within id op =>
    dsimp only [apply]
    rw [TableOperation.applyIn_eq]
    exact .within (op.reworks s _)
  | keyword name =>
    refine Interp.resultOf_induction hsame fun x u h => ?_
    rcases Interp.internKeyword_cases h with ⟨-, rfl⟩ | ⟨t, -, ht, rfl⟩
    · exact hsame
    · have happly : (TableOperation.intern name).applyIn s .keywords = t := by
        show s.resultOf (s.internIn .keywords name) = t
        rw [ht]
        rfl
      have hinterned : s.Reworked t := by
        rw [← happly, TableOperation.applyIn_eq]
        exact .within (TableOperation.reworks s _ (.intern name))
      exact ⟨hinterned.grows, hinterned.edits⟩
  | register name canIntern ops =>
    obtain ⟨hgrows, es, hnames, hbrings⟩ := reworks_built s name canIntern ops
    dsimp only [apply]
    refine Interp.resultOf_induction (.elsewhere hgrows rfl) fun id u h => ?_
    unfold Interp.addNamespace at h
    split at h
    · cases h
    · cases h
      rw [hnames]
      exact .push hgrows hbrings
  | form arguments =>
    refine Interp.resultOf_induction hsame fun id u h => ?_
    obtain ⟨name, es, symbols, -, -, hgrows, hfrom, rfl⟩ := NamespaceForm.create_cases h
    refine .push (hgrows.mono fun _ _ => trivial) fun hs e he => ?_
    refine (hfrom e he).brings (fun id entry hentry => ?_) fun _ _ _ hnew => hnew
    exact ((hs id).exported entry hentry).mono hgrows
  | select name =>
    refine Interp.resultOf_induction hsame fun id u h => ?_
    obtain ⟨-, rfl⟩ := Interp.changeNamespace_cases h
    exact .elsewhere (.refl _) rfl
  | install f => exact s.register_reworks f
  | generate => exact .elsewhere (.push trivial _) rfl

/-- An operation leaves every namespace alone that it is not about, except that installing a
function reaches the names that are interned where the standard library is used. -/
theorem namespaceAt_apply {op : NamespaceOperation} (hj : j.index < s.namespaces.size)
    (ht : op.target? ≠ some j) :
    (op.apply s).namespaceAt j = s.namespaceAt j ∨
      ∃ f, op = .install f ∧ Interp.systemName ∈ (s.namespaceAt j).uses ∧
        ((op.apply s).namespaceAt j).exported = (s.namespaceAt j).exported := by
  have hother : ∀ {t : Interp} {id : NamespaceId} {ns : Namespace}, t.namespaces = s.namespaces →
      id ≠ j → (t.setNamespace id ns).namespaceAt j = s.namespaceAt j := by
    intro t id ns hsame hid
    rw [Interp.namespaceAt_setNamespace, if_neg fun heq => hid heq.1]
    unfold Interp.namespaceAt
    rw [hsame]
  have hpush : ∀ ns, (((s.namespaces.push ns)[j.index]?).getD default) = s.namespaceAt j := by
    intro ns
    rw [Array.getElem?_push, if_neg (Nat.ne_of_lt hj)]
    rfl
  let Left (u : Interp) : Prop := u.namespaceAt j = s.namespaceAt j
  have hsame : Left s := rfl
  cases op with
  | within id op =>
    left
    dsimp only [apply]
    rw [TableOperation.applyIn_eq]
    exact hother rfl fun heq => ht (congrArg some heq)
  | keyword name =>
    refine .inl (Interp.resultOf_induction (motive := Left) hsame fun x u h => ?_)
    rcases Interp.internKeyword_cases h with ⟨-, rfl⟩ | ⟨t, hnone, hintern, rfl⟩
    · exact hsame
    · rcases Interp.internIn_cases hintern with ⟨-, rfl⟩ | ⟨-, -, -, rfl⟩
      · exact hsame
      · exact hother rfl fun heq => ht (congrArg some heq)
  | register name canIntern ops =>
    refine .inl (Interp.resultOf_induction (motive := Left) rfl fun id u h => ?_)
    unfold Interp.addNamespace at h
    split at h
    · cases h
    · cases h
      exact hpush _
  | form arguments =>
    refine .inl (Interp.resultOf_induction (motive := Left) hsame fun id u h => ?_)
    obtain ⟨name, es, symbols, -, -, -, -, rfl⟩ := NamespaceForm.create_cases h
    exact hpush _
  | select name =>
    refine .inl (Interp.resultOf_induction (motive := Left) hsame fun id u h => ?_)
    obtain ⟨-, rfl⟩ := Interp.changeNamespace_cases h
    exact hsame
  | install f =>
    have hdefined : Left (s.systemSymbol f.name).2 := by
      rcases s.systemSymbol_cases f.name with ⟨-, heq⟩ | ⟨-, heq⟩
      · rw [heq]
      · rw [heq]
        exact hother rfl fun hid => ht (congrArg some hid)
    dsimp only [apply]
    rw [Interp.namespaceAt_register, hdefined]
    split
    next huses => exact .inr ⟨f, rfl, huses, rfl⟩
    next => exact .inl rfl
  | generate => exact .inl rfl

end NamespaceOperation

/-- Interning finds or adds a name. -/
def NamespaceOperation.Interns : NamespaceOperation → Prop
  | .within _ (.intern _) | .keyword _ => True
  | _ => False

/-- Interning changes no entry that is there. -/
theorem Interp.internIn_keeps (hs : ∀ j, (s.namespaceAt j).Resolves)
    (h : s.internIn id name = .ok (x, u)) (j : NamespaceId) {y : SymbolId} :
    ((s.namespaceAt j).find? n = some y → (u.namespaceAt j).find? n = some y) ∧
    ((s.namespaceAt j).findExported? n = some y → (u.namespaceAt j).findExported? n = some y) := by
  rcases Interp.internIn_cases h with ⟨-, rfl⟩ | ⟨hnone, -, -, rfl⟩
  · exact ⟨fun hy => hy, fun hy => hy⟩
  · rw [namespaceAt_setNamespace]
    split
    next heq =>
      obtain ⟨rfl, -⟩ := heq
      exact Edit.put_keeps (hs id) hnone
    next => exact ⟨fun hy => hy, fun hy => hy⟩

theorem NamespaceOperation.interns_keeps {op : NamespaceOperation} (hop : op.Interns)
    (hs : ∀ j, (s.namespaceAt j).Resolves) (j : NamespaceId) {y : SymbolId} :
    ((s.namespaceAt j).find? n = some y → ((op.apply s).namespaceAt j).find? n = some y) ∧
    ((s.namespaceAt j).findExported? n = some y →
      ((op.apply s).namespaceAt j).findExported? n = some y) := by
  let Keeps (u : Interp) : Prop :=
    ((s.namespaceAt j).find? n = some y → (u.namespaceAt j).find? n = some y) ∧
    ((s.namespaceAt j).findExported? n = some y → (u.namespaceAt j).findExported? n = some y)
  have hsame : Keeps s := ⟨fun hy => hy, fun hy => hy⟩
  cases op with
  | within id op =>
    cases op with
    | intern name =>
      exact Interp.resultOf_induction (motive := Keeps) hsame
        fun x u h => Interp.internIn_keeps hs h j
    | _ => exact hop.elim
  | keyword name =>
    refine Interp.resultOf_induction (motive := Keeps) hsame fun x u h => ?_
    rcases Interp.internKeyword_cases h with ⟨-, rfl⟩ | ⟨t, -, hintern, rfl⟩
    · exact hsame
    · exact Interp.internIn_keeps (u := t) hs hintern j
  | _ => exact hop.elim

/-! ## Reading symbols -/

/-- The name of a symbol, without that of a namespace. -/
def SymbolName.base : SymbolName → String
  | .plain name | .keyword name | .exported _ name | .interned _ name => name

theorem Interp.RightlyNamed.internIn (hs : s.RightlyNamed)
    (h : s.internIn id name = .ok (x, u)) : u.symbols.Named name x := by
  rcases Interp.internIn_cases h with ⟨hfind, rfl⟩ | ⟨-, -, rfl, rfl⟩
  · exact (hs id).interned (name, x) (Table.mem_of_find? hfind)
  · exact .push (Namespace.newSymbol_name _ name) (Namespace.newSymbol_interned _ name) s.symbols

theorem Interp.RightlyNamed.internKeyword (hs : s.RightlyNamed)
    (h : s.internKeyword name = .ok (x, u)) : u.symbols.Named name x := by
  rcases Interp.internKeyword_cases h with ⟨hfind, rfl⟩ | ⟨t, -, hintern, rfl⟩
  · exact (hs .keywords).interned (name, x) (Table.mem_of_find? hfind)
  · exact hs.internIn (u := t) hintern

/-- A name resolves to an interned symbol of that name. -/
theorem Interp.RightlyNamed.resolve (hs : s.RightlyNamed) {name : SymbolName}
    (h : s.resolve name = .ok (x, u)) : u.symbols.Named name.base x := by
  cases name with
  | plain name => exact hs.internIn h
  | keyword name => exact hs.internKeyword h
  | exported container name =>
    obtain ⟨y, hfound, heq⟩ := ok_of_map h
    cases heq
    unfold findExported at hfound
    split at hfound
    · cases hfound
    next id _ =>
      split at hfound
      next hexported =>
        cases hfound
        exact (hs id).exported (name, x) (Table.mem_of_find? hexported)
      next => cases hfound
  | interned container name =>
    replace h : s.findInterned container name = .ok (x, u) := h
    unfold findInterned at h
    split at h
    · cases h
    · split at h
      · exact hs.internKeyword h
      · exact hs.internIn h

/-- A symbol token reads as the value that its symbol has of its own, or as the symbol. -/
theorem Datum.intern_symbol (s : Interp) (name : SymbolName) :
    (Datum.symbol name).intern s =
      match s.resolve name with
      | .ok (x, u) => .ok ((u.symbol x).selfValue.getD (.symbol x)) u
      | .error cause => .error (.fault (.namespaces cause)) s := by
  unfold Datum.intern
  show EStateM.bind _ _ s = _
  unfold EStateM.bind EvalM.namespaceStep
  dsimp only
  cases s.resolve name <;> rfl

/-! ## Runs of operations -/

/-- The first symbols stand under their names. -/
theorem Interp.rightlyNamed_initial (limit : Nat) : (initial limit).RightlyNamed := by
  have hsystem : ∀ e ∈ systemTable.entries, (initial limit).symbols.Named e.1 e.2 := by
    intro e he
    obtain ⟨⟨y, i⟩, hmem, rfl⟩ := List.mem_map.mp he
    have hy : systemSymbols[i]? = some y := List.mem_zipIdx_iff_getElem?.mp hmem
    refine ⟨y, by simpa [initial] using hy, rfl, ?_⟩
    rcases List.mem_append.mp (List.mem_of_getElem? hy) with hy | hy
    · simp only [List.mem_cons, List.not_mem_nil, or_false] at hy
      rcases hy with rfl | rfl | rfl | rfl <;> rfl
    · obtain ⟨op, -, rfl⟩ := List.mem_map.mp hy
      rfl
  have hempty : ∀ e ∈ (Table.empty : Table String SymbolId).entries,
      (initial limit).symbols.Named e.1 e.2 := fun _ he => absurd he List.not_mem_nil
  rintro ⟨_ | _ | _ | i⟩
  · exact ⟨hsystem, hsystem⟩
  · exact ⟨hempty, hempty⟩
  · exact ⟨hsystem, hempty⟩
  · exact ⟨hempty, hempty⟩

/-- Names are right and exported names resolve after any operations. -/
theorem NamespaceOperation.applyAll_names (limit : Nat) (ops : List NamespaceOperation) :
    (applyAll (.initial limit) ops).RightlyNamed ∧
      ∀ j, ((applyAll (.initial limit) ops).namespaceAt j).Resolves := by
  have hkept : (Interp.initial limit).NamespacesKept False := Interp.namespacesKept_initial limit
  have hstart : (Interp.initial limit).RightlyNamed ∧
      ∀ j, ((Interp.initial limit).namespaceAt j).Resolves :=
    ⟨Interp.rightlyNamed_initial limit, fun j => (hkept j).resolves⟩
  unfold applyAll
  generalize Interp.initial limit = s at hstart
  induction ops generalizing s with
  | nil => exact hstart
  | cons op ops ih =>
    have hop := op.reworks s
    exact ih _ ⟨hop.rightlyNamed hstart.1, hop.resolves hstart.2⟩

/-- After any operations, every entry of a table stands under the name of its symbol, which is
interned. A further operation removes no name from a table, interning changes no entry, and every
namespace that an operation is not about stays as it is; only installing a function reaches what is
interned where the standard library is used. A symbol token denotes an interned symbol of its name
and reads as that symbol or as the value that the symbol has of its own. -/
theorem entries_rightly_named (limit : Nat) (ops : List NamespaceOperation) :
    let s := NamespaceOperation.applyAll (.initial limit) ops
    (∀ id, ∀ e ∈ (s.namespaceAt id).interned.entries ++ (s.namespaceAt id).exported.entries,
      (s.symbol e.2).name = e.1 ∧ (s.symbol e.2).interned = true) ∧
    (∀ (op : NamespaceOperation) id n,
      (((s.namespaceAt id).find? n).isSome → (((op.apply s).namespaceAt id).find? n).isSome) ∧
      (((s.namespaceAt id).findExported? n).isSome →
        (((op.apply s).namespaceAt id).findExported? n).isSome)) ∧
    (∀ op : NamespaceOperation, op.Interns → ∀ id n x,
      ((s.namespaceAt id).find? n = some x → ((op.apply s).namespaceAt id).find? n = some x) ∧
      ((s.namespaceAt id).findExported? n = some x →
        ((op.apply s).namespaceAt id).findExported? n = some x)) ∧
    (∀ (op : NamespaceOperation) id, id.index < s.namespaces.size → op.target? ≠ some id →
      (op.apply s).namespaceAt id = s.namespaceAt id ∨
        ∃ f, op = .install f ∧ Interp.systemName ∈ (s.namespaceAt id).uses ∧
          ((op.apply s).namespaceAt id).exported = (s.namespaceAt id).exported) ∧
    ∀ name v u, (Datum.symbol name).intern s = .ok v u → ∃ x, s.resolve name = .ok (x, u) ∧
      (u.symbol x).name = name.base ∧ (u.symbol x).interned = true ∧
      (v = .symbol x ∨ (u.symbol x).selfValue = some v) := by
  intro s
  obtain ⟨hnamed, hresolves⟩ := NamespaceOperation.applyAll_names limit ops
  refine ⟨fun id e he => ?_, fun op id n => (op.reworks s).names id n,
    fun op hop id n x => op.interns_keeps hop hresolves id, fun op id hid ht =>
    op.namespaceAt_apply hid ht, fun name v u h => ?_⟩
  · rcases List.mem_append.mp he with he | he
    · exact ((hnamed id).interned e he).symbol
    · exact ((hnamed id).exported e he).symbol
  · rw [Datum.intern_symbol] at h
    cases hresolve : s.resolve name with
    | error cause =>
      rw [hresolve] at h
      cases h
    | ok r =>
      obtain ⟨x, t⟩ := r
      rw [hresolve] at h
      cases h
      obtain ⟨hname, hinterned⟩ := (hnamed.resolve hresolve).symbol
      refine ⟨x, rfl, hname, hinterned, ?_⟩
      cases (u.symbol x).selfValue with
      | none => exact .inl rfl
      | some w => exact .inr rfl

/-- A namespace that was worked on before it was registered exports a symbol to the user namespace.
The symbol has the name under which it is found there, interning the name finds it again, and
shadowing the name there leaves the other namespace alone. -/
theorem used_symbol_kept :
    ∃ (ops : List NamespaceOperation) (s : Interp) (x : SymbolId),
      s = NamespaceOperation.applyAll (.initial 64) ops ∧
      (s.namespaceAt .user).find? "X" = some x ∧ (s.symbol x).name = "X" ∧
      (((NamespaceOperation.within .user (.intern "X")).apply s).namespaceAt .user).find? "X" =
        some x ∧
      ((NamespaceOperation.within .user (.shadow "X")).apply s).namespaceAt ⟨3⟩ =
        s.namespaceAt ⟨3⟩ := by
  let ops : List NamespaceOperation :=
    [.register "A" true [.intern "X", .expose "X"], .within .user (.use ⟨3⟩)]
  let s := NamespaceOperation.applyAll (.initial 64) ops
  obtain ⟨hentries, -, hinterns, hother, -⟩ := entries_rightly_named 64 ops
  have hfind : (s.namespaceAt .user).find? "X" = some ⟨54⟩ := by decide +kernel
  have hsize : 3 < s.namespaces.size := by decide +kernel
  have hentry := List.mem_append_left (s.namespaceAt .user).exported.entries
    (Table.mem_of_find? hfind)
  refine ⟨ops, s, ⟨54⟩, rfl, hfind, (hentries .user _ hentry).1,
    (hinterns (.within .user (.intern "X")) trivial .user "X" ⟨54⟩).1 hfind, ?_⟩
  rcases hother (.within .user (.shadow "X")) ⟨3⟩ hsize (by decide) with hsame | ⟨f, hf, -⟩
  · exact hsame
  · cases hf

/-- A symbol that was defined with a generated symbol as its value reads as that. -/
theorem generated_symbol_read :
    ∃ (ops : List NamespaceOperation) (x : SymbolId),
      (EvalM.readValues "x").answer? (NamespaceOperation.applyAll (.initial 64) ops) =
        some [.symbol x] ∧
      ((NamespaceOperation.applyAll (.initial 64) ops).symbol x).interned = false := by
  refine ⟨[.generate, .within .user (.define "X" false (some (.symbol ⟨54⟩)) false)], ⟨54⟩, ?_, ?_⟩
  · decide +kernel
  · decide +kernel

end SmallLisp
