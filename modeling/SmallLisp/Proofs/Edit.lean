import SmallLisp.NamespaceForm
import SmallLisp.Proofs.Live

/-!
# Edits of a namespace

Whatever is done to a namespace comes down to three edits of its two tables: a symbol is put under a
name, a name is exposed, or the exports of another namespace are taken over. `Edit.apply` carries
one out, and the lemmas here say which edits the operations amount to and what an edit does to each
look-up. The symbols that are created on the way stand behind the old ones.
-/

namespace SmallLisp

/-! ## Growing symbol stores -/

/-- The new symbols stand behind the old ones, and each of them satisfies `kind`. -/
structure SymbolStore.Grows (kind : Symbol → Prop) (symbols symbols' : SymbolStore) : Prop where
  size_le : symbols.size ≤ symbols'.size
  kept : ∀ i, i < symbols.size → symbols'[i]? = symbols[i]?
  added : ∀ i x, symbols.size ≤ i → symbols'[i]? = some x → kind x

/-- A symbol that is neither a keyword nor reserved and stands for no other value. -/
structure Symbol.Plain (x : Symbol) : Prop where
  reserved : x.reserved = false
  keyword : x.keyword = false
  selfValue : x.selfValue = none

theorem Symbol.plain_named (name : String) : (Symbol.named name false none).Plain := ⟨rfl, rfl, rfl⟩

namespace SymbolStore.Grows

variable {kind : Symbol → Prop} {symbols symbols' symbols'' : SymbolStore}

theorem refl (symbols : SymbolStore) : Grows kind symbols symbols where
  size_le := Nat.le_refl _
  kept := fun _ _ => rfl
  added := by
    intro i x hi hx
    rw [Array.getElem?_eq_none hi] at hx
    cases hx

theorem trans (h : Grows kind symbols symbols') (h' : Grows kind symbols' symbols'') :
    Grows kind symbols symbols'' where
  size_le := Nat.le_trans h.size_le h'.size_le
  kept := fun i hi => (h'.kept i (Nat.lt_of_lt_of_le hi h.size_le)).trans (h.kept i hi)
  added := by
    intro i x hi hx
    by_cases hlt : i < symbols'.size
    · exact h.added i x hi ((h'.kept i hlt).symm.trans hx)
    · exact h'.added i x (Nat.le_of_not_lt hlt) hx

theorem mono {kind' : Symbol → Prop} (h : Grows kind symbols symbols')
    (hkind : ∀ x, kind x → kind' x) : Grows kind' symbols symbols' :=
  ⟨h.size_le, h.kept, fun i x hi hx => hkind x (h.added i x hi hx)⟩

theorem push {x : Symbol} (hx : kind x) (symbols : SymbolStore) :
    Grows kind symbols (symbols.push x) where
  size_le := by
    rw [Array.size_push]
    exact Nat.le_succ _
  kept := fun i hi => by rw [Array.getElem?_push, if_neg (Nat.ne_of_lt hi)]
  added := by
    intro i y hi hy
    rw [Array.getElem?_push] at hy
    split at hy
    · cases hy
      exact hx
    · rw [Array.getElem?_eq_none hi] at hy
      cases hy

theorem mem {x : Symbol} (h : Grows kind symbols symbols') (hx : x ∈ symbols') :
    x ∈ symbols ∨ kind x := by
  obtain ⟨i, hi⟩ := Array.mem_iff_getElem?.mp hx
  by_cases hlt : i < symbols.size
  · exact .inl (Array.mem_of_getElem? ((h.kept i hlt).symm.trans hi))
  · exact .inr (h.added i x (Nat.le_of_not_lt hlt) hi)

end SymbolStore.Grows

/-- An interned symbol of this name stands at the address. -/
def SymbolStore.Named (symbols : SymbolStore) (name : String) (x : SymbolId) : Prop :=
  ∃ y, symbols[x.index]? = some y ∧ y.name = name ∧ y.interned = true

namespace SymbolStore.Named

variable {kind : Symbol → Prop} {symbols symbols' : SymbolStore} {name : String} {x : SymbolId}

theorem lt (h : symbols.Named name x) : x.index < symbols.size := by
  obtain ⟨y, hy, -⟩ := h
  exact (Array.getElem?_eq_some_iff.mp hy).1

theorem mono (h : symbols.Named name x) (hgrows : symbols.Grows kind symbols') :
    symbols'.Named name x := by
  obtain ⟨y, hy, hkind⟩ := h
  exact ⟨y, (hgrows.kept x.index (lt ⟨y, hy, hkind⟩)).trans hy, hkind⟩

/-- A symbol that has just been created. -/
theorem push {y : Symbol} (hname : y.name = name) (hinterned : y.interned = true)
    (symbols : SymbolStore) : Named (symbols.push y) name ⟨symbols.size⟩ :=
  ⟨y, Array.getElem?_push_size, hname, hinterned⟩

end SymbolStore.Named

/-! ## Edits -/

/-- A change of the tables of a namespace. -/
inductive Edit where
  /-- A symbol is put under a name, whatever was there. -/
  | put (name : String) (id : SymbolId) (exporting : Bool)
  /-- The symbol of a name is exported. -/
  | expose (name : String)
  /-- The exports of another namespace are taken over. -/
  | use (other : Namespace)

namespace Edit

/-- Carry out an edit. Exposing a name without a symbol changes nothing. -/
def apply (ns : Namespace) : Edit → Namespace
  | .put name id exporting => ns.add name id exporting
  | .expose name =>
    match ns.find? name with
    | some id => { ns with exported := ns.exported.insert name id }
    | none => ns
  | .use other => ns.use other

/-- Carry out edits one after the other. -/
def applyAll (ns : Namespace) (es : List Edit) : Namespace := es.foldl apply ns

theorem applyAll_append (ns : Namespace) (es es' : List Edit) :
    applyAll ns (es ++ es') = applyAll (applyAll ns es) es' :=
  List.foldl_append

/-- The symbol that an edit puts under a name. -/
def places (n : String) : Edit → Option SymbolId
  | .put name id _ => if name = n then some id else none
  | .expose _ => none
  | .use other => other.findExported? n

theorem places_put {name n : String} {id x : SymbolId} {exporting : Bool} :
    (put name id exporting).places n = some x ↔ name = n ∧ id = x := by
  unfold places
  split <;> simp_all

theorem find?_apply (ns : Namespace) (e : Edit) (n : String) :
    (e.apply ns).find? n = (e.places n).or (ns.find? n) := by
  cases e with
  | put name id exporting =>
    show (ns.interned.insert name id).find? n = _
    rw [Table.find?_insert]
    by_cases hname : name = n <;> simp [places, hname, Namespace.find?]
  | expose name =>
    unfold apply
    dsimp only
    split <;> rfl
  | use other => exact Table.find?_insertAll _ _ _

/-- What a name stands for after edits was placed by one of them or was there before. -/
theorem find?_applyAll {ns : Namespace} {es : List Edit} {n : String} {x : SymbolId}
    (h : (applyAll ns es).find? n = some x) :
    (∃ e ∈ es, e.places n = some x) ∨ ns.find? n = some x := by
  induction es generalizing ns with
  | nil => exact .inr h
  | cons e es ih =>
    rcases ih h with ⟨e', he', hplaces⟩ | hfind
    · exact .inl ⟨e', List.mem_cons_of_mem e he', hplaces⟩
    · rw [find?_apply] at hfind
      rcases Option.or_eq_some_iff.mp hfind with hplaces | ⟨-, hold⟩
      · exact .inl ⟨e, List.mem_cons_self, hplaces⟩
      · exact .inr hold

theorem findExported?_put (ns : Namespace) (name n : String) (id : SymbolId) (exporting : Bool) :
    ((put name id exporting).apply ns).findExported? n =
      if exporting = true ∧ name = n then some id else ns.findExported? n := by
  cases exporting with
  | false => simp [apply, Namespace.add, Namespace.findExported?]
  | true =>
    show (ns.exported.insert name id).find? n = _
    rw [Table.find?_insert]
    simp [Namespace.findExported?]

theorem findExported?_expose (ns : Namespace) (name n : String) :
    ((expose name).apply ns).findExported? n =
      if name = n then (ns.find? n).or (ns.findExported? n) else ns.findExported? n := by
  unfold apply
  dsimp only
  split
  next id hfind =>
    show (ns.exported.insert name id).find? n = _
    rw [Table.find?_insert]
    by_cases hname : name = n
    · subst hname
      simp [hfind]
    · simp [hname, Namespace.findExported?]
  next hfind =>
    by_cases hname : name = n
    · subst hname
      simp [hfind]
    · simp [hname]

/-- An edit reaches the tables only. -/
theorem header_apply (ns : Namespace) (e : Edit) :
    (e.apply ns).name = ns.name ∧ (e.apply ns).canIntern = ns.canIntern ∧
      (e.apply ns).keywords = ns.keywords := by
  cases e with
  | expose name =>
    unfold apply
    dsimp only
    split <;> exact ⟨rfl, rfl, rfl⟩
  | _ => exact ⟨rfl, rfl, rfl⟩

theorem header_applyAll (ns : Namespace) (es : List Edit) :
    (applyAll ns es).name = ns.name ∧ (applyAll ns es).canIntern = ns.canIntern ∧
      (applyAll ns es).keywords = ns.keywords := by
  induction es generalizing ns with
  | nil => exact ⟨rfl, rfl, rfl⟩
  | cons e es ih =>
    obtain ⟨hname, hopen, hkeywords⟩ := header_apply ns e
    obtain ⟨hname', hopen', hkeywords'⟩ := ih (e.apply ns)
    exact ⟨hname'.trans hname, hopen'.trans hopen, hkeywords'.trans hkeywords⟩

/-- The symbols that an edit brings in are good under the names that they get. -/
def Brings (good : String → SymbolId → Prop) : Edit → Prop
  | .put name id _ => good name id
  | .expose _ => True
  | .use other => ∀ e ∈ other.exported.entries, good e.1 e.2

theorem Brings.mono {good good' : String → SymbolId → Prop} {e : Edit} (h : e.Brings good)
    (hgood : ∀ name x, good name x → good' name x) : e.Brings good' := by
  cases e with
  | put name id exporting => exact hgood name id h
  | expose name => trivial
  | use other => exact fun entry hentry => hgood _ _ (h entry hentry)

/-- Where an edit takes its symbols from: a namespace of `s` exports them under the same names, or
they are new, behind the first `least` ones. -/
inductive From (s : Interp) (least : Nat) (symbols : SymbolStore) : Edit → Prop
  | exported {id : NamespaceId} {name : String} {x : SymbolId} (exporting : Bool)
      (h : (s.namespaceAt id).findExported? name = some x) :
      From s least symbols (.put name x exporting)
  | created {name : String} {x : SymbolId} (exporting : Bool) (hnew : least ≤ x.index)
      (h : symbols.Named name x) : From s least symbols (.put name x exporting)
  | expose (name : String) : From s least symbols (.expose name)
  | use (id : NamespaceId) : From s least symbols (.use (s.namespaceAt id))

theorem From.mono {s : Interp} {least least' : Nat} {symbols symbols' : SymbolStore}
    {kind : Symbol → Prop} {e : Edit} (h : e.From s least symbols) (hleast : least' ≤ least)
    (hgrows : symbols.Grows kind symbols') : e.From s least' symbols' := by
  cases h with
  | exported exporting h => exact .exported exporting h
  | created exporting hnew h => exact .created exporting (Nat.le_trans hleast hnew) (h.mono hgrows)
  | expose name => exact .expose name
  | use id => exact .use id

/-- What is placed is exported elsewhere or new. -/
theorem From.places {s : Interp} {least : Nat} {symbols : SymbolStore} {e : Edit} {n : String}
    {x : SymbolId} (h : e.From s least symbols) (hplaces : e.places n = some x) :
    (∃ id, (s.namespaceAt id).findExported? n = some x) ∨ least ≤ x.index := by
  cases h with
  | @exported id name y exporting h =>
    obtain ⟨hname, rfl⟩ := places_put.mp hplaces
    exact .inl ⟨id, hname ▸ h⟩
  | created exporting hnew h =>
    obtain ⟨-, rfl⟩ := places_put.mp hplaces
    exact .inr hnew
  | expose name => cases hplaces
  | use id => exact .inl ⟨id, hplaces⟩

/-- What is good of all exports and of everything new is good of what an edit brings in. -/
theorem From.brings {s : Interp} {least : Nat} {symbols : SymbolStore} {e : Edit}
    {good : String → SymbolId → Prop} (h : e.From s least symbols)
    (hold : ∀ id, ∀ entry ∈ (s.namespaceAt id).exported.entries, good entry.1 entry.2)
    (hnew : ∀ name x, least ≤ x.index → symbols.Named name x → good name x) : e.Brings good := by
  cases h with
  | @exported id name x exporting h => exact hold id (name, x) (Table.mem_of_find? h)
  | created exporting hleast h => exact hnew _ _ hleast h
  | expose name => trivial
  | use id => exact hold id

end Edit

/-- Both tables hold symbols that are good under their names. -/
structure Namespace.Holds (good : String → SymbolId → Prop) (ns : Namespace) : Prop where
  interned : ∀ e ∈ ns.interned.entries, good e.1 e.2
  exported : ∀ e ∈ ns.exported.entries, good e.1 e.2

theorem Namespace.Holds.mono {good good' : String → SymbolId → Prop} {ns : Namespace}
    (h : ns.Holds good) (hgood : ∀ name x, good name x → good' name x) : ns.Holds good' :=
  ⟨fun e he => hgood _ _ (h.interned e he), fun e he => hgood _ _ (h.exported e he)⟩

theorem Namespace.within_iff_holds {symbols : SymbolStore} {ns : Namespace} :
    ns.Within symbols ↔ ns.Holds fun _ x => x.index < symbols.size :=
  ⟨fun h => ⟨h.interned, h.exported⟩, fun h => ⟨h.interned, h.exported⟩⟩

theorem Namespace.holds_fresh (good : String → SymbolId → Prop) (name : String)
    (canIntern : Bool) : (Namespace.fresh name canIntern).Holds good :=
  ⟨nofun, nofun⟩

namespace Edit

theorem holds_apply {good : String → SymbolId → Prop} {ns : Namespace} {e : Edit}
    (hns : ns.Holds good) (he : e.Brings good) : (e.apply ns).Holds good := by
  cases e with
  | put name id exporting =>
    constructor
    · intro entry hentry
      rcases Table.mem_insert hentry with rfl | hentry
      · exact he
      · exact hns.interned entry hentry
    · intro entry hentry
      cases exporting with
      | false => exact hns.exported entry hentry
      | true =>
        rcases Table.mem_insert hentry with rfl | hentry
        · exact he
        · exact hns.exported entry hentry
  | expose name =>
    unfold apply
    dsimp only
    split
    next id hfind =>
      refine ⟨hns.interned, fun entry hentry => ?_⟩
      rcases Table.mem_insert hentry with rfl | hentry
      · exact hns.interned _ (Table.mem_of_find? hfind)
      · exact hns.exported entry hentry
    next => exact hns
  | use other =>
    refine ⟨fun entry hentry => ?_, hns.exported⟩
    rcases Table.mem_insertAll hentry with hentry | hentry
    · exact he entry hentry
    · exact hns.interned entry hentry

theorem within_apply {symbols : SymbolStore} {ns : Namespace} {e : Edit}
    (hns : ns.Within symbols) (he : e.Brings fun _ x => x.index < symbols.size) :
    (e.apply ns).Within symbols :=
  Namespace.within_iff_holds.mpr (holds_apply (Namespace.within_iff_holds.mp hns) he)

theorem holds_applyAll {good : String → SymbolId → Prop} {ns : Namespace} {es : List Edit}
    (hns : ns.Holds good) (hes : ∀ e ∈ es, e.Brings good) : (applyAll ns es).Holds good := by
  induction es generalizing ns with
  | nil => exact hns
  | cons e es ih =>
    refine ih (holds_apply hns (hes e List.mem_cons_self)) fun e' he' => ?_
    exact hes e' (List.mem_cons_of_mem _ he')

end Edit

/-! ## Which edits the operations are -/

namespace Namespace

variable {ns ns' : Namespace} {symbols symbols' : SymbolStore} {name : String} {id : SymbolId}

/-- The symbol that interning creates. -/
def newSymbol (ns : Namespace) (name : String) : Symbol :=
  if ns.keywords then .keywordNamed name else .named name false none

theorem newSymbol_plain (h : ns.keywords = false) (name : String) : (ns.newSymbol name).Plain := by
  unfold newSymbol
  rw [h]
  exact Symbol.plain_named name

theorem newSymbol_name (ns : Namespace) (name : String) : (ns.newSymbol name).name = name := by
  unfold newSymbol
  split <;> rfl

theorem newSymbol_interned (ns : Namespace) (name : String) :
    (ns.newSymbol name).interned = true := by
  unfold newSymbol
  split <;> rfl

/-- Interning finds the symbol of a name, or it puts a new one there. -/
theorem intern_cases (h : ns.intern symbols name = .ok (id, ns', symbols')) :
    (ns.find? name = some id ∧ ns' = ns ∧ symbols' = symbols) ∨
    (ns.find? name = none ∧ ns.canIntern = true ∧ id = ⟨symbols.size⟩ ∧
      ns' = (Edit.put name id ns.keywords).apply ns ∧
      symbols' = symbols.push (ns.newSymbol name)) := by
  unfold intern at h
  split at h
  next hfind =>
    cases h
    exact .inl ⟨hfind, rfl, rfl⟩
  next hfind =>
    split at h
    next hopen =>
      cases h
      exact .inr ⟨hfind, hopen, rfl, rfl, rfl⟩
    next => cases h

/-- A namespace that is not locked makes a symbol for a new name. -/
theorem intern_new (hnone : ns.find? name = none) (hopen : ns.canIntern = true) :
    ns.intern symbols name = .ok (⟨symbols.size⟩,
      (Edit.put name ⟨symbols.size⟩ ns.keywords).apply ns, symbols.push (ns.newSymbol name)) := by
  unfold intern
  rw [hnone]
  exact if_pos hopen

theorem exportSymbol_cases (h : ns.exportSymbol name = .ok (id, ns')) :
    ns.find? name = some id ∧ ns' = (Edit.expose name).apply ns := by
  unfold exportSymbol at h
  split at h
  next hfind =>
    cases h
    refine ⟨hfind, ?_⟩
    simp only [Edit.apply, hfind]
  next => cases h

theorem importSymbol_cases {other : Namespace} (h : ns.importSymbol? name other = some ns') :
    ∃ id, other.findExported? name = some id ∧ ns' = (Edit.put name id false).apply ns := by
  obtain ⟨id, hfind, rfl⟩ := Option.map_eq_some_iff.mp h
  exact ⟨id, hfind, rfl⟩

theorem Within.findExported? (h : ns.Within symbols) (hfind : ns.findExported? name = some id) :
    id.index < symbols.size :=
  h.exported _ (Table.mem_of_find? hfind)

theorem Within.find? (h : ns.Within symbols) (hfind : ns.find? name = some id) :
    id.index < symbols.size :=
  h.interned _ (Table.mem_of_find? hfind)

end Namespace

/-! ## Clauses of a namespace form -/

namespace NamespaceForm.Draft

variable {s : Interp} {d d' d'' : Draft}

/-- A draft leads to another one by edits, with new plain symbols. What the edits bring in is
exported by the namespaces of `s` or is new. -/
def Leads (s : Interp) (d d' : Draft) : Prop :=
  d.names.keywords = false → ∃ es, d'.names = Edit.applyAll d.names es ∧
    d.symbols.Grows Symbol.Plain d'.symbols ∧ ∀ e ∈ es, e.From s d.symbols.size d'.symbols

theorem Leads.refl (s : Interp) (d : Draft) : Leads s d d := fun _ => ⟨[], rfl, .refl _, nofun⟩

theorem Leads.trans (h : Leads s d d') (h' : Leads s d' d'') : Leads s d d'' := by
  intro hplain
  obtain ⟨es, hnames, hgrows, hfrom⟩ := h hplain
  have hplain' : d'.names.keywords = false := by
    rw [hnames, (Edit.header_applyAll _ _).2.2, hplain]
  obtain ⟨es', hnames', hgrows', hfrom'⟩ := h' hplain'
  have hsame : d''.symbols.Grows Symbol.Plain d''.symbols := .refl _
  refine ⟨es ++ es', ?_, hgrows.trans hgrows', fun e he => ?_⟩
  · rw [hnames', hnames, Edit.applyAll_append]
  · rcases List.mem_append.mp he with he | he
    · exact (hfrom e he).mono (Nat.le_refl _) hgrows'
    · exact (hfrom' e he).mono hgrows.size_le hsame

/-- A single edit that needs no new symbol. -/
theorem Leads.edit {e : Edit} (he : e.From s d.symbols.size d.symbols) :
    Leads s d { d with names := e.apply d.names } := by
  intro _
  refine ⟨[e], rfl, .refl _, fun e' he' => ?_⟩
  rw [List.mem_singleton.mp he']
  exact he

/-- A new plain symbol is put under its name. -/
theorem Leads.create {x : Symbol} {name : String} (hx : d.names.keywords = false → x.Plain)
    (hname : x.name = name) (hinterned : x.interned = true) (exporting : Bool) :
    Leads s d ⟨(Edit.put name ⟨d.symbols.size⟩ exporting).apply d.names, d.symbols.push x⟩ := by
  intro hplain
  refine ⟨[.put name ⟨d.symbols.size⟩ exporting], rfl, .push (hx hplain) _, fun e he => ?_⟩
  rw [List.mem_singleton.mp he]
  exact .created exporting (Nat.le_refl _) (.push hname hinterned _)

theorem leads_useAll {names : List String} (h : useAll s d names = .ok d') : Leads s d d' := by
  induction names generalizing d with
  | nil =>
    cases h
    exact .refl s _
  | cons name rest ih =>
    unfold useAll at h
    split at h
    · cases h
    next id _ => exact (Leads.edit (.use id)).trans (ih h)

theorem leads_exportAll {names : List String} (h : exportAll d names = .ok d') : Leads s d d' := by
  induction names generalizing d with
  | nil =>
    cases h
    exact .refl s _
  | cons name rest ih =>
    unfold exportAll at h
    split at h
    · cases h
    next id ns symbols hintern =>
      split at h
      · cases h
      next id' ns' hexport =>
        obtain ⟨-, rfl⟩ := Namespace.exportSymbol_cases hexport
        have hexposed : Leads s ⟨ns, symbols⟩ ⟨(Edit.expose name).apply ns, symbols⟩ :=
          Leads.edit (.expose name)
        have hinterned : Leads s d ⟨ns, symbols⟩ := by
          rcases Namespace.intern_cases hintern with ⟨-, rfl, rfl⟩ | ⟨-, -, rfl, rfl, rfl⟩
          · exact .refl s d
          · exact Leads.create (fun hplain => Namespace.newSymbol_plain hplain name)
              (d.names.newSymbol_name name) (d.names.newSymbol_interned name) _
        exact (hinterned.trans hexposed).trans (ih h)

theorem leads_importAll {id : NamespaceId} {names : List String}
    (h : importAll (s.namespaceAt id) d names = .ok d') : Leads s d d' := by
  induction names generalizing d with
  | nil =>
    cases h
    exact .refl s _
  | cons name rest ih =>
    unfold importAll at h
    split at h
    · cases h
    next ns himport =>
      obtain ⟨x, hfind, rfl⟩ := Namespace.importSymbol_cases himport
      exact (Leads.edit (.exported false hfind)).trans (ih h)

theorem leads_shadowAll (names : List String) : Leads s d (shadowAll d names) := by
  induction names generalizing d with
  | nil => exact .refl s d
  | cons name rest ih =>
    exact (Leads.create (fun _ => Symbol.plain_named name) rfl rfl false).trans ih

theorem leads_clause {names : List String} (h : clause s d names = .ok d') : Leads s d d' := by
  unfold clause at h
  split at h
  · cases h
    exact .refl s d
  next keyword operands =>
    split at h
    · exact leads_useAll h
    split at h
    · exact leads_exportAll h
    split at h
    · split at h
      · cases h
        exact .refl s d
      next container names =>
        split at h
        · cases h
        · exact leads_importAll h
    split at h
    · cases h
      exact leads_shadowAll operands
    · cases h

/-- Whatever the clauses are, they only make edits. -/
theorem leads_clauses {vs : List Value} (h : clauses s d vs = .ok d') : Leads s d d' := by
  induction vs generalizing d with
  | nil =>
    cases h
    exact .refl s _
  | cons v rest ih =>
    cases v with
    | cons id =>
      unfold clauses at h
      split at h
      · cases h
      · split at h
        · cases h
        · split at h
          · cases h
          next hclause => exact (leads_clause hclause).trans (ih h)
    | _ => cases h

end NamespaceForm.Draft

/-! ## Operations on the namespaces of a state

What an operation does to a state when it answers. -/

variable {s u : Interp} {id : NamespaceId} {name : String} {x : SymbolId}

/-- A namespace that is found by name exists. -/
theorem Interp.findNamespace?_lt (h : s.findNamespace? name = some id) :
    id.index < s.namespaces.size := by
  obtain ⟨i, hi, rfl⟩ := Option.map_eq_some_iff.mp h
  exact (Array.findIdx?_eq_some_iff_findIdx_eq.mp hi).1

theorem Interp.namespaceNamed_lt (h : s.namespaceNamed name = .ok id) :
    id.index < s.namespaces.size := by
  unfold namespaceNamed at h
  split at h
  next hfind =>
    cases h
    exact findNamespace?_lt hfind
  next => cases h

theorem Interp.internIn_cases (h : s.internIn id name = .ok (x, u)) :
    ((s.namespaceAt id).find? name = some x ∧ u = s) ∨
    ((s.namespaceAt id).find? name = none ∧ (s.namespaceAt id).canIntern = true ∧
      x = ⟨s.symbols.size⟩ ∧
      u = { s with symbols := s.symbols.push ((s.namespaceAt id).newSymbol name) }.setNamespace id
        ((Edit.put name x (s.namespaceAt id).keywords).apply (s.namespaceAt id))) := by
  obtain ⟨⟨y, ns, symbols⟩, hintern, hcommit⟩ := ok_of_map h
  cases hcommit
  rcases Namespace.intern_cases hintern with ⟨hfind, rfl, rfl⟩ | ⟨hnone, hopen, rfl, rfl, rfl⟩
  · exact .inl ⟨hfind, s.setNamespace_self id⟩
  · exact .inr ⟨hnone, hopen, rfl, rfl⟩

/-- A keyword is found, or it is created and bound to itself. -/
theorem Interp.internKeyword_cases (h : s.internKeyword name = .ok (x, u)) :
    ((s.namespaceAt .keywords).find? name = some x ∧ u = s) ∨
    ∃ t, (s.namespaceAt .keywords).find? name = none ∧ s.internIn .keywords name = .ok (x, t) ∧
      u = t.bindGlobal x (.symbol x) := by
  unfold internKeyword at h
  split at h
  next hfind =>
    cases h
    exact .inl ⟨hfind, rfl⟩
  next hnone =>
    obtain ⟨⟨y, t⟩, hintern, hbind⟩ := ok_of_map h
    cases hbind
    exact .inr ⟨t, hnone, hintern, rfl⟩

theorem Interp.changeNamespace_cases (h : s.changeNamespace name = .ok (id, u)) :
    (s.namespaceAt id).canIntern = true ∧ u = { s with current := id } := by
  unfold changeNamespace at h
  split at h
  · cases h
  · split at h
    next hopen =>
      cases h
      exact ⟨hopen, rfl⟩
    next => cases h

theorem Interp.useNamed_cases (h : s.useNamed name = .ok (id, u)) :
    (id = s.current ∧ u = s) ∨
    (id ≠ s.current ∧ u = s.setNamespace s.current
      ((Edit.use (s.namespaceAt id)).apply (s.namespaceAt s.current))) := by
  unfold useNamed at h
  split at h
  · cases h
  · cases h
    split
    next heq => exact .inl ⟨heq, rfl⟩
    next hne => exact .inr ⟨hne, rfl⟩

/-- A namespace form registers a new namespace, which edits have made out of an empty one. -/
theorem NamespaceForm.create_cases {arguments : Value} (h : create s arguments = .ok (id, u)) :
    ∃ name es symbols, id = ⟨s.namespaces.size⟩ ∧ s.findNamespace? name = none ∧
      s.symbols.Grows Symbol.Plain symbols ∧ (∀ e ∈ es, Edit.From s s.symbols.size symbols e) ∧
      u = { s with
        symbols := symbols
        namespaces := s.namespaces.push (Edit.applyAll (.fresh name true) es) } := by
  unfold create at h
  split at h
  · cases h
  next name _ =>
    dsimp only at h
    split at h
    · cases h
    next d hclauses =>
      obtain ⟨es, hnames, hgrows, hfrom⟩ := Draft.leads_clauses hclauses rfl
      have hname : d.names.name = name := by
        rw [hnames, (Edit.header_applyAll _ es).1]
        rfl
      unfold Interp.addNamespace at h
      split at h
      · cases h
      next result hadd =>
        split at hadd
        · cases hadd
        next hfresh =>
          cases hadd
          cases h
          refine ⟨name, es, d.symbols, rfl, hname ▸ hfresh, hgrows, hfrom, ?_⟩
          rw [hnames]

end SmallLisp
