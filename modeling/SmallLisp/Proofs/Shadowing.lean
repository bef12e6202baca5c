import SmallLisp.Proofs.Clauses

/-!
# What a shadowed name stands for

Three kinds of clauses of a namespace form give a name a symbol whatever it stood for before:
`SHADOW` a new one, `USE` and `IMPORT-FROM` one of another namespace. `settles` says which a clause
does, and the last clause that does either decides. So a shadowed name stands for a symbol of its
own exactly if no later clause takes the name over, and the same goes for the uses that follow while
the namespace is current: a use of a namespace that exports the name replaces the symbol, and
nothing else does.
-/

namespace SmallLisp

variable {s t u : Interp} {n : String}

namespace NamespaceForm

/-- The names that a clause consists of. -/
def clauseNames? (s : Interp) : Value → Option (List String)
  | .cons id => (s.properElements? (.cons id)).bind fun items => (namesOf s items).toOption
  | _ => none

/-- Whether a registered namespace exports a name. -/
def offers (s : Interp) (n container : String) : Bool :=
  ((s.findNamespace? container).bind fun id => (s.namespaceAt id).findExported? n).isSome

/-- Where the symbol of a name comes from. -/
inductive Origin where
  /-- The form has made it. -/
  | own
  /-- Another namespace exports it. -/
  | taken
deriving DecidableEq

/-- The origin that a clause, given as its names, decides for a name. -/
def settles (s : Interp) (n : String) : List String → Option Origin
  | [] => none
  | keyword :: operands =>
    if keyword = "USE" then if operands.any (offers s n) then some .taken else none
    else if keyword = "IMPORT-FROM" then if n ∈ operands.tail then some .taken else none
    else if keyword = "SHADOW" then if n ∈ operands then some .own else none
    else none

/-- The origin that the last deciding clause decides. -/
def lastSettled (s : Interp) (n : String) (clauses : List (List String)) : Option Origin :=
  (clauses.filterMap (settles s n)).getLast?

namespace Draft

variable {d d' : Draft}

/-- The name stands for a symbol of this origin. -/
def From (s : Interp) (n : String) (d : Draft) : Origin → Prop
  | .own => ∃ x, d.names.find? n = some x ∧ s.symbols.size ≤ x.index ∧ d.symbols.Named n x
  | .taken => ∃ x id, d.names.find? n = some x ∧ (s.namespaceAt id).findExported? n = some x

/-- The draft has made its symbols behind those of the state, and none of them is a keyword. -/
structure Built (s : Interp) (d : Draft) : Prop where
  symbols : s.symbols.Grows Symbol.Plain d.symbols
  keywords : d.names.keywords = false

theorem built_start (s : Interp) (name : String) : Built s (start s name) := ⟨.refl _, rfl⟩

theorem Built.leads (hd : Built s d) (h : Leads s d d') :
    Built s d' ∧ d.symbols.Grows Symbol.Plain d'.symbols := by
  obtain ⟨es, hnames, hgrows, -⟩ := h hd.keywords
  refine ⟨⟨hd.symbols.trans hgrows, ?_⟩, hgrows⟩
  rw [hnames, (Edit.header_applyAll _ es).2.2]
  exact hd.keywords

/-- A symbol that stays under its name keeps its origin. -/
theorem From.stays {o : Origin} (h : From s n d o)
    (hgrows : d.symbols.Grows Symbol.Plain d'.symbols)
    (hfind : ∀ x, d.names.find? n = some x → d'.names.find? n = some x) : From s n d' o := by
  cases o with
  | own =>
    obtain ⟨x, hx, hnew, hnamed⟩ := h
    exact ⟨x, hfind x hx, hnew, hnamed.mono hgrows⟩
  | taken =>
    obtain ⟨x, id, hx, hexported⟩ := h
    exact ⟨x, id, hfind x hx, hexported⟩

/-! ## One clause -/

/-- After a use the name stands for what the last used namespace that exports it exports. -/
theorem find?_useAll {containers : List String} (h : useAll s d containers = .ok d') :
    (containers.any (offers s n) = true → From s n d' .taken) ∧
    (containers.any (offers s n) = false → d'.names.find? n = d.names.find? n) := by
  induction containers generalizing d with
  | nil =>
    cases h
    exact ⟨nofun, fun _ => rfl⟩
  | cons container rest ih =>
    unfold useAll at h
    split at h
    · cases h
    next id hnamed =>
      have hfound : s.findNamespace? container = some id := by
        unfold Interp.namespaceNamed at hnamed
        split at hnamed
        next hfound => exact hfound.trans (congrArg some (Except.ok.inj hnamed))
        next => cases hnamed
      have hfirst : (d.names.use (s.namespaceAt id)).find? n =
          ((s.namespaceAt id).findExported? n).or (d.names.find? n) :=
        Edit.find?_apply d.names (.use (s.namespaceAt id)) n
      obtain ⟨htaken, hsame⟩ := ih h
      cases hrest : rest.any (offers s n) with
      | true => exact ⟨fun _ => htaken hrest, fun hnone => by simp [hrest] at hnone⟩
      | false =>
        rw [List.any_cons, hrest, Bool.or_false]
        unfold offers
        rw [hfound, Option.bind_some]
        constructor
        · intro hoffers
          obtain ⟨x, hx⟩ := Option.isSome_iff_exists.mp hoffers
          refine ⟨x, id, ?_, hx⟩
          rw [hsame hrest, hfirst, hx, Option.some_or]
        · intro hnone
          have hunexported := Option.isNone_iff_eq_none.mp (Option.isSome_eq_false_iff.mp hnone)
          rw [hsame hrest, hfirst, hunexported, Option.none_or]

theorem find?_importAll {id : NamespaceId} {names : List String}
    (h : importAll (s.namespaceAt id) d names = .ok d') :
    (n ∈ names → From s n d' .taken) ∧ (n ∉ names → d'.names.find? n = d.names.find? n) := by
  induction names generalizing d with
  | nil =>
    cases h
    exact ⟨nofun, fun _ => rfl⟩
  | cons name rest ih =>
    unfold importAll at h
    split at h
    · cases h
    next ns himport =>
      obtain ⟨x, hx, rfl⟩ := Namespace.importSymbol_cases himport
      have hfirst : ((Edit.put name x false).apply d.names).find? n =
          if name = n then some x else d.names.find? n := by
        rw [Edit.find?_apply]
        by_cases hname : name = n <;> simp [Edit.places, hname]
      obtain ⟨htaken, hsame⟩ := ih h
      by_cases hrest : n ∈ rest
      · exact ⟨fun _ => htaken hrest, fun hnone => absurd (List.mem_cons_of_mem _ hrest) hnone⟩
      · constructor
        · intro hmem
          obtain rfl : n = name := (List.mem_cons.mp hmem).resolve_right hrest
          refine ⟨x, id, ?_, hx⟩
          rw [hsame hrest, hfirst, if_pos rfl]
        · intro hnone
          have hname : name ≠ n := fun heq => hnone (heq ▸ List.mem_cons_self)
          rw [hsame hrest, hfirst, if_neg hname]

/-- Exporting creates symbols, but replaces none. -/
theorem find?_exportAll {names : List String} (h : exportAll d names = .ok d') {x : SymbolId}
    (hx : d.names.find? n = some x) : d'.names.find? n = some x := by
  induction names generalizing d with
  | nil =>
    cases h
    exact hx
  | cons name rest ih =>
    unfold exportAll at h
    split at h
    · cases h
    next y ns symbols hintern =>
      split at h
      · cases h
      next z ns' hexport =>
        refine ih h ?_
        obtain ⟨-, rfl⟩ := Namespace.exportSymbol_cases hexport
        rw [Edit.find?_apply]
        show ns.find? n = some x
        rcases Namespace.intern_cases hintern with ⟨-, rfl, -⟩ | ⟨hnone, -, -, rfl, -⟩
        · exact hx
        · have hname : name ≠ n := by
            rintro rfl
            rw [hnone] at hx
            cases hx
          rw [Edit.find?_apply]
          simpa [Edit.places, hname] using hx

theorem find?_shadowAll (names : List String) (hd : Built s d) :
    (n ∈ names → From s n (shadowAll d names) .own) ∧
    (n ∉ names → (shadowAll d names).names.find? n = d.names.find? n) := by
  induction names generalizing d with
  | nil => exact ⟨nofun, fun _ => rfl⟩
  | cons name rest ih =>
    let first : Draft := ⟨(Edit.put name ⟨d.symbols.size⟩ false).apply d.names,
      d.symbols.push (Symbol.named name false none)⟩
    have hfind : first.names.find? n =
        if name = n then some ⟨d.symbols.size⟩ else d.names.find? n := by
      rw [Edit.find?_apply]
      by_cases hname : name = n <;> simp [Edit.places, hname]
    have hbuilt : Built s first :=
      (hd.leads (Leads.create (fun _ => Symbol.plain_named name) rfl rfl false)).1
    obtain ⟨hown, hsame⟩ := ih hbuilt
    show (_ → From s n (shadowAll first rest) .own) ∧ (_ → (shadowAll first rest).names.find? n = _)
    by_cases hrest : n ∈ rest
    · exact ⟨fun _ => hown hrest, fun hnone => absurd (List.mem_cons_of_mem _ hrest) hnone⟩
    · constructor
      · intro hmem
        obtain rfl : n = name := (List.mem_cons.mp hmem).resolve_right hrest
        refine ⟨⟨d.symbols.size⟩, ?_, hd.symbols.size_le, ?_⟩
        · rw [hsame hrest, hfind, if_pos rfl]
        · have hnamed : first.symbols.Named n ⟨d.symbols.size⟩ := .push rfl rfl d.symbols
          exact hnamed.mono (hbuilt.leads (leads_shadowAll rest)).2
      · intro hnone
        have hname : name ≠ n := fun heq => hnone (heq ▸ List.mem_cons_self)
        rw [hsame hrest, hfind, if_neg hname]

/-- What is decided holds of the later draft, and an undecided origin is kept. -/
structure Obeys (s : Interp) (n : String) (d d' : Draft) (decision : Option Origin) : Prop where
  decided : ∀ o, decision = some o → From s n d' o
  kept : decision = none → ∀ o, From s n d o → From s n d' o

namespace Obeys

variable {d'' : Draft} {o : Origin} {decision decision' : Option Origin}

theorem refl (s : Interp) (n : String) (d : Draft) : Obeys s n d d none :=
  ⟨nofun, fun _ _ ho => ho⟩

theorem decide (h : From s n d' o) : Obeys s n d d' (some o) :=
  ⟨fun _ ho => Option.some.inj ho ▸ h, nofun⟩

theorem keep (hgrows : d.symbols.Grows Symbol.Plain d'.symbols)
    (hfind : ∀ x, d.names.find? n = some x → d'.names.find? n = some x) : Obeys s n d d' none :=
  ⟨nofun, fun _ _ ho => ho.stays hgrows hfind⟩

/-- The later decision counts. -/
theorem trans (h : Obeys s n d d' decision) (h' : Obeys s n d' d'' decision') :
    Obeys s n d d'' (decision'.or decision) := by
  cases decision' with
  | some o => exact .decide (h'.decided o rfl)
  | none =>
    rw [Option.none_or]
    exact ⟨fun o ho => h'.kept rfl o (h.decided o ho),
      fun hnone o ho => h'.kept rfl o (h.kept hnone o ho)⟩

end Obeys

theorem clause_obeys {names : List String} (hd : Built s d) (h : clause s d names = .ok d') :
    Obeys s n d d' (settles s n names) := by
  obtain ⟨-, hgrows⟩ := hd.leads (leads_clause h)
  have hkeep (hsame : d'.names.find? n = d.names.find? n) : Obeys s n d d' none :=
    .keep hgrows fun x hx => hsame.trans hx
  cases names with
  | nil =>
    cases h
    exact .refl s n d
  | cons keyword operands =>
    unfold clause at h
    unfold settles
    dsimp only at h ⊢
    by_cases huse : keyword = "USE"
    · rw [if_pos huse] at h ⊢
      obtain ⟨htaken, hsame⟩ := find?_useAll (n := n) h
      cases hany : operands.any (offers s n) with
      | true => exact .decide (htaken hany)
      | false => exact hkeep (hsame hany)
    rw [if_neg huse] at h ⊢
    by_cases hexport : keyword = "EXPORT"
    · rw [if_pos hexport] at h
      subst hexport
      exact .keep hgrows fun x hx => find?_exportAll h hx
    rw [if_neg hexport] at h
    by_cases himport : keyword = "IMPORT-FROM"
    · rw [if_pos himport] at h ⊢
      cases operands with
      | nil =>
        cases h
        exact .refl s n d
      | cons container names =>
        dsimp only at h
        split at h
        · cases h
        next id _ =>
          obtain ⟨htaken, hsame⟩ := find?_importAll (n := n) h
          rw [List.tail_cons]
          split
          next hmem => exact .decide (htaken hmem)
          next hmem => exact hkeep (hsame hmem)
    rw [if_neg himport] at h ⊢
    by_cases hshadow : keyword = "SHADOW"
    · rw [if_pos hshadow] at h ⊢
      cases h
      obtain ⟨hown, hsame⟩ := find?_shadowAll (n := n) operands hd
      split
      next hmem => exact .decide (hown hmem)
      next hmem => exact hkeep (hsame hmem)
    · rw [if_neg hshadow] at h
      cases h

/-! ## All clauses -/

theorem lastSettled_cons (s : Interp) (n : String) (names : List String)
    (rest : List (List String)) :
    lastSettled s n (names :: rest) = (lastSettled s n rest).or (settles s n names) := by
  unfold lastSettled
  rw [List.filterMap_cons]
  cases settles s n names with
  | none => rw [Option.or_none]
  | some o =>
    dsimp only
    rw [List.getLast?_cons]
    cases (rest.filterMap (settles s n)).getLast? <;> rfl

/-- A clause that decides is not the last word, but there is a last one. -/
theorem lastSettled_ne_none {names : List String} {clauses : List (List String)} {o : Origin}
    (hmem : names ∈ clauses) (h : settles s n names = some o) : lastSettled s n clauses ≠ none := by
  unfold lastSettled
  rw [ne_eq, List.getLast?_eq_none_iff]
  exact List.ne_nil_of_mem (List.mem_filterMap.mpr ⟨names, hmem, h⟩)

theorem foldlM_obeys {clauses : List (List String)} (hd : Built s d)
    (h : clauses.foldlM (clause s) d = .ok d') : Obeys s n d d' (lastSettled s n clauses) := by
  induction clauses generalizing d with
  | nil =>
    cases h
    exact .refl s n _
  | cons names rest ih =>
    rw [List.foldlM_cons] at h
    cases hfirst : clause s d names with
    | error cause =>
      rw [hfirst] at h
      cases h
    | ok next =>
      rw [hfirst] at h
      rw [lastSettled_cons]
      exact (clause_obeys hd hfirst).trans (ih (hd.leads (leads_clause hfirst)).1 h)

/-- Clauses that succeed are lists of names. -/
theorem clauses_ok {vs : List Value} (h : clauses s d vs = .ok d') :
    ∃ names, vs.mapM (clauseNames? s) = some names ∧ names.foldlM (clause s) d = .ok d' := by
  induction vs generalizing d with
  | nil =>
    cases h
    exact ⟨[], rfl, rfl⟩
  | cons v rest ih =>
    cases v with
    | cons id =>
      unfold clauses at h
      split at h
      · cases h
      next items hitems =>
        split at h
        · cases h
        next names hnames =>
          split at h
          · cases h
          next next hclause =>
            obtain ⟨others, hothers, hfold⟩ := ih h
            refine ⟨names :: others, ?_, ?_⟩
            · have hfirst : clauseNames? s (.cons id) = some names := by
                show (s.properElements? (.cons id)).bind _ = _
                rw [hitems, Option.bind_some, hnames]
                rfl
              rw [List.mapM_cons, hfirst, hothers]
              rfl
            · rw [List.foldlM_cons, hclause]
              exact hfold
    | _ => cases h

end Draft

end NamespaceForm

/-! ## After the form -/

/-- A symbol of this name that `u` has and `s` has not: it stands behind the symbols of `s`, and no
namespace of `s` holds it. -/
structure Interp.MadeSince (s u : Interp) (name : String) (x : SymbolId) : Prop where
  named : u.symbols.Named name x
  new : s.symbols.size ≤ x.index
  foreign : ∀ ns ∈ s.namespaces, ∀ m, ns.find? m ≠ some x ∧ ns.findExported? m ≠ some x

theorem Interp.madeSince {x : SymbolId} (hs : ∀ ns ∈ s.namespaces, ns.Within s.symbols)
    (hnamed : u.symbols.Named n x) (hnew : s.symbols.size ≤ x.index) : s.MadeSince u n x where
  named := hnamed
  new := hnew
  foreign := fun ns hns _ =>
    ⟨fun h => absurd ((hs ns hns).find? h) (Nat.not_lt_of_le hnew),
      fun h => absurd ((hs ns hns).findExported? h) (Nat.not_lt_of_le hnew)⟩

/-- What a name stands for after a form has succeeded. -/
theorem NamespaceForm.create_settles {arguments : Value} {id : NamespaceId}
    (h : create s arguments = .ok (id, u)) :
    ∃ clauses, (s.elementsOf (s.rest arguments)).mapM (clauseNames? s) = some clauses ∧
      ∀ n o, lastSettled s n clauses = some o →
        Draft.From s n ⟨u.namespaceAt id, u.symbols⟩ o := by
  cases hname : nameOf s (s.first arguments) with
  | error fault =>
    unfold create at h
    rw [hname] at h
    cases h
  | ok name =>
    rw [create_named hname] at h
    cases hclauses : (Draft.start s name).clauses s (s.elementsOf (s.rest arguments)) with
    | error fault =>
      rw [hclauses] at h
      cases h
    | ok d =>
      rw [hclauses] at h
      cases hfree : s.findNamespace? name with
      | some taken =>
        rw [hfree] at h
        cases h
      | none =>
        rw [hfree] at h
        cases h
        obtain ⟨clauses, hread, hfold⟩ := Draft.clauses_ok hclauses
        refine ⟨clauses, hread, fun n o ho => ?_⟩
        have hfrom := (Draft.foldlM_obeys (n := n) (Draft.built_start s name) hfold).decided o ho
        have hlast : Interp.namespaceAt { s with
            symbols := d.symbols, namespaces := s.namespaces.push d.names }
            ⟨s.namespaces.size⟩ = d.names := by
          simp [Interp.namespaceAt]
        rw [hlast]
        exact hfrom

/-- What another namespace exports is no symbol that has been made since. -/
theorem Interp.MadeSince.not_exported {x : SymbolId} (h : s.MadeSince u n x) (other : NamespaceId) :
    (s.namespaceAt other).findExported? n ≠ some x := by
  intro hexported
  have hexists : other.index < s.namespaces.size := by
    apply Nat.lt_of_not_le
    intro hle
    rw [Interp.namespaceAt_of_size_le hle] at hexported
    cases hexported
  have hmem : s.namespaceAt other ∈ s.namespaces := by
    unfold Interp.namespaceAt
    rw [Array.getElem?_eq_getElem hexists]
    exact Array.getElem_mem hexists
  exact (h.foreign _ hmem n).2 hexported

/-- Where the tables hold symbols that exist, no symbol is both made and taken. -/
theorem NamespaceForm.Draft.From.symbol (hs : ∀ ns ∈ s.namespaces, ns.Within s.symbols)
    {id : NamespaceId} {o : Origin} (h : From s n ⟨u.namespaceAt id, u.symbols⟩ o) :
    ∃ x, (u.namespaceAt id).find? n = some x ∧ (s.MadeSince u n x ↔ o = .own) ∧
      ((∃ other, (s.namespaceAt other).findExported? n = some x) ↔ o = .taken) := by
  cases o with
  | own =>
    obtain ⟨x, hx, hnew, hnamed⟩ := h
    have hmade : s.MadeSince u n x := Interp.madeSince hs hnamed hnew
    refine ⟨x, hx, ⟨fun _ => rfl, fun _ => hmade⟩, ⟨fun ⟨other, hexported⟩ => ?_, nofun⟩⟩
    exact absurd hexported (hmade.not_exported other)
  | taken =>
    obtain ⟨x, other, hx, hexported⟩ := h
    refine ⟨x, hx, ⟨fun hmade => ?_, nofun⟩, ⟨fun _ => rfl, fun _ => ⟨other, hexported⟩⟩⟩
    exact absurd hexported (hmade.not_exported other)

/-- No use while `id` is current takes the name over. -/
def Change.Spares (id : NamespaceId) (n : String) : Law := fun s c =>
  ∀ container, c = .use container → s.current = id → ∀ other,
    s.findNamespace? container = some other → other ≠ id →
      (s.namespaceAt other).findExported? n = none

/-- What a name stands for after a use. -/
theorem Interp.find?_useNamed {id other : NamespaceId} {container : String}
    (hid : id.index < s.namespaces.size) (hcurrent : s.current = id)
    (h : s.useNamed container = .ok (other, u)) :
    s.findNamespace? container = some other ∧
    (u.namespaceAt id).find? n = if other = id then (s.namespaceAt id).find? n
      else ((s.namespaceAt other).findExported? n).or ((s.namespaceAt id).find? n) := by
  have hfound : s.findNamespace? container = some other := by
    unfold useNamed namespaceNamed at h
    cases hfind : s.findNamespace? container with
    | none =>
      rw [hfind] at h
      cases h
    | some found =>
      rw [hfind] at h
      cases h
      rfl
  refine ⟨hfound, ?_⟩
  rcases Interp.useNamed_cases h with ⟨hself, rfl⟩ | ⟨hother, rfl⟩
  · rw [if_pos (hself.trans hcurrent)]
  · subst hcurrent
    rw [if_neg hother, namespaceAt_setNamespace, if_pos ⟨rfl, hid⟩]
    exact Edit.find?_apply _ (.use (s.namespaceAt other)) n

/-- Interning replaces no symbol. -/
theorem Interp.find?_internIn {id j : NamespaceId} {name : String} {x y : SymbolId}
    (h : s.internIn j name = .ok (y, u)) (hx : (s.namespaceAt id).find? n = some x) :
    (u.namespaceAt id).find? n = some x := by
  rcases Interp.internIn_cases h with ⟨-, rfl⟩ | ⟨hnone, -, -, rfl⟩
  · exact hx
  · rw [namespaceAt_setNamespace]
    split
    next heq =>
      obtain ⟨rfl, -⟩ := heq
      have hname : name ≠ n := by
        rintro rfl
        rw [hnone] at hx
        cases hx
      rw [Edit.find?_apply]
      simpa [Edit.places, hname] using hx
    next => exact hx

/-- A name keeps its symbol as long as no use takes it over. -/
theorem Change.find?_spared {id : NamespaceId} {c : Change} {x : SymbolId}
    (hid : id.index < s.namespaces.size) (hc : c.Spares id n s)
    (hx : (s.namespaceAt id).find? n = some x) : ((c.apply s).namespaceAt id).find? n = some x := by
  let Stands (u : Interp) : Prop := (u.namespaceAt id).find? n = some x
  cases c
  case store v place => cases place <;> exact hx
  case keyword name =>
    refine Interp.resultOf_induction (motive := Stands) hx fun y u h => ?_
    rcases Interp.internKeyword_cases h with ⟨-, rfl⟩ | ⟨t, -, ht, rfl⟩
    · exact hx
    · exact show Stands t from Interp.find?_internIn ht hx
  case intern j name =>
    exact Interp.resultOf_induction (motive := Stands) hx fun y u h => Interp.find?_internIn h hx
  case create arguments =>
    refine Interp.resultOf_induction (motive := Stands) hx fun j u h => ?_
    have hnew := NamespaceForm.create_oneMore h
    by_cases hj : id = j
    · obtain ⟨_, _, _, rfl, -, -, -, -⟩ := NamespaceForm.create_cases h
      exact absurd hid (Nat.not_lt_of_le (Nat.le_of_eq (congrArg NamespaceId.index hj).symm))
    · exact (congrArg (·.find? n) (hnew.namespaces id hj)).trans hx
  case select name =>
    refine Interp.resultOf_induction (motive := Stands) hx fun j u h => ?_
    obtain ⟨-, rfl⟩ := Interp.changeNamespace_cases h
    exact hx
  case use container =>
    refine Interp.resultOf_induction (motive := Stands) hx fun other u h => ?_
    by_cases hcurrent : s.current = id
    · obtain ⟨hfound, hread⟩ := Interp.find?_useNamed (n := n) hid hcurrent h
      refine hread.trans ?_
      split
      next => exact hx
      next hother =>
        rw [hc container rfl hcurrent other hfound hother, Option.none_or]
        exact hx
    · rcases Interp.useNamed_cases h with ⟨-, rfl⟩ | ⟨-, rfl⟩
      · exact hx
      · refine (congrArg (·.find? n) (Interp.namespaceAt_setNamespace s s.current id _)).trans ?_
        rw [if_neg fun heq => hcurrent heq.1]
        exact hx
  all_goals exact hx

theorem Trace.find?_spared {id : NamespaceId} {x : SymbolId} (h : Trace (Change.Spares id n) u t)
    (hid : id.index < u.namespaces.size) (hx : (u.namespaceAt id).find? n = some x) :
    (t.namespaceAt id).find? n = some x := by
  let Stands (v : Interp) : Prop :=
    id.index < v.namespaces.size ∧ (v.namespaceAt id).find? n = some x
  have hstands : Stands t := h.preserves
    (fun v c hc hv => ⟨Nat.lt_of_lt_of_le hv.1 (c.extended v).namespaces,
      Change.find?_spared hv.1 hc hv.2⟩) (fun _ _ _ _ hv => hv) ⟨hid, hx⟩
  exact hstands.2

/-- The last clause decides. After a namespace form that has succeeded, a name that a clause
shadows stands for a symbol that the form has made, and that is in no other namespace, exactly if no
later clause takes the name over; otherwise it stands for one that another namespace exports. From
then on it stands for that symbol until, while the namespace is current, a namespace that exports
the name is used; then it stands for what that one exports. -/
theorem last_clause_settles {arguments : Value} {id : NamespaceId}
    (hs : ∀ ns ∈ s.namespaces, ns.Within s.symbols)
    (h : NamespaceForm.create s arguments = .ok (id, u)) :
    ∃ clauses, (s.elementsOf (s.rest arguments)).mapM (NamespaceForm.clauseNames? s) =
        some clauses ∧
      ∀ n, (∃ names ∈ clauses, NamespaceForm.settles s n names = some .own) →
        ∃ x, (u.namespaceAt id).find? n = some x ∧
          (s.MadeSince u n x ↔ NamespaceForm.lastSettled s n clauses = some .own) ∧
          ((∃ other, (s.namespaceAt other).findExported? n = some x) ↔
            NamespaceForm.lastSettled s n clauses = some .taken) ∧
          ∀ t, Trace (Change.Spares id n) u t → (t.namespaceAt id).find? n = some x ∧
            ∀ container other v, t.current = id → t.useNamed container = .ok (other, v) →
              other ≠ id → (v.namespaceAt id).find? n =
                ((t.namespaceAt other).findExported? n).or (some x) := by
  have hid : id.index < u.namespaces.size := by
    obtain ⟨_, _, _, rfl, -, -, -, rfl⟩ := NamespaceForm.create_cases h
    simp
  obtain ⟨clauses, hread, hsettles⟩ := NamespaceForm.create_settles h
  refine ⟨clauses, hread, fun n ⟨names, hmem, hown⟩ => ?_⟩
  obtain ⟨o, ho⟩ := Option.ne_none_iff_exists'.mp
    (NamespaceForm.Draft.lastSettled_ne_none hmem hown)
  obtain ⟨x, hx, hmade, htaken⟩ := (hsettles n o ho).symbol hs
  simp only [ho, Option.some.injEq]
  refine ⟨x, hx, hmade, htaken, fun t ht => ?_⟩
  have hstands : (t.namespaceAt id).find? n = some x := ht.find?_spared hid hx
  refine ⟨hstands, fun container other v hcurrent huse hother => ?_⟩
  have hexists : id.index < t.namespaces.size := Nat.lt_of_lt_of_le hid ht.extended.namespaces
  rw [(Interp.find?_useNamed (n := n) hexists hcurrent huse).2, if_neg hother, hstands]

/-- A name that is shadowed after the use of a namespace that exports it stands for a new symbol. -/
theorem used_name_shadowed :
    ∃ s arguments id u x y, NamespaceForm.create s arguments = .ok (id, u) ∧
      (s.namespaceAt ⟨3⟩).findExported? "X" = some y ∧ (u.namespaceAt id).find? "X" = some x ∧
      s.MadeSince u "X" x := by
  obtain ⟨s, hs⟩ : ∃ s, s = (Interp.initial 64).afterTexts
    [(.small, "(namespace \"a\" (export x))"),
      (.small, "(var f (quote (namespace \"b\" (use \"a\") (shadow x))))")] := ⟨_, rfl⟩
  have hsession : Session (fun _ => True) (.initial 64) s := hs ▸ Session.start.afterTexts _
  have hlive : s.Live :=
    (hsession.sound (Interp.live_initial 64)).live (fun _ _ hc => hc) (Interp.live_initial 64)
  obtain ⟨hexported, hcreated, hread, hshadows, hlast⟩ :
      (s.namespaceAt ⟨3⟩).findExported? "X" = some ⟨56⟩ ∧
        (NamespaceForm.create s (s.cdr ⟨12⟩)).toOption.isSome ∧
        (s.elementsOf (s.rest (s.cdr ⟨12⟩))).mapM (NamespaceForm.clauseNames? s) =
          some [["USE", "A"], ["SHADOW", "X"]] ∧
        NamespaceForm.settles s "X" ["SHADOW", "X"] = some .own ∧
        NamespaceForm.lastSettled s "X" [["USE", "A"], ["SHADOW", "X"]] = some .own := by
    rw [hs]
    decide +kernel
  cases hresult : NamespaceForm.create s (s.cdr ⟨12⟩) with
  | error fault =>
    rw [hresult] at hcreated
    cases hcreated
  | ok result =>
    obtain ⟨clauses, hclauses, hsettled⟩ := last_clause_settles hlive.namespaces hresult
    obtain rfl := Option.some.inj (hread.symm.trans hclauses)
    obtain ⟨x, hx, hmade, -⟩ := hsettled "X" ⟨["SHADOW", "X"], by simp, hshadows⟩
    exact ⟨s, _, result.1, result.2, x, ⟨56⟩, hresult, hexported, hx, hmade.mpr hlast⟩

/-- A use takes a shadowed name over, as a later clause and as a later call. -/
theorem shadowed_name_taken :
    ∃ t x, Session (fun _ => True) (.initial 64) t ∧
      (t.namespaceAt ⟨3⟩).findExported? "X" = some x ∧
      (∃ id, t.namespaceNamed "B" = .ok id ∧ (t.namespaceAt id).find? "X" = some x) ∧
      ∃ id, t.namespaceNamed "C" = .ok id ∧ (t.namespaceAt id).find? "X" = some x := by
  obtain ⟨t, ht⟩ : ∃ t, t = (Interp.initial 64).afterTexts
    [(.small, "(namespace \"a\" (export x)) (namespace \"b\" (shadow x) (use \"a\"))"),
      (.small, "(namespace \"c\" (use glisp) (shadow x)) (in-namespace c) (use-namespace a)")] :=
    ⟨_, rfl⟩
  have hsession : Session (fun _ => True) (.initial 64) t := ht ▸ Session.start.afterTexts _
  let Stands (name : String) : Prop :=
    (t.findNamespace? name).map (t.namespaceAt · |>.find? "X") = some (some ⟨56⟩)
  obtain ⟨hexported, hclause, hcall⟩ :
      (t.namespaceAt ⟨3⟩).findExported? "X" = some ⟨56⟩ ∧ Stands "B" ∧ Stands "C" := by
    show _ ∧ Option.map _ _ = _ ∧ Option.map _ _ = _
    rw [ht]
    decide +kernel
  have hnamed {name : String} (h : Stands name) :
      ∃ id, t.namespaceNamed name = .ok id ∧ (t.namespaceAt id).find? "X" = some ⟨56⟩ := by
    obtain ⟨id, hfound, hx⟩ := Option.map_eq_some_iff.mp h
    refine ⟨id, ?_, hx⟩
    unfold Interp.namespaceNamed
    rw [hfound]
  exact ⟨t, ⟨56⟩, hsession, hexported, hnamed hclause, hnamed hcall⟩

end SmallLisp
