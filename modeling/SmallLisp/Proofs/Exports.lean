import SmallLisp.Proofs.Session

/-!
# Exported names and what they resolve to

A namespace keeps two tables, and every operation on namespaces comes down to edits of them. An
exported name always resolves to some symbol inside its namespace. That this is the exported symbol
is kept by every operation that gives no exported name another symbol without exporting it:
shadowing, using, importing, and defining or adding without export can. So the two tables agree
after all runs of operations that do not, such as namespace forms whose exports come last, and they
disagree as soon as an exported name is shadowed.
-/

namespace SmallLisp

variable {s t u : Interp} {ns : Namespace} {tidy : Prop}

/-! ## Edits and the two tables -/

namespace Namespace

/-- Every exported name stands for some symbol inside the namespace. -/
def Resolves (ns : Namespace) : Prop :=
  ∀ n x, ns.findExported? n = some x → ∃ y, ns.find? n = some y

/-- Every exported name stands for the exported symbol inside the namespace. -/
def Agrees (ns : Namespace) : Prop :=
  ∀ n x, ns.findExported? n = some x → ns.find? n = some x

/-- Exported names resolve, and under `tidy` to what is exported. -/
structure Kept (tidy : Prop) (ns : Namespace) : Prop where
  resolves : ns.Resolves
  agrees : tidy → ns.Agrees

end Namespace

namespace Edit

/-- Whether an edit exports what a name stands for after it. -/
def exports (n : String) : Edit → Bool
  | .put name _ exporting => exporting && name == n
  | .expose name => name == n
  | .use _ => false

theorem findExported?_apply (ns : Namespace) (e : Edit) (n : String) :
    (e.apply ns).findExported? n =
      if e.exports n then ((e.apply ns).find? n).or (ns.findExported? n)
      else ns.findExported? n := by
  rw [find?_apply]
  cases e with
  | put name id exporting =>
    rw [findExported?_put]
    cases exporting <;> by_cases hname : name = n <;> simp [exports, places, hname]
  | expose name =>
    rw [findExported?_expose]
    by_cases hname : name = n <;> simp [exports, places, hname]
  | use other => rfl

/-- The edit gives no exported name another symbol, unless it exports that. -/
def Tidy (ns : Namespace) (e : Edit) : Prop :=
  ∀ n x y, ns.findExported? n = some x → e.places n = some y → e.exports n = false → y = x

theorem resolves_apply (h : ns.Resolves) (e : Edit) : (e.apply ns).Resolves := by
  intro n x hx
  rw [findExported?_apply] at hx
  -- what was exported before resolves after the edit, to what it places or to what was there
  have hold : ∀ z, ns.findExported? n = some z → ∃ y, (e.apply ns).find? n = some y := by
    intro z hz
    obtain ⟨y, hy⟩ := h n z hz
    rw [find?_apply, hy]
    cases e.places n with
    | none => exact ⟨y, rfl⟩
    | some w => exact ⟨w, rfl⟩
  split at hx
  · cases hfind : (e.apply ns).find? n with
    | some y => exact ⟨y, rfl⟩
    | none =>
      rw [hfind] at hx
      obtain ⟨y, hy⟩ := hold x hx
      rw [hfind] at hy
      cases hy
  · exact hold x hx

theorem resolves_applyAll (h : ns.Resolves) (es : List Edit) : (applyAll ns es).Resolves := by
  induction es generalizing ns with
  | nil => exact h
  | cons e es ih => exact ih (resolves_apply h e)

/-- Edits take no name out of a table. -/
theorem find?_isSome_applyAll {n : String} (es : List Edit) (h : (ns.find? n).isSome) :
    ((applyAll ns es).find? n).isSome := by
  induction es generalizing ns with
  | nil => exact h
  | cons e es ih =>
    refine ih ?_
    rw [find?_apply, Option.isSome_or, h, Bool.or_true]

theorem findExported?_isSome_applyAll {n : String} (es : List Edit)
    (h : (ns.findExported? n).isSome) : ((applyAll ns es).findExported? n).isSome := by
  induction es generalizing ns with
  | nil => exact h
  | cons e es ih =>
    refine ih ?_
    rw [findExported?_apply]
    split
    · rw [Option.isSome_or, h, Bool.or_true]
    · exact h

theorem agrees_apply (h : ns.Agrees) {e : Edit} (he : e.Tidy ns) : (e.apply ns).Agrees := by
  intro n x hx
  rw [findExported?_apply] at hx
  split at hx
  · cases hfind : (e.apply ns).find? n with
    | some y =>
      rw [hfind] at hx
      exact hx
    | none =>
      rw [hfind] at hx
      have hwas := h n x hx
      rw [find?_apply, hwas] at hfind
      cases hplaces : e.places n <;> rw [hplaces] at hfind <;> cases hfind
  next hexports =>
    rw [find?_apply, h n x hx]
    cases hplaces : e.places n with
    | none => rfl
    | some y => rw [he n x y hx hplaces (Bool.eq_false_iff.mpr hexports), Option.some_or]

end Edit

theorem Namespace.Kept.edit (h : ns.Kept tidy) {e : Edit} (he : tidy → e.Tidy ns) :
    (e.apply ns).Kept tidy :=
  ⟨Edit.resolves_apply h.resolves e, fun htidy => Edit.agrees_apply (h.agrees htidy) (he htidy)⟩

/-- A symbol that is put under a name without export has to be the one exported under it. -/
theorem Edit.tidy_put {name : String} {x : SymbolId} {exporting : Bool}
    (h : exporting = false → ∀ z, ns.findExported? name = some z → x = z) :
    (Edit.put name x exporting).Tidy ns := by
  intro n z y hz hplaces hexports
  by_cases hname : name = n
  · subst hname
    simp only [places, if_true, Option.some.injEq] at hplaces
    rw [← hplaces]
    exact h (by simpa [exports] using hexports) z hz
  · simp [places, hname] at hplaces

/-- A name that has no symbol is not exported. -/
theorem Namespace.Resolves.findExported?_eq_none (h : ns.Resolves) {name : String}
    (hnone : ns.find? name = none) : ns.findExported? name = none := by
  cases hexported : ns.findExported? name with
  | none => rfl
  | some x =>
    obtain ⟨y, hy⟩ := h name x hexported
    rw [hnone] at hy
    cases hy

/-- Putting a symbol under a name that has none changes no entry. -/
theorem Edit.put_keeps (h : ns.Resolves) {name n : String} {x y : SymbolId} {exporting : Bool}
    (hnone : ns.find? name = none) :
    (ns.find? n = some y → ((Edit.put name x exporting).apply ns).find? n = some y) ∧
    (ns.findExported? n = some y →
      ((Edit.put name x exporting).apply ns).findExported? n = some y) := by
  constructor
  · intro hy
    have hname : name ≠ n := by
      rintro rfl
      rw [hnone] at hy
      cases hy
    rw [find?_apply]
    simpa [places, hname] using hy
  · intro hy
    rw [findExported?_put, if_neg]
    · exact hy
    · rintro ⟨-, rfl⟩
      rw [h.findExported?_eq_none hnone] at hy
      cases hy

theorem Namespace.kept_fresh (name : String) (canIntern : Bool) :
    (Namespace.fresh name canIntern).Kept tidy :=
  ⟨nofun, fun _ => nofun⟩

/-! ## Operations on the namespaces of a state -/

/-- An operation on namespaces. Under `tidy` it replaces the symbol of no exported name, unless it
exports the new one. -/
inductive NamespaceStep (tidy : Prop) (s : Interp) : Interp → Prop
  | intern {id : NamespaceId} {name : String} {x : SymbolId} {u : Interp}
      (h : s.internIn id name = .ok (x, u)) : NamespaceStep tidy s u
  | keyword {name : String} {x : SymbolId} {u : Interp}
      (h : s.internKeyword name = .ok (x, u)) : NamespaceStep tidy s u
  | define (id : NamespaceId) (name : String) (reserved : Bool) (selfValue : Option Value)
      (exporting : Bool)
      (hfree : tidy → exporting = true ∨ (s.namespaceAt id).findExported? name = none) :
      NamespaceStep tidy s (s.defineIn id name reserved selfValue exporting).2
  | shadow (id : NamespaceId) (name : String)
      (hfree : tidy → (s.namespaceAt id).findExported? name = none) :
      NamespaceStep tidy s (s.shadowIn id name).2
  | expose {id : NamespaceId} {name : String} {x : SymbolId} {u : Interp}
      (h : s.exportIn id name = .ok (x, u)) : NamespaceStep tidy s u
  | add (id : NamespaceId) (symbol : SymbolId) (exporting : Bool)
      (hfree : tidy → exporting = true ∨ ∀ x,
        (s.namespaceAt id).findExported? (s.symbol symbol).name = some x → x = symbol) :
      NamespaceStep tidy s (s.addTo id symbol exporting)
  | use (id other : NamespaceId)
      (hfree : tidy → ∀ n x y, (s.namespaceAt id).findExported? n = some x →
        (s.namespaceAt other).findExported? n = some y → y = x) :
      NamespaceStep tidy s (s.useIn id other)
  | importFrom (id other : NamespaceId) (name : String)
      (hfree : tidy → ∀ x y, (s.namespaceAt id).findExported? name = some x →
        (s.namespaceAt other).findExported? name = some y → y = x) :
      NamespaceStep tidy s (s.importIn id other name).2
  | create {name : String} {canIntern : Bool} {id : NamespaceId} {u : Interp}
      (h : s.addNamespace (.fresh name canIntern) = .ok (id, u)) : NamespaceStep tidy s u
  /-- Whatever leaves the namespaces alone. -/
  | elsewhere {u : Interp} (h : u.namespaces = s.namespaces) : NamespaceStep tidy s u

inductive NamespaceRun (tidy : Prop) (s : Interp) : Interp → Prop
  | refl : NamespaceRun tidy s s
  | step {t u : Interp} (before : NamespaceRun tidy s t) (h : NamespaceStep tidy t u) :
      NamespaceRun tidy s u

def Interp.NamespacesKept (tidy : Prop) (s : Interp) : Prop :=
  ∀ id, (s.namespaceAt id).Kept tidy

/-- An edit of one namespace. -/
theorem Interp.NamespacesKept.edit (hs : s.NamespacesKept tidy) {id : NamespaceId} {e : Edit}
    (he : tidy → e.Tidy (s.namespaceAt id)) (symbols : SymbolStore) :
    ({ s with symbols := symbols }.setNamespace id
      (e.apply (s.namespaceAt id))).NamespacesKept tidy := by
  intro j
  rw [Interp.namespaceAt_setNamespace]
  split
  · exact (hs id).edit he
  · exact hs j

theorem NamespaceStep.kept (h : NamespaceStep tidy s u) (hs : s.NamespacesKept tidy) :
    u.NamespacesKept tidy := by
  have hintern : ∀ {id name x t}, s.internIn id name = .ok (x, t) → t.NamespacesKept tidy := by
    intro id name x t h
    rcases Interp.internIn_cases h with ⟨-, rfl⟩ | ⟨hnone, -, -, rfl⟩
    · exact hs
    · have hfree := (hs id).resolves.findExported?_eq_none hnone
      refine hs.edit (fun _ => Edit.tidy_put fun _ z hz => ?_) _
      rw [hfree] at hz
      cases hz
  cases h with
  | intern h => exact hintern h
  | keyword h =>
    rcases Interp.internKeyword_cases h with ⟨-, rfl⟩ | ⟨t, -, ht, rfl⟩
    · exact hs
    · exact fun id => hintern ht id
  | define id name reserved selfValue exporting hfree =>
    refine hs.edit (fun htidy => Edit.tidy_put fun hsilent z hz => ?_) _
    rcases hfree htidy with hexporting | hnone
    · rw [hsilent] at hexporting
      cases hexporting
    · rw [hnone] at hz
      cases hz
  | shadow id name hfree =>
    refine hs.edit (fun htidy => Edit.tidy_put fun _ z hz => ?_) _
    rw [hfree htidy] at hz
    cases hz
  | @expose id name x u h =>
    obtain ⟨⟨y, ns⟩, hexport, heq⟩ := ok_of_map h
    cases heq
    obtain ⟨-, rfl⟩ := Namespace.exportSymbol_cases hexport
    refine hs.edit (fun _ n z y hz hplaces => ?_) _
    cases hplaces
  | add id symbol exporting hfree =>
    refine hs.edit (fun htidy => Edit.tidy_put fun hsilent z hz => ?_) _
    rcases hfree htidy with hexporting | hsame
    · rw [hsilent] at hexporting
      cases hexporting
    · exact (hsame z hz).symm
  | use id other hfree =>
    exact hs.edit (e := .use (s.namespaceAt other))
      (fun htidy n z y hz hplaces _ => hfree htidy n z y hz hplaces) s.symbols
  | importFrom id other name hfree =>
    unfold Interp.importIn
    cases himport : (s.namespaceAt id).importSymbol? name (s.namespaceAt other) with
    | none => exact hs
    | some ns =>
      obtain ⟨x, hfind, rfl⟩ := Namespace.importSymbol_cases himport
      exact hs.edit (fun htidy => Edit.tidy_put fun _ z hz => hfree htidy z x hz hfind) s.symbols
  | @create name canIntern id u h =>
    unfold Interp.addNamespace at h
    split at h
    · cases h
    · cases h
      intro j
      unfold Interp.namespaceAt
      rw [Array.getElem?_push]
      split
      · exact Namespace.kept_fresh name canIntern
      · exact hs j
  | elsewhere h =>
    intro id
    unfold Interp.namespaceAt
    rw [h]
    exact hs id

theorem NamespaceRun.kept (h : NamespaceRun tidy s u) (hs : s.NamespacesKept tidy) :
    u.NamespacesKept tidy := by
  induction h with
  | refl => exact hs
  | step _ h ih => exact h.kept ih

theorem NamespaceRun.single (h : NamespaceStep tidy s u) : NamespaceRun tidy s u := .step .refl h

theorem NamespaceRun.trans (h : NamespaceRun tidy s t) (h' : NamespaceRun tidy t u) :
    NamespaceRun tidy s u := by
  induction h' with
  | refl => exact h
  | step _ hstep ih => exact .step ih hstep

/-! ## Namespace forms are runs -/

namespace NamespaceForm.Draft

variable {d d' : Draft}

/-- The state in which a draft is the last namespace. -/
def registered (s : Interp) (d : Draft) : Interp :=
  { s with symbols := d.symbols, namespaces := s.namespaces.push d.names }

theorem namespaceAt_registered (s : Interp) (d : Draft) :
    (d.registered s).namespaceAt ⟨s.namespaces.size⟩ = d.names := by
  simp [registered, Interp.namespaceAt]

theorem namespaceAt_registered_of_lt (d : Draft) {id : NamespaceId}
    (h : id.index < s.namespaces.size) : (d.registered s).namespaceAt id = s.namespaceAt id := by
  simp [registered, Interp.namespaceAt, Array.getElem?_push, Nat.ne_of_lt h]

theorem setNamespace_registered (d : Draft) (ns : Namespace) (symbols : SymbolStore) :
    ({ d.registered s with symbols := symbols }.setNamespace ⟨s.namespaces.size⟩ ns) =
      (⟨ns, symbols⟩ : Draft).registered s := by
  have hset : (s.namespaces.push d.names).setIfInBounds s.namespaces.size ns =
      s.namespaces.push ns := by
    rw [Array.setIfInBounds_def, dif_pos (by simp), Array.set_push, dif_neg (Nat.lt_irrefl _)]
  unfold Interp.setNamespace registered
  dsimp only
  rw [hset]

theorem commit_registered (d : Draft) (x : SymbolId) (ns : Namespace) (symbols : SymbolStore) :
    (d.registered s).commit ⟨s.namespaces.size⟩ (x, ns, symbols) =
      (x, (⟨ns, symbols⟩ : Draft).registered s) :=
  congrArg (Prod.mk x) (setNamespace_registered d ns symbols)

/-- Nothing is exported yet. -/
def Silent (d : Draft) : Prop := ∀ n, d.names.findExported? n = none

/-- A draft becomes another one by operations on the last namespace. -/
def Runs (tidy : Prop) (s : Interp) (d d' : Draft) : Prop :=
  NamespaceRun tidy (d.registered s) (d'.registered s)

theorem runs_useAll {names : List String} (hd : tidy → d.Silent)
    (h : useAll s d names = .ok d') : Runs tidy s d d' ∧ (d.Silent → d'.Silent) := by
  induction names generalizing d with
  | nil =>
    cases h
    exact ⟨.refl, id⟩
  | cons name rest ih =>
    unfold useAll at h
    split at h
    · cases h
    next other hother =>
      have huse : (d.registered s).useIn ⟨s.namespaces.size⟩ other =
          registered s { d with names := d.names.use (s.namespaceAt other) } := by
        unfold Interp.useIn
        rw [namespaceAt_registered,
          namespaceAt_registered_of_lt d (Interp.namespaceNamed_lt hother)]
        exact setNamespace_registered d _ d.symbols
      have hstep : NamespaceStep tidy (d.registered s)
          (registered s { d with names := d.names.use (s.namespaceAt other) }) := by
        rw [← huse]
        refine .use _ other fun htidy n x y hx _ => ?_
        rw [namespaceAt_registered, hd htidy n] at hx
        cases hx
      have hd' : tidy → Draft.Silent { d with names := d.names.use (s.namespaceAt other) } := hd
      obtain ⟨hrun, hsilent⟩ := ih hd' h
      exact ⟨(NamespaceRun.single hstep).trans hrun, hsilent⟩

theorem runs_exportAll {names : List String} (h : exportAll d names = .ok d') :
    Runs tidy s d d' := by
  induction names generalizing d with
  | nil =>
    cases h
    exact .refl
  | cons name rest ih =>
    unfold exportAll at h
    split at h
    · cases h
    next x ns symbols hintern =>
      split at h
      · cases h
      next x' ns' hexport =>
        have hinterned : (d.registered s).internIn ⟨s.namespaces.size⟩ name =
            .ok (x, registered s ⟨ns, symbols⟩) := by
          have hsymbols : (d.registered s).symbols = d.symbols := rfl
          unfold Interp.internIn
          rw [namespaceAt_registered, hsymbols, hintern, ← commit_registered d]
          rfl
        have hexposed : (registered s ⟨ns, symbols⟩).exportIn ⟨s.namespaces.size⟩ name =
            .ok (x', registered s ⟨ns', symbols⟩) := by
          unfold Interp.exportIn
          rw [namespaceAt_registered, hexport, ← setNamespace_registered ⟨ns, symbols⟩ ns']
          rfl
        exact (NamespaceRun.single (.intern hinterned)).trans
          ((NamespaceRun.single (.expose hexposed)).trans (ih h))

theorem runs_importAll {other : NamespaceId} {names : List String} (hd : tidy → d.Silent)
    (hother : other.index < s.namespaces.size)
    (h : importAll (s.namespaceAt other) d names = .ok d') :
    Runs tidy s d d' ∧ (d.Silent → d'.Silent) := by
  induction names generalizing d with
  | nil =>
    cases h
    exact ⟨.refl, id⟩
  | cons name rest ih =>
    unfold importAll at h
    split at h
    · cases h
    next ns himport =>
      have himported : ((d.registered s).importIn ⟨s.namespaces.size⟩ other name).2 =
          registered s { d with names := ns } := by
        unfold Interp.importIn
        rw [namespaceAt_registered, namespaceAt_registered_of_lt d hother, himport]
        exact setNamespace_registered d ns d.symbols
      have hstep : NamespaceStep tidy (d.registered s) (registered s { d with names := ns }) := by
        rw [← himported]
        refine .importFrom _ other name fun htidy x y hx _ => ?_
        rw [namespaceAt_registered, hd htidy name] at hx
        cases hx
      obtain ⟨x, -, rfl⟩ := Namespace.importSymbol_cases himport
      have hd' : tidy → Draft.Silent
          { d with names := (Edit.put name x false).apply d.names } := hd
      obtain ⟨hrun, hsilent⟩ := ih hd' h
      exact ⟨(NamespaceRun.single hstep).trans hrun, hsilent⟩

theorem runs_shadowAll (names : List String) (hd : tidy → d.Silent) :
    Runs tidy s d (shadowAll d names) ∧ (d.Silent → (shadowAll d names).Silent) := by
  induction names generalizing d with
  | nil => exact ⟨.refl, id⟩
  | cons name rest ih =>
    let shadowed := d.names.shadow d.symbols name
    have hshadowed : ((d.registered s).shadowIn ⟨s.namespaces.size⟩ name).2 =
        registered s ⟨shadowed.2.1, shadowed.2.2⟩ := by
      unfold Interp.shadowIn
      rw [namespaceAt_registered]
      exact congrArg Prod.snd (commit_registered d shadowed.1 shadowed.2.1 shadowed.2.2)
    have hstep : NamespaceStep tidy (d.registered s)
        (registered s ⟨shadowed.2.1, shadowed.2.2⟩) := by
      rw [← hshadowed]
      refine .shadow _ name fun htidy => ?_
      rw [namespaceAt_registered, hd htidy name]
    have hd' : tidy → Draft.Silent ⟨shadowed.2.1, shadowed.2.2⟩ := hd
    obtain ⟨hrun, hsilent⟩ := ih hd'
    exact ⟨(NamespaceRun.single hstep).trans hrun, hsilent⟩

/-- A clause that exports nothing is tidy as long as nothing is exported. -/
theorem runs_clause {names : List String}
    (hd : tidy → names.head? = some "EXPORT" ∨ d.Silent) (h : clause s d names = .ok d') :
    Runs tidy s d d' ∧ (names.head? ≠ some "EXPORT" → d.Silent → d'.Silent) := by
  unfold clause at h
  split at h
  · cases h
    exact ⟨.refl, fun _ => id⟩
  next keyword operands =>
    have hsilent : keyword ≠ "EXPORT" → tidy → d.Silent := by
      intro hkeyword htidy
      exact (hd htidy).resolve_left fun hhead => hkeyword (Option.some.inj hhead)
    split at h
    next heq =>
      obtain ⟨hrun, hkept⟩ := runs_useAll (hsilent (heq ▸ by decide)) h
      exact ⟨hrun, fun _ => hkept⟩
    split at h
    next heq => exact ⟨runs_exportAll h, fun hne => absurd (congrArg some heq) hne⟩
    next hne =>
      split at h
      next heq =>
        split at h
        · cases h
          exact ⟨.refl, fun _ => id⟩
        next container names =>
          split at h
          · cases h
          next other hother =>
            have hlt := Interp.findNamespace?_lt hother
            obtain ⟨hrun, hkept⟩ := runs_importAll (hsilent hne) hlt h
            exact ⟨hrun, fun _ => hkept⟩
      split at h
      · cases h
        obtain ⟨hrun, hkept⟩ := runs_shadowAll operands (hsilent hne)
        exact ⟨hrun, fun _ => hkept⟩
      · cases h

end NamespaceForm.Draft

namespace NamespaceForm

/-- Whether a value is an `EXPORT` clause. -/
def Exporting (s : Interp) (clause : Value) : Prop :=
  ∃ items names, s.properElements? clause = some items ∧ namesOf s items = .ok names ∧
    names.head? = some "EXPORT"

/-- Only `EXPORT` clauses follow an `EXPORT` clause. -/
def ExportsLast (s : Interp) (clauses : List Value) : Prop :=
  clauses.Pairwise fun c c' => Exporting s c → Exporting s c'

theorem Draft.runs_clauses {d d' : Draft} {vs : List Value}
    (hd : tidy → d.Silent ∨ ∀ v ∈ vs, Exporting s v) (hlast : tidy → ExportsLast s vs)
    (h : clauses s d vs = .ok d') : Runs tidy s d d' := by
  induction vs generalizing d with
  | nil =>
    cases h
    exact .refl
  | cons v rest ih =>
    cases v with
    | cons id =>
      unfold clauses at h
      split at h
      · cases h
      next items hitems =>
        split at h
        · cases h
        next names hnames =>
          split at h
          · cases h
          next d'' hclause =>
            have hthis : Exporting s (.cons id) ↔ names.head? = some "EXPORT" := by
              constructor
              · rintro ⟨items', names', hitems', hnames', hhead⟩
                rw [hitems] at hitems'
                cases hitems'
                rw [hnames] at hnames'
                cases hnames'
                exact hhead
              · exact fun hhead => ⟨items, names, hitems, hnames, hhead⟩
            have hfirst : tidy → names.head? = some "EXPORT" ∨ d.Silent := by
              intro htidy
              rcases hd htidy with hsilent | hall
              · exact .inr hsilent
              · exact .inl (hthis.mp (hall _ List.mem_cons_self))
            obtain ⟨hrun, hsilent⟩ := runs_clause hfirst hclause
            refine hrun.trans (ih (fun htidy => ?_) (fun htidy => (hlast htidy).of_cons) h)
            -- once a clause has exported something, only export clauses are left
            by_cases hexporting : Exporting s (.cons id)
            · exact .inr fun v hv => List.rel_of_pairwise_cons (hlast htidy) hv hexporting
            · rcases hd htidy with hwas | hall
              · exact .inl (hsilent (fun hhead => hexporting (hthis.mpr hhead)) hwas)
              · exact absurd (hall _ List.mem_cons_self) hexporting
    | _ => cases h

/-- A namespace form is a run, tidy if its exports come last. -/
theorem run_create {arguments : Value} {id : NamespaceId}
    (hlast : tidy → ExportsLast s (s.elementsOf (s.rest arguments)))
    (h : create s arguments = .ok (id, u)) : NamespaceRun tidy s u := by
  unfold create at h
  split at h
  · cases h
  next name _ =>
    dsimp only at h
    split at h
    · cases h
    next d hclauses =>
      have hname : d.names.name = name := by
        obtain ⟨es, hnames, -, -⟩ := Draft.leads_clauses hclauses rfl
        rw [hnames, (Edit.header_applyAll _ es).1]
        rfl
      have hrun : Draft.Runs tidy s ⟨.fresh name true, s.symbols⟩ d :=
        Draft.runs_clauses (fun _ => .inl fun _ => rfl) hlast hclauses
      split at h
      · cases h
      next result hadd =>
        cases h
        unfold Interp.addNamespace at hadd
        split at hadd
        · cases hadd
        next hfresh =>
          cases hadd
          replace hfresh : s.findNamespace? name = none := hname ▸ hfresh
          have hcreated : s.addNamespace (.fresh name true) =
              .ok (⟨s.namespaces.size⟩,
                Draft.registered s ⟨.fresh name true, s.symbols⟩) := by
            unfold Interp.addNamespace
            rw [show (Namespace.fresh name true).name = name from rfl, hfresh]
            rfl
          exact (NamespaceRun.single (.create hcreated)).trans hrun

end NamespaceForm

/-! ## Changes and sessions are runs -/

/-- A change after which exported names stand for what is exported, if they did before. -/
def Change.Tidy (s : Interp) : Change → Prop
  | .create arguments => NamespaceForm.ExportsLast s (s.elementsOf (s.rest arguments))
  | .use name => ∀ id, s.namespaceNamed name = .ok id → ∀ n x y,
      (s.namespaceAt s.current).findExported? n = some x →
      (s.namespaceAt id).findExported? n = some y → y = x
  | _ => True

/-- What a change does to namespaces is a run, a tidy one if the change is tidy. -/
theorem Change.run {c : Change} (hc : tidy → c.Tidy s) : NamespaceRun tidy s (c.apply s) := by
  have helsewhere : ∀ {u : Interp}, u.namespaces = s.namespaces → NamespaceRun tidy s u :=
    fun h => .single (.elsewhere h)
  cases c with
  | store v place => cases place <;> exact helsewhere rfl
  | keyword name => exact Interp.resultOf_induction .refl fun x u h => .single (.keyword h)
  | intern id name => exact Interp.resultOf_induction .refl fun x u h => .single (.intern h)
  | create arguments =>
    exact Interp.resultOf_induction .refl fun id u h => NamespaceForm.run_create hc h
  | select name =>
    refine Interp.resultOf_induction .refl fun id u h => ?_
    obtain ⟨-, rfl⟩ := Interp.changeNamespace_cases h
    exact helsewhere rfl
  | use name =>
    refine Interp.resultOf_induction .refl fun id u h => ?_
    have hnamed : s.namespaceNamed name = .ok id := by
      unfold Interp.useNamed at h
      split at h
      · cases h
      next hnamed =>
        cases h
        exact hnamed
    rcases Interp.useNamed_cases h with ⟨-, rfl⟩ | ⟨-, rfl⟩
    · exact .refl
    · exact .single (.use s.current id fun htidy => hc htidy id hnamed)
  | _ => exact helsewhere rfl

theorem Trace.run {law : Law} (h : Trace law s t) (hlaw : tidy → ∀ u c, law u c → c.Tidy u) :
    NamespaceRun tidy s t := by
  refine h.preserves (fun u c hc hu => hu.trans (c.run fun htidy => hlaw htidy u c hc))
    (fun u chain depths active hu => hu.trans (.single (.elsewhere rfl))) .refl

theorem Session.run (h : Session (fun _ => True) s t) : NamespaceRun False s t :=
  h.changes.run nofun

/-! ## Functions of the host -/

/-- The first `k` namespaces as `f` makes them. -/
def Interp.mapNamespaces (s : Interp) (f : Namespace → Namespace) (k : Nat) : Interp :=
  { s with namespaces := s.namespaces.mapIdx fun i ns => if i < k then f ns else ns }

theorem Interp.mapNamespaces_succ (s : Interp) (f : Namespace → Namespace) {k : Nat}
    (hk : k < s.namespaces.size) :
    s.mapNamespaces f (k + 1) =
      (s.mapNamespaces f k).setNamespace ⟨k⟩ (f ((s.mapNamespaces f k).namespaceAt ⟨k⟩)) := by
  have hthis : (s.mapNamespaces f k).namespaceAt ⟨k⟩ = s.namespaces[k] := by
    simp [mapNamespaces, namespaceAt, hk]
  have hmap : (s.namespaces.mapIdx fun i ns => if i < k + 1 then f ns else ns) =
      (s.namespaces.mapIdx fun i ns => if i < k then f ns else ns).setIfInBounds k
        (f s.namespaces[k]) := by
    apply Array.ext_getElem?
    intro i
    rw [Array.getElem?_setIfInBounds]
    split
    next heq =>
      subst heq
      simp [hk]
    next hne =>
      have hlt : i < k + 1 ↔ i < k := by omega
      simp only [Array.getElem?_mapIdx, hlt]
  rw [hthis]
  unfold mapNamespaces setNamespace
  rw [hmap]

/-- A step on each namespace is a run. -/
theorem NamespaceRun.map {f : Namespace → Namespace} (hf : ∀ t : Interp, t.symbols = s.symbols →
      ∀ id, NamespaceRun tidy t (t.setNamespace id (f (t.namespaceAt id)))) :
    NamespaceRun tidy s { s with namespaces := s.namespaces.map f } := by
  have hfirst : ∀ k ≤ s.namespaces.size, NamespaceRun tidy s (s.mapNamespaces f k) := by
    intro k hk
    induction k with
    | zero =>
      refine .single (.elsewhere (Array.ext_getElem? fun i => ?_))
      simp [Interp.mapNamespaces]
    | succ k ih =>
      rw [s.mapNamespaces_succ f hk]
      exact (ih (Nat.le_of_succ_le hk)).trans (hf (s.mapNamespaces f k) rfl ⟨k⟩)
  have hall : s.mapNamespaces f s.namespaces.size =
      { s with namespaces := s.namespaces.map f } := by
    unfold Interp.mapNamespaces
    congr 1
    apply Array.ext_getElem?
    intro i
    by_cases hi : i < s.namespaces.size <;> simp [hi]
  rw [← hall]
  exact hfirst _ (Nat.le_refl _)

/-- A symbol is added to every namespace that uses the standard library. -/
theorem NamespaceRun.spread (s : Interp) (x : SymbolId) :
    NamespaceRun False s { s with namespaces := s.namespaces.map fun ns =>
      if systemName ∈ ns.uses then ns.add (s.symbol x).name x false else ns } := by
  refine .map fun t ht id => ?_
  have hname : (s.symbol x).name = (t.symbol x).name := by
    unfold Interp.symbol
    rw [ht]
  rw [hname]
  split
  · exact .single (.add id x false nofun)
  · rw [Interp.setNamespace_self]
    exact .refl

/-- Installing a function of the host is a run. -/
theorem Interp.register_run (s : Interp) (f : HostFunction) :
    NamespaceRun False s (s.register f).2 := by
  have hsymbol : NamespaceRun False s (s.systemSymbol f.name).2 := by
    unfold systemSymbol
    split
    · exact .refl
    · exact .single (.define .system f.name true none true nofun)
  let t := (s.systemSymbol f.name).2.allocCallable (.host f)
  let u := t.2.bindGlobal (s.systemSymbol f.name).1 t.1
  have hu : NamespaceRun False s u := hsymbol.trans (.single (.elsewhere rfl))
  exact hu.trans (.spread u (s.systemSymbol f.name).1)

/-! ## Agreement -/

theorem Interp.namespacesKept_initial (limit : Nat) : (initial limit).NamespacesKept tidy := by
  rintro ⟨i⟩
  match i with
  | 0 => exact ⟨fun n x hx => ⟨x, hx⟩, fun _ n x hx => hx⟩
  | 1 | 2 | _ + 3 => exact ⟨nofun, fun _ => nofun⟩

/-- What sessions and installations of host functions do to namespaces are runs, and what tidy
changes do is a tidy run: namespace forms whose exports come last are tidy. After a run, an exported
name resolves inside its namespace. After a tidy run it resolves to the exported symbol, so reading
the plain name there finds that. -/
theorem exported_names_agree (limit : Nat) :
    (∀ t, Session (fun _ => True) (.initial limit) t → NamespaceRun False (.initial limit) t) ∧
    (∀ t f, NamespaceRun False t (t.register f).2) ∧
    (∀ t, Trace (fun u c => c.Tidy u) (.initial limit) t → NamespaceRun True (.initial limit) t) ∧
    ∀ tidy t, NamespaceRun tidy (.initial limit) t → ∀ id n x,
      (t.namespaceAt id).findExported? n = some x →
      (∃ y, (t.namespaceAt id).find? n = some y) ∧
      (tidy → (t.namespaceAt id).find? n = some x ∧ t.internIn id n = .ok (x, t)) := by
  refine ⟨fun t h => h.run, Interp.register_run, fun t h => h.run fun _ _ _ hc => hc,
    fun tidy t h id n x hx => ?_⟩
  have hkept := h.kept (Interp.namespacesKept_initial limit) id
  refine ⟨hkept.resolves n x hx, fun htidy => ?_⟩
  have hfind := hkept.agrees htidy n x hx
  refine ⟨hfind, ?_⟩
  unfold Interp.internIn Namespace.intern
  rw [hfind]
  exact congrArg (fun u => Except.ok (x, u)) (t.setNamespace_self id)

/-- An exported name of a namespace form resolves, and one that is exported when it is defined
resolves to what is exported. -/
theorem defined_export_agrees :
    (∃ t id x y, Session (fun _ => True) (.initial 64) t ∧
      (t.namespaceAt id).findExported? "X" = some x ∧ (t.namespaceAt id).find? "X" = some y) ∧
    ∃ t x, NamespaceRun True (.initial 64) t ∧ (t.namespaceAt .user).findExported? "X" = some x ∧
      t.internIn .user "X" = .ok (x, t) := by
  constructor
  · let t := (Interp.initial 64).afterTexts [(.small, "(namespace \"a\" (export x))")]
    have hsession : Session (fun _ => True) (.initial 64) t := Session.start.afterTexts _
    have hexported : (t.namespaceAt ⟨3⟩).findExported? "X" = some ⟨56⟩ := by decide +kernel
    have hrun := (exported_names_agree 64).1 t hsession
    obtain ⟨y, hfind⟩ := ((exported_names_agree 64).2.2.2 False t hrun ⟨3⟩ "X" ⟨56⟩ hexported).1
    exact ⟨t, ⟨3⟩, ⟨56⟩, y, hsession, hexported, hfind⟩
  · let t := ((Interp.initial 64).defineIn .user "X" false none true).2
    have hrun : NamespaceRun True (.initial 64) t :=
      .single (.define .user "X" false none true fun _ => .inl rfl)
    have hexported : (t.namespaceAt .user).findExported? "X" = some ⟨54⟩ := by decide +kernel
    have hagrees := (exported_names_agree 64).2.2.2 True t hrun .user "X" ⟨54⟩ hexported
    exact ⟨t, ⟨54⟩, hrun, hexported, (hagrees.2 trivial).2⟩

/-- A name that is shadowed after its export stands for another symbol than the exported one. -/
theorem shadowed_export_stale :
    ∃ t id x y, Session (fun _ => True) (.initial 64) t ∧ t.namespaceNamed "A" = .ok id ∧
      (t.namespaceAt id).findExported? "X" = some x ∧ (t.namespaceAt id).find? "X" = some y ∧
      x ≠ y := by
  let t := (Interp.initial 64).afterTexts [(.small, "(namespace \"a\" (export x) (shadow x))")]
  have hexported : (t.namespaceAt ⟨3⟩).findExported? "X" = some ⟨57⟩ := by decide +kernel
  have hfind : (t.namespaceAt ⟨3⟩).find? "X" = some ⟨58⟩ := by decide +kernel
  have hnamed : t.findNamespace? "A" = some ⟨3⟩ := by decide +kernel
  refine ⟨t, ⟨3⟩, ⟨57⟩, ⟨58⟩, Session.start.afterTexts _, ?_, hexported, hfind, by decide⟩
  unfold Interp.namespaceNamed
  rw [hnamed]

end SmallLisp
