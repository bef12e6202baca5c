import SmallLisp.Proofs.PairedForms

/-!
# Operations keep pairings

The actions of the standard library that assign, map, call closures or only compute, and with them
`Pairing.Led.primitive`: every operation leads related states to one answer in related states.
-/

namespace SmallLisp

namespace Pairing.Led

variable {P : Pairing} {hosted : Prop} {s t : Interp}

/-! ## New collections -/

theorem newArray (items : Array Value) (hst : P.rel s t)
    (hitems : P.strict → ∀ v ∈ items, v.Live s) :
    P.Led Value.Live s (.ok (s.allocArray items).1 (s.allocArray items).2)
      (.ok (t.allocArray items).1 (t.allocArray items).2) := by
  have hc : Change.Evaluates P.strict s (.array items) := ⟨nofun, hitems⟩
  obtain ⟨o, -, rfl⟩ := P.apart hst
  refine .changed hst hc fun _ => ?_
  show s.arrays.size < (s.arrays.push items).size
  simp

theorem newDictionary (entries : List (Value × Value)) (hst : P.rel s t)
    (hentries : P.strict → ∀ e ∈ entries, EntryLive s e) :
    P.Led Value.Live s (.ok (s.allocDictionary entries).1 (s.allocDictionary entries).2)
      (.ok (t.allocDictionary entries).1 (t.allocDictionary entries).2) := by
  have hc : Change.Evaluates P.strict s (.dictionary entries) := ⟨nofun, hentries⟩
  obtain ⟨o, -, rfl⟩ := P.apart hst
  refine .changed hst hc fun _ => ?_
  show s.dictionaries.size < (s.dictionaries.push entries).size
  simp

theorem newHashTable (table : Table Value Value) (hst : P.rel s t)
    (htable : P.strict → ∀ e ∈ table.entries, EntryLive s e) :
    P.Led Value.Live s (.ok (s.allocHashTable table).1 (s.allocHashTable table).2)
      (.ok (t.allocHashTable table).1 (t.allocHashTable table).2) := by
  have hc : Change.Evaluates P.strict s (.hashTable table) := ⟨nofun, htable⟩
  obtain ⟨o, -, rfl⟩ := P.apart hst
  refine .changed hst hc fun _ => ?_
  show s.hashTables.size < (s.hashTables.push table).size
  simp

section Evaluator

variable {ev ev' : Evaluators} {context context' : Value}
  (hev : P.Keeps (ev context) (ev' context'))

include hev

/-! ## Assignment and mapping -/

omit hev in
theorem assigned {target key value : Value} (hst : P.rel s t) (hkey : P.strict → key.Live s)
    (hvalue : P.strict → value.Live s) :
    P.Led (fun _ _ => True) s (EvalM.assign target key value s)
      (EvalM.assign target key value t) := by
  obtain ⟨o, -, rfl⟩ := P.apart hst
  unfold EvalM.assign Interp.assign
  rw [ScopeFree.looksBack, ScopeFree.place]
  split
  · exact .aborted .panicked hst
  · cases hplace : s.place target key with
    | error fault => exact .error (.refl hst) fun _ => trivial
    | ok place =>
      have hc : Change.Evaluates P.strict s (.store value place) :=
        ⟨nofun, fun h => ⟨hvalue h, (hkey h).place hplace⟩⟩
      exact .changed hst hc fun _ => trivial

omit hev in
theorem assignElement {arguments value : Value} (hst : P.rel s t)
    (hvalue : P.strict → value.Live s) :
    P.Led Value.Live s (SpecialForm.assignElement arguments value s)
      (SpecialForm.assignElement arguments value t) := by
  refine .read_bind hst (by simp) (.read_bind hst (by simp) ?_)
  exact (assigned hst (fun h => (P.live hst h).second arguments) hvalue).bind
    fun _ u w hu _ => .pure hu.rel (hu.liveValue hvalue)

omit hev in
theorem notAssignable (got : Value) (hst : P.rel s t) :
    P.Led Value.Live s (SpecialForm.notAssignable got s) (SpecialForm.notAssignable got t) :=
  failing hst (by simp)

theorem assignThrough {place form : Value} (hst : P.rel s t) (hform : P.strict → form.Live s) :
    P.Led Value.Live s (SpecialForm.assignThrough ev context place form s)
      (SpecialForm.assignThrough ev' context' place form t) := by
  refine .read_bind hst (by simp) ?_
  refine (Led.form hev hst fun h => (P.live hst h).first place).bind fun operator u w hu _ => ?_
  cases operator with
  | function id =>
    refine .read_bind hu.rel (by simp) ?_
    cases hstore : SpecialForm.assignPlace? (u.callable id) with
    | none => exact notAssignable _ hu.rel
    | some store =>
      refine .read_bind hu.rel (by simp) (.read_bind hu.rel (by simp) ?_)
      split
      · exact failing hu.rel (by simp)
      · refine .read_bind hu.rel (by simp) ?_
        split
        · exact failing hu.rel (by simp)
        · refine (evaluated hev hu.rel).bind fun arguments u' w' hu' _ => ?_
          refine (Led.form hev hu'.rel ((hu.trans hu').liveValue hform)).bind
            fun v u'' w'' hu'' hv => ?_
          rw [SpecialForm.eq_assignElement hstore]
          exact assignElement hu''.rel hv
  | _ => exact notAssignable _ hu.rel

omit hev in
/-- The innermost binding of a symbol is in the same scope of both states. -/
theorem assignSymbol {x : SymbolId} {v : Value} (hst : P.rel s t) (hx : P.strict → x.Bindable s)
    (hv : P.strict → v.Live s) :
    P.Led (fun _ _ => True) s (SpecialForm.assignSymbol x v s)
      (SpecialForm.assignSymbol x v t) := by
  have hholder := P.holder hst x
  unfold SpecialForm.assignSymbol
  rw [hholder]
  cases s.holder? x with
  | none =>
    obtain ⟨o, -, rfl⟩ := P.apart hst
    exact .error (.refl hst) fun _ => trivial
  | some id =>
    have hc : Change.Evaluates P.strict s (.bind id x v) := ⟨nofun, fun h => ⟨hx h, hv h⟩⟩
    exact .changed hst hc fun _ => trivial

theorem assign {arguments : Value} (hst : P.rel s t) :
    P.Led Value.Live s (SpecialForm.assign ev context arguments s)
      (SpecialForm.assign ev' context' arguments t) := by
  have hform : P.strict → (s.second arguments).Live s :=
    fun h => (P.live hst h).second arguments
  refine .read_bind hst (by simp) (.read_bind hst (by simp) ?_)
  cases hplace : s.first arguments with
  | symbol x =>
    refine .read_bind hst (by simp) ?_
    split
    · exact failing hst (by simp)
    next hreserved =>
      have hx : P.strict → x.Bindable s := by
        intro h
        have hlive := (P.live hst h).first arguments
        rw [hplace] at hlive
        exact ⟨hlive, .inl (Bool.eq_false_iff.mpr hreserved)⟩
      refine (Led.form hev hst hform).bind fun v u w hu hv => ?_
      refine (assignSymbol hu.rel (fun h => (hx h).mono hu.extended) hv).bind ?_
      intro _ u' w' hu' _
      exact .pure hu'.rel (hu'.liveValue hv)
  | cons id => exact assignThrough hev hst hform
  | _ => exact notAssignable _ hst

theorem mapEntries {f : FunctionId} {done entries : List (Value × Value)} (hst : P.rel s t)
    (hf : P.strict → (Value.function f).Live s) (hdone : P.strict → ∀ e ∈ done, EntryLive s e)
    (hentries : P.strict → ∀ e ∈ entries, EntryLive s e) :
    P.Led (fun u es => ∀ e ∈ es, EntryLive u e) s
      (Operation.mapEntries ev context f done entries s)
      (Operation.mapEntries ev' context' f done entries t) := by
  induction entries generalizing s t done with
  | nil => exact .pure hst fun h e he => hdone h e (List.mem_reverse.mp he)
  | cons e rest ih =>
    have he : P.strict → EntryLive s e := fun h => hentries h e List.mem_cons_self
    have hrest : P.strict → ∀ e ∈ rest, EntryLive s e :=
      fun h e he => hentries h e (List.mem_cons_of_mem _ he)
    have hpair : P.strict → ∀ v ∈ [e.1, e.2], v.Live s := by
      intro h v hv
      rcases List.mem_cons.mp hv with rfl | hv
      · exact (he h).1
      · rw [List.mem_singleton.mp hv]
        exact (he h).2
    refine (list hst hpair).bind fun arguments u w hu harguments => ?_
    refine (hev (.apply f arguments) u w hu.rel fun h => ?_).bind fun v u' w' hu' hv => ?_
    · exact ⟨hu.liveValue hf h, harguments h⟩
    · have hext : Extends s u' := (hu.trans hu').extended
      refine ih hu'.rel (fun h => (hf h).mono hext) (fun h e' he' => ?_)
        fun h e' he' => (hrest h e' he').mono hext
      rcases List.mem_cons.mp he' with rfl | he'
      · exact ⟨(he h).2.mono hext, hv h⟩
      · exact (hdone h e' he').mono hext

omit hev in
theorem collectLike {target : Value} {pairs : List (Value × Value)} (hst : P.rel s t)
    (hpairs : P.strict → ∀ e ∈ pairs, EntryLive s e) :
    P.Led Value.Live s (Operation.collectLike target pairs s)
      (Operation.collectLike target pairs t) := by
  have hvalues : P.strict → ∀ v ∈ pairs.map (·.2), v.Live s := by
    intro h v hv
    obtain ⟨e, he, rfl⟩ := List.mem_map.mp hv
    exact (hpairs h e he).2
  unfold Operation.collectLike
  split
  · exact newArray _ hst fun h v hv => hvalues h v (List.mem_toArray.mp hv)
  · have hentries : P.strict → ∀ e ∈ pairs.foldl (fun acc e => s.assignEntry acc e.1 e.2) [],
        EntryLive s e := by
      intro h
      refine List.foldlRecOn (motive := fun acc => ∀ e ∈ acc, EntryLive s e) pairs _ nofun ?_
      exact fun acc hacc e he => EntryLive.assignEntry hacc (hpairs h e he).1 (hpairs h e he).2
    have hled := newDictionary _ hst hentries
    obtain ⟨o, -, rfl⟩ := P.apart hst
    have hsame : (s.under o).assignEntry = s.assignEntry := by
      funext entries key value
      exact ScopeFree.assignEntry s o entries key value
    show P.Led Value.Live s _ (.ok ((s.under o).allocDictionary
      (pairs.foldl (fun acc e => (s.under o).assignEntry acc e.1 e.2) [])).1 _)
    rw [hsame]
    exact hled
  · refine newHashTable _ hst fun h => ?_
    refine List.foldlRecOn (motive := fun acc : Table Value Value =>
      ∀ e ∈ acc.entries, EntryLive s e) pairs _ (fun _ he => absurd he List.not_mem_nil) ?_
    intro acc hacc e he e' he'
    rcases Table.mem_insert he' with rfl | he'
    · exact hpairs h e he
    · exact hacc e' he'
  · exact list hst hvalues

theorem map {arguments : Value} (hst : P.rel s t) :
    P.Led Value.Live s (Operation.map ev context arguments s)
      (Operation.map ev' context' arguments t) := by
  refine .read_bind hst (by simp) (.read_bind hst (by simp) ?_)
  cases hentries : s.entries (s.first arguments) with
  | error fault => exact failing hst (by simp)
  | ok entries =>
    refine .read_bind hst (by simp) ?_
    cases hf : s.second arguments with
    | function f =>
      have hlive : P.strict → (Value.function f).Live s :=
        fun h => hf ▸ (P.live hst h).second arguments
      refine (mapEntries hev hst hlive (fun _ _ he => absurd he List.not_mem_nil)
        fun h => (P.live hst h).entries hentries).bind fun pairs u w hu hpairs => ?_
      exact collectLike hu.rel hpairs
    | _ => exact .fail _ hst

end Evaluator

/-! ## Operations that evaluate nothing -/

theorem makeFunction (expands : Bool) {operator : String} {arguments : Value} (hst : P.rel s t) :
    P.Led Value.Live s
      (SpecialForm.makeFunction operator (.ofClosure expands) arguments s)
      (SpecialForm.makeFunction operator (.ofClosure expands) arguments t) := by
  have hxs : P.strict → ∀ xs, SpecialForm.parameterList operator s arguments = .ok xs →
      ∀ x ∈ xs, x.Live s ∧ (s.symbol x).reserved = false :=
    fun h _ => (P.live hst h).parameterList
  obtain ⟨o, -, rfl⟩ := P.apart hst
  unfold SpecialForm.makeFunction
  rw [ScopeFree.parameterList]
  cases hparameters : SpecialForm.parameterList operator s arguments with
  | error fault => exact .error (.refl hst) fun _ => trivial
  | ok xs =>
    have hc : Change.Evaluates P.strict s (.function expands xs arguments) :=
      ⟨nofun, fun h => hxs h xs hparameters⟩
    refine .changed hst hc fun _ => ?_
    show s.callables.size < (s.callables.push _).size
    simp

theorem gensym (hst : P.rel s t) :
    P.Led Value.Live s (SpecialForm.gensym s) (SpecialForm.gensym t) := by
  have hc : Change.Evaluates P.strict s .generate := ⟨nofun, fun _ => trivial⟩
  obtain ⟨o, -, rfl⟩ := P.apart hst
  refine .changed hst hc fun _ => ?_
  show s.symbols.size < (s.symbols.push _).size
  simp

theorem internKeyword {name : String} (hst : P.rel s t) :
    P.Led SymbolId.Live s (EvalM.namespaceStep (fun s => s.internKeyword name) s)
      (EvalM.namespaceStep (fun s => s.internKeyword name) t) := by
  have hc : Change.Evaluates P.strict s (.keyword name) := ⟨nofun, fun _ => trivial⟩
  have hlive : P.strict → ∀ x u, s.internKeyword name = .ok (x, u) → x.Live u :=
    fun h x u hx => ((P.live hst h).internKeyword hx).2
  have hanswer : (t.internKeyword name).map Prod.fst = (s.internKeyword name).map Prod.fst := by
    obtain ⟨o, -, rfl⟩ := P.apart hst
    exact ScopeFree.internKeyword s o name
  rw [EvalM.namespaceStep_apply, EvalM.namespaceStep_apply]
  exact concluded (f := fun u => u.internKeyword name) id .namespaces hst rfl rfl hanswer hc hlive

theorem typeOf {arguments : Value} (hst : P.rel s t) :
    P.Led Value.Live s (Operation.typeOf arguments s) (Operation.typeOf arguments t) :=
  .read_bind hst (by simp) <| (internKeyword hst).bind fun _ _ _ hu hx => .pure hu.rel hx

/-- The answer of an operation on namespaces that one change carries out. -/
theorem answer {operation : Interp → Value → Except Fault (NamespaceId × Interp)} {c : Change}
    {arguments : Value} (hst : P.rel s t) (hs : c.apply s = s.resultOf (operation s arguments))
    (ht : c.apply t = t.resultOf (operation t arguments)) (hc : c.Evaluates P.strict s)
    (hfree : ∀ o, operation (s.under o) arguments =
      (operation s arguments).map (ScopeFree.rebound o))
    (hlive : ∀ id u, operation s arguments = .ok (id, u) → id.index < u.namespaces.size) :
    P.Led Value.Live s (NamespaceForm.answer operation arguments s)
      (NamespaceForm.answer operation arguments t) := by
  have hanswer : (operation t arguments).map Prod.fst = (operation s arguments).map Prod.fst := by
    obtain ⟨o, -, rfl⟩ := P.apart hst
    rw [hfree o]
    cases operation s arguments <;> rfl
  rw [NamespaceForm.answer_apply, NamespaceForm.answer_apply]
  exact concluded (f := fun u => operation u arguments) Value.names id hst hs ht hanswer hc
    fun _ id u h => hlive id u h

theorem defineNamespace {arguments : Value} (hst : P.rel s t) :
    P.Led Value.Live s (NamespaceForm.answer NamespaceForm.create arguments s)
      (NamespaceForm.answer NamespaceForm.create arguments t) := by
  have hc : Change.Evaluates P.strict s (.create arguments) := ⟨nofun, fun _ => trivial⟩
  refine answer (c := .create arguments) hst rfl rfl hc (fun o => ScopeFree.create s o arguments) ?_
  intro id u h
  obtain ⟨name, es, symbols, rfl, -, -, -, rfl⟩ := NamespaceForm.create_cases h
  simp

/-- An operation on the namespace that the first argument names. -/
theorem onNamed {operation : Interp → String → Except NamespaceFault (NamespaceId × Interp)}
    (change : String → Change) {arguments : Value} (hst : P.rel s t)
    (hchange : ∀ name u, (change name).apply u = u.resultOf (operation u name))
    (hc : ∀ name, (change name).Evaluates P.strict s)
    (hfree : ∀ name o, operation (s.under o) name =
      (operation s name).map (ScopeFree.rebound o))
    (hlive : ∀ name id u, operation s name = .ok (id, u) → id.index < u.namespaces.size) :
    P.Led Value.Live s (NamespaceForm.answer (NamespaceForm.onNamed operation) arguments s)
      (NamespaceForm.answer (NamespaceForm.onNamed operation) arguments t) := by
  have hname : NamespaceForm.nameOf t (t.first arguments) =
      NamespaceForm.nameOf s (s.first arguments) := by
    obtain ⟨o, -, rfl⟩ := P.apart hst
    simp
  unfold NamespaceForm.answer NamespaceForm.onNamed
  rw [hname]
  cases NamespaceForm.nameOf s (s.first arguments) with
  | error fault => exact .error (.refl hst) fun _ => trivial
  | ok name =>
    have hanswer : (operation t name).map Prod.fst = (operation s name).map Prod.fst := by
      obtain ⟨o, -, rfl⟩ := P.apart hst
      rw [hfree name o]
      cases operation s name <;> rfl
    have hled : P.Led Value.Live s (concluding Value.names .namespaces s (operation s name))
        (concluding Value.names .namespaces t (operation t name)) :=
      concluded (f := fun u => operation u name) Value.names .namespaces hst (hchange name s)
        (hchange name t) hanswer (hc name) fun _ id u h => hlive name id u h
    unfold concluding at hled
    dsimp only at hled ⊢
    generalize operation s name = r at hled ⊢
    generalize operation t name = r' at hled ⊢
    cases r <;> cases r' <;> exact hled

theorem inNamespace {arguments : Value} (hst : P.rel s t) :
    P.Led Value.Live s
      (NamespaceForm.answer (NamespaceForm.onNamed Interp.changeNamespace) arguments s)
      (NamespaceForm.answer (NamespaceForm.onNamed Interp.changeNamespace) arguments t) := by
  refine onNamed .select hst (fun _ _ => rfl)
    (fun _ => ⟨nofun, fun _ => trivial⟩) (fun name o => ScopeFree.changeNamespace s o name) ?_
  intro name id u h
  unfold Interp.changeNamespace at h
  split at h
  · cases h
  next id' hnamed =>
    split at h
    · cases h
      exact Interp.namespaceNamed_lt hnamed
    · cases h

theorem useNamespace {arguments : Value} (hst : P.rel s t) :
    P.Led Value.Live s (NamespaceForm.answer (NamespaceForm.onNamed Interp.useNamed) arguments s)
      (NamespaceForm.answer (NamespaceForm.onNamed Interp.useNamed) arguments t) := by
  refine onNamed .use hst (fun _ _ => rfl)
    (fun _ => ⟨nofun, fun _ => trivial⟩) (fun name o => ScopeFree.useNamed s o name) ?_
  intro name id u h
  unfold Interp.useNamed at h
  split at h
  · cases h
  next id' hnamed =>
    have hlt := Interp.namespaceNamed_lt hnamed
    cases h
    split
    · exact hlt
    · exact Nat.lt_of_lt_of_eq hlt Array.size_setIfInBounds.symm

theorem makeArray {arguments : Value} (hst : P.rel s t) :
    P.Led Value.Live s (Operation.makeArray arguments s) (Operation.makeArray arguments t) := by
  have hled := fun size => newArray (Array.replicate size (s.second arguments)) hst
  obtain ⟨o, -, rfl⟩ := P.apart hst
  unfold Operation.makeArray
  simp only [ScopeFree.sizeOf, ScopeFree.second]
  cases Operation.sizeOf s arguments with
  | error fault => exact .error (.refl hst) fun _ => trivial
  | ok size =>
    refine hled size fun h v hv => ?_
    rw [(Array.mem_replicate.mp hv).2]
    exact (P.live hst h).second arguments

theorem pairOf_live {collection : String} {v key value : Value} (hs : s.LiveUnder hosted)
    (h : Operation.pairOf collection s v = .ok (key, value)) : key.Live s ∧ value.Live s := by
  unfold Operation.pairOf at h
  split at h
  next hitems =>
    cases h
    unfold Interp.properElements? at hitems
    split at hitems
    · have hlive := hs.elementsOf v
      rw [Option.some.inj hitems] at hlive
      exact ⟨hlive key (by simp), hlive value (by simp)⟩
    · cases hitems
  next => cases h

theorem fillEntries_live {entries es : List (Value × Value)} {vs : List Value}
    (hs : s.LiveUnder hosted) (hentries : ∀ e ∈ entries, EntryLive s e)
    (h : Operation.fillEntries s entries vs = .ok es) : ∀ e ∈ es, EntryLive s e := by
  induction vs generalizing entries with
  | nil =>
    cases h
    exact hentries
  | cons v rest ih =>
    unfold Operation.fillEntries at h
    split at h
    · cases h
    next key value hpair =>
      obtain ⟨hkey, hvalue⟩ := pairOf_live hs hpair
      exact ih (EntryLive.assignEntry hentries hkey hvalue) h

theorem fillHashed_live {table table' : Table Value Value} {vs : List Value}
    (hs : s.LiveUnder hosted) (htable : ∀ e ∈ table.entries, EntryLive s e)
    (h : Operation.fillHashed s table vs = .ok table') : ∀ e ∈ table'.entries, EntryLive s e := by
  induction vs generalizing table with
  | nil =>
    cases h
    exact htable
  | cons v rest ih =>
    unfold Operation.fillHashed at h
    split at h
    · cases h
    next key value hpair =>
      obtain ⟨hkey, hvalue⟩ := pairOf_live hs hpair
      split at h
      · cases h
      next hassign =>
        refine ih (fun e he => ?_) h
        unfold Interp.assignHashed at hassign
        split at hassign
        · cases hassign
          rcases Table.mem_insert he with rfl | he
          · exact ⟨hkey, hvalue⟩
          · exact htable e he
        · cases hassign

theorem dictionary {arguments : Value} (hst : P.rel s t) :
    P.Led Value.Live s (Operation.dictionary arguments s) (Operation.dictionary arguments t) := by
  have hled := fun entries => newDictionary entries hst
  obtain ⟨o, -, rfl⟩ := P.apart hst
  unfold Operation.dictionary
  simp only [ScopeFree.fillEntries, ScopeFree.elementsOf]
  cases hfill : Operation.fillEntries s [] (s.elementsOf arguments) with
  | error fault => exact .error (.refl hst) fun _ => trivial
  | ok entries =>
    exact hled entries fun h =>
      fillEntries_live (P.live hst h) (fun _ he => absurd he List.not_mem_nil) hfill

theorem hashTable {arguments : Value} (hst : P.rel s t) :
    P.Led Value.Live s (Operation.hashTable arguments s) (Operation.hashTable arguments t) := by
  have hled := fun table => newHashTable table hst
  obtain ⟨o, -, rfl⟩ := P.apart hst
  unfold Operation.hashTable
  simp only [ScopeFree.fillHashed, ScopeFree.elementsOf]
  cases hfill : Operation.fillHashed s .empty (s.elementsOf arguments) with
  | error fault => exact .error (.refl hst) fun _ => trivial
  | ok table =>
    exact hled table fun h =>
      fillHashed_live (P.live hst h) (fun _ he => absurd he List.not_mem_nil) hfill

theorem array {arguments : Value} (hst : P.rel s t) :
    P.Led Value.Live s (Operation.array arguments s) (Operation.array arguments t) := by
  have hled := newArray (s.elementsOf arguments).toArray hst fun h v hv =>
    (P.live hst h).elementsOf arguments v (List.mem_toArray.mp hv)
  obtain ⟨o, -, rfl⟩ := P.apart hst
  show P.Led Value.Live s _ (.ok
    ((s.under o).allocArray ((s.under o).elementsOf arguments).toArray).1 _)
  rw [ScopeFree.elementsOf]
  exact hled

theorem pair {arguments : Value} (hst : P.rel s t) :
    P.Led Value.Live s (Operation.cons arguments s) (Operation.cons arguments t) :=
  .read_bind hst (by simp) <| .read_bind hst (by simp) <|
    cons hst (fun h => (P.live hst h).first arguments) fun h => (P.live hst h).second arguments

theorem half {operator : String} {part : Interp → CellId → Value} {arguments : Value}
    (hst : P.rel s t) (hpart : ∀ o id, part (s.under o) id = part s id)
    (hlive : P.strict → ∀ id, (part s id).Live s) :
    P.Led Value.Live s (Operation.half operator part arguments s)
      (Operation.half operator part arguments t) := by
  refine query hst (by simp [hpart]) fun h v hv => ?_
  split at hv
  · cases hv
    trivial
  next id _ =>
    cases hv
    exact hlive h id
  · cases hv

theorem element {arguments : Value} (hst : P.rel s t) :
    P.Led Value.Live s (Operation.element arguments s) (Operation.element arguments t) :=
  query hst (by simp) fun h _ hv => (P.live hst h).access hv

theorem length {arguments : Value} (hst : P.rel s t) :
    P.Led Value.Live s (Operation.length arguments s) (Operation.length arguments t) := by
  refine query hst (by simp) fun _ v hv => ?_
  obtain ⟨n, -, rfl⟩ := ok_of_map hv
  trivial

theorem arithmetic (op : Arithmetic) {arguments : Value} (hst : P.rel s t) :
    P.Led Value.Live s (Operation.arithmetic op arguments s)
      (Operation.arithmetic op arguments t) := by
  refine query hst (by simp) fun _ v hv => ?_
  obtain ⟨n, -, rfl⟩ := ok_of_map hv
  trivial

theorem comparison (op : Comparison) {arguments : Value} (hst : P.rel s t) :
    P.Led Value.Live s (Operation.comparison op arguments s)
      (Operation.comparison op arguments t) := by
  refine query hst (by simp) fun _ v hv => ?_
  split at hv
  · cases hv
  · obtain ⟨answer, -, rfl⟩ := ok_of_map hv
    exact Value.live_ofBool answer

theorem extremum (op : Extremum) {arguments : Value} (hst : P.rel s t) :
    P.Led Value.Live s (Operation.extremum op arguments s)
      (Operation.extremum op arguments t) := by
  refine query hst (by simp) fun _ v hv => ?_
  split at hv
  · cases hv
  · obtain ⟨n, -, rfl⟩ := ok_of_map hv
    trivial

/-! ## Exits -/

theorem exit {signal : Signal} (hst : P.rel s t)
    (hsignal : P.strict → Flow.Live s (.signal signal)) :
    P.Led Value.Live s (EvalM.exit signal s) (EvalM.exit signal t) :=
  .error (.refl hst) hsignal

theorem returnValue {arguments : Value} (hst : P.rel s t) :
    P.Led Value.Live s (Operation.returnValue arguments s)
      (Operation.returnValue arguments t) := by
  refine .read_bind hst (fun _ => rfl) ?_
  split
  · exact .fail _ hst
  · exact .read_bind hst (by simp) (exit hst fun h => (P.live hst h).first arguments)

theorem throwText {arguments : Value} (hst : P.rel s t) :
    P.Led Value.Live s (Operation.throwText arguments s) (Operation.throwText arguments t) := by
  refine .read_bind hst (fun _ => rfl) ?_
  split
  · exact .fail _ hst
  · refine .read_bind hst (by simp) ?_
    cases s.first arguments with
    | string text => exact exit hst fun _ => trivial
    | _ => exact .fail _ hst

theorem breakLoop (hst : P.rel s t) :
    P.Led Value.Live s (SpecialForm.breakLoop s) (SpecialForm.breakLoop t) := by
  refine .read_bind hst (fun _ => rfl) ?_
  split
  · exact .fail _ hst
  · exact exit hst fun _ => trivial

/-! ## Operations of the standard library -/

theorem primitive {ev ev' : Evaluators} {context context' : Value}
    (hev : P.Keeps (ev context) (ev' context')) {n : Nat} {arguments : Value} (op : Primitive)
    (hst : P.rel s t) (harguments : P.strict → arguments.Live s) :
    P.Led Value.Live s (op.run ev context n arguments s) (op.run ev' context' n arguments t) := by
  have hfirst : P.strict → (s.first arguments).Live s := fun h => (P.live hst h).first arguments
  have hcar : P.strict → ∀ id, (s.car id).Live s := fun h id => (P.live hst h).car id
  have hcdr : P.strict → ∀ id, (s.cdr id).Live s := fun h id => (P.live hst h).cdr id
  have hread : ∀ f : Interp → Value, (∀ o, f (s.under o) = f s) →
      (P.strict → (f s).Live s) → P.Led Value.Live s (EvalM.read f s) (EvalM.read f t) :=
    fun _ hf hlive => .read hst hf hlive
  cases op with
  | quote => exact hread (fun u => u.first arguments) (by simp) hfirst
  | backquote => exact backquote hev hst
  | unquote => exact hread (fun u => u.first arguments) (by simp) hfirst
  | splice => exact hread (fun u => u.first arguments) (by simp) hfirst
  | makeLambda => exact makeFunction false hst
  | makeMacro => exact makeFunction true hst
  | bindVariable => exact bindVariable hev hst
  | assign => exact assign hev hst
  | scope => exact scope hev hst
  | gensym => exact gensym hst
  | choose => exact choose hev hst
  | sequence => exact body hev hst
  | sequenceDo => exact body hev hst
  | conjunction => exact conjunction hev hst
  | disjunction => exact disjunction hev hst
  | loop => exact loop hev hst
  | guarded => exact guarded hev hst
  | breakLoop => exact breakLoop hst
  | returnValue => exact returnValue hst
  | throwText => exact throwText hst
  | defineNamespace => exact defineNamespace hst
  | inNamespace => exact inNamespace hst
  | useNamespace => exact useNamespace hst
  | list => exact .pure hst harguments
  | car => exact half hst (by simp) hcar
  | cdr => exact half hst (by simp) hcdr
  | cons => exact pair hst
  | evaluate => exact .read_bind hst (by simp) (form hev hst hfirst)
  | not =>
    exact hread (fun u => .ofBool (u.first arguments).isNil) (by simp)
      fun _ => Value.live_ofBool _
  | eql =>
    exact hread (fun u => .ofBool (u.first arguments = u.second arguments)) (by simp)
      fun _ => Value.live_ofBool _
  | equal =>
    exact hread (fun u => .ofBool (u.equal (u.first arguments) (u.second arguments))) (by simp)
      fun _ => Value.live_ofBool _
  | typeOf => exact typeOf hst
  | element => exact element hst
  | array => exact array hst
  | makeArray => exact makeArray hst
  | dictionary => exact dictionary hst
  | hashTable => exact hashTable hst
  | length => exact length hst
  | map => exact map hev hst
  | add => exact arithmetic _ hst
  | subtract => exact arithmetic _ hst
  | multiply => exact arithmetic _ hst
  | divide => exact arithmetic _ hst
  | remainder => exact arithmetic _ hst
  | less => exact comparison _ hst
  | lessEqual => exact comparison _ hst
  | greater => exact comparison _ hst
  | greaterEqual => exact comparison _ hst
  | max => exact extremum _ hst
  | min => exact extremum _ hst

end Pairing.Led

end SmallLisp
