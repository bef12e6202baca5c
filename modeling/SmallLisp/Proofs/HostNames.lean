import SmallLisp.Proofs.Reserved
import SmallLisp.Proofs.TableOperations

/-!
# Functions of the host are visible everywhere

The host may install functions between the forms that it has evaluated. The namespace of the
standard library grows by them, but it stays locked and uses no other namespace, so it exports all
that it interns, its symbols are reserved, and they stand under their own names. Hence installing a
function under a name that is taken keeps the symbol, no program can bind the symbol, and only the
host can give it another value.

The programs of the host are honest: a host that holds references to objects can not make one up.
-/

namespace SmallLisp

open NamespaceForm (Draft)

variable {admits : HostFunction → Prop} {s t u v : Interp} {f : HostFunction} {x : SymbolId}
  {name n : String}

/-! ## Forms and installations -/

/-- `t` is left by forms, each on a machine with an honest host, and by installations of admitted
functions, one after the other from `s` on. -/
inductive Embedding (admits : HostFunction → Prop) (s : Interp) : Interp → Prop
  | start : Embedding admits s s
  | form {t : Interp} (before : Embedding admits s t) (m : Machine) (hhosts : m.hosts.Honest)
      (d : Datum) : Embedding admits s ((m.evaluateDatum d).final t)
  | install {t : Interp} (before : Embedding admits s t) (f : HostFunction) (hf : admits f) :
      Embedding admits s (t.register f).2

namespace Embedding

theorem text (h : Embedding admits s t) (m : Machine) (hhosts : m.hosts.Honest) (source : String) :
    Embedding admits s ((m.evaluateText source).final t) :=
  m.evaluateText_preserves source (fun _ _ d _ _ before => .form before m hhosts d) h

end Embedding

/-! ## The library with what the host has installed -/

/-- A reserved symbol of this name. -/
structure Interp.Reserves (s : Interp) (name : String) (x : SymbolId) : Prop where
  live : x.Live s
  name : (s.symbol x).name = name
  reserved : (s.symbol x).reserved = true

theorem Interp.Reserves.mono (h : s.Reserves name x) (hext : Extends s u) : u.Reserves name x := by
  have hsame := hext.symbol x h.live
  exact ⟨Nat.lt_of_lt_of_le h.live hext.symbols, hsame ▸ h.name, hsame ▸ h.reserved⟩

/-- The namespace of the standard library is locked and uses no other, it exports all that it
interns, and its symbols are reserved ones. -/
structure Interp.HasLibrary (s : Interp) : Prop where
  name : (s.namespaceAt .system).name = systemName
  locked : (s.namespaceAt .system).canIntern = false
  uses : (s.namespaceAt .system).uses = []
  exports : ∀ n, (s.namespaceAt .system).findExported? n = (s.namespaceAt .system).find? n
  symbols : ∀ n x, (s.namespaceAt .system).find? n = some x → s.Reserves n x
  current : (s.namespaceAt s.current).canIntern = true

namespace Interp.HasLibrary

theorem system_exists (h : s.HasLibrary) : NamespaceId.system.index < s.namespaces.size :=
  Nat.zero_lt_of_lt (lt_of_canIntern h.current)

theorem findNamespace?_system (h : s.HasLibrary) :
    s.findNamespace? systemName = some .system := by
  refine Option.map_eq_some_iff.mpr ⟨0, ?_, rfl⟩
  refine Array.findIdx?_eq_some_iff_getElem.mpr ⟨h.system_exists, ?_, nofun⟩
  have hname := h.name
  unfold namespaceAt at hname
  rw [Array.getElem?_eq_getElem h.system_exists] at hname
  exact beq_iff_eq.mpr hname

/-- Whatever leaves the namespace of the library alone and opens none that is locked. -/
theorem of_system_eq (h : s.HasLibrary) (hext : Extends s u)
    (hsystem : u.namespaceAt .system = s.namespaceAt .system)
    (hcurrent : (u.namespaceAt u.current).canIntern = true) : u.HasLibrary where
  name := hsystem ▸ h.name
  locked := hsystem ▸ h.locked
  uses := hsystem ▸ h.uses
  exports := hsystem ▸ h.exports
  symbols := fun n x hx => (h.symbols n x (hsystem ▸ hx)).mono hext
  current := hcurrent

/-- Changes do not reach the library. -/
theorem along {law : Law} (h : s.HasLibrary) (htrace : Trace law s t) :
    t.HasLibrary ∧ t.namespaceAt .system = s.namespaceAt .system := by
  let Kept (u : Interp) : Prop := u.HasLibrary ∧ u.namespaceAt .system = s.namespaceAt .system
  refine htrace.preserves (I := Kept) (fun u c _ hu => ?_) (fun u chain depths active hu => ?_)
    ⟨h, rfl⟩
  · obtain ⟨hlibrary, hsame⟩ := hu
    have hkept := c.namespaceAt_locked hlibrary.system_exists hlibrary.locked hlibrary.current
    exact ⟨hlibrary.of_system_eq (c.extended u) hkept (c.current_open hlibrary.current),
      hkept.trans hsame⟩
  · have hext : Extends u (u.withFrames chain depths active) :=
      .outside rfl rfl rfl rfl rfl rfl rfl
    exact ⟨hu.1.of_system_eq hext rfl hu.1.current, hu.2⟩

end Interp.HasLibrary

theorem Interp.hasLibrary_initial (limit : Nat) : (initial limit).HasLibrary where
  name := rfl
  locked := rfl
  uses := rfl
  exports := fun _ => rfl
  symbols := by
    have hall : ∀ e ∈ systemTable.entries, e.2.index < systemSymbols.length ∧
        ((systemSymbols[e.2.index]?).getD default).name = e.1 ∧
        ((systemSymbols[e.2.index]?).getD default).reserved = true := by
      decide +kernel
    intro n x hx
    obtain ⟨hlive, hname, hreserved⟩ := hall _ (Table.mem_of_find? hx)
    have hsymbol : (initial limit).symbol x = (systemSymbols[x.index]?).getD default := by
      show (systemSymbols.toArray[x.index]?).getD default = _
      rw [List.getElem?_toArray]
    exact ⟨Nat.lt_of_lt_of_eq hlive List.size_toArray.symm, hsymbol ▸ hname, hsymbol ▸ hreserved⟩
  current := rfl

/-! ## Installing a function -/

namespace Interp

theorem systemSymbol_extended (s : Interp) (name : String) :
    Extends s (s.systemSymbol name).2 := by
  rcases s.systemSymbol_cases name with ⟨-, heq⟩ | ⟨-, heq⟩
  · rw [heq]
    exact .refl s
  · rw [heq]
    exact .objects rfl (.push trivial s.symbols) (by simp [defineIn, commit, setNamespace])

/-- The symbol of a function is one of the library from then on. No name there is lost, nor does it
change its symbol. -/
theorem HasLibrary.systemSymbol (h : s.HasLibrary) (name : String) :
    (s.systemSymbol name).2.HasLibrary ∧
      ((s.systemSymbol name).2.namespaceAt .system).find? name = some (s.systemSymbol name).1 ∧
      ∀ n x, (s.namespaceAt .system).find? n = some x →
        ((s.systemSymbol name).2.namespaceAt .system).find? n = some x := by
  have hext := s.systemSymbol_extended name
  rcases s.systemSymbol_cases name with ⟨hfind, heq⟩ | ⟨hnone, heq⟩
  · rw [heq]
    exact ⟨h, hfind, fun _ _ hx => hx⟩
  · rw [heq] at hext ⊢
    let put := Edit.put name ⟨s.symbols.size⟩ true
    have hsystem : (s.defineIn .system name true none true).2.namespaceAt .system =
        put.apply (s.namespaceAt .system) := by
      show (setNamespace _ .system _).namespaceAt .system = _
      rw [namespaceAt_setNamespace, if_pos ⟨rfl, h.system_exists⟩]
      rfl
    have hfind : ∀ n, (put.apply (s.namespaceAt .system)).find? n =
        if name = n then some ⟨s.symbols.size⟩ else (s.namespaceAt .system).find? n := by
      intro n
      rw [Edit.find?_apply]
      by_cases hn : name = n <;> simp [put, Edit.places, hn]
    obtain ⟨hname, hcan, -⟩ := Edit.header_apply (s.namespaceAt .system) put
    refine ⟨⟨?_, ?_, ?_, fun n => ?_, fun n x hx => ?_, ?_⟩, ?_, fun n x hx => ?_⟩
    · rw [hsystem, hname, h.name]
    · rw [hsystem, hcan, h.locked]
    · rw [hsystem]
      exact h.uses
    · rw [hsystem, hfind, Edit.findExported?_put, h.exports]
      simp
    · rw [hsystem, hfind] at hx
      split at hx
      next hn =>
        cases hx
        subst hn
        have hnew : (s.defineIn .system name true none true).2.symbol ⟨s.symbols.size⟩ =
            Symbol.named name true none := by
          simp [defineIn, commit, Namespace.define, SymbolStore.create, symbol, setNamespace]
        exact ⟨by simp [SymbolId.Live, defineIn, commit, Namespace.define, SymbolStore.create,
          setNamespace], by rw [hnew]; rfl, by rw [hnew]; rfl⟩
      next => exact (h.symbols n x hx).mono hext
    · show ((setNamespace _ .system _).namespaceAt s.current).canIntern = true
      rw [namespaceAt_setNamespace, if_neg fun heq => ?_]
      · exact h.current
      · have hopen := h.current
        rw [← heq.1, h.locked] at hopen
        cases hopen
    · rw [hsystem, hfind, if_pos rfl]
      rfl
    · have hname : name ≠ n := by
        rintro rfl
        rw [hnone] at hx
        cases hx
      rw [hsystem, hfind, if_neg hname, hx]

theorem installAt_extended (s : Interp) (x : SymbolId) (f : HostFunction) :
    Extends s (s.installAt x f) :=
  .objects rfl (.refl _) ⟨Nat.le_refl _, Nat.le_refl _, Nat.le_refl _,
    Nat.le_of_lt (by simp [installAt, bindGlobal, bindIn, allocCallable]),
    Nat.le_of_eq Array.size_map.symm⟩

theorem register_extended (s : Interp) (f : HostFunction) : Extends s (s.register f).2 :=
  (s.systemSymbol_extended f.name).trans (installAt_extended _ _ f)

theorem callable_installAt (s : Interp) (x : SymbolId) (f : HostFunction) (id : FunctionId) :
    (s.installAt x f).callable id =
      if id.index = s.callables.size then .host f else s.callable id := by
  show ((s.callables.push (.host f))[id.index]?).getD _ = _
  rw [Array.getElem?_push]
  split <;> rfl

theorem scope_installAt (s : Interp) (x : SymbolId) (f : HostFunction) (id : ScopeId) :
    (s.installAt x f).scope id = s.scope id ∨ id = .global ∧
      (s.installAt x f).scope id = (s.scope id).insert x (.function ⟨s.callables.size⟩) := by
  rcases s.scope_bindIn .global id x (.function ⟨s.callables.size⟩) with hsame | ⟨rfl, hbound⟩
  · exact .inl hsame
  · exact .inr ⟨rfl, hbound⟩

theorem find?_scope_installAt (hsize : ScopeId.global.index < s.scopes.size) (x : SymbolId)
    (f : HostFunction) :
    ((s.installAt x f).scope .global).find? x = some (.function ⟨s.callables.size⟩) := by
  have hscope : (s.installAt x f).scope .global =
      (s.scope .global).insert x (.function ⟨s.callables.size⟩) := by
    show (s.bindIn .global x _).scope .global = _
    unfold bindIn scope
    rw [Array.getElem?_modify, if_pos rfl, Array.getElem?_eq_getElem hsize]
    rfl
  rw [hscope]
  exact Table.find?_insert_self ..

/-- The library stays as it is where its symbols are bound. -/
theorem HasLibrary.installAt (h : s.HasLibrary) (x : SymbolId) (f : HostFunction) :
    (s.installAt x f).HasLibrary ∧
      (s.installAt x f).namespaceAt .system = s.namespaceAt .system := by
  have hsystem : (s.installAt x f).namespaceAt .system = s.namespaceAt .system := by
    rw [namespaceAt_installAt, h.uses]
    rfl
  refine ⟨h.of_system_eq (s.installAt_extended x f) hsystem ?_, hsystem⟩
  show ((s.installAt x f).namespaceAt s.current).canIntern = true
  rw [namespaceAt_installAt]
  split
  · exact (Edit.header_apply _ _).2.1.trans h.current
  · exact h.current

/-- The namespaces that use the library find the symbol under its name. -/
theorem Reserves.find?_installAt (h : s.Reserves name x) (f : HostFunction) {id : NamespaceId}
    (huses : systemName ∈ ((s.installAt x f).namespaceAt id).uses) :
    ((s.installAt x f).namespaceAt id).find? name = some x := by
  rw [namespaceAt_installAt] at huses ⊢
  split at huses
  next hused =>
    rw [if_pos hused, h.name, Edit.find?_apply]
    simp [Edit.places]
  next hunused => exact absurd huses hunused

end Interp

/-! ## Reserved symbols stay reserved -/

theorem Interp.LiveUnder.installAt (hs : s.LiveUnder True) (hx : x.Live s) (f : HostFunction) :
    (s.installAt x f).LiveUnder True := by
  have hext : Extends s (s.installAt x f) := s.installAt_extended x f
  refine hs.extend hext ?_
  constructor
  case callables =>
    intro g hg
    rcases mem_of_mem_push hg with hold | rfl
    · exact .inl hold
    · exact .inr trivial
  case scopes =>
    intro scope hscope
    replace hscope : scope ∈ s.scopes.modify ScopeId.global.index fun b =>
      b.insert x (.function ⟨s.callables.size⟩) := hscope
    rcases mem_of_mem_modify hscope with hold | ⟨old, hold, rfl⟩
    · exact .inl hold
    · refine .inr fun e he => ?_
      rcases Table.mem_insert he with rfl | he
      · have hnew : s.callables.size < (s.callables.push (.host f)).size := by simp
        exact ⟨hx, hnew⟩
      · exact (hs.scopes old hold e he).mono hext
  case namespaces =>
    intro ns hns
    obtain ⟨old, hold, rfl⟩ := Array.mem_map.mp hns
    have hwithin := hs.namespaces old hold
    refine .inr ?_
    split
    · exact Edit.within_apply (e := .put _ x false) hwithin hx
    · exact hwithin
  all_goals exact fun _ h => .inl h

/-- A function of the host is no closure, and only the global scope gains a binding. -/
theorem Interp.Guarded.installAt (h : s.Guarded True) (hx : x.Live s) (f : HostFunction) :
    (s.installAt x f).Guarded True where
  live := h.live.installAt hx f
  scopes := Nat.lt_of_lt_of_eq h.scopes Array.size_modify.symm
  keywords := h.keywords
  inside := by
    rintro y ⟨id, v, hid, hv⟩ hprotected
    rcases s.scope_installAt x f id with hsame | ⟨hglobal, -⟩
    · rw [hsame] at hv
      exact h.inside y ⟨id, v, hid, hv⟩
        ⟨hprotected.reserved, hprotected.ne_rest, hprotected.ne_self⟩
    · exact hid hglobal
  captured := by
    intro g c hc
    rw [callable_installAt] at hc
    split at hc
    · cases hc
    · exact h.captured g c hc

theorem Interp.Guarded.systemSymbol (h : s.Guarded True) (name : String) :
    (s.systemSymbol name).2.Guarded True := by
  have hext := s.systemSymbol_extended name
  rcases s.systemSymbol_cases name with ⟨-, heq⟩ | ⟨-, heq⟩
  · rw [heq]
    exact h
  · rw [heq] at hext ⊢
    refine ⟨?_, h.scopes, fun y hy => ?_, ?_, h.captured⟩
    · let put := Edit.put name ⟨s.symbols.size⟩ true
      have hnew : put.Brings fun _ x =>
          x.index < (s.symbols.push (.named name true none)).size := by
        simp [put, Edit.Brings]
      have hwithin : (put.apply (s.namespaceAt .system)).Within
          (s.symbols.push (.named name true none)) :=
        Edit.within_apply ((h.live.namespaceAt .system).mono (by simp)) hnew
      have hgrows : s.symbols.Grows (fun y => y.selfValue = none)
          (s.symbols.push (.named name true none)) := .push (by rfl) s.symbols
      refine h.live.names hgrows (by simp) fun ns hns => ?_
      rcases Array.mem_or_eq_of_mem_setIfInBounds hns with hold | rfl
      · exact .inl hold
      · exact .inr hwithin
    · rcases mem_of_mem_push hy with hold | rfl
      · exact h.keywords y hold
      · exact nofun
    · rintro y ⟨id, v, hid, hv⟩ hprotected
      have hlive : y.Live s := (h.live.scope id _ (Table.mem_of_find? hv)).1
      exact h.inside y ⟨id, v, hid, hv⟩ (hprotected.before hext hlive)

/-! ## What the library provides -/

/-- The name leads to the symbol wherever the library is used from then on, by the current namespace
or by a clause of one that is being made, and installing under the name keeps the symbol. -/
structure Interp.Provides (s : Interp) (name : String) (x : SymbolId) : Prop where
  exported : (s.namespaceAt .system).findExported? name = some x
  used : ∃ u, s.useNamed systemName = .ok (.system, u) ∧
    (u.namespaceAt u.current).find? name = some x
  clause : ∀ d : Draft, ∃ d', d.useAll s [systemName] = .ok d' ∧ d'.names.find? name = some x
  installed : ∀ f : HostFunction, f.name = name → (s.register f).1 = x

theorem Interp.HasLibrary.provides (h : s.HasLibrary)
    (hx : (s.namespaceAt .system).find? name = some x) : s.Provides name x := by
  have hexported := (h.exports name).trans hx
  have hnamed : s.namespaceNamed systemName = .ok .system := by
    unfold namespaceNamed
    rw [h.findNamespace?_system]
  have htaken : ∀ ns : Namespace, (ns.use (s.namespaceAt .system)).find? name = some x := by
    intro ns
    rw [show ns.use _ = (Edit.use (s.namespaceAt .system)).apply ns from rfl, Edit.find?_apply]
    show ((s.namespaceAt .system).findExported? name).or _ = some x
    rw [hexported, Option.some_or]
  refine ⟨hexported, ⟨s.useIn s.current .system, ?_, ?_⟩, fun d => ?_, ?_⟩
  · have hother : NamespaceId.system ≠ s.current := by
      intro heq
      have hopen := h.current
      rw [← heq, h.locked] at hopen
      cases hopen
    unfold useNamed
    rw [hnamed]
    simp only [if_neg hother]
  · show ((s.setNamespace s.current _).namespaceAt s.current).find? name = some x
    rw [namespaceAt_setNamespace, if_pos ⟨rfl, lt_of_canIntern h.current⟩]
    exact htaken _
  · refine ⟨{ d with names := d.names.use (s.namespaceAt .system) }, ?_, htaken d.names⟩
    unfold Draft.useAll
    rw [hnamed]
    rfl
  · rintro f rfl
    show (s.systemSymbol f.name).1 = x
    unfold Interp.systemSymbol
    rw [hx]

/-- A function of the host is the value of its symbol. -/
structure Interp.Binds (s : Interp) (f : HostFunction) (x : SymbolId) (id : FunctionId) : Prop where
  symbol : (s.namespaceAt .system).find? f.name = some x
  live : id.index < s.callables.size
  callable : s.callable id = .host f
  bound : (s.scope .global).find? x = some (.function id)

/-! ## Between forms and installations -/

/-- What holds of the states in which forms are evaluated and functions are installed. -/
structure Interp.Hosting (limit : Nat) (s : Interp) : Prop where
  guarded : s.GuardedOutside True
  library : s.HasLibrary
  extended : Extends (.initial limit) s

namespace Interp.Hosting

variable {limit : Nat}

theorem evaluated (h : s.Hosting limit) {m : Machine} (hhosts : m.hosts.Honest) (d : Datum) :
    ((m.evaluateDatum d).final s).Hosting limit ∧
      Trace (fun u c => c.Sound u) s ((m.evaluateDatum d).final s) := by
  have hrun := m.guarded_evaluateDatum (fun _ => hhosts) d h.guarded
  exact ⟨⟨hrun.outside, (h.library.along hrun.trace).1,
    h.extended.trans hrun.trace.extended⟩, hrun.trace⟩

theorem install (h : s.Hosting limit) (f : HostFunction) : (s.register f).2.Hosting limit := by
  rw [register_eq]
  obtain ⟨hlibrary, hfind, -⟩ := h.library.systemSymbol f.name
  have hx := (hlibrary.symbols _ _ hfind).live
  have hguarded := (h.guarded.guarded.systemSymbol f.name).installAt hx f
  refine ⟨⟨hguarded, ?_⟩, (hlibrary.installAt _ f).1, h.extended.trans (s.register_extended f)⟩
  rcases s.systemSymbol_cases f.name with ⟨-, heq⟩ | ⟨-, heq⟩ <;> rw [heq] <;> exact h.guarded.chain

end Interp.Hosting

theorem Interp.hosting_initial (limit : Nat) : (initial limit).Hosting limit :=
  ⟨guarded_initial limit, hasLibrary_initial limit, .refl _⟩

theorem Embedding.hosting {limit : Nat} (h : Embedding admits s t) (hs : s.Hosting limit) :
    t.Hosting limit := by
  induction h with
  | start => exact hs
  | form _ m hhosts d ih => exact (ih.evaluated hhosts d).1
  | install _ f _ ih => exact ih.install f

theorem Trace.callable_kept {law : Law} {id : FunctionId} (h : Trace law s t)
    (hid : id.index < s.callables.size) : t.callable id = s.callable id := by
  let Kept (u : Interp) : Prop := id.index < u.callables.size ∧ u.callable id = s.callable id
  have hkept : Kept t := by
    refine h.preserves (fun u c _ hu => ?_) (fun _ _ _ _ hu => hu) ⟨hid, rfl⟩
    refine ⟨Nat.lt_of_lt_of_le hu.1 (c.extended u).callables, ?_⟩
    rcases c.callable_apply u id with hsame | ⟨hnew, -⟩
    · exact hsame.trans hu.2
    · exact absurd hnew (Nat.ne_of_lt hu.1)
  exact hkept.2

namespace Interp.Hosting

variable {limit : Nat}

/-- No symbol of the library but those of frames can be bound by a program. -/
theorem protected_of_find? (h : s.Hosting limit)
    (hx : (s.namespaceAt .system).find? name = some x) (hrest : name ≠ "&REST")
    (hself : name ≠ "&SELF") : x.Protected s := by
  have hreserves := h.library.symbols name x hx
  have hframe : ∀ y : SymbolId, y.index < 8 → (s.symbol y).name = ((initial limit).symbol y).name :=
    fun y hy => congrArg Symbol.name (h.extended.symbol y ((live_initial limit).fixedSymbol hy))
  refine ⟨hreserves.reserved, ?_, ?_⟩
  · rintro rfl
    exact hrest (hreserves.name.symm.trans (hframe .rest (by decide)))
  · rintro rfl
    exact hself (hreserves.name.symm.trans (hframe .self (by decide)))

theorem binds_register (h : s.Hosting limit) (f : HostFunction) :
    ∃ id, (s.register f).2.Binds f (s.register f).1 id := by
  obtain ⟨hlibrary, hfind, -⟩ := h.library.systemSymbol f.name
  have hsize := (h.guarded.guarded.systemSymbol f.name).scopes
  rw [register_eq]
  refine ⟨⟨(s.systemSymbol f.name).2.callables.size⟩, ?_, ?_, ?_, find?_scope_installAt hsize _ f⟩
  · rw [(hlibrary.installAt _ f).2]
    exact hfind
  · show _ < ((s.systemSymbol f.name).2.callables.push (.host f)).size
    simp
  · rw [callable_installAt, if_pos rfl]

/-- Forms keep what is bound to a protected symbol. -/
theorem binds_evaluated (h : s.Hosting limit) {m : Machine} (hhosts : m.hosts.Honest) (d : Datum)
    {id : FunctionId} (hx : x.Protected s) (hbinds : s.Binds f x id) :
    ((m.evaluateDatum d).final s).Binds f x id := by
  obtain ⟨-, htrace⟩ := h.evaluated hhosts d
  refine ⟨?_, Nat.lt_of_lt_of_le hbinds.live htrace.extended.callables,
    (htrace.callable_kept hbinds.live).trans hbinds.callable,
    htrace.global_kept h.guarded.guarded.scopes hx hbinds.bound⟩
  rw [(h.library.along htrace).2]
  exact hbinds.symbol

/-- Functions with other names are bound to other symbols. -/
theorem binds_installed (h : s.Hosting limit) {g : HostFunction} (hg : g.name ≠ f.name)
    {id : FunctionId} (hbinds : s.Binds f x id) : (s.register g).2.Binds f x id := by
  obtain ⟨hlibrary, hfind, hkept⟩ := h.library.systemSymbol g.name
  have hsymbol := hkept f.name x hbinds.symbol
  have hother : (s.systemSymbol g.name).1 ≠ x := by
    intro heq
    have hname := (hlibrary.symbols _ _ hfind).name
    rw [heq, (hlibrary.symbols _ _ hsymbol).name] at hname
    exact hg hname.symm
  have hsame : (s.systemSymbol g.name).2.scopes = s.scopes ∧
      (s.systemSymbol g.name).2.callables = s.callables := by
    rcases s.systemSymbol_cases g.name with ⟨-, heq⟩ | ⟨-, heq⟩ <;> rw [heq] <;> exact ⟨rfl, rfl⟩
  have hbound : ((s.systemSymbol g.name).2.scope .global).find? x = some (.function id) := by
    unfold scope
    rw [hsame.1]
    exact hbinds.bound
  have hcallable : (s.systemSymbol g.name).2.callable id = .host f := by
    unfold callable
    rw [hsame.2]
    exact hbinds.callable
  have hlive : id.index < (s.systemSymbol g.name).2.callables.size := hsame.2 ▸ hbinds.live
  rw [register_eq]
  refine ⟨?_, Nat.lt_of_lt_of_le hlive (installAt_extended _ _ g).callables, ?_, ?_⟩
  · rw [(hlibrary.installAt _ g).2]
    exact hsymbol
  · rw [callable_installAt, if_neg (Nat.ne_of_lt hlive)]
    exact hcallable
  · rcases scope_installAt (s.systemSymbol g.name).2 (s.systemSymbol g.name).1 g .global with
      hscope | ⟨-, hscope⟩
    · rw [hscope]
      exact hbound
    · rw [hscope, Table.find?_insert_of_ne _ _ hother]
      exact hbound

end Interp.Hosting

/-- A symbol stays in the library under its name. -/
theorem Embedding.librarySymbol {limit : Nat} (h : Embedding admits s t) (hs : s.Hosting limit)
    (hx : (s.namespaceAt .system).find? name = some x) :
    (t.namespaceAt .system).find? name = some x := by
  induction h with
  | start => exact hx
  | @form u before m hhosts d ih =>
    have hu := before.hosting hs
    rw [(hu.library.along (hu.evaluated hhosts d).2).2]
    exact ih
  | @install u before f _ ih =>
    obtain ⟨hlibrary, -, hkept⟩ := (before.hosting hs).library.systemSymbol f.name
    rw [Interp.register_eq, (hlibrary.installAt _ f).2]
    exact hkept name x ih

/-- Until another function is installed under the name, its symbol keeps its value. -/
theorem Embedding.binds {limit : Nat} {id : FunctionId}
    (h : Embedding (fun g => g.name ≠ f.name) s t) (hs : s.Hosting limit)
    (hrest : f.name ≠ "&REST") (hself : f.name ≠ "&SELF") (hbinds : s.Binds f x id) :
    t.Binds f x id := by
  induction h with
  | start => exact hbinds
  | form before m hhosts d ih =>
    have hu := before.hosting hs
    exact hu.binds_evaluated hhosts d (hu.protected_of_find? ih.symbol hrest hself) ih
  | install before g hg ih => exact (before.hosting hs).binds_installed hg ih

/-- Whatever forms have been evaluated and functions installed, a function that is installed now is
found: the namespaces that use the standard library resolve its name, in upper case, to the symbol
that is answered. From then on the library provides that symbol under the name, also to those that
use it later and to whoever installs under the name again. Unless frames bind the symbol, it stands
for the function on every chain of scopes until another one is installed under the name. -/
theorem host_function_visible {limit : Nat}
    (h : Embedding (fun _ => True) (.initial limit) s) (name : String) (minArgs : Nat)
    (evaluatesArguments : Bool) (program : String) :
    let f := Interp.hostFunction name minArgs evaluatesArguments program
    let x := (s.register f).1
    let u := (s.register f).2
    (∀ id, Interp.systemName ∈ (u.namespaceAt id).uses →
      (u.namespaceAt id).find? (Text.uppercase name) = some x) ∧
    (∀ v, Embedding (fun _ => True) u v → v.Provides (Text.uppercase name) x) ∧
    (Text.uppercase name ≠ "&REST" → Text.uppercase name ≠ "&SELF" →
      ∃ id, ∀ v, Embedding (fun g => g.name ≠ Text.uppercase name) u v →
        v.callable id = .host f ∧
        ∀ chain depths active,
          (v.withFrames chain depths active).lookup? x = some (.function id)) := by
  intro f x u
  have hs := h.hosting (Interp.hosting_initial limit)
  have hu : u.Hosting limit := hs.install f
  obtain ⟨hlibrary, hfind, -⟩ := hs.library.systemSymbol f.name
  obtain ⟨id, hbinds⟩ := hs.binds_register f
  refine ⟨fun id huses => ?_, fun v hv => ?_, fun hrest hself => ⟨id, fun v hv => ?_⟩⟩
  · exact (hlibrary.symbols _ _ hfind).find?_installAt f huses
  · exact (hv.hosting hu).library.provides (hv.librarySymbol hu hbinds.symbol)
  · have hlater := hv.hosting hu
    have hkept := hv.binds hu hrest hself hbinds
    refine ⟨hkept.callable, fun chain depths active => ?_⟩
    have hprotected := hlater.protected_of_find? hkept.symbol hrest hself
    have hframes := hlater.guarded.guarded.withFrames chain depths active
    exact hframes.lookup? ⟨hprotected.reserved, hprotected.ne_rest, hprotected.ne_self⟩ hkept.bound

/-- The demonstration programs answer with what they were given or read. -/
theorem HostProgram.honest_demonstration : demonstration.Honest := by
  intro name s arguments context hs harguments hcontext
  unfold demonstration
  split
  · exact harguments
  split
  · exact hcontext
  split
  · unfold shout Honest
    dsimp only
    split <;> trivial
  split
  · exact trivial
  split
  · exact ⟨hcontext, harguments, fun _ _ _ _ hending => hending⟩
  split
  · unfold applyFirst Honest
    dsimp only
    split
    next f hf =>
      have hlive : (Value.function f).Live s := by
        cases arguments with
        | cons id =>
          rw [← Option.some.inj hf]
          exact hs.car id
        | _ => cases hf
      exact ⟨hcontext, ⟨hlive, hs.second arguments⟩, fun _ _ _ _ hending => hending⟩
    next => trivial
  split
  · exact ⟨trivial, hs.first arguments, fun _ _ _ _ hending => hending⟩
  · exact trivial

/-- A program that had a symbol of the name finds that of the host instead, and so does a namespace
that it made. -/
theorem shout_found :
    ∃ s x u id, Embedding (fun _ => True) (.initial 64) s ∧
      s.register (Interp.hostFunction "shout" 1 true "shout") = (x, u) ∧
      (s.namespaceAt .user).find? "SHOUT" = some ⟨54⟩ ∧ x ≠ ⟨54⟩ ∧
      (u.namespaceAt .user).find? "SHOUT" = some x ∧ (u.namespaceAt ⟨3⟩).find? "SHOUT" = some x ∧
      ∀ chain, (u.withFrames chain u.depths u.active).lookup? x = some (.function id) := by
  obtain ⟨s, hs⟩ : ∃ s, s = (Machine.small.evaluateText
    "(var shout 1) (namespace \"a\" (use \"glisp\"))").final (.initial 64) := ⟨_, rfl⟩
  have hembedding : Embedding (fun _ => True) (.initial 64) s :=
    hs ▸ Embedding.start.text .small HostProgram.honest_demonstration _
  obtain ⟨hfound, -, hvalue⟩ := host_function_visible hembedding "shout" 1 true "shout"
  have hupper : Text.uppercase "shout" = "SHOUT" := by decide +kernel
  rw [hupper] at hfound hvalue
  obtain ⟨id, hlater⟩ := hvalue (by decide) (by decide)
  obtain ⟨hbefore, hnew, huser, hother⟩ : (s.namespaceAt .user).find? "SHOUT" = some ⟨54⟩ ∧
      (s.register (Interp.hostFunction "shout" 1 true "shout")).1 ≠ ⟨54⟩ ∧
      Interp.systemName ∈ ((s.register (Interp.hostFunction "shout" 1 true "shout")).2.namespaceAt
        .user).uses ∧
      Interp.systemName ∈ ((s.register (Interp.hostFunction "shout" 1 true "shout")).2.namespaceAt
        ⟨3⟩).uses := by
    rw [hs]
    decide +kernel
  refine ⟨s, _, _, id, hembedding, rfl, hbefore, hnew, hfound .user huser, hfound ⟨3⟩ hother, ?_⟩
  exact fun chain => (hlater _ .start).2 chain _ _

end SmallLisp
