import SmallLisp.Proofs.Session

/-!
# Reserved symbols keep their bindings

A program binds symbols in many ways: it declares and assigns them, names them as parameters, opens
scopes and makes closures that capture what is bound around them. None of these reaches a reserved
symbol, except that a frame binds its rest arguments and the running function to two of them. The
global scope gains bindings of new keywords only, and a scope above it holds no reserved symbol, so
a copy of the active scopes holds none either.

`Guarded` is the invariant. That a closure captures no reserved symbol needs more than changes can
say: the global scope must not be active as one of the scopes above itself. Evaluations keep this
because no closure has captured the global scope.
-/

namespace SmallLisp

variable {hosted : Prop} {s t u : Interp} {x : SymbolId}

/-- A symbol that no program can bind: it is reserved, and frames do not bind it either. -/
structure SymbolId.Protected (s : Interp) (x : SymbolId) : Prop where
  reserved : (s.symbol x).reserved = true
  ne_rest : x ≠ .rest
  ne_self : x ≠ .self

namespace SymbolId

/-- Only a symbol that exists is reserved. -/
theorem Protected.live (h : x.Protected s) : x.Live s := by
  apply Nat.lt_of_not_le
  intro hle
  have hreserved := h.reserved
  unfold Interp.symbol at hreserved
  rw [Array.getElem?_eq_none hle] at hreserved
  cases hreserved

theorem Protected.mono (h : x.Protected s) (hext : Extends s u) : x.Protected u := by
  refine ⟨?_, h.ne_rest, h.ne_self⟩
  rw [hext.symbol x h.live]
  exact h.reserved

/-- A symbol does not become reserved afterwards. -/
theorem Protected.before (h : x.Protected u) (hext : Extends s u) (hlive : x.Live s) :
    x.Protected s := by
  refine ⟨?_, h.ne_rest, h.ne_self⟩
  rw [← hext.symbol x hlive]
  exact h.reserved

theorem Bindable.not_protected (h : x.Bindable s) : ¬ x.Protected s := by
  intro hx
  rcases h.2 with hfree | hrest | hself
  · rw [hx.reserved] at hfree
    cases hfree
  · exact hx.ne_rest hrest
  · exact hx.ne_self hself

end SymbolId

/-! ## What changes do to scopes -/

/-- How a change leaves a scope: it is new, or at most one symbol is bound in it. -/
inductive Change.LeavesScope (s : Interp) (c : Change) (id : ScopeId) : Scope → Prop
  | same : LeavesScope s c id (s.scope id)
  | new (hid : id = ⟨s.scopes.size⟩) : LeavesScope s c id .empty
  | captured (hc : ∃ expands xs arguments, c = .function expands xs arguments)
      (hid : id = ⟨s.scopes.size⟩) : LeavesScope s c id s.captured
  | bound {x : SymbolId} {v : Value} (hc : c = .bind id x v) :
      LeavesScope s c id ((s.scope id).insert x v)
  /-- A new keyword. -/
  | keyword {v : Value} (hid : id = .global) :
      LeavesScope s c id ((s.scope id).insert ⟨s.symbols.size⟩ v)

theorem Interp.scope_bindIn (s : Interp) (id j : ScopeId) (x : SymbolId) (v : Value) :
    (s.bindIn id x v).scope j = s.scope j ∨
      (id = j ∧ (s.bindIn id x v).scope j = (s.scope j).insert x v) := by
  by_cases hlt : id.index < s.scopes.size
  · obtain ⟨i⟩ := id
    obtain ⟨j⟩ := j
    by_cases hij : i = j
    · subst hij
      have hsome : s.scopes[i]? = some s.scopes[i] := Array.getElem?_eq_getElem hlt
      exact .inr ⟨rfl, by simp [bindIn, scope, Array.getElem?_modify, hsome]⟩
    · exact .inl (by simp [bindIn, scope, Array.getElem?_modify, hij])
  · rw [bindIn_of_size_le s x v (Nat.le_of_not_lt hlt)]
    exact .inl rfl

theorem Change.leavesScope (s : Interp) (c : Change) (id : ScopeId) :
    c.LeavesScope s id ((c.apply s).scope id) := by
  -- a change of other stores leaves every scope
  have hsame : (c.apply s).scopes = s.scopes → c.LeavesScope s id ((c.apply s).scope id) := by
    intro hscopes
    have hscope : (c.apply s).scope id = s.scope id := by
      unfold Interp.scope
      rw [hscopes]
    rw [hscope]
    exact .same
  have hnew : ∀ bindings, (s.allocScope bindings).2.scope id = s.scope id ∨
      (id = ⟨s.scopes.size⟩ ∧ (s.allocScope bindings).2.scope id = bindings) := by
    intro bindings
    rw [Interp.scope_allocScope]
    by_cases hid : id.index = s.scopes.size
    · exact .inr ⟨by rw [← hid], if_pos hid⟩
    · exact .inl (if_neg hid)
  cases c
  case store v place => exact hsame (by cases place <;> rfl)
  case scope =>
    show LeavesScope s .scope id ((s.allocScope .empty).2.scope id)
    rcases hnew .empty with hold | ⟨hid, hempty⟩
    · rw [hold]
      exact .same
    · rw [hempty]
      exact .new hid
  case function expands xs arguments =>
    show LeavesScope s _ id ((s.allocScope s.captured).2.scope id)
    rcases hnew s.captured with hold | ⟨hid, hcaptured⟩
    · rw [hold]
      exact .same
    · rw [hcaptured]
      exact .captured ⟨expands, xs, arguments, rfl⟩ hid
  case bind j x v =>
    show LeavesScope s _ id ((s.bindIn j x v).scope id)
    rcases s.scope_bindIn j id x v with hold | ⟨rfl, hbound⟩
    · rw [hold]
      exact .same
    · rw [hbound]
      exact .bound rfl
  case keyword name =>
    refine Interp.resultOf_induction (motive := fun u =>
      LeavesScope s (.keyword name) id (u.scope id)) .same fun x u h => ?_
    rcases Interp.internKeyword_cases h with ⟨-, rfl⟩ | ⟨t, hnone, ht, rfl⟩
    · exact .same
    · rcases Interp.internIn_cases ht with ⟨hfind, -⟩ | ⟨-, -, rfl, -⟩
      · rw [hnone] at hfind
        cases hfind
      · have hscope : t.scope = s.scope := by
          rw [Interp.internIn_eq ht]
          rfl
        show LeavesScope s _ id ((t.bindIn .global _ _).scope id)
        rcases t.scope_bindIn .global id ⟨s.symbols.size⟩ (.symbol ⟨s.symbols.size⟩) with
          hold | ⟨rfl, hbound⟩
        · rw [hold, hscope]
          exact .same
        · rw [hbound, hscope]
          exact .keyword rfl
  case intern | create | select | use =>
    refine hsame ?_
    rw [Naming.apply_eq]
    trivial
  all_goals exact hsame rfl

/-- A sound change keeps the global binding of a protected symbol. -/
theorem Change.global_kept {c : Change} {v : Value} (hc : c.Sound s) (hsize : 0 < s.scopes.size)
    (hx : x.Protected s) (hv : (s.scope .global).find? x = some v) :
    ((c.apply s).scope .global).find? x = some v := by
  have hold : ScopeId.global ≠ ⟨s.scopes.size⟩ := fun heq =>
    Nat.ne_of_lt hsize (congrArg ScopeId.index heq)
  have hleaves := c.leavesScope s .global
  generalize (c.apply s).scope .global = scope at hleaves
  cases hleaves with
  | same => exact hv
  | new hid => exact absurd hid hold
  | captured _ hid => exact absurd hid hold
  | @bound y w hbind =>
    subst hbind
    have hne : y ≠ x := fun heq => hc.1.not_protected (heq ▸ hx)
    rw [Table.find?_insert_of_ne _ w hne]
    exact hv
  | @keyword w _ =>
    have hne : ⟨s.symbols.size⟩ ≠ x := fun heq =>
      Nat.ne_of_gt hx.live (congrArg SymbolId.index heq)
    rw [Table.find?_insert_of_ne _ w hne]
    exact hv

/-- A symbol is bound in a scope other than the global one. -/
def Interp.BoundInside (s : Interp) (x : SymbolId) : Prop :=
  ∃ id v, id ≠ .global ∧ (s.scope id).find? x = some v

/-- What is bound above the global scope after a sound change was bound there before, or it may be
bound. -/
theorem Change.boundInside {c : Change} (hc : c.Sound s)
    (hcapture : (∃ expands xs arguments, c = .function expands xs arguments) →
      ScopeId.global ∉ s.chain)
    (h : (c.apply s).BoundInside x) : s.BoundInside x ∨ x.Bindable s := by
  obtain ⟨id, v, hid, hv⟩ := h
  have hleaves := c.leavesScope s id
  generalize (c.apply s).scope id = scope at hleaves hv
  cases hleaves with
  | same => exact .inl ⟨id, v, hid, hv⟩
  | new _ => cases hv
  | captured hfunction _ =>
    rw [Interp.find?_captured] at hv
    obtain ⟨j, hj, hfound⟩ := List.exists_of_findSome?_eq_some hv
    have hinside : j ≠ .global := fun heq => hcapture hfunction (heq ▸ hj)
    exact .inl ⟨j, v, hinside, hfound⟩
  | @bound y w hbind =>
    subst hbind
    by_cases hy : y = x
    · exact .inr (hy ▸ hc.1)
    · rw [Table.find?_insert_of_ne _ w hy] at hv
      exact .inl ⟨id, v, hid, hv⟩
  | keyword hglobal => exact absurd hglobal hid

/-- Every keyword is reserved. -/
def Symbol.Sealed (x : Symbol) : Prop := x.keyword = true → x.reserved = true

theorem Symbol.Plain.sealed {x : Symbol} (h : x.Plain) : x.Sealed := by
  intro hkeyword
  rw [h.keyword] at hkeyword
  cases hkeyword

theorem Interp.internIn_sealed {id : NamespaceId} {name : String}
    (h : s.internIn id name = .ok (x, u)) : s.symbols.Grows Symbol.Sealed u.symbols := by
  rcases Interp.internIn_cases h with ⟨-, rfl⟩ | ⟨-, -, -, rfl⟩
  · exact .refl _
  · refine .push ?_ s.symbols
    unfold Namespace.newSymbol Symbol.Sealed
    split
    · exact fun _ => rfl
    · exact nofun

/-- The keywords that a change makes are reserved. -/
theorem Change.sealed (s : Interp) (c : Change) :
    s.symbols.Grows Symbol.Sealed (c.apply s).symbols := by
  let Sealed (u : Interp) : Prop := s.symbols.Grows Symbol.Sealed u.symbols
  have hrefl : Sealed s := .refl _
  cases c
  case store v place => cases place <;> exact hrefl
  case generate => exact .push nofun s.symbols
  case keyword name =>
    refine Interp.resultOf_induction (motive := Sealed) hrefl fun x u h => ?_
    rcases Interp.internKeyword_cases h with ⟨-, rfl⟩ | ⟨t, -, ht, rfl⟩
    · exact hrefl
    · have hsealed := Interp.internIn_sealed ht
      exact hsealed
  case intern id name =>
    exact Interp.resultOf_induction (motive := Sealed) hrefl fun x u h => Interp.internIn_sealed h
  case create arguments =>
    refine Interp.resultOf_induction (motive := Sealed) hrefl fun id u h => ?_
    obtain ⟨name, es, symbols, -, -, hgrows, -, rfl⟩ := NamespaceForm.create_cases h
    exact hgrows.mono fun _ hx => hx.sealed
  case select name =>
    refine Interp.resultOf_induction (motive := Sealed) hrefl fun id u h => ?_
    obtain ⟨-, rfl⟩ := Interp.changeNamespace_cases h
    exact hrefl
  case use name =>
    refine Interp.resultOf_induction (motive := Sealed) hrefl fun id u h => ?_
    rcases Interp.useNamed_cases h with ⟨-, rfl⟩ | ⟨-, rfl⟩ <;> exact hrefl
  all_goals exact hrefl

/-! ## The invariant -/

/-- No protected symbol is bound above the global scope, and no closure can bring the global scope
above itself. -/
structure Interp.Guarded (hosted : Prop) (s : Interp) : Prop where
  live : s.LiveUnder hosted
  scopes : 0 < s.scopes.size
  keywords : ∀ x ∈ s.symbols, x.Sealed
  inside : ∀ x, s.BoundInside x → ¬ x.Protected s
  captured : ∀ f c, (s.callable f).closure? = some c → c.captured ≠ .global

namespace Interp.Guarded

theorem change {c : Change} (h : s.Guarded hosted) (hc : c.Sound s)
    (hcapture : (∃ expands xs arguments, c = .function expands xs arguments) →
      ScopeId.global ∉ s.chain) : (c.apply s).Guarded hosted where
  live := Change.live h.live hc
  scopes := Nat.lt_of_lt_of_le h.scopes (c.scopes_size_le s)
  keywords := by
    intro x hx
    rcases (c.sealed s).mem hx with hold | hnew
    · exact h.keywords x hold
    · exact hnew
  inside := by
    intro x hx hprotected
    have hext := c.extended s
    rcases Change.boundInside hc hcapture hx with hbound | hbindable
    · obtain ⟨id, v, hid, hv⟩ := hbound
      have hlive : x.Live s := (h.live.scope id _ (Table.mem_of_find? hv)).1
      exact h.inside x ⟨id, v, hid, hv⟩ (hprotected.before hext hlive)
    · exact hbindable.not_protected (hprotected.before hext hbindable.1)
  captured := by
    intro f closure hclosure heq
    rcases Change.closure_apply hclosure with hold | ⟨hnew, -⟩
    · exact h.captured f closure hold heq
    · rw [hnew] at heq
      exact Nat.ne_of_gt h.scopes (congrArg ScopeId.index heq)

theorem withFrames (h : s.Guarded hosted) (chain : List ScopeId) (depths : Depths) (active : Nat) :
    (s.withFrames chain depths active).Guarded hosted :=
  ⟨h.live.withFrames chain depths active, h.scopes, h.keywords,
    fun x hx hp => h.inside x hx ⟨hp.reserved, hp.ne_rest, hp.ne_self⟩, h.captured⟩

/-- Wherever a protected symbol is looked up, its global binding is found. -/
theorem lookup? (h : s.Guarded hosted) (hx : x.Protected s) {v : Value}
    (hv : (s.scope .global).find? x = some v) : s.lookup? x = some v := by
  unfold Interp.lookup?
  cases hfound : s.chain.findSome? fun id => (s.scope id).find? x with
  | none => exact hv
  | some w =>
    obtain ⟨id, -, hw⟩ := List.exists_of_findSome?_eq_some hfound
    by_cases hid : id = .global
    · subst hid
      exact hw.symm.trans hv
    · exact absurd hx (h.inside x ⟨id, w, hid, hw⟩)

end Interp.Guarded

/-- A guarded state paired with itself, while the global scope is not above itself. -/
def Pairing.guarded (hosted : Prop) : Pairing where
  strict := True
  hosted := hosted
  oneSided := False
  rel s t := t = s ∧ s.Guarded hosted ∧ ScopeId.global ∉ s.chain
  opens id := id ≠ .global
  apart {s t} h := ⟨s, rfl, h.1⟩
  live h _ := h.2.1.live
  lookup h _ := by rw [h.1]
  holder h _ := by rw [h.1]
  change {s t c} h hc := by
    refine ⟨by rw [h.1], h.2.1.change (hc.2 trivial) fun _ => h.2.2, ?_⟩
    rw [Change.chain_apply]
    exact h.2.2
  depths h depths := ⟨by rw [h.1], h.2.1.withFrames _ depths _, h.2.2⟩
  opens_new {s t} h heq := Nat.ne_of_gt h.2.1.scopes (congrArg ScopeId.index heq)
  opens_captured h := h.2.1.captured _ _
  push {s t id} h hid := by
    refine ⟨by rw [h.1], h.2.1.withFrames (id :: s.chain) s.depths s.active, fun hmem => ?_⟩
    rcases List.mem_cons.mp hmem with heq | hmem
    · exact hid heq.symm
    · exact h.2.2 hmem
  pop {s t u w id} h h' hchain := by
    refine ⟨by rw [h'.1], h'.2.1.withFrames u.chain.tail u.depths u.active, ?_⟩
    show ScopeId.global ∉ u.chain.tail
    rw [hchain]
    exact h.2.2

theorem Pairing.counts_guarded : (guarded hosted).Counts where
  limit h := by rw [h.1]
  active {s t} h active := ⟨by rw [h.1], h.2.1.withFrames s.chain s.depths active, h.2.2⟩

/-- The state in which whole forms are evaluated. -/
structure Interp.GuardedOutside (hosted : Prop) (s : Interp) : Prop where
  guarded : s.Guarded hosted
  chain : s.chain = []

/-- A run of sound changes to a state in which forms are evaluated. -/
structure Interp.GuardedRun (hosted : Prop) (s u : Interp) : Prop where
  trace : Trace (fun v c => c.Sound v) s u
  outside : u.GuardedOutside hosted

theorem Machine.guarded_evaluate (m : Machine) (hhosts : hosted → m.hosts.Honest)
    {context form : Value} (h : s.GuardedOutside hosted) (hcontext : hosted → context.Live s)
    (hform : form.Live s) : s.GuardedRun hosted ((m.evaluate context form).final s) := by
  let P := (Pairing.guarded hosted).holding context
  have hshows : (Pairing.guarded hosted).Shows Eq m.hosts m.hosts := by
    refine fun hstrict _ _ _ f _ _ => ⟨?_, fun _ => hhosts (hstrict trivial) f.program⟩
    rintro arguments context _ rfl
    exact (HostProgram.sees_of_eq (fun _ _ h => h.1) _).matches
  have hkeeps : P.Keeps (m.evaluator context) (m.evaluator context) :=
    Pairing.keeps_holding hshows Pairing.counts_guarded m.fuel rfl
  have hrel : P.rel s s := by
    refine ⟨⟨rfl, h.guarded, ?_⟩, fun _ => hcontext⟩
    rw [h.chain]
    exact List.not_mem_nil
  have hafter := (hkeeps (.evaluate form) s s hrel fun _ => hform).after id
  unfold evaluate
  rw [EvalM.final_settle]
  exact ⟨hafter.trace.mono fun _ _ hc => hc.2 trivial,
    hafter.rel.1.2.1, hafter.chain.trans h.chain⟩

/-- Interning makes no closures. -/
theorem Interning.guarded {here : NamespaceId} (h : Interning True hosted here s u)
    (hs : s.GuardedOutside hosted) : s.GuardedRun hosted u := by
  refine ⟨h.trace.mono fun _ _ hc => hc.sound trivial, ?_, h.chain.trans hs.chain⟩
  refine h.trace.preserves (fun v c hc hv => hv.change (hc.sound trivial) ?_)
    (fun v _ _ _ hv => hv.withFrames _ _ _) hs.guarded
  rintro ⟨expands, xs, arguments, rfl⟩
  exact hc.elim

theorem Machine.guarded_evaluateDatum (m : Machine) (hhosts : hosted → m.hosts.Honest) (d : Datum)
    (h : s.GuardedOutside hosted) : s.GuardedRun hosted ((m.evaluateDatum d).final s) := by
  have hinterned := Interned.datum d (.refl rfl fun _ : True => h.guarded.live)
  unfold evaluateDatum
  generalize hresult : d.intern s = r at hinterned
  cases hinterned with
  | @ok form u step hform =>
    have hread := step.guarded h
    have hcontext : hosted → Value.nil.Live u := fun _ => trivial
    have hrun := m.guarded_evaluate hhosts hread.outside hcontext (hform trivial)
    rw [EvalM.final_bind hresult]
    exact ⟨hread.trace.trans hrun.trace, hrun.outside⟩
  | error step =>
    rw [EvalM.final_bind_error hresult]
    exact step.guarded h

theorem Interp.guarded_initial (limit : Nat) : (initial limit).GuardedOutside hosted := by
  refine ⟨⟨(live_initial limit).mono False.elim, Nat.zero_lt_one, ?_, ?_, ?_⟩, rfl⟩
  · intro x hx
    rcases List.mem_append.mp (List.mem_toArray.mp hx) with hx | hx
    · simp only [List.mem_cons, List.not_mem_nil, or_false] at hx
      rcases hx with rfl | rfl | rfl | rfl <;> exact nofun
    · obtain ⟨op, -, rfl⟩ := List.mem_map.mp hx
      exact nofun
  · rintro x ⟨⟨i⟩, v, hid, hv⟩ -
    -- there is no scope but the global one
    have hsome : (((initial limit).scope ⟨i⟩).find? x).isSome = true := by
      rw [hv]
      rfl
    have hlt : i < 1 := lt_of_find?_scope hsome
    have hzero : i = 0 := by omega
    subst hzero
    exact hid rfl
  · intro f c hc
    rw [closure?_initial] at hc
    cases hc

/-! ## Sessions -/

theorem Session.guarded (h : Session (fun _ => True) s t) (hs : s.GuardedOutside False) :
    t.GuardedOutside False := by
  induction h with
  | start => exact hs
  | form before _ m d ih => exact (m.guarded_evaluateDatum False.elim d ih).outside

/-- A run of sound changes keeps the global binding of a protected symbol. -/
theorem Trace.global_kept {v : Value} (h : Trace (fun u c => c.Sound u) s t)
    (hsize : 0 < s.scopes.size) (hx : x.Protected s) (hv : (s.scope .global).find? x = some v) :
    (t.scope .global).find? x = some v := by
  let Kept (u : Interp) : Prop :=
    0 < u.scopes.size ∧ x.Protected u ∧ (u.scope .global).find? x = some v
  have hchange : ∀ u c, Change.Sound u c → Kept u → Kept (c.apply u) := by
    intro u c hc hu
    have hgrown := Nat.lt_of_lt_of_le hu.1 (c.scopes_size_le u)
    exact ⟨hgrown, hu.2.1.mono (c.extended u), Change.global_kept hc hu.1 hu.2.1 hu.2.2⟩
  have hframes : ∀ u chain depths active, Kept u → Kept (u.withFrames chain depths active) :=
    fun u _ _ _ hu => ⟨hu.1, ⟨hu.2.1.reserved, hu.2.1.ne_rest, hu.2.1.ne_self⟩, hu.2.2⟩
  exact (h.preserves hchange hframes ⟨hsize, hx, hv⟩).2.2

/-- Reserved symbols, between a state `s` and a later one `t`. The two that frames bind are left
out. -/
structure Interp.KeepsReserved (s t : Interp) : Prop where
  global : ∀ x v, x.Protected s → (s.scope .global).find? x = some v →
    (t.scope .global).find? x = some v
  inside : ∀ x id, x.Protected t → id ≠ .global → (t.scope id).find? x = none
  captured : ∀ x f c, x.Protected t → (t.callable f).closure? = some c →
    (t.scope c.captured).find? x = none
  evaluates : ∀ x v, x.Protected s → (s.scope .global).find? x = some v →
    ∀ (m : Machine) context chain depths active, 0 < m.fuel → active < t.limit →
      m.evaluate context (.symbol x) (t.withFrames chain depths active) =
        .ok v (t.withFrames chain depths active)

theorem Interp.GuardedOutside.keepsReserved (hs : s.GuardedOutside False)
    (h : Session (fun _ => True) s t) : s.KeepsReserved t := by
  have ht := h.guarded hs
  have htrace := h.sound hs.guarded.live
  have hglobal : ∀ x v, x.Protected s → (s.scope .global).find? x = some v →
      (t.scope .global).find? x = some v :=
    fun x v hx hv => htrace.global_kept hs.guarded.scopes hx hv
  have hinside : ∀ x id, x.Protected t → id ≠ .global → (t.scope id).find? x = none := by
    intro x id hx hid
    cases hv : (t.scope id).find? x with
    | none => rfl
    | some v => exact absurd hx (ht.guarded.inside x ⟨id, v, hid, hv⟩)
  refine ⟨hglobal, hinside, ?_, ?_⟩
  · exact fun x f c hx hc => hinside x c.captured hx (ht.guarded.captured f c hc)
  · intro x v hx hv m context chain depths active
    have hframes := ht.guarded.withFrames chain depths active
    have hprotected := (hx.mono htrace.extended).mono
      (Extends.outside (u := t.withFrames chain depths active) rfl rfl rfl rfl rfl rfl rfl)
    exact m.evaluate_symbol context (hframes.lookup? hprotected (hglobal x v hx hv))

/-- The operations and constants of the standard library are reserved and bound from the start. -/
theorem Interp.protected_initial (limit : Nat) {e : SymbolId × Value}
    (he : e ∈ systemScope.entries) :
    e.1.Protected (initial limit) ∧ ((initial limit).scope .global).find? e.1 = some e.2 := by
  have hall : ∀ e ∈ systemScope.entries,
      ((systemSymbols[e.1.index]?).getD default).reserved = true ∧
        e.1 ≠ .rest ∧ e.1 ≠ .self ∧ systemScope.find? e.1 = some e.2 := by
    decide +kernel
  obtain ⟨hreserved, hrest, hself, hbound⟩ := hall e he
  refine ⟨⟨?_, hrest, hself⟩, hbound⟩
  show ((systemSymbols.toArray[e.1.index]?).getD default).reserved = true
  rw [List.getElem?_toArray]
  exact hreserved

/-- The symbols that frames bind are no keywords. -/
theorem Interp.Guarded.protected_keyword {limit : Nat} (h : s.Guarded hosted)
    (hext : Extends (.initial limit) s) (hx : (s.symbol x).keyword = true) : x.Protected s := by
  have hsealed : (s.symbol x).Sealed := by
    unfold symbol
    cases hfound : s.symbols[x.index]? with
    | none => exact nofun
    | some symbol => exact h.keywords symbol (Array.mem_of_getElem? hfound)
  have hframe : ∀ y : SymbolId, y = .rest ∨ y = .self → (s.symbol y).keyword = false := by
    intro y hy
    have hfixed : y.Live (.initial limit) := (live_initial limit).fixedSymbol (by
      rcases hy with rfl | rfl <;> decide)
    rw [hext.symbol y hfixed]
    rcases hy with rfl | rfl <;> rfl
  have hother : ∀ y : SymbolId, y = .rest ∨ y = .self → x ≠ y := by
    rintro y hy rfl
    rw [hframe x hy] at hx
    cases hx
  exact ⟨hsealed hx, hother _ (.inl rfl), hother _ (.inr rfl)⟩

/-- Whatever texts have been evaluated, further texts keep the global binding of every reserved
symbol, bind none in another scope, and it evaluates to that binding in all scopes. The names of the
standard library are such symbols with the bindings of the start, and so is every keyword. -/
theorem reserved_symbols_kept (limit : Nat) (texts later : List (Machine × String)) :
    let s := (Interp.initial limit).afterTexts texts
    s.KeepsReserved (s.afterTexts later) ∧
    (∀ e ∈ Interp.systemScope.entries,
      e.1.Protected s ∧ (s.scope .global).find? e.1 = some e.2) ∧
    ∀ x, (s.symbol x).keyword = true → x.Protected s := by
  intro s
  have hinitial : (Interp.initial limit).GuardedOutside False := Interp.guarded_initial limit
  have hsession : Session (fun _ => True) (.initial limit) s := Session.start.afterTexts texts
  have hs : s.GuardedOutside False := hsession.guarded hinitial
  have htrace := hsession.sound hinitial.guarded.live
  refine ⟨hs.keepsReserved (Session.start.afterTexts later), fun e he => ?_, fun x hx => ?_⟩
  · obtain ⟨hprotected, hbound⟩ := Interp.protected_initial limit he
    have hkept := htrace.global_kept hinitial.guarded.scopes hprotected hbound
    exact ⟨hprotected.mono htrace.extended, hkept⟩
  · exact hs.guarded.protected_keyword htrace.extended hx

/-- Texts that try to bind `T` leave it true. -/
theorem true_kept :
    ∃ t, t = ((Interp.initial 64).afterTexts [(.small, "(var x :foo)")]).afterTexts
        [(.small, "(var t 1)"), (.small, "((lambda (t) t) 1)")] ∧
      Machine.small.evaluate .nil (.symbol .trueSymbol) t = .ok .truth t := by
  obtain ⟨hkept, hsystem, -⟩ := reserved_symbols_kept 64 [(.small, "(var x :foo)")]
    [(.small, "(var t 1)"), (.small, "((lambda (t) t) 1)")]
  obtain ⟨hprotected, hbound⟩ := hsystem (.trueSymbol, .truth) (by decide)
  obtain ⟨t, ht⟩ : ∃ t, t = ((Interp.initial 64).afterTexts [(.small, "(var x :foo)")]).afterTexts
    [(.small, "(var t 1)"), (.small, "((lambda (t) t) 1)")] := ⟨_, rfl⟩
  have hactive : t.active < t.limit := by
    rw [ht]
    decide +kernel
  rw [← ht] at hkept
  have hevaluates := hkept.evaluates .trueSymbol .truth hprotected hbound .small .nil
    t.chain t.depths t.active (by decide) hactive
  exact ⟨t, ht, hevaluates⟩

end SmallLisp
