import SmallLisp.Proofs.Session

/-!
# What a lambda sees of its caller

The frame of a lambda stands on the scopes that are active when it is called. A symbol that the
lambda has captured is found in its captured scope at the latest; any other symbol is looked up in
the scopes of the caller before the global one. So a call that binds a global symbol in a scope of
its own can be seen, and what the caller's scopes hold for captured symbols can not.

A `Veil` hides scopes that no closure has captured, for the symbols that one scope, the shield,
binds. As long as the shield lies over the hidden scopes, evaluations keep veiled states apart in
what is hidden and nowhere else.
-/

namespace SmallLisp

/-- `t` is `s` with other bindings in hidden scopes, for symbols only that the shield binds. -/
structure DiffersBehind (hidden : ScopeId → Prop) (shield : ScopeId) (s t : Interp) : Prop where
  apart : ∃ b, b.size = s.scopes.size ∧ t = s.withScopes b
  agree : ∀ x id, (t.scope id).find? x = (s.scope id).find? x ∨
    (hidden id ∧ ((s.scope shield).find? x).isSome = true)

/-- Such states, when what is hidden exists and no closure has captured it. -/
structure Veil (hidden : ScopeId → Prop) (shield : ScopeId) (s t : Interp) : Prop
    extends DiffersBehind hidden shield s t where
  seen : ¬ hidden shield ∧ ¬ hidden .global
  exist : ∀ id, hidden id → id.index < s.scopes.size
  captured : ∀ f c, (s.callable f).closure? = some c → ¬ hidden c.captured

/-- The shield comes before every hidden scope. -/
def Covered (hidden : ScopeId → Prop) (shield : ScopeId) (chain : List ScopeId) : Prop :=
  ∃ above below, chain = above ++ shield :: below ∧ ∀ id ∈ above, ¬ hidden id

namespace Covered

variable {hidden : ScopeId → Prop} {shield : ScopeId} {chain : List ScopeId}

theorem push (h : Covered hidden shield chain) {id : ScopeId} (hid : ¬ hidden id) :
    Covered hidden shield (id :: chain) := by
  obtain ⟨above, below, rfl, habove⟩ := h
  refine ⟨id :: above, below, rfl, fun j hj => ?_⟩
  rcases List.mem_cons.mp hj with rfl | hj
  · exact hid
  · exact habove j hj

theorem append (h : Covered hidden shield chain) (rest : List ScopeId) :
    Covered hidden shield (chain ++ rest) := by
  obtain ⟨above, below, rfl, habove⟩ := h
  exact ⟨above, below ++ rest, by simp, habove⟩

/-- A search that ends at the shield does not reach what is hidden. -/
theorem findSome?_eq {α : Type} (h : Covered hidden shield chain) (hshield : ¬ hidden shield)
    {f g : ScopeId → Option α} (hfg : ∀ id, g id = f id ∨ (hidden id ∧ (f shield).isSome = true)) :
    chain.findSome? g = chain.findSome? f := by
  obtain ⟨above, below, rfl, habove⟩ := h
  have hseen : ∀ id, ¬ hidden id → g id = f id := fun id hid =>
    (hfg id).resolve_right fun hhidden => hid hhidden.1
  have hprefix : above.findSome? g = above.findSome? f := by
    induction above with
    | nil => rfl
    | cons id rest ih =>
      rw [List.findSome?_cons, List.findSome?_cons, hseen id (habove id List.mem_cons_self),
        ih fun j hj => habove j (List.mem_cons_of_mem _ hj)]
  rw [List.findSome?_append, List.findSome?_append, hprefix, List.findSome?_cons,
    List.findSome?_cons, hseen shield hshield]
  cases hf : f shield with
  | some a => rfl
  | none =>
    have hall : g = f := funext fun id => (hfg id).resolve_right fun hhidden => by
      rw [hf] at hhidden
      cases hhidden.2
    rw [hall]

end Covered

namespace Veil

variable {hidden : ScopeId → Prop} {shield : ScopeId} {s t u w : Interp}

/-! ## Look-ups -/

theorem chain_eq (h : Veil hidden shield s t) : t.chain = s.chain := by
  obtain ⟨b, -, rfl⟩ := h.apart
  rfl

section Covered

variable (h : Veil hidden shield s t) (hcovered : Covered hidden shield s.chain)

include h hcovered

theorem lookup (x : SymbolId) : t.lookup? x = s.lookup? x := by
  rw [Interp.lookup?_eq_findSome?, Interp.lookup?_eq_findSome?]
  unfold Interp.activeScopes
  rw [h.chain_eq]
  exact (hcovered.append _).findSome?_eq h.seen.1 (h.agree x)

theorem holder (x : SymbolId) : t.holder? x = s.holder? x := by
  have hholds : ∀ id, Option.guard (fun id => (t.scope id).contains x) id =
      Option.guard (fun id => (s.scope id).contains x) id ∨ (hidden id ∧
        (Option.guard (fun id => (s.scope id).contains x) shield).isSome = true) := by
    intro id
    rcases h.agree x id with heq | ⟨hid, hshield⟩
    · have hsame : (t.scope id).contains x = (s.scope id).contains x := congrArg Option.isSome heq
      exact .inl (by simp only [Option.guard, hsame])
    · have hbound : (s.scope shield).contains x = true := hshield
      exact .inr ⟨hid, by simp only [Option.guard, hbound, if_true, Option.isSome_some]⟩
  unfold Interp.holder? Interp.activeScopes
  rw [h.chain_eq, List.find?_eq_findSome?_guard, List.find?_eq_findSome?_guard]
  exact (hcovered.append _).findSome?_eq h.seen.1 hholds

theorem find?_captured (x : SymbolId) : t.captured.find? x = s.captured.find? x := by
  rw [Interp.find?_captured, Interp.find?_captured, h.chain_eq]
  exact hcovered.findSome?_eq h.seen.1 (h.agree x)

end Covered

/-! ## Changes -/

variable (h : Veil hidden shield s t)

include h

/-- A change that touches no scope and makes no function. -/
theorem elsewhere (hscopes : u.scopes = s.scopes) (hcallables : u.callables = s.callables) :
    Veil hidden shield u (u.withScopes t.scopes) := by
  obtain ⟨b, hsize, rfl⟩ := h.apart
  have hscope : u.scope = s.scope := by
    funext id
    unfold Interp.scope
    rw [hscopes]
  refine ⟨⟨⟨b, by rw [hscopes, hsize], rfl⟩, ?_⟩, h.seen, ?_, ?_⟩
  · rw [hscope]
    exact h.agree
  · rw [hscopes]
    exact h.exist
  · have hcallable : u.callable = s.callable := by
      funext f
      unfold Interp.callable
      rw [hcallables]
    rw [hcallable]
    exact h.captured

theorem bindIn (id : ScopeId) (x : SymbolId) (v : Value) :
    Veil hidden shield (s.bindIn id x v) (t.bindIn id x v) := by
  obtain ⟨b, hsize, rfl⟩ := h.apart
  refine ⟨⟨⟨b.modify id.index fun scope => scope.insert x v, ?_, rfl⟩, ?_⟩, h.seen, ?_, h.captured⟩
  · simp [Interp.bindIn, hsize]
  · intro y j
    by_cases hxy : x = y
    · subst hxy
      by_cases hid : id.index < s.scopes.size
      · rw [Interp.find?_bindIn _ id j x x v hid, Interp.find?_bindIn _ id j x x v (hsize ▸ hid),
          Interp.find?_bindIn _ id shield x x v hid]
        by_cases hj : id = j
        · exact .inl (by simp [hj])
        · rcases h.agree x j with heq | ⟨hhidden, hbound⟩
          · exact .inl (by simp [hj, heq])
          · refine .inr ⟨hhidden, ?_⟩
            split
            · rfl
            · exact hbound
      · rw [Interp.bindIn_of_size_le s x v (Nat.le_of_not_lt hid),
          Interp.bindIn_of_size_le _ x v (hsize ▸ Nat.le_of_not_lt hid)]
        exact h.agree x j
    · rw [Interp.find?_bindIn_of_ne _ id j v hxy, Interp.find?_bindIn_of_ne _ id j v hxy,
        Interp.find?_bindIn_of_ne _ id shield v hxy]
      exact h.agree y j
  · intro j hj
    show j.index < (s.scopes.modify _ _).size
    rw [Array.size_modify]
    exact h.exist j hj

/-- A new scope that binds the same in both states. -/
theorem allocScope {bindings bindings' : Scope}
    (hsame : ∀ x, bindings'.find? x = bindings.find? x) :
    Veil hidden shield (s.allocScope bindings).2 (t.allocScope bindings').2 := by
  obtain ⟨b, hsize, rfl⟩ := h.apart
  refine ⟨⟨⟨b.push bindings', ?_, rfl⟩, ?_⟩, h.seen, ?_, h.captured⟩
  · simp [Interp.allocScope, hsize]
  · intro x id
    rw [Interp.scope_allocScope, Interp.scope_allocScope, Interp.scope_allocScope]
    rw [show (s.withScopes b).scopes.size = s.scopes.size from hsize]
    split
    · exact .inl (hsame x)
    · rcases h.agree x id with heq | ⟨hhidden, hbound⟩
      · exact .inl heq
      · refine .inr ⟨hhidden, ?_⟩
        rw [if_neg (Nat.ne_of_lt (Interp.lt_of_find?_scope hbound))]
        exact hbound
  · intro id hid
    show id.index < (s.scopes.push bindings).size
    rw [Array.size_push]
    exact Nat.lt_succ_of_lt (h.exist id hid)

theorem allocCallable {f : Callable} (hf : ∀ c, f.closure? = some c → ¬ hidden c.captured) :
    Veil hidden shield (s.allocCallable f).2 (t.allocCallable f).2 := by
  obtain ⟨b, hsize, rfl⟩ := h.apart
  refine ⟨⟨⟨b, hsize, rfl⟩, h.agree⟩, h.seen, h.exist, fun g c hc => ?_⟩
  by_cases hlast : g.index = s.callables.size
  · have hnew : (s.allocCallable f).2.callable g = f := by
      simp [Interp.allocCallable, Interp.callable, hlast]
    rw [hnew] at hc
    exact hf c hc
  · have hold : (s.allocCallable f).2.callable g = s.callable g := by
      simp [Interp.allocCallable, Interp.callable, Array.getElem?_push, hlast]
    rw [hold] at hc
    exact h.captured g c hc

/-- What names stand for has nothing to do with scopes. -/
theorem naming {c : Change} (hc : c.Naming) : Veil hidden shield (c.apply s) (c.apply t) := by
  obtain ⟨b, hsize, rfl⟩ := id h.apart
  have hscopes : (c.apply s).scopes = s.scopes := by rw [hc.apply_eq]
  have hcallables : (c.apply s).callables = s.callables := by rw [hc.apply_eq]
  have hlimit : (c.apply s).limit = s.limit := by rw [hc.apply_eq]
  have happly : c.apply (s.withScopes b) = (c.apply s).withScopes b := by
    rw [Interp.withScopes_eq_under, hc.apply_under]
    unfold Interp.under Interp.withScopes
    rw [hlimit]
  rw [happly]
  exact h.elsewhere hscopes hcallables

/-- A keyword is new in both states or in neither. -/
theorem keyword (name : String) :
    Veil hidden shield (Change.apply s (.keyword name)) (Change.apply t (.keyword name)) := by
  obtain ⟨b, hsize, rfl⟩ := id h.apart
  show Veil hidden shield (s.resultOf (s.internKeyword name))
    ((s.withScopes b).resultOf ((s.withScopes b).internKeyword name))
  have hintern : (s.withScopes b).internIn .keywords name = _ :=
    ScopeFree.internIn s (s.withScopes b) .keywords name
  unfold Interp.internKeyword
  rw [show (s.withScopes b).namespaceAt = s.namespaceAt from rfl, hintern]
  cases (s.namespaceAt .keywords).find? name with
  | some x => exact h
  | none =>
    have hinterned : Veil hidden shield (Change.apply s (.intern .keywords name))
        (Change.apply (s.withScopes b) (.intern .keywords name)) := h.naming trivial
    replace hinterned : Veil hidden shield (s.resultOf (s.internIn .keywords name))
        ((s.withScopes b).resultOf ((s.withScopes b).internIn .keywords name)) := hinterned
    rw [hintern] at hinterned
    cases hinterning : s.internIn .keywords name with
    | error cause => exact h
    | ok r =>
      rw [hinterning] at hinterned
      exact hinterned.bindIn .global r.1 (.symbol r.1)

theorem change (hcovered : Covered hidden shield s.chain) (c : Change) :
    Veil hidden shield (c.apply s) (c.apply t) := by
  obtain ⟨b, hsize, rfl⟩ := id h.apart
  cases c with
  | store v place =>
    have hstore : (s.withScopes b).store v place = (s.store v place).under (s.withScopes b) :=
      ScopeFree.store s (s.withScopes b) v place
    show Veil hidden shield (s.store v place) ((s.withScopes b).store v place)
    rw [hstore]
    cases place <;> exact h.elsewhere rfl rfl
  | scope => exact h.allocScope fun _ => rfl
  | function expands xs arguments =>
    have hallocated := h.allocScope (h.find?_captured hcovered)
    have hnew : ¬ hidden ⟨s.scopes.size⟩ := fun hhidden => Nat.lt_irrefl _ (h.exist _ hhidden)
    let c : Closure := ⟨xs, ⟨s.scopes.size⟩, s.rest arguments⟩
    have hclosure : ∀ c', (Callable.ofClosure expands c).closure? = some c' →
        ¬ hidden c'.captured := by
      intro c' hc'
      cases expands <;> cases hc' <;> exact hnew
    have hfunction := hallocated.allocCallable hclosure
    let t := s.withScopes b
    show Veil hidden shield _ ((t.allocScope t.captured).2.allocCallable
      (Callable.ofClosure expands ⟨xs, ⟨b.size⟩, t.rest arguments⟩)).2
    rw [show t.rest arguments = s.rest arguments from ScopeFree.rest s t arguments, hsize]
    exact hfunction
  | bind id x v => exact h.bindIn id x v
  | keyword name => exact h.keyword name
  | intern | create | select | use => exact h.naming trivial
  | _ => exact h.elsewhere rfl rfl

theorem withFrames (chain : List ScopeId) (depths : Depths) (active : Nat) :
    Veil hidden shield (s.withFrames chain depths active) (t.withFrames chain depths active) := by
  obtain ⟨b, hsize, rfl⟩ := id h.apart
  exact ⟨⟨⟨b, hsize, rfl⟩, h.agree⟩, h.seen, h.exist, h.captured⟩

theorem pushScope (id : ScopeId) : Veil hidden shield (s.pushScope id) (t.pushScope id) := by
  have hpushed := h.withFrames (id :: s.chain) s.depths s.active
  obtain ⟨b, -, rfl⟩ := h.apart
  exact hpushed

theorem popScope : Veil hidden shield s.popScope t.popScope := by
  have hpopped := h.withFrames s.chain.tail s.depths s.active
  obtain ⟨b, -, rfl⟩ := h.apart
  exact hpopped

end Veil

/-- States that are veiled from each other, with the hidden scopes under the shield. -/
def Pairing.veiled (hidden : ScopeId → Prop) (shield : ScopeId) : Pairing where
  strict := False
  hosted := False
  oneSided := False
  rel s t := Veil hidden shield s t ∧ Covered hidden shield s.chain
  opens id := ¬ hidden id
  apart {s t} h := by
    obtain ⟨b, hsize, rfl⟩ := h.1.apart
    exact ⟨s.withScopes b, hsize, rfl⟩
  live _ := False.elim
  lookup h := h.1.lookup h.2
  holder h := h.1.holder h.2
  change {s t c} h _ := by
    refine ⟨h.1.change h.2 c, ?_⟩
    rw [Change.chain_apply]
    exact h.2
  depths {s t} h depths := by
    have hframes := h.1.withFrames s.chain depths s.active
    obtain ⟨b, -, rfl⟩ := h.1.apart
    exact ⟨hframes, h.2⟩
  opens_new h hhidden := Nat.lt_irrefl _ (h.1.exist _ hhidden)
  opens_captured h := h.1.captured _ _
  push h hid := ⟨h.1.pushScope _, h.2.push hid⟩
  pop {s t u w id} h h' hchain := by
    refine ⟨h'.1.popScope, ?_⟩
    show Covered hidden shield u.chain.tail
    rw [hchain]
    exact h.2

theorem Pairing.counts_veiled (hidden : ScopeId → Prop) (shield : ScopeId) :
    (veiled hidden shield).Counts where
  limit h := by
    obtain ⟨b, -, rfl⟩ := h.1.apart
    rfl
  active {s t} h active := by
    have hframes := h.1.withFrames s.chain s.depths active
    obtain ⟨b, -, rfl⟩ := h.1.apart
    exact ⟨hframes, h.2⟩

/-! ## Calls -/

/-- Whether the arguments fit is decided before the call. -/
theorem Evaluator.applyReady_eq (hosts : HostTable) (evaluator : Evaluators) (n : Nat)
    (context : Value) (id : FunctionId) (arguments : Value) (s : Interp) :
    applyReady hosts evaluator n context id arguments s =
      match fit s id arguments with
      | .dotted => EvalM.failEvaluation (.dottedArguments (s.print arguments)) s
      | .short expected got => EvalM.fail (.arity expected got none) s
      | .fits f => f.call hosts evaluator n context id arguments s := by
  unfold applyReady
  change EStateM.bind (EvalM.read fun s => fit s id arguments) _ s = _
  unfold EStateM.bind EvalM.read
  dsimp only
  cases fit s id arguments <;> rfl

namespace Veil

variable {hidden : ScopeId → Prop} {s t : Interp} {c : Closure}

/-- In the frame of a closure its captured scope is the shield, whatever the caller's scopes are. -/
theorem run {ev : Evaluators} {context : Value} (h : Veil hidden c.captured s t)
    (hev : (Pairing.veiled hidden c.captured).Keeps (ev context) (ev context)) (arguments : Value)
    (this : Option Value) :
    Alike (Veil hidden c.captured) (c.run ev context arguments this s)
      (c.run ev context arguments this t) := by
  let P := Pairing.veiled hidden c.captured
  have hsize : t.scopes.size = s.scopes.size := by
    obtain ⟨b, hsize, rfl⟩ := h.apart
    exact hsize
  have hopens : P.opens ⟨s.scopes.size⟩ := fun hhidden => Nat.lt_irrefl _ (h.exist _ hhidden)
  let u := (s.allocScope .empty).2.pushScope c.captured
  let w := (t.allocScope .empty).2.pushScope c.captured
  have hrel : P.rel u w := by
    have hallocated : Veil hidden c.captured (s.allocScope .empty).2 (t.allocScope .empty).2 :=
      h.allocScope fun _ => rfl
    exact ⟨hallocated.pushScope c.captured, [], s.chain, rfl, nofun⟩
  let body := c.runBody ev context arguments this
  let act := EvalM.inScope ⟨s.scopes.size⟩ (EvalM.inFrame .call body)
  have hled : P.Led Value.Live u (act u) (act w) :=
    Pairing.Led.frame hev hrel hopens False.elim False.elim False.elim
  have ht : c.run ev context arguments this t = leaving Interp.popScope (act w) := by
    show leaving Interp.popScope (EvalM.inScope ⟨t.scopes.size⟩ _ w) = _
    rw [hsize]
  change Alike _ (leaving Interp.popScope (act u)) _
  rw [ht]
  generalize act u = r at hled
  generalize act w = r' at hled
  cases hled with
  | ok after _ => exact .ok after.rel.1.popScope
  | error after _ => exact .error after.rel.1.popScope
  | givenUp hgivenUp => exact hgivenUp.elim

theorem apply {m : Machine} {f : FunctionId} (h : Veil hidden c.captured s t)
    (hf : s.callable f = .lambda c) (hhosts : ∀ name arguments context,
      (m.hosts name arguments context).Sees fun u w => ∃ b, w = u.withScopes b)
    (context arguments : Value) :
    Alike (Veil hidden c.captured) (m.apply context f arguments s)
      (m.apply context f arguments t) := by
  let P := Pairing.veiled hidden c.captured
  have hshows : P.Shows Eq m.hosts m.hosts := by
    refine fun _ _ _ _ g _ _ => ⟨fun arguments context context' halike => ?_, False.elim⟩
    have hsees : (m.hosts g.program arguments context).Sees P.rel := by
      refine (hhosts g.program arguments context).mono fun u w huw => ?_
      obtain ⟨b, -, heq⟩ := huw.1.apart
      exact ⟨b, heq⟩
    rw [← halike]
    exact hsees.matches
  unfold Machine.apply Machine.evaluator
  cases m.fuel with
  | zero => exact .error h
  | succ n =>
    let ev : Evaluators := Evaluator.perform m.hosts n
    have hev : P.Keeps (ev context) (ev context) :=
      P.keeps_perform False.elim hshows (Pairing.counts_veiled hidden c.captured) n rfl
    change Alike _ (Evaluator.applyReady m.hosts _ n context f arguments s)
      (Evaluator.applyReady m.hosts _ n context f arguments t)
    obtain ⟨b, -, rfl⟩ := id h.apart
    have hsame := ScopeFree.fit s (s.withScopes b) f arguments
    have hprint := ScopeFree.print s (s.withScopes b) arguments
    rw [← Interp.withScopes_eq_under] at hsame hprint
    rw [Evaluator.applyReady_eq, Evaluator.applyReady_eq, hsame, hprint]
    cases hfit : Evaluator.fit s f arguments with
    | dotted => exact .error h
    | short expected got => exact .error h
    | fits g =>
      have hg : g = .lambda c := (Pairing.callable_of_fits hfit).symm.trans hf
      subst hg
      exact h.run hev arguments (some (.function f))

end Veil

/-- A scope other than the global one that no closure has captured. -/
def Interp.Private (s : Interp) (id : ScopeId) : Prop :=
  id ≠ .global ∧ ∀ f ∈ s.callables, ∀ c ∈ f.closure?, c.captured ≠ id

/-- What no closure has captured can be hidden behind what a lambda has. -/
theorem Veil.of_private {s t : Interp} {f : FunctionId} {c : Closure}
    (hf : s.callable f = .lambda c) (h : DiffersBehind s.Private c.captured s t) :
    Veil (fun id => s.Private id ∧ id.index < s.scopes.size) c.captured s t := by
  have hcaptured : ∀ g c', (s.callable g).closure? = some c' → ¬ s.Private c'.captured := by
    intro g c' hc' hprivate
    by_cases hlt : g.index < s.callables.size
    · have hcallable : s.callable g = s.callables[g.index] := by
        simp [Interp.callable, hlt]
      rw [hcallable] at hc'
      exact hprivate.2 _ (Array.getElem_mem hlt) c' hc' rfl
    · have hcallable : s.callable g = default := by
        simp [Interp.callable, hlt]
      rw [hcallable] at hc'
      cases hc'
  have hlambda : (s.callable f).closure? = some c := by rw [hf]; rfl
  refine ⟨⟨h.apart, fun x id => ?_⟩, ⟨fun hhidden => ?_, fun hhidden => hhidden.1.1 rfl⟩,
    fun _ hhidden => hhidden.2, fun g c' hc' hhidden => hcaptured g c' hc' hhidden.1⟩
  · rcases h.agree x id with heq | ⟨hprivate, hbound⟩
    · exact .inl heq
    · by_cases hlt : id.index < s.scopes.size
      · exact .inr ⟨⟨hprivate, hlt⟩, hbound⟩
      · -- no state has a scope there
        obtain ⟨b, hsize, rfl⟩ := h.apart
        have hlt' : ¬ id.index < b.size := hsize ▸ hlt
        exact .inl (by simp [Interp.scope, Interp.withScopes, hlt, hlt'])
  · exact hcaptured f c hlambda hhidden.1

/-- Where the caller's own scopes differ in symbols only that a lambda has captured, the call ends
in one way, and what it leaves differs in no more. -/
theorem callers_unseen {m : Machine} {s t : Interp} {f : FunctionId} {c : Closure}
    (hf : s.callable f = .lambda c) (h : DiffersBehind s.Private c.captured s t)
    (hhosts : ∀ name arguments context, (m.hosts name arguments context).Sees
      fun u w => ∃ b, w = u.withScopes b) (context arguments : Value) :
    Alike (DiffersBehind s.Private c.captured) (m.apply context f arguments s)
      (m.apply context f arguments t) := by
  refine ((Veil.of_private hf h).apply hf hhosts context arguments).mono fun u w huw => ?_
  refine ⟨huw.apart, fun x id => ?_⟩
  rcases huw.agree x id with heq | ⟨hhidden, hbound⟩
  · exact .inl heq
  · exact .inr ⟨hhidden.1, hbound⟩

/-! ## Callers with one binding -/

theorem Alike.answer_eq {α : Type} {rel : Interp → Interp → Prop} {act : EvalM α} {s t : Interp}
    (h : Alike rel (act s) (act t)) : act.answer? t = act.answer? s := by
  unfold EvalM.answer?
  generalize act s = r at h
  generalize act t = r' at h
  cases h <;> rfl

/-- A machine whose host only knows the empty list. -/
def Machine.alone : Machine := ⟨fun _ _ _ => .answer .nil, 20⟩

/-- A caller has bound symbols in a new scope. -/
def Interp.calling (s : Interp) (bindings : Scope) : Interp :=
  (s.allocScope bindings).2.pushScope ⟨s.scopes.size⟩

theorem Interp.scope_calling (s : Interp) (bindings : Scope) (id : ScopeId) :
    (s.calling bindings).scope id = if id.index = s.scopes.size then bindings else s.scope id :=
  s.scope_allocScope bindings id

theorem Interp.calling_apart (s : Interp) (bindings bindings' : Scope) :
    ∃ b, b.size = (s.calling bindings).scopes.size ∧
      s.calling bindings' = (s.calling bindings).withScopes b := by
  refine ⟨s.scopes.push bindings', ?_, rfl⟩
  simp [calling, allocScope, pushScope]

/-- Two callers differ in the scope that they have opened. -/
theorem Interp.scope_calling_of_not_mem (s : Interp) (bindings bindings' : Scope) {id : ScopeId}
    (h : id ∉ (s.calling bindings).chain) :
    (s.calling bindings').scope id = (s.calling bindings).scope id := by
  have hother : id.index ≠ s.scopes.size := by
    intro heq
    have hthis : id = ⟨s.scopes.size⟩ := by rw [← heq]
    exact h (hthis ▸ List.mem_cons_self)
  rw [scope_calling, scope_calling, if_neg hother, if_neg hother]

/-- Two callers that bind a captured symbol. -/
theorem DiffersBehind.calling {s : Interp} {shield : ScopeId} {x : SymbolId} (v w : Value)
    (hprivate : s.Private ⟨s.scopes.size⟩)
    (hbound : ((s.scope shield).find? x).isSome = true) :
    DiffersBehind s.Private shield (s.calling ⟨[(x, v)]⟩) (s.calling ⟨[(x, w)]⟩) := by
  refine ⟨s.calling_apart _ _, fun y id => ?_⟩
  rw [Interp.scope_calling, Interp.scope_calling, Interp.scope_calling,
    if_neg (Nat.ne_of_lt (Interp.lt_of_find?_scope hbound))]
  by_cases hid : id.index = s.scopes.size
  · have heq : id = ⟨s.scopes.size⟩ := by rw [← hid]
    by_cases hxy : x = y
    · subst hxy
      exact .inr ⟨heq ▸ hprivate, hbound⟩
    · rw [if_pos hid, if_pos hid]
      simp [Table.find?, Table.lookupIn?, hxy]
  · rw [if_neg hid, if_neg hid]
    exact .inl rfl

/-- Whatever a caller binds to a captured symbol, it is not seen. -/
theorem captured_binding_kept :
    ∃ (s : Interp) (f : FunctionId) (x : SymbolId), ∀ v,
      (Machine.alone.apply .nil f .nil).answer? (s.calling ⟨[(x, v)]⟩) = some (.ofNat 1) := by
  obtain ⟨s, hs⟩ : ∃ s, s = (Interp.initial 64).afterTexts
    [(.alone, "(var f (scope (var x 1) (lambda () x)))")] := ⟨_, rfl⟩
  have hf : s.callable ⟨50⟩ = .lambda ⟨[], ⟨2⟩, .cons ⟨3⟩⟩ := by
    rw [hs]
    decide +kernel
  have hprivate : s.Private ⟨s.scopes.size⟩ := by
    unfold Interp.Private
    rw [hs]
    decide +kernel
  have hbound : ((s.scope ⟨2⟩).find? ⟨55⟩).isSome = true := by
    rw [hs]
    decide +kernel
  have hanswer : (Machine.alone.apply .nil ⟨50⟩ .nil).answer? (s.calling ⟨[(⟨55⟩, .nil)]⟩) =
      some (.ofNat 1) := by
    rw [hs]
    decide +kernel
  refine ⟨s, ⟨50⟩, ⟨55⟩, fun v => ?_⟩
  have halike := callers_unseen (m := .alone) (s := s.calling ⟨[(⟨55⟩, .nil)]⟩) hf
    (DiffersBehind.calling .nil v hprivate hbound) (fun _ _ _ => .finish _) .nil .nil
  rw [halike.answer_eq, hanswer]

/-- What a caller binds to a symbol that a lambda has not captured is seen. -/
theorem caller_binding_seen :
    ∃ (s t : Interp) (f : FunctionId) (c : Closure), s.callable f = .lambda c ∧
      (∃ b, b.size = s.scopes.size ∧ t = s.withScopes b) ∧ ScopeId.global ∉ s.chain ∧
      (∀ id, id ∉ s.chain → t.scope id = s.scope id) ∧
      (Machine.alone.apply .nil f .nil).answer? s = some (.ofNat 2) ∧
      (Machine.alone.apply .nil f .nil).answer? t = some (.ofNat 1) := by
  let s := (Interp.initial 64).afterTexts [(.alone, "(var x 1)"), (.alone, "(var f (lambda () x))")]
  refine ⟨s.calling ⟨[(⟨54⟩, .ofNat 2)]⟩, s.calling .empty, ⟨50⟩, ⟨[], ⟨1⟩, .cons ⟨3⟩⟩, ?_,
    s.calling_apart _ _, ?_, fun id hid => s.scope_calling_of_not_mem _ _ hid, ?_, ?_⟩
  all_goals decide +kernel

end SmallLisp
