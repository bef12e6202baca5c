import SmallLisp.Proofs.ScopeFree

/-!
# Pairs of runs

A `Pairing` relates two states that differ in the contents of scopes and in the limit only, in such
a way that symbols mean the same in both and that every change keeps the relation. `Led` says of the
results of two runs that they are the same answer in related states, that the first run was a trace
of changes, and that it gave back the chain of scopes. In a one-sided pairing nothing is said where
the first run spends its fuel. The two runs may be of different actions. The rules follow the ways
in which actions are put together. A state is paired with itself, so the rules also say what a
single run does.
-/

namespace SmallLisp

/-- A relation between the states of two runs that evaluations keep. -/
structure Pairing where
  /-- Whether the values that the runs work on are known to be live. -/
  strict : Prop
  /-- Whether there may be functions of the host among the live ones. -/
  hosted : Prop
  /-- Whether the first run may be given up where the second goes on. -/
  oneSided : Prop
  rel : Interp → Interp → Prop
  /-- The scopes that a run may enter. -/
  opens : ScopeId → Prop
  apart : ∀ {s t}, rel s t → ∃ o, o.scopes.size = s.scopes.size ∧ t = s.under o
  live : ∀ {s t}, rel s t → strict → s.LiveUnder hosted
  lookup : ∀ {s t}, rel s t → ∀ x, t.lookup? x = s.lookup? x
  holder : ∀ {s t}, rel s t → ∀ x, t.holder? x = s.holder? x
  change : ∀ {s t} {c : Change}, rel s t → c.Evaluates strict s → rel (c.apply s) (c.apply t)
  depths : ∀ {s t}, rel s t → ∀ depths,
    rel (s.withFrames s.chain depths s.active) (t.withFrames t.chain depths t.active)
  opens_new : ∀ {s t}, rel s t → opens ⟨s.scopes.size⟩
  opens_captured : ∀ {s t} {f : FunctionId} {c : Closure}, rel s t →
    (s.callable f).closure? = some c → opens c.captured
  push : ∀ {s t id}, rel s t → opens id → rel (s.pushScope id) (t.pushScope id)
  /-- What a scope was pushed on is met again when it is popped. -/
  pop : ∀ {s t u w id}, rel s t → rel u w → u.chain = id :: s.chain →
    rel u.popScope w.popScope

/-- The value that a flow carries exists. -/
def Flow.Live (s : Interp) : Flow → Prop
  | .signal (.returning v _) => v.Live s
  | _ => True

/-- A result with the frames restored in the state that it left. -/
def leaving {α : Type} (restore : Interp → Interp) :
    EStateM.Result Flow Interp α → EStateM.Result Flow Interp α
  | .ok a u => .ok a (restore u)
  | .error flow u => .error flow (restore u)

/-- The state with another count of active evaluations. -/
def Interp.withActive (s : Interp) (active : Nat) : Interp := { s with active := active }

/-- Run as one more active evaluation, whatever the limit is. -/
def EvalM.counted {α : Type} (act : EvalM α) : EvalM α := fun s =>
  leaving (fun u => u.withActive (u.active - 1)) (act (s.withActive (s.active + 1)))

/-- At the limit nothing is run. -/
theorem EvalM.withinLimit_apply {α : Type} (act : EvalM α) (s : Interp) :
    withinLimit act s =
      if s.limit ≤ s.active then failEvaluation (.depthLimit s.limit) s else counted act s :=
  rfl

/-- Two results that are one answer or one flow, in related states. -/
inductive Alike {α : Type} (rel : Interp → Interp → Prop) :
    EStateM.Result Flow Interp α → EStateM.Result Flow Interp α → Prop
  | ok {a : α} {u w : Interp} (h : rel u w) : Alike rel (.ok a u) (.ok a w)
  | error {flow : Flow} {u w : Interp} (h : rel u w) : Alike rel (.error flow u) (.error flow w)

theorem Alike.mono {α : Type} {rel rel' : Interp → Interp → Prop}
    {r r' : EStateM.Result Flow Interp α} (h : Alike rel r r') (hrel : ∀ u w, rel u w → rel' u w) :
    Alike rel' r r' := by
  cases h with
  | ok h => exact .ok (hrel _ _ h)
  | error h => exact .error (hrel _ _ h)

theorem Alike.eq {α : Type} {rel : Interp → Interp → Prop} {r r' : EStateM.Result Flow Interp α}
    (h : Alike rel r r') (hrel : ∀ u w, rel u w → w = u) : r' = r := by
  cases h with
  | ok h => rw [hrel _ _ h]
  | error h => rw [hrel _ _ h]

/-- What is left of an ending after a further action with this result. -/
def following (keep : Interp → EStateM.Result Flow Interp Value) :
    EStateM.Result Flow Interp Value → EStateM.Result Flow Interp Value
  | .ok _ u => keep u
  | .error flow u => .error flow u

/-- The result of an operation that changes the state only when it answers. -/
def concluding {ε α β : Type} (answer : α → β) (fault : ε → Fault) (s : Interp) :
    Except ε (α × Interp) → EStateM.Result Flow Interp β
  | .ok (a, u) => .ok (answer a) u
  | .error cause => .error (.fault (fault cause)) s

theorem EvalM.namespaceStep_apply {α : Type}
    (f : Interp → Except NamespaceFault (α × Interp)) (s : Interp) :
    namespaceStep f s = concluding id .namespaces s (f s) := by
  unfold namespaceStep concluding
  cases f s <;> rfl

theorem NamespaceForm.answer_apply
    (operation : Interp → Value → Except Fault (NamespaceId × Interp)) (arguments : Value)
    (s : Interp) :
    answer operation arguments s = concluding Value.names id s (operation s arguments) := by
  unfold answer concluding
  cases operation s arguments <;> rfl

namespace Pairing

variable (P : Pairing) {α β : Type} {s t u w : Interp}

/-- `u` and `w` come after `s` and what is paired with it. -/
structure After (s u w : Interp) : Prop where
  trace : Trace (Change.Evaluates P.strict) s u
  rel : P.rel u w
  chain : u.chain = s.chain

/-- Two runs led to one answer, which satisfies `good` if values are known to be live, or the first
run was given up. -/
inductive Led (good : Interp → α → Prop) (s : Interp) :
    EStateM.Result Flow Interp α → EStateM.Result Flow Interp α → Prop
  | ok {a : α} {u w : Interp} (after : P.After s u w) (hgood : P.strict → good u a) :
      Led good s (.ok a u) (.ok a w)
  | error {flow : Flow} {u w : Interp} (after : P.After s u w) (hflow : P.strict → flow.Live u) :
      Led good s (.error flow u) (.error flow w)
  | givenUp {u : Interp} {r : EStateM.Result Flow Interp α} (hgivenUp : P.oneSided) :
      Led good s (.error .spent u) r

variable {P} {good : Interp → α → Prop} {good' : Interp → β → Prop}

namespace After

theorem refl (hst : P.rel s t) : P.After s s t := ⟨.refl, hst, rfl⟩

theorem trans {u' w' : Interp} (h : P.After s u w) (h' : P.After u u' w') : P.After s u' w' :=
  ⟨h.trace.trans h'.trace, h'.rel, h'.chain.trans h.chain⟩

theorem extended (h : P.After s u w) : Extends s u := h.trace.extended

/-- What was live stays live. -/
theorem liveValue (h : P.After s u w) {v : Value} (hv : P.strict → v.Live s) :
    P.strict → v.Live u :=
  fun hstrict => (hv hstrict).mono h.extended

theorem change {c : Change} (hst : P.rel s t) (hc : c.Evaluates P.strict s) :
    P.After s (c.apply s) (c.apply t) :=
  ⟨.single hc, P.change hst hc, c.chain_apply s⟩

end After

namespace Led

/-- Where the first run is not given up, the results are alike. -/
theorem alike {r r' : EStateM.Result Flow Interp α} (h : P.Led good s r r')
    (hended : P.oneSided → ∀ u, r ≠ .error .spent u) : Alike P.rel r r' := by
  cases h with
  | ok after _ => exact .ok after.rel
  | error after _ => exact .error after.rel
  | givenUp hgivenUp => exact absurd rfl (hended hgivenUp _)

theorem pure {a : α} (hst : P.rel s t) (ha : P.strict → good s a) :
    P.Led good s ((Pure.pure a : EvalM α) s) ((Pure.pure a : EvalM α) t) :=
  .ok (.refl hst) ha

theorem fail (cause : Fault) (hst : P.rel s t) :
    P.Led good s ((EvalM.fail cause : EvalM α) s) ((EvalM.fail cause : EvalM α) t) :=
  .error (.refl hst) fun _ => trivial

theorem aborted (why : Abort) (hst : P.rel s t) :
    P.Led good s ((throw (.aborted why) : EvalM α) s) ((throw (.aborted why) : EvalM α) t) :=
  .error (.refl hst) fun _ => trivial

theorem trans {r r' : EStateM.Result Flow Interp α} (h : P.After s u w)
    (hr : P.Led good u r r') : P.Led good s r r' := by
  cases hr with
  | ok after hgood => exact .ok (h.trans after) hgood
  | error after hflow => exact .error (h.trans after) hflow
  | givenUp hgivenUp => exact .givenUp hgivenUp

theorem bind {act act' : EvalM α} {next next' : α → EvalM β} (h : P.Led good s (act s) (act' t))
    (hnext : ∀ a u w, P.After s u w → (P.strict → good u a) →
      P.Led good' u (next a u) (next' a w)) :
    P.Led good' s ((act >>= next) s) ((act' >>= next') t) := by
  change P.Led good' s (EStateM.bind act next s) (EStateM.bind act' next' t)
  unfold EStateM.bind
  generalize act s = r at h
  generalize act' t = r' at h
  cases h with
  | ok after hgood => exact trans after (hnext _ _ _ after hgood)
  | error after hflow => exact .error after hflow
  | givenUp hgivenUp => exact .givenUp hgivenUp

/-- What is read off both states is known afterwards. -/
theorem read_bind {f : Interp → α} {next next' : α → EvalM β} (hst : P.rel s t)
    (hf : ∀ o, f (s.under o) = f s) (h : P.Led good' s (next (f s) s) (next' (f s) t)) :
    P.Led good' s ((EvalM.read f >>= next) s) ((EvalM.read f >>= next') t) := by
  obtain ⟨o, -, rfl⟩ := P.apart hst
  change P.Led good' s (next (f s) s) (next' (f (s.under o)) (s.under o))
  rw [hf o]
  exact h

theorem read {f : Interp → α} (hst : P.rel s t) (hf : ∀ o, f (s.under o) = f s)
    (hgood : P.strict → good s (f s)) : P.Led good s (EvalM.read f s) (EvalM.read f t) := by
  obtain ⟨o, -, rfl⟩ := P.apart hst
  change P.Led good s (.ok (f s) s) (.ok (f (s.under o)) (s.under o))
  rw [hf o]
  exact .ok (.refl hst) hgood

/-- An answer that comes with a change. -/
theorem changed {c : Change} {a : α} (hst : P.rel s t) (hc : c.Evaluates P.strict s)
    (hgood : P.strict → good (c.apply s) a) :
    P.Led good s (.ok a (c.apply s)) (.ok a (c.apply t)) :=
  .ok (.change hst hc) hgood

/-- An operation fails and changes nothing, or it answers with a change. -/
theorem concluded {ε : Type} {f : Interp → Except ε (α × Interp)} {c : Change}
    (answer : α → β) (fault : ε → Fault) (hst : P.rel s t) (hs : c.apply s = s.resultOf (f s))
    (ht : c.apply t = t.resultOf (f t)) (hanswer : (f t).map Prod.fst = (f s).map Prod.fst)
    (hc : c.Evaluates P.strict s)
    (hgood : P.strict → ∀ a u, f s = .ok (a, u) → good' u (answer a)) :
    P.Led good' s (concluding answer fault s (f s)) (concluding answer fault t (f t)) := by
  have hafter : P.After s (c.apply s) (c.apply t) := .change hst hc
  rw [hs, ht] at hafter
  cases hfs : f s with
  | error cause =>
    rw [hfs] at hanswer
    cases hft : f t with
    | error cause' =>
      rw [hft] at hanswer
      cases hanswer
      exact .error (.refl hst) fun _ => trivial
    | ok r' =>
      rw [hft] at hanswer
      cases hanswer
  | ok r =>
    rw [hfs] at hanswer hafter
    cases hft : f t with
    | error cause' =>
      rw [hft] at hanswer
      cases hanswer
    | ok r' =>
      rw [hft] at hanswer hafter
      obtain ⟨a, u⟩ := r
      obtain ⟨a', w⟩ := r'
      cases hanswer
      exact .ok hafter fun hstrict => hgood hstrict a u hfs

/-- Where what is good stays good in states with more objects, leaving frames keeps it. Inside the
frames another pairing may hold. -/
theorem leave {Q : Pairing} {r r' : EStateM.Result Flow Interp α} {s₀ : Interp}
    (restore : Interp → Interp) (hstrict : P.strict → Q.strict) (hsided : Q.oneSided → P.oneSided)
    (h : Q.Led good s r r') (hgood : ∀ {u u' a}, Extends u u' → good u a → good u' a)
    (hafter : ∀ u w, Q.After s u w → P.After s₀ (restore u) (restore w))
    (hrestore : ∀ u, Extends u (restore u)) :
    P.Led good s₀ (leaving restore r) (leaving restore r') := by
  cases h with
  | ok after h => exact .ok (hafter _ _ after) fun hlive => hgood (hrestore _) (h (hstrict hlive))
  | @error flow u w after hflow =>
    refine .error (hafter _ _ after) fun hlive => ?_
    have hkept := hflow (hstrict hlive)
    cases flow with
    | signal σ =>
      cases σ with
      | returning v depth => exact Value.Live.mono hkept (hrestore u)
      | _ => trivial
    | _ => trivial
  | givenUp hgivenUp => exact .givenUp (hsided hgivenUp)

theorem inScope {id : ScopeId} {act act' : EvalM α} (hst : P.rel s t) (hid : P.opens id)
    (hgood : ∀ {u u' a}, Extends u u' → good u a → good u' a)
    (h : ∀ s' t', P.rel s' t' → Extends s s' → P.Led good s' (act s') (act' t')) :
    P.Led good s (EvalM.inScope id act s) (EvalM.inScope id act' t) := by
  change P.Led good s (leaving Interp.popScope _) (leaving Interp.popScope _)
  have hext : Extends s (s.pushScope id) := .outside rfl rfl rfl rfl rfl rfl rfl
  have hpushed : Trace (Change.Evaluates P.strict) s (s.pushScope id) :=
    .frames .refl (id :: s.chain) s.depths s.active
  have hafter : ∀ u w, P.After (s.pushScope id) u w → P.After s u.popScope w.popScope := by
    intro u w hu
    have hpopped : Trace (Change.Evaluates P.strict) s u.popScope :=
      .frames (hpushed.trans hu.trace) u.chain.tail u.depths u.active
    exact ⟨hpopped, P.pop hst hu.rel hu.chain, congrArg List.tail hu.chain⟩
  exact leave Interp.popScope (fun h => h) (fun h => h) (h _ _ (P.push hst hid) hext) hgood hafter
    fun u => .outside rfl rfl rfl rfl rfl rfl rfl

theorem inFrame {key : DepthKey} {act act' : EvalM α} (hst : P.rel s t)
    (hgood : ∀ {u u' a}, Extends u u' → good u a → good u' a)
    (h : ∀ s' t', P.rel s' t' → Extends s s' → P.Led good s' (act s') (act' t')) :
    P.Led good s (EvalM.inFrame key act s) (EvalM.inFrame key act' t) := by
  let enter (u : Interp) : Interp := { u with depths := u.depths.enter key }
  let restore (u : Interp) : Interp := { u with depths := u.depths.leave key }
  have hentered : P.rel (enter s) (enter t) := by
    have hdepths := P.depths hst (s.depths.enter key)
    obtain ⟨o, -, rfl⟩ := P.apart hst
    exact hdepths
  have hext : Extends s (enter s) := .outside rfl rfl rfl rfl rfl rfl rfl
  have hentering : Trace (Change.Evaluates P.strict) s (enter s) :=
    .frames .refl s.chain (s.depths.enter key) s.active
  have hafter : ∀ u w, P.After (enter s) u w → P.After s (restore u) (restore w) := by
    intro u w hu
    have hleft : Trace (Change.Evaluates P.strict) s (restore u) :=
      .frames (hentering.trans hu.trace) u.chain (u.depths.leave key) u.active
    have hdepths := P.depths hu.rel (u.depths.leave key)
    obtain ⟨o, -, rfl⟩ := P.apart hu.rel
    exact ⟨hleft, hdepths, hu.chain⟩
  change P.Led good s (leaving restore _) (leaving restore _)
  exact leave restore (fun h => h) (fun h => h) (h _ _ hentered hext) hgood hafter fun u =>
    .outside rfl rfl rfl rfl rfl rfl rfl

/-- What is done as one more active evaluation. Another pairing may hold inside. -/
theorem counted {Q : Pairing} {act act' : EvalM α} (hstrict : P.strict ↔ Q.strict)
    (hsided : Q.oneSided → P.oneSided)
    (hend : ∀ u w, Q.rel u w → P.rel (u.withActive (u.active - 1)) (w.withActive (w.active - 1)))
    (hgood : ∀ {u u' a}, Extends u u' → good u a → good u' a)
    (h : Q.Led good (s.withActive (s.active + 1)) (act (s.withActive (s.active + 1)))
      (act' (t.withActive (t.active + 1)))) :
    P.Led good s (EvalM.counted act s) (EvalM.counted act' t) := by
  have hstarting : Trace (Change.Evaluates P.strict) s (s.withActive (s.active + 1)) :=
    .frames .refl s.chain s.depths (s.active + 1)
  have hafter : ∀ u w, Q.After (s.withActive (s.active + 1)) u w →
      P.After s (u.withActive (u.active - 1)) (w.withActive (w.active - 1)) := by
    intro u w hu
    have htrace : Trace (Change.Evaluates P.strict) (s.withActive (s.active + 1)) u :=
      hu.trace.mono fun _ _ hc => ⟨hc.1, fun hlive => hc.2 (hstrict.mp hlive)⟩
    have hended : Trace (Change.Evaluates P.strict) s (u.withActive (u.active - 1)) :=
      .frames (hstarting.trans htrace) u.chain u.depths (u.active - 1)
    exact ⟨hended, hend u w hu.rel, hu.chain⟩
  change P.Led good s (leaving _ _) (leaving _ _)
  exact leave (fun u => u.withActive (u.active - 1)) hstrict.mp hsided h hgood hafter fun u =>
    .outside rfl rfl rfl rfl rfl rfl rfl

end Led

end Pairing

end SmallLisp
