import SmallLisp.Proofs.ContextMark

/-!
# Requests that a piece of work needs

The parts of the evaluator are actions that get an evaluator for what is nested in them. Spent fuel
is passed on at once, so whether such an action asks for something shows when the fuel is spent on
that request: an action that asks for it is spent as well, and any other action does what it did.
`Needs` and `Ignores` are the two cases. The state in which the fuel is spent bears a mark, so that
they are told apart even if the action has no ending in the first place.

`Relays` says what a faithful action does with the endings of the requests that it needs. A fault of
its own is raw, and every other fault that it ends with is the fault of a request that it needs. A
fault of a request that it needs ends the action, with nothing evaluated after it but a form that is
always evaluated, and if that form fails all is open.

`Relays.follow` is the rule for actions that are put together; the others are cases of it.
-/

namespace SmallLisp

variable {α β : Type}

/-- The state that a result leaves. -/
def leftState : EStateM.Result Flow Interp α → Interp
  | .ok _ u | .error _ u => u

/-- The fault that a result ends with. -/
def faultOf : EStateM.Result Flow Interp α → Option Fault
  | .error (.fault f) _ => some f
  | _ => none

theorem faultOf_eq_some {r : EStateM.Result Flow Interp α} {f : Fault} :
    faultOf r = some f ↔ ∃ t, r = .error (.fault f) t := by
  cases r with
  | ok a t => simp [faultOf]
  | error flow t => cases flow <;> simp [faultOf]

/-- The fuel is spent in a state that bears a mark. The mark is the number of generated symbols,
because no frame changes it when it is left. -/
def SpentAt (mark : Nat) (r : EStateM.Result Flow Interp α) : Prop :=
  ∃ t, r = .error .spent t ∧ t.generated = mark

theorem SpentAt.mark_eq {mark mark' : Nat} {r : EStateM.Result Flow Interp α}
    (h : SpentAt mark r) (h' : SpentAt mark' r) : mark = mark' := by
  obtain ⟨t, rfl, rfl⟩ := h
  obtain ⟨u, hu, rfl⟩ := h'
  cases hu
  rfl

/-- An evaluator that spends the fuel on a request in the state `u`, and does what the given one
does in every other case. -/
structure Starves (evaluator : Evaluators) (context : Value) (r : Request) (u : Interp)
    (mark : Nat) (other : Evaluators) : Prop where
  same : ∀ c q t, ¬ (c = context ∧ q = r ∧ t = u) → other c q t = evaluator c q t
  spent : SpentAt mark (other context r u)

/-- However the fuel is spent on a request, the piece of work is spent with it. -/
def Needs (work : Evaluators → EStateM.Result Flow Interp α)
    (evaluator : Evaluators) (context : Value) (r : Request) (u : Interp) : Prop :=
  ∀ mark other, Starves evaluator context r u mark other → SpentAt mark (work other)

/-- The piece of work does the same when the fuel is spent on a request. -/
def Ignores (work : Evaluators → EStateM.Result Flow Interp α)
    (evaluator : Evaluators) (context : Value) (r : Request) (u : Interp) : Prop :=
  ∀ mark other, Starves evaluator context r u mark other → work other = work evaluator

theorem exists_starves (evaluator : Evaluators) (context : Value) (r : Request)
    (u : Interp) (mark : Nat) : ∃ other, Starves evaluator context r u mark other := by
  classical
  refine ⟨fun c q t => if c = context ∧ q = r ∧ t = u then
    .error .spent { t with generated := mark } else evaluator c q t, fun c q t h => if_neg h,
    { u with generated := mark }, if_pos ⟨rfl, rfl, rfl⟩, rfl⟩

theorem Ignores.not_needs {work : Evaluators → EStateM.Result Flow Interp α}
    {evaluator : Evaluators} {context : Value} {r : Request} {u : Interp}
    (h : Ignores work evaluator context r u) : ¬ Needs work evaluator context r u := by
  intro hneeds
  obtain ⟨zero, hzero⟩ := exists_starves evaluator context r u 0
  obtain ⟨one, hone⟩ := exists_starves evaluator context r u 1
  have h0 := hneeds 0 zero hzero
  have h1 := hneeds 1 one hone
  rw [h 0 zero hzero] at h0
  rw [h 1 one hone] at h1
  exact Nat.zero_ne_one (h0.mark_eq h1)

/-- What is computed from the answer to one request needs no other. -/
theorem eq_of_needs {evaluator : Evaluators} {context : Value} {r q : Request}
    {s u : Interp} (change : EStateM.Result Flow Interp Value → EStateM.Result Flow Interp α)
    (h : Needs (fun ev => change (ev context r s)) evaluator context q u) : q = r ∧ u = s := by
  by_contra hne
  have hignores : Ignores (fun ev => change (ev context r s)) evaluator context q u := by
    intro mark other hother
    exact congrArg change (hother.same context r s fun h => hne ⟨h.2.1.symm, h.2.2.symm⟩)
  exact hignores.not_needs h

/-- A form of `always`, in the state that goes with it, is needed and does not end with a value. -/
def AlwaysFails (always : Value → Interp → Prop)
    (work : Evaluators → EStateM.Result Flow Interp α) (evaluator : Evaluators)
    (context : Value) : Prop :=
  ∃ form u flow t, always form u ∧ Needs work evaluator context (.evaluate form) u ∧
    evaluator context (.evaluate form) u = .error flow t

/-- What a piece of work does with the requests that it needs. It may have a fault to pass on from
the start. -/
structure Relays (evaluator : Evaluators) (context : Value)
    (always : Value → Interp → Prop) (pending : Option Fault)
    (work : Evaluators → EStateM.Result Flow Interp α) : Prop where
  native : (leftState (work evaluator)).Native
  asked : ∀ r u, Needs work evaluator context r u → u.Native
  strict : ∀ r u, Needs work evaluator context r u ∨ Ignores work evaluator context r u
  source : ∀ f, faultOf (work evaluator) = some f → f.Raw ∨ pending = some f ∨
    ∃ r u, Needs work evaluator context r u ∧ faultOf (evaluator context r u) = some f
  owed : ∀ f, pending = some f →
    faultOf (work evaluator) = some f ∨ AlwaysFails always work evaluator context
  relay : ∀ r u f, Needs work evaluator context r u → faultOf (evaluator context r u) = some f →
    faultOf (work evaluator) = some f ∨ AlwaysFails always work evaluator context

/-- What is asked in native states is answered in native states. -/
def KeepsNative (evaluator : Evaluators) (context : Value) : Prop :=
  ∀ r u, u.Native → (leftState (evaluator context r u)).Native

namespace Relays

variable {evaluator : Evaluators} {context : Value} {always : Value → Interp → Prop}
  {pending : Option Fault}

/-! ## Rules -/

/-- A result for which nothing is asked. -/
theorem const {r : EStateM.Result Flow Interp α} (hnative : (leftState r).Native)
    (hsource : ∀ f, faultOf r = some f → f.Raw ∨ pending = some f)
    (howed : ∀ f, pending = some f → faultOf r = some f) :
    Relays evaluator context always pending fun _ => r := by
  have hignores : ∀ q u, Ignores (fun _ => r) evaluator context q u := fun _ _ _ _ _ => rfl
  constructor
  case native => exact hnative
  case asked => exact fun q u h => absurd h (hignores q u).not_needs
  case strict => exact fun q u => .inr (hignores q u)
  case source => exact fun f hf => (hsource f hf).imp_right .inl
  case owed => exact fun f hf => .inl (howed f hf)
  case relay => exact fun q u _ h _ => absurd h (hignores q u).not_needs

/-- A request by itself. -/
theorem ask (hev : KeepsNative evaluator context) {r : Request} {s : Interp} (hs : s.Native) :
    Relays evaluator context always none fun ev => ev context r s := by
  have hneeded : Needs (fun ev => ev context r s) evaluator context r s :=
    fun mark other hother => hother.spent
  constructor
  case native => exact hev r s hs
  case asked =>
    intro q u h
    rw [(eq_of_needs id h).2]
    exact hs
  case strict =>
    intro q u
    by_cases heq : r = q ∧ s = u
    · obtain ⟨rfl, rfl⟩ := heq
      exact .inl hneeded
    · exact .inr fun mark other hother => hother.same context r s fun h => heq h.2
  case source => exact fun f hf => .inr (.inr ⟨r, s, hneeded, hf⟩)
  case owed => exact fun f hf => by cases hf
  case relay =>
    intro q u f h hf
    obtain ⟨rfl, rfl⟩ := eq_of_needs id h
    exact .inl hf

section Follow

variable {work : Evaluators → EStateM.Result Flow Interp α}
  (next : Evaluators → EStateM.Result Flow Interp α → EStateM.Result Flow Interp β)
  {r : Request} {u : Interp}

/-- What a piece of work needs, the whole needs. -/
theorem needs_first (hspent : ∀ ev mark r, SpentAt mark r → SpentAt mark (next ev r))
    (h : Needs work evaluator context r u) :
    Needs (fun ev => next ev (work ev)) evaluator context r u :=
  fun mark other hother => hspent other mark _ (h mark other hother)

/-- What the rest needs after a piece of work, the whole needs. -/
theorem needs_rest (hspent : ∀ ev mark r, SpentAt mark r → SpentAt mark (next ev r))
    (hwork : Relays evaluator context always pending work)
    (h : Needs (fun ev => next ev (work evaluator)) evaluator context r u) :
    Needs (fun ev => next ev (work ev)) evaluator context r u := by
  rcases hwork.strict r u with hfirst | hignores
  · exact needs_first next hspent hfirst
  · intro mark other hother
    show SpentAt mark (next other (work other))
    rw [hignores mark other hother]
    exact h mark other hother

theorem needs_follow (hwork : Relays evaluator context always pending work)
    (h : Needs (fun ev => next ev (work ev)) evaluator context r u) :
    Needs work evaluator context r u ∨
      Needs (fun ev => next ev (work evaluator)) evaluator context r u := by
  refine (hwork.strict r u).imp_right fun hignores mark other hother => ?_
  have hwhole : SpentAt mark (next other (work other)) := h mark other hother
  rw [hignores mark other hother] at hwhole
  exact hwhole

/-- One piece of work after another. The second may look at how the first ended, passes spent fuel
on, and has the fault of the first to pass on. -/
theorem follow (hwork : Relays evaluator context always pending work)
    (hspent : ∀ ev mark r, SpentAt mark r → SpentAt mark (next ev r))
    (hnext : ∀ r, work evaluator = r → (leftState r).Native →
      Relays evaluator context always (faultOf r) fun ev => next ev r) :
    Relays evaluator context always pending fun ev => next ev (work ev) := by
  have hrest := hnext _ rfl hwork.native
  have hrestFails : AlwaysFails always (fun ev => next ev (work evaluator)) evaluator context →
      AlwaysFails always (fun ev => next ev (work ev)) evaluator context := by
    rintro ⟨form, u, flow, t, hform, hneeds, hflow⟩
    exact ⟨form, u, flow, t, hform, needs_rest next hspent hwork hneeds, hflow⟩
  -- a fault of the first is passed on
  have hpassed : ∀ f,
      faultOf (work evaluator) = some f ∨ AlwaysFails always work evaluator context →
      faultOf (next evaluator (work evaluator)) = some f ∨
        AlwaysFails always (fun ev => next ev (work ev)) evaluator context := by
    rintro f (hfault | ⟨form, u, flow, t, hform, hneeds, hflow⟩)
    · exact (hrest.owed f hfault).imp_right hrestFails
    · exact .inr ⟨form, u, flow, t, hform, needs_first next hspent hneeds, hflow⟩
  constructor
  case native => exact hrest.native
  case asked =>
    intro r u h
    rcases needs_follow next hwork h with h | h
    · exact hwork.asked r u h
    · exact hrest.asked r u h
  case strict =>
    intro r u
    rcases hwork.strict r u with hfirst | hignores
    · exact .inl (needs_first next hspent hfirst)
    rcases hrest.strict r u with hlater | hignoresToo
    · exact .inl (needs_rest next hspent hwork hlater)
    · refine .inr fun mark other hother => ?_
      show next other (work other) = _
      rw [hignores mark other hother]
      exact hignoresToo mark other hother
  case source =>
    intro f hf
    rcases hrest.source f hf with hraw | hfirst | ⟨r, u, hneeds, hfault⟩
    · exact .inl hraw
    · rcases hwork.source f hfirst with hraw | hpending | ⟨r, u, hneeds, hfault⟩
      · exact .inl hraw
      · exact .inr (.inl hpending)
      · exact .inr (.inr ⟨r, u, needs_first next hspent hneeds, hfault⟩)
    · exact .inr (.inr ⟨r, u, needs_rest next hspent hwork hneeds, hfault⟩)
  case owed => exact fun f hf => hpassed f (hwork.owed f hf)
  case relay =>
    intro r u f h hf
    rcases needs_follow next hwork h with hfirst | hlater
    · exact hpassed f (hwork.relay r u f hfirst hf)
    · exact (hrest.relay r u f hlater hf).imp_right hrestFails

end Follow

/-- A result that nothing is owed for, with a raw fault or none. -/
theorem ending {r : EStateM.Result Flow Interp α} (hnative : (leftState r).Native)
    (hraw : ∀ f, faultOf r = some f → f.Raw) :
    Relays evaluator context always none fun _ => r :=
  const hnative (fun f hf => .inl (hraw f hf)) nofun

/-- A result without a fault. -/
theorem faultless {r : EStateM.Result Flow Interp α} (hnative : (leftState r).Native)
    (hnone : faultOf r = none) : Relays evaluator context always none fun _ => r := by
  refine ending hnative fun f hf => ?_
  rw [hnone] at hf
  cases hf

theorem passed (f : Fault) {s : Interp} (hs : s.Native) :
    Relays evaluator context always (some f) fun _ =>
      (.error (.fault f) s : EStateM.Result Flow Interp α) :=
  const hs (fun _ hf => .inr hf) fun _ hf => hf

theorem value (a : α) {s : Interp} (hs : s.Native) :
    Relays evaluator context always none fun _ => (.ok a s : EStateM.Result Flow Interp α) :=
  faultless hs rfl

theorem fault {f : Fault} {s : Interp} (hs : s.Native) (hf : f.Raw) :
    Relays evaluator context always none fun _ =>
      (.error (.fault f) s : EStateM.Result Flow Interp α) :=
  ending hs fun _ h => Option.some.inj h ▸ hf

/-- A change of the result that keeps faults and spent fuel. -/
theorem map {work : Evaluators → EStateM.Result Flow Interp α}
    {change : EStateM.Result Flow Interp α → EStateM.Result Flow Interp β}
    (hwork : Relays evaluator context always pending work)
    (hnative : ∀ r, (leftState r).Native → (leftState (change r)).Native)
    (hfault : ∀ r, faultOf (change r) = faultOf r)
    (hspent : ∀ mark r, SpentAt mark r → SpentAt mark (change r)) :
    Relays evaluator context always pending fun ev => change (work ev) :=
  follow (fun _ => change) hwork (fun _ => hspent) fun r _ hr =>
    const (hnative r hr) (fun _ hf => .inr ((hfault r).symm.trans hf))
      fun _ hf => (hfault r).trans hf

theorem bind {act : Evaluators → EvalM α} {next : α → Evaluators → EvalM β}
    {s : Interp} (h : Relays evaluator context always none fun ev => act ev s)
    (hnext : ∀ a t, act evaluator s = .ok a t → t.Native →
      Relays evaluator context always none fun ev => next a ev t) :
    Relays evaluator context always none fun ev => (act ev >>= fun a => next a ev) s := by
  let rest (ev : Evaluators) : EStateM.Result Flow Interp α → EStateM.Result Flow Interp β
    | .ok a t => next a ev t
    | .error flow t => .error flow t
  have hrest : Relays evaluator context always none fun ev => rest ev (act ev s) := by
    refine h.follow rest ?_ fun r hr hnative => ?_
    · rintro ev mark _ ⟨t, rfl, hmark⟩
      exact ⟨t, rfl, hmark⟩
    · cases r with
      | ok a t => exact hnext a t hr hnative
      | error flow t =>
        cases flow with
        | fault f => exact passed f hnative
        | signal exit => exact faultless hnative rfl
        | aborted why => exact faultless hnative rfl
  have hsame : ∀ ev, (act ev >>= fun a => next a ev) s = rest ev (act ev s) := by
    intro ev
    show EStateM.bind _ _ s = _
    unfold EStateM.bind
    cases act ev s <;> rfl
  rw [funext hsame]
  exact hrest

/-- What is read off the state is known afterwards. -/
theorem read_bind {f : Interp → α} {next : α → Evaluators → EvalM β} {s : Interp}
    (h : Relays evaluator context always none fun ev => next (f s) ev s) :
    Relays evaluator context always none fun ev => (EvalM.read f >>= fun a => next a ev) s :=
  h

/-! ## Frames -/

theorem leaving {work : Evaluators → EStateM.Result Flow Interp α}
    (restore : Interp → Interp) (hwork : Relays evaluator context always pending work)
    (hrestore : ∀ u, u.Native → (restore u).Native)
    (hmark : ∀ u, (restore u).generated = u.generated) :
    Relays evaluator context always pending fun ev => SmallLisp.leaving restore (work ev) := by
  refine hwork.map (fun r hr => ?_) (fun r => ?_) ?_
  · cases r <;> exact hrestore _ hr
  · cases r with
    | ok a u => rfl
    | error flow u => cases flow <;> rfl
  · rintro mark _ ⟨t, rfl, rfl⟩
    exact ⟨restore t, rfl, hmark t⟩

theorem inScope {act : Evaluators → EvalM α} {s : Interp} {id : ScopeId}
    (h : Relays evaluator context always pending fun ev => act ev (s.pushScope id)) :
    Relays evaluator context always pending fun ev => EvalM.inScope id (act ev) s :=
  h.leaving Interp.popScope (fun _ hu => hu.congr rfl rfl rfl) fun _ => rfl

theorem inFrame {act : Evaluators → EvalM α} {s : Interp} {key : DepthKey}
    (h : Relays evaluator context always pending fun ev =>
      act ev { s with depths := s.depths.enter key }) :
    Relays evaluator context always pending fun ev => EvalM.inFrame key (act ev) s :=
  h.leaving (fun u => { u with depths := u.depths.leave key })
    (fun _ hu => hu.congr rfl rfl rfl) fun _ => rfl

/-! ## Forms that are always evaluated -/

theorem spentAt_following {keep : Interp → EStateM.Result Flow Interp Value} {mark : Nat}
    {r : EStateM.Result Flow Interp Value} (h : SpentAt mark r) :
    SpentAt mark (following keep r) := by
  obtain ⟨t, rfl, hmark⟩ := h
  exact ⟨t, rfl, hmark⟩

/-- An ending that is no fault is kept while a form is evaluated. -/
theorem kept (hev : KeepsNative evaluator context) {form : Value} {s : Interp} (hs : s.Native)
    {keep : Interp → EStateM.Result Flow Interp Value}
    (hnative : ∀ u, u.Native → (leftState (keep u)).Native)
    (hfault : ∀ u, faultOf (keep u) = none) : Relays evaluator context always none fun ev =>
      following keep (ev context (.evaluate form) s) := by
  refine (ask hev hs).map (fun r hr => ?_) (fun r => ?_) fun _ r => spentAt_following
  · cases r with
    | ok v u => exact hnative u hr
    | error flow u => exact hr
  · cases r with
    | ok v u => exact hfault u
    | error flow u => cases flow <;> rfl

/-- A fault is passed on after a form that is always evaluated, unless the form fails. -/
theorem last (hev : KeepsNative evaluator context) {form : Value} (f : Fault) {s : Interp}
    (halways : always form s) (hs : s.Native) : Relays evaluator context always (some f) fun ev =>
      following (fun u => .error (.fault f) u) (ev context (.evaluate form) s) := by
  have hasked : Relays evaluator context always none fun ev => ev context (.evaluate form) s :=
    ask hev hs
  have hnative := hasked.native
  have hneeded : Needs (fun ev => following (fun u => .error (.fault f) u)
      (ev context (.evaluate form) s)) evaluator context (.evaluate form) s :=
    fun mark other hother => spentAt_following hother.spent
  constructor
  case native =>
    cases hresult : evaluator context (.evaluate form) s <;>
      (rw [hresult] at hnative; exact hnative)
  case asked =>
    intro r u h
    rw [(eq_of_needs _ h).2]
    exact hs
  case strict =>
    intro r u
    rcases hasked.strict r u with hfirst | hignores
    · exact .inl fun mark other hother => spentAt_following (hfirst mark other hother)
    · exact .inr fun mark other hother => congrArg (following _) (hignores mark other hother)
  case source =>
    intro g hg
    cases hresult : evaluator context (.evaluate form) s with
    | ok v t =>
      rw [hresult] at hg
      exact .inr (.inl hg)
    | error flow t =>
      rw [hresult] at hg
      exact .inr (.inr ⟨.evaluate form, s, hneeded, hresult ▸ hg⟩)
  case owed =>
    intro g hg
    cases hg
    cases hresult : evaluator context (.evaluate form) s with
    | ok v t => exact .inl rfl
    | error flow t => exact .inr ⟨form, s, flow, t, halways, hneeded, hresult⟩
  case relay =>
    intro r u g h hg
    obtain ⟨rfl, rfl⟩ := eq_of_needs _ h
    obtain ⟨t, ht⟩ := faultOf_eq_some.mp hg
    refine .inl ?_
    rw [ht]
    rfl

/-- A form that is evaluated in any case, after an action that needs no such form itself. -/
theorem followedBy (hev : KeepsNative evaluator context) {form : Value}
    {act : Evaluators → EvalM Value} {s : Interp}
    (halways : always form (leftState (act evaluator s)))
    (h : Relays evaluator context always none fun ev => act ev s) :
    Relays evaluator context always none fun ev =>
      SpecialForm.followedBy (act ev) ((ev context).form form) s := by
  let rest (ev : Evaluators) (r : EStateM.Result Flow Interp Value) :
      EStateM.Result Flow Interp Value :=
    SpecialForm.followedBy (fun _ => r) ((ev context).form form) s
  have hrest : Relays evaluator context always none fun ev => rest ev (act ev s) := by
    refine h.follow rest ?_ fun r hr hnative => ?_
    · rintro ev mark _ ⟨t, rfl, hmark⟩
      exact ⟨t, rfl, hmark⟩
    · cases r with
      | ok v t => exact kept hev hnative (fun u hu => hu) fun _ => rfl
      | error flow t =>
        cases flow with
        | fault f =>
          rw [hr] at halways
          exact last hev f halways hnative
        | signal exit => exact kept hev hnative (fun u hu => hu) fun _ => rfl
        | aborted why => exact faultless hnative rfl
  have hsame : ∀ ev, SpecialForm.followedBy (act ev) ((ev context).form form) s =
      rest ev (act ev s) := by
    intro ev
    unfold SpecialForm.followedBy
    cases act ev s with
    | ok v t => rfl
    | error flow t => cases flow <;> rfl
  rw [funext hsame]
  exact hrest

end Relays

end SmallLisp
