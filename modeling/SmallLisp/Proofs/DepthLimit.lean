import SmallLisp.Proofs.Session

/-!
# The limit on active evaluations only cuts

`Evaluator.nested` is the evaluator with its count of active evaluations as an argument: a form is
evaluated while fewer than `limit` evaluations are active, and `refuse` is done in its place
otherwise. The evaluator of a state is the one for the limit of the state that refuses with the
fault. Where a refusal spends the fuel instead, a run ends in a way of the language only if none of
its evaluations is refused, whatever would have become of the fault. Such a run is the same under
every higher limit.

Nothing in the language reads the limit. A host function may, so what is said of a change of limit
is said for those that do not.
-/

namespace SmallLisp

namespace Evaluator

/-- Carry out a request while `active` evaluations are active. -/
def nested (hosts : HostTable) (refuse : EvalM Value) (limit : Nat) :
    Nat → Nat → Value → Evaluator
  | 0, _, _, _ => throw .spent
  | n + 1, active, context, .evaluate form =>
    if active < limit then
      EvalM.counted
        (evaluateActive hosts (nested hosts refuse limit n (active + 1)) n context form)
    else refuse
  | n + 1, active, context, .apply id arguments =>
    applyReady hosts (nested hosts refuse limit n active) n context id arguments

end Evaluator

/-! ## Changes do not read the limit -/

theorem Interp.withLimit_eq_under (s : Interp) (limit : Nat) :
    s.withLimit limit = s.under (s.withLimit limit) := rfl

theorem Change.apply_withLimit (s : Interp) (c : Change) (limit : Nat) :
    c.apply (s.withLimit limit) = (c.apply s).withLimit limit := by
  cases c
  case store v place =>
    have hstore := ScopeFree.store s (s.withLimit limit) v place
    cases place <;> exact hstore
  case function expands xs arguments =>
    have hrest := ScopeFree.rest s (s.withLimit limit) arguments
    rw [← Interp.withLimit_eq_under] at hrest
    show (SpecialForm.allocClosure (.ofClosure expands) xs arguments (s.withLimit limit)).2 = _
    unfold SpecialForm.allocClosure
    dsimp only
    rw [hrest]
    rfl
  case keyword name =>
    show (s.withLimit limit).resultOf ((s.withLimit limit).internKeyword name) =
      (s.resultOf (s.internKeyword name)).withLimit limit
    have hintern := ScopeFree.internIn s (s.withLimit limit) .keywords name
    rw [← Interp.withLimit_eq_under] at hintern
    unfold Interp.internKeyword
    rw [show (s.withLimit limit).namespaceAt = s.namespaceAt from rfl, hintern]
    cases (s.namespaceAt .keywords).find? name with
    | some x => rfl
    | none =>
      cases hinterned : s.internIn .keywords name with
      | error cause => rfl
      | ok r =>
        show (r.2.under (s.withLimit limit)).bindGlobal r.1 (.symbol r.1) =
          (r.2.bindGlobal r.1 (.symbol r.1)).withLimit limit
        have hscopes : r.2.scopes = s.scopes := by rw [Interp.internIn_eq hinterned]
        unfold Interp.under Interp.withLimit
        rw [← hscopes]
        rfl
  case intern | create | select | use =>
    rw [Interp.withLimit_eq_under, Naming.apply_under, Naming.apply_eq]
    · rfl
    all_goals trivial
  all_goals rfl

/-! ## Runs under two limits -/

/-- The programs of a host function do not look at the limit. -/
def HostFunction.IgnoresLimit (hosts : HostTable) (f : HostFunction) : Prop :=
  ∀ arguments context, (hosts f.program arguments context).Sees
    fun u w => ∃ limit, w = u.withLimit limit

/-- States that differ in the limit, with `active` evaluations. One of the runs may be given up. -/
def Pairing.limited (oneSided : Prop) (good : HostFunction → Prop) (limit limit' active : Nat) :
    Pairing where
  strict := False
  hosted := False
  oneSided := oneSided
  rel s t := t = s.withLimit limit' ∧ s.limit = limit ∧ s.active = active ∧ s.HostsAre good
  opens _ := True
  apart {s t} h := ⟨s.withLimit limit', rfl, h.1⟩
  live _ := False.elim
  lookup h _ := by rw [h.1]; rfl
  holder h _ := by rw [h.1]; rfl
  change {s t c} h _ := by
    obtain ⟨-, hactive, hlimit⟩ := c.outside_apply s
    refine ⟨?_, hlimit.trans h.2.1, hactive.trans h.2.2.1, h.2.2.2.change c⟩
    rw [h.1, Change.apply_withLimit]
  depths h _ := ⟨by rw [h.1]; rfl, h.2⟩
  opens_new _ := trivial
  opens_captured _ _ := trivial
  push h _ := ⟨by rw [h.1]; rfl, h.2⟩
  pop _ h _ := ⟨by rw [h.1]; rfl, h.2⟩

namespace Pairing

open Evaluator (nested perform)

section Limited

variable {oneSided : Prop} {good : HostFunction → Prop} {limit limit' active : Nat} {s t : Interp}

/-- One more active evaluation, counted by both runs. -/
theorem limited_counted {act act' : EvalM Value}
    (hst : (limited oneSided good limit limit' active).rel s t)
    (h : ∀ s' t', (limited oneSided good limit limit' (active + 1)).rel s' t' →
      (limited oneSided good limit limit' (active + 1)).Led Value.Live s' (act s') (act' t')) :
    (limited oneSided good limit limit' active).Led Value.Live s (EvalM.counted act s)
      (EvalM.counted act' t) := by
  obtain ⟨rfl, hlimit, hactive, hhosts⟩ := hst
  have hstart : (limited oneSided good limit limit' (active + 1)).rel (s.withActive (s.active + 1))
      ((s.withLimit limit').withActive (s.active + 1)) :=
    ⟨rfl, hlimit, congrArg (· + 1) hactive, hhosts⟩
  refine .counted (Q := limited oneSided good limit limit' (active + 1)) Iff.rfl (fun h => h) ?_
    (fun hext hv => hv.mono hext) (h _ _ hstart)
  rintro u w ⟨rfl, hulimit, huactive, huhosts⟩
  have hback : u.active - 1 = active := by omega
  exact ⟨rfl, hulimit, hback, huhosts⟩

end Limited

/-- Host functions that do not look at the limit do the same under both limits. -/
theorem shows_limited {oneSided : Prop} {hosts : HostTable} {limit limit' active : Nat} :
    (limited oneSided (HostFunction.IgnoresLimit hosts) limit limit' active).Shows Eq hosts
      hosts := by
  rintro - s t id f ⟨-, -, -, hhosts⟩ hf
  refine ⟨?_, False.elim⟩
  rintro arguments context _ rfl
  have hsees := hhosts f (Interp.HostsAre.mem_of_callable hf) arguments context
  refine (hsees.mono ?_).matches
  rintro u w ⟨rfl, -⟩
  exact ⟨limit', rfl⟩

/-- Where refusals spend the fuel, a run that is not given up is the same under a higher limit,
whatever refusals do there. -/
theorem keeps_nested (hosts : HostTable) (refuse : EvalM Value) {limit limit' : Nat}
    (hle : limit ≤ limit') (n active : Nat) (context context' : Value) (heq : context = context') :
    (limited True (HostFunction.IgnoresLimit hosts) limit limit' active).Keeps
      (nested hosts (throw .spent) limit n active context)
      (nested hosts refuse limit' n active context') := by
  induction n generalizing active context context' with
  | zero => exact fun request s t hst _ => Led.aborted .spent hst
  | succ n ih =>
    intro request s t hst _
    cases request with
    | evaluate form =>
      unfold nested
      by_cases hactive : active < limit
      · rw [if_pos hactive, if_pos (Nat.lt_of_lt_of_le hactive hle)]
        exact limited_counted hst fun s' t' hst' =>
          Led.evaluateActive_of_hostless False.elim (ih (active + 1)) heq shows_limited hst'
            False.elim
      · rw [if_neg hactive]
        exact .givenUp trivial
    | apply id arguments =>
      exact Led.applyReady_of_hostless False.elim (ih active) heq shows_limited hst False.elim
        False.elim

/-- The counter of a state counts the evaluations around a request. -/
theorem keeps_perform_nested (hosts : HostTable) (limit n active : Nat) (context context' : Value)
    (heq : context = context') :
    (limited False (fun _ => True) limit limit active).Keeps (perform hosts n context)
      (nested hosts (EvalM.failEvaluation (.depthLimit limit)) limit n active context') := by
  induction n generalizing active context context' with
  | zero => exact fun request s t hst _ => Led.aborted .spent hst
  | succ n ih =>
    have hshows : ∀ active,
        (limited False (fun _ => True) limit limit active).Shows Eq hosts hosts := by
      refine fun active _ s t id f _ _ => ⟨?_, False.elim⟩
      rintro arguments context _ rfl
      refine (HostProgram.sees_of_eq ?_ _).matches
      rintro u w ⟨rfl, rfl, -⟩
      rfl
    intro request s t hst _
    cases request with
    | evaluate form =>
      show Led _ Value.Live s (EvalM.withinLimit (Evaluator.evaluateActive _ _ _ _ form) s) _
      obtain ⟨-, hlimit, hactive, -⟩ := id hst
      rw [EvalM.withinLimit_apply, hlimit, hactive]
      unfold nested
      by_cases hlt : active < limit
      · rw [if_neg (Nat.not_le_of_lt hlt), if_pos hlt]
        exact limited_counted hst fun s' t' hst' =>
          Led.evaluateActive_of_hostless False.elim (ih (active + 1)) heq (hshows _) hst'
            False.elim
      · rw [if_pos (Nat.le_of_not_lt hlt), if_neg hlt]
        exact .fail _ hst
    | apply id arguments =>
      exact Led.applyReady_of_hostless False.elim (ih active) heq (hshows _) hst False.elim
        False.elim

end Pairing

/-- A run that ends is followed by the other one in a related state. -/
theorem Alike.ends {rel : Interp → Interp → Prop} {act act' : EvalM Value} {s s' t : Interp}
    {ending : Ending Value} (h : Alike rel (act s) (act' s')) (hends : act.Ends s ending t) :
    ∃ w, rel t w ∧ act'.Ends s' ending w := by
  unfold EvalM.Ends at hends ⊢
  rw [hends] at h
  generalize act' s' = r' at h ⊢
  cases ending with
  | ok v =>
    change Alike rel (.ok v t) r' at h
    cases h with
    | ok h => exact ⟨_, h, rfl⟩
  | error stop =>
    cases stop with
    | fault cause =>
      change Alike rel (.error (.fault cause) t) r' at h
      cases h with
      | error h => exact ⟨_, h, rfl⟩
    | signal σ =>
      change Alike rel (.error (.signal σ) t) r' at h
      cases h with
      | error h => exact ⟨_, h, rfl⟩

namespace Evaluator

/-- The evaluator admits an evaluation while fewer are active than the limit says. -/
theorem perform_eq_nested (hosts : HostTable) (n : Nat) (context : Value) (request : Request)
    (s : Interp) :
    perform hosts n context request s =
      nested hosts (EvalM.failEvaluation (.depthLimit s.limit)) s.limit n s.active context request
        s := by
  have hst : (Pairing.limited False (fun _ => True) s.limit s.limit s.active).rel s s :=
    ⟨rfl, rfl, rfl, fun _ _ => trivial⟩
  have hled := Pairing.keeps_perform_nested hosts s.limit n s.active context context rfl request
    s s hst False.elim
  refine ((hled.alike False.elim).eq ?_).symm
  rintro u w ⟨rfl, hlimit, -⟩
  rw [← hlimit]
  rfl

/-- A run in which no evaluation is refused ends in the same way under every higher limit. -/
theorem nested_mono {hosts : HostTable} {s t : Interp} (refuse : EvalM Value) {limit : Nat}
    (hhosts : s.HostsAre (HostFunction.IgnoresLimit hosts))
    (hle : s.limit ≤ limit) {n : Nat} {context : Value} {request : Request} {ending : Ending Value}
    (hends : (nested hosts (throw .spent) s.limit n s.active context request).Ends s ending t) :
    t.limit = s.limit ∧
      (nested hosts refuse limit n s.active context request).Ends (s.withLimit limit) ending
        (t.withLimit limit) := by
  have hled := Pairing.keeps_nested hosts refuse hle n s.active context context rfl request s
    (s.withLimit limit) ⟨rfl, rfl, rfl, hhosts⟩ False.elim
  have hended : ∀ u, nested hosts (throw .spent) s.limit n s.active context request s ≠
      .error .spent u := by
    intro u heq
    unfold EvalM.Ends at hends
    rw [hends] at heq
    cases ending with
    | ok v => cases heq
    | error stop => cases stop <;> cases heq
  obtain ⟨w, ⟨rfl, hlimit, -⟩, hw⟩ := (hled.alike fun _ => hended).ends hends
  exact ⟨hlimit, hw⟩

end Evaluator

/-- Where no host function looks at the limit, a request that ends before any evaluation is refused
ends in the same way under every higher limit and leaves the same state. Under every limit an
evaluation is admitted only while fewer are active. -/
theorem depth_limit_only_cuts {hosts : HostTable} {s : Interp}
    (hhosts : s.HostsAre (HostFunction.IgnoresLimit hosts))
    (n : Nat) (context : Value) (request : Request) :
    (∀ ending t,
      (Evaluator.nested hosts (throw .spent) s.limit n s.active context request).Ends s ending
        t →
      (Evaluator.perform hosts n context request).Ends s ending t ∧
      ∀ limit, s.limit ≤ limit →
        (Evaluator.perform hosts n context request).Ends (s.withLimit limit) ending
          (t.withLimit limit)) ∧
    Evaluator.perform hosts n context request s =
      Evaluator.nested hosts (EvalM.failEvaluation (.depthLimit s.limit)) s.limit n s.active context
        request s := by
  refine ⟨fun ending t hends => ?_, Evaluator.perform_eq_nested hosts n context request s⟩
  have hraised : ∀ limit, s.limit ≤ limit → t.limit = s.limit ∧
      (Evaluator.perform hosts n context request).Ends (s.withLimit limit) ending
        (t.withLimit limit) := by
    intro limit hle
    obtain ⟨hlimit, hnested⟩ :=
      Evaluator.nested_mono (EvalM.failEvaluation (.depthLimit limit)) hhosts hle hends
    refine ⟨hlimit, ?_⟩
    unfold EvalM.Ends
    rw [Evaluator.perform_eq_nested]
    exact hnested
  obtain ⟨hlimit, hsame⟩ := hraised s.limit (Nat.le_refl _)
  have hkept : t.withLimit s.limit = t := by
    rw [← hlimit]
    rfl
  rw [hkept] at hsame
  exact ⟨hsame, fun limit hle => (hraised limit hle).2⟩

/-- A sum within a limit of three evaluations is the same sum within every higher one. -/
theorem sum_within_limits :
    ∃ (s t : Interp) (form : Value), s.limit = 3 ∧ s.lookup? ⟨54⟩ = some form ∧
      ∀ limit, 3 ≤ limit → (Machine.small.evaluator .nil (.evaluate form)).Ends (s.withLimit limit)
        (.ok (.ofNat 3)) (t.withLimit limit) := by
  obtain ⟨s, hs⟩ : ∃ s, s = (Interp.initial 3).afterTexts [(.small, "(var x (quote (+ 1 2)))")] :=
    ⟨_, rfl⟩
  have hhosts : s.HostsAre (HostFunction.IgnoresLimit Machine.small.hosts) := by
    have hsession : Session (fun _ => True) (.initial 3) s := hs ▸ Session.start.afterTexts _
    have htrace : Trace (fun u c => c.Sound u) (.initial 3) s :=
      hsession.sound (Interp.live_initial 3)
    exact .of_live (htrace.live (fun _ _ hc => hc) (Interp.live_initial 3))
  have hlimit : s.limit = 3 := by
    rw [hs]
    decide +kernel
  have hform : s.lookup? ⟨54⟩ = some (.cons ⟨2⟩) := by
    rw [hs]
    decide +kernel
  let act := Evaluator.nested Machine.small.hosts (throw .spent) s.limit Machine.small.fuel
    s.active .nil (.evaluate (.cons ⟨2⟩))
  have hanswer : act.answer? s = some (.ofNat 3) := by
    show (Evaluator.nested _ _ s.limit _ s.active _ _).answer? s = _
    rw [hs]
    decide +kernel
  obtain ⟨hcuts, -⟩ := depth_limit_only_cuts hhosts Machine.small.fuel .nil (.evaluate (.cons ⟨2⟩))
  obtain ⟨-, hraised⟩ := hcuts _ _ (EvalM.ends_of_answer? hanswer)
  refine ⟨s, act.final s, .cons ⟨2⟩, hlimit, hform, fun limit hle => ?_⟩
  exact hraised limit (hlimit.symm ▸ hle)

end SmallLisp
