import SmallLisp.Evaluator

/-!
# How runs settle

Every run of the evaluator gives back the scope chain, the depth counters and the count of active
evaluations as it found them, whatever its ending, and a signal that leaves it aims at a frame that
was running when it started. `Settled` says both of one result, with the condition on signals as a
parameter; `Balanced` says it of an action from every state. The lemmas here follow the ways in
which actions are put together; they say nothing about particular operations.
-/

namespace SmallLisp

/-- What a run has to give back: the active scopes, the depth counters and the active
evaluations. -/
structure SameFrames (s s' : Interp) : Prop where
  chain : s'.chain = s.chain
  depths : s'.depths = s.depths
  active : s'.active = s.active

theorem SameFrames.refl (s : Interp) : SameFrames s s := ⟨rfl, rfl, rfl⟩

theorem SameFrames.trans {s t u : Interp} (h : SameFrames s t) (h' : SameFrames t u) :
    SameFrames s u :=
  ⟨h'.chain.trans h.chain, h'.depths.trans h.depths, h'.active.trans h.active⟩

/-- A signal aims at the innermost running frame of its kind. -/
def Signal.Aimed (depths : Depths) (σ : Signal) : Prop :=
  0 < σ.depth ∧ σ.depth = depths.get σ.key

/-- Frames of one kind do not change at what a signal of another kind aims. -/
theorem Signal.aimed_of_enter {depths : Depths} {key : DepthKey} {σ : Signal}
    (h : σ.Aimed (depths.enter key)) (hkey : σ.key ≠ key) : σ.Aimed depths := by
  refine ⟨h.1, ?_⟩
  rw [h.2, Depths.enter, Depths.get_set, if_neg (Ne.symm hkey)]

variable {α β : Type} {P Q : Depths → Signal → Prop} {s t : Interp}

/-- The result of a run from `s` leaves the frames alone, and a signal satisfies `P`. -/
inductive Settled (P : Depths → Signal → Prop) (s : Interp) : EStateM.Result Flow Interp α → Prop
  | ok {a : α} {t : Interp} (frames : SameFrames s t) : Settled P s (.ok a t)
  | fault {cause : Fault} {t : Interp} (frames : SameFrames s t) :
      Settled P s (.error (.fault cause) t)
  | signal {σ : Signal} {t : Interp} (frames : SameFrames s t) (aim : P s.depths σ) :
      Settled P s (.error (.signal σ) t)
  | aborted {why : Abort} {t : Interp} (frames : SameFrames s t) :
      Settled P s (.error (.aborted why) t)

/-- The state in which a run ends. -/
def EvalM.final (act : EvalM α) (s : Interp) : Interp :=
  match act s with
  | .ok _ t | .error _ t => t

/-- The answer of an action, if it has one. -/
def EvalM.answer? {α : Type} (act : EvalM α) (s : Interp) : Option α :=
  match act s with
  | .ok a _ => some a
  | .error _ _ => none

theorem EvalM.ends_of_answer? {act : EvalM α} {a : α} (h : act.answer? s = some a) :
    act.Ends s (.ok a) (act.final s) := by
  unfold Ends
  unfold answer? at h
  unfold final
  cases hresult : act s with
  | ok b t =>
    rw [hresult] at h
    cases h
    rfl
  | error flow t =>
    rw [hresult] at h
    cases h

namespace Settled

theorem sameFrames {act : EvalM α} (h : Settled P s (act s)) : SameFrames s (act.final s) := by
  unfold EvalM.final
  generalize act s = r at h
  cases h <;> assumption

theorem aim_of_eq {r : EStateM.Result Flow Interp α} {σ : Signal} (h : Settled P s r)
    (hr : r = .error (.signal σ) t) : P s.depths σ := by
  subst hr
  cases h with
  | signal _ aim => exact aim

theorem mono {r : EStateM.Result Flow Interp α} (h : Settled P s r)
    (hPQ : ∀ σ, P s.depths σ → Q s.depths σ) : Settled Q s r := by
  cases h with
  | ok frames => exact .ok frames
  | fault frames => exact .fault frames
  | signal frames aim => exact .signal frames (hPQ _ aim)
  | aborted frames => exact .aborted frames

/-- A result that is settled seen from a later state with the same frames is settled. -/
theorem trans {r : EStateM.Result Flow Interp α} (hst : SameFrames s t) (h : Settled P t r) :
    Settled P s r := by
  cases h with
  | ok frames => exact .ok (hst.trans frames)
  | fault frames => exact .fault (hst.trans frames)
  | signal frames aim => exact .signal (hst.trans frames) (hst.depths ▸ aim)
  | aborted frames => exact .aborted (hst.trans frames)

theorem bind {act : EvalM α} {next : α → EvalM β} (h : Settled P s (act s))
    (hnext : ∀ a t, SameFrames s t → Settled P t (next a t)) : Settled P s ((act >>= next) s) := by
  change Settled P s (EStateM.bind act next s)
  unfold EStateM.bind
  generalize act s = r at h
  cases h with
  | @ok a t frames => exact trans frames (hnext a t frames)
  | fault frames => exact .fault frames
  | signal frames aim => exact .signal frames aim
  | aborted frames => exact .aborted frames

/-- What is read off the state is known afterwards. -/
theorem read_bind {f : Interp → α} {next : α → EvalM β} (h : Settled P s (next (f s) s)) :
    Settled P s ((EvalM.read f >>= next) s) :=
  h

/-- A run from the prepared state `u`, after which `restore` undoes the preparation on every
ending. -/
theorem restored {u : Interp} {restore : Interp → Interp} {r : EStateM.Result Flow Interp α}
    (h : Settled Q u r) (hrestore : ∀ t, SameFrames u t → SameFrames s (restore t))
    (hQP : ∀ σ, Q u.depths σ → P s.depths σ) :
    Settled P s (match r with
      | .ok a t => .ok a (restore t)
      | .error flow t => .error flow (restore t)) := by
  cases h with
  | ok frames => exact .ok (hrestore _ frames)
  | fault frames => exact .fault (hrestore _ frames)
  | signal frames aim => exact .signal (hrestore _ frames) (hQP _ aim)
  | aborted frames => exact .aborted (hrestore _ frames)

end Settled

/-- An action settles from every state. -/
def Balanced (P : Depths → Signal → Prop) (act : EvalM α) : Prop := ∀ s, Settled P s (act s)

namespace Balanced

theorem mono {act : EvalM α} (h : Balanced P act) (hPQ : ∀ d σ, P d σ → Q d σ) :
    Balanced Q act :=
  fun s => (h s).mono (hPQ s.depths)

theorem pure (a : α) : Balanced P (Pure.pure a : EvalM α) := fun s => .ok (.refl s)

theorem bind {act : EvalM α} {next : α → EvalM β} (h : Balanced P act)
    (hnext : ∀ a, Balanced P (next a)) : Balanced P (act >>= next) :=
  fun s => (h s).bind fun a t _ => hnext a t

theorem read (f : Interp → α) : Balanced P (EvalM.read f) := fun s => .ok (.refl s)

theorem update {f : Interp → Interp} (hf : ∀ s, SameFrames s (f s)) : Balanced P (EvalM.update f) :=
  fun s => .ok (hf s)

theorem step {f : Interp → α × Interp} (hf : ∀ s, SameFrames s (f s).2) :
    Balanced P (EvalM.step f) :=
  fun s => .ok (hf s)

theorem fail (cause : Fault) : Balanced P (EvalM.fail cause : EvalM α) := fun s => .fault (.refl s)

theorem failEvaluation (cause : EvaluationFault) :
    Balanced P (EvalM.failEvaluation cause : EvalM α) :=
  fail _

theorem failType (cause : TypeFault) : Balanced P (EvalM.failType cause : EvalM α) := fail _

theorem aborted (why : Abort) : Balanced P (throw (.aborted why) : EvalM α) := fun s =>
  .aborted (.refl s)

/-- An answer or a fault that the state decides without changing it. -/
theorem namespaceStep {f : Interp → Except NamespaceFault (α × Interp)}
    (hf : ∀ s a t, f s = .ok (a, t) → SameFrames s t) : Balanced P (EvalM.namespaceStep f) := by
  intro s
  unfold EvalM.namespaceStep
  cases h : f s with
  | error cause => exact .fault (.refl s)
  | ok result => exact .ok (hf s result.1 result.2 h)

theorem inScope {act : EvalM α} (id : ScopeId) (h : Balanced P act) :
    Balanced P (EvalM.inScope id act) := by
  intro s
  -- what holds of the longer chain holds of its tail
  have hpop : ∀ t, SameFrames (s.pushScope id) t → SameFrames s t.popScope := fun t ht =>
    ⟨congrArg List.tail ht.chain, ht.depths, ht.active⟩
  exact (h (s.pushScope id)).restored hpop fun σ hσ => hσ

theorem withinLimit {act : EvalM α} (h : Balanced P act) : Balanced P (EvalM.withinLimit act) := by
  intro s
  unfold EvalM.withinLimit
  split
  · exact .fault (.refl s)
  · have hdown : ∀ t, SameFrames { s with active := s.active + 1 } t →
        SameFrames s { t with active := t.active - 1 } := by
      intro t ht
      refine ⟨ht.chain, ht.depths, ?_⟩
      have hactive : t.active = s.active + 1 := ht.active
      simp only [hactive]
      omega
    exact (h { s with active := s.active + 1 }).restored hdown fun σ hσ => hσ

end Balanced

/-! ## Signals of honest runs

The condition on signals is that they are aimed, as long as nothing outside the evaluator makes up
signals of its own. -/

/-- In an honest run, signals are aimed. -/
def Allowed (honest : Prop) (depths : Depths) (σ : Signal) : Prop := honest → σ.Aimed depths

/-- In an honest run, signals are aimed, and none of them at frames of one kind. -/
def Within (honest : Prop) (key : DepthKey) (depths : Depths) (σ : Signal) : Prop :=
  honest → σ.Aimed depths ∧ σ.key ≠ key

variable {honest : Prop} {key : DepthKey}

theorem Balanced.allowed {act : EvalM α} (h : Balanced (Within honest key) act) :
    Balanced (Allowed honest) act :=
  h.mono fun _ _ hσ hhonest => (hσ hhonest).1

/-- Leaving a frame restores its counter, and a signal that leaves it was aimed outside already. -/
theorem Balanced.inFrame {act : EvalM α} (hkey : ∀ d : Depths, (d.enter key).leave key = d)
    (h : Balanced (Within honest key) act) :
    Balanced (Within honest key) (EvalM.inFrame key act) := by
  intro s
  have hleave : ∀ t, SameFrames { s with depths := s.depths.enter key } t →
      SameFrames s { t with depths := t.depths.leave key } := by
    intro t ht
    refine ⟨ht.chain, ?_, ht.active⟩
    have hdepths : t.depths = s.depths.enter key := ht.depths
    simp only [hdepths, hkey]
  refine (h { s with depths := s.depths.enter key }).restored hleave ?_
  intro σ hσ hhonest
  obtain ⟨haimed, hne⟩ := hσ hhonest
  exact ⟨Signal.aimed_of_enter haimed hne, hne⟩

end SmallLisp
