import SmallLisp.Sequence

/-!
# Rules for endings

`EvalM.Ends` says that an action answers; one that is aborted ends in no way at all. One rule for
each way in which actions are put together leads from the ending of the whole to those of its parts
and back.
-/

namespace SmallLisp.EvalM

variable {α β : Type} {s t : Interp}

/-- An abort is no stop. -/
theorem flow_ne_aborted (stop : Stop) (why : Abort) : stop.flow ≠ .aborted why := by
  cases stop <;> exact nofun

theorem flow_injective {stop stop' : Stop} (h : stop.flow = stop'.flow) : stop = stop' := by
  cases stop <;> cases stop' <;> cases h <;> rfl

theorem ends_ok {act : EvalM α} {a : α} : act.Ends s (.ok a) t ↔ act s = .ok a t := Iff.rfl

theorem not_ends_aborted {why : Abort} {ending : Ending α} :
    ¬ (throw (.aborted why) : EvalM α).Ends s ending t := by
  intro h
  cases ending with
  | ok a => cases h
  | error stop =>
    have hflow : Flow.aborted why = stop.flow := by injection h
    exact flow_ne_aborted stop why hflow.symm

/-- An ending in which an action resumes is its ending. -/
theorem ends_resume {ending ending' : Ending α} :
    (resume ending).Ends s ending' t ↔ ending' = ending ∧ t = s := by
  constructor
  · intro h
    cases ending with
    | ok a =>
      cases ending' with
      | ok a' => cases h; exact ⟨rfl, rfl⟩
      | error stop => cases h
    | error stop =>
      cases ending' with
      | ok a' => cases h
      | error stop' =>
        have hflow : stop.flow = stop'.flow := by injection h
        have hstate : s = t := by injection h
        rw [flow_injective hflow, hstate]
        exact ⟨rfl, rfl⟩
  · rintro ⟨rfl, rfl⟩
    rfl

theorem ends_stop {stop : Stop} {ending : Ending α} :
    (throw stop.flow : EvalM α).Ends s ending t ↔ ending = .error stop ∧ t = s := by
  show (resume (.error stop)).Ends s ending t ↔ _
  rw [ends_resume]

theorem ends_pure {a : α} {ending : Ending α} :
    (pure a : EvalM α).Ends s ending t ↔ ending = .ok a ∧ t = s := by
  show (resume (.ok a)).Ends s ending t ↔ _
  rw [ends_resume]

theorem ends_fail {cause : Fault} {ending : Ending α} :
    (fail cause : EvalM α).Ends s ending t ↔ ending = .error (.fault cause) ∧ t = s := by
  show (resume (.error (.fault cause))).Ends s ending t ↔ _
  rw [ends_resume]

theorem ends_read {f : Interp → α} {ending : Ending α} :
    (read f).Ends s ending t ↔ ending = .ok (f s) ∧ t = s := by
  show (pure (f s) : EvalM α).Ends s ending t ↔ _
  rw [ends_pure]

theorem ends_step {f : Interp → α × Interp} {ending : Ending α} :
    (step f).Ends s ending t ↔ ending = .ok (f s).1 ∧ t = (f s).2 := by
  show (pure (f s).1 : EvalM α).Ends (f s).2 ending t ↔ _
  rw [ends_pure]

/-- What is read off the state is known afterwards. -/
theorem read_bind_apply (f : Interp → α) (next : α → EvalM β) (s : Interp) :
    (read f >>= next) s = next (f s) s :=
  rfl

/-- An action ends in one way at most. -/
theorem Ends.unique {act : EvalM α} {ending ending' : Ending α} {t' : Interp}
    (h : act.Ends s ending t) (h' : act.Ends s ending' t') : ending = ending' ∧ t = t' :=
  ends_resume.mp (h'.symm.trans h)

theorem Ends.of_eq {act act' : EvalM α} {s' : Interp} {ending : Ending α}
    (h : act.Ends s ending t) (heq : act' s' = act s) : act'.Ends s' ending t :=
  heq.trans h

theorem ends_read_bind {f : Interp → α} {next : α → EvalM β} {ending : Ending β} :
    (read f >>= next).Ends s ending t ↔ (next (f s)).Ends s ending t :=
  Iff.rfl

/-- A sequence ends as its second action after a value, or as its first one that stops. -/
theorem ends_bind {act : EvalM α} {next : α → EvalM β} {ending : Ending β} :
    (act >>= next).Ends s ending t ↔
      (∃ a u, act.Ends s (.ok a) u ∧ (next a).Ends u ending t) ∨
      ∃ stop, act.Ends s (.error stop) t ∧ ending = .error stop := by
  have hbind : (act >>= next) s = EStateM.bind act next s := rfl
  unfold Ends
  rw [hbind]
  unfold EStateM.bind
  cases hact : act s with
  | ok a u =>
    constructor
    · intro h
      exact .inl ⟨a, u, rfl, h⟩
    · rintro (⟨a', u', hfirst, hnext⟩ | ⟨stop, hstop, _⟩)
      · cases hfirst
        exact hnext
      · cases hstop
  | error flow u =>
    constructor
    · intro h
      cases ending with
      | ok b => cases h
      | error stop =>
        injection h with hflow hstate
        rw [hflow, hstate]
        exact .inr ⟨stop, rfl, rfl⟩
    · rintro (⟨a', u', hfirst, _⟩ | ⟨stop, hstop, rfl⟩)
      · cases hfirst
      · injection hstop with hflow hstate
        rw [hflow, hstate]
        rfl

/-- A sequence answers after its first action has. -/
theorem ok_of_bind {act : EvalM α} {next : α → EvalM β} {b : β}
    (h : (act >>= next) s = .ok b t) : ∃ a u, act s = .ok a u ∧ next a u = .ok b t := by
  rcases ends_bind.mp (ends_ok.mpr h) with ⟨a, u, hact, hnext⟩ | ⟨stop, -, hstop⟩
  · exact ⟨a, u, hact, hnext⟩
  · cases hstop

theorem Ends.bind_eq {act : EvalM α} {next : α → EvalM β} {a : α}
    (h : act.Ends s (.ok a) t) : (act >>= next) s = next a t := by
  show EStateM.bind act next s = _
  unfold EStateM.bind
  rw [ends_ok.mp h]

/-- Spent fuel ends a sequence too. -/
theorem bind_error {act : EvalM α} {next : α → EvalM β} {flow : Flow}
    (h : act s = .error flow t) : (act >>= next) s = .error flow t := by
  show EStateM.bind act next s = _
  unfold EStateM.bind
  rw [h]

theorem Ends.bind_stop {act : EvalM α} {next : α → EvalM β} {stop : Stop}
    (h : act.Ends s (.error stop) t) : (act >>= next).Ends s (.error stop) t :=
  ends_bind.mpr (.inr ⟨stop, h, rfl⟩)

end SmallLisp.EvalM
