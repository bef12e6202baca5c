import SmallLisp.Proofs.Ending
import SmallLisp.Proofs.PairedRuns

/-!
# Sessions

A session evaluates forms or whole texts one after the other. Interning and evaluating a form is a
trace of changes, so what every permitted change preserves holds in every state of a session, also
after failures. From the initial state on every state is live.
-/

namespace SmallLisp

variable {strict hosted : Prop} {here : NamespaceId} {s t u : Interp}

/-! ## Interning data -/

/-- Interning in the namespace `here` leads from `s` to `u`. -/
structure Interning (strict hosted : Prop) (here : NamespaceId) (s u : Interp) : Prop where
  trace : Trace (Change.Interns strict here) s u
  chain : u.chain = s.chain
  current : u.current = here
  live : strict → u.LiveUnder hosted

theorem Interning.refl (hcurrent : s.current = here) (hlive : strict → s.LiveUnder hosted) :
    Interning strict hosted here s s := ⟨.refl, rfl, hcurrent, hlive⟩

theorem Interning.trans (h : Interning strict hosted here s u)
    (h' : Interning strict hosted here u t) : Interning strict hosted here s t :=
  ⟨h.trace.trans h'.trace, h'.chain.trans h.chain, h'.current, h'.live⟩

/-- Interning may go on where it has led. -/
theorem Interning.stay (h : Interning strict hosted here s u) : Interning strict hosted here u u :=
  .refl h.current h.live

theorem Interning.change {c : Change} (hc : c.Interns strict here s)
    (hcurrent : (c.apply s).current = here) (hlive : strict → s.LiveUnder hosted) :
    Interning strict hosted here s (c.apply s) :=
  ⟨.single hc, c.chain_apply s, hcurrent,
    fun hstrict => Change.live (hlive hstrict) (hc.sound hstrict)⟩

/-- A result of interning, whose answer satisfies `good` if values are known to be live. -/
inductive Interned {α : Type} (strict hosted : Prop) (here : NamespaceId) (good : Interp → α → Prop)
    (s : Interp) : EStateM.Result Flow Interp α → Prop
  | ok {a : α} {u : Interp} (step : Interning strict hosted here s u) (hgood : strict → good u a) :
      Interned strict hosted here good s (.ok a u)
  | error {flow : Flow} {u : Interp} (step : Interning strict hosted here s u) :
      Interned strict hosted here good s (.error flow u)

namespace Interned

variable {α β : Type} {good : Interp → α → Prop} {good' : Interp → β → Prop}

theorem trans {r : EStateM.Result Flow Interp α} (h : Interning strict hosted here s u)
    (hr : Interned strict hosted here good u r) : Interned strict hosted here good s r := by
  cases hr with
  | ok step hgood => exact .ok (h.trans step) hgood
  | error step => exact .error (h.trans step)

theorem bind {act : EvalM α} {next : α → EvalM β} (h : Interned strict hosted here good s (act s))
    (hnext : ∀ a u, Interning strict hosted here s u → (strict → good u a) →
      Interned strict hosted here good' u (next a u)) :
    Interned strict hosted here good' s ((act >>= next) s) := by
  change Interned strict hosted here good' s (EStateM.bind act next s)
  unfold EStateM.bind
  generalize act s = r at h
  cases h with
  | ok step hgood => exact trans step (hnext _ _ step hgood)
  | error step => exact .error step

variable (hs : Interning strict hosted here s s)

include hs

theorem cell {car cdr : Value} (hcar : strict → car.Live s) (hcdr : strict → cdr.Live s) :
    Interned strict hosted here Value.Live s (EvalM.cons car cdr s) := by
  have hc : Change.Interns strict here s (.cell car cdr) := fun h => ⟨hcar h, hcdr h⟩
  refine .ok (.change hc hs.current hs.live) fun _ => ?_
  show s.cells.size < (s.cells.push _).size
  simp

theorem consReversed {items : List Value} {tail : Value} (hitems : strict → ∀ v ∈ items, v.Live s)
    (htail : strict → tail.Live s) :
    Interned strict hosted here Value.Live s
      (EvalM.step (fun s => s.consReversed items tail) s) := by
  induction items generalizing s tail with
  | nil => exact .ok hs htail
  | cons v rest ih =>
    have hv : strict → v.Live s := fun h => hitems h v List.mem_cons_self
    have hnext : ∀ head u, Interning strict hosted here s u → (strict → head.Live u) →
        Interned strict hosted here Value.Live u
          (EvalM.step (fun s => s.consReversed rest head) u) := by
      refine fun head u hu hhead => ih hu.stay (fun h v hv => ?_) hhead
      exact (hitems h v (List.mem_cons_of_mem _ hv)).mono hu.trace.extended
    exact (cell hs hv htail).bind hnext

omit hs in
theorem named {f : Interp → Except NamespaceFault (SymbolId × Interp)}
    (hs : Interning strict hosted here s s)
    (hf : ∀ x u, f s = .ok (x, u) → Interning strict hosted here s u ∧ (strict → x.Live u)) :
    Interned strict hosted here SymbolId.Live s (EvalM.namespaceStep f s) := by
  unfold EvalM.namespaceStep
  cases h : f s with
  | error cause => exact .error hs
  | ok r => exact .ok (hf r.1 r.2 h).1 (hf r.1 r.2 h).2

theorem internIn {id : NamespaceId} {name : String} {x : SymbolId}
    (hid : id = here ∨ id ≠ .keywords) (h : s.internIn id name = .ok (x, u)) :
    Interning strict hosted here s u ∧ (strict → x.Live u) := by
  have happly : Change.apply s (.intern id name) = u := by
    show s.resultOf (s.internIn id name) = u
    rw [h]
    rfl
  have hcurrent : u.current = here := by
    rcases Interp.internIn_cases h with ⟨-, rfl⟩ | ⟨-, -, -, rfl⟩ <;> exact hs.current
  rw [← happly] at hcurrent
  refine ⟨happly ▸ .change (c := .intern id name) hid hcurrent hs.live, fun hstrict => ?_⟩
  exact ((hs.live hstrict).internIn h).2

theorem internKeyword {name : String} {x : SymbolId} (h : s.internKeyword name = .ok (x, u)) :
    Interning strict hosted here s u ∧ (strict → x.Live u) := by
  have happly : Change.apply s (.keyword name) = u := by
    show s.resultOf (s.internKeyword name) = u
    rw [h]
    rfl
  have hcurrent : u.current = here := by
    rcases Interp.internKeyword_cases h with ⟨-, rfl⟩ | ⟨t, -, hintern, rfl⟩
    · exact hs.current
    · rcases Interp.internIn_cases hintern with ⟨-, rfl⟩ | ⟨-, -, -, rfl⟩ <;> exact hs.current
  rw [← happly] at hcurrent
  refine ⟨happly ▸ .change (c := .keyword name) trivial hcurrent hs.live, fun hstrict => ?_⟩
  exact ((hs.live hstrict).internKeyword h).2

/-- A name is found, or a symbol is created for it. -/
theorem resolve (name : SymbolName) :
    Interned strict hosted here SymbolId.Live s
      (EvalM.namespaceStep (fun s => s.resolve name) s) := by
  refine named hs fun x u h => ?_
  cases name with
  | plain name => exact internIn hs (.inl hs.current) h
  | keyword name => exact internKeyword hs h
  | exported container name =>
    obtain ⟨id, hfound, heq⟩ := ok_of_map h
    cases heq
    refine ⟨hs, fun hstrict => ?_⟩
    unfold Interp.findExported at hfound
    split at hfound
    · cases hfound
    next ns _ =>
      split at hfound
      next hexported =>
        cases hfound
        exact ((hs.live hstrict).namespaceAt ns).findExported? hexported
      next => cases hfound
  | interned container name =>
    replace h : s.findInterned container name = .ok (x, u) := h
    unfold Interp.findInterned at h
    split at h
    · cases h
    · split at h
      · exact internKeyword hs h
      next hid => exact internIn hs (.inr hid) h

end Interned

mutual

theorem Interned.datum (d : Datum) {s : Interp} (hs : Interning strict hosted here s s) :
    Interned strict hosted here Value.Live s (d.intern s) := by
  cases d with
  | number n => exact .ok hs fun _ => trivial
  | string t => exact .ok hs fun _ => trivial
  | character c => exact .ok hs fun _ => trivial
  | symbol name =>
    unfold Datum.intern
    refine (Interned.resolve hs name).bind fun x u hu hx => ?_
    have hvalue : strict → ((u.symbol x).selfValue.getD (.symbol x)).Live u := by
      intro hstrict
      cases hself : (u.symbol x).selfValue with
      | none => exact hx hstrict
      | some v => exact (hu.live hstrict).selfValue hself
    exact .ok hu.stay hvalue
  | list items =>
    unfold Datum.intern
    refine (Interned.data items hs fun _ => ListBuilder.live_empty).bind fun builder u hu hb => ?_
    exact .consReversed hu.stay hb fun _ => trivial
  | dotted items tail =>
    unfold Datum.intern
    refine (Interned.data items hs fun _ => ListBuilder.live_empty).bind fun builder u hu hb => ?_
    refine (Interned.datum tail hu.stay).bind fun v u' hu' hv => ?_
    exact .consReversed hu'.stay
      (fun h => (hb h).mono hu'.trace.extended) hv
  | quoted kind operand =>
    unfold Datum.intern
    refine (Interned.datum operand hs).bind fun v u hu hv => ?_
    refine .consReversed hu.stay (fun hstrict item hitem => ?_)
      fun _ => trivial
    rcases List.mem_cons.mp hitem with rfl | hitem
    · exact hv hstrict
    · rw [List.mem_singleton.mp hitem]
      refine (hu.live hstrict).fixedSymbol ?_
      cases kind <;> decide

theorem Interned.data (ds : List Datum) {s : Interp} {builder : ListBuilder}
    (hs : Interning strict hosted here s s) (hbuilder : strict → builder.Live s) :
    Interned strict hosted here ListBuilder.Live s (Datum.internAll builder ds s) := by
  cases ds with
  | nil => exact .ok hs hbuilder
  | cons d rest =>
    unfold Datum.internAll
    refine (Interned.datum d hs).bind fun v u hu hv => ?_
    refine Interned.data rest hu.stay fun h => ?_
    exact ((hbuilder h).mono hu.trace.extended).push (hv h)

end

/-! ## Forms and texts -/

section Final

variable {α β : Type}

theorem EvalM.final_bind {act : EvalM α} {next : α → EvalM β} {a : α} (h : act s = .ok a u) :
    (act >>= next).final s = (next a).final u := by
  unfold EvalM.final
  rw [(EvalM.ends_ok.mpr h).bind_eq]

theorem EvalM.final_bind_error {act : EvalM α} {next : α → EvalM β} {flow : Flow}
    (h : act s = .error flow u) : (act >>= next).final s = u := by
  unfold EvalM.final
  rw [EvalM.bind_error h]

/-- What the parts of a sequence keep, the sequence keeps, however it ends. -/
theorem EvalM.final_bind_of {I : Interp → Prop} {act : EvalM α} {next : α → EvalM β}
    (h : I (act.final s)) (hnext : ∀ a u, I u → I ((next a).final u)) :
    I ((act >>= next).final s) := by
  unfold final at h
  cases hact : act s with
  | ok a u =>
    rw [hact] at h
    rw [final_bind hact]
    exact hnext a u h
  | error flow u =>
    rw [hact] at h
    rw [final_bind_error hact]
    exact h

/-- Settling changes how an action ends, not what it leaves. -/
theorem EvalM.final_settle (act : EvalM α) (s : Interp) :
    (EvalM.settle act).final s = act.final s := by
  unfold EvalM.final EvalM.settle
  cases act s with
  | ok a u => rfl
  | error flow u => cases flow <;> rfl

end Final

theorem Evaluator.perform_symbol {hosts : HostTable} {n : Nat} {context : Value} {x : SymbolId}
    {v : Value} (hlookup : s.lookup? x = some v) (hactive : s.active < s.limit) :
    perform hosts (n + 1) context (.evaluate (.symbol x)) s = .ok v s := by
  let act := evaluateActive hosts (perform hosts n) n context (.symbol x)
  have hcounted : (s.withActive (s.active + 1)).lookup? x = some v := hlookup
  have hact : act (s.withActive (s.active + 1)) = .ok v (s.withActive (s.active + 1)) := by
    show evaluateActive _ _ _ _ (.symbol x) _ = _
    unfold evaluateActive
    dsimp only
    rw [hcounted]
  show EvalM.withinLimit act s = _
  rw [EvalM.withinLimit_apply, if_neg (Nat.not_le_of_lt hactive)]
  unfold EvalM.counted
  rw [hact]
  rfl

namespace Machine

/-- Intern a form in the namespace that is current now, and evaluate it. -/
def evaluateDatum [ListBuilding] (m : Machine) (d : Datum) : EvalM Value := do
  let form ← d.intern
  m.evaluate .nil form

/-- A bound symbol evaluates to what it is bound to. -/
theorem evaluate_symbol {x : SymbolId} {v : Value} (m : Machine) (context : Value)
    (hlookup : s.lookup? x = some v) (hfuel : 0 < m.fuel) (hactive : s.active < s.limit) :
    m.evaluate context (.symbol x) s = .ok v s := by
  obtain ⟨hosts, fuel⟩ := m
  obtain ⟨n, rfl⟩ := Nat.exists_eq_succ_of_ne_zero (Nat.ne_of_gt hfuel)
  unfold evaluate EvalM.settle evaluator Evaluator.form
  rw [Evaluator.perform_symbol hlookup hactive]

theorem trace_evaluate (m : Machine) (context : Value) {form : Value} (hs : strict → s.Live)
    (hform : strict → form.Live s) :
    Trace (Change.Evaluates strict) s ((m.evaluate context form).final s) := by
  unfold evaluate
  rw [EvalM.final_settle]
  exact ((Pairing.single_performed (.evaluate form) hs hform).after id).trace

/-- Interning and evaluating a form is a trace of changes. -/
theorem trace_evaluateDatum (m : Machine) (d : Datum) (hs : strict → s.Live) :
    Trace (Change.Reads strict s.current) s ((m.evaluateDatum d).final s) := by
  have hstart : Interning strict False s.current s s := .refl rfl hs
  have hinterned := Interned.datum d hstart
  unfold evaluateDatum
  generalize hresult : d.intern s = r at hinterned
  cases hinterned with
  | @ok form u step hform =>
    rw [EvalM.final_bind hresult]
    have hevaluated := m.trace_evaluate .nil step.live hform
    exact (step.trace.mono fun _ _ hc => .inl hc).trans (hevaluated.mono fun _ _ hc => .inr hc)
  | error step =>
    rw [EvalM.final_bind_error hresult]
    exact step.trace.mono fun _ _ hc => .inl hc

theorem evaluateData_cons [ListBuilding] (m : Machine) (last : Value) (d : Datum)
    (rest : List Datum) :
    m.evaluateData last (d :: rest) = m.evaluateDatum d >>= fun v => m.evaluateData v rest := by
  unfold evaluateDatum
  rw [bind_assoc]
  rfl

/-- What the forms of a text keep, the whole text keeps, also where it fails. -/
theorem evaluateData_preserves {I : Interp → Prop} (m : Machine) (last : Value) (ds : List Datum)
    (hform : ∀ d ∈ ds, ∀ u, I u → I ((m.evaluateDatum d).final u)) (ht : I t) :
    I ((m.evaluateData last ds).final t) := by
  induction ds generalizing t last with
  | nil => exact ht
  | cons d rest ih =>
    obtain ⟨hd, hrest⟩ := List.forall_mem_cons.mp hform
    rw [evaluateData_cons]
    exact EvalM.final_bind_of (hd t ht) fun v u hu => ih v hrest hu

theorem evaluateText_preserves {I : Interp → Prop} (m : Machine) (source : String)
    (hform : ∀ ds, readData .standard source = .ok ds →
      ∀ d ∈ ds, ∀ u, I u → I ((m.evaluateDatum d).final u))
    (ht : I t) : I ((m.evaluateText source).final t) := by
  unfold evaluateText EvalM.readText
  split
  next ds hread => exact m.evaluateData_preserves .nil ds (hform ds hread) ht
  next => exact ht

end Machine

/-- Evaluate texts one after the other, each on a machine of its own. What a text leaves behind when
it fails stays. -/
def Interp.afterTexts [ListBuilding] (s : Interp) (texts : List (Machine × String)) : Interp :=
  texts.foldl (fun u r => (r.1.evaluateText r.2).final u) s

/-- A machine for short sessions. -/
def Machine.small : Machine := ⟨HostProgram.demonstration, 20⟩

/-- `t` is left by forms that are evaluated one after the other from `s` on, each on a machine of
its own and interned in a state that `admits` holds of. -/
inductive Session (admits : Interp → Prop) (s : Interp) : Interp → Prop
  | start : Session admits s s
  | form {t : Interp} (before : Session admits s t) (hadmits : admits t) (m : Machine) (d : Datum) :
      Session admits s ((m.evaluateDatum d).final t)

namespace Session

variable {admits : Interp → Prop}

/-- A text is a session of its forms, or it leaves the state alone. -/
theorem text (h : Session (fun _ => True) s t) (m : Machine) (source : String) :
    Session (fun _ => True) s ((m.evaluateText source).final t) :=
  m.evaluateText_preserves source (fun _ _ d _ _ before => .form before trivial m d) h

theorem afterTexts (h : Session (fun _ => True) s t) (texts : List (Machine × String)) :
    Session (fun _ => True) s (t.afterTexts texts) := by
  induction texts generalizing t with
  | nil => exact h
  | cons r rest ih => exact ih (h.text r.1 r.2)

/-- A session is a trace of changes that a law permits, if the law permits what the forms may change
that are interned in admitted states. -/
theorem traced {law : Law} (h : Session admits s t) (strict : Prop) (hs : strict → s.Live)
    (hlaw : ∀ u, admits u → ∀ v c, Change.Reads strict u.current v c → law v c)
    (hsound : strict → ∀ v c, law v c → c.Sound v) : Trace law s t := by
  induction h with
  | start => exact .refl
  | @form u before hadmits m d ih =>
    have hu : strict → u.Live := fun hstrict => ih.live (hsound hstrict) (hs hstrict)
    exact ih.trans ((m.trace_evaluateDatum d hu).mono (hlaw u hadmits))

/-- Whatever the forms are, a session is a trace of changes. -/
theorem changes (h : Session admits s t) : Trace (fun _ _ => True) s t :=
  h.traced False nofun (fun _ _ _ _ _ => trivial) nofun

/-- From a live state on, the changes of a session are sound. -/
theorem sound (h : Session (fun _ => True) s t) (hs : s.Live) :
    Trace (fun u c => c.Sound u) s t := by
  refine h.traced True (fun _ => hs) ?_ fun _ _ _ hc => hc
  rintro u - v c (hc | hc)
  · exact hc.sound trivial
  · exact hc.2 trivial

end Session

end SmallLisp
