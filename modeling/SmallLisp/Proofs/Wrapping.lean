import SmallLisp.Proofs.RelayedForms

/-!
# Faults are wrapped once and passed on

What the evaluator is asked to do is a task, and a task asks for others: a list form for the values
of its operator and its operands, an operation for the forms that it evaluates, `MAP` for the
applications of its function. In the states that source text leads to, a fault that leaves a list
form names the innermost list form in whose application it came up, and its message has the mark of
the context once. From there on it ends every task around it as it is, up to a protected form whose
last form fails in its turn.
-/

namespace SmallLisp

open Evaluator (perform step applyForm applyReady namingForm)
open Fault (contextMark occurrences)
open Relation (ReflTransGen TransGen)

variable {hosts : HostTable} {context : Value} {s t u : Interp} {n : Nat} {cell : CellId}

/-! ## List forms -/

/-- How a list form ends whose application has ended. -/
def Evaluator.named (form : Value) :
    EStateM.Result Flow Interp Value → EStateM.Result Flow Interp Value
  | .ok v u => .ok v (u.withActive (u.active - 1))
  | .error (.fault f) u =>
    .error (.fault (if f.lacksForm then f.withForm (u.print form) else f))
      (u.withActive (u.active - 1))
  | .error flow u => .error flow (u.withActive (u.active - 1))

namespace Evaluator

theorem counted_namingForm (form : Value) (act : EvalM Value) (s : Interp) :
    EvalM.counted (namingForm form act) s = named form (act (s.withActive (s.active + 1))) := by
  unfold EvalM.counted namingForm
  cases act (s.withActive (s.active + 1)) with
  | ok v u => rfl
  | error flow u =>
    cases flow with
    | fault f =>
      unfold named
      dsimp only
      split <;> rfl
    | _ => rfl

theorem step_form (hactive : s.active < s.limit) (evaluator : Evaluators) :
    step hosts evaluator n context (.evaluate (.cons cell)) s = named (.cons cell)
      (applyForm hosts evaluator n context cell (s.withActive (s.active + 1))) := by
  show EvalM.withinLimit (namingForm _ _) s = _
  rw [EvalM.withinLimit_apply, if_neg (Nat.not_le_of_lt hactive), counted_namingForm]

theorem step_form_refused (hactive : s.limit ≤ s.active) (evaluator : Evaluators)
    (form : Value) : step hosts evaluator n context (.evaluate form) s =
      .error (.fault (.evaluation (.depthLimit s.limit) none)) s := by
  show EvalM.withinLimit _ s = _
  rw [EvalM.withinLimit_apply, if_pos hactive]
  rfl

theorem faultOf_named (form : Value) (r : EStateM.Result Flow Interp Value) :
    faultOf (named form r) = (faultOf r).map fun f =>
      if f.lacksForm then f.withForm ((leftState r).print form) else f := by
  cases r with
  | ok v u => rfl
  | error flow u => cases flow <;> rfl

theorem native_named {form : Value} {r : EStateM.Result Flow Interp Value}
    (h : (leftState r).Native) : (leftState (named form r)).Native := by
  cases r with
  | ok v u => exact h.congr rfl rfl rfl
  | error flow u => cases flow <;> exact h.congr rfl rfl rfl

theorem spentAt_named {form : Value} {mark : Nat} {r : EStateM.Result Flow Interp Value}
    (h : SpentAt mark r) : SpentAt mark (named form r) := by
  obtain ⟨u, rfl, hmark⟩ := h
  exact ⟨_, rfl, hmark⟩

/-- A fault that leaves a list form left its application, perhaps without a form. -/
theorem faultOf_form {f : Fault} (hactive : s.active < s.limit)
    (hfault : faultOf (perform hosts (n + 1) context (.evaluate (.cons cell)) s) = some f) :
    let applied := applyForm hosts (perform hosts n) n context cell (s.withActive (s.active + 1))
    ∃ g, faultOf applied = some g ∧
      f = if g.lacksForm then g.withForm ((leftState applied).print (.cons cell)) else g := by
  intro applied
  have hnamed : faultOf (named (.cons cell) applied) = some f := by
    rw [← step_form hactive]
    exact hfault
  rw [faultOf_named] at hnamed
  obtain ⟨g, hg, rfl⟩ := Option.map_eq_some_iff.mp hnamed
  exact ⟨g, hg, rfl⟩

end Evaluator

/-! ## Tasks -/

/-- A request in a state, with the fuel for it. -/
structure Task where
  fuel : Nat
  request : Request
  state : Interp

namespace Task

/-- How a task ends. -/
def result (hosts : HostTable) (context : Value) (task : Task) :
    EStateM.Result Flow Interp Value :=
  perform hosts task.fuel context task.request task.state

/-- Carrying out a task includes another one: however the fuel is spent on that one, the task is
spent with it. -/
structure Asks (hosts : HostTable) (context : Value) (task inner : Task) : Prop where
  fuel : task.fuel = inner.fuel + 1
  needs : Needs (fun ev => step hosts ev inner.fuel context task.request task.state)
    (perform hosts inner.fuel) context inner.request inner.state

/-- The form that a task evaluates when an attempt of its own is over, however it ends, with the
state for it. -/
inductive Always (hosts : HostTable) (context : Value) : Task → Value → Interp → Prop
  | form {n : Nat} {s t u : Interp} {cell : CellId} {id : FunctionId} {form : Value}
      (hoperator : perform hosts n context (.evaluate (s.car cell)) (s.withActive (s.active + 1)) =
        .ok (.function id) t)
      (hguarded : t.callable id = .primitive .guarded)
      (hlast : FollowsAttempt (perform hosts n) context (s.cdr cell) t form u) :
      Always hosts context ⟨n + 1, .evaluate (.cons cell), s⟩ form u
  | ready {n : Nat} {s u : Interp} {id : FunctionId} {arguments form : Value}
      (hguarded : s.callable id = .primitive .guarded)
      (hlast : FollowsAttempt (perform hosts n) context arguments s form u) :
      Always hosts context ⟨n + 1, .apply id arguments, s⟩ form u

/-- The form that is evaluated in any case does not end with a value. -/
def LastFails (hosts : HostTable) (context : Value) (task : Task) : Prop :=
  ∃ fuel form u flow v, task.Always hosts context form u ∧
    task.Asks hosts context ⟨fuel, .evaluate form, u⟩ ∧
    result hosts context ⟨fuel, .evaluate form, u⟩ = .error flow v

/-- A fault came up in the application of a list form, which it names, and has passed from there
through the tasks around it. No list form inside had ended with it, unless it was refused on
entry. -/
inductive RaisedIn (hosts : HostTable) (context : Value) : Task → Fault → Prop
  | here {n : Nat} {s t : Interp} {cell : CellId} {f : Fault} (hactive : s.active < s.limit)
      (hfault : applyForm hosts (perform hosts n) n context cell (s.withActive (s.active + 1)) =
        .error (.fault f) t)
      (hlacks : f.lacksForm = true)
      (hinnermost : ∀ inner inside,
        TransGen (Asks hosts context) ⟨n + 1, .evaluate (.cons cell), s⟩ inner →
        inner.request = .evaluate (.cons inside) → faultOf (inner.result hosts context) = some f →
        inner.state.limit ≤ inner.state.active) :
      RaisedIn hosts context ⟨n + 1, .evaluate (.cons cell), s⟩ (f.withForm (t.print (.cons cell)))
  | inside {task inner : Task} {f : Fault} (hasks : task.Asks hosts context inner)
      (hfault : faultOf (task.result hosts context) = some f)
      (h : RaisedIn hosts context inner f) : RaisedIn hosts context task f

end Task

/-! ## What a request does -/

namespace Evaluator

/-- A request has a list form carried out or a function applied, or it is settled at once, by a
value or by a fault of its own. -/
theorem step_cases (hosts : HostTable) (context : Value) (n : Nat) (request : Request)
    (s : Interp) :
    (∃ cell, request = .evaluate (.cons cell) ∧ s.active < s.limit) ∨
    (∃ id arguments, request = .apply id arguments) ∨
    ∃ r, (∀ evaluator, step hosts evaluator n context request s = r) ∧ leftState r = s ∧
      ∀ f, faultOf r = some f → f.Raw := by
  cases request with
  | apply id arguments => exact .inr (.inl ⟨id, arguments, rfl⟩)
  | evaluate form =>
    by_cases hactive : s.limit ≤ s.active
    · let refused : Fault := .evaluation (.depthLimit s.limit) none
      refine .inr (.inr ⟨.error (.fault refused) s, fun evaluator => ?_, rfl, ?_⟩)
      · exact step_form_refused hactive evaluator form
      intro f hf
      cases hf
      exact Fault.raw_evaluation (List.forall_mem_nil _)
    have hstep : ∀ evaluator, step hosts evaluator n context (.evaluate form) s =
        EvalM.counted (evaluateActive hosts evaluator n context form) s := by
      intro evaluator
      show EvalM.withinLimit _ s = _
      rw [EvalM.withinLimit_apply, if_neg hactive]
    have hvalue : ∀ v f, faultOf (.ok v s : EStateM.Result Flow Interp Value) = some f → f.Raw := by
      intro v f hf
      cases hf
    cases form with
    | cons cell => exact .inl ⟨cell, rfl, Nat.lt_of_not_le hactive⟩
    | symbol x =>
      refine .inr (.inr ?_)
      cases hlookup : (s.withActive (s.active + 1)).lookup? x with
      | some v =>
        refine ⟨.ok v s, fun evaluator => ?_, rfl, hvalue v⟩
        rw [hstep]
        unfold EvalM.counted evaluateActive
        dsimp only
        rw [hlookup]
        rfl
      | none =>
        let unbound : Fault := .unbound (.read (s.printSymbol x))
        refine ⟨.error (.fault unbound) s, fun evaluator => ?_, rfl, ?_⟩
        · rw [hstep]
          unfold EvalM.counted evaluateActive
          dsimp only
          rw [hlookup]
          rfl
        · intro f hf
          cases hf
          exact Fault.raw_of_not_placed fun h => h
    | _ => exact .inr (.inr ⟨.ok _ s, hstep, rfl, hvalue _⟩)

/-- Native states stay native. -/
theorem keepsNative_perform (hosts : HostTable) (context : Value) (n : Nat) :
    KeepsNative (perform hosts n) context := by
  induction n with
  | zero => exact fun _ _ hu => hu
  | succ n ih =>
    intro request s hs
    show (leftState (step hosts (perform hosts n) n context request s)).Native
    rcases step_cases hosts context n request s with
      ⟨cell, rfl, hactive⟩ | ⟨id, arguments, rfl⟩ | ⟨r, hr, hsame, -⟩
    · have hcounted : (s.withActive (s.active + 1)).Native := hs.congr rfl rfl rfl
      have hform : Relays (perform hosts n) context (fun _ _ => True) none fun ev =>
          applyForm hosts ev n context cell (s.withActive (s.active + 1)) :=
        .applyForm ih hcounted hosts n cell fun _ _ _ _ _ _ _ => trivial
      rw [step_form hactive]
      exact native_named hform.native
    · have hready : Relays (perform hosts n) context (fun _ _ => True) none fun ev =>
          applyReady hosts ev n context id arguments s :=
        .applyReady ih hs hosts n id arguments fun _ _ _ _ => trivial
      exact hready.native
    · rw [hr, hsame]
      exact hs

theorem relays_form (hosts : HostTable) (context : Value) (n : Nat) (cell : CellId)
    (hs : s.Native) :
    Relays (perform hosts n) context (Task.Always hosts context ⟨n + 1, .evaluate (.cons cell), s⟩)
      none fun ev => applyForm hosts ev n context cell (s.withActive (s.active + 1)) := by
  have hcounted : (s.withActive (s.active + 1)).Native := hs.congr rfl rfl rfl
  exact .applyForm (keepsNative_perform hosts context n) hcounted hosts n cell
    fun _ _ _ _ hoperator hguarded hlast => .form hoperator hguarded hlast

theorem relays_ready (hosts : HostTable) (context : Value) (n : Nat) (id : FunctionId)
    (arguments : Value) (hs : s.Native) :
    Relays (perform hosts n) context (Task.Always hosts context ⟨n + 1, .apply id arguments, s⟩)
      none fun ev => applyReady hosts ev n context id arguments s :=
  .applyReady (keepsNative_perform hosts context n) hs hosts n id arguments
    fun hguarded _ _ hlast => .ready hguarded hlast

/-- A list form asks for what its application needs. -/
theorem asks_form (hs : s.Native) (hactive : s.active < s.limit) (r : Request) (u : Interp) :
    Task.Asks hosts context ⟨n + 1, .evaluate (.cons cell), s⟩ ⟨n, r, u⟩ ↔
      Needs (fun ev => applyForm hosts ev n context cell (s.withActive (s.active + 1)))
        (perform hosts n) context r u := by
  have hstep : (fun ev => step hosts ev n context (.evaluate (.cons cell)) s) = fun ev =>
      named (.cons cell) (applyForm hosts ev n context cell (s.withActive (s.active + 1))) :=
    funext fun ev => step_form hactive ev
  constructor
  · intro h
    have hneeds : Needs (fun ev => step hosts ev n context (.evaluate (.cons cell)) s)
      (perform hosts n) context r u := h.needs
    rw [hstep] at hneeds
    have happly := relays_form hosts context n cell hs
    rcases Relays.needs_follow (fun _ => named (.cons cell)) happly hneeds with hfirst | hrest
    · exact hfirst
    · have hignores : Ignores (fun _ => named (.cons cell) (applyForm hosts (perform hosts n) n
          context cell (s.withActive (s.active + 1)))) (perform hosts n) context r u :=
        fun _ _ _ => rfl
      exact absurd hrest hignores.not_needs
  · intro h
    refine ⟨rfl, ?_⟩
    dsimp only
    rw [hstep]
    exact Relays.needs_first (fun _ => named (.cons cell)) (fun _ _ _ => spentAt_named) h

/-- A list form that is not refused asks for its operator. -/
theorem asks_operator (hs : s.Native) (hactive : s.active < s.limit) :
    Task.Asks hosts context ⟨n + 1, .evaluate (.cons cell), s⟩
      ⟨n, .evaluate (s.car cell), s.withActive (s.active + 1)⟩ := by
  refine (asks_form hs hactive _ _).mpr fun mark other hother => ?_
  obtain ⟨t, ht, hmark⟩ := hother.spent
  have hoperator : (other context).form (s.car cell) (s.withActive (s.active + 1)) =
      .error .spent t := ht
  refine ⟨t, ?_, hmark⟩
  show applyForm hosts other n context cell (s.withActive (s.active + 1)) = _
  unfold applyForm
  rw [EvalM.read_bind_apply, EvalM.read_bind_apply]
  exact EvalM.bind_error hoperator

theorem asks_ready (id : FunctionId) (arguments : Value) (r : Request) (u : Interp) :
    Task.Asks hosts context ⟨n + 1, .apply id arguments, s⟩ ⟨n, r, u⟩ ↔
      Needs (fun ev => applyReady hosts ev n context id arguments s) (perform hosts n) context
        r u :=
  ⟨fun h => h.needs, fun h => ⟨rfl, h⟩⟩

end Evaluator

namespace Task

open Evaluator

variable {task inner : Task} {f : Fault} {request : Request}

/-! ## Faults are passed on -/

/-- A task that asks for another does so in a piece of work that relays, and ends with the faults of
that work that name their form. -/
theorem Asks.relays (hs : task.state.Native) (hasks : task.Asks hosts context inner) :
    ∃ work : Evaluators → EStateM.Result Flow Interp Value,
      Relays (perform hosts inner.fuel) context (task.Always hosts context) none work ∧
      (∀ r u, task.Asks hosts context ⟨inner.fuel, r, u⟩ ↔
        Needs work (perform hosts inner.fuel) context r u) ∧
      ∀ f, f.lacksForm = false → faultOf (work (perform hosts inner.fuel)) = some f →
        faultOf (task.result hosts context) = some f := by
  obtain ⟨fuel, request, s⟩ := task
  obtain ⟨n, r, u⟩ := inner
  obtain ⟨rfl, hneeds⟩ := hasks
  dsimp only at hs hneeds ⊢
  rcases step_cases hosts context n request s with
    ⟨cell, rfl, hactive⟩ | ⟨id, arguments, rfl⟩ | ⟨result, hresult, -, -⟩
  · refine ⟨_, relays_form hosts context n cell hs, asks_form hs hactive, fun f hform hf => ?_⟩
    show faultOf (step hosts (perform hosts n) n context (.evaluate (.cons cell)) s) = some f
    rw [step_form hactive, faultOf_named, hf, Option.map_some, hform]
    rfl
  · exact ⟨_, relays_ready hosts context n id arguments hs, asks_ready id arguments,
      fun f _ hf => hf⟩
  · have hignores : Ignores (fun ev => step hosts ev n context request s) (perform hosts n) context
        r u := fun _ other _ => (hresult other).trans (hresult _).symm
    exact absurd hneeds hignores.not_needs

theorem Asks.native (hs : task.state.Native) (hasks : task.Asks hosts context inner) :
    inner.state.Native := by
  obtain ⟨work, hwork, hneeds, -⟩ := hasks.relays hs
  exact hwork.asked _ _ ((hneeds _ _).mp hasks)

theorem Asks.passes (hs : task.state.Native) (hasks : task.Asks hosts context inner)
    (hfault : faultOf (inner.result hosts context) = some f) (hform : f.lacksForm = false) :
    faultOf (task.result hosts context) = some f ∨ task.LastFails hosts context := by
  obtain ⟨work, hwork, hneeds, hpassed⟩ := hasks.relays hs
  rcases hwork.relay _ _ f ((hneeds _ _).mp hasks) hfault with hsame | hfails
  · exact .inl (hpassed f hform hsame)
  · obtain ⟨form, u, flow, t, halways, hlast, hflow⟩ := hfails
    exact .inr ⟨_, form, u, flow, t, halways, (hneeds _ _).mpr hlast, hflow⟩

/-- Through all tasks around it a fault that names its form is passed on, up to a protected form
whose last form fails. -/
theorem passes_of_transGen (hs : task.state.Native)
    (hinner : TransGen (Asks hosts context) task inner)
    (hfault : faultOf (inner.result hosts context) = some f) (hform : f.lacksForm = false) :
    faultOf (task.result hosts context) = some f ∨
      ∃ attempt, ReflTransGen (Asks hosts context) task attempt ∧
        TransGen (Asks hosts context) attempt inner ∧ attempt.LastFails hosts context := by
  induction hinner using TransGen.head_induction_on with
  | single hasks =>
    exact (hasks.passes hs hfault hform).imp_right fun h => ⟨_, .refl, .single hasks, h⟩
  | head hasks hrest ih =>
    rcases ih (hasks.native hs) with hmiddle | ⟨attempt, hattempt, hinside, hfails⟩
    · exact (hasks.passes hs hmiddle hform).imp_right fun h => ⟨_, .refl, .head hasks hrest, h⟩
    · exact .inr ⟨attempt, .head hasks hattempt, hinside, hfails⟩

/-! ## Faults are named -/

/-- No fault that comes up in a native state has the mark in what it takes over. -/
theorem clean_of_fault (hs : s.Native)
    (hfault : faultOf (perform hosts n context request s) = some f) : f.Clean := by
  induction n generalizing request s f with
  | zero => cases hfault
  | succ n ih =>
    replace hfault : faultOf (step hosts (perform hosts n) n context request s) = some f := hfault
    -- a fault of an application is its own or comes from inside
    have hclean : ∀ {always : Value → Interp → Prop}
        {work : Evaluators → EStateM.Result Flow Interp Value},
        Relays (perform hosts n) context always none work →
        ∀ g, faultOf (work (perform hosts n)) = some g → g.Clean := by
      intro always work hwork g hg
      rcases hwork.source g hg with hraw | hnone | ⟨r, u, hneeds, hinner⟩
      · exact hraw.1
      · cases hnone
      · exact ih (hwork.asked r u hneeds) hinner
    rcases step_cases hosts context n request s with
      ⟨cell, rfl, hactive⟩ | ⟨id, arguments, rfl⟩ | ⟨r, hr, -, hraw⟩
    · have happly := relays_form hosts context n cell hs
      obtain ⟨g, hg, rfl⟩ := faultOf_form hactive hfault
      split
      · exact (hclean happly g hg).withForm (happly.native.markFree_print _)
      · exact hclean happly g hg
    · exact hclean (relays_ready hosts context n id arguments hs) f hfault
    · rw [hr] at hfault
      exact (hraw f hfault).1

/-- What leaves a list form names a form, or never will. -/
theorem lacksForm_of_form (hactive : s.active < s.limit)
    (hfault : faultOf (perform hosts n context (.evaluate (.cons cell)) s) = some f) :
    f.lacksForm = false := by
  cases n with
  | zero => cases hfault
  | succ n =>
    obtain ⟨g, -, rfl⟩ := faultOf_form hactive hfault
    split
    · exact Fault.lacksForm_withForm _ g
    next hg => exact Bool.eq_false_iff.mpr hg

/-- A task ends with a fault that was raised in it. -/
theorem RaisedIn.ends (h : RaisedIn hosts context task f) :
    faultOf (task.result hosts context) = some f := by
  cases h with
  | @here n s t cell g hactive hfault hlacks _ =>
    show faultOf (step hosts (perform hosts n) n context (.evaluate (.cons cell)) s) = _
    rw [step_form hactive, faultOf_named, hfault]
    show some (if g.lacksForm then _ else g) = _
    rw [if_pos hlacks]
    rfl
  | inside _ hfault _ => exact hfault

/-- A fault that names its form came up in the application of that form. -/
theorem raisedIn_of_fault (hs : s.Native)
    (hfault : faultOf (perform hosts n context request s) = some f) (hplaced : f.Placed)
    (hform : f.lacksForm = false) : RaisedIn hosts context ⟨n, request, s⟩ f := by
  induction n generalizing request s with
  | zero => cases hfault
  | succ n ih =>
    replace hfault : faultOf (step hosts (perform hosts n) n context request s) = some f := hfault
    have hnotRaw : ¬ f.Raw := by
      intro hraw
      rw [hraw.2 hplaced] at hform
      cases hform
    -- a fault that is passed on came up in a task inside
    have hinside : ∀ {always : Value → Interp → Prop}
        {work : Evaluators → EStateM.Result Flow Interp Value},
        Relays (perform hosts n) context always none work →
        (∀ r u, Asks hosts context ⟨n + 1, request, s⟩ ⟨n, r, u⟩ ↔
          Needs work (perform hosts n) context r u) →
        faultOf (work (perform hosts n)) = some f →
        RaisedIn hosts context ⟨n + 1, request, s⟩ f := by
      intro always work hwork hasks hf
      rcases hwork.source f hf with hraw | hnone | ⟨r, u, hneeds, hinner⟩
      · exact absurd hraw hnotRaw
      · cases hnone
      · exact .inside ((hasks r u).mpr hneeds) hfault (ih (hwork.asked r u hneeds) hinner)
    rcases step_cases hosts context n request s with
      ⟨cell, rfl, hactive⟩ | ⟨id, arguments, rfl⟩ | ⟨r, hr, -, hraw⟩
    · obtain ⟨g, hg, rfl⟩ := faultOf_form hactive hfault
      cases hlacks : g.lacksForm with
      | true =>
        obtain ⟨t, ht⟩ := faultOf_eq_some.mp hg
        rw [ht, if_pos rfl]
        refine .here hactive ht hlacks fun inner inside _ hrequest hsame => ?_
        by_contra hinner
        unfold result at hsame
        rw [hrequest] at hsame
        rw [lacksForm_of_form (Nat.lt_of_not_le hinner) hsame] at hlacks
        cases hlacks
      | false =>
        rw [hlacks] at hinside
        exact hinside (relays_form hosts context n cell hs) (asks_form hs hactive) hg
    · exact hinside (relays_ready hosts context n id arguments hs) (asks_ready id arguments)
        hfault
    · rw [hr] at hfault
      exact absurd (hraw f hfault) hnotRaw

end Task

/-! ## States that source text leads to -/

/-- The states in which something is evaluated when texts are read and evaluated, from the initial
state on. A datum of a text is interned just before it is evaluated. Which forms follow in which
state is left open, so no state of a run is missed. -/
inductive Reached (limit : Nat) : Interp → Prop
  | start : Reached limit (.initial limit)
  | read {s : Interp} {source : String} {data : List Datum} {d : Datum} (before : Reached limit s)
      (hread : readData .standard source = .ok data) (hd : d ∈ data) :
      Reached limit (d.intern.final s)
  | evaluated {s : Interp} (before : Reached limit s) (hosts : HostTable) (n : Nat)
      (context form : Value) : Reached limit ((perform hosts n context (.evaluate form)).final s)
  | operands {s : Interp} (before : Reached limit s) (hosts : HostTable) (n : Nat)
      (context forms : Value) :
      Reached limit ((Evaluators.list (perform hosts n) context forms).final s)
  | inside {task inner : Task} {hosts : HostTable} {context : Value}
      (before : Reached limit task.state) (hasks : task.Asks hosts context inner) :
      Reached limit inner.state

namespace Reached

variable {limit : Nat}

theorem native (h : Reached limit s) : s.Native := by
  induction h with
  | start => exact .initial limit
  | read _ hread hd ih => exact ih.datum (readData_inCapitals hread _ hd)
  | evaluated _ hosts n context form ih =>
    exact Evaluator.keepsNative_perform hosts context n (.evaluate form) _ ih
  | @operands s _ hosts n context forms ih =>
    have hlist : Relays (perform hosts n) context (fun _ _ => False) none fun ev =>
        ev.list context forms s :=
      .evaluated (Evaluator.keepsNative_perform hosts context n) ih forms
    exact hlist.native
  | inside _ hasks ih => exact hasks.native ih

/-- The states in which a list form calls its function are reached: those that its operator leaves,
and those that its operands leave. -/
theorem operator (h : Reached limit s) (hactive : s.active < s.limit) {form v : Value}
    (hoperator : perform hosts n context (.evaluate form) (s.withActive (s.active + 1)) = .ok v t) :
    Reached limit t := by
  let task : Task := ⟨1, .evaluate (.cons ⟨0⟩), s⟩
  have hasks : task.Asks hosts context ⟨0, .evaluate (s.car ⟨0⟩), s.withActive (s.active + 1)⟩ :=
    Evaluator.asks_operator h.native hactive
  have hstart : Reached limit task.state := h
  have hleft := (hstart.inside hasks).evaluated hosts n context form
  unfold EvalM.final at hleft
  rw [hoperator] at hleft
  exact hleft

theorem arguments (h : Reached limit s) {forms v : Value}
    (hoperands : Evaluators.list (perform hosts n) context forms s = .ok v t) :
    Reached limit t := by
  have hleft := h.operands hosts n context forms
  unfold EvalM.final at hleft
  rw [hoperands] at hleft
  exact hleft

/-- What a text leaves is reached, also where the text fails. -/
theorem text (h : Reached limit s) (m : Machine) (source : String) :
    Reached limit ((m.evaluateText source).final s) := by
  refine m.evaluateText_preserves source (fun data hread d hd u hu => ?_) h
  unfold Machine.evaluateDatum
  refine EvalM.final_bind_of (.read hu hread hd) fun form w hw => ?_
  unfold Machine.evaluate
  rw [EvalM.final_settle]
  exact .evaluated hw m.hosts m.fuel .nil form

theorem afterTexts (h : Reached limit s) (texts : List (Machine × String)) :
    Reached limit (s.afterTexts texts) := by
  induction texts generalizing s with
  | nil => exact h
  | cons r rest ih => exact ih (h.text r.1 r.2)

end Reached

/-! ## The course of a fault -/

/-- What becomes of the faults of evaluations that begin in a state. -/
structure Interp.CarriesFaults (hosts : HostTable) (context : Value) (s : Interp) : Prop where
  /-- An evaluation or type fault that leaves a list form was refused on entry, or it names the list
  form in whose application it came up and its message has the mark once. -/
  named : ∀ n cell f, faultOf (perform hosts n context (.evaluate (.cons cell)) s) = some f →
    f.Placed →
      (s.limit ≤ s.active ∧ f = .evaluation (.depthLimit s.limit) none) ∨
      (Task.RaisedIn hosts context ⟨n, .evaluate (.cons cell), s⟩ f ∧
        occurrences contextMark.toList f.message.toList = 1)
  /-- A fault that names its form, or is of a kind that never does, ends every task around the one
  that it leaves, unless one of them is a protected form whose last form fails. -/
  passed : ∀ task inner f, task.state = s → TransGen (Task.Asks hosts context) task inner →
    faultOf (inner.result hosts context) = some f → f.lacksForm = false →
      faultOf (task.result hosts context) = some f ∨
      ∃ attempt, ReflTransGen (Task.Asks hosts context) task attempt ∧
        TransGen (Task.Asks hosts context) attempt inner ∧ attempt.LastFails hosts context
  /-- Any fault of what a function asks for ends the call of the function, with the same
  exception. -/
  called : ∀ n id arguments r u f,
    let call := fun ev => (s.callable id).call hosts ev n context id arguments s
    Needs call (perform hosts n) context r u → faultOf (perform hosts n context r u) = some f →
      faultOf (call (perform hosts n)) = some f ∨
      (s.callable id = .primitive .guarded ∧
        AlwaysFails (FollowsAttempt (perform hosts n) context arguments s) call (perform hosts n)
          context)

/-- In the states that source text leads to, faults are named once, where they come up, and passed
on as they are. -/
theorem faults_named_once_and_passed_on {limit : Nat} (hs : Reached limit s) (hosts : HostTable)
    (context : Value) : s.CarriesFaults hosts context where
  named n cell f hfault hplaced := by
    rcases Nat.lt_or_ge s.active s.limit with hactive | hrefused
    · have hform := Task.lacksForm_of_form hactive hfault
      exact .inr ⟨Task.raisedIn_of_fault hs.native hfault hplaced hform,
        (Task.clean_of_fault hs.native hfault).occurrences_message hplaced hform⟩
    · cases n with
      | zero => cases hfault
      | succ n =>
        have hstep : perform hosts (n + 1) context (.evaluate (.cons cell)) s = _ :=
          Evaluator.step_form_refused hrefused (perform hosts n) (.cons cell)
        rw [hstep] at hfault
        cases hfault
        exact .inl ⟨hrefused, rfl⟩
  passed task inner f htask hinner hfault hform := by
    subst htask
    exact Task.passes_of_transGen hs.native hinner hfault hform
  called n id arguments r u f := by
    intro call hneeds hfault
    let always (form : Value) (w : Interp) : Prop := s.callable id = .primitive .guarded ∧
      FollowsAttempt (perform hosts n) context arguments s form w
    have hcall : Relays (perform hosts n) context always none call :=
      .call (Evaluator.keepsNative_perform hosts context n) hs.native hosts n id arguments
        (hs.native.callable_ne_host id) fun hguarded _ _ hlast => ⟨hguarded, hlast⟩
    rcases hcall.relay r u f hneeds hfault with hsame | ⟨form, w, flow, v, hlast, hasks, hflow⟩
    · exact .inl hsame
    · exact .inr ⟨hlast.1, form, w, flow, v, hlast.2, hasks, hflow⟩

/-- In `(progn (car 5))` the inner list form names itself in its fault, which ends the whole. -/
theorem fault_of_car_in_progn :
    let d : Datum :=
      .list [.symbol (.plain "PROGN"), .list [.symbol (.plain "CAR"), .number (.int 5)]]
    let s := d.intern.final (.initial 8)
    let hosts := HostProgram.demonstration
    let task : Task := ⟨4, .evaluate (.cons ⟨3⟩), s⟩
    let f : Fault := .type (.listOperand "CAR" "5") (some "(CAR 5)")
    Reached 8 s ∧ faultOf (task.result hosts .nil) = some f ∧ task.RaisedIn hosts .nil f ∧
      occurrences contextMark.toList f.message.toList = 1 ∧
      ∃ inner, TransGen (Task.Asks hosts .nil) task inner ∧
        faultOf (inner.result hosts .nil) = some f ∧
        (faultOf (task.result hosts .nil) = some f ∨
          ∃ attempt, ReflTransGen (Task.Asks hosts .nil) task attempt ∧
            TransGen (Task.Asks hosts .nil) attempt inner ∧ attempt.LastFails hosts .nil) := by
  intro d s hosts task f
  have hread : readData .standard "(progn (car 5))" = .ok [d] := rfl
  have hs : Reached 8 s := .read .start hread List.mem_cons_self
  have hfault : faultOf (task.result hosts .nil) = some f := by decide +kernel
  have hall := faults_named_once_and_passed_on hs hosts .nil
  rcases hall.named 4 ⟨3⟩ f hfault trivial with ⟨hrefused, -⟩ | ⟨hraised, honce⟩
  · exact absurd hrefused (by decide +kernel)
  refine ⟨hs, hfault, hraised, honce, ?_⟩
  -- the application of `PROGN` ends with a fault that names a form already
  have hnamed : faultOf (applyForm hosts (perform hosts 3) 3 .nil ⟨3⟩
      (s.withActive (s.active + 1))) = some f := by decide +kernel
  have hinside : ∀ k g, k = task → g = f → Task.RaisedIn hosts .nil k g →
      ∃ inner, k.Asks hosts .nil inner ∧ faultOf (inner.result hosts .nil) = some g := by
    intro k g hk hg h
    cases h with
    | here hactive happly hlacks _ =>
      injection hk with hfuel hrequest hstate
      cases hfuel
      cases hrequest
      rw [hstate] at happly
      rw [happly] at hnamed
      cases hnamed
      cases hlacks
    | inside hasks _ h => exact ⟨_, hasks, h.ends⟩
  obtain ⟨inner, hasks, hinner⟩ := hinside task f rfl rfl hraised
  exact ⟨inner, .single hasks, hinner, hall.passed task inner f rfl (.single hasks) hinner rfl⟩

end SmallLisp
