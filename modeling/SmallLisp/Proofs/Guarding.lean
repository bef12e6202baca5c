import SmallLisp.Proofs.Ending
import SmallLisp.Proofs.Frames
import SmallLisp.Proofs.TemplateMeaning

/-!
# Protected forms

A protected form runs one level deeper than its handler. The evaluations of a `TRY` without its
always form are a course of one, two or three: the protected form, after a throw that aims here the
handler form, and after a value of that the call. Whatever the course and its ending, the always
form is evaluated next, once, in the frames that the `TRY` started with (`always_follows`).

Courses are about any evaluator. That frames are restored, and that a throw which leaves the
protected form aims here, is true of `Evaluator.perform`.
-/

namespace SmallLisp

open Template (Evaluation Performs performs_append performs_singleton)

variable {α : Type} {ev : Evaluators} {context : Value} {s t u : Interp}

namespace Interp

/-- The state in a new frame. -/
def entered (s : Interp) (key : DepthKey) : Interp := { s with depths := s.depths.enter key }

/-- The state after leaving a frame. -/
def left (s : Interp) (key : DepthKey) : Interp := { s with depths := s.depths.leave key }

end Interp

theorem EvalM.ends_or_aborted (act : EvalM α) (s : Interp) :
    (∃ ending t, act.Ends s ending t) ∨ ∃ why t, act s = .error (.aborted why) t := by
  unfold EvalM.Ends
  cases act s with
  | ok a t => exact .inl ⟨.ok a, t, rfl⟩
  | error flow t =>
    cases flow with
    | fault cause => exact .inl ⟨.error (.fault cause), t, rfl⟩
    | signal σ => exact .inl ⟨.error (.signal σ), t, rfl⟩
    | aborted why => exact .inr ⟨why, t, rfl⟩

theorem SameFrames.left_entered (h : SameFrames (s.entered .guarded) t) :
    SameFrames s (t.left .guarded) := by
  refine ⟨h.chain, ?_, h.active⟩
  show t.depths.leave .guarded = s.depths
  rw [h.depths]
  exact Depths.leave_enter_guarded _

theorem sameFrames_of_ends {P : Depths → Signal → Prop} {act : EvalM α} {ending : Ending α}
    (hact : Balanced P act) (h : act.Ends s ending t) : SameFrames s t := by
  have hsettled := hact s
  rw [show act s = _ from h] at hsettled
  rcases ending with (cause | σ) | v
  all_goals cases hsettled; assumption

namespace SpecialForm

/-- A throw that aims at the protected form that starts in `s`. -/
def caughtThrow (s : Interp) (text : String) : Stop :=
  .signal (.throwing text (s.depths.get .guarded + 1))

/-! ## The course of a protected form and its handler -/

/-- The evaluations of a protected form and its handler from `s` on, in order, with the ending that
they come to and the state then. -/
inductive Course (form handler : Value) (s : Interp) :
    List Evaluation → Ending Value → Interp → Prop
  /-- The protected form ends in any way but with a throw that aims here. -/
  | passed {ending : Ending Value} {t : Interp}
      (huncaught : ∀ text, ending ≠ .error (caughtThrow s text)) :
      Course form handler s [⟨form, s.entered .guarded, ending, t⟩] ending (t.left .guarded)
  | handlerStops {text : String} {stop : Stop} {t u : Interp} :
      Course form handler s
        [⟨form, s.entered .guarded, .error (caughtThrow s text), t⟩,
          ⟨handler, t.left .guarded, .error stop, u⟩]
        (.error stop) u
  /-- The call is a new list of the handler and the text. -/
  | handled {text : String} {f call : Value} {ending : Ending Value} {t u w z : Interp}
      (hcall : u.listOf [f, .string text] = (call, w)) :
      Course form handler s
        [⟨form, s.entered .guarded, .error (caughtThrow s text), t⟩,
          ⟨handler, t.left .guarded, .ok f, u⟩, ⟨call, w, ending, z⟩]
        ending z

variable {form handler : Value}

/-- What follows the protected form. -/
theorem attempt_eq (ev : Evaluators) (context form handler : Value) (s : Interp) :
    attempt ev context form handler s =
      match (ev context).form form (s.entered .guarded) with
      | .error (.signal (.throwing text depth)) t =>
        if depth = s.depths.get .guarded + 1 then
          (do
            let f ← (ev context).form handler
            let call ← EvalM.list [f, .string text]
            (ev context).form call) (t.left .guarded)
        else .error (.signal (.throwing text depth)) (t.left .guarded)
      | .ok v t => .ok v (t.left .guarded)
      | .error flow t => .error flow (t.left .guarded) := by
  have hdepth : (s.depths.enter .guarded).get .guarded = s.depths.get .guarded + 1 :=
    Depths.get_enter_self _ _
  show EStateM.bind (EvalM.inFrame .guarded fun u =>
    landThrow (u.depths.get .guarded) ((ev context).form form) u) _ s = _
  unfold EStateM.bind EvalM.inFrame landThrow Interp.entered Interp.left
  dsimp only
  rw [hdepth]
  rcases (ev context).form form { s with depths := s.depths.enter .guarded } with ⟨v, t⟩ | ⟨flow, t⟩
  · rfl
  · rcases flow with cause | (⟨v, depth⟩ | ⟨depth⟩ | ⟨text, depth⟩) | _
    · rfl
    · rfl
    · rfl
    · by_cases hhere : depth = s.depths.get .guarded + 1
      · simp only [hhere, if_true]
      · simp only [hhere, if_false]
    · rfl

theorem attempt_passed {ending : Ending Value}
    (h : ((ev context).form form).Ends (s.entered .guarded) ending t)
    (huncaught : ∀ text, ending ≠ .error (caughtThrow s text)) :
    (attempt ev context form handler).Ends s ending (t.left .guarded) := by
  unfold EvalM.Ends
  rw [attempt_eq, show (ev context).form form (s.entered .guarded) = _ from h]
  rcases ending with (cause | (⟨v, depth⟩ | ⟨depth⟩ | ⟨text, depth⟩)) | v
  case error.signal.throwing =>
    refine if_neg fun hdepth => huncaught text ?_
    rw [hdepth]
    rfl
  all_goals rfl

theorem attempt_caught {text : String}
    (h : ((ev context).form form).Ends (s.entered .guarded) (.error (caughtThrow s text)) t) :
    attempt ev context form handler s =
      ((ev context).form handler >>= fun f => EvalM.list [f, .string text] >>= (ev context).form)
        (t.left .guarded) := by
  rw [attempt_eq, show (ev context).form form (s.entered .guarded) = _ from h]
  exact if_pos rfl

theorem attempt_aborted {why : Abort}
    (h : (ev context).form form (s.entered .guarded) = .error (.aborted why) t) :
    attempt ev context form handler s = .error (.aborted why) (t.left .guarded) := by
  rw [attempt_eq, h]

/-- After a throw that aims here and a value of the handler form, the call is evaluated. -/
theorem attempt_handled {text : String} {f : Value}
    (h : ((ev context).form form).Ends (s.entered .guarded) (.error (caughtThrow s text)) t)
    (hf : ((ev context).form handler).Ends (t.left .guarded) (.ok f) u) :
    attempt ev context form handler s =
      (ev context).form (u.listOf [f, .string text]).1 (u.listOf [f, .string text]).2 := by
  rw [attempt_caught h, hf.bind_eq]
  rfl

theorem performs_cons {call : Evaluation} {trace : List Evaluation} :
    Performs (ev context) (call :: trace) ↔
      ((ev context).form call.form).Ends call.before call.ending call.after ∧
        Performs (ev context) trace :=
  List.forall_mem_cons

/-- Courses that are carried out are what a protected form and its handler do. -/
theorem attempt_ends_iff {ending : Ending Value} :
    (attempt ev context form handler).Ends s ending u ↔
      ∃ trace, Course form handler s trace ending u ∧ Performs (ev context) trace := by
  constructor
  · intro h
    rcases ((ev context).form form).ends_or_aborted (s.entered .guarded) with
      ⟨ended, t, hform⟩ | ⟨why, t, hform⟩
    · by_cases hcaught : ∃ text, ended = .error (caughtThrow s text)
      · obtain ⟨text, rfl⟩ := hcaught
        have hrest := h.of_eq (attempt_caught hform).symm
        rcases EvalM.ends_bind.mp hrest with ⟨f, w, hf, -⟩ | ⟨stop, hstop, rfl⟩
        · have hcall := h.of_eq (attempt_handled hform hf).symm
          exact ⟨_, .handled (Prod.eta _).symm,
            performs_cons.mpr ⟨hform, performs_cons.mpr ⟨hf, performs_singleton.mpr hcall⟩⟩⟩
        · exact ⟨_, .handlerStops, performs_cons.mpr ⟨hform, performs_singleton.mpr hstop⟩⟩
      · have huncaught : ∀ text, ended ≠ .error (caughtThrow s text) :=
          fun text htext => hcaught ⟨text, htext⟩
        obtain ⟨rfl, rfl⟩ := h.unique (attempt_passed hform huncaught)
        exact ⟨_, .passed huncaught, performs_singleton.mpr hform⟩
    · exact absurd (h.of_eq (attempt_aborted hform).symm) EvalM.not_ends_aborted
  · rintro ⟨trace, hcourse, hperforms⟩
    cases hcourse with
    | passed huncaught => exact attempt_passed (performs_singleton.mp hperforms) huncaught
    | handlerStops =>
      obtain ⟨hform, hrest⟩ := performs_cons.mp hperforms
      exact (performs_singleton.mp hrest).bind_stop.of_eq (attempt_caught hform)
    | handled hcall =>
      obtain ⟨hform, hrest⟩ := performs_cons.mp hperforms
      obtain ⟨hf, hrest⟩ := performs_cons.mp hrest
      refine (performs_singleton.mp hrest).of_eq ?_
      rw [attempt_handled hform hf, hcall]

/-! ## The always form -/

theorem followedBy_of_ends {act after : EvalM Value} {ending : Ending Value}
    (h : act.Ends s ending u) :
    followedBy act after s = (after >>= fun _ => EvalM.resume ending) u := by
  show _ = EStateM.bind after (fun _ => EvalM.resume ending) u
  unfold followedBy EStateM.bind
  rcases ending with (cause | σ) | v
  · rw [show act s = .error (.fault cause) u from h]
    dsimp only
    cases after u <;> rfl
  · rw [show act s = .error (.signal σ) u from h]
    dsimp only
    cases after u <;> rfl
  · rw [show act s = .ok v u from h]
    dsimp only
    cases after u <;> rfl

theorem followedBy_aborted {act after : EvalM Value} {why : Abort}
    (h : act s = .error (.aborted why) u) : followedBy act after s = .error (.aborted why) u := by
  unfold followedBy
  rw [h]

/-- An always form that yields leaves the ending alone, and one that stops replaces it. -/
theorem ends_after_iff {always : Value} {ended ending : Ending Value} :
    ((ev context).form always >>= fun _ => EvalM.resume ended).Ends u ending t ↔
      ∃ last, ((ev context).form always).Ends u last t ∧ ending = last.bind fun _ => ended := by
  rw [EvalM.ends_bind]
  constructor
  · rintro (⟨v, w, hlast, hended⟩ | ⟨stop, hstop, rfl⟩)
    · obtain ⟨rfl, rfl⟩ := EvalM.ends_resume.mp hended
      exact ⟨.ok v, hlast, rfl⟩
    · exact ⟨.error stop, hstop, rfl⟩
  · rintro ⟨last, hlast, rfl⟩
    match last with
    | .ok v => exact .inl ⟨v, t, hlast, EvalM.ends_resume.mpr ⟨rfl, rfl⟩⟩
    | .error stop => exact .inr ⟨stop, hlast, rfl⟩

theorem guarded_eq {arguments always : Value} (h : s.third? arguments = some always) :
    guarded ev context arguments s =
      followedBy (attempt ev context (s.first arguments) (s.second arguments))
        ((ev context).form always) s := by
  unfold guarded
  rw [EvalM.read_bind_apply, EvalM.read_bind_apply, EvalM.read_bind_apply, h]

/-- How `run`, from `s` on, treats an always form behind a protected form and its handler. -/
structure AlwaysFollows (ev : Evaluator) (honest : Prop) (form handler always : Value)
    (run : EvalM Value) (s : Interp) : Prop where
  /-- The evaluations are a course and then the always form. If that yields, the ending is that of
  the course, else it is its own. -/
  ends_iff : ∀ ending t, run.Ends s ending t ↔ ∃ trace ended u last,
    Course form handler s trace ended u ∧ Performs ev (trace ++ [⟨always, u, last, t⟩]) ∧
      ending = last.bind fun _ => ended
  /-- A course that has ended is followed by the always form, also if that does not end. -/
  started : ∀ trace ended u, Course form handler s trace ended u → Performs ev trace →
    run s = (ev.form always >>= fun _ => EvalM.resume ended) u
  /-- Without an ended course there is no ending. -/
  waits : (∀ trace ended u, Course form handler s trace ended u → ¬ Performs ev trace) →
    ∃ why u, run s = .error (.aborted why) u
  /-- The always form, the handler form and the call are evaluated in the frames around `run`. -/
  frames : ∀ trace ended u, Course form handler s trace ended u → Performs ev trace →
    SameFrames s u ∧ ∀ call ∈ trace.tail, SameFrames s call.before
  /-- The third evaluation of a course, the call, is carried out exactly if the protected form ended
  with a throw and the handler form yielded. -/
  called : honest → ∀ trace ended u, Course form handler s trace ended u → Performs ev trace →
    (trace.length = 3 ↔ ∃ text depth t f w,
      (ev.form form).Ends (s.entered .guarded) (.error (.signal (.throwing text depth))) t ∧
        (ev.form handler).Ends (t.left .guarded) (.ok f) w)
  /-- No throw that gets out aims at the protected form. -/
  outward : honest → ∀ text depth t, run.Ends s (.error (.signal (.throwing text depth))) t →
    depth = s.depths.get .guarded

/-- What a protected form and its handler do, followed by an always form, for any evaluator. -/
theorem followedBy_ends_iff {always : Value} {ending : Ending Value} :
    (followedBy (attempt ev context form handler) ((ev context).form always)).Ends s ending t ↔
      ∃ trace ended u last, Course form handler s trace ended u ∧
        Performs (ev context) (trace ++ [⟨always, u, last, t⟩]) ∧
        ending = last.bind fun _ => ended := by
  constructor
  · intro h
    rcases (attempt ev context form handler).ends_or_aborted s with
      ⟨ended, u, hended⟩ | ⟨why, u, haborted⟩
    · obtain ⟨trace, hcourse, hperforms⟩ := attempt_ends_iff.mp hended
      obtain ⟨last, hlast, hending⟩ := ends_after_iff.mp (h.of_eq (followedBy_of_ends hended).symm)
      exact ⟨trace, ended, u, last, hcourse,
        performs_append.mpr ⟨hperforms, performs_singleton.mpr hlast⟩, hending⟩
    · exact absurd (h.of_eq (followedBy_aborted haborted).symm) EvalM.not_ends_aborted
  · rintro ⟨trace, ended, u, last, hcourse, hperforms, hending⟩
    obtain ⟨hperforms, hlast⟩ := performs_append.mp hperforms
    have hended := attempt_ends_iff.mpr ⟨trace, hcourse, hperforms⟩
    refine (ends_after_iff.mpr ⟨last, ?_, hending⟩).of_eq (followedBy_of_ends hended)
    exact performs_singleton.mp hlast

/-! ## Frames and throws -/

variable {honest : Prop}

/-- A throw that leaves the protected form is caught. -/
theorem throw_caught (hev : ∀ request, Balanced (Allowed honest) (ev context request))
    (hhonest : honest) {text : String} {depth : Nat}
    (h : ((ev context).form form).Ends (s.entered .guarded)
      (.error (.signal (.throwing text depth))) t) :
    Stop.signal (.throwing text depth) = caughtThrow s text := by
  have haimed := (hev (.evaluate form) _).aim_of_eq h hhonest
  have hdepth : depth = (s.depths.enter .guarded).get .guarded := haimed.2
  rw [hdepth, Depths.get_enter_self]
  rfl

namespace Course

variable {trace : List Evaluation} {ended : Ending Value}

/-- Everything but the protected form is evaluated in the frames around it. -/
theorem frames (hev : ∀ request, Balanced (Allowed honest) (ev context request))
    (h : Course form handler s trace ended u) (hperforms : Performs (ev context) trace) :
    SameFrames s u ∧ ∀ call ∈ trace.tail, SameFrames s call.before := by
  have hrun : ∀ {x v w ending}, ((ev context).form x).Ends v ending w → SameFrames v w :=
    fun {x} _ _ _ hends => sameFrames_of_ends (hev (.evaluate x)) hends
  cases h with
  | passed huncaught =>
    exact ⟨(hrun (performs_singleton.mp hperforms)).left_entered,
      fun _ hcall => absurd hcall List.not_mem_nil⟩
  | handlerStops =>
    obtain ⟨hform, hrest⟩ := performs_cons.mp hperforms
    have hleft := (hrun hform).left_entered
    refine ⟨hleft.trans (hrun (performs_singleton.mp hrest)), fun call hcall => ?_⟩
    rw [List.mem_singleton.mp hcall]
    exact hleft
  | @handled text f call ending t v w z hcall =>
    obtain ⟨hform, hrest⟩ := performs_cons.mp hperforms
    obtain ⟨hf, hrest⟩ := performs_cons.mp hrest
    have hleft := (hrun hform).left_entered
    have hnew : (EvalM.list [f, .string text]).Ends v (.ok call) w :=
      EvalM.ends_step.mpr ⟨congrArg (Except.ok ·.1) hcall.symm, congrArg (·.2) hcall.symm⟩
    have hlist : SameFrames v w := sameFrames_of_ends (Balanced.list (P := Allowed honest) _) hnew
    have hbefore := (hleft.trans (hrun hf)).trans hlist
    refine ⟨hbefore.trans (hrun (performs_singleton.mp hrest)), fun call' hcall' => ?_⟩
    rcases List.mem_cons.mp hcall' with rfl | hcall'
    · exact hleft
    · rw [List.mem_singleton.mp hcall']
      exact hbefore

theorem length_eq_three_iff (hev : ∀ request, Balanced (Allowed honest) (ev context request))
    (hhonest : honest) (h : Course form handler s trace ended u)
    (hperforms : Performs (ev context) trace) :
    trace.length = 3 ↔ ∃ text depth t f w,
      ((ev context).form form).Ends (s.entered .guarded)
          (.error (.signal (.throwing text depth))) t ∧
        ((ev context).form handler).Ends (t.left .guarded) (.ok f) w := by
  cases h with
  | passed huncaught =>
    refine ⟨nofun, ?_⟩
    rintro ⟨text, depth, t, f, w, hthrow, -⟩
    obtain ⟨hending, -⟩ := (performs_singleton.mp hperforms).unique hthrow
    exact absurd (hending.trans (congrArg _ (throw_caught hev hhonest hthrow))) (huncaught text)
  | handlerStops =>
    refine ⟨nofun, ?_⟩
    rintro ⟨text, depth, t, f, w, hthrow, hf⟩
    obtain ⟨hform, hrest⟩ := performs_cons.mp hperforms
    obtain ⟨-, rfl⟩ := hform.unique hthrow
    cases ((performs_singleton.mp hrest).unique hf).1
  | handled hcall =>
    obtain ⟨hform, hrest⟩ := performs_cons.mp hperforms
    exact ⟨fun _ => ⟨_, _, _, _, _, hform, (performs_cons.mp hrest).1⟩, fun _ => rfl⟩

end Course

end SpecialForm

/-- A protected form with a handler and an always form, as the evaluator carries it out: the always
form is started exactly once, when the others have ended and all frames are as they were, and
changes the ending only by failing itself. -/
theorem always_follows (hosts : HostTable) (n m : Nat) (context arguments always : Value)
    (s : Interp) (halways : s.third? arguments = some always) :
    let ev := Evaluator.perform hosts n
    SpecialForm.AlwaysFollows (ev context) hosts.Forward (s.first arguments)
      (s.second arguments) always (Primitive.guarded.run ev context m arguments) s := by
  intro ev
  have hev : ∀ request, Balanced (Allowed hosts.Forward) (ev context request) :=
    perform_balanced hosts n context
  have hrun : Primitive.guarded.run ev context m arguments s = SpecialForm.followedBy
      (SpecialForm.attempt ev context (s.first arguments) (s.second arguments))
      ((ev context).form always) s :=
    SpecialForm.guarded_eq halways
  constructor
  case ends_iff =>
    intro ending t
    rw [← SpecialForm.followedBy_ends_iff]
    exact ⟨fun h => h.of_eq hrun.symm, fun h => h.of_eq hrun⟩
  case started =>
    intro trace ended u hcourse hperforms
    have hended := SpecialForm.attempt_ends_iff.mpr ⟨trace, hcourse, hperforms⟩
    exact hrun.trans (SpecialForm.followedBy_of_ends hended)
  case waits =>
    intro hnone
    rcases (SpecialForm.attempt ev context (s.first arguments)
      (s.second arguments)).ends_or_aborted s with ⟨ended, u, hended⟩ | ⟨why, u, haborted⟩
    · obtain ⟨trace, hcourse, hperforms⟩ := SpecialForm.attempt_ends_iff.mp hended
      exact absurd hperforms (hnone trace ended u hcourse)
    · exact ⟨why, u, hrun.trans (SpecialForm.followedBy_aborted haborted)⟩
  case frames => exact fun trace ended u hcourse hperforms => hcourse.frames hev hperforms
  case called =>
    exact fun hhosts trace ended u hcourse hperforms =>
      hcourse.length_eq_three_iff hev hhosts hperforms
  case outward =>
    intro hhosts text depth t h
    have hguarded := Balanced.guarded hev arguments s
    exact (hguarded.aim_of_eq h hhosts).2

/-- The arguments are `((THROW "x") NOT (LIST))`: the handler is called with the text, and the list
that the always form makes is not the answer. -/
theorem throw_handled :
    let s := { Interp.initial 100 with
      cells := #[⟨.cons ⟨3⟩, .cons ⟨1⟩⟩, ⟨.symbol ⟨32⟩, .cons ⟨2⟩⟩, ⟨.cons ⟨5⟩, .nil⟩,
        ⟨.symbol ⟨23⟩, .cons ⟨4⟩⟩, ⟨.string "x", .nil⟩, ⟨.symbol ⟨27⟩, .nil⟩] }
    let ev := Evaluator.perform HostProgram.demonstration 3
    let run := Primitive.guarded.run ev .nil 3 (.cons ⟨0⟩)
    s.third? (.cons ⟨0⟩) = some (.cons ⟨5⟩) ∧
      SpecialForm.AlwaysFollows (ev .nil) (HostTable.Forward HostProgram.demonstration)
        (.cons ⟨3⟩) (.symbol ⟨32⟩) (.cons ⟨5⟩) run s ∧
      HostTable.Forward HostProgram.demonstration ∧ run.answer? s = some .nil := by
  intro s ev run
  have halways : s.third? (.cons ⟨0⟩) = some (.cons ⟨5⟩) := rfl
  refine ⟨halways, ?_, HostProgram.demonstration_forward, by decide +kernel⟩
  exact always_follows HostProgram.demonstration 3 3 .nil (.cons ⟨0⟩) (.cons ⟨5⟩) s halways

end SmallLisp
