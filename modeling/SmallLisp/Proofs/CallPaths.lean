import SmallLisp.Proofs.Callers
import SmallLisp.Proofs.Guarding
import SmallLisp.Proofs.QuotedForms
import SmallLisp.Proofs.Renewal
import SmallLisp.Proofs.TrackedRuns

/-!
# A list form calls a function as applying it does

A function can be called through a list form with the function itself at its head, or be applied to
an argument list. If the function evaluates its operands, the operands of the form are the arguments
in `QUOTE` forms, and the function gets a new list of them. That list is the given one at other
addresses, if nothing else refers to the cells of the given one. So the two calls start in states
that are relocated to each other, and `Evaluator.nested_tracked` leads from there to their endings.
-/

namespace SmallLisp

variable {s t u : Interp} {r : Relocation} {cell : CellId} {f : FunctionId} {arguments : Value}

/-! ## Forms of calls -/

/-- The form in `cell` calls `f` on an argument list: its head is the function, and its operands are
the argument list, with every argument quoted if the function evaluates its operands. -/
structure Interp.CallForm (s : Interp) (cell : CellId) (f : FunctionId) (arguments : Value) :
    Prop where
  head : s.car cell = .function f
  quoted : (s.callable f).evaluatesArguments = true →
    List.Forall₂ (Template.Tagged s .quote) (s.elementsOf (s.cdr cell)) (s.elementsOf arguments) ∧
      s.tailOf (s.cdr cell) = s.tailOf arguments
  plain : (s.callable f).evaluatesArguments = false → s.cdr cell = arguments

/-- What a function is called with through a form, and the state then. -/
def Interp.passed (s : Interp) (f : FunctionId) (arguments : Value) : Value × Interp :=
  if (s.callable f).evaluatesArguments then s.listOf (s.elementsOf arguments) else (arguments, s)

namespace Interp.CallForm

/-- The operands of the form are as many as the arguments, and both lists are proper or none is. -/
theorem fit_eq (h : s.CallForm cell f arguments) :
    Evaluator.fit s f (s.cdr cell) = Evaluator.fit s f arguments := by
  cases hevaluates : (s.callable f).evaluatesArguments with
  | false => rw [h.plain hevaluates]
  | true =>
    obtain ⟨hquoted, htail⟩ := h.quoted hevaluates
    have hlength : (s.cellsOf (s.cdr cell)).length = (s.cellsOf arguments).length := by
      simpa [elementsOf] using hquoted.length_eq
    show (if !(s.tailOf _).isNil then _ else if (s.cellsOf _).length < _ then
      Evaluator.Fit.short _ (s.cellsOf _).length else _) = _
    rw [htail, hlength]
    rfl

theorem supplies_iff (h : s.CallForm cell f arguments) :
    s.Supplies (s.callable f) (s.cdr cell) ↔ s.Supplies (s.callable f) arguments := by
  have hfit : ∀ v, s.Supplies (s.callable f) v ↔
      Evaluator.fit s f v = .fits (s.callable f) := by
    intro v
    refine ⟨Evaluator.fit_of_supplies, fun hfits => ?_⟩
    rcases Evaluator.fit_cases s f v with ⟨hsupplies, -⟩ | ⟨-, hrefused⟩
    · exact hsupplies
    · rw [hfits] at hrefused
      rcases hrefused with hrefused | ⟨_, _, hrefused⟩ <;> cases hrefused
  rw [hfit, hfit, h.fit_eq]

end Interp.CallForm

namespace Evaluator

open EvalM (Yields)

variable {hosts : HostTable} {limit n active : Nat} {context : Value} {room : Prop}

/-- The function of a form that calls it is called on what is passed to it. -/
theorem yields_callForm (hs : s.Quoting) (hform : s.CallForm cell f arguments)
    (hsupplies : s.Supplies (s.callable f) (s.cdr cell))
    (hroom : room → 2 ≤ n ∧ active + 1 < limit) :
    let evaluator := nested hosts (throw .spent) limit n active
    Yields room (applyForm hosts evaluator n context cell) s
      ((s.callable f).call hosts evaluator n context f (s.passed f arguments).1
        (s.passed f arguments).2) := by
  intro evaluator
  refine yields_applyForm ?_ hsupplies ?_
  · rw [hform.head]
    exact yields_function f fun h => by have := hroom h; omega
  · unfold Evaluators.argumentsFor Interp.passed
    cases hevaluates : (s.callable f).evaluatesArguments with
    | false =>
      rw [hform.plain hevaluates]
      exact .of_eq rfl
    | true =>
      obtain ⟨hquoted, -⟩ := hform.quoted hevaluates
      have hvalues : List.Forall₂ (fun form v =>
          Yields room ((evaluator context).form form) s (.ok v s)) _ _ :=
        hquoted.imp fun _ _ hform => yields_quoted hs hform hroom
      exact (yields_list hsupplies.proper hvalues).bind (.of_eq rfl)

end Evaluator

/-! ## The start of the two calls -/

/-- The function of a form is called in a relocated state, on relocated arguments. -/
theorem Interp.CallForm.starts (hs : s.Live) (hproper : s.isProper arguments = true)
    (hunshared : (s.callable f).evaluatesArguments = true → s.Unshared arguments) :
    ∃ r : Relocation,
      (if (s.callable f).evaluatesArguments then r.Renews s arguments else r = .still) ∧
        (s.passed f arguments).1 = arguments.relocate r ∧
        Relocated r s (s.passed f arguments).2 := by
  unfold passed
  cases hevaluates : (s.callable f).evaluatesArguments with
  | false => exact ⟨.still, rfl, (Value.relocate_still _).symm, .refl (.of_live hs)⟩
  | true => exact (hunshared hevaluates).newList hs hproper (s.newList_listOf _)

/-! ## Counts of evaluations -/

namespace Relocated

theorem counting (h : Relocated r s t) (active limit active' limit' : Nat) :
    Relocated r (s.counting active limit) (t.counting active' limit') :=
  { h with }

theorem hosts (h : Relocated r s t) : t.HostsAre fun _ => False := by
  intro g hg
  rw [h.callables] at hg
  obtain ⟨f, hf, hfg⟩ := Array.mem_map.mp hg
  cases f with
  | host g' => exact h.hostless g' hf
  | _ => cases hfg

variable (h : Relocated .still s t)

include h

theorem print_still (v : Value) : t.print v = s.print v := by
  simpa using h.print v

theorem elementsOf_still (v : Value) : t.elementsOf v = s.elementsOf v := by
  simpa [show Value.relocate .still = id from funext Value.relocate_still] using h.elementsOf v

theorem tailOf_still (v : Value) : t.tailOf v = s.tailOf v := by
  simpa [Interp.tailOf] using congrArg Prod.snd (h.spine v)

theorem tagged_still {tag : SymbolId} {form v : Value} (hform : Template.Tagged s tag form v) :
    Template.Tagged t tag form v := by
  have hoperand := h.operand? tag form
  rw [Template.operand?_eq_some_iff.mpr hform] at hoperand
  exact Template.operand?_eq_some_iff.mp (by simpa using hoperand)

end Relocated

theorem Interp.consReversed_counting (items : List Value) (s : Interp) (tail : Value)
    (active limit : Nat) :
    (s.counting active limit).consReversed items tail =
      ((s.consReversed items tail).1, (s.consReversed items tail).2.counting active limit) := by
  induction items generalizing s tail with
  | nil => rfl
  | cons item items ih => exact ih (s.allocCell item tail).2 (s.allocCell item tail).1

theorem Interp.passed_counting (hs : s.Live) (f : FunctionId) (arguments : Value)
    (active limit : Nat) :
    (s.counting active limit).passed f arguments =
      ((s.passed f arguments).1, (s.passed f arguments).2.counting active limit) := by
  have hsame := (Relocated.refl (.of_live hs)).counting s.active s.limit active limit
  unfold passed
  rw [show (s.counting active limit).callable f = s.callable f from rfl,
    hsame.elementsOf_still arguments]
  split
  · exact consReversed_counting _ s .nil active limit
  · rfl

theorem Interp.callable_passed (s : Interp) (f g : FunctionId) (arguments : Value) :
    (s.passed f arguments).2.callable g = s.callable g := by
  unfold passed
  split
  · rw [(s.newList_listOf (s.elementsOf arguments)).grown.others]
    rfl
  · rfl

theorem Interp.Supplies.counting {g : Callable} (h : s.Supplies g arguments) (hs : s.Live)
    (active limit : Nat) : (s.counting active limit).Supplies g arguments := by
  have hsame := (Relocated.refl (.of_live hs)).counting s.active s.limit active limit
  have hproper := hsame.isProper arguments
  have hlength := hsame.lengthOf arguments
  rw [Value.relocate_still] at hproper hlength
  exact ⟨hproper.trans h.proper, hlength ▸ h.enough⟩

theorem Interp.CallForm.counting (h : s.CallForm cell f arguments) (hs : s.Live)
    (active limit : Nat) : (s.counting active limit).CallForm cell f arguments where
  head := h.head
  plain := h.plain
  quoted hevaluates := by
    have hsame := (Relocated.refl (.of_live hs)).counting s.active s.limit active limit
    obtain ⟨hquoted, htail⟩ := h.quoted hevaluates
    rw [show (s.counting active limit).cdr cell = s.cdr cell from rfl, hsame.elementsOf_still,
      hsame.elementsOf_still, hsame.tailOf_still, hsame.tailOf_still]
    exact ⟨hquoted.imp fun _ _ hform => hsame.tagged_still hform, htail⟩

/-! ## How the two calls end -/

/-- The fault after a form with this text has been named in it, if none was before. -/
def Fault.naming (fault : Fault) (form : String) : Fault :=
  if fault.lacksForm then fault.withForm form else fault

/-- How a form ends that calls a function, if the call of the function ends like this: what refers
to cells is relocated, and a fault that names no form names this one. -/
def Ending.asForm (r : Relocation) (form : String) : Ending Value → Ending Value
  | .ok v => .ok (v.relocate r)
  | .error (.signal σ) => .error (.signal (σ.relocate r))
  | .error (.fault fault) => .error (.fault (fault.naming form))

/-- A call through a form that ends ends as the call does, and it ends if that does. -/
theorem Moved.named_ends {result result' : EStateM.Result Flow Interp Value}
    (h : Moved r (Value.relocate r) result result') (form : Value) :
    (∃ ending u t, result = EvalM.resume ending u ∧ Relocated r u t ∧
      Evaluator.named form result' = EvalM.resume (ending.asForm r (t.print form)) t) ∨
    ∃ why u t, result = .error (.aborted why) u ∧
      Evaluator.named form result' = .error (.aborted why) t := by
  cases h with
  | @ok v u w h => exact .inl ⟨.ok v, u, _, rfl, h.withActive u.active _, rfl⟩
  | @error flow u w h =>
    cases flow with
    | aborted why => exact .inr ⟨why, u, _, rfl, rfl⟩
    | signal σ => exact .inl ⟨.error (.signal σ), u, _, rfl, h.withActive u.active _, rfl⟩
    | fault fault =>
      let t := w.withActive (w.active - 1)
      have hprint : t.print form = w.print form :=
        ((Relocated.refl h.hosts).withActive w.active _).print_still form
      refine .inl ⟨.error (.fault fault), u, t, rfl, h.withActive u.active _, ?_⟩
      rw [hprint]
      rfl

/-- With one more active evaluation than the call, under a limit that is one higher, the form makes
the same call. -/
theorem Interp.CallForm.run (hform : s.CallForm cell f arguments) (hs : s.Quoting)
    (hsupplies : s.Supplies (s.callable f) arguments)
    (hvalue : (s.passed f arguments).1 = arguments.relocate r)
    (hstart : Relocated r s (s.passed f arguments).2) (hosts : HostTable)
    (n bound active : Nat) (context : Value) :
    let call := Evaluator.nested hosts (throw .spent) bound (n + 1) active context
      (.apply f arguments)
    let form := Evaluator.nested hosts (throw .spent) (bound + 1) (n + 1) active context
      (.evaluate (.cons cell))
    ∃ result, Moved r (Value.relocate r) (call (s.withLimit bound)) result ∧
      EvalM.Yields (2 ≤ n ∧ active + 1 < bound) form (s.withLimit (bound + 1))
        (Evaluator.named (.cons cell) result) := by
  intro call form
  let evaluator := Evaluator.nested hosts (throw .spent) bound n active
  let evaluator' := Evaluator.nested hosts (throw .spent) (bound + 1) n (active + 1)
  let u := s.counting (s.active + 1) (bound + 1)
  have hcall : call (s.withLimit bound) =
      (s.callable f).call hosts evaluator n context f arguments (s.withLimit bound) := by
    have hsupplied : (s.withLimit bound).Supplies (s.callable f) arguments :=
      hsupplies.counting hs.live s.active bound
    have hready := Evaluator.fit_of_supplies hsupplied
    show Evaluator.applyReady hosts evaluator n context f arguments _ = _
    rw [Evaluator.applyReady_eq, hready]
    rfl
  have hsame : (s.callable f).relocate r = s.callable f := by
    rw [← hstart.callable, s.callable_passed]
  have hmoved : Moved r (Value.relocate r) (call (s.withLimit bound))
      ((s.callable f).call hosts evaluator' n context f (u.passed f arguments).1
        (u.passed f arguments).2) := by
    have htracks : Tracks r (Value.relocate r)
        ((s.callable f).call hosts evaluator n context f arguments)
        (((s.callable f).relocate r).call hosts evaluator' n context f (arguments.relocate r)) :=
      .call (fun context => Evaluator.nested_tracked r hosts bound n active context) f arguments
        (hstart.not_host (Evaluator.fit_of_supplies hsupplies))
    rw [hcall, s.passed_counting hs.live, hvalue]
    rw [hsame] at htracks
    exact htracks _ _ (hstart.counting ..)
  refine ⟨_, hmoved, Evaluator.yields_nested (fun h => by omega) fun m hm => ?_⟩
  cases hm
  have hoperands := hform.supplies_iff.mpr hsupplies
  have happly : EvalM.Yields (2 ≤ n ∧ active + 1 < bound)
      (Evaluator.applyForm hosts evaluator' n context cell) u _ :=
    Evaluator.yields_callForm (hs.counting ..) (hform.counting hs.live ..)
      (hoperands.counting hs.live ..) fun h => by omega
  exact happly.named

theorem EvalM.Ends.not_aborted {α : Type} {act : EvalM α} {ending : Ending α} {why : Abort}
    (h : act.Ends s ending t) (haborted : act s = .error (.aborted why) u) : False :=
  not_ends_aborted (haborted.symm.trans h : (throw (.aborted why) : EvalM α).Ends u ending t)

/-- Where the form ends the call does. Where the call ends and there is room for the evaluations of
the form besides, the form does. -/
theorem Interp.CallForm.agree (hform : s.CallForm cell f arguments) (hs : s.Quoting)
    (hsupplies : s.Supplies (s.callable f) arguments)
    (hvalue : (s.passed f arguments).1 = arguments.relocate r)
    (hstart : Relocated r s (s.passed f arguments).2) (hosts : HostTable)
    (n bound active : Nat) (context : Value) :
    let call := Evaluator.nested hosts (throw .spent) bound (n + 1) active context
      (.apply f arguments)
    let form := Evaluator.nested hosts (throw .spent) (bound + 1) (n + 1) active context
      (.evaluate (.cons cell))
    (∀ ending' t, form.Ends (s.withLimit (bound + 1)) ending' t →
      ∃ ending u, call.Ends (s.withLimit bound) ending u ∧
        Relocated r u t ∧ ending' = ending.asForm r (t.print (.cons cell))) ∧
    (2 ≤ n ∧ active + 1 < bound →
      ∀ ending u, call.Ends (s.withLimit bound) ending u →
        ∃ t, form.Ends (s.withLimit (bound + 1)) (ending.asForm r (t.print (.cons cell))) t ∧
          Relocated r u t) := by
  intro call form
  obtain ⟨result, hmoved, hyields⟩ :=
    hform.run hs hsupplies hvalue hstart hosts n bound active context
  rcases hmoved.named_ends (.cons cell) with
    ⟨ending, u, t, hcall, hstate, hnamed⟩ | ⟨why, u, t, hcall, hnamed⟩
  · rw [hnamed] at hyields
    refine ⟨fun ending' t' hends => ?_, fun hroom ended u' hends => ?_⟩
    · rcases hyields with hformed | ⟨-, w, hspent⟩
      · obtain ⟨rfl, rfl⟩ := hends.unique hformed
        exact ⟨ending, u, hcall, hstate, rfl⟩
      · exact (hends.not_aborted hspent).elim
    · obtain ⟨rfl, rfl⟩ := hends.unique hcall
      exact ⟨t, hyields.resolve_right fun hspent => hspent.1 hroom, hstate⟩
  · rw [hnamed] at hyields
    refine ⟨fun ending' t' hends => ?_, fun _ ended u' hends => (hends.not_aborted hcall).elim⟩
    rcases hyields with hspent | ⟨-, w, hspent⟩ <;> exact (hends.not_aborted hspent).elim

/-- A form with dotted or too few operands fails as the call does, and nothing has changed then. The
fault of the form names it, or mentions it instead of the arguments. -/
inductive Fault.Refuses (text : String) (arguments : String) : Fault → Fault → Prop
  | dotted : Refuses text arguments (.evaluation (.dottedArguments arguments) none)
      ((Fault.evaluation (.dottedForm text) none).naming text)
  | short (expected got : Nat) : Refuses text arguments (.arity expected got none)
      (.arity expected got (some text))

/-- Neither the form nor the call reaches a function that the arguments do not supply. -/
theorem Interp.CallForm.refused (hform : s.CallForm cell f arguments) (hs : s.Quoting)
    (hrefused : ¬ s.Supplies (s.callable f) arguments) (hosts : HostTable) {bound active : Nat}
    (hroom : active + 1 < bound) (n : Nat) (context : Value) :
    let perform := Evaluator.nested hosts (throw .spent) bound (n + 2) active context
    ∃ fault fault', (perform (.apply f arguments)).Ends s (.error (.fault fault)) s ∧
      (perform (.evaluate (.cons cell))).Ends s (.error (.fault fault')) s ∧
      Fault.Refuses (s.print (.cons cell)) (s.print arguments) fault fault' := by
  intro perform
  let evaluator := Evaluator.nested hosts (throw .spent) bound (n + 1)
  let u := s.counting (s.active + 1) s.limit
  have hsame : Relocated .still s u := (Relocated.refl (.of_live hs.live)).counting ..
  have hfit : Evaluator.fit u f (u.cdr cell) = (Evaluator.fit s f arguments).relocate .still := by
    rw [(hform.counting hs.live _ _).fit_eq, ← hsame.fit, Value.relocate_still]
  have hhead : (evaluator (active + 1) context).form (u.car cell) u = .ok (.function f) u := by
    have hyields : EvalM.Yields True ((evaluator (active + 1) context).form (.function f)) u _ :=
      Evaluator.yields_function f fun _ => ⟨n.succ_pos, hroom⟩
    rw [show u.car cell = .function f from hform.head]
    exact hyields.resolve_right fun hspent => hspent.1 trivial
  have hprint := hsame.print_still (.cons cell)
  have happly : perform (.apply f arguments) s = _ :=
    Evaluator.applyReady_eq hosts (evaluator active) (n + 1) context f arguments s
  have hcalled : Evaluator.applyForm hosts (evaluator (active + 1)) (n + 1) context cell u = _ :=
    Evaluator.applyForm_eq hhead
  rw [hfit, hprint] at hcalled
  have hnamed : ∀ fault,
      Evaluator.applyForm hosts (evaluator (active + 1)) (n + 1) context cell u =
        .error (.fault fault) u →
      (perform (.evaluate (.cons cell))).Ends s
        (.error (.fault (fault.naming (s.print (.cons cell))))) s := by
    intro fault hfault
    have hevaluated : perform (.evaluate (.cons cell)) = EvalM.counted
        (Evaluator.namingForm (.cons cell)
          (Evaluator.applyForm hosts (evaluator (active + 1)) (n + 1) context cell)) :=
      if_pos (Nat.lt_of_succ_lt hroom)
    rw [hevaluated, ← hprint]
    exact (Evaluator.counted_namingForm ..).trans (congrArg (Evaluator.named _) hfault)
  rcases Evaluator.fit_cases s f arguments with ⟨hsupplies, -⟩ | ⟨-, hdotted | ⟨m, k, hshort⟩⟩
  · exact absurd hsupplies hrefused
  · rw [hdotted] at happly hcalled
    exact ⟨_, _, happly, hnamed _ hcalled, .dotted⟩
  · rw [hshort] at happly hcalled
    exact ⟨_, _, happly, hnamed _ hcalled, .short m k⟩

/-- The ending of a form that calls a function, next to the ending of the call. -/
structure EndsAlike (r : Relocation) (form : Value) (ending : Ending Value) (u : Interp)
    (ending' : Ending Value) (t : Interp) : Prop where
  ending : ending' = ending.asForm r (t.print form)
  state : Relocated r u t
  frames : SameFrames u t

theorem SameFrames.between (h : SameFrames s u) (h' : SameFrames s t) : SameFrames u t :=
  ⟨h'.chain.trans h.chain.symm, h'.depths.trans h.depths.symm, h'.active.trans h.active.symm⟩

/-- A form that is evaluated and not refused has fuel and room. -/
theorem Evaluator.admitted {hosts : HostTable} {limit n active : Nat} {context form : Value}
    {ending : Ending Value}
    (h : (nested hosts (throw .spent) limit n active context (.evaluate form)).Ends s ending
      t) : 0 < n ∧ active < limit := by
  cases n with
  | zero => exact absurd h EvalM.not_ends_aborted
  | succ n =>
    unfold nested at h
    split at h
    next hactive => exact ⟨n.succ_pos, hactive⟩
    next => exact absurd h EvalM.not_ends_aborted

/-- Wherever the evaluation of texts leads, a form calls a function as applying the function to the
arguments does, if nothing else refers to their cells. Both refuse the same argument lists, before
anything has happened. Any other form that ends without being refused for its depth ends with the
value, the signal or the fault of the call and has the same effects, but for the addresses of
argument cells and for the form that the fault names. A call that ends so is followed by the form
under every limit that leaves room for the form itself, for its head and for `QUOTE`. -/
theorem call_paths_agree {limit : Nat}
    (hs : Trace (fun u c => c.Sound u) (.initial limit) s) (hform : s.CallForm cell f arguments)
    (hunshared : (s.callable f).evaluatesArguments = true → s.Unshared arguments)
    (hosts : HostTable) (context : Value) :
    let unrefused (n : Nat) := Evaluator.nested hosts (throw .spent) s.limit n s.active context
    let perform (n : Nat) := Evaluator.perform hosts n context
    (s.Supplies (s.callable f) (s.cdr cell) ↔ s.Supplies (s.callable f) arguments) ∧
    (¬ s.Supplies (s.callable f) arguments → s.active + 1 < s.limit → ∀ n, ∃ fault fault',
      (perform (n + 2) (.apply f arguments)).Ends s (.error (.fault fault)) s ∧
      (perform (n + 2) (.evaluate (.cons cell))).Ends s (.error (.fault fault')) s ∧
      Fault.Refuses (s.print (.cons cell)) (s.print arguments) fault fault') ∧
    (s.Supplies (s.callable f) arguments → ∃ r : Relocation,
      (if (s.callable f).evaluatesArguments then r.Renews s arguments else r = .still) ∧
      (∀ n ending' t, (unrefused n (.evaluate (.cons cell))).Ends s ending' t →
        (perform n (.evaluate (.cons cell))).Ends s ending' t ∧
        ∃ ending u, (perform n (.apply f arguments)).Ends s ending u ∧
          EndsAlike r (.cons cell) ending u ending' t) ∧
      ∀ n ending u, (unrefused (n + 3) (.apply f arguments)).Ends s ending u →
        (perform (n + 3) (.apply f arguments)).Ends s ending u ∧
        ∀ higher, s.limit < higher → s.active + 2 < higher → ∃ ending' t,
          (perform (n + 3) (.evaluate (.cons cell))).Ends (s.withLimit higher) ending' t ∧
            EndsAlike r (.cons cell) ending u ending' t) := by
  intro unrefused perform
  have hquoting : s.Quoting := .of_trace hs
  have hframes : ∀ {n request v t} {ending : Ending Value},
      (perform n request).Ends v ending t → SameFrames v t :=
    fun hends => sameFrames_of_ends (perform_balanced hosts _ context _) hends
  have hcuts : ∀ limit n request ending t,
      (Evaluator.nested hosts (throw .spent) limit n s.active context request).Ends
        (s.withLimit limit) ending t →
      (perform n request).Ends (s.withLimit limit) ending t ∧ ∀ higher, limit ≤ higher →
        (perform n request).Ends (s.withLimit higher) ending (t.withLimit higher) :=
    fun limit n request => (depth_limit_only_cuts
      (.of_live (hquoting.counting s.active limit).live) n context request).1
  refine ⟨hform.supplies_iff, fun hrefused hroom n => ?_, fun hsupplies => ?_⟩
  · obtain ⟨fault, fault', hcall, hformed, hrefuses⟩ :=
      hform.refused hquoting hrefused hosts hroom n context
    exact ⟨fault, fault', (hcuts s.limit _ _ _ _ hcall).1, (hcuts s.limit _ _ _ _ hformed).1,
      hrefuses⟩
  obtain ⟨r, hr, hvalue, hstart⟩ := Interp.CallForm.starts hquoting.live hsupplies.proper hunshared
  refine ⟨r, hr, fun n ending' t hends => ?_, fun n ending u hends => ?_⟩
  · have hformed := (hcuts s.limit _ _ _ _ hends).1
    refine ⟨hformed, ?_⟩
    obtain ⟨hfuel, hactive⟩ := Evaluator.admitted hends
    obtain ⟨n, rfl⟩ := Nat.exists_eq_add_one.mpr hfuel
    obtain ⟨bound, hbound⟩ := Nat.exists_eq_add_one.mpr (Nat.zero_lt_of_lt hactive)
    have hagree := hform.agree hquoting hsupplies hvalue hstart hosts n bound s.active context
    rw [← hbound] at hagree
    obtain ⟨ending, u, hcall, hstate, hending⟩ := hagree.1 ending' t hends
    have hcalled := (hcuts bound _ _ _ _ hcall).2 s.limit (by omega)
    exact ⟨ending, _, hcalled, hending, { hstate with },
      (hframes hcalled).between (hframes hformed)⟩
  · have hcalled := (hcuts s.limit _ _ _ _ hends).1
    refine ⟨hcalled, fun higher hhigher hroom => ?_⟩
    obtain ⟨bound, rfl⟩ := Nat.exists_eq_add_one.mpr (Nat.zero_lt_of_lt hhigher)
    have hraised := (Evaluator.nested_mono (throw .spent) (.of_live hquoting.live)
      (Nat.le_of_lt_succ hhigher) hends).2
    have hagree := hform.agree hquoting hsupplies hvalue hstart hosts (n + 2) bound s.active context
    obtain ⟨t, hformed, hstate⟩ := hagree.2 (by omega) ending _ hraised
    have hfollowed := (hcuts _ _ _ _ _ hformed).1
    have hkept : SameFrames s t := { hframes hfollowed with }
    exact ⟨_, t, hfollowed, rfl, { hstate with }, (hframes hcalled).between hkept⟩

/-- A lambda stores into its rest arguments and returns them. Applied to a list it returns a part of
this list, through a form the same part of the list that it is passed. -/
theorem rest_arguments_returned :
    ∃ s cell f arguments id, Trace (fun u c => c.Sound u) (.initial 64) s ∧
      s.CallForm cell f arguments ∧ s.Unshared arguments ∧ id ∈ s.cellsOf arguments ∧
      ∃ (r : Relocation) (t u : Interp), r.Renews s arguments ∧ Relocated r u t ∧
        (Evaluator.perform Machine.small.hosts 20 .nil (.apply f arguments)).Ends s
          (.ok (.cons id)) u ∧
        (Evaluator.perform Machine.small.hosts 20 .nil (.evaluate (.cons cell))).Ends s
          (.ok (.cons (r.move id))) t := by
  obtain ⟨before, hbefore⟩ : ∃ before, before = (Interp.initial 64).afterTexts
    [(.small, "(var f (lambda (x) (= (elt &rest 0) x) &rest)) (list f ''1 ''2)")] := ⟨_, rfl⟩
  have hsession : Session (fun _ => True) (.initial 64) before :=
    hbefore ▸ Session.start.afterTexts _
  have htrace := hsession.sound (Interp.live_initial 64)
  have hlive := htrace.live (fun _ _ hc => hc) (Interp.live_initial 64)
  have hitems : ∀ item ∈ [Value.ofNat 1, .ofNat 2], item.Live before := by
    simp [Value.ofNat, Value.Live]
  obtain ⟨s, hs⟩ : ∃ s, s = (before.listOf [.ofNat 1, .ofNat 2]).2 := ⟨_, rfl⟩
  have hreached : Trace (fun u c => c.Sound u) (.initial 64) s := by
    rw [hs]
    exact htrace.trans (.consReversed (fun v hv => hitems v (List.mem_reverse.mp hv)) trivial)
  have hunshared : s.Unshared (before.listOf [.ofNat 1, .ofNat 2]).1 := by
    rw [hs]
    exact (before.newList_listOf _).unshared hlive hitems
  obtain ⟨hlist, hhead, hevaluates, hforms, hvalues, hfirst, hsecond, htails⟩ :
      (before.listOf [.ofNat 1, .ofNat 2]).1 = .cons ⟨30⟩ ∧ s.car ⟨28⟩ = .function ⟨50⟩ ∧
        (s.callable ⟨50⟩).evaluatesArguments = true ∧
        s.elementsOf (s.cdr ⟨28⟩) = [.cons ⟨15⟩, .cons ⟨19⟩] ∧
        s.elementsOf (.cons ⟨30⟩) = [.ofNat 1, .ofNat 2] ∧
        Template.operand? s .quote (.cons ⟨15⟩) = some (.ofNat 1) ∧
        Template.operand? s .quote (.cons ⟨19⟩) = some (.ofNat 2) ∧
        s.tailOf (s.cdr ⟨28⟩) = s.tailOf (.cons ⟨30⟩) := by
    rw [hs, hbefore]
    decide +kernel
  obtain ⟨hproper, henough, hmem, hcalled, hformed⟩ :
      s.isProper (.cons ⟨30⟩) = true ∧ (s.callable ⟨50⟩).minArgs ≤ s.lengthOf (.cons ⟨30⟩) ∧
        ⟨29⟩ ∈ s.cellsOf (.cons ⟨30⟩) ∧
        (Evaluator.perform Machine.small.hosts 20 .nil (.apply ⟨50⟩ (.cons ⟨30⟩))).answer? s =
          some (.cons ⟨29⟩) ∧
        ∃ v, (Evaluator.nested Machine.small.hosts (throw .spent) s.limit 20 s.active .nil
          (.evaluate (.cons ⟨28⟩))).answer? s = some v := by
    rw [hs, hbefore]
    refine ⟨by decide +kernel, by decide +kernel, by decide +kernel, by decide +kernel,
      .cons ⟨31⟩, by decide +kernel⟩
  rw [hlist] at hunshared
  have hform : s.CallForm ⟨28⟩ ⟨50⟩ (.cons ⟨30⟩) := by
    refine ⟨hhead, fun _ => ⟨?_, htails⟩, fun hplain => ?_⟩
    · rw [hforms, hvalues]
      exact .cons (Template.operand?_eq_some_iff.mp hfirst)
        (.cons (Template.operand?_eq_some_iff.mp hsecond) .nil)
    · rw [hevaluates] at hplain
      cases hplain
  obtain ⟨-, -, hagree⟩ :=
    call_paths_agree hreached hform (fun _ => hunshared) Machine.small.hosts .nil
  obtain ⟨r, hr, hfollows, -⟩ := hagree ⟨hproper, henough⟩
  rw [if_pos hevaluates] at hr
  obtain ⟨v, hv⟩ := hformed
  obtain ⟨hevaluated, ending, u, happlied, hends⟩ := hfollows 20 _ _ (EvalM.ends_of_answer? hv)
  obtain ⟨rfl, rfl⟩ := happlied.unique (EvalM.ends_of_answer? hcalled)
  rw [hends.ending] at hevaluated
  exact ⟨s, ⟨28⟩, ⟨50⟩, .cons ⟨30⟩, ⟨29⟩, hreached, hform, hunshared, hmem, r, _, _, hr,
    hends.state, happlied, hevaluated⟩

end SmallLisp
