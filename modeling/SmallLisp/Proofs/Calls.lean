import SmallLisp.Proofs.Arguments

/-!
# Calls

A function is called from a list form, on arguments that are ready, or through a place that is
assigned to; mapping calls it on arguments that are ready. The paths differ in where the function
and its operands come from and in what is evaluated before the call. `CallPath.Runs` is what they
share: the operands are looked at before anything of them is evaluated, a refusal leaves the state
that the operator left, and whatever is called is supplied with arguments.

Calls happen inside evaluations, in states that no session ends in. `Evaluator.vetted` tests every
request in the state in which it is asked for. If it passes whatever is carried out by the protocol,
nothing of what it would do instead is ever done.
-/

namespace SmallLisp

variable {s u : Interp} {hosts : HostTable} {n : Nat} {context : Value}

/-- A path to a call. The value of `operator` is to be a function. Where it can be called on this
path, its arguments are prepared from the operands, and with them comes the call. -/
structure CallPath where
  operator : EvalM Value
  /-- The operands, once the operator has been evaluated. -/
  operands : Interp → Value
  prepare? : FunctionId → Callable → Option (Value → EvalM (Value × EvalM Value))

/-- The result of a run along a path: nothing is called, or a function is and `receives` its
arguments in the state in which it begins. -/
inductive CallPath.Runs (p : CallPath) (receives : Interp → Callable → Value → Prop)
    (s : Interp) : EStateM.Result Flow Interp Value → Prop
  | stopped {flow : Flow} {u : Interp} (hoperator : p.operator s = .error flow u) :
      Runs p receives s (.error flow u)
  | noFunction {v : Value} {u : Interp} {fault : Fault} (hoperator : p.operator s = .ok v u)
      (hnone : ∀ id, v = .function id → p.prepare? id (u.callable id) = none) :
      Runs p receives s (.error (.fault fault) u)
  | refused {id : FunctionId} {prepare : Value → EvalM (Value × EvalM Value)} {u : Interp}
      {fault : Fault} (hoperator : p.operator s = .ok (.function id) u)
      (hprepare : p.prepare? id (u.callable id) = some prepare)
      (hoperands : ¬ u.Supplies (u.callable id) (p.operands u)) :
      Runs p receives s (.error (.fault fault) u)
  | unprepared {id : FunctionId} {prepare : Value → EvalM (Value × EvalM Value)} {flow : Flow}
      {u t : Interp} (hoperator : p.operator s = .ok (.function id) u)
      (hprepare : p.prepare? id (u.callable id) = some prepare)
      (hoperands : u.Supplies (u.callable id) (p.operands u))
      (harguments : prepare (p.operands u) u = .error flow t) : Runs p receives s (.error flow t)
  | called {id : FunctionId} {prepare : Value → EvalM (Value × EvalM Value)} {arguments : Value}
      {call : EvalM Value} {u t : Interp} (hoperator : p.operator s = .ok (.function id) u)
      (hprepare : p.prepare? id (u.callable id) = some prepare)
      (hoperands : u.Supplies (u.callable id) (p.operands u))
      (harguments : prepare (p.operands u) u = .ok (arguments, call) t)
      (hreceives : receives t (u.callable id) arguments) : Runs p receives s (call t)

/-- The path through a place: the operands are evaluated, then the value to assign. -/
def CallPath.place (ev : Evaluators) (context place form : Value) : CallPath where
  operator := EvalM.read (fun s => s.first place) >>= (ev context).form
  operands s := s.rest place
  prepare? _ f := (SpecialForm.assignPlace? f).map fun store operands => do
    let arguments ← ev.list context operands
    let v ← (ev context).form form
    pure (arguments, store arguments v)

/-- The arguments of a function: the operands, or their values if it wants them evaluated. -/
def Evaluators.argumentsFor (ev : Evaluators) (context : Value) (f : Callable)
    (operands : Value) : EvalM Value :=
  if f.evaluatesArguments then ev.list context operands else pure operands

/-- The path through a list form. -/
def CallPath.form (hosts : HostTable) (ev : Evaluators) (n : Nat) (context : Value)
    (head operands : Value) : CallPath where
  operator := (ev context).form head
  operands _ := operands
  prepare? id f := some fun operands => do
    let arguments ← ev.argumentsFor context f operands
    pure (arguments, f.call hosts ev n context id arguments)

/-- The path of a function that is applied to arguments as they stand. -/
def CallPath.ready (hosts : HostTable) (ev : Evaluators) (n : Nat) (context : Value)
    (id : FunctionId) (arguments : Value) : CallPath where
  operator := pure (.function id)
  operands _ := arguments
  prepare? id f := some fun arguments =>
    pure (arguments, f.call hosts ev n context id arguments)

/-- What a function finds when it begins: enough arguments, a frame that binds its parameters, and,
where it assigns to a place, the same protocol for the place. -/
structure Receives (ev : Evaluators) (context : Value) (s : Interp) (f : Callable)
    (arguments : Value) : Prop where
  supplies : s.Supplies f arguments
  binds : ∀ c, f.closure? = some c → ∃ left t,
    Closure.bindParameters c.parameters.length 0 c.parameters arguments (s.entering c) = .ok left t
  assigns : f = .primitive .assign → ∀ cell, s.first arguments = .cons cell →
    (CallPath.place ev context (.cons cell) (s.second arguments)).Runs Interp.Supplies s
      (SpecialForm.assign ev context arguments s)

/-- The request is carried out by the protocol, with fuel `n` for what is nested in it. A form
counts as active by then. -/
def Request.Protocol (hosts : HostTable) (n : Nat) (context : Value) (request : Request)
    (s : Interp) : Prop :=
  let ev := Evaluator.perform hosts n
  match request with
  | .evaluate (.cons cell) =>
    let counted := s.withActive (s.active + 1)
    (CallPath.form hosts ev n context (s.car cell) (s.cdr cell)).Runs
      (Receives ev context) counted
      (Evaluator.applyForm hosts ev n context cell counted)
  | .evaluate _ => True
  | .apply id arguments =>
    (CallPath.ready hosts ev n context id arguments).Runs (Receives ev context) s
      (Evaluator.applyReady hosts ev n context id arguments s)

/-- The ev that does something else wherever a request fails a test. The test sees the fuel
for what is nested in the request, the context, the request and the state. -/
def Evaluator.vetted (test : Nat → Value → Request → Interp → Bool) (instead : Evaluator)
    (hosts : HostTable) : Nat → Value → Evaluator
  | 0, _, _ => throw .spent
  | n + 1, context, request => fun s =>
    if test n context request s = true then
      step hosts (vetted test instead hosts n) n context request s
    else instead request s

/-! ## Orderly states stay orderly -/

/-- An orderly state paired with itself. -/
def Pairing.orderly : Pairing where
  strict := True
  hosted := False
  oneSided := False
  rel s t := t = s ∧ s.Orderly
  opens _ := True
  apart {s t} h := ⟨s, rfl, h.1⟩
  live h _ := h.2.live
  lookup h _ := by rw [h.1]
  holder h _ := by rw [h.1]
  change h hc := ⟨by rw [h.1], h.2.change (hc.2 trivial)⟩
  depths {s t} h depths := ⟨by rw [h.1], h.2.withFrames s.chain depths s.active⟩
  opens_new _ := trivial
  opens_captured _ _ := trivial
  push {s t id} h _ := ⟨by rw [h.1], h.2.withFrames (id :: s.chain) s.depths s.active⟩
  pop {s t u w id} _ h _ := ⟨by rw [h.1], h.2.withFrames u.chain.tail u.depths u.active⟩

namespace Pairing

theorem counts_orderly : orderly.Counts where
  limit h := by rw [h.1]
  active {s t} h active := ⟨by rw [h.1], h.2.withFrames s.chain s.depths active⟩

/-- A live state has no host functions to show. -/
theorem shows_orderly : orderly.Shows Eq hosts hosts := fun hhosted =>
  (hhosted trivial).elim

theorem keeps_orderly (hosts : HostTable) (n : Nat) (context : Value) :
    orderly.Keeps (Evaluator.perform hosts n context) (Evaluator.perform hosts n context) :=
  keeps_perform (fun _ h => h) shows_orderly counts_orderly n rfl

/-- What an action that answers leaves of an orderly state. -/
theorem Led.ended {α : Type} {good : Interp → α → Prop} {a : α}
    {r r' : EStateM.Result Flow Interp α} (h : orderly.Led good s r r') (hr : r = .ok a u) :
    u.Orderly ∧ Extends s u ∧ good u a := by
  subst hr
  cases h with
  | ok after hgood => exact ⟨after.rel.2, after.extended, hgood trivial⟩

end Pairing

namespace Interp.Orderly

/-- A form that is evaluated in an orderly state. -/
theorem performed (hs : s.Orderly) {form v : Value} (hform : form.Live s)
    (h : (Evaluator.perform hosts n context).form form s = .ok v u) :
    u.Orderly ∧ Extends s u ∧ v.Live u := by
  have hkeeps := Pairing.keeps_orderly hosts n context
  exact (Pairing.Led.form hkeeps ⟨rfl, hs⟩ fun _ => hform).ended h

/-- Evaluating the forms of a list one after the other collects as many values: no second half of a
cell changes meanwhile. -/
theorem collected (hs : s.Orderly) {m : Nat} {forms tail : Value} {ids : List CellId}
    {builder builder' : ListBuilder} (hspine : Spine s forms ids tail) (hforms : forms.Live s)
    (h : EvalM.walk (fun form (builder : ListBuilder) => do
        let v ← (Evaluator.perform hosts n context).form form
        pure (.yield (builder.push v))) m forms builder s = .ok builder' u) :
    builder'.reversed.length = builder.reversed.length + ids.length := by
  induction m generalizing s forms ids builder with
  | zero =>
    cases hspine with
    | atom hatom =>
      rw [EvalM.walk_atom hatom] at h
      cases h
      rfl
    | cell _ => cases h
  | succ m ih =>
    cases hspine with
    | atom hatom =>
      rw [EvalM.walk_atom hatom] at h
      cases h
      rfl
    | @cell id ids tail hrest =>
      unfold EvalM.walk at h
      rw [EvalM.read_bind_apply, EvalM.read_bind_apply] at h
      obtain ⟨next, t, hvisit, hwalk⟩ := EvalM.ok_of_bind h
      obtain ⟨v, t', hform, hpure⟩ := EvalM.ok_of_bind hvisit
      cases hpure
      obtain ⟨ht, hext, -⟩ := hs.performed (hs.live.car id) hform
      have hlive : (s.cdr id).Live s := hs.live.cdr id
      rw [ih ht (hrest.extend hext (hrest.live hs.live hlive)) (hlive.mono hext) hwalk]
      simp only [ListBuilder.push, List.length_cons]
      omega

/-- Evaluating forms gives a proper list of as many values. -/
theorem list_length (hs : s.Orderly) {forms v : Value} (hproper : s.isProper forms = true)
    (hforms : forms.Live s)
    (h : Evaluators.list (Evaluator.perform hosts n) context forms s = .ok v u) :
    u.isProper v = true ∧ u.lengthOf v = s.lengthOf forms := by
  obtain ⟨ids, hspine, -⟩ :=
    ProperList.iff_spine.mp (ProperList.iff_isProper.mpr ⟨hproper, rfl⟩)
  obtain ⟨builder, t, hcollect, hbuild⟩ := EvalM.ok_of_bind h
  cases hbuild
  have hnil : Spine t .nil [] .nil := .atom nofun
  obtain ⟨ids', hspine', hlength⟩ := Interp.consReversed_spine builder.reversed hnil nofun
  obtain ⟨hproper', hids⟩ := hspine'.isProper_lengthOf
  refine ⟨hproper', ?_⟩
  show Interp.lengthOf (t.consReversed builder.reversed .nil).2 _ = _
  rw [hids, hlength, hs.collected hspine hforms hcollect, hspine.isProper_lengthOf.2]
  rw [ListBuilding.start_collecting]
  simp [ListBuilder.empty]

/-- Evaluated operands supply what the operands supply. -/
theorem evaluated (hs : s.Orderly) {operands arguments : Value} {f : Callable}
    (hlive : operands.Live s) (hoperands : s.Supplies f operands)
    (h : Evaluators.list (Evaluator.perform hosts n) context operands s = .ok arguments u) :
    u.Orderly ∧ Extends s u ∧ arguments.Live u ∧ u.Supplies f arguments := by
  have hkeeps := Pairing.keeps_orderly hosts n context
  obtain ⟨hu, hext, hlive'⟩ := (Pairing.Led.evaluated hkeeps ⟨rfl, hs⟩).ended h
  obtain ⟨hproper, hlength⟩ := hs.list_length hoperands.proper hlive h
  exact ⟨hu, hext, hlive', hproper, hlength ▸ hoperands.enough⟩

theorem prepared (hs : s.Orderly) {operands arguments : Value} {f : Callable}
    (hlive : operands.Live s) (hoperands : s.Supplies f operands)
    (h : Evaluators.argumentsFor (Evaluator.perform hosts n) context f operands s =
      .ok arguments u) :
    u.Orderly ∧ Extends s u ∧ u.Supplies f arguments := by
  unfold Evaluators.argumentsFor at h
  split at h
  · obtain ⟨hu, hext, -, hsupplies⟩ := hs.evaluated hlive hoperands h
    exact ⟨hu, hext, hsupplies⟩
  · cases h
    exact ⟨hs, .refl s, hoperands⟩

end Interp.Orderly

/-! ## The protocol of each path -/

/-- Where the operands supply the function, the arguments are prepared and the call follows. -/
theorem CallPath.Runs.of_supplied {p : CallPath} {receives : Interp → Callable → Value → Prop}
    {id : FunctionId} {prepare : Value → EvalM (Value × EvalM Value)}
    {r : EStateM.Result Flow Interp Value} (hoperator : p.operator s = .ok (.function id) u)
    (hprepare : p.prepare? id (u.callable id) = some prepare)
    (hoperands : u.Supplies (u.callable id) (p.operands u))
    (hr : r = (prepare (p.operands u) >>= Prod.snd) u)
    (hreceives : ∀ arguments call t, prepare (p.operands u) u = .ok (arguments, call) t →
      receives t (u.callable id) arguments) : p.Runs receives s r := by
  rw [hr]
  cases h : prepare (p.operands u) u with
  | error flow t =>
    rw [EvalM.bind_error h]
    exact .unprepared hoperator hprepare hoperands h
  | ok r t =>
    rw [(EvalM.ends_ok.mpr h).bind_eq]
    exact .called hoperator hprepare hoperands h (hreceives r.1 r.2 t h)

section Place

variable {ev : Evaluators} {place : Value} (form : Value) {id : FunctionId}

theorem assignThrough_fails {v : Value} (h : (ev context).form (s.first place) s = .ok v u)
    (hnone : ∀ id, v = .function id → SpecialForm.assignPlace? (u.callable id) = none) :
    ∃ fault, SpecialForm.assignThrough ev context place form s = .error (.fault fault) u := by
  unfold SpecialForm.assignThrough
  rw [EvalM.read_bind_apply, (EvalM.ends_ok.mpr h).bind_eq]
  cases v with
  | function id =>
    dsimp only
    rw [EvalM.read_bind_apply, hnone id rfl]
    exact ⟨_, rfl⟩
  | _ => exact ⟨_, rfl⟩

variable (h : (ev context).form (s.first place) s = .ok (.function id) u)
  {store : Value → Value → EvalM Value}
  (hstore : SpecialForm.assignPlace? (u.callable id) = some store)

include h hstore

theorem assignThrough_refuses (hoperands : ¬ u.Supplies (u.callable id) (u.rest place)) :
    ∃ fault, SpecialForm.assignThrough ev context place form s = .error (.fault fault) u := by
  unfold SpecialForm.assignThrough
  rw [EvalM.read_bind_apply, (EvalM.ends_ok.mpr h).bind_eq]
  dsimp only
  rw [EvalM.read_bind_apply, hstore]
  dsimp only
  rw [EvalM.read_bind_apply, EvalM.read_bind_apply]
  cases hproper : u.isProper (u.rest place) with
  | false => exact ⟨_, rfl⟩
  | true =>
    have hshort : u.lengthOf (u.rest place) < (u.callable id).minArgs :=
      Nat.lt_of_not_le fun henough => hoperands ⟨hproper, henough⟩
    rw [if_neg (by decide), EvalM.read_bind_apply, if_pos hshort]
    exact ⟨_, rfl⟩

theorem assignThrough_stores (hoperands : u.Supplies (u.callable id) (u.rest place)) :
    SpecialForm.assignThrough ev context place form s =
      (do
        let arguments ← ev.list context (u.rest place)
        let v ← (ev context).form form
        store arguments v : EvalM Value) u := by
  unfold SpecialForm.assignThrough
  rw [EvalM.read_bind_apply, (EvalM.ends_ok.mpr h).bind_eq]
  dsimp only
  rw [EvalM.read_bind_apply, hstore]
  dsimp only
  rw [EvalM.read_bind_apply, EvalM.read_bind_apply, hoperands.proper, if_neg (by decide),
    EvalM.read_bind_apply, if_neg (Nat.not_lt_of_le hoperands.enough)]

end Place

/-- What is stored through a place is stored with enough arguments, though evaluating the value
came in between. -/
theorem CallPath.place_runs (hs : s.Orderly) (place : Value) {form : Value} (hform : form.Live s) :
    (CallPath.place (Evaluator.perform hosts n) context place form).Runs Interp.Supplies s
      (SpecialForm.assignThrough (Evaluator.perform hosts n) context place form s) := by
  let ev := Evaluator.perform hosts n
  cases hoperator : (ev context).form (s.first place) s with
  | error flow u =>
    unfold SpecialForm.assignThrough
    rw [EvalM.read_bind_apply, EvalM.bind_error hoperator]
    exact .stopped hoperator
  | ok v u =>
    obtain ⟨hu, hext, -⟩ := hs.performed (hs.live.first place) hoperator
    by_cases hfunction : ∃ id store, v = .function id ∧
        SpecialForm.assignPlace? (u.callable id) = some store
    · obtain ⟨id, store, rfl, hstore⟩ := hfunction
      have hprepare : (CallPath.place ev context place form).prepare? id (u.callable id) = _ :=
        congrArg (Option.map _) hstore
      by_cases hoperands : u.Supplies (u.callable id) (u.rest place)
      · refine .of_supplied hoperator hprepare hoperands ?_ fun arguments call t h => ?_
        · rw [assignThrough_stores form hoperator hstore hoperands]
          simp only [bind_assoc, pure_bind]
          rfl
        · obtain ⟨arguments', w, hlist, hrest⟩ := EvalM.ok_of_bind h
          obtain ⟨v, t', hvalue, hpair⟩ := EvalM.ok_of_bind hrest
          cases hpair
          have hoperandsLive : (u.rest place).Live u := hu.live.rest place
          obtain ⟨hw, hextw, hlive, hsupplies⟩ := hu.evaluated hoperandsLive hoperands hlist
          obtain ⟨-, hextt, -⟩ := hw.performed (hform.mono (hext.trans hextw)) hvalue
          exact hsupplies.extend hw.live hlive hextt
      · obtain ⟨fault, hrefused⟩ := assignThrough_refuses form hoperator hstore hoperands
        rw [hrefused]
        exact .refused hoperator hprepare hoperands
    · have hnone : ∀ id, v = .function id → SpecialForm.assignPlace? (u.callable id) = none := by
        rintro id rfl
        cases hstore : SpecialForm.assignPlace? (u.callable id) with
        | none => rfl
        | some store => exact absurd ⟨id, store, rfl, hstore⟩ hfunction
      obtain ⟨fault, hfailed⟩ := assignThrough_fails form hoperator hnone
      rw [hfailed]
      exact .noFunction hoperator fun id hid => congrArg (Option.map _) (hnone id hid)

namespace Interp.Orderly

/-- What a function of an orderly state finds later, on arguments that supply it. -/
theorem receives (hu : u.Orderly) (hext : Extends u s) (hs : s.Orderly) {id : FunctionId}
    {arguments : Value} (hsupplies : s.Supplies (u.callable id) arguments) :
    Receives (Evaluator.perform hosts n) context s (u.callable id) arguments where
  supplies := hsupplies
  binds _ hc := hu.binds hext hc hsupplies
  assigns _ cell hcell := by
    unfold SpecialForm.assign
    rw [EvalM.read_bind_apply, EvalM.read_bind_apply, hcell]
    exact CallPath.place_runs hs (.cons cell) (hs.live.second arguments)

end Interp.Orderly

section Form

variable {ev : Evaluators} {cell : CellId} {id : FunctionId}

theorem applyForm_fails {v : Value} (h : (ev context).form (s.car cell) s = .ok v u)
    (hv : ∀ id, v ≠ .function id) :
    ∃ fault, Evaluator.applyForm hosts ev n context cell s = .error (.fault fault) u := by
  unfold Evaluator.applyForm
  rw [EvalM.read_bind_apply, EvalM.read_bind_apply, (EvalM.ends_ok.mpr h).bind_eq]
  cases v with
  | function id => exact absurd rfl (hv id)
  | _ => exact ⟨_, rfl⟩

variable (h : (ev context).form (s.car cell) s = .ok (.function id) u)

include h

/-- The operands are looked at before any of them is evaluated. -/
theorem Evaluator.applyForm_eq :
    applyForm hosts ev n context cell s =
      match fit u id (s.cdr cell) with
      | .dotted => EvalM.failEvaluation (.dottedForm (u.print (.cons cell))) u
      | .short expected got => EvalM.fail (.arity expected got (some (u.print (.cons cell)))) u
      | .fits f =>
        (ev.argumentsFor context f (s.cdr cell) >>= fun arguments =>
          f.call hosts ev n context id arguments) u := by
  unfold applyForm Evaluators.argumentsFor
  rw [EvalM.read_bind_apply, EvalM.read_bind_apply, (EvalM.ends_ok.mpr h).bind_eq]
  dsimp only
  rw [EvalM.read_bind_apply]
  cases fit u id (s.cdr cell) with
  | dotted => rfl
  | short expected got => rfl
  | fits f =>
    dsimp only
    split <;> rfl

theorem applyForm_refuses (hoperands : ¬ u.Supplies (u.callable id) (s.cdr cell)) :
    ∃ fault, Evaluator.applyForm hosts ev n context cell s = .error (.fault fault) u := by
  rw [Evaluator.applyForm_eq h]
  rcases Evaluator.fit_cases u id (s.cdr cell) with ⟨hsupplies, -⟩ | ⟨-, hdotted | ⟨_, _, hshort⟩⟩
  · exact absurd hsupplies hoperands
  · rw [hdotted]
    exact ⟨_, rfl⟩
  · rw [hshort]
    exact ⟨_, rfl⟩

theorem applyForm_calls (hoperands : u.Supplies (u.callable id) (s.cdr cell)) :
    Evaluator.applyForm hosts ev n context cell s =
      (ev.argumentsFor context (u.callable id) (s.cdr cell) >>= fun arguments =>
        (u.callable id).call hosts ev n context id arguments) u := by
  rw [Evaluator.applyForm_eq h, Evaluator.fit_of_supplies hoperands]

end Form

/-- The function of a list form is called on its operands or on as many values. -/
theorem CallPath.form_runs (hs : s.Orderly) (cell : CellId) :
    (CallPath.form hosts (Evaluator.perform hosts n) n context (s.car cell) (s.cdr cell)).Runs
      (Receives (Evaluator.perform hosts n) context) s
      (Evaluator.applyForm hosts (Evaluator.perform hosts n) n context cell s) := by
  cases hoperator : (Evaluator.perform hosts n context).form (s.car cell) s with
  | error flow u =>
    unfold Evaluator.applyForm
    rw [EvalM.read_bind_apply, EvalM.read_bind_apply, EvalM.bind_error hoperator]
    exact .stopped hoperator
  | ok v u =>
    obtain ⟨hu, hextu, -⟩ := hs.performed (hs.live.car cell) hoperator
    by_cases hfunction : ∃ id, v = .function id
    · obtain ⟨id, rfl⟩ := hfunction
      by_cases hoperands : u.Supplies (u.callable id) (s.cdr cell)
      · refine .of_supplied hoperator rfl hoperands ?_ fun arguments call t h => ?_
        · rw [applyForm_calls hoperator hoperands]
          simp only [bind_assoc, pure_bind]
          rfl
        · obtain ⟨arguments', t', hprepared, hpair⟩ := EvalM.ok_of_bind h
          cases hpair
          obtain ⟨ht, hext, hsupplies⟩ :=
          hu.prepared ((hs.live.cdr cell).mono hextu) hoperands hprepared
          exact hu.receives hext ht hsupplies
      · obtain ⟨fault, hrefused⟩ := applyForm_refuses (n := n) hoperator hoperands
        rw [hrefused]
        exact .refused hoperator rfl hoperands
    · have hv : ∀ id, v ≠ .function id := fun id hid => hfunction ⟨id, hid⟩
      obtain ⟨fault, hfailed⟩ := applyForm_fails (n := n) hoperator hv
      rw [hfailed]
      exact .noFunction hoperator fun id hid => absurd hid (hv id)

/-- A function is called on ready arguments as they stand. -/
theorem CallPath.ready_runs (hs : s.Orderly) (id : FunctionId) (arguments : Value) :
    (CallPath.ready hosts (Evaluator.perform hosts n) n context id arguments).Runs
      (Receives (Evaluator.perform hosts n) context) s
      (Evaluator.applyReady hosts (Evaluator.perform hosts n) n context id arguments s) := by
  unfold Evaluator.applyReady
  rw [EvalM.read_bind_apply]
  rcases Evaluator.fit_cases s id arguments with ⟨hsupplies, hfits⟩ | ⟨hnot, hfit⟩
  · rw [hfits]
    refine .of_supplied (u := s) rfl rfl hsupplies rfl fun arguments' call t h => ?_
    cases h
    exact hs.receives (.refl s) hs hsupplies
  · rcases hfit with hdotted | ⟨_, _, hshort⟩
    · rw [hdotted]
      exact .refused (u := s) rfl rfl hnot
    · rw [hshort]
      exact .refused (u := s) rfl rfl hnot

/-! ## Whole runs -/

/-- A list form with dotted or too few operands fails in the state that its operator left. -/
theorem Evaluator.refuses_operands {cell : CellId} {id : FunctionId}
    (hactive : s.active < s.limit)
    (hoperator : (perform hosts n context).form (s.car cell) (s.withActive (s.active + 1)) =
      .ok (.function id) u)
    (hoperands : ¬ u.Supplies (u.callable id) (s.cdr cell)) :
    ∃ fault, perform hosts (n + 1) context (.evaluate (.cons cell)) s =
      .error (.fault fault) (u.withActive (u.active - 1)) := by
  let act := applyForm hosts (perform hosts n) n context cell
  obtain ⟨fault, hrefused⟩ : ∃ fault, act (s.withActive (s.active + 1)) = .error (.fault fault) u :=
    applyForm_refuses hoperator hoperands
  -- a fault that leaves a form is the same one or names the form
  obtain ⟨named, hnamed⟩ : ∃ named, namingForm (.cons cell) act (s.withActive (s.active + 1)) =
      .error (.fault named) u := by
    unfold namingForm
    rw [hrefused]
    dsimp only
    split
    · exact ⟨_, rfl⟩
    · exact ⟨_, rfl⟩
  refine ⟨named, ?_⟩
  show EvalM.withinLimit (namingForm (.cons cell) act) s = _
  rw [EvalM.withinLimit_apply, if_neg (Nat.not_le_of_lt hactive)]
  unfold EvalM.counted
  rw [hnamed]
  rfl

theorem Request.protocol (hs : s.Orderly) (hosts : HostTable) (n : Nat) (context : Value)
    (request : Request) : request.Protocol hosts n context s := by
  cases request with
  | evaluate form =>
    cases form with
    | cons cell =>
      have hcounted : (s.withActive (s.active + 1)).Orderly :=
        hs.withFrames s.chain s.depths (s.active + 1)
      exact CallPath.form_runs hcounted cell
    | _ => trivial
  | apply id arguments => exact CallPath.ready_runs hs id arguments

variable {test : Nat → Value → Request → Interp → Bool}

/-- A test that the protocol passes is never failed. -/
theorem Pairing.keeps_vetted
    (htest : ∀ n context request s, Request.Protocol hosts n context request s →
      test n context request s = true) (instead : Evaluator) (n : Nat) (context context' : Value)
    (heq : context = context') :
    orderly.Keeps (Evaluator.perform hosts n context)
      (Evaluator.vetted test instead hosts n context') := by
  subst heq
  induction n generalizing context with
  | zero => exact fun request s t hst _ => Led.aborted .spent hst
  | succ n ih =>
    have hkeeps : ∀ context context', context = context' → orderly.Keeps
        (Evaluator.perform hosts n context) (Evaluator.vetted test instead hosts n context') := by
      rintro context _ rfl
      exact ih context
    intro request s t hst hrequest
    have hpassed : test n context request t = true :=
      htest n context request t (Request.protocol (hst.1 ▸ hst.2) hosts n context request)
    unfold Evaluator.vetted
    rw [if_pos hpassed]
    cases request with
    | evaluate form =>
      refine counts_orderly.withinLimit hst fun s' t' hst' hext => ?_
      exact Led.evaluateActive_of_hostless (fun _ h => h) hkeeps rfl shows_orderly hst' fun h =>
        Value.Live.mono (hrequest h) hext
    | apply id arguments =>
      exact Led.applyReady_of_hostless (fun _ h => h) hkeeps rfl shows_orderly hst
        (fun h => (hrequest h).1) fun h => (hrequest h).2

/-- What a text consists of is evaluated in states of a session, and it exists there. -/
theorem Session.interned {limit : Nat} {d : Datum} {form : Value}
    (h : Session (fun _ => True) (.initial limit) s) (hform : d.intern s = .ok form u) :
    Session (fun _ => True) (.initial limit) u ∧ form.Live u := by
  have hlive : s.Live := (h.orderly (Interp.orderly_initial limit)).live
  -- without fuel nothing happens after interning
  have hlast : (Machine.evaluateDatum ⟨HostProgram.demonstration, 0⟩ d).final s = u := by
    unfold Machine.evaluateDatum
    rw [EvalM.final_bind hform]
    rfl
  have hinterned := Interned.datum d (.refl rfl fun _ : True => hlive)
  rw [hform] at hinterned
  cases hinterned with
  | ok _ hgood => exact ⟨hlast ▸ h.form trivial _ d, hgood trivial⟩

/-- In every state of a session that begins with the initial state, requests are carried out by the
protocol, and so are those that an evaluation makes on its way: whatever would be done instead where
one is not, it makes no difference. The forms of a text are such requests. Whatever the state is, a
list form whose operands are dotted or too few fails in the state that evaluating the operator
left. -/
theorem calls_follow_protocol {limit : Nat} (h : Session (fun _ => True) (.initial limit) s) :
    (∀ (d : Datum) form u, d.intern s = .ok form u →
      Session (fun _ => True) (.initial limit) u ∧ (Request.evaluate form).Live u) ∧
    (∀ hosts n context request, Request.Protocol hosts n context request s) ∧
    (∀ request, request.Live s → ∀ hosts n context test instead,
      (∀ n context request u, Request.Protocol hosts n context request u →
        test n context request u = true) →
      Evaluator.vetted test instead hosts n context request s =
        Evaluator.perform hosts n context request s) ∧
    ∀ (t u : Interp) hosts n context cell id, t.active < t.limit →
      (Evaluator.perform hosts n context).form (t.car cell) (t.withActive (t.active + 1)) =
        .ok (.function id) u →
      ¬ u.Supplies (u.callable id) (t.cdr cell) →
      ∃ fault, Evaluator.perform hosts (n + 1) context (.evaluate (.cons cell)) t =
        .error (.fault fault) (u.withActive (u.active - 1)) := by
  have hs := h.orderly (Interp.orderly_initial limit)
  refine ⟨fun d form u hform => h.interned hform, Request.protocol hs, ?_, ?_⟩
  · intro request hrequest hosts n context test instead htest
    have hled := Pairing.keeps_vetted htest instead n context context rfl request s s
      ⟨rfl, hs⟩ fun _ => hrequest
    exact (hled.alike False.elim).eq fun _ _ hu => hu.1
  · intro t u hosts n context cell id hactive hoperator hoperands
    exact Evaluator.refuses_operands hactive hoperator hoperands

/-- A lambda of two parameters is called by the protocol. On a single operand it is not called, and
the assignment in the operand is not made. -/
theorem lambda_called :
    ∃ s x call short, Session (fun _ => True) (.initial 64) s ∧ s.lookup? x = some (.ofNat 1) ∧
      (∃ test, (∀ n context request u, test n context request u = true ↔
          Request.Protocol Machine.small.hosts n context request u) ∧
        (Evaluator.vetted test (fun _ => throw .spent) Machine.small.hosts Machine.small.fuel
          .nil (.evaluate call)).answer? s = some (.ofNat 3)) ∧
      ∃ fault, Machine.small.evaluator .nil (.evaluate short) s = .error (.fault fault) s := by
  obtain ⟨s, hs⟩ : ∃ s, s = (Interp.initial 64).afterTexts
    [(.small, "(var n 1) (var f (lambda (x y) (+ x y)))"),
      (.small, "(var call (quote (f n 2))) (var short (quote (f (= n 2))))")] := ⟨_, rfl⟩
  have hsession : Session (fun _ => True) (.initial 64) s := hs ▸ Session.start.afterTexts _
  obtain ⟨-, -, hvetted, hrefused⟩ := calls_follow_protocol hsession
  obtain ⟨hn, hfunction, hhead, hcall, hactive, hshort⟩ :
      s.lookup? ⟨54⟩ = some (.ofNat 1) ∧ s.lookup? ⟨55⟩ = some (.function ⟨50⟩) ∧
        s.car ⟨26⟩ = .symbol ⟨55⟩ ∧ 16 < s.cells.size ∧ s.active + 1 < s.limit ∧
        ¬ (s.callable ⟨50⟩).minArgs ≤
          (s.withActive (s.active + 1)).lengthOf (s.cdr ⟨26⟩) := by
    rw [hs]
    decide +kernel
  refine ⟨s, ⟨54⟩, .cons ⟨16⟩, .cons ⟨26⟩, hsession, hn, ?_, ?_⟩
  · let test (n : Nat) (context : Value) (request : Request) (u : Interp) : Bool :=
      @decide (Request.Protocol Machine.small.hosts n context request u)
        (Classical.propDecidable _)
    have htest : ∀ n context request u, test n context request u = true ↔
        Request.Protocol Machine.small.hosts n context request u :=
      fun _ _ _ _ => @decide_eq_true_iff _ (Classical.propDecidable _)
    have hsame := hvetted (.evaluate (.cons ⟨16⟩)) hcall Machine.small.hosts Machine.small.fuel .nil
      test (fun _ => throw .spent) fun n context request u h =>
        (htest n context request u).mpr h
    refine ⟨test, htest, ?_⟩
    unfold EvalM.answer?
    rw [hsame, hs]
    decide +kernel
  · let t : Interp := s.withActive (s.active + 1)
    have hoperator : (Evaluator.perform Machine.small.hosts 19 .nil).form (s.car ⟨26⟩) t =
        .ok (.function ⟨50⟩) t := by
      rw [hhead]
      exact Evaluator.perform_symbol hfunction hactive
    exact hrefused s t Machine.small.hosts 19 .nil ⟨26⟩ ⟨50⟩ (Nat.lt_of_succ_lt hactive) hoperator
      fun h => hshort h.enough

end SmallLisp
