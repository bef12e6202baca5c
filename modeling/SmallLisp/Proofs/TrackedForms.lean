import SmallLisp.Proofs.Tracking

/-!
# Forms and operations on relocated states

Every special form, every operation and every call of a closure does in a relocated state what it
does in the state itself, if the evaluators that they are handed do.
-/

namespace SmallLisp

variable {r : Relocation} {α : Type}

/-- A step of a walk with another value. -/
def mapStep (move : α → α) : ForInStep α → ForInStep α
  | .yield a => .yield (move a)
  | .done a => .done (move a)

def ListBuilder.relocate (r : Relocation) (b : ListBuilder) : ListBuilder :=
  ⟨b.reversed.map (Value.relocate r)⟩

namespace Relocated

variable {s t : Interp} (h : Relocated r s t)

include h

theorem consReversed (items : List Value) (tail : Value) :
    (t.consReversed (items.map (Value.relocate r)) (tail.relocate r)).1 =
        (s.consReversed items tail).1.relocate r ∧
      Relocated r (s.consReversed items tail).2
        (t.consReversed (items.map (Value.relocate r)) (tail.relocate r)).2 := by
  induction items generalizing s t tail with
  | nil => exact ⟨rfl, h⟩
  | cons v rest ih =>
    have hhead : (s.allocCell v tail).1.relocate r =
        (t.allocCell (v.relocate r) (tail.relocate r)).1 := congrArg Value.cons h.move_new
    have hrest := ih (h.allocCell v tail) (s.allocCell v tail).1
    rw [hhead] at hrest
    exact hrest

theorem operand? (tag : SymbolId) (v : Value) :
    Template.operand? t tag (v.relocate r) =
      (Template.operand? s tag v).map (Value.relocate r) := by
  have htag : ∀ w : Value, w.relocate r = .symbol tag ↔ w = .symbol tag :=
    fun w => Value.relocate_inj (w := .symbol tag)
  cases v with
  | cons id =>
    simp only [Value.relocate_cons, Template.operand?, h.car, h.cdr, htag]
    split
    · cases s.cdr id with
      | cons rest =>
        simp only [Value.relocate_cons, h.cdr, h.car, Value.isNil_relocate]
        split <;> rfl
      | _ => rfl
    · rfl
  | _ => rfl

end Relocated

namespace Tracks

/-! ## Lists -/

theorem list (items : List Value) :
    Tracks r (Value.relocate r) (EvalM.list items)
      (EvalM.list (items.map (Value.relocate r))) :=
  step fun h => by
    have hnew := h.consReversed items.reverse .nil
    rw [List.map_reverse] at hnew
    exact hnew

theorem build (b : ListBuilder) (tail : Value) :
    Tracks r (Value.relocate r) (EvalM.build b tail)
      (EvalM.build (b.relocate r) (tail.relocate r)) :=
  step fun h => h.consReversed b.reversed tail

theorem cons (a b : Value) :
    Tracks r (Value.relocate r) (EvalM.cons a b) (EvalM.cons (a.relocate r) (b.relocate r)) :=
  step fun h => h.consReversed [a] b

section Evaluator

variable {ev ev' : Evaluators} {context : Value}
  (hev : (ev context).Tracked r (ev' context))

include hev

theorem form (form : Value) :
    Tracks r (Value.relocate r) ((ev context).form form)
      ((ev' context).form (form.relocate r)) := hev.1 form

omit hev in
theorem walk {move : α → α} {visit visit' : Value → α → EvalM (ForInStep α)}
    (hvisit : ∀ item a, Tracks r (mapStep move) (visit item a)
      (visit' (item.relocate r) (move a))) (n : Nat) (list : Value) (a : α) :
    Tracks r move (EvalM.walk visit n list a) (EvalM.walk visit' n (list.relocate r) (move a)) := by
  induction n generalizing list a with
  | zero =>
    cases list with
    | cons id => exact exhausted
    | _ => exact pure a
  | succ n ih =>
    cases list with
    | cons id =>
      refine (read fun h => h.car id).bind fun item => ?_
      refine (read fun h => h.cdr id).bind fun rest => (hvisit item a).bind fun next => ?_
      cases next with
      | yield a => exact ih rest a
      | done a => exact pure a
    | _ => exact pure a

/-- Forms that are evaluated in a row, with a step after each of them. -/
theorem forEachForm (move : α → α) (next : Value → α → ForInStep α)
    (hnext : ∀ v a, next (v.relocate r) (move a) = mapStep move (next v a)) (forms : Value)
    (a : α) :
    Tracks r move
      (EvalM.forEach forms a fun form a => do
        let v ← (ev context).form form
        Pure.pure (next v a))
      (EvalM.forEach (forms.relocate r) (move a) fun form a => do
        let v ← (ev' context).form form
        Pure.pure (next v a)) := by
  refine (same fun h => h.lengthOf forms).bind fun n => walk (fun item a => ?_) n forms a
  refine (hev.1 item).bind fun v => ?_
  rw [hnext]
  exact pure (next v a)

theorem body (forms : Value) :
    Tracks r (Value.relocate r) (ev.body context forms) (ev'.body context (forms.relocate r)) :=
  forEachForm hev (Value.relocate r) (fun v _ => .yield v) (fun _ _ => rfl) forms .nil

/-- Evaluating a list of forms into a fresh list. -/
theorem evaluated (forms : Value) :
    Tracks r (Value.relocate r) (ev.list context forms)
      (ev'.list context (forms.relocate r)) := by
  have hcollected := forEachForm hev (ListBuilder.relocate r)
    (fun v builder => .yield (ListBuilder.push builder v)) (fun _ _ => rfl) forms ListBuilder.empty
  exact hcollected.bind fun builder => build builder .nil

end Evaluator

/-! ## Templates -/

theorem misplacedSplice (form : Value) :
    Tracks r (Value.relocate r) (Template.misplacedSplice form)
      (Template.misplacedSplice (form.relocate r)) :=
  mentioning (fun text => .evaluation (.spliceOutsideList text) none) form

theorem retag {tag : SymbolId} {operand operand' : EvalM Value}
    (h : Tracks r (Value.relocate r) operand operand') :
    Tracks r (Value.relocate r) (Template.retag tag operand) (Template.retag tag operand') :=
  h.bind fun v => list [.symbol tag, v]

theorem splice (builder : ListBuilder) (v : Value) :
    Tracks r (ListBuilder.relocate r) (Template.splice builder v)
      (Template.splice (builder.relocate r) (v.relocate r)) := by
  refine (same fun h => h.isProper v).bind fun proper => ?_
  cases proper with
  | true =>
    refine read fun h => ?_
    simp [ListBuilder.append, ListBuilder.relocate, h.elementsOf, List.reverseAux_eq]
  | false => exact mentioning (fun text => .evaluation (.spliceOfNonList text) none) v

section Template

variable {ev ev' : Evaluators} {context : Value}
  (hev : (ev context).Tracked r (ev' context))
  {expand expand' : Nat → Value → EvalM Value}
  (hexpand : ∀ level form,
    Tracks r (Value.relocate r) (expand level form) (expand' level (form.relocate r)))

include hev hexpand

theorem templateElement (level : Nat) (builder : ListBuilder) (item : Value) :
    Tracks r (ListBuilder.relocate r) (Template.element ev context expand level builder item)
      (Template.element ev' context expand' level (builder.relocate r) (item.relocate r)) := by
  refine (read fun h => h.operand? .splice item).bind fun operand => ?_
  cases operand with
  | none => exact (hexpand level item).bind fun v => pure (builder.push v)
  | some operand =>
    dsimp only [Option.map_some]
    split
    · exact (form hev operand).bind fun v => splice builder v
    · exact (retag (hexpand _ operand)).bind fun v => pure (builder.push v)

theorem templateElements (level n : Nat) (isTail : Bool) (builder : ListBuilder) (rest : Value) :
    Tracks r (Value.relocate r) (Template.elements ev context expand level n isTail builder rest)
      (Template.elements ev' context expand' level n isTail (builder.relocate r)
        (rest.relocate r)) := by
  induction n generalizing isTail builder rest with
  | zero => exact exhausted
  | succ n ih =>
    refine (read fun h => h.operand? .unquote rest).bind fun unquoted => ?_
    rw [Option.isSome_map]
    split
    · exact (hexpand level rest).bind fun v => build builder v
    · cases rest with
      | cons id =>
        refine (read fun h => h.car id).bind fun item => ?_
        refine (templateElement hev hexpand level builder item).bind fun builder => ?_
        exact (read fun h => h.cdr id).bind fun rest => ih true builder rest
      | _ => exact build builder _

theorem templateStep (n level : Nat) (form : Value) :
    Tracks r (Value.relocate r) (Template.step ev context n expand level form)
      (Template.step ev' context n expand' level (form.relocate r)) := by
  cases form with
  | cons id =>
    refine (read fun h => h.operand? .unquote (.cons id)).bind fun unquoted => ?_
    cases unquoted with
    | some operand =>
      dsimp only [Option.map_some]
      split
      · exact hev.1 operand
      · exact retag (hexpand _ operand)
    | none =>
      refine (read fun h => h.operand? .splice (.cons id)).bind fun spliced => ?_
      cases spliced with
      | some operand =>
        dsimp only [Option.map_some]
        split
        · exact misplacedSplice (.cons id)
        · exact retag (hexpand _ operand)
      | none =>
        refine (read fun h => h.operand? .backquote (.cons id)).bind fun nested => ?_
        cases nested with
        | some operand => exact retag (hexpand _ operand)
        | none => exact templateElements hev hexpand level n false ListBuilder.empty (.cons id)
  | _ => exact pure _

end Template

section Evaluator

variable {ev ev' : Evaluators} {context : Value}
  (hev : (ev context).Tracked r (ev' context))

include hev

theorem expand (n level : Nat) (form : Value) :
    Tracks r (Value.relocate r) (Template.expand ev context n level form)
      (Template.expand ev' context n level (form.relocate r)) := by
  induction n generalizing level form with
  | zero => exact exhausted
  | succ n ih => exact templateStep hev ih n level form

theorem backquote (n : Nat) (arguments : Value) :
    Tracks r (Value.relocate r) (SpecialForm.backquote ev context n arguments)
      (SpecialForm.backquote ev' context n (arguments.relocate r)) := by
  refine (read fun h => h.first arguments).bind fun form => ?_
  refine (read fun h => h.operand? .splice form).bind fun spliced => ?_
  cases spliced with
  | some operand => exact misplacedSplice form
  | none => exact expand hev n 0 form

/-! ## Bindings and assignment -/

omit hev in
theorem bindSymbol (x : SymbolId) (v : Value) :
    Tracks r (fun a => a) (EvalM.update fun s => s.bind x v)
      (EvalM.update fun s => s.bind x (v.relocate r)) :=
  update fun h => h.bind x v

theorem bindVariable (arguments : Value) :
    Tracks r (Value.relocate r) (SpecialForm.bindVariable ev context arguments)
      (SpecialForm.bindVariable ev' context (arguments.relocate r)) := by
  refine (read fun h => h.first arguments).bind fun target => ?_
  cases target with
  | symbol x =>
    refine (same fun h => congrArg Symbol.reserved (h.symbol x)).bind fun reserved => ?_
    split
    · exact (same fun h => h.reservedBinding x).bind fun fault => fail fault
    · have hbind (v : Value) : Tracks r (Value.relocate r)
          (do EvalM.update fun s => s.bind x v; Pure.pure v)
          (do EvalM.update fun s => s.bind x (v.relocate r); Pure.pure (v.relocate r)) :=
        (bindSymbol x v).bind fun _ => pure v
      refine (read fun h => h.elementAt? arguments 1).bind fun form => ?_
      cases form with
      | none => exact (pure Value.nil : Tracks r (Value.relocate r) _ _).bind hbind
      | some form => exact (hev.1 form).bind hbind
  | _ => exact mentioning (fun text => .type (.variableSymbol text) none) _

omit hev in
theorem assignSymbol (x : SymbolId) (v : Value) :
    Tracks r (fun a => a) (SpecialForm.assignSymbol x v)
      (SpecialForm.assignSymbol x (v.relocate r)) := by
  intro s t h
  unfold SpecialForm.assignSymbol
  rw [h.holder?, h.printSymbol]
  cases s.holder? x with
  | none => exact .error h
  | some id => exact .ok (h.bindIn id x v)

omit hev in
theorem notAssignable (got : Value) :
    Tracks r (Value.relocate r) (SpecialForm.notAssignable got)
      (SpecialForm.notAssignable (got.relocate r)) :=
  mentioning (fun text => .evaluation (.notAssignable text) none) got

omit hev in
theorem assignElement (arguments value : Value) :
    Tracks r (Value.relocate r) (SpecialForm.assignElement arguments value)
      (SpecialForm.assignElement (arguments.relocate r) (value.relocate r)) := by
  refine (read fun h => h.first arguments).bind fun target => ?_
  refine (read fun h => h.second arguments).bind fun key => ?_
  have hassign : Tracks r (fun a => a) (EvalM.assign target key value)
      (EvalM.assign (target.relocate r) (key.relocate r) (value.relocate r)) := by
    intro s t h
    unfold EvalM.assign Interp.assign
    rw [h.looksBack, h.place]
    split
    · exact .error h
    · cases s.place target key with
      | error fault => exact .error h
      | ok place => exact .ok (h.store value place)
  exact hassign.bind fun _ => pure value

theorem assignThrough (place form : Value) :
    Tracks r (Value.relocate r) (SpecialForm.assignThrough ev context place form)
      (SpecialForm.assignThrough ev' context (place.relocate r) (form.relocate r)) := by
  refine (read fun h => h.first place).bind fun head => ?_
  refine (hev.1 head).bind fun operator => ?_
  cases operator with
  | function id =>
    refine (read fun h => h.callable id).bind fun f => ?_
    rw [Callable.assignPlace?_relocate, Callable.minArgs_relocate]
    cases hstore : SpecialForm.assignPlace? f with
    | none => exact notAssignable (.function id)
    | some store =>
      refine (read fun h => h.rest place).bind fun operands => ?_
      refine (same fun h => h.isProper operands).bind fun proper => ?_
      split
      · exact mentioning (fun text => .evaluation (.dottedPlace text) none) place
      · refine (same fun h => h.lengthOf operands).bind fun length => ?_
        split
        · exact mentioning (fun text => .evaluation (.shortPlace text) none) head
        · refine (evaluated hev operands).bind fun arguments => ?_
          refine (hev.1 form).bind fun v => ?_
          rw [SpecialForm.eq_assignElement hstore]
          exact assignElement arguments v
  | _ => exact notAssignable _

theorem assign (arguments : Value) :
    Tracks r (Value.relocate r) (SpecialForm.assign ev context arguments)
      (SpecialForm.assign ev' context (arguments.relocate r)) := by
  refine (read fun h => h.first arguments).bind fun place => ?_
  refine (read fun h => h.second arguments).bind fun form => ?_
  cases place with
  | symbol x =>
    refine (same fun h => congrArg Symbol.reserved (h.symbol x)).bind fun reserved => ?_
    split
    · exact (same fun h => h.printSymbol x).bind fun text => fail _
    · exact (hev.1 form).bind fun v => (assignSymbol x v).bind fun _ => pure v
  | cons id => exact assignThrough hev (.cons id) form
  | _ => exact notAssignable _

/-! ## Control -/

omit hev in
theorem newScope :
    Tracks r (fun id => id) (EvalM.step fun s => s.allocScope .empty)
      (EvalM.step fun s => s.allocScope .empty) :=
  step fun {s t} h => by
    refine ⟨?_, h.allocScope .empty⟩
    show (⟨t.scopes.size⟩ : ScopeId) = ⟨s.scopes.size⟩
    rw [h.scopes, Array.size_map]

theorem scope (forms : Value) :
    Tracks r (Value.relocate r) (SpecialForm.scope ev context forms)
      (SpecialForm.scope ev' context (forms.relocate r)) :=
  newScope.bind fun id => inScope id (body hev forms)

theorem choose (arguments : Value) :
    Tracks r (Value.relocate r) (SpecialForm.choose ev context arguments)
      (SpecialForm.choose ev' context (arguments.relocate r)) := by
  refine (read fun h => h.first arguments).bind fun test => ?_
  refine (hev.1 test).bind fun v => ?_
  rw [Value.isTrue_relocate]
  split
  · exact (read fun h => h.second arguments).bind fun form => hev.1 form
  · refine (read fun h => h.third? arguments).bind fun form => ?_
    cases form with
    | none => exact pure Value.nil
    | some form => exact hev.1 form

theorem conjunction (arguments : Value) :
    Tracks r (Value.relocate r) (SpecialForm.conjunction ev context arguments)
      (SpecialForm.conjunction ev' context (arguments.relocate r)) := by
  refine forEachForm hev (Value.relocate r) (fun v _ => if v.isNil then .done v else .yield v)
    (fun v _ => ?_) arguments .truth
  rw [Value.isNil_relocate]
  split <;> rfl

theorem disjunction (arguments : Value) :
    Tracks r (Value.relocate r) (SpecialForm.disjunction ev context arguments)
      (SpecialForm.disjunction ev' context (arguments.relocate r)) := by
  refine forEachForm hev (Value.relocate r)
    (fun v _ => if v.isTrue then .done v else .yield .nil) (fun v _ => ?_) arguments .nil
  rw [Value.isTrue_relocate]
  split <;> rfl

theorem passes (test forms last : Value) (n : Nat) :
    Tracks r (Value.relocate r) (SpecialForm.passes ev context test forms n last)
      (SpecialForm.passes ev' context (test.relocate r) (forms.relocate r) n
        (last.relocate r)) := by
  induction n generalizing last with
  | zero => exact exhausted
  | succ n ih =>
    refine (hev.1 test).bind fun v => ?_
    rw [Value.isTrue_relocate]
    split
    · exact (body hev forms).bind fun result => ih result
    · exact pure last

omit hev in
theorem landBreak {act act' : EvalM Value} (depth : Nat)
    (h : Tracks r (Value.relocate r) act act') :
    Tracks r (Value.relocate r) (SpecialForm.landBreak depth act)
      (SpecialForm.landBreak depth act') := by
  intro s t hst
  have hmoved := h s t hst
  unfold SpecialForm.landBreak
  generalize act s = result at hmoved
  generalize act' t = result' at hmoved
  cases hmoved with
  | ok hu => exact .ok hu
  | @error flow u w hu =>
    cases flow with
    | signal σ =>
      cases σ with
      | breaking target =>
        dsimp only [Flow.relocate, Signal.relocate]
        split
        · exact .ok hu
        · exact .error hu
      | _ => exact .error hu
    | _ => exact .error hu

theorem loop (n : Nat) (arguments : Value) :
    Tracks r (Value.relocate r) (SpecialForm.loop ev context n arguments)
      (SpecialForm.loop ev' context n (arguments.relocate r)) := by
  refine (read fun h => h.first arguments).bind fun test => ?_
  refine (read fun h => h.rest arguments).bind fun forms => inFrame .loop ?_
  exact (same fun h => by rw [h.depths]).bind fun depth =>
    landBreak depth (passes hev test forms .nil n)

/-- How a protected form ended, with its value relocated. -/
def relocateProtected (r : Relocation) : SpecialForm.Protected → SpecialForm.Protected
  | .finished v => .finished (v.relocate r)
  | .caught text => .caught text

omit hev in
theorem landThrow {act act' : EvalM Value} (depth : Nat)
    (h : Tracks r (Value.relocate r) act act') :
    Tracks r (relocateProtected r) (SpecialForm.landThrow depth act)
      (SpecialForm.landThrow depth act') := by
  intro s t hst
  have hmoved := h s t hst
  unfold SpecialForm.landThrow
  generalize act s = result at hmoved
  generalize act' t = result' at hmoved
  cases hmoved with
  | ok hu => exact .ok hu
  | @error flow u w hu =>
    cases flow with
    | signal σ =>
      cases σ with
      | throwing text target =>
        dsimp only [Flow.relocate, Signal.relocate]
        split
        · exact .ok hu
        · exact .error hu
      | _ => exact .error hu
    | _ => exact .error hu

theorem attempt (protectedForm handler : Value) :
    Tracks r (Value.relocate r) (SpecialForm.attempt ev context protectedForm handler)
      (SpecialForm.attempt ev' context (protectedForm.relocate r) (handler.relocate r)) := by
  have hprotected (depth : Nat) := landThrow depth (hev.1 protectedForm)
  refine (inFrame .guarded
    ((same fun h => by rw [h.depths]).bind hprotected)).bind fun outcome => ?_
  cases outcome with
  | finished v => exact pure v
  | caught text =>
    exact (hev.1 handler).bind fun f => (list [f, .string text]).bind fun call => hev.1 call

omit hev in
theorem followedBy {act act' after after' : EvalM Value}
    (h : Tracks r (Value.relocate r) act act') (hafter : Tracks r (Value.relocate r) after after') :
    Tracks r (Value.relocate r) (SpecialForm.followedBy act after)
      (SpecialForm.followedBy act' after') := by
  intro s t hst
  have hmoved := h s t hst
  have hthen : ∀ {keep keep' : Interp → EStateM.Result Flow Interp Value} {u w},
      Relocated r u w → (∀ u w, Relocated r u w → Moved r (Value.relocate r) (keep u) (keep' w)) →
      Moved r (Value.relocate r) (following keep (after u)) (following keep' (after' w)) := by
    intro keep keep' u w hu hkeep
    have hlast := hafter u w hu
    generalize after u = result at hlast
    generalize after' w = result' at hlast
    cases hlast with
    | ok hu' => exact hkeep _ _ hu'
    | error hu' => exact .error hu'
  unfold SpecialForm.followedBy
  generalize act s = result at hmoved
  generalize act' t = result' at hmoved
  cases hmoved with
  | ok hu => exact hthen hu fun _ _ hu' => .ok hu'
  | @error flow u w hu =>
    cases flow with
    | aborted why => exact .error hu
    | fault cause => exact hthen hu fun _ _ hu' => .error hu'
    | signal σ =>
      exact hthen hu fun u w hu' => show Moved r _ (.error (.signal σ) u)
        (.error (Flow.relocate r (.signal σ)) w) from .error hu'

theorem guarded (arguments : Value) :
    Tracks r (Value.relocate r) (SpecialForm.guarded ev context arguments)
      (SpecialForm.guarded ev' context (arguments.relocate r)) := by
  refine (read fun h => h.first arguments).bind fun protectedForm => ?_
  refine (read fun h => h.second arguments).bind fun handler => ?_
  refine (read fun h => h.third? arguments).bind fun always => ?_
  cases always with
  | none => exact attempt hev protectedForm handler
  | some always => exact followedBy (attempt hev protectedForm handler) (hev.1 always)

end Evaluator

end Tracks

end SmallLisp
