import SmallLisp.Proofs.Growth
import SmallLisp.Proofs.Settled

/-!
# The evaluator is balanced

One lemma for each operation that evaluates something, and one for each kind of change of the state,
lead to `perform_balanced`: whatever the evaluator is asked for settles. The frames are restored for
every host; signals are aimed if the programs of the host pass on no signal but those that their own
requests ended with.
-/

namespace SmallLisp

variable {α : Type} {P : Depths → Signal → Prop} {honest : Prop}

/-! ## Changes of the store leave the frames alone -/

theorem Grown.sameFrames {s t : Interp} (h : Grown s t) : SameFrames s t := by
  rw [h.others]
  exact ⟨rfl, rfl, rfl⟩

theorem SameFrames.internKeyword {s t : Interp} {name : String} {id : SymbolId}
    (h : s.internKeyword name = .ok (id, t)) : SameFrames s t := by
  unfold Interp.internKeyword Interp.internIn at h
  split at h
  · cases h
    exact .refl s
  · cases hn : (s.namespaceAt .keywords).intern s.symbols name with
    | error cause =>
      rw [hn] at h
      cases h
    | ok r =>
      rw [hn] at h
      cases h
      exact ⟨rfl, rfl, rfl⟩

theorem SameFrames.generate (s : Interp) : SameFrames s s.generate.2 := ⟨rfl, rfl, rfl⟩

theorem SameFrames.store (s : Interp) (v : Value) (place : Place) :
    SameFrames s (s.store v place) := by
  cases place <;> exact ⟨rfl, rfl, rfl⟩

theorem SameFrames.changeNamespace {s t : Interp} {name : String} {id : NamespaceId}
    (h : s.changeNamespace name = .ok (id, t)) : SameFrames s t := by
  unfold Interp.changeNamespace at h
  split at h
  · cases h
  · split at h
    · cases h
      exact ⟨rfl, rfl, rfl⟩
    · cases h

theorem SameFrames.useNamed {s t : Interp} {name : String} {id : NamespaceId}
    (h : s.useNamed name = .ok (id, t)) : SameFrames s t := by
  unfold Interp.useNamed at h
  split at h
  · cases h
  · cases h
    split <;> exact ⟨rfl, rfl, rfl⟩

theorem SameFrames.addNamespace {s t : Interp} {ns : Namespace} {id : NamespaceId}
    (h : s.addNamespace ns = .ok (id, t)) : SameFrames s t := by
  unfold Interp.addNamespace at h
  split at h
  · cases h
  · cases h
    exact ⟨rfl, rfl, rfl⟩

theorem SameFrames.create {s t : Interp} {arguments : Value} {id : NamespaceId}
    (h : NamespaceForm.create s arguments = .ok (id, t)) : SameFrames s t := by
  unfold NamespaceForm.create at h
  split at h
  · cases h
  · dsimp only at h
    split at h
    · cases h
    next d _ =>
      split at h
      · cases h
      next result hadd =>
        cases h
        have hsymbols : SameFrames s { s with symbols := d.symbols } := ⟨rfl, rfl, rfl⟩
        exact hsymbols.trans (.addNamespace hadd)

theorem SameFrames.onNamed {s t : Interp} {arguments : Value} {id : NamespaceId}
    {operation : Interp → String → Except NamespaceFault (NamespaceId × Interp)}
    (hop : ∀ name id t, operation s name = .ok (id, t) → SameFrames s t)
    (h : NamespaceForm.onNamed operation s arguments = .ok (id, t)) : SameFrames s t := by
  unfold NamespaceForm.onNamed at h
  split at h
  · cases h
  · split at h
    · cases h
    next result hresult =>
      cases h
      exact hop _ _ _ hresult

theorem SameFrames.bindIn (s : Interp) (id : ScopeId) (x : SymbolId) (v : Value) :
    SameFrames s (s.bindIn id x v) :=
  ⟨rfl, rfl, rfl⟩

theorem SameFrames.allocArray (s : Interp) (items : Array Value) :
    SameFrames s (s.allocArray items).2 :=
  ⟨rfl, rfl, rfl⟩

theorem SameFrames.allocScope (s : Interp) (bindings : Scope) :
    SameFrames s (s.allocScope bindings).2 :=
  ⟨rfl, rfl, rfl⟩

namespace Balanced

theorem cons (car cdr : Value) : Balanced P (EvalM.cons car cdr) :=
  step fun s => (grown_allocCell s car cdr).sameFrames

theorem list (items : List Value) : Balanced P (EvalM.list items) :=
  step fun s => (grown_consReversed _ s _).sameFrames

theorem build (b : ListBuilder) (tail : Value) : Balanced P (EvalM.build b tail) :=
  step fun s => (grown_consReversed _ s _).sameFrames

theorem query (f : Interp → Except Fault Value) : Balanced P (Operation.query f) := by
  intro s
  unfold Operation.query
  split
  · exact .ok (.refl s)
  · exact .fault (.refl s)

/-! ## Lists of forms -/

theorem walk {visit : Value → α → EvalM (ForInStep α)}
    (hvisit : ∀ item a, Balanced P (visit item a)) (n : Nat) (list : Value) (a : α) :
    Balanced P (EvalM.walk visit n list a) := by
  induction n generalizing list a with
  | zero => cases list <;> first | exact aborted .spent | exact pure a
  | succ n ih =>
    cases list with
    | cons id =>
      refine (read _).bind fun item => (read _).bind fun rest => (hvisit item a).bind fun next => ?_
      cases next with
      | yield a => exact ih rest a
      | done a => exact pure a
    | _ => exact pure a

theorem forEach {visit : Value → α → EvalM (ForInStep α)}
    (hvisit : ∀ item a, Balanced P (visit item a)) (list : Value) (a : α) :
    Balanced P (EvalM.forEach list a visit) :=
  (read _).bind fun n => walk hvisit n list a

variable {ev : Evaluators} {context : Value} (hev : ∀ request, Balanced P (ev context request))

include hev

theorem forEachForm (next : Value → α → ForInStep α) (forms : Value) (a : α) :
    Balanced P (EvalM.forEach forms a fun form a => do
      let v ← (ev context).form form
      Pure.pure (next v a)) :=
  forEach (fun _ _ => (hev _).bind fun _ => pure _) forms a

theorem body (forms : Value) : Balanced P (ev.body context forms) :=
  forEachForm hev (fun v _ => .yield v) forms .nil

theorem evaluated (forms : Value) : Balanced P (ev.list context forms) :=
  (forEachForm hev _ forms _).bind fun builder => build builder .nil

/-! ## Templates -/

omit hev in
theorem misplacedSplice (form : Value) : Balanced P (Template.misplacedSplice form) :=
  (read _).bind fun _ => failEvaluation _

omit hev in
theorem retag (tag : SymbolId) {operand : EvalM Value} (h : Balanced P operand) :
    Balanced P (Template.retag tag operand) :=
  h.bind fun _ => list _

section Template

variable {expand : Nat → Value → EvalM Value}
  (hexpand : ∀ level form, Balanced P (expand level form))

include hexpand

omit hev hexpand in
theorem splice (builder : ListBuilder) (v : Value) : Balanced P (Template.splice builder v) := by
  refine (read _).bind fun proper => ?_
  split
  · exact read _
  · exact (read _).bind fun text => failEvaluation _

theorem templateElement (level : Nat) (builder : ListBuilder) (item : Value) :
    Balanced P (Template.element ev context expand level builder item) := by
  refine (read _).bind fun operand => ?_
  cases operand with
  | none => exact (hexpand level item).bind fun v => pure _
  | some operand =>
    dsimp only
    split
    · exact (hev _).bind fun v => splice builder v
    · exact (retag .splice (hexpand _ operand)).bind fun v => pure _

theorem templateElements (level n : Nat) (isTail : Bool) (builder : ListBuilder) (rest : Value) :
    Balanced P (Template.elements ev context expand level n isTail builder rest) := by
  induction n generalizing isTail builder rest with
  | zero => exact aborted .spent
  | succ n ih =>
    refine (read _).bind fun unquoted => ?_
    split
    · exact (hexpand level rest).bind fun v => build builder v
    · split
      · refine (read _).bind fun item => ?_
        refine (templateElement hev hexpand level builder item).bind fun builder => ?_
        exact (read _).bind fun rest => ih true builder rest
      · exact build builder rest

theorem templateStep (n level : Nat) (form : Value) :
    Balanced P (Template.step ev context n expand level form) := by
  unfold Template.step
  split
  · refine (read _).bind fun unquoted => ?_
    split
    · split
      · exact hev _
      · exact retag .unquote (hexpand _ _)
    · refine (read _).bind fun spliced => ?_
      split
      · split
        · exact misplacedSplice _
        · exact retag .splice (hexpand _ _)
      · refine (read _).bind fun raised => ?_
        split
        · exact retag .backquote (hexpand _ _)
        · exact templateElements hev hexpand level n false .empty _
  · exact pure _

end Template

theorem expand (n level : Nat) (form : Value) :
    Balanced P (Template.expand ev context n level form) := by
  induction n generalizing level form with
  | zero => exact aborted .spent
  | succ n ih => exact templateStep hev ih n level form

theorem fill (n : Nat) (form : Value) : Balanced P (Template.fill ev context n form) := by
  refine (read _).bind fun spliced => ?_
  split
  · exact misplacedSplice form
  · exact expand hev n 0 form

/-! ## Special forms that evaluate -/

theorem bindVariable (arguments : Value) :
    Balanced P (SpecialForm.bindVariable ev context arguments) := by
  refine (read _).bind fun target => ?_
  split
  · refine (read _).bind fun reserved => ?_
    split
    · exact (read _).bind fun _ => fail _
    · refine (read _).bind fun form => ?_
      have hbind : ∀ x v, Balanced P (do
          EvalM.update fun s => s.bind x v
          Pure.pure v) := fun x v => (update fun s => .bindIn s _ x v).bind fun _ => pure v
      cases form with
      | none => exact (pure _).bind fun v => hbind _ v
      | some form => exact (hev _).bind fun v => hbind _ v
  · exact (read _).bind fun _ => failType _

theorem scope (forms : Value) : Balanced P (SpecialForm.scope ev context forms) :=
  (step fun s => .allocScope s _).bind fun fresh => inScope fresh (body hev forms)

theorem choose (arguments : Value) : Balanced P (SpecialForm.choose ev context arguments) := by
  refine (read _).bind fun test => (hev _).bind fun v => ?_
  split
  · exact (read _).bind fun form => hev _
  · refine (read _).bind fun form => ?_
    cases form with
    | none => exact pure _
    | some form => exact hev _

theorem conjunction (arguments : Value) :
    Balanced P (SpecialForm.conjunction ev context arguments) :=
  forEachForm hev _ arguments _

theorem disjunction (arguments : Value) :
    Balanced P (SpecialForm.disjunction ev context arguments) :=
  forEachForm hev _ arguments _

theorem passes (test forms : Value) (n : Nat) (last : Value) :
    Balanced P (SpecialForm.passes ev context test forms n last) := by
  induction n generalizing last with
  | zero => exact aborted .spent
  | succ n ih =>
    refine (hev _).bind fun v => ?_
    split
    · exact (body hev forms).bind fun result => ih result
    · exact pure last

omit hev in
/-- What follows an ending leaves it as it is, or puts a failure in its place. -/
theorem settled_after {s t : Interp} {after : EvalM Value}
    {ending : Interp → EStateM.Result Flow Interp Value} (frames : SameFrames s t)
    (hafter : Balanced P after) (hending : ∀ u, SameFrames s u → Settled P s (ending u)) :
    Settled P s (match after t with
      | .ok _ u => ending u
      | .error flow u => .error flow u) := by
  have hthen := (hafter t).trans frames
  generalize after t = r at hthen
  cases hthen with
  | ok frames => exact hending _ frames
  | fault frames => exact .fault frames
  | signal frames aim => exact .signal frames aim
  | aborted frames => exact .aborted frames

omit hev in
theorem followedBy {act after : EvalM Value} (hact : Balanced P act) (hafter : Balanced P after) :
    Balanced P (SpecialForm.followedBy act after) := by
  intro s
  have hin := hact s
  unfold SpecialForm.followedBy
  generalize act s = r at hin
  cases hin with
  | ok frames => exact settled_after frames hafter fun u hu => .ok hu
  | fault frames => exact settled_after frames hafter fun u hu => .fault hu
  | signal frames aim => exact settled_after frames hafter fun u hu => .signal hu aim
  | aborted frames => exact .aborted frames

/-! ## Assignment and mapping -/

omit hev in
theorem assignElement (arguments value : Value) :
    Balanced P (SpecialForm.assignElement arguments value) := by
  have hassign : ∀ target key, Balanced P (EvalM.assign target key value) := by
    intro target key s
    unfold EvalM.assign Interp.assign
    split
    · exact .aborted (.refl s)
    · cases s.place target key with
      | ok place => exact .ok (.store s value place)
      | error fault => exact .fault (.refl s)
  exact (read _).bind fun target => (read _).bind fun key =>
    (hassign target key).bind fun _ => pure value

omit hev in
theorem notAssignable (got : Value) : Balanced P (SpecialForm.notAssignable got) :=
  (read _).bind fun _ => failEvaluation _

theorem assignThrough (place form : Value) :
    Balanced P (SpecialForm.assignThrough ev context place form) := by
  refine (read _).bind fun head => (hev _).bind fun operator => ?_
  split
  · refine (read _).bind fun f => ?_
    split
    · exact notAssignable _
    next store hstore =>
      refine (read _).bind fun operands => (read _).bind fun proper => ?_
      split
      · exact (read _).bind fun _ => failEvaluation _
      · refine (read _).bind fun count => ?_
        split
        · exact (read _).bind fun _ => failEvaluation _
        · refine (evaluated hev operands).bind fun arguments => (hev _).bind fun v => ?_
          rw [SpecialForm.eq_assignElement hstore]
          exact assignElement arguments v
  · exact notAssignable _

omit hev in
theorem assignSymbol (x : SymbolId) (v : Value) : Balanced P (SpecialForm.assignSymbol x v) := by
  intro s
  unfold SpecialForm.assignSymbol
  split
  · exact .ok (.bindIn s _ x v)
  · exact .fault (.refl s)

theorem assign (arguments : Value) : Balanced P (SpecialForm.assign ev context arguments) := by
  refine (read _).bind fun place => (read _).bind fun form => ?_
  split
  · refine (read _).bind fun reserved => ?_
    split
    · exact (read _).bind fun _ => fail _
    · exact (hev _).bind fun v => (assignSymbol _ v).bind fun _ => pure v
  · exact assignThrough hev _ form
  · exact notAssignable _

theorem mapEntries (f : FunctionId) (done entries : List (Value × Value)) :
    Balanced P (Operation.mapEntries ev context f done entries) := by
  induction entries generalizing done with
  | nil => exact pure _
  | cons e rest ih => exact (list _).bind fun arguments => (hev _).bind fun v => ih _

omit hev in
theorem collectLike (target : Value) (pairs : List (Value × Value)) :
    Balanced P (Operation.collectLike target pairs) := by
  unfold Operation.collectLike
  split
  · exact step fun s => .allocArray s _
  · exact step fun _ => ⟨rfl, rfl, rfl⟩
  · exact step fun _ => ⟨rfl, rfl, rfl⟩
  · exact list _

theorem map (arguments : Value) : Balanced P (Operation.map ev context arguments) := by
  refine (read _).bind fun target => (read _).bind fun entries => ?_
  split
  · exact (read _).bind fun _ => failType _
  · refine (read _).bind fun f => ?_
    split
    · exact (mapEntries hev _ [] _).bind fun pairs => collectLike target pairs
    · exact failType _

/-! ## Operations that evaluate nothing -/

omit hev

theorem makeFunction (operator : String) (kind : Closure → Callable) (arguments : Value) :
    Balanced P (SpecialForm.makeFunction operator kind arguments) := by
  intro s
  unfold SpecialForm.makeFunction
  split
  · exact .fault (.refl s)
  · exact .ok ⟨rfl, rfl, rfl⟩

theorem gensym : Balanced P SpecialForm.gensym :=
  (step .generate).bind fun _ => pure _

theorem typeOf (arguments : Value) : Balanced P (Operation.typeOf arguments) :=
  (read _).bind fun _ => (namespaceStep fun _ _ _ h => .internKeyword h).bind fun _ => pure _

theorem answer {operation : Interp → Value → Except Fault (NamespaceId × Interp)}
    (arguments : Value) (hop : ∀ s id t, operation s arguments = .ok (id, t) → SameFrames s t) :
    Balanced P (NamespaceForm.answer operation arguments) := by
  intro s
  unfold NamespaceForm.answer
  split
  next h => exact .ok (hop _ _ _ h)
  next => exact .fault (.refl s)

theorem makeArray (arguments : Value) : Balanced P (Operation.makeArray arguments) := by
  intro s
  unfold Operation.makeArray
  split
  · exact .fault (.refl s)
  · exact .ok ⟨rfl, rfl, rfl⟩

theorem dictionary (arguments : Value) : Balanced P (Operation.dictionary arguments) := by
  intro s
  unfold Operation.dictionary
  split
  · exact .fault (.refl s)
  · exact .ok ⟨rfl, rfl, rfl⟩

theorem hashTable (arguments : Value) : Balanced P (Operation.hashTable arguments) := by
  intro s
  unfold Operation.hashTable
  split
  · exact .fault (.refl s)
  · exact .ok ⟨rfl, rfl, rfl⟩

end Balanced

end SmallLisp
