import SmallLisp.Proofs.Calls
import SmallLisp.Proofs.Registry

/-!
# Namespace forms are all or nothing

The clauses of a namespace form work on a draft, one after the other, and the draft becomes a
namespace only at the end. So a form that fails, with its name, in the middle of its clauses or
because the name is taken, leaves the state as it was; `Fails` says with which fault it does. A form
that succeeds leaves one more namespace, under a name that was free, whose new symbols stand behind
the old ones. `namespace_form_all_or_nothing` states this for the form itself, for its application
and for the evaluation of a list form, whatever the argument list is.
-/

namespace SmallLisp

variable {s u : Interp} {arguments : Value} {fault : Fault}

namespace NamespaceForm

/-! ## Clause by clause -/

namespace Draft

variable {d d' : Draft}

/-- Clauses are carried out on what the clauses before them have left. -/
theorem clauses_append (s : Interp) (d : Draft) (before after : List Value) :
    clauses s d (before ++ after) = clauses s d before >>= fun d' => clauses s d' after := by
  induction before generalizing d with
  | nil => rfl
  | cons v rest ih =>
    cases v with
    | cons id =>
      simp only [List.cons_append, clauses]
      cases s.properElements? (.cons id) with
      | none => rfl
      | some items =>
        dsimp only
        cases namesOf s items with
        | error cause => rfl
        | ok names =>
          dsimp only
          cases clause s d names with
          | error cause => rfl
          | ok d' => exact ih d'
    | _ => rfl

/-- Clauses fail with the first of them that does. -/
theorem clauses_error {vs : List Value} (h : clauses s d vs = .error fault) :
    ∃ before v after d', vs = before ++ v :: after ∧ clauses s d before = .ok d' ∧
      clauses s d' [v] = .error fault := by
  induction vs generalizing d with
  | nil => cases h
  | cons v rest ih =>
    cases hv : clauses s d [v] with
    | error cause =>
      rw [← List.singleton_append, clauses_append, hv] at h
      cases h
      exact ⟨[], v, rest, d, rfl, rfl, hv⟩
    | ok next =>
      rw [← List.singleton_append, clauses_append, hv] at h
      obtain ⟨before, w, after, d', rfl, hbefore, hw⟩ := ih h
      refine ⟨v :: before, w, after, d', rfl, ?_, hw⟩
      rw [← List.singleton_append, clauses_append, hv]
      exact hbefore

/-- The draft that a form begins with. -/
def start (s : Interp) (name : String) : Draft := ⟨.fresh name true, s.symbols⟩

/-- Clauses do not rename the draft. -/
theorem clauses_name {vs : List Value} {name : String} (h : clauses s (start s name) vs = .ok d) :
    d.names.name = name := by
  obtain ⟨es, hnames, -, -⟩ := leads_clauses h rfl
  rw [hnames, (Edit.header_applyAll _ es).1]
  rfl

end Draft

/-! ## Failures -/

/-- Why a form fails: its first argument is no name; a clause fails, after any number of others
have been carried out; or nothing fails and the name is taken. -/
inductive Fails (s : Interp) (arguments : Value) : Fault → Prop
  | name {fault : Fault} (h : nameOf s (s.first arguments) = .error fault) :
      Fails s arguments fault
  | clause {fault : Fault} {name : String} {before after : List Value} {v : Value} {d : Draft}
      (hname : nameOf s (s.first arguments) = .ok name)
      (hclauses : s.elementsOf (s.rest arguments) = before ++ v :: after)
      (hbefore : (Draft.start s name).clauses s before = .ok d)
      (hv : d.clauses s [v] = .error fault) : Fails s arguments fault
  | taken {name : String} {d : Draft} {id : NamespaceId}
      (hname : nameOf s (s.first arguments) = .ok name)
      (hclauses : (Draft.start s name).clauses s (s.elementsOf (s.rest arguments)) = .ok d)
      (htaken : s.findNamespace? name = some id) :
      Fails s arguments (.namespaces (.taken name))

/-- A form with a name carries out its clauses and then registers the draft. -/
theorem create_named {name : String} (h : nameOf s (s.first arguments) = .ok name) :
    create s arguments =
      (Draft.start s name).clauses s (s.elementsOf (s.rest arguments)) >>= fun d =>
        match s.findNamespace? name with
        | some _ => .error (.namespaces (.taken name))
        | none => .ok (⟨s.namespaces.size⟩,
          { s with symbols := d.symbols, namespaces := s.namespaces.push d.names }) := by
  unfold create Draft.start
  rw [h]
  dsimp only
  cases hclauses : Draft.clauses s ⟨.fresh name true, s.symbols⟩
      (s.elementsOf (s.rest arguments)) with
  | error fault => rfl
  | ok d =>
    have hrenamed : d.names.name = name := Draft.clauses_name hclauses
    have hsame : Interp.findNamespace? { s with symbols := d.symbols } d.names.name =
        s.findNamespace? name := by
      rw [hrenamed]
      rfl
    dsimp only [bind, Except.bind]
    unfold Interp.addNamespace
    rw [hsame, hrenamed]
    cases s.findNamespace? name <;> rfl

theorem create_error_iff : create s arguments = .error fault ↔ Fails s arguments fault := by
  constructor
  · intro h
    cases hname : nameOf s (s.first arguments) with
    | error cause =>
      unfold create at h
      rw [hname] at h
      cases h
      exact .name hname
    | ok name =>
      rw [create_named hname] at h
      cases hclauses : (Draft.start s name).clauses s (s.elementsOf (s.rest arguments)) with
      | error cause =>
        rw [hclauses] at h
        cases h
        obtain ⟨before, v, after, d, hsplit, hbefore, hv⟩ := Draft.clauses_error hclauses
        exact .clause hname hsplit hbefore hv
      | ok d =>
        rw [hclauses] at h
        cases htaken : s.findNamespace? name with
        | none =>
          rw [htaken] at h
          cases h
        | some id =>
          rw [htaken] at h
          cases h
          exact .taken hname hclauses htaken
  · intro h
    cases h with
    | name h =>
      unfold create
      rw [h]
    | @clause _ _ _ after v d hname hclauses hbefore hv =>
      have hrest : d.clauses s (v :: after) = .error fault := by
        rw [← List.singleton_append, Draft.clauses_append, hv]
        rfl
      rw [create_named hname, hclauses, Draft.clauses_append, hbefore]
      show (d.clauses s (v :: after) >>= _) = _
      rw [hrest]
      rfl
    | taken hname hclauses htaken =>
      rw [create_named hname, hclauses, htaken]
      rfl

end NamespaceForm

/-! ## Outcomes -/

/-- `u` is `s` with one more namespace, under a name that was free. The symbols that were made for
it stand behind all others. -/
structure Interp.OneMore (s : Interp) (id : NamespaceId) (u : Interp) : Prop where
  free : s.findNamespace? (u.namespaceAt id).name = none
  registered : u.findNamespace? (u.namespaceAt id).name = some id
  others : ∀ name, name ≠ (u.namespaceAt id).name → u.findNamespace? name = s.findNamespace? name
  namespaces : ∀ j, j ≠ id → u.namespaceAt j = s.namespaceAt j
  symbols : s.symbols.Grows Symbol.Plain u.symbols
  rest : u = { s with symbols := u.symbols, namespaces := u.namespaces }

/-- A result is a fault in the same state, or the new one of one more namespace. -/
inductive Interp.AllOrNothing (s : Interp) : EStateM.Result Flow Interp Value → Prop
  | nothing (fault : Fault) : AllOrNothing s (.error (.fault fault) s)
  | all {id : NamespaceId} {u : Interp} (h : s.OneMore id u) : AllOrNothing s (.ok (.names id) u)

/-- Without an answer there is a fault, and nothing has changed. -/
theorem Interp.AllOrNothing.unanswered {act : EvalM Value} (h : s.AllOrNothing (act s))
    (hnone : (act.answer? s).isNone) : ∃ fault, act s = .error (.fault fault) s := by
  unfold EvalM.answer? at hnone
  generalize act s = r at h hnone
  cases h with
  | nothing fault => exact ⟨fault, rfl⟩
  | all h => cases hnone

theorem Interp.oneMore_push {ns : Namespace} {symbols : SymbolStore}
    (hfree : s.findNamespace? ns.name = none) (hgrows : s.symbols.Grows Symbol.Plain symbols) :
    s.OneMore ⟨s.namespaces.size⟩
      { s with symbols := symbols, namespaces := s.namespaces.push ns } := by
  have hlast : Interp.namespaceAt { s with symbols := symbols, namespaces := s.namespaces.push ns }
      ⟨s.namespaces.size⟩ = ns := by
    simp [namespaceAt]
  have hfound : ∀ name, Interp.findNamespace? { s with
      symbols := symbols, namespaces := s.namespaces.push ns } name =
      (s.findNamespace? name).or (if ns.name = name then some ⟨s.namespaces.size⟩ else none) := by
    intro name
    simp only [findNamespace?, Array.findIdx?_push]
    cases s.namespaces.findIdx? fun ns => ns.name == name <;>
      by_cases hname : ns.name = name <;> simp [hname]
  constructor
  case free => rw [hlast]; exact hfree
  case registered => rw [hlast, hfound, hfree, if_pos rfl, Option.none_or]
  case others =>
    intro name hname
    rw [hlast] at hname
    rw [hfound, if_neg (Ne.symm hname), Option.or_none]
  case namespaces =>
    intro j hj
    have hindex : j.index ≠ s.namespaces.size := fun h => hj (by cases j; cases h; rfl)
    unfold namespaceAt
    rw [Array.getElem?_push, if_neg hindex]
  case symbols => exact hgrows
  case rest => rfl

/-- How many evaluations are active is no part of what a form changes. -/
theorem Interp.OneMore.withActive {id : NamespaceId} {active : Nat}
    (h : (s.withActive active).OneMore id u) : s.OneMore id (u.withActive s.active) := by
  obtain ⟨hfree, hregistered, hothers, hnamespaces, hsymbols, hrest⟩ := h
  refine ⟨hfree, hregistered, hothers, hnamespaces, hsymbols, ?_⟩
  rw [hrest]
  rfl

namespace NamespaceForm

theorem create_oneMore {id : NamespaceId} (h : create s arguments = .ok (id, u)) :
    s.OneMore id u := by
  obtain ⟨name, es, symbols, rfl, hfree, hgrows, -, rfl⟩ := create_cases h
  refine Interp.oneMore_push ?_ hgrows
  rw [(Edit.header_applyAll (.fresh name true) es).1]
  exact hfree

theorem answer_create (s : Interp) (arguments : Value) :
    s.AllOrNothing (answer create arguments s) := by
  unfold answer
  split
  next h => exact .all (create_oneMore h)
  next fault h => exact .nothing fault

end NamespaceForm

/-! ## Applications and list forms -/

section Evaluated

variable {hosts : HostTable} {n : Nat} {context : Value} {id : FunctionId}

/-- A dotted argument list, or an empty one, fails before the form is looked at. -/
theorem NamespaceForm.applied (hid : s.callable id = .primitive .defineNamespace)
    (arguments : Value) : s.AllOrNothing
      (Evaluator.perform hosts (n + 1) context (.apply id arguments) s) := by
  show s.AllOrNothing (Evaluator.applyReady hosts _ n context id arguments s)
  unfold Evaluator.applyReady
  rw [EvalM.read_bind_apply]
  rcases Evaluator.fit_cases s id arguments with ⟨-, hfits⟩ | ⟨-, hdotted | ⟨_, _, hshort⟩⟩
  · rw [hfits, hid]
    exact answer_create s arguments
  · rw [hdotted]
    exact .nothing _
  · rw [hshort]
    exact .nothing _

theorem NamespaceForm.applyForm {evaluator : Evaluators} {cell : CellId}
    (hhead : (evaluator context).form (s.car cell) s = .ok (.function id) s)
    (hid : s.callable id = .primitive .defineNamespace) :
    s.AllOrNothing (Evaluator.applyForm hosts evaluator n context cell s) := by
  by_cases hoperands : s.Supplies (s.callable id) (s.cdr cell)
  · rw [applyForm_calls hhead hoperands, hid]
    exact answer_create s (s.cdr cell)
  · obtain ⟨fault, hrefused⟩ : ∃ fault,
        Evaluator.applyForm hosts evaluator n context cell s = .error (.fault fault) s :=
      applyForm_refuses hhead hoperands
    rw [hrefused]
    exact .nothing fault

/-- Naming the form in a fault and counting the evaluation touch nothing that a form changes. -/
theorem Interp.AllOrNothing.counted {form : Value} {act : EvalM Value}
    (h : (s.withActive (s.active + 1)).AllOrNothing (act (s.withActive (s.active + 1)))) :
    s.AllOrNothing (EvalM.withinLimit (Evaluator.namingForm form act) s) := by
  rw [EvalM.withinLimit_apply]
  split
  next => exact .nothing _
  next =>
    unfold EvalM.counted Evaluator.namingForm
    generalize act (s.withActive (s.active + 1)) = r at h
    cases h with
    | nothing fault =>
      dsimp only
      split <;> exact .nothing _
    | @all id u h =>
      have hactive : u.active = s.active + 1 := by rw [h.rest]; rfl
      have hall := h.withActive
      rw [show s.active = u.active - 1 by rw [hactive, Nat.add_sub_cancel]] at hall
      exact .all hall

theorem NamespaceForm.evaluated {cell : CellId} {x : SymbolId} (hhead : s.car cell = .symbol x)
    (hx : s.lookup? x = some (.function id)) (hid : s.callable id = .primitive .defineNamespace) :
    s.AllOrNothing (Evaluator.perform hosts (n + 2) context (.evaluate (.cons cell)) s) := by
  let counted := s.withActive (s.active + 1)
  show s.AllOrNothing (EvalM.withinLimit (Evaluator.namingForm (.cons cell)
    (Evaluator.applyForm hosts (Evaluator.perform hosts (n + 1)) (n + 1) context cell)) s)
  refine Interp.AllOrNothing.counted ?_
  by_cases hactive : counted.active < counted.limit
  · refine NamespaceForm.applyForm ?_ hid
    show Evaluator.perform hosts (n + 1) context (.evaluate (counted.car cell)) counted = _
    rw [show counted.car cell = .symbol x from hhead]
    exact Evaluator.perform_symbol hx hactive
  · -- the operator may not be evaluated any more
    have hstopped : ∃ fault, (Evaluator.perform hosts (n + 1) context).form (counted.car cell)
        counted = .error (.fault fault) counted := by
      refine ⟨.evaluation (.depthLimit counted.limit) none, ?_⟩
      show EvalM.withinLimit _ counted = _
      rw [EvalM.withinLimit_apply, if_pos (Nat.le_of_not_lt hactive)]
      rfl
    obtain ⟨fault, hstopped⟩ := hstopped
    unfold Evaluator.applyForm
    rw [EvalM.read_bind_apply, EvalM.read_bind_apply, EvalM.bind_error hstopped]
    exact .nothing fault

end Evaluated

/-- A namespace form fails and leaves the state as it was, or it leaves one more namespace. So does
its application to any argument list, and so does the evaluation of any list form with its name. It
fails exactly if its name is no name or is taken or one of its clauses fails, with that fault. -/
theorem namespace_form_all_or_nothing (s : Interp) (arguments : Value) :
    (∀ ev context n,
      s.AllOrNothing (Primitive.defineNamespace.run ev context n arguments s)) ∧
    (∀ ev context n fault,
      Primitive.defineNamespace.run ev context n arguments s = .error (.fault fault) s ↔
        NamespaceForm.Fails s arguments fault) ∧
    (∀ hosts n context id, s.callable id = .primitive .defineNamespace →
      s.AllOrNothing (Evaluator.perform hosts (n + 1) context (.apply id arguments) s)) ∧
    ∀ hosts n context cell x id, s.car cell = .symbol x → s.lookup? x = some (.function id) →
      s.callable id = .primitive .defineNamespace →
      s.AllOrNothing (Evaluator.perform hosts (n + 2) context (.evaluate (.cons cell)) s) := by
  refine ⟨fun ev context n => NamespaceForm.answer_create s arguments,
    fun ev context n fault => ?_,
    fun hosts n context id hid => NamespaceForm.applied hid arguments,
    fun hosts n context cell x id hhead hx hid => NamespaceForm.evaluated hhead hx hid⟩
  rw [← NamespaceForm.create_error_iff]
  show NamespaceForm.answer NamespaceForm.create arguments s = _ ↔ _
  unfold NamespaceForm.answer
  cases NamespaceForm.create s arguments with
  | ok result => exact ⟨nofun, nofun⟩
  | error cause => simp

/-- A form that shadows a name and then imports from a namespace that is not there leaves nothing
behind. -/
theorem interrupted_form_leaves_nothing :
    ∃ s form fault named, s.elementsOf form ≠ [] ∧
      NamespaceForm.Fails s (s.rest form) fault ∧
      Machine.small.evaluator .nil (.evaluate form) s = .error (.fault named) s := by
  obtain ⟨s, hs⟩ : ∃ s, s = (Interp.initial 64).afterTexts
    [(.small, "(var f (quote (namespace \"a\" (shadow x) (import-from \"b\" y))))")] := ⟨_, rfl⟩
  obtain ⟨hsome, hhead, hx, hid, hfails, hstops⟩ :
      s.elementsOf (.cons ⟨8⟩) ≠ [] ∧ s.car ⟨8⟩ = .symbol ⟨24⟩ ∧
        s.lookup? ⟨24⟩ = some (.function ⟨20⟩) ∧ s.callable ⟨20⟩ = .primitive .defineNamespace ∧
        ((NamespaceForm.answer NamespaceForm.create (s.cdr ⟨8⟩)).answer? s).isNone ∧
        ((Machine.small.evaluator .nil (.evaluate (.cons ⟨8⟩))).answer? s).isNone := by
    rw [hs]
    decide +kernel
  obtain ⟨hall, hfault, -, hevaluated⟩ := namespace_form_all_or_nothing s (s.cdr ⟨8⟩)
  have hform := hevaluated Machine.small.hosts 18 .nil ⟨8⟩ ⟨24⟩ ⟨20⟩ hhead hx hid
  obtain ⟨fault, hrun⟩ := (hall (fun _ _ => throw .spent) .nil 0).unanswered hfails
  obtain ⟨named, hnamed⟩ := hform.unanswered hstops
  exact ⟨s, .cons ⟨8⟩, fault, named, hsome, (hfault _ .nil 0 fault).mp hrun, hnamed⟩

end SmallLisp
