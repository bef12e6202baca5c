import SmallLisp.Proofs.Pairing
import SmallLisp.Proofs.Withheld

/-!
# Discreet runs

A run is discreet about hidden cells if it leaves them as they are and hidden, and ends with a known
value or with a flow that carries none of them. Every action of the standard library that starts
from known values is, if the evaluator that it is handed is: an address comes from a value that was
there, or it is the address of a new cell. There is one lemma for each way in which actions are put
together and one for each action.

While the elements of a list are worked out, the list itself is held back: `ListBuilding.Sparing`
says how a list under construction is kept from what runs in between. Whatever that is, cells that
the list has already are hidden from it.
-/

namespace SmallLisp

variable {α β : Type} {hidden secret : CellId → Prop} {s t u : Interp}

/-- The value that a flow carries is known. -/
def Flow.Known (hidden : CellId → Prop) (s : Interp) : Flow → Prop
  | .signal (.returning v _) => v.Known hidden s
  | _ => True

/-- What a request is about is known. -/
def Request.Known (hidden : CellId → Prop) (s : Interp) : Request → Prop
  | .evaluate form => form.Known hidden s
  | .apply _ arguments => arguments.Known hidden s

def ListBuilder.Known (hidden : CellId → Prop) (s : Interp) (builder : ListBuilder) : Prop :=
  ∀ v ∈ builder.reversed, v.Known hidden s

/-- What a protected form ended with is known. -/
def SpecialForm.Protected.Known (hidden : CellId → Prop) (s : Interp) :
    SpecialForm.Protected → Prop
  | .finished v => v.Known hidden s
  | .caught _ => True

/-- A run that spares the hidden cells. What it ends with is `good`, or a flow of known values. -/
inductive Discreet (hidden : CellId → Prop) (good : Interp → α → Prop) (s : Interp) :
    EStateM.Result Flow Interp α → Prop
  | ok {a : α} {t : Interp} (after : Spared hidden s t) (hgood : good t a) :
      Discreet hidden good s (.ok a t)
  | error {flow : Flow} {t : Interp} (after : Spared hidden s t) (hflow : flow.Known hidden t) :
      Discreet hidden good s (.error flow t)

/-- The state withholds the hidden cells, and the context is known. -/
structure Interp.Entrusts (hidden : CellId → Prop) (context : Value) (s : Interp) : Prop where
  withholds : s.Withholds hidden
  context : context.Known hidden s

theorem Interp.Entrusts.after {context : Value} (hs : s.Entrusts hidden context)
    (h : Spared hidden s t) : t.Entrusts hidden context :=
  ⟨h.withholds, h.known hs.context⟩

/-- Whatever cells are hidden, what is evaluated about known values in a known context is discreet
about them. -/
def Evaluators.Discreet (ev : Evaluators) : Prop :=
  ∀ hidden context request s, s.Entrusts hidden context → request.Known hidden s →
    SmallLisp.Discreet hidden (Value.Known hidden) s (ev context request s)

/-- What is good stays good as long as the hidden cells are spared. -/
def Lasting (hidden : CellId → Prop) (good : Interp → α → Prop) : Prop :=
  ∀ u u' a, Spared hidden u u' → good u a → good u' a

theorem lasting_known : Lasting hidden (Value.Known hidden) := fun _ _ _ h hv => h.known hv

/-- What does not refer to more cells does not refer to fewer of them. -/
theorem Value.Known.of_imp {v : Value} (hv : v.Known secret s)
    (h : ∀ id, hidden id → secret id) : v.Known hidden s :=
  fun id hid => ⟨(hv id hid).1, fun hhidden => (hv id hid).2 (h id hhidden)⟩

theorem Flow.Known.of_imp {flow : Flow} (hflow : flow.Known secret s)
    (h : ∀ id, hidden id → secret id) : flow.Known hidden s := by
  cases flow with
  | signal σ =>
    cases σ with
    | returning v depth => exact Value.Known.of_imp hflow h
    | _ => trivial
  | _ => trivial

theorem Spared.entriesKnown (h : Spared hidden s t) {es : List (Value × Value)}
    (hes : EntriesKnown hidden s es) : EntriesKnown hidden t es :=
  fun e he => ⟨h.known (hes e he).1, h.known (hes e he).2⟩

namespace ListBuilder.Known

theorem empty : ListBuilder.empty.Known hidden s := fun _ h => nomatch h

theorem mono {builder : ListBuilder} (h : builder.Known hidden s) (after : Spared hidden s t) :
    builder.Known hidden t :=
  fun v hv => after.known (h v hv)

theorem push {builder : ListBuilder} {v : Value} (h : builder.Known hidden s)
    (hv : v.Known hidden s) : (builder.push v).Known hidden s :=
  List.forall_mem_cons.mpr ⟨hv, h⟩

theorem append {builder : ListBuilder} {v : Value} (h : builder.Known hidden s)
    (hs : s.Withholds hidden) (hv : v.Known hidden s) : (builder.append s v).Known hidden s := by
  intro item hitem
  unfold ListBuilder.append at hitem
  rw [List.reverseAux_eq] at hitem
  rcases List.mem_append.mp hitem with hitem | hitem
  · exact hs.elementsOf hv item (List.mem_reverse.mp hitem)
  · exact h item hitem

end ListBuilder.Known

theorem Interp.Withholds.operand? (hs : s.Withholds hidden) {tag : SymbolId} {v operand : Value}
    (hv : v.Known hidden s) (h : Template.operand? s tag v = some operand) :
    operand.Known hidden s := by
  unfold Template.operand? at h
  split at h
  next id =>
    split at h
    · split at h
      next rest hrest =>
        split at h
        · cases h
          exact hs.car (hrest ▸ hs.cdr hv)
        · cases h
      next => cases h
    · cases h
  next => cases h

namespace Discreet

variable {good : Interp → α → Prop} {good' : Interp → β → Prop}

/-! ## How runs are put together -/

theorem pure {a : α} (hs : s.Withholds hidden) (ha : good s a) :
    Discreet hidden good s ((Pure.pure a : EvalM α) s) :=
  .ok (.refl hs) ha

theorem fail (cause : Fault) (hs : s.Withholds hidden) :
    Discreet hidden good s ((EvalM.fail cause : EvalM α) s) :=
  .error (.refl hs) trivial

theorem spent (hs : s.Withholds hidden) :
    Discreet hidden good s ((throw .spent : EvalM α) s) :=
  .error (.refl hs) trivial

theorem trans {r : EStateM.Result Flow Interp α} (h : Spared hidden s t)
    (hr : Discreet hidden good t r) : Discreet hidden good s r := by
  cases hr with
  | ok after hgood => exact .ok (h.trans after) hgood
  | error after hflow => exact .error (h.trans after) hflow

theorem bind {act : EvalM α} {next : α → EvalM β} (h : Discreet hidden good s (act s))
    (hnext : ∀ a t, Spared hidden s t → good t a → Discreet hidden good' t (next a t)) :
    Discreet hidden good' s ((act >>= next) s) := by
  change Discreet hidden good' s (EStateM.bind act next s)
  unfold EStateM.bind
  generalize act s = r at h
  cases h with
  | ok after hgood => exact trans after (hnext _ _ after hgood)
  | error after hflow => exact .error after hflow

/-- After a run from some other state on. -/
theorem bind_from {act : EvalM α} {next : α → EvalM β} (h : Discreet hidden good s (act t))
    (hnext : ∀ a u, Spared hidden s u → good u a → Discreet hidden good' s (next a u)) :
    Discreet hidden good' s ((act >>= next) t) := by
  change Discreet hidden good' s (EStateM.bind act next t)
  unfold EStateM.bind
  generalize act t = r at h
  cases h with
  | ok after hgood => exact hnext _ _ after hgood
  | error after hflow => exact .error after hflow

theorem read_bind {f : Interp → α} {next : α → EvalM β}
    (h : Discreet hidden good' s (next (f t) t)) :
    Discreet hidden good' s ((EvalM.read f >>= next) t) :=
  h

/-- A fault whose text is read off the state. -/
theorem failing {f : Interp → String} {cause : String → Fault} (hs : s.Withholds hidden) :
    Discreet hidden good s ((EvalM.read f >>= fun text => EvalM.fail (cause text)) s) :=
  .read_bind (.fail _ hs)

/-- An answer or a fault that the state decides without changing it. -/
theorem query {f : Interp → Except Fault Value} (hs : s.Withholds hidden)
    (hgood : ∀ v, f s = .ok v → v.Known hidden s) :
    Discreet hidden (Value.Known hidden) s (Operation.query f s) := by
  unfold Operation.query
  cases hf : f s with
  | ok v => exact .ok (.refl hs) (hgood v hf)
  | error cause => exact .error (.refl hs) trivial

/-- An operation on namespaces. -/
theorem namespaceStep {f : Interp → Except NamespaceFault (α × Interp)} (hs : s.Withholds hidden)
    (hf : ∀ a u, f s = .ok (a, u) → Spared hidden s u) :
    Discreet hidden (fun _ _ => True) s (EvalM.namespaceStep f s) := by
  unfold EvalM.namespaceStep
  cases h : f s with
  | error cause => exact .error (.refl hs) trivial
  | ok r => exact .ok (hf r.1 r.2 h) trivial

section Frames

variable (hgood : Lasting hidden good)

include hgood

theorem leave {r : EStateM.Result Flow Interp α} (restore : Interp → Interp)
    (h : Spared hidden s t) (hr : Discreet hidden good t r)
    (hrestore : ∀ u, u.Withholds hidden → Spared hidden u (restore u)) :
    Discreet hidden good s (leaving restore r) := by
  cases hr with
  | ok after hkept =>
    have hleft := hrestore _ after.withholds
    exact .ok ((h.trans after).trans hleft) (hgood _ _ _ hleft hkept)
  | @error flow u after hflow =>
    have hleft := hrestore u after.withholds
    refine .error ((h.trans after).trans hleft) ?_
    cases flow with
    | signal σ =>
      cases σ with
      | returning v depth => exact hleft.known hflow
      | _ => trivial
    | _ => trivial

variable {act : EvalM α} (hs : s.Withholds hidden)
  (hact : ∀ t, Spared hidden s t → Discreet hidden good t (act t))

include hs hact

theorem inScope (id : ScopeId) : Discreet hidden good s (EvalM.inScope id act s) := by
  have hpushed : Spared hidden s (s.pushScope id) :=
    hs.withFrames (id :: s.chain) s.depths s.active
  exact leave hgood Interp.popScope hpushed (hact _ hpushed) fun u hu =>
    hu.withFrames u.chain.tail u.depths u.active

theorem inFrame (key : DepthKey) : Discreet hidden good s (EvalM.inFrame key act s) := by
  let restore (u : Interp) : Interp := { u with depths := u.depths.leave key }
  have hentered : Spared hidden s { s with depths := s.depths.enter key } :=
    hs.withFrames s.chain (s.depths.enter key) s.active
  exact leave hgood restore hentered (hact _ hentered) fun u hu =>
    hu.withFrames u.chain (u.depths.leave key) u.active

theorem withinLimit : Discreet hidden good s (EvalM.withinLimit act s) := by
  rw [EvalM.withinLimit_apply]
  split
  · exact .fail _ hs
  · have hcounted : Spared hidden s (s.withActive (s.active + 1)) :=
      hs.withFrames s.chain s.depths (s.active + 1)
    exact leave hgood (fun u => u.withActive (u.active - 1)) hcounted (hact _ hcounted) fun u hu =>
      hu.withFrames u.chain u.depths (u.active - 1)

end Frames

/-! ## New lists -/

theorem consReversed {items : List Value} {tail : Value} (hs : s.Withholds hidden)
    (hitems : ∀ v ∈ items, v.Known hidden s) (htail : tail.Known hidden s) :
    Discreet hidden (Value.Known hidden) s (EvalM.step (fun s => s.consReversed items tail) s) := by
  obtain ⟨hafter, hlist⟩ := hs.consReversed hitems htail
  exact .ok hafter hlist

theorem list {items : List Value} (hs : s.Withholds hidden)
    (hitems : ∀ v ∈ items, v.Known hidden s) :
    Discreet hidden (Value.Known hidden) s (EvalM.list items s) :=
  consReversed hs (fun v hv => hitems v (List.mem_reverse.mp hv)) nofun

theorem build {builder : ListBuilder} {tail : Value} (hs : s.Withholds hidden)
    (hbuilder : builder.Known hidden s) (htail : tail.Known hidden s) :
    Discreet hidden (Value.Known hidden) s (EvalM.build builder tail s) :=
  consReversed hs hbuilder htail

end Discreet

/-! ## Lists under construction -/

/-- How a list that is under construction is kept from what runs meanwhile. -/
class ListBuilding.Sparing (lists : ListBuilding) where
  /-- The list was begun in `s` and has come this far in `t`, where it hides the `secret` cells. -/
  Holds (hidden secret : CellId → Prop) (s t : Interp) (b : lists.Builder) : Prop
  start {hidden : CellId → Prop} {s : Interp} (hs : s.Withholds hidden) :
    Holds hidden hidden s s lists.start
  spared {hidden secret : CellId → Prop} {s t : Interp} {b : lists.Builder}
    (h : Holds hidden secret s t b) : Spared hidden s t
  withholds {hidden secret : CellId → Prop} {s t : Interp} {b : lists.Builder}
    (h : Holds hidden secret s t b) : t.Withholds secret
  /-- What it hides besides the hidden cells is new. -/
  secret_iff {hidden secret : CellId → Prop} {s t : Interp} {b : lists.Builder}
    (h : Holds hidden secret s t b) (id : CellId) (hid : id.index < s.cells.size) :
    secret id ↔ hidden id
  hides {hidden secret : CellId → Prop} {s t : Interp} {b : lists.Builder}
    (h : Holds hidden secret s t b) (id : CellId) (hid : hidden id) : secret id
  after {hidden secret : CellId → Prop} {s t u : Interp} {b : lists.Builder}
    (h : Holds hidden secret s t b) (hu : Spared secret t u) : Holds hidden secret s u b
  push {hidden secret : CellId → Prop} {s t : Interp} {b : lists.Builder} {v : Value}
    (h : Holds hidden secret s t b) (hv : v.Known secret t) :
    Discreet hidden (fun u b => ∃ secret, Holds hidden secret s u b) s (lists.push b v t)
  append {hidden secret : CellId → Prop} {s t : Interp} {b : lists.Builder} {v : Value}
    (h : Holds hidden secret s t b) (hv : v.Known secret t) :
    Discreet hidden (fun u b => ∃ secret, Holds hidden secret s u b) s (lists.append b v t)
  finish {hidden secret : CellId → Prop} {s t : Interp} {b : lists.Builder} {v : Value}
    (h : Holds hidden secret s t b) (hv : v.Known secret t) :
    Discreet hidden (Value.Known hidden) s (lists.finish b v t)

namespace ListBuilding.Sparing

variable [lists : ListBuilding] [Sparing lists] {b : lists.Builder}

/-- The list was begun in `s` and has come this far in `t`. -/
def Begun (hidden : CellId → Prop) (s t : Interp) (b : lists.Builder) : Prop :=
  ∃ secret, Holds hidden secret s t b

/-- What was known when the list was begun is no part of it. -/
theorem known (h : Holds hidden secret s t b) {v : Value} (hv : v.Known hidden s) :
    v.Known secret t := by
  intro id hid
  obtain ⟨hlt, hnot⟩ := hv id hid
  exact ⟨Nat.lt_of_lt_of_le hlt (spared h).size_le, mt (secret_iff h id hlt).mp hnot⟩

theorem entrusts (h : Holds hidden secret s t b) {context : Value}
    (hs : s.Entrusts hidden context) : t.Entrusts secret context :=
  ⟨withholds h, known h hs.context⟩

/-- While the list is held back, a run from `t` on that spares its cells is one from `s` on. -/
theorem bind {good : Interp → α → Prop} {good' : Interp → β → Prop} {act : EvalM α}
    {next : α → EvalM β} (h : Holds hidden secret s t b) (hact : Discreet secret good t (act t))
    (hnext : ∀ a u, Holds hidden secret s u b → good u a →
      Discreet hidden good' s (next a u)) : Discreet hidden good' s ((act >>= next) t) := by
  change Discreet hidden good' s (EStateM.bind act next t)
  unfold EStateM.bind
  generalize act t = r at hact
  cases hact with
  | ok hu hgood => exact hnext _ _ (after h hu) hgood
  | error hu hflow => exact .error (spared (after h hu)) (hflow.of_imp (hides h))

end ListBuilding.Sparing

/-- Collected elements are in no cell yet. -/
instance ListBuilding.Sparing.collecting : Sparing collecting where
  Holds hidden secret s t b := secret = hidden ∧ Spared hidden s t ∧ b.Known hidden t
  start hs := ⟨rfl, .refl hs, .empty⟩
  spared h := h.2.1
  withholds h := h.1 ▸ h.2.1.withholds
  secret_iff h _ _ := by rw [h.1]
  hides h _ hid := h.1 ▸ hid
  after h hu := by
    obtain ⟨rfl, hst, hb⟩ := h
    exact ⟨rfl, hst.trans hu, hb.mono hu⟩
  push h hv := by
    obtain ⟨rfl, hst, hb⟩ := h
    exact .ok hst ⟨_, rfl, hst, hb.push hv⟩
  append h hv := by
    obtain ⟨rfl, hst, hb⟩ := h
    exact .ok hst ⟨_, rfl, hst, hb.append hst.withholds hv⟩
  finish h hv := by
    obtain ⟨rfl, hst, hb⟩ := h
    exact .trans hst (.build hst.withholds hb hv)

namespace Discreet

open ListBuilding (Sparing)

variable {good : Interp → α → Prop} {context : Value}

/-! ## Lists of forms -/

section Evaluator

variable {ev : Evaluators} (hev : ev.Discreet)

include hev

theorem form {form : Value} (hs : s.Entrusts hidden context) (hform : form.Known hidden s) :
    Discreet hidden (Value.Known hidden) s ((ev context).form form s) :=
  hev hidden context (.evaluate form) s hs hform

omit hev in
theorem walk {visit : Value → α → EvalM (ForInStep α)} {n : Nat} {list : Value} {a : α}
    (hs : s.Withholds hidden) (hlist : list.Known hidden s) (ha : good s a)
    (hvisit : ∀ item a t, Spared hidden s t → item.Known hidden t → good t a →
      Discreet hidden (fun u next => good u next.value) t (visit item a t)) :
    Discreet hidden good s (EvalM.walk visit n list a s) := by
  have hwalk : ∀ n list a t, Spared hidden s t → list.Known hidden t → good t a →
      Discreet hidden good t (EvalM.walk visit n list a t) := by
    intro n
    induction n with
    | zero =>
      intro list a t ht _ ha
      cases list with
      | cons id => exact .spent ht.withholds
      | _ => exact .pure ht.withholds ha
    | succ n ih =>
      intro list a t ht hlist ha
      cases list with
      | cons id =>
        have hitem := ht.withholds.car hlist
        have hrest := ht.withholds.cdr hlist
        refine .read_bind <| .read_bind <| (hvisit _ a t ht hitem ha).bind fun next u hu hnext => ?_
        cases next with
        | yield a => exact ih _ a u (ht.trans hu) (hu.known hrest) hnext
        | done a => exact .pure hu.withholds hnext
      | _ => exact .pure ht.withholds ha
  exact hwalk n list a s (.refl hs) hlist ha

/-- Forms that are evaluated in a row, with a step after each of them that changes nothing. -/
theorem forEachForm (next : Value → α → ForInStep α) {forms : Value} {a : α}
    (hs : s.Entrusts hidden context) (hforms : forms.Known hidden s) (ha : good s a)
    (hnext : ∀ v a t, v.Known hidden t → good t (next v a).value) :
    Discreet hidden good s (EvalM.forEach forms a (fun form a => do
      let v ← (ev context).form form
      Pure.pure (next v a)) s) :=
  .read_bind <| walk hs.withholds hforms ha fun _ a _ ht hitem _ =>
    (form hev (hs.after ht) hitem).bind fun v u hu hv => .pure hu.withholds (hnext v a u hv)

theorem body {forms : Value} (hs : s.Entrusts hidden context) (hforms : forms.Known hidden s) :
    Discreet hidden (Value.Known hidden) s (ev.body context forms s) :=
  forEachForm hev (fun v _ => .yield v) hs hforms nofun fun _ _ _ hv => hv

variable [lists : ListBuilding] [Sparing lists]

/-- The values of forms become the elements of a list. The forms are held by the cells of `s`,
which are followed by the same cells still. -/
theorem collecting {n : Nat} {forms : Value} {b : lists.Builder} (hs : s.Entrusts hidden context)
    (hb : Sparing.Begun hidden s t b) (hforms : forms.Known hidden s) :
    Discreet hidden (Sparing.Begun hidden s) s (EvalM.walk (fun form b => do
      let v ← (ev context).form form
      let b ← lists.push b v
      Pure.pure (.yield b)) n forms b t) := by
  induction n generalizing t forms b with
  | zero =>
    obtain ⟨secret, hb⟩ := hb
    cases forms with
    | cons id => exact .error (Sparing.spared hb) trivial
    | _ => exact .ok (Sparing.spared hb) ⟨secret, hb⟩
  | succ n ih =>
    obtain ⟨secret, hb⟩ := hb
    cases forms with
    | cons id =>
      have hst := Sparing.spared hb
      have hitem := (Sparing.withholds hb).car (Sparing.known hb hforms)
      have hrest : (t.cdr id).Known hidden s := by
        rw [hst.cdr id (hforms id rfl).1]
        exact hs.withholds.cdr hforms
      have hvisit : Discreet hidden (fun u next => Sparing.Begun hidden s u next.value) s
          ((do
            let v ← (ev context).form (t.car id)
            let b ← lists.push b v
            Pure.pure (.yield b) : EvalM (ForInStep lists.Builder)) t) :=
        Sparing.bind hb (form hev (Sparing.entrusts hb hs) hitem) fun v u hu hv =>
          (Sparing.push hu hv).bind_from fun b' w hw hb' => .ok hw hb'
      refine .read_bind <| .read_bind <| hvisit.bind_from fun next u hu hnext => ?_
      cases next with
      | yield b' => exact ih hnext hrest
      | done b' => exact .ok hu hnext
    | _ => exact .ok (Sparing.spared hb) ⟨secret, hb⟩

theorem evaluated {forms : Value} (hs : s.Entrusts hidden context)
    (hforms : forms.Known hidden s) :
    Discreet hidden (Value.Known hidden) s (ev.list context forms s) := by
  have hbegun : Sparing.Begun hidden s s lists.start := ⟨hidden, Sparing.start hs.withholds⟩
  refine bind_from (.read_bind (collecting hev hs hbegun hforms)) ?_
  rintro b t - ⟨secret, hb⟩
  exact Sparing.finish hb nofun

end Evaluator

/-! ## Templates -/

theorem misplacedSplice (form : Value) (hs : s.Withholds hidden) :
    Discreet hidden (Value.Known hidden) s (Template.misplacedSplice form s) :=
  failing hs

theorem retag (tag : SymbolId) {operand : EvalM Value}
    (h : Discreet hidden (Value.Known hidden) s (operand s)) :
    Discreet hidden (Value.Known hidden) s (Template.retag tag operand s) := by
  refine h.bind fun v t ht hv => list ht.withholds ?_
  exact List.forall_mem_cons.mpr ⟨nofun, List.forall_mem_singleton.mpr hv⟩

section Template

variable {ev : Evaluators} (hev : ev.Discreet) {expand : Nat → Value → EvalM Value}
  (hexpand : ∀ hidden level form s, s.Entrusts hidden context → form.Known hidden s →
    Discreet hidden (Value.Known hidden) s (expand level form s))
  [lists : ListBuilding] [Sparing lists] {b : lists.Builder}

theorem splice {v : Value} (hb : Sparing.Holds hidden secret s t b) (hv : v.Known secret t) :
    Discreet hidden (Sparing.Begun hidden s) s (Template.splice b v t) := by
  refine .read_bind ?_
  split
  · exact Sparing.append hb hv
  · exact .error (Sparing.spared hb) trivial

include hev hexpand

theorem templateElement {level : Nat} {item : Value} (hs : s.Entrusts hidden context)
    (hb : Sparing.Holds hidden secret s t b) (hitem : item.Known secret t) :
    Discreet hidden (Sparing.Begun hidden s) s
      (Template.element ev context expand level b item t) := by
  have ht := Sparing.entrusts hb hs
  refine .read_bind ?_
  have hpush : ∀ v u, Sparing.Holds hidden secret s u b → v.Known secret u →
      Discreet hidden (Sparing.Begun hidden s) s (lists.push b v u) :=
    fun v u hu hv => Sparing.push hu hv
  cases hoperand : Template.operand? t .splice item with
  | none => exact Sparing.bind hb (hexpand secret level item t ht hitem) hpush
  | some operand =>
    have hknown := (Sparing.withholds hb).operand? hitem hoperand
    dsimp only
    split
    · exact Sparing.bind hb (form hev ht hknown) fun v u hu hv => splice hu hv
    · exact Sparing.bind hb (retag .splice (hexpand secret _ operand t ht hknown)) hpush

theorem templateElements {level n : Nat} {isTail : Bool} {rest : Value}
    (hs : s.Entrusts hidden context) (hb : Sparing.Begun hidden s t b)
    (hrest : rest.Known hidden s) :
    Discreet hidden (Value.Known hidden) s
      (Template.elements ev context expand level n isTail b rest t) := by
  obtain ⟨secret, hb⟩ := hb
  induction n generalizing t isTail b rest secret with
  | zero => exact .error (Sparing.spared hb) trivial
  | succ n ih =>
    have hknown := Sparing.known hb hrest
    refine .read_bind ?_
    split
    · have hform := hexpand secret level rest t (Sparing.entrusts hb hs) hknown
      exact Sparing.bind hb hform fun v u hu hv => Sparing.finish hu hv
    · cases rest with
      | cons id =>
        have hitem := (Sparing.withholds hb).car hknown
        refine .read_bind <| (templateElement hev hexpand hs hb hitem).bind_from ?_
        rintro b' u hu ⟨secret', hb'⟩
        have hnext : (u.cdr id).Known hidden s := by
          rw [hu.cdr id (hrest id rfl).1]
          exact hs.withholds.cdr hrest
        exact .read_bind (ih hnext secret' hb')
      | _ => exact Sparing.finish hb hknown

theorem templateStep {n level : Nat} {form : Value} (hs : s.Entrusts hidden context)
    (hform : form.Known hidden s) :
    Discreet hidden (Value.Known hidden) s (Template.step ev context n expand level form s) := by
  unfold Template.step
  split
  next id =>
    have hoperand : ∀ {tag operand}, Template.operand? s tag (.cons id) = some operand →
        operand.Known hidden s := hs.withholds.operand? hform
    refine .read_bind ?_
    cases hunquote : Template.operand? s .unquote (.cons id) with
    | some operand =>
      dsimp only
      split
      · exact Discreet.form hev hs (hoperand hunquote)
      · exact retag _ (hexpand _ _ _ s hs (hoperand hunquote))
    | none =>
      refine .read_bind ?_
      cases hsplice : Template.operand? s .splice (.cons id) with
      | some operand =>
        dsimp only
        split
        · exact misplacedSplice _ hs.withholds
        · exact retag _ (hexpand _ _ _ s hs (hoperand hsplice))
      | none =>
        refine .read_bind ?_
        cases hnested : Template.operand? s .backquote (.cons id) with
        | some operand => exact retag _ (hexpand _ _ _ s hs (hoperand hnested))
        | none =>
          exact templateElements hev hexpand hs ⟨hidden, Sparing.start hs.withholds⟩ hform
  next => exact .pure hs.withholds hform

end Template

section Evaluator

variable {ev : Evaluators} (hev : ev.Discreet)

include hev

theorem expand [lists : ListBuilding] [Sparing lists] {n level : Nat} {form : Value}
    (hs : s.Entrusts hidden context) (hform : form.Known hidden s) :
    Discreet hidden (Value.Known hidden) s (Template.expand ev context n level form s) := by
  induction n generalizing hidden s level form with
  | zero => exact .spent hs.withholds
  | succ n ih => exact templateStep hev (fun _ _ _ _ hs hform => ih hs hform) hs hform

theorem fill [lists : ListBuilding] [Sparing lists] {n : Nat} {form : Value}
    (hs : s.Entrusts hidden context) (hform : form.Known hidden s) :
    Discreet hidden (Value.Known hidden) s (Template.fill ev context n form s) := by
  refine .read_bind ?_
  cases Template.operand? s .splice form with
  | some operand => exact misplacedSplice form hs.withholds
  | none => exact expand hev hs hform

/-! ## Special forms -/

theorem bindVariable {arguments : Value} (hs : s.Entrusts hidden context)
    (harguments : arguments.Known hidden s) :
    Discreet hidden (Value.Known hidden) s (SpecialForm.bindVariable ev context arguments s) := by
  refine .read_bind ?_
  cases s.first arguments with
  | symbol x =>
    refine .read_bind ?_
    split
    · exact .read_bind (.fail _ hs.withholds)
    · have hbind : ∀ v t, Spared hidden s t → v.Known hidden t →
          Discreet hidden (Value.Known hidden) t
            ((do EvalM.update fun s => s.bind x v; Pure.pure v : EvalM Value) t) := by
        intro v t ht hv
        have hbound := ht.withholds.bindIn t.currentScope x hv
        exact .ok hbound (hbound.known hv)
      refine .read_bind ?_
      cases hform : s.elementAt? arguments 1 with
      | none => exact (Discreet.pure hs.withholds nofun).bind hbind
      | some form =>
        exact (Discreet.form hev hs (hs.withholds.elementAt? harguments hform)).bind hbind
  | _ => exact failing hs.withholds

theorem scope {forms : Value} (hs : s.Entrusts hidden context) (hforms : forms.Known hidden s) :
    Discreet hidden (Value.Known hidden) s (SpecialForm.scope ev context forms s) := by
  have hfresh := hs.withholds.allocScope
  refine .trans hfresh (inScope lasting_known hfresh.withholds (fun t ht => ?_) _)
  have hboth := hfresh.trans ht
  exact body hev (hs.after hboth) (hboth.known hforms)

theorem choose {arguments : Value} (hs : s.Entrusts hidden context)
    (harguments : arguments.Known hidden s) :
    Discreet hidden (Value.Known hidden) s (SpecialForm.choose ev context arguments s) := by
  refine .read_bind ?_
  refine (form hev hs (hs.withholds.first harguments)).bind fun v t ht _ => ?_
  have hst := hs.after ht
  have harguments := ht.known harguments
  split
  · exact .read_bind (form hev hst (ht.withholds.second harguments))
  · refine .read_bind ?_
    cases hform : t.third? arguments with
    | none => exact .pure ht.withholds nofun
    | some item => exact form hev hst (ht.withholds.elementAt? harguments hform)

theorem conjunction {arguments : Value} (hs : s.Entrusts hidden context)
    (harguments : arguments.Known hidden s) :
    Discreet hidden (Value.Known hidden) s (SpecialForm.conjunction ev context arguments s) :=
  forEachForm hev (fun v _ => if v.isNil then .done v else .yield v) hs harguments nofun
    fun v _ _ hv => by split <;> exact hv

theorem disjunction {arguments : Value} (hs : s.Entrusts hidden context)
    (harguments : arguments.Known hidden s) :
    Discreet hidden (Value.Known hidden) s (SpecialForm.disjunction ev context arguments s) :=
  forEachForm hev (fun v _ => if v.isTrue then .done v else .yield .nil) hs harguments nofun
    fun v _ _ hv => by
      split
      · exact hv
      · exact nofun

theorem passes {test forms last : Value} {n : Nat} (hs : s.Entrusts hidden context)
    (htest : test.Known hidden s) (hforms : forms.Known hidden s) (hlast : last.Known hidden s) :
    Discreet hidden (Value.Known hidden) s (SpecialForm.passes ev context test forms n last s) := by
  induction n generalizing s last with
  | zero => exact .spent hs.withholds
  | succ n ih =>
    refine (form hev hs htest).bind fun v t ht _ => ?_
    split
    · refine (body hev (hs.after ht) (ht.known hforms)).bind fun result u hu hresult => ?_
      have hboth := ht.trans hu
      exact ih (hs.after hboth) (hboth.known htest) (hboth.known hforms) hresult
    · exact .pure ht.withholds (ht.known hlast)

omit hev in
theorem landBreak {act : EvalM Value} {depth : Nat}
    (h : Discreet hidden (Value.Known hidden) s (act s)) :
    Discreet hidden (Value.Known hidden) s (SpecialForm.landBreak depth act s) := by
  unfold SpecialForm.landBreak
  generalize act s = r at h
  cases h with
  | ok after hgood => exact .ok after hgood
  | @error flow t after hflow =>
    cases flow with
    | signal σ =>
      cases σ with
      | breaking target =>
        dsimp only
        split
        · exact .ok after nofun
        · exact .error after hflow
      | _ => exact .error after hflow
    | _ => exact .error after hflow

theorem loop {n : Nat} {arguments : Value} (hs : s.Entrusts hidden context)
    (harguments : arguments.Known hidden s) :
    Discreet hidden (Value.Known hidden) s (SpecialForm.loop ev context n arguments s) := by
  refine .read_bind <| .read_bind <| inFrame lasting_known hs.withholds (fun t ht => ?_) .loop
  refine .read_bind (landBreak ?_)
  exact passes hev (hs.after ht) (ht.known (hs.withholds.first harguments))
    (ht.known (hs.withholds.rest harguments)) nofun

omit hev in
theorem landThrow {act : EvalM Value} {depth : Nat}
    (h : Discreet hidden (Value.Known hidden) s (act s)) :
    Discreet hidden (SpecialForm.Protected.Known hidden) s
      (SpecialForm.landThrow depth act s) := by
  unfold SpecialForm.landThrow
  generalize act s = r at h
  cases h with
  | ok after hgood => exact .ok after hgood
  | @error flow t after hflow =>
    cases flow with
    | signal σ =>
      cases σ with
      | throwing text target =>
        dsimp only
        split
        · exact .ok after trivial
        · exact .error after hflow
      | _ => exact .error after hflow
    | _ => exact .error after hflow

theorem attempt {protectedForm handler : Value} (hs : s.Entrusts hidden context)
    (hform : protectedForm.Known hidden s) (hhandler : handler.Known hidden s) :
    Discreet hidden (Value.Known hidden) s
      (SpecialForm.attempt ev context protectedForm handler s) := by
  have hlasting : Lasting hidden (SpecialForm.Protected.Known hidden) := by
    intro u u' outcome hu hp
    cases outcome with
    | finished v => exact hu.known hp
    | caught text => trivial
  have hprotected : Discreet hidden (SpecialForm.Protected.Known hidden) s
      (EvalM.inFrame .guarded (do
        let depth ← EvalM.read fun s => s.depths.get .guarded
        SpecialForm.landThrow depth ((ev context).form protectedForm)) s) := by
    refine inFrame hlasting hs.withholds (fun t ht => ?_) .guarded
    exact .read_bind (landThrow (form hev (hs.after ht) (ht.known hform)))
  refine hprotected.bind fun outcome t ht houtcome => ?_
  cases outcome with
  | finished v => exact .pure ht.withholds houtcome
  | caught text =>
    refine (form hev (hs.after ht) (ht.known hhandler)).bind fun f u hu hf => ?_
    have hcall : ∀ v ∈ [f, .string text], v.Known hidden u :=
      List.forall_mem_cons.mpr ⟨hf, List.forall_mem_singleton.mpr nofun⟩
    exact (list hu.withholds hcall).bind fun call u' hu' hcall =>
      form hev ((hs.after ht).after (hu.trans hu')) hcall

omit hev in
/-- The action that follows an ending leaves it as it is, or fails in its place. -/
theorem followedBy {act after : EvalM Value} (h : Discreet hidden (Value.Known hidden) s (act s))
    (hafter : ∀ t, Spared hidden s t → Discreet hidden (Value.Known hidden) t (after t)) :
    Discreet hidden (Value.Known hidden) s (SpecialForm.followedBy act after s) := by
  have hthen : ∀ {keep : Interp → EStateM.Result Flow Interp Value} {t}, Spared hidden s t →
      (∀ u, Spared hidden t u → Discreet hidden (Value.Known hidden) s (keep u)) →
      Discreet hidden (Value.Known hidden) s (following keep (after t)) := by
    intro keep t ht hkeep
    have hrun := hafter t ht
    generalize after t = r at hrun
    cases hrun with
    | ok hu _ => exact hkeep _ hu
    | error hu hflow => exact .error (ht.trans hu) hflow
  unfold SpecialForm.followedBy
  generalize act s = r at h
  cases h with
  | ok ht hv => exact hthen ht fun u hu => .ok (ht.trans hu) (hu.known hv)
  | @error flow t ht hflow =>
    cases flow with
    | aborted why => exact .error ht hflow
    | fault cause => exact hthen ht fun u hu => .error (ht.trans hu) trivial
    | signal σ =>
      refine hthen ht fun u hu => .error (ht.trans hu) ?_
      cases σ with
      | returning v depth => exact hu.known hflow
      | _ => trivial

theorem guarded {arguments : Value} (hs : s.Entrusts hidden context)
    (harguments : arguments.Known hidden s) :
    Discreet hidden (Value.Known hidden) s (SpecialForm.guarded ev context arguments s) := by
  have hattempt := attempt hev hs (hs.withholds.first harguments) (hs.withholds.second harguments)
  refine .read_bind <| .read_bind <| .read_bind ?_
  cases halways : s.third? arguments with
  | none => exact hattempt
  | some always =>
    refine followedBy hattempt fun t ht => form hev (hs.after ht) ?_
    exact ht.known (hs.withholds.elementAt? harguments halways)

end Evaluator

end Discreet

end SmallLisp
