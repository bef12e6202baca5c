import SmallLisp.Proofs.Calls
import SmallLisp.Proofs.DepthLimit
import SmallLisp.Proofs.HostNames
import SmallLisp.Proofs.TemplateMeaning
import SmallLisp.Proofs.Wrapping

/-!
# Forms whose values are given

A function stands for itself, and a form `(QUOTE v)` for `v`, wherever evaluation has led: `QUOTE`
is reserved, so it is bound once, to the operation. A list form whose head is a function and whose
operands are quoted values therefore calls the function on a new list of these values.

Such evaluations take some fuel and count as active. `EvalM.Yields` says that an action has a result
where there is room for them, and that its fuel is spent where there is not.
-/

namespace SmallLisp

variable {s t : Interp}

/-! ## Symbols that are bound once -/

/-- A protected symbol that has no other binding than the global one to `v`. -/
structure Interp.BoundOnce (x : SymbolId) (v : Value) (s : Interp) : Prop where
  scopes : 0 < s.scopes.size
  fixed : x.Protected s
  global : (s.scope .global).find? x = some v
  only : ∀ id w, (s.scope id).find? x = some w → w = v

namespace Interp.BoundOnce

variable {x : SymbolId} {v : Value}

/-- A copy of the active scopes holds the binding or none. -/
theorem change {c : Change} (h : s.BoundOnce x v) (hc : c.Sound s) : (c.apply s).BoundOnce x v where
  scopes := Nat.lt_of_lt_of_le h.scopes (c.scopes_size_le s)
  fixed := h.fixed.mono (c.extended s)
  global := Change.global_kept hc h.scopes h.fixed h.global
  only := by
    intro id w hw
    have hleaves := c.leavesScope s id
    generalize (c.apply s).scope id = scope at hleaves hw
    cases hleaves with
    | same => exact h.only id w hw
    | new _ => cases hw
    | captured _ _ =>
      rw [find?_captured] at hw
      obtain ⟨j, -, hfound⟩ := List.exists_of_findSome?_eq_some hw
      exact h.only j w hfound
    | @bound y _ hbind =>
      subst hbind
      have hne : y ≠ x := fun heq => hc.1.not_protected (heq ▸ h.fixed)
      rw [Table.find?_insert_of_ne _ _ hne] at hw
      exact h.only id w hw
    | keyword _ =>
      have hne : ⟨s.symbols.size⟩ ≠ x := fun heq =>
        Nat.ne_of_gt h.fixed.live (congrArg SymbolId.index heq)
      rw [Table.find?_insert_of_ne _ _ hne] at hw
      exact h.only id w hw

theorem along (h : s.BoundOnce x v) (htrace : Trace (fun u c => c.Sound u) s t) :
    t.BoundOnce x v :=
  htrace.preserves (fun _ _ hc hu => hu.change hc)
    (fun _ _ _ _ hu =>
      ⟨hu.scopes, ⟨hu.fixed.reserved, hu.fixed.ne_rest, hu.fixed.ne_self⟩, hu.global, hu.only⟩) h

/-- Whatever scopes are active, the look-up finds the binding. -/
theorem lookup? (h : s.BoundOnce x v) : s.lookup? x = some v := by
  unfold Interp.lookup?
  cases hfound : s.chain.findSome? fun id => (s.scope id).find? x with
  | none => exact h.global
  | some w =>
    obtain ⟨id, -, hw⟩ := List.exists_of_findSome?_eq_some hfound
    exact congrArg some (h.only id w hw)

end Interp.BoundOnce

/-- The state with other counts of evaluations, those that are active and those that may be. -/
def Interp.counting (s : Interp) (active limit : Nat) : Interp :=
  { s with active := active, limit := limit }

/-- What a list form with quoted operands relies on. -/
structure Interp.Quoting (s : Interp) : Prop where
  live : s.Live
  quote : ∃ q, s.lookup? .quote = some (.function q) ∧ s.callable q = .primitive .quote

namespace Interp.Quoting

theorem counting (h : s.Quoting) (active limit : Nat) : (s.counting active limit).Quoting := by
  refine ⟨h.live.extend (.outside rfl rfl rfl rfl rfl rfl rfl) ?_, h.quote⟩
  constructor <;> exact fun _ h => .inl h

/-- Sound changes keep the binding of `QUOTE` from the initial state on. -/
theorem of_trace {limit : Nat} (h : Trace (fun u c => c.Sound u) (.initial limit) s) :
    s.Quoting := by
  have hentry : (SymbolId.quote, Value.function ⟨0⟩) ∈ systemScope.entries := by decide +kernel
  obtain ⟨hprotected, hglobal⟩ := Interp.protected_initial limit hentry
  have hstart : (initial limit).BoundOnce .quote (.function ⟨0⟩) := by
    refine ⟨Nat.zero_lt_one, hprotected, hglobal, fun id w hw => ?_⟩
    by_cases hid : id = .global
    · rw [hid, hglobal] at hw
      exact (Option.some.inj hw).symm
    · have houtside : (initial limit).GuardedOutside False := guarded_initial limit
      exact absurd hprotected (houtside.guarded.inside .quote ⟨id, w, hid, hw⟩)
  have hsize : 0 < (initial limit).callables.size := Nat.zero_lt_succ _
  exact ⟨h.live (fun _ _ hc => hc) (live_initial limit),
    ⟨0⟩, (hstart.along h).lookup?, h.callable_kept hsize⟩

end Interp.Quoting

/-! ## Results that take room -/

/-- With room the action has this result. Without, it has it or its fuel is spent. -/
def EvalM.Yields {α : Type} (room : Prop) (act : EvalM α) (s : Interp)
    (result : EStateM.Result Flow Interp α) : Prop :=
  act s = result ∨ ¬ room ∧ ∃ u, act s = .error .spent u

namespace EvalM.Yields

variable {α β : Type} {room : Prop} {act : EvalM α} {result : EStateM.Result Flow Interp α}

theorem of_eq (h : act s = result) : Yields room act s result := .inl h

theorem bind {next : α → EvalM β} {a : α} {result : EStateM.Result Flow Interp β}
    (h : Yields room act s (.ok a t)) (hnext : Yields room (next a) t result) :
    Yields room (act >>= next) s result := by
  rcases h with h | ⟨hroom, u, hspent⟩
  · have hbind : (act >>= next) s = next a t := (ends_ok.mpr h).bind_eq
    rcases hnext with hnext | ⟨hroom, u, hspent⟩
    · exact .inl (hbind.trans hnext)
    · exact .inr ⟨hroom, u, hbind.trans hspent⟩
  · exact .inr ⟨hroom, u, bind_error hspent⟩

theorem counted (h : Yields room act (s.withActive (s.active + 1)) result) :
    Yields room (counted act) s (leaving (fun u => u.withActive (u.active - 1)) result) := by
  rcases h with h | ⟨hroom, u, hspent⟩
  · exact .inl (congrArg (leaving _) h)
  · exact .inr ⟨hroom, u.withActive (u.active - 1), congrArg (leaving _) hspent⟩

/-- The application of a list form that is evaluated. -/
theorem named {form : Value} {act : EvalM Value} {result : EStateM.Result Flow Interp Value}
    (h : Yields room act (s.withActive (s.active + 1)) result) :
    Yields room (EvalM.counted (Evaluator.namingForm form act)) s
      (Evaluator.named form result) := by
  unfold Yields
  rw [Evaluator.counted_namingForm]
  rcases h with rfl | ⟨hroom, u, hspent⟩
  · exact .inl rfl
  · exact .inr ⟨hroom, u.withActive (u.active - 1), congrArg (Evaluator.named form) hspent⟩

end EvalM.Yields

/-! ## Evaluations without effects -/

namespace Evaluator

open EvalM (Yields)

variable {hosts : HostTable} {limit n active : Nat} {context : Value} {room : Prop}

/-- A form is evaluated with less fuel, as one more active evaluation. -/
theorem yields_nested {form : Value} {result : EStateM.Result Flow Interp Value}
    (hroom : room → 0 < n ∧ active < limit)
    (h : ∀ m, n = m + 1 → Yields room
      (EvalM.counted (evaluateActive hosts (nested hosts (throw .spent) limit m (active + 1)) m
        context form)) s result) :
    Yields room (nested hosts (throw .spent) limit n active context (.evaluate form)) s
      result := by
  cases n with
  | zero => exact .inr ⟨fun h => absurd (hroom h).1 (Nat.lt_irrefl 0), s, rfl⟩
  | succ m =>
    unfold nested
    split
    next => exact h m rfl
    next hfull => exact .inr ⟨fun h => hfull (hroom h).2, s, rfl⟩

theorem yields_function (f : FunctionId) (hroom : room → 0 < n ∧ active < limit) :
    Yields room (nested hosts (throw .spent) limit n active context (.evaluate (.function f))) s
      (.ok (.function f) s) :=
  yields_nested hroom fun _ _ => .of_eq rfl

theorem yields_symbol {x : SymbolId} {v : Value} (hlookup : s.lookup? x = some v)
    (hroom : room → 0 < n ∧ active < limit) :
    Yields room (nested hosts (throw .spent) limit n active context (.evaluate (.symbol x))) s
      (.ok v s) := by
  refine yields_nested hroom fun m _ => ?_
  have hact : Yields room
      (evaluateActive hosts (nested hosts (throw .spent) limit m (active + 1)) m context
        (.symbol x)) (s.withActive (s.active + 1)) (.ok v (s.withActive (s.active + 1))) := by
    refine .of_eq ?_
    unfold evaluateActive
    dsimp only
    rw [show (s.withActive (s.active + 1)).lookup? x = some v from hlookup]
  exact hact.counted

/-- A function at the head of a form is called on what becomes of the operands. -/
theorem yields_applyForm {evaluator : Evaluators} {cell : CellId} {id : FunctionId}
    {result : EStateM.Result Flow Interp Value}
    (hhead : Yields room ((evaluator context).form (s.car cell)) s (.ok (.function id) s))
    (hoperands : s.Supplies (s.callable id) (s.cdr cell))
    (hcall : Yields room
      (evaluator.argumentsFor context (s.callable id) (s.cdr cell) >>= fun arguments =>
        (s.callable id).call hosts evaluator n context id arguments) s result) :
    Yields room (applyForm hosts evaluator n context cell) s result := by
  rcases hhead with hhead | ⟨hroom, u, hspent⟩
  · unfold Yields
    rw [applyForm_calls hhead hoperands]
    exact hcall
  · refine .inr ⟨hroom, u, ?_⟩
    unfold applyForm
    rw [EvalM.read_bind_apply, EvalM.read_bind_apply, EvalM.bind_error hspent]

/-- A quoted value is the value of its form. -/
theorem yields_quoted {form v : Value} (hs : s.Quoting) (hform : Template.Tagged s .quote form v)
    (hroom : room → 2 ≤ n ∧ active + 1 < limit) :
    Yields room (nested hosts (throw .spent) limit n active context (.evaluate form)) s
      (.ok v s) := by
  obtain ⟨id, rest, rfl, hhead, hoperands, hv, hnil⟩ := Template.tagged_iff.mp hform
  refine yields_nested (fun h => ⟨by have := hroom h; omega, Nat.lt_of_succ_lt (hroom h).2⟩) ?_
  intro m hm
  let u : Interp := s.counting (s.active + 1) s.limit
  obtain ⟨q, hlookup, hquote⟩ := (hs.counting (s.active + 1) s.limit).quote
  have hspine : Spine u (.cons rest) [rest] .nil := by
    have hend : Spine u (u.cdr rest) [] .nil := by
      rw [show u.cdr rest = .nil from hnil]
      exact .atom nofun
    exact .cell hend
  have hsupplies : u.Supplies (u.callable q) (u.cdr id) := by
    obtain ⟨hproper, hlength⟩ := hspine.isProper_lengthOf
    rw [show u.cdr id = .cons rest from hoperands, hquote]
    exact ⟨hproper, Nat.le_of_eq hlength.symm⟩
  have happly : Yields room (applyForm hosts
      (nested hosts (throw .spent) limit m (active + 1)) m context id) u (.ok v u) := by
    refine yields_applyForm ?_ hsupplies (.of_eq ?_)
    · rw [show u.car id = .symbol .quote from hhead]
      exact yields_symbol hlookup fun h => by have := hroom h; omega
    · rw [hquote, show u.cdr id = .cons rest from hoperands, ← hv]
      rfl
  exact happly.named

/-! ## Lists of quoted values -/

variable {ev : Evaluators}

theorem yields_walk {forms tail : Value} {ids : List CellId} {vs : List Value} {n : Nat}
    (hspine : Spine s forms ids tail) (hlength : ids.length ≤ n)
    (h : List.Forall₂ (fun form v => Yields room ((ev context).form form) s (.ok v s))
      (ids.map s.car) vs) (builder : ListBuilder) :
    Yields room (EvalM.walk (fun form (builder : ListBuilder) => do
      let v ← (ev context).form form
      pure (.yield (builder.push v))) n forms builder) s
        (.ok ⟨vs.reverse ++ builder.reversed⟩ s) := by
  induction hspine generalizing builder vs n with
  | atom hatom =>
    cases h
    rw [EvalM.walk_atom hatom]
    exact .of_eq rfl
  | @cell id ids tail _ ih =>
    obtain ⟨n, rfl⟩ : ∃ m, n = m + 1 := ⟨n - 1, by rw [List.length_cons] at hlength; omega⟩
    cases h with
    | @cons _ v _ vs hv hrest =>
      have hwalked := ih (Nat.le_of_succ_le_succ hlength) hrest (builder.push v)
      rw [List.reverse_cons, List.append_assoc]
      have hvisit : Yields room (do
          let v ← (ev context).form (s.car id)
          pure (.yield (builder.push v)) : EvalM (ForInStep ListBuilder)) s
            (.ok (.yield (builder.push v)) s) := hv.bind (.of_eq rfl)
      exact .bind (.of_eq rfl) (.bind (.of_eq rfl) (hvisit.bind hwalked))

/-- Forms that have no effect are evaluated into a list of their values. -/
theorem yields_list {forms : Value} {vs : List Value} (hproper : s.isProper forms = true)
    (h : List.Forall₂ (fun form v => Yields room ((ev context).form form) s (.ok v s))
      (s.elementsOf forms) vs) :
    Yields room (ev.list context forms) s (.ok (s.listOf vs).1 (s.listOf vs).2) := by
  obtain ⟨ids, hspine, hitems⟩ :=
    ProperList.iff_spine.mp (ProperList.iff_isProper.mpr ⟨hproper, rfl⟩)
  rw [hitems] at h
  have hlength : ids.length ≤ s.lengthOf forms := Nat.le_of_eq hspine.isProper_lengthOf.2.symm
  have hcollected := yields_walk hspine hlength h .empty
  rw [show vs.reverse ++ ListBuilder.empty.reversed = vs.reverse from List.append_nil _]
    at hcollected
  exact (EvalM.Yields.bind (.of_eq rfl) hcollected).bind (.of_eq rfl)

end Evaluator

end SmallLisp
