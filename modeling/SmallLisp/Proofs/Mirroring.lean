import SmallLisp.Proofs.Mirrors
import SmallLisp.Proofs.TrackedRuns

/-!
# Two runs side by side

`Mirrored` relates the results of two runs from the sides of a mirror: they lead to a mirror again,
and end with counterparts. There is one rule for each way in which actions are put together, and an
action that evaluates nothing is mirrored because it is tracked under every relocation.
-/

namespace SmallLisp

variable {α β α' β' : Type} {m n o : Mirror} {s t : Interp}

/-- What is active, the limit, and that no symbol reads as a cell, is kept. -/
structure Interp.Steady (s u : Interp) : Prop where
  active : u.active = s.active
  limit : u.limit = s.limit
  readsNoCell : s.ReadsNoCell → u.ReadsNoCell

/-! ## Changes that no symbol reads -/

/-- No change gives a symbol another value of its own, and new symbols have none. -/
theorem Change.symbols_apply (s : Interp) (c : Change) :
    s.symbols.Grows (fun x => x.selfValue = none) (c.apply s).symbols := by
  let Kept (u : Interp) : Prop := s.symbols.Grows (fun x => x.selfValue = none) u.symbols
  have hsame : Kept s := .refl s.symbols
  have hpush : ∀ x : Symbol, x.selfValue = none →
      s.symbols.Grows (fun x => x.selfValue = none) (s.symbols.push x) :=
    fun _ hx => .push hx s.symbols
  have hintern : ∀ {u id name} {x : SymbolId}, s.internIn id name = .ok (x, u) → Kept u := by
    intro u id name x h
    rcases Interp.internIn_cases h with ⟨-, rfl⟩ | ⟨-, -, -, rfl⟩
    · exact hsame
    · refine hpush _ ?_
      unfold Namespace.newSymbol
      split <;> rfl
  cases c
  case store v place => cases place <;> exact hsame
  case generate => exact hpush _ rfl
  case keyword name =>
    refine Interp.resultOf_induction (motive := Kept) hsame fun x u h => ?_
    rcases Interp.internKeyword_cases h with ⟨-, rfl⟩ | ⟨t, -, ht, rfl⟩
    · exact hsame
    · exact (hintern ht : Kept t)
  case intern id name =>
    exact Interp.resultOf_induction (motive := Kept) hsame fun x u h => hintern h
  case create arguments =>
    refine Interp.resultOf_induction (motive := Kept) hsame fun id u h => ?_
    obtain ⟨name, es, symbols, -, -, hgrows, -, rfl⟩ := NamespaceForm.create_cases h
    exact hgrows.mono fun _ hx => hx.selfValue
  case select name =>
    refine Interp.resultOf_induction (motive := Kept) hsame fun id u h => ?_
    obtain ⟨-, rfl⟩ := Interp.changeNamespace_cases h
    exact hsame
  case use name =>
    refine Interp.resultOf_induction (motive := Kept) hsame fun id u h => ?_
    rcases Interp.useNamed_cases h with ⟨-, rfl⟩ | ⟨-, rfl⟩ <;> exact hsame
  all_goals exact hsame

theorem Interp.ReadsNoCell.change (hs : s.ReadsNoCell) (c : Change) : (c.apply s).ReadsNoCell := by
  intro x hx id
  rcases (c.symbols_apply s).mem hx with hold | hnone
  · exact hs x hold id
  · rw [hnone]
    exact nofun

theorem Change.steady (s : Interp) (c : Change) : s.Steady (c.apply s) :=
  ⟨(c.outside_apply s).2.1, (c.outside_apply s).2.2, fun h => h.change c⟩

/-- A state beside itself, as long as its counter and its limit stay. -/
abbrev Interp.itself (s : Interp) : Pairing :=
  .limited False (fun _ => True) s.limit s.limit s.active

theorem Interp.itself_rel (s : Interp) : s.itself.rel s s := ⟨rfl, rfl, rfl, fun _ _ => trivial⟩

/-- A run that leads from a state beside itself to a state beside itself is steady. -/
theorem Pairing.Led.steady {act : EvalM α} {known : Interp → α → Prop}
    (h : s.itself.Led known s (act s) (act s)) : s.Steady (act.final s) := by
  have hafter : ∀ {u w}, s.itself.After s u w → s.Steady u := fun hu =>
    ⟨hu.rel.2.2.1, hu.rel.2.1, hu.trace.preserves (fun _ c _ h => h.change c) fun _ _ _ _ h => h⟩
  unfold EvalM.final
  generalize act s = res at h
  cases h with
  | ok after _ => exact hafter after
  | error after _ => exact hafter after
  | givenUp hgivenUp => exact hgivenUp.elim

/-- Run in `s`, the action refers only to cells that are there, and is steady. -/
structure EvalM.Modest (known : Interp → α → Prop) (act : EvalM α) (s : Interp) : Prop where
  discreet : SmallLisp.Discreet (fun _ => False) known s (act s)
  steady : s.Steady (act.final s)

/-! ## Results -/

/-- The results of two runs that lead from one mirror to another one. What the runs end with is
`good`, or it is one flow with the value that it carries relocated. -/
inductive Mirrored (good : Mirror → α → α' → Prop) (m : Mirror) :
    EStateM.Result Flow Interp α → EStateM.Result Flow Interp α' → Prop
  | ok {n : Mirror} {a : α} {a' : α'} (after : m.Leads n) (faithful : n.Faithful)
      (hgood : good n a a') : Mirrored good m (.ok a n.left) (.ok a' n.right)
  | error {n : Mirror} {flow : Flow} (after : m.Leads n) (faithful : n.Faithful)
      (hflow : flow.Known (fun _ => False) n.left) :
      Mirrored good m (.error flow n.left) (.error (flow.relocate n.relocation) n.right)

/-- What is good stays good as runs go on. -/
def Mirror.Lasting (good : Mirror → α → α' → Prop) : Prop :=
  ∀ m n a a', Mirror.Leads m n → good m a a' → good n a a'

theorem Mirror.lasting_placed : Lasting Value.Placed := fun _ _ _ _ h hv => h.placed hv

/-- The flow of an error as runs go on. -/
theorem Flow.Known.relocate_eq {flow : Flow} (hflow : flow.Known (fun _ => False) m.left)
    (h : m.Leads n) : flow.relocate n.relocation = flow.relocate m.relocation := by
  cases flow with
  | signal σ =>
    cases σ with
    | returning v depth =>
      exact congrArg (fun v => Flow.signal (.returning v depth))
        (Value.Known.relocate_eq hflow h.kept)
    | _ => rfl
  | _ => rfl

namespace Mirrored

variable {good good₁ : Mirror → α → α' → Prop} {good' : Mirror → β → β' → Prop}

theorem pure {a : α} {a' : α'} (hm : m.Faithful) (ha : good m a a') :
    Mirrored good m ((Pure.pure a : EvalM α) m.left) ((Pure.pure a' : EvalM α') m.right) :=
  .ok (.refl m) hm ha

theorem fail (cause : Fault) (hm : m.Faithful) :
    Mirrored good m ((EvalM.fail cause : EvalM α) m.left)
      ((EvalM.fail cause : EvalM α') m.right) :=
  show Mirrored good m (.error (.fault cause) m.left)
    (.error (Flow.relocate m.relocation (.fault cause)) m.right) from .error (.refl m) hm trivial

theorem spent (hm : m.Faithful) :
    Mirrored good m ((throw .spent : EvalM α) m.left) ((throw .spent : EvalM α') m.right) :=
  show Mirrored good m (.error .spent m.left)
    (.error (Flow.relocate m.relocation .spent) m.right) from .error (.refl m) hm trivial

theorem mono {res : EStateM.Result Flow Interp α} {res' : EStateM.Result Flow Interp α'}
    (h : Mirrored good m res res') (hgood : ∀ n a a', good n a a' → good₁ n a a') :
    Mirrored good₁ m res res' := by
  cases h with
  | ok after faithful h => exact .ok after faithful (hgood _ _ _ h)
  | error after faithful hflow => exact .error after faithful hflow

/-- Runs that go on from a later mirror. -/
theorem since {res : EStateM.Result Flow Interp α} {res' : EStateM.Result Flow Interp α'}
    (h : m.Leads n) (hres : Mirrored good n res res') :
    Mirrored (fun o a a' => n.Leads o ∧ good o a a') m res res' := by
  cases hres with
  | ok after faithful hgood => exact .ok (h.trans after) faithful ⟨after, hgood⟩
  | error after faithful hflow => exact .error (h.trans after) faithful hflow

theorem trans {res : EStateM.Result Flow Interp α} {res' : EStateM.Result Flow Interp α'}
    (h : m.Leads n) (hres : Mirrored good n res res') : Mirrored good m res res' :=
  (since h hres).mono fun _ _ _ => And.right

/-- What follows is told from `m` on, wherever the first runs began. -/
theorem bind_from {act : EvalM α} {act' : EvalM α'} {next : α → EvalM β} {next' : α' → EvalM β'}
    (h : Mirrored good m (act s) (act' t))
    (hnext : ∀ n a a', m.Leads n → n.Faithful → good n a a' →
      Mirrored good' m (next a n.left) (next' a' n.right)) :
    Mirrored good' m ((act >>= next) s) ((act' >>= next') t) := by
  change Mirrored good' m (EStateM.bind act next s) (EStateM.bind act' next' t)
  unfold EStateM.bind
  generalize act s = res at h
  generalize act' t = res' at h
  cases h with
  | ok after faithful hgood => exact hnext _ _ _ after faithful hgood
  | error after faithful hflow => exact .error after faithful hflow

theorem bind {act : EvalM α} {act' : EvalM α'} {next : α → EvalM β} {next' : α' → EvalM β'}
    (h : Mirrored good m (act m.left) (act' m.right))
    (hnext : ∀ n a a', m.Leads n → n.Faithful → good n a a' →
      Mirrored good' n (next a n.left) (next' a' n.right)) :
    Mirrored good' m ((act >>= next) m.left) ((act' >>= next') m.right) :=
  bind_from h fun n a a' hn faithful ha => trans hn (hnext n a a' hn faithful ha)

theorem read_bind {f : Interp → α} {f' : Interp → α'} {next : α → EvalM β} {next' : α' → EvalM β'}
    (h : Mirrored good' n (next (f s) s) (next' (f' t) t)) :
    Mirrored good' n ((EvalM.read f >>= next) s) ((EvalM.read f' >>= next') t) :=
  h

/-- A fault whose text is read off both states. -/
theorem failing {f f' : Interp → String} {cause : String → Fault} (hm : m.Faithful)
    (hf : f' m.right = f m.left) :
    Mirrored good m
      ((EvalM.read f >>= fun text => (EvalM.fail (cause text) : EvalM α)) m.left)
      ((EvalM.read f' >>= fun text => (EvalM.fail (cause text) : EvalM α')) m.right) := by
  refine read_bind ?_
  rw [hf]
  exact fail _ hm

/-! ### Frames -/

theorem leave {res : EStateM.Result Flow Interp α} {res' : EStateM.Result Flow Interp α'}
    (hgood : Mirror.Lasting good) (f : FrameChange) (h : m.Leads n)
    (hres : Mirrored good n res res') :
    Mirrored good m (leaving f.apply res) (leaving f.apply res') := by
  cases hres with
  | @ok o a a' after faithful ho =>
    exact .ok (n := o.framed f) ((h.trans after).trans (.framed f o)) (faithful.framed f)
      (hgood _ _ _ _ (.framed f o) ho)
  | @error o flow after faithful hflow =>
    refine .error (n := o.framed f) ((h.trans after).trans (.framed f o)) (faithful.framed f) ?_
    cases flow with
    | signal σ =>
      cases σ with
      | returning v depth => exact Value.Known.mono hflow (Mirror.Leads.framed f o).left
      | _ => trivial
    | _ => trivial

section Frames

variable {act : EvalM α} {act' : EvalM α'} (hgood : Mirror.Lasting good) (hm : m.Faithful)
  (hact : ∀ n, m.Leads n → n.Faithful → Mirrored good n (act n.left) (act' n.right))

include hgood hm hact

/-- Whatever is entered and left, it is the same on both sides. -/
theorem framed (enter restore : FrameChange) :
    Mirrored good m (leaving restore.apply (act (enter.apply m.left)))
      (leaving restore.apply (act' (enter.apply m.right))) :=
  leave hgood restore (.framed enter m) (hact _ (.framed enter m) (hm.framed enter))

theorem inScope (id : ScopeId) :
    Mirrored good m (EvalM.inScope id act m.left) (EvalM.inScope id act' m.right) :=
  framed hgood hm hact ⟨(id :: ·), fun d => d, fun k => k⟩ ⟨List.tail, fun d => d, fun k => k⟩

theorem inFrame (key : DepthKey) :
    Mirrored good m (EvalM.inFrame key act m.left) (EvalM.inFrame key act' m.right) :=
  framed hgood hm hact ⟨fun ids => ids, (·.enter key), fun k => k⟩
    ⟨fun ids => ids, (·.leave key), fun k => k⟩

theorem withinLimit :
    Mirrored good m (EvalM.withinLimit act m.left) (EvalM.withinLimit act' m.right) := by
  rw [EvalM.withinLimit_apply, EvalM.withinLimit_apply, hm.limit, hm.active]
  split
  · exact fail _ hm
  · exact framed hgood hm hact ⟨fun ids => ids, fun d => d, (· + 1)⟩
      ⟨fun ids => ids, fun d => d, (· - 1)⟩

end Frames

/-! ### Actions that evaluate nothing -/

/-- What is tracked under the relocation as it is, and modest on both sides, leads to a mirror with
the same relocation. -/
theorem of_tracks {act act' : EvalM α} {move : α → α} {known : Interp → α → Prop}
    (hm : m.Faithful) (h : Tracks m.relocation move act act') (hleft : act.Modest known m.left)
    (hright : act'.Modest known m.right) :
    Mirrored (fun n a a' => n.relocation = m.relocation ∧ known n.left a ∧ known n.right a' ∧
      a' = move a) m (act m.left) (act' m.right) := by
  have hmoved := h _ _ hm.relocated
  obtain ⟨hleft, hsteady⟩ := hleft
  obtain ⟨hright, hsteady'⟩ := hright
  unfold EvalM.final at hsteady hsteady'
  generalize act m.left = res at hmoved hleft hsteady
  generalize act' m.right = res' at hmoved hright hsteady'
  have hfaithful : ∀ {u w}, Relocated m.relocation u w → m.left.Steady u → m.right.Steady w →
      Spared (fun _ => False) m.left u → Spared (fun _ => False) m.right w →
      m.Leads ⟨m.relocation, u, w⟩ ∧ Mirror.Faithful ⟨m.relocation, u, w⟩ := by
    intro u w huw hu hw hspared hspared'
    refine ⟨hm.relocated.leads huw hspared.size_le, huw, ?_, ?_, hu.readsNoCell hm.readsNoCell,
      hspared.withholds, hspared'.withholds⟩
    · exact hw.active.trans (hm.active.trans hu.active.symm)
    · exact hw.limit.trans (hm.limit.trans hu.limit.symm)
  cases hmoved with
  | @ok a u w huw =>
    cases hleft with
    | ok hspared hgood =>
      cases hright with
      | ok hspared' hgood' =>
        obtain ⟨hleads, hn⟩ := hfaithful huw hsteady hsteady' hspared hspared'
        exact .ok hleads hn ⟨rfl, hgood, hgood', rfl⟩
  | @error flow u w huw =>
    cases hleft with
    | error hspared hflow =>
      cases hright with
      | error hspared' _ =>
        obtain ⟨hleads, hn⟩ := hfaithful huw hsteady hsteady' hspared hspared'
        exact .error hleads hn hflow

/-- The value of such an action. -/
theorem value {act act' : EvalM Value} (hm : m.Faithful)
    (h : Tracks m.relocation (Value.relocate m.relocation) act act')
    (hleft : act.Modest (Value.Known fun _ => False) m.left)
    (hright : act'.Modest (Value.Known fun _ => False) m.right) :
    Mirrored Value.Placed m (act m.left) (act' m.right) := by
  refine (of_tracks hm h hleft hright).mono ?_
  rintro n v v' ⟨hsame, hv, hv', heq⟩
  exact ⟨hv, hv', hsame ▸ heq⟩

end Mirrored

end SmallLisp
