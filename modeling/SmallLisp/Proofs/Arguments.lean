import SmallLisp.Proofs.Chains

/-!
# Argument lists

A function can be called on a proper list of at least as many elements as it needs. Evaluating
forms gives a fresh list of as many values, and a list that a function can be called on stays one
whatever runs meanwhile.

Where no parameter of a closure is reserved, as in every state of a session, a frame of a closure
finds a cell for each parameter and binds it. So neither fault of `Closure.bindParameters` occurs.
-/

namespace SmallLisp

variable {s u : Interp} {v arguments : Value} {f : Callable}

/-- A proper list with an element for every argument that a function needs. -/
structure Interp.Supplies (s : Interp) (f : Callable) (arguments : Value) : Prop where
  proper : s.isProper arguments = true
  enough : f.minArgs ≤ s.lengthOf arguments

/-! ## Lists that grow with the store -/

theorem Spine.isProper_lengthOf {ids : List CellId} (h : Spine s v ids .nil) :
    s.isProper v = true ∧ s.lengthOf v = ids.length := by
  unfold Interp.isProper Interp.tailOf Interp.lengthOf Interp.cellsOf
  rw [h.spine_eq]
  exact ⟨rfl, rfl⟩

/-- In a live state all cells of a list exist, the last one too. -/
theorem Spine.live {ids : List CellId} {tail : Value} (h : Spine s v ids tail) (hs : s.Live)
    (hv : v.Live s) : ∀ id ∈ ids, id.index < s.cells.size := by
  induction h with
  | atom _ => exact nofun
  | @cell head ids tail _ ih =>
    intro id hid
    rcases List.mem_cons.mp hid with rfl | hid
    · exact hv
    · exact ih (hs.cdr head) id hid

/-- Enough elements of a proper list supply a function. -/
theorem ProperList.supplies {items : List Value} (h : ProperList s arguments items)
    (henough : f.minArgs ≤ items.length) : s.Supplies f arguments := by
  obtain ⟨hproper, helements⟩ := ProperList.iff_isProper.mp h
  have hlength : (s.elementsOf arguments).length = s.lengthOf arguments := List.length_map _
  rw [helements] at hlength
  exact ⟨hproper, hlength ▸ henough⟩

namespace Interp.Supplies

/-- What can be called on stays so, since no second half of a cell changes. -/
theorem extend (h : s.Supplies f arguments) (hs : s.Live) (hlive : arguments.Live s)
    (hext : Extends s u) : u.Supplies f arguments := by
  obtain ⟨ids, hspine, -⟩ := ProperList.iff_spine.mp (ProperList.iff_isProper.mpr ⟨h.proper, rfl⟩)
  obtain ⟨hlength, hproper⟩ := hext.keepsSpines.length _ _ _ hspine (hspine.live hs hlive)
  exact ⟨hproper.trans h.proper, hlength ▸ h.enough⟩

end Interp.Supplies

/-- Each new cell stands in front of the list so far, whose cells are all there by then. -/
theorem Interp.consReversed_spine (items : List Value) {tail : Value} {ids : List CellId}
    (hspine : Spine s tail ids .nil) (hids : ∀ id ∈ ids, id.index < s.cells.size) :
    ∃ ids', Spine (s.consReversed items tail).2 (s.consReversed items tail).1 ids' .nil ∧
      ids'.length = items.length + ids.length := by
  induction items generalizing s tail ids with
  | nil => exact ⟨ids, hspine, (Nat.zero_add _).symm⟩
  | cons item items ih =>
    let new : CellId := ⟨s.cells.size⟩
    let t : Interp := (s.allocCell item tail).2
    have hsize : t.cells.size = s.cells.size + 1 := Array.size_push _
    have hcdr : t.cdr new = tail := by
      have hcell := s.cell_allocCell item tail new
      rw [if_pos rfl] at hcell
      exact congrArg Cell.cdr hcell
    have hnew : Spine t (.cons new) (new :: ids) .nil := by
      refine .cell ?_
      rw [hcdr]
      exact hspine.extend (.of_grown (grown_allocCell s item tail)) hids
    have hthere : ∀ id ∈ new :: ids, id.index < t.cells.size := by
      intro id hid
      rw [hsize]
      rcases List.mem_cons.mp hid with rfl | hid
      · exact Nat.lt_succ_self _
      · exact Nat.lt_succ_of_lt (hids id hid)
    obtain ⟨ids', hspine', hlength⟩ := ih hnew hthere
    refine ⟨ids', hspine', ?_⟩
    rw [hlength, List.length_cons, List.length_cons]
    omega

namespace Evaluator

/-- The test before a call finds out whether the arguments supply the function. -/
theorem fit_cases (s : Interp) (id : FunctionId) (arguments : Value) :
    (s.Supplies (s.callable id) arguments ∧ fit s id arguments = .fits (s.callable id)) ∨
    (¬ s.Supplies (s.callable id) arguments ∧ (fit s id arguments = .dotted ∨
      ∃ expected got, fit s id arguments = .short expected got)) := by
  have hfit : fit s id arguments =
      if !s.isProper arguments then .dotted
      else if s.lengthOf arguments < (s.callable id).minArgs then
        .short (s.callable id).minArgs (s.lengthOf arguments)
      else .fits (s.callable id) := rfl
  rw [hfit]
  cases hproper : s.isProper arguments with
  | false =>
    refine .inr ⟨fun h => ?_, .inl rfl⟩
    rw [h.proper] at hproper
    cases hproper
  | true =>
    by_cases hshort : s.lengthOf arguments < (s.callable id).minArgs
    · rw [if_neg (by decide), if_pos hshort]
      exact .inr ⟨fun h => Nat.not_le_of_lt hshort h.enough, .inr ⟨_, _, rfl⟩⟩
    · rw [if_neg (by decide), if_neg hshort]
      exact .inl ⟨⟨hproper, Nat.le_of_not_lt hshort⟩, rfl⟩

theorem fit_of_supplies {id : FunctionId} (h : s.Supplies (s.callable id) arguments) :
    fit s id arguments = .fits (s.callable id) := by
  rcases fit_cases s id arguments with ⟨-, hfits⟩ | ⟨hnot, -⟩
  · exact hfits
  · exact absurd h hnot

end Evaluator

/-! ## Parameters -/

/-- The state is live, and no parameter of a closure is reserved. -/
structure Interp.Orderly (s : Interp) : Prop where
  live : s.Live
  parameters : ∀ f c, (s.callable f).closure? = some c →
    ∀ x ∈ c.parameters, (s.symbol x).reserved = false

theorem Callable.LiveUnder.closure {hosted : Prop} {c : Closure} (hf : f.LiveUnder hosted s)
    (h : f.closure? = some c) : c.Live s := by
  cases f with
  | lambda c' =>
    cases h
    exact hf
  | expander c' =>
    cases h
    exact hf
  | _ => cases h

namespace Interp.Orderly

/-- A symbol does not become reserved, so parameters may be bound from then on. -/
theorem unreserved (h : s.Orderly) (hext : Extends s u) {id : FunctionId} {c : Closure}
    (hc : (s.callable id).closure? = some c) :
    ∀ x ∈ c.parameters, (u.symbol x).reserved = false := by
  intro x hx
  have hlive : x.Live s := ((h.live.callable id).closure hc).parameters x hx
  rw [hext.symbol x hlive]
  exact h.parameters id c hc x hx

theorem change {c : Change} (h : s.Orderly) (hc : c.Sound s) : (c.apply s).Orderly where
  live := Change.live h.live hc
  parameters := by
    intro f closure hclosure
    rcases Change.closure_apply hclosure with hold | ⟨-, expands, arguments, rfl⟩
    · exact h.unreserved (c.extended s) hold
    · intro x hx
      obtain ⟨hlive, hfree⟩ := hc x hx
      rw [(Change.extended s _).symbol x hlive]
      exact hfree

theorem withFrames (h : s.Orderly) (chain : List ScopeId) (depths : Depths) (active : Nat) :
    (s.withFrames chain depths active).Orderly :=
  ⟨h.live.withFrames chain depths active, h.parameters⟩

end Interp.Orderly

theorem Interp.orderly_initial (limit : Nat) : (initial limit).Orderly := by
  refine ⟨live_initial limit, fun f c hc => ?_⟩
  rw [closure?_initial] at hc
  cases hc

theorem Session.orderly (h : Session (fun _ => True) s u) (hs : s.Orderly) : u.Orderly :=
  (h.sound hs.live).preserves (fun _ _ hc ht => ht.change hc)
    (fun _ chain depths active ht => ht.withFrames chain depths active) hs

/-! ## Frames -/

/-- The state in which a frame of a closure that is called in `s` binds its parameters. -/
def Interp.entering (s : Interp) (c : Closure) : Interp :=
  let inner := ((s.allocScope .empty).2.pushScope c.captured).pushScope ⟨s.scopes.size⟩
  { inner with depths := inner.depths.enter .call }

/-- A frame begins in that state, and when it ends its layers are left one after the other. -/
theorem Closure.run_eq (ev : Evaluators) (context : Value) (c : Closure) (arguments : Value)
    (this : Option Value) (s : Interp) :
    c.run ev context arguments this s =
      leaving Interp.popScope (leaving Interp.popScope
        (leaving (fun u => { u with depths := u.depths.leave .call })
          (Closure.runBody ev context c arguments this (s.entering c)))) :=
  rfl

/-- Lists are made of cells only. -/
theorem ProperList.of_cells {items : List Value} (h : ProperList s v items)
    (hcells : u.cells = s.cells) : ProperList u v items := by
  have hcell : u.cell = s.cell := by
    unfold Interp.cell
    rw [hcells]
  induction h with
  | nil => exact .nil
  | @cell id items _ ih =>
    have hcar : u.car id = s.car id := by simp only [Interp.car, hcell]
    have hcdr : u.cdr id = s.cdr id := by simp only [Interp.cdr, hcell]
    rw [← hcar]
    refine .cell ?_
    rw [hcdr]
    exact ih

/-- Parameters that are not reserved are bound, if there is an argument for each of them. -/
theorem Closure.bindParameters_ok {total bound : Nat} {xs : List SymbolId} {items : List Value}
    (hxs : ∀ x ∈ xs, (s.symbol x).reserved = false) (hitems : ProperList s arguments items)
    (hlength : xs.length ≤ items.length) :
    ∃ left u, bindParameters total bound xs arguments s = .ok left u := by
  induction xs generalizing s bound arguments items with
  | nil => exact ⟨arguments, s, rfl⟩
  | cons x rest ih =>
    have hx : ¬ (s.symbol x).reserved = true := by simp [hxs x List.mem_cons_self]
    cases hitems with
    | nil => cases hlength
    | @cell id items hrest =>
      unfold bindParameters
      rw [if_neg hx]
      -- a binding changes scopes only
      refine ih (fun y hy => hxs y (List.mem_cons_of_mem _ hy)) (hrest.of_cells rfl) ?_
      exact Nat.le_of_succ_le_succ hlength

/-- A frame of a closure of an orderly state binds its parameters to arguments that supply it. -/
theorem Interp.Orderly.binds (h : s.Orderly) (hext : Extends s u) {id : FunctionId} {c : Closure}
    (hc : (s.callable id).closure? = some c) (hsupplies : u.Supplies (s.callable id) arguments) :
    ∃ left t, Closure.bindParameters c.parameters.length 0 c.parameters arguments (u.entering c) =
      .ok left t := by
  have hneeds : (s.callable id).minArgs = c.parameters.length := by
    cases hf : s.callable id with
    | lambda c' | expander c' =>
      rw [hf] at hc
      cases hc
      rfl
    | _ =>
      rw [hf] at hc
      cases hc
  have hitems : ProperList u arguments (u.elementsOf arguments) :=
    ProperList.iff_isProper.mpr ⟨hsupplies.proper, rfl⟩
  refine Closure.bindParameters_ok (h.unreserved hext hc) (hitems.of_cells rfl) ?_
  have henough := hsupplies.enough
  rw [hneeds] at henough
  unfold Interp.elementsOf
  rw [List.length_map]
  exact henough

end SmallLisp
