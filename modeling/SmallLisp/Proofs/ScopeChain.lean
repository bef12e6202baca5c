import Mathlib.Logic.Function.Iterate
import SmallLisp.SpecialForm

/-!
# The scope chain

A look-up walks outward through the active scopes. An assignment repeats the walk and writes where
it ended: into one entry of the innermost scope that binds the symbol, whatever else is on the chain
and however often the same scope is on it (`assignment_hits_one`). A closure captures the chain by
flattening it into a new scope. The new scope answers every look-up as the chain does, and from then
on neither side sees what is written to the other (`capture_faithful`).
-/

namespace SmallLisp

variable {s : Interp} {id : ScopeId} {x : SymbolId}

theorem Table.keys_insert_of_contains {κ α : Type} [DecidableEq κ] {t : Table κ α} {k : κ} (a : α)
    (h : t.contains k = true) : (t.insert k a).keys = t.keys := by
  obtain ⟨es⟩ := t
  show (insertIn k a es).map (·.1) = es.map (·.1)
  replace h : (lookupIn? k es).isSome = true := h
  induction es with
  | nil => cases h
  | cons e rest ih =>
    obtain ⟨key, b⟩ := e
    by_cases hk : key = k
    · simp [insertIn, hk]
    · simp only [lookupIn?, if_neg hk] at h
      simp [insertIn, hk, ih h]

/-! ## Writes to single scopes -/

/-- A write to one scope: `set` replaces what is bound there and does nothing otherwise. -/
inductive ScopeWrite where
  | insert (id : ScopeId) (x : SymbolId) (v : Value)
  | set (id : ScopeId) (x : SymbolId) (v : Value)

namespace ScopeWrite

def target : ScopeWrite → ScopeId
  | .insert id _ _ | .set id _ _ => id

/-- What the write makes of the bindings of its scope. -/
def on : ScopeWrite → Scope → Scope
  | .insert _ x v, bindings => bindings.insert x v
  | .set _ x v, bindings => if bindings.contains x then bindings.insert x v else bindings

def apply (s : Interp) : ScopeWrite → Interp
  | .insert id x v => s.bindIn id x v
  | .set id x v => if (s.scope id).contains x then s.bindIn id x v else s

end ScopeWrite

def Interp.afterWrites (s : Interp) (writes : List ScopeWrite) : Interp :=
  writes.foldl ScopeWrite.apply s

namespace Interp

theorem exists_of_contains (h : (s.scope id).contains x = true) : id.index < s.scopes.size :=
  lt_of_find?_scope h

theorem scope_bindIn_self (v : Value) (h : id.index < s.scopes.size) :
    (s.bindIn id x v).scope id = (s.scope id).insert x v := by
  have hsome : s.scopes[id.index]? = some s.scopes[id.index] := Array.getElem?_eq_getElem h
  simp [bindIn, scope, Array.getElem?_modify, hsome]

theorem scope_bindIn_of_ne {j : ScopeId} (v : Value) (h : j ≠ id) :
    (s.bindIn id x v).scope j = s.scope j := by
  have hindex : id.index ≠ j.index := fun e => h (by cases id; cases j; simp_all)
  simp [bindIn, scope, Array.getElem?_modify, hindex]

theorem scopes_size_bindIn (s : Interp) (id : ScopeId) (x : SymbolId) (v : Value) :
    (s.bindIn id x v).scopes.size = s.scopes.size :=
  Array.size_modify

end Interp

namespace ScopeWrite

theorem scopes_size_apply (w : ScopeWrite) (s : Interp) :
    (w.apply s).scopes.size = s.scopes.size := by
  cases w with
  | insert id x v => exact Interp.scopes_size_bindIn s id x v
  | set id x v =>
    show (if (s.scope id).contains x then s.bindIn id x v else s).scopes.size = _
    split
    · exact Interp.scopes_size_bindIn s id x v
    · rfl

/-- A write does to its target what it does to bindings, and nothing to other scopes. -/
theorem scope_apply (w : ScopeWrite) (h : id.index < s.scopes.size) :
    (w.apply s).scope id = if w.target = id then w.on (s.scope id) else s.scope id := by
  cases w with
  | insert j x v =>
    show (s.bindIn j x v).scope id = if j = id then (s.scope id).insert x v else s.scope id
    split
    next hid => rw [hid, Interp.scope_bindIn_self v h]
    next hid => rw [Interp.scope_bindIn_of_ne v (Ne.symm hid)]
  | set j x v =>
    by_cases hid : j = id
    · subst hid
      by_cases hbound : (s.scope j).contains x = true
      · simp only [apply, on, target, hbound, if_true, Interp.scope_bindIn_self v h]
      · simp only [apply, on, target, hbound, if_true, if_false, Bool.false_eq_true]
    · by_cases hbound : (s.scope j).contains x = true
      · simp only [apply, target, hbound, hid, if_true, if_false,
          Interp.scope_bindIn_of_ne v (Ne.symm hid)]
      · simp only [apply, target, hbound, hid, if_false, Bool.false_eq_true]

/-- After any sequence of writes a scope has seen those that were aimed at it. -/
theorem scope_afterWrites (writes : List ScopeWrite) (h : id.index < s.scopes.size) :
    (s.afterWrites writes).scope id =
      (writes.filter fun w => w.target = id).foldl (fun bindings w => w.on bindings)
        (s.scope id) := by
  induction writes generalizing s with
  | nil => rfl
  | cons w rest ih =>
    have hsize : id.index < (w.apply s).scopes.size := (w.scopes_size_apply s).symm ▸ h
    have hrest : (s.afterWrites (w :: rest)).scope id = _ := ih hsize
    rw [hrest, w.scope_apply h]
    by_cases htarget : w.target = id
    · rw [if_pos htarget, List.filter_cons_of_pos (by simpa using htarget), List.foldl_cons]
    · rw [if_neg htarget, List.filter_cons_of_neg (by simpa using htarget)]

end ScopeWrite

/-! ## Assignment -/

namespace Interp

/-- The state with other active scopes. -/
def onChain (s : Interp) (chain : List ScopeId) : Interp := { s with chain := chain }

theorem popScope_iterate (n : Nat) (s : Interp) :
    popScope^[n] s = s.onChain (s.chain.drop n) := by
  induction n generalizing s with
  | zero => rfl
  | succ n ih =>
    rw [Function.iterate_succ_apply, ih]
    show (s.onChain _) = _
    rw [popScope, List.drop_tail]

theorem isSome_holder? (s : Interp) (x : SymbolId) :
    (s.holder? x).isSome = (s.lookup? x).isSome := by
  rw [lookup?_eq_findSome?, holder?, Bool.eq_iff_iff, List.find?_isSome, List.findSome?_isSome_iff]
  rfl

/-- Rebinding a symbol where it is bound changes a search if it is for this symbol and used to end
in this scope. -/
theorem findSome?_bindIn (ids : List ScopeId) (v : Value) (y : SymbolId)
    (h : (s.scope id).contains x = true) :
    (ids.findSome? fun j => ((s.bindIn id x v).scope j).find? y) =
      if y = x ∧ ids.find? (fun j => (s.scope j).contains x) = some id then some v
      else ids.findSome? fun j => (s.scope j).find? y := by
  by_cases hy : y = x
  · subst hy
    induction ids with
    | nil => simp
    | cons j rest ih =>
      rw [List.findSome?_cons, find?_bindIn s id j y y v (exists_of_contains h), List.find?_cons,
        List.findSome?_cons]
      by_cases hj : id = j
      · subst hj
        simp [h]
      · have hne : ¬ j = id := fun e => hj e.symm
        unfold Table.contains at ih ⊢
        cases (s.scope j).find? y with
        | none => simpa [hj] using ih
        | some w => simp [hj, hne]
  · rw [if_neg fun hx => hy hx.1]
    have hsame : ∀ j, ((s.bindIn id x v).scope j).find? y = (s.scope j).find? y :=
      fun j => find?_bindIn_of_ne s id j v (Ne.symm hy)
    simp only [hsame]

theorem lookup?_onChain_bindIn (chain : List ScopeId) (v : Value) (y : SymbolId)
    (h : (s.scope id).contains x = true) :
    ((s.bindIn id x v).onChain chain).lookup? y =
      if y = x ∧ (s.onChain chain).holder? x = some id then some v
      else (s.onChain chain).lookup? y := by
  rw [lookup?_eq_findSome?, lookup?_eq_findSome?]
  exact findSome?_bindIn _ v y h

/-- `u` is `s` with the innermost binding of `x`, which the scope `id` holds, changed to `v`. -/
structure Assigned (s : Interp) (x : SymbolId) (v : Value) (id : ScopeId) (u : Interp) : Prop where
  /-- The walk outward meets `id` before any other scope that binds the symbol. -/
  innermost : ∃ inner outer, s.activeScopes = inner ++ id :: outer ∧
    (s.scope id).contains x = true ∧ ∀ j ∈ inner, (s.scope j).contains x = false
  /-- Nothing but scopes has changed. -/
  scopesOnly : u = { s with scopes := u.scopes }
  count : u.scopes.size = s.scopes.size
  /-- No other scope object has changed. -/
  others : ∀ j, j ≠ id → u.scope j = s.scope j
  keys : (u.scope id).keys = (s.scope id).keys
  entry : ∀ y, (u.scope id).find? y = if y = x then some v else (s.scope id).find? y
  lookup : u.lookup? x = some v
  lookups : ∀ y, y ≠ x → u.lookup? y = s.lookup? y
  /-- Whatever scopes are active, the new value is seen where `id` is the first to bind the
  symbol. -/
  chains : ∀ chain y, (u.onChain chain).lookup? y =
    if y = x ∧ (s.onChain chain).holder? x = some id then some v else (s.onChain chain).lookup? y
  /-- Scopes popped down to one that the symbol is bound in elsewhere show the value from before. -/
  popped : ∀ n, (popScope^[n] s).holder? x ≠ some id →
    (popScope^[n] u).lookup? x = (popScope^[n] s).lookup? x

theorem assigned_bindIn (v : Value) (h : s.holder? x = some id) :
    s.Assigned x v id (s.bindIn id x v) := by
  obtain ⟨hbound, inner, outer, hsplit, hinner⟩ := List.find?_eq_some_iff_append.mp h
  have hexists : id.index < s.scopes.size := exists_of_contains hbound
  have hchains := fun chain y => lookup?_onChain_bindIn (s := s) chain v y hbound
  refine ⟨⟨inner, outer, hsplit, hbound, fun j hj => ?_⟩, rfl, scopes_size_bindIn s id x v,
    fun j hj => scope_bindIn_of_ne v hj, ?_, fun y => ?_, ?_, fun y hy => ?_, hchains,
    fun n hn => ?_⟩
  · simpa using hinner j hj
  · rw [scope_bindIn_self v hexists, Table.keys_insert_of_contains v hbound]
  · rw [scope_bindIn_self v hexists, Table.find?_insert]
    simp only [eq_comm]
  · exact (hchains s.chain x).trans (if_pos ⟨rfl, h⟩)
  · exact (hchains s.chain y).trans (if_neg fun hx => hy hx.1)
  · rw [popScope_iterate] at hn
    rw [popScope_iterate, popScope_iterate]
    exact (hchains (s.chain.drop n) x).trans (if_neg fun hx => hn hx.2)

end Interp

/-- An assignment succeeds exactly if the symbol is bound. Then it has changed the innermost
binding and nothing else; otherwise nothing has changed. -/
theorem assignment_hits_one (s : Interp) (x : SymbolId) (v : Value) :
    ((∃ u, SpecialForm.assignSymbol x v s = .ok () u) ↔ (s.lookup? x).isSome = true) ∧
    (∀ u, SpecialForm.assignSymbol x v s = .ok () u → ∃ id, s.Assigned x v id u) ∧
    ∀ flow u, SpecialForm.assignSymbol x v s = .error flow u →
      flow = .fault (.unbound (.assign (s.printSymbol x))) ∧ u = s := by
  rw [← s.isSome_holder? x]
  unfold SpecialForm.assignSymbol
  cases hholder : s.holder? x with
  | none => exact ⟨⟨nofun, nofun⟩, nofun, fun flow u h => by cases h; exact ⟨rfl, rfl⟩⟩
  | some id =>
    refine ⟨⟨fun _ => rfl, fun _ => ⟨_, rfl⟩⟩, fun u h => ?_, nofun⟩
    cases h
    exact ⟨id, Interp.assigned_bindIn v hholder⟩

/-- The inner scope is on the chain twice; one entry of it changes, and the outer binding is seen
again once both are popped. -/
example :
    let s : Interp := { Interp.initial 0 with
      scopes := #[.empty, ⟨[(⟨9⟩, .string "outer")]⟩, ⟨[(⟨9⟩, .string "inner")]⟩]
      chain := [⟨2⟩, ⟨2⟩, ⟨1⟩] }
    ∃ u, SpecialForm.assignSymbol ⟨9⟩ .nil s = .ok () u ∧ u.popScope.lookup? ⟨9⟩ = some .nil ∧
      u.popScope.popScope.lookup? ⟨9⟩ = some (.string "outer") :=
  ⟨_, rfl, rfl, rfl⟩

/-! ## Capture -/

namespace Interp

/-- Capture the active scopes in a new one. -/
def capture (s : Interp) : ScopeId × Interp := s.allocScope s.captured

/-- A closure is made over the captured scopes. -/
theorem allocClosure_eq (kind : Closure → Callable) (xs : List SymbolId) (arguments : Value)
    (s : Interp) :
    SpecialForm.allocClosure kind xs arguments s =
      s.capture.2.allocCallable (kind ⟨xs, s.capture.1, s.rest arguments⟩) :=
  rfl

/-- `t` is `s` with a new scope `c` that holds what the chain of `s` binds above the global
scope. -/
structure Snapshot (s : Interp) (c : ScopeId) (t : Interp) : Prop where
  scopesOnly : t = { s with scopes := t.scopes }
  /-- The scope is a new object. -/
  fresh : c.index < t.scopes.size ∧ ∀ id : ScopeId, id.index < s.scopes.size → id ≠ c
  /-- Every other scope is as it was. -/
  kept : ∀ id, id ≠ c → t.scope id = s.scope id
  /-- The chain of the new scope and the global one answers as the chain before. -/
  alone : ∀ x, (t.onChain [c]).lookup? x = s.lookup? x
  /-- Pushed on the chain the new scope hides nothing. -/
  pushed : ∀ x, (t.pushScope c).lookup? x = s.lookup? x
  contents : ∀ x, (t.scope c).contains x = true ↔ ∃ id ∈ s.chain, (s.scope id).contains x = true
  /-- Later writes to scopes before it do not reach the new scope. -/
  isolated : ∀ writes, (t.afterWrites writes).scope c =
    (writes.filter fun w => w.target = c).foldl (fun bindings w => w.on bindings) s.captured
  /-- Later writes to the new scope reach no scope before it. -/
  unseen : ∀ writes id, id.index < s.scopes.size → (t.afterWrites writes).scope id =
    (writes.filter fun w => w.target = id).foldl (fun bindings w => w.on bindings) (s.scope id)

theorem scope_capture_self (s : Interp) : s.capture.2.scope s.capture.1 = s.captured := by
  unfold capture
  rw [scope_allocScope]
  exact if_pos rfl

theorem scope_capture_of_ne (h : id ≠ s.capture.1) : s.capture.2.scope id = s.scope id := by
  unfold capture
  rw [scope_allocScope]
  exact if_neg fun hindex => h (by cases id; cases hindex; rfl)

theorem contains_captured (s : Interp) (x : SymbolId) :
    s.captured.contains x = true ↔ ∃ id ∈ s.chain, (s.scope id).contains x = true := by
  unfold Table.contains
  rw [find?_captured, List.findSome?_isSome_iff]

/-- Where nothing is captured for a symbol, the scopes of the chain do not bind it afterwards
either, should the chain name the new scope already. -/
theorem findSome?_capture_of_none (h : s.captured.find? x = none) :
    (s.chain.findSome? fun id => (s.capture.2.scope id).find? x) = none := by
  rw [find?_captured, List.findSome?_eq_none_iff] at h
  rw [List.findSome?_eq_none_iff]
  intro id hid
  by_cases hc : id = s.capture.1
  · rw [hc, scope_capture_self, find?_captured, List.findSome?_eq_none_iff]
    exact h
  · rw [scope_capture_of_ne hc]
    exact h id hid

theorem find?_global_capture (h : s.captured.find? x = none) :
    (s.capture.2.scope .global).find? x = (s.scope .global).find? x := by
  by_cases hc : ScopeId.global = s.capture.1
  · have habsent : (s.scope .global).find? x = none := by
      have hsize : s.scopes.size = 0 := (congrArg ScopeId.index hc).symm
      unfold scope
      rw [Array.getElem?_eq_none (Nat.le_trans (Nat.le_of_eq hsize) (Nat.zero_le _))]
      rfl
    rw [habsent, hc, scope_capture_self, h]
  · rw [scope_capture_of_ne hc]

/-- One scope more on the chain is asked first. -/
theorem lookup?_onChain_cons (s : Interp) (id : ScopeId) (chain : List ScopeId) (x : SymbolId) :
    (s.onChain (id :: chain)).lookup? x =
      ((s.scope id).find? x).or ((s.onChain chain).lookup? x) := by
  rw [lookup?_eq_findSome?, lookup?_eq_findSome?]
  show ((id :: (chain ++ [.global])).findSome? fun j => (s.scope j).find? x) = _
  rw [List.findSome?_cons]
  cases (s.scope id).find? x <;> rfl

/-- A look-up asks what would be captured, then the global scope. -/
theorem lookup?_eq_or (s : Interp) (x : SymbolId) :
    s.lookup? x = (s.captured.find? x).or ((s.scope .global).find? x) := by
  rw [find?_captured, lookup?]
  cases s.chain.findSome? fun id => (s.scope id).find? x <;> rfl

theorem lookup?_alone (s : Interp) (x : SymbolId) :
    (s.capture.2.onChain [s.capture.1]).lookup? x = s.lookup? x := by
  rw [lookup?_onChain_cons, scope_capture_self, lookup?_eq_or s]
  show (s.captured.find? x).or ((s.capture.2.scope .global).find? x) = _
  cases hcaptured : s.captured.find? x with
  | some v => rfl
  | none => rw [find?_global_capture hcaptured]

theorem lookup?_pushed (s : Interp) (x : SymbolId) :
    (s.capture.2.pushScope s.capture.1).lookup? x = s.lookup? x := by
  show (s.capture.2.onChain (s.capture.1 :: s.chain)).lookup? x = _
  rw [lookup?_onChain_cons, scope_capture_self, lookup?_eq_or s]
  cases hcaptured : s.captured.find? x with
  | some v => rfl
  | none =>
    have hnone : s.capture.2.captured.find? x = none := by
      rw [find?_captured]
      exact findSome?_capture_of_none hcaptured
    show none.or (s.capture.2.lookup? x) = _
    rw [lookup?_eq_or s.capture.2, hnone, find?_global_capture hcaptured]
    rfl

end Interp

/-- Capturing is a faithful snapshot of the scopes above the global one: it answers every look-up
as the chain does, binds what they bind, and shares nothing with them afterwards. -/
theorem capture_faithful (s : Interp) : s.Snapshot s.capture.1 s.capture.2 := by
  have hsize : s.capture.2.scopes.size = s.scopes.size + 1 := Array.size_push _
  have hexists : s.capture.1.index < s.capture.2.scopes.size := hsize ▸ Nat.lt_succ_self _
  have hfresh : ∀ id : ScopeId, id.index < s.scopes.size → id ≠ s.capture.1 := by
    rintro id hid rfl
    exact Nat.lt_irrefl _ hid
  refine ⟨rfl, ⟨hexists, hfresh⟩, fun id => Interp.scope_capture_of_ne, s.lookup?_alone,
    s.lookup?_pushed, fun x => ?_, fun writes => ?_, fun writes id hid => ?_⟩
  · rw [Interp.scope_capture_self]
    exact s.contains_captured x
  · rw [ScopeWrite.scope_afterWrites writes hexists, Interp.scope_capture_self]
  · rw [ScopeWrite.scope_afterWrites writes (hsize ▸ Nat.lt_succ_of_lt hid),
      Interp.scope_capture_of_ne (hfresh id hid)]

end SmallLisp
