import SmallLisp.Proofs.Session
import SmallLisp.Proofs.Spine

/-!
# Lists keep their cells

A list stays as long and as proper as it is in every state that keeps the second halves of its
cells. Where elements are collected, no change moves a second half at all. It is given to a cell
when that is allocated, and by then the value is there: every cell points to an older one. So no
chain of cells closes, and every walk along one comes to an end.
-/

namespace SmallLisp

variable {s t : Interp}

/-- A cell that is the second half of another one is older. -/
def Interp.Descends (s : Interp) : Prop :=
  ∀ id next : CellId, s.cdr id = .cons next → next.index < id.index

theorem Interp.descends_initial (limit : Nat) : (initial limit).Descends := by
  intro id next h
  have hnil : (initial limit).cdr id = .nil := rfl
  rw [hnil] at h
  cases h

/-- Descending chains are finite. -/
theorem Interp.Descends.spine (h : s.Descends) (v : Value) : ∃ ids tail, Spine s v ids tail := by
  have hcell : ∀ n (id : CellId), id.index = n → ∃ ids tail, Spine s (.cons id) ids tail := by
    intro n
    induction n using Nat.strongRecOn with
    | ind n ih =>
      intro id hid
      by_cases hatom : (s.cdr id).IsCell
      · obtain ⟨next, hnext⟩ := hatom
        obtain ⟨ids, tail, hspine⟩ := ih next.index (hid ▸ h id next hnext) next rfl
        rw [← hnext] at hspine
        exact ⟨id :: ids, tail, .cell hspine⟩
      · exact ⟨[id], s.cdr id, .cell (.atom hatom)⟩
  by_cases hatom : v.IsCell
  · obtain ⟨id, rfl⟩ := hatom
    exact hcell id.index id rfl
  · exact ⟨[], v, .atom hatom⟩

/-! ## Changes and second halves -/

/-- Only an allocation of a cell gives an address a second half. -/
theorem Change.cdr_apply {c : Change} (hc : ∀ car cdr, c ≠ .cell car cdr) (s : Interp)
    (id : CellId) : (c.apply s).cdr id = s.cdr id := by
  cases c
  case cell car cdr => exact absurd rfl (hc car cdr)
  case store v place =>
    cases place
    case cell j => exact Interp.cdr_setCar s j id v
    all_goals rfl
  case keyword name =>
    rw [Change.keyword_apply_eq]
    rfl
  case intern | create | select | use =>
    rw [Naming.apply_eq]
    · rfl
    · trivial
  all_goals rfl

/-- A new cell gets a second half that is there by then. -/
theorem Change.descends {c : Change} (hc : c.Sound s) (h : s.Descends) : (c.apply s).Descends := by
  intro id next hnext
  by_cases hcell : ∃ car cdr, c = .cell car cdr
  · obtain ⟨car, cdr, rfl⟩ := hcell
    have hread := Interp.cell_allocCell s car cdr id
    by_cases hid : id.index = s.cells.size
    · rw [if_pos hid] at hread
      have hnew : cdr = .cons next := by
        rw [← hnext]
        exact (congrArg Cell.cdr hread).symm
      have hlive : cdr.Live s := hc.2
      rw [hnew] at hlive
      rw [hid]
      exact hlive
    · rw [if_neg hid] at hread
      refine h id next ?_
      rw [← hnext]
      exact (congrArg Cell.cdr hread).symm
  · rw [Change.cdr_apply fun car cdr heq => hcell ⟨car, cdr, heq⟩] at hnext
    exact h id next hnext

/-! ## What evaluations leave of lists -/

/-- The cells of `s` and the lists that they make up are in `t` as they were. -/
structure Interp.KeepsSpines (s t : Interp) : Prop where
  cells : s.cells.size ≤ t.cells.size
  cdr : ∀ id : CellId, id.index < s.cells.size → t.cdr id = s.cdr id
  spine : ∀ v ids tail, Spine s v ids tail → (∀ id ∈ ids, id.index < s.cells.size) →
    Spine t v ids tail
  length : ∀ v ids tail, Spine s v ids tail → (∀ id ∈ ids, id.index < s.cells.size) →
    t.lengthOf v = s.lengthOf v ∧ t.isProper v = s.isProper v

/-- A list whose cells exist is in a state with more objects as it was. -/
theorem Spine.extend {v tail : Value} {ids : List CellId} (h : Spine s v ids tail)
    (hext : Extends s t) (hids : ∀ id ∈ ids, id.index < s.cells.size) : Spine t v ids tail :=
  h.congr fun id hid => hext.cdr id (hids id hid)

/-- A state with the same second halves and more cells has the same lists. -/
theorem Interp.KeepsSpines.of_cdr (hcells : s.cells.size ≤ t.cells.size)
    (hcdr : ∀ id : CellId, id.index < s.cells.size → t.cdr id = s.cdr id) : s.KeepsSpines t where
  cells := hcells
  cdr := hcdr
  spine := fun _ _ _ hspine hids => hspine.congr fun id hid => hcdr id (hids id hid)
  length := by
    intro v ids tail hspine hids
    have hkept := (hspine.congr fun id hid => hcdr id (hids id hid)).spine_eq
    have hwas := hspine.spine_eq
    simp only [Interp.lengthOf, Interp.cellsOf, Interp.isProper, Interp.tailOf, hkept, hwas,
      and_self]

theorem Extends.keepsSpines (h : Extends s t) : s.KeepsSpines t := .of_cdr h.cells h.cdr

/-- Whatever is done with the elements, as long as the lists stay as they are, a walk along `v` goes
through the cells `ids` at most: to allow for more of them makes no difference. -/
def Interp.WalkedThrough (s : Interp) (v : Value) (ids : List CellId) : Prop :=
  ∀ (α : Type) (visit : Value → α → EvalM (ForInStep α)) (good : Interp → α → Prop) (a : α),
    good s a → (∀ t a, good t a → s.KeepsSpines t) →
    (∀ id ∈ ids, ∀ a t next u, good t a → visit (t.car id) a t = .ok next u → good u next.value) →
    ∀ n, ids.length ≤ n → EvalM.walk visit n v a s = EvalM.walk visit ids.length v a s

/-- The chain from `v` on goes through `ids` to an atom, and every walk along it gets there. -/
structure Interp.ChainEnds (s : Interp) (v : Value) (ids : List CellId) (tail : Value) : Prop where
  spine : Spine s v ids tail
  atom : ¬ tail.IsCell
  walked : s.spine v = (ids, tail)
  cellAt : ∀ n, s.cellAt? n v = ids[n]?
  visited : (∀ id ∈ ids, id.index < s.cells.size) → s.WalkedThrough v ids

theorem Spine.tail_atom {v tail : Value} {ids : List CellId} (h : Spine s v ids tail) :
    ¬ tail.IsCell := by
  induction h with
  | atom hatom => exact hatom
  | cell _ ih => exact ih

theorem Spine.cellAt? {v tail : Value} {ids : List CellId} (h : Spine s v ids tail) (n : Nat) :
    s.cellAt? n v = ids[n]? := by
  induction h generalizing n with
  | @atom v hatom =>
    cases v with
    | cons id => exact absurd (Value.isCell_cons id) hatom
    | _ => cases n <;> rfl
  | cell _ ih =>
    cases n with
    | zero => rfl
    | succ n => exact ih n

/-- Each cell is followed by the same one still when its turn comes, so the walk gets to the end of
the list as it is at the start. -/
theorem Spine.walkedThrough {v tail : Value} {ids : List CellId} (h : Spine s v ids tail)
    (hids : ∀ id ∈ ids, id.index < s.cells.size) : s.WalkedThrough v ids := by
  intro α visit good a ha hkeeps hvisit n hn
  suffices hwalk : ∀ t, good t a →
      EvalM.walk visit n v a t = EvalM.walk visit ids.length v a t from hwalk s ha
  clear ha
  induction h generalizing n a with
  | @atom v hatom =>
    intro t _
    rw [EvalM.walk_atom hatom, EvalM.walk_atom hatom]
  | @cell id ids tail _ ih =>
    intro t ht
    obtain ⟨n, rfl⟩ := Nat.exists_eq_succ_of_ne_zero (Nat.ne_of_gt (Nat.lt_of_lt_of_le
      (Nat.succ_pos ids.length) hn))
    obtain ⟨hid, hrest⟩ := List.forall_mem_cons.mp hids
    have hcdr : t.cdr id = s.cdr id := (hkeeps t a ht).cdr id hid
    show (visit (t.car id) a >>= _) t = (visit (t.car id) a >>= _) t
    cases hresult : visit (t.car id) a t with
    | error flow u => exact (EvalM.bind_error hresult).trans (EvalM.bind_error hresult).symm
    | ok next u =>
      have hgood := hvisit id List.mem_cons_self a t next u ht hresult
      have hnext := EvalM.ends_ok.mpr hresult
      refine hnext.bind_eq.trans (Eq.trans ?_ hnext.bind_eq.symm)
      cases next with
      | yield a =>
        show EvalM.walk visit n (t.cdr id) a u = EvalM.walk visit ids.length (t.cdr id) a u
        rw [hcdr]
        exact ih hrest a (fun j hj => hvisit j (List.mem_cons_of_mem _ hj)) n
          (Nat.le_of_succ_le_succ hn) u hgood
      | done a => rfl

theorem Spine.chainEnds {v tail : Value} {ids : List CellId} (h : Spine s v ids tail) :
    s.ChainEnds v ids tail :=
  ⟨h, h.tail_atom, h.spine_eq, h.cellAt?, h.walkedThrough⟩

/-- In every state of a session the chains of cells descend. -/
theorem Session.descends {limit : Nat} (h : Session (fun _ => True) (.initial limit) s) :
    s.Descends :=
  (h.sound (Interp.live_initial limit)).preserves (fun _ _ hc ht => Change.descends hc ht)
    (fun _ _ _ _ ht => ht) (Interp.descends_initial limit)

end SmallLisp
