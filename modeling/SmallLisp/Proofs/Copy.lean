import Mathlib.Data.List.Forall2
import SmallLisp.Datum.Intern
import SmallLisp.Proofs.Comparison
import SmallLisp.Proofs.Ending
import SmallLisp.Proofs.Growth
import SmallLisp.Proofs.Spine

/-!
# Copies in a growing store

Interning data whose names are all known only makes the store grow. A copy of a value has the same
atoms and, for each of its cells, a cell of its own. Cells are allocated after what they contain, so
a path through a copy goes down in the store, and a comparison reaches the end of every path.
-/

namespace SmallLisp

variable {s u t : Interp}

/-! ## Copies -/

/-- A value is no cell of the store from an address on. -/
def Value.Below (v : Value) (n : Nat) : Prop := ∀ id, v = .cons id → id.index < n

theorem Value.Below.mono {v : Value} {n m : Nat} (h : v.Below n) (hnm : n ≤ m) : v.Below m :=
  fun id hid => Nat.lt_of_lt_of_le (h id hid) hnm

/-- Atoms without parts that are equal to themselves and to nothing else. -/
def Value.isExact : Value → Bool
  | .nil | .truth | .symbol _ | .number (.int _) | .string _ | .character _ => true
  | _ => false

/-- The first value is a copy of the second one, whose cells are older than the cells that they
are in. -/
inductive Copy (u : Interp) : Value → Value → Prop
  | atom {v : Value} (hexact : v.isExact = true) : Copy u v v
  | cell {x y : CellId} (hx : x.index < u.cells.size) (hy : y.index < u.cells.size)
      (hcar : Copy u (u.car x) (u.car y)) (hcdr : Copy u (u.cdr x) (u.cdr y))
      (hcarOlder : (u.car x).Below x.index) (hcdrOlder : (u.cdr x).Below x.index) :
      Copy u (.cons x) (.cons y)

namespace Copy

variable {v w : Value}

theorem below_size (h : Copy u v w) : v.Below u.cells.size := by
  cases h with
  | atom hexact =>
    rintro id rfl
    cases hexact
  | cell hx _ _ _ _ _ =>
    rintro id heq
    cases heq
    exact hx

/-- A copy stays one when the store grows. -/
theorem grow (h : Copy u v w) (ht : Grown u t) : Copy t v w := by
  induction h with
  | atom hexact => exact .atom hexact
  | cell hx hy _ _ hcarOlder hcdrOlder ihcar ihcdr =>
    refine .cell (Nat.lt_of_lt_of_le hx ht.size_le) (Nat.lt_of_lt_of_le hy ht.size_le) ?_ ?_ ?_ ?_
    · rw [ht.car hx, ht.car hy]
      exact ihcar
    · rw [ht.cdr hx, ht.cdr hy]
      exact ihcdr
    · rw [ht.car hx]
      exact hcarOlder
    · rw [ht.cdr hx]
      exact hcdrOlder

theorem compare?_self (hexact : v.isExact = true) (n : Nat) :
    u.compare? (n + 1) v v = some true := by
  cases v with
  | number a =>
    cases a with
    | int a => simp [Interp.compare?_succ, Interp.compareParts, Number.compare?]
    | float x => cases hexact
  | nil | truth | symbol | string | character => simp [Interp.compare?_succ, Interp.compareParts]
  | _ => cases hexact

/-- A comparison with more levels than the address of a copy finds it equal. -/
theorem compare? (h : Copy u v w) {n : Nat} (hn : v.Below n) :
    u.compare? (n + 1) v w = some true := by
  induction h generalizing n with
  | atom hexact => exact compare?_self hexact n
  | @cell x y _ _ _ _ hcarOlder hcdrOlder ihcar ihcdr =>
    have hx : x.index < n := hn x rfl
    obtain ⟨m, rfl⟩ : ∃ m, n = m + 1 := ⟨n - 1, by omega⟩
    have hxm : x.index ≤ m := Nat.le_of_lt_succ hx
    have hpairs : comparePairs (u.compare? (m + 1)) [u.car x, u.cdr x] [u.car y, u.cdr y] =
        some true := by
      simp [comparePairs, ihcar (hcarOlder.mono hxm), ihcdr (hcdrOlder.mono hxm)]
    show u.compareParts (u.compare? (m + 1)) (.cons x) (.cons y) = some true
    rw [Interp.compareParts, hpairs, ite_self]

theorem equal (h : Copy u v w) : u.equal v w = true :=
  Interp.equal_of_compare? (h.compare? h.below_size)

end Copy

/-! ## Fresh lists -/

theorem consReversed_append (u : Interp) (items rest : List Value) (tail : Value) :
    u.consReversed (items ++ rest) tail =
      (u.consReversed items tail).2.consReversed rest (u.consReversed items tail).1 := by
  induction items generalizing u tail with
  | nil => rfl
  | cons v items ih => exact ih _ _

/-- The cell of the first element is allocated last. -/
theorem consAll_cons (u : Interp) (v : Value) (items : List Value) (tail : Value) :
    u.consAll (v :: items) tail =
      (u.consAll items tail).2.allocCell v (u.consAll items tail).1 := by
  unfold Interp.consAll
  rw [List.reverse_cons, consReversed_append]
  rfl

theorem Copy.allocCell {v w : Value} {y : CellId} (hy : y.index < u.cells.size)
    (hcar : Copy u v (u.car y)) (hcdr : Copy u w (u.cdr y)) :
    Copy (u.allocCell v w).2 (u.allocCell v w).1 (.cons y) := by
  have hgrown : Grown u (u.allocCell v w).2 := grown_allocCell u v w
  refine .cell (x := ⟨u.cells.size⟩) ?_ ?_ ?_ ?_ ?_ ?_
  · rw [Interp.size_allocCell]
    exact Nat.lt_succ_self _
  · rw [Interp.size_allocCell]
    exact Nat.lt_succ_of_lt hy
  · rw [Interp.car_allocCell_new, hgrown.car hy]
    exact hcar.grow hgrown
  · rw [Interp.cdr_allocCell_new, hgrown.cdr hy]
    exact hcdr.grow hgrown
  · rw [Interp.car_allocCell_new]
    exact hcar.below_size
  · rw [Interp.cdr_allocCell_new]
    exact hcdr.below_size

/-- A list of copies of the elements, in front of a copy of the tail, is a copy of the list. -/
theorem Copy.consAll {v tail tail' : Value} {ids : List CellId} (hspine : Spine s v ids tail)
    (hids : ∀ id ∈ ids, id.index < s.cells.size) (hu : Grown s u) {items : List Value}
    (hitems : List.Forall₂ (fun item id => Copy u item (s.car id)) items ids)
    (htail : Copy u tail' tail) :
    Copy (u.consAll items tail').2 (u.consAll items tail').1 v := by
  induction hspine generalizing items with
  | atom _ =>
    cases hitems
    exact htail
  | @cell id ids tail _ ih =>
    cases hitems with
    | @cons item _ items _ hitem hitems =>
      have hcdr := ih (fun id hid => hids id (List.mem_cons_of_mem _ hid)) hitems htail
      have hid : id.index < s.cells.size := hids id List.mem_cons_self
      have hgrown : Grown u (u.consAll items tail').2 := grown_consReversed _ u tail'
      rw [consAll_cons]
      generalize u.consAll items tail' = r at hgrown hcdr
      obtain ⟨rest, t⟩ := r
      have ht : Grown s t := hu.trans hgrown
      have hcar : Copy t item (t.car id) := by
        rw [ht.car hid]
        exact hitem.grow hgrown
      rw [← ht.cdr hid] at hcdr
      exact hcar.allocCell (Nat.lt_of_lt_of_le hid ht.size_le) hcdr

/-! ## Interning known names -/

/-- A name that is known in the current namespace is found, and nothing changes. -/
theorem intern_eq {name : String} {id : SymbolId}
    (h : (u.namespaceAt u.current).find? name = some id) : u.intern name = .ok (id, u) := by
  have hns : (u.namespaceAt u.current).intern u.symbols name =
      .ok (id, u.namespaceAt u.current, u.symbols) := by
    unfold Namespace.intern
    rw [h]
  have hcommit : u.commit u.current (id, u.namespaceAt u.current, u.symbols) = (id, u) :=
    congrArg (Prod.mk id) (u.setNamespace_self u.current)
  unfold Interp.intern Interp.internIn
  rw [hns, Except.map, hcommit]

theorem internKeyword_eq {name : String} {id : SymbolId}
    (h : (u.namespaceAt .keywords).find? name = some id) :
    u.internKeyword name = .ok (id, u) := by
  unfold Interp.internKeyword
  rw [h]

/-- In every state that `s` grows into, a datum is interned as a copy of a value. -/
def Interns (s : Interp) (v : Value) (d : Datum) : Prop :=
  ∀ u, Grown s u → ∃ w t, d.intern u = .ok w t ∧ Grown u t ∧ Copy t w v

/-- A name that is known yields its symbol, or the value of the symbol. -/
theorem interns_symbol {name : SymbolName} {id : SymbolId} {v : Value}
    (hresolve : ∀ u, Grown s u → u.resolve name = .ok (id, u))
    (hvalue : (s.symbol id).selfValue.getD (.symbol id) = v) (hexact : v.isExact = true) :
    Interns s v (.symbol name) := by
  intro u hu
  refine ⟨v, u, ?_, .refl u, .atom hexact⟩
  have hstep : (EvalM.namespaceStep fun u => u.resolve name).Ends u (.ok id) u := by
    unfold EvalM.Ends EvalM.namespaceStep
    dsimp only
    rw [hresolve u hu]
    rfl
  rw [Datum.intern, hstep.bind_eq, EvalM.read_bind_apply, hu.symbol, hvalue]
  rfl

theorem internAll_copies {ids : List CellId} {data : List Datum}
    (h : List.Forall₂ (fun id d => Interns s (s.car id) d) ids data) (b : ListBuilder)
    (hu : Grown s u) :
    ∃ b' items t, Datum.internAll b data u = .ok b' t ∧ b'.toList = b.toList ++ items ∧
      Grown u t ∧ List.Forall₂ (fun item id => Copy t item (s.car id)) items ids := by
  induction h generalizing b u with
  | nil => exact ⟨b, [], u, rfl, (List.append_nil _).symm, .refl u, .nil⟩
  | @cons id d ids data hd _ ih =>
    obtain ⟨w, t, hintern, hut, hcopy⟩ := hd u hu
    obtain ⟨b', items, t', hall, hlist, htt', hitems⟩ := ih (b.push w) (hu.trans hut)
    refine ⟨b', w :: items, t', ?_, ?_, hut.trans htt', .cons (hcopy.grow htt') hitems⟩
    · rw [Datum.internAll, (EvalM.ends_ok.mpr hintern).bind_eq]
      exact hall
    · rw [hlist, ListBuilder.toList_push, List.append_assoc, List.singleton_append]

section Lists

variable {v tail : Value} {ids : List CellId} {data : List Datum}

theorem interns_list (hspine : Spine s v ids .nil) (hids : ∀ id ∈ ids, id.index < s.cells.size)
    (h : List.Forall₂ (fun id d => Interns s (s.car id) d) ids data) :
    Interns s v (.list data) := by
  intro u hu
  obtain ⟨b, items, t, hall, hlist, hut, hitems⟩ := internAll_copies h .empty hu
  have hgrown : Grown t (t.consAll items .nil).2 := grown_consReversed _ t .nil
  have hcopy := Copy.consAll hspine hids (hu.trans hut) hitems (.atom rfl)
  refine ⟨_, _, ?_, hut.trans hgrown, hcopy⟩
  rw [ListBuilder.toList_empty, List.nil_append] at hlist
  rw [Datum.intern, ListBuilding.start_collecting, (EvalM.ends_ok.mpr hall).bind_eq, ← hlist,
    ← ListBuilder.finish_eq_consAll]
  rfl

theorem interns_dotted (hspine : Spine s v ids tail)
    (hids : ∀ id ∈ ids, id.index < s.cells.size)
    (h : List.Forall₂ (fun id d => Interns s (s.car id) d) ids data) {d : Datum}
    (htail : Interns s tail d) : Interns s v (.dotted data d) := by
  intro u hu
  obtain ⟨b, items, t, hall, hlist, hut, hitems⟩ := internAll_copies h .empty hu
  obtain ⟨w, t', hintern, htt', hcopyTail⟩ := htail t (hu.trans hut)
  have hitems' : List.Forall₂ (fun item id => Copy t' item (s.car id)) items ids :=
    hitems.imp fun _ _ hitem => hitem.grow htt'
  have hut' : Grown u t' := hut.trans htt'
  have hgrown : Grown t' (t'.consAll items w).2 := grown_consReversed _ t' w
  have hcopy := Copy.consAll hspine hids (hu.trans hut') hitems' hcopyTail
  refine ⟨_, _, ?_, hut'.trans hgrown, hcopy⟩
  rw [ListBuilder.toList_empty, List.nil_append] at hlist
  rw [Datum.intern, ListBuilding.start_collecting, (EvalM.ends_ok.mpr hall).bind_eq,
    (EvalM.ends_ok.mpr hintern).bind_eq, ← hlist, ← ListBuilder.finish_eq_consAll]
  rfl

end Lists

end SmallLisp
