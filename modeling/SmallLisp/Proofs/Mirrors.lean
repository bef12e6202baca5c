import SmallLisp.Proofs.LinkedRuns
import SmallLisp.Proofs.Renewal
import SmallLisp.Proofs.TrackedForms

/-!
# A state beside another one

Two runs that allocate cells in different orders leave states that differ in the addresses of cells.
A `Mirror` is a pair of such states with the addresses that the cells of the first have in the
second. As the runs go on the mirror grows: what is in it stays where it is, so values that are held
while something else runs are still each other's counterparts afterwards. The second state may have
cells that nothing in the first corresponds to, and a later cell of the first state may turn out to
be the counterpart of one of them.
-/

namespace SmallLisp

variable {α : Type}

/-- A state, another one, and the addresses that the cells of the first have in the second. -/
structure Mirror where
  relocation : Relocation
  left : Interp
  right : Interp

variable {m n o : Mirror} {r r' : Relocation} {s t u w : Interp}

/-- No symbol reads as a cell. -/
def Interp.ReadsNoCell (s : Interp) : Prop := ∀ x ∈ s.symbols, ∀ id, x.selfValue ≠ some (.cons id)

/-- A change of the active scopes and of the counters. -/
structure FrameChange where
  chain : List ScopeId → List ScopeId
  depths : Depths → Depths
  active : Nat → Nat

def FrameChange.apply (f : FrameChange) (s : Interp) : Interp :=
  s.withFrames (f.chain s.chain) (f.depths s.depths) (f.active s.active)

/-- The mirror with a change of frames on both sides. -/
def Mirror.framed (f : FrameChange) (m : Mirror) : Mirror :=
  ⟨m.relocation, f.apply m.left, f.apply m.right⟩

namespace Mirror

/-- The two states are the same but for the addresses of cells, and refer to cells they have. -/
structure Faithful (m : Mirror) : Prop where
  relocated : Relocated m.relocation m.left m.right
  active : m.right.active = m.left.active
  limit : m.right.limit = m.left.limit
  readsNoCell : m.left.ReadsNoCell
  left : m.left.Grounded
  right : m.right.Grounded

/-- Runs lead from `m` to `n`: cells that were there stay where they are, and new cells of the one
state are new in the other. -/
structure Leads (m n : Mirror) : Prop where
  left : m.left.cells.size ≤ n.left.cells.size
  right : m.right.cells.size ≤ n.right.cells.size
  kept : ∀ id : CellId, id.index < m.left.cells.size → n.relocation.move id = m.relocation.move id
  new : ∀ id : CellId, m.left.cells.size ≤ id.index → id.index < n.left.cells.size →
    m.right.cells.size ≤ (n.relocation.move id).index

end Mirror

/-- A value that exists, and its counterpart. -/
structure Value.Placed (m : Mirror) (v v' : Value) : Prop where
  left : v.Known (fun _ => False) m.left
  right : v'.Known (fun _ => False) m.right
  eq : v' = v.relocate m.relocation

/-! ## Mirrors that grow -/

/-- A value and its counterpart, or none on either side. -/
abbrev Value.MaybePlaced (m : Mirror) (x x' : Option Value) : Prop :=
  x = none ∧ x' = none ∨ ∃ v v', x = some v ∧ x' = some v' ∧ Placed m v v'

theorem Value.Known.relocate_eq {v : Value} (hv : v.Known (fun _ => False) s)
    (hkept : ∀ id : CellId, id.index < s.cells.size → r'.move id = r.move id) :
    v.relocate r' = v.relocate r := by
  cases v with
  | cons id => exact congrArg Value.cons (hkept id (hv id rfl).1)
  | _ => rfl

namespace Mirror.Leads

theorem refl (m : Mirror) : m.Leads m where
  left := Nat.le_refl _
  right := Nat.le_refl _
  kept := fun _ _ => rfl
  new := fun _ hle hlt => absurd hlt (Nat.not_lt_of_le hle)

theorem trans (h : m.Leads n) (h' : n.Leads o) : m.Leads o where
  left := Nat.le_trans h.left h'.left
  right := Nat.le_trans h.right h'.right
  kept := fun id hid => (h'.kept id (Nat.lt_of_lt_of_le hid h.left)).trans (h.kept id hid)
  new := by
    intro id hle hlt
    rcases Nat.lt_or_ge id.index n.left.cells.size with hold | hnew
    · rw [h'.kept id hold]
      exact h.new id hle hold
    · exact Nat.le_trans h.right (h'.new id hnew hlt)

/-- Counterparts stay counterparts. -/
theorem placed (h : m.Leads n) {v v' : Value} (hv : v.Placed m v') : v.Placed n v' :=
  ⟨hv.left.mono h.left, hv.right.mono h.right,
    hv.eq.trans (hv.left.relocate_eq h.kept).symm⟩

/-- Frames hold no cells. -/
theorem framed (f : FrameChange) (m : Mirror) : m.Leads (m.framed f) :=
  ⟨Nat.le_refl _, Nat.le_refl _, fun _ _ => rfl,
    fun _ hle hlt => absurd hlt (Nat.not_lt_of_le hle)⟩

end Mirror.Leads

/-- Under one relocation, states grow alike. -/
theorem Relocated.leads (h : Relocated r s t) (h' : Relocated r u w)
    (hsize : s.cells.size ≤ u.cells.size) : Mirror.Leads ⟨r, s, t⟩ ⟨r, u, w⟩ := by
  have hwhole := h.fresh (u.cells.size - s.cells.size)
  rw [Nat.add_sub_cancel' hsize, show r.move ⟨u.cells.size⟩ = ⟨w.cells.size⟩ from h'.fresh 0]
    at hwhole
  refine ⟨hsize, ?_, fun _ _ => rfl, fun id hle _ => ?_⟩
  · show t.cells.size ≤ w.cells.size
    rw [CellId.mk.inj hwhole]
    exact Nat.le_add_right _ _
  · show t.cells.size ≤ (r.move id).index
    have hnew := h.fresh (id.index - s.cells.size)
    rw [Nat.add_sub_cancel' hle] at hnew
    rw [hnew]
    exact Nat.le_add_right _ _

/-- Under another relocation a state is relocated to one with other cells, if the values that it
holds stay where they are and each cell has its counterpart. -/
theorem Relocated.rebase (h : Relocated r s t) (hu : u = { s with cells := u.cells })
    (hw : w = { t with cells := w.cells })
    (hstored : ∀ v, s.Stores v → v.relocate r' = v.relocate r)
    (hcell : ∀ id, w.cell (r'.move id) = (u.cell id).relocate r')
    (hfresh : ∀ n, r'.move ⟨u.cells.size + n⟩ = ⟨w.cells.size + n⟩) : Relocated r' u w := by
  generalize u.cells = cells at *
  generalize w.cells = cells' at *
  subst hu hw
  constructor
  case cell => exact hcell
  case fresh => exact hfresh
  case arrays =>
    refine h.arrays.trans (Array.map_congr_left fun items hitems => ?_)
    exact Array.map_congr_left fun v hv => (hstored v (.item hitems hv)).symm
  case dictionaries =>
    refine h.dictionaries.trans (Array.map_congr_left fun es hes => ?_)
    refine List.map_congr_left fun e he => Prod.ext ?_ ?_
    · exact (hstored _ (.entryKey hes he)).symm
    · exact (hstored _ (.entryValue hes he)).symm
  case hashTables =>
    refine h.hashTables.trans (Array.map_congr_left fun table htable => congrArg Table.mk ?_)
    refine List.map_congr_left fun e he => Prod.ext ?_ ?_
    · exact (hstored _ (.hashKey htable he)).symm
    · exact (hstored _ (.hashValue htable he)).symm
  case callables =>
    refine h.callables.trans (Array.map_congr_left fun g hg => ?_)
    cases g with
    | primitive op => rfl
    | host g => rfl
    | lambda c =>
      exact congrArg (fun v => Callable.lambda { c with body := v }) (hstored _ (.body hg rfl)).symm
    | expander c =>
      exact congrArg (fun v => Callable.expander { c with body := v })
        (hstored _ (.body hg rfl)).symm
  case scopes =>
    refine h.scopes.trans (Array.map_congr_left fun scope hscope => congrArg Table.mk ?_)
    refine List.map_congr_left fun e he => Prod.ext rfl ?_
    exact (hstored _ (.bound hscope he)).symm
  case symbols => exact h.symbols
  case namespaces => exact h.namespaces
  case current => exact h.current
  case chain => exact h.chain
  case depths => exact h.depths
  case generated => exact h.generated
  case hostless => exact h.hostless

/-! ### Addresses for new cells -/

/-- The first `n` cells stay where they are, the next ones are laid on `news`, and all others behind
the first `m` addresses. -/
def CellId.laid (r : Relocation) (n : Nat) (news : List CellId) (m : Nat) (id : CellId) : CellId :=
  if id.index < n then r.move id
  else (news[id.index - n]?).getD ⟨m + (id.index - n - news.length)⟩

/-- The addresses below `m` that `news` takes are free. -/
structure Laying (r : Relocation) (n : Nat) (news : List CellId) (m : Nat) : Prop where
  old : ∀ id : CellId, id.index < n → (r.move id).index < m ∧ r.move id ∉ news
  new : ∀ id ∈ news, id.index < m
  nodup : news.Nodup

namespace Laying

variable {n m : Nat} {news : List CellId}

theorem laid_old {id : CellId} (hid : id.index < n) : id.laid r n news m = r.move id := if_pos hid

theorem laid_new {i : Nat} (hi : i < news.length) :
    CellId.laid r n news m ⟨n + i⟩ = news[i] := by
  unfold CellId.laid
  rw [if_neg (Nat.not_lt_of_le (Nat.le_add_right n i)), Nat.add_sub_cancel_left,
    List.getElem?_eq_getElem hi, Option.getD_some]

theorem laid_behind (i : Nat) :
    CellId.laid r n news m ⟨n + news.length + i⟩ = ⟨m + i⟩ := by
  have hle : news.length ≤ n + news.length + i - n := by omega
  have hindex : n + news.length + i - n - news.length = i := by omega
  unfold CellId.laid
  rw [if_neg (by show ¬ n + news.length + i < n; omega), List.getElem?_eq_none hle,
    Option.getD_none, hindex]

/-- The cells that stay, the laid ones and those behind stay apart. -/
theorem laid_injective (h : Laying r n news m) :
    Function.Injective (CellId.laid r n news m) := by
  have hcases : ∀ i, i < n ∧ CellId.laid r n news m ⟨i⟩ = r.move ⟨i⟩ ∨
      (∃ (j : Nat) (hj : j < news.length), i = n + j ∧ CellId.laid r n news m ⟨i⟩ = news[j]) ∨
      ∃ j, i = n + news.length + j ∧ CellId.laid r n news m ⟨i⟩ = ⟨m + j⟩ := by
    intro i
    rcases Nat.lt_or_ge i n with hlt | hge
    · exact .inl ⟨hlt, laid_old hlt⟩
    obtain ⟨j, rfl⟩ := Nat.exists_eq_add_of_le hge
    rcases Nat.lt_or_ge j news.length with hlt | hge
    · exact .inr (.inl ⟨j, hlt, rfl, laid_new hlt⟩)
    · obtain ⟨k, rfl⟩ := Nat.exists_eq_add_of_le hge
      refine .inr (.inr ⟨k, (Nat.add_assoc ..).symm, ?_⟩)
      rw [← Nat.add_assoc]
      exact laid_behind k
  have hbelow : ∀ i, i < n → ∀ j, r.move ⟨i⟩ ≠ ⟨m + j⟩ := by
    intro i hi j heq
    have hlt := (h.old ⟨i⟩ hi).1
    rw [heq] at hlt
    exact absurd hlt (Nat.not_lt_of_le (Nat.le_add_right m j))
  have hapart : ∀ i, i < n → ∀ (j : Nat) (hj : j < news.length), r.move ⟨i⟩ ≠ news[j] :=
    fun i hi j hj heq => (h.old ⟨i⟩ hi).2 (heq ▸ List.getElem_mem hj)
  have hnew : ∀ (i : Nat) (hi : i < news.length) (j : Nat), news[i] ≠ ⟨m + j⟩ := by
    intro i hi j heq
    have hlt := h.new _ (List.getElem_mem hi)
    rw [heq] at hlt
    exact absurd hlt (Nat.not_lt_of_le (Nat.le_add_right m j))
  rintro ⟨i⟩ ⟨j⟩ heq
  rcases hcases i with ⟨hi, hi'⟩ | ⟨a, ha, rfl, hi'⟩ | ⟨a, rfl, hi'⟩ <;>
    rcases hcases j with ⟨hj, hj'⟩ | ⟨b, hb, rfl, hj'⟩ | ⟨b, rfl, hj'⟩ <;> rw [hi', hj'] at heq
  · exact r.injective heq
  · exact absurd heq (hapart i hi b hb)
  · exact absurd heq (hbelow i hi b)
  · exact absurd heq.symm (hapart j hj a ha)
  · rw [h.nodup.getElem_inj_iff.mp heq]
  · exact absurd heq (hnew a ha b)
  · exact absurd heq.symm (hbelow j hj a)
  · exact absurd heq.symm (hnew b hb a)
  · rw [Nat.add_left_cancel (CellId.mk.inj heq)]

def relocation (h : Laying r n news m) : Relocation := ⟨CellId.laid r n news m, h.laid_injective⟩

variable (h : Laying r n news m)

theorem move_old {id : CellId} (hid : id.index < n) : h.relocation.move id = r.move id :=
  laid_old hid

theorem move_new (i : Nat) (hi : i < news.length) : h.relocation.move ⟨n + i⟩ = news[i] :=
  laid_new hi

theorem move_behind (i : Nat) : h.relocation.move ⟨n + news.length + i⟩ = ⟨m + i⟩ :=
  laid_behind i

end Laying

namespace Mirror.Faithful

variable (h : m.Faithful)

include h

theorem move_lt {id : CellId} (hid : id.index < m.left.cells.size) :
    (m.relocation.move id).index < m.right.cells.size :=
  h.relocated.index_lt_iff.mpr hid

/-- What is there has a counterpart that is there. -/
theorem place {v : Value} (hv : v.Known (fun _ => False) m.left) :
    v.Placed m (v.relocate m.relocation) := by
  refine ⟨hv, ?_, rfl⟩
  cases v with
  | cons id =>
    rintro id' hid'
    cases hid'
    exact ⟨h.move_lt (hv id rfl).1, not_false⟩
  | _ => exact fun id hid => by cases hid

/-- The states gain cells: the new ones of the first are laid on cells of the second. Counterparts
stay as they are. -/
theorem relaid {news : List CellId}
    (hlaying : Laying m.relocation m.left.cells.size news w.cells.size)
    (hgrown : Grown m.left u) (hsize : u.cells.size = m.left.cells.size + news.length)
    (hw : w = { m.right with cells := w.cells })
    (hkept : ∀ id : CellId, id.index < m.left.cells.size →
      w.cell (m.relocation.move id) = m.right.cell (m.relocation.move id))
    (hnews : ∀ (i : Nat) (hi : i < news.length), w.cell news[i] =
      (u.cell ⟨m.left.cells.size + i⟩).relocate hlaying.relocation)
    (hgrounded : u.Grounded) (hgrounded' : w.Grounded) :
    Faithful ⟨hlaying.relocation, u, w⟩ := by
  have hknown : ∀ {v : Value}, v.Known (fun _ => False) m.left →
      v.relocate hlaying.relocation = v.relocate m.relocation :=
    fun hv => hv.relocate_eq fun _ hid => hlaying.move_old hid
  have hfresh : ∀ n, hlaying.relocation.move ⟨u.cells.size + n⟩ = ⟨w.cells.size + n⟩ := by
    intro n
    rw [hsize]
    exact hlaying.move_behind n
  have hcell : ∀ id, w.cell (hlaying.relocation.move id) =
      (u.cell id).relocate hlaying.relocation := by
    intro id
    rcases Nat.lt_or_ge id.index m.left.cells.size with hlt | hge
    · obtain ⟨hcar, hcdr⟩ := h.left.cells id not_false
      rw [hlaying.move_old hlt, hkept id hlt, hgrown.cell id hlt, h.relocated.cell]
      exact congrArg₂ Cell.mk (hknown hcar).symm (hknown hcdr).symm
    obtain ⟨i, hi⟩ := Nat.exists_eq_add_of_le hge
    obtain rfl : id = ⟨m.left.cells.size + i⟩ := congrArg CellId.mk hi
    rcases Nat.lt_or_ge i news.length with hlt | hge
    · rw [hlaying.move_new i hlt]
      exact hnews i hlt
    · obtain ⟨j, rfl⟩ := Nat.exists_eq_add_of_le hge
      rw [← Nat.add_assoc, ← hsize, hfresh, Interp.cell_of_size_le (Nat.le_add_right _ _),
        Interp.cell_of_size_le (Nat.le_add_right _ _)]
      rfl
  have hstored : ∀ v, m.left.Stores v →
      v.relocate hlaying.relocation = v.relocate m.relocation :=
    fun v hv => hknown (h.left.stored v hv)
  have hsymbols : u.symbols = m.left.symbols := by rw [hgrown.others]
  refine ⟨h.relocated.rebase hgrown.others hw hstored hcell hfresh, ?_, ?_, ?_, hgrounded,
    hgrounded'⟩
  · have hactive : u.active = m.left.active := by rw [hgrown.others]
    exact (congrArg Interp.active hw).trans (h.active.trans hactive.symm)
  · have hlimit : u.limit = m.left.limit := by rw [hgrown.others]
    exact (congrArg Interp.limit hw).trans (h.limit.trans hlimit.symm)
  · exact fun x hx => h.readsNoCell x (hsymbols ▸ hx)

/-- The second state gains or changes cells that are no counterparts. -/
theorem beside (hw : w = { m.right with cells := w.cells })
    (hsize : m.right.cells.size ≤ w.cells.size)
    (hkept : ∀ id : CellId, id.index < m.left.cells.size →
      w.cell (m.relocation.move id) = m.right.cell (m.relocation.move id))
    (hgrounded : w.Grounded) :
    ∃ r, m.Leads ⟨r, m.left, w⟩ ∧ Faithful ⟨r, m.left, w⟩ := by
  have hlaying : Laying m.relocation m.left.cells.size [] w.cells.size :=
    ⟨fun id hid => ⟨Nat.lt_of_lt_of_le (h.move_lt hid) hsize, List.not_mem_nil⟩, nofun,
      List.nodup_nil⟩
  refine ⟨hlaying.relocation, ⟨Nat.le_refl _, hsize, fun _ hid => hlaying.move_old hid,
    fun id hle hlt => absurd hlt (Nat.not_lt_of_le hle)⟩, ?_⟩
  exact h.relaid hlaying (.refl m.left) rfl hw hkept
    (fun _ hi => absurd hi (Nat.not_lt_zero _)) h.left hgrounded

/-- A new cell of the first state is the counterpart of a cell that the second one has already. -/
theorem adopt {id : CellId} {a b a' b' : Value} (hid : id.index < m.right.cells.size)
    (hapart : ∀ j : CellId, j.index < m.left.cells.size → m.relocation.move j ≠ id)
    (ha : a.Placed m a') (hb : b.Placed m b') (hcell : m.right.cell id = ⟨a', b'⟩) :
    ∃ r : Relocation,
      (∀ j : CellId, j.index < m.left.cells.size → r.move j = m.relocation.move j) ∧
      (∀ j : CellId, m.left.cells.size ≤ j.index →
        j.index < (m.left.allocCell a b).2.cells.size → r.move j = id) ∧
      Faithful ⟨r, (m.left.allocCell a b).2, m.right⟩ := by
  have hlaying : Laying m.relocation m.left.cells.size [id] m.right.cells.size :=
    ⟨fun j hj => ⟨h.move_lt hj, fun hmem => hapart j hj (List.mem_singleton.mp hmem)⟩,
      fun j hj => (List.mem_singleton.mp hj) ▸ hid, List.nodup_singleton id⟩
  have hnew : hlaying.relocation.move ⟨m.left.cells.size⟩ = id :=
    hlaying.move_new 0 Nat.zero_lt_one
  have hgrown : Grown m.left (m.left.allocCell a b).2 := grown_allocCell m.left a b
  refine ⟨hlaying.relocation, fun _ hj => hlaying.move_old hj, fun j hge hlt => ?_,
    h.relaid hlaying hgrown (m.left.size_allocCell a b) rfl (fun _ _ => rfl)
      (fun i hi => ?_) (h.left.allocCell ha.left hb.left).withholds h.right⟩
  · rw [Interp.size_allocCell] at hlt
    obtain rfl : j = ⟨m.left.cells.size⟩ :=
      congrArg CellId.mk (Nat.le_antisymm (Nat.le_of_lt_succ hlt) hge)
    exact hnew
  · obtain rfl : i = 0 := Nat.lt_one_iff.mp hi
    have hknown : ∀ {v : Value}, v.Known (fun _ => False) m.left →
        v.relocate hlaying.relocation = v.relocate m.relocation :=
      fun hv => hv.relocate_eq fun _ hid => hlaying.move_old hid
    show m.right.cell id = Cell.mk (((m.left.allocCell a b).2.car ⟨m.left.cells.size⟩).relocate _)
      (((m.left.allocCell a b).2.cdr ⟨m.left.cells.size⟩).relocate _)
    rw [hcell, m.left.car_allocCell_new, m.left.cdr_allocCell_new, hknown ha.left, hknown hb.left,
      ha.eq, hb.eq]

theorem framed (f : FrameChange) : (m.framed f).Faithful where
  relocated := { h.relocated with
    chain := congrArg f.chain h.relocated.chain
    depths := congrArg f.depths h.relocated.depths }
  active := congrArg f.active h.active
  limit := h.limit
  readsNoCell := h.readsNoCell
  left := (h.left.withFrames _ _ _).withholds
  right := (h.right.withFrames _ _ _).withholds

/-! ### Reading -/

theorem car {id id' : CellId} (hid : (Value.cons id).Placed m (.cons id')) :
    (m.left.car id).Placed m (m.right.car id') := by
  obtain rfl : id' = m.relocation.move id := Value.cons.inj hid.eq
  rw [h.relocated.car]
  exact h.place (h.left.car hid.left)

theorem cdr {id id' : CellId} (hid : (Value.cons id).Placed m (.cons id')) :
    (m.left.cdr id).Placed m (m.right.cdr id') := by
  obtain rfl : id' = m.relocation.move id := Value.cons.inj hid.eq
  rw [h.relocated.cdr]
  exact h.place (h.left.cdr hid.left)

variable {v v' : Value} (hv : v.Placed m v')

include hv

theorem first : (m.left.first v).Placed m (m.right.first v') := by
  obtain ⟨hknown, -, rfl⟩ := hv
  rw [h.relocated.first]
  exact h.place (h.left.first hknown)

theorem second : (m.left.second v).Placed m (m.right.second v') := by
  obtain ⟨hknown, -, rfl⟩ := hv
  rw [h.relocated.second]
  exact h.place (h.left.second hknown)

theorem rest : (m.left.rest v).Placed m (m.right.rest v') := by
  obtain ⟨hknown, -, rfl⟩ := hv
  rw [h.relocated.rest]
  exact h.place (h.left.rest hknown)

theorem elementAt? (i : Nat) :
    Value.MaybePlaced m (m.left.elementAt? v i) (m.right.elementAt? v' i) := by
  obtain ⟨hknown, -, rfl⟩ := hv
  rw [h.relocated.elementAt?]
  cases hitem : m.left.elementAt? v i with
  | none => exact .inl ⟨rfl, rfl⟩
  | some item => exact .inr ⟨_, _, rfl, rfl, h.place (h.left.elementAt? hknown hitem)⟩

theorem third? : Value.MaybePlaced m (m.left.third? v) (m.right.third? v') :=
  h.elementAt? hv 2

theorem operand? (tag : SymbolId) :
    Value.MaybePlaced m (Template.operand? m.left tag v) (Template.operand? m.right tag v') := by
  obtain ⟨hknown, -, rfl⟩ := hv
  rw [h.relocated.operand?]
  cases hoperand : Template.operand? m.left tag v with
  | none => exact .inl ⟨rfl, rfl⟩
  | some operand => exact .inr ⟨_, _, rfl, rfl, h.place (h.left.operand? hknown hoperand)⟩

theorem lengthOf : m.right.lengthOf v' = m.left.lengthOf v := by
  rw [hv.eq, h.relocated.lengthOf]

theorem isProper : m.right.isProper v' = m.left.isProper v := by
  rw [hv.eq, h.relocated.isProper]

theorem print : m.right.print v' = m.left.print v := by
  rw [hv.eq, h.relocated.print]

end Mirror.Faithful

end SmallLisp
