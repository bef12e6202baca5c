import SmallLisp.Proofs.Mirroring

/-!
# Lists that are collected and lists that are linked

The one run collects the elements of a list and allocates its cells in the end, last one first. The
other one links a cell for each element as it comes, while forms are evaluated in between. Until the
list is finished its cells are no counterparts of anything, and what runs in between leaves them as
they are. Then the cells that the first run allocates find their counterparts in them.
-/

namespace SmallLisp

variable {α β α' β' : Type} {m n o : Mirror} {secret : CellId → Prop} {t u : Interp}

/-! ## Cells in a row -/

/-- The cells hold the values, each is linked to the one before it, and the first one to `next`. -/
inductive Strung (t : Interp) : List CellId → List Value → Value → Prop
  | nil (next : Value) : Strung t [] [] next
  | cell {id : CellId} {ids : List CellId} {v : Value} {vs : List Value} {next : Value}
      (hcell : t.cell id = ⟨v, next⟩) (hrest : Strung t ids vs (.cons id)) :
      Strung t (id :: ids) (v :: vs) next

namespace Strung

variable {ids : List CellId} {vs : List Value} {next : Value}

theorem congr (h : Strung t ids vs next) (hcells : ∀ id ∈ ids, u.cell id = t.cell id) :
    Strung u ids vs next := by
  induction h with
  | nil next => exact .nil next
  | @cell id ids v vs next hcell _ ih =>
    refine .cell ((hcells id List.mem_cons_self).trans hcell) (ih fun j hj => ?_)
    exact hcells j (List.mem_cons_of_mem _ hj)

/-- The first cell is linked to something else. -/
theorem setCdr (h : Strung t ids vs next) (hnodup : ids.Nodup) {id : CellId}
    (hid : ids.head? = some id) (hlt : id.index < t.cells.size) (w : Value) :
    Strung (t.setCdr id w) ids vs w := by
  cases h with
  | nil => cases hid
  | @cell j ids v vs _ hcell hrest =>
    cases hid
    refine .cell ?_ (hrest.congr fun j hj => t.cell_setCdr_of_ne w ?_)
    · have hcar : (t.setCdr id w).car id = v :=
        (t.car_setCdr id id w).trans (congrArg Cell.car hcell)
      exact congrArg₂ Cell.mk hcar (t.cdr_setCdr hlt w)
    · rintro rfl
      exact (List.nodup_cons.mp hnodup).1 hj

end Strung

/-! ## Linking a cell -/

namespace LinkedBuilder

variable {b : LinkedBuilder}

theorem others_push (b : LinkedBuilder) (v : Value) (t : Interp) :
    (b.push v t).2 = { t with cells := (b.push v t).2.cells } := by
  unfold push
  cases b.last <;> rfl

theorem size_push (b : LinkedBuilder) (v : Value) (t : Interp) :
    (b.push v t).2.cells.size = t.cells.size + 1 := by
  unfold push
  cases b.last with
  | none => exact t.size_allocCell v .nil
  | some last => exact (Interp.size_setCdr _ last _).trans (t.size_allocCell v .nil)

theorem last_push (b : LinkedBuilder) (v : Value) (t : Interp) :
    (b.push v t).1.last = some ⟨t.cells.size⟩ := by
  unfold push
  cases b.last <;> rfl

theorem head_push {ids : List CellId} (hhead : b.head = ids.getLast?) (hlast : b.last = ids.head?)
    (v : Value) : (b.push v t).1.head = (⟨t.cells.size⟩ :: ids).getLast? := by
  unfold push
  cases ids with
  | nil => rw [hlast]; rfl
  | cons id ids => rw [hlast, hhead, List.getLast?_cons_cons]; rfl

/-- Only the last cell is changed. -/
theorem cell_push (v : Value) {id : CellId} (hid : id.index < t.cells.size)
    (hlast : b.last ≠ some id) : (b.push v t).2.cell id = t.cell id := by
  have hold := (grown_allocCell t v .nil).cell id hid
  unfold push
  cases hb : b.last with
  | none => exact hold
  | some last =>
    refine (Interp.cell_setCdr_of_ne _ _ ?_).trans hold
    rintro rfl
    exact hlast hb

end LinkedBuilder

/-- The new cell comes first, and the one that was last so far is linked to it. -/
theorem Strung.push {b : LinkedBuilder} {ids : List CellId} {vs : List Value}
    (h : Strung t ids vs .nil) (hlast : b.last = ids.head?) (hnodup : ids.Nodup)
    (hids : ∀ id ∈ ids, id.index < t.cells.size) (v : Value) :
    Strung (b.push v t).2 (⟨t.cells.size⟩ :: ids) (v :: vs) .nil := by
  have hgrown := grown_allocCell t v .nil
  have hsize := t.size_allocCell v .nil
  have hcell : (t.allocCell v .nil).2.cell ⟨t.cells.size⟩ = ⟨v, .nil⟩ :=
    congrArg₂ Cell.mk (t.car_allocCell_new v .nil) (t.cdr_allocCell_new v .nil)
  have hkept : Strung (t.allocCell v .nil).2 ids vs .nil :=
    h.congr fun id hid => hgrown.cell id (hids id hid)
  unfold LinkedBuilder.push
  cases hb : b.last with
  | none =>
    rw [hb] at hlast
    obtain rfl := List.head?_eq_none_iff.mp hlast.symm
    cases h
    exact .cell hcell (.nil _)
  | some last =>
    rw [hb] at hlast
    have hmem : last.index < t.cells.size := hids last (List.mem_of_mem_head? hlast.symm)
    refine .cell ?_ (hkept.setCdr hnodup hlast.symm (Nat.lt_of_lt_of_le hmem hgrown.size_le) _)
    refine (Interp.cell_setCdr_of_ne _ _ ?_).trans hcell
    rintro rfl
    exact Nat.lt_irrefl _ hmem

/-! ## Finding the cells of a list -/

/-- A list that the first state allocates finds its counterpart in cells that the second one has. -/
theorem Mirror.Faithful.adoptAll {ids : List CellId} {items : List Value} {next next' : Value}
    (hm : m.Faithful)
    (hstrung : Strung m.right ids (items.map (Value.relocate m.relocation)) next')
    (hitems : ∀ v ∈ items, v.Known (fun _ => False) m.left) (hnext : next.Placed m next')
    (hids : ∀ id ∈ ids, id.index < m.right.cells.size ∧
      ∀ j : CellId, j.index < m.left.cells.size → m.relocation.move j ≠ id)
    (hnodup : ids.Nodup) :
    ∃ r : Relocation, Faithful ⟨r, (m.left.consReversed items next).2, m.right⟩ ∧
      (m.left.consReversed items next).1.Placed ⟨r, (m.left.consReversed items next).2, m.right⟩
        ((ids.getLast?.map Value.cons).getD next') ∧
      m.left.cells.size ≤ (m.left.consReversed items next).2.cells.size ∧
      (∀ j : CellId, j.index < m.left.cells.size → r.move j = m.relocation.move j) ∧
      ∀ j : CellId, m.left.cells.size ≤ j.index →
        j.index < (m.left.consReversed items next).2.cells.size → r.move j ∈ ids := by
  induction items generalizing m ids next next' with
  | nil =>
    cases hstrung
    exact ⟨m.relocation, hm, hnext, Nat.le_refl _, fun _ _ => rfl,
      fun _ hle hlt => absurd hlt (Nat.not_lt_of_le hle)⟩
  | cons v items ih =>
    obtain ⟨hv, hrest⟩ := List.forall_mem_cons.mp hitems
    rw [List.map_cons] at hstrung
    generalize hmap : items.map (Value.relocate m.relocation) = values at hstrung
    cases hstrung with
    | @cell id ids _ _ _ hcell hstrung =>
      obtain ⟨⟨hid, hapart⟩, hids⟩ := List.forall_mem_cons.mp hids
      obtain ⟨hnot, hnodup⟩ := List.nodup_cons.mp hnodup
      obtain ⟨r, hkept, hone, hn⟩ := hm.adopt hid hapart (hm.place hv) hnext hcell
      let n : Mirror := ⟨r, (m.left.allocCell v next).2, m.right⟩
      have hsize : n.left.cells.size = m.left.cells.size + 1 := m.left.size_allocCell v next
      have hle : m.left.cells.size ≤ n.left.cells.size := hsize ▸ Nat.le_succ _
      have hhead : (m.left.allocCell v next).1.Placed n (.cons id) := by
        have hmove : r.move ⟨m.left.cells.size⟩ = id :=
          hone _ (Nat.le_refl _) (Nat.lt_of_lt_of_eq (Nat.lt_succ_self _) hsize.symm)
        have hplaced := hn.place (hm.left.known_allocCell v next)
        rwa [show (m.left.allocCell v next).1.relocate r = .cons id from
          congrArg Value.cons hmove] at hplaced
      have hvalues : values = items.map (Value.relocate n.relocation) := by
        rw [← hmap]
        exact List.map_congr_left fun w hw => ((hrest w hw).relocate_eq hkept).symm
      have hids' : ∀ j ∈ ids, j.index < n.right.cells.size ∧
          ∀ k : CellId, k.index < n.left.cells.size → n.relocation.move k ≠ j := by
        refine fun j hj => ⟨(hids j hj).1, fun k hk heq => ?_⟩
        rcases Nat.lt_or_ge k.index m.left.cells.size with hold | hge
        · exact (hids j hj).2 k hold ((hkept k hold).symm.trans heq)
        · exact hnot ((hone k hge hk).symm.trans heq ▸ hj)
      rw [hvalues] at hstrung
      obtain ⟨r', hfaithful, hlist, hle', hkept', hnew'⟩ :=
        ih hn hstrung (fun w hw => (hrest w hw).mono hle) hhead hids' hnodup
      refine ⟨r', hfaithful, ?_, Nat.le_trans hle hle', fun j hj => ?_, fun j hj hlt => ?_⟩
      · rw [List.getLast?_cons]
        cases hlast : ids.getLast? <;> rw [hlast] at hlist <;> exact hlist
      · exact (hkept' j (Nat.lt_of_lt_of_le hj hle)).trans (hkept j hj)
      · rcases Nat.lt_or_ge j.index n.left.cells.size with hold | hge
        · rw [hkept' j hold]
          exact List.mem_cons.mpr (.inl (hone j hj hold))
        · exact List.mem_cons_of_mem _ (hnew' j hge hlt)

/-! ## Lists under construction -/

theorem ListBuilder.Known.relocate_eq {b : ListBuilder} {s : Interp} {r r' : Relocation}
    (h : b.Known (fun _ => False) s)
    (hkept : ∀ id : CellId, id.index < s.cells.size → r'.move id = r.move id) :
    b.reversed.map (Value.relocate r') = b.reversed.map (Value.relocate r) :=
  List.map_congr_left fun v hv => (h v hv).relocate_eq hkept

/-- The elements that have been collected on the left stand in the cells `ids` on the right, the
last one first. -/
structure GatheredIn (secret : CellId → Prop) (n : Mirror) (b : ListBuilder) (b' : LinkedBuilder)
    (ids : List CellId) : Prop where
  head : b'.head = ids.getLast?
  last : b'.last = ids.head?
  nodup : ids.Nodup
  secret : ∀ id ∈ ids, secret id
  strung : Strung n.right ids (b.reversed.map (Value.relocate n.relocation)) .nil

theorem GatheredIn.push {b : ListBuilder} {b' : LinkedBuilder} {ids : List CellId}
    {secret' : CellId → Prop} {r : Relocation} {v v' : Value} (h : GatheredIn secret n b b' ids)
    (hexist : ∀ id ∈ ids, id.index < n.right.cells.size) (hb : b.Known (fun _ => False) n.left)
    (hv : v.Placed n v')
    (hkept : ∀ id : CellId, id.index < n.left.cells.size → r.move id = n.relocation.move id)
    (hincluded : ∀ id, secret id → secret' id) (hcell : secret' ⟨n.right.cells.size⟩) :
    GatheredIn secret' ⟨r, n.left, (b'.push v' n.right).2⟩ (b.push v) (b'.push v' n.right).1
      (⟨n.right.cells.size⟩ :: ids) where
  head := LinkedBuilder.head_push h.head h.last v'
  last := b'.last_push v' n.right
  nodup := List.nodup_cons.mpr ⟨fun hmem => Nat.lt_irrefl _ (hexist _ hmem), h.nodup⟩
  secret := List.forall_mem_cons.mpr ⟨hcell, fun id hid => hincluded id (h.secret id hid)⟩
  strung := by
    have hvalues : (b.push v).reversed.map (Value.relocate r) =
        v' :: b.reversed.map (Value.relocate n.relocation) :=
      List.cons_eq_cons.mpr
        ⟨(hv.left.relocate_eq hkept).trans hv.eq.symm, hb.relocate_eq hkept⟩
    rw [hvalues]
    exact h.strung.push h.last h.nodup hexist v'

/-- A list that both runs have begun in the mirror `m` has come this far in `n`: what the first run
has collected stands in cells that the second one withholds, and which nothing on the left has as
its counterpart. -/
structure Gathered (m : Mirror) (secret : CellId → Prop) (n : Mirror) (b : ListBuilder)
    (b' : LinkedBuilder) : Prop where
  leads : m.Leads n
  faithful : n.Faithful
  known : b.Known (fun _ => False) n.left
  withheld : b'.Withheld (fun _ => False) secret m.right n.right
  apart : ∀ id : CellId, id.index < n.left.cells.size → ¬ secret (n.relocation.move id)
  cells : ∃ ids, GatheredIn secret n b b' ids

namespace Gathered

variable {b : ListBuilder} {b' : LinkedBuilder}

/-- The list has been begun in `m`, and has come this far. -/
def Begun (m n : Mirror) (b : ListBuilder) (b' : LinkedBuilder) : Prop :=
  ∃ secret, Gathered m secret n b b'

/-- After `n` more of it has been gathered. -/
abbrev Further (m n o : Mirror) (b : ListBuilder) (b' : LinkedBuilder) : Prop :=
  n.Leads o ∧ Begun m o b b'

theorem start (hm : m.Faithful) : Gathered m (fun _ => False) m .empty .empty where
  leads := .refl m
  faithful := hm
  known := .empty
  withheld := .empty hm.right
  apart := fun _ _ => not_false
  cells := ⟨[], rfl, rfl, List.nodup_nil, fun _ hid => absurd hid List.not_mem_nil, .nil .nil⟩

/-- No counterpart is in the list. -/
theorem not_mem (h : Gathered m secret n b b') {ids : List CellId}
    (hids : GatheredIn secret n b b' ids) {id : CellId} (hid : id.index < n.left.cells.size) :
    n.relocation.move id ∉ ids :=
  fun hmem => h.apart id hid (hids.secret _ hmem)

/-- The cells of the list are there. -/
theorem exist (h : Gathered m secret n b b') {ids : List CellId}
    (hids : GatheredIn secret n b b' ids) : ∀ id ∈ ids, id.index < n.right.cells.size :=
  fun id hid => h.withheld.withholds.exist id (hids.secret id hid)

/-- Counterparts are not in the list. -/
theorem known_right (h : Gathered m secret n b b') {v v' : Value} (hv : v.Placed n v') :
    v'.Known secret n.right := by
  obtain ⟨hknown, hright, rfl⟩ := hv
  cases v with
  | cons id =>
    rintro id' hid'
    cases hid'
    exact ⟨(hright _ rfl).1, h.apart id (hknown id rfl).1⟩
  | _ => exact fun id hid => by cases hid

theorem entrusts (h : Gathered m secret n b b') : n.right.Entrusts secret .nil :=
  ⟨h.withheld.withholds, .nil⟩

/-- What runs meanwhile leaves the list as it is. -/
theorem after (h : Gathered m secret n b b') (hno : n.Leads o) (ho : o.Faithful)
    (hspared : Spared secret n.right o.right) : Gathered m secret o b b' where
  leads := h.leads.trans hno
  faithful := ho
  known := fun v hv => (h.known v hv).mono hno.left
  withheld := h.withheld.after hspared
  apart := by
    intro id hid hsecret
    rcases Nat.lt_or_ge id.index n.left.cells.size with hold | hge
    · rw [hno.kept id hold] at hsecret
      exact h.apart id hold hsecret
    · exact Nat.not_lt_of_le (hno.new id hge hid) (h.withheld.withholds.exist _ hsecret)
  cells := by
    obtain ⟨ids, hids⟩ := h.cells
    refine ⟨ids, { hids with strung := ?_ }⟩
    rw [h.known.relocate_eq hno.kept]
    exact hids.strung.congr fun id hid => hspared.kept id (hids.secret id hid)

/-- Runs on both sides, the second of which is discreet about the list. -/
theorem bind {good : Mirror → α → α' → Prop} {good' : Mirror → β → β' → Prop}
    {known : Interp → α' → Prop} {act : EvalM α} {act' : EvalM α'} {next : α → EvalM β}
    {next' : α' → EvalM β'} (h : Gathered m secret n b b')
    (hact : Mirrored good n (act n.left) (act' n.right))
    (hright : Discreet secret known n.right (act' n.right))
    (hnext : ∀ o a a', n.Leads o → Gathered m secret o b b' → good o a a' →
      Mirrored good' m (next a o.left) (next' a' o.right)) :
    Mirrored good' m ((act >>= next) n.left) ((act' >>= next') n.right) := by
  change Mirrored good' m (EStateM.bind act next n.left) (EStateM.bind act' next' n.right)
  unfold EStateM.bind
  generalize act n.left = res at hact
  generalize act' n.right = res' at hact hright
  cases hact with
  | ok hno ho hgood =>
    cases hright with
    | ok hspared _ => exact hnext _ _ _ hno (h.after hno ho hspared) hgood
  | error hno ho hflow => exact .error (h.leads.trans hno) ho hflow

/-- A cell on the right for one more element on the left. -/
theorem push (h : Gathered m secret n b b') {v v' : Value} (hv : v.Placed n v') :
    ∃ r secret', Gathered m secret' ⟨r, n.left, (b'.push v' n.right).2⟩ (b.push v)
      (b'.push v' n.right).1 ∧ n.Leads ⟨r, n.left, (b'.push v' n.right).2⟩ := by
  obtain ⟨secret', hpushed, hincluded, hknown⟩ := h.withheld.push (h.known_right hv)
  obtain ⟨ids, hids⟩ := h.cells
  have hmove : ∀ id : CellId, id.index < n.left.cells.size →
      (Value.cons (n.relocation.move id)).Known secret n.right := by
    intro id hid j hj
    cases hj
    exact ⟨h.faithful.move_lt hid, h.apart id hid⟩
  have hkept : ∀ id : CellId, id.index < n.left.cells.size →
      (b'.push v' n.right).2.cell (n.relocation.move id) =
        n.right.cell (n.relocation.move id) := by
    intro id hid
    refine LinkedBuilder.cell_push v' (h.faithful.move_lt hid) fun heq => ?_
    rw [hids.last] at heq
    exact h.not_mem hids hid (List.mem_of_mem_head? heq)
  obtain ⟨r, hleads, hfaithful⟩ := h.faithful.beside (b'.others_push v' n.right)
    (by rw [b'.size_push]; exact Nat.le_succ _) hkept hpushed.spared.withholds
  have hcell : secret' ⟨n.right.cells.size⟩ :=
    (hpushed.own _ (.inr (b'.last_push v' n.right))).1
  refine ⟨r, secret', ⟨h.leads.trans hleads, hfaithful, h.known.push hv.left, hpushed, ?_,
    _, hids.push (h.exist hids) h.known hv hleads.kept hincluded hcell⟩, hleads⟩
  intro id hid hsecret'
  rw [hleads.kept id hid] at hsecret'
  exact (hknown _ (hmove id hid) _ rfl).2 hsecret'

theorem pushed (h : Gathered m secret n b b') {v v' : Value} (hv : v.Placed n v') :
    Mirrored (Further m n) m ((Pure.pure (b.push v) : EvalM ListBuilder) n.left)
      (EvalM.step (b'.push v') n.right) := by
  obtain ⟨r, secret', hpushed, hleads⟩ := h.push hv
  exact .ok hpushed.leads hpushed.faithful ⟨hleads, secret', hpushed⟩

/-- The elements of a list in front of those that have been collected are linked one by one. -/
theorem walk {s : Interp} {v tail : Value} {ids : List CellId} (hspine : Spine s v ids tail)
    {r : Relocation} {v' : Value} (h : Gathered m secret ⟨r, s, t⟩ b b')
    (hv : v.Placed ⟨r, s, t⟩ v') :
    Mirrored (Further m ⟨r, s, t⟩) m (.ok ⟨(ids.map s.car).reverseAux b.reversed⟩ s)
      (EvalM.walk (fun item b' => do
        let b' ← EvalM.step (LinkedBuilder.push b' item)
        pure (.yield b')) ids.length v' b' t) := by
  induction hspine generalizing r t secret v' b b' with
  | @atom v hatom =>
    have hatom' : ¬ v'.IsCell := by
      rintro ⟨id, hid⟩
      rw [hv.eq] at hid
      cases v with
      | cons j => exact hatom ⟨j, rfl⟩
      | _ => cases hid
    rw [EvalM.walk_atom hatom']
    exact .ok h.leads h.faithful ⟨.refl _, secret, h⟩
  | @cell id ids tail _ ih =>
    obtain ⟨hknown, -, rfl⟩ := hv
    have hcar := h.faithful.place (h.faithful.left.car hknown)
    have hcdr := h.faithful.place (h.faithful.left.cdr hknown)
    rw [← h.faithful.relocated.car] at hcar
    rw [← h.faithful.relocated.cdr] at hcdr
    obtain ⟨r', secret', hpushed, hleads⟩ := h.push hcar
    exact (ih hpushed (hleads.placed hcdr)).mono fun _ _ _ hdone =>
      ⟨hleads.trans hdone.1, hdone.2⟩

theorem append (h : Gathered m secret n b b') {v v' : Value} (hv : v.Placed n v')
    (hproper : n.left.isProper v = true) :
    Mirrored (Further m n) m (EvalM.read (fun s => b.append s v) n.left)
      (EvalM.forEach v' b' (fun item b' => do
        let b' ← EvalM.step (LinkedBuilder.push b' item)
        pure (.yield b')) n.right) := by
  obtain ⟨ids, hspine, -⟩ := ProperList.iff_spine.mp (ProperList.iff_isProper.mpr ⟨hproper, rfl⟩)
  have hlength : n.right.lengthOf v' = ids.length := by
    rw [hv.eq, h.faithful.relocated.lengthOf, Interp.lengthOf, Interp.cellsOf, hspine.spine_eq]
  have hitems : n.left.elementsOf v = ids.map n.left.car := by
    rw [Interp.elementsOf, Interp.cellsOf, hspine.spine_eq]
  show Mirrored (Further m n) m (.ok (b.append n.left v) n.left)
    (EvalM.walk _ (n.right.lengthOf v') v' b' n.right)
  unfold ListBuilder.append
  rw [hlength, hitems]
  exact walk hspine h hv

/-- On the right the last cell is linked to the tail. -/
theorem link (h : Gathered m secret n b b') {ids : List CellId}
    (hids : GatheredIn secret n b b' ids) {tail tail' : Value} (htail : tail.Placed n tail') :
    ∃ r w, b'.finish n.right tail' = ((ids.getLast?.map Value.cons).getD tail', w) ∧
      w.cells.size = n.right.cells.size ∧ n.Leads ⟨r, n.left, w⟩ ∧
      Mirror.Faithful ⟨r, n.left, w⟩ ∧
      Strung w ids (b.reversed.map (Value.relocate r)) tail' := by
  have hstrung := hids.strung
  cases ids with
  | nil =>
    have hfinish : b'.finish n.right tail' = (tail', n.right) := by
      unfold LinkedBuilder.finish
      rw [hids.head]
      rfl
    refine ⟨n.relocation, n.right, hfinish, rfl, .refl n, h.faithful, ?_⟩
    generalize b.reversed.map (Value.relocate n.relocation) = values at hstrung
    cases hstrung
    exact .nil tail'
  | cons last ids =>
    let w := n.right.setCdr last tail'
    obtain ⟨head, hhead⟩ : ∃ head, (last :: ids).getLast? = some head := ⟨_, List.getLast?_cons⟩
    have hfinish : b'.finish n.right tail' = (.cons head, w) := by
      unfold LinkedBuilder.finish
      rw [hids.head, hids.last, hhead]
      rfl
    have hspared := (h.withheld.finish (h.known_right htail)).1
    rw [hfinish] at hspared
    have hsize : w.cells.size = n.right.cells.size := n.right.size_setCdr last tail'
    have hkept : ∀ id : CellId, id.index < n.left.cells.size →
        w.cell (n.relocation.move id) = n.right.cell (n.relocation.move id) := by
      intro id hid
      refine n.right.cell_setCdr_of_ne tail' ?_
      rintro rfl
      exact h.not_mem hids hid List.mem_cons_self
    obtain ⟨r, hleads, hfaithful⟩ := h.faithful.beside rfl hsize.ge hkept hspared.withholds
    refine ⟨r, w, ?_, hsize, hleads, hfaithful, ?_⟩
    · rw [hhead]
      exact hfinish
    · rw [h.known.relocate_eq hleads.kept]
      exact hstrung.setCdr hids.nodup rfl (h.exist hids last List.mem_cons_self) tail'

/-- The list is finished: its cells come into the mirror. -/
theorem finish (h : Gathered m secret n b b') {tail tail' : Value} (htail : tail.Placed n tail') :
    Mirrored Value.Placed m (EvalM.build b tail n.left)
      (EvalM.step (fun s => b'.finish s tail') n.right) := by
  obtain ⟨ids, hids⟩ := h.cells
  obtain ⟨r, w, hfinish, hsize, hleads, hfaithful, hstrung⟩ := h.link hids htail
  have hapart : ∀ id ∈ ids, id.index < w.cells.size ∧
      ∀ j : CellId, j.index < n.left.cells.size → r.move j ≠ id := by
    refine fun id hid => ⟨hsize.symm ▸ h.exist hids id hid, fun j hj heq => ?_⟩
    exact h.not_mem hids hj ((hleads.kept j hj).symm.trans heq ▸ hid)
  obtain ⟨r', hdone, hlist, hle, hkept, hnew⟩ :=
    hfaithful.adoptAll hstrung h.known (hleads.placed htail) hapart hids.nodup
  have hold : ∀ id : CellId, id.index < n.left.cells.size →
      r'.move id = n.relocation.move id :=
    fun id hid => (hkept id hid).trans (hleads.kept id hid)
  show Mirrored Value.Placed m (.ok (n.left.consReversed b.reversed tail).1
    (n.left.consReversed b.reversed tail).2)
    (.ok (b'.finish n.right tail').1 (b'.finish n.right tail').2)
  rw [hfinish]
  refine .ok (n := ⟨r', (n.left.consReversed b.reversed tail).2, w⟩) ⟨?_, ?_, ?_, ?_⟩ hdone hlist
  · exact Nat.le_trans h.leads.left hle
  · exact Nat.le_trans h.leads.right hsize.ge
  · intro id hid
    exact (hold id (Nat.lt_of_lt_of_le hid h.leads.left)).trans (h.leads.kept id hid)
  · intro id hge hlt
    rcases Nat.lt_or_ge id.index n.left.cells.size with hlt' | hge'
    · exact hold id hlt' ▸ h.leads.new id hge hlt'
    · exact (h.withheld.new _ (hids.secret _ (hnew id hge' hlt))).resolve_left not_false

end Gathered

end SmallLisp
