import SmallLisp.Proofs.Arguments

/-!
# Indexed sequences

Lists, arrays and strings have elements under the integers from zero up to their length.
`Interp.Sequence` gives the elements in order; from them on, what an operation does under a key is
what the index check says of the key. An assignment stores into the cell or the slot that the index
leads to and into nothing else. That an index which passed the check leads somewhere is looked at
once more, and it always does.
-/

namespace SmallLisp

variable {s u : Interp} {t key v : Value} {items : List Value}

/-- The elements of a sequence in order. The cells of a list are in the store; it ends in any
atom. -/
inductive Interp.Sequence (s : Interp) : Value → List Value → Prop
  | list {t tail : Value} {ids : List CellId} (hlist : t.isList = true)
      (hspine : Spine s t ids tail) (hstored : ∀ id ∈ ids, id.index < s.cells.size) :
      Sequence s t (ids.map s.car)
  | array (id : ArrayId) : Sequence s (.array id) (s.arrayItems id).toList
  | string (text : String) : Sequence s (.string text) (text.toList.map .character)

/-- The key is an integer from zero up to a length, the length excluded. -/
def Value.Indexes (key : Value) (length : Nat) : Prop :=
  ∃ n : Int64, key = .ofInt64 n ∧ 0 ≤ n.toInt ∧ n.toInt < length

def Value.isString : Value → Bool
  | .string _ => true
  | _ => false

/-- `u` is `s` with `v` in one place: every other half of a cell and every other slot of an array
is as it was, and so is everything outside of cells and arrays. -/
inductive Interp.OnlyReplaced (s : Interp) (v : Value) : Place → Interp → Prop
  | cell {id : CellId} {u : Interp} (hsize : u.cells.size = s.cells.size)
      (hcells : ∀ j, u.cell j = if j = id then ⟨v, s.cdr id⟩ else s.cell j)
      (hothers : u = { s with cells := u.cells }) : OnlyReplaced s v (.cell id) u
  | item {id : ArrayId} {i : Nat} {u : Interp} (hsize : u.arrays.size = s.arrays.size)
      (hitems : ∀ j k, (u.arrayItems j)[k]? =
        if j = id ∧ k = i then some v else (s.arrayItems j)[k]?)
      (hothers : u = { s with arrays := u.arrays }) : OnlyReplaced s v (.item id i) u

/-! ## The index check -/

theorem Interp.indexBelow_eq_ok_iff {length i : Nat} :
    s.indexBelow key length = .ok i ↔ ∃ n : Int64, key = .ofInt64 n ∧ n.toInt = i ∧ i < length := by
  unfold indexBelow
  constructor
  · intro h
    split at h
    next n =>
      split at h
      next hn =>
        cases h
        exact ⟨n, rfl, by omega, by omega⟩
      next => cases h
    next => cases h
  · rintro ⟨n, rfl, hn, hi⟩
    simp only [Value.ofInt64]
    rw [if_pos (by omega), hn]
    rfl

theorem Value.indexes_iff {length : Nat} (s : Interp) :
    key.Indexes length ↔ ∃ i, s.indexBelow key length = .ok i := by
  simp only [Interp.indexBelow_eq_ok_iff]
  constructor
  · rintro ⟨n, hkey, hnonneg, hlt⟩
    exact ⟨n.toInt.toNat, n, hkey, by omega, by omega⟩
  · rintro ⟨i, n, hkey, hn, hlt⟩
    exact ⟨n, hkey, by omega, by omega⟩

/-- Where every index below the length leads somewhere, looking once more changes nothing. -/
theorem Interp.lookUp_eq {α : Type} {found : List α} {find : Nat → Option α} (default : α)
    (hfind : ∀ i, find i = found[i]?) :
    s.lookUp key found.length find =
      (s.indexBelow key found.length).map fun i => (found[i]?).getD default := by
  unfold lookUp
  cases hindex : s.indexBelow key found.length with
  | error fault => rfl
  | ok i =>
    obtain ⟨n, -, -, hi⟩ := indexBelow_eq_ok_iff.mp hindex
    simp [hfind, Except.map, List.getElem?_eq_getElem hi]

/-! ## Reading -/

namespace Interp.Sequence

theorem length (h : s.Sequence t items) : s.length t = .ok items.length := by
  cases h with
  | @list _ _ ids hlist hspine _ =>
    have hlength : s.lengthOf t = (ids.map s.car).length := by
      rw [lengthOf, cellsOf, hspine.spine_eq, List.length_map]
    cases t with
    | nil | cons _ => exact congrArg Except.ok hlength
    | _ => cases hlist
  | array id => rfl
  | string text => simp [Interp.length, ← String.length_toList]

theorem entries (h : s.Sequence t items) : s.entries t = .ok (indexed items) := by
  cases h with
  | @list _ _ ids hlist hspine _ =>
    have helements : s.elementsOf t = ids.map s.car := by
      rw [elementsOf, cellsOf, hspine.spine_eq]
    cases t with
    | nil | cons _ => exact congrArg (fun vs => Except.ok (indexed vs)) helements
    | _ => cases hlist
  | array id => rfl
  | string text => rfl

/-- The element of a sequence under a key is the one that the index check leads to. -/
theorem access (h : s.Sequence t items) (key : Value) :
    s.access t key = (s.indexBelow key items.length).map fun i => (items[i]?).getD .nil := by
  cases h with
  | @list _ _ ids hlist hspine _ =>
    have hlength : s.lengthOf t = (ids.map s.car).length := by
      rw [lengthOf, cellsOf, hspine.spine_eq, List.length_map]
    have hfind : ∀ i, s.elementAt? t i = (ids.map s.car)[i]? := by
      intro i
      rw [elementAt?, hspine.cellAt?, List.getElem?_map]
    rw [← lookUp_eq .nil hfind, ← hlength]
    cases t with
    | nil | cons _ => rfl
    | _ => cases hlist
  | array id => simp [Interp.access]
  | string text =>
    have hfind : ∀ i, (text.toList[i]?).map Value.character =
        (text.toList.map Value.character)[i]? := fun i => List.getElem?_map.symm
    rw [← lookUp_eq .nil hfind, List.length_map]
    rfl

end Interp.Sequence

/-! ## Replacing an element -/

theorem Interp.cell_setCar_eq (s : Interp) {id : CellId} (hid : id.index < s.cells.size)
    (v : Value) (j : CellId) :
    (s.setCar id v).cell j = if j = id then ⟨v, s.cdr id⟩ else s.cell j := by
  by_cases hj : j = id
  · subst hj
    rw [if_pos rfl, setCar, cell, Array.getElem?_modify, if_pos rfl]
    simp [cdr, cell, hid]
  · have hindex : id.index ≠ j.index := fun h => hj (by cases id; cases j; simp_all)
    simp [setCar, cell, Array.getElem?_modify, hj, hindex]

theorem Interp.arrayItems_setArrayItem (s : Interp) (id : ArrayId) {i : Nat}
    (hi : i < (s.arrayItems id).size) (v : Value) (j : ArrayId) (k : Nat) :
    ((s.setArrayItem id i v).arrayItems j)[k]? =
      if j = id ∧ k = i then some v else (s.arrayItems j)[k]? := by
  by_cases hj : j = id
  · subst hj
    have hthere : j.index < s.arrays.size := by
      by_contra hmissing
      simp [arrayItems, Array.getElem?_eq_none (Nat.le_of_not_lt hmissing)] at hi
    have hitems : (s.setArrayItem j i v).arrayItems j = (s.arrayItems j).setIfInBounds i v := by
      simp [setArrayItem, arrayItems, Array.getElem?_modify, Array.getElem?_eq_getElem hthere]
    rw [hitems, Array.getElem?_setIfInBounds]
    by_cases hk : k = i
    · subst hk
      simp [hi]
    · simp [hk, Ne.symm hk]
  · have hindex : id.index ≠ j.index := fun h => hj (by cases id; cases j; simp_all)
    simp [setArrayItem, arrayItems, Array.getElem?_modify, hj, hindex]

/-- A spine depends on second halves only. -/
theorem Spine.of_cdr {ids : List CellId} {tail : Value} (h : Spine s t ids tail)
    (hcdr : ∀ id, u.cdr id = s.cdr id) : Spine u t ids tail := by
  induction h with
  | atom hatom => exact .atom hatom
  | @cell id ids tail _ ih =>
    refine .cell ?_
    rw [hcdr]
    exact ih

/-- Storing into the cell at a position replaces the element there, since no cell is met twice. -/
theorem Spine.map_car_setCar {ids : List CellId} {tail : Value} (h : Spine s t ids tail) {i : Nat}
    (hi : i < ids.length) (hid : ids[i].index < s.cells.size) (v : Value) :
    ids.map (s.setCar ids[i] v).car = (ids.map s.car).set i v := by
  refine List.ext_getElem (by simp) fun k hk _ => ?_
  rw [List.length_map] at hk
  rw [List.getElem_map, List.getElem_set, List.getElem_map, Interp.car,
    s.cell_setCar_eq hid v ids[k]]
  by_cases hik : i = k
  · subst hik
    rw [if_pos rfl, if_pos rfl]
  · have hne : ids[k] ≠ ids[i] := fun heq => hik (h.nodup.getElem_inj_iff.mp heq).symm
    rw [if_neg hne, if_neg hik]
    rfl

theorem Interp.toList_arrayItems_setArrayItem (s : Interp) (id : ArrayId) {i : Nat}
    (hi : i < (s.arrayItems id).size) (v : Value) :
    ((s.setArrayItem id i v).arrayItems id).toList = (s.arrayItems id).toList.set i v := by
  refine List.ext_getElem? fun k => ?_
  rw [Array.getElem?_toList, s.arrayItems_setArrayItem id hi v id k, List.getElem?_set]
  by_cases hk : i = k
  · subst hk
    simp [hi]
  · simp [hk, Ne.symm hk]

/-- The places of a sequence that is no string. What is stored in one of them is the element there
from then on, and nothing else is replaced. -/
structure Interp.Places (s : Interp) (t : Value) (items : List Value) (place : Nat → Place) :
    Prop where
  leads : ∀ key, s.place t key = (s.indexBelow key items.length).map place
  sequence : ∀ i v, i < items.length → (s.store v (place i)).Sequence t (items.set i v)
  replaced : ∀ i v, i < items.length → s.OnlyReplaced v (place i) (s.store v (place i))

theorem Spine.places {ids : List CellId} {tail : Value} (h : Spine s t ids tail)
    (hlist : t.isList = true) (hstored : ∀ id ∈ ids, id.index < s.cells.size) :
    s.Places t (ids.map s.car) fun i => .cell ((ids[i]?).getD default) := by
  have hthere : ∀ i (hi : i < ids.length), ids[i].index < s.cells.size :=
    fun i hi => hstored _ (List.getElem_mem hi)
  constructor
  case leads =>
    intro key
    have hlength : s.lengthOf t = ids.length := by
      rw [Interp.lengthOf, Interp.cellsOf, h.spine_eq]
    have hplace : s.place t key =
        (s.lookUp key (s.lengthOf t) fun i => s.cellAt? i t).map Place.cell := by
      cases t with
      | nil | cons _ => rfl
      | _ => cases hlist
    rw [hplace, hlength, Interp.lookUp_eq default h.cellAt?, List.length_map]
    cases s.indexBelow key ids.length <;> rfl
  case sequence =>
    intro i v hi
    rw [List.length_map] at hi
    rw [List.getElem?_eq_getElem hi, Option.getD_some, ← h.map_car_setCar hi (hthere i hi) v]
    refine .list hlist (h.of_cdr fun j => s.cdr_setCar ids[i] j v) fun j hj => ?_
    show j.index < (s.cells.modify _ _).size
    rw [Array.size_modify]
    exact hstored j hj
  case replaced =>
    intro i v hi
    rw [List.length_map] at hi
    rw [List.getElem?_eq_getElem hi, Option.getD_some]
    exact .cell Array.size_modify (s.cell_setCar_eq (hthere i hi) v) rfl

theorem Interp.places_array (s : Interp) (id : ArrayId) :
    s.Places (.array id) (s.arrayItems id).toList (.item id) where
  leads _ := rfl
  sequence i v hi := by
    rw [Array.length_toList] at hi
    rw [← s.toList_arrayItems_setArrayItem id hi v]
    exact .array id
  replaced i v hi := .item Array.size_modify (s.arrayItems_setArrayItem id hi v) rfl

theorem Interp.Sequence.places (h : s.Sequence t items) (ht : t.isString = false) :
    ∃ place, s.Places t items place := by
  cases h with
  | list hlist hspine hstored => exact ⟨_, hspine.places hlist hstored⟩
  | array id => exact ⟨_, s.places_array id⟩
  | string text => cases ht

/-! ## The contract -/

/-- How a sequence of a length is read by index. -/
structure Interp.ReadByIndex (s : Interp) (t : Value) (size : Nat) : Prop where
  length : s.length t = .ok size
  access_iff : ∀ key, (∃ v, s.access t key = .ok v) ↔ key.Indexes size
  /-- A fault is one of the index check: the look after it finds something. -/
  refused : ∀ key fault, s.access t key = .error fault → s.indexBelow key size = .error fault
  entries : ∃ entries, s.entries t = .ok entries ∧ entries.length = size ∧
    ∀ n : Int64, (Value.ofInt64 n).Indexes size →
      ∃ v, s.access t (.ofInt64 n) = .ok v ∧ entries[n.toInt.toNat]? = some (v, .ofInt64 n)
  unchanged : ∀ arguments fault, s.first arguments = t →
    s.access t (s.second arguments) = .error fault →
    Operation.element arguments s = .error (.fault fault) s

/-- How a sequence of a length is written by index. -/
structure Interp.WrittenByIndex (s : Interp) (t : Value) (size : Nat) : Prop where
  assign_iff : ∀ key v, (∃ u, EvalM.assign t key v s = .ok () u) ↔ key.Indexes size
  /-- Every other key has the fault of the index check: the look after it finds a place. But the
  interpreter panics where the text of the key goes through the array that is assigned to. -/
  refused : ∀ key v, ¬ key.Indexes size →
    (∃ id, t = .array id ∧ s.rendersArray id printLevels key = true ∧
      EvalM.assign t key v s = .error .panicked s) ∨
    (∀ id, t = .array id → s.rendersArray id printLevels key = false) ∧
      ∃ fault, s.indexBelow key size = .error fault ∧
        EvalM.assign t key v s = .error (.fault fault) s
  assigned : ∀ key v u, EvalM.assign t key v s = .ok () u →
    u.length t = .ok size ∧ u.access t key = .ok v ∧
    (∀ n : Int64, .ofInt64 n ≠ key → u.access t (.ofInt64 n) = s.access t (.ofInt64 n)) ∧
    ∃ place, s.place t key = .ok place ∧ s.OnlyReplaced v place u
  unchanged : ∀ arguments v, s.first arguments = t → ¬ (s.second arguments).Indexes size →
    ∃ flow, EvalM.assign t (s.second arguments) v s = .error flow s ∧
      SpecialForm.assignElement arguments v s = .error flow s

theorem getElem?_indexed (items : List Value) (i : Nat) :
    (indexed items)[i]? = (items[i]?).map fun v => (v, Value.ofNat i) := by
  simp [indexed, List.getElem?_zipIdx, Function.comp_def]

/-- The check of an integer does not depend on the state. -/
theorem Interp.indexBelow_ofInt64 (s u : Interp) (n : Int64) (length : Nat) :
    u.indexBelow (.ofInt64 n) length = s.indexBelow (.ofInt64 n) length := rfl

theorem Interp.Sequence.readByIndex (h : s.Sequence t items) : s.ReadByIndex t items.length where
  length := h.length
  access_iff key := by
    rw [h.access, Value.indexes_iff s]
    cases s.indexBelow key items.length <;> simp [Except.map]
  refused key fault hfault := by
    rw [h.access] at hfault
    cases hindex : s.indexBelow key items.length with
    | ok i => rw [hindex] at hfault; cases hfault
    | error fault' => rw [hindex] at hfault; cases hfault; rfl
  entries := by
    refine ⟨indexed items, h.entries, by simp [indexed], fun n hn => ?_⟩
    obtain ⟨m, heq, hnonneg, hlt⟩ := hn
    cases heq
    have hindex : s.indexBelow (.ofInt64 n) items.length = .ok n.toInt.toNat :=
      indexBelow_eq_ok_iff.mpr ⟨n, rfl, by omega, by omega⟩
    have hi : n.toInt.toNat < items.length := by omega
    refine ⟨items[n.toInt.toNat], ?_, ?_⟩
    · rw [h.access, hindex, Except.map, List.getElem?_eq_getElem hi, Option.getD_some]
    · rw [getElem?_indexed, List.getElem?_eq_getElem hi, Value.ofNat,
        show Int64.ofNat n.toInt.toNat = n from
          Int64.ofNat_toNatClampNeg n (Int64.le_iff_toInt_le.mpr hnonneg)]
      rfl
  unchanged arguments fault harguments hfault := by
    subst harguments
    simp only [Operation.element, Operation.query, hfault]

/-- An assignment to a sequence looks back where the text of its key goes through the array. -/
theorem Interp.looksBack_iff {key : Value} (ht : t.isString = false) (h : s.Sequence t items) :
    s.looksBack t key = true ↔ ∃ id, t = .array id ∧ s.rendersArray id printLevels key = true := by
  cases h with
  | list hlist =>
    cases t with
    | nil | cons id => exact ⟨fun h => (Bool.false_ne_true h).elim, fun ⟨_, h, _⟩ => by cases h⟩
    | _ => cases hlist
  | array id => exact ⟨fun h => ⟨id, rfl, h⟩, fun ⟨_, h, hrenders⟩ => by cases h; exact hrenders⟩
  | string text => cases ht

/-- The text of a number goes through no array. -/
theorem Interp.looksBack_of_indexes {key : Value} {size : Nat} (ht : t.isString = false)
    (h : s.Sequence t items) (hkey : key.Indexes size) : s.looksBack t key = false := by
  obtain ⟨n, rfl, -⟩ := hkey
  rw [Bool.eq_false_iff, Ne, looksBack_iff ht h]
  rintro ⟨id, -, hrenders⟩
  cases hrenders

theorem Interp.Sequence.writtenByIndex (h : s.Sequence t items) (ht : t.isString = false) :
    s.WrittenByIndex t items.length := by
  obtain ⟨place, hplace⟩ := h.places ht
  have hassign : ∀ key v, EvalM.assign t key v s =
      if s.looksBack t key then .error .panicked s
      else match s.indexBelow key items.length with
        | .ok i => .ok () (s.store v (place i))
        | .error fault => .error (.fault fault) s := by
    intro key v
    unfold EvalM.assign Interp.assign
    rw [hplace.leads]
    cases s.indexBelow key items.length <;> rfl
  have hok : ∀ key v u, EvalM.assign t key v s = .ok () u →
      ∃ i, s.indexBelow key items.length = .ok i ∧ u = s.store v (place i) := by
    intro key v u hu
    rw [hassign] at hu
    split at hu
    · cases hu
    · cases hindex : s.indexBelow key items.length with
      | error fault => rw [hindex] at hu; cases hu
      | ok i => rw [hindex] at hu; cases hu; exact ⟨i, rfl, rfl⟩
  have hrefused : ∀ key v, ¬ key.Indexes items.length →
      s.looksBack t key = true ∧ EvalM.assign t key v s = .error .panicked s ∨
      s.looksBack t key = false ∧ ∃ fault, s.indexBelow key items.length = .error fault ∧
        EvalM.assign t key v s = .error (.fault fault) s := by
    intro key v hkey
    rw [Value.indexes_iff s] at hkey
    cases hback : s.looksBack t key with
    | true => exact .inl ⟨rfl, by rw [hassign, hback]; rfl⟩
    | false =>
      cases hindex : s.indexBelow key items.length with
      | ok i => exact absurd ⟨i, hindex⟩ hkey
      | error fault => exact .inr ⟨rfl, fault, rfl, by rw [hassign, hback, hindex]; rfl⟩
  constructor
  case assign_iff =>
    intro key v
    constructor
    · rintro ⟨u, hu⟩
      obtain ⟨i, hindex, -⟩ := hok key v u hu
      exact (Value.indexes_iff s).mpr ⟨i, hindex⟩
    · intro hkey
      obtain ⟨i, hindex⟩ := (Value.indexes_iff s).mp hkey
      exact ⟨_, by rw [hassign, looksBack_of_indexes ht h hkey, hindex]; rfl⟩
  case refused =>
    intro key v hkey
    rcases hrefused key v hkey with ⟨hback, hpanic⟩ | ⟨hback, hfault⟩
    · obtain ⟨id, hid, hrenders⟩ := (looksBack_iff ht h).mp hback
      exact .inl ⟨id, hid, hrenders, hpanic⟩
    · refine .inr ⟨fun id hid => Bool.eq_false_iff.mpr fun hrenders => ?_, hfault⟩
      rw [(looksBack_iff ht h).mpr ⟨id, hid, hrenders⟩] at hback
      cases hback
  case assigned =>
    intro key v u hu
    obtain ⟨i, hindex, rfl⟩ := hok key v u hu
    obtain ⟨n, rfl, hn, hi⟩ := indexBelow_eq_ok_iff.mp hindex
    have hstored := hplace.sequence i v hi
    refine ⟨?_, ?_, fun m hm => ?_, place i, ?_, hplace.replaced i v hi⟩
    · rw [hstored.length, List.length_set]
    · rw [hstored.access, List.length_set, s.indexBelow_ofInt64, hindex]
      simp [Except.map, hi]
    · rw [hstored.access, h.access, List.length_set, s.indexBelow_ofInt64]
      cases hother : s.indexBelow (.ofInt64 m) items.length with
      | error fault => rfl
      | ok k =>
        obtain ⟨m', heq, hm', -⟩ := indexBelow_eq_ok_iff.mp hother
        cases heq
        have hne : i ≠ k := by
          rintro rfl
          exact hm (by rw [Int64.toInt_inj.mp (hn.trans hm'.symm)])
        simp [Except.map, List.getElem?_set_ne hne]
    · rw [hplace.leads, hindex]
      rfl
  case unchanged =>
    intro arguments v harguments hkey
    have hfails : ∃ flow, EvalM.assign t (s.second arguments) v s = .error flow s := by
      rcases hrefused _ v hkey with ⟨-, hpanic⟩ | ⟨-, fault, -, hfault⟩
      · exact ⟨_, hpanic⟩
      · exact ⟨_, hfault⟩
    obtain ⟨flow, hflow⟩ := hfails
    exact ⟨flow, hflow, by rw [SpecialForm.assignElement_apply, harguments, hflow]⟩

/-- Lists, dotted or not, arrays and strings have one contract. An element is read under the
integers below the length and under no other key, and entries lists what is read. Where an element
can be stored, it can under the same keys; only the place that the key leads to is replaced. A
failure changes nothing, whether it is a fault or the panic of an array whose text is part of the
text of the key. -/
theorem indexing_contract (h : s.Sequence t items) :
    s.ReadByIndex t items.length ∧
      (t.isString = false → s.WrittenByIndex t items.length) ∧
      (t.isString = true → ∀ key v,
        EvalM.assign t key v s = .error (.fault (.type .immutableString none)) s) := by
  refine ⟨h.readByIndex, h.writtenByIndex, fun ht key v => ?_⟩
  cases t with
  | string text => rfl
  | _ => cases ht

/-- An array is no index of itself, and the text of the fault would look into it. -/
example :
    let s := { Interp.initial 8 with arrays := #[#[.nil]] }
    EvalM.assign (.array ⟨0⟩) (.array ⟨0⟩) (.ofNat 5) s = .error .panicked s := rfl

/-- The list `(1 2 . 3)` has the indexes zero and one. -/
theorem indexing_dotted_list :
    let s := { Interp.initial 8 with cells := #[⟨.ofNat 1, .cons ⟨1⟩⟩, ⟨.ofNat 2, .ofNat 3⟩] }
    s.Sequence (.cons ⟨0⟩) [.ofNat 1, .ofNat 2] ∧ s.length (.cons ⟨0⟩) = .ok 2 ∧
      (∃ u, EvalM.assign (.cons ⟨0⟩) (.ofNat 1) .nil s = .ok () u ∧
        u.access (.cons ⟨0⟩) (.ofNat 1) = .ok .nil ∧
        u.access (.cons ⟨0⟩) (.ofNat 0) = s.access (.cons ⟨0⟩) (.ofNat 0)) ∧
      ¬ ∃ u, EvalM.assign (.cons ⟨0⟩) (.ofNat 2) .nil s = .ok () u := by
  intro s
  have hspine : Spine s (.cons ⟨0⟩) [⟨0⟩, ⟨1⟩] (.ofNat 3) := .cell (.cell (.atom nofun))
  have hsequence : s.Sequence (.cons ⟨0⟩) [.ofNat 1, .ofNat 2] :=
    .list rfl hspine (by decide)
  obtain ⟨hread, hwritten, -⟩ := indexing_contract hsequence
  have hone : (Value.ofNat 1).Indexes 2 := ⟨1, rfl, by decide, by decide⟩
  have htwo : ¬ (Value.ofNat 2).Indexes 2 := by
    rintro ⟨n, hn, -, hlt⟩
    cases hn
    exact absurd hlt (by decide)
  obtain ⟨u, hu⟩ := ((hwritten rfl).assign_iff (.ofNat 1) .nil).mpr hone
  obtain ⟨-, haccess, hother, -⟩ := (hwritten rfl).assigned _ _ _ hu
  refine ⟨hsequence, hread.length, ⟨u, hu, haccess, hother 0 (by decide)⟩, fun hassigned => ?_⟩
  exact htwo (((hwritten rfl).assign_iff (.ofNat 2) .nil).mp hassigned)

end SmallLisp
