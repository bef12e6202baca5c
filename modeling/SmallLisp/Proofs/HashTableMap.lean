import SmallLisp.Assignment
import SmallLisp.Operation
import SmallLisp.Proofs.Keyed

/-!
# Hash tables as finite maps

A hash table compares the projections of its keys to `HashKey`, and `EQL` compares values case by
case. Both come down to identity of values, so they agree on all pairs of atoms: an integer is never
a double, doubles are the same if their bits are, texts if their characters are, and symbols by
identity. A hash table is therefore a finite map up to `EQL`. A key that has no projection is
refused, and the table stays as it is.
-/

namespace SmallLisp

variable {s t : Interp} {v w : Value} {id : HashTableId}

/-! ## Identity, case by case -/

/-- The same representation and the same value. -/
def Number.eql : Number → Number → Bool
  | .int a, .int b => a == b
  | .float x, .float y => x.bits == y.bits
  | _, _ => false

/-- The same object, or the same immediate value. -/
def Value.eql : Value → Value → Bool
  | .nil, .nil | .truth, .truth => true
  | .symbol x, .symbol y => x == y
  | .cons x, .cons y => x == y
  | .number a, .number b => a.eql b
  | .string a, .string b => a == b
  | .character a, .character b => a == b
  | .array x, .array y => x == y
  | .dictionary x, .dictionary y => x == y
  | .hashTable x, .hashTable y => x == y
  | .function x, .function y => x == y
  | .names x, .names y => x == y
  | _, _ => false

theorem Number.eql_iff {a b : Number} : a.eql b = true ↔ a = b := by
  cases a with
  | int a => cases b <;> simp [eql]
  | float x =>
    cases b with
    | int b => simp [eql]
    | float y =>
      cases x
      cases y
      simp [eql]

theorem Value.eql_iff : v.eql w = true ↔ v = w := by
  cases v with
  | number a => cases w <;> simp [eql, Number.eql_iff]
  | _ => cases w <;> simp [eql]

/-- `EQL` answers by this comparison. -/
theorem Operation.eql_eq (arguments : Value) :
    Operation.eql arguments = EvalM.read fun s =>
      .ofBool ((s.first arguments).eql (s.second arguments)) := by
  have hdecide : ∀ a b : Value, a.eql b = decide (a = b) := fun a b => by
    rw [Bool.eq_iff_iff, Value.eql_iff, decide_eq_true_eq]
  simp only [Operation.eql, hdecide]

/-! ## The projection -/

/-- What a hash table compares of a key. -/
inductive HashKey where
  | nil
  | truth
  | symbol (id : SymbolId)
  | int (n : Int64)
  | float (bits : UInt64)
  | string (s : String)
  | character (c : Char)
deriving DecidableEq, Repr

namespace HashKey

def of? : Value → Option HashKey
  | .nil => some .nil
  | .truth => some .truth
  | .symbol id => some (.symbol id)
  | .number (.int n) => some (.int n)
  | .number (.float x) => some (.float x.bits)
  | .string s => some (.string s)
  | .character c => some (.character c)
  | _ => none

/-- The value with a given projection. -/
def value : HashKey → Value
  | .nil => .nil
  | .truth => .truth
  | .symbol id => .symbol id
  | .int n => .number (.int n)
  | .float bits => .number (.float ⟨bits⟩)
  | .string s => .string s
  | .character c => .character c

theorem of?_eq_some_iff {h : HashKey} : of? v = some h ↔ v = h.value := by
  constructor
  · intro hof
    unfold of? at hof
    split at hof <;> cases hof <;> rfl
  · rintro rfl
    cases h <;> rfl

theorem isSome_of? (v : Value) : (of? v).isSome = v.isAtomKey := by
  cases v with
  | number n => cases n <;> rfl
  | _ => rfl

/-- The projections of two atoms are the same exactly if the atoms are `EQL`. -/
theorem of?_eq_iff_eql (hv : v.isAtomKey = true) : of? v = of? w ↔ v.eql w = true := by
  rw [← isSome_of?] at hv
  obtain ⟨h, hh⟩ := Option.isSome_iff_exists.mp hv
  rw [Value.eql_iff, hh, eq_comm, of?_eq_some_iff, of?_eq_some_iff.mp hh, eq_comm]

end HashKey

/-! ## Tables -/

theorem lookupIn?_eq_findAgreeing? (key : Value) (es : List (Value × Value)) :
    Table.lookupIn? key es = findAgreeing? Value.eql key es := by
  induction es with
  | nil => rfl
  | cons e es ih => simp only [Table.lookupIn?, findAgreeing?, ih, Value.eql_iff]

theorem insertIn_eq_assignAgreeing (key v : Value) (es : List (Value × Value)) :
    Table.insertIn key v es = assignAgreeing Value.eql key v es := by
  induction es with
  | nil => rfl
  | cons e es ih =>
    simp only [Table.insertIn, assignAgreeing, ih, Value.eql_iff]
    split
    next h => rw [h]
    next => rfl

/-- A table as a map from projections. -/
def Table.byHashKey (table : Table Value Value) (h : HashKey) : Option Value :=
  (table.entries.find? fun e => HashKey.of? e.1 = some h).map (·.2)

theorem Table.byHashKey_eq_find? (table : Table Value Value) (h : HashKey) :
    table.byHashKey h = table.find? h.value := by
  unfold byHashKey find?
  generalize table.entries = es
  induction es with
  | nil => rfl
  | cons e es ih =>
    rw [List.find?_cons, lookupIn?]
    by_cases he : e.1 = h.value
    · simp [he, HashKey.of?_eq_some_iff]
    · simp [he, HashKey.of?_eq_some_iff, ← ih]

/-- An insertion replaces what is stored under the projection of its key. -/
theorem Table.byHashKey_insert (table : Table Value Value) (h : HashKey) (v : Value) :
    (table.insert h.value v).byHashKey = Function.update table.byHashKey h (some v) := by
  funext j
  have hinjective : h.value = j.value ↔ j = h := by
    rw [← HashKey.of?_eq_some_iff, HashKey.of?_eq_some_iff.mpr rfl, Option.some.injEq, eq_comm]
  rw [byHashKey_eq_find?, find?_insert, Function.update_apply, byHashKey_eq_find?]
  simp only [hinjective]

namespace Interp

@[simp]
theorem hashTable_setHashTable (s : Interp) (id : HashTableId) (table : Table Value Value)
    (hlive : id.index < s.hashTables.size) : (s.setHashTable id table).hashTable id = table := by
  simp [setHashTable, hashTable, hlive]

theorem assign_hashTable {key : Value} (v : Value) (hkey : key.isAtomKey = true) :
    EvalM.assign (.hashTable id) key v s =
      .ok () (s.setHashTable id ((s.hashTable id).insert key v)) := by
  simp only [EvalM.assign, looksBack, assign, place, hkey, if_true]
  rfl

/-- A key that a hash table does not take: looking it up and assigning to it fail, and the
operations that do so end in the state in which they started. -/
structure Refused (s : Interp) (id : HashTableId) (key : Value) : Prop where
  access : s.access (.hashTable id) key = .error (.type (.hashKey key.typeName) none)
  assign : ∀ v, EvalM.assign (.hashTable id) key v s =
    .error (.fault (.type (.hashKey key.typeName) none)) s
  element : ∀ arguments, s.first arguments = .hashTable id → s.second arguments = key →
    Operation.element arguments s = .error (.fault (.type (.hashKey key.typeName) none)) s
  assignElement : ∀ arguments v, s.first arguments = .hashTable id → s.second arguments = key →
    SpecialForm.assignElement arguments v s =
      .error (.fault (.type (.hashKey key.typeName) none)) s

theorem refused_of_not_atom {key : Value} (hkey : key.isAtomKey = false) : s.Refused id key := by
  have haccess : s.access (.hashTable id) key = .error (noHashKey key) := by
    simp only [access, hkey, Bool.false_eq_true, if_false]
  have hplace : s.place (.hashTable id) key = .error (noHashKey key) := by
    simp only [place, hkey, Bool.false_eq_true, if_false]
  have hassign : ∀ v, EvalM.assign (.hashTable id) key v s =
      .error (.fault (.type (.hashKey key.typeName) none)) s := by
    intro v
    unfold EvalM.assign Interp.assign
    rw [hplace]
    rfl
  refine ⟨haccess, hassign, fun arguments htable hsecond => ?_,
    fun arguments v htable hsecond => ?_⟩
  · simp only [Operation.element, Operation.query, htable, hsecond, haccess]
    rfl
  · rw [SpecialForm.assignElement_apply, htable, hsecond, hassign]

end Interp

/-- A hash table with its atomic keys. -/
def Keyed.hashTable (id : HashTableId) : Keyed where
  target := .hashTable id
  stored s := (s.hashTable id).entries
  test _ := Value.eql
  IsKey _ k := k.isAtomKey = true
  Kept _ _ _ := True
  equivalence _ := by
    refine ⟨fun _ => Value.eql_iff.mpr rfl, fun _ _ h => ?_, fun _ _ _ h h' => ?_⟩
    · rw [Value.eql_iff] at h ⊢
      exact h.symm
    · rw [Value.eql_iff] at h h' ⊢
      exact h.trans h'
  test_kept _ _ _ _ _ _ := rfl
  access hkey := by
    simp only [Interp.access, hkey, if_true, Table.find?, lookupIn?_eq_findAgreeing?]
  assign := by
    intro s key v hlive _ hkey
    have hext : Extends s (s.store v (.hashed id key)) := .store s v _
    refine ⟨_, Interp.assign_hashTable v hkey, hlive.mono hext, ?_, fun j hj => ⟨hj, trivial⟩⟩
    rw [← insertIn_eq_assignAgreeing]
    exact congrArg Table.entries (s.hashTable_setHashTable id _ hlive)
  length s := rfl
  entries s := rfl

/-! ## Making a hash table of pairs -/

theorem Operation.fillHashed_eq {table filled : Table Value Value} {items : List Value}
    (h : fillHashed s table items = .ok filled) :
    ∃ pairs, items.mapM (pairOf "hashtable" s) = .ok pairs ∧ (∀ e ∈ pairs, e.1.isAtomKey = true) ∧
      filled = pairs.foldl (fun table e => table.insert e.1 e.2) table := by
  induction items generalizing table with
  | nil =>
    cases h
    exact ⟨[], rfl, nofun, rfl⟩
  | cons item items ih =>
    rw [fillHashed] at h
    cases hpair : pairOf "hashtable" s item with
    | error fault =>
      rw [hpair] at h
      cases h
    | ok pair =>
      rw [hpair] at h
      cases hkey : pair.1.isAtomKey with
      | false =>
        simp only [Interp.assignHashed, hkey, if_false, Bool.false_eq_true] at h
        cases h
      | true =>
        simp only [Interp.assignHashed, hkey, if_true] at h
        obtain ⟨pairs, hpairs, hkeys, rfl⟩ := ih h
        refine ⟨pair :: pairs, ?_, List.forall_mem_cons.mpr ⟨hkey, hkeys⟩, rfl⟩
        rw [List.mapM_cons, hpair, hpairs]
        rfl

theorem Interp.setHashTable_allocHashTable (s : Interp) (table table' : Table Value Value) :
    (s.allocHashTable table).2.setHashTable ⟨s.hashTables.size⟩ table' =
      (s.allocHashTable table').2 := by
  simp [setHashTable, allocHashTable, Array.setIfInBounds, Array.set_push]

@[simp]
theorem Interp.hashTable_allocHashTable (s : Interp) (table : Table Value Value) :
    (s.allocHashTable table).2.hashTable ⟨s.hashTables.size⟩ = table := by
  simp [hashTable, allocHashTable]

theorem Keyed.Assigned.hashTable {history : List (Value × Value)}
    (hhistory : ∀ a ∈ history, a.1.isAtomKey = true) :
    (Keyed.hashTable ⟨s.hashTables.size⟩).Assigned
      (s.allocHashTable (history.foldl (fun table e => table.insert e.1 e.2) .empty)).2
      history := by
  refine .of_made
    (fun history =>
      (s.allocHashTable (history.foldl (fun table e => table.insert e.1 e.2) .empty)).2)
    (p := fun k => k.isAtomKey = true) ?_ ?_ (fun history a hhistory => ?_) hhistory
  · show s.hashTables.size < (s.hashTables.push .empty).size
    simp
  · exact congrArg Table.entries (s.hashTable_allocHashTable .empty)
  · have ha : a.1.isAtomKey = true := hhistory a (by simp)
    refine ⟨ha, ?_⟩
    show EvalM.assign (.hashTable _) _ _ _ = _
    rw [Interp.assign_hashTable _ ha, Interp.setHashTable_allocHashTable,
      Interp.hashTable_allocHashTable, List.foldl_concat]

/-- The pairs of a new hash table are assigned to it in order. -/
theorem Operation.hashTable_assigned {arguments : Value}
    (h : Operation.hashTable arguments s = .ok v t) :
    ∃ pairs id, (s.elementsOf arguments).mapM (Operation.pairOf "hashtable" s) = .ok pairs ∧
      v = .hashTable id ∧ (Keyed.hashTable id).Assigned t pairs := by
  unfold Operation.hashTable at h
  cases hfill : Operation.fillHashed s .empty (s.elementsOf arguments) with
  | error fault =>
    rw [hfill] at h
    cases h
  | ok filled =>
    rw [hfill] at h
    cases h
    obtain ⟨pairs, hpairs, hkeys, rfl⟩ := Operation.fillHashed_eq hfill
    exact ⟨pairs, _, hpairs, rfl, .hashTable hkeys⟩

/-- A hash table that is assigned to is the finite map up to `EQL` that the history of the
assignments gives: it goes by the projections of its keys, and two atoms have one projection exactly
if they are `EQL`. Any other key is refused, and the state stays as it is. -/
theorem hash_table_is_map {history : List (Value × Value)}
    (h : (Keyed.hashTable id).Assigned s history) :
    (∃ listing,
      FiniteMap s (.hashTable id) Value.eql (fun k => k.isAtomKey = true) history listing) ∧
    (∀ j k, j.isAtomKey = true → k.isAtomKey = true →
      (HashKey.of? j = HashKey.of? k ↔ j.eql k = true)) ∧
    (∀ k v hashKey, HashKey.of? k = some hashKey →
      s.access (.hashTable id) k = .ok (((s.hashTable id).byHashKey hashKey).getD .nil) ∧
      ∃ t, EvalM.assign (.hashTable id) k v s = .ok () t ∧
        (t.hashTable id).byHashKey =
          Function.update (s.hashTable id).byHashKey hashKey (some v)) ∧
    ∀ k, k.isAtomKey = false → s.Refused id k := by
  refine ⟨⟨_, h.holds.finiteMap⟩, fun j k hj _ => HashKey.of?_eq_iff_eql hj,
    fun k v hashKey hk => ?_, fun k hk => Interp.refused_of_not_atom hk⟩
  have hatom : k.isAtomKey = true := by
    rw [← HashKey.isSome_of?, hk]
    rfl
  obtain rfl := HashKey.of?_eq_some_iff.mp hk
  refine ⟨?_, _, Interp.assign_hashTable v hatom, ?_⟩
  · rw [Table.byHashKey_eq_find?]
    simp only [Interp.access, hatom, if_true]
  · rw [s.hashTable_setHashTable id _ h.holds.live, Table.byHashKey_insert]

/-- The integer and the double one are different keys, and a list is none. -/
theorem integer_and_double_keys :
    ∃ s id one, (Keyed.hashTable id).Assigned s [(.ofNat 1, .ofNat 5), (one, .ofNat 6)] ∧
      s.equal (.ofNat 1) one = true ∧ s.access (.hashTable id) (.ofNat 1) = .ok (.ofNat 5) ∧
      s.access (.hashTable id) one = .ok (.ofNat 6) ∧
      s.access (.hashTable id) (.cons ⟨0⟩) = .error (.type (.hashKey "CONS") none) := by
  obtain ⟨r, hr⟩ : ∃ r, r = (Interp.initial 64).afterTexts [(.small, "(hashtable)")] := ⟨_, rfl⟩
  let one : Value := .number (.float (.ofInt 1))
  obtain ⟨s, hs⟩ : ∃ s, s = (r.store (.ofNat 5) (.hashed ⟨0⟩ (.ofNat 1))).store (.ofNat 6)
    (.hashed ⟨0⟩ one) := ⟨_, rfl⟩
  obtain ⟨hlive, hempty, hequal⟩ : (Value.hashTable ⟨0⟩).Live r ∧ (r.hashTable ⟨0⟩).entries = [] ∧
      s.equal (.ofNat 1) (.number (.float (.ofInt 1))) = true := by
    rw [hs, hr]
    decide +kernel
  have hrun : (Keyed.hashTable ⟨0⟩).Assigned s [(.ofNat 1, .ofNat 5), (one, .ofNat 6)] :=
    .assign (.assign (.start hlive hempty) rfl rfl) rfl (hs ▸ rfl)
  obtain ⟨⟨listing, hmap⟩, -, -, hrefused⟩ := hash_table_is_map hrun
  have hapart : Value.eql one (.ofNat 1) = false := by decide
  refine ⟨s, ⟨0⟩, one, hrun, hequal, ?_, ?_, (hrefused (.cons ⟨0⟩) rfl).access⟩
  · rw [hmap.access _ rfl]
    simp [hapart, Value.eql_iff]
  · rw [hmap.access _ rfl]
    simp [Value.eql_iff]

end SmallLisp
