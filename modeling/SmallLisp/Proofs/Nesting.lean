import Mathlib.Data.List.Forall2
import Mathlib.Data.List.Nodup
import Mathlib.Data.List.Perm.Subperm
import Mathlib.Logic.Relation
import SmallLisp.Proofs.Comparison
import SmallLisp.Proofs.Session

/-!
# Values inside values

`Interp.parts` gives what structural equality looks at inside a list, an array or a dictionary. A
value of the store that contains itself nowhere is finite: a way into it goes through each container
once at most, so there are no more levels than containers, with one for an atom at the end. The
bounded comparison of `Interp.equal` reaches the ends of two finite values, and `Finite.equal_iff`
says what it finds there.
-/

namespace SmallLisp

open Relation (ReflTransGen TransGen)

variable {s : Interp} {v w : Value}

/-! ## Comparing lists and entries -/

/-- Whether two sequences have one length and agree element by element. -/
def allPairs (test : Value → Value → Bool) : List Value → List Value → Bool
  | [], [] => true
  | a :: as, b :: bs => test a b && allPairs test as bs
  | _, _ => false

theorem allPairs_iff {test : Value → Value → Bool} {as bs : List Value} :
    allPairs test as bs = true ↔ List.Forall₂ (fun a b => test a b = true) as bs := by
  induction as generalizing bs with
  | nil => cases bs <;> simp [allPairs]
  | cons a as ih => cases bs <;> simp [allPairs, ih]

theorem forall₂_imp_of_mem {R S : Value → Value → Prop} {as bs : List Value}
    (h : List.Forall₂ R as bs) (himp : ∀ a ∈ as, ∀ b ∈ bs, R a b → S a b) :
    List.Forall₂ S as bs := by
  obtain ⟨hlength, hzip⟩ := List.forall₂_iff_zip.mp h
  refine List.forall₂_iff_zip.mpr ⟨hlength, fun {a b} hab => ?_⟩
  exact himp a (List.of_mem_zip hab).1 b (List.of_mem_zip hab).2 (hzip hab)

theorem allPairs_congr {test test' : Value → Value → Bool} {as bs : List Value}
    (h : ∀ a ∈ as, ∀ b ∈ bs, test a b = test' a b) :
    allPairs test as bs = allPairs test' as bs := by
  induction as generalizing bs with
  | nil => cases bs <;> rfl
  | cons a as ih =>
    cases bs with
    | nil => rfl
    | cons b bs =>
      have hrest := ih fun a ha b hb =>
        h a (List.mem_cons_of_mem _ ha) b (List.mem_cons_of_mem _ hb)
      rw [allPairs, allPairs, h a List.mem_cons_self b List.mem_cons_self, hrest]

theorem comparePairs_congr {test test' : Value → Value → Option Bool} {as bs : List Value}
    (h : ∀ a ∈ as, test a = test' a) : comparePairs test as bs = comparePairs test' as bs := by
  induction as generalizing bs with
  | nil => rfl
  | cons a as ih =>
    cases bs with
    | nil => rfl
    | cons b bs =>
      rw [comparePairs, comparePairs, h a List.mem_cons_self,
        ih fun a ha => h a (List.mem_cons_of_mem _ ha)]

theorem findAgreeing?_congr {test test' : Value → Value → Bool} {key key' : Value}
    {es : List (Value × Value)} (h : ∀ e ∈ es, test e.1 key = test' e.1 key') :
    findAgreeing? test key es = findAgreeing? test' key' es := by
  induction es with
  | nil => rfl
  | cons e es ih =>
    rw [findAgreeing?, findAgreeing?, h e List.mem_cons_self,
      ih fun e he => h e (List.mem_cons_of_mem _ he)]

instance Value.decidableLive (s : Interp) : (v : Value) → Decidable (v.Live s)
  | .symbol x => inferInstanceAs (Decidable (x.index < s.symbols.size))
  | .cons id => inferInstanceAs (Decidable (id.index < s.cells.size))
  | .array id => inferInstanceAs (Decidable (id.index < s.arrays.size))
  | .dictionary id => inferInstanceAs (Decidable (id.index < s.dictionaries.size))
  | .hashTable id => inferInstanceAs (Decidable (id.index < s.hashTables.size))
  | .function id => inferInstanceAs (Decidable (id.index < s.callables.size))
  | .names id => inferInstanceAs (Decidable (id.index < s.namespaces.size))
  | .nil | .truth | .number _ | .string _ | .character _ => .isTrue trivial

def Value.isNumber : Value → Bool
  | .number _ => true
  | _ => false

def Value.isFloat : Value → Bool
  | .number (.float _) => true
  | _ => false

namespace Interp

/-- The values that stand directly in a container that structural equality looks into. -/
def parts (s : Interp) : Value → List Value
  | .cons id => [s.car id, s.cdr id]
  | .array id => (s.arrayItems id).toList
  | .dictionary id => (s.dictionaryEntries id).flatMap fun e => [e.1, e.2]
  | _ => []

/-- The first value stands directly in the second one. -/
def Part (s : Interp) (w v : Value) : Prop := w ∈ s.parts v

/-- A property of a value and of all that is inside it. -/
def Throughout (s : Interp) (p : Value → Prop) (v : Value) : Prop :=
  ∀ w, ReflTransGen s.Part w v → p w

/-- Nothing in a value is inside itself. -/
def Acyclic (s : Interp) (v : Value) : Prop := s.Throughout (fun w => ¬ TransGen s.Part w w) v

/-- A value is made of objects of the store and contains itself nowhere. -/
structure Finite (s : Interp) (v : Value) : Prop where
  stored : s.Throughout (Value.Live s) v
  acyclic : s.Acyclic v

/-- A finite value in which every number is an integer. -/
structure Exact (s : Interp) (v : Value) : Prop extends s.Finite v where
  floatFree : s.Throughout (fun w => w.isFloat = false) v

/-- Every way into a value comes to an end within `n` levels. -/
def Levels (s : Interp) : Nat → Value → Prop
  | 0, _ => False
  | n + 1, v => ∀ w ∈ s.parts v, s.Levels n w

/-- Test a value and all that is inside it, down to `n` levels. -/
def examine (s : Interp) (test : Value → Bool) : Nat → Value → Bool
  | 0, _ => false
  | n + 1, v => test v && (s.parts v).all (s.examine test n)

theorem hasParts_of_part (h : w ∈ s.parts v) : v.hasParts = true := by
  cases v with
  | cons | array | dictionary => rfl
  | _ => cases h

theorem part_entry {id : DictionaryId} {e : Value × Value} (h : e ∈ s.dictionaryEntries id) :
    e.1 ∈ s.parts (.dictionary id) ∧ e.2 ∈ s.parts (.dictionary id) :=
  ⟨List.mem_flatMap.mpr ⟨e, h, List.mem_cons_self⟩,
    List.mem_flatMap.mpr ⟨e, h, List.mem_cons_of_mem _ List.mem_cons_self⟩⟩

theorem part_car (id : CellId) : s.car id ∈ s.parts (.cons id) := List.mem_cons_self

theorem part_cdr (id : CellId) : s.cdr id ∈ s.parts (.cons id) :=
  List.mem_cons_of_mem _ List.mem_cons_self

/-! ## Properties throughout a value -/

namespace Throughout

variable {p q : Value → Prop}

theorem self (h : s.Throughout p v) : p v := h v .refl

theorem part (h : s.Throughout p v) (hw : w ∈ s.parts v) : s.Throughout p w :=
  fun u hu => h u (hu.tail hw)

theorem mono (h : s.Throughout p v) (hpq : ∀ w, p w → q w) : s.Throughout q v :=
  fun w hw => hpq w (h w hw)

/-- In a state where the value has the same parts all the way down, the property stays. -/
theorem transfer {t : Interp} (h : s.Throughout p v)
    (hparts : s.Throughout (fun w => t.parts w = s.parts w) v) : t.Throughout p v := by
  have hinside : ∀ w, ReflTransGen t.Part w v → ReflTransGen s.Part w v := by
    intro w hw
    induction hw using ReflTransGen.head_induction_on with
    | refl => exact .refl
    | head hwu _ ih =>
      refine .head ?_ ih
      unfold Part at hwu ⊢
      rwa [← hparts _ ih]
  exact fun w hw => h w (hinside w hw)

end Throughout

theorem LiveUnder.part {hosted : Prop} (hs : s.LiveUnder hosted) (hw : w ∈ s.parts v) :
    w.Live s := by
  cases v with
  | cons id =>
    rcases List.mem_cons.mp hw with rfl | hw
    · exact hs.car id
    · exact List.mem_singleton.mp hw ▸ hs.cdr id
  | array id => exact hs.arrayItems id w (Array.mem_toList_iff.mp hw)
  | dictionary id =>
    obtain ⟨e, he, hw⟩ := List.mem_flatMap.mp hw
    have hlive := hs.dictionaryEntries id e he
    rcases List.mem_cons.mp hw with rfl | hw
    · exact hlive.1
    · exact List.mem_singleton.mp hw ▸ hlive.2
  | _ => cases hw

/-- In a live state a live value is made of objects of the store. -/
theorem LiveUnder.stored {hosted : Prop} (hs : s.LiveUnder hosted) (hv : v.Live s) :
    s.Throughout (Value.Live s) v := by
  intro w hw
  cases hw using ReflTransGen.head_induction_on with
  | refl => exact hv
  | head hwu _ => exact hs.part hwu

/-- In a session every live value that contains itself nowhere is finite. -/
theorem finite_of_session {limit : Nat} (h : Session (fun _ => True) (.initial limit) s)
    (hv : v.Live s) (hacyclic : s.Acyclic v) : s.Finite v := by
  have hlive : s.Live :=
    (h.sound (live_initial limit)).live (fun _ _ hc => hc) (live_initial limit)
  exact ⟨hlive.stored hv, hacyclic⟩

theorem Finite.part (hv : s.Finite v) (hw : w ∈ s.parts v) : s.Finite w :=
  ⟨hv.stored.part hw, Throughout.part hv.acyclic hw⟩

theorem Exact.part (hv : s.Exact v) (hw : w ∈ s.parts v) : s.Exact w :=
  ⟨hv.toFinite.part hw, hv.floatFree.part hw⟩

/-! ## Levels -/

/-- A value with an end to every way into it contains itself nowhere. -/
theorem Levels.acyclic {n : Nat} (h : s.Levels n v) : s.Acyclic v := by
  induction n generalizing v with
  | zero => exact h.elim
  | succ n ih =>
    intro w hw hcycle
    -- what is inside itself is inside a part of the whole, be it the whole
    obtain ⟨u, hwu, hu⟩ : ∃ u, ReflTransGen s.Part w u ∧ s.Part u v := by
      rcases ReflTransGen.cases_tail hw with rfl | hinside
      · exact TransGen.tail'_iff.mp hcycle
      · exact hinside
    exact ih (h u hu) w hwu hcycle

/-- There are not more different containers than the store holds. -/
theorem length_le_containers {vs : List Value} (hnodup : vs.Nodup)
    (hvs : ∀ v ∈ vs, s.Holds v) : vs.length ≤ s.containers := by
  have hpositions : (vs.map s.position).Nodup :=
    hnodup.map_on fun v hv w hw heq => position_injective (hvs v hv) (hvs w hw) heq
  have hrange : vs.map s.position ⊆ List.range s.containers := by
    intro i hi
    obtain ⟨v, hv, rfl⟩ := List.mem_map.mp hi
    exact List.mem_range.mpr (position_lt (hvs v hv))
  have hlength := (List.subperm_of_subset hpositions hrange).length_le
  rwa [List.length_map, List.length_range] at hlength

/-- Below the containers `above` there are so many levels left as containers are. -/
theorem Finite.levels_below {n : Nat} {above : List Value} (hv : s.Finite v)
    (hnodup : above.Nodup)
    (habove : ∀ u ∈ above, s.Holds u ∧ TransGen s.Part v u)
    (hn : s.containers < above.length + n) : s.Levels n v := by
  induction n generalizing v above with
  | zero =>
    have hlength := length_le_containers hnodup fun u hu => (habove u hu).1
    omega
  | succ n ih =>
    intro w hw
    -- met again, the container would be inside itself
    have hfresh : v ∉ above := fun hmem => Throughout.self hv.acyclic (habove v hmem).2
    have hnodup' : (v :: above).Nodup := List.nodup_cons.mpr ⟨hfresh, hnodup⟩
    refine ih (hv.part hw) hnodup' ?_ ?_
    · intro u hu
      rcases List.mem_cons.mp hu with rfl | hu
      · exact ⟨⟨hv.stored.self, hasParts_of_part hw⟩, .single hw⟩
      · exact ⟨(habove u hu).1, .head hw (habove u hu).2⟩
    · rw [List.length_cons]
      omega

/-- A finite value has not more levels than there are containers, and one for its atoms. -/
theorem Finite.levels (hv : s.Finite v) : s.Levels (s.containers + 1) v :=
  hv.levels_below List.nodup_nil nofun (by simp)

/-! ## Testing a value -/

/-- The test is passed down to `n` levels if no way goes on below them and it is passed
everywhere. -/
theorem examine_iff {test : Value → Bool} {n : Nat} :
    s.examine test n v = true ↔ s.Levels n v ∧ s.Throughout (fun w => test w = true) v := by
  induction n generalizing v with
  | zero => simp [examine, Levels]
  | succ n ih =>
    simp only [examine, Bool.and_eq_true, List.all_eq_true, ih]
    constructor
    · rintro ⟨hself, hparts⟩
      refine ⟨fun w hw => (hparts w hw).1, fun w hw => ?_⟩
      rcases ReflTransGen.cases_tail hw with rfl | ⟨u, hwu, hu⟩
      · exact hself
      · exact (hparts u hu).2 w hwu
    · rintro ⟨hlevels, hall⟩
      exact ⟨hall.self, fun w hw => ⟨hlevels w hw, hall.part hw⟩⟩

instance decidableFinite : Decidable (s.Finite v) :=
  decidable_of_iff (s.examine (fun w => w.Live s) (s.containers + 1) v = true) <| by
    simp only [examine_iff, decide_eq_true_eq]
    exact ⟨fun h => ⟨h.2, h.1.acyclic⟩, fun h => ⟨h.levels, h.stored⟩⟩

/-- Whether a property of single values holds throughout a finite value can be tested. -/
theorem Finite.throughout_iff {p : Value → Prop} [DecidablePred p] (hv : s.Finite v) :
    s.Throughout p v ↔ s.examine (fun w => p w) (s.containers + 1) v = true := by
  simp [examine_iff, hv.levels]

instance decidableExact : Decidable (s.Exact v) :=
  decidable_of_iff
    (s.Finite v ∧ s.examine (fun w => w.isFloat = false) (s.containers + 1) v = true)
    ⟨fun h => ⟨h.1, h.1.throughout_iff.mpr h.2⟩,
      fun h => ⟨h.toFinite, h.toFinite.throughout_iff.mp h.floatFree⟩⟩

/-! ## Comparing finite values -/

/-- Whether two values agree down to `n` levels, without a difference and without a level more. -/
def agree (s : Interp) : Nat → Value → Value → Bool
  | 0, _, _ => false
  | n + 1, .cons x, .cons y =>
    x = y || (s.agree n (s.car x) (s.car y) && s.agree n (s.cdr x) (s.cdr y))
  | _ + 1, .number a, .number b => a.compare? b == some .eq
  | n + 1, .array x, .array y =>
    x = y || allPairs (s.agree n) (s.arrayItems x).toList (s.arrayItems y).toList
  | n + 1, .dictionary x, .dictionary y =>
    x = y ||
      let left := s.dictionaryEntries x
      let right := s.dictionaryEntries y
      left.length = right.length && left.all fun e =>
        match findAgreeing? (s.agree n) e.1 right with
        | some v => s.agree n v e.2
        | none => false
  | _ + 1, a, b => a = b

section Answered

variable {test : Value → Value → Option Bool} {agrees : Value → Value → Bool}

theorem comparePairs_answered {as bs : List Value}
    (h : ∀ a ∈ as, ∀ b ∈ bs, test a b = some (agrees a b)) (hlength : as.length = bs.length) :
    comparePairs test as bs = some (allPairs agrees as bs) := by
  induction as generalizing bs with
  | nil =>
    cases bs with
    | nil => rfl
    | cons b bs => cases hlength
  | cons a as ih =>
    cases bs with
    | nil => cases hlength
    | cons b bs =>
      rw [comparePairs, allPairs, h a List.mem_cons_self b List.mem_cons_self]
      cases agrees a b with
      | false => rfl
      | true =>
        exact ih (fun c hc d hd => h c (List.mem_cons_of_mem _ hc) d (List.mem_cons_of_mem _ hd))
          (Nat.succ.inj hlength)

theorem allPairs_of_length_ne {as bs : List Value} (h : as.length ≠ bs.length) :
    allPairs agrees as bs = false := by
  rw [Bool.eq_false_iff]
  exact fun hpairs => h (allPairs_iff.mp hpairs).length_eq

theorem searchEntries_answered {key : Value} {es : List (Value × Value)}
    (h : ∀ e ∈ es, test e.1 key = some (agrees e.1 key)) :
    searchEntries test key es = some (findAgreeing? agrees key es) := by
  induction es with
  | nil => rfl
  | cons e es ih =>
    rw [searchEntries, findAgreeing?, h e List.mem_cons_self,
      ih fun e he => h e (List.mem_cons_of_mem _ he)]
    cases agrees e.1 key <;> rfl

theorem compareEntries_answered {right es : List (Value × Value)}
    (hkeys : ∀ e ∈ es, ∀ f ∈ right, test f.1 e.1 = some (agrees f.1 e.1))
    (hvalues : ∀ e ∈ es, ∀ f ∈ right, test f.2 e.2 = some (agrees f.2 e.2)) :
    compareEntries test right es = some (es.all fun e =>
      match findAgreeing? agrees e.1 right with
      | some v => agrees v e.2
      | none => false) := by
  induction es with
  | nil => rfl
  | cons e es ih =>
    rw [compareEntries, searchEntries_answered (hkeys e List.mem_cons_self), List.all_cons]
    cases hfound : findAgreeing? agrees e.1 right with
    | none => rfl
    | some v =>
      obtain ⟨k, hk⟩ := mem_of_findAgreeing? hfound
      dsimp only
      rw [hvalues e List.mem_cons_self (k, v) hk]
      cases agrees v e.2 with
      | false => rfl
      | true =>
        exact ih (fun e he => hkeys e (List.mem_cons_of_mem _ he))
          fun e he => hvalues e (List.mem_cons_of_mem _ he)

/-- A comparison of values has its answer within their levels. -/
theorem compare?_levels {n : Nat} (hv : s.Levels n v) (hw : s.Levels n w) :
    s.compare? n v w = some (s.agree n v w) := by
  induction n generalizing v w with
  | zero => exact hv.elim
  | succ n ih =>
    have hparts : ∀ a ∈ s.parts v, ∀ b ∈ s.parts w, s.compare? n a b = some (s.agree n a b) :=
      fun a ha b hb => ih (hv a ha) (hw b hb)
    have hparts' : ∀ a ∈ s.parts v, ∀ b ∈ s.parts w, s.compare? n b a = some (s.agree n b a) :=
      fun a ha b hb => ih (hw b hb) (hv a ha)
    rw [compare?_succ]
    cases v with
    | cons x =>
      cases w with
      | cons y =>
        rw [compareParts, agree]
        split
        next hsame => simp [hsame]
        next hother =>
          have hpairs := comparePairs_answered hparts (rfl : [_, _].length = [_, _].length)
          refine hpairs.trans ?_
          simp [parts, allPairs, hother]
      | _ => rfl
    | array x =>
      cases w with
      | array y =>
        simp only [compareParts, agree]
        split
        next hsame => simp [hsame]
        next hother =>
          split
          next hlength =>
            refine (comparePairs_answered hparts hlength).trans ?_
            simp [parts, hother]
          next hlength =>
            rw [allPairs_of_length_ne hlength]
            simp [hother]
      | _ => rfl
    | dictionary x =>
      cases w with
      | dictionary y =>
        simp only [compareParts, agree]
        split
        next hsame => simp [hsame]
        next hother =>
          split
          next hlength =>
            rw [compareEntries_answered
              (fun e he f hf => hparts' e.1 (part_entry he).1 f.1 (part_entry hf).1)
              fun e he f hf => hparts' e.2 (part_entry he).2 f.2 (part_entry hf).2]
            simp [hother, hlength]
          next hlength => simp [hother, hlength]
      | _ => rfl
    | _ => cases w <;> rfl

end Answered

/-- Two values agree in structure, `test` being used for what stands directly in them. -/
inductive Alike (s : Interp) (test : Value → Value → Bool) : Value → Value → Prop
  | same {v : Value} (hnumber : v.isNumber = false) : Alike s test v v
  | numbers {a b : Number} (h : a.compare? b = some .eq) : Alike s test (.number a) (.number b)
  | cells {x y : CellId} (hcar : test (s.car x) (s.car y) = true)
      (hcdr : test (s.cdr x) (s.cdr y) = true) : Alike s test (.cons x) (.cons y)
  | arrays {x y : ArrayId}
      (hitems : List.Forall₂ (fun a b => test a b = true) (s.arrayItems x).toList
        (s.arrayItems y).toList) : Alike s test (.array x) (.array y)
  | dictionaries {x y : DictionaryId}
      (hlength : (s.dictionaryEntries x).length = (s.dictionaryEntries y).length)
      (hentries : ∀ e ∈ s.dictionaryEntries x,
        ∃ v, findAgreeing? test e.1 (s.dictionaryEntries y) = some v ∧ test v e.2 = true) :
      Alike s test (.dictionary x) (.dictionary y)

theorem agree_succ_iff {n : Nat} : s.agree (n + 1) v w = true ↔ s.Alike (s.agree n) v w := by
  constructor
  · intro h
    cases v with
    | cons x =>
      cases w with
      | cons y =>
        simp only [agree, Bool.or_eq_true, decide_eq_true_eq, Bool.and_eq_true] at h
        rcases h with rfl | ⟨hcar, hcdr⟩
        · exact .same rfl
        · exact .cells hcar hcdr
      | _ => cases of_decide_eq_true h
    | array x =>
      cases w with
      | array y =>
        simp only [agree, Bool.or_eq_true, decide_eq_true_eq] at h
        rcases h with rfl | hitems
        · exact .same rfl
        · exact .arrays (allPairs_iff.mp hitems)
      | _ => cases of_decide_eq_true h
    | dictionary x =>
      cases w with
      | dictionary y =>
        simp only [agree, Bool.or_eq_true, decide_eq_true_eq, Bool.and_eq_true,
          List.all_eq_true] at h
        rcases h with rfl | ⟨hlength, hentries⟩
        · exact .same rfl
        · refine .dictionaries hlength fun e he => ?_
          have hfound := hentries e he
          split at hfound
          next v hv => exact ⟨v, hv, hfound⟩
          next => cases hfound
      | _ => cases of_decide_eq_true h
    | number a =>
      cases w with
      | number b => exact .numbers (eq_of_beq h)
      | _ => cases of_decide_eq_true h
    | _ =>
      obtain rfl := of_decide_eq_true h
      exact .same rfl
  · intro h
    cases h with
    | same hnumber =>
      cases v with
      | number n => cases hnumber
      | _ => simp [agree]
    | numbers h => simp [agree, h]
    | cells hcar hcdr => simp [agree, hcar, hcdr]
    | arrays hitems => simp [agree, allPairs_iff.mpr hitems]
    | dictionaries hlength hentries =>
      simp only [agree, Bool.or_eq_true, decide_eq_true_eq, Bool.and_eq_true, List.all_eq_true]
      refine .inr ⟨hlength, fun e he => ?_⟩
      obtain ⟨v, hv, htest⟩ := hentries e he
      rw [hv]
      exact htest

/-- Whether two values agree depends on the answers of the test for their parts. -/
theorem Alike.congr {test test' : Value → Value → Bool} (h : s.Alike test v w)
    (hparts : ∀ a ∈ s.parts v, ∀ b ∈ s.parts w, test a b = test' a b)
    (hparts' : ∀ b ∈ s.parts w, ∀ a ∈ s.parts v, test b a = test' b a) : s.Alike test' v w := by
  cases h with
  | same hnumber => exact .same hnumber
  | numbers h => exact .numbers h
  | cells hcar hcdr =>
    rw [hparts _ (part_car _) _ (part_car _)] at hcar
    rw [hparts _ (part_cdr _) _ (part_cdr _)] at hcdr
    exact .cells hcar hcdr
  | @arrays x y hitems =>
    have heq : allPairs test (s.arrayItems x).toList (s.arrayItems y).toList =
        allPairs test' (s.arrayItems x).toList (s.arrayItems y).toList := allPairs_congr hparts
    exact .arrays (allPairs_iff.mp (heq ▸ allPairs_iff.mpr hitems))
  | dictionaries hlength hentries =>
    refine .dictionaries hlength fun e he => ?_
    obtain ⟨v, hv, htest⟩ := hentries e he
    have hkeys : findAgreeing? test e.1 _ = findAgreeing? test' e.1 _ :=
      findAgreeing?_congr fun f hf => hparts' f.1 (part_entry hf).1 e.1 (part_entry he).1
    obtain ⟨k, hk⟩ := mem_of_findAgreeing? hv
    rw [hkeys] at hv
    rw [hparts' v (part_entry hk).2 e.2 (part_entry he).2] at htest
    exact ⟨v, hv, htest⟩

/-- A bound above the levels of two values does not change how they compare. -/
theorem agree_levels {n m : Nat} (hnm : n ≤ m) (hv : s.Levels n v) (hw : s.Levels n w) :
    s.agree m v w = s.agree n v w := by
  induction n generalizing m v w with
  | zero => exact hv.elim
  | succ n ih =>
    obtain ⟨m, rfl⟩ : ∃ k, m = k + 1 := ⟨m - 1, by omega⟩
    have hparts : ∀ a ∈ s.parts v, ∀ b ∈ s.parts w, s.agree m a b = s.agree n a b :=
      fun a ha b hb => ih (Nat.le_of_succ_le_succ hnm) (hv a ha) (hw b hb)
    have hparts' : ∀ b ∈ s.parts w, ∀ a ∈ s.parts v, s.agree m b a = s.agree n b a :=
      fun b hb a ha => ih (Nat.le_of_succ_le_succ hnm) (hw b hb) (hv a ha)
    rw [Bool.eq_iff_iff, agree_succ_iff, agree_succ_iff]
    exact ⟨fun h => h.congr hparts hparts',
      fun h => h.congr (fun a ha b hb => (hparts a ha b hb).symm)
        fun b hb a ha => (hparts' b hb a ha).symm⟩

/-- Structural equality of finite values is agreement down to as many levels as there are
containers, and one. -/
theorem Finite.equal_eq_agree (hv : s.Finite v) (hw : s.Finite w) :
    s.equal v w = s.agree (s.containers + 1) v w :=
  equal_of_compare? (compare?_levels hv.levels hw.levels)

/-- Structural equality of finite values is structural equality of what stands in them. -/
theorem Finite.equal_iff (hv : s.Finite v) (hw : s.Finite w) :
    s.equal v w = true ↔ s.Alike s.equal v w := by
  -- one level below the top the bound is still above all levels
  have hlevel : ∀ {a b c d : Value}, s.Finite a → s.Finite c → b ∈ s.parts a → d ∈ s.parts c →
      s.agree s.containers b d = s.equal b d := fun ha hc hb hd =>
    ((ha.part hb).equal_eq_agree (hc.part hd)).trans
      (agree_levels (Nat.le_succ _) (ha.levels _ hb) (hc.levels _ hd)) |>.symm
  rw [hv.equal_eq_agree hw, agree_succ_iff]
  exact ⟨fun h => h.congr (fun a ha b hb => hlevel hv hw ha hb)
      fun b hb a ha => hlevel hw hv hb ha,
    fun h => h.congr (fun a ha b hb => (hlevel hv hw ha hb).symm)
      fun b hb a ha => (hlevel hw hv hb ha).symm⟩

/-- Integers that compare as equal are the same. -/
theorem Exact.eq_of_compare? {a b : Number} (ha : s.Exact (.number a)) (hb : s.Exact (.number b))
    (h : a.compare? b = some .eq) : a = b := by
  cases a with
  | float x => cases ha.floatFree.self
  | int a =>
    cases b with
    | float x => cases hb.floatFree.self
    | int b =>
      rw [Number.compare?, Option.some.injEq, Std.compare_eq_iff_eq, Int64.toInt_inj] at h
      rw [h]

theorem Exact.equal_self (hv : s.Exact v) : s.equal v v = true := by
  rw [hv.equal_iff hv.toFinite]
  cases v with
  | number a =>
    cases a with
    | float x => cases hv.floatFree.self
    | int a => exact .numbers (by simp [Number.compare?])
  | _ => exact .same rfl

end Interp

end SmallLisp
