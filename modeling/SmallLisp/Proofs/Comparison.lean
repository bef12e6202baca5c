import Mathlib.Data.Finset.Prod
import Mathlib.Order.Interval.Finset.Nat
import SmallLisp.Equality
import SmallLisp.Proofs.Live

/-!
# The bound of structural equality

A comparison that has an answer within some number of levels has it within the bound of
`Interp.equal`, also while a dictionary is borrowed. A level at which some pair of values gets its
answer is preceded by one for every number below it. From the third level on the pairs are pairs of
containers of the store, and no pair gets its answer twice. So there are not more levels than such
pairs.
-/

namespace SmallLisp

variable {s : Interp} {a b : Value} {test test' : Value → Value → Option Bool}
  {borrowed : Option DictionaryId}

/-- Whether structural equality looks for parts in a value. -/
def Value.hasParts : Value → Bool
  | .cons _ | .array _ | .dictionary _ => true
  | _ => false

/-! ## More levels -/

/-- Every answer of the first test is one of the second. -/
def Refines (test test' : Value → Value → Option Bool) : Prop :=
  ∀ a b answer, test a b = some answer → test' a b = some answer

namespace Refines

theorem comparePairs (h : Refines test test') {as bs : List Value} {answer : Bool}
    (hanswer : comparePairs test as bs = some answer) :
    SmallLisp.comparePairs test' as bs = some answer := by
  induction as generalizing bs with
  | nil => exact hanswer
  | cons a as ih =>
    cases bs with
    | nil => exact hanswer
    | cons b bs =>
      rw [SmallLisp.comparePairs] at hanswer ⊢
      cases htest : test a b with
      | none => rw [htest] at hanswer; cases hanswer
      | some agrees =>
        rw [htest] at hanswer
        rw [h a b agrees htest]
        cases agrees with
        | false => exact hanswer
        | true => exact ih hanswer

theorem searchEntries (h : Refines test test') {key : Value} {es : List (Value × Value)}
    {found : Option Value} (hfound : searchEntries test key es = some found) :
    SmallLisp.searchEntries test' key es = some found := by
  induction es with
  | nil => exact hfound
  | cons e es ih =>
    rw [SmallLisp.searchEntries] at hfound ⊢
    cases htest : test e.1 key with
    | none => rw [htest] at hfound; cases hfound
    | some agrees =>
      rw [htest] at hfound
      rw [h e.1 key agrees htest]
      cases agrees with
      | false => exact ih hfound
      | true => exact hfound

theorem compareEntries (h : Refines test test') {right es : List (Value × Value)} {answer : Bool}
    (hanswer : compareEntries test right es = some answer) :
    SmallLisp.compareEntries test' right es = some answer := by
  induction es with
  | nil => exact hanswer
  | cons e es ih =>
    rw [SmallLisp.compareEntries] at hanswer ⊢
    cases hsearch : SmallLisp.searchEntries test e.1 right with
    | none => rw [hsearch] at hanswer; cases hanswer
    | some found =>
      rw [hsearch] at hanswer
      rw [h.searchEntries hsearch]
      cases found with
      | none => exact hanswer
      | some v =>
        dsimp only at hanswer ⊢
        cases htest : test v e.2 with
        | none => rw [htest] at hanswer; cases hanswer
        | some agrees =>
          rw [htest] at hanswer
          rw [h v e.2 agrees htest]
          cases agrees with
          | false => exact hanswer
          | true => exact ih hanswer

theorem compareParts (h : Refines test test') (s : Interp) :
    Refines (s.compareParts test) (s.compareParts test') := by
  intro a b answer hanswer
  cases a with
  | cons x | array x | dictionary x =>
    cases b with
    | cons y | array y | dictionary y =>
      simp only [Interp.compareParts] at hanswer ⊢
      first
      | exact hanswer
      | split at hanswer
        next hsame => rw [if_pos hsame]; exact hanswer
        next hother =>
          rw [if_neg hother]
          first
          | exact h.comparePairs hanswer
          | split at hanswer
            next hlength =>
              rw [if_pos hlength]
              first | exact h.comparePairs hanswer | exact h.compareEntries hanswer
            next hlength => rw [if_neg hlength]; exact hanswer
    | _ => exact hanswer
  | _ => cases b <;> exact hanswer

end Refines

namespace Interp

theorem compareWithin?_refines {n m : Nat} (hnm : n ≤ m) :
    Refines (s.compareWithin? borrowed n) (s.compareWithin? borrowed m) := by
  induction n generalizing m with
  | zero =>
    intro a b answer hanswer
    cases hanswer
  | succ n ih =>
    obtain ⟨m, rfl⟩ : ∃ k, m = k + 1 := ⟨m - 1, by omega⟩
    intro a b answer hanswer
    simp only [compareWithin?] at hanswer ⊢
    split at hanswer
    next => cases hanswer
    next hopen =>
      rw [if_neg hopen]
      exact (ih (Nat.le_of_succ_le_succ hnm)).compareParts s a b answer hanswer

/-! ## Levels at which an answer appears -/

/-- The comparison of two values has its answer within `n + 1` levels and not within `n`. -/
def AnswersAt (s : Interp) (borrowed : Option DictionaryId) (n : Nat) (a b : Value) : Prop :=
  s.compareWithin? borrowed n a b = none ∧ s.compareWithin? borrowed (n + 1) a b ≠ none

theorem AnswersAt.unique {n m : Nat} (h : s.AnswersAt borrowed n a b)
    (h' : s.AnswersAt borrowed m a b) : n = m := by
  -- an answer at the lower level would be one at the higher
  have hle : ∀ {i j}, s.AnswersAt borrowed i a b → s.AnswersAt borrowed j a b → i ≤ j := by
    intro i j hi hj
    by_contra hlt
    obtain ⟨answer, hanswer⟩ := Option.ne_none_iff_exists'.mp hj.2
    have hearlier := compareWithin?_refines (by omega : j + 1 ≤ i) a b answer hanswer
    rw [hi.1] at hearlier
    cases hearlier
  exact Nat.le_antisymm (hle h h') (hle h' h)

/-- Where no pair gets an answer at a level, none does at the next. -/
theorem AnswersAt.exists_below {n : Nat} (h : s.AnswersAt borrowed (n + 1) a b) :
    ∃ a b, s.AnswersAt borrowed n a b := by
  by_contra hnone
  have hsame : s.compareWithin? borrowed (n + 1) = s.compareWithin? borrowed n := by
    funext a b
    cases hopen : s.compareWithin? borrowed n a b with
    | some answer => exact compareWithin?_refines (Nat.le_succ n) a b answer hopen
    | none =>
      by_contra hanswer
      exact hnone ⟨a, b, hopen, hanswer⟩
  have hstill : s.compareWithin? borrowed (n + 2) a b = s.compareWithin? borrowed (n + 1) a b := by
    conv_lhs => rw [compareWithin?, hsame]
    rw [compareWithin?]
  exact h.2 (hstill.trans h.1)

theorem AnswersAt.exists_of_le {n i : Nat} (h : s.AnswersAt borrowed n a b) (hi : i ≤ n) :
    ∃ a b, s.AnswersAt borrowed i a b := by
  induction n generalizing a b with
  | zero => exact ⟨a, b, Nat.le_zero.mp hi ▸ h⟩
  | succ n ih =>
    rcases Nat.le_succ_iff.mp hi with hle | rfl
    · obtain ⟨c, d, hbelow⟩ := h.exists_below
      exact ih hbelow hle
    · exact ⟨a, b, h⟩

/-! ## Containers of the store -/

/-- A value that is a container of the store. -/
def Holds (s : Interp) (v : Value) : Prop := v.Live s ∧ v.hasParts = true

/-- The position of a container among all of them. -/
def position (s : Interp) : Value → Nat
  | .cons id => id.index
  | .array id => s.cells.size + id.index
  | .dictionary id => s.cells.size + s.arrays.size + id.index
  | _ => 0

theorem position_lt (h : s.Holds a) : s.position a < s.containers := by
  obtain ⟨hlive, hparts⟩ := h
  cases a with
  | cons | array | dictionary =>
    simp only [Value.Live] at hlive
    simp only [position, containers]
    omega
  | _ => cases hparts

theorem position_injective (ha : s.Holds a) (hb : s.Holds b) (h : s.position a = s.position b) :
    a = b := by
  obtain ⟨ha, hparts⟩ := ha
  obtain ⟨hb, hparts'⟩ := hb
  -- ranges of positions of different kinds are apart
  cases a with
  | cons x | array x | dictionary x =>
    cases b with
    | cons y | array y | dictionary y =>
      obtain ⟨i⟩ := x
      obtain ⟨j⟩ := y
      simp only [Value.Live] at ha hb
      simp only [position] at h
      first
      | omega
      | have hij : i = j := by omega
        rw [hij]
    | _ => cases hparts'
  | _ => cases hparts

/-- An address without an object reads as a container without parts. -/
theorem parts_of_not_live :
    (∀ id : CellId, ¬ (Value.cons id).Live s → s.car id = .nil ∧ s.cdr id = .nil) ∧
      (∀ id : ArrayId, ¬ (Value.array id).Live s → s.arrayItems id = #[]) ∧
      ∀ id : DictionaryId, ¬ (Value.dictionary id).Live s → s.dictionaryEntries id = [] := by
  refine ⟨fun id hid => ?_, fun id hid => ?_, fun id hid => ?_⟩
  · have hcell : s.cell id = ⟨.nil, .nil⟩ := by
      rw [cell, Array.getElem?_eq_none (Nat.le_of_not_lt hid)]
      rfl
    simp [car, cdr, hcell]
  · rw [arrayItems, Array.getElem?_eq_none (Nat.le_of_not_lt hid)]
    rfl
  · rw [dictionaryEntries, Array.getElem?_eq_none (Nat.le_of_not_lt hid)]
    rfl

theorem compareWithin?_nil (n : Nat) (v : Value) :
    s.compareWithin? borrowed (n + 1) .nil v ≠ none ∧
      s.compareWithin? borrowed (n + 1) v .nil ≠ none := by
  cases v <;> cases borrowed <;> simp [compareWithin?, compareParts, looksInto]

theorem comparePairs_ne_none {as bs : List Value} (h : ∀ a ∈ as, ∀ b ∈ bs, test a b ≠ none) :
    comparePairs test as bs ≠ none := by
  induction as generalizing bs with
  | nil => exact Option.some_ne_none true
  | cons a as ih =>
    cases bs with
    | nil => exact Option.some_ne_none true
    | cons b bs =>
      have hrest := ih fun c hc d hd =>
        h c (List.mem_cons_of_mem _ hc) d (List.mem_cons_of_mem _ hd)
      obtain ⟨answer, hanswer⟩ :=
        Option.ne_none_iff_exists'.mp (h a List.mem_cons_self b List.mem_cons_self)
      rw [comparePairs, hanswer]
      cases answer with
      | false => exact Option.some_ne_none false
      | true => exact hrest

theorem compareEntries_of_length {right es : List (Value × Value)} (h : es.length = right.length)
    (hempty : es = [] ∨ right = []) : compareEntries test right es = some true := by
  have hes : es = [] := by
    rcases hempty with hes | hright
    · exact hes
    · exact List.eq_nil_of_length_eq_zero (h.trans (congrArg List.length hright))
  rw [hes]
  rfl

/-- Two levels are enough where one of the values is no container of the store, unless the two are
not looked into. -/
theorem compareWithin?_two (hopen : borrowed.any (looksInto · a b) = false)
    (h : ¬ (s.Holds a ∧ s.Holds b)) : s.compareWithin? borrowed 2 a b ≠ none := by
  obtain ⟨hcells, harrays, hdictionaries⟩ := @parts_of_not_live s
  have hmissing : a.hasParts = true → b.hasParts = true → ¬ a.Live s ∨ ¬ b.Live s := by
    intro ha hb
    by_contra hlive
    simp only [not_or, not_not] at hlive
    exact h ⟨⟨hlive.1, ha⟩, hlive.2, hb⟩
  obtain ⟨test, htest, hnil⟩ : ∃ test, s.compareWithin? borrowed 2 a b = s.compareParts test a b ∧
      ∀ v, test .nil v ≠ none ∧ test v .nil ≠ none :=
    ⟨_, if_neg (Bool.not_eq_true _ ▸ hopen), fun v => compareWithin?_nil 0 v⟩
  rw [htest]
  cases a with
  | cons x =>
    cases b with
    | cons y =>
      have hpairs : comparePairs test [s.car x, s.cdr x] [s.car y, s.cdr y] ≠ none := by
        rcases hmissing rfl rfl with hx | hy
        · rw [(hcells x hx).1, (hcells x hx).2]
          refine comparePairs_ne_none fun v hv w _ => ?_
          obtain rfl : v = .nil := by simpa using hv
          exact (hnil w).1
        · rw [(hcells y hy).1, (hcells y hy).2]
          refine comparePairs_ne_none fun v _ w hw => ?_
          obtain rfl : w = .nil := by simpa using hw
          exact (hnil v).2
      rw [compareParts]
      split
      · exact Option.some_ne_none true
      · exact hpairs
    | _ => simp [compareParts]
  | array x =>
    cases b with
    | array y =>
      have hpairs : comparePairs test (s.arrayItems x).toList
          (s.arrayItems y).toList ≠ none := by
        refine comparePairs_ne_none fun v hv w hw => ?_
        rcases hmissing rfl rfl with hx | hy
        · rw [harrays x hx] at hv
          cases hv
        · rw [harrays y hy] at hw
          cases hw
      simp only [compareParts]
      split
      · exact Option.some_ne_none true
      · split
        · exact hpairs
        · exact Option.some_ne_none false
    | _ => simp [compareParts]
  | dictionary x =>
    cases b with
    | dictionary y =>
      simp only [compareParts]
      split
      · exact Option.some_ne_none true
      · split
        next hlength =>
          have hempty := (hmissing rfl rfl).imp (hdictionaries x) (hdictionaries y)
          rw [compareEntries_of_length hlength hempty]
          exact Option.some_ne_none true
        next => exact Option.some_ne_none false
    | _ => simp [compareParts]
  | _ => cases b <;> simp [compareParts]

/-- From the third level on answers are about containers of the store. -/
theorem AnswersAt.holds {n : Nat} (h : s.AnswersAt borrowed n a b) (hn : 2 ≤ n) :
    s.Holds a ∧ s.Holds b := by
  have hopen : borrowed.any (looksInto · a b) = false := by
    by_contra hclosed
    exact h.2 (if_pos (Bool.not_eq_false _ ▸ hclosed))
  by_contra hatom
  obtain ⟨answer, hanswer⟩ := Option.ne_none_iff_exists'.mp (compareWithin?_two hopen hatom)
  have hlater := compareWithin?_refines hn a b answer hanswer
  rw [h.1] at hlater
  cases hlater

/-- There are not more levels than pairs of containers, and two. -/
theorem AnswersAt.level_le {n : Nat} (h : s.AnswersAt borrowed n a b) :
    n ≤ s.containers * s.containers + 1 := by
  have hlevels : ∀ i, ∃ c d, i ≤ n → s.AnswersAt borrowed i c d := by
    intro i
    by_cases hi : i ≤ n
    · obtain ⟨c, d, hcd⟩ := h.exists_of_le hi
      exact ⟨c, d, fun _ => hcd⟩
    · exact ⟨a, b, fun hle => absurd hle hi⟩
  choose left right hanswers using hlevels
  let place (i : Nat) : Nat × Nat := (s.position (left i), s.position (right i))
  have hmaps : ∀ i ∈ Finset.Icc 2 n,
      place i ∈ Finset.range s.containers ×ˢ Finset.range s.containers := by
    intro i hi
    obtain ⟨htwo, hle⟩ := Finset.mem_Icc.mp hi
    obtain ⟨hleft, hright⟩ := (hanswers i hle).holds htwo
    simp [place, position_lt hleft, position_lt hright]
  have hinjective : Set.InjOn place (Finset.Icc 2 n) := by
    intro i hi j hj heq
    obtain ⟨htwo, hle⟩ := Finset.mem_Icc.mp hi
    obtain ⟨htwo', hle'⟩ := Finset.mem_Icc.mp hj
    obtain ⟨hleft, hright⟩ := (hanswers i hle).holds htwo
    obtain ⟨hleft', hright'⟩ := (hanswers j hle').holds htwo'
    obtain ⟨hposition, hposition'⟩ := Prod.mk.inj heq
    have hsame := hanswers i hle
    rw [position_injective hleft hleft' hposition, position_injective hright hright' hposition']
      at hsame
    exact hsame.unique (hanswers j hle')
  have hcard := Finset.card_le_card_of_injOn place hmaps hinjective
  rw [Nat.card_Icc, Finset.card_product, Finset.card_range] at hcard
  omega

/-- Answers within different numbers of levels are the same. -/
theorem compareWithin?_unique {n m : Nat} {answer answer' : Bool}
    (h : s.compareWithin? borrowed n a b = some answer)
    (h' : s.compareWithin? borrowed m a b = some answer') : answer = answer' := by
  have hmax := compareWithin?_refines (Nat.le_max_left n m) a b answer h
  rw [compareWithin?_refines (Nat.le_max_right n m) a b answer' h'] at hmax
  exact (Option.some.inj hmax).symm

/-- An answer appears at some level for the first time. -/
theorem exists_answersAt {n : Nat} (h : s.compareWithin? borrowed n a b ≠ none) :
    ∃ i, s.AnswersAt borrowed i a b := by
  induction n with
  | zero => exact absurd rfl h
  | succ n ih =>
    by_cases hopen : s.compareWithin? borrowed n a b = none
    · exact ⟨n, hopen, h⟩
    · exact ih hopen

/-- The answers within any number of levels are answers within the bound. -/
theorem compareLevels_suffice (s : Interp) (borrowed : Option DictionaryId) (n : Nat) :
    Refines (s.compareWithin? borrowed n) (s.compareWithin? borrowed s.compareLevels) := by
  intro a b answer h
  obtain ⟨i, hi⟩ := exists_answersAt (h ▸ Option.some_ne_none answer)
  obtain ⟨answer', hanswer'⟩ := Option.ne_none_iff_exists'.mp hi.2
  rw [compareWithin?_unique h hanswer']
  exact compareWithin?_refines (Nat.succ_le_succ hi.level_le) a b answer' hanswer'

/-- What is found within any number of levels is what structural equality finds. -/
theorem equal_of_compare? {n : Nat} {answer : Bool} (h : s.compare? n a b = some answer) :
    s.equal a b = answer := by
  rw [equal, compare?, compareLevels_suffice s none n a b answer h]
  rfl

/-- A comparison without an end finds no equality. -/
theorem equal_of_endless (h : ∀ n, s.compare? n a b = none) : s.equal a b = false := by
  rw [equal, h]
  rfl

/-- A dictionary can be searched while it is borrowed if the search ends within some number of
levels. -/
theorem searchable_iff {id : DictionaryId} {key : Value} {es : List (Value × Value)} :
    s.searchable id key es = true ↔
      ∃ n found, searchEntries (s.compareWithin? (some id) n) key es = some found := by
  constructor
  · intro h
    exact ⟨_, Option.isSome_iff_exists.mp h⟩
  · rintro ⟨n, found, hfound⟩
    exact Option.isSome_iff_exists.mpr
      ⟨found, (compareLevels_suffice s (some id) n).searchEntries hfound⟩

end Interp

end SmallLisp
