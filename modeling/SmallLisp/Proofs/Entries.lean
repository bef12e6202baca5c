import Mathlib.Data.Fintype.EquivFin
import SmallLisp.Proofs.Nesting

/-!
# Entries under an equivalence of keys

What the look-ups and assignments of a dictionary do to its list of entries, for any test of keys
that is an equivalence on them. An assignment changes the look-ups of the keys that agree with its
own and of no others, and a list of entries that no two keys of agree stays one. `matched_back`
turns a match of all entries of one list in another of the same length around.
-/

namespace SmallLisp

/-- A test is an equivalence among the values with a property. -/
structure EquivalenceOn (test : Value → Value → Bool) (p : Value → Prop) : Prop where
  refl : ∀ {a}, p a → test a a = true
  symm : ∀ {a b}, p a → p b → test a b = true → test b a = true
  trans : ∀ {a b c}, p a → p b → p c → test a b = true → test b c = true → test a c = true

/-- No key agrees with a later one. -/
def DistinctKeys (test : Value → Value → Bool) (es : List (Value × Value)) : Prop :=
  (es.map (·.1)).Pairwise fun j k => test j k = false

variable {test : Value → Value → Bool} {p : Value → Prop} {es : List (Value × Value)}
  {key v : Value}

/-! ## Look-ups and assignments under any test -/

theorem findAgreeing?_eq_some (h : findAgreeing? test key es = some v) :
    ∃ e ∈ es, test e.1 key = true ∧ e.2 = v := by
  induction es with
  | nil => cases h
  | cons e es ih =>
    rw [findAgreeing?] at h
    split at h
    next htest => exact ⟨e, List.mem_cons_self, htest, Option.some.inj h⟩
    next =>
      obtain ⟨f, hf, hfound⟩ := ih h
      exact ⟨f, List.mem_cons_of_mem _ hf, hfound⟩

/-- The keys stay in their order; one that agrees with none of them is added at the end. -/
theorem keys_assignAgreeing (test : Value → Value → Bool) (key v : Value)
    (es : List (Value × Value)) :
    (assignAgreeing test key v es).map (·.1) =
      if (es.map (·.1)).any (test · key) then es.map (·.1) else es.map (·.1) ++ [key] := by
  induction es with
  | nil => rfl
  | cons e es ih =>
    rw [assignAgreeing]
    cases htest : test e.1 key with
    | true => simp [htest]
    | false =>
      simp only [List.map_cons, List.any_cons, htest, Bool.false_or, ih, if_false,
        Bool.false_eq_true]
      split <;> rfl

/-- An assignment adds an entry exactly when no key agrees with its own. -/
theorem length_assignAgreeing (test : Value → Value → Bool) (key v : Value)
    (es : List (Value × Value)) :
    (assignAgreeing test key v es).length =
      es.length + if (es.map (·.1)).any (test · key) then 0 else 1 := by
  have hkeys := congrArg List.length (keys_assignAgreeing test key v es)
  rw [List.length_map] at hkeys
  rw [hkeys]
  split <;> simp

theorem DistinctKeys.assign (h : DistinctKeys test es) (key v : Value) :
    DistinctKeys test (assignAgreeing test key v es) := by
  unfold DistinctKeys at h ⊢
  rw [keys_assignAgreeing]
  split
  next => exact h
  next hnone =>
    refine List.pairwise_append.mpr ⟨h, List.pairwise_singleton _ _, fun j hj k hk => ?_⟩
    rw [List.mem_singleton.mp hk]
    simp only [List.any_eq_true, not_exists, not_and, Bool.not_eq_true] at hnone
    exact hnone j hj

theorem assignAgreeing_congr {test' : Value → Value → Bool}
    (h : ∀ e ∈ es, test e.1 key = test' e.1 key) :
    assignAgreeing test key v es = assignAgreeing test' key v es := by
  induction es with
  | nil => rfl
  | cons e es ih =>
    rw [assignAgreeing, assignAgreeing, h e List.mem_cons_self,
      ih fun e he => h e (List.mem_cons_of_mem _ he)]

/-! ## A history of assignments -/

/-- The entries that assignments one after the other make. -/
def replay (test : Value → Value → Bool) (history : List (Value × Value)) : List (Value × Value) :=
  history.foldl (fun es e => assignAgreeing test e.1 e.2 es) []

variable {history : List (Value × Value)}

theorem replay_concat (test : Value → Value → Bool) (history : List (Value × Value))
    (e : Value × Value) :
    replay test (history ++ [e]) = assignAgreeing test e.1 e.2 (replay test history) :=
  List.foldl_concat ..

theorem eraseDupsBy_loop_concat {α : Type} (r : α → α → Bool) (as done : List α) (a : α) :
    List.eraseDupsBy.loop r (as ++ [a]) done =
      if (List.eraseDupsBy.loop r as done).any (r a) then List.eraseDupsBy.loop r as done
      else List.eraseDupsBy.loop r as done ++ [a] := by
  induction as generalizing done with
  | nil =>
    rw [List.nil_append, List.eraseDupsBy.loop, List.eraseDupsBy.loop, List.any_reverse]
    cases done.any (r a) <;> simp [List.eraseDupsBy.loop]
  | cons b as ih =>
    rw [List.cons_append, List.eraseDupsBy.loop, List.eraseDupsBy.loop]
    cases done.any (r b) <;> exact ih _

/-- The keys stand in the order in which they were first assigned. -/
theorem keys_replay (test : Value → Value → Bool) (history : List (Value × Value)) :
    (replay test history).map (·.1) =
      (history.map (·.1)).eraseDupsBy fun later earlier => test earlier later := by
  induction history using List.reverseRecOn with
  | nil => rfl
  | append_singleton history e ih =>
    rw [replay_concat, keys_assignAgreeing, ih, List.map_append]
    exact (eraseDupsBy_loop_concat _ _ _ _).symm

theorem distinctKeys_replay (test : Value → Value → Bool) (history : List (Value × Value)) :
    DistinctKeys test (replay test history) := by
  induction history using List.reverseRecOn with
  | nil => exact .nil
  | append_singleton history e ih => exact replay_concat test history e ▸ ih.assign e.1 e.2

/-- Every stored key was assigned. -/
theorem mem_keys_of_replay {e : Value × Value} (he : e ∈ replay test history) :
    e.1 ∈ history.map (·.1) := by
  have hmem : e.1 ∈ (replay test history).map (·.1) := List.mem_map_of_mem he
  clear he
  induction history using List.reverseRecOn with
  | nil => cases hmem
  | append_singleton history f ih =>
    rw [replay_concat, keys_assignAgreeing] at hmem
    rw [List.map_append, List.mem_append]
    split at hmem
    · exact .inl (ih hmem)
    · exact (List.mem_append.mp hmem).imp_left ih

theorem forall_keys_replay (h : ∀ a ∈ history, p a.1) : ∀ e ∈ replay test history, p e.1 := by
  intro e he
  obtain ⟨a, ha, heq⟩ := List.mem_map.mp (mem_keys_of_replay he)
  exact heq ▸ h a ha

/-- Only the answers of the test for assigned keys count. -/
theorem replay_congr {test' : Value → Value → Bool}
    (h : ∀ a ∈ history, ∀ b ∈ history, test a.1 b.1 = test' a.1 b.1) :
    replay test history = replay test' history := by
  induction history using List.reverseRecOn with
  | nil => rfl
  | append_singleton history e ih =>
    have hold : ∀ {a}, a ∈ history → a ∈ history ++ [e] := List.mem_append_left _
    rw [replay_concat, replay_concat, ← ih fun a ha b hb => h a (hold ha) b (hold hb)]
    exact assignAgreeing_congr (forall_keys_replay (p := fun k => test k e.1 = test' k e.1)
      fun a ha => h a (hold ha) e (by simp))

/-! ## Under an equivalence -/

namespace EquivalenceOn

theorem test_eq (h : EquivalenceOn test p) {a b c : Value} (ha : p a) (hb : p b) (hc : p c)
    (hab : test a b = true) : test c a = test c b := by
  rw [Bool.eq_iff_iff]
  exact ⟨fun hca => h.trans hc ha hb hca hab, fun hcb => h.trans hc hb ha hcb (h.symm ha hb hab)⟩

theorem mono {q : Value → Prop} (h : EquivalenceOn test p) (hqp : ∀ a, q a → p a) :
    EquivalenceOn test q where
  refl := fun ha => h.refl (hqp _ ha)
  symm := fun ha hb => h.symm (hqp _ ha) (hqp _ hb)
  trans := fun ha hb hc => h.trans (hqp _ ha) (hqp _ hb) (hqp _ hc)

/-- Keys that agree are found in the same place. -/
theorem findAgreeing?_eq (h : EquivalenceOn test p) (hes : ∀ e ∈ es, p e.1) {a b : Value}
    (ha : p a) (hb : p b) (hab : test a b = true) :
    findAgreeing? test a es = findAgreeing? test b es :=
  findAgreeing?_congr fun e he => h.test_eq ha hb (hes e he) hab

/-- Where no two keys agree every entry is found under its own. -/
theorem findAgreeing?_of_mem (h : EquivalenceOn test p) (hes : ∀ e ∈ es, p e.1)
    (hdistinct : DistinctKeys test es) {e : Value × Value} (he : e ∈ es) :
    findAgreeing? test e.1 es = some e.2 := by
  induction es with
  | nil => cases he
  | cons f es ih =>
    obtain ⟨hfirst, hrest⟩ := List.pairwise_cons.mp hdistinct
    rw [findAgreeing?]
    rcases List.mem_cons.mp he with rfl | he
    · rw [if_pos (h.refl (hes e List.mem_cons_self))]
    · rw [hfirst e.1 (List.mem_map_of_mem he), if_neg Bool.false_ne_true]
      exact ih (fun e he => hes e (List.mem_cons_of_mem _ he)) hrest he

/-- An assignment changes the look-ups of the keys that agree with its own and of no others. -/
theorem findAgreeing?_assignAgreeing (h : EquivalenceOn test p) (hes : ∀ e ∈ es, p e.1)
    {j : Value} (hkey : p key) (hj : p j) :
    findAgreeing? test j (assignAgreeing test key v es) =
      if test key j then some v else findAgreeing? test j es := by
  induction es with
  | nil => rfl
  | cons e es ih =>
    have he : p e.1 := hes e List.mem_cons_self
    rw [assignAgreeing]
    cases hagrees : test e.1 key with
    | true =>
      -- the entry that is replaced is found by the same keys as the new one
      have hsame : test e.1 j = test key j := by
        rw [Bool.eq_iff_iff]
        exact ⟨h.trans hkey he hj (h.symm he hkey hagrees), h.trans he hkey hj hagrees⟩
      simp only [if_true, findAgreeing?, hsame]
      cases test key j <;> rfl
    | false =>
      simp only [Bool.false_eq_true, if_false, findAgreeing?,
        ih fun e he => hes e (List.mem_cons_of_mem _ he)]
      cases hej : test e.1 j with
      | false => rfl
      | true =>
        have hother : test key j = false := by
          by_contra hkj
          rw [Bool.not_eq_false] at hkj
          rw [h.trans he hj hkey hej (h.symm hkey hj hkj)] at hagrees
          cases hagrees
        rw [hother]
        rfl

/-- A key is found with what was last assigned to it. -/
theorem findAgreeing?_replay (h : EquivalenceOn test p) (hhistory : ∀ e ∈ history, p e.1)
    (hkey : p key) :
    findAgreeing? test key (replay test history) =
      (history.reverse.find? fun e => test e.1 key).map (·.2) := by
  induction history using List.reverseRecOn with
  | nil => rfl
  | append_singleton history e ih =>
    have hold : ∀ f ∈ history, p f.1 := fun f hf => hhistory f (List.mem_append_left _ hf)
    rw [replay_concat, h.findAgreeing?_assignAgreeing (forall_keys_replay hold)
      (hhistory e (by simp)) hkey, ih hold, List.reverse_append, List.reverse_singleton,
      List.singleton_append, List.find?_cons]
    cases test e.1 key <;> rfl

/-- Two lists of entries have one length, and no two keys of the first one agree. If each of its
entries has a partner in the second list, each of the second list has one in the first. -/
theorem matched_back (h : EquivalenceOn test p) {left right : List (Value × Value)}
    (hleft : ∀ e ∈ left, p e.1) (hright : ∀ f ∈ right, p f.1)
    (hlength : left.length = right.length) (hdistinct : DistinctKeys test left)
    {R : Value → Value → Prop}
    (hmatched : ∀ e ∈ left, ∃ f ∈ right, test f.1 e.1 = true ∧ R f.2 e.2) :
    ∀ f ∈ right, ∃ e ∈ left, test e.1 f.1 = true ∧ R f.2 e.2 := by
  have hindex : ∀ i : Fin left.length, ∃ j : Fin right.length,
      test right[j].1 left[i].1 = true ∧ R right[j].2 left[i].2 := by
    intro i
    obtain ⟨f, hf, hpartner⟩ := hmatched left[i] (List.getElem_mem _)
    obtain ⟨j, hj, rfl⟩ := List.getElem_of_mem hf
    exact ⟨⟨j, hj⟩, hpartner⟩
  choose partner hpartner using hindex
  -- the keys of entries with one partner would agree
  have hapart : ∀ i j : Fin left.length, i < j → partner i ≠ partner j := by
    intro i j hlt heq
    have hpi := hleft left[i] (List.getElem_mem _)
    have hpj := hleft left[j] (List.getElem_mem _)
    have hpf := hright right[partner j] (List.getElem_mem _)
    have hi := (hpartner i).1
    rw [heq] at hi
    have hagree : test left[i].1 left[j].1 = true :=
      h.trans hpi hpf hpj (h.symm hpf hpi hi) (hpartner j).1
    have hdiffer : test left[i].1 left[j].1 = false :=
      List.pairwise_iff_getElem.mp (List.pairwise_map.mp hdistinct) i j i.2 j.2 hlt
    rw [hagree] at hdiffer
    cases hdiffer
  have hinjective : Function.Injective partner := by
    intro i j hij
    rcases Nat.lt_trichotomy i.1 j.1 with hlt | heq | hgt
    · exact absurd hij (hapart i j hlt)
    · exact Fin.ext heq
    · exact absurd hij.symm (hapart j i hgt)
  have hsurjective : Function.Surjective partner :=
    ((Fintype.bijective_iff_injective_and_card partner).mpr ⟨hinjective, by simp [hlength]⟩).2
  intro f hf
  obtain ⟨j, hj, rfl⟩ := List.getElem_of_mem hf
  obtain ⟨i, hi⟩ := hsurjective ⟨j, hj⟩
  have hi' := hpartner i
  rw [hi] at hi'
  have hmem : left[i] ∈ left := List.getElem_mem _
  exact ⟨left[i], hmem, h.symm (hright _ hf) (hleft _ hmem) hi'.1, hi'.2⟩

end EquivalenceOn

end SmallLisp
