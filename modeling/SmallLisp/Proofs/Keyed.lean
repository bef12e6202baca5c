import Mathlib.Data.List.Find
import SmallLisp.Proofs.Entries

/-!
# Collections as finite maps

Dictionaries and hash tables keep entries under keys. `Keyed` is what they have in common: a test
that is an equivalence of the keys, and operations that look up, assign, count and list entries by
it. A run in which such a collection starts empty, is assigned to, and is left alone with its keys
in between makes it the finite map up to the test that the history of assignments gives.
-/

namespace SmallLisp

variable {s t : Interp} {history : List (Value × Value)}

/-- A collection of entries under keys. -/
structure Keyed where
  target : Value
  /-- The keys with their values. -/
  stored : Interp → List (Value × Value)
  test : Interp → Value → Value → Bool
  /-- The values that are considered as keys. -/
  IsKey : Interp → Value → Prop
  /-- A key is in the second state what it was in the first one. -/
  Kept : Interp → Interp → Value → Prop
  equivalence (s : Interp) : EquivalenceOn (test s) (IsKey s)
  test_kept {s t : Interp} {j k : Value} (hj : IsKey s j) (hk : IsKey s k) (hj' : IsKey t j)
    (hk' : IsKey t k) (hkept : Kept s t j) (hkept' : Kept s t k) : test t j k = test s j k
  access {s : Interp} {key : Value} (hkey : IsKey s key) :
    s.access target key = .ok ((findAgreeing? (test s) key (stored s)).getD .nil)
  assign {s : Interp} {key : Value} (v : Value) (hlive : target.Live s)
    (hkeys : ∀ e ∈ stored s, IsKey s e.1) (hkey : IsKey s key) :
    ∃ t, EvalM.assign target key v s = .ok () t ∧ target.Live t ∧
      stored t = assignAgreeing (test s) key v (stored s) ∧
      ∀ j, IsKey s j → IsKey t j ∧ Kept s t j
  length (s : Interp) : s.length target = .ok (stored s).length
  entries (s : Interp) : s.entries target = .ok ((stored s).map fun e => (e.2, e.1))

/-- A collection is in a state the finite map up to `test` that a history of assignments, the
oldest one first, gives. Its entries, each a value and its key, are `listing`. -/
structure FiniteMap (s : Interp) (target : Value) (test : Value → Value → Bool)
    (IsKey : Value → Prop) (history listing : List (Value × Value)) : Prop where
  entries : s.entries target = .ok listing
  length : s.length target = .ok listing.length
  /-- No two stored keys agree. -/
  distinct : (listing.map (·.2)).Pairwise fun j k => test j k = false ∧ test k j = false
  stored : ∀ e ∈ listing, (∃ a ∈ history, a.1 = e.2) ∧ s.access target e.2 = .ok e.1
  assigned : ∀ a ∈ history, ∃ e ∈ listing, test e.2 a.1 = true
  /-- A key reads as what was last assigned to one that agrees with it. -/
  access : ∀ k, IsKey k →
    s.access target k = .ok (((history.reverse.find? fun a => test a.1 k).map (·.2)).getD .nil)
  /-- An assignment changes what the keys read that agree with its own, and adds an entry exactly if
  none of them is stored. -/
  assign : ∀ k v, IsKey k → ∃ t, EvalM.assign target k v s = .ok () t ∧
    t.length target = .ok (listing.length + if listing.any (test ·.2 k) then 0 else 1) ∧
    ∀ j, IsKey j → t.access target j = if test k j then .ok v else s.access target j

namespace Keyed

variable {c : Keyed}

/-- A run in which a collection is assigned to, with the history of the assignments. -/
inductive Assigned (c : Keyed) : Interp → List (Value × Value) → Prop
  | start {s : Interp} (hlive : c.target.Live s) (hempty : c.stored s = []) : Assigned c s []
  | assign {s t : Interp} {history : List (Value × Value)} {key v : Value}
      (before : Assigned c s history) (hkey : c.IsKey s key)
      (h : EvalM.assign c.target key v s = .ok () t) : Assigned c t (history ++ [(key, v)])
  /-- Anything happens that touches neither the collection nor the keys. -/
  | idle {s t : Interp} {history : List (Value × Value)} (before : Assigned c s history)
      (hlive : c.target.Live t) (hstored : c.stored t = c.stored s)
      (hkeys : ∀ a ∈ history, c.IsKey t a.1 ∧ c.Kept s t a.1) : Assigned c t history

/-- A collection that is made at once, with the entries of a history in it, is one that the history
has been assigned to. -/
theorem Assigned.of_made (made : List (Value × Value) → Interp) {p : Value → Prop}
    (hlive : c.target.Live (made [])) (hempty : c.stored (made []) = [])
    (hstep : ∀ history a, (∀ b ∈ history ++ [a], p b.1) → c.IsKey (made history) a.1 ∧
      EvalM.assign c.target a.1 a.2 (made history) = .ok () (made (history ++ [a])))
    (hhistory : ∀ a ∈ history, p a.1) : c.Assigned (made history) history := by
  induction history using List.reverseRecOn with
  | nil => exact .start hlive hempty
  | append_singleton history a ih =>
    obtain ⟨hkey, hassign⟩ := hstep history a hhistory
    exact (ih fun b hb => hhistory b (List.mem_append_left _ hb)).assign hkey hassign

/-- The entries of a collection are what its history gives under the test of the present state. -/
structure Holds (c : Keyed) (s : Interp) (history : List (Value × Value)) : Prop where
  live : c.target.Live s
  keys : ∀ a ∈ history, c.IsKey s a.1
  stored : c.stored s = replay (c.test s) history

theorem Holds.keys_stored (h : c.Holds s history) {e : Value × Value} (he : e ∈ c.stored s) :
    c.IsKey s e.1 :=
  forall_keys_replay h.keys e (h.stored ▸ he)

/-- The test of a later state that has kept the keys gives the same entries. -/
theorem replay_kept (hbefore : ∀ a ∈ history, c.IsKey s a.1)
    (hafter : ∀ a ∈ history, c.IsKey t a.1 ∧ c.Kept s t a.1) :
    replay (c.test t) history = replay (c.test s) history :=
  replay_congr fun a ha b hb => c.test_kept (hbefore a ha) (hbefore b hb) (hafter a ha).1
    (hafter b hb).1 (hafter a ha).2 (hafter b hb).2

theorem Holds.assign {key v : Value} (h : c.Holds s history) (hkey : c.IsKey s key)
    (hassign : EvalM.assign c.target key v s = .ok () t) : c.Holds t (history ++ [(key, v)]) := by
  obtain ⟨_, hassign', hlive, hstored, hkept⟩ :=
    c.assign v h.live (fun _ he => h.keys_stored he) hkey
  cases hassign.symm.trans hassign'
  have hkeys : ∀ a ∈ history ++ [(key, v)], c.IsKey s a.1 := by
    intro a ha
    rcases List.mem_append.mp ha with ha | ha
    · exact h.keys a ha
    · exact List.mem_singleton.mp ha ▸ hkey
  refine ⟨hlive, fun a ha => (hkept a.1 (hkeys a ha)).1, ?_⟩
  rw [hstored, h.stored, ← replay_concat _ _ (key, v)]
  exact (replay_kept hkeys fun a ha => hkept a.1 (hkeys a ha)).symm

theorem Holds.idle (h : c.Holds s history) (hlive : c.target.Live t)
    (hstored : c.stored t = c.stored s) (hkeys : ∀ a ∈ history, c.IsKey t a.1 ∧ c.Kept s t a.1) :
    c.Holds t history :=
  ⟨hlive, fun a ha => (hkeys a ha).1, by rw [hstored, h.stored, replay_kept h.keys hkeys]⟩

theorem Assigned.holds (h : c.Assigned s history) : c.Holds s history := by
  induction h with
  | start hlive hempty => exact ⟨hlive, nofun, hempty⟩
  | assign _ hkey hassign ih => exact ih.assign hkey hassign
  | idle _ hlive hstored hkeys ih => exact ih.idle hlive hstored hkeys

theorem Holds.exists_stored (h : c.Holds s history) {a : Value × Value} (ha : a ∈ history) :
    ∃ e ∈ c.stored s, c.test s e.1 a.1 = true := by
  have hfound : (history.reverse.find? fun b => c.test s b.1 a.1).isSome = true :=
    List.find?_isSome.mpr
      ⟨a, List.mem_reverse.mpr ha, (c.equivalence s).refl (h.keys a ha)⟩
  obtain ⟨b, hb⟩ := Option.isSome_iff_exists.mp hfound
  have hstored := (c.equivalence s).findAgreeing?_replay h.keys (h.keys a ha)
  rw [← h.stored, hb] at hstored
  obtain ⟨e, he, hagree, -⟩ := findAgreeing?_eq_some hstored
  exact ⟨e, he, hagree⟩

theorem Holds.access {key : Value} (h : c.Holds s history) (hkey : c.IsKey s key) :
    s.access c.target key =
      .ok (((history.reverse.find? fun a => c.test s a.1 key).map (·.2)).getD .nil) := by
  rw [c.access hkey, h.stored, (c.equivalence s).findAgreeing?_replay h.keys hkey]

theorem Holds.access_assign {key v j : Value} (h : c.Holds s history) (hkey : c.IsKey s key)
    (hassign : EvalM.assign c.target key v s = .ok () t) (hj : c.IsKey s j) :
    t.access c.target j = if c.test s key j then .ok v else s.access c.target j := by
  obtain ⟨_, hassign', -, -, hkept⟩ := c.assign v h.live (fun _ he => h.keys_stored he) hkey
  cases hassign.symm.trans hassign'
  have htest : ∀ k, c.IsKey s k → c.test t k j = c.test s k j := fun k hk =>
    c.test_kept hk hj (hkept k hk).1 (hkept j hj).1 (hkept k hk).2 (hkept j hj).2
  have hold : history.reverse.find? (fun a => c.test t a.1 j) =
      history.reverse.find? fun a => c.test s a.1 j :=
    List.find?_congr fun a ha => htest a.1 (h.keys a (List.mem_reverse.mp ha))
  rw [(h.assign hkey hassign).access (hkept j hj).1, h.access hj, List.reverse_append,
    List.reverse_singleton, List.singleton_append, List.find?_cons, htest key hkey, hold]
  cases c.test s key j <;> rfl

theorem Holds.length_assign {key v : Value} (h : c.Holds s history) (hkey : c.IsKey s key)
    (hassign : EvalM.assign c.target key v s = .ok () t) :
    (c.stored t).length =
      (c.stored s).length + if (c.stored s).any (c.test s ·.1 key) then 0 else 1 := by
  obtain ⟨_, hassign', -, hstored, -⟩ := c.assign v h.live (fun _ he => h.keys_stored he) hkey
  cases hassign.symm.trans hassign'
  rw [hstored, length_assignAgreeing, List.any_map]
  rfl

theorem Holds.distinct (h : c.Holds s history) :
    ((c.stored s).map (·.1)).Pairwise fun j k => c.test s j k = false ∧ c.test s k j = false := by
  have hdistinct : DistinctKeys (c.test s) (c.stored s) := h.stored ▸ distinctKeys_replay _ _
  refine hdistinct.imp_of_mem fun {j k} hj hk hjk => ⟨hjk, ?_⟩
  obtain ⟨e, he, rfl⟩ := List.mem_map.mp hj
  obtain ⟨f, hf, rfl⟩ := List.mem_map.mp hk
  by_contra hkj
  rw [Bool.not_eq_false] at hkj
  rw [(c.equivalence s).symm (h.keys_stored hf) (h.keys_stored he) hkj] at hjk
  cases hjk

theorem Holds.finiteMap (h : c.Holds s history) :
    FiniteMap s c.target (c.test s) (c.IsKey s) history
      ((c.stored s).map fun e => (e.2, e.1)) where
  entries := c.entries s
  length := by rw [c.length, List.length_map]
  distinct := by
    rw [List.map_map]
    exact h.distinct
  stored := by
    intro e he
    obtain ⟨f, hf, rfl⟩ := List.mem_map.mp he
    refine ⟨List.mem_map.mp (mem_keys_of_replay (h.stored ▸ hf)), ?_⟩
    rw [c.access (h.keys_stored hf), (c.equivalence s).findAgreeing?_of_mem
      (fun g hg => h.keys_stored hg) (h.stored ▸ distinctKeys_replay _ _) hf, Option.getD_some]
  assigned := by
    intro a ha
    obtain ⟨e, he, hagree⟩ := h.exists_stored ha
    exact ⟨_, List.mem_map_of_mem he, hagree⟩
  access := fun k hk => h.access hk
  assign := by
    intro k v hk
    obtain ⟨t, hassign, -⟩ := c.assign v h.live (fun _ he => h.keys_stored he) hk
    refine ⟨t, hassign, ?_, fun j hj => h.access_assign hk hassign hj⟩
    rw [c.length, h.length_assign hk hassign, List.length_map, List.any_map]
    rfl

end Keyed

end SmallLisp
