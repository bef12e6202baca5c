import SmallLisp.Proofs.Entries

/-!
# Structural equality as an equivalence

Among finite values without floats structural equality is reflexive. It is symmetric where no
dictionary has two equal keys, and transitive where this holds of the dictionaries inside keys.
Symmetry and transitivity need each other at the keys of dictionaries, so one induction on levels
proves both.

An assignment never gives a dictionary two equal keys. But keys are objects, and a change of one of
them can make it equal to another; the comparison of the dictionary then depends on the side on
which it stands, as `equal_one_way` shows.
-/

namespace SmallLisp

variable {s : Interp} {u v w : Value}

theorem forall₂_trans_of_mem {R S T : Value → Value → Prop} {as bs cs : List Value}
    (h : List.Forall₂ R as bs) (h' : List.Forall₂ S bs cs)
    (htrans : ∀ a ∈ as, ∀ b ∈ bs, ∀ c ∈ cs, R a b → S b c → T a c) : List.Forall₂ T as cs := by
  induction h generalizing cs with
  | nil =>
    cases h'
    exact .nil
  | @cons a b as bs hab _ ih =>
    cases h' with
    | @cons _ c _ cs hbc hrest =>
      refine .cons (htrans a List.mem_cons_self b List.mem_cons_self c List.mem_cons_self hab hbc)
        (ih hrest fun a ha b hb c hc => ?_)
      exact htrans a (List.mem_cons_of_mem _ ha) b (List.mem_cons_of_mem _ hb) c
        (List.mem_cons_of_mem _ hc)

namespace Interp

/-- The keys of a dictionary. -/
def keys (s : Interp) : Value → List Value
  | .dictionary id => (s.dictionaryEntries id).map (·.1)
  | _ => []

/-- No dictionary in a value has two equal keys. -/
def Separated (s : Interp) (v : Value) : Prop :=
  s.Throughout (fun w => (s.keys w).Pairwise fun j k => s.equal j k = false) v

/-- No dictionary in a key of a dictionary in a value has two equal keys. -/
def KeysSeparated (s : Interp) (v : Value) : Prop :=
  s.Throughout (fun w => ∀ k ∈ s.keys w, s.Separated k) v

theorem keys_subset_parts {k : Value} (h : k ∈ s.keys v) : k ∈ s.parts v := by
  cases v with
  | dictionary id =>
    obtain ⟨e, he, rfl⟩ := List.mem_map.mp h
    exact (part_entry he).1
  | _ => cases h

theorem Separated.part (hv : s.Separated v) (hw : w ∈ s.parts v) : s.Separated w :=
  Throughout.part hv hw

theorem Separated.keysSeparated (hv : s.Separated v) : s.KeysSeparated v :=
  fun _ hw _ hk u hu => hv u ((hu.tail (keys_subset_parts hk)).trans hw)

/-! ## One level -/

theorem Alike.symm {p : Value → Prop} (h : s.Alike s.equal v w)
    (hequiv : EquivalenceOn s.equal p) (hv : s.Exact v) (hw : s.Exact w)
    (hpv : ∀ a ∈ s.parts v, p a) (hpw : ∀ b ∈ s.parts w, p b)
    (hdistinct : (s.keys v).Pairwise fun j k => s.equal j k = false) : s.Alike s.equal w v := by
  cases h with
  | same hnumber => exact .same hnumber
  | numbers h =>
    have hsame := hv.eq_of_compare? hw h
    exact .numbers (by rwa [hsame] at h ⊢)
  | cells hcar hcdr =>
    exact .cells (hequiv.symm (hpv _ (part_car _)) (hpw _ (part_car _)) hcar)
      (hequiv.symm (hpv _ (part_cdr _)) (hpw _ (part_cdr _)) hcdr)
  | arrays hitems =>
    exact .arrays
      (forall₂_imp_of_mem hitems fun a ha b hb => hequiv.symm (hpv a ha) (hpw b hb)).flip
  | @dictionaries x y hlength hentries =>
    have hleft : ∀ e ∈ s.dictionaryEntries x, p e.1 := fun e he => hpv _ (part_entry he).1
    have hright : ∀ f ∈ s.dictionaryEntries y, p f.1 := fun f hf => hpw _ (part_entry hf).1
    have hmatched : ∀ e ∈ s.dictionaryEntries x, ∃ f ∈ s.dictionaryEntries y,
        s.equal f.1 e.1 = true ∧ s.equal f.2 e.2 = true := by
      intro e he
      obtain ⟨u, hu, hvalue⟩ := hentries e he
      obtain ⟨f, hf, hkey, rfl⟩ := findAgreeing?_eq_some hu
      exact ⟨f, hf, hkey, hvalue⟩
    refine .dictionaries hlength.symm fun f hf => ?_
    obtain ⟨e, he, hkey, hvalue⟩ := hequiv.matched_back (R := fun b a => s.equal b a = true)
      hleft hright hlength hdistinct hmatched f hf
    refine ⟨e.2, ?_, hequiv.symm (hpw _ (part_entry hf).2) (hpv _ (part_entry he).2) hvalue⟩
    rw [← hequiv.findAgreeing?_eq hleft (hleft e he) (hright f hf) hkey]
    exact hequiv.findAgreeing?_of_mem hleft hdistinct he

theorem Alike.trans {p : Value → Prop} (h : s.Alike s.equal u v) (h' : s.Alike s.equal v w)
    (hequiv : EquivalenceOn s.equal p) (hu : s.Exact u) (hv : s.Exact v)
    (hpu : ∀ k ∈ s.keys u, p k) (hpv : ∀ k ∈ s.keys v, p k) (hpw : ∀ k ∈ s.keys w, p k)
    (hparts : ∀ a ∈ s.parts u, ∀ b ∈ s.parts v, ∀ c ∈ s.parts w,
      s.equal a b = true → s.equal b c = true → s.equal a c = true)
    (hback : ∀ c ∈ s.parts w, ∀ b ∈ s.parts v, ∀ a ∈ s.parts u,
      s.equal c b = true → s.equal b a = true → s.equal c a = true) : s.Alike s.equal u w := by
  cases h with
  | same hnumber => exact h'
  | numbers h => exact hu.eq_of_compare? hv h ▸ h'
  | cells hcar hcdr =>
    cases h' with
    | same hnumber => exact .cells hcar hcdr
    | cells hcar' hcdr' =>
      exact .cells (hparts _ (part_car _) _ (part_car _) _ (part_car _) hcar hcar')
        (hparts _ (part_cdr _) _ (part_cdr _) _ (part_cdr _) hcdr hcdr')
  | arrays hitems =>
    cases h' with
    | same hnumber => exact .arrays hitems
    | arrays hitems' => exact .arrays (forall₂_trans_of_mem hitems hitems' hparts)
  | @dictionaries x y hlength hentries =>
    cases h' with
    | same hnumber => exact .dictionaries hlength hentries
    | @dictionaries _ z hlength' hentries' =>
      refine .dictionaries (hlength.trans hlength') fun e he => ?_
      obtain ⟨b, hb, hvalue⟩ := hentries e he
      obtain ⟨f, hf, hkey, rfl⟩ := findAgreeing?_eq_some hb
      obtain ⟨c, hc, hvalue'⟩ := hentries' f hf
      obtain ⟨k, hk⟩ := mem_of_findAgreeing? hc
      -- the key of the middle entry finds what the key of the first one does
      have hsame := hequiv.findAgreeing?_eq
        (fun g hg => hpw g.1 (List.mem_map_of_mem hg)) (hpv f.1 (List.mem_map_of_mem hf))
        (hpu e.1 (List.mem_map_of_mem he)) hkey
      refine ⟨c, hsame ▸ hc, ?_⟩
      exact hback c (part_entry hk).2 f.2 (part_entry hf).2 e.2 (part_entry he).2 hvalue' hvalue

/-! ## All levels -/

theorem Levels.equivalence (n : Nat) :
    EquivalenceOn s.equal fun v => s.Levels n v ∧ s.Exact v ∧ s.Separated v := by
  induction n with
  | zero => exact ⟨fun h => h.1.elim, fun h => h.1.elim, fun h => h.1.elim⟩
  | succ n ih =>
    have hpart : ∀ {v}, s.Levels (n + 1) v ∧ s.Exact v ∧ s.Separated v → ∀ w ∈ s.parts v,
        s.Levels n w ∧ s.Exact w ∧ s.Separated w :=
      fun hv w hw => ⟨hv.1 w hw, hv.2.1.part hw, hv.2.2.part hw⟩
    refine ⟨fun hv => hv.2.1.equal_self, fun {v w} hv hw h => ?_, fun {u v w} hu hv hw h h' => ?_⟩
    · rw [hv.2.1.equal_iff hw.2.1.toFinite] at h
      rw [hw.2.1.equal_iff hv.2.1.toFinite]
      exact h.symm ih hv.2.1 hw.2.1 (hpart hv) (hpart hw) hv.2.2.self
    · rw [hu.2.1.equal_iff hv.2.1.toFinite] at h
      rw [hv.2.1.equal_iff hw.2.1.toFinite] at h'
      rw [hu.2.1.equal_iff hw.2.1.toFinite]
      exact h.trans h' ih hu.2.1 hv.2.1 (fun k hk => hpart hu k (keys_subset_parts hk))
        (fun k hk => hpart hv k (keys_subset_parts hk))
        (fun k hk => hpart hw k (keys_subset_parts hk))
        (fun a ha b hb c hc => ih.trans (hpart hu a ha) (hpart hv b hb) (hpart hw c hc))
        (fun c hc b hb a ha => ih.trans (hpart hw c hc) (hpart hv b hb) (hpart hu a ha))

theorem equivalenceOn_separated :
    EquivalenceOn s.equal fun v => s.Exact v ∧ s.Separated v :=
  (Levels.equivalence (s.containers + 1)).mono fun _ hv => ⟨hv.1.levels, hv⟩

instance decidableSeparated : Decidable (s.Exact v ∧ s.Separated v) :=
  decidable_of_iff
    (s.Exact v ∧ s.examine (fun w => (s.keys w).Pairwise fun j k => s.equal j k = false)
      (s.containers + 1) v = true)
    ⟨fun h => ⟨h.1, h.1.throughout_iff.mpr h.2⟩, fun h => ⟨h.1, h.1.throughout_iff.mp h.2⟩⟩

/-- Equality is carried on where the keys of dictionaries are compared by an equivalence. -/
theorem Levels.equal_trans {n : Nat} (hlu : s.Levels n u) (hlv : s.Levels n v)
    (hlw : s.Levels n w) (hu : s.Exact u ∧ s.KeysSeparated u) (hv : s.Exact v ∧ s.KeysSeparated v)
    (hw : s.Exact w ∧ s.KeysSeparated w) (h : s.equal u v = true) (h' : s.equal v w = true) :
    s.equal u w = true := by
  induction n generalizing u v w with
  | zero => exact hlu.elim
  | succ n ih =>
    have hpart : ∀ {v}, s.Exact v ∧ s.KeysSeparated v → ∀ w ∈ s.parts v,
        s.Exact w ∧ s.KeysSeparated w := fun hv w hw => ⟨hv.1.part hw, Throughout.part hv.2 hw⟩
    have hkey : ∀ {v}, s.Exact v ∧ s.KeysSeparated v → ∀ k ∈ s.keys v,
        s.Exact k ∧ s.Separated k :=
      fun hv k hk => ⟨hv.1.part (keys_subset_parts hk), Throughout.self hv.2 k hk⟩
    rw [hu.1.equal_iff hv.1.toFinite] at h
    rw [hv.1.equal_iff hw.1.toFinite] at h'
    rw [hu.1.equal_iff hw.1.toFinite]
    exact h.trans h' equivalenceOn_separated hu.1 hv.1 (hkey hu) (hkey hv) (hkey hw)
      (fun a ha b hb c hc => ih (hlu a ha) (hlv b hb) (hlw c hc) (hpart hu a ha) (hpart hv b hb)
        (hpart hw c hc))
      (fun c hc b hb a ha => ih (hlw c hc) (hlv b hb) (hlu a ha) (hpart hw c hc) (hpart hv b hb)
        (hpart hu a ha))

/-- Structural equality is an equivalence of finite values without floats as long as no change of a
key has made two keys of one dictionary equal: every such value is equal to itself, it is equal both
ways if its dictionaries have no equal keys, and it passes equality on if the dictionaries inside
its keys have none. -/
theorem equal_equivalence (s : Interp) :
    (∀ a, s.Exact a → s.equal a a = true) ∧
      (∀ a b, s.Exact a ∧ s.Separated a → s.Exact b ∧ s.Separated b →
        s.equal a b = true → s.equal b a = true) ∧
      ∀ a b c, s.Exact a ∧ s.KeysSeparated a → s.Exact b ∧ s.KeysSeparated b →
        s.Exact c ∧ s.KeysSeparated c →
        s.equal a b = true → s.equal b c = true → s.equal a c = true :=
  ⟨fun _ ha => ha.equal_self, fun _ _ ha hb => equivalenceOn_separated.symm ha hb,
    fun _ _ _ ha hb hc => ha.1.levels.equal_trans hb.1.levels hc.1.levels ha hb hc⟩

/-- A key is changed and stays unequal to the other one; equality stays an equivalence. -/
theorem equal_after_change :
    ∃ r s a b c id, Session (fun _ => True) (.initial 64) r ∧ Session (fun _ => True) r s ∧
      (.cons id ∈ r.keys a ∧ .cons id ∈ s.keys a ∧ r.car id ≠ s.car id) ∧
      (s.equal a b = true ∧ s.equal b c = true) ∧ s.equal b a = true ∧ s.equal a c = true := by
  obtain ⟨r, hr⟩ : ∃ r, r = (Interp.initial 64).afterTexts
    [(.small, "(var k (list 1)) (dictionary (list k 5) (list 7 (array 8)))")] := ⟨_, rfl⟩
  obtain ⟨s, hs⟩ : ∃ s, s = r.afterTexts
    [(.small, "(= (elt k 0) 2) (dictionary (list 7 (array 8)) (list (list 2) 5))"),
      (.small, "(dictionary (list (list 2) 5) (list 7 (array 8)))")] := ⟨_, rfl⟩
  have hbefore : Session (fun _ => True) (.initial 64) r := hr ▸ Session.start.afterTexts _
  have hafter : Session (fun _ => True) r s := hs ▸ Session.start.afterTexts _
  let Good (v : Value) : Prop := s.Exact v ∧ s.Separated v
  obtain ⟨hchange, ha, hb, hc, hab, hbc⟩ :
      (.cons ⟨5⟩ ∈ r.keys (.dictionary ⟨0⟩) ∧ .cons ⟨5⟩ ∈ s.keys (.dictionary ⟨0⟩) ∧
        r.car ⟨5⟩ ≠ s.car ⟨5⟩) ∧
      Good (.dictionary ⟨0⟩) ∧ Good (.dictionary ⟨1⟩) ∧ Good (.dictionary ⟨2⟩) ∧
      s.equal (.dictionary ⟨0⟩) (.dictionary ⟨1⟩) = true ∧
      s.equal (.dictionary ⟨1⟩) (.dictionary ⟨2⟩) = true := by
    show _ ∧ (s.Exact _ ∧ s.Separated _) ∧ (s.Exact _ ∧ s.Separated _) ∧
      (s.Exact _ ∧ s.Separated _) ∧ _ ∧ _
    rw [hs, hr]
    decide +kernel
  obtain ⟨-, hsymm, htrans⟩ := equal_equivalence s
  refine ⟨r, s, _, _, _, _, hbefore, hafter, hchange, ⟨hab, hbc⟩, hsymm _ _ ha hb hab, ?_⟩
  exact htrans _ _ _ ⟨ha.1, ha.2.keysSeparated⟩ ⟨hb.1, hb.2.keysSeparated⟩
    ⟨hc.1, hc.2.keysSeparated⟩ hab hbc

/-- A dictionary in which two keys have become equal equals one that has another entry beside
theirs, but not the other way around. -/
theorem equal_one_way :
    ∃ s a b, Session (fun _ => True) (.initial 64) s ∧ (s.Exact a ∧ s.Exact b) ∧
      s.equal a b = true ∧ s.equal b a = false := by
  obtain ⟨s, hs⟩ : ∃ s, s = (Interp.initial 64).afterTexts
    [(.small, "(var k (list 1)) (var l (list 2)) (dictionary (list k 5) (list l 5))"),
      (.small, "(dictionary (list (list 1) 5) (list (list 2) 6)) (= (elt l 0) 1)")] := ⟨_, rfl⟩
  have hsession : Session (fun _ => True) (.initial 64) s := hs ▸ Session.start.afterTexts _
  refine ⟨s, .dictionary ⟨0⟩, .dictionary ⟨1⟩, hsession, ?_⟩
  rw [hs]
  decide +kernel

end Interp

end SmallLisp
