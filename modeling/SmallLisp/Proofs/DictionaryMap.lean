import SmallLisp.Operation
import SmallLisp.Proofs.Keyed
import SmallLisp.Proofs.Unfolding

/-!
# Dictionaries as finite maps

A dictionary is a finite map up to structural equality of keys that are finite lists, arrays and
atoms other than floats. Such a key is left alone by everything that keeps its tree, whatever else
the state goes through, and assigning to a dictionary keeps the trees of all of them.

The keys are listed in the order of their first assignment. A dictionary that is made of pairs is
one to which the pairs have been assigned one after the other.
-/

namespace SmallLisp

variable {s t : Interp} {v : Value} {id : DictionaryId}

namespace Interp

theorem equivalenceOn_plain (s : Interp) : EquivalenceOn s.equal s.Plain where
  refl := fun hv => hv.equal_self
  symm := fun hv hw h =>
    (Plain.equal_iff_unfolding hw hv).mpr ((Plain.equal_iff_unfolding hv hw).mp h).symm
  trans := fun hu hv hw h h' =>
    (Plain.equal_iff_unfolding hu hw).mpr
      (((Plain.equal_iff_unfolding hu hv).mp h).trans ((Plain.equal_iff_unfolding hv hw).mp h'))

/-- Comparing a value without dictionaries looks into none. -/
theorem Plain.compareWithin?_eq (borrowed : Option DictionaryId) (hv : s.Plain v) (n : Nat) :
    s.compareWithin? borrowed n v = s.compare? n v := by
  induction n generalizing v with
  | zero => rfl
  | succ n ih =>
    funext w
    have hfree : v.isDictionary = false := hv.dictionaryFree.self
    have hopen : borrowed.any (looksInto · v w) = false := by
      cases v with
      | dictionary x => cases hfree
      | _ => cases borrowed <;> rfl
    have hparts : ∀ a ∈ s.parts v, s.compareWithin? borrowed n a = s.compare? n a :=
      fun a ha => ih (hv.part ha)
    rw [compareWithin?, hopen, if_neg Bool.false_ne_true, compare?_succ]
    cases v with
    | cons x =>
      cases w with
      | cons y =>
        simp only [compareParts, comparePairs, hparts _ (part_car x), hparts _ (part_cdr x)]
      | _ => rfl
    | array x =>
      cases w with
      | array y =>
        have hpairs : comparePairs (s.compareWithin? borrowed n) (s.arrayItems x).toList
            (s.arrayItems y).toList = comparePairs (s.compare? n) (s.arrayItems x).toList
              (s.arrayItems y).toList := comparePairs_congr hparts
        simp only [compareParts, hpairs]
      | _ => rfl
    | dictionary x => cases hfree
    | _ => cases w <;> rfl

/-- A dictionary with plain keys can be searched for a plain key while it is borrowed. -/
theorem Plain.searchable {key : Value} {es : List (Value × Value)} (hkey : s.Plain key)
    (hes : ∀ e ∈ es, s.Plain e.1) : s.searchable id key es = true := by
  have htest : ∀ e ∈ es, s.compareWithin? (some id) (s.containers + 1) e.1 key =
      some (s.agree (s.containers + 1) e.1 key) := by
    intro e he
    rw [(hes e he).compareWithin?_eq]
    exact compare?_levels (hes e he).levels hkey.levels
  exact searchable_iff.mpr ⟨_, _, searchEntries_answered htest⟩

@[simp]
theorem dictionaryEntries_setDictionary (s : Interp) (id : DictionaryId)
    (es : List (Value × Value)) (hlive : id.index < s.dictionaries.size) :
    (s.setDictionary id es).dictionaryEntries id = es := by
  simp [setDictionary, dictionaryEntries, hlive]

theorem Plain.assign_dictionary {key : Value} (hkey : s.Plain key)
    (hkeys : ∀ e ∈ s.dictionaryEntries id, s.Plain e.1) (v : Value) :
    EvalM.assign (.dictionary id) key v s = .ok () (s.store v (.entry id key)) := by
  have hback : s.looksBack (.dictionary id) key = false := by
    simp only [looksBack, hkey.searchable hkeys, Bool.not_true]
  unfold EvalM.assign
  rw [hback]
  rfl

end Interp

/-- A dictionary with plain keys. -/
def Keyed.dictionary (id : DictionaryId) : Keyed where
  target := .dictionary id
  stored s := s.dictionaryEntries id
  test s := s.equal
  IsKey s := s.Plain
  Kept s t k := t.unfolding k = s.unfolding k
  equivalence := Interp.equivalenceOn_plain
  test_kept := Interp.Plain.equal_kept
  access _ := rfl
  assign := by
    intro s key v hlive hkeys hkey
    have hext : Extends s (s.store v (.entry id key)) := .store s v _
    exact ⟨_, hkey.assign_dictionary hkeys v, hlive.mono hext,
      s.dictionaryEntries_setDictionary id _ hlive, fun j hj => hj.keep rfl rfl hext⟩
  length s := rfl
  entries s := rfl

/-! ## Making a dictionary of pairs -/

theorem Operation.fillEntries_eq {es filled : List (Value × Value)} {items : List Value}
    (h : fillEntries s es items = .ok filled) :
    ∃ pairs, items.mapM (pairOf "dictionary" s) = .ok pairs ∧
      filled = pairs.foldl (fun es e => s.assignEntry es e.1 e.2) es := by
  induction items generalizing es with
  | nil =>
    cases h
    exact ⟨[], rfl, rfl⟩
  | cons item items ih =>
    rw [fillEntries] at h
    cases hpair : pairOf "dictionary" s item with
    | error fault =>
      rw [hpair] at h
      cases h
    | ok pair =>
      rw [hpair] at h
      obtain ⟨pairs, hpairs, rfl⟩ := ih h
      refine ⟨pair :: pairs, ?_, rfl⟩
      rw [List.mapM_cons, hpair, hpairs]
      rfl

theorem Interp.setDictionary_allocDictionary (s : Interp) (es es' : List (Value × Value)) :
    (s.allocDictionary es).2.setDictionary ⟨s.dictionaries.size⟩ es' =
      (s.allocDictionary es').2 := by
  simp [setDictionary, allocDictionary, Array.setIfInBounds, Array.set_push]

@[simp]
theorem Interp.dictionaryEntries_allocDictionary (s : Interp) (es : List (Value × Value)) :
    (s.allocDictionary es).2.dictionaryEntries ⟨s.dictionaries.size⟩ = es := by
  simp [dictionaryEntries, allocDictionary]

theorem Interp.Plain.allocDictionary (hv : s.Plain v) (es : List (Value × Value)) :
    (s.allocDictionary es).2.Plain v ∧ (s.allocDictionary es).2.unfolding v = s.unfolding v :=
  hv.keep rfl rfl (Change.extended s (.dictionary es))

/-- Plain keys compare in a state with a new dictionary as they did before. -/
theorem Interp.assignEntry_allocDictionary (s : Interp) {es : List (Value × Value)} {key : Value}
    (v : Value) (hes : ∀ e ∈ es, s.Plain e.1) (hkey : s.Plain key) :
    (s.allocDictionary es).2.assignEntry es key v = s.assignEntry es key v := by
  refine assignAgreeing_congr fun e he => (hes e he).equal_kept hkey ?_ ?_ ?_ ?_
  · exact ((hes e he).allocDictionary es).1
  · exact (hkey.allocDictionary es).1
  · exact ((hes e he).allocDictionary es).2
  · exact (hkey.allocDictionary es).2

theorem Keyed.Assigned.dictionary {history : List (Value × Value)}
    (hhistory : ∀ a ∈ history, s.Plain a.1) :
    (Keyed.dictionary ⟨s.dictionaries.size⟩).Assigned
      (s.allocDictionary (replay s.equal history)).2 history := by
  refine .of_made (fun history => (s.allocDictionary (replay s.equal history)).2) (p := s.Plain)
    ?_ (s.dictionaryEntries_allocDictionary []) (fun history a hhistory => ?_) hhistory
  · show s.dictionaries.size < (s.dictionaries.push []).size
    simp
  · have ha : s.Plain a.1 := hhistory a (by simp)
    have hstored : ∀ e ∈ replay s.equal history, s.Plain e.1 :=
      forall_keys_replay fun b hb => hhistory b (List.mem_append_left _ hb)
    have hkeys : ∀ e ∈ (s.allocDictionary (replay s.equal history)).2.dictionaryEntries
        ⟨s.dictionaries.size⟩, (s.allocDictionary (replay s.equal history)).2.Plain e.1 := by
      rw [Interp.dictionaryEntries_allocDictionary]
      exact fun e he => ((hstored e he).allocDictionary _).1
    have hkey := (ha.allocDictionary (replay s.equal history)).1
    refine ⟨hkey, (hkey.assign_dictionary hkeys a.2).trans (congrArg (EStateM.Result.ok ()) ?_)⟩
    show Interp.setDictionary _ _ (Interp.assignEntry _ _ _ _) = _
    rw [Interp.setDictionary_allocDictionary, Interp.dictionaryEntries_allocDictionary,
      s.assignEntry_allocDictionary a.2 hstored ha, replay_concat]
    rfl

/-- The pairs of a new dictionary are assigned to it in order. -/
theorem Operation.dictionary_assigned {arguments : Value}
    (h : Operation.dictionary arguments s = .ok v t) :
    ∃ pairs, (s.elementsOf arguments).mapM (Operation.pairOf "dictionary" s) = .ok pairs ∧
      ((∀ e ∈ pairs, s.Plain e.1) →
        ∃ id, v = .dictionary id ∧ (Keyed.dictionary id).Assigned t pairs) := by
  unfold Operation.dictionary at h
  cases hfill : Operation.fillEntries s [] (s.elementsOf arguments) with
  | error fault =>
    rw [hfill] at h
    cases h
  | ok filled =>
    rw [hfill] at h
    cases h
    obtain ⟨pairs, hpairs, rfl⟩ := Operation.fillEntries_eq hfill
    exact ⟨pairs, hpairs, fun hplain => ⟨_, rfl, .dictionary hplain⟩⟩

/-- A dictionary that is assigned to under plain keys, which nothing else changes, is the finite map
up to structural equality that the history of the assignments gives, and it lists the keys in the
order in which they were first assigned. -/
theorem dictionary_is_map {history : List (Value × Value)}
    (h : (Keyed.dictionary id).Assigned s history) :
    ∃ listing, FiniteMap s (.dictionary id) s.equal s.Plain history listing ∧
      listing.map (·.2) =
        (history.map (·.1)).eraseDupsBy fun later earlier => s.equal earlier later := by
  have hstored : s.dictionaryEntries id = replay s.equal history := h.holds.stored
  refine ⟨_, h.holds.finiteMap, ?_⟩
  rw [List.map_map, ← keys_replay, ← hstored]
  rfl

/-- A new list with the elements of a key reads and overwrites what is stored under that key. -/
theorem copied_key_overwrites :
    ∃ s id j k l, (Keyed.dictionary id).Assigned s [(j, .ofNat 5), (k, .ofNat 6)] ∧
      l ≠ j ∧ s.access (.dictionary id) l = .ok (.ofNat 5) ∧
      ∃ u, EvalM.assign (.dictionary id) l (.ofNat 7) s = .ok () u ∧
        u.length (.dictionary id) = .ok 2 ∧
        u.access (.dictionary id) j = .ok (.ofNat 7) ∧
        u.access (.dictionary id) k = .ok (.ofNat 6) := by
  obtain ⟨r, hr⟩ : ∃ r, r = (Interp.initial 64).afterTexts
    [(.small, "(list 1 2) (array 1) (dictionary)")] := ⟨_, rfl⟩
  obtain ⟨t, ht⟩ : ∃ t, t = r.store (.ofNat 5) (.entry ⟨0⟩ (.cons ⟨4⟩)) := ⟨_, rfl⟩
  obtain ⟨u, hu⟩ : ∃ u, u = t.store (.ofNat 6) (.entry ⟨0⟩ (.array ⟨0⟩)) := ⟨_, rfl⟩
  obtain ⟨s, hs⟩ : ∃ s, s = u.afterTexts [(.small, "(list 1 2)")] := ⟨_, rfl⟩
  let Untouched (v : Value) : Prop :=
    u.examine (fun w => s.parts w = u.parts w) (u.containers + 1) v = true
  obtain ⟨hlive, hempty, hj, hk, hj', hk', hsame, hsame'⟩ :
      (Value.dictionary ⟨0⟩).Live r ∧ r.dictionaryEntries ⟨0⟩ = [] ∧ r.Plain (.cons ⟨4⟩) ∧
        t.Plain (.array ⟨0⟩) ∧ u.Plain (.cons ⟨4⟩) ∧ u.Plain (.array ⟨0⟩) ∧
        Untouched (.cons ⟨4⟩) ∧ Untouched (.array ⟨0⟩) := by
    show _ ∧ _ ∧ _ ∧ _ ∧ _ ∧ _ ∧ Interp.examine _ _ _ _ = _ ∧ Interp.examine _ _ _ _ = _
    rw [hs, hu, ht, hr]
    decide +kernel
  obtain ⟨hlive', hstored, hjs, hks, hls, hequal, hback, hother, hother', hlisting⟩ :
      (Value.dictionary ⟨0⟩).Live s ∧ s.dictionaryEntries ⟨0⟩ = u.dictionaryEntries ⟨0⟩ ∧
        s.Plain (.cons ⟨4⟩) ∧ s.Plain (.array ⟨0⟩) ∧ s.Plain (.cons ⟨13⟩) ∧
        s.equal (.cons ⟨4⟩) (.cons ⟨13⟩) = true ∧ s.equal (.cons ⟨13⟩) (.cons ⟨4⟩) = true ∧
        s.equal (.array ⟨0⟩) (.cons ⟨13⟩) = false ∧ s.equal (.cons ⟨13⟩) (.array ⟨0⟩) = false ∧
        s.dictionaryEntries ⟨0⟩ = [(.cons ⟨4⟩, .ofNat 5), (.array ⟨0⟩, .ofNat 6)] := by
    rw [hs, hu, ht, hr]
    decide +kernel
  let c : Keyed := .dictionary ⟨0⟩
  have hfirst : c.Assigned t [(.cons ⟨4⟩, .ofNat 5)] :=
    .assign (.start hlive hempty) hj (ht ▸ hj.assign_dictionary (hempty ▸ nofun) _)
  have hassigned : c.Assigned u [(.cons ⟨4⟩, .ofNat 5), (.array ⟨0⟩, .ofNat 6)] :=
    .assign hfirst hk (hu ▸ hk.assign_dictionary (fun _ he => hfirst.holds.keys_stored he) _)
  have hkept : ∀ {v}, u.Plain v → Untouched v → s.unfolding v = u.unfolding v :=
    fun hv hsame => Interp.unfolding_transfer (hv.throughout_iff.mpr hsame)
  have hrun : c.Assigned s [(.cons ⟨4⟩, .ofNat 5), (.array ⟨0⟩, .ofNat 6)] := by
    refine .idle hassigned hlive' hstored fun a ha => ?_
    rcases List.mem_pair.mp ha with rfl | rfl
    · exact ⟨hjs, hkept hj' hsame⟩
    · exact ⟨hks, hkept hk' hsame'⟩
  obtain ⟨listing, hmap, -⟩ := dictionary_is_map hrun
  obtain ⟨w, hassign, hlength, haccess⟩ := hmap.assign (.cons ⟨13⟩) (.ofNat 7) hls
  have hlisted : listing = [(.ofNat 5, .cons ⟨4⟩), (.ofNat 6, .array ⟨0⟩)] := by
    have hentries := hmap.entries
    simp only [Interp.entries, hlisting] at hentries
    exact (Except.ok.inj hentries).symm
  refine ⟨s, ⟨0⟩, _, _, _, hrun, by decide, ?_, w, hassign, ?_, ?_, ?_⟩
  · rw [hmap.access _ hls]
    simp [hequal, hother]
  · rw [hlength, hlisted]
    simp [hequal]
  · rw [haccess _ hjs, hback, if_pos rfl]
  · rw [haccess _ hks, hother', if_neg Bool.false_ne_true, hmap.access _ hks]
    simp [hks.equal_self]

end SmallLisp
