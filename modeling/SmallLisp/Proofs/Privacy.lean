import SmallLisp.Proofs.Exports
import SmallLisp.Proofs.Registry

/-!
# Unexported symbols are private

A symbol comes into a namespace when it is created there, or because another namespace exports it.
No change takes an export back. So a symbol that two namespaces share is exported by one of them or
by a third one, however it got there: by a use, an import, a namespace form that was shadowed later,
or a namespace that took it over in its turn.
-/

namespace SmallLisp

variable {s t : Interp} {x : SymbolId} {id i j : NamespaceId} {n m : String}

/-- Some namespace exports the symbol. -/
def Interp.Exported (s : Interp) (x : SymbolId) : Prop :=
  ∃ id n, (s.namespaceAt id).findExported? n = some x

/-! ## What a change does to the names of a namespace -/

/-- An exported name stays exported, for the same symbol. -/
theorem Change.findExported?_apply (c : Change) (hs : s.NamespacesKept False)
    (h : (s.namespaceAt id).findExported? n = some x) :
    ((c.apply s).namespaceAt id).findExported? n = some x := by
  have hleaves := c.leavesNamespace s id
  generalize (c.apply s).namespaceAt id = ns at hleaves
  cases hleaves with
  | same => exact h
  | interned _ hnone _ => exact (Edit.put_keeps (hs id).resolves hnone).2 h
  | used _ other => exact h
  | created _ hnew _ =>
    rw [Interp.namespaceAt_of_size_le (Nat.le_of_eq hnew.symm)] at h
    cases h

theorem Interp.Exported.change (h : s.Exported x) (c : Change) (hs : s.NamespacesKept False) :
    (c.apply s).Exported x := by
  obtain ⟨id, n, hfind⟩ := h
  exact ⟨id, n, c.findExported?_apply hs hfind⟩

/-- The namespace in which a change creates symbols. -/
inductive Change.CreatesIn (s : Interp) (id : NamespaceId) : Change → Prop
  | intern (name : String) : CreatesIn s id (.intern id name)
  | keyword (hid : id = .keywords) (name : String) : CreatesIn s id (.keyword name)
  | create (hid : id.index = s.namespaces.size) (arguments : Value) :
      CreatesIn s id (.create arguments)

/-- There is one at most. -/
theorem Change.CreatesIn.unique {c : Change} (hi : c.CreatesIn s i) (hj : c.CreatesIn s j) :
    i = j := by
  cases hi with
  | intern name =>
    cases hj
    rfl
  | keyword hi name =>
    cases hj with
    | keyword hj => exact hi.trans hj.symm
  | create hi arguments =>
    cases hj with
    | create hj =>
      obtain ⟨i⟩ := i
      obtain ⟨j⟩ := j
      exact congrArg _ (hi.trans hj.symm)

/-- What a name stands for after a change it stood for before, or it is exported, or the change has
created it. -/
theorem Change.find?_apply (c : Change) (h : ((c.apply s).namespaceAt id).find? n = some x) :
    (s.namespaceAt id).find? n = some x ∨ s.Exported x ∨
      (s.symbols.size ≤ x.index ∧ c.CreatesIn s id) := by
  have hleaves := c.leavesNamespace s id
  generalize (c.apply s).namespaceAt id = ns at h hleaves
  cases hleaves with
  | same => exact .inl h
  | @interned name hc _ _ =>
    rw [Edit.find?_apply] at h
    rcases Option.or_eq_some_iff.mp h with hplaces | ⟨-, hold⟩
    · obtain ⟨-, rfl⟩ := Edit.places_put.mp hplaces
      refine .inr (.inr ⟨Nat.le_refl _, ?_⟩)
      rcases hc with rfl | ⟨hid, rfl⟩
      · exact .intern name
      · exact .keyword hid name
    · exact .inl hold
  | used _ other =>
    rw [Edit.find?_apply] at h
    rcases Option.or_eq_some_iff.mp h with hplaces | ⟨-, hold⟩
    · exact .inr (.inl ⟨other, n, hplaces⟩)
    · exact .inl hold
  | created hc hid hfrom =>
    obtain ⟨arguments, rfl⟩ := hc
    rcases Edit.find?_applyAll h with ⟨e, he, hplaces⟩ | hfresh
    · rcases (hfrom e he).places hplaces with ⟨other, hexported⟩ | hnew
      · exact .inr (.inl ⟨other, n, hexported⟩)
      · exact .inr (.inr ⟨hnew, .create hid arguments⟩)
    · cases hfresh

/-! ## The invariant -/

/-- What two namespaces share is exported. -/
structure Interp.SharesExported (s : Interp) : Prop where
  live : s.Live
  kept : s.NamespacesKept False
  shared : ∀ {i j n m x}, i ≠ j → (s.namespaceAt i).find? n = some x →
    (s.namespaceAt j).find? m = some x → s.Exported x

/-- At the start the user namespace shares all symbols of the standard library, which exports
them. -/
theorem Interp.sharesExported_initial (limit : Nat) : (initial limit).SharesExported where
  live := live_initial limit
  kept := namespacesKept_initial limit
  shared := by
    intro i j n m x _ hi _
    have hsystem : systemTable.find? n = some x := by
      obtain ⟨i⟩ := i
      match i with
      | 0 | 2 => exact hi
      | 1 | _ + 3 => cases hi
    exact ⟨.system, n, hsystem⟩

theorem Interp.SharesExported.change {c : Change} (h : s.SharesExported) (hc : c.Sound s) :
    (c.apply s).SharesExported where
  live := Change.live h.live hc
  kept := (c.run nofun).kept h.kept
  shared := by
    intro i j n m x hne hi hj
    -- a symbol that has just been created is in no old namespace
    have hold : ∀ {id n}, (s.namespaceAt id).find? n = some x → ¬ s.symbols.size ≤ x.index :=
      fun hfind => Nat.not_le_of_lt ((h.live.namespaceAt _).find? hfind)
    rcases c.find?_apply hi with hi | hexported | ⟨hnew, hcreates⟩
    · rcases c.find?_apply hj with hj | hexported | ⟨hnew, -⟩
      · exact (h.shared hne hi hj).change c h.kept
      · exact hexported.change c h.kept
      · exact absurd hnew (hold hi)
    · exact hexported.change c h.kept
    · rcases c.find?_apply hj with hj | hexported | ⟨-, hcreates'⟩
      · exact absurd hnew (hold hj)
      · exact hexported.change c h.kept
      · exact absurd (hcreates.unique hcreates') hne

theorem Interp.SharesExported.withFrames (h : s.SharesExported) (chain : List ScopeId)
    (depths : Depths) (active : Nat) : (s.withFrames chain depths active).SharesExported :=
  ⟨h.live.withFrames chain depths active, h.kept, h.shared⟩

/-! ## Sessions -/

/-- After a session, a symbol that is interned in two registered namespaces is exported by a
registered namespace. -/
theorem shared_symbols_exported {limit : Nat} (h : Session (fun _ => True) (.initial limit) s)
    {a b : String} (hne : a ≠ b) (ha : s.findNamespace? a = some i)
    (hb : s.findNamespace? b = some j) (hi : (s.namespaceAt i).find? n = some x)
    (hj : (s.namespaceAt j).find? m = some x) :
    ∃ name id l, s.findNamespace? name = some id ∧
      (s.namespaceAt id).findExported? l = some x := by
  have hshares : s.SharesExported :=
    (h.sound (Interp.live_initial limit)).preserves (fun _ _ hc hu => hu.change hc)
      (fun _ _ _ _ hu => hu.withFrames _ _ _) (Interp.sharesExported_initial limit)
  have hlocked : s.Locked := h.changes.locked (Interp.locked_initial limit)
  have hdistinct : i ≠ j := by
    rintro rfl
    exact hne ((Interp.name_of_findNamespace? ha).symm.trans (Interp.name_of_findNamespace? hb))
  obtain ⟨id, l, hexported⟩ := hshares.shared hdistinct hi hj
  have hid : id.index < s.namespaces.size := by
    apply Nat.lt_of_not_le
    intro hle
    rw [Interp.namespaceAt_of_size_le hle] at hexported
    cases hexported
  exact ⟨_, id, l, Interp.findNamespace?_name hlocked.names hid, hexported⟩

/-- A symbol that is exported, taken over by a second namespace and then shadowed in the first one
is not interned there any more; a third namespace that takes it over shares it with the second. -/
theorem shared_after_shadowing :
    ∃ t x, Session (fun _ => True) (.initial 64) t ∧ (t.namespaceAt ⟨4⟩).find? "X" = some x ∧
      (t.namespaceAt ⟨5⟩).find? "X" = some x ∧ ∃ name id l, t.findNamespace? name = some id ∧
        (t.namespaceAt id).findExported? l = some x := by
  let t := (Interp.initial 64).afterTexts [(.small,
    "(namespace \"a\" (export x) (shadow x)) (namespace \"b\" (use a)) (namespace \"c\" (use a))")]
  have hsession : Session (fun _ => True) (.initial 64) t := Session.start.afterTexts _
  obtain ⟨hb, hc, hfind, hfind'⟩ :
      t.findNamespace? "B" = some ⟨4⟩ ∧ t.findNamespace? "C" = some ⟨5⟩ ∧
        (t.namespaceAt ⟨4⟩).find? "X" = some ⟨57⟩ ∧
        (t.namespaceAt ⟨5⟩).find? "X" = some ⟨57⟩ := by
    decide +kernel
  exact ⟨t, ⟨57⟩, hsession, hfind, hfind',
    shared_symbols_exported hsession (by decide) hb hc hfind hfind'⟩

end SmallLisp
