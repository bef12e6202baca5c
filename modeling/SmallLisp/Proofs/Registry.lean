import SmallLisp.Proofs.Session

/-!
# The registry of namespaces

A change leaves the namespaces alone, edits one of them, or registers one more under a name that was
free. A new symbol comes into a namespace only if that is not locked, and the current namespace is
never locked. So the namespaces keep their names, no two have the same one, and the namespace of the
standard library stays what it is at the start: every unqualified name resolves, and a name of the
standard library resolves if it is one of the first ones.

Only the host can add to the standard library, by registering functions.
-/

namespace SmallLisp

variable {s t u : Interp} {id : NamespaceId} {name : String}

/-! ## What a change does to the namespaces -/

/-- How a change leaves the namespaces. -/
inductive Change.LeavesNamespaces (s : Interp) (c : Change) : Array Namespace → Prop
  | same : LeavesNamespaces s c s.namespaces
  /-- A new symbol is put under a name that had none. -/
  | interned {id : NamespaceId} {name : String}
      (hc : c = .intern id name ∨ (id = .keywords ∧ c = .keyword name))
      (hnone : (s.namespaceAt id).find? name = none)
      (hopen : (s.namespaceAt id).canIntern = true) :
      LeavesNamespaces s c (s.setNamespace id
        ((Edit.put name ⟨s.symbols.size⟩ (s.namespaceAt id).keywords).apply
          (s.namespaceAt id))).namespaces
  /-- The current namespace takes over the exports of another one. -/
  | used (other : NamespaceId) :
      LeavesNamespaces s c (s.setNamespace s.current
        ((Edit.use (s.namespaceAt other)).apply (s.namespaceAt s.current))).namespaces
  | created {name : String} {es : List Edit} {symbols : SymbolStore}
      (hc : ∃ arguments, c = .create arguments) (hfree : s.findNamespace? name = none)
      (hfrom : ∀ e ∈ es, e.From s s.symbols.size symbols) :
      LeavesNamespaces s c (s.namespaces.push (Edit.applyAll (.fresh name true) es))

theorem Change.leavesNamespaces (s : Interp) (c : Change) :
    c.LeavesNamespaces s (c.apply s).namespaces := by
  cases c
  case store v place => cases place <;> exact .same
  case keyword name =>
    refine Interp.resultOf_induction (motive := fun u =>
      LeavesNamespaces s (.keyword name) u.namespaces) .same fun x u h => ?_
    rcases Interp.internKeyword_cases h with ⟨-, rfl⟩ | ⟨t, hnone, ht, rfl⟩
    · exact .same
    · rcases Interp.internIn_cases ht with ⟨hfind, -⟩ | ⟨-, hopen, rfl, rfl⟩
      · rw [hnone] at hfind
        cases hfind
      · exact .interned (.inr ⟨rfl, rfl⟩) hnone hopen
  case intern id name =>
    refine Interp.resultOf_induction (motive := fun u =>
      LeavesNamespaces s (.intern id name) u.namespaces) .same fun x u h => ?_
    rcases Interp.internIn_cases h with ⟨-, rfl⟩ | ⟨hnone, hopen, rfl, rfl⟩
    · exact .same
    · exact .interned (.inl rfl) hnone hopen
  case create arguments =>
    refine Interp.resultOf_induction (motive := fun u =>
      LeavesNamespaces s (.create arguments) u.namespaces) .same fun id u h => ?_
    obtain ⟨name, es, symbols, -, hfree, -, hfrom, rfl⟩ := NamespaceForm.create_cases h
    exact .created ⟨arguments, rfl⟩ hfree hfrom
  case select name =>
    refine Interp.resultOf_induction (motive := fun u =>
      LeavesNamespaces s (.select name) u.namespaces) .same fun id u h => ?_
    obtain ⟨-, rfl⟩ := Interp.changeNamespace_cases h
    exact .same
  case use name =>
    refine Interp.resultOf_induction (motive := fun u =>
      LeavesNamespaces s (.use name) u.namespaces) .same fun id u h => ?_
    rcases Interp.useNamed_cases h with ⟨-, rfl⟩ | ⟨-, rfl⟩
    · exact .same
    · exact .used id
  all_goals exact .same

/-- How a change leaves the namespace at an address. -/
inductive Change.LeavesNamespace (s : Interp) (c : Change) (id : NamespaceId) : Namespace → Prop
  | same : LeavesNamespace s c id (s.namespaceAt id)
  | interned {name : String} (hc : c = .intern id name ∨ (id = .keywords ∧ c = .keyword name))
      (hnone : (s.namespaceAt id).find? name = none)
      (hopen : (s.namespaceAt id).canIntern = true) :
      LeavesNamespace s c id ((Edit.put name ⟨s.symbols.size⟩ (s.namespaceAt id).keywords).apply
        (s.namespaceAt id))
  | used (hid : id = s.current) (other : NamespaceId) :
      LeavesNamespace s c id ((Edit.use (s.namespaceAt other)).apply (s.namespaceAt id))
  | created {name : String} {es : List Edit} {symbols : SymbolStore}
      (hc : ∃ arguments, c = .create arguments) (hid : id.index = s.namespaces.size)
      (hfrom : ∀ e ∈ es, e.From s s.symbols.size symbols) :
      LeavesNamespace s c id (Edit.applyAll (.fresh name true) es)

theorem Change.leavesNamespace (s : Interp) (c : Change) (id : NamespaceId) :
    c.LeavesNamespace s id ((c.apply s).namespaceAt id) := by
  have hleaves := c.leavesNamespaces s
  show LeavesNamespace s c id ((((c.apply s).namespaces)[id.index]?).getD default)
  generalize (c.apply s).namespaces = namespaces at hleaves
  cases hleaves with
  | same => exact .same
  | @interned j name hc hnone hopen =>
    show LeavesNamespace s c id ((s.setNamespace j _).namespaceAt id)
    rw [Interp.namespaceAt_setNamespace]
    split
    next heq =>
      obtain ⟨rfl, -⟩ := heq
      exact .interned hc hnone hopen
    next => exact .same
  | used other =>
    show LeavesNamespace s c id ((s.setNamespace s.current _).namespaceAt id)
    rw [Interp.namespaceAt_setNamespace]
    split
    next heq =>
      obtain ⟨rfl, -⟩ := heq
      exact .used rfl other
    next => exact .same
  | created hc _ hfrom =>
    rw [Array.getElem?_push]
    split
    next hid => exact .created hc hid hfrom
    next => exact .same

/-- The current namespace stays, or it is one that is not locked. -/
theorem Change.current_apply (s : Interp) (c : Change) :
    (c.apply s).current = s.current ∨
      (s.namespaceAt (c.apply s).current).canIntern = true := by
  let Chosen (u : Interp) : Prop :=
    u.current = s.current ∨ (s.namespaceAt u.current).canIntern = true
  have hstays : Chosen s := .inl rfl
  have hinterned : ∀ {id name x u}, s.internIn id name = .ok (x, u) → Chosen u := by
    intro id name x u h
    rw [Interp.internIn_eq h]
    exact hstays
  cases c
  case store v place => cases place <;> exact hstays
  case keyword name =>
    refine Interp.resultOf_induction (motive := Chosen) hstays fun x u h => ?_
    rcases Interp.internKeyword_cases h with ⟨-, rfl⟩ | ⟨t, -, ht, rfl⟩
    · exact hstays
    · exact show Chosen t from hinterned ht
  case intern id name =>
    exact Interp.resultOf_induction (motive := Chosen) hstays fun x u h => hinterned h
  case create arguments =>
    refine Interp.resultOf_induction (motive := Chosen) hstays fun id u h => ?_
    obtain ⟨name, es, symbols, -, -, -, -, rfl⟩ := NamespaceForm.create_cases h
    exact hstays
  case select name =>
    refine Interp.resultOf_induction (motive := Chosen) hstays fun id u h => ?_
    obtain ⟨hopen, rfl⟩ := Interp.changeNamespace_cases h
    exact .inr hopen
  case use name =>
    refine Interp.resultOf_induction (motive := Chosen) hstays fun id u h => ?_
    rcases Interp.useNamed_cases h with ⟨-, rfl⟩ | ⟨-, rfl⟩ <;> exact hstays
  all_goals exact hstays

/-! ## Names of namespaces -/

namespace Interp

/-- The names of the registered namespaces, in the order of their addresses. -/
def namespaceNames (s : Interp) : List String := s.namespaces.toList.map (·.name)

/-- An edit leaves every name. -/
theorem namespaceNames_edit (s : Interp) (id : NamespaceId) (e : Edit) :
    (s.setNamespace id (e.apply (s.namespaceAt id))).namespaceNames = s.namespaceNames := by
  apply List.ext_getElem?
  intro i
  simp only [namespaceNames, setNamespace, List.getElem?_map, Array.getElem?_toList,
    Array.getElem?_setIfInBounds]
  split
  next heq =>
    subst heq
    split
    next hlt =>
      have hname := (Edit.header_apply (s.namespaceAt id) e).1
      unfold namespaceAt at *
      rw [Array.getElem?_eq_getElem hlt] at *
      exact congrArg some hname
    next hge => simp [Array.getElem?_eq_none (Nat.le_of_not_lt hge)]
  next => rfl

theorem mem_namespaceNames : name ∈ s.namespaceNames ↔ s.findNamespace? name ≠ none := by
  simp [namespaceNames, findNamespace?, Array.findIdx?_eq_none_iff]

theorem namespaceAt_of_size_le (h : s.namespaces.size ≤ id.index) : s.namespaceAt id = default := by
  unfold namespaceAt
  rw [Array.getElem?_eq_none h]
  rfl

/-- A namespace that is found has the name that was looked for. -/
theorem name_of_findNamespace? (h : s.findNamespace? name = some id) :
    (s.namespaceAt id).name = name := by
  obtain ⟨i, hi, rfl⟩ := Option.map_eq_some_iff.mp h
  obtain ⟨hlt, hname, -⟩ := Array.findIdx?_eq_some_iff_getElem.mp hi
  unfold namespaceAt
  rw [Array.getElem?_eq_getElem hlt]
  exact eq_of_beq hname

/-- Where no two namespaces have the same name, each is found under its own. -/
theorem findNamespace?_name (hs : s.namespaceNames.Nodup) (hid : id.index < s.namespaces.size) :
    s.findNamespace? (s.namespaceAt id).name = some id := by
  refine Option.map_eq_some_iff.mpr ⟨id.index, ?_, rfl⟩
  have hname : (s.namespaceAt id).name = s.namespaces[id.index].name := by
    unfold namespaceAt
    rw [Array.getElem?_eq_getElem hid]
    rfl
  refine Array.findIdx?_eq_some_iff_getElem.mpr ⟨hid, by simp [hname], fun j hj => ?_⟩
  have hdistinct := List.pairwise_iff_getElem.mp hs j id.index
    (by simp [namespaceNames]; omega) (by simpa [namespaceNames] using hid) hj
  simpa [namespaceNames, hname] using hdistinct

end Interp

/-- No namespace is renamed or removed, and a new one has a new name. -/
theorem Change.namespaceNames_apply (s : Interp) (c : Change) :
    (c.apply s).namespaceNames = s.namespaceNames ∨
      ∃ name, name ∉ s.namespaceNames ∧
        (c.apply s).namespaceNames = s.namespaceNames ++ [name] := by
  have hleaves := c.leavesNamespaces s
  unfold Interp.namespaceNames at *
  generalize (c.apply s).namespaces = namespaces at hleaves
  cases hleaves with
  | same => exact .inl rfl
  | interned => exact .inl (s.namespaceNames_edit _ _)
  | used other => exact .inl (s.namespaceNames_edit _ _)
  | @created name es symbols _ hfree _ =>
    refine .inr ⟨name, fun hmem => Interp.mem_namespaceNames.mp hmem hfree, ?_⟩
    have hname : (Edit.applyAll (.fresh name true) es).name = name :=
      (Edit.header_applyAll (.fresh name true) es).1
    simp [hname]

/-- What a namespace is called, whether it is locked and whether it makes keywords do not change. -/
theorem Change.header_apply (c : Change) (hid : id.index < s.namespaces.size) :
    ((c.apply s).namespaceAt id).name = (s.namespaceAt id).name ∧
      ((c.apply s).namespaceAt id).canIntern = (s.namespaceAt id).canIntern ∧
      ((c.apply s).namespaceAt id).keywords = (s.namespaceAt id).keywords := by
  have hleaves := c.leavesNamespace s id
  generalize (c.apply s).namespaceAt id = ns at hleaves
  cases hleaves with
  | same => exact ⟨rfl, rfl, rfl⟩
  | interned => exact Edit.header_apply _ _
  | used => exact Edit.header_apply _ _
  | created _ hnew _ => exact absurd hnew (Nat.ne_of_lt hid)

/-! ## The standard library is locked -/

/-- The namespace of the standard library, as it is at the start. -/
def Namespace.standard : Namespace :=
  ⟨Interp.systemName, Interp.systemTable, Interp.systemTable, false, false, []⟩

/-- Only a namespace that exists is not locked. -/
theorem Interp.lt_of_canIntern (h : (s.namespaceAt id).canIntern = true) :
    id.index < s.namespaces.size := by
  apply Nat.lt_of_not_le
  intro hle
  rw [namespaceAt_of_size_le hle] at h
  cases h

/-- The current namespace stays one that is not locked. -/
theorem Change.current_open (c : Change) (h : (s.namespaceAt s.current).canIntern = true) :
    ((c.apply s).namespaceAt (c.apply s).current).canIntern = true := by
  have hopen : (s.namespaceAt (c.apply s).current).canIntern = true := by
    rcases c.current_apply s with hsame | hopen
    · rw [hsame]
      exact h
    · exact hopen
  exact (c.header_apply (Interp.lt_of_canIntern hopen)).2.1.trans hopen

/-- No change touches a locked namespace. -/
theorem Change.namespaceAt_locked (c : Change) (hid : id.index < s.namespaces.size)
    (hlocked : (s.namespaceAt id).canIntern = false)
    (hcurrent : (s.namespaceAt s.current).canIntern = true) :
    (c.apply s).namespaceAt id = s.namespaceAt id := by
  have hleaves := c.leavesNamespace s id
  generalize (c.apply s).namespaceAt id = ns at hleaves
  cases hleaves with
  | same => rfl
  | interned _ _ hopen =>
    rw [hlocked] at hopen
    cases hopen
  | used heq =>
    rw [← heq, hlocked] at hcurrent
    cases hcurrent
  | created _ hnew _ => exact absurd hnew (Nat.ne_of_lt hid)

/-- No two namespaces have the same name, the standard library is as it was at the start, and the
current namespace is not locked. -/
structure Interp.Locked (s : Interp) : Prop where
  names : s.namespaceNames.Nodup
  system : s.namespaceAt .system = .standard
  current : (s.namespaceAt s.current).canIntern = true

theorem Interp.locked_initial (limit : Nat) : (initial limit).Locked where
  names := show [systemName, keywordsName, userName].Nodup by decide
  system := rfl
  current := rfl

namespace Interp.Locked

theorem current_ne_system (h : s.Locked) : s.current ≠ .system := by
  intro heq
  have hopen := h.current
  rw [heq, h.system] at hopen
  cases hopen

theorem change (h : s.Locked) (c : Change) : (c.apply s).Locked where
  names := by
    rcases c.namespaceNames_apply s with hsame | ⟨name, hnew, hnames⟩
    · rw [hsame]
      exact h.names
    · rw [hnames]
      refine List.nodup_append.mpr ⟨h.names, by simp, fun other hold last hlast heq => ?_⟩
      rw [List.mem_singleton.mp hlast] at heq
      exact hnew (heq ▸ hold)
  system := by
    have hexists : NamespaceId.system.index < s.namespaces.size :=
      Nat.zero_lt_of_lt (Interp.lt_of_canIntern h.current)
    rw [c.namespaceAt_locked hexists (by rw [h.system]; rfl) h.current, h.system]
  current := c.current_open h.current

/-- The registered name of the standard library. -/
theorem findNamespace?_system (h : s.Locked) : s.findNamespace? systemName = some .system := by
  have hexists : NamespaceId.system.index < s.namespaces.size :=
    Nat.zero_lt_of_lt (Interp.lt_of_canIntern h.current)
  have hfound := Interp.findNamespace?_name h.names hexists
  rw [h.system] at hfound
  exact hfound

/-- Every name resolves in the current namespace. -/
theorem resolve_plain (h : s.Locked) (name : String) :
    ∃ x u, s.resolve (.plain name) = .ok (x, u) := by
  show ∃ x u, ((s.namespaceAt s.current).intern s.symbols name).map _ = .ok (x, u)
  cases hfind : (s.namespaceAt s.current).find? name with
  | some x =>
    unfold Namespace.intern
    rw [hfind]
    exact ⟨_, _, rfl⟩
  | none =>
    rw [Namespace.intern_new hfind h.current]
    exact ⟨_, _, rfl⟩

/-- A name resolves in the standard library if it was there at the start. -/
theorem resolve_system (h : s.Locked) (name : String) :
    s.resolve (.interned systemName name) =
      match systemTable.find? name with
      | some x => .ok (x, s)
      | none => .error (.lockedIntern name systemName) := by
  show s.findInterned systemName name = _
  have hother : NamespaceId.system ≠ .keywords := by decide
  have hfind : (s.namespaceAt .system).find? name = systemTable.find? name := by
    rw [h.system]
    rfl
  unfold Interp.findInterned Interp.namespaceNamed
  rw [h.findNamespace?_system]
  dsimp only
  rw [if_neg hother]
  unfold Interp.internIn Namespace.intern
  rw [hfind]
  cases systemTable.find? name with
  | some x => exact congrArg (fun u => Except.ok (x, u)) (s.setNamespace_self .system)
  | none =>
    rw [h.system]
    rfl

end Interp.Locked

theorem Trace.locked {law : Law} (h : Trace law s t) (hs : s.Locked) : t.Locked :=
  h.preserves (fun _ c _ hu => hu.change c)
    (fun _ _ _ _ hu => ⟨hu.names, hu.system, hu.current⟩) hs

/-! ## Sessions -/

/-- After a session, the namespace of the standard library has the tables it had at the start, and
it is not current. The current namespace is registered and accepts new symbols, so every unqualified
name resolves. A name in the standard library resolves, to the symbol it had at the start, if it
was there then, and otherwise it is refused. -/
theorem standard_library_locked {limit : Nat}
    (h : Session (fun _ => True) (.initial limit) s) :
    (s.findNamespace? Interp.systemName = some .system ∧
      (s.namespaceAt .system).interned = Interp.systemTable ∧
      (s.namespaceAt .system).exported = Interp.systemTable) ∧
    (s.current ≠ .system ∧
      s.findNamespace? (s.namespaceAt s.current).name = some s.current ∧
      (s.namespaceAt s.current).canIntern = true) ∧
    (∀ name, ∃ x u, s.resolve (.plain name) = .ok (x, u)) ∧
    ∀ name, s.resolve (.interned Interp.systemName name) =
      match Interp.systemTable.find? name with
      | some x => .ok (x, s)
      | none => .error (.lockedIntern name Interp.systemName) := by
  have hs : s.Locked := h.changes.locked (Interp.locked_initial limit)
  refine ⟨⟨hs.findNamespace?_system, ?_, ?_⟩, ⟨hs.current_ne_system, ?_, hs.current⟩,
    hs.resolve_plain, hs.resolve_system⟩
  · rw [hs.system]
    rfl
  · rw [hs.system]
    rfl
  · exact Interp.findNamespace?_name hs.names (Interp.lt_of_canIntern hs.current)

/-- In a namespace of a program, a first name of the standard library resolves and others do not. -/
theorem first_names_resolve :
    ∃ t x, Session (fun _ => True) (.initial 64) t ∧ t.current = ⟨3⟩ ∧
      t.resolve (.interned Interp.systemName "CAR") = .ok (x, t) ∧
      t.resolve (.interned Interp.systemName "X") =
        .error (.lockedIntern "X" Interp.systemName) := by
  let t := (Interp.initial 64).afterTexts
    [(.small, "(namespace \"a\" (use glisp)) (in-namespace \"a\") (var x 1) glisp::x")]
  have hsession : Session (fun _ => True) (.initial 64) t := Session.start.afterTexts _
  have hcurrent : t.current = ⟨3⟩ := by decide +kernel
  have hthere : Interp.systemTable.find? "CAR" = some ⟨28⟩ := by decide +kernel
  have hnew : Interp.systemTable.find? "X" = none := by decide +kernel
  obtain ⟨-, -, -, hresolve⟩ := standard_library_locked hsession
  have hfound := hresolve "CAR"
  have hrefused := hresolve "X"
  rw [hthere] at hfound
  rw [hnew] at hrefused
  exact ⟨t, ⟨28⟩, hsession, hcurrent, hfound, hrefused⟩

end SmallLisp
