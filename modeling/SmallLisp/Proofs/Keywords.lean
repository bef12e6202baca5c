import SmallLisp.Proofs.Registry

/-!
# Keywords evaluate to themselves

A keyword that is created as one is bound to itself in the global scope. It is reserved, so no
evaluation binds it again: wherever it is bound, it is bound to itself. The names of the namespace
of keywords are such keywords as long as no form is interned while that namespace is current and it
takes over no exports of others. Interning a plain name there creates a keyword that nothing binds.
-/

namespace SmallLisp

variable {s t u : Interp} {x : SymbolId}

/-! ## Symbols that are bound to themselves -/

/-- A reserved symbol that the global scope binds to itself, and no scope to anything else. -/
structure Interp.SelfBound (s : Interp) (x : SymbolId) : Prop where
  live : x.Live s
  reserved : (s.symbol x).reserved = true
  /-- It is none of the symbols that frames bind although they are reserved. -/
  general : x ≠ .rest ∧ x ≠ .self
  bound : (s.scope .global).find? x = some (.symbol x)
  only : ∀ id v, (s.scope id).find? x = some v → v = .symbol x

namespace Interp.SelfBound

/-- Wherever it is looked up, it is found to be bound to itself. -/
theorem lookup? (h : s.SelfBound x) : s.lookup? x = some (.symbol x) := by
  rw [lookup?_eq_findSome?]
  cases hfound : s.activeScopes.findSome? fun id => (s.scope id).find? x with
  | some v =>
    obtain ⟨id, -, hv⟩ := List.exists_of_findSome?_eq_some hfound
    rw [h.only id v hv]
  | none =>
    have hnone := List.findSome?_eq_none_iff.mp hfound .global (by simp [activeScopes])
    rw [h.bound] at hnone
    cases hnone

theorem captured (h : s.SelfBound x) {v : Value} (hv : s.captured.find? x = some v) :
    v = .symbol x := by
  rw [find?_captured] at hv
  obtain ⟨id, -, hfound⟩ := List.exists_of_findSome?_eq_some hv
  exact h.only id v hfound

/-- States that differ in objects only bind the same. -/
theorem of_scopes (h : s.SelfBound x) (hext : Extends s u) (hscopes : u.scopes = s.scopes) :
    u.SelfBound x where
  live := Nat.lt_of_lt_of_le h.live hext.symbols
  reserved := by
    rw [hext.symbol x h.live]
    exact h.reserved
  general := h.general
  bound := by
    unfold scope
    rw [hscopes]
    exact h.bound
  only := by
    intro id v hv
    unfold scope at hv
    rw [hscopes] at hv
    exact h.only id v hv

/-- A binding of another symbol. -/
theorem bindIn (h : s.SelfBound x) (id : ScopeId) {y : SymbolId} (v : Value) (hy : y ≠ x) :
    (s.bindIn id y v).SelfBound x where
  live := h.live
  reserved := h.reserved
  general := h.general
  bound := by
    rw [find?_bindIn_of_ne s id .global v hy]
    exact h.bound
  only := by
    intro j w hw
    rw [find?_bindIn_of_ne s id j v hy] at hw
    exact h.only j w hw

/-- A new scope that binds it to nothing else. -/
theorem allocScope (h : s.SelfBound x) {bindings : Scope}
    (hbindings : ∀ v, bindings.find? x = some v → v = .symbol x) :
    (s.allocScope bindings).2.SelfBound x where
  live := h.live
  reserved := h.reserved
  general := h.general
  bound := by
    -- the global scope binds the symbol, so it is not the new one
    have hglobal : ScopeId.global.index ≠ s.scopes.size := by
      intro hsize
      have hbound := h.bound
      unfold scope at hbound
      rw [Array.getElem?_eq_none (Nat.le_of_eq hsize.symm)] at hbound
      cases hbound
    rw [scope_allocScope, if_neg hglobal]
    exact h.bound
  only := by
    intro id v hv
    rw [scope_allocScope] at hv
    split at hv
    · exact hbindings v hv
    · exact h.only id v hv

end Interp.SelfBound

theorem SymbolId.Bindable.ne_selfBound {y : SymbolId} (hy : y.Bindable s) (hx : s.SelfBound x) :
    y ≠ x := by
  rintro rfl
  rcases hy.2 with hfree | hrest | hself
  · rw [hx.reserved] at hfree
    cases hfree
  · exact hx.general.1 hrest
  · exact hx.general.2 hself

/-- A sound change leaves a symbol bound to itself. -/
theorem Change.selfBound {c : Change} (hc : c.Sound s) (hx : s.SelfBound x) :
    (c.apply s).SelfBound x := by
  have hext := c.extended s
  cases c
  case scope => exact hx.allocScope nofun
  case function expands xs arguments =>
    have hscope : (s.allocScope s.captured).2.SelfBound x := hx.allocScope fun v => hx.captured
    refine hscope.of_scopes (.objects rfl (.refl _) ?_) rfl
    simp [apply, SpecialForm.allocClosure, Interp.allocScope, Interp.allocCallable]
  case bind id y v => exact hx.bindIn id v (hc.1.ne_selfBound hx)
  case keyword name =>
    refine Interp.resultOf_induction (motive := fun u => u.SelfBound x) hx fun y u h => ?_
    rcases Interp.internKeyword_cases h with ⟨-, rfl⟩ | ⟨t, hnone, hintern, rfl⟩
    · exact hx
    · have ht : t.SelfBound x :=
        hx.of_scopes (.internIn hintern) (by rw [Interp.internIn_eq hintern])
      -- the new keyword is another symbol
      rcases Interp.internIn_cases hintern with ⟨hfind, -⟩ | ⟨-, -, rfl, -⟩
      · rw [hnone] at hfind
        cases hfind
      · exact ht.bindIn .global _ fun heq => Nat.lt_irrefl _ (heq ▸ hx.live)
  case store v place => exact hx.of_scopes hext (by cases place <;> rfl)
  case intern | create | select | use =>
    refine hx.of_scopes hext ?_
    rw [Naming.apply_eq]
    trivial
  all_goals exact hx.of_scopes hext rfl

/-! ## The namespace of keywords -/

/-- A change that interns no plain name in the namespace of keywords. -/
def Change.Unkeyed (c : Change) : Prop := ∀ name, c ≠ .intern .keywords name

/-- A namespace that has taken over exports remembers whose. -/
theorem Edit.uses_use_ne_nil (ns other : Namespace) : ((use other).apply ns).uses ≠ [] := by
  show (if other.name ∈ ns.uses then ns.uses else ns.uses ++ [other.name]) ≠ []
  split
  next hmem => exact List.ne_nil_of_mem hmem
  next => simp

/-- A keyword that evaluates to itself, under its name. -/
structure Interp.HasKeyword (s : Interp) (name : String) (x : SymbolId) : Prop where
  bound : s.SelfBound x
  keyword : (s.symbol x).keyword = true
  name : (s.symbol x).name = name

theorem Interp.HasKeyword.change {name : String} {c : Change} (h : s.HasKeyword name x)
    (hc : c.Sound s) : (c.apply s).HasKeyword name x where
  bound := Change.selfBound hc h.bound
  keyword := by
    rw [(c.extended s).symbol x h.bound.live]
    exact h.keyword
  name := by
    rw [(c.extended s).symbol x h.bound.live]
    exact h.name

/-- The namespace of keywords makes keywords. As long as it has taken over no exports, its names are
keywords that evaluate to themselves. -/
structure Interp.KeepsKeywords (s : Interp) : Prop where
  live : s.Live
  scopes : 0 < s.scopes.size
  namespaces : NamespaceId.keywords.index < s.namespaces.size
  canIntern : (s.namespaceAt .keywords).canIntern = true
  keywords : (s.namespaceAt .keywords).keywords = true
  names : (s.namespaceAt .keywords).uses = [] → ∀ name x,
    (s.namespaceAt .keywords).find? name = some x → s.HasKeyword name x

namespace Interp.KeepsKeywords

/-- A new keyword is behind the old symbols and bound in the global scope. -/
theorem internKeyword_new (h : s.KeepsKeywords) {name : String}
    (hnone : (s.namespaceAt .keywords).find? name = none) :
    ∃ t : Interp, t.symbols = s.symbols.push (.keywordNamed name) ∧ t.scopes = s.scopes ∧
      s.internKeyword name = .ok (⟨s.symbols.size⟩,
        t.bindGlobal ⟨s.symbols.size⟩ (.symbol ⟨s.symbols.size⟩)) := by
  have hnew : (s.namespaceAt .keywords).newSymbol name = .keywordNamed name := by
    unfold Namespace.newSymbol
    rw [h.keywords]
    rfl
  let ns := (Edit.put name ⟨s.symbols.size⟩ (s.namespaceAt .keywords).keywords).apply
    (s.namespaceAt .keywords)
  refine ⟨{ s with symbols := s.symbols.push (.keywordNamed name) }.setNamespace .keywords ns,
    rfl, rfl, ?_⟩
  unfold Interp.internKeyword Interp.internIn
  rw [hnone, Namespace.intern_new hnone h.canIntern, hnew]
  rfl

/-- Interning a new name as a keyword makes one that evaluates to itself. -/
theorem hasKeyword_new (h : s.KeepsKeywords) {name : String}
    (hnone : (s.namespaceAt .keywords).find? name = none) :
    (Change.apply s (.keyword name)).HasKeyword name ⟨s.symbols.size⟩ := by
  obtain ⟨t, hsymbols, hscopes, hintern⟩ := h.internKeyword_new hnone
  have happly : Change.apply s (.keyword name) =
      t.bindGlobal ⟨s.symbols.size⟩ (.symbol ⟨s.symbols.size⟩) := by
    show s.resultOf (s.internKeyword name) = _
    rw [hintern]
    rfl
  have hsymbol : t.symbol ⟨s.symbols.size⟩ = .keywordNamed name := by
    unfold Interp.symbol
    rw [hsymbols, Array.getElem?_push, if_pos rfl]
    rfl
  have hglobal : ScopeId.global.index < t.scopes.size := by
    rw [hscopes]
    exact h.scopes
  have hfind := fun j v =>
    Interp.find?_bindIn t .global j ⟨s.symbols.size⟩ ⟨s.symbols.size⟩ v hglobal
  rw [happly]
  refine ⟨⟨?_, ?_, ?_, ?_, ?_⟩, ?_, ?_⟩
  · show s.symbols.size < t.symbols.size
    rw [hsymbols, Array.size_push]
    exact Nat.lt_succ_self _
  · exact congrArg Symbol.reserved hsymbol
  · have hfixed := h.live.fixed
    constructor <;> intro heq <;> injection heq with heq <;> omega
  · exact (hfind .global _).trans (if_pos ⟨rfl, rfl⟩)
  · intro id v hv
    replace hv := (hfind id _).symm.trans hv
    by_cases hid : ScopeId.global = id
    · rw [if_pos ⟨hid, rfl⟩] at hv
      exact (Option.some.inj hv).symm
    · -- no scope binds a symbol that was not there
      rw [if_neg fun heq => hid heq.1] at hv
      have hold : (s.scope id).find? ⟨s.symbols.size⟩ = some v := by
        unfold Interp.scope at hv ⊢
        rw [← hscopes]
        exact hv
      exact absurd (h.live.scope id _ (Table.mem_of_find? hold)).1 (Nat.lt_irrefl _)
  · exact congrArg Symbol.keyword hsymbol
  · exact congrArg Symbol.name hsymbol

theorem change {c : Change} (h : s.KeepsKeywords) (hc : c.Sound s) (hunkeyed : c.Unkeyed) :
    (c.apply s).KeepsKeywords := by
  obtain ⟨-, hopen, hkeywords⟩ := c.header_apply h.namespaces
  have hnames : ((c.apply s).namespaceAt .keywords).uses = [] → ∀ name x,
      ((c.apply s).namespaceAt .keywords).find? name = some x →
      (c.apply s).HasKeyword name x := by
    intro huses name x hfind
    have hleaves := c.leavesNamespace s .keywords
    generalize (c.apply s).namespaceAt .keywords = ns at huses hfind hleaves
    cases hleaves with
    | same => exact (h.names huses name x hfind).change hc
    | @interned new hintern hnone _ =>
      have heq : c = .keyword new := by
        rcases hintern with hplain | ⟨-, hkeyword⟩
        · exact absurd hplain (hunkeyed new)
        · exact hkeyword
      subst heq
      rw [Edit.find?_apply] at hfind
      by_cases hname : new = name
      · subst hname
        simp only [Edit.places, if_true, Option.some_or, Option.some.injEq] at hfind
        subst hfind
        exact h.hasKeyword_new hnone
      · simp only [Edit.places, if_neg hname, Option.none_or] at hfind
        exact (h.names huses name x hfind).change hc
    | used _ other => exact absurd huses (Edit.uses_use_ne_nil _ _)
    | created _ hid _ => exact absurd hid (Nat.ne_of_lt h.namespaces)
  exact ⟨Change.live h.live hc, Nat.lt_of_lt_of_le h.scopes (c.scopes_size_le s),
    Nat.lt_of_lt_of_le h.namespaces (c.extended s).namespaces, hopen.trans h.canIntern,
    hkeywords.trans h.keywords, hnames⟩

end Interp.KeepsKeywords

/-! ## Keywords of sessions -/

theorem Interp.keepsKeywords_initial (limit : Nat) : (initial limit).KeepsKeywords where
  live := live_initial limit
  scopes := Nat.zero_lt_one
  namespaces := show 1 < 3 by decide
  canIntern := rfl
  keywords := rfl
  names := fun _ _ _ hfind => nomatch hfind

/-- Forms that are interned while the namespace of keywords is not current keep the keywords. -/
theorem Session.keepsKeywords {limit : Nat}
    (h : Session (fun u => u.current ≠ .keywords) (.initial limit) s) : s.KeepsKeywords := by
  have htrace : Trace (fun u c => c.Sound u ∧ c.Unkeyed) (.initial limit) s := by
    refine h.traced True (fun _ => Interp.live_initial limit) ?_ fun _ _ _ hc => hc.1
    rintro u hu v c (hc | hc)
    · refine ⟨hc.sound trivial, fun name heq => ?_⟩
      subst heq
      rcases hc with hid | hid
      · exact hu hid.symm
      · exact hid rfl
    · exact ⟨hc.2 trivial, fun name => hc.1 .keywords name⟩
  refine htrace.preserves (fun u c hc hu => hu.change hc.1 hc.2) (fun u _ _ _ hu => ?_)
    (Interp.keepsKeywords_initial limit)
  refine ⟨hu.live.withFrames _ _ _, hu.scopes, hu.namespaces, hu.canIntern, hu.keywords, ?_⟩
  intro huses name x hfind
  obtain ⟨hbound, hkeyword, hname⟩ := hu.names huses name x hfind
  exact ⟨hbound.of_scopes (.outside rfl rfl rfl rfl rfl rfl rfl) rfl, hkeyword, hname⟩

/-- Interning a keyword finds or makes one that evaluates to itself. -/
theorem Interp.KeepsKeywords.internKeyword (h : s.KeepsKeywords)
    (huses : (s.namespaceAt .keywords).uses = []) (name : String) :
    ∃ x t, s.internKeyword name = .ok (x, t) ∧ t.HasKeyword name x := by
  cases hfind : (s.namespaceAt .keywords).find? name with
  | some x =>
    refine ⟨x, s, ?_, h.names huses name x hfind⟩
    unfold Interp.internKeyword
    rw [hfind]
  | none =>
    obtain ⟨t, -, -, hintern⟩ := h.internKeyword_new hfind
    have hkeyword := h.hasKeyword_new hfind
    unfold Change.apply at hkeyword
    simp only [hintern] at hkeyword
    exact ⟨_, _, hintern, hkeyword⟩

/-- A symbol that is bound to itself evaluates to itself, whatever scopes are active. -/
theorem Interp.SelfBound.evaluate (h : s.SelfBound x) (m : Machine) (context : Value)
    (hfuel : 0 < m.fuel) (hactive : s.active < s.limit) :
    m.evaluate context (.symbol x) s = .ok (.symbol x) s :=
  m.evaluate_symbol context h.lookup? hfuel hactive

/-- After a session that interns no form while the namespace of keywords is current, and as long as
that namespace has taken over no exports, every name gives a keyword. It evaluates to itself in all
scopes that may be active. -/
theorem keywords_stand_for_themselves {limit : Nat}
    (h : Session (fun u => u.current ≠ .keywords) (.initial limit) s)
    (huses : (s.namespaceAt .keywords).uses = []) (name : String) :
    ∃ x t, s.internKeyword name = .ok (x, t) ∧ (t.symbol x).keyword = true ∧
      (t.symbol x).name = name ∧
      ∀ (m : Machine) context chain depths active, 0 < m.fuel → active < t.limit →
        m.evaluate context (.symbol x) (t.withFrames chain depths active) =
          .ok (.symbol x) (t.withFrames chain depths active) := by
  obtain ⟨x, t, hintern, hbound, hkeyword, hname⟩ := h.keepsKeywords.internKeyword huses name
  refine ⟨x, t, hintern, hkeyword, hname, fun m context chain depths active hfuel hactive => ?_⟩
  have hframes : (t.withFrames chain depths active).SelfBound x :=
    hbound.of_scopes (.outside rfl rfl rfl rfl rfl rfl rfl) rfl
  exact hframes.evaluate m context hfuel hactive

/-- A keyword that a form has named evaluates to itself afterwards. -/
theorem keyword_stands_after_form :
    ∃ s x, Session (fun u => u.current ≠ .keywords) (.initial 64) s ∧
      (s.namespaceAt .keywords).uses = [] ∧ s.internKeyword "FOO" = .ok (x, s) ∧
      (s.symbol x).keyword = true ∧
      Machine.small.evaluate .nil (.symbol x) s = .ok (.symbol x) s := by
  let s := (Machine.small.evaluateDatum (.symbol (.keyword "FOO"))).final (.initial 64)
  have hsession : Session (fun u => u.current ≠ .keywords) (.initial 64) s :=
    .form .start (by decide) Machine.small (.symbol (.keyword "FOO"))
  have huses : (s.namespaceAt .keywords).uses = [] := by decide +kernel
  have hfind : (s.namespaceAt .keywords).find? "FOO" = some ⟨54⟩ := by decide +kernel
  have hfound : s.internKeyword "FOO" = .ok (⟨54⟩, s) := by
    unfold Interp.internKeyword
    rw [hfind]
  obtain ⟨x, t, hintern, hkeyword, -, hself⟩ := keywords_stand_for_themselves hsession huses "FOO"
  rw [hfound] at hintern
  cases hintern
  have hstands := hself .small .nil s.chain s.depths s.active (by decide) (by decide +kernel)
  exact ⟨s, ⟨54⟩, hsession, huses, hfound, hkeyword, hstands⟩

/-- Interned as a plain name in the namespace of keywords, a keyword is bound nowhere. -/
theorem plain_keyword_unbound :
    ∃ s x, Session (fun _ => True) (.initial 64) s ∧ (s.namespaceAt .keywords).uses = [] ∧
      s.internKeyword "FOO" = .ok (x, s) ∧ (s.symbol x).keyword = true ∧ s.lookup? x = none := by
  let s := (Interp.initial 64).afterTexts
    [(.small, "(in-namespace \"keyword\")"), (.small, "(glisp:quote foo)")]
  have hfind : (s.namespaceAt .keywords).find? "FOO" = some ⟨54⟩ := by decide +kernel
  refine ⟨s, ⟨54⟩, Session.start.afterTexts _, by decide +kernel, ?_, by decide +kernel,
    by decide +kernel⟩
  unfold Interp.internKeyword
  rw [hfind]

end SmallLisp
