import SmallLisp.Proofs.Clauses
import SmallLisp.Proofs.Sequencing

/-!
# Names in capitals

Names come out of the reader, out of strings that are mapped to upper case, and out of a few fixed
texts, so without functions of the host no name has a lower-case ASCII letter in it. `Interp.Native`
says so of a state, and that no function of the host is installed. Reading, interning and the
operations on namespaces keep a state native.
-/

namespace SmallLisp

/-! ## Upper case -/

namespace Text

/-- A text without lower-case ASCII letters. -/
def InCapitals (cs : List Char) : Prop := ∀ c ∈ cs, c.isLower = false

/-- The test by which fixed texts are checked. -/
theorem inCapitals_of_all {cs : List Char} (h : cs.all (fun c => !c.isLower) = true) :
    InCapitals cs := by
  intro c hc
  have hupper := List.all_eq_true.mp h c hc
  rwa [Bool.not_eq_true'] at hupper

theorem isLower_iff {c : Char} : c.isLower = true ↔ 0x61 ≤ c.toNat ∧ c.toNat ≤ 0x7A := by
  show (decide (c.val ≥ 97) && decide (c.val ≤ 122)) = true ↔ _
  simp [UInt32.le_iff_toNat_le, ← Char.toNat_val]

/-- A number that is no code point stands for the character zero. -/
theorem isLower_ofNat {n : Nat} (h : n < 0x61 ∨ 0x7A < n) : (Char.ofNat n).isLower = false := by
  rw [Bool.eq_false_iff, Ne, isLower_iff]
  by_cases hvalid : n.isValidChar
  · have hn : (Char.ofNat n).toNat = n := by
      rw [Char.ofNat, dif_pos hvalid]
      rfl
    omega
  · rw [Char.ofNat, dif_neg hvalid]
    decide

theorem isLower_toUpper (c : Char) : c.toUpper.isLower = false := by
  delta Char.isLower Char.toUpper
  split <;> grind [UInt32.toNat_add, Char.toNat_val]

theorem caseExpansions_inCapitals : ∀ e ∈ caseExpansions, ∀ n ∈ e.upper, n < 0x61 ∨ 0x7A < n := by
  decide +kernel

theorem caseRuns_inCapitals : ∀ r ∈ caseRuns,
    0x7A < (r.first : Int) + r.delta ∨ (r.last : Int) + r.delta < 0x61 := by
  decide +kernel

theorem upperChar_inCapitals (c : Char) : InCapitals (upperChar c) := by
  unfold upperChar
  dsimp only
  split
  · intro d hd
    rw [List.mem_singleton.mp hd]
    exact isLower_toUpper c
  next hascii =>
    split
    next e hfound =>
      intro d hd
      obtain ⟨n, hn, rfl⟩ := List.mem_map.mp hd
      exact isLower_ofNat (caseExpansions_inCapitals e (List.mem_of_find?_eq_some hfound) n hn)
    next =>
      split
      next r hfound =>
        intro d hd
        rw [List.mem_singleton.mp hd]
        have hcontains := List.find?_some hfound
        have hrange := caseRuns_inCapitals r (List.mem_of_find?_eq_some hfound)
        simp only [CaseRun.contains, Bool.and_eq_true, decide_eq_true_eq] at hcontains
        refine isLower_ofNat ?_
        omega
      next =>
        intro d hd
        rw [List.mem_singleton.mp hd, Bool.eq_false_iff, Ne, isLower_iff]
        omega

theorem upperChars_inCapitals (cs : List Char) : InCapitals (upperChars cs) := by
  intro d hd
  obtain ⟨c, -, hd⟩ := List.mem_flatMap.mp hd
  exact upperChar_inCapitals c d hd

theorem uppercase_inCapitals (t : String) : InCapitals (uppercase t).toList := by
  unfold uppercase
  rw [String.toList_ofList]
  exact upperChars_inCapitals t.toList

theorem InCapitals.mono {cs ds : List Char} (h : InCapitals ds) (hsub : cs ⊆ ds) :
    InCapitals cs :=
  fun c hc => h c (hsub hc)

end Text

open Text (InCapitals)

/-! ## Names that are read -/

/-- The name that is looked up or created, without its namespace. -/
def SymbolName.InCapitals : SymbolName → Prop
  | .plain name | .keyword name | .exported _ name | .interned _ name => Text.InCapitals name.toList

theorem splitColon_subset {token before after : List Char}
    (h : splitColon token = some (before, after)) : after ⊆ token := by
  induction token generalizing before with
  | nil => cases h
  | cons c rest ih =>
    unfold splitColon at h
    split at h
    next heq => cases heq
    next heq =>
      cases heq
      cases h
      exact List.subset_cons_self _ _
    next heq =>
      cases heq
      obtain ⟨⟨b, a⟩, hsplit, hab⟩ := Option.map_eq_some_iff.mp h
      cases hab
      exact List.Subset.trans (ih hsplit) (List.subset_cons_self _ _)

theorem splitColons_subset {token before after : List Char}
    (h : splitColons token = some (before, after)) : after ⊆ token := by
  induction token generalizing before with
  | nil => cases h
  | cons c rest ih =>
    unfold splitColons at h
    split at h
    next heq => cases heq
    next heq =>
      cases heq
      cases h
      exact List.Subset.trans (List.subset_cons_self _ _) (List.subset_cons_self _ _)
    next heq =>
      cases heq
      obtain ⟨⟨b, a⟩, hsplit, hab⟩ := Option.map_eq_some_iff.mp h
      cases hab
      exact List.Subset.trans (ih hsplit) (List.subset_cons_self _ _)

theorem symbolName?_inCapitals {token : List Char} {name : SymbolName}
    (h : symbolName? token = some name) (htoken : InCapitals token) : name.InCapitals := by
  have hpart : ∀ part, part ⊆ token → InCapitals (String.ofList part).toList := by
    intro part hsub
    rw [String.toList_ofList]
    exact htoken.mono hsub
  unfold symbolName? at h
  dsimp only at h
  split at h
  · split at h
    · cases h
      exact hpart _ (List.subset_cons_self _ _)
    · cases h
  · split at h
    next hsplit =>
      split at h
      · cases h
        exact hpart _ (splitColons_subset hsplit)
      · cases h
    next =>
      split at h
      next hsplit =>
        split at h
        · cases h
          exact hpart _ (splitColon_subset hsplit)
        · cases h
      next =>
        cases h
        exact hpart _ (List.Subset.refl _)

/-- A datum with all its names in capitals. -/
inductive Datum.InCapitals : Datum → Prop
  | number (n : Number) : InCapitals (.number n)
  | string (t : String) : InCapitals (.string t)
  | character (c : Char) : InCapitals (.character c)
  | symbol {name : SymbolName} (h : name.InCapitals) : InCapitals (.symbol name)
  | list {items : List Datum} (h : ∀ d ∈ items, InCapitals d) : InCapitals (.list items)
  | dotted {items : List Datum} {tail : Datum} (h : ∀ d ∈ items, InCapitals d)
      (htail : InCapitals tail) : InCapitals (.dotted items tail)
  | quoted {operand : Datum} (kind : QuoteKind) (h : InCapitals operand) :
      InCapitals (.quoted kind operand)

/-- A reader whose data have their names in capitals. -/
def ReadsCapitals (reader : DatumReader) : Prop :=
  ∀ cs datum rest, reader cs = .ok (datum, rest) → datum.InCapitals

theorem readsCapitals_readAtom : ReadsCapitals readAtom := by
  intro cs datum rest h
  unfold readAtom at h
  dsimp only at h
  split at h
  · cases h
  split at h
  · split at h
    · cases h
      exact .number _
    · cases h
  split at h
  · cases h
    exact .number _
  split at h
  · cases h
  split at h
  next hname =>
    cases h
    exact .symbol (symbolName?_inCapitals hname (Text.upperChars_inCapitals _))
  next => cases h

theorem readsCapitals_readString (seen : List Char) : ReadsCapitals (readString seen) := by
  intro cs datum rest h
  fun_induction readString seen cs with
  | case1 | case3 | case5 => cases h
  | case2 =>
    cases h
    exact .string _
  | case4 _ _ _ _ _ ih => exact ih h
  | case6 _ _ _ _ _ _ ih => exact ih h

theorem readsCapitals_readCharacter : ReadsCapitals readCharacter := by
  intro cs datum rest h
  unfold readCharacter at h
  cases htoken : tokenOf cs with
  | nil =>
    rw [htoken] at h
    cases cs with
    | nil => cases h
    | cons c text =>
      cases h
      exact .character _
  | cons c name =>
    rw [htoken] at h
    cases name with
    | nil =>
      cases h
      exact .character _
    | cons d name =>
      dsimp only at h
      split at h
      · cases h
        exact .character _
      · cases h

section Readers

variable {comments : Bool} {reader : DatumReader}

theorem ReadsCapitals.operand (h : ReadsCapitals reader) (kind : QuoteKind) :
    ReadsCapitals (readOperand kind reader) := by
  intro cs datum rest hread
  obtain ⟨operand, hoperand, rfl⟩ := readOperand_eq_ok.mp hread
  exact .quoted kind (h _ _ _ hoperand)

theorem ReadsCapitals.items (h : ReadsCapitals reader) (n : Nat) (seen : List Datum)
    (hseen : ∀ d ∈ seen, d.InCapitals) : ReadsCapitals (readItems comments reader n seen) := by
  intro cs datum rest hread
  have hreversed : ∀ {seen : List Datum}, (∀ d ∈ seen, d.InCapitals) →
      ∀ d ∈ seen.reverse, d.InCapitals := fun hseen d hd => hseen d (List.mem_reverse.mp hd)
  induction n generalizing seen cs with
  | zero => cases hread
  | succ n ih =>
    obtain ⟨text, -, hcase⟩ := readItems_succ_eq_ok.mp hread
    rcases hcase with ⟨-, rfl⟩ | ⟨-, -, ⟨after, -, -, htail⟩ | ⟨-, item, behind, hitem, hmore⟩⟩
    · exact .list (hreversed hseen)
    · obtain ⟨tail, behind, hdatum, -, rfl⟩ := readTail_eq_ok.mp htail
      exact .dotted (hreversed hseen) (h _ _ _ hdatum)
    · exact ih (item :: seen) (List.forall_mem_cons.mpr ⟨h _ _ _ hitem, hseen⟩) _ hmore

theorem readsCapitals_readDatum (levels backquotes : Nat) :
    ReadsCapitals (readDatum comments levels backquotes) := by
  induction levels generalizing backquotes with
  | zero =>
    intro cs datum rest h
    cases h
  | succ levels ih =>
    intro cs datum rest h
    unfold readDatum at h
    split at h
    · cases h
    · exact (ih backquotes).operand .quote _ _ _ h
    · exact (ih (backquotes + 1)).operand .backquote _ _ _ h
    · split at h
      · cases h
      · split at h
        · exact (ih (backquotes - 1)).operand .splice _ _ _ h
        · exact (ih (backquotes - 1)).operand .unquote _ _ _ h
    · exact (ih backquotes).items _ [] (List.forall_mem_nil _) _ _ _ h
    · exact readsCapitals_readString [] _ _ _ h
    · exact readsCapitals_readCharacter _ _ _ h
    · exact readsCapitals_readAtom _ _ _ h

theorem readTop_inCapitals {options : ReadOptions} {backquotes n : Nat} {seen data : List Datum}
    {cs : List Char} (h : readTop options backquotes n seen cs = .ok data)
    (hseen : ∀ d ∈ seen, d.InCapitals) : ∀ d ∈ data, d.InCapitals := by
  have hreversed : ∀ d ∈ seen.reverse, d.InCapitals := fun d hd => hseen d (List.mem_reverse.mp hd)
  induction n generalizing seen cs with
  | zero =>
    cases h
    exact hreversed
  | succ n ih =>
    rw [readTop_succ] at h
    split at h
    · cases h
    · cases h
      exact hreversed
    next datum rest hnext =>
      obtain ⟨text, -, -, hread⟩ := nextDatum_eq_some.mp hnext
      have hmore := List.forall_mem_cons.mpr ⟨readsCapitals_readDatum _ _ _ _ _ hread, hseen⟩
      exact ih h hmore fun d hd => hmore d (List.mem_reverse.mp hd)

end Readers

/-- Every name of a text is read in capitals. -/
theorem readData_inCapitals {options : ReadOptions} {source : String} {data : List Datum}
    (h : readData options source = .ok data) : ∀ d ∈ data, d.InCapitals :=
  readTop_inCapitals (readData_eq_ok.mp h) (List.forall_mem_nil _)

/-! ## States -/

/-- Symbols with their names in capitals. -/
def SymbolStore.InCapitals (symbols : SymbolStore) : Prop :=
  ∀ x ∈ symbols, Text.InCapitals x.name.toList

theorem SymbolStore.InCapitals.push {symbols : SymbolStore} {x : Symbol}
    (h : symbols.InCapitals) (hx : Text.InCapitals x.name.toList) :
    SymbolStore.InCapitals (symbols.push x) := by
  intro y hy
  rcases Array.mem_push.mp hy with hy | rfl
  · exact h y hy
  · exact hx

/-- No function of the host is installed, and every name is in capitals. -/
structure Interp.Native (s : Interp) : Prop where
  hostless : s.HostsAre fun _ => False
  symbols : s.symbols.InCapitals
  namespaces : ∀ ns ∈ s.namespaces, InCapitals ns.name.toList

namespace Interp.Native

variable {s u : Interp}

/-- Only functions, symbols and namespaces count. -/
theorem congr (h : s.Native) (hcallables : u.callables = s.callables)
    (hsymbols : u.symbols = s.symbols) (hnamespaces : u.namespaces = s.namespaces) : u.Native where
  hostless := by
    intro f hf
    rw [hcallables] at hf
    exact h.hostless f hf
  symbols := hsymbols ▸ h.symbols
  namespaces := hnamespaces ▸ h.namespaces

theorem grown (h : s.Native) (hgrown : Grown s u) : u.Native := by
  rw [hgrown.others]
  exact h.congr rfl rfl rfl

theorem symbol (h : s.Native) (x : SymbolId) : InCapitals (s.symbol x).name.toList := by
  unfold Interp.symbol
  cases hx : s.symbols[x.index]? with
  | none => exact List.forall_mem_nil _
  | some y => exact h.symbols y (Array.mem_of_getElem? hx)

theorem namespaceAt (h : s.Native) (id : NamespaceId) :
    InCapitals (s.namespaceAt id).name.toList := by
  unfold Interp.namespaceAt
  cases hns : s.namespaces[id.index]? with
  | none => exact List.forall_mem_nil _
  | some ns => exact h.namespaces ns (Array.mem_of_getElem? hns)

theorem callable_ne_host (h : s.Native) (id : FunctionId) (f : HostFunction) :
    s.callable id ≠ .host f :=
  fun hf => h.hostless f (HostsAre.mem_of_callable hf)

/-- New symbols in capitals, and a namespace in the place of one of that name. -/
theorem setNamespace (h : s.Native) {symbols : SymbolStore} (hsymbols : symbols.InCapitals)
    {id : NamespaceId} {ns : Namespace} (hns : ns.name = (s.namespaceAt id).name) :
    ({ s with symbols := symbols }.setNamespace id ns).Native where
  hostless := h.hostless
  symbols := hsymbols
  namespaces := by
    intro other hother
    rcases Array.mem_or_eq_of_mem_setIfInBounds hother with hold | rfl
    · exact h.namespaces other hold
    · rw [hns]
      exact h.namespaceAt id

theorem internIn (h : s.Native) {id : NamespaceId} {name : String} {x : SymbolId}
    (hname : InCapitals name.toList) (hintern : s.internIn id name = .ok (x, u)) : u.Native := by
  rcases internIn_cases hintern with ⟨-, rfl⟩ | ⟨-, -, -, rfl⟩
  · exact h
  · refine h.setNamespace (h.symbols.push ?_) (Edit.header_apply _ _).1
    rw [Namespace.newSymbol_name]
    exact hname

theorem internKeyword (h : s.Native) {name : String} {x : SymbolId}
    (hname : InCapitals name.toList) (hkeyword : s.internKeyword name = .ok (x, u)) : u.Native := by
  rcases internKeyword_cases hkeyword with ⟨-, rfl⟩ | ⟨t, -, hintern, rfl⟩
  · exact h
  · exact (h.internIn hname hintern).congr rfl rfl rfl

theorem generate (h : s.Native) : s.generate.2.Native where
  hostless := h.hostless
  symbols := by
    refine h.symbols.push fun c hc => ?_
    have hdigits : ("G" ++ toString (s.generated + 1)).toList =
        'G' :: Nat.toDigits 10 (s.generated + 1) := by
      rw [String.toList_append]
      exact congrArg ('G' :: ·) Nat.toList_repr
    replace hc : c ∈ ("G" ++ toString (s.generated + 1)).toList := hc
    rw [hdigits] at hc
    rcases List.mem_cons.mp hc with rfl | hc
    · decide
    · have hdigit : 48 ≤ c.toNat ∧ c.toNat ≤ 57 :=
        Char.isDigit_iff_toNat.mp (isDigit_of_mem_toDigits hc)
      rw [Bool.eq_false_iff, Ne, Text.isLower_iff]
      omega
  namespaces := h.namespaces

theorem changeNamespace (h : s.Native) {name : String} {id : NamespaceId}
    (hchange : s.changeNamespace name = .ok (id, u)) : u.Native := by
  obtain ⟨-, rfl⟩ := changeNamespace_cases hchange
  exact h.congr rfl rfl rfl

theorem useNamed (h : s.Native) {name : String} {id : NamespaceId}
    (huse : s.useNamed name = .ok (id, u)) : u.Native := by
  rcases useNamed_cases huse with ⟨-, rfl⟩ | ⟨-, rfl⟩
  · exact h
  · exact h.setNamespace h.symbols (Edit.header_apply _ _).1

theorem allocClosure (h : s.Native) (expands : Bool) (xs : List SymbolId) (arguments : Value) :
    (SpecialForm.allocClosure (.ofClosure expands) xs arguments s).2.Native where
  hostless := h.hostless.change (.function expands xs arguments)
  symbols := h.symbols
  namespaces := h.namespaces

end Interp.Native

/-! ## Namespace forms -/

namespace NamespaceForm

variable {s u : Interp}

theorem nameOf_inCapitals (h : s.Native) {v : Value} {name : String}
    (hname : nameOf s v = .ok name) : InCapitals name.toList := by
  unfold nameOf at hname
  split at hname
  · cases hname
    exact h.symbol _
  · cases hname
    exact Text.uppercase_inCapitals _
  · cases hname

theorem namesOf_inCapitals (h : s.Native) {vs : List Value} {names : List String}
    (hnames : namesOf s vs = .ok names) : ∀ name ∈ names, InCapitals name.toList := by
  induction vs generalizing names with
  | nil =>
    cases hnames
    exact List.forall_mem_nil _
  | cons v rest ih =>
    unfold namesOf at hnames
    split at hnames
    · cases hnames
    next name hname =>
      obtain ⟨more, hmore, rfl⟩ := ok_of_map hnames
      exact List.forall_mem_cons.mpr ⟨nameOf_inCapitals h hname, ih hmore⟩

namespace Draft

variable {d d' : Draft} {names : List String}

/-- Taking over exports makes no symbols. -/
theorem useAll_symbols (h : useAll s d names = .ok d') : d'.symbols = d.symbols := by
  induction names generalizing d with
  | nil =>
    cases h
    rfl
  | cons name rest ih =>
    unfold useAll at h
    split at h
    · cases h
    · exact (ih h :)

theorem importAll_symbols {other : Namespace} (h : importAll other d names = .ok d') :
    d'.symbols = d.symbols := by
  induction names generalizing d with
  | nil =>
    cases h
    rfl
  | cons name rest ih =>
    unfold importAll at h
    split at h
    · cases h
    · exact (ih h :)

theorem exportAll_inCapitals (h : exportAll d names = .ok d') (hd : d.symbols.InCapitals)
    (hnames : ∀ name ∈ names, InCapitals name.toList) : d'.symbols.InCapitals := by
  induction names generalizing d with
  | nil =>
    cases h
    exact hd
  | cons name rest ih =>
    obtain ⟨hname, hrest⟩ := List.forall_mem_cons.mp hnames
    unfold exportAll at h
    split at h
    · cases h
    next id ns symbols hintern =>
      have hsymbols : symbols.InCapitals := by
        rcases Namespace.intern_cases hintern with ⟨-, -, rfl⟩ | ⟨-, -, -, -, rfl⟩
        · exact hd
        · refine hd.push ?_
          rw [Namespace.newSymbol_name]
          exact hname
      split at h
      · cases h
      · exact ih h hsymbols hrest

theorem shadowAll_inCapitals (hd : d.symbols.InCapitals)
    (hnames : ∀ name ∈ names, InCapitals name.toList) :
    (shadowAll d names).symbols.InCapitals := by
  induction names generalizing d with
  | nil => exact hd
  | cons name rest ih =>
    obtain ⟨hname, hrest⟩ := List.forall_mem_cons.mp hnames
    exact ih (hd.push hname) hrest

theorem clause_inCapitals (h : clause s d names = .ok d') (hd : d.symbols.InCapitals)
    (hnames : ∀ name ∈ names, InCapitals name.toList) : d'.symbols.InCapitals := by
  unfold clause at h
  split at h
  · cases h
    exact hd
  next keyword operands =>
    obtain ⟨-, hoperands⟩ := List.forall_mem_cons.mp hnames
    split at h
    · rw [useAll_symbols h]
      exact hd
    split at h
    · exact exportAll_inCapitals h hd hoperands
    split at h
    · split at h
      · cases h
        exact hd
      · split at h
        · cases h
        · rw [importAll_symbols h]
          exact hd
    split at h
    · cases h
      exact shadowAll_inCapitals hd hoperands
    · cases h

theorem clauses_inCapitals (hs : s.Native) {vs : List Value} (h : clauses s d vs = .ok d')
    (hd : d.symbols.InCapitals) : d'.symbols.InCapitals := by
  induction vs generalizing d with
  | nil =>
    cases h
    exact hd
  | cons v rest ih =>
    cases v with
    | cons id =>
      unfold clauses at h
      split at h
      · cases h
      · split at h
        · cases h
        next names hnames =>
          split at h
          · cases h
          next hclause =>
            exact ih h (clause_inCapitals hclause hd (namesOf_inCapitals hs hnames))
    | _ => cases h

end Draft

theorem native_create (h : s.Native) {arguments : Value} {id : NamespaceId}
    (hcreate : create s arguments = .ok (id, u)) : u.Native := by
  cases hname : nameOf s (s.first arguments) with
  | error fault =>
    unfold create at hcreate
    rw [hname] at hcreate
    cases hcreate
  | ok name =>
    rw [create_named hname] at hcreate
    cases hclauses : (Draft.start s name).clauses s (s.elementsOf (s.rest arguments)) with
    | error fault =>
      rw [hclauses] at hcreate
      cases hcreate
    | ok d =>
      rw [hclauses] at hcreate
      cases hfound : s.findNamespace? name with
      | some id =>
        rw [hfound] at hcreate
        cases hcreate
      | none =>
        rw [hfound] at hcreate
        cases hcreate
        refine ⟨h.hostless, Draft.clauses_inCapitals h hclauses h.symbols, fun ns hns => ?_⟩
        rcases Array.mem_push.mp hns with hold | rfl
        · exact h.namespaces ns hold
        · rw [Draft.clauses_name hclauses]
          exact nameOf_inCapitals h hname

end NamespaceForm

/-! ## Interning -/

namespace Interp.Native

variable {s : Interp}

theorem build (h : s.Native) (builder : ListBuilder) (tail : Value) :
    ((EvalM.build builder tail).final s).Native :=
  h.grown (grown_consReversed builder.reversed s tail)

theorem resolve (h : s.Native) {name : SymbolName} (hname : name.InCapitals) :
    ((EvalM.namespaceStep fun s => s.resolve name).final s).Native := by
  unfold EvalM.namespaceStep EvalM.final
  dsimp only
  cases hresolve : s.resolve name with
  | error cause => exact h
  | ok r =>
    obtain ⟨x, u⟩ := r
    show u.Native
    cases name with
    | plain name => exact h.internIn hname hresolve
    | keyword name => exact h.internKeyword hname hresolve
    | exported container name =>
      obtain ⟨id, -, heq⟩ := ok_of_map hresolve
      cases heq
      exact h
    | interned container name =>
      replace hresolve : s.findInterned container name = .ok (x, u) := hresolve
      unfold Interp.findInterned at hresolve
      split at hresolve
      · cases hresolve
      · split at hresolve
        · exact h.internKeyword hname hresolve
        · exact h.internIn hname hresolve

mutual

theorem datum {d : Datum} (hd : d.InCapitals) {s : Interp} (h : s.Native) :
    (d.intern.final s).Native := by
  cases hd with
  | number | string | character => exact h
  | symbol hname =>
    unfold Datum.intern
    exact EvalM.final_bind_of (h.resolve hname) fun x u hu => hu
  | list hitems =>
    unfold Datum.intern
    exact EvalM.final_bind_of (data hitems .empty h) fun builder u hu => hu.build builder _
  | dotted hitems htail =>
    unfold Datum.intern
    refine EvalM.final_bind_of (data hitems .empty h) fun builder u hu => ?_
    exact EvalM.final_bind_of (datum htail hu) fun v u hu => hu.build builder v
  | quoted kind hoperand =>
    unfold Datum.intern
    exact EvalM.final_bind_of (datum hoperand h) fun v u hu =>
      hu.grown (grown_consReversed [v, .symbol kind.symbol] u .nil)

theorem data {ds : List Datum} (hds : ∀ d ∈ ds, d.InCapitals) (builder : ListBuilder) {s : Interp}
    (h : s.Native) : ((Datum.internAll builder ds).final s).Native := by
  cases ds with
  | nil => exact h
  | cons d rest =>
    obtain ⟨hd, hrest⟩ := List.forall_mem_cons.mp hds
    unfold Datum.internAll
    exact EvalM.final_bind_of (datum hd h) fun v u hu => data hrest (builder.push v) hu

end

/-- The names of the standard library are in capitals. -/
theorem initial (limit : Nat) : (Interp.initial limit).Native where
  hostless := .of_live (live_initial limit)
  symbols := by
    intro x hx
    have hall : systemSymbols.all (fun x => x.name.toList.all fun c => !c.isLower) = true := by
      decide +kernel
    exact Text.inCapitals_of_all (List.all_eq_true.mp hall x (List.mem_toArray.mp hx))
  namespaces := by
    have hall : [systemName, keywordsName, userName].all
        (fun name => name.toList.all fun c => !c.isLower) = true := by decide +kernel
    have hnames : (Interp.initial limit).namespaces.toList.map Namespace.name =
        [systemName, keywordsName, userName] := rfl
    intro ns hns
    refine Text.inCapitals_of_all (List.all_eq_true.mp hall ns.name ?_)
    rw [← hnames]
    exact List.mem_map_of_mem (Array.mem_toList_iff.mpr hns)

end Interp.Native

end SmallLisp
