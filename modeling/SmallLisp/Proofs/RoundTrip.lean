import SmallLisp.Proofs.Copy
import SmallLisp.Proofs.WrittenList

/-!
# Reading undoes printing

`Readable s n v` describes the values whose text can be read back in the state `s`: trees of cells
with at most `n` lists inside each other, over atoms that the reader knows. The text of such a value
denotes a datum, and interning that datum allocates a copy of the value; both are shown together, by
induction on the nesting.
-/

namespace SmallLisp

/-- In the current namespace, the names of the two constants yield their values. -/
structure KnowsConstants (s : Interp) : Prop where
  nil : ∃ id, (s.namespaceAt s.current).find? "NIL" = some id ∧
    (s.symbol id).selfValue = some .nil
  truth : ∃ id, (s.namespaceAt s.current).find? "T" = some id ∧
    (s.symbol id).selfValue = some .truth

/-- Atoms that can be read back. Symbols are found under their names: keywords among the keywords,
others in the current namespace. -/
inductive ReadableAtom (s : Interp) : Value → Prop
  | integer (n : Int64) : ReadableAtom s (.number (.int n))
  | string (t : String) : ReadableAtom s (.string t)
  | character (c : Char) : ReadableAtom s (.character c)
  | nil : ReadableAtom s .nil
  | truth : ReadableAtom s .truth
  | keyword {id : SymbolId} {name : String} (hsymbol : s.symbol id = Symbol.keywordNamed name)
      (hfound : (s.namespaceAt .keywords).find? name = some id)
      (htoken : SymbolToken name.toList) : ReadableAtom s (.symbol id)
  | symbol {id : SymbolId} {name : String} {reserved : Bool}
      (hsymbol : s.symbol id = Symbol.named name reserved none)
      (hfound : (s.namespaceAt s.current).find? name = some id)
      (htoken : SymbolToken name.toList) : ReadableAtom s (.symbol id)

/-- Values that can be read back, with at most `n` lists inside each other. The tail of a list is on
the level of the list. -/
inductive Readable (s : Interp) : Nat → Value → Prop
  | atom {n : Nat} {v : Value} (hatom : ReadableAtom s v) : Readable s n v
  | cell {n : Nat} {id : CellId} (hid : id.index < s.cells.size) (hcar : Readable s n (s.car id))
      (hcdr : Readable s (n + 1) (s.cdr id)) : Readable s (n + 1) (.cons id)

variable {s : Interp}

/-- A datum that a value is printed as and interned from. -/
structure Written (s : Interp) (n : Nat) (v : Value) (d : Datum) : Prop where
  denotes : ∀ levels m, n ≤ levels → n ≤ m → Denotes (levels + 1) (s.render m v) d
  interns : Interns s v d

/-! ## Atoms -/

theorem ReadableAtom.render_eq {v : Value} (h : ReadableAtom s v) (m : Nat) :
    s.render m v = s.renderAtom v := by
  cases m with
  | zero => rfl
  | succ m => cases h <;> rfl

theorem interns_exact {v : Value} {d : Datum} (hexact : v.isExact = true)
    (hintern : d.intern = pure v) : Interns s v d := by
  intro u hu
  refine ⟨v, u, ?_, .refl u, .atom hexact⟩
  rw [hintern]
  rfl

/-- A name that is known in the current namespace, written as it is. -/
theorem written_plain {name : String} {id : SymbolId} {v : Value}
    (htoken : SymbolToken name.toList) (hrender : ∀ m, s.render m v = name.toList)
    (hfound : (s.namespaceAt s.current).find? name = some id)
    (hvalue : (s.symbol id).selfValue.getD (.symbol id) = v) (hexact : v.isExact = true) (n : Nat) :
    Written s n v (.symbol (.plain name)) := by
  refine ⟨fun levels m _ _ => ?_, interns_symbol (fun u hu => ?_) hvalue hexact⟩
  · have hdenotes : Denotes (levels + 1) name.toList _ := htoken.denotes
    rw [String.ofList_toList] at hdenotes
    rw [hrender m]
    exact hdenotes
  · refine intern_eq ?_
    rw [hu.current, hu.namespaceAt]
    exact hfound

theorem written_keyword {name : String} {id : SymbolId} (htoken : SymbolToken name.toList)
    (hrender : ∀ m, s.render m (.symbol id) = ':' :: name.toList)
    (hfound : (s.namespaceAt .keywords).find? name = some id)
    (hvalue : (s.symbol id).selfValue.getD (.symbol id) = .symbol id) (n : Nat) :
    Written s n (.symbol id) (.symbol (.keyword name)) := by
  refine ⟨fun levels m _ _ => ?_, interns_symbol (fun u hu => ?_) hvalue rfl⟩
  · have hdenotes : Denotes (levels + 1) (':' :: name.toList) _ := htoken.denotes_keyword
    rw [String.ofList_toList] at hdenotes
    rw [hrender m]
    exact hdenotes
  · refine internKeyword_eq ?_
    rw [hu.namespaceAt]
    exact hfound

theorem ReadableAtom.written (hconstants : KnowsConstants s) {v : Value} (h : ReadableAtom s v)
    (n : Nat) : ∃ d, Written s n v d := by
  have hrender := h.render_eq
  cases h with
  | integer i =>
    refine ⟨.number (.int i), fun levels m _ _ => ?_, interns_exact rfl rfl⟩
    rw [hrender m]
    exact denotes_renderInt i
  | string t =>
    refine ⟨.string t, fun levels m _ _ => ?_, interns_exact rfl rfl⟩
    rw [hrender m]
    exact denotes_renderString t
  | character c =>
    refine ⟨.character c, fun levels m _ _ => ?_, interns_exact rfl rfl⟩
    rw [hrender m]
    exact denotes_renderCharacter c
  | nil =>
    obtain ⟨id, hfound, hvalue⟩ := hconstants.nil
    have hself : (s.symbol id).selfValue.getD (.symbol id) = .nil := by rw [hvalue]; rfl
    exact ⟨_, written_plain (by decide +kernel) hrender hfound hself rfl n⟩
  | truth =>
    obtain ⟨id, hfound, hvalue⟩ := hconstants.truth
    have hself : (s.symbol id).selfValue.getD (.symbol id) = .truth := by rw [hvalue]; rfl
    exact ⟨_, written_plain (by decide +kernel) hrender hfound hself rfl n⟩
  | @keyword id name hsymbol hfound htoken =>
    have hname : s.renderAtom (.symbol id) = ':' :: name.toList := by
      show (s.symbol id).render = _
      rw [hsymbol]
      rfl
    have hself : (s.symbol id).selfValue.getD (.symbol id) = .symbol id := by
      rw [hsymbol]
      rfl
    exact ⟨_, written_keyword htoken (fun m => (hrender m).trans hname) hfound hself n⟩
  | @symbol id name reserved hsymbol hfound htoken =>
    have hname : s.renderAtom (.symbol id) = name.toList := by
      show (s.symbol id).render = _
      rw [hsymbol]
      rfl
    have hself : (s.symbol id).selfValue.getD (.symbol id) = .symbol id := by
      rw [hsymbol]
      rfl
    exact ⟨_, written_plain htoken (fun m => (hrender m).trans hname) hfound hself rfl n⟩

/-! ## Lists -/

theorem ReadableAtom.not_isCell {v : Value} (h : ReadableAtom s v) : ¬ v.IsCell := by
  rintro ⟨id, rfl⟩
  cases h

/-- The elements of a list that can be read back can be read back on the level below, and its tail
is an atom. -/
theorem Readable.spine {n : Nat} {v : Value} (h : Readable s (n + 1) v) :
    ∃ ids tail, Spine s v ids tail ∧ ReadableAtom s tail ∧
      ∀ id ∈ ids, id.index < s.cells.size ∧ Readable s n (s.car id) := by
  generalize hn : n + 1 = k at h
  induction h with
  | @atom _ v hatom =>
    exact ⟨[], v, .atom hatom.not_isCell, hatom, fun _ hid => absurd hid List.not_mem_nil⟩
  | @cell m id hid hcar _ _ ih =>
    obtain rfl : n = m := Nat.succ.inj hn
    obtain ⟨ids, tail, hspine, htail, hids⟩ := ih hn
    exact ⟨id :: ids, tail, .cell hspine, htail, List.forall_mem_cons.mpr ⟨⟨hid, hcar⟩, hids⟩⟩

/-- The text of a list: its elements, and its tail behind a point. -/
theorem render_spine {id : CellId} {ids : List CellId} {tail : Value}
    (hspine : Spine s (.cons id) ids tail) (m : Nat) :
    s.render (m + 1) (.cons id) = '(' :: (spaced (ids.map fun c => s.render m (s.car c)) ++
      (if tail.isNil then [] else " . ".toList ++ s.render m tail) ++ [')']) := by
  have hunfold : s.render (m + 1) (.cons id) =
      '(' :: (spaced ((s.spine (.cons id)).1.map fun c => s.render m (s.car c)) ++
        (if (s.spine (.cons id)).2.isNil then []
          else " . ".toList ++ s.render m (s.spine (.cons id)).2) ++ [')']) := rfl
  rw [hunfold, hspine.spine_eq]

/-- The elements of a list, as data. -/
theorem exists_data {n : Nat} {ids : List CellId}
    (h : ∀ id ∈ ids, ∃ d, Written s n (s.car id) d) :
    ∃ data, List.Forall₂ (fun id d => Written s n (s.car id) d) ids data := by
  induction ids with
  | nil => exact ⟨[], .nil⟩
  | cons id ids ih =>
    obtain ⟨d, hd⟩ := h id List.mem_cons_self
    obtain ⟨data, hdata⟩ := ih fun id hid => h id (List.mem_cons_of_mem _ hid)
    exact ⟨d :: data, .cons hd hdata⟩

theorem denotes_texts {n levels m : Nat} (hlevels : n ≤ levels) (hm : n ≤ m) {ids : List CellId}
    {data : List Datum} (h : List.Forall₂ (fun id d => Written s n (s.car id) d) ids data) :
    List.Forall₂ (Denotes (levels + 1)) (ids.map fun id => s.render m (s.car id)) data := by
  induction h with
  | nil => exact .nil
  | cons hd _ ih => exact .cons (hd.denotes levels m hlevels hm) ih

/-- A list is written as its elements and its tail are. -/
theorem written_cells {n : Nat} {id : CellId} {ids : List CellId} {tail : Value}
    {data : List Datum} {d : Datum} (hspine : Spine s (.cons id) ids tail)
    (hids : ∀ id ∈ ids, id.index < s.cells.size)
    (hdata : List.Forall₂ (fun id d => Written s n (s.car id) d) ids data)
    (htail : Written s n tail d) : ∃ d, Written s (n + 1) (.cons id) d := by
  have hinterns : List.Forall₂ (fun id d => Interns s (s.car id) d) ids data :=
    hdata.imp fun _ _ hd => hd.interns
  cases hdata with
  | nil => cases hspine with
    | atom hatom => exact absurd (Value.isCell_cons id) hatom
  | @cons head first ids data hfirst hrest =>
    -- one level of the text, of the reader and of the printer at a time
    have hlevel : ∀ {d'}, (∀ levels m, n ≤ levels → n ≤ m →
          Denotes (levels + 2) (s.render (m + 1) (.cons id)) d') →
        ∀ levels m, n + 1 ≤ levels → n + 1 ≤ m →
          Denotes (levels + 1) (s.render m (.cons id)) d' := by
      intro d' h levels m hlevels hm
      obtain ⟨levels, rfl⟩ : ∃ k, levels = k + 1 := ⟨levels - 1, by omega⟩
      obtain ⟨m, rfl⟩ : ∃ k, m = k + 1 := ⟨m - 1, by omega⟩
      exact h levels m (Nat.le_of_succ_le_succ hlevels) (Nat.le_of_succ_le_succ hm)
    cases hnil : tail.isNil with
    | true =>
      obtain rfl := Value.isNil_iff.mp hnil
      refine ⟨_, hlevel fun levels m hlevels hm => ?_, interns_list hspine hids hinterns⟩
      rw [render_spine hspine m, if_pos hnil, List.append_nil]
      exact denotes_list (hfirst.denotes levels m hlevels hm) (denotes_texts hlevels hm hrest)
    | false =>
      have htail' := htail.interns
      refine ⟨_, hlevel fun levels m hlevels hm => ?_, interns_dotted hspine hids hinterns htail'⟩
      rw [render_spine hspine m, if_neg (Bool.eq_false_iff.mp hnil)]
      exact denotes_dotted (hfirst.denotes levels m hlevels hm) (denotes_texts hlevels hm hrest)
        (htail.denotes levels m hlevels hm)

/-- Every value that can be read back is printed as a datum that is interned as the value. -/
theorem Readable.written (hconstants : KnowsConstants s) {n : Nat} {v : Value}
    (h : Readable s n v) : ∃ d, Written s n v d := by
  induction n generalizing v with
  | zero =>
    cases h with
    | atom hatom => exact hatom.written hconstants 0
  | succ n ih =>
    cases h with
    | atom hatom => exact hatom.written hconstants (n + 1)
    | @cell _ id hid hcar hcdr =>
      obtain ⟨ids, tail, hspine, htail, hids⟩ := (Readable.cell hid hcar hcdr).spine
      obtain ⟨data, hdata⟩ := exists_data fun id hid => ih (hids id hid).2
      obtain ⟨d, htail⟩ := htail.written hconstants n
      exact written_cells hspine (fun id hid => (hids id hid).1) hdata htail

/-- The text of a single datum is read as this datum and nothing else. -/
theorem readData_eq {text : List Char} {d : Datum} (h : Denotes 64 text d) :
    readData .standard (String.ofList text) = .ok [d] := by
  have hopening := h.opening [] boundary_nil
  have hread := h.read 0 [] boundary_nil
  rw [List.append_nil] at hopening hread
  have htop : readTop .standard 0 (text.length + 1) [] text = .ok [d] := by
    have hskip : skipSpace ReadOptions.standard.comments text = .ok text := hopening.unskipped
    have hdatum : readDatum ReadOptions.standard.comments ReadOptions.standard.maxDepth 0 text =
        .ok (d, []) := hread
    rw [readTop, hskip]
    split
    next heq => cases heq
    next heq => exact absurd (Except.ok.inj heq) hopening.nonempty
    next heq =>
      rw [← Except.ok.inj heq, hdatum]
      dsimp only
      cases text.length <;> rfl
  unfold readData
  rw [String.toList_ofList]
  dsimp only
  rw [htop]

/-- What is printed for a value can be read: it is a single form, equal to the value. Reading
allocates cells and changes nothing else. -/
theorem read_print {v : Value} (hconstants : KnowsConstants s) (h : Readable s 63 v) :
    ∃ v' s', EvalM.readValues (s.print v) s = .ok [v'] s' ∧ s'.equal v' v = true ∧
      Grown s s' := by
  obtain ⟨d, hwritten⟩ := h.written hconstants
  obtain ⟨v', s', hintern, hgrown, hcopy⟩ := hwritten.interns s (.refl s)
  have hdenotes : Denotes 64 (s.render printLevels v) d :=
    hwritten.denotes 63 printLevels (Nat.le_refl 63) (by decide)
  have htext : (EvalM.readText (s.print v)).Ends s (.ok [d]) s := by
    unfold EvalM.readText Interp.print
    rw [readData_eq hdenotes]
    rfl
  have hall : ([d].mapM Datum.intern).Ends s (.ok [v']) s' := by
    have hfirst : (d.intern).Ends s (.ok v') s' := hintern
    unfold EvalM.Ends
    rw [List.mapM_cons, hfirst.bind_eq]
    rfl
  refine ⟨v', s', ?_, hcopy.equal, hgrown⟩
  unfold EvalM.readValues
  rw [htext.bind_eq]
  exact hall

/-- A list of a keyword, a negative number, a string with escapes, a parenthesis as a character, and
a pair of constants, whose tail is a symbol that starts with a point. -/
theorem read_print_dotted :
    let key : SymbolId := ⟨Interp.systemSymbols.length⟩
    let pointed : SymbolId := ⟨Interp.systemSymbols.length + 1⟩
    let s := { Interp.initial 10 with
      cells := #[⟨.symbol key, .cons ⟨1⟩⟩, ⟨.ofInt64 (-5), .cons ⟨2⟩⟩,
        ⟨.string "a\"\n", .cons ⟨3⟩⟩, ⟨.character '(', .cons ⟨4⟩⟩,
        ⟨.cons ⟨5⟩, .symbol pointed⟩, ⟨.nil, .truth⟩]
      symbols := (Interp.systemSymbols ++
        [Symbol.keywordNamed "K", Symbol.named ".X" false none]).toArray
      namespaces := #[
        ⟨Interp.systemName, Interp.systemTable, Interp.systemTable, false, false, []⟩,
        ⟨Interp.keywordsName, ⟨[("K", key)]⟩, ⟨[("K", key)]⟩, true, true, []⟩,
        ⟨Interp.userName, Interp.systemTable.insert ".X" pointed, .empty, true, false,
          [Interp.systemName]⟩] }
    KnowsConstants s ∧ Readable s 63 (.cons ⟨0⟩) ∧
      s.print (.cons ⟨0⟩) = "(:K -5 \"a\\\"\\n\" #\\( (NIL . T) . .X)" ∧
      ∃ v' s', EvalM.readValues (s.print (.cons ⟨0⟩)) s = .ok [v'] s' ∧
        s'.equal v' (.cons ⟨0⟩) = true ∧ Grown s s' := by
  intro key pointed s
  have hconstants : KnowsConstants s :=
    ⟨⟨.nilSymbol, by decide +kernel, by decide +kernel⟩,
      ⟨.trueSymbol, by decide +kernel, by decide +kernel⟩⟩
  have hkey : ReadableAtom s (.symbol key) :=
    .keyword (by decide +kernel) (by decide +kernel) (by decide +kernel : SymbolToken "K".toList)
  have hsymbol : s.symbol pointed = Symbol.named ".X" false none := by decide +kernel
  have hpointed : ReadableAtom s (.symbol pointed) :=
    .symbol hsymbol (by decide +kernel) (by decide +kernel)
  have hpair : Readable s 62 (.cons ⟨5⟩) := .cell (by decide) (.atom .nil) (.atom .truth)
  have hlist : Readable s 63 (.cons ⟨0⟩) := by
    refine .cell (by decide) (.atom hkey) ?_
    refine .cell (by decide) (.atom (.integer (-5))) ?_
    refine .cell (by decide) (.atom (.string _)) ?_
    refine .cell (by decide) (.atom (.character _)) ?_
    exact .cell (by decide) hpair (.atom hpointed)
  exact ⟨hconstants, hlist, by decide +kernel, read_print hconstants hlist⟩

end SmallLisp
