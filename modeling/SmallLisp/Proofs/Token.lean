import SmallLisp.Datum.Reader
import SmallLisp.Printer

/-!
# Tokens read back as they were written

What the printer writes for an atom, followed by a delimiter or by nothing, is read as that atom,
and reading stops where the text of the atom ends. Each kind of atom has a lemma here; how lists are
put together from the texts of their elements is left to `SmallLisp.Proofs.WrittenList`.
-/

namespace SmallLisp

/-- Where a token ends: at the end of the text, or before a delimiter. -/
def Boundary (rest : List Char) : Prop := tokenOf rest = []

theorem boundary_nil : Boundary [] := rfl

theorem boundary_cons {c : Char} (hc : isDelimiter c = true) (rest : List Char) :
    Boundary (c :: rest) := by
  unfold Boundary tokenOf
  rw [List.takeWhile_cons_of_neg]
  rw [hc]
  exact Bool.false_ne_true

theorem Boundary.isDelimiter {c : Char} {rest : List Char} (h : Boundary (c :: rest)) :
    isDelimiter c = true := by
  cases hc : SmallLisp.isDelimiter c with
  | true => rfl
  | false =>
    unfold Boundary tokenOf at h
    rw [List.takeWhile_cons, hc] at h
    cases h

theorem Boundary.afterToken {rest : List Char} (h : Boundary rest) : afterToken rest = rest := by
  have hsplit : tokenOf rest ++ SmallLisp.afterToken rest = rest := List.takeWhile_append_dropWhile
  rw [h, List.nil_append] at hsplit
  exact hsplit

/-- No character of a text ends a token. -/
def Undelimited (token : List Char) : Prop := ∀ c ∈ token, isDelimiter c = false

/-- Only the characters of the text are looked at: the instance for a statement about all
characters would run through every one there is. -/
instance (token : List Char) : Decidable (Undelimited token) :=
  List.decidableBAll (fun c => isDelimiter c = false) token

theorem Undelimited.tokenOf_append {token rest : List Char} (h : Undelimited token)
    (hrest : Boundary rest) : tokenOf (token ++ rest) = token := by
  have hall : ∀ c ∈ token, (!isDelimiter c) = true := by
    intro c hc
    rw [h c hc]
    rfl
  have hsplit : tokenOf (token ++ rest) = token ++ tokenOf rest :=
    List.takeWhile_append_of_pos hall
  rw [hsplit, hrest, List.append_nil]

theorem Undelimited.afterToken_append {token rest : List Char} (h : Undelimited token)
    (hrest : Boundary rest) : afterToken (token ++ rest) = rest := by
  have hall : ∀ c ∈ token, (!isDelimiter c) = true := by
    intro c hc
    rw [h c hc]
    rfl
  have hsplit : afterToken (token ++ rest) = afterToken rest := List.dropWhile_append_of_pos hall
  rw [hsplit, hrest.afterToken]

/-! ## Integers -/

theorem naturalOf_toDigits (n : Nat) : naturalOf (Nat.toDigits 10 n) = n := by
  have hfold : naturalOf (Nat.toDigits 10 n) = Nat.ofDigitChars 10 (Nat.toDigits 10 n) 0 :=
    Nat.ofDigitChars_eq_foldl.symm
  rw [hfold, Nat.ofDigitChars_ten_toDigits]

theorem isDigit_of_mem_toDigits {n : Nat} {c : Char} (hc : c ∈ Nat.toDigits 10 n) :
    c.isDigit = true :=
  Nat.isDigit_of_mem_toDigits (by decide) (by decide) hc

/-- Digits carry no sign. -/
theorem splitSign_toDigits (n : Nat) :
    splitSign (Nat.toDigits 10 n) = (false, Nat.toDigits 10 n) := by
  cases hdigits : Nat.toDigits 10 n with
  | nil => rfl
  | cons c rest =>
    have hc : c.isDigit = true := by
      refine isDigit_of_mem_toDigits (n := n) ?_
      rw [hdigits]
      exact List.mem_cons_self
    unfold splitSign
    split
    next heq =>
      cases heq
      cases hc
    next heq =>
      cases heq
      cases hc
    next => rfl

/-- The decimal text of an integer denotes it. -/
theorem integer?_renderInt (n : Int) : integer? (Number.renderInt n) = some n := by
  have hdigits : (!(Nat.toDigits 10 n.natAbs).isEmpty &&
      (Nat.toDigits 10 n.natAbs).all Char.isDigit) = true := by
    rw [Bool.and_eq_true, List.all_eq_true]
    refine ⟨?_, fun c hc => isDigit_of_mem_toDigits hc⟩
    have hne : Nat.toDigits 10 n.natAbs ≠ [] := Nat.toDigits_ne_nil
    simp [hne]
  unfold Number.renderInt
  by_cases hneg : n < 0
  · rw [if_pos hneg]
    have hsign : splitSign ('-' :: Nat.toDigits 10 n.natAbs) =
        (true, Nat.toDigits 10 n.natAbs) := rfl
    unfold integer?
    rw [hsign]
    dsimp only
    rw [if_pos hdigits, naturalOf_toDigits]
    have hvalue : signed true n.natAbs = n := by
      unfold signed
      rw [if_pos rfl]
      omega
    rw [hvalue]
  · rw [if_neg hneg]
    unfold integer?
    rw [splitSign_toDigits]
    dsimp only
    rw [if_pos hdigits, naturalOf_toDigits]
    have hvalue : signed false n.natAbs = n := by
      unfold signed
      rw [if_neg Bool.false_ne_true]
      omega
    rw [hvalue]

theorem renderInt_ne_nil (n : Int) : Number.renderInt n ≠ [] := by
  unfold Number.renderInt
  split
  · exact List.cons_ne_nil _ _
  · exact Nat.toDigits_ne_nil

theorem not_isDelimiter_of_isDigit {c : Char} (hc : c.isDigit = true) : isDelimiter c = false := by
  have hall : ∀ d, d < 10 → isDelimiter (Nat.digitChar d) = false := by decide
  have hrange : 48 ≤ c.toNat ∧ c.toNat ≤ 57 := Char.isDigit_iff_toNat.mp hc
  have hdigit : Nat.digitChar (c.toNat - 48) = c := by
    apply Char.toNat_inj.mp
    rw [Nat.toNat_digitChar_of_lt_ten (by omega)]
    omega
  rw [← hdigit]
  exact hall _ (by omega)

theorem undelimited_renderInt (n : Int) : Undelimited (Number.renderInt n) := by
  have hdigits : ∀ c ∈ Nat.toDigits 10 n.natAbs, isDelimiter c = false := fun c hc =>
    not_isDelimiter_of_isDigit (isDigit_of_mem_toDigits hc)
  unfold Number.renderInt
  split
  · intro c hc
    rcases List.mem_cons.mp hc with rfl | hc
    · decide
    · exact hdigits c hc
  · exact hdigits

/-! ## Strings and characters -/

/-- An escaped character, or one that needs no escape, is read as the character. -/
theorem readString_escapeInString (seen : List Char) (c : Char) (cs : List Char) :
    readString seen (escapeInString c ++ cs) = readString (c :: seen) cs := by
  unfold escapeInString
  split
  next h => subst h; rfl
  split
  next h => subst h; rfl
  split
  next h => subst h; rfl
  split
  next h => subst h; rfl
  split
  next h => subst h; rfl
  next hquote hslash _ _ _ =>
    show readString seen (c :: cs) = readString (c :: seen) cs
    rw [readString]
    · exact hquote
    · rintro rfl
      exact absurd rfl hslash
    · rintro d rest rfl
      exact absurd rfl hslash

theorem readString_flatMap (t seen rest : List Char) :
    readString seen (t.flatMap escapeInString ++ '"' :: rest) =
      .ok (.string (String.ofList (seen.reverse ++ t)), rest) := by
  induction t generalizing seen with
  | nil =>
    rw [List.append_nil]
    rfl
  | cons c t ih =>
    rw [List.flatMap_cons, List.append_assoc, readString_escapeInString, ih, List.reverse_cons,
      List.append_assoc]
    rfl

/-- The names of characters are tokens of several characters. -/
theorem characterNames_tokens :
    ∀ e ∈ Text.characterNames, Undelimited e.2.toList ∧ 2 ≤ e.2.toList.length := by
  decide

theorem mem_characterNames {c : Char} {name : String} (h : Text.characterName? c = some name) :
    (c, name) ∈ Text.characterNames := by
  obtain ⟨before, after, hsplit, _⟩ := List.lookup_eq_some_iff.mp h
  rw [hsplit]
  exact List.mem_append_right before List.mem_cons_self

theorem readCharacter_render (c : Char) {rest : List Char} (hrest : Boundary rest) :
    readCharacter ((Text.characterName? c).elim [c] String.toList ++ rest) =
      .ok (.character c, rest) := by
  cases hname : Text.characterName? c with
  | none =>
    show readCharacter (c :: rest) = _
    unfold readCharacter
    by_cases hc : isDelimiter c = true
    · have htoken : tokenOf (c :: rest) = [] := boundary_cons hc rest
      rw [htoken]
    · have hc' : isDelimiter c = false := Bool.eq_false_iff.mpr hc
      have hsingle : Undelimited [c] := List.forall_mem_singleton.mpr hc'
      have htoken : tokenOf (c :: rest) = [c] := hsingle.tokenOf_append hrest
      have hafter : afterToken (c :: rest) = rest := hsingle.afterToken_append hrest
      rw [htoken]
      dsimp only
      rw [hafter]
  | some name =>
    obtain ⟨htoken, hlength⟩ := characterNames_tokens _ (mem_characterNames hname)
    have hvalue := Text.characterNamed?_of_characterName? hname
    show readCharacter (name.toList ++ rest) = _
    unfold readCharacter
    rw [htoken.tokenOf_append hrest, htoken.afterToken_append hrest]
    generalize name.toList = token at hlength hvalue
    match token with
    | [] => cases hlength
    | [_] => exact absurd hlength (Nat.not_succ_le_self 1)
    | c₁ :: c₂ :: token =>
      dsimp only
      rw [hvalue]

/-! ## Symbols -/

/-- A name that is written as a token, which is read as the symbol of this name. -/
structure SymbolToken (name : List Char) : Prop where
  nonempty : name ≠ []
  undelimited : Undelimited name
  uncoloned : ':' ∉ name
  notInteger : integer? name = none
  notFloat : float? name = none
  notPoint : name ≠ ['.']
  notCharacter : ¬ ['#', '\\'] <+: name
  notComment : ¬ ['#', '|'] <+: name
  upper : Text.upperChars name = name

instance : DecidablePred SymbolToken := fun name =>
  decidable_of_iff (name ≠ [] ∧ Undelimited name ∧ ':' ∉ name ∧ integer? name = none ∧
      (float? name).isNone = true ∧ name ≠ ['.'] ∧ ¬ ['#', '\\'] <+: name ∧
      ¬ ['#', '|'] <+: name ∧ Text.upperChars name = name) <| by
    constructor
    · rintro ⟨h₁, h₂, h₃, h₄, h₅, h₆, h₇, h₈, h₉⟩
      exact ⟨h₁, h₂, h₃, h₄, Option.isNone_iff_eq_none.mp h₅, h₆, h₇, h₈, h₉⟩
    · rintro ⟨h₁, h₂, h₃, h₄, h₅, h₆, h₇, h₈, h₉⟩
      exact ⟨h₁, h₂, h₃, h₄, Option.isNone_iff_eq_none.mpr h₅, h₆, h₇, h₈, h₉⟩

theorem splitColon_eq_none {cs : List Char} (h : ':' ∉ cs) : splitColon cs = none := by
  induction cs with
  | nil => rfl
  | cons c cs ih =>
    have hc : c ≠ ':' := fun heq => h (heq ▸ List.mem_cons_self)
    have hcs : ':' ∉ cs := fun hmem => h (List.mem_cons_of_mem c hmem)
    rw [splitColon, ih hcs]
    · rfl
    · exact hc

theorem splitColons_eq_none {cs : List Char} (h : ':' ∉ cs) : splitColons cs = none := by
  induction cs with
  | nil => rfl
  | cons c cs ih =>
    have hc : c ≠ ':' := fun heq => h (heq ▸ List.mem_cons_self)
    have hcs : ':' ∉ cs := fun hmem => h (List.mem_cons_of_mem c hmem)
    rw [splitColons, ih hcs]
    · rfl
    · exact fun rest heq => absurd heq hc

theorem SymbolToken.symbolName? {name : List Char} (h : SymbolToken name) :
    symbolName? name = some (.plain (String.ofList name)) := by
  unfold SmallLisp.symbolName?
  split
  next rest => exact absurd List.mem_cons_self h.uncoloned
  next => rw [splitColons_eq_none h.uncoloned, splitColon_eq_none h.uncoloned]

theorem SymbolToken.symbolName?_keyword {name : List Char} (h : SymbolToken name) :
    SmallLisp.symbolName? (':' :: name) = some (.keyword (String.ofList name)) := by
  have hname : (!name.isEmpty && !name.contains ':') = true := by
    simp [h.nonempty, h.uncoloned]
  show (if (!name.isEmpty && !name.contains ':') = true then
    some (SymbolName.keyword (String.ofList name)) else none) = _
  rw [if_pos hname]

theorem readAtom_token {token rest : List Char} (htoken : Undelimited token) (hne : token ≠ [])
    (hinteger : integer? token = none) (hfloat : float? token = none) (hpoint : token ≠ ['.'])
    {name : SymbolName} (hname : symbolName? (Text.upperChars token) = some name)
    (hrest : Boundary rest) : readAtom (token ++ rest) = .ok (.symbol name, rest) := by
  have hempty : ¬ token.isEmpty = true := by simp [hne]
  have hpoint' : ¬ (token == ['.']) = true := by simp [hpoint]
  unfold readAtom
  rw [htoken.tokenOf_append hrest, htoken.afterToken_append hrest]
  dsimp only
  rw [if_neg hempty, hinteger]
  dsimp only
  rw [hfloat]
  dsimp only
  rw [if_neg hpoint', hname]

theorem SymbolToken.readAtom {name rest : List Char} (h : SymbolToken name)
    (hrest : Boundary rest) :
    readAtom (name ++ rest) = .ok (.symbol (.plain (String.ofList name)), rest) := by
  refine readAtom_token h.undelimited h.nonempty h.notInteger h.notFloat h.notPoint ?_ hrest
  rw [h.upper]
  exact h.symbolName?

theorem SymbolToken.undelimited_keyword {name : List Char} (h : SymbolToken name) :
    Undelimited (':' :: name) :=
  List.forall_mem_cons.mpr ⟨by decide, h.undelimited⟩

/-- A colon starts no number. -/
theorem integer?_colon (cs : List Char) : integer? (':' :: cs) = none := rfl

theorem float?_colon (cs : List Char) : float? (':' :: cs) = none := rfl

theorem SymbolToken.readAtom_keyword {name rest : List Char} (h : SymbolToken name)
    (hrest : Boundary rest) :
    SmallLisp.readAtom (':' :: name ++ rest) =
      .ok (.symbol (.keyword (String.ofList name)), rest) := by
  refine readAtom_token h.undelimited_keyword (List.cons_ne_nil _ _) (integer?_colon name)
    (float?_colon name) ?_ ?_ hrest
  · rintro ⟨⟩
  · have hcolon : Text.upperChars [':'] = [':'] := by decide +kernel
    have hsplit : Text.upperChars (':' :: name) = Text.upperChars [':'] ++ Text.upperChars name :=
      Text.upperChars_append [':'] name
    rw [hsplit, hcolon, h.upper]
    exact h.symbolName?_keyword

theorem fits_toInt (n : Int64) : Number.fits n.toInt = true := by
  have hlow := n.minValue_le_toInt
  have hhigh := n.toInt_le
  unfold Number.fits
  rw [Bool.and_eq_true, decide_eq_true_eq, decide_eq_true_eq]
  exact ⟨hlow, hhigh⟩

theorem readAtom_renderInt (n : Int64) {rest : List Char} (hrest : Boundary rest) :
    readAtom (Number.renderInt n.toInt ++ rest) = .ok (.number (.int n), rest) := by
  have htoken := undelimited_renderInt n.toInt
  have hempty : ¬ (Number.renderInt n.toInt).isEmpty = true := by simp [renderInt_ne_nil]
  unfold readAtom
  rw [htoken.tokenOf_append hrest, htoken.afterToken_append hrest]
  dsimp only
  rw [if_neg hempty, integer?_renderInt]
  dsimp only
  rw [if_pos (fits_toInt n), Int64.ofInt_toInt]

/-! ## Where a datum starts -/

/-- A datum starts here: there is nothing to skip, and what follows is neither the end of a list nor
a point in front of a tail. -/
structure Opening (cs : List Char) : Prop where
  unskipped : skipSpace true cs = .ok cs
  nonempty : cs ≠ []
  unclosed : cs.head? ≠ some ')'
  unpointed : afterLonePoint? cs = none

theorem skipSpace_eq_self {c : Char} {cs : List Char} (hblank : Text.isSkipped c = false)
    (hline : c ≠ ';') (hblock : c = '#' → ∀ rest, cs ≠ '|' :: rest) :
    skipSpace true (c :: cs) = .ok (c :: cs) := by
  have hline' : ¬ (true && c == ';') = true := by simp [hline]
  unfold skipSpace
  rw [skipGap, if_neg (Bool.eq_false_iff.mp hblank), if_neg hline']
  intro rest hc hcs
  exact hblock hc rest hcs

theorem isDelimiter_of_isSkipped {c : Char} (h : Text.isSkipped c = true) :
    isDelimiter c = true := by
  unfold isDelimiter
  rw [Text.isBlank_of_isSkipped h]
  rfl

/-- A token opens a datum, unless it is a single point or opens a comment. -/
theorem Undelimited.opening {token rest : List Char} (h : Undelimited token) (hne : token ≠ [])
    (hpoint : token ≠ ['.']) (hcomment : ¬ ['#', '|'] <+: token) (hrest : Boundary rest) :
    Opening (token ++ rest) := by
  cases token with
  | nil => exact absurd rfl hne
  | cons c token =>
    have hc : isDelimiter c = false := h c List.mem_cons_self
    -- what follows the first character is in the token, or it is a delimiter
    have hnext : ∀ d cs, token ++ rest = d :: cs →
        isDelimiter d = true ∨ ∃ token', token = d :: token' := by
      intro d cs heq
      cases token with
      | nil =>
        rw [List.nil_append] at heq
        rw [heq] at hrest
        exact .inl hrest.isDelimiter
      | cons e token =>
        obtain ⟨rfl, _⟩ := List.cons.inj heq
        exact .inr ⟨token, rfl⟩
    constructor
    · refine skipSpace_eq_self ?_ ?_ ?_
      · exact Bool.eq_false_iff.mpr fun hskip =>
          Bool.eq_false_iff.mp hc (isDelimiter_of_isSkipped hskip)
      · rintro rfl
        cases hc
      · rintro rfl cs heq
        rcases hnext '|' cs heq with hbar | ⟨token', rfl⟩
        · cases hbar
        · exact hcomment ⟨token', rfl⟩
    · exact List.cons_ne_nil _ _
    · intro hclose
      obtain rfl : c = ')' := Option.some.inj hclose
      cases hc
    · show afterLonePoint? (c :: (token ++ rest)) = none
      unfold afterLonePoint?
      split
      next heq =>
        -- a point at the end of the text would be the whole token
        obtain ⟨rfl, hend⟩ := List.cons.inj heq
        obtain ⟨rfl, _⟩ := List.append_eq_nil_iff.mp hend
        exact absurd rfl hpoint
      next d cs heq =>
        obtain ⟨rfl, hcs⟩ := List.cons.inj heq
        cases token with
        | nil => exact absurd rfl hpoint
        | cons e token =>
          obtain ⟨rfl, _⟩ := List.cons.inj hcs
          have he : ¬ isDelimiter e = true := by
            rw [h e (List.mem_cons_of_mem _ List.mem_cons_self)]
            exact Bool.false_ne_true
          rw [if_neg he]
      next => rfl

end SmallLisp
