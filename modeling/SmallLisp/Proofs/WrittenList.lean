import Mathlib.Data.List.Forall2
import SmallLisp.Proofs.Token

/-!
# Data read back as they were written

`Denotes levels text datum` says that a text is read as a datum with this many levels left, whatever
stands behind it, and that it opens a datum wherever a list may end or have a point instead. The
atoms that the printer writes denote themselves, and a list of texts, proper or dotted, denotes the
list of the data with one level more.
-/

namespace SmallLisp

/-- A text is read as a datum, up to the boundary behind it. -/
structure Denotes (levels : Nat) (text : List Char) (datum : Datum) : Prop where
  opening : ∀ rest, Boundary rest → Opening (text ++ rest)
  read : ∀ backquotes rest, Boundary rest →
    readDatum true levels backquotes (text ++ rest) = .ok (datum, rest)

variable {levels : Nat}

/-- A space in front of a datum does not matter. -/
theorem readDatum_space (backquotes : Nat) (cs : List Char) :
    readDatum true levels backquotes (' ' :: cs) = readDatum true levels backquotes cs := by
  cases levels with
  | zero => rfl
  | succ levels => rfl

/-! ## Atoms -/

/-- A token that is no mark of a character is read as a number or a symbol. -/
theorem readDatum_token {token rest : List Char} (htoken : Undelimited token)
    (hcharacter : ¬ ['#', '\\'] <+: token) (hopening : Opening (token ++ rest))
    (hrest : Boundary rest) (hne : token ≠ []) (backquotes : Nat) :
    readDatum true (levels + 1) backquotes (token ++ rest) = readAtom (token ++ rest) := by
  cases token with
  | nil => exact absurd rfl hne
  | cons c token =>
    have hc : isDelimiter c = false := htoken c List.mem_cons_self
    have hmark : ∀ cs, ¬ ('#' :: '\\' :: cs = c :: (token ++ rest)) := by
      intro cs heq
      obtain ⟨rfl, hcs⟩ := List.cons.inj heq
      cases token with
      | nil =>
        rw [List.nil_append] at hcs
        rw [← hcs] at hrest
        cases hrest.isDelimiter
      | cons d token =>
        obtain ⟨rfl, _⟩ := List.cons.inj hcs
        exact hcharacter ⟨token, rfl⟩
    unfold readDatum
    rw [hopening.unskipped]
    -- every other branch starts with a delimiter
    split
    next heq => cases heq
    next heq => cases heq; cases hc
    next heq => cases heq; cases hc
    next heq => cases heq; cases hc
    next heq => cases heq; cases hc
    next heq => cases heq; cases hc
    next cs heq => exact absurd (Except.ok.inj heq).symm (hmark cs)
    next heq => rw [← Except.ok.inj heq]

theorem denotes_token {token : List Char} {datum : Datum} (htoken : Undelimited token)
    (hne : token ≠ []) (hpoint : token ≠ ['.']) (hcharacter : ¬ ['#', '\\'] <+: token)
    (hcomment : ¬ ['#', '|'] <+: token)
    (hread : ∀ rest, Boundary rest → readAtom (token ++ rest) = .ok (datum, rest)) :
    Denotes (levels + 1) token datum := by
  have hopening : ∀ rest, Boundary rest → Opening (token ++ rest) := fun rest hrest =>
    htoken.opening hne hpoint hcomment hrest
  refine ⟨hopening, fun backquotes rest hrest => ?_⟩
  rw [readDatum_token htoken hcharacter (hopening rest hrest) hrest hne]
  exact hread rest hrest

theorem SymbolToken.denotes {name : List Char} (h : SymbolToken name) :
    Denotes (levels + 1) name (.symbol (.plain (String.ofList name))) :=
  denotes_token h.undelimited h.nonempty h.notPoint h.notCharacter h.notComment fun _ hrest =>
    h.readAtom hrest

theorem SymbolToken.denotes_keyword {name : List Char} (h : SymbolToken name) :
    Denotes (levels + 1) (':' :: name) (.symbol (.keyword (String.ofList name))) := by
  refine denotes_token h.undelimited_keyword (List.cons_ne_nil _ _) ?_ ?_ ?_ fun _ hrest =>
    h.readAtom_keyword hrest
  · rintro ⟨⟩
  · rintro ⟨_, ⟨⟩⟩
  · rintro ⟨_, ⟨⟩⟩

theorem denotes_renderInt (n : Int64) :
    Denotes (levels + 1) (Number.renderInt n.toInt) (.number (.int n)) := by
  have hhead : ∀ cs, ¬ '#' :: cs <+: Number.renderInt n.toInt := by
    rintro cs ⟨rest, heq⟩
    have hvalue := integer?_renderInt n.toInt
    rw [← heq] at hvalue
    cases hvalue
  refine denotes_token (undelimited_renderInt _) (renderInt_ne_nil _) ?_ (hhead _) (hhead _)
    fun _ hrest => readAtom_renderInt n hrest
  intro hpoint
  have hvalue := integer?_renderInt n.toInt
  rw [hpoint] at hvalue
  cases hvalue

theorem denotes_renderString (t : String) :
    Denotes (levels + 1) (renderString t) (.string t) := by
  refine ⟨fun rest _ => ⟨rfl, nofun, nofun, rfl⟩, fun backquotes rest _ => ?_⟩
  have hbody := readString_flatMap t.toList [] rest
  rw [List.reverse_nil, List.nil_append, String.ofList_toList] at hbody
  have htext :
      renderString t ++ rest = '"' :: (t.toList.flatMap escapeInString ++ '"' :: rest) := by
    unfold renderString
    rw [List.cons_append, List.append_assoc]
    rfl
  rw [htext, ← hbody]
  rfl

theorem denotes_renderCharacter (c : Char) :
    Denotes (levels + 1) (renderCharacter c) (.character c) := by
  refine ⟨fun rest _ => ⟨rfl, nofun, nofun, rfl⟩, fun backquotes rest hrest => ?_⟩
  rw [← readCharacter_render c hrest]
  rfl

/-! ## Lists -/

/-- Texts after the first one, each behind a space. -/
theorem spaced_cons (text : List Char) (texts : List (List Char)) :
    spaced (text :: texts) = text ++ texts.flatMap (' ' :: ·) := by
  induction texts generalizing text with
  | nil => simp [spaced, List.intercalate]
  | cons next texts ih =>
    have hstep : spaced (text :: next :: texts) = text ++ ' ' :: spaced (next :: texts) := by
      simp [spaced, List.intercalate]
    rw [hstep, ih, List.flatMap_cons]
    rfl

theorem length_le_flatMap (texts : List (List Char)) :
    texts.length ≤ (texts.flatMap (' ' :: ·)).length := by
  induction texts with
  | nil => exact Nat.zero_le _
  | cons text texts ih =>
    rw [List.flatMap_cons, List.length_append, List.length_cons, List.length_cons]
    omega

section Items

variable {backquotes : Nat}

theorem readItems_space (n : Nat) (seen : List Datum) (cs : List Char) :
    readItems true (readDatum true levels backquotes) n seen (' ' :: cs) =
      readItems true (readDatum true levels backquotes) n seen cs := by
  cases n with
  | zero => rfl
  | succ n => rfl

theorem readItems_close (n : Nat) (seen : List Datum) (cs : List Char) :
    readItems true (readDatum true levels backquotes) (n + 1) seen (')' :: cs) =
      .ok (.list seen.reverse, cs) :=
  rfl

/-- An item is read, and the rest of the list after it. -/
theorem readItems_item {text rest : List Char} {datum : Datum} (h : Denotes levels text datum)
    (hrest : Boundary rest) (n : Nat) (seen : List Datum) :
    readItems true (readDatum true levels backquotes) (n + 1) seen (text ++ rest) =
      readItems true (readDatum true levels backquotes) n (datum :: seen) rest := by
  have hopening := h.opening rest hrest
  have hread := h.read backquotes rest hrest
  generalize text ++ rest = cs at hopening hread
  rw [readItems, hopening.unskipped]
  split
  next heq => cases heq
  next heq => exact absurd (Except.ok.inj heq) hopening.nonempty
  next heq =>
    have hhead := hopening.unclosed
    rw [Except.ok.inj heq] at hhead
    exact absurd rfl hhead
  next heq =>
    rw [← Except.ok.inj heq, hopening.unpointed]
    dsimp only
    rw [hread]

/-- Items behind spaces are read one after the other. -/
theorem readItems_items {texts : List (List Char)} {data : List Datum}
    (h : List.Forall₂ (Denotes levels) texts data) {rest : List Char} (hrest : Boundary rest)
    (n : Nat) (seen : List Datum) :
    readItems true (readDatum true levels backquotes) (texts.length + n) seen
        (texts.flatMap (' ' :: ·) ++ rest) =
      readItems true (readDatum true levels backquotes) n (data.reverse ++ seen) rest := by
  induction h generalizing seen with
  | nil => rw [List.length_nil, Nat.zero_add]; rfl
  | @cons text datum texts data htext _ ih =>
    have hbehind : Boundary (texts.flatMap (' ' :: ·) ++ rest) := by
      cases texts with
      | nil => exact hrest
      | cons next texts => exact boundary_cons (by decide) _
    have hlength : (text :: texts).length + n = (texts.length + n) + 1 := by
      rw [List.length_cons]
      omega
    rw [hlength, List.flatMap_cons, List.append_assoc, List.cons_append, readItems_space,
      readItems_item htext hbehind, ih, List.reverse_cons, List.append_assoc]
    rfl

/-- The tail behind a point is read, and the closing parenthesis behind it. -/
theorem readItems_tail {text : List Char} {datum : Datum} (h : Denotes levels text datum)
    (n : Nat) {seen : List Datum} (hseen : seen ≠ []) (rest : List Char) :
    readItems true (readDatum true levels backquotes) (n + 1) seen
        (" . ".toList ++ (text ++ ')' :: rest)) =
      .ok (.dotted seen.reverse datum, rest) := by
  have hread := h.read backquotes (')' :: rest) (boundary_cons (by decide) rest)
  have hempty : ¬ seen.isEmpty = true := by simp [hseen]
  have hpoint : readItems true (readDatum true levels backquotes) (n + 1) seen
      (" . ".toList ++ (text ++ ')' :: rest)) =
      if seen.isEmpty then .error (.malformed ('.' :: ' ' :: (text ++ ')' :: rest)))
      else readTail true (readDatum true levels backquotes) seen.reverse
        (' ' :: (text ++ ')' :: rest)) := rfl
  rw [hpoint, if_neg hempty]
  unfold readTail
  rw [readDatum_space, hread]
  rfl

end Items

variable {text : List Char} {texts : List (List Char)} {datum : Datum} {data : List Datum}

/-- A list of texts between parentheses, with something in front of the closing one. -/
theorem readDatum_list (hfirst : Denotes levels text datum)
    (hrest : List.Forall₂ (Denotes levels) texts data) (backquotes : Nat) {behind : List Char}
    (hbehind : Boundary behind) (hne : behind ≠ []) :
    ∃ n, readDatum true (levels + 1) backquotes ('(' :: (spaced (text :: texts) ++ behind)) =
      readItems true (readDatum true levels backquotes) (n + 1) (data.reverse ++ [datum])
        behind := by
  have hcount := length_le_flatMap texts
  have hitems : Boundary (texts.flatMap (' ' :: ·) ++ behind) := by
    cases texts with
    | nil => exact hbehind
    | cons next texts => exact boundary_cons (by decide) _
  have hlength : 0 < behind.length := List.length_pos_iff.mpr hne
  -- the text is longer than the number of its items, so the fuel for them does not run out
  obtain ⟨n, hn⟩ : ∃ n, (spaced (text :: texts) ++ behind).length = texts.length + (n + 1) := by
    refine ⟨(spaced (text :: texts) ++ behind).length - texts.length - 1, ?_⟩
    rw [spaced_cons, List.length_append, List.length_append]
    omega
  refine ⟨n, ?_⟩
  have hopen : readDatum true (levels + 1) backquotes ('(' :: (spaced (text :: texts) ++ behind)) =
      readItems true (readDatum true levels backquotes)
        ((spaced (text :: texts) ++ behind).length + 1) [] (spaced (text :: texts) ++ behind) := rfl
  rw [hopen, hn, spaced_cons, List.append_assoc, readItems_item hfirst hitems,
    readItems_items hrest hbehind]

theorem denotes_list (hfirst : Denotes levels text datum)
    (hrest : List.Forall₂ (Denotes levels) texts data) :
    Denotes (levels + 1) ('(' :: (spaced (text :: texts) ++ [')'])) (.list (datum :: data)) := by
  refine ⟨fun rest _ => ⟨rfl, nofun, nofun, rfl⟩, fun backquotes rest _ => ?_⟩
  have hclose : Boundary (')' :: rest) := boundary_cons (by decide) rest
  obtain ⟨n, hn⟩ := readDatum_list hfirst hrest backquotes hclose (List.cons_ne_nil _ _)
  rw [List.cons_append, List.append_assoc, List.singleton_append, hn, readItems_close,
    List.reverse_append, List.reverse_reverse]
  rfl

theorem denotes_dotted (hfirst : Denotes levels text datum)
    (hrest : List.Forall₂ (Denotes levels) texts data) {tailText : List Char} {tail : Datum}
    (htail : Denotes levels tailText tail) :
    Denotes (levels + 1)
      ('(' :: (spaced (text :: texts) ++ (" . ".toList ++ tailText) ++ [')']))
      (.dotted (datum :: data) tail) := by
  refine ⟨fun rest _ => ⟨rfl, nofun, nofun, rfl⟩, fun backquotes rest _ => ?_⟩
  have hpoint : Boundary (" . ".toList ++ (tailText ++ ')' :: rest)) :=
    boundary_cons (by decide) _
  obtain ⟨n, hn⟩ := readDatum_list hfirst hrest backquotes hpoint (List.cons_ne_nil _ _)
  have hseen : data.reverse ++ [datum] ≠ [] := List.append_ne_nil_of_right_ne_nil _ (by simp)
  rw [List.cons_append, List.append_assoc, List.append_assoc, List.append_assoc,
    List.singleton_append, hn, readItems_tail htail n hseen, List.reverse_append,
    List.reverse_reverse]
  rfl

end SmallLisp
