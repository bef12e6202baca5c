import SmallLisp.Proofs.ReadingRules
import SmallLisp.Proofs.Regions

/-!
# Blanks between tokens

Which blanks stand between tokens does not matter to the reader, as long as they are skipped: the
text with others in their place gives the same data. A blank that is no skipped character ends a
token too, but then it starts none, so a text with such a blank between tokens is not read at all.
`Spaced` says both of a reader; every way to build a reader keeps it.
-/

namespace SmallLisp

variable {comments : Bool} {cs cs' rest : List Char} {datum : Datum}

/-- What the first reader makes of a text the second one makes of the text with other blanks, and
the first one passes no blank that cannot be skipped. -/
structure Spaced (comments : Bool) (reader reader' : DatumReader) : Prop where
  follows : ∀ {cs cs' datum rest}, reader cs = .ok (datum, rest) →
    Reblanked comments .gap cs cs' →
      ∃ rest', reader' cs' = .ok (datum, rest') ∧ Reblanked comments .gap rest rest'
  clear : ∀ {cs datum rest}, reader cs = .ok (datum, rest) → Clear comments .gap rest →
    Clear comments .gap cs

theorem skipSpace_reblanked (h : skipSpace comments cs = .ok rest)
    (hcs : Reblanked comments .gap cs cs') :
    ∃ rest', skipSpace comments cs' = .ok rest' ∧ Reblanked comments .gap rest rest' :=
  skipGap_reblanked h hcs

theorem skipSpace_clear (h : skipSpace comments cs = .ok rest) (hrest : Clear comments .gap rest) :
    Clear comments .gap cs :=
  skipGap_clear h hrest

/-! ## What starts a datum -/

/-- The starts of two texts that differ in blanks. -/
inductive Lead.Alike (comments : Bool) : Lead → Lead → Prop
  | mark (kind : QuoteKind) {rest rest' : List Char} (h : Reblanked comments .gap rest rest') :
      Alike comments (.mark kind rest) (.mark kind rest')
  | list {rest rest' : List Char} (h : Reblanked comments .gap rest rest') :
      Alike comments (.list rest) (.list rest')
  | string {rest rest' : List Char} (h : Reblanked comments .string rest rest') :
      Alike comments (.string rest) (.string rest')
  | character {rest rest' : List Char} (h : Reblanked comments .mark rest rest') :
      Alike comments (.character rest) (.character rest')
  | atom : Alike comments .atom .atom

/-- A comma that is no part of a mark of two characters is like any other mark. -/
theorem agree_comma (hsplice : ∀ t, rest = '@' :: t → False) :
    Region.Agree comments .comma .gap rest := by
  refine ⟨rfl, fun c t hrest => if_neg ?_⟩
  rintro rfl
  exact hsplice t hrest

theorem lead_reblanked (hcs : Reblanked comments .gap cs cs') :
    Lead.Alike comments (lead cs) (lead cs') := by
  fun_cases lead cs with
  | case1 rest =>
    obtain ⟨rest', rfl, hrest⟩ := hcs.cons rfl
    exact .mark .quote hrest
  | case2 rest =>
    obtain ⟨rest', rfl, hrest⟩ := hcs.cons rfl
    exact .mark .backquote hrest
  | case3 rest =>
    obtain ⟨_, rfl, hat⟩ := hcs.cons rfl
    obtain ⟨rest', rfl, hrest⟩ := hat.cons rfl
    exact .mark .splice hrest
  | case4 rest hsplice =>
    obtain ⟨rest', rfl, hrest⟩ := hcs.cons rfl
    have hlead : lead (',' :: rest') = .mark .unquote rest' := by
      rw [lead]
      exact hrest.ne_cons rfl hsplice
    rw [hlead]
    exact .mark .unquote (hrest.agree (agree_comma hsplice))
  | case5 rest =>
    obtain ⟨rest', rfl, hrest⟩ := hcs.cons rfl
    exact .list hrest
  | case6 rest =>
    obtain ⟨rest', rfl, hrest⟩ := hcs.cons rfl
    exact .string hrest
  | case7 rest =>
    obtain ⟨_, rfl, hslash⟩ := hcs.cons rfl
    obtain ⟨rest', rfl, hrest⟩ := hslash.cons rfl
    exact .character hrest
  | case8 _ hquote hbackquote _ hcomma hlist hstring hcharacter =>
    have hcharacter' (r : List Char) : cs' ≠ '#' :: '\\' :: r := by
      rintro rfl
      obtain ⟨_, rfl, hslash⟩ := hcs.symm.cons rfl
      obtain ⟨t, rfl, -⟩ := hslash.cons rfl
      exact hcharacter t rfl
    rw [lead_eq_atom (hcs.ne_cons rfl hquote) (hcs.ne_cons rfl hbackquote)
      (hcs.ne_cons rfl hcomma) (hcs.ne_cons rfl hlist) (hcs.ne_cons rfl hstring) hcharacter']
    exact .atom

/-- What is left behind the start of a datum is clear. An atom is no start in front of it. -/
def Lead.Clear (comments : Bool) : Lead → Prop
  | .mark _ rest | .list rest => SmallLisp.Clear comments .gap rest
  | .string rest => SmallLisp.Clear comments .string rest
  | .character rest => SmallLisp.Clear comments .mark rest
  | .atom => False

theorem Lead.Clear.text (h : (lead cs).Clear comments) : SmallLisp.Clear comments .gap cs := by
  revert h
  fun_cases lead cs with
  | case1 rest | case2 rest | case5 rest | case6 rest => exact fun h => .cons rfl h
  | case3 rest | case7 rest => exact fun h => .cons rfl (.cons rfl h)
  | case4 rest hsplice =>
    intro h
    have hrest : SmallLisp.Clear comments .gap rest := h
    exact .cons rfl (hrest.agree (agree_comma hsplice).symm)
  | case8 => exact False.elim

/-- A number sign in front of an atom opens neither a character nor a comment. -/
theorem starts_atom (hlead : lead cs = .atom) (hskip : skipSpace comments cs = .ok cs) :
    Region.Starts comments .gap cs := by
  rintro c t rfl hc
  by_cases hhash : c = '#'
  · subst hhash
    refine ⟨rfl, ?_⟩
    rintro d t rfl
    have hslash : d ≠ '\\' := by
      rintro rfl
      cases hlead
    have hblock : ¬ (d == '|' && comments) = true := by
      intro hblock
      obtain ⟨hbar, rfl⟩ := Bool.and_eq_true_iff.mp hblock
      obtain rfl := beq_iff_eq.mp hbar
      have hinside : skipGap true .block t = .ok ('#' :: '|' :: t) := hskip
      exact absurd hinside (skipGap_ne_longer (Nat.lt_succ_of_lt (Nat.lt_succ_self _)))
    show Region.next comments .hash d = _
    rw [Region.next, if_neg hslash, if_neg hblock]
    rfl
  · rw [Region.next, Region.opened_token hc hhash]
    exact ⟨rfl, fun _ _ _ => rfl⟩

/-! ## Marks and lists -/

namespace Spaced

variable {reader reader' : DatumReader}

theorem refused (stuck : Stuck) (reader' : DatumReader) :
    Spaced comments (fun _ => .error stuck) reader' where
  follows h := nomatch h
  clear h := nomatch h

variable (h : Spaced comments reader reader')

include h

theorem operand (kind : QuoteKind) :
    Spaced comments (readOperand kind reader) (readOperand kind reader') where
  follows hread hcs := by
    obtain ⟨operand, hoperand, hdatum⟩ := readOperand_eq_ok.mp hread
    obtain ⟨rest', hoperand', hrest⟩ := h.follows hoperand hcs
    exact ⟨rest', readOperand_eq_ok.mpr ⟨operand, hoperand', hdatum⟩, hrest⟩
  clear hread hrest := by
    obtain ⟨operand, hoperand, -⟩ := readOperand_eq_ok.mp hread
    exact h.clear hoperand hrest

theorem tail (items : List Datum) :
    Spaced comments (readTail comments reader items) (readTail comments reader' items) where
  follows hread hcs := by
    obtain ⟨tail, behind, htail, hclose, hdatum⟩ := readTail_eq_ok.mp hread
    obtain ⟨behind', htail', hbehind⟩ := h.follows htail hcs
    obtain ⟨_, hclose', htext⟩ := skipSpace_reblanked hclose hbehind
    obtain ⟨rest', rfl, hrest⟩ := htext.cons rfl
    exact ⟨rest', readTail_eq_ok.mpr ⟨tail, behind', htail', hclose', hdatum⟩, hrest⟩
  clear hread hrest := by
    obtain ⟨tail, behind, htail, hclose, -⟩ := readTail_eq_ok.mp hread
    exact h.clear htail (skipSpace_clear hclose (.cons rfl hrest))

end Spaced

/-- A point in front of a tail stands in both texts. -/
theorem afterLonePoint?_reblanked {after : List Char} (h : afterLonePoint? cs = some after)
    (hcs : Reblanked comments .gap cs cs') :
    ∃ after', afterLonePoint? cs' = some after' ∧ Reblanked comments .gap after after' := by
  obtain ⟨rfl, hafter⟩ := afterLonePoint?_eq_some.mp h
  obtain ⟨after', rfl, hrest⟩ := hcs.cons rfl
  have hafter' : Boundary after' := (tokenOf_reblanked hrest).1.trans hafter
  exact ⟨after', afterLonePoint?_eq_some.mpr ⟨rfl, hafter'⟩, hrest.agree hafter.agree⟩

theorem afterLonePoint?_reblanked_none (h : afterLonePoint? cs = none)
    (hcs : Reblanked comments .gap cs cs') : afterLonePoint? cs' = none := by
  cases hpoint : afterLonePoint? cs' with
  | none => rfl
  | some after' =>
    obtain ⟨after, hafter, -⟩ := afterLonePoint?_reblanked hpoint hcs.symm
    rw [h] at hafter
    cases hafter

theorem afterLonePoint?_clear {after : List Char} (h : afterLonePoint? cs = some after)
    (hafter : Clear comments .gap after) : Clear comments .gap cs := by
  obtain ⟨rfl, hboundary⟩ := afterLonePoint?_eq_some.mp h
  exact .cons rfl (hafter.agree hboundary.agree.symm)

theorem Spaced.items {reader reader' : DatumReader} (h : Spaced comments reader reader') (n : Nat)
    (seen : List Datum) :
    Spaced comments (readItems comments reader n seen) (readItems comments reader' n seen) := by
  induction n generalizing seen with
  | zero => exact .refused .unexpectedEnd _
  | succ n ih =>
    constructor
    · intro cs cs' datum rest hread hcs
      obtain ⟨text, hskip, hcases⟩ := readItems_succ_eq_ok.mp hread
      obtain ⟨text', hskip', htext⟩ := skipSpace_reblanked hskip hcs
      obtain ⟨rfl, rfl⟩ | ⟨hne, hclose, hmore⟩ := hcases
      · obtain ⟨rest', rfl, hrest⟩ := htext.cons rfl
        exact ⟨rest', readItems_succ_eq_ok.mpr ⟨_, hskip', .inl ⟨rfl, rfl⟩⟩, hrest⟩
      have hne' : text' ≠ [] := htext.ne_nil hne
      have hclose' : ∀ r, text' ≠ ')' :: r := htext.ne_cons rfl hclose
      obtain ⟨after, hpoint, hseen, htail⟩ | ⟨hpoint, item, behind, hitem, hitems⟩ := hmore
      · obtain ⟨after', hpoint', hafter⟩ := afterLonePoint?_reblanked hpoint htext
        obtain ⟨rest', htail', hrest⟩ := (h.tail _).follows htail hafter
        refine ⟨rest', readItems_succ_eq_ok.mpr ⟨text', hskip', .inr ⟨hne', hclose', ?_⟩⟩, hrest⟩
        exact .inl ⟨after', hpoint', hseen, htail'⟩
      · obtain ⟨behind', hitem', hbehind⟩ := h.follows hitem htext
        obtain ⟨rest', hitems', hrest⟩ := (ih _).follows hitems hbehind
        have hpoint' := afterLonePoint?_reblanked_none hpoint htext
        refine ⟨rest', readItems_succ_eq_ok.mpr ⟨text', hskip', .inr ⟨hne', hclose', ?_⟩⟩, hrest⟩
        exact .inr ⟨hpoint', item, behind', hitem', hitems'⟩
    · intro cs datum rest hread hrest
      obtain ⟨text, hskip, ⟨rfl, rfl⟩ | ⟨-, -, hmore⟩⟩ := readItems_succ_eq_ok.mp hread
      · exact skipSpace_clear hskip (.cons rfl hrest)
      refine skipSpace_clear hskip ?_
      obtain ⟨after, hpoint, -, htail⟩ | ⟨-, item, behind, hitem, hitems⟩ := hmore
      · exact afterLonePoint?_clear hpoint ((h.tail _).clear htail hrest)
      · exact h.clear hitem ((ih _).clear hitems hrest)

/-! ## Data -/

section

variable {operand operand' : QuoteKind → DatumReader} {item item' : DatumReader}

theorem readLead_reblanked (hoperand : ∀ kind, Spaced comments (operand kind) (operand' kind))
    (hitem : Spaced comments item item') (hskip : skipSpace comments cs = .ok cs)
    (h : readLead comments operand item cs = .ok (datum, rest))
    (hcs : Reblanked comments .gap cs cs') :
    ∃ rest', readLead comments operand' item' cs' = .ok (datum, rest') ∧
      Reblanked comments .gap rest rest' := by
  have halike := lead_reblanked hcs
  unfold readLead at h ⊢
  generalize hlead : lead cs = start at h halike
  generalize lead cs' = start' at halike
  cases halike with
  | mark kind hrest => exact ((hoperand kind).operand kind).follows h hrest
  | list hrest =>
    dsimp only
    rw [hrest.length_eq]
    exact (hitem.items _ []).follows h hrest
  | string hrest => exact readString_reblanked h hrest
  | character hrest => exact readCharacter_reblanked h hrest
  | atom =>
    obtain ⟨htoken, hafter⟩ :=
      (starts_atom hlead hskip).reblanked (tokenOf_ne_nil_of_readAtom h) hcs
    cases (readAtom_congr rfl h).symm.trans h
    exact ⟨_, readAtom_congr htoken h, hafter⟩

theorem readLead_clear (hoperand : ∀ kind, Spaced comments (operand kind) (operand' kind))
    (hitem : Spaced comments item item') (hskip : skipSpace comments cs = .ok cs)
    (h : readLead comments operand item cs = .ok (datum, rest))
    (hrest : Clear comments .gap rest) : Clear comments .gap cs := by
  unfold readLead at h
  generalize hlead : lead cs = start at h
  have htext (hstart : start.Clear comments) : Clear comments .gap cs := by
    rw [← hlead] at hstart
    exact hstart.text
  cases start with
  | mark kind rest => exact htext (((hoperand kind).operand kind).clear h hrest)
  | list rest => exact htext ((hitem.items _ []).clear h hrest)
  | string rest => exact htext (readString_clear h hrest)
  | character rest => exact htext (readCharacter_clear h hrest)
  | atom =>
    cases (readAtom_congr rfl h).symm.trans h
    exact (starts_atom hlead hskip).clear (tokenOf_ne_nil_of_readAtom h) hrest

end

theorem spaced_readDatumBy (rule : UnquoteRule) (levels backquotes : Nat) :
    Spaced comments (readDatumBy rule comments levels backquotes)
      (readDatumBy rule comments levels backquotes) := by
  induction levels generalizing backquotes with
  | zero => exact .refused .tooDeep _
  | succ levels ih =>
    -- a refusal names the text, so the readers of the operands are the same only up to refusals
    have hoperand (text text' : List Char) (kind : QuoteKind) :
        Spaced comments (rule.operand (readDatumBy rule comments levels) backquotes text kind)
          (rule.operand (readDatumBy rule comments levels) backquotes text' kind) := by
      unfold UnquoteRule.operand
      split
      · exact .refused _ _
      · exact ih _
    constructor
    · intro cs cs' datum rest h hcs
      obtain ⟨text, hskip, hlead⟩ := readDatumBy_succ_eq_ok.mp h
      obtain ⟨text', hskip', htext⟩ := skipSpace_reblanked hskip hcs
      obtain ⟨rest', hlead', hrest⟩ := readLead_reblanked (hoperand text text') (ih backquotes)
        (skipGap_idem hskip) hlead htext
      exact ⟨rest', readDatumBy_succ_eq_ok.mpr ⟨text', hskip', hlead'⟩, hrest⟩
    · intro cs datum rest h hrest
      obtain ⟨text, hskip, hlead⟩ := readDatumBy_succ_eq_ok.mp h
      exact skipSpace_clear hskip
        (readLead_clear (hoperand text text) (ih backquotes) (skipGap_idem hskip) hlead hrest)

/-! ## Whole texts -/

section

variable {reader reader' : DatumReader} {n : Nat} {seen data : List Datum}

theorem readAll_reblanked (hreader : Spaced comments reader reader')
    (h : readAll comments reader n seen cs = .ok data) (hcs : Reblanked comments .gap cs cs') :
    readAll comments reader' n seen cs' = .ok data := by
  induction n generalizing seen cs cs' with
  | zero => exact h
  | succ n ih =>
    obtain ⟨text, hskip, hcases⟩ := readAll_succ_eq_ok.mp h
    obtain ⟨text', hskip', htext⟩ := skipSpace_reblanked hskip hcs
    refine readAll_succ_eq_ok.mpr ⟨text', hskip', ?_⟩
    obtain ⟨rfl, hdata⟩ | ⟨hne, datum, behind, hdatum, hall⟩ := hcases
    · exact .inl ⟨htext.eq_nil, hdata⟩
    · obtain ⟨behind', hdatum', hbehind⟩ := hreader.follows hdatum htext
      exact .inr ⟨htext.ne_nil hne, datum, behind', hdatum', ih hall hbehind⟩

theorem readAll_clear (hreader : Spaced comments reader reader')
    (hshorter : ∀ {cs datum rest}, reader cs = .ok (datum, rest) → rest.length < cs.length)
    (hn : cs.length < n) (h : readAll comments reader n seen cs = .ok data) :
    Clear comments .gap cs := by
  induction n generalizing seen cs with
  | zero => omega
  | succ n ih =>
    obtain ⟨text, hskip, ⟨rfl, -⟩ | ⟨-, datum, behind, hdatum, hall⟩⟩ := readAll_succ_eq_ok.mp h
    · exact skipSpace_clear hskip trivial
    · have hle := skipSpace_length_le hskip
      have hlt := hshorter hdatum
      exact skipSpace_clear hskip (hreader.clear hdatum (ih (by omega) hall))

end

variable {options : ReadOptions} {source : String} {data : List Datum}

theorem readAll_of_readData (h : readData options source = .ok data) :
    readAll options.comments (readDatumBy .counting options.comments options.maxDepth 0)
      (source.toList.length + 1) [] source.toList = .ok data := by
  rw [readDatumBy_counting, ← readTop_eq_readAll]
  exact readData_eq_ok.mp h

/-- The data of a text with other blanks between its tokens. -/
theorem readData_reblanked (h : readData options source = .ok data)
    (hcs : Reblanked options.comments .gap source.toList cs') :
    readData options (String.ofList cs') = .ok data := by
  have hall := readAll_reblanked (spaced_readDatumBy _ _ _) (readAll_of_readData h) hcs
  rw [readDatumBy_counting, ← readTop_eq_readAll, ← hcs.length_eq] at hall
  rw [readData_eq_ok, String.toList_ofList]
  exact hall

/-- What can be read has no blank between tokens that cannot be skipped. -/
theorem readData_clear (h : readData options source = .ok data) :
    Clear options.comments .gap source.toList := by
  refine readAll_clear (spaced_readDatumBy _ _ _) ?_ (Nat.lt_succ_self _) (readAll_of_readData h)
  rw [readDatumBy_counting]
  exact (readsOn_readDatum _ _).shorter

/-- A blank between two tokens of a text that can be read is one of the four that are skipped. With
another of these in its place the text has the same data, and with any other blank it has none. -/
theorem blanks_between_tokens {before after : List Char} {c : Char}
    (h : readData options source = .ok data) (hsource : source.toList = before ++ c :: after)
    (hbetween : (Region.gap.after options.comments before).separates = true)
    (hc : Text.isBlank c = true) :
    Text.isSkipped c = true ∧ ∀ c', Text.isBlank c' = true →
      (Text.isSkipped c' = true →
        readData options (String.ofList (before ++ c' :: after)) = .ok data) ∧
      (Text.isSkipped c' = false →
        ∃ fault, readData options (String.ofList (before ++ c' :: after)) = .error fault) := by
  have hclear := readData_clear h
  rw [hsource] at hclear
  have hskipped := hclear.skipped hbetween hc
  refine ⟨hskipped, fun c' hc' => ⟨fun hskipped' => ?_, fun hunskipped => ?_⟩⟩
  · have hreblanked := Reblanked.replaced before after hbetween hskipped hskipped'
    rw [← hsource] at hreblanked
    exact readData_reblanked h hreblanked
  · cases hread : readData options (String.ofList (before ++ c' :: after)) with
    | error fault => exact ⟨fault, rfl⟩
    | ok data' =>
      have hclear' := readData_clear hread
      rw [String.toList_ofList] at hclear'
      rw [hclear'.skipped hbetween hc'] at hunskipped
      cases hunskipped

/-- A line feed in place of a space. -/
theorem line_feed_between_tokens :
    readData .standard "(a b)" = .ok [.list [.symbol (.plain "A"), .symbol (.plain "B")]] ∧
      "(a b)".toList = ['(', 'a'] ++ ' ' :: ['b', ')'] ∧
      (Region.gap.after true ['(', 'a']).separates = true ∧ Text.isBlank ' ' = true ∧
      readData .standard "(a\nb)" = .ok [.list [.symbol (.plain "A"), .symbol (.plain "B")]] := by
  have hread : readData .standard "(a b)" =
      .ok [.list [.symbol (.plain "A"), .symbol (.plain "B")]] := rfl
  have hsource : "(a b)".toList = ['(', 'a'] ++ ' ' :: ['b', ')'] := rfl
  have hblanks := blanks_between_tokens hread hsource rfl rfl
  exact ⟨hread, hsource, rfl, rfl, (hblanks.2 '\n' rfl).1 rfl⟩

/-- A form feed in place of a space ends the token in front of it, and the text cannot be read. -/
theorem form_feed_refused :
    (Region.gap.after true ['(', 'a']).separates = true ∧ Text.isBlank ' ' = true ∧
      Text.isBlank '\x0c' = true ∧
      readData .standard "(a b)" = .ok [.list [.symbol (.plain "A"), .symbol (.plain "B")]] ∧
      readData .standard "(a\x0cb)" = .error (.parse (.malformed "(a\x0cb)")) :=
  ⟨rfl, rfl, rfl, rfl, rfl⟩

end SmallLisp
