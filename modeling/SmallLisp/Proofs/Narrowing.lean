import SmallLisp.Proofs.ReadingRules

/-!
# Stricter readers

A reader *narrows* another one for a property of data if it gives what the other gives where that
has the property, and stops for a certain kind of reason where it has not. What a stricter reader
does with the parts of data it does with data, and with whole texts: `Narrows.tail` to
`Narrows.data`. A stop inside is passed on as it is, it is never taken for another one and nothing
else is tried instead.
-/

namespace SmallLisp

namespace Datum

/-- The data directly below a datum. -/
def parts : Datum → List Datum
  | .list items => items
  | .dotted items tail => items ++ [tail]
  | .quoted _ operand => [operand]
  | _ => []

/-- The quotation mark in front of a datum. -/
def mark? : Datum → Option QuoteKind
  | .quoted kind _ => some kind
  | _ => none

/-- `part` sits in a datum below the data `above`, of which the first is the outermost. -/
inductive Sits : Datum → List Datum → Datum → Prop
  | self (d : Datum) : Sits d [] d
  | under {d child part : Datum} {above : List Datum} (hchild : child ∈ d.parts)
      (h : Sits child above part) : Sits d (d :: above) part

end Datum

/-- The result of a stricter reading beside the one of a freer reading: the same if it is good, else
a stop for a bad reason. Where the freer reading stops, so does the stricter one. -/
inductive Narrowed {α : Type} (good : α → Prop) (bad : Stuck → Prop) :
    Except Stuck α → Except Stuck α → Prop
  | kept {a : α} (h : good a) : Narrowed good bad (.ok a) (.ok a)
  | refused {a : α} {stuck : Stuck} (h : ¬ good a) (hbad : bad stuck) :
      Narrowed good bad (.ok a) (.error stuck)
  | stopped {stuck stuck' : Stuck} : Narrowed good bad (.error stuck) (.error stuck')

namespace Narrowed

variable {α : Type} {good : α → Prop} {bad : Stuck → Prop} {r : Except Stuck α}

/-- A reading that gives only good data is as strict as itself. -/
theorem same (h : ∀ a, r = .ok a → good a) : Narrowed good bad r r := by
  cases r with
  | error stuck => exact .stopped
  | ok a => exact .kept (h a rfl)

/-- A stop for a bad reason stands for a reading that gives no good data. -/
theorem dropped {stuck : Stuck} (hbad : bad stuck) (h : ∀ a, r = .ok a → ¬ good a) :
    Narrowed good bad r (.error stuck) := by
  cases r with
  | error stuck => exact .stopped
  | ok a => exact .refused (h a rfl) hbad

theorem mono {good' : α → Prop} {r' : Except Stuck α} (h : Narrowed good bad r r')
    (hgood : ∀ a, r = .ok a → (good a ↔ good' a)) : Narrowed good' bad r r' := by
  cases h with
  | kept h => exact .kept ((hgood _ rfl).mp h)
  | refused h hbad => exact .refused (fun h' => h ((hgood _ rfl).mpr h')) hbad
  | stopped => exact .stopped

end Narrowed

/-- `reader'` narrows `reader` to data with a property. -/
def Narrows (good : Datum → Prop) (bad : Stuck → Prop) (reader reader' : DatumReader) : Prop :=
  ∀ cs, Narrowed (fun read => good read.1) bad (reader cs) (reader' cs)

variable {comments : Bool} {cs rest : List Char} {reader reader' : DatumReader} {n : Nat}
  {seen : List Datum} {datum : Datum}

/-! ## What lists are read from -/

/-- A list that is not at its end goes on with a tail or with an item. -/
theorem readItems_open {text : List Char} (hskip : skipSpace comments cs = .ok text)
    (hne : text ≠ []) (hclose : ∀ r, text ≠ ')' :: r) :
    readItems comments reader (n + 1) seen cs =
      match afterLonePoint? text with
      | some after =>
        if seen.isEmpty then .error (.malformed text)
        else readTail comments reader seen.reverse after
      | none =>
        match reader text with
        | .error stuck => .error stuck
        | .ok (item, rest) => readItems comments reader n (item :: seen) rest := by
  rw [readItems, hskip]
  split
  next heq => cases heq
  next heq => exact absurd (Except.ok.inj heq) hne
  next heq => exact absurd (Except.ok.inj heq) (hclose _)
  next heq =>
    cases heq
    rfl

/-- The items read so far are items of the list. -/
theorem readItems_seen (h : readItems comments reader n seen cs = .ok (datum, rest)) :
    datum.mark? = none ∧ ∀ d ∈ seen, d ∈ datum.parts := by
  induction n generalizing seen cs with
  | zero => cases h
  | succ n ih =>
    obtain ⟨text, -, ⟨-, rfl⟩ | ⟨-, -, hmore⟩⟩ := readItems_succ_eq_ok.mp h
    · exact ⟨rfl, fun d hd => List.mem_reverse.mpr hd⟩
    · obtain ⟨after, -, -, htail⟩ | ⟨-, item, behind, -, hitems⟩ := hmore
      · obtain ⟨tail, behind, -, -, rfl⟩ := readTail_eq_ok.mp htail
        exact ⟨rfl, fun d hd => List.mem_append_left _ (List.mem_reverse.mpr hd)⟩
      · obtain ⟨hmark, hseen⟩ := ih hitems
        exact ⟨hmark, fun d hd => hseen d (List.mem_cons_of_mem item hd)⟩

theorem readAll_seen {data : List Datum} (h : readAll comments reader n seen cs = .ok data) :
    ∀ d ∈ seen, d ∈ data := by
  induction n generalizing seen cs with
  | zero =>
    cases h
    exact fun d hd => List.mem_reverse.mpr hd
  | succ n ih =>
    obtain ⟨text, -, ⟨-, rfl⟩ | ⟨-, datum, behind, -, hall⟩⟩ := readAll_succ_eq_ok.mp h
    · exact fun d hd => List.mem_reverse.mpr hd
    · exact fun d hd => ih hall d (List.mem_cons_of_mem datum hd)

/-! ## From parts to data -/

variable {good : Datum → Prop} {bad : Stuck → Prop}

namespace Narrows

variable (h : Narrows good bad reader reader')

include h

theorem tail {items : List Datum} (hitems : ∀ d ∈ items, good d) (cs : List Char) :
    Narrowed (fun read => ∀ d ∈ read.1.parts, good d) bad (readTail comments reader items cs)
      (readTail comments reader' items cs) := by
  have hmem : ∀ {reader : DatumReader} {tail : Datum} {behind : List Char},
      reader cs = .ok (tail, behind) →
      ∀ read, readTail comments reader items cs = .ok read → read.1.parts = items ++ [tail] := by
    intro reader tail behind htail read hread
    obtain ⟨tail', behind', htail', -, hdatum⟩ := readTail_eq_ok.mp hread
    rw [htail] at htail'
    cases htail'
    rw [hdatum]
    rfl
  have hcs := h cs
  generalize hfree : reader cs = free at hcs
  generalize hstrict : reader' cs = strict at hcs
  cases hcs with
  | @kept read hgood =>
    have hsame : readTail comments reader' items cs = readTail comments reader items cs := by
      rw [readTail, readTail, hfree, hstrict]
    rw [hsame]
    refine .same fun read' hread => ?_
    rw [hmem hfree read' hread, List.forall_mem_append, List.forall_mem_singleton]
    exact ⟨hitems, hgood⟩
  | @refused read stuck hgood hbad =>
    rw [readTail.eq_def comments reader', hstrict]
    refine .dropped hbad fun read' hread hparts => hgood ?_
    rw [hmem hfree read' hread] at hparts
    exact hparts _ (List.mem_append_right items List.mem_cons_self)
  | stopped =>
    rw [readTail, readTail, hfree, hstrict]
    exact .stopped

theorem items (n : Nat) (hseen : ∀ d ∈ seen, good d) (cs : List Char) :
    Narrowed (fun read => ∀ d ∈ read.1.parts, good d) bad (readItems comments reader n seen cs)
      (readItems comments reader' n seen cs) := by
  induction n generalizing seen cs with
  | zero => exact .stopped
  | succ n ih =>
    have hreverse : ∀ d ∈ seen.reverse, good d := fun d hd => hseen d (List.mem_reverse.mp hd)
    cases hskip : skipSpace comments cs with
    | error stuck =>
      rw [readItems, readItems, hskip]
      exact .stopped
    | ok text =>
      by_cases hne : text = []
      · rw [readItems, readItems, hskip, hne]
        exact .stopped
      by_cases hclose : ∃ r, text = ')' :: r
      · obtain ⟨r, rfl⟩ := hclose
        rw [readItems, readItems, hskip]
        exact .kept hreverse
      rw [not_exists] at hclose
      rw [readItems_open hskip hne hclose, readItems_open hskip hne hclose]
      cases afterLonePoint? text with
      | some after =>
        dsimp only
        split
        · exact .stopped
        · exact h.tail hreverse after
      | none =>
        dsimp only
        have htext := h text
        generalize reader text = free at htext
        generalize reader' text = strict at htext
        cases htext with
        | @kept read hgood => exact ih (List.forall_mem_cons.mpr ⟨hgood, hseen⟩) read.2
        | @refused read stuck hgood hbad =>
          refine .dropped hbad fun read' hread hparts => hgood ?_
          exact hparts _ ((readItems_seen hread).2 _ List.mem_cons_self)
        | stopped => exact .stopped

/-- The data of a text, where all of them have to be good. -/
theorem data (comments : Bool) (hbad : ¬ bad .noDatum) (n : Nat) (hseen : ∀ d ∈ seen, good d)
    (cs : List Char) :
    Narrowed (fun data => ∀ d ∈ data, good d) bad (readAll comments reader n seen cs)
      (readAll comments reader' n seen cs) := by
  have hreverse : ∀ seen : List Datum, (∀ d ∈ seen, good d) → ∀ d ∈ seen.reverse, good d :=
    fun seen hseen d hd => hseen d (List.mem_reverse.mp hd)
  induction n generalizing seen cs with
  | zero => exact .kept (hreverse seen hseen)
  | succ n ih =>
    rw [readAll, readAll]
    cases skipSpace comments cs with
    | error stuck => exact .stopped
    | ok text =>
      cases text with
      | nil => exact .kept (hreverse seen hseen)
      | cons c text =>
        dsimp only
        have htext := h (c :: text)
        generalize reader (c :: text) = free at htext
        generalize reader' (c :: text) = strict at htext
        cases htext with
        | @kept read hgood => exact ih (List.forall_mem_cons.mpr ⟨hgood, hseen⟩) read.2
        | @refused read stuck hgood hstuck =>
          have hdropped : Narrowed (fun data => ∀ d ∈ data, good d) bad
              (readAll comments reader n (read.1 :: seen) read.2) (.error stuck) := by
            refine .dropped hstuck fun data hdata hall => hgood ?_
            exact hall _ (readAll_seen hdata _ List.mem_cons_self)
          cases stuck with
          | noDatum => exact absurd hstuck hbad
          | _ => exact hdropped
        | @stopped stuck stuck' => cases stuck <;> cases stuck' <;> exact .stopped

end Narrows

/-! ## One level of reading -/

theorem parts_of_readAtom (h : readAtom cs = .ok (datum, rest)) :
    datum.mark? = none ∧ datum.parts = [] := by
  unfold readAtom at h
  dsimp only at h
  split at h
  next => cases h
  split at h
  next =>
    split at h
    next =>
      cases h
      exact ⟨rfl, rfl⟩
    next => cases h
  split at h
  next =>
    cases h
    exact ⟨rfl, rfl⟩
  split at h
  next => cases h
  split at h
  next =>
    cases h
    exact ⟨rfl, rfl⟩
  next => cases h

theorem parts_of_readString {chars : List Char} (h : readString chars cs = .ok (datum, rest)) :
    datum.mark? = none ∧ datum.parts = [] := by
  fun_induction readString chars cs with
  | case1 | case3 | case5 => cases h
  | case2 =>
    cases h
    exact ⟨rfl, rfl⟩
  | case4 _ _ _ _ _ ih | case6 _ _ _ _ _ _ ih => exact ih h

theorem parts_of_readCharacter (h : readCharacter cs = .ok (datum, rest)) :
    datum.mark? = none ∧ datum.parts = [] := by
  unfold readCharacter at h
  cases htoken : tokenOf cs with
  | nil =>
    rw [htoken] at h
    cases cs with
    | nil => cases h
    | cons c text =>
      cases h
      exact ⟨rfl, rfl⟩
  | cons c name =>
    rw [htoken] at h
    cases name with
    | nil =>
      cases h
      exact ⟨rfl, rfl⟩
    | cons d name =>
      dsimp only at h
      split at h
      next =>
        cases h
        exact ⟨rfl, rfl⟩
      next => cases h

theorem Narrows.operand {kind : QuoteKind}
    (h : Narrows (fun operand => good (.quoted kind operand)) bad reader reader') :
    Narrows good bad (readOperand kind reader) (readOperand kind reader') := by
  intro cs
  have hcs := h cs
  rw [readOperand, readOperand]
  generalize reader cs = free at hcs
  generalize reader' cs = strict at hcs
  cases hcs with
  | kept hgood => exact .kept hgood
  | refused hgood hbad => exact .refused hgood hbad
  | stopped => exact .stopped

variable {goodItem : Datum → Prop} {item item' : DatumReader}
  {operand operand' : QuoteKind → DatumReader}

/-- A reader of data is as strict as its readers of operands and of items, if a datum without a mark
is good when its parts are. -/
theorem Narrows.lead
    (hoperand : ∀ kind, Narrows (fun x => good (.quoted kind x)) bad (operand kind) (operand' kind))
    (hitem : Narrows goodItem bad item item')
    (hgood : ∀ d : Datum, d.mark? = none → (good d ↔ ∀ part ∈ d.parts, goodItem part)) :
    Narrows good bad (readLead comments operand item) (readLead comments operand' item') := by
  have hleaf : ∀ d : Datum, d.mark? = none ∧ d.parts = [] → good d := by
    intro d hd
    rw [hgood d hd.1, hd.2]
    exact nofun
  intro cs
  unfold readLead
  cases SmallLisp.lead cs with
  | mark kind rest => exact (hoperand kind).operand rest
  | list rest =>
    have hnone : ∀ d ∈ ([] : List Datum), goodItem d := nofun
    refine (hitem.items _ hnone rest).mono fun read hread => ?_
    exact (hgood _ (readItems_seen hread).1).symm
  | string rest => exact .same fun read hread => hleaf _ (parts_of_readString hread)
  | character rest => exact .same fun read hread => hleaf _ (parts_of_readCharacter hread)
  | atom => exact .same fun read hread => hleaf _ (parts_of_readAtom hread)

variable {rule rule' : UnquoteRule} {levels levels' backquotes backquotes' : Nat}

/-- The same of the readers under rules, one level up. -/
theorem Narrows.level
    (hoperand : ∀ text kind, Narrows (fun x => good (.quoted kind x)) bad
      (rule.operand (readDatumBy rule comments levels) backquotes text kind)
      (rule'.operand (readDatumBy rule' comments levels') backquotes' text kind))
    (hitem : Narrows goodItem bad (readDatumBy rule comments levels backquotes)
      (readDatumBy rule' comments levels' backquotes'))
    (hgood : ∀ d : Datum, d.mark? = none → (good d ↔ ∀ part ∈ d.parts, goodItem part)) :
    Narrows good bad (readDatumBy rule comments (levels + 1) backquotes)
      (readDatumBy rule' comments (levels' + 1) backquotes') := by
  intro cs
  rw [readDatumBy, readDatumBy]
  cases skipSpace comments cs with
  | error stuck => exact .stopped
  | ok text => exact Narrows.lead (hoperand text) hitem hgood text

/-! ## Whole texts -/

/-- What a stricter reader of texts gives the freer one gives too. What the freer one gives, the
stricter one gives if it is good, and else it stops for a bad reason. -/
theorem readDataBy_narrowed (options options' : ReadOptions)
    (hcomments : options'.comments = options.comments) (hbad : ¬ bad .noDatum)
    (h : Narrows good bad (readDatumBy rule options.comments options.maxDepth 0)
      (readDatumBy rule' options.comments options'.maxDepth 0)) (source : String)
    (data : List Datum) :
    (readDataBy rule' options' source = .ok data →
      readDataBy rule options source = .ok data ∧ ∀ d ∈ data, good d) ∧
    (readDataBy rule options source = .ok data →
      ((∀ d ∈ data, good d) → readDataBy rule' options' source = .ok data) ∧
      (¬ (∀ d ∈ data, good d) → ∃ stuck, bad stuck ∧ readDataBy rule' options' source =
        .error (.parse (stuck.toFault options' source.toList)))) := by
  have hnone : ∀ d ∈ ([] : List Datum), good d := nofun
  have hdata := h.data options.comments hbad (source.toList.length + 1) hnone source.toList
  unfold readDataBy
  dsimp only
  rw [hcomments]
  generalize readAll options.comments (readDatumBy rule _ _ _) _ _ _ = free at hdata
  generalize readAll options.comments (readDatumBy rule' _ _ _) _ _ _ = strict at hdata
  cases hdata with
  | kept hgood =>
    constructor
    · rintro ⟨⟩
      exact ⟨rfl, hgood⟩
    · rintro ⟨⟩
      exact ⟨fun _ => rfl, fun hnot => absurd hgood hnot⟩
  | refused hgood hstuck =>
    constructor
    · nofun
    · rintro ⟨⟩
      exact ⟨fun hall => absurd hall hgood, fun _ => ⟨_, hstuck, rfl⟩⟩
  | stopped => exact ⟨nofun, nofun⟩

end SmallLisp
