import SmallLisp.Proofs.Capitals

/-!
# Texts without the context mark

A fault is taken to name its form when its message has the mark in it, so it matters that no printed
value brings the mark along. The beginning of the mark is a line feed, two spaces and `Co`. A name
may have the line feed and the spaces in it but, being in capitals, no `o`; a printed string has no
line feed; and what follows a printed part never goes on with the mark. `Fault.MarkFree` is this as
a property that texts keep when they are put together: the automaton that waits for the beginning of
the mark gets through the text from whatever it has seen before.

A clean fault takes over such texts only, so its message has the mark once if it names its form, and
not at all if it does not.
-/

namespace SmallLisp

/-! ## The mark in a text -/

namespace Fault

/-- How much of the beginning of the mark has been seen after a further character; nothing once all
of it has. -/
def markStep (seen : Fin 5) (c : Char) : Option (Fin 5) :=
  if c = '\n' then some 1
  else if seen = 1 ∧ c = ' ' then some 2
  else if seen = 2 ∧ c = ' ' then some 3
  else if seen = 3 ∧ c = 'C' then some 4
  else if seen = 4 ∧ c = 'o' then none
  else some 0

/-- A text that does not complete the beginning of the mark, whatever stands in front of it. -/
def MarkFree (cs : List Char) : Prop := ∀ seen, (cs.foldlM markStep seen).isSome = true

instance (cs : List Char) : Decidable (MarkFree cs) :=
  inferInstanceAs (Decidable (∀ seen, (cs.foldlM markStep seen).isSome = true))

/-- At how many places of a text a pattern stands. -/
def occurrences (pattern : List Char) : List Char → Nat
  | [] => if pattern.isEmpty then 1 else 0
  | c :: rest =>
    (if pattern.isPrefixOf (c :: rest) then 1 else 0) + occurrences pattern rest

theorem occurs_iff {pattern text : List Char} :
    occurs pattern text = true ↔ 0 < occurrences pattern text := by
  induction text with
  | nil => cases pattern <;> simp [occurs, occurrences]
  | cons c rest ih =>
    unfold occurs occurrences
    rw [Bool.or_eq_true, ih]
    cases pattern.isPrefixOf (c :: rest) with
    | true => exact iff_of_true (.inl rfl) (Nat.lt_add_right _ Nat.one_pos)
    | false => simp

theorem toList_contextMark :
    contextMark.toList = ['\n', ' ', ' ', 'C', 'o', 'n', 't', 'e', 'x', 't', ':', ' '] := by
  decide

theorem steps_cons {c : Char} {cs : List Char} {seen : Fin 5} :
    ((c :: cs).foldlM markStep seen).isSome = true ↔
      ∃ next, markStep seen c = some next ∧ (cs.foldlM markStep next).isSome = true := by
  rw [List.foldlM_cons]
  cases markStep seen c <;> simp

theorem MarkFree.append {cs ds : List Char} (h : MarkFree cs) (h' : MarkFree ds) :
    MarkFree (cs ++ ds) := by
  intro seen
  obtain ⟨next, hnext⟩ := Option.isSome_iff_exists.mp (h seen)
  rw [List.foldlM_append, hnext]
  exact h' next

theorem MarkFree.of_not_mem {cs : List Char} (h : 'o' ∉ cs) : MarkFree cs := by
  induction cs with
  | nil => exact fun _ => rfl
  | cons c rest ih =>
    intro seen
    have hc : c ≠ 'o' := fun heq => h (heq ▸ List.mem_cons_self)
    have hstep : (markStep seen c).isSome = true := by
      unfold markStep
      grind
    obtain ⟨next, hnext⟩ := Option.isSome_iff_exists.mp hstep
    rw [List.foldlM_cons, hnext]
    exact ih (fun hrest => h (List.mem_cons_of_mem _ hrest)) next

theorem foldlM_markStep_zero {cs : List Char} (h : '\n' ∉ cs) : cs.foldlM markStep 0 = some 0 := by
  induction cs with
  | nil => rfl
  | cons c rest ih =>
    have hc : c ≠ '\n' := fun heq => h (heq ▸ List.mem_cons_self)
    have hstep : markStep 0 c = some 0 := by
      unfold markStep
      rw [if_neg hc]
      rfl
    rw [List.foldlM_cons, hstep]
    exact ih fun hrest => h (List.mem_cons_of_mem _ hrest)

/-- A text of one line that begins with a character outside the mark. -/
theorem MarkFree.of_line {c : Char} {cs : List Char} (hc : c ∉ ['\n', ' ', 'C', 'o'])
    (h : '\n' ∉ cs) : MarkFree (c :: cs) := by
  intro seen
  have hstep : markStep seen c = some 0 := by
    simp only [List.mem_cons, not_or] at hc
    simp [markStep, hc]
  rw [List.foldlM_cons, hstep]
  exact congrArg Option.isSome (foldlM_markStep_zero h)

theorem foldlM_contextMark (seen : Fin 5) : contextMark.toList.foldlM markStep seen = none := by
  revert seen
  decide

/-- The mark stands at the beginning of no text without it. -/
theorem not_prefix_of_steps {cs : List Char} {seen : Fin 5}
    (h : (cs.foldlM markStep seen).isSome = true) : ¬ contextMark.toList <+: cs := by
  rintro ⟨more, rfl⟩
  rw [List.foldlM_append, foldlM_contextMark] at h
  cases h

theorem occurrences_of_steps {cs : List Char} {seen : Fin 5}
    (h : (cs.foldlM markStep seen).isSome = true) : occurrences contextMark.toList cs = 0 := by
  induction cs generalizing seen with
  | nil => decide
  | cons c rest ih =>
    have hbegins := not_prefix_of_steps h
    obtain ⟨next, -, hrest⟩ := steps_cons.mp h
    unfold occurrences
    rw [ih hrest, if_neg (fun hp => hbegins (List.isPrefixOf_iff_prefix.mp hp))]

/-- The mark does not begin before it stands there in full, because it has a single line feed. -/
theorem not_prefix_before_mark {c : Char} {cs : List Char} (ds : List Char) {seen : Fin 5}
    (h : ((c :: cs).foldlM markStep seen).isSome = true) :
    ¬ contextMark.toList <+: c :: cs ++ (contextMark.toList ++ ds) := by
  rintro ⟨more, hmore⟩
  rcases List.append_eq_append_iff.mp hmore with ⟨k, hk, -⟩ | ⟨k, hk, hrest⟩
  · exact not_prefix_of_steps h ⟨k, hk.symm⟩
  · cases k with
    | nil => exact not_prefix_of_steps h ⟨[], by simp [hk]⟩
    | cons d k =>
      have hd : d = '\n' := by
        rw [toList_contextMark] at hrest
        exact (List.cons.inj hrest).1.symm
      have htail : '\n' ∈ contextMark.toList.tail := by
        rw [hk, ← hd]
        exact List.mem_append_right cs List.mem_cons_self
      exact absurd htail (by decide)

/-- Between two texts without it, the mark stands once. -/
theorem occurrences_marked {cs ds : List Char} (h : MarkFree cs) (h' : MarkFree ds) :
    occurrences contextMark.toList (cs ++ (contextMark.toList ++ ds)) = 1 := by
  have hsteps := h 0
  generalize (0 : Fin 5) = seen at hsteps
  clear h
  induction cs generalizing seen with
  | nil =>
    have hds := occurrences_of_steps (h' 0)
    rw [toList_contextMark] at hds ⊢
    simp [occurrences, hds]
  | cons c rest ih =>
    have hbegins := not_prefix_before_mark ds hsteps
    obtain ⟨next, -, hrest⟩ := steps_cons.mp hsteps
    rw [List.cons_append] at hbegins ⊢
    unfold occurrences
    rw [ih next hrest, if_neg (fun hp => hbegins (List.isPrefixOf_iff_prefix.mp hp))]

end Fault

open Fault (MarkFree)

/-! ## Printed values -/

theorem not_mem_toDigits (n : Nat) : 'o' ∉ Nat.toDigits 10 n :=
  fun h => absurd (isDigit_of_mem_toDigits h) (by decide)

theorem Number.not_mem_renderInt (n : Int) : 'o' ∉ Number.renderInt n := by
  unfold renderInt
  split <;> simp [not_mem_toDigits]

theorem Binary64.not_mem_render (x : Binary64) : 'o' ∉ x.render := by
  have hsign : ∀ negative, 'o' ∉ signText negative := by decide
  have hshortest : ∀ d : Decimal, 'o' ∉ d.render := by
    intro d
    have htake : ∀ k, 'o' ∉ (Nat.toDigits 10 d.digits).take k :=
      fun k h => not_mem_toDigits _ (List.mem_of_mem_take h)
    have hdrop : ∀ k, 'o' ∉ (Nat.toDigits 10 d.digits).drop k :=
      fun k h => not_mem_toDigits _ (List.mem_of_mem_drop h)
    unfold Decimal.render
    dsimp only
    split
    · simp [not_mem_toDigits]
    split
    · simp [not_mem_toDigits]
    · simp [htake, hdrop]
  unfold render
  split
  · decide
  · simp [hsign]
  · dsimp only
    split <;> simp [hsign, not_mem_toDigits, hshortest]

theorem Number.not_mem_render (n : Number) : 'o' ∉ n.render := by
  cases n with
  | int n => exact not_mem_renderInt n.toInt
  | float x => exact x.not_mem_render

theorem markFree_renderString (t : String) : MarkFree (renderString t) := by
  have hescape : ∀ c, '\n' ∉ escapeInString c := by
    intro c
    unfold escapeInString
    split
    · decide
    split
    · decide
    split
    · decide
    split
    · decide
    split
    · decide
    next hline _ _ => exact fun h => hline (List.mem_singleton.mp h).symm
  refine .of_line (by decide) ?_
  simp [hescape]

theorem markFree_renderCharacter (c : Char) : MarkFree (renderCharacter c) := by
  have hname : '\n' ∉ (Text.characterName? c).elim [c] String.toList := by
    cases h : Text.characterName? c with
    | none =>
      rintro hc
      rw [← List.mem_singleton.mp hc] at h
      revert h
      decide
    | some name => 
      have hall : ∀ e ∈ Text.characterNames, '\n' ∉ e.2.toList := by decide
      obtain ⟨before, after, hnames, -⟩ := List.lookup_eq_some_iff.mp h
      exact hall (c, name) (hnames ▸ List.mem_append_right _ List.mem_cons_self)
  exact .of_line (by decide) (by simp [hname])

theorem Fault.MarkFree.flatten {ts : List (List Char)} (h : ∀ t ∈ ts, MarkFree t) :
    MarkFree ts.flatten := by
  induction ts with
  | nil => exact fun _ => rfl
  | cons t rest ih =>
    obtain ⟨ht, hrest⟩ := List.forall_mem_cons.mp h
    exact ht.append (ih hrest)

theorem Fault.MarkFree.flatMap {α : Type} {f : α → List Char} {as : List α}
    (h : ∀ a ∈ as, MarkFree (f a)) : MarkFree (as.flatMap f) := by
  rw [List.flatMap_def]
  exact .flatten (List.forall_mem_map.mpr h)

theorem Fault.MarkFree.spaced {ts : List (List Char)} (h : ∀ t ∈ ts, MarkFree t) :
    MarkFree (SmallLisp.spaced ts) := by
  refine .flatten ?_
  induction ts with
  | nil => exact List.forall_mem_nil _
  | cons t rest ih =>
    obtain ⟨ht, hrest⟩ := List.forall_mem_cons.mp h
    cases rest with
    | nil => exact List.forall_mem_singleton.mpr ht
    | cons t' rest =>
      rw [List.intersperse_cons_cons]
      exact List.forall_mem_cons.mpr ⟨ht, List.forall_mem_cons.mpr ⟨by decide, ih hrest⟩⟩

theorem Text.InCapitals.markFree {cs : List Char} (h : Text.InCapitals cs) : MarkFree cs :=
  .of_not_mem fun ho => absurd (h 'o' ho) (by decide)

namespace Interp.Native

variable {s : Interp} (h : s.Native)

include h

theorem markFree_renderSymbol (x : SymbolId) : MarkFree (s.renderSymbol x) := by
  have hname := (h.symbol x).markFree
  unfold renderSymbol Symbol.render
  split
  · have hcolon : MarkFree [':'] := by decide
    exact hcolon.append hname
  split
  · exact hname
  · have hhash : MarkFree ['#', ':'] := by decide
    exact hhash.append hname

theorem markFree_renderCallable (f : FunctionId) :
    MarkFree (s.renderCallable (s.callable f)) := by
  have hparameters (c : Closure) : MarkFree (spaced (c.parameters.map s.renderSymbol)) :=
    .spaced (List.forall_mem_map.mpr fun x _ => h.markFree_renderSymbol x)
  unfold renderCallable
  cases hf : s.callable f with
  | primitive op =>
    have hname : MarkFree op.name.toList := by cases op <;> decide
    exact (Fault.MarkFree.append (by decide) hname).append (by decide)
  | host f => exact absurd hf (h.callable_ne_host _ f)
  | lambda c => exact (Fault.MarkFree.append (by decide) (hparameters c)).append (by decide)
  | expander c => exact (Fault.MarkFree.append (by decide) (hparameters c)).append (by decide)

theorem markFree_renderAtom (v : Value) : MarkFree (s.renderAtom v) := by
  cases v with
  | symbol x => exact h.markFree_renderSymbol x
  | number n => exact .of_not_mem n.not_mem_render
  | string t => exact markFree_renderString t
  | character c => exact markFree_renderCharacter c
  | function f => exact h.markFree_renderCallable f
  | names id =>
    exact (Fault.MarkFree.append (by decide) (h.namespaceAt id).markFree).append (by decide)
  | nil => exact (by decide : MarkFree "NIL".toList)
  | truth => exact (by decide : MarkFree "T".toList)
  | cons | array | dictionary | hashTable => exact (by decide : MarkFree "...".toList)

theorem markFree_render (n : Nat) (v : Value) : MarkFree (s.render n v) := by
  induction n generalizing v with
  | zero => exact h.markFree_renderAtom v
  | succ n ih =>
    have hentries (es : List (Value × Value)) : MarkFree (es.flatMap fun e =>
        " (".toList ++ s.render n e.1 ++ ' ' :: s.render n e.2 ++ [')']) := by
      refine .flatMap fun e _ => ?_
      have hblank : MarkFree [' '] := by decide
      exact ((Fault.MarkFree.append (by decide) (ih e.1)).append
        (hblank.append (ih e.2))).append (by decide)
    cases v with
    | cons id =>
      have hitems (cells : List CellId) :
          MarkFree (spaced (cells.map fun c => s.render n (s.car c))) :=
        .spaced (List.forall_mem_map.mpr fun c _ => ih (s.car c))
      have hending (tail : Value) :
          MarkFree (if tail.isNil then [] else " . ".toList ++ s.render n tail) := by
        split
        · exact fun _ => rfl
        · exact Fault.MarkFree.append (by decide) (ih tail)
      have hopen : MarkFree ['('] := by decide
      exact hopen.append (((hitems _).append (hending _)).append (by decide))
    | array id =>
      have hitems : MarkFree (spaced ((s.arrayItems id).toList.map (s.render n))) :=
        .spaced (List.forall_mem_map.mpr fun v _ => ih v)
      have hopen : MarkFree ['['] := by decide
      exact hopen.append (hitems.append (by decide))
    | dictionary id => exact (Fault.MarkFree.append (by decide) (hentries _)).append (by decide)
    | hashTable id => exact (Fault.MarkFree.append (by decide) (hentries _)).append (by decide)
    | _ => exact h.markFree_renderAtom _

theorem markFree_print (v : Value) : MarkFree (s.print v).toList := by
  unfold print
  rw [String.toList_ofList]
  exact h.markFree_render printLevels v

end Interp.Native

/-! ## Faults -/

theorem Fault.MarkFree.join {a b : String} (h : MarkFree a.toList) (h' : MarkFree b.toList) :
    MarkFree (a ++ b).toList := by
  rw [String.toList_append]
  exact h.append h'

/-- The texts that a message takes over. -/
def EvaluationFault.texts : EvaluationFault → List String
  | .dottedForm text | .dottedArguments text | .notAssignable text | .dottedPlace text
  | .shortPlace text | .spliceOutsideList text | .spliceOfNonList text | .divisionByZero text
  | .overflow text | .uncaughtThrow text | .escaped text | .host text => [text]
  | .illegalPair collection got => [collection, got]
  | .depthLimit _ | .breakOutsideLoop | .returnOutsideCall | .throwOutsideTry | .negativeSize _
  | .indexOutOfBounds _ => []

def TypeFault.texts : TypeFault → List String
  | .notFunction text | .variableSymbol text | .namespaceName text | .properList text
  | .integerIndex text | .collection text | .hashKey text | .integerSize text
  | .mapCollection text | .host text => [text]
  | .parameterList operator got | .parameterSymbol operator got | .listOperand operator got
  | .numberOperand operator got => [operator, got]
  | .thrownText | .immutableString | .mapFunction => []

theorem markFree_toString_nat (n : Nat) : MarkFree (toString n).toList := by
  refine .of_not_mem ?_
  show 'o' ∉ (Nat.repr n).toList
  rw [Nat.toList_repr]
  exact not_mem_toDigits n

theorem markFree_toString_int (n : Int) : MarkFree (toString n).toList := by
  cases n with
  | ofNat n => exact markFree_toString_nat n
  | negSucc n => exact .join (by decide +kernel) (markFree_toString_nat (n + 1))

theorem EvaluationFault.markFree_message (cause : EvaluationFault)
    (h : ∀ t ∈ cause.texts, MarkFree t.toList) : MarkFree cause.message.toList := by
  cases cause with
  | dottedForm text | dottedArguments text | notAssignable text | dottedPlace text
  | shortPlace text | spliceOutsideList text | spliceOfNonList text | divisionByZero text
  | overflow text | uncaughtThrow text =>
    exact .join (by decide +kernel) (h text List.mem_cons_self)
  | escaped text => exact .join (h text List.mem_cons_self) (by decide +kernel)
  | host text => exact h text List.mem_cons_self
  | illegalPair collection got =>
    have hcollection := h collection List.mem_cons_self
    have hgot := h got (List.mem_cons_of_mem _ List.mem_cons_self)
    exact .join (.join (.join (by decide +kernel) hcollection) (by decide +kernel)) hgot
  | depthLimit n =>
    exact .join (.join (by decide +kernel) (markFree_toString_nat n)) (by decide +kernel)
  | negativeSize n => exact .join (by decide +kernel) (markFree_toString_int n)
  | indexOutOfBounds n =>
    exact .join (.join (by decide +kernel) (markFree_toString_int n)) (by decide +kernel)
  | breakOutsideLoop | returnOutsideCall | throwOutsideTry =>
    unfold message
    decide +kernel

theorem TypeFault.markFree_message (cause : TypeFault)
    (h : ∀ t ∈ cause.texts, MarkFree t.toList) : MarkFree cause.message.toList := by
  cases cause with
  | notFunction text => exact .join (h text List.mem_cons_self) (by decide +kernel)
  | variableSymbol text | namespaceName text | properList text | integerIndex text
  | collection text | hashKey text | integerSize text | mapCollection text =>
    exact .join (by decide +kernel) (h text List.mem_cons_self)
  | host text => exact h text List.mem_cons_self
  | parameterList operator got | parameterSymbol operator got | listOperand operator got
  | numberOperand operator got =>
    have hoperator := h operator List.mem_cons_self
    have hgot := h got (List.mem_cons_of_mem _ List.mem_cons_self)
    exact .join (.join hoperator (by decide +kernel)) hgot
  | thrownText | immutableString | mapFunction =>
    unfold message
    decide +kernel

namespace Fault

/-- Evaluation and type faults, the kinds that say in which form they were raised. -/
def Placed : Fault → Prop
  | .evaluation .. | .type .. => True
  | _ => False

/-- Nothing that the message of a fault takes over has the mark in it. -/
def Clean : Fault → Prop
  | .evaluation cause form =>
    (∀ t ∈ cause.texts, MarkFree t.toList) ∧ ∀ t ∈ form, MarkFree t.toList
  | .type cause form => (∀ t ∈ cause.texts, MarkFree t.toList) ∧ ∀ t ∈ form, MarkFree t.toList
  | _ => True

/-- A fault as an operation raises it: clean, and with no form in it. -/
def Raw (fault : Fault) : Prop := fault.Clean ∧ (fault.Placed → fault.lacksForm = true)

variable {fault : Fault}

theorem mentionsForm_of_markFree {text : String} (h : MarkFree text.toList) :
    mentionsForm text = false := by
  unfold mentionsForm
  rw [Bool.eq_false_iff, Ne, occurs_iff, occurrences_of_steps (h 0)]
  exact Nat.lt_irrefl 0

theorem raw_evaluation {cause : EvaluationFault} (h : ∀ t ∈ cause.texts, MarkFree t.toList) :
    Raw (.evaluation cause none) := by
  refine ⟨⟨h, nofun⟩, fun _ => ?_⟩
  show (!mentionsForm cause.message) = true
  rw [mentionsForm_of_markFree (cause.markFree_message h)]
  rfl

theorem raw_type {cause : TypeFault} (h : ∀ t ∈ cause.texts, MarkFree t.toList) :
    Raw (.type cause none) := by
  refine ⟨⟨h, nofun⟩, fun _ => ?_⟩
  show (!mentionsForm cause.message) = true
  rw [mentionsForm_of_markFree (cause.markFree_message h)]
  rfl

theorem Clean.withForm (h : fault.Clean) {form : String} (hform : MarkFree form.toList) :
    (fault.withForm form).Clean := by
  cases fault with
  | evaluation cause old => exact ⟨h.1, fun t ht => Option.some.inj ht ▸ hform⟩
  | type cause old => exact ⟨h.1, fun t ht => Option.some.inj ht ▸ hform⟩
  | _ => trivial

/-- Of a clean fault that has its form the message has the mark exactly once. -/
theorem Clean.occurrences_message (h : fault.Clean) (hplaced : fault.Placed)
    (hform : fault.lacksForm = false) :
    occurrences contextMark.toList fault.message.toList = 1 := by
  have hmessage {kind cause form : String} (hkind : MarkFree kind.toList)
      (hcause : MarkFree cause.toList) (hform : MarkFree form.toList) :
      occurrences contextMark.toList (kind ++ cause ++ formText (some form)).toList = 1 := by
    have hnamed : MarkFree ("while evaluating: " ++ form).toList := .join (by decide) hform
    have hparts : (kind ++ cause ++ formText (some form)).toList = (kind ++ cause).toList ++
        (contextMark.toList ++ ("while evaluating: " ++ form).toList) := by
      simp only [formText, String.toList_append, List.append_assoc]
    rw [hparts]
    exact occurrences_marked (.join hkind hcause) hnamed
  cases fault with
  | evaluation cause form =>
    cases form with
    | none =>
      rw [(raw_evaluation h.1).2 trivial] at hform
      cases hform
    | some form => exact hmessage (by decide) (cause.markFree_message h.1) (h.2 form rfl)
  | type cause form =>
    cases form with
    | none =>
      rw [(raw_type h.1).2 trivial] at hform
      cases hform
    | some form => exact hmessage (by decide) (cause.markFree_message h.1) (h.2 form rfl)
  | _ => exact hplaced.elim

end Fault

end SmallLisp
