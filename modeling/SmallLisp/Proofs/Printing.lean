import SmallLisp.Proofs.Completion
import SmallLisp.Proofs.RoundTrip

/-!
# Printing under a marker

`Interp.render` is given the levels that are left. Here a value is written without such a bound: a
marker counts the containers around it, each container raises the marker for its parts and puts it
back behind them, and a list is followed cell by cell up to its end. What takes the text may refuse
to take more. `writes_value` says that every run comes to an end where every list does: what is
written is the text that `render` gives for the levels that the marker leaves, and the marker is
back where it was, also behind a refusal.
-/

namespace SmallLisp

/-! ## Writing -/

/-- What printing works on. -/
structure Printing where
  /-- How many containers there are around what is being written. -/
  marker : Nat
  /-- The text written so far. -/
  text : List Char

/-- A run that writes. It may be refused, and its steps may not be enough. -/
abbrev PrintM := ExceptT Unit (StateT Printing Option)

/-- No steps are left. -/
def unfinished : PrintM Unit := fun _ => none

/-- Add to the text, if it fits. -/
def put (fits : List Char → Bool) (cs : List Char) : PrintM Unit := fun p =>
  if fits (p.text ++ cs) then some (.ok (), { p with text := p.text ++ cs })
  else some (.error (), p)

/-- Put a space between what is written and the next element, unless this is the first one. -/
def separate (fits : List Char → Bool) (first : Bool) : PrintM Unit :=
  if first then pure () else put fits [' ']

namespace Interp

mutual

/-- Write a value. A container inside `printLevels` others is left out. -/
def write (s : Interp) (fits : List Char → Bool) : Nat → Value → PrintM Unit
  | 0, _ => unfinished
  | n + 1, v => fun p =>
    if v.isContainer then
      if printLevels ≤ p.marker then put fits "...".toList p
      else do
        let (result, q) ← s.writeContainer fits n v { p with marker := p.marker + 1 }
        some (result, { q with marker := p.marker })
    else put fits (s.renderAtom v) p

def writeContainer (s : Interp) (fits : List Char → Bool) : Nat → Value → PrintM Unit
  | 0, _ => unfinished
  | n + 1, .cons id => do
    put fits ['(']
    s.writeList fits n true (.cons id)
    put fits [')']
  | n + 1, .array id => do
    put fits ['[']
    s.writeItems fits n true (s.arrayItems id).toList
    put fits [']']
  | n + 1, .dictionary id => do
    put fits "(dictionary".toList
    s.writeEntries fits n (s.dictionaryEntries id)
    put fits [')']
  | n + 1, .hashTable id => do
    put fits "(hashtable".toList
    s.writeEntries fits n (s.hashTable id).entries
    put fits [')']
  | _ + 1, v => put fits (s.renderAtom v)

/-- Write a list from one of its cells on, or what follows the last one. -/
def writeList (s : Interp) (fits : List Char → Bool) : Nat → Bool → Value → PrintM Unit
  | 0, _, _ => unfinished
  | n + 1, first, .cons id => do
    separate fits first
    s.write fits n (s.car id)
    s.writeList fits n false (s.cdr id)
  | _ + 1, _, .nil => pure ()
  | n + 1, _, tail => do
    put fits " . ".toList
    s.write fits n tail

def writeItems (s : Interp) (fits : List Char → Bool) : Nat → Bool → List Value → PrintM Unit
  | 0, _, _ => unfinished
  | _ + 1, _, [] => pure ()
  | n + 1, first, v :: rest => do
    separate fits first
    s.write fits n v
    s.writeItems fits n false rest

def writeEntries (s : Interp) (fits : List Char → Bool) : Nat → List (Value × Value) → PrintM Unit
  | 0, _ => unfinished
  | _ + 1, [] => pure ()
  | n + 1, (key, v) :: rest => do
    put fits " (".toList
    s.write fits n key
    put fits [' ']
    s.write fits n v
    put fits [')']
    s.writeEntries fits n rest

end

end Interp

/-! ## One level of a text -/

/-- A value that stands in a container, with what is written around it. -/
structure Slot where
  before : List Char
  value : Value
  after : List Char

namespace Slot

/-- Values with spaces between them. -/
def separated : Bool → List Value → List Slot
  | _, [] => []
  | first, v :: rest => ⟨if first then [] else [' '], v, []⟩ :: separated false rest

/-- What follows the last cell of a list. -/
def ending (tail : Value) : List Slot :=
  if tail.isNil then [] else [⟨" . ".toList, tail, []⟩]

def entry (e : Value × Value) : List Slot := [⟨" (".toList, e.1, []⟩, ⟨[' '], e.2, [')']⟩]

/-- The text of slots, each value having the text that `text` gives. -/
def write (text : Value → List Char) (slots : List Slot) : List Char :=
  slots.flatMap fun t => t.before ++ text t.value ++ t.after

theorem write_append (text : Value → List Char) (slots slots' : List Slot) :
    write text (slots ++ slots') = write text slots ++ write text slots' :=
  List.flatMap_append

theorem write_separated (text : Value → List Char) (vs : List Value) :
    write text (separated true vs) = spaced (vs.map text) := by
  have hrest : ∀ vs, write text (separated false vs) = (vs.map text).flatMap (' ' :: ·) := by
    intro vs
    induction vs with
    | nil => rfl
    | cons v vs ih =>
      rw [separated, write, List.flatMap_cons, List.append_nil]
      exact congrArg (' ' :: text v ++ ·) ih
  cases vs with
  | nil => rfl
  | cons v vs =>
    rw [separated, write, List.flatMap_cons, List.append_nil, List.map_cons, spaced_cons]
    exact congrArg (text v ++ ·) (hrest vs)

end Slot

namespace Interp

/-- What stands directly in a container, in the order in which it is written. -/
def slots (s : Interp) : Value → List Slot
  | .cons id => Slot.separated true (s.elementsOf (.cons id)) ++ Slot.ending (s.tailOf (.cons id))
  | .array id => Slot.separated true (s.arrayItems id).toList
  | .dictionary id => (s.dictionaryEntries id).flatMap Slot.entry
  | .hashTable id => (s.hashTable id).entries.flatMap Slot.entry
  | _ => []

end Interp

namespace Value

def opening : Value → List Char
  | .array _ => ['[']
  | .dictionary _ => "(dictionary".toList
  | .hashTable _ => "(hashtable".toList
  | _ => ['(']

def closing : Value → List Char
  | .array _ => [']']
  | _ => [')']

end Value

namespace Interp

variable {s : Interp} {v : Value}

/-- The text of a container whose parts have the texts that `text` gives. -/
def enclose (s : Interp) (text : Value → List Char) (v : Value) : List Char :=
  v.opening ++ Slot.write text (s.slots v) ++ v.closing

/-- The printer writes one level around the texts of the levels below it. -/
theorem render_container (hv : v.isContainer = true) (n : Nat) :
    s.render (n + 1) v = s.enclose (s.render n) v := by
  have hentries (es : List (Value × Value)) : Slot.write (s.render n) (es.flatMap Slot.entry) =
      es.flatMap fun e => " (".toList ++ s.render n e.1 ++ ' ' :: s.render n e.2 ++ [')'] := by
    rw [Slot.write, List.flatMap_assoc]
    refine List.flatMap_congr fun e _ => ?_
    simp [Slot.entry]
  cases v with
  | cons id =>
    have hending : Slot.write (s.render n) (Slot.ending (s.tailOf (.cons id))) =
        if (s.tailOf (.cons id)).isNil then []
        else " . ".toList ++ s.render n (s.tailOf (.cons id)) := by
      unfold Slot.ending
      split <;> simp [Slot.write]
    have hitems : (s.elementsOf (.cons id)).map (s.render n) =
        (s.cellsOf (.cons id)).map fun c => s.render n (s.car c) := List.map_map
    rw [enclose, slots, Slot.write_append, Slot.write_separated, hending, hitems]
    rfl
  | array id =>
    rw [enclose, slots, Slot.write_separated]
    rfl
  | dictionary id =>
    rw [enclose, slots, hentries]
    rfl
  | hashTable id =>
    rw [enclose, slots, hentries]
    rfl
  | _ => cases hv

theorem render_atom (hv : v.isContainer = false) (n : Nat) : s.render n v = s.renderAtom v := by
  cases v with
  | cons | array | dictionary | hashTable => cases hv
  | _ => cases n <;> rfl

/-- No level is left for a container. -/
theorem render_zero (hv : v.isContainer = true) : s.render 0 v = "...".toList := by
  cases v with
  | cons | array | dictionary | hashTable => rfl
  | _ => cases hv

end Interp

/-! ## What a run writes -/

/-- A run has gone from `p` to `q`, writing `cs`, or as much of it as was taken. The marker is where
it was. -/
structure Wrote (fits : List Char → Bool) (cs : List Char) (p : Printing)
    (result : Except Unit Unit) (q : Printing) : Prop where
  marker : q.marker = p.marker
  text : ∃ done, done <+: cs ∧ q.text = p.text ++ done ∧ (result = .ok () → done = cs)
  /-- Nothing but a refusal stops a run. -/
  unrefused : (∀ text, fits text = true) → result = .ok ()

/-- Wherever the marker stands at `marker`, a run comes to an end and writes `cs`. -/
def Writes (fits : List Char → Bool) (marker : Nat) (run : Nat → PrintM Unit) (cs : List Char) :
    Prop :=
  ∀ p : Printing, p.marker = marker →
    ∃ result q, Completes (fun n => run n p) (result, q) ∧ Wrote fits cs p result q

variable {fits : List Char → Bool} {marker : Nat} {run next : Nat → PrintM Unit}
  {cs ds : List Char}

/-- The first step of a run may be looked at by itself. -/
theorem Writes.step (h : Writes fits marker (fun n => run (n + 1)) cs) :
    Writes fits marker run cs := by
  intro p hp
  obtain ⟨result, q, hrun, hwrote⟩ := h p hp
  exact ⟨result, q, .step hrun, hwrote⟩

theorem writes_put (cs : List Char) : Writes fits marker (fun _ => put fits cs) cs := by
  intro p _
  by_cases hfits : fits (p.text ++ cs) = true
  · have hrun : put fits cs p = some (.ok (), { p with text := p.text ++ cs }) := if_pos hfits
    exact ⟨_, _, ⟨0, fun _ _ => hrun⟩, rfl, ⟨cs, List.prefix_refl cs, rfl, fun _ => rfl⟩,
      fun _ => rfl⟩
  · have hrun : put fits cs p = some (.error (), p) := if_neg hfits
    refine ⟨_, _, ⟨0, fun _ _ => hrun⟩, rfl, ⟨[], List.nil_prefix, (List.append_nil _).symm, ?_⟩,
      ?_⟩
    · exact fun hok => by cases hok
    · exact fun hall => absurd (hall _) hfits

theorem writes_pure : Writes fits marker (fun _ => pure ()) [] := fun p _ =>
  ⟨_, p, .const _, rfl, ⟨[], List.nil_prefix, (List.append_nil _).symm, fun _ => rfl⟩,
    fun _ => rfl⟩

theorem writes_separate (first : Bool) :
    Writes fits marker (fun _ => separate fits first) (if first then [] else [' ']) := by
  cases first with
  | true => exact writes_pure
  | false => exact writes_put _

/-- What follows a run is written behind it, unless the run was refused. -/
theorem Writes.bind (h : Writes fits marker run cs) (h' : Writes fits marker next ds) :
    Writes fits marker (fun n => run n >>= fun _ => next n) (cs ++ ds) := by
  intro p hp
  obtain ⟨result, q, hrun, hwrote⟩ := h p hp
  obtain ⟨done, hdone, htext, hwhole⟩ := hwrote.text
  cases result with
  | error refusal =>
    refine ⟨.error refusal, q, hrun.bind (.const _), hwrote.marker,
      ⟨done, hdone.trans (List.prefix_append cs ds), htext, ?_⟩, ?_⟩
    · exact fun hok => by cases hok
    · exact fun hall => by cases hwrote.unrefused hall
  | ok u =>
    obtain ⟨result', r, hnext, hwrote'⟩ := h' q (hwrote.marker.trans hp)
    obtain ⟨done', hdone', htext', hwhole'⟩ := hwrote'.text
    obtain rfl : done = cs := hwhole rfl
    refine ⟨result', r, hrun.bind hnext, hwrote'.marker.trans hwrote.marker,
      ⟨done ++ done', (List.prefix_append_right_inj done).mpr hdone', ?_, ?_⟩, hwrote'.unrefused⟩
    · rw [htext', htext, List.append_assoc]
    · exact fun hok => congrArg (done ++ ·) (hwhole' hok)

/-- What is written between two marks of a container. -/
theorem Writes.between (h : Writes fits marker run cs) (before after : List Char) :
    Writes fits marker (fun n => put fits before >>= fun _ => run n >>= fun _ => put fits after)
      (before ++ cs ++ after) := by
  rw [List.append_assoc]
  exact (writes_put before).bind (h.bind (writes_put after))

namespace Interp

variable {s : Interp} {v : Value} {text : Value → List Char}

/-- Every list of the store comes to an end. -/
def ListsEnd (s : Interp) : Prop := ∀ v, ∃ ids tail, Spine s v ids tail

/-! ## The parts of a container -/

section

variable (hpart : ∀ v, Writes fits marker (fun n => s.write fits n v) (text v))

include hpart

theorem writes_items (first : Bool) (vs : List Value) :
    Writes fits marker (fun n => s.writeItems fits n first vs)
      (Slot.write text (Slot.separated first vs)) := by
  induction vs generalizing first with
  | nil => exact .step writes_pure
  | cons v vs ih =>
    rw [Slot.separated, Slot.write, List.flatMap_cons, List.append_nil, List.append_assoc]
    exact .step ((writes_separate first).bind ((hpart v).bind (ih false)))

theorem writes_entries (es : List (Value × Value)) :
    Writes fits marker (fun n => s.writeEntries fits n es)
      (Slot.write text (es.flatMap Slot.entry)) := by
  induction es with
  | nil => exact .step writes_pure
  | cons e es ih =>
    have hentry : Slot.write text (Slot.entry e) =
        " (".toList ++ (text e.1 ++ ([' '] ++ (text e.2 ++ [')']))) := by
      simp [Slot.write, Slot.entry]
    rw [List.flatMap_cons, Slot.write_append, hentry]
    simp only [List.append_assoc]
    exact .step ((writes_put _).bind ((hpart e.1).bind ((writes_put _).bind
      ((hpart e.2).bind ((writes_put _).bind ih)))))

/-- A list that comes to an end is written up to there. -/
theorem writes_list {ids : List CellId} {tail : Value} (hspine : Spine s v ids tail)
    (first : Bool) :
    Writes fits marker (fun n => s.writeList fits n first v)
      (Slot.write text (Slot.separated first (ids.map s.car) ++ Slot.ending tail)) := by
  induction hspine generalizing first with
  | @atom v hatom =>
    by_cases hnil : v = .nil
    · subst hnil
      exact .step writes_pure
    · have hending : Slot.write text (Slot.separated first [] ++ Slot.ending v) =
          " . ".toList ++ text v := by
        have hisNil : ¬ v.isNil = true := fun h => hnil (Value.isNil_iff.mp h)
        simp [Slot.write, Slot.separated, Slot.ending, hisNil]
      have hrun (n : Nat) : s.writeList fits (n + 1) first v =
          put fits " . ".toList >>= fun _ => s.write fits n v := by
        rw [writeList]
        · exact fun id hcell => hatom ⟨id, hcell⟩
        · exact hnil
      refine .step ?_
      rw [List.map_nil, hending, funext hrun]
      exact (writes_put _).bind (hpart v)
  | @cell id ids tail _ ih =>
    rw [List.map_cons, Slot.separated, List.cons_append, Slot.write, List.flatMap_cons,
      List.append_nil, List.append_assoc]
    exact .step ((writes_separate first).bind ((hpart _).bind (ih false)))

theorem writes_container (hends : s.ListsEnd) (hv : v.isContainer = true) :
    Writes fits marker (fun n => s.writeContainer fits n v) (s.enclose text v) := by
  unfold enclose
  refine .step ?_
  cases v with
  | cons id =>
    obtain ⟨ids, tail, hspine⟩ := hends (.cons id)
    have hslots : s.slots (.cons id) = Slot.separated true (ids.map s.car) ++ Slot.ending tail := by
      simp only [slots, elementsOf, cellsOf, tailOf, hspine.spine_eq]
    rw [hslots]
    exact (writes_list hpart hspine true).between _ _
  | array id => exact (writes_items hpart true _).between _ _
  | dictionary id => exact (writes_entries hpart _).between _ _
  | hashTable id => exact (writes_entries hpart _).between _ _
  | _ => cases hv

end

/-- A container puts the marker back that it has raised for its parts. -/
theorem writes_nested (hv : v.isContainer = true) (hmarker : marker < printLevels)
    (hparts : Writes fits (marker + 1) (fun n => s.writeContainer fits n v) cs) :
    Writes fits marker (fun n => s.write fits n v) cs := by
  intro p hp
  obtain ⟨result, q, hrun, hwrote⟩ := hparts { p with marker := p.marker + 1 } (by rw [hp])
  refine ⟨result, { q with marker := p.marker }, .step ?_, rfl, hwrote.text, hwrote.unrefused⟩
  have hwrite (n : Nat) : s.write fits (n + 1) v p =
      (s.writeContainer fits n v { p with marker := p.marker + 1 }).bind
        fun (result, q) => some (result, { q with marker := p.marker }) := by
    rw [write]
    exact (if_pos hv).trans (if_neg (by omega))
  rw [funext hwrite]
  exact hrun.bind (.const _)

/-- What is not opened is written in one step: an atom, or a container that has no level left. -/
theorem writes_closed (h : v.isContainer = true → printLevels ≤ marker) :
    Writes fits marker (fun n => s.write fits n v)
      (if v.isContainer then "...".toList else s.renderAtom v) := by
  refine .step ?_
  intro p hp
  by_cases hv : v.isContainer = true
  · have hwrite (n : Nat) : s.write fits (n + 1) v p = put fits "...".toList p := by
      rw [write]
      exact (if_pos hv).trans (if_pos (hp ▸ h hv))
    rw [if_pos hv, funext hwrite]
    exact writes_put _ p hp
  · have hwrite (n : Nat) : s.write fits (n + 1) v p = put fits (s.renderAtom v) p := by
      rw [write]
      exact if_neg hv
    rw [if_neg hv, funext hwrite]
    exact writes_put _ p hp

/-- Where every list has an end, a value is written at any marker, with the levels that the marker
leaves. -/
theorem writes_value (hends : s.ListsEnd) (marker : Nat) (v : Value) :
    Writes fits marker (fun n => s.write fits n v) (s.render (printLevels - marker) v) := by
  -- the induction is on the levels that are left: a value inside itself has no smaller parts
  generalize hlevels : printLevels - marker = levels
  induction levels generalizing marker v with
  | zero =>
    have hclosed : Writes fits marker (fun n => s.write fits n v) _ :=
      writes_closed fun _ => Nat.sub_eq_zero_iff_le.mp hlevels
    by_cases hv : v.isContainer = true
    · rw [render_zero hv]
      rw [if_pos hv] at hclosed
      exact hclosed
    · rw [render_atom (by simpa using hv)]
      rw [if_neg hv] at hclosed
      exact hclosed
  | succ levels ih =>
    by_cases hv : v.isContainer = true
    · rw [render_container hv]
      exact writes_nested hv (by omega)
        (writes_container (fun v => ih (marker + 1) v (by omega)) hends hv)
    · have hclosed : Writes fits marker (fun n => s.write fits n v) _ :=
        writes_closed fun hcontainer => absurd hcontainer hv
      rw [render_atom (by simpa using hv)]
      rw [if_neg hv] at hclosed
      exact hclosed

end Interp

end SmallLisp
