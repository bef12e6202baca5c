import SmallLisp.Proofs.Chains
import SmallLisp.Proofs.Printing

/-!
# What is left out of a printed text

A way into a value leads from each container on it to what stands in one of its slots. A value that
is inside itself has ways of every length, and its text still has an end. `Interp.pieces` takes the
text apart into pieces, each with the way to the occurrence that it is written for.
`writtenFor_pieces` says what is written for each occurrence: its own part of the text, the elision
where it is the first container on its way that is nested too deep, or nothing behind such a one.
-/

namespace SmallLisp

/-! ## Pieces of a text -/

/-- The way to an occurrence: a slot of the whole, a slot of what stands there, and so on. -/
abbrev Way := List Nat

inductive Piece where
  | text (cs : List Char)
  | elision
deriving DecidableEq, Repr

def Piece.write : Piece → List Char
  | .text cs => cs
  | .elision => "...".toList

/-- The text of pieces in order. -/
def writePieces (pieces : List (Way × Piece)) : List Char := pieces.flatMap fun e => e.2.write

/-- The pieces that are written for the occurrence at the end of a way. -/
def writtenFor (way : Way) (pieces : List (Way × Piece)) : List Piece :=
  pieces.filterMap fun e => if e.1 = way then some e.2 else none

theorem writtenFor_append (way : Way) (as bs : List (Way × Piece)) :
    writtenFor way (as ++ bs) = writtenFor way as ++ writtenFor way bs :=
  List.filterMap_append

theorem writtenFor_own (piece : Piece) (pieces : List (Way × Piece)) :
    writtenFor [] (([], piece) :: pieces) = piece :: writtenFor [] pieces := by
  simp [writtenFor]

theorem writtenFor_further (i : Nat) (way : Way) (piece : Piece) (pieces : List (Way × Piece)) :
    writtenFor (i :: way) (([], piece) :: pieces) = writtenFor (i :: way) pieces := by
  simp [writtenFor]

/-- Further inside, the pieces are those of the occurrence in that slot. -/
theorem writtenFor_cons (i j : Nat) (way : Way) (pieces : List (Way × Piece)) :
    writtenFor (i :: way) (pieces.map fun e => (j :: e.1, e.2)) =
      if i = j then writtenFor way pieces else [] := by
  rw [writtenFor, List.filterMap_map]
  split
  next h =>
    subst h
    exact List.filterMap_congr fun e _ => by simp
  next h =>
    refine List.filterMap_eq_nil_iff.mpr fun e _ => ?_
    simp [Ne.symm h]

theorem writtenFor_whole (j : Nat) (pieces : List (Way × Piece)) :
    writtenFor [] (pieces.map fun e => (j :: e.1, e.2)) = [] := by
  rw [writtenFor, List.filterMap_map]
  exact List.filterMap_eq_nil_iff.mpr fun e _ => by simp

namespace Slot

variable {inner : Value → List (Way × Piece)}

/-- The pieces of slots from number `i` on, those of the values being given by `inner`. -/
def pieces (inner : Value → List (Way × Piece)) : Nat → List Slot → List (Way × Piece)
  | _, [] => []
  | i, t :: rest =>
    ([], .text t.before) :: ((inner t.value).map (fun e => (i :: e.1, e.2)) ++
      ([], .text t.after) :: pieces inner (i + 1) rest)

/-- What is written around the values. -/
def ownPieces (slots : List Slot) : List Piece :=
  slots.flatMap fun t => [.text t.before, .text t.after]

theorem writePieces_pieces (i : Nat) (slots : List Slot) :
    writePieces (pieces inner i slots) = Slot.write (fun v => writePieces (inner v)) slots := by
  induction slots generalizing i with
  | nil => rfl
  | cons t rest ih =>
    have hinner : writePieces ((inner t.value).map fun e => (i :: e.1, e.2)) =
        writePieces (inner t.value) := List.flatMap_map ..
    have hrest : Slot.write (fun v => writePieces (inner v)) (t :: rest) =
        t.before ++ writePieces (inner t.value) ++ t.after ++
          Slot.write (fun v => writePieces (inner v)) rest := List.flatMap_cons
    rw [hrest, ← ih (i + 1), ← hinner]
    simp [pieces, writePieces, Piece.write]

theorem writtenFor_pieces_nil (i : Nat) (slots : List Slot) :
    writtenFor [] (pieces inner i slots) = ownPieces slots := by
  induction slots generalizing i with
  | nil => rfl
  | cons t rest ih =>
    rw [pieces, writtenFor_own, writtenFor_append, writtenFor_whole, List.nil_append,
      writtenFor_own, ih]
    rfl

theorem writtenFor_pieces_cons (i j : Nat) (way : Way) (slots : List Slot) :
    writtenFor (i :: way) (pieces inner j slots) =
      if j ≤ i then (slots[i - j]?).elim [] fun t => writtenFor way (inner t.value) else [] := by
  induction slots generalizing j with
  | nil => simp [pieces, writtenFor]
  | cons t rest ih =>
    rw [pieces, writtenFor_further, writtenFor_append, writtenFor_cons, writtenFor_further, ih]
    rcases Nat.lt_trichotomy i j with hlt | rfl | hlt
    · rw [if_neg (by omega), if_neg (by omega), if_neg (by omega)]
      rfl
    · rw [if_pos rfl, if_neg (by omega), if_pos (Nat.le_refl i), Nat.sub_self, List.append_nil]
      rfl
    · obtain ⟨k, hk⟩ : ∃ k, i - j = k + 1 := ⟨i - j - 1, by omega⟩
      have hk' : i - (j + 1) = k := by omega
      rw [if_neg (by omega), if_pos (by omega), if_pos (by omega), hk, hk']
      rfl

end Slot

/-! ## Occurrences -/

namespace Interp

variable {s : Interp} {v w : Value} {way : Way}

/-- What stands at the end of a way. -/
def occurrence? (s : Interp) : Value → Way → Option Value
  | v, [] => some v
  | v, i :: way => ((s.slots v)[i]?).bind fun t => s.occurrence? t.value way

theorem occurrence?_append (v : Value) (way way' : Way) :
    s.occurrence? v (way ++ way') = (s.occurrence? v way).bind fun w => s.occurrence? w way' := by
  induction way generalizing v with
  | nil => rfl
  | cons i way ih =>
    rw [List.cons_append, occurrence?, occurrence?, Option.bind_assoc]
    exact congrArg _ (funext fun t => ih t.value)

/-- Only a container has something in it. -/
theorem isContainer_of_inside {i : Nat} (h : s.occurrence? v (i :: way) = some w) :
    v.isContainer = true := by
  cases v with
  | cons | array | dictionary | hashTable => rfl
  | _ => cases h

/-- The pieces that are written for a value and not for what stands in it. -/
def ownPieces (s : Interp) (v : Value) : List Piece :=
  if v.isContainer then .text v.opening :: (Slot.ownPieces (s.slots v) ++ [.text v.closing])
  else [.text (s.renderAtom v)]

/-- The pieces of the text of a value with this many levels left. -/
def pieces (s : Interp) : Nat → Value → List (Way × Piece)
  | 0, v => [([], if v.isContainer then .elision else .text (s.renderAtom v))]
  | levels + 1, v =>
    if v.isContainer then
      ([], .text v.opening) ::
        (Slot.pieces (s.pieces levels) 0 (s.slots v) ++ [([], .text v.closing)])
    else [([], .text (s.renderAtom v))]

theorem writePieces_pieces (levels : Nat) (v : Value) :
    writePieces (s.pieces levels v) = s.render levels v := by
  induction levels generalizing v with
  | zero =>
    by_cases hv : v.isContainer = true
    · rw [pieces, if_pos hv, render_zero hv]
      rfl
    · rw [pieces, if_neg hv, render_atom (by simpa using hv)]
      exact List.append_nil _
  | succ levels ih =>
    by_cases hv : v.isContainer = true
    · have hslots : writePieces (Slot.pieces (s.pieces levels) 0 (s.slots v)) = _ :=
        Slot.writePieces_pieces 0 (s.slots v)
      rw [funext ih] at hslots
      rw [pieces, if_pos hv, render_container hv, enclose, ← hslots]
      simp [writePieces, Piece.write]
    · rw [pieces, if_neg hv, render_atom (by simpa using hv)]
      exact List.append_nil _

/-- What is written for a value inside `depth` containers, where `levels` are written. -/
def due (s : Interp) (levels depth : Nat) (v : Value) : List Piece :=
  if depth < levels then s.ownPieces v
  else if depth = levels then if v.isContainer then [.elision] else s.ownPieces v
  else []

/-- The pieces of each occurrence. -/
theorem writtenFor_pieces (levels : Nat) (v : Value) (way : Way) :
    writtenFor way (s.pieces levels v) =
      (s.occurrence? v way).elim [] (s.due levels way.length) := by
  induction levels generalizing v way with
  | zero =>
    cases way with
    | nil =>
      by_cases hv : v.isContainer = true <;>
        simp [pieces, writtenFor, occurrence?, due, ownPieces, hv]
    | cons i way =>
      have hnothing : s.due 0 (way.length + 1) = fun _ => [] := rfl
      rw [pieces, writtenFor_further, List.length_cons, hnothing]
      cases s.occurrence? v (i :: way) <;> rfl
  | succ levels ih =>
    by_cases hv : v.isContainer = true
    · rw [pieces, if_pos hv]
      cases way with
      | nil =>
        rw [writtenFor_own, writtenFor_append, Slot.writtenFor_pieces_nil]
        simp [writtenFor, occurrence?, due, ownPieces, hv]
      | cons i way =>
        have hdue : s.due (levels + 1) (way.length + 1) = s.due levels way.length := by
          funext w
          simp [due]
        rw [writtenFor_further, writtenFor_append, Slot.writtenFor_pieces_cons,
          if_pos (Nat.zero_le i), Nat.sub_zero, writtenFor_further, occurrence?, List.length_cons,
          hdue]
        cases (s.slots v)[i]? with
        | none => rfl
        | some t =>
          show writtenFor way (s.pieces levels t.value) ++ [] = _
          rw [List.append_nil, ih]
          rfl
    · rw [pieces, if_neg hv]
      cases way with
      | nil => simp [writtenFor, occurrence?, due, ownPieces, hv]
      | cons i way =>
        rw [writtenFor_further]
        cases hinside : s.occurrence? v (i :: way) with
        | none => rfl
        | some w => exact absurd (isContainer_of_inside hinside) hv

/-! ## Where the elision stands -/

theorem elision_not_own (v : Value) : .elision ∉ s.ownPieces v := by
  unfold ownPieces Slot.ownPieces
  split <;> simp

/-- The elision is written for the containers for which no level is left, and for nothing else. -/
theorem elision_mem_pieces {levels : Nat} :
    .elision ∈ writtenFor way (s.pieces levels v) ↔
      ∃ w, s.occurrence? v way = some w ∧ w.isContainer = true ∧ way.length = levels := by
  rw [writtenFor_pieces]
  cases s.occurrence? v way with
  | none => simp
  | some w =>
    have hown := elision_not_own (s := s) w
    simp only [Option.elim_some, due, Option.some.injEq, exists_eq_left']
    by_cases hlevel : way.length < levels
    · rw [if_pos hlevel]
      exact ⟨fun h => absurd h hown, fun h => by omega⟩
    · rw [if_neg hlevel]
      by_cases hlast : way.length = levels
      · rw [if_pos hlast]
        by_cases hw : w.isContainer = true
        · simp [hw, hlast]
        · rw [if_neg hw]
          exact ⟨fun h => absurd h hown, fun h => absurd h.1 hw⟩
      · rw [if_neg hlast]
        exact ⟨fun h => absurd h List.not_mem_nil, fun h => absurd h.2 hlast⟩

/-- Inside an occurrence that has something in it there is a container on every shorter way. -/
theorem occurrence?_take {levels : Nat} (h : s.occurrence? v way = some w)
    (hlength : levels < way.length) :
    ∃ u, s.occurrence? v (way.take levels) = some u ∧ u.isContainer = true := by
  rw [← List.take_append_drop levels way, occurrence?_append] at h
  obtain ⟨u, hu, hinside⟩ := Option.bind_eq_some_iff.mp h
  obtain ⟨i, rest, hrest⟩ := List.exists_cons_of_length_pos (l := way.drop levels)
    (by rw [List.length_drop]; omega)
  rw [hrest] at hinside
  exact ⟨u, hu, isContainer_of_inside hinside⟩

/-- A container occurrence is left out, by itself or with one around it, when it is nested at least
as deep as there are levels. -/
theorem elided_iff {levels : Nat} (h : s.occurrence? v way = some w) (hw : w.isContainer = true) :
    (∃ outer, outer <+: way ∧ .elision ∈ writtenFor outer (s.pieces levels v)) ↔
      levels ≤ way.length := by
  simp only [elision_mem_pieces]
  constructor
  · rintro ⟨outer, houter, u, hu, hcontainer, rfl⟩
    exact houter.length_le
  · intro hdeep
    rcases Nat.eq_or_lt_of_le hdeep with hlast | hinside
    · exact ⟨way, List.prefix_refl way, w, h, hw, hlast.symm⟩
    · obtain ⟨u, hu, hcontainer⟩ := occurrence?_take h hinside
      exact ⟨way.take levels, List.take_prefix levels way, u, hu, hcontainer,
        List.length_take_of_le hdeep⟩

/-- With more levels than there are containers inside each other the text is the whole one. -/
theorem render_of_shallow {levels : Nat}
    (hshallow : ∀ way w, s.occurrence? v way = some w → w.isContainer = true →
      way.length < levels) (more : Nat) :
    s.render (levels + more) v = s.render levels v := by
  induction levels generalizing v with
  | zero =>
    have hv : v.isContainer = false :=
      Bool.eq_false_iff.mpr fun hv => Nat.not_lt_zero 0 (hshallow [] v rfl hv)
    rw [render_atom hv, render_atom hv]
  | succ levels ih =>
    by_cases hv : v.isContainer = true
    · rw [Nat.add_right_comm, render_container hv, render_container hv, enclose, enclose]
      have hparts : Slot.write (s.render (levels + more)) (s.slots v) =
          Slot.write (s.render levels) (s.slots v) := by
        refine List.flatMap_congr fun t ht => ?_
        obtain ⟨i, hi⟩ := List.mem_iff_getElem?.mp ht
        rw [ih fun way w hocc hw => ?_]
        have hlonger : s.occurrence? v (i :: way) = some w := by rw [occurrence?, hi]; exact hocc
        exact Nat.lt_of_succ_lt_succ (hshallow (i :: way) w hlonger hw)
      rw [hparts]
    · rw [render_atom (by simpa using hv), render_atom (by simpa using hv)]

/-- How the pieces of a value inside `marker` containers are those of its whole structure, but for
what is nested too deep. -/
structure Elides (s : Interp) (marker : Nat) (v : Value) (pieces : List (Way × Piece)) : Prop where
  /-- The elision is written for containers that are nested too deep, and is all that is written
  for them. -/
  only : ∀ way, .elision ∈ writtenFor way pieces →
    writtenFor way pieces = [.elision] ∧
    ∃ w, s.occurrence? v way = some w ∧ w.isContainer = true ∧ printLevels ≤ marker + way.length
  /-- Each such container is left out, by itself or with one around it, and no other one is. -/
  deep : ∀ way w, s.occurrence? v way = some w → w.isContainer = true →
    ((∃ outer, outer <+: way ∧ .elision ∈ writtenFor outer pieces) ↔
      printLevels ≤ marker + way.length)
  /-- What is not left out is written as it is. -/
  whole : ∀ way w, s.occurrence? v way = some w →
    (¬ ∃ outer, outer <+: way ∧ .elision ∈ writtenFor outer pieces) →
    writtenFor way pieces = s.ownPieces w
  /-- Inside what is left out nothing is written. -/
  inside : ∀ outer way, .elision ∈ writtenFor outer pieces → outer <+: way → outer ≠ way →
    writtenFor way pieces = []
  /-- Nothing is written that does not stand in the value. -/
  nothing : ∀ way, s.occurrence? v way = none → writtenFor way pieces = []

theorem elides_pieces (marker : Nat) (v : Value) :
    s.Elides marker v (s.pieces (printLevels - marker) v) := by
  have hlevels (n : Nat) : printLevels - marker ≤ n ↔ printLevels ≤ marker + n := by omega
  have hdeep : ∀ way w, s.occurrence? v way = some w → w.isContainer = true →
      ((∃ outer, outer <+: way ∧
        .elision ∈ writtenFor outer (s.pieces (printLevels - marker) v)) ↔
      printLevels ≤ marker + way.length) :=
    fun way w h hw => (elided_iff h hw).trans (hlevels _)
  refine ⟨fun way h => ?_, hdeep, fun way w h hshown => ?_, fun outer way h hprefix hne => ?_,
    fun way h => ?_⟩
  · obtain ⟨w, hocc, hw, hlength⟩ := elision_mem_pieces.mp h
    refine ⟨?_, w, hocc, hw, (hlevels _).mp hlength.ge⟩
    rw [writtenFor_pieces, hocc]
    show s.due _ _ w = _
    rw [due, if_neg (by omega), if_pos hlength, if_pos hw]
  · rw [writtenFor_pieces, h]
    show s.due _ _ w = _
    rw [due]
    by_cases hlevel : way.length < printLevels - marker
    · rw [if_pos hlevel]
    · rw [if_neg hlevel]
      by_cases hw : w.isContainer = true
      · exact absurd ((elided_iff h hw).mpr (by omega)) hshown
      · by_cases hlast : way.length = printLevels - marker
        · rw [if_pos hlast, if_neg hw]
        · obtain ⟨u, hu, hcontainer⟩ := occurrence?_take h
            (show printLevels - marker < way.length by omega)
          have hmem := elision_mem_pieces.mpr ⟨u, hu, hcontainer,
            List.length_take_of_le (show printLevels - marker ≤ way.length by omega)⟩
          exact absurd ⟨_, List.take_prefix _ way, hmem⟩ hshown
  · obtain ⟨_, _, _, hlength⟩ := elision_mem_pieces.mp h
    have hlonger : outer.length < way.length :=
      Nat.lt_of_le_of_ne hprefix.length_le fun heq => hne (List.IsPrefix.eq_of_length hprefix heq)
    rw [writtenFor_pieces]
    cases s.occurrence? v way with
    | none => rfl
    | some w =>
      show s.due _ _ w = _
      rw [due, if_neg (by omega), if_neg (by omega)]
  · rw [writtenFor_pieces, h]
    rfl

/-- Printing comes to an end on every value, also on one that is inside itself, if every list does.
Where the marker stands before, it stands afterwards, whether or not all of the text was taken. The
elision is written for the containers that are nested too deep, and where there are none of these
the text is that of the complete structure, which more levels do not change. -/
theorem printing_ends (hends : s.ListsEnd) (fits : List Char → Bool) (v : Value) (p : Printing) :
    ∃ pieces,
      (∃ result q, Completes (fun n => s.write fits n v p) (result, q) ∧
        Wrote fits (writePieces pieces) p result q) ∧
      s.Elides p.marker v pieces ∧
      ((∀ way w, s.occurrence? v way = some w → w.isContainer = true →
          p.marker + way.length < printLevels) →
        ∀ levels, printLevels - p.marker ≤ levels → writePieces pieces = s.render levels v) ∧
      (p.marker = 0 → writePieces pieces = (s.print v).toList) := by
  refine ⟨s.pieces (printLevels - p.marker) v, ?_, elides_pieces p.marker v, ?_, ?_⟩
  · rw [writePieces_pieces]
    exact writes_value hends p.marker v p rfl
  · intro hshallow levels hlevels
    obtain ⟨more, rfl⟩ := Nat.exists_eq_add_of_le hlevels
    rw [writePieces_pieces]
    refine (render_of_shallow (fun way w h hw => ?_) more).symm
    have := hshallow way w h hw
    omega
  · intro hmarker
    rw [writePieces_pieces, hmarker, print, String.toList_ofList, Nat.sub_zero]

/-- In every state of a session every list comes to an end. -/
theorem listsEnd_of_session {limit : Nat} (h : Session (fun _ => True) (.initial limit) s) :
    s.ListsEnd :=
  h.descends.spine

theorem self_containing_list_printed : ∃ (s : Interp) (id : CellId), s.car id = .cons id ∧
    s.ListsEnd ∧ ∃ pieces q,
      Completes (fun n => s.write (fun _ => true) n (.cons id) ⟨0, []⟩) (.ok (), q) ∧
      q.marker = 0 ∧ q.text = writePieces pieces ∧
      writtenFor (List.replicate printLevels 0) pieces = [.elision] := by
  obtain ⟨s, hs⟩ : ∃ s, s = (Interp.initial 64).afterTexts
    [(.small, "(var x (list 1 2))"), (.small, "(= (elt x 0) x)")] := ⟨_, rfl⟩
  have hsession : Session (fun _ => True) (.initial 64) s := hs ▸ Session.start.afterTexts _
  have hends : s.ListsEnd := listsEnd_of_session hsession
  obtain ⟨id, hid, hslot⟩ : ∃ id, s.car id = .cons id ∧
      ((s.slots (.cons id))[0]?).map Slot.value = some (.cons id) := by
    rw [hs]
    exact ⟨⟨7⟩, by decide +kernel⟩
  have hocc : ∀ n, s.occurrence? (.cons id) (List.replicate n 0) = some (.cons id) := by
    intro n
    induction n with
    | zero => rfl
    | succ n ih =>
      obtain ⟨t, ht, hvalue⟩ := Option.map_eq_some_iff.mp hslot
      rw [List.replicate_succ, occurrence?, ht, Option.bind_some, hvalue, ih]
  obtain ⟨pieces, ⟨result, q, hrun, hwrote⟩, helides, -, -⟩ :=
    printing_ends hends (fun _ => true) (.cons id) ⟨0, []⟩
  obtain ⟨done, -, htext, hwhole⟩ := hwrote.text
  have hresult : result = .ok () := hwrote.unrefused fun _ => rfl
  subst hresult
  have hlength : (List.replicate printLevels 0).length = printLevels := List.length_replicate
  obtain ⟨outer, houter, hmem⟩ := (helides.deep _ _ (hocc printLevels) rfl).mpr (by simp)
  obtain ⟨honly, w, -, -, hdeep⟩ := helides.only outer hmem
  have hlast : outer = List.replicate printLevels 0 :=
    List.IsPrefix.eq_of_length_le houter (by rw [hlength]; simpa using hdeep)
  refine ⟨s, id, hid, hends, pieces, q, hrun, hwrote.marker, ?_, hlast ▸ honly⟩
  rw [htext, hwhole rfl]
  rfl

end Interp

end SmallLisp
