import SmallLisp.Proofs.ReadingOn
import SmallLisp.Proofs.Session

/-!
# Texts on separate lines

A text and a further text on the lines below it are read as the data of the one and then those of
the other, and they run as the one text and then the other: forms are interned one at a time, so
whatever the first text changes counts for the second. A failure of the first ends the run with
nothing of the second interned. The value of a text is that of its last form, so a second text
without any form leaves the value of the first.
-/

namespace SmallLisp

/-! ## Reading -/

/-- The data of two texts on separate lines, or the problem of the second. -/
theorem readTop_texts {options : ReadOptions} {a : String} {das : List Datum}
    (ha : readData options a = .ok das) (b : String) :
    readTop options 0 ((a ++ "\n" ++ b).toList.length + 1) [] (a ++ "\n" ++ b).toList =
      (readTop options 0 (b.toList.length + 1) [] b.toList).map (das ++ ·) := by
  have htext : (a ++ "\n" ++ b).toList = a.toList ++ '\n' :: b.toList := by
    rw [String.toList_append, String.toList_append, List.append_assoc]
    rfl
  rw [htext]
  exact readTop_lines (Nat.lt_succ_self _) (Nat.lt_succ_self _) (Nat.lt_succ_self _)
    (readData_eq_ok.mp ha)

theorem readData_texts {options : ReadOptions} {a b : String} {das dbs : List Datum}
    (ha : readData options a = .ok das) (hb : readData options b = .ok dbs) :
    readData options (a ++ "\n" ++ b) = .ok (das ++ dbs) := by
  rw [readData_eq_ok, readTop_texts ha, readData_eq_ok.mp hb]
  rfl

theorem readData_texts_error {options : ReadOptions} {a b : String} {das : List Datum}
    (ha : readData options a = .ok das) {fault : Fault} (hb : readData options b = .error fault) :
    ∃ fault', readData options (a ++ "\n" ++ b) = .error fault' := by
  cases hread : readData options (a ++ "\n" ++ b) with
  | error fault' => exact ⟨fault', rfl⟩
  | ok data =>
    rw [readData_eq_ok, readTop_texts ha] at hread
    cases htop : readTop options 0 (b.toList.length + 1) [] b.toList with
    | error stuck =>
      rw [htop] at hread
      cases hread
    | ok dbs =>
      rw [readData_eq_ok.mpr htop] at hb
      cases hb

/-! ## Running -/

namespace Machine

theorem evaluateData_append (m : Machine) (last : Value) (ds es : List Datum) :
    m.evaluateData last (ds ++ es) = m.evaluateData last ds >>= fun v => m.evaluateData v es := by
  induction ds generalizing last with
  | nil => rfl
  | cons d ds ih =>
    rw [List.cons_append, evaluateData_cons, evaluateData_cons, bind_assoc]
    exact congrArg _ (funext fun v => ih v)

/-- The value so far counts only where there are no more data. -/
theorem evaluateData_last (m : Machine) (v w : Value) {es : List Datum} (hne : es ≠ []) :
    m.evaluateData v es = m.evaluateData w es := by
  cases es with
  | nil => exact absurd rfl hne
  | cons d es => rfl

theorem evaluateText_eq (m : Machine) {source : String} {ds : List Datum}
    (h : readData .standard source = .ok ds) :
    m.evaluateText source = m.evaluateData .nil ds := by
  unfold evaluateText EvalM.readText
  rw [h]
  rfl

end Machine

/-- Two texts on separate lines are read and run one after the other. If the first runs to its end,
the second runs in the state it leaves, and a second text without data leaves its value; if it
fails, so does the whole, in the same state. -/
theorem texts_in_sequence {a : String} {das : List Datum} (ha : readData .standard a = .ok das)
    (b : String) :
    (∀ fault, readData .standard b = .error fault →
      ∃ fault', readData .standard (a ++ "\n" ++ b) = .error fault') ∧
    ∀ dbs, readData .standard b = .ok dbs →
      readData .standard (a ++ "\n" ++ b) = .ok (das ++ dbs) ∧
      ∀ (m : Machine) (s : Interp),
        (∀ v u, m.evaluateText a s = .ok v u →
          m.evaluateText (a ++ "\n" ++ b) s =
            if dbs = [] then .ok v u else m.evaluateText b u) ∧
        ∀ flow u, m.evaluateText a s = .error flow u →
          m.evaluateText (a ++ "\n" ++ b) s = .error flow u := by
  refine ⟨fun fault hb => readData_texts_error ha hb, fun dbs hb => ?_⟩
  have hboth := readData_texts ha hb
  refine ⟨hboth, fun m s => ?_⟩
  rw [m.evaluateText_eq ha, m.evaluateText_eq hb, m.evaluateText_eq hboth, m.evaluateData_append]
  constructor
  · intro v u hv
    rw [(EvalM.ends_ok.mpr hv).bind_eq]
    split
    next hnil =>
      rw [hnil]
      rfl
    next hne => rw [m.evaluateData_last v .nil hne]
  · intro flow u hflow
    exact EvalM.bind_error hflow

/-- A variable that one line declares is added to on the next, and a line that cannot be read is a
problem of both. -/
theorem declared_then_added :
    (∃ fault, readData .standard ("(var x 1)" ++ "\n" ++ "(+ x") = .error fault) ∧
    ∃ u, Machine.small.evaluateText "(var x 1)" (.initial 16) = .ok (.ofNat 1) u ∧
      Machine.small.evaluateText ("(var x 1)" ++ "\n" ++ "(+ x 1)") (.initial 16) =
        Machine.small.evaluateText "(+ x 1)" u := by
  have ha : readData .standard "(var x 1)" =
      .ok [.list [.symbol (.plain "VAR"), .symbol (.plain "X"), .number (.int 1)]] :=
    rfl
  have hb : readData .standard "(+ x 1)" =
      .ok [.list [.symbol (.plain "+"), .symbol (.plain "X"), .number (.int 1)]] :=
    rfl
  have hopen : readData .standard "(+ x" = .error (.parse .unexpectedEnd) := rfl
  have hanswer : (Machine.small.evaluateText "(var x 1)").answer? (.initial 16) =
      some (.ofNat 1) := by
    decide +kernel
  have hfirst := EvalM.ends_ok.mp (EvalM.ends_of_answer? hanswer)
  obtain ⟨-, hrun⟩ := (texts_in_sequence ha "(+ x 1)").2 _ hb
  have hboth := (hrun Machine.small (.initial 16)).1 _ _ hfirst
  rw [if_neg (List.cons_ne_nil _ _)] at hboth
  exact ⟨(texts_in_sequence ha "(+ x").1 _ hopen, _, hfirst, hboth⟩

/-- A line without a form does not answer for itself: the value is the one of the line above. -/
theorem blank_line_keeps_value :
    ¬ ∀ (a b : String) (das dbs : List Datum), readData .standard a = .ok das →
      readData .standard b = .ok dbs → ∀ (m : Machine) (s : Interp) (v : Value) (u : Interp),
        m.evaluateText a s = .ok v u →
          m.evaluateText (a ++ "\n" ++ b) s = m.evaluateText b u := by
  intro hall
  have ha : readData .standard "1" = .ok [.number (.int 1)] := rfl
  have hb : readData .standard "" = .ok [] := rfl
  have hanswer : (Machine.small.evaluateText "1").answer? (.initial 16) = some (.ofNat 1) := by
    decide +kernel
  have hboth : (Machine.small.evaluateText ("1" ++ "\n" ++ "")).answer? (.initial 16) =
      some (.ofNat 1) := by
    decide +kernel
  have hfirst := EvalM.ends_ok.mp (EvalM.ends_of_answer? hanswer)
  have hsame := hall "1" "" _ _ ha hb Machine.small (.initial 16) _ _ hfirst
  unfold EvalM.answer? at hboth
  rw [hsame] at hboth
  cases hboth

end SmallLisp
