import SmallLisp.Proofs.DiscreetRuns
import SmallLisp.Proofs.Session

/-!
# Discreet sessions

Interning a datum brings in symbols, the values of symbols and new lists, and so do whole texts with
what they evaluate. Cells that the state withholds stay withheld over a session, every other cell
keeps its second half, and chains of cells that come to an end still do.
-/

namespace SmallLisp

open ListBuilding (Sparing)

variable {hidden secret : CellId → Prop} {s t u : Interp}

/-- The host programs of the machine are discreet. -/
def Machine.Discreet (m : Machine) : Prop := m.hosts.Discreet

namespace Discreet

/-! ## Interning -/

/-- The symbol of a name is found or made. -/
theorem resolve (name : SymbolName) (hs : s.Withholds hidden) :
    Discreet hidden (fun _ _ => True) s
      (EvalM.namespaceStep (fun s => s.resolve name) s) := by
  refine namespaceStep hs fun x u h => ?_
  cases name with
  | plain name => exact hs.internIn h
  | keyword name => exact hs.internKeyword h
  | exported container name =>
    obtain ⟨id, -, heq⟩ := ok_of_map h
    cases heq
    exact .refl hs
  | interned container name =>
    replace h : s.findInterned container name = .ok (x, u) := h
    unfold Interp.findInterned at h
    split at h
    · cases h
    · split at h
      · exact hs.internKeyword h
      · exact hs.internIn h

/-- What a symbol reads as. -/
theorem known_symbol (hs : s.Withholds hidden) (x : SymbolId) :
    ((s.symbol x).selfValue.getD (.symbol x)).Known hidden s := by
  cases hself : (s.symbol x).selfValue with
  | none => exact nofun
  | some v =>
    unfold Interp.symbol at hself
    cases hx : s.symbols[x.index]? with
    | none =>
      rw [hx] at hself
      cases hself
    | some symbol =>
      rw [hx] at hself
      exact hs.stored v (.self (Array.mem_of_getElem? hx) hself)

/-- A signal that leaves a run becomes a fault. -/
theorem settle {good : Interp → Value → Prop} {act : EvalM Value}
    (h : Discreet hidden good s (act s)) : Discreet hidden good s (EvalM.settle act s) := by
  unfold EvalM.settle
  generalize act s = r at h
  cases h with
  | ok after hgood => exact .ok after hgood
  | @error flow u after hflow =>
    cases flow with
    | signal σ => exact .error after trivial
    | fault fault => exact .error after trivial
    | aborted why => exact .error after trivial

section Lists

variable [lists : ListBuilding] [Sparing lists]

mutual

theorem datum (d : Datum) {hidden : CellId → Prop} {s : Interp} (hs : s.Withholds hidden) :
    Discreet hidden (Value.Known hidden) s (d.intern s) := by
  cases d with
  | number n => exact .pure hs nofun
  | string t => exact .pure hs nofun
  | character c => exact .pure hs nofun
  | symbol name =>
    unfold Datum.intern
    refine (resolve name hs).bind fun x u hu _ => .read_bind ?_
    exact .pure hu.withholds (known_symbol hu.withholds x)
  | list items =>
    unfold Datum.intern
    refine (data items (Sparing.start hs)).bind_from ?_
    rintro b u - ⟨secret, hb⟩
    exact Sparing.finish hb .nil
  | dotted items tail =>
    unfold Datum.intern
    refine (data items (Sparing.start hs)).bind_from ?_
    rintro b u - ⟨secret, hb⟩
    exact Sparing.bind hb (datum tail (Sparing.withholds hb)) fun v t ht hv => Sparing.finish ht hv
  | quoted kind operand =>
    unfold Datum.intern
    refine (datum operand hs).bind fun v u hu hv => list hu.withholds ?_
    exact List.forall_mem_cons.mpr ⟨nofun, List.forall_mem_singleton.mpr hv⟩

theorem data (ds : List Datum) {hidden secret : CellId → Prop} {s t : Interp} {b : lists.Builder}
    (hb : Sparing.Holds hidden secret s t b) :
    Discreet hidden (Sparing.Begun hidden s) s (Datum.internAll b ds t) := by
  cases ds with
  | nil => exact .ok (Sparing.spared hb) ⟨secret, hb⟩
  | cons d rest =>
    unfold Datum.internAll
    refine Sparing.bind hb (datum d (Sparing.withholds hb)) fun v u hu hv => ?_
    refine (Sparing.push hu hv).bind_from ?_
    rintro b' w - ⟨secret', hb'⟩
    exact data rest hb'

end

/-! ## Texts -/

variable {m : Machine} (hm : m.Discreet)

include hm

theorem evaluateDatum (d : Datum) (hs : s.Withholds hidden) :
    Discreet hidden (Value.Known hidden) s (m.evaluateDatum d s) := by
  refine (datum d hs).bind fun form u hu hform => settle ?_
  exact Evaluator.perform_discreet hm m.fuel hidden .nil (.evaluate form) u
    ⟨hu.withholds, .nil⟩ hform

theorem evaluateData (ds : List Datum) {last : Value} (hs : s.Withholds hidden)
    (hlast : last.Known hidden s) :
    Discreet hidden (Value.Known hidden) s (m.evaluateData last ds s) := by
  induction ds generalizing s last with
  | nil => exact .pure hs hlast
  | cons d rest ih =>
    rw [Machine.evaluateData_cons]
    exact (evaluateDatum hm d hs).bind fun v u hu hv => ih hu.withholds hv

theorem evaluateText (source : String) (hs : s.Withholds hidden) :
    Discreet hidden (Value.Known hidden) s (m.evaluateText source s) := by
  unfold Machine.evaluateText EvalM.readText
  split
  next ds _ => exact evaluateData hm ds hs .nil
  next cause _ => exact .error (.refl hs) trivial

end Lists

end Discreet

/-- However a discreet run ends, the hidden cells are spared. -/
theorem Discreet.spared {α : Type} {good : Interp → α → Prop} {act : EvalM α}
    (h : Discreet hidden good s (act s)) : Spared hidden s (act.final s) := by
  unfold EvalM.final
  generalize act s = r at h
  cases h with
  | ok after _ => exact after
  | error after _ => exact after

/-- Texts that are evaluated one after the other spare the cells that are withheld before. -/
theorem Interp.Withholds.afterTexts [lists : ListBuilding] [Sparing lists]
    {texts : List (Machine × String)} (hs : s.Withholds hidden)
    (htexts : ∀ text ∈ texts, text.1.Discreet) : Spared hidden s (s.afterTexts texts) := by
  induction texts generalizing s with
  | nil => exact .refl hs
  | cons text rest ih =>
    obtain ⟨hm, hrest⟩ := List.forall_mem_cons.mp htexts
    have hfirst := (Discreet.evaluateText hm text.2 hs).spared
    exact hfirst.trans (ih hfirst.withholds hrest)

end SmallLisp
