import SmallLisp.Proofs.MirroredRuns

/-!
# Sessions on both sides of a mirror

Interning a datum makes lists as well, and a session interns and evaluates one datum after the
other. From the initial state on, texts whose lists are linked in place are answered like texts
whose lists are collected, and leave the same state, but for the addresses of cells.
-/

namespace SmallLisp

variable {m n : Mirror} {secret : CellId → Prop} {s t : Interp}

/-! ## The initial state beside itself -/

theorem Interp.readsNoCell_initial (limit : Nat) : (initial limit).ReadsNoCell := by
  intro x hx id
  rcases List.mem_append.mp (List.mem_toArray.mp hx) with hx | hx
  · simp only [List.mem_cons, List.not_mem_nil, or_false] at hx
    rcases hx with rfl | rfl | rfl | rfl <;> exact nofun
  · obtain ⟨op, -, rfl⟩ := List.mem_map.mp hx
    exact nofun

/-- The initial state beside itself. -/
def Mirror.initial (limit : Nat) : Mirror := ⟨.still, .initial limit, .initial limit⟩

theorem Mirror.faithful_initial (limit : Nat) : (initial limit).Faithful where
  relocated := .refl (.of_live (Interp.live_initial limit))
  active := rfl
  limit := rfl
  readsNoCell := Interp.readsNoCell_initial limit
  left := (Interp.live_initial limit).grounded
  right := (Interp.live_initial limit).grounded

/-! ## Interning -/

theorem Interp.ReadsNoCell.ne_cons (hs : s.ReadsNoCell) (x : SymbolId) (id : CellId) :
    (s.symbol x).selfValue.getD (.symbol x) ≠ .cons id := by
  cases hself : (s.symbol x).selfValue with
  | none => exact nofun
  | some v =>
    rintro rfl
    unfold symbol at hself
    cases hx : s.symbols[x.index]? with
    | none =>
      rw [hx] at hself
      cases hself
    | some symbol =>
      rw [hx] at hself
      exact hs symbol (Array.mem_of_getElem? hx) id hself

theorem Interp.steady_resolve (s : Interp) (name : SymbolName) :
    s.Steady ((EvalM.namespaceStep fun s => s.resolve name).final s) := by
  have hfinal : (EvalM.namespaceStep fun s => s.resolve name).final s =
      s.resultOf (s.resolve name) := by
    unfold EvalM.final EvalM.namespaceStep
    dsimp only
    cases s.resolve name <;> rfl
  have hsame : s.Steady s := ⟨rfl, rfl, fun h => h⟩
  rw [hfinal]
  cases name with
  | plain name => exact Change.steady s (.intern s.current name)
  | keyword name => exact Change.steady s (.keyword name)
  | exported container name =>
    refine Interp.resultOf_induction (motive := s.Steady) hsame fun x u h => ?_
    obtain ⟨id, -, heq⟩ := ok_of_map h
    cases heq
    exact hsame
  | interned container name =>
    show s.Steady (s.resultOf (s.findInterned container name))
    unfold findInterned
    split
    · exact hsame
    · split
      · exact Change.steady s (.keyword name)
      · exact Change.steady s (.intern _ name)

/-- Names denote the same symbols in a relocated state. -/
theorem Relocated.resolve {r : Relocation} (h : Relocated r s t) (name : SymbolName) :
    r.Agrees (s.resolve name) (t.resolve name) := by
  cases name with
  | plain name =>
    show r.Agrees (s.internIn s.current name) (t.internIn t.current name)
    rw [h.current]
    exact h.internIn _ name
  | keyword name => exact h.internKeyword name
  | exported container name =>
    show r.Agrees ((s.findExported container name).map _) ((t.findExported container name).map _)
    unfold Interp.findExported
    rw [h.namespaceNamed]
    cases s.namespaceNamed container with
    | error cause => exact rfl
    | ok id =>
      dsimp only
      rw [h.namespaceAt]
      cases (s.namespaceAt id).findExported? name with
      | none => exact rfl
      | some x => exact ⟨rfl, h⟩
  | interned container name =>
    show r.Agrees (s.findInterned container name) (t.findInterned container name)
    unfold Interp.findInterned
    rw [h.namespaceNamed]
    cases s.namespaceNamed container with
    | error cause => exact rfl
    | ok id =>
      dsimp only
      split
      · exact h.internKeyword name
      · exact h.internIn id name

namespace Mirrored

open Gathered (Begun)

theorem resolve (name : SymbolName) (hm : m.Faithful) :
    Mirrored (fun _ x x' => x' = x) m ((EvalM.namespaceStep fun s => s.resolve name) m.left)
      ((EvalM.namespaceStep fun s => s.resolve name) m.right) := by
  have htracks : Tracks m.relocation (fun x => x) (EvalM.namespaceStep fun s => s.resolve name)
      (EvalM.namespaceStep fun s => s.resolve name) := by
    rw [funext (EvalM.namespaceStep_apply _)]
    exact .concluded id .namespaces (fun _ => rfl) fun h => h.resolve name
  have hresolved := of_tracks hm htracks ⟨.resolve name hm.left, m.left.steady_resolve name⟩
    ⟨.resolve name hm.right, m.right.steady_resolve name⟩
  exact hresolved.mono fun _ _ _ h => h.2.2.2

mutual

theorem datum (d : Datum) {m : Mirror} (hm : m.Faithful) :
    Mirrored Value.Placed m (d.intern m.left) (@Datum.intern .linking d m.right) := by
  cases d with
  | number x => exact .pure hm (hm.place nofun)
  | string text => exact .pure hm (hm.place nofun)
  | character c => exact .pure hm (hm.place nofun)
  | symbol name =>
    unfold Datum.intern
    refine (resolve name hm).bind fun n x x' _ hn hx => .read_bind ?_
    obtain rfl : x' = x := hx
    have hplaced := hn.place (Discreet.known_symbol hn.left x')
    have hnone := hn.readsNoCell.ne_cons x'
    rw [hn.relocated.symbol]
    generalize (n.left.symbol x').selfValue.getD (.symbol x') = v at hplaced hnone
    refine .pure hn ?_
    cases v with
    | cons id => exact absurd rfl (hnone id)
    | _ => exact hplaced
  | list items =>
    unfold Datum.intern
    refine (data items (Gathered.start hm)).bind_from ?_
    rintro n b b' - hn ⟨secret, hb⟩
    exact hb.finish (hn.place .nil)
  | dotted items tail =>
    unfold Datum.intern
    refine (data items (Gathered.start hm)).bind_from ?_
    rintro n b b' - hn ⟨secret, hb⟩
    have hright := @Discreet.datum .linking .linking tail secret _ hb.withheld.withholds
    exact hb.bind (datum tail hn) hright fun o v v' _ ho hv => ho.finish hv
  | quoted kind operand =>
    unfold Datum.intern
    refine (datum operand hm).bind fun n v v' _ hn hv => ?_
    obtain ⟨hknown, -, rfl⟩ := hv
    exact list hn (List.forall_mem_cons.mpr ⟨nofun, List.forall_mem_singleton.mpr hknown⟩)

theorem data (ds : List Datum) {m n : Mirror} {secret : CellId → Prop} {b : ListBuilder}
    {b' : LinkedBuilder} (hb : Gathered m secret n b b') :
    Mirrored (Begun m) m (Datum.internAll b ds n.left)
      (@Datum.internAll .linking b' ds n.right) := by
  cases ds with
  | nil => exact .ok hb.leads hb.faithful ⟨secret, hb⟩
  | cons d rest =>
    unfold Datum.internAll
    have hright := @Discreet.datum .linking .linking d secret _ hb.withheld.withholds
    refine hb.bind (datum d hb.faithful) hright fun o v v' _ ho hv => ?_
    refine (ho.pushed hv).bind_from ?_
    rintro p b b' - hp ⟨-, secret', hb⟩
    exact data rest hb

end

/-! ## Texts -/

/-- A signal that leaves both runs becomes the same fault. -/
theorem settle {act act' : EvalM Value} (h : Mirrored Value.Placed m (act s) (act' t)) :
    Mirrored Value.Placed m (EvalM.settle act s) (EvalM.settle act' t) := by
  unfold EvalM.settle
  generalize act s = res at h
  generalize act' t = res' at h
  cases h with
  | ok after faithful hgood => exact .ok after faithful hgood
  | @error n flow after faithful hflow =>
    cases flow with
    | signal σ =>
      have hfault : (σ.relocate n.relocation).toFault n.right = σ.toFault n.left := by
        cases σ with
        | returning v depth =>
          exact congrArg (fun text => Fault.evaluation (.escaped ("return of " ++ text)) none)
            (faithful.relocated.print v)
        | _ => rfl
      show Mirrored Value.Placed m (.error (.fault (σ.toFault n.left)) n.left)
        (.error (.fault ((σ.relocate n.relocation).toFault n.right)) n.right)
      rw [hfault]
      exact .error after faithful trivial
    | _ => exact .error after faithful hflow

variable {machine : Machine} (hmachine : machine.Discreet)

include hmachine

theorem evaluateDatum (d : Datum) (hm : m.Faithful) :
    Mirrored Value.Placed m (machine.evaluateDatum d m.left)
      (@Machine.evaluateDatum .linking machine d m.right) := by
  refine (datum d hm).bind fun n form form' _ hn hform => settle ?_
  exact (Evaluator.perform_mirrored hmachine machine.fuel).form n form form' hn hform

theorem evaluateData (ds : List Datum) {last last' : Value} (hm : m.Faithful)
    (hlast : last.Placed m last') :
    Mirrored Value.Placed m (machine.evaluateData last ds m.left)
      (@Machine.evaluateData .linking machine last' ds m.right) := by
  induction ds generalizing m last last' with
  | nil => exact .pure hm hlast
  | cons d rest ih =>
    rw [Machine.evaluateData_cons, @Machine.evaluateData_cons .linking]
    exact (evaluateDatum hmachine d hm).bind fun n v v' _ hn hv => ih hn hv

theorem evaluateText (source : String) (hm : m.Faithful) :
    Mirrored Value.Placed m (machine.evaluateText source m.left)
      (@Machine.evaluateText .linking machine source m.right) := by
  unfold Machine.evaluateText EvalM.readText
  split
  next ds _ => exact evaluateData hmachine ds hm (hm.place .nil)
  next cause _ => exact .fail cause hm

end Mirrored

/-- Texts that are evaluated on both sides lead to a mirror again. -/
theorem Mirror.Faithful.afterTexts {texts : List (Machine × String)} (hm : m.Faithful)
    (htexts : ∀ text ∈ texts, text.1.Discreet) :
    ∃ n : Mirror, n.Faithful ∧ n.left = m.left.afterTexts texts ∧
      n.right = m.right.afterTextsInPlace texts := by
  induction texts generalizing m with
  | nil => exact ⟨m, hm, rfl, rfl⟩
  | cons text rest ih =>
    obtain ⟨htext, hrest⟩ := List.forall_mem_cons.mp htexts
    have hfirst : ∃ n : Mirror, n.Faithful ∧
        n.left = (text.1.evaluateText text.2).final m.left ∧
        n.right = (@Machine.evaluateText .linking text.1 text.2).final m.right := by
      have hrun := Mirrored.evaluateText htext text.2 hm
      unfold EvalM.final
      generalize text.1.evaluateText text.2 m.left = res at hrun
      generalize @Machine.evaluateText .linking text.1 text.2 m.right = res' at hrun
      cases hrun with
      | ok _ faithful _ => exact ⟨_, faithful, rfl, rfl⟩
      | error _ faithful _ => exact ⟨_, faithful, rfl, rfl⟩
    obtain ⟨n, hn, hleft, hright⟩ := hfirst
    obtain ⟨o, ho, hleft', hright'⟩ := ih hn hrest
    rw [hleft] at hleft'
    rw [hright] at hright'
    exact ⟨o, ho, hleft', hright'⟩

/-- What is mirrored is relocated. -/
theorem Mirrored.moved {res res' : EStateM.Result Flow Interp Value}
    (h : Mirrored Value.Placed m res res') : ∃ r, Moved r (Value.relocate r) res res' := by
  cases h with
  | @ok n v v' _ faithful hv =>
    rw [hv.eq]
    exact ⟨n.relocation, .ok faithful.relocated⟩
  | @error n flow _ faithful _ => exact ⟨n.relocation, .error faithful.relocated⟩

/-- Whatever texts are evaluated, no cell gets another second half and no list another length or
end. From the initial state on, every chain of cells comes to an end. With discreet host programs
this is so as well where lists are linked in place. There whatever is evaluated leaves the cells
that the state withholds as they are and withheld, those of unfinished lists among them. Linking
lists in place makes no difference to what the texts leave behind and how a further one is answered,
but for the addresses of cells. -/
theorem spines_kept (texts : List (Machine × String)) :
    (∀ s : Interp, s.KeepsSpines (s.afterTexts texts)) ∧
    (∀ limit v, ∃ ids tail, ((Interp.initial limit).afterTexts texts).ChainEnds v ids tail) ∧
    ((∀ text ∈ texts, text.1.Discreet) →
      (∀ hidden (s : Interp), s.Withholds hidden →
        s.KeepsSpines (s.afterTextsInPlace texts) ∧
        Spared hidden s (s.afterTextsInPlace texts)) ∧
      (∀ text ∈ texts, ∀ hidden context request (s : Interp),
        s.Entrusts hidden context → request.Known hidden s →
        let ev : Evaluators := @Machine.evaluator .linking text.1
        s.KeepsSpines ((ev context request).final s) ∧
        Spared hidden s ((ev context request).final s)) ∧
      (∀ limit v, ∃ ids tail,
        ((Interp.initial limit).afterTextsInPlace texts).ChainEnds v ids tail) ∧
      ∀ limit,
        let s := (Interp.initial limit).afterTexts texts
        let t := (Interp.initial limit).afterTextsInPlace texts
        (∃ r, Relocated r s t) ∧
        ∀ (m : Machine) source, m.Discreet → ∃ r, Moved r (Value.relocate r)
          (m.evaluateText source s) (@Machine.evaluateText .linking m source t)) := by
  refine ⟨fun s => ?_, fun limit v => ?_, fun htexts => ?_⟩
  · have hsession := (Session.start (s := s)).afterTexts texts
    have htrace : Trace (fun _ _ => True) s (s.afterTexts texts) :=
      hsession.traced False False.elim (fun _ _ _ _ _ => trivial) False.elim
    exact htrace.extended.keepsSpines
  · have hsession := (Session.start (s := .initial limit)).afterTexts texts
    have htrace := hsession.sound (Interp.live_initial limit)
    have hdescends : ((Interp.initial limit).afterTexts texts).Descends :=
      htrace.preserves (fun _ _ hc h => Change.descends hc h) (fun _ _ _ _ h => h)
        (Interp.descends_initial limit)
    obtain ⟨ids, tail, hspine⟩ := hdescends.spine v
    exact ⟨ids, tail, hspine.chainEnds⟩
  · have hspared : ∀ {hidden : CellId → Prop} {s : Interp}, s.Withholds hidden →
        Spared hidden s (s.afterTextsInPlace texts) := fun hs =>
      @Interp.Withholds.afterTexts _ _ .linking .linking texts hs htexts
    refine ⟨fun hidden s hs => ⟨(hspared hs).keepsSpines, hspared hs⟩,
      fun text htext hidden context request s hs hrequest => ?_, fun limit v => ?_,
      fun limit => ?_⟩
    · have hrun := @Evaluator.perform_discreet .linking .linking _ (htexts text htext)
        text.1.fuel hidden context request s hs hrequest
      exact ⟨hrun.spared.keepsSpines, hrun.spared⟩
    · have hchains := (hspared (Interp.live_initial limit).grounded).chains
        (Interp.descends_initial limit).spine
      obtain ⟨ids, tail, hspine⟩ := hchains v
      exact ⟨ids, tail, hspine.chainEnds⟩
    · obtain ⟨n, hn, hleft, hright⟩ := (Mirror.faithful_initial limit).afterTexts htexts
      change n.left = (Interp.initial limit).afterTexts texts at hleft
      change n.right = (Interp.initial limit).afterTextsInPlace texts at hright
      dsimp only
      rw [← hleft, ← hright]
      exact ⟨⟨n.relocation, hn.relocated⟩, fun m source hmachine =>
        (Mirrored.evaluateText hmachine source hn).moved⟩

/-- A template takes the elements of a list, and then the list itself as its tail, after one of its
elements has been changed. -/
theorem template_linked_in_place :
    let texts := [(Machine.small, "(var l (list 1 2)) (var m `(0 ,(= (elt l 0) 3) ,@l . ,l))")]
    (∀ text ∈ texts, text.1.Discreet) ∧ (Interp.initial 64).Grounded ∧
      (Interp.initial 64).KeepsSpines ((Interp.initial 64).afterTextsInPlace texts) ∧
      (∀ v, ∃ ids tail, ((Interp.initial 64).afterTextsInPlace texts).ChainEnds v ids tail) ∧
      ∃ r, Relocated r ((Interp.initial 64).afterTexts texts)
        ((Interp.initial 64).afterTextsInPlace texts) := by
  intro texts
  have htexts : ∀ text ∈ texts, text.1.Discreet :=
    List.forall_mem_singleton.mpr HostProgram.demonstration_discreet
  have hgrounded := (Interp.live_initial 64).grounded
  obtain ⟨hkept, -, hchains, halike⟩ := (spines_kept texts).2.2 htexts
  exact ⟨htexts, hgrounded, (hkept _ _ hgrounded).1, hchains 64, (halike 64).1⟩

end SmallLisp
