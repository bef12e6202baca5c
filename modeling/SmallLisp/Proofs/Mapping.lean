import Mathlib.Data.List.Zip
import SmallLisp.Proofs.Copy
import SmallLisp.Proofs.DictionaryMap
import SmallLisp.Proofs.Indexing
import SmallLisp.Proofs.Session

/-!
# Mapping over a snapshot

`MAP` takes the entries of a collection once, at the start. `Evaluator.Maps` is what happens then:
one call for each of them, in order, on a new list of the element and its key, up to the first call
that does not answer. Whatever the calls change, the entries that are left to go through are the
ones that were taken. Between the calls there is nothing new but the lists of arguments, and after
the last one nothing but the collection of the answers.
-/

namespace SmallLisp

variable {s t u : Interp} {v target arguments : Value} {items vs : List Value}
  {ev : Evaluators} {context : Value} {f : FunctionId} {es : List (Value × Value)}

/-- `v` is a list of elements that is new in `t`, and nothing else is. -/
structure Interp.NewList (s : Interp) (items : List Value) (v : Value) (t : Interp) : Prop where
  grown : Grown s t
  size : t.cells.size = s.cells.size + items.length
  spine : ∃ ids, Spine t v ids .nil ∧ ids.map t.car = items ∧
    ∀ id ∈ ids, s.cells.size ≤ id.index ∧ id.index < t.cells.size

/-- A collection that is new and of the same kind as `target`, a list for a string. -/
inductive Interp.NewLike (s : Interp) : Value → Value → Interp → Prop
  | array {id : ArrayId} (items : Array Value) :
      NewLike s (.array id) (.array ⟨s.arrays.size⟩) { s with arrays := s.arrays.push items }
  | dictionary {id : DictionaryId} (es : List (Value × Value)) :
      NewLike s (.dictionary id) (.dictionary ⟨s.dictionaries.size⟩)
        { s with dictionaries := s.dictionaries.push es }
  | list {target v : Value} {items : List Value} {t : Interp}
      (htarget : target.isList = true ∨ target.isString = true) (hnew : s.NewList items v t) :
      NewLike s target v t

/-- A function is called on entries, one after the other, up to a call that does not answer. -/
inductive Evaluator.Maps (ev : Evaluator) (f : FunctionId) :
    Interp → List (Value × Value) → Except Flow (List Value) → Interp → Prop
  | done {s : Interp} : Maps ev f s [] (.ok []) s
  | stop {s u t : Interp} {item key arguments : Value} {rest : List (Value × Value)} {flow : Flow}
      (harguments : s.NewList [item, key] arguments u)
      (hcall : ev (.apply f arguments) u = .error flow t) :
      Maps ev f s ((item, key) :: rest) (.error flow) t
  | call {s u w t : Interp} {item key arguments v : Value} {rest : List (Value × Value)}
      {outcome : Except Flow (List Value)} (harguments : s.NewList [item, key] arguments u)
      (hcall : ev (.apply f arguments) u = .ok v w) (hrest : Maps ev f w rest outcome t) :
      Maps ev f s ((item, key) :: rest) (outcome.map (v :: ·)) t

/-- A list, a string, an array or a dictionary. -/
def Value.isMappable : Value → Bool
  | .nil | .cons _ | .string _ | .array _ | .dictionary _ => true
  | _ => false

/-! ## New lists -/

theorem Interp.newList_listOf (s : Interp) (items : List Value) :
    s.NewList items (s.listOf items).1 (s.listOf items).2 := by
  unfold listOf
  induction items with
  | nil => exact ⟨.refl s, rfl, [], .atom nofun, rfl, nofun⟩
  | cons item items ih =>
    rw [consAll_cons]
    obtain ⟨hgrown, hsize, ids, hspine, hitems, hids⟩ := ih
    generalize s.consAll items .nil = r at *
    obtain ⟨rest, w⟩ := r
    dsimp only at *
    have hnew : Grown w (w.allocCell item rest).2 := grown_allocCell w item rest
    have hthere : ∀ id ∈ ids, id.index < w.cells.size := fun id hid => (hids id hid).2
    refine ⟨hgrown.trans hnew, ?_, ⟨w.cells.size⟩ :: ids, .cell ?_, ?_, ?_⟩
    · rw [size_allocCell, hsize, List.length_cons, Nat.add_assoc]
    · rw [cdr_allocCell_new]
      exact hspine.extend (.of_grown hnew) hthere
    · rw [List.map_cons, car_allocCell_new, ← hitems]
      congr 1
      exact List.map_congr_left fun id hid => hnew.car (hthere id hid)
    · intro id hid
      rw [size_allocCell]
      rcases List.mem_cons.mp hid with rfl | hid
      · exact ⟨hgrown.size_le, Nat.lt_succ_self _⟩
      · exact ⟨(hids id hid).1, Nat.lt_succ_of_lt (hids id hid).2⟩

/-- A new list is indexed by the positions of its elements. -/
theorem Interp.NewList.sequence (h : s.NewList items v t) : t.Sequence v items := by
  obtain ⟨ids, hspine, rfl, hids⟩ := h.spine
  have hlist : v.isList = true := by
    cases hspine with
    | atom _ => rfl
    | cell _ => rfl
  exact .list hlist hspine fun id hid => (hids id hid).2

/-! ## The calls -/

namespace Evaluator.Maps

/-- There is an answer for every entry. -/
theorem length_eq {ev : Evaluator} (h : ev.Maps f s es (.ok vs) t) : vs.length = es.length := by
  generalize houtcome : Except.ok vs = outcome at h
  induction h generalizing vs with
  | done =>
    cases houtcome
    rfl
  | stop => cases houtcome
  | @call _ _ _ _ _ _ _ v _ outcome _ _ _ ih =>
    cases outcome with
    | error flow => cases houtcome
    | ok rest =>
      cases houtcome
      exact congrArg Nat.succ (ih rfl)

end Evaluator.Maps

/-- Whatever the entries and the evaluator are, the calls run to an outcome, and the answers stand
with their keys behind the ones so far. -/
theorem Operation.mapEntries_run (ev : Evaluators) (context : Value) (f : FunctionId) (s : Interp)
    (done es : List (Value × Value)) :
    ∃ outcome u, (ev context).Maps f s es outcome u ∧
      mapEntries ev context f done es s =
        match outcome with
        | .ok vs => .ok (done.reverse ++ (es.map (·.2)).zip vs) u
        | .error flow => .error flow u := by
  induction es generalizing s done with
  | nil =>
    refine ⟨.ok [], s, .done, ?_⟩
    show EStateM.Result.ok done.reverse s = .ok (done.reverse ++ []) s
    rw [List.append_nil]
  | cons e es ih =>
    obtain ⟨item, key⟩ := e
    have harguments := s.newList_listOf [item, key]
    have hlist : (EvalM.list [item, key]).Ends s (.ok (s.listOf [item, key]).1)
        (s.listOf [item, key]).2 := rfl
    rw [mapEntries, hlist.bind_eq]
    cases hcall : ev context (.apply f (s.listOf [item, key]).1) (s.listOf [item, key]).2 with
    | error flow w => exact ⟨.error flow, w, .stop harguments hcall, EvalM.bind_error hcall⟩
    | ok v w =>
      obtain ⟨outcome, u, hrest, hrun⟩ := ih w ((key, v) :: done)
      refine ⟨_, u, .call harguments hcall hrest, ?_⟩
      rw [(EvalM.ends_ok.mpr hcall).bind_eq, hrun]
      cases outcome with
      | error flow => rfl
      | ok vs => simp [Except.map]

/-! ## Collecting the answers -/

theorem assignAgreeing_of_none {test : Value → Value → Bool} {key : Value}
    (h : ∀ e ∈ es, test e.1 key = false) (v : Value) :
    assignAgreeing test key v es = es ++ [(key, v)] := by
  induction es with
  | nil => rfl
  | cons e es ih =>
    rw [assignAgreeing, h e List.mem_cons_self, if_neg Bool.false_ne_true,
      ih fun e he => h e (List.mem_cons_of_mem _ he)]
    rfl

/-- Keys that are distinct are all kept, in their order. -/
theorem DistinctKeys.replay_eq {test : Value → Value → Bool} (h : DistinctKeys test es) :
    replay test es = es := by
  induction es using List.reverseRecOn with
  | nil => rfl
  | append_singleton es e ih =>
    unfold DistinctKeys at h
    rw [List.map_append, List.pairwise_append] at h
    obtain ⟨hes, -, hlast⟩ := h
    rw [replay_concat, ih hes]
    exact assignAgreeing_of_none
      (fun e' he' => hlast e'.1 (List.mem_map_of_mem he') e.1 (by simp)) e.2

/-- The keys of a sequence depend on its length only. -/
theorem indexed_eq_zip (h : vs.length = items.length) :
    indexed vs = vs.zip ((indexed items).map (·.2)) :=
  List.ext_getElem (by simp [indexed, h]) fun i _ _ => by simp [indexed]

/-- Answers for the entries of a collection are the entries of the collection that they are
collected in. -/
theorem Operation.collectLike_run (htarget : target.isMappable = true)
    (hes : s.entries target = .ok es) (hlength : vs.length = es.length) (u : Interp) :
    ∃ v t, collectLike target ((es.map (·.2)).zip vs) u = .ok v t ∧ u.NewLike target v t ∧
      ((∀ id, target = .dictionary id →
          (es.map (·.2)).Pairwise fun j k => u.equal j k = false) →
        t.entries v = .ok (vs.zip (es.map (·.2)))) := by
  have hvalues : ((es.map (·.2)).zip vs).map (·.2) = vs := List.map_snd_zip (by simp [hlength])
  -- every list and every string is mapped to a list
  have hlisted : ∀ items : List Value, es = indexed items →
      (target.isList = true ∨ target.isString = true) →
      ∃ v t, EvalM.list (((es.map (·.2)).zip vs).map (·.2)) u = .ok v t ∧ u.NewLike target v t ∧
        t.entries v = .ok (vs.zip (es.map (·.2))) := by
    rintro items rfl hkind
    have hnew : u.NewList vs (u.listOf vs).1 (u.listOf vs).2 := u.newList_listOf vs
    refine ⟨(u.listOf vs).1, (u.listOf vs).2, congrArg (fun l => EvalM.list l u) hvalues,
      .list hkind hnew, ?_⟩
    rw [hnew.sequence.entries, indexed_eq_zip (by simpa [indexed] using hlength)]
  cases target with
  | nil | cons id =>
    obtain ⟨v, t, hrun, hlike, hentries⟩ := hlisted _ (Except.ok.inj hes).symm (.inl rfl)
    exact ⟨v, t, hrun, hlike, fun _ => hentries⟩
  | string text =>
    obtain ⟨v, t, hrun, hlike, hentries⟩ := hlisted _ (Except.ok.inj hes).symm (.inr rfl)
    exact ⟨v, t, hrun, hlike, fun _ => hentries⟩
  | array id =>
    cases hes
    refine ⟨_, _, rfl, .array _, fun _ => ?_⟩
    rw [Interp.entries, Interp.arrayItems, hvalues]
    simp only [Array.getElem?_push_size, Option.getD_some]
    exact congrArg Except.ok (indexed_eq_zip (by simpa [indexed] using hlength))
  | dictionary id =>
    refine ⟨_, _, rfl, .dictionary _, fun hdistinct => ?_⟩
    have hkeys : DistinctKeys u.equal ((es.map (·.2)).zip vs) := by
      unfold DistinctKeys
      rw [List.map_fst_zip (by simp [hlength])]
      exact hdistinct id rfl
    have hstored : ((es.map (·.2)).zip vs).foldl (fun acc e => u.assignEntry acc e.1 e.2) [] =
        (es.map (·.2)).zip vs := hkeys.replay_eq
    rw [hstored]
    refine (congrArg (fun l => Except.ok (l.map fun e => (e.2, e.1)))
      (u.dictionaryEntries_allocDictionary _)).trans (congrArg Except.ok ?_)
    exact List.zip_swap _ _
  | _ => cases htarget

/-- Mapping takes the entries of a collection at the start and calls the function for each of them,
in order, up to a call that does not answer. If all answer, they are the entries of a new
collection, under the keys of the entries that were taken. The keys of a dictionary have to be
distinct for that when the last call returns. -/
theorem map_takes_snapshot (ev : Evaluators) (context : Value) (n : Nat)
    (hf : s.second arguments = .function f) (htarget : (s.first arguments).isMappable = true) :
    ∃ es outcome u, s.entries (s.first arguments) = .ok es ∧ (ev context).Maps f s es outcome u ∧
      (∀ flow, outcome = .error flow →
        Primitive.map.run ev context n arguments s = .error flow u) ∧
      ∀ vs, outcome = .ok vs → vs.length = es.length ∧
        ∃ v t, Primitive.map.run ev context n arguments s = .ok v t ∧
          u.NewLike (s.first arguments) v t ∧
          ((∀ id, s.first arguments = .dictionary id →
              (es.map (·.2)).Pairwise fun j k => u.equal j k = false) →
            t.entries v = .ok (vs.zip (es.map (·.2)))) := by
  obtain ⟨es, hes⟩ : ∃ es, s.entries (s.first arguments) = .ok es := by
    cases htarget' : s.first arguments with
    | nil | cons _ | string _ | array _ | dictionary _ => exact ⟨_, rfl⟩
    | _ => rw [htarget'] at htarget; cases htarget
  have hmap : Primitive.map.run ev context n arguments s =
      (Operation.mapEntries ev context f [] es >>=
        Operation.collectLike (s.first arguments)) s := by
    show Operation.map ev context arguments s = _
    rw [Operation.map, EvalM.read_bind_apply, EvalM.read_bind_apply, hes]
    dsimp only
    rw [EvalM.read_bind_apply, hf]
  obtain ⟨outcome, u, hmaps, hrun⟩ := Operation.mapEntries_run ev context f s [] es
  refine ⟨es, outcome, u, hes, hmaps, ?_, ?_⟩
  · rintro flow rfl
    rw [hmap, EvalM.bind_error hrun]
  · rintro vs rfl
    have hlength : vs.length = es.length := hmaps.length_eq
    obtain ⟨v, t, hcollect, hlike, hentries⟩ :=
      Operation.collectLike_run htarget hes hlength u
    refine ⟨hlength, v, t, ?_, hlike, hentries⟩
    rw [hmap, (EvalM.ends_ok.mpr hrun).bind_eq]
    exact hcollect

/-- A function that overwrites the second element of the array that it is mapped over is called on
the element that was there. -/
theorem mapped_array_overwritten :
    ∃ s arguments id f, s.first arguments = .array id ∧ s.second arguments = .function f ∧
      ∃ (vs : List Value) (v : Value) (t : Interp),
        Primitive.map.run Machine.small.evaluator .nil 20 arguments s = .ok v t ∧
        vs.length = 2 ∧ t.entries v = .ok (vs.zip [.ofNat 0, .ofNat 1]) ∧
        t.access v (.ofNat 1) = .ok (.ofNat 2) ∧
        t.access (.array id) (.ofNat 1) = .ok (.ofNat 10) := by
  obtain ⟨s, hs⟩ : ∃ s, s = (Interp.initial 64).afterTexts
    [(.small, "(var c (array 1 2)) (list c (lambda (x k) (= (elt c 1) 10) x))")] := ⟨_, rfl⟩
  let act : EvalM Value := Primitive.map.run Machine.small.evaluator .nil 20 (.cons ⟨24⟩)
  obtain ⟨hfirst, hsecond, hentries, hanswer, hnew, hold⟩ :
      s.first (.cons ⟨24⟩) = .array ⟨0⟩ ∧ s.second (.cons ⟨24⟩) = .function ⟨50⟩ ∧
        s.entries (.array ⟨0⟩) = .ok [(.ofNat 1, .ofNat 0), (.ofNat 2, .ofNat 1)] ∧
        act.answer? s = some (.array ⟨1⟩) ∧
        (act.final s).access (.array ⟨1⟩) (.ofNat 1) = .ok (.ofNat 2) ∧
        (act.final s).access (.array ⟨0⟩) (.ofNat 1) = .ok (.ofNat 10) := by
    rw [hs]
    decide +kernel
  have hends : act s = .ok (.array ⟨1⟩) (act.final s) := EvalM.ends_of_answer? hanswer
  obtain ⟨es, outcome, u, hes, -, hstops, hanswers⟩ :=
    map_takes_snapshot Machine.small.evaluator .nil 20 hsecond (by rw [hfirst]; rfl)
  rw [hfirst, hentries] at hes
  cases hes
  cases outcome with
  | error flow =>
    have hstopped : act s = .error flow u := hstops flow rfl
    rw [hends] at hstopped
    cases hstopped
  | ok vs =>
    obtain ⟨hlength, v, t, hrun, -, hlisting⟩ := hanswers vs rfl
    have hsame : act s = .ok v t := hrun
    rw [hends] at hsame
    cases hsame
    refine ⟨s, _, _, _, hfirst, hsecond, vs, _, _, hrun, hlength, hlisting ?_, hnew, hold⟩
    intro id hid
    rw [hfirst] at hid
    cases hid

end SmallLisp
