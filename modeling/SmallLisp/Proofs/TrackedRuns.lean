import SmallLisp.Proofs.DepthLimit
import SmallLisp.Proofs.TrackedForms

/-!
# Runs of the evaluator on relocated states

The operations that compute, map and make collections, the calls of closures, and with them whole
runs: the evaluator does with a relocated request in a relocated state what it does with the request
in the state itself.
-/

namespace SmallLisp

variable {r : Relocation}

/-- The verdict on an argument list, about a relocated function. -/
def Evaluator.Fit.relocate (r : Relocation) : Fit → Fit
  | .fits f => .fits (f.relocate r)
  | fit => fit

/-! ## Reading operands -/

namespace Relocated

variable {s t : Interp} (h : Relocated r s t)

include h

theorem sizeOf (arguments : Value) :
    Operation.sizeOf t (arguments.relocate r) = Operation.sizeOf s arguments := by
  unfold Operation.sizeOf
  rw [h.first]
  cases s.first arguments with
  | number n =>
    cases n with
    | int n => rfl
    | float x =>
      exact h.mentioning (fun text => .type (.integerSize text) none) (.number (.float x))
  | _ => exact h.mentioning (fun text => .type (.integerSize text) none) _

theorem pairOf (collection : String) (v : Value) :
    Operation.pairOf collection t (v.relocate r) =
      (Operation.pairOf collection s v).map (relocateEntry r) := by
  have hother := h.mentioning (α := Value × Value)
    (fun text => .evaluation (.illegalPair collection text) none) v
  unfold Operation.pairOf
  rw [h.properElements?]
  match s.properElements? v with
  | none | some [] | some [_] | some (_ :: _ :: _ :: _) => exact hother
  | some [key, value] => rfl

/-- Assigning entries in order. -/
theorem assignedEntries (acc es : List (Value × Value)) :
    (es.map (relocateEntry r)).foldl (fun acc e => t.assignEntry acc e.1 e.2)
        (acc.map (relocateEntry r)) =
      (es.foldl (fun acc e => s.assignEntry acc e.1 e.2) acc).map (relocateEntry r) := by
  induction es generalizing acc with
  | nil => rfl
  | cons e rest ih =>
    rw [List.map_cons, List.foldl_cons, List.foldl_cons, ← ih]
    exact congrArg (List.foldl _ · _) (h.assignEntry acc e.1 e.2)

theorem fillEntries (es : List (Value × Value)) (vs : List Value) :
    Operation.fillEntries t (es.map (relocateEntry r)) (vs.map (Value.relocate r)) =
      (Operation.fillEntries s es vs).map (List.map (relocateEntry r)) := by
  induction vs generalizing es with
  | nil => rfl
  | cons v rest ih =>
    simp only [List.map_cons, Operation.fillEntries, h.pairOf]
    cases Operation.pairOf "dictionary" s v with
    | error fault => rfl
    | ok pair =>
      show Operation.fillEntries t (t.assignEntry _ (pair.1.relocate r) (pair.2.relocate r)) _ = _
      rw [h.assignEntry, ih]

theorem fillHashed (table : Table Value Value) (vs : List Value) :
    Operation.fillHashed t (relocateTable r table) (vs.map (Value.relocate r)) =
      (Operation.fillHashed s table vs).map (relocateTable r) := by
  induction vs generalizing table with
  | nil => rfl
  | cons v rest ih =>
    simp only [List.map_cons, Operation.fillHashed, h.pairOf]
    cases Operation.pairOf "hashtable" s v with
    | error fault => rfl
    | ok pair =>
      obtain ⟨key, value⟩ := pair
      simp only [Except.map, relocateEntry, Prod.map, Interp.assignHashed,
        Value.isAtomKey_relocate, Interp.noHashKey, Value.typeName_relocate]
      cases key.isAtomKey with
      | false => rfl
      | true =>
        show Operation.fillHashed t ((relocateTable r table).insert _ _) _ = _
        rw [relocateTable, Table.insert_mapEntries (Value.relocate_injective r)]
        exact ih _

theorem numberOf (operator : String) (v : Value) :
    Operation.numberOf operator t (v.relocate r) = Operation.numberOf operator s v := by
  cases v with
  | number n => rfl
  | _ => exact h.mentioning (fun text => .type (.numberOperand operator text) none) _

/-- A fold reads each operand through a function of its own. -/
theorem fold (op : Arithmetic) (vs : List Value) :
    op.fold (Operation.numberOf op.operator t) (vs.map (Value.relocate r)) =
      op.fold (Operation.numberOf op.operator s) vs := by
  have hfrom : ∀ (acc : Number) (vs : List Value),
      op.foldFrom (Operation.numberOf op.operator t) acc (vs.map (Value.relocate r)) =
        op.foldFrom (Operation.numberOf op.operator s) acc vs := by
    intro acc vs
    induction vs generalizing acc with
    | nil => rfl
    | cons v rest ih => simp only [List.map_cons, Arithmetic.foldFrom, h.numberOf, ih]
  match vs with
  | [] => rfl
  | [v] => simp only [List.map_cons, List.map_nil, Arithmetic.fold, h.numberOf]
  | v :: w :: rest =>
    simp only [List.map_cons, Arithmetic.fold, h.numberOf]
    cases Operation.numberOf op.operator s v with
    | error fault => rfl
    | ok n => exact hfrom n (w :: rest)

theorem chainFrom (op : Comparison) (previous : Number) (vs : List Value) :
    op.chainFrom (Operation.numberOf op.operator t) previous (vs.map (Value.relocate r)) =
      op.chainFrom (Operation.numberOf op.operator s) previous vs := by
  induction vs generalizing previous with
  | nil => rfl
  | cons v rest ih => simp only [List.map_cons, Comparison.chainFrom, h.numberOf, ih]

theorem extremumFrom (op : Extremum) (best : Number) (vs : List Value) :
    op.foldFrom (Operation.numberOf op.operator t) best (vs.map (Value.relocate r)) =
      op.foldFrom (Operation.numberOf op.operator s) best vs := by
  induction vs generalizing best with
  | nil => rfl
  | cons v rest ih => simp only [List.map_cons, Extremum.foldFrom, h.numberOf, ih]

theorem parameters (operator : String) (vs : List Value) :
    SpecialForm.parameters operator t (vs.map (Value.relocate r)) =
      SpecialForm.parameters operator s vs := by
  induction vs with
  | nil => rfl
  | cons v rest ih =>
    cases v with
    | symbol x =>
      simp only [List.map_cons, Value.relocate_symbol, SpecialForm.parameters, h.symbol,
        h.reservedBinding, ih]
    | _ => exact h.mentioning (fun text => .type (.parameterSymbol operator text) none) _

theorem parameterList (operator : String) (arguments : Value) :
    SpecialForm.parameterList operator t (arguments.relocate r) =
      SpecialForm.parameterList operator s arguments := by
  unfold SpecialForm.parameterList
  simp only [h.first, h.properElements?, h.print]
  cases s.properElements? (s.first arguments) with
  | none => rfl
  | some items => exact h.parameters operator items

theorem fit (id : FunctionId) (arguments : Value) :
    Evaluator.fit t id (arguments.relocate r) = (Evaluator.fit s id arguments).relocate r := by
  simp only [Evaluator.fit, h.spine, h.callable, Value.isNil_relocate, List.length_map,
    Callable.minArgs_relocate]
  split
  · rfl
  · split <;> rfl

theorem not_host {id : FunctionId} {arguments : Value} {f : Callable}
    (hfit : Evaluator.fit s id arguments = .fits f) (g : HostFunction) : f ≠ .host g := by
  rintro rfl
  exact h.hostless g (Interp.HostsAre.mem_of_callable (Pairing.callable_of_fits hfit))

/-- A closure is allocated over a relocated copy of the active scopes. -/
theorem allocClosure {kind : Closure → Callable}
    (hkind : ∀ c, (kind c).relocate r = kind (c.relocate r)) (hhost : ∀ c f, kind c ≠ .host f)
    (xs : List SymbolId) (arguments : Value) :
    (SpecialForm.allocClosure kind xs (arguments.relocate r) t).1 =
        (SpecialForm.allocClosure kind xs arguments s).1.relocate r ∧
      Relocated r (SpecialForm.allocClosure kind xs arguments s).2
        (SpecialForm.allocClosure kind xs (arguments.relocate r) t).2 := by
  let c : Closure := ⟨xs, ⟨s.scopes.size⟩, s.rest arguments⟩
  have hsize : t.scopes.size = s.scopes.size := by rw [h.scopes, Array.size_map]
  have hclosure := (h.allocScope s.captured).allocCallable (kind c) (hhost c)
  rw [hkind, ← h.captured] at hclosure
  unfold SpecialForm.allocClosure Interp.allocScope
  dsimp only
  rw [h.rest, hsize]
  refine ⟨?_, hclosure⟩
  show Value.function ⟨t.callables.size⟩ = .function ⟨s.callables.size⟩
  rw [h.callables, Array.size_map]

end Relocated

namespace Tracks

/-! ## Operations that evaluate nothing -/

theorem first (arguments : Value) :
    Tracks r (Value.relocate r) (EvalM.read fun s => s.first arguments)
      (EvalM.read fun s => s.first (arguments.relocate r)) :=
  read fun h => h.first arguments

/-- A truth value that the state decides. -/
theorem decided {f f' : Interp → Bool} (hf : ∀ {s t}, Relocated r s t → f' t = f s) :
    Tracks r (Value.relocate r) (EvalM.read fun s => .ofBool (f s))
      (EvalM.read fun s => .ofBool (f' s)) :=
  read fun h => by rw [hf h, Value.relocate_ofBool]

theorem half (operator : String) {part : Interp → CellId → Value}
    (hpart : ∀ {s t}, Relocated r s t → ∀ id, part t (r.move id) = (part s id).relocate r)
    (arguments : Value) :
    Tracks r (Value.relocate r) (Operation.half operator part arguments)
      (Operation.half operator part (arguments.relocate r)) := by
  refine query fun {s t} h => ?_
  rw [h.first]
  cases s.first arguments with
  | nil => rfl
  | cons id => exact congrArg Except.ok (hpart h id)
  | _ => exact h.mentioning (fun text => .type (.listOperand operator text) none) _

theorem equal (arguments : Value) :
    Tracks r (Value.relocate r) (Operation.equal arguments)
      (Operation.equal (arguments.relocate r)) :=
  decided fun h => by rw [h.first, h.second, h.equal]

theorem gensym : Tracks r (Value.relocate r) SpecialForm.gensym SpecialForm.gensym := by
  have hstep : Tracks r (fun x => x) (EvalM.step fun s => s.generate)
      (EvalM.step fun s => s.generate) := step fun h => h.generate
  exact hstep.bind fun x => pure (Value.symbol x)

theorem typeOf (arguments : Value) :
    Tracks r (Value.relocate r) (Operation.typeOf arguments)
      (Operation.typeOf (arguments.relocate r)) := by
  refine (first arguments).bind fun v => ?_
  have hkeyword : Tracks r (fun x => x)
      (EvalM.namespaceStep fun s => s.internKeyword v.typeName)
      (EvalM.namespaceStep fun s => s.internKeyword (v.relocate r).typeName) := by
    rw [Value.typeName_relocate, funext (EvalM.namespaceStep_apply _)]
    exact concluded id .namespaces (fun _ => rfl) fun h => h.internKeyword v.typeName
  exact hkeyword.bind fun x => pure (Value.symbol x)

/-- An operation on namespaces. -/
theorem answer {operation : Interp → Value → Except Fault (NamespaceId × Interp)}
    (hoperation : ∀ {s t}, Relocated r s t → ∀ v, r.Agrees (operation s v)
      (operation t (v.relocate r))) (arguments : Value) :
    Tracks r (Value.relocate r) (NamespaceForm.answer operation arguments)
      (NamespaceForm.answer operation (arguments.relocate r)) := by
  rw [funext (NamespaceForm.answer_apply operation arguments),
    funext (NamespaceForm.answer_apply operation (arguments.relocate r))]
  exact concluded Value.names id (fun _ => rfl) fun h => hoperation h arguments

theorem onNamed {operation : Interp → String → Except NamespaceFault (NamespaceId × Interp)}
    (hoperation : ∀ {s t}, Relocated r s t → ∀ name, r.Agrees (operation s name)
      (operation t name)) (arguments : Value) :
    Tracks r (Value.relocate r) (NamespaceForm.answer (NamespaceForm.onNamed operation) arguments)
      (NamespaceForm.answer (NamespaceForm.onNamed operation) (arguments.relocate r)) := by
  refine answer (fun {s t} h v => ?_) arguments
  unfold NamespaceForm.onNamed
  rw [h.first, h.nameOf]
  cases NamespaceForm.nameOf s (s.first v) with
  | error fault => exact rfl
  | ok name =>
    have hagrees := hoperation h name
    dsimp only
    generalize operation s name = a at hagrees
    generalize operation t name = a' at hagrees
    cases a <;> cases a' <;> first | exact congrArg Fault.namespaces hagrees | exact hagrees

theorem makeFunction (operator : String) {kind : Closure → Callable}
    (hkind : ∀ c, (kind c).relocate r = kind (c.relocate r)) (hhost : ∀ c f, kind c ≠ .host f)
    (arguments : Value) :
    Tracks r (Value.relocate r) (SpecialForm.makeFunction operator kind arguments)
      (SpecialForm.makeFunction operator kind (arguments.relocate r)) := by
  intro s t h
  unfold SpecialForm.makeFunction
  rw [h.parameterList]
  cases SpecialForm.parameterList operator s arguments with
  | error fault => exact .error h
  | ok xs =>
    have halloc := h.allocClosure hkind hhost xs arguments
    dsimp only
    generalize SpecialForm.allocClosure kind xs arguments s = p at halloc
    generalize SpecialForm.allocClosure kind xs (arguments.relocate r) t = p' at halloc
    obtain ⟨v, u⟩ := p
    obtain ⟨v', w⟩ := p'
    obtain ⟨rfl, hu⟩ : v' = v.relocate r ∧ Relocated r u w := halloc
    exact .ok hu

theorem breakLoop : Tracks r (Value.relocate r) SpecialForm.breakLoop SpecialForm.breakLoop := by
  refine (same fun h => by rw [h.depths]).bind fun depth => ?_
  split
  · exact fail _
  · exact exit (Signal.breaking depth)

theorem returnValue (arguments : Value) :
    Tracks r (Value.relocate r) (Operation.returnValue arguments)
      (Operation.returnValue (arguments.relocate r)) := by
  refine (same fun h => by rw [h.depths]).bind fun depth => ?_
  split
  · exact fail _
  · exact (first arguments).bind fun v => exit (Signal.returning v depth)

theorem throwText (arguments : Value) :
    Tracks r (Value.relocate r) (Operation.throwText arguments)
      (Operation.throwText (arguments.relocate r)) := by
  refine (same fun h => by rw [h.depths]).bind fun depth => ?_
  split
  · exact fail _
  · refine (first arguments).bind fun v => ?_
    cases v with
    | string text => exact exit (Signal.throwing text depth)
    | _ => exact fail _

/-! ## New collections -/

theorem newArray (items : Array Value) :
    Tracks r (Value.relocate r) (EvalM.step fun s => s.allocArray items)
      (EvalM.step fun s => s.allocArray (items.map (Value.relocate r))) :=
  step fun h => ⟨by simp [Interp.allocArray, h.arrays], h.allocArray items⟩

theorem array (arguments : Value) :
    Tracks r (Value.relocate r) (Operation.array arguments)
      (Operation.array (arguments.relocate r)) :=
  step fun {s t} h => by
    have hitems : (t.elementsOf (arguments.relocate r)).toArray =
        (s.elementsOf arguments).toArray.map (Value.relocate r) := by
      rw [h.elementsOf, List.map_toArray]
    dsimp only
    rw [hitems]
    exact ⟨by simp [Interp.allocArray, h.arrays], h.allocArray _⟩

theorem makeArray (arguments : Value) :
    Tracks r (Value.relocate r) (Operation.makeArray arguments)
      (Operation.makeArray (arguments.relocate r)) := by
  intro s t h
  unfold Operation.makeArray
  rw [h.sizeOf]
  cases Operation.sizeOf s arguments with
  | error fault => exact .error h
  | ok size =>
    have hitems : Array.replicate size (t.second (arguments.relocate r)) =
        (Array.replicate size (s.second arguments)).map (Value.relocate r) := by
      rw [h.second, Array.map_replicate]
    dsimp only
    rw [hitems]
    exact newArray _ s t h

theorem newDictionary (es : List (Value × Value)) :
    Tracks r (Value.relocate r) (EvalM.step fun s => s.allocDictionary es)
      (EvalM.step fun s => s.allocDictionary (es.map (relocateEntry r))) :=
  step fun h => ⟨by simp [Interp.allocDictionary, h.dictionaries], h.allocDictionary es⟩

theorem newHashTable (table : Table Value Value) :
    Tracks r (Value.relocate r) (EvalM.step fun s => s.allocHashTable table)
      (EvalM.step fun s => s.allocHashTable (relocateTable r table)) :=
  step fun h => ⟨by simp [Interp.allocHashTable, h.hashTables], h.allocHashTable table⟩

theorem dictionary (arguments : Value) :
    Tracks r (Value.relocate r) (Operation.dictionary arguments)
      (Operation.dictionary (arguments.relocate r)) := by
  intro s t h
  have hfill := h.fillEntries [] (s.elementsOf arguments)
  change Operation.fillEntries t [] _ = _ at hfill
  unfold Operation.dictionary
  rw [h.elementsOf, hfill]
  cases Operation.fillEntries s [] (s.elementsOf arguments) with
  | error fault => exact .error h
  | ok es => exact newDictionary es s t h

theorem hashTable (arguments : Value) :
    Tracks r (Value.relocate r) (Operation.hashTable arguments)
      (Operation.hashTable (arguments.relocate r)) := by
  intro s t h
  have hfill := h.fillHashed .empty (s.elementsOf arguments)
  change Operation.fillHashed t .empty _ = _ at hfill
  unfold Operation.hashTable
  rw [h.elementsOf, hfill]
  cases Operation.fillHashed s .empty (s.elementsOf arguments) with
  | error fault => exact .error h
  | ok table => exact newHashTable table s t h

section Evaluator

variable {ev ev' : Evaluators} {context : Value}
  (hev : (ev context).Tracked r (ev' context))

include hev

/-! ## Mapping -/

theorem mapEntries (f : FunctionId) (done es : List (Value × Value)) :
    Tracks r (List.map (relocateEntry r)) (Operation.mapEntries ev context f done es)
      (Operation.mapEntries ev' context f (done.map (relocateEntry r))
        (es.map (relocateEntry r))) := by
  induction es generalizing done with
  | nil =>
    have hdone : Tracks r (List.map (relocateEntry r)) (Pure.pure done.reverse) _ := pure _
    rw [List.map_reverse] at hdone
    exact hdone
  | cons e rest ih =>
    refine (list [e.1, e.2]).bind fun arguments => ?_
    exact (hev.2 f arguments).bind fun v => ih ((e.2, v) :: done)

omit hev in
theorem collectLike (target : Value) (es : List (Value × Value)) :
    Tracks r (Value.relocate r) (Operation.collectLike target es)
      (Operation.collectLike (target.relocate r) (es.map (relocateEntry r))) := by
  have hvalues : (es.map (relocateEntry r)).map (·.2) = (es.map (·.2)).map (Value.relocate r) := by
    simp [Function.comp_def]
  have hlist := list (r := r) (es.map (·.2))
  rw [← hvalues] at hlist
  cases target with
  | array id =>
    have hnew := newArray (r := r) (es.map (·.2)).toArray
    rw [List.map_toArray, ← hvalues] at hnew
    exact hnew
  | dictionary id =>
    show Tracks r (Value.relocate r)
      (EvalM.step fun s =>
        s.allocDictionary (es.foldl (fun acc e => s.assignEntry acc e.1 e.2) []))
      (EvalM.step fun t => t.allocDictionary
        ((es.map (relocateEntry r)).foldl (fun acc e => t.assignEntry acc e.1 e.2) []))
    refine step fun {s t} h => ?_
    have hentries := h.assignedEntries [] es
    rw [List.map_nil] at hentries
    rw [hentries]
    exact ⟨by simp [Interp.allocDictionary, h.dictionaries], h.allocDictionary _⟩
  | hashTable id =>
    have hinserted : ∀ (acc : Table Value Value) (es : List (Value × Value)),
        (es.map (relocateEntry r)).foldl (fun acc e => acc.insert e.1 e.2) (relocateTable r acc) =
          relocateTable r (es.foldl (fun acc e => acc.insert e.1 e.2) acc) := by
      intro acc es
      induction es generalizing acc with
      | nil => rfl
      | cons e rest ih =>
        rw [List.map_cons, List.foldl_cons, List.foldl_cons, ← ih]
        exact congrArg (List.foldl _ · _)
          (Table.insert_mapEntries (Value.relocate_injective r) acc e.1 e.2)
    have hnew := newHashTable (r := r)
      (es.foldl (fun acc e => acc.insert e.1 e.2) Table.empty)
    rw [← hinserted] at hnew
    exact hnew
  | _ => exact hlist

theorem map (arguments : Value) :
    Tracks r (Value.relocate r) (Operation.map ev context arguments)
      (Operation.map ev' context (arguments.relocate r)) := by
  refine (first arguments).bind fun target => ?_
  refine (read fun h => h.entries target).bind fun es => ?_
  cases es with
  | error fault => exact mentioning (fun text => .type (.mapCollection text) none) target
  | ok es =>
    refine (read fun h => h.second arguments).bind fun f => ?_
    cases f with
    | function f => exact (mapEntries hev f [] es).bind fun pairs => collectLike target pairs
    | _ => exact fail _

/-! ## Calls -/

omit hev in
theorem bindParameters (total bound : Nat) (xs : List SymbolId) (arguments : Value) :
    Tracks r (Value.relocate r) (Closure.bindParameters total bound xs arguments)
      (Closure.bindParameters total bound xs (arguments.relocate r)) := by
  induction xs generalizing bound arguments with
  | nil => exact pure arguments
  | cons x rest ih =>
    intro s t h
    unfold Closure.bindParameters
    rw [h.symbol]
    split
    · rw [h.reservedBinding]
      exact .error h
    · cases arguments with
      | cons id =>
        dsimp only [Value.relocate_cons]
        rw [h.car, h.cdr]
        exact ih (bound + 1) (s.cdr id) _ _ (h.bind x (s.car id))
      | _ => exact .error h

omit hev in
theorem landReturn {act act' : EvalM Value} (depth : Nat)
    (h : Tracks r (Value.relocate r) act act') :
    Tracks r (Value.relocate r) (Closure.landReturn depth act)
      (Closure.landReturn depth act') := by
  intro s t hst
  have hmoved := h s t hst
  unfold Closure.landReturn
  generalize act s = result at hmoved
  generalize act' t = result' at hmoved
  cases hmoved with
  | ok hu => exact .ok hu
  | @error flow u w hu =>
    cases flow with
    | signal σ =>
      cases σ with
      | returning v target =>
        dsimp only [Flow.relocate, Signal.relocate]
        split
        · exact .ok hu
        · exact .error hu
      | _ => exact .error hu
    | _ => exact .error hu

/-- The value that a closure finds itself under is no cell. -/
theorem run (c : Closure) (arguments : Value) (this : Option FunctionId) :
    Tracks r (Value.relocate r) (c.run ev context arguments (this.map Value.function))
      ((c.relocate r).run ev' context (arguments.relocate r) (this.map Value.function)) := by
  refine newScope.bind fun fresh => ?_
  refine inScope c.captured (inScope fresh (inFrame .call ?_))
  refine (same fun h => by rw [h.depths]).bind fun depth => ?_
  refine (bindParameters _ 0 c.parameters arguments).bind fun left => ?_
  refine (bindSymbol .rest left).bind fun _ => ?_
  refine (update fun h => ?_).bind fun _ => landReturn depth (body hev c.body)
  cases this with
  | none => exact h
  | some id => exact h.bind .self (.function id)

theorem primitive (op : Primitive) (n : Nat) (arguments : Value) :
    Tracks r (Value.relocate r) (op.run ev context n arguments)
      (op.run ev' context n (arguments.relocate r)) := by
  cases op with
  | quote | unquote | splice => exact first arguments
  | backquote => exact backquote hev n arguments
  | makeLambda => exact makeFunction "LAMBDA" (fun _ => rfl) (by simp) arguments
  | makeMacro => exact makeFunction "MACRO" (fun _ => rfl) (by simp) arguments
  | bindVariable => exact bindVariable hev arguments
  | assign => exact assign hev arguments
  | scope => exact scope hev arguments
  | gensym => exact gensym
  | choose => exact choose hev arguments
  | sequence | sequenceDo => exact body hev arguments
  | conjunction => exact conjunction hev arguments
  | disjunction => exact disjunction hev arguments
  | loop => exact loop hev n arguments
  | guarded => exact guarded hev arguments
  | breakLoop => exact breakLoop
  | returnValue => exact returnValue arguments
  | throwText => exact throwText arguments
  | defineNamespace => exact answer (fun h v => h.create v) arguments
  | inNamespace => exact onNamed (fun h name => h.changeNamespace name) arguments
  | useNamespace => exact onNamed (fun h name => h.useNamed name) arguments
  | list => exact pure arguments
  | car => exact half "CAR" (fun h => h.car) arguments
  | cdr => exact half "CDR" (fun h => h.cdr) arguments
  | cons =>
    exact (first arguments).bind fun a =>
      (read fun h => h.second arguments).bind fun b => cons a b
  | evaluate => exact (first arguments).bind fun form => hev.1 form
  | not => exact decided fun h => by rw [h.first, Value.isNil_relocate]
  | eql =>
    refine decided fun h => ?_
    rw [h.first, h.second]
    simp only [Value.relocate_inj]
  | equal => exact equal arguments
  | typeOf => exact typeOf arguments
  | element => exact query fun h => by rw [h.first, h.second, h.access]
  | array => exact array arguments
  | makeArray => exact makeArray arguments
  | dictionary => exact dictionary arguments
  | hashTable => exact hashTable arguments
  | length =>
    refine query fun {s t} h => ?_
    rw [h.first, h.length]
    cases s.length (s.first arguments) <;> rfl
  | map => exact map hev arguments
  | add | subtract | multiply | divide | remainder =>
    refine query fun {s t} h => ?_
    rw [h.elementsOf, h.fold]
    cases Arithmetic.fold _ _ (s.elementsOf arguments) <;> rfl
  | less | lessEqual | greater | greaterEqual =>
    refine query fun {s t} h => ?_
    rw [h.first, h.numberOf, h.rest, h.elementsOf]
    cases Operation.numberOf _ s (s.first arguments) with
    | error fault => rfl
    | ok n =>
      dsimp only
      rw [h.chainFrom]
      cases Comparison.chainFrom _ _ n (s.elementsOf (s.rest arguments)) <;> simp [Except.map]
  | max | min =>
    refine query fun {s t} h => ?_
    rw [h.first, h.numberOf, h.rest, h.elementsOf]
    cases Operation.numberOf _ s (s.first arguments) with
    | error fault => rfl
    | ok n =>
      dsimp only
      rw [h.extremumFrom]
      cases Extremum.foldFrom _ _ n (s.elementsOf (s.rest arguments)) <;> rfl

end Evaluator

/-! ## The evaluator -/

section Context

variable {hosts : HostTable} {evaluator evaluator' : Evaluators} {n : Nat} {context : Value}
  (hev : ∀ context, (evaluator context).Tracked r (evaluator' context))

include hev

theorem call (id : FunctionId) (arguments : Value) {f : Callable} (hf : ∀ g, f ≠ .host g) :
    Tracks r (Value.relocate r) (f.call hosts evaluator n context id arguments)
      ((f.relocate r).call hosts evaluator' n context id (arguments.relocate r)) := by
  cases f with
  | primitive op => exact primitive (hev context) op n arguments
  | host g => exact absurd rfl (hf g)
  | lambda c => exact run (hev context) c arguments (some id)
  | expander c =>
    exact (run (hev context) c arguments none).bind fun expansion => (hev context).1 expansion

theorem applyForm (cell : CellId) :
    Tracks r (Value.relocate r) (Evaluator.applyForm hosts evaluator n context cell)
      (Evaluator.applyForm hosts evaluator' n context (r.move cell)) := by
  refine (read fun h => h.car cell).bind fun head => ?_
  refine (read fun h => h.cdr cell).bind fun operands => ?_
  refine ((hev context).1 head).bind fun operator => ?_
  cases operator with
  | function id =>
    refine known (fun h => h.fit id operands) fun {s t} h => ?_
    cases hfit : Evaluator.fit s id operands with
    | dotted =>
      exact mentioning (fun text => .evaluation (.dottedForm text) none) (.cons cell) s t h
    | short expected got =>
      exact mentioning (fun text => .arity expected got (some text)) (.cons cell) s t h
    | fits f =>
      have hcall (arguments : Value) : Tracks r (Value.relocate r)
          (f.call hosts evaluator n context id arguments)
          ((f.relocate r).call hosts evaluator' n context id (arguments.relocate r)) :=
        call hev id arguments (h.not_host hfit)
      dsimp only [Evaluator.Fit.relocate]
      rw [Callable.evaluatesArguments_relocate]
      split
      · exact ((evaluated (hev context) operands).bind hcall) s t h
      · exact hcall operands s t h
  | _ => exact mentioning (fun text => .type (.notFunction text) none) _

theorem applyReady (id : FunctionId) (arguments : Value) :
    Tracks r (Value.relocate r) (Evaluator.applyReady hosts evaluator n context id arguments)
      (Evaluator.applyReady hosts evaluator' n context id (arguments.relocate r)) := by
  refine known (fun h => h.fit id arguments) fun {s t} h => ?_
  cases hfit : Evaluator.fit s id arguments with
  | dotted =>
    exact mentioning (fun text => .evaluation (.dottedArguments text) none) arguments s t h
  | short expected got => exact fail _ s t h
  | fits f => exact call hev id arguments (h.not_host hfit) s t h

omit hev in
theorem namingForm (form : Value) {act act' : EvalM Value}
    (h : Tracks r (Value.relocate r) act act') :
    Tracks r (Value.relocate r) (Evaluator.namingForm form act)
      (Evaluator.namingForm (form.relocate r) act') := by
  intro s t hst
  have hmoved := h s t hst
  unfold Evaluator.namingForm
  generalize act s = result at hmoved
  generalize act' t = result' at hmoved
  cases hmoved with
  | ok hu => exact .ok hu
  | @error flow u w hu =>
    cases flow with
    | fault cause =>
      dsimp only [Flow.relocate]
      rw [hu.print]
      split
      · exact .error hu
      · exact .error hu
    | _ => exact .error hu

theorem evaluateActive (form : Value) :
    Tracks r (Value.relocate r) (Evaluator.evaluateActive hosts evaluator n context form)
      (Evaluator.evaluateActive hosts evaluator' n context (form.relocate r)) := by
  cases form with
  | symbol x =>
    intro s t h
    unfold Evaluator.evaluateActive
    dsimp only [Value.relocate_symbol]
    rw [h.lookup?, h.printSymbol]
    cases s.lookup? x with
    | some v => exact .ok h
    | none => exact .error h
  | cons cell => exact namingForm (.cons cell) (applyForm hev cell)
  | _ => exact pure _

end Context

end Tracks

/-- Under a limit that is one higher, with one more active evaluation, a request is carried out in
the same way in relocated states. -/
theorem Evaluator.nested_tracked (r : Relocation) (hosts : HostTable) (limit n active : Nat)
    (context : Value) :
    Tracked r (nested hosts (throw .spent) limit n active context)
      (nested hosts (throw .spent) (limit + 1) n (active + 1) context) := by
  induction n generalizing active context with
  | zero => exact ⟨fun _ => .exhausted, fun _ _ => .exhausted⟩
  | succ n ih =>
    refine ⟨fun form => ?_, fun f arguments => Tracks.applyReady (ih active) f arguments⟩
    unfold nested
    simp only [Nat.add_lt_add_iff_right]
    split
    · exact (Tracks.evaluateActive (ih (active + 1)) form).counted
    · exact .exhausted

end SmallLisp
