import SmallLisp.Proofs.Discretion
import SmallLisp.Proofs.PairedRuns

/-!
# Whole evaluations are discreet

The remaining operations, calls of closures and of host functions, and with them
`Evaluator.perform_discreet`: whatever is asked of the evaluator about known values, it leaves the
hidden cells as they are and hidden, on every ending and without fuel.

A program of the host sees the whole state, so it has to be discreet by itself:
`HostProgram.Discreet` asks that it works with what it has been given and what it reads off that.
-/

namespace SmallLisp

/-- What a run ended with is known. -/
def EndingKnown (hidden : CellId → Prop) (s : Interp) : Ending Value → Prop
  | .ok v => v.Known hidden s
  | .error stop => stop.flow.Known hidden s

def HostRequest.Known (hidden : CellId → Prop) (s : Interp) : HostRequest → Prop
  | .evaluate v | .evaluateAll v | .runBody v | .apply _ v => v.Known hidden s

/-- From a state on, a program asks about known values and ends with known values. -/
inductive HostProgram.Discreet (hidden : CellId → Prop) : Interp → HostProgram → Prop
  | finish {s : Interp} {ending : Ending Value} (hending : EndingKnown hidden s ending) :
      Discreet hidden s (.finish ending)
  | inspect {s : Interp} {next : Interp → HostProgram} (hnext : Discreet hidden s (next s)) :
      Discreet hidden s (.inspect next)
  | construct {s : Interp} {car cdr : Value} {next : Value → HostProgram}
      (hcar : car.Known hidden s) (hcdr : cdr.Known hidden s)
      (hnext : Discreet hidden (s.allocCell car cdr).2 (next (s.allocCell car cdr).1)) :
      Discreet hidden s (.construct car cdr next)
  | ask {s : Interp} {context : Value} {request : HostRequest} {next : Ending Value → HostProgram}
      (hcontext : context.Known hidden s) (hrequest : request.Known hidden s)
      (hnext : ∀ ending t, Spared hidden s t → EndingKnown hidden t ending →
        Discreet hidden t (next ending)) :
      Discreet hidden s (.ask context request next)

/-- Whatever cells are hidden, the programs of a host are discreet. -/
def HostTable.Discreet (hosts : HostTable) : Prop :=
  ∀ hidden name arguments context s, s.Withholds hidden → arguments.Known hidden s →
    context.Known hidden s → (hosts name arguments context).Discreet hidden s

variable {hidden : CellId → Prop} {context : Value} {s t u : Interp}

namespace HostProgram

theorem Discreet.fail (cause : Fault) : (HostProgram.fail cause).Discreet hidden s :=
  .finish trivial

theorem demonstration_discreet : demonstration.Discreet := by
  intro hidden name arguments context s hs harguments hcontext
  unfold demonstration
  split
  · exact .finish harguments
  split
  · exact .finish hcontext
  split
  · refine .inspect ?_
    split
    · exact .finish nofun
    · exact .fail _
  split
  · exact .inspect (.finish nofun)
  split
  · exact .ask hcontext harguments fun ending t _ hending => .finish hending
  split
  · refine .inspect ?_
    split
    · exact .ask hcontext (hs.second harguments) fun ending t _ hending => .finish hending
    · exact .fail _
  split
  · exact .inspect (.ask nofun (hs.first harguments) fun ending t _ hending => .finish hending)
  · exact .fail _

end HostProgram

namespace Discreet

/-- What a discreet run that ended in this way has done. -/
theorem of_ends {ending : Ending Value}
    (h : Discreet hidden (Value.Known hidden) s (EvalM.resume ending t)) :
    Spared hidden s t ∧ EndingKnown hidden t ending := by
  cases ending with
  | ok v =>
    cases h with
    | ok after hv => exact ⟨after, hv⟩
  | error stop =>
    cases h with
    | error after hflow => exact ⟨after, hflow⟩

/-! ## New collections -/

theorem newArray {items : Array Value} (hs : s.Withholds hidden)
    (hitems : ∀ v ∈ items, v.Known hidden s) :
    Discreet hidden (Value.Known hidden) s (.ok (s.allocArray items).1 (s.allocArray items).2) :=
  .ok (hs.allocArray hitems) nofun

theorem newDictionary {es : List (Value × Value)} (hs : s.Withholds hidden)
    (hes : EntriesKnown hidden s es) :
    Discreet hidden (Value.Known hidden) s
      (.ok (s.allocDictionary es).1 (s.allocDictionary es).2) :=
  .ok (hs.allocDictionary hes) nofun

theorem newHashTable {table : Table Value Value} (hs : s.Withholds hidden)
    (htable : EntriesKnown hidden s table.entries) :
    Discreet hidden (Value.Known hidden) s
      (.ok (s.allocHashTable table).1 (s.allocHashTable table).2) :=
  .ok (hs.allocHashTable htable) nofun

section Evaluator

variable {ev : Evaluators} (hev : ev.Discreet)

include hev

/-! ## Assignment and mapping -/

omit hev in
theorem assignElement {arguments value : Value} (hs : s.Withholds hidden)
    (harguments : arguments.Known hidden s) (hvalue : value.Known hidden s) :
    Discreet hidden (Value.Known hidden) s (SpecialForm.assignElement arguments value s) := by
  have hassigned : Discreet hidden (fun _ _ => True) s
      (EvalM.assign (s.first arguments) (s.second arguments) value s) := by
    unfold EvalM.assign
    split
    · exact .error (.refl hs) trivial
    · unfold Interp.assign
      cases hplace : s.place (s.first arguments) (s.second arguments) with
      | error cause => exact .error (.refl hs) trivial
      | ok place =>
        exact .ok (hs.store (hs.first harguments) (hs.second harguments) hvalue hplace) trivial
  exact .read_bind <| .read_bind <| hassigned.bind fun _ t ht _ =>
    .pure ht.withholds (ht.known hvalue)

omit hev in
theorem notAssignable (got : Value) (hs : s.Withholds hidden) :
    Discreet hidden (Value.Known hidden) s (SpecialForm.notAssignable got s) :=
  failing hs

theorem assignThrough [lists : ListBuilding] [lists.Sparing] {place form : Value}
    (hs : s.Entrusts hidden context) (hplace : place.Known hidden s) (hform : form.Known hidden s) :
    Discreet hidden (Value.Known hidden) s (SpecialForm.assignThrough ev context place form s) := by
  refine .read_bind ?_
  refine (Discreet.form hev hs (hs.withholds.first hplace)).bind fun operator t ht _ => ?_
  cases operator with
  | function id =>
    refine .read_bind ?_
    cases hstore : SpecialForm.assignPlace? (t.callable id) with
    | none => exact notAssignable _ ht.withholds
    | some store =>
      rw [SpecialForm.eq_assignElement hstore]
      have hoperands := ht.withholds.rest (ht.known hplace)
      refine .read_bind <| .read_bind ?_
      split
      · exact failing ht.withholds
      · refine .read_bind ?_
        split
        · exact failing ht.withholds
        · refine (evaluated hev (hs.after ht) hoperands).bind fun arguments u hu harguments => ?_
          have hboth := ht.trans hu
          refine (Discreet.form hev (hs.after hboth) (hboth.known hform)).bind fun v w hw hv => ?_
          exact assignElement hw.withholds (hw.known harguments) hv
  | _ => exact notAssignable _ ht.withholds

omit hev in
theorem assignSymbol (x : SymbolId) {v : Value} (hs : s.Withholds hidden)
    (hv : v.Known hidden s) :
    Discreet hidden (fun _ _ => True) s (SpecialForm.assignSymbol x v s) := by
  unfold SpecialForm.assignSymbol
  cases s.holder? x with
  | none => exact .error (.refl hs) trivial
  | some id => exact .ok (hs.bindIn id x hv) trivial

theorem assign [lists : ListBuilding] [lists.Sparing] {arguments : Value}
    (hs : s.Entrusts hidden context)
    (harguments : arguments.Known hidden s) :
    Discreet hidden (Value.Known hidden) s (SpecialForm.assign ev context arguments s) := by
  have hplace := hs.withholds.first harguments
  have hform := hs.withholds.second harguments
  refine .read_bind <| .read_bind ?_
  cases hfirst : s.first arguments with
  | symbol x =>
    refine .read_bind ?_
    split
    · exact .read_bind (.fail _ hs.withholds)
    · refine (Discreet.form hev hs hform).bind fun v t ht hv => ?_
      refine (assignSymbol x ht.withholds hv).bind fun _ u hu _ => ?_
      exact .pure hu.withholds (hu.known hv)
  | cons id => exact assignThrough hev hs (hfirst ▸ hplace) hform
  | _ => exact notAssignable _ hs.withholds

theorem mapEntries {f : FunctionId} {done es : List (Value × Value)}
    (hs : s.Entrusts hidden context) (hdone : EntriesKnown hidden s done)
    (hes : EntriesKnown hidden s es) :
    Discreet hidden (EntriesKnown hidden) s (Operation.mapEntries ev context f done es s) := by
  induction es generalizing s done with
  | nil => exact .pure hs.withholds fun e he => hdone e (List.mem_reverse.mp he)
  | cons e rest ih =>
    obtain ⟨⟨hitem, hkey⟩, hrest⟩ := List.forall_mem_cons.mp hes
    have hpair : ∀ v ∈ [e.1, e.2], v.Known hidden s :=
      List.forall_mem_cons.mpr ⟨hitem, List.forall_mem_singleton.mpr hkey⟩
    refine (list hs.withholds hpair).bind fun arguments t ht harguments => ?_
    have hcall := hev hidden context (.apply f arguments) t (hs.after ht) harguments
    refine hcall.bind fun v u hu hv => ?_
    have hboth := ht.trans hu
    refine ih (hs.after hboth) ?_ (hboth.entriesKnown hrest)
    exact List.forall_mem_cons.mpr ⟨⟨hboth.known hkey, hv⟩, hboth.entriesKnown hdone⟩

omit hev in
theorem collectLike (target : Value) {pairs : List (Value × Value)} (hs : s.Withholds hidden)
    (hpairs : EntriesKnown hidden s pairs) :
    Discreet hidden (Value.Known hidden) s (Operation.collectLike target pairs s) := by
  have hvalues : ∀ v ∈ pairs.map (·.2), v.Known hidden s := by
    intro v hv
    obtain ⟨e, he, rfl⟩ := List.mem_map.mp hv
    exact (hpairs e he).2
  unfold Operation.collectLike
  split
  · exact newArray hs fun v hv => hvalues v (List.mem_toArray.mp hv)
  · refine newDictionary hs ?_
    refine List.foldlRecOn (motive := EntriesKnown hidden s) pairs _
      (fun _ he => absurd he List.not_mem_nil) ?_
    exact fun acc hacc e he =>
      Interp.Withholds.assignEntry hacc (hpairs e he).1 (hpairs e he).2
  · refine newHashTable hs ?_
    refine List.foldlRecOn (motive := fun acc : Table Value Value =>
      EntriesKnown hidden s acc.entries) pairs _
      (fun _ he => absurd he List.not_mem_nil) ?_
    intro acc hacc e he e' he'
    rcases Table.mem_insert he' with rfl | he'
    · exact hpairs e he
    · exact hacc e' he'
  · exact list hs hvalues

theorem map {arguments : Value} (hs : s.Entrusts hidden context)
    (harguments : arguments.Known hidden s) :
    Discreet hidden (Value.Known hidden) s (Operation.map ev context arguments s) := by
  refine .read_bind <| .read_bind ?_
  cases hentries : s.entries (s.first arguments) with
  | error cause => exact failing hs.withholds
  | ok es =>
    refine .read_bind ?_
    cases s.second arguments with
    | function f =>
      have hes := hs.withholds.entries (hs.withholds.first harguments) hentries
      refine (mapEntries hev hs (fun _ he => absurd he List.not_mem_nil) hes).bind ?_
      exact fun pairs t ht hpairs => collectLike _ ht.withholds hpairs
    | _ => exact .fail _ hs.withholds

end Evaluator

/-! ## Operations that evaluate nothing -/

theorem makeFunction (expands : Bool) {operator : String} {arguments : Value}
    (hs : s.Withholds hidden) (harguments : arguments.Known hidden s) :
    Discreet hidden (Value.Known hidden) s
      (SpecialForm.makeFunction operator (.ofClosure expands) arguments s) := by
  unfold SpecialForm.makeFunction
  cases SpecialForm.parameterList operator s arguments with
  | error cause => exact .error (.refl hs) trivial
  | ok xs => exact .ok (hs.allocClosure expands xs harguments) nofun

theorem typeOf (arguments : Value) (hs : s.Withholds hidden) :
    Discreet hidden (Value.Known hidden) s (Operation.typeOf arguments s) := by
  refine .read_bind <| (namespaceStep hs fun x u h => hs.internKeyword h).bind fun x t ht _ => ?_
  exact .pure ht.withholds nofun

/-- The answer of an operation on namespaces is no cell. -/
theorem answer {operation : Interp → Value → Except Fault (NamespaceId × Interp)}
    {arguments : Value} (hs : s.Withholds hidden)
    (hoperation : ∀ id u, operation s arguments = .ok (id, u) → Spared hidden s u) :
    Discreet hidden (Value.Known hidden) s (NamespaceForm.answer operation arguments s) := by
  unfold NamespaceForm.answer
  cases h : operation s arguments with
  | error cause => exact .error (.refl hs) trivial
  | ok r => exact .ok (hoperation r.1 r.2 h) nofun

/-- An operation on the namespace that the first argument names. -/
theorem onNamed {operation : Interp → String → Except NamespaceFault (NamespaceId × Interp)}
    {arguments : Value} (hs : s.Withholds hidden)
    (hoperation : ∀ name id u, operation s name = .ok (id, u) → Spared hidden s u) :
    Discreet hidden (Value.Known hidden) s
      (NamespaceForm.answer (NamespaceForm.onNamed operation) arguments s) := by
  refine answer hs fun id u h => ?_
  unfold NamespaceForm.onNamed at h
  split at h
  · cases h
  next name _ =>
    split at h
    · cases h
    next hnamed =>
      cases h
      exact hoperation name id u hnamed

theorem makeArray {arguments : Value} (hs : s.Withholds hidden)
    (harguments : arguments.Known hidden s) :
    Discreet hidden (Value.Known hidden) s (Operation.makeArray arguments s) := by
  unfold Operation.makeArray
  cases Operation.sizeOf s arguments with
  | error cause => exact .error (.refl hs) trivial
  | ok size =>
    refine newArray hs fun v hv => ?_
    rw [(Array.mem_replicate.mp hv).2]
    exact hs.second harguments

theorem pairOf_known {collection : String} {v key value : Value} (hs : s.Withholds hidden)
    (hv : v.Known hidden s) (h : Operation.pairOf collection s v = .ok (key, value)) :
    key.Known hidden s ∧ value.Known hidden s := by
  unfold Operation.pairOf at h
  split at h
  next hitems =>
    cases h
    have hboth := hs.properElements? hv hitems
    exact ⟨hboth key (by simp), hboth value (by simp)⟩
  next => cases h

theorem fillEntries_known {es es' : List (Value × Value)} {vs : List Value}
    (hs : s.Withholds hidden) (hvs : ∀ v ∈ vs, v.Known hidden s) (hes : EntriesKnown hidden s es)
    (h : Operation.fillEntries s es vs = .ok es') : EntriesKnown hidden s es' := by
  induction vs generalizing es with
  | nil =>
    cases h
    exact hes
  | cons v rest ih =>
    obtain ⟨hv, hrest⟩ := List.forall_mem_cons.mp hvs
    unfold Operation.fillEntries at h
    split at h
    · cases h
    next key value hpair =>
      obtain ⟨hkey, hvalue⟩ := pairOf_known hs hv hpair
      exact ih hrest (Interp.Withholds.assignEntry hes hkey hvalue) h

theorem fillHashed_known {table table' : Table Value Value} {vs : List Value}
    (hs : s.Withholds hidden) (hvs : ∀ v ∈ vs, v.Known hidden s)
    (htable : EntriesKnown hidden s table.entries)
    (h : Operation.fillHashed s table vs = .ok table') :
    EntriesKnown hidden s table'.entries := by
  induction vs generalizing table with
  | nil =>
    cases h
    exact htable
  | cons v rest ih =>
    obtain ⟨hv, hrest⟩ := List.forall_mem_cons.mp hvs
    unfold Operation.fillHashed at h
    split at h
    · cases h
    next key value hpair =>
      have hpairKnown := pairOf_known hs hv hpair
      split at h
      · cases h
      next hassign =>
        refine ih hrest (fun e he => ?_) h
        unfold Interp.assignHashed at hassign
        split at hassign
        · cases hassign
          rcases Table.mem_insert he with rfl | he
          · exact hpairKnown
          · exact htable e he
        · cases hassign

theorem dictionary {arguments : Value} (hs : s.Withholds hidden)
    (harguments : arguments.Known hidden s) :
    Discreet hidden (Value.Known hidden) s (Operation.dictionary arguments s) := by
  unfold Operation.dictionary
  cases hfill : Operation.fillEntries s [] (s.elementsOf arguments) with
  | error cause => exact .error (.refl hs) trivial
  | ok es =>
    refine newDictionary hs ?_
    exact fillEntries_known hs (hs.elementsOf harguments)
      (fun _ he => absurd he List.not_mem_nil) hfill

theorem hashTable {arguments : Value} (hs : s.Withholds hidden)
    (harguments : arguments.Known hidden s) :
    Discreet hidden (Value.Known hidden) s (Operation.hashTable arguments s) := by
  unfold Operation.hashTable
  cases hfill : Operation.fillHashed s .empty (s.elementsOf arguments) with
  | error cause => exact .error (.refl hs) trivial
  | ok table =>
    refine newHashTable hs ?_
    exact fillHashed_known hs (hs.elementsOf harguments)
      (fun _ he => absurd he List.not_mem_nil) hfill

theorem array {arguments : Value} (hs : s.Withholds hidden)
    (harguments : arguments.Known hidden s) :
    Discreet hidden (Value.Known hidden) s (Operation.array arguments s) :=
  newArray hs fun v hv => hs.elementsOf harguments v (List.mem_toArray.mp hv)

theorem pair {arguments : Value} (hs : s.Withholds hidden)
    (harguments : arguments.Known hidden s) :
    Discreet hidden (Value.Known hidden) s (Operation.cons arguments s) := by
  have hcell := hs.allocCell (hs.first harguments) (hs.second harguments)
  exact .read_bind <| .read_bind (.ok hcell (hs.known_allocCell _ _))

theorem half {operator : String} {part : Interp → CellId → Value} {arguments : Value}
    (hs : s.Withholds hidden) (harguments : arguments.Known hidden s)
    (hpart : ∀ id, (Value.cons id).Known hidden s → (part s id).Known hidden s) :
    Discreet hidden (Value.Known hidden) s (Operation.half operator part arguments s) := by
  refine query hs fun v hv => ?_
  split at hv
  · cases hv
    exact nofun
  next id hfirst =>
    cases hv
    exact hpart id (hfirst ▸ hs.first harguments)
  · cases hv

theorem element {arguments : Value} (hs : s.Withholds hidden)
    (harguments : arguments.Known hidden s) :
    Discreet hidden (Value.Known hidden) s (Operation.element arguments s) :=
  query hs fun _ hv => hs.access (hs.first harguments) hv

theorem length (arguments : Value) (hs : s.Withholds hidden) :
    Discreet hidden (Value.Known hidden) s (Operation.length arguments s) := by
  refine query hs fun v hv => ?_
  obtain ⟨n, -, rfl⟩ := ok_of_map hv
  exact nofun

theorem arithmetic (op : Arithmetic) (arguments : Value) (hs : s.Withholds hidden) :
    Discreet hidden (Value.Known hidden) s (Operation.arithmetic op arguments s) := by
  refine query hs fun v hv => ?_
  obtain ⟨n, -, rfl⟩ := ok_of_map hv
  exact nofun

theorem comparison (op : Comparison) (arguments : Value) (hs : s.Withholds hidden) :
    Discreet hidden (Value.Known hidden) s (Operation.comparison op arguments s) := by
  refine query hs fun v hv => ?_
  split at hv
  · cases hv
  · obtain ⟨answer, -, rfl⟩ := ok_of_map hv
    exact Value.Known.ofBool answer

theorem extremum (op : Extremum) (arguments : Value) (hs : s.Withholds hidden) :
    Discreet hidden (Value.Known hidden) s (Operation.extremum op arguments s) := by
  refine query hs fun v hv => ?_
  split at hv
  · cases hv
  · obtain ⟨n, -, rfl⟩ := ok_of_map hv
    exact nofun

/-! ## Exits -/

theorem exit {signal : Signal} (hs : s.Withholds hidden)
    (hsignal : Flow.Known hidden s (.signal signal)) :
    Discreet hidden (Value.Known hidden) s (EvalM.exit signal s) :=
  .error (.refl hs) hsignal

theorem returnValue {arguments : Value} (hs : s.Withholds hidden)
    (harguments : arguments.Known hidden s) :
    Discreet hidden (Value.Known hidden) s (Operation.returnValue arguments s) := by
  refine .read_bind ?_
  split
  · exact .fail _ hs
  · exact .read_bind (exit hs (hs.first harguments))

theorem throwText (arguments : Value) (hs : s.Withholds hidden) :
    Discreet hidden (Value.Known hidden) s (Operation.throwText arguments s) := by
  refine .read_bind ?_
  split
  · exact .fail _ hs
  · refine .read_bind ?_
    cases s.first arguments with
    | string text => exact exit hs trivial
    | _ => exact .fail _ hs

theorem breakLoop (hs : s.Withholds hidden) :
    Discreet hidden (Value.Known hidden) s (SpecialForm.breakLoop s) := by
  refine .read_bind ?_
  split
  · exact .fail _ hs
  · exact exit hs trivial

section Evaluator

variable {ev : Evaluators} (hev : ev.Discreet)

include hev

theorem primitive [lists : ListBuilding] [lists.Sparing] {n : Nat} {arguments : Value}
    (op : Primitive) (hs : s.Entrusts hidden context)
    (harguments : arguments.Known hidden s) :
    Discreet hidden (Value.Known hidden) s (op.run ev context n arguments s) := by
  have hw := hs.withholds
  have hfirst := hw.first harguments
  have hread : ∀ f : Interp → Value, (f s).Known hidden s →
      Discreet hidden (Value.Known hidden) s (EvalM.read f s) := fun _ hf => .ok (.refl hw) hf
  cases op with
  | quote => exact hread (fun u => u.first arguments) hfirst
  | backquote => exact .read_bind (fill hev hs hfirst)
  | unquote => exact hread (fun u => u.first arguments) hfirst
  | splice => exact hread (fun u => u.first arguments) hfirst
  | makeLambda => exact makeFunction false hw harguments
  | makeMacro => exact makeFunction true hw harguments
  | bindVariable => exact bindVariable hev hs harguments
  | assign => exact assign hev hs harguments
  | scope => exact scope hev hs harguments
  | gensym => exact .ok hw.generate nofun
  | choose => exact choose hev hs harguments
  | sequence => exact body hev hs harguments
  | sequenceDo => exact body hev hs harguments
  | conjunction => exact conjunction hev hs harguments
  | disjunction => exact disjunction hev hs harguments
  | loop => exact loop hev hs harguments
  | guarded => exact guarded hev hs harguments
  | breakLoop => exact breakLoop hw
  | returnValue => exact returnValue hw harguments
  | throwText => exact throwText arguments hw
  | defineNamespace => exact answer hw fun _ _ h => hw.create h
  | inNamespace => exact onNamed hw fun _ _ _ h => hw.changeNamespace h
  | useNamespace => exact onNamed hw fun _ _ _ h => hw.useNamed h
  | list => exact .pure hw harguments
  | car => exact half hw harguments fun _ hid => hw.car hid
  | cdr => exact half hw harguments fun _ hid => hw.cdr hid
  | cons => exact pair hw harguments
  | evaluate => exact .read_bind (form hev hs hfirst)
  | not => exact hread (fun u => .ofBool (u.first arguments).isNil) (.ofBool _)
  | eql => exact hread (fun u => .ofBool (u.first arguments = u.second arguments)) (.ofBool _)
  | equal =>
    exact hread (fun u => .ofBool (u.equal (u.first arguments) (u.second arguments))) (.ofBool _)
  | typeOf => exact typeOf arguments hw
  | element => exact element hw harguments
  | array => exact array hw harguments
  | makeArray => exact makeArray hw harguments
  | dictionary => exact dictionary hw harguments
  | hashTable => exact hashTable hw harguments
  | length => exact length arguments hw
  | map => exact map hev hs harguments
  | add => exact arithmetic _ arguments hw
  | subtract => exact arithmetic _ arguments hw
  | multiply => exact arithmetic _ arguments hw
  | divide => exact arithmetic _ arguments hw
  | remainder => exact arithmetic _ arguments hw
  | less => exact comparison _ arguments hw
  | lessEqual => exact comparison _ arguments hw
  | greater => exact comparison _ arguments hw
  | greaterEqual => exact comparison _ arguments hw
  | max => exact extremum _ arguments hw
  | min => exact extremum _ arguments hw

/-! ## Calls -/

omit hev in
theorem landReturn {act : EvalM Value} {depth : Nat}
    (h : Discreet hidden (Value.Known hidden) s (act s)) :
    Discreet hidden (Value.Known hidden) s (Closure.landReturn depth act s) := by
  unfold Closure.landReturn
  generalize act s = r at h
  cases h with
  | ok after hgood => exact .ok after hgood
  | @error flow t after hflow =>
    cases flow with
    | signal σ =>
      cases σ with
      | returning v target =>
        dsimp only
        split
        · exact .ok after hflow
        · exact .error after hflow
      | _ => exact .error after hflow
    | _ => exact .error after hflow

omit hev in
theorem bindParameters {total bound : Nat} {xs : List SymbolId} {arguments : Value}
    (hs : s.Withholds hidden) (harguments : arguments.Known hidden s) :
    Discreet hidden (Value.Known hidden) s
      (Closure.bindParameters total bound xs arguments s) := by
  induction xs generalizing s bound arguments with
  | nil => exact .pure hs harguments
  | cons x rest ih =>
    unfold Closure.bindParameters
    split
    · exact .fail (reservedBinding s x) hs
    · cases arguments with
      | cons id =>
        have hbound := hs.bindIn s.currentScope x (hs.car harguments)
        exact .trans hbound (ih hbound.withholds (hbound.known (hs.cdr harguments)))
      | _ => exact .fail (.arity total bound none) hs

theorem runBody {c : Closure} {arguments : Value} {this : Option Value}
    (hs : s.Entrusts hidden context) (hc : c.body.Known hidden s)
    (harguments : arguments.Known hidden s)
    (hthis : ∀ v, this = some v → v.Known hidden s) :
    Discreet hidden (Value.Known hidden) s (Closure.runBody ev context c arguments this s) := by
  refine .read_bind <| (bindParameters hs.withholds harguments).bind fun left t ht hleft => ?_
  have hrest := ht.trans (ht.withholds.bindIn t.currentScope .rest hleft)
  have hself : ∀ u, Spared hidden s u → Discreet hidden (fun _ _ => True) u
      (EvalM.update (fun s => this.elim s (s.bind .self)) u) := by
    intro u hu
    cases this with
    | none => exact .pure hu.withholds trivial
    | some v =>
      exact .ok (hu.withholds.bindIn u.currentScope .self (hu.known (hthis v rfl))) trivial
  refine .trans (ht.withholds.bindIn t.currentScope .rest hleft) ?_
  refine (hself _ hrest).bind fun _ w hw _ => landReturn ?_
  have hall := hrest.trans hw
  exact body hev (hs.after hall) (hall.known hc)

theorem run {c : Closure} {arguments : Value} {this : Option Value} (hs : s.Entrusts hidden context)
    (hc : c.body.Known hidden s) (harguments : arguments.Known hidden s)
    (hthis : ∀ v, this = some v → v.Known hidden s) :
    Discreet hidden (Value.Known hidden) s (c.run ev context arguments this s) := by
  have hfresh := hs.withholds.allocScope
  refine .trans hfresh (inScope lasting_known hfresh.withholds (fun t₁ h₁ => ?_) _)
  refine inScope lasting_known h₁.withholds (fun t₂ h₂ => ?_) _
  refine inFrame lasting_known h₂.withholds (fun t₃ h₃ => ?_) _
  have hall := hfresh.trans (h₁.trans (h₂.trans h₃))
  exact runBody hev (hs.after hall) (hall.known hc) (hall.known harguments)
    fun v hv => hall.known (hthis v hv)

theorem hostRequest [lists : ListBuilding] [lists.Sparing] {request : HostRequest}
    (hs : s.Entrusts hidden context)
    (hrequest : request.Known hidden s) :
    Discreet hidden (Value.Known hidden) s (request.run ev context s) := by
  cases request with
  | evaluate item => exact form hev hs hrequest
  | evaluateAll forms => exact evaluated hev hs hrequest
  | runBody forms => exact body hev hs hrequest
  | apply f arguments => exact hev hidden context (.apply f arguments) s hs hrequest

omit hev in
theorem known_of_fits {id : FunctionId} {arguments : Value} {f : Callable}
    (hs : s.Withholds hidden) (h : Evaluator.fit s id arguments = .fits f) :
    ∀ c, f.closure? = some c → c.body.Known hidden s := by
  rw [← Pairing.callable_of_fits h]
  exact fun c hc => hs.closure hc

omit hev in
theorem namingForm {form : Value} {act : EvalM Value}
    (h : Discreet hidden (Value.Known hidden) s (act s)) :
    Discreet hidden (Value.Known hidden) s (Evaluator.namingForm form act s) := by
  unfold Evaluator.namingForm
  generalize act s = r at h
  cases h with
  | ok after hgood => exact .ok after hgood
  | @error flow t after hflow =>
    cases flow with
    | fault cause =>
      dsimp only
      split
      · exact .error after trivial
      · exact .error after hflow
    | _ => exact .error after hflow

variable [lists : ListBuilding] [lists.Sparing]

theorem hostProgram {program : HostProgram} (hprogram : program.Discreet hidden s)
    (hs : s.Withholds hidden) :
    Discreet hidden (Value.Known hidden) s (program.run ev s) := by
  induction hprogram with
  | @finish s ending hending =>
    cases ending with
    | ok v => exact .pure hs hending
    | error stop => cases stop <;> exact .error (.refl hs) hending
  | inspect _ ih => exact ih hs
  | construct hcar hcdr _ ih =>
    have hcell := hs.allocCell hcar hcdr
    exact .trans hcell (ih hcell.withholds)
  | @ask s context request next hcontext hrequest _ ih =>
    have hrun := hostRequest hev ⟨hs, hcontext⟩ hrequest
    unfold HostProgram.run
    generalize request.run ev context s = r at hrun
    -- however the request ended, its ending decides how the program goes on
    cases hrun with
    | @ok v t after hgood => exact .trans after (ih (.ok v) t after hgood after.withholds)
    | @error flow t after hflow =>
      cases flow with
      | fault cause => exact .trans after (ih _ t after trivial after.withholds)
      | signal signal =>
        exact .trans after (ih (.error (.signal signal)) t after hflow after.withholds)
      | aborted why => exact .error after hflow

variable {hosts : HostTable} {n : Nat} (hhosts : hosts.Discreet)

include hhosts

/-- A call of a function that was found in an earlier state. -/
theorem call {id : FunctionId} {arguments : Value} {f : Callable} (hs : s.Entrusts hidden context)
    (hf : ∀ c, f.closure? = some c → c.body.Known hidden s)
    (harguments : arguments.Known hidden s) :
    Discreet hidden (Value.Known hidden) s (f.call hosts ev n context id arguments s) := by
  cases f with
  | primitive op => exact primitive hev op hs harguments
  | host f =>
    exact hostProgram hev (hhosts hidden _ _ _ s hs.withholds harguments hs.context) hs.withholds
  | lambda c =>
    refine run hev hs (hf c rfl) harguments fun v hv => ?_
    rw [← Option.some.inj hv]
    exact nofun
  | expander c =>
    refine (run hev hs (hf c rfl) harguments fun v hv => ?_).bind ?_
    · cases hv
    · exact fun expansion t ht hexpansion => form hev (hs.after ht) hexpansion

theorem applyForm {cell : CellId} (hs : s.Entrusts hidden context)
    (hcell : (Value.cons cell).Known hidden s) :
    Discreet hidden (Value.Known hidden) s (Evaluator.applyForm hosts ev n context cell s) := by
  have hoperands := hs.withholds.cdr hcell
  refine .read_bind <| .read_bind ?_
  refine (form hev hs (hs.withholds.car hcell)).bind fun head t ht _ => ?_
  cases head with
  | function id =>
    refine .read_bind ?_
    cases hfit : Evaluator.fit t id (s.cdr cell) with
    | dotted => exact failing ht.withholds
    | short expected got => exact failing ht.withholds
    | fits f =>
      have hf := known_of_fits ht.withholds hfit
      have hcall : ∀ arguments u, Spared hidden t u → arguments.Known hidden u →
          Discreet hidden (Value.Known hidden) u (f.call hosts ev n context id arguments u) :=
        fun arguments u hu harguments =>
          call hev hhosts (hs.after (ht.trans hu)) (fun c hc => hu.known (hf c hc)) harguments
      dsimp only
      split
      · exact (evaluated hev (hs.after ht) (ht.known hoperands)).bind hcall
      · exact (Discreet.pure ht.withholds (ht.known hoperands)).bind hcall
  | _ => exact failing ht.withholds

theorem applyReady {id : FunctionId} {arguments : Value} (hs : s.Entrusts hidden context)
    (harguments : arguments.Known hidden s) :
    Discreet hidden (Value.Known hidden) s
      (Evaluator.applyReady hosts ev n context id arguments s) := by
  refine .read_bind ?_
  cases hfit : Evaluator.fit s id arguments with
  | dotted => exact failing hs.withholds
  | short expected got => exact .fail _ hs.withholds
  | fits f => exact call hev hhosts hs (known_of_fits hs.withholds hfit) harguments

theorem evaluateActive {item : Value} (hs : s.Entrusts hidden context)
    (hitem : item.Known hidden s) :
    Discreet hidden (Value.Known hidden) s
      (Evaluator.evaluateActive hosts ev n context item s) := by
  cases item with
  | symbol x =>
    unfold Evaluator.evaluateActive
    dsimp only
    cases hv : s.lookup? x with
    | some v => exact .ok (.refl hs.withholds) (hs.withholds.lookup? hv)
    | none => exact .error (.refl hs.withholds) trivial
  | cons cell => exact namingForm (applyForm hev hhosts hs hitem)
  | _ => exact .pure hs.withholds hitem

end Evaluator

end Discreet

section Perform

variable [lists : ListBuilding] [lists.Sparing] {hosts : HostTable} (hhosts : hosts.Discreet)

include hhosts

/-- With discreet host programs, whatever is asked of the evaluator is carried out discreetly, if
lists are kept to themselves until they are finished. -/
theorem Evaluator.perform_discreet (n : Nat) : Evaluators.Discreet (perform hosts n) := by
  induction n with
  | zero => exact fun hidden context request s hs _ => Discreet.spent hs.withholds
  | succ n ih =>
    intro hidden context request s hs hrequest
    cases request with
    | evaluate item =>
      refine Discreet.withinLimit lasting_known hs.withholds fun t ht => ?_
      exact Discreet.evaluateActive ih hhosts (hs.after ht) (ht.known hrequest)
    | apply id arguments => exact Discreet.applyReady ih hhosts hs hrequest

end Perform

end SmallLisp
