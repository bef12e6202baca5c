import SmallLisp.Proofs.MirroredForms

/-!
# The evaluator on both sides of a mirror

The operations, the calls of closures, and with them whole runs: the evaluator that links lists in
place does on the right what the evaluator that collects their elements does on the left. From the
initial state on, whole sessions give the same answers and leave the same states, but for the
addresses of cells.
-/

namespace SmallLisp

variable {m n : Mirror} {secret : CellId → Prop}

/-- Entries that exist, and their counterparts. -/
structure EntriesPlaced (m : Mirror) (es es' : List (Value × Value)) : Prop where
  left : EntriesKnown (fun _ => False) m.left es
  right : EntriesKnown (fun _ => False) m.right es'
  eq : es' = es.map (relocateEntry m.relocation)

/-- A function that the host has no program for, with its body, and its counterpart. -/
structure Callable.Placed (m : Mirror) (f f' : Callable) : Prop where
  left : ∀ c, f.closure? = some c → c.body.Known (fun _ => False) m.left
  right : ∀ c, f'.closure? = some c → c.body.Known (fun _ => False) m.right
  hostless : ∀ g, f ≠ .host g
  eq : f' = f.relocate m.relocation

namespace Mirror

theorem Leads.entries (h : m.Leads n) {es es' : List (Value × Value)}
    (hes : EntriesPlaced m es es') : EntriesPlaced n es es' where
  left e he := ⟨(hes.left e he).1.mono h.left, (hes.left e he).2.mono h.left⟩
  right e he := ⟨(hes.right e he).1.mono h.right, (hes.right e he).2.mono h.right⟩
  eq := by
    rw [hes.eq]
    refine List.map_congr_left fun e he => Prod.ext ?_ ?_
    · exact ((hes.left e he).1.relocate_eq h.kept).symm
    · exact ((hes.left e he).2.relocate_eq h.kept).symm

theorem Leads.callable (h : m.Leads n) {f f' : Callable} (hf : f.Placed m f') : f.Placed n f' where
  left c hc := (hf.left c hc).mono h.left
  right c hc := (hf.right c hc).mono h.right
  hostless := hf.hostless
  eq := by
    rw [hf.eq]
    cases f with
    | primitive op => rfl
    | host g => rfl
    | lambda c =>
      exact congrArg (fun v => Callable.lambda { c with body := v })
        ((hf.left c rfl).relocate_eq h.kept).symm
    | expander c =>
      exact congrArg (fun v => Callable.expander { c with body := v })
        ((hf.left c rfl).relocate_eq h.kept).symm

end Mirror

/-- What evaluates nothing. -/
abbrev Evaluators.idle : Evaluators := fun _ _ => throw .spent

theorem Evaluators.idle_discreet : idle.Discreet := fun _ _ _ _ hs _ => .spent hs.withholds

namespace Mirrored

open Mirror (lasting_placed)

/-! ## Operations that evaluate nothing -/

/-- An operation that is left without an evaluator does the same on both sides. -/
theorem idle {op : Primitive} {k : Nat} {arguments arguments' : Value} (hm : m.Faithful)
    (harguments : arguments.Placed m arguments') :
    Mirrored Value.Placed m (op.run Evaluators.idle .nil k arguments m.left)
      (op.run Evaluators.idle .nil k arguments' m.right) := by
  obtain ⟨hleft, hright, rfl⟩ := harguments
  have htracked : (Evaluators.idle .nil).Tracked m.relocation (Evaluators.idle .nil) :=
    ⟨fun _ => .exhausted, fun _ _ => .exhausted⟩
  have hkeeps : ∀ P : Pairing, P.Keeps (Evaluators.idle .nil) (Evaluators.idle .nil) :=
    fun P _ _ _ hst _ => .aborted .spent hst
  have hmodest : ∀ (s : Interp) v, s.Grounded → v.Known (fun _ => False) s →
      (op.run Evaluators.idle .nil k v).Modest (Value.Known fun _ => False) s := fun s v hs hv =>
    ⟨.primitive Evaluators.idle_discreet op ⟨hs, .nil⟩ hv,
      (Pairing.Led.primitive (hkeeps _) op s.itself_rel False.elim).steady⟩
  exact value hm (.primitive htracked op k arguments) (hmodest _ _ hm.left hleft)
    (hmodest _ _ hm.right hright)

section Evaluator

variable {ev ev' : Evaluators} (hev : ev.Mirrored ev')

include hev

/-! ## Mapping -/

theorem mapEntries {f : FunctionId} {done done' es es' : List (Value × Value)} (hm : m.Faithful)
    (hdone : EntriesPlaced m done done') (hes : EntriesPlaced m es es') :
    Mirrored EntriesPlaced m (Operation.mapEntries ev .nil f done es m.left)
      (Operation.mapEntries ev' .nil f done' es' m.right) := by
  induction es generalizing m done done' es' with
  | nil =>
    obtain rfl : es' = [] := hes.eq
    refine .pure hm ⟨fun e he => ?_, fun e he => ?_, ?_⟩
    · exact hdone.left e (List.mem_reverse.mp he)
    · exact hdone.right e (List.mem_reverse.mp he)
    · rw [hdone.eq, List.map_reverse]
  | cons e rest ih =>
    obtain ⟨hknown, hright, rfl⟩ := hes
    obtain ⟨⟨hitem, hkey⟩, hrest⟩ := List.forall_mem_cons.mp hknown
    obtain ⟨-, hrest'⟩ := List.forall_mem_cons.mp hright
    have hpair : ∀ v ∈ [e.1, e.2], v.Known (fun _ => False) m.left :=
      List.forall_mem_cons.mpr ⟨hitem, List.forall_mem_singleton.mpr hkey⟩
    refine (list hm hpair).bind fun n arguments arguments' hmn hn harguments => ?_
    refine (hev.apply n f arguments arguments' hn harguments).bind fun o v v' hno ho hv => ?_
    have hmo := hmn.trans hno
    have hkey := hmo.placed (hm.place hkey)
    have hdone := hmo.entries hdone
    refine ih ho ⟨?_, ?_, ?_⟩ (hmo.entries ⟨hrest, hrest', rfl⟩)
    · exact List.forall_mem_cons.mpr ⟨⟨hkey.left, hv.left⟩, hdone.left⟩
    · exact List.forall_mem_cons.mpr ⟨⟨hkey.right, hv.right⟩, hdone.right⟩
    · exact List.cons_eq_cons.mpr ⟨Prod.ext hkey.eq hv.eq, hdone.eq⟩

omit hev in
theorem collectLike {target target' : Value} {es es' : List (Value × Value)} (hm : m.Faithful)
    (htarget : target.Placed m target') (hes : EntriesPlaced m es es') :
    Mirrored Value.Placed m (Operation.collectLike target es m.left)
      (Operation.collectLike target' es' m.right) := by
  obtain ⟨-, -, rfl⟩ := htarget
  obtain ⟨hleft, hright, rfl⟩ := hes
  have hmodest : ∀ (s : Interp) v es, s.Grounded → EntriesKnown (fun _ => False) s es →
      (Operation.collectLike v es).Modest (Value.Known fun _ => False) s := fun s v es hs hes =>
    ⟨.collectLike v hs hes, (Pairing.Led.collectLike s.itself_rel False.elim).steady⟩
  exact value hm (.collectLike target es) (hmodest _ _ _ hm.left hleft)
    (hmodest _ _ _ hm.right hright)

theorem map {arguments arguments' : Value} (hm : m.Faithful)
    (harguments : arguments.Placed m arguments') :
    Mirrored Value.Placed m (Operation.map ev .nil arguments m.left)
      (Operation.map ev' .nil arguments' m.right) := by
  have htarget := hm.first harguments
  have hf := hm.second harguments
  refine .read_bind <| .read_bind ?_
  rw [htarget.eq, hm.relocated.entries]
  cases hentries : m.left.entries (m.left.first arguments) with
  | error cause => exact failing hm (hm.relocated.print _)
  | ok es =>
    refine .read_bind ?_
    generalize m.left.second arguments = g at hf
    generalize m.right.second arguments' = g' at hf
    obtain ⟨-, -, rfl⟩ := hf
    cases g with
    | function f =>
      have hright : m.right.entries (m.right.first arguments') =
          .ok (es.map (relocateEntry m.relocation)) := by
        rw [htarget.eq, hm.relocated.entries, hentries]
        rfl
      have hes : EntriesPlaced m es (es.map (relocateEntry m.relocation)) :=
        ⟨hm.left.entries htarget.left hentries, hm.right.entries htarget.right hright, rfl⟩
      have hnone : EntriesPlaced m [] [] :=
        ⟨fun _ he => absurd he List.not_mem_nil, fun _ he => absurd he List.not_mem_nil, rfl⟩
      refine (mapEntries hev hm hnone hes).bind fun n done done' hmn hn hdone => ?_
      exact collectLike hn (htarget.eq ▸ hmn.placed htarget) hdone
    | _ => exact .fail _ hm

/-! ## The standard library -/

theorem primitive (op : Primitive) {k : Nat} {arguments arguments' : Value} (hm : m.Faithful)
    (harguments : arguments.Placed m arguments') :
    Mirrored Value.Placed m (op.run ev .nil k arguments m.left)
      (@Primitive.run .linking ev' .nil k arguments' op m.right) := by
  have hplain : ∀ op : Primitive, Mirrored Value.Placed m
      (op.run Evaluators.idle .nil k arguments m.left)
      (op.run Evaluators.idle .nil k arguments' m.right) := fun _ => idle hm harguments
  cases op with
  | backquote => exact backquote hev hm harguments
  | bindVariable => exact bindVariable hev hm harguments
  | assign => exact assign hev hm harguments
  | scope => exact scope hev hm harguments
  | choose => exact choose hev hm harguments
  | sequence => exact body hev hm harguments
  | sequenceDo => exact body hev hm harguments
  | conjunction => exact conjunction hev hm harguments
  | disjunction => exact disjunction hev hm harguments
  | loop => exact loop hev hm harguments
  | guarded => exact guarded hev hm harguments
  | evaluate => exact .read_bind (form hev hm (hm.first harguments))
  | map => exact map hev hm harguments
  | quote => exact hplain .quote
  | unquote => exact hplain .unquote
  | splice => exact hplain .splice
  | makeLambda => exact hplain .makeLambda
  | makeMacro => exact hplain .makeMacro
  | gensym => exact hplain .gensym
  | breakLoop => exact hplain .breakLoop
  | returnValue => exact hplain .returnValue
  | throwText => exact hplain .throwText
  | defineNamespace => exact hplain .defineNamespace
  | inNamespace => exact hplain .inNamespace
  | useNamespace => exact hplain .useNamespace
  | list => exact hplain .list
  | car => exact hplain .car
  | cdr => exact hplain .cdr
  | cons => exact hplain .cons
  | not => exact hplain .not
  | eql => exact hplain .eql
  | equal => exact hplain .equal
  | typeOf => exact hplain .typeOf
  | element => exact hplain .element
  | array => exact hplain .array
  | makeArray => exact hplain .makeArray
  | dictionary => exact hplain .dictionary
  | hashTable => exact hplain .hashTable
  | length => exact hplain .length
  | add => exact hplain .add
  | subtract => exact hplain .subtract
  | multiply => exact hplain .multiply
  | divide => exact hplain .divide
  | remainder => exact hplain .remainder
  | less => exact hplain .less
  | lessEqual => exact hplain .lessEqual
  | greater => exact hplain .greater
  | greaterEqual => exact hplain .greaterEqual
  | max => exact hplain .max
  | min => exact hplain .min

/-! ## Calls -/

omit hev in
theorem landReturn {act act' : EvalM Value} {depth : Nat} {s t : Interp}
    (h : Mirrored Value.Placed m (act s) (act' t)) :
    Mirrored Value.Placed m (Closure.landReturn depth act s)
      (Closure.landReturn depth act' t) := by
  unfold Closure.landReturn
  generalize act s = res at h
  generalize act' t = res' at h
  cases h with
  | ok after faithful hgood => exact .ok after faithful hgood
  | @error n flow after faithful hflow =>
    cases flow with
    | signal σ =>
      cases σ with
      | returning v target =>
        dsimp only [Flow.relocate, Signal.relocate]
        split
        · exact .ok after faithful (faithful.place hflow)
        · exact .error after faithful hflow
      | _ => exact .error after faithful hflow
    | _ => exact .error after faithful hflow

omit hev in
theorem bindParameters {total : Nat} {xs : List SymbolId} {arguments arguments' : Value}
    (hm : m.Faithful) (harguments : arguments.Placed m arguments') :
    Mirrored Value.Placed m (Closure.bindParameters total 0 xs arguments m.left)
      (Closure.bindParameters total 0 xs arguments' m.right) := by
  obtain ⟨hleft, hright, rfl⟩ := harguments
  have hmodest : ∀ (s : Interp) v, s.Grounded → v.Known (fun _ => False) s →
      (Closure.bindParameters total 0 xs v).Modest (Value.Known fun _ => False) s :=
    fun s v hs hv => ⟨.bindParameters hs hv,
      (Pairing.Led.bindParameters s.itself_rel False.elim False.elim).steady⟩
  exact value hm (.bindParameters total 0 xs arguments) (hmodest _ _ hm.left hleft)
    (hmodest _ _ hm.right hright)

theorem runBody {c : Closure} {body' arguments arguments' : Value} (this : Option FunctionId)
    (hm : m.Faithful) (hbody : c.body.Placed m body') (harguments : arguments.Placed m arguments') :
    Mirrored Value.Placed m
      (Closure.runBody ev .nil c arguments (this.map .function) m.left)
      (Closure.runBody ev' .nil { c with body := body' } arguments' (this.map .function)
        m.right) := by
  refine .read_bind ?_
  rw [hm.relocated.depths]
  refine (bindParameters hm harguments).bind fun n left left' hmn hn hleft => ?_
  refine (bound .rest hn hleft).bind fun o _ _ hno ho _ => ?_
  have hself : Mirrored (fun _ _ _ => True) o
      (EvalM.update (fun s => (this.map Value.function).elim s (s.bind .self)) o.left)
      (EvalM.update (fun s => (this.map Value.function).elim s (s.bind .self)) o.right) := by
    cases this with
    | none => exact .pure ho trivial
    | some id => exact bound .self ho (ho.place nofun)
  refine hself.bind fun p _ _ hop hp _ => landReturn (body hev hp ?_)
  exact (hmn.trans (hno.trans hop)).placed hbody

theorem run {c : Closure} {body' arguments arguments' : Value} (this : Option FunctionId)
    (hm : m.Faithful) (hbody : c.body.Placed m body') (harguments : arguments.Placed m arguments') :
    Mirrored Value.Placed m (c.run ev .nil arguments (this.map .function) m.left)
      (Closure.run ev' .nil { c with body := body' } arguments' (this.map .function) m.right) := by
  refine (newScope hm).bind fun n fresh fresh' hmn hn hfresh => ?_
  rw [hfresh]
  refine inScope lasting_placed hn (fun o hno ho => ?_) _
  refine inScope lasting_placed ho (fun p hop hp => ?_) _
  refine inFrame lasting_placed hp (fun q hpq hq => ?_) _
  have hmq := hmn.trans (hno.trans (hop.trans hpq))
  exact runBody hev this hq (hmq.placed hbody) (hmq.placed harguments)

theorem call {hosts : HostTable} {k : Nat} {id : FunctionId} {arguments arguments' : Value}
    {f f' : Callable} (hm : m.Faithful) (hf : f.Placed m f')
    (harguments : arguments.Placed m arguments') :
    Mirrored Value.Placed m (f.call hosts ev k .nil id arguments m.left)
      (@Callable.call .linking hosts ev' k .nil id arguments' f' m.right) := by
  obtain ⟨hleft, hright, hhostless, rfl⟩ := hf
  cases f with
  | primitive op => exact primitive hev op hm harguments
  | host g => exact absurd rfl (hhostless g)
  | lambda c => exact run hev (some id) hm (hm.place (hleft c rfl)) harguments
  | expander c =>
    refine (run hev none hm (hm.place (hleft c rfl)) harguments).bind ?_
    exact fun n v v' _ hn hv => form hev hn hv

/-! ## The evaluator -/

omit hev in
theorem fitting {id : FunctionId} {arguments arguments' : Value} {f : Callable} (hm : m.Faithful)
    (harguments : arguments.Placed m arguments')
    (h : Evaluator.fit m.left id arguments = .fits f) :
    f.Placed m (f.relocate m.relocation) := by
  have hright : Evaluator.fit m.right id arguments' = .fits (f.relocate m.relocation) := by
    rw [harguments.eq, hm.relocated.fit, h]
    rfl
  exact ⟨Discreet.known_of_fits hm.left h, Discreet.known_of_fits hm.right hright,
    hm.relocated.not_host h, rfl⟩

theorem applyForm {hosts : HostTable} {k : Nat} {cell cell' : CellId} (hm : m.Faithful)
    (hcell : (Value.cons cell).Placed m (.cons cell')) :
    Mirrored Value.Placed m (Evaluator.applyForm hosts ev k .nil cell m.left)
      (@Evaluator.applyForm .linking hosts ev' k .nil cell' m.right) := by
  have hoperands := hm.cdr hcell
  refine .read_bind <| .read_bind ?_
  refine (form hev hm (hm.car hcell)).bind fun n head head' hmn hn hhead => ?_
  have hcell := hmn.placed hcell
  have hoperands := hmn.placed hoperands
  obtain ⟨-, -, rfl⟩ := id hhead
  cases head with
  | function id =>
    refine .read_bind ?_
    rw [hoperands.eq, hn.relocated.fit, ← hoperands.eq]
    cases hfit : Evaluator.fit n.left id (m.left.cdr cell) with
    | dotted => exact failing hn (hn.print hcell)
    | short expected got => exact failing hn (hn.print hcell)
    | fits f =>
      have hf := fitting hn hoperands hfit
      have hcall : ∀ o arguments arguments', n.Leads o → o.Faithful →
          Value.Placed o arguments arguments' → Mirrored Value.Placed o
            (f.call hosts ev k .nil id arguments o.left)
            (@Callable.call .linking hosts ev' k .nil id arguments' (f.relocate n.relocation)
              o.right) :=
        fun o _ _ hno ho harguments => call hev ho (hno.callable hf) harguments
      dsimp only [Evaluator.Fit.relocate]
      rw [Callable.evaluatesArguments_relocate]
      split
      · exact (evaluated hev hn hoperands).bind hcall
      · exact (Mirrored.pure hn hoperands).bind hcall
  | _ => exact failing hn (hn.print hhead)

theorem applyReady {hosts : HostTable} {k : Nat} {id : FunctionId} {arguments arguments' : Value}
    (hm : m.Faithful) (harguments : arguments.Placed m arguments') :
    Mirrored Value.Placed m (Evaluator.applyReady hosts ev k .nil id arguments m.left)
      (@Evaluator.applyReady .linking hosts ev' k .nil id arguments' m.right) := by
  refine .read_bind ?_
  rw [harguments.eq, hm.relocated.fit, ← harguments.eq]
  cases hfit : Evaluator.fit m.left id arguments with
  | dotted => exact failing hm (hm.print harguments)
  | short expected got => exact .fail _ hm
  | fits f => exact call hev hm (fitting hm harguments hfit) harguments

omit hev in
theorem namingForm {form form' : Value} {act act' : EvalM Value} (hform : form.Placed m form')
    (h : Mirrored Value.Placed m (act m.left) (act' m.right)) :
    Mirrored Value.Placed m (Evaluator.namingForm form act m.left)
      (Evaluator.namingForm form' act' m.right) := by
  unfold Evaluator.namingForm
  generalize act m.left = res at h
  generalize act' m.right = res' at h
  cases h with
  | ok after faithful hgood => exact .ok after faithful hgood
  | @error n flow after faithful hflow =>
    cases flow with
    | fault cause =>
      dsimp only [Flow.relocate]
      rw [faithful.print (after.placed hform)]
      split
      · exact .error after faithful trivial
      · exact .error after faithful hflow
    | _ => exact .error after faithful hflow

theorem evaluateActive {hosts : HostTable} {k : Nat} {item item' : Value} (hm : m.Faithful)
    (hitem : item.Placed m item') :
    Mirrored Value.Placed m (Evaluator.evaluateActive hosts ev k .nil item m.left)
      (@Evaluator.evaluateActive .linking hosts ev' k .nil item' m.right) := by
  obtain ⟨-, -, rfl⟩ := id hitem
  cases item with
  | symbol x =>
    unfold Evaluator.evaluateActive
    dsimp only [Value.relocate_symbol]
    rw [hm.relocated.lookup?, hm.relocated.printSymbol]
    cases hv : m.left.lookup? x with
    | some v => exact .pure hm (hm.place (hm.left.lookup? hv))
    | none => exact .fail _ hm
  | cons cell => exact namingForm hitem (applyForm hev hm hitem)
  | _ => exact .pure hm hitem

end Evaluator

end Mirrored

/-- With discreet host programs, whatever is asked of the evaluator that collects the elements of
lists is carried out alike by the one that links lists in place. -/
theorem Evaluator.perform_mirrored {hosts : HostTable} (hhosts : hosts.Discreet) (k : Nat) :
    Evaluators.Mirrored (perform hosts k) (@perform .linking hosts k) := by
  induction k with
  | zero =>
    refine ⟨fun _ _ _ hm _ => .spent hm, fun _ _ _ _ hm _ => .spent hm, ?_⟩
    exact @Evaluator.perform_discreet .linking .linking _ hhosts 0
  | succ k ih =>
    refine ⟨fun m form form' hm hform => ?_, fun m f arguments arguments' hm harguments => ?_, ?_⟩
    · refine Mirrored.withinLimit Mirror.lasting_placed hm fun n hmn hn => ?_
      exact Mirrored.evaluateActive ih hn (hmn.placed hform)
    · exact Mirrored.applyReady ih hm harguments
    · exact @Evaluator.perform_discreet .linking .linking _ hhosts (k + 1)

end SmallLisp
