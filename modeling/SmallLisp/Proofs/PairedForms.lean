import SmallLisp.Proofs.Pairing

/-!
# Special forms and operations keep pairings

One lemma for each action of the standard library: from related states it leads to one answer in
related states, if the evaluator that it is handed does. `Pairing.Keeps` is that assumption.
-/

namespace SmallLisp

/-- What a request is about exists. -/
def Request.Live (s : Interp) : Request → Prop
  | .evaluate form => form.Live s
  | .apply f arguments => (Value.function f).Live s ∧ arguments.Live s

def ListBuilder.Live (s : Interp) (builder : ListBuilder) : Prop :=
  ∀ v ∈ builder.reversed, v.Live s

variable {hosted : Prop} {s t u w : Interp}

theorem ListBuilder.live_empty : ListBuilder.empty.Live s := fun _ h => nomatch h

theorem ListBuilder.Live.mono {builder : ListBuilder} (h : builder.Live s) (hext : Extends s u) :
    builder.Live u :=
  fun v hv => (h v hv).mono hext

theorem ListBuilder.Live.push {builder : ListBuilder} {v : Value} (h : builder.Live s)
    (hv : v.Live s) : (builder.push v).Live s := by
  intro item hitem
  rcases List.mem_cons.mp hitem with rfl | hitem
  · exact hv
  · exact h item hitem

theorem ListBuilder.Live.append {builder : ListBuilder} (h : builder.Live s)
    (hs : s.LiveUnder hosted) (v : Value) : (builder.append s v).Live s := by
  intro item hitem
  unfold ListBuilder.append at hitem
  rw [List.reverseAux_eq] at hitem
  rcases List.mem_append.mp hitem with hitem | hitem
  · exact hs.elementsOf v item (List.mem_reverse.mp hitem)
  · exact h item hitem

theorem Interp.LiveUnder.fixedSymbol (hs : s.LiveUnder hosted) {x : SymbolId}
    (hx : x.index < 8) : x.Live s :=
  Nat.lt_of_lt_of_le hx hs.fixed

theorem Interp.LiveUnder.operand? (hs : s.LiveUnder hosted) {tag : SymbolId} {v operand : Value}
    (h : Template.operand? s tag v = some operand) : operand.Live s := by
  unfold Template.operand? at h
  split at h
  · split at h
    · split at h
      · split at h
        · cases h
          exact hs.car _
        · cases h
      · cases h
    · cases h
  · cases h

theorem SymbolId.Bindable.mono {x : SymbolId} (h : x.Bindable s) (hext : Extends s u) :
    x.Bindable u := by
  refine ⟨Nat.lt_of_lt_of_le h.1 hext.symbols, ?_⟩
  rw [hext.symbol x h.1]
  exact h.2

/-- The symbols of a parameter list are elements of it, and none of them is reserved. -/
theorem Interp.LiveUnder.parameterList (hs : s.LiveUnder hosted) {operator : String}
    {arguments : Value} {xs : List SymbolId}
    (h : SpecialForm.parameterList operator s arguments = .ok xs) :
    ∀ x ∈ xs, x.Live s ∧ (s.symbol x).reserved = false := by
  unfold SpecialForm.parameterList at h
  dsimp only at h
  split at h
  · cases h
  next items hitems =>
    have hlive : ∀ v ∈ items, v.Live s := by
      unfold Interp.properElements? at hitems
      split at hitems
      · cases hitems
        exact hs.elementsOf _
      · cases hitems
    clear hitems
    induction items generalizing xs with
    | nil =>
      cases h
      exact nofun
    | cons v rest ih =>
      have hrest : ∀ v ∈ rest, v.Live s := fun v hv => hlive v (List.mem_cons_of_mem _ hv)
      cases v with
      | symbol x =>
        unfold SpecialForm.parameters at h
        split at h
        · cases h
        next hreserved =>
          obtain ⟨ys, hys, rfl⟩ := ok_of_map h
          intro y hy
          rcases List.mem_cons.mp hy with rfl | hy
          · exact ⟨hlive (.symbol y) List.mem_cons_self, Bool.eq_false_iff.mpr hreserved⟩
          · exact ih hys hrest y hy
      | _ => cases h

namespace Pairing

/-- Two evaluators lead related states to one answer in related states. -/
def Keeps (P : Pairing) (ev ev' : Evaluator) : Prop :=
  ∀ request s t, P.rel s t → (P.strict → request.Live s) →
    P.Led Value.Live s (ev request s) (ev' request t)

variable {P : Pairing}

namespace Led

/-! ## Lists -/

theorem cons {a b : Value} (hst : P.rel s t) (ha : P.strict → a.Live s) (hb : P.strict → b.Live s) :
    P.Led Value.Live s (EvalM.cons a b s) (EvalM.cons a b t) := by
  have hc : Change.Evaluates P.strict s (.cell a b) := ⟨nofun, fun h => ⟨ha h, hb h⟩⟩
  obtain ⟨o, -, rfl⟩ := P.apart hst
  refine .changed hst hc fun _ => ?_
  show s.cells.size < (s.cells.push _).size
  simp

theorem consReversed {items : List Value} {tail : Value} (hst : P.rel s t)
    (hitems : P.strict → ∀ v ∈ items, v.Live s) (htail : P.strict → tail.Live s) :
    P.Led Value.Live s (EvalM.step (fun s => s.consReversed items tail) s)
      (EvalM.step (fun s => s.consReversed items tail) t) := by
  induction items generalizing s t tail with
  | nil => exact .pure hst htail
  | cons v rest ih =>
    have hv : P.strict → v.Live s := fun h => hitems h v List.mem_cons_self
    have hrest : P.strict → ∀ v ∈ rest, v.Live s :=
      fun h v hv => hitems h v (List.mem_cons_of_mem _ hv)
    have hnext : ∀ head u w, P.After s u w → (P.strict → head.Live u) →
        P.Led Value.Live u (EvalM.step (fun s => s.consReversed rest head) u)
          (EvalM.step (fun s => s.consReversed rest head) w) :=
      fun head u w hu hhead => ih hu.rel (fun h v hv => (hrest h v hv).mono hu.extended) hhead
    exact (cons hst hv htail).bind hnext

theorem list {items : List Value} (hst : P.rel s t) (hitems : P.strict → ∀ v ∈ items, v.Live s) :
    P.Led Value.Live s (EvalM.list items s) (EvalM.list items t) :=
  consReversed hst (fun h v hv => hitems h v (List.mem_reverse.mp hv)) fun _ => trivial

theorem build {builder : ListBuilder} {tail : Value} (hst : P.rel s t)
    (hbuilder : P.strict → builder.Live s) (htail : P.strict → tail.Live s) :
    P.Led Value.Live s (EvalM.build builder tail s) (EvalM.build builder tail t) :=
  consReversed hst hbuilder htail

/-- An answer or a fault that the state decides without changing it. -/
theorem query {f : Interp → Except Fault Value} (hst : P.rel s t)
    (hf : ∀ o, f (s.under o) = f s) (hgood : P.strict → ∀ v, f s = .ok v → v.Live s) :
    P.Led Value.Live s (Operation.query f s) (Operation.query f t) := by
  obtain ⟨o, -, rfl⟩ := P.apart hst
  unfold Operation.query
  rw [hf o]
  cases hfs : f s with
  | ok v => exact .ok (.refl hst) fun h => hgood h v hfs
  | error fault => exact .error (.refl hst) fun _ => trivial

/-- A fault whose text is read off the state. -/
theorem failing {α : Type} {good : Interp → α → Prop} {f : Interp → String} {cause : String → Fault}
    (hst : P.rel s t) (hf : ∀ o, f (s.under o) = f s) :
    P.Led good s ((EvalM.read f >>= fun text => EvalM.fail (cause text)) s)
      ((EvalM.read f >>= fun text => EvalM.fail (cause text)) t) :=
  .read_bind hst hf (.fail _ hst)

/-! ## Lists of forms -/

section Visit

variable {α : Type} {good : Interp → α → Prop} {visit visit' : Value → α → EvalM (ForInStep α)}
  (hvisit : ∀ item a s t, P.rel s t → (P.strict → item.Live s) → (P.strict → good s a) →
    P.Led (fun u next => good u next.value) s (visit item a s) (visit' item a t))

include hvisit

theorem walk {n : Nat} {list : Value} {a : α} (hst : P.rel s t) (ha : P.strict → good s a) :
    P.Led good s (EvalM.walk visit n list a s) (EvalM.walk visit' n list a t) := by
  induction n generalizing s t list a with
  | zero => cases list <;> first | exact .aborted .spent hst | exact .pure hst ha
  | succ n ih =>
    cases list with
    | cons id =>
      refine .read_bind hst (by simp) (.read_bind hst (by simp) ?_)
      refine (hvisit _ a s t hst (fun h => (P.live hst h).car id) ha).bind ?_
      intro next u w hu hnext
      cases next with
      | yield a => exact ih hu.rel hnext
      | done a => exact .pure hu.rel hnext
    | _ => exact .pure hst ha

theorem forEach {list : Value} {a : α} (hst : P.rel s t) (ha : P.strict → good s a) :
    P.Led good s (EvalM.forEach list a visit s) (EvalM.forEach list a visit' t) :=
  .read_bind hst (by simp) (walk hvisit hst ha)

end Visit

section Evaluator

variable {ev ev' : Evaluators} {context context' : Value}
  (hev : P.Keeps (ev context) (ev' context'))

include hev

theorem form {form : Value} (hst : P.rel s t) (hform : P.strict → form.Live s) :
    P.Led Value.Live s ((ev context).form form s) ((ev' context').form form t) :=
  hev (.evaluate form) s t hst hform

theorem forEachForm {α : Type} {good : Interp → α → Prop} (next : Value → α → ForInStep α)
    {forms : Value} {a : α} (hst : P.rel s t) (ha : P.strict → good s a)
    (hnext : ∀ {u u' v a}, Extends u u' → good u a → v.Live u' → good u' (next v a).value) :
    P.Led good s
      (EvalM.forEach forms a (fun form a => do
        let v ← (ev context).form form
        Pure.pure (next v a)) s)
      (EvalM.forEach forms a (fun form a => do
        let v ← (ev' context').form form
        Pure.pure (next v a)) t) := by
  refine forEach (fun item a s t hst hitem ha => ?_) hst ha
  exact (form hev hst hitem).bind fun v u w hu hv =>
    .pure hu.rel fun h => hnext hu.extended (ha h) (hv h)

theorem body {forms : Value} (hst : P.rel s t) :
    P.Led Value.Live s (ev.body context forms s) (ev'.body context' forms t) :=
  forEachForm hev (fun v _ => .yield v) hst (fun _ => trivial) fun _ _ hv => hv

theorem evaluated {forms : Value} (hst : P.rel s t) :
    P.Led Value.Live s (ev.list context forms s) (ev'.list context' forms t) := by
  have hpush : ∀ {u u' : Interp} {v : Value} {builder : ListBuilder}, Extends u u' →
      builder.Live u → v.Live u' → (builder.push v).Live u' :=
    fun hext hbuilder hv => (hbuilder.mono hext).push hv
  refine (forEachForm hev (fun v builder => .yield (builder.push v)) hst
    (fun _ => ListBuilder.live_empty) hpush).bind ?_
  exact fun builder u w hu hbuilder => build hu.rel hbuilder fun _ => trivial

end Evaluator

/-! ## Templates -/

theorem misplacedSplice (form : Value) (hst : P.rel s t) :
    P.Led Value.Live s (Template.misplacedSplice form s) (Template.misplacedSplice form t) :=
  failing hst (by simp)

theorem retag {tag : SymbolId} {operand operand' : EvalM Value} (htag : tag.index < 8)
    (h : P.Led Value.Live s (operand s) (operand' t)) :
    P.Led Value.Live s (Template.retag tag operand s) (Template.retag tag operand' t) := by
  refine h.bind fun v u w hu hv => list hu.rel fun h item hitem => ?_
  rcases List.mem_cons.mp hitem with rfl | hitem
  · exact (P.live hu.rel h).fixedSymbol htag
  · rw [List.mem_singleton.mp hitem]
    exact hv h

theorem splice {builder : ListBuilder} {v : Value} (hst : P.rel s t)
    (hbuilder : P.strict → builder.Live s) :
    P.Led ListBuilder.Live s (Template.splice builder v s) (Template.splice builder v t) := by
  refine .read_bind hst (by simp) ?_
  split
  · exact .read hst (by simp [ListBuilder.append]) fun h => (hbuilder h).append (P.live hst h) v
  · exact failing hst (by simp)

section Template

variable {ev ev' : Evaluators} {context context' : Value}
  (hev : P.Keeps (ev context) (ev' context')) {expand expand' : Nat → Value → EvalM Value}
  (hexpand : ∀ level form s t, P.rel s t → (P.strict → form.Live s) →
    P.Led Value.Live s (expand level form s) (expand' level form t))

include hev hexpand

theorem templateElement {level : Nat} {builder : ListBuilder} {item : Value} (hst : P.rel s t)
    (hbuilder : P.strict → builder.Live s) (hitem : P.strict → item.Live s) :
    P.Led ListBuilder.Live s (Template.element ev context expand level builder item s)
      (Template.element ev' context' expand' level builder item t) := by
  refine .read_bind hst (by simp) ?_
  -- what an element contributes is pushed on the builder as it was
  have hpush : ∀ v u w, P.After s u w → (P.strict → v.Live u) →
      P.Led ListBuilder.Live u ((Pure.pure (builder.push v) : EvalM ListBuilder) u)
        ((Pure.pure (builder.push v) : EvalM ListBuilder) w) :=
    fun v u w hu hv => .pure hu.rel fun h => ((hbuilder h).mono hu.extended).push (hv h)
  cases hoperand : Template.operand? s .splice item with
  | none => exact (hexpand level item s t hst hitem).bind hpush
  | some operand =>
    have hlive : P.strict → operand.Live s := fun h => (P.live hst h).operand? hoperand
    dsimp only
    split
    · exact (form hev hst hlive).bind fun v u w hu hv =>
        splice hu.rel fun h => (hbuilder h).mono hu.extended
    · exact (retag (by decide) (hexpand _ operand s t hst hlive)).bind hpush

theorem templateElements {level n : Nat} {isTail : Bool} {builder : ListBuilder} {rest : Value}
    (hst : P.rel s t) (hbuilder : P.strict → builder.Live s) (hrest : P.strict → rest.Live s) :
    P.Led Value.Live s (Template.elements ev context expand level n isTail builder rest s)
      (Template.elements ev' context' expand' level n isTail builder rest t) := by
  induction n generalizing s t isTail builder rest with
  | zero => exact .aborted .spent hst
  | succ n ih =>
    refine .read_bind hst (by simp) ?_
    split
    · exact (hexpand level rest s t hst hrest).bind fun v u w hu hv =>
        build hu.rel (fun h => (hbuilder h).mono hu.extended) hv
    · cases rest with
      | cons id =>
        refine .read_bind hst (by simp) ?_
        have hitem : P.strict → (s.car id).Live s := fun h => (P.live hst h).car id
        refine (templateElement hev hexpand hst hbuilder hitem).bind fun builder u w hu hb => ?_
        exact .read_bind hu.rel (by simp) (ih hu.rel hb fun h => (P.live hu.rel h).cdr id)
      | _ => exact build hst hbuilder hrest

theorem templateStep {n level : Nat} {form : Value} (hst : P.rel s t)
    (hform : P.strict → form.Live s) :
    P.Led Value.Live s (Template.step ev context n expand level form s)
      (Template.step ev' context' n expand' level form t) := by
  unfold Template.step
  split
  next id =>
    -- a tagged form is read in one of three ways, and its operand is part of it
    have hoperand : ∀ {tag operand}, Template.operand? s tag (.cons id) = some operand →
        P.strict → operand.Live s := fun hop h => (P.live hst h).operand? hop
    refine .read_bind hst (by simp) ?_
    cases hunquote : Template.operand? s .unquote (.cons id) with
    | some operand =>
      dsimp only
      split
      · exact Led.form hev hst (hoperand hunquote)
      · exact retag (by decide) (hexpand _ _ s t hst (hoperand hunquote))
    | none =>
      refine .read_bind hst (by simp) ?_
      cases hsplice : Template.operand? s .splice (.cons id) with
      | some operand =>
        dsimp only
        split
        · exact misplacedSplice _ hst
        · exact retag (by decide) (hexpand _ _ s t hst (hoperand hsplice))
      | none =>
        refine .read_bind hst (by simp) ?_
        cases hnested : Template.operand? s .backquote (.cons id) with
        | some operand => exact retag (by decide) (hexpand _ _ s t hst (hoperand hnested))
        | none => exact templateElements hev hexpand hst (fun _ => ListBuilder.live_empty) hform
  next => exact .pure hst hform

end Template

section Evaluator

variable {ev ev' : Evaluators} {context context' : Value}
  (hev : P.Keeps (ev context) (ev' context'))

include hev

theorem expand {n level : Nat} {form : Value} (hst : P.rel s t) (hform : P.strict → form.Live s) :
    P.Led Value.Live s (Template.expand ev context n level form s)
      (Template.expand ev' context' n level form t) := by
  induction n generalizing s t level form with
  | zero => exact .aborted .spent hst
  | succ n ih =>
    have hexpand : ∀ level form s t, P.rel s t → (P.strict → form.Live s) →
        P.Led Value.Live s (Template.expand ev context n level form s)
          (Template.expand ev' context' n level form t) :=
      fun level form s t hst hform => ih hst hform
    exact templateStep hev hexpand hst hform

theorem fill {n : Nat} {form : Value} (hst : P.rel s t) (hform : P.strict → form.Live s) :
    P.Led Value.Live s (Template.fill ev context n form s)
      (Template.fill ev' context' n form t) := by
  refine .read_bind hst (by simp) ?_
  cases Template.operand? s .splice form with
  | some operand => exact misplacedSplice form hst
  | none => exact expand hev hst hform

/-! ## Special forms that evaluate -/

theorem backquote {n : Nat} {arguments : Value} (hst : P.rel s t) :
    P.Led Value.Live s (SpecialForm.backquote ev context n arguments s)
      (SpecialForm.backquote ev' context' n arguments t) :=
  .read_bind hst (by simp) (fill hev hst fun h => (P.live hst h).first arguments)

omit hev in
/-- A binding of a symbol that may be bound, in the current scope. -/
theorem binding {x : SymbolId} {v : Value} (hst : P.rel s t)
    (hx : P.strict → x.Bindable s) (hv : P.strict → v.Live s) :
    P.Led (fun _ _ => True) s (EvalM.update (fun s => s.bind x v) s)
      (EvalM.update (fun s => s.bind x v) t) := by
  have hc : Change.Evaluates P.strict s (.bind s.currentScope x v) :=
    ⟨nofun, fun h => ⟨hx h, hv h⟩⟩
  obtain ⟨o, -, rfl⟩ := P.apart hst
  exact .changed hst hc fun _ => trivial

theorem bindVariable {arguments : Value} (hst : P.rel s t) :
    P.Led Value.Live s (SpecialForm.bindVariable ev context arguments s)
      (SpecialForm.bindVariable ev' context' arguments t) := by
  refine .read_bind hst (by simp) ?_
  cases htarget : s.first arguments with
  | symbol x =>
    refine .read_bind hst (by simp) ?_
    split
    · exact .read_bind hst (by simp [reservedBinding]) (.fail _ hst)
    next hreserved =>
      have hx : P.strict → x.Bindable s := by
        intro h
        have hlive := (P.live hst h).first arguments
        rw [htarget] at hlive
        exact ⟨hlive, .inl (Bool.eq_false_iff.mpr hreserved)⟩
      have hbind : ∀ v u w, P.After s u w → (P.strict → v.Live u) →
          P.Led Value.Live u
            ((do EvalM.update fun s => s.bind x v; Pure.pure v : EvalM Value) u)
            ((do EvalM.update fun s => s.bind x v; Pure.pure v : EvalM Value) w) := by
        intro v u w hu hv
        refine (binding hu.rel (fun h => (hx h).mono hu.extended) hv).bind fun _ u' w' hu' _ => ?_
        exact .pure hu'.rel (hu'.liveValue hv)
      refine .read_bind hst (by simp) ?_
      cases hform : s.elementAt? arguments 1 with
      | none => exact (Led.pure hst fun _ => trivial).bind hbind
      | some form =>
        exact (Led.form hev hst fun h => (P.live hst h).elementAt? hform).bind hbind
  | _ => exact failing hst (by simp)

omit hev in
/-- A new scope may be entered. -/
theorem newScope {α : Type} {good : Interp → α → Prop} {next next' : ScopeId → EvalM α}
    (hst : P.rel s t)
    (hnext : ∀ id u w, P.opens id → P.After s u w → P.Led good u (next id u) (next' id w)) :
    P.Led good s ((EvalM.step (fun s => s.allocScope .empty) >>= next) s)
      ((EvalM.step (fun s => s.allocScope .empty) >>= next') t) := by
  have hc : Change.Evaluates P.strict s .scope := ⟨nofun, fun _ => trivial⟩
  have hafter : P.After s (Change.scope.apply s) (Change.scope.apply t) := .change hst hc
  have hled := hnext _ _ _ (P.opens_new hst) hafter
  obtain ⟨o, hsize, rfl⟩ := P.apart hst
  change P.Led good s (next ⟨s.scopes.size⟩ (Change.scope.apply s))
    (next' ⟨o.scopes.size⟩ (Change.scope.apply (s.under o)))
  rw [hsize]
  exact hled.trans hafter

theorem scope {forms : Value} (hst : P.rel s t) :
    P.Led Value.Live s (SpecialForm.scope ev context forms s)
      (SpecialForm.scope ev' context' forms t) :=
  newScope hst fun _ _ _ hid hu => .inScope hu.rel hid (fun hext hv => hv.mono hext)
    fun _ _ hst' _ => body hev hst'

theorem choose {arguments : Value} (hst : P.rel s t) :
    P.Led Value.Live s (SpecialForm.choose ev context arguments s)
      (SpecialForm.choose ev' context' arguments t) := by
  refine .read_bind hst (by simp) ?_
  refine (form hev hst fun h => (P.live hst h).first arguments).bind fun v u w hu hv => ?_
  split
  · exact .read_bind hu.rel (by simp) (form hev hu.rel fun h => (P.live hu.rel h).second arguments)
  · refine .read_bind hu.rel (by simp) ?_
    cases hform : u.third? arguments with
    | none => exact .pure hu.rel fun _ => trivial
    | some item => exact form hev hu.rel fun h => (P.live hu.rel h).elementAt? hform

theorem conjunction {arguments : Value} (hst : P.rel s t) :
    P.Led Value.Live s (SpecialForm.conjunction ev context arguments s)
      (SpecialForm.conjunction ev' context' arguments t) :=
  forEachForm hev (fun v _ => if v.isNil then .done v else .yield v) hst (fun _ => trivial)
    fun {_ _ v _} _ _ hv => by cases v.isNil <;> exact hv

theorem disjunction {arguments : Value} (hst : P.rel s t) :
    P.Led Value.Live s (SpecialForm.disjunction ev context arguments s)
      (SpecialForm.disjunction ev' context' arguments t) :=
  forEachForm hev (fun v _ => if v.isTrue then .done v else .yield .nil) hst (fun _ => trivial)
    fun {_ _ v _} _ _ hv => by
      cases v.isTrue with
      | true => exact hv
      | false => trivial

theorem passes {test forms last : Value} {n : Nat} (hst : P.rel s t)
    (htest : P.strict → test.Live s) (hlast : P.strict → last.Live s) :
    P.Led Value.Live s (SpecialForm.passes ev context test forms n last s)
      (SpecialForm.passes ev' context' test forms n last t) := by
  induction n generalizing s t last with
  | zero => exact .aborted .spent hst
  | succ n ih =>
    refine (form hev hst htest).bind fun v u w hu hv => ?_
    split
    · refine (body hev hu.rel).bind fun result u' w' hu' hresult => ?_
      exact ih hu'.rel ((hu.trans hu').liveValue htest) hresult
    · exact .pure hu.rel (hu.liveValue hlast)

omit hev in
theorem landBreak {act act' : EvalM Value} {depth : Nat}
    (h : P.Led Value.Live s (act s) (act' t)) :
    P.Led Value.Live s (SpecialForm.landBreak depth act s)
      (SpecialForm.landBreak depth act' t) := by
  unfold SpecialForm.landBreak
  generalize act s = r at h
  generalize act' t = r' at h
  cases h with
  | ok after hgood => exact .ok after hgood
  | @error flow u w after hflow =>
    cases flow with
    | signal σ =>
      cases σ with
      | breaking target =>
        dsimp only
        split
        · exact .ok after fun _ => trivial
        · exact .error after hflow
      | _ => exact .error after hflow
    | _ => exact .error after hflow
  | givenUp hgivenUp => exact .givenUp hgivenUp

theorem loop {n : Nat} {arguments : Value} (hst : P.rel s t) :
    P.Led Value.Live s (SpecialForm.loop ev context n arguments s)
      (SpecialForm.loop ev' context' n arguments t) := by
  refine .read_bind hst (by simp) (.read_bind hst (by simp) ?_)
  refine .inFrame hst (fun hext hv => hv.mono hext) fun s' t' hst' hext => ?_
  refine .read_bind hst' (fun _ => rfl) (landBreak ?_)
  exact passes hev hst' (fun h => ((P.live hst h).first arguments).mono hext) fun _ => trivial

/-- What a protected form ended with exists. -/
def ProtectedLive (s : Interp) : SpecialForm.Protected → Prop
  | .finished v => v.Live s
  | .caught _ => True

omit hev in
theorem landThrow {act act' : EvalM Value} {depth : Nat}
    (h : P.Led Value.Live s (act s) (act' t)) :
    P.Led ProtectedLive s (SpecialForm.landThrow depth act s)
      (SpecialForm.landThrow depth act' t) := by
  unfold SpecialForm.landThrow
  generalize act s = r at h
  generalize act' t = r' at h
  cases h with
  | ok after hgood => exact .ok after hgood
  | @error flow u w after hflow =>
    cases flow with
    | signal σ =>
      cases σ with
      | throwing text target =>
        dsimp only
        split
        · exact .ok after fun _ => trivial
        · exact .error after hflow
      | _ => exact .error after hflow
    | _ => exact .error after hflow
  | givenUp hgivenUp => exact .givenUp hgivenUp

theorem attempt {protectedForm handler : Value} (hst : P.rel s t)
    (hform : P.strict → protectedForm.Live s) (hhandler : P.strict → handler.Live s) :
    P.Led Value.Live s (SpecialForm.attempt ev context protectedForm handler s)
      (SpecialForm.attempt ev' context' protectedForm handler t) := by
  have hmono : ∀ {u u' : Interp} {p : SpecialForm.Protected}, Extends u u' →
      ProtectedLive u p → ProtectedLive u' p := by
    intro u u' p hext hp
    cases p with
    | finished v => exact Value.Live.mono hp hext
    | caught text => trivial
  let inner (ev : Evaluator) : EvalM SpecialForm.Protected := do
    let depth ← EvalM.read fun s => s.depths.get .guarded
    SpecialForm.landThrow depth (ev.form protectedForm)
  have hprotected : P.Led ProtectedLive s (EvalM.inFrame .guarded (inner (ev context)) s)
      (EvalM.inFrame .guarded (inner (ev' context')) t) := by
    refine .inFrame hst hmono fun s' t' hst' hext => .read_bind hst' (fun _ => rfl) (landThrow ?_)
    exact form hev hst' fun h => (hform h).mono hext
  refine hprotected.bind fun outcome u w hu houtcome => ?_
  cases outcome with
  | finished v => exact .pure hu.rel houtcome
  | caught text =>
    refine (form hev hu.rel (hu.liveValue hhandler)).bind fun f u' w' hu' hf => ?_
    have hcall : P.strict → ∀ v ∈ [f, .string text], v.Live u' := by
      intro h v hv
      rcases List.mem_cons.mp hv with rfl | hv
      · exact hf h
      · rw [List.mem_singleton.mp hv]
        trivial
    exact (list hu'.rel hcall).bind fun call u'' w'' hu'' hcall => form hev hu''.rel hcall

omit hev in
/-- The action that follows an ending leaves it as it is, or fails in its place. -/
theorem followedBy {act act' after after' : EvalM Value}
    (h : P.Led Value.Live s (act s) (act' t))
    (hafter : ∀ u w, P.After s u w → P.Led Value.Live u (after u) (after' w)) :
    P.Led Value.Live s (SpecialForm.followedBy act after s)
      (SpecialForm.followedBy act' after' t) := by
  have hthen : ∀ {keep : Interp → EStateM.Result Flow Interp Value} {u w}, P.After s u w →
      (∀ u' w', P.After u u' w' → P.Led Value.Live s (keep u') (keep w')) →
      P.Led Value.Live s (following keep (after u)) (following keep (after' w)) := by
    intro keep u w hu hkeep
    have hled := hafter u w hu
    generalize after u = r at hled
    generalize after' w = r' at hled
    cases hled with
    | ok hu' _ => exact hkeep _ _ hu'
    | error hu' hflow => exact .error (hu.trans hu') hflow
    | givenUp hgivenUp => exact .givenUp hgivenUp
  unfold SpecialForm.followedBy
  generalize act s = r at h
  generalize act' t = r' at h
  cases h with
  | ok hu hv =>
    exact hthen hu fun u' w' hu' => .ok (hu.trans hu') (hu'.liveValue hv)
  | @error flow u w hu hflow =>
    cases flow with
    | aborted why => exact .error hu hflow
    | fault cause => exact hthen hu fun u' w' hu' => .error (hu.trans hu') fun _ => trivial
    | signal σ =>
      refine hthen hu fun u' w' hu' => .error (hu.trans hu') ?_
      cases σ with
      | returning v depth => exact hu'.liveValue hflow
      | _ => exact fun _ => trivial
  | givenUp hgivenUp => exact .givenUp hgivenUp

theorem guarded {arguments : Value} (hst : P.rel s t) :
    P.Led Value.Live s (SpecialForm.guarded ev context arguments s)
      (SpecialForm.guarded ev' context' arguments t) := by
  refine .read_bind hst (by simp) (.read_bind hst (by simp) (.read_bind hst (by simp) ?_))
  have hattempt := attempt hev hst (fun h => (P.live hst h).first arguments)
    fun h => (P.live hst h).second arguments
  cases halways : s.third? arguments with
  | none => exact hattempt
  | some always =>
    refine followedBy hattempt fun u w hu => form hev hu.rel ?_
    exact hu.liveValue fun h => (P.live hst h).elementAt? halways

end Evaluator

end Led

end Pairing

end SmallLisp
