import SmallLisp.Proofs.MirroredLists

/-!
# Forms on both sides of a mirror

With evaluators that mirror each other, and of which the one on the right is discreet, lists of
forms, templates and special forms do on the right, linking lists in place, what they do on the
left, collecting their elements. Nothing but `NIL` is passed as the context.
-/

namespace SmallLisp

variable {α α' : Type} {m n : Mirror} {secret : CellId → Prop}

/-- What is asked of the evaluators on both sides is carried out alike, and on the right it spares
what is hidden from it. -/
structure Evaluators.Mirrored (ev ev' : Evaluators) : Prop where
  form : ∀ (m : Mirror) (form form' : Value), m.Faithful → form.Placed m form' →
    SmallLisp.Mirrored Value.Placed m ((ev .nil).form form m.left) ((ev' .nil).form form' m.right)
  apply : ∀ (m : Mirror) (f : FunctionId) (arguments arguments' : Value), m.Faithful →
    arguments.Placed m arguments' →
    SmallLisp.Mirrored Value.Placed m (ev .nil (.apply f arguments) m.left)
      (ev' .nil (.apply f arguments') m.right)
  discreet : ev'.Discreet

/-- Both walks go on, or both are over, with counterparts. -/
def Mirror.StepsAlike (good : Mirror → α → α' → Prop) (m : Mirror) :
    ForInStep α → ForInStep α' → Prop
  | .yield a, .yield a' | .done a, .done a' => good m a a'
  | _, _ => False

/-- Protected forms ended with counterparts, or with the same text. -/
def SpecialForm.Protected.Placed (m : Mirror) :
    SpecialForm.Protected → SpecialForm.Protected → Prop
  | .finished v, .finished v' => Value.Placed m v v'
  | .caught text, .caught text' => text' = text
  | _, _ => False

namespace Mirrored

open Gathered (Begun Further)
open Mirror (StepsAlike lasting_placed)

variable {good : Mirror → α → α' → Prop}

/-! ## Lists -/

theorem list {items : List Value} (hm : m.Faithful)
    (hitems : ∀ v ∈ items, v.Known (fun _ => False) m.left) :
    Mirrored Value.Placed m (EvalM.list items m.left)
      (EvalM.list (items.map (Value.relocate m.relocation)) m.right) := by
  have hitems' : ∀ v ∈ items.map (Value.relocate m.relocation),
      v.Known (fun _ => False) m.right := by
    intro v hv
    obtain ⟨w, hw, rfl⟩ := List.mem_map.mp hv
    exact (hm.place (hitems w hw)).right
  have hmodest : ∀ (s : Interp) items, s.Grounded → (∀ v ∈ items, v.Known (fun _ => False) s) →
      (EvalM.list items).Modest (Value.Known fun _ => False) s := fun s items hs h =>
    ⟨.list hs h, (Pairing.Led.list s.itself_rel False.elim).steady⟩
  exact value hm (.list items) (hmodest _ _ hm.left hitems) (hmodest _ _ hm.right hitems')

/-- Visits that are made from `m` on. -/
theorem walk {visit : Value → α → EvalM (ForInStep α)} {visit' : Value → α' → EvalM (ForInStep α')}
    (hvisit : ∀ (n : Mirror) item item' a a', m.Leads n → n.Faithful → item.Placed n item' →
      good n a a' → Mirrored (fun o next next' => n.Leads o ∧ StepsAlike good o next next') m
        (visit item a n.left) (visit' item' a' n.right))
    (k : Nat) {list list' : Value} {a : α} {a' : α'} (hmn : m.Leads n) (hn : n.Faithful)
    (hlist : list.Placed n list') (ha : good n a a') :
    Mirrored good m (EvalM.walk visit k list a n.left) (EvalM.walk visit' k list' a' n.right) := by
  induction k generalizing n list list' a a' with
  | zero =>
    obtain ⟨hknown, hright, rfl⟩ := hlist
    cases list with
    | cons id => exact .trans hmn (.spent hn)
    | _ => exact .ok hmn hn ha
  | succ k ih =>
    obtain ⟨hknown, hright, rfl⟩ := hlist
    cases list with
    | cons id =>
      have hcell := hn.place hknown
      refine .read_bind <| .read_bind <| (hvisit n _ _ a a' hmn hn (hn.car hcell) ha).bind_from ?_
      rintro o next next' hmo ho ⟨hno, hnext⟩
      cases next with
      | yield a =>
        cases next' with
        | yield a' => exact ih hmo ho (hno.placed (hn.cdr hcell)) hnext
        | done a' => exact hnext.elim
      | done a =>
        cases next' with
        | yield a' => exact hnext.elim
        | done a' => exact .ok hmo ho hnext
    | _ => exact .ok hmn hn ha

section Evaluator

variable {ev ev' : Evaluators} (hev : ev.Mirrored ev')

include hev

theorem form {form form' : Value} (hm : m.Faithful) (hform : form.Placed m form') :
    Mirrored Value.Placed m ((ev .nil).form form m.left) ((ev' .nil).form form' m.right) :=
  hev.form m form form' hm hform

/-- Forms that are evaluated in a row, with a step after each of them that changes nothing. -/
theorem forEachForm (next : Value → Value → ForInStep Value) {forms forms' a a' : Value}
    (hm : m.Faithful) (hforms : forms.Placed m forms') (ha : a.Placed m a')
    (hnext : ∀ n v v' a a', Value.Placed n v v' →
      StepsAlike Value.Placed n (next v a) (next v' a')) :
    Mirrored Value.Placed m
      (EvalM.forEach forms a (fun form a => do
        let v ← (ev .nil).form form
        Pure.pure (next v a)) m.left)
      (EvalM.forEach forms' a' (fun form a => do
        let v ← (ev' .nil).form form
        Pure.pure (next v a)) m.right) := by
  refine .read_bind ?_
  rw [hm.lengthOf hforms]
  refine walk (fun n item item' a a' hmn hn hitem _ => since hmn ?_) _ (.refl m) hm hforms ha
  exact (form hev hn hitem).bind fun o v v' _ ho hv => .pure ho (hnext o v v' a a' hv)

theorem body {forms forms' : Value} (hm : m.Faithful) (hforms : forms.Placed m forms') :
    Mirrored Value.Placed m (ev.body .nil forms m.left) (ev'.body .nil forms' m.right) :=
  forEachForm hev (fun v _ => .yield v) hm hforms (hm.place .nil) fun _ _ _ _ _ hv => hv

/-- The value of a form becomes an element of a list. -/
theorem gathered {b : ListBuilder} {b' : LinkedBuilder} (h : Gathered m secret n b b')
    {item item' : Value} (hitem : item.Placed n item') :
    Mirrored (fun o next next' => n.Leads o ∧ StepsAlike (Begun m) o next next') m
      ((do
        let v ← (ev .nil).form item
        let b ← ListBuilding.collecting.push b v
        Pure.pure (.yield b) : EvalM (ForInStep ListBuilder)) n.left)
      ((do
        let v ← (ev' .nil).form item'
        let b' ← ListBuilding.linking.push b' v
        Pure.pure (.yield b') : EvalM (ForInStep LinkedBuilder)) n.right) := by
  have hright := hev.discreet secret .nil (.evaluate item') n.right h.entrusts
    (h.known_right hitem)
  refine h.bind (form hev h.faithful hitem) hright fun o v v' hno ho hv => ?_
  refine (ho.pushed hv).bind_from fun p b b' hmp hp hb => ?_
  exact .ok hmp hp ⟨hno.trans hb.1, hb.2⟩

theorem collected {forms forms' : Value} (hm : m.Faithful) (hforms : forms.Placed m forms') :
    Mirrored (Begun m) m
      (EvalM.forEach forms ListBuilder.empty (fun form b => do
        let v ← (ev .nil).form form
        let b ← ListBuilding.collecting.push b v
        Pure.pure (.yield b)) m.left)
      (EvalM.forEach forms' LinkedBuilder.empty (fun form b => do
        let v ← (ev' .nil).form form
        let b ← ListBuilding.linking.push b v
        Pure.pure (.yield b)) m.right) := by
  refine .read_bind ?_
  rw [hm.lengthOf hforms]
  have hstart : Begun m m .empty .empty := ⟨_, Gathered.start hm⟩
  refine walk (fun n item item' b b' _ _ hitem hb => ?_) _ (.refl m) hm hforms hstart
  obtain ⟨secret, hb⟩ := hb
  exact gathered hev hb hitem

/-- The values of forms become the elements of a list. -/
theorem evaluated {forms forms' : Value} (hm : m.Faithful) (hforms : forms.Placed m forms') :
    Mirrored Value.Placed m (ev.list .nil forms m.left)
      (@Evaluators.list .linking ev' .nil forms' m.right) := by
  refine bind_from (collected hev hm hforms) ?_
  rintro n b b' - hn ⟨secret, hb⟩
  exact hb.finish (hn.place .nil)

end Evaluator

/-! ## Templates -/

theorem misplacedSplice {form form' : Value} (hm : m.Faithful) (hform : form.Placed m form') :
    Mirrored Value.Placed m (Template.misplacedSplice form m.left)
      (Template.misplacedSplice form' m.right) :=
  failing hm (hm.print hform)

theorem retag (tag : SymbolId) {operand operand' : EvalM Value}
    (h : Mirrored Value.Placed m (operand m.left) (operand' m.right)) :
    Mirrored Value.Placed m (Template.retag tag operand m.left)
      (Template.retag tag operand' m.right) := by
  refine h.bind fun n v v' _ hn hv => ?_
  obtain ⟨hknown, -, rfl⟩ := hv
  exact list hn (List.forall_mem_cons.mpr ⟨nofun, List.forall_mem_singleton.mpr hknown⟩)

section Template

variable {ev ev' : Evaluators} (hev : ev.Mirrored ev') {expand expand' : Nat → Value → EvalM Value}
  (hexpand : ∀ (m : Mirror) level form form', m.Faithful → form.Placed m form' →
    Mirrored Value.Placed m (expand level form m.left) (expand' level form' m.right))
  (hdiscreet : ∀ hidden level form s, s.Entrusts hidden .nil → form.Known hidden s →
    Discreet hidden (Value.Known hidden) s (expand' level form s))
  {b : ListBuilder} {b' : LinkedBuilder}

theorem splice (h : Gathered m secret n b b') {v v' : Value} (hv : v.Placed n v') :
    Mirrored (Further m n) m (Template.splice b v n.left)
      (@Template.splice .linking b' v' n.right) := by
  refine .read_bind ?_
  rw [h.faithful.isProper hv]
  cases hproper : n.left.isProper v with
  | true => exact h.append hv hproper
  | false => exact .trans h.leads (failing h.faithful (h.faithful.print hv))

include hev hexpand hdiscreet

theorem templateElement {level : Nat} {item item' : Value} (h : Gathered m secret n b b')
    (hitem : item.Placed n item') :
    Mirrored (Further m n) m (Template.element ev .nil expand level b item n.left)
      (@Template.element .linking ev' .nil expand' level b' item' n.right) := by
  have hpush : ∀ o v v', n.Leads o → Gathered m secret o b b' → Value.Placed o v v' →
      Mirrored (Further m n) m (ListBuilding.collecting.push b v o.left)
        (ListBuilding.linking.push b' v' o.right) := fun o v v' hno ho hv =>
    (ho.pushed hv).mono fun _ _ _ hdone => ⟨hno.trans hdone.1, hdone.2⟩
  refine .read_bind ?_
  rcases h.faithful.operand? hitem .splice with ⟨hx, hx'⟩ | ⟨operand, operand', hx, hx', hoperand⟩
  · rw [hx, hx']
    exact h.bind (hexpand n level item item' h.faithful hitem)
      (hdiscreet _ _ _ _ h.entrusts (h.known_right hitem)) hpush
  · rw [hx, hx']
    have hknown := h.known_right hoperand
    dsimp only
    split
    · have hright := hev.discreet secret .nil (.evaluate operand') n.right h.entrusts hknown
      refine h.bind (form hev h.faithful hoperand) hright fun o v v' hno ho hv => ?_
      exact (splice ho hv).mono fun _ _ _ hdone => ⟨hno.trans hdone.1, hdone.2⟩
    · exact h.bind (retag .splice (hexpand n _ operand operand' h.faithful hoperand))
        (.retag .splice (hdiscreet _ _ _ _ h.entrusts hknown)) hpush

theorem templateElements {level k : Nat} {isTail : Bool} {rest rest' : Value}
    (h : Gathered m secret n b b') (hrest : rest.Placed n rest') :
    Mirrored Value.Placed m
      (Template.elements ev .nil expand level k isTail b rest n.left)
      (@Template.elements .linking ev' .nil expand' level k isTail b' rest' n.right) := by
  induction k generalizing n secret isTail b b' rest rest' with
  | zero => exact .trans h.leads (.spent h.faithful)
  | succ k ih =>
    refine .read_bind ?_
    have hunquoted := h.faithful.operand? hrest .unquote
    have hsome : (Template.operand? n.right .unquote rest').isSome =
        (Template.operand? n.left .unquote rest).isSome := by
      rw [hrest.eq, h.faithful.relocated.operand?, Option.isSome_map]
    rw [hsome]
    split
    · exact h.bind (hexpand n level rest rest' h.faithful hrest)
        (hdiscreet _ _ _ _ h.entrusts (h.known_right hrest)) fun o v v' _ ho hv => ho.finish hv
    · cases rest with
      | cons id =>
        obtain ⟨hknown, hright, rfl⟩ := hrest
        have hcell := h.faithful.place hknown
        have hitem := h.faithful.car hcell
        refine .read_bind <| (templateElement hev hexpand hdiscreet h hitem).bind_from ?_
        rintro o b b' - ho ⟨hno, secret', hb⟩
        exact .read_bind (ih hb (ho.cdr (hno.placed hcell)))
      | _ =>
        obtain ⟨hknown, hright, rfl⟩ := hrest
        exact h.finish (h.faithful.place hknown)

theorem templateStep {k level : Nat} {form form' : Value} (hm : m.Faithful)
    (hform : form.Placed m form') :
    Mirrored Value.Placed m (Template.step ev .nil k expand level form m.left)
      (@Template.step .linking ev' .nil k expand' level form' m.right) := by
  obtain ⟨hknown, hright, rfl⟩ := hform
  cases form with
  | cons id =>
    have hform := hm.place hknown
    refine .read_bind ?_
    rcases hm.operand? hform .unquote with ⟨hx, hx'⟩ | ⟨operand, operand', hx, hx', hoperand⟩
    · rw [hx, hx']
      refine .read_bind ?_
      rcases hm.operand? hform .splice with ⟨hx, hx'⟩ | ⟨operand, operand', hx, hx', hoperand⟩
      · rw [hx, hx']
        refine .read_bind ?_
        rcases hm.operand? hform .backquote with ⟨hx, hx'⟩ | ⟨operand, operand', hx, hx', hoperand⟩
        · rw [hx, hx']
          exact templateElements hev hexpand hdiscreet (Gathered.start hm) hform
        · rw [hx, hx']
          exact retag _ (hexpand m _ _ _ hm hoperand)
      · rw [hx, hx']
        dsimp only
        split
        · exact misplacedSplice hm hform
        · exact retag _ (hexpand m _ _ _ hm hoperand)
    · rw [hx, hx']
      dsimp only
      split
      · exact Mirrored.form hev hm hoperand
      · exact retag _ (hexpand m _ _ _ hm hoperand)
  | _ => exact .pure hm (hm.place hknown)

end Template

section Evaluator

variable {ev ev' : Evaluators} (hev : ev.Mirrored ev')

include hev

theorem expand {k level : Nat} {form form' : Value} (hm : m.Faithful)
    (hform : form.Placed m form') :
    Mirrored Value.Placed m (Template.expand ev .nil k level form m.left)
      (@Template.expand .linking ev' .nil k level form' m.right) := by
  induction k generalizing m level form form' with
  | zero => exact .spent hm
  | succ k ih =>
    have hexpand : ∀ (m : Mirror) level form form', m.Faithful → form.Placed m form' →
        Mirrored Value.Placed m (Template.expand ev .nil k level form m.left)
          (@Template.expand .linking ev' .nil k level form' m.right) :=
      fun m level form form' hm hform => ih hm hform
    refine templateStep hev hexpand (fun hidden level form s hs hform => ?_) hm hform
    exact @Discreet.expand _ _ _ _ hev.discreet .linking .linking _ _ _ hs hform

theorem backquote {k : Nat} {arguments arguments' : Value} (hm : m.Faithful)
    (harguments : arguments.Placed m arguments') :
    Mirrored Value.Placed m (SpecialForm.backquote ev .nil k arguments m.left)
      (@SpecialForm.backquote .linking ev' .nil k arguments' m.right) := by
  have hform := hm.first harguments
  refine .read_bind (.read_bind ?_)
  rcases hm.operand? hform .splice with ⟨hx, hx'⟩ | ⟨operand, operand', hx, hx', -⟩
  · rw [hx, hx']
    exact expand hev hm hform
  · rw [hx, hx']
    exact misplacedSplice hm hform

/-! ## Bindings and assignment -/

omit hev in
theorem newScope (hm : m.Faithful) :
    Mirrored (fun _ id id' => id' = id) m ((EvalM.step fun s => s.allocScope .empty) m.left)
      ((EvalM.step fun s => s.allocScope .empty) m.right) := by
  have hmodest : ∀ s : Interp, s.Grounded →
      (EvalM.step fun s => s.allocScope .empty).Modest (fun _ _ => True) s :=
    fun s hs => ⟨.ok hs.allocScope trivial, Change.steady s .scope⟩
  have hopened := of_tracks hm .newScope (hmodest _ hm.left) (hmodest _ hm.right)
  exact hopened.mono fun _ _ _ h => h.2.2.2

omit hev in
theorem bound (x : SymbolId) {v v' : Value} (hm : m.Faithful) (hv : v.Placed m v') :
    Mirrored (fun _ _ _ => True) m (EvalM.update (fun s => s.bind x v) m.left)
      (EvalM.update (fun s => s.bind x v') m.right) := by
  obtain ⟨hleft, hright, rfl⟩ := hv
  have hmodest : ∀ (s : Interp) v, s.Grounded → v.Known (fun _ => False) s →
      (EvalM.update fun s => s.bind x v).Modest (fun _ _ => True) s := fun s v hs hv =>
    ⟨.ok (hs.bindIn s.currentScope x hv) trivial, Change.steady s (.bind s.currentScope x v)⟩
  have hbound := of_tracks hm (.bindSymbol x v) (hmodest _ _ hm.left hleft)
    (hmodest _ _ hm.right hright)
  exact hbound.mono fun _ _ _ _ => trivial

theorem bindVariable {arguments arguments' : Value} (hm : m.Faithful)
    (harguments : arguments.Placed m arguments') :
    Mirrored Value.Placed m (SpecialForm.bindVariable ev .nil arguments m.left)
      (SpecialForm.bindVariable ev' .nil arguments' m.right) := by
  have htarget := hm.first harguments
  refine .read_bind ?_
  generalize m.left.first arguments = target at htarget
  generalize m.right.first arguments' = target' at htarget
  obtain ⟨-, -, rfl⟩ := id htarget
  cases target with
  | symbol x =>
    refine .read_bind ?_
    rw [hm.relocated.symbol]
    split
    · refine .read_bind ?_
      rw [hm.relocated.reservedBinding]
      exact .fail _ hm
    · have hbind : ∀ n v v', m.Leads n → n.Faithful → Value.Placed n v v' →
          Mirrored Value.Placed n
            ((do EvalM.update fun s => s.bind x v; Pure.pure v : EvalM Value) n.left)
            ((do EvalM.update fun s => s.bind x v'; Pure.pure v' : EvalM Value) n.right) :=
        fun n v v' _ hn hv => (bound x hn hv).bind fun _ _ _ hno ho _ => .pure ho (hno.placed hv)
      refine .read_bind ?_
      rcases hm.elementAt? harguments 1 with ⟨hx, hx'⟩ | ⟨item, item', hx, hx', hitem⟩
      · rw [hx, hx']
        exact (Mirrored.pure hm (hm.place .nil)).bind hbind
      · rw [hx, hx']
        exact (form hev hm hitem).bind hbind
  | _ => exact failing hm (hm.print htarget)

omit hev in
theorem assignSymbol (x : SymbolId) {v v' : Value} (hm : m.Faithful) (hv : v.Placed m v') :
    Mirrored (fun _ _ _ => True) m (SpecialForm.assignSymbol x v m.left)
      (SpecialForm.assignSymbol x v' m.right) := by
  obtain ⟨hleft, hright, rfl⟩ := hv
  have hmodest : ∀ (s : Interp) v, s.Grounded → v.Known (fun _ => False) s →
      (SpecialForm.assignSymbol x v).Modest (fun _ _ => True) s := fun s v hs hv =>
    ⟨.assignSymbol x hs hv,
      (Pairing.Led.assignSymbol s.itself_rel False.elim False.elim).steady⟩
  have hassigned := of_tracks hm (.assignSymbol x v) (hmodest _ _ hm.left hleft)
    (hmodest _ _ hm.right hright)
  exact hassigned.mono fun _ _ _ _ => trivial

omit hev in
theorem assignElement {arguments arguments' v v' : Value} (hm : m.Faithful)
    (harguments : arguments.Placed m arguments') (hv : v.Placed m v') :
    Mirrored Value.Placed m (SpecialForm.assignElement arguments v m.left)
      (SpecialForm.assignElement arguments' v' m.right) := by
  obtain ⟨harguments, harguments', rfl⟩ := harguments
  obtain ⟨hv, hv', rfl⟩ := hv
  exact value hm (.assignElement arguments v)
    ⟨.assignElement hm.left harguments hv,
      (Pairing.Led.assignElement m.left.itself_rel False.elim).steady⟩
    ⟨.assignElement hm.right harguments' hv',
      (Pairing.Led.assignElement m.right.itself_rel False.elim).steady⟩

omit hev in
theorem notAssignable {got got' : Value} (hm : m.Faithful) (hgot : got.Placed m got') :
    Mirrored Value.Placed m (SpecialForm.notAssignable got m.left)
      (SpecialForm.notAssignable got' m.right) :=
  failing hm (hm.print hgot)

theorem assignThrough {place place' item item' : Value} (hm : m.Faithful)
    (hplace : place.Placed m place') (hitem : item.Placed m item') :
    Mirrored Value.Placed m (SpecialForm.assignThrough ev .nil place item m.left)
      (@SpecialForm.assignThrough .linking ev' .nil place' item' m.right) := by
  have hhead := hm.first hplace
  refine .read_bind <| (form hev hm hhead).bind fun n operator operator' hmn hn hoperator => ?_
  obtain ⟨-, -, rfl⟩ := id hoperator
  have hhead := hmn.placed hhead
  have hplace := hmn.placed hplace
  cases operator with
  | function id =>
    refine .read_bind ?_
    rw [hn.relocated.callable, Callable.assignPlace?_relocate]
    cases hstore : SpecialForm.assignPlace? (n.left.callable id) with
    | none => exact notAssignable hn hoperator
    | some store =>
      have hoperands := hn.rest hplace
      refine .read_bind <| .read_bind ?_
      rw [hn.isProper hoperands]
      split
      · exact failing hn (hn.print hplace)
      · refine .read_bind ?_
        rw [hn.lengthOf hoperands, Callable.minArgs_relocate]
        split
        · exact failing hn (hn.print hhead)
        · refine (evaluated hev hn hoperands).bind fun o arguments arguments' hno ho h => ?_
          refine (form hev ho ((hmn.trans hno).placed hitem)).bind fun p v v' hop hp hv => ?_
          rw [SpecialForm.eq_assignElement hstore]
          exact assignElement hp (hop.placed h) hv
  | _ => exact notAssignable hn hoperator

theorem assign {arguments arguments' : Value} (hm : m.Faithful)
    (harguments : arguments.Placed m arguments') :
    Mirrored Value.Placed m (SpecialForm.assign ev .nil arguments m.left)
      (@SpecialForm.assign .linking ev' .nil arguments' m.right) := by
  have hplace := hm.first harguments
  have hitem := hm.second harguments
  refine .read_bind <| .read_bind ?_
  generalize m.left.first arguments = place at hplace
  generalize m.right.first arguments' = place' at hplace
  obtain ⟨-, -, rfl⟩ := id hplace
  cases place with
  | symbol x =>
    refine .read_bind ?_
    rw [hm.relocated.symbol]
    split
    · exact failing hm (hm.relocated.printSymbol x)
    · refine (form hev hm hitem).bind fun n v v' _ hn hv => ?_
      exact (assignSymbol x hn hv).bind fun o _ _ hno ho _ => .pure ho (hno.placed hv)
  | cons id => exact assignThrough hev hm hplace hitem
  | _ => exact notAssignable hm hplace

/-! ## Control -/

theorem scope {forms forms' : Value} (hm : m.Faithful) (hforms : forms.Placed m forms') :
    Mirrored Value.Placed m (SpecialForm.scope ev .nil forms m.left)
      (SpecialForm.scope ev' .nil forms' m.right) := by
  refine (newScope hm).bind fun n fresh fresh' hmn hn hfresh => ?_
  rw [hfresh]
  exact inScope lasting_placed hn (fun o hno ho => body hev ho ((hmn.trans hno).placed hforms)) _

theorem choose {arguments arguments' : Value} (hm : m.Faithful)
    (harguments : arguments.Placed m arguments') :
    Mirrored Value.Placed m (SpecialForm.choose ev .nil arguments m.left)
      (SpecialForm.choose ev' .nil arguments' m.right) := by
  refine .read_bind <| (form hev hm (hm.first harguments)).bind fun n v v' hmn hn hv => ?_
  have harguments := hmn.placed harguments
  rw [hv.eq, Value.isTrue_relocate]
  split
  · exact .read_bind (form hev hn (hn.second harguments))
  · refine .read_bind ?_
    rcases hn.third? harguments with ⟨hx, hx'⟩ | ⟨item, item', hx, hx', hitem⟩
    · rw [hx, hx']
      exact .pure hn (hn.place .nil)
    · rw [hx, hx']
      exact form hev hn hitem

theorem conjunction {arguments arguments' : Value} (hm : m.Faithful)
    (harguments : arguments.Placed m arguments') :
    Mirrored Value.Placed m (SpecialForm.conjunction ev .nil arguments m.left)
      (SpecialForm.conjunction ev' .nil arguments' m.right) := by
  refine forEachForm hev (fun v _ => if v.isNil then .done v else .yield v) hm harguments
    (hm.place nofun) fun n v v' _ _ hv => ?_
  rw [hv.eq, Value.isNil_relocate]
  split <;> exact hv.eq ▸ hv

theorem disjunction {arguments arguments' : Value} (hm : m.Faithful)
    (harguments : arguments.Placed m arguments') :
    Mirrored Value.Placed m (SpecialForm.disjunction ev .nil arguments m.left)
      (SpecialForm.disjunction ev' .nil arguments' m.right) := by
  refine forEachForm hev (fun v _ => if v.isTrue then .done v else .yield .nil) hm harguments
    (hm.place .nil) fun n v v' _ _ hv => ?_
  rw [hv.eq, Value.isTrue_relocate]
  split
  · exact hv.eq ▸ hv
  · exact ⟨.nil, .nil, rfl⟩

theorem passes {test test' forms forms' last last' : Value} {k : Nat} (hm : m.Faithful)
    (htest : test.Placed m test') (hforms : forms.Placed m forms') (hlast : last.Placed m last') :
    Mirrored Value.Placed m (SpecialForm.passes ev .nil test forms k last m.left)
      (SpecialForm.passes ev' .nil test' forms' k last' m.right) := by
  induction k generalizing m last last' with
  | zero => exact .spent hm
  | succ k ih =>
    refine (form hev hm htest).bind fun n v v' hmn hn hv => ?_
    rw [hv.eq, Value.isTrue_relocate]
    split
    · refine (body hev hn (hmn.placed hforms)).bind fun o result result' hno ho hresult => ?_
      have hmo := hmn.trans hno
      exact ih ho (hmo.placed htest) (hmo.placed hforms) hresult
    · exact .pure hn (hmn.placed hlast)

omit hev in
theorem landBreak {act act' : EvalM Value} {depth : Nat} {s t : Interp}
    (h : Mirrored Value.Placed m (act s) (act' t)) :
    Mirrored Value.Placed m (SpecialForm.landBreak depth act s)
      (SpecialForm.landBreak depth act' t) := by
  unfold SpecialForm.landBreak
  generalize act s = res at h
  generalize act' t = res' at h
  cases h with
  | ok after faithful hgood => exact .ok after faithful hgood
  | @error n flow after faithful hflow =>
    cases flow with
    | signal σ =>
      cases σ with
      | breaking target =>
        dsimp only [Flow.relocate, Signal.relocate]
        split
        · exact .ok after faithful (faithful.place .nil)
        · exact .error after faithful hflow
      | _ => exact .error after faithful hflow
    | _ => exact .error after faithful hflow

theorem loop {k : Nat} {arguments arguments' : Value} (hm : m.Faithful)
    (harguments : arguments.Placed m arguments') :
    Mirrored Value.Placed m (SpecialForm.loop ev .nil k arguments m.left)
      (SpecialForm.loop ev' .nil k arguments' m.right) := by
  refine .read_bind <| .read_bind <| inFrame lasting_placed hm (fun n hmn hn => ?_) .loop
  refine .read_bind ?_
  rw [hn.relocated.depths]
  exact landBreak (passes hev hn (hmn.placed (hm.first harguments))
    (hmn.placed (hm.rest harguments)) (hn.place .nil))

omit hev in
theorem landThrow {act act' : EvalM Value} {depth : Nat} {s t : Interp}
    (h : Mirrored Value.Placed m (act s) (act' t)) :
    Mirrored SpecialForm.Protected.Placed m (SpecialForm.landThrow depth act s)
      (SpecialForm.landThrow depth act' t) := by
  unfold SpecialForm.landThrow
  generalize act s = res at h
  generalize act' t = res' at h
  cases h with
  | ok after faithful hgood => exact .ok after faithful hgood
  | @error n flow after faithful hflow =>
    cases flow with
    | signal σ =>
      cases σ with
      | throwing text target =>
        dsimp only [Flow.relocate, Signal.relocate]
        split
        · exact .ok after faithful rfl
        · exact .error after faithful hflow
      | _ => exact .error after faithful hflow
    | _ => exact .error after faithful hflow

theorem attempt {item item' handler handler' : Value} (hm : m.Faithful)
    (hitem : item.Placed m item') (hhandler : handler.Placed m handler') :
    Mirrored Value.Placed m (SpecialForm.attempt ev .nil item handler m.left)
      (SpecialForm.attempt ev' .nil item' handler' m.right) := by
  have hlasting : Mirror.Lasting SpecialForm.Protected.Placed := by
    intro n o outcome outcome' hno h
    cases outcome <;> cases outcome'
    · exact hno.placed h
    · exact h
    · exact h
    · exact h
  have hprotected : Mirrored SpecialForm.Protected.Placed m
      (EvalM.inFrame .guarded (do
        let depth ← EvalM.read fun s => s.depths.get .guarded
        SpecialForm.landThrow depth ((ev .nil).form item)) m.left)
      (EvalM.inFrame .guarded (do
        let depth ← EvalM.read fun s => s.depths.get .guarded
        SpecialForm.landThrow depth ((ev' .nil).form item')) m.right) := by
    refine inFrame hlasting hm (fun n hmn hn => .read_bind ?_) .guarded
    rw [hn.relocated.depths]
    exact landThrow (form hev hn (hmn.placed hitem))
  refine hprotected.bind fun n outcome outcome' hmn hn houtcome => ?_
  cases outcome with
  | finished v =>
    cases outcome' with
    | finished v' => exact .pure hn houtcome
    | caught text => exact houtcome.elim
  | caught text =>
    cases outcome' with
    | finished v' => exact houtcome.elim
    | caught text' =>
      obtain rfl : text' = text := houtcome
      refine (form hev hn (hmn.placed hhandler)).bind fun o f f' _ ho hf => ?_
      obtain ⟨hknown, -, rfl⟩ := hf
      have hcall : ∀ v ∈ [f, .string text'], v.Known (fun _ => False) o.left :=
        List.forall_mem_cons.mpr
          ⟨hknown, List.forall_mem_singleton.mpr fun id hid => by cases hid⟩
      exact (list ho hcall).bind fun p call call' _ hp hcall => form hev hp hcall

omit hev in
/-- The action that follows an ending leaves it as it is, or fails in its place. -/
theorem followedBy {act act' after after' : EvalM Value}
    (h : Mirrored Value.Placed m (act m.left) (act' m.right))
    (hafter : ∀ n, m.Leads n → n.Faithful →
      Mirrored Value.Placed n (after n.left) (after' n.right)) :
    Mirrored Value.Placed m (SpecialForm.followedBy act after m.left)
      (SpecialForm.followedBy act' after' m.right) := by
  have hthen : ∀ {keep keep' : Interp → EStateM.Result Flow Interp Value} {n}, m.Leads n →
      n.Faithful → (∀ o, n.Leads o → o.Faithful →
        Mirrored Value.Placed m (keep o.left) (keep' o.right)) →
      Mirrored Value.Placed m (following keep (after n.left))
        (following keep' (after' n.right)) := by
    intro keep keep' n hmn hn hkeep
    have hrun := hafter n hmn hn
    generalize after n.left = res at hrun
    generalize after' n.right = res' at hrun
    cases hrun with
    | ok hno ho _ => exact hkeep _ hno ho
    | error hno ho hflow => exact .error (hmn.trans hno) ho hflow
  unfold SpecialForm.followedBy
  generalize act m.left = res at h
  generalize act' m.right = res' at h
  cases h with
  | ok hmn hn hv => exact hthen hmn hn fun o hno ho => .ok (hmn.trans hno) ho (hno.placed hv)
  | @error n flow hmn hn hflow =>
    cases flow with
    | aborted why => exact .error hmn hn hflow
    | fault cause => exact hthen hmn hn fun o hno ho => .error (hmn.trans hno) ho trivial
    | signal σ =>
      refine hthen hmn hn fun o hno ho => ?_
      rw [← hflow.relocate_eq hno]
      refine .error (hmn.trans hno) ho ?_
      cases σ with
      | returning v depth => exact Value.Known.mono hflow hno.left
      | _ => trivial

theorem guarded {arguments arguments' : Value} (hm : m.Faithful)
    (harguments : arguments.Placed m arguments') :
    Mirrored Value.Placed m (SpecialForm.guarded ev .nil arguments m.left)
      (SpecialForm.guarded ev' .nil arguments' m.right) := by
  have hattempt := attempt hev hm (hm.first harguments) (hm.second harguments)
  refine .read_bind <| .read_bind <| .read_bind ?_
  rcases hm.third? harguments with ⟨hx, hx'⟩ | ⟨always, always', hx, hx', halways⟩
  · rw [hx, hx']
    exact hattempt
  · rw [hx, hx']
    exact followedBy hattempt fun n hmn hn => form hev hn (hmn.placed halways)

end Evaluator

end Mirrored

end SmallLisp
