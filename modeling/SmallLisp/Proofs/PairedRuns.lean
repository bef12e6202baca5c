import SmallLisp.Machine
import SmallLisp.Proofs.PairedOperations
import SmallLisp.Proofs.Settled

/-!
# Whole evaluations keep pairings

Calls of closures and of host functions, the application of forms, and with them
`Pairing.keeps_perform`: whatever is asked of the evaluator, from related states it leads to one
answer in related states. The two runs may have contexts and host tables of their own. The programs
of the host functions that are installed have to match: they do the same in related states and ask
with related contexts. Where values have to be live there are no host functions, or their programs
are honest: what they answer and ask for exists. Then the context has to exist too.

`Pairing.single` pairs a state with itself. With it every evaluation is a trace of changes.
-/

namespace SmallLisp

/-- A program that sees the same in related states. -/
inductive HostProgram.Sees (rel : Interp → Interp → Prop) : HostProgram → Prop
  | finish (ending : Ending Value) : Sees rel (.finish ending)
  | inspect {next : Interp → HostProgram} (hnext : ∀ s, Sees rel (next s))
      (hsame : ∀ s t, rel s t → next t = next s) : Sees rel (.inspect next)
  | construct {car cdr : Value} {next : Value → HostProgram} (hnext : ∀ v, Sees rel (next v)) :
      Sees rel (.construct car cdr next)
  | ask {context : Value} {request : HostRequest} {next : Ending Value → HostProgram}
      (hnext : ∀ ending, Sees rel (next ending)) : Sees rel (.ask context request next)

/-- Every program sees the same in equal states. -/
theorem HostProgram.sees_of_eq {rel : Interp → Interp → Prop} (hrel : ∀ s t, rel s t → t = s)
    (program : HostProgram) : program.Sees rel := by
  induction program with
  | finish ending => exact .finish ending
  | inspect next ih => exact .inspect ih fun s t hst => by rw [hrel s t hst]
  | construct car cdr next ih => exact .construct ih
  | ask context request next ih => exact .ask ih

theorem HostProgram.Sees.mono {rel rel' : Interp → Interp → Prop} {program : HostProgram}
    (h : program.Sees rel) (hrel : ∀ s t, rel' s t → rel s t) : program.Sees rel' := by
  induction h with
  | finish ending => exact .finish ending
  | inspect _ hsame ih => exact .inspect ih fun s t hst => hsame s t (hrel s t hst)
  | construct _ ih => exact .construct ih
  | ask _ ih => exact .ask ih

/-- Two programs that do the same in related states and ask with related contexts. -/
inductive HostProgram.Matches (alike : Value → Value → Prop) (rel : Interp → Interp → Prop) :
    HostProgram → HostProgram → Prop
  | finish (ending : Ending Value) : Matches alike rel (.finish ending) (.finish ending)
  | inspect {next next' : Interp → HostProgram}
      (hnext : ∀ s t, rel s t → Matches alike rel (next s) (next' t)) :
      Matches alike rel (.inspect next) (.inspect next')
  | construct {car cdr : Value} {next next' : Value → HostProgram}
      (hnext : ∀ v, Matches alike rel (next v) (next' v)) :
      Matches alike rel (.construct car cdr next) (.construct car cdr next')
  | ask {context context' : Value} {request : HostRequest} {next next' : Ending Value → HostProgram}
      (halike : alike context context')
      (hnext : ∀ ending, Matches alike rel (next ending) (next' ending)) :
      Matches alike rel (.ask context request next) (.ask context' request next')

/-- A program that sees the same in related states matches itself. -/
theorem HostProgram.Sees.matches {rel : Interp → Interp → Prop} {program : HostProgram}
    (h : program.Sees rel) : program.Matches Eq rel program := by
  induction h with
  | finish ending => exact .finish ending
  | inspect _ hsame ih =>
    refine .inspect fun s t hst => ?_
    rw [hsame s t hst]
    exact ih s
  | construct _ ih => exact .construct ih
  | ask _ ih => exact .ask rfl ih

/-- What a request of the host is about exists. -/
def HostRequest.Live (s : Interp) : HostRequest → Prop
  | .evaluate form => form.Live s
  | .evaluateAll forms | .runBody forms => forms.Live s
  | .apply f arguments => (Value.function f).Live s ∧ arguments.Live s

/-- The value in an ending exists. -/
def Ending.Live (s : Interp) : Ending Value → Prop
  | .ok v => v.Live s
  | .error stop => stop.flow.Live s

/-- From a state on, everything that a program answers, makes cells of and asks for exists. -/
def HostProgram.Honest : HostProgram → Interp → Prop
  | .finish ending, s => Ending.Live s ending
  | .inspect next, s => (next s).Honest s
  | .construct car cdr next, s => car.Live s ∧ cdr.Live s ∧
      (next (s.allocCell car cdr).1).Honest (s.allocCell car cdr).2
  | .ask context request next, s => context.Live s ∧ request.Live s ∧
      ∀ ending u, Extends s u → u.LiveUnder True → Ending.Live u ending → (next ending).Honest u

/-- Every program that a host offers is honest where its arguments and its context exist. -/
def HostTable.Honest (hosts : HostTable) : Prop :=
  ∀ name s arguments context, s.LiveUnder True → arguments.Live s → context.Live s →
    (hosts name arguments context).Honest s

/-- Every host function that is installed satisfies `good`. -/
def Interp.HostsAre (good : HostFunction → Prop) (s : Interp) : Prop :=
  ∀ f, Callable.host f ∈ s.callables → good f

namespace Interp.HostsAre

variable {good : HostFunction → Prop} {s : Interp}

theorem mem_of_callable {id : FunctionId} {f : HostFunction} (h : s.callable id = .host f) :
    Callable.host f ∈ s.callables := by
  unfold callable at h
  cases hfound : s.callables[id.index]? with
  | none =>
    rw [hfound] at h
    cases h
  | some g =>
    rw [hfound] at h
    cases h
    exact Array.mem_of_getElem? hfound

/-- No change installs a host function. -/
theorem change (h : s.HostsAre good) (c : Change) : (c.apply s).HostsAre good := by
  intro f hf
  obtain ⟨i, hi⟩ := Array.mem_iff_getElem?.mp hf
  have hcallable : (c.apply s).callable ⟨i⟩ = .host f := by
    unfold callable
    rw [hi]
    rfl
  rcases c.callable_apply s ⟨i⟩ with hsame | ⟨-, expands, xs, arguments, -, hnew⟩
  · exact h f (mem_of_callable (hsame.symm.trans hcallable))
  · rw [hnew] at hcallable
    cases expands <;> cases hcallable

/-- A live state has none. -/
theorem of_live (hs : s.Live) : s.HostsAre good := fun f hf => (hs.callables (.host f) hf).elim

end Interp.HostsAre

namespace Pairing

variable {P : Pairing} {s t : Interp}

/-! ## Contexts that exist -/

/-- The pairing of states in which a context exists besides, where that matters. -/
def holding (P : Pairing) (context : Value) : Pairing where
  strict := P.strict
  hosted := P.hosted
  oneSided := P.oneSided
  rel s t := P.rel s t ∧ (P.strict → P.hosted → context.Live s)
  opens := P.opens
  apart h := P.apart h.1
  live h := P.live h.1
  lookup h := P.lookup h.1
  holder h := P.holder h.1
  change {s _ c} h hc :=
    ⟨P.change h.1 hc, fun hstrict hhosted => (h.2 hstrict hhosted).mono (c.extended s)⟩
  depths h depths := ⟨P.depths h.1 depths, fun hstrict hhosted =>
    (h.2 hstrict hhosted).mono (.outside rfl rfl rfl rfl rfl rfl rfl)⟩
  opens_new h := P.opens_new h.1
  opens_captured h := P.opens_captured h.1
  push h hid := ⟨P.push h.1 hid, fun hstrict hhosted =>
    (h.2 hstrict hhosted).mono (.outside rfl rfl rfl rfl rfl rfl rfl)⟩
  pop h h' hchain := ⟨P.pop h.1 h'.1 hchain, fun hstrict hhosted =>
    (h'.2 hstrict hhosted).mono (.outside rfl rfl rfl rfl rfl rfl rfl)⟩

theorem After.release {context : Value} {u w : Interp} (h : (P.holding context).After s u w) :
    P.After s u w :=
  ⟨h.trace, h.rel.1, h.chain⟩

theorem After.hold {context : Value} {u w : Interp} (h : P.After s u w)
    (hcontext : P.strict → P.hosted → context.Live s) : (P.holding context).After s u w :=
  ⟨h.trace, ⟨h.rel, fun hstrict hhosted => (hcontext hstrict hhosted).mono h.extended⟩, h.chain⟩

theorem Led.release {α : Type} {context : Value} {good : Interp → α → Prop}
    {r r' : EStateM.Result Flow Interp α} (h : (P.holding context).Led good s r r') :
    P.Led good s r r' := by
  cases h with
  | ok after hgood => exact .ok after.release hgood
  | error after hflow => exact .error after.release hflow
  | givenUp hgivenUp => exact .givenUp hgivenUp

theorem Led.hold {α : Type} {context : Value} {good : Interp → α → Prop}
    {r r' : EStateM.Result Flow Interp α} (h : P.Led good s r r')
    (hcontext : P.strict → P.hosted → context.Live s) : (P.holding context).Led good s r r' := by
  cases h with
  | ok after hgood => exact .ok (after.hold hcontext) hgood
  | error after hflow => exact .error (after.hold hcontext) hflow
  | givenUp hgivenUp => exact .givenUp hgivenUp

theorem Keeps.hold {ev ev' : Evaluator} (h : P.Keeps ev ev') (context : Value) :
    (P.holding context).Keeps ev ev' :=
  fun request s t hst hrequest => (h request s t hst.1 hrequest).hold hst.2

/-- Where there are no live functions of the host, the context does not matter. -/
theorem Keeps.release {context : Value} {ev ev' : Evaluator}
    (h : (P.holding context).Keeps ev ev') (hhostless : P.strict → ¬ P.hosted) : P.Keeps ev ev' :=
  fun request s t hst hrequest => (h request s t
    ⟨hst, fun hstrict hhosted => absurd hhosted (hhostless hstrict)⟩ hrequest).release

namespace Led

/-! ## Frames -/

theorem landReturn {act act' : EvalM Value} {depth : Nat}
    (h : P.Led Value.Live s (act s) (act' t)) :
    P.Led Value.Live s (Closure.landReturn depth act s) (Closure.landReturn depth act' t) := by
  unfold Closure.landReturn
  generalize act s = r at h
  generalize act' t = r' at h
  cases h with
  | ok after hgood => exact .ok after hgood
  | @error flow u w after hflow =>
    cases flow with
    | signal σ =>
      cases σ with
      | returning v target =>
        dsimp only
        split
        · exact .ok after hflow
        · exact .error after hflow
      | _ => exact .error after hflow
    | _ => exact .error after hflow
  | givenUp hgivenUp => exact .givenUp hgivenUp

theorem bindParameters {total bound : Nat} {xs : List SymbolId} {arguments : Value}
    (hst : P.rel s t) (hxs : P.strict → ∀ x ∈ xs, x.Live s)
    (harguments : P.strict → arguments.Live s) :
    P.Led Value.Live s (Closure.bindParameters total bound xs arguments s)
      (Closure.bindParameters total bound xs arguments t) := by
  induction xs generalizing s t bound arguments with
  | nil => exact .pure hst harguments
  | cons x rest ih =>
    have hc : ∀ id, (s.symbol x).reserved = false →
        Change.Evaluates P.strict s (.bind s.currentScope x (s.car id)) := by
      refine fun id hfree => ⟨nofun, fun h => ⟨⟨?_, .inl hfree⟩, (P.live hst h).car id⟩⟩
      exact hxs h x List.mem_cons_self
    obtain ⟨o, -, rfl⟩ := P.apart hst
    unfold Closure.bindParameters
    rw [ScopeFree.symbol]
    split
    · exact .fail (reservedBinding s x) hst
    next hreserved =>
      cases arguments with
      | cons id =>
        have hafter : P.After s _ _ := .change hst (hc id (Bool.eq_false_iff.mpr hreserved))
        refine .trans hafter (ih hafter.rel ?_ ?_)
        · exact fun h y hy => Nat.lt_of_lt_of_le (hxs h y (List.mem_cons_of_mem _ hy))
            hafter.extended.symbols
        · exact fun h => ((P.live hst h).cdr id).mono hafter.extended
      | _ => exact .fail (.arity total bound none) hst

section Evaluator

variable {ev ev' : Evaluators} {context context' : Value}
  (hev : P.Keeps (ev context) (ev' context'))

include hev

theorem runBody {c : Closure} {arguments : Value} {this : Option Value} (hst : P.rel s t)
    (hc : P.strict → c.Live s) (harguments : P.strict → arguments.Live s)
    (hthis : P.strict → ∀ v, this = some v → v.Live s) :
    P.Led Value.Live s (Closure.runBody ev context c arguments this s)
      (Closure.runBody ev' context' c arguments this t) := by
  -- the two symbols of a frame have fixed addresses
  have hfixed : ∀ {x : SymbolId} {u w : Interp}, P.rel u w → x.index < 8 →
      x = .rest ∨ x = .self → P.strict → x.Bindable u :=
    fun hu hx heq h => ⟨(P.live hu h).fixedSymbol hx, .inr heq⟩
  refine .read_bind hst (fun _ => rfl) ?_
  refine (bindParameters hst (fun h => (hc h).parameters) harguments).bind ?_
  intro left u w hu hleft
  refine (binding hu.rel (hfixed hu.rel (by decide) (.inl rfl)) hleft).bind fun _ u' w' hu' _ => ?_
  have hself : P.Led (fun _ _ => True) u' (EvalM.update (fun s => this.elim s (s.bind .self)) u')
      (EvalM.update (fun s => this.elim s (s.bind .self)) w') := by
    cases this with
    | none => exact .pure hu'.rel fun _ => trivial
    | some v =>
      refine binding hu'.rel (hfixed hu'.rel (by decide) (.inr rfl)) ?_
      exact (hu.trans hu').liveValue fun h => hthis h v rfl
  exact hself.bind fun _ _ _ hu'' _ => landReturn (body hev hu''.rel)

/-- The layers of a frame above the captured scope. -/
theorem frame {c : Closure} {arguments : Value} {this : Option Value} {fresh : ScopeId}
    (hst : P.rel s t) (hfresh : P.opens fresh) (hc : P.strict → c.Live s)
    (harguments : P.strict → arguments.Live s)
    (hthis : P.strict → ∀ v, this = some v → v.Live s) :
    P.Led Value.Live s
      (EvalM.inScope fresh (EvalM.inFrame .call (Closure.runBody ev context c arguments this)) s)
      (EvalM.inScope fresh (EvalM.inFrame .call (Closure.runBody ev' context' c arguments this))
        t) := by
  refine inScope hst hfresh (fun hext hv => hv.mono hext) fun u₁ w₁ h₁ hext₁ => ?_
  refine inFrame h₁ (fun hext hv => hv.mono hext) fun u₂ w₂ h₂ hext₂ => ?_
  have hext : Extends s u₂ := hext₁.trans hext₂
  exact runBody hev h₂ (fun h => (hc h).mono hext) (fun h => (harguments h).mono hext)
    fun h v hv => (hthis h v hv).mono hext

theorem run {c : Closure} {arguments : Value} {this : Option Value} (hst : P.rel s t)
    (hcaptured : P.opens c.captured) (hc : P.strict → c.Live s)
    (harguments : P.strict → arguments.Live s)
    (hthis : P.strict → ∀ v, this = some v → v.Live s) :
    P.Led Value.Live s (c.run ev context arguments this s)
      (c.run ev' context' arguments this t) := by
  refine newScope hst fun fresh u w hfresh hu => ?_
  refine inScope hu.rel hcaptured (fun hext hv => hv.mono hext) fun u₁ w₁ h₁ hext₁ => ?_
  have hext : Extends s u₁ := hu.extended.trans hext₁
  exact frame hev h₁ hfresh (fun h => (hc h).mono hext) (fun h => (harguments h).mono hext)
    fun h v hv => (hthis h v hv).mono hext

/-! ## Host functions -/

theorem hostRequest (request : HostRequest) (hst : P.rel s t)
    (hrequest : P.strict → request.Live s) :
    P.Led Value.Live s (request.run ev context s) (request.run ev' context' t) := by
  cases request with
  | evaluate item => exact form hev hst hrequest
  | evaluateAll forms => exact evaluated hev hst
  | runBody forms => exact body hev hst
  | apply f arguments => exact hev (.apply f arguments) s t hst hrequest

end Evaluator

section Context

variable {alike : Value → Value → Prop} {ev ev' : Evaluators}
  (hev : ∀ context context', alike context context' →
    (P.holding context).Keeps (ev context) (ev' context'))

include hev

theorem hostProgram {program program' : HostProgram}
    (hmatches : program.Matches alike P.rel program') (hst : P.rel s t)
    (hhonest : P.strict → program.Honest s) :
    P.Led Value.Live s (program.run ev s) (program'.run ev' t) := by
  induction hmatches generalizing s t with
  | finish ending =>
    cases ending with
    | ok v => exact .pure hst hhonest
    | error stop => cases stop <;> exact .error (.refl hst) hhonest
  | inspect _ ih => exact ih s t hst hst hhonest
  | @construct car cdr next next' _ ih =>
    have hc : Change.Evaluates P.strict s (.cell car cdr) :=
      ⟨nofun, fun h => ⟨(hhonest h).1, (hhonest h).2.1⟩⟩
    have hafter : P.After s (s.allocCell car cdr).2 (t.allocCell car cdr).2 := .change hst hc
    have hcell : (t.allocCell car cdr).1 = (s.allocCell car cdr).1 := by
      obtain ⟨o, -, rfl⟩ := P.apart hst
      rfl
    show P.Led Value.Live s ((next (s.allocCell car cdr).1).run ev (s.allocCell car cdr).2)
      ((next' (t.allocCell car cdr).1).run ev' (t.allocCell car cdr).2)
    rw [hcell]
    exact (ih _ hafter.rel fun h => (hhonest h).2.2).trans hafter
  | @ask context context' request next next' halike _ ih =>
    have hcontext : (P.holding context).rel s t := ⟨hst, fun hstrict _ => (hhonest hstrict).1⟩
    have hled := (hostRequest (hev _ _ halike) request hcontext
      fun hstrict => (hhonest hstrict).2.1).release
    have hnext : ∀ ending u w, P.After s u w → (P.strict → Ending.Live u ending) →
        P.strict → (next ending).Honest u := fun ending u w hu hending hstrict =>
      (hhonest hstrict).2.2 ending u hu.extended
        ((P.live hu.rel hstrict).mono fun _ => trivial) (hending hstrict)
    unfold HostProgram.run
    generalize request.run ev context s = r at hled
    generalize request.run ev' context' t = r' at hled
    -- however the request ended, its ending decides how the program goes on
    cases hled with
    | ok after hgood => exact (ih _ after.rel (hnext (.ok _) _ _ after hgood)).trans after
    | @error flow u w after hflow =>
      cases flow with
      | fault cause =>
        exact (ih _ after.rel (hnext (.error (.fault cause)) _ _ after hflow)).trans after
      | signal signal =>
        exact (ih _ after.rel (hnext (.error (.signal signal)) _ _ after hflow)).trans after
      | aborted why => exact .error after hflow
    | givenUp hgivenUp => exact .givenUp hgivenUp

end Context

end Led

/-- The programs of a host function, which two hosts offer, match in related states, and where
values have to be live they are honest. -/
structure Offers (P : Pairing) (alike : Value → Value → Prop) (hosts hosts' : HostTable)
    (f : HostFunction) : Prop where
  agree : ∀ arguments context context', alike context context' →
    (hosts f.program arguments context).Matches alike P.rel (hosts' f.program arguments context')
  honest : P.strict → ∀ s arguments context, s.LiveUnder True → arguments.Live s →
    context.Live s → (hosts f.program arguments context).Honest s

/-- The installed host functions match in related states, or there are none. -/
def Shows (P : Pairing) (alike : Value → Value → Prop) (hosts hosts' : HostTable) : Prop :=
  (P.strict → P.hosted) → ∀ {s t id f}, P.rel s t → s.callable id = .host f →
    P.Offers alike hosts hosts' f

/-- A function that may be called from the state `s` on. -/
structure Ready (P : Pairing) (alike : Value → Value → Prop) (hosts hosts' : HostTable)
    (s : Interp) (f : Callable) : Prop where
  live : P.strict → f.LiveUnder P.hosted s
  opens : ∀ c, f.closure? = some c → P.opens c.captured
  offers : (P.strict → P.hosted) → ∀ h, f = .host h → P.Offers alike hosts hosts' h

section Ready

variable {alike : Value → Value → Prop} {hosts hosts' : HostTable}

theorem Ready.mono {u : Interp} {f : Callable} (h : P.Ready alike hosts hosts' s f)
    (hext : Extends s u) : P.Ready alike hosts hosts' u f :=
  ⟨fun hstrict => (h.live hstrict).mono hext, h.opens, h.offers⟩

theorem callable_of_fits {id : FunctionId} {arguments : Value} {f : Callable}
    (h : Evaluator.fit s id arguments = .fits f) : s.callable id = f := by
  unfold Evaluator.fit at h
  dsimp only at h
  split at h
  · cases h
  · split at h
    · cases h
    · cases h
      rfl

/-- A function that is found in a state may be called from then on. -/
theorem ready_of_fits {id : FunctionId} {arguments : Value} {f : Callable}
    (hshows : P.Shows alike hosts hosts') (hst : P.rel s t)
    (h : Evaluator.fit s id arguments = .fits f) : P.Ready alike hosts hosts' s f := by
  have hid := callable_of_fits h
  subst hid
  exact ⟨fun hstrict => (P.live hst hstrict).callable id, fun _ hc => P.opens_captured hst hc,
    fun hloose _ hf => hshows hloose hst hf⟩

end Ready

namespace Led

section Context

variable {alike : Value → Value → Prop} {hosts hosts' : HostTable}
  {ev ev' : Evaluators} {n : Nat} {context context' : Value}
  (hev : ∀ context context', alike context context' →
    (P.holding context).Keeps (ev context) (ev' context'))
  (halike : alike context context')

include hev halike

/-! ## Applications -/

theorem call {id : FunctionId} {arguments : Value} {f : Callable}
    (hst : (P.holding context).rel s t) (hf : P.Ready alike hosts hosts' s f)
    (hid : P.strict → (Value.function id).Live s) (harguments : P.strict → arguments.Live s) :
    (P.holding context).Led Value.Live s (f.call hosts ev n context id arguments s)
      (f.call hosts' ev' n context' id arguments t) := by
  have hkeeps := hev _ _ halike
  cases f with
  | primitive op => exact primitive hkeeps op hst harguments
  | host f =>
    have hhosted : P.strict → P.hosted := hf.live
    have hoffers := hf.offers hhosted f rfl
    have hlive : P.strict → s.LiveUnder True := fun h => (P.live hst.1 h).mono fun _ => trivial
    refine (hostProgram hev (hoffers.agree arguments _ _ halike) hst.1 fun h => ?_).hold hst.2
    exact hoffers.honest h s arguments context (hlive h) (harguments h) (hst.2 h (hhosted h))
  | lambda c =>
    refine run hkeeps hst (hf.opens c rfl) hf.live harguments fun h v hv => ?_
    rw [← Option.some.inj hv]
    exact hid h
  | expander c =>
    refine (run hkeeps hst (hf.opens c rfl) hf.live harguments fun _ _ hv => ?_).bind ?_
    · cases hv
    · exact fun expansion u w hu hexpansion => form hkeeps hu.rel hexpansion

variable (hshows : P.Shows alike hosts hosts')

include hshows

theorem applyForm {cell : CellId} (hst : (P.holding context).rel s t) :
    (P.holding context).Led Value.Live s
      (Evaluator.applyForm hosts ev n context cell s)
      (Evaluator.applyForm hosts' ev' n context' cell t) := by
  have hkeeps := hev _ _ halike
  have hoperands : P.strict → (s.cdr cell).Live s := fun h => (P.live hst.1 h).cdr cell
  refine .read_bind hst (by simp) (.read_bind hst (by simp) ?_)
  refine (form hkeeps hst fun h => (P.live hst.1 h).car cell).bind fun head u w hu hhead => ?_
  cases head with
  | function id =>
    refine .read_bind hu.rel (by simp) ?_
    cases hfit : Evaluator.fit u id (s.cdr cell) with
    | dotted => exact failing hu.rel (by simp)
    | short expected got => exact failing hu.rel (by simp)
    | fits f =>
      have hf := ready_of_fits hshows hu.rel.1 hfit
      have hcall : ∀ arguments u' w', (P.holding context).After u u' w' →
          (P.strict → arguments.Live u') →
          (P.holding context).Led Value.Live u'
            (f.call hosts ev n context id arguments u')
            (f.call hosts' ev' n context' id arguments w') :=
        fun arguments u' w' hu' harguments =>
          call hev halike hu'.rel (hf.mono hu'.extended) (hu'.liveValue hhead) harguments
      dsimp only
      split
      · exact (evaluated hkeeps hu.rel).bind hcall
      · exact (Led.pure hu.rel (hu.liveValue hoperands)).bind hcall
  | _ => exact failing hu.rel (by simp)

theorem applyReady {id : FunctionId} {arguments : Value} (hst : (P.holding context).rel s t)
    (hid : P.strict → (Value.function id).Live s) (harguments : P.strict → arguments.Live s) :
    (P.holding context).Led Value.Live s
      (Evaluator.applyReady hosts ev n context id arguments s)
      (Evaluator.applyReady hosts' ev' n context' id arguments t) := by
  refine .read_bind hst (by simp) ?_
  cases hfit : Evaluator.fit s id arguments with
  | dotted => exact failing hst (by simp)
  | short expected got => exact .fail _ hst
  | fits f => exact call hev halike hst (ready_of_fits hshows hst.1 hfit) hid harguments

omit hev halike hshows in
theorem namingForm {form : Value} {act act' : EvalM Value}
    (h : P.Led Value.Live s (act s) (act' t)) :
    P.Led Value.Live s (Evaluator.namingForm form act s) (Evaluator.namingForm form act' t) := by
  unfold Evaluator.namingForm
  generalize act s = r at h
  generalize act' t = r' at h
  cases h with
  | ok after hgood => exact .ok after hgood
  | @error flow u w after hflow =>
    cases flow with
    | fault cause =>
      have hprint : w.print form = u.print form := by
        obtain ⟨o, -, rfl⟩ := P.apart after.rel
        simp
      dsimp only
      rw [hprint]
      split
      · exact .error after fun _ => trivial
      · exact .error after hflow
    | _ => exact .error after hflow
  | givenUp hgivenUp => exact .givenUp hgivenUp

/-- A symbol means the same in related states. -/
theorem evaluateActive {item : Value} (hst : (P.holding context).rel s t)
    (hitem : P.strict → item.Live s) :
    (P.holding context).Led Value.Live s
      (Evaluator.evaluateActive hosts ev n context item s)
      (Evaluator.evaluateActive hosts' ev' n context' item t) := by
  cases item with
  | symbol x =>
    have hlookup := P.lookup hst.1 x
    have hprint : t.printSymbol x = s.printSymbol x := by
      obtain ⟨o, -, rfl⟩ := P.apart hst.1
      rfl
    unfold Evaluator.evaluateActive
    dsimp only
    rw [hlookup, hprint]
    cases hv : s.lookup? x with
    | some v => exact .ok (.refl hst) fun h => (P.live hst.1 h).lookup? hv
    | none => exact .error (.refl hst) fun _ => trivial
  | cons cell => exact namingForm (applyForm hev halike hshows hst)
  | _ => exact .pure hst hitem

end Context

/-! ### Without functions of the host the context does not matter -/

section Hostless

variable {alike : Value → Value → Prop} {hosts hosts' : HostTable}
  {ev ev' : Evaluators} {n : Nat} {context context' : Value}
  (hhostless : P.strict → ¬ P.hosted)
  (hev : ∀ context context', alike context context' →
    P.Keeps (ev context) (ev' context'))
  (halike : alike context context') (hshows : P.Shows alike hosts hosts')

include hhostless hev halike hshows

theorem evaluateActive_of_hostless {item : Value} (hst : P.rel s t)
    (hitem : P.strict → item.Live s) :
    P.Led Value.Live s (Evaluator.evaluateActive hosts ev n context item s)
      (Evaluator.evaluateActive hosts' ev' n context' item t) := by
  have hheld : ∀ context context', alike context context' →
      (P.holding context).Keeps (ev context) (ev' context') :=
    fun _ _ h => (hev _ _ h).hold _
  have hst' : (P.holding context).rel s t :=
    ⟨hst, fun hstrict hhosted => absurd hhosted (hhostless hstrict)⟩
  exact (evaluateActive hheld halike hshows hst' hitem).release

theorem applyReady_of_hostless {id : FunctionId} {arguments : Value} (hst : P.rel s t)
    (hid : P.strict → (Value.function id).Live s) (harguments : P.strict → arguments.Live s) :
    P.Led Value.Live s (Evaluator.applyReady hosts ev n context id arguments s)
      (Evaluator.applyReady hosts' ev' n context' id arguments t) := by
  have hheld : ∀ context context', alike context context' →
      (P.holding context).Keeps (ev context) (ev' context') :=
    fun _ _ h => (hev _ _ h).hold _
  have hst' : (P.holding context).rel s t :=
    ⟨hst, fun hstrict hhosted => absurd hhosted (hhostless hstrict)⟩
  exact (applyReady hheld halike hshows hst' hid harguments).release

end Hostless

end Led

/-- Related states have one limit, and how many evaluations are active does not matter. -/
structure Counts (P : Pairing) : Prop where
  limit : ∀ {s t}, P.rel s t → t.limit = s.limit
  active : ∀ {s t}, P.rel s t → ∀ active, P.rel (s.withActive active) (t.withActive active)

theorem active_eq (hst : P.rel s t) : t.active = s.active := by
  obtain ⟨o, -, rfl⟩ := P.apart hst
  rfl

/-- Under one limit the two runs are refused together. -/
theorem Counts.withinLimit {act act' : EvalM Value} (hcounts : P.Counts) (hst : P.rel s t)
    (h : ∀ s' t', P.rel s' t' → Extends s s' → P.Led Value.Live s' (act s') (act' t')) :
    P.Led Value.Live s (EvalM.withinLimit act s) (EvalM.withinLimit act' t) := by
  rw [EvalM.withinLimit_apply, EvalM.withinLimit_apply, hcounts.limit hst, active_eq hst]
  have hext : Extends s (s.withActive (s.active + 1)) := .outside rfl rfl rfl rfl rfl rfl rfl
  have hstart : P.rel (s.withActive (s.active + 1)) (t.withActive (t.active + 1)) := by
    rw [active_eq hst]
    exact hcounts.active hst _
  have hend : ∀ u w, P.rel u w →
      P.rel (u.withActive (u.active - 1)) (w.withActive (w.active - 1)) := by
    intro u w hu
    rw [active_eq hu]
    exact hcounts.active hu _
  split
  · exact .fail _ hst
  · exact .counted Iff.rfl (fun h => h) hend (fun hext hv => hv.mono hext) (h _ _ hstart hext)

theorem Counts.holding (hcounts : P.Counts) (context : Value) : (P.holding context).Counts where
  limit h := hcounts.limit h.1
  active h active := ⟨hcounts.active h.1 active, fun hstrict hhosted =>
    (h.2 hstrict hhosted).mono (.outside rfl rfl rfl rfl rfl rfl rfl)⟩

/-- Whatever is asked of the evaluator, related states in which the context exists lead to one
answer in related states. -/
theorem keeps_holding {alike : Value → Value → Prop} {hosts hosts' : HostTable}
    (hshows : P.Shows alike hosts hosts') (hcounts : P.Counts) (n : Nat) {context context' : Value}
    (halike : alike context context') : (P.holding context).Keeps
      (Evaluator.perform hosts n context) (Evaluator.perform hosts' n context') := by
  induction n generalizing context context' with
  | zero => exact fun request s t hst _ => Led.aborted .spent hst
  | succ n ih =>
    have hkeeps := fun context context' (halike : alike context context') => ih halike
    intro request s t hst hrequest
    cases request with
    | evaluate item =>
      refine (hcounts.holding context).withinLimit hst fun s' t' hst' hext => ?_
      exact Led.evaluateActive hkeeps halike hshows hst' fun h => Value.Live.mono (hrequest h) hext
    | apply id arguments =>
      have hid := fun h => (hrequest h).1
      exact Led.applyReady hkeeps halike hshows hst hid fun h => (hrequest h).2

/-- Where there are no live functions of the host, any context will do. -/
theorem keeps_perform {alike : Value → Value → Prop} {hosts hosts' : HostTable}
    (hhostless : P.strict → ¬ P.hosted) (hshows : P.Shows alike hosts hosts') (hcounts : P.Counts)
    (n : Nat) {context context' : Value} (halike : alike context context') :
    P.Keeps (Evaluator.perform hosts n context) (Evaluator.perform hosts' n context') :=
  (keeps_holding hshows hcounts n halike).release hhostless

/-- What two runs leave is related. -/
theorem Led.after {α : Type} {good : Interp → α → Prop} {act act' : EvalM α}
    (hsided : ¬ P.oneSided) (h : P.Led good s (act s) (act' t)) :
    P.After s (act.final s) (act'.final t) := by
  unfold EvalM.final
  generalize act s = r at h
  generalize act' t = r' at h
  cases h with
  | ok after _ => exact after
  | error after _ => exact after
  | givenUp hgivenUp => exact absurd hgivenUp hsided

/-! ## Single runs -/

/-- A state paired with itself, perhaps known to be live. -/
def single (strict : Prop) : Pairing where
  strict := strict
  hosted := False
  oneSided := False
  rel s t := t = s ∧ (strict → s.Live)
  opens _ := True
  apart {s t} h := ⟨s, rfl, h.1⟩
  live h := h.2
  lookup h _ := by rw [h.1]
  holder h _ := by rw [h.1]
  change h hc := ⟨by rw [h.1], fun hstrict => Change.live (h.2 hstrict) (hc.2 hstrict)⟩
  depths {s t} h depths :=
    ⟨by rw [h.1], fun hstrict => (h.2 hstrict).withFrames s.chain depths s.active⟩
  opens_new _ := trivial
  opens_captured _ _ := trivial
  push {s t id} h _ :=
    ⟨by rw [h.1],
      fun hstrict => (h.2 hstrict).withFrames (id :: s.chain) s.depths s.active⟩
  pop {s t u w id} _ h _ :=
    ⟨by rw [h.1],
      fun hstrict => (h.2 hstrict).withFrames u.chain.tail u.depths u.active⟩

theorem counts_single (strict : Prop) : (single strict).Counts where
  limit h := by rw [h.1]
  active {s t} h active :=
    ⟨by rw [h.1], fun hstrict => (h.2 hstrict).withFrames s.chain s.depths active⟩

/-- A single run of the evaluator: its changes, and what it ends with. -/
theorem single_performed {strict : Prop} {hosts : HostTable} {n : Nat} {context : Value}
    (request : Request) (hs : strict → s.Live) (hrequest : strict → request.Live s) :
    (single strict).Led Value.Live s (Evaluator.perform hosts n context request s)
      (Evaluator.perform hosts n context request s) := by
  have hshows : (single strict).Shows Eq hosts hosts := by
    refine fun hloose _ _ _ f _ _ => ⟨?_, fun hstrict => (hloose hstrict).elim⟩
    rintro arguments context _ rfl
    exact (HostProgram.sees_of_eq (fun _ _ h => h.1) _).matches
  exact keeps_perform (fun _ h => h) hshows (counts_single strict) n (rfl : context = context)
    request s s ⟨rfl, hs⟩ hrequest

end Pairing

end SmallLisp
