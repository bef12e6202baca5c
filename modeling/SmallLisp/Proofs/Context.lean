import SmallLisp.Proofs.Session

/-!
# The context is handed on and not looked at

An evaluation carries a context that only host functions see. Without host functions it makes no
difference which context that is. With host functions, everything that an evaluation does is done
with its own context, as long as no host function asks for work with another one: the evaluator that
refuses every other context does the same, and what the host would do with another context does not
matter.
-/

namespace SmallLisp

variable {s : Interp} {allowed : Value → Bool} {hosts hosts' : HostTable}

/-- A program that asks for work with allowed contexts only. -/
inductive HostProgram.AsksWithin (allowed : Value → Bool) : HostProgram → Prop
  | finish (ending : Ending Value) : AsksWithin allowed (.finish ending)
  | inspect {next : Interp → HostProgram} (hnext : ∀ s, AsksWithin allowed (next s)) :
      AsksWithin allowed (.inspect next)
  | construct {car cdr : Value} {next : Value → HostProgram}
      (hnext : ∀ v, AsksWithin allowed (next v)) : AsksWithin allowed (.construct car cdr next)
  | ask {context : Value} {request : HostRequest} {next : Ending Value → HostProgram}
      (hcontext : allowed context = true) (hnext : ∀ ending, AsksWithin allowed (next ending)) :
      AsksWithin allowed (.ask context request next)

/-- With allowed contexts a host function does the same on both hosts, and it asks for work with
allowed contexts only. -/
def HostFunction.Within (allowed : Value → Bool) (hosts hosts' : HostTable) (f : HostFunction) :
    Prop :=
  ∀ context, allowed context = true → ∀ arguments,
    hosts' f.program arguments context = hosts f.program arguments context ∧
      (hosts f.program arguments context).AsksWithin allowed

/-- The evaluator that works with allowed contexts only. With another one it spends its fuel. -/
def Evaluator.confined (allowed : Value → Bool) (hosts : HostTable) : Nat → Value → Evaluator
  | 0, _, _ => throw .spent
  | n + 1, context, request =>
    if allowed context = true then step hosts (confined allowed hosts n) n context request
    else throw .spent

/-- Contexts that are one allowed context. -/
def SameWithin (allowed : Value → Bool) (context context' : Value) : Prop :=
  context = context' ∧ allowed context = true

theorem HostProgram.AsksWithin.matches {program : HostProgram} {rel : Interp → Interp → Prop}
    (h : program.AsksWithin allowed) (hrel : ∀ s t, rel s t → t = s) :
    program.Matches (SameWithin allowed) rel program := by
  induction h with
  | finish ending => exact .finish ending
  | @inspect next _ ih =>
    refine .inspect fun s t hst => ?_
    rw [hrel s t hst]
    exact ih s
  | construct _ ih => exact .construct ih
  | ask hcontext _ ih => exact .ask ⟨rfl, hcontext⟩ ih

namespace Pairing

/-- A state paired with itself, with host functions of one kind. -/
def hosting (good : HostFunction → Prop) : Pairing where
  strict := False
  hosted := False
  oneSided := False
  rel s t := t = s ∧ s.HostsAre good
  opens _ := True
  apart {s t} h := ⟨s, rfl, h.1⟩
  live _ := False.elim
  lookup h _ := by rw [h.1]
  holder h _ := by rw [h.1]
  change {s t c} h _ := ⟨by rw [h.1], h.2.change c⟩
  depths h _ := ⟨by rw [h.1], h.2⟩
  opens_new _ := trivial
  opens_captured _ _ := trivial
  push h _ := ⟨by rw [h.1], h.2⟩
  pop _ h _ := ⟨by rw [h.1], h.2⟩

theorem counts_hosting (good : HostFunction → Prop) : (hosting good).Counts where
  limit h := by rw [h.1]
  active h _ := ⟨by rw [h.1], h.2⟩

/-- Both evaluators keep to an allowed context. -/
theorem keeps_confined (n : Nat) (context context' : Value)
    (hsame : SameWithin allowed context context') :
    (hosting (HostFunction.Within allowed hosts hosts')).Keeps (Evaluator.perform hosts n context)
      (Evaluator.confined allowed hosts' n context') := by
  let P := hosting (HostFunction.Within allowed hosts hosts')
  have hshows : P.Shows (SameWithin allowed) hosts hosts' := by
    refine fun _ s t id f hst hf => ⟨?_, False.elim⟩
    rintro arguments context context' ⟨rfl, hcontext⟩
    have hgood := hst.2 f (Interp.HostsAre.mem_of_callable hf)
    obtain ⟨hprogram, hasks⟩ := hgood context hcontext arguments
    rw [hprogram]
    exact hasks.matches fun _ _ h => h.1
  induction n generalizing context context' with
  | zero => exact fun request s t hst _ => Led.aborted .spent hst
  | succ n ih =>
    have hcontext' : allowed context' = true := hsame.1 ▸ hsame.2
    intro request s t hst _
    unfold Evaluator.confined
    rw [if_pos hcontext']
    cases request with
    | evaluate form =>
      exact (counts_hosting _).withinLimit hst fun s' t' hst' _ =>
        Led.evaluateActive_of_hostless False.elim ih hsame hshows hst' False.elim
    | apply id arguments =>
      exact Led.applyReady_of_hostless False.elim ih hsame hshows hst False.elim False.elim

end Pairing

/-- Without host functions nothing sees the context, nor what the host offers. -/
theorem Evaluator.perform_context (h : s.HostsAre fun _ => False) (hosts hosts' : HostTable)
    (n : Nat) (context context' : Value) (request : Request) :
    perform hosts' n context' request s = perform hosts n context request s := by
  let P := Pairing.hosting fun _ => False
  have hshows : P.Shows (fun _ _ => True) hosts hosts' := fun _ _ _ _ f hst hf =>
    (hst.2 f (Interp.HostsAre.mem_of_callable hf)).elim
  have hkeeps : P.Keeps (perform hosts n context) (perform hosts' n context') :=
    P.keeps_perform False.elim hshows (Pairing.counts_hosting _) n trivial
  have hled := hkeeps request s s ⟨rfl, h⟩ False.elim
  exact (hled.alike False.elim).eq fun _ _ hu => hu.1

/-- An evaluation with an allowed context works with allowed contexts only, and whatever the host
offers for others makes no difference. -/
theorem Evaluator.confined_eq_perform (h : s.HostsAre (HostFunction.Within allowed hosts hosts'))
    (n : Nat) {context : Value} (hcontext : allowed context = true) (request : Request) :
    confined allowed hosts' n context request s = perform hosts n context request s := by
  have hled := Pairing.keeps_confined n context context ⟨rfl, hcontext⟩ request s s ⟨rfl, h⟩
    False.elim
  exact (hled.alike False.elim).eq fun _ _ hu => hu.1

/-- Where no host function is installed, a form ends in the same way with every context and leaves
the same state. With host functions, nothing is evaluated or called with another context than the
one that the evaluation began with, or those that host functions ask for work with. -/
theorem context_opaque (s : Interp) :
    (s.HostsAre (fun _ => False) → ∀ (m : Machine) context context' form,
      m.evaluate context' form s = m.evaluate context form s) ∧
    ∀ (allowed : Value → Bool) (hosts hosts' : HostTable),
      s.HostsAre (HostFunction.Within allowed hosts hosts') →
      ∀ n context request, allowed context = true →
        Evaluator.confined allowed hosts' n context request s =
          Evaluator.perform hosts n context request s := by
  constructor
  · intro h m context context' form
    have hsame := Evaluator.perform_context h m.hosts m.hosts m.fuel context context'
      (.evaluate form)
    unfold Machine.evaluate EvalM.settle Machine.evaluator Evaluator.form
    rw [hsame]
  · exact fun allowed hosts hosts' h n context request hcontext =>
      Evaluator.confined_eq_perform h n hcontext request

/-- A constant is the same in two contexts, and a function of the host receives the context of the
evaluation that it is called in. -/
theorem context_received :
    Machine.small.evaluate (.string "inner") (.symbol .trueSymbol) (.initial 64) =
        Machine.small.evaluate .nil (.symbol .trueSymbol) (.initial 64) ∧
      ∃ s f, s = ((Interp.initial 64).register (Interp.hostFunction "ctx" 0 true "context")).2 ∧
        (Evaluator.confined (fun context => context = .ofNat 7) Machine.small.hosts 20 (.ofNat 7)
          (.apply f .nil)).answer? s = some (.ofNat 7) := by
  obtain ⟨hnone, -⟩ := context_opaque (.initial 64)
  refine ⟨hnone (.of_live (Interp.live_initial 64)) .small .nil (.string "inner") _, ?_⟩
  obtain ⟨s, hs⟩ : ∃ s, s =
    ((Interp.initial 64).register (Interp.hostFunction "ctx" 0 true "context")).2 := ⟨_, rfl⟩
  have hcallables : s.callables = (Interp.initial 64).callables.push
      (.host (Interp.hostFunction "ctx" 0 true "context")) := by
    rw [hs]
    decide +kernel
  let allowed (context : Value) : Bool := context = .ofNat 7
  have hhosts : s.HostsAre
      (HostFunction.Within allowed Machine.small.hosts Machine.small.hosts) := by
    intro f hf context _ arguments
    rw [hcallables] at hf
    rcases Array.mem_push.mp hf with hold | hnew
    · exact ((Interp.live_initial 64).callables (.host f) hold).elim
    · cases hnew
      exact ⟨rfl, .finish _⟩
  have hanswer : (Evaluator.perform Machine.small.hosts 20 (.ofNat 7)
      (.apply ⟨50⟩ .nil)).answer? s = some (.ofNat 7) := by
    rw [hs]
    decide +kernel
  obtain ⟨-, hconfined⟩ := context_opaque s
  refine ⟨s, ⟨50⟩, hs, ?_⟩
  unfold EvalM.answer?
  rw [hconfined allowed _ _ hhosts 20 (.ofNat 7) (.apply ⟨50⟩ .nil) (by decide)]
  exact hanswer

end SmallLisp
