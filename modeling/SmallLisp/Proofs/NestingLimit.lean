import SmallLisp.Proofs.Narrowing

/-!
# A lower limit on nesting

A limit on the levels of data only cuts. Where a text can be read under one limit, a lower one gives
the same data if none of them has a part at its level or deeper, and else the fault that says so:
the reader has no other way to go on, neither in a list or a tail nor behind a mark.
-/

namespace SmallLisp

namespace Datum

variable {levels : Nat} {d : Datum}

/-- A datum and all data in it sit at levels below a limit, the datum itself at level zero. -/
def Within (levels : Nat) (d : Datum) : Prop :=
  ∀ above part, d.Sits above part → above.length < levels

theorem not_within_zero (d : Datum) : ¬ d.Within 0 :=
  fun h => absurd (h [] d (.self d)) (Nat.not_lt_zero _)

theorem within_succ : d.Within (levels + 1) ↔ ∀ child ∈ d.parts, child.Within levels := by
  constructor
  · intro h child hchild above part hsits
    exact Nat.lt_of_succ_lt_succ (h (d :: above) part (.under hchild hsits))
  · intro h above part hsits
    cases hsits with
    | self => exact Nat.zero_lt_succ _
    | under hchild hsits => exact Nat.succ_lt_succ (h _ hchild _ _ hsits)

theorem within_quoted {kind : QuoteKind} :
    (quoted kind d).Within (levels + 1) ↔ d.Within levels :=
  within_succ.trans List.forall_mem_singleton

end Datum

variable {comments : Bool} {few many : Nat}

/-- With fewer levels left the same data are read, as far as they fit. -/
theorem narrows_levels (rule : UnquoteRule) (backquotes : Nat) (hle : few ≤ many) :
    Narrows (Datum.Within few) (fun stuck => stuck = .tooDeep)
      (readDatumBy rule comments many backquotes) (readDatumBy rule comments few backquotes) := by
  induction few generalizing many backquotes with
  | zero => exact fun cs => .dropped rfl fun read _ => read.1.not_within_zero
  | succ few ih =>
    obtain ⟨many, rfl⟩ : ∃ n, many = n + 1 := ⟨many - 1, by omega⟩
    have hle' : few ≤ many := by omega
    refine Narrows.level (fun text kind => ?_) (ih backquotes hle') fun d _ => Datum.within_succ
    unfold UnquoteRule.operand
    split
    · exact fun cs => .stopped
    · exact fun cs => (ih _ hle' cs).mono fun read _ => Datum.within_quoted.symm

/-- Under a lower limit a text has the same data, or its data do not fit the limit and this is the
fault. No data of a text go beyond the limit under which it is read. -/
theorem lower_limit_cuts {options : ReadOptions} {limit : Nat} {source : String}
    {data : List Datum} (hle : limit ≤ options.maxDepth)
    (h : readData options source = .ok data) :
    ((∀ d ∈ data, d.Within limit) →
      readData { options with maxDepth := limit } source = .ok data) ∧
    ((∃ d ∈ data, ¬ d.Within limit) →
      readData { options with maxDepth := limit } source = .error (.parse (.tooDeep limit))) ∧
    ∀ d ∈ data, d.Within options.maxDepth := by
  have hnot : ¬ (Stuck.noDatum = Stuck.tooDeep) := nofun
  rw [← readDataBy_counting] at h ⊢
  have hlower := readDataBy_narrowed options { options with maxDepth := limit } rfl hnot
    (narrows_levels .counting 0 hle) source data
  have hsame := readDataBy_narrowed options options rfl hnot
    (narrows_levels .counting 0 (Nat.le_refl options.maxDepth)) source data
  refine ⟨(hlower.2 h).1, ?_, (hsame.1 h).2⟩
  rintro ⟨d, hd, hdeep⟩
  obtain ⟨stuck, rfl, hstop⟩ := (hlower.2 h).2 fun hall => hdeep (hall d hd)
  exact hstop

/-- A number in a list in a list is too deep for two levels. -/
theorem two_levels_cut :
    2 ≤ 3 ∧ readData ⟨true, 3⟩ "((1))" = .ok [.list [.list [.number (.int 1)]]] ∧
      readData ⟨true, 2⟩ "((1))" = .error (.parse (.tooDeep 2)) := by
  have hread : readData ⟨true, 3⟩ "((1))" = .ok [.list [.list [.number (.int 1)]]] := rfl
  refine ⟨by decide, hread, (lower_limit_cuts (by decide) hread).2.1 ?_⟩
  refine ⟨_, List.mem_cons_self, fun hwithin => ?_⟩
  have hlist := Datum.within_succ.mp hwithin _ List.mem_cons_self
  have hnumber := Datum.within_succ.mp hlist _ List.mem_cons_self
  exact Datum.not_within_zero _ hnumber

end SmallLisp
