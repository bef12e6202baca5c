/-!
# Runs that come to an end

A loop or a recursion that is not known to end is given a number of steps, and where they are not
enough there is no result. `Completes` says that some number of steps is enough, and that every
larger one gives the same result. No bound is part of what is said.
-/

namespace SmallLisp

variable {α β : Type} {run : Nat → Option α} {a : α}

/-- A run that may take any number of steps comes to an end with a result. -/
def Completes (run : Nat → Option α) (result : α) : Prop := ∃ n, ∀ m, n ≤ m → run m = some result

namespace Completes

theorem const (a : α) : Completes (fun _ => some a) a := ⟨0, fun _ _ => rfl⟩

/-- A run comes to one end only. -/
theorem unique {b : α} (h : Completes run a) (h' : Completes run b) : a = b := by
  obtain ⟨n, hn⟩ := h
  obtain ⟨m, hm⟩ := h'
  have ha := hn (max n m) (Nat.le_max_left n m)
  have hb := hm (max n m) (Nat.le_max_right n m)
  exact Option.some.inj (ha.symm.trans hb)

/-- The first step may be looked at by itself. -/
theorem step (h : Completes (fun n => run (n + 1)) a) : Completes run a := by
  obtain ⟨n, hn⟩ := h
  refine ⟨n + 1, fun m hm => ?_⟩
  obtain ⟨k, rfl⟩ : ∃ k, m = k + 1 := ⟨m - 1, by omega⟩
  exact hn k (by omega)

/-- With one step more the result is the same. -/
theorem succ (h : Completes run a) : Completes (fun n => run (n + 1)) a := by
  obtain ⟨n, hn⟩ := h
  exact ⟨n, fun m hm => hn (m + 1) (Nat.le_succ_of_le hm)⟩

/-- A run goes on with the result of another one. -/
theorem bind {next : Nat → α → Option β} {b : β} (h : Completes run a)
    (h' : Completes (fun n => next n a) b) : Completes (fun n => (run n).bind (next n)) b := by
  obtain ⟨n, hn⟩ := h
  obtain ⟨m, hm⟩ := h'
  refine ⟨max n m, fun k hk => ?_⟩
  have ha := hn k (Nat.le_trans (Nat.le_max_left n m) hk)
  have hb := hm k (Nat.le_trans (Nat.le_max_right n m) hk)
  show (run k).bind (next k) = some b
  rw [ha]
  exact hb

end Completes

end SmallLisp
