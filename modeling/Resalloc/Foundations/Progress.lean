import Mathlib.Dynamics.PeriodicPts.Defs
import Mathlib.Order.WellFounded

/-!
# Progress along infinite runs

One party of a system moves again and again, and each of its moves before a goal makes a
rank smaller that the other parties do not make larger.  Then the goal is reached.

Main results:

- Theorem {lit}`exists_goal`: the goal is reached after every point of the run.
- Theorem {lit}`exists_exit`: what does not last ends at one step of the run.
- Theorem {lit}`exists_exit_of_rank`: a condition under which one party moves again and again, each
  time to a smaller rank, ends by a move of this party.
- Theorem {lit}`forall_iterate`: what holds up to the end of a loop holds for ever.
-/

namespace Foundations

variable {State Rank : Type} [Preorder Rank]
variable {run : ℕ → State} {moves : ℕ → Prop} (rank : State → Rank) (goal : State → Prop)

/-- Up to the next move, the goal is reached, or the rank gets smaller. -/
theorem exists_goal_or_lt
    (hmove : ∀ n, ¬ goal (run n) → moves n → rank (run (n + 1)) < rank (run n))
    (hwait : ∀ n, ¬ moves n → rank (run (n + 1)) ≤ rank (run n)) (distance n : ℕ)
    (h : moves (n + distance)) :
    ∃ m, n ≤ m ∧ (goal (run m) ∨ rank (run m) < rank (run n)) := by
  by_cases hgoal : goal (run n)
  · exact ⟨n, le_refl n, .inl hgoal⟩
  by_cases hn : moves n
  · exact ⟨n + 1, Nat.le_succ n, .inr (hmove n hgoal hn)⟩
  induction distance generalizing n with
  | zero => exact absurd h hn
  | succ distance ih =>
      have hnext : moves (n + 1 + distance) := by
        rwa [Nat.add_right_comm]
      by_cases hgoal' : goal (run (n + 1))
      · exact ⟨n + 1, Nat.le_succ n, .inl hgoal'⟩
      by_cases hn' : moves (n + 1)
      · exact ⟨n + 2, Nat.le_add_right n 2,
          .inr ((hmove (n + 1) hgoal' hn').trans_le (hwait n hn))⟩
      obtain ⟨m, hle, hm⟩ := ih (n + 1) hnext hgoal' hn'
      exact ⟨m, (Nat.le_succ n).trans hle, hm.imp_right fun hlt => hlt.trans_le (hwait n hn)⟩

/-- If the party moves again and again, the goal is reached after every point. -/
theorem exists_goal [WellFoundedLT Rank] (hmoves : ∀ n, ∃ m, n ≤ m ∧ moves m)
    (hmove : ∀ n, ¬ goal (run n) → moves n → rank (run (n + 1)) < rank (run n))
    (hwait : ∀ n, ¬ moves n → rank (run (n + 1)) ≤ rank (run n)) (n : ℕ) :
    ∃ m, n ≤ m ∧ goal (run m) := by
  induction hrank : rank (run n) using WellFoundedLT.induction generalizing n with
  | ind r ih =>
      obtain ⟨k, hle, hk⟩ := hmoves n
      obtain ⟨distance, rfl⟩ := Nat.exists_eq_add_of_le hle
      obtain ⟨m, hm, hgoal | hlt⟩ := exists_goal_or_lt rank goal hmove hwait distance n hk
      · exact ⟨m, hm, hgoal⟩
      · obtain ⟨m', hm', hgoal⟩ := ih _ (hrank ▸ hlt) m rfl
        exact ⟨m', hm.trans hm', hgoal⟩

/-! ## The end of a condition -/

/-- A condition that does not hold later on ends at one step. -/
theorem exists_exit {P : ℕ → Prop} {n m : ℕ} (hle : n ≤ m) (hstart : P n) (hend : ¬ P m) :
    ∃ j, n ≤ j ∧ j < m ∧ P j ∧ ¬ P (j + 1) := by
  induction m, hle using Nat.le_induction with
  | base => exact absurd hstart hend
  | succ m hle ih =>
      by_cases hm : P m
      · exact ⟨m, hle, Nat.lt_succ_self m, hm, hend⟩
      · obtain ⟨j, hj, hlt, hbefore, hafter⟩ := ih hm
        exact ⟨j, hj, hlt.trans (Nat.lt_succ_self m), hbefore, hafter⟩

/-- While a condition holds, one party moves again and again, and its moves make a rank smaller or
end the condition.  The others do neither.  Then a move of this party ends the condition. -/
theorem exists_exit_of_rank {P : ℕ → Prop} (moves : ℕ → Prop) (size : ℕ → ℕ) {n : ℕ} (hstart : P n)
    (hfair : ∀ m, n ≤ m → P m → ∃ l, m ≤ l ∧ moves l)
    (hmove : ∀ m, n ≤ m → P m → moves m → P (m + 1) → size (m + 1) < size m)
    (hwait : ∀ m, n ≤ m → P m → ¬ moves m → P (m + 1) ∧ size (m + 1) ≤ size m) :
    ∃ m, n ≤ m ∧ P m ∧ moves m ∧ ¬ P (m + 1) := by
  induction hsize : size n using Nat.strong_induction_on generalizing n with
  | _ r ih =>
      obtain ⟨l, hl, hmoves⟩ := hfair n (le_refl n) hstart
      -- up to a move of the party the condition holds and the rank does not grow
      have hreach : ∃ m, n ≤ m ∧ P m ∧ moves m ∧ size m ≤ size n := by
        by_contra hnone
        have hkept : ∀ m, n ≤ m → P m ∧ size m ≤ size n := by
          intro m hm
          induction m, hm using Nat.le_induction with
          | base => exact ⟨hstart, le_refl _⟩
          | succ m hm ihm =>
              have hstill : ¬ moves m := fun hmove => hnone ⟨m, hm, ihm.1, hmove, ihm.2⟩
              obtain ⟨hnext, hle⟩ := hwait m hm ihm.1 hstill
              exact ⟨hnext, hle.trans ihm.2⟩
        exact hnone ⟨l, hl, (hkept l hl).1, hmoves, (hkept l hl).2⟩
      obtain ⟨m, hm, hP, hmoves, hle⟩ := hreach
      by_cases hnext : P (m + 1)
      · have hlt : size (m + 1) < r := by
          rw [← hsize]
          exact (hmove m hm hP hmoves hnext).trans_le hle
        have hlater : n ≤ m + 1 := hm.trans (Nat.le_succ m)
        obtain ⟨j, hj, hexit⟩ := ih _ hlt hnext
          (fun q hq => hfair q (hlater.trans hq)) (fun q hq => hmove q (hlater.trans hq))
          (fun q hq => hwait q (hlater.trans hq)) rfl
        exact ⟨j, hlater.trans hj, hexit⟩
      · exact ⟨m, hm, hP, hmoves, hnext⟩

/-! ## Loops -/

section Loops

variable {f : State → State} {s : State} {start period : ℕ}

/-- A run that has come to a loop comes to its start again and again. -/
theorem exists_iterate (hperiod : 0 < period)
    (hloop : Function.IsPeriodicPt f period (f^[start] s)) (n : ℕ) :
    ∃ m, n ≤ m ∧ f^[m] s = f^[start] s := by
  refine ⟨n * period + start, ?_, ?_⟩
  · exact (Nat.le_mul_of_pos_right n hperiod).trans (Nat.le_add_right _ _)
  · rw [Function.iterate_add_apply]
    exact hloop.const_mul n

/-- A run that has come to a loop meets no other states than those up to its end. -/
theorem forall_iterate {P : State → Prop} (hperiod : 0 < period)
    (hloop : Function.IsPeriodicPt f period (f^[start] s))
    (h : ∀ n < start + period, P (f^[n] s)) (n : ℕ) : P (f^[n] s) := by
  by_cases hn : n < start
  · exact h n (hn.trans_le (Nat.le_add_right _ _))
  · obtain ⟨k, rfl⟩ := Nat.exists_eq_add_of_le (Nat.le_of_not_lt hn)
    have hround : f^[start + k] s = f^[start + k % period] s := by
      rw [Nat.add_comm, Function.iterate_add_apply, ← hloop.iterate_mod_apply,
        ← Function.iterate_add_apply, Nat.add_comm]
    rw [hround]
    exact h _ (Nat.add_lt_add_left (Nat.mod_lt k hperiod) start)

end Loops

end Foundations
