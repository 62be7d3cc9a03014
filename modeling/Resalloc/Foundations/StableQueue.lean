import Mathlib.Order.Lattice

/-!
# Stable priority queues

A stable queue is the list of its tasks with their priorities, in the order in which they
were added.  Adding a task again moves it to the end.  The greatest priority is served
first, and among equals the task that was added first.

Main results:

- Theorem {lit}`StableQueue.best_eq_some`: which task is served.
- Theorem {lit}`StableQueue.best_eq_none`: when there is none.
-/

namespace Foundations

/-- Tasks with priorities, in the order in which they were added. -/
abbrev StableQueue (τ κ : Type) := List (τ × κ)

namespace StableQueue

variable {τ κ : Type} [DecidableEq τ] {q : StableQueue τ κ} {e : τ × κ}

/-- The queue without a task. -/
def drop (q : StableQueue τ κ) (task : τ) : StableQueue τ κ :=
  q.filter fun e => e.1 ≠ task

/-- Add a task, or replace its priority. -/
def add (q : StableQueue τ κ) (task : τ) (priority : κ) : StableQueue τ κ :=
  q.drop task ++ [(task, priority)]

/-- A task is queued. -/
def Queued (q : StableQueue τ κ) (task : τ) : Prop := task ∈ q.map Prod.fst

instance (q : StableQueue τ κ) (task : τ) : Decidable (q.Queued task) :=
  inferInstanceAs (Decidable (_ ∈ _))

variable [LinearOrder κ]

omit [DecidableEq τ] in
/-- The first task of the greatest priority. -/
def best : StableQueue τ κ → Option (τ × κ)
  | [] => none
  | e :: q =>
      match best q with
      | none => some e
      | some f => if e.2 < f.2 then some f else some e

omit [DecidableEq τ] in
/-- Only an empty queue has nothing to serve. -/
theorem best_eq_none : best q = none ↔ q = [] := by
  cases q with
  | nil => simp [best]
  | cons e q =>
      simp only [best, reduceCtorEq, iff_false]
      split
      · simp
      · split_ifs <;> simp

omit [DecidableEq τ] in
/-- The served task has the greatest priority, and it was added before its equals. -/
theorem best_spec (h : best q = some e) :
    ∃ before after, q = before ++ e :: after ∧ (∀ f ∈ before, f.2 < e.2) ∧
      ∀ f ∈ after, f.2 ≤ e.2 := by
  induction q generalizing e with
  | nil => simp [best] at h
  | cons d q ih =>
      rw [best] at h
      split at h
      next hnone =>
        obtain rfl := Option.some.inj h
        exact ⟨[], q, rfl, by simp, by simp [best_eq_none.mp hnone]⟩
      next f hbest =>
        obtain ⟨before, after, rfl, hbefore, hafter⟩ := ih hbest
        by_cases hlt : d.2 < f.2
        · rw [if_pos hlt] at h
          obtain rfl := Option.some.inj h
          refine ⟨d :: before, after, rfl, fun g hg => ?_, hafter⟩
          rcases List.mem_cons.mp hg with rfl | hg
          · exact hlt
          · exact hbefore g hg
        · rw [if_neg hlt] at h
          obtain rfl := Option.some.inj h
          have hle := not_lt.mp hlt
          refine ⟨[], _, rfl, by simp, fun g hg => ?_⟩
          rcases List.mem_append.mp hg with hg | hg
          · exact (hbefore g hg).le.trans hle
          · rcases List.mem_cons.mp hg with rfl | hg
            · exact hle
            · exact (hafter g hg).trans hle

omit [DecidableEq τ] in
/-- No other task is served. -/
theorem best_eq_some {before after : StableQueue τ κ} (hbefore : ∀ f ∈ before, f.2 < e.2)
    (hafter : ∀ f ∈ after, f.2 ≤ e.2) : best (before ++ e :: after) = some e := by
  induction before with
  | nil =>
      rw [List.nil_append, best]
      cases hbest : best after with
      | none => rfl
      | some f =>
          obtain ⟨_, _, rfl, -⟩ := best_spec hbest
          simp [not_lt.mpr (hafter f (by simp))]
  | cons f before ih =>
      rw [List.cons_append, best, ih fun g hg => hbefore g (List.mem_cons_of_mem _ hg)]
      simp [hbefore f List.mem_cons_self]

end StableQueue

end Foundations
