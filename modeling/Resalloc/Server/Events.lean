import Resalloc.Foundations.Runs

/-!
# Waking up the Manager

Threads of the server and of its API call {lit}`AtomicEvent.set` when there may be work for
the Manager, which calls {lit}`AtomicEvent.wait` between its cycles.  What happens under the
lock of the condition is one step.

Main results:

- Definition {lit}`Signals.step`: the steps of the setters and of the Manager.
- Theorem {lit}`Signals.Alert.step`: a set that no cycle has followed is not forgotten.
- Theorem {lit}`Signals.no_lost_wakeup`: the Manager does not sleep after such a set.
-/

namespace Resalloc

open Foundations

/-- Where the Manager is. -/
inductive ManagerAt
  /-- In {lit}`_loop`, or on its way from there to {lit}`wait`. -/
  | loop
  /-- In {lit}`cond.wait`, neither notified nor timed out. -/
  | blocked
  /-- In {lit}`cond.wait`, which is going to take the lock again. -/
  | notified
  /-- It returns from {lit}`wait`, and the next call is {lit}`_loop`. -/
  | leaving
  /-- {lit}`_loop` has raised. -/
  | stopped
deriving DecidableEq

/-- The attributes of {lit}`AtomicEvent`, and the thread that may wait for it. -/
structure Signals where
  /-- The flag {lit}`event`. -/
  event : Bool := false
  manager : ManagerAt := .leaving
deriving DecidableEq

/-- A step of one thread. -/
inductive SignalAction
  /-- A thread calls {lit}`set`. -/
  | set (thread : ℕ)
  /-- The Manager begins {lit}`_loop`. -/
  | startLoop
  /-- {lit}`_loop` raises. -/
  | raise
  /-- The Manager calls {lit}`wait`, up to {lit}`cond.wait` if the flag is down. -/
  | wait
  /-- The timeout of {lit}`cond.wait` is over. -/
  | expire
  /-- {lit}`cond.wait` has the lock again. -/
  | wake
deriving DecidableEq

namespace Signals

/-- The effect of a step; {lean}`none` if the thread is not there. -/
def step (s : Signals) : SignalAction → Option Signals
  | .set _ =>
      some { event := true
             manager := if s.manager = .blocked then .notified else s.manager }
  | .startLoop => if s.manager = .leaving then some { s with manager := .loop } else none
  | .raise => if s.manager = .loop then some { s with manager := .stopped } else none
  | .wait =>
      if s.manager = .loop then
        if s.event then some { event := false, manager := .leaving }
        else some { s with manager := .blocked }
      else none
  | .expire => if s.manager = .blocked then some { s with manager := .notified } else none
  | .wake =>
      if s.manager = .notified then some { event := false, manager := .leaving } else none

/-- Some thread has called {lit}`set`, and no {lit}`_loop` has begun since. -/
def Unanswered (as : List SignalAction) : Prop :=
  ∃ pre thread post, as = pre ++ .set thread :: post ∧ SignalAction.startLoop ∉ post

variable {s s' : Signals} {a : SignalAction} {as : List SignalAction}

/-- A set is answered by the beginning of a cycle only. -/
theorem unanswered_snoc :
    Unanswered (as ++ [a]) ↔ (∃ thread, a = .set thread) ∨ Unanswered as ∧ a ≠ .startLoop := by
  constructor
  · rintro ⟨pre, thread, post, heq, hpost⟩
    rcases List.eq_nil_or_concat post with rfl | ⟨front, last, rfl⟩
    · left
      obtain ⟨-, hlast⟩ := List.append_inj' heq rfl
      exact ⟨thread, List.singleton_inj.mp hlast⟩
    · right
      rw [List.concat_eq_append, ← List.cons_append, ← List.append_assoc] at heq
      obtain ⟨rfl, hlast⟩ := List.append_inj' heq rfl
      obtain rfl := List.singleton_inj.mp hlast
      rw [List.concat_eq_append, List.mem_append, not_or] at hpost
      exact ⟨⟨pre, thread, front, rfl, hpost.1⟩, fun h => hpost.2 (by simp [h])⟩
  · rintro (⟨thread, rfl⟩ | ⟨⟨pre, thread, post, rfl, hpost⟩, hne⟩)
    · exact ⟨as, thread, [], rfl, by simp⟩
    · refine ⟨pre, thread, post ++ [a], by simp, ?_⟩
      rw [List.mem_append, not_or, List.mem_singleton]
      exact ⟨hpost, Ne.symm hne⟩

/-- A sleeping Manager has seen the flag down, and an unanswered set has left a trace: the
flag is up, or the Manager is on its way to {lit}`_loop`. -/
structure Alert (as : List SignalAction) (s : Signals) : Prop where
  asleep : s.manager = .blocked → s.event = false
  trace : Unanswered as → s.event = true ∨ s.manager = .notified ∨ s.manager = .leaving

/-- Every step of every thread keeps this. -/
theorem Alert.step (h : Alert as s) (hstep : s.step a = some s') : Alert (as ++ [a]) s' := by
  obtain ⟨hasleep, htrace⟩ := h
  cases a with
  | set thread =>
      obtain rfl := Option.some.inj hstep
      constructor
      · intro hblocked
        simp only at hblocked
        split_ifs at hblocked with hbefore
        exact absurd hblocked hbefore
      · intro _
        exact .inl rfl
  | startLoop =>
      simp only [Signals.step] at hstep
      split_ifs at hstep
      obtain rfl := Option.some.inj hstep
      constructor
      · simp
      · intro hset
        simp [unanswered_snoc] at hset
  | raise =>
      simp only [Signals.step] at hstep
      split_ifs at hstep with hloop
      obtain rfl := Option.some.inj hstep
      constructor
      · simp
      · intro hset
        have hbefore := htrace ((unanswered_snoc.mp hset).resolve_left (by simp)).1
        simpa [hloop] using hbefore
  | wait =>
      simp only [Signals.step] at hstep
      split_ifs at hstep with hloop hevent
      · obtain rfl := Option.some.inj hstep
        exact ⟨by simp, fun _ => .inr (.inr rfl)⟩
      · obtain rfl := Option.some.inj hstep
        constructor
        · intro _
          simpa using hevent
        · -- with the flag down there was no unanswered set
          intro hset
          have hbefore := htrace ((unanswered_snoc.mp hset).resolve_left (by simp)).1
          simp [hloop, hevent] at hbefore
  | expire =>
      simp only [Signals.step] at hstep
      split_ifs at hstep
      obtain rfl := Option.some.inj hstep
      exact ⟨by simp, fun _ => .inr (.inl rfl)⟩
  | wake =>
      simp only [Signals.step] at hstep
      split_ifs at hstep
      obtain rfl := Option.some.inj hstep
      exact ⟨by simp, fun _ => .inr (.inr rfl)⟩

/-- It holds in every run. -/
theorem alert_of_path (hrun : Path step anyStep {} as s) : Alert as s := by
  induction hrun with
  | refl =>
      constructor
      · simp
      · rintro ⟨pre, thread, post, heq, -⟩
        simp at heq
  | snoc _ _ hstep ih => exact ih.step hstep

/-- After a set that no cycle has followed, the Manager is not asleep in {lit}`wait`: the
flag is up, or the Manager is about to return from there. -/
theorem no_lost_wakeup (hrun : Path step anyStep {} as s) (hset : Unanswered as) :
    s.manager ≠ .blocked ∧
      (s.event = true ∨ s.manager = .notified ∨ s.manager = .leaving) := by
  have halert := alert_of_path hrun
  refine ⟨fun hblocked => ?_, halert.trace hset⟩
  have htrace := halert.trace hset
  simp [hblocked, halert.asleep hblocked] at htrace

/-- Two sets arrive while the Manager sleeps and wakes up. -/
def twoSets : List SignalAction := [.startLoop, .wait, .set 1, .set 2, .wake, .set 3]

/-- The second and the third one are not lost. -/
theorem no_lost_wakeup_twoSets :
    ∃ s, execWithin step anyStep {} twoSets = some s ∧ s.manager ≠ .blocked := by
  have hrun : Path step anyStep {} twoSets
      ((execWithin step anyStep {} twoSets).get (by decide)) :=
    Path.of_execWithin (Option.some_get _).symm
  have hset : Unanswered twoSets :=
    ⟨[.startLoop, .wait], 1, [.set 2, .wake, .set 3], rfl, by decide⟩
  exact ⟨_, (Option.some_get _).symm, (no_lost_wakeup hrun hset).1⟩

end Signals

end Resalloc
