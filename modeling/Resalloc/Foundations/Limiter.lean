import Mathlib.Algebra.Order.Monoid.Unbundled.Basic
import Mathlib.Data.List.Chain
import Mathlib.Order.Defs.PartialOrder
import Resalloc.Foundations.Runs

/-!
# Limiters

A limiter keeps the firings of a system apart: the time of the last firing is stored, a test
compares it with the clock, and the system fires only after a test that succeeded.  This file
says what a step may do to a limiter, and derives how far the firings of a run are apart when
the clock does not go back.

Main results:

- Theorem {lit}`Limiter.Spaced.step`: one step keeps the firings apart.
- Theorem {lit}`Limiter.spaced`: the firings of a run are apart.
- Theorem {lit}`Limiter.span`: how long a number of firings takes.
-/

namespace Foundations

/-- Where a system keeps the parts of a limiter. -/
structure Limiter (State Action τ : Type) where
  /-- The clock reading of an action. -/
  clock : Action → Option τ
  /-- The time of the firing that an action makes. -/
  fires : State → Action → Option τ
  /-- The stored time. -/
  last : State → Option τ
  /-- The test has succeeded. -/
  Armed : State → Prop

namespace Limiter

variable {State Action τ : Type} [Preorder τ] [Add τ]
variable {l : Limiter State Action τ} {delay : τ} {s t : State} {a : Action}

/-- What a step may do to a limiter. -/
inductive Steps (l : Limiter State Action τ) (delay : τ) (s : State) (a : Action) (t : State) :
    Prop
  /-- The system fires once, and the time is stored. -/
  | fire {now : τ} : l.fires s a = some now → l.clock a = some now → l.Armed s →
      l.last t = some now → ¬ l.Armed t → Steps l delay s a t
  /-- The test finds that the last firing is long enough ago. -/
  | arm {now : τ} : l.fires s a = none → l.clock a = some now →
      (∀ time ∈ l.last s, time + delay ≤ now) → (∀ time ∈ l.last s, l.last t = some time) →
      Steps l delay s a t
  | keep : l.fires s a = none → (l.Armed t → l.Armed s) →
      (∀ time ∈ l.last s, l.last t = some time) → Steps l delay s a t

/-- Only firings change a stored time. -/
theorem Steps.last_kept (h : l.Steps delay s a t) (hfires : l.fires s a = none) :
    ∀ time ∈ l.last s, l.last t = some time := by
  cases h with
  | fire hfire => simp [hfires] at hfire
  | arm _ _ _ hkept => exact hkept
  | keep _ _ hkept => exact hkept

/-- After a run with these firings and these clock readings, the firings are apart, and
whatever was tested was tested against the last one. -/
structure Spaced (l : Limiter State Action τ) (delay : τ) (fired readings : List τ) (s : State) :
    Prop where
  apart : fired.IsChain fun time next => time + delay ≤ next
  stored : ∀ time ∈ fired.getLast?, l.last s = some time
  tested : l.Armed s → ∃ now ∈ readings, ∀ time ∈ fired.getLast?, time + delay ≤ now

/-- A step keeps the firings apart, if its clock reading is not earlier than those before. -/
theorem Spaced.step {fired readings : List τ} (h : l.Spaced delay fired readings s)
    (hstep : l.Steps delay s a t)
    (hclock : ∀ now ∈ l.clock a, ∀ before ∈ readings, before ≤ now) :
    l.Spaced delay (fired ++ (l.fires s a).toList) (readings ++ (l.clock a).toList) t := by
  cases hstep with
  | @fire now hfires hnow harmed hlast hdone =>
      obtain ⟨before, hbefore, htested⟩ := h.tested harmed
      rw [hfires]
      constructor
      · apply List.isChain_append.mpr
        refine ⟨h.apart, List.isChain_singleton _, ?_⟩
        intro time htime next hnext
        obtain rfl : now = next := by simpa using hnext
        calc time + delay ≤ before := htested time htime
          _ ≤ now := hclock now hnow before hbefore
      · intro time htime
        obtain rfl : now = time := by simpa using htime
        exact hlast
      · exact fun harmed => absurd harmed hdone
  | @arm now hfires hnow htested hkept =>
      rw [hfires, hnow, Option.toList_none, List.append_nil]
      constructor
      · exact h.apart
      · exact fun time htime => hkept time (h.stored time htime)
      · intro _
        refine ⟨now, by simp, ?_⟩
        exact fun time htime => htested time (h.stored time htime)
  | keep hfires harmed hkept =>
      rw [hfires, Option.toList_none, List.append_nil]
      constructor
      · exact h.apart
      · exact fun time htime => hkept time (h.stored time htime)
      · intro hnext
        obtain ⟨now, hnow, htested⟩ := h.tested (harmed hnext)
        exact ⟨now, List.mem_append_left _ hnow, htested⟩

/-- The firings of a run are apart, if the clock does not go back and every step handles the
limiter as it may. -/
theorem spaced {step : State → Action → Option State} {ok : State → Action → Prop}
    {as : List Action} (hrun : Path step ok s as t) (hstart : ¬ l.Armed s)
    (hstep : ∀ {bs u a v}, Path step ok s bs u → ok u a → step u a = some v →
      l.Steps delay u a v)
    (hclock : (as.filterMap l.clock).Pairwise (· ≤ ·)) :
    l.Spaced delay (observe l.fires step s as) (as.filterMap l.clock) t := by
  induction hrun with
  | refl => exact ⟨.nil, by simp [observe], fun harmed => absurd harmed hstart⟩
  | @snoc as t u a hprev hok hnext ih =>
      have hreadings : (as ++ [a]).filterMap l.clock =
          as.filterMap l.clock ++ (l.clock a).toList := by
        cases hnow : l.clock a <;> simp [hnow]
      rw [hreadings] at hclock ⊢
      rw [hprev.observe_snoc l.fires hnext]
      obtain ⟨hbefore, -, hlater⟩ := List.pairwise_append.mp hclock
      apply (ih hbefore).step (hstep hprev hok hnext)
      intro now hnow before hmem
      exact hlater before hmem now (by simpa using hnow)

/-- Times that are apart by a delay span that delay once for each step from the first one to the
last one. -/
theorem span {τ : Type} [AddCommMonoid τ] [Preorder τ] [AddRightMono τ] {delay first last : τ}
    {times : List τ} (h : (first :: times).IsChain fun time next => time + delay ≤ next)
    (hlast : (first :: times).getLast? = some last) : first + times.length • delay ≤ last := by
  induction times generalizing first with
  | nil =>
      obtain rfl : first = last := by simpa using hlast
      simp
  | cons next times ih =>
      obtain ⟨hnext, htimes⟩ := List.isChain_cons_cons.mp h
      rw [List.getLast?_cons_cons] at hlast
      calc first + (next :: times).length • delay
          = first + delay + times.length • delay := by
            rw [List.length_cons, succ_nsmul', add_assoc]
        _ ≤ next + times.length • delay := add_le_add_left hnext _
        _ ≤ last := ih htimes hlast

end Limiter

end Foundations
