import Mathlib.Algebra.Order.Field.Basic
import Mathlib.Tactic.FieldSimp
import Mathlib.Tactic.Linarith
import Mathlib.Tactic.Positivity
import Mathlib.Tactic.Ring

/-!
# Exponential moving averages

A moving average keeps one number of a sequence of observations: the first observation as it is,
and then a blend of the number with each next observation.  This file gives the number after a whole
sequence, where it lies, and how fast it forgets.

Main results:

- Theorem {lit}`movingAverage_mem`: the average lies between the bounds of the observations.
- Theorem {lit}`movingAverage_append_replicate`: the distance to a new constant observation shrinks
  by the same factor each time.
- Theorems {lit}`movingAverage_le` and {lit}`le_movingAverage`: how near the average is to a bound
  that was met the last few times.
- Theorem {lit}`roundedAverage_near`: an average that is rounded each time stays near to the exact
  one, however long the sequence is.
-/

namespace Foundations

variable {K : Type} [Field K] (α : K)

/-- A moving average after one more observation. -/
def blend (average : Option K) (x : K) : K :=
  match average with
  | none => x
  | some y => α * x + (1 - α) * y

/-- The moving average of a sequence, oldest observation first. -/
def movingAverage (xs : List K) : Option K :=
  xs.foldl (fun average x => some (blend α average x)) none

theorem movingAverage_nil : movingAverage α ([] : List K) = none := rfl

/-- One more observation is blended in. -/
theorem movingAverage_snoc (xs : List K) (x : K) :
    movingAverage α (xs ++ [x]) = some (blend α (movingAverage α xs) x) := by
  rw [movingAverage, List.foldl_append]
  rfl

/-- Only an empty sequence has no average. -/
theorem movingAverage_eq_none {xs : List K} : movingAverage α xs = none ↔ xs = [] := by
  induction xs using List.reverseRecOn with
  | nil => simp [movingAverage_nil]
  | append_singleton xs x _ => simp [movingAverage_snoc]

/-- The distance to an observation that comes again and again shrinks by the same factor. -/
theorem movingAverage_append_replicate {xs : List K} {y : K} (h : movingAverage α xs = some y)
    (x : K) (n : ℕ) :
    movingAverage α (xs ++ List.replicate n x) = some (x + (1 - α) ^ n * (y - x)) := by
  induction n with
  | zero => simp [h]
  | succ n ih =>
      rw [List.replicate_succ', ← List.append_assoc, movingAverage_snoc, ih]
      simp only [blend, Option.some.injEq]
      ring

/-- An observation that was the only one is the average. -/
theorem movingAverage_replicate (x : K) (n : ℕ) :
    movingAverage α (List.replicate (n + 1) x) = some x := by
  have hfirst : movingAverage α [x] = some x := rfl
  have hrest := movingAverage_append_replicate α hfirst x n
  rw [List.replicate_succ]
  simpa using hrest

/-- A moving average after one more observation, with a rounding error. -/
def roundedBlend (error : K) (average : Option K) (x : K) : K :=
  match average with
  | none => x
  | some y => α * x + (1 - α) * y + error

/-- The moving average of a sequence of observations, each with the error of its step. -/
def roundedAverage (xs : List (K × K)) : Option K :=
  xs.foldl (fun average x => some (roundedBlend α x.2 average x.1)) none

/-- One more observation is blended in. -/
theorem roundedAverage_snoc (xs : List (K × K)) (x : K × K) :
    roundedAverage α (xs ++ [x]) = some (roundedBlend α x.2 (roundedAverage α xs) x.1) := by
  rw [roundedAverage, List.foldl_append]
  rfl

/-- Only an empty sequence has no average. -/
theorem roundedAverage_eq_none {xs : List (K × K)} : roundedAverage α xs = none ↔ xs = [] := by
  induction xs using List.reverseRecOn with
  | nil => simp [roundedAverage]
  | append_singleton xs x _ => simp [roundedAverage_snoc]

section Order

variable {α} [LinearOrder K] [IsStrictOrderedRing K] {xs : List K} {lo hi y : K}

/-- The average lies between the bounds of the observations. -/
theorem movingAverage_mem (hα : 0 ≤ α) (hα' : α ≤ 1) (h : ∀ x ∈ xs, lo ≤ x ∧ x ≤ hi)
    (hy : movingAverage α xs = some y) : lo ≤ y ∧ y ≤ hi := by
  induction xs using List.reverseRecOn generalizing y with
  | nil => simp [movingAverage_nil] at hy
  | append_singleton xs x ih =>
      rw [movingAverage_snoc, Option.some.injEq] at hy
      subst hy
      obtain ⟨hlo, hhi⟩ := h x (by simp)
      cases hold : movingAverage α xs with
      | none => exact ⟨hlo, hhi⟩
      | some z =>
          obtain ⟨hzlo, hzhi⟩ := ih (fun x hx => h x (List.mem_append_left _ hx)) hold
          have hβ : 0 ≤ 1 - α := sub_nonneg.mpr hα'
          constructor
          · calc lo = α * lo + (1 - α) * lo := by ring
              _ ≤ α * x + (1 - α) * z :=
                add_le_add (mul_le_mul_of_nonneg_left hlo hα) (mul_le_mul_of_nonneg_left hzlo hβ)
          · calc α * x + (1 - α) * z ≤ α * hi + (1 - α) * hi :=
                add_le_add (mul_le_mul_of_nonneg_left hhi hα) (mul_le_mul_of_nonneg_left hzhi hβ)
              _ = hi := by ring

/-- How far the average is from an observation that was made the last few times. -/
theorem movingAverage_suffix (hα : 0 ≤ α) (hα' : α ≤ 1) (h : ∀ x ∈ xs, lo ≤ x ∧ x ≤ hi) {x : K}
    {n : ℕ} (hx : lo ≤ x ∧ x ≤ hi) (hy : movingAverage α (xs ++ List.replicate n x) = some y) :
    ∃ z, lo ≤ z ∧ z ≤ hi ∧ y = x + (1 - α) ^ n * (z - x) := by
  cases hold : movingAverage α xs with
  | some z =>
      obtain ⟨hlo, hhi⟩ := movingAverage_mem hα hα' h hold
      rw [movingAverage_append_replicate α hold, Option.some.injEq] at hy
      exact ⟨z, hlo, hhi, hy.symm⟩
  | none =>
      obtain rfl := (movingAverage_eq_none α).mp hold
      refine ⟨x, hx.1, hx.2, ?_⟩
      cases n with
      | zero => simp [movingAverage_nil] at hy
      | succ n =>
          rw [List.nil_append, movingAverage_replicate, Option.some.injEq] at hy
          rw [sub_self, mul_zero, add_zero, hy]

/-- After the lowest observation again and again, the average is near to it. -/
theorem movingAverage_le (hα : 0 ≤ α) (hα' : α ≤ 1) (h : ∀ x ∈ xs, lo ≤ x ∧ x ≤ hi) {n : ℕ}
    (hle : lo ≤ hi) (hy : movingAverage α (xs ++ List.replicate n lo) = some y) :
    y ≤ lo + (1 - α) ^ n * (hi - lo) := by
  obtain ⟨z, -, hz, rfl⟩ := movingAverage_suffix hα hα' h ⟨le_refl lo, hle⟩ hy
  have hpow : 0 ≤ (1 - α) ^ n := pow_nonneg (sub_nonneg.mpr hα') n
  exact add_le_add_right (mul_le_mul_of_nonneg_left (sub_le_sub_right hz lo) hpow) lo

/-- After the highest observation again and again, the average is near to it. -/
theorem le_movingAverage (hα : 0 ≤ α) (hα' : α ≤ 1) (h : ∀ x ∈ xs, lo ≤ x ∧ x ≤ hi) {n : ℕ}
    (hle : lo ≤ hi) (hy : movingAverage α (xs ++ List.replicate n hi) = some y) :
    hi - (1 - α) ^ n * (hi - lo) ≤ y := by
  obtain ⟨z, hz, -, rfl⟩ := movingAverage_suffix hα hα' h ⟨hle, le_refl hi⟩ hy
  have hpow : 0 ≤ (1 - α) ^ n := pow_nonneg (sub_nonneg.mpr hα') n
  have hshrunk : (1 - α) ^ n * (hi - z) ≤ (1 - α) ^ n * (hi - lo) :=
    mul_le_mul_of_nonneg_left (sub_le_sub_left hz hi) hpow
  calc hi - (1 - α) ^ n * (hi - lo) ≤ hi - (1 - α) ^ n * (hi - z) := sub_le_sub_left hshrunk hi
    _ = hi + (1 - α) ^ n * (z - hi) := by ring

/-- If no step has an error above {lit}`α * ε`, the rounded average is within {lit}`ε` of the exact
one: what is left of the older errors shrinks as fast as a new one may come. -/
theorem roundedAverage_near {xs : List (K × K)} {ε : K} (hα : 0 < α) (hα' : α ≤ 1)
    (h : ∀ x ∈ xs, |x.2| ≤ α * ε) (hy : roundedAverage α xs = some y) :
    ∃ z, movingAverage α (xs.map Prod.fst) = some z ∧ |y - z| ≤ ε := by
  induction xs using List.reverseRecOn generalizing y with
  | nil => simp [roundedAverage] at hy
  | append_singleton xs x ih =>
      rw [roundedAverage_snoc, Option.some.injEq] at hy
      subst hy
      rw [List.map_append, List.map_singleton, movingAverage_snoc]
      refine ⟨_, rfl, ?_⟩
      have herror := h x (by simp)
      cases hold : roundedAverage α xs with
      | none =>
          obtain rfl := (roundedAverage_eq_none α).mp hold
          have hε : 0 ≤ ε := (mul_nonneg_iff_of_pos_left hα).mp ((abs_nonneg _).trans herror)
          simpa [roundedBlend, blend, movingAverage] using hε
      | some v =>
          obtain ⟨z, hz, hnear⟩ := ih (fun x hx => h x (List.mem_append_left _ hx)) hold
          have hβ : 0 ≤ 1 - α := sub_nonneg.mpr hα'
          rw [hz]
          simp only [roundedBlend, blend]
          calc |α * x.1 + (1 - α) * v + x.2 - (α * x.1 + (1 - α) * z)|
              = |(1 - α) * (v - z) + x.2| := by ring_nf
            _ ≤ |(1 - α) * (v - z)| + |x.2| := abs_add_le _ _
            _ = (1 - α) * |v - z| + |x.2| := by rw [abs_mul, abs_of_nonneg hβ]
            _ ≤ (1 - α) * ε + α * ε := by gcongr
            _ = ε := by ring

end Order

end Foundations
