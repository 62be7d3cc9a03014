import Mathlib.Data.List.Basic

/-!
# Trying a list until a quota is met

A loop goes through a list and tries its elements.  It stops as soon as a given number of
them has accepted.

Main results:

- Theorem {lit}`filter_untilQuota`: who accepts.
- Theorem {lit}`forall_mem_untilQuota_iff`: when only elements of one kind are tried.
- Theorem {lit}`min_countP_of_forall_mem`: how many accept then.
-/

namespace Foundations

variable {α : Type} (accepts : α → Bool)

/-- The elements that are tried until {lit}`quota` of them have accepted. -/
def untilQuota : ℕ → List α → List α
  | 0, _ => []
  | _ + 1, [] => []
  | quota + 1, x :: xs =>
      x :: untilQuota (if accepts x then quota else quota + 1) xs

variable {accepts}

/-- No element is tried for an empty quota. -/
@[simp]
theorem untilQuota_zero (xs : List α) : untilQuota accepts 0 xs = [] := by
  cases xs <;> rfl

/-- Only elements of the list are tried. -/
theorem untilQuota_sublist (quota : ℕ) (xs : List α) :
    (untilQuota accepts quota xs).Sublist xs := by
  induction xs generalizing quota with
  | nil => cases quota <;> exact List.Sublist.refl _
  | cons x xs ih =>
      cases quota with
      | zero => exact List.nil_sublist _
      | succ quota => exact (ih _).cons_cons x

/-- Those that accept are the first ones of the list that do. -/
theorem filter_untilQuota (quota : ℕ) (xs : List α) :
    (untilQuota accepts quota xs).filter accepts = (xs.filter accepts).take quota := by
  induction xs generalizing quota with
  | nil => cases quota <;> simp [untilQuota]
  | cons x xs ih =>
      cases quota with
      | zero => simp
      | succ quota =>
          rw [untilQuota]
          by_cases hx : accepts x = true
          · simp [hx, ih]
          · simp [hx, ih]

/-- Only elements of one kind are tried if and only if every other element comes after
enough elements of this kind that accept. -/
theorem forall_mem_untilQuota_iff {own : α → Bool} (quota : ℕ) (xs : List α) :
    (∀ x ∈ untilQuota accepts quota xs, own x = true) ↔
      ∀ before x after, xs = before ++ x :: after → own x = false →
        quota ≤ before.countP fun y => own y && accepts y := by
  induction xs generalizing quota with
  | nil => cases quota <;> simp [untilQuota]
  | cons y ys ih =>
      cases quota with
      | zero => simp
      | succ quota =>
          rw [untilQuota, List.forall_mem_cons, ih]
          constructor
          · rintro ⟨hy, hys⟩ before x after hsplit hx
            cases before with
            | nil =>
                obtain ⟨rfl, -⟩ := List.cons.inj hsplit
                rw [hx] at hy
                contradiction
            | cons z before =>
                obtain ⟨rfl, hrest⟩ := List.cons.inj hsplit
                have hbefore := hys before x after hrest hx
                rw [List.countP_cons, hy, Bool.true_and]
                split_ifs at hbefore ⊢ <;> omega
          · intro h
            have hy : own y = true := by
              by_contra hnot
              have hnone := h [] y ys rfl (by simpa using hnot)
              simp at hnone
            refine ⟨hy, fun before x after hsplit hx => ?_⟩
            have hbefore := h (y :: before) x after (by rw [hsplit]; rfl) hx
            rw [List.countP_cons, hy, Bool.true_and] at hbefore
            split_ifs at hbefore ⊢ <;> omega

/-- If only elements of one kind are tried, as many accept as there are elements of this
kind that accept, up to the quota. -/
theorem min_countP_of_forall_mem {own : α → Bool} {quota : ℕ} {xs : List α}
    (h : ∀ x ∈ untilQuota accepts quota xs, own x = true) :
    min quota (xs.countP accepts) = min quota (xs.countP fun x => own x && accepts x) := by
  induction xs generalizing quota with
  | nil => rfl
  | cons x xs ih =>
      cases quota with
      | zero => simp
      | succ quota =>
          rw [untilQuota, List.forall_mem_cons] at h
          obtain ⟨hx, hxs⟩ := h
          have htail := ih hxs
          rw [List.countP_cons, List.countP_cons, hx, Bool.true_and]
          split_ifs at htail ⊢ <;> omega

end Foundations
