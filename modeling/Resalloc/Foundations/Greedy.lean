import Mathlib.Order.Basic

/-!
# Greedy matching

Requests are served one after another.  Each takes the best of the offers that fit it,
which changes the state, and a request that no offer fits goes away with nothing.

Main results:

- Definition {lit}`IsBest`: the greatest score, and the least offer among equals.
- Definition {lit}`Serves`: the requests in their order, each with what it got.
- Theorem {lit}`Serves.nothing_left`: no offer that is left fits a request that got nothing,
  if serving a request never makes an offer fit another one.
-/

namespace Foundations

variable {σ τ β γ : Type}

/-! ## The best offer -/

/-- The offer fits, and every other one has a lower score, or the same score and comes
later. -/
def IsBest [LT γ] [LE β] (fits : β → Prop) (score : β → γ) (b : β) : Prop :=
  fits b ∧ ∀ b', fits b' → score b' < score b ∨ score b' = score b ∧ b ≤ b'

/-! ## Serving requests -/

variable [LT γ] [LE β]

/-- The requests are served in their order: what each got, and the state after the last
one. -/
inductive Serves (fits : σ → τ → β → Prop) (score : σ → τ → β → γ) (give : σ → τ → β → σ → Prop) :
    σ → List τ → List (τ × Option β) → σ → Prop
  | nil (s) : Serves fits score give s [] [] s
  | give {s s' s'' t ts b served} : IsBest (fits s t) (score s t) b → give s t b s' →
      Serves fits score give s' ts served s'' →
      Serves fits score give s (t :: ts) ((t, some b) :: served) s''
  | skip {s s' t ts served} : (∀ b, ¬ fits s t b) → Serves fits score give s ts served s' →
      Serves fits score give s (t :: ts) ((t, none) :: served) s'

namespace Serves

variable {fits : σ → τ → β → Prop} {score : σ → τ → β → γ} {give : σ → τ → β → σ → Prop}
variable {s s' : σ} {ts : List τ} {served : List (τ × Option β)}

/-- A request that is still open at the end was open, and whatever fits it has fitted it
before, if serving a request opens none and makes no offer fit an open one. -/
theorem open_before (h : Serves fits score give s ts served s') {isOpen : σ → τ → Prop}
    (hgive : ∀ u t b v, fits u t b → give u t b v →
      ∀ t', isOpen v t' → isOpen u t' ∧ ∀ b', fits v t' b' → fits u t' b')
    {t : τ} (hleft : isOpen s' t) : isOpen s t ∧ ∀ b, fits s' t b → fits s t b := by
  induction h with
  | nil => exact ⟨hleft, fun _ hb => hb⟩
  | give hbest hnext _ ih =>
      obtain ⟨hopen, hkept⟩ := ih hleft
      obtain ⟨hopen', hfits⟩ := hgive _ _ _ _ hbest.1 hnext t hopen
      exact ⟨hopen', fun b hb => hfits b (hkept b hb)⟩
  | skip _ _ ih => exact ih hleft

/-- Such a request got nothing, and fits no offer that is left, if serving a request also
closes it. -/
theorem nothing_left (h : Serves fits score give s ts served s') {isOpen : σ → τ → Prop}
    (hgive : ∀ u t b v, fits u t b → give u t b v →
      ∀ t', isOpen v t' → isOpen u t' ∧ ∀ b', fits v t' b' → fits u t' b')
    (hclose : ∀ u t b v, fits u t b → give u t b v → ¬ isOpen v t)
    {t : τ} (ht : t ∈ ts) (hleft : isOpen s' t) : (t, none) ∈ served ∧ ∀ b, ¬ fits s' t b := by
  induction h with
  | nil => contradiction
  | give hbest hnext hrest ih =>
      obtain rfl | ht := List.mem_cons.mp ht
      · exact absurd (hrest.open_before hgive hleft).1 (hclose _ _ _ _ hbest.1 hnext)
      · exact (ih ht hleft).imp_left (List.mem_cons_of_mem _)
  | skip hnone hrest ih =>
      obtain rfl | ht := List.mem_cons.mp ht
      · exact ⟨List.mem_cons_self, fun b hb => hnone b ((hrest.open_before hgive hleft).2 b hb)⟩
      · exact (ih ht hleft).imp_left (List.mem_cons_of_mem _)

end Serves

end Foundations
