import Mathlib.Data.Multiset.Count
import Mathlib.Data.Multiset.Filter
import Mathlib.Data.Multiset.MapFold
import Mathlib.Order.Bounds.Defs

/-!
# Filling slots first fit

Requests come one after another, and each takes the least free slot it may use.
Slots of one kind are interchangeable, so the free slots are a multiset of kinds.
First fit may leave a slot free that some choice of requests would have filled;
it does not when the requests are nested.

Main results:

- Definition {lit}`Fillable`: some choice of requests fills all slots.
- Definition {lit}`Nested`: what an earlier request may take from a later one.
- Theorem {lit}`Fillable.take`: the exchange step.
- Theorem {lit}`FirstFit.saturates`: nested requests fill all slots first fit, if any
  choice of requests fills them.
- Theorem {lit}`FirstFit.count_lt`: a request is left only if there are fewer slots of every
  kind it may use than requests for them.
- Theorem {lit}`FirstFit.extend`: slots added for requests that got none are filled
  together with the old ones.
-/

namespace Foundations

variable {τ β : Type} {usable : τ → β → Prop}

/-! ## Choices that fill all slots -/

/-- Some requests can be given different slots that they may use, so that all slots
are filled. -/
def Fillable (usable : τ → β → Prop) (slots : Multiset β) (requests : Multiset τ) : Prop :=
  ∃ m : Multiset (τ × β), (∀ e ∈ m, usable e.1 e.2) ∧ m.map Prod.fst ≤ requests ∧
    slots ≤ m.map Prod.snd

namespace Fillable

variable {slots slots' : Multiset β} {requests requests' : Multiset τ}

/-- Fewer slots are filled by more requests. -/
theorem mono (h : Fillable usable slots requests) (hslots : slots' ≤ slots)
    (hrequests : requests ≤ requests') : Fillable usable slots' requests' := by
  obtain ⟨m, husable, hfst, hsnd⟩ := h
  exact ⟨m, husable, hfst.trans hrequests, hslots.trans hsnd⟩

/-- There are no more slots than requests. -/
theorem card_le (h : Fillable usable slots requests) :
    Multiset.card slots ≤ Multiset.card requests := by
  obtain ⟨m, -, hfst, hsnd⟩ := h
  calc Multiset.card slots
      ≤ Multiset.card (m.map Prod.snd) := Multiset.card_le_card hsnd
    _ = Multiset.card (m.map Prod.fst) := by simp
    _ ≤ Multiset.card requests := Multiset.card_le_card hfst

variable {t : τ} {b : β}

/-- A choice that may use one more request uses it in one slot or not at all. -/
theorem cons_cases {m : Multiset (τ × β)} (hfst : m.map Prod.fst ≤ t ::ₘ requests) :
    m.map Prod.fst ≤ requests ∨
      ∃ b m', m = (t, b) ::ₘ m' ∧ m'.map Prod.fst ≤ requests := by
  by_cases ht : t ∈ m.map Prod.fst
  · obtain ⟨⟨_, b⟩, he, rfl⟩ := Multiset.mem_map.mp ht
    obtain ⟨m', rfl⟩ := Multiset.exists_cons_of_mem he
    refine .inr ⟨b, m', rfl, ?_⟩
    simpa using hfst
  · exact .inl ((Multiset.le_cons_of_notMem ht).mp hfst)

/-- A request that may use none of the slots is not needed. -/
theorem leave (h : Fillable usable slots (t ::ₘ requests)) (hnone : ∀ b ∈ slots, ¬ usable t b) :
    Fillable usable slots requests := by
  obtain ⟨m, husable, hfst, hsnd⟩ := h
  rcases cons_cases hfst with hrest | ⟨b, m', rfl, hrest⟩
  · exact ⟨m, husable, hrest, hsnd⟩
  · have hb : b ∉ slots := fun hmem => hnone b hmem (husable (t, b) (Multiset.mem_cons_self _ _))
    rw [Multiset.map_cons] at hsnd
    exact ⟨m', fun e he => husable e (Multiset.mem_cons_of_mem he), hrest,
      (Multiset.le_cons_of_notMem hb).mp hsnd⟩

variable [DecidableEq β]

/-- The exchange step: a request may take a slot if every later request that may use
that slot could use the others instead. -/
theorem take (h : Fillable usable slots (t ::ₘ requests)) (hb : b ∈ slots)
    (hexchange : ∀ q ∈ slots, usable t q → ∀ t' ∈ requests, usable t' b → usable t' q) :
    Fillable usable (slots.erase b) requests := by
  obtain ⟨m, husable, hfst, hsnd⟩ := h
  rcases cons_cases hfst with hrest | ⟨q, m', rfl, hrest⟩
  · exact ⟨m, husable, hrest, (Multiset.erase_le b slots).trans hsnd⟩
  · have husable' : ∀ e ∈ m', usable e.1 e.2 := fun e he => husable e (Multiset.mem_cons_of_mem he)
    rw [Multiset.map_cons] at hsnd
    by_cases hq : q ∈ slots
    · by_cases hqb : q = b
      · subst hqb
        exact ⟨m', husable', hrest, Multiset.erase_le_iff_le_cons.mpr hsnd⟩
      · -- another request fills the taken slot: it moves to the slot given up for it
        have hmem : b ∈ m'.map Prod.snd := by
          rcases Multiset.mem_cons.mp (Multiset.mem_of_le hsnd hb) with heq | hmem
          · exact absurd heq.symm hqb
          · exact hmem
        obtain ⟨⟨t', _⟩, he, rfl⟩ := Multiset.mem_map.mp hmem
        obtain ⟨m'', rfl⟩ := Multiset.exists_cons_of_mem he
        have ht' : t' ∈ requests := Multiset.mem_of_le hrest (by simp)
        have hmove : usable t' q := hexchange q hq (husable (t, q) (Multiset.mem_cons_self _ _)) t'
          ht' (husable' _ he)
        refine ⟨(t', q) ::ₘ m'', ?_, by simpa using hrest, ?_⟩
        · intro e he
          rcases Multiset.mem_cons.mp he with rfl | he
          · exact hmove
          · exact husable' e (Multiset.mem_cons_of_mem he)
        · rw [Multiset.erase_le_iff_le_cons, Multiset.map_cons, Multiset.cons_swap]
          simpa using hsnd
    · exact ⟨m', husable', hrest,
        (Multiset.erase_le b slots).trans ((Multiset.le_cons_of_notMem hq).mp hsnd)⟩

end Fillable

/-! ## First fit -/

/-- Requests served first fit: the pairs of requests and slots, the requests that got
none, and the slots that stay free. -/
inductive FirstFit [DecidableEq β] [LE β] (usable : τ → β → Prop) :
    Multiset β → List τ → Multiset (τ × β) → List τ → Multiset β → Prop
  | nil (slots) : FirstFit usable slots [] 0 [] slots
  | take {slots b t requests taken left free} : IsLeast {q | q ∈ slots ∧ usable t q} b →
      FirstFit usable (slots.erase b) requests taken left free →
      FirstFit usable slots (t :: requests) ((t, b) ::ₘ taken) left free
  | leave {slots t requests taken left free} : (∀ q ∈ slots, ¬ usable t q) →
      FirstFit usable slots requests taken left free →
      FirstFit usable slots (t :: requests) taken (t :: left) free

/-- A later request may use every slot that an earlier one may use, or that slot comes
before the slots they share. -/
def Nested [LT β] (usable : τ → β → Prop) (slots : Multiset β) (t t' : τ) : Prop :=
  ∀ p ∈ slots, ∀ q ∈ slots, usable t p → usable t' p → usable t q → usable t' q ∨ q < p

namespace FirstFit

variable [LinearOrder β] {slots free : Multiset β} {requests left : List τ}
variable {taken : Multiset (τ × β)}

/-- Every request is served or left. -/
theorem requests_eq (h : FirstFit usable slots requests taken left free) :
    taken.map Prod.fst + left = (requests : Multiset τ) := by
  induction h with
  | nil => rfl
  | take _ _ ih => rw [Multiset.map_cons, Multiset.cons_add, ih, Multiset.cons_coe]
  | leave _ _ ih =>
      rw [← Multiset.cons_coe, Multiset.add_cons, ih, Multiset.cons_coe]

/-- Every slot is filled or stays free. -/
theorem slots_eq (h : FirstFit usable slots requests taken left free) :
    taken.map Prod.snd + free = slots := by
  induction h with
  | nil => simp
  | take hleast _ ih =>
      rw [Multiset.map_cons, Multiset.cons_add, ih, Multiset.cons_erase hleast.1.1]
  | leave _ _ ih => exact ih

/-- Requests get slots that they may use. -/
theorem taken_usable (h : FirstFit usable slots requests taken left free) :
    ∀ e ∈ taken, usable e.1 e.2 := by
  induction h with
  | nil => simp
  | take hleast _ ih =>
      intro e he
      rcases Multiset.mem_cons.mp he with rfl | he
      · exact hleast.1.2
      · exact ih e he
  | leave _ _ ih => exact ih

/-- A request that is left may use none of the slots that stay free. -/
theorem left_unusable (h : FirstFit usable slots requests taken left free) :
    ∀ t ∈ left, ∀ b ∈ free, ¬ usable t b := by
  induction h with
  | nil => simp
  | take _ _ ih => exact ih
  | leave hnone hfit ih =>
      intro t ht b hb
      rcases List.mem_cons.mp ht with rfl | ht
      · apply hnone
        rw [← hfit.slots_eq]
        exact Multiset.mem_add.mpr (.inr hb)
      · exact ih t ht b hb

/-- There are fewer slots of a kind than requests that may use them, if one of these
requests is left. -/
theorem count_lt [DecidableRel usable] (h : FirstFit usable slots requests taken left free)
    {t : τ} {b : β} (ht : t ∈ left) (husable : usable t b) :
    slots.count b < requests.countP fun t => usable t b := by
  have hfree : free.count b = 0 :=
    Multiset.count_eq_zero.mpr fun hb => h.left_unusable t ht b hb husable
  have htaken : (taken.map Prod.snd).count b ≤
      (taken.map Prod.fst).countP fun t => usable t b := by
    rw [Multiset.count, Multiset.countP_map, Multiset.countP_map]
    apply Multiset.card_le_card
    apply Multiset.le_filter.mpr
    constructor
    · exact Multiset.filter_le _ _
    · intro e he
      obtain ⟨hmem, hb⟩ := Multiset.mem_filter.mp he
      rw [hb]
      exact h.taken_usable e hmem
  have hleft : 0 < left.countP fun t => usable t b :=
    List.countP_pos_iff.mpr ⟨t, ht, by simpa using husable⟩
  have hrequests := congrArg (Multiset.countP fun t => usable t b) h.requests_eq
  rw [Multiset.countP_add, Multiset.coe_countP, Multiset.coe_countP] at hrequests
  rw [← h.slots_eq, Multiset.count_add, hfree]
  omega

/-- Nested requests fill all slots first fit, if any choice of requests fills them. -/
theorem saturates (h : FirstFit usable slots requests taken left free)
    (hfill : Fillable usable slots requests)
    (hnested : requests.Pairwise (Nested usable slots)) : free = 0 := by
  induction h with
  | nil slots => exact Multiset.card_eq_zero.mp (Nat.le_zero.mp hfill.card_le)
  | @take slots b t requests taken left free hleast _ ih =>
      obtain ⟨hfirst, hrest⟩ := List.pairwise_cons.mp hnested
      refine ih (Fillable.take hfill hleast.1.1 fun q hq htq t' ht' hb => ?_) ?_
      · rcases hfirst t' ht' b hleast.1.1 q hq hleast.1.2 hb htq with husable | hlt
        · exact husable
        · exact absurd hlt (not_lt.mpr (hleast.2 ⟨hq, htq⟩))
      · exact hrest.imp fun hsome p hp q hq =>
          hsome p (Multiset.mem_of_mem_erase hp) q (Multiset.mem_of_mem_erase hq)
  | leave hnone _ ih =>
      exact ih (Fillable.leave hfill hnone) (List.pairwise_cons.mp hnested).2

/-- If no slot stays free, slots that are added for requests that got none are filled
together with the old ones. -/
theorem extend (h : FirstFit usable slots requests taken left 0) {added : Multiset (τ × β)}
    (husable : ∀ e ∈ added, usable e.1 e.2) (hleft : added.map Prod.fst ≤ left) :
    Fillable usable (slots + added.map Prod.snd) requests := by
  refine ⟨taken + added, fun e he => ?_, ?_, ?_⟩
  · exact (Multiset.mem_add.mp he).elim (h.taken_usable e) (husable e)
  · rw [Multiset.map_add, ← h.requests_eq]
    exact Multiset.add_le_add_left hleft
  · rw [Multiset.map_add, ← h.slots_eq, Multiset.add_zero]

end FirstFit

end Foundations
