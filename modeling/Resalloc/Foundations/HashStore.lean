import Mathlib.Data.List.AList
import Mathlib.Data.List.Perm.Subperm

/-!
# A store of records under keys

A key that is not in the store reads as the empty record, and a write to it makes it
exist.  This is how a server that stores hashes treats their fields.

Main results:

- Theorems {lit}`read_write` and {lit}`mem_write`: the effect of a write on every key.
- Theorems {lit}`count_le` and {lit}`count_le_succ`: comparing the number of records
  with a property before and after a write, key by key.
-/

namespace Foundations

/-- Records under different keys. -/
abbrev HashStore (κ ρ : Type) := AList fun _ : κ => ρ

namespace HashStore

variable {κ ρ : Type} [DecidableEq κ] [Inhabited ρ]

/-! ## Operations -/

/-- The record under a key, or the empty one. -/
def read (s : HashStore κ ρ) (k : κ) : ρ := (s.lookup k).getD default

/-- Rewrite the record under a key, which exists afterwards. -/
def write (s : HashStore κ ρ) (k : κ) (f : ρ → ρ) : HashStore κ ρ := s.insert k (f (s.read k))

/-- Number of keys whose record has a property. -/
def count (s : HashStore κ ρ) (p : ρ → Bool) : ℕ := s.keys.countP fun k => p (s.read k)

/-! ## Reading after a write -/

variable {s s' : HashStore κ ρ} {k j : κ} {f : ρ → ρ} {p q : ρ → Bool}

/-- A write changes exactly the record it names. -/
theorem read_write (s : HashStore κ ρ) (k : κ) (f : ρ → ρ) (j : κ) :
    (s.write k f).read j = if j = k then f (s.read k) else s.read j := by
  split_ifs with hj
  · subst hj
    simp [write, read]
  · simp [write, read, AList.lookup_insert_ne hj]

/-- Only the written key can become visible by a write. -/
@[simp]
theorem mem_write : j ∈ s.write k f ↔ j = k ∨ j ∈ s :=
  AList.mem_insert s

/-- A deleted record reads as the empty one. -/
theorem read_erase (s : HashStore κ ρ) (k j : κ) :
    HashStore.read (s.erase k) j = if j = k then default else s.read j := by
  split_ifs with hj
  · subst hj
    simp [read]
  · simp [read, AList.lookup_erase_ne hj]

/-- A key without a record reads as the empty one. -/
theorem read_of_notMem (h : k ∉ s) : s.read k = default := by
  rw [read, AList.lookup_eq_none.mpr h, Option.getD_none]

/-- A field that a write keeps is the same in every record. -/
theorem read_write_field {β : Type} (field : ρ → β) (hfield : ∀ r, field (f r) = field r) (j : κ) :
    field ((s.write k f).read j) = field (s.read j) := by
  rw [read_write]
  split_ifs with hj
  · rw [hfield, hj]
  · rfl

/-! ## Counting -/

/-- If every counted record is counted afterwards, the count did not shrink. -/
theorem count_le (h : ∀ k ∈ s, p (s.read k) = true → k ∈ s' ∧ q (s'.read k) = true) :
    s.count p ≤ s'.count q := by
  simp only [count, List.countP_eq_length_filter]
  refine (List.Nodup.subperm (s.keys_nodup.filter _) fun k hk => ?_).length_le
  obtain ⟨hk, hp⟩ := List.mem_filter.mp hk
  obtain ⟨hk', hq⟩ := h k (AList.mem_keys.mpr hk) hp
  exact List.mem_filter.mpr ⟨AList.mem_keys.mp hk', hq⟩

/-- If every counted record but one is counted afterwards, the count shrank by at most
one. -/
theorem count_le_succ (j : κ)
    (h : ∀ k ∈ s, k ≠ j → p (s.read k) = true → k ∈ s' ∧ q (s'.read k) = true) :
    s.count p ≤ s'.count q + 1 := by
  simp only [count, List.countP_eq_length_filter]
  rw [← List.length_cons (a := j)]
  refine (List.Nodup.subperm (s.keys_nodup.filter _) fun k hk => ?_).length_le
  obtain ⟨hk, hp⟩ := List.mem_filter.mp hk
  by_cases hj : k = j
  · exact hj ▸ List.mem_cons_self
  · obtain ⟨hk', hq⟩ := h k (AList.mem_keys.mpr hk) hj hp
    exact List.mem_cons_of_mem _ (List.mem_filter.mpr ⟨AList.mem_keys.mp hk', hq⟩)

end HashStore

end Foundations
