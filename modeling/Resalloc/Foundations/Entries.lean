import Mathlib.Data.List.Basic

/-!
# Entries of a mapping

A mapping that keeps the order of its keys is a list of entries, read with
{lit}`List.lookup`.

Main results:

- Definition {lit}`setItem`: the mapping after an assignment.
- Theorem {lit}`lookup_setItem`: what it has under a key.
-/

namespace Foundations

variable {κ α : Type} [DecidableEq κ]

/-- Assign a value to a key: a new key comes last. -/
def setItem : List (κ × α) → κ → α → List (κ × α)
  | [], key, value => [(key, value)]
  | (k, v) :: rest, key, value =>
      if k = key then (k, value) :: rest else (k, v) :: setItem rest key value

/-- An entry in front does not hide another key. -/
theorem lookup_cons_of_ne {rest : List (κ × α)} {key k : κ} {value : α} (h : k ≠ key) :
    ((key, value) :: rest).lookup k = rest.lookup k := by
  rw [List.lookup_cons, beq_false_of_ne h]

/-- The key has the new value, and the others keep theirs. -/
theorem lookup_setItem (entries : List (κ × α)) (key k : κ) (value : α) :
    (setItem entries key value).lookup k =
      if k = key then some value else entries.lookup k := by
  induction entries with
  | nil =>
      by_cases hk : k = key
      · simp [setItem, hk]
      · simp [setItem, hk, lookup_cons_of_ne]
  | cons entry rest ih =>
      obtain ⟨k₀, v₀⟩ := entry
      by_cases hkey : k₀ = key
      · subst hkey
        by_cases hk : k = k₀
        · simp [setItem, hk]
        · simp [setItem, hk, lookup_cons_of_ne]
      · by_cases hk : k = k₀
        · subst hk
          simp [setItem, hkey]
        · simp [setItem, hkey, hk, lookup_cons_of_ne, ih]

/-- The key has the new value. -/
@[simp] theorem lookup_setItem_self (entries : List (κ × α)) (key : κ) (value : α) :
    (setItem entries key value).lookup key = some value := by
  simp [lookup_setItem]

/-- The other keys keep their values. -/
theorem lookup_setItem_of_ne {entries : List (κ × α)} {key k : κ} {value : α} (h : k ≠ key) :
    (setItem entries key value).lookup k = entries.lookup k := by
  simp [lookup_setItem, h]

/-- One more entry does not hide the entries in front of it. -/
theorem lookup_snoc (entries : List (κ × α)) (key k : κ) (value : α) :
    (entries ++ [(key, value)]).lookup k =
      (entries.lookup k).or (if k = key then some value else none) := by
  by_cases hk : k = key
  · simp [List.lookup_append, hk]
  · simp [List.lookup_append, hk, lookup_cons_of_ne]

/-- A key that no entry has is not found. -/
theorem lookup_eq_none {entries : List (κ × α)} {key : κ} (h : key ∉ entries.map Prod.fst) :
    entries.lookup key = none := by
  rw [List.lookup_eq_none_iff]
  intro entry hentry
  have hne : key ≠ entry.1 := by
    rintro rfl
    exact h (List.mem_map_of_mem hentry)
  simpa using hne

end Foundations
