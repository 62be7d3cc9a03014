import Mathlib.Data.Finset.Card
import Mathlib.Data.Finset.Range

/-!
# Tables keyed by an automatically increasing identifier

A table stores its rows in the order in which they were inserted.  Identifiers
start at one, an insertion takes the next identifier, and no row is ever
removed, so the identifier of a row is its position.  Every statement below is
phrased through {lit}`get?`, which is the only view of a table the proofs need.

Main results:

- Theorems {lit}`get?_push`, {lit}`get?_modify` and {lit}`get?_map`: the effect
  of every write on every identifier.
- Theorem {lit}`mem_entries`: the entry list enumerates exactly the stored rows.
- Theorems {lit}`count_le_of_get?` and {lit}`count_le_succ_of_get?`: comparing
  the number of rows with a property before and after a write, row by row.
-/

namespace Foundations

/-- Rows in insertion order; the row with identifier {lit}`i + 1` is at
position {lit}`i`. -/
structure IdTable (α : Type) where
  rows : List α
deriving DecidableEq

namespace IdTable

variable {α β : Type}

/-! ## Operations -/

/-- The table without rows. -/
def empty : IdTable α := ⟨[]⟩

/-- Row lookup by identifier. -/
def get? (t : IdTable α) : ℕ → Option α
  | 0 => none
  | i + 1 => t.rows[i]?

/-- The identifier the next inserted row receives. -/
def nextId (t : IdTable α) : ℕ := t.rows.length + 1

/-- Insert a row under the next identifier. -/
def push (t : IdTable α) (a : α) : IdTable α := ⟨t.rows ++ [a]⟩

/-- Rewrite the row with the given identifier, if there is one. -/
def modify (t : IdTable α) (id : ℕ) (f : α → α) : IdTable α :=
  match id with
  | 0 => t
  | i + 1 => ⟨t.rows.modify i f⟩

/-- Rewrite all rows. -/
def map (t : IdTable α) (f : α → β) : IdTable β := ⟨t.rows.map f⟩

/-- All rows with their identifiers, in ascending order of the identifier. -/
def entries (t : IdTable α) : List (ℕ × α) :=
  (t.rows.zipIdx 1).map fun e => (e.2, e.1)

/-- Number of rows with a property. -/
def count (t : IdTable α) (p : α → Bool) : ℕ := t.rows.countP p

/-! ## Lookup after a write -/

@[simp]
theorem get?_empty (id : ℕ) : (empty : IdTable α).get? id = none := by
  cases id <;> simp [empty, get?]

@[simp]
theorem get?_zero (t : IdTable α) : t.get? 0 = none :=
  rfl

/-- Only identifiers below the next one are in use. -/
theorem lt_nextId {t : IdTable α} {id : ℕ} {a : α} (h : t.get? id = some a) :
    id < t.nextId := by
  cases id with
  | zero => simp at h
  | succ i =>
      have hi : i < t.rows.length := (List.getElem?_eq_some_iff.mp h).1
      simpa [nextId] using hi

/-- The next identifier is unused. -/
@[simp]
theorem get?_nextId (t : IdTable α) : t.get? t.nextId = none := by
  simp [nextId, get?]

/-- A table that has the identifiers of another one has at least as many. -/
theorem nextId_le_of_get? {t : IdTable α} {t' : IdTable β}
    (h : ∀ id a, t.get? id = some a → ∃ b, t'.get? id = some b) : t.nextId ≤ t'.nextId := by
  cases hlength : t.rows.length with
  | zero => simp [nextId, hlength]
  | succ n =>
      have hlast : t.get? (n + 1) = some (t.rows[n]) := by simp [get?]
      obtain ⟨b, hb⟩ := h _ _ hlast
      have hlt := lt_nextId hb
      simp only [nextId, hlength] at *
      omega

/-- An insertion adds exactly the new row. -/
theorem get?_push (t : IdTable α) (a : α) (id : ℕ) :
    (t.push a).get? id = if id = t.nextId then some a else t.get? id := by
  cases id with
  | zero => simp [nextId]
  | succ i =>
      simp only [get?, push, nextId, Nat.add_right_cancel_iff]
      rw [List.getElem?_append]
      split_ifs <;> grind

/-- A rewrite changes exactly the row it names. -/
theorem get?_modify (t : IdTable α) (id : ℕ) (f : α → α) (j : ℕ) :
    (t.modify id f).get? j = if j = id then (t.get? j).map f else t.get? j := by
  cases id with
  | zero => cases j <;> simp [modify, get?]
  | succ i =>
      cases j with
      | zero => simp [get?]
      | succ j =>
          simp only [modify, get?, List.getElem?_modify, Nat.add_right_cancel_iff]
          by_cases hji : j = i
          · simp [hji]
          · simp [hji, Ne.symm hji]

@[simp]
theorem get?_modify_self (t : IdTable α) (id : ℕ) (f : α → α) :
    (t.modify id f).get? id = (t.get? id).map f := by
  simp [get?_modify]

theorem get?_modify_of_ne {id j : ℕ} (h : j ≠ id) (t : IdTable α) (f : α → α) :
    (t.modify id f).get? j = t.get? j := by
  simp [get?_modify, h]

/-- Two rewrites of one row are one rewrite. -/
theorem modify_modify (t : IdTable α) (id : ℕ) (f g : α → α) :
    (t.modify id f).modify id g = t.modify id fun a => g (f a) := by
  cases id with
  | zero => rfl
  | succ i => simp [modify, List.modify_modify_eq, Function.comp_def]

/-- Two tables with the same rows are the same. -/
theorem ext_get? {t t' : IdTable α} (h : ∀ id, t.get? id = t'.get? id) : t = t' := by
  obtain ⟨rows⟩ := t
  obtain ⟨rows'⟩ := t'
  congr 1
  exact List.ext_getElem? fun i => h (i + 1)

/-- A rewrite that leaves its row as it is changes nothing. -/
theorem modify_eq_self {t : IdTable α} {id : ℕ} {a : α} {f : α → α} (h : t.get? id = some a)
    (hf : f a = a) : t.modify id f = t := by
  refine ext_get? fun j => ?_
  rw [get?_modify]
  split_ifs with hj
  · rw [hj, h, Option.map_some, hf]
  · rfl

/-- Rewriting all rows rewrites the row of every identifier. -/
@[simp]
theorem get?_map (t : IdTable α) (f : α → β) (id : ℕ) :
    (t.map f).get? id = (t.get? id).map f := by
  cases id <;> simp [map, get?]

@[simp]
theorem nextId_push (t : IdTable α) (a : α) : (t.push a).nextId = t.nextId + 1 := by
  simp [push, nextId]

@[simp]
theorem nextId_modify (t : IdTable α) (id : ℕ) (f : α → α) :
    (t.modify id f).nextId = t.nextId := by
  cases id <;> simp [modify, nextId]

@[simp]
theorem nextId_map (t : IdTable α) (f : α → β) : (t.map f).nextId = t.nextId := by
  simp [map, nextId]

/-- Only the next identifier becomes visible by an insertion. -/
theorem get?_push_some {t : IdTable α} {a b : α} {id : ℕ}
    (h : (t.push a).get? id = some b) :
    (id = t.nextId ∧ b = a) ∨ t.get? id = some b := by
  rw [get?_push] at h
  split at h
  next hid => exact .inl ⟨hid, (Option.some.inj h).symm⟩
  next => exact .inr h

/-- Rows that exist survive an insertion. -/
theorem get?_push_of_some {t : IdTable α} {b : α} {id : ℕ} (a : α)
    (h : t.get? id = some b) : (t.push a).get? id = some b := by
  rw [get?_push, if_neg (lt_nextId h).ne, h]

/-! ## Enumeration -/

/-- The entry list holds exactly the stored rows. -/
theorem mem_entries {t : IdTable α} {id : ℕ} {a : α} :
    (id, a) ∈ t.entries ↔ t.get? id = some a := by
  simp only [entries, List.mem_map, Prod.mk.injEq, Prod.exists]
  constructor
  · rintro ⟨b, j, hmem, rfl, rfl⟩
    obtain ⟨hj, hget⟩ := List.mem_zipIdx_iff_le_and_getElem?_sub.mp hmem
    obtain ⟨i, rfl⟩ := Nat.exists_eq_add_of_le' hj
    simpa [get?] using hget
  · intro h
    cases id with
    | zero => simp at h
    | succ i =>
        have hrow : (a, i + 1) ∈ t.rows.zipIdx 1 :=
          List.mem_zipIdx_iff_le_and_getElem?_sub.mpr ⟨by omega, by simpa [get?] using h⟩
        exact ⟨a, i + 1, hrow, rfl, rfl⟩

/-- The entries without their identifiers. -/
@[simp]
theorem entries_map_snd (t : IdTable α) : t.entries.map Prod.snd = t.rows := by
  simp [entries, Function.comp_def]

/-- Entries are listed in ascending order of their identifiers. -/
theorem entries_sorted (t : IdTable α) :
    t.entries.Pairwise fun e f => e.1 < f.1 := by
  have hids : t.entries.map Prod.fst = List.range' 1 t.rows.length := by
    simp [entries, Function.comp_def, List.zipIdx_map_snd]
  have hlt : (t.entries.map Prod.fst).Pairwise (· < ·) := by
    rw [hids]
    exact List.pairwise_lt_range'
  exact List.pairwise_map.mp hlt

/-- No identifier is listed twice. -/
theorem entries_nodup (t : IdTable α) : (t.entries.map Prod.fst).Nodup := by
  rw [List.Nodup, List.pairwise_map]
  exact t.entries_sorted.imp fun h => h.ne

/-- Tables that agree in a column, row by row. -/
theorem map_rows_ext {t : IdTable α} {t' : IdTable α} {f : α → β}
    (h : ∀ id, (t.get? id).map f = (t'.get? id).map f) : t.rows.map f = t'.rows.map f := by
  refine List.ext_getElem? fun i => ?_
  simpa [get?] using h (i + 1)

/-! ## Counting -/

/-- Identifiers of the rows with a property. -/
def idsWhere (t : IdTable α) (p : α → Bool) : Finset ℕ :=
  (Finset.range t.nextId).filter fun id => (t.get? id).any p

@[simp]
theorem mem_idsWhere {t : IdTable α} {p : α → Bool} {id : ℕ} :
    id ∈ t.idsWhere p ↔ ∃ a, t.get? id = some a ∧ p a = true := by
  simp only [idsWhere, Finset.mem_filter, Finset.mem_range, Option.any_eq_true]
  exact ⟨fun h => h.2, fun h => ⟨h.elim fun _ ha => lt_nextId ha.1, h⟩⟩

/-- An insertion is counted when the new row has the property. -/
theorem count_push (t : IdTable α) (a : α) (p : α → Bool) :
    (t.push a).count p = t.count p + if p a then 1 else 0 := by
  simp only [count, push, List.countP_append, List.countP_singleton]

/-- The identifiers counted after an insertion. -/
theorem idsWhere_push (t : IdTable α) (a : α) (p : α → Bool) :
    (t.push a).idsWhere p =
      if p a then insert t.nextId (t.idsWhere p) else t.idsWhere p := by
  ext id
  by_cases hid : id = t.nextId <;> by_cases hpa : p a <;> simp [hid, hpa, get?_push]

/-- Counting rows is counting identifiers. -/
theorem count_eq_card (t : IdTable α) (p : α → Bool) :
    t.count p = (t.idsWhere p).card := by
  obtain ⟨rows⟩ := t
  induction rows using List.reverseRecOn with
  | nil =>
      have hnone : (empty : IdTable α).idsWhere p = ∅ := by
        ext id
        simp
      change (empty : IdTable α).count p = ((empty : IdTable α).idsWhere p).card
      rw [hnone]
      rfl
  | append_singleton rows a ih =>
      change ((⟨rows⟩ : IdTable α).push a).count p =
        (((⟨rows⟩ : IdTable α).push a).idsWhere p).card
      rw [count_push, idsWhere_push, ih]
      split_ifs with hpa
      · rw [Finset.card_insert_of_notMem (by simp)]
      · rfl

/-- Rows with one of two properties that exclude each other. -/
theorem count_or {t : IdTable α} {p q : α → Bool} (h : ∀ a, p a = true → q a = false) :
    (t.count fun a => p a || q a) = t.count p + t.count q := by
  simp only [count]
  induction t.rows with
  | nil => rfl
  | cons a rows ih =>
      have ha := h a
      cases hp : p a <;> cases hq : q a <;> simp_all <;> omega

/-- If every counted row was counted before, the count did not grow. -/
theorem count_le_of_get? {t t' : IdTable α} {p q : α → Bool}
    (h : ∀ id a', t'.get? id = some a' → q a' = true → ∃ a, t.get? id = some a ∧ p a = true) :
    t'.count q ≤ t.count p := by
  rw [count_eq_card, count_eq_card]
  apply Finset.card_le_card
  intro id hid
  obtain ⟨a', ha', hq⟩ := mem_idsWhere.mp hid
  exact mem_idsWhere.mpr (h id a' ha' hq)

/-- If every counted row but one was counted before, the count grew by at most
one. -/
theorem count_le_succ_of_get? {t t' : IdTable α} {p q : α → Bool} (j : ℕ)
    (h : ∀ id a', id ≠ j → t'.get? id = some a' → q a' = true →
      ∃ a, t.get? id = some a ∧ p a = true) :
    t'.count q ≤ t.count p + 1 := by
  rw [count_eq_card, count_eq_card]
  refine (Finset.card_le_card (t := insert j (t.idsWhere p)) ?_).trans
    (Finset.card_insert_le _ _)
  intro id hid
  obtain ⟨a', ha', hq⟩ := mem_idsWhere.mp hid
  by_cases hj : id = j
  · simp [hj]
  · exact Finset.mem_insert_of_mem (mem_idsWhere.mpr (h id a' hj ha' hq))

end IdTable

end Foundations
