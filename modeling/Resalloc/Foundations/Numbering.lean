import Mathlib.Algebra.BigOperators.Ring.Finset
import Mathlib.Algebra.Order.BigOperators.Group.List
import Mathlib.Algebra.Order.Ring.Int
import Mathlib.Data.List.Dedup
import Mathlib.Data.List.Perm.Subperm
import Mathlib.Order.Bounds.Basic

/-!
# Numbers given to owners

Rows give natural numbers to owners, within groups that do not know of each
other.  Inside a group no number is given twice.  When a new number is always the
least one that is not in use, the numbers of a group stay below the number of
rows it ever has at once.

Main results:

- Definition {lit}`DistinctNumbers`: no number of a group is given twice.
- Definition {lit}`Numbered`: no owner has two numbers of a group, either.
- Definition {lit}`GivenLeast`: each new row gets the least number unused by then.
- Theorem {lit}`GivenLeast.lt_length`: a new number is below the number of rows.
- Theorem {lit}`length_le_sum`: a group whose owners are all found in other groups
  has at most as many rows as these, counted as often as an owner may have one.
-/

namespace Foundations

/-- A number given to an owner within a group. -/
structure Given (κ ο : Type) where
  owner : ο
  group : κ
  number : ℕ

variable {κ ο : Type} {rows news : List (Given κ ο)} {n m : ℕ}

section Groups

variable [DecidableEq κ] {g : κ}

/-- The numbers in use in a group. -/
def numbers (rows : List (Given κ ο)) (g : κ) : List ℕ :=
  (rows.filter fun row => row.group = g).map Given.number

/-- The owners of the numbers of a group. -/
def owners (rows : List (Given κ ο)) (g : κ) : List ο :=
  (rows.filter fun row => row.group = g).map Given.owner

theorem mem_numbers : n ∈ numbers rows g ↔ ∃ row ∈ rows, row.group = g ∧ row.number = n := by
  simp [numbers, and_assoc]

theorem mem_owners {o : ο} :
    o ∈ owners rows g ↔ ∃ row ∈ rows, row.group = g ∧ row.owner = o := by
  simp [owners, and_assoc]

/-- A group has as many numbers as rows. -/
theorem numbers_length : (numbers rows g).length = (rows.map Given.group).count g := by
  rw [List.count_eq_countP, List.countP_map, numbers, List.length_map,
    ← List.countP_eq_length_filter]
  exact List.countP_congr fun x _ => by simp

/-- A group has as many owners as numbers. -/
theorem owners_length : (owners rows g).length = (numbers rows g).length := by
  simp [owners, numbers]

end Groups

/-! ## Operations that keep rows numbered -/

/-- Inside a group no number is given twice. -/
def DistinctNumbers (rows : List (Given κ ο)) : Prop :=
  rows.Pairwise fun x y => x.group = y.group → x.number ≠ y.number

theorem distinctNumbers_nil : DistinctNumbers ([] : List (Given κ ο)) :=
  .nil

/-- Taking numbers back keeps the rest different. -/
theorem DistinctNumbers.filter (h : DistinctNumbers rows) (p : Given κ ο → Bool) :
    DistinctNumbers (rows.filter p) :=
  List.Pairwise.filter p h

/-- Inside a group no number is given twice, and no owner has two numbers. -/
structure Numbered (rows : List (Given κ ο)) : Prop where
  number : DistinctNumbers rows
  owner : rows.Pairwise fun x y => x.group = y.group → x.owner ≠ y.owner

theorem numbered_nil : Numbered ([] : List (Given κ ο)) :=
  ⟨distinctNumbers_nil, .nil⟩

/-- Taking numbers back keeps the rest numbered. -/
theorem Numbered.filter (h : Numbered rows) (p : Given κ ο → Bool) :
    Numbered (rows.filter p) :=
  ⟨h.number.filter p, h.owner.filter p⟩

/-- Where the elements with a property exclude each other, there is one at most. -/
theorem filter_eq_singleton {α : Type} {l : List α} {p : α → Bool} {a : α}
    (h : l.Pairwise fun x y => p x = true → p y = false) (ha : a ∈ l) (hp : p a = true) :
    l.filter p = [a] := by
  induction l with
  | nil => simp at ha
  | cons b l ih =>
      obtain ⟨hb, hl⟩ := List.pairwise_cons.mp h
      rcases List.mem_cons.mp ha with rfl | ha
      · rw [List.filter_cons_of_pos hp, List.filter_eq_nil_iff.mpr]
        intro x hx
        simp [hb x hx hp]
      · have hfirst : p b = false := by
          by_contra hb'
          have hexcluded := hb a ha (by simpa using hb')
          simp [hp] at hexcluded
        rw [List.filter_cons_of_neg (by simp [hfirst])]
        exact ih hl ha

/-- An element of a list in two parts that is not in the first one. -/
theorem append_eq_append_cons {α : Type} {xs ys before after : List α} {a : α}
    (h : xs ++ ys = before ++ a :: after) (ha : a ∉ xs) :
    ∃ between, before = xs ++ between ∧ ys = between ++ a :: after := by
  rcases List.append_eq_append_iff.mp h with ⟨between, hbefore, hys⟩ | ⟨rest, hxs, hcons⟩
  · exact ⟨between, hbefore, hys⟩
  · cases rest with
    | nil => exact ⟨[], by simpa using hxs.symm, by simpa using hcons.symm⟩
    | cons b rest =>
        obtain ⟨rfl, -⟩ := List.cons.inj hcons
        exact absurd (by simp [hxs]) ha

/-- The only element of a list. -/
theorem singleton_eq_append_cons {α : Type} {before after : List α} {a b : α}
    (h : [b] = before ++ a :: after) : before = [] ∧ a = b ∧ after = [] := by
  cases before with
  | nil =>
      obtain ⟨rfl, rfl⟩ := List.cons.inj h
      exact ⟨rfl, rfl, rfl⟩
  | cons c before => simp at h

/-! ## Numbers stay small -/

/-- A list that holds all numbers below a bound is at least as long. -/
theorem le_length_of_forall_lt {l : List ℕ} (h : ∀ k < n, k ∈ l) : n ≤ l.length := by
  have hsubset : List.range n ⊆ l := fun k hk => h k (List.mem_range.mp hk)
  simpa using (List.subperm_of_subset List.nodup_range hsubset).length_le

/-- The least unused number is at most the number of rows. -/
theorem le_length_of_isLeast {l : List ℕ} (h : IsLeast {k | k ∉ l} n) : n ≤ l.length := by
  apply le_length_of_forall_lt
  intro k hk
  by_contra hmem
  exact absurd (h.2 hmem) (by omega)

section Groups

variable [DecidableEq κ] {g : κ}

/-- The numbers of a group are different. -/
theorem DistinctNumbers.numbers_nodup (h : DistinctNumbers rows) (g : κ) :
    (numbers rows g).Nodup := by
  rw [numbers, List.Nodup, List.pairwise_map]
  refine (List.Pairwise.filter _ h).imp_of_mem fun {x y} hx hy hne => hne ?_
  simp only [List.mem_filter, decide_eq_true_eq] at hx hy
  rw [hx.2, hy.2]

/-- The owners of a group are different. -/
theorem Numbered.owners_nodup (h : Numbered rows) (g : κ) : (owners rows g).Nodup := by
  rw [owners, List.Nodup, List.pairwise_map]
  refine (h.owner.filter _).imp_of_mem fun {x y} hx hy hne => hne ?_
  simp only [List.mem_filter, decide_eq_true_eq] at hx hy
  rw [hx.2, hy.2]

/-- A group has at most as many rows as there are numbers it may use. -/
theorem DistinctNumbers.length_le (h : DistinctNumbers rows)
    (hbelow : ∀ k ∈ numbers rows g, k < m) : (numbers rows g).length ≤ m := by
  have hsubset : numbers rows g ⊆ List.range m := fun k hk => List.mem_range.mpr (hbelow k hk)
  simpa using (List.subperm_of_subset (h.numbers_nodup g) hsubset).length_le

/-- The numbers of a group in two tables. -/
theorem numbers_append (rows news : List (Given κ ο)) (g : κ) :
    numbers (rows ++ news) g = numbers rows g ++ numbers news g := by
  simp [numbers]

end Groups

/-! ## Giving the least number -/

section Least

variable [DecidableEq κ] {row : Given κ ο}

/-- Each of the new rows, one after another, gets the least number that its group
does not use by then. -/
def GivenLeast (rows : List (Given κ ο)) : List (Given κ ο) → Prop
  | [] => True
  | row :: news =>
      IsLeast {k | k ∉ numbers rows row.group} row.number ∧ GivenLeast (rows ++ [row]) news

/-- A new row among those that are given before it and after it. -/
theorem GivenLeast.isLeast {before after : List (Given κ ο)}
    (h : GivenLeast rows (before ++ row :: after)) :
    IsLeast {k | k ∉ numbers (rows ++ before) row.group} row.number := by
  induction before generalizing rows with
  | nil =>
      rw [List.append_nil]
      exact h.1
  | cons first before ih =>
      have hrest := ih h.2
      rwa [List.append_assoc, List.singleton_append] at hrest

/-- The least unused number is different from all others of its group. -/
theorem DistinctNumbers.snoc (h : DistinctNumbers rows)
    (hleast : IsLeast {k | k ∉ numbers rows row.group} row.number) :
    DistinctNumbers (rows ++ [row]) := by
  refine List.pairwise_append.mpr ⟨h, List.pairwise_singleton _ _, fun x hx y hy hgroup => ?_⟩
  obtain rfl := List.mem_singleton.mp hy
  intro heq
  exact hleast.1 (mem_numbers.mpr ⟨x, hx, hgroup, heq⟩)

/-- New rows with the least numbers keep the numbers different. -/
theorem GivenLeast.distinct (h : DistinctNumbers rows) (hnews : GivenLeast rows news) :
    DistinctNumbers (rows ++ news) := by
  induction news generalizing rows with
  | nil => rwa [List.append_nil]
  | cons row news ih =>
      have hrest := ih (h.snoc hnews.1) hnews.2
      rwa [List.append_assoc, List.singleton_append] at hrest

/-- A new number is below the number of rows of its group in the end. -/
theorem GivenLeast.lt_length (h : GivenLeast rows news) (hrow : row ∈ news) :
    row.number < (numbers (rows ++ news) row.group).length := by
  induction news generalizing rows with
  | nil => simp at hrow
  | cons first news ih =>
      have hrest : rows ++ first :: news = rows ++ [first] ++ news := by simp
      rw [hrest]
      rcases List.mem_cons.mp hrow with rfl | hrow
      · have hle := le_length_of_isLeast h.1
        have hself : numbers [row] row.group = [row.number] := by simp [numbers]
        rw [numbers_append, numbers_append, hself]
        simp only [List.length_append, List.length_singleton]
        omega
      · exact ih h.2 hrow

end Least

/-! ## Owners of several numbers -/

section Held

variable [DecidableEq κ] [DecidableEq ο] {g : κ} {o : ο}

/-- How many numbers of a group an owner has. -/
def held (rows : List (Given κ ο)) (g : κ) (o : ο) : ℕ :=
  rows.countP fun row => row.group = g ∧ row.owner = o

theorem held_append (rows news : List (Given κ ο)) (g : κ) (o : ο) :
    held (rows ++ news) g o = held rows g o + held news g o :=
  List.countP_append

theorem held_eq_zero (h : ∀ row ∈ rows, row.owner ≠ o) (g : κ) : held rows g o = 0 := by
  rw [held, List.countP_eq_zero]
  intro row hrow
  simp [h row hrow]

/-- An owner whose numbers are not taken back keeps all of them. -/
theorem held_filter {p : Given κ ο → Bool} (h : ∀ row : Given κ ο, row.owner = o → p row = true) :
    held (rows.filter p) g o = held rows g o := by
  rw [held, held, List.countP_filter]
  apply List.countP_congr
  intro row _
  by_cases howner : row.owner = o
  · simp [howner, h row howner]
  · simp [howner]

/-- All new numbers of one owner. -/
theorem held_of_owner (h : ∀ row ∈ rows, row.owner = o) (g : κ) :
    held rows g o = (rows.map Given.group).count g := by
  rw [held, List.count_eq_countP, List.countP_map]
  apply List.countP_congr
  intro row hrow
  simp [h row hrow]

theorem count_owners (rows : List (Given κ ο)) (g : κ) (o : ο) :
    (owners rows g).count o = held rows g o := by
  rw [owners, List.count_eq_countP, List.countP_map, List.countP_filter]
  apply List.countP_congr
  intro row _
  simp [and_comm]

/-- The part of a list that comes from one element. -/
theorem sublist_flatMap_of_mem {α β : Type} {l : List α} {a : α} (f : α → List β) (h : a ∈ l) :
    (f a).Sublist (l.flatMap f) :=
  List.sublist_flatten_of_mem (List.mem_map_of_mem h)

/-- A group whose owners are all found in other groups has at most as many rows as
these, each of them counted as often as its owners may have a number. -/
theorem length_le_sum {ι : Type} {others : List (Given κ ο)} {s : List ι} {key : ι → κ}
    {weight : ι → ℕ}
    (hfound : ∀ row ∈ rows, row.group = g → ∃ i ∈ s, row.owner ∈ owners others (key i) ∧
      held rows g row.owner ≤ weight i) :
    (numbers rows g).length ≤
      (s.map fun i => weight i * (numbers others (key i)).length).sum := by
  -- every owner is counted as often as it may have a number
  have hsubperm : (owners rows g).Subperm
      (s.flatMap fun i => (owners others (key i)).flatMap (List.replicate (weight i))) := by
    rw [List.subperm_ext_iff]
    intro o ho
    obtain ⟨row, hrow, hgroup, rfl⟩ := mem_owners.mp ho
    obtain ⟨i, hi, howner, hle⟩ := hfound row hrow hgroup
    have hpart := sublist_flatMap_of_mem (List.replicate (weight i)) howner
    have hall := sublist_flatMap_of_mem
      (fun i => (owners others (key i)).flatMap (List.replicate (weight i))) hi
    rw [count_owners]
    calc held rows g row.owner ≤ weight i := hle
      _ = (List.replicate (weight i) row.owner).count row.owner :=
          List.count_replicate_self.symm
      _ ≤ _ := (hpart.trans hall).count_le _
  calc (numbers rows g).length = (owners rows g).length := owners_length.symm
    _ ≤ _ := hsubperm.length_le
    _ = (s.map fun i => weight i * (numbers others (key i)).length).sum := by
        simp only [List.length_flatMap, List.length_replicate, List.map_const',
          List.sum_replicate_nat, owners_length, mul_comm]

end Held

/-- A weighted sum of bounded values leaves room for one more where a value is below its
bound. -/
theorem sum_mul_add_le {ι : Type} {s : List ι} {weight : ι → ℕ} {a b : ι → ℤ} {i : ι}
    (hle : ∀ j ∈ s, a j ≤ b j) (hi : i ∈ s) (hlt : a i < b i) :
    (s.map fun j => weight j * a j).sum + weight i ≤ (s.map fun j => weight j * b j).sum := by
  induction s with
  | nil => simp at hi
  | cons j s ih =>
      obtain ⟨hhead, hrest⟩ := List.forall_mem_cons.mp hle
      rw [List.map_cons, List.sum_cons, List.map_cons, List.sum_cons]
      rcases List.mem_cons.mp hi with rfl | hi
      · have hfirst : weight i * (a i + 1) ≤ weight i * b i :=
          mul_le_mul_of_nonneg_left hlt (Int.natCast_nonneg _)
        have hothers : (s.map fun j => weight j * a j).sum ≤ (s.map fun j => weight j * b j).sum :=
          List.sum_le_sum fun j hj =>
            mul_le_mul_of_nonneg_left (hrest j hj) (Int.natCast_nonneg _)
        rw [mul_add, mul_one] at hfirst
        omega
      · have hfirst : weight j * a j ≤ weight j * b j :=
          mul_le_mul_of_nonneg_left hhead (Int.natCast_nonneg _)
        have hothers := ih hrest hi
        omega

end Foundations
