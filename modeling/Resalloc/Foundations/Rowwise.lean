import Resalloc.Foundations.IdTable

/-!
# Tables compared row by row

A relation on rows, lifted to tables: every row of the first table is still in the
second one, under its identifier, and the two rows are related.  Insertions, rewrites
and loops of rewrites are compared with the table they started from.

Main results:

- Definition {lit}`Keeps`: the lifted relation.
- Theorem {lit}`Keeps.modify`: one more rewrite.
- Theorem {lit}`get?_foldl_modify`: a loop that rewrites each of some rows once.
-/

namespace Foundations

namespace IdTable

variable {α : Type} {R : α → α → Prop} {t t' t'' : IdTable α} {id : ℕ}

/-- Every row of a table is in another one, up to a relation. -/
def Keeps (R : α → α → Prop) (t t' : IdTable α) : Prop :=
  ∀ id a, t.get? id = some a → ∃ a', t'.get? id = some a' ∧ R a a'

theorem Keeps.refl (hR : ∀ a, R a a) (t : IdTable α) : t.Keeps R t :=
  fun _ a ha => ⟨a, ha, hR a⟩

theorem Keeps.trans (hR : ∀ {a b c}, R a b → R b c → R a c) (h : t.Keeps R t')
    (h' : t'.Keeps R t'') : t.Keeps R t'' := by
  intro id a ha
  obtain ⟨b, hb, hab⟩ := h id a ha
  obtain ⟨c, hc, hbc⟩ := h' id b hb
  exact ⟨c, hc, hR hab hbc⟩

/-- A weaker relation is kept as well. -/
theorem Keeps.weaken {S : α → α → Prop} (h : t.Keeps R t') (hS : ∀ a b, R a b → S a b) :
    t.Keeps S t' := by
  intro id a ha
  obtain ⟨b, hb, hab⟩ := h id a ha
  exact ⟨b, hb, hS a b hab⟩

/-- One more rewrite has to keep the relation to the first table. -/
theorem Keeps.modify (h : t.Keeps R t') {f : α → α}
    (hf : ∀ a b, t.get? id = some a → R a b → R a (f b)) : t.Keeps R (t'.modify id f) := by
  intro j a ha
  obtain ⟨b, hb, hab⟩ := h j a ha
  rw [get?_modify]
  by_cases hj : j = id
  · subst hj
    exact ⟨f b, by simp [hb], hf a b ha hab⟩
  · exact ⟨b, by simp [hj, hb], hab⟩

/-- Rewriting all rows. -/
theorem keeps_map {f : α → α} (hf : ∀ a, R a (f a)) : t.Keeps R (t.map f) :=
  fun id a ha => ⟨f a, by simp [ha], hf a⟩

/-- An insertion keeps all rows. -/
theorem keeps_push (hR : ∀ a, R a a) (a : α) : t.Keeps R (t.push a) :=
  fun _ b hb => ⟨b, get?_push_of_some a hb, hR b⟩

/-- A loop that rewrites each of some rows once. -/
theorem get?_foldl_modify {l : List ℕ} (hnodup : l.Nodup) (f : ℕ → α → α) (t : IdTable α)
    (j : ℕ) :
    (l.foldl (fun t id => t.modify id (f id)) t).get? j =
      if j ∈ l then (t.get? j).map (f j) else t.get? j := by
  induction l generalizing t with
  | nil => rfl
  | cons id l ih =>
      obtain ⟨hid, hnodup⟩ := List.nodup_cons.mp hnodup
      rw [List.foldl_cons, ih hnodup]
      by_cases hj : j = id
      · subst hj
        simp [hid]
      · simp [hj, get?_modify_of_ne hj]

/-- A loop that rewrites the rows whose counterparts in a table have a property. -/
theorem get?_foldl_modify_filter {β : Type} (s : IdTable β) (p : β → Bool) (f : ℕ → α → α)
    (t : IdTable α) (j : ℕ) :
    (((s.entries.filter fun e => p e.2).map Prod.fst).foldl (fun t id => t.modify id (f id))
        t).get? j =
      if (s.get? j).any p then (t.get? j).map (f j) else t.get? j := by
  have hnodup : ((s.entries.filter fun e => p e.2).map Prod.fst).Nodup :=
    s.entries_nodup.sublist (List.filter_sublist.map _)
  have hmem : j ∈ (s.entries.filter fun e => p e.2).map Prod.fst ↔ (s.get? j).any p = true := by
    simp [mem_entries, Option.any_eq_true]
  rw [get?_foldl_modify hnodup]
  simp only [hmem]

/-- Rewrites of one row, one after another, are one rewrite. -/
theorem foldl_modify_same {β : Type} (l : List β) (f : β → α → α) (t : IdTable α) :
    l.foldl (fun t b => t.modify id (f b)) t =
      t.modify id fun a => l.foldl (fun a b => f b a) a := by
  induction l generalizing t with
  | nil =>
      refine ext_get? fun j => ?_
      by_cases hj : j = id <;> simp [get?_modify, hj]
  | cons b l ih => rw [List.foldl_cons, ih, modify_modify]; rfl

end IdTable

end Foundations
