import Mathlib.Data.List.Induction

/-!
# Loops that may raise

A loop whose body may raise is a {lit}`foldlM` in {lit}`Except`.  This file gives
the invariant rules for such loops.

Main results:

- Theorem {lit}`foldlM_ok_invariant`: what every successful round keeps holds when
  the loop has returned.
- Theorem {lit}`foldlM_returns`: the loop returns if every round does.
- Theorem {lit}`foldlM_returns_iff_history`: which elements let the loop return, where a
  round depends on those before it.
- Theorem {lit}`mapM_returns_iff`: the same for a loop that collects results.
-/

namespace Foundations

variable {ε α β : Type}

/-- A loop that has returned has returned from its first round and from the others. -/
theorem foldlM_cons_ok {f : β → α → Except ε β} {a : α} {l : List α} {b b' : β} :
    (a :: l).foldlM f b = .ok b' ↔ ∃ b₁, f b a = .ok b₁ ∧ l.foldlM f b₁ = .ok b' := by
  rw [List.foldlM_cons]
  cases hfirst : f b a with
  | error e =>
      constructor
      · intro h
        contradiction
      · rintro ⟨_, h, -⟩
        contradiction
  | ok b₁ =>
      constructor
      · exact fun h => ⟨b₁, rfl, h⟩
      · rintro ⟨b₂, h, hrest⟩
        obtain rfl := Except.ok.inj h
        exact hrest

/-- A loop that has returned has returned from its rounds in front and from the others. -/
theorem foldlM_append_ok {f : β → α → Except ε β} {l l' : List α} {b b' : β} :
    (l ++ l').foldlM f b = .ok b' ↔
      ∃ b₁, l.foldlM f b = .ok b₁ ∧ l'.foldlM f b₁ = .ok b' := by
  induction l generalizing b with
  | nil =>
      constructor
      · exact fun h => ⟨b, rfl, h⟩
      · rintro ⟨b₁, h, hrest⟩
        obtain rfl := Except.ok.inj h
        exact hrest
  | cons a l ih =>
      rw [List.cons_append, foldlM_cons_ok]
      constructor
      · rintro ⟨b₁, hfirst, hothers⟩
        obtain ⟨b₂, hmiddle, hrest⟩ := ih.mp hothers
        exact ⟨b₂, foldlM_cons_ok.mpr ⟨b₁, hfirst, hmiddle⟩, hrest⟩
      · rintro ⟨b₂, hfront, hrest⟩
        obtain ⟨b₁, hfirst, hmiddle⟩ := foldlM_cons_ok.mp hfront
        exact ⟨b₁, hfirst, ih.mpr ⟨b₂, hmiddle, hrest⟩⟩

/-- The last round comes after the others. -/
theorem foldlM_snoc_ok {f : β → α → Except ε β} {a : α} {l : List α} {b b' : β} :
    (l ++ [a]).foldlM f b = .ok b' ↔ ∃ b₁, l.foldlM f b = .ok b₁ ∧ f b₁ a = .ok b' := by
  rw [foldlM_append_ok]
  apply exists_congr
  intro b₁
  rw [foldlM_cons_ok]
  constructor
  · rintro ⟨hfront, b₂, hlast, hnil⟩
    obtain rfl := Except.ok.inj hnil
    exact ⟨hfront, hlast⟩
  · exact fun h => ⟨h.1, b', h.2, rfl⟩

/-- What every successful round keeps holds when the loop has returned. -/
theorem foldlM_ok_invariant {f : β → α → Except ε β} {P : β → Prop} {l : List α} {b b' : β}
    (hloop : l.foldlM f b = .ok b') (hstart : P b)
    (hround : ∀ b, P b → ∀ a ∈ l, ∀ b', f b a = .ok b' → P b') : P b' := by
  induction l generalizing b with
  | nil =>
      obtain rfl := Except.ok.inj hloop
      exact hstart
  | cons a l ih =>
      obtain ⟨b₁, hfirst, hrest⟩ := foldlM_cons_ok.mp hloop
      refine ih hrest (hround b hstart a List.mem_cons_self b₁ hfirst) fun c hc x hx => ?_
      exact hround c hc x (List.mem_cons_of_mem a hx)

/-- A loop whose rounds do what a function does, when they return, does so as a whole. -/
theorem foldlM_eq_foldl {f : β → α → Except ε β} {g : β → α → β} {l : List α} {b b' : β}
    (hloop : l.foldlM f b = .ok b') (hround : ∀ b, ∀ a ∈ l, ∀ b', f b a = .ok b' → b' = g b a) :
    b' = l.foldl g b := by
  induction l generalizing b with
  | nil => exact (Except.ok.inj hloop).symm
  | cons a l ih =>
      obtain ⟨b₁, hfirst, hrest⟩ := foldlM_cons_ok.mp hloop
      rw [List.foldl_cons, ← hround b a List.mem_cons_self b₁ hfirst]
      exact ih hrest fun c x hx => hround c x (List.mem_cons_of_mem a hx)

/-- The loop returns if every round returns and keeps what the rounds rely on. -/
theorem foldlM_returns {f : β → α → Except ε β} {P : β → Prop} {l : List α} {b : β}
    (hstart : P b) (hround : ∀ b, P b → ∀ a ∈ l, ∃ b', f b a = .ok b' ∧ P b') :
    ∃ b', l.foldlM f b = .ok b' ∧ P b' := by
  induction l generalizing b with
  | nil => exact ⟨b, rfl, hstart⟩
  | cons a l ih =>
      obtain ⟨b₁, hfirst, hkept⟩ := hround b hstart a List.mem_cons_self
      obtain ⟨b', hrest, hend⟩ :=
        ih hkept fun c hc x hx => hround c hc x (List.mem_cons_of_mem a hx)
      exact ⟨b', foldlM_cons_ok.mpr ⟨b₁, hfirst, hrest⟩, hend⟩

/-- A loop simulates another one if its rounds do. -/
theorem foldlM_map {γ δ : Type} {f : γ → δ → Except ε γ} {g : β → α → Except ε β} {r : β → γ}
    {e : α → δ} (hround : ∀ b a, f (r b) (e a) = (g b a).map r) (l : List α) (b : β) :
    (l.map e).foldlM f (r b) = (l.foldlM g b).map r := by
  induction l generalizing b with
  | nil => rfl
  | cons a l ih =>
      rw [List.map_cons, List.foldlM_cons, List.foldlM_cons, hround]
      cases g b a with
      | error e => rfl
      | ok b₁ => exact ih b₁

section History

variable {f : β → α → Except ε β} {I : List α → β → Prop} {Q : List α → α → Prop} {l : List α}
  {b b' : β}

/-- What every successful round keeps about the rounds so far holds when the loop has
returned. -/
theorem foldlM_history (hstart : I [] b)
    (hround : ∀ before a after, l = before ++ a :: after → ∀ b b', I before b → f b a = .ok b' →
      I (before ++ [a]) b')
    (hloop : l.foldlM f b = .ok b') : I l b' := by
  induction l using List.reverseRecOn generalizing b' with
  | nil =>
      obtain rfl := Except.ok.inj hloop
      exact hstart
  | append_singleton l a ih =>
      obtain ⟨b₁, hfront, hlast⟩ := foldlM_snoc_ok.mp hloop
      apply hround l a [] rfl b₁ b' _ hlast
      apply ih _ hfront
      intro before x after hsplit
      exact hround before x (after ++ [a]) (by simp [hsplit])

/-- The loop returns if every element is one whose round returns after the rounds so far. -/
theorem foldlM_returns_iff_history (hstart : I [] b)
    (hround : ∀ before a after, l = before ++ a :: after → ∀ b b', I before b → f b a = .ok b' →
      I (before ++ [a]) b')
    (hguard : ∀ before a after, l = before ++ a :: after → ∀ b, I before b →
      ((∃ b', f b a = .ok b') ↔ Q before a)) :
    (∃ b', l.foldlM f b = .ok b') ↔
      ∀ before a after, l = before ++ a :: after → Q before a := by
  induction l using List.reverseRecOn with
  | nil =>
      constructor
      · intro _ before a after hsplit
        simp at hsplit
      · exact fun _ => ⟨b, rfl⟩
  | append_singleton l a ih =>
      have hfront : ∀ before x after, l = before ++ x :: after →
          l ++ [a] = before ++ x :: (after ++ [a]) := by
        rintro before x after rfl
        simp
      have hround' := fun before x after hsplit =>
        hround before x (after ++ [a]) (hfront before x after hsplit)
      have ih := ih hround' fun before x after hsplit =>
        hguard before x (after ++ [a]) (hfront before x after hsplit)
      constructor
      · rintro ⟨b', hloop⟩ before x after hsplit
        obtain ⟨b₁, hrest, hlast⟩ := foldlM_snoc_ok.mp hloop
        cases after using List.reverseRecOn with
        | nil =>
            obtain ⟨rfl, rfl⟩ : l = before ∧ a = x := by simpa using hsplit
            have hkept := foldlM_history hstart hround' hrest
            exact (hguard l a [] rfl b₁ hkept).mp ⟨b', hlast⟩
        | append_singleton after y =>
            apply ih.mp ⟨b₁, hrest⟩ before x after
            rw [← List.cons_append, ← List.append_assoc] at hsplit
            exact (List.append_inj' hsplit rfl).1
      · intro h
        obtain ⟨b₁, hrest⟩ := ih.mpr fun before x after hsplit =>
          h before x (after ++ [a]) (hfront before x after hsplit)
        have hkept := foldlM_history hstart hround' hrest
        obtain ⟨b', hlast⟩ := (hguard l a [] rfl b₁ hkept).mpr (h l a [] rfl)
        exact ⟨b', foldlM_snoc_ok.mpr ⟨b₁, hrest, hlast⟩⟩

end History

/-- The results of a list are those of its head and of its tail. -/
theorem mapM_cons_ok {f : α → Except ε β} {a : α} {l : List α} {results : List β} :
    (a :: l).mapM f = .ok results ↔
      ∃ b rest, f a = .ok b ∧ l.mapM f = .ok rest ∧ results = b :: rest := by
  rw [List.mapM_cons]
  cases f a with
  | error e =>
      constructor
      · intro h
        contradiction
      · rintro ⟨b, rest, h, -⟩
        contradiction
  | ok b =>
      cases l.mapM f with
      | error e =>
          constructor
          · intro h
            contradiction
          · rintro ⟨b', rest, -, h, -⟩
            contradiction
      | ok rest =>
          constructor
          · intro h
            exact ⟨b, rest, rfl, rfl, (Except.ok.inj h).symm⟩
          · rintro ⟨b', rest', hb, hrest, rfl⟩
            obtain rfl := Except.ok.inj hb
            obtain rfl := Except.ok.inj hrest
            rfl

/-- A list of results is built if there is one for each element. -/
theorem mapM_returns_iff {f : α → Except ε β} {l : List α} :
    (∃ results, l.mapM f = .ok results) ↔ ∀ a ∈ l, ∃ b, f a = .ok b := by
  induction l with
  | nil =>
      constructor
      · simp
      · exact fun _ => ⟨[], rfl⟩
  | cons a l ih =>
      rw [List.forall_mem_cons, ← ih]
      constructor
      · rintro ⟨results, h⟩
        obtain ⟨b, rest, hb, hrest, -⟩ := mapM_cons_ok.mp h
        exact ⟨⟨b, hb⟩, rest, hrest⟩
      · rintro ⟨⟨b, hb⟩, rest, hrest⟩
        exact ⟨b :: rest, mapM_cons_ok.mpr ⟨b, rest, hb, hrest, rfl⟩⟩

/-- Each element has a result in the list. -/
theorem mapM_ok_mem {f : α → Except ε β} {a : α} {l : List α} {results : List β}
    (h : l.mapM f = .ok results) (ha : a ∈ l) : ∃ b ∈ results, f a = .ok b := by
  induction l generalizing results with
  | nil => contradiction
  | cons x l ih =>
      obtain ⟨b, rest, hb, hrest, rfl⟩ := mapM_cons_ok.mp h
      rcases List.mem_cons.mp ha with rfl | ha
      · exact ⟨b, List.mem_cons_self, hb⟩
      · obtain ⟨c, hc, hresult⟩ := ih hrest ha
        exact ⟨c, List.mem_cons_of_mem b hc, hresult⟩

/-- A list of results that is not built has an element without one. -/
theorem mapM_error {f : α → Except ε β} {l : List α} {e : ε} (h : l.mapM f = .error e) :
    ∃ a ∈ l, f a = .error e := by
  induction l with
  | nil => contradiction
  | cons a l ih =>
      rw [List.mapM_cons] at h
      cases hfirst : f a with
      | error e' =>
          rw [hfirst] at h
          obtain rfl := Except.error.inj h
          exact ⟨a, List.mem_cons_self, hfirst⟩
      | ok b =>
          rw [hfirst] at h
          cases hrest : l.mapM f with
          | error e' =>
              rw [hrest] at h
              obtain rfl := Except.error.inj h
              obtain ⟨x, hx, hfail⟩ := ih hrest
              exact ⟨x, List.mem_cons_of_mem a hx, hfail⟩
          | ok results =>
              rw [hrest] at h
              contradiction

end Foundations
