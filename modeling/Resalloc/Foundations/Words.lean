import Mathlib.Data.List.DropRight
import Resalloc.Foundations.Lines

/-!
# Words of a text

The words of a text are what is between its spaces.  A word stays a word when spaces are
added around the text, and when the text goes on after a space.

Main results:

- Theorem {lit}`isWord_of_mem_words`: where the words of a text are.
- Theorem {lit}`IsWord.of_strip`: the words of a stripped text.
-/

namespace Foundations

variable {α : Type} {isSpace : α → Bool} {w text : List α}

/-- The non-empty pieces between the spaces of a text. -/
def words (isSpace : α → Bool) (text : List α) : List (List α) :=
  (text.splitOnP isSpace).filter fun w => !w.isEmpty

/-- The text without the spaces at its ends. -/
def strip (isSpace : α → Bool) (text : List α) : List α :=
  (text.dropWhile isSpace).rdropWhile isSpace

/-- A text contains a word, with a space or nothing on both sides. -/
def IsWord (isSpace : α → Bool) (w text : List α) : Prop :=
  ∃ before after, text = before ++ w ++ after ∧ w ≠ [] ∧ (∀ a ∈ w, isSpace a = false) ∧
    (∀ a, before.getLast? = some a → isSpace a = true) ∧
    ∀ a, after.head? = some a → isSpace a = true

/-- The words of a text are surrounded by spaces. -/
theorem isWord_of_mem_words (h : w ∈ words isSpace text) : IsWord isSpace w text := by
  induction text using breakRec isSpace with
  | rest text hnone =>
      rw [words, List.splitOnP_eq_singleton hnone] at h
      obtain ⟨hmem, hne⟩ := List.mem_filter.mp h
      obtain rfl := List.mem_singleton.mp hmem
      exact ⟨[], [], by simp, by simpa using hne, hnone, by simp, by simp⟩
  | line body a text hbody ha ih =>
      rw [words, List.splitOnP_append_cons _ _ ha, List.splitOnP_eq_singleton hbody,
        List.singleton_append, List.filter_cons] at h
      -- a word of the rest, or the part before the first space
      have hrest : w ∈ words isSpace text → IsWord isSpace w (body ++ a :: text) := by
        intro hmem
        obtain ⟨before, after, rfl, hne, hw, hbefore, hafter⟩ := ih hmem
        refine ⟨body ++ a :: before, after, by simp, hne, hw, ?_, hafter⟩
        intro c hc
        cases before with
        | nil =>
            simp only [List.getLast?_append, List.getLast?_singleton, Option.some_or,
              Option.some.injEq] at hc
            rwa [← hc]
        | cons b before => exact hbefore c (by simpa [List.getLast?_cons] using hc)
      split_ifs at h with hempty
      · rcases List.mem_cons.mp h with rfl | hmem
        · exact ⟨[], a :: text, by simp, by simpa using hempty, hbody, by simp, by simpa using ha⟩
        · exact hrest hmem
      · exact hrest h

/-- A word of the stripped text is a word of the text. -/
theorem IsWord.of_strip (h : IsWord isSpace w (strip isSpace text)) : IsWord isSpace w text := by
  obtain ⟨before, after, hstrip, hne, hw, hbefore, hafter⟩ := h
  have hfront : text.takeWhile isSpace ++ text.dropWhile isSpace = text :=
    List.takeWhile_append_dropWhile
  have hback := List.rdropWhile_append_rtakeWhile (p := isSpace) (l := text.dropWhile isSpace)
  rw [← strip.eq_def, hstrip] at hback
  refine ⟨text.takeWhile isSpace ++ before, after ++ (text.dropWhile isSpace).rtakeWhile isSpace,
    ?_, hne, hw, ?_, ?_⟩
  · calc text = text.takeWhile isSpace ++ text.dropWhile isSpace := hfront.symm
      _ = text.takeWhile isSpace ++
          (before ++ w ++ after ++ (text.dropWhile isSpace).rtakeWhile isSpace) := by rw [hback]
      _ = text.takeWhile isSpace ++ before ++ w ++
          (after ++ (text.dropWhile isSpace).rtakeWhile isSpace) := by
        simp only [List.append_assoc]
  · intro a ha
    cases hlast : before.getLast? with
    | none =>
        rw [List.getLast?_append, hlast, Option.none_or] at ha
        exact List.mem_takeWhile_imp (List.mem_of_getLast? ha)
    | some b =>
        rw [List.getLast?_append, hlast, Option.some_or] at ha
        obtain rfl := Option.some.inj ha
        exact hbefore b hlast
  · intro a ha
    cases hhead : after.head? with
    | none =>
        rw [List.head?_append, hhead, Option.none_or] at ha
        exact List.mem_rtakeWhile_imp (List.mem_of_head? ha)
    | some b =>
        rw [List.head?_append, hhead, Option.some_or] at ha
        obtain rfl := Option.some.inj ha
        exact hafter b hhead

end Foundations
