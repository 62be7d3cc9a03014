import Mathlib.Data.List.TakeWhile

/-!
# Lines of a stream

A stream is cut after each mark.  What follows the last mark is not complete yet: it is
continued when more of the stream is known, and it is the last line when there is no more.

Main results:

- Theorem {lit}`linesRec`: a stream has no mark, or it starts with a complete line.
- Theorems {lit}`completeLines_append` and {lit}`lastLine_append`: the lines do not depend
  on the chunks in which a stream arrives.
- Theorem {lit}`flatten_cutLines`: nothing is lost.
- Theorem {lit}`exists_cutLines_cons`: the line that a non-empty rest continues.
-/

namespace Foundations

variable {α : Type} [DecidableEq α] {mark : α} {s t line : List α}

/-- The complete lines of a stream: each one ends with its first mark. -/
def completeLines (mark : α) : List α → List (List α)
  | [] => []
  | a :: s =>
      if a = mark then [a] :: completeLines mark s
      else (completeLines mark s).modifyHead (List.cons a)

/-- What follows the last mark of a stream. -/
def lastLine (mark : α) : List α → List α
  | [] => []
  | a :: s => if mark ∈ a :: s then lastLine mark s else a :: s

/-- The lines of a stream that has ended. -/
def cutLines (mark : α) (s : List α) : List (List α) :=
  completeLines mark s ++ if lastLine mark s = [] then [] else [lastLine mark s]

/-! ## The first line -/

omit [DecidableEq α] in
/-- A list has no element of a kind, or it goes on after the first one. -/
theorem breakRec (isMark : α → Bool) {motive : List α → Prop}
    (rest : ∀ s, (∀ a ∈ s, isMark a = false) → motive s)
    (line : ∀ body a s, (∀ b ∈ body, isMark b = false) → isMark a = true → motive s →
      motive (body ++ a :: s)) (s : List α) : motive s := by
  have hbody : ∀ b ∈ s.takeWhile fun a => !isMark a, isMark b = false := by
    intro b hb
    simpa using List.mem_takeWhile_imp hb
  have hsplit := @List.takeWhile_append_dropWhile _ (fun a => !isMark a) s
  cases hdrop : s.dropWhile fun a => !isMark a with
  | nil =>
      rw [hdrop, List.append_nil] at hsplit
      exact rest s (hsplit ▸ hbody)
  | cons a s' =>
      have hmark : isMark a = true := by
        have hhead := List.head?_dropWhile_not (fun a => !isMark a) s
        simpa [hdrop] using hhead
      have hshorter : s'.length < s.length := by
        rw [← hsplit, hdrop, List.length_append, List.length_cons]
        omega
      rw [← hsplit, hdrop]
      exact line _ a s' hbody hmark (breakRec isMark rest line s')
termination_by s.length

/-- A stream has no mark, or it starts with a complete line. -/
theorem linesRec (mark : α) {motive : List α → Prop} (rest : ∀ s, mark ∉ s → motive s)
    (line : ∀ body s, mark ∉ body → motive s → motive (body ++ mark :: s)) (s : List α) :
    motive s := by
  have hnone : ∀ s : List α, (∀ a ∈ s, decide (a = mark) = false) → mark ∉ s := by
    intro s hs hmem
    simpa using hs mark hmem
  induction s using breakRec fun a => decide (a = mark) with
  | rest s hs => exact rest s (hnone s hs)
  | line body a s hbody ha ih =>
      rw [decide_eq_true_eq] at ha
      subst ha
      exact line body s (hnone body hbody) ih

/-- A stream without a mark has no complete line. -/
theorem completeLines_of_not_mem (h : mark ∉ s) : completeLines mark s = [] := by
  induction s with
  | nil => rfl
  | cons a s ih =>
      rw [List.mem_cons, not_or] at h
      rw [completeLines, if_neg (Ne.symm h.1), ih h.2]
      rfl

/-- A stream without a mark is not complete yet. -/
theorem lastLine_of_not_mem (h : mark ∉ s) : lastLine mark s = s := by
  cases s with
  | nil => rfl
  | cons a s => rw [lastLine, if_neg h]

/-- The first mark ends the first line. -/
theorem completeLines_line {body : List α} (h : mark ∉ body) (s : List α) :
    completeLines mark (body ++ mark :: s) = (body ++ [mark]) :: completeLines mark s := by
  induction body with
  | nil => simp [completeLines]
  | cons a body ih =>
      rw [List.mem_cons, not_or] at h
      rw [List.cons_append, completeLines, if_neg (Ne.symm h.1), ih h.2]
      rfl

/-- What follows the last mark follows the first one. -/
theorem lastLine_line (body s : List α) : lastLine mark (body ++ mark :: s) = lastLine mark s := by
  induction body with
  | nil => simp [lastLine]
  | cons a body ih => simp [lastLine, ih]

/-! ## Chunks -/

/-- A stream goes on with the line that is not complete yet. -/
theorem completeLines_append (s t : List α) :
    completeLines mark (s ++ t) =
      completeLines mark s ++ completeLines mark (lastLine mark s ++ t) := by
  induction s using linesRec mark with
  | rest s h => rw [completeLines_of_not_mem h, lastLine_of_not_mem h, List.nil_append]
  | line body s h ih =>
      rw [List.append_assoc, List.cons_append, completeLines_line h, ih, completeLines_line h,
        lastLine_line, List.cons_append]

/-- What is not complete is the same however the stream arrives. -/
theorem lastLine_append (s t : List α) :
    lastLine mark (s ++ t) = lastLine mark (lastLine mark s ++ t) := by
  induction s using linesRec mark with
  | rest s h => rw [lastLine_of_not_mem h]
  | line body s h ih => rw [List.append_assoc, List.cons_append, lastLine_line, ih, lastLine_line]

/-- The lines of a whole stream go on with the line that is not complete yet. -/
theorem cutLines_append (s t : List α) :
    cutLines mark (s ++ t) = completeLines mark s ++ cutLines mark (lastLine mark s ++ t) := by
  rw [cutLines, cutLines, completeLines_append, lastLine_append, List.append_assoc]

/-! ## What lines are -/

/-- There is no mark after the last one. -/
theorem not_mem_lastLine (s : List α) : mark ∉ lastLine mark s := by
  induction s using linesRec mark with
  | rest s h => rwa [lastLine_of_not_mem h]
  | line body s h ih => rwa [lastLine_line]

/-- A complete line has a mark at its end only. -/
theorem exists_body_of_mem (h : line ∈ completeLines mark s) :
    ∃ body, mark ∉ body ∧ line = body ++ [mark] := by
  induction s using linesRec mark with
  | rest s hmark => simp [completeLines_of_not_mem hmark] at h
  | line body s hbody ih =>
      rw [completeLines_line hbody, List.mem_cons] at h
      rcases h with rfl | h
      · exact ⟨body, hbody, rfl⟩
      · exact ih h

/-- The complete lines and the rest are the stream. -/
theorem flatten_completeLines (mark : α) (s : List α) :
    (completeLines mark s).flatten ++ lastLine mark s = s := by
  induction s using linesRec mark with
  | rest s h => simp [completeLines_of_not_mem h, lastLine_of_not_mem h]
  | line body s h ih =>
      rw [completeLines_line h, lastLine_line, List.flatten_cons, List.append_assoc, ih]
      simp

/-- The lines of a stream are the stream. -/
theorem flatten_cutLines (s : List α) : (cutLines mark s).flatten = s := by
  have hflatten := flatten_completeLines mark s
  unfold cutLines
  split_ifs with hlast
  · simpa [hlast] using hflatten
  · simpa using hflatten

/-- No line is empty, and a mark is the last symbol of its line. -/
theorem line_of_mem_cutLines (h : line ∈ cutLines mark s) : line ≠ [] ∧ mark ∉ line.dropLast := by
  rcases List.mem_append.mp h with hcomplete | hlast
  · obtain ⟨body, hbody, rfl⟩ := exists_body_of_mem hcomplete
    simpa using hbody
  · split_ifs at hlast with hempty
    · simp at hlast
    · rw [List.mem_singleton.mp hlast]
      exact ⟨hempty, fun hmark => not_mem_lastLine s (List.dropLast_subset _ hmark)⟩

/-- Leading lines that are not all lines end with a mark. -/
theorem flatten_of_prefix_cutLines {kept : List (List α)} (h : kept <+: cutLines mark s) :
    ∃ rest, s = kept.flatten ++ rest ∧
      (kept = [] ∨ rest = [] ∨ ∃ body, kept.flatten = body ++ [mark]) := by
  obtain ⟨post, hpost⟩ := h
  refine ⟨post.flatten, by rw [← List.flatten_append, hpost, flatten_cutLines], ?_⟩
  cases hkept : kept.reverse with
  | nil => exact .inl (List.reverse_eq_nil_iff.mp hkept)
  | cons line before =>
      right
      cases post with
      | nil => exact .inl rfl
      | cons first post =>
          right
          rw [List.reverse_eq_cons_iff] at hkept
          have hcomplete : kept <+: completeLines mark s := by
            apply List.prefix_of_prefix_length_le ⟨_, hpost⟩ (List.prefix_append _ _)
            have hlength := congrArg List.length hpost
            rw [cutLines, List.length_append, List.length_append, List.length_cons] at hlength
            split_ifs at hlength <;> simp only [List.length_nil, List.length_singleton] at hlength
            all_goals omega
          have hline : line ∈ completeLines mark s := hcomplete.subset (by simp [hkept])
          obtain ⟨body, -, rfl⟩ := exists_body_of_mem hline
          exact ⟨before.reverse.flatten ++ body, by simp [hkept]⟩

/-- A line is not longer than its stream. -/
theorem length_le_of_mem_cutLines (h : line ∈ cutLines mark s) : line.length ≤ s.length := by
  have hsublist : line.Sublist (cutLines mark s).flatten := List.sublist_flatten_of_mem h
  rw [flatten_cutLines] at hsublist
  exact hsublist.length_le

/-- The rest is not longer than its stream. -/
theorem length_lastLine_le (s : List α) : (lastLine mark s).length ≤ s.length := by
  have hlength := congrArg List.length (flatten_completeLines mark s)
  rw [List.length_append] at hlength
  omega

/-- Something that follows an incomplete line makes it longer. -/
theorem exists_cutLines_cons (hs : mark ∉ s) (ht : t ≠ []) :
    ∃ line lines, cutLines mark (s ++ t) = line :: lines ∧ s.length < line.length := by
  by_cases hmark : mark ∈ t
  · obtain ⟨body, rest, rfl, hbody⟩ := List.eq_append_cons_of_mem hmark
    have hfirst : mark ∉ s ++ body := by simp [hs, hbody]
    refine ⟨s ++ body ++ [mark], cutLines mark rest, ?_, by simp⟩
    rw [cutLines, cutLines, ← List.append_assoc, completeLines_line hfirst, lastLine_line,
      List.cons_append]
  · have hall : mark ∉ s ++ t := by simp [hs, hmark]
    have hne : s ++ t ≠ [] := by simp [ht]
    refine ⟨s ++ t, [], ?_, ?_⟩
    · rw [cutLines, completeLines_of_not_mem hall, lastLine_of_not_mem hall, if_neg hne]
      rfl
    · have hlength := List.length_pos_iff.mpr ht
      rw [List.length_append]
      omega

end Foundations
