import Resalloc.Foundations.Runs
import Resalloc.Foundations.StableQueue
import Resalloc.Server.PriorityQueue

/-!
# The priority queue is a stable queue

Entries of removed tasks stay in the heap, with a mark in place of the task.  The others are
the tasks of a stable queue: their counts tell in which order they were added.

Main results:

- Definition {lit}`PriorityQueue.Refines`: which stable queue a priority queue implements.
- Theorems {lit}`Refines.removeTask`, {lit}`Refines.addTask` and {lit}`Refines.popTask`: the
  operations implement those of the stable queue.
- Theorem {lit}`PriorityQueue.answers_stable`: every sequence of operations has the same answers.
-/

namespace Resalloc

open Foundations

/-- A call of a method of the queue. -/
inductive QueueOp (τ : Type)
  | addTask (task : τ) (priority : Int)
  | removeTask (task : τ)
  | popTask

/-- How a call ends. -/
inductive QueueAnswer (τ : Type)
  | done
  | popped (task : τ)
  | keyError
deriving DecidableEq

variable {τ : Type} [DecidableEq τ]

/-- A call of a method, on the heap with its entry map. -/
def PriorityQueue.call (q : PriorityQueue τ) : QueueOp τ → QueueAnswer τ × PriorityQueue τ
  | .addTask task priority => (.done, q.addTask task priority)
  | .removeTask task =>
      match q.removeTask task with
      | .error _ => (.keyError, q)
      | .ok q => (.done, q)
  | .popTask =>
      match q.popTask with
      | (none, q) => (.keyError, q)
      | (some task, q) => (.popped task, q)

/-- What the calls are for: the behaviour of a stable queue. -/
def stableCall (l : StableQueue τ Int) : QueueOp τ → QueueAnswer τ × StableQueue τ Int
  | .addTask task priority => (.done, l.add task priority)
  | .removeTask task => if l.Queued task then (.done, l.drop task) else (.keyError, l)
  | .popTask =>
      match l.best with
      | none => (.keyError, l)
      | some (task, _) => (.popped task, l.drop task)

namespace PriorityQueue

variable {q q' : PriorityQueue τ} {l : StableQueue τ Int} {task other : τ} {priority : Int}

omit [DecidableEq τ] in
/-- The task of an entry, with the priority it was added with. -/
def content (e : Entry τ) : Option (τ × Int) := e.task.map fun task => (task, -e.priority)

omit [DecidableEq τ] in
/-- An entry that is not marked holds its task. -/
theorem content_eq_some {e : Entry τ} :
    content e = some (task, priority) ↔ e.task = some task ∧ priority = -e.priority := by
  cases htask : e.task <;> simp [content, htask, eq_comm]

omit [DecidableEq τ] in
/-- The entries that are not marked are the tasks of the stable queue, by their counts. -/
structure Refines (q : PriorityQueue τ) (l : StableQueue τ Int) : Prop where
  wf : q.WF
  entries : ∃ es : List (Entry τ), es.Pairwise (fun e f => e.count < f.count) ∧
    (∀ e ∈ es, ∃ task, e.task = some task) ∧
    (∀ e task, e.task = some task → (e ∈ es ↔ e ∈ q.prioQueue)) ∧ l = es.filterMap content

omit [DecidableEq τ] in
/-- A new queue implements the empty one. -/
theorem refines_empty : Refines ({} : PriorityQueue τ) [] :=
  ⟨wf_empty, [], by simp, by simp, by simp, rfl⟩

omit [DecidableEq τ] in
/-- The stable queue holds the same tasks. -/
theorem Refines.queued_iff (h : Refines q l) : l.Queued task ↔ task ∈ q.tasks := by
  obtain ⟨-, es, -, htasks, hmem, rfl⟩ := h
  rw [StableQueue.Queued, List.mem_map, mem_tasks]
  constructor
  · rintro ⟨⟨x, priority⟩, hx, rfl⟩
    obtain ⟨e, he, hcontent⟩ := List.mem_filterMap.mp hx
    obtain ⟨htask, -⟩ := content_eq_some.mp hcontent
    exact ⟨e, (hmem e x htask).mp he, htask⟩
  · rintro ⟨e, he, htask⟩
    exact ⟨(task, -e.priority), List.mem_filterMap.mpr
      ⟨e, (hmem e task htask).mpr he, content_eq_some.mpr ⟨htask, rfl⟩⟩, rfl⟩

/-- Tasks are dropped with their entries. -/
theorem drop_filterMap (es : List (Entry τ)) (task : τ) :
    StableQueue.drop (es.filterMap content) task =
      (es.filter fun e => e.task ≠ some task).filterMap content := by
  induction es with
  | nil => rfl
  | cons e es ih =>
      cases htask : e.task with
      | none =>
          have hcontent : content e = none := by simp [content, htask]
          simpa [hcontent, htask] using ih
      | some x =>
          have hcontent : content e = some (x, -e.priority) := content_eq_some.mpr ⟨htask, rfl⟩
          by_cases hx : x = task
          · subst hx
            simpa [StableQueue.drop, hcontent, htask] using ih
          · have hne : (x, -e.priority).1 ≠ task := hx
            simpa [StableQueue.drop, hcontent, htask, hx] using ih

/-- A queue without the entry of a task implements the stable queue without that task. -/
theorem Refines.without (h : Refines q l) (hwf : q'.WF)
    (hentries : ∀ e other, e.task = some other →
      (e ∈ q'.prioQueue ↔ e ∈ q.prioQueue ∧ other ≠ task)) : Refines q' (l.drop task) := by
  obtain ⟨-, es, hsorted, htasks, hmem, rfl⟩ := h
  refine ⟨hwf, es.filter fun e => e.task ≠ some task, hsorted.filter _, fun e he => ?_,
    fun e other hother => ?_, drop_filterMap es task⟩
  · exact htasks e (List.mem_of_mem_filter he)
  · rw [hentries e other hother, List.mem_filter, hmem e other hother, hother]
    simp

/-- Removing a queued task. -/
theorem Refines.removeTask (h : Refines q l) (hqueued : l.Queued task) :
    ∃ q', q.removeTask task = .ok q' ∧ Refines q' (l.drop task) ∧ q'.counter = q.counter := by
  obtain ⟨q', hremove, hwf, hcounter, hentries⟩ := h.wf.removeTask_eq (h.queued_iff.mp hqueued)
  exact ⟨q', hremove, h.without hwf hentries, hcounter⟩

/-- Pushing a task that is not queued puts it behind the others. -/
theorem Refines.push (h : Refines q l) (hnew : ¬ l.Queued task) (priority : Int)
    (hwf : (q.addTask task priority).WF) :
    Refines (q.addTask task priority) (l ++ [(task, priority)]) := by
  have hremove := h.wf.removeTask_error (mt h.queued_iff.mpr hnew)
  obtain ⟨hq, es, hsorted, htasks, hmem, rfl⟩ := h
  refine ⟨hwf, es ++ [⟨-priority, q.counter, some task⟩], ?_, ?_, ?_, ?_⟩
  · rw [List.pairwise_append]
    refine ⟨hsorted, by simp, fun e he f hf => ?_⟩
    obtain ⟨x, hx⟩ := htasks e he
    rw [List.mem_singleton.mp hf]
    exact hq.bound e ((hmem e x hx).mp he)
  · intro e he
    rcases List.mem_append.mp he with he | he
    · exact htasks e he
    · exact ⟨task, by rw [List.mem_singleton.mp he]⟩
  · intro e x hx
    simp only [PriorityQueue.addTask, hremove, List.mem_append, List.mem_singleton,
      List.mem_orderedInsert, hmem e x hx]
    exact or_comm
  · simp [content]

/-- A task that is queued is removed before it is pushed. -/
theorem addTask_of_removeTask {e : PyError} (hremove : q.removeTask task = .ok q')
    (hgone : q'.removeTask task = .error e) :
    q.addTask task priority = q'.addTask task priority := by
  simp [PriorityQueue.addTask, hremove, hgone]

/-- Adding a task. -/
theorem Refines.addTask (h : Refines q l) (task : τ) (priority : Int) :
    Refines (q.addTask task priority) (l.add task priority) := by
  by_cases hqueued : l.Queued task
  · obtain ⟨q', hremove, hrefines, -⟩ := h.removeTask hqueued
    have hgone : ¬ StableQueue.Queued (l.drop task) task := by
      simp [StableQueue.Queued, StableQueue.drop]
    have herror := hrefines.wf.removeTask_error (mt hrefines.queued_iff.mpr hgone)
    rw [addTask_of_removeTask hremove herror]
    exact hrefines.push hgone priority (hrefines.wf.addTask task priority).1
  · have hdrop : l.drop task = l := by
      apply List.filter_eq_self.mpr
      intro e he
      rw [decide_eq_true_eq]
      rintro rfl
      exact hqueued (List.mem_map_of_mem he)
    rw [StableQueue.add, hdrop]
    exact h.push hqueued priority (h.wf.addTask task priority).1

/-- Nothing can be popped from a queue without tasks. -/
theorem Refines.popTask_none (h : Refines q l) (hpop : q.popTask = (none, q')) :
    l = [] ∧ Refines q' [] := by
  have hempty : q.tasks = [] := popTask_eq_none.mp (by rw [hpop])
  have hnone : l = [] := by
    by_contra hne
    obtain ⟨e, he⟩ := List.exists_mem_of_ne_nil l hne
    have hqueued : l.Queued e.1 := List.mem_map_of_mem he
    simpa [hempty] using h.queued_iff.mp hqueued
  refine ⟨hnone, ?_, [], by simp, by simp, ?_, rfl⟩
  all_goals obtain rfl := popTask_none_parts hpop
  · refine ⟨List.Pairwise.nil, List.nodup_nil, by simp, fun task count => ?_, h.wf.keys⟩
    rw [h.wf.finder]
    constructor
    · rintro ⟨e, he, htask, -⟩
      have hmem := mem_tasks.mpr ⟨e, he, htask⟩
      simp [hempty] at hmem
    · simp
  · simp

/-- A popped task is the one that the stable queue serves. -/
theorem Refines.popTask_some (h : Refines q l) (hpop : q.popTask = (some task, q')) :
    ∃ priority, l.best = some (task, priority) ∧ Refines q' (l.drop task) := by
  obtain ⟨hwf', htasks'⟩ := h.wf.popTask_some hpop
  have hnodup := h.wf.tasks_nodup
  rw [htasks', List.nodup_cons] at hnodup
  obtain ⟨dropped, e, rest, heq, he, hdropped, rfl⟩ := popTask_some_parts hpop
  -- the other entries with a task come behind it in the heap
  have hbehind : ∀ f other, f.task = some other → f ∈ q.prioQueue → f = e ∨ f ∈ rest := by
    intro f other hf hmem
    rw [heq] at hmem
    rcases List.mem_append.mp hmem with hmem | hmem
    · simp [hdropped f hmem] at hf
    · exact List.mem_cons.mp hmem
  have hentries : ∀ f other, f.task = some other →
      (f ∈ rest ↔ f ∈ q.prioQueue ∧ other ≠ task) := by
    intro f other hf
    constructor
    · intro hmem
      refine ⟨by simp [heq, hmem], ?_⟩
      rintro rfl
      exact hnodup.1 (mem_tasks.mpr ⟨f, hmem, hf⟩)
    · rintro ⟨hmem, hne⟩
      rcases hbehind f other hf hmem with rfl | hrest
      · exact absurd (Option.some.inj (hf.symm.trans he)) hne
      · exact hrest
  refine ⟨-e.priority, ?_, h.without hwf' hentries⟩
  obtain ⟨hwf, es, hsorted, htasks, hmem, rfl⟩ := h
  have hes : e ∈ es := (hmem e task he).mpr (by simp [heq])
  obtain ⟨before, after, rfl⟩ := List.append_of_mem hes
  have hcontent : content e = some (task, -e.priority) := content_eq_some.mpr ⟨he, rfl⟩
  rw [List.filterMap_append, List.filterMap_cons_some hcontent]
  have hlater : ∀ f ∈ before ++ e :: after, f ≠ e → e.Before f := by
    intro f hf hne
    obtain ⟨other, hother⟩ := htasks f hf
    have hrest := (hbehind f other hother ((hmem f other hother).mp hf)).resolve_left hne
    have hbefore := hwf.sorted
    rw [heq, List.pairwise_append, List.pairwise_cons] at hbefore
    exact hbefore.2.1.1 f hrest
  rw [List.pairwise_append, List.pairwise_cons] at hsorted
  apply StableQueue.best_eq_some
  · intro x hx
    obtain ⟨f, hf, hfx⟩ := List.mem_filterMap.mp hx
    obtain ⟨-, hpriority⟩ := content_eq_some.mp hfx
    have hcount := hsorted.2.2 f hf e List.mem_cons_self
    have hafter := hlater f (by simp [hf]) (by rintro rfl; exact absurd hcount (lt_irrefl _))
    simp only [Entry.Before] at hafter
    omega
  · intro x hx
    obtain ⟨f, hf, hfx⟩ := List.mem_filterMap.mp hx
    obtain ⟨-, hpriority⟩ := content_eq_some.mp hfx
    have hcount := hsorted.2.1.1 f hf
    have hafter := hlater f (by simp [hf]) (by rintro rfl; exact absurd hcount (lt_irrefl _))
    simp only [Entry.Before] at hafter
    omega

/-- Every call has the answer of the stable queue. -/
theorem Refines.call (h : Refines q l) (op : QueueOp τ) :
    (q.call op).1 = (stableCall l op).1 ∧ Refines (q.call op).2 (stableCall l op).2 := by
  cases op with
  | addTask task priority => exact ⟨rfl, h.addTask task priority⟩
  | removeTask task =>
      by_cases hqueued : l.Queued task
      · obtain ⟨q', hremove, hrefines, -⟩ := h.removeTask hqueued
        simp only [PriorityQueue.call, hremove, stableCall, if_pos hqueued]
        exact ⟨trivial, hrefines⟩
      · have herror := h.wf.removeTask_error (mt h.queued_iff.mpr hqueued)
        simp only [PriorityQueue.call, herror, stableCall, if_neg hqueued]
        exact ⟨trivial, h⟩
  | popTask =>
      cases hpop : q.popTask with
      | mk answer q' =>
          cases answer with
          | none =>
              obtain ⟨rfl, hrefines⟩ := h.popTask_none hpop
              simp only [PriorityQueue.call, hpop, stableCall, StableQueue.best]
              exact ⟨trivial, hrefines⟩
          | some task =>
              obtain ⟨priority, hbest, hrefines⟩ := h.popTask_some hpop
              simp only [PriorityQueue.call, hpop, stableCall, hbest]
              exact ⟨trivial, hrefines⟩

/-- The answers to every sequence of calls are those of a stable queue, and afterwards the
entry map holds exactly the tasks that are queued there, each once. -/
theorem answers_stable (ops : List (QueueOp τ)) :
    (trace PriorityQueue.call {} ops).1 = (trace stableCall [] ops).1 ∧
      (∀ task, task ∈ (trace PriorityQueue.call {} ops).2.entryFinder.map Prod.fst ↔
        StableQueue.Queued (trace stableCall [] ops).2 task) ∧
      ((trace PriorityQueue.call {} ops).2.entryFinder.map Prod.fst).Nodup := by
  obtain ⟨hanswers, hrefines⟩ := trace_simulates
    (fun _ _ op h => Refines.call h op) (refines_empty (τ := τ)) ops
  refine ⟨hanswers, fun task => ?_, hrefines.wf.keys⟩
  rw [hrefines.queued_iff, mem_tasks, List.mem_map]
  constructor
  · rintro ⟨⟨x, count⟩, hx, rfl⟩
    obtain ⟨e, he, htask, -⟩ := (hrefines.wf.finder x count).mp hx
    exact ⟨e, he, htask⟩
  · rintro ⟨e, he, htask⟩
    exact ⟨(task, e.count), (hrefines.wf.finder task e.count).mpr ⟨e, he, htask, rfl⟩, rfl⟩

/-- A task that is added again loses its place among equals. -/
example :
    (trace (PriorityQueue.call (τ := ℕ)) {}
      [.addTask 1 5, .addTask 2 7, .addTask 1 7, .popTask, .popTask, .popTask]).1 =
      [.done, .done, .done, .popped 2, .popped 1, .keyError] := by
  decide

end PriorityQueue

end Resalloc
