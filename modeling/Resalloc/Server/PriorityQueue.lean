import Mathlib.Data.List.Sort
import Resalloc.Helpers

/-!
# The server's priority queue

The queue of {lit}`resallocserver/priority_queue.py`: a heap of entries, a map
from tasks to their entries, and a running insertion counter.  A task is removed
lazily, by marking its entry.  The heap is kept as the ordered list of its
entries, which is what {lit}`heappush` and {lit}`heappop` promise about it.

Main results:

- Definition {lit}`PriorityQueue.WF`: the entry map holds exactly the queued
  tasks, each once.
- Theorems {lit}`addTask_wf` and {lit}`popTask_wf`: the operations keep it.
- Theorems {lit}`mem_tasks_addTask` and {lit}`popTask_some`: the queued tasks
  after an insertion and after a removal.
- Theorem {lit}`WF.popUntil_eq`: popping until a test is passed.
- Theorem {lit}`Ascending.tasks_pairwise`: the order in which tasks are popped.
-/

namespace Resalloc

/-- A heap entry {lit}`[-priority, count, task]`; the removed marker is
{lean}`none`. -/
structure Entry (τ : Type) where
  priority : Int
  count : ℕ
  task : Option τ
deriving DecidableEq

/-- The order in which the heap compares entries: never beyond the count, which
is unique. -/
def Entry.Before {τ : Type} (e f : Entry τ) : Prop :=
  e.priority < f.priority ∨ e.priority = f.priority ∧ e.count ≤ f.count

instance {τ : Type} : DecidableRel (Entry.Before : Entry τ → Entry τ → Prop) := fun e f =>
  inferInstanceAs (Decidable (e.priority < f.priority ∨ e.priority = f.priority ∧ _))

instance {τ : Type} : Std.Total (Entry.Before : Entry τ → Entry τ → Prop) where
  total e f := by simp only [Entry.Before]; omega

instance {τ : Type} : IsTrans (Entry τ) Entry.Before where
  trans e f g := by simp only [Entry.Before]; omega

/-- The queue's attributes. -/
structure PriorityQueue (τ : Type) where
  prioQueue : List (Entry τ) := []
  /-- Mapping of tasks to entries, which are identified by their count. -/
  entryFinder : List (τ × ℕ) := []
  counter : ℕ := 0
deriving DecidableEq

namespace PriorityQueue

variable {τ : Type} [DecidableEq τ]

/-! ## Operations -/

/-- Drop the removed entries at the front of the heap and the first other one. -/
def heappopTask : List (Entry τ) → Option (τ × List (Entry τ))
  | [] => none
  | e :: rest =>
      match e.task with
      | none => heappopTask rest
      | some task => some (task, rest)

/-- Replace the task of the entry with a count by the removed marker. -/
def markRemoved (count : ℕ) (e : Entry τ) : Entry τ :=
  if e.count = count then { e with task := none } else e

/-- Mark an existing task as removed. -/
def removeTask (q : PriorityQueue τ) (task : τ) : Except PyError (PriorityQueue τ) :=
  match q.entryFinder.lookup task with
  | none => .error .keyError
  | some count =>
      .ok { q with
        prioQueue := q.prioQueue.map (markRemoved count)
        entryFinder := q.entryFinder.filter fun entry => entry.1 ≠ task }

/-- Add a new task or update the priority of an existing task. -/
def addTask (q : PriorityQueue τ) (task : τ) (priority : Int) : PriorityQueue τ :=
  let q := match q.removeTask task with
    | .ok q => q
    | .error _ => q
  { prioQueue := q.prioQueue.orderedInsert Entry.Before ⟨-priority, q.counter, some task⟩
    entryFinder := (task, q.counter) :: q.entryFinder
    counter := q.counter + 1 }

/-- Remove and return the first task; {lean}`none` stands for the
{lit}`KeyError` of an empty queue. -/
def popTask (q : PriorityQueue τ) : Option τ × PriorityQueue τ :=
  match heappopTask q.prioQueue with
  | none => (none, { q with prioQueue := [] })
  | some (task, rest) =>
      (some task,
        { q with
          prioQueue := rest
          entryFinder := q.entryFinder.filter fun entry => entry.1 ≠ task })

/-- Pop tasks until one passes the test, as the {lit}`while True` loops around
{lit}`pop_task` do; every round shortens the heap. -/
def popUntil (q : PriorityQueue τ) (test : τ → Bool) : Option τ :=
  go q.prioQueue.length q
where
  /-- The rounds of the loop. -/
  go : ℕ → PriorityQueue τ → Option τ
  | 0, _ => none
  | rounds + 1, q =>
      match q.popTask with
      | (none, _) => none
      | (some task, q) => if test task then some task else go rounds q

/-- The queued tasks, in the order in which they will be popped. -/
def tasks (q : PriorityQueue τ) : List τ := q.prioQueue.filterMap Entry.task

/-! ## Well-formed queues -/

omit [DecidableEq τ] in
/-- The entry map holds exactly the queued tasks, counts identify entries, and
the heap is ordered. -/
structure WF (q : PriorityQueue τ) : Prop where
  sorted : q.prioQueue.Pairwise Entry.Before
  counts : (q.prioQueue.map Entry.count).Nodup
  bound : ∀ e ∈ q.prioQueue, e.count < q.counter
  finder : ∀ task count, (task, count) ∈ q.entryFinder ↔
    ∃ e ∈ q.prioQueue, e.task = some task ∧ e.count = count
  keys : (q.entryFinder.map Prod.fst).Nodup

omit [DecidableEq τ] in
/-- A new queue is well formed. -/
theorem wf_empty : ({} : PriorityQueue τ).WF :=
  ⟨List.Pairwise.nil, List.nodup_nil, by simp, by simp, List.nodup_nil⟩

variable {q : PriorityQueue τ} {task other : τ} {priority : Int}

omit [DecidableEq τ] in
/-- A task is queued when some entry holds it. -/
theorem mem_tasks : task ∈ q.tasks ↔ ∃ e ∈ q.prioQueue, e.task = some task := by
  simp [tasks, List.mem_filterMap]

omit [DecidableEq τ] in
/-- The counts recorded for one task agree. -/
theorem WF.finder_unique (h : q.WF) {c d : ℕ} (hc : (task, c) ∈ q.entryFinder)
    (hd : (task, d) ∈ q.entryFinder) : c = d := by
  have hpair := List.inj_on_of_nodup_map h.keys hc hd rfl
  exact (Prod.mk.inj hpair).2

omit [DecidableEq τ] in
/-- No task is queued twice. -/
theorem WF.tasks_nodup (h : q.WF) : q.tasks.Nodup := by
  rw [tasks, List.Nodup, List.pairwise_filterMap]
  have hcounts := List.pairwise_map.mp h.counts
  refine hcounts.imp_of_mem fun {e f} he hf hne x hx y hy hxy => hne ?_
  subst hxy
  exact h.finder_unique ((h.finder x _).mpr ⟨e, he, hx, rfl⟩)
    ((h.finder x _).mpr ⟨f, hf, hy, rfl⟩)

/-- The entry map finds the entry of a queued task. -/
theorem WF.lookup_eq_some (h : q.WF) {count : ℕ} :
    q.entryFinder.lookup task = some count ↔ (task, count) ∈ q.entryFinder := by
  constructor
  · intro hlookup
    obtain ⟨l₁, l₂, heq, -⟩ := List.lookup_eq_some_iff.mp hlookup
    simp [heq]
  · intro hmem
    cases hlookup : q.entryFinder.lookup task with
    | none =>
        have hne := List.lookup_eq_none_iff.mp hlookup _ hmem
        simp at hne
    | some other =>
        obtain ⟨l₁, l₂, heq, -⟩ := List.lookup_eq_some_iff.mp hlookup
        rw [h.finder_unique hmem (d := other) (by simp [heq])]

/-- The entry map finds nothing for a task that is not queued. -/
theorem WF.lookup_eq_none (h : q.WF) :
    q.entryFinder.lookup task = none ↔ task ∉ q.tasks := by
  rw [mem_tasks]
  constructor
  · rintro hnone ⟨e, he, htask⟩
    have hmem := (h.finder task e.count).mpr ⟨e, he, htask, rfl⟩
    rw [h.lookup_eq_some.mpr hmem] at hnone
    contradiction
  · intro hnot
    cases hlookup : q.entryFinder.lookup task with
    | none => rfl
    | some count =>
        obtain ⟨e, he, htask, -⟩ := (h.finder task count).mp (h.lookup_eq_some.mp hlookup)
        exact absurd ⟨e, he, htask⟩ hnot

/-! ## Removing a task -/

omit [DecidableEq τ] in
@[simp]
theorem markRemoved_priority (count : ℕ) (e : Entry τ) :
    (markRemoved count e).priority = e.priority := by
  unfold markRemoved
  split <;> rfl

omit [DecidableEq τ] in
@[simp]
theorem markRemoved_count (count : ℕ) (e : Entry τ) :
    (markRemoved count e).count = e.count := by
  unfold markRemoved
  split <;> rfl

omit [DecidableEq τ] in
theorem markRemoved_task_eq_some {count : ℕ} {e : Entry τ} :
    (markRemoved count e).task = some task ↔ e.task = some task ∧ e.count ≠ count := by
  unfold markRemoved
  split <;> simp_all

omit [DecidableEq τ] in
/-- The count of the entry of a queued task identifies the task. -/
theorem WF.count_ne_iff (h : q.WF) {e₀ e : Entry τ} (he₀ : e₀ ∈ q.prioQueue)
    (htask : e₀.task = some task) (he : e ∈ q.prioQueue) (hother : e.task = some other) :
    e.count ≠ e₀.count ↔ other ≠ task := by
  constructor
  · rintro hne rfl
    exact hne (h.finder_unique ((h.finder other _).mpr ⟨e, he, hother, rfl⟩)
      ((h.finder other _).mpr ⟨e₀, he₀, htask, rfl⟩))
  · intro hne hc
    rw [List.inj_on_of_nodup_map h.counts he he₀ hc, htask] at hother
    exact hne (Option.some.inj hother).symm

/-- The queue left by a removal of a queued task: other entries stay as they are. -/
theorem WF.removeTask_eq (h : q.WF) (hmem : task ∈ q.tasks) :
    ∃ q', q.removeTask task = .ok q' ∧ q'.WF ∧ q'.counter = q.counter ∧
      ∀ e other, e.task = some other →
        (e ∈ q'.prioQueue ↔ e ∈ q.prioQueue ∧ other ≠ task) := by
  obtain ⟨e₀, he₀, htask⟩ := mem_tasks.mp hmem
  have hfound := (h.finder task e₀.count).mpr ⟨e₀, he₀, htask, rfl⟩
  refine ⟨{ q with
      prioQueue := q.prioQueue.map (markRemoved e₀.count)
      entryFinder := q.entryFinder.filter fun entry => entry.1 ≠ task }, ?_, ?_, rfl, ?_⟩
  · rw [removeTask, h.lookup_eq_some.mpr hfound]
  · refine ⟨?_, ?_, ?_, ?_, h.keys.sublist (List.filter_sublist.map _)⟩
    · refine List.pairwise_map.mpr (h.sorted.imp fun {e f} hef => ?_)
      simpa [Entry.Before] using hef
    · simpa [Function.comp_def] using h.counts
    · intro e he
      obtain ⟨e', he', rfl⟩ := List.mem_map.mp he
      simpa using h.bound e' he'
    · intro x c
      simp only [List.mem_filter, decide_eq_true_eq, h.finder x c, List.mem_map,
        exists_exists_and_eq_and, markRemoved_task_eq_some, markRemoved_count]
      constructor
      · rintro ⟨⟨e, he, hx, hc⟩, hne⟩
        exact ⟨e, he, ⟨hx, (h.count_ne_iff he₀ htask he hx).mpr hne⟩, hc⟩
      · rintro ⟨e, he, ⟨hx, hne⟩, hc⟩
        exact ⟨⟨e, he, hx, hc⟩, (h.count_ne_iff he₀ htask he hx).mp hne⟩
  · intro e other hother
    rw [List.mem_map]
    constructor
    · rintro ⟨e', he', rfl⟩
      obtain ⟨hx, hne⟩ := markRemoved_task_eq_some.mp hother
      rw [markRemoved, if_neg hne]
      exact ⟨he', (h.count_ne_iff he₀ htask he' hx).mp hne⟩
    · rintro ⟨he, hne⟩
      refine ⟨e, he, ?_⟩
      rw [markRemoved, if_neg ((h.count_ne_iff he₀ htask he hother).mpr hne)]

/-- The queued tasks after a removal. -/
theorem WF.mem_tasks_removeTask (h : q.WF) {q' : PriorityQueue τ} (hmem : task ∈ q.tasks)
    (hremove : q.removeTask task = .ok q') :
    other ∈ q'.tasks ↔ other ∈ q.tasks ∧ other ≠ task := by
  obtain ⟨q₁, hq₁, -, -, hentries⟩ := h.removeTask_eq hmem
  obtain rfl := Except.ok.inj (hremove.symm.trans hq₁)
  rw [mem_tasks, mem_tasks]
  constructor
  · rintro ⟨e, he, hother⟩
    obtain ⟨he, hne⟩ := (hentries e other hother).mp he
    exact ⟨⟨e, he, hother⟩, hne⟩
  · rintro ⟨⟨e, he, hother⟩, hne⟩
    exact ⟨e, (hentries e other hother).mpr ⟨he, hne⟩, hother⟩

/-- Removing a task that is not queued raises. -/
theorem WF.removeTask_error (h : q.WF) (hmem : task ∉ q.tasks) :
    q.removeTask task = .error .keyError := by
  rw [removeTask, h.lookup_eq_none.mpr hmem]

/-! ## Adding a task -/

omit [DecidableEq τ] in
/-- Pushing a task that is not queued. -/
private theorem WF.push_wf (h : q.WF) (hmem : task ∉ q.tasks) :
    WF { prioQueue := q.prioQueue.orderedInsert Entry.Before ⟨-priority, q.counter, some task⟩
         entryFinder := (task, q.counter) :: q.entryFinder
         counter := q.counter + 1 } := by
  have hperm := List.perm_orderedInsert Entry.Before
    (⟨-priority, q.counter, some task⟩ : Entry τ) q.prioQueue
  refine ⟨h.sorted.orderedInsert _ _, ?_, ?_, ?_, ?_⟩
  · refine (hperm.map Entry.count).nodup_iff.mpr (List.nodup_cons.mpr ⟨?_, h.counts⟩)
    intro hcount
    obtain ⟨e, he, hc⟩ := List.mem_map.mp hcount
    exact absurd (h.bound e he) (by simp only at hc; omega)
  · intro e he
    rcases (List.mem_orderedInsert _).mp he with rfl | he
    · exact Nat.lt_succ_self _
    · exact Nat.lt_succ_of_lt (h.bound e he)
  · intro x c
    simp only [List.mem_cons, Prod.mk.injEq, h.finder x c, List.mem_orderedInsert]
    constructor
    · rintro (⟨rfl, rfl⟩ | ⟨e, he, hx, hc⟩)
      · exact ⟨_, .inl rfl, rfl, rfl⟩
      · exact ⟨e, .inr he, hx, hc⟩
    · rintro ⟨e, rfl | he, hx, hc⟩
      · exact .inl ⟨(Option.some.inj hx).symm, hc.symm⟩
      · exact .inr ⟨e, he, hx, hc⟩
  · refine List.nodup_cons.mpr ⟨?_, h.keys⟩
    intro hkey
    obtain ⟨⟨x, c⟩, hxc, rfl⟩ := List.mem_map.mp hkey
    obtain ⟨e, he, hx, -⟩ := (h.finder x c).mp hxc
    exact hmem (mem_tasks.mpr ⟨e, he, hx⟩)

/-- Adding a task keeps the queue well formed, and queues that task. -/
theorem WF.addTask (h : q.WF) (task : τ) (priority : Int) :
    (q.addTask task priority).WF ∧
      ∀ other, other ∈ (q.addTask task priority).tasks ↔ other = task ∨ other ∈ q.tasks := by
  have hpush : ∀ {q₀ : PriorityQueue τ} (other : τ),
      other ∈ tasks { prioQueue := q₀.prioQueue.orderedInsert Entry.Before
                        ⟨-priority, q₀.counter, some task⟩
                      entryFinder := (task, q₀.counter) :: q₀.entryFinder
                      counter := q₀.counter + 1 } ↔ other = task ∨ other ∈ q₀.tasks := by
    intro q₀ other
    simp only [mem_tasks, List.mem_orderedInsert]
    constructor
    · rintro ⟨e, rfl | he, hx⟩
      · exact .inl (Option.some.inj hx).symm
      · exact .inr ⟨e, he, hx⟩
    · rintro (rfl | ⟨e, he, hx⟩)
      · exact ⟨_, .inl rfl, rfl⟩
      · exact ⟨e, .inr he, hx⟩
  by_cases hmem : task ∈ q.tasks
  · obtain ⟨q₀, heq, hwf, -⟩ := h.removeTask_eq hmem
    have htasks : ∀ other, other ∈ q₀.tasks ↔ other ∈ q.tasks ∧ other ≠ task :=
      fun _ => h.mem_tasks_removeTask hmem heq
    simp only [PriorityQueue.addTask, heq]
    refine ⟨hwf.push_wf (fun hin => ((htasks task).mp hin).2 rfl), fun other => ?_⟩
    rw [hpush, htasks]
    by_cases hother : other = task <;> simp [hother]
  · simp only [PriorityQueue.addTask, h.removeTask_error hmem]
    exact ⟨h.push_wf hmem, fun other => hpush other⟩

/-- The queued tasks after an insertion, for a well-formed queue. -/
theorem mem_tasks_addTask (h : q.WF) :
    other ∈ (q.addTask task priority).tasks ↔ other = task ∨ other ∈ q.tasks :=
  (h.addTask task priority).2 other

/-- Queueing the entries of a list that pass a test. -/
theorem WF.foldl_addTask {α : Type} (h : q.WF) (test : α → Prop) [DecidablePred test]
    (key : α → τ) (priority : α → Int) (l : List α) :
    (l.foldl (fun q a => if test a then q.addTask (key a) (priority a) else q) q).WF ∧
      ∀ task,
        task ∈ (l.foldl (fun q a => if test a then q.addTask (key a) (priority a) else q)
          q).tasks ↔ task ∈ q.tasks ∨ ∃ a ∈ l, test a ∧ key a = task := by
  induction l generalizing q with
  | nil => exact ⟨h, by simp⟩
  | cons a l ih =>
      simp only [List.foldl_cons]
      by_cases htest : test a
      · rw [if_pos htest]
        obtain ⟨hwf, hmem⟩ := h.addTask (key a) (priority a)
        refine ⟨(ih hwf).1, fun task => ?_⟩
        rw [(ih hwf).2, hmem]
        simp only [List.mem_cons, exists_eq_or_imp, htest, true_and]
        grind
      · rw [if_neg htest]
        refine ⟨(ih h).1, fun task => ?_⟩
        rw [(ih h).2]
        simp [htest]

/-! ## Taking the first task -/

omit [DecidableEq τ] in
/-- The heap loop stops at the first queued task. -/
theorem heappopTask_some {es rest : List (Entry τ)}
    (hpop : heappopTask es = some (task, rest)) :
    ∃ dropped e, es = dropped ++ e :: rest ∧ e.task = some task ∧
      ∀ d ∈ dropped, d.task = none := by
  induction es with
  | nil => simp [heappopTask] at hpop
  | cons e es ih =>
      cases htask : e.task with
      | none =>
          simp only [heappopTask, htask] at hpop
          obtain ⟨dropped, f, rfl, hf, hdropped⟩ := ih hpop
          refine ⟨e :: dropped, f, rfl, hf, fun d hd => ?_⟩
          rcases List.mem_cons.mp hd with rfl | hd
          · exact htask
          · exact hdropped d hd
      | some first =>
          simp only [heappopTask, htask, Option.some.injEq, Prod.mk.injEq] at hpop
          obtain ⟨rfl, rfl⟩ := hpop
          exact ⟨[], e, rfl, htask, by simp⟩

omit [DecidableEq τ] in
/-- The heap loop finds nothing exactly when no task is queued. -/
theorem heappopTask_eq_none {es : List (Entry τ)} :
    heappopTask es = none ↔ es.filterMap Entry.task = [] := by
  induction es with
  | nil => simp [heappopTask]
  | cons e es ih =>
      cases htask : e.task with
      | none => simp [heappopTask, htask, ih]
      | some first => simp [heappopTask, htask]

/-- Popping raises exactly when no task is queued. -/
theorem popTask_eq_none : q.popTask.1 = none ↔ q.tasks = [] := by
  rw [tasks, ← heappopTask_eq_none, popTask]
  cases heappopTask q.prioQueue <;> simp

/-- A pop drops the removed entries, and takes the first task behind them. -/
theorem popTask_some_parts {q' : PriorityQueue τ} (hpop : q.popTask = (some task, q')) :
    ∃ dropped e rest, q.prioQueue = dropped ++ e :: rest ∧ e.task = some task ∧
      (∀ d ∈ dropped, d.task = none) ∧
      q' = { q with
        prioQueue := rest
        entryFinder := q.entryFinder.filter fun entry => entry.1 ≠ task } := by
  unfold popTask at hpop
  split at hpop
  next => simp at hpop
  next first rest hheap =>
    obtain ⟨hfirst, rfl⟩ := Prod.mk.inj hpop
    obtain rfl := Option.some.inj hfirst
    obtain ⟨dropped, e, heq, he, hdropped⟩ := heappopTask_some hheap
    exact ⟨dropped, e, rest, heq, he, hdropped, rfl⟩

/-- A pop that finds no task empties the heap. -/
theorem popTask_none_parts {q' : PriorityQueue τ} (hpop : q.popTask = (none, q')) :
    q' = { q with prioQueue := [] } := by
  unfold popTask at hpop
  split at hpop
  next => exact (Prod.mk.inj hpop).2.symm
  next => simp at hpop

/-- A popped task was first in the queue, and exactly the others remain. -/
theorem WF.popTask_some (h : q.WF) {q' : PriorityQueue τ}
    (hpop : q.popTask = (some task, q')) : q'.WF ∧ q.tasks = task :: q'.tasks := by
  obtain ⟨dropped, e, rest, heq, he, hdropped, rfl⟩ := popTask_some_parts hpop
  have hnone : dropped.filterMap Entry.task = [] := by
    simpa [List.filterMap_eq_nil_iff] using hdropped
  have htasks : q.tasks = task :: rest.filterMap Entry.task := by
    simp [tasks, heq, hnone, he]
  have hsub : rest.Sublist q.prioQueue := by
    rw [heq]
    exact (List.sublist_cons_self _ _).trans (List.sublist_append_right _ _)
  have hfirstOnly : task ∉ rest.filterMap Entry.task := by
    have hnodup := h.tasks_nodup
    rw [htasks] at hnodup
    exact (List.nodup_cons.mp hnodup).1
  refine ⟨⟨h.sorted.sublist hsub, h.counts.sublist (hsub.map _),
    fun f hf => h.bound f (hsub.subset hf), ?_, h.keys.sublist (List.filter_sublist.map _)⟩,
    htasks⟩
  intro x c
  simp only [List.mem_filter, decide_eq_true_eq, h.finder x c]
  constructor
  · rintro ⟨⟨f, hf, hx, hc⟩, hne⟩
    rw [heq] at hf
    rcases List.mem_append.mp hf with hf | hf
    · rw [hdropped f hf] at hx
      contradiction
    · rcases List.mem_cons.mp hf with rfl | hf
      · rw [he] at hx
        exact absurd (Option.some.inj hx).symm hne
      · exact ⟨f, hf, hx, hc⟩
  · rintro ⟨f, hf, hx, hc⟩
    refine ⟨⟨f, hsub.subset hf, hx, hc⟩, ?_⟩
    rintro rfl
    exact hfirstOnly (List.mem_filterMap.mpr ⟨f, hf, hx⟩)

/-- A popped task was queued. -/
theorem WF.popTask_mem (h : q.WF) (hpop : q.popTask.1 = some task) : task ∈ q.tasks := by
  have heq : q.popTask = (some task, q.popTask.2) := by rw [← hpop]
  rw [(h.popTask_some heq).2]
  simp

/-- With enough rounds, the loop that pops until a test is passed finds the first queued task
that passes it. -/
private theorem WF.popUntil_go {test : τ → Bool} {rounds : ℕ} (h : q.WF)
    (hrounds : q.tasks.length ≤ rounds) : popUntil.go test rounds q = q.tasks.find? test := by
  induction rounds generalizing q with
  | zero =>
      have hempty : q.tasks = [] := List.length_eq_zero_iff.mp (Nat.le_zero.mp hrounds)
      rw [hempty, popUntil.go, List.find?_nil]
  | succ rounds ih =>
      unfold popUntil.go
      split
      next hnone =>
        have hempty : q.tasks = [] := popTask_eq_none.mp (by rw [hnone])
        rw [hempty, List.find?_nil]
      next first rest hfirst =>
        obtain ⟨hrest, htasks⟩ := h.popTask_some hfirst
        rw [htasks, List.length_cons] at hrounds
        rw [htasks, List.find?_cons]
        cases htest : test first with
        | true => simp
        | false => simpa using ih hrest (by omega)

/-- A loop that pops until a test is passed ends with the first queued task that passes it. -/
theorem WF.popUntil_eq (h : q.WF) (test : τ → Bool) : q.popUntil test = q.tasks.find? test :=
  h.popUntil_go (List.length_filterMap_le _ _)

/-- Such a task is queued, and passes the test. -/
theorem WF.popUntil_some (h : q.WF) {test : τ → Bool} (hpop : q.popUntil test = some task) :
    task ∈ q.tasks ∧ test task = true := by
  rw [h.popUntil_eq] at hpop
  exact ⟨List.mem_of_find?_eq_some hpop, List.find?_some hpop⟩

/-! ## The order of the tasks -/

section Order

variable {τ : Type} [Preorder τ] {q : PriorityQueue τ} {priority : τ → Int} {task : τ}

/-- Tasks were added with these priorities, and in ascending order. -/
structure Ascending (q : PriorityQueue τ) (priority : τ → Int) : Prop where
  priority : ∀ e ∈ q.prioQueue, ∀ x, e.task = some x → e.priority = -priority x
  count : ∀ e ∈ q.prioQueue, ∀ f ∈ q.prioQueue, e.count < f.count →
    ∀ x y, e.task = some x → f.task = some y → x < y

/-- A new queue is in order. -/
theorem ascending_empty (priority : τ → Int) : Ascending {} priority :=
  ⟨by simp, by simp⟩

/-- Tasks are popped by descending priority, and in ascending order among equals. -/
theorem Ascending.tasks_pairwise (h : q.Ascending priority) (hwf : q.WF) :
    q.tasks.Pairwise fun x y => priority y < priority x ∨ priority y = priority x ∧ x < y := by
  rw [tasks, List.pairwise_filterMap]
  have hcounts := List.pairwise_map.mp hwf.counts
  apply (hwf.sorted.and hcounts).imp_of_mem
  rintro e f he hf ⟨hbefore, hne⟩ x hx y hy
  have hpx := h.priority e he x hx
  have hpy := h.priority f hf y hy
  obtain hlt | ⟨heq, hle⟩ := hbefore
  · left
    omega
  · right
    exact ⟨by omega, h.count e he f hf (lt_of_le_of_ne hle hne) x y hx hy⟩

variable [DecidableEq τ]

/-- Adding a task that comes after the queued ones. -/
theorem Ascending.addTask (h : q.Ascending priority) (hwf : q.WF)
    (hlast : ∀ x ∈ q.tasks, x < task) : (q.addTask task (priority task)).Ascending priority := by
  have hnew : task ∉ q.tasks := fun hmem => lt_irrefl _ (hlast task hmem)
  simp only [PriorityQueue.addTask, hwf.removeTask_error hnew]
  constructor
  · intro e he x hx
    obtain rfl | he := (List.mem_orderedInsert _).mp he
    · obtain rfl := Option.some.inj hx
      rfl
    · exact h.priority e he x hx
  · intro e he f hf hlt x y hx hy
    obtain rfl | he := (List.mem_orderedInsert _).mp he
    · obtain rfl | hf := (List.mem_orderedInsert _).mp hf
      · exact absurd hlt (lt_irrefl _)
      · exact absurd hlt (hwf.bound f hf).asymm
    · obtain rfl | hf := (List.mem_orderedInsert _).mp hf
      · obtain rfl := Option.some.inj hy
        exact hlast x (mem_tasks.mpr ⟨e, he, hx⟩)
      · exact h.count e he f hf hlt x y hx hy

/-- Queueing the entries of an ascending list that pass a test. -/
theorem Ascending.foldl_addTask {α : Type} (h : q.Ascending priority) (hwf : q.WF)
    (test : α → Prop) [DecidablePred test] (key : α → τ) (l : List α)
    (hsorted : (l.map key).Pairwise (· < ·)) (hlast : ∀ x ∈ q.tasks, ∀ a ∈ l, x < key a) :
    (l.foldl (fun q a => if test a then q.addTask (key a) (priority (key a)) else q)
      q).Ascending priority := by
  induction l generalizing q with
  | nil => exact h
  | cons a l ih =>
      rw [List.map_cons, List.pairwise_cons] at hsorted
      have hnext : ∀ b ∈ l, key a < key b := fun b hb => hsorted.1 _ (List.mem_map_of_mem hb)
      rw [List.foldl_cons]
      split_ifs
      · apply ih (h.addTask hwf fun x hx => hlast x hx a List.mem_cons_self)
          (hwf.addTask _ _).1 hsorted.2
        intro x hx b hb
        obtain rfl | hx := (mem_tasks_addTask hwf).mp hx
        · exact hnext b hb
        · exact hlast x hx b (List.mem_cons_of_mem _ hb)
      · exact ih h hwf hsorted.2 fun x hx b hb => hlast x hx b (List.mem_cons_of_mem _ hb)

end Order

end PriorityQueue

end Resalloc
