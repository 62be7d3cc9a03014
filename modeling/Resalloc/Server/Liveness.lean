import Resalloc.Foundations.Progress
import Resalloc.Server.Attendance
import Resalloc.Server.Greedy
import Resalloc.Server.Livechecks
import Resalloc.Server.Sandboxes
import Resalloc.Server.Survival

/-!
# What happens in the end

A resource is in STARTING, RELEASING, DELETE_REQUEST or DELETING because some thread is going to
take it out of that state: the worker that was started for it, or the next garbage collection of
its pool and the terminator that this starts.  This file follows these threads along infinite runs
in which the manager runs one cycle after another and every worker goes on.

Main results:

- Theorem {lit}`World.Fair.settles`: every resource becomes UP or ENDED, and one that is leaving
  becomes ENDED.
- Theorem {lit}`World.Fair.takes_back`: a closed ticket gives its resource back.
- Theorem {lit}`World.Fair.work_conserving`: no ticket waits for ever while a resource for it is
  ready.
-/

namespace Resalloc

open Foundations

/-- How many transactions and hooks a job about a resource has at most before it. -/
def Job.stepsLeft : Job → ℕ
  | .alloc _ .load | .terminate _ .request | .release _ .load => 3
  | .alloc _ (.cmdNew _) | .terminate _ .cmdDelete | .release _ .cmdRelease => 2
  | .alloc _ (.finish _ _) | .terminate _ .close | .release _ (.finish _) => 1
  | .cleanUnknown _ => 0

/-- Each of them is one less. -/
theorem Job.Moves.stepsLeft_lt {i : Input} {job job' : Job} (h : Job.Moves i job job')
    (htarget : job.target? ≠ none) : job'.stepsLeft < job.stepsLeft := by
  cases h with
  | cleanUnknown => simp [Job.target?] at htarget
  | _ => simp [Job.stepsLeft]

/-- A job that ends a transient state is about the resource in it. -/
theorem Job.Attends.target? {job : Job} {id : ResourceId} {state : RState}
    (h : job.Attends id state) : job.target? = some id := by
  cases job <;> cases state <;> simp_all [Job.Attends, Job.target?]

namespace ManagerPc

/-- The running cycle is still going to collect the garbage of a pool, or the thread is dead. -/
def Collects (name : String) : ManagerPc → Prop
  | .detectClosed c _ _ | .plan c => ∃ p ∈ c.pools, p.name = name
  | .removal _ p rest | .garbage _ p rest => ∃ q ∈ p :: rest, q.name = name
  | .stats _ _ rest | .tooSoon _ _ rest | .allocate _ _ rest | .cleanUnknown _ _ rest
  | .markCleaned _ _ rest => ∃ q ∈ rest, q.name = name
  | .stopped _ => True
  | .wait | .collect _ | .assign _ _ _ => False

/-- The running cycle is still going to look for the closed tickets of a pool, or the thread is
dead. -/
def Detects (name : String) : ManagerPc → Prop
  | .detectClosed _ p rest => ∃ q ∈ p :: rest, q.name = name
  | .stopped _ => True
  | _ => False

/-- The running cycle is still going to collect the queue of tickets, or the thread is dead. -/
def Queues : ManagerPc → Prop
  | .wait | .assign _ _ _ => False
  | _ => True

/-- The running pass is still going to come to a ticket, and knows of a resource, or the thread is
dead. -/
def Serves (tid : TicketId) (id : ResourceId) : ManagerPc → Prop
  | .assign _ queue ids => tid ∈ queue.tasks ∧ id ∈ ids
  | .stopped _ => True
  | _ => False

theorem collects_nextDetect {name : String} {c : Cycle} {rest : List Pool}
    (h : ∃ p ∈ c.pools, p.name = name) : (nextDetect c rest).Collects name := by
  cases rest <;> exact h

theorem collects_nextPool {name : String} {c : Cycle} {rest : List Pool}
    (h : ∃ p ∈ rest, p.name = name) : (nextPool c rest).Collects name := by
  cases rest with
  | nil => simp at h
  | cons p rest => exact h

theorem detects_nextDetect {name : String} {c : Cycle} {rest : List Pool}
    (h : ∃ p ∈ rest, p.name = name) : (nextDetect c rest).Detects name := by
  cases rest with
  | nil => simp at h
  | cons p rest => exact h

variable {name : String} {i : Input} {importTime : Time} {db db' : Db} {pc pc' : ManagerPc}
variable {started : List Worker}

/-- A cycle collects the garbage of the pool before it has nothing of it to do any more. -/
theorem Steps.collects (h : ManagerPc.Steps i importTime db pc db' started pc')
    (hcollects : pc.Collects name) :
    pc'.Collects name ∨ ∃ c p rest, pc = .garbage c p rest ∧ p.name = name := by
  cases h with
  | stop => exact .inl trivial
  | load | collect | assigned | skipped | served => exact hcollects.elim
  | detectClosed => exact .inl (collects_nextDetect hcollects)
  | plan hplan =>
      -- the planning keeps the names of the pools
      obtain ⟨_, _, planned, -, -, -, rfl⟩ := decideWhereToStart_ok hplan
      obtain ⟨p, hp, hname⟩ := hcollects
      refine .inl (collects_nextPool ⟨_, List.mem_map_of_mem hp, ?_⟩)
      cases hfind : (planned.map PoolStats.pool).find? fun q => q.name = p.name with
      | none => exact hname
      | some q =>
          have hq : q.name = p.name := by simpa using List.find?_some hfind
          exact hq.trans hname
  | removal => exact .inl hcollects
  | garbage c p rest =>
      obtain ⟨q, hq, hname⟩ := hcollects
      rcases List.mem_cons.mp hq with rfl | hrest
      · exact .inr ⟨c, q, rest, rfl, hname⟩
      · exact .inl ⟨q, hrest, hname⟩
  | wantsMore | hasEnough | tooSoon | soonEnough | allocate | cleanUnknown => exact .inl hcollects
  | keepUnknown | markCleaned => exact .inl (collects_nextPool hcollects)

/-- A cycle looks for the closed tickets of the pool before it goes on. -/
theorem Steps.detects (h : ManagerPc.Steps i importTime db pc db' started pc')
    (hdetects : pc.Detects name) :
    pc'.Detects name ∨ ∃ c p rest, pc = .detectClosed c p rest ∧ p.name = name := by
  cases h with
  | stop => exact .inl trivial
  | @detectClosed c p rest =>
      obtain ⟨q, hq, hname⟩ := hdetects
      rcases List.mem_cons.mp hq with rfl | hrest
      · exact .inr ⟨c, q, rest, rfl, hname⟩
      · exact .inl (detects_nextDetect ⟨q, hrest, hname⟩)
  | _ => exact hdetects.elim

/-- A cycle collects the queue before its pass. -/
theorem Steps.queues (h : ManagerPc.Steps i importTime db pc db' started pc')
    (hqueues : pc.Queues) : pc'.Queues ∨ ∃ c, pc = .collect c := by
  cases h with
  | collect c => exact .inr ⟨c, rfl⟩
  | load | assigned | skipped | served => exact hqueues.elim
  | @detectClosed _ _ rest => cases rest <;> exact .inl trivial
  | @plan _ pools => cases pools <;> exact .inl trivial
  | keepUnknown _ _ rest | markCleaned _ _ rest => cases rest <;> exact .inl trivial
  | _ => exact .inl trivial

/-- A pass comes to a ticket by its round, which finds a resource if one is ready for it. -/
theorem Steps.serves {tid : TicketId} {id : ResourceId}
    (h : ManagerPc.Steps i importTime db pc db' started pc') (hserves : pc.Serves tid id)
    (hwf : ∀ {c queue ids}, pc = .assign c queue ids → queue.WF) (hfits : db.Fits tid id) :
    pc'.Serves tid id ∨ ∃ t, db'.tickets.get? tid = some t ∧ t.resourceId ≠ none := by
  -- the rounds of other tickets leave it in the queue
  have hothers : ∀ {c : Cycle} {queue queue' : PriorityQueue TicketId} {ids : List ResourceId}
      {other : TicketId}, pc = .assign c queue ids → queue.popTask = (some other, queue') →
      tid ∈ queue.tasks → tid = other ∨ tid ∈ queue'.tasks := by
    intro c queue queue' ids other hpc hpop hmem
    rw [((hwf hpc).popTask_some hpop).2] at hmem
    exact List.mem_cons.mp hmem
  cases h with
  | stop => exact .inl trivial
  | @assigned c queue ids other queue' id' hpop _ =>
      obtain ⟨hmem, hid⟩ := hserves
      rcases hothers rfl hpop hmem with rfl | hstill
      · obtain ⟨-, t, -, ht, -⟩ := hfits
        refine .inr ⟨t.assigned id' i.uuid.1, by simp [ht], by simp [Ticket.assigned]⟩
      · exact .inl ⟨hstill, hid⟩
  | @skipped c queue ids other queue' hpop hchoose =>
      obtain ⟨hmem, hid⟩ := hserves
      rcases hothers rfl hpop hmem with rfl | hstill
      · obtain ⟨r, t, hr, ht, hrow⟩ := hfits
        have hready : (id, r) ∈ QResources.ready db none :=
          mem_ready.mpr ⟨hr, by simp [InPool], hrow.up, hrow.free, hrow.checked⟩
        have husable : usable t ids id r := ⟨hid, sandbox_test_iff.mpr hrow.sandbox, hrow.tags⟩
        exact absurd husable (chooseResource_eq_none ht hchoose hready)
      · exact .inl ⟨hstill, hid⟩
  | served hpop =>
      rw [PriorityQueue.popTask_eq_none] at hpop
      simp [Serves, hpop] at hserves
  | _ => exact hserves.elim

end ManagerPc

namespace World

variable {w w' : World} {a : Action} {id : ResourceId} {tid : TicketId} {r r' : Resource}
variable {t t' : Ticket} {name : String} {i : Input} {k : ℕ} {p : Pool} {job : Job}

/-! ## Workers -/

/-- The steps that a thread still has before it. -/
def stepsLeft (w : World) (k : ℕ) : ℕ :=
  match w.workers.get? k with
  | some worker => worker.job.stepsLeft
  | none => 0

/-- A thread works on a resource. -/
def WorksOn (w : World) (k : ℕ) (id : ResourceId) : Prop :=
  ∃ p job, w.Runs k p job ∧ job.target? = some id

/-- Only the step of a thread itself changes what it works on. -/
theorem WorksOn.kept (h : w.WorksOn k id) (hstep : w.Steps a w') (hlives : ∀ t, a ≠ .restart t)
    (hother : ∀ i, a ≠ .worker k i) : w'.WorksOn k id ∧ w'.stepsLeft k ≤ w.stepsLeft k := by
  obtain ⟨p, job, hruns, htarget⟩ := h
  rcases hstep.worker_next hlives hruns with hsame | ⟨i, _, ha, -⟩
  · refine ⟨⟨p, job, hsame, htarget⟩, ?_⟩
    rw [stepsLeft, stepsLeft, hsame, hruns]
  · exact absurd ha (hother i)

/-- The step of a thread brings it nearer to its end, or is its last one, which leaves its
resource UP or ENDED. -/
theorem WorksOn.moves (h : w.WorksOn k id) (hinv : w.Inv) (hstep : w.Steps (.worker k i) w')
    (hlive : ∀ worker, w'.workers.get? k = some worker → worker.status ≠ .raised) :
    w'.WorksOn k id ∧ w'.stepsLeft k < w.stepsLeft k ∨ ¬ w'.WorksOn k id ∧
      ∃ r', w'.db.resources.get? id = some r' ∧ (r'.state = .up ∨ r'.state = .ended) := by
  obtain ⟨p, job, hruns, htarget⟩ := h
  have hnext : ∃ next, Worker.Steps { pool := p, job := job } i w.db w'.db next ∧
      w'.workers.get? k = some next := by
    cases hstep with
    | worker hworker _ hnext =>
        obtain rfl := Option.some.inj (hruns.symm.trans hworker)
        exact ⟨_, hnext, by simp [hworker]⟩
  obtain ⟨next, hnext, hworker⟩ := hnext
  have hdone : next.status = .finished → ¬ w'.WorksOn k id := by
    rintro hfinished ⟨q, job', hruns', -⟩
    rw [Runs, hworker, Option.some.injEq] at hruns'
    simp [hruns'] at hfinished
  generalize w'.db = db at hnext ⊢
  cases hnext with
  | raised => exact absurd rfl (hlive _ hworker)
  | @moved job' hok hmoves =>
      refine .inl ⟨⟨p, job', hworker, hmoves.target?.trans htarget⟩, ?_⟩
      rw [stepsLeft, stepsLeft, hworker, hruns]
      exact hmoves.stepsLeft_lt (by simp [htarget])
  | cleaned hjob =>
      obtain rfl : job = _ := hjob
      simp [Job.target?] at htarget
  | @started j _ output _ _ hjob _ hrows =>
      obtain rfl : job = _ := hjob
      obtain rfl : j = id := by simpa [Job.target?] using htarget
      obtain ⟨r, hr, -⟩ := hinv.owned.alloc hruns
      refine .inr ⟨hdone rfl, r.started p output, by simp [hrows, hr], ?_⟩
      simp only [Resource.started]
      split_ifs
      · exact .inl rfl
      · exact .inr rfl
  | @gaveUp j r tid t hjob hr htid ht hopened =>
      -- no leaving resource has an open ticket
      obtain rfl : job = _ := hjob
      obtain ⟨r₁, hr₁, hleaving⟩ := hinv.owned.terminate hruns
      obtain rfl := Option.some.inj (hr.symm.trans hr₁)
      obtain ⟨t₁, ht₁, hback⟩ := hinv.linked.pointsBack hr htid
      obtain rfl := Option.some.inj (ht.symm.trans ht₁)
      obtain ⟨r₂, hr₂, hup, -⟩ := hinv.linked.resource ht hback
      obtain rfl := Option.some.inj (hr.symm.trans hr₂)
      simp [(hup hopened).1, RState.leaving] at hleaving
  | @terminating j hok hjob =>
      obtain rfl : job = _ := hjob
      refine .inl ⟨⟨p, _, hworker, htarget⟩, ?_⟩
      rw [stepsLeft, stepsLeft, hworker, hruns]
      simp only [Worker.goto, Job.stepsLeft]
      split_ifs <;> simp
  | @ended j _ _ hjob _ hrows =>
      obtain rfl : job = _ := hjob
      obtain rfl : j = id := by simpa [Job.target?] using htarget
      obtain ⟨r, hr, -⟩ := hinv.owned.terminate hruns
      exact .inr ⟨hdone rfl, { r with state := .ended }, by simp [hrows, hr], .inr rfl⟩
  | @returned j status _ hjob =>
      obtain rfl : job = _ := hjob
      obtain rfl : j = id := by simpa [Job.target?] using htarget
      obtain ⟨r, hr, -⟩ := hinv.owned.release hruns
      exact .inr ⟨hdone rfl, r.returned p status, by simp [hr], .inl rfl⟩

/-! ## Fair runs -/

/-- An infinite run of the server without restarts, in which nothing provokes an exception, the
manager starts one cycle after another, always with the pool in its configuration, and every worker
goes on.  What may provoke an exception is in {lit}`Unprovoked`: the tags of every loaded pool have
different names, for example. -/
structure Fair (name : String) (run : ℕ → World) (act : ℕ → Action) : Prop where
  reached : ∃ as, Reaches Unprovoked as (run 0)
  step : ∀ n, (run n).step (act n) = some (run (n + 1))
  unprovoked : ∀ n, Unprovoked (run n) (act n)
  lives : ∀ n t, act n ≠ .restart t
  cycles : ∀ n, ∃ m i, n ≤ m ∧ act m = .manager i ∧ (run m).manager = .wait
  configured : ∀ n i, act n = .manager i → (run n).manager = .wait →
    ∃ config ∈ i.config, ∃ p ∈ config.pools, p.name = name
  workers : ∀ n k worker, (run n).workers.get? k = some worker → worker.status = .running →
    ∃ m i, n ≤ m ∧ act m = .worker k i

variable {run : ℕ → World} {act : ℕ → Action} {n m : ℕ}

/-- Every state of the run is reached. -/
theorem Fair.reaches (h : Fair name run act) (n : ℕ) : ∃ as, Reaches Unprovoked as (run n) := by
  induction n with
  | zero => exact h.reached
  | succ n ih =>
      obtain ⟨as, hrun⟩ := ih
      exact ⟨as ++ [act n], .snoc hrun (h.unprovoked n) (h.step n)⟩

/-- Every state of the run keeps the invariant of the server. -/
theorem Fair.inv (h : Fair name run act) (n : ℕ) : (run n).Inv := by
  obtain ⟨as, hrun⟩ := h.reaches n
  exact hrun.inv

/-- No worker dies. -/
theorem Fair.unraised (h : Fair name run act) (n : ℕ) {worker : Worker}
    (hworker : (run n).workers.get? k = some worker) : worker.status ≠ .raised := by
  obtain ⟨as, hrun⟩ := h.reaches n
  exact hrun.identified_unraised.2 k worker hworker

/-- A resource stays in its pool, and goes on leaving. -/
theorem Fair.row (h : Fair name run act) (hle : n ≤ m)
    (hr : (run n).db.resources.get? id = some r) :
    ∃ r', (run m).db.resources.get? id = some r' ∧ r'.pool = r.pool ∧
      (r.state.leaving = true → r'.state.leaving = true) := by
  induction m, hle using Nat.le_induction with
  | base => exact ⟨r, hr, rfl, fun hleaving => hleaving⟩
  | succ m _ ih =>
      obtain ⟨q, hq, hpool, hkept⟩ := ih
      obtain ⟨q', hq', hrow⟩ := (step_cases (h.step m)).resource (h.inv m).linked hq
      exact ⟨q', hq', hrow.pool.trans hpool,
        fun hleaving => (h.inv m).leaving_kept hrow hq (hkept hleaving)⟩

/-- A thread that works on a resource leaves it UP or ENDED. -/
theorem Fair.worksOn_ends (h : Fair name run act) (hworks : (run n).WorksOn k id) :
    ∃ m r', n ≤ m ∧ (run m).db.resources.get? id = some r' ∧
      (r'.state = .up ∨ r'.state = .ended) := by
  have hmoves : ∀ m i, act m = .worker k i → (run m).WorksOn k id →
      (run (m + 1)).WorksOn k id ∧ (run (m + 1)).stepsLeft k < (run m).stepsLeft k ∨
        ¬ (run (m + 1)).WorksOn k id ∧ ∃ r', (run (m + 1)).db.resources.get? id = some r' ∧
          (r'.state = .up ∨ r'.state = .ended) := by
    intro m i hact hworks
    have hstep := step_cases (h.step m)
    rw [hact] at hstep
    exact hworks.moves (h.inv m) hstep fun _ => h.unraised (m + 1)
  obtain ⟨m, hle, hworks, ⟨i, hact⟩, hgone⟩ := exists_exit_of_rank
    (P := fun m => (run m).WorksOn k id) (fun m => ∃ i, act m = .worker k i)
    (fun m => (run m).stepsLeft k) hworks
    (by
      rintro m - ⟨p, job, hruns, -⟩
      obtain ⟨l, i, hl, hact⟩ := h.workers m k _ hruns rfl
      exact ⟨l, hl, i, hact⟩)
    (by
      rintro m - hworks ⟨i, hact⟩ hnext
      rcases hmoves m i hact hworks with ⟨-, hlt⟩ | ⟨hgone, -⟩
      · exact hlt
      · exact absurd hnext hgone)
    (by
      intro m _ hworks hother
      exact hworks.kept (step_cases (h.step m)) (h.lives m) fun i hact => hother ⟨i, hact⟩)
  rcases hmoves m i hact hworks with ⟨hnext, -⟩ | ⟨-, r', hr', hstate⟩
  · exact absurd hnext hgone
  · exact ⟨m + 1, r', hle.trans (Nat.le_succ m), hr', hstate⟩

/-- A resource in a transient state comes out of it. -/
theorem Fair.transient_ends (h : Fair name run act)
    (hr : (run n).db.resources.get? id = some r) (htransient : r.state.inconsistent = true) :
    ∃ m r', n ≤ m ∧ (run m).db.resources.get? id = some r' ∧
      (r'.state = .up ∨ r'.state = .ended) := by
  obtain ⟨as, hrun⟩ := h.reaches n
  obtain ⟨k, p, job, s, hworker, hstatus, hattends⟩ := hrun.transient_attended.worker hr htransient
  rcases hstatus with rfl | rfl
  · exact h.worksOn_ends ⟨p, job, hworker, hattends.target?⟩
  · exact absurd rfl (h.unraised n hworker)

/-! ## Passes of the manager -/

/-- A pass that is due when a cycle starts, and that no cycle ends without, is made again and
again. -/
theorem Fair.exists_pass (h : Fair name run act) (Due Pass : ManagerPc → Prop) (hwait : ¬ Due .wait)
    (hload : ∀ c : Cycle, (∃ p ∈ c.pools, p.name = name) → Due (ManagerPc.nextDetect c c.pools))
    (hnext : ∀ {i t db pc db' started pc'}, ManagerPc.Steps i t db pc db' started pc' → Due pc →
      Due pc' ∨ Pass pc) (n : ℕ) :
    ∃ m i, n ≤ m ∧ act m = .manager i ∧ Pass (run m).manager := by
  obtain ⟨m, i, hle, hact, hpc⟩ := h.cycles n
  have hdue : Due (run (m + 1)).manager := by
    obtain ⟨config, hconfig, hpool⟩ := h.configured m i hact hpc
    have hstep := h.step m
    simp only [hact, World.step, hpc, ManagerPc.step, Option.mem_def.mp hconfig] at hstep
    rw [← Option.some.inj hstep]
    exact hload { onDemandTags := onDemandTags config.pools, pools := config.pools } hpool
  obtain ⟨l, j, hl, hact', hpc'⟩ := h.cycles (m + 1)
  obtain ⟨q, hq, -, hbefore, hafter⟩ := exists_exit (P := fun n => Due (run n).manager) hl hdue
    (by rwa [hpc'])
  have hle' : n ≤ q := hle.trans ((Nat.le_succ m).trans hq)
  -- only the manager goes on
  have hsteps := step_cases (h.step q)
  generalize hactq : act q = a at hsteps
  generalize hnextq : run (q + 1) = w' at hsteps hafter
  cases hsteps with
  | @manager i db started pc hpc =>
      rcases hnext hpc hbefore with hdue | hpass
      · exact absurd hdue hafter
      · exact ⟨q, i, hle', hactq, hpass⟩
  | restart t => exact absurd hactq (h.lives q t)
  | _ => exact absurd hbefore hafter

/-- The garbage of the pool is collected again and again. -/
theorem Fair.exists_garbage (h : Fair name run act) (n : ℕ) :
    ∃ m i, n ≤ m ∧ act m = .manager i ∧
      ∃ c p rest, (run m).manager = .garbage c p rest ∧ p.name = name := by
  apply h.exists_pass (ManagerPc.Collects name)
    fun pc => ∃ c p rest, pc = .garbage c p rest ∧ p.name = name
  · exact id
  · exact fun c hpool => ManagerPc.collects_nextDetect hpool
  · exact fun hstep hcollects => hstep.collects hcollects

/-- The closed tickets of the pool are looked for again and again. -/
theorem Fair.exists_detectClosed (h : Fair name run act) (n : ℕ) :
    ∃ m i, n ≤ m ∧ act m = .manager i ∧
      ∃ c p rest, (run m).manager = .detectClosed c p rest ∧ p.name = name := by
  apply h.exists_pass (ManagerPc.Detects name)
    fun pc => ∃ c p rest, pc = .detectClosed c p rest ∧ p.name = name
  · exact id
  · exact fun c hpool => ManagerPc.detects_nextDetect hpool
  · exact fun hstep hdetects => hstep.detects hdetects

/-! ## Resources -/

/-- The removal of a resource that is requested is carried out. -/
theorem Fair.removal_ends (h : Fair name run act)
    (hr : (run n).db.resources.get? id = some r) (hpool : r.pool = name)
    (hleaving : r.state.leaving = true) :
    ∃ m r', n ≤ m ∧ (run m).db.resources.get? id = some r' ∧ r'.state = .ended := by
  -- a terminator that works on it, or has already ended it
  have hterminates : ∃ m r', n ≤ m ∧ (run m).db.resources.get? id = some r' ∧
      (r'.state = .up ∨ r'.state = .ended) := by
    obtain ⟨m, i, hle, hact, c, p, rest, hpc, hname⟩ := h.exists_garbage n
    obtain ⟨q, hq, hqpool, hkept⟩ := h.row hle hr
    have hqleaving := hkept hleaving
    cases hstate : q.state with
    | starting | up | releasing => simp [hstate, RState.leaving] at hqleaving
    | ended => exact ⟨m, q, hle, hq, .inr hstate⟩
    | deleting =>
        obtain ⟨l, r', hl, hrest⟩ := h.transient_ends hq (by simp [hstate, RState.inconsistent])
        exact ⟨l, r', hle.trans hl, hrest⟩
    | deleteRequest =>
        have hmem : (id, q) ∈ QResources.clean (run m).db (some p.name) := by
          apply mem_clean.mpr
          refine ⟨hq, ?_, hstate⟩
          simp [InPool, hqpool, hpool, hname]
        have hstarted : ({ pool := p, job := .terminate id .request } : Worker) ∈
            (p.garbageCollector (run m).db).map
              fun id => { pool := p, job := .terminate id .request } :=
          List.mem_map_of_mem (List.mem_map_of_mem (f := Prod.fst) hmem)
        obtain ⟨k, hk⟩ := exists_get?_spawn (run m).workers hstarted
        have hstep := h.step m
        simp only [hact, World.step, hpc, ManagerPc.step] at hstep
        have hworks : (run (m + 1)).WorksOn k id := by
          rw [← Option.some.inj hstep]
          exact ⟨p, _, hk, rfl⟩
        obtain ⟨l, r', hl, hrest⟩ := h.worksOn_ends hworks
        exact ⟨l, r', hle.trans ((Nat.le_succ m).trans hl), hrest⟩
  obtain ⟨m, r', hle, hr', hstate⟩ := hterminates
  refine ⟨m, r', hle, hr', hstate.resolve_left fun hup => ?_⟩
  obtain ⟨q, hq, -, hkept⟩ := h.row hle hr
  obtain rfl := Option.some.inj (hr'.symm.trans hq)
  simpa [hup, RState.leaving] using hkept hleaving

/-- In the end every resource is UP or ENDED.  No resource is left in a state that a thread has to
take it out of, and once the removal of a resource is requested, the resource is ENDED. -/
theorem Fair.settles (h : Fair name run act) (hr : (run n).db.resources.get? id = some r)
    (hpool : r.pool = name) :
    ∃ m r', n ≤ m ∧ (run m).db.resources.get? id = some r' ∧
      (r'.state = .ended ∨ r'.state = .up ∧ r.state.leaving = false) := by
  cases hleaving : r.state.leaving with
  | true =>
      obtain ⟨m, r', hle, hr', hended⟩ := h.removal_ends hr hpool hleaving
      exact ⟨m, r', hle, hr', .inl hended⟩
  | false =>
      cases hstate : r.state with
      | up => exact ⟨n, r, le_refl n, hr, .inr ⟨hstate, rfl⟩⟩
      | starting | releasing =>
          obtain ⟨m, r', hle, hr', hsettled⟩ :=
            h.transient_ends hr (by simp [hstate, RState.inconsistent])
          exact ⟨m, r', hle, hr', hsettled.symm.imp_right fun hup => ⟨hup, rfl⟩⟩
      | deleteRequest | deleting | ended => simp [hstate, RState.leaving] at hleaving

/-- A closed ticket that has had its resource stays as it is. -/
theorem Fair.closed_kept (h : Fair name run act) (hle : n ≤ m)
    (ht : (run n).db.tickets.get? tid = some t) (hclosed : t.state = .closed)
    (hlink : t.resourceId ≠ none) : (run m).db.tickets.get? tid = some t := by
  induction m, hle using Nat.le_induction with
  | base => exact ht
  | succ m _ ih =>
      obtain ⟨t', ht', hrow⟩ := (step_cases (h.step m)).ticket (h.inv m).linked ih
      rw [ht']
      generalize act m = a at hrow
      cases hrow with
      | same => rfl
      | closed => rw [← hclosed]
      | killed _ hopened => simp [hclosed] at hopened
      | assigned i hassign =>
          obtain ⟨as, hrun⟩ := h.reaches m
          obtain ⟨_, t₁, -, ht₁, -, hnone, -⟩ := hrun.fits hassign
          obtain rfl := Option.some.inj (ih.symm.trans ht₁)
          exact absurd hnone hlink

/-- A resource that has done with a closed ticket never works on it again. -/
theorem Fair.untaken (h : Fair name run act) (hle : n ≤ m)
    (ht : (run n).db.tickets.get? tid = some t) (hclosed : t.state = .closed)
    (hlink : t.resourceId ≠ none) (hr : (run n).db.resources.get? id = some r)
    (hdone : r.ticketId ≠ some tid) (hr' : (run m).db.resources.get? id = some r') :
    r'.ticketId ≠ some tid := by
  induction m, hle using Nat.le_induction generalizing r' with
  | base =>
      obtain rfl := Option.some.inj (hr.symm.trans hr')
      exact hdone
  | succ m hle ih =>
      obtain ⟨q, hq, -⟩ := h.row hle hr
      obtain ⟨q', hq', hrow⟩ := (step_cases (h.step m)).resource (h.inv m).linked hq
      obtain rfl := Option.some.inj (hr'.symm.trans hq')
      intro htid
      rcases hrow.ticketId_cases htid with hold | ⟨hassign, -⟩
      · exact ih hq hold
      · obtain ⟨as, hrun⟩ := h.reaches m
        obtain ⟨_, t₁, -, ht₁, -, hnone, -⟩ := hrun.fits hassign
        obtain rfl := Option.some.inj ((h.closed_kept hle ht hclosed hlink).symm.trans ht₁)
        exact hlink hnone

/-- In the end the resource of a closed ticket is ENDED, or UP again without the ticket. -/
theorem Fair.takes_back (h : Fair name run act) (hr : (run n).db.resources.get? id = some r)
    (hpool : r.pool = name) (ht : (run n).db.tickets.get? tid = some t)
    (hlink : t.resourceId = some id) (hclosed : t.state = .closed) :
    ∃ m r', n ≤ m ∧ (run m).db.resources.get? id = some r' ∧
      (r'.state = .ended ∨ r'.state = .up ∧ r'.ticketId ≠ some tid) := by
  have hsome : t.resourceId ≠ none := by simp [hlink]
  -- once the resource has no ticket, it settles as it does without tickets
  have hsettles : ∀ {m q}, n ≤ m → (run m).db.resources.get? id = some q →
      q.ticketId ≠ some tid → ∃ m r', n ≤ m ∧ (run m).db.resources.get? id = some r' ∧
        (r'.state = .ended ∨ r'.state = .up ∧ r'.ticketId ≠ some tid) := by
    intro m q hle hq hdone
    obtain ⟨q', hq', hqpool, -⟩ := h.row hle hr
    obtain rfl := Option.some.inj (hq.symm.trans hq')
    obtain ⟨l, r', hl, hr', hstate⟩ := h.settles hq (hqpool.trans hpool)
    refine ⟨l, r', hle.trans hl, hr', hstate.imp_right fun hup => ⟨hup.1, ?_⟩⟩
    exact h.untaken hl (h.closed_kept hle ht hclosed hsome) hclosed hsome hq hdone hr'
  obtain ⟨m, i, hle, hact, c, p, rest, hpc, hname⟩ := h.exists_detectClosed n
  obtain ⟨q, hq, hqpool, -⟩ := h.row hle hr
  by_cases hholds : q.ticketId = some tid
  · have hlinked := (h.inv m).linked
    have htm := h.closed_kept hle ht hclosed hsome
    cases hstate : q.state with
    | starting => simp [hlinked.idle hq (.inl hstate)] at hholds
    | releasing => simp [hlinked.idle hq (.inr hstate)] at hholds
    | deleteRequest | deleting | ended =>
        obtain ⟨l, r', hl, hr', hended⟩ :=
          h.removal_ends hq (hqpool.trans hpool) (by simp [hstate, RState.leaving])
        exact ⟨l, r', hle.trans hl, hr', .inl hended⟩
    | up =>
        have hclosing : p.Closing (run m).db q := by
          refine ⟨by simp [InPool, hqpool, hpool, hname], hstate, ?_⟩
          simp [Db.ticketClosed, hholds, htm, hclosed]
        obtain ⟨db', closed, hdetect, hdecouples⟩ := detectClosedTickets_spec hlinked p i.now
        have hstep := h.step m
        simp only [hact, World.step, hpc, ManagerPc.step, hdetect] at hstep
        have hrow : (run (m + 1)).db.resources.get? id = some (q.decoupled p i.now) := by
          rw [← Option.some.inj hstep]
          simp [hdecouples.row, hq, hclosing]
        apply hsettles (hle.trans (Nat.le_succ m)) hrow
        simp [Resource.decoupled, Resource.released]
  · exact hsettles hle hq hholds

/-! ## Tickets -/

/-- A ticket waits, and a resource is ready for it. -/
def Servable (w : World) (tid : TicketId) (id : ResourceId) : Prop :=
  (∃ t, (tid, t) ∈ QTickets.waiting w.db) ∧ w.db.Fits tid id

/-- No ticket waits for ever while a resource for it is ready: in the end the ticket is served or
closed, or the resource is given to another ticket or lost. -/
theorem Fair.work_conserving (h : Fair name run act) (n : ℕ) (tid : TicketId) (id : ResourceId) :
    ∃ m, n ≤ m ∧ ¬ (run m).Servable tid id := by
  by_contra hnone
  have hservable : ∀ m, n ≤ m → (run m).Servable tid id := by
    intro m hle
    by_contra hnot
    exact hnone ⟨m, hle, hnot⟩
  -- the queue of a later cycle has the ticket
  obtain ⟨m, i, hle, hact, c, hpc⟩ : ∃ m i, n ≤ m ∧ act m = .manager i ∧
      ∃ c, (run m).manager = .collect c := by
    apply h.exists_pass ManagerPc.Queues fun pc => ∃ c, pc = .collect c
    · exact fun hwait => hwait
    · intro c _
      cases c.pools <;> exact trivial
    · exact fun hstep hqueues => hstep.queues hqueues
  have hstart : (run (m + 1)).manager.Serves tid id := by
    obtain ⟨⟨t, ht⟩, r, _, hr, -, hrow⟩ := hservable m hle
    obtain ⟨-, htasks, hids⟩ := collectQueue_spec c.onDemandTags (run m).db
    have hready : (id, r) ∈ QResources.ready (run m).db none :=
      mem_ready.mpr ⟨hr, by simp [InPool], hrow.up, hrow.free, hrow.checked⟩
    have hstep := h.step m
    simp only [hact, World.step, hpc, ManagerPc.step] at hstep
    rw [← Option.some.inj hstep]
    refine ⟨(htasks tid).mpr ⟨t, ht⟩, ?_⟩
    rw [hids]
    exact List.mem_map_of_mem (f := Prod.fst) hready
  -- the pass ends, so it comes to the ticket
  obtain ⟨l, -, hl, -, hwait⟩ := h.cycles (m + 1)
  obtain ⟨q, hq, -, hbefore, hafter⟩ :=
    exists_exit (P := fun n => (run n).manager.Serves tid id) hl hstart
      (by simp [hwait, ManagerPc.Serves])
  have hle' : n ≤ q := hle.trans ((Nat.le_succ m).trans hq)
  have hserved : ∃ t, (run (q + 1)).db.tickets.get? tid = some t ∧ t.resourceId ≠ none := by
    have hsteps := step_cases (h.step q)
    generalize hactq : act q = a at hsteps
    generalize hnextq : run (q + 1) = w' at hsteps hafter
    cases hsteps with
    | @manager i db started pc hpc =>
        rcases hpc.serves hbefore (h.inv q).queued.wf (hservable q hle').2 with hstill | hserved
        · exact absurd hstill hafter
        · exact hserved
    | restart t => exact absurd hactq (h.lives q t)
    | _ => exact absurd hbefore hafter
  obtain ⟨t, ht, hlink⟩ := hserved
  obtain ⟨⟨t', ht'⟩, -⟩ := hservable (q + 1) (hle'.trans (Nat.le_succ q))
  obtain ⟨ht', hunlinked, -⟩ := mem_waiting.mp ht'
  obtain rfl := Option.some.inj (ht.symm.trans ht')
  exact hlink hunlinked

/-! ## Fair runs that loop -/

/-- The first running worker goes on, or else the manager. -/
def nextAction (w : World) : Action :=
  match w.workers.entries.find? fun e => e.2.status = .running with
  | some e => .worker e.1 {}
  | none => .manager { now := 10, config := some basicConfig }

/-- The world after the next action. -/
def goOn (w : World) : World := (w.step w.nextAction).getD w

/-- No other worker waits for the one that goes on. -/
def Alone (w : World) : Prop :=
  (w.step w.nextAction).isSome = true ∧ Unprovoked w w.nextAction ∧
    ∀ e ∈ w.workers.entries, e.2.status = .running → w.nextAction = .worker e.1 {}

instance (w : World) : Decidable w.Alone :=
  inferInstanceAs (Decidable (_ ∧ _ ∧ ∀ _ ∈ _, _ → _))

/-- The server that comes to a loop through the beginning of a cycle runs fairly. -/
theorem fair_of_loop (start period : ℕ) (hreached : ∃ as, Reaches Unprovoked as w)
    (hperiod : 0 < period) (hloop : Function.IsPeriodicPt goOn period (goOn^[start] w))
    (halone : ∀ n < start + period, (goOn^[n] w).Alone)
    (hwait : (goOn^[start] w).manager = .wait)
    (hact : (goOn^[start] w).nextAction = .manager { now := 10, config := some basicConfig }) :
    Fair "basic" (fun n => goOn^[n] w) fun n => (goOn^[n] w).nextAction := by
  have halone : ∀ n, (goOn^[n] w).Alone := forall_iterate hperiod hloop halone
  have hmanager : ∀ {u i}, nextAction u = .manager i →
      i = { now := 10, config := some basicConfig } := by
    intro u i hact
    unfold nextAction at hact
    split at hact
    · contradiction
    · exact (Action.manager.inj hact).symm
  constructor
  · exact hreached
  · intro n
    obtain ⟨w', hw'⟩ := Option.isSome_iff_exists.mp (halone n).1
    rw [Function.iterate_succ_apply', goOn, hw']
    rfl
  · exact fun n => (halone n).2.1
  · intro n t hact
    unfold nextAction at hact
    split at hact <;> contradiction
  · intro n
    obtain ⟨m, hle, hm⟩ := exists_iterate hperiod hloop n
    refine ⟨m, { now := 10, config := some basicConfig }, hle, ?_, ?_⟩
    · rw [hm, hact]
    · rw [hm, hwait]
  · intro n i hact _
    rw [hmanager hact]
    exact ⟨basicConfig, rfl, basicPool, List.mem_singleton_self _, rfl⟩
  · intro n k worker hworker hrunning
    exact ⟨n, {}, le_refl n, (halone n).2.2 (k, worker) (IdTable.mem_entries.mpr hworker) hrunning⟩

/-- What the server does after its client has closed its ticket. -/
def closedWorlds (n : ℕ) : World := goOn^[n] (after Unprovoked basicRun (by decide +kernel))

/-- It comes to a loop of cycles without work. -/
theorem fair_closedWorlds : Fair "basic" closedWorlds fun n => (closedWorlds n).nextAction := by
  apply fair_of_loop 20 9
  · exact ⟨basicRun, reaches_after Unprovoked basicRun _⟩
  · decide
  · unfold Function.IsPeriodicPt Function.IsFixedPt
    decide +kernel
  · decide +kernel
  · decide +kernel
  · decide +kernel

/-- After six actions the removal of the resource is requested, and it is carried out. -/
theorem settles_closedWorlds : ∃ m r', 6 ≤ m ∧ (closedWorlds m).db.resources.get? 1 = some r' ∧
    (r'.state = .ended ∨ r'.state = .up ∧ RState.deleteRequest.leaving = false) := by
  have hrow : ((closedWorlds 6).db.resources.get? 1).any
      (fun r => r.pool = "basic" ∧ r.state = .deleteRequest) = true := by
    decide +kernel
  obtain ⟨r, hr, hboth⟩ := (Option.any_eq_true _ _).mp hrow
  rw [decide_eq_true_eq] at hboth
  have hsettles := Fair.settles fair_closedWorlds hr hboth.1
  rwa [hboth.2] at hsettles

/-- The resource is taken back from the closed ticket. -/
theorem takes_back_closedWorlds : ∃ m r', 0 ≤ m ∧
    (closedWorlds m).db.resources.get? 1 = some r' ∧
      (r'.state = .ended ∨ r'.state = .up ∧ r'.ticketId ≠ some 1) := by
  have hrow : ((closedWorlds 0).db.resources.get? 1).any (fun r => r.pool = "basic") = true := by
    decide +kernel
  have hticket : ((closedWorlds 0).db.tickets.get? 1).any
      (fun t => t.resourceId = some 1 ∧ t.state = .closed) = true := by
    decide +kernel
  obtain ⟨r, hr, hpool⟩ := (Option.any_eq_true _ _).mp hrow
  obtain ⟨t, ht, hboth⟩ := (Option.any_eq_true _ _).mp hticket
  rw [decide_eq_true_eq] at hpool hboth
  exact Fair.takes_back fair_closedWorlds hr hpool ht hboth.1 hboth.2

/-- A ticket is taken when a resource for it is ready. -/
def waitingRun : List Action :=
  ticks basicConfig 8 ++ List.replicate 3 (.worker 1 { now := 20 }) ++ [.takeTicket [] none]

/-- What the server does then. -/
def waitingWorlds (n : ℕ) : World := goOn^[n] (after Unprovoked waitingRun (by decide +kernel))

/-- It comes to a loop of cycles without work. -/
theorem fair_waitingWorlds : Fair "basic" waitingWorlds fun n => (waitingWorlds n).nextAction := by
  apply fair_of_loop 5 9
  · exact ⟨waitingRun, reaches_after Unprovoked waitingRun _⟩
  · decide
  · unfold Function.IsPeriodicPt Function.IsFixedPt
    decide +kernel
  · decide +kernel
  · decide +kernel
  · decide +kernel

/-- The ticket does not wait for ever. -/
theorem work_conserving_waitingWorlds :
    (waitingWorlds 0).Servable 1 1 ∧ ∃ m, 0 ≤ m ∧ ¬ (waitingWorlds m).Servable 1 1 := by
  have hticket : (waitingWorlds 0).db.tickets.get? 1 = some {} := by
    decide +kernel
  have hrow : ((waitingWorlds 0).db.resources.get? 1).any (fun r => r.state = .up ∧
      r.ticketId = none ∧ r.checkFailedCount = 0 ∧ truthy r.sandbox = false) = true := by
    decide +kernel
  obtain ⟨r, hr, hrow⟩ := (Option.any_eq_true _ _).mp hrow
  rw [decide_eq_true_eq] at hrow
  obtain ⟨hup, hfree, hchecked, hsandbox⟩ := hrow
  have hfits : Fits r {} := ⟨hup, hfree, hchecked, by simp, .inl hsandbox⟩
  constructor
  · exact ⟨⟨{}, mem_waiting.mpr ⟨hticket, rfl, rfl⟩⟩, r, {}, hr, hticket, hfits⟩
  · exact Fair.work_conserving fair_waitingWorlds 0 1 1

end World

end Resalloc
