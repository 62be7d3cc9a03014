import Resalloc.Foundations.Fallible
import Resalloc.Server.Assigning
import Resalloc.Server.Passes
import Resalloc.Server.System

/-!
# What one step can do

The step functions of the workers, of the manager, and of the whole server, read
backwards: each relation lists every way in which a step can end, with the tests
that were passed on the way.  Invariants are proved by cases on these relations,
and never unfold a step function.

Main results:

- Theorems {lit}`Worker.step_cases`, {lit}`ManagerPc.step_cases` and
  {lit}`World.step_cases`: the three inversions.
- Theorem {lit}`World.Steps.resource`: what a step can do to an existing resource.
- Theorem {lit}`World.Steps.ticket`: what a step can do to an existing ticket.
- Theorem {lit}`World.Steps.runs_cases`: where a running thread comes from.
-/

namespace Resalloc

open Foundations

/-! ## Transactions that return a new database -/

section Transactions

variable {db db' : Db} {p : Pool} {id : ResourceId}

/-- A pool row that is rewritten or inserted leaves tickets and resources alone. -/
theorem initPoolInDb_frame (now : Time) (db : Db) (p : Pool) :
    (initPoolInDb now db p).resources = db.resources ∧
      (initPoolInDb now db p).tickets = db.tickets := by
  unfold initPoolInDb
  cases db.pool? p.name <;> exact ⟨rfl, rfl⟩

/-- Entering all pools into the database leaves tickets and resources alone. -/
theorem foldl_initPoolInDb_frame (now : Time) (db : Db) (pools : List Pool) :
    (pools.foldl (initPoolInDb now) db).resources = db.resources ∧
      (pools.foldl (initPoolInDb now) db).tickets = db.tickets := by
  induction pools generalizing db with
  | nil => exact ⟨rfl, rfl⟩
  | cons p pools ih =>
      obtain ⟨hresources, htickets⟩ := initPoolInDb_frame now db p
      simpa [hresources, htickets] using ih (initPoolInDb now db p)

/-- The allocation of a pool identifier writes its own table only. -/
theorem allocatePoolId_frame (h : p.allocatePoolId id db = .ok db') :
    db' = { db with idsWithinPool := db'.idsWithinPool } := by
  simp only [Pool.allocatePoolId, Db.addIdWithinPool] at h
  split_ifs at h
  obtain rfl := Except.ok.inj h
  rfl

/-- The allocation of named counters writes their own table only. -/
theorem foldlM_allocateNamedCounterValue_frame {names : List String}
    (h : names.foldlM (Pool.allocateNamedCounterValue id) db = .ok db') :
    db' = { db with namedCounters := db'.namedCounters } := by
  refine foldlM_ok_invariant (P := fun d => d = { db with namedCounters := d.namedCounters })
    h rfl fun d hd name _ d' hround => ?_
  simp only [Pool.allocateNamedCounterValue, Db.addNamedCounter] at hround
  split_ifs at hround
  obtain rfl := Except.ok.inj hround
  rw [hd]

/-- The transactions on the tables that a successful allocation has made. -/
theorem allocate_parts {now importTime : Time} {datetime : String}
    (h : p.allocate now importTime datetime db = .ok (db', id)) :
    id = db.resources.nextId ∧ ∃ db₁ db₂,
      p.allocatePoolId id
        { db.modifyPool p.name fun row => { row with lastStart := now } with
          resources := db.resources.push (p.newResource importTime) } = .ok db₁ ∧
      p.namedCounters.foldlM (Pool.allocateNamedCounterValue id) db₁ = .ok db₂ ∧
      db' = db₂.modifyResource id fun r =>
        { r with
          name := carefulStringFormat p.namePattern
            [("id", zfill id 8), ("pool_name", p.name)] datetime } := by
  unfold Pool.allocate at h
  split at h
  next => contradiction
  next =>
    simp only at h
    split at h
    next => contradiction
    next db₁ hdb₁ =>
      split at h
      next => contradiction
      next db₂ hdb₂ =>
        obtain ⟨rfl, rfl⟩ := Prod.mk.inj (Except.ok.inj h)
        exact ⟨rfl, db₁, db₂, hdb₁, hdb₂, rfl⟩

/-- A successful allocation inserts one STARTING row, with the filled name pattern of
the pool. -/
theorem allocate_rows {now importTime : Time} {datetime : String}
    (h : p.allocate now importTime datetime db = .ok (db', id)) :
    id = db.resources.nextId ∧ db'.tickets = db.tickets ∧
      ∀ j, db'.resources.get? j =
        if j = id then
          some { p.newResource importTime with
            name := carefulStringFormat p.namePattern
              [("id", zfill id 8), ("pool_name", p.name)] datetime }
        else db.resources.get? j := by
  obtain ⟨rfl, db₁, db₂, hdb₁, hdb₂, rfl⟩ := allocate_parts h
  have hframe₁ := allocatePoolId_frame hdb₁
  have hframe₂ := foldlM_allocateNamedCounterValue_frame hdb₂
  have hresources : db₂.resources = db.resources.push (p.newResource importTime) := by
    rw [hframe₂, hframe₁]
  refine ⟨rfl, ?_, fun j => ?_⟩
  · rw [Db.modifyResource_tickets, hframe₂, hframe₁]
    rfl
  · simp only [Db.modifyResource_resources, hresources, IdTable.get?_modify, IdTable.get?_push]
    by_cases hj : j = db.resources.nextId <;> simp [hj]

/-- A successful allocation inserts one STARTING row. -/
theorem allocate_ok {now importTime : Time} {datetime : String}
    (h : p.allocate now importTime datetime db = .ok (db', id)) :
    id = db.resources.nextId ∧ db'.tickets = db.tickets ∧
      ∃ name, ∀ j, db'.resources.get? j =
        if j = id then some { p.newResource importTime with name := name }
        else db.resources.get? j := by
  obtain ⟨hid, htickets, hrows⟩ := allocate_rows h
  exact ⟨hid, htickets, _, hrows⟩

/-- A successful end of an allocation rewrites the row of its resource. -/
theorem allocFinish_ok {startInitiated now : Time} {rounding : Rounding} {output : Output}
    (h : allocFinish p startInitiated now rounding output id db = .ok db') :
    db'.tickets = db.tickets ∧ (∃ r, db.resources.get? id = some r) ∧
      db'.resources = db.resources.modify id fun r => r.started p output := by
  unfold allocFinish at h
  split at h
  next row r _ hr =>
    simp only at h
    split_ifs at h
    all_goals
      obtain rfl := Except.ok.inj h
      exact ⟨rfl, ⟨r, hr⟩, rfl⟩
  next => contradiction

/-- A successful close of a termination. -/
theorem terminateClose_ok (h : terminateClose id db = .ok db') :
    db' = (db.modifyResource id fun r => { r with state := .ended }).dropNumbers id := by
  unfold terminateClose at h
  split at h
  next => contradiction
  next => exact (Except.ok.inj h).symm

/-- A successful end of a release. -/
theorem releaseFinish_ok {status : Int} (h : releaseFinish p status id db = .ok db') :
    db' = db.modifyResource id fun r => r.returned p status := by
  unfold releaseFinish at h
  split at h
  next => contradiction
  next => exact (Except.ok.inj h).symm

/-- The ticket that makes a termination give up is open. -/
theorem terminateRequest_none (h : terminateRequest id db = .ok none) :
    ∃ r tid t, db.resources.get? id = some r ∧ r.ticketId = some tid ∧
      db.tickets.get? tid = some t ∧ t.state = .opened := by
  unfold terminateRequest at h
  split at h
  next => contradiction
  next r hr =>
    split at h
    next t ht =>
      split_ifs at h with hstate
      · obtain ⟨tid, htid, ht⟩ := Option.bind_eq_some_iff.mp ht
        exact ⟨r, tid, t, hr, htid, ht, hstate⟩
      · simp at h
    next => simp at h

/-- A successful start of a termination switches its resource to DELETING. -/
theorem terminateRequest_some (h : terminateRequest id db = .ok (some db')) :
    db' = db.modifyResource id fun r => { r with state := .deleting } := by
  unfold terminateRequest at h
  split at h
  next => contradiction
  next r hr =>
    split at h
    next t ht =>
      split_ifs at h
      · simp at h
      · exact (Option.some.inj (Except.ok.inj h)).symm
    next => exact (Option.some.inj (Except.ok.inj h)).symm

end Transactions

/-! ## Workers -/

/-- Steps of a job that write nothing. -/
inductive Job.Moves (i : Input) : Job → Job → Prop
  | allocLoad (id) : Moves i (.alloc id .load) (.alloc id (.cmdNew i.now))
  | cmdNew (id startInitiated) :
      Moves i (.alloc id (.cmdNew startInitiated)) (.alloc id (.finish startInitiated i.output))
  | cmdDelete (id) : Moves i (.terminate id .cmdDelete) (.terminate id .close)
  | releaseLoad (id) : Moves i (.release id .load) (.release id .cmdRelease)
  | cmdRelease (id) :
      Moves i (.release id .cmdRelease) (.release id (.finish i.output.status))
  | cleanUnknown (pc pc') : Moves i (.cleanUnknown pc) (.cleanUnknown pc')

/-- What the next transaction or hook of a worker can do. -/
inductive Worker.Steps (worker : Worker) (i : Input) (db : Db) : Db → Worker → Prop
  /-- The transaction or the hook raises. -/
  | raised : Steps worker i db db worker.raise
  | moved {job} : i.raises = false → Job.Moves i worker.job job →
      Steps worker i db db (worker.goto job)
  | cleaned {pc} : worker.job = .cleanUnknown pc → Steps worker i db db worker.finish
  /-- An {lit}`AllocWorker` commits. -/
  | started {id startInitiated output db'} : i.raises = false →
      worker.job = .alloc id (.finish startInitiated output) → db'.tickets = db.tickets →
      db'.resources = (db.resources.modify id fun r => r.started worker.pool output) →
      Steps worker i db db' worker.finish
  /-- A {lit}`TerminateWorker` meets an open ticket. -/
  | gaveUp {id r tid t} : worker.job = .terminate id .request → db.resources.get? id = some r →
      r.ticketId = some tid → db.tickets.get? tid = some t → t.state = .opened →
      Steps worker i db db worker.finish
  /-- A {lit}`TerminateWorker` commits its first transaction. -/
  | terminating {id} : i.raises = false → worker.job = .terminate id .request →
      Steps worker i db (db.modifyResource id fun r => { r with state := .deleting })
        (worker.goto (.terminate id (if truthy worker.pool.cmdDelete then .cmdDelete else .close)))
  /-- A {lit}`TerminateWorker` commits its last transaction. -/
  | ended {id db'} : i.raises = false → worker.job = .terminate id .close →
      db'.tickets = db.tickets →
      db'.resources = (db.resources.modify id fun r => { r with state := .ended }) →
      Steps worker i db db' worker.finish
  /-- A {lit}`ReleaseWorker` commits its last transaction. -/
  | returned {id status} : i.raises = false → worker.job = .release id (.finish status) →
      Steps worker i db (db.modifyResource id fun r => r.returned worker.pool status)
        worker.finish

/-- The outcomes of {lit}`Worker.step`. -/
theorem Worker.step_cases {worker next : Worker} {i : Input} {db db' : Db}
    (h : worker.step i db = (db', next)) : worker.Steps i db db' next := by
  unfold Worker.step at h
  split at h
  next =>
    obtain ⟨rfl, rfl⟩ := Prod.mk.inj h
    exact .raised
  next hraises =>
    have hok : i.raises = false := by simpa using hraises
    split at h
    next id hjob =>
      split at h
      all_goals obtain ⟨rfl, rfl⟩ := Prod.mk.inj h
      · exact .raised
      · exact .moved hok (hjob ▸ .allocLoad id)
    next id startInitiated hjob =>
      obtain ⟨rfl, rfl⟩ := Prod.mk.inj h
      exact .moved hok (hjob ▸ .cmdNew id startInitiated)
    next id startInitiated output hjob =>
      split at h
      next =>
        obtain ⟨rfl, rfl⟩ := Prod.mk.inj h
        exact .raised
      next db₁ hfinish =>
        obtain ⟨rfl, rfl⟩ := Prod.mk.inj h
        obtain ⟨htickets, -, hresources⟩ := allocFinish_ok hfinish
        exact .started hok hjob htickets hresources
    next id hjob =>
      split at h
      next =>
        obtain ⟨rfl, rfl⟩ := Prod.mk.inj h
        exact .raised
      next hgive =>
        obtain ⟨rfl, rfl⟩ := Prod.mk.inj h
        obtain ⟨r, tid, t, hr, htid, ht, hopened⟩ := terminateRequest_none hgive
        exact .gaveUp hjob hr htid ht hopened
      next db₁ hrequest =>
        obtain ⟨rfl, rfl⟩ := Prod.mk.inj h
        obtain rfl := terminateRequest_some hrequest
        exact .terminating hok hjob
    next id hjob =>
      obtain ⟨rfl, rfl⟩ := Prod.mk.inj h
      exact .moved hok (hjob ▸ .cmdDelete id)
    next id hjob =>
      split at h
      next =>
        obtain ⟨rfl, rfl⟩ := Prod.mk.inj h
        exact .raised
      next db₁ hclose =>
        obtain ⟨rfl, rfl⟩ := Prod.mk.inj h
        obtain rfl := terminateClose_ok hclose
        exact .ended hok hjob rfl rfl
    next id hjob =>
      split at h
      all_goals obtain ⟨rfl, rfl⟩ := Prod.mk.inj h
      · exact .raised
      · exact .moved hok (hjob ▸ .releaseLoad id)
    next id hjob =>
      obtain ⟨rfl, rfl⟩ := Prod.mk.inj h
      exact .moved hok (hjob ▸ .cmdRelease id)
    next id status hjob =>
      split at h
      next =>
        obtain ⟨rfl, rfl⟩ := Prod.mk.inj h
        exact .raised
      next db₁ hfinish =>
        obtain ⟨rfl, rfl⟩ := Prod.mk.inj h
        obtain rfl := releaseFinish_ok hfinish
        exact .returned hok hjob
    next hjob =>
      split at h
      all_goals obtain ⟨rfl, rfl⟩ := Prod.mk.inj h
      · exact .raised
      · exact .moved hok (hjob ▸ .cleanUnknown _ _)
    next allResources hjob =>
      obtain ⟨rfl, rfl⟩ := Prod.mk.inj h
      exact .moved hok (hjob ▸ .cleanUnknown _ _)
    next hjob =>
      obtain ⟨rfl, rfl⟩ := Prod.mk.inj h
      exact .cleaned hjob
    next name rest hjob =>
      obtain ⟨rfl, rfl⟩ := Prod.mk.inj h
      exact .moved hok (hjob ▸ .cleanUnknown _ _)

section Finishing

variable {worker : Worker} {i : Input} {db db' : Db} {id : ResourceId}

/-- An {lit}`AllocWorker` ends as DONE by its last transaction. -/
theorem Worker.allocFinish_of_step {startInitiated : Time} {output : Output}
    (hok : i.raises = false) (hjob : worker.job = .alloc id (.finish startInitiated output))
    (h : worker.step i db = (db', worker.finish)) :
    allocFinish worker.pool startInitiated i.now i.rounding output id db = .ok db' := by
  simp only [Worker.step, hok, hjob, Bool.false_eq_true, if_false] at h
  split at h
  next => simp [Worker.raise, Worker.finish] at h
  next db₁ hfinish =>
    obtain ⟨rfl, -⟩ := Prod.mk.inj h
    exact hfinish

/-- A {lit}`TerminateWorker` ends as DONE by its last transaction. -/
theorem Worker.terminateClose_of_step (hok : i.raises = false)
    (hjob : worker.job = .terminate id .close) (h : worker.step i db = (db', worker.finish)) :
    terminateClose id db = .ok db' := by
  simp only [Worker.step, hok, hjob, Bool.false_eq_true, if_false] at h
  split at h
  next => simp [Worker.raise, Worker.finish] at h
  next db₁ hclose =>
    obtain ⟨rfl, -⟩ := Prod.mk.inj h
    exact hclose

end Finishing

/-! ## The manager -/

/-- What the next step of the manager can do. -/
inductive ManagerPc.Steps (i : Input) (importTime : Time) (db : Db) :
    ManagerPc → Db → List Worker → ManagerPc → Prop
  /-- The thread dies, or is dead already. -/
  | stop (pc e) : Steps i importTime db pc db [] (.stopped e)
  | load {config : Config} {db'} : i.config = some config → db'.resources = db.resources →
      db'.tickets = db.tickets →
      Steps i importTime db .wait db' []
        (nextDetect { onDemandTags := onDemandTags config.pools, pools := config.pools }
          config.pools)
  | detectClosed {c p rest db' closed} : p.detectClosedTickets i.now db = .ok (db', closed) →
      Steps i importTime db (.detectClosed c p rest) db'
        (closed.map fun id => { pool := p, job := .release id .load }) (nextDetect c rest)
  | plan {c pools} : decideWhereToStart c.onDemandTags c.pools db = .ok pools →
      Steps i importTime db (.plan c) db [] (nextPool { c with pools := pools } pools)
  | removal {c p rest db'} : p.requestResourceRemoval i.now db = .ok db' →
      Steps i importTime db (.removal c p rest) db' []
        (.garbage { c with removalClock := (p.name, i.now) :: c.removalClock } p rest)
  | garbage (c p rest) :
      Steps i importTime db (.garbage c p rest) db
        ((p.garbageCollector db).map fun id => { pool := p, job := .terminate id .request })
        (.stats c p rest)
  | wantsMore {c p rest} : p.wantsMore (QResources.stats db (some p.name)) = true →
      Steps i importTime db (.stats c p rest) db [] (.tooSoon c p rest)
  | hasEnough {c p rest} : p.wantsMore (QResources.stats db (some p.name)) = false →
      Steps i importTime db (.stats c p rest) db [] (.cleanUnknown c p rest)
  | tooSoon (c p rest) : Steps i importTime db (.tooSoon c p rest) db [] (.cleanUnknown c p rest)
  | soonEnough (c p rest) : Steps i importTime db (.tooSoon c p rest) db [] (.allocate c p rest)
  | allocate {c rest db' id} {p p' : Pool} :
      p' = { p with startOnDemandThisCycle := p.startOnDemandThisCycle - 1 } →
      p'.allocate i.now importTime i.datetime db = .ok (db', id) →
      Steps i importTime db (.allocate c p rest) db' [{ pool := p', job := .alloc id .load }]
        (.stats c p' rest)
  | cleanUnknown (c p rest) :
      Steps i importTime db (.cleanUnknown c p rest) db
        [{ pool := p, job := .cleanUnknown .cmdList }] (.markCleaned c p rest)
  | keepUnknown (c p rest) :
      Steps i importTime db (.cleanUnknown c p rest) db [] (nextPool c rest)
  | markCleaned (c p rest) :
      Steps i importTime db (.markCleaned c p rest) (p.markCleaned i.now db) [] (nextPool c rest)
  | collect (c) :
      Steps i importTime db (.collect c) db []
        (.assign c (collectQueue c.onDemandTags db).1 (collectQueue c.onDemandTags db).2)
  | assigned {c queue ids tid queue' id} : queue.popTask = (some tid, queue') →
      chooseResource tid ids db = some id →
      Steps i importTime db (.assign c queue ids) (assignTicket db id tid i.uuid.1 i.now).1 []
        (.assign c queue' ids)
  | skipped {c queue ids tid queue'} : queue.popTask = (some tid, queue') →
      chooseResource tid ids db = none →
      Steps i importTime db (.assign c queue ids) db [] (.assign c queue' ids)
  | served {c queue ids} : queue.popTask.1 = none →
      Steps i importTime db (.assign c queue ids) db [] .wait

/-- The outcomes of {lit}`ManagerPc.step`. -/
theorem ManagerPc.step_cases {pc pc' : ManagerPc} {i : Input} {importTime : Time} {db db' : Db}
    {started : List Worker} (h : pc.step i importTime db = (db', started, pc')) :
    ManagerPc.Steps i importTime db pc db' started pc' := by
  unfold ManagerPc.step at h
  split at h
  next =>
    split at h
    all_goals obtain ⟨rfl, rfl, rfl⟩ := by simpa only [Prod.mk.injEq] using h
    · exact .stop _ _
    next config hconfig =>
      obtain ⟨hresources, htickets⟩ := foldl_initPoolInDb_frame i.now db config.pools
      exact .load hconfig hresources htickets
  next c p rest =>
    split at h
    all_goals obtain ⟨rfl, rfl, rfl⟩ := by simpa only [Prod.mk.injEq] using h
    · exact .stop _ _
    next hdetect => exact .detectClosed hdetect
  next c =>
    split at h
    all_goals obtain ⟨rfl, rfl, rfl⟩ := by simpa only [Prod.mk.injEq] using h
    · exact .stop _ _
    next hplan => exact .plan hplan
  next c p rest =>
    split at h
    all_goals obtain ⟨rfl, rfl, rfl⟩ := by simpa only [Prod.mk.injEq] using h
    · exact .stop _ _
    next hremoval => exact .removal hremoval
  next c p rest =>
    obtain ⟨rfl, rfl, rfl⟩ := by simpa only [Prod.mk.injEq] using h
    exact .garbage c p rest
  next c p rest =>
    split_ifs at h with hwants
    all_goals obtain ⟨rfl, rfl, rfl⟩ := by simpa only [Prod.mk.injEq] using h
    · exact .wantsMore hwants
    · exact .hasEnough (by simpa using hwants)
  next c p rest =>
    split at h
    all_goals obtain ⟨rfl, rfl, rfl⟩ := by simpa only [Prod.mk.injEq] using h
    · exact .stop _ _
    · exact .tooSoon c p rest
    · exact .soonEnough c p rest
  next c p rest =>
    simp only at h
    split at h
    all_goals obtain ⟨rfl, rfl, rfl⟩ := by simpa only [Prod.mk.injEq] using h
    · exact .stop _ _
    next hallocate => exact .allocate rfl hallocate
  next c p rest =>
    split_ifs at h
    all_goals obtain ⟨rfl, rfl, rfl⟩ := by simpa only [Prod.mk.injEq] using h
    · exact .cleanUnknown c p rest
    · exact .keepUnknown c p rest
  next c p rest =>
    obtain ⟨rfl, rfl, rfl⟩ := by simpa only [Prod.mk.injEq] using h
    exact .markCleaned c p rest
  next c =>
    obtain ⟨rfl, rfl, rfl⟩ := by simpa only [Prod.mk.injEq] using h
    exact .collect c
  next c queue ids =>
    split at h
    next hpop =>
      obtain ⟨rfl, rfl, rfl⟩ := by simpa only [Prod.mk.injEq] using h
      exact .served (by rw [hpop])
    next tid queue' hpop =>
      split at h
      all_goals obtain ⟨rfl, rfl, rfl⟩ := by simpa only [Prod.mk.injEq] using h
      · exact .stop _ _
      next hround =>
        rcases assignTicketTo_cases hround with ⟨id, hchoose, rfl⟩ | ⟨hchoose, rfl⟩
        · exact .assigned hpop hchoose
        · exact .skipped hpop hchoose
  next e =>
    obtain ⟨rfl, rfl, rfl⟩ := by simpa only [Prod.mk.injEq] using h
    exact .stop _ _

/-! ## The whole server -/

/-- A step of the watcher writes the result of a check, or nothing. -/
theorem WatcherPc.step_cases (pc : WatcherPc) (i : Input) (db : Db) :
    (pc.step i db).1 = db ∨ ∃ id status,
      (pc.step i db).1 = db.modifyResource id fun r => r.checked i.now status := by
  unfold WatcherPc.step
  split_ifs
  · exact .inl rfl
  · split
    · split <;> exact .inl rfl
    · exact .inl rfl
    · split_ifs <;> exact .inl rfl
    next item status toCheck =>
      split
      · exact .inl rfl
      · exact .inr ⟨item.resourceId, status, rfl⟩

namespace World

/-- What an action can do. -/
inductive Steps (w : World) : Action → World → Prop
  | manager {i db started pc} : ManagerPc.Steps i w.importTime w.db w.manager db started pc →
      Steps w (.manager i)
        { w with db := db, manager := pc, workers := spawn w.workers started }
  | worker {k i worker db next} : w.workers.get? k = some worker → worker.status = .running →
      worker.Steps i w.db db next →
      Steps w (.worker k i)
        { w with db := db, workers := w.workers.modify k fun _ => next }
  | watched (i pc) : Steps w (.watcher i) { w with watcher := pc }
  | checked (i id status pc) :
      Steps w (.watcher i)
        { w with db := w.db.modifyResource id fun r => r.checked i.now status, watcher := pc }
  | takeTicket {tags} (sandbox) : tags.Nodup →
      Steps w (.takeTicket tags sandbox)
        { w with db :=
          { w.db with tickets := w.db.tickets.push { sandbox := sandbox, tags := tags } } }
  | notTaken {tags} (sandbox) : ¬ tags.Nodup → Steps w (.takeTicket tags sandbox) w
  | closeTicket (tid) :
      Steps w (.closeTicket tid)
        { w with db := w.db.modifyTicket tid fun t => { t with state := .closed } }
  | notClosed (tid) : Steps w (.closeTicket tid) w
  | resourceDelete (args) :
      Steps w (.resourceDelete args)
        { w with maintainers := w.maintainers.push (Resalloc.resourceDelete args w.db) }
  | kill (k id) :
      Steps w (.kill k)
        { w with
          db := Resalloc.kill w.db id
          maintainers := w.maintainers.modify k List.tail }
  | restart (importTime) :
      Steps w (.restart importTime)
        { w with
          db := fixBrokenAfterRestart w.db
          manager := .wait
          workers := .empty
          watcher := .sleep
          importTime := importTime }

/-- A worker that moves is running, and makes a step of its own. -/
theorem step_worker {w w' : World} {k : ℕ} {i : Input} (h : w.step (.worker k i) = some w') :
    ∃ worker db next, w.workers.get? k = some worker ∧ worker.status = .running ∧
      worker.step i w.db = (db, next) ∧
      w' = { w with db := db, workers := w.workers.modify k fun _ => next } := by
  simp only [step] at h
  split at h
  next => contradiction
  next worker hworker =>
    split_ifs at h with hrunning
    exact ⟨worker, _, _, hworker, hrunning, rfl, (Option.some.inj h).symm⟩

/-- The outcomes of {lit}`World.step`. -/
theorem step_cases {w w' : World} {a : Action} (h : w.step a = some w') : w.Steps a w' := by
  cases a with
  | manager i =>
      obtain rfl := Option.some.inj h
      exact .manager (ManagerPc.step_cases rfl)
  | worker k i =>
      obtain ⟨worker, db, next, hworker, hrunning, hnext, rfl⟩ := step_worker h
      exact .worker hworker hrunning (Worker.step_cases hnext)
  | watcher i =>
      have heq : w' = { w with
          db := (w.watcher.step i w.db).1
          watcher := (w.watcher.step i w.db).2 } := (Option.some.inj h).symm
      rcases w.watcher.step_cases i w.db with hdb | ⟨id, status, hdb⟩
      · rw [heq, hdb]
        exact .watched i _
      · rw [heq, hdb]
        exact .checked i id status _
  | takeTicket tags sandbox =>
      simp only [step, Resalloc.takeTicket] at h
      split_ifs at h with htags
      all_goals obtain rfl := Option.some.inj h
      · exact .takeTicket sandbox htags
      · exact .notTaken sandbox htags
  | closeTicket tid =>
      simp only [step, Resalloc.closeTicket] at h
      split at h
      all_goals obtain rfl := Option.some.inj h
      · exact .notClosed tid
      next db hclose =>
        split at hclose
        · contradiction
        · obtain rfl := Except.ok.inj hclose
          exact .closeTicket tid
  | resourceDelete args =>
      obtain rfl := Option.some.inj h
      exact .resourceDelete args
  | kill k =>
      simp only [step] at h
      split at h
      next id rest _ =>
        obtain rfl := Option.some.inj h
        exact .kill k id
      next => contradiction
  | restart importTime =>
      obtain rfl := Option.some.inj h
      exact .restart importTime

/-- A thread runs a job. -/
def Runs (w : World) (k : ℕ) (p : Pool) (job : Job) : Prop :=
  w.workers.get? k = some { pool := p, job := job }

/-- A running thread, as a row of the thread table. -/
theorem runs_of_running {w : World} {k : ℕ} {worker : Worker}
    (h : w.workers.get? k = some worker) (hrunning : worker.status = .running) :
    w.Runs k worker.pool worker.job := by
  obtain ⟨pool, job, status⟩ := worker
  obtain rfl : status = .running := hrunning
  exact h

/-- The condition on a step of a running thread. -/
theorem OnWorkers.runs {cond : World → Worker → Prop} {w : World} {k : ℕ} {i : Input}
    (h : OnWorkers cond w (.worker k i)) (hok : i.raises = false) {p : Pool} {job : Job}
    (hruns : w.Runs k p job) : cond w { pool := p, job := job } :=
  h hok _ hruns rfl

/-! ## Rows -/

/-- What an action can do to an existing resource. -/
inductive ResourceSteps (w : World) (id : ResourceId) (r : Resource) : Action → Resource → Prop
  | same (a) : ResourceSteps w id r a r
  | checked (i status) : ResourceSteps w id r (.watcher i) (r.checked i.now status)
  | decoupled (i) {c p rest} : w.manager = .detectClosed c p rest → p.Closing w.db r →
      ResourceSteps w id r (.manager i) (r.decoupled p i.now)
  | retired (i) {c p rest} : w.manager = .removal c p rest → InPool (some p.name) r →
      r.state = .up → ResourceSteps w id r (.manager i) r.retired
  | assigned (i) {tid t} : w.assignment? (.manager i) = some (id, tid) →
      w.db.tickets.get? tid = some t → r.state = .up → r.ticketId = none →
      ResourceSteps w id r (.manager i) (r.assigned tid t i.uuid.1 i.now)
  | killed (k) : r.state = .up → ResourceSteps w id r (.kill k) r.retired
  | broken (importTime) : r.state.inconsistent = true →
      ResourceSteps w id r (.restart importTime) r.retired
  | started {k i p startInitiated output} : w.Runs k p (.alloc id (.finish startInitiated output)) →
      i.raises = false → ResourceSteps w id r (.worker k i) (r.started p output)
  | terminating {k i p} : w.Runs k p (.terminate id .request) → i.raises = false →
      ResourceSteps w id r (.worker k i) { r with state := .deleting }
  | ended {k i p} : w.Runs k p (.terminate id .close) → i.raises = false →
      ResourceSteps w id r (.worker k i) { r with state := .ended }
  | returned {k i p status} : w.Runs k p (.release id (.finish status)) → i.raises = false →
      ResourceSteps w id r (.worker k i) (r.returned p status)

/-- What an action can do to an existing ticket. -/
inductive TicketSteps (w : World) (tid : TicketId) (t : Ticket) : Action → Ticket → Prop
  | same (a) : TicketSteps w tid t a t
  | closed : TicketSteps w tid t (.closeTicket tid) { t with state := .closed }
  | killed (a) : t.state = .opened → t.resourceId ≠ none →
      TicketSteps w tid t a { t with state := .failed }
  | assigned (i) {id} : w.assignment? (.manager i) = some (id, tid) →
      TicketSteps w tid t (.manager i) (t.assigned id i.uuid.1)

variable {w w' : World} {a : Action} {id : ResourceId} {tid : TicketId} {r r' : Resource}
variable {t t' : Ticket}

/-- The assignment a round of the pass makes. -/
theorem assignment?_of_assign {c : Cycle} {queue queue' : PriorityQueue TicketId}
    {ids : List ResourceId} (hpc : w.manager = .assign c queue ids)
    (hpop : queue.popTask = (some tid, queue'))
    (hchoose : chooseResource tid ids w.db = some id) (i : Input) :
    w.assignment? (.manager i) = some (id, tid) := by
  simp [assignment?, hpc, ManagerPc.assignment?, hpop, hchoose]

/-- An assignment is made by a round of the pass. -/
theorem assignment?_some (h : w.assignment? a = some (id, tid)) :
    ∃ i c queue ids queue', a = .manager i ∧ w.manager = .assign c queue ids ∧
      queue.popTask = (some tid, queue') ∧ chooseResource tid ids w.db = some id := by
  cases a with
  | manager i =>
      simp only [assignment?] at h
      cases hpc : w.manager with
      | assign c queue ids =>
          simp only [hpc, ManagerPc.assignment?] at h
          split at h
          next => contradiction
          next tid' queue' hpop =>
            obtain ⟨id', hchoose, heq⟩ := Option.map_eq_some_iff.mp h
            obtain ⟨rfl, rfl⟩ := Prod.mk.inj heq
            exact ⟨i, c, queue, ids, queue', rfl, rfl, hpop, hchoose⟩
      | _ => simp [hpc, ManagerPc.assignment?] at h
  | _ => simp [assignment?] at h

/-- The database after a step that makes an assignment. -/
theorem step_of_assignment (h : w.assignment? a = some (id, tid)) (hstep : w.step a = some w') :
    ∃ i c queue queue' ids, a = .manager i ∧ w.manager = .assign c queue ids ∧
      queue.popTask = (some tid, queue') ∧ chooseResource tid ids w.db = some id ∧
      w' = { w with
        db := (assignTicket w.db id tid i.uuid.1 i.now).1
        manager := .assign c queue' ids } := by
  obtain ⟨i, c, queue, ids, queue', rfl, hpc, hpop, hchoose⟩ := assignment?_some h
  refine ⟨i, c, queue, queue', ids, rfl, hpc, hpop, hchoose, ?_⟩
  have hround := assignTicketTo_of_choose i.uuid.1 i.now hchoose
  simp only [step, hpc, ManagerPc.step, hpop, hround] at hstep
  exact (Option.some.inj hstep).symm

/-- A rewrite of one row, seen from an arbitrary row. -/
theorem get?_modify_cases {rows : IdTable Resource} {f : Resource → Resource} {j : ResourceId}
    (hr : rows.get? id = some r) :
    (id = j ∧ (rows.modify j f).get? id = some (f r)) ∨ (rows.modify j f).get? id = some r := by
  rw [IdTable.get?_modify]
  split_ifs with hj
  · exact .inl ⟨hj, by simp [hr]⟩
  · exact .inr hr

/-- What a step can do to an existing resource. -/
theorem Steps.resource (h : w.Steps a w') (hlinked : Linked w.db)
    (hr : w.db.resources.get? id = some r) :
    ∃ r', w'.db.resources.get? id = some r' ∧ w.ResourceSteps id r a r' := by
  -- steps that do not write the resource table
  have hsame : w'.db.resources = w.db.resources →
      ∃ r', w'.db.resources.get? id = some r' ∧ w.ResourceSteps id r a r' :=
    fun heq => ⟨r, by rw [heq, hr], .same a⟩
  cases h with
  | @manager i db started pc hpc =>
      generalize hmanager : w.manager = m at hpc
      cases hpc with
      | load _ hresources _ => exact hsame hresources
      | @detectClosed c p rest _ closed hdetect =>
          have hget := (hlinked.decouples hdetect).row
          by_cases hclosing : p.Closing w.db r
          · exact ⟨_, by simp [hget, hr, hclosing], .decoupled i hmanager hclosing⟩
          · exact ⟨r, by simp [hget, hr, hclosing], .same _⟩
      | @removal c p rest _ hremoval =>
          have hretires := (hlinked.removes hremoval).retires
          rcases hretires.kept hr with hkept | ⟨hpool, hup, hretired⟩
          · exact ⟨r, hkept, .same _⟩
          · exact ⟨r.retired, hretired, .retired i hmanager hpool hup⟩
      | @allocate c rest _ newId p p' hp hallocate =>
          obtain ⟨rfl, -, name, hget⟩ := allocate_ok hallocate
          have hne : id ≠ w.db.resources.nextId := (IdTable.lt_nextId hr).ne
          exact ⟨r, by simp [hget, hne, hr], .same _⟩
      | @assigned c queue ids tid queue' j hpop hchoose =>
          obtain ⟨t, r₀, ht, hr₀, hup, hfree, -, -⟩ := chooseResource_some hchoose
          have hassign := assignment?_of_assign hmanager hpop hchoose i
          simp only [assignTicket_resource _ _ _ _ _ ht]
          split_ifs with hj
          · subst hj
            obtain rfl := Option.some.inj (hr.symm.trans hr₀)
            exact ⟨_, by simp [hr], .assigned i hassign ht hup hfree⟩
          · exact ⟨r, hr, .same _⟩
      | stop | plan | garbage | wantsMore | hasEnough | tooSoon | soonEnough | cleanUnknown
        | keepUnknown | markCleaned | collect | skipped | served => exact hsame rfl
  | @worker k i worker db next hworker hrunning hstep =>
      have hruns := runs_of_running hworker hrunning
      cases hstep with
      | @started j startInitiated output _ hok hjob _ hresources =>
          rcases get?_modify_cases (f := fun r => r.started worker.pool output) (j := j) hr with
            ⟨rfl, hget⟩ | hget
          · exact ⟨_, hresources ▸ hget, .started (hjob ▸ hruns) hok⟩
          · exact ⟨r, hresources ▸ hget, .same _⟩
      | @terminating j hok hjob =>
          rcases get?_modify_cases (f := fun r => { r with state := .deleting }) (j := j) hr with
            ⟨rfl, hget⟩ | hget
          · exact ⟨_, hget, .terminating (hjob ▸ hruns) hok⟩
          · exact ⟨r, hget, .same _⟩
      | @ended j _ hok hjob _ hresources =>
          rcases get?_modify_cases (f := fun r => { r with state := .ended }) (j := j) hr with
            ⟨rfl, hget⟩ | hget
          · exact ⟨_, hresources ▸ hget, .ended (hjob ▸ hruns) hok⟩
          · exact ⟨r, hresources ▸ hget, .same _⟩
      | @returned j status hok hjob =>
          rcases get?_modify_cases (f := fun r => r.returned worker.pool status) (j := j) hr with
            ⟨rfl, hget⟩ | hget
          · exact ⟨_, hget, .returned (hjob ▸ hruns) hok⟩
          · exact ⟨r, hget, .same _⟩
      | raised | moved | cleaned | gaveUp => exact hsame rfl
  | checked i j status pc =>
      rcases get?_modify_cases (f := fun r => r.checked i.now status) (j := j) hr with
        ⟨rfl, hget⟩ | hget
      · exact ⟨_, hget, .checked i status⟩
      · exact ⟨r, hget, .same _⟩
  | kill k j =>
      simp only [kill_resource]
      by_cases hj : id = j
      · subst hj
        by_cases hup : r.state = .up
        · exact ⟨r.retired, by simp [hr, Resource.requested, hup, Resource.retired],
            .killed k hup⟩
        · exact ⟨r, by simp [hr, Resource.requested, hup], .same _⟩
      · exact ⟨r, by simp [hj, hr], .same _⟩
  | restart importTime =>
      by_cases hbroken : r.state.inconsistent = true
      · exact ⟨r.retired, by simp [hr, hbroken, Resource.retired], .broken importTime hbroken⟩
      · exact ⟨r, by simp [hr, hbroken], .same _⟩
  | watched | takeTicket | notTaken | closeTicket | notClosed | resourceDelete => exact hsame rfl

/-- A new resource is inserted by an allocation. -/
theorem Steps.created (h : w.Steps a w') (hlinked : Linked w.db)
    (hr' : w'.db.resources.get? id = some r') (hnone : w.db.resources.get? id = none) :
    ∃ i c p rest name, a = .manager i ∧ w.manager = .allocate c p rest ∧
      id = w.db.resources.nextId ∧ r' = { p.newResource w.importTime with name := name } := by
  have hsame : w'.db.resources ≠ w.db.resources := fun heq => by simp [heq, hnone] at hr'
  have hmodify : ∀ {f : Resource → Resource} {j},
      w'.db.resources ≠ w.db.resources.modify j f := fun {f j} heq => by
    simp [heq, IdTable.get?_modify, hnone] at hr'
  cases h with
  | @manager i db started pc hpc =>
      generalize hmanager : w.manager = m at hpc
      cases hpc with
      | load _ hresources _ => exact absurd hresources hsame
      | @detectClosed c p rest _ closed hdetect =>
          have hget := (hlinked.decouples hdetect).row
          simp [hget, hnone] at hr'
      | @removal c p rest _ hremoval =>
          have hretires := (hlinked.removes hremoval).retires
          obtain ⟨r, hr, -⟩ := hretires.row hr'
          simp [hnone] at hr
      | @allocate c rest _ newId p p' hp hallocate =>
          obtain ⟨rfl, -, name, hget⟩ := allocate_ok hallocate
          simp only [hget, hnone] at hr'
          split_ifs at hr' with hid
          obtain rfl := Option.some.inj hr'
          exact ⟨i, c, p, rest, name, rfl, rfl, hid, by rw [hp]; rfl⟩
      | @assigned c queue ids tid queue' j hpop hchoose =>
          obtain ⟨t, r₀, ht, -⟩ := chooseResource_some hchoose
          simp only [assignTicket_resource _ _ _ _ _ ht, hnone] at hr'
          split_ifs at hr'
          simp at hr'
      | stop | plan | garbage | wantsMore | hasEnough | tooSoon | soonEnough | cleanUnknown
        | keepUnknown | markCleaned | collect | skipped | served => exact absurd rfl hsame
  | worker _ _ hstep =>
      cases hstep with
      | started _ _ _ hresources => exact absurd hresources hmodify
      | terminating => exact absurd rfl hmodify
      | ended _ _ _ hresources => exact absurd hresources hmodify
      | returned => exact absurd rfl hmodify
      | raised | moved | cleaned | gaveUp => exact absurd rfl hsame
  | checked => exact absurd rfl hmodify
  | kill k j =>
      simp only [kill_resource, hnone] at hr'
      split_ifs at hr'
      simp at hr'
  | restart => simp [hnone] at hr'
  | watched | takeTicket | notTaken | closeTicket | notClosed | resourceDelete =>
      exact absurd rfl hsame

/-- What a step can do to an existing ticket. -/
theorem Steps.ticket (h : w.Steps a w') (hlinked : Linked w.db)
    (ht : w.db.tickets.get? tid = some t) :
    ∃ t', w'.db.tickets.get? tid = some t' ∧ w.TicketSteps tid t a t' := by
  have hsame : w'.db.tickets = w.db.tickets →
      ∃ t', w'.db.tickets.get? tid = some t' ∧ w.TicketSteps tid t a t' :=
    fun heq => ⟨t, by rw [heq, ht], .same a⟩
  cases h with
  | @manager i db started pc hpc =>
      generalize hmanager : w.manager = m at hpc
      cases hpc with
      | load _ _ htickets => exact hsame htickets
      | @detectClosed c p rest _ closed hdetect =>
          have hframe := (hlinked.decouples hdetect).frame
          exact hsame (by rw [hframe])
      | @removal c p rest _ hremoval =>
          have hretires := (hlinked.removes hremoval).retires
          rcases hretires.tickets tid with heq | ⟨t₀, ht₀, hid, hopened, hfailed⟩
          · exact ⟨t, heq.trans ht, .same _⟩
          · obtain rfl := Option.some.inj (ht.symm.trans ht₀)
            exact ⟨_, hfailed, .killed _ hopened hid⟩
      | allocate _ hallocate => exact hsame (allocate_ok hallocate).2.1
      | @assigned c queue ids tid' queue' j hpop hchoose =>
          have hassign := assignment?_of_assign hmanager hpop hchoose i
          simp only [assignTicket_ticket]
          split_ifs with htid
          · subst htid
            exact ⟨_, by simp [ht], .assigned i hassign⟩
          · exact ⟨t, ht, .same _⟩
      | stop | plan | garbage | wantsMore | hasEnough | tooSoon | soonEnough | cleanUnknown
        | keepUnknown | markCleaned | collect | skipped | served => exact hsame rfl
  | worker _ _ hstep =>
      cases hstep with
      | started _ _ htickets _ => exact hsame htickets
      | ended _ _ htickets _ => exact hsame htickets
      | raised | moved | cleaned | gaveUp | terminating | returned => exact hsame rfl
  | takeTicket sandbox _ =>
      exact ⟨t, IdTable.get?_push_of_some _ ht, .same _⟩
  | closeTicket tid' =>
      simp only [Db.modifyTicket_tickets, IdTable.get?_modify]
      split_ifs with htid
      · subst htid
        exact ⟨_, by simp [ht], .closed⟩
      · exact ⟨t, ht, .same _⟩
  | kill k j =>
      by_cases hkilled : t.resourceId = some j ∧ t.state = .opened
      · exact ⟨_, by simp [ht, Ticket.killedWith, hkilled],
          .killed _ hkilled.2 (by simp [hkilled.1])⟩
      · exact ⟨t, by simp [ht, Ticket.killedWith, hkilled], .same _⟩
  | restart => exact ⟨t, ht, .same _⟩
  | watched | checked | notTaken | notClosed | resourceDelete => exact hsame rfl

/-- A new ticket is inserted by {lit}`takeTicket`. -/
theorem Steps.taken (h : w.Steps a w') (hlinked : Linked w.db)
    (ht' : w'.db.tickets.get? tid = some t') (hnone : w.db.tickets.get? tid = none) :
    ∃ tags sandbox, a = .takeTicket tags sandbox ∧ tags.Nodup ∧ tid = w.db.tickets.nextId ∧
      t' = { sandbox := sandbox, tags := tags } := by
  have hsame : w'.db.tickets ≠ w.db.tickets := fun heq => by simp [heq, hnone] at ht'
  cases h with
  | @manager i db started pc hpc =>
      generalize hmanager : w.manager = m at hpc
      cases hpc with
      | load _ _ htickets => exact absurd htickets hsame
      | @detectClosed c p rest _ closed hdetect =>
          have hframe := (hlinked.decouples hdetect).frame
          exact absurd (by rw [hframe]) hsame
      | @removal c p rest _ hremoval =>
          have hretires := (hlinked.removes hremoval).retires
          rcases hretires.tickets tid with heq | ⟨t₀, ht₀, -⟩
          · simp [heq, hnone] at ht'
          · simp [hnone] at ht₀
      | allocate _ hallocate => exact absurd (allocate_ok hallocate).2.1 hsame
      | assigned =>
          simp only [assignTicket_ticket, hnone] at ht'
          split_ifs at ht'
          simp at ht'
      | stop | plan | garbage | wantsMore | hasEnough | tooSoon | soonEnough | cleanUnknown
        | keepUnknown | markCleaned | collect | skipped | served => exact absurd rfl hsame
  | worker _ _ hstep =>
      cases hstep with
      | started _ _ htickets _ => exact absurd htickets hsame
      | ended _ _ htickets _ => exact absurd htickets hsame
      | raised | moved | cleaned | gaveUp | terminating | returned => exact absurd rfl hsame
  | @takeTicket tags sandbox htags =>
      rcases IdTable.get?_push_some ht' with ⟨hid, rfl⟩ | ht
      · exact ⟨tags, sandbox, rfl, htags, hid, rfl⟩
      · simp [hnone] at ht
  | closeTicket tid' => simp [IdTable.get?_modify, hnone] at ht'
  | kill k j => simp [hnone] at ht'
  | restart => simp [hnone] at ht'
  | watched | checked | notTaken | notClosed | resourceDelete => exact absurd rfl hsame

/-! ## Threads -/

/-- Threads that a step of the manager starts, with what it has seen. -/
inductive Starts (w w' : World) : Worker → Prop
  | release {c p rest id r} (now) : w.manager = .detectClosed c p rest →
      truthy p.cmdRelease = true → w.db.resources.get? id = some r → p.Closing w.db r →
      w'.db.resources.get? id = some (r.decoupled p now) →
      Starts w w' { pool := p, job := .release id .load }
  | terminate {c p rest id r} : w.manager = .garbage c p rest →
      w.db.resources.get? id = some r → InPool (some p.name) r → r.state = .deleteRequest →
      w'.db = w.db → Starts w w' { pool := p, job := .terminate id .request }
  | alloc {c rest id} {p p' : Pool} (name) : w.manager = .allocate c p rest →
      p' = { p with startOnDemandThisCycle := p.startOnDemandThisCycle - 1 } →
      w.db.resources.get? id = none →
      w'.db.resources.get? id = some { p'.newResource w.importTime with name := name } →
      Starts w w' { pool := p', job := .alloc id .load }
  | cleanUnknown (p) : Starts w w' { pool := p, job := .cleanUnknown .cmdList }

/-- Started threads are appended. -/
theorem get?_spawn {workers : IdTable Worker} {started : List Worker} {k : ℕ}
    {worker : Worker} (h : (spawn workers started).get? k = some worker) :
    workers.get? k = some worker ∨ workers.get? k = none ∧ worker ∈ started := by
  induction started generalizing workers with
  | nil => exact .inl h
  | cons first started ih =>
      rcases ih h with hold | ⟨hnone, hmem⟩
      · rcases IdTable.get?_push_some hold with ⟨rfl, rfl⟩ | hold
        · exact .inr ⟨by simp, by simp⟩
        · exact .inl hold
      · rw [IdTable.get?_push] at hnone
        split_ifs at hnone
        exact .inr ⟨hnone, by simp [hmem]⟩

/-- Running threads survive the start of others. -/
theorem get?_spawn_of_some {workers : IdTable Worker} (started : List Worker) {k : ℕ}
    {worker : Worker} (h : workers.get? k = some worker) :
    (spawn workers started).get? k = some worker := by
  induction started generalizing workers with
  | nil => exact h
  | cons first started ih => exact ih (IdTable.get?_push_of_some first h)

/-- Threads started together stand at different places, in the order of the
list. -/
theorem get?_spawn_inj {β : Type} {workers : IdTable Worker} {started : List Worker}
    {f : Worker → β} (hnodup : (started.map f).Nodup) {j k : ℕ} {x y : Worker}
    (hx : (spawn workers started).get? j = some x) (hxnew : workers.get? j = none)
    (hy : (spawn workers started).get? k = some y) (hynew : workers.get? k = none)
    (heq : f x = f y) : j = k := by
  induction started generalizing workers with
  | nil => simp [spawn, hxnew] at hx
  | cons first started ih =>
      obtain ⟨hfirst, hnodup⟩ := List.nodup_cons.mp hnodup
      -- the first started thread differs from all later ones
      have hlater : ∀ {l z}, (spawn (workers.push first) started).get? l = some z →
          workers.get? l = none → l ≠ workers.nextId →
          (workers.push first).get? l = none ∧ f z ≠ f first := by
        intro l z hz hnew hne
        have hnone : (workers.push first).get? l = none := by simp [IdTable.get?_push, hne, hnew]
        rcases get?_spawn hz with hold | ⟨-, hmem⟩
        · simp [hnone] at hold
        · exact ⟨hnone, fun hfz => hfirst (hfz ▸ List.mem_map_of_mem hmem)⟩
      have hnext : ∀ {l z}, (spawn (workers.push first) started).get? l = some z →
          l = workers.nextId → z = first := by
        rintro l z hz rfl
        have hget : (spawn (workers.push first) started).get? workers.nextId = some first :=
          get?_spawn_of_some started (by simp [IdTable.get?_push])
        exact Option.some.inj (hz.symm.trans hget)
      by_cases hj : j = workers.nextId <;> by_cases hk : k = workers.nextId
      · rw [hj, hk]
      · exact absurd (heq.symm.trans (by rw [hnext hx hj])) (hlater hy hynew hk).2
      · exact absurd (heq.trans (by rw [hnext hy hk])) (hlater hx hxnew hj).2
      · exact ih hnodup hx (hlater hx hxnew hj).1 hy (hlater hy hynew hk).1

/-- A running thread ran before, has made its own step, or was started. -/
theorem Steps.runs_cases (h : w.Steps a w') (hlinked : Linked w.db) {k : ℕ} {p : Pool} {job : Job}
    (hruns : w'.Runs k p job) :
    (w.Runs k p job ∧ ∀ i, a ≠ .worker k i) ∨
      (∃ i old, a = .worker k i ∧ i.raises = false ∧ w.Runs k p old ∧
        (Job.Moves i old job ∧ w'.db = w.db ∨
          ∃ id, old = .terminate id .request ∧
            job = .terminate id (if truthy p.cmdDelete then .cmdDelete else .close) ∧
            w'.db = w.db.modifyResource id fun r => { r with state := .deleting })) ∨
      w.workers.get? k = none ∧ (∃ i, a = .manager i) ∧
        Starts w w' { pool := p, job := job } := by
  cases h with
  | @manager i db started pc hpc =>
      rcases get?_spawn hruns with hold | ⟨hnone, hmem⟩
      · exact .inl ⟨hold, by simp⟩
      · refine .inr (.inr ⟨hnone, ⟨i, rfl⟩, ?_⟩)
        generalize hmanager : w.manager = m at hpc
        cases hpc with
        | @detectClosed c p rest _ closed hdetect =>
            obtain ⟨-, hget, -, hids⟩ := hlinked.decouples hdetect
            obtain ⟨id, hid, heq⟩ := List.mem_map.mp hmem
            obtain ⟨hrelease, r, hr, hclosing⟩ := (hids id).mp hid
            rw [← heq]
            exact .release i.now hmanager hrelease hr hclosing (by simp [hget, hr, hclosing])
        | garbage c p rest =>
            obtain ⟨id, hid, heq⟩ := List.mem_map.mp hmem
            obtain ⟨⟨_, r⟩, he, rfl⟩ := List.mem_map.mp hid
            obtain ⟨hr, hpool, hstate⟩ := mem_clean.mp he
            rw [← heq]
            exact .terminate hmanager hr hpool hstate rfl
        | @allocate c rest _ newId p p' hp hallocate =>
            rw [List.mem_singleton.mp hmem]
            obtain ⟨rfl, -, name, hget⟩ := allocate_ok hallocate
            exact .alloc name hmanager hp (by simp) (by simp [hget])
        | cleanUnknown c p rest =>
            rw [List.mem_singleton.mp hmem]
            exact .cleanUnknown p
        | _ => simp at hmem
  | @worker j i worker db next hworker hrunning hstep =>
      by_cases hk : k = j
      · subst hk
        obtain rfl : next = { pool := p, job := job } := by
          simpa [Runs, hworker] using hruns
        have hold := runs_of_running hworker hrunning
        obtain ⟨pool, old, status⟩ := worker
        refine .inr (.inl ⟨i, old, rfl, ?_⟩)
        generalize hnext : ({ pool := p, job := job } : Worker) = next at hstep
        cases hstep with
        | moved hok hmoves =>
            obtain ⟨rfl, rfl, -⟩ := by simpa [Worker.goto] using hnext
            exact ⟨hok, hold, .inl ⟨hmoves, rfl⟩⟩
        | @terminating id hok hjob =>
            obtain ⟨rfl, rfl, -⟩ := by simpa [Worker.goto] using hnext
            exact ⟨hok, hold, .inr ⟨id, hjob, rfl, rfl⟩⟩
        | _ => simp [Worker.raise, Worker.finish] at hnext
      · rw [Runs, IdTable.get?_modify_of_ne hk] at hruns
        exact .inl ⟨hruns, by simp [Ne.symm hk]⟩
  | restart => simp [Runs] at hruns
  | watched | checked | takeTicket | notTaken | closeTicket | notClosed | resourceDelete | kill =>
      exact .inl ⟨hruns, by simp⟩

/-- A started thread is in the thread table. -/
theorem exists_get?_spawn (workers : IdTable Worker) {started : List Worker} {worker : Worker}
    (h : worker ∈ started) : ∃ k, (spawn workers started).get? k = some worker := by
  induction started generalizing workers with
  | nil => simp at h
  | cons first started ih =>
      rcases List.mem_cons.mp h with rfl | h
      · exact ⟨workers.nextId, get?_spawn_of_some started (by simp [IdTable.get?_push])⟩
      · exact ih _ h

/-- Unless the server restarts, a thread stays as it is until its own step. -/
theorem Steps.worker_next (h : w.Steps a w') (hrestart : ∀ t, a ≠ .restart t) {k : ℕ}
    {worker : Worker} (hworker : w.workers.get? k = some worker) :
    w'.workers.get? k = some worker ∨
      ∃ i next, a = .worker k i ∧ worker.Steps i w.db w'.db next ∧
        w'.workers.get? k = some next := by
  cases h with
  | manager => exact .inl (get?_spawn_of_some _ hworker)
  | @worker j i worker' db next hworker' _ hstep =>
      by_cases hk : k = j
      · subst hk
        obtain rfl := Option.some.inj (hworker.symm.trans hworker')
        exact .inr ⟨i, next, rfl, hstep, by simp [hworker]⟩
      · exact .inl (by simp [IdTable.get?_modify_of_ne hk, hworker])
  | restart t => exact absurd rfl (hrestart t)
  | watched | checked | takeTicket | notTaken | closeTicket | notClosed | resourceDelete | kill =>
      exact .inl hworker

end World

end Resalloc
