import Resalloc.Server.Commands
import Resalloc.Server.Pool

/-!
# Worker threads

The background threads of {lit}`resallocserver/manager.py`.  A worker runs one
database transaction or one hook command at a time, and other threads may run
between two of them.  A transaction or a hook may raise: the transaction is
rolled back and the thread ends.

Main definitions:

- Definition {lit}`Job`: what a worker does, and how far it got.
- Definitions {lit}`terminateRequest`, {lit}`releaseFinish`, {lit}`allocFinish`: the
  transactions that write.
- Definition {lit}`Worker.step`: the next transaction or hook of a worker.
-/

namespace Resalloc

open Foundations

/-! ## What a step reads from outside -/

/-- The result of a hook command. -/
structure Output where
  status : Int
  stdout : List UInt8 := []
deriving DecidableEq

theorem uuid_ne_empty : "uuid" ≠ "" := by decide

/-- How far floating point results are from the exact ones. -/
structure Rounding where
  startupTime : ℚ := 0
  timeAvg : ℚ := 0
  successRate : ℚ := 0
deriving DecidableEq

/-- Everything a step may read from outside the server's state. -/
structure Input where
  /-- {lit}`time.time()`. -/
  now : Time := 0
  /-- The filler of {lit}`datetime` in resource names. -/
  datetime : String := ""
  /-- {lit}`str(uuid.uuid1())`. -/
  uuid : Uuid := ⟨"uuid", uuid_ne_empty⟩
  /-- The loaded configuration, unless loading it raises. -/
  config : Option Config := none
  /-- The result of the hook command. -/
  output : Output := { status := 0 }
  /-- The transaction or the hook raises. -/
  raises : Bool := false
  /-- The rounding errors of the statistics that the transaction stores. -/
  rounding : Rounding := {}
deriving DecidableEq

/-! ## Transactions -/

/-- First transaction of {lit}`TerminateWorker.job`; {lean}`none` if the ticket is
still opened and the worker gives up. -/
def terminateRequest (id : ResourceId) (db : Db) : Except PyError (Option Db) :=
  match db.resources.get? id with
  | none => .error .attributeError
  | some r =>
      match r.ticketId.bind db.tickets.get? with
      | some ticket =>
          if ticket.state = .opened then .ok none
          else .ok (some (db.modifyResource id fun r => { r with state := .deleting }))
      | none => .ok (some (db.modifyResource id fun r => { r with state := .deleting }))

/-- {lit}`TerminateWorker.close`. -/
def terminateClose (id : ResourceId) (db : Db) : Except PyError Db :=
  match db.resources.get? id with
  | none => .error .attributeError
  | some _ => .ok ((db.modifyResource id fun r => { r with state := .ended }).dropNumbers id)

/-- The row the last transaction of {lit}`ReleaseWorker.job` leaves behind. -/
def Resource.returned (r : Resource) (p : Pool) (status : Int) : Resource :=
  { r with
    -- mark it for removal
    releasesCounter := if status = 0 then r.releasesCounter else p.reuseMaxCount + 1
    state := .up }

/-- Last transaction of {lit}`ReleaseWorker.job`. -/
def releaseFinish (p : Pool) (status : Int) (id : ResourceId) (db : Db) : Except PyError Db :=
  match db.resources.get? id with
  | none => .error .attributeError
  | some _ => .ok (db.modifyResource id fun r => r.returned p status)

/-- {lit}`AllocWorker.recalculate_statistics`, on the pool's row. -/
def recalculateStatistics (success : Bool) (startInitiated startFinished : Time)
    (rounding : Rounding) (row : PoolRow) : PoolRow :=
  let startupTime := startFinished - startInitiated + rounding.startupTime
  let alpha : ℚ := 1 / 5
  { row with
    startupTimeAvg :=
      if success then
        match row.startupTimeAvg with
        | none => some startupTime
        | some avg => some (alpha * startupTime + (1 - alpha) * avg + rounding.timeAvg)
      else row.startupTimeAvg
    startupSuccessRate :=
      match row.startupSuccessRate with
      | none => some (if success then 1 else 0)
      | some rate =>
          some (alpha * (if success then 1 else 0) + (1 - alpha) * rate + rounding.successRate)
    lastAttemptToStart := some startFinished
    lastSuccessfulStart := if success then some startFinished else row.lastSuccessfulStart }

/-- The tag rows {lit}`AllocWorker.job` stores with a resource of a pool.  The ORM leaves a
null priority out of the insertion, and the column has a default. -/
def Pool.resourceTags (p : Pool) : List ResourceTag :=
  p.tagsAll.map fun tag => { id := tag.name, priority := some (tag.priority.getD 0) }

/-- The row the last transaction of {lit}`AllocWorker.job` leaves behind. -/
def Resource.started (r : Resource) (p : Pool) (output : Output) : Resource :=
  { r with
    state := if output.status = 0 then .up else .ended
    data := some output.stdout
    tags := r.tags ++ p.resourceTags }

/-- Last transaction of {lit}`AllocWorker.job`.  The statistics are in the row that has
the pool's identifier as its name; two tags of one name violate the key of
{lit}`resource_tags`. -/
def allocFinish (p : Pool) (startInitiated now : Time) (rounding : Rounding) (output : Output)
    (id : ResourceId) (db : Db) : Except PyError Db :=
  match db.pool? p.id, db.resources.get? id with
  | some _, some r =>
      let db := db.modifyPool p.id
        (recalculateStatistics (output.status = 0) startInitiated now rounding)
      if ((r.tags ++ p.resourceTags).map ResourceTag.id).Nodup then
        let db := db.modifyResource id fun r => r.started p output
        if output.status = 0 then .ok db
        else if db.idsWithinPool.any fun row => row.resourceId = id then .ok (db.dropNumbers id)
        else .error .attributeError
      else .error .integrityError
  | _, _ => .error .attributeError

/-! ## Threads -/

/-- Where an {lit}`AllocWorker` is; {lit}`start_initiated` is read when it starts. -/
inductive AllocPc
  | load
  | cmdNew (startInitiated : Time)
  | finish (startInitiated : Time) (output : Output)
deriving DecidableEq

/-- Where a {lit}`TerminateWorker` is. -/
inductive TerminatePc
  | request
  | cmdDelete
  | close
deriving DecidableEq

/-- Where a {lit}`ReleaseWorker` is. -/
inductive ReleasePc
  | load
  | cmdRelease
  | finish (status : Int)
deriving DecidableEq

/-- Where a {lit}`CleanUnknownWorker` is. -/
inductive CleanPc
  | cmdList
  | readKnown (allResources : List String)
  | cmdDelete (unknownResources : List String)
deriving DecidableEq

/-- What a worker does. -/
inductive Job
  | alloc (resourceId : ResourceId) (pc : AllocPc)
  | terminate (resourceId : ResourceId) (pc : TerminatePc)
  | release (resourceId : ResourceId) (pc : ReleasePc)
  | cleanUnknown (pc : CleanPc)
deriving DecidableEq

/-- Whether a thread still runs, has returned, or died of an exception. -/
inductive ThreadStatus
  | running
  | finished
  | raised
deriving DecidableEq

/-- A worker thread. -/
structure Worker where
  pool : Pool
  job : Job
  status : ThreadStatus := .running
deriving DecidableEq

namespace Worker

/-- The thread after its next transaction or hook. -/
def goto (worker : Worker) (job : Job) : Worker := { worker with job := job }

/-- The thread after its last transaction. -/
def finish (worker : Worker) : Worker := { worker with status := .finished }

/-- The thread after an exception. -/
def raise (worker : Worker) : Worker := { worker with status := .raised }

/-- The next transaction or hook of a running worker, and the database after it. -/
def step (worker : Worker) (i : Input) (db : Db) : Db × Worker :=
  if i.raises then (db, worker.raise)
  else
    match worker.job with
    | .alloc id .load =>
        match db.resources.get? id with
        | none => (db, worker.raise)
        | some _ => (db, worker.goto (.alloc id (.cmdNew i.now)))
    | .alloc id (.cmdNew startInitiated) =>
        (db, worker.goto (.alloc id (.finish startInitiated i.output)))
    | .alloc id (.finish startInitiated output) =>
        match allocFinish worker.pool startInitiated i.now i.rounding output id db with
        | .error _ => (db, worker.raise)
        | .ok db => (db, worker.finish)
    | .terminate id .request =>
        match terminateRequest id db with
        | .error _ => (db, worker.raise)
        | .ok none => (db, worker.finish)
        | .ok (some db) =>
            (db, worker.goto
              (.terminate id (if truthy worker.pool.cmdDelete then .cmdDelete else .close)))
    | .terminate id .cmdDelete => (db, worker.goto (.terminate id .close))
    | .terminate id .close =>
        match terminateClose id db with
        | .error _ => (db, worker.raise)
        | .ok db => (db, worker.finish)
    | .release id .load =>
        match db.resources.get? id with
        | none => (db, worker.raise)
        | some _ => (db, worker.goto (.release id .cmdRelease))
    | .release id .cmdRelease => (db, worker.goto (.release id (.finish i.output.status)))
    | .release id (.finish status) =>
        match releaseFinish worker.pool status id db with
        | .error _ => (db, worker.raise)
        | .ok db => (db, worker.finish)
    | .cleanUnknown .cmdList =>
        match listAllResources i.output.stdout with
        -- the captured output is no UTF-8
        | none => (db, worker.raise)
        | some names => (db, worker.goto (.cleanUnknown (.readKnown names)))
    | .cleanUnknown (.readKnown allResources) =>
        let known := (QResources.on db none).map fun e => e.2.name
        let unknown := allResources.dedup.filter fun name => some name ∉ known
        (db, worker.goto (.cleanUnknown (.cmdDelete unknown)))
    | .cleanUnknown (.cmdDelete []) => (db, worker.finish)
    | .cleanUnknown (.cmdDelete (_ :: rest)) => (db, worker.goto (.cleanUnknown (.cmdDelete rest)))

end Worker

end Resalloc
