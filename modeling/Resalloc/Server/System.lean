import Resalloc.Foundations.Runs
import Resalloc.Server.Manager

/-!
# The whole server

The server as one transition system: the database, the manager thread, the
worker threads, the watcher thread, and the maintainer processes that run beside
the server.  Every action is one transaction or one hook command of one party, so
a list of actions is an interleaving.

Main definitions:

- Definition {lit}`World`: the state of the server.
- Definitions {lit}`Action` and {lit}`World.step`: who moves, and what happens.
- Definition {lit}`World.Reaches`: the runs from an empty database.
-/

namespace Resalloc

open Foundations

/-! ## Client calls -/

/-- {lit}`ServerAPI.takeTicket`.  Two tags of one name violate the key of
{lit}`ticket_tags`. -/
def takeTicket (tags : List String) (sandbox : Option String) (db : Db) :
    Except PyError (Db × TicketId) :=
  if tags.Nodup then
    .ok ({ db with tickets := db.tickets.push { sandbox := sandbox, tags := tags } },
      db.tickets.nextId)
  else .error .integrityError

/-- {lit}`ServerAPI.closeTicket`. -/
def closeTicket (ticketId : TicketId) (db : Db) : Except PyError Db :=
  match db.tickets.get? ticketId with
  | none => .error .serverAPIException
  | some _ => .ok (db.modifyTicket ticketId fun t => { t with state := .closed })

/-! ## The watcher -/

/-- What the watcher remembers about a resource it is going to check. -/
structure CheckItem where
  resourceId : ResourceId
  pool : Pool
  last : Time
deriving DecidableEq

/-- Where the watcher thread is. -/
inductive WatcherPc
  | sleep
  | check (toCheck : List CheckItem)
  | record (item : CheckItem) (status : Int) (toCheck : List CheckItem)
deriving DecidableEq

/-- First transaction of {lit}`Watcher.loop`: the UP resources of known pools. -/
def collectChecks (config : Config) (db : Db) : List CheckItem :=
  (QResources.up db none).filterMap fun e =>
    (config.pools.find? fun p => p.name = e.2.pool).map fun p =>
      { resourceId := e.1, pool := p, last := e.2.checkLastTime }

/-- The row the last transaction of a check leaves behind. -/
def Resource.checked (r : Resource) (now : Time) (status : Int) : Resource :=
  { r with
    checkLastTime := now
    checkFailedCount := if status = 0 then 0 else r.checkFailedCount + 1 }

/-- The next step of the watcher thread.  Whatever raises is ignored, and the loop
starts again. -/
def WatcherPc.step (pc : WatcherPc) (i : Input) (db : Db) : Db × WatcherPc :=
  if i.raises then (db, .sleep)
  else
    match pc with
    | .sleep =>
        match i.config with
        | none => (db, .sleep)
        | some config => (db, .check (collectChecks config db))
    | .check [] => (db, .sleep)
    | .check (item :: toCheck) =>
        if truthy item.pool.cmdLivecheck ∧ item.last + item.pool.livecheckPeriod ≤ i.now then
          (db, .record item i.output.status toCheck)
        else (db, .check toCheck)
    | .record item status toCheck =>
        match db.resources.get? item.resourceId with
        | none => (db, .sleep)
        | some _ =>
            (db.modifyResource item.resourceId fun r => r.checked i.now status, .check toCheck)

/-! ## Maintainer processes -/

/-- The arguments of {lit}`resalloc-maint resource-delete`. -/
inductive DeleteArgs
  | resources (ids : List ResourceId)
  | all
  | unused
deriving DecidableEq

/-- The resources a {lit}`resource-delete` process is going to kill. -/
def resourceDelete (args : DeleteArgs) (db : Db) : List ResourceId :=
  match args with
  | .resources ids => ids
  | .all => (QResources.up db none).map Prod.fst
  | .unused => (QResources.ready db none).map Prod.fst

/-! ## The transition system -/

/-- The state of the server and of the processes around it. -/
structure World where
  db : Db := {}
  manager : ManagerPc := .wait
  workers : IdTable Worker := .empty
  watcher : WatcherPc := .sleep
  /-- Running {lit}`resource-delete` processes: the resources still to be killed. -/
  maintainers : IdTable (List ResourceId) := .empty
  /-- When the server imported its modules. -/
  importTime : Time := 0
deriving DecidableEq

/-- One transaction or one hook command of one party. -/
inductive Action
  | manager (i : Input)
  | worker (k : ℕ) (i : Input)
  | watcher (i : Input)
  | takeTicket (tags : List String) (sandbox : Option String)
  | closeTicket (ticketId : TicketId)
  | resourceDelete (args : DeleteArgs)
  /-- A {lit}`resource-delete` process kills its next resource. -/
  | kill (k : ℕ)
  /-- All threads of the server vanish, and {lit}`fix_broken_after_restart` runs. -/
  | restart (importTime : Time)
deriving DecidableEq

/-- Start threads. -/
def spawn (workers : IdTable Worker) (started : List Worker) : IdTable Worker :=
  started.foldl IdTable.push workers

namespace World

/-- The effect of an action; {lean}`none` if its party cannot move. -/
def step (w : World) : Action → Option World
  | .manager i =>
      let (db, started, pc) := w.manager.step i w.importTime w.db
      some { w with db := db, manager := pc, workers := spawn w.workers started }
  | .worker k i =>
      match w.workers.get? k with
      | none => none
      | some worker =>
          if worker.status = .running then
            let (db, next) := worker.step i w.db
            some { w with db := db, workers := w.workers.modify k fun _ => next }
          else none
  | .watcher i =>
      let (db, pc) := w.watcher.step i w.db
      some { w with db := db, watcher := pc }
  | .takeTicket tags sandbox =>
      match Resalloc.takeTicket tags sandbox w.db with
      | .error _ => some w
      | .ok (db, _) => some { w with db := db }
  | .closeTicket ticketId =>
      match Resalloc.closeTicket ticketId w.db with
      | .error _ => some w
      | .ok db => some { w with db := db }
  | .resourceDelete args =>
      some { w with maintainers := w.maintainers.push (Resalloc.resourceDelete args w.db) }
  | .kill k =>
      match w.maintainers.get? k with
      | some (resId :: _) =>
          some { w with
            db := Resalloc.kill w.db resId
            maintainers := w.maintainers.modify k List.tail }
      | _ => none
  | .restart importTime =>
      some { w with
        db := fixBrokenAfterRestart w.db
        manager := .wait
        workers := .empty
        watcher := .sleep
        importTime := importTime }

/-- The server before its first cycle, on an empty database. -/
def init : World := {}

/-- Runs from the empty database whose steps all satisfy {lit}`ok`. -/
abbrev Reaches (ok : World → Action → Prop) (as : List Action) (w : World) : Prop :=
  Path step ok init as w

/-- The state that a list of enabled actions leads to. -/
def after (ok : World → Action → Prop) [∀ w a, Decidable (ok w a)] (as : List Action)
    (h : (execWithin step ok init as).isSome = true) : World :=
  (execWithin step ok init as).get h

/-- An evaluated list of actions is a run. -/
theorem reaches_after (ok : World → Action → Prop) [∀ w a, Decidable (ok w a)]
    (as : List Action) (h : (execWithin step ok init as).isSome = true) :
    Reaches ok as (after ok as h) :=
  Path.of_execWithin (Option.some_get h).symm

/-- The configuration is loaded from a file that never changes. -/
def Loads (config : Config) (w : World) (a : Action) : Prop :=
  match a with
  | .manager i => w.manager = .wait → i.config = some config
  | _ => True

instance (config : Config) (w : World) (a : Action) : Decidable (Loads config w a) := by
  cases a <;> simp only [Loads] <;> infer_instance

/-- A condition on the steps of the workers that do not raise. -/
def OnWorkers (cond : World → Worker → Prop) (w : World) (a : Action) : Prop :=
  match a with
  | .worker k i => i.raises = false →
      ∀ worker ∈ w.workers.get? k, worker.status = .running → cond w worker
  | _ => True

instance (cond : World → Worker → Prop) [∀ w worker, Decidable (cond w worker)] (w : World)
    (a : Action) : Decidable (OnWorkers cond w a) := by
  unfold OnWorkers
  split <;> infer_instance

/-- The assignment of a resource to a ticket that an action makes. -/
def assignment? (w : World) (a : Action) : Option (ResourceId × TicketId) :=
  match a with
  | .manager _ => w.manager.assignment? w.db
  | _ => none

end World

end Resalloc
