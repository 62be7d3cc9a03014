import Resalloc.Server.PriorityQueue
import Resalloc.Server.Workers

/-!
# The manager loop

{lit}`Manager` of {lit}`resallocserver/manager.py`: ticket assignment, the planning
of on-demand starts, and the loop that runs one cycle after another.  The loop is
a program counter with the local variables that live across transactions; each
step runs one transaction together with the thread starts that follow it.

Main definitions:

- Definition {lit}`assignTicketTo`: one round of {lit}`_assign_tickets`.
- Definition {lit}`decideWhereToStart`: the planning of on-demand starts.
- Definitions {lit}`ManagerPc` and {lit}`ManagerPc.step`: the cycle.
-/

namespace Resalloc

open Foundations

/-! ## Assigning tickets -/

/-- Re-used resources are preferred. -/
def reusedResourcePriority : Int := 500

/-- First transaction of {lit}`_assign_tickets`: the ticket queue and the
resources that are ready when it is built. -/
def collectQueue (onDemandTags : List String) (db : Db) :
    PriorityQueue TicketId × List ResourceId :=
  ((QTickets.waiting db).foldl
      (fun queue e =>
        -- an on-demand ticket has a higher priority
        if ∃ tag ∈ e.2.tags, tag ∈ onDemandTags then queue.addTask e.1 10
        else queue.addTask e.1 0) {},
    (QResources.ready db none).map Prod.fst)

/-- The score of a resource for the requested tags. -/
def tagsScore (ticketTags : List String) (tags : List ResourceTag) : Int :=
  tags.foldl
    (fun score tag =>
      match tag.priority with
      | none => score
      | some priority => if tag.id ∈ ticketTags then score + priority else score) 0

/-- The tests of the candidate loop of {lit}`_assign_tickets`. -/
def usable (ticket : Ticket) (resourceIds : List ResourceId) (id : ResourceId)
    (r : Resource) : Prop :=
  id ∈ resourceIds ∧ ¬ (truthy r.sandbox = true ∧ r.sandbox ≠ ticket.sandbox) ∧
    ∀ tag ∈ ticket.tags, tag ∈ r.tagSet

instance (ticket : Ticket) (resourceIds : List ResourceId) (id : ResourceId) (r : Resource) :
    Decidable (usable ticket resourceIds id r) :=
  inferInstanceAs (Decidable (_ ∧ _ ∧ _))

/-- The candidates for a ticket, queued by their score. -/
def candidates (ticket : Ticket) (resourceIds : List ResourceId) (db : Db) :
    PriorityQueue ResourceId :=
  (QResources.ready db none).foldl
    (fun queue e =>
      if usable ticket resourceIds e.1 e.2 then
        queue.addTask e.1 (tagsScore ticket.tags e.2.tags +
          if truthy e.2.sandbox then reusedResourcePriority else 0)
      else queue) {}

/-- The resource a round of {lit}`_assign_tickets` finds for a ticket. -/
def chooseResource (ticketId : TicketId) (resourceIds : List ResourceId) (db : Db) :
    Option ResourceId :=
  match db.tickets.get? ticketId with
  | none => none
  | some ticket => (candidates ticket resourceIds db).popTask.1

/-- One round of {lit}`_assign_tickets`, a transaction of its own. -/
def assignTicketTo (ticketId : TicketId) (resourceIds : List ResourceId) (uuid : String)
    (now : Time) (db : Db) : Except PyError Db :=
  if QResources.ready db none = [] then .ok db
  else if db.tickets.get? ticketId = none then .error .attributeError
  else
    match chooseResource ticketId resourceIds db with
    | none => .ok db
    | some resourceId => .ok (assignTicket db resourceId ticketId uuid now).1

/-! ## Planning on-demand starts -/

/-- A pool with on-demand tags, its statistics, and how many of its resources are
not yet matched with a ticket. -/
structure PoolStats where
  pool : Pool
  stats : Stats
  alreadyExisting : ℕ
deriving DecidableEq

/-- The on-demand pools sorted by name, with their statistics. -/
def onDemandPools (pools : List Pool) (db : Db) : List PoolStats :=
  ((pools.filter fun p => p.tagsOnDemand ≠ []).insertionSort fun p q => p.name ≤ q.name).map
    fun p =>
      let stats := QResources.stats db (some p.name)
      { pool := p
        stats := stats
        alreadyExisting := stats.start + stats.ready + stats.releasing }

/-- The loop over the pools for one waiting ticket: whether a capable pool was
met, and the statistics after taking an already existing resource, if there is
one. -/
def takeExisting (ticketTags : List String) :
    List PoolStats → Except PyError (Bool × Option (List PoolStats))
  | [] => .ok (false, none)
  | s :: rest =>
      match s.pool.getTagsPriority ticketTags with
      | .error e => .error e
      | .ok none =>
          -- this pool doesn't match the tag-set
          match takeExisting ticketTags rest with
          | .error e => .error e
          | .ok (capable, taken) => .ok (capable, taken.map (s :: ·))
      | .ok (some _) =>
          if 0 < s.alreadyExisting then
            .ok (true, some ({ s with alreadyExisting := s.alreadyExisting - 1 } :: rest))
          else
            match takeExisting ticketTags rest with
            | .error e => .error e
            | .ok (_, taken) => .ok (true, taken.map (s :: ·))

/-- One round of the loop over the waiting tickets; {lit}`tickets_to_solve` keeps
its insertion order. -/
def gatherTicket (onDemandTags : List String)
    (acc : List PoolStats × List (TicketId × List String)) (e : TicketId × Ticket) :
    Except PyError (List PoolStats × List (TicketId × List String)) :=
  -- on-demand tickets only
  if ∃ tag ∈ e.2.tags, tag ∈ onDemandTags then
    match takeExisting e.2.tags acc.1 with
    | .error err => .error err
    | .ok (false, _) => .ok acc
    | .ok (true, some stats) => .ok (stats, acc.2)
    | .ok (true, none) => .ok (acc.1, acc.2 ++ [(e.1, e.2.tags)])
  else .ok acc

/-- Whether a pool's quotas allow one more planned start. -/
def PoolStats.hasRoom (s : PoolStats) : Bool :=
  !(decide (s.pool.max ≤ s.pool.startOnDemandThisCycle + s.stats.on) ||
    decide (s.pool.maxStarting ≤ s.pool.startOnDemandThisCycle + s.stats.start))

/-- The pools that match a set of tags, queued by their priority. -/
def matchingPools (ticketTags : List String) (all : List PoolStats) :
    Except PyError (PriorityQueue String) :=
  all.foldlM
    (fun queue s =>
      match s.pool.getTagsPriority ticketTags with
      | .error e => .error e
      | .ok none => .ok queue
      | .ok (some priority) => .ok (queue.addTask s.pool.name priority))
    ({} : PriorityQueue String)

/-- Count a planned start in one pool. -/
def planStart (name : String) (s : PoolStats) : PoolStats :=
  if s.pool.name = name then
    { s with pool :=
      { s.pool with startOnDemandThisCycle := s.pool.startOnDemandThisCycle + 1 } }
  else s

/-- One round of the loop over {lit}`tickets_to_solve`. -/
def planTicket (all : List PoolStats) (e : TicketId × List String) :
    Except PyError (List PoolStats) :=
  match matchingPools e.2 all with
  | .error err => .error err
  | .ok queue =>
      match queue.popUntil fun name => all.any fun s => s.pool.name = name && s.hasRoom with
      | none => .ok all
      | some name => .ok (all.map (planStart name))

/-- {lit}`_decide_where_to_start_on_demand_instances`: the pools with their counters
of planned starts. -/
def decideWhereToStart (onDemandTags : List String) (pools : List Pool) (db : Db) :
    Except PyError (List Pool) :=
  match (QTickets.waiting db).foldlM (gatherTicket onDemandTags) (onDemandPools pools db, []) with
  | .error e => .error e
  | .ok (all, ticketsToSolve) =>
      match ticketsToSolve.foldlM planTicket all with
      | .error e => .error e
      | .ok all =>
          .ok (pools.map fun p =>
            ((all.map PoolStats.pool).find? fun q => q.name = p.name).getD p)

/-! ## The cycle -/

/-- {lit}`_init_pool_in_db`. -/
def initPoolInDb (now : Time) (db : Db) (p : Pool) : Db :=
  let db := match db.pool? p.name with
    | some _ => db
    | none =>
        { db with
          pools := db.pools ++
            [({ name := p.name, cleaningUnknownResources := some now } : PoolRow)] }
  db.modifyPool p.name fun row => { row with max := p.max }

/-- The local variables of a cycle. -/
structure Cycle where
  /-- {lit}`CrossPoolConfig.on_demand_tags`. -/
  onDemandTags : List String
  pools : List Pool
  /-- History variable: the clock value each pool's removal pass has read in this
  cycle.  The code forgets it when the pass ends. -/
  removalClock : List (String × Time) := []
deriving DecidableEq

/-- Where the manager thread is. -/
inductive ManagerPc
  /-- In {lit}`AtomicEvent.wait`, before a cycle. -/
  | wait
  /-- {lit}`detect_closed_tickets` of a pool and of the pools after it. -/
  | detectClosed (c : Cycle) (p : Pool) (rest : List Pool)
  /-- {lit}`_decide_where_to_start_on_demand_instances`. -/
  | plan (c : Cycle)
  /-- {lit}`_request_resource_removal` of a pool, with the pools after it. -/
  | removal (c : Cycle) (p : Pool) (rest : List Pool)
  | garbage (c : Cycle) (p : Pool) (rest : List Pool)
  /-- Top of the loop of {lit}`_allocate_more_resources`. -/
  | stats (c : Cycle) (p : Pool) (rest : List Pool)
  | tooSoon (c : Cycle) (p : Pool) (rest : List Pool)
  | allocate (c : Cycle) (p : Pool) (rest : List Pool)
  | cleanUnknown (c : Cycle) (p : Pool) (rest : List Pool)
  | markCleaned (c : Cycle) (p : Pool) (rest : List Pool)
  /-- First transaction of {lit}`_assign_tickets`. -/
  | collect (c : Cycle)
  /-- Top of the loop of {lit}`_assign_tickets`. -/
  | assign (c : Cycle) (queue : PriorityQueue TicketId) (resourceIds : List ResourceId)
  /-- The thread died of an exception. -/
  | stopped (e : PyError)
deriving DecidableEq

namespace ManagerPc

/-- The next {lit}`detect_closed_tickets`, or the planning after the last one. -/
def nextDetect (c : Cycle) : List Pool → ManagerPc
  | [] => .plan c
  | p :: rest => .detectClosed c p rest

/-- The next {lit}`Pool.loop`, or the assignment after the last one. -/
def nextPool (c : Cycle) : List Pool → ManagerPc
  | [] => .collect c
  | p :: rest => .removal c p rest

@[simp]
theorem nextDetect_ne_assign {c d : Cycle} {pools : List Pool}
    {queue : PriorityQueue TicketId} {ids : List ResourceId} :
    nextDetect c pools ≠ .assign d queue ids := by
  cases pools <;> simp [nextDetect]

@[simp]
theorem nextPool_ne_assign {c d : Cycle} {pools : List Pool}
    {queue : PriorityQueue TicketId} {ids : List ResourceId} :
    nextPool c pools ≠ .assign d queue ids := by
  cases pools <;> simp [nextPool]

/-- The next step of the manager thread: the database after it, the threads it
starts, and where it continues. -/
def step (pc : ManagerPc) (i : Input) (importTime : Time) (db : Db) :
    Db × List Worker × ManagerPc :=
  match pc with
  | .wait =>
      match i.config with
      | none => (db, [], .stopped .assertionError)
      | some config =>
          (config.pools.foldl (initPoolInDb i.now) db, [],
            nextDetect { onDemandTags := onDemandTags config.pools, pools := config.pools }
              config.pools)
  | .detectClosed c p rest =>
      match p.detectClosedTickets i.now db with
      | .error e => (db, [], .stopped e)
      | .ok (db, closeResources) =>
          (db, closeResources.map fun id => { pool := p, job := .release id .load },
            nextDetect c rest)
  | .plan c =>
      match decideWhereToStart c.onDemandTags c.pools db with
      | .error e => (db, [], .stopped e)
      | .ok pools => (db, [], nextPool { c with pools := pools } pools)
  | .removal c p rest =>
      match p.requestResourceRemoval i.now db with
      | .error e => (db, [], .stopped e)
      | .ok db =>
          (db, [],
            .garbage { c with removalClock := (p.name, i.now) :: c.removalClock } p rest)
  | .garbage c p rest =>
      (db, (p.garbageCollector db).map fun id => { pool := p, job := .terminate id .request },
        .stats c p rest)
  | .stats c p rest =>
      if p.wantsMore (QResources.stats db (some p.name)) then (db, [], .tooSoon c p rest)
      else (db, [], .cleanUnknown c p rest)
  | .tooSoon c p rest =>
      match p.tooSoon i.now db with
      | .error e => (db, [], .stopped e)
      | .ok true => (db, [], .cleanUnknown c p rest)
      | .ok false => (db, [], .allocate c p rest)
  | .allocate c p rest =>
      let p := { p with startOnDemandThisCycle := p.startOnDemandThisCycle - 1 }
      match p.allocate i.now importTime i.datetime db with
      | .error e => (db, [], .stopped e)
      | .ok (db, resourceId) =>
          (db, [{ pool := p, job := .alloc resourceId .load }], .stats c p rest)
  | .cleanUnknown c p rest =>
      if p.cleanUnknownDue i.now db then
        (db, [{ pool := p, job := .cleanUnknown .cmdList }], .markCleaned c p rest)
      else (db, [], nextPool c rest)
  | .markCleaned c p rest => (p.markCleaned i.now db, [], nextPool c rest)
  | .collect c =>
      let (queue, resourceIds) := collectQueue c.onDemandTags db
      (db, [], .assign c queue resourceIds)
  | .assign c queue resourceIds =>
      match queue.popTask with
      -- no more tickets
      | (none, _) => (db, [], .wait)
      | (some ticketId, queue) =>
          match assignTicketTo ticketId resourceIds i.uuid.1 i.now db with
          | .error e => (db, [], .stopped e)
          | .ok db => (db, [], .assign c queue resourceIds)
  | .stopped e => (db, [], .stopped e)

/-- The assignment the next step of the manager makes, if it makes one. -/
def assignment? (pc : ManagerPc) (db : Db) : Option (ResourceId × TicketId) :=
  match pc with
  | .assign _ queue resourceIds =>
      match queue.popTask with
      | (none, _) => none
      | (some ticketId, _) =>
          (chooseResource ticketId resourceIds db).map fun resourceId => (resourceId, ticketId)
  | _ => none

end ManagerPc

end Resalloc
