import Resalloc.Server.Logic

/-!
# Pools

The {lit}`Pool` object of {lit}`resallocserver/manager.py`: its configuration, and
the database transactions its methods run.  Every definition that takes a
database and returns one is a single {lit}`session_scope()` block; an exception
rolls the block back, so it returns no database.

Main definitions:

- Definition {lit}`Pool.detectClosedTickets`: decouple closed tickets.
- Definition {lit}`Pool.requestResourceRemoval`: switch UP to DELETE_REQUEST.
- Definition {lit}`Pool.allocate`: insert a new STARTING resource.
- Definition {lit}`Pool.wantsMore`: the tests of the allocation loop.
-/

namespace Resalloc

open Foundations

/-! ## Configuration -/

/-- A normalised tag of the configuration file. -/
structure ConfigTag where
  name : String
  priority : Option Int := some 0
deriving DecidableEq

/-- The attributes of a pool, with the defaults of the class.  Both {lit}`id` and
{lit}`name` are the key of the section, unless it has an option of that name. -/
structure Pool where
  name : String
  id : String := name
  max : Int := 4
  maxStarting : Int := 1
  maxPrealloc : Int := 2
  /-- Minimal time to wait between subsequent resource starts. -/
  startDelay : Time := 0
  cmdNew : Option String := none
  cmdDelete : Option String := none
  cmdLivecheck : Option String := none
  cmdRelease : Option String := none
  cmdList : Option String := none
  livecheckPeriod : Time := 600
  livecheckAttempts : Int := 3
  namePattern : List PatternPart :=
    [.field "pool_name", .text "_", .field "id", .text "_", .field "datetime"]
  reuseOpportunityTime : Time := 0
  reuseMaxCount : Int := 0
  reuseMaxTime : Time := 3600
  namedCounters : List String := []
  startOnDemandThisCycle : Int := 0
  tags : List ConfigTag := []
  tagsOnDemand : List ConfigTag := []
deriving DecidableEq

namespace Pool

variable (p : Pool)

/-- All tags, both on demand and normal. -/
def tagsAll : List ConfigTag := p.tags ++ p.tagsOnDemand

def tagSetNormal : List String := p.tags.map ConfigTag.name

def tagSetOnDemand : List String := p.tagsOnDemand.map ConfigTag.name

def tagSet : List String := p.tagSetNormal ++ p.tagSetOnDemand

/-- One round of the loop of {lit}`get_tags_priority`. -/
def addTagPriority (queriedTags : List String) (acc : Int × List String) (tag : ConfigTag) :
    Except PyError (Int × List String) :=
  if tag.name ∈ queriedTags then
    match tag.priority with
    | none => .error .typeError
    | some priority => .ok (acc.1 + priority, tag.name :: acc.2)
  else .ok acc

/-- The priority the pool is given by a set of tags, or {lean}`none` if the pool
does not match all of them. -/
def getTagsPriority (queriedTags : List String) : Except PyError (Option Int) :=
  match p.tagsAll.foldlM (addTagPriority queriedTags) (0, []) with
  | .error e => .error e
  | .ok (priority, foundTags) =>
      if ∀ tag ∈ queriedTags, tag ∈ foundTags then .ok (some priority) else .ok none

/-- The assertions of {lit}`validate`. -/
def validate (onDemandTagSet : List String) : Prop :=
  truthy p.cmdNew = true ∧ truthy p.cmdDelete = true ∧
    ∀ tag ∈ onDemandTagSet, tag ∉ p.tagSetNormal

instance (onDemandTagSet : List String) : Decidable (p.validate onDemandTagSet) :=
  inferInstanceAs (Decidable (_ ∧ _ ∧ _))

end Pool

/-! ## Allocating identifiers -/

/-- {lit}`_find_smallest_number`: the loop meets an unused number after at most
one round for each number in use. -/
def findSmallestNumber (ids : List ℕ) : ℕ :=
  go ids.length 0
where
  /-- The rounds of the loop. -/
  go : ℕ → ℕ → ℕ
  | 0, tryId => tryId
  | rounds + 1, tryId => if tryId ∈ ids then go rounds (tryId + 1) else tryId

/-- Insert into {lit}`ids_within_pool`, checking its key and its unique pair. -/
def Db.addIdWithinPool (db : Db) (row : IDWithinPool) : Except PyError Db :=
  if db.idsWithinPool.any fun old =>
      old.resourceId = row.resourceId ∨ (old.id = row.id ∧ old.poolName = row.poolName) then
    .error .integrityError
  else .ok { db with idsWithinPool := db.idsWithinPool ++ [row] }

/-- Insert into {lit}`named_counters`.  The key of the table that the migrations create
is the counter with the value, so a resource may have several values of one counter. -/
def Db.addNamedCounter (db : Db) (row : NamedCounter) : Except PyError Db :=
  if db.namedCounters.any fun old =>
      old.counterName = row.counterName ∧ old.value = row.value then
    .error .integrityError
  else .ok { db with namedCounters := db.namedCounters ++ [row] }

namespace Pool

variable (p : Pool)

/-- {lit}`_allocate_pool_id`. -/
def allocatePoolId (resourceId : ResourceId) (db : Db) : Except PyError Db :=
  let ids := (db.idsWithinPool.filter fun row => row.poolName = p.name).map IDWithinPool.id
  db.addIdWithinPool
    { resourceId := resourceId, poolName := p.name, id := findSmallestNumber ids }

/-- {lit}`_allocate_named_counter_value`. -/
def allocateNamedCounterValue (resourceId : ResourceId) (db : Db) (counterName : String) :
    Except PyError Db :=
  let values :=
    (db.namedCounters.filter fun row => row.counterName = counterName).map NamedCounter.value
  db.addNamedCounter
    { resourceId := resourceId, counterName := counterName, value := findSmallestNumber values }

/-- The row {lit}`allocate` inserts, before its name is known. -/
def newResource (importTime : Time) : Resource :=
  { pool := p.name, checkLastTime := importTime }

/-- {lit}`allocate`: insert a STARTING resource with its numbers and its name.
The default of {lit}`check_last_time` is the time the module was imported. -/
def allocate (now importTime : Time) (datetime : String) (db : Db) :
    Except PyError (Db × ResourceId) :=
  match db.pool? p.name with
  | none => .error .attributeError
  | some _ =>
      let db := db.modifyPool p.name fun row => { row with lastStart := now }
      let resourceId := db.resources.nextId
      let db := { db with resources := db.resources.push (p.newResource importTime) }
      match p.allocatePoolId resourceId db with
      | .error e => .error e
      | .ok db =>
          match p.namedCounters.foldlM (allocateNamedCounterValue resourceId) db with
          | .error e => .error e
          | .ok db =>
              let fillDict := [("id", zfill resourceId 8), ("pool_name", p.name)]
              let name := carefulStringFormat p.namePattern fillDict datetime
              .ok (db.modifyResource resourceId fun r => { r with name := name }, resourceId)

/-! ## Closed tickets -/

/-- One round of the loop of {lit}`detect_closed_tickets`. -/
def closeIfRequested (now : Time) (acc : Db × List ResourceId) (id : ResourceId) :
    Except PyError (Db × List ResourceId) :=
  match (acc.1.resources.get? id).bind Resource.ticketId with
  | none => .error .assertionError
  | some ticketId =>
      match acc.1.tickets.get? ticketId with
      | none => .error .assertionError
      | some ticket =>
          if ticket.state = .closed then
            match releaseResource acc.1 ticketId now with
            | .error e => .error e
            | .ok db =>
                if truthy p.cmdRelease then
                  .ok (db.modifyResource id fun r => { r with state := .releasing },
                    acc.2 ++ [id])
                else .ok (db, acc.2)
          else .ok acc

/-- {lit}`detect_closed_tickets`: decouple tickets from resources, and return the
resources that a {lit}`ReleaseWorker` has to be started for. -/
def detectClosedTickets (now : Time) (db : Db) : Except PyError (Db × List ResourceId) :=
  ((QResources.taken db (some p.name)).map Prod.fst).foldlM (p.closeIfRequested now) (db, [])

/-! ## Removal requests -/

/-- One round of the loop over the failing livechecks. -/
def removeIfFailing (db : Db) (id : ResourceId) : Db :=
  match db.resources.get? id with
  | none => db
  | some r => if p.livecheckAttempts ≤ r.checkFailedCount then kill db id else db

/-- The tests of {lit}`_request_resource_removal` on a released resource. -/
def unusable (now : Time) (r : Resource) : Except PyError Bool :=
  -- reuse turned off by default, remove no matter what
  if p.reuseOpportunityTime = 0 then .ok true
  else
    match r.releasedAt with
    | none => .error .typeError
    | some releasedAt =>
        if releasedAt < now - p.reuseOpportunityTime then .ok true
        else if p.reuseMaxTime = 0 then
          .ok (p.reuseMaxCount ≠ 0 ∧ p.reuseMaxCount < r.releasesCounter)
        else
          match r.sandboxedSince with
          | none => .error .typeError
          | some sandboxedSince =>
              if sandboxedSince < now - p.reuseMaxTime then .ok true
              else .ok (p.reuseMaxCount ≠ 0 ∧ p.reuseMaxCount < r.releasesCounter)

/-- One round of the loop over the released resources. -/
def removeIfUnusable (now : Time) (db : Db) (id : ResourceId) : Except PyError Db :=
  match db.resources.get? id with
  | none => .ok db
  | some r =>
      match p.unusable now r with
      | .error e => .error e
      | .ok true => .ok (db.modifyResource id fun r => { r with state := .deleteRequest })
      | .ok false => .ok db

/-- Never taken resources the pool has ready. -/
def neverTaken (db : Db) : List (ResourceId × Resource) :=
  (QResources.ready db (some p.name)).filter fun e => e.2.releasesCounter = 0

/-- Waiting tickets whose tags the pool provides. -/
def waitingOnUs (db : Db) : ℕ :=
  ((QTickets.waiting db).filter fun e => ∀ tag ∈ e.2.tags, tag ∈ p.tagSet).length

/-- {lit}`_request_on_demand_resources_removal`: the oldest resources in excess of
the waiting tickets go. -/
def requestOnDemandResourcesRemoval (db : Db) : Db :=
  if p.tagsOnDemand = [] then db
  else
    let resources := p.neverTaken db
    let remove := resources.length - p.waitingOnUs db
    (resources.take remove).foldl
      (fun db e => db.modifyResource e.1 fun r => { r with state := .deleteRequest }) db

/-- {lit}`_request_resource_removal`: switch UP to DELETE_REQUEST. -/
def requestResourceRemoval (now : Time) (db : Db) : Except PyError Db :=
  let failing := (QResources.checkFailureCandidates db (some p.name)).map Prod.fst
  let db := failing.foldl p.removeIfFailing db
  let released := (QResources.cleanCandidates db (some p.name)).map Prod.fst
  match released.foldlM (p.removeIfUnusable now) db with
  | .error e => .error e
  | .ok db => .ok (p.requestOnDemandResourcesRemoval db)

/-- {lit}`_garbage_collector`: the resources a {lit}`TerminateWorker` is started
for. -/
def garbageCollector (db : Db) : List ResourceId :=
  (QResources.clean db (some p.name)).map Prod.fst

/-! ## Allocating more resources -/

/-- {lit}`_too_soon`. -/
def tooSoon (now : Time) (db : Db) : Except PyError Bool :=
  match db.pool? p.name with
  | none => .error .attributeError
  | some row => .ok (now < row.lastStart + p.startDelay)

/-- The tests of the {lit}`_allocate_more_resources` loop on the statistics. -/
def wantsMore (stats : Stats) : Bool :=
  if p.max ≤ stats.on then false
  else if p.maxPrealloc ≠ 0 ∧ p.maxPrealloc ≤ (stats.free + stats.start : ℕ) then false
  else if p.maxPrealloc = 0 ∧ p.startOnDemandThisCycle ≤ 0 then false
  else decide ((stats.start : Int) < p.maxStarting)

/-! ## Unknown resources -/

/-- The first transaction of {lit}`_clean_unknown_resources`, up to the start of
the worker: whether one is due. -/
def cleanUnknownDue (now : Time) (db : Db) : Bool :=
  if truthy p.cmdList then
    match db.pool? p.name with
    | none => false
    | some row =>
        match row.cleaningUnknownResources with
        | none => true
        -- we don't want to clean up that often
        | some lastCleanup => 30 ≤ (now - lastCleanup) / 60
  else false

/-- The second transaction of {lit}`_clean_unknown_resources`. -/
def markCleaned (now : Time) (db : Db) : Db :=
  db.modifyPool p.name fun row => { row with cleaningUnknownResources := some now }

end Pool

/-! ## The loaded configuration -/

/-- Tag names marked as on demand in any pool. -/
def onDemandTags (pools : List Pool) : List String := pools.flatMap Pool.tagSetOnDemand

/-- What a successful {lit}`reload_config` returns: one pool object for each
section of the configuration file, as {lit}`from_dict` leaves it.  A file gives one if its
options have the types of their defaults, see {lit}`exists_config`. -/
structure Config where
  pools : List Pool
  /-- Sections of the file have different names. -/
  nodup : (pools.map Pool.name).Nodup
  /-- The planning keeps its statistics under the identifiers. -/
  distinct : (pools.map Pool.id).Nodup
  named : ∀ p ∈ pools, p.name ≠ ""
  /-- The counter of planned starts is a class attribute. -/
  unplanned : ∀ p ∈ pools, p.startOnDemandThisCycle = 0
  /-- {lit}`from_dict` sets {lit}`max_prealloc` to zero for on-demand pools. -/
  noPrealloc : ∀ p ∈ pools, p.tagsOnDemand ≠ [] → p.maxPrealloc = 0
  validated : ∀ p ∈ pools, p.validate (onDemandTags pools)

/-- The configuration with one section. -/
def Config.single (p : Pool)
    (h : p.name ≠ "" ∧ p.startOnDemandThisCycle = 0 ∧ (p.tagsOnDemand ≠ [] → p.maxPrealloc = 0) ∧
      p.validate (onDemandTags [p])) : Config where
  pools := [p]
  nodup := List.nodup_singleton _
  distinct := List.nodup_singleton _
  named := by simpa using h.1
  unplanned := by simpa using h.2.1
  noPrealloc := by simpa using h.2.2.1
  validated := by simpa using h.2.2.2

instance : DecidableEq Config := fun c d =>
  decidable_of_iff (c.pools = d.pools) ⟨fun h => by cases c; cases d; simp_all, fun h => h ▸ rfl⟩

end Resalloc
