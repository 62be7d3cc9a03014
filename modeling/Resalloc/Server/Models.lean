import Resalloc.Foundations.IdTable
import Resalloc.Helpers

/-!
# The server's database

The tables of {lit}`resallocserver/models.py`.  Tickets and resources have
automatically increasing identifiers and are never deleted, so both are
{lit}`IdTable`s; their tags, which the ORM reaches through a back reference, are
stored with the row they belong to.  The remaining tables are lists of rows.

Main definitions:

- Definitions {lit}`Ticket` and {lit}`Resource`: the rows whose two-way link the
  server maintains.
- Definition {lit}`Db`: the whole database, the state every session works on.
-/

namespace Resalloc

open Foundations

abbrev TicketId := ℕ

abbrev ResourceId := ℕ

/-- A row of the {lit}`pools` table. -/
structure PoolRow where
  name : String
  lastStart : Time := 0
  lastSuccessfulStart : Option Time := none
  lastAttemptToStart : Option Time := none
  startupSuccessRate : Option ℚ := none
  startupTimeAvg : Option ℚ := none
  cleaningUnknownResources : Option Time := none
  max : Int := 0
deriving DecidableEq

/-- A row of the {lit}`tickets` table with its tag names. -/
structure Ticket where
  resourceId : Option ResourceId := none
  state : TState := .opened
  sandbox : Option String := none
  tags : List String := []
deriving DecidableEq

/-- A tag of a resource, with the priority the pool gave it. -/
structure ResourceTag where
  id : String
  priority : Option Int
deriving DecidableEq

/-- A row of the {lit}`resources` table with its tags. -/
structure Resource where
  name : Option String := none
  /-- The output of the allocation script. -/
  data : Option (List UInt8) := none
  pool : String
  state : RState := .starting
  checkLastTime : Time
  checkFailedCount : ℕ := 0
  /-- The ticket that the resource works on now. -/
  ticketId : Option TicketId := none
  sandbox : Option String := none
  /-- When the resource was first assigned to any ticket. -/
  sandboxedSince : Option Time := none
  /-- When the last ticket finished with this resource. -/
  releasedAt : Option Time := none
  /-- How many times the resource was returned to the pool. -/
  releasesCounter : Int := 0
  tags : List ResourceTag := []
deriving DecidableEq

/-- A row of the {lit}`ids_within_pool` table. -/
structure IDWithinPool where
  resourceId : ResourceId
  poolName : String
  id : ℕ
deriving DecidableEq

/-- A row of the {lit}`named_counters` table. -/
structure NamedCounter where
  resourceId : ResourceId
  counterName : String
  value : ℕ
deriving DecidableEq

/-- The database. -/
structure Db where
  resources : IdTable Resource := .empty
  tickets : IdTable Ticket := .empty
  pools : List PoolRow := []
  idsWithinPool : List IDWithinPool := []
  namedCounters : List NamedCounter := []
deriving DecidableEq

/-- Names of the tags of a resource. -/
def Resource.tagSet (r : Resource) : List String := r.tags.map ResourceTag.id

namespace Db

/-- The pool row with a name, {lit}`session.query(models.Pool).get(name)`. -/
def pool? (db : Db) (name : String) : Option PoolRow :=
  db.pools.find? fun row => row.name = name

/-- Rewrite the columns of one resource. -/
def modifyResource (db : Db) (id : ResourceId) (f : Resource → Resource) : Db :=
  { db with resources := db.resources.modify id f }

/-- Rewrite the columns of one ticket. -/
def modifyTicket (db : Db) (id : TicketId) (f : Ticket → Ticket) : Db :=
  { db with tickets := db.tickets.modify id f }

/-- Rewrite the columns of one pool row. -/
def modifyPool (db : Db) (name : String) (f : PoolRow → PoolRow) : Db :=
  { db with pools := db.pools.map fun row => if row.name = name then f row else row }

/-- Delete the pool identifier and the named counters of a resource. -/
def dropNumbers (db : Db) (id : ResourceId) : Db :=
  { db with
    idsWithinPool := db.idsWithinPool.filter fun row => row.resourceId ≠ id
    namedCounters := db.namedCounters.filter fun row => row.resourceId ≠ id }

variable (db : Db) (id : ℕ)

@[simp]
theorem modifyResource_resources (f : Resource → Resource) :
    (db.modifyResource id f).resources = db.resources.modify id f :=
  rfl

@[simp]
theorem modifyResource_tickets (f : Resource → Resource) :
    (db.modifyResource id f).tickets = db.tickets :=
  rfl

@[simp]
theorem modifyTicket_resources (f : Ticket → Ticket) :
    (db.modifyTicket id f).resources = db.resources :=
  rfl

@[simp]
theorem modifyTicket_tickets (f : Ticket → Ticket) :
    (db.modifyTicket id f).tickets = db.tickets.modify id f :=
  rfl

@[simp]
theorem modifyPool_resources (name : String) (f : PoolRow → PoolRow) :
    (db.modifyPool name f).resources = db.resources :=
  rfl

@[simp]
theorem modifyPool_tickets (name : String) (f : PoolRow → PoolRow) :
    (db.modifyPool name f).tickets = db.tickets :=
  rfl

@[simp]
theorem dropNumbers_resources : (db.dropNumbers id).resources = db.resources :=
  rfl

@[simp]
theorem dropNumbers_tickets : (db.dropNumbers id).tickets = db.tickets :=
  rfl

end Db

end Resalloc
