import Resalloc.Server.Models

/-!
# Database logic

The helpers of {lit}`resallocserver/logic.py`: assigning and releasing, the
resource and ticket queries, and the updates that several parties share.  A
query returns rows together with their identifiers, in ascending order.

Main results:

- Theorem {lit}`mem_select`: what a resource query returns.
- Theorems {lit}`kill_resource` and {lit}`kill_ticket`: the effect of a kill on
  every row.
- Theorems {lit}`assignTicket_resource` and {lit}`assignTicket_ticket`: the
  effect of an assignment on every row.
-/

namespace Resalloc

open Foundations

/-! ## Assigning and releasing -/

/-- {lit}`assign_ticket`: link both rows, then settle the sandbox.  The second
component is the value the function returns. -/
def assignTicket (db : Db) (resourceId : ResourceId) (ticketId : TicketId)
    (uuid : String) (now : Time) : Db × Bool :=
  let db := db.modifyResource resourceId fun r => { r with ticketId := some ticketId }
  let db := db.modifyTicket ticketId fun t => { t with resourceId := some resourceId }
  -- generate random sandbox
  let db := db.modifyTicket ticketId fun t =>
    if truthy t.sandbox then t else { t with sandbox := some uuid }
  let sandbox := (db.tickets.get? ticketId).bind Ticket.sandbox
  let db := db.modifyResource resourceId fun r =>
    if truthy r.sandbox then r else { r with sandbox := sandbox, sandboxedSince := some now }
  (db, (db.resources.get? resourceId).bind Resource.sandbox = sandbox)

/-- The row {lit}`release_resource` leaves behind. -/
def Resource.released (r : Resource) (now : Time) : Resource :=
  { r with
    ticketId := none
    releasedAt := some now
    releasesCounter := r.releasesCounter + 1 }

/-- {lit}`release_resource`: unlink the resource the ticket points to. -/
def releaseResource (db : Db) (ticketId : TicketId) (now : Time) : Except PyError Db :=
  match (db.tickets.get? ticketId).bind Ticket.resourceId with
  | none => .error .attributeError
  | some id =>
      match db.resources.get? id with
      | none => .error .attributeError
      | some _ => .ok (db.modifyResource id fun r => r.released now)

/-! ## Resource queries -/

namespace QResources

variable (db : Db) (pool : Option String)

/-- The rows of a query, restricted to one pool if a pool name is given. -/
def select (p : Resource → Bool) : List (ResourceId × Resource) :=
  db.resources.entries.filter fun e => (!truthy pool || pool == some e.2.pool) && p e.2

def up : List (ResourceId × Resource) :=
  select db pool fun r => r.state = .up

def on : List (ResourceId × Resource) :=
  select db pool fun r => r.state ≠ .ended

/-- Ready resources, those which were never assigned or are released. -/
def ready : List (ResourceId × Resource) :=
  select db pool fun r => r.state = .up ∧ r.ticketId = none ∧ r.checkFailedCount = 0

/-- Resources that have a ticket assigned. -/
def taken : List (ResourceId × Resource) :=
  select db pool fun r => r.state = .up ∧ r.ticketId ≠ none

def cleanCandidates : List (ResourceId × Resource) :=
  select db pool fun r => r.state = .up ∧ r.ticketId = none ∧ r.releasedAt ≠ none

def checkFailureCandidates : List (ResourceId × Resource) :=
  select db pool fun r => r.state = .up ∧ 0 < r.checkFailedCount

def clean : List (ResourceId × Resource) :=
  select db pool fun r => r.state ≠ .ended ∧ r.state = .deleteRequest

end QResources

/-- The counters returned by {lit}`QResources.stats`. -/
structure Stats where
  on : ℕ
  up : ℕ
  ready : ℕ
  taken : ℕ
  start : ℕ
  term : ℕ
  released : ℕ
  free : ℕ
  releasing : ℕ
deriving DecidableEq

/-- {lit}`QResources.stats`. -/
def QResources.stats (db : Db) (pool : Option String) : Stats :=
  let on := (QResources.on db pool).map Prod.snd
  let up := on.filter fun r => r.state = .up
  let ready := up.filter fun r => r.ticketId = none
  { on := on.length
    up := up.length
    ready := ready.length
    taken := (up.filter fun r => r.ticketId ≠ none).length
    start := (on.filter fun r => r.state = .starting).length
    term := (on.filter fun r => r.state = .deleting).length
    released := (ready.filter fun r => 0 < r.releasesCounter).length
    free := (ready.filter fun r => r.releasesCounter ≤ 0).length
    releasing := (on.filter fun r => r.state = .releasing).length }

/-! ## Shared updates -/

/-- The row a kill of its resource leaves of a ticket. -/
def Ticket.killedWith (t : Ticket) (resId : ResourceId) : Ticket :=
  if t.resourceId = some resId ∧ t.state = .opened then { t with state := .failed } else t

/-- The row a removal request leaves of a resource: only UP resources are
requested. -/
def Resource.requested (r : Resource) : Resource :=
  if r.state = .up then { r with state := .deleteRequest } else r

/-- {lit}`QResources.kill`: fail the open tickets of a resource and request its
removal. -/
def kill (db : Db) (resId : ResourceId) : Db :=
  { db with
    tickets := db.tickets.map fun t => t.killedWith resId
    resources := db.resources.modify resId Resource.requested }

/-- States of a resource that a server restart finds without a worker. -/
def RState.inconsistent : RState → Bool
  | .starting | .deleting | .releasing => true
  | _ => false

/-- {lit}`QResources.fix_broken_after_restart`. -/
def fixBrokenAfterRestart (db : Db) : Db :=
  { db with
    resources := db.resources.map fun r =>
      if r.state.inconsistent then { r with state := .deleteRequest } else r }

/-! ## Ticket queries -/

/-- {lit}`QTickets.waiting`: open tickets without a resource. -/
def QTickets.waiting (db : Db) : List (TicketId × Ticket) :=
  db.tickets.entries.filter fun e => e.2.resourceId = none ∧ e.2.state = .opened

/-! ## What queries return -/

section Queries

variable {db : Db} {pool : Option String} {id : ℕ} {r : Resource} {t : Ticket}

/-- Rows of a pool restriction: all of them, unless a pool name is given. -/
def InPool (pool : Option String) (r : Resource) : Prop :=
  truthy pool = true → pool = some r.pool

theorem mem_select {p : Resource → Bool} :
    (id, r) ∈ QResources.select db pool p ↔
      db.resources.get? id = some r ∧ InPool pool r ∧ p r = true := by
  simp only [QResources.select, List.mem_filter, IdTable.mem_entries, InPool]
  cases truthy pool <;> simp

theorem mem_ready :
    (id, r) ∈ QResources.ready db pool ↔
      db.resources.get? id = some r ∧ InPool pool r ∧ r.state = .up ∧ r.ticketId = none ∧
        r.checkFailedCount = 0 := by
  simp [QResources.ready, mem_select]

theorem mem_taken :
    (id, r) ∈ QResources.taken db pool ↔
      db.resources.get? id = some r ∧ InPool pool r ∧ r.state = .up ∧ r.ticketId ≠ none := by
  simp [QResources.taken, mem_select]

theorem mem_cleanCandidates :
    (id, r) ∈ QResources.cleanCandidates db pool ↔
      db.resources.get? id = some r ∧ InPool pool r ∧ r.state = .up ∧ r.ticketId = none ∧
        r.releasedAt ≠ none := by
  simp [QResources.cleanCandidates, mem_select]

theorem mem_checkFailureCandidates :
    (id, r) ∈ QResources.checkFailureCandidates db pool ↔
      db.resources.get? id = some r ∧ InPool pool r ∧ r.state = .up ∧
        0 < r.checkFailedCount := by
  simp [QResources.checkFailureCandidates, mem_select]

theorem mem_clean :
    (id, r) ∈ QResources.clean db pool ↔
      db.resources.get? id = some r ∧ InPool pool r ∧ r.state = .deleteRequest := by
  simp only [QResources.clean, mem_select, decide_eq_true_eq]
  grind

theorem mem_waiting :
    (id, t) ∈ QTickets.waiting db ↔
      db.tickets.get? id = some t ∧ t.resourceId = none ∧ t.state = .opened := by
  simp [QTickets.waiting, IdTable.mem_entries]

/-- A query lists no identifier twice. -/
theorem select_nodup (p : Resource → Bool) :
    ((QResources.select db pool p).map Prod.fst).Nodup :=
  (db.resources.entries_nodup).sublist (List.filter_sublist.map _)

end Queries

/-! ## The rows after a kill -/

@[simp]
theorem Resource.requested_ticketId (r : Resource) : r.requested.ticketId = r.ticketId := by
  unfold Resource.requested
  split <;> rfl

@[simp]
theorem Resource.requested_sandbox (r : Resource) : r.requested.sandbox = r.sandbox := by
  unfold Resource.requested
  split <;> rfl

@[simp]
theorem Resource.requested_sandboxedSince (r : Resource) :
    r.requested.sandboxedSince = r.sandboxedSince := by
  unfold Resource.requested
  split <;> rfl

@[simp]
theorem Resource.requested_releasedAt (r : Resource) :
    r.requested.releasedAt = r.releasedAt := by
  unfold Resource.requested
  split <;> rfl

@[simp]
theorem Ticket.killedWith_resourceId (t : Ticket) (id : ResourceId) :
    (t.killedWith id).resourceId = t.resourceId := by
  unfold Ticket.killedWith
  split <;> rfl

/-- Only the open tickets of other resources survive a kill open. -/
theorem Ticket.killedWith_opened {t : Ticket} {id : ResourceId} :
    (t.killedWith id).state = .opened ↔ t.state = .opened ∧ t.resourceId ≠ some id := by
  unfold Ticket.killedWith
  split <;> grind

/-- A ticket is failed after a kill when it was before, or by that kill. -/
theorem Ticket.killedWith_failed {t : Ticket} {id : ResourceId} :
    (t.killedWith id).state = .failed ↔
      t.state = .failed ∨ t.state = .opened ∧ t.resourceId = some id := by
  unfold Ticket.killedWith
  split <;> grind

/-! ## Effect of the writes, row by row -/

section Effects

variable (db : Db) (resourceId ticketId : ℕ) (uuid : String) (now : Time)

/-- The sandbox a ticket has after it was assigned. -/
def Ticket.settledSandbox (t : Ticket) (uuid : String) : Option String :=
  if truthy t.sandbox then t.sandbox else some uuid

/-- An assigned ticket has a sandbox. -/
theorem Ticket.truthy_settledSandbox (t : Ticket) {uuid : String} (h : uuid ≠ "") :
    truthy (t.settledSandbox uuid) = true := by
  unfold Ticket.settledSandbox
  split_ifs with htruthy
  · exact htruthy
  · exact (truthy_some uuid).mpr h

/-- The row of a ticket after it was assigned. -/
def Ticket.assigned (t : Ticket) (resourceId : ResourceId) (uuid : String) : Ticket :=
  { t with resourceId := some resourceId, sandbox := t.settledSandbox uuid }

/-- The row of a resource after it was assigned to a ticket. -/
def Resource.assigned (r : Resource) (ticketId : TicketId) (t : Ticket) (uuid : String)
    (now : Time) : Resource :=
  { r with
    ticketId := some ticketId
    sandbox := if truthy r.sandbox then r.sandbox else t.settledSandbox uuid
    sandboxedSince := if truthy r.sandbox then r.sandboxedSince else some now }

@[simp]
theorem assignTicket_ticket (j : ℕ) :
    (assignTicket db resourceId ticketId uuid now).1.tickets.get? j =
      if j = ticketId then (db.tickets.get? j).map fun t => t.assigned resourceId uuid
      else db.tickets.get? j := by
  simp only [assignTicket, Db.modifyResource_tickets, Db.modifyTicket_tickets,
    IdTable.get?_modify]
  split_ifs with hj
  · cases db.tickets.get? j with
    | none => rfl
    | some t => simp [Ticket.assigned, Ticket.settledSandbox]; split_ifs <;> rfl
  · rfl

/-- An assignment writes the row of the assigned resource only. -/
theorem assignTicket_resource {t : Ticket} (ht : db.tickets.get? ticketId = some t) (j : ℕ) :
    (assignTicket db resourceId ticketId uuid now).1.resources.get? j =
      if j = resourceId then
        (db.resources.get? j).map fun r => r.assigned ticketId t uuid now
      else db.resources.get? j := by
  have hsandbox : (if truthy t.sandbox then t.sandbox else some uuid) =
      t.settledSandbox uuid := rfl
  simp only [assignTicket, Db.modifyResource_resources, Db.modifyTicket_resources,
    Db.modifyResource_tickets, Db.modifyTicket_tickets, IdTable.get?_modify, ht]
  split_ifs with hj
  · cases db.resources.get? j with
    | none => rfl
    | some r =>
        simp only [Option.map_some, Option.bind_some, Resource.assigned, ← hsandbox]
        split_ifs <;> simp_all
  · rfl

@[simp]
theorem kill_ticket (j : ℕ) :
    (kill db resourceId).tickets.get? j =
      (db.tickets.get? j).map fun t => t.killedWith resourceId := by
  simp [kill]

@[simp]
theorem kill_resource (j : ℕ) :
    (kill db resourceId).resources.get? j =
      if j = resourceId then (db.resources.get? j).map Resource.requested
      else db.resources.get? j := by
  simp [kill, IdTable.get?_modify]

@[simp]
theorem fixBrokenAfterRestart_tickets :
    (fixBrokenAfterRestart db).tickets = db.tickets :=
  rfl

@[simp]
theorem fixBrokenAfterRestart_resource (j : ℕ) :
    (fixBrokenAfterRestart db).resources.get? j =
      (db.resources.get? j).map fun r =>
        if r.state.inconsistent then { r with state := .deleteRequest } else r := by
  simp [fixBrokenAfterRestart]

/-- A release of a linked ticket writes the row its ticket points to. -/
theorem releaseResource_eq {id : ResourceId} {t : Ticket} {r : Resource}
    (ht : db.tickets.get? ticketId = some t) (hid : t.resourceId = some id)
    (hr : db.resources.get? id = some r) :
    releaseResource db ticketId now = .ok (db.modifyResource id fun r => r.released now) := by
  simp [releaseResource, ht, hid, hr]

end Effects

end Resalloc
