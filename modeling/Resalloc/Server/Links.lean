import Resalloc.Server.Pool

/-!
# The two-way link between tickets and resources

A ticket and the resource that works on it point at each other, and half of the
server's operations write one side only.  This file states what the two tables
promise about each other, and proves that single writes keep the promise.

Main results:

- Definition {lit}`Linked`: the invariant.
- Theorem {lit}`Linked.of_rows`: writes to resources that keep it.
- Theorems {lit}`Linked.kill` and {lit}`Linked.assignTicket`: the two writes that
  touch both tables keep it.
-/

namespace Resalloc

open Foundations

/-! ## The invariant -/

/-- States of a resource that no ticket will be given any more. -/
def RState.leaving : RState → Bool
  | .deleteRequest | .deleting | .ended => true
  | _ => false

/-- What the tables of tickets and of resources promise about each other. -/
structure Linked (db : Db) : Prop where
  /-- The ticket of a resource points back at it. -/
  pointsBack : ∀ {id r tid}, db.resources.get? id = some r → r.ticketId = some tid →
    ∃ t, db.tickets.get? tid = some t ∧ t.resourceId = some id
  /-- The resource of a ticket exists; that of an open ticket is UP and works on
  it, and that of a failed ticket is leaving. -/
  resource : ∀ {tid t id}, db.tickets.get? tid = some t → t.resourceId = some id →
    ∃ r, db.resources.get? id = some r ∧
      (t.state = .opened → r.state = .up ∧ r.ticketId = some tid) ∧
      (t.state = .failed → r.state.leaving = true)
  /-- A resource being started or released has no ticket. -/
  idle : ∀ {id r}, db.resources.get? id = some r → r.state = .starting ∨ r.state = .releasing →
    r.ticketId = none
  /-- A resource that is or was assigned has a sandbox. -/
  sandboxed : ∀ {id r}, db.resources.get? id = some r →
    r.ticketId ≠ none ∨ r.releasedAt ≠ none → truthy r.sandbox = true
  /-- A resource knows since when it has its sandbox. -/
  since : ∀ {id r}, db.resources.get? id = some r → truthy r.sandbox = true →
    r.sandboxedSince ≠ none

/-- The empty database is linked. -/
theorem linked_empty : Linked {} := by
  refine ⟨?_, ?_, ?_, ?_, ?_⟩ <;> intros <;> simp_all

/-! ## Writes to resources that keep the link -/

/-- A rewrite of a resource that neither links nor unlinks it: an UP resource
with a ticket stays UP, and a leaving one keeps leaving. -/
structure Resource.Keeps (r r' : Resource) : Prop where
  ticketId : r'.ticketId = r.ticketId
  sandbox : r'.sandbox = r.sandbox
  sandboxedSince : r'.sandboxedSince = r.sandboxedSince
  releasedAt : r'.releasedAt = r.releasedAt
  up : r.state = .up → r.ticketId ≠ none → r'.state = .up
  leaving : r.state.leaving = true → r'.state.leaving = true
  idle : r'.state = .starting ∨ r'.state = .releasing → r'.state = r.state

/-- Not writing a row keeps its links. -/
theorem Resource.Keeps.refl (r : Resource) : r.Keeps r :=
  ⟨rfl, rfl, rfl, rfl, fun h _ => h, fun h => h, fun _ => rfl⟩

section Rows

variable {db db' : Db}

/-- Tables stay linked when every old row keeps its links and every new row has
none. -/
theorem Linked.of_rows (h : Linked db) (htickets : db'.tickets = db.tickets)
    (hold : ∀ id r, db.resources.get? id = some r →
      ∃ r', db'.resources.get? id = some r' ∧ r.Keeps r')
    (hnew : ∀ id r', db'.resources.get? id = some r' → db.resources.get? id = none →
      r'.ticketId = none ∧ r'.releasedAt = none ∧ r'.sandbox = none) : Linked db' := by
  -- the row a current row comes from, if it is not new
  have hrow : ∀ {id r'}, db'.resources.get? id = some r' →
      (r'.ticketId = none ∧ r'.releasedAt = none ∧ r'.sandbox = none) ∨
        ∃ r, db.resources.get? id = some r ∧ r.Keeps r' := by
    intro id r' hr'
    cases hr : db.resources.get? id with
    | none => exact .inl (hnew id r' hr' hr)
    | some r =>
        obtain ⟨r'', hr'', hkeeps⟩ := hold id r hr
        obtain rfl := Option.some.inj (hr''.symm.trans hr')
        exact .inr ⟨r, rfl, hkeeps⟩
  refine ⟨?_, ?_, ?_, ?_, ?_⟩
  · intro id r' tid hr' htid
    rcases hrow hr' with ⟨hnone, -⟩ | ⟨r, hr, hkeeps⟩
    · simp [hnone] at htid
    · rw [htickets]
      exact h.pointsBack hr (hkeeps.ticketId ▸ htid)
  · intro tid t id ht hid
    rw [htickets] at ht
    obtain ⟨r, hr, hopened, hfailed⟩ := h.resource ht hid
    obtain ⟨r', hr', hkeeps⟩ := hold id r hr
    refine ⟨r', hr', fun hstate => ?_, fun hstate => hkeeps.leaving (hfailed hstate)⟩
    obtain ⟨hup, htid⟩ := hopened hstate
    exact ⟨hkeeps.up hup (by simp [htid]), hkeeps.ticketId.trans htid⟩
  · intro id r' hr' hstate
    rcases hrow hr' with ⟨hnone, -⟩ | ⟨r, hr, hkeeps⟩
    · exact hnone
    · rw [hkeeps.ticketId]
      exact h.idle hr (hkeeps.idle hstate ▸ hstate)
  · intro id r' hr' hused
    rcases hrow hr' with ⟨hnone, hnever, -⟩ | ⟨r, hr, hkeeps⟩
    · simp [hnone, hnever] at hused
    · rw [hkeeps.ticketId, hkeeps.releasedAt] at hused
      exact hkeeps.sandbox ▸ h.sandboxed hr hused
  · intro id r' hr' htruthy
    rcases hrow hr' with ⟨-, -, hnone⟩ | ⟨r, hr, hkeeps⟩
    · simp [hnone] at htruthy
    · exact hkeeps.sandboxedSince ▸ h.since hr (hkeeps.sandbox ▸ htruthy)

/-- Tables stay linked when neither of them is written. -/
theorem Linked.of_eq (h : Linked db) (htickets : db'.tickets = db.tickets)
    (hresources : db'.resources = db.resources) : Linked db' :=
  h.of_rows htickets (fun _ r hr => ⟨r, hresources ▸ hr, .refl r⟩)
    fun _ _ hr hnone => by simp [hresources, hnone] at hr

/-- Tables stay linked when one row is rewritten and keeps its links. -/
theorem Linked.modifyResource (h : Linked db) (id : ResourceId) {f : Resource → Resource}
    (hf : ∀ r, db.resources.get? id = some r → r.Keeps (f r)) :
    Linked (db.modifyResource id f) := by
  refine h.of_rows rfl ?_ ?_
  · intro j r hr
    by_cases hj : j = id
    · subst hj
      exact ⟨f r, by simp [hr], hf r hr⟩
    · exact ⟨r, by simp [IdTable.get?_modify_of_ne hj, hr], .refl r⟩
  · intro j r' hr' hnone
    simp [IdTable.get?_modify, hnone] at hr'

/-- A write of the state keeps the links of a row that is not in use. -/
theorem Resource.Keeps.state {r : Resource} {s : RState}
    (hunused : r.state = .up → r.ticketId ≠ none → s = .up)
    (hleaving : r.state.leaving = true → s.leaving = true)
    (hidle : s ≠ .starting ∧ s ≠ .releasing) : r.Keeps { r with state := s } :=
  ⟨rfl, rfl, rfl, rfl, hunused, hleaving, fun hs => by simp_all⟩

end Rows

/-! ## Kills -/

section Kill

variable {db : Db}

theorem Resource.requested_leaving {r : Resource} (h : r.state.leaving = true) :
    r.requested.state.leaving = true := by
  unfold Resource.requested
  split
  · rfl
  · exact h

/-- A kill keeps the tables linked: the open ticket of the killed resource fails
together with it. -/
theorem Linked.kill (h : Linked db) (id : ResourceId) : Linked (kill db id) := by
  refine ⟨?_, ?_, ?_, ?_, ?_⟩
  · intro j r' tid hr' htid
    have hrow : ∃ r, db.resources.get? j = some r ∧ r.ticketId = r'.ticketId := by
      rw [kill_resource] at hr'
      split at hr'
      · obtain ⟨r, hr, rfl⟩ := Option.map_eq_some_iff.mp hr'
        exact ⟨r, hr, by simp⟩
      · exact ⟨r', hr', rfl⟩
    obtain ⟨r, hr, heq⟩ := hrow
    obtain ⟨t, ht, hback⟩ := h.pointsBack hr (heq.trans htid)
    exact ⟨t.killedWith id, by simp [ht], by simpa using hback⟩
  · intro tid t' j ht' hj
    rw [kill_ticket] at ht'
    obtain ⟨t, ht, rfl⟩ := Option.map_eq_some_iff.mp ht'
    rw [Ticket.killedWith_resourceId] at hj
    obtain ⟨r, hr, hopened, hfailed⟩ := h.resource ht hj
    by_cases hjid : j = id
    · subst hjid
      refine ⟨r.requested, by simp [hr], fun hstate => ?_, fun hstate => ?_⟩
      · exact absurd hj (Ticket.killedWith_opened.mp hstate).2
      · rcases Ticket.killedWith_failed.mp hstate with hstate | ⟨hstate, -⟩
        · exact Resource.requested_leaving (hfailed hstate)
        · simp [Resource.requested, (hopened hstate).1, RState.leaving]
    · refine ⟨r, by simp [hjid, hr], fun hstate => ?_, fun hstate => ?_⟩
      · exact hopened (Ticket.killedWith_opened.mp hstate).1
      · rcases Ticket.killedWith_failed.mp hstate with hstate | ⟨-, hid⟩
        · exact hfailed hstate
        · exact absurd (Option.some.inj (hj.symm.trans hid)) hjid
  · intro j r' hr' hstate
    rw [kill_resource] at hr'
    split at hr'
    · obtain ⟨r, hr, rfl⟩ := Option.map_eq_some_iff.mp hr'
      rw [Resource.requested_ticketId]
      refine h.idle hr ?_
      unfold Resource.requested at hstate
      split at hstate <;> simp_all
    · exact h.idle hr' hstate
  · intro j r' hr' hused
    rw [kill_resource] at hr'
    split at hr'
    · obtain ⟨r, hr, rfl⟩ := Option.map_eq_some_iff.mp hr'
      simpa using h.sandboxed hr (by simpa using hused)
    · exact h.sandboxed hr' hused
  · intro j r' hr' htruthy
    rw [kill_resource] at hr'
    split at hr'
    · obtain ⟨r, hr, rfl⟩ := Option.map_eq_some_iff.mp hr'
      simpa using h.since hr (by simpa using htruthy)
    · exact h.since hr' htruthy

end Kill

/-! ## Tickets -/

section Tickets

variable {db : Db}

/-- A new ticket has no resource. -/
theorem Linked.takeTicket (h : Linked db) (sandbox : Option String) (tags : List String) :
    Linked { db with tickets := db.tickets.push { sandbox := sandbox, tags := tags } } := by
  refine ⟨?_, ?_, h.idle, h.sandboxed, h.since⟩
  · intro id r tid hr htid
    obtain ⟨t, ht, hback⟩ := h.pointsBack hr htid
    exact ⟨t, IdTable.get?_push_of_some _ ht, hback⟩
  · intro tid t id ht hid
    rcases IdTable.get?_push_some ht with ⟨-, rfl⟩ | ht
    · simp at hid
    · exact h.resource ht hid

/-- Closing a ticket asks nothing of its resource. -/
theorem Linked.closeTicket (h : Linked db) (ticketId : TicketId) :
    Linked (db.modifyTicket ticketId fun t => { t with state := .closed }) := by
  refine ⟨?_, ?_, h.idle, h.sandboxed, h.since⟩
  · intro id r tid hr htid
    obtain ⟨t, ht, hback⟩ := h.pointsBack hr htid
    simp only [Db.modifyTicket_tickets, IdTable.get?_modify, ht]
    split
    · exact ⟨_, rfl, hback⟩
    · exact ⟨t, rfl, hback⟩
  · intro tid t' id ht' hid
    simp only [Db.modifyTicket_tickets, IdTable.get?_modify] at ht'
    split at ht'
    · obtain ⟨t, ht, rfl⟩ := Option.map_eq_some_iff.mp ht'
      obtain ⟨r, hr, -⟩ := h.resource ht hid
      exact ⟨r, hr, by simp, by simp⟩
    · exact h.resource ht' hid

/-- A row after an assignment is the assigned row, or one that was there before. -/
theorem assignTicket_row {id j : ResourceId} {tid : TicketId} {uuid : String} {now : Time}
    {r r' : Resource} {t : Ticket} (ht : db.tickets.get? tid = some t)
    (hr : db.resources.get? id = some r)
    (hr' : (Resalloc.assignTicket db id tid uuid now).1.resources.get? j = some r') :
    (j = id ∧ r' = r.assigned tid t uuid now) ∨ db.resources.get? j = some r' := by
  rw [assignTicket_resource _ _ _ _ _ ht] at hr'
  split_ifs at hr' with hj
  · subst hj
    rw [hr, Option.map_some, Option.some.injEq] at hr'
    exact .inl ⟨rfl, hr'.symm⟩
  · exact .inr hr'

/-- An assignment links a ticket that has no resource with a resource that has
no ticket. -/
theorem Linked.assignTicket (h : Linked db) {id : ResourceId} {tid : TicketId}
    {uuid : String} {now : Time} {r : Resource} {t : Ticket} (huuid : uuid ≠ "")
    (hr : db.resources.get? id = some r) (hup : r.state = .up) (hfree : r.ticketId = none)
    (ht : db.tickets.get? tid = some t) (hwaiting : t.resourceId = none)
    (hstate : t.state ≠ .failed) :
    Linked (Resalloc.assignTicket db id tid uuid now).1 := by
  have hsettled := t.truthy_settledSandbox huuid
  refine ⟨?_, ?_, ?_, ?_, ?_⟩
  · intro j r' tid' hr' htid'
    rcases assignTicket_row ht hr hr' with ⟨rfl, rfl⟩ | hr'
    · obtain rfl : tid = tid' := by simpa [Resource.assigned] using htid'
      exact ⟨t.assigned j uuid, by simp [ht], by simp [Ticket.assigned]⟩
    · obtain ⟨t', ht', hback⟩ := h.pointsBack hr' htid'
      have hne : tid' ≠ tid := by
        rintro rfl
        rw [Option.some.inj (ht'.symm.trans ht), hwaiting] at hback
        contradiction
      exact ⟨t', by simp [hne, ht'], hback⟩
  · intro tid' t' j ht' hj
    rw [assignTicket_ticket] at ht'
    split_ifs at ht' with htid
    · subst htid
      simp only [ht, Option.map_some, Option.some.injEq] at ht'
      subst ht'
      obtain rfl : id = j := by simpa [Ticket.assigned] using hj
      refine ⟨r.assigned tid' t uuid now, ?_, fun _ => ⟨hup, rfl⟩, fun hfailed => ?_⟩
      · simp [assignTicket_resource _ _ _ _ _ ht, hr]
      · exact absurd hfailed hstate
    · obtain ⟨r', hr', hopened, hfailed⟩ := h.resource ht' hj
      rw [assignTicket_resource _ _ _ _ _ ht]
      by_cases hjid : j = id
      · subst hjid
        obtain rfl := Option.some.inj (hr'.symm.trans hr)
        refine ⟨r'.assigned tid t uuid now, by simp [hr'], fun hs => ?_, fun hs => ?_⟩
        · simp [(hopened hs).2] at hfree
        · simp [hup, RState.leaving] at hfailed
          exact absurd hs hfailed
      · exact ⟨r', by simp [hjid, hr'], hopened, hfailed⟩
  · intro j r' hr' hs
    rcases assignTicket_row ht hr hr' with ⟨rfl, rfl⟩ | hr'
    · simp [Resource.assigned, hup] at hs
    · exact h.idle hr' hs
  · intro j r' hr' hused
    rcases assignTicket_row ht hr hr' with ⟨rfl, rfl⟩ | hr'
    · by_cases htruthy : truthy r.sandbox = true
      · simp [Resource.assigned, htruthy]
      · simp [Resource.assigned, htruthy, hsettled]
    · exact h.sandboxed hr' hused
  · intro j r' hr' htruthy'
    rcases assignTicket_row ht hr hr' with ⟨rfl, rfl⟩ | hr'
    · by_cases htruthy : truthy r.sandbox = true
      · simpa [Resource.assigned, htruthy] using h.since hr htruthy
      · simp [Resource.assigned, htruthy]
    · exact h.since hr' htruthy'

end Tickets

end Resalloc
