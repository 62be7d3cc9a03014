import Resalloc.Server.Links
import Resalloc.Server.Manager

/-!
# The assignment pass

What {lit}`_assign_tickets` puts into its queues, and what one of its rounds does.

Main results:

- Theorem {lit}`collectQueue_spec`: the queue holds the waiting tickets, and the
  remembered resources are the ready ones.
- Theorem {lit}`chooseResource_some`: the tests a chosen resource has passed.
- Theorem {lit}`assignTicketTo_cases`: a round either assigns the chosen resource
  or writes nothing.
-/

namespace Resalloc

open Foundations

/-! ## The queues -/

section Queues

variable {db : Db} {id : ResourceId} {tid : TicketId} {ids : List ResourceId}

/-- The candidates for a ticket are the ready resources that are usable for it. -/
theorem candidates_spec (ticket : Ticket) (ids : List ResourceId) (db : Db) :
    (candidates ticket ids db).WF ∧
      ∀ id, id ∈ (candidates ticket ids db).tasks ↔
        ∃ r, (id, r) ∈ QResources.ready db none ∧ usable ticket ids id r := by
  obtain ⟨hwf, hmem⟩ := PriorityQueue.wf_empty.foldl_addTask
    (fun e : ResourceId × Resource => usable ticket ids e.1 e.2) Prod.fst
    (fun e => tagsScore ticket.tags e.2.tags +
      if truthy e.2.sandbox then reusedResourcePriority else 0)
    (QResources.ready db none)
  refine ⟨hwf, fun id => ?_⟩
  rw [candidates, hmem]
  simp [PriorityQueue.tasks]

/-- A chosen resource is ready and usable for its ticket. -/
theorem chooseResource_some (hchoose : chooseResource tid ids db = some id) :
    ∃ t r, db.tickets.get? tid = some t ∧ db.resources.get? id = some r ∧ r.state = .up ∧
      r.ticketId = none ∧ r.checkFailedCount = 0 ∧ usable t ids id r := by
  unfold chooseResource at hchoose
  split at hchoose
  next => contradiction
  next t ht =>
    obtain ⟨hwf, hmem⟩ := candidates_spec t ids db
    obtain ⟨r, hready, husable⟩ := (hmem id).mp (hwf.popTask_mem hchoose)
    obtain ⟨hr, -, hup, hfree, hchecked⟩ := mem_ready.mp hready
    exact ⟨t, r, ht, hr, hup, hfree, hchecked, husable⟩

/-- The queue of the pass holds the waiting tickets, and the remembered resources
are the ready ones. -/
theorem collectQueue_spec (onDemandTags : List String) (db : Db) :
    (collectQueue onDemandTags db).1.WF ∧
      (∀ tid, tid ∈ (collectQueue onDemandTags db).1.tasks ↔
        ∃ t, (tid, t) ∈ QTickets.waiting db) ∧
      (collectQueue onDemandTags db).2 = (QResources.ready db none).map Prod.fst := by
  have hqueue : (collectQueue onDemandTags db).1 = (QTickets.waiting db).foldl
      (fun queue e => if True then
        queue.addTask e.1 (if ∃ tag ∈ e.2.tags, tag ∈ onDemandTags then 10 else 0)
        else queue) {} := by
    refine List.foldl_ext _ _ _ fun queue e _ => ?_
    split_ifs <;> simp_all
  obtain ⟨hwf, hmem⟩ := PriorityQueue.wf_empty.foldl_addTask (fun _ => True) Prod.fst
    (fun e : TicketId × Ticket => if ∃ tag ∈ e.2.tags, tag ∈ onDemandTags then 10 else 0)
    (QTickets.waiting db)
  refine ⟨hqueue ▸ hwf, fun tid => ?_, rfl⟩
  rw [hqueue, hmem]
  simp [PriorityQueue.tasks]

end Queues

/-! ## One round -/

section Round

variable {db db' : Db} {tid : TicketId} {ids : List ResourceId} {uuid : String} {now : Time}

/-- A round that commits has assigned the chosen resource, or written nothing. -/
theorem assignTicketTo_cases (h : assignTicketTo tid ids uuid now db = .ok db') :
    (∃ id, chooseResource tid ids db = some id ∧ db' = (assignTicket db id tid uuid now).1) ∨
      chooseResource tid ids db = none ∧ db' = db := by
  unfold assignTicketTo at h
  split_ifs at h with hready
  · refine .inr ⟨?_, (Except.ok.inj h).symm⟩
    cases hchoose : chooseResource tid ids db with
    | none => rfl
    | some id =>
        obtain ⟨t, r, -, hr, hup, hfree, hchecked, -⟩ := chooseResource_some hchoose
        have hmem : (id, r) ∈ QResources.ready db none :=
          mem_ready.mpr ⟨hr, fun hfalse => by simp at hfalse, hup, hfree, hchecked⟩
        simp [hready] at hmem
  · split at h
    next hchoose => exact .inr ⟨hchoose, (Except.ok.inj h).symm⟩
    next id hchoose => exact .inl ⟨id, hchoose, (Except.ok.inj h).symm⟩

/-- A round that finds a resource assigns it. -/
theorem assignTicketTo_of_choose (uuid : String) (now : Time) {id : ResourceId}
    (h : chooseResource tid ids db = some id) :
    assignTicketTo tid ids uuid now db = .ok (assignTicket db id tid uuid now).1 := by
  obtain ⟨t, r, ht, hr, hup, hfree, hchecked, -⟩ := chooseResource_some h
  have hready : QResources.ready db none ≠ [] := by
    have hmem : (id, r) ∈ QResources.ready db none :=
      mem_ready.mpr ⟨hr, fun hfalse => by simp at hfalse, hup, hfree, hchecked⟩
    exact List.ne_nil_of_mem hmem
  simp [assignTicketTo, hready, ht, h]

end Round

end Resalloc
