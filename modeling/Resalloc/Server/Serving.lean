import Resalloc.Server.Invariants

/-!
# Which requests are served

The assignment pass collects its queue in one transaction and consumes it in many
later ones.  Everything a round needs of the resource is tested again in the
round; that the ticket still waits for a resource is stable; but its state is not
looked at again.

Main results:

- Theorem {lit}`World.Reaches.fits`: what every assignment of every run can rely
  on.
- Theorem {lit}`World.Reaches.serves_live`: when no queued ticket is closed, only
  open tickets are served.
- Theorem {lit}`World.serves_closed`: a ticket closed while it is queued consumes a
  resource.
-/

namespace Resalloc

open Foundations

/-- A resource that can be given to a ticket. -/
structure Fits (r : Resource) (t : Ticket) : Prop where
  up : r.state = .up
  free : r.ticketId = none
  checked : r.checkFailedCount = 0
  tags : ∀ tag ∈ t.tags, tag ∈ r.tagSet
  sandbox : truthy r.sandbox = false ∨ r.sandbox = t.sandbox

/-- The sandbox test of {lit}`_assign_tickets`, without its negation. -/
theorem sandbox_test_iff {r : Resource} {t : Ticket} :
    ¬(truthy r.sandbox = true ∧ r.sandbox ≠ t.sandbox) ↔
      truthy r.sandbox = false ∨ r.sandbox = t.sandbox := by
  rw [not_and_or, Bool.not_eq_true, not_not]

/-- A chosen resource fits its ticket. -/
theorem chooseResource_fits {db : Db} {tid : TicketId} {ids : List ResourceId} {id : ResourceId}
    (h : chooseResource tid ids db = some id) :
    ∃ r t, db.resources.get? id = some r ∧ db.tickets.get? tid = some t ∧ Fits r t := by
  obtain ⟨t, r, ht, hr, hup, hfree, hchecked, -, hsandbox, htags⟩ := chooseResource_some h
  exact ⟨r, t, hr, ht, hup, hfree, hchecked, htags, sandbox_test_iff.mp hsandbox⟩

namespace World

variable {w w' : World} {a : Action} {as : List Action} {id : ResourceId} {tid : TicketId}

/-- The resource fits the ticket in every assignment, and the ticket has no
resource yet. -/
theorem Reaches.fits {ok : World → Action → Prop} (h : Reaches ok as w)
    (hassign : w.assignment? a = some (id, tid)) :
    ∃ r t, w.db.resources.get? id = some r ∧ w.db.tickets.get? tid = some t ∧ Fits r t ∧
      t.resourceId = none ∧ t.state ≠ .failed := by
  obtain ⟨i, c, queue, ids, queue', -, hpc, hpop, hchoose⟩ := assignment?_some hassign
  obtain ⟨r, t, hr, ht, hfits⟩ := chooseResource_fits hchoose
  have hqueued := h.inv.queued
  have hmem : tid ∈ queue.tasks := (hqueued.wf hpc).popTask_mem (by rw [hpop])
  obtain ⟨t', ht', hnone, hstate⟩ := hqueued.waiting hpc hmem
  obtain rfl := Option.some.inj (ht.symm.trans ht')
  exact ⟨r, t, hr, ht, hfits, hnone, hstate⟩

/-- A ticket that is closed during an assignment pass, and the queue of the pass. -/
def lateClose? (w : World) (a : Action) : Option (TicketId × PriorityQueue TicketId) :=
  match a, w.manager with
  | .closeTicket tid, .assign _ queue _ => some (tid, queue)
  | _, _ => none

/-- A step that does not close a ticket which is queued in the running assignment
pass. -/
def NoLateClose (w : World) (a : Action) : Prop :=
  ∀ e ∈ w.lateClose? a, e.1 ∉ e.2.tasks

instance (w : World) (a : Action) : Decidable (NoLateClose w a) :=
  inferInstanceAs (Decidable (∀ _ ∈ _, _))

/-- The tickets queued in the assignment pass are open. -/
def QueueOpen (w : World) : Prop :=
  ∀ c queue ids tid, w.manager = .assign c queue ids → tid ∈ queue.tasks →
    ∃ t, w.db.tickets.get? tid = some t ∧ t.state = .opened

/-- Steps that do not close queued tickets keep them open. -/
theorem Inv.queueOpen_step (h : w.Inv) (hopen : w.QueueOpen) (hok : NoLateClose w a)
    (hstep : w.Steps a w') : w'.QueueOpen := by
  -- a queued ticket can only be closed, or assigned
  have hkept : ∀ {c queue ids tid}, w.manager = .assign c queue ids → tid ∈ queue.tasks →
      ∃ t, w'.db.tickets.get? tid = some t ∧ t.state = .opened := by
    intro c queue ids tid hpc hmem
    obtain ⟨t, ht, hopened⟩ := hopen _ _ _ _ hpc hmem
    obtain ⟨t₀, ht₀, hnone, -⟩ := h.queued.waiting hpc hmem
    obtain rfl := Option.some.inj (ht.symm.trans ht₀)
    obtain ⟨t', ht', hrow⟩ := hstep.ticket h.linked ht
    refine ⟨t', ht', ?_⟩
    cases hrow with
    | same => exact hopened
    | closed => exact absurd hmem (hok (tid, queue) (by simp [lateClose?, hpc]))
    | killed _ _ hid => exact absurd hnone hid
    | assigned => exact hopened
  intro c queue ids tid hpc hmem
  rcases hstep.assign_cases hpc with ⟨hold, -⟩ | ⟨i, -, -, hdb, hcollect⟩ |
    ⟨i, first, before, -, hold, hpop, -⟩
  · exact hkept hold hmem
  · have hqueue := (collectQueue_spec c.onDemandTags w.db).2.1 tid
    rw [hcollect] at hqueue
    obtain ⟨t, ht⟩ := hqueue.mp hmem
    obtain ⟨ht, -, hopened⟩ := mem_waiting.mp ht
    exact ⟨t, hdb ▸ ht, hopened⟩
  · obtain ⟨-, htasks⟩ := (h.queued.wf hold).popTask_some hpop
    exact hkept hold (htasks ▸ List.mem_cons_of_mem _ hmem)

/-- The queue stays open along a run that closes no queued ticket. -/
theorem Reaches.queueOpen (h : Reaches NoLateClose as w) : w.QueueOpen := by
  have hboth : w.Inv ∧ w.QueueOpen := by
    refine h.invariant (P := fun w => w.Inv ∧ w.QueueOpen) ⟨inv_init, ?_⟩ ?_
    · intro c queue ids tid hpc
      simp [init] at hpc
    · rintro u b v ⟨hinv, hopen⟩ hok hstep
      exact ⟨hinv.step hstep, hinv.queueOpen_step hopen hok (step_cases hstep)⟩
  exact hboth.2

/-- An action that assigns only what the two parties of the assignment allow: an
open ticket without a resource, and a resource that fits it. -/
def ServesLive (w : World) (a : Action) : Prop :=
  ∀ id tid, w.assignment? a = some (id, tid) →
    ∃ r t, w.db.resources.get? id = some r ∧ w.db.tickets.get? tid = some t ∧ Fits r t ∧
      t.state = .opened ∧ t.resourceId = none

/-- When no ticket is closed while it is queued, only live requests are served. -/
theorem Reaches.serves_live (h : Reaches NoLateClose as w) (a : Action) : ServesLive w a := by
  intro id tid hassign
  obtain ⟨i, c, queue, ids, queue', -, hpc, hpop, -⟩ := assignment?_some hassign
  have hmem : tid ∈ queue.tasks := (h.inv.queued.wf hpc).popTask_mem (by rw [hpop])
  obtain ⟨r, t, hr, ht, hfits, hnone, -⟩ := h.fits hassign
  obtain ⟨t', ht', hopened⟩ := h.queueOpen _ _ _ _ hpc hmem
  obtain rfl := Option.some.inj (ht.symm.trans ht')
  exact ⟨r, t, hr, ht, hfits, hopened, hnone⟩

/-- A ticket is taken and queued while a resource is ready. -/
def queuedRun : List Action :=
  .takeTicket [] none :: ticks basicConfig 8 ++ List.replicate 3 (.worker 1 { now := 20 }) ++
    ticks basicConfig 3

/-- The round that follows serves the open ticket. -/
theorem serves_live_queuedRun :
    ServesLive (after NoLateClose queuedRun (by decide +kernel)) (.manager {}) :=
  Reaches.serves_live (reaches_after NoLateClose queuedRun (by decide +kernel)) _

/-- A ticket closed while it is queued still gets a resource. -/
theorem serves_closed :
    ¬ ∀ as w a, Reaches anyStep as w → ServesLive w a := by
  intro h
  have hrun := reaches_after anyStep (queuedRun ++ [.closeTicket 1]) (by decide +kernel)
  obtain ⟨r, t, -, ht, -, hopened, -⟩ := h _ _ (.manager {}) hrun 1 1 (by decide +kernel)
  have hclosed : ((after anyStep (queuedRun ++ [.closeTicket 1])
      (by decide +kernel)).db.tickets.get? 1).map Ticket.state = some .closed := by decide +kernel
  simp [ht, hopened] at hclosed

end World

end Resalloc
