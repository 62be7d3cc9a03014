import Resalloc.Server.Serving

/-!
# Answers to clients

The reading methods of {lit}`resallocserver/api.py`.  An answer is put together from
two tables: the ticket names a resource, and the resource has the output of the
allocation script.  Both rows are written many times after the client has read them.

Main results:

- Theorem {lit}`World.Inv.output_step`: no action changes what a ready ticket reports.
- Theorem {lit}`World.Reaches.told`: what {lit}`collectTicket` has reported stays true
  in every later state.
-/

namespace Resalloc

open Foundations

/-! ## The methods -/

/-- The dictionary {lit}`collectTicket` returns. -/
structure Collected where
  ready : Option Bool := some false
  output : Option (List UInt8) := none
  closed : Option Bool := none
  failed : Option Bool := none
deriving DecidableEq

/-- The resource a ticket works with, {lit}`ticket.resource`. -/
def Ticket.resource? (t : Ticket) (db : Db) : Option Resource :=
  t.resourceId.bind db.resources.get?

/-- {lit}`ServerAPI.collectTicket`. -/
def collectTicket (ticketId : TicketId) (db : Db) : Collected :=
  match db.tickets.get? ticketId with
  | none => { ready := none }
  | some ticket =>
      { ready := some (ticket.resource? db).isSome
        output := (ticket.resource? db).bind Resource.data
        closed := some (ticket.state = .closed)
        failed := some (ticket.state = .failed) }

/-- {lit}`ServerAPI.waitTicket`, which reads the given databases one after another;
{lean}`none` while it still waits. -/
def waitTicket (ticketId : TicketId) :
    List Db → Except PyError (Option (Option (List UInt8)))
  | [] => .ok none
  | db :: later =>
      match db.tickets.get? ticketId with
      | none => .error .attributeError
      | some ticket =>
          match ticket.resource? db with
          | some resource => .ok (some resource.data)
          | none => waitTicket ticketId later

/-- A ticket is reported ready when its resource exists. -/
theorem collectTicket_ready {ticketId : TicketId} {db : Db} :
    (collectTicket ticketId db).ready = some true ↔
      ∃ t r, db.tickets.get? ticketId = some t ∧ t.resource? db = some r := by
  unfold collectTicket
  cases db.tickets.get? ticketId with
  | none => simp
  | some t => simp [Option.isSome_iff_exists]

/-- The output of a ticket with a resource. -/
theorem collectTicket_output {ticketId : TicketId} {db : Db} {t : Ticket} {r : Resource}
    (ht : db.tickets.get? ticketId = some t) (hr : t.resource? db = some r) :
    (collectTicket ticketId db).output = r.data := by
  simp [collectTicket, ht, hr]

/-- A call that waits for a ready ticket returns at its first look. -/
theorem waitTicket_ready {ticketId : TicketId} {db : Db} {t : Ticket} {r : Resource}
    (ht : db.tickets.get? ticketId = some t) (hr : t.resource? db = some r) (later : List Db) :
    waitTicket ticketId (db :: later) = .ok (some r.data) := by
  simp [waitTicket, ht, hr]

namespace World

variable {w w' : World} {a : Action} {as bs : List Action} {id : ResourceId} {tid : TicketId}
variable {r r' : Resource} {t t' : Ticket}

/-! ## Tickets -/

/-- A queued ticket has no resource, so an action never gives a ticket another
one. -/
theorem Inv.resourceId_kept (h : w.Inv) (ht : w.db.tickets.get? tid = some t)
    (hrow : w.TicketSteps tid t a t') (hid : t.resourceId = some id) :
    t'.resourceId = some id := by
  cases hrow with
  | same | closed | killed => exact hid
  | assigned i hassign =>
      obtain ⟨_, c, queue, ids, queue', -, hpc, hpop, -⟩ := assignment?_some hassign
      have hmem : tid ∈ queue.tasks := (h.queued.wf hpc).popTask_mem (by rw [hpop])
      obtain ⟨t₁, ht₁, hnone, -⟩ := h.queued.waiting hpc hmem
      obtain rfl := Option.some.inj (ht.symm.trans ht₁)
      simp [hnone] at hid

/-- The states that a ticket may have later. -/
structure Ticket.Continues (t t' : Ticket) : Prop where
  closed : t.state = .closed → t'.state = .closed
  failed : t.state = .failed → t'.state = .failed ∨ t'.state = .closed
  resourceId : ∀ id, t.resourceId = some id → t'.resourceId = some id

theorem Ticket.Continues.refl (t : Ticket) : Ticket.Continues t t :=
  ⟨fun h => h, .inl, fun _ h => h⟩

theorem Ticket.Continues.trans {t'' : Ticket} (h : Ticket.Continues t t')
    (h' : Ticket.Continues t' t'') : Ticket.Continues t t'' where
  closed := fun hstate => h'.closed (h.closed hstate)
  failed := fun hstate => (h.failed hstate).elim h'.failed fun hclosed => .inr (h'.closed hclosed)
  resourceId := fun id hid => h'.resourceId id (h.resourceId id hid)

/-- What an action can do to the state and the resource of a ticket. -/
theorem Inv.ticket_continues (h : w.Inv) (hstep : w.step a = some w')
    (ht : w.db.tickets.get? tid = some t) :
    ∃ t', w'.db.tickets.get? tid = some t' ∧ Ticket.Continues t t' := by
  obtain ⟨t', ht', hrow⟩ := (step_cases hstep).ticket h.linked ht
  refine ⟨t', ht', ?_, ?_, fun id => h.resourceId_kept ht hrow⟩
  · intro hstate
    cases hrow with
    | same | assigned => exact hstate
    | closed => rfl
    | killed _ hopened => simp [hstate] at hopened
  · intro hstate
    cases hrow with
    | same | assigned => exact .inl hstate
    | closed => exact .inr rfl
    | killed => exact .inl rfl

/-! ## Resources -/

/-- The resources of tickets have left STARTING. -/
structure Delivered (w : World) : Prop where
  started : ∀ {tid t id r}, w.db.tickets.get? tid = some t → t.resourceId = some id →
    w.db.resources.get? id = some r → r.state ≠ .starting

/-- Only a resource in STARTING gets its data. -/
theorem Inv.data_kept (h : w.Inv) (hr : w.db.resources.get? id = some r)
    (hrow : w.ResourceSteps id r a r') (hstate : r.state ≠ .starting) : r'.data = r.data := by
  cases hrow with
  | started hruns => exact absurd (h.owned.starting hruns hr) hstate
  | _ => rfl

/-- A resource never comes back to STARTING. -/
theorem ResourceSteps.ne_starting (hrow : w.ResourceSteps id r a r') (h : r.state ≠ .starting) :
    r'.state ≠ .starting := by
  cases hrow with
  | same | checked | assigned => exact h
  | decoupled =>
      simp only [Resource.decoupled, Resource.released]
      split_ifs
      · simp
      · exact h
  | started =>
      simp only [Resource.started]
      split_ifs <;> simp
  | retired | killed | broken | terminating | ended | returned =>
      simp [Resource.retired, Resource.returned]

/-- Tickets keep having resources that have left STARTING. -/
theorem Delivered.step (hdelivered : w.Delivered) (h : w.Inv) (hstep : w.step a = some w') :
    w'.Delivered := by
  have hsteps := step_cases hstep
  constructor
  intro tid t' id r' ht' hid hr'
  cases ht : w.db.tickets.get? tid with
  | none =>
      obtain ⟨_, _, -, -, -, rfl⟩ := hsteps.taken h.linked ht' ht
      simp at hid
  | some t =>
      obtain ⟨t₁, ht₁, hrow⟩ := hsteps.ticket h.linked ht
      obtain rfl := Option.some.inj (ht'.symm.trans ht₁)
      have hold : t.resourceId = some id → r'.state ≠ .starting := by
        intro hlink
        obtain ⟨r, hr, -⟩ := h.linked.resource ht hlink
        obtain ⟨r₁, hr₁, hrrow⟩ := hsteps.resource h.linked hr
        obtain rfl := Option.some.inj (hr'.symm.trans hr₁)
        exact hrrow.ne_starting (hdelivered.started ht hlink hr)
      cases hrow with
      | same | closed | killed => exact hold hid
      | assigned i hassign =>
          -- a chosen resource is UP
          obtain rfl := Option.some.inj hid
          obtain ⟨_, _, _, _, _, -, _, _, hchoose⟩ := assignment?_some hassign
          obtain ⟨r, _, hr, -, hfits⟩ := chooseResource_fits hchoose
          obtain ⟨r₁, hr₁, hrrow⟩ := hsteps.resource h.linked hr
          obtain rfl := Option.some.inj (hr'.symm.trans hr₁)
          exact hrrow.ne_starting (by simp [hfits.up])

/-- The resources of tickets have left STARTING in every reachable state. -/
theorem Reaches.delivered {ok : World → Action → Prop} (h : Reaches ok as w) : w.Delivered := by
  have hstart : init.Inv ∧ init.Delivered := ⟨inv_init, ⟨by simp [init]⟩⟩
  have hkept : ∀ u a v, u.Inv ∧ u.Delivered → ok u a → u.step a = some v →
      v.Inv ∧ v.Delivered := by
    rintro u a v ⟨hinv, hdelivered⟩ - hstep
    exact ⟨hinv.step hstep, hdelivered.step hinv hstep⟩
  exact (h.invariant hstart hkept).2

/-- The resource of a ticket that is not closed has the number of the ticket, and the output of
the allocation script is there for every ticket. -/
structure Attached (w : World) : Prop where
  holds : ∀ {tid t id}, w.db.tickets.get? tid = some t → t.resourceId = some id →
    t.state ≠ .closed → ∃ r, w.db.resources.get? id = some r ∧ r.ticketId = some tid
  started : ∀ {id r}, w.db.resources.get? id = some r → r.state = .up ∨ r.state = .releasing →
    r.data ≠ none
  output : ∀ {tid t id r}, w.db.tickets.get? tid = some t → t.resourceId = some id →
    w.db.resources.get? id = some r → r.data ≠ none

/-- A resource keeps the number of a ticket that is not closed. -/
theorem Inv.ticketId_kept (h : w.Inv) (hr : w.db.resources.get? id = some r)
    (hrow : w.ResourceSteps id r a r') (hlink : r.ticketId = some tid)
    (ht : w.db.tickets.get? tid = some t) (hopen : t.state ≠ .closed) :
    r'.ticketId = some tid := by
  cases hrow with
  | decoupled i _ hclosing =>
      -- only closed tickets are decoupled
      obtain ⟨t', ht', hclosed⟩ := (Option.any_eq_true _ _).mp hclosing.2.2
      rw [hlink, Option.bind_some, ht, Option.some.injEq] at ht'
      rw [← ht'] at hclosed
      exact absurd (of_decide_eq_true hclosed) hopen
  | assigned i _ _ _ hfree =>
      rw [hlink] at hfree
      contradiction
  | started hruns =>
      rw [h.linked.idle hr (.inl (h.owned.starting hruns hr))] at hlink
      contradiction
  | returned hruns =>
      rw [h.linked.idle hr (.inr (h.owned.releasing hruns hr))] at hlink
      contradiction
  | same | checked | retired | killed | broken | terminating | ended => exact hlink

/-- A resource that can serve tickets has its output. -/
theorem Inv.data_of_up (h : w.Inv) (hr : w.db.resources.get? id = some r)
    (hrow : w.ResourceSteps id r a r')
    (hdata : r.state = .up ∨ r.state = .releasing → r.data ≠ none)
    (hstate : r'.state = .up ∨ r'.state = .releasing) : r'.data ≠ none := by
  cases hrow with
  | same | checked | assigned => exact hdata hstate
  | decoupled i _ hclosing => exact hdata (.inl hclosing.2.1)
  | started => simp [Resource.started]
  | returned hruns => exact hdata (.inr (h.owned.releasing hruns hr))
  | retired | killed | broken | terminating | ended => simp [Resource.retired] at hstate

/-- Every step keeps this. -/
theorem Attached.step (hattached : w.Attached) (hdelivered : w.Delivered) (h : w.Inv)
    (hstep : w.step a = some w') : w'.Attached := by
  have hsteps := step_cases hstep
  have h' := h.step hstep
  constructor
  · intro tid t' id ht' hid hopen
    cases hstate : t'.state with
    | closed => exact absurd hstate hopen
    | opened =>
        obtain ⟨r, hr, hup, -⟩ := h'.linked.resource ht' hid
        exact ⟨r, hr, (hup hstate).2⟩
    | failed =>
        cases ht : w.db.tickets.get? tid with
        | none =>
            obtain ⟨_, _, -, -, -, rfl⟩ := hsteps.taken h.linked ht' ht
            simp at hid
        | some t =>
            obtain ⟨t₁, ht₁, hrow⟩ := hsteps.ticket h.linked ht
            obtain rfl := Option.some.inj (ht'.symm.trans ht₁)
            -- it had its resource before, and was not closed
            obtain ⟨hlink, hbefore⟩ : t.resourceId = some id ∧ t.state ≠ .closed := by
              cases hrow with
              | same => exact ⟨hid, by simp [hstate]⟩
              | closed => simp at hstate
              | killed _ hopened => exact ⟨hid, by simp [hopened]⟩
              | assigned i hassign =>
                  obtain ⟨_, _, _, _, _, -, hpc, hpop, -⟩ := assignment?_some hassign
                  have hmem := (h.queued.wf hpc).popTask_mem (by rw [hpop])
                  obtain ⟨t₂, ht₂, -, hunfailed⟩ := h.queued.waiting hpc hmem
                  obtain rfl := Option.some.inj (ht.symm.trans ht₂)
                  exact absurd hstate hunfailed
            obtain ⟨r, hr, hticket⟩ := hattached.holds ht hlink hbefore
            obtain ⟨r', hr', hrrow⟩ := hsteps.resource h.linked hr
            exact ⟨r', hr', h.ticketId_kept hr hrrow hticket ht hbefore⟩
  · intro id r' hr' hstate
    cases hr : w.db.resources.get? id with
    | none =>
        obtain ⟨_, _, _, _, _, -, -, -, rfl⟩ := hsteps.created h.linked hr' hr
        simp [Pool.newResource] at hstate
    | some r =>
        obtain ⟨r₁, hr₁, hrow⟩ := hsteps.resource h.linked hr
        obtain rfl := Option.some.inj (hr'.symm.trans hr₁)
        exact h.data_of_up hr hrow (hattached.started hr) hstate
  · intro tid t' id r' ht' hid hr'
    cases ht : w.db.tickets.get? tid with
    | none =>
        obtain ⟨_, _, -, -, -, rfl⟩ := hsteps.taken h.linked ht' ht
        simp at hid
    | some t =>
        obtain ⟨t₁, ht₁, hrow⟩ := hsteps.ticket h.linked ht
        obtain rfl := Option.some.inj (ht'.symm.trans ht₁)
        have hold : t.resourceId = some id → r'.data ≠ none := by
          intro hlink
          obtain ⟨r, hr, -⟩ := h.linked.resource ht hlink
          obtain ⟨r₁, hr₁, hrrow⟩ := hsteps.resource h.linked hr
          obtain rfl := Option.some.inj (hr'.symm.trans hr₁)
          rw [h.data_kept hr hrrow (hdelivered.started ht hlink hr)]
          exact hattached.output ht hlink hr
        cases hrow with
        | same | closed | killed => exact hold hid
        | assigned i hassign =>
            obtain rfl := Option.some.inj hid
            obtain ⟨_, _, _, _, _, -, _, _, hchoose⟩ := assignment?_some hassign
            obtain ⟨r, _, hr, -, hfits⟩ := chooseResource_fits hchoose
            obtain ⟨r₁, hr₁, hrrow⟩ := hsteps.resource h.linked hr
            obtain rfl := Option.some.inj (hr'.symm.trans hr₁)
            have hup : r.state ≠ .starting := by simp [hfits.up]
            rw [h.data_kept hr hrrow hup]
            exact hattached.started hr (.inl hfits.up)

/-! ## What stays true -/

/-- No action changes what a ready ticket reports. -/
theorem Inv.output_step (h : w.Inv) (hdelivered : w.Delivered) (hstep : w.step a = some w')
    (ht : w.db.tickets.get? tid = some t) (hr : t.resource? w.db = some r) :
    ∃ t' r', w'.db.tickets.get? tid = some t' ∧ t'.resource? w'.db = some r' ∧
      r'.data = r.data := by
  obtain ⟨id, hid, hrow⟩ := Option.bind_eq_some_iff.mp hr
  obtain ⟨t', ht', hcontinues⟩ := h.ticket_continues hstep ht
  obtain ⟨r', hr', hrrow⟩ := (step_cases hstep).resource h.linked hrow
  refine ⟨t', r', ht', ?_, h.data_kept hrow hrrow (hdelivered.started ht hid hrow)⟩
  simp [Ticket.resource?, hcontinues.resourceId id hid, hr']

/-- What a run keeps of a ticket that is ready at its start. -/
theorem output_run (hrun : Path step anyStep w bs w') (h : w.Inv) (hdelivered : w.Delivered)
    (ht : w.db.tickets.get? tid = some t) (hr : t.resource? w.db = some r) :
    ∃ t' r', w'.db.tickets.get? tid = some t' ∧ t'.resource? w'.db = some r' ∧
      r'.data = r.data := by
  refine (hrun.invariant (P := fun u : World => u.Inv ∧ u.Delivered ∧ ∃ t' r',
    u.db.tickets.get? tid = some t' ∧ t'.resource? u.db = some r' ∧ r'.data = r.data)
    ⟨h, hdelivered, t, r, ht, hr, rfl⟩ ?_).2.2
  rintro u a v ⟨hinv, hdelivered, t', r', ht', hr', hdata⟩ - hstep
  obtain ⟨t'', r'', ht'', hr'', hdata'⟩ := hinv.output_step hdelivered hstep ht' hr'
  exact ⟨hinv.step hstep, hdelivered.step hinv hstep, t'', r'', ht'', hr'', hdata'.trans hdata⟩

/-- What a run keeps of the state of a ticket. -/
theorem continues_run (hrun : Path step anyStep w bs w') (h : w.Inv)
    (ht : w.db.tickets.get? tid = some t) :
    ∃ t', w'.db.tickets.get? tid = some t' ∧ Ticket.Continues t t' := by
  refine (hrun.invariant (P := fun u : World => u.Inv ∧ ∃ t', u.db.tickets.get? tid = some t' ∧
    Ticket.Continues t t') ⟨h, t, ht, .refl t⟩ ?_).2
  rintro u a v ⟨hinv, t', ht', hcontinues⟩ - hstep
  obtain ⟨t'', ht'', hnext⟩ := hinv.ticket_continues hstep ht'
  exact ⟨hinv.step hstep, t'', ht'', hcontinues.trans hnext⟩

/-- Whatever happens later, a ticket that was reported ready stays ready with the same
output, a closed ticket stays closed, a failed one can only be closed, and no ticket
gets a second resource. -/
theorem Reaches.told (h : Reaches anyStep as w) (hlater : Path step anyStep w bs w')
    (tid : TicketId) :
    ((collectTicket tid w.db).ready = some true →
      (collectTicket tid w'.db).ready = some true ∧
        (collectTicket tid w'.db).output = (collectTicket tid w.db).output ∧
        ∀ later, waitTicket tid (w'.db :: later) =
          .ok (some (collectTicket tid w.db).output)) ∧
    ∀ t, w.db.tickets.get? tid = some t →
      ∃ t', w'.db.tickets.get? tid = some t' ∧ (t.state = .closed → t'.state = .closed) ∧
        (t.state = .failed → t'.state = .failed ∨ t'.state = .closed) ∧
        ∀ id, t.resourceId = some id → t'.resourceId = some id := by
  constructor
  · intro hready
    obtain ⟨t, r, ht, hr⟩ := collectTicket_ready.mp hready
    obtain ⟨t', r', ht', hr', hdata⟩ := output_run hlater h.inv h.delivered ht hr
    rw [collectTicket_output ht hr, collectTicket_output ht' hr', hdata]
    refine ⟨collectTicket_ready.mpr ⟨t', r', ht', hr'⟩, rfl, fun later => ?_⟩
    rw [waitTicket_ready ht' hr', hdata]
  · intro t ht
    obtain ⟨t', ht', hcontinues⟩ := continues_run hlater h.inv ht
    exact ⟨t', ht', hcontinues.closed, hcontinues.failed, hcontinues.resourceId⟩

/-- A ticket of the basic run is ready before it is closed, and after the resource was
decoupled from it. -/
theorem told_basicRun :
    ∃ output, (collectTicket 1 (after anyStep (basicRun ++ ticks basicConfig 6)
        (by decide +kernel)).db).ready = some true ∧
      (collectTicket 1 (after anyStep (basicRun ++ ticks basicConfig 6)
        (by decide +kernel)).db).output = output ∧
      ∀ later, waitTicket 1 ((after anyStep (basicRun ++ ticks basicConfig 6)
        (by decide +kernel)).db :: later) = .ok (some output) :=
  have hlater : Path step anyStep (after anyStep basicRun (by decide +kernel)) (ticks basicConfig 6)
      (after anyStep (basicRun ++ ticks basicConfig 6) (by decide +kernel)) :=
    Path.of_execWithin (by decide +kernel)
  ⟨_, (Reaches.told (reaches_after anyStep basicRun _) hlater 1).1 (by decide +kernel)⟩

end World

end Resalloc
