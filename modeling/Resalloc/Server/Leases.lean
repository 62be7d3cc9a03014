import Resalloc.Foundations.Leases
import Resalloc.Server.Isolation

/-!
# The server lends resources

What the server is for: it lends resources to tickets.  The two-way link, the states of both
tables and the passes of the manager implement the lease protocol, and every run of the server,
with all its threads and restarts, is a run of that protocol in which the clients see the same
tickets taken, served and closed in the same order.

Main results:

- Definition {lit}`Db.leases`: the state of the protocol that a database stands for.
- Theorem {lit}`World.Inv.lends`: one action is a run of the protocol.
- Theorem {lit}`World.Reaches.refines_leases`: a run of the server is one, with the same events.
- Theorem {lit}`World.Reaches.lent_exclusively`: no ticket is served twice, and no resource serves a
  ticket before the one it served was closed.
-/

namespace Resalloc

open Foundations

/-! ## The state of the protocol -/

/-- What became of a ticket. -/
def TState.stage : TState → Stage
  | .opened => .opened
  | .closed => .finished
  | .failed => .failed

/-- What became of a resource. -/
def RState.phase : RState → Phase
  | .starting | .releasing => .busy
  | .up => .offered
  | .deleteRequest | .deleting | .ended => .retired

/-- The ticket that a resource works for.  A leaving resource keeps the number of its last
ticket, and works for nobody. -/
def Resource.worksFor (r : Resource) : Option TicketId :=
  if r.state = .up then r.ticketId else none

/-- The leases of a database. -/
def Db.leases (db : Db) : Leases TicketId ResourceId where
  stage tid := (db.tickets.get? tid).map fun t => t.state.stage
  given tid := (db.tickets.get? tid).bind Ticket.resourceId
  phase id := (db.resources.get? id).map fun r => r.state.phase
  holder id := (db.resources.get? id).bind Resource.worksFor

/-- What the clients of the server see of an action. -/
def World.leaseEvent? (w : World) (a : Action) : Option (LeaseEvent TicketId ResourceId) :=
  match a with
  | .takeTicket tags _ => if tags.Nodup then some (.request w.db.tickets.nextId) else none
  | .closeTicket tid => (w.db.tickets.get? tid).map fun _ => .finish tid
  | .manager i => (w.assignment? (.manager i)).map fun given => .give given.2 given.1
  | _ => none

section States

variable {db db' : Db} {id : ResourceId} {r : Resource} {tid : TicketId} {t : Ticket}

/-- A resource that is not UP works for nobody. -/
theorem Resource.worksFor_of_ne_up (h : r.state ≠ .up) : r.worksFor = none :=
  if_neg h

/-- A resource is retired when it leaves. -/
theorem RState.phase_retired {s : RState} : s.phase = .retired ↔ s.leaving = true := by
  cases s <;> simp [phase, leaving]

/-- Only tickets and resources have leases. -/
theorem Db.leases_congr (htickets : db'.tickets = db.tickets)
    (hresources : db'.resources = db.resources) : db'.leases = db.leases := by
  simp only [leases, htickets, hresources]

/-- The leases after a rewrite of a resource. -/
theorem Db.leases_modifyResource {f : Resource → Resource}
    (hr : db.resources.get? id = some r) :
    (db.modifyResource id f).leases =
      { db.leases with
        phase := Function.update db.leases.phase id (some (f r).state.phase)
        holder := Function.update db.leases.holder id (f r).worksFor } := by
  simp only [leases, modifyResource_tickets, modifyResource_resources, Leases.mk.injEq]
  refine ⟨trivial, trivial, ?_, ?_⟩
  · ext j : 1
    by_cases hj : j = id
    · simp [hj, hr]
    · simp [IdTable.get?_modify_of_ne hj, hj]
  · ext j : 1
    by_cases hj : j = id
    · simp [hj, hr]
    · simp [IdTable.get?_modify_of_ne hj, hj]

/-- A rewrite that keeps the phase and the ticket of a resource keeps the leases. -/
theorem Db.leases_modifyResource_same {f : Resource → Resource}
    (hf : ∀ r, db.resources.get? id = some r →
      (f r).state.phase = r.state.phase ∧ (f r).worksFor = r.worksFor) :
    (db.modifyResource id f).leases = db.leases := by
  cases hr : db.resources.get? id with
  | none =>
      have hsame : db.resources.modify id f = db.resources := by
        apply IdTable.ext_get?
        intro j
        by_cases hj : j = id
        · simp [hj, hr]
        · rw [IdTable.get?_modify_of_ne hj]
      exact leases_congr rfl hsame
  | some r =>
      obtain ⟨hphase, hworks⟩ := hf r hr
      rw [leases_modifyResource hr, hphase, hworks]
      have hp : some r.state.phase = db.leases.phase id := by simp [leases, hr]
      have hw : r.worksFor = db.leases.holder id := by simp [leases, hr]
      rw [hp, hw, Function.update_eq_self, Function.update_eq_self]

/-- The leases after a rewrite of a ticket. -/
theorem Db.leases_modifyTicket {f : Ticket → Ticket} (ht : db.tickets.get? tid = some t) :
    (db.modifyTicket tid f).leases =
      { db.leases with
        stage := Function.update db.leases.stage tid (some (f t).state.stage)
        given := Function.update db.leases.given tid (f t).resourceId } := by
  simp only [leases, modifyTicket_tickets, modifyTicket_resources, Leases.mk.injEq]
  refine ⟨?_, ?_, trivial, trivial⟩
  · ext j : 1
    by_cases hj : j = tid
    · simp [hj, ht]
    · simp [IdTable.get?_modify_of_ne hj, hj]
  · ext j : 1
    by_cases hj : j = tid
    · simp [hj, ht]
    · simp [IdTable.get?_modify_of_ne hj, hj]

/-- Nothing is lent by an empty database. -/
theorem Db.leases_empty : ({} : Db).leases = Leases.empty := by
  simp [leases, Leases.empty]

end States

/-! ## Passes over many resources -/

section Passes

variable {db db' : Db}

/-- Tables that differ in resources that have left, and in open tickets that have failed. -/
structure Db.Retired (db db' : Db) : Prop where
  linked : Linked db
  linked' : Linked db'
  resources : ∀ id, db'.resources.get? id = db.resources.get? id ∨
    ∃ r r', db.resources.get? id = some r ∧ db'.resources.get? id = some r' ∧
      (r.state.leaving = true → r'.state.leaving = true) ∧
      (r'.state.leaving = true ∨ r'.state = r.state ∧ r'.ticketId = r.ticketId)
  tickets : ∀ tid, db'.tickets.get? tid = db.tickets.get? tid ∨
    ∃ t, db.tickets.get? tid = some t ∧ t.resourceId ≠ none ∧ t.state = .opened ∧
      db'.tickets.get? tid = some { t with state := .failed }

/-- The resources that have left. -/
def Db.newlyLeaving (db db' : Db) : List ResourceId :=
  (db.resources.entries.map Prod.fst).filter fun id =>
    db.leases.phase id ≠ some .retired ∧ db'.leases.phase id = some .retired

theorem Db.mem_newlyLeaving {id : ResourceId} :
    id ∈ db.newlyLeaving db' ↔ (∃ r, db.resources.get? id = some r ∧ r.state.leaving = false) ∧
      ∃ r', db'.resources.get? id = some r' ∧ r'.state.leaving = true := by
  simp only [newlyLeaving, List.mem_filter, List.mem_map, Prod.exists, exists_and_right,
    exists_eq_right, IdTable.mem_entries, decide_eq_true_eq, leases, Option.map_eq_some_iff, ne_eq,
    RState.phase_retired]
  grind

/-- What is not among them has the same phase and works for the same ticket. -/
theorem Db.Retired.kept (h : db.Retired db') {id : ResourceId} (hid : id ∉ db.newlyLeaving db') :
    db'.leases.phase id = db.leases.phase id ∧ db'.leases.holder id = db.leases.holder id := by
  rcases h.resources id with heq | ⟨r, r', hr, hr', hleaves, hchange⟩
  · simp [leases, heq]
  · simp only [leases, hr, hr', Option.map_some, Option.bind_some, Option.some.injEq]
    by_cases hleaving : r'.state.leaving = true
    · have hbefore : r.state.leaving = true := by
        by_contra hnot
        exact hid (mem_newlyLeaving.mpr ⟨⟨r, hr, by simpa using hnot⟩, r', hr', hleaving⟩)
      rw [RState.phase_retired.mpr hleaving, RState.phase_retired.mpr hbefore]
      refine ⟨rfl, ?_⟩
      rw [Resource.worksFor_of_ne_up, Resource.worksFor_of_ne_up]
      · rintro hup
        simp [hup, RState.leaving] at hbefore
      · rintro hup
        simp [hup, RState.leaving] at hleaving
    · obtain ⟨hstate, hticket⟩ := hchange.resolve_left hleaving
      simp [Resource.worksFor, hstate, hticket]

/-- An open ticket fails when its resource leaves. -/
theorem Db.Retired.stage (h : db.Retired db') (tid : TicketId) :
    db'.leases.stage tid =
      if (∃ id ∈ db.newlyLeaving db', db.leases.holder id = some tid) ∧
          db.leases.stage tid = some .opened then some .failed
      else db.leases.stage tid := by
  rcases h.tickets tid with heq | ⟨t, ht, hid, hopened, ht'⟩
  · rw [if_neg]
    · simp [leases, heq]
    · rintro ⟨⟨id, hleft, hholder⟩, hstage⟩
      obtain ⟨⟨r, hr, -⟩, r', hr', hleaving⟩ := mem_newlyLeaving.mp hleft
      -- the ticket would still be open and its resource would have left
      have hticket : r.ticketId = some tid := by
        simp only [leases, hr, Option.bind_some, Resource.worksFor] at hholder
        split_ifs at hholder
        exact hholder
      obtain ⟨t, ht, hback⟩ := h.linked.pointsBack hr hticket
      have hopened : t.state = .opened := by
        simp only [leases, ht, Option.map_some, Option.some.injEq] at hstage
        cases hstate : t.state <;> simp_all [TState.stage]
      obtain ⟨r'', hr'', hup, -⟩ := h.linked'.resource (heq.trans ht) hback
      obtain rfl := Option.some.inj (hr'.symm.trans hr'')
      simp [(hup hopened).1, RState.leaving] at hleaving
  · obtain ⟨id, hlink⟩ := Option.ne_none_iff_exists'.mp hid
    obtain ⟨r, hr, hup, -⟩ := h.linked.resource ht hlink
    obtain ⟨hstate, hticket⟩ := hup hopened
    obtain ⟨r', hr', -, hfailed⟩ := h.linked'.resource ht' hlink
    have hleft : id ∈ db.newlyLeaving db' := by
      apply mem_newlyLeaving.mpr
      exact ⟨⟨r, hr, by simp [hstate, RState.leaving]⟩, r', hr', hfailed rfl⟩
    rw [if_pos]
    · simp [leases, ht', TState.stage]
    · refine ⟨⟨id, hleft, ?_⟩, ?_⟩
      · simp [leases, hr, Resource.worksFor, hstate, hticket]
      · simp [leases, ht, hopened, TState.stage]

/-- Such tables are a run of the protocol apart, which retires the resources. -/
theorem Db.Retired.path (h : db.Retired db') :
    Path Leases.step anyStep db.leases ((db.newlyLeaving db').map .retire) db'.leases := by
  have hnodup : (db.newlyLeaving db').Nodup := db.resources.entries_nodup.filter _
  have hrun := Leases.retireAll_path (s := db.leases) hnodup fun id hid => by
    obtain ⟨⟨r, hr, hstays⟩, -⟩ := mem_newlyLeaving.mp hid
    simp only [leases, hr, Option.map_some, Option.some.injEq]
    cases hstate : r.state <;> simp_all [RState.phase, RState.leaving]
  have heq : db.leases.retireAll (db.newlyLeaving db') = db'.leases := by
    simp only [Leases.retireAll]
    rw [show db'.leases = ⟨db'.leases.stage, db'.leases.given, db'.leases.phase,
      db'.leases.holder⟩ from rfl, Leases.mk.injEq]
    refine ⟨?_, ?_, ?_, ?_⟩
    · ext tid : 1
      exact (h.stage tid).symm
    · ext tid : 1
      rcases h.tickets tid with heq | ⟨t, ht, -, -, ht'⟩
      · simp [leases, heq]
      · simp [leases, ht, ht']
    · ext id : 1
      split_ifs with hid
      · obtain ⟨-, r', hr', hleaving⟩ := mem_newlyLeaving.mp hid
        simp [leases, hr', RState.phase_retired.mpr hleaving]
      · exact (h.kept hid).1.symm
    · ext id : 1
      split_ifs with hid
      · obtain ⟨-, r', hr', hleaving⟩ := mem_newlyLeaving.mp hid
        have hnot : r'.state ≠ .up := fun hup => by simp [hup, RState.leaving] at hleaving
        simp [leases, hr', Resource.worksFor_of_ne_up hnot]
      · exact (h.kept hid).2.symm
  rw [← heq]
  exact hrun

/-- The resources that a pool takes back from closed tickets. -/
def Pool.closing (p : Pool) (db : Db) : List ResourceId :=
  (db.resources.entries.map Prod.fst).filter fun id =>
    (db.resources.get? id).any fun r => p.Closing db r

theorem Pool.mem_closing {p : Pool} {id : ResourceId} :
    id ∈ p.closing db ↔ ∃ r, db.resources.get? id = some r ∧ p.Closing db r := by
  simp only [closing, List.mem_filter, List.mem_map, Prod.exists, exists_and_right,
    exists_eq_right, IdTable.mem_entries, Option.any_eq_true, decide_eq_true_eq]
  grind

/-- The decoupling of closed tickets takes their resources back. -/
theorem Pool.Decouples.path {p : Pool} {now : Time} {closed : List ResourceId}
    (h : p.Decouples now db db' closed) :
    Path Leases.step anyStep db.leases
      ((p.closing db).map fun id => .reclaim id (truthy p.cmdRelease)) db'.leases := by
  have htickets : db'.tickets = db.tickets := by rw [h.frame]
  have hnodup : (p.closing db).Nodup := db.resources.entries_nodup.filter _
  have hrun := Leases.reclaimAll_path (s := db.leases) (truthy p.cmdRelease) hnodup fun id hid => by
    obtain ⟨r, hr, -, hup, hclosed⟩ := mem_closing.mp hid
    obtain ⟨t, ht, hstate⟩ := (Option.any_eq_true _ _).mp hclosed
    obtain ⟨tid, htid, ht⟩ := Option.bind_eq_some_iff.mp ht
    refine ⟨tid, ?_, ?_⟩
    · simp [Db.leases, hr, Resource.worksFor, hup, htid]
    · simp [Db.leases, ht, of_decide_eq_true hstate, TState.stage]
  have heq : db.leases.reclaimAll (p.closing db) (truthy p.cmdRelease) = db'.leases := by
    simp only [Leases.reclaimAll, Db.leases, htickets, Leases.mk.injEq]
    refine ⟨trivial, trivial, ?_, ?_⟩
    · ext id : 1
      rw [h.row]
      cases hr : db.resources.get? id with
      | none => simp [mem_closing, hr]
      | some r =>
          by_cases hclosing : p.Closing db r
          · by_cases hrelease : truthy p.cmdRelease = true <;>
              simp [mem_closing, hr, hclosing, hrelease, Resource.decoupled, Resource.released,
                RState.phase]
          · simp [mem_closing, hr, hclosing]
    · ext id : 1
      rw [h.row]
      cases hr : db.resources.get? id with
      | none => simp [mem_closing, hr]
      | some r =>
          by_cases hclosing : p.Closing db r
          · by_cases hrelease : truthy p.cmdRelease = true <;>
              simp [mem_closing, hr, hclosing, Resource.decoupled, Resource.released,
                Resource.worksFor]
          · simp [mem_closing, hr, hclosing]
  rw [← heq]
  exact hrun

end Passes

/-! ## One action -/

namespace World

variable {w w' : World} {a : Action} {as : List Action}

/-- An action is a run of the protocol with the same events for the clients. -/
def Lends (w : World) (a : Action) (w' : World) : Prop :=
  ∃ es, Path Leases.step anyStep w.db.leases es w'.db.leases ∧
    es.filter LeaseEvent.visible = (w.leaseEvent? a).toList

/-- An action without a lease event that keeps the leases. -/
theorem Lends.nothing (hevent : w.leaseEvent? a = none) (hsame : w'.db.leases = w.db.leases) :
    w.Lends a w' :=
  ⟨[], hsame ▸ .refl, by simp [hevent]⟩

/-- An action that is one event. -/
theorem Lends.single {e : LeaseEvent TicketId ResourceId}
    (hevent : (w.leaseEvent? a).toList = [e].filter LeaseEvent.visible)
    (hsteps : w.db.leases.Steps e w'.db.leases) : w.Lends a w' :=
  ⟨[e], hsteps.path, hevent.symm⟩

/-- An action by which resources leave. -/
theorem Lends.retired (hevent : w.leaseEvent? a = none) (h : w.db.Retired w'.db) : w.Lends a w' :=
  ⟨_, h.path, by simp [hevent, List.filter_map, Function.comp_def, LeaseEvent.visible]⟩

/-- An action that rewrites one resource of a worker: it is retired, offered again, or nothing
happens to it. -/
theorem Inv.lends_row (h : w.Inv) (h' : w'.Inv) (hevent : w.leaseEvent? a = none)
    {id : ResourceId} {r : Resource} {f : Resource → Resource}
    (hr : w.db.resources.get? id = some r) (htickets : w'.db.tickets = w.db.tickets)
    (hresources : w'.db.resources = w.db.resources.modify id f)
    (hf : (f r).state.leaving = true ∨
      r.state.phase = .busy ∧ (f r).state = .up ∧ (f r).ticketId = none)
    (hleaving : r.state.leaving = true → (f r).state.leaving = true) : w.Lends a w' := by
  rcases hf with hleft | ⟨hbusy, hup, hidle⟩
  · apply Lends.retired hevent
    refine ⟨h.linked, h'.linked, fun j => ?_, fun tid => ?_⟩
    · rw [hresources]
      by_cases hj : j = id
      · subst hj
        exact .inr ⟨r, f r, hr, by simp [hr], hleaving, .inl hleft⟩
      · exact .inl (IdTable.get?_modify_of_ne hj _ _)
    · exact .inl (by rw [htickets])
  · have hlent : r.worksFor = none := by
      apply Resource.worksFor_of_ne_up
      rintro hstate
      simp [hstate, RState.phase] at hbusy
    have hphase : w.db.leases.phase id = some .busy := by simp [Db.leases, hr, hbusy]
    have hholder : w.db.leases.holder id = none := by simp [Db.leases, hr, hlent]
    apply Lends.single (e := .offer id) (by simp [hevent, LeaseEvent.visible])
    have hoffer := Leases.Steps.offer hphase
    have hafter : w'.db.leases = (w.db.modifyResource id f).leases :=
      Db.leases_congr htickets hresources
    rw [hafter, Db.leases_modifyResource hr, hup, Resource.worksFor, if_pos hup, hidle,
      ← hholder, Function.update_eq_self]
    exact hoffer

/-- An assignment lends a resource. -/
theorem Inv.lends_assigned (h : w.Inv) {id : ResourceId} {tid : TicketId}
    (hassign : w.assignment? a = some (id, tid)) (hstep : w.step a = some w') : w.Lends a w' := by
  obtain ⟨i, c, queue, queue', ids, rfl, hmanager, hpop, hchoose, rfl⟩ :=
    step_of_assignment hassign hstep
  obtain ⟨t, r, ht, hr, hup, hfree, -, -⟩ := chooseResource_some hchoose
  have hmem : tid ∈ queue.tasks := (h.queued.wf hmanager).popTask_mem (by rw [hpop])
  obtain ⟨t₀, ht₀, hwaiting, hstate⟩ := h.queued.waiting hmanager hmem
  obtain rfl := Option.some.inj (ht.symm.trans ht₀)
  have hstage : w.db.leases.stage tid = some .opened ∨
      w.db.leases.stage tid = some .finished := by
    cases hcase : t.state <;> simp_all [Db.leases, TState.stage]
  have hgive := Leases.Steps.give (s := w.db.leases) (t := tid) (r := id) hstage
    (by simp [Db.leases, ht, hwaiting]) (by simp [Db.leases, hr, hup, RState.phase])
    (by simp [Db.leases, hr, Resource.worksFor, hup, hfree])
  have hafter : (assignTicket w.db id tid i.uuid.1 i.now).1.leases = { w.db.leases with
      given := Function.update w.db.leases.given tid (some id)
      holder := Function.update w.db.leases.holder id (some tid) } := by
    simp only [Db.leases, Leases.mk.injEq]
    refine ⟨?_, ?_, ?_, ?_⟩
    · ext j : 1
      by_cases hj : j = tid <;> simp [hj, ht, Ticket.assigned]
    · ext j : 1
      by_cases hj : j = tid <;> simp [hj, ht, Ticket.assigned]
    · ext j : 1
      rw [assignTicket_resource _ _ _ _ _ ht]
      by_cases hj : j = id <;> simp [hj, hr, Resource.assigned]
    · ext j : 1
      rw [assignTicket_resource _ _ _ _ _ ht]
      by_cases hj : j = id <;> simp [hj, hr, Resource.assigned, Resource.worksFor, hup]
  apply Lends.single (e := .give tid id)
  · rw [leaseEvent?, hassign]
    rfl
  · rw [hafter]
    exact hgive

/-- A step of the manager is a run of the protocol. -/
theorem Inv.lends_manager (h : w.Inv) {i : Input} (hstep : w.step (.manager i) = some w') :
    w.Lends (.manager i) w' := by
  have h' := h.step hstep
  cases hassign : w.assignment? (.manager i) with
  | some given => exact h.lends_assigned hassign hstep
  | none =>
      have hevent : w.leaseEvent? (.manager i) = none := by simp [leaseEvent?, hassign]
      cases step_cases hstep with
      | @manager i db started pc hpc =>
          generalize hmanager : w.manager = m at hpc
          cases hpc with
          | load _ hresources htickets =>
              exact Lends.nothing hevent (Db.leases_congr htickets hresources)
          | detectClosed hdetect =>
              refine ⟨_, (h.linked.decouples hdetect).path, ?_⟩
              simp [hevent, List.filter_map, Function.comp_def, LeaseEvent.visible]
          | @removal c p rest _ hremoval =>
              have hretires := (h.linked.removes hremoval).retires
              apply Lends.retired hevent
              refine ⟨h.linked, h'.linked, fun j => ?_, hretires.tickets⟩
              rcases hretires.resources j with heq | ⟨r, hr, -, -, hr'⟩
              · exact .inl heq
              · exact .inr ⟨r, _, hr, hr', fun _ => rfl, .inl rfl⟩
          | @allocate c rest _ id p p' hp hallocate =>
              obtain ⟨rfl, htickets, name, hget⟩ := allocate_ok hallocate
              have henrol := Leases.Steps.enrol (s := w.db.leases) (r := w.db.resources.nextId)
                (by simp [Db.leases])
              have hafter : db.leases = { w.db.leases with
                  phase := Function.update w.db.leases.phase w.db.resources.nextId
                    (some .busy) } := by
                simp only [Db.leases, htickets, Leases.mk.injEq]
                refine ⟨trivial, trivial, ?_, ?_⟩
                · ext j : 1
                  by_cases hj : j = w.db.resources.nextId <;>
                    simp [hget, hj, Pool.newResource, RState.phase]
                · ext j : 1
                  by_cases hj : j = w.db.resources.nextId <;>
                    simp [hget, hj, Pool.newResource, Resource.worksFor]
              apply Lends.single (e := .enrol w.db.resources.nextId)
              · rw [hevent]
                rfl
              · exact hafter ▸ henrol
          | assigned hpop hchoose =>
              rw [assignment?_of_assign hmanager hpop hchoose i] at hassign
              contradiction
          | stop | plan | garbage | wantsMore | hasEnough | tooSoon | soonEnough | cleanUnknown
            | keepUnknown | markCleaned | collect | skipped | served =>
              exact Lends.nothing hevent rfl

/-- A step of a worker is a run of the protocol. -/
theorem Inv.lends_worker (h : w.Inv) {k : ℕ} {i : Input}
    (hstep : w.step (.worker k i) = some w') : w.Lends (.worker k i) w' := by
  have h' := h.step hstep
  cases step_cases hstep with
  | @worker k i worker db next hworker hrunning hwstep =>
      have hruns := runs_of_running hworker hrunning
      cases hwstep with
      | @started id s output _ hok hjob htickets hresources =>
          rw [hjob] at hruns
          obtain ⟨r, hr, hstate, -⟩ := h.owned.alloc hruns
          have hidle : r.ticketId = none := h.linked.idle hr (.inl hstate)
          apply h.lends_row h' rfl hr htickets hresources
          · by_cases hstatus : output.status = 0
            · refine .inr ⟨?_, ?_, hidle⟩
              · simp [hstate, RState.phase]
              · simp [Resource.started, hstatus]
            · exact .inl (by simp [Resource.started, hstatus, RState.leaving])
          · simp [hstate, RState.leaving]
      | @terminating id hok hjob =>
          rw [hjob] at hruns
          obtain ⟨r, hr, hleaving⟩ := h.owned.terminate hruns
          exact h.lends_row h' rfl hr rfl rfl (.inl rfl) fun _ => rfl
      | @ended id _ hok hjob htickets hresources =>
          rw [hjob] at hruns
          obtain ⟨r, hr, hleaving⟩ := h.owned.terminate hruns
          exact h.lends_row h' rfl hr htickets hresources (.inl rfl) fun _ => rfl
      | @returned id status hok hjob =>
          rw [hjob] at hruns
          obtain ⟨r, hr, hstate, -⟩ := h.owned.release hruns
          have hidle : r.ticketId = none := h.linked.idle hr (.inr hstate)
          apply h.lends_row h' rfl hr rfl rfl
          · exact .inr ⟨by simp [hstate, RState.phase], rfl, hidle⟩
          · simp [hstate, RState.leaving]
      | raised | moved | cleaned | gaveUp => exact Lends.nothing rfl rfl

/-- A new ticket is a request. -/
theorem lends_takeTicket {tags : List String} (sandbox : Option String)
    (hstep : w.step (.takeTicket tags sandbox) = some w') :
    w.Lends (.takeTicket tags sandbox) w' := by
  simp only [step, Resalloc.takeTicket] at hstep
  split_ifs at hstep with htags
  all_goals obtain rfl := Option.some.inj hstep
  · have hrequest := Leases.Steps.request (s := w.db.leases) (t := w.db.tickets.nextId)
      (by simp [Db.leases])
    have hafter : Db.leases { w.db with
        tickets := w.db.tickets.push { sandbox := sandbox, tags := tags } } = { w.db.leases with
        stage := Function.update w.db.leases.stage w.db.tickets.nextId (some .opened) } := by
      simp only [Db.leases, Leases.mk.injEq]
      refine ⟨?_, ?_, trivial, trivial⟩
      · ext j : 1
        by_cases hj : j = w.db.tickets.nextId <;> simp [IdTable.get?_push, hj, TState.stage]
      · ext j : 1
        by_cases hj : j = w.db.tickets.nextId <;> simp [IdTable.get?_push, hj]
    apply Lends.single (e := .request w.db.tickets.nextId)
    · rw [leaseEvent?, if_pos htags]
      rfl
    · exact hafter ▸ hrequest
  · exact Lends.nothing (if_neg htags) rfl

/-- Closing a ticket finishes its request. -/
theorem lends_closeTicket {tid : TicketId} (hstep : w.step (.closeTicket tid) = some w') :
    w.Lends (.closeTicket tid) w' := by
  simp only [step, Resalloc.closeTicket] at hstep
  cases ht : w.db.tickets.get? tid with
  | none =>
      simp only [ht] at hstep
      obtain rfl := Option.some.inj hstep
      exact Lends.nothing (by simp [leaseEvent?, ht]) rfl
  | some t =>
      simp only [ht] at hstep
      obtain rfl := Option.some.inj hstep
      have hfinish := Leases.Steps.finish (s := w.db.leases) (t := tid) (by simp [Db.leases, ht])
      have hafter := Db.leases_modifyTicket (f := fun t => { t with state := .closed }) ht
      have hgiven : t.resourceId = w.db.leases.given tid := by simp [Db.leases, ht]
      simp only [hgiven, Function.update_eq_self] at hafter
      apply Lends.single (e := .finish tid)
      · rw [leaseEvent?, ht]
        rfl
      · exact hafter ▸ hfinish

/-- Every action is a run of the protocol. -/
theorem Inv.lends (h : w.Inv) (hstep : w.step a = some w') : w.Lends a w' := by
  have h' := h.step hstep
  cases step_cases hstep with
  | manager => exact h.lends_manager hstep
  | worker => exact h.lends_worker hstep
  | watched => exact Lends.nothing rfl rfl
  | checked i id status pc =>
      exact Lends.nothing rfl (Db.leases_modifyResource_same fun r _ => ⟨rfl, rfl⟩)
  | takeTicket sandbox | notTaken sandbox => exact lends_takeTicket sandbox hstep
  | closeTicket tid | notClosed tid => exact lends_closeTicket hstep
  | resourceDelete => exact Lends.nothing rfl rfl
  | kill k id =>
      apply Lends.retired rfl
      refine ⟨h.linked, h'.linked, fun j => ?_, fun tid => ?_⟩
      · rw [kill_resource]
        split_ifs with hj
        · cases hr : w.db.resources.get? j with
          | none => exact .inl rfl
          | some r =>
              refine .inr ⟨r, r.requested, rfl, rfl, fun hleaving => ?_, ?_⟩
              · exact Resource.requested_leaving hleaving
              · by_cases hup : r.state = .up
                · exact .inl (by simp [Resource.requested, hup, RState.leaving])
                · exact .inr ⟨by simp [Resource.requested, hup], by simp⟩
        · exact .inl rfl
      · rw [kill_ticket]
        cases ht : w.db.tickets.get? tid with
        | none => exact .inl rfl
        | some t =>
            by_cases hkilled : t.resourceId = some id ∧ t.state = .opened
            · refine .inr ⟨t, rfl, by simp [hkilled.1], hkilled.2, ?_⟩
              simp [Ticket.killedWith, hkilled]
            · exact .inl (by simp [Ticket.killedWith, hkilled])
  | restart importTime =>
      apply Lends.retired rfl
      refine ⟨h.linked, h'.linked, fun j => ?_, fun tid => .inl rfl⟩
      rw [fixBrokenAfterRestart_resource]
      cases hr : w.db.resources.get? j with
      | none => exact .inl rfl
      | some r =>
          by_cases hbroken : r.state.inconsistent = true
          · exact .inr ⟨r, r.retired, rfl, by simp [hbroken, Resource.retired],
              fun _ => rfl, .inl rfl⟩
          · exact .inl (by simp [hbroken])

/-! ## Every run -/

/-- A run of the server is a run of the protocol in which the clients see the same tickets
taken, served and closed in the same order. -/
theorem Reaches.refines_leases (h : Reaches anyStep as w) :
    ∃ es, Path Leases.step anyStep Leases.empty es w.db.leases ∧
      es.filter LeaseEvent.visible = observe leaseEvent? step init as := by
  induction h with
  | refl =>
      refine ⟨[], ?_, rfl⟩
      rw [init, Db.leases_empty]
      exact .refl
  | @snoc as w w' a hprev _ hstep ih =>
      obtain ⟨es, hrun, hevents⟩ := ih
      obtain ⟨es', hrun', hevents'⟩ := (Reaches.inv hprev).lends hstep
      refine ⟨es ++ es', hrun.append hrun', ?_⟩
      rw [List.filter_append, hevents, hevents', hprev.observe_snoc leaseEvent? hstep]

/-- In every run no ticket is served twice, and when a resource serves a second ticket, a client
has closed the first one before. -/
theorem Reaches.lent_exclusively (h : Reaches anyStep as w) :
    ((observe leaseEvent? step init as).filterMap LeaseEvent.serves?).Nodup ∧
      ∀ pre mid post t t' r,
        observe leaseEvent? step init as = pre ++ .give t r :: mid ++ .give t' r :: post →
          .finish t ∈ pre ++ mid := by
  obtain ⟨es, hrun, hevents⟩ := h.refines_leases
  constructor
  · rw [← hevents, Leases.serves_visible]
    exact Leases.given_once hrun
  · intro pre mid post t t' r hobserved
    exact Leases.finished_between_visible hrun (hevents.trans hobserved)

/-- What the clients see of the basic run: its ticket is taken, served and closed. -/
theorem refines_leases_basicRun :
    ∃ w es, Reaches anyStep basicRun w ∧ Path Leases.step anyStep Leases.empty es w.db.leases ∧
      es.filter LeaseEvent.visible = [.request 1, .give 1 1, .finish 1] := by
  have hobserved : observe leaseEvent? step init basicRun = [.request 1, .give 1 1, .finish 1] := by
    decide +kernel
  have hrun := reaches_after anyStep basicRun (by decide +kernel)
  obtain ⟨es, hleases, hevents⟩ := Reaches.refines_leases hrun
  exact ⟨_, es, hrun, hleases, hevents.trans hobserved⟩

/-- A resource serves two tickets one after another. -/
theorem lent_exclusively_reusingRun :
    observe leaseEvent? step init reusingRun =
        [.request 1, .give 1 1, .finish 1, .request 2, .give 2 1] ∧
      (.finish 1 : LeaseEvent TicketId ResourceId) ∈ [.request 1, .finish 1, .request 2] := by
  have hobserved : observe leaseEvent? step init reusingRun =
      [.request 1] ++ .give 1 1 :: [.finish 1, .request 2] ++ .give 2 1 :: [] := by
    decide +kernel
  have hrun := reaches_after anyStep reusingRun (by decide +kernel)
  exact ⟨hobserved, (Reaches.lent_exclusively hrun).2 _ _ _ _ _ _ hobserved⟩

end World

end Resalloc
