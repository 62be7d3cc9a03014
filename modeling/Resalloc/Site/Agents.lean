import Resalloc.Site.System

/-!
# The resources of agents

An agent of the spawner stands for a ticket of the server, and its hooks are run with the output
of a resource.  The two daemons share nothing but the answers to calls, which the dispatcher uses
long after it got them, while the server goes on.

Main results:

- Definition {lit}`Site.WorksOn`: an agent works on a resource.
- Theorem {lit}`Site.Inv.step`: every move keeps the bond between the records of the spawner and the
  tickets of the server.
- Theorem {lit}`Site.agents_apart`: agents with data work on resources of their own.
- Theorem {lit}`Site.hooks_over`: the server takes a resource back when the hooks of its agent are
  over.
-/

namespace Resalloc

open Foundations

/-! ## Steps of the spawner -/

namespace Spawner

namespace DispatcherPc

/-- The data that the dispatcher is going to record. -/
def telling? : DispatcherPc → Option (TicketId × String)
  | .setData data ticketId _ => some (ticketId, data)
  | _ => none

/-- No data are on their way at a round of a loop. -/
@[simp]
theorem telling?_of_loops {pc : DispatcherPc} (h : pc.loops = true) : pc.telling? = none := by
  cases pc <;> first | rfl | contradiction

@[simp]
theorem telling?_nextDetect {tids : List TicketId} : (nextDetect tids).telling? = none := by
  cases tids <;> rfl

/-- The dispatcher records the data that it was told. -/
theorem telling?_step {opts : Opts} {i : Input} {st st' : Store} {pc pc' : DispatcherPc}
    (h : pc.step opts i st = some (st', pc')) {ticketId : TicketId} {data : String}
    (htells : pc'.telling? = some (ticketId, data)) :
    pc.method? = some (.collectTicket ticketId) ∧ i.collected.ticketData = some data := by
  have hnone : pc'.telling? = none → pc.method? = some (.collectTicket ticketId) ∧
      i.collected.ticketData = some data := fun hnone => by simp [hnone] at htells
  cases pc with
  | ticketData k rest =>
      simp only [step] at h
      split at h
      next =>
        obtain ⟨rfl, rfl⟩ := Prod.mk.inj (Option.some.inj h)
        exact hnone (by simp)
      next told htold =>
        obtain ⟨rfl, rfl⟩ := Prod.mk.inj (Option.some.inj h)
        obtain ⟨rfl, rfl⟩ := Prod.mk.inj (Option.some.inj htells)
        exact ⟨rfl, htold⟩
  | _ =>
      have hsteps := step_cases h
      cases hsteps <;> exact hnone (by first | rfl | simp)

end DispatcherPc

namespace System

variable {opts : Opts} {s s' : System} {a : Action} {k : TicketId}

/-- Tickets are taken by one call. -/
theorem newTicket_of_taken {i : Input} (h : s.taken? (.dispatcher i) = some k) :
    ∃ group todo c, s.dispatcher = .newTicket group todo c ∧
      k = s.store.nextTicket + i.skipped := by
  simp only [taken?] at h
  split at h
  next heq hpc =>
    obtain rfl := Action.dispatcher.inj heq
    exact ⟨_, _, _, hpc, (Option.some.inj h).symm⟩
  next => contradiction

/-- Tickets are closed by one call. -/
theorem close_of_closed {i : Input} (h : s.closed? (.dispatcher i) = some k) :
    ∃ rest, s.dispatcher = .close k rest := by
  simp only [closed?] at h
  split at h
  next _ hpc =>
    obtain rfl := Option.some.inj h
    exact ⟨_, hpc⟩
  next => contradiction

/-- Identifiers of tickets grow. -/
theorem nextTicket_step (hstep : System.step opts s a = some s') :
    s.taken? a = none ∧ s'.store.nextTicket = s.store.nextTicket ∨
      ∃ k, s.taken? a = some k ∧ s.store.nextTicket ≤ k ∧ s'.store.nextTicket = k + 1 := by
  cases step_cases hstep with
  | @dispatcher i store pc hpc =>
      generalize hdispatcher : s.dispatcher = before at hpc
      cases hpc with
      | newTicket group todo c =>
          right
          exact ⟨_, by simp [taken?, hdispatcher], Nat.le_add_right _ _, rfl⟩
      | die before e =>
          left
          refine ⟨?_, rfl⟩
          cases before <;> simp [taken?, hdispatcher]
          simp [System.step, hdispatcher, DispatcherPc.step] at hstep
      | _ => exact .inl ⟨by simp [taken?, hdispatcher], rfl⟩
  | returned _ hpc | handler _ hpc =>
      left
      cases hpc <;> exact ⟨rfl, rfl⟩
  | startTask | raised | kill | restart => exact .inl ⟨rfl, rfl⟩

/-- An agent is dropped after its ticket was closed. -/
theorem dropped_of_none (hstep : System.step opts s a = some s') (hsome : s.state k ≠ none)
    (hnone : s'.state k = none) : s.dispatcher.booked? = some (.closed k) := by
  have hswitch : ∀ (st : Store) ticketId state, (st.redis.read k).state ≠ none →
      ((st.setState ticketId state).redis.read k).state ≠ none := by
    intro st ticketId state hread
    rw [Store.read_setState]
    split_ifs
    · simp
    · exact hread
  cases step_cases hstep with
  | @dispatcher i store pc hpc =>
      generalize hdispatcher : s.dispatcher = before at hpc
      cases hpc with
      | setFailed | setTerminating | setPreparing | stop | setNew =>
          exact absurd hnone (hswitch _ _ _ hsome)
      | setData =>
          rw [state, Store.read_setData_state] at hnone
          exact absurd hnone hsome
      | setGroup =>
          rw [state, Store.setGroup, HashStore.read_write_field Agent.state (by simp) k] at hnone
          exact absurd hnone hsome
      | delete ticketId rest =>
          rw [state, Store.delete, HashStore.read_erase] at hnone
          split_ifs at hnone with hk
          · rw [hk]
            rfl
          · exact absurd hnone hsome
      | _ => exact absurd hnone hsome
  | returned _ hpc =>
      cases hpc with
      | prepared | unprepared | ended => exact absurd hnone (hswitch _ _ _ hsome)
      | ignored => exact absurd hnone hsome
  | handler _ hpc =>
      cases hpc <;> exact absurd hnone hsome
  | startTask | raised | kill | restart => exact absurd hnone hsome

/-- A worker gives its hook the data that it has read. -/
theorem handling_step (hstep : System.step opts s a = some s') {pc : HandlerPc} {data : String}
    (hlookup : s'.handlers.lookup k = some pc) (hdata : pc.ticketData? = some data) :
    s.handlers.lookup k = some pc ∨ (s.store.redis.read k).data = some data := by
  cases step_cases hstep with
  | dispatcher | restart => exact .inl hlookup
  | startTask =>
      rcases lookup_insert_some hlookup with ⟨-, rfl⟩ | hbefore
      · contradiction
      · exact .inl hbefore
  | raised | returned | kill => exact .inl (lookup_erase_some hlookup)
  | handler hbefore hpc =>
      rcases lookup_insert_some hlookup with ⟨rfl, rfl⟩ | hother
      · cases hpc with
        | take hread | terminate hread => exact .inr (hread.trans hdata)
        | taken | terminated => contradiction
      · exact .inl hother

/-- Only the dispatcher records data. -/
theorem data_step (hstep : System.step opts s a = some s') {data : String}
    (hdata : (s'.store.redis.read k).data = some data) :
    (s.store.redis.read k).data = some data ∨ s.dispatcher.telling? = some (k, data) := by
  have hswitch : ∀ (st : Store) ticketId state,
      ((st.setState ticketId state).redis.read k).data = (st.redis.read k).data :=
    fun st ticketId state => HashStore.read_write_field Agent.data (by simp) k
  cases step_cases hstep with
  | @dispatcher i store pc hpc =>
      generalize hdispatcher : s.dispatcher = before at hpc
      cases hpc with
      | setFailed | setTerminating | setPreparing | stop | setNew =>
          rw [hswitch] at hdata
          exact .inl hdata
      | setGroup =>
          rw [Store.setGroup, HashStore.read_write_field Agent.data (by simp) k] at hdata
          exact .inl hdata
      | setData told ticketId rest =>
          rw [Store.setData, HashStore.read_write] at hdata
          split_ifs at hdata with hk
          · obtain rfl := Option.some.inj hdata
            exact .inr (by rw [hk]; rfl)
          · exact .inl hdata
      | delete ticketId rest =>
          rw [Store.delete, HashStore.read_erase] at hdata
          split_ifs at hdata
          · contradiction
          · exact .inl hdata
      | _ => exact .inl hdata
  | returned _ hpc =>
      cases hpc with
      | prepared | unprepared | ended =>
          rw [hswitch] at hdata
          exact .inl hdata
      | ignored => exact .inl hdata
  | handler _ hpc =>
      cases hpc <;> exact .inl hdata
  | startTask | raised | kill | restart => exact .inl hdata

end System

end Spawner

/-! ## What the two daemons know of each other -/

/-- The server reports the output of a ticket, and this is how the spawner records it. -/
def Db.Reports (db : Db) (ticketId : TicketId) (data : String) : Prop :=
  ∃ t r output, db.tickets.get? ticketId = some t ∧ t.resource? db = some r ∧
    r.data = some output ∧ data = Base64.encode output

/-- What the dispatcher reads of an answer is what the server reports. -/
theorem World.Attached.reports_collected {w : World} (h : w.Attached) {ticketId : TicketId}
    {data : String}
    (hdata : (Spawner.Collected.ofServer (collectTicket ticketId w.db)).ticketData = some data) :
    w.db.Reports ticketId data := by
  have hready : (collectTicket ticketId w.db).ready = some true := by
    by_contra hnot
    simp [Spawner.Collected.ticketData, Spawner.Collected.ofServer, hnot] at hdata
  rw [Spawner.Collected.ticketData, Spawner.Collected.ofServer, if_pos hready] at hdata
  obtain ⟨t, r, ht, hr⟩ := collectTicket_ready.mp hready
  obtain ⟨id, hid, hrow⟩ := Option.bind_eq_some_iff.mp hr
  obtain ⟨output, houtput⟩ := Option.ne_none_iff_exists'.mp (h.output ht hid hrow)
  rw [collectTicket_output ht hr, houtput] at hdata
  exact ⟨t, r, output, ht, hr, houtput, (Option.some.inj hdata).symm⟩

/-- No action of the server changes what it reports. -/
theorem World.Inv.reports_step {w w' : World} {a : Action} (h : w.Inv) (hdelivered : w.Delivered)
    (hstep : w.step a = some w') {ticketId : TicketId} {data : String}
    (hreports : w.db.Reports ticketId data) : w'.db.Reports ticketId data := by
  obtain ⟨t, r, output, ht, hr, houtput, hdata⟩ := hreports
  obtain ⟨t', r', ht', hr', hsame⟩ := h.output_step hdelivered hstep ht hr
  exact ⟨t', r', output, ht', hr', hsame.trans houtput, hdata⟩

namespace Site

variable {opts : Spawner.Opts} {d d' : Site} {m : Move} {ms : List Move}
variable {taken closed lost : List TicketId} {k : TicketId}

/-- The bond between the records of the spawner and the tickets of the server. -/
structure Bond (taken closed : List TicketId) (d : Site) : Prop where
  /-- The server goes on with the identifiers after those that the spawner knows. -/
  next : d.spawner.store.nextTicket ≤ d.server.db.tickets.nextId
  distinct : taken.Nodup
  /-- An answer may be lost, so a ticket may be closed before the spawner knows. -/
  opened : ∀ k ∈ d.spawner.openTickets, ∃ t, d.server.db.tickets.get? k = some t ∧
    (t.state = .closed → d.spawner.state k = some .ended)
  finished : ∀ k ∈ closed, ∃ t, d.server.db.tickets.get? k = some t ∧ t.state = .closed
  told : ∀ k data, (d.spawner.store.redis.read k).data = some data → d.server.db.Reports k data
  telling : ∀ k data, d.spawner.dispatcher.telling? = some (k, data) → d.server.db.Reports k data
  handling : ∀ k pc data, d.spawner.handlers.lookup k = some pc → pc.ticketData? = some data →
    d.server.db.Reports k data

/-- A step of the server keeps the bond, unless it closes a ticket that the spawner needs. -/
theorem Bond.server_step (h : Bond taken closed d) (hinv : d.server.Inv)
    (hdelivered : d.server.Delivered) {a : Action} {w : World} (hstep : d.server.step a = some w)
    (hminds : ∀ k ∈ d.spawner.openTickets, a = .closeTicket k → d.spawner.state k = some .ended) :
    Bond taken closed { d with server := w } := by
  refine ⟨?_, h.distinct, fun k hk => ?_, fun k hk => ?_, ?_, ?_, ?_⟩
  · apply h.next.trans
    apply IdTable.nextId_le_of_get?
    intro j t ht
    obtain ⟨t', ht', -⟩ := hinv.ticket_continues hstep ht
    exact ⟨t', ht'⟩
  · obtain ⟨t, ht, hended⟩ := h.opened k hk
    obtain ⟨t', ht', hrow⟩ := (World.step_cases hstep).ticket hinv.linked ht
    refine ⟨t', ht', fun hclosed => ?_⟩
    cases hrow with
    | same | assigned => exact hended hclosed
    | closed => exact hminds k hk rfl
    | killed => simp at hclosed
  · obtain ⟨t, ht, hstate⟩ := h.finished k hk
    obtain ⟨t', ht', hcontinues⟩ := hinv.ticket_continues hstep ht
    exact ⟨t', ht', hcontinues.closed hstate⟩
  · exact fun k data hdata => hinv.reports_step hdelivered hstep (h.told k data hdata)
  · exact fun k data hdata => hinv.reports_step hdelivered hstep (h.telling k data hdata)
  · exact fun k pc data hlookup hdata =>
      hinv.reports_step hdelivered hstep (h.handling k pc data hlookup hdata)

/-- A step of the spawner keeps the bond, if the server has executed its calls. -/
theorem Bond.spawner_step (h : Bond taken closed d) (hattached : d.server.Attached)
    (hinv : Spawner.System.Inv opts d.spawner)
    (hbooks : Spawner.System.Accounted taken closed lost d.spawner)
    {a : Spawner.Action} {s : Spawner.System} (hstep : d.spawner.step opts a = some s)
    (hbooks' : Spawner.System.Accounted (taken ++ (d.spawner.taken? a).toList)
      (closed ++ (d.spawner.closed? a).toList) (lost ++ (d.spawner.lost? a).toList) s)
    (htaken : ∀ k, d.spawner.taken? a = some k → k < d.server.db.tickets.nextId ∧
      ∃ t, d.server.db.tickets.get? k = some t ∧ t.state ≠ .closed)
    (hclosed : ∀ k, d.spawner.closed? a = some k →
      ∃ t, d.server.db.tickets.get? k = some t ∧ t.state = .closed)
    (htold : ∀ i k, a = .dispatcher i →
      d.spawner.dispatcher.method? = some (.collectTicket k) →
      i.collected = .ofServer (collectTicket k d.server.db)) :
    Bond (taken ++ (d.spawner.taken? a).toList) (closed ++ (d.spawner.closed? a).toList)
      { d with spawner := s } := by
  refine ⟨?_, ?_, fun k hk => ?_, fun k hk => ?_, fun k data hdata => ?_,
    fun k data htells => ?_, fun k pc data hlookup hdata => ?_⟩
  · rcases Spawner.System.nextTicket_step hstep with ⟨-, hsame⟩ | ⟨k, hk, -, hnext⟩
    · exact hsame ▸ h.next
    · rw [hnext]
      exact (htaken k hk).1
  · rcases Spawner.System.nextTicket_step hstep with ⟨hnone, -⟩ | ⟨k, hk, hle, -⟩
    · simpa [hnone] using h.distinct
    · rw [hk, Option.toList_some]
      apply h.distinct.append (List.nodup_singleton k)
      apply List.disjoint_singleton.mpr
      exact fun hmem => (hbooks.fresh k hmem).not_ge hle
  · have hmem := (hbooks'.balance k).mpr (.inl hk)
    rw [List.mem_append, Option.mem_toList] at hmem
    rcases hmem with hmem | hnew
    · rcases (hbooks.balance k).mp hmem with hbefore | hgone
      · obtain ⟨t, ht, hended⟩ := h.opened k hbefore
        refine ⟨t, ht, fun hstate => ?_⟩
        have hmoves := hinv.moves hstep k
        rw [hended hstate] at hmoves
        cases hafter : s.state k with
        | none =>
            have hsome : d.spawner.state k ≠ none := by simp [hended hstate]
            have hdropping := Spawner.System.dropped_of_none hstep hsome hafter
            exact absurd hbefore (hbooks.dropping k hdropping)
        | some state =>
            rw [hafter] at hmoves
            cases hmoves
            rfl
      · exact absurd hk (hbooks'.final k (List.mem_append_left _ hgone))
    · obtain ⟨-, t, ht, hopen⟩ := htaken k hnew
      exact ⟨t, ht, fun hstate => absurd hstate hopen⟩
  · rw [List.mem_append, Option.mem_toList] at hk
    exact hk.elim (h.finished k) (hclosed k)
  · rcases Spawner.System.data_step hstep hdata with hbefore | htells
    · exact h.told k data hbefore
    · exact h.telling k data htells
  · cases a with
    | dispatcher i =>
        obtain ⟨⟨store, pc⟩, hpc, rfl⟩ := Option.map_eq_some_iff.mp hstep
        obtain ⟨hmethod, hdata⟩ := Spawner.DispatcherPc.telling?_step hpc htells
        rw [htold i k rfl hmethod] at hdata
        exact hattached.reports_collected hdata
    | restart =>
        obtain rfl := Option.some.inj hstep
        contradiction
    | startTask | handler | kill =>
        have hsame : s.dispatcher = d.spawner.dispatcher := by
          cases Spawner.System.step_cases hstep <;> rfl
        exact h.telling k data (hsame ▸ htells)
  · rcases Spawner.System.handling_step hstep hlookup hdata with hbefore | hread
    · exact h.handling k pc data hbefore hdata
    · exact h.told k data hread

/-! ## Runs -/

/-- What is known of the two daemons and of their bond. -/
structure Inv (opts : Spawner.Opts) (taken closed lost : List TicketId) (d : Site) : Prop extends
    Bond taken closed d where
  server : d.server.Inv
  delivered : d.server.Delivered
  attached : d.server.Attached
  spawner : Spawner.System.Inv opts d.spawner
  books : Spawner.System.Accounted taken closed lost d.spawner

/-- A step of the server keeps it, unless it closes a ticket that the spawner needs. -/
theorem Inv.server_step (h : Inv opts taken closed lost d) {a : Option Action} {w : World}
    (hstep : stepOrStay World.step d.server a = some w)
    (hminds : ∀ k ∈ d.spawner.openTickets, a = some (.closeTicket k) →
      d.spawner.state k = some .ended) :
    Inv opts taken closed lost { d with server := w } := by
  cases a with
  | none =>
      obtain rfl := Option.some.inj hstep
      exact h
  | some a =>
      have hbond := h.toBond.server_step h.server h.delivered hstep fun k hk ha =>
        hminds k hk (ha ▸ rfl)
      exact ⟨hbond, h.server.step hstep, h.delivered.step h.server hstep,
        h.attached.step h.delivered h.server hstep, h.spawner, h.books⟩

/-- A step of the spawner keeps it, if the server has executed its calls. -/
theorem Inv.spawner_step (h : Inv opts taken closed lost d) {a : Spawner.Action}
    {s : Spawner.System} (hstep : d.spawner.step opts a = some s)
    (htaken : ∀ k, d.spawner.taken? a = some k → k < d.server.db.tickets.nextId ∧
      ∃ t, d.server.db.tickets.get? k = some t ∧ t.state ≠ .closed)
    (hclosed : ∀ k, d.spawner.closed? a = some k →
      ∃ t, d.server.db.tickets.get? k = some t ∧ t.state = .closed)
    (htold : ∀ i k, a = .dispatcher i →
      d.spawner.dispatcher.method? = some (.collectTicket k) →
      i.collected = .ofServer (collectTicket k d.server.db)) :
    Inv opts (taken ++ (d.spawner.taken? a).toList) (closed ++ (d.spawner.closed? a).toList)
      (lost ++ (d.spawner.lost? a).toList) { d with spawner := s } := by
  have hbooks := h.books.step h.spawner hstep
  exact ⟨h.toBond.spawner_step h.attached h.spawner h.books hstep hbooks htaken hclosed htold,
    h.server, h.delivered, h.attached, h.spawner.step hstep, hbooks⟩

/-- The dispatcher closes tickets of ended agents. -/
theorem Inv.ended_of_method (h : Inv opts taken closed lost d)
    (hmethod : d.spawner.dispatcher.method? = some (.closeTicket k)) :
    d.spawner.state k = some .ended := by
  have hsees := h.spawner.dispatcher
  generalize d.spawner.dispatcher = pc at hsees hmethod
  cases pc <;> simp [Spawner.DispatcherPc.method?] at hmethod
  exact hmethod ▸ hsees.head

/-- A call of the dispatcher. -/
theorem Inv.dispatch_step (h : Inv opts taken closed lost d) {i : Spawner.Input}
    (hstep : d.dispatch opts i = some d') :
    Inv opts (taken ++ (d.spawner.taken? (.dispatcher (d.told i))).toList)
      (closed ++ (d.spawner.closed? (.dispatcher (d.told i))).toList)
      (lost ++ (d.spawner.lost? (.dispatcher (d.told i))).toList) d' := by
  obtain ⟨hs, hcall⟩ := dispatch_cases hstep
  have hserver := step_server (m := .spawner (.dispatcher i)) hstep
  -- the server executes the call first
  have hexecuted : Inv opts taken closed lost { d with server := d'.server } := by
    apply h.server_step hserver
    intro k hk haction
    apply h.ended_of_method
    obtain ⟨method, hmethod, hclose⟩ := Option.bind_eq_some_iff.mp haction
    rw [hmethod]
    cases method <;> simp_all [Method.action?]
  apply hexecuted.spawner_step (a := .dispatcher (d.told i)) hs
  · intro k hk
    obtain ⟨group, todo, c, hpc, rfl⟩ := Spawner.System.newTicket_of_taken hk
    rw [hpc] at hcall
    rcases hcall with ⟨hnone, -⟩ | ⟨method, answer, hmethod, hexec, htold⟩
    · contradiction
    · obtain rfl := Option.some.inj hmethod
      cases Method.executed_of_ok hexec with
      | takeTicket sandbox _ htickets =>
          have hid : d.spawner.store.nextTicket + (d.told i).skipped =
              d.server.db.tickets.nextId := by
            rw [htold]
            exact Nat.add_sub_cancel' h.next
          simp only [hid, htickets]
          refine ⟨by simp, _, by rw [IdTable.get?_push, if_pos rfl], by simp⟩
  · intro k hk
    obtain ⟨rest, hpc⟩ := Spawner.System.close_of_closed hk
    rw [hpc] at hcall
    rcases hcall with ⟨hnone, -⟩ | ⟨method, answer, hmethod, hexec, -⟩
    · contradiction
    · obtain rfl := Option.some.inj hmethod
      cases Method.executed_of_ok hexec with
      | closeTicket ht hstate => exact ⟨_, ht, hstate⟩
  · intro j k hj hmethod
    obtain rfl := Spawner.Action.dispatcher.inj hj
    rcases hcall with ⟨hnone, -⟩ | ⟨method, answer, hcalls, hexec, htold⟩
    · rw [hnone] at hmethod
      contradiction
    · obtain rfl := Option.some.inj (hmethod.symm.trans hcalls)
      have hexecuted := Method.executed_of_ok hexec
      generalize d'.server = w at hexecuted ⊢
      cases hexecuted with
      | collectTicket =>
          rw [htold]
          rfl

/-- Every move keeps it. -/
theorem Inv.step (h : Inv opts taken closed lost d) (hok : d.Minds m)
    (hstep : d.step opts m = some d') :
    Inv opts (taken ++ (ofSpawner Spawner.System.taken? d m).toList)
      (closed ++ (ofSpawner Spawner.System.closed? d m).toList)
      (lost ++ (ofSpawner Spawner.System.lost? d m).toList) d' := by
  cases m with
  | server a =>
      obtain ⟨w, hw, rfl⟩ := Option.map_eq_some_iff.mp hstep
      simp only [ofSpawner, spawnerAction?, Option.bind_none, Option.toList_none, List.append_nil]
      apply h.server_step (a := some a) hw
      intro k hk ha
      obtain rfl := Option.some.inj ha
      exact absurd hk (hok k rfl)
  | unanswered =>
      obtain ⟨method, hmethod, rfl⟩ := Option.map_eq_some_iff.mp hstep
      simp only [ofSpawner, spawnerAction?, Option.bind_none, Option.toList_none, List.append_nil]
      apply h.server_step (method.execute_action d.server)
      intro k hk haction
      apply h.ended_of_method
      rw [hmethod]
      cases method <;> simp_all [Method.action?]
  | spawner a =>
      cases a with
      | dispatcher i => exact h.dispatch_step hstep
      | startTask | handler | kill =>
          obtain ⟨s, hs, rfl⟩ := Option.map_eq_some_iff.mp hstep
          exact h.spawner_step hs (fun k hk => by cases hk) (fun k hk => by cases hk)
            fun i k hi => by cases hi
      | restart =>
          obtain rfl := Option.some.inj hstep
          exact h.spawner_step (a := .restart) rfl (fun k hk => by cases hk)
            (fun k hk => by cases hk) fun i k hi => by cases hi

/-- The bond holds in every state that a site reaches. -/
theorem inv (hrun : Path (step opts) Minds {} ms d) :
    Inv opts (observe (ofSpawner Spawner.System.taken?) (step opts) {} ms)
      (observe (ofSpawner Spawner.System.closed?) (step opts) {} ms)
      (observe (ofSpawner Spawner.System.lost?) (step opts) {} ms) d := by
  induction hrun with
  | refl =>
      have hserver : World.Reaches anyStep [] {} := .refl
      have hspawner : Path (Spawner.System.step opts) anyStep {} [] {} := .refl
      refine ⟨⟨?_, ?_, ?_, ?_, ?_, ?_, ?_⟩, hserver.inv, hserver.delivered, ?_,
        Spawner.System.inv_initial opts, Spawner.System.accounted hspawner⟩
      · simp [IdTable.nextId]
      · simp [observe]
      · simp [Spawner.System.openTickets]
      · simp [observe]
      · intro k data hdata
        cases hdata
      · simp [Spawner.DispatcherPc.telling?]
      · intro k pc data hlookup
        cases hlookup
      · constructor <;> simp
  | @snoc as d d' m hprev hok hstep ih =>
      rw [hprev.observe_snoc _ hstep, hprev.observe_snoc _ hstep, hprev.observe_snoc _ hstep]
      exact ih.step hok hstep

/-! ## Resources of agents -/

/-- An agent works on a resource: the server has given it to the ticket and holds it, and what the
hooks of the agent decode is its output. -/
structure WorksOn (d : Site) (k : TicketId) (id : ResourceId) : Prop where
  ticket : ∃ t, d.server.db.tickets.get? k = some t ∧ t.state ≠ .closed ∧ t.resourceId = some id
  /-- The resource may be leaving, but it is not released. -/
  resource : ∃ r, d.server.db.resources.get? id = some r ∧ r.ticketId = some k ∧
    (r.state = .up ∨ r.state.leaving = true) ∧ ∃ output, r.data = some output ∧
      ∃ data, (d.spawner.store.redis.read k).data = some data ∧ Base64.decode data = some output

/-- Agents with data work on resources. -/
theorem Inv.worksOn (h : Inv opts taken closed lost d) {state : Spawner.AgentState}
    (hstate : d.spawner.state k = some state) (hdata : state.hasData = true) :
    ∃ id, d.WorksOn k id := by
  obtain ⟨data, htold⟩ :=
    Option.ne_none_iff_exists'.mp ((h.spawner.agents k).data state hstate hdata)
  obtain ⟨t, r, output, ht, hr, houtput, rfl⟩ := h.told k data htold
  obtain ⟨id, hid, hrow⟩ := Option.bind_eq_some_iff.mp hr
  -- the spawner has not closed the ticket, and nobody else did
  have hopen : k ∈ d.spawner.openTickets := by
    apply h.books.live k state hstate
    rintro rfl
    contradiction
  have hunclosed : t.state ≠ .closed := by
    obtain ⟨t', ht', hended⟩ := h.opened k hopen
    obtain rfl := Option.some.inj (ht.symm.trans ht')
    intro hclosed
    rw [hended hclosed] at hstate
    cases hstate
    contradiction
  obtain ⟨r', hr', hticket⟩ := h.attached.holds ht hid hunclosed
  obtain rfl := Option.some.inj (hrow.symm.trans hr')
  refine ⟨id, ⟨t, ht, hunclosed, hid⟩, r, hrow, hticket, ?_, output, houtput, _, htold,
    Base64.decode_encode output⟩
  have hidle := h.server.linked.idle hrow
  rw [hticket] at hidle
  cases hr : r.state <;> simp_all [RState.leaving]

/-- A hook is given the base64 text of the output of a resource. -/
def GivesOutput (d : Site) (id : ResourceId) (data : String) : Prop :=
  ∃ r output, d.server.db.resources.get? id = some r ∧ r.data = some output ∧
    data = Base64.encode output ∧ Base64.decode data = some output

/-- What the server reports for a ticket is the output of the resource that its agent works
on. -/
theorem WorksOn.givesOutput {id : ResourceId} {data : String} (h : d.WorksOn k id)
    (hreports : d.server.db.Reports k data) : d.GivesOutput id data := by
  obtain ⟨t, ht, -, hid⟩ := h.ticket
  obtain ⟨t', r, output, ht', hr, houtput, rfl⟩ := hreports
  obtain rfl := Option.some.inj (ht.symm.trans ht')
  rw [Ticket.resource?, hid, Option.bind_some] at hr
  exact ⟨r, output, hr, houtput, rfl, Base64.decode_encode output⟩

/-- The data of every hook are what the server reports for its agent. -/
theorem Inv.hook_reports (h : Inv opts taken closed lost d) {call : Spawner.Call}
    (hcall : ofSpawner (Spawner.System.call? k) d m = some call) (hhook : call ≠ .closeTicket) :
    ∃ data, ofSpawner (Spawner.System.hookData? k) d m = some data ∧
      d.server.db.Reports k data := by
  obtain ⟨a, haction, hcall⟩ := Option.bind_eq_some_iff.mp hcall
  obtain ⟨data, hdata, hfrom⟩ := Spawner.System.hookData_of_call hcall hhook
  refine ⟨data, Option.bind_eq_some_iff.mpr ⟨a, haction, hdata⟩, ?_⟩
  rcases hfrom with ⟨i, pc, rfl, hlookup, hgiven⟩ | ⟨i, rfl, hasks, htold⟩
  · exact h.handling k pc data hlookup hgiven
  · have hmethod : d.spawner.dispatcher.method? = some (.collectTicket k) := by
      cases hpc : d.spawner.dispatcher <;>
        simp [hpc, Spawner.DispatcherPc.asksFor?, Spawner.DispatcherPc.method?] at hasks ⊢ <;>
        exact hasks
    cases m with
    | server | unanswered => contradiction
    | spawner b =>
        cases b with
        | dispatcher j =>
            obtain rfl := Spawner.Action.dispatcher.inj (Option.some.inj haction)
            apply h.attached.reports_collected
            simpa [told, hmethod, Method.execute, Spawner.Input.told] using htold
        | startTask | handler | kill | restart => cases haction

/-- An agent works on no other resource later. -/
theorem Inv.same_resource (h : Inv opts taken closed lost d) {ms : List Move}
    (hlater : Path (Site.step opts) Minds d ms d') {id id' : ResourceId} (hworks : d.WorksOn k id)
    (hworks' : d'.WorksOn k id') : id' = id := by
  obtain ⟨t, ht, -, hid⟩ := hworks.ticket
  obtain ⟨t', ht', hcontinues⟩ := World.continues_run (runs_server hlater) h.server ht
  obtain ⟨t'', ht'', -, hid'⟩ := hworks'.ticket
  obtain rfl := Option.some.inj (ht'.symm.trans ht'')
  exact Option.some.inj (hid'.symm.trans (hcontinues.resourceId id hid))

/-- An agent whose ticket the server has closed has had its life. -/
theorem Inv.phase_of_closed (h : Inv opts taken closed lost d) (htaken : k ∈ taken) {t : Ticket}
    (ht : d.server.db.tickets.get? k = some t) (hclosed : t.state = .closed) :
    Spawner.AgentState.ended.phase ≤ d.spawner.phase k := by
  have hended : k ∈ d.spawner.openTickets → d.spawner.state k = some .ended := by
    intro hopen
    obtain ⟨t', ht', hended⟩ := h.opened k hopen
    obtain rfl := Option.some.inj (ht.symm.trans ht')
    exact hended hclosed
  rw [Spawner.System.phase]
  cases hstate : d.spawner.state k with
  | some state =>
      by_cases hlives : state = .ended
      · rw [hlives]
      · have hstays := hended (h.books.live k state hstate hlives)
        rw [hstate, Option.some.injEq] at hstays
        exact absurd hstays hlives
  | none =>
      have hgone : ¬ Spawner.System.Starting k d.spawner := by
        intro hstarts
        have hopen := hstarts.elim (fun htakes => (h.books.unrecorded k htakes).1)
          (h.books.unstated k)
        rw [hended hopen] at hstate
        contradiction
      simp only [if_pos (And.intro (h.books.fresh k htaken) hgone)]
      decide

/-- In every run of a site, in which any party may be killed, any hook fail and any answer be lost,
and other clients close their own tickets only, each agent in PREPARING, WORKING or TERMINATING
works on a resource that the server holds for it; no two agents work on one resource; and
{lit}`cmd_take`, {lit}`cmd_is_finished`, {lit}`cmd_try_release` and {lit}`cmd_terminate` are called
for such agents only, each with the base64 text of the output of this resource. -/
theorem agents_apart (hrun : Path (step opts) Minds {} ms d) :
    (∀ k state, d.spawner.state k = some state →
      state = .preparing ∨ state = .working ∨ state = .terminating → ∃ id, d.WorksOn k id) ∧
    (∀ k k' id, d.WorksOn k id → d.WorksOn k' id → k = k') ∧
    (∀ m k call, ofSpawner (Spawner.System.call? k) d m = some call → call ≠ .closeTicket →
      ∃ id data, d.WorksOn k id ∧ ofSpawner (Spawner.System.hookData? k) d m = some data ∧
        d.GivesOutput id data) := by
  have hinv := inv hrun
  refine ⟨fun k state hstate hstates => ?_, fun k k' id hworks hworks' => ?_,
    fun m k call hcall hhook => ?_⟩
  · apply hinv.worksOn hstate
    obtain rfl | rfl | rfl := hstates <;> rfl
  · obtain ⟨r, hr, hticket, -⟩ := hworks.resource
    obtain ⟨r', hr', hticket', -⟩ := hworks'.resource
    obtain rfl := Option.some.inj (hr.symm.trans hr')
    exact Option.some.inj (hticket.symm.trans hticket')
  · obtain ⟨data, hdata, hreports⟩ := hinv.hook_reports hcall hhook
    obtain ⟨a, -, hcall⟩ := Option.bind_eq_some_iff.mp hcall
    obtain ⟨state, hstate, hrank⟩ := hinv.spawner.call_state hcall
    have hhas : state.hasData = true := by
      cases call <;> cases state <;> simp_all [Spawner.AgentState.phase, Spawner.Call.rank,
        Spawner.AgentState.hasData]
    obtain ⟨id, hworks⟩ := hinv.worksOn hstate hhas
    exact ⟨id, data, hworks, hdata, hworks.givesOutput hreports⟩

/-- One group of agents, whose tickets name no tags. -/
def siteOpts : Spawner.Opts :=
  { agentGroups := [{ id := "agents", tags := [] }], nodup := by decide }

/-- The server starts a resource and gives it to the first ticket. -/
def serveFirst : List Action :=
  World.ticks World.basicConfig 8 ++
    List.replicate 3 (.worker 1 { now := 20, output := { status := 0, stdout := [111, 107] } }) ++
    World.ticks World.basicConfig 12

/-- An agent is requested, served and prepared. -/
def prepareFirst : List Move :=
  List.replicate 9 (.spawner (Spawner.System.keepOne [])) ++ serveFirst.map .server ++
    List.replicate 20 (.spawner (Spawner.System.keepOne [1])) ++
    Spawner.System.handleFirst.map .spawner

/-- The agent finishes, and the answer to the closing of its ticket is lost. -/
def endFirst : List Move :=
  List.replicate 17 (.spawner (Spawner.System.keepOne [1])) ++
    Spawner.System.handleFirst.map .spawner ++
    List.replicate 4 (.spawner (Spawner.System.keepOne [1])) ++ [.unanswered]

/-- The agent is WORKING. -/
def siteWorking : Site :=
  (execWithin (step siteOpts) Minds {} prepareFirst).get (by decide +kernel)

/-- The server has closed the ticket, and the dispatcher is going to call again. -/
def siteEnded : Site :=
  (execWithin (step siteOpts) Minds siteWorking endFirst).get (by decide +kernel)

/-- The dispatcher has called again. -/
def siteClosed : Site :=
  (execWithin (step siteOpts) Minds siteEnded
    [.spawner (Spawner.System.keepOne [1])]).get (by decide +kernel)

/-- The dispatcher is going to call {lit}`cmd_is_finished` for the agent. -/
def siteAsking : Site :=
  (execWithin (step siteOpts) Minds siteWorking
    (List.replicate 7 (.spawner (Spawner.System.keepOne [1])))).get (by decide +kernel)

/-- The first agent works on a resource, and its next hook is given the output. -/
theorem agents_apart_working :
    siteAsking.spawner.state 1 = some .working ∧
      ∃ id, siteAsking.WorksOn 1 id ∧ siteAsking.GivesOutput id "b2s=" := by
  have hprepare : Path (step siteOpts) Minds {} prepareFirst siteWorking :=
    Path.of_execWithin (Option.some_get _).symm
  have hask : Path (step siteOpts) Minds siteWorking
      (List.replicate 7 (.spawner (Spawner.System.keepOne [1]))) siteAsking :=
    Path.of_execWithin (Option.some_get _).symm
  have hcall : ofSpawner (Spawner.System.call? 1) siteAsking
      (.spawner (Spawner.System.keepOne [1])) = some .isFinished := by decide +kernel
  have htext : ofSpawner (Spawner.System.hookData? 1) siteAsking
      (.spawner (Spawner.System.keepOne [1])) = some "b2s=" := by decide +kernel
  obtain ⟨id, data, hworks, hdata, hgives⟩ :=
    (agents_apart (hprepare.append hask)).2.2 _ 1 _ hcall (by decide)
  obtain rfl := Option.some.inj (hdata.symm.trans htext)
  exact ⟨by decide +kernel, id, hworks, hgives⟩

/-- Over a whole run of a site an agent works on one resource only, and once its ticket is closed in
the server, which takes the resource back then, no hook of the agent will ever be called; as long as
other clients close their own tickets only. -/
theorem hooks_over (hrun : Path (step opts) Minds {} ms d) {ms' : List Move}
    (hlater : Path (step opts) Minds d ms' d') :
    (∀ k id id', d.WorksOn k id → d'.WorksOn k id' → id' = id) ∧
    (∀ k ∈ observe (ofSpawner Spawner.System.taken?) (step opts) {} ms,
      ∀ t, d.server.db.tickets.get? k = some t → t.state = .closed →
        ∀ call ∈ observe (ofSpawner (Spawner.System.call? k)) (step opts) d ms',
          call = .closeTicket) := by
  have hinv := inv hrun
  refine ⟨fun k id id' => hinv.same_resource hlater, fun k htaken t ht hclosed call hcall => ?_⟩
  rw [observe_spawner _ hlater] at hcall
  obtain ⟨pre, a, post, s, s', -, hpre, -, hshow, -⟩ :=
    (runs_spawner hlater).exists_of_mem_observe _ hcall
  -- no agent goes back in its life
  have hphase : Spawner.System.Inv opts s ∧ d.spawner.phase k ≤ s.phase k := by
    apply hpre.invariant (P := fun u => Spawner.System.Inv opts u ∧ d.spawner.phase k ≤ u.phase k)
    · exact ⟨hinv.spawner, Nat.le_refl _⟩
    · rintro u a v ⟨hu, hle⟩ - hstep
      exact ⟨hu.step hstep, hle.trans (hu.phase_step hstep k)⟩
  obtain ⟨state, hstate, hrank⟩ := hphase.1.call_state hshow
  have hlast := (hinv.phase_of_closed htaken ht hclosed).trans hphase.2
  rw [Spawner.System.phase, hstate] at hlast
  cases call <;> cases state <;> simp_all [Spawner.AgentState.phase, Spawner.Call.rank]

/-- The ticket of the agent is closed once more, and nothing else is called for it. -/
theorem hooks_over_ended :
    observe (ofSpawner (Spawner.System.call? 1)) (step siteOpts) siteEnded
        [.spawner (Spawner.System.keepOne [1])] = [.closeTicket] ∧
      ∀ call ∈ observe (ofSpawner (Spawner.System.call? 1)) (step siteOpts) siteEnded
        [.spawner (Spawner.System.keepOne [1])], call = .closeTicket := by
  have hprepare : Path (step siteOpts) Minds {} prepareFirst siteWorking :=
    Path.of_execWithin (Option.some_get _).symm
  have hend : Path (step siteOpts) Minds siteWorking endFirst siteEnded :=
    Path.of_execWithin (Option.some_get _).symm
  have hclose : Path (step siteOpts) Minds siteEnded [.spawner (Spawner.System.keepOne [1])]
      siteClosed := Path.of_execWithin (Option.some_get _).symm
  have htaken : 1 ∈ observe (ofSpawner Spawner.System.taken?) (step siteOpts) {}
      (prepareFirst ++ endFirst) := by decide +kernel
  have hticket : ∃ t, siteEnded.server.db.tickets.get? 1 = some t ∧ t.state = .closed := by
    decide +kernel
  obtain ⟨t, ht, hclosed⟩ := hticket
  exact ⟨by decide +kernel,
    (hooks_over (hprepare.append hend) hclose).2 1 htaken t ht hclosed⟩

end Site

end Resalloc
