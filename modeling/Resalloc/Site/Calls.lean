import Resalloc.Site.Agents
import Resalloc.Spawner.Restarts

/-!
# What calls leave behind

A lost answer leaves a ticket that nobody knows, a dispatcher that is killed may leave another one,
and a refused call is repeated for ever.  This file bounds what is left behind, and says that the
dispatcher of a site is never refused a call and never dies by itself.

Main results:

- Theorem {lit}`Site.resources_bounded`: how many resources the server holds for the spawner.
- Theorem {lit}`Site.dispatcher_lives`: the dispatcher can always go on.
-/

namespace Resalloc

open Foundations

/-! ## Tickets that the spawner has lost -/

/-- A resource is held for one of the tickets, which is not closed. -/
def Db.heldFor (db : Db) (tids : List TicketId) (r : Resource) : Bool :=
  r.ticketId.any fun k => k ∈ tids ∧ (db.tickets.get? k).any fun t => t.state ≠ .closed

/-- Different resources are held for different tickets. -/
theorem Linked.count_heldFor {db : Db} (h : Linked db) {tids opened : List TicketId}
    (hopen : ∀ k ∈ tids, ∀ t, db.tickets.get? k = some t → t.state ≠ .closed → k ∈ opened) :
    db.resources.count (db.heldFor tids) ≤ opened.length := by
  have hheld : ∀ id ∈ db.resources.idsWhere (db.heldFor tids), ∃ r k t,
      db.resources.get? id = some r ∧ r.ticketId = some k ∧ k ∈ tids ∧
        db.tickets.get? k = some t ∧ t.state ≠ .closed := by
    intro id hid
    obtain ⟨r, hr, hholds⟩ := IdTable.mem_idsWhere.mp hid
    obtain ⟨k, hk, hcond⟩ := (Option.any_eq_true _ _).mp hholds
    obtain ⟨hmem, hstate⟩ := of_decide_eq_true hcond
    obtain ⟨t, ht, hunclosed⟩ := (Option.any_eq_true _ _).mp hstate
    exact ⟨r, k, t, hr, hk, hmem, ht, of_decide_eq_true hunclosed⟩
  let ticketOf (id : ResourceId) : TicketId :=
    ((db.resources.get? id).bind Resource.ticketId).getD 0
  rw [IdTable.count_eq_card]
  refine (Finset.card_le_card_of_injOn (t := opened.toFinset) ticketOf ?_ ?_).trans
    (List.toFinset_card_le opened)
  · intro id hid
    obtain ⟨r, k, t, hr, hk, hmem, ht, hunclosed⟩ := hheld id hid
    have hticket : ticketOf id = k := by simp [ticketOf, hr, hk]
    rw [hticket]
    simpa using hopen k hmem t ht hunclosed
  · intro id hid id' hid' heq
    obtain ⟨r, k, t, hr, hk, -⟩ := hheld id hid
    obtain ⟨r', k', t', hr', hk', -⟩ := hheld id' hid'
    have hsame : k = k' := by simpa [ticketOf, hr, hk, hr', hk'] using heq
    exact h.consistent.exclusive hr hk hr' (hsame ▸ hk')

namespace Site

variable {opts : Spawner.Opts} {d : Site} {ms : List Move}

/-- The ticket of a call whose answer is lost. -/
def orphan? (d : Site) (m : Move) : Option TicketId :=
  match m, d.spawner.dispatcher with
  | .unanswered, .newTicket group _ _ =>
      if group.tags.Nodup then some d.server.db.tickets.nextId else none
  | _, _ => none

/-- In every run of a site in which other clients close their own tickets only, the server holds no
more resources for tickets of the spawner that are not closed than there are recorded agents, one
more, one for each time that the dispatcher was killed before it recorded its ticket, and one for
each new ticket whose number was lost. -/
theorem resources_bounded (hrun : Path (step opts) Minds {} ms d) :
    d.server.db.resources.count (d.server.db.heldFor
        (observe (ofSpawner Spawner.System.taken?) (step opts) {} ms ++
          observe orphan? (step opts) {} ms)) ≤
      d.spawner.store.redis.keys.length + 1 +
        (observe (ofSpawner Spawner.System.lost?) (step opts) {} ms).length +
        (observe orphan? (step opts) {} ms).length := by
  have hinv := inv hrun
  have hopen : ∀ k ∈ observe (ofSpawner Spawner.System.taken?) (step opts) {} ms ++
      observe orphan? (step opts) {} ms, ∀ t, d.server.db.tickets.get? k = some t →
        t.state ≠ .closed → k ∈ d.spawner.openTickets ++ observe orphan? (step opts) {} ms := by
    intro k hk t ht hunclosed
    rw [List.mem_append] at hk ⊢
    apply hk.imp_left
    intro htaken
    by_contra hgone
    obtain ⟨t', ht', hclosed⟩ :=
      hinv.finished k (((hinv.books.balance k).mp htaken).resolve_left hgone)
    obtain rfl := Option.some.inj (ht.symm.trans ht')
    exact hunclosed hclosed
  have hcount := hinv.server.linked.count_heldFor hopen
  have hlength := hinv.books.length_openTickets
  rw [List.length_append] at hcount
  omega

/-- A ticket is taken, its number is lost, and the call is made again. -/
def loseAnswer : List Move :=
  List.replicate 6 (.spawner (Spawner.System.keepOne [])) ++
    .unanswered :: .spawner (Spawner.System.keepOne []) :: serveFirst.map .server

/-- The state after this. -/
def siteLost : Site :=
  (execWithin (step siteOpts) Minds {} loseAnswer).get (by decide +kernel)

/-- The server holds its only resource for a ticket that nobody knows. -/
theorem resources_bounded_lost :
    observe orphan? (step siteOpts) {} loseAnswer = [1] ∧ siteLost.spawner.openTickets = [2] ∧
      siteLost.server.db.resources.count (siteLost.server.db.heldFor
          (observe (ofSpawner Spawner.System.taken?) (step siteOpts) {} loseAnswer ++
            observe orphan? (step siteOpts) {} loseAnswer)) ≤
        siteLost.spawner.store.redis.keys.length + 1 +
          (observe (ofSpawner Spawner.System.lost?) (step siteOpts) {} loseAnswer).length +
          (observe orphan? (step siteOpts) {} loseAnswer).length := by
  have hrun : Path (step siteOpts) Minds {} loseAnswer siteLost :=
    Path.of_execWithin (Option.some_get _).symm
  exact ⟨by decide +kernel, by decide +kernel, resources_bounded hrun⟩

/-! ## The dispatcher goes on -/

end Site

namespace Spawner.DispatcherPc

/-- The tickets that {lit}`detect_failed_tickets` still looks at. -/
def detects : DispatcherPc → List TicketId
  | .detectFailed ticketId rest | .failedState ticketId rest | .setFailed ticketId _ rest =>
      ticketId :: rest
  | _ => []

@[simp]
theorem detects_of_loops {pc : DispatcherPc} (h : pc.loops = true) : pc.detects = [] := by
  cases pc <;> first | rfl | contradiction

@[simp]
theorem detects_nextDetect {tids : List TicketId} : (nextDetect tids).detects = tids := by
  cases tids <;> rfl

/-- It looks at recorded tickets. -/
theorem detects_step {opts : Opts} {i : Input} {st st' : Store} {pc pc' : DispatcherPc}
    (h : Steps opts i st pc st' pc') {k : TicketId} (hk : k ∈ pc'.detects) :
    k ∈ pc.detects ∨ k ∈ st.redis := by
  cases h with
  | start hkeys =>
      rw [detects_nextDetect] at hk
      exact .inr (AList.mem_keys.mpr (hkeys.mem_iff.mp hk))
  | resolved | keepFailed | setFailed =>
      rw [detects_nextDetect] at hk
      exact .inl (List.mem_cons_of_mem _ hk)
  | failed | switchFailed => exact .inl hk
  | _ => exact absurd hk (by first | exact List.not_mem_nil | simp)

/-- Which calls take tickets. -/
theorem newTicket_of_method {pc : DispatcherPc} {tags : List String} {sandbox : Option String}
    (h : pc.method? = some (.takeTicket tags sandbox)) :
    ∃ group todo c, pc = .newTicket group todo c ∧ group.tags = tags := by
  cases pc <;> simp [method?] at h
  exact ⟨_, _, _, rfl, h.1⟩

end Spawner.DispatcherPc

namespace Site

variable {opts : Spawner.Opts} {d d' : Site} {m : Move} {ms : List Move}
variable {taken closed lost : List TicketId} {k : TicketId}

/-- Nobody kills the dispatcher between the two writes that record a new agent. -/
def Spares (d : Site) (m : Move) : Prop :=
  m = .spawner .restart → d.spawner.dispatcher.records = false

instance (d : Site) (m : Move) : Decidable (d.Spares m) :=
  inferInstanceAs (Decidable (_ → _))

/-- Tickets that were taken are known to the server. -/
theorem Inv.known (h : Inv opts taken closed lost d) (hk : k ∈ taken) :
    ∃ t, d.server.db.tickets.get? k = some t := by
  rcases (h.books.balance k).mp hk with hopen | hgone
  · obtain ⟨t, ht, -⟩ := h.opened k hopen
    exact ⟨t, ht⟩
  · obtain ⟨t, ht, -⟩ := h.finished k hgone
    exact ⟨t, ht⟩

/-- The server knows the tickets that {lit}`detect_failed_tickets` looks at. -/
def Detects (d : Site) : Prop :=
  ∀ k ∈ d.spawner.dispatcher.detects, ∃ t, d.server.db.tickets.get? k = some t

/-- It knows them after every move. -/
theorem Inv.detects_step (h : Inv opts taken closed lost d) (hdetects : d.Detects)
    (hstep : d.step opts m = some d') : d'.Detects := by
  have hkept : ∀ k, (∃ t, d.server.db.tickets.get? k = some t) →
      ∃ t, d'.server.db.tickets.get? k = some t := by
    rintro k ⟨t, ht⟩
    have hserver := step_server hstep
    cases haction : d.serverAction? m with
    | none =>
        rw [haction, stepOrStay, Option.some.injEq] at hserver
        exact ⟨t, hserver ▸ ht⟩
    | some a =>
        rw [haction] at hserver
        obtain ⟨t', ht', -⟩ := h.server.ticket_continues hserver ht
        exact ⟨t', ht'⟩
  have hspawner := step_spawner hstep
  intro k hk
  apply hkept
  cases haction : d.spawnerAction? m with
  | none =>
      rw [haction, stepOrStay, Option.some.injEq] at hspawner
      exact hdetects k (hspawner ▸ hk)
  | some a =>
      rw [haction] at hspawner
      generalize d'.spawner = s at hspawner hk
      cases Spawner.System.step_cases hspawner with
      | dispatcher hpc =>
          rcases Spawner.DispatcherPc.detects_step hpc hk with hbefore | hrecorded
          · exact hdetects k hbefore
          · exact h.known (h.books.recorded k hrecorded)
      | startTask | raised | returned | handler | kill => exact hdetects k hk
      | restart => cases hk

/-- The server knows the ticket that the dispatcher asks for. -/
theorem Detects.knows (h : d.Detects) {a : Spawner.Action} (ha : d.spawnerAction? m = some a) :
    d.spawner.Knows a := by
  intro hasks
  cases a with
  | dispatcher i =>
      intro i' hi
      obtain rfl := Option.some.inj hi
      cases hpc : d.spawner.dispatcher with
      | detectFailed ticketId rest =>
          obtain ⟨t, ht⟩ := h ticketId (by rw [hpc]; exact List.mem_cons_self)
          cases m with
          | spawner b =>
              cases b <;> cases ha
              simp [told, hpc, Spawner.DispatcherPc.method?, Method.execute, Spawner.Input.told,
                Spawner.Collected.ofServer, collectTicket, ht]
          | server | unanswered => contradiction
      | _ =>
          rw [hpc] at hasks
          contradiction
  | startTask | handler | kill | restart => intro i hi; cases hi

/-- The dispatcher does not ask for a ticket that names a tag twice. -/
def AsksWell (d : Site) : Prop :=
  ∀ group todo c, d.spawner.dispatcher = .newTicket group todo c → group.tags.Nodup

/-- The server executes every other call. -/
theorem Inv.accepted (h : Inv opts taken closed lost d) (hasks : d.AsksWell) {method : Method}
    (hmethod : d.spawner.dispatcher.method? = some method) :
    ∃ w answer, method.execute d.server = (w, .ok answer) := by
  cases method with
  | collectTicket ticketId => exact ⟨_, _, rfl⟩
  | closeTicket ticketId =>
      have hended := h.ended_of_method hmethod
      obtain ⟨t, ht⟩ := h.known (h.books.recorded _ (Spawner.Store.mem_of_state hended))
      simp [Method.execute, closeTicket, ht]
  | takeTicket tags sandbox =>
      obtain ⟨group, todo, c, hpc, rfl⟩ := Spawner.DispatcherPc.newTicket_of_method hmethod
      simp [Method.execute, takeTicket, hasks group todo c hpc]

/-- No party has died at the beginning. -/
theorem alive_initial : Spawner.System.Alive opts {} := by
  refine ⟨Spawner.System.inv_initial opts, fun k hk => ?_, trivial, ?_⟩
  · cases hk
  · simp [Spawner.DispatcherPc.rank, Prod.Lex.toLex_lt_toLex]

/-- The dispatcher can go on from every state that a site reaches. -/
theorem alive (hrun : Path (step opts) (fun d m => d.Minds m ∧ d.Spares m) {} ms d) :
    d.Detects ∧ d.spawner.Alive opts := by
  induction hrun with
  | refl =>
      refine ⟨fun k hk => ?_, alive_initial⟩
      cases hk
  | @snoc as d d' m hprev hok hstep ih =>
      obtain ⟨hdetects, halive⟩ := ih
      have hinv := inv (hprev.weaken fun _ _ h => h.1)
      refine ⟨hinv.detects_step hdetects hstep, ?_⟩
      have hspawner := step_spawner hstep
      cases haction : d.spawnerAction? m with
      | none =>
          rw [haction, stepOrStay, Option.some.injEq] at hspawner
          exact hspawner ▸ halive
      | some a =>
          rw [haction] at hspawner
          apply halive.step (hdetects.knows haction) _ hspawner
          rintro rfl
          apply hok.2
          cases m with
          | spawner b => cases b <;> cases haction; rfl
          | server | unanswered => contradiction

/-- The dispatcher is stuck exactly when the server refuses its call. -/
theorem Inv.can_move (h : Inv opts taken closed lost d) (i : Spawner.Input) :
    (∃ keys d', d.step opts (.spawner (.dispatcher { i with keys := keys })) = some d') ↔
      d.AsksWell := by
  constructor
  · rintro ⟨keys, d', hstep⟩ group todo c hpc
    rcases (dispatch_cases hstep).2 with ⟨hnone, -⟩ | ⟨method, answer, hmethod, hexec, -⟩
    · rw [hpc] at hnone
      contradiction
    · rw [hpc] at hmethod
      obtain rfl := Option.some.inj hmethod
      cases Method.executed_of_ok hexec with
      | takeTicket sandbox hnodup => exact hnodup
  · intro hasks
    have haccepted : d.spawner.dispatcher.Accepted := by
      cases hpc : d.spawner.dispatcher with
      | newTicket group todo c => exact hasks group todo c hpc
      | _ => trivial
    have hmoves : ∀ j : Spawner.Input, j.keys = d.spawner.store.redis.keys →
        ∃ s, d.spawner.step opts (.dispatcher j) = some s := by
      intro j hkeys
      obtain ⟨u, hu⟩ := Spawner.DispatcherPc.exists_step haccepted opts d.spawner.store hkeys
      exact ⟨_, by rw [Spawner.System.step, hu, Option.map_some]⟩
    simp only [Site.step, dispatch]
    cases hmethod : d.spawner.dispatcher.method? with
    | none =>
        obtain ⟨s, hs⟩ := hmoves { i with keys := d.spawner.store.redis.keys } rfl
        exact ⟨d.spawner.store.redis.keys, _, by rw [hs, Option.map_some]⟩
    | some method =>
        obtain ⟨w, answer, hexec⟩ := h.accepted hasks hmethod
        let i' : Spawner.Input := { i with keys := d.spawner.store.redis.keys }
        have hkeys : (i'.told d.spawner.store answer).keys = d.spawner.store.redis.keys := by
          cases answer <;> rfl
        obtain ⟨s, hs⟩ := hmoves _ hkeys
        simp only [hexec]
        exact ⟨d.spawner.store.redis.keys, _, by rw [hs, Option.map_some]⟩

/-- The dispatcher is killed after it recorded an agent, and starts again. -/
def killDispatcher : List Move :=
  List.replicate 9 (.spawner (Spawner.System.keepOne [])) ++
    .spawner .restart :: List.replicate 3 (.spawner (Spawner.System.keepOne [1]))

/-- The state after this. -/
def siteRestarted : Site :=
  (execWithin (step siteOpts) (fun d m => d.Minds m ∧ d.Spares m) {} killDispatcher).get
    (by decide +kernel)

end Site

end Resalloc
