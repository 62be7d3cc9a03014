import Resalloc.Spawner.Lifecycle

/-!
# Tickets of the agent spawner

The spawner takes tickets of the resalloc server and closes them, and it remembers the open ones
by the keys of its redis database only.  A ticket is taken before it is recorded, and it is closed
before its record is deleted, so a dispatcher that is killed in between leaves one of the two
behind.  This file keeps the books of all tickets that the dispatcher was ever told.  A call whose
answer is lost takes a ticket that is in no book: {lit}`Site.orphan?` counts those.

Main results:

- Theorem {lit}`System.tickets_accounted`: every ticket is open or closed, and an open ticket is
  recorded, is just being recorded, or was lost with a dispatcher.
- Theorem {lit}`System.Accounted.step`: every step keeps the books.
-/

namespace Resalloc.Spawner

open Foundations

/-! ## Tickets on their way -/

/-- A ticket that the dispatcher has to do with and whose record is not complete. -/
inductive Entry
  /-- Taken and not recorded. -/
  | taken (ticketId : TicketId)
  /-- Recorded without a state. -/
  | grouped (ticketId : TicketId)
  /-- Closed and recorded. -/
  | closed (ticketId : TicketId)
deriving DecidableEq

namespace DispatcherPc

/-- The ticket between two writes of the dispatcher. -/
def booked? : DispatcherPc → Option Entry
  | .setGroup ticketId _ _ _ => some (.taken ticketId)
  | .setNew ticketId _ _ _ => some (.grouped ticketId)
  | .delete ticketId _ => some (.closed ticketId)
  | _ => none

/-- The dispatcher is at a round of a loop after {lit}`detect_failed_tickets`, or between two
loops. -/
def loops : DispatcherPc → Bool
  | .keys _ | .filter _ _ _ _ | .close _ _ | .finishedGroup _ _ | .ticketData _ _ | .agentCounts
  | .count _ _ _ | .converge _ _ | .newTicket _ _ _ | .tryRelease _ _ _ | .handOver _ => true
  | _ => false

variable {tids output : List TicketId}

@[simp]
theorem loops_nextDrop : (nextDrop tids).loops = true := by
  cases tids <;> rfl

@[simp]
theorem loops_nextFinished : (nextFinished tids).loops = true := by
  cases tids <;> rfl

@[simp]
theorem loops_nextPreparing : (nextPreparing tids).loops = true := by
  cases tids <;> rfl

@[simp]
theorem loops_nextGroup {counts : Counts} {groups : List AgentGroup} :
    (nextGroup counts groups).loops = true := by
  cases groups <;> rfl

@[simp]
theorem loops_nextCount {opts : Opts} {counts : Counts} :
    (nextCount opts counts tids).loops = true := by
  cases tids with
  | nil => exact loops_nextGroup
  | cons => rfl

@[simp]
theorem loops_nextNew {group : AgentGroup} {c : Converge} {todo : ℕ} :
    (nextNew group c todo).loops = true := by
  cases todo with
  | zero => exact loops_nextGroup
  | succ => rfl

@[simp]
theorem loops_nextStop {s : Stopping} : (nextStop s tids).loops = true := by
  cases tids with
  | nil => exact loops_nextGroup
  | cons =>
      rw [nextStop]
      split_ifs
      · exact loops_nextGroup
      · rfl

@[simp]
theorem loops_nextFilter {caller : Caller} : (nextFilter caller output tids).loops = true := by
  cases tids with
  | nil =>
      cases caller with
      | dropEnded => exact loops_nextDrop
      | cleanFinishedWorkers => exact loops_nextFinished
      | startPreparing => exact loops_nextPreparing
      | tryToStop => exact loops_nextStop
      | tasks => rfl
  | cons => rfl

/-- No record is incomplete at a round of a loop. -/
@[simp]
theorem booked?_of_loops {pc : DispatcherPc} (h : pc.loops = true) : pc.booked? = none := by
  cases pc <;> first | rfl | contradiction

@[simp]
theorem booked?_nextDetect : (nextDetect tids).booked? = none := by
  cases tids <;> rfl

end DispatcherPc

/-- A write to a recorded agent records no other one. -/
theorem Store.mem_write {st : Store} {ticketId : TicketId} (h : ticketId ∈ st.redis)
    (f : Agent → Agent) (k : TicketId) : k ∈ st.redis.write ticketId f ↔ k ∈ st.redis := by
  rw [HashStore.mem_write]
  constructor
  · rintro (rfl | hk)
    · exact h
    · exact hk
  · exact .inr

namespace System

variable {opts : Opts} {s s' : System} {a : Action} {as : List Action} {k : TicketId}

/-! ## Events -/

/-- The identifiers of the open tickets. -/
def openTickets (s : System) : List TicketId := s.store.tickets.map Prod.fst

/-- The ticket that a step takes. -/
def taken? (s : System) (a : Action) : Option TicketId :=
  match a, s.dispatcher with
  | .dispatcher i, .newTicket _ _ _ => some (s.store.nextTicket + i.skipped)
  | _, _ => none

/-- The ticket that a step closes. -/
def closed? (s : System) (a : Action) : Option TicketId :=
  match a, s.dispatcher with
  | .dispatcher _, .close ticketId _ => some ticketId
  | _, _ => none

/-- The ticket that is lost when the dispatcher is killed. -/
def lost? (s : System) (a : Action) : Option TicketId :=
  match a, s.dispatcher.booked? with
  | .restart, some (.taken ticketId) => some ticketId
  | _, _ => none

/-- Only the last write of a new record gives an agent a state. -/
theorem Inv.starts (h : Inv opts s) (hstep : System.step opts s a = some s')
    (hnone : s.state k = none) (hsome : s'.state k ≠ none) :
    s.dispatcher.booked? = some (.grouped k) := by
  have hother : ∀ {st : Store} {ticketId : TicketId} {old state : AgentState},
      (st.redis.read ticketId).state = some old → (st.redis.read k).state = none →
      ((st.setState ticketId state).redis.read k).state = none := by
    intro st ticketId old state hold hk
    rw [Store.read_setState]
    split_ifs with heq
    · rw [heq, hold] at hk
      contradiction
    · exact hk
  by_contra hentry
  apply hsome
  cases step_cases hstep with
  | @dispatcher i store pc hpc =>
      have hsees := h.dispatcher
      generalize hdispatcher : s.dispatcher = old at hpc hsees hentry
      cases hpc with
      | setFailed ticketId state rest =>
          cases hstate : (s.store.redis.read ticketId).state with
          | none => simp [DispatcherPc.Sees, hstate, DispatcherPc.failedState?] at hsees
          | some old => exact hother hstate hnone
      | setTerminating => exact hother hsees.head hnone
      | setPreparing | stop => exact hother hsees.1.head hnone
      | setData => exact (Store.read_setData_state _ _ _ _).trans hnone
      | setGroup ticketId group todo c =>
          exact (HashStore.read_write_field Agent.state (by simp) k).trans hnone
      | setNew ticketId group todo c =>
          have hk : k ≠ ticketId := by
            rintro rfl
            exact hentry rfl
          change ((s.store.setState ticketId .new).redis.read k).state = none
          rw [Store.read_setState, if_neg hk]
          exact hnone
      | delete ticketId rest =>
          change ((s.store.delete ticketId).redis.read k).state = none
          rw [Store.delete, HashStore.read_erase]
          split_ifs
          · rfl
          · exact hnone
      | _ => exact hnone
  | returned hlookup hpc =>
      have hmatch := h.handlers _ _ hlookup
      obtain rfl | ⟨old, next, hold, -, rfl, -⟩ := hmatch.return hpc
      · exact hnone
      · exact hother hold hnone
  | handler hlookup hpc =>
      obtain ⟨rfl, -⟩ := HandlerPc.Matches.step (h.handlers _ _ hlookup) hpc
      exact hnone
  | startTask | raised | kill | restart => exact hnone

/-! ## The books -/

/-- The books of the tickets that were taken, closed and lost so far. -/
structure Accounted (taken closed lost : List TicketId) (s : System) : Prop where
  /-- The ticket of an agent is open until the agent is ENDED. -/
  live : ∀ k state, s.state k = some state → state ≠ .ended → k ∈ s.openTickets
  unrecorded : ∀ k, s.dispatcher.booked? = some (.taken k) → k ∈ s.openTickets ∧ k ∉ lost
  unstated : ∀ k, s.dispatcher.booked? = some (.grouped k) → k ∈ s.openTickets
  dropping : ∀ k, s.dispatcher.booked? = some (.closed k) → k ∉ s.openTickets
  held : ∀ k ∈ s.openTickets,
    k ∈ s.store.redis ∨ s.dispatcher.booked? = some (.taken k) ∨ k ∈ lost
  leaked : ∀ k ∈ lost, k ∈ s.openTickets ∧ k ∉ s.store.redis
  recorded : ∀ k ∈ s.store.redis, k ∈ taken
  balance : ∀ k, k ∈ taken ↔ k ∈ s.openTickets ∨ k ∈ closed
  final : ∀ k ∈ closed, k ∉ s.openTickets
  fresh : ∀ k ∈ taken, k < s.store.nextTicket
  nodup : s.openTickets.Nodup

variable {taken closed lost : List TicketId}

/-- Agents that are not ENDED had open tickets before the step. -/
theorem Accounted.live_step (h : Accounted taken closed lost s) (hinv : Inv opts s)
    (hstep : System.step opts s a = some s') (state : AgentState)
    (hstate : s'.state k = some state) (hended : state ≠ .ended) : k ∈ s.openTickets := by
  have hmoves := hinv.moves hstep k
  rw [hstate] at hmoves
  cases hbefore : s.state k with
  | none => exact h.unstated k (hinv.starts hstep hbefore (by simp [hstate]))
  | some before =>
      apply h.live k before hbefore
      rintro rfl
      rw [hbefore] at hmoves
      cases hmoves
      exact hended rfl

/-- A step that neither takes, records, closes, drops nor loses a ticket keeps the books. -/
theorem Accounted.kept (h : Accounted taken closed lost s) (hinv : Inv opts s)
    (hstep : System.step opts s a = some s') (htickets : s'.store.tickets = s.store.tickets)
    (hkeys : ∀ k, k ∈ s'.store.redis ↔ k ∈ s.store.redis)
    (hnext : s'.store.nextTicket = s.store.nextTicket)
    (hentry : s'.dispatcher.booked? = s.dispatcher.booked? ∨
      s'.dispatcher.booked? = none ∧ ∀ k, s.dispatcher.booked? ≠ some (.taken k)) :
    Accounted taken closed lost s' := by
  have hopen : s'.openTickets = s.openTickets := by rw [openTickets, htickets, openTickets]
  have hsame : ∀ {e}, s'.dispatcher.booked? = some e → s.dispatcher.booked? = some e := by
    intro e he
    rcases hentry with heq | ⟨hnone, -⟩
    · rwa [heq] at he
    · simp [hnone] at he
  refine ⟨?_, fun k he => ?_, fun k he => ?_, fun k he => ?_, fun k hk => ?_, fun k hk => ?_,
    fun k hk => ?_, fun k => ?_, fun k hk => ?_, fun k hk => ?_, ?_⟩
  · intro k state hstate hended
    rw [hopen]
    exact h.live_step hinv hstep state hstate hended
  · rw [hopen]
    exact h.unrecorded k (hsame he)
  · rw [hopen]
    exact h.unstated k (hsame he)
  · rw [hopen]
    exact h.dropping k (hsame he)
  · rw [hopen] at hk
    rw [hkeys]
    apply (h.held k hk).imp_right
    apply Or.imp_left
    intro he
    rcases hentry with heq | ⟨-, hnot⟩
    · rwa [heq]
    · exact absurd he (hnot k)
  · rw [hopen, hkeys]
    exact h.leaked k hk
  · exact h.recorded k ((hkeys k).mp hk)
  · rw [hopen]
    exact h.balance k
  · rw [hopen]
    exact h.final k hk
  · rw [hnext]
    exact h.fresh k hk
  · rw [hopen]
    exact h.nodup

/-- A new ticket is entered. -/
theorem Accounted.newTicket (h : Accounted taken closed lost s) {ticketId : TicketId}
    {tags : List String} (htickets : s'.store.tickets = s.store.tickets ++ [(ticketId, tags)])
    (hredis : s'.store.redis = s.store.redis) (hnew : s.store.nextTicket ≤ ticketId)
    (hnext : s'.store.nextTicket = ticketId + 1) (hentry : s.dispatcher.booked? = none)
    (hentry' : s'.dispatcher.booked? = some (.taken ticketId)) :
    Accounted (taken ++ [ticketId]) closed lost s' := by
  have hopen : s'.openTickets = s.openTickets ++ [ticketId] := by
    simp [openTickets, htickets]
  have hunknown : ticketId ∉ taken := fun hk => (h.fresh _ hk).not_ge hnew
  have hnotOpen : ticketId ∉ s.openTickets := fun hk =>
    hunknown ((h.balance ticketId).mpr (.inl hk))
  refine ⟨?_, ?_, ?_, ?_, ?_, ?_, ?_, ?_, ?_, ?_, ?_⟩
  · intro k state hstate hended
    rw [hopen]
    rw [System.state, hredis] at hstate
    exact List.mem_append_left _ (h.live k state hstate hended)
  · intro k he
    rw [hentry'] at he
    cases he
    rw [hopen]
    exact ⟨by simp, fun hk => hnotOpen (h.leaked _ hk).1⟩
  · intro k he
    simp [hentry'] at he
  · intro k he
    simp [hentry'] at he
  · intro k hk
    rw [hopen, List.mem_append, List.mem_singleton] at hk
    rw [hredis, hentry']
    rcases hk with hk | rfl
    · rcases h.held k hk with hrecorded | he | hlost
      · exact .inl hrecorded
      · simp [hentry] at he
      · exact .inr (.inr hlost)
    · exact .inr (.inl rfl)
  · intro k hk
    rw [hopen, hredis]
    exact ⟨List.mem_append_left _ (h.leaked k hk).1, (h.leaked k hk).2⟩
  · intro k hk
    rw [hredis] at hk
    exact List.mem_append_left _ (h.recorded k hk)
  · intro k
    rw [hopen, List.mem_append, List.mem_append, h.balance k]
    tauto
  · intro k hk
    rw [hopen, List.mem_append, List.mem_singleton]
    rintro (hk' | rfl)
    · exact h.final k hk hk'
    · exact hunknown ((h.balance k).mpr (.inr hk))
  · intro k hk
    rw [hnext]
    rw [List.mem_append, List.mem_singleton] at hk
    rcases hk with hk | rfl
    · exact (h.fresh k hk).trans_le (hnew.trans (Nat.le_succ _))
    · exact Nat.lt_succ_self _
  · rw [hopen]
    exact List.Nodup.append h.nodup (List.nodup_singleton _)
      (List.disjoint_singleton.mpr hnotOpen)

/-- A ticket is recorded. -/
theorem Accounted.setGroup (h : Accounted taken closed lost s) {ticketId : TicketId}
    (hlive : ∀ k state, s'.state k = some state → state ≠ .ended → k ∈ s.openTickets)
    (htickets : s'.store.tickets = s.store.tickets)
    (hkeys : ∀ k, k ∈ s'.store.redis ↔ k = ticketId ∨ k ∈ s.store.redis)
    (hnext : s'.store.nextTicket = s.store.nextTicket)
    (hentry : s.dispatcher.booked? = some (.taken ticketId))
    (hentry' : s'.dispatcher.booked? = some (.grouped ticketId)) :
    Accounted taken closed lost s' := by
  have hopen : s'.openTickets = s.openTickets := by rw [openTickets, htickets, openTickets]
  obtain ⟨hmem, hnotLost⟩ := h.unrecorded ticketId hentry
  refine ⟨hopen ▸ hlive, ?_, ?_, ?_, ?_, ?_, ?_, hopen ▸ h.balance, hopen ▸ h.final,
    hnext ▸ h.fresh, hopen ▸ h.nodup⟩
  · intro k he
    simp [hentry'] at he
  · intro k he
    rw [hentry'] at he
    cases he
    rwa [hopen]
  · intro k he
    simp [hentry'] at he
  · intro k hk
    rw [hopen] at hk
    rw [hkeys]
    rcases h.held k hk with hrecorded | he | hlost
    · exact .inl (.inr hrecorded)
    · rw [hentry] at he
      cases he
      exact .inl (.inl rfl)
    · exact .inr (.inr hlost)
  · intro k hk
    obtain ⟨hk', hnot⟩ := h.leaked k hk
    rw [hopen, hkeys]
    refine ⟨hk', ?_⟩
    rintro (rfl | hrecorded)
    · exact hnotLost hk
    · exact hnot hrecorded
  · intro k hk
    rcases (hkeys k).mp hk with rfl | hrecorded
    · exact (h.balance k).mpr (.inl hmem)
    · exact h.recorded k hrecorded

/-- A ticket is closed. -/
theorem Accounted.close (h : Accounted taken closed lost s) {ticketId : TicketId}
    (hended : s.state ticketId = some .ended)
    (htickets : s'.store.tickets = s.store.tickets.filter fun e => e.1 ≠ ticketId)
    (hredis : s'.store.redis = s.store.redis)
    (hnext : s'.store.nextTicket = s.store.nextTicket) (hentry : s.dispatcher.booked? = none)
    (hentry' : s'.dispatcher.booked? = some (.closed ticketId)) :
    Accounted taken (closed ++ [ticketId]) lost s' := by
  have hopen : ∀ k, k ∈ s'.openTickets ↔ k ∈ s.openTickets ∧ k ≠ ticketId := by
    intro k
    simp only [openTickets, htickets, List.mem_map, List.mem_filter, decide_eq_true_eq]
    grind
  have hrecorded : ticketId ∈ s.store.redis := Store.mem_of_state hended
  refine ⟨?_, ?_, ?_, ?_, ?_, ?_, hredis ▸ h.recorded, ?_, ?_, hnext ▸ h.fresh, ?_⟩
  · intro k state hstate hlive
    rw [System.state, hredis] at hstate
    refine (hopen k).mpr ⟨h.live k state hstate hlive, ?_⟩
    rintro rfl
    rw [System.state, hstate, Option.some.injEq] at hended
    exact hlive hended
  · intro k he
    simp [hentry'] at he
  · intro k he
    simp [hentry'] at he
  · intro k he
    rw [hentry'] at he
    cases he
    simp [hopen]
  · intro k hk
    rw [hredis]
    rcases h.held k ((hopen k).mp hk).1 with hkey | he | hlost
    · exact .inl hkey
    · simp [hentry] at he
    · exact .inr (.inr hlost)
  · intro k hk
    obtain ⟨hk', hnot⟩ := h.leaked k hk
    rw [hopen, hredis]
    refine ⟨⟨hk', ?_⟩, hnot⟩
    rintro rfl
    exact hnot hrecorded
  · intro k
    rw [hopen, List.mem_append, List.mem_singleton, h.balance k]
    by_cases hk : k = ticketId
    · subst hk
      have hbalance := (h.balance k).mp (h.recorded k hrecorded)
      tauto
    · tauto
  · intro k hk
    rw [hopen]
    rw [List.mem_append, List.mem_singleton] at hk
    rintro ⟨hk', hne⟩
    rcases hk with hk | rfl
    · exact h.final k hk hk'
    · exact hne rfl
  · rw [openTickets, htickets]
    exact h.nodup.sublist (List.filter_sublist.map _)

/-- The record of a closed ticket is deleted. -/
theorem Accounted.delete (h : Accounted taken closed lost s) {ticketId : TicketId}
    (hlive : ∀ k state, s'.state k = some state → state ≠ .ended → k ∈ s.openTickets)
    (htickets : s'.store.tickets = s.store.tickets)
    (hkeys : ∀ k, k ∈ s'.store.redis ↔ k ≠ ticketId ∧ k ∈ s.store.redis)
    (hnext : s'.store.nextTicket = s.store.nextTicket)
    (hentry : s.dispatcher.booked? = some (.closed ticketId))
    (hentry' : s'.dispatcher.booked? = none) : Accounted taken closed lost s' := by
  have hopen : s'.openTickets = s.openTickets := by rw [openTickets, htickets, openTickets]
  have hclosed := h.dropping ticketId hentry
  refine ⟨hopen ▸ hlive, ?_, ?_, ?_, ?_, ?_, ?_, hopen ▸ h.balance, hopen ▸ h.final,
    hnext ▸ h.fresh, hopen ▸ h.nodup⟩
  · intro k he
    simp [hentry'] at he
  · intro k he
    simp [hentry'] at he
  · intro k he
    simp [hentry'] at he
  · intro k hk
    rw [hopen] at hk
    rw [hkeys]
    rcases h.held k hk with hrecorded | he | hlost
    · refine .inl ⟨?_, hrecorded⟩
      rintro rfl
      exact hclosed hk
    · simp [hentry] at he
    · exact .inr (.inr hlost)
  · intro k hk
    obtain ⟨hk', hnot⟩ := h.leaked k hk
    rw [hopen, hkeys]
    exact ⟨hk', fun hkey => hnot hkey.2⟩
  · intro k hk
    exact h.recorded k ((hkeys k).mp hk).2

/-- The dispatcher is killed. -/
theorem Accounted.restart (h : Accounted taken closed lost s) (hinv : Inv opts s)
    (hstore : s'.store = s.store) (hentry' : s'.dispatcher.booked? = none) :
    Accounted taken closed (lost ++ (s.lost? .restart).toList) s' := by
  have hopen : s'.openTickets = s.openTickets := by rw [openTickets, hstore, openTickets]
  have hlost : ∀ k, s.lost? .restart = some k ↔ s.dispatcher.booked? = some (.taken k) := by
    intro k
    unfold lost?
    split <;> simp_all
  refine ⟨?_, ?_, ?_, ?_, ?_, ?_, hstore ▸ h.recorded, hopen ▸ h.balance, hopen ▸ h.final,
    hstore ▸ h.fresh, hopen ▸ h.nodup⟩
  · intro k state hstate hended
    rw [System.state, hstore] at hstate
    exact hopen ▸ h.live k state hstate hended
  · intro k he
    simp [hentry'] at he
  · intro k he
    simp [hentry'] at he
  · intro k he
    simp [hentry'] at he
  · intro k hk
    rw [hopen] at hk
    rw [hstore, List.mem_append, Option.mem_toList, hlost]
    have hheld := h.held k hk
    tauto
  · intro k hk
    rw [hopen, hstore]
    rw [List.mem_append, Option.mem_toList, hlost] at hk
    rcases hk with hk | he
    · exact h.leaked k hk
    · refine ⟨(h.unrecorded k he).1, ?_⟩
      -- the dispatcher has not written the record yet
      have hsees := hinv.dispatcher
      generalize s.dispatcher = pc at hsees he
      cases pc <;> simp only [DispatcherPc.booked?, Option.some.injEq, Entry.taken.injEq,
        reduceCtorEq] at he
      subst he
      exact hsees.2.2

/-- Every step keeps the books. -/
theorem Accounted.step (h : Accounted taken closed lost s) (hinv : Inv opts s)
    (hstep : System.step opts s a = some s') :
    Accounted (taken ++ (s.taken? a).toList) (closed ++ (s.closed? a).toList)
      (lost ++ (s.lost? a).toList) s' := by
  have hlive : ∀ k state, s'.state k = some state → state ≠ .ended → k ∈ s.openTickets :=
    fun k => h.live_step hinv hstep
  cases step_cases hstep with
  | @dispatcher i store pc hpc =>
      have hsees := hinv.dispatcher
      have hlost : s.lost? (.dispatcher i) = none := rfl
      -- a switch of a recorded agent
      have hswitch : ∀ {ticketId old state}, (s.store.redis.read ticketId).state = some old →
          store = s.store.setState ticketId state → s.dispatcher.booked? = none →
          pc.booked? = none → Accounted taken closed lost { s with
            store := store, dispatcher := pc, tasks := s.tasks ++ s.dispatcher.tasks } := by
        rintro ticketId old state hold rfl hentry hentry'
        exact h.kept hinv hstep rfl (Store.mem_write (Store.mem_of_state hold) _) rfl
          (.inr ⟨hentry', by simp [hentry]⟩)
      generalize hdispatcher : s.dispatcher = before at hpc hsees
      have hentry : s.dispatcher.booked? = before.booked? := by rw [hdispatcher]
      have hfree : (∀ k, before.booked? ≠ some (.taken k)) →
          ∀ k, s.dispatcher.booked? ≠ some (.taken k) := by
        rw [hentry]
        exact id
      cases hpc with
      | newTicket group todo c =>
          simp only [taken?, closed?, hlost, hdispatcher, Option.toList_none, Option.toList_some,
            List.append_nil]
          exact h.newTicket rfl rfl (Nat.le_add_right _ _) rfl hentry rfl
      | setGroup ticketId group todo c =>
          simp only [taken?, closed?, hlost, hdispatcher, Option.toList_none, List.append_nil]
          exact h.setGroup hlive rfl (fun k => HashStore.mem_write) rfl hentry rfl
      | close ticketId rest =>
          simp only [taken?, closed?, hlost, hdispatcher, Option.toList_none, Option.toList_some,
            List.append_nil]
          exact h.close hsees.head rfl rfl rfl hentry rfl
      | delete ticketId rest =>
          simp only [taken?, closed?, hlost, hdispatcher, Option.toList_none, List.append_nil]
          exact h.delete hlive rfl (fun k => AList.mem_erase) rfl hentry
            (DispatcherPc.booked?_of_loops DispatcherPc.loops_nextDrop)
      | setFailed ticketId state rest =>
          simp only [taken?, closed?, hlost, hdispatcher, Option.toList_none, List.append_nil]
          cases hstate : (s.store.redis.read ticketId).state with
          | none => simp [DispatcherPc.Sees, hstate, DispatcherPc.failedState?] at hsees
          | some old =>
              rw [← hdispatcher]
              exact hswitch hstate rfl hentry DispatcherPc.booked?_nextDetect
      | setTerminating =>
          simp only [taken?, closed?, hlost, hdispatcher, Option.toList_none, List.append_nil]
          exact hdispatcher ▸ hswitch hsees.head rfl hentry (by simp)
      | setPreparing =>
          simp only [taken?, closed?, hlost, hdispatcher, Option.toList_none, List.append_nil]
          exact hdispatcher ▸ hswitch hsees.1.head rfl hentry (by simp)
      | stop =>
          simp only [taken?, closed?, hlost, hdispatcher, Option.toList_none, List.append_nil]
          exact hdispatcher ▸ hswitch hsees.1.head rfl hentry (by simp)
      | setData data ticketId rest =>
          simp only [taken?, closed?, hlost, hdispatcher, Option.toList_none, List.append_nil]
          refine hdispatcher ▸ h.kept hinv hstep rfl (fun k => ?_) rfl
            (.inr ⟨rfl, hfree (by simp [DispatcherPc.booked?])⟩)
          exact Store.mem_write (Store.mem_of_state hsees.head) _ k
      | setNew ticketId group todo c =>
          simp only [taken?, closed?, hlost, hdispatcher, Option.toList_none, List.append_nil]
          refine hdispatcher ▸ h.kept hinv hstep rfl (fun k => ?_) rfl
            (.inr ⟨by simp, hfree (by simp [DispatcherPc.booked?])⟩)
          -- the agent has got its group
          obtain ⟨-, -, -, group', -, hgroup⟩ := hsees
          refine Store.mem_write ?_ _ k
          by_contra hnew
          rw [HashStore.read_of_notMem hnew] at hgroup
          contradiction
      | die before e =>
          have hnotTaken : ∀ k, before.booked? ≠ some (.taken k) := by
            intro k hk
            cases before <;> simp [DispatcherPc.booked?] at hk
            simp [System.step, hdispatcher, DispatcherPc.step] at hstep
          have hnone : s.taken? (.dispatcher i) = none ∧ s.closed? (.dispatcher i) = none := by
            cases before <;> simp [taken?, closed?, hdispatcher]
            all_goals simp [System.step, hdispatcher, DispatcherPc.step] at hstep
          simp only [hnone, hlost, Option.toList_none, List.append_nil]
          exact hdispatcher ▸ h.kept hinv hstep rfl (fun _ => Iff.rfl) rfl
            (.inr ⟨rfl, hfree hnotTaken⟩)
      | _ =>
          simp only [taken?, closed?, hlost, hdispatcher, Option.toList_none, List.append_nil]
          exact hdispatcher ▸ h.kept hinv hstep rfl (fun _ => Iff.rfl) rfl
            (.inr ⟨by first | rfl | simp, hfree (by simp [DispatcherPc.booked?])⟩)
  | startTask | raised | kill =>
      simpa [taken?, closed?, lost?] using
        h.kept hinv hstep rfl (fun _ => Iff.rfl) rfl (.inl rfl)
  | returned hlookup hpc =>
      simp only [taken?, closed?, lost?, Option.toList_none, List.append_nil]
      have hmatch := hinv.handlers _ _ hlookup
      obtain rfl | ⟨old, next, hold, -, rfl, -⟩ := hmatch.return hpc
      · exact h.kept hinv hstep rfl (fun _ => Iff.rfl) rfl (.inl rfl)
      · exact h.kept hinv hstep rfl (Store.mem_write (Store.mem_of_state hold) _) rfl (.inl rfl)
  | handler hlookup hpc =>
      simp only [taken?, closed?, lost?, Option.toList_none, List.append_nil]
      obtain ⟨rfl, -⟩ := HandlerPc.Matches.step (hinv.handlers _ _ hlookup) hpc
      exact h.kept hinv hstep rfl (fun _ => Iff.rfl) rfl (.inl rfl)
  | restart =>
      simp only [taken?, closed?, Option.toList_none, List.append_nil]
      exact h.restart hinv rfl rfl

/-! ## Runs -/

/-- The books of every run balance. -/
theorem accounted (hrun : Path (System.step opts) anyStep {} as s) :
    Accounted (observe taken? (System.step opts) {} as) (observe closed? (System.step opts) {} as)
      (observe lost? (System.step opts) {} as) s := by
  induction hrun with
  | refl =>
      refine ⟨?_, ?_, ?_, ?_, ?_, ?_, ?_, ?_, ?_, ?_, ?_⟩ <;>
        simp [observe, openTickets, System.state, DispatcherPc.booked?]
      intro k state hstate
      contradiction
  | @snoc as s s' a hprev _ hstep ih =>
      rw [hprev.observe_snoc taken? hstep, hprev.observe_snoc closed? hstep,
        hprev.observe_snoc lost? hstep]
      exact ih.step ((inv_initial opts).run hprev) hstep

/-- There are at most as many open tickets as recorded agents, one more, and those that were
lost. -/
theorem Accounted.length_openTickets (h : Accounted taken closed lost s) :
    s.openTickets.length ≤ s.store.redis.keys.length + 1 + lost.length := by
  -- the ticket that is just being recorded, if there is one
  obtain ⟨hand, hlength, hhand⟩ : ∃ hand : List TicketId, hand.length ≤ 1 ∧
      ∀ k, s.dispatcher.booked? = some (.taken k) → k ∈ hand := by
    cases s.dispatcher.booked? with
    | none => exact ⟨[], by simp, by simp⟩
    | some entry =>
        cases entry with
        | taken k => exact ⟨[k], by simp, by simp⟩
        | grouped | closed => exact ⟨[], by simp, by simp⟩
  have hsubset : s.openTickets ⊆ s.store.redis.keys ++ hand ++ lost := by
    intro k hk
    rw [List.mem_append, List.mem_append]
    rcases h.held k hk with hrecorded | hentry | hlost
    · exact .inl (.inl (AList.mem_keys.mp hrecorded))
    · exact .inl (.inr (hhand k hentry))
    · exact .inr hlost
  have hle := (List.subperm_of_subset h.nodup hsubset).length_le
  rw [List.length_append, List.length_append] at hle
  omega

/-- In every run, with any workers and any restarts, the tickets that the dispatcher was told are
the open and the closed ones, and no ticket is both.  An open ticket is recorded, or it is just
being recorded, or the dispatcher was killed before it could do so; and such a ticket stays open
for ever and is never recorded.  An agent that is not ENDED has its open ticket, so there are at
most as many open tickets as recorded agents, one more, and those that were lost. -/
theorem tickets_accounted (hrun : Path (System.step opts) anyStep {} as s) :
    (∀ k, k ∈ observe taken? (System.step opts) {} as ↔
      k ∈ s.openTickets ∨ k ∈ observe closed? (System.step opts) {} as) ∧
    (∀ k ∈ observe closed? (System.step opts) {} as, k ∉ s.openTickets) ∧
    (∀ k ∈ s.openTickets, k ∈ s.store.redis ∨ s.dispatcher.booked? = some (.taken k) ∨
      k ∈ observe lost? (System.step opts) {} as) ∧
    (∀ k ∈ observe lost? (System.step opts) {} as, k ∈ s.openTickets ∧ k ∉ s.store.redis) ∧
    (∀ k state, s.state k = some state → state ≠ .ended → k ∈ s.openTickets) ∧
    s.openTickets.length ≤
      s.store.redis.keys.length + 1 + (observe lost? (System.step opts) {} as).length := by
  have hbooks := accounted hrun
  exact ⟨hbooks.balance, hbooks.final, hbooks.held, hbooks.leaked, hbooks.live,
    hbooks.length_openTickets⟩

/-- The dispatcher is killed before it records its first ticket. -/
def losingRun : List Action :=
  List.replicate 7 (keepOne []) ++ .restart :: List.replicate 9 (keepOne [])

/-- The state after this. -/
def agentLost : System :=
  (execWithin (System.step workersOpts) anyStep {} losingRun).get (by decide +kernel)

/-- The ticket stays open, next to the one that was taken later. -/
theorem tickets_accounted_losingRun :
    1 ∈ agentLost.openTickets ∧ 1 ∉ agentLost.store.redis ∧
      agentLost.openTickets.length ≤ agentLost.store.redis.keys.length + 1 +
        (observe lost? (System.step workersOpts) {} losingRun).length := by
  have hrun : Path (System.step workersOpts) anyStep {} losingRun agentLost :=
    Path.of_execWithin (Option.some_get _).symm
  obtain ⟨-, -, -, hleaked, -, hlength⟩ := tickets_accounted hrun
  obtain ⟨hopen, hunrecorded⟩ := hleaked 1 (by decide +kernel)
  exact ⟨hopen, hunrecorded, hlength⟩

end System

end Resalloc.Spawner
