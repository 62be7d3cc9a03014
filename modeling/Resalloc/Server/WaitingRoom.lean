import Resalloc.Foundations.Entries
import Resalloc.Server.Api

/-!
# Waiting for a ticket

A client that calls {lit}`ServerAPI.waitTicket` gets a thread, which sleeps in the condition
{lit}`sync.resource_ready` between its looks into the database.  When the manager has assigned a
resource, it writes the identifier of the thread that the ticket names to {lit}`sync.tid` and
notifies all threads; those that find another identifier there go back to sleep.  What happens
under the lock of the condition is one step.

Main definitions:

- Definitions {lit}`WaitingRoom`, {lit}`WaitingRoom.Move` and {lit}`WaitingRoom.step`: the threads
  beside the running server.

Main results:

- Theorem {lit}`WaitingRoom.step_cases`: what a move does.
- Theorem {lit}`WaitingRoom.runs_server`: the server runs like it does on its own.
- Theorem {lit}`WaitingRoom.told_of_path`: what the threads return.
-/

namespace Resalloc

open Foundations

/-! ## Threads -/

/-- Where a thread is in {lit}`waitTicket`. -/
inductive WaiterPc
  /-- Before the transaction that writes its identifier to the ticket. -/
  | register
  /-- Before a look into the database. -/
  | check
  /-- Before it takes the lock of the condition. -/
  | enter
  /-- In {lit}`wait`, neither notified nor timed out. -/
  | asleep
  /-- Notified, and going to take the lock again. -/
  | notified
  /-- Timed out, and going to take the lock again. -/
  | expired
  | returned (data : Option (List UInt8))
  | raised (e : PyError)
deriving DecidableEq

/-- What has become of a call. -/
def WaiterPc.result : WaiterPc → Except PyError (Option (Option (List UInt8)))
  | .returned data => .ok (some data)
  | .raised e => .error e
  | .register | .check | .enter | .asleep | .notified | .expired => .ok none

/-- A thread that executes {lit}`waitTicket`. -/
structure Waiter where
  ticketId : TicketId
  pc : WaiterPc := .register
deriving DecidableEq

/-- The effect of {lit}`notify_all` on a thread. -/
def Waiter.notify (waiter : Waiter) : Waiter :=
  { waiter with pc := if waiter.pc = .asleep then .notified else waiter.pc }

/-- Where the manager is in {lit}`_notify_waiting`. -/
inductive Notice
  | setTid (thread : ℕ)
  | notifyAll
deriving DecidableEq

/-- The server with the threads that wait.  The number of a thread is what {lit}`my_id` returns. -/
structure WaitingRoom where
  server : World := {}
  /-- The column {lit}`tid` of the tickets. -/
  tids : List (TicketId × ℕ) := []
  /-- The attribute {lit}`tid` of the {lit}`Synchronizer`, which does not exist at first. -/
  tid : Option ℕ := none
  notice : Option Notice := none
  waiters : IdTable Waiter := .empty
deriving DecidableEq

/-- What can happen. -/
inductive WaitingRoom.Move
  | server (a : Action)
  /-- The manager goes on in {lit}`_notify_waiting`. -/
  | notify
  | call (ticketId : TicketId)
  | waiter (k : ℕ)
  /-- The timeout of a thread is over. -/
  | expire (k : ℕ)
deriving DecidableEq

namespace WaitingRoom

/-- A thread goes on. -/
def goto (d : WaitingRoom) (k : ℕ) (pc : WaiterPc) : WaitingRoom :=
  { d with waiters := d.waiters.modify k fun waiter => { waiter with pc := pc } }

/-- The next step of a thread in {lit}`waitTicket`. -/
def stepWaiter (d : WaitingRoom) (k : ℕ) (waiter : Waiter) : Option WaitingRoom :=
  match waiter.pc with
  | .register =>
      match d.server.db.tickets.get? waiter.ticketId with
      | none => some (d.goto k (.raised .attributeError))
      | some _ => some { d.goto k .check with tids := setItem d.tids waiter.ticketId k }
  | .check =>
      match d.server.db.tickets.get? waiter.ticketId with
      | none => some (d.goto k (.raised .attributeError))
      | some ticket =>
          match ticket.resource? d.server.db with
          | some resource => some (d.goto k (.returned resource.data))
          | none => some (d.goto k .enter)
  | .enter => some (d.goto k .asleep)
  | .notified =>
      match d.tid with
      | none => some (d.goto k (.raised .attributeError))
      | some tid => some (d.goto k (if tid = k then .check else .asleep))
  | .expired => some (d.goto k .check)
  | .asleep | .returned _ | .raised _ => none

/-- The notification that follows an assignment, {lit}`ticket.tid`. -/
def noticeFor (d : WaitingRoom) (a : Action) : Option Notice :=
  (d.server.assignment? a).bind fun e => (d.tids.lookup e.2).map .setTid

/-- The effect of a move; {lean}`none` if its party cannot move. -/
def step (d : WaitingRoom) : Move → Option WaitingRoom
  | .server (.manager i) =>
      if d.notice = none then
        (d.server.step (.manager i)).map fun w =>
          { d with server := w, notice := d.noticeFor (.manager i) }
      else none
  | .server (.restart importTime) =>
      (d.server.step (.restart importTime)).map fun w => { server := w, tids := d.tids }
  | .server a => (d.server.step a).map fun w => { d with server := w }
  | .notify =>
      match d.notice with
      | none => none
      | some (.setTid thread) => some { d with tid := some thread, notice := some .notifyAll }
      | some .notifyAll =>
          some { d with notice := none, waiters := d.waiters.map Waiter.notify }
  | .call ticketId => some { d with waiters := d.waiters.push { ticketId := ticketId } }
  | .waiter k => (d.waiters.get? k).bind (d.stepWaiter k)
  | .expire k =>
      (d.waiters.get? k).bind fun waiter =>
        if waiter.pc = .asleep then some (d.goto k .expired) else none

/-- The step of the server in a move. -/
def serverAction? (_ : WaitingRoom) : Move → Option Action
  | .server a => some a
  | _ => none

@[simp] theorem goto_server (d : WaitingRoom) (k : ℕ) (pc : WaiterPc) :
    (d.goto k pc).server = d.server :=
  rfl

@[simp] theorem goto_tids (d : WaitingRoom) (k : ℕ) (pc : WaiterPc) :
    (d.goto k pc).tids = d.tids :=
  rfl

@[simp] theorem goto_tid (d : WaitingRoom) (k : ℕ) (pc : WaiterPc) :
    (d.goto k pc).tid = d.tid :=
  rfl

@[simp] theorem goto_notice (d : WaitingRoom) (k : ℕ) (pc : WaiterPc) :
    (d.goto k pc).notice = d.notice :=
  rfl

@[simp] theorem goto_waiters (d : WaitingRoom) (k : ℕ) (pc : WaiterPc) :
    (d.goto k pc).waiters = d.waiters.modify k fun waiter => { waiter with pc := pc } :=
  rfl

/-! ## Steps -/

/-- What a thread does in its own step. -/
inductive WaiterSteps (d : WaitingRoom) (k : ℕ) (waiter : Waiter) : WaiterPc → Prop
  | registered {t} : waiter.pc = .register → d.server.db.tickets.get? waiter.ticketId = some t →
      WaiterSteps d k waiter .check
  | refused : waiter.pc = .register ∨ waiter.pc = .check →
      d.server.db.tickets.get? waiter.ticketId = none →
      WaiterSteps d k waiter (.raised .attributeError)
  | found {t r} : waiter.pc = .check → d.server.db.tickets.get? waiter.ticketId = some t →
      t.resource? d.server.db = some r → WaiterSteps d k waiter (.returned r.data)
  | unserved {t} : waiter.pc = .check → d.server.db.tickets.get? waiter.ticketId = some t →
      t.resource? d.server.db = none → WaiterSteps d k waiter .enter
  | slept : waiter.pc = .enter → WaiterSteps d k waiter .asleep
  | unset : waiter.pc = .notified → d.tid = none →
      WaiterSteps d k waiter (.raised .attributeError)
  | woken : waiter.pc = .notified → d.tid = some k → WaiterSteps d k waiter .check
  | overlooked {j} : waiter.pc = .notified → d.tid = some j → j ≠ k →
      WaiterSteps d k waiter .asleep
  | resumed : waiter.pc = .expired → WaiterSteps d k waiter .check

/-- What a move does. -/
inductive Steps (d : WaitingRoom) : Move → WaitingRoom → Prop
  | server {a w notice} : (∀ t, a ≠ .restart t) → d.server.step a = some w →
      d.notice = none ∧ notice = d.noticeFor a ∨
        d.server.assignment? a = none ∧ notice = d.notice →
      Steps d (.server a) { d with server := w, notice := notice }
  | restart {t w} : d.server.step (.restart t) = some w →
      Steps d (.server (.restart t)) { server := w, tids := d.tids }
  | setTid {j} : d.notice = some (.setTid j) →
      Steps d .notify { d with tid := some j, notice := some .notifyAll }
  | notifyAll : d.notice = some .notifyAll →
      Steps d .notify { d with notice := none, waiters := d.waiters.map Waiter.notify }
  | call (ticketId) :
      Steps d (.call ticketId) { d with waiters := d.waiters.push { ticketId := ticketId } }
  | waiter {k waiter pc tids} : d.waiters.get? k = some waiter → d.WaiterSteps k waiter pc →
      tids = d.tids ∨ waiter.pc = .register ∧ tids = setItem d.tids waiter.ticketId k →
      Steps d (.waiter k) { d.goto k pc with tids := tids }
  | expire {k waiter} : d.waiters.get? k = some waiter → waiter.pc = .asleep →
      Steps d (.expire k) (d.goto k .expired)

/-- What a move does to a thread that has been there before. -/
inductive MovesTo (d : WaitingRoom) (k : ℕ) (waiter : Waiter) : Move → WaiterPc → Prop
  | other {m} : m ≠ .waiter k → (waiter.pc = .asleep → m = .notify → d.notice ≠ some .notifyAll) →
      MovesTo d k waiter m waiter.pc
  | notified : d.notice = some .notifyAll → waiter.pc = .asleep →
      MovesTo d k waiter .notify .notified
  | expired : waiter.pc = .asleep → MovesTo d k waiter (.expire k) .expired
  | own {pc} : d.WaiterSteps k waiter pc → MovesTo d k waiter (.waiter k) pc

variable {d d' : WaitingRoom} {m : Move} {ms : List Move} {k : ℕ} {tid : TicketId}
variable {waiter : Waiter}

/-- The outcomes of {lit}`stepWaiter`. -/
theorem stepWaiter_cases (hstep : d.stepWaiter k waiter = some d') :
    ∃ pc tids, d' = { d.goto k pc with tids := tids } ∧ d.WaiterSteps k waiter pc ∧
      (tids = d.tids ∨ waiter.pc = .register ∧ tids = setItem d.tids waiter.ticketId k) := by
  unfold stepWaiter at hstep
  cases hpc : waiter.pc with
  | register =>
      simp only [hpc] at hstep
      cases ht : d.server.db.tickets.get? waiter.ticketId with
      | none =>
          simp only [ht, Option.some.injEq] at hstep
          exact ⟨_, _, hstep.symm, .refused (.inl hpc) ht, .inl rfl⟩
      | some t =>
          simp only [ht, Option.some.injEq] at hstep
          exact ⟨_, _, hstep.symm, .registered hpc ht, .inr ⟨rfl, rfl⟩⟩
  | check =>
      simp only [hpc] at hstep
      cases ht : d.server.db.tickets.get? waiter.ticketId with
      | none =>
          simp only [ht, Option.some.injEq] at hstep
          exact ⟨_, _, hstep.symm, .refused (.inr hpc) ht, .inl rfl⟩
      | some t =>
          cases hr : t.resource? d.server.db with
          | none =>
              simp only [ht, hr, Option.some.injEq] at hstep
              exact ⟨_, _, hstep.symm, .unserved hpc ht hr, .inl rfl⟩
          | some r =>
              simp only [ht, hr, Option.some.injEq] at hstep
              exact ⟨_, _, hstep.symm, .found hpc ht hr, .inl rfl⟩
  | enter =>
      simp only [hpc, Option.some.injEq] at hstep
      exact ⟨_, _, hstep.symm, .slept hpc, .inl rfl⟩
  | notified =>
      simp only [hpc] at hstep
      cases htid : d.tid with
      | none =>
          simp only [htid, Option.some.injEq] at hstep
          exact ⟨_, _, hstep.symm, .unset hpc htid, .inl rfl⟩
      | some j =>
          simp only [htid, Option.some.injEq] at hstep
          refine ⟨_, _, hstep.symm, ?_, .inl rfl⟩
          split_ifs with hj
          · exact .woken hpc (by rw [htid, hj])
          · exact .overlooked hpc htid hj
  | expired =>
      simp only [hpc, Option.some.injEq] at hstep
      exact ⟨_, _, hstep.symm, .resumed hpc, .inl rfl⟩
  | asleep | returned | raised => simp [hpc] at hstep

/-- The outcomes of {lit}`step`. -/
theorem step_cases (hstep : d.step m = some d') : d.Steps m d' := by
  cases m with
  | server a =>
      cases a with
      | restart t =>
          simp only [step] at hstep
          obtain ⟨w, hw, rfl⟩ := Option.map_eq_some_iff.mp hstep
          exact .restart hw
      | manager i =>
          simp only [step] at hstep
          split_ifs at hstep with hnotice
          obtain ⟨w, hw, rfl⟩ := Option.map_eq_some_iff.mp hstep
          exact .server (by simp) hw (.inl ⟨hnotice, rfl⟩)
      | _ =>
          simp only [step] at hstep
          obtain ⟨w, hw, rfl⟩ := Option.map_eq_some_iff.mp hstep
          exact .server (by simp) hw (.inr ⟨rfl, rfl⟩)
  | notify =>
      simp only [step] at hstep
      split at hstep
      · contradiction
      next hnotice =>
        obtain rfl := Option.some.inj hstep
        exact .setTid hnotice
      next hnotice =>
        obtain rfl := Option.some.inj hstep
        exact .notifyAll hnotice
  | call ticketId =>
      obtain rfl := Option.some.inj hstep
      exact .call ticketId
  | waiter k =>
      obtain ⟨waiter, hk, hnext⟩ := Option.bind_eq_some_iff.mp hstep
      obtain ⟨pc, tids, rfl, hsteps, htids⟩ := stepWaiter_cases hnext
      exact .waiter hk hsteps htids
  | expire k =>
      obtain ⟨waiter, hk, hexpire⟩ := Option.bind_eq_some_iff.mp hstep
      split_ifs at hexpire with hasleep
      obtain rfl := Option.some.inj hexpire
      exact .expire hk hasleep

/-- What a move does to a thread, unless the server restarts. -/
theorem Steps.waiter_next (h : d.Steps m d') (hlives : ∀ t, m ≠ .server (.restart t))
    (hk : d.waiters.get? k = some waiter) :
    ∃ pc, d'.waiters.get? k = some { waiter with pc := pc } ∧ d.MovesTo k waiter m pc := by
  cases h with
  | server => exact ⟨waiter.pc, hk, .other (by simp) (by simp)⟩
  | restart => exact absurd rfl (hlives _)
  | setTid hnotice => exact ⟨waiter.pc, hk, .other (by simp) (by simp [hnotice])⟩
  | notifyAll hnotice =>
      refine ⟨waiter.notify.pc, by simp [hk, Waiter.notify], ?_⟩
      simp only [Waiter.notify]
      split_ifs with hpc
      · exact .notified hnotice hpc
      · exact .other (by simp) fun hasleep => absurd hasleep hpc
  | call => exact ⟨waiter.pc, IdTable.get?_push_of_some _ hk, .other (by simp) (by simp)⟩
  | @waiter j _ pc _ hj hsteps =>
      by_cases heq : k = j
      · subst heq
        obtain rfl := Option.some.inj (hk.symm.trans hj)
        exact ⟨pc, by simp [hk], .own hsteps⟩
      · refine ⟨waiter.pc, ?_, .other (by simpa using Ne.symm heq) (by simp)⟩
        rw [goto_waiters, IdTable.get?_modify_of_ne heq, hk]
  | @expire j _ hj hasleep =>
      by_cases heq : k = j
      · subst heq
        obtain rfl := Option.some.inj (hk.symm.trans hj)
        exact ⟨.expired, by simp [hk], .expired hasleep⟩
      · refine ⟨waiter.pc, ?_, .other (by simp) (by simp)⟩
        rw [goto_waiters, IdTable.get?_modify_of_ne heq, hk]

/-- A thread that was not there before is going to write its identifier to its ticket. -/
theorem Steps.called (h : d.Steps m d') (hnone : d.waiters.get? k = none)
    (hk : d'.waiters.get? k = some waiter) : waiter.pc = .register := by
  cases h with
  | call =>
      rcases IdTable.get?_push_some hk with ⟨-, rfl⟩ | hold
      · rfl
      · rw [hnone] at hold
        contradiction
  | waiter | expire =>
      rw [goto_waiters, IdTable.get?_modify] at hk
      split_ifs at hk <;> simp [hnone] at hk
  | _ => simp [hnone] at hk

/-- A ticket names a thread since the first transaction of the thread. -/
theorem Steps.named (h : d.Steps m d') (htid : d'.tids.lookup tid = some k) :
    d.tids.lookup tid = some k ∨
      m = .waiter k ∧ ∃ waiter, d.waiters.get? k = some waiter ∧ waiter.pc = .register := by
  cases h with
  | @waiter j waiter _ tids hj _ htids =>
      rcases htids with rfl | ⟨hpc, rfl⟩
      · exact .inl htid
      · simp only [lookup_setItem] at htid
        split_ifs at htid
        · obtain rfl := Option.some.inj htid
          exact .inr ⟨rfl, waiter, hj, hpc⟩
        · exact .inl htid
  | _ => exact .inl htid

/-! ## The server of the room -/

/-- Every move is a step of the server, or leaves it as it is. -/
theorem step_server (hstep : d.step m = some d') :
    stepOrStay World.step d.server (d.serverAction? m) = some d'.server := by
  cases step_cases hstep with
  | server _ hw | restart hw => exact hw
  | _ => rfl

/-- The server of a room runs like a server on its own. -/
theorem runs_server {ok : WaitingRoom → Move → Prop} (hrun : Path step ok d ms d') :
    Path World.step anyStep d.server (observe serverAction? step d ms) d'.server :=
  hrun.project WaitingRoom.server serverAction? fun _ _ _ => step_server

/-- What a run of the server reaches. -/
theorem reaches_server (hrun : Path step anyStep {} ms d) :
    World.Reaches anyStep (observe serverAction? step {} ms) d.server :=
  runs_server hrun

/-- What a ticket has before a move, it has after it. -/
theorem resource_kept (hrun : Path step anyStep {} ms d) (hstep : d.step m = some d') {t : Ticket}
    {r : Resource} (ht : d.server.db.tickets.get? tid = some t)
    (hr : t.resource? d.server.db = some r) :
    ∃ t' r', d'.server.db.tickets.get? tid = some t' ∧ t'.resource? d'.server.db = some r' ∧
      r'.data = r.data := by
  have hserver := reaches_server hrun
  have hworld := step_server hstep
  cases haction : d.serverAction? m with
  | none =>
      rw [haction, stepOrStay, Option.some.injEq] at hworld
      rw [← hworld]
      exact ⟨t, r, ht, hr, rfl⟩
  | some a =>
      rw [haction] at hworld
      exact hserver.inv.output_step hserver.delivered hworld ht hr

/-! ## What a call returns -/

/-- What the threads return is what their tickets have. -/
def Told (d : WaitingRoom) : Prop :=
  ∀ k tid data, d.waiters.get? k = some { ticketId := tid, pc := .returned data } →
    ∃ t r, d.server.db.tickets.get? tid = some t ∧ t.resource? d.server.db = some r ∧ r.data = data

/-- Every move keeps this. -/
theorem Told.step (h : d.Told) (hrun : Path WaitingRoom.step anyStep {} ms d)
    (hstep : d.step m = some d') : d'.Told := by
  intro k tid data hk'
  have hsteps := step_cases hstep
  by_cases hrestart : ∃ t, m = .server (.restart t)
  · obtain ⟨t, rfl⟩ := hrestart
    cases hsteps with
    | server hne => exact absurd rfl (hne t)
    | restart => simp at hk'
  cases hk : d.waiters.get? k with
  | none => simpa using hsteps.called hk hk'
  | some waiter =>
      obtain ⟨pc, hnext, hrow⟩ := hsteps.waiter_next (not_exists.mp hrestart) hk
      obtain ⟨hticket, rfl⟩ := Waiter.mk.inj (Option.some.inj (hnext.symm.trans hk'))
      obtain ⟨ticketId, pc⟩ := waiter
      obtain rfl : ticketId = tid := hticket
      generalize hpc : WaiterPc.returned data = pc' at hrow
      cases hrow with
      | other =>
          obtain rfl : pc = .returned data := hpc.symm
          obtain ⟨t, r, ht, hr, hdata⟩ := h _ _ _ hk
          obtain ⟨t', r', ht', hr', hsame⟩ := resource_kept hrun hstep ht hr
          exact ⟨t', r', ht', hr', hsame.trans hdata⟩
      | own hown =>
          cases hown with
          | found _ ht hr =>
              obtain rfl := WaiterPc.returned.inj hpc
              exact resource_kept hrun hstep ht hr
          | _ => contradiction
      | _ => contradiction

/-- A call returns the output that its ticket has from then on. -/
theorem told_of_path (hrun : Path step anyStep {} ms d) : d.Told := by
  induction hrun with
  | refl => simp [Told]
  | snoc hprev _ hstep ih => exact ih.step hprev hstep

/-! ## What a thread reads -/

/-- The identifier is there when a notified thread reads it. -/
structure Announced (d : WaitingRoom) : Prop where
  notice : d.notice = some .notifyAll → d.tid ≠ none
  waiters : ∀ {k waiter}, d.waiters.get? k = some waiter → waiter.pc = .notified → d.tid ≠ none

/-- An identifier that is there stays, and all are notified only after one was written. -/
theorem Steps.announces (h : d.Steps m d') (hlives : ∀ t, m ≠ .server (.restart t))
    (hannounced : d.notice = some .notifyAll → d.tid ≠ none) :
    (d.tid ≠ none → d'.tid ≠ none) ∧ (d'.notice = some .notifyAll → d'.tid ≠ none) := by
  cases h with
  | @server a _ _ _ _ hnotice =>
      refine ⟨id, fun hall => ?_⟩
      rcases hnotice with ⟨-, rfl⟩ | ⟨-, rfl⟩
      · simp [noticeFor, Option.bind_eq_some_iff] at hall
      · exact hannounced hall
  | restart => exact absurd rfl (hlives _)
  | setTid => simp
  | notifyAll => exact ⟨id, by simp⟩
  | call | waiter | expire => exact ⟨id, hannounced⟩

/-- Every move keeps this. -/
theorem Announced.step (h : d.Announced) (hstep : d.step m = some d') : d'.Announced := by
  have hsteps := step_cases hstep
  by_cases hrestart : ∃ t, m = .server (.restart t)
  · obtain ⟨t, rfl⟩ := hrestart
    cases hsteps with
    | server hne => exact absurd rfl (hne t)
    | restart => exact ⟨by simp, by simp⟩
  have hlives := not_exists.mp hrestart
  obtain ⟨htid, hnotice⟩ := hsteps.announces hlives h.notice
  constructor
  · exact hnotice
  · intro k waiter' hk' hnotified
    apply htid
    cases hk : d.waiters.get? k with
    | none => simp [hsteps.called hk hk'] at hnotified
    | some waiter =>
        obtain ⟨pc, hnext, hrow⟩ := hsteps.waiter_next hlives hk
        obtain rfl := Option.some.inj (hk'.symm.trans hnext)
        obtain rfl : pc = .notified := hnotified
        generalize hpc : WaiterPc.notified = pc at hrow
        cases hrow with
        | other => exact h.waiters hk hpc.symm
        | notified hall => exact h.notice hall
        | own hown => cases hown <;> contradiction
        | expired => contradiction

/-- It holds in every state of a run. -/
theorem announced_of_path (hrun : Path step anyStep {} ms d) : d.Announced :=
  hrun.invariant ⟨by simp, by simp⟩ fun _ _ _ h _ hstep => h.step hstep

/-! ## The loop of a call -/

/-- A call that still waits goes on with the databases it reads later. -/
theorem waitTicket_append {dbs later : List Db} (h : waitTicket tid dbs = .ok none) :
    waitTicket tid (dbs ++ later) = waitTicket tid later := by
  induction dbs with
  | nil => rfl
  | cons db dbs ih =>
      rw [List.cons_append, waitTicket]
      rw [waitTicket] at h
      cases ht : db.tickets.get? tid with
      | none => simp [ht] at h
      | some ticket =>
          cases hr : ticket.resource? db with
          | none =>
              simp only [hr]
              exact ih (by simpa [ht, hr] using h)
          | some r => simp [ht, hr] at h

/-- The database that a thread looks into. -/
def look? (k : ℕ) (d : WaitingRoom) (m : Move) : Option Db :=
  if m = .waiter k ∧ (d.waiters.get? k).any (fun waiter => waiter.pc = .check) then
    some d.server.db
  else none

/-- A move of others is no look. -/
theorem look?_of_ne (hne : m ≠ .waiter k) : d.look? k m = none := by
  simp [look?, hne]

/-- What a thread looks into after its first transaction decides what becomes of its call. -/
theorem waitTicket_looks {ns : List Move} (hprev : Path step anyStep {} ms d)
    (hk : d.waiters.get? k = some { ticketId := tid, pc := .check })
    (hrun : Path step anyStep d ns d') (hlives : ∀ t, .server (.restart t) ∉ ns) :
    ∃ pc, d'.waiters.get? k = some { ticketId := tid, pc := pc } ∧ pc ≠ .register ∧
      waitTicket tid (observe (look? k) step d ns) = pc.result := by
  induction hrun with
  | refl => exact ⟨.check, hk, by simp, rfl⟩
  | @snoc ns u v m hprev' _ hstep ih =>
      obtain ⟨pc, hk, hregistered, hresult⟩ := ih fun t hmem => hlives t (by simp [hmem])
      obtain ⟨pc', hk', hrow⟩ := (step_cases hstep).waiter_next
        (fun t heq => hlives t (by simp [heq])) hk
      rw [hprev'.observe_snoc _ hstep]
      cases hrow with
      | other hne => exact ⟨pc, hk', hregistered, by simpa [look?_of_ne hne] using hresult⟩
      | notified _ hpc | expired hpc =>
          obtain rfl : pc = .asleep := hpc
          exact ⟨_, hk', by simp, by simpa [look?, WaiterPc.result] using hresult⟩
      | own hown =>
          cases hown with
          | registered hpc => exact absurd hpc hregistered
          | refused hpc hnone =>
              obtain rfl : pc = .check := hpc.resolve_left hregistered
              refine ⟨_, hk', by simp, ?_⟩
              rw [waitTicket_append hresult]
              simp [look?, hk, waitTicket, hnone, WaiterPc.result]
          | found hpc ht hr =>
              obtain rfl : pc = .check := hpc
              refine ⟨_, hk', by simp, ?_⟩
              rw [waitTicket_append hresult]
              simp [look?, hk, waitTicket, ht, hr, WaiterPc.result]
          | unserved hpc ht hr =>
              obtain rfl : pc = .check := hpc
              refine ⟨_, hk', by simp, ?_⟩
              rw [waitTicket_append hresult]
              simp [look?, hk, waitTicket, ht, hr, WaiterPc.result]
          | unset hpc hnone =>
              exact absurd hnone ((announced_of_path (hprev.append hprev')).waiters hk hpc)
          | slept hpc | woken hpc | overlooked hpc | resumed hpc =>
              obtain rfl : pc = _ := hpc
              exact ⟨_, hk', by simp, by simpa [look?, hk, WaiterPc.result] using hresult⟩

end WaitingRoom

end Resalloc
