import Resalloc.Foundations.Progress
import Resalloc.Server.WaitingRoom

/-!
# Threads that sleep too long

A thread sleeps in {lit}`waitTicket` until the manager notifies it or ten seconds have passed.  The
notification can come too early, before the thread sleeps, and the identifier in it can be
overwritten before the thread reads it.  Then the thread sleeps on although its ticket is served,
and for as long as it is notified in time for others.

Main results:

- Theorem {lit}`WaitingRoom.woken`: the two ways to miss a notification.
- Theorem {lit}`WaitingRoom.Fair.returns`: when a call returns, and what.
-/

namespace Resalloc

open Foundations

/-- Whether a thread moves without being woken. -/
def WaiterPc.goesOn : WaiterPc → Bool
  | .register | .check | .enter | .notified | .expired => true
  | .asleep | .returned _ | .raised _ => false

/-- How far a thread is from its next look into the database. -/
def WaiterPc.rank : WaiterPc → ℕ
  | .enter => 4
  | .asleep => 3
  | .register | .notified | .expired => 2
  | .check => 1
  | .returned _ | .raised _ => 0

namespace WaitingRoom

variable {d d' : WaitingRoom} {m : Move} {ms : List Move} {k : ℕ} {tid : TicketId}
variable {waiter : Waiter}

/-! ## Missed notifications -/

/-- A ticket has a resource. -/
def Served (d : WaitingRoom) (tid : TicketId) : Prop :=
  ∃ t, d.server.db.tickets.get? tid = some t ∧ t.resourceId ≠ none

/-- A ticket gets its resource in the action that makes the notice for its thread. -/
theorem Steps.served (h : d.Steps m d') (hinv : d.server.Inv)
    (hlives : ∀ t, m ≠ .server (.restart t)) (hserved : d'.Served tid)
    (htid : d.tids.lookup tid = some k) : d.Served tid ∨ d'.notice = some (.setTid k) := by
  obtain ⟨t', ht', hlink⟩ := hserved
  cases h with
  | @server a w notice _ hstep hnotice =>
      have hsteps := World.step_cases hstep
      cases ht : d.server.db.tickets.get? tid with
      | none =>
          obtain ⟨_, _, -, -, -, rfl⟩ := hsteps.taken hinv.linked ht' ht
          simp at hlink
      | some t =>
          obtain ⟨t₁, ht₁, hrow⟩ := hsteps.ticket hinv.linked ht
          obtain rfl := Option.some.inj (ht'.symm.trans ht₁)
          cases hrow with
          | same | closed | killed => exact .inl ⟨_, ht, hlink⟩
          | assigned i hassign =>
              right
              rcases hnotice with ⟨-, rfl⟩ | ⟨hnone, -⟩
              · simp [noticeFor, hassign, htid]
              · rw [hassign] at hnone
                contradiction
  | restart => exact absurd rfl (hlives _)
  | _ => exact .inl ⟨t', ht', hlink⟩

/-- The manager is going to notify a thread. -/
def Notifies (d : WaitingRoom) (k : ℕ) : Prop :=
  d.notice = some (.setTid k) ∨ d.notice = some .notifyAll ∧ d.tid = some k

/-- The notification of a thread does not reach it: the thread is not yet asleep when all are
notified, or another identifier is written before the thread has the lock. -/
inductive Misses (d : WaitingRoom) (k : ℕ) (tid : TicketId) : Prop
  | early : d.waiters.get? k = some { ticketId := tid, pc := .enter } →
      d.notice = some .notifyAll → d.tid = some k → Misses d k tid
  | overwritten {j} : d.waiters.get? k = some { ticketId := tid, pc := .notified } →
      d.notice = some (.setTid j) → j ≠ k → d.tid = some k → Misses d k tid

/-- This happened in a run, after the ticket was served and the server started. -/
def Missed (ms : List Move) (k : ℕ) (tid : TicketId) : Prop :=
  ∃ pre post u, ms = pre ++ .notify :: post ∧ Path step anyStep {} pre u ∧ u.Served tid ∧
    u.Misses k tid ∧ ∀ t, .server (.restart t) ∉ post

/-- What keeps a thread from sleeping on, before its next look into the database. -/
def Heeds (d : WaitingRoom) (k : ℕ) : WaiterPc → Prop
  | .enter | .asleep => d.Notifies k
  | .notified => d.notice = some (.setTid k) ∨ d.tid = some k
  | _ => True

/-- The thread that a served ticket names is going to look into the database again, or it has
missed its notification. -/
def Alert (ms : List Move) (d : WaitingRoom) : Prop :=
  ∀ k tid pc, d.waiters.get? k = some { ticketId := tid, pc := pc } →
    d.tids.lookup tid = some k → d.Served tid → d.Heeds k pc ∨ Missed ms k tid

/-- A thread that is going to be notified looks into the database again. -/
theorem heeds_of_setTid (h : d.notice = some (.setTid k)) (pc : WaiterPc) : d.Heeds k pc := by
  cases pc with
  | enter | asleep | notified => exact .inl h
  | _ => trivial

/-- Only the notice and the identifier matter. -/
theorem Heeds.congr {pc : WaiterPc} (h : d.Heeds k pc) (hnotice : d'.notice = d.notice)
    (htid : d'.tid = d.tid) : d'.Heeds k pc := by
  cases pc with
  | enter | asleep | notified =>
      simp only [Heeds, Notifies, hnotice, htid] at h ⊢
      exact h
  | _ => trivial

/-- What was missed stays missed until the server starts again. -/
theorem Missed.snoc (h : Missed ms k tid) (hlives : ∀ t, m ≠ .server (.restart t)) :
    Missed (ms ++ [m]) k tid := by
  obtain ⟨pre, post, u, rfl, hpre, hserved, hmisses, hpost⟩ := h
  refine ⟨pre, post ++ [m], u, by simp, hpre, hserved, hmisses, fun t hmem => ?_⟩
  rcases List.mem_append.mp hmem with hold | hlast
  · exact hpost t hold
  · exact hlives t (List.mem_singleton.mp hlast).symm

/-- A move that does nothing to the thread keeps this, or the thread misses its notification. -/
theorem Heeds.other (h : d.Heeds k waiter.pc) (hsteps : d.Steps m d')
    (hlives : ∀ t, m ≠ .server (.restart t)) (hk : d.waiters.get? k = some waiter)
    (hstill : waiter.pc = .asleep → m = .notify → d.notice ≠ some .notifyAll) :
    d'.Heeds k waiter.pc ∨ m = .notify ∧ d.Misses k waiter.ticketId := by
  obtain ⟨ticketId, pc⟩ := waiter
  cases hsteps with
  | server _ _ hnotice =>
      left
      rcases hnotice with ⟨hnone, -⟩ | ⟨-, hsame⟩
      · -- the manager is not notifying anyone
        cases pc with
        | enter | asleep => simp [Heeds, Notifies, hnone] at h
        | notified =>
            rcases h with hset | htid
            · simp [hnone] at hset
            · exact .inr htid
        | _ => trivial
      · exact h.congr hsame rfl
  | restart => exact absurd rfl (hlives _)
  | @setTid j hnotice =>
      cases pc with
      | enter | asleep =>
          left
          obtain rfl : j = k := by simpa [Heeds, Notifies, hnotice] using h
          exact .inr ⟨rfl, rfl⟩
      | notified =>
          by_cases hj : j = k
          · exact .inl (.inr (by rw [hj]))
          · have htid : d.tid = some k := by simpa [Heeds, hnotice, hj] using h
            exact .inr ⟨rfl, .overwritten hk hnotice hj htid⟩
      | _ => exact .inl trivial
  | notifyAll hnotice =>
      cases pc with
      | enter =>
          have htid : d.tid = some k := by simpa [Heeds, Notifies, hnotice] using h
          exact .inr ⟨rfl, .early hk hnotice htid⟩
      | asleep => exact absurd hnotice (hstill rfl rfl)
      | notified => exact .inl (.inr (by simpa [Heeds, hnotice] using h))
      | _ => exact .inl trivial
  | call | waiter | expire => exact .inl (h.congr rfl rfl)

/-- The resource of a served ticket is there. -/
theorem Served.resource (h : d.Served tid) (hinv : d.server.Inv) {t : Ticket}
    (ht : d.server.db.tickets.get? tid = some t) : ∃ r, t.resource? d.server.db = some r := by
  obtain ⟨t', ht', hlink⟩ := h
  obtain rfl := Option.some.inj (ht.symm.trans ht')
  obtain ⟨id, hid⟩ := Option.ne_none_iff_exists'.mp hlink
  obtain ⟨r, hr, -⟩ := hinv.linked.resource ht hid
  exact ⟨r, by simp [Ticket.resource?, hid, hr]⟩

/-- The own step of the thread of a served ticket keeps this. -/
theorem Heeds.own {pc : WaiterPc} (h : d.Heeds k waiter.pc) (hinv : d.server.Inv)
    (hserved : d.Served waiter.ticketId) (hown : d.WaiterSteps k waiter pc) : d.Heeds k pc := by
  cases hown with
  | unserved _ ht hnone =>
      -- the look into the database finds the resource of a served ticket
      obtain ⟨r, hr⟩ := hserved.resource hinv ht
      rw [hnone] at hr
      contradiction
  | slept henter =>
      rw [henter] at h
      exact h
  | overlooked hnotified htid hne =>
      have hset : d.notice = some (.setTid k) := by simpa [hnotified, Heeds, htid, hne] using h
      exact .inl hset
  | registered | refused | found | unset | woken | resumed => trivial

/-- Every move keeps this for the thread of a served ticket, or the thread misses its
notification. -/
theorem Heeds.step {pc : WaiterPc} (h : d.Heeds k waiter.pc) (hsteps : d.Steps m d')
    (hlives : ∀ t, m ≠ .server (.restart t)) (hinv : d.server.Inv)
    (hk : d.waiters.get? k = some waiter) (hserved : d.Served waiter.ticketId)
    (hrow : d.MovesTo k waiter m pc) :
    d'.Heeds k pc ∨ m = .notify ∧ d.Misses k waiter.ticketId := by
  cases hrow with
  | other _ hstill => exact h.other hsteps hlives hk hstill
  | notified hnotice hasleep =>
      left
      have htid : d.tid = some k := by simpa [hasleep, Heeds, Notifies, hnotice] using h
      cases hsteps with
      | setTid hset => simp [hnotice] at hset
      | notifyAll => exact .inr htid
  | expired => exact .inl trivial
  | own hown =>
      cases hsteps with
      | waiter => exact .inl ((h.own hinv hserved hown).congr rfl rfl)

/-- Every move keeps all threads alert. -/
theorem Alert.step (h : Alert ms d) (hrun : Path WaitingRoom.step anyStep {} ms d)
    (hstep : d.step m = some d') : Alert (ms ++ [m]) d' := by
  intro k tid pc hk' htid' hserved'
  have hsteps := step_cases hstep
  have hinv := (reaches_server hrun).inv
  by_cases hrestart : ∃ t, m = .server (.restart t)
  · obtain ⟨t, rfl⟩ := hrestart
    cases hsteps with
    | server hne => exact absurd rfl (hne t)
    | restart => simp at hk'
  have hlives := not_exists.mp hrestart
  cases hk : d.waiters.get? k with
  | none =>
      obtain rfl : pc = .register := hsteps.called hk hk'
      exact .inl trivial
  | some waiter =>
      obtain ⟨pc', hnext, hrow⟩ := hsteps.waiter_next hlives hk
      obtain ⟨hticket, rfl⟩ := Waiter.mk.inj (Option.some.inj (hnext.symm.trans hk'))
      obtain rfl : waiter.ticketId = tid := hticket
      rcases hsteps.named htid' with htid | ⟨rfl, waiter', hk₁, hregister⟩
      · rcases hsteps.served hinv hlives hserved' htid with hserved | hnotice
        · rcases h k _ _ hk htid hserved with hheeds | hmissed
          · rcases hheeds.step hsteps hlives hinv hk hserved hrow with hstill | ⟨rfl, hmisses⟩
            · exact .inl hstill
            · exact .inr ⟨ms, [], d, rfl, hrun, hserved, hmisses, by simp⟩
          · exact .inr (hmissed.snoc hlives)
        · exact .inl (heeds_of_setTid hnotice pc')
      · -- its own first step takes the thread to its first look
        obtain rfl := Option.some.inj (hk.symm.trans hk₁)
        left
        cases hrow with
        | other hne => exact absurd rfl hne
        | own hown =>
            cases hown with
            | registered | refused => trivial
            | _ => simp_all

/-- In every state of a run all threads are alert. -/
theorem alert_of_path (hrun : Path step anyStep {} ms d) : Alert ms d := by
  induction hrun with
  | refl => simp [Alert]
  | snoc hprev _ hstep ih => exact ih.step hprev hstep

/-- If a thread sleeps although the ticket that names it is served, then the manager is going to
notify it, or the thread has missed its notification in one of the two ways. -/
theorem woken (hrun : Path step anyStep {} ms d)
    (hk : d.waiters.get? k = some { ticketId := tid, pc := .asleep })
    (htid : d.tids.lookup tid = some k) (hserved : d.Served tid) :
    d.Notifies k ∨ Missed ms k tid :=
  alert_of_path hrun k tid .asleep hk htid hserved

/-- A ticket is taken and gets a resource while its thread is on its way to sleep. -/
def serveEarly : List Move :=
  (Action.takeTicket [] none :: World.ticks World.basicConfig 8 ++
      List.replicate 3 (Action.worker 1 { now := 20 })).map .server ++
    [.call 1, .waiter 1, .waiter 1] ++ (World.ticks World.basicConfig 4).map .server ++
    [.notify, .notify, .waiter 1]

/-- The room after that. -/
def roomEarly : WaitingRoom := (execWithin step anyStep {} serveEarly).get (by decide +kernel)

/-- The thread has missed its notification. -/
theorem woken_roomEarly : Missed serveEarly 1 1 := by
  have hrun : Path step anyStep {} serveEarly roomEarly :=
    Path.of_execWithin (Option.some_get _).symm
  have hticket :
      (roomEarly.server.db.tickets.get? 1).any (fun t => t.resourceId ≠ none) = true := by
    decide +kernel
  obtain ⟨t, ht, hlink⟩ := (Option.any_eq_true _ _).mp hticket
  have hnotice : roomEarly.notice = none := by
    decide +kernel
  have hasleep : roomEarly.waiters.get? 1 = some { ticketId := 1, pc := .asleep } := by
    decide +kernel
  have hwoken := woken hrun hasleep (by decide +kernel) ⟨t, ht, of_decide_eq_true hlink⟩
  simpa [Notifies, hnotice] using hwoken

/-! ## Fair runs -/

/-- A thread is woken, and finds the identifier of another thread. -/
def Overlooked (k : ℕ) (tid : TicketId) (d : WaitingRoom) (m : Move) : Prop :=
  m = .waiter k ∧ d.waiters.get? k = some { ticketId := tid, pc := .notified } ∧ d.tid ≠ some k

/-- An infinite run without restarts in which a thread waits for a ticket, goes on while it is
awake, and does not sleep longer than its timeout. -/
structure Fair (k : ℕ) (tid : TicketId) (run : ℕ → WaitingRoom) (act : ℕ → Move) : Prop where
  reached : ∃ ms, Path step anyStep {} ms (run 0)
  called : (run 0).waiters.get? k = some { ticketId := tid }
  taken : ∃ t, (run 0).server.db.tickets.get? tid = some t
  step : ∀ n, (run n).step (act n) = some (run (n + 1))
  lives : ∀ n t, act n ≠ .server (.restart t)
  goesOn : ∀ n pc, (run n).waiters.get? k = some { ticketId := tid, pc := pc } →
    pc.goesOn = true → ∃ m, n ≤ m ∧ act m = .waiter k
  wakes : ∀ n, (run n).waiters.get? k = some { ticketId := tid, pc := .asleep } →
    ∃ m, n ≤ m ∧ (run m).waiters.get? k ≠ some { ticketId := tid, pc := .asleep }

/-- Where the thread is. -/
def pcOf (d : WaitingRoom) (k : ℕ) : WaiterPc :=
  ((d.waiters.get? k).map Waiter.pc).getD .register

variable {run : ℕ → WaitingRoom} {act : ℕ → Move} {n : ℕ}

/-- Every state of the run is reached. -/
theorem Fair.reaches (h : Fair k tid run act) (n : ℕ) :
    ∃ ms, Path WaitingRoom.step anyStep {} ms (run n) := by
  induction n with
  | zero => exact h.reached
  | succ n ih =>
      obtain ⟨ms, hrun⟩ := ih
      exact ⟨ms ++ [act n], .snoc hrun trivial (h.step n)⟩

/-- The thread waits for its ticket in every state. -/
theorem Fair.stands (h : Fair k tid run act) (n : ℕ) :
    (run n).waiters.get? k = some { ticketId := tid, pc := (run n).pcOf k } := by
  induction n with
  | zero => simp [pcOf, h.called]
  | succ n ih =>
      obtain ⟨pc, hnext, -⟩ := (step_cases (h.step n)).waiter_next (h.lives n) ih
      simp [pcOf, hnext]

/-- What a move of the run does to the thread. -/
theorem Fair.row (h : Fair k tid run act) (n : ℕ) :
    (run n).MovesTo k { ticketId := tid, pc := (run n).pcOf k } (act n)
      ((run (n + 1)).pcOf k) := by
  obtain ⟨pc, hnext, hrow⟩ := (step_cases (h.step n)).waiter_next (h.lives n) (h.stands n)
  rw [h.stands (n + 1)] at hnext
  obtain ⟨-, heq⟩ := Waiter.mk.inj (Option.some.inj hnext)
  rw [heq]
  exact hrow

/-- The rows of tickets stay, and keep their resources. -/
theorem Fair.ticket_kept (h : Fair k tid run act) {m : ℕ} (hle : n ≤ m) {t : Ticket}
    (ht : (run n).server.db.tickets.get? tid = some t) :
    ∃ t', (run m).server.db.tickets.get? tid = some t' ∧
      ∀ id, t.resourceId = some id → t'.resourceId = some id := by
  induction m, hle using Nat.le_induction with
  | base => exact ⟨t, ht, fun _ hid => hid⟩
  | succ m _ ih =>
      obtain ⟨t', ht', hlinks⟩ := ih
      obtain ⟨ms, hrun⟩ := h.reaches m
      have hworld := step_server (h.step m)
      cases haction : (run m).serverAction? (act m) with
      | none =>
          rw [haction, stepOrStay, Option.some.injEq] at hworld
          exact ⟨t', hworld ▸ ht', hlinks⟩
      | some a =>
          rw [haction] at hworld
          obtain ⟨t'', ht'', hcontinues⟩ :=
            (reaches_server hrun).inv.ticket_continues hworld ht'
          exact ⟨t'', ht'', fun id hid => hcontinues.resourceId id (hlinks id hid)⟩

/-- A served ticket stays served. -/
theorem Fair.served_kept (h : Fair k tid run act) {m : ℕ} (hle : n ≤ m)
    (hserved : (run n).Served tid) : (run m).Served tid := by
  obtain ⟨t, ht, hlink⟩ := hserved
  obtain ⟨id, hid⟩ := Option.ne_none_iff_exists'.mp hlink
  obtain ⟨t', ht', hlinks⟩ := h.ticket_kept hle ht
  exact ⟨t', ht', by simp [hlinks id hid]⟩

/-- The thread never raises. -/
theorem Fair.unraised (h : Fair k tid run act) (n : ℕ) (e : PyError) :
    (run n).pcOf k ≠ .raised e := by
  induction n with
  | zero => simp [pcOf, h.called]
  | succ n ih =>
      have hrow := h.row n
      obtain ⟨t, ht⟩ := h.taken
      obtain ⟨t', ht', -⟩ := h.ticket_kept (Nat.zero_le n) ht
      obtain ⟨ms, hrun⟩ := h.reaches n
      intro hraised
      rw [hraised] at hrow
      generalize hpc : WaiterPc.raised e = pc at hrow
      generalize act n = m at hrow
      cases hrow with
      | other => exact ih hpc.symm
      | own hown =>
          cases hown with
          | refused _ hnone => simp [ht'] at hnone
          | unset hnotified hnone =>
              exact (announced_of_path hrun).waiters (h.stands n) hnotified hnone
          | _ => contradiction
      | _ => contradiction

/-- Once the ticket is served, every step brings the thread nearer to its look into the database,
unless it is overlooked. -/
theorem Fair.rank_le (h : Fair k tid run act) (hserved : (run n).Served tid)
    (hheard : ¬ Overlooked k tid (run n) (act n)) :
    ((run (n + 1)).pcOf k).rank ≤ ((run n).pcOf k).rank ∧
      (act n = .waiter k ∨ (run (n + 1)).pcOf k ≠ (run n).pcOf k →
        ((run (n + 1)).pcOf k).rank < ((run n).pcOf k).rank) := by
  have hrow := h.row n
  have hstands := h.stands n
  generalize (run (n + 1)).pcOf k = pc' at hrow ⊢
  generalize act n = m at hrow hheard ⊢
  generalize (run n).pcOf k = pc at hrow hstands ⊢
  -- a step to a smaller rank
  have hlt : pc'.rank < pc.rank → pc'.rank ≤ pc.rank ∧
      (m = .waiter k ∨ pc' ≠ pc → pc'.rank < pc.rank) :=
    fun hless => ⟨hless.le, fun _ => hless⟩
  cases hrow with
  | other hne => simp [hne]
  | notified _ hpc | expired hpc =>
      obtain rfl : pc = .asleep := hpc
      exact hlt (by simp [WaiterPc.rank])
  | own hown =>
      cases hown with
      | registered hpc | found hpc | slept hpc | unset hpc | woken hpc | resumed hpc =>
          obtain rfl : pc = _ := hpc
          exact hlt (by simp [WaiterPc.rank])
      | refused hpc =>
          apply hlt
          rcases hpc with hpc | hpc <;> simp_all [WaiterPc.rank]
      | unserved _ ht hnone =>
          obtain ⟨ms, hrun⟩ := h.reaches n
          obtain ⟨r, hr⟩ := hserved.resource (reaches_server hrun).inv ht
          rw [hnone] at hr
          contradiction
      | overlooked hpc htid hne =>
          obtain rfl : pc = .notified := hpc
          exact absurd ⟨rfl, hstands, by simp [htid, hne]⟩ hheard

/-- The thread moves on after every state in which it has not returned. -/
theorem Fair.exists_move (h : Fair k tid run act) (n : ℕ)
    (hwaits : ∀ data, (run n).pcOf k ≠ .returned data) :
    ∃ m, n ≤ m ∧ (act m = .waiter k ∨ (run (m + 1)).pcOf k ≠ (run m).pcOf k) := by
  by_cases hasleep : (run n).pcOf k = .asleep
  · obtain ⟨l, hl, hawake⟩ := h.wakes n (hasleep ▸ h.stands n)
    have hend : (run l).pcOf k ≠ .asleep := fun hstill => hawake (hstill ▸ h.stands l)
    obtain ⟨m, hm, -, hbefore, hafter⟩ :=
      exists_exit (P := fun n => (run n).pcOf k = .asleep) hl hasleep hend
    exact ⟨m, hm, .inr (by rw [hbefore]; exact hafter)⟩
  · have hgoes : ((run n).pcOf k).goesOn = true := by
      have hunraised := h.unraised n
      cases hpc : (run n).pcOf k with
      | asleep => exact absurd hpc hasleep
      | returned data => exact absurd hpc (hwaits data)
      | raised e => exact absurd hpc (hunraised e)
      | _ => rfl
    obtain ⟨m, hm, hact⟩ := h.goesOn n _ (h.stands n) hgoes
    exact ⟨m, hm, .inl hact⟩

/-- A thread that has returned stays so. -/
theorem Fair.returned_kept (h : Fair k tid run act) {m : ℕ} (hle : n ≤ m)
    {data : Option (List UInt8)} (hreturned : (run n).pcOf k = .returned data) :
    (run m).pcOf k = .returned data := by
  induction m, hle using Nat.le_induction with
  | base => exact hreturned
  | succ m _ ih =>
      have hrow := h.row m
      rw [ih] at hrow
      generalize (run (m + 1)).pcOf k = pc at hrow ⊢
      generalize act m = move at hrow
      cases hrow with
      | other => rfl
      | own hown =>
          cases hown with
          | refused hpc => rcases hpc with hpc | hpc <;> contradiction
          | _ => contradiction
      | _ => contradiction

/-- A thread returns from a look at a served ticket. -/
theorem Fair.returned_served (h : Fair k tid run act) {data : Option (List UInt8)}
    (hreturned : (run n).pcOf k = .returned data) : (run n).Served tid := by
  obtain ⟨ms, hrun⟩ := h.reaches n
  obtain ⟨t, r, ht, hr, -⟩ := told_of_path hrun k tid data (hreturned ▸ h.stands n)
  obtain ⟨id, hid, -⟩ := Option.bind_eq_some_iff.mp hr
  exact ⟨t, ht, by simp [hid]⟩

/-- From the service of its ticket on, a thread that is not overlooked any more returns. -/
theorem Fair.exists_returned (h : Fair k tid run act) (hserved : (run n).Served tid)
    (hheard : ∀ m, n ≤ m → ¬ Overlooked k tid (run m) (act m)) :
    ∃ m data, (run m).pcOf k = .returned data := by
  by_contra hnone
  have hwaits : ∀ m data, (run m).pcOf k ≠ .returned data :=
    fun m data hreturned => hnone ⟨m, data, hreturned⟩
  have hrank := fun m hle => h.rank_le (h.served_kept hle hserved) (hheard m hle)
  obtain ⟨m, -, -, -, hend⟩ := exists_exit_of_rank (P := fun _ => True)
    (fun m => act m = .waiter k ∨ (run (m + 1)).pcOf k ≠ (run m).pcOf k)
    (fun m => ((run m).pcOf k).rank) trivial (fun m _ _ => h.exists_move m (hwaits m))
    (fun m hle _ hmoves _ => (hrank m hle).2 hmoves)
    (fun m hle _ _ => ⟨trivial, (hrank m hle).1⟩)
  exact hend trivial

/-- A call of {lit}`waitTicket` returns if and only if its ticket is ever served and the thread is
not overlooked again and again, and then it returns what {lit}`collectTicket` reports. -/
theorem Fair.returns (h : Fair k tid run act) :
    ((∃ n data, (run n).waiters.get? k = some { ticketId := tid, pc := .returned data }) ↔
      (∃ n, (run n).Served tid) ∧ ¬ ∀ n, ∃ m, n ≤ m ∧ Overlooked k tid (run m) (act m)) ∧
    ∀ n data, (run n).waiters.get? k = some { ticketId := tid, pc := .returned data } →
      (collectTicket tid (run n).server.db).ready = some true ∧
        (collectTicket tid (run n).server.db).output = data := by
  have hpc : ∀ {n data}, (run n).waiters.get? k = some { ticketId := tid, pc := .returned data } →
      (run n).pcOf k = .returned data := by
    intro n data hk
    simp [pcOf, hk]
  constructor
  · constructor
    · rintro ⟨n, data, hk⟩
      refine ⟨⟨n, h.returned_served (hpc hk)⟩, fun hoverlooked => ?_⟩
      obtain ⟨m, hle, -, hnotified, -⟩ := hoverlooked n
      have hreturned := h.stands m
      rw [h.returned_kept hle (hpc hk), hnotified] at hreturned
      simp at hreturned
    · rintro ⟨⟨n, hserved⟩, hheard⟩
      obtain ⟨l, hl⟩ := not_forall.mp hheard
      have hserved' := h.served_kept (Nat.le_add_right n l) hserved
      obtain ⟨m, data, hreturned⟩ := h.exists_returned hserved' fun m hle hoverlooked =>
        hl ⟨m, (Nat.le_add_left l n).trans hle, hoverlooked⟩
      exact ⟨m, data, hreturned ▸ h.stands m⟩
  · intro n data hk
    obtain ⟨ms, hrun⟩ := h.reaches n
    obtain ⟨t, r, ht, hr, rfl⟩ := told_of_path hrun k tid data hk
    exact ⟨collectTicket_ready.mpr ⟨t, r, ht, hr⟩, collectTicket_output ht hr⟩

/-! ## A fair run -/

/-- The thread goes on; while it sleeps, the manager does. -/
def nextMove (d : WaitingRoom) : Move :=
  if (d.pcOf 1).goesOn then .waiter 1
  else if d.pcOf 1 ≠ .asleep then .server (.watcher {})
  else if d.notice = none then
    .server (.manager { now := 10, config := some World.basicConfig })
  else .notify

/-- The room after the next move. -/
def goOn (d : WaitingRoom) : WaitingRoom := (d.step d.nextMove).getD d

/-- A client waits for a ticket that has just been taken. -/
def callFirst : List Move :=
  (World.ticks World.basicConfig 8 ++
      List.replicate 3 (Action.worker 1 { now := 20 })).map .server ++
    [.server (.takeTicket [] none), .call 1]

/-- What happens then. -/
def waitingRooms (n : ℕ) : WaitingRoom :=
  goOn^[n] ((execWithin step anyStep {} callFirst).get (by decide +kernel))

/-- The thread returns after eleven moves, and then nothing changes any more. -/
theorem fair_waitingRooms : Fair 1 1 waitingRooms fun n => (waitingRooms n).nextMove := by
  have hloop : Function.IsPeriodicPt goOn 1 (waitingRooms 11) := by
    unfold Function.IsPeriodicPt Function.IsFixedPt
    decide +kernel
  have hmoves : ∀ n, ((waitingRooms n).step (waitingRooms n).nextMove).isSome = true :=
    forall_iterate (P := fun d => (d.step d.nextMove).isSome = true) Nat.one_pos hloop
      (by decide +kernel)
  constructor
  · exact ⟨callFirst, Path.of_execWithin (Option.some_get _).symm⟩
  · decide +kernel
  · exact ⟨{}, by decide +kernel⟩
  · intro n
    obtain ⟨d, hd⟩ := Option.isSome_iff_exists.mp (hmoves n)
    have hnext : waitingRooms (n + 1) = goOn (waitingRooms n) :=
      Function.iterate_succ_apply' _ _ _
    rw [hnext, goOn, hd]
    rfl
  · intro n t hrestart
    unfold nextMove at hrestart
    split_ifs at hrestart
    all_goals simp at hrestart
  · intro n pc hk hgoes
    refine ⟨n, le_refl n, ?_⟩
    have hpc : (waitingRooms n).pcOf 1 = pc := by simp [pcOf, hk]
    simp only [nextMove, hpc, hgoes, if_true]
  · intro n _
    obtain ⟨m, hle, hm⟩ := exists_iterate Nat.one_pos hloop n
    have hreturned : (waitingRooms 11).waiters.get? 1 ≠
        some { ticketId := 1, pc := .asleep } := by
      decide +kernel
    exact ⟨m, hle, by rw [waitingRooms, hm]; exact hreturned⟩

/-- Its ticket was served, and it was not overlooked again and again. -/
theorem returns_waitingRooms : (∃ n, (waitingRooms n).Served 1) ∧
    ¬ ∀ n, ∃ m, n ≤ m ∧ Overlooked 1 1 (waitingRooms m) (waitingRooms m).nextMove := by
  have hreturned : ((waitingRooms 11).pcOf 1).rank = 0 := by
    decide +kernel
  have hstands := fair_waitingRooms.stands 11
  cases hpc : (waitingRooms 11).pcOf 1 with
  | returned data =>
      rw [hpc] at hstands
      exact (Fair.returns fair_waitingRooms).1.mp ⟨11, data, hstands⟩
  | raised e => exact absurd hpc (fair_waitingRooms.unraised 11 e)
  | _ => simp [hpc, WaiterPc.rank] at hreturned

end WaitingRoom

end Resalloc
