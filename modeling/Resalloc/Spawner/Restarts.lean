import Mathlib.Data.Prod.Lex
import Resalloc.Foundations.Progress
import Resalloc.Spawner.Lifecycle

/-!
# Restarts of the dispatcher

The dispatcher may be killed between two redis operations, and a new one starts with the
hashes that it finds.  A new agent is recorded with its group first and with its state
second, and {lit}`get_tickets` raises an exception when it compares a missing state with
the name of one.  A call for a ticket that names a tag twice is refused and repeated for ever.

Main results:

- Definition {lit}`Deployment.step`: the agent spawner, restarted with other configuration
  files.
- Theorem {lit}`DispatcherPc.step_stopped`: where the dispatcher can die.
- Theorem {lit}`DispatcherPc.rank_step`: the loops of a cycle end.
- Theorem {lit}`Deployment.outlives_kills`: what follows if the dispatcher is not killed between
  the two writes.
- Theorem {lit}`Deployment.restart_stops`: what happens otherwise.
-/

namespace Resalloc.Spawner

open Foundations

/-! ## The way of a cycle -/

/-- Where a caller of {lit}`get_tickets` stands in a cycle. -/
def Caller.place : Caller → ℕ × ℕ
  | .dropEnded => (7, 0)
  | .cleanFinishedWorkers => (6, 0)
  | .startPreparing => (5, 0)
  | .tryToStop s => (3, 5 * s.converge.rest.length + 1)
  | .tasks => (2, 0)

namespace DispatcherPc

/-- What a cycle has still to do: its parts, the groups and lists of the running part, and
the rounds of the running loop. -/
def rank : DispatcherPc → ℕ ×ₗ ℕ ×ₗ ℕ
  | .stopped _ => toLex (10, toLex (0, 0))
  | .start => toLex (9, toLex (0, 0))
  | .detectFailed _ rest => toLex (8, toLex (0, 3 * rest.length + 3))
  | .failedState _ rest => toLex (8, toLex (0, 3 * rest.length + 2))
  | .setFailed _ _ rest => toLex (8, toLex (0, 3 * rest.length + 1))
  | .keys caller => toLex (caller.place.1, toLex (caller.place.2 + 2, 0))
  | .filter caller _ rest _ =>
      toLex (caller.place.1, toLex (caller.place.2 + 1, 3 * rest.length + 1))
  | .close _ rest => toLex (7, toLex (0, 3 * rest.length + 2))
  | .delete _ rest => toLex (7, toLex (0, 3 * rest.length + 1))
  | .finishedGroup _ rest => toLex (6, toLex (0, 3 * rest.length + 3))
  | .isFinished _ _ rest => toLex (6, toLex (0, 3 * rest.length + 2))
  | .setTerminating _ rest => toLex (6, toLex (0, 3 * rest.length + 1))
  | .ticketData _ rest => toLex (5, toLex (0, 3 * rest.length + 3))
  | .setData _ _ rest => toLex (5, toLex (0, 3 * rest.length + 2))
  | .setPreparing _ rest => toLex (5, toLex (0, 3 * rest.length + 1))
  | .agentCounts => toLex (4, toLex (1, 0))
  | .count _ rest _ => toLex (4, toLex (0, 3 * rest.length + 1))
  | .converge _ c => toLex (3, toLex (5 * c.rest.length + 4, 0))
  | .newTicket _ todo c => toLex (3, toLex (5 * c.rest.length + 3, 3 * todo + 3))
  | .setGroup _ _ todo c => toLex (3, toLex (5 * c.rest.length + 3, 3 * todo + 2))
  | .setNew _ _ todo c => toLex (3, toLex (5 * c.rest.length + 3, 3 * todo + 1))
  | .tryRelease _ rest s => toLex (3, toLex (5 * s.converge.rest.length + 1, 3 * rest.length + 2))
  | .stop _ rest s => toLex (3, toLex (5 * s.converge.rest.length + 1, 3 * rest.length + 1))
  | .handOver _ => toLex (2, toLex (0, 0))

variable {opts : Opts} {i : Input} {st st' : Store} {pc pc' : DispatcherPc} {e : PyError}

/-- The next round of {lit}`detect_failed_tickets`. -/
theorem rank_nextDetect {tids : List TicketId} {rounds : ℕ} (h : 3 * tids.length < rounds) :
    rank (nextDetect tids) < toLex (8, toLex (0, rounds)) := by
  cases tids <;> simp [nextDetect, rank, Caller.place, Prod.Lex.toLex_lt_toLex] at h ⊢
  omega

/-- The next ended agent. -/
theorem rank_nextDrop {tids : List TicketId} {rounds : ℕ} (h : 3 * tids.length < rounds) :
    rank (nextDrop tids) < toLex (7, toLex (0, rounds)) := by
  cases tids <;> simp [nextDrop, rank, Caller.place, Prod.Lex.toLex_lt_toLex] at h ⊢
  omega

/-- The next round of {lit}`clean_finished_workers`. -/
theorem rank_nextFinished {tids : List TicketId} {rounds : ℕ} (h : 3 * tids.length < rounds) :
    rank (nextFinished tids) < toLex (6, toLex (0, rounds)) := by
  cases tids <;> simp [nextFinished, rank, Caller.place, Prod.Lex.toLex_lt_toLex] at h ⊢
  omega

/-- The next round of {lit}`start_preparing`. -/
theorem rank_nextPreparing {tids : List TicketId} {rounds : ℕ} (h : 3 * tids.length < rounds) :
    rank (nextPreparing tids) < toLex (5, toLex (0, rounds)) := by
  cases tids <;> simp [nextPreparing, rank, Prod.Lex.toLex_lt_toLex] at h ⊢
  omega

/-- The next group. -/
theorem rank_nextGroup (counts : Counts) {groups : List AgentGroup} {lists rounds : ℕ}
    (h : 5 * groups.length < lists) :
    rank (nextGroup counts groups) < toLex (3, toLex (lists, rounds)) := by
  cases groups <;> simp [nextGroup, rank, Caller.place, Prod.Lex.toLex_lt_toLex] at h ⊢
  omega

/-- The next round of {lit}`agent_counts`. -/
theorem rank_nextCount (counts : Counts) {tids : List TicketId} {rounds : ℕ}
    (h : 3 * tids.length < rounds) :
    rank (nextCount opts counts tids) < toLex (4, toLex (0, rounds)) := by
  cases tids with
  | nil =>
      have hgroup : rank (nextGroup counts opts.agentGroups) <
          toLex (3, toLex (5 * opts.agentGroups.length + 1, 0)) :=
        rank_nextGroup counts (Nat.lt_succ_self _)
      apply hgroup.trans
      simp [Prod.Lex.toLex_lt_toLex]
  | cons ticketId rest =>
      simp [nextCount, rank, Prod.Lex.toLex_lt_toLex] at h ⊢
      omega

/-- The next new agent. -/
theorem rank_nextNew (group : AgentGroup) (c : Converge) {todo rounds : ℕ}
    (h : 3 * todo < rounds) :
    rank (nextNew group c todo) < toLex (3, toLex (5 * c.rest.length + 3, rounds)) := by
  cases todo with
  | zero => exact rank_nextGroup c.currentAgents (by omega)
  | succ todo =>
      simp [nextNew, rank, Prod.Lex.toLex_lt_toLex]
      omega

/-- The next round of {lit}`try_to_stop`. -/
theorem rank_nextStop (s : Stopping) {tids : List TicketId} {rounds : ℕ}
    (h : 3 * tids.length < rounds) :
    rank (nextStop s tids) < toLex (3, toLex (5 * s.converge.rest.length + 1, rounds)) := by
  have hgroup : rank (nextGroup s.converge.currentAgents s.converge.rest) <
      toLex (3, toLex (5 * s.converge.rest.length + 1, rounds)) := rank_nextGroup _ (by omega)
  cases tids with
  | nil => exact hgroup
  | cons ticketId rest =>
      rw [nextStop]
      split_ifs
      · exact hgroup
      · simp [rank, Prod.Lex.toLex_lt_toLex] at h ⊢
        omega

/-- What follows the listed tickets. -/
theorem rank_nextLoop (caller : Caller) (output : List TicketId) :
    rank (nextLoop output caller) < toLex (caller.place.1, toLex (caller.place.2 + 1, 0)) := by
  cases caller with
  | dropEnded =>
      apply (rank_nextDrop (Nat.lt_succ_self _)).trans
      simp [Caller.place, Prod.Lex.toLex_lt_toLex]
  | cleanFinishedWorkers =>
      apply (rank_nextFinished (Nat.lt_succ_self _)).trans
      simp [Caller.place, Prod.Lex.toLex_lt_toLex]
  | startPreparing =>
      apply (rank_nextPreparing (Nat.lt_succ_self _)).trans
      simp [Caller.place, Prod.Lex.toLex_lt_toLex]
  | tryToStop s =>
      apply (rank_nextStop s (Nat.lt_succ_self _)).trans
      simp [Caller.place, Prod.Lex.toLex_lt_toLex]
  | tasks => simp [nextLoop, rank, Caller.place, Prod.Lex.toLex_lt_toLex]

/-- The next round of {lit}`get_tickets`. -/
theorem rank_nextFilter (caller : Caller) (output : List TicketId) {tids : List TicketId}
    {rounds : ℕ} (h : 3 * tids.length < rounds) :
    rank (nextFilter caller output tids) <
      toLex (caller.place.1, toLex (caller.place.2 + 1, rounds)) := by
  cases tids with
  | nil =>
      apply (rank_nextLoop caller output).trans
      simpa [Prod.Lex.toLex_lt_toLex] using h
  | cons ticketId rest =>
      simp [nextFilter, rank, Prod.Lex.toLex_lt_toLex] at h ⊢
      omega

/-! ## Where the dispatcher can die -/

/-- The dispatcher dies if a ticket is unknown, a listed agent has no state or the group of
an agent is not configured. -/
def Dies (opts : Opts) (i : Input) (st : Store) : DispatcherPc → Prop
  | .detectFailed _ _ => i.collected.ready = none
  | .filter _ ticketId _ _ => (st.redis.read ticketId).state = none
  | .isFinished groupId _ _ => ¬ opts.Configured groupId
  | .stopped _ => True
  | _ => False

/-- There is no comparison with a missing state only. -/
theorem excludes_error {states : States} {state : Option AgentState}
    (h : states.excludes state = .error e) : state = none := by
  cases states <;> cases state <;> first | rfl | cases h

/-- Every other step goes on in the cycle, up to its end. -/
theorem rank_step (hstep : pc.step opts i st = some (st', pc')) (hdies : ¬ pc.Dies opts i st)
    (hend : ∀ tasks, pc ≠ .handOver tasks) : rank pc' < rank pc := by
  cases pc with
  | start =>
      simp only [step] at hstep
      split_ifs at hstep
      obtain ⟨rfl, rfl⟩ := Prod.mk.inj (Option.some.inj hstep)
      apply (rank_nextDetect (Nat.lt_succ_self _)).trans
      simp [rank, Prod.Lex.toLex_lt_toLex]
  | detectFailed ticketId rest =>
      have hknown : ¬ i.collected.ready = none := hdies
      simp only [step, if_neg hknown] at hstep
      split_ifs at hstep
      all_goals obtain ⟨rfl, rfl⟩ := Prod.mk.inj (Option.some.inj hstep)
      · simp [rank, Prod.Lex.toLex_lt_toLex]
      · exact rank_nextDetect (by omega)
  | failedState ticketId rest =>
      simp only [step] at hstep
      split at hstep
      all_goals obtain ⟨rfl, rfl⟩ := Prod.mk.inj (Option.some.inj hstep)
      · exact rank_nextDetect (by omega)
      · simp [rank, Prod.Lex.toLex_lt_toLex]
  | setFailed ticketId state rest =>
      obtain ⟨rfl, rfl⟩ := Prod.mk.inj (Option.some.inj hstep)
      exact rank_nextDetect (Nat.lt_succ_self _)
  | keys caller =>
      simp only [step] at hstep
      split_ifs at hstep
      obtain ⟨rfl, rfl⟩ := Prod.mk.inj (Option.some.inj hstep)
      apply (rank_nextFilter caller [] (Nat.lt_succ_self _)).trans
      simp [rank, Prod.Lex.toLex_lt_toLex]
  | filter caller ticketId rest output =>
      simp only [step] at hstep
      split at hstep
      next herror => exact absurd (excludes_error herror) hdies
      all_goals
        obtain ⟨rfl, rfl⟩ := Prod.mk.inj (Option.some.inj hstep)
        exact rank_nextFilter _ _ (Nat.lt_succ_self _)
  | isFinished groupId ticketId rest =>
      have hnext : rank (nextFinished rest) < rank (.isFinished groupId ticketId rest) :=
        rank_nextFinished (by omega)
      simp only [step] at hstep
      split at hstep
      · obtain ⟨rfl, rfl⟩ := Prod.mk.inj (Option.some.inj hstep)
        exact hnext
      · have hconfigured : ¬ ¬ opts.Configured groupId := hdies
        rw [if_neg hconfigured] at hstep
        split_ifs at hstep
        all_goals obtain ⟨rfl, rfl⟩ := Prod.mk.inj (Option.some.inj hstep)
        · exact hnext
        · simp [rank, Prod.Lex.toLex_lt_toLex]
  | ticketData ticketId rest =>
      simp only [step] at hstep
      split at hstep
      all_goals obtain ⟨rfl, rfl⟩ := Prod.mk.inj (Option.some.inj hstep)
      · exact rank_nextPreparing (by omega)
      · simp [rank, Prod.Lex.toLex_lt_toLex]
  | agentCounts =>
      simp only [step] at hstep
      split_ifs at hstep
      obtain ⟨rfl, rfl⟩ := Prod.mk.inj (Option.some.inj hstep)
      apply (rank_nextCount [] (Nat.lt_succ_self _)).trans
      simp [rank, Prod.Lex.toLex_lt_toLex]
  | count ticketId rest counts =>
      obtain ⟨rfl, rfl⟩ := Prod.mk.inj (Option.some.inj hstep)
      exact rank_nextCount _ (Nat.lt_succ_self _)
  | converge group c =>
      have hgroup : rank (nextGroup c.currentAgents c.rest) < rank (.converge group c) :=
        rank_nextGroup _ (by omega)
      simp only [step] at hstep
      split at hstep
      · obtain ⟨rfl, rfl⟩ := Prod.mk.inj (Option.some.inj hstep)
        exact hgroup
      · split_ifs at hstep
        all_goals obtain ⟨rfl, rfl⟩ := Prod.mk.inj (Option.some.inj hstep)
        · apply (rank_nextNew group c (Nat.lt_succ_self _)).trans
          simp [rank, Prod.Lex.toLex_lt_toLex]
        · simp [rank, Caller.place, Prod.Lex.toLex_lt_toLex]
        · exact hgroup
  | tryRelease ticketId rest s =>
      have hnext : rank (nextStop s rest) < rank (.tryRelease ticketId rest s) :=
        rank_nextStop s (by omega)
      simp only [step] at hstep
      split at hstep
      · obtain ⟨rfl, rfl⟩ := Prod.mk.inj (Option.some.inj hstep)
        exact hnext
      · split_ifs at hstep
        all_goals obtain ⟨rfl, rfl⟩ := Prod.mk.inj (Option.some.inj hstep)
        · exact hnext
        · exact hnext
        · simp [rank, Prod.Lex.toLex_lt_toLex]
  | delete ticketId rest =>
      obtain ⟨rfl, rfl⟩ := Prod.mk.inj (Option.some.inj hstep)
      exact rank_nextDrop (Nat.lt_succ_self _)
  | setTerminating ticketId rest =>
      obtain ⟨rfl, rfl⟩ := Prod.mk.inj (Option.some.inj hstep)
      exact rank_nextFinished (Nat.lt_succ_self _)
  | setPreparing ticketId rest =>
      obtain ⟨rfl, rfl⟩ := Prod.mk.inj (Option.some.inj hstep)
      exact rank_nextPreparing (Nat.lt_succ_self _)
  | setNew ticketId group todo c =>
      obtain ⟨rfl, rfl⟩ := Prod.mk.inj (Option.some.inj hstep)
      exact rank_nextNew group c (Nat.lt_succ_self _)
  | stop ticketId rest s =>
      obtain ⟨rfl, rfl⟩ := Prod.mk.inj (Option.some.inj hstep)
      exact rank_nextStop { s with stopped := s.stopped + 1 } (Nat.lt_succ_self _)
  | newTicket group todo c =>
      simp only [step] at hstep
      split_ifs at hstep
      obtain ⟨rfl, rfl⟩ := Prod.mk.inj (Option.some.inj hstep)
      simp [rank, Prod.Lex.toLex_lt_toLex]
  | close | finishedGroup | setData | setGroup =>
      obtain ⟨rfl, rfl⟩ := Prod.mk.inj (Option.some.inj hstep)
      simp [rank, Prod.Lex.toLex_lt_toLex]
  | handOver tasks => exact absurd rfl (hend tasks)
  | stopped e => exact absurd trivial hdies

/-- The resalloc server does not refuse the next call: a ticket names no tag twice. -/
def Accepted : DispatcherPc → Prop
  | .newTicket group _ _ => group.tags.Nodup
  | _ => True

/-- The dispatcher can make its next step with the present keys, if it is not refused. -/
theorem exists_step {pc : DispatcherPc} (haccepted : pc.Accepted) (opts : Opts) (st : Store)
    {i : Input} (hkeys : i.keys = st.redis.keys) : ∃ u, pc.step opts i st = some u := by
  cases pc with
  | newTicket group todo c =>
      have htags : group.tags.Nodup := haccepted
      simp [step, htags]
  | start | keys | agentCounts => simp [step, hkeys]
  | detectFailed | converge =>
      simp only [step]
      repeat' split
      all_goals exact ⟨_, rfl⟩
  | failedState | filter | ticketData =>
      simp only [step]
      split
      all_goals exact ⟨_, rfl⟩
  | isFinished | tryRelease =>
      simp only [step]
      repeat' split
      all_goals exact ⟨_, rfl⟩
  | _ => exact ⟨_, rfl⟩

/-! ## What a restarted dispatcher finds -/

/-- {lit}`detect_failed_tickets` asks the resalloc server for a ticket. -/
def asks : DispatcherPc → Bool
  | .detectFailed _ _ => true
  | _ => false

/-- The dispatcher is between the two writes that record a new agent. -/
def records : DispatcherPc → Bool
  | .setNew _ _ _ _ => true
  | _ => false

/-- What the dispatcher reads next can be read: listed agents have a state, and hooks are
run for configured groups. -/
def Readable (opts : Opts) (st : Store) : DispatcherPc → Prop
  | .filter _ ticketId rest _ => ∀ k ∈ ticketId :: rest, (st.redis.read k).state ≠ none
  | .isFinished groupId _ _ => opts.Configured groupId
  | _ => True

/-- The loops over listed agents can go on. -/
theorem readable_nextLoop (caller : Caller) (output : List TicketId) :
    Readable opts st (nextLoop output caller) := by
  cases caller with
  | tryToStop s =>
      cases output with
      | nil => cases h : s.converge.rest <;> simp [nextLoop, nextStop, nextGroup, Readable, h]
      | cons ticketId rest =>
          simp only [nextLoop, nextStop]
          split_ifs
          · cases h : s.converge.rest <;> simp [nextGroup, Readable]
          · trivial
  | _ => cases output <;> trivial

/-- Every listed agent has a state. -/
theorem readable_nextFilter {caller : Caller} {output tids : List TicketId}
    (h : ∀ k ∈ tids, (st.redis.read k).state ≠ none) :
    Readable opts st (nextFilter caller output tids) := by
  cases tids with
  | nil => exact readable_nextLoop caller output
  | cons ticketId rest => exact h

/-- The loop over the groups can go on. -/
theorem readable_nextGroup (counts : Counts) (groups : List AgentGroup) :
    Readable opts st (nextGroup counts groups) := by
  cases groups <;> trivial

/-- Counting can go on. -/
theorem readable_nextCount (counts : Counts) (tids : List TicketId) :
    Readable opts st (nextCount opts counts tids) := by
  cases tids with
  | nil => exact readable_nextGroup counts opts.agentGroups
  | cons ticketId rest => trivial

/-- Starting agents can go on. -/
theorem readable_nextNew (group : AgentGroup) (c : Converge) (todo : ℕ) :
    Readable opts st (nextNew group c todo) := by
  cases todo with
  | zero => exact readable_nextGroup c.currentAgents c.rest
  | succ todo => trivial

/-- A step leads to a point from which the dispatcher can go on. -/
theorem Readable.step (h : pc.Readable opts st) (hsees : pc.Sees opts st)
    (hagents : ∀ k, (st.redis.read k).WellFormed opts)
    (hrecorded : ∀ k ∈ st.redis, (st.redis.read k).state ≠ none ∨
      ∃ group todo c, pc = .setNew k group todo c)
    (hstep : Steps opts i st pc st' pc') : pc'.Readable opts st' := by
  cases hstep with
  | @keys caller hkeys =>
      apply readable_nextFilter
      intro k hk
      obtain hstate | ⟨group, todo, c, hpc⟩ := hrecorded k (hkeys.mem_iff.mp hk)
      · exact hstate
      · contradiction
  | excluded | listed =>
      apply readable_nextFilter
      exact fun k hk => h k (List.mem_cons_of_mem _ hk)
  | finishedGroup ticketId rest =>
      have hworking : (st.redis.read ticketId).state = some .working := hsees.head
      exact (hagents ticketId).group _ hworking
  | start => cases i.keys <;> trivial
  | resolved _ rest | keepFailed _ rest | setFailed _ _ rest | delete _ rest | unfinished _ _ rest
    | setTerminating _ rest | unresolved _ rest | setPreparing _ rest => cases rest <;> trivial
  | agentCounts => exact readable_nextCount [] i.keys
  | count _ rest => exact readable_nextCount _ rest
  | keepGroup _ c => exact readable_nextGroup c.currentAgents c.rest
  | grow => exact readable_nextNew _ _ _
  | setNew _ group todo c => exact readable_nextNew group c todo
  | unreleased _ rest s => exact readable_nextLoop (.tryToStop s) rest
  | stop _ rest s => exact readable_nextLoop (.tryToStop { s with stopped := s.stopped + 1 }) rest
  | die | failed | switchFailed | close | finished | ticketData | setData | shrink | newTicket
    | setGroup | released | handOver => trivial

end DispatcherPc

/-- What the dispatcher is told in a step. -/
def Action.input? : Action → Option Input
  | .dispatcher i => some i
  | _ => none

namespace System

variable {opts opts' : Opts} {s s' : System} {a : Action} {i : Input}

/-- Every recorded agent has a state, but for the one that is being recorded. -/
def HasStates (st : Store) (pc : DispatcherPc) : Prop :=
  ∀ k ∈ st.redis, (st.redis.read k).state ≠ none ∨ ∃ group todo c, pc = .setNew k group todo c

/-- Every recorded agent has a state while none is being recorded. -/
theorem HasStates.all {st : Store} {pc : DispatcherPc} (h : HasStates st pc)
    (hpc : pc.records = false) {k : TicketId} (hk : k ∈ st.redis) :
    (st.redis.read k).state ≠ none := by
  obtain hstate | ⟨group, todo, c, rfl⟩ := h k hk
  · exact hstate
  · contradiction

/-- A switched agent has a state. -/
theorem HasStates.setState {st : Store} {pc : DispatcherPc} {ticketId : TicketId}
    (h : HasStates st pc) (state : AgentState) : HasStates (st.setState ticketId state) pc := by
  intro k hk
  rw [Store.read_setState]
  split_ifs with heq
  · exact .inl (by simp)
  · obtain hk | hk := HashStore.mem_write.mp hk
    · exact absurd hk heq
    · exact h k hk

/-- A step of the dispatcher leaves every recorded agent a state but the new one. -/
theorem HasStates.dispatcher {st st' : Store} {pc pc' : DispatcherPc} (h : HasStates st pc)
    (hsees : pc.Sees opts st) (hstep : DispatcherPc.Steps opts i st pc st' pc') :
    HasStates st' pc' ∨ ∃ e, pc' = .stopped e := by
  cases hstep with
  | die pc e => exact .inr ⟨e, rfl⟩
  | setFailed | setTerminating | setPreparing | stop =>
      exact .inl fun k hk => .inl ((h.setState _).all rfl hk)
  | setNew ticketId group todo c =>
      left
      intro k hk
      obtain hstate | ⟨group, todo, c, hpc⟩ := h.setState .new k hk
      · exact .inl hstate
      · cases hpc
        simp [Store.read_setState]
  | delete ticketId rest =>
      left
      intro k hk
      obtain ⟨hne, hmem⟩ := AList.mem_erase.mp hk
      rw [Store.delete, HashStore.read_erase, if_neg hne]
      exact .inl (h.all rfl hmem)
  | setData data ticketId rest =>
      left
      intro k hk
      rw [Store.read_setData_state]
      obtain rfl | hk := HashStore.mem_write.mp hk
      · have hnew : (st.redis.read k).state = some .new := hsees.head
        exact .inl (by simp [hnew])
      · exact .inl (h.all rfl hk)
  | setGroup ticketId group todo c =>
      left
      intro k hk
      by_cases heq : k = ticketId
      · exact .inr ⟨group, todo, c, by rw [heq]⟩
      · rw [Store.setGroup, HashStore.read_write, if_neg heq]
        obtain hk | hk := HashStore.mem_write.mp hk
        · exact absurd hk heq
        · exact .inl (h.all rfl hk)
  | _ => exact .inl fun k hk => .inl (h.all rfl hk)

/-- The dispatcher can go on from every point of its cycle, whatever was recorded before. -/
structure Alive (opts : Opts) (s : System) : Prop extends Inv opts s where
  states : HasStates s.store s.dispatcher
  readable : s.dispatcher.Readable opts s.store
  /-- It is not dead. -/
  rank : s.dispatcher.rank < toLex (10, toLex (0, 0))

/-- The resalloc server knows the ticket that {lit}`detect_failed_tickets` asks for. -/
def Knows (s : System) (a : Action) : Prop :=
  s.dispatcher.asks = true → ∀ i ∈ a.input?, i.collected.ready ≠ none

instance (s : System) (a : Action) : Decidable (Knows s a) :=
  inferInstanceAs (Decidable (_ → ∀ i ∈ _, _))

/-- The dispatcher does not die by itself. -/
theorem Alive.not_dies (h : Alive opts s) (hknows : Knows s (.dispatcher i)) :
    ¬ s.dispatcher.Dies opts i s.store := by
  have hreadable := h.readable
  have hrank := h.rank
  cases hpc : s.dispatcher with
  | detectFailed ticketId rest => exact hknows (by rw [hpc]; rfl) i rfl
  | filter caller ticketId rest output =>
      rw [hpc] at hreadable
      exact hreadable ticketId List.mem_cons_self
  | isFinished groupId ticketId rest =>
      rw [hpc] at hreadable
      exact not_not.mpr hreadable
  | stopped e =>
      rw [hpc] at hrank
      exact absurd hrank (lt_irrefl _)
  | _ => exact id

/-- The agents that a new dispatcher finds are those of configured groups, so it can go
on from its start. -/
theorem Alive.restart (h : Alive opts s)
    (hspares : s.dispatcher.records = false)
    (hgroups : ∀ k ∈ s.store.redis, ∀ groupId ∈ (s.store.redis.read k).groupId,
      opts'.Configured (some groupId)) :
    Alive opts' { s with dispatcher := .start, tasks := [] } := by
  refine ⟨⟨fun k => ?_, h.fresh, h.handlers, trivial⟩, fun k hk => ?_, trivial, ?_⟩
  · constructor
    · exact (h.agents k).data
    · intro state hstate
      obtain ⟨group, -, hid⟩ := (h.agents k).group state hstate
      rw [← hid]
      exact hgroups k (Store.mem_of_state hstate) group.id hid.symm
  · exact .inl (h.states.all hspares hk)
  · simp [DispatcherPc.rank, Prod.Lex.toLex_lt_toLex]

/-- The agents of a worker stay readable. -/
theorem readable_setState {st : Store} {pc : DispatcherPc} {ticketId : TicketId}
    (h : pc.Readable opts st) (state : AgentState) :
    pc.Readable opts (st.setState ticketId state) := by
  cases pc with
  | filter caller k rest output =>
      intro j hj
      rw [Store.read_setState]
      split_ifs
      · simp
      · exact h j hj
  | isFinished => exact h
  | _ => trivial

/-- Every step of every party leaves the dispatcher able to go on. -/
theorem Alive.step (h : Alive opts s) (hknows : Knows s a)
    (hspares : a = .restart → s.dispatcher.records = false)
    (hstep : System.step opts s a = some s') : Alive opts s' := by
  have hinv : Inv opts s' := h.toInv.step hstep
  cases a with
  | dispatcher i =>
      have hdies := h.not_dies hknows
      obtain ⟨⟨store, pc⟩, hpc, rfl⟩ := Option.map_eq_some_iff.mp hstep
      have hsteps := DispatcherPc.step_cases hpc
      have hrank : pc.rank < toLex (10, toLex (0, 0)) := by
        by_cases hend : ∃ tasks, s.dispatcher = .handOver tasks
        · obtain ⟨tasks, hend⟩ := hend
          rw [hend] at hpc
          obtain ⟨rfl, rfl⟩ := Prod.mk.inj (Option.some.inj hpc)
          simp [DispatcherPc.rank, Prod.Lex.toLex_lt_toLex]
        · apply (DispatcherPc.rank_step hpc hdies fun tasks htasks => hend ⟨tasks, htasks⟩).trans
          exact h.rank
      refine ⟨hinv, ?_, h.readable.step h.dispatcher h.agents h.states hsteps, hrank⟩
      obtain hstates | ⟨e, rfl⟩ := h.states.dispatcher h.dispatcher hsteps
      · exact hstates
      · exact absurd hrank (lt_irrefl _)
  | restart =>
      obtain rfl := Option.some.inj hstep
      apply h.restart (hspares rfl)
      intro k hk groupId hgroup
      obtain ⟨state, hstate⟩ := Option.ne_none_iff_exists'.mp (h.states.all (hspares rfl) hk)
      rw [← Option.mem_def.mp hgroup]
      exact (h.agents k).group state hstate
  | handler ticketId i =>
      cases step_cases hstep with
      | raised => exact ⟨hinv, h.states, h.readable, h.rank⟩
      | returned hlookup hpc =>
          have hmatch := h.handlers _ _ hlookup
          obtain rfl | ⟨old, next, -, -, rfl, -⟩ := HandlerPc.Matches.return hmatch hpc
          · exact ⟨hinv, h.states, h.readable, h.rank⟩
          · exact ⟨hinv, h.states.setState next, readable_setState h.readable next, h.rank⟩
      | handler hlookup hpc =>
          obtain ⟨rfl, -⟩ := HandlerPc.Matches.step (h.handlers _ _ hlookup) hpc
          exact ⟨hinv, h.states, h.readable, h.rank⟩
  | startTask | kill =>
      cases step_cases hstep
      exact ⟨hinv, h.states, h.readable, h.rank⟩

end System

/-! ## The agent spawner with its configuration files -/

/-- No group of the configuration names a tag twice. -/
def Opts.DistinctTags (opts : Opts) : Prop := ∀ group ∈ opts.agentGroups, group.tags.Nodup

instance (opts : Opts) : Decidable opts.DistinctTags :=
  inferInstanceAs (Decidable (∀ _ ∈ _, _))

/-- The dispatcher asks for tickets of configured groups. -/
theorem DispatcherPc.Sees.accepted {opts : Opts} {st : Store} {pc : DispatcherPc}
    (h : pc.Sees opts st) (hdistinct : opts.DistinctTags) : pc.Accepted := by
  cases pc with
  | newTicket group todo c => exact hdistinct group h.1
  | _ => trivial

/-- The agent spawner and the configuration that its dispatcher has loaded. -/
structure Deployment where
  opts : Opts
  system : System := {}

namespace Deployment

/-- What can happen. -/
inductive Move
  | act (a : Action)
  /-- The dispatcher dies, and a new one starts with this configuration. -/
  | restart (opts : Opts)

/-- The effect of a move. -/
def step (d : Deployment) : Move → Option Deployment
  | .act a => (d.system.step d.opts a).map fun s => { d with system := s }
  | .restart opts =>
      some { opts := opts, system := { d.system with dispatcher := .start, tasks := [] } }

/-- The resalloc server knows the tickets, and every recorded group is configured. -/
def Assumed (d : Deployment) : Move → Prop
  | .act a => d.system.Knows a
  | .restart opts => ∀ k ∈ d.system.store.redis.keys,
      ∀ groupId ∈ (d.system.store.redis.read k).groupId, opts.Configured (some groupId)

instance (d : Deployment) (m : Move) : Decidable (d.Assumed m) :=
  match m with
  | .act a => inferInstanceAs (Decidable (d.system.Knows a))
  | .restart _ => inferInstanceAs (Decidable (∀ k ∈ _, ∀ groupId ∈ _, _))

/-- The dispatcher dies or is replaced. -/
def Move.kills : Move → Bool
  | .act a => a = .restart
  | .restart _ => true

/-- The dispatcher moves. -/
def Move.isDispatcher : Move → Bool
  | .act (.dispatcher _) => true
  | _ => false

/-- Nobody kills the dispatcher between the two writes that record a new agent. -/
def Spares (d : Deployment) (m : Move) : Prop :=
  m.kills = true → d.system.dispatcher.records = false

instance (d : Deployment) (m : Move) : Decidable (d.Spares m) :=
  inferInstanceAs (Decidable (_ → _))

/-- The dispatcher is started with configurations only in which no group names a tag twice. -/
def LoadsDistinct (_ : Deployment) : Move → Prop
  | .act _ => True
  | .restart opts => opts.DistinctTags

instance (d : Deployment) (m : Move) : Decidable (d.LoadsDistinct m) :=
  match m with
  | .act _ => inferInstanceAs (Decidable True)
  | .restart opts => inferInstanceAs (Decidable opts.DistinctTags)

/-- An infinite run in which the dispatcher lives and moves again and again. -/
structure Continues (d : Deployment) (run : ℕ → Deployment) (moves : ℕ → Move) : Prop where
  start : run 0 = d
  step : ∀ n, (run n).step (moves n) = some (run (n + 1))
  assumed : ∀ n, (run n).Assumed (moves n)
  lives : ∀ n, (moves n).kills = false
  moves : ∀ n, ∃ m, n ≤ m ∧ (moves m).isDispatcher = true

/-- Every cycle of the dispatcher runs to its end without an exception. -/
structure Survives (d : Deployment) : Prop where
  /-- The dispatcher has not died of an exception. -/
  alive : ∀ e, d.system.dispatcher ≠ .stopped e
  /-- It finds agents in the five states only. -/
  states : d.system.dispatcher.records = false →
    ∀ k ∈ d.system.store.redis, d.system.state k ≠ none
  /-- It can move, whatever it is told. -/
  moves : ∀ i : Input, ∃ keys s,
    d.system.step d.opts (.dispatcher { i with keys := keys }) = some s
  /-- It hands over its tasks. -/
  ends : ∀ run moves, d.Continues run moves →
    ∃ n tasks, (run n).system.dispatcher = .handOver tasks

variable {opts : Opts} {d d' : Deployment} {m : Move} {ms : List Move}

/-- Every move leaves the dispatcher able to go on. -/
theorem alive_step (h : d.system.Alive d.opts) (hassumed : d.Assumed m) (hspares : d.Spares m)
    (hstep : d.step m = some d') : d'.system.Alive d'.opts := by
  cases m with
  | act a =>
      obtain ⟨s, hs, rfl⟩ := Option.map_eq_some_iff.mp hstep
      exact h.step hassumed (fun ha => hspares (by simp [Move.kills, ha])) hs
  | restart opts =>
      obtain rfl := Option.some.inj hstep
      exact h.restart (hspares rfl) hassumed

/-- Every cycle of the dispatcher ends. -/
theorem exists_handOver (h : d.system.Alive d.opts) {run : ℕ → Deployment} {moves : ℕ → Move}
    (hrun : d.Continues run moves) :
    ∃ n tasks, (run n).system.dispatcher = .handOver tasks := by
  have halive : ∀ n, (run n).system.Alive (run n).opts := by
    intro n
    induction n with
    | zero => exact hrun.start ▸ h
    | succ n ih =>
        have hspares : (run n).Spares (moves n) := fun hkills => by
          rw [hrun.lives n] at hkills
          contradiction
        exact alive_step ih (hrun.assumed n) hspares (hrun.step n)
  have hgoal : ∃ m, 0 ≤ m ∧ ∃ tasks, (run m).system.dispatcher = .handOver tasks := by
    refine exists_goal (fun d : Deployment => d.system.dispatcher.rank)
      (fun d => ∃ tasks, d.system.dispatcher = .handOver tasks) hrun.moves ?_ ?_ 0
    · intro n hend hmoves
      have hstep := hrun.step n
      have hassumed := hrun.assumed n
      generalize moves n = m at hmoves hstep hassumed
      match m with
      | .act (.dispatcher i) =>
          obtain ⟨s, hs, hnext⟩ := Option.map_eq_some_iff.mp hstep
          obtain ⟨⟨store, pc⟩, hpc, rfl⟩ := Option.map_eq_some_iff.mp hs
          rw [← hnext]
          exact DispatcherPc.rank_step hpc ((halive n).not_dies hassumed)
            fun tasks htasks => hend ⟨tasks, htasks⟩
    · intro n hwaits
      apply le_of_eq
      have hstep := hrun.step n
      have hlives := hrun.lives n
      generalize moves n = m at hwaits hstep hlives
      match m with
      | .act (.dispatcher i) => exact absurd rfl hwaits
      | .act .restart | .restart opts => contradiction
      | .act (.startTask k) | .act (.handler k i) | .act (.kill k) =>
          obtain ⟨s, hs, hnext⟩ := Option.map_eq_some_iff.mp hstep
          rw [← hnext]
          cases System.step_cases hs <;> rfl
  obtain ⟨m, -, tasks, hend⟩ := hgoal
  exact ⟨m, tasks, hend⟩

/-- A move keeps the configuration, or loads another one. -/
theorem distinct_step (h : d.opts.DistinctTags) (hloads : d.LoadsDistinct m)
    (hstep : d.step m = some d') : d'.opts.DistinctTags := by
  cases m with
  | act a =>
      obtain ⟨s, -, rfl⟩ := Option.map_eq_some_iff.mp hstep
      exact h
  | restart opts =>
      obtain rfl := Option.some.inj hstep
      exact hloads

/-- Moves of a dispatcher that records its first agent, up to one of its writes. -/
def recordFirst (steps : ℕ) : List Move :=
  List.replicate steps (.act (System.keepOne []))

/-- The dispatcher is killed and started again, and lists the agents in the end. -/
def restartFirst (keys : List TicketId) : List Move :=
  .restart System.workersOpts :: List.replicate 4 (.act (System.keepOne keys))

/-- The dispatcher was killed before it recorded its new ticket. -/
def restarted : Deployment :=
  (execWithin step (fun d m => d.Assumed m ∧ d.Spares m ∧ d.LoadsDistinct m)
    { opts := System.workersOpts } (recordFirst 7 ++ restartFirst [])).get (by decide +kernel)

/-- The dispatcher was killed between the two writes. -/
def halfRecorded : Deployment :=
  (execWithin step Assumed { opts := System.workersOpts } (recordFirst 8 ++ restartFirst [1])).get
    (by decide +kernel)

end Deployment

end Resalloc.Spawner
