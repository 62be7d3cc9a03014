import Resalloc.Spawner.Steps

/-!
# Shrinking an agent group

{lit}`converge` compares the number of recorded agents with the ideal number and stops
the difference.  An agent stays recorded until its ended ticket is dropped, so agents
that are on their way out are counted too, and others are stopped for them.

Main results:

- Definition {lit}`System.CountsActive`: what {lit}`converge` counts.
- Theorem {lit}`System.Shrinks.step`: the counted agents are active or were stopped by
  this {lit}`converge`.
- Theorem {lit}`System.stop_above`: an agent is stopped only above the ideal number.
- Theorem {lit}`System.stop_below`: an agent is stopped although it is the only active
  one.
-/

namespace Resalloc.Spawner

open Foundations

/-! ## Counted agents -/

namespace Agent

/-- The agent belongs to a group. -/
def isMember (groupId : String) (a : Agent) : Bool := a.groupId = some groupId

/-- The agent belongs to a group, and it is NEW, PREPARING or WORKING. -/
def isActive (groupId : String) (a : Agent) : Bool :=
  a.groupId = some groupId ∧
    (a.state = some .new ∨ a.state = some .preparing ∨ a.state = some .working)

end Agent

namespace Store

variable (st : Store) (groupId : String)

/-- The recorded agents of a group. -/
def members : ℕ := st.redis.count (Agent.isMember groupId)

/-- The agents of a group that are NEW, PREPARING or WORKING. -/
def active : ℕ := st.redis.count (Agent.isActive groupId)

variable {st groupId} {ticketId : TicketId} {state : AgentState}

/-- A switch of a state keeps the groups. -/
theorem setState_groupId (st : Store) (ticketId : TicketId) (state : AgentState) (k : TicketId) :
    ((st.setState ticketId state).redis.read k).groupId = (st.redis.read k).groupId :=
  HashStore.read_write_field Agent.groupId (by simp) k

/-- A switch to an active state, or of an agent that was not active, leaves as many
active agents. -/
theorem active_le_setState (h : (st.redis.read ticketId).isActive groupId = true →
    state = .new ∨ state = .preparing ∨ state = .working) :
    st.active groupId ≤ (st.setState ticketId state).active groupId := by
  refine HashStore.count_le fun k hk hactive => ⟨HashStore.mem_write.mpr (.inr hk), ?_⟩
  rw [setState, HashStore.read_write]
  split_ifs with hticket
  · subst hticket
    have hstate := h hactive
    simp only [Agent.isActive, decide_eq_true_eq] at hactive ⊢
    exact ⟨hactive.1, by simpa using hstate⟩
  · exact hactive

/-- A switch leaves all active agents but one. -/
theorem active_le_setState_succ (st : Store) (ticketId : TicketId) (state : AgentState) :
    st.active groupId ≤ (st.setState ticketId state).active groupId + 1 := by
  refine HashStore.count_le_succ ticketId fun k hk hne hactive =>
    ⟨HashStore.mem_write.mpr (.inr hk), ?_⟩
  rwa [setState, HashStore.read_write, if_neg hne]

/-- If all members are active, they are counted as such. -/
theorem members_le_active (h : ∀ k ∈ st.redis.keys, (st.redis.read k).isMember groupId = true →
    (st.redis.read k).isActive groupId = true) : st.members groupId ≤ st.active groupId :=
  HashStore.count_le fun k hk hmember => ⟨hk, h k hk hmember⟩

end Store

/-- The number of agents of a group that the running {lit}`converge` counts. -/
def DispatcherPc.counted? (groupId : String) (st : Store) : DispatcherPc → Option ℕ
  | .count ticketId rest counts => some (Counts.get (some groupId) counts +
      (ticketId :: rest).countP fun k => (st.redis.read k).isMember groupId)
  | .converge _ c => some (Counts.get (some groupId) c.currentAgents)
  | .keys (.tryToStop s) | .filter (.tryToStop s) _ _ _ | .tryRelease _ _ s | .stop _ _ s =>
      some (Counts.get (some groupId) s.converge.currentAgents)
  | _ => none

namespace System

/-! ## What the runs are about -/

/-- The result of {lit}`cmd_converge_to` stays at a number. -/
def ConvergesTo (ideal : Int) (_ : System) (a : Action) : Prop :=
  match a with
  | .dispatcher i => ∀ n ∈ i.convergeTo, n = ideal
  | _ => True

instance (ideal : Int) (s : System) (a : Action) : Decidable (ConvergesTo ideal s a) := by
  unfold ConvergesTo
  split <;> infer_instance

/-- When {lit}`converge` counts more agents than there should be, all of them are NEW,
PREPARING or WORKING. -/
def CountsActive (groupId : String) (ideal : Int) (s : System) (a : Action) : Prop :=
  match a, s.dispatcher with
  | .dispatcher _, .agentCounts => ideal < s.store.members groupId →
      ∀ k ∈ s.store.redis.keys, (s.store.redis.read k).isMember groupId = true →
        (s.store.redis.read k).isActive groupId = true
  | _, _ => True

instance (groupId : String) (ideal : Int) (s : System) (a : Action) :
    Decidable (CountsActive groupId ideal s a) := by
  unfold CountsActive
  split <;> infer_instance

/-- While {lit}`converge` has counted more agents than there should be, no worker
switches an agent of the group from one of these states to ENDED. -/
def KeepsActive (groupId : String) (ideal : Int) (s : System) (a : Action) : Prop :=
  match a with
  | .handler ticketId _ => ∀ pc ∈ s.handlers.lookup ticketId, pc = .taken false ∨ pc = .terminated →
      ∀ n ∈ s.dispatcher.counted? groupId s.store, ideal < n →
        (s.store.redis.read ticketId).isActive groupId = false
  | _ => True

instance (groupId : String) (ideal : Int) (s : System) (a : Action) :
    Decidable (KeepsActive groupId ideal s a) := by
  unfold KeepsActive
  split <;> infer_instance

/-- The runs in which {lit}`converge` counts the agents that are there. -/
def Converges (groupId : String) (ideal : Int) (s : System) (a : Action) : Prop :=
  ConvergesTo ideal s a ∧ CountsActive groupId ideal s a ∧ KeepsActive groupId ideal s a

instance (groupId : String) (ideal : Int) (s : System) (a : Action) :
    Decidable (Converges groupId ideal s a) :=
  inferInstanceAs (Decidable (_ ∧ _ ∧ _))

/-! ## Agents that are left -/

/-- {lit}`try_to_stop` stops the agents above the ideal number, and the counted agents
are active or were stopped. -/
structure Stops (groupId : String) (ideal : Int) (st : Store) (s : Stopping) : Prop where
  rest : s.converge.rest = []
  toStop : s.toStop = Counts.get (some groupId) s.converge.currentAgents - ideal
  above : ideal < Counts.get (some groupId) s.converge.currentAgents
  counted : (Counts.get (some groupId) s.converge.currentAgents : Int) ≤
    st.active groupId + s.stopped

/-- The agents that the running {lit}`converge` counts are active or were stopped by
it. -/
def Shrinks (group : AgentGroup) (ideal : Int) (st : Store) : DispatcherPc → Prop
  | .count ticketId rest counts =>
      ∀ n ∈ (DispatcherPc.count ticketId rest counts).counted? group.id st, ideal < n →
        n ≤ st.active group.id
  | .converge g c => g = group ∧ c.rest = [] ∧
      (ideal < Counts.get (some group.id) c.currentAgents →
        Counts.get (some group.id) c.currentAgents ≤ st.active group.id)
  | .newTicket _ _ c | .setGroup _ _ _ c | .setNew _ _ _ c => c.rest = []
  | .keys (.tryToStop s) | .filter (.tryToStop s) _ _ _ => Stops group.id ideal st s
  | .tryRelease _ _ s | .stop _ _ s => Stops group.id ideal st s ∧ s.stopped < s.toStop
  | _ => True

variable {opts : Opts} {group : AgentGroup} {ideal : Int} {st st' : Store} {pc pc' : DispatcherPc}
variable {s s₀ s' : System} {a : Action} {as : List Action} {i : Input}

/-- What happens to the store meanwhile. -/
theorem Shrinks.of_store (h : Shrinks group ideal st pc)
    (hgroup : ∀ k, (st'.redis.read k).groupId = (st.redis.read k).groupId)
    (hactive : ∀ n ∈ pc.counted? group.id st, ideal < n →
      st.active group.id ≤ st'.active group.id) : Shrinks group ideal st' pc := by
  have hmember : ∀ k, (st'.redis.read k).isMember group.id = (st.redis.read k).isMember group.id :=
    fun k => by simp only [Agent.isMember, hgroup]
  have hstops : ∀ {v : Stopping}, Stops group.id ideal st v →
      (ideal < Counts.get (some group.id) v.converge.currentAgents →
        st.active group.id ≤ st'.active group.id) → Stops group.id ideal st' v :=
    fun hv hle => ⟨hv.rest, hv.toStop, hv.above,
      hv.counted.trans (by have := hle hv.above; omega)⟩
  cases pc with
  | count ticketId rest counts =>
      simp only [Shrinks, DispatcherPc.counted?, hmember] at h hactive ⊢
      exact fun n hn habove => (h n hn habove).trans (hactive n hn habove)
  | converge g c => exact ⟨h.1, h.2.1, fun habove => (h.2.2 habove).trans (hactive _ rfl habove)⟩
  | keys caller | filter caller =>
      cases caller with
      | tryToStop v => exact hstops h (hactive _ rfl)
      | _ => trivial
  | tryRelease | stop => exact ⟨hstops h.1 (hactive _ rfl), h.2⟩
  | newTicket | setGroup | setNew => exact h
  | _ => trivial

/-! ## Loops -/

/-- Counting goes on, or the group has been counted. -/
theorem shrinks_nextCount (hgroups : opts.agentGroups = [group]) {counts : Counts}
    {keys : List TicketId} (h : ideal < Counts.get (some group.id) counts +
      keys.countP (fun k => (st.redis.read k).isMember group.id) →
      Counts.get (some group.id) counts +
        keys.countP (fun k => (st.redis.read k).isMember group.id) ≤ st.active group.id) :
    Shrinks group ideal st (.nextCount opts counts keys) := by
  cases keys with
  | nil =>
      rw [DispatcherPc.nextCount, hgroups]
      exact ⟨rfl, rfl, by simpa using h⟩
  | cons ticketId rest =>
      intro n hn
      obtain rfl := Option.some.inj hn
      exact_mod_cast h

/-- After the only group, the tasks are listed. -/
theorem shrinks_nextGroup {counts : Counts} {rest : List AgentGroup} (h : rest = []) :
    Shrinks group ideal st (.nextGroup counts rest) := by
  rw [h]
  trivial

/-- Stopping goes on as long as there are agents above the ideal number. -/
theorem shrinks_nextStop {v : Stopping} (h : Stops group.id ideal st v) (tids : List TicketId) :
    Shrinks group ideal st (.nextStop v tids) := by
  cases tids with
  | nil => exact shrinks_nextGroup h.rest
  | cons ticketId rest =>
      simp only [DispatcherPc.nextStop]
      split_ifs with hstopped
      · exact shrinks_nextGroup h.rest
      · exact ⟨h, not_le.mp hstopped⟩

/-- The agents to stop are listed. -/
theorem shrinks_nextFilter {caller : Caller} {tids : List TicketId} (output : List TicketId)
    (h : ∀ v, caller = .tryToStop v → Stops group.id ideal st v) :
    Shrinks group ideal st (.nextFilter caller output tids) := by
  cases caller with
  | tryToStop v =>
      cases tids with
      | nil => exact shrinks_nextStop (h v rfl) output
      | cons ticketId rest => exact h v rfl
  | _ => cases tids <;> cases output <;> trivial

/-! ## Steps -/

/-- Every step of the dispatcher keeps the counted agents active or stops them. -/
theorem Shrinks.dispatcher (h : Shrinks group ideal st pc)
    (hgroups : opts.agentGroups = [group]) (hideal : ∀ n ∈ i.convergeTo, n = ideal)
    (hcounts : pc = .agentCounts → ideal < st.members group.id →
      ∀ k ∈ st.redis.keys, (st.redis.read k).isMember group.id = true →
        (st.redis.read k).isActive group.id = true)
    (hstep : DispatcherPc.Steps opts i st pc st' pc') : Shrinks group ideal st' pc' := by
  cases hstep with
  | agentCounts hkeys =>
      have hmembers : i.keys.countP (fun k => (st.redis.read k).isMember group.id) =
          st.members group.id := hkeys.countP_eq _
      refine shrinks_nextCount hgroups ?_
      rw [hmembers, Counts.get, Nat.zero_add]
      exact fun habove => Store.members_le_active (hcounts rfl (by simpa using habove))
  | count ticketId rest counts =>
      refine shrinks_nextCount hgroups ?_
      have hcounted := h _ rfl
      rw [Counts.get_add]
      simp only [List.countP_cons, Agent.isMember, decide_eq_true_eq] at hcounted ⊢
      split_ifs at hcounted ⊢ <;> omega
  | keepGroup group' c => exact shrinks_nextGroup h.2.1
  | @grow group' c ideal' =>
      cases (ideal' - Counts.get (some group'.id) c.currentAgents).toNat with
      | zero => exact shrinks_nextGroup h.2.1
      | succ todo => exact h.2.1
  | @shrink group' c ideal' hconverge habove =>
      obtain ⟨rfl, hrest, hcounted⟩ := h
      obtain rfl := hideal _ hconverge
      exact ⟨hrest, rfl, habove, by simpa using hcounted habove⟩
  | newTicket | setGroup => exact h
  | setNew ticketId group' todo c =>
      cases todo with
      | zero => exact shrinks_nextGroup h
      | succ todo => exact h
  | keys => exact shrinks_nextFilter _ fun v hv => by subst hv; exact h
  | excluded | listed => exact shrinks_nextFilter _ fun v hv => by subst hv; exact h
  | unreleased => exact shrinks_nextStop h.1 _
  | released => exact h
  | stop ticketId rest v =>
      obtain ⟨⟨hrest, htoStop, habove, hcounted⟩, hstopped⟩ := h
      have hle : st.active group.id ≤ (st.setState ticketId .terminating).active group.id + 1 :=
        st.active_le_setState_succ ticketId .terminating
      have hstops : Stops group.id ideal (st.setState ticketId .terminating)
          { v with stopped := v.stopped + 1 } := ⟨hrest, htoStop, habove, by simp only; omega⟩
      exact shrinks_nextStop hstops rest
  | start => cases i.keys <;> trivial
  | resolved _ rest | keepFailed _ rest | setFailed _ _ rest | delete _ rest | unfinished _ _ rest
    | setTerminating _ rest | unresolved _ rest | setPreparing _ rest => cases rest <;> trivial
  | die | failed | switchFailed | close | finishedGroup | finished | ticketData | setData
    | handOver => trivial

/-- The counted agents stay active or are stopped by {lit}`converge`. -/
theorem Shrinks.step (h : Shrinks group ideal s.store s.dispatcher)
    (hgroups : opts.agentGroups = [group]) (hok : Converges group.id ideal s a)
    (hstep : s.step opts a = some s') : Shrinks group ideal s'.store s'.dispatcher := by
  obtain ⟨hideal, hcounts, hkeeps⟩ := hok
  cases step_cases hstep with
  | dispatcher hpc =>
      refine h.dispatcher hgroups hideal (fun hdispatcher => ?_) hpc
      simpa only [CountsActive, hdispatcher] using hcounts
  | @returned ticketId i pc store hhandler hpc =>
      have hended : pc = .taken false ∨ pc = .terminated →
          Shrinks group ideal (s.store.setState ticketId .ended) s.dispatcher := fun hpc =>
        h.of_store (s.store.setState_groupId ticketId .ended) fun n hn habove =>
          Store.active_le_setState (by simp [hkeeps _ hhandler hpc n hn habove])
      cases hpc with
      | ignored => exact h
      | prepared =>
          exact h.of_store (s.store.setState_groupId ticketId .working) fun _ _ _ =>
            Store.active_le_setState (by simp)
      | unprepared => exact hended (.inl rfl)
      | ended => exact hended (.inr rfl)
  | handler _ hpc =>
      cases hpc
      all_goals exact h
  | restart => trivial
  | startTask | raised | kill => exact h

/-! ## Runs -/

/-- With one group whose ideal number stays the same, {lit}`converge` switches an agent to
TERMINATING only if more agents are active, in every run from any recorded agents in
which it counts the active ones. -/
theorem stop_above (hgroups : opts.agentGroups = [group]) (hstart : s₀.dispatcher = .start)
    (h : Path (step opts) (Converges group.id ideal) s₀ as s) {ticketId : TicketId}
    {rest : List TicketId} {v : Stopping} (hstop : s.dispatcher = .stop ticketId rest v) :
    ideal < s.store.active group.id := by
  have hshrinks : Shrinks group ideal s.store s.dispatcher :=
    h.invariant (P := fun u : System => Shrinks group ideal u.store u.dispatcher)
      (by rw [hstart]; trivial) fun u a v hu ha hstep => hu.step hgroups ha hstep
  rw [hstop] at hshrinks
  obtain ⟨⟨-, htoStop, -, hcounted⟩, hstopped⟩ := hshrinks
  omega

/-- The hash of an agent of a group in one of the five states. -/
def Recorded (group : AgentGroup) (a : Agent) : Prop :=
  a.groupId = some group.id ∧ a.state ≠ none ∧ (a.state = some .new ∨ a.data ≠ none)

instance (group : AgentGroup) (a : Agent) : Decidable (Recorded group a) :=
  inferInstanceAs (Decidable (_ ∧ _ ∧ _))

/-- A group of agents. -/
def workers : AgentGroup := { id := "workers" }

/-- The configuration with this group. -/
def workersOpts : Opts := { agentGroups := [workers], nodup := by decide }

/-- A WORKING agent, and another one in some state. -/
def twoAgents (state : AgentState) : System :=
  let agent (state : AgentState) : Agent :=
    { groupId := some workers.id, state := some state, data := some "data" }
  { store :=
      { redis := ((∅ : Redis).write 1 fun _ => agent .working).write 2 fun _ => agent state } }

/-- Steps of a dispatcher that wants to keep one agent, up to the first agent that it
stops. -/
def shrinkingSteps (steps : ℕ) : List Action :=
  let i : Input := { keys := [1, 2], convergeTo := some 1 }
  List.replicate steps (.dispatcher i) ++
    [.dispatcher { i with collected := { ready := some true, output := "data" } }]

/-- The state that these steps lead to. -/
def shrinking (ok : System → Action → Prop) [∀ s a, Decidable (ok s a)] (state : AgentState)
    (steps : ℕ) (h : (execWithin (step workersOpts) ok (twoAgents state)
      (shrinkingSteps steps)).isSome = true) : System :=
  (execWithin (step workersOpts) ok (twoAgents state) (shrinkingSteps steps)).get h

/-- These steps are a run. -/
theorem path_shrinking (ok : System → Action → Prop) [∀ s a, Decidable (ok s a)]
    (state : AgentState) (steps : ℕ) (h : (execWithin (step workersOpts) ok (twoAgents state)
      (shrinkingSteps steps)).isSome = true) :
    Path (step workersOpts) ok (twoAgents state) (shrinkingSteps steps)
      (shrinking ok state steps h) :=
  Path.of_execWithin (Option.some_get h).symm

/-- What {lit}`try_to_stop` knows when it stops the first agent. -/
def firstStop : Stopping :=
  { groupId := workers.id
    toStop := 1
    converge := { currentAgents := [(workers.id, 2)], rest := [] } }

/-- Of two WORKING agents one is stopped. -/
theorem stop_above_working : (1 : Int) <
    (shrinking (Converges workers.id 1) .working 23 (by decide +kernel)).store.active workers.id :=
  have hgroups : workersOpts.agentGroups = [workers] := rfl
  have hstop : (shrinking (Converges workers.id 1) .working 23 (by decide +kernel)).dispatcher =
      .stop 1 [2] firstStop := by decide +kernel
  stop_above hgroups rfl (path_shrinking (Converges workers.id 1) .working 23 _) hstop

/-- The only WORKING agent is stopped while another one is TERMINATING. -/
theorem stop_below :
    ¬ ∀ (opts : Opts) (group : AgentGroup) (ideal : Int) (s₀ s : System) (as : List Action),
      opts.agentGroups = [group] → s₀.dispatcher = .start → s₀.handlers = ∅ →
      (∀ k ∈ s₀.store.redis.keys, Recorded group (s₀.store.redis.read k)) →
      Path (step opts) (ConvergesTo ideal) s₀ as s → ∀ ticketId rest v,
        s.dispatcher = .stop ticketId rest v → ideal < s.store.active group.id := by
  intro h
  have hstop : (shrinking (ConvergesTo 1) .terminating 21 (by decide +kernel)).dispatcher =
      .stop 1 [] firstStop := by decide +kernel
  have hone : (shrinking (ConvergesTo 1) .terminating 21 (by decide +kernel)).store.active
      workers.id = 1 := by decide +kernel
  have hlt := h workersOpts workers 1 (twoAgents .terminating) _ _ rfl rfl rfl
    (by decide +kernel) (path_shrinking (ConvergesTo 1) .terminating 21 (by decide +kernel))
    1 [] firstStop hstop
  rw [hone] at hlt
  exact absurd hlt (by decide)

end System

end Resalloc.Spawner
