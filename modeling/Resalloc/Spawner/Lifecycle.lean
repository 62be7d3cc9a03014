import Resalloc.Spawner.Converge

/-!
# The life of an agent

The passes of the dispatcher list agents in one state, ask the resalloc server about each
of them and write its next state later, while background workers write to the same hashes.
No write is based on a state that has changed since: the dispatcher moves the agents that
are NEW or WORKING, the workers those that are PREPARING or TERMINATING.

Main results:

- Definition {lit}`AgentState.Moves`: the life of an agent.
- Definition {lit}`DispatcherPc.Sees`: what the dispatcher has read is still the case.
- Theorem {lit}`System.Inv.step`: every step keeps this.
- Theorem {lit}`System.life_cycle`: what every step of every run does to an agent.
-/

namespace Resalloc.Spawner

open Foundations

/-! ## One agent -/

/-- The steps of the life of an agent; {lean}`none` is an agent that is not recorded. -/
inductive AgentState.Moves : Option AgentState → Option AgentState → Prop
  | stay (state) : Moves state state
  | start : Moves none (some .new)
  | prepare : Moves (some .new) (some .preparing)
  | failNew : Moves (some .new) (some .ended)
  | work : Moves (some .preparing) (some .working)
  | failPreparing : Moves (some .preparing) (some .ended)
  | terminate : Moves (some .working) (some .terminating)
  | finish : Moves (some .terminating) (some .ended)
  | drop : Moves (some .ended) none

/-- A background worker handles agents in this state. -/
def AgentState.isHandled : AgentState → Bool
  | .preparing | .terminating => true
  | _ => false

/-- Agents in this state have been given data. -/
def AgentState.hasData : AgentState → Bool
  | .preparing | .working | .terminating => true
  | _ => false

/-- What the dispatcher does to the hash of an agent. -/
inductive Agent.Dispatched (opts : Opts) : Agent → Agent → Prop
  | same (a) : Dispatched opts a a
  | grouped {group} : group ∈ opts.agentGroups →
      Dispatched opts default { (default : Agent) with groupId := some group.id }
  | recorded {a} : a.state = none → opts.Configured a.groupId →
      Dispatched opts a { a with state := some .new }
  | resolved {a} (data) : a.state = some .new → Dispatched opts a { a with data := some data }
  | prepare {a} : a.state = some .new → a.data ≠ none →
      Dispatched opts a { a with state := some .preparing }
  | fail {a} : a.state = some .new → Dispatched opts a { a with state := some .ended }
  | terminate {a} : a.state = some .working →
      Dispatched opts a { a with state := some .terminating }
  | drop {a} : a.state = some .ended → Dispatched opts a default

/-- What a background worker does to the hash of its agent. -/
inductive Agent.Handled : Agent → Agent → Prop
  | same (a) : Handled a a
  | prepared {a} : a.state = some .preparing → Handled a { a with state := some .working }
  | unprepared {a} : a.state = some .preparing → Handled a { a with state := some .ended }
  | terminated {a} : a.state = some .terminating → Handled a { a with state := some .ended }

/-- The fields that an agent has in its state. -/
structure Agent.WellFormed (opts : Opts) (a : Agent) : Prop where
  data : ∀ state, a.state = some state → state.hasData = true → a.data ≠ none
  group : ∀ state, a.state = some state → opts.Configured a.groupId

/-- A hash without fields has no state. -/
@[simp]
theorem Agent.default_state : (default : Agent).state = none := rfl

section Agents

variable {opts : Opts} {a b : Agent}

/-- The dispatcher moves an agent along its life. -/
theorem Agent.Dispatched.moves (h : Dispatched opts a b) : AgentState.Moves a.state b.state := by
  cases h with
  | same | grouped | resolved => exact .stay _
  | recorded hstate => exact hstate ▸ .start
  | prepare hstate => exact hstate ▸ .prepare
  | fail hstate => exact hstate ▸ .failNew
  | terminate hstate => exact hstate ▸ .terminate
  | drop hstate => exact hstate ▸ .drop

/-- A worker moves an agent along its life. -/
theorem Agent.Handled.moves (h : Handled a b) : AgentState.Moves a.state b.state := by
  cases h with
  | same => exact .stay _
  | prepared hstate => exact hstate ▸ .work
  | unprepared hstate => exact hstate ▸ .failPreparing
  | terminated hstate => exact hstate ▸ .finish

/-- The dispatcher does not move the agents of the workers. -/
theorem Agent.Dispatched.keeps (h : Dispatched opts a b) {state : AgentState}
    (hstate : a.state = some state) (hhandled : state.isHandled = true) : b = a := by
  cases h with
  | same => rfl
  | grouped => simp at hstate
  | recorded h | resolved _ h | prepare h | fail h | terminate h | drop h =>
      rw [h] at hstate
      cases hstate <;> contradiction

/-- The dispatcher gives every agent the fields of its state. -/
theorem Agent.Dispatched.wellFormed (h : Dispatched opts a b) (ha : a.WellFormed opts) :
    b.WellFormed opts := by
  cases h with
  | same => exact ha
  | grouped hgroup => constructor <;> simp
  | recorded hstate hgroup => constructor <;> simp [AgentState.hasData, hgroup]
  | resolved data hstate => constructor <;> simp [hstate, ha.group _ hstate]
  | prepare hstate hdata => constructor <;> simp [hdata, ha.group _ hstate]
  | fail hstate => constructor <;> simp [AgentState.hasData, ha.group _ hstate]
  | terminate hstate =>
      have hdata : a.data ≠ none := ha.data _ hstate rfl
      constructor <;> simp [hdata, ha.group _ hstate]
  | drop => constructor <;> simp

/-- A worker leaves an agent the fields of its state. -/
theorem Agent.Handled.wellFormed (h : Handled a b) (ha : a.WellFormed opts) :
    b.WellFormed opts := by
  cases h with
  | same => exact ha
  | prepared hstate =>
      have hdata : a.data ≠ none := ha.data _ hstate rfl
      constructor <;> simp [hdata, ha.group _ hstate]
  | unprepared hstate | terminated hstate =>
      constructor <;> simp [AgentState.hasData, ha.group _ hstate]

end Agents

/-! ## What the dispatcher has read -/

/-- Different agents in one state. -/
structure Store.Listed (st : Store) (state : AgentState) (tids : List TicketId) : Prop where
  nodup : tids.Nodup
  state : ∀ k ∈ tids, (st.redis.read k).state = some state

/-- The one state that a caller of {lit}`get_tickets` asks for. -/
def Caller.state? : Caller → Option AgentState
  | .dropEnded => some .ended
  | .cleanFinishedWorkers | .tryToStop _ => some .working
  | .startPreparing => some .new
  | .tasks => none

/-- {lit}`try_to_stop` goes on with configured groups. -/
def Caller.Sees (opts : Opts) : Caller → Prop
  | .tryToStop s => s.converge.rest ⊆ opts.agentGroups
  | _ => True

/-- The dispatcher goes on with configured groups, and what it has read from the database
for its next writes is still the case. -/
def DispatcherPc.Sees (opts : Opts) (st : Store) : DispatcherPc → Prop
  | .setFailed ticketId state _ => failedState? (st.redis.read ticketId).state = some state
  | .keys caller => caller.Sees opts
  | .filter caller ticketId rest output =>
      caller.Sees opts ∧ (output ++ ticketId :: rest).Nodup ∧
        ∀ state, caller.state? = some state → ∀ k ∈ output, (st.redis.read k).state = some state
  | .close ticketId rest | .delete ticketId rest => st.Listed .ended (ticketId :: rest)
  | .finishedGroup ticketId rest | .isFinished _ ticketId rest | .setTerminating ticketId rest =>
      st.Listed .working (ticketId :: rest)
  | .ticketData ticketId rest | .setData _ ticketId rest => st.Listed .new (ticketId :: rest)
  | .setPreparing ticketId rest =>
      st.Listed .new (ticketId :: rest) ∧ (st.redis.read ticketId).data ≠ none
  | .converge group c | .newTicket group _ c =>
      group ∈ opts.agentGroups ∧ c.rest ⊆ opts.agentGroups
  | .setGroup ticketId group _ c =>
      (group ∈ opts.agentGroups ∧ c.rest ⊆ opts.agentGroups) ∧ ticketId < st.nextTicket ∧
        ticketId ∉ st.redis
  | .setNew ticketId group _ c =>
      (group ∈ opts.agentGroups ∧ c.rest ⊆ opts.agentGroups) ∧ ticketId < st.nextTicket ∧
        (st.redis.read ticketId).state = none ∧ opts.Configured (st.redis.read ticketId).groupId
  | .tryRelease ticketId rest s | .stop ticketId rest s =>
      st.Listed .working (ticketId :: rest) ∧ s.converge.rest ⊆ opts.agentGroups
  | _ => True

section Dispatcher

variable {opts : Opts} {i : Input} {st st' : Store} {pc pc' : DispatcherPc}
variable {state : AgentState} {ticketId : TicketId} {rest tids : List TicketId}

/-- The hashes after a switch of a state. -/
theorem Store.read_setState (st : Store) (ticketId : TicketId) (state : AgentState)
    (k : TicketId) : (st.setState ticketId state).redis.read k =
      if k = ticketId then { st.redis.read ticketId with state := some state }
      else st.redis.read k :=
  HashStore.read_write _ _ _ k

/-- New data keep the states. -/
theorem Store.read_setData_state (st : Store) (ticketId : TicketId) (data : String)
    (k : TicketId) : ((st.setData ticketId data).redis.read k).state = (st.redis.read k).state :=
  HashStore.read_write_field Agent.state (by simp) k

/-- An agent with a state is recorded. -/
theorem Store.mem_of_state (h : (st.redis.read ticketId).state = some state) :
    ticketId ∈ st.redis := by
  by_contra hnot
  rw [HashStore.read_of_notMem hnot] at h
  contradiction

/-- The agents after the first one stay listed, whatever happens to the first one. -/
theorem Store.Listed.tail (h : st.Listed state (ticketId :: rest))
    (hother : ∀ k, k ≠ ticketId → (st'.redis.read k).state = (st.redis.read k).state) :
    st'.Listed state rest := by
  obtain ⟨hfirst, hrest⟩ := List.nodup_cons.mp h.nodup
  constructor
  · exact hrest
  · intro k hk
    have hne : k ≠ ticketId := fun heq => hfirst (heq ▸ hk)
    rw [hother k hne]
    exact h.state k (List.mem_cons_of_mem _ hk)

/-- The first of the listed agents. -/
theorem Store.Listed.head (h : st.Listed state (ticketId :: rest)) :
    (st.redis.read ticketId).state = some state :=
  h.state _ List.mem_cons_self

/-- Agents are listed by the state that was read. -/
theorem Caller.excludes_iff {caller : Caller} (hstate : caller.state? = some state)
    {read : Option AgentState} (h : caller.states.excludes read = .ok false) :
    read = some state := by
  have htext : caller.states = .text state.text := by
    cases caller <;> cases hstate <;> rfl
  cases read with
  | none => simp [htext, States.excludes] at h
  | some read =>
      rw [htext, States.excludes_text, Except.ok.injEq, decide_eq_false_iff_not, not_not] at h
      rw [h]

namespace DispatcherPc

/-- A loop over ended agents. -/
theorem sees_nextDrop (h : st.Listed .ended tids) : Sees opts st (nextDrop tids) := by
  cases tids with
  | nil => trivial
  | cons ticketId rest => exact h

/-- A loop over agents that may be finished. -/
theorem sees_nextFinished (h : st.Listed .working tids) : Sees opts st (nextFinished tids) := by
  cases tids with
  | nil => trivial
  | cons ticketId rest => exact h

/-- A loop over new agents. -/
theorem sees_nextPreparing (h : st.Listed .new tids) : Sees opts st (nextPreparing tids) := by
  cases tids with
  | nil => trivial
  | cons ticketId rest => exact h

/-- A loop over failed agents. -/
theorem sees_nextDetect : Sees opts st (nextDetect tids) := by
  cases tids <;> trivial

/-- The next groups are configured. -/
theorem sees_nextGroup {counts : Counts} {groups : List AgentGroup}
    (h : groups ⊆ opts.agentGroups) : Sees opts st (nextGroup counts groups) := by
  cases groups with
  | nil => trivial
  | cons group groups => exact List.cons_subset.mp h

/-- Counting ends with the configured groups. -/
theorem sees_nextCount {counts : Counts} : Sees opts st (nextCount opts counts tids) := by
  cases tids with
  | nil => exact sees_nextGroup (List.Subset.refl _)
  | cons ticketId rest => trivial

/-- Starting agents ends with configured groups. -/
theorem sees_nextNew {group : AgentGroup} {c : Converge} (todo : ℕ)
    (h : group ∈ opts.agentGroups ∧ c.rest ⊆ opts.agentGroups) :
    Sees opts st (nextNew group c todo) := by
  cases todo with
  | zero => exact sees_nextGroup h.2
  | succ todo => exact h

/-- A loop over agents that may be stopped. -/
theorem sees_nextStop {s : Stopping} (h : st.Listed .working tids)
    (hgroups : s.converge.rest ⊆ opts.agentGroups) : Sees opts st (nextStop s tids) := by
  cases tids with
  | nil => exact sees_nextGroup hgroups
  | cons ticketId rest =>
      rw [nextStop]
      split_ifs
      · exact sees_nextGroup hgroups
      · exact ⟨h, hgroups⟩

/-- {lit}`get_tickets` goes on, or its caller does with the listed agents. -/
theorem sees_nextFilter {caller : Caller} {output : List TicketId} (hcaller : caller.Sees opts)
    (hnodup : (output ++ tids).Nodup)
    (hstate : ∀ state, caller.state? = some state →
      ∀ k ∈ output, (st.redis.read k).state = some state) :
    Sees opts st (nextFilter caller output tids) := by
  cases tids with
  | cons ticketId rest => exact ⟨hcaller, hnodup, hstate⟩
  | nil =>
      rw [List.append_nil] at hnodup
      have hlisted : ∀ state, caller.state? = some state → st.Listed state output :=
        fun state hcaller => ⟨hnodup, hstate state hcaller⟩
      cases caller with
      | dropEnded => exact sees_nextDrop (hlisted _ rfl)
      | cleanFinishedWorkers => exact sees_nextFinished (hlisted _ rfl)
      | startPreparing => exact sees_nextPreparing (hlisted _ rfl)
      | tryToStop s => exact sees_nextStop (hlisted _ rfl) hcaller
      | tasks => trivial

/-- What the dispatcher has read stays the case if only agents of the workers change. -/
theorem Sees.of_kept (h : Sees opts st pc)
    (hkept : ∀ k, (∀ state, (st.redis.read k).state = some state → state.isHandled = false) →
      st'.redis.read k = st.redis.read k)
    (hmem : ∀ k, k ∈ st'.redis → k ∈ st.redis) (hnext : st'.nextTicket = st.nextTicket) :
    Sees opts st' pc := by
  have hread : ∀ {k state}, (st.redis.read k).state = some state → state.isHandled = false →
      st'.redis.read k = st.redis.read k := by
    intro k state hstate hhandled
    apply hkept
    intro other hother
    rw [hstate] at hother
    exact Option.some.inj hother ▸ hhandled
  have hlisted : ∀ {state tids}, st.Listed state tids → state.isHandled = false →
      st'.Listed state tids := by
    intro state tids hl hhandled
    constructor
    · exact hl.nodup
    · intro k hk
      rw [hread (hl.state k hk) hhandled]
      exact hl.state k hk
  cases pc with
  | setFailed ticketId state rest =>
      have hsame : st'.redis.read ticketId = st.redis.read ticketId := by
        apply hkept
        intro other hother
        rw [Sees, hother] at h
        cases other <;> first | rfl | cases h
      rwa [Sees, hsame]
  | filter caller ticketId rest output =>
      refine ⟨h.1, h.2.1, fun state hcaller k hk => ?_⟩
      have hstate := h.2.2 state hcaller k hk
      rw [hread hstate (by cases caller <;> cases hcaller <;> rfl)]
      exact hstate
  | close | delete | finishedGroup | isFinished | setTerminating | ticketData | setData =>
      exact hlisted h rfl
  | setPreparing ticketId rest =>
      refine ⟨hlisted h.1 rfl, ?_⟩
      rw [hread h.1.head rfl]
      exact h.2
  | setGroup ticketId group todo c =>
      exact ⟨h.1, hnext ▸ h.2.1, fun hk => h.2.2 (hmem _ hk)⟩
  | setNew ticketId group todo c =>
      obtain ⟨hgroups, hlt, hstate, hgroup⟩ := h
      have hsame : st'.redis.read ticketId = st.redis.read ticketId := by
        apply hkept
        intro other hother
        rw [hstate] at hother
        contradiction
      rw [Sees, hsame, hnext]
      exact ⟨hgroups, hlt, hstate, hgroup⟩
  | tryRelease | stop => exact ⟨hlisted h.1 rfl, h.2⟩
  | keys | converge | newTicket => exact h
  | _ => trivial

/-! ## Steps of the dispatcher -/

/-- A switch is what it does to its agent. -/
theorem dispatched_setState
    (h : Agent.Dispatched opts (st.redis.read ticketId)
      { st.redis.read ticketId with state := some state }) (k : TicketId) :
    Agent.Dispatched opts (st.redis.read k) ((st.setState ticketId state).redis.read k) := by
  rw [Store.read_setState]
  split_ifs with hk
  · exact hk ▸ h
  · exact .same _

/-- The dispatcher moves each agent along its life. -/
theorem Sees.dispatched (h : Sees opts st pc) (hstep : Steps opts i st pc st' pc')
    (k : TicketId) : Agent.Dispatched opts (st.redis.read k) (st'.redis.read k) := by
  cases hstep with
  | setFailed ticketId state rest =>
      apply dispatched_setState
      cases hstate : (st.redis.read ticketId).state with
      | none =>
          rw [Sees, hstate] at h
          contradiction
      | some old =>
          rw [Sees, hstate] at h
          cases old <;> cases h
          · exact .fail hstate
          · exact .terminate hstate
  | delete ticketId rest =>
      rw [Store.delete, HashStore.read_erase]
      split_ifs with hk
      · exact .drop (hk ▸ h.head)
      · exact .same _
  | setTerminating ticketId rest => exact dispatched_setState (.terminate h.head) k
  | stop ticketId rest s => exact dispatched_setState (.terminate h.1.head) k
  | setPreparing ticketId rest => exact dispatched_setState (.prepare h.1.head h.2) k
  | setNew ticketId group todo c => exact dispatched_setState (.recorded h.2.2.1 h.2.2.2) k
  | setData data ticketId rest =>
      rw [Store.setData, HashStore.read_write]
      split_ifs with hk
      · subst hk
        exact .resolved data h.head
      · exact .same _
  | setGroup ticketId group todo c =>
      rw [Store.setGroup, HashStore.read_write]
      split_ifs with hk
      · subst hk
        rw [HashStore.read_of_notMem h.2.2]
        exact .grouped h.1.1
      · exact .same _
  | _ => exact .same _

/-- Recorded tickets have been taken before. -/
theorem Sees.fresh (h : Sees opts st pc) (hfresh : ∀ k ∈ st.redis, k < st.nextTicket)
    (hstep : Steps opts i st pc st' pc') : ∀ k ∈ st'.redis, k < st'.nextTicket := by
  have hwrite : ∀ {f : Agent → Agent} {ticketId}, ticketId < st.nextTicket →
      ∀ k ∈ st.redis.write ticketId f, k < st.nextTicket := by
    intro f ticketId hlt k hk
    obtain rfl | hk := HashStore.mem_write.mp hk
    · exact hlt
    · exact hfresh k hk
  have hrecorded : ∀ {ticketId state}, (st.redis.read ticketId).state = some state →
      ticketId < st.nextTicket :=
    fun hstate => hfresh _ (Store.mem_of_state hstate)
  cases hstep with
  | setFailed ticketId state rest =>
      apply hwrite
      cases hstate : (st.redis.read ticketId).state with
      | none =>
          rw [Sees, hstate] at h
          contradiction
      | some old => exact hrecorded hstate
  | delete ticketId rest => exact fun k hk => hfresh k (AList.mem_erase.mp hk).2
  | setTerminating | setData => exact hwrite (hrecorded h.head)
  | stop | setPreparing => exact hwrite (hrecorded h.1.head)
  | setGroup | setNew => exact hwrite h.2.1
  | newTicket =>
      intro k hk
      apply Nat.lt_succ_of_le
      exact (hfresh k hk).le.trans (Nat.le_add_right _ _)
  | _ => exact hfresh

/-- What the dispatcher has read stays the case in its next steps. -/
theorem Sees.step (h : Sees opts st pc) (hfresh : ∀ k ∈ st.redis, k < st.nextTicket)
    (hstep : Steps opts i st pc st' pc') : Sees opts st' pc' := by
  have hother : ∀ {ticketId state} k, k ≠ ticketId →
      ((st.setState ticketId state).redis.read k).state = (st.redis.read k).state := by
    intro ticketId state k hk
    rw [Store.read_setState, if_neg hk]
  cases hstep with
  | die | failed | handOver => trivial
  | start | resolved | keepFailed | setFailed => exact sees_nextDetect
  | switchFailed hstate => exact hstate
  | keys hkeys =>
      apply sees_nextFilter h
      · exact hkeys.nodup_iff.mpr st.redis.keys_nodup
      · simp
  | excluded hexcluded =>
      obtain ⟨hcaller, hnodup, hlisted⟩ := h
      exact sees_nextFilter hcaller (hnodup.sublist (by simp)) hlisted
  | listed hlisted =>
      obtain ⟨hcaller, hnodup, houtput⟩ := h
      refine sees_nextFilter hcaller (by simpa using hnodup) fun state hstate k hk => ?_
      obtain hk | rfl := by simpa using hk
      · exact houtput state hstate k hk
      · exact Caller.excludes_iff hstate hlisted
  | close => exact ⟨h.nodup, h.state⟩
  | delete ticketId rest =>
      apply sees_nextDrop
      apply h.tail
      intro k hk
      rw [Store.delete, HashStore.read_erase, if_neg hk]
  | finishedGroup | finished => exact h
  | unfinished => exact sees_nextFinished (h.tail fun _ _ => rfl)
  | setTerminating => exact sees_nextFinished (h.tail hother)
  | unresolved => exact sees_nextPreparing (h.tail fun _ _ => rfl)
  | ticketData => exact h
  | setData data ticketId rest =>
      refine ⟨⟨h.nodup, fun k hk => ?_⟩, ?_⟩
      · rw [Store.read_setData_state]
        exact h.state k hk
      · simp [Store.setData, HashStore.read_write]
  | setPreparing => exact sees_nextPreparing (h.1.tail hother)
  | agentCounts | count => exact sees_nextCount
  | keepGroup => exact sees_nextGroup h.2
  | grow => exact sees_nextNew _ h
  | shrink => exact h.2
  | newTicket group todo c =>
      refine ⟨h, Nat.lt_succ_self _, fun hk => ?_⟩
      exact (Nat.le_add_right _ _).not_gt (hfresh _ hk)
  | setGroup ticketId group todo c =>
      obtain ⟨hgroups, hlt, hnew⟩ := h
      refine ⟨hgroups, hlt, ?_, group, hgroups.1, ?_⟩
      · simp [Store.setGroup, HashStore.read_write, HashStore.read_of_notMem hnew]
      · simp [Store.setGroup, HashStore.read_write]
  | setNew => exact sees_nextNew _ h.1
  | unreleased => exact sees_nextStop (h.1.tail fun _ _ => rfl) h.2
  | released => exact h
  | stop => exact sees_nextStop (h.1.tail hother) h.2

end DispatcherPc

end Dispatcher

/-! ## Background workers -/

/-- A worker that runs a hook has found its agent in this state. -/
def HandlerPc.Matches (state : Option AgentState) : HandlerPc → Prop
  | .load => True
  | .take _ _ | .taken _ => state = some .preparing
  | .terminate _ _ | .terminated => state = some .terminating

section Workers

variable {opts : Opts} {st st' : Store} {pc pc' : HandlerPc} {next : Option HandlerPc}
variable {ticketId : TicketId}

/-- A worker that goes on has changed nothing, and its agent is in the state it found. -/
theorem HandlerPc.Matches.step (h : pc.Matches (st.redis.read ticketId).state)
    (hstep : Steps opts ticketId st pc st' (some pc')) :
    st' = st ∧ pc'.Matches (st.redis.read ticketId).state := by
  cases hstep with
  | take _ hstate | terminate _ hstate => exact ⟨rfl, hstate⟩
  | taken | terminated => exact ⟨rfl, h⟩

/-- A worker that returns has changed nothing, or has switched its agent, which it found in
a state of the workers. -/
theorem HandlerPc.Matches.return (h : pc.Matches (st.redis.read ticketId).state)
    (hstep : Steps opts ticketId st pc st' none) :
    st' = st ∨ ∃ old next : AgentState, (st.redis.read ticketId).state = some old ∧
      old.isHandled = true ∧ st' = st.setState ticketId next ∧
      Agent.Handled (st.redis.read ticketId)
        { st.redis.read ticketId with state := some next } := by
  cases hstep with
  | ignored => exact .inl rfl
  | prepared => exact .inr ⟨.preparing, .working, h, rfl, rfl, .prepared h⟩
  | unprepared => exact .inr ⟨.preparing, .ended, h, rfl, rfl, .unprepared h⟩
  | ended => exact .inr ⟨.terminating, .ended, h, rfl, rfl, .terminated h⟩

/-- {lit}`handle_ticket` finds all that it reads in an agent that was given data. -/
theorem HandlerPc.step_ok (h : (st.redis.read ticketId).WellFormed opts) {state : AgentState}
    (hstate : (st.redis.read ticketId).state = some state) (hdata : state.hasData = true)
    (pc : HandlerPc) (i : Input) : ∃ r, pc.step opts ticketId i st = .ok r := by
  cases pc with
  | load =>
      obtain ⟨data, hsome⟩ := Option.ne_none_iff_exists'.mp (h.data state hstate hdata)
      have hgroup : opts.Configured (st.redis.read ticketId).groupId := h.group state hstate
      obtain ⟨group, hmem, hid⟩ := hgroup
      have hconfigured : opts.Configured (some group.id) := ⟨group, hmem, rfl⟩
      cases state <;> simp [step, hstate, hsome, ← hid, hconfigured]
  | taken ok => cases ok <;> simp [step]
  | take | terminate | terminated => simp [step]

end Workers

/-! ## Runs -/

namespace System

/-- The state of an agent. -/
def state (s : System) (ticketId : TicketId) : Option AgentState :=
  (s.store.redis.read ticketId).state

/-- The ticket of an agent is closed by {lit}`agent_drop`. -/
def Closes (s : System) (a : Action) (ticketId : TicketId) : Prop :=
  ∃ i rest, a = .dispatcher i ∧ s.dispatcher = .close ticketId rest

/-- The agent whose {lit}`cmd_terminate` hook has run to completion in a step. -/
def terminated? (s : System) : Action → Option TicketId
  | .handler ticketId _ =>
      match s.handlers.lookup ticketId with
      | some (.terminate _ _) => some ticketId
      | _ => none
  | _ => none

/-- Recorded agents have the fields of their state, and no party writes what it has not
read in the present state. -/
structure Inv (opts : Opts) (s : System) : Prop where
  agents : ∀ k, (s.store.redis.read k).WellFormed opts
  /-- Recorded tickets have been taken before. -/
  fresh : ∀ k ∈ s.store.redis, k < s.store.nextTicket
  handlers : ∀ k pc, s.handlers.lookup k = some pc → pc.Matches (s.state k)
  dispatcher : s.dispatcher.Sees opts s.store

variable {opts : Opts} {s s' u : System} {a : Action} {as bs : List Action}
variable {ticketId : TicketId}

/-- No agents are recorded at the beginning. -/
theorem inv_initial (opts : Opts) : Inv opts {} := by
  constructor
  · intro k
    constructor <;> intro state hstate <;> cases hstate
  · intro k hk
    cases hk
  · intro k pc hpc
    cases hpc
  · trivial

/-- What a step does to one agent, and who takes it. -/
theorem Inv.agent_cases (h : Inv opts s) (hstep : System.step opts s a = some s') (k : TicketId) :
    (∃ i, a = .dispatcher i ∧
      Agent.Dispatched opts (s.store.redis.read k) (s'.store.redis.read k)) ∨
    (∃ i, a = .handler k i ∧ Agent.Handled (s.store.redis.read k) (s'.store.redis.read k)) ∨
    s'.store.redis.read k = s.store.redis.read k := by
  cases step_cases hstep with
  | dispatcher hpc => exact .inl ⟨_, rfl, h.dispatcher.dispatched hpc k⟩
  | @returned ticketId i pc store hlookup hpc =>
      have hmatch : pc.Matches (s.state ticketId) := h.handlers _ _ hlookup
      obtain rfl | ⟨old, next, hold, hhandled, rfl, hagent⟩ := hmatch.return hpc
      · exact .inr (.inr rfl)
      · simp only [Store.read_setState]
        split_ifs with hk
        · subst hk
          exact .inr (.inl ⟨_, rfl, hagent⟩)
        · exact .inr (.inr rfl)
  | handler hlookup hpc =>
      obtain ⟨rfl, -⟩ := HandlerPc.Matches.step (h.handlers _ _ hlookup) hpc
      exact .inr (.inr rfl)
  | startTask | raised | kill | restart => exact .inr (.inr rfl)

/-- Stopping a worker leaves the other ones. -/
theorem lookup_erase_some {handlers : AList fun _ : TicketId => HandlerPc} {k : TicketId}
    {pc : HandlerPc} (h : (handlers.erase ticketId).lookup k = some pc) :
    handlers.lookup k = some pc := by
  by_cases hk : k = ticketId
  · rw [hk, AList.lookup_erase] at h
    contradiction
  · rwa [AList.lookup_erase_ne hk] at h

/-- A worker goes on, and the other ones are where they were. -/
theorem lookup_insert_some {handlers : AList fun _ : TicketId => HandlerPc} {k : TicketId}
    {pc next : HandlerPc} (h : (handlers.insert ticketId next).lookup k = some pc) :
    k = ticketId ∧ pc = next ∨ handlers.lookup k = some pc := by
  by_cases hk : k = ticketId
  · rw [hk, AList.lookup_insert, Option.some.injEq] at h
    exact .inl ⟨hk, h.symm⟩
  · rw [AList.lookup_insert_ne hk] at h
    exact .inr h

/-- Every step of every party keeps this. -/
theorem Inv.step (h : Inv opts s) (hstep : System.step opts s a = some s') : Inv opts s' := by
  have hagents : ∀ k, (s'.store.redis.read k).WellFormed opts := by
    intro k
    obtain ⟨i, -, hagent⟩ | ⟨i, -, hagent⟩ | hsame := h.agent_cases hstep k
    · exact hagent.wellFormed (h.agents k)
    · exact hagent.wellFormed (h.agents k)
    · rw [hsame]
      exact h.agents k
  cases step_cases hstep with
  | @dispatcher i store pc hpc =>
      refine ⟨hagents, h.dispatcher.fresh h.fresh hpc, ?_, h.dispatcher.step h.fresh hpc⟩
      intro k handler hlookup
      have hmatch : handler.Matches (s.state k) := h.handlers k handler hlookup
      have hkept : ∀ state, s.state k = some state → state.isHandled = true →
          store.redis.read k = s.store.redis.read k :=
        fun state hstate => (h.dispatcher.dispatched hpc k).keeps hstate
      cases handler with
      | load => trivial
      | take | taken | terminate | terminated =>
          simp only [state, hkept _ hmatch rfl]
          exact hmatch
  | startTask =>
      refine ⟨hagents, h.fresh, fun k pc hpc => ?_, h.dispatcher⟩
      obtain ⟨rfl, rfl⟩ | hpc := lookup_insert_some hpc
      · trivial
      · exact h.handlers k pc hpc
  | raised | kill =>
      exact ⟨hagents, h.fresh, fun k pc hpc => h.handlers k pc (lookup_erase_some hpc),
        h.dispatcher⟩
  | @returned ticketId i pc store hlookup hpc =>
      have hmatch : pc.Matches (s.state ticketId) := h.handlers _ _ hlookup
      obtain rfl | ⟨old, next, hold, hhandled, rfl, -⟩ := hmatch.return hpc
      · exact ⟨hagents, h.fresh, fun k pc hpc => h.handlers k pc (lookup_erase_some hpc),
          h.dispatcher⟩
      · have hrecorded : ticketId ∈ s.store.redis := Store.mem_of_state hold
        have hmem : ∀ k, k ∈ (s.store.setState ticketId next).redis → k ∈ s.store.redis := by
          intro k hk
          obtain rfl | hk := HashStore.mem_write.mp hk
          · exact hrecorded
          · exact hk
        refine ⟨hagents, fun k hk => h.fresh k (hmem k hk), fun k pc' hpc' => ?_, ?_⟩
        · have hk : k ≠ ticketId := by
            rintro rfl
            simp only [AList.lookup_erase] at hpc'
            contradiction
          simp only [state, Store.read_setState, if_neg hk]
          exact h.handlers k pc' (lookup_erase_some hpc')
        · apply h.dispatcher.of_kept
          · intro k hk
            have hne : k ≠ ticketId := by
              rintro rfl
              rw [hk old hold] at hhandled
              contradiction
            rw [Store.read_setState, if_neg hne]
          · exact hmem
          · rfl
  | @handler ticketId i pc store next hlookup hpc =>
      obtain ⟨rfl, hnext⟩ := HandlerPc.Matches.step (h.handlers _ _ hlookup) hpc
      refine ⟨hagents, h.fresh, fun k pc' hpc' => ?_, h.dispatcher⟩
      obtain ⟨rfl, rfl⟩ | hpc' := lookup_insert_some hpc'
      · exact hnext
      · exact h.handlers k pc' hpc'
  | restart => exact ⟨hagents, h.fresh, h.handlers, trivial⟩

/-- Every run keeps this. -/
theorem Inv.run (h : Inv opts u) (hrun : Path (System.step opts) anyStep u as s) : Inv opts s :=
  hrun.invariant h fun _ _ _ hu _ hstep => hu.step hstep

/-! ## The end of an agent -/

/-- Only {lit}`agent_drop` closes tickets. -/
theorem closes_of_closed (hstep : System.step opts s a = some s')
    (hopen : ticketId ∈ s.store.tickets.map Prod.fst)
    (hclosed : ticketId ∉ s'.store.tickets.map Prod.fst) : s.Closes a ticketId := by
  cases step_cases hstep with
  | @dispatcher i store pc hpc =>
      generalize hdispatcher : s.dispatcher = old at hpc
      cases hpc with
      | close closing rest =>
          by_cases heq : closing = ticketId
          · exact ⟨i, rest, rfl, heq ▸ hdispatcher⟩
          · refine absurd ?_ hclosed
            obtain ⟨⟨k, tags⟩, hmem, rfl⟩ := List.mem_map.mp hopen
            exact List.mem_map_of_mem (List.mem_filter.mpr ⟨hmem, by simp [Ne.symm heq]⟩)
      | newTicket =>
          refine absurd ?_ hclosed
          rw [List.map_append]
          exact List.mem_append_left _ hopen
      | _ => exact absurd hopen hclosed
  | returned _ hpc =>
      cases hpc
      all_goals exact absurd hopen hclosed
  | handler _ hpc =>
      cases hpc
      all_goals exact absurd hopen hclosed
  | startTask | raised | kill | restart => exact absurd hopen hclosed

/-- Every step moves every agent along its life. -/
theorem Inv.moves (h : Inv opts s) (hstep : System.step opts s a = some s') (k : TicketId) :
    AgentState.Moves (s.state k) (s'.state k) := by
  obtain ⟨i, -, hagent⟩ | ⟨i, -, hagent⟩ | hsame := h.agent_cases hstep k
  · exact hagent.moves
  · exact hagent.moves
  · rw [state, state, hsame]
    exact .stay _

/-- Only its worker moves an agent out of a state of the workers. -/
theorem Inv.moved_by_worker (h : Inv opts s) (hstep : System.step opts s a = some s')
    {k : TicketId} {old : AgentState} (hstate : s.state k = some old)
    (hhandled : old.isHandled = true) (hmoved : s'.state k ≠ some old) :
    ∃ i, a = .handler k i := by
  obtain ⟨i, -, hagent⟩ | ⟨i, ha, -⟩ | hsame := h.agent_cases hstep k
  · rw [state, hagent.keeps hstate hhandled] at hmoved
    exact absurd hstate hmoved
  · exact ⟨i, ha⟩
  · rw [state, hsame] at hmoved
    exact absurd hstate hmoved

/-- A worker that has run {lit}`cmd_terminate` did so in this step or before. -/
theorem terminated_cases (hstep : System.step opts s a = some s') {k : TicketId}
    (h : s'.handlers.lookup k = some .terminated) :
    s.handlers.lookup k = some .terminated ∨ s.terminated? a = some k := by
  cases step_cases hstep with
  | dispatcher | restart => exact .inl h
  | startTask =>
      obtain ⟨-, hpc⟩ | hpc := lookup_insert_some h
      · contradiction
      · exact .inl hpc
  | raised | returned | kill => exact .inl (lookup_erase_some h)
  | handler hlookup hpc =>
      obtain ⟨rfl, rfl⟩ | hpc' := lookup_insert_some h
      · cases hpc
        exact .inr (by rw [terminated?, hlookup])
      · exact .inl hpc'

/-- Before its hook has run, an agent stays TERMINATING. -/
theorem Inv.terminating_kept (h : Inv opts s) (hstep : System.step opts s a = some s')
    {k : TicketId} (hstate : s.state k = some .terminating)
    (hwaits : s.handlers.lookup k ≠ some .terminated) : s'.state k = some .terminating := by
  by_contra hmoved
  obtain ⟨i, rfl⟩ := h.moved_by_worker hstep hstate rfl hmoved
  cases step_cases hstep with
  | returned hlookup hpc =>
      have hmatch := h.handlers _ _ hlookup
      rw [hstate] at hmatch
      cases hpc with
      | ignored => exact hmoved hstate
      | prepared | unprepared => cases hmatch
      | ended => exact hwaits hlookup
  | handler hlookup hpc =>
      obtain ⟨rfl, -⟩ := HandlerPc.Matches.step (h.handlers _ _ hlookup) hpc
      exact hmoved hstate
  | raised => exact hmoved hstate

/-- An agent that was running is running, waits for its hook, or has had it run. -/
theorem Inv.terminates (h : Inv opts u) (hworking : u.state ticketId = some .working)
    (hrun : Path (System.step opts) anyStep u bs s) :
    ticketId ∈ observe terminated? (System.step opts) u bs ∨
    s.state ticketId = some .working ∨
    s.state ticketId = some .terminating ∧ s.handlers.lookup ticketId ≠ some .terminated := by
  induction hrun with
  | refl => exact .inr (.inl hworking)
  | @snoc bs s s' a hprev _ hnext ih =>
      have hinv : Inv opts s := h.run hprev
      rw [hprev.observe_snoc terminated? hnext, List.mem_append, Option.mem_toList]
      by_cases hseen : s.terminated? a = some ticketId
      · exact .inl (.inr hseen)
      have hwaits' : s.handlers.lookup ticketId ≠ some .terminated →
          s'.handlers.lookup ticketId ≠ some .terminated := by
        intro hwaits hlookup
        obtain hbefore | hnow := terminated_cases hnext hlookup
        · exact hwaits hbefore
        · exact hseen hnow
      obtain hbefore | hstate | ⟨hstate, hwaits⟩ := ih
      · exact .inl (.inl hbefore)
      · right
        have hmoves := hinv.moves hnext ticketId
        rw [hstate] at hmoves
        generalize s'.state ticketId = state' at hmoves ⊢
        cases hmoves with
        | stay => exact .inl rfl
        | terminate =>
            refine .inr ⟨rfl, hwaits' fun hlookup => ?_⟩
            have hmatch := hinv.handlers _ _ hlookup
            rw [hstate] at hmatch
            cases hmatch
      · exact .inr (.inr ⟨hinv.terminating_kept hnext hstate hwaits, hwaits' hwaits⟩)

/-- In every run, every step moves every agent along its life, and only its worker moves it
out of PREPARING and TERMINATING.  An agent in PREPARING, WORKING or TERMINATING has its
data, and {lit}`handle_ticket` does not fail on it.  Its ticket is closed by
{lit}`agent_drop` only, when it is ENDED, and after its {lit}`cmd_terminate` hook has run if
it was ever WORKING. -/
theorem life_cycle (hrun : Path (System.step opts) anyStep {} as u)
    (hrest : Path (System.step opts) anyStep u bs s) (hstep : System.step opts s a = some s')
    (ticketId : TicketId) :
    AgentState.Moves (s.state ticketId) (s'.state ticketId) ∧
    (∀ state, s.state ticketId = some state → state = .preparing ∨ state = .terminating →
      s'.state ticketId ≠ some state → ∃ i, a = .handler ticketId i) ∧
    (∀ state, s.state ticketId = some state →
      state = .preparing ∨ state = .working ∨ state = .terminating →
      (s.store.redis.read ticketId).data ≠ none ∧
        ∀ (pc : HandlerPc) i, ∃ r, pc.step opts ticketId i s.store = .ok r) ∧
    (ticketId ∈ s.store.tickets.map Prod.fst → ticketId ∉ s'.store.tickets.map Prod.fst →
      s.Closes a ticketId) ∧
    (s.Closes a ticketId → s.state ticketId = some .ended ∧
      (u.state ticketId = some .working →
        ticketId ∈ observe terminated? (System.step opts) u bs)) := by
  have hu : Inv opts u := (inv_initial opts).run hrun
  have hs : Inv opts s := hu.run hrest
  refine ⟨hs.moves hstep ticketId, ?_, ?_, closes_of_closed hstep, ?_⟩
  · intro state hstate hhandled hmoved
    apply hs.moved_by_worker hstep hstate _ hmoved
    obtain rfl | rfl := hhandled <;> rfl
  · intro state hstate hstates
    have hdata : state.hasData = true := by
      obtain rfl | rfl | rfl := hstates <;> rfl
    exact ⟨(hs.agents ticketId).data state hstate hdata,
      HandlerPc.step_ok (hs.agents ticketId) hstate hdata⟩
  · rintro ⟨i, rest, -, hclose⟩
    have hsees := hs.dispatcher
    rw [hclose] at hsees
    have hended : s.state ticketId = some .ended := hsees.head
    refine ⟨hended, fun hworking => ?_⟩
    obtain hseen | hstate | ⟨hstate, -⟩ := hu.terminates hworking hrest
    · exact hseen
    · rw [hended] at hstate
      contradiction
    · rw [hended] at hstate
      contradiction

/-- A step of a dispatcher that wants to keep one agent. -/
def keepOne (keys : List TicketId) : Action :=
  .dispatcher
    { keys := keys, convergeTo := some 1, collected := { ready := some true, output := "data" } }

/-- A worker handles the agent. -/
def handleFirst : List Action :=
  [.startTask 1, .handler 1 {}, .handler 1 {}, .handler 1 {}]

/-- An agent is requested and prepared. -/
def startAgent : List Action :=
  List.replicate 9 (keepOne []) ++ List.replicate 20 (keepOne [1]) ++ handleFirst

/-- The agent finishes, is cleaned up and listed as ended. -/
def finishAgent : List Action :=
  List.replicate 17 (keepOne [1]) ++ handleFirst ++ List.replicate 4 (keepOne [1])

/-- The agent is WORKING. -/
def agentWorking : System :=
  (execWithin (System.step workersOpts) anyStep {} startAgent).get (by decide +kernel)

/-- The agent is ENDED, and its ticket is closed next. -/
def agentEnded : System :=
  (execWithin (System.step workersOpts) anyStep agentWorking finishAgent).get (by decide +kernel)

/-- The state after this. -/
def agentClosed : System :=
  (System.step workersOpts agentEnded (keepOne [1])).get (by decide +kernel)

/-- The ticket of an agent that was running is closed after its hook has run. -/
theorem life_cycle_agent : agentEnded.state 1 = some .ended ∧
    1 ∈ observe terminated? (System.step workersOpts) agentWorking finishAgent :=
  have hrun : Path (System.step workersOpts) anyStep {} startAgent agentWorking :=
    Path.of_execWithin (Option.some_get _).symm
  have hrest : Path (System.step workersOpts) anyStep agentWorking finishAgent agentEnded :=
    Path.of_execWithin (Option.some_get _).symm
  have hstep : System.step workersOpts agentEnded (keepOne [1]) = some agentClosed :=
    (Option.some_get _).symm
  have hcloses : agentEnded.Closes (keepOne [1]) 1 := ⟨_, [], rfl, by decide +kernel⟩
  have hworking : agentWorking.state 1 = some .working := by decide +kernel
  have hend := (life_cycle hrun hrest hstep 1).2.2.2.2 hcloses
  ⟨hend.1, hend.2 hworking⟩

end System

end Resalloc.Spawner
