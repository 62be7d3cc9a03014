import Resalloc.Spawner.System

/-!
# What one step of the agent spawner can do

The step functions of the dispatcher, of the workers and of the whole daemon, read
backwards: each relation lists every way in which a step can end, with the tests that
were passed on the way.

Main results:

- Theorems {lit}`DispatcherPc.step_cases`, {lit}`HandlerPc.step_cases` and
  {lit}`System.step_cases`: the three inversions.
-/

namespace Resalloc.Spawner

open Foundations

/-! ## The dispatcher -/

/-- What the next step of the dispatcher can do. -/
inductive DispatcherPc.Steps (opts : Opts) (i : Input) (st : Store) :
    DispatcherPc → Store → DispatcherPc → Prop
  /-- The process dies, or is dead already. -/
  | die (pc e) : Steps opts i st pc st (.stopped e)
  | start : i.keys.Perm st.redis.keys → Steps opts i st .start st (nextDetect i.keys)
  | resolved (ticketId rest) : Steps opts i st (.detectFailed ticketId rest) st (nextDetect rest)
  | failed (ticketId rest) :
      Steps opts i st (.detectFailed ticketId rest) st (.failedState ticketId rest)
  | keepFailed (ticketId rest) :
      Steps opts i st (.failedState ticketId rest) st (nextDetect rest)
  | switchFailed {ticketId rest state} :
      failedState? (st.redis.read ticketId).state = some state →
      Steps opts i st (.failedState ticketId rest) st (.setFailed ticketId state rest)
  | setFailed (ticketId state rest) :
      Steps opts i st (.setFailed ticketId state rest) (st.setState ticketId state)
        (nextDetect rest)
  | keys {caller} : i.keys.Perm st.redis.keys →
      Steps opts i st (.keys caller) st (nextFilter caller [] i.keys)
  | excluded {caller ticketId rest output} :
      caller.states.excludes (st.redis.read ticketId).state = .ok true →
      Steps opts i st (.filter caller ticketId rest output) st (nextFilter caller output rest)
  | listed {caller ticketId rest output} :
      caller.states.excludes (st.redis.read ticketId).state = .ok false →
      Steps opts i st (.filter caller ticketId rest output) st
        (nextFilter caller (output ++ [ticketId]) rest)
  | close (ticketId rest) :
      Steps opts i st (.close ticketId rest) (st.close ticketId) (.delete ticketId rest)
  | delete (ticketId rest) :
      Steps opts i st (.delete ticketId rest) (st.delete ticketId) (nextDrop rest)
  | finishedGroup (ticketId rest) :
      Steps opts i st (.finishedGroup ticketId rest) st
        (.isFinished (st.redis.read ticketId).groupId ticketId rest)
  | unfinished (groupId ticketId rest) :
      Steps opts i st (.isFinished groupId ticketId rest) st (nextFinished rest)
  | finished {groupId ticketId rest} : opts.Configured groupId →
      Steps opts i st (.isFinished groupId ticketId rest) st (.setTerminating ticketId rest)
  | setTerminating (ticketId rest) :
      Steps opts i st (.setTerminating ticketId rest) (st.setState ticketId .terminating)
        (nextFinished rest)
  | unresolved (ticketId rest) :
      Steps opts i st (.ticketData ticketId rest) st (nextPreparing rest)
  | ticketData (ticketId rest data) :
      Steps opts i st (.ticketData ticketId rest) st (.setData data ticketId rest)
  | setData (data ticketId rest) :
      Steps opts i st (.setData data ticketId rest) (st.setData ticketId data)
        (.setPreparing ticketId rest)
  | setPreparing (ticketId rest) :
      Steps opts i st (.setPreparing ticketId rest) (st.setState ticketId .preparing)
        (nextPreparing rest)
  | agentCounts : i.keys.Perm st.redis.keys →
      Steps opts i st .agentCounts st (nextCount opts [] i.keys)
  | count (ticketId rest counts) :
      Steps opts i st (.count ticketId rest counts) st
        (nextCount opts (counts.add (st.redis.read ticketId).groupId) rest)
  | keepGroup (group c) :
      Steps opts i st (.converge group c) st (nextGroup c.currentAgents c.rest)
  | grow {group c} {ideal : Int} : i.convergeTo = some ideal →
      Counts.get (some group.id) c.currentAgents < ideal →
      Steps opts i st (.converge group c) st
        (nextNew group c (ideal - Counts.get (some group.id) c.currentAgents).toNat)
  | shrink {group c} {ideal : Int} : i.convergeTo = some ideal →
      ideal < Counts.get (some group.id) c.currentAgents →
      Steps opts i st (.converge group c) st (.keys (.tryToStop
        { groupId := group.id
          toStop := Counts.get (some group.id) c.currentAgents - ideal
          converge := c }))
  | newTicket {group : AgentGroup} (todo c) : group.tags.Nodup →
      Steps opts i st (.newTicket group todo c)
        { st with
          tickets := st.tickets ++ [(st.nextTicket + i.skipped, group.tags)]
          nextTicket := st.nextTicket + i.skipped + 1 }
        (.setGroup (st.nextTicket + i.skipped) group todo c)
  | setGroup (ticketId group todo c) :
      Steps opts i st (.setGroup ticketId group todo c) (st.setGroup ticketId group.id)
        (.setNew ticketId group todo c)
  | setNew (ticketId group todo c) :
      Steps opts i st (.setNew ticketId group todo c) (st.setState ticketId .new)
        (nextNew group c todo)
  | unreleased (ticketId rest s) :
      Steps opts i st (.tryRelease ticketId rest s) st (nextStop s rest)
  | released (ticketId rest s) :
      Steps opts i st (.tryRelease ticketId rest s) st (.stop ticketId rest s)
  | stop (ticketId rest s) :
      Steps opts i st (.stop ticketId rest s) (st.setState ticketId .terminating)
        (nextStop { s with stopped := s.stopped + 1 } rest)
  | handOver (tasks) : Steps opts i st (.handOver tasks) st .start

/-- The outcomes of {lit}`DispatcherPc.step`. -/
theorem DispatcherPc.step_cases {opts : Opts} {i : Input} {st st' : Store} {pc pc' : DispatcherPc}
    (h : pc.step opts i st = some (st', pc')) : Steps opts i st pc st' pc' := by
  cases pc with
  | start =>
      simp only [DispatcherPc.step] at h
      split_ifs at h with hkeys
      obtain ⟨rfl, rfl⟩ := Prod.mk.inj (Option.some.inj h)
      exact .start hkeys
  | detectFailed ticketId rest =>
      simp only [DispatcherPc.step] at h
      split_ifs at h
      all_goals obtain ⟨rfl, rfl⟩ := Prod.mk.inj (Option.some.inj h)
      · exact .die _ _
      · exact .failed _ _
      · exact .resolved _ _
  | failedState ticketId rest =>
      simp only [DispatcherPc.step] at h
      split at h
      all_goals obtain ⟨rfl, rfl⟩ := Prod.mk.inj (Option.some.inj h)
      · exact .keepFailed _ _
      next hstate => exact .switchFailed hstate
  | keys caller =>
      simp only [DispatcherPc.step] at h
      split_ifs at h with hkeys
      obtain ⟨rfl, rfl⟩ := Prod.mk.inj (Option.some.inj h)
      exact .keys hkeys
  | filter caller ticketId rest output =>
      simp only [DispatcherPc.step] at h
      split at h
      all_goals obtain ⟨rfl, rfl⟩ := Prod.mk.inj (Option.some.inj h)
      · exact .die _ _
      next hexcluded => exact .excluded hexcluded
      next hlisted => exact .listed hlisted
  | isFinished groupId ticketId rest =>
      simp only [DispatcherPc.step] at h
      split at h
      next =>
        obtain ⟨rfl, rfl⟩ := Prod.mk.inj (Option.some.inj h)
        exact .unfinished _ _ _
      next =>
        split_ifs at h with hgroup
        all_goals obtain ⟨rfl, rfl⟩ := Prod.mk.inj (Option.some.inj h)
        · exact .unfinished _ _ _
        · exact .finished hgroup
        · exact .die _ _
  | ticketData ticketId rest =>
      simp only [DispatcherPc.step] at h
      split at h
      all_goals obtain ⟨rfl, rfl⟩ := Prod.mk.inj (Option.some.inj h)
      · exact .unresolved _ _
      · exact .ticketData _ _ _
  | agentCounts =>
      simp only [DispatcherPc.step] at h
      split_ifs at h with hkeys
      obtain ⟨rfl, rfl⟩ := Prod.mk.inj (Option.some.inj h)
      exact .agentCounts hkeys
  | converge group c =>
      simp only [DispatcherPc.step] at h
      split at h
      next =>
        obtain ⟨rfl, rfl⟩ := Prod.mk.inj (Option.some.inj h)
        exact .keepGroup _ _
      next hideal =>
        split_ifs at h with hgrow hshrink
        all_goals obtain ⟨rfl, rfl⟩ := Prod.mk.inj (Option.some.inj h)
        · exact .grow hideal hgrow
        · exact .shrink hideal hshrink
        · exact .keepGroup _ _
  | tryRelease ticketId rest s =>
      simp only [DispatcherPc.step] at h
      split at h
      next =>
        obtain ⟨rfl, rfl⟩ := Prod.mk.inj (Option.some.inj h)
        exact .unreleased _ _ _
      next =>
        split_ifs at h
        all_goals obtain ⟨rfl, rfl⟩ := Prod.mk.inj (Option.some.inj h)
        · exact .unreleased _ _ _
        · exact .unreleased _ _ _
        · exact .released _ _ _
  | newTicket group todo c =>
      simp only [DispatcherPc.step] at h
      split_ifs at h with htags
      obtain ⟨rfl, rfl⟩ := Prod.mk.inj (Option.some.inj h)
      exact .newTicket _ _ htags
  | setFailed | close | delete | finishedGroup | setTerminating | setData | setPreparing | count
    | setGroup | setNew | stop | handOver | stopped =>
      obtain ⟨rfl, rfl⟩ := Prod.mk.inj (Option.some.inj h)
      constructor

/-! ## Background workers -/

/-- What the next step of a worker can do. -/
inductive HandlerPc.Steps (opts : Opts) (ticketId : TicketId) (st : Store) :
    HandlerPc → Store → Option HandlerPc → Prop
  | take {data groupId} : (st.redis.read ticketId).data = some data →
      (st.redis.read ticketId).state = some .preparing →
      (st.redis.read ticketId).groupId = some groupId → opts.Configured groupId →
      Steps opts ticketId st .load st (some (.take groupId data))
  | terminate {data groupId} : (st.redis.read ticketId).data = some data →
      (st.redis.read ticketId).state = some .terminating →
      (st.redis.read ticketId).groupId = some groupId → opts.Configured groupId →
      Steps opts ticketId st .load st (some (.terminate groupId data))
  /-- The agent is in none of the two states. -/
  | ignored : Steps opts ticketId st .load st none
  | taken (groupId data ok) :
      Steps opts ticketId st (.take groupId data) st (some (.taken ok))
  | prepared : Steps opts ticketId st (.taken true) (st.setState ticketId .working) none
  | unprepared : Steps opts ticketId st (.taken false) (st.setState ticketId .ended) none
  | terminated (groupId data) :
      Steps opts ticketId st (.terminate groupId data) st (some .terminated)
  | ended : Steps opts ticketId st .terminated (st.setState ticketId .ended) none

/-- The outcomes of {lit}`HandlerPc.step`. -/
theorem HandlerPc.step_cases {opts : Opts} {ticketId : TicketId} {i : Input} {st st' : Store}
    {pc : HandlerPc} {next : Option HandlerPc}
    (h : pc.step opts ticketId i st = .ok (st', next)) : Steps opts ticketId st pc st' next := by
  cases pc with
  | load =>
      simp only [HandlerPc.step] at h
      split at h
      next => contradiction
      next => contradiction
      next hdata hstate =>
        split at h
        next => contradiction
        next hgroup =>
          split_ifs at h with hconfigured
          obtain ⟨rfl, rfl⟩ := Prod.mk.inj (Except.ok.inj h)
          exact .take hdata hstate hgroup hconfigured
      next hdata hstate =>
        split at h
        next => contradiction
        next hgroup =>
          split_ifs at h with hconfigured
          obtain ⟨rfl, rfl⟩ := Prod.mk.inj (Except.ok.inj h)
          exact .terminate hdata hstate hgroup hconfigured
      next =>
        obtain ⟨rfl, rfl⟩ := Prod.mk.inj (Except.ok.inj h)
        exact .ignored
  | taken ok =>
      cases ok <;> obtain ⟨rfl, rfl⟩ := Prod.mk.inj (Except.ok.inj h)
      · exact .unprepared
      · exact .prepared
  | take | terminate | terminated =>
      obtain ⟨rfl, rfl⟩ := Prod.mk.inj (Except.ok.inj h)
      constructor

/-! ## The whole daemon -/

namespace System

/-- What an action can do. -/
inductive Steps (opts : Opts) (s : System) : Action → System → Prop
  | dispatcher {i store pc} : DispatcherPc.Steps opts i s.store s.dispatcher store pc →
      Steps opts s (.dispatcher i)
        { s with store := store, dispatcher := pc, tasks := s.tasks ++ s.dispatcher.tasks }
  | startTask {ticketId} : ticketId ∈ s.tasks → ticketId ∉ s.handlers →
      Steps opts s (.startTask ticketId)
        { s with
          tasks := s.tasks.erase ticketId
          handlers := s.handlers.insert ticketId .load }
  /-- A worker raises an exception. -/
  | raised {ticketId i pc e} : s.handlers.lookup ticketId = some pc →
      pc.step opts ticketId i s.store = .error e →
      Steps opts s (.handler ticketId i) { s with handlers := s.handlers.erase ticketId }
  | returned {ticketId i pc store} : s.handlers.lookup ticketId = some pc →
      HandlerPc.Steps opts ticketId s.store pc store none →
      Steps opts s (.handler ticketId i)
        { s with store := store, handlers := s.handlers.erase ticketId }
  | handler {ticketId i pc store next} : s.handlers.lookup ticketId = some pc →
      HandlerPc.Steps opts ticketId s.store pc store (some next) →
      Steps opts s (.handler ticketId i)
        { s with store := store, handlers := s.handlers.insert ticketId next }
  | kill {ticketId} : ticketId ∈ s.handlers →
      Steps opts s (.kill ticketId) { s with handlers := s.handlers.erase ticketId }
  | restart : Steps opts s .restart { s with dispatcher := .start, tasks := [] }

/-- The outcomes of {lit}`System.step`. -/
theorem step_cases {opts : Opts} {s s' : System} {a : Action} (h : s.step opts a = some s') :
    s.Steps opts a s' := by
  cases a with
  | dispatcher i =>
      obtain ⟨⟨store, pc⟩, hstep, rfl⟩ := Option.map_eq_some_iff.mp h
      exact .dispatcher (DispatcherPc.step_cases hstep)
  | startTask ticketId =>
      simp only [step] at h
      split_ifs at h with hwaits
      obtain rfl := Option.some.inj h
      exact .startTask hwaits.1 hwaits.2
  | handler ticketId i =>
      simp only [step] at h
      split at h
      next => contradiction
      next hpc =>
        split at h
        next herror =>
          obtain rfl := Option.some.inj h
          exact .raised hpc herror
        next hstep =>
          obtain rfl := Option.some.inj h
          exact .returned hpc (HandlerPc.step_cases hstep)
        next hstep =>
          obtain rfl := Option.some.inj h
          exact .handler hpc (HandlerPc.step_cases hstep)
  | kill ticketId =>
      simp only [step] at h
      split_ifs at h with hruns
      obtain rfl := Option.some.inj h
      exact .kill hruns
  | restart =>
      obtain rfl := Option.some.inj h
      exact .restart

end System

end Resalloc.Spawner
