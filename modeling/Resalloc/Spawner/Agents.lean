import Mathlib.Data.List.Infix
import Resalloc.Foundations.HashStore
import Resalloc.Server.Models

/-!
# Agents

What the daemon of {lit}`resalloc_agent_spawner` stores and asks: the redis hashes that
record the agents, the configuration of the agent groups, and the answers of the
resalloc server and of the hook commands.

Main definitions:

- Definitions {lit}`AgentState` and {lit}`Agent`: the hash of an agent.
- Definition {lit}`States.excludes`: the filter of {lit}`get_tickets`.
- Definition {lit}`Input`: what a step is told from outside.
-/

namespace Resalloc.Spawner

open Foundations

/-! ## Agents in redis -/

/-- States of an agent. -/
inductive AgentState
  /-- The ticket is taken, it is being allocated in the background. -/
  | new
  /-- A script is being run in the background to prepare the agent. -/
  | preparing
  /-- An up and running agent. -/
  | working
  /-- A script is being run in the background to clean up after the agent. -/
  | terminating
  /-- Ready for ticket close. -/
  | ended
deriving DecidableEq

/-- How redis stores a state. -/
def AgentState.text : AgentState → String
  | .new => "NEW"
  | .preparing => "PREPARING"
  | .working => "WORKING"
  | .terminating => "TERMINATING"
  | .ended => "ENDED"

/-- The hash of an agent; a field that was never set reads as {lean}`none`. -/
structure Agent where
  groupId : Option String := none
  state : Option AgentState := none
  /-- The output of the resource, encoded for the hooks. -/
  data : Option String := none
deriving DecidableEq, Inhabited

/-- The keys {lit}`agent:*` of the redis database, named by their tickets. -/
abbrev Redis := HashStore TicketId Agent

/-- The {lit}`states` argument of {lit}`get_tickets`. -/
inductive States
  | text (states : String)
  | list (states : List AgentState)

/-- The test {lit}`state not in states`.  In a text this looks for a part of it, and
there is no such test for a missing state. -/
def States.excludes : States → Option AgentState → Except PyError Bool
  | .text _, none => .error .typeError
  | .text states, some state => .ok (¬ state.text.toList <:+: states.toList)
  | .list _, none => .ok true
  | .list states, some state => .ok (state ∉ states)

/-- No text of a state is a part of another one. -/
theorem States.excludes_text (s t : AgentState) :
    (States.text t.text).excludes (some s) = .ok (s ≠ t) := by
  cases s <;> cases t <;> rfl

/-! ## Configuration -/

/-- An agent group of the configuration file. -/
structure AgentGroup where
  id : String
  tags : List String := ["please-specify-some-tags"]
deriving DecidableEq

/-- The loaded configuration: the groups in the order of the file. -/
structure Opts where
  agentGroups : List AgentGroup
  /-- Groups have different names. -/
  nodup : (agentGroups.map AgentGroup.id).Nodup

/-- Hooks can be called for the configured groups only. -/
def Opts.Configured (opts : Opts) (groupId : Option String) : Prop :=
  ∃ group ∈ opts.agentGroups, some group.id = groupId

instance (opts : Opts) (groupId : Option String) : Decidable (opts.Configured groupId) :=
  inferInstanceAs (Decidable (∃ _ ∈ _, _))

/-! ## Answers from outside -/

/-- What {lit}`collectTicket` of the resalloc server returns. -/
structure Collected where
  /-- Whether the ticket has a resource; {lean}`none` for an unknown ticket. -/
  ready : Option Bool := some false
  /-- The encoded output of the resource, if the ticket has one. -/
  output : String := ""
  failed : Bool := false
deriving DecidableEq

/-- What a step is told from outside; every step reads the fields it asks for. -/
structure Input where
  /-- The order in which redis lists its keys. -/
  keys : List TicketId := []
  collected : Collected := {}
  /-- The exit status of a hook. -/
  status : Int := 0
  /-- The result of {lit}`cmd_converge_to`. -/
  convergeTo : Option Int := none
  /-- Tickets before a new one: those of other clients, and those of earlier executions of the
  same call, the answers to which were lost. -/
  skipped : ℕ := 0
deriving DecidableEq

/-- {lit}`get_ticket_data`. -/
def Collected.ticketData (c : Collected) : Option String :=
  -- not yet resolved or failed
  if c.ready = some true then some c.output else none

/-! ## Counting agents -/

/-- The mapping that {lit}`agent_counts` builds. -/
abbrev Counts := List (Option String × ℕ)

/-- Count one more agent of a group. -/
def Counts.add (groupId : Option String) : Counts → Counts
  | [] => [(groupId, 1)]
  | (g, n) :: counts => if g = groupId then (g, n + 1) :: counts else (g, n) :: add groupId counts

/-- The agents counted for a group. -/
def Counts.get (groupId : Option String) : Counts → ℕ
  | [] => 0
  | (g, n) :: counts => if g = groupId then n else get groupId counts

/-- Counting one more agent. -/
theorem Counts.get_add (groupId g : Option String) (counts : Counts) :
    Counts.get g (counts.add groupId) = Counts.get g counts + if groupId = g then 1 else 0 := by
  induction counts with
  | nil => simp [add, get]
  | cons entry counts ih =>
      obtain ⟨h, n⟩ := entry
      simp only [add]
      split_ifs <;> simp_all [get]

end Resalloc.Spawner
