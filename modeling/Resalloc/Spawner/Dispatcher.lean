import Mathlib.Data.List.Perm.Basic
import Resalloc.Spawner.Agents

/-!
# The dispatcher of the agent spawner

{lit}`get_frontend_tasks` of {lit}`resalloc_agent_spawner/dispatcher.py`: one cycle over
the recorded agents.  The dispatcher is a program counter with the local variables of the
running loops; each step runs one redis operation, or one question to the resalloc server
together with the hook that follows it.

Main definitions:

- Definition {lit}`DispatcherPc`: where the dispatcher is.
- Definition {lit}`DispatcherPc.step`: its next step.
-/

namespace Resalloc.Spawner

open Foundations

/-! ## What the dispatcher writes -/

/-- The redis database and the tickets of the resalloc server. -/
structure Store where
  redis : Redis := ∅
  /-- Open tickets that the dispatcher was told, with their tags. -/
  tickets : List (TicketId × List String) := []
  nextTicket : TicketId := 1
deriving DecidableEq

namespace Store

variable (st : Store) (ticketId : TicketId)

/-- {lit}`set_ticket_attribute` with the key {lit}`group_id`. -/
def setGroup (groupId : String) : Store :=
  { st with redis := st.redis.write ticketId fun a => { a with groupId := some groupId } }

/-- {lit}`set_ticket_attribute` with the key {lit}`state`. -/
def setState (state : AgentState) : Store :=
  { st with redis := st.redis.write ticketId fun a => { a with state := some state } }

/-- {lit}`set_ticket_attribute` with the key {lit}`data`. -/
def setData (data : String) : Store :=
  { st with redis := st.redis.write ticketId fun a => { a with data := some data } }

/-- {lit}`redis.delete`. -/
def delete : Store :=
  { st with redis := st.redis.erase ticketId }

/-- {lit}`ticket.close`. -/
def close : Store :=
  { st with tickets := st.tickets.filter fun e => e.1 ≠ ticketId }

end Store

/-! ## The program counter -/

/-- The local variables of {lit}`converge`: the counted agents, and the groups that are
still to come. -/
structure Converge where
  currentAgents : Counts
  rest : List AgentGroup
deriving DecidableEq

/-- The local variables of {lit}`try_to_stop`. -/
structure Stopping where
  groupId : String
  toStop : Int
  stopped : Int := 0
  converge : Converge
deriving DecidableEq

/-- Who has called {lit}`get_tickets`. -/
inductive Caller
  /-- The loop that drops the ended agents. -/
  | dropEnded
  | cleanFinishedWorkers
  | startPreparing
  | tryToStop (s : Stopping)
  /-- The end of {lit}`get_frontend_tasks`. -/
  | tasks
deriving DecidableEq

/-- The states each caller asks for. -/
def Caller.states : Caller → States
  | .dropEnded => .text "ENDED"
  | .cleanFinishedWorkers => .text "WORKING"
  | .startPreparing => .text "NEW"
  | .tryToStop _ => .text "WORKING"
  | .tasks => .list [.preparing, .terminating]

/-- Where the dispatcher is. -/
inductive DispatcherPc
  /-- Before a cycle: the keys of {lit}`detect_failed_tickets`. -/
  | start
  /-- {lit}`detect_failed_tickets` of a ticket and of the tickets after it. -/
  | detectFailed (ticketId : TicketId) (rest : List TicketId)
  /-- The state of a failed ticket. -/
  | failedState (ticketId : TicketId) (rest : List TicketId)
  | setFailed (ticketId : TicketId) (state : AgentState) (rest : List TicketId)
  /-- {lit}`get_tickets`. -/
  | keys (caller : Caller)
  /-- The loop of {lit}`get_tickets`: the state of a ticket, with the tickets after it. -/
  | filter (caller : Caller) (ticketId : TicketId) (rest output : List TicketId)
  /-- {lit}`agent_drop`. -/
  | close (ticketId : TicketId) (rest : List TicketId)
  | delete (ticketId : TicketId) (rest : List TicketId)
  /-- {lit}`clean_finished_workers`. -/
  | finishedGroup (ticketId : TicketId) (rest : List TicketId)
  | isFinished (groupId : Option String) (ticketId : TicketId) (rest : List TicketId)
  | setTerminating (ticketId : TicketId) (rest : List TicketId)
  /-- {lit}`start_preparing`. -/
  | ticketData (ticketId : TicketId) (rest : List TicketId)
  | setData (data : String) (ticketId : TicketId) (rest : List TicketId)
  | setPreparing (ticketId : TicketId) (rest : List TicketId)
  /-- {lit}`agent_counts`. -/
  | agentCounts
  | count (ticketId : TicketId) (rest : List TicketId) (counts : Counts)
  /-- {lit}`converge` of a group. -/
  | converge (group : AgentGroup) (c : Converge)
  /-- The loop that starts new agents, with the rounds after this one. -/
  | newTicket (group : AgentGroup) (todo : ℕ) (c : Converge)
  | setGroup (ticketId : TicketId) (group : AgentGroup) (todo : ℕ) (c : Converge)
  | setNew (ticketId : TicketId) (group : AgentGroup) (todo : ℕ) (c : Converge)
  /-- The loop of {lit}`try_to_stop`: the data and the hook of a ticket. -/
  | tryRelease (ticketId : TicketId) (rest : List TicketId) (s : Stopping)
  /-- The agent switches to TERMINATING (early). -/
  | stop (ticketId : TicketId) (rest : List TicketId) (s : Stopping)
  /-- The tasks are handed over to the worker manager. -/
  | handOver (tasks : List TicketId)
  /-- The process died of an exception. -/
  | stopped (e : PyError)
deriving DecidableEq

namespace DispatcherPc

/-! ## Loops -/

/-- The next round of {lit}`detect_failed_tickets`. -/
def nextDetect : List TicketId → DispatcherPc
  | [] => .keys .dropEnded
  | ticketId :: rest => .detectFailed ticketId rest

/-- The next ended agent. -/
def nextDrop : List TicketId → DispatcherPc
  | [] => .keys .cleanFinishedWorkers
  | ticketId :: rest => .close ticketId rest

/-- The next round of {lit}`clean_finished_workers`. -/
def nextFinished : List TicketId → DispatcherPc
  | [] => .keys .startPreparing
  | ticketId :: rest => .finishedGroup ticketId rest

/-- The next round of {lit}`start_preparing`. -/
def nextPreparing : List TicketId → DispatcherPc
  | [] => .agentCounts
  | ticketId :: rest => .ticketData ticketId rest

/-- The next group of {lit}`converge`. -/
def nextGroup (currentAgents : Counts) : List AgentGroup → DispatcherPc
  | [] => .keys .tasks
  | group :: rest => .converge group { currentAgents := currentAgents, rest := rest }

/-- The next round of {lit}`agent_counts`. -/
def nextCount (opts : Opts) (counts : Counts) : List TicketId → DispatcherPc
  | [] => nextGroup counts opts.agentGroups
  | ticketId :: rest => .count ticketId rest counts

/-- The next new agent of a group. -/
def nextNew (group : AgentGroup) (c : Converge) : ℕ → DispatcherPc
  | 0 => nextGroup c.currentAgents c.rest
  | todo + 1 => .newTicket group todo c

/-- The next round of {lit}`try_to_stop`. -/
def nextStop (s : Stopping) : List TicketId → DispatcherPc
  | [] => nextGroup s.converge.currentAgents s.converge.rest
  | ticketId :: rest =>
      if s.toStop ≤ s.stopped then nextGroup s.converge.currentAgents s.converge.rest
      else .tryRelease ticketId rest s

/-- What the caller does with the tickets. -/
def nextLoop (output : List TicketId) : Caller → DispatcherPc
  | .dropEnded => nextDrop output
  | .cleanFinishedWorkers => nextFinished output
  | .startPreparing => nextPreparing output
  | .tryToStop s => nextStop s output
  | .tasks => .handOver output

/-- The next round of {lit}`get_tickets`. -/
def nextFilter (caller : Caller) (output : List TicketId) : List TicketId → DispatcherPc
  | [] => nextLoop output caller
  | ticketId :: rest => .filter caller ticketId rest output

/-! ## Steps -/

/-- The state a failed ticket is switched to; {lean}`none` if it is not switched. -/
def failedState? : Option AgentState → Option AgentState
  -- we still want to run the cmd_terminate hook
  | some .working => some .terminating
  -- this has never been prepared, simply close the ticket
  | some .new => some .ended
  -- there's a background worker handling these agents
  | _ => none

/-- The next step of the dispatcher: the store after it, and where it continues.  It is
not enabled if the listed keys are not those of the database, or if the call is never
answered. -/
def step (opts : Opts) (pc : DispatcherPc) (i : Input) (st : Store) :
    Option (Store × DispatcherPc) :=
  match pc with
  | .start => if i.keys.Perm st.redis.keys then some (st, nextDetect i.keys) else none
  | .detectFailed ticketId rest =>
      -- non-existing ticket
      if i.collected.ready = none then some (st, .stopped .systemExit)
      else if i.collected.failed then some (st, .failedState ticketId rest)
      else some (st, nextDetect rest)
  | .failedState ticketId rest =>
      match failedState? (st.redis.read ticketId).state with
      | none => some (st, nextDetect rest)
      | some state => some (st, .setFailed ticketId state rest)
  | .setFailed ticketId state rest => some (st.setState ticketId state, nextDetect rest)
  | .keys caller =>
      if i.keys.Perm st.redis.keys then some (st, nextFilter caller [] i.keys) else none
  | .filter caller ticketId rest output =>
      match caller.states.excludes (st.redis.read ticketId).state with
      | .error e => some (st, .stopped e)
      | .ok true => some (st, nextFilter caller output rest)
      | .ok false => some (st, nextFilter caller (output ++ [ticketId]) rest)
  | .close ticketId rest => some (st.close ticketId, .delete ticketId rest)
  | .delete ticketId rest => some (st.delete ticketId, nextDrop rest)
  | .finishedGroup ticketId rest =>
      some (st, .isFinished (st.redis.read ticketId).groupId ticketId rest)
  | .isFinished groupId ticketId rest =>
      match i.collected.ticketData with
      | none => some (st, nextFinished rest)
      | some _ =>
          if ¬ opts.Configured groupId then some (st, .stopped .keyError)
          else if i.status ≠ 0 then some (st, nextFinished rest)
          else some (st, .setTerminating ticketId rest)
  | .setTerminating ticketId rest => some (st.setState ticketId .terminating, nextFinished rest)
  | .ticketData ticketId rest =>
      match i.collected.ticketData with
      | none => some (st, nextPreparing rest)
      | some data => some (st, .setData data ticketId rest)
  | .setData data ticketId rest => some (st.setData ticketId data, .setPreparing ticketId rest)
  | .setPreparing ticketId rest => some (st.setState ticketId .preparing, nextPreparing rest)
  | .agentCounts => if i.keys.Perm st.redis.keys then some (st, nextCount opts [] i.keys) else none
  | .count ticketId rest counts =>
      some (st, nextCount opts (counts.add (st.redis.read ticketId).groupId) rest)
  | .converge group c =>
      match i.convergeTo with
      | none => some (st, nextGroup c.currentAgents c.rest)
      | some ideal =>
          let current : Int := Counts.get (some group.id) c.currentAgents
          if current < ideal then some (st, nextNew group c (ideal - current).toNat)
          else if ideal < current then
            some (st, .keys (.tryToStop
              { groupId := group.id, toStop := current - ideal, converge := c }))
          else some (st, nextGroup c.currentAgents c.rest)
  | .newTicket group todo c =>
      -- the server refuses a repeated tag, and the client repeats the call for ever
      if ¬ group.tags.Nodup then none
      else
        let ticketId := st.nextTicket + i.skipped
        some ({ st with
          tickets := st.tickets ++ [(ticketId, group.tags)]
          nextTicket := ticketId + 1 }, .setGroup ticketId group todo c)
  | .setGroup ticketId group todo c =>
      some (st.setGroup ticketId group.id, .setNew ticketId group todo c)
  | .setNew ticketId group todo c => some (st.setState ticketId .new, nextNew group c todo)
  | .tryRelease ticketId rest s =>
      match i.collected.ticketData with
      -- failed resource, recovers in detect_failed_tickets()
      | none => some (st, nextStop s rest)
      | some data =>
          if data = "" then some (st, nextStop s rest)
          else if i.status ≠ 0 then some (st, nextStop s rest)
          else some (st, .stop ticketId rest s)
  | .stop ticketId rest s =>
      some (st.setState ticketId .terminating, nextStop { s with stopped := s.stopped + 1 } rest)
  | .handOver _ => some (st, .start)
  | .stopped e => some (st, .stopped e)

end DispatcherPc

end Resalloc.Spawner
