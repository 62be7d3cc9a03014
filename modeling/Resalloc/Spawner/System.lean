import Resalloc.Foundations.Runs
import Resalloc.Spawner.Dispatcher

/-!
# The whole agent spawner

The dispatcher and the background workers as one transition system over the redis
database.  A worker handles one ticket, and the worker manager starts at most one worker
for a ticket at a time.

Main definitions:

- Definition {lit}`HandlerPc.step`: {lit}`handle_ticket` of
  {lit}`resalloc_agent_spawner/worker.py`.
- Definitions {lit}`System`, {lit}`Action` and {lit}`System.step`: who moves, and what
  happens.
-/

namespace Resalloc.Spawner

open Foundations

/-! ## Background workers -/

/-- Where a worker is. -/
inductive HandlerPc
  /-- {lit}`hgetall`. -/
  | load
  /-- {lit}`cmd_take`, which is given the data. -/
  | take (groupId ticketData : String)
  | taken (ok : Bool)
  /-- {lit}`cmd_terminate`, which is given the data. -/
  | terminate (groupId ticketData : String)
  | terminated
deriving DecidableEq

/-- The next step of a worker: the store after it, and where it continues, if it does
not return. -/
def HandlerPc.step (opts : Opts) (ticketId : TicketId) (pc : HandlerPc) (i : Input) (st : Store) :
    Except PyError (Store × Option HandlerPc) :=
  match pc with
  | .load =>
      let redisDict := st.redis.read ticketId
      match redisDict.data, redisDict.state with
      | none, _ | _, none => .error .keyError
      | some ticketData, some .preparing =>
          match redisDict.groupId with
          | none => .error .keyError
          | some groupId =>
              if ¬ opts.Configured groupId then .error .keyError
              else .ok (st, some (.take groupId ticketData))
      | some ticketData, some .terminating =>
          match redisDict.groupId with
          | none => .error .keyError
          | some groupId =>
              if ¬ opts.Configured groupId then .error .keyError
              else .ok (st, some (.terminate groupId ticketData))
      | some _, some _ => .ok (st, none)
  | .take _ _ => .ok (st, some (.taken (i.status = 0)))
  | .taken true => .ok (st.setState ticketId .working, none)
  -- failed preparation -> prepare removal
  | .taken false => .ok (st.setState ticketId .ended, none)
  | .terminate _ _ => .ok (st, some .terminated)
  | .terminated => .ok (st.setState ticketId .ended, none)

/-! ## The transition system -/

/-- The state of the daemon and of its background workers. -/
structure System where
  store : Store := {}
  dispatcher : DispatcherPc := .start
  /-- Tasks of the worker manager that wait for a worker. -/
  tasks : List TicketId := []
  /-- The running workers by their tickets. -/
  handlers : AList fun _ : TicketId => HandlerPc := ∅
deriving DecidableEq

/-- One step of one party. -/
inductive Action
  | dispatcher (i : Input)
  /-- The worker manager starts a worker for a waiting task. -/
  | startTask (ticketId : TicketId)
  | handler (ticketId : TicketId) (i : Input)
  /-- A worker dies. -/
  | kill (ticketId : TicketId)
  /-- The dispatcher dies, and a new one starts. -/
  | restart
deriving DecidableEq

/-- The tasks that the next step of the dispatcher hands over. -/
def DispatcherPc.tasks : DispatcherPc → List TicketId
  | .handOver tasks => tasks
  | _ => []

namespace System

/-- The effect of an action; {lean}`none` if its party cannot move. -/
def step (opts : Opts) (s : System) : Action → Option System
  | .dispatcher i =>
      (s.dispatcher.step opts i s.store).map fun (store, pc) =>
        { s with store := store, dispatcher := pc, tasks := s.tasks ++ s.dispatcher.tasks }
  | .startTask ticketId =>
      if ticketId ∈ s.tasks ∧ ticketId ∉ s.handlers then
        some { s with
          tasks := s.tasks.erase ticketId
          handlers := s.handlers.insert ticketId .load }
      else none
  | .handler ticketId i =>
      match s.handlers.lookup ticketId with
      | none => none
      | some pc =>
          match pc.step opts ticketId i s.store with
          | .error _ => some { s with handlers := s.handlers.erase ticketId }
          | .ok (store, none) =>
              some { s with store := store, handlers := s.handlers.erase ticketId }
          | .ok (store, some next) =>
              some { s with store := store, handlers := s.handlers.insert ticketId next }
  | .kill ticketId =>
      if ticketId ∈ s.handlers then some { s with handlers := s.handlers.erase ticketId }
      else none
  | .restart => some { s with dispatcher := .start, tasks := [] }

end System

end Resalloc.Spawner
