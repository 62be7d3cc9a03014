import Resalloc.Foundations.Base64
import Resalloc.Client
import Resalloc.Spawner.Hooks

/-!
# The agent spawner and its server

The agent spawner is a client of the resalloc server: its dispatcher asks for tickets, collects
them and closes them through {lit}`resalloc/client.py`.  Here both run together.  A call of the
dispatcher is executed by the server in the state in which it then is, other clients, the manager
and the workers of the server move in between, and an answer may be lost, in which case the client
calls again.  An exception of the client library ends the dispatcher, as a kill does.

Main definitions:

- Definition {lit}`Spawner.DispatcherPc.method?`: the calls of the dispatcher.
- Definitions {lit}`Site`, {lit}`Site.Move` and {lit}`Site.step`: both daemons.

Main results:

- Theorems {lit}`Site.runs_server` and {lit}`Site.runs_spawner`: each of the two runs like it does
  on its own.
-/

namespace Resalloc

open Foundations

/-! ## Calls -/

/-- What the server does when it executes a method. -/
def Method.action? : Method → Option Action
  | .takeTicket tags sandbox => some (.takeTicket tags sandbox)
  | .collectTicket _ => none
  | .closeTicket ticketId => some (.closeTicket ticketId)

/-- An execution is an action of the server, or changes nothing. -/
theorem Method.execute_action (m : Method) (w : World) :
    stepOrStay World.step w m.action? = some (m.execute w).1 := by
  cases m with
  | collectTicket => rfl
  | takeTicket tags sandbox =>
      simp only [action?, stepOrStay, World.step, Method.execute]
      cases Resalloc.takeTicket tags sandbox w.db <;> rfl
  | closeTicket ticketId =>
      simp only [action?, stepOrStay, World.step, Method.execute]
      cases Resalloc.closeTicket ticketId w.db <;> rfl

/-- What a successful execution has done and answers. -/
inductive Method.Executed (w : World) : Method → World → Answer → Prop
  | takeTicket {tags v} (sandbox) : tags.Nodup →
      v.db.tickets = w.db.tickets.push { sandbox := sandbox, tags := tags } →
      Executed w (.takeTicket tags sandbox) v (.ticketId w.db.tickets.nextId)
  | collectTicket (ticketId) :
      Executed w (.collectTicket ticketId) w (.collected (Resalloc.collectTicket ticketId w.db))
  | closeTicket {ticketId v t} : v.db.tickets.get? ticketId = some t → t.state = .closed →
      Executed w (.closeTicket ticketId) v .nothing

/-- The outcomes of {lit}`Method.execute`. -/
theorem Method.executed_of_ok {m : Method} {w v : World} {answer : Answer}
    (h : m.execute w = (v, .ok answer)) : m.Executed w v answer := by
  cases m with
  | takeTicket tags sandbox =>
      simp only [execute, Resalloc.takeTicket] at h
      by_cases htags : tags.Nodup
      · simp only [if_pos htags, Prod.mk.injEq, Except.ok.injEq] at h
        obtain ⟨rfl, rfl⟩ := h
        exact .takeTicket sandbox htags rfl
      · simp [htags] at h
  | collectTicket ticketId =>
      obtain ⟨rfl, hanswer⟩ := Prod.mk.inj h
      obtain rfl := Except.ok.inj hanswer
      exact .collectTicket ticketId
  | closeTicket ticketId =>
      simp only [execute, Resalloc.closeTicket] at h
      cases ht : w.db.tickets.get? ticketId with
      | none => simp [ht] at h
      | some t =>
          simp only [ht, Prod.mk.injEq, Except.ok.injEq] at h
          obtain ⟨rfl, rfl⟩ := h
          exact .closeTicket (t := { t with state := .closed }) (by simp [ht]) rfl

namespace Spawner

/-- What {lit}`get_ticket_data` and {lit}`detect_failed_tickets` read of an answer.  The output is
encoded for the hooks. -/
def Collected.ofServer (c : Resalloc.Collected) : Collected where
  ready := c.ready
  output := (c.output.map Base64.encode).getD ""
  failed := c.failed.getD false

/-- The method of the server that the dispatcher calls next. -/
def DispatcherPc.method? : DispatcherPc → Option Method
  | .detectFailed ticketId _ | .isFinished _ ticketId _ | .ticketData ticketId _
  | .tryRelease ticketId _ _ => some (.collectTicket ticketId)
  | .close ticketId _ => some (.closeTicket ticketId)
  | .newTicket group _ _ => some (.takeTicket group.tags none)
  | _ => none

/-- The dispatcher gets an answer. -/
def Input.told (i : Input) (st : Store) : Answer → Input
  | .ticketId id => { i with skipped := id - st.nextTicket }
  | .collected output => { i with collected := .ofServer output }
  | .nothing => i

end Spawner

/-! ## Both daemons -/

/-- A resalloc server with an agent spawner. -/
structure Site where
  server : World := {}
  spawner : Spawner.System := {}
deriving DecidableEq

/-- What can happen. -/
inductive Site.Move
  /-- A party of the server moves, or another client calls. -/
  | server (a : Action)
  /-- A party of the spawner moves, and the server executes the call of the dispatcher. -/
  | spawner (a : Spawner.Action)
  /-- The server executes the call of the dispatcher, and the answer is lost. -/
  | unanswered
deriving DecidableEq

namespace Site

/-- A step of the dispatcher.  A call that the server refuses is repeated for ever. -/
def dispatch (opts : Spawner.Opts) (d : Site) (i : Spawner.Input) : Option Site :=
  match d.spawner.dispatcher.method? with
  | none => (d.spawner.step opts (.dispatcher i)).map fun s => { d with spawner := s }
  | some m =>
      match m.execute d.server with
      | (_, .error _) => none
      | (w, .ok answer) =>
          (d.spawner.step opts (.dispatcher (i.told d.spawner.store answer))).map fun s =>
            { server := w, spawner := s }

/-- The effect of a move; {lean}`none` if its party cannot move. -/
def step (opts : Spawner.Opts) (d : Site) : Move → Option Site
  | .server a => (d.server.step a).map fun w => { d with server := w }
  | .spawner (.dispatcher i) => d.dispatch opts i
  | .spawner a => (d.spawner.step opts a).map fun s => { d with spawner := s }
  | .unanswered => d.spawner.dispatcher.method?.map fun m =>
      { d with server := (m.execute d.server).1 }

/-- Other clients close their own tickets only. -/
def Minds (d : Site) (m : Move) : Prop :=
  ∀ ticketId, m = .server (.closeTicket ticketId) → ticketId ∉ d.spawner.openTickets

instance (d : Site) (m : Move) : Decidable (d.Minds m) :=
  match m with
  | .server (.closeTicket ticketId) =>
      decidable_of_iff (ticketId ∉ d.spawner.openTickets)
        ⟨fun h _ heq => by cases heq; exact h, fun h => h ticketId rfl⟩
  | .server (.manager _) | .server (.worker _ _) | .server (.watcher _)
  | .server (.takeTicket _ _) | .server (.resourceDelete _) | .server (.kill _)
  | .server (.restart _) | .spawner _ | .unanswered => .isTrue fun _ heq => by cases heq

/-- What the dispatcher is told in a step. -/
def told (d : Site) (i : Spawner.Input) : Spawner.Input :=
  match d.spawner.dispatcher.method? with
  | none => i
  | some m =>
      match (m.execute d.server).2 with
      | .error _ => i
      | .ok answer => i.told d.spawner.store answer

/-- The step of the spawner in a move. -/
def spawnerAction? (d : Site) : Move → Option Spawner.Action
  | .spawner (.dispatcher i) => some (.dispatcher (d.told i))
  | .spawner a => some a
  | .server _ | .unanswered => none

/-- The step of the server in a move. -/
def serverAction? (d : Site) : Move → Option Action
  | .server a => some a
  | .spawner (.dispatcher _) | .unanswered => d.spawner.dispatcher.method?.bind Method.action?
  | .spawner _ => none

variable {opts : Spawner.Opts} {d d' : Site} {m : Move} {ms : List Move}

/-- What a step of the dispatcher does: an answered call, or a step without a call. -/
theorem dispatch_cases {i : Spawner.Input} (h : d.dispatch opts i = some d') :
    d.spawner.step opts (.dispatcher (d.told i)) = some d'.spawner ∧
      (d.spawner.dispatcher.method? = none ∧ d'.server = d.server ∨
        ∃ m answer, d.spawner.dispatcher.method? = some m ∧
          m.execute d.server = (d'.server, .ok answer) ∧
          d.told i = i.told d.spawner.store answer) := by
  unfold dispatch at h
  unfold told
  cases hmethod : d.spawner.dispatcher.method? with
  | none =>
      simp only [hmethod] at h
      obtain ⟨s, hs, rfl⟩ := Option.map_eq_some_iff.mp h
      exact ⟨hs, .inl ⟨rfl, rfl⟩⟩
  | some m =>
      simp only [hmethod] at h
      cases hexec : m.execute d.server with
      | mk w result =>
          cases result with
          | error e => simp [hexec] at h
          | ok answer =>
              simp only [hexec] at h
              obtain ⟨s, hs, rfl⟩ := Option.map_eq_some_iff.mp h
              exact ⟨by simpa [hexec] using hs, .inr ⟨m, answer, rfl, hexec, by simp [hexec]⟩⟩

/-- Every move is a step of the spawner, or leaves it as it is. -/
theorem step_spawner (h : d.step opts m = some d') :
    stepOrStay (Spawner.System.step opts) d.spawner (d.spawnerAction? m) = some d'.spawner := by
  cases m with
  | server a =>
      obtain ⟨w, -, rfl⟩ := Option.map_eq_some_iff.mp h
      rfl
  | unanswered =>
      obtain ⟨method, -, rfl⟩ := Option.map_eq_some_iff.mp h
      rfl
  | spawner a =>
      cases a with
      | dispatcher i => exact (dispatch_cases h).1
      | startTask | handler | kill =>
          obtain ⟨s, hs, rfl⟩ := Option.map_eq_some_iff.mp h
          exact hs
      | restart =>
          obtain rfl := Option.some.inj h
          rfl

/-- Every move is a step of the server, or leaves it as it is. -/
theorem step_server (h : d.step opts m = some d') :
    stepOrStay World.step d.server (d.serverAction? m) = some d'.server := by
  cases m with
  | server a =>
      obtain ⟨w, hw, rfl⟩ := Option.map_eq_some_iff.mp h
      exact hw
  | unanswered =>
      obtain ⟨method, hmethod, rfl⟩ := Option.map_eq_some_iff.mp h
      rw [serverAction?, hmethod, Option.bind_some]
      exact method.execute_action d.server
  | spawner a =>
      cases a with
      | dispatcher i =>
          rcases (dispatch_cases h).2 with ⟨hmethod, hsame⟩ | ⟨method, answer, hmethod, hexec, -⟩
          · rw [serverAction?, hmethod, Option.bind_none, hsame]
            rfl
          · have haction := method.execute_action d.server
            rw [hexec] at haction
            rw [serverAction?, hmethod, Option.bind_some]
            exact haction
      | startTask | handler | kill =>
          obtain ⟨s, -, rfl⟩ := Option.map_eq_some_iff.mp h
          rfl
      | restart =>
          obtain rfl := Option.some.inj h
          rfl

/-! ## The two components of a run -/

/-- The server of a site runs like a server on its own. -/
theorem runs_server {ok : Site → Move → Prop} (hrun : Path (step opts) ok d ms d') :
    Path World.step anyStep d.server (observe serverAction? (step opts) d ms) d'.server :=
  hrun.project Site.server serverAction? fun _ _ _ => step_server

/-- The spawner of a site runs like a spawner on its own. -/
theorem runs_spawner {ok : Site → Move → Prop} (hrun : Path (step opts) ok d ms d') :
    Path (Spawner.System.step opts) anyStep d.spawner (observe spawnerAction? (step opts) d ms)
      d'.spawner :=
  hrun.project Site.spawner spawnerAction? fun _ _ _ => step_spawner

/-- What is seen of the spawner. -/
def ofSpawner {β : Type} (f : Spawner.System → Spawner.Action → Option β) (d : Site) (m : Move) :
    Option β :=
  (d.spawnerAction? m).bind (f d.spawner)

/-- The spawner shows the same in its own run. -/
theorem observe_spawner {β : Type} (f : Spawner.System → Spawner.Action → Option β)
    {ok : Site → Move → Prop} (hrun : Path (step opts) ok d ms d') :
    observe (ofSpawner f) (step opts) d ms =
      observe f (Spawner.System.step opts) d.spawner (observe spawnerAction? (step opts) d ms) :=
  hrun.observe_project Site.spawner spawnerAction? (fun _ _ _ => step_spawner) f

end Site

end Resalloc
