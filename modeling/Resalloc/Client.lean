import Resalloc.Server.Api

/-!
# The client library

The methods of {lit}`resalloc/client.py`, and the loop that calls the server again when
the connection fails.  The loop cannot tell a request that was lost from an answer that
was lost, and in between other parties use the server.

Main results:

- Definition {lit}`Request.method`: what the calls of the library run.
- Definition {lit}`Call.step`: the retry loop beside the running server.
- Definition {lit}`SameAsOnce`: a call had the effect of one execution.
- Theorem {lit}`call_once`: when a call that returns has this effect.
- Theorem {lit}`call_duplicates`: a lost answer leaves a second ticket.
-/

namespace Resalloc

open Foundations

/-! ## Methods -/

/-- A remote method with its arguments. -/
inductive Method
  | takeTicket (tags : List String) (sandbox : Option String)
  | collectTicket (ticketId : TicketId)
  | closeTicket (ticketId : TicketId)
deriving DecidableEq

/-- Exceptions of the client library. -/
inductive ClientError
  | resallocClientException
  | socketError
deriving DecidableEq

/-- The calls of the library: {lit}`Connection.newTicket`, {lit}`Ticket.collect` and
{lit}`Ticket.close`. -/
inductive Request
  | newTicket (tags : Option (List String)) (sandbox : Option String)
  | collect (ticketId : TicketId)
  | close (ticketId : TicketId)
deriving DecidableEq

/-- The remote method that a call of the library runs, unless it raises before. -/
def Request.method : Request → Except ClientError Method
  | .newTicket none _ => .error .resallocClientException
  | .newTicket (some tags) sandbox =>
      .ok (.takeTicket tags (if truthy sandbox then sandbox else none))
  | .collect ticketId => .ok (.collectTicket ticketId)
  | .close ticketId => .ok (.closeTicket ticketId)

/-- The value a remote method returns. -/
inductive Answer
  | ticketId (id : TicketId)
  | collected (output : Collected)
  | nothing
deriving DecidableEq

/-- The server executes a method; what it raises is sent to the client as a fault. -/
def Method.execute (m : Method) (w : World) : World × Except PyError Answer :=
  match m with
  | .takeTicket tags sandbox =>
      match Resalloc.takeTicket tags sandbox w.db with
      | .error e => (w, .error e)
      | .ok (db, id) => ({ w with db := db }, .ok (.ticketId id))
  | .collectTicket ticketId => (w, .ok (.collected (Resalloc.collectTicket ticketId w.db)))
  | .closeTicket ticketId =>
      match Resalloc.closeTicket ticketId w.db with
      | .error e => (w, .error e)
      | .ok db => ({ w with db := db }, .ok .nothing)

/-! ## The retry loop -/

/-- The exceptions of an attempt that the loop tells apart. -/
inductive Failure
  | sslError
  | socketError
  | rpcError
deriving DecidableEq

/-- What becomes of one attempt. -/
inductive Attempt
  /-- The server executes the method, and the answer arrives. -/
  | answered
  /-- The attempt fails, before or after the server has executed the method. -/
  | failed (executed : Bool) (failure : Failure)
deriving DecidableEq

/-- Where {lit}`_WrappedXMLRPCClient.call` is. -/
inductive CallStatus
  | calling
  | returned (answer : Answer)
  | raised (e : ClientError)
deriving DecidableEq

/-- A call beside the running server. -/
structure Call where
  world : World
  status : CallStatus := .calling
deriving DecidableEq

/-- The call makes an attempt, or another party of the server moves. -/
inductive Event
  | attempt (outcome : Attempt)
  | server (a : Action)
deriving DecidableEq

namespace Call

/-- One round of the loop of {lit}`_WrappedXMLRPCClient.call`. -/
def attempt (m : Method) (surviveServerRestart : Bool) (c : Call) : Attempt → Call
  | .answered =>
      match m.execute c.world with
      | (w, .ok answer) => { world := w, status := .returned answer }
      -- a fault is printed, and the loop goes on
      | (w, .error _) => { world := w, status := .calling }
  | .failed executed failure =>
      { world := if executed then (m.execute c.world).1 else c.world
        status :=
          match failure with
          | .sslError => .raised .resallocClientException
          | .socketError => if surviveServerRestart then .calling else .raised .socketError
          | .rpcError => .calling }

/-- The effect of an event; {lean}`none` if its party cannot move. -/
def step (m : Method) (surviveServerRestart : Bool) (c : Call) : Event → Option Call
  | .attempt outcome =>
      if c.status = .calling then some (c.attempt m surviveServerRestart outcome) else none
  | .server a => (c.world.step a).map fun w => { c with world := w }

end Call

/-- The moves of the other parties, in their order. -/
def serverActions (es : List Event) : List Action :=
  es.filterMap fun e =>
    match e with
    | .server a => some a
    | .attempt _ => none

/-- An attempt that failed although the server has executed the method. -/
def Event.answerLost : Event → Bool
  | .attempt (.failed executed _) => executed
  | _ => false

/-- The call has the effect of one successful execution: the moves of the others,
with the method executed once among them, lead to the same tickets and return the same
answer. -/
def SameAsOnce (m : Method) (w : World) (es : List Event) (w' : World) (answer : Answer) :
    Prop :=
  ∃ pre post u v w'', serverActions es = pre ++ post ∧ Path World.step anyStep w pre u ∧
    m.execute u = (v, .ok answer) ∧ Path World.step anyStep v post w'' ∧
    w''.db.tickets = w'.db.tickets

variable {m : Method} {w w' v : World} {a : Action} {as acts : List Action} {answer : Answer}
variable {es : List Event} {c c' : Call} {survive : Bool}

/-! ## Executing a method -/

/-- A method that raises writes nothing. -/
theorem Method.execute_error {e : PyError} (h : m.execute w = (v, .error e)) : v = w := by
  unfold Method.execute at h
  cases m with
  | collectTicket => simp at h
  | takeTicket | closeTicket =>
      simp only at h
      split at h
      · exact (Prod.mk.inj h).1.symm
      · simp at h

/-- An execution is a move that any other client may make, or writes nothing. -/
theorem Method.execute_world (m : Method) (w : World) :
    (m.execute w).1 = w ∨ ∃ a, w.step a = some (m.execute w).1 := by
  cases m with
  | collectTicket => exact .inl rfl
  | takeTicket tags sandbox =>
      refine .inr ⟨.takeTicket tags sandbox, ?_⟩
      simp only [World.step, Method.execute]
      cases Resalloc.takeTicket tags sandbox w.db <;> rfl
  | closeTicket tid =>
      refine .inr ⟨.closeTicket tid, ?_⟩
      simp only [World.step, Method.execute]
      cases Resalloc.closeTicket tid w.db <;> rfl

/-- An execution keeps the invariant of the server. -/
theorem Method.execute_inv (h : w.Inv) (m : Method) : (m.execute w).1.Inv := by
  rcases m.execute_world w with heq | ⟨a, hstep⟩
  · rwa [heq]
  · exact h.step hstep

/-- Calls whose repetition changes nothing. -/
def Method.repeatable : Method → Bool
  | .takeTicket _ _ => false
  | .collectTicket _ | .closeTicket _ => true

/-- The method has had its effect: another execution changes nothing. -/
def Method.Done (m : Method) (w : World) : Prop :=
  ∃ tid t, m = .closeTicket tid ∧ w.db.tickets.get? tid = some t ∧ t.state = .closed

/-- After its effect a method changes nothing and returns the same. -/
theorem Method.Done.execute (h : m.Done w) : m.execute w = (w, .ok .nothing) := by
  obtain ⟨tid, t, rfl, ht, hclosed⟩ := h
  have hsame : w.db.tickets.modify tid (fun t => { t with state := .closed }) = w.db.tickets := by
    refine IdTable.modify_eq_self ht ?_
    rw [← hclosed]
  simp only [Method.execute, Resalloc.closeTicket, ht, Db.modifyTicket, hsame]

/-- A successful repeatable method has had its effect, or has none. -/
theorem Method.done_of_execute (hrepeatable : m.repeatable = true)
    (h : m.execute w = (v, .ok answer)) : v = w ∨ m.Done v ∧ answer = .nothing := by
  cases m with
  | takeTicket => contradiction
  | collectTicket => exact .inl (Prod.mk.inj h).1.symm
  | closeTicket tid =>
      simp only [Method.execute, Resalloc.closeTicket] at h
      cases ht : w.db.tickets.get? tid with
      | none => simp [ht] at h
      | some t =>
          simp only [ht, Prod.mk.injEq, Except.ok.injEq] at h
          obtain ⟨rfl, rfl⟩ := h
          exact .inr ⟨⟨tid, { t with state := .closed }, rfl, by simp [ht], rfl⟩, rfl⟩

/-- The effect of a method stays. -/
theorem Method.Done.step (h : m.Done w) (hinv : w.Inv) (hstep : w.step a = some w') :
    m.Done w' := by
  obtain ⟨tid, t, rfl, ht, hclosed⟩ := h
  obtain ⟨t', ht', hcontinues⟩ := hinv.ticket_continues hstep ht
  exact ⟨tid, t', rfl, ht', hcontinues.closed hclosed⟩

/-! ## One execution -/

/-- The moves of the others, with the method executed once among them, lead here. -/
def Once (m : Method) (w : World) (acts : List Action) (w' : World) (answer : Answer) : Prop :=
  ∃ pre post u v, acts = pre ++ post ∧ Path World.step anyStep w pre u ∧
    m.execute u = (v, .ok answer) ∧ Path World.step anyStep v post w'

theorem Once.new (hrun : Path World.step anyStep w acts w')
    (h : m.execute w' = (v, .ok answer)) : Once m w acts v answer :=
  ⟨acts, [], w', v, by simp, hrun, h, .refl⟩

theorem Once.snoc (h : Once m w acts w' answer) (hstep : w'.step a = some v) :
    Once m w (acts ++ [a]) v answer := by
  obtain ⟨pre, post, u, x, rfl, hpre, hexec, hpost⟩ := h
  exact ⟨pre, post ++ [a], u, x, by simp, hpre, hexec, .snoc hpost trivial hstep⟩

theorem Once.sameAsOnce (h : Once m w (serverActions es) w' answer) :
    SameAsOnce m w es w' answer := by
  obtain ⟨pre, post, u, v, hacts, hpre, hexec, hpost⟩ := h
  exact ⟨pre, post, u, v, w', hacts, hpre, hexec, hpost, rfl⟩

@[simp]
theorem serverActions_attempt (es : List Event) (outcome : Attempt) :
    serverActions (es ++ [.attempt outcome]) = serverActions es := by
  simp [serverActions]

@[simp]
theorem serverActions_server (es : List Event) (a : Action) :
    serverActions (es ++ [.server a]) = serverActions es ++ [a] := by
  simp [serverActions]

/-- What a call has done so far: nothing, or as much as one execution. -/
structure Progress (m : Method) (w : World) (es : List Event) (c : Call) : Prop where
  inv : c.world.Inv
  returned : ∀ answer, c.status = .returned answer →
    Once m w (serverActions es) c.world answer
  calling : c.status = .calling → Path World.step anyStep w (serverActions es) c.world ∨
    m.Done c.world ∧ Once m w (serverActions es) c.world .nothing

/-- A move of another party. -/
theorem Progress.server (h : Progress m w es c) (hstep : c.world.step a = some w') :
    Progress m w (es ++ [.server a]) { c with world := w' } := by
  refine ⟨h.inv.step hstep, fun answer hstatus => ?_, fun hstatus => ?_⟩
  · rw [serverActions_server]
    exact (h.returned answer hstatus).snoc hstep
  · rw [serverActions_server]
    rcases h.calling hstatus with hrun | ⟨hdone, honce⟩
    · exact .inl (.snoc hrun trivial hstep)
    · exact .inr ⟨hdone.step h.inv hstep, honce.snoc hstep⟩

/-- An attempt of a call keeps its effect that of one execution, unless a lost answer
repeats a method that does not allow it. -/
theorem Progress.attempt (h : Progress m w es c) (hcalling : c.status = .calling)
    {outcome : Attempt}
    (hsafe : m.repeatable = true ∨ (Event.attempt outcome).answerLost = false) :
    Progress m w (es ++ [.attempt outcome]) (c.attempt m survive outcome) := by
  have hexecuted := Method.execute_inv h.inv m
  cases outcome with
  | answered =>
      unfold Call.attempt
      cases hexec : m.execute c.world with
      | mk v result =>
          rw [hexec] at hexecuted
          cases result with
          | error e =>
              obtain rfl := Method.execute_error hexec
              refine ⟨h.inv, by simp, fun _ => ?_⟩
              rw [serverActions_attempt]
              exact h.calling hcalling
          | ok answer =>
              refine ⟨hexecuted, fun answer' hstatus => ?_, by simp⟩
              obtain rfl := CallStatus.returned.inj hstatus
              rw [serverActions_attempt]
              rcases h.calling hcalling with hrun | ⟨hdone, honce⟩
              · exact .new hrun hexec
              · obtain ⟨rfl, heq⟩ := Prod.mk.inj (hexec.symm.trans hdone.execute)
                obtain rfl := Except.ok.inj heq
                exact honce
  | failed executed failure =>
      have hstatus : ∀ answer, (c.attempt m survive (.failed executed failure)).status ≠
          .returned answer := by
        intro answer
        unfold Call.attempt
        cases failure <;> cases survive <;> simp
      refine ⟨?_, fun answer hreturned => absurd hreturned (hstatus answer), fun _ => ?_⟩
      · unfold Call.attempt
        cases executed
        · exact h.inv
        · exact hexecuted
      · rw [serverActions_attempt]
        cases executed with
        | false => exact h.calling hcalling
        | true =>
            have hrepeatable : m.repeatable = true := by simpa [Event.answerLost] using hsafe
            change Path World.step anyStep w (serverActions es) (m.execute c.world).1 ∨
              m.Done (m.execute c.world).1 ∧
                Once m w (serverActions es) (m.execute c.world).1 .nothing
            rcases h.calling hcalling with hrun | ⟨hdone, honce⟩
            · cases hexec : m.execute c.world with
              | mk v result =>
                  cases result with
                  | error e =>
                      obtain rfl := Method.execute_error hexec
                      exact .inl hrun
                  | ok answer =>
                      rcases Method.done_of_execute hrepeatable hexec with rfl | ⟨hdone, rfl⟩
                      · exact .inl hrun
                      · exact .inr ⟨hdone, .new hrun hexec⟩
            · rw [hdone.execute]
              exact .inr ⟨hdone, honce⟩

/-- A call that is repeatable, or loses no answer, has the effect of at most one
execution. -/
theorem progress_of_call (hcall : Path (Call.step m survive) anyStep { world := w } es c)
    (hinv : w.Inv) (hsafe : m.repeatable = true ∨ ∀ e ∈ es, e.answerLost = false) :
    Progress m w es c := by
  induction hcall with
  | refl => exact ⟨hinv, by simp, fun _ => .inl .refl⟩
  | @snoc es c c' e hprev _ hnext ih =>
      have hprogress := ih (hsafe.imp_right fun hlost e he => hlost e (by simp [he]))
      cases e with
      | server a =>
          obtain ⟨v, hstep, rfl⟩ := Option.map_eq_some_iff.mp hnext
          exact hprogress.server hstep
      | attempt outcome =>
          simp only [Call.step] at hnext
          split_ifs at hnext with hcalling
          obtain rfl := Option.some.inj hnext
          exact hprogress.attempt hcalling (hsafe.imp_right fun hlost => hlost _ (by simp))

/-! ## Counting tickets -/

/-- How many tickets an action inserts. -/
def takes : Action → ℕ
  | .takeTicket tags _ => if tags.Nodup then 1 else 0
  | _ => 0

/-- An action inserts the tickets that its call takes. -/
theorem nextId_step (h : w.Inv) (hstep : w.step a = some w') :
    w'.db.tickets.nextId = w.db.tickets.nextId + takes a := by
  by_cases htake : ∃ tags sandbox, a = .takeTicket tags sandbox
  · obtain ⟨tags, sandbox, rfl⟩ := htake
    simp only [World.step, Resalloc.takeTicket, takes] at hstep ⊢
    split_ifs at hstep ⊢
    all_goals obtain rfl := Option.some.inj hstep
    · simp
    · rfl
  · have hnone : takes a = 0 := by
      cases a with
      | takeTicket tags sandbox => exact absurd ⟨tags, sandbox, rfl⟩ htake
      | _ => rfl
    rw [hnone, Nat.add_zero]
    apply Nat.le_antisymm
    · apply IdTable.nextId_le_of_get?
      intro tid t' ht'
      cases ht : w.db.tickets.get? tid with
      | none =>
          obtain ⟨tags, sandbox, ha, -⟩ := (World.step_cases hstep).taken h.linked ht' ht
          exact absurd ⟨tags, sandbox, ha⟩ htake
      | some t => exact ⟨t, rfl⟩
    · apply IdTable.nextId_le_of_get?
      intro tid t ht
      obtain ⟨t', ht', -⟩ := (World.step_cases hstep).ticket h.linked ht
      exact ⟨t', ht'⟩

/-- A run inserts the tickets that its calls take. -/
theorem nextId_run (hrun : Path World.step anyStep w as w') (h : w.Inv) :
    w'.Inv ∧ w'.db.tickets.nextId = w.db.tickets.nextId + (as.map takes).sum := by
  induction hrun with
  | refl => exact ⟨h, rfl⟩
  | snoc _ _ hstep ih =>
      obtain ⟨hinv, hcount⟩ := ih
      refine ⟨hinv.step hstep, ?_⟩
      rw [nextId_step hinv hstep, hcount]
      simp [Nat.add_assoc]

/-- An execution of {lit}`takeTicket` inserts one ticket. -/
theorem nextId_execute {tags : List String} (hnodup : tags.Nodup) (sandbox : Option String)
    (w : World) : ((Method.takeTicket tags sandbox).execute w).1.db.tickets.nextId =
      w.db.tickets.nextId + 1 := by
  simp [Method.execute, Resalloc.takeTicket, hnodup]

/-- A call has returned. -/
def CallStatus.hasReturned : CallStatus → Bool
  | .returned _ => true
  | _ => false

/-- A call inserts a ticket for each lost answer, and one when it returns. -/
theorem nextId_call {tags : List String} {sandbox : Option String} (hnodup : tags.Nodup)
    (hcall : Path (Call.step (.takeTicket tags sandbox) survive) anyStep { world := w } es c)
    (h : w.Inv) :
    c.world.Inv ∧ c.world.db.tickets.nextId = w.db.tickets.nextId +
      ((serverActions es).map takes).sum + es.countP Event.answerLost +
      if c.status.hasReturned then 1 else 0 := by
  induction hcall with
  | refl => exact ⟨h, rfl⟩
  | @snoc es c c' e _ _ hnext ih =>
      obtain ⟨hinv, hcount⟩ := ih
      cases e with
      | server a =>
          obtain ⟨v, hstep, rfl⟩ := Option.map_eq_some_iff.mp hnext
          refine ⟨hinv.step hstep, ?_⟩
          simp only [nextId_step hinv hstep, hcount, serverActions_server, List.map_append,
            List.sum_append, List.countP_append]
          simp [Event.answerLost]
          omega
      | attempt outcome =>
          simp only [Call.step] at hnext
          split_ifs at hnext with hcalling
          obtain rfl := Option.some.inj hnext
          have hinv' := Method.execute_inv hinv (.takeTicket tags sandbox)
          have hcount' := nextId_execute hnodup sandbox c.world
          simp only [hcalling, CallStatus.hasReturned, Bool.false_eq_true, if_false] at hcount
          rw [serverActions_attempt, List.countP_append]
          cases outcome with
          | answered =>
              have hattempt : c.attempt (.takeTicket tags sandbox) survive .answered =
                  { world := ((Method.takeTicket tags sandbox).execute c.world).1
                    status := .returned (.ticketId c.world.db.tickets.nextId) } := by
                simp [Call.attempt, Method.execute, Resalloc.takeTicket, hnodup]
              rw [hattempt]
              refine ⟨hinv', ?_⟩
              simp [hcount', hcount, Event.answerLost, CallStatus.hasReturned]
          | failed executed failure =>
              have hstatus : (c.attempt (.takeTicket tags sandbox) survive
                  (.failed executed failure)).status.hasReturned = false := by
                cases failure <;> cases survive <;> rfl
              rw [hstatus]
              cases executed with
              | false => exact ⟨hinv, by simpa [Call.attempt, Event.answerLost] using hcount⟩
              | true =>
                  refine ⟨hinv', ?_⟩
                  simp [Call.attempt, Event.answerLost, hcount', hcount]
                  omega

/-- A call of {lit}`takeTicket` returns only if its tags are different. -/
theorem nodup_of_returned {tags : List String} {sandbox : Option String}
    (hcall : Path (Call.step (.takeTicket tags sandbox) survive) anyStep { world := w } es c)
    (hreturned : c.status.hasReturned = true) : tags.Nodup := by
  induction hcall with
  | refl => contradiction
  | @snoc es c c' e _ _ hnext ih =>
      cases e with
      | server a =>
          obtain ⟨v, hstep, rfl⟩ := Option.map_eq_some_iff.mp hnext
          exact ih hreturned
      | attempt outcome =>
          simp only [Call.step] at hnext
          split_ifs at hnext with hcalling
          obtain rfl := Option.some.inj hnext
          by_contra hnodup
          cases outcome with
          | answered =>
              simp [Call.attempt, Method.execute, Resalloc.takeTicket, hnodup,
                CallStatus.hasReturned] at hreturned
          | failed executed failure =>
              cases failure <;> cases survive <;> simp [Call.attempt, CallStatus.hasReturned]
                at hreturned

/-- A call of {lit}`takeTicket` with a lost answer has inserted more tickets than one
execution. -/
theorem not_sameAsOnce {tags : List String} {sandbox : Option String} (h : w.Inv)
    (hcall : Path (Call.step (.takeTicket tags sandbox) survive) anyStep { world := w } es
      { world := w', status := .returned answer })
    (hlost : ∃ e ∈ es, e.answerLost = true) :
    ¬ SameAsOnce (.takeTicket tags sandbox) w es w' answer := by
  have hnodup := nodup_of_returned hcall rfl
  obtain ⟨-, hcount⟩ := nextId_call hnodup hcall h
  have hpos : 0 < es.countP Event.answerLost := List.countP_pos_iff.mpr hlost
  rintro ⟨pre, post, u, v, w'', hacts, hpre, hexec, hpost, htickets⟩
  obtain ⟨huinv, hu⟩ := nextId_run hpre h
  have hv : v.db.tickets.nextId = u.db.tickets.nextId + 1 := by
    simpa only [hexec] using nextId_execute hnodup sandbox u
  have hvinv := Method.execute_inv huinv (.takeTicket tags sandbox)
  rw [hexec] at hvinv
  obtain ⟨-, hw⟩ := nextId_run hpost hvinv
  rw [htickets] at hw
  simp only [hacts, List.map_append, List.sum_append, CallStatus.hasReturned, if_true] at hcount
  omega

/-- A call that survives server restarts and returns has the effect of one execution
exactly if it takes no ticket or no answer was lost. -/
theorem call_once {request : Request} (h : World.Reaches anyStep as w)
    (hmethod : request.method = .ok m)
    (hcall : Path (Call.step m true) anyStep { world := w } es
      { world := w', status := .returned answer }) :
    SameAsOnce m w es w' answer ↔
      (∀ tags sandbox, request ≠ .newTicket tags sandbox) ∨ ∀ e ∈ es, e.answerLost = false := by
  have hrepeatable : m.repeatable = true ↔ ∀ tags sandbox, request ≠ .newTicket tags sandbox := by
    cases request with
    | newTicket tags sandbox =>
        cases tags with
        | none => contradiction
        | some tags =>
            obtain rfl := Except.ok.inj hmethod
            simp [Method.repeatable]
    | collect | close =>
        obtain rfl := Except.ok.inj hmethod
        simp [Method.repeatable]
  rw [← hrepeatable]
  constructor
  · intro honce
    cases m with
    | collectTicket | closeTicket => exact .inl rfl
    | takeTicket tags sandbox =>
        by_contra hnot
        push Not at hnot
        obtain ⟨-, e, he, hlost⟩ := hnot
        exact not_sameAsOnce h.inv hcall ⟨e, he, by simpa using hlost⟩ honce
  · intro hsafe
    exact ((progress_of_call hcall h.inv hsafe).returned answer rfl).sameAsOnce

/-- A ticket is closed although the first answer is lost. -/
theorem call_once_closing :
    SameAsOnce (.closeTicket 1) (World.after anyStep [.takeTicket [] none] (by decide +kernel))
      [.attempt (.failed true .socketError), .server (.restart 5), .attempt .answered]
      (World.after anyStep [.takeTicket [] none, .closeTicket 1, .restart 5] (by decide +kernel))
      .nothing :=
  have hmethod : (Request.close 1).method = .ok (.closeTicket 1) := rfl
  (call_once (World.reaches_after anyStep [.takeTicket [] none] _) hmethod
    (Path.of_execWithin (by decide +kernel))).mpr (.inl (by simp))

/-- A lost answer leaves a second ticket. -/
theorem call_duplicates :
    ¬ ∀ (request : Request) (m : Method) (as : List Action) (w : World) (es : List Event)
      (w' : World) (answer : Answer), World.Reaches anyStep as w → request.method = .ok m →
      Path (Call.step m true) anyStep { world := w } es
        { world := w', status := .returned answer } → SameAsOnce m w es w' answer := by
  intro hall
  have hcall : Path (Call.step (.takeTicket ["x"] none) true) anyStep { world := World.init }
      [.attempt (.failed true .socketError), .attempt .answered]
      { world := World.after anyStep [.takeTicket ["x"] none, .takeTicket ["x"] none]
          (by decide +kernel)
        status := .returned (.ticketId 2) } := Path.of_execWithin (by decide +kernel)
  exact not_sameAsOnce World.inv_init hcall ⟨_, List.mem_cons_self, rfl⟩
    (hall (.newTicket (some ["x"]) none) _ [] World.init _ _ _ .refl rfl hcall)

end Resalloc
