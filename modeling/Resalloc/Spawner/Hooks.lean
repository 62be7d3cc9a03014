import Resalloc.Spawner.Ledger

/-!
# The hooks of an agent

The hooks of one agent are called by different processes: {lit}`cmd_take` and
{lit}`cmd_terminate` by background workers, {lit}`cmd_is_finished` and {lit}`cmd_try_release` by
the dispatcher, which closes the ticket too.  A hook of a killed process is called again by the
next one.

Main results:

- Theorem {lit}`System.Inv.phase_step`: no agent goes back in its life, not even after its record is
  deleted.
- Theorem {lit}`System.calls_in_order`: the calls for one agent come in the order of its life.
-/

namespace Resalloc.Spawner

open Foundations

/-! ## Calls -/

/-- What is done for an agent outside of redis. -/
inductive Call
  | take
  | isFinished
  | tryRelease
  | terminate
  | closeTicket
deriving DecidableEq

/-- The phase of an agent in its state. -/
def AgentState.phase : AgentState → ℕ
  | .new => 1
  | .preparing => 2
  | .working => 3
  | .terminating => 4
  | .ended => 5

/-- The phase that a call belongs to. -/
def Call.rank : Call → ℕ
  | .take => AgentState.preparing.phase
  | .isFinished | .tryRelease => AgentState.working.phase
  | .terminate => AgentState.terminating.phase
  | .closeTicket => AgentState.ended.phase

/-- The data that the next hook of a worker is given. -/
def HandlerPc.ticketData? : HandlerPc → Option String
  | .take _ ticketData | .terminate _ ticketData => some ticketData
  | _ => none

/-- The agent whose data the dispatcher asks for before a hook. -/
def DispatcherPc.asksFor? : DispatcherPc → Option TicketId
  | .isFinished _ ticketId _ | .tryRelease ticketId _ _ => some ticketId
  | _ => none

namespace System

variable {opts : Opts} {s s' : System} {a : Action} {as : List Action} {k : TicketId}

/-- The call that a step makes for an agent. -/
def call? (k : TicketId) (s : System) (a : Action) : Option Call :=
  match a with
  | .handler ticketId _ =>
      match s.handlers.lookup ticketId with
      | some (.take _ _) => if ticketId = k then some .take else none
      | some (.terminate _ _) => if ticketId = k then some .terminate else none
      | _ => none
  | .dispatcher i =>
      match s.dispatcher with
      | .isFinished _ ticketId _ =>
          if ticketId = k ∧ i.collected.ticketData ≠ none then some .isFinished else none
      | .tryRelease ticketId _ _ =>
          if ticketId = k ∧ i.collected.ticketData.getD "" ≠ "" then some .tryRelease else none
      | .close ticketId _ => if ticketId = k then some .closeTicket else none
      | _ => none
  | _ => none

/-- What a step puts into {lit}`AGENT_SPAWNER_RESOURCE_DATA` for the hook that it calls for an
agent. -/
def hookData? (k : TicketId) (s : System) (a : Action) : Option String :=
  match a with
  | .handler ticketId _ =>
      if ticketId = k then (s.handlers.lookup ticketId).bind HandlerPc.ticketData? else none
  | .dispatcher i =>
      match s.dispatcher with
      | .isFinished _ ticketId _ | .tryRelease ticketId _ _ =>
          if ticketId = k then i.collected.ticketData else none
      | _ => none
  | _ => none

/-- Every hook is given data: a worker has loaded them, and the dispatcher has just been told
them. -/
theorem hookData_of_call {call : Call} (hcall : s.call? k a = some call)
    (hhook : call ≠ .closeTicket) : ∃ data, s.hookData? k a = some data ∧
      ((∃ i pc, a = .handler k i ∧ s.handlers.lookup k = some pc ∧ pc.ticketData? = some data) ∨
        ∃ i, a = .dispatcher i ∧ s.dispatcher.asksFor? = some k ∧
          i.collected.ticketData = some data) := by
  unfold call? at hcall
  split at hcall
  next ticketId i =>
    split at hcall
    next groupId data hlookup =>
      split_ifs at hcall with hk
      subst hk
      exact ⟨data, by simp [hookData?, hlookup, HandlerPc.ticketData?],
        .inl ⟨i, _, rfl, hlookup, rfl⟩⟩
    next groupId data hlookup =>
      split_ifs at hcall with hk
      subst hk
      exact ⟨data, by simp [hookData?, hlookup, HandlerPc.ticketData?],
        .inl ⟨i, _, rfl, hlookup, rfl⟩⟩
    next => contradiction
  next i =>
    split at hcall
    next hdispatcher =>
      split_ifs at hcall with hk
      obtain ⟨rfl, hsome⟩ := hk
      obtain ⟨data, hdata⟩ := Option.ne_none_iff_exists'.mp hsome
      exact ⟨data, by simp [hookData?, hdispatcher, hdata],
        .inr ⟨i, rfl, by rw [hdispatcher]; rfl, hdata⟩⟩
    next hdispatcher =>
      split_ifs at hcall with hk
      obtain ⟨rfl, hsome⟩ := hk
      obtain ⟨data, hdata⟩ : ∃ data, i.collected.ticketData = some data :=
        Option.ne_none_iff_exists'.mp fun hnone => hsome (by rw [hnone]; rfl)
      exact ⟨data, by simp [hookData?, hdispatcher, hdata],
        .inr ⟨i, rfl, by rw [hdispatcher]; rfl, hdata⟩⟩
    next hdispatcher =>
      split_ifs at hcall
      cases hcall
      contradiction
    next => contradiction
  next => contradiction

/-- A call finds its agent in the state that it is for. -/
theorem Inv.call_state (h : Inv opts s) {call : Call} (hcall : s.call? k a = some call) :
    ∃ state, s.state k = some state ∧ state.phase = call.rank := by
  unfold call? at hcall
  have hsees := h.dispatcher
  split at hcall
  next ticketId i =>
    split at hcall
    next hlookup =>
      split_ifs at hcall with hk
      cases hcall
      exact ⟨.preparing, hk ▸ h.handlers _ _ hlookup, rfl⟩
    next hlookup =>
      split_ifs at hcall with hk
      cases hcall
      exact ⟨.terminating, hk ▸ h.handlers _ _ hlookup, rfl⟩
    next => contradiction
  next i =>
    split at hcall
    next hdispatcher =>
      rw [hdispatcher] at hsees
      split_ifs at hcall with hk
      cases hcall
      exact ⟨.working, hk.1 ▸ hsees.head, rfl⟩
    next hdispatcher =>
      rw [hdispatcher] at hsees
      split_ifs at hcall with hk
      cases hcall
      exact ⟨.working, hk.1 ▸ hsees.1.head, rfl⟩
    next hdispatcher =>
      rw [hdispatcher] at hsees
      split_ifs at hcall with hk
      cases hcall
      exact ⟨.ended, hk ▸ hsees.head, rfl⟩
    next => contradiction
  next => contradiction

/-! ## Phases -/

/-- The dispatcher is recording the agent. -/
def Starting (k : TicketId) (s : System) : Prop :=
  s.dispatcher.booked? = some (.taken k) ∨ s.dispatcher.booked? = some (.grouped k)

instance (k : TicketId) (s : System) : Decidable (Starting k s) :=
  inferInstanceAs (Decidable (_ ∨ _))

/-- The phase of a ticket; a ticket that was taken and is not in the records has had its life. -/
def phase (k : TicketId) (s : System) : ℕ :=
  match s.state k with
  | some state => state.phase
  | none => if k < s.store.nextTicket ∧ ¬ Starting k s then 6 else 0

/-- Only new tickets are recorded. -/
theorem starting_step (hstep : System.step opts s a = some s') :
    s.store.nextTicket ≤ s'.store.nextTicket ∧
      (Starting k s' → Starting k s ∨ s.store.nextTicket ≤ k) := by
  have hnone : s'.dispatcher.booked? = none → Starting k s' →
      Starting k s ∨ s.store.nextTicket ≤ k :=
    fun hentry hstarts => absurd hstarts (by simp [Starting, hentry])
  cases step_cases hstep with
  | @dispatcher i store pc hpc =>
      generalize hdispatcher : s.dispatcher = before at hpc
      cases hpc with
      | newTicket group todo c =>
          refine ⟨(Nat.le_add_right _ _).trans (Nat.le_succ _), fun hstarts => .inr ?_⟩
          have hk : s.store.nextTicket + i.skipped = k := by
            simpa [Starting, DispatcherPc.booked?] using hstarts
          exact hk ▸ Nat.le_add_right _ _
      | setGroup ticketId group todo c =>
          refine ⟨Nat.le_refl _, fun hstarts => .inl (.inl ?_)⟩
          have hk : ticketId = k := by simpa [Starting, DispatcherPc.booked?] using hstarts
          rw [hdispatcher, ← hk]
          rfl
      | close ticketId rest =>
          refine ⟨Nat.le_refl _, fun hstarts => absurd hstarts ?_⟩
          simp [Starting, DispatcherPc.booked?]
      | _ => exact ⟨Nat.le_refl _, hnone (by first | rfl | simp)⟩
  | returned _ hpc | handler _ hpc =>
      refine ⟨Nat.le_of_eq ?_, .inl⟩
      cases hpc <;> rfl
  | startTask | raised | kill => exact ⟨Nat.le_refl _, .inl⟩
  | restart => exact ⟨Nat.le_refl _, hnone rfl⟩

/-- An agent with a state is not being recorded. -/
theorem Inv.not_starting (h : Inv opts s) {state : AgentState} (hstate : s.state k = some state) :
    ¬ Starting k s := by
  have hsees := h.dispatcher
  rw [Starting]
  generalize s.dispatcher = pc at hsees
  rintro (hentry | hentry)
  · cases pc <;> simp only [DispatcherPc.booked?, Option.some.injEq, Entry.taken.injEq,
      reduceCtorEq] at hentry
    subst hentry
    exact hsees.2.2 (Store.mem_of_state hstate)
  · cases pc <;> simp only [DispatcherPc.booked?, Option.some.injEq, Entry.grouped.injEq,
      reduceCtorEq] at hentry
    subst hentry
    have hnone : s.state _ = none := hsees.2.2.1
    rw [hnone] at hstate
    contradiction

/-- No agent goes back in its life. -/
theorem Inv.phase_step (h : Inv opts s) (hstep : System.step opts s a = some s') (k : TicketId) :
    s.phase k ≤ s'.phase k := by
  obtain ⟨hnext, hstarting⟩ := starting_step (k := k) hstep
  -- a ticket that is not being recorded, and will not be any more
  have hover : ¬ Starting k s → k < s.store.nextTicket → s'.state k = none → s'.phase k = 6 := by
    intro hnot hlt hnone
    have hnot' : ¬ Starting k s' := fun hstarts => (hstarting hstarts).elim hnot hlt.not_ge
    rw [phase, hnone]
    exact if_pos ⟨hlt.trans_le hnext, hnot'⟩
  cases hstate : s.state k with
  | none =>
      by_cases hdone : k < s.store.nextTicket ∧ ¬ Starting k s
      · have hnone : s'.state k = none := by
          by_contra hsome
          exact hdone.2 (.inr (h.starts hstep hstate hsome))
        rw [hover hdone.2 hdone.1 hnone, phase, hstate]
        exact (if_pos hdone).le
      · rw [phase, hstate]
        exact (if_neg hdone).trans_le (Nat.zero_le _)
  | some state =>
      have hmoves := h.moves hstep k
      rw [hstate] at hmoves
      have hphase : s.phase k = state.phase := by rw [phase, hstate]
      rw [hphase]
      cases hstate' : s'.state k with
      | none =>
          have hlt : k < s.store.nextTicket := h.fresh k (Store.mem_of_state hstate)
          rw [hover (h.not_starting hstate) hlt hstate']
          cases state <;> decide
      | some state' =>
          have hphase' : s'.phase k = state'.phase := by rw [phase, hstate']
          rw [hstate'] at hmoves
          rw [hphase']
          cases hmoves <;> simp [AgentState.phase]

/-! ## Runs -/

/-- In every run, with any workers, failing hooks and restarts, what is done for one agent comes in
the order of its life: first {lit}`cmd_take`, then {lit}`cmd_is_finished` and
{lit}`cmd_try_release`, then {lit}`cmd_terminate`, and after its ticket is closed nothing but
closing it again. -/
theorem calls_in_order (hrun : Path (System.step opts) anyStep {} as s) (k : TicketId) :
    (observe (call? k) (System.step opts) {} as).Pairwise fun call later =>
      call.rank ≤ later.rank := by
  have hordered := hrun.observe_phases (call? k) (P := Inv opts) (phase k) Call.rank
    (inv_initial opts) fun u a v hinv _ hstep => by
      refine ⟨hinv.step hstep, hinv.phase_step hstep k, fun call hcall => ?_⟩
      obtain ⟨state, hstate, hrank⟩ := hinv.call_state hcall
      have hphase : u.phase k = call.rank := by rw [phase, hstate, ← hrank]
      exact ⟨hphase.le, hphase ▸ hinv.phase_step hstep k⟩
  exact hordered.2.1

/-- The calls for an agent that is prepared, finishes and is cleaned up. -/
theorem calls_in_order_agent :
    (observe (call? 1) (System.step workersOpts) {} (startAgent ++ finishAgent)).Pairwise
      fun call later => call.rank ≤ later.rank := by
  have hstart : Path (System.step workersOpts) anyStep {} startAgent agentWorking :=
    Path.of_execWithin (Option.some_get _).symm
  have hfinish : Path (System.step workersOpts) anyStep agentWorking finishAgent agentEnded :=
    Path.of_execWithin (Option.some_get _).symm
  exact calls_in_order (hstart.append hfinish) 1

end System

end Resalloc.Spawner
