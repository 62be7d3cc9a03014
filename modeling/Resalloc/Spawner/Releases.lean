import Resalloc.Foundations.Quota
import Resalloc.Spawner.Lifecycle

/-!
# Releasing agents of several groups

One pass of {lit}`converge` handles the groups one after another, and {lit}`try_to_stop`
lists the WORKING agents of all of them.  It skips an agent whose output is empty, and
runs the hook of the group it is called for on every other one.

Main results:

- Definitions {lit}`Answers` and {lit}`Converging.step`: a pass of {lit}`converge`.
- Definition {lit}`StaysWithin`: the pass keeps to the groups that are too large.
- Theorem {lit}`converge_staysWithin_iff`: when it does.
- Theorem {lit}`converge_leaves_group`: a pass that stops an agent of another group.
-/

namespace Resalloc.Spawner

open Foundations

/-! ## A pass -/

/-- What the hooks and the resalloc server answer in one pass of {lit}`converge`. -/
structure Answers where
  /-- The result of {lit}`cmd_converge_to` of a group. -/
  convergeTo : String → Option Int
  /-- What {lit}`try_to_stop` of a group is told about a ticket. -/
  collected : String → TicketId → Collected
  /-- The exit status of {lit}`cmd_try_release` of a group for an agent. -/
  tryRelease : String → TicketId → Int

namespace Answers

variable (answers : Answers) (groupId : String) (k : TicketId)

/-- {lit}`try_to_stop` runs the hook of a group on an agent with such an output. -/
def tries : Bool :=
  match (answers.collected groupId k).ticketData with
  | none => false
  | some data => data ≠ ""

/-- The hook of a group succeeds for an agent. -/
def succeeds : Bool := answers.tryRelease groupId k = 0

end Answers

/-- The dispatcher while no other party moves. -/
abbrev Converging := Store × DispatcherPc

/-- Its next step. -/
def Converging.step (opts : Opts) (s : Converging) (i : Input) : Option Converging :=
  s.2.step opts i s.1

/-- The input of a step with these answers. -/
def Answers.input (answers : Answers) (pc : DispatcherPc) (i : Input) : Input :=
  match pc with
  | .converge group _ => { i with convergeTo := answers.convergeTo group.id }
  | .tryRelease k _ v =>
      { i with
        collected := answers.collected v.groupId k
        status := answers.tryRelease v.groupId k }
  | _ => i

/-- A step of the pass, which ends before the tasks are listed.  The hooks and the server
answer so. -/
def Answered (answers : Answers) (s : Converging) (i : Input) : Prop :=
  s.2 ≠ .keys .tasks ∧ answers.input s.2 i = i

instance (answers : Answers) (s : Converging) (i : Input) : Decidable (Answered answers s i) :=
  inferInstanceAs (Decidable (_ ∧ _))

/-- The WORKING agents that {lit}`try_to_stop` has listed for a group. -/
structure Listing where
  groupId : String
  toStop : Int
  agents : List TicketId
deriving DecidableEq

/-- What a pass shows. -/
inductive Event
  /-- {lit}`try_to_stop` lists the agents. -/
  | listed (l : Listing)
  /-- The {lit}`cmd_try_release` hook of a group is run on an agent. -/
  | hook (groupId : String) (ticketId : TicketId)
deriving DecidableEq

/-- What a step shows. -/
def event? : Converging → Input → Option Event
  | (st, .keys (.tryToStop v)), i => some (.listed
      { groupId := v.groupId
        toStop := v.toStop
        agents := i.keys.filter fun k => (st.redis.read k).state = some .working })
  | (_, .tryRelease k _ v), i =>
      match i.collected.ticketData with
      | none => none
      | some data => if data = "" then none else some (.hook v.groupId k)
  | _, _ => none

/-- What a pass shows. -/
def events (opts : Opts) (st : Store) (is : List Input) : List Event :=
  observe event? (Converging.step opts) (st, .agentCounts) is

/-! ## The agents of a listing -/

section Listings

variable (answers : Answers)

/-- The listed agents that the hook may be run on, in their order. -/
def Listing.candidates (l : Listing) : List TicketId :=
  l.agents.filter (answers.tries l.groupId)

/-- The agents that the hook is run on. -/
def Listing.asked (l : Listing) : List TicketId :=
  untilQuota (answers.succeeds l.groupId) l.toStop.toNat (l.candidates answers)

/-- The agents that are stopped. -/
def Listing.released (l : Listing) : List TicketId :=
  (l.asked answers).filter (answers.succeeds l.groupId)

end Listings

/-! ## The loops of a pass -/

variable {opts : Opts} {answers : Answers} {st st' : Store} {is : List Input}

/-- A pass ends in a store, and shows this until then. -/
def Ends (opts : Opts) (answers : Answers) (s : Converging) (evs : List Event) (st' : Store) :
    Prop :=
  ∃ is, Path (Converging.step opts) (Answered answers) s is (st', .keys .tasks) ∧
    observe event? (Converging.step opts) s is = evs

variable {evs : List Event}

/-- A pass that has not ended goes on. -/
theorem Ends.next {pc : DispatcherPc} (h : Ends opts answers (st, pc) evs st')
    (hpc : pc ≠ .keys .tasks) :
    ∃ i u evs', answers.input pc i = i ∧ pc.step opts i st = some u ∧
      evs = (event? (st, pc) i).toList ++ evs' ∧ Ends opts answers u evs' st' := by
  obtain ⟨is, hrun, rfl⟩ := h
  cases is with
  | nil => exact absurd (Prod.mk.inj hrun.nil_inv).2.symm hpc
  | cons i is =>
      obtain ⟨u, hok, hstep, hrest⟩ := hrun.cons_inv
      refine ⟨i, u, _, hok.2, hstep, ?_, is, hrest, rfl⟩
      rw [observe, hstep]

/-- The pass ends where the tasks are listed. -/
theorem Ends.tasks (h : Ends opts answers (st, .keys .tasks) evs st') : st' = st ∧ evs = [] := by
  obtain ⟨is, hrun, rfl⟩ := h
  cases is with
  | nil => exact ⟨(Prod.mk.inj hrun.nil_inv).1, rfl⟩
  | cons i is =>
      obtain ⟨u, hok, -, -⟩ := hrun.cons_inv
      exact absurd rfl hok.1

/-- A dispatcher that has died does not end the pass. -/
theorem not_ends_stopped {e : PyError} : ¬ Ends opts answers (st, .stopped e) evs st' := by
  rintro ⟨is, hrun, -⟩
  have hdead : (DispatcherPc.keys .tasks : DispatcherPc) = .stopped e := by
    refine hrun.invariant (P := fun s => s.2 = .stopped e) rfl fun s i u hs _ hstep => ?_
    obtain ⟨store, pc⟩ := s
    obtain rfl : pc = .stopped e := hs
    obtain rfl := Option.some.inj hstep
    rfl
  contradiction

/-- The WORKING agents among some tickets. -/
def Store.working (st : Store) (tids : List TicketId) : List TicketId :=
  tids.filter fun k => (st.redis.read k).state = some .working

/-- {lit}`get_tickets` lists the WORKING agents. -/
theorem Ends.filter {v : Stopping} {tids output : List TicketId}
    (h : Ends opts answers (st, .nextFilter (.tryToStop v) output tids) evs st') :
    Ends opts answers (st, .nextStop v (output ++ st.working tids)) evs st' := by
  induction tids generalizing output evs with
  | nil =>
      rw [Store.working, List.filter_nil, List.append_nil]
      exact h
  | cons k tids ih =>
      rw [DispatcherPc.nextFilter] at h
      obtain ⟨i, u, evs', -, hstep, rfl, hrest⟩ := h.next (by simp)
      simp only [DispatcherPc.step] at hstep
      cases hstate : (st.redis.read k).state with
      | none =>
          rw [hstate] at hstep
          obtain rfl := Option.some.inj hstep
          exact absurd hrest not_ends_stopped
      | some state =>
          have hexcludes : (Caller.tryToStop v).states.excludes (some state) =
              .ok (state ≠ .working) := States.excludes_text state .working
          rw [hstate, hexcludes] at hstep
          by_cases hworking : state = .working
          · obtain rfl := Option.some.inj (by simpa [hworking] using hstep)
            simpa [Store.working, hstate, hworking] using ih hrest
          · obtain rfl := Option.some.inj (by simpa [hworking] using hstep)
            simpa [Store.working, hstate, hworking] using ih hrest

/-- Switch agents to TERMINATING. -/
def Store.stopAll (st : Store) (tids : List TicketId) : Store :=
  tids.foldl (fun st k => st.setState k .terminating) st

/-- An agent without output is skipped. -/
theorem Ends.skip {v : Stopping} {k : TicketId} {tids : List TicketId}
    (h : Ends opts answers (st, .tryRelease k tids v) evs st')
    (htries : answers.tries v.groupId k = false) :
    Ends opts answers (st, .nextStop v tids) evs st' := by
  obtain ⟨i, u, evs', hanswer, hstep, rfl, hrest⟩ := h.next (by simp)
  have hcollected : i.collected = answers.collected v.groupId k := by
    rw [← hanswer]
    rfl
  rw [Answers.tries, ← hcollected] at htries
  simp only [DispatcherPc.step, event?] at hstep ⊢
  cases hdata : i.collected.ticketData with
  | none =>
      rw [hdata] at hstep
      obtain rfl := Option.some.inj hstep
      exact hrest
  | some data =>
      obtain rfl : data = "" := by simpa [hdata] using htries
      rw [hdata] at hstep
      obtain rfl := Option.some.inj hstep
      exact hrest

/-- The hook is run on an agent with output, which is stopped if the hook succeeds. -/
theorem Ends.try {v : Stopping} {k : TicketId} {tids : List TicketId}
    (h : Ends opts answers (st, .tryRelease k tids v) evs st')
    (htries : answers.tries v.groupId k = true) :
    ∃ evs', evs = .hook v.groupId k :: evs' ∧
      Ends opts answers
        (if answers.succeeds v.groupId k then
          (st.setState k .terminating, .nextStop { v with stopped := v.stopped + 1 } tids)
        else (st, .nextStop v tids)) evs' st' := by
  obtain ⟨i, u, evs', hanswer, hstep, rfl, hrest⟩ := h.next (by simp)
  have hcollected : i.collected = answers.collected v.groupId k := by
    rw [← hanswer]
    rfl
  have hstatus : i.status = answers.tryRelease v.groupId k := by
    rw [← hanswer]
    rfl
  rw [Answers.tries, ← hcollected] at htries
  simp only [DispatcherPc.step, event?, hstatus] at hstep ⊢
  cases hdata : i.collected.ticketData with
  | none => simp [hdata] at htries
  | some data =>
      have hempty : data ≠ "" := by simpa [hdata] using htries
      simp only [hdata, if_neg hempty] at hstep ⊢
      refine ⟨evs', rfl, ?_⟩
      by_cases hfails : answers.tryRelease v.groupId k = 0
      · rw [if_neg (not_not.mpr hfails)] at hstep
        obtain rfl := Option.some.inj hstep
        obtain ⟨i, u, evs'', -, hstep, rfl, hrest⟩ := hrest.next (by simp)
        obtain rfl := Option.some.inj hstep
        simpa [Answers.succeeds, hfails] using hrest
      · rw [if_pos hfails] at hstep
        obtain rfl := Option.some.inj hstep
        simpa [Answers.succeeds, hfails] using hrest

/-- {lit}`try_to_stop` runs the hook until enough agents are stopped. -/
theorem Ends.stop {v : Stopping} {tids : List TicketId}
    (h : Ends opts answers (st, .nextStop v tids) evs st') :
    let asked := untilQuota (answers.succeeds v.groupId) (v.toStop - v.stopped).toNat
      (tids.filter (answers.tries v.groupId))
    ∃ evs', evs = asked.map (Event.hook v.groupId) ++ evs' ∧
      Ends opts answers (st.stopAll (asked.filter (answers.succeeds v.groupId)),
        .nextGroup v.converge.currentAgents v.converge.rest) evs' st' := by
  induction tids generalizing v st evs with
  | nil =>
      cases (v.toStop - v.stopped).toNat <;> exact ⟨evs, rfl, h⟩
  | cons k tids ih =>
      by_cases hstopped : v.toStop ≤ v.stopped
      · have hzero : (v.toStop - v.stopped).toNat = 0 := by omega
        rw [DispatcherPc.nextStop, if_pos hstopped] at h
        rw [hzero, untilQuota_zero]
        exact ⟨evs, rfl, h⟩
      · rw [DispatcherPc.nextStop, if_neg hstopped] at h
        cases htries : answers.tries v.groupId k with
        | false =>
            rw [List.filter_cons_of_neg (by simp [htries])]
            exact ih (h.skip htries)
        | true =>
            obtain ⟨quota, hquota⟩ : ∃ quota, (v.toStop - v.stopped).toNat = quota + 1 :=
              ⟨(v.toStop - v.stopped).toNat - 1, by omega⟩
            obtain ⟨evs', rfl, hrest⟩ := h.try htries
            rw [List.filter_cons_of_pos htries, hquota, untilQuota]
            cases hsucceeds : answers.succeeds v.groupId k with
            | true =>
                rw [hsucceeds, if_pos rfl] at hrest
                obtain ⟨evs'', rfl, hend⟩ := ih hrest
                have hless : (v.toStop - (v.stopped + 1)).toNat = quota := by omega
                rw [hless] at hend ⊢
                refine ⟨evs'', rfl, ?_⟩
                simpa [hsucceeds, Store.stopAll] using hend
            | false =>
                rw [hsucceeds] at hrest
                obtain ⟨evs'', rfl, hend⟩ := ih hrest
                rw [hquota] at hend ⊢
                refine ⟨evs'', rfl, ?_⟩
                simpa [hsucceeds] using hend

/-- The same agents are in each state after NEW. -/
def Store.SameRunning (st st' : Store) : Prop :=
  ∀ k state, state ≠ AgentState.new →
    ((st'.redis.read k).state = some state ↔ (st.redis.read k).state = some state)

/-- Recorded tickets have been taken before. -/
def Store.Fresh (st : Store) : Prop := ∀ k ∈ st.redis.keys, k < st.nextTicket

instance (st : Store) : Decidable st.Fresh :=
  inferInstanceAs (Decidable (∀ k ∈ st.redis.keys, k < st.nextTicket))

/-- New agents are recorded for new tickets. -/
theorem Ends.new {group : AgentGroup} {c : Converge} {todo : ℕ}
    (h : Ends opts answers (st, .nextNew group c todo) evs st') (hfresh : st.Fresh) :
    ∃ st₁, st₁.Fresh ∧ st.SameRunning st₁ ∧
      Ends opts answers (st₁, .nextGroup c.currentAgents c.rest) evs st' := by
  induction todo generalizing st evs with
  | zero => exact ⟨st, hfresh, fun _ _ _ => Iff.rfl, h⟩
  | succ todo ih =>
      obtain ⟨i, u, evs₁, -, hstep, rfl, hrest⟩ := h.next (by simp [DispatcherPc.nextNew])
      simp only [DispatcherPc.nextNew, DispatcherPc.step] at hstep
      split_ifs at hstep
      obtain rfl := Option.some.inj hstep
      obtain ⟨_, u, evs₂, -, hstep, rfl, hrest⟩ := hrest.next (by simp)
      obtain rfl := Option.some.inj hstep
      obtain ⟨_, u, evs₃, -, hstep, rfl, hrest⟩ := hrest.next (by simp)
      obtain rfl := Option.some.inj hstep
      have hnew : st.nextTicket + i.skipped ∉ st.redis := fun hk =>
        (Nat.le_add_right _ _).not_gt (hfresh _ hk)
      obtain ⟨st₁, hfresh₁, hsame, hend⟩ := ih hrest (by
        intro k hk
        apply Nat.lt_succ_of_le
        obtain rfl | hk := HashStore.mem_write.mp hk
        · exact le_refl _
        obtain rfl | hk := HashStore.mem_write.mp hk
        · exact le_refl _
        · exact (hfresh k hk).le.trans (Nat.le_add_right _ _))
      refine ⟨st₁, hfresh₁, fun k state hstate => (hsame k state hstate).trans ?_, hend⟩
      rw [Store.read_setState]
      split_ifs with hk
      · rw [hk, HashStore.read_of_notMem hnew]
        simp [Ne.symm hstate]
      · rw [Store.setGroup, HashStore.read_write, if_neg hk]

/-- The agents after some of them are switched. -/
theorem Store.state_stopAll (st : Store) (tids : List TicketId) (k : TicketId) :
    ((st.stopAll tids).redis.read k).state =
      if k ∈ tids then some .terminating else (st.redis.read k).state := by
  induction tids generalizing st with
  | nil => simp [Store.stopAll]
  | cons j tids ih =>
      rw [Store.stopAll, List.foldl_cons]
      have hrest := ih (st.setState j .terminating)
      rw [Store.stopAll] at hrest
      rw [hrest, Store.read_setState]
      by_cases hk : k = j
      · simp [hk]
      · simp [hk]

/-- Recorded agents are switched. -/
theorem Store.Fresh.stopAll {tids : List TicketId} (h : st.Fresh)
    (hmem : ∀ k ∈ tids, k ∈ st.redis) : (st.stopAll tids).Fresh := by
  induction tids generalizing st with
  | nil => exact h
  | cons j tids ih =>
      have hfresh : (st.setState j .terminating).Fresh := by
        intro k hk
        obtain rfl | hk := HashStore.mem_write.mp hk
        · exact h _ (hmem _ List.mem_cons_self)
        · exact h k hk
      apply ih hfresh
      intro k hk
      exact HashStore.mem_write.mpr (.inr (hmem k (List.mem_cons_of_mem _ hk)))

/-! ## The groups of a pass -/

/-- A listing of the WORKING agents of all groups, for a group with too many agents. -/
structure Listing.Of (counts : Counts) (st : Store) (group : AgentGroup) (ideal : Int)
    (l : Listing) : Prop where
  groupId : l.groupId = group.id
  toStop : l.toStop = Counts.get (some group.id) counts - ideal
  agents : ∃ keys : List TicketId, keys.Perm st.redis.keys ∧ l.agents = st.working keys

/-- What {lit}`converge` does group by group, with the listings of {lit}`try_to_stop`. -/
inductive Releases (answers : Answers) (counts : Counts) :
    List AgentGroup → Store → List Listing → Store → Prop
  | nil (st : Store) : Releases answers counts [] st [] st
  | keep {group groups st st₁ ls st'} :
      (∀ ideal, answers.convergeTo group.id = some ideal →
        (Counts.get (some group.id) counts : Int) ≤ ideal) →
      st.SameRunning st₁ → Releases answers counts groups st₁ ls st' →
      Releases answers counts (group :: groups) st ls st'
  | shrink {group groups st st' ideal l ls} :
      answers.convergeTo group.id = some ideal → ideal < Counts.get (some group.id) counts →
      l.Of counts st group ideal →
      Releases answers counts groups (st.stopAll (l.released answers)) ls st' →
      Releases answers counts (group :: groups) st (l :: ls) st'

/-- What {lit}`try_to_stop` shows. -/
def Listing.events (answers : Answers) (l : Listing) : List Event :=
  .listed l :: (l.asked answers).map (.hook l.groupId)

/-- Listed agents are recorded and WORKING. -/
theorem Listing.Of.mem_agents {counts : Counts} {group : AgentGroup} {ideal : Int}
    {l : Listing} (h : l.Of counts st group ideal) {k : TicketId} :
    k ∈ l.agents ↔ (st.redis.read k).state = some .working := by
  obtain ⟨keys, hkeys, hagents⟩ := h.agents
  rw [hagents, Store.working, List.mem_filter, decide_eq_true_eq, and_iff_right_iff_imp]
  exact fun hworking => hkeys.mem_iff.mpr (Store.mem_of_state hworking)

/-- Stopped agents are listed. -/
theorem Listing.mem_of_released {l : Listing} {k : TicketId} (h : k ∈ l.released answers) :
    k ∈ l.agents := by
  have hasked : k ∈ l.asked answers := List.mem_of_mem_filter h
  exact List.mem_of_mem_filter ((untilQuota_sublist _ _).subset hasked)

/-- The pass goes group by group. -/
theorem Ends.releases {counts : Counts} {groups : List AgentGroup}
    (h : Ends opts answers (st, .nextGroup counts groups) evs st') (hfresh : st.Fresh) :
    ∃ ls, Releases answers counts groups st ls st' ∧ evs = ls.flatMap (·.events answers) := by
  induction groups generalizing st evs with
  | nil =>
      obtain ⟨rfl, rfl⟩ := h.tasks
      exact ⟨[], .nil _, rfl⟩
  | cons group groups ih =>
      rw [DispatcherPc.nextGroup] at h
      obtain ⟨i, u, evs', hanswer, hstep, rfl, hrest⟩ := h.next (by simp)
      have hideal : i.convergeTo = answers.convergeTo group.id := by
        rw [← hanswer]
        rfl
      simp only [DispatcherPc.step, hideal] at hstep
      cases hconverge : answers.convergeTo group.id with
      | none =>
          rw [hconverge] at hstep
          obtain rfl := Option.some.inj hstep
          obtain ⟨ls, hreleases, hevs⟩ := ih hrest hfresh
          exact ⟨ls, .keep (by simp [hconverge]) (fun _ _ _ => Iff.rfl) hreleases, hevs⟩
      | some ideal =>
          simp only [hconverge] at hstep
          split_ifs at hstep with hgrow hshrink
          · obtain rfl := Option.some.inj hstep
            obtain ⟨st₁, hfresh₁, hsame, hend⟩ := hrest.new hfresh
            obtain ⟨ls, hreleases, hevs⟩ := ih hend hfresh₁
            refine ⟨ls, .keep (fun n hn => ?_) hsame hreleases, hevs⟩
            obtain rfl := Option.some.inj (hconverge.symm.trans hn)
            exact hgrow.le
          · obtain rfl := Option.some.inj hstep
            obtain ⟨j, u, evs₁, -, hstep, rfl, hrest⟩ := hrest.next (by simp)
            simp only [DispatcherPc.step] at hstep
            split_ifs at hstep with hkeys
            obtain rfl := Option.some.inj hstep
            obtain ⟨evs₂, rfl, hend⟩ := hrest.filter.stop
            let l : Listing :=
              { groupId := group.id
                toStop := Counts.get (some group.id) counts - ideal
                agents := st.working j.keys }
            have hl : l.Of counts st group ideal := ⟨rfl, rfl, j.keys, hkeys, rfl⟩
            have hrecorded : ∀ k ∈ l.released answers, k ∈ st.redis := fun k hk =>
              Store.mem_of_state (hl.mem_agents.mp (Listing.mem_of_released hk))
            rw [List.nil_append, sub_zero] at hend
            obtain ⟨ls, hreleases, rfl⟩ := ih hend (hfresh.stopAll hrecorded)
            refine ⟨l :: ls, .shrink hconverge hshrink hl hreleases, ?_⟩
            rw [List.nil_append, sub_zero]
            rfl
          · obtain rfl := Option.some.inj hstep
            obtain ⟨ls, hreleases, hevs⟩ := ih hrest hfresh
            refine ⟨ls, .keep (fun n hn => ?_) (fun _ _ _ => Iff.rfl) hreleases, hevs⟩
            obtain rfl := Option.some.inj (hconverge.symm.trans hn)
            exact not_lt.mp hshrink

section Facts

variable {counts : Counts} {groups : List AgentGroup} {ls : List Listing} {l : Listing}

/-- Agents are listed once for a group at most. -/
theorem Releases.groupIds (h : Releases answers counts groups st ls st') :
    (ls.map Listing.groupId).Sublist (groups.map AgentGroup.id) := by
  induction h with
  | nil => exact List.Sublist.refl _
  | keep _ _ _ ih => exact ih.cons _
  | shrink _ _ hl _ ih =>
      rw [List.map_cons, List.map_cons, hl.groupId]
      exact ih.cons_cons _

/-- Agents are listed for a group that has more of them than it should have. -/
theorem Releases.of_mem (h : Releases answers counts groups st ls st') (hl : l ∈ ls) :
    ∃ group ∈ groups, ∃ ideal, answers.convergeTo group.id = some ideal ∧
      ideal < Counts.get (some group.id) counts ∧ l.groupId = group.id ∧
      l.toStop = Counts.get (some group.id) counts - ideal := by
  induction h with
  | nil => contradiction
  | keep _ _ _ ih =>
      obtain ⟨group, hgroup, hrest⟩ := ih hl
      exact ⟨group, List.mem_cons_of_mem _ hgroup, hrest⟩
  | @shrink group' _ _ _ ideal _ _ hconverge habove hof _ ih =>
      obtain rfl | hl := List.mem_cons.mp hl
      · exact ⟨group', List.mem_cons_self, ideal, hconverge, habove, hof.groupId, hof.toStop⟩
      · obtain ⟨group, hgroup, hrest⟩ := ih hl
        exact ⟨group, List.mem_cons_of_mem _ hgroup, hrest⟩

/-- Agents are listed for every such group. -/
theorem Releases.exists_listing (h : Releases answers counts groups st ls st')
    {group : AgentGroup} {ideal : Int} (hgroup : group ∈ groups)
    (hconverge : answers.convergeTo group.id = some ideal)
    (habove : ideal < Counts.get (some group.id) counts) :
    ∃ l ∈ ls, l.groupId = group.id ∧ l.toStop = Counts.get (some group.id) counts - ideal := by
  induction h with
  | nil => contradiction
  | keep hkeep _ _ ih =>
      obtain rfl | hgroup := List.mem_cons.mp hgroup
      · exact absurd habove (not_lt.mpr (hkeep ideal hconverge))
      · exact ih hgroup
  | @shrink group' _ _ _ ideal' l _ hconverge' _ hof _ ih =>
      obtain rfl | hgroup := List.mem_cons.mp hgroup
      · obtain rfl := Option.some.inj (hconverge.symm.trans hconverge')
        exact ⟨l, List.mem_cons_self, hof.groupId, hof.toStop⟩
      · obtain ⟨l', hl', hrest⟩ := ih hgroup
        exact ⟨l', List.mem_cons_of_mem _ hl', hrest⟩

/-- Different agents are listed, which were WORKING before the pass. -/
theorem Releases.listed (h : Releases answers counts groups st ls st') (hl : l ∈ ls) :
    st.Listed .working l.agents := by
  induction h with
  | nil => contradiction
  | keep _ hsame _ ih =>
      constructor
      · exact (ih hl).nodup
      · intro k hk
        exact (hsame k _ (by simp)).mp ((ih hl).state k hk)
  | shrink _ _ hof _ ih =>
      obtain rfl | hl := List.mem_cons.mp hl
      · constructor
        · obtain ⟨keys, hkeys, hagents⟩ := hof.agents
          rw [hagents]
          exact (hkeys.nodup_iff.mpr (AList.keys_nodup _)).filter _
        · exact fun k hk => hof.mem_agents.mp hk
      · constructor
        · exact (ih hl).nodup
        · intro k hk
          have hworking := (ih hl).state k hk
          rw [Store.state_stopAll] at hworking
          split_ifs at hworking with hstopped
          · contradiction
          · exact hworking

/-- An agent that was WORKING before the pass is listed, or was stopped before. -/
theorem Releases.mem_agents_or (h : Releases answers counts groups st ls st') (hl : l ∈ ls)
    {k : TicketId} (hk : (st.redis.read k).state = some .working) :
    k ∈ l.agents ∨ ∃ l' ∈ ls, k ∈ l'.released answers := by
  induction h with
  | nil => contradiction
  | keep _ hsame _ ih => exact ih hl ((hsame k _ (by simp)).mpr hk)
  | @shrink _ _ _ _ _ l' _ _ _ hof _ ih =>
      obtain rfl | hl := List.mem_cons.mp hl
      · exact .inl (hof.mem_agents.mpr hk)
      · by_cases hstopped : k ∈ l'.released answers
        · exact .inr ⟨l', List.mem_cons_self, hstopped⟩
        · obtain hlisted | ⟨l'', hl'', hreleased⟩ :=
            ih hl (by rw [Store.state_stopAll, if_neg hstopped, hk])
          · exact .inl hlisted
          · exact .inr ⟨l'', List.mem_cons_of_mem _ hl'', hreleased⟩

/-- Who is TERMINATING after the pass. -/
theorem Releases.terminating_iff (h : Releases answers counts groups st ls st') (k : TicketId) :
    (st'.redis.read k).state = some .terminating ↔
      (st.redis.read k).state = some .terminating ∨ ∃ l ∈ ls, k ∈ l.released answers := by
  induction h with
  | nil => simp
  | keep _ hsame _ ih => rw [ih, hsame k _ (by simp)]
  | @shrink _ _ _ _ _ l _ _ _ _ _ ih =>
      rw [ih, Store.state_stopAll]
      by_cases hstopped : k ∈ l.released answers
      · simp [hstopped]
      · simp [hstopped]

end Facts

/-- {lit}`agent_counts` counts the agents of every group. -/
theorem Ends.count {counts : Counts} {tids : List TicketId}
    (h : Ends opts answers (st, .nextCount opts counts tids) evs st') :
    ∃ counts', (∀ groupId, Counts.get (some groupId) counts' =
        Counts.get (some groupId) counts +
          tids.countP fun k => (st.redis.read k).isMember groupId) ∧
      Ends opts answers (st, .nextGroup counts' opts.agentGroups) evs st' := by
  induction tids generalizing counts evs with
  | nil => exact ⟨counts, fun _ => rfl, h⟩
  | cons k tids ih =>
      obtain ⟨i, u, evs₁, -, hstep, rfl, hrest⟩ := h.next (by simp [DispatcherPc.nextCount])
      obtain rfl := Option.some.inj hstep
      obtain ⟨counts', hcounts, hend⟩ := ih hrest
      refine ⟨counts', fun groupId => ?_, hend⟩
      rw [hcounts, Counts.get_add, List.countP_cons]
      simp only [Agent.isMember, decide_eq_true_eq]
      split_ifs <;> omega

/-- A pass counts the agents first. -/
theorem Ends.agentCounts (h : Ends opts answers (st, .agentCounts) evs st') :
    ∃ counts, (∀ groupId, Counts.get (some groupId) counts = st.members groupId) ∧
      Ends opts answers (st, .nextGroup counts opts.agentGroups) evs st' := by
  obtain ⟨i, u, evs₁, -, hstep, rfl, hrest⟩ := h.next (by simp)
  simp only [DispatcherPc.step] at hstep
  split_ifs at hstep with hkeys
  obtain rfl := Option.some.inj hstep
  obtain ⟨counts, hcounts, hend⟩ := hrest.count
  refine ⟨counts, fun groupId => ?_, hend⟩
  rw [hcounts, Counts.get, Nat.zero_add]
  exact hkeys.countP_eq _

/-! ## Keeping to the groups -/

/-- The resource of an agent has data. -/
def Answers.available (answers : Answers) (groupId : String) (k : TicketId) : Bool :=
  (answers.collected groupId k).ticketData ≠ none

/-- A pass has switched an agent to TERMINATING. -/
def Store.stopped (st st' : Store) (k : TicketId) : Bool :=
  (st.redis.read k).state ≠ some .terminating ∧ (st'.redis.read k).state = some .terminating

/-- An agent belongs to a group. -/
def Store.isOwn (st : Store) (groupId : String) (k : TicketId) : Bool :=
  (st.redis.read k).isMember groupId

/-- A WORKING agent that the group may release. -/
def Store.releasable (st : Store) (answers : Answers) (groupId : String) (k : TicketId) : Bool :=
  (st.redis.read k).state = some .working ∧ st.isOwn groupId k ∧
    answers.available groupId k ∧ answers.succeeds groupId k

/-- The pass keeps to the groups that have more agents than they should have. -/
structure StaysWithin (opts : Opts) (answers : Answers) (st : Store) (evs : List Event)
    (st' : Store) : Prop where
  /-- Only agents of such groups are stopped. -/
  moved : ∀ k, st.stopped st' k = true → ∃ group ∈ opts.agentGroups, ∃ ideal,
    answers.convergeTo group.id = some ideal ∧ ideal < st.members group.id ∧
      st.isOwn group.id k = true
  /-- As many of them are stopped as there are too many, if they can be released. -/
  number : ∀ group ∈ opts.agentGroups, ∀ ideal, answers.convergeTo group.id = some ideal →
    ideal < st.members group.id →
      ((st.redis.keys.countP fun k => st.isOwn group.id k && st.stopped st' k : ℕ) : Int) =
        min (st.members group.id - ideal)
          (st.redis.keys.countP (st.releasable answers group.id) : ℕ)
  /-- The hooks of a group are run on its agents only. -/
  hooks : ∀ groupId k, Event.hook groupId k ∈ evs → st.isOwn groupId k = true

/-- The listed agents suit the group they are listed for. -/
structure Listing.Suits (answers : Answers) (st : Store) (l : Listing) : Prop where
  /-- Every agent of another group that has output comes after enough agents of the group
  that have output and can be released. -/
  own : ∀ before k after, l.candidates answers = before ++ k :: after →
    st.isOwn l.groupId k = false →
      l.toStop ≤ (before.countP fun j => st.isOwn l.groupId j && answers.succeeds l.groupId j : ℕ)
  /-- There are enough such agents, or none with the empty output can be released. -/
  output : l.toStop ≤ ((l.candidates answers).countP fun k =>
      st.isOwn l.groupId k && answers.succeeds l.groupId k : ℕ) ∨
    ∀ k ∈ l.agents, st.isOwn l.groupId k = true →
      (answers.collected l.groupId k).ticketData = some "" → answers.succeeds l.groupId k = false

section Suits

variable {l : Listing}

/-- The hook is run on agents of the group only. -/
theorem Listing.asked_own_iff : (∀ k ∈ l.asked answers, st.isOwn l.groupId k = true) ↔
    ∀ before k after, l.candidates answers = before ++ k :: after →
      st.isOwn l.groupId k = false →
        l.toStop ≤ (before.countP fun j =>
          st.isOwn l.groupId j && answers.succeeds l.groupId j : ℕ) := by
  rw [Listing.asked, forall_mem_untilQuota_iff]
  simp only [Int.toNat_le]

/-- How many agents are stopped for a group whose hook is run on its agents only. -/
theorem Listing.length_released (h : ∀ k ∈ l.asked answers, st.isOwn l.groupId k = true) :
    (l.released answers).length = min l.toStop.toNat ((l.candidates answers).countP fun k =>
      st.isOwn l.groupId k && answers.succeeds l.groupId k) := by
  rw [Listing.released, Listing.asked, filter_untilQuota, List.length_take,
    ← List.countP_eq_length_filter]
  exact min_countP_of_forall_mem h

/-- The agents of the group that have output, and those that have the empty output. -/
theorem Listing.countP_available : (l.agents.countP fun k => st.isOwn l.groupId k &&
      (answers.available l.groupId k && answers.succeeds l.groupId k)) =
    ((l.candidates answers).countP fun k =>
      st.isOwn l.groupId k && answers.succeeds l.groupId k) +
    l.agents.countP fun k => st.isOwn l.groupId k &&
      ((answers.collected l.groupId k).ticketData = some "" && answers.succeeds l.groupId k) := by
  rw [Listing.candidates, List.countP_filter]
  induction l.agents with
  | nil => rfl
  | cons k tids ih =>
      simp only [List.countP_cons, ih]
      cases hdata : (answers.collected l.groupId k).ticketData with
      | none => simp [Answers.available, Answers.tries, hdata]
      | some data =>
          simp only [Answers.available, Answers.tries, hdata]
          by_cases hempty : data = ""
          · simp [hempty]
            omega
          · simp [hempty]
            omega

end Suits

section Own

variable {counts : Counts} {groups : List AgentGroup} {ls : List Listing} {l : Listing}

/-- Who is stopped in a pass. -/
theorem Releases.stopped_iff (h : Releases answers counts groups st ls st') (k : TicketId) :
    st.stopped st' k = true ↔ ∃ l ∈ ls, k ∈ l.released answers := by
  rw [Store.stopped, decide_eq_true_eq, h.terminating_iff]
  constructor
  · rintro ⟨hnot, hstate | hreleased⟩
    · exact absurd hstate hnot
    · exact hreleased
  · rintro ⟨l, hl, hk⟩
    have hworking := (h.listed hl).state k (Listing.mem_of_released hk)
    exact ⟨by simp [hworking], .inr ⟨l, hl, hk⟩⟩

/-- Agents that are stopped for a group have been asked. -/
theorem Listing.own_of_released (h : ∀ k ∈ l.asked answers, st.isOwn l.groupId k = true)
    {k : TicketId} (hk : k ∈ l.released answers) : st.isOwn l.groupId k = true :=
  h k (List.mem_of_mem_filter hk)

/-- If hooks are run on agents of their group only, an agent of a group is stopped for it. -/
theorem Releases.released_for (h : Releases answers counts groups st ls st')
    (hgroups : (groups.map AgentGroup.id).Nodup)
    (hown : ∀ l ∈ ls, ∀ k ∈ l.asked answers, st.isOwn l.groupId k = true) (hl : l ∈ ls)
    {k : TicketId} (hk : st.isOwn l.groupId k = true)
    (hreleased : ∃ l' ∈ ls, k ∈ l'.released answers) : k ∈ l.released answers := by
  obtain ⟨l', hl', hk'⟩ := hreleased
  have hown' : st.isOwn l'.groupId k = true := Listing.own_of_released (hown l' hl') hk'
  rw [Store.isOwn, Agent.isMember, decide_eq_true_eq] at hk hown'
  have hsame : l'.groupId = l.groupId := Option.some.inj (hown'.symm.trans hk)
  have hnodup : (ls.map Listing.groupId).Nodup := hgroups.sublist h.groupIds
  obtain rfl : l' = l := List.inj_on_of_nodup_map hnodup hl' hl hsame
  exact hk'

/-- The agents of a group that were WORKING before the pass are those that are listed. -/
theorem Releases.countP_working (h : Releases answers counts groups st ls st')
    (hgroups : (groups.map AgentGroup.id).Nodup)
    (hown : ∀ l ∈ ls, ∀ k ∈ l.asked answers, st.isOwn l.groupId k = true) (hl : l ∈ ls)
    (p : TicketId → Bool) :
    (st.redis.keys.countP fun k =>
        decide ((st.redis.read k).state = some .working) && (st.isOwn l.groupId k && p k)) =
      l.agents.countP fun k => st.isOwn l.groupId k && p k := by
  rw [List.countP_eq_length_filter, List.countP_eq_length_filter]
  apply List.Perm.length_eq
  refine (List.perm_ext_iff_of_nodup (st.redis.keys_nodup.filter _)
    ((h.listed hl).nodup.filter _)).mpr fun k => ?_
  simp only [List.mem_filter, Bool.and_eq_true, decide_eq_true_eq]
  constructor
  · rintro ⟨-, hworking, hk, hp⟩
    obtain hlisted | hreleased := h.mem_agents_or hl hworking
    · exact ⟨hlisted, hk, hp⟩
    · exact ⟨Listing.mem_of_released (h.released_for hgroups hown hl hk hreleased), hk, hp⟩
  · rintro ⟨hlisted, hk, hp⟩
    have hworking := (h.listed hl).state k hlisted
    exact ⟨Store.mem_of_state hworking, hworking, hk, hp⟩

/-- The agents of a group that are stopped are stopped for it. -/
theorem Releases.countP_stopped (h : Releases answers counts groups st ls st')
    (hgroups : (groups.map AgentGroup.id).Nodup)
    (hown : ∀ l ∈ ls, ∀ k ∈ l.asked answers, st.isOwn l.groupId k = true) (hl : l ∈ ls) :
    (st.redis.keys.countP fun k => st.isOwn l.groupId k && st.stopped st' k) =
      (l.released answers).length := by
  have hsublist : (l.released answers).Sublist l.agents :=
    List.filter_sublist.trans ((untilQuota_sublist _ _).trans List.filter_sublist)
  rw [List.countP_eq_length_filter]
  apply List.Perm.length_eq
  refine (List.perm_ext_iff_of_nodup (st.redis.keys_nodup.filter _)
    ((h.listed hl).nodup.sublist hsublist)).mpr fun k => ?_
  simp only [List.mem_filter, Bool.and_eq_true, h.stopped_iff]
  constructor
  · rintro ⟨-, hk, hreleased⟩
    exact h.released_for hgroups hown hl hk hreleased
  · intro hk
    have hworking := (h.listed hl).state k (Listing.mem_of_released hk)
    exact ⟨Store.mem_of_state hworking, Listing.own_of_released (hown l hl) hk, l, hl, hk⟩

/-- How many agents of a group are stopped, and how many could be. -/
theorem Releases.number_iff (h : Releases answers counts groups st ls st')
    (hgroups : (groups.map AgentGroup.id).Nodup)
    (hown : ∀ l ∈ ls, ∀ k ∈ l.asked answers, st.isOwn l.groupId k = true) (hl : l ∈ ls)
    (hpos : 0 < l.toStop) :
    ((st.redis.keys.countP fun k => st.isOwn l.groupId k && st.stopped st' k : ℕ) : Int) =
        min l.toStop (st.redis.keys.countP (st.releasable answers l.groupId) : ℕ) ↔
      l.toStop ≤ ((l.candidates answers).countP fun k =>
          st.isOwn l.groupId k && answers.succeeds l.groupId k : ℕ) ∨
        ∀ k ∈ l.agents, st.isOwn l.groupId k = true →
          (answers.collected l.groupId k).ticketData = some "" →
            answers.succeeds l.groupId k = false := by
  have hreleasable : st.redis.keys.countP (st.releasable answers l.groupId) =
      l.agents.countP fun k => st.isOwn l.groupId k &&
        (answers.available l.groupId k && answers.succeeds l.groupId k) := by
    rw [← h.countP_working hgroups hown hl]
    congr 1
    funext k
    simp [Store.releasable]
  rw [h.countP_stopped hgroups hown hl, Listing.length_released (hown l hl), hreleasable,
    Listing.countP_available]
  have hnone : (∀ k ∈ l.agents, st.isOwn l.groupId k = true →
      (answers.collected l.groupId k).ticketData = some "" →
        answers.succeeds l.groupId k = false) ↔
      (l.agents.countP fun k => st.isOwn l.groupId k &&
        ((answers.collected l.groupId k).ticketData = some "" &&
          answers.succeeds l.groupId k)) = 0 := by
    simp [List.countP_eq_zero]
  rw [hnone]
  omega

end Own

/-- The listings of a pass. -/
theorem listed_mem_iff {ls : List Listing} {l : Listing} :
    Event.listed l ∈ ls.flatMap (·.events answers) ↔ l ∈ ls := by
  simp [Listing.events]

/-- The hooks of a pass. -/
theorem hook_mem_iff {ls : List Listing} {groupId : String} {k : TicketId} :
    Event.hook groupId k ∈ ls.flatMap (·.events answers) ↔
      ∃ l ∈ ls, l.groupId = groupId ∧ k ∈ l.asked answers := by
  simp [Listing.events, and_comm]

/-- A pass keeps to the groups that have more agents than they should have if and only if
the listings of the WORKING agents suit the groups they are made for. -/
theorem converge_staysWithin_iff (hfresh : st.Fresh)
    (h : Path (Converging.step opts) (Answered answers) (st, .agentCounts) is
      (st', .keys .tasks)) :
    StaysWithin opts answers st (events opts st is) st' ↔
      ∀ l, Event.listed l ∈ events opts st is → l.Suits answers st := by
  have hends : Ends opts answers (st, .agentCounts) (events opts st is) st' := ⟨is, h, rfl⟩
  obtain ⟨counts, hcounts, hgroups⟩ := hends.agentCounts
  obtain ⟨ls, hreleases, hevs⟩ := hgroups.releases hfresh
  simp only [hevs, listed_mem_iff]
  constructor
  · intro hstays l hl
    have hown : ∀ l ∈ ls, ∀ k ∈ l.asked answers, st.isOwn l.groupId k = true :=
      fun l hl k hk => hstays.hooks l.groupId k (hook_mem_iff.mpr ⟨l, hl, rfl, hk⟩)
    obtain ⟨group, hgroup, ideal, hconverge, habove, hid, htoStop⟩ := hreleases.of_mem hl
    rw [hcounts] at habove htoStop
    have hnumber := hstays.number group hgroup ideal hconverge habove
    rw [← htoStop, ← hid] at hnumber
    constructor
    · exact Listing.asked_own_iff.mp (hown l hl)
    · exact (hreleases.number_iff opts.nodup hown hl (by omega)).mp hnumber
  · intro hsuits
    have hown : ∀ l ∈ ls, ∀ k ∈ l.asked answers, st.isOwn l.groupId k = true :=
      fun l hl => Listing.asked_own_iff.mpr (hsuits l hl).own
    constructor
    · intro k hk
      obtain ⟨l, hl, hreleased⟩ := (hreleases.stopped_iff k).mp hk
      obtain ⟨group, hgroup, ideal, hconverge, habove, hid, -⟩ := hreleases.of_mem hl
      rw [hcounts] at habove
      refine ⟨group, hgroup, ideal, hconverge, habove, ?_⟩
      rw [← hid]
      exact Listing.own_of_released (hown l hl) hreleased
    · intro group hgroup ideal hconverge habove
      rw [← hcounts] at habove
      obtain ⟨l, hl, hid, htoStop⟩ := hreleases.exists_listing hgroup hconverge habove
      rw [hcounts] at habove htoStop
      rw [← htoStop, ← hid]
      exact (hreleases.number_iff opts.nodup hown hl (by omega)).mpr (hsuits l hl).output
    · intro groupId k hk
      obtain ⟨l, hl, rfl, hasked⟩ := hook_mem_iff.mp hk
      exact hown l hl k hasked

/-- Two groups of agents. -/
def twoGroups : Opts := { agentGroups := [{ id := "a" }, { id := "b" }], nodup := by decide }

/-- One agent of each group; the one of the second group is WORKING. -/
def agentOfEach (state : AgentState) : Store :=
  { redis := ((∅ : Redis).write 1 fun _ => { groupId := some "a", state := some state }).write 2
      fun _ => { groupId := some "b", state := some .working }
    nextTicket := 3 }

/-- The first group should have its agent, and the second one should have none.  Every agent
has output and may be released. -/
def keepFirstGroup : Answers :=
  { convergeTo := fun groupId => if groupId = "a" then some 1 else some 0
    collected := fun _ _ => { ready := some true, output := "data" }
    tryRelease := fun _ _ => 0 }

/-- The inputs of the pass. -/
def keepFirstInputs : List Input :=
  let i : Input := { keys := [1, 2], collected := { ready := some true, output := "data" } }
  List.replicate 3 i ++ [{ i with convergeTo := some 1 }, { i with convergeTo := some 0 }] ++
    List.replicate 5 i

/-- The end of the pass. -/
def keptFirst (state : AgentState) (h : (execWithin (Converging.step twoGroups)
    (Answered keepFirstGroup) (agentOfEach state, .agentCounts) keepFirstInputs).isSome = true) :
    Converging :=
  (execWithin (Converging.step twoGroups) (Answered keepFirstGroup)
    (agentOfEach state, .agentCounts) keepFirstInputs).get h

/-- The pass is a run. -/
theorem path_keptFirst (state : AgentState) (h : (execWithin (Converging.step twoGroups)
    (Answered keepFirstGroup) (agentOfEach state, .agentCounts) keepFirstInputs).isSome = true)
    (hend : (keptFirst state h).2 = .keys .tasks) :
    Path (Converging.step twoGroups) (Answered keepFirstGroup) (agentOfEach state, .agentCounts)
      keepFirstInputs ((keptFirst state h).1, .keys .tasks) := by
  rw [← hend]
  exact Path.of_execWithin (Option.some_get h).symm

/-- While the agent of the first group is being prepared, the agent of the second one is
stopped. -/
theorem converge_staysWithin_preparing :
    StaysWithin twoGroups keepFirstGroup (agentOfEach .preparing)
      (events twoGroups (agentOfEach .preparing) keepFirstInputs)
      (keptFirst .preparing (by decide +kernel)).1 := by
  refine (converge_staysWithin_iff (by decide +kernel)
    (path_keptFirst .preparing (by decide +kernel) (by decide +kernel))).mpr fun l hl => ?_
  have hevents : events twoGroups (agentOfEach .preparing) keepFirstInputs =
      [.listed { groupId := "b", toStop := 1, agents := [2] }, .hook "b" 2] := by
    decide +kernel
  obtain rfl : l = { groupId := "b", toStop := 1, agents := [2] } := by
    simpa [hevents] using hl
  have hcandidates : Listing.candidates keepFirstGroup
      { groupId := "b", toStop := 1, agents := [2] } = [2] := by decide +kernel
  constructor
  · intro before k after hsplit hother
    have hk : k ∈ [2] := by
      rw [← hcandidates, hsplit]
      simp
    rw [List.mem_singleton.mp hk] at hother
    exact absurd hother (by decide +kernel)
  · left
    rw [hcandidates]
    decide +kernel

/-- The hook of the second group is run on the agent of the first one, which is stopped. -/
theorem converge_leaves_group :
    ¬ ∀ (opts : Opts) (answers : Answers) (st st' : Store) (is : List Input), st.Fresh →
      Path (Converging.step opts) (Answered answers) (st, .agentCounts) is
        (st', .keys .tasks) → StaysWithin opts answers st (events opts st is) st' := by
  intro h
  have hstays := h twoGroups keepFirstGroup (agentOfEach .working) _ keepFirstInputs
    (by decide +kernel) (path_keptFirst .working (by decide +kernel) (by decide +kernel))
  have hhook := hstays.hooks "b" 1 (by decide +kernel)
  exact absurd hhook (by decide +kernel)

end Resalloc.Spawner
