import Resalloc.Server.Invariants

/-!
# Resources in transient states

A resource in STARTING, DELETING or RELEASING is left there by the worker that
will take it out again.  The manager's queries do not pick such a resource up, so
when that worker dies of an exception the resource stays where it is until the
server restarts.

Main results:

- Theorem {lit}`World.Reaches.attended`: a resource in a transient state has a
  worker that runs or has raised, and a restart requests its removal.
- Theorem {lit}`World.strands_raised`: after an exception no worker is left.
-/

namespace Resalloc

open Foundations

/-- A job whose last transaction takes a resource out of a transient state. -/
def Job.Attends (job : Job) (id : ResourceId) (state : RState) : Prop :=
  match state, job with
  | .starting, .alloc j _ => j = id
  | .deleting, .terminate j pc => j = id ∧ pc ≠ .request
  | .releasing, .release j _ => j = id
  | _, _ => False

/-- A job goes on attending the same resource. -/
theorem Job.Moves.attends {i : Input} {job job' : Job} (h : Job.Moves i job job')
    {id : ResourceId} {state : RState} (hattends : job.Attends id state) :
    job'.Attends id state := by
  cases h <;> cases state <;> simp_all [Job.Attends]

namespace World

variable {w w' : World} {a : Action} {as : List Action} {id : ResourceId} {r r' : Resource}

/-- A worker that has not returned attends a resource. -/
def AttendedBy (w : World) (id : ResourceId) (state : RState) : Prop :=
  ∃ k worker, w.workers.get? k = some worker ∧ worker.status ≠ .finished ∧
    worker.job.Attends id state

/-- Every resource in a transient state is attended. -/
def Attended (w : World) : Prop :=
  ∀ id r, w.db.resources.get? id = some r → r.state.inconsistent = true →
    w.AttendedBy id r.state

/-- A resource that stays in its state stays attended. -/
theorem AttendedBy.kept (h : w.AttendedBy id r.state) (hstep : w.Steps a w')
    (hrestart : ∀ t, a ≠ .restart t) (hr : w.db.resources.get? id = some r)
    (hr' : w'.db.resources.get? id = some r') (hstate : r'.state = r.state) :
    w'.AttendedBy id r'.state := by
  rw [hstate]
  obtain ⟨k, worker, hworker, hfinished, hattends⟩ := h
  rcases hstep.worker_next hrestart hworker with hkept | ⟨i, next, -, hown, hnext⟩
  · exact ⟨k, worker, hkept, hfinished, hattends⟩
  · generalize w'.db = db at hown hr'
    cases hown with
    | raised => exact ⟨k, _, hnext, by simp [Worker.raise], hattends⟩
    | moved hok hmoves => exact ⟨k, _, hnext, hfinished, hmoves.attends hattends⟩
    | cleaned hjob =>
        rw [hjob] at hattends
        cases hstate' : r.state <;> simp [hstate', Job.Attends] at hattends
    | @started j s o _ _ hjob _ hresources =>
        rw [hjob] at hattends
        cases hstate' : r.state <;> simp [hstate', Job.Attends] at hattends
        subst hattends
        simp only [hresources, IdTable.get?_modify_self, hr, Option.map_some,
          Option.some.injEq] at hr'
        simp only [← hr', Resource.started, hstate'] at hstate
        split_ifs at hstate
    | gaveUp hjob | terminating _ hjob =>
        rw [hjob] at hattends
        cases hstate' : r.state <;> simp [hstate', Job.Attends] at hattends
    | @ended j _ _ hjob _ hresources =>
        rw [hjob] at hattends
        cases hstate' : r.state <;> simp [hstate', Job.Attends] at hattends
        subst hattends
        simp only [hresources, IdTable.get?_modify_self, hr, Option.map_some,
          Option.some.injEq] at hr'
        simp [← hr', hstate'] at hstate
    | @returned j s _ hjob =>
        rw [hjob] at hattends
        cases hstate' : r.state <;> simp [hstate', Job.Attends] at hattends
        subst hattends
        simp only [Db.modifyResource_resources, IdTable.get?_modify_self, hr, Option.map_some,
          Option.some.injEq] at hr'
        simp [← hr', Resource.returned, hstate'] at hstate

/-- A new resource is attended by the worker started with it. -/
theorem Steps.alloc_started (h : w.Steps a w') (hlinked : Linked w.db)
    (hr' : w'.db.resources.get? id = some r') (hnone : w.db.resources.get? id = none) :
    r'.state = .starting ∧ ∃ k p, w'.Runs k p (.alloc id .load) := by
  obtain ⟨i, c, p, rest, name, rfl, hmanager, -, rfl⟩ := h.created hlinked hr' hnone
  refine ⟨rfl, ?_⟩
  cases h with
  | manager hpc =>
      rw [hmanager] at hpc
      cases hpc with
      | stop => simp [hnone] at hr'
      | @allocate _ _ db newId _ p' hp hallocate =>
          obtain ⟨rfl, -, name, hget⟩ := allocate_ok hallocate
          obtain rfl : id = w.db.resources.nextId := by
            by_contra hne
            simp [hget, hne, hnone] at hr'
          obtain ⟨k, hk⟩ := exists_get?_spawn w.workers (List.mem_singleton_self _)
          exact ⟨k, p', hk⟩

/-- A resource that enters RELEASING is attended by the worker started for it. -/
theorem Steps.release_started (h : w.Steps a w') (hlinked : Linked w.db)
    (hr : w.db.resources.get? id = some r) (hr' : w'.db.resources.get? id = some r')
    (hstate : r.state ≠ .releasing) (hreleasing : r'.state = .releasing) :
    ∃ k p, w'.Runs k p (.release id .load) := by
  obtain ⟨r'', hr'', hrow⟩ := h.resource hlinked hr
  obtain rfl := Option.some.inj (hr'.symm.trans hr'')
  cases hrow with
  | @decoupled i c p rest hmanager hclosing =>
      cases h with
      | @manager _ db started pc hpc =>
          rw [hmanager] at hpc
          cases hpc with
          | stop =>
              rw [hr, Option.some.injEq] at hr'
              exact absurd (hr' ▸ hreleasing) hstate
          | @detectClosed _ _ _ _ closed hdetect =>
              have hids := (hlinked.decouples hdetect).mem
              have hrelease : truthy p.cmdRelease = true := by
                by_contra hnot
                simp [Resource.decoupled, hnot, hstate] at hreleasing
              obtain ⟨k, hk⟩ := exists_get?_spawn w.workers
                (List.mem_map_of_mem ((hids id).mpr ⟨hrelease, r, hr, hclosing⟩))
              exact ⟨k, p, hk⟩
  | started =>
      simp only [Resource.started] at hreleasing
      split_ifs at hreleasing
  | same | checked | assigned => exact absurd hreleasing hstate
  | retired | killed | broken | terminating | ended | returned => cases hreleasing

/-- A resource that enters DELETING is attended by the worker that switched it. -/
theorem Steps.terminating_started {k : ℕ} {i : Input} {p : Pool}
    (h : w.Steps (.worker k i) w') (hruns : w.Runs k p (.terminate id .request))
    (hr : w.db.resources.get? id = some r) (hr' : w'.db.resources.get? id = some r')
    (hstate : r'.state ≠ r.state) : w'.AttendedBy id .deleting := by
  cases h with
  | worker hworker _ hown =>
      obtain rfl := Option.some.inj (hruns.symm.trans hworker)
      cases hown with
      | @terminating j hok hjob =>
          obtain rfl : id = j := by simpa using hjob
          refine ⟨k, _, (IdTable.get?_modify_self _ _ _).trans (by rw [hworker]; rfl),
            by simp [Worker.goto], ?_⟩
          simp only [Worker.goto, Job.Attends, true_and]
          split_ifs <;> simp
      | raised | moved | cleaned | gaveUp =>
          obtain rfl := Option.some.inj (hr.symm.trans hr')
          exact absurd rfl hstate
      | started _ hjob | ended _ hjob | returned _ hjob => simp at hjob

/-- Every action keeps the transient resources attended. -/
theorem Inv.attended_step (h : w.Inv) (hattended : w.Attended) (hstep : w.Steps a w') :
    w'.Attended := by
  intro id r' hr' htransient
  by_cases hrestart : ∃ t, a = .restart t
  · obtain ⟨t, rfl⟩ := hrestart
    cases hstep with
    | restart =>
        simp only [fixBrokenAfterRestart_resource] at hr'
        obtain ⟨r, -, rfl⟩ := Option.map_eq_some_iff.mp hr'
        split_ifs at htransient with hbroken
        · simp [RState.inconsistent] at htransient
        · exact absurd htransient hbroken
  · rw [not_exists] at hrestart
    cases hr : w.db.resources.get? id with
    | none =>
        obtain ⟨hstarting, k, p, hk⟩ := hstep.alloc_started h.linked hr' hr
        exact ⟨k, _, hk, by simp, by simp [hstarting, Job.Attends]⟩
    | some r =>
        by_cases hstate : r'.state = r.state
        · exact (hattended id r hr (hstate ▸ htransient)).kept hstep hrestart hr hr' hstate
        · by_cases hreleasing : r'.state = .releasing
          · obtain ⟨k, p, hk⟩ := hstep.release_started h.linked hr hr'
              (fun heq => hstate (hreleasing.trans heq.symm)) hreleasing
            exact ⟨k, _, hk, by simp, by simp [hreleasing, Job.Attends]⟩
          · -- the only other way in is the first transaction of a terminator
            obtain ⟨r'', hr'', hrow⟩ := hstep.resource h.linked hr
            obtain rfl := Option.some.inj (hr'.symm.trans hr'')
            cases hrow with
            | @terminating k i p hruns hok =>
                exact hstep.terminating_started hruns hr hr' hstate
            | @started _ _ p _ o =>
                simp only [Resource.started] at htransient
                split_ifs at htransient <;> simp [RState.inconsistent] at htransient
            | same | checked | assigned => exact absurd rfl hstate
            | decoupled =>
                simp only [Resource.decoupled] at hstate hreleasing
                split_ifs at hstate hreleasing <;> simp_all
            | retired | killed | broken | ended | returned =>
                simp [Resource.retired, Resource.returned, RState.inconsistent] at htransient

/-- Transient resources are attended in every reachable state. -/
theorem Reaches.transient_attended {ok : World → Action → Prop} (h : Reaches ok as w) :
    w.Attended := by
  have hboth : w.Inv ∧ w.Attended := by
    refine h.invariant (P := fun w => w.Inv ∧ w.Attended) ⟨inv_init, ?_⟩ ?_
    · intro id r hr
      simp [init] at hr
    · rintro u b v ⟨hinv, hattended⟩ - hstep
      exact ⟨hinv.step hstep, hinv.attended_step hattended (step_cases hstep)⟩
  exact hboth.2

/-- The worker of a resource in a transient state. -/
theorem Attended.worker (h : w.Attended) (hr : w.db.resources.get? id = some r)
    (htransient : r.state.inconsistent = true) :
    ∃ k p job s, w.workers.get? k = some { pool := p, job := job, status := s } ∧
      (s = .running ∨ s = .raised) ∧ job.Attends id r.state := by
  obtain ⟨k, ⟨p, job, s⟩, hworker, hfinished, hattends⟩ := h id r hr htransient
  refine ⟨k, p, job, s, hworker, ?_, hattends⟩
  cases s with
  | running => exact .inl rfl
  | raised => exact .inr rfl
  | finished => exact absurd rfl hfinished

/-- In every reachable state, a resource in STARTING, DELETING or RELEASING has a
worker of its kind that still runs or has raised since the last restart, and a
restart requests the removal of the resource. -/
theorem Reaches.attended (h : Reaches anyStep as w) (hr : w.db.resources.get? id = some r) :
    (r.state = .starting → ∃ k p pc s,
      w.workers.get? k = some { pool := p, job := .alloc id pc, status := s } ∧
        (s = .running ∨ s = .raised)) ∧
    (r.state = .deleting → ∃ k p pc s,
      w.workers.get? k = some { pool := p, job := .terminate id pc, status := s } ∧
        (s = .running ∨ s = .raised)) ∧
    (r.state = .releasing → ∃ k p pc s,
      w.workers.get? k = some { pool := p, job := .release id pc, status := s } ∧
        (s = .running ∨ s = .raised)) ∧
    (r.state = .starting ∨ r.state = .deleting ∨ r.state = .releasing →
      ∀ t, ∃ w' r', w.step (.restart t) = some w' ∧
        w'.db.resources.get? id = some r' ∧ r'.state = .deleteRequest) := by
  have hattended := h.transient_attended
  refine ⟨fun hstate => ?_, fun hstate => ?_, fun hstate => ?_, fun hstate t => ?_⟩
  · obtain ⟨k, p, job, s, hworker, hstatus, hattends⟩ := hattended.worker hr (by rw [hstate]; rfl)
    rw [hstate] at hattends
    cases job with
    | alloc j pc =>
        obtain rfl : j = id := hattends
        exact ⟨k, p, pc, s, hworker, hstatus⟩
    | _ => exact hattends.elim
  · obtain ⟨k, p, job, s, hworker, hstatus, hattends⟩ := hattended.worker hr (by rw [hstate]; rfl)
    rw [hstate] at hattends
    cases job with
    | terminate j pc =>
        obtain rfl : j = id := hattends.1
        exact ⟨k, p, pc, s, hworker, hstatus⟩
    | _ => exact hattends.elim
  · obtain ⟨k, p, job, s, hworker, hstatus, hattends⟩ := hattended.worker hr (by rw [hstate]; rfl)
    rw [hstate] at hattends
    cases job with
    | release j pc =>
        obtain rfl : j = id := hattends
        exact ⟨k, p, pc, s, hworker, hstatus⟩
    | _ => exact hattends.elim
  · have hbroken : r.state.inconsistent = true := by
      rcases hstate with hstate | hstate | hstate <;> rw [hstate] <;> rfl
    refine ⟨_, { r with state := .deleteRequest }, rfl, ?_, rfl⟩
    rw [fixBrokenAfterRestart_resource, hr, Option.map_some, if_pos hbroken]

/-- A resource is being started. -/
def startingRun : List Action := ticks basicConfig 8

/-- The resource being started is attended, and a restart requests its removal. -/
theorem attended_startingRun :
    (∃ k p pc s, (after anyStep startingRun (by decide +kernel)).workers.get? k =
      some { pool := p, job := .alloc 1 pc, status := s } ∧ (s = .running ∨ s = .raised)) ∧
    ∃ w' r', (after anyStep startingRun (by decide +kernel)).step (.restart 30) = some w' ∧
      w'.db.resources.get? 1 = some r' ∧ r'.state = .deleteRequest := by
  have hstarting : ((after anyStep startingRun (by decide +kernel)).db.resources.get? 1).any
      (fun r => r.state = .starting) = true := by decide +kernel
  obtain ⟨r, hr, hstate⟩ := (Option.any_eq_true _ _).mp hstarting
  rw [decide_eq_true_eq] at hstate
  obtain ⟨halloc, -, -, hrestart⟩ :=
    Reaches.attended (reaches_after anyStep startingRun (by decide +kernel)) hr
  exact ⟨halloc hstate, hrestart (.inl hstate) 30⟩

/-- Every resource in a transient state has a worker that still runs. -/
def NoneStranded (w : World) : Prop :=
  ∀ id r, w.db.resources.get? id = some r →
    (r.state = .starting → ∃ k p pc, w.Runs k p (.alloc id pc)) ∧
    (r.state = .deleting → ∃ k p pc, w.Runs k p (.terminate id pc)) ∧
    (r.state = .releasing → ∃ k p pc, w.Runs k p (.release id pc))

/-- The hook that starts the resource raises. -/
def strandedRun : List Action :=
  startingRun ++ [.worker 1 {}, .worker 1 { raises := true }]

/-- A hook that raises leaves its resource in STARTING without a worker. -/
theorem strands_raised : ¬ ∀ as w, Reaches anyStep as w → NoneStranded w := by
  intro h
  have hstarting : ((after anyStep strandedRun (by decide +kernel)).db.resources.get? 1).any
      (fun r => r.state = .starting) = true := by decide +kernel
  have hdead : ∀ e ∈ (after anyStep strandedRun (by decide +kernel)).workers.entries,
      e.2.status ≠ .running := by decide +kernel
  obtain ⟨r, hr, hstate⟩ := (Option.any_eq_true _ _).mp hstarting
  rw [decide_eq_true_eq] at hstate
  obtain ⟨k, p, pc, hruns⟩ := (h _ _ (reaches_after anyStep strandedRun _) 1 r hr).1 hstate
  exact hdead _ (IdTable.mem_entries.mpr hruns) rfl

end World

end Resalloc
