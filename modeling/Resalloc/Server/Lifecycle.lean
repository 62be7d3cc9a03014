import Resalloc.Server.Invariants

/-!
# The life cycle of a resource

The states of a resource follow a fixed graph that ends in ENDED, as long as no
resource has two terminators.  The garbage collector starts a terminator for
every DELETE_REQUEST resource in every cycle, and a terminator that comes late
takes the resource out of ENDED again and runs its removal command once more.

Main results:

- Definition {lit}`World.OneTerminator`: the invariant of runs without a second
  terminator.
- Theorem {lit}`World.Reaches.lifecycle`: in such runs every state change follows
  the graph, and ENDED is final.
- Theorem {lit}`World.ended_revived`: otherwise ENDED is not final.
-/

namespace Resalloc

open Foundations

/-- The state changes of a resource. -/
def RState.follows (restart : Bool) (s s' : RState) : Bool :=
  match s, s' with
  | .starting, .up | .starting, .ended | .up, .releasing | .up, .deleteRequest
  | .releasing, .up | .deleteRequest, .deleting | .deleting, .ended => true
  | .starting, .deleteRequest | .releasing, .deleteRequest | .deleting, .deleteRequest => restart
  | s, s' => s = s'

/-- Staying in a state is no change. -/
@[simp]
theorem RState.follows_self (restart : Bool) (s : RState) : s.follows restart s = true := by
  cases s <;> simp [RState.follows]

/-- Nothing follows ENDED. -/
theorem RState.eq_ended_of_follows {restart : Bool} {s : RState}
    (h : RState.follows restart .ended s = true) : s = .ended := by
  cases s <;> simp_all [RState.follows]

namespace World

variable {w w' v : World} {a : Action} {as bs : List Action} {id : ResourceId}
variable {r r' : Resource} {k : ℕ} {p : Pool}

/-! ## One terminator for each resource -/

/-- A running terminator is the only one of its resource, which is in
DELETE_REQUEST before the terminator's first transaction, and in DELETING after
it. -/
structure OneTerminator (w : World) : Prop where
  unique : ∀ {j k p q id pc pc'}, w.Runs j p (.terminate id pc) → w.Runs k q (.terminate id pc') →
    j = k
  request : ∀ {k p id}, w.Runs k p (.terminate id .request) →
    ∃ r, w.db.resources.get? id = some r ∧ r.state = .deleteRequest
  deleting : ∀ {k p id pc}, w.Runs k p (.terminate id pc) → pc ≠ .request →
    ∃ r, w.db.resources.get? id = some r ∧ r.state = .deleting

/-- A worker that is a running terminator of a resource. -/
def terminates (worker : Worker) (id : ResourceId) : Bool :=
  worker.status = .running &&
    match worker.job with
    | .terminate j _ => j = id
    | _ => false

/-- The pool whose garbage an action collects. -/
def garbage? (w : World) (a : Action) : Option Pool :=
  match a, w.manager with
  | .manager _, .garbage _ p _ => some p
  | _, _ => none

/-- A garbage collection that finds no DELETE_REQUEST resource with a running
terminator. -/
def QuietGarbage (w : World) (a : Action) : Prop :=
  ∀ p ∈ w.garbage? a, ∀ id ∈ p.garbageCollector w.db, ∀ e ∈ w.workers.entries,
    terminates e.2 id = false

instance (w : World) (a : Action) : Decidable (QuietGarbage w a) :=
  inferInstanceAs (Decidable (∀ _ ∈ _, _))

/-- The resource of a terminator stays in its state, unless the terminator itself
steps. -/
theorem Inv.terminator_kept (h : w.Inv) (hone : w.OneTerminator) (hstep : w.Steps a w')
    {pc : TerminatePc} (hruns : w.Runs k p (.terminate id pc)) (hother : ∀ i, a ≠ .worker k i)
    (hrestart : ∀ t, a ≠ .restart t) (hr : w.db.resources.get? id = some r) :
    ∃ r', w'.db.resources.get? id = some r' ∧ r'.state = r.state := by
  obtain ⟨r', hr', hrow⟩ := hstep.resource h.linked hr
  refine ⟨r', hr', ?_⟩
  have hleaving := h.owned.leaving hruns hr
  rcases h.leaving_cases hrow hr hleaving with ⟨hstate, -⟩ | ⟨j, q, i, ha, hj, -⟩ |
    ⟨j, q, i, ha, hj, -⟩ | ⟨t, ha, -⟩
  · exact hstate
  · obtain rfl := hone.unique hj hruns
    exact absurd ha (hother i)
  · obtain rfl := hone.unique hj hruns
    exact absurd ha (hother i)
  · exact absurd ha (hrestart t)

/-- A quiet garbage collection, like every other action, starts no second
terminator. -/
theorem Inv.oneTerminator_step (h : w.Inv) (hone : w.OneTerminator) (hok : QuietGarbage w a)
    (hstep : w.Steps a w') : w'.OneTerminator := by
  have hrestart : ∀ {k p job}, w'.Runs k p job → ∀ t, a ≠ .restart t := by
    rintro k p job hruns t rfl
    exact hstep.not_runs hruns
  -- a terminator ran before, or was started for a resource without one
  have hcases : ∀ {k p id pc}, w'.Runs k p (.terminate id pc) →
      (∃ pc', w.Runs k p (.terminate id pc')) ∨
        w.workers.get? k = none ∧ ∀ {j q pc'}, ¬ w.Runs j q (.terminate id pc') := by
    intro k p id pc hruns
    rcases hstep.runs_cases h.linked hruns with ⟨hold, -⟩ |
      ⟨i, old, -, -, hold, ⟨hmoves, -⟩ | ⟨j, rfl, heq, -⟩⟩ | ⟨hnew, ⟨i, ha⟩, hstarts⟩
    · exact .inl ⟨pc, hold⟩
    · cases hmoves
      exact .inl ⟨_, hold⟩
    · obtain ⟨rfl, -⟩ := by simpa using heq
      exact .inl ⟨_, hold⟩
    · refine .inr ⟨hnew, fun {j q pc'} hj => ?_⟩
      cases hstarts with
      | @terminate c p rest _ r hmanager hr hpool hstate _ =>
          have hmem : id ∈ p.garbageCollector w.db :=
            List.mem_map.mpr ⟨(id, r), mem_clean.mpr ⟨hr, hpool, hstate⟩, rfl⟩
          have hquiet := hok p (by simp [garbage?, ha, hmanager]) id hmem _
            (IdTable.mem_entries.mpr hj)
          simp [terminates] at hquiet
  refine ⟨?_, ?_, ?_⟩
  · intro j k p q id pc pc' hj hk
    rcases hcases hj with ⟨_, hj'⟩ | ⟨hjnew, hnone⟩ <;>
      rcases hcases hk with ⟨_, hk'⟩ | ⟨hknew, hnone'⟩
    · exact hone.unique hj' hk'
    · exact absurd hj' hnone'
    · exact absurd hk' hnone
    · exact hstep.started_unique h.linked hj hjnew hk hknew rfl rfl
  · intro k p id hruns
    rcases hstep.runs_cases h.linked hruns with ⟨hold, hother⟩ |
      ⟨i, old, -, -, hold, ⟨hmoves, -⟩ | ⟨j, rfl, heq, -⟩⟩ | ⟨-, -, hstarts⟩
    · obtain ⟨r, hr, hstate⟩ := hone.request hold
      obtain ⟨r', hr', hkept⟩ := h.terminator_kept hone hstep hold hother (hrestart hruns) hr
      exact ⟨r', hr', hkept.trans hstate⟩
    · cases hmoves
    · obtain ⟨-, heq⟩ := by simpa using heq
      split_ifs at heq
    · cases hstarts with
      | terminate _ hr _ hstate hdb => exact ⟨_, hdb ▸ hr, hstate⟩
  · intro k p id pc hruns hpc
    rcases hstep.runs_cases h.linked hruns with ⟨hold, hother⟩ |
      ⟨i, old, -, -, hold, ⟨hmoves, hdb⟩ | ⟨j, rfl, heq, hdb⟩⟩ | ⟨-, -, hstarts⟩
    · obtain ⟨r, hr, hstate⟩ := hone.deleting hold hpc
      obtain ⟨r', hr', hkept⟩ := h.terminator_kept hone hstep hold hother (hrestart hruns) hr
      exact ⟨r', hr', hkept.trans hstate⟩
    · cases hmoves
      rw [hdb]
      exact hone.deleting hold (by simp)
    · obtain ⟨rfl, -⟩ := by simpa using heq
      obtain ⟨r, hr, -⟩ := h.owned.terminate hold
      exact ⟨{ r with state := .deleting }, by simp [hdb, hr], rfl⟩
    · cases hstarts
      exact absurd rfl hpc

/-- Runs without a second terminator. -/
theorem Reaches.oneTerminator (h : Reaches QuietGarbage as w) : w.OneTerminator := by
  have hinit : init.OneTerminator := by
    refine ⟨?_, ?_, ?_⟩ <;> intros <;> simp_all [Runs, init]
  have hboth : w.Inv ∧ w.OneTerminator :=
    h.invariant (P := fun w => w.Inv ∧ w.OneTerminator) ⟨inv_init, hinit⟩
      fun _ _ _ hboth hok hstep =>
        ⟨hboth.1.step hstep, hboth.1.oneTerminator_step hboth.2 hok (step_cases hstep)⟩
  exact hboth.2

/-! ## State changes -/

/-- The resource whose {lit}`cmd_delete` or {lit}`cmd_release` a step starts. -/
def hook? (w : World) (a : Action) : Option ResourceId :=
  match a with
  | .worker k _ =>
      match w.workers.get? k with
      | some { job := .terminate id .cmdDelete, status := .running, .. } => some id
      | some { job := .release id .cmdRelease, status := .running, .. } => some id
      | _ => none
  | _ => none

/-- A step that changes the states of resources along the graph, and starts no hook
of a resource in ENDED. -/
def FollowsLifecycle (w : World) (a : Action) (w' : World) : Prop :=
  ∀ id r, w.db.resources.get? id = some r →
    (∃ r', w'.db.resources.get? id = some r' ∧
      r.state.follows (a matches .restart _) r'.state = true) ∧
    (r.state = .ended → w.hook? a ≠ some id)

/-- The resource of a started hook is in DELETING or in RELEASING. -/
theorem Inv.hook_state (h : w.Inv) (hone : w.OneTerminator) (hhook : w.hook? a = some id) :
    ∃ r, w.db.resources.get? id = some r ∧ (r.state = .deleting ∨ r.state = .releasing) := by
  unfold hook? at hhook
  split at hhook
  next k i =>
    split at hhook
    next p j hworker =>
      obtain rfl := Option.some.inj hhook
      have hruns : w.Runs k p (.terminate j .cmdDelete) := hworker
      obtain ⟨r, hr, hstate⟩ := hone.deleting hruns
        (by simp)
      exact ⟨r, hr, .inl hstate⟩
    next p j hworker =>
      obtain rfl := Option.some.inj hhook
      obtain ⟨r, hr, hstate, -⟩ :=
        h.owned.release (show w.Runs k p (.release j .cmdRelease) from hworker)
      exact ⟨r, hr, .inr hstate⟩
    next => contradiction
  next => contradiction

/-- With one terminator for each resource every step follows the graph. -/
theorem Inv.follows_step (h : w.Inv) (hone : w.OneTerminator) (hstep : w.Steps a w') :
    FollowsLifecycle w a w' := by
  intro id r hr
  refine ⟨?_, fun hended hhook => ?_⟩
  · obtain ⟨r', hr', hrow⟩ := hstep.resource h.linked hr
    refine ⟨r', hr', ?_⟩
    cases hrow with
    | same | checked => simp [Resource.checked]
    | assigned => simp [Resource.assigned]
    | decoupled _ _ hclosing =>
        simp only [Resource.decoupled, hclosing.2.1]
        split_ifs <;> rfl
    | retired _ _ _ hup | killed _ hup =>
        rw [hup]
        rfl
    | broken t hbroken =>
        cases hstate : r.state <;> simp_all [RState.inconsistent] <;> rfl
    | started hruns =>
        have hstate := h.owned.starting hruns hr
        simp only [Resource.started, hstate]
        split_ifs <;> rfl
    | terminating hruns =>
        obtain ⟨r₀, hr₀, hstate⟩ := hone.request hruns
        obtain rfl := Option.some.inj (hr.symm.trans hr₀)
        rw [hstate]
        rfl
    | ended hruns =>
        obtain ⟨r₀, hr₀, hstate⟩ := hone.deleting hruns (by simp)
        obtain rfl := Option.some.inj (hr.symm.trans hr₀)
        rw [hstate]
        rfl
    | returned hruns =>
        have hstate := h.owned.releasing hruns hr
        rw [hstate]
        rfl
  · obtain ⟨r₀, hr₀, hstate⟩ := h.hook_state hone hhook
    obtain rfl := Option.some.inj (hr.symm.trans hr₀)
    simp [hended] at hstate

/-! ## Runs -/

/-- ENDED is kept by every step of a state with one terminator for each resource. -/
theorem Inv.ended_step (h : w.Inv) (hone : w.OneTerminator) (hstep : w.Steps a w')
    (hr : w.db.resources.get? id = some r) (hended : r.state = .ended) :
    ∃ r', w'.db.resources.get? id = some r' ∧ r'.state = .ended := by
  obtain ⟨⟨r', hr', hfollows⟩, -⟩ := h.follows_step hone hstep id r hr
  exact ⟨r', hr', RState.eq_ended_of_follows (hended ▸ hfollows)⟩

/-- In runs without a second terminator every step follows the graph of states, a
resource in ENDED stays there, and no hook is started for it any more. -/
theorem Reaches.lifecycle (h : Reaches QuietGarbage as w) :
    (∀ a w', w.step a = some w' → FollowsLifecycle w a w') ∧
      ∀ bs v, Path step QuietGarbage w bs v →
        ∀ id r, w.db.resources.get? id = some r → r.state = .ended →
          ∃ r', v.db.resources.get? id = some r' ∧ r'.state = .ended ∧
            ∀ a, v.hook? a ≠ some id := by
  refine ⟨fun a w' hstep => h.inv.follows_step h.oneTerminator (step_cases hstep), ?_⟩
  intro bs v hrest id r hr hended
  have hkept : v.Inv ∧ v.OneTerminator ∧
      ∃ r', v.db.resources.get? id = some r' ∧ r'.state = .ended := by
    refine hrest.invariant (P := fun u => u.Inv ∧ u.OneTerminator ∧
      ∃ r', u.db.resources.get? id = some r' ∧ r'.state = .ended)
      ⟨h.inv, h.oneTerminator, r, hr, hended⟩ ?_
    rintro u b u' ⟨hinv, hone, r', hr', hended'⟩ hok hstep
    exact ⟨hinv.step hstep, hinv.oneTerminator_step hone hok (step_cases hstep),
      hinv.ended_step hone (step_cases hstep) hr' hended'⟩
  obtain ⟨hinv, hone, r', hr', hended'⟩ := hkept
  refine ⟨r', hr', hended', fun a hhook => ?_⟩
  obtain ⟨r₀, hr₀, hstate⟩ := hinv.hook_state hone hhook
  obtain rfl := Option.some.inj (hr'.symm.trans hr₀)
  simp [hended'] at hstate

/-- An UP resource is killed, and the garbage collector starts its terminator. -/
def killedRun : List Action :=
  ticks basicConfig 8 ++ List.replicate 3 (.worker 1 { now := 20 }) ++
    [.resourceDelete .all, .kill 1] ++ ticks basicConfig 9

/-- The terminator ends the resource. -/
def endedRun : List Action := killedRun ++ List.replicate 3 (.worker 2 {})

/-- The resource stays in ENDED in the next cycle. -/
theorem lifecycle_killedRun :
    ∃ r, ((execWithin step QuietGarbage (after QuietGarbage endedRun (by decide +kernel))
        (ticks basicConfig 12)).get (by decide +kernel)).db.resources.get? 1 = some r ∧
      r.state = .ended ∧ ∀ a, ((execWithin step QuietGarbage
        (after QuietGarbage endedRun (by decide +kernel)) (ticks basicConfig 12)).get
          (by decide +kernel)).hook? a ≠ some 1 := by
  have hended : ((after QuietGarbage endedRun (by decide +kernel)).db.resources.get? 1).any
      (fun r => r.state = .ended) = true := by decide +kernel
  obtain ⟨r, hr, hstate⟩ := (Option.any_eq_true _ _).mp hended
  rw [decide_eq_true_eq] at hstate
  exact (Reaches.lifecycle (reaches_after _ _ _)).2 _ _
    (Path.of_execWithin (Option.some_get _).symm) 1 r hr hstate

/-- A second cycle starts a second terminator before the first one has begun, and
the first one ends the resource. -/
def revivedRun : List Action :=
  killedRun ++ ticks basicConfig 12 ++ List.replicate 3 (.worker 2 {})

/-- The second terminator takes the resource out of ENDED. -/
theorem ended_revived :
    ¬ ∀ as w a w', Reaches anyStep as w → w.step a = some w' → FollowsLifecycle w a w' := by
  intro h
  have hended : ((after anyStep revivedRun (by decide +kernel)).db.resources.get? 1).any
      (fun r => r.state = .ended) = true := by decide +kernel
  have hdeleting : ((step (after anyStep revivedRun (by decide +kernel)) (.worker 3 {})).bind
      fun w' => w'.db.resources.get? 1).any (fun r => r.state = .deleting) = true := by
    decide +kernel
  obtain ⟨r, hr, hstate⟩ := (Option.any_eq_true _ _).mp hended
  obtain ⟨r', hr', hstate'⟩ := (Option.any_eq_true _ _).mp hdeleting
  obtain ⟨w', hstep, hr'⟩ := Option.bind_eq_some_iff.mp hr'
  rw [decide_eq_true_eq] at hstate hstate'
  obtain ⟨⟨r₀, hr₀, hfollows⟩, -⟩ := h _ _ _ _ (reaches_after anyStep revivedRun _) hstep 1 r hr
  obtain rfl := Option.some.inj (hr'.symm.trans hr₀)
  simp [hstate, hstate', RState.follows] at hfollows

end World

end Resalloc
