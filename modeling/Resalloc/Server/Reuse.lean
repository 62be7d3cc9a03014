import Mathlib.Tactic.Linarith
import Resalloc.Server.Cycles
import Resalloc.Server.Isolation

/-!
# Re-use limits

The removal pass of a pool checks its released resources against the pool's
limits, and the assignment pass of the same cycle uses whatever is ready by then.
Between the two a {lit}`ReleaseWorker` may return a resource that the removal pass
has not seen.

Main results:

- Definition {lit}`Pool.Reusable`: the limits of a pool.
- Definition {lit}`World.ReturnsInTime`: workers that return no resource past its
  limits between the two passes.
- Theorem {lit}`World.Reaches.reused`: with them the limits hold at every
  assignment, and bound the number of tickets a resource serves.
- Theorem {lit}`World.reused_late`: otherwise they do not hold.
-/

namespace Resalloc

open Foundations

/-! ## Limits -/

/-- A released resource is within the limits of its pool. -/
def Pool.Reusable (p : Pool) (now : Time) (r : Resource) : Prop :=
  p.reuseOpportunityTime ≠ 0 ∧
    (∃ releasedAt ∈ r.releasedAt, now - p.reuseOpportunityTime ≤ releasedAt) ∧
    (p.reuseMaxTime ≠ 0 →
      ∃ sandboxedSince ∈ r.sandboxedSince, now - p.reuseMaxTime ≤ sandboxedSince) ∧
    (p.reuseMaxCount ≠ 0 → r.releasesCounter ≤ p.reuseMaxCount)

instance (p : Pool) (now : Time) (r : Resource) : Decidable (p.Reusable now r) :=
  inferInstanceAs (Decidable (_ ∧ _ ∧ _ ∧ _))

/-- The removal pass keeps exactly the resources within the limits. -/
theorem Pool.unusable_eq_false {p : Pool} {now : Time} {r : Resource} :
    p.unusable now r = .ok false ↔ p.Reusable now r := by
  unfold Pool.unusable Pool.Reusable
  by_cases hturnedOff : p.reuseOpportunityTime = 0
  · simp [hturnedOff]
  · cases r.releasedAt with
    | none => simp [hturnedOff]
    | some releasedAt =>
        by_cases hold : releasedAt < now - p.reuseOpportunityTime
        · have hlate : ¬ now ≤ releasedAt + p.reuseOpportunityTime := by linarith
          simp [hturnedOff, hold, hlate]
        · have hrecent : now ≤ releasedAt + p.reuseOpportunityTime := by linarith
          by_cases hunlimited : p.reuseMaxTime = 0
          · simp [hturnedOff, hold, hrecent, hunlimited]
          · cases r.sandboxedSince with
            | none => simp [hturnedOff, hold, hunlimited]
            | some sandboxedSince =>
                by_cases hlong : sandboxedSince < now - p.reuseMaxTime
                · have hlate : ¬ now ≤ sandboxedSince + p.reuseMaxTime := by linarith
                  simp [hturnedOff, hold, hunlimited, hlong, hlate]
                · have hsandboxed : now ≤ sandboxedSince + p.reuseMaxTime := by linarith
                  simp [hturnedOff, hold, hrecent, hunlimited, hlong, hsandboxed]

namespace World

variable {config : Config} {w w' u v : World} {a : Action} {as bs : List Action}
variable {id : ResourceId} {tid : TicketId} {r r' : Resource} {p : Pool}

/-! ## Returned resources between the two passes -/

/-- A resource of a pool that a ticket has used is ready. -/
def Returned (db : Db) (pool : String) (id : ResourceId) (r : Resource) : Prop :=
  db.resources.get? id = some r ∧ r.pool = pool ∧ r.state = .up ∧ r.ticketId = none ∧
    r.releasedAt ≠ none

/-- Outside the decoupling pass a resource becomes ready again by the last step of its
{lit}`ReleaseWorker` only. -/
theorem Histories.returned_cases (h : w.Histories config) (hinv : w.Inv)
    (hstep : w.Steps a w') (hdetect : ∀ c p rest, w.manager ≠ .detectClosed c p rest)
    {pool : String} (hreturned : Returned w'.db pool id r') :
    (∃ r, Returned w.db pool id r ∧ ∀ p now, Pool.Reusable p now r → p.Reusable now r') ∨
      ∃ k i q status r, a = .worker k i ∧ i.raises = false ∧
        w.Runs k q (.release id (.finish status)) ∧ w.db.resources.get? id = some r ∧
        r' = r.returned q status := by
  obtain ⟨hr', hpool, hup, hidle, hreleased⟩ := hreturned
  cases hr : w.db.resources.get? id with
  | none =>
      obtain ⟨_, _, _, _, _, -, -, -, rfl⟩ := hstep.created hinv.linked hr' hr
      simp [Pool.newResource] at hup
  | some r =>
      obtain ⟨r₀, hr₀, hrow⟩ := hstep.resource hinv.linked hr
      obtain rfl := Option.some.inj (hr'.symm.trans hr₀)
      cases hrow with
      | same | checked =>
          exact .inl ⟨_, ⟨hr, hpool, hup, hidle, hreleased⟩, fun p now hreusable => hreusable⟩
      | decoupled _ hmanager => exact absurd hmanager (hdetect _ _ _)
      | assigned => simp [Resource.assigned] at hidle
      | retired | killed | broken | terminating | ended => simp [Resource.retired] at hup
      | started hruns =>
          have hstate := hinv.owned.starting hruns hr
          exact absurd (h.starting hr hstate) hreleased
      | @returned k i q status hruns hok =>
          exact .inr ⟨k, i, q, status, r, rfl, hok, hruns, rfl, rfl⟩

/-- A worker that returns no resource past its limits after the removal pass of the
pool, and before the assignment pass. -/
def ReturnsInTime (w : World) (worker : Worker) : Prop :=
  ∀ finish ∈ worker.job.finish?, ∀ e ∈ w.manager.reviews, e.1 = worker.pool.name →
    ∀ r ∈ w.db.resources.get? finish.1,
      worker.pool.Reusable e.2 (r.returned worker.pool finish.2)

instance (w : World) (worker : Worker) : Decidable (ReturnsInTime w worker) :=
  inferInstanceAs (Decidable (∀ _ ∈ _, _))

/-- What the assignment pass relies on: the returned resources are within their limits,
at the times of the removal passes. -/
structure Reviewed (config : Config) (w : World) : Prop where
  reviewed : ∀ p ∈ config.pools, ∀ now, (p.name, now) ∈ w.manager.reviews →
    ∀ id r, Returned w.db p.name id r → p.Reusable now r
  remembered : ∀ {c queue ids}, w.manager = .assign c queue ids → ∀ p ∈ config.pools,
    ∀ now, (p.name, now) ∈ c.removalClock →
      ∀ id ∈ ids, ∀ r, Returned w.db p.name id r → p.Reusable now r

/-- The removal passes are relied upon outside the decoupling pass. -/
theorem ne_detectClosed_of_reviews {e : String × Time} (he : e ∈ w.manager.reviews) :
    ∀ c p rest, w.manager ≠ .detectClosed c p rest := by
  rintro c p rest hmanager
  simp [hmanager, ManagerPc.reviews] at he

/-- The returned resources stay within the limits that the removal passes have
checked. -/
theorem Reviewed.reviewed_step (h : w.Reviewed config) (hcycling : w.Cycling config)
    (hok : OnWorkers ReturnsInTime w a)
    (hstep : w.Steps a w') : ∀ p ∈ config.pools, ∀ now, (p.name, now) ∈ w'.manager.reviews →
      ∀ id r, Returned w'.db p.name id r → p.Reusable now r := by
  obtain ⟨hinv, hconfig, hcovered, hhistories, -⟩ := hcycling
  intro p hp now he id r' hreturned
  rcases hstep.reviews_cases hcovered he with hold | ⟨i, c, q, rest, rfl, hmanager, heq, hremoval⟩
  · rcases hhistories.returned_cases hinv hstep (ne_detectClosed_of_reviews hold) hreturned with
      ⟨r, hbefore, hkept⟩ | ⟨k, i, q, status, r, rfl, hraises, hruns, hr, rfl⟩
    · exact hkept p now (h.reviewed p hp now hold id r hbefore)
    · have hname : q.name = p.name :=
        (hconfig.release_pool hinv hruns hr).2.symm.trans hreturned.2.1
      have hbase := hconfig.runs_base hruns hp hname
      have htime : q.Reusable now (r.returned q status) :=
        hok.runs hraises hruns _ rfl _ hold hname.symm r hr
      rw [← hbase]
      exact htime
  · obtain ⟨hname, rfl⟩ := by simpa using heq
    have hkept := (hinv.linked.removes hremoval).usable
    obtain ⟨hr', hpool, hup, hidle, hreleased⟩ := hreturned
    have hq : q.base = p :=
      config.eq_of_name (hconfig.current q (by simp [hmanager, ManagerPc.current])) hp hname.symm
    have hreusable := Pool.unusable_eq_false.mp <|
      hkept id r' hr' (fun _ => by rw [hpool, hname]) hup hidle hreleased
    rw [← hq]
    exact hreusable

/-- The assignment pass goes on with the limits that hold when it begins. -/
theorem Reviewed.remembered_step (h : w.Reviewed config) (hcycling : w.Cycling config)
    (hstep : w.Steps a w') {c : Cycle}
    {queue : PriorityQueue TicketId} {ids : List ResourceId}
    (hpc : w'.manager = .assign c queue ids) :
    ∀ p ∈ config.pools, ∀ now, (p.name, now) ∈ c.removalClock →
      ∀ id ∈ ids, ∀ r, Returned w'.db p.name id r → p.Reusable now r := by
  intro p hp now he id hid r' hreturned
  have hkept : ∀ {queue'}, w.manager = .assign c queue' ids → p.Reusable now r' := by
    intro queue' hold
    rcases hcycling.histories.returned_cases hcycling.inv hstep (by simp [hold]) hreturned with
      ⟨r, hbefore, hkept⟩ | ⟨k, i, q, status, r, -, -, hruns, hr, -⟩
    · exact hkept p now (h.remembered hold p hp now he id hid r hbefore)
    · obtain ⟨r₁, hr₁, -, hsettled⟩ := hcycling.settled _ _ _ hold id hid
      exact absurd (hcycling.inv.owned.releasing hruns hr₁) hsettled
  rcases hstep.assign_cases hpc with ⟨hold, -⟩ | ⟨i, -, hold, hdb, -⟩ |
    ⟨i, tid, before, -, hold, -⟩
  · exact hkept hold
  · rw [hdb] at hreturned
    exact h.reviewed p hp now (by rwa [hold]) id r' hreturned
  · exact hkept hold

/-! ## Runs -/

/-- The configuration stays as it is, and every worker returns its resource in time. -/
def ReuseInTime (config : Config) (w : World) (a : Action) : Prop :=
  Loads config w a ∧ OnWorkers ReturnsInTime w a

instance (config : Config) (w : World) (a : Action) : Decidable (ReuseInTime config w a) :=
  inferInstanceAs (Decidable (_ ∧ _))

/-- The limits hold between the passes of every cycle. -/
theorem Reaches.reviewed (h : Reaches (ReuseInTime config) as w) :
    w.Cycling config ∧ w.Reviewed config := by
  refine h.invariant (P := fun u : World => u.Cycling config ∧ u.Reviewed config)
    ⟨cycling_init config, ⟨by simp [init, ManagerPc.reviews], by simp [init]⟩⟩ ?_
  rintro u a v ⟨hcycling, hreviewed⟩ ⟨hloads, hok⟩ hstep
  have hsteps := step_cases hstep
  exact ⟨hcycling.step hloads hstep, hreviewed.reviewed_step hcycling hok hsteps,
    fun {c queue ids} hpc => hreviewed.remembered_step hcycling hsteps hpc⟩

/-- An assignment gives a used resource only within the limits of its pool, at the time
of the pool's removal pass in the same cycle. -/
theorem Reviewed.assignment (h : w.Reviewed config) (hcycling : w.Cycling config)
    (hassign : w.assignment? a = some (id, tid)) (hr : w.db.resources.get? id = some r)
    (hreleased : r.releasedAt ≠ none) :
    ∃ p ∈ config.pools, p.name = r.pool ∧ ∃ c, w.manager.cycle? = some c ∧
      p.name ∈ c.removalClock.map Prod.fst ∧
      ∀ now, (p.name, now) ∈ c.removalClock → p.Reusable now r := by
  obtain ⟨i, c, queue, ids, queue', -, hmanager, -, hchoose⟩ := assignment?_some hassign
  obtain ⟨t, r₀, -, hr₀, hup, hidle, -, hid, -⟩ := chooseResource_some hchoose
  obtain rfl := Option.some.inj (hr.symm.trans hr₀)
  obtain ⟨p, hp, hname⟩ := hcycling.histories.pool hr
  refine ⟨p, hp, hname, c, by rw [hmanager]; rfl, ?_, fun now he =>
    h.remembered hmanager p hp now he id hid r ⟨hr, hname.symm, hup, hidle, hreleased⟩⟩
  have hpassed := @hcycling.covered.passed c [] (by rw [hmanager]; rfl) (by rw [hmanager]; rfl) p hp
  simpa using hpassed

/-- The number of tickets a resource has been assigned to in a run. -/
def served (as : List Action) (id : ResourceId) : ℕ :=
  (assignments as).countP fun e => e.1 = id

/-- The number of served tickets after one more step. -/
theorem Reaches.served_snoc {ok : World → Action → Prop} (h : Reaches ok as w)
    (hstep : w.step a = some w') (id : ResourceId) :
    served (as ++ [a]) id =
      served as id + if (w.assignment? a).any (fun e => e.1 = id) then 1 else 0 := by
  have hsnoc : assignments (as ++ [a]) = assignments as ++ (w.assignment? a).toList :=
    h.observe_snoc _ hstep
  rw [served, hsnoc, List.countP_append, served]
  cases w.assignment? a <;> simp [List.countP_singleton]

/-- A resource serves no more tickets than the limits of its pool allow. -/
structure ServesWithin (p : Pool) (r : Resource) (served : ℕ) : Prop where
  unused : r.ticketId = none → r.releasedAt = none → served = 0
  once : p.reuseOpportunityTime = 0 → served ≤ 1
  counted : 0 < p.reuseMaxCount →
    (served : Int) ≤ r.releasesCounter + if r.ticketId = none then 0 else 1
  limited : 0 < p.reuseMaxCount → (served : Int) ≤ p.reuseMaxCount + 1

/-- One more ticket is within the limits, because the assignment is. -/
theorem ServesWithin.assigned {n : ℕ} (h : ServesWithin p r n) (hp : p.name = r.pool)
    (hnodup : ∀ q ∈ config.pools, q.name = r.pool → q = p) (hreviewed : w.Reviewed config)
    (hcycling : w.Cycling config) (hassign : w.assignment? a = some (id, tid))
    (hr : w.db.resources.get? id = some r) (hidle : r.ticketId = none) (t : Ticket)
    (uuid : String) (now : Time) : ServesWithin p (r.assigned tid t uuid now) (n + 1) := by
  by_cases hreleased : r.releasedAt = none
  · have hzero : n = 0 := h.unused hidle hreleased
    have hcounter : r.releasesCounter = 0 := hcycling.histories.counter hr hreleased
    refine ⟨by simp [Resource.assigned], fun _ => by omega, fun _ => ?_, fun _ => by omega⟩
    simp [Resource.assigned, hcounter, hzero]
  · obtain ⟨q, hq, hname, c, -, hpassed, hreusable⟩ :=
      hreviewed.assignment hcycling hassign hr hreleased
    obtain rfl := hnodup q hq hname
    obtain ⟨⟨_, clock⟩, he, hclock⟩ := List.mem_map.mp hpassed
    obtain ⟨hturnedOn, -, -, hcount⟩ := hreusable clock (by rw [← hclock]; exact he)
    refine ⟨by simp [Resource.assigned], fun hoff => absurd hoff hturnedOn, fun hpos => ?_,
      fun hpos => ?_⟩
    all_goals
      have hcounted := h.counted hpos
      have hwithin := hcount hpos.ne'
      simp only [hidle, if_true, Resource.assigned, reduceCtorEq, if_false] at hcounted ⊢
      push_cast
      omega

/-- Steps that assign nothing keep the number of served tickets within the limits. -/
theorem ServesWithin.row {n : ℕ} (h : ServesWithin p r n) (hp : p ∈ config.pools)
    (hpool : p.name = r.pool) (hcycling : w.Cycling config)
    (hr : w.db.resources.get? id = some r) (hrow : w.ResourceSteps id r a r')
    (hassign : ∀ tid, w.assignment? a ≠ some (id, tid)) : ServesWithin p r' n := by
  cases hrow with
  | same | checked | retired | killed | broken | terminating | ended | started =>
      exact ⟨h.unused, h.once, h.counted, h.limited⟩
  | assigned _ hnow => exact absurd hnow (hassign _)
  | decoupled =>
      refine ⟨by simp [Resource.decoupled, Resource.released], h.once, fun hpos => ?_, h.limited⟩
      have hcounted := h.counted hpos
      simp only [Resource.decoupled, Resource.released, if_true]
      split_ifs at hcounted <;> omega
  | @returned k i q status hruns =>
      obtain ⟨hstate, hname⟩ := hcycling.configured.release_pool hcycling.inv hruns hr
      have hidle := hcycling.inv.linked.idle hr (.inr hstate)
      have hbase := hcycling.configured.runs_base hruns hp (hname.symm.trans hpool.symm)
      refine ⟨h.unused, h.once, fun hpos => ?_, h.limited⟩
      have hcounted := h.counted hpos
      have hlimited := h.limited hpos
      have hcount : q.reuseMaxCount = p.reuseMaxCount := by rw [← hbase, Pool.base]
      simp only [hidle, if_true, Resource.returned] at hcounted ⊢
      split_ifs <;> omega

/-- In every reachable state all resources have served within the limits. -/
theorem Reaches.servesWithin (h : Reaches (ReuseInTime config) as w) :
    ∀ id r, w.db.resources.get? id = some r → ∀ p ∈ config.pools, p.name = r.pool →
      ServesWithin p r (served as id) := by
  induction h with
  | refl => simp [init]
  | @snoc as w w' a hrun hok hstep ih =>
      intro id r' hr' p hp hpool
      obtain ⟨hcycling, hreviewed⟩ := Reaches.reviewed hrun
      have hsteps := step_cases hstep
      rw [Reaches.served_snoc hrun hstep]
      cases hr : w.db.resources.get? id with
      | none =>
          -- a new resource has no ticket, and had none
          obtain ⟨i, c, q, rest, name, rfl, hmanager, -, rfl⟩ :=
            hsteps.created hcycling.inv.linked hr' hr
          have hnone : served as id = 0 := by
            refine List.countP_eq_zero.mpr fun e he hid => ?_
            obtain ⟨t, ht, hlink⟩ := @Reaches.mem_assignments _ _ _ e.2 _ hrun he
            obtain ⟨r, hold, -⟩ := hcycling.inv.linked.resource ht hlink
            rw [decide_eq_true_eq] at hid
            simp [hid, hr] at hold
          have hassign : w.assignment? (.manager i) = none := by
            simp [assignment?, hmanager, ManagerPc.assignment?]
          rw [hnone, hassign]
          exact ⟨by simp, by simp, by simp [Pool.newResource], fun hpos => by simp; omega⟩
      | some r =>
          obtain ⟨r₀, hr₀, hrow⟩ := hsteps.resource hcycling.inv.linked hr
          obtain rfl := Option.some.inj (hr'.symm.trans hr₀)
          have hpool₀ : p.name = r.pool := hpool.trans hrow.pool
          have hold := ih id r hr p hp hpool₀
          by_cases hassign : ∃ tid, w.assignment? a = some (id, tid)
          · obtain ⟨tid, hassign⟩ := hassign
            obtain ⟨i, c, queue, queue', ids, -, -, -, hchoose, rfl⟩ :=
              step_of_assignment hassign hstep
            obtain ⟨t, r₁, ht, hr₁, -, hidle, -⟩ := chooseResource_some hchoose
            obtain rfl := Option.some.inj (hr.symm.trans hr₁)
            obtain rfl : r.assigned tid t i.uuid.1 i.now = r' := by
              simpa [assignTicket_resource _ _ _ _ _ ht, hr] using hr'
            simp only [hassign, Option.any_some, decide_true, if_true]
            exact hold.assigned hpool₀
              (fun q hq hname => config.eq_of_name hq hp (hname.trans hpool₀.symm)) hreviewed
              hcycling hassign hr hidle t _ _
          · have hzero : (w.assignment? a).any (fun e => e.1 = id) = false := by
              cases hnext : w.assignment? a with
              | none => rfl
              | some e =>
                  refine decide_eq_false fun he => hassign ⟨e.2, ?_⟩
                  rw [hnext, ← he]
            rw [hzero]
            exact hold.row hp hpool₀ hcycling hr hrow (not_exists.mp hassign)

/-- The re-use limits hold in a state: for every assignment that the next action may
make of a used resource, and for the number of tickets each resource has served. -/
def ReuseLimited (config : Config) (as : List Action) (w : World) : Prop :=
  (∀ a id tid r, w.assignment? a = some (id, tid) → w.db.resources.get? id = some r →
    r.releasedAt ≠ none → ∃ p ∈ config.pools, p.name = r.pool ∧
      ∃ c, w.manager.cycle? = some c ∧ p.name ∈ c.removalClock.map Prod.fst ∧
        ∀ now, (p.name, now) ∈ c.removalClock → p.Reusable now r) ∧
  ∀ id r, w.db.resources.get? id = some r → ∀ p ∈ config.pools, p.name = r.pool →
    (p.reuseOpportunityTime = 0 → served as id ≤ 1) ∧
    (0 < p.reuseMaxCount → (served as id : Int) ≤ p.reuseMaxCount + 1)

/-- With a configuration that does not change the re-use limits hold in every reachable
state, unless a worker returns a resource past them between the two passes. -/
theorem Reaches.reused (h : Reaches (ReuseInTime config) as w) : ReuseLimited config as w := by
  obtain ⟨hcycling, hreviewed⟩ := Reaches.reviewed h
  refine ⟨fun a id tid r hassign hr hreleased => hreviewed.assignment hcycling hassign hr hreleased,
    fun id r hr p hp hname => ?_⟩
  have hserves := Reaches.servesWithin h id r hr p hp hname
  exact ⟨hserves.once, hserves.limited⟩

/-- The basic pool with a release command, and a time for re-use. -/
def releasePool (reuseOpportunityTime : Time) : Pool :=
  { basicPool with
    cmdRelease := some "release"
    reuseOpportunityTime := reuseOpportunityTime }

/-- The configurations with such a pool. -/
def releaseConfig (reuseOpportunityTime : Time) : Config :=
  .single (releasePool reuseOpportunityTime)
    (by simp [releasePool, basicPool, Pool.validate, onDemandTags, Pool.tagSetOnDemand,
      truthy_some])

/-- Two tickets of one sandbox: the first one is served and closed, and the worker runs
the release command after some steps of the cycle that has started it. -/
def releasingRun (config : Config) (n : ℕ) (status : Int) : List Action :=
  .takeTicket [] (some "box") :: ticks config 8 ++ List.replicate 3 (.worker 1 { now := 20 }) ++
    ticks config 12 ++ [.closeTicket 1, .takeTicket [] (some "box")] ++ ticks config n ++
    List.replicate 2 (.worker 2 { output := { status := status } })

/-- The worker returns the resource, and the manager goes on up to the assignment of the
second ticket. -/
def assigningSteps (config : Config) (n : ℕ) : List Action := .worker 2 {} :: ticks config n

/-- The whole run. -/
def assigningRun (config : Config) (n : ℕ) (status : Int) : List Action :=
  releasingRun config n status ++ assigningSteps config (11 - n)

/-- The limits of a run whose release is finished before the removal pass. -/
theorem reused_assigningRun :
    ReuseLimited (releaseConfig 100) (assigningRun (releaseConfig 100) 5 0)
      (after (ReuseInTime (releaseConfig 100)) (assigningRun (releaseConfig 100) 5 0)
        (by decide +kernel)) :=
  Reaches.reused (reaches_after _ _ _)

/-- A resource that is returned after the removal pass is assigned once more, though the
pool does not re-use resources. -/
theorem reused_late :
    ¬ ∀ (config : Config) (as : List Action) (w : World), Reaches (Loads config) as w →
      ReuseLimited config as w := by
  intro h
  have hrun : (execWithin step (Loads (releaseConfig 0)) init
      (assigningRun (releaseConfig 0) 7 0)).isSome = true := by decide +kernel
  have hassign : (after (Loads (releaseConfig 0)) (assigningRun (releaseConfig 0) 7 0)
      (by decide +kernel)).assignment? (.manager {}) = some (1, 2) := by decide +kernel
  have hused : ((after (Loads (releaseConfig 0)) (assigningRun (releaseConfig 0) 7 0)
      (by decide +kernel)).db.resources.get? 1).any (fun r => r.releasedAt ≠ none) = true := by
    decide +kernel
  obtain ⟨r, hr, hreleased⟩ := (Option.any_eq_true _ _).mp hused
  rw [decide_eq_true_eq] at hreleased
  obtain ⟨p, hp, -, c, -, hpassed, hlimits⟩ :=
    (h (releaseConfig 0) _ _ (reaches_after _ _ hrun)).1 _ 1 2 r hassign hr hreleased
  obtain ⟨⟨_, now⟩, he, rfl⟩ := List.mem_map.mp hpassed
  obtain rfl := List.mem_singleton.mp hp
  exact (hlimits now he).1 rfl

end World

end Resalloc
