import Resalloc.Server.Reuse

/-!
# Failed releases

A {lit}`ReleaseWorker` whose command has failed marks its resource for removal with
the releases counter: the removal pass of the pool is expected to find that counter
too high.  It does unless the pool re-uses resources without a limit of their
number, or the pass of the running cycle is over already.

Main results:

- Definition {lit}`World.MarksForRemoval`: workers whose mark will be found.
- Theorem {lit}`World.Cycling.marked_step`: a marked resource stays marked until it
  is removed.
- Theorem {lit}`World.Reaches.failed_unused`: it is never assigned again.
- Theorem {lit}`World.failed_reused`: without a limit of their number, a resource is
  used again after a failed release.
-/

namespace Resalloc

open Foundations

/-- The counter that a failed release leaves is too high for the pool, if the pool
limits the number of re-uses. -/
theorem Pool.not_reusable_of_failed {p : Pool} {r : Resource} {now : Time}
    (hcounter : r.releasesCounter = p.reuseMaxCount + 1)
    (hlimited : p.reuseOpportunityTime = 0 ∨ p.reuseMaxCount ≠ 0) : ¬ p.Reusable now r := by
  rintro ⟨hturnedOn, -, -, hcount⟩
  rcases hlimited with hturnedOff | hlimited
  · exact hturnedOn hturnedOff
  · have hle := hcount hlimited
    omega

namespace World

variable {config : Config} {w w' u v : World} {a : Action} {as bs : List Action}
variable {id : ResourceId} {tid : TicketId} {r r' : Resource} {p q : Pool} {k : ℕ} {i : Input}
variable {status : Int}

/-- A worker that records a failed release in a pool that limits the number of re-uses,
and not between the pool's removal pass and the assignment pass. -/
def MarksForRemoval (w : World) (worker : Worker) : Prop :=
  ∀ finish ∈ worker.job.finish?, finish.2 = 0 ∨
    (worker.pool.reuseOpportunityTime = 0 ∨ worker.pool.reuseMaxCount ≠ 0) ∧
      ∀ e ∈ w.manager.reviews, e.1 ≠ worker.pool.name

instance (w : World) (worker : Worker) : Decidable (MarksForRemoval w worker) :=
  inferInstanceAs (Decidable (∀ _ ∈ _, _))

/-- A resource that waits for the removal pass of its pool after a failed release. -/
structure Marked (config : Config) (w : World) (id : ResourceId) (r : Resource) : Prop where
  up : r.state = .up
  idle : r.ticketId = none
  released : r.releasedAt ≠ none
  failed : ∃ p ∈ config.pools, p.name = r.pool ∧ r.releasesCounter = p.reuseMaxCount + 1 ∧
    (p.reuseOpportunityTime = 0 ∨ p.reuseMaxCount ≠ 0)
  unreviewed : ∀ e ∈ w.manager.reviews, e.1 ≠ r.pool
  forgotten : ∀ c queue ids, w.manager = .assign c queue ids → id ∉ ids

/-- A resource that no ticket will get any more. -/
def Discarded (config : Config) (id : ResourceId) (w : World) : Prop :=
  ∃ r, w.db.resources.get? id = some r ∧ (r.state.leaving = true ∨ w.Marked config id r)

/-- A failed release marks its resource. -/
theorem Cycling.marked_returned (h : w.Cycling config)
    (hruns : w.Runs k q (.release id (.finish status))) (hok : i.raises = false)
    (hfailed : status ≠ 0) (hmarks : OnWorkers MarksForRemoval w (.worker k i))
    (hnext : w.step (.worker k i) = some w') : Discarded config id w' := by
  obtain ⟨r, hr, hstate, -⟩ := h.inv.owned.release hruns
  obtain ⟨-, hname⟩ := h.configured.release_pool h.inv hruns hr
  have hidle : r.ticketId = none := h.inv.linked.idle hr (.inr hstate)
  have hreleased : r.releasedAt ≠ none := h.histories.releasing hr hstate
  have hcounter : (r.returned q status).releasesCounter = q.base.reuseMaxCount + 1 := by
    simp [Resource.returned, hfailed, Pool.base]
  obtain ⟨hlimited, hunreviewed⟩ := (hmarks.runs hok hruns _ rfl).resolve_left hfailed
  have hworker : w.workers.get? k = some { pool := q, job := .release id (.finish status) } := hruns
  simp only [World.step, hworker, Worker.step, hok, releaseFinish, hr, if_true, Bool.false_eq_true,
    if_false] at hnext
  obtain rfl := Option.some.inj hnext
  refine ⟨r.returned q status, by simp [hr], .inr ⟨rfl, hidle, hreleased,
    ⟨q.base, h.configured.threads hruns, hname.symm, hcounter, hlimited⟩, fun e he => ?_, ?_⟩⟩
  · rw [show (r.returned q status).pool = q.name from hname]
    exact hunreviewed e he
  · intro c queue ids hmanager hid
    obtain ⟨r₀, hr₀, -, hsettled⟩ := h.settled c queue ids hmanager id hid
    obtain rfl := Option.some.inj (hr.symm.trans hr₀)
    exact hsettled hstate

/-- A removal pass that has seen a marked resource has removed it. -/
theorem Cycling.unreviewed_step (h : w.Cycling config) (hmarked : w.Marked config id r)
    (hstep : w.Steps a w') (hreturned : Returned w'.db r.pool id r')
    (hsame : r'.releasesCounter = r.releasesCounter) :
    ∀ e ∈ w'.manager.reviews, e.1 ≠ r.pool := by
  intro e he hname
  rcases hstep.reviews_cases h.covered he with hold | ⟨i, c, q, rest, -, hmanager, rfl, hremoval⟩
  · exact hmarked.unreviewed e hold hname
  · obtain ⟨p, hp, hpool, hcounter, hlimited⟩ := hmarked.failed
    have hkept := (h.inv.linked.removes hremoval).usable
    have hq : q.base = p := config.eq_of_name
      (h.configured.current q (by simp [hmanager, ManagerPc.current])) hp (hname.trans hpool.symm)
    obtain ⟨hr', hpool', hup, hidle, hreleased⟩ := hreturned
    have hreusable : q.Reusable i.now r' := Pool.unusable_eq_false.mp <|
      hkept id r' hr' (fun _ => by rw [hpool', ← hname]) hup hidle hreleased
    have hnot : ¬ p.Reusable i.now r' :=
      Pool.not_reusable_of_failed (hsame.trans hcounter) hlimited
    rw [← hq] at hnot
    exact hnot hreusable

/-- The assignment pass begins without the marked resources. -/
theorem Cycling.forgotten_step (h : w.Cycling config) (hmarked : w.Marked config id r)
    (hstep : w.Steps a w') :
    ∀ c queue ids, w'.manager = .assign c queue ids → id ∉ ids := by
  intro c queue ids hpc
  rcases hstep.assign_cases hpc with ⟨hold, -⟩ | ⟨i, -, hcollect, -, -⟩ |
    ⟨i, tid, before, -, hold, -⟩
  · exact hmarked.forgotten c queue ids hold
  · -- the removal pass of its pool is over by then
    obtain ⟨p, hp, hpool, -⟩ := hmarked.failed
    have hpassed := @h.covered.passed c [] (by rw [hcollect]; rfl) (by rw [hcollect]; rfl) p hp
    have hclock : p.name ∈ c.removalClock.map Prod.fst := by simpa using hpassed
    obtain ⟨e, he, hname⟩ := List.mem_map.mp hclock
    exact absurd (hname.trans hpool) (hmarked.unreviewed e (by rwa [hcollect]))
  · exact hmarked.forgotten c before ids hold

/-- A marked resource stays marked until it is removed. -/
theorem Cycling.marked_step (h : w.Cycling config) (hr : w.db.resources.get? id = some r)
    (hmarked : w.Marked config id r) (hstep : w.Steps a w') : Discarded config id w' := by
  obtain ⟨r', hr', hrow⟩ := hstep.resource h.inv.linked hr
  refine ⟨r', hr', ?_⟩
  cases hrow with
  | same | checked =>
      exact .inr ⟨hmarked.up, hmarked.idle, hmarked.released, hmarked.failed,
        h.unreviewed_step (r := r) hmarked hstep
          ⟨hr', rfl, hmarked.up, hmarked.idle, hmarked.released⟩ rfl,
        h.forgotten_step (r := r) hmarked hstep⟩
  | decoupled _ _ hclosing =>
      have hclosed := hclosing.2.2
      simp [Db.ticketClosed, hmarked.idle] at hclosed
  | retired | killed | broken | terminating | ended => exact .inl rfl
  | assigned _ hassign =>
      obtain ⟨i, c, queue, ids, queue', -, hmanager, -, hchoose⟩ := assignment?_some hassign
      obtain ⟨t, r₀, -, -, -, -, -, hid, -⟩ := chooseResource_some hchoose
      exact absurd hid (hmarked.forgotten c queue ids hmanager)
  | started hruns =>
      have hstate := h.inv.owned.starting hruns hr
      simp [hmarked.up] at hstate
  | returned hruns =>
      have hstate := h.inv.owned.releasing hruns hr
      simp [hmarked.up] at hstate

/-- A discarded resource stays discarded. -/
theorem Cycling.discarded_step (h : w.Cycling config) (hdiscarded : Discarded config id w)
    (hstep : w.Steps a w') : Discarded config id w' := by
  obtain ⟨r, hr, hleaving | hmarked⟩ := hdiscarded
  · obtain ⟨r', hr', hrow⟩ := hstep.resource h.inv.linked hr
    exact ⟨r', hr', .inl (h.inv.leaving_kept hrow hr hleaving)⟩
  · exact h.marked_step hr hmarked hstep

/-- A discarded resource is not assigned. -/
theorem Discarded.not_assigned (h : Discarded config id w) :
    w.assignment? a ≠ some (id, tid) := by
  intro hassign
  obtain ⟨i, c, queue, ids, queue', -, hmanager, -, hchoose⟩ := assignment?_some hassign
  obtain ⟨t, r₀, -, hr₀, hup, -, -, hid, -⟩ := chooseResource_some hchoose
  obtain ⟨r, hr, hleaving | hmarked⟩ := h
  · obtain rfl := Option.some.inj (hr.symm.trans hr₀)
    simp [hup, RState.leaving] at hleaving
  · exact hmarked.forgotten c queue ids hmanager hid

/-! ## Runs -/

/-- The configuration stays as it is, and every failed release marks its resource for
removal. -/
def FailsMarked (config : Config) (w : World) (a : Action) : Prop :=
  Loads config w a ∧ OnWorkers MarksForRemoval w a

instance (config : Config) (w : World) (a : Action) : Decidable (FailsMarked config w a) :=
  inferInstanceAs (Decidable (_ ∧ _))

/-- With a configuration that does not change, a resource whose release has failed is
never assigned again, if every failed release is recorded where the removal pass finds
it. -/
theorem Reaches.failed_unused (h : Reaches (FailsMarked config) as w)
    (hruns : w.Runs k q (.release id (.finish status))) (hok : i.raises = false)
    (hfailed : status ≠ 0) (hrest : Path step (FailsMarked config) w (.worker k i :: bs) u) :
    ∀ a tid, u.assignment? a ≠ some (id, tid) := by
  have hcycling : w.Cycling config :=
    h.invariant (cycling_init config) fun _ _ _ hcycling hok hstep => hcycling.step hok.1 hstep
  obtain ⟨v, ⟨hloads, hmarks⟩, hnext, hrest⟩ := hrest.cons_inv
  have hdiscarded := hcycling.marked_returned hruns hok hfailed hmarks hnext
  have hboth : u.Cycling config ∧ Discarded config id u := by
    refine hrest.invariant (P := fun u : World => u.Cycling config ∧ Discarded config id u)
      ⟨hcycling.step hloads hnext, hdiscarded⟩ ?_
    rintro x b y ⟨hcycling, hdiscarded⟩ hok hstep
    exact ⟨hcycling.step hok.1 hstep, hcycling.discarded_step hdiscarded (step_cases hstep)⟩
  exact fun a tid => hboth.2.not_assigned

/-- A failed release in a pool that does not re-use resources, and a ticket that waits
for one. -/
theorem failed_unused_releasingRun :
    ((execWithin step (FailsMarked (releaseConfig 0))
      (after (FailsMarked (releaseConfig 0)) (releasingRun (releaseConfig 0) 5 1)
        (by decide +kernel)) (assigningSteps (releaseConfig 0) 6)).get
          (by decide +kernel)).assignment? (.manager {}) ≠ some (1, 2) := by
  have hruns : (after (FailsMarked (releaseConfig 0)) (releasingRun (releaseConfig 0) 5 1)
      (by decide +kernel)).Runs 2 (releasePool 0) (.release 1 (.finish 1)) := by
    unfold Runs
    decide +kernel
  exact Reaches.failed_unused (reaches_after _ _ _) hruns rfl (by decide)
    (Path.of_execWithin (Option.some_get _).symm) _ _

/-- A pool that re-uses resources without a limit of their number assigns a resource
whose release has failed. -/
theorem failed_reused :
    ¬ ∀ (config : Config) (as bs : List Action) (w u : World) (k : ℕ) (i : Input) (q : Pool)
        (id : ResourceId) (status : Int), Reaches (Loads config) as w →
      w.Runs k q (.release id (.finish status)) → i.raises = false → status ≠ 0 →
      Path step (Loads config) w (.worker k i :: bs) u →
        ∀ a tid, u.assignment? a ≠ some (id, tid) := by
  intro h
  have hrun : (execWithin step (Loads (releaseConfig 100)) init
      (releasingRun (releaseConfig 100) 5 1)).isSome = true := by decide +kernel
  have hruns : (after (Loads (releaseConfig 100)) (releasingRun (releaseConfig 100) 5 1)
      (by decide +kernel)).Runs 2 (releasePool 100) (.release 1 (.finish 1)) := by
    unfold Runs
    decide +kernel
  have hassign : ((execWithin step (Loads (releaseConfig 100))
      (after (Loads (releaseConfig 100)) (releasingRun (releaseConfig 100) 5 1)
        (by decide +kernel)) (assigningSteps (releaseConfig 100) 6)).bind fun u =>
          u.assignment? (.manager {})) = some (1, 2) := by decide +kernel
  obtain ⟨u, hu, hassign⟩ := Option.bind_eq_some_iff.mp hassign
  exact h _ _ _ _ u 2 {} _ 1 1 (reaches_after _ _ hrun) hruns rfl (by decide)
    (Path.of_execWithin hu) _ 2 hassign

end World

end Resalloc
