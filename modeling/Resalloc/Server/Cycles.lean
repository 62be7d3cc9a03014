import Resalloc.Server.Configured

/-!
# The passes of a cycle

A cycle of the manager runs the removal pass of every pool before it assigns
tickets.  This file tells which removal passes the coming assignment pass relies
on, and what the columns of a resource tell about its past.

Main results:

- Definition {lit}`ManagerPc.reviews`: the removal passes that were run.
- Definition {lit}`World.Cycling`: what holds between the passes of a cycle.
- Theorem {lit}`World.Cycling.step`: every action keeps it.
-/

namespace Resalloc

open Foundations

/-! ## Passes of a cycle -/

namespace ManagerPc

/-- The removal passes that the coming assignment pass relies on, with the clock
values they have read. -/
def reviews : ManagerPc → List (String × Time)
  | .removal c _ _ | .garbage c _ _ | .stats c _ _ | .tooSoon c _ _ | .allocate c _ _
  | .cleanUnknown c _ _ | .markCleaned c _ _ | .collect c => c.removalClock
  | .wait | .detectClosed _ _ _ | .plan _ | .assign _ _ _ | .stopped _ => []

/-- The pools whose removal pass is still to come in this cycle, after the planning. -/
def unreviewed? : ManagerPc → Option (List Pool)
  | .removal _ p rest => some (p :: rest)
  | .garbage _ _ rest | .stats _ _ rest | .tooSoon _ _ rest | .allocate _ _ rest
  | .cleanUnknown _ _ rest | .markCleaned _ _ rest => some rest
  | .collect _ | .assign _ _ _ => some []
  | .wait | .detectClosed _ _ _ | .plan _ | .stopped _ => none

@[simp]
theorem nextDetect_reviews (c : Cycle) (pools : List Pool) : (nextDetect c pools).reviews = [] := by
  cases pools <;> rfl

@[simp]
theorem nextPool_reviews (c : Cycle) (pools : List Pool) :
    (nextPool c pools).reviews = c.removalClock := by
  cases pools <;> rfl

@[simp]
theorem nextDetect_unreviewed? (c : Cycle) (pools : List Pool) :
    (nextDetect c pools).unreviewed? = none := by
  cases pools <;> rfl

@[simp]
theorem nextPool_unreviewed? (c : Cycle) (pools : List Pool) :
    (nextPool c pools).unreviewed? = some pools := by
  cases pools <;> rfl

end ManagerPc

namespace World

variable {config : Config} {w w' u v : World} {a : Action} {as bs : List Action}
variable {id : ResourceId} {tid : TicketId} {r r' : Resource} {p : Pool}

/-- In a cycle the removal pass of every pool has been run, or is still to come. -/
structure Covered (config : Config) (w : World) : Prop where
  /-- Up to the planning the local variables are as they were loaded. -/
  loaded : ∀ {c}, w.manager.cycle? = some c → w.manager.unreviewed? = none →
    c = { onDemandTags := onDemandTags config.pools, pools := config.pools }
  passed : ∀ {c l}, w.manager.cycle? = some c → w.manager.unreviewed? = some l →
    ∀ p ∈ config.pools, p.name ∈ c.removalClock.map Prod.fst ∨ p.name ∈ l.map Pool.name

/-- The manager runs the removal pass of every pool. -/
theorem Covered.step (h : w.Covered config) (hloads : Loads config w a)
    (hconfig' : w'.Configured config) (hstep : w.Steps a w') : w'.Covered config := by
  cases hstep with
  | @manager i db started pc hpc =>
      obtain ⟨hloaded, hpassed⟩ := h
      have hcycle := fun c => @Configured.cycle _ _ hconfig' c
      simp only [Loads] at hcycle hloads
      generalize w.manager = m at hpc hloaded hpassed hloads
      cases hpc with
      | stop | served => exact ⟨by simp [ManagerPc.cycle?], by simp [ManagerPc.cycle?]⟩
      | load hconfig _ _ =>
          obtain rfl := Option.some.inj ((hloads rfl).symm.trans hconfig)
          refine ⟨fun {d} hd _ => ?_, by simp⟩
          simpa using hd.symm
      | detectClosed =>
          refine ⟨fun {d} hd _ => ?_, by simp⟩
          rw [ManagerPc.nextDetect_cycle?] at hd
          obtain rfl := Option.some.inj hd
          exact hloaded rfl rfl
      | @plan c pools _ =>
          refine ⟨by simp, fun {d l} hd hl p hp => ?_⟩
          obtain rfl : pools = l := by simpa using hl
          have hpools : pools.map Pool.base = config.pools := by
            simpa using hcycle { c with pools := pools }
          rw [← hpools] at hp
          obtain ⟨q, hq, rfl⟩ := List.mem_map.mp hp
          exact .inr (List.mem_map.mpr ⟨q, hq, rfl⟩)
      | @removal c q rest _ _ =>
          refine ⟨by simp [ManagerPc.unreviewed?], fun {d l} hd hl p hp => ?_⟩
          obtain rfl := Option.some.inj hd
          obtain rfl := Option.some.inj hl
          rcases hpassed rfl rfl p hp with hdone | hrest
          · exact .inl (List.mem_cons_of_mem _ hdone)
          · rcases List.mem_cons.mp hrest with hq | hrest
            · exact .inl (by simp [hq])
            · exact .inr hrest
      | keepUnknown c q rest | markCleaned c q rest =>
          refine ⟨by simp, fun {d l} hd hl p hp => ?_⟩
          obtain rfl : c = d := by simpa using hd
          obtain rfl : rest = l := by simpa using hl
          exact hpassed rfl rfl p hp
      | _ => exact ⟨hloaded, hpassed⟩
  | restart => exact ⟨by simp [ManagerPc.cycle?], by simp [ManagerPc.cycle?]⟩
  | worker | watched | checked | takeTicket | notTaken | closeTicket | notClosed
    | resourceDelete | kill => exact ⟨h.loaded, h.passed⟩

/-- What the assignment pass relies on was so before, or is the removal pass that was
just run. -/
theorem Steps.reviews_cases (h : w.Steps a w') (hcovered : w.Covered config)
    {e : String × Time} (he : e ∈ w'.manager.reviews) :
    e ∈ w.manager.reviews ∨ ∃ i c p rest, a = .manager i ∧ w.manager = .removal c p rest ∧
      e = (p.name, i.now) ∧ p.requestResourceRemoval i.now w.db = .ok w'.db := by
  cases h with
  | @manager i db started pc hpc =>
      have hloaded := fun c => @Covered.loaded _ _ hcovered c
      generalize hmanager : w.manager = m at hpc hloaded
      cases hpc with
      | @removal c p rest _ hremoval =>
          rcases List.mem_cons.mp he with rfl | he
          · exact .inr ⟨i, c, p, rest, rfl, rfl, rfl, hremoval⟩
          · exact .inl he
      | @plan c pools _ =>
          obtain rfl := hloaded c rfl rfl
          simp at he
      | load | detectClosed => simp at he
      | keepUnknown c _ rest | markCleaned c _ rest =>
          have hnext : e ∈ (ManagerPc.nextPool c rest).reviews := he
          exact .inl (by rwa [ManagerPc.nextPool_reviews] at hnext)
      | stop | collect | assigned | skipped | served => simp [ManagerPc.reviews] at he
      | garbage | wantsMore | hasEnough | tooSoon | soonEnough | allocate | cleanUnknown =>
          exact .inl he
  | restart => simp [ManagerPc.reviews] at he
  | worker | watched | checked | takeTicket | notTaken | closeTicket | notClosed
    | resourceDelete | kill => exact .inl he

/-! ## Histories of resources -/

/-- What the columns of a resource tell about its past. -/
structure Histories (config : Config) (w : World) : Prop where
  pool : ∀ {id r}, w.db.resources.get? id = some r → ∃ p ∈ config.pools, p.name = r.pool
  starting : ∀ {id r}, w.db.resources.get? id = some r → r.state = .starting →
    r.releasedAt = none
  releasing : ∀ {id r}, w.db.resources.get? id = some r → r.state = .releasing →
    r.releasedAt ≠ none
  counter : ∀ {id r}, w.db.resources.get? id = some r → r.releasedAt = none →
    r.releasesCounter = 0

/-- The columns of one resource keep telling about its past. -/
theorem Histories.row (h : w.Histories config) (hinv : w.Inv)
    (hr : w.db.resources.get? id = some r) (hrow : w.ResourceSteps id r a r') :
    (r'.state = .starting → r'.releasedAt = none) ∧
      (r'.state = .releasing → r'.releasedAt ≠ none) ∧
      (r'.releasedAt = none → r'.releasesCounter = 0) := by
  have hstarting := h.starting hr
  have hreleasing := h.releasing hr
  have hcounter := h.counter hr
  cases hrow with
  | same | checked => exact ⟨hstarting, hreleasing, hcounter⟩
  | assigned => exact ⟨hstarting, hreleasing, hcounter⟩
  | decoupled _ _ hclosing =>
      refine ⟨?_, by simp [Resource.decoupled, Resource.released],
        by simp [Resource.decoupled, Resource.released]⟩
      simp only [Resource.decoupled, Resource.released, hclosing.2.1]
      split_ifs <;> simp
  | retired | killed | broken | terminating | ended =>
      exact ⟨by simp [Resource.retired], by simp [Resource.retired], hcounter⟩
  | started hruns =>
      refine ⟨fun hstate => ?_, fun hstate => ?_, hcounter⟩ <;>
        (simp only [Resource.started] at hstate; split_ifs at hstate)
  | returned hruns =>
      have hstate := hinv.owned.releasing hruns hr
      exact ⟨by simp [Resource.returned], by simp [Resource.returned],
        fun hnever => absurd hnever (hreleasing hstate)⟩

/-- Every action keeps the histories. -/
theorem Histories.step (h : w.Histories config) (hinv : w.Inv) (hconfig : w.Configured config)
    (hstep : w.Steps a w') : w'.Histories config := by
  have hrow : ∀ {id r'}, w'.db.resources.get? id = some r' →
      (∃ p ∈ config.pools, p.name = r'.pool) ∧
        (r'.state = .starting → r'.releasedAt = none) ∧
        (r'.state = .releasing → r'.releasedAt ≠ none) ∧
        (r'.releasedAt = none → r'.releasesCounter = 0) := by
    intro id r' hr'
    cases hr : w.db.resources.get? id with
    | none =>
        obtain ⟨i, c, q, rest, name, -, hmanager, -, rfl⟩ := hstep.created hinv.linked hr' hr
        exact ⟨⟨q.base, hconfig.current q (by simp [hmanager, ManagerPc.current]), rfl⟩,
          by simp [Pool.newResource]⟩
    | some r =>
        obtain ⟨r₀, hr₀, hcases⟩ := hstep.resource hinv.linked hr
        obtain rfl := Option.some.inj (hr'.symm.trans hr₀)
        exact ⟨hcases.pool ▸ h.pool hr, h.row hinv hr hcases⟩
  exact ⟨fun hr' => (hrow hr').1, fun hr' => (hrow hr').2.1, fun hr' => (hrow hr').2.2.1,
    fun hr' => (hrow hr').2.2.2⟩

/-- The resources that the assignment pass remembers are neither STARTING nor
RELEASING. -/
def Settled (w : World) : Prop :=
  ∀ c queue ids, w.manager = .assign c queue ids → ∀ id ∈ ids,
    ∃ r, w.db.resources.get? id = some r ∧ r.state ≠ .starting ∧ r.state ≠ .releasing

/-- They stay so as long as the pass runs. -/
theorem Settled.step (h : w.Settled) (hinv : w.Inv) (hstep : w.Steps a w') : w'.Settled := by
  intro c queue ids hpc id hid
  have hkept : ∀ {queue'}, w.manager = .assign c queue' ids →
      ∃ r, w'.db.resources.get? id = some r ∧ r.state ≠ .starting ∧ r.state ≠ .releasing := by
    intro queue' hold
    obtain ⟨r, hr, hstarting, hreleasing⟩ := h _ _ _ hold id hid
    obtain ⟨r', hr', hrow⟩ := hstep.resource hinv.linked hr
    refine ⟨r', hr', ?_⟩
    cases hrow with
    | same | checked | assigned => exact ⟨hstarting, hreleasing⟩
    | decoupled _ hmanager => simp [hold] at hmanager
    | retired | killed | broken | terminating | ended | returned =>
        simp [Resource.retired, Resource.returned]
    | started =>
        simp only [Resource.started]
        split_ifs <;> simp
  rcases hstep.assign_cases hpc with ⟨hold, -⟩ | ⟨i, -, -, hdb, hcollect⟩ |
    ⟨i, tid, before, -, hold, -⟩
  · exact hkept hold
  · have hids : ids = (QResources.ready w.db none).map Prod.fst := by
      have hall := (collectQueue_spec c.onDemandTags w.db).2.2
      rwa [hcollect] at hall
    rw [hids] at hid
    obtain ⟨⟨_, r⟩, hready, rfl⟩ := List.mem_map.mp hid
    obtain ⟨hr, -, hup, -⟩ := mem_ready.mp hready
    exact ⟨r, hdb ▸ hr, by simp [hup], by simp [hup]⟩
  · exact hkept hold

/-- What holds between the passes of a cycle, whatever the workers do. -/
structure Cycling (config : Config) (w : World) : Prop where
  inv : w.Inv
  configured : w.Configured config
  covered : w.Covered config
  histories : w.Histories config
  settled : w.Settled

/-- The server starts between two cycles. -/
theorem cycling_init (config : Config) : init.Cycling config :=
  ⟨inv_init, configured_init config, ⟨by simp [init, ManagerPc.cycle?],
    by simp [init, ManagerPc.cycle?]⟩, ⟨by simp [init], by simp [init], by simp [init],
    by simp [init]⟩, by simp [Settled, init]⟩

/-- Every action keeps it. -/
theorem Cycling.step (h : w.Cycling config) (hloads : Loads config w a)
    (hstep : w.step a = some w') : w'.Cycling config := by
  have hsteps := step_cases hstep
  have hconfig' := h.configured.step hloads hsteps
  exact ⟨h.inv.step hstep, hconfig', h.covered.step hloads hconfig' hsteps,
    h.histories.step h.inv h.configured hsteps, h.settled.step h.inv hsteps⟩

end World

end Resalloc
