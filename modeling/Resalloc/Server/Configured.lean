import Resalloc.Server.Invariants
import Resalloc.Server.Planning

/-!
# Runs with one configuration

While the configuration file stays the same, every pool object that the manager
or a worker holds is a pool of that file, up to the number of starts planned for
the cycle.

Main results:

- Theorem {lit}`World.Configured.step`: every action keeps the pool objects
  configured.
- Theorem {lit}`World.Reaches.configured`: they are in every reachable state.
-/

namespace Resalloc

open Foundations

/-! ## Pool objects -/

/-- A configured pool has no planned starts. -/
theorem Config.base_eq (config : Config) {p : Pool} (h : p ∈ config.pools) : p.base = p := by
  obtain ⟨name, max, maxStarting⟩ := p
  have hplanned := config.unplanned _ h
  simp_all [Pool.base]

/-- The configured pools have no planned starts. -/
theorem Config.map_base (config : Config) : config.pools.map Pool.base = config.pools := by
  conv_rhs => rw [← List.map_id config.pools]
  exact List.map_congr_left fun p hp => config.base_eq hp

/-- Pools of one configuration with one name are the same. -/
theorem Config.eq_of_name (config : Config) {p q : Pool} (hp : p ∈ config.pools)
    (hq : q ∈ config.pools) (hname : p.name = q.name) : p = q :=
  List.inj_on_of_nodup_map config.nodup hp hq hname

/-! ## Where the pool objects are -/

namespace ManagerPc

/-- The local variables of the running cycle. -/
def cycle? : ManagerPc → Option Cycle
  | .wait | .stopped _ => none
  | .detectClosed c _ _ | .plan c | .removal c _ _ | .garbage c _ _ | .stats c _ _
  | .tooSoon c _ _ | .allocate c _ _ | .cleanUnknown c _ _ | .markCleaned c _ _ | .collect c
  | .assign c _ _ => some c

/-- The pools that a running loop over the pools has not left yet. -/
def current : ManagerPc → List Pool
  | .detectClosed _ p rest | .removal _ p rest | .garbage _ p rest | .stats _ p rest
  | .tooSoon _ p rest | .allocate _ p rest | .cleanUnknown _ p rest | .markCleaned _ p rest =>
      p :: rest
  | .wait | .plan _ | .collect _ | .assign _ _ _ | .stopped _ => []

@[simp]
theorem nextDetect_cycle? (c : Cycle) (pools : List Pool) :
    (nextDetect c pools).cycle? = some c := by
  cases pools <;> rfl

@[simp]
theorem nextDetect_current (c : Cycle) (pools : List Pool) :
    (nextDetect c pools).current = pools := by
  cases pools <;> rfl

@[simp]
theorem nextPool_cycle? (c : Cycle) (pools : List Pool) :
    (nextPool c pools).cycle? = some c := by
  cases pools <;> rfl

@[simp]
theorem nextPool_current (c : Cycle) (pools : List Pool) :
    (nextPool c pools).current = pools := by
  cases pools <;> rfl

end ManagerPc

/-- A worker keeps its pool object. -/
theorem Worker.Steps.pool {worker next : Worker} {i : Input} {db db' : Db}
    (h : worker.Steps i db db' next) : next.pool = worker.pool := by
  cases h <;> rfl

namespace World

/-- All pool objects are pools of the configuration. -/
structure Configured (config : Config) (w : World) : Prop where
  cycle : ∀ {c}, w.manager.cycle? = some c → c.pools.map Pool.base = config.pools
  current : ∀ p ∈ w.manager.current, p.base ∈ config.pools
  threads : ∀ {k worker}, w.workers.get? k = some worker → worker.pool.base ∈ config.pools

variable {config : Config} {w w' : World} {a : Action} {as : List Action}

/-- A running thread whose pool has the name of a configured pool works for that
pool. -/
theorem Configured.runs_base (h : w.Configured config) {k : ℕ} {p q : Pool} {job : Job}
    (hruns : w.Runs k q job) (hp : p ∈ config.pools) (hname : q.name = p.name) : q.base = p :=
  config.eq_of_name (h.threads hruns) hp hname

/-- The pool a resource has that a release is about. -/
theorem Configured.release_pool (h : w.Configured config) (hinv : w.Inv) {k : ℕ} {q : Pool}
    {id : ResourceId} {pc : ReleasePc} {r : Resource} (hruns : w.Runs k q (.release id pc))
    (hr : w.db.resources.get? id = some r) : r.state = .releasing ∧ r.pool = q.name := by
  obtain ⟨r₀, hr₀, hstate, hin⟩ := hinv.owned.release hruns
  obtain rfl := Option.some.inj (hr.symm.trans hr₀)
  have hnamed : q.base.name ≠ "" := config.named _ (h.threads hruns)
  exact ⟨hstate, (Option.some.inj (hin ((truthy_some _).mpr hnamed))).symm⟩

/-- The manager keeps its pool objects configured, and starts only configured
workers. -/
theorem Configured.manager_step {i : Input} {db : Db} {started : List Worker} {pc : ManagerPc}
    (h : w.Configured config) (hok : Loads config w (.manager i))
    (hstep : ManagerPc.Steps i w.importTime w.db w.manager db started pc) :
    (∀ c, pc.cycle? = some c → c.pools.map Pool.base = config.pools) ∧
      (∀ p ∈ pc.current, p.base ∈ config.pools) ∧
      ∀ worker ∈ started, worker.pool.base ∈ config.pools := by
  have hcycle := fun c => @Configured.cycle _ _ h c
  have hcurrent := h.current
  simp only [Loads] at hok
  generalize w.manager = m at hstep hcycle hcurrent hok
  cases hstep with
  | stop => exact ⟨by simp [ManagerPc.cycle?], by simp [ManagerPc.current], by simp⟩
  | load hconfig _ _ =>
      obtain rfl := Option.some.inj ((hok rfl).symm.trans hconfig)
      refine ⟨?_, ?_, by simp⟩
      · rintro c hc
        obtain rfl := by simpa using hc
        exact config.map_base
      · intro p hp
        rw [ManagerPc.nextDetect_current] at hp
        rw [config.base_eq hp]
        exact hp
  | @detectClosed c p rest _ closed _ =>
      refine ⟨by simpa using hcycle c rfl, ?_, ?_⟩
      · simp only [ManagerPc.nextDetect_current]
        exact fun q hq => hcurrent q (List.mem_cons_of_mem p hq)
      · intro worker hworker
        obtain ⟨id, -, rfl⟩ := List.mem_map.mp hworker
        exact hcurrent p List.mem_cons_self
  | @plan c pools hplan =>
      have hnodup : (c.pools.map Pool.name).Nodup := by
        have hnames := config.nodup
        rw [← hcycle c rfl, List.map_map] at hnames
        exact hnames
      have hpools := (decideWhereToStart_base hnodup hplan).trans (hcycle c rfl)
      refine ⟨by simpa using hpools, ?_, by simp⟩
      simp only [ManagerPc.nextPool_current]
      intro p hp
      rw [← hpools]
      exact List.mem_map_of_mem hp
  | @removal c p rest _ _ =>
      refine ⟨?_, hcurrent, by simp⟩
      rintro d hd
      obtain rfl := Option.some.inj hd
      exact hcycle c rfl
  | garbage c p rest =>
      refine ⟨hcycle, hcurrent, ?_⟩
      intro worker hworker
      obtain ⟨id, -, rfl⟩ := List.mem_map.mp hworker
      exact hcurrent p List.mem_cons_self
  | wantsMore | hasEnough | tooSoon | soonEnough => exact ⟨hcycle, hcurrent, by simp⟩
  | @allocate c rest _ id p p' hp _ =>
      have hp' : p'.base ∈ config.pools := by
        rw [hp]
        exact hcurrent p List.mem_cons_self
      refine ⟨hcycle, ?_, by simpa using hp'⟩
      intro q hq
      rcases List.mem_cons.mp hq with rfl | hq
      · exact hp'
      · exact hcurrent q (List.mem_cons_of_mem p hq)
  | cleanUnknown c p rest =>
      exact ⟨hcycle, hcurrent, by simpa using hcurrent p List.mem_cons_self⟩
  | keepUnknown c p rest | markCleaned c p rest =>
      refine ⟨by simpa using hcycle c rfl, ?_, by simp⟩
      simp only [ManagerPc.nextPool_current]
      exact fun q hq => hcurrent q (List.mem_cons_of_mem p hq)
  | collect c | assigned | skipped => exact ⟨hcycle, hcurrent, by simp⟩
  | served => exact ⟨by simp [ManagerPc.cycle?], by simp [ManagerPc.current], by simp⟩

/-- Every action keeps the pool objects configured. -/
theorem Configured.step (h : w.Configured config) (hok : Loads config w a)
    (hstep : w.Steps a w') : w'.Configured config := by
  cases hstep with
  | manager hpc =>
      obtain ⟨hcycle, hcurrent, hstarted⟩ := h.manager_step hok hpc
      refine ⟨fun {c} => hcycle c, hcurrent, fun {k worker} hworker => ?_⟩
      rcases get?_spawn hworker with hold | ⟨-, hmem⟩
      · exact h.threads hold
      · exact hstarted worker hmem
  | @worker k i worker db next hworker _ hnext =>
      refine ⟨h.cycle, h.current, fun {j other} hother => ?_⟩
      by_cases hj : j = k
      · subst hj
        obtain rfl : next = other := by simpa [hworker] using hother
        rw [hnext.pool]
        exact h.threads hworker
      · exact h.threads (by rwa [IdTable.get?_modify_of_ne hj] at hother)
  | restart =>
      exact ⟨by simp [ManagerPc.cycle?], by simp [ManagerPc.current], by simp⟩
  | watched | checked | takeTicket | notTaken | closeTicket | notClosed | resourceDelete | kill =>
      exact ⟨h.cycle, h.current, h.threads⟩

/-- The server starts without pool objects. -/
theorem configured_init (config : Config) : init.Configured config :=
  ⟨by simp [init, ManagerPc.cycle?], by simp [init, ManagerPc.current], by simp [init]⟩

/-- With a configuration that does not change, all pool objects are configured in
every reachable state. -/
theorem Reaches.configured {ok : World → Action → Prop} (h : Reaches ok as w)
    (hok : ∀ w a, ok w a → Loads config w a) : w.Configured config :=
  h.invariant (configured_init config) fun u a _ hu ha hstep =>
    hu.step (hok u a ha) (step_cases hstep)

end World

end Resalloc
