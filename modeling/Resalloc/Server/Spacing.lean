import Resalloc.Foundations.Limiter
import Resalloc.Server.Tags

/-!
# How far starts are apart

{lit}`_too_soon` compares {lit}`last_start` of the pool's row with the clock, and
{lit}`Pool.allocate` stores the time of the start there.  A cycle that enters the pools, the end
of an allocation and {lit}`_clean_unknown_resources` write the row too, but other columns of it.
So the row is a limiter for the starts in the pool, also over restarts of the server.

Main results:

- Theorem {lit}`ManagerPc.step_lastStart?`: which steps change {lit}`last_start`.
- Theorem {lit}`World.step_limits`: every action handles the limiter as it may.
- Theorem {lit}`World.Reaches.starts_spaced`: allocations in a pool are apart by its start delay.
-/

namespace Resalloc

open Foundations

/-! ## The time of the last start -/

namespace Db

variable {db db' : Db} {name : String}

/-- {lit}`last_start` of a pool's row. -/
def lastStart? (db : Db) (name : String) : Option Time := (db.pool? name).map PoolRow.lastStart

/-- The rows after rewriting those of one pool. -/
theorem modifyPool_pool? (db : Db) (name other : String) {f : PoolRow → PoolRow}
    (hf : ∀ row, (f row).name = row.name) :
    (db.modifyPool name f).pool? other =
      (db.pool? other).map fun row => if row.name = name then f row else row := by
  have hname : (fun row : PoolRow =>
      decide ((if row.name = name then f row else row).name = other)) =
        fun row => decide (row.name = other) := by
    ext row
    split_ifs <;> simp [hf]
  simp only [pool?, modifyPool, List.find?_map, Function.comp_def, hname]

/-- Writing other columns keeps the time of the last start. -/
theorem modifyPool_lastStart? (db : Db) (name other : String) {f : PoolRow → PoolRow}
    (hf : ∀ row, (f row).name = row.name) (hlast : ∀ row, (f row).lastStart = row.lastStart) :
    (db.modifyPool name f).lastStart? other = db.lastStart? other := by
  rw [lastStart?, modifyPool_pool? db name other hf, lastStart?, Option.map_map]
  congr 1
  ext row
  simp only [Function.comp_apply]
  split_ifs
  · exact hlast row
  · rfl

/-- Only the rows of the pools are read. -/
theorem lastStart?_congr (h : db'.pools = db.pools) : db'.lastStart? name = db.lastStart? name := by
  rw [lastStart?, pool?, h, ← pool?, ← lastStart?]

end Db

section Rows

variable {db db' : Db} {p : Pool} {id : ResourceId} {name : String}

/-- A successful allocation stores its time in the row of its pool. -/
theorem allocate_lastStart? {now importTime : Time} {datetime : String}
    (h : p.allocate now importTime datetime db = .ok (db', id)) :
    db'.lastStart? name = if p.name = name then some now else db.lastStart? name := by
  obtain ⟨row, -, hrow⟩ := Db.exists_pool? (allocate_mem_poolNames h)
  rw [Db.lastStart?_congr (allocate_pools h), Db.lastStart?, Db.modifyPool_pool?]
  · split_ifs with hname
    · subst hname
      have hrowname : row.name = p.name := by simpa using List.find?_some hrow
      simp [hrow, hrowname]
    · cases hother : db.pool? name with
      | none => simp [Db.lastStart?, hother]
      | some other =>
          have hothername : other.name = name := by simpa using List.find?_some hother
          have hne : other.name ≠ p.name := fun heq => hname (heq.symm.trans hothername)
          simp [Db.lastStart?, hother, hne]
  · exact fun _ => rfl

/-- Entering a pool keeps the time of its last start. -/
theorem initPoolInDb_lastStart? (now : Time) {time : Time} (h : db.lastStart? name = some time) :
    (initPoolInDb now db p).lastStart? name = some time := by
  rw [← h]
  cases hfound : db.pool? p.name with
  | some row =>
      simp only [initPoolInDb, hfound]
      exact db.modifyPool_lastStart? _ _ (fun _ => rfl) fun _ => rfl
  | none =>
      simp only [initPoolInDb, hfound]
      rw [Db.modifyPool_lastStart?]
      · obtain ⟨row, hrow, -⟩ := Option.map_eq_some_iff.mp h
        simp only [Db.lastStart?, Db.pool?, List.find?_append] at hrow ⊢
        rw [hrow, Option.some_or]
      · exact fun _ => rfl
      · exact fun _ => rfl

/-- Entering the pools of a configuration keeps the times of their last starts. -/
theorem foldl_initPoolInDb_lastStart? (now : Time) {time : Time} (pools : List Pool)
    (h : db.lastStart? name = some time) :
    (pools.foldl (initPoolInDb now) db).lastStart? name = some time := by
  induction pools generalizing db with
  | nil => exact h
  | cons p pools ih => exact ih (initPoolInDb_lastStart? now h)

/-- A worker keeps the time of the last start. -/
theorem Worker.step_lastStart? {worker next : Worker} {i : Input}
    (h : worker.step i db = (db', next)) : db'.lastStart? name = db.lastStart? name := by
  rcases Worker.step_pools h with hpools | ⟨success, startInitiated, hpools⟩
  · exact Db.lastStart?_congr hpools
  · rw [Db.lastStart?_congr hpools, Db.modifyPool_lastStart?]
    · exact fun _ => rfl
    · exact fun _ => rfl

end Rows

/-! ## Allocations of the manager -/

namespace ManagerPc

/-- The time of the allocation that the next step of the manager makes in a pool, if it makes
one. -/
def allocation? (name : String) (pc : ManagerPc) (i : Input) (importTime : Time) (db : Db) :
    Option Time :=
  match pc with
  | .allocate _ p _ =>
      if p.name = name then
        match { p with startOnDemandThisCycle := p.startOnDemandThisCycle - 1 }.allocate
            i.now importTime i.datetime db with
        | .error _ => none
        | .ok _ => some i.now
      else none
  | _ => none

/-- It is not too soon for a start in a pool, and the manager is about to make one. -/
def Starts (name : String) (pc : ManagerPc) : Prop :=
  ∃ c p rest, pc = .allocate c p rest ∧ p.name = name

variable {name : String} {delay : Time} {pc pc' : ManagerPc} {i : Input} {importTime : Time}
variable {db db' : Db} {started : List Worker}

/-- An allocation takes the time of its step, and the manager looks at the pool again. -/
theorem allocation?_some {now : Time} (h : pc.allocation? name i importTime db = some now) :
    now = i.now ∧ ∃ c p rest db' id, pc = .allocate c p rest ∧ p.name = name ∧
      { p with startOnDemandThisCycle := p.startOnDemandThisCycle - 1 }.allocate
        i.now importTime i.datetime db = .ok (db', id) := by
  unfold allocation? at h
  split at h
  next c p rest =>
    split_ifs at h with hname
    split at h
    next => contradiction
    next result hallocate =>
      exact ⟨(Option.some.inj h).symm, c, p, rest, result.1, result.2, rfl, hname, hallocate⟩
  next => contradiction

/-- Only an allocation changes {lit}`last_start` of a pool, once it is stored. -/
theorem step_lastStart? (hlinked : Linked db) (h : pc.step i importTime db = (db', started, pc'))
    (hnone : pc.allocation? name i importTime db = none) {time : Time}
    (hlast : db.lastStart? name = some time) : db'.lastStart? name = some time := by
  cases step_poolWrites hlinked h with
  | same hpools =>
      rw [Db.lastStart?_congr hpools]
      exact hlast
  | load _ hdb =>
      rw [hdb]
      exact foldl_initPoolInDb_lastStart? i.now _ hlast
  | @allocate c p rest id hpc hallocate =>
      have hne : p.name ≠ name := by
        rintro rfl
        simp [hpc, allocation?, hallocate] at hnone
      rw [allocate_lastStart? hallocate, if_neg hne]
      exact hlast
  | markCleaned p hdb =>
      rw [hdb, Pool.markCleaned, Db.modifyPool_lastStart?]
      · exact hlast
      · exact fun _ => rfl
      · exact fun _ => rfl

/-- The manager is about to start in a pool only after {lit}`_too_soon` has returned false. -/
theorem starts_of_step (h : pc.step i importTime db = (db', started, pc'))
    (hstarts : pc'.Starts name) :
    ∃ p ∈ pc.current, p.name = name ∧
      ∀ time ∈ db.lastStart? name, time + p.startDelay ≤ i.now := by
  have hsteps := step_cases h
  obtain ⟨c', p', rest', rfl, hname⟩ := hstarts
  generalize hnext : allocate c' p' rest' = next at hsteps
  cases hsteps with
  | soonEnough c p rest =>
      obtain ⟨rfl, rfl, rfl⟩ := by simpa using hnext
      refine ⟨p', List.mem_cons_self, hname, ?_⟩
      intro time htime
      obtain ⟨row, hrow, rfl⟩ := Option.map_eq_some_iff.mp htime
      rw [← hname] at hrow
      simp only [step, Pool.tooSoon, hrow] at h
      by_cases htoo : i.now < row.lastStart + p'.startDelay
      · simp [htoo] at h
      · exact not_lt.mp htoo
  | load | detectClosed =>
      simp only [nextDetect] at hnext
      split at hnext <;> contradiction
  | plan | keepUnknown | markCleaned =>
      simp only [nextPool] at hnext
      split at hnext <;> contradiction
  | stop | removal | garbage | wantsMore | hasEnough | tooSoon | allocate | cleanUnknown
    | collect | assigned | skipped | served => contradiction

/-! ## Constant start delays -/

/-- The manager knows only one start delay of a pool. -/
structure Delayed (name : String) (delay : Time) (pc : ManagerPc) : Prop where
  cycle : ∀ {c}, pc.cycle? = some c → ∀ p ∈ c.pools, p.name = name → p.startDelay = delay
  current : ∀ p ∈ pc.current, p.name = name → p.startDelay = delay

/-- Every step of the manager keeps this, if a loaded configuration has the same start delay. -/
theorem Delayed.step (h : pc.Delayed name delay) (hloaded : pc.Loaded)
    (hload : pc = .wait → ∀ config ∈ i.config, ∀ p ∈ config.pools,
      p.name = name → p.startDelay = delay)
    (hsteps : ManagerPc.Steps i importTime db pc db' started pc') : pc'.Delayed name delay := by
  obtain ⟨hcycle, hcurrent⟩ := h
  cases hsteps with
  | stop | served => exact ⟨by simp [cycle?], by simp [ManagerPc.current]⟩
  | @load config _ hconfig =>
      constructor
      · intro c hc
        obtain rfl := by simpa using hc
        exact hload rfl config hconfig
      · rw [nextDetect_current]
        exact hload rfl config hconfig
  | @detectClosed c p rest _ _ _ =>
      constructor
      · simpa using hcycle (c := c) rfl
      · rw [nextDetect_current]
        exact fun q hq => hcurrent q (List.mem_cons_of_mem p hq)
  | @plan c pools hplan =>
      have hpools : ∀ p ∈ pools, p.name = name → p.startDelay = delay := by
        intro p hp hname
        obtain ⟨config, rfl⟩ := hloaded.fresh rfl rfl
        obtain ⟨q, hq, heq⟩ := exists_base_eq_of_plan config.nodup hplan hp
        calc p.startDelay = p.base.startDelay := rfl
          _ = q.base.startDelay := by rw [heq]
          _ = delay := hcycle rfl q hq (by rw [← Pool.base_name, heq, Pool.base_name, hname])
      constructor
      · intro d hd
        obtain rfl := by simpa using hd
        exact hpools
      · rw [nextPool_current]
        exact hpools
  | @removal c p rest _ _ =>
      constructor
      · intro d hd
        obtain rfl := Option.some.inj hd
        exact hcycle (c := c) rfl
      · exact hcurrent
  | @allocate c rest _ id p p' hp _ =>
      subst hp
      exact ⟨hcycle, by simpa [ManagerPc.current] using hcurrent⟩
  | @keepUnknown c p rest | @markCleaned c p rest =>
      constructor
      · simpa using hcycle (c := c) rfl
      · rw [nextPool_current]
        exact fun q hq => hcurrent q (List.mem_cons_of_mem p hq)
  | garbage | wantsMore | hasEnough | tooSoon | soonEnough | cleanUnknown | collect | assigned
    | skipped => exact ⟨hcycle, hcurrent⟩

end ManagerPc

/-! ## Runs -/

namespace World

variable {w w' : World} {a : Action} {as : List Action} {name : String} {delay : Time}

/-- The clock reading of the manager. -/
def clock? : Action → Option Time
  | .manager i => some i.now
  | _ => none

/-- The time of the allocation that an action makes in a pool, if it makes one. -/
def allocation? (name : String) (w : World) (a : Action) : Option Time :=
  match a with
  | .manager i => w.manager.allocation? name i w.importTime w.db
  | _ => none

/-- The starts in a pool, with the time of the last one in the row of the pool. -/
def startLimiter (name : String) : Limiter World Action Time where
  clock := clock?
  fires := allocation? name
  last w := w.db.lastStart? name
  Armed w := w.manager.Starts name

/-- Every action handles the limiter as it may. -/
theorem step_limits (hlinked : Linked w.db) (hdelayed : w.manager.Delayed name delay)
    (hstep : w.step a = some w') : (startLimiter name).Steps delay w a w' := by
  cases a with
  | manager i =>
      obtain rfl := Option.some.inj hstep
      have hpc : w.manager.step i w.importTime w.db = _ := rfl
      cases hfires : w.manager.allocation? name i w.importTime w.db with
      | some now =>
          obtain ⟨rfl, c, p, rest, db, id, hmanager, hname, hallocate⟩ :=
            ManagerPc.allocation?_some hfires
          refine .fire hfires rfl ⟨c, p, rest, hmanager, hname⟩ ?_ ?_
          · simp only [startLimiter, hmanager, hallocate]
            rw [allocate_lastStart? hallocate, if_pos hname]
          · simp [startLimiter, hmanager, hallocate, ManagerPc.Starts]
      | none =>
          have hkept : ∀ time ∈ w.db.lastStart? name,
              (w.manager.step i w.importTime w.db).1.lastStart? name = some time :=
            fun time => ManagerPc.step_lastStart? hlinked hpc hfires
          by_cases hstarts : (w.manager.step i w.importTime w.db).2.2.Starts name
          · obtain ⟨p, hp, hname, hlast⟩ := ManagerPc.starts_of_step hpc hstarts
            rw [hdelayed.current p hp hname] at hlast
            exact .arm hfires rfl hlast hkept
          · exact .keep hfires (fun harmed => absurd harmed hstarts) hkept
  | worker k i =>
      obtain ⟨worker, db, next, -, -, hnext, rfl⟩ := step_worker hstep
      refine .keep rfl id ?_
      exact fun time htime => (Worker.step_lastStart? hnext).trans htime
  | restart importTime =>
      obtain rfl := Option.some.inj hstep
      exact .keep rfl (by simp [startLimiter, ManagerPc.Starts]) fun _ => id
  | _ =>
      have hsteps := step_cases hstep
      cases hsteps <;> exact .keep rfl id fun _ => id

/-- Every configuration that is loaded has the same start delay for a pool. -/
def Delays (name : String) (delay : Time) (w : World) (a : Action) : Prop :=
  match a with
  | .manager i => w.manager = .wait → ∀ config ∈ i.config, ∀ p ∈ config.pools,
      p.name = name → p.startDelay = delay
  | _ => True

instance (name : String) (delay : Time) (w : World) (a : Action) :
    Decidable (Delays name delay w a) :=
  match a with
  | .manager _ => inferInstanceAs (Decidable (_ → ∀ _ ∈ _, ∀ _ ∈ _, _ → _))
  | .worker _ _ | .watcher _ | .takeTicket _ _ | .closeTicket _ | .resourceDelete _ | .kill _
  | .restart _ => inferInstanceAs (Decidable True)

/-- With a constant start delay, the manager knows no other one. -/
theorem Reaches.delayed (h : Reaches (Delays name delay) as w) :
    w.manager.Delayed name delay := by
  have hstart : init.manager.Loaded ∧ init.manager.Delayed name delay :=
    ⟨⟨by simp [init, ManagerPc.cycle?], by simp [init, ManagerPc.current],
        by simp [init, ManagerPc.current]⟩,
      ⟨by simp [init, ManagerPc.cycle?], by simp [init, ManagerPc.current]⟩⟩
  refine (h.invariant (P := fun u : World => u.manager.Loaded ∧ u.manager.Delayed name delay)
    hstart ?_).2
  rintro u a v ⟨hloaded, hdelayed⟩ hok hstep
  have hsteps := step_cases hstep
  refine ⟨hloaded.step_world hsteps, ?_⟩
  cases hsteps with
  | manager hpc => exact hdelayed.step hloaded hok hpc
  | restart => exact ⟨by simp [ManagerPc.cycle?], by simp [ManagerPc.current]⟩
  | worker | watched | checked | takeTicket | notTaken | closeTicket | notClosed | resourceDelete
    | kill => exact hdelayed

/-- The times of the allocations of a run in a pool, in their order. -/
def allocations (name : String) (as : List Action) : List Time :=
  observe (allocation? name) step init as

/-- With a constant start delay and a clock that does not go back, successive allocations in a
pool are apart by the start delay.  Nothing else changes the stored time of the last start. -/
theorem Reaches.starts_spaced (h : Reaches (Delays name delay) as w)
    (hclock : (as.filterMap clock?).Pairwise (· ≤ ·)) :
    ((allocations name as).IsChain fun time next => time + delay ≤ next) ∧
      (∀ time ∈ (allocations name as).getLast?, w.db.lastStart? name = some time) ∧
      ∀ a w', w.step a = some w' → allocation? name w a = none →
        ∀ time ∈ w.db.lastStart? name, w'.db.lastStart? name = some time := by
  have hlimits : ∀ {bs u a v}, Reaches (Delays name delay) bs u → u.step a = some v →
      (startLimiter name).Steps delay u a v := fun hrun hstep =>
    step_limits hrun.inv.linked hrun.delayed hstep
  have hspaced : (startLimiter name).Spaced delay (allocations name as) (as.filterMap clock?) w :=
    Limiter.spaced h (by simp [startLimiter, init, ManagerPc.Starts])
      (fun hrun _ hstep => hlimits hrun hstep) hclock
  refine ⟨hspaced.apart, hspaced.stored, ?_⟩
  intro a w' hstep hnone
  exact (hlimits h hstep).last_kept hnone

/-- A pool that waits ten seconds between two starts. -/
def slowPool : Pool :=
  { basicPool with max := 2, maxPrealloc := 2, maxStarting := 2, startDelay := 10 }

/-- The configuration with this pool. -/
def slowConfig : Config :=
  .single slowPool (by
    simp [slowPool, basicPool, Pool.validate, truthy, onDemandTags, Pool.tagSetOnDemand])

/-- A start, a test that comes too soon, a restart of the server, and the next start. -/
def slowRun : List Action :=
  List.replicate 8 (.manager { now := 20, config := some slowConfig }) ++
    List.replicate 3 (.manager { now := 25, config := some slowConfig }) ++ [.restart 26] ++
    List.replicate 8 (.manager { now := 31, config := some slowConfig })

/-- The two starts of this run are apart. -/
theorem starts_spaced_slowRun : allocations "basic" slowRun = [20, 31] ∧
    (allocations "basic" slowRun).IsChain fun time next => time + 10 ≤ next := by
  have hrun := reaches_after (Delays "basic" 10) slowRun (by decide +kernel)
  exact ⟨by decide +kernel, (Reaches.starts_spaced hrun (by decide +kernel)).1⟩

end World

end Resalloc
