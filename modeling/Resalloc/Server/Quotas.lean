import Resalloc.Server.Configured
import Resalloc.Server.Lifecycle

/-!
# Pool quotas

A pool counts its resources in one transaction and inserts a new one in a later
transaction.  Between the two, other parties move resources between states; none
of them raises a count, except a terminator that comes late and takes a resource
out of ENDED again, and a failed release that makes a used resource count as free.

Main results:

- Definition {lit}`Pool.Within`: the quotas of a pool.
- Theorem {lit}`World.Inv.quotas_step`: every other action keeps them, and keeps
  the room that the pool has found.
- Theorem {lit}`World.Reaches.quotas`: they hold in every reachable state.
- Theorem {lit}`World.quotas_exceeded`: a late terminator exceeds them.
-/

namespace Resalloc

open Foundations

/-! ## Counted resources -/

namespace Resource

/-- The resource counts for {lit}`max`. -/
def isOn (pool : String) (r : Resource) : Bool :=
  r.pool = pool ∧ r.state ≠ .ended

/-- The resource counts for {lit}`max_starting`. -/
def isStarting (pool : String) (r : Resource) : Bool :=
  r.pool = pool ∧ r.state = .starting

/-- The resource is ready, and no ticket has used it. -/
def isFree (pool : String) (r : Resource) : Bool :=
  r.pool = pool ∧ r.state = .up ∧ r.ticketId = none ∧ r.releasesCounter ≤ 0

/-- The resource counts for {lit}`max_prealloc`. -/
def isPrealloc (pool : String) (r : Resource) : Bool :=
  r.isFree pool || r.isStarting pool

end Resource

/-- Free resources are not starting. -/
theorem count_isPrealloc (t : IdTable Resource) (pool : String) :
    t.count (Resource.isPrealloc pool) =
      t.count (Resource.isFree pool) + t.count (Resource.isStarting pool) :=
  IdTable.count_or fun r hfree => by
    simp only [Resource.isFree, decide_eq_true_eq] at hfree
    simp [Resource.isStarting, hfree]

section Stats

variable (db : Db) {pool : String}

/-- The rows of a query for one pool. -/
theorem select_rows (hpool : pool ≠ "") (f : Resource → Bool) :
    (QResources.select db (some pool) f).map Prod.snd =
      db.resources.rows.filter fun r => decide (r.pool = pool) && f r := by
  have htruthy : truthy (some pool) = true := (truthy_some pool).mpr hpool
  rw [← IdTable.entries_map_snd, List.filter_map, QResources.select]
  congr 1
  refine List.filter_congr fun e _ => ?_
  simp only [htruthy, Bool.not_true, Bool.false_or, Function.comp_apply]
  grind

/-- The statistics of a pool count its rows. -/
theorem stats_counts (hpool : pool ≠ "") :
    (QResources.stats db (some pool)).on = db.resources.count (Resource.isOn pool) ∧
      (QResources.stats db (some pool)).start = db.resources.count (Resource.isStarting pool) ∧
      (QResources.stats db (some pool)).free = db.resources.count (Resource.isFree pool) := by
  simp only [QResources.stats, QResources.on, select_rows db hpool, List.filter_filter,
    IdTable.count, List.countP_eq_length_filter]
  refine ⟨?_, ?_, ?_⟩ <;> congr 1 <;> refine List.filter_congr fun r _ => ?_
  · simp [Resource.isOn]
  · simp only [Resource.isStarting]
    grind
  · simp only [Resource.isFree]
    grind

end Stats

/-! ## Quotas -/

namespace Pool

/-- The quotas of a pool hold. -/
structure Within (p : Pool) (db : Db) : Prop where
  on : (db.resources.count (Resource.isOn p.name) : Int) ≤ p.max
  starting : (db.resources.count (Resource.isStarting p.name) : Int) ≤ p.maxStarting
  prealloc : 0 < p.maxPrealloc →
    ((db.resources.count (Resource.isFree p.name) +
      db.resources.count (Resource.isStarting p.name) : ℕ) : Int) ≤ p.maxPrealloc

/-- The quotas of a pool allow one more STARTING resource. -/
structure HasRoom (p : Pool) (db : Db) : Prop where
  on : (db.resources.count (Resource.isOn p.name) : Int) < p.max
  starting : (db.resources.count (Resource.isStarting p.name) : Int) < p.maxStarting
  prealloc : 0 < p.maxPrealloc →
    (db.resources.count (Resource.isPrealloc p.name) : Int) < p.maxPrealloc

/-- The counts of a pool did not grow. -/
structure CountsLe (p : Pool) (db db' : Db) : Prop where
  on : db'.resources.count (Resource.isOn p.name) ≤ db.resources.count (Resource.isOn p.name)
  starting : db'.resources.count (Resource.isStarting p.name) ≤
    db.resources.count (Resource.isStarting p.name)
  prealloc : 0 < p.maxPrealloc → db'.resources.count (Resource.isPrealloc p.name) ≤
    db.resources.count (Resource.isPrealloc p.name)

variable {p : Pool} {db db' : Db}

/-- The tests of the allocation loop find room for one more resource. -/
theorem hasRoom_of_wantsMore (hname : p.name ≠ "")
    (h : p.wantsMore (QResources.stats db (some p.name)) = true) : p.HasRoom db := by
  obtain ⟨hon, hstart, hfree⟩ := stats_counts db hname
  unfold wantsMore at h
  split_ifs at h with hmax hprealloc _
  rw [hon] at hmax
  rw [hfree, hstart, ← count_isPrealloc] at hprealloc
  rw [decide_eq_true_eq, hstart] at h
  exact ⟨by omega, h, fun hpos => by omega⟩

/-- Counts that did not grow leave the quotas kept. -/
theorem Within.of_le (h : p.Within db) (hle : p.CountsLe db db') : p.Within db' := by
  obtain ⟨hon, hstarting, hprealloc⟩ := h
  obtain ⟨hon', hstarting', hprealloc'⟩ := hle
  refine ⟨by omega, by omega, fun hpos => ?_⟩
  have hold := hprealloc hpos
  have hnew := hprealloc' hpos
  rw [count_isPrealloc, count_isPrealloc] at hnew
  omega

/-- Counts that did not grow leave the room. -/
theorem HasRoom.of_le (h : p.HasRoom db) (hle : p.CountsLe db db') : p.HasRoom db' := by
  obtain ⟨hon, hstarting, hprealloc⟩ := h
  obtain ⟨hon', hstarting', hprealloc'⟩ := hle
  refine ⟨by omega, by omega, fun hpos => ?_⟩
  have hold := hprealloc hpos
  have hnew := hprealloc' hpos
  omega

/-- In a pool with room the counts may grow by one. -/
theorem HasRoom.within (h : p.HasRoom db)
    (hsucc : ∀ f, db'.resources.count f ≤ db.resources.count f + 1) : p.Within db' := by
  obtain ⟨hon, hstarting, hprealloc⟩ := h
  have hon' := hsucc (Resource.isOn p.name)
  have hstarting' := hsucc (Resource.isStarting p.name)
  have hprealloc' := hsucc (Resource.isPrealloc p.name)
  refine ⟨by omega, by omega, fun hpos => ?_⟩
  have hold := hprealloc hpos
  rw [← count_isPrealloc]
  omega

end Pool

/-! ## What an action can do to a count -/

namespace World

/-- A terminator does not begin when its resource is in ENDED already. -/
def NotLate (w : World) (worker : Worker) : Prop :=
  ∀ id ∈ worker.job.request?, ∀ r ∈ w.db.resources.get? id, r.state ≠ .ended

instance (w : World) (worker : Worker) : Decidable (NotLate w worker) :=
  inferInstanceAs (Decidable (∀ _ ∈ _, _))

/-- All steps of workers except those that raise a count: a terminator that begins
when its resource is in ENDED already, and a failed release that is recorded by a
counter of at most zero. -/
def KeepsCounts (w : World) (worker : Worker) : Prop :=
  (∀ id ∈ worker.job.request?, ∀ r ∈ w.db.resources.get? id, r.state ≠ .ended) ∧
    ∀ finish ∈ worker.job.finish?,
      finish.2 = 0 ∨ 0 ≤ worker.pool.reuseMaxCount ∨ worker.pool.maxPrealloc ≤ 0

instance (w : World) (worker : Worker) : Decidable (KeepsCounts w worker) :=
  inferInstanceAs (Decidable (_ ∧ _))

variable {config : Config} {w w' : World} {a : Action} {as : List Action} {id : ResourceId}
variable {r r' : Resource} {k : ℕ} {p : Pool} {i : Input}

/-- No terminator comes late if no step of a worker raises a count. -/
theorem OnWorkers.notLate (h : OnWorkers KeepsCounts w a) : OnWorkers NotLate w a := by
  cases a with
  | worker => exact fun hok worker hworker hrunning => (h hok worker hworker hrunning).1
  | _ => trivial

/-- The counters of the used resources of a pool are positive. -/
structure Counted (p : Pool) (w : World) : Prop where
  nonneg : ∀ {id r}, w.db.resources.get? id = some r → r.pool = p.name → 0 ≤ r.releasesCounter
  releasing : ∀ {id r}, w.db.resources.get? id = some r → r.pool = p.name →
    r.state = .releasing → 0 < r.releasesCounter

/-- A finished release leaves a positive counter. -/
theorem Counted.returned (h : w.Counted p) (hinv : w.Inv) (hconfig : w.Configured config)
    (hp : p ∈ config.pools) (hprealloc : 0 < p.maxPrealloc)
    (hkeeps : OnWorkers KeepsCounts w (.worker k i)) (hok : i.raises = false)
    {q : Pool} {status : Int}
    (hruns : w.Runs k q (.release id (.finish status))) (hr : w.db.resources.get? id = some r)
    (hpool : r.pool = p.name) : 0 < (r.returned q status).releasesCounter := by
  obtain ⟨hstate, hname⟩ := hconfig.release_pool hinv hruns hr
  simp only [Resource.returned]
  split_ifs with hstatus
  · exact h.releasing hr hpool hstate
  · have hbase := hconfig.runs_base hruns hp (hname.symm.trans hpool)
    have hmax : q.maxPrealloc = p.maxPrealloc := by rw [← hbase, Pool.base]
    have hkept : status = 0 ∨ 0 ≤ q.reuseMaxCount ∨ q.maxPrealloc ≤ 0 :=
      (hkeeps.runs hok hruns).2 _ rfl
    omega

/-- The counters of used resources stay positive. -/
theorem Counted.step (h : w.Counted p) (hinv : w.Inv) (hconfig : w.Configured config)
    (hp : p ∈ config.pools) (hprealloc : 0 < p.maxPrealloc) (hkeeps : OnWorkers KeepsCounts w a)
    (hstep : w.Steps a w') : w'.Counted p := by
  have hrow : ∀ {id r'}, w'.db.resources.get? id = some r' → r'.pool = p.name →
      0 ≤ r'.releasesCounter ∧ (r'.state = .releasing → 0 < r'.releasesCounter) := by
    intro id r' hr' hpool'
    cases hr : w.db.resources.get? id with
    | none =>
        obtain ⟨i, c, q, rest, name, -, -, -, rfl⟩ := hstep.created hinv.linked hr' hr
        simp [Pool.newResource]
    | some r =>
        obtain ⟨r₀, hr₀, hcases⟩ := hstep.resource hinv.linked hr
        obtain rfl := Option.some.inj (hr'.symm.trans hr₀)
        have hpool : r.pool = p.name := hcases.pool ▸ hpool'
        have hold := h.nonneg hr hpool
        have hreleasing := h.releasing hr hpool
        cases hcases with
        | same | checked => exact ⟨hold, hreleasing⟩
        | decoupled =>
            simp only [Resource.decoupled, Resource.released]
            omega
        | assigned _ _ _ hup => exact ⟨hold, hreleasing⟩
        | retired | killed | broken | terminating | ended =>
            exact ⟨hold, by simp [Resource.retired]⟩
        | started =>
            refine ⟨hold, fun hstate => ?_⟩
            simp only [Resource.started] at hstate
            split_ifs at hstate
        | returned hruns hok =>
            have hpos := h.returned hinv hconfig hp hprealloc hkeeps hok hruns hr hpool
            exact ⟨hpos.le, fun _ => hpos⟩
  exact ⟨fun hr' hpool' => (hrow hr' hpool').1, fun hr' hpool' => (hrow hr' hpool').2⟩

/-- An existing resource that is STARTING after an action was so before. -/
theorem ResourceSteps.isStarting {pool : String} (hrow : w.ResourceSteps id r a r')
    (h : r'.isStarting pool = true) : r.isStarting pool = true := by
  simp only [Resource.isStarting, decide_eq_true_eq] at h ⊢
  refine ⟨hrow.pool ▸ h.1, ?_⟩
  replace h := h.2
  cases hrow with
  | same | checked | assigned => exact h
  | decoupled =>
      simp only [Resource.decoupled, Resource.released] at h
      split_ifs at h
      exact h
  | started =>
      simp only [Resource.started] at h
      split_ifs at h
  | retired | killed | broken | terminating | ended | returned => contradiction

/-- A resource that is not in ENDED after such an action was not before. -/
theorem Inv.isOn_before {pool : String} (hinv : w.Inv) (hlate : OnWorkers NotLate w a)
    (hr : w.db.resources.get? id = some r) (hrow : w.ResourceSteps id r a r')
    (h : r'.isOn pool = true) : r.isOn pool = true := by
  simp only [Resource.isOn, decide_eq_true_eq] at h ⊢
  refine ⟨hrow.pool ▸ h.1, fun hended => ?_⟩
  replace h := h.2
  cases hrow with
  | same | checked => exact h hended
  | decoupled _ _ hclosing => simp [hclosing.2.1] at hended
  | retired _ _ _ hup | killed _ hup | assigned _ _ _ hup => simp [hup] at hended
  | broken _ hbroken => simp [hended, RState.inconsistent] at hbroken
  | started hruns =>
      have hstate := hinv.owned.starting hruns hr
      simp [hended] at hstate
  | terminating hruns hok =>
      have hkept : ∀ r ∈ w.db.resources.get? id, r.state ≠ .ended :=
        hlate.runs hok hruns id rfl
      exact hkept r hr hended
  | ended => exact h rfl
  | returned hruns =>
      have hstate := hinv.owned.releasing hruns hr
      simp [hended] at hstate

/-- A resource that counts as prepared after such an action did so before. -/
theorem Counted.isPrealloc_before (h : w.Counted p) (hinv : w.Inv)
    (hconfig : w.Configured config) (hp : p ∈ config.pools) (hprealloc : 0 < p.maxPrealloc)
    (hkeeps : OnWorkers KeepsCounts w a) (hr : w.db.resources.get? id = some r)
    (hrow : w.ResourceSteps id r a r') (hafter : r'.isPrealloc p.name = true) :
    r.isPrealloc p.name = true := by
  simp only [Resource.isPrealloc, Bool.or_eq_true] at hafter ⊢
  rcases hafter with hfree | hstarting
  · simp only [Resource.isFree, Resource.isStarting, decide_eq_true_eq] at hfree ⊢
    rw [hrow.pool] at hfree
    obtain ⟨hpool, hup, hidle, hcounter⟩ := hfree
    cases hrow with
    | same | checked => exact .inl ⟨hpool, hup, hidle, hcounter⟩
    | decoupled =>
        have hold := h.nonneg hr hpool
        simp only [Resource.decoupled, Resource.released] at hcounter
        omega
    | started hruns =>
        have hstate := hinv.owned.starting hruns hr
        exact .inr ⟨hpool, hstate⟩
    | returned hruns hok =>
        have hpos := h.returned hinv hconfig hp hprealloc hkeeps hok hruns hr hpool
        omega
    | assigned => simp [Resource.assigned] at hidle
    | retired | killed | broken | terminating | ended => simp [Resource.retired] at hup
  · exact .inr (hrow.isStarting hstarting)

/-! ## Quotas of the running server -/

/-- The quotas of a pool hold, and they have room for the resource that the manager
has decided to allocate. -/
structure Quotas (p : Pool) (w : World) : Prop where
  within : p.Within w.db
  room : ∀ {c q rest}, w.manager = .tooSoon c q rest ∨ w.manager = .allocate c q rest →
    q.name = p.name → p.HasRoom w.db

/-- A row of a pool existed before, unless the manager inserts a resource of the pool. -/
theorem Steps.existed (hstep : w.Steps a w') (hinv : w.Inv) {pool : String}
    (hother : ∀ {i c q rest}, a = .manager i → w.manager = .allocate c q rest → q.name ≠ pool)
    (hr' : w'.db.resources.get? id = some r') (hpool : r'.pool = pool) :
    ∃ r, w.db.resources.get? id = some r ∧ w.ResourceSteps id r a r' := by
  cases hr : w.db.resources.get? id with
  | none =>
      obtain ⟨i, c, q, rest, name, ha, hmanager, -, rfl⟩ := hstep.created hinv.linked hr' hr
      exact absurd hpool (hother ha hmanager)
  | some r =>
      obtain ⟨r₀, hr₀, hrow⟩ := hstep.resource hinv.linked hr
      obtain rfl := Option.some.inj (hr'.symm.trans hr₀)
      exact ⟨r, rfl, hrow⟩

/-- Unless the manager inserts a resource of the pool, the counts for its limits do not
grow. -/
theorem Steps.limits_le (hstep : w.Steps a w') (hinv : w.Inv) (hlate : OnWorkers NotLate w a)
    {pool : String}
    (hother : ∀ {i c q rest}, a = .manager i → w.manager = .allocate c q rest → q.name ≠ pool) :
    w'.db.resources.count (Resource.isOn pool) ≤ w.db.resources.count (Resource.isOn pool) ∧
      w'.db.resources.count (Resource.isStarting pool) ≤
        w.db.resources.count (Resource.isStarting pool) := by
  constructor
  · apply IdTable.count_le_of_get?
    intro id r' hr' hafter
    have hpool : r'.pool = pool := by simp_all [Resource.isOn]
    obtain ⟨r, hr, hrow⟩ := hstep.existed hinv hother hr' hpool
    exact ⟨r, hr, hinv.isOn_before hlate hr hrow hafter⟩
  · apply IdTable.count_le_of_get?
    intro id r' hr' hafter
    have hpool : r'.pool = pool := by simp_all [Resource.isStarting]
    obtain ⟨r, hr, hrow⟩ := hstep.existed hinv hother hr' hpool
    exact ⟨r, hr, hrow.isStarting hafter⟩

/-- Unless the manager inserts a resource of the pool, no count grows. -/
theorem Inv.countsLe_step (hinv : w.Inv) (hconfig : w.Configured config)
    (hp : p ∈ config.pools) (hcounted : 0 < p.maxPrealloc → w.Counted p)
    (hkeeps : OnWorkers KeepsCounts w a) (hstep : w.Steps a w')
    (hother : ∀ {i c q rest}, a = .manager i → w.manager = .allocate c q rest →
      q.name ≠ p.name) : p.CountsLe w.db w'.db := by
  obtain ⟨hon, hstarting⟩ := hstep.limits_le hinv hkeeps.notLate hother
  refine ⟨hon, hstarting, fun hpos => ?_⟩
  apply IdTable.count_le_of_get?
  intro id r' hr' hafter
  have hpool : r'.pool = p.name := by
    simp only [Resource.isPrealloc, Resource.isFree, Resource.isStarting, Bool.or_eq_true,
      decide_eq_true_eq] at hafter
    exact hafter.elim And.left And.left
  obtain ⟨r, hr, hrow⟩ := hstep.existed hinv hother hr' hpool
  exact ⟨r, hr, (hcounted hpos).isPrealloc_before hinv hconfig hp hpos hkeeps hr hrow hafter⟩

/-- An allocation makes every count grow by at most one. -/
theorem Inv.count_allocate (hinv : w.Inv) (hstep : w.Steps (.manager i) w') {c : Cycle} {q : Pool}
    {rest : List Pool} (hmanager : w.manager = .allocate c q rest) (f : Resource → Bool) :
    w'.db.resources.count f ≤ w.db.resources.count f + 1 := by
  refine IdTable.count_le_succ_of_get? w.db.resources.nextId fun id r' hne hr' hafter => ?_
  cases hr : w.db.resources.get? id with
  | none =>
      obtain ⟨_, _, _, _, _, -, -, hid, -⟩ := hstep.created hinv.linked hr' hr
      exact absurd hid hne
  | some r =>
      obtain ⟨r₀, hr₀, hrow⟩ := hstep.resource hinv.linked hr
      obtain rfl := Option.some.inj (hr'.symm.trans hr₀)
      refine ⟨r, rfl, ?_⟩
      cases hrow with
      | same => exact hafter
      | decoupled _ hother | retired _ hother => simp [hmanager] at hother
      | assigned _ hother => simp [assignment?, hmanager, ManagerPc.assignment?] at hother

/-- The room of the decided allocation was found by its tests, or was there
before. -/
theorem Steps.deciding_cases (h : w.Steps a w') {c : Cycle} {q : Pool} {rest : List Pool}
    (hpc : w'.manager = .tooSoon c q rest ∨ w'.manager = .allocate c q rest) :
    (w.manager = .tooSoon c q rest ∨ w.manager = .allocate c q rest) ∧
        (∀ {i c q rest}, a = .manager i → w.manager ≠ .allocate c q rest) ∨
      (∃ i, a = .manager i) ∧ w.manager = .stats c q rest ∧ w'.db = w.db ∧
        q.wantsMore (QResources.stats w.db (some q.name)) = true := by
  cases h with
  | @manager i db started pc hstep =>
      generalize hmanager : w.manager = m at hstep
      replace hpc : pc = .tooSoon c q rest ∨ pc = .allocate c q rest := hpc
      cases hstep with
      | wantsMore hwants =>
          obtain ⟨rfl, rfl, rfl⟩ := by simpa using hpc
          exact .inr ⟨⟨i, rfl⟩, rfl, rfl, hwants⟩
      | soonEnough =>
          obtain ⟨rfl, rfl, rfl⟩ := by simpa using hpc
          exact .inl ⟨.inl rfl, by simp⟩
      | @load config => cases hpools : config.pools <;> simp_all [ManagerPc.nextDetect]
      | @detectClosed _ _ pools => cases pools <;> simp_all [ManagerPc.nextDetect]
      | @plan _ pools => cases pools <;> simp_all [ManagerPc.nextPool]
      | keepUnknown _ _ pools | markCleaned _ _ pools =>
          cases pools <;> simp_all [ManagerPc.nextPool]
      | _ => simp at hpc
  | restart => simp at hpc
  | worker | watched | checked | takeTicket | notTaken | closeTicket | notClosed
    | resourceDelete | kill => exact .inl ⟨hpc, by simp⟩

/-- Every such action keeps the quotas of a pool. -/
theorem Inv.quotas_step (hinv : w.Inv) (hconfig : w.Configured config) (hp : p ∈ config.pools)
    (hcounted : 0 < p.maxPrealloc → w.Counted p) (hquotas : w.Quotas p)
    (hkeeps : OnWorkers KeepsCounts w a) (hstep : w.Steps a w') : w'.Quotas p := by
  have hle := hinv.countsLe_step hconfig hp hcounted hkeeps hstep
  refine ⟨?_, fun {c q rest} hpc hname => ?_⟩
  · by_cases hallocates : ∃ i c q rest, a = .manager i ∧ w.manager = .allocate c q rest ∧
        q.name = p.name
    · obtain ⟨i, c, q, rest, rfl, hmanager, hname⟩ := hallocates
      exact (hquotas.room (.inr hmanager) hname).within (hinv.count_allocate hstep hmanager)
    · exact hquotas.within.of_le <| hle fun {i c q rest} ha hmanager hname =>
        hallocates ⟨i, c, q, rest, ha, hmanager, hname⟩
  · rcases hstep.deciding_cases hpc with ⟨hbefore, hother⟩ | ⟨-, hmanager, hdb, hwants⟩
    · exact (hquotas.room hbefore hname).of_le <| hle fun ha hmanager =>
        absurd hmanager (hother ha)
    · have hq : q.base ∈ config.pools := hconfig.current q (by simp [hmanager, ManagerPc.current])
      obtain rfl := config.eq_of_name hq hp hname
      have hroom : q.HasRoom w.db :=
        Pool.hasRoom_of_wantsMore (config.named q.base hp) hwants
      rw [hdb]
      exact ⟨hroom.on, hroom.starting, hroom.prealloc⟩

/-! ## Runs -/

/-- The configuration stays as it is, and no step of a worker raises a count. -/
def Undisturbed (config : Config) (w : World) (a : Action) : Prop :=
  Loads config w a ∧ OnWorkers KeepsCounts w a

instance (config : Config) (w : World) (a : Action) : Decidable (Undisturbed config w a) :=
  inferInstanceAs (Decidable (_ ∧ _))

/-- With a configuration that does not change, every reachable state keeps the quotas
of every pool, unless a terminator takes a resource out of ENDED or a failed release
makes a used resource count as free. -/
theorem Reaches.quotas {config : Config} {as : List Action} {w : World}
    (hconfig : ∀ p ∈ config.pools, 0 ≤ p.max ∧ 0 ≤ p.maxStarting)
    (h : Reaches (Undisturbed config) as w) : ∀ p ∈ config.pools, p.Within w.db := by
  intro p hp
  have hstart : init.Inv ∧ init.Configured config ∧ (0 < p.maxPrealloc → init.Counted p) ∧
      init.Quotas p := by
    obtain ⟨hmax, hmaxStarting⟩ := hconfig p hp
    have hzero : ∀ f, init.db.resources.count f = 0 := fun f => rfl
    refine ⟨inv_init, configured_init config, fun _ => ⟨by simp [init], by simp [init]⟩,
      ⟨by simpa [hzero], by simpa [hzero], fun hpos => ?_⟩, by simp [init]⟩
    simpa [hzero] using hpos.le
  refine (h.invariant (P := fun u : World => u.Inv ∧ u.Configured config ∧
    (0 < p.maxPrealloc → u.Counted p) ∧ u.Quotas p) hstart ?_).2.2.2.within
  rintro u a v ⟨hinv, hconfigured, hcounted, hquotas⟩ ⟨hloads, hkeeps⟩ hstep
  have hsteps := step_cases hstep
  exact ⟨hinv.step hstep, hconfigured.step hloads hsteps,
    fun hpos => (hcounted hpos).step hinv hconfigured hp hpos hkeeps hsteps,
    hinv.quotas_step hconfigured hp hcounted hquotas hkeeps hsteps⟩

/-- The quotas of the pool in a run that assigns a resource and closes its ticket. -/
theorem quotas_basicRun :
    basicPool.Within (after (Undisturbed basicConfig) basicRun (by decide +kernel)).db :=
  Reaches.quotas (by decide +kernel) (reaches_after _ basicRun _) basicPool
    (List.mem_singleton_self _)

/-- The pool replaces its ended resource, and the second terminator of that resource
begins. -/
def exceedingRun : List Action :=
  revivedRun ++ ticks basicConfig 12 ++ [.worker 3 {}]

/-- A pool that may have one resource has two. -/
theorem quotas_exceeded :
    ¬ ∀ (config : Config) (as : List Action) (w : World),
      (∀ p ∈ config.pools, 0 ≤ p.max ∧ 0 ≤ p.maxStarting) → Reaches (Loads config) as w →
        ∀ p ∈ config.pools, p.Within w.db := by
  intro h
  have hrun : (execWithin step (Loads basicConfig) init exceedingRun).isSome = true := by
    decide +kernel
  have htwo : (after (Loads basicConfig) exceedingRun (by decide +kernel)).db.resources.count
      (Resource.isOn basicPool.name) = 2 := by decide +kernel
  have hon := (h basicConfig exceedingRun _ (by decide +kernel) (reaches_after _ _ hrun)
    basicPool (List.mem_singleton_self _)).on
  rw [htwo] at hon
  exact absurd hon (by decide)

end World

end Resalloc
