import Resalloc.Server.Decisions
import Resalloc.Server.Tags

/-!
# Carrying out the plan

The planning and the allocation loops test the quotas of a pool separately, on statistics
that are read at different times.  In between the counts of a pool do not grow, and each
allocation takes one planned start away and adds one resource, so the planned starts that
are left always fit into the quotas.

Main results:

- Definition {lit}`ManagerPc.toGo`: how many steps the manager needs for the pools.
- Definition {lit}`World.Executing`: what holds while a plan is carried out.
- Theorem {lit}`World.Executing.step`: every action keeps it.
- Theorem {lit}`World.reaches_plan`: a run to the planning for any one ticket.
- Theorem {lit}`World.plan_carried_out_iff`: for which configurations the plan is greedy, and
  exactly what it plans is started.
- Theorem {lit}`World.plan_not_carried_out`: a tag with a null priority.
-/

namespace Resalloc

open Foundations

/-! ## The loops over the pools -/

/-- How many steps the manager needs at most for the loops over these pools. -/
def loopSteps (pools : List Pool) : ℕ :=
  pools.foldr (fun p n => 3 * p.startOnDemandThisCycle.toNat + 5 + n) 0

namespace ManagerPc

/-- How many steps the manager needs at most until it has left the pools. -/
def toGo : ManagerPc → ℕ
  | .removal _ p rest => 3 * p.startOnDemandThisCycle.toNat + 5 + loopSteps rest
  | .garbage _ p rest => 3 * p.startOnDemandThisCycle.toNat + 4 + loopSteps rest
  | .stats _ p rest => 3 * p.startOnDemandThisCycle.toNat + 3 + loopSteps rest
  | .tooSoon _ p rest => 3 * p.startOnDemandThisCycle.toNat + 2 + loopSteps rest
  | .allocate _ p rest => 3 * p.startOnDemandThisCycle.toNat + 1 + loopSteps rest
  | .cleanUnknown _ _ rest => 2 + loopSteps rest
  | .markCleaned _ _ rest => 1 + loopSteps rest
  | .wait | .detectClosed _ _ _ | .plan _ | .collect _ | .assign _ _ _ | .stopped _ => 0

/-- The manager is in the loops over the pools, or has left them. -/
def inPools : ManagerPc → Bool
  | .removal _ _ _ | .garbage _ _ _ | .stats _ _ _ | .tooSoon _ _ _ | .allocate _ _ _
  | .cleanUnknown _ _ _ | .markCleaned _ _ _ | .collect _ => true
  | .wait | .detectClosed _ _ _ | .plan _ | .assign _ _ _ | .stopped _ => false

/-- What a place in the loops says about the planned starts of its pool. -/
def OnPlan : ManagerPc → Prop
  | .tooSoon _ p _ | .allocate _ p _ => 0 < p.startOnDemandThisCycle
  | .cleanUnknown _ p _ | .markCleaned _ p _ => p.startOnDemandThisCycle ≤ 0
  | _ => True

@[simp]
theorem nextPool_toGo (c : Cycle) (pools : List Pool) :
    (nextPool c pools).toGo = loopSteps pools := by
  cases pools <;> rfl

@[simp]
theorem nextPool_inPools (c : Cycle) (pools : List Pool) : (nextPool c pools).inPools = true := by
  cases pools <;> rfl

theorem nextPool_onPlan (c : Cycle) (pools : List Pool) : (nextPool c pools).OnPlan := by
  cases pools <;> trivial

/-- Only where it has left the pools, the manager has nothing to do for them. -/
theorem collect_of_toGo {pc : ManagerPc} (hin : pc.inPools = true) (h : pc.toGo = 0) :
    ∃ c, pc = .collect c := by
  cases pc with
  | collect c => exact ⟨c, rfl⟩
  | wait | detectClosed | plan | assign | stopped => simp [inPools] at hin
  | removal | garbage | stats | tooSoon | allocate | cleanUnknown | markCleaned =>
      simp [toGo] at h

/-- Every step brings the manager closer to the end of the loops, as it only allocates what
is planned. -/
theorem Steps.toGo_lt {pc pc' : ManagerPc} {i : Input} {importTime : Time} {db db' : Db}
    {started : List Worker} (h : Steps i importTime db pc db' started pc')
    (hin : pc.inPools = true) (hleft : 0 < pc.toGo)
    (hplan : pc.OnPlan) : pc'.toGo < pc.toGo := by
  cases h with
  | stop => exact hleft
  | load | detectClosed | plan | assigned | skipped | served => simp [inPools] at hin
  | collect => exact absurd hleft (lt_irrefl 0)
  | @allocate c rest _ _ p p' hp' _ =>
      have hpos : 0 < p.startOnDemandThisCycle := hplan
      have hleft : p'.startOnDemandThisCycle = p.startOnDemandThisCycle - 1 := by rw [hp']
      simp only [toGo, hleft]
      omega
  | tooSoon c p rest =>
      have hpos : 0 < p.startOnDemandThisCycle := hplan
      simp only [toGo]
      omega
  | keepUnknown | markCleaned =>
      rw [nextPool_toGo]
      simp only [toGo]
      omega
  | removal | garbage | wantsMore | hasEnough | soonEnough | cleanUnknown =>
      simp only [toGo]
      omega

end ManagerPc

/-- The planned starts of one of different pools. -/
theorem count_startsOf {pools : List Pool} (hnodup : (pools.map Pool.name).Nodup) {p : Pool}
    (hp : p ∈ pools) : (startsOf pools).count p.name = p.startOnDemandThisCycle.toNat := by
  induction pools with
  | nil => simp at hp
  | cons q pools ih =>
      obtain ⟨hfirst, hrest⟩ := List.nodup_cons.mp hnodup
      rw [startsOf_cons, Multiset.count_add]
      rcases List.mem_cons.mp hp with rfl | hp
      · have hnone : (startsOf pools).count p.name = 0 := by
          apply Multiset.count_eq_zero.mpr
          intro hmem
          obtain ⟨q, hq, hname⟩ := Multiset.mem_bind.mp hmem
          exact hfirst (Multiset.eq_of_mem_replicate hname ▸ List.mem_map_of_mem hq)
        rw [hnone, Multiset.count_replicate_self, Nat.add_zero]
      · have hne : q.name ≠ p.name := fun heq => hfirst (heq ▸ List.mem_map_of_mem hp)
        rw [ih hrest hp, Multiset.count_replicate, if_neg hne, Nat.zero_add]

/-- The planned starts of a pool fit into what its quotas leave. -/
structure Pool.Fits (p : Pool) (db : Db) : Prop where
  on : p.startOnDemandThisCycle + db.resources.count (Resource.isOn p.name) ≤ p.max
  starting : p.startOnDemandThisCycle + db.resources.count (Resource.isStarting p.name) ≤
    p.maxStarting

/-- Counts that did not grow leave room for the planned starts. -/
theorem Pool.Fits.of_le {p : Pool} {db db' : Db} (h : p.Fits db)
    (hle : db'.resources.count (Resource.isOn p.name) ≤
        db.resources.count (Resource.isOn p.name) ∧
      db'.resources.count (Resource.isStarting p.name) ≤
        db.resources.count (Resource.isStarting p.name)) : p.Fits db' := by
  obtain ⟨hon, hstarting⟩ := h
  constructor <;> omega

/-- One more resource fits in for one planned start less. -/
theorem Pool.Fits.allocated {p : Pool} {db db' : Db} (h : p.Fits db)
    (hsucc : ∀ f, db'.resources.count f ≤ db.resources.count f + 1) :
    { p with startOnDemandThisCycle := p.startOnDemandThisCycle - 1 }.Fits db' := by
  obtain ⟨hon, hstarting⟩ := h
  have hon' := hsucc (Resource.isOn p.name)
  have hstarting' := hsucc (Resource.isStarting p.name)
  constructor
  · simp only
    omega
  · simp only
    omega

/-- The tests of the allocation loop of an on-demand pool find room exactly while planned
starts are left, if these fit into the quotas. -/
theorem wantsMore_iff {p : Pool} {db : Db} (hname : p.name ≠ "") (hprealloc : p.maxPrealloc = 0)
    (hfits : 0 < p.startOnDemandThisCycle → p.Fits db) :
    p.wantsMore (QResources.stats db (some p.name)) = true ↔ 0 < p.startOnDemandThisCycle := by
  obtain ⟨hon, hstart, -⟩ := stats_counts db hname
  rw [Pool.wantsMore, hon, hstart]
  split_ifs with hmax hfull hnone
  · simp only [false_iff, not_lt]
    by_contra hpos
    have hroom := (hfits (by omega)).on
    omega
  · exact absurd hprealloc hfull.1
  · simp only [false_iff, not_lt]
    exact hnone.2
  · have hpos : 0 < p.startOnDemandThisCycle := by
      by_contra hle
      exact hnone ⟨hprealloc, by omega⟩
    have hroom := (hfits hpos).starting
    simp only [decide_eq_true_eq]
    constructor
    · exact fun _ => hpos
    · intro _
      omega

/-- The pools all start on demand, without a delay. -/
def Config.Prompt (config : Config) : Prop :=
  ∀ p ∈ config.pools, p.tagsOnDemand ≠ [] ∧ p.startDelay = 0

instance (config : Config) : Decidable config.Prompt :=
  inferInstanceAs (Decidable (∀ _ ∈ _, _))

/-- A step of the manager. -/
def Action.isManager : Action → Bool
  | .manager _ => true
  | _ => false

namespace World

variable {config : Config} {u v v' w : World} {a : Action} {as as₀ : List Action} {i : Input}
variable {pools : List Pool} {c : Cycle} {p p' : Pool} {rest : List Pool} {id : ResourceId}

/-! ## What may happen meanwhile -/

/-- The manager has left the pools. -/
def collects (w : World) : Bool :=
  match w.manager with
  | .collect _ => true
  | _ => false

/-- Everything that may happen while the manager visits the pools: its clock never shows a
time before a recorded start, the server is not restarted, and no terminator comes late. -/
def InCycle (w : World) (a : Action) : Prop :=
  match a with
  | .manager i => w.collects = false ∧ ∀ row ∈ w.db.pools, row.lastStart ≤ i.now
  | .worker k i => OnWorkers NotLate w (.worker k i)
  | .restart _ => False
  | .watcher _ | .takeTicket _ _ | .closeTicket _ | .resourceDelete _ | .kill _ => True

instance (w : World) (a : Action) : Decidable (InCycle w a) :=
  match a with
  | .manager _ => inferInstanceAs (Decidable (_ ∧ ∀ _ ∈ _, _))
  | .worker k i => inferInstanceAs (Decidable (OnWorkers NotLate w (.worker k i)))
  | .restart _ => inferInstanceAs (Decidable False)
  | .watcher _ | .takeTicket _ _ | .closeTicket _ | .resourceDelete _ | .kill _ =>
      inferInstanceAs (Decidable True)

/-- No terminator comes late. -/
theorem InCycle.notLate (h : InCycle w a) : OnWorkers NotLate w a := by
  cases a with
  | worker => exact h
  | _ => trivial

/-! ## The invariant -/

/-- What holds while the manager visits the pools, since a state {lit}`u` with these planned
starts. -/
structure Executing (config : Config) (u : World) (pools : List Pool) (v : World) : Prop where
  prepared : v.Prepared
  running : v.manager.inPools = true
  known : ∀ p ∈ v.manager.current, p.base ∈ config.pools ∧ p.name ∈ v.db.poolNames
  grown : u.db.resources.rows.length ≤ v.db.resources.rows.length
  /-- The started resources and the starts that are left are those that were planned. -/
  balance : (config.onDemandStarts u v : Multiset String) + startsOf v.manager.current =
    startsOf pools
  fits : ∀ p ∈ v.manager.current, 0 < p.startOnDemandThisCycle → p.Fits v.db
  onPlan : v.manager.OnPlan

/-- The manager does not stop at the pools, and is never too early for a planned start. -/
theorem Executing.survives (h : Executing config u pools v) (hprompt : config.Prompt)
    (hcycle : InCycle v (.manager i)) (hstep : v.step (.manager i) = some v') :
    v'.manager.inPools = true ∧
      ∀ c p rest, v.manager = .tooSoon c p rest → v'.manager = .allocate c p rest := by
  obtain rfl := Option.some.inj hstep
  obtain ⟨hpools, hclock⟩ := hcycle
  obtain ⟨⟨hinv, howners, -, -⟩, hrunning, hknown, -⟩ := h
  change (v.manager.step i v.importTime v.db).2.2.inPools = true ∧
    ∀ c p rest, v.manager = .tooSoon c p rest →
      (v.manager.step i v.importTime v.db).2.2 = .allocate c p rest
  cases hmanager : v.manager with
  | wait | detectClosed | plan | assign | stopped => simp [hmanager, ManagerPc.inPools] at hrunning
  | collect => simp [collects, hmanager] at hpools
  | removal c p rest =>
      obtain ⟨db, hdb, -⟩ := requestResourceRemoval_spec hinv.linked p i.now
      simp [ManagerPc.step, hdb, ManagerPc.inPools]
  | garbage => simp [ManagerPc.step, ManagerPc.inPools]
  | stats =>
      simp only [ManagerPc.step]
      split_ifs <;> simp [ManagerPc.inPools]
  | cleanUnknown c p rest =>
      simp only [ManagerPc.step]
      split_ifs
      · simp [ManagerPc.inPools]
      · simp
  | markCleaned => simp [ManagerPc.step]
  | tooSoon c p rest =>
      obtain ⟨hbase, hname⟩ := hknown p (by simp [hmanager, ManagerPc.current])
      have hdelay : p.startDelay = 0 := (hprompt p.base hbase).2
      obtain ⟨row, hrow, hfound⟩ := v.db.exists_pool? hname
      have hnow : ¬ i.now < row.lastStart + p.startDelay := by
        rw [hdelay, add_zero]
        exact not_lt.mpr (hclock row hrow)
      simp [ManagerPc.step, Pool.tooSoon, hfound, hnow, ManagerPc.inPools]
  | allocate c p rest =>
      obtain ⟨-, hname⟩ := hknown p (by simp [hmanager, ManagerPc.current])
      obtain ⟨db, id, hallocate⟩ := @allocate_returns v.db
        { p with startOnDemandThisCycle := p.startOnDemandThisCycle - 1 } howners hname
        i.now v.importTime i.datetime
      simp [ManagerPc.step, hallocate, ManagerPc.inPools]

/-- Where nothing is allocated, the invariant stays with the planned starts. -/
theorem Executing.keep (h : Executing config u pools v) (hcycle : InCycle v a)
    (hstep : v.step a = some v')
    (hother : ∀ i, a = .manager i → ∀ c p rest, v.manager ≠ .allocate c p rest)
    (hrunning : v'.manager.inPools = true)
    (hsub : v'.manager.current ⊆ v.manager.current)
    (hstarts : startsOf v'.manager.current = startsOf v.manager.current)
    (hplan : v'.manager.OnPlan) : Executing config u pools v' := by
  obtain ⟨hprepared, -, hknown, hgrown, hbalance, hfits, -⟩ := h
  have hsteps := step_cases hstep
  have hpools := hsteps.pools_eq hprepared.inv.linked fun {i c p rest} ha => hother i ha c p rest
  have hlength : v'.db.resources.rows.length = v.db.resources.rows.length := by
    simpa using congrArg List.length hpools
  constructor
  · exact hprepared.step hstep
  · exact hrunning
  · intro p hp
    obtain ⟨hbase, hname⟩ := hknown p (hsub hp)
    exact ⟨hbase, step_poolNames hprepared.inv.linked hstep hname⟩
  · rw [hlength]
    exact hgrown
  · rw [hstarts, Config.onDemandStarts, hpools]
    exact hbalance
  · intro p hp hpos
    apply (hfits p (hsub hp) hpos).of_le
    apply hsteps.limits_le hprepared.inv hcycle.notLate
    intro i c q rest ha hmanager
    exact absurd hmanager (hother i ha c q rest)
  · exact hplan

/-- An allocation for an on-demand pool is one more start. -/
theorem onDemandStarts_allocate
    (hallocate : p.allocate i.now v.importTime i.datetime v.db = .ok (v'.db, id))
    (hgrown : u.db.resources.rows.length ≤ v.db.resources.rows.length)
    (hdemand : config.OnDemand p.name) :
    config.onDemandStarts u v' = config.onDemandStarts u v ++ [p.name] := by
  rw [Config.onDemandStarts, Config.onDemandStarts, allocate_pools hallocate,
    List.drop_append_of_le_length (by simpa using hgrown), List.filter_append]
  simp [hdemand]

/-- An allocation turns a planned start into a resource of its pool. -/
theorem Executing.allocate (h : Executing config u pools v) (hprompt : config.Prompt)
    (hcycle : InCycle v (.manager i)) (hstep : v.step (.manager i) = some v')
    (hmanager : v.manager = .allocate c p rest)
    (hp' : p' = { p with startOnDemandThisCycle := p.startOnDemandThisCycle - 1 })
    (hallocate : p'.allocate i.now v.importTime i.datetime v.db = .ok (v'.db, id))
    (hnext : v'.manager = .stats c p' rest) : Executing config u pools v' := by
  obtain ⟨hprepared, -, hknown, hgrown, hbalance, hfits, hplan⟩ := h
  have hsteps := step_cases hstep
  have hpools := allocate_pools hallocate
  have hname : p'.name = p.name := by rw [hp']
  have hleft : p'.startOnDemandThisCycle = p.startOnDemandThisCycle - 1 := by rw [hp']
  have hdistinct := hprepared.loaded.distinct
  rw [hmanager] at hknown hbalance hfits hdistinct hplan
  have hpos : 0 < p.startOnDemandThisCycle := hplan
  have hcurrent : v'.manager.current = p' :: rest := by
    rw [hnext]
    rfl
  have hbase : p.base ∈ config.pools := (hknown p List.mem_cons_self).1
  constructor
  · exact hprepared.step hstep
  · rw [hnext]
    rfl
  · intro q hq
    have hnames := step_poolNames hprepared.inv.linked hstep
    rw [hcurrent] at hq
    rcases List.mem_cons.mp hq with rfl | hq
    · rw [hname, hp']
      exact ⟨hbase, hnames (hknown p List.mem_cons_self).2⟩
    · obtain ⟨hbase, hrow⟩ := hknown q (List.mem_cons_of_mem _ hq)
      exact ⟨hbase, hnames hrow⟩
  · have hlength : v'.db.resources.rows.length = v.db.resources.rows.length + 1 := by
      simpa using congrArg List.length hpools
    omega
  · -- the new row is the only one that is added, and its pool has one planned start less
    have hdemand : config.OnDemand p.name := ⟨p.base, hbase, (hprompt p.base hbase).1, rfl⟩
    have hadded := onDemandStarts_allocate hallocate hgrown (hname ▸ hdemand)
    rw [hadded, hcurrent, ← hbalance, startsOf_cons, hname, hleft, ← Multiset.coe_add,
      ManagerPc.current, startsOf_cons]
    have hcount : p.startOnDemandThisCycle.toNat = (p.startOnDemandThisCycle - 1).toNat + 1 := by
      omega
    rw [hcount, Multiset.replicate_succ]
    simp [add_assoc]
  · intro q hq hplanned
    rw [hcurrent] at hq
    rcases List.mem_cons.mp hq with rfl | hq
    · rw [hp']
      exact (hfits p List.mem_cons_self hpos).allocated fun f =>
        hprepared.inv.count_allocate hsteps hmanager f
    · apply (hfits q (List.mem_cons_of_mem _ hq) hplanned).of_le
      apply hsteps.limits_le hprepared.inv hcycle.notLate
      intro _ _ _ _ _ hmanager' heq
      obtain ⟨-, rfl, -⟩ := by simpa using hmanager.symm.trans hmanager'
      exact (List.nodup_cons.mp hdistinct).1 (heq ▸ List.mem_map_of_mem hq)
  · rw [hnext]
    trivial

/-- No planned starts are left where the manager is done with a pool. -/
theorem startsOf_finished (hfinished : p.startOnDemandThisCycle ≤ 0) :
    startsOf rest = startsOf (p :: rest) := by
  have hnone : p.startOnDemandThisCycle.toNat = 0 := by omega
  rw [startsOf_cons, hnone, Multiset.replicate_zero, zero_add]

/-- Every step of the manager keeps the invariant. -/
theorem Executing.step_manager (h : Executing config u pools v) (hprompt : config.Prompt)
    (hcycle : InCycle v (.manager i)) (hstep : v.step (.manager i) = some v') :
    Executing config u pools v' := by
  obtain ⟨hrunning', hdue⟩ := h.survives hprompt hcycle hstep
  have hkeep := h.keep hcycle hstep
  have hallocate := @Executing.allocate config u v v' i pools
  have hwants : ∀ {c p rest}, v.manager = .stats c p rest →
      (p.wantsMore (QResources.stats v.db (some p.name)) = true ↔
        0 < p.startOnDemandThisCycle) := by
    intro c p rest hmanager
    have hp : p ∈ v.manager.current := by simp [hmanager, ManagerPc.current]
    have hbase := (h.known p hp).1
    apply wantsMore_iff
    · exact config.named p.base hbase
    · exact config.noPrealloc p.base hbase (hprompt p.base hbase).1
    · exact h.fits p hp
  have hsteps := step_cases hstep
  cases hsteps with
  | @manager _ db started pc hpc =>
      have hrunning := h.running
      have hplan := h.onPlan
      generalize hmanager : v.manager = m at hpc hrunning hkeep hdue hplan hwants
      cases hpc with
      | stop => simp [ManagerPc.inPools] at hrunning'
      | load | detectClosed | plan | assigned | skipped | served =>
          simp [ManagerPc.inPools] at hrunning
      | collect => exact absurd hcycle.1 (by simp [collects, hmanager])
      | removal | garbage => exact hkeep (by simp) rfl (List.Subset.refl _) rfl trivial
      | wantsMore hmore =>
          exact hkeep (by simp) rfl (List.Subset.refl _) rfl ((hwants rfl).mp hmore)
      | hasEnough henough =>
          apply hkeep (by simp) rfl (List.Subset.refl _) rfl
          apply not_lt.mp
          rw [← hwants rfl, henough]
          exact Bool.false_ne_true
      | tooSoon c p rest => simpa using hdue c p rest rfl
      | soonEnough | cleanUnknown => exact hkeep (by simp) rfl (List.Subset.refl _) rfl hplan
      | allocate hp' hallocated =>
          exact hallocate h hprompt hcycle hstep hmanager hp' hallocated rfl
      | keepUnknown c p rest | markCleaned c p rest =>
          apply hkeep (by simp)
          · simp
          · rw [ManagerPc.nextPool_current]
            exact List.subset_cons_self p rest
          · rw [ManagerPc.nextPool_current]
            exact startsOf_finished hplan
          · exact ManagerPc.nextPool_onPlan c rest

/-- Every action keeps the invariant, and every step of the manager is one step less to
go. -/
theorem Executing.step (h : Executing config u pools v) (hprompt : config.Prompt)
    (hcycle : InCycle v a) (hstep : v.step a = some v') :
    Executing config u pools v' ∧
      v'.manager.toGo + (if a.isManager then 1 else 0) ≤ v.manager.toGo := by
  have hsteps := step_cases hstep
  cases hsteps with
  | @manager i db started pc hpc =>
      refine ⟨h.step_manager hprompt hcycle hstep, ?_⟩
      apply Nat.succ_le_of_lt
      apply hpc.toGo_lt h.running _ h.onPlan
      apply Nat.pos_of_ne_zero
      intro hnone
      obtain ⟨c, hcollect⟩ := ManagerPc.collect_of_toGo h.running hnone
      exact absurd hcycle.1 (by simp [collects, hcollect])
  | restart => exact absurd hcycle id
  | worker | watched | checked | takeTicket | notTaken | closeTicket | notClosed | resourceDelete
    | kill =>
      constructor
      · exact h.keep hcycle hstep (by simp) h.running (List.Subset.refl _) rfl h.onPlan
      · exact Nat.le_refl _

/-! ## The plan is carried out -/

/-- The invariant holds when the planning is done. -/
theorem executing_planned (hprepared : w.Prepared)
    (hmanager : w.manager =
      .plan { onDemandTags := onDemandTags config.pools, pools := config.pools })
    (hplan : decideWhereToStart (onDemandTags config.pools) config.pools w.db = .ok pools)
    (hstep : w.step (.manager i) = some u) :
    u.manager.current = pools ∧ pools.map Pool.base = config.pools ∧
      Executing config u pools u := by
  have hprepared' := hprepared.step hstep
  have hbase : pools.map Pool.base = config.pools :=
    (decideWhereToStart_base config.nodup hplan).trans config.map_base
  simp only [World.step, hmanager, ManagerPc.step, hplan, Option.some.injEq] at hstep
  have hdb : u.db = w.db := by rw [← hstep]
  have hnext : u.manager = ManagerPc.nextPool
      { onDemandTags := onDemandTags config.pools, pools := pools } pools := by rw [← hstep]
  have hcurrent : u.manager.current = pools := by rw [hnext, ManagerPc.nextPool_current]
  refine ⟨hcurrent, hbase, hprepared', ?_, ?_, Nat.le_refl _, ?_, ?_, ?_⟩
  · rw [hnext, ManagerPc.nextPool_inPools]
  · intro p hp
    rw [hcurrent] at hp
    have hmem : p.base ∈ config.pools := hbase ▸ List.mem_map_of_mem hp
    exact ⟨hmem, hdb ▸ hprepared.rows (by rw [hmanager]; rfl) p.base hmem⟩
  · rw [Config.onDemandStarts, List.drop_of_length_le (by simp), hcurrent]
    simp
  · rw [hcurrent]
    intro p hp hpos
    obtain ⟨_, _, _, _, -, -, -, -, hfits⟩ :=
      decideWhereToStart_serves config.nodup config.unplanned hplan
    obtain ⟨hon, hstarting⟩ := hfits p hp hpos
    have hname : p.name ≠ "" := config.named p.base (hbase ▸ List.mem_map_of_mem hp)
    obtain ⟨hcount, hcount', -⟩ := stats_counts w.db hname
    constructor
    · rw [hdb, ← hcount]
      exact hon
    · rw [hdb, ← hcount']
      exact hstarting
  · rw [hnext]
    exact ManagerPc.nextPool_onPlan _ _

/-- The planning of a cycle is greedy, and exactly the planned starts are carried out, within
some number of steps of the manager. -/
def CarriesOut (config : Config) : Prop :=
  ∀ {as₀ w i u}, Reaches anyStep as₀ w →
    w.manager = .plan { onDemandTags := onDemandTags config.pools, pools := config.pools } →
    w.step (.manager i) = some u →
    ∃ all tickets served planned bound,
      (QTickets.waiting w.db).foldlM (gatherTicket (onDemandTags config.pools))
        (onDemandPools config.pools w.db, []) = .ok (all, tickets) ∧
      all.map PoolStats.plain = (onDemandPools config.pools w.db).map PoolStats.plain ∧
      Serves Plannable planPriority PlansStart all tickets served planned ∧
      ∀ {as v}, Path step InCycle u as v →
        (v.collects = true → ∀ p ∈ config.pools,
          (config.onDemandStarts u v).count p.name = startsIn served p.name) ∧
        (v.collects = true ∨ as.countP Action.isManager < bound)

/-- If all tags have priorities, the plan is carried out. -/
theorem carriesOut_of_prioritized (hprompt : config.Prompt)
    (hprioritized : ∀ p ∈ config.pools, p.Prioritized) : CarriesOut config := by
  intro as₀ w i u h₀ hmanager hstep
  obtain ⟨pools, hplan⟩ := decideWhereToStart_returns hprioritized (onDemandTags config.pools) w.db
  obtain ⟨hcurrent, hbase, hexecuting⟩ := executing_planned h₀.prepared hmanager hplan hstep
  obtain ⟨all, tickets, served, planned, hgather, hplain, hserves, hstarts, -⟩ :=
    decideWhereToStart_serves config.nodup config.unplanned hplan
  refine ⟨all, tickets, served, planned, u.manager.toGo, hgather, hplain, hserves, ?_⟩
  intro as v hrun
  obtain ⟨hend, hbudget⟩ : Executing config u pools v ∧
      v.manager.toGo + as.countP Action.isManager ≤ u.manager.toGo :=
    hrun.budget hexecuting fun v a v' hv hcycle hnext => hv.step hprompt hcycle hnext
  constructor
  · intro hcollects p hp
    have hnone : v.manager.current = [] := by
      unfold collects at hcollects
      split at hcollects
      next c hcollect => rw [hcollect]; rfl
      next => contradiction
    have hbalance := hend.balance
    rw [hnone, show startsOf [] = 0 from rfl, add_zero] at hbalance
    have hdistinct := hexecuting.prepared.loaded.distinct
    rw [hcurrent] at hdistinct
    rw [← hbase] at hp
    obtain ⟨q, hq, rfl⟩ := List.mem_map.mp hp
    have hdemand := (hprompt q.base (hexecuting.known q (hcurrent ▸ hq)).1).1
    calc (config.onDemandStarts u v).count q.base.name
        = (startsOf pools).count q.name := by rw [← hbalance, Multiset.coe_count, Pool.base_name]
      _ = q.startOnDemandThisCycle.toNat := count_startsOf hdistinct hq
      _ = startsIn served q.base.name := by
          rw [hstarts q hq hdemand, Int.toNat_natCast, Pool.base_name]
  · rcases Nat.eq_zero_or_pos v.manager.toGo with hdone | hleft
    · obtain ⟨c, hcollect⟩ := ManagerPc.collect_of_toGo hend.running hdone
      left
      simp [collects, hcollect]
    · right
      omega

/-! ## Tags without a priority -/

/-- The closed tickets of all pools are looked for, where there is no resource. -/
theorem reaches_detectClosed (hrun : Reaches anyStep as w) (hempty : w.db.resources = .empty)
    (hmanager : w.manager = .nextDetect c pools) :
    ∃ as' w', Reaches anyStep as' w' ∧ w'.manager = .plan c ∧ w'.db = w.db := by
  induction pools generalizing as w with
  | nil => exact ⟨as, w, hrun, hmanager, rfl⟩
  | cons p pools ih =>
      have htaken : QResources.taken w.db (some p.name) = [] := by
        simp [QResources.taken, QResources.select, hempty, IdTable.entries, IdTable.empty]
      have hnone : p.detectClosedTickets 0 w.db = .ok (w.db, []) := by
        rw [Pool.detectClosedTickets, htaken]
        rfl
      have hstep : w.step (.manager {}) =
          some { w with manager := .nextDetect c pools, workers := spawn w.workers [] } := by
        simp only [World.step, hmanager, ManagerPc.nextDetect, ManagerPc.step, hnone, List.map_nil]
      have hnext : Reaches anyStep (as ++ [.manager {}])
          { w with manager := .nextDetect c pools, workers := spawn w.workers [] } :=
        hrun.snoc trivial hstep
      obtain ⟨as', w', hrun', hplan, hdb⟩ := ih hnext hempty rfl
      exact ⟨as', w', hrun', hplan, hdb⟩

/-- For any configuration and any different tags, the first cycle may plan with one ticket
that waits for them, before any resource exists. -/
theorem reaches_plan (config : Config) {tags : List String} (htags : tags.Nodup) :
    ∃ as w, Reaches anyStep as w ∧
      w.manager = .plan { onDemandTags := onDemandTags config.pools, pools := config.pools } ∧
      w.db.resources = .empty ∧ QTickets.waiting w.db = [(1, { tags := tags })] := by
  have hticket : step init (.takeTicket tags none) =
      some { init with
        db := { init.db with tickets := init.db.tickets.push { tags := tags } } } := by
    simp only [step, takeTicket, if_pos htags]
  obtain ⟨hresources, htickets⟩ := foldl_initPoolInDb_frame 0
    { init.db with tickets := init.db.tickets.push { tags := tags } } config.pools
  obtain ⟨as, w, hrun, hmanager, hdb⟩ := reaches_detectClosed
    ((Path.single trivial hticket).snoc (a := .manager { config := some config }) trivial rfl)
    hresources rfl
  refine ⟨as, w, hrun, hmanager, by rw [hdb]; exact hresources, ?_⟩
  have hone : w.db.tickets = IdTable.empty.push { tags := tags } := by
    rw [hdb]
    exact htickets
  rw [QTickets.waiting, hone]
  rfl

/-- Where no resource exists, a pool that cannot answer makes the loop over the pools raise. -/
theorem takeExisting_raises {tags : List String} {all : List PoolStats} {s : PoolStats}
    (hnone : ∀ s ∈ all, s.alreadyExisting = 0) (hs : s ∈ all)
    (hraises : ∀ answer, s.pool.getTagsPriority tags ≠ .ok answer) :
    ∃ e, takeExisting tags all = .error e := by
  induction all with
  | nil => simp at hs
  | cons first rest ih =>
      rw [takeExisting]
      cases hanswer : first.pool.getTagsPriority tags with
      | error e => exact ⟨e, rfl⟩
      | ok answer =>
          have hrest : s ∈ rest := by
            refine (List.mem_cons.mp hs).resolve_left ?_
            rintro rfl
            exact hraises answer hanswer
          obtain ⟨e, he⟩ := ih (fun s hs => hnone s (List.mem_cons_of_mem _ hs)) hrest
          have hzero := hnone first List.mem_cons_self
          cases answer with
          | none => exact ⟨e, by simp only [he]⟩
          | some priority => exact ⟨e, by simp only [hzero, Nat.lt_irrefl, if_false, he]⟩

/-- If a plan is carried out in every run, all tags have priorities: a ticket may ask for a tag
that has none, together with an on-demand tag of the same pool. -/
theorem prioritized_of_carriesOut (hprompt : config.Prompt) (h : CarriesOut config) :
    ∀ p ∈ config.pools, p.Prioritized := by
  intro p hp tag htag hpriority
  obtain ⟨demand, hdemand⟩ := List.exists_mem_of_ne_nil _ (hprompt p hp).1
  have hnodup : ([tag.name, demand.name].dedup).Nodup := List.nodup_dedup _
  obtain ⟨as, w, hrun, hmanager, hempty, hwaiting⟩ := reaches_plan config hnodup
  obtain ⟨all, tickets, _, _, _, hgather, -⟩ := h hrun hmanager (i := {}) rfl
  -- without resources nothing exists that the planning could count on
  have hnone : ∀ s ∈ onDemandPools config.pools w.db, s.alreadyExisting = 0 := by
    intro s hs
    obtain ⟨q, -, rfl⟩ := List.mem_map.mp hs
    simp [QResources.stats, QResources.on, QResources.select, hempty, IdTable.entries,
      IdTable.empty]
  obtain ⟨s, hs, rfl⟩ : ∃ s ∈ onDemandPools config.pools w.db, s.pool = p := by
    refine ⟨_, List.mem_map_of_mem (List.mem_insertionSort _ |>.mpr (List.mem_filter.mpr
      ⟨hp, decide_eq_true (hprompt p hp).1⟩)), rfl⟩
  have hraises : ∀ answer, s.pool.getTagsPriority [tag.name, demand.name].dedup ≠ .ok answer := by
    intro answer hanswer
    have hranked := Pool.getTagsPriority_returns_iff.mp ⟨answer, hanswer⟩
    exact hranked tag htag (by simp) hpriority
  obtain ⟨e, he⟩ := takeExisting_raises hnone hs hraises
  have honDemand : ∃ name ∈ [tag.name, demand.name].dedup, name ∈ onDemandTags config.pools := by
    refine ⟨demand.name, by simp, List.mem_flatMap.mpr ⟨s.pool, hp, ?_⟩⟩
    exact List.mem_map_of_mem hdemand
  have hround : gatherTicket (onDemandTags config.pools) (onDemandPools config.pools w.db, [])
      (1, { tags := [tag.name, demand.name].dedup }) = .error e := by
    simp only [gatherTicket, if_pos honDemand, he]
  rw [hwaiting] at hgather
  obtain ⟨acc, hfirst, -⟩ := foldlM_cons_ok.mp hgather
  rw [hround] at hfirst
  contradiction

/-- A ticket waits, and a start is planned for it. -/
def decided : World :=
  (planning.step (.manager { now := 10 })).get (by decide +kernel)

/-- The planned start is carried out, while the started thread runs. -/
def decidedRun : List Action :=
  ticks onDemandConfig 5 ++ List.replicate 3 (.worker 1 { now := 10 }) ++ ticks onDemandConfig 2

/-- The manager has left the pools. -/
def executed : World := (execWithin step InCycle decided decidedRun).get (by decide +kernel)

/-- A pool whose tag has no priority. -/
def unrankedPool : Pool := { onDemandPool with tagsOnDemand := [{ name := "x", priority := none }] }

/-- The configuration with this pool. -/
def unrankedConfig : Config := .single unrankedPool (by decide +kernel)

/-- A ticket waits when the cycle is about to plan its starts. -/
def unrankedPlanning : World :=
  after anyStep (.takeTicket ["x"] none :: ticks unrankedConfig 2) (by decide +kernel)

end World

end Resalloc
