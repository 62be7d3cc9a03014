import Resalloc.Server.Cycles
import Resalloc.Server.Quotas

/-!
# On-demand starts

While the on-demand tickets wait, every resource that was started for one of them is
meant to keep the next cycles from starting another one.  Each cycle matches tickets
and resources anew, first fit in the order of the pool names, so this holds if the
waiting tickets are nested; otherwise a resource may stay unmatched that was started
for a ticket, and another one is started.

Main results:

- Definitions {lit}`World.StaysWaiting` and {lit}`World.Unused`: what the runs are about.
- Definition {lit}`World.PlansNested`: the planning meets nested tickets.
- Theorem {lit}`World.Demanded.step`: the started resources and the planned starts are
  covered by different waiting tickets that they match.
- Theorem {lit}`World.started_le_tickets`: no more resources are started than there are
  tickets.
- Theorem {lit}`World.started_more`: three starts for two tickets.
-/

namespace Resalloc

open Foundations

/-! ## On-demand resources and tickets -/

namespace Config

variable (config : Config)

/-- A pool of this name starts resources on demand. -/
def OnDemand (pool : String) : Prop :=
  ∃ p ∈ config.pools, p.tagsOnDemand ≠ [] ∧ p.name = pool

instance (pool : String) : Decidable (config.OnDemand pool) :=
  inferInstanceAs (Decidable (∃ _ ∈ _, _))

/-- A ticket with these tags triggers starts on demand. -/
def Demands (tags : List String) : Prop :=
  ∃ tag ∈ tags, tag ∈ onDemandTags config.pools

instance (tags : List String) : Decidable (config.Demands tags) :=
  inferInstanceAs (Decidable (∃ _ ∈ _, _))

/-- The on-demand pool of this name matches a set of tags. -/
def Provides (tags : List String) (pool : String) : Prop :=
  ∃ p ∈ config.pools, p.tagsOnDemand ≠ [] ∧ p.name = pool ∧ p.Provides tags

instance (tags : List String) (pool : String) : Decidable (config.Provides tags pool) :=
  inferInstanceAs (Decidable (∃ _ ∈ _, _))

/-- The tags of the waiting on-demand tickets, in the order of their identifiers. -/
def onDemandTickets (db : Db) : List (List String) :=
  onDemandTagSets (onDemandTags config.pools) (QTickets.waiting db)

/-- The pool of each on-demand resource that was started since a state {lit}`w₀`. -/
def onDemandStarts (w₀ w : World) : List String :=
  ((w.db.resources.rows.map Resource.pool).drop w₀.db.resources.rows.length).filter
    fun pool => config.OnDemand pool

variable {config}

/-- What the on-demand pools match. -/
theorem agrees (config : Config) :
    Agrees config.Provides (config.pools.filter fun p => p.tagsOnDemand ≠ []) := by
  intro p hp tags
  obtain ⟨hp, hdemand⟩ := List.mem_filter.mp hp
  rw [decide_eq_true_eq] at hdemand
  constructor
  · rintro ⟨q, hq, -, hname, hprovides⟩
    exact config.eq_of_name hq hp hname ▸ hprovides
  · exact fun hprovides => ⟨p, hp, hdemand, rfl, hprovides⟩

end Config

/-! ## What the runs are about -/

namespace World

variable {config : Config} {w₀ w w' : World} {a : Action} {as as₀ : List Action}

/-- No on-demand ticket stops waiting. -/
def StaysWaiting (config : Config) (w : World) (a : Action) : Prop :=
  ∀ w' ∈ w.step a, ∀ e ∈ QTickets.waiting w.db, config.Demands e.2.tags →
    e.1 ∈ (QTickets.waiting w'.db).map Prod.fst

instance (config : Config) (w : World) (a : Action) : Decidable (StaysWaiting config w a) :=
  inferInstanceAs (Decidable (∀ _ ∈ _, _))

/-- All on-demand resources of a state {lit}`w₀` were and are ENDED, and those started
since then are STARTING or UP and have no ticket. -/
def Unused (config : Config) (w₀ w : World) : Prop :=
  ∀ e ∈ w.db.resources.entries, config.OnDemand e.2.pool →
    (e.1 < w₀.db.resources.nextId ∧ e.2.state = .ended) ∨
      (w₀.db.resources.nextId ≤ e.1 ∧ (e.2.state = .starting ∨ e.2.state = .up) ∧
        e.2.ticketId = none)

instance (config : Config) (w₀ w : World) : Decidable (Unused config w₀ w) :=
  inferInstanceAs (Decidable (∀ _ ∈ _, _))

/-- The manager is about to plan the starts of a cycle. -/
def plans (w : World) : Bool :=
  match w.manager with
  | .plan _ => true
  | _ => false

/-- When a cycle plans its starts, the waiting on-demand tickets are nested with regard
to the pools that have a resource already. -/
def PlansNested (config : Config) (w : World) : Prop :=
  w.plans = true → (config.onDemandTickets w.db).Pairwise
    (Nested config.Provides (slotsOf (onDemandPools config.pools w.db)))

instance (config : Config) (w : World) : Decidable (PlansNested config w) := by
  unfold PlansNested Nested
  infer_instance

/-- A ticket keeps its tags. -/
theorem TicketSteps.tags {tid : TicketId} {t t' : Ticket} (h : w.TicketSteps tid t a t') :
    t'.tags = t.tags := by
  cases h <;> rfl

/-- The waiting tickets stay, and new ones join them. -/
theorem StaysWaiting.tickets_le (h : StaysWaiting config w a) (hlinked : Linked w.db)
    (hstep : w.step a = some w') :
    (config.onDemandTickets w.db : Multiset (List String)) ≤ config.onDemandTickets w'.db := by
  -- the tickets with their identifiers, which are different
  have hids : ∀ db, config.onDemandTickets db =
      (((QTickets.waiting db).map fun e => (e.1, e.2.tags)).filter
        fun e => config.Demands e.2).map Prod.snd := by
    intro db
    rw [Config.onDemandTickets, onDemandTagSets, List.filter_map, List.filter_map, List.map_map]
    rfl
  rw [hids, hids, ← Multiset.map_coe, ← Multiset.map_coe]
  refine Multiset.map_le_map (Multiset.coe_le.mpr (List.Nodup.subperm ?_ ?_))
  · refine List.Nodup.filter _ (List.Nodup.of_map Prod.fst ?_)
    rw [List.map_map]
    exact w.db.tickets.entries_nodup.sublist (List.filter_sublist.map _)
  · intro e he
    obtain ⟨he, hdemands⟩ := List.mem_filter.mp he
    obtain ⟨⟨tid, t⟩, hwaiting, rfl⟩ := List.mem_map.mp he
    rw [decide_eq_true_eq] at hdemands
    obtain ⟨⟨_, t'⟩, hwaiting', rfl⟩ := List.mem_map.mp (h w' hstep _ hwaiting hdemands)
    obtain ⟨t₀, ht₀, hrow⟩ := (step_cases hstep).ticket hlinked (mem_waiting.mp hwaiting).1
    obtain rfl := Option.some.inj ((mem_waiting.mp hwaiting').1.symm.trans ht₀)
    refine List.mem_filter.mpr ⟨List.mem_map.mpr ⟨_, hwaiting', ?_⟩, by simpa using hdemands⟩
    simp [hrow.tags]

/-! ## Existing resources -/

/-- The resources of a pool that the planning takes for existing ones. -/
theorem stats_existing (db : Db) {pool : String} (hpool : pool ≠ "") :
    (QResources.stats db (some pool)).start + (QResources.stats db (some pool)).ready +
        (QResources.stats db (some pool)).releasing =
      db.resources.rows.countP fun r => decide (r.pool = pool) &&
        (r.state = .starting ∨ (r.state = .up ∧ r.ticketId = none) ∨ r.state = .releasing) := by
  simp only [QResources.stats, QResources.on, select_rows db hpool, List.filter_filter,
    ← List.countP_eq_length_filter]
  induction db.resources.rows with
  | nil => rfl
  | cons r rows ih =>
      simp only [List.countP_cons, ← ih]
      cases hstate : r.state <;> by_cases hr : r.pool = pool <;>
        by_cases hticket : r.ticketId = none <;> simp [hr, hticket] <;> omega

/-- The existing resources of an on-demand pool are those that were started. -/
theorem Unused.existing (h : Unused config w₀ w) {pool : String} (hpool : pool ≠ "")
    (hdemand : config.OnDemand pool) :
    (QResources.stats w.db (some pool)).start + (QResources.stats w.db (some pool)).ready +
        (QResources.stats w.db (some pool)).releasing =
      (config.onDemandStarts w₀ w).count pool := by
  have hrow : ∀ {i r}, w.db.resources.rows[i]? = some r → r.pool = pool →
      (i < w₀.db.resources.rows.length ∧ r.state = .ended) ∨
        (w₀.db.resources.rows.length ≤ i ∧ (r.state = .starting ∨ r.state = .up) ∧
          r.ticketId = none) := by
    intro i r hr hname
    have hcases := h (i + 1, r) (IdTable.mem_entries.mpr hr) (hname ▸ hdemand)
    simpa [IdTable.nextId] using hcases
  have hstarts : (config.onDemandStarts w₀ w).count pool =
      (w.db.resources.rows.drop w₀.db.resources.rows.length).countP
        fun r => decide (r.pool = pool) := by
    rw [Config.onDemandStarts, List.count_filter (by simpa using hdemand), ← List.map_drop,
      List.count, List.countP_map]
    rfl
  have hold : (w.db.resources.rows.take w₀.db.resources.rows.length).countP
      (fun r => decide (r.pool = pool) && decide (r.state = .starting ∨
        (r.state = .up ∧ r.ticketId = none) ∨ r.state = .releasing)) = 0 := by
    rw [List.countP_eq_zero]
    intro r hr
    obtain ⟨i, hi, rfl⟩ := List.mem_take_iff_getElem.mp hr
    have hcases := @hrow i _ (List.getElem?_eq_getElem (by omega))
    grind
  rw [stats_existing w.db hpool, hstarts,
    ← List.take_append_drop w₀.db.resources.rows.length w.db.resources.rows, List.countP_append,
    hold, Nat.zero_add, List.take_append_drop]
  refine List.countP_congr fun r hr => ?_
  obtain ⟨i, hi, rfl⟩ := List.mem_drop_iff_getElem.mp hr
  have hcases := @hrow _ _ (List.getElem?_eq_getElem hi)
  grind

/-- A multiset, name by name. -/
theorem bind_replicate_count {names : List String} (hnodup : names.Nodup) (s : Multiset String) :
    ((names : Multiset String).bind fun name => Multiset.replicate (s.count name) name) =
      s.filter (· ∈ names) := by
  induction names with
  | nil => simp
  | cons name names ih =>
      obtain ⟨hfirst, hrest⟩ := List.nodup_cons.mp hnodup
      have hdisjoint : s.filter (fun x => x = name ∧ x ∈ names) = 0 :=
        Multiset.filter_eq_nil.mpr fun x _ ⟨hx, hmem⟩ => hfirst (hx ▸ hmem)
      have hsplit := Multiset.filter_add_filter (fun x => x = name) (fun x => x ∈ names) s
      rw [hdisjoint, Multiset.add_zero] at hsplit
      rw [← Multiset.cons_coe, Multiset.cons_bind, ih hrest, ← Multiset.filter_eq', hsplit]
      simp

/-- The planning sees the started resources. -/
theorem Unused.slots (h : Unused config w₀ w) :
    slotsOf (onDemandPools config.pools w.db) = config.onDemandStarts w₀ w := by
  set pools := config.pools.filter fun p => p.tagsOnDemand ≠ [] with hpools
  have hnodup : (pools.map Pool.name).Nodup := config.nodup.sublist (List.filter_sublist.map _)
  have hexisting : ∀ p ∈ pools, (QResources.stats w.db (some p.name)).start +
      (QResources.stats w.db (some p.name)).ready +
        (QResources.stats w.db (some p.name)).releasing =
      (config.onDemandStarts w₀ w : Multiset String).count p.name := by
    intro p hp
    obtain ⟨hp, hdemand⟩ := List.mem_filter.mp hp
    rw [Multiset.coe_count]
    exact h.existing (config.named p hp) ⟨p, hp, by simpa using hdemand, rfl⟩
  have hperm : ((onDemandPools config.pools w.db : List PoolStats) : Multiset PoolStats) =
      (pools : Multiset Pool).map fun p =>
        { pool := p
          stats := QResources.stats w.db (some p.name)
          alreadyExisting := (QResources.stats w.db (some p.name)).start +
            (QResources.stats w.db (some p.name)).ready +
            (QResources.stats w.db (some p.name)).releasing } :=
    Multiset.coe_eq_coe.mpr ((List.perm_insertionSort _ _).map _)
  have hall : ∀ name ∈ (config.onDemandStarts w₀ w : Multiset String),
      name ∈ pools.map Pool.name := by
    intro name hname
    obtain ⟨p, hp, hdemand, rfl⟩ := of_decide_eq_true (List.mem_filter.mp hname).2
    exact List.mem_map_of_mem (List.mem_filter.mpr ⟨hp, by simpa using hdemand⟩)
  rw [← Multiset.filter_eq_self.mpr hall, ← bind_replicate_count hnodup, slotsOf, hperm,
    Multiset.bind_map, ← Multiset.map_coe, Multiset.bind_map]
  refine Multiset.bind_congr fun p hp => ?_
  rw [hexisting p hp]

/-! ## Planned and started resources -/

/-- An allocation adds a resource of its pool. -/
theorem allocate_pools {p : Pool} {now importTime : Time} {datetime : String} {db db' : Db}
    {id : ResourceId} (h : p.allocate now importTime datetime db = .ok (db', id)) :
    db'.resources.rows.map Resource.pool = db.resources.rows.map Resource.pool ++ [p.name] := by
  obtain ⟨rfl, -, name, hrows⟩ := allocate_ok h
  have hpush : db'.resources.rows.map Resource.pool =
      (db.resources.push { p.newResource importTime with name := name }).rows.map
        Resource.pool :=
    IdTable.map_rows_ext fun j => by rw [hrows, IdTable.get?_push]
  rw [hpush, IdTable.push, List.map_append]
  rfl

/-- All other steps leave the pools of the resources as they are. -/
theorem Steps.pools_eq (h : w.Steps a w') (hlinked : Linked w.db)
    (hother : ∀ {i c p rest}, a = .manager i → w.manager ≠ .allocate c p rest) :
    w'.db.resources.rows.map Resource.pool = w.db.resources.rows.map Resource.pool := by
  refine IdTable.map_rows_ext fun id => ?_
  cases hr : w.db.resources.get? id with
  | none =>
      cases hr' : w'.db.resources.get? id with
      | none => rfl
      | some r' =>
          obtain ⟨_, _, _, _, _, ha, hmanager, -, -⟩ := h.created hlinked hr' hr
          exact absurd hmanager (hother ha)
  | some r =>
      obtain ⟨r', hr', hrow⟩ := h.resource hlinked hr
      simp [hr', hrow.pool]

/-- The resources that were started and those whose start is planned, each one as the
name of its pool. -/
def slots (config : Config) (w₀ w : World) : Multiset String :=
  config.onDemandStarts w₀ w + startsOf w.manager.current

/-- A resource that is started was planned before. -/
theorem slots_allocate {p p' : Pool} {rest : List Pool} {i : Input} {id : ResourceId}
    (hp : p.base ∈ config.pools) (hdecided : p.tagsOnDemand ≠ [] → 0 < p.startOnDemandThisCycle)
    (hp' : p' = { p with startOnDemandThisCycle := p.startOnDemandThisCycle - 1 })
    (hallocate : p'.allocate i.now w.importTime i.datetime w.db = .ok (w'.db, id)) :
    config.onDemandStarts w₀ w' + startsOf (p' :: rest) ≤
      config.onDemandStarts w₀ w + startsOf (p :: rest) := by
  have hname : p'.name = p.name := by rw [hp']
  have hplanned : p'.startOnDemandThisCycle = p.startOnDemandThisCycle - 1 := by rw [hp']
  rw [startsOf_cons, startsOf_cons, ← Multiset.add_assoc, ← Multiset.add_assoc, hname, hplanned]
  refine Multiset.add_le_add_right ?_
  rw [Config.onDemandStarts, allocate_pools hallocate, hname, List.drop_append,
    List.filter_append, ← Multiset.coe_add, Multiset.add_assoc]
  refine Multiset.add_le_add_left ?_
  by_cases hdemand : p.tagsOnDemand = []
  · -- this resource is not on demand
    have hnot : ¬ config.OnDemand p.name := by
      rintro ⟨q, hq, hdemand', hname'⟩
      exact hdemand' (config.eq_of_name hq hp hname' ▸ hdemand)
    have hnone : ([p.name].drop
        (w₀.db.resources.rows.length - (w.db.resources.rows.map Resource.pool).length)).filter
          (fun pool => config.OnDemand pool) = [] := by
      refine List.filter_eq_nil_iff.mpr fun name hmem => ?_
      obtain rfl := List.mem_singleton.mp (List.mem_of_mem_drop hmem)
      simpa using hnot
    rw [hnone, Multiset.coe_nil, Multiset.zero_add]
    exact Multiset.replicate_le_replicate _ |>.mpr (by omega)
  · have hpos := hdecided hdemand
    have hone : (([p.name].drop
        (w₀.db.resources.rows.length - (w.db.resources.rows.map Resource.pool).length)).filter
          (fun pool => config.OnDemand pool) : Multiset String) ≤ {p.name} :=
      Multiset.coe_le.mpr (List.filter_sublist.trans (List.drop_sublist _ _)).subperm
    calc _ ≤ {p.name} + Multiset.replicate (p.startOnDemandThisCycle - 1).toNat p.name :=
          Multiset.add_le_add_right hone
      _ = Multiset.replicate ((p.startOnDemandThisCycle - 1).toNat + 1) p.name := by
          rw [Multiset.replicate_succ, Multiset.singleton_add]
      _ = Multiset.replicate p.startOnDemandThisCycle.toNat p.name := by congr 1; omega

/-- Only the planning adds to the started and the planned resources. -/
theorem Steps.slots_cases (h : w.Steps a w') (w₀ : World) (hcycling : w.Cycling config)
    (hloads : Loads config w a)
    (hdecided : ∀ {c p rest}, w.manager = .allocate c p rest → p.tagsOnDemand ≠ [] →
      0 < p.startOnDemandThisCycle) :
    slots config w₀ w' ≤ slots config w₀ w ∨
      ∃ c pools, w.manager = .plan c ∧ w'.db = w.db ∧ w'.manager.current = pools ∧
        decideWhereToStart c.onDemandTags c.pools w.db = .ok pools := by
  have hpools := h.pools_eq hcycling.inv.linked
  have hcurrent := hcycling.configured.current
  cases h with
  | @manager i db started pc hpc =>
      -- where nothing is allocated, the planned starts decide
      have hother : (∀ c p rest, w.manager ≠ .allocate c p rest) →
          startsOf pc.current ≤ startsOf w.manager.current →
          slots config w₀
            { w with db := db, manager := pc, workers := spawn w.workers started } ≤
              slots config w₀ w := by
        intro hmanager hle
        have hstarts := hpools fun _ => hmanager _ _ _
        simp only [slots, Config.onDemandStarts] at hstarts ⊢
        rw [hstarts]
        exact Multiset.add_le_add_left hle
      simp only [Loads] at hloads
      unfold slots at hother ⊢
      clear hpools
      generalize w.manager = m at hpc hcurrent hloads hother hdecided
      cases hpc with
      | stop => exact .inl (Multiset.add_le_add_left (Multiset.zero_le _))
      | load hconfig _ _ =>
          obtain rfl := Option.some.inj ((hloads rfl).symm.trans hconfig)
          refine .inl (hother (by simp) ?_)
          rw [ManagerPc.nextDetect_current, ← startsOf_filter, List.filter_eq_nil_iff.mpr]
          · exact Multiset.zero_le _
          · intro p hp
            simp [config.unplanned p hp]
      | plan hplan => exact .inr ⟨_, _, rfl, rfl, by simp, hplan⟩
      | detectClosed =>
          refine .inl (hother (by simp) ?_)
          rw [ManagerPc.nextDetect_current]
          exact startsOf_le_cons _ _
      | keepUnknown | markCleaned =>
          refine .inl (hother (by simp) ?_)
          rw [ManagerPc.nextPool_current]
          exact startsOf_le_cons _ _
      | allocate hp' hallocate =>
          exact .inl (slots_allocate (hcurrent _ List.mem_cons_self) (hdecided rfl) hp' hallocate)
      | removal | garbage | wantsMore | hasEnough | tooSoon | soonEnough | cleanUnknown =>
          exact .inl (hother (by simp) le_rfl)
      | collect | assigned | skipped | served => exact .inl (hother (by simp) le_rfl)
  | restart =>
      refine .inl ?_
      simp only [slots, Config.onDemandStarts, hpools (by simp)]
      exact Multiset.add_le_add_left (Multiset.zero_le _)
  | worker | watched | checked | takeTicket | notTaken | closeTicket | notClosed
    | resourceDelete | kill =>
      simp only [slots, Config.onDemandStarts, hpools (by simp)]
      exact .inl le_rfl

/-- Every resource that was started and every planned start has a waiting ticket of its
own that its pool matches. -/
structure Demanded (config : Config) (w₀ w : World) : Prop where
  covered : Fillable config.Provides (slots config w₀ w) (config.onDemandTickets w.db)
  /-- An on-demand pool allocates what was planned. -/
  decided : ∀ {c p rest}, w.manager = .tooSoon c p rest ∨ w.manager = .allocate c p rest →
    p.tagsOnDemand ≠ [] → 0 < p.startOnDemandThisCycle

/-- Every such action keeps it. -/
theorem Demanded.step (h : Demanded config w₀ w) (hcycling : w.Cycling config)
    (hloads : Loads config w a) (hwaits : StaysWaiting config w a) (hunused : Unused config w₀ w)
    (hnested : PlansNested config w) (hstep : w.step a = some w') :
    Demanded config w₀ w' := by
  have hsteps := step_cases hstep
  have htickets := hwaits.tickets_le hcycling.inv.linked hstep
  refine ⟨?_, fun {c p rest} hpc hdemand => ?_⟩
  · rcases hsteps.slots_cases w₀ hcycling hloads fun hpc => h.decided (.inr hpc) with
      hle | ⟨c, pools, hmanager, hdb, hcurrent, hplan⟩
    · exact h.covered.mono hle htickets
    · have hcycle : c = { onDemandTags := onDemandTags config.pools, pools := config.pools } :=
        hcycling.covered.loaded (by simp [hmanager, ManagerPc.cycle?])
          (by simp [hmanager, ManagerPc.unreviewed?])
      subst hcycle
      obtain ⟨taken, left, free, hfit, added, husable, hfst, hstarts⟩ :=
        decideWhereToStart_spec config.nodup config.unplanned config.agrees hplan
      -- no started resource stays unmatched, so that each new one is for another ticket
      have hfill : Fillable config.Provides (slotsOf (onDemandPools config.pools w.db))
          (config.onDemandTickets w.db) := by
        rw [hunused.slots]
        exact h.covered.mono (Multiset.le_add_right _ _) le_rfl
      have hpairwise : (config.onDemandTickets w.db).Pairwise
          (Nested config.Provides (slotsOf (onDemandPools config.pools w.db))) :=
        hnested (by simp [plans, hmanager])
      obtain rfl := hfit.saturates hfill hpairwise
      refine (hfit.extend husable hfst).mono ?_ htickets
      rw [hunused.slots, slots, hcurrent, Config.onDemandStarts, hdb]
      exact Multiset.add_le_add_left hstarts
  · rcases hsteps.deciding_cases hpc with ⟨hbefore, -⟩ | ⟨-, hmanager, -, hwants⟩
    · exact h.decided hbefore hdemand
    · have hp : p.base ∈ config.pools :=
        hcycling.configured.current p (by simp [hmanager, ManagerPc.current])
      have hprealloc : p.maxPrealloc = 0 := config.noPrealloc p.base hp hdemand
      unfold Pool.wantsMore at hwants
      split_ifs at hwants
      omega

/-! ## Runs -/

/-- The configuration stays as it is, and the on-demand tickets keep waiting while no
on-demand resource is used. -/
def Waits (config : Config) (w₀ w : World) (a : Action) : Prop :=
  Loads config w a ∧ StaysWaiting config w a ∧ Unused config w₀ w

instance (config : Config) (w₀ w : World) (a : Action) : Decidable (Waits config w₀ w a) :=
  inferInstanceAs (Decidable (_ ∧ _ ∧ _))

/-- Such a run, in which every planning meets nested tickets. -/
def WaitsNested (config : Config) (w₀ w : World) (a : Action) : Prop :=
  Waits config w₀ w a ∧ PlansNested config w

instance (config : Config) (w₀ w : World) (a : Action) :
    Decidable (WaitsNested config w₀ w a) :=
  inferInstanceAs (Decidable (_ ∧ _))

/-- While on-demand tickets wait and every planning meets nested tickets, no more
on-demand resources are started than there are on-demand tickets. -/
theorem started_le_tickets (h₀ : Reaches (Loads config) as₀ w₀) (hwait : w₀.manager = .wait)
    (h : Path step (WaitsNested config w₀) w₀ as w) :
    (config.onDemandStarts w₀ w).length ≤ (config.onDemandTickets w.db).length := by
  have hcycling : w₀.Cycling config :=
    h₀.invariant (cycling_init config) fun u a v hu ha hstep => hu.step ha hstep
  have hstart : Demanded config w₀ w₀ := by
    refine ⟨⟨0, by simp, Multiset.zero_le _, ?_⟩, by simp [hwait]⟩
    rw [slots, Config.onDemandStarts, List.drop_of_length_le (by simp), hwait]
    exact le_rfl
  have hdemanded := (h.invariant (P := fun u : World => u.Cycling config ∧ Demanded config w₀ u)
    ⟨hcycling, hstart⟩ fun u a v ⟨hcycling, hdemanded⟩ ⟨⟨hloads, hwaits, hunused⟩, hnested⟩ hstep =>
      ⟨hcycling.step hloads hstep,
        hdemanded.step hcycling hloads hwaits hunused hnested hstep⟩).2
  calc (config.onDemandStarts w₀ w).length
      ≤ Multiset.card (slots config w₀ w) := by simp [slots]
    _ ≤ (config.onDemandTickets w.db).length := hdemanded.covered.card_le

/-- Two on-demand pools: the first one by name provides two tags, and the other one
only one of them, which it is preferred for. -/
def demandConfig : Config where
  pools :=
    [{ basicPool with
        name := "a", id := "a", max := 4, maxStarting := 4, maxPrealloc := 0,
        tagsOnDemand := [{ name := "x" }, { name := "y" }] },
      { basicPool with
        name := "b", id := "b", max := 4, maxStarting := 4, maxPrealloc := 0,
        tagsOnDemand := [{ name := "x", priority := some 10 }] }]
  nodup := by decide +kernel
  distinct := by decide +kernel
  named := by decide +kernel
  unplanned := by decide +kernel
  noPrealloc := by decide +kernel
  validated := by decide +kernel

/-- Two tickets are taken, and two cycles of the manager follow. -/
def demandRun (first second : List String) : List Action :=
  [.takeTicket first none, .takeTicket second none] ++ ticks demandConfig 32

/-- If the first ticket needs both tags, the tickets are nested. -/
theorem started_le_tickets_demandRun :
    (demandConfig.onDemandStarts init (after (WaitsNested demandConfig init)
        (demandRun ["x", "y"] ["x"]) (by decide +kernel))).length ≤
      (demandConfig.onDemandTickets (after (WaitsNested demandConfig init)
        (demandRun ["x", "y"] ["x"]) (by decide +kernel)).db).length :=
  started_le_tickets .refl rfl (reaches_after (WaitsNested demandConfig init) _ _)

/-- If it comes second, three resources are started for the two tickets. -/
theorem started_more :
    ¬ ∀ (config : Config) (as₀ as : List Action) (w₀ w : World), Reaches (Loads config) as₀ w₀ →
      w₀.manager = .wait → Path step (Waits config w₀) w₀ as w →
        (config.onDemandStarts w₀ w).length ≤ (config.onDemandTickets w.db).length := by
  intro h
  have hrun : (execWithin step (Waits demandConfig init) init
      (demandRun ["x"] ["x", "y"])).isSome = true := by decide +kernel
  have hstarts : (demandConfig.onDemandStarts init (after (Waits demandConfig init)
      (demandRun ["x"] ["x", "y"]) (by decide +kernel))).length = 3 := by decide +kernel
  have htickets : (demandConfig.onDemandTickets (after (Waits demandConfig init)
      (demandRun ["x"] ["x", "y"]) (by decide +kernel)).db).length = 2 := by decide +kernel
  have hle := h demandConfig [] (demandRun ["x"] ["x", "y"]) init _ .refl rfl
    (reaches_after (Waits demandConfig init) _ hrun)
  rw [hstarts, htickets] at hle
  exact absurd hle (by decide)

end World

end Resalloc
