import Resalloc.Server.OnDemand

/-!
# Planned starts and surplus removals

A cycle plans new starts for tickets that got no existing resource, and its removal passes
delete resources in excess of the waiting tickets.  The two count differently, at different
times.  A start is planned in a pool only if the pool has fewer existing resources than
tickets wait on it, and until its removal pass only closed tickets could change that.

Main results:

- Theorem {lit}`planned_existing_lt`: where a start is planned, tickets wait in vain.
- Theorem {lit}`World.Short.step`: they do until the removal pass of the pool.
- Theorem {lit}`Pool.removesSurplus`: which resources a removal pass takes as a surplus.
- Theorem {lit}`World.surplus_removals`: none of a pool with planned starts.
-/

namespace Resalloc

open Foundations

/-! ## Existing resources and waiting tickets -/

/-- The resource is ready, or is going to be: the planning takes it for an existing one. -/
def Resource.isExisting (pool : String) (r : Resource) : Bool :=
  r.pool = pool ∧ (r.state = .starting ∨ (r.state = .up ∧ r.ticketId = none) ∨
    r.state = .releasing)

/-- The resource is ready in the pool and was never released.  Without a name, a pool has the
resources of all pools. -/
def Resource.isNeverTaken (p : Pool) (r : Resource) : Bool :=
  (p.name ≠ "" → r.pool = p.name) ∧ r.state = .up ∧ r.ticketId = none ∧
    r.checkFailedCount = 0 ∧ r.releasesCounter = 0

/-- The ticket waits for a resource, and the pool provides its tags. -/
def Ticket.isWaitingOn (p : Pool) (t : Ticket) : Bool :=
  t.resourceId = none ∧ t.state = .opened ∧ ∀ tag ∈ t.tags, tag ∈ p.tagSet

namespace Pool

variable {p : Pool} {db : Db}

/-- The waiting tickets that the removal pass counts. -/
theorem waitingOnUs_eq (p : Pool) (db : Db) :
    p.waitingOnUs db = db.tickets.count (Ticket.isWaitingOn p) := by
  rw [waitingOnUs, QTickets.waiting, List.filter_filter, IdTable.count, ← IdTable.entries_map_snd,
    List.countP_map, List.countP_eq_length_filter]
  congr 1
  apply List.filter_congr
  intro e _
  simp only [Function.comp_apply, Ticket.isWaitingOn]
  grind

/-- The resources that the removal pass lists. -/
theorem mem_neverTaken {id : ResourceId} {r : Resource} :
    (id, r) ∈ p.neverTaken db ↔ db.resources.get? id = some r ∧ r.isNeverTaken p = true := by
  simp only [neverTaken, List.mem_filter, mem_ready, InPool, truthy_some, Option.some.injEq,
    Resource.isNeverTaken]
  grind

/-- The resources that the removal pass counts. -/
theorem neverTaken_length (p : Pool) (db : Db) :
    (p.neverTaken db).length = db.resources.count (Resource.isNeverTaken p) := by
  rw [neverTaken, QResources.ready, QResources.select, List.filter_filter, IdTable.count,
    ← IdTable.entries_map_snd, List.countP_map, List.countP_eq_length_filter]
  congr 1
  apply List.filter_congr
  intro e _
  simp only [Function.comp_apply, Resource.isNeverTaken, truthy]
  grind

/-- The resources that the removal pass counts are existing ones. -/
theorem neverTaken_le (hname : p.name ≠ "") (db : Db) :
    (p.neverTaken db).length ≤ db.resources.count (Resource.isExisting p.name) := by
  calc (p.neverTaken db).length
      ≤ (QResources.ready db (some p.name)).length := List.length_filter_le _ _
    _ = ((QResources.ready db (some p.name)).map Prod.snd).length := by rw [List.length_map]
    _ ≤ db.resources.count (Resource.isExisting p.name) := by
        rw [QResources.ready, select_rows db hname, ← List.countP_eq_length_filter]
        apply List.countP_mono_left
        intro r _
        simp only [Resource.isExisting]
        grind

end Pool

/-! ## Planned starts -/

section Planning

variable {config : Config} {db : Db} {p : Pool} {pools : List Pool}

/-- The planning sees all existing resources of an on-demand pool. -/
theorem existing_le_slots (config : Config) (db : Db) (hp : p ∈ config.pools)
    (hdemand : p.tagsOnDemand ≠ []) : db.resources.count (Resource.isExisting p.name) ≤
      (slotsOf (onDemandPools config.pools db)).count p.name := by
  have hmem : p ∈ (config.pools.filter fun p => p.tagsOnDemand ≠ []).insertionSort
      fun p q => p.name ≤ q.name :=
    (List.perm_insertionSort _ _).mem_iff.mpr (List.mem_filter.mpr ⟨hp, by simpa using hdemand⟩)
  have hexisting : db.resources.count (Resource.isExisting p.name) =
      (QResources.stats db (some p.name)).start + (QResources.stats db (some p.name)).ready +
        (QResources.stats db (some p.name)).releasing := by
    rw [World.stats_existing db (config.named p hp), IdTable.count]
    apply List.countP_congr
    intro r _
    simp only [Resource.isExisting]
    grind
  rw [Multiset.le_count_iff_replicate_le, hexisting, slotsOf]
  exact Multiset.le_bind _ (Multiset.mem_coe.mpr (List.mem_map_of_mem hmem))

/-- In a pool in which a start is planned, the existing resources are not enough for the
tickets that wait on it. -/
theorem planned_existing_lt
    (h : decideWhereToStart (onDemandTags config.pools) config.pools db = .ok pools)
    (hp : p ∈ pools) (hplanned : 0 < p.startOnDemandThisCycle) :
    db.resources.count (Resource.isExisting p.name) < p.waitingOnUs db := by
  obtain ⟨taken, left, free, hfit, added, husable, hfst, hstarts⟩ :=
    decideWhereToStart_spec config.nodup config.unplanned config.agrees h
  -- the start is for a ticket that got nothing
  have hname : p.name ∈ added.map Prod.snd := by
    apply Multiset.mem_of_le hstarts
    rw [startsOf, Multiset.mem_bind]
    exact ⟨p, hp, Multiset.mem_replicate.mpr ⟨by omega, rfl⟩⟩
  obtain ⟨⟨tags, name⟩, he, rfl⟩ := Multiset.mem_map.mp hname
  have hleft : tags ∈ left := Multiset.mem_of_le hfst (Multiset.mem_map_of_mem Prod.fst he)
  have hprovides : config.Provides tags p.name := husable _ he
  have hlt := hfit.count_lt hleft hprovides
  obtain ⟨q, hq, hdemand, hqname, -⟩ := hprovides
  have hbase : p.base = q := by
    have hmem : p.base ∈ config.pools := by
      obtain ⟨s, hs, hsp⟩ := exists_base_eq_of_plan config.nodup h hp
      rw [← hsp, config.base_eq hs]
      exact hs
    exact config.eq_of_name hmem hq hqname.symm
  have hexisting := existing_le_slots config db hq hdemand
  rw [hqname] at hexisting
  -- the tickets that could have used the pool wait on it
  have hwaiting : ((onDemandTagSets (onDemandTags config.pools) (QTickets.waiting db)).countP
      fun tags => config.Provides tags p.name) ≤ p.waitingOnUs db := by
    rw [onDemandTagSets, Pool.waitingOnUs, ← List.countP_eq_length_filter]
    refine (List.filter_sublist.countP_le).trans ?_
    rw [List.countP_map]
    apply List.countP_mono_left
    intro e _ hused
    obtain ⟨q', hq', -, hname', hprovides'⟩ := of_decide_eq_true hused
    obtain rfl := config.eq_of_name hq hq' (hqname.trans hname'.symm)
    rw [← hbase, Pool.base_provides] at hprovides'
    exact decide_eq_true hprovides'.subset
  omega

end Planning

/-! ## From the planning to the removal pass -/

namespace World

variable {w w' u v : World} {a : Action} {as : List Action} {p : Pool} {l : List Pool}

/-- No ticket is closed while removal passes of a cycle are still to come. -/
def KeepsTickets (w : World) (a : Action) : Prop :=
  w.manager.unreviewed?.getD [] = [] ∨ (a matches .closeTicket _) = false

instance (w : World) (a : Action) : Decidable (KeepsTickets w a) :=
  inferInstanceAs (Decidable (_ ∨ _))

/-- Only the decoupling and an allocation add to the existing resources of a pool. -/
theorem Steps.existing_le (h : w.Steps a w') (hinv : w.Inv) {pool : String}
    (hdetect : ∀ c p rest, w.manager ≠ .detectClosed c p rest)
    (hother : ∀ c q rest, w.manager = .allocate c q rest → q.name ≠ pool) :
    w'.db.resources.count (Resource.isExisting pool) ≤
      w.db.resources.count (Resource.isExisting pool) := by
  apply IdTable.count_le_of_get?
  intro id r' hr' hexisting
  simp only [Resource.isExisting, decide_eq_true_eq] at hexisting
  obtain ⟨hpool, hstate⟩ := hexisting
  obtain ⟨r, hr, hrow⟩ := h.existed hinv (fun _ => hother _ _ _) hr' hpool
  refine ⟨r, hr, ?_⟩
  simp only [Resource.isExisting, decide_eq_true_eq]
  refine ⟨hrow.pool ▸ hpool, ?_⟩
  cases hrow with
  | same | checked => exact hstate
  | decoupled _ hmanager => exact absurd hmanager (hdetect _ _ _)
  | assigned _ _ _ hup => simp [Resource.assigned, hup] at hstate
  | started hruns => exact .inl (hinv.owned.starting hruns hr)
  | returned hruns => exact .inr (.inr (hinv.owned.releasing hruns hr))
  | retired | killed | broken | terminating | ended => simp [Resource.retired] at hstate

/-- Only a closed or an assigned ticket stops waiting. -/
theorem Steps.waiting_le (h : w.Steps a w') (hinv : w.Inv) (p : Pool)
    (hopen : ∀ tid, a ≠ .closeTicket tid)
    (hassign : ∀ c queue ids, w.manager ≠ .assign c queue ids) :
    p.waitingOnUs w.db ≤ p.waitingOnUs w'.db := by
  rw [Pool.waitingOnUs_eq, Pool.waitingOnUs_eq]
  apply IdTable.count_le_of_get?
  intro tid t ht hwaiting
  obtain ⟨t', ht', hrow⟩ := h.ticket hinv.linked ht
  refine ⟨t', ht', ?_⟩
  cases hrow with
  | same => exact hwaiting
  | closed => exact absurd rfl (hopen tid)
  | killed _ _ hresource => simp [Ticket.isWaitingOn, hresource] at hwaiting
  | assigned _ hassigned =>
      obtain ⟨_, c, queue, ids, _, -, hmanager, -⟩ := assignment?_some hassigned
      exact absurd hmanager (hassign c queue ids)

/-- The pools whose removal pass is still to come are those from before the step, or the
ones that were planned for. -/
theorem Steps.unreviewed_cases (h : w.Steps a w') (hl : w'.manager.unreviewed? = some l)
    (hp : p ∈ l) :
    (∃ l₀, w.manager.unreviewed? = some l₀ ∧ p ∈ l₀) ∨
      ∃ c, w.manager = .plan c ∧ w'.db = w.db ∧
        decideWhereToStart c.onDemandTags c.pools w.db = .ok l := by
  cases h with
  | @manager i db started pc hpc =>
      generalize w.manager = m at hpc
      replace hl : pc.unreviewed? = some l := hl
      cases hpc with
      | @plan c pools hplan =>
          rw [ManagerPc.nextPool_unreviewed?, Option.some.injEq] at hl
          subst hl
          exact .inr ⟨c, rfl, rfl, hplan⟩
      | stop => simp [ManagerPc.unreviewed?] at hl
      | load | detectClosed => simp at hl
      | removal =>
          obtain rfl := Option.some.inj hl
          exact .inl ⟨_, rfl, List.mem_cons_of_mem _ hp⟩
      | keepUnknown | markCleaned =>
          rw [ManagerPc.nextPool_unreviewed?, Option.some.injEq] at hl
          subst hl
          exact .inl ⟨_, rfl, hp⟩
      | garbage | wantsMore | hasEnough | tooSoon | soonEnough | allocate | cleanUnknown | collect
        | assigned | skipped => exact .inl ⟨l, hl, hp⟩
      | served => simp [ManagerPc.unreviewed?] at hl
  | restart => simp [ManagerPc.unreviewed?] at hl
  | worker | watched | checked | takeTicket | notTaken | closeTicket | notClosed
    | resourceDelete | kill => exact .inl ⟨l, hl, hp⟩

end World

/-- The local variables of a cycle come from a loaded configuration. -/
structure ManagerPc.Loaded (pc : ManagerPc) : Prop where
  /-- Up to the planning they are as they were loaded. -/
  fresh : ∀ {c}, pc.cycle? = some c → pc.unreviewed? = none →
    ∃ config : Config, c = { onDemandTags := onDemandTags config.pools, pools := config.pools }
  named : ∀ name ∈ pc.current.map Pool.name, name ≠ ""
  distinct : (pc.current.map Pool.name).Nodup

/-- Every step of the manager keeps them so. -/
theorem ManagerPc.Loaded.step {pc pc' : ManagerPc} {i : Input} {importTime : Time} {db db' : Db}
    {started : List Worker} (h : pc.Loaded)
    (hstep : ManagerPc.Steps i importTime db pc db' started pc') : pc'.Loaded := by
  obtain ⟨hfresh, hnamed, hdistinct⟩ := h
  cases hstep with
  | stop => exact ⟨by simp [cycle?], by simp [current], by simp [current]⟩
  | @load config _ _ _ _ =>
      refine ⟨fun {c} hc _ => ⟨config, by simpa using hc.symm⟩, ?_, ?_⟩
      · simpa using config.named
      · simpa using config.nodup
  | @detectClosed c p rest _ _ _ =>
      refine ⟨fun {d} hd _ => hfresh ?_ rfl, fun name hname => hnamed name ?_, ?_⟩
      · rw [nextDetect_cycle?] at hd
        exact hd
      · rw [nextDetect_current] at hname
        exact List.mem_cons_of_mem _ hname
      · rw [nextDetect_current]
        exact (List.nodup_cons.mp hdistinct).2
  | @plan c pools hplan =>
      obtain ⟨config, rfl⟩ := hfresh rfl rfl
      have hnames : pools.map Pool.name = config.pools.map Pool.name := by
        have hbase := congrArg (List.map Pool.name) (decideWhereToStart_base config.nodup hplan)
        simpa [Function.comp_def] using hbase
      refine ⟨by simp, ?_, ?_⟩
      · simpa [hnames] using config.named
      · simpa [hnames] using config.nodup
  | keepUnknown c p rest | markCleaned c p rest =>
      refine ⟨by simp, fun name hname => hnamed name ?_, ?_⟩
      · rw [nextPool_current] at hname
        exact List.mem_cons_of_mem _ hname
      · rw [nextPool_current]
        exact (List.nodup_cons.mp hdistinct).2
  | @allocate _ _ _ _ p p' hp _ =>
      subst hp
      exact ⟨by simp [unreviewed?], hnamed, hdistinct⟩
  | removal | garbage | wantsMore | hasEnough | tooSoon | soonEnough | cleanUnknown =>
      exact ⟨by simp [unreviewed?], hnamed, hdistinct⟩
  | collect | assigned | skipped => exact ⟨by simp [unreviewed?], hnamed, hdistinct⟩
  | served => exact ⟨by simp [cycle?], by simp [current], by simp [current]⟩

/-- Every action keeps them so. -/
theorem ManagerPc.Loaded.step_world {w w' : World} {a : Action} (h : w.manager.Loaded)
    (hstep : w.Steps a w') : w'.manager.Loaded := by
  cases hstep with
  | manager hpc => exact h.step hpc
  | restart => exact ⟨by simp [cycle?], by simp [current], by simp [current]⟩
  | worker | watched | checked | takeTicket | notTaken | closeTicket | notClosed | resourceDelete
    | kill => exact h

namespace World

variable {w w' u v : World} {a : Action} {as : List Action}

/-- Until its removal pass, a pool with planned starts has not enough existing resources for
the tickets that wait on it. -/
structure Short (w : World) : Prop where
  inv : w.Inv
  loaded : w.manager.Loaded
  short : ∀ {l}, w.manager.unreviewed? = some l → ∀ p ∈ l, 0 < p.startOnDemandThisCycle →
    w.db.resources.count (Resource.isExisting p.name) < p.waitingOnUs w.db

/-- Every action keeps this, as long as no ticket is closed. -/
theorem Short.step (h : w.Short) (hkeeps : KeepsTickets w a) (hstep : w.step a = some w') :
    w'.Short := by
  have hsteps := step_cases hstep
  refine ⟨h.inv.step hstep, h.loaded.step_world hsteps, fun {l} hl p hp hplanned => ?_⟩
  rcases hsteps.unreviewed_cases hl hp with ⟨l₀, hl₀, hp₀⟩ | ⟨c, hmanager, hdb, hplan⟩
  · have hopen : ∀ tid, a ≠ .closeTicket tid := by
      rintro tid rfl
      rcases hkeeps with hnone | hother
      · rw [hl₀, Option.getD_some] at hnone
        simp [hnone] at hp₀
      · contradiction
    have hdetect : ∀ c q rest, w.manager ≠ .detectClosed c q rest := by
      intro c q rest hmanager
      simp [hmanager, ManagerPc.unreviewed?] at hl₀
    have hother : ∀ c q rest, w.manager = .allocate c q rest → q.name ≠ p.name := by
      intro c q rest hmanager hname
      have hdistinct := h.loaded.distinct
      rw [hmanager] at hl₀ hdistinct
      obtain rfl := Option.some.inj hl₀
      exact (List.nodup_cons.mp hdistinct).1 (hname ▸ List.mem_map_of_mem hp₀)
    have hassign : ∀ c queue ids, w.manager ≠ .assign c queue ids := by
      intro c queue ids hmanager
      rw [hmanager] at hl₀
      obtain rfl := Option.some.inj hl₀
      simp at hp₀
    have hexisting := hsteps.existing_le h.inv hdetect hother
    have hwaiting := hsteps.waiting_le h.inv p hopen hassign
    have hshort := h.short hl₀ p hp₀ hplanned
    omega
  · obtain ⟨config, rfl⟩ := h.loaded.fresh (by rw [hmanager]; rfl) (by rw [hmanager]; rfl)
    rw [hdb]
    exact planned_existing_lt hplan hp hplanned

end World

/-! ## The removal pass -/

section Removal

variable {p q : Pool} {db db' : Db}

/-- A removal pass adds no existing resource. -/
theorem Retires.existing_le (h : Retires p db db') (pool : String) :
    db'.resources.count (Resource.isExisting pool) ≤
      db.resources.count (Resource.isExisting pool) := by
  apply IdTable.count_le_of_get?
  intro id r' hr' hexisting
  obtain ⟨r, hr, rfl | ⟨-, -, rfl⟩⟩ := h.row hr'
  · exact ⟨r', hr, hexisting⟩
  · simp [Resource.isExisting, Resource.retired] at hexisting

/-- A removal pass fails no waiting ticket. -/
theorem Retires.waiting_le (h : Retires p db db') (q : Pool) :
    q.waitingOnUs db ≤ q.waitingOnUs db' := by
  rw [Pool.waitingOnUs_eq, Pool.waitingOnUs_eq]
  apply IdTable.count_le_of_get?
  intro tid t ht hwaiting
  rcases h.tickets tid with heq | ⟨t₀, ht₀, hresource, -, -⟩
  · exact ⟨t, heq.trans ht, hwaiting⟩
  · obtain rfl := Option.some.inj (ht.symm.trans ht₀)
    simp [Ticket.isWaitingOn, hresource] at hwaiting

namespace Pool

/-- The resources in excess of the waiting tickets go, of the never taken ones that are ready
those with the lowest identifiers, and nothing else changes. -/
structure RemovesSurplus (p : Pool) (db db' : Db) (removed : List ResourceId) : Prop where
  number : removed.length =
    db.resources.count (Resource.isNeverTaken p) - db.tickets.count (Ticket.isWaitingOn p)
  nodup : removed.Nodup
  ready : ∀ id ∈ removed, ∃ r, db.resources.get? id = some r ∧ r.isNeverTaken p = true
  lowest : ∀ id ∈ removed, ∀ j r, db.resources.get? j = some r → r.isNeverTaken p = true →
    j ∉ removed → id < j
  row : ∀ j, db'.resources.get? j =
    (db.resources.get? j).map fun r => if j ∈ removed then r.retired else r
  frame : db' = { db with resources := db'.resources }

/-- The ready resources that were never taken are listed in the order of their
identifiers. -/
theorem neverTaken_sorted (p : Pool) (db : Db) :
    ((p.neverTaken db).map Prod.fst).Pairwise (· < ·) :=
  List.pairwise_map.mpr
    (db.resources.entries_sorted.sublist (List.filter_sublist.trans List.filter_sublist))

/-- What the on-demand removals take. -/
theorem removesSurplus (p : Pool) (db : Db) (hdemand : p.tagsOnDemand ≠ []) :
    p.RemovesSurplus db (p.requestOnDemandResourcesRemoval db)
      (((p.neverTaken db).map Prod.fst).take
        ((p.neverTaken db).length - p.waitingOnUs db)) := by
  set surplus := (p.neverTaken db).length - p.waitingOnUs db with hsurplus
  have hsorted := p.neverTaken_sorted db
  have hremoval : p.requestOnDemandResourcesRemoval db = ((p.neverTaken db).take surplus).foldl
      (fun db e => db.modifyResource e.1 fun r => { r with state := .deleteRequest }) db := by
    rw [requestOnDemandResourcesRemoval, if_neg hdemand]
  constructor
  · rw [List.length_take, List.length_map, ← neverTaken_length, ← waitingOnUs_eq]
    omega
  · exact (hsorted.imp fun hlt => hlt.ne).sublist (List.take_sublist _ _)
  · intro id hid
    obtain ⟨⟨_, r⟩, hmem, rfl⟩ := List.mem_map.mp (List.mem_of_mem_take hid)
    exact ⟨r, mem_neverTaken.mp hmem⟩
  · intro id hid j r hget htaken hnot
    have hj : j ∈ (p.neverTaken db).map Prod.fst :=
      List.mem_map_of_mem (mem_neverTaken.mpr ⟨hget, htaken⟩)
    rw [← List.take_append_drop surplus ((p.neverTaken db).map Prod.fst)] at hsorted hj
    have hlater := (List.mem_append.mp hj).resolve_left hnot
    exact (List.pairwise_append.mp hsorted).2.2 id hid j hlater
  · intro j
    rw [hremoval, foldl_retire, List.map_take]
  · rw [hremoval]
    exact foldl_retire_frame _ _

/-- Without a surplus, nothing is removed. -/
theorem requestOnDemandResourcesRemoval_eq_self
    (h : (p.neverTaken db).length ≤ p.waitingOnUs db) :
    p.requestOnDemandResourcesRemoval db = db := by
  simp only [requestOnDemandResourcesRemoval, Nat.sub_eq_zero_of_le h, List.take_zero,
    List.foldl_nil, ite_self]

end Pool

end Removal

namespace World

variable {w v : World} {as : List Action}

/-- In a pool with planned starts, the removal pass finds no surplus. -/
theorem Short.no_surplus (h : w.Short) {c : Cycle} {p : Pool} {rest : List Pool}
    (hmanager : w.manager = .removal c p rest) (hplanned : 0 < p.startOnDemandThisCycle)
    (now : Time) :
    ∃ db, p.requestUnusableRemoval now w.db = .ok db ∧
      p.requestOnDemandResourcesRemoval db = db ∧
      p.requestResourceRemoval now w.db = .ok db := by
  obtain ⟨db, hok, hremoves⟩ := requestUnusableRemoval_spec h.inv.linked p now
  have hname : p.name ≠ "" := h.loaded.named p.name (by simp [hmanager, ManagerPc.current])
  have hshort := h.short (by rw [hmanager]; rfl) p List.mem_cons_self hplanned
  have hsame : p.requestOnDemandResourcesRemoval db = db := by
    apply Pool.requestOnDemandResourcesRemoval_eq_self
    calc (p.neverTaken db).length
        ≤ db.resources.count (Resource.isExisting p.name) := Pool.neverTaken_le hname db
      _ ≤ w.db.resources.count (Resource.isExisting p.name) := hremoves.retires.existing_le p.name
      _ ≤ p.waitingOnUs w.db := hshort.le
      _ ≤ p.waitingOnUs db := hremoves.retires.waiting_le p
  refine ⟨db, hok, hsame, ?_⟩
  rw [requestResourceRemoval_eq, hok, Except.map, hsame]

/-- Starts and surplus removals never fight: whatever other parties do in a cycle except
closing tickets, no removal pass takes a surplus of a pool in which starts were planned.
And a surplus is always taken from the lowest identifiers. -/
theorem surplus_removals :
    (∀ (config : Config) (w v : World) (as : List Action), w.Inv →
      w.manager = .plan { onDemandTags := onDemandTags config.pools, pools := config.pools } →
      Path step KeepsTickets w as v → ∀ c p rest, v.manager = .removal c p rest →
      0 < p.startOnDemandThisCycle → ∀ now, ∃ db, p.requestUnusableRemoval now v.db = .ok db ∧
        p.requestOnDemandResourcesRemoval db = db ∧
        p.requestResourceRemoval now v.db = .ok db) ∧
    ∀ (p : Pool) (db : Db), p.tagsOnDemand ≠ [] →
      ∃ removed, p.RemovesSurplus db (p.requestOnDemandResourcesRemoval db) removed := by
  constructor
  · intro config w v as hinv hplan hpath c p rest hmanager hplanned now
    have hstart : w.Short := by
      refine ⟨hinv, ⟨?_, ?_, ?_⟩, ?_⟩
      · intro c hc _
        rw [hplan] at hc
        exact ⟨config, (Option.some.inj hc).symm⟩
      · simp [hplan, ManagerPc.current]
      · simp [hplan, ManagerPc.current]
      · simp [hplan, ManagerPc.unreviewed?]
    have hshort : v.Short := hpath.invariant hstart fun _ _ _ hu hkeeps hstep =>
      hu.step hkeeps hstep
    exact hshort.no_surplus hmanager hplanned now
  · exact fun p db hdemand => ⟨_, p.removesSurplus db hdemand⟩

/-- A pool that starts a resource only on demand. -/
def onDemandPool : Pool :=
  { basicPool with maxPrealloc := 0, tagsOnDemand := [{ name := "x" }] }

/-- The configuration with this pool. -/
def onDemandConfig : Config := .single onDemandPool (by decide +kernel)

/-- A ticket waits when the cycle is about to plan its starts. -/
def planning : World :=
  after anyStep (.takeTicket ["x"] none :: ticks onDemandConfig 2) (by decide +kernel)

/-- A start is planned, and then another ticket is taken. -/
def planned : World :=
  (execWithin step KeepsTickets planning (ticks onDemandConfig 1 ++ [.takeTicket [] none])).get
    (by decide +kernel)

/-- A resource was started for a ticket, which is closed before the resource is up. -/
def surplus : World :=
  after anyStep (.takeTicket ["x"] none :: ticks onDemandConfig 8 ++ [.closeTicket 1] ++
    List.replicate 3 (.worker 1 { now := 20 })) (by decide +kernel)

/-- The removal pass of the pool leaves the database as its first part left it while a start is
planned, and takes the resource when no ticket waits. -/
theorem surplus_removals_planned :
    (∃ db, onDemandPool.requestUnusableRemoval 10 planned.db = .ok db ∧
      onDemandPool.requestOnDemandResourcesRemoval db = db) ∧
    ∃ removed, onDemandPool.RemovesSurplus surplus.db
      (onDemandPool.requestOnDemandResourcesRemoval surplus.db) removed ∧ removed.length = 1 := by
  constructor
  · have hinv : planning.Inv := Reaches.inv (reaches_after anyStep _ (by decide +kernel))
    have hmanager : planned.manager = .removal
        { onDemandTags := ["x"], pools := [{ onDemandPool with startOnDemandThisCycle := 1 }] }
        { onDemandPool with startOnDemandThisCycle := 1 } [] := by decide +kernel
    obtain ⟨db, hok, hsame, -⟩ := surplus_removals.1 onDemandConfig planning planned _ hinv
      (by decide +kernel) (Path.of_execWithin (Option.some_get _).symm) _ _ _ hmanager
      (by decide +kernel) 10
    exact ⟨db, hok, hsame⟩
  · obtain ⟨removed, hremoves⟩ :=
      surplus_removals.2 onDemandPool surplus.db (List.cons_ne_nil _ _)
    refine ⟨removed, hremoves, ?_⟩
    rw [hremoves.number]
    decide +kernel

end World

end Resalloc
