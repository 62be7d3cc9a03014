import Resalloc.Foundations.Greedy
import Resalloc.Server.Planning

/-!
# The decisions of the planning

For every ticket that got no existing resource, the planning pops the capable pools from a
priority queue until one has room.  This is greedy matching: the tickets in their order take
the best pool, and every planned start counts against the quotas of its pool.

Main results:

- Definition {lit}`Plannable`: a capable pool with room.
- Theorem {lit}`planTicket_best`: what is decided for one ticket.
- Theorem {lit}`decideWhereToStart_serves`: what is decided for all of them.
- Theorem {lit}`decideWhereToStart_returns`: the planning raises nothing if all tags have
  priorities.
-/

namespace Resalloc

open Foundations

/-! ## Capable pools with room -/

/-- The quotas of a pool leave room for one more planned start. -/
structure PoolStats.Room (s : PoolStats) : Prop where
  on : s.pool.startOnDemandThisCycle + s.stats.on < s.pool.max
  starting : s.pool.startOnDemandThisCycle + s.stats.start < s.pool.maxStarting

/-- The planned starts of a pool fit into its quotas. -/
structure PoolStats.Fits (s : PoolStats) : Prop where
  on : s.pool.startOnDemandThisCycle + s.stats.on ≤ s.pool.max
  starting : s.pool.startOnDemandThisCycle + s.stats.start ≤ s.pool.maxStarting

/-- The pool of this name has all tags of a ticket, and room for one more start. -/
def Plannable (all : List PoolStats) (e : TicketId × List String) (name : String) : Prop :=
  ∃ s ∈ all, s.pool.name = name ∧ (∀ tag ∈ e.2, tag ∈ s.pool.tagSet) ∧ s.Room

/-- The priority that the tags of a ticket give to the pool of this name. -/
def planPriority (all : List PoolStats) (e : TicketId × List String) (name : String) : Int :=
  match all.find? fun s => s.pool.name = name with
  | none => 0
  | some s =>
      match s.pool.getTagsPriority e.2 with
      | .ok (some priority) => priority
      | _ => 0

/-- A start is planned in the pool of this name, for whatever ticket. -/
def PlansStart (all : List PoolStats) (_ : TicketId × List String) (name : String)
    (all' : List PoolStats) : Prop :=
  all' = all.map (planStart name)

section Queueing

variable {all all' : List PoolStats} {tags : List String} {e : TicketId × List String}
variable {queue : PriorityQueue String}

theorem PoolStats.hasRoom_iff (s : PoolStats) : s.hasRoom = true ↔ s.Room := by
  simp only [PoolStats.hasRoom, Bool.not_eq_true', Bool.or_eq_false_iff, decide_eq_false_iff_not,
    not_le]
  exact ⟨fun h => ⟨h.1, h.2⟩, fun h => ⟨h.on, h.starting⟩⟩

/-- Pools of one name are the same. -/
theorem eq_of_poolName (hsorted : Sorted (all.map PoolStats.pool)) {s s' : PoolStats}
    (hs : s ∈ all) (hs' : s' ∈ all) (hname : s.pool.name = s'.pool.name) : s = s' := by
  have hnodup : (all.map fun s => s.pool.name).Nodup :=
    List.pairwise_map.mpr ((List.pairwise_map.mp hsorted).imp fun hlt => hlt.ne)
  exact List.inj_on_of_nodup_map hnodup hs hs' hname

/-- The priority of a pool of the planning. -/
theorem planPriority_eq (hsorted : Sorted (all.map PoolStats.pool)) {s : PoolStats} (hs : s ∈ all)
    {priority : Int} (h : s.pool.getTagsPriority e.2 = .ok (some priority)) :
    planPriority all e s.pool.name = priority := by
  have hfind : (all.find? fun s' => s'.pool.name = s.pool.name) = some s := by
    cases hfound : all.find? fun s' => s'.pool.name = s.pool.name with
    | none =>
        have hnone := List.find?_eq_none.mp hfound s hs
        simp at hnone
    | some s' =>
        have hname : s'.pool.name = s.pool.name := by simpa using List.find?_some hfound
        rw [eq_of_poolName hsorted (List.mem_of_find?_eq_some hfound) hs hname]
  simp only [planPriority, hfind, h]

/-- The pools with all tags of a ticket are queued, by what {lit}`get_tags_priority` says. -/
theorem matchingPools_eq (h : matchingPools tags all = .ok queue) {priority : String → Int}
    (hpriority : ∀ s ∈ all, ∀ x, s.pool.getTagsPriority tags = .ok (some x) →
      priority s.pool.name = x) :
    queue = all.foldl (fun queue s =>
      if ∀ tag ∈ tags, tag ∈ s.pool.tagSet then
        queue.addTask s.pool.name (priority s.pool.name) else queue) {} := by
  refine foldlM_eq_foldl h fun queue s hs queue' hround => ?_
  split at hround
  next => contradiction
  next hnone =>
    have hnot : ¬ ∀ tag ∈ tags, tag ∈ s.pool.tagSet := by
      rw [← Pool.getTagsPriority_isSome hnone]
      simp
    rw [if_neg hnot]
    exact (Except.ok.inj hround).symm
  next x hsome =>
    rw [if_pos ((Pool.getTagsPriority_isSome hsome).mp rfl), hpriority s hs x hsome]
    exact (Except.ok.inj hround).symm

/-- The queue of a ticket holds the capable pools, by descending priority. -/
theorem matchingPools_spec (hsorted : Sorted (all.map PoolStats.pool))
    (h : matchingPools e.2 all = .ok queue) :
    queue.WF ∧ queue.Ascending (planPriority all e) ∧
      ∀ name, name ∈ queue.tasks ↔
        ∃ s ∈ all, (∀ tag ∈ e.2, tag ∈ s.pool.tagSet) ∧ s.pool.name = name := by
  have hqueue := matchingPools_eq h fun s hs x hx => planPriority_eq hsorted hs hx
  have hnames : (all.map fun s => s.pool.name).Pairwise (· < ·) := by
    have hpairs := List.pairwise_map.mp hsorted
    exact List.pairwise_map.mpr hpairs
  obtain ⟨hwf, htasks⟩ := PriorityQueue.wf_empty.foldl_addTask
    (fun s : PoolStats => ∀ tag ∈ e.2, tag ∈ s.pool.tagSet) (fun s => s.pool.name)
    (fun s => planPriority all e s.pool.name) all
  have hascending := (PriorityQueue.ascending_empty (planPriority all e)).foldl_addTask
    PriorityQueue.wf_empty (fun s : PoolStats => ∀ tag ∈ e.2, tag ∈ s.pool.tagSet)
    (fun s => s.pool.name) all hnames (by simp [PriorityQueue.tasks])
  rw [← hqueue] at hwf htasks hascending
  refine ⟨hwf, hascending, fun name => ?_⟩
  simpa [PriorityQueue.tasks] using htasks name

/-- What is decided for one ticket: a start in the best pool, or nothing if no capable pool
has room. -/
theorem planTicket_best (hsorted : Sorted (all.map PoolStats.pool))
    (h : planTicket all e = .ok all') :
    (∃ name, IsBest (Plannable all e) (planPriority all e) name ∧ PlansStart all e name all') ∨
      (∀ name, ¬ Plannable all e name) ∧ all' = all := by
  unfold planTicket at h
  split at h
  next => contradiction
  next queue hqueue =>
    obtain ⟨hwf, hascending, hmem⟩ := matchingPools_spec hsorted hqueue
    have horder := hascending.tasks_pairwise hwf
    set test : String → Bool := fun name => all.any fun s => s.pool.name = name && s.hasRoom
      with htest
    -- the queued pools that pass the test are those that a start may be planned in
    have hplannable : ∀ name, Plannable all e name ↔ name ∈ queue.tasks ∧ test name = true := by
      intro name
      simp only [hmem, htest, List.any_eq_true, Bool.and_eq_true, decide_eq_true_eq,
        PoolStats.hasRoom_iff]
      constructor
      · rintro ⟨s, hs, hname, htags, hroom⟩
        exact ⟨⟨s, hs, htags, hname⟩, s, hs, hname, hroom⟩
      · rintro ⟨⟨s, hs, htags, hname⟩, s', hs', hname', hroom⟩
        obtain rfl := eq_of_poolName hsorted hs hs' (hname.trans hname'.symm)
        exact ⟨s, hs, hname, htags, hroom⟩
    rw [hwf.popUntil_eq] at h
    split at h
    all_goals obtain rfl := Except.ok.inj h
    next hnone =>
      refine .inr ⟨fun name hfits => ?_, rfl⟩
      obtain ⟨hqueued, hpassed⟩ := (hplannable name).mp hfits
      exact List.find?_eq_none.mp hnone name hqueued hpassed
    next name hname =>
      refine .inl ⟨name, ⟨?_, fun other hother => ?_⟩, rfl⟩
      · exact (hplannable name).mpr ⟨List.mem_of_find?_eq_some hname, List.find?_some hname⟩
      · obtain ⟨hqueued, hpassed⟩ := (hplannable other).mp hother
        obtain ⟨-, before, after, htasks, hbefore⟩ := List.find?_eq_some_iff_append.mp hname
        rw [htasks] at hqueued horder
        rcases List.mem_append.mp hqueued with hfirst | hlater
        · simpa [hpassed] using hbefore other hfirst
        · rcases List.mem_cons.mp hlater with rfl | hlater
          · exact .inr ⟨rfl, le_rfl⟩
          · have hlast := (List.pairwise_append.mp horder).2.1
            exact ((List.pairwise_cons.mp hlast).1 other hlater).imp_right
              fun hless => ⟨hless.1, hless.2.le⟩

end Queueing

/-! ## All tickets -/

section Serving

variable {all all' planned : List PoolStats} {tickets : List (TicketId × List String)}
variable {served : List ((TicketId × List String) × Option String)}

@[simp]
theorem planStart_name (name : String) (s : PoolStats) :
    (planStart name s).pool.name = s.pool.name := by
  unfold planStart
  split_ifs <;> rfl

/-- A planned start leaves the order of the pools. -/
theorem sorted_planStart (hsorted : Sorted (all.map PoolStats.pool)) (name : String) :
    Sorted ((all.map (planStart name)).map PoolStats.pool) := by
  have hpairs := List.pairwise_map.mp hsorted
  rw [List.map_map]
  apply List.pairwise_map.mpr
  simpa using hpairs

/-- The loop over the tickets that got no existing resource is greedy. -/
theorem plan_serves (hsorted : Sorted (all.map PoolStats.pool))
    (h : tickets.foldlM planTicket all = .ok planned) :
    ∃ served, Serves Plannable planPriority PlansStart all tickets served planned := by
  induction tickets generalizing all with
  | nil =>
      obtain rfl := Except.ok.inj h
      exact ⟨[], .nil _⟩
  | cons e tickets ih =>
      obtain ⟨all₁, hround, hrest⟩ := foldlM_cons_ok.mp h
      rcases planTicket_best hsorted hround with ⟨name, hbest, hplans⟩ | ⟨hnone, rfl⟩
      · obtain rfl := hplans
        obtain ⟨served, hserves⟩ := ih (sorted_planStart hsorted name) hrest
        exact ⟨_, .give hbest rfl hserves⟩
      · obtain ⟨served, hserves⟩ := ih hsorted hrest
        exact ⟨_, .skip hnone hserves⟩

/-- The number of starts that are decided for a pool. -/
def startsIn (served : List ((TicketId × List String) × Option String)) (name : String) : ℕ :=
  (served.map Prod.snd).count (some name)

/-- A pool with more planned starts. -/
def PoolStats.withStarts (s : PoolStats) (n : ℕ) : PoolStats :=
  { s with pool :=
    { s.pool with startOnDemandThisCycle := s.pool.startOnDemandThisCycle + n } }

/-- Every decision counts in its pool. -/
theorem planned_of_serves
    (h : Serves Plannable planPriority PlansStart all tickets served planned) :
    planned = all.map fun s => s.withStarts (startsIn served s.pool.name) := by
  induction h with
  | nil all => simp [PoolStats.withStarts, startsIn]
  | @give all all₁ _ _ _ name _ _ hplans _ ih =>
      obtain rfl := hplans
      rw [ih, List.map_map]
      apply List.map_congr_left
      intro s _
      by_cases hname : s.pool.name = name
      · simp [PoolStats.withStarts, startsIn, planStart, hname]
        omega
      · have hother : name ≠ s.pool.name := fun heq => hname heq.symm
        simp [PoolStats.withStarts, startsIn, planStart, hname, hother]
  | skip _ _ ih => simpa [startsIn] using ih

/-- Planned starts fit into the quotas. -/
theorem fits_of_serves (h : Serves Plannable planPriority PlansStart all tickets served planned)
    (hsorted : Sorted (all.map PoolStats.pool))
    (hfits : ∀ s ∈ all, 0 < s.pool.startOnDemandThisCycle → s.Fits) :
    ∀ s ∈ planned, 0 < s.pool.startOnDemandThisCycle → s.Fits := by
  induction h with
  | nil => exact hfits
  | @give all _ _ _ _ name _ hbest hplans _ ih =>
      obtain rfl := hplans
      apply ih (sorted_planStart hsorted name)
      intro s' hs' hpos
      obtain ⟨s, hs, rfl⟩ := List.mem_map.mp hs'
      by_cases hname : s.pool.name = name
      · -- this is the pool that has had room
        obtain ⟨s₀, hs₀, hname₀, -, hroom⟩ := hbest.1
        obtain rfl := eq_of_poolName hsorted hs hs₀ (hname.trans hname₀.symm)
        obtain ⟨hon, hstarting⟩ := hroom
        rw [planStart, if_pos hname]
        constructor
        · simp only
          omega
        · simp only
          omega
      · rw [planStart, if_neg hname] at hpos ⊢
        exact hfits s hs hpos
  | skip _ _ ih => exact ih hsorted hfits

end Serving

/-! ## Planning that raises nothing -/

/-- All tags of the pool have a priority. -/
def Pool.Prioritized (p : Pool) : Prop := ∀ tag ∈ p.tagsAll, tag.priority ≠ none

instance (p : Pool) : Decidable p.Prioritized := inferInstanceAs (Decidable (∀ _ ∈ _, _))

section Total

variable {all : List PoolStats}

/-- Only a tag without a priority makes {lit}`get_tags_priority` raise. -/
theorem Pool.Prioritized.getTagsPriority {p : Pool} (h : p.Prioritized) (tags : List String) :
    ∃ priority, p.getTagsPriority tags = .ok priority := by
  obtain ⟨acc, hloop, -⟩ := foldlM_returns (f := Pool.addTagPriority tags) (b := (0, []))
    (P := fun _ => True) (l := p.tagsAll) trivial fun acc _ tag htag => by
      obtain ⟨priority, hpriority⟩ := Option.ne_none_iff_exists'.mp (h tag htag)
      simp only [Pool.addTagPriority, hpriority]
      split_ifs <;> exact ⟨_, rfl, trivial⟩
  simp only [Pool.getTagsPriority, hloop]
  split_ifs <;> exact ⟨_, rfl⟩

/-- The loop over the pools for one ticket returns. -/
theorem takeExisting_returns (h : ∀ s ∈ all, s.pool.Prioritized) (tags : List String) :
    ∃ taken, takeExisting tags all = .ok taken := by
  induction all with
  | nil => exact ⟨_, rfl⟩
  | cons s rest ih =>
      obtain ⟨taken, hrest⟩ := ih fun s' hs' => h s' (List.mem_cons_of_mem _ hs')
      obtain ⟨priority, hpriority⟩ := (h s List.mem_cons_self).getTagsPriority tags
      simp only [takeExisting, hpriority, hrest]
      cases priority with
      | none => exact ⟨_, rfl⟩
      | some priority =>
          simp only
          split_ifs <;> exact ⟨_, rfl⟩

/-- A round of the first loop returns. -/
theorem gatherTicket_returns {onDemandTags : List String} {e : TicketId × Ticket}
    {acc : List PoolStats × List (TicketId × List String)}
    (h : ∀ s ∈ acc.1, s.pool.Prioritized) : ∃ acc', gatherTicket onDemandTags acc e = .ok acc' := by
  obtain ⟨⟨capable, taken⟩, htaken⟩ := takeExisting_returns h e.2.tags
  simp only [gatherTicket, htaken]
  cases capable <;> cases taken <;> split_ifs <;> exact ⟨_, rfl⟩

/-- A round of the second loop returns. -/
theorem planTicket_returns {e : TicketId × List String} (h : ∀ s ∈ all, s.pool.Prioritized) :
    ∃ all', planTicket all e = .ok all' ∧ ∀ s ∈ all', s.pool.Prioritized := by
  obtain ⟨queue, hqueue, -⟩ : ∃ queue, matchingPools e.2 all = .ok queue ∧ True := by
    refine foldlM_returns trivial fun queue _ s hs => ?_
    obtain ⟨priority, hpriority⟩ := (h s hs).getTagsPriority e.2
    rw [hpriority]
    cases priority <;> exact ⟨_, rfl, trivial⟩
  simp only [planTicket, hqueue]
  split
  next => exact ⟨all, rfl, h⟩
  next name _ =>
    refine ⟨_, rfl, fun s' hs' => ?_⟩
    obtain ⟨s, hs, rfl⟩ := List.mem_map.mp hs'
    have htags : (planStart name s).pool.tagsAll = s.pool.tagsAll := by
      unfold planStart
      split_ifs <;> rfl
    rw [Pool.Prioritized, htags]
    exact h s hs

/-- The planning raises nothing if all tags have priorities. -/
theorem decideWhereToStart_returns {pools : List Pool} (h : ∀ p ∈ pools, p.Prioritized)
    (onDemandTags : List String) (db : Db) :
    ∃ pools', decideWhereToStart onDemandTags pools db = .ok pools' := by
  have hstart : ∀ s ∈ onDemandPools pools db, s.pool.Prioritized :=
    fun s hs => h _ (List.mem_of_mem_filter (onDemandPools_mem hs))
  obtain ⟨⟨all, tickets⟩, hgather, hall⟩ := foldlM_returns (f := gatherTicket onDemandTags)
    (b := (onDemandPools pools db, [])) (l := QTickets.waiting db)
    (P := fun acc : List PoolStats × List (TicketId × List String) =>
      ∀ s ∈ acc.1, s.pool.Prioritized) hstart fun acc hacc e _ => by
        obtain ⟨acc', hround⟩ := @gatherTicket_returns onDemandTags e acc hacc
        refine ⟨acc', hround, fun s hs => ?_⟩
        have hmem := List.mem_map_of_mem (f := PoolStats.pool) hs
        rw [pools_of_plain (gatherTicket_plain hround)] at hmem
        obtain ⟨s₀, hs₀, heq⟩ := List.mem_map.mp hmem
        exact heq ▸ hacc s₀ hs₀
  obtain ⟨planned, hplan, -⟩ := foldlM_returns (f := planTicket) (b := all) (l := tickets)
    (P := fun all : List PoolStats => ∀ s ∈ all, s.pool.Prioritized) hall
    fun all hall e _ => planTicket_returns hall
  simp only [decideWhereToStart, hgather, hplan]
  exact ⟨_, rfl⟩

end Total

/-! ## The planning of a cycle -/

section Planning

variable {onDemandTags : List String} {pools pools' : List Pool} {db : Db} {p : Pool}

/-- The planning reads the statistics of every on-demand pool. -/
theorem stats_of_plain {all : List PoolStats}
    (hplain : all.map PoolStats.plain = (onDemandPools pools db).map PoolStats.plain)
    {s : PoolStats} (hs : s ∈ all) :
    s.pool ∈ pools ∧ s.stats = QResources.stats db (some s.pool.name) := by
  have hmem : s.plain ∈ (onDemandPools pools db).map PoolStats.plain :=
    hplain ▸ List.mem_map_of_mem hs
  obtain ⟨s₀, hs₀, heq⟩ := List.mem_map.mp hmem
  have hpool : s.pool = s₀.pool := (congrArg PoolStats.pool heq).symm
  have hstats : s.stats = s₀.stats := (congrArg PoolStats.stats heq).symm
  constructor
  · rw [hpool]
    exact List.mem_of_mem_filter (onDemandPools_mem hs₀)
  · rw [hpool, hstats]
    obtain ⟨p, -, rfl⟩ := List.mem_map.mp hs₀
    rfl

/-- A pool is not on demand, or its planned starts are counted by the planning. -/
theorem mem_merged {all planned : List PoolStats} {count : String → ℕ}
    (hplain : all.map PoolStats.plain = (onDemandPools pools db).map PoolStats.plain)
    (hplanned : planned = all.map fun s => s.withStarts (count s.pool.name))
    (hp : p ∈ pools.map fun p =>
      ((planned.map PoolStats.pool).find? fun q => q.name = p.name).getD p) :
    p ∈ pools ∧ p.tagsOnDemand = [] ∨
      ∃ s ∈ all, p = (s.withStarts (count s.pool.name)).pool := by
  obtain ⟨p₀, hp₀, rfl⟩ := List.mem_map.mp hp
  cases hfind : (planned.map PoolStats.pool).find? fun q => q.name = p₀.name with
  | none =>
      refine .inl ⟨hp₀, ?_⟩
      rw [Option.getD_none]
      by_contra hdemand
      -- every on-demand pool takes part in the planning
      have hmem : p₀ ∈ (onDemandPools pools db).map PoolStats.pool := by
        simp only [onDemandPools, List.map_map, Function.comp_def, List.map_id',
          List.mem_insertionSort, List.mem_filter, decide_eq_true_eq]
        exact ⟨hp₀, hdemand⟩
      rw [← pools_of_plain hplain] at hmem
      obtain ⟨s, hs, rfl⟩ := List.mem_map.mp hmem
      have hplanned' : s.withStarts (count s.pool.name) ∈ planned :=
        hplanned ▸ List.mem_map_of_mem (f := fun s => s.withStarts (count s.pool.name)) hs
      have hnone := List.find?_eq_none.mp hfind _ (List.mem_map_of_mem hplanned')
      simp [PoolStats.withStarts] at hnone
  | some q =>
      rw [Option.getD_some]
      obtain ⟨s', hs', rfl⟩ := List.mem_map.mp (List.mem_of_find?_eq_some hfind)
      rw [hplanned] at hs'
      obtain ⟨s, hs, rfl⟩ := List.mem_map.mp hs'
      exact .inr ⟨s, hs, rfl⟩

/-- The planning matches the tickets of its second loop greedily with the pools, counts
the decisions, and stays within the quotas. -/
theorem decideWhereToStart_serves (hnodup : (pools.map Pool.name).Nodup)
    (hzero : ∀ p ∈ pools, p.startOnDemandThisCycle = 0)
    (h : decideWhereToStart onDemandTags pools db = .ok pools') :
    ∃ all tickets served planned,
      (QTickets.waiting db).foldlM (gatherTicket onDemandTags) (onDemandPools pools db, []) =
        .ok (all, tickets) ∧
      all.map PoolStats.plain = (onDemandPools pools db).map PoolStats.plain ∧
      Serves Plannable planPriority PlansStart all tickets served planned ∧
      (∀ p ∈ pools', p.tagsOnDemand ≠ [] →
        p.startOnDemandThisCycle = startsIn served p.name) ∧
      ∀ p ∈ pools', 0 < p.startOnDemandThisCycle →
        p.startOnDemandThisCycle + (QResources.stats db (some p.name)).on ≤ p.max ∧
        p.startOnDemandThisCycle + (QResources.stats db (some p.name)).start ≤ p.maxStarting := by
  obtain ⟨all, tickets, planned, hgather, hplain, hplan, rfl⟩ := decideWhereToStart_ok h
  have hsorted : Sorted (all.map PoolStats.pool) :=
    pools_of_plain hplain ▸ onDemandPools_sorted db hnodup
  obtain ⟨served, hserves⟩ := plan_serves hsorted hplan
  have hplanned := planned_of_serves hserves
  have hunplanned : ∀ s ∈ all, s.pool.startOnDemandThisCycle = 0 :=
    fun s hs => hzero _ (stats_of_plain hplain hs).1
  refine ⟨all, tickets, served, planned, hgather, hplain, hserves, ?_, ?_⟩
  · intro p hp hdemand
    rcases mem_merged hplain hplanned hp with ⟨-, hnot⟩ | ⟨s, hs, rfl⟩
    · contradiction
    · simp [PoolStats.withStarts, hunplanned s hs]
  · intro p hp hpos
    rcases mem_merged hplain hplanned hp with ⟨hmem, -⟩ | ⟨s, hs, rfl⟩
    · rw [hzero p hmem] at hpos
      contradiction
    · have hmem : s.withStarts (startsIn served s.pool.name) ∈ planned := by
        rw [hplanned]
        exact List.mem_map_of_mem hs
      obtain ⟨hon, hstarting⟩ := fits_of_serves hserves hsorted
        (fun s hs hpos => absurd hpos (by simp [hunplanned s hs])) _ hmem hpos
      have hstats : (s.withStarts (startsIn served s.pool.name)).stats =
          QResources.stats db (some s.pool.name) := (stats_of_plain hplain hs).2
      rw [hstats] at hon hstarting
      exact ⟨hon, hstarting⟩

end Planning

end Resalloc
