import Mathlib.Data.Multiset.Bind
import Mathlib.Data.String.Basic
import Resalloc.Foundations.Fallible
import Resalloc.Foundations.FirstFit
import Resalloc.Server.Manager

/-!
# Planning on-demand starts

Every cycle matches the waiting on-demand tickets with the resources that are
already there, in the order of the pool names: this is first fit.  Only for the
tickets that got none it plans new starts.

Main results:

- Definition {lit}`Pool.Provides`: a pool matches a set of tags.
- Theorem {lit}`gather_firstFit`: the loop over the waiting tickets is first fit.
- Theorem {lit}`plan_added`: the loop over the other tickets plans at most one start for
  each of them, in a pool that matches it.
- Theorem {lit}`decideWhereToStart_spec`: both loops together.
- Theorem {lit}`decideWhereToStart_base`: the planning changes nothing but the
  numbers of planned starts.
-/

namespace Resalloc

open Foundations

/-! ## Pool objects -/

/-- A pool object without its planned starts, which is all a cycle changes. -/
def Pool.base (p : Pool) : Pool := { p with startOnDemandThisCycle := 0 }

@[simp]
theorem Pool.base_name (p : Pool) : p.base.name = p.name :=
  rfl

/-- The pool matches a set of tags. -/
def Pool.Provides (p : Pool) (tags : List String) : Prop :=
  (p.getTagsPriority tags matches .ok (some _)) = true

instance (p : Pool) (tags : List String) : Decidable (p.Provides tags) :=
  inferInstanceAs (Decidable (_ = true))

/-- Planned starts do not matter for the tags. -/
theorem Pool.base_provides (p : Pool) (tags : List String) :
    p.base.Provides tags ↔ p.Provides tags :=
  Iff.rfl

namespace Pool

variable {p : Pool}

/-- The tags that {lit}`get_tags_priority` finds. -/
theorem foldlM_addTagPriority {queried : List String} {tags : List ConfigTag}
    {acc acc' : Int × List String} (h : tags.foldlM (addTagPriority queried) acc = .ok acc') :
    ∀ tag, tag ∈ acc'.2 ↔ tag ∈ acc.2 ∨ tag ∈ tags.map ConfigTag.name ∧ tag ∈ queried := by
  induction tags generalizing acc with
  | nil =>
      obtain rfl := Except.ok.inj h
      simp
  | cons t tags ih =>
      obtain ⟨acc₁, hround, h⟩ := foldlM_cons_ok.mp h
      intro tag
      rw [ih h]
      unfold addTagPriority at hround
      split_ifs at hround with hqueried
      · split at hround
        · contradiction
        · obtain rfl := Except.ok.inj hround
          grind
      · obtain rfl := Except.ok.inj hround
        grind

/-- A pool matches a set of tags if it has all of them. -/
theorem getTagsPriority_isSome {tags : List String} {priority : Option Int}
    (h : p.getTagsPriority tags = .ok priority) :
    priority.isSome = true ↔ ∀ tag ∈ tags, tag ∈ p.tagSet := by
  unfold getTagsPriority at h
  split at h
  next => contradiction
  next sum found hfound =>
    have htags : ∀ tag, tag ∈ found ↔ tag ∈ p.tagSet ∧ tag ∈ tags := by
      intro tag
      rw [foldlM_addTagPriority hfound]
      simp [tagSet, tagSetNormal, tagSetOnDemand, tagsAll]
    have hall : (∀ tag ∈ tags, tag ∈ found) ↔ ∀ tag ∈ tags, tag ∈ p.tagSet := by
      grind
    rw [← hall]
    split_ifs at h with hfoundAll
    all_goals obtain rfl := Except.ok.inj h
    · simpa using hfoundAll
    · simpa using hfoundAll

/-- Tags that a pool matches are tags of the pool. -/
theorem Provides.subset {tags : List String} (h : p.Provides tags) :
    ∀ tag ∈ tags, tag ∈ p.tagSet := by
  unfold Provides at h
  split at h
  next priority hpriority => exact (getTagsPriority_isSome hpriority).mp rfl
  next => contradiction

end Pool

/-! ## What the planning leaves alone -/

/-- The loop of a ticket takes a resource of the first pool, or goes on with the
other pools. -/
theorem takeExisting_cons {tags : List String} {s : PoolStats} {rest : List PoolStats}
    {capable : Bool} {found : Option (List PoolStats)}
    (h : takeExisting tags (s :: rest) = .ok (capable, found)) :
    (s.pool.Provides tags ∧ 0 < s.alreadyExisting ∧ capable = true ∧
      found = some ({ s with alreadyExisting := s.alreadyExisting - 1 } :: rest)) ∨
    ((s.alreadyExisting = 0 ∨ ¬ s.pool.Provides tags) ∧
      ∃ capable' taken, takeExisting tags rest = .ok (capable', taken) ∧
        (capable' = true → capable = true) ∧ found = taken.map (s :: ·)) := by
  simp only [takeExisting] at h
  split at h
  next => contradiction
  next hpriority =>
    have hnot : ¬ s.pool.Provides tags := by simp [Pool.Provides, hpriority]
    split at h
    next => contradiction
    next capable' taken hrest =>
      obtain ⟨rfl, rfl⟩ := Prod.mk.inj (Except.ok.inj h)
      exact .inr ⟨.inr hnot, _, taken, hrest, id, rfl⟩
  next priority hpriority =>
    have hprovides : s.pool.Provides tags := by simp [Pool.Provides, hpriority]
    split_ifs at h with hexists
    · obtain ⟨rfl, rfl⟩ := Prod.mk.inj (Except.ok.inj h)
      exact .inl ⟨hprovides, hexists, rfl, rfl⟩
    · split at h
      next => contradiction
      next capable' taken hrest =>
        obtain ⟨rfl, rfl⟩ := Prod.mk.inj (Except.ok.inj h)
        exact .inr ⟨.inl (by omega), capable', taken, hrest, fun _ => rfl, rfl⟩

/-- The pool and its statistics, without the resources that are still to be matched. -/
def PoolStats.plain (s : PoolStats) : PoolStats := { s with alreadyExisting := 0 }

/-- Pools are as they were if nothing but existing resources was taken. -/
theorem pools_of_plain {all all' : List PoolStats}
    (h : all'.map PoolStats.plain = all.map PoolStats.plain) :
    all'.map PoolStats.pool = all.map PoolStats.pool := by
  simpa [Function.comp_def, PoolStats.plain] using congrArg (List.map PoolStats.pool) h

/-- Taking an existing resource leaves the pools and their statistics as they are. -/
theorem takeExisting_plain {tags : List String} {all all' : List PoolStats} {capable : Bool}
    (h : takeExisting tags all = .ok (capable, some all')) :
    all'.map PoolStats.plain = all.map PoolStats.plain := by
  induction all generalizing capable all' with
  | nil => simp [takeExisting] at h
  | cons s rest ih =>
      rcases takeExisting_cons h with ⟨-, -, -, heq⟩ | ⟨-, capable', taken, hrest, -, heq⟩
      · obtain rfl := Option.some.inj heq
        simp [PoolStats.plain]
      · obtain ⟨taken', rfl, rfl⟩ := Option.map_eq_some_iff.mp heq.symm
        simp [ih hrest]

/-- Gathering a ticket leaves the pools and their statistics as they are. -/
theorem gatherTicket_plain {onDemandTags : List String} {e : TicketId × Ticket}
    {acc acc' : List PoolStats × List (TicketId × List String)}
    (h : gatherTicket onDemandTags acc e = .ok acc') :
    acc'.1.map PoolStats.plain = acc.1.map PoolStats.plain := by
  unfold gatherTicket at h
  split_ifs at h
  · split at h
    next => contradiction
    next =>
      obtain rfl := Except.ok.inj h
      rfl
    next htake =>
      obtain rfl := Except.ok.inj h
      exact takeExisting_plain htake
    next =>
      obtain rfl := Except.ok.inj h
      rfl
  · obtain rfl := Except.ok.inj h
    rfl

/-- Planning for a ticket changes the planned starts only. -/
theorem planTicket_base {e : TicketId × List String} {all all' : List PoolStats}
    (h : planTicket all e = .ok all') :
    all'.map (Pool.base ∘ PoolStats.pool) = all.map (Pool.base ∘ PoolStats.pool) := by
  unfold planTicket at h
  split at h
  next => contradiction
  next =>
    split at h
    all_goals obtain rfl := Except.ok.inj h
    · rfl
    next name _ =>
      rw [List.map_map]
      refine List.map_congr_left fun s _ => ?_
      simp only [Function.comp_apply, planStart]
      split_ifs <;> rfl

/-- The pools of the planning are the on-demand pools of the cycle. -/
theorem onDemandPools_mem {pools : List Pool} {db : Db} {s : PoolStats}
    (h : s ∈ onDemandPools pools db) : s.pool ∈ pools.filter fun p => p.tagsOnDemand ≠ [] := by
  obtain ⟨p, hp, rfl⟩ := List.mem_map.mp h
  exact (List.perm_insertionSort _ _).mem_iff.mp hp

/-- A planning that does not raise goes through both of its loops, and the first one
leaves the pools and their statistics as they are. -/
theorem decideWhereToStart_ok {onDemandTags : List String} {pools pools' : List Pool} {db : Db}
    (h : decideWhereToStart onDemandTags pools db = .ok pools') :
    ∃ all tickets planned,
      (QTickets.waiting db).foldlM (gatherTicket onDemandTags) (onDemandPools pools db, []) =
        .ok (all, tickets) ∧
      all.map PoolStats.plain = (onDemandPools pools db).map PoolStats.plain ∧
      tickets.foldlM planTicket all = .ok planned ∧
      pools' = pools.map fun p =>
        ((planned.map PoolStats.pool).find? fun q => q.name = p.name).getD p := by
  unfold decideWhereToStart at h
  split at h
  next => contradiction
  next all tickets hgather =>
    have hplain : all.map PoolStats.plain = (onDemandPools pools db).map PoolStats.plain :=
      foldlM_ok_invariant (P := fun acc : List PoolStats × List (TicketId × List String) =>
        acc.1.map PoolStats.plain = (onDemandPools pools db).map PoolStats.plain) hgather rfl
        fun acc hacc e _ acc' hround => (gatherTicket_plain hround).trans hacc
    split at h
    next => contradiction
    next planned hplan =>
      exact ⟨all, tickets, planned, hgather, hplain, hplan, (Except.ok.inj h).symm⟩

/-- The planning changes the planned starts of the pools only. -/
theorem decideWhereToStart_base {onDemandTags : List String} {pools pools' : List Pool} {db : Db}
    (hnodup : (pools.map Pool.name).Nodup)
    (h : decideWhereToStart onDemandTags pools db = .ok pools') :
    pools'.map Pool.base = pools.map Pool.base := by
  obtain ⟨all, tickets, planned, -, hplain, hplan, rfl⟩ := decideWhereToStart_ok h
  have hpools := pools_of_plain hplain
  have hbase : planned.map (Pool.base ∘ PoolStats.pool) =
      all.map (Pool.base ∘ PoolStats.pool) :=
    foldlM_ok_invariant (P := fun planned : List PoolStats =>
      planned.map (Pool.base ∘ PoolStats.pool) = all.map (Pool.base ∘ PoolStats.pool)) hplan rfl
      fun acc hacc e _ acc' hround => (planTicket_base hround).trans hacc
  rw [List.map_map]
  refine List.map_congr_left fun p hp => ?_
  simp only [Function.comp_apply]
  cases hfind : (planned.map PoolStats.pool).find? fun q => q.name = p.name with
  | none => rfl
  | some q =>
      have hname : q.name = p.name := by simpa using List.find?_some hfind
      -- the planned pool was made from a pool of the cycle of that name
      have hmem : q.base ∈ (onDemandPools pools db).map (Pool.base ∘ PoolStats.pool) := by
        have hq := List.mem_map_of_mem (f := Pool.base) (List.mem_of_find?_eq_some hfind)
        rw [List.map_map, hbase, ← List.map_map, hpools, List.map_map] at hq
        exact hq
      obtain ⟨s, hs, hbaseq⟩ := List.mem_map.mp hmem
      have hsname : s.pool.name = p.name := by
        rw [← hname, ← Pool.base_name q, ← hbaseq]
        rfl
      have hpool : s.pool ∈ pools := List.mem_of_mem_filter (onDemandPools_mem hs)
      have hsp := List.inj_on_of_nodup_map hnodup hpool hp hsname
      rw [← hsp]
      exact hbaseq.symm

/-- A planned pool is a pool of the cycle, up to its planned starts. -/
theorem exists_base_eq_of_plan {onDemandTags : List String} {pools pools' : List Pool} {db : Db}
    (hnodup : (pools.map Pool.name).Nodup)
    (h : decideWhereToStart onDemandTags pools db = .ok pools') {p : Pool} (hp : p ∈ pools') :
    ∃ q ∈ pools, q.base = p.base := by
  have hbase : p.base ∈ pools.map Pool.base :=
    decideWhereToStart_base hnodup h ▸ List.mem_map_of_mem hp
  exact List.mem_map.mp hbase

/-! ## Multisets of pool names -/

/-- The existing resources of the pools, each one as the name of its pool. -/
def slotsOf (all : List PoolStats) : Multiset String :=
  (all : Multiset PoolStats).bind fun s => Multiset.replicate s.alreadyExisting s.pool.name

/-- The planned starts of the pools, each one as the name of its pool. -/
def startsOf (pools : List Pool) : Multiset String :=
  (pools : Multiset Pool).bind fun p =>
    Multiset.replicate p.startOnDemandThisCycle.toNat p.name

@[simp]
theorem slotsOf_cons (s : PoolStats) (all : List PoolStats) :
    slotsOf (s :: all) = Multiset.replicate s.alreadyExisting s.pool.name + slotsOf all := by
  rw [slotsOf, ← Multiset.cons_coe, Multiset.cons_bind, slotsOf]

@[simp]
theorem startsOf_cons (p : Pool) (pools : List Pool) :
    startsOf (p :: pools) =
      Multiset.replicate p.startOnDemandThisCycle.toNat p.name + startsOf pools := by
  rw [startsOf, ← Multiset.cons_coe, Multiset.cons_bind, startsOf]

/-- The planned starts of the later pools. -/
theorem startsOf_le_cons (p : Pool) (pools : List Pool) :
    startsOf pools ≤ startsOf (p :: pools) := by
  rw [startsOf_cons]
  exact Multiset.le_add_left _ _

/-- An existing resource is one of some pool. -/
theorem exists_of_mem_slotsOf {all : List PoolStats} {q : String} (h : q ∈ slotsOf all) :
    ∃ s ∈ all, s.pool.name = q := by
  obtain ⟨s, hs, hq⟩ := Multiset.mem_bind.mp h
  exact ⟨s, hs, (Multiset.eq_of_mem_replicate hq).symm⟩

/-! ## Tickets that get an existing resource -/

section Gathering

variable {usable : List String → String → Prop} {all all' : List PoolStats} {tags : List String}
variable {capable : Bool} {taken : Option (List PoolStats)}

/-- Pools are in the order of their names. -/
def Sorted (pools : List Pool) : Prop := pools.Pairwise fun p q => p.name < q.name

/-- What {lit}`usable` says about the pools of a list. -/
def Agrees (usable : List String → String → Prop) (pools : List Pool) : Prop :=
  ∀ p ∈ pools, ∀ tags, usable tags p.name ↔ p.Provides tags

/-- A ticket takes the first existing resource of a pool that matches it. -/
theorem takeExisting_some (hsorted : Sorted (all.map PoolStats.pool))
    (hagrees : Agrees usable (all.map PoolStats.pool))
    (h : takeExisting tags all = .ok (capable, some all')) :
    capable = true ∧ ∃ b, IsLeast {q | q ∈ slotsOf all ∧ usable tags q} b ∧
      slotsOf all' = (slotsOf all).erase b := by
  induction all generalizing capable all' with
  | nil => simp [takeExisting] at h
  | cons s rest ih =>
      obtain ⟨hfirst, hrest⟩ := List.pairwise_cons.mp hsorted
      have hagrees' : Agrees usable (rest.map PoolStats.pool) :=
        fun p hp => hagrees p (List.mem_cons_of_mem _ hp)
      have hs := hagrees s.pool List.mem_cons_self tags
      have hlater : ∀ q ∈ slotsOf rest, s.pool.name < q := by
        intro q hq
        obtain ⟨s', hs', rfl⟩ := exists_of_mem_slotsOf hq
        exact hfirst _ (List.mem_map_of_mem hs')
      rcases takeExisting_cons h with ⟨hprovides, hexists, rfl, heq⟩ |
        ⟨hskip, capable', taken, htaken, hcapable, heq⟩
      · obtain rfl := Option.some.inj heq
        obtain ⟨n, hn⟩ := Nat.exists_eq_add_of_lt hexists
        refine ⟨rfl, s.pool.name, ⟨⟨?_, hs.mpr hprovides⟩, ?_⟩, ?_⟩
        · simp [hn]
        · rintro q ⟨hq, -⟩
          rw [slotsOf_cons, Multiset.mem_add] at hq
          rcases hq with hq | hq
          · exact (Multiset.eq_of_mem_replicate hq).ge
          · exact (hlater q hq).le
        · simp [hn, Multiset.replicate_succ]
      · -- a resource that is found in the later pools
        obtain ⟨taken', rfl, rfl⟩ := Option.map_eq_some_iff.mp heq.symm
        obtain ⟨hcapable', b, hleast, hslots⟩ := ih hrest hagrees' htaken
        refine ⟨hcapable hcapable', b, ⟨⟨?_, hleast.1.2⟩, ?_⟩, ?_⟩
        · simp [hleast.1.1]
        · rintro q ⟨hq, husable⟩
          rw [slotsOf_cons, Multiset.mem_add] at hq
          rcases hq with hq | hq
          · obtain ⟨hexists, rfl⟩ := Multiset.mem_replicate.mp hq
            exact absurd (hs.mp husable) (hskip.resolve_left hexists)
          · exact hleast.2 ⟨hq, husable⟩
        · rw [slotsOf_cons, slotsOf_cons, hslots, Multiset.erase_add_right_pos _ hleast.1.1]

/-- A ticket that takes no existing resource finds none in any pool that matches it. -/
theorem takeExisting_none (hagrees : Agrees usable (all.map PoolStats.pool))
    (h : takeExisting tags all = .ok (capable, none)) :
    ∀ q ∈ slotsOf all, ¬ usable tags q := by
  induction all generalizing capable with
  | nil => simp [slotsOf]
  | cons s rest ih =>
      have hagrees' : Agrees usable (rest.map PoolStats.pool) :=
        fun p hp => hagrees p (List.mem_cons_of_mem _ hp)
      have hs := hagrees s.pool List.mem_cons_self tags
      rcases takeExisting_cons h with ⟨-, -, -, heq⟩ | ⟨hskip, capable', taken, htaken, -, heq⟩
      · contradiction
      · obtain rfl : taken = none := by simpa using heq.symm
        intro q hq husable
        rw [slotsOf_cons, Multiset.mem_add] at hq
        rcases hq with hq | hq
        · obtain ⟨hexists, rfl⟩ := Multiset.mem_replicate.mp hq
          exact hskip.resolve_left hexists (hs.mp husable)
        · exact ih hagrees' htaken q hq husable

/-- The tags of the on-demand tickets of a list. -/
def onDemandTagSets (onDemandTags : List String) (tickets : List (TicketId × Ticket)) :
    List (List String) :=
  (tickets.map fun e => e.2.tags).filter fun tags => ∃ tag ∈ tags, tag ∈ onDemandTags

/-- The loop over the waiting tickets is first fit, and new starts are planned for
tickets that got no existing resource. -/
theorem gather_firstFit {onDemandTags : List String} {tickets : List (TicketId × Ticket)}
    {solve solve' : List (TicketId × List String)} (hsorted : Sorted (all.map PoolStats.pool))
    (hagrees : Agrees usable (all.map PoolStats.pool))
    (h : tickets.foldlM (gatherTicket onDemandTags) (all, solve) = .ok (all', solve')) :
    ∃ taken left, FirstFit usable (slotsOf all) (onDemandTagSets onDemandTags tickets) taken
        left (slotsOf all') ∧
      ∃ more, solve' = solve ++ more ∧ (more.map Prod.snd).Sublist left := by
  induction tickets generalizing all solve with
  | nil =>
      obtain ⟨rfl, rfl⟩ := Prod.mk.inj (Except.ok.inj h)
      exact ⟨0, [], .nil _, [], by simp, by simp⟩
  | cons e tickets ih =>
      obtain ⟨acc, hround, h⟩ := foldlM_cons_ok.mp h
      simp only [gatherTicket] at hround
      split_ifs at hround with hdemand
      · have htags : onDemandTagSets onDemandTags (e :: tickets) =
            e.2.tags :: onDemandTagSets onDemandTags tickets := by
          simp only [onDemandTagSets, List.map_cons]
          exact List.filter_cons_of_pos (by simpa using hdemand)
        rw [htags]
        split at hround
        next => contradiction
        next taken htake =>
          obtain rfl := Except.ok.inj hround
          cases taken with
          | some all₁ => simpa using (takeExisting_some hsorted hagrees htake).1
          | none =>
              obtain ⟨taken, left, hfit, more, hsolve, hsub⟩ := ih hsorted hagrees h
              exact ⟨_, _, .leave (takeExisting_none hagrees htake) hfit, more,
                hsolve, hsub.cons _⟩
        next htake =>
          obtain rfl := Except.ok.inj hround
          have hpools := pools_of_plain (takeExisting_plain htake)
          obtain ⟨-, b, hleast, hslots⟩ := takeExisting_some hsorted hagrees htake
          obtain ⟨taken, left, hfit, hmore⟩ := ih (hpools ▸ hsorted) (hpools ▸ hagrees) h
          rw [hslots] at hfit
          exact ⟨_, _, .take hleast hfit, hmore⟩
        next htake =>
          obtain rfl := Except.ok.inj hround
          obtain ⟨taken, left, hfit, more, rfl, hsub⟩ := ih hsorted hagrees h
          exact ⟨_, _, .leave (takeExisting_none hagrees htake) hfit,
            (e.1, e.2.tags) :: more, by simp, by simpa using hsub⟩
      · have htags : onDemandTagSets onDemandTags (e :: tickets) =
            onDemandTagSets onDemandTags tickets := by
          simp only [onDemandTagSets, List.map_cons]
          exact List.filter_cons_of_neg (by simpa using hdemand)
        obtain rfl := Except.ok.inj hround
        rw [htags]
        exact ih hsorted hagrees h

end Gathering

/-! ## Tickets that new starts are planned for -/

section Planning

variable {usable : List String → String → Prop} {all all' : List PoolStats}

/-- Only pools that match a ticket are queued for it. -/
theorem matchingPools_tasks {tags : List String} {queue : PriorityQueue String}
    (h : matchingPools tags all = .ok queue) :
    queue.WF ∧ ∀ name ∈ queue.tasks, ∃ s ∈ all, s.pool.name = name ∧ s.pool.Provides tags := by
  refine foldlM_ok_invariant (P := fun queue : PriorityQueue String => queue.WF ∧
    ∀ name ∈ queue.tasks, ∃ s ∈ all, s.pool.name = name ∧ s.pool.Provides tags) h
    ⟨PriorityQueue.wf_empty, by simp [PriorityQueue.tasks]⟩ ?_
  rintro queue ⟨hwf, htasks⟩ s hs queue' hround
  split at hround
  next => contradiction
  next =>
    obtain rfl := Except.ok.inj hround
    exact ⟨hwf, htasks⟩
  next priority hpriority =>
    obtain rfl := Except.ok.inj hround
    obtain ⟨hwf', hmem⟩ := hwf.addTask s.pool.name priority
    refine ⟨hwf', fun name hname => ?_⟩
    rcases (hmem name).mp hname with rfl | hname
    · exact ⟨s, hs, rfl, by simp [Pool.Provides, hpriority]⟩
    · exact htasks name hname

/-- A planned start counts once, as pools have different names. -/
theorem startsOf_planStart {name : String} (hnodup : (all.map fun s => s.pool.name).Nodup) :
    startsOf ((all.map (planStart name)).map PoolStats.pool) ≤
      name ::ₘ startsOf (all.map PoolStats.pool) := by
  induction all with
  | nil => simp [startsOf]
  | cons s rest ih =>
      obtain ⟨hfirst, hrest⟩ := List.nodup_cons.mp hnodup
      simp only [List.map_cons, startsOf_cons]
      by_cases hname : s.pool.name = name
      · have hothers : rest.map (planStart name) = rest := by
          refine (List.map_congr_left fun s' hs' => ?_).trans (List.map_id _)
          have hne : s'.pool.name ≠ name := fun heq =>
            hfirst (List.mem_map.mpr ⟨s', hs', heq.trans hname.symm⟩)
          simp [planStart, hne]
        have hstarts : (s.pool.startOnDemandThisCycle + 1).toNat ≤
            s.pool.startOnDemandThisCycle.toNat + 1 := by omega
        rw [hothers, ← Multiset.cons_add]
        refine Multiset.add_le_add_right ?_
        simp only [planStart, hname, if_true, ← Multiset.replicate_succ]
        exact Multiset.replicate_le_replicate _ |>.mpr hstarts
      · simp only [planStart, hname, if_false]
        rw [← Multiset.add_cons]
        exact Multiset.add_le_add_left (ih hrest)

/-- Pools that differ in their planned starts only agree with the same predicate. -/
theorem Agrees.of_base {pools pools' : List Pool} (h : Agrees usable pools)
    (hbase : pools'.map Pool.base = pools.map Pool.base) : Agrees usable pools' := by
  intro p hp tags
  have hmem : p.base ∈ pools.map Pool.base := hbase ▸ List.mem_map_of_mem hp
  obtain ⟨q, hq, heq⟩ := List.mem_map.mp hmem
  rw [← Pool.base_name, ← Pool.base_provides, ← heq]
  exact h q hq tags

/-- Planning for one ticket plans at most one start, in a pool that matches it. -/
theorem planTicket_added {e : TicketId × List String}
    (hnodup : (all.map fun s => s.pool.name).Nodup)
    (hagrees : Agrees usable (all.map PoolStats.pool)) (h : planTicket all e = .ok all') :
    all' = all ∨ ∃ name, usable e.2 name ∧
      startsOf (all'.map PoolStats.pool) ≤ name ::ₘ startsOf (all.map PoolStats.pool) := by
  unfold planTicket at h
  split at h
  next => contradiction
  next queue hqueue =>
    split at h
    next => exact .inl (Except.ok.inj h).symm
    next name hname =>
      obtain rfl := Except.ok.inj h
      obtain ⟨hwf, htasks⟩ := matchingPools_tasks hqueue
      obtain ⟨s, hs, hsname, hprovides⟩ := htasks name (hwf.popUntil_some hname).1
      refine .inr ⟨name, ?_, startsOf_planStart hnodup⟩
      rw [← hsname]
      exact (hagrees _ (List.mem_map_of_mem hs) e.2).mpr hprovides

/-- The loop over the tickets without an existing resource plans at most one start for
each of them, in a pool that matches it. -/
theorem plan_added {tickets : List (TicketId × List String)}
    (hnodup : (all.map fun s => s.pool.name).Nodup)
    (hagrees : Agrees usable (all.map PoolStats.pool))
    (h : tickets.foldlM planTicket all = .ok all') :
    ∃ added : Multiset (List String × String), (∀ e ∈ added, usable e.1 e.2) ∧
      added.map Prod.fst ≤ tickets.map Prod.snd ∧
      startsOf (all'.map PoolStats.pool) ≤
        startsOf (all.map PoolStats.pool) + added.map Prod.snd := by
  induction tickets generalizing all with
  | nil =>
      obtain rfl := Except.ok.inj h
      exact ⟨0, by simp, by simp, by simp⟩
  | cons e tickets ih =>
      obtain ⟨all₁, hround, h⟩ := foldlM_cons_ok.mp h
      have hbase := planTicket_base hround
      have hnodup₁ : (all₁.map fun s => s.pool.name).Nodup := by
        have hnames : all₁.map (fun s => s.pool.name) = all.map fun s => s.pool.name := by
          simpa [Function.comp_def] using congrArg (List.map Pool.name) hbase
        rwa [hnames]
      have hagrees₁ : Agrees usable (all₁.map PoolStats.pool) :=
        hagrees.of_base (by simpa using hbase)
      obtain ⟨added, husable, hfst, hstarts⟩ := ih hnodup₁ hagrees₁ h
      rcases planTicket_added hnodup hagrees hround with rfl | ⟨name, hname, hone⟩
      · refine ⟨added, husable, hfst.trans ?_, hstarts⟩
        rw [List.map_cons, ← Multiset.cons_coe]
        exact Multiset.le_cons_self _ _
      · refine ⟨(e.2, name) ::ₘ added, ?_, ?_, ?_⟩
        · intro f hf
          rcases Multiset.mem_cons.mp hf with rfl | hf
          · exact hname
          · exact husable f hf
        · rw [Multiset.map_cons, List.map_cons, ← Multiset.cons_coe]
          exact Multiset.cons_le_cons _ hfst
        · calc startsOf (all'.map PoolStats.pool)
              ≤ startsOf (all₁.map PoolStats.pool) + added.map Prod.snd := hstarts
            _ ≤ name ::ₘ startsOf (all.map PoolStats.pool) + added.map Prod.snd :=
              Multiset.add_le_add_right hone
            _ = startsOf (all.map PoolStats.pool) + ((e.2, name) ::ₘ added).map Prod.snd := by
              rw [Multiset.map_cons, Multiset.add_cons, Multiset.cons_add]

/-- The on-demand pools are in the order of their names. -/
theorem onDemandPools_sorted {pools : List Pool} (db : Db) (hnodup : (pools.map Pool.name).Nodup) :
    Sorted ((onDemandPools pools db).map PoolStats.pool) := by
  have hpools : (onDemandPools pools db).map PoolStats.pool =
      (pools.filter fun p => p.tagsOnDemand ≠ []).insertionSort fun p q => p.name ≤ q.name := by
    simp [onDemandPools, Function.comp_def]
  have hsorted : ((pools.filter fun p => p.tagsOnDemand ≠ []).insertionSort
      fun p q => p.name ≤ q.name).Pairwise fun p q => p.name ≤ q.name := by
    have : Std.Total fun p q : Pool => p.name ≤ q.name := ⟨fun p q => le_total _ _⟩
    have : IsTrans Pool fun p q => p.name ≤ q.name := ⟨fun _ _ _ => le_trans⟩
    exact List.pairwise_insertionSort _ _
  have hdistinct : ((pools.filter fun p => p.tagsOnDemand ≠ []).insertionSort
      fun p q => p.name ≤ q.name).Pairwise fun p q => p.name ≠ q.name := by
    rw [← List.pairwise_map (f := Pool.name) (R := (· ≠ ·))]
    exact ((List.perm_insertionSort _ _).map Pool.name).nodup_iff.mpr
      (hnodup.sublist (List.filter_sublist.map _))
  rw [Sorted, hpools]
  exact hsorted.imp₂ (fun _ _ hle hne => lt_of_le_of_ne hle hne) hdistinct

/-- Pools without planned starts do not count. -/
theorem startsOf_filter (pools : List Pool) :
    startsOf (pools.filter fun p => 0 < p.startOnDemandThisCycle) = startsOf pools := by
  induction pools with
  | nil => rfl
  | cons p pools ih =>
      by_cases hpos : 0 < p.startOnDemandThisCycle
      · rw [List.filter_cons_of_pos (by simpa using hpos), startsOf_cons, startsOf_cons, ih]
      · have hnone : p.startOnDemandThisCycle.toNat = 0 := by omega
        rw [List.filter_cons_of_neg (by simpa using hpos), startsOf_cons, ih, hnone]
        simp

/-- The planned starts of some of the pools. -/
theorem startsOf_le_of_subperm {pools pools' : List Pool} (h : pools.Subperm pools') :
    startsOf pools ≤ startsOf pools' := by
  obtain ⟨rest, hrest⟩ := Multiset.le_iff_exists_add.mp (Multiset.coe_le.mpr h)
  rw [startsOf, startsOf, hrest, Multiset.add_bind]
  exact Multiset.le_add_right _ _

/-- Planned starts that end in the pools of the cycle were planned. -/
theorem startsOf_merged {pools planned : List Pool} (hnodup : (pools.map Pool.name).Nodup)
    (hzero : ∀ p ∈ pools, p.startOnDemandThisCycle = 0) :
    startsOf (pools.map fun p => (planned.find? fun q => q.name = p.name).getD p) ≤
      startsOf planned := by
  set merged := pools.map fun p => (planned.find? fun q => q.name = p.name).getD p with hmerged
  have hnames : merged.map Pool.name = pools.map Pool.name := by
    rw [hmerged, List.map_map]
    refine List.map_congr_left fun p _ => ?_
    cases hfind : planned.find? fun q => q.name = p.name with
    | none => simp [hfind]
    | some q => simpa [hfind] using List.find?_some hfind
  have hdistinct : merged.Nodup := List.Nodup.of_map Pool.name (hnames ▸ hnodup)
  rw [← startsOf_filter merged]
  refine startsOf_le_of_subperm ((hdistinct.filter _).subperm fun q hq => ?_)
  -- a pool with planned starts was found among the planned ones
  obtain ⟨hq, hpos⟩ := List.mem_filter.mp hq
  obtain ⟨p, hp, rfl⟩ := List.mem_map.mp hq
  cases hfind : planned.find? fun q => q.name = p.name with
  | none => simp [hfind, hzero p hp] at hpos
  | some q => exact List.mem_of_find?_eq_some hfind

/-- The planning matches tickets with existing resources first fit, and plans starts for
tickets that got none, at most one for each of them. -/
theorem decideWhereToStart_spec {onDemandTags : List String} {pools pools' : List Pool} {db : Db}
    (hnodup : (pools.map Pool.name).Nodup) (hzero : ∀ p ∈ pools, p.startOnDemandThisCycle = 0)
    (hagrees : Agrees usable (pools.filter fun p => p.tagsOnDemand ≠ []))
    (h : decideWhereToStart onDemandTags pools db = .ok pools') :
    ∃ taken left free, FirstFit usable (slotsOf (onDemandPools pools db))
        (onDemandTagSets onDemandTags (QTickets.waiting db)) taken left free ∧
      ∃ added : Multiset (List String × String), (∀ e ∈ added, usable e.1 e.2) ∧
        added.map Prod.fst ≤ left ∧ startsOf pools' ≤ added.map Prod.snd := by
  have hsorted := onDemandPools_sorted db hnodup
  have hagrees₀ : Agrees usable ((onDemandPools pools db).map PoolStats.pool) := by
    intro p hp
    obtain ⟨s, hs, rfl⟩ := List.mem_map.mp hp
    exact hagrees _ (onDemandPools_mem hs)
  obtain ⟨all, tickets, planned, hgather, hplain, hplan, rfl⟩ := decideWhereToStart_ok h
  have hpools := pools_of_plain hplain
  obtain ⟨taken, left, hfit, more, hmore, hsub⟩ := gather_firstFit hsorted hagrees₀ hgather
  have hdistinct : (all.map fun s => s.pool.name).Nodup := by
    have hnames : all.map (fun s => s.pool.name) = (all.map PoolStats.pool).map Pool.name := by
      simp
    rw [hnames, hpools]
    exact List.pairwise_map.mpr (hsorted.imp fun hlt => hlt.ne)
  have hnone : startsOf (all.map PoolStats.pool) = 0 := by
    rw [hpools, ← startsOf_filter, List.filter_eq_nil_iff.mpr]
    · rfl
    · intro p hp
      obtain ⟨s, hs, rfl⟩ := List.mem_map.mp hp
      simp [hzero _ (List.mem_of_mem_filter (onDemandPools_mem hs))]
  obtain ⟨added, husable, hfst, hstarts⟩ := plan_added hdistinct (hpools ▸ hagrees₀) hplan
  refine ⟨taken, left, _, hfit, added, husable, ?_, ?_⟩
  · refine hfst.trans (Multiset.coe_le.mpr ?_)
    rw [hmore, List.nil_append]
    exact hsub.subperm
  · rw [hnone, Multiset.zero_add] at hstarts
    exact (startsOf_merged hnodup hzero).trans hstarts

end Planning

end Resalloc
