import Resalloc.Server.Allocations
import Resalloc.Server.Api
import Resalloc.Server.Greedy

/-!
# The tags of a pool and of its resources

A pool is asked for its priority while on-demand starts are planned, and a resource when
tickets are assigned.  The pool answers from its configured tags, and the resource from the
rows that {lit}`AllocWorker` has stored for it.

Main results:

- Theorem {lit}`Pool.getTagsPriority_returns_iff`: when a pool can answer.
- Theorem {lit}`Pool.agrees_iff`: when it agrees with a started resource.
- Theorem {lit}`World.Equipped.step`: what the last transaction of an allocation relies on.
- Theorem {lit}`World.Reaches.agrees_iff`: when both answers are the same, for a started thread.
-/

namespace Resalloc

open Foundations

/-! ## The answer of a pool -/

namespace Pool

variable {p : Pool} {queried : List String}

/-- What a tag adds to the priority of a pool. -/
def tagScore (queried : List String) (tag : ConfigTag) : Int :=
  if tag.name ∈ queried then tag.priority.getD 0 else 0

/-- One round of the loop returns unless a requested tag has no priority. -/
theorem addTagPriority_ok_iff {tag : ConfigTag} {acc acc' : Int × List String} :
    addTagPriority queried acc tag = .ok acc' ↔
      (tag.name ∈ queried → tag.priority ≠ none) ∧
        acc' = (acc.1 + tagScore queried tag,
          if tag.name ∈ queried then tag.name :: acc.2 else acc.2) := by
  unfold addTagPriority tagScore
  by_cases hqueried : tag.name ∈ queried
  · cases hpriority : tag.priority with
    | none => simp [hqueried]
    | some priority => simp [hqueried, eq_comm]
  · simp [hqueried, eq_comm]

/-- The loop returns if every requested tag has a priority. -/
theorem foldlM_addTagPriority_returns_iff {tags : List ConfigTag} {acc : Int × List String} :
    (∃ acc', tags.foldlM (addTagPriority queried) acc = .ok acc') ↔
      ∀ tag ∈ tags, tag.name ∈ queried → tag.priority ≠ none := by
  induction tags generalizing acc with
  | nil =>
      constructor
      · simp
      · exact fun _ => ⟨acc, rfl⟩
  | cons tag tags ih =>
      rw [List.forall_mem_cons]
      constructor
      · rintro ⟨acc', hloop⟩
        obtain ⟨acc₁, hround, hrest⟩ := foldlM_cons_ok.mp hloop
        exact ⟨(addTagPriority_ok_iff.mp hround).1, ih.mp ⟨acc', hrest⟩⟩
      · rintro ⟨hfirst, hrest⟩
        have hround : addTagPriority queried acc tag = .ok _ :=
          addTagPriority_ok_iff.mpr ⟨hfirst, rfl⟩
        obtain ⟨acc', hloop⟩ := ih.mpr hrest
        exact ⟨acc', foldlM_cons_ok.mpr ⟨_, hround, hloop⟩⟩

/-- The loop adds up the priorities of the requested tags. -/
theorem foldlM_addTagPriority_sum {tags : List ConfigTag} {acc acc' : Int × List String}
    (h : tags.foldlM (addTagPriority queried) acc = .ok acc') :
    acc'.1 = acc.1 + (tags.map (tagScore queried)).sum := by
  induction tags generalizing acc with
  | nil =>
      obtain rfl := Except.ok.inj h
      simp
  | cons tag tags ih =>
      obtain ⟨acc₁, hround, hrest⟩ := foldlM_cons_ok.mp h
      obtain ⟨-, rfl⟩ := addTagPriority_ok_iff.mp hround
      rw [ih hrest, List.map_cons, List.sum_cons, add_assoc]

/-- A pool can answer if every requested tag of it has a priority. -/
theorem getTagsPriority_returns_iff :
    (∃ priority, p.getTagsPriority queried = .ok priority) ↔
      ∀ tag ∈ p.tagsAll, tag.name ∈ queried → tag.priority ≠ none := by
  have hreturns : (∃ acc, p.tagsAll.foldlM (addTagPriority queried) (0, []) = .ok acc) ↔ _ :=
    foldlM_addTagPriority_returns_iff
  rw [← hreturns]
  unfold getTagsPriority
  cases hloop : p.tagsAll.foldlM (addTagPriority queried) (0, []) with
  | error e => simp
  | ok acc =>
      simp only
      split_ifs <;> simp

/-- The answer of a pool adds up the priorities of the requested tags. -/
theorem getTagsPriority_sum {priority : Int} (h : p.getTagsPriority queried = .ok (some priority)) :
    priority = (p.tagsAll.map (tagScore queried)).sum := by
  unfold getTagsPriority at h
  cases hloop : p.tagsAll.foldlM (addTagPriority queried) (0, []) with
  | error e => simp [hloop] at h
  | ok acc =>
      simp only [hloop] at h
      split_ifs at h
      · obtain rfl := Option.some.inj (Except.ok.inj h)
        simpa using foldlM_addTagPriority_sum hloop
      · cases h

/-- The score of the rows that are stored for a pool. -/
theorem tagsScore_resourceTags (p : Pool) (queried : List String) :
    tagsScore queried p.resourceTags = (p.tagsAll.map (tagScore queried)).sum := by
  rw [tagsScore_eq, resourceTags, List.map_map]
  rfl

/-- The names of the rows that are stored for a pool. -/
theorem resourceTags_ids (p : Pool) : p.resourceTags.map ResourceTag.id = p.tagSet := by
  rw [resourceTags, tagSet, tagSetNormal, tagSetOnDemand, ← List.map_append, List.map_map]
  rfl

/-- A pool and a resource of it agree on a set of requested tags. -/
structure Agrees (p : Pool) (queried : List String) (r : Resource) : Prop where
  up : r.state = .up
  answer : ∃ priority, p.getTagsPriority queried = .ok priority ∧
    (priority ≠ none ↔ ∀ tag ∈ queried, tag ∈ r.tagSet) ∧
    ∀ score, priority = some score →
      score = tagsScore queried r.tags + if truthy r.sandbox then reusedResourcePriority else 0

/-- They agree on a started resource if the pool can answer. -/
theorem agrees_iff {r : Resource} (hup : r.state = .up) (hsandbox : r.sandbox = none)
    (htags : r.tags = p.resourceTags) :
    p.Agrees queried r ↔ ∀ tag ∈ p.tagsAll, tag.name ∈ queried → tag.priority ≠ none := by
  rw [← getTagsPriority_returns_iff]
  constructor
  · rintro ⟨-, priority, hpriority, -⟩
    exact ⟨priority, hpriority⟩
  · rintro ⟨priority, hpriority⟩
    refine ⟨hup, priority, hpriority, ?_, ?_⟩
    · rw [Resource.tagSet, htags, resourceTags_ids, ← getTagsPriority_isSome hpriority,
        Option.isSome_iff_ne_none]
    · rintro score rfl
      have hbonus : (if truthy r.sandbox then reusedResourcePriority else 0) = 0 := by
        simp [hsandbox, truthy]
      rw [hbonus, add_zero, htags, tagsScore_resourceTags]
      exact getTagsPriority_sum hpriority

end Pool

/-! ## What the last transaction of an allocation relies on -/

/-- A pool that allocates has a row. -/
theorem allocate_mem_poolNames {p : Pool} {db db' : Db} {id : ResourceId} {now importTime : Time}
    {datetime : String} (h : p.allocate now importTime datetime db = .ok (db', id)) :
    p.name ∈ db.poolNames := by
  unfold Pool.allocate at h
  split at h
  next => contradiction
  next row hrow =>
    have hname : row.name = p.name := by simpa using List.find?_some hrow
    rw [← hname]
    exact List.mem_map_of_mem (List.mem_of_find?_eq_some hrow)

namespace World

variable {w w' : World} {a : Action} {as : List Action} {k : ℕ} {p : Pool} {id : ResourceId}

/-- A STARTING resource has neither tags nor a sandbox, and the pool of an
{lit}`AllocWorker` has a row. -/
structure Equipped (w : World) : Prop where
  inv : w.Inv
  bare : ∀ {id r}, w.db.resources.get? id = some r → r.state = .starting →
    r.tags = [] ∧ r.sandbox = none
  rows : ∀ {k p id pc}, w.Runs k p (.alloc id pc) → p.name ∈ w.db.poolNames

/-- A step leaves a resource in STARTING as it was. -/
theorem ResourceSteps.of_starting {r r' : Resource} (hrow : w.ResourceSteps id r a r')
    (hstate : r'.state = .starting) :
    r.state = .starting ∧ r'.tags = r.tags ∧ r'.sandbox = r.sandbox := by
  have hbefore : r.state = .starting := by
    by_contra hother
    exact hrow.ne_starting hother hstate
  refine ⟨hbefore, ?_⟩
  cases hrow with
  | started =>
      simp only [Resource.started] at hstate
      split_ifs at hstate
  | decoupled _ _ hclosing =>
      have hup := hclosing.2.1
      simp [hbefore] at hup
  | assigned _ _ _ hup => simp [hbefore] at hup
  | _ => exact ⟨rfl, rfl⟩

/-- A started {lit}`AllocWorker` has found the row of its pool. -/
theorem Steps.alloc_mem_poolNames {i : Input} {pc : AllocPc} (h : w.Steps (.manager i) w')
    (hnone : w.workers.get? k = none) (hruns : w'.Runs k p (.alloc id pc)) :
    p.name ∈ w.db.poolNames := by
  cases h with
  | @manager _ db started next hpc =>
      rcases get?_spawn hruns with hold | ⟨-, hmem⟩
      · simp [hnone] at hold
      · generalize w.manager = m at hpc
        cases hpc with
        | allocate hp hallocate =>
            obtain ⟨rfl, -⟩ := Worker.mk.inj (List.mem_singleton.mp hmem)
            exact allocate_mem_poolNames hallocate
        | _ => simp at hmem

/-- Every action keeps this. -/
theorem Equipped.step (h : w.Equipped) (hstep : w.step a = some w') : w'.Equipped := by
  have hsteps := step_cases hstep
  have hnames := step_poolNames h.inv.linked hstep
  refine ⟨h.inv.step hstep, ?_, ?_⟩
  · intro id r' hr' hstate
    cases hr : w.db.resources.get? id with
    | none =>
        obtain ⟨i, c, p, rest, name, -, -, -, rfl⟩ := hsteps.created h.inv.linked hr' hr
        exact ⟨rfl, rfl⟩
    | some r =>
        obtain ⟨r'', hr'', hrow⟩ := hsteps.resource h.inv.linked hr
        obtain rfl := Option.some.inj (hr'.symm.trans hr'')
        obtain ⟨hbefore, htags, hsandbox⟩ := hrow.of_starting hstate
        rw [htags, hsandbox]
        exact h.bare hr hbefore
  · intro k p id pc hruns
    rcases hsteps.runs_cases h.inv.linked hruns with
      ⟨hold, -⟩ | ⟨i, old, rfl, -, hold, ⟨hmoves, -⟩ | ⟨j, rfl, hjob, -⟩⟩ |
      ⟨hnone, ⟨i, rfl⟩, hstarts⟩
    · exact hnames (h.rows hold)
    · cases hmoves with
      | allocLoad | cmdNew => exact hnames (h.rows hold)
    · cases hjob
    · exact hnames (hsteps.alloc_mem_poolNames hnone hruns)

/-- It holds in every reachable state. -/
theorem Reaches.equipped (h : Reaches anyStep as w) : w.Equipped := by
  have hstart : init.Equipped :=
    ⟨inv_init, by simp [init], by simp [Runs, init]⟩
  exact h.invariant hstart fun _ _ _ hequipped _ hstep => hequipped.step hstep

end World

/-- The last transaction of an allocation whose script succeeded. -/
theorem allocFinish_of_success {p : Pool} {s now : Time} {rounding : Rounding} {output : Output}
    {id : ResourceId} {db : Db} {r : Resource} (hr : db.resources.get? id = some r)
    (htags : r.tags = []) (hstatus : output.status = 0) :
    allocFinish p s now rounding output id db =
      if p.id ∈ db.poolNames then
        if p.tagSet.Nodup then
          .ok ((db.modifyPool p.id (recalculateStatistics true s now rounding)).modifyResource id
            fun r => r.started p output)
        else .error .integrityError
      else .error .attributeError := by
  by_cases hid : p.id ∈ db.poolNames
  · obtain ⟨row, -, hrow⟩ := db.exists_pool? hid
    simp [allocFinish, hid, hrow, hr, htags, hstatus, Pool.resourceTags_ids]
  · have hnone : db.pool? p.id = none := by
      cases hfound : db.pool? p.id with
      | none => rfl
      | some row =>
          have hname : row.name = p.id := by simpa using List.find?_some hfound
          exact absurd (hname ▸ List.mem_map_of_mem (List.mem_of_find?_eq_some hfound)) hid
    simp [allocFinish, hnone, hid]

namespace World

variable {w w' : World} {as : List Action} {k : ℕ} {p : Pool} {id : ResourceId} {i : Input}

/-- A committed last transaction replaces the database, and a failed one is rolled back. -/
theorem alloc_step_db {s : Time} {output : Output}
    (hruns : w.Runs k p (.alloc id (.finish s output))) (hok : i.raises = false)
    (hstep : w.step (.worker k i) = some w') :
    w'.db = (allocFinish p s i.now i.rounding output id w.db).toOption.getD w.db := by
  simp only [step, show w.workers.get? k = some _ from hruns, if_true, Worker.step, hok,
    Bool.false_eq_true, if_false, Option.some.injEq] at hstep
  rw [← hstep]
  cases allocFinish p s i.now i.rounding output id w.db <;> rfl

/-- The answer of a pool about a set of tags is the one that its resource gives after a
successful {lit}`cmd_new`, if the pool's identifier has a row, no name is listed twice and no
requested tag has a null priority. -/
theorem Reaches.agrees_iff (h : Reaches anyStep as w) {s : Time} {output : Output}
    (hruns : w.Runs k p (.alloc id (.finish s output))) (hstatus : output.status = 0)
    (hok : i.raises = false) (hstep : w.step (.worker k i) = some w') (queried : List String) :
    (∃ r, w'.db.resources.get? id = some r ∧ p.Agrees queried r) ↔
      p.id ∈ w.db.poolNames ∧ p.tagSet.Nodup ∧
        ∀ tag ∈ p.tagsAll, tag.name ∈ queried → tag.priority ≠ none := by
  obtain ⟨hinv, hbare, -⟩ := h.equipped
  obtain ⟨r, hr, hstarting, -⟩ := hinv.owned.alloc hruns
  obtain ⟨htags, hsandbox⟩ := hbare hr hstarting
  have hdb := alloc_step_db hruns hok hstep
  rw [allocFinish_of_success hr htags hstatus] at hdb
  by_cases hcommits : p.id ∈ w.db.poolNames ∧ p.tagSet.Nodup
  · obtain ⟨hid, hnodup⟩ := hcommits
    have hr' : w'.db.resources.get? id = some (r.started p output) := by
      rw [hdb, if_pos hid, if_pos hnodup]
      simp [Except.toOption, hr]
    have hagrees : p.Agrees queried (r.started p output) ↔ _ :=
      Pool.agrees_iff (by simp [Resource.started, hstatus]) hsandbox
        (by simp [Resource.started, htags])
    simp only [hr', Option.some.injEq, exists_eq_left', hagrees, hid, hnodup, true_and]
  · have hr' : w'.db.resources.get? id = some r := by
      rw [hdb]
      split_ifs with hid hnodup
      · exact absurd ⟨hid, hnodup⟩ hcommits
      · exact hr
      · exact hr
    constructor
    · rintro ⟨r', hget, hagrees⟩
      obtain rfl := Option.some.inj (hr'.symm.trans hget)
      have hup := hagrees.up
      simp [hstarting] at hup
    · rintro ⟨hid, hnodup, -⟩
      exact absurd ⟨hid, hnodup⟩ hcommits

end World

end Resalloc
