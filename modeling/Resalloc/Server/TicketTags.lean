import Mathlib.Data.Finset.Dedup
import Resalloc.Server.Invariants

/-!
# Tags of tickets as sets

A client sends the tags of a ticket as a list, the server stores one row for each of
them under the key {lit}`(id, ticket_id)`, and every test of the manager reads them back
as a set.  The tests agree on lists with the same members; the key does not accept a
list that repeats a tag.

Main results:

- Theorem {lit}`Ticket.alike`: no test of the manager tells tickets with the same set of
  tags apart.
- Theorem {lit}`takeTicket_as_set_iff`: the lists that {lit}`takeTicket` treats as sets.
-/

namespace Resalloc

open Foundations

/-- {lit}`TagMixin.tag_set` of a ticket. -/
def Ticket.tagSet (t : Ticket) : Finset String := t.tags.toFinset

/-! ## The tests of the manager -/

section Tests

variable {tags tags' : List String}

/-- Lists with the same set of tags pass the same test for all their tags. -/
theorem forall_tags_congr (h : tags.toFinset = tags'.toFinset) (p : String → Prop) :
    (∀ tag ∈ tags, p tag) ↔ ∀ tag ∈ tags', p tag := by
  simp only [← List.mem_toFinset, h]

/-- Lists with the same set of tags pass the same test for one of their tags. -/
theorem exists_tags_congr (h : tags.toFinset = tags'.toFinset) (p : String → Prop) :
    (∃ tag ∈ tags, p tag) ↔ ∃ tag ∈ tags', p tag := by
  simp only [← List.mem_toFinset, h]

/-- The score of a resource depends on the set of requested tags. -/
theorem tagsScore_congr (h : tags.toFinset = tags'.toFinset) (stored : List ResourceTag) :
    tagsScore tags stored = tagsScore tags' stored := by
  simp only [tagsScore, ← List.mem_toFinset, h]

/-- The priority of a pool depends on the set of requested tags. -/
theorem Pool.getTagsPriority_congr (h : tags.toFinset = tags'.toFinset) (p : Pool) :
    p.getTagsPriority tags = p.getTagsPriority tags' := by
  have hround : addTagPriority tags = addTagPriority tags' := by
    funext acc tag
    simp only [addTagPriority, ← List.mem_toFinset, h]
  simp only [Pool.getTagsPriority, hround, forall_tags_congr h]

/-- Which planned resource is taken depends on the set of requested tags. -/
theorem takeExisting_congr (h : tags.toFinset = tags'.toFinset) (all : List PoolStats) :
    takeExisting tags all = takeExisting tags' all := by
  induction all with
  | nil => rfl
  | cons s rest ih => simp only [takeExisting, Pool.getTagsPriority_congr h, ih]

/-- The queue of matching pools depends on the set of requested tags. -/
theorem matchingPools_congr (h : tags.toFinset = tags'.toFinset) (all : List PoolStats) :
    matchingPools tags all = matchingPools tags' all := by
  simp only [matchingPools, Pool.getTagsPriority_congr h]

end Tests

/-- Two tickets that every test of the manager treats alike. -/
structure Ticket.Alike (t t' : Ticket) : Prop where
  /-- The tests for on-demand tags, in {lit}`_assign_tickets` and in the planning. -/
  onDemand : ∀ onDemandTags : List String,
    (∃ tag ∈ t.tags, tag ∈ onDemandTags) ↔ ∃ tag ∈ t'.tags, tag ∈ onDemandTags
  /-- The candidate loop of {lit}`_assign_tickets`. -/
  candidates : ∀ ids db, candidates t ids db = candidates t' ids db
  /-- {lit}`get_tags_priority`. -/
  priority : ∀ p : Pool, p.getTagsPriority t.tags = p.getTagsPriority t'.tags
  /-- The two loops over the pools in the planning. -/
  planning : ∀ all, takeExisting t.tags all = takeExisting t'.tags all ∧
    matchingPools t.tags all = matchingPools t'.tags all
  /-- The test of the on-demand removal. -/
  provided : ∀ p : Pool, (∀ tag ∈ t.tags, tag ∈ p.tagSet) ↔ ∀ tag ∈ t'.tags, tag ∈ p.tagSet

/-- Tickets of one sandbox with the same set of tags are treated alike. -/
theorem Ticket.alike {t t' : Ticket} (hsandbox : t.sandbox = t'.sandbox)
    (htags : t.tagSet = t'.tagSet) : t.Alike t' where
  onDemand onDemandTags := exists_tags_congr htags (· ∈ onDemandTags)
  candidates ids db := by
    have husable : ∀ id r, usable t ids id r ↔ usable t' ids id r := by
      intro id r
      rw [usable, usable, hsandbox, forall_tags_congr htags]
    simp only [Resalloc.candidates, husable, tagsScore_congr htags]
  priority := Pool.getTagsPriority_congr htags
  planning all := ⟨takeExisting_congr htags all, matchingPools_congr htags all⟩
  provided p := forall_tags_congr htags (· ∈ p.tagSet)

/-! ## Taking a ticket -/

/-- A call that commits one new open ticket with the given set of tags, and returns its
identifier. -/
structure TakesSet (tags : List String) (sandbox : Option String) (db db' : Db) (t : Ticket) :
    Prop where
  returned : takeTicket tags sandbox db = .ok (db', db.tickets.nextId)
  /-- The ticket is the only row that was added, and no other one was written. -/
  rows : ∀ id, db'.tickets.get? id =
    if id = db.tickets.nextId then some t else db.tickets.get? id
  frame : db' = { db with tickets := db'.tickets }
  opened : t.state = .opened
  waiting : t.resourceId = none
  sandbox : t.sandbox = sandbox
  tagSet : t.tagSet = tags.toFinset

/-- A list that repeats a tag is rejected in every database. -/
theorem takeTicket_error_iff {tags : List String} {sandbox : Option String} {db : Db} :
    takeTicket tags sandbox db = .error .integrityError ↔ ¬ tags.Nodup := by
  unfold takeTicket
  split_ifs with hnodup <;> simp [hnodup]

/-- A call that takes its list as a set is given a list without repetitions. -/
theorem TakesSet.nodup {tags : List String} {sandbox : Option String} {db db' : Db} {t : Ticket}
    (h : TakesSet tags sandbox db db' t) : tags.Nodup := by
  by_contra hrepeats
  have herror : takeTicket tags sandbox db = .error .integrityError :=
    takeTicket_error_iff.mpr hrepeats
  rw [h.returned] at herror
  contradiction

/-- A list without repetitions is taken as a set. -/
theorem takesSet_of_nodup {tags : List String} (h : tags.Nodup) (sandbox : Option String)
    (db : Db) :
    TakesSet tags sandbox db
      { db with tickets := db.tickets.push { sandbox := sandbox, tags := tags } }
      { sandbox := sandbox, tags := tags } where
  returned := if_pos h
  rows := IdTable.get?_push db.tickets _
  frame := rfl
  opened := rfl
  waiting := rfl
  sandbox := rfl
  tagSet := rfl

/-- Two calls with the same set of tags take it as a set, and give tickets that are
treated alike, if and only if neither list repeats a tag. -/
theorem takeTicket_as_set_iff (tags tags' : List String) (sandbox : Option String) (db db₁ : Db)
    (hsame : tags.toFinset = tags'.toFinset) :
    (∃ db' db₁' t t', TakesSet tags sandbox db db' t ∧ TakesSet tags' sandbox db₁ db₁' t' ∧
        t.Alike t') ↔
      tags.Nodup ∧ tags'.Nodup := by
  constructor
  · rintro ⟨db', db₁', t, t', htakes, htakes', -⟩
    exact ⟨htakes.nodup, htakes'.nodup⟩
  · rintro ⟨hnodup, hnodup'⟩
    have htakes := takesSet_of_nodup hnodup sandbox db
    have htakes' := takesSet_of_nodup hnodup' sandbox db₁
    refine ⟨_, _, _, _, htakes, htakes', Ticket.alike rfl ?_⟩
    rw [htakes.tagSet, htakes'.tagSet, hsame]

/-- Two lists that differ in their order. -/
theorem takeTicket_as_set_reordered :
    ∃ db' db₁' t t', TakesSet ["x86_64", "arch"] (some "user") {} db' t ∧
      TakesSet ["arch", "x86_64"] (some "user") {} db₁' t' ∧ t.Alike t' :=
  (takeTicket_as_set_iff _ _ _ _ _ (by decide)).mpr (by decide)

/-- A repeated tag is not accepted. -/
theorem takeTicket_repeated :
    ¬ ∀ tags sandbox db, ∃ db' t, TakesSet tags sandbox db db' t := by
  intro h
  obtain ⟨db', t, htakes⟩ := h ["x86_64", "x86_64"] none {}
  have hnodup := htakes.nodup
  contradiction

end Resalloc
