import Mathlib.Algebra.BigOperators.Ring.Finset
import Resalloc.Foundations.Greedy
import Resalloc.Server.Serving

/-!
# The matching that an assignment pass computes

{lit}`_assign_tickets` fills one priority queue with the waiting tickets and, for every
ticket, a second one with the usable resources.  Without interference it is a greedy
matching: on-demand tickets first, older tickets before newer ones, and each ticket gets
the resource with the greatest score.

Main results:

- Definitions {lit}`Db.ServedBefore`, {lit}`Db.Fits` and {lit}`Db.score`: the order of the
  tickets, and what is the best resource for one of them.
- Theorem {lit}`chooseResource_spec`: a round chooses the best resource.
- Theorem {lit}`World.assign_greedy`: the whole pass.
-/

namespace Resalloc

open Foundations

/-! ## What is computed -/

/-- The score of a resource for a ticket: the priorities of the requested tags, and the
preference of resources that have a sandbox. -/
def Ticket.score (t : Ticket) (r : Resource) : Int :=
  (r.tags.map fun tag => if tag.id ∈ t.tags then tag.priority.getD 0 else 0).sum +
    if truthy r.sandbox then 500 else 0

namespace Db

/-- A resource can be given to a ticket. -/
def Fits (db : Db) (ticketId : TicketId) (id : ResourceId) : Prop :=
  ∃ r t, db.resources.get? id = some r ∧ db.tickets.get? ticketId = some t ∧ Resalloc.Fits r t

/-- The score of a resource for a ticket. -/
def score (db : Db) (ticketId : TicketId) (id : ResourceId) : Int :=
  match db.tickets.get? ticketId, db.resources.get? id with
  | some t, some r => t.score r
  | _, _ => 0

/-- A resource is assigned to a ticket. -/
def Assigns (db : Db) (ticketId : TicketId) (id : ResourceId) (db' : Db) : Prop :=
  ∃ uuid now, db' = (assignTicket db id ticketId uuid now).1

/-- A ticket waits for a resource. -/
def Waits (db : Db) (ticketId : TicketId) : Prop :=
  ∃ t, (ticketId, t) ∈ QTickets.waiting db

/-- A ticket requests an on-demand tag. -/
def WantsOnDemand (onDemandTags : List String) (db : Db) (ticketId : TicketId) : Prop :=
  ∃ t, db.tickets.get? ticketId = some t ∧ ∃ tag ∈ t.tags, tag ∈ onDemandTags

/-- On-demand tickets are served first, and older tickets before newer ones. -/
def ServedBefore (onDemandTags : List String) (db : Db) (a b : TicketId) : Prop :=
  db.WantsOnDemand onDemandTags a ∧ ¬ db.WantsOnDemand onDemandTags b ∨
    (db.WantsOnDemand onDemandTags a ↔ db.WantsOnDemand onDemandTags b) ∧ a < b

instance (onDemandTags : List String) (db : Db) (ticketId : TicketId) :
    Decidable (db.WantsOnDemand onDemandTags ticketId) :=
  decidable_of_iff (∃ t ∈ db.tickets.get? ticketId, ∃ tag ∈ t.tags, tag ∈ onDemandTags) Iff.rfl

end Db

/-! ## One round -/

section Round

variable {db db' : Db} {id : ResourceId} {tid : TicketId} {ids : List ResourceId}
variable {t : Ticket} {r : Resource}

/-- The loop over the tags adds up the requested priorities. -/
theorem tagsScore_eq (ticketTags : List String) (tags : List ResourceTag) :
    tagsScore ticketTags tags =
      (tags.map fun tag => if tag.id ∈ ticketTags then tag.priority.getD 0 else 0).sum := by
  have hloop : tagsScore ticketTags tags = tags.foldl
      (fun score tag => score + if tag.id ∈ ticketTags then tag.priority.getD 0 else 0) 0 := by
    apply List.foldl_ext
    intro score tag _
    cases tag.priority with
    | none => simp
    | some priority => split_ifs <;> simp
  rw [hloop, List.sum_eq_foldl, List.foldl_map]

/-- Which resources a ticket can be given while all ready ones are remembered. -/
theorem fits_iff_usable (ht : db.tickets.get? tid = some t)
    (hids : ∀ e ∈ QResources.ready db none, e.1 ∈ ids) :
    db.Fits tid id ↔ ∃ r, (id, r) ∈ QResources.ready db none ∧ usable t ids id r := by
  constructor
  · rintro ⟨r, t', hr, ht', hfits⟩
    obtain rfl := Option.some.inj (ht.symm.trans ht')
    have hready : (id, r) ∈ QResources.ready db none :=
      mem_ready.mpr ⟨hr, fun h => by simp at h, hfits.up, hfits.free, hfits.checked⟩
    exact ⟨r, hready, hids _ hready, sandbox_test_iff.mpr hfits.sandbox, hfits.tags⟩
  · rintro ⟨r, hready, -, hsandbox, htags⟩
    obtain ⟨hr, -, hup, hfree, hchecked⟩ := mem_ready.mp hready
    exact ⟨r, t, hr, ht, hup, hfree, hchecked, htags, sandbox_test_iff.mp hsandbox⟩

/-- The candidates are popped by their score. -/
theorem candidates_ascending (ht : db.tickets.get? tid = some t) :
    (candidates t ids db).Ascending (db.score tid) := by
  have hqueue : candidates t ids db = (QResources.ready db none).foldl
      (fun queue e => if usable t ids e.1 e.2 then queue.addTask e.1 (db.score tid e.1)
        else queue) {} := by
    apply List.foldl_ext
    intro queue e he
    have hr := (mem_ready.mp he).1
    simp only [Db.score, ht, hr, Ticket.score, ← tagsScore_eq]
    rfl
  have hsorted : ((QResources.ready db none).map Prod.fst).Pairwise (· < ·) :=
    List.pairwise_map.mpr (db.resources.entries_sorted.sublist List.filter_sublist)
  rw [hqueue]
  exact (PriorityQueue.ascending_empty _).foldl_addTask PriorityQueue.wf_empty _ Prod.fst _
    hsorted (by simp [PriorityQueue.tasks])

/-- A round finds no resource if no remembered one fits its ticket. -/
theorem chooseResource_eq_none (ht : db.tickets.get? tid = some t)
    (h : chooseResource tid ids db = none) {e : ResourceId × Resource}
    (he : e ∈ QResources.ready db none) : ¬ usable t ids e.1 e.2 := by
  have hempty : (candidates t ids db).tasks = [] := by
    rw [← PriorityQueue.popTask_eq_none]
    simpa [chooseResource, ht] using h
  intro husable
  have hmem := ((candidates_spec t ids db).2 e.1).mpr ⟨e.2, he, husable⟩
  simp [hempty] at hmem

/-- A round chooses the best resource, or none if there is none. -/
theorem chooseResource_spec (ht : db.tickets.get? tid = some t)
    (hids : ∀ e ∈ QResources.ready db none, e.1 ∈ ids) :
    match chooseResource tid ids db with
    | some id => IsBest (db.Fits tid) (db.score tid) id
    | none => ∀ id, ¬ db.Fits tid id := by
  cases hchoose : chooseResource tid ids db with
  | none =>
      intro id hfits
      obtain ⟨r, hready, husable⟩ := (fits_iff_usable ht hids).mp hfits
      exact chooseResource_eq_none ht hchoose hready husable
  | some id =>
      obtain ⟨hwf, hmem⟩ := candidates_spec t ids db
      have hfits : ∀ id, db.Fits tid id ↔ id ∈ (candidates t ids db).tasks := fun id => by
        rw [fits_iff_usable ht hids, hmem]
      have hpop : (candidates t ids db).popTask = (some id, (candidates t ids db).popTask.2) := by
        rw [← hchoose]
        simp [chooseResource, ht]
      have hfirst := (hwf.popTask_some hpop).2
      have horder := (@candidates_ascending db tid ids t ht).tasks_pairwise hwf
      rw [hfirst, List.pairwise_cons] at horder
      constructor
      · rw [hfits, hfirst]
        exact List.mem_cons_self
      · intro id' hid'
        rw [hfits, hfirst] at hid'
        obtain rfl | hrest := List.mem_cons.mp hid'
        · exact .inr ⟨rfl, le_rfl⟩
        · exact (horder.1 id' hrest).imp_right fun h => ⟨h.1, h.2.le⟩

/-- A round that finds no resource writes nothing. -/
theorem assignTicketTo_of_none (uuid : String) (now : Time) (ht : db.tickets.get? tid = some t)
    (h : chooseResource tid ids db = none) : assignTicketTo tid ids uuid now db = .ok db := by
  simp [assignTicketTo, ht, h]

/-- An assignment ends the wait of its ticket, starts no other one, and makes no resource
fit a waiting ticket. -/
theorem Db.Assigns.spec (hfits : db.Fits tid id) (h : db.Assigns tid id db') :
    ¬ db'.Waits tid ∧ ∀ other, db'.Waits other →
      db.Waits other ∧ ∀ id', db'.Fits other id' → db.Fits other id' := by
  obtain ⟨r, t, hr, ht, -⟩ := hfits
  obtain ⟨uuid, now, rfl⟩ := h
  have hended : ¬ Db.Waits (assignTicket db id tid uuid now).1 tid := by
    rintro ⟨t', ht'⟩
    obtain ⟨hrow, hnone, -⟩ := mem_waiting.mp ht'
    rw [assignTicket_ticket, if_pos rfl, ht, Option.map_some, Option.some.injEq] at hrow
    simp [← hrow, Ticket.assigned] at hnone
  refine ⟨hended, fun other hwaits => ?_⟩
  have hne : other ≠ tid := fun heq => hended (heq ▸ hwaits)
  obtain ⟨t', ht'⟩ := hwaits
  obtain ⟨hrow, hwaits⟩ := mem_waiting.mp ht'
  rw [assignTicket_ticket, if_neg hne] at hrow
  refine ⟨⟨t', mem_waiting.mpr ⟨hrow, hwaits⟩⟩, ?_⟩
  rintro id' ⟨r', t'', hr', ht'', hfits⟩
  rw [assignTicket_ticket, if_neg hne] at ht''
  rw [assignTicket_resource _ _ _ _ _ ht] at hr'
  split_ifs at hr' with hid
  · obtain ⟨r'', -, rfl⟩ := Option.map_eq_some_iff.mp hr'
    exact absurd hfits.free (by simp [Resource.assigned])
  · exact ⟨r', t'', hr', ht'', hfits⟩

/-- No resource becomes ready by an assignment. -/
theorem ready_of_assignTicket {uuid : String} {now : Time} (ht : db.tickets.get? tid = some t)
    {e : ResourceId × Resource}
    (he : e ∈ QResources.ready (assignTicket db id tid uuid now).1 none) :
    e ∈ QResources.ready db none := by
  obtain ⟨hr, hpool, hup, hfree, hchecked⟩ := mem_ready.mp he
  rw [assignTicket_resource _ _ _ _ _ ht] at hr
  split_ifs at hr with hid
  · obtain ⟨r', -, heq⟩ := Option.map_eq_some_iff.mp hr
    rw [← heq] at hfree
    simp [Resource.assigned] at hfree
  · exact mem_ready.mpr ⟨hr, hpool, hup, hfree, hchecked⟩

end Round

/-! ## The order of the tickets -/

section Order

variable {db : Db} {onDemandTags : List String}

/-- Tickets are queued by what they request. -/
theorem collectQueue_ascending (onDemandTags : List String) (db : Db) :
    (collectQueue onDemandTags db).1.Ascending fun tid =>
      if db.WantsOnDemand onDemandTags tid then 10 else 0 := by
  have hqueue : (collectQueue onDemandTags db).1 = (QTickets.waiting db).foldl
      (fun queue e => if True then
        queue.addTask e.1 (if db.WantsOnDemand onDemandTags e.1 then 10 else 0)
        else queue) {} := by
    apply List.foldl_ext
    intro queue e he
    have hwants : db.WantsOnDemand onDemandTags e.1 ↔ ∃ tag ∈ e.2.tags, tag ∈ onDemandTags := by
      simp [Db.WantsOnDemand, (mem_waiting.mp he).1]
    rw [if_pos trivial]
    split_ifs with htag hwants' hwants'
    · rfl
    · exact absurd (hwants.mpr htag) hwants'
    · exact absurd (hwants.mp hwants') htag
    · rfl
  have hsorted : ((QTickets.waiting db).map Prod.fst).Pairwise (· < ·) :=
    List.pairwise_map.mpr (db.tickets.entries_sorted.sublist List.filter_sublist)
  have hempty : PriorityQueue.Ascending {} fun tid =>
      if db.WantsOnDemand onDemandTags tid then 10 else 0 := PriorityQueue.ascending_empty _
  rw [hqueue]
  exact hempty.foldl_addTask PriorityQueue.wf_empty (fun _ => True) Prod.fst _ hsorted
    (by simp [PriorityQueue.tasks])

/-- The queue holds the waiting tickets, in the order in which they are served. -/
theorem collectQueue_order (onDemandTags : List String) (db : Db) :
    (collectQueue onDemandTags db).1.tasks.Pairwise (db.ServedBefore onDemandTags) ∧
      (collectQueue onDemandTags db).1.tasks.length = (QTickets.waiting db).length := by
  obtain ⟨hwf, hmem, -⟩ := collectQueue_spec onDemandTags db
  constructor
  · apply ((collectQueue_ascending onDemandTags db).tasks_pairwise hwf).imp
    intro a b hab
    by_cases ha : db.WantsOnDemand onDemandTags a <;>
      by_cases hb : db.WantsOnDemand onDemandTags b <;>
        simp_all [Db.ServedBefore]
  · have hnodup : ((QTickets.waiting db).map Prod.fst).Nodup :=
      db.tickets.entries_nodup.sublist (List.filter_sublist.map _)
    have hperm : (collectQueue onDemandTags db).1.tasks.Perm
        ((QTickets.waiting db).map Prod.fst) := by
      apply (List.perm_ext_iff_of_nodup hwf.tasks_nodup hnodup).mpr
      intro tid
      simp [hmem]
    rw [hperm.length_eq, List.length_map]

end Order

/-! ## The whole pass -/

namespace World

variable {c : Cycle} {ids : List ResourceId}

/-- The rounds of the pass serve the queued tickets. -/
theorem assign_rounds (is : List Input) {w : World} {queue : PriorityQueue TicketId}
    (hpc : w.manager = .assign c queue ids) (hwf : queue.WF)
    (hlength : is.length = queue.tasks.length + 1)
    (hids : ∀ e ∈ QResources.ready w.db none, e.1 ∈ ids)
    (htickets : ∀ tid ∈ queue.tasks, ∃ t, w.db.tickets.get? tid = some t) :
    ∃ w' served, Path step anyStep w (is.map Action.manager) w' ∧ w'.manager = .wait ∧
      Serves Db.Fits Db.score Db.Assigns w.db queue.tasks served w'.db := by
  induction is generalizing w queue with
  | nil => simp at hlength
  | cons i is ih =>
      cases hpop : queue.popTask with
      | mk first queue' =>
      cases first with
      | none =>
          have hempty : queue.tasks = [] := PriorityQueue.popTask_eq_none.mp (by rw [hpop])
          obtain rfl : is = [] := by simpa [hempty] using hlength
          have hstep : w.step (.manager i) = some { w with manager := .wait } := by
            simp [step, ManagerPc.step, hpc, hpop, spawn]
          refine ⟨_, [], Path.single trivial hstep, rfl, ?_⟩
          rw [hempty]
          exact .nil _
      | some tid =>
          obtain ⟨hwf', htasks⟩ := hwf.popTask_some hpop
          rw [htasks] at hlength htickets ⊢
          obtain ⟨t, ht⟩ := htickets tid List.mem_cons_self
          have hspec := chooseResource_spec ht hids
          cases hchoose : chooseResource tid ids w.db with
          | none =>
              rw [hchoose] at hspec
              have hstep : w.step (.manager i) =
                  some { w with manager := .assign c queue' ids } := by
                simp [step, ManagerPc.step, hpc, hpop, spawn,
                  assignTicketTo_of_none i.uuid.1 i.now ht hchoose]
              obtain ⟨w', served, hrun, hwait, hserves⟩ :=
                @ih { w with manager := .assign c queue' ids } queue' rfl hwf'
                  (by simpa using hlength) hids
                fun tid htid => htickets tid (List.mem_cons_of_mem _ htid)
              exact ⟨w', _, (Path.single trivial hstep).append hrun, hwait, .skip hspec hserves⟩
          | some id =>
              rw [hchoose] at hspec
              let v : World :=
                { w with
                  db := (assignTicket w.db id tid i.uuid.1 i.now).1
                  manager := .assign c queue' ids }
              have hstep : w.step (.manager i) = some v := by
                simp [v, step, ManagerPc.step, hpc, hpop, spawn,
                  assignTicketTo_of_choose i.uuid.1 i.now hchoose]
              have htickets' : ∀ tid' ∈ queue'.tasks, ∃ t', v.db.tickets.get? tid' = some t' := by
                intro tid' htid'
                obtain ⟨t', ht'⟩ := htickets tid' (List.mem_cons_of_mem _ htid')
                rw [show v.db = (assignTicket w.db id tid i.uuid.1 i.now).1 from rfl,
                  assignTicket_ticket, ht']
                split_ifs <;> simp
              have hids' : ∀ e ∈ QResources.ready v.db none, e.1 ∈ ids :=
                fun e he => hids e (ready_of_assignTicket ht he)
              obtain ⟨w', served, hrun, hwait, hserves⟩ := @ih v queue' rfl hwf'
                (by simpa using hlength) hids' htickets'
              exact ⟨w', _, (Path.single trivial hstep).append hrun, hwait,
                .give hspec ⟨i.uuid.1, i.now, rfl⟩ hserves⟩

/-- Without interference, the pass ends after one round for each waiting ticket.  It serves
on-demand tickets first and older tickets before newer ones, and gives each the best resource
that is left; a ticket that still waits got nothing, and no ready resource fits it. -/
theorem assign_greedy {w : World} (hpc : w.manager = .collect c) {is : List Input}
    (hlength : is.length = (QTickets.waiting w.db).length + 2) :
    ∃ w' order served, Path step anyStep w (is.map Action.manager) w' ∧ w'.manager = .wait ∧
      (∀ tid, tid ∈ order ↔ w.db.Waits tid) ∧
      order.Pairwise (w.db.ServedBefore c.onDemandTags) ∧
      Serves Db.Fits Db.score Db.Assigns w.db order served w'.db ∧
      ∀ tid, w'.db.Waits tid → (tid, none) ∈ served ∧ ∀ id, ¬ w'.db.Fits tid id := by
  obtain ⟨hwf, hmem, hready⟩ := collectQueue_spec c.onDemandTags w.db
  obtain ⟨horder, hsize⟩ := collectQueue_order c.onDemandTags w.db
  rcases hcollect : collectQueue c.onDemandTags w.db with ⟨queue, ids⟩
  simp only [hcollect] at hwf hmem hready horder hsize
  cases is with
  | nil => simp at hlength
  | cons i is =>
      have hstep : w.step (.manager i) = some { w with manager := .assign c queue ids } := by
        simp [step, ManagerPc.step, hpc, hcollect, spawn]
      have hids : ∀ e ∈ QResources.ready w.db none, e.1 ∈ ids := by
        intro e he
        rw [hready]
        exact List.mem_map_of_mem he
      have htickets : ∀ tid ∈ queue.tasks, ∃ t, w.db.tickets.get? tid = some t := by
        intro tid htid
        obtain ⟨t, ht⟩ := (hmem tid).mp htid
        exact ⟨t, (mem_waiting.mp ht).1⟩
      have hrest : is.length = queue.tasks.length + 1 := by
        rw [hsize]
        simpa using hlength
      obtain ⟨w', served, hrun, hwait, hserves⟩ :=
        @assign_rounds c ids is { w with manager := .assign c queue ids } queue rfl hwf hrest hids
          htickets
      refine ⟨w', _, served, (Path.single trivial hstep).append hrun, hwait, hmem, horder,
        hserves, fun tid hwaits => ?_⟩
      have hgive : ∀ u t b v, Db.Fits u t b → Db.Assigns u t b v →
          ∀ t', Db.Waits v t' → Db.Waits u t' ∧ ∀ b', Db.Fits v t' b' → Db.Fits u t' b' :=
        fun _ _ _ _ hfits hassigns => (hassigns.spec hfits).2
      have hclose : ∀ u t b v, Db.Fits u t b → Db.Assigns u t b v → ¬ Db.Waits v t :=
        fun _ _ _ _ hfits hassigns => (hassigns.spec hfits).1
      have hqueued : tid ∈ queue.tasks := (hmem tid).mpr (hserves.open_before hgive hwaits).1
      exact hserves.nothing_left hgive hclose hqueued hwaits

/-- Before an assignment pass: two tickets, the newer one for an on-demand tag, and two
ready resources. -/
def twoWaiting : World :=
  let r (priority : Option Int) : Resource :=
    { pool := "basic"
      state := .up
      checkLastTime := 0
      tags := [{ id := "basic", priority := priority }, { id := "large", priority := none }] }
  { db :=
      { tickets := (IdTable.empty.push { tags := ["basic"] }).push { tags := ["basic", "large"] }
        resources := (IdTable.empty.push (r none)).push (r (some 5)) }
    manager := .collect { onDemandTags := ["large"], pools := [] } }

/-- The pass serves both tickets in four steps. -/
theorem assign_greedy_twoWaiting :
    ∃ w' order served, Path step anyStep twoWaiting (List.replicate 4 (.manager {})) w' ∧
      w'.manager = .wait ∧ Serves Db.Fits Db.score Db.Assigns twoWaiting.db order served w'.db := by
  have hpc : twoWaiting.manager = .collect { onDemandTags := ["large"], pools := [] } := rfl
  obtain ⟨w', order, served, hrun, hwait, -, -, hserves, -⟩ :=
    @assign_greedy _ twoWaiting hpc (List.replicate 4 {}) (by decide +kernel)
  exact ⟨w', order, served, hrun, hwait, hserves⟩

end World

end Resalloc
