import Resalloc.Server.Greedy
import Resalloc.Server.Livechecks

/-!
# Older tickets come first

{lit}`_assign_tickets` remembers the resources that are ready when it fills its queue.
While it runs, other parties make resources ready and unusable, but a remembered one that is
not ready now was not ready at any later turn either.  A newer ticket gets none that the
older one could have used.

Main results:

- Theorem {lit}`World.Inv.fits_before`: a remembered resource that fits a ticket after a step
  has fitted it before.
- Theorem {lit}`World.no_overtaking`: what a newer ticket gets did not fit the older one.
-/

namespace Resalloc

open Foundations

namespace World

variable {w w' : World} {a : Action} {as : List Action} {id : ResourceId} {tid : TicketId}
variable {r r' : Resource} {t : Ticket} {c : Cycle} {ids : List ResourceId}

/-- A step of the running assignment pass or of another party meanwhile, which records no
passing livecheck. -/
def InPass (w : World) (a : Action) : Prop :=
  (∃ c queue ids, w.manager = .assign c queue ids) ∧ ∀ id, w.check? id a ≠ some 0

/-- A step that assigns nothing to a ticket. -/
def Skips (tid : TicketId) (w : World) (a : Action) : Prop :=
  ∀ id, w.assignment? a ≠ some (id, tid)

/-! ## Remembered resources -/

/-- The resource was ready when the pass began: it is UP or leaves. -/
def Remembered (w : World) (id : ResourceId) : Prop :=
  ∃ r, w.db.resources.get? id = some r ∧ r.state ≠ .starting ∧ r.state ≠ .releasing

/-- During the pass, a remembered resource does not begin to fit a ticket. -/
theorem Inv.fits_before (h : w.Inv) (hpass : w.InPass a) (hstep : w.step a = some w')
    (hremembered : w.Remembered id) : w'.Remembered id ∧
      ∀ r', w'.db.resources.get? id = some r' →
        ∃ r, w.db.resources.get? id = some r ∧ ∀ t, Fits r' t → Fits r t := by
  obtain ⟨⟨c, queue, ids, hpc⟩, hchecks⟩ := hpass
  obtain ⟨r, hr, hstarting, hreleasing⟩ := hremembered
  obtain ⟨r', hr', hrow⟩ := (step_cases hstep).resource h.linked hr
  have hcount := h.count_step hstep hr hr'
  have hboth : (r'.state ≠ .starting ∧ r'.state ≠ .releasing) ∧ ∀ t, Fits r' t → Fits r t := by
    cases hrow with
    | same => exact ⟨⟨hstarting, hreleasing⟩, fun _ hfits => hfits⟩
    | checked i status =>
        refine ⟨⟨hstarting, hreleasing⟩, fun t hfits => ?_⟩
        have hchecked : r.checkFailedCount = 0 := by
          rw [hfits.checked] at hcount
          unfold countAfter at hcount
          split at hcount
          next => exact hcount.symm
          next hcheck =>
            split_ifs at hcount with hpassed
            exact absurd (hpassed ▸ hcheck) (hchecks id)
        exact ⟨hfits.up, hfits.free, hchecked, hfits.tags, hfits.sandbox⟩
    | decoupled i hdetect | retired i hdetect =>
        rw [hpc] at hdetect
        contradiction
    | assigned =>
        refine ⟨⟨hstarting, hreleasing⟩, fun t hfits => ?_⟩
        exact absurd hfits.free (by simp [Resource.assigned])
    | killed | broken | terminating | ended =>
        constructor
        · constructor <;> simp [Resource.retired]
        · intro t hfits
          have hup := hfits.up
          contradiction
    | started hruns => exact absurd (h.owned.starting hruns hr) hstarting
    | returned hruns => exact absurd (h.owned.releasing hruns hr) hreleasing
  refine ⟨⟨r', hr', hboth.1⟩, fun r'' hr'' => ?_⟩
  obtain rfl := Option.some.inj (hr'.symm.trans hr'')
  exact ⟨r, hr, hboth.2⟩

/-! ## The turn of a ticket -/

/-- The queue of the pass is in order, and a ticket waits for its turn or fits no remembered
resource. -/
structure Turns (ids : List ResourceId) (before : TicketId → TicketId → Prop) (tid : TicketId)
    (t : Ticket) (w : World) : Prop where
  inv : w.Inv
  remembered : ∀ id ∈ ids, w.Remembered id
  ticket : ∃ t', w.db.tickets.get? tid = some t' ∧ t'.tags = t.tags ∧ t'.sandbox = t.sandbox
  queue : ∀ c queue ids', w.manager = .assign c queue ids' →
    ids' = ids ∧ queue.tasks.Pairwise before ∧
      (tid ∈ queue.tasks ∨ ∀ id ∈ ids, ∀ r, w.db.resources.get? id = some r → ¬ Fits r t)

/-- What a step does to a ticket it does not assign. -/
theorem TicketSteps.kept {t t' : Ticket} (h : w.TicketSteps tid t a t') (hskips : w.Skips tid a) :
    t'.tags = t.tags ∧ t'.sandbox = t.sandbox := by
  cases h with
  | assigned i hassign => exact absurd hassign (hskips _)
  | _ => exact ⟨rfl, rfl⟩

/-- At the beginning of the pass, every waiting ticket waits for its turn. -/
theorem Inv.turns_collect (h : w.Inv) (hpc : w.manager = .collect c) {i : Input}
    (hstep : w.step (.manager i) = some w') (ht : (tid, t) ∈ QTickets.waiting w.db) :
    ∃ ids, Turns ids (w.db.ServedBefore c.onDemandTags) tid t w' := by
  obtain ⟨-, hmem, hready⟩ := collectQueue_spec c.onDemandTags w.db
  have horder := (collectQueue_order c.onDemandTags w.db).1
  have hinv : w'.Inv := h.step hstep
  simp only [World.step, hpc, ManagerPc.step] at hstep
  obtain rfl := Option.some.inj hstep
  refine ⟨(collectQueue c.onDemandTags w.db).2, hinv, ?_, ⟨t, (mem_waiting.mp ht).1, rfl, rfl⟩, ?_⟩
  · intro id hid
    rw [hready] at hid
    obtain ⟨⟨_, r⟩, he, rfl⟩ := List.mem_map.mp hid
    obtain ⟨hr, -, hup, -⟩ := mem_ready.mp he
    exact ⟨r, hr, by simp [hup], by simp [hup]⟩
  · rintro _ _ _ ⟨⟩
    exact ⟨rfl, horder, .inl ((hmem tid).mpr ⟨t, ht⟩)⟩

/-- A ticket that gets nothing in its turn fits no remembered resource, then and for the
rest of the pass. -/
theorem Turns.step {before : TicketId → TicketId → Prop} (h : Turns ids before tid t w)
    (hpass : w.InPass a) (hskips : w.Skips tid a) (hstep : w.step a = some w') :
    Turns ids before tid t w' := by
  have hsteps := step_cases hstep
  obtain ⟨t₀, ht₀, htags, hsandbox⟩ := h.ticket
  have hfits_before : ∀ id ∈ ids, ∀ r', w'.db.resources.get? id = some r' →
      ∃ r, w.db.resources.get? id = some r ∧ ∀ t, Fits r' t → Fits r t :=
    fun id hid => (h.inv.fits_before hpass hstep (h.remembered id hid)).2
  -- what did not fit before the step does not fit after it
  have hnone : (∀ id ∈ ids, ∀ r, w.db.resources.get? id = some r → ¬ Fits r t) →
      ∀ id ∈ ids, ∀ r', w'.db.resources.get? id = some r' → ¬ Fits r' t := by
    intro hold id hid r' hr' hfits
    obtain ⟨r, hr, hbefore⟩ := hfits_before id hid r' hr'
    exact hold id hid r hr (hbefore t hfits)
  constructor
  · exact h.inv.step hstep
  · exact fun id hid => (h.inv.fits_before hpass hstep (h.remembered id hid)).1
  · obtain ⟨t', ht', hrow⟩ := hsteps.ticket h.inv.linked ht₀
    obtain ⟨htags', hsandbox'⟩ := hrow.kept hskips
    exact ⟨t', ht', htags'.trans htags, hsandbox'.trans hsandbox⟩
  · intro c queue ids' hpc'
    obtain ⟨hpc, -⟩ | ⟨i, -, hcollect, -⟩ | ⟨i, first, old, rfl, hpc, hpop, hround⟩ :=
      hsteps.assign_cases hpc'
    · obtain ⟨rfl, horder, hturn⟩ := h.queue _ _ _ hpc
      exact ⟨rfl, horder, hturn.imp_right hnone⟩
    · obtain ⟨⟨_, _, _, hpc⟩, -⟩ := hpass
      rw [hcollect] at hpc
      contradiction
    · obtain ⟨rfl, horder, hturn⟩ := h.queue _ _ _ hpc
      obtain ⟨-, htasks⟩ := (h.inv.queued.wf hpc).popTask_some hpop
      rw [htasks] at horder hturn
      refine ⟨rfl, (List.pairwise_cons.mp horder).2, ?_⟩
      obtain hwaits | hold := hturn
      · obtain rfl | hrest := List.mem_cons.mp hwaits
        · -- the ticket's own turn
          right
          apply hnone
          intro id hid r hr hfits
          have hchoose : chooseResource tid ids' w.db = none := by
            rw [Option.eq_none_iff_forall_ne_some]
            intro id' hchoose
            exact hskips id' (assignment?_of_assign hpc hpop hchoose i)
          have hready : (id, r) ∈ QResources.ready w.db none :=
            mem_ready.mpr ⟨hr, fun h => by simp at h, hfits.up, hfits.free, hfits.checked⟩
          apply chooseResource_eq_none ht₀ hchoose hready
          refine ⟨hid, ?_, htags ▸ hfits.tags⟩
          rintro ⟨htruthy, hne⟩
          obtain hfalse | heq := hfits.sandbox
          · simp [hfalse] at htruthy
          · exact hne (hsandbox ▸ heq)
        · exact .inl hrest
      · exact .inr (hnone hold)

/-! ## Two tickets -/

/-- If the pass assigns a resource to a ticket and has assigned nothing to an older one
that was queued with the same preference, then the resource was not usable for the older
ticket: a requested tag is missing, or it is in another sandbox. -/
theorem no_overtaking {u v : World} (hinv : w.Inv) (hpc : w.manager = .collect c) {i : Input}
    (hcollect : w.step (.manager i) = some v) {older newer : TicketId} (hlt : older < newer)
    (hwaits : w.db.Waits older) (hsame : w.db.WantsOnDemand c.onDemandTags older ↔
      w.db.WantsOnDemand c.onDemandTags newer)
    (hrun : Path step (fun u b => u.InPass b ∧ u.Skips older b) v as u)
    (hassign : u.assignment? a = some (id, newer)) :
    ∃ r t, u.db.resources.get? id = some r ∧ u.db.tickets.get? older = some t ∧
      ((∃ tag ∈ t.tags, tag ∉ r.tagSet) ∨ truthy r.sandbox = true ∧ r.sandbox ≠ t.sandbox) := by
  obtain ⟨t₀, ht₀⟩ := hwaits
  obtain ⟨ids, hturns⟩ := hinv.turns_collect hpc hcollect ht₀
  have hend : Turns ids (w.db.ServedBefore c.onDemandTags) older t₀ u :=
    hrun.invariant hturns fun _ _ _ hu hok hstep => hu.step hok.1 hok.2 hstep
  obtain ⟨t, ht, htags, hsandbox⟩ := hend.ticket
  obtain ⟨i, c', queue, ids', queue', rfl, hpc', hpop, hchoose⟩ := assignment?_some hassign
  obtain ⟨rfl, horder, hturn⟩ := hend.queue _ _ _ hpc'
  obtain ⟨-, htasks⟩ := (hend.inv.queued.wf hpc').popTask_some hpop
  obtain ⟨tnew, r, -, hr, hup, hfree, hchecked, hmem, -⟩ := chooseResource_some hchoose
  refine ⟨r, t, hr, ht, ?_⟩
  rw [htasks] at horder hturn
  obtain hwaits | hnone := hturn
  · -- the older ticket would have been served first
    obtain rfl | hrest := List.mem_cons.mp hwaits
    · exact absurd hlt (lt_irrefl _)
    · obtain ⟨hnew, hold⟩ | ⟨-, hnew⟩ := (List.pairwise_cons.mp horder).1 older hrest
      · exact absurd (hsame.mpr hnew) hold
      · exact absurd hnew hlt.asymm
  · by_contra husable
    simp only [not_or, not_exists, not_and, not_not] at husable
    obtain ⟨hall, hbox⟩ := husable
    apply hnone id hmem r hr
    refine ⟨hup, hfree, hchecked, htags ▸ hall, ?_⟩
    cases htruthy : truthy r.sandbox with
    | false => exact .inl rfl
    | true => exact .inr (hsandbox ▸ hbox htruthy)

/-- A ticket with a tag that no pool gives and a newer ticket wait for an assignment pass,
and a resource is ready. -/
def unmatchedRun : List Action :=
  .takeTicket ["other"] none :: .takeTicket [] none :: ticks basicConfig 8 ++
    List.replicate 3 (.worker 1 { now := 20 }) ++ ticks basicConfig 2

/-- The cycle of this pass. -/
def unmatchedCycle : Cycle :=
  { onDemandTags := [], pools := [basicPool], removalClock := [("basic", 10)] }

/-- The pass begins. -/
def unmatched : World := after anyStep unmatchedRun (by decide +kernel)

/-- Both tickets are queued. -/
def unmatchedQueued : World :=
  after anyStep (unmatchedRun ++ ticks basicConfig 1) (by decide +kernel)

/-- The older ticket had its turn. -/
def unmatchedSkipped : World :=
  after anyStep (unmatchedRun ++ ticks basicConfig 2) (by decide +kernel)

/-- The newer ticket gets the resource, which lacks the tag of the older one. -/
theorem no_overtaking_unmatched : ∃ r t, unmatchedSkipped.db.resources.get? 1 = some r ∧
    unmatchedSkipped.db.tickets.get? 1 = some t ∧
    ((∃ tag ∈ t.tags, tag ∉ r.tagSet) ∨ truthy r.sandbox = true ∧ r.sandbox ≠ t.sandbox) := by
  have hinv : unmatched.Inv := Reaches.inv (reaches_after anyStep unmatchedRun (by decide +kernel))
  have hpc : unmatched.manager = .collect unmatchedCycle := by decide +kernel
  have hcollect : unmatched.step (.manager { now := 10, config := some basicConfig }) =
      some unmatchedQueued := by decide +kernel
  have hround : unmatchedQueued.step (.manager { now := 10, config := some basicConfig }) =
      some unmatchedSkipped := by decide +kernel
  have hpass : unmatchedQueued.InPass (.manager { now := 10, config := some basicConfig }) := by
    simp only [step, hpc, ManagerPc.step] at hcollect
    rw [← Option.some.inj hcollect]
    exact ⟨⟨_, _, _, rfl⟩, fun id => by simp [check?]⟩
  have hnothing : unmatchedQueued.assignment?
      (.manager { now := 10, config := some basicConfig }) = none := by decide +kernel
  have hskips : unmatchedQueued.Skips 1 (.manager { now := 10, config := some basicConfig }) :=
    fun id => by simp [hnothing]
  have hassign : unmatchedSkipped.assignment? (.manager {}) = some (1, 2) := by decide +kernel
  have hwaits : unmatched.db.Waits 1 := ⟨{ tags := ["other"] }, by decide +kernel⟩
  exact no_overtaking hinv hpc hcollect Nat.one_lt_two hwaits (by decide +kernel)
    (Path.single ⟨hpass, hskips⟩ hround) hassign

end World

end Resalloc
