import Resalloc.Server.Livechecks

/-!
# Deleting unused resources

The command {lit}`resalloc-maint resource-delete --unused` lists the ready resources in
one transaction, and kills them one by one in later ones.  A kill fails the open tickets
of its resource, whoever has assigned it in between.

Main results:

- Theorem {lit}`World.kill_harmless_iff`: what a kill needs to be harmless.
- Theorem {lit}`World.heldBy_iff_handsOut`: how a resource without a ticket gets one.
- Theorem {lit}`World.unused_harmless_iff`: when the command hurts nobody.
- Theorem {lit}`World.unused_harms`: a listed resource is assigned before it is killed.
-/

namespace Resalloc

open Foundations

namespace World

variable {u v w w' w₀ w₁ : World} {a : Action} {as : List Action} {k : ℕ} {id : ResourceId}
variable {tid : TicketId} {r r' : Resource} {ids rest : List ResourceId}

/-! ## A kill -/

/-- A step fails no ticket, and it requests the removal of no resource with a ticket. -/
structure Harmless (w w' : World) : Prop where
  tickets : ∀ {tid t t'}, w.db.tickets.get? tid = some t → w'.db.tickets.get? tid = some t' →
    t'.state = .failed → t.state = .failed
  resources : ∀ {id r r'}, w.db.resources.get? id = some r → w'.db.resources.get? id = some r' →
    r'.state = .deleteRequest → r.state = .deleteRequest ∨ r.ticketId = none

/-- A resource is UP and has a ticket. -/
def HeldBy (w : World) (id : ResourceId) (tid : TicketId) : Prop :=
  ∃ r, w.db.resources.get? id = some r ∧ r.state = .up ∧ r.ticketId = some tid

/-- The transaction of a process that still has resources to kill. -/
theorem step_kill (hnext : w.maintainers.get? k = some (id :: rest))
    (hkill : w.step (.kill k) = some w') : w'.db = Resalloc.kill w.db id := by
  simp only [step, hnext, Option.some.injEq] at hkill
  rw [← hkill]

/-- A kill hurts nobody if its resource is not in use. -/
theorem kill_harmless_iff (hlinked : Linked w.db)
    (hnext : w.maintainers.get? k = some (id :: rest)) (hkill : w.step (.kill k) = some w') :
    Harmless w w' ↔ ∀ tid, ¬ w.HeldBy id tid := by
  have hdb := step_kill hnext hkill
  constructor
  · rintro hharmless tid ⟨r, hr, hup, htid⟩
    have hr' : w'.db.resources.get? id = some r.requested := by simp [hdb, hr]
    have hrequested : r.requested.state = .deleteRequest := by simp [Resource.requested, hup]
    rcases hharmless.resources hr hr' hrequested with hstate | hnone
    · simp [hup] at hstate
    · simp [htid] at hnone
  · intro hfree
    constructor
    · intro tid t t' ht ht' hfailed
      rw [hdb, kill_ticket, ht, Option.map_some] at ht'
      obtain rfl := Option.some.inj ht'
      rcases Ticket.killedWith_failed.mp hfailed with hstate | ⟨hopened, hid⟩
      · exact hstate
      · obtain ⟨r, hr, hserves, -⟩ := hlinked.resource ht hid
        exact absurd ⟨r, hr, hserves hopened⟩ (hfree tid)
    · intro j r r' hr hr' hrequested
      rw [hdb, kill_resource, hr, Option.map_some] at hr'
      split_ifs at hr' with hj
      · obtain rfl := Option.some.inj hr'
        subst hj
        by_cases hup : r.state = .up
        · right
          by_contra hsome
          obtain ⟨tid, htid⟩ := Option.ne_none_iff_exists'.mp hsome
          exact hfree tid ⟨r, hr, hup, htid⟩
        · rw [Resource.requested, if_neg hup] at hrequested
          exact .inl hrequested
      · obtain rfl := Option.some.inj hr'
        exact .inl hrequested

/-! ## Resources that are handed out -/

/-- The step leaves the resource with this ticket. -/
def StaysHeld (id : ResourceId) (tid : TicketId) (w : World) (a : Action) : Prop :=
  ∀ w', w.step a = some w' → w'.HeldBy id tid

/-- The Manager assigns the resource in a run, and it stays with its ticket. -/
def HandsOut (w₁ w : World) (as : List Action) (id : ResourceId) (tid : TicketId) : Prop :=
  ∃ pre a post u v, as = pre ++ a :: post ∧ Path step anyStep w₁ pre u ∧
    u.assignment? a = some (id, tid) ∧ u.step a = some v ∧ Path step (StaysHeld id tid) v post w

/-- A resource gets a ticket by an assignment only. -/
theorem Inv.heldBy_cases (h : u.Inv) (hstep : u.step a = some w) (hheld : w.HeldBy id tid) :
    u.HeldBy id tid ∨ u.assignment? a = some (id, tid) := by
  obtain ⟨r', hr', hup', htid'⟩ := hheld
  have hsteps := step_cases hstep
  cases hr : u.db.resources.get? id with
  | none =>
      obtain ⟨i, c, p, rest, name, -, -, -, rfl⟩ := hsteps.created h.linked hr' hr
      simp [Pool.newResource] at hup'
  | some r =>
      obtain ⟨r₁, hr₁, hrow⟩ := hsteps.resource h.linked hr
      obtain rfl := Option.some.inj (hr'.symm.trans hr₁)
      rcases hrow.ticketId_cases htid' with htid | ⟨hassign, -⟩
      · left
        refine ⟨r, hr, ?_, htid⟩
        cases hrow with
        | same | checked | assigned => exact hup'
        | decoupled _ _ hclosing => exact hclosing.2.1
        | retired | killed | broken | terminating | ended => simp [Resource.retired] at hup'
        | started hruns =>
            have hidle := h.linked.idle hr (.inl (h.owned.starting hruns hr))
            simp [htid] at hidle
        | returned hruns =>
            have hidle := h.linked.idle hr (.inr (h.owned.releasing hruns hr))
            simp [htid] at hidle
      · exact .inr hassign

/-- A chosen resource works on its ticket after the assignment. -/
theorem heldBy_of_assignment (hassign : u.assignment? a = some (id, tid))
    (hstep : u.step a = some v) : v.HeldBy id tid := by
  obtain ⟨i, c, queue, queue', ids, -, -, -, hchoose, rfl⟩ := step_of_assignment hassign hstep
  obtain ⟨t, r, ht, hr, hup, -⟩ := chooseResource_some hchoose
  refine ⟨r.assigned tid t i.uuid.1 i.now, ?_, hup, rfl⟩
  simp [assignTicket_resource _ _ _ _ _ ht, hr]

/-- A resource that had no ticket has one now if the Manager has handed it out. -/
theorem heldBy_iff_handsOut (hinv : w₁.Inv) (hfree : ¬ w₁.HeldBy id tid)
    (hrun : Path step anyStep w₁ as w) : w.HeldBy id tid ↔ HandsOut w₁ w as id tid := by
  constructor
  · intro hheld
    induction hrun with
    | refl => exact absurd hheld hfree
    | @snoc as u w a hprev _ hstep ih =>
        have hinv' : u.Inv := hprev.invariant hinv fun _ _ _ h _ hnext => h.step hnext
        rcases hinv'.heldBy_cases hstep hheld with hbefore | hassign
        · obtain ⟨pre, b, post, x, y, rfl, hpre, hassign, hnext, hpost⟩ := ih hbefore
          refine ⟨pre, b, post ++ [a], x, y, by simp, hpre, hassign, hnext, hpost.snoc ?_ hstep⟩
          intro w' hstep'
          obtain rfl := Option.some.inj (hstep.symm.trans hstep')
          exact hheld
        · exact ⟨as, a, [], u, w, rfl, hprev, hassign, hstep, .refl⟩
  · rintro ⟨pre, a, post, u, v, -, -, hassign, hnext, hpost⟩
    apply hpost.invariant (heldBy_of_assignment hassign hnext)
    intro x b y _ hstays hstep
    exact hstays y hstep

/-! ## The command -/

/-- A process has still to kill some of the resources that it had to kill before. -/
theorem maintainers_suffix (hlist : w₁.maintainers.get? k = some ids)
    (hrun : Path step anyStep w₁ as w) :
    ∃ rest, w.maintainers.get? k = some rest ∧ rest <:+ ids := by
  induction hrun with
  | refl => exact ⟨ids, hlist, List.suffix_refl ids⟩
  | @snoc as u w a _ _ hstep ih =>
      obtain ⟨rest, hrest, hsuffix⟩ := ih
      cases step_cases hstep with
      | resourceDelete args => exact ⟨rest, IdTable.get?_push_of_some _ hrest, hsuffix⟩
      | kill j id =>
          by_cases hj : k = j
          · subst hj
            refine ⟨rest.tail, ?_, (List.tail_suffix rest).trans hsuffix⟩
            simp [hrest]
          · refine ⟨rest, ?_, hsuffix⟩
            rw [IdTable.get?_modify_of_ne hj]
            exact hrest
      | _ => exact ⟨rest, hrest, hsuffix⟩

/-- A kill of the command hurts nobody if the Manager has not handed out its resource
since the resource was listed, or the resource is out of service or without its ticket
again. -/
theorem unused_harmless_iff (hinv : w₀.Inv)
    (hlist : w₀.step (.resourceDelete .unused) = some w₁) (hrun : Path step anyStep w₁ as w)
    (hnext : w.maintainers.get? w₀.maintainers.nextId = some (id :: rest))
    (hkill : w.step (.kill w₀.maintainers.nextId) = some w') :
    Harmless w w' ↔ ∀ tid, ¬ HandsOut w₁ w as id tid := by
  have hinv₁ := hinv.step hlist
  have hlinked : Linked w.db :=
    (hrun.invariant hinv₁ fun _ _ _ h _ hstep => h.step hstep).linked
  obtain rfl := Option.some.inj hlist
  have hlisted : id ∈ resourceDelete .unused w₀.db := by
    have hpushed : (w₀.maintainers.push (resourceDelete .unused w₀.db)).get?
        w₀.maintainers.nextId = some (resourceDelete .unused w₀.db) := by
      rw [IdTable.get?_push, if_pos rfl]
    obtain ⟨ids, hids, hsuffix⟩ := maintainers_suffix hpushed hrun
    obtain rfl := Option.some.inj (hnext.symm.trans hids)
    exact hsuffix.subset List.mem_cons_self
  obtain ⟨⟨_, r⟩, hready, rfl⟩ := List.mem_map.mp hlisted
  obtain ⟨hr, -, -, hnone, -⟩ := mem_ready.mp hready
  rw [kill_harmless_iff hlinked hnext hkill]
  refine forall_congr' fun tid => not_congr (heldBy_iff_handsOut hinv₁ ?_ hrun)
  rintro ⟨r', hr', -, htid⟩
  obtain rfl := Option.some.inj (hr.symm.trans hr')
  simp [hnone] at htid

/-- The only resource of the pool has been started. -/
def readyRun : List Action :=
  ticks basicConfig 8 ++ List.replicate 3 (.worker 1 { now := 20 })

/-- The resource is listed, and a ticket is taken. -/
def listedRun : List Action := readyRun ++ [.resourceDelete .unused, .takeTicket [] none]

/-- The command lists the resource. -/
theorem step_readyRun :
    (after anyStep readyRun (by decide +kernel)).step (.resourceDelete .unused) =
      some (after anyStep (readyRun ++ [.resourceDelete .unused]) (by decide +kernel)) := by
  decide +kernel

/-- It is the first command. -/
theorem nextId_readyRun :
    (after anyStep readyRun (by decide +kernel)).maintainers.nextId = 1 := by
  decide +kernel

/-- A ticket is taken and the Manager moves meanwhile. -/
def beganRun : List Action := .takeTicket [] none :: ticks basicConfig 3

/-- The resource has no ticket yet when it is killed. -/
theorem unused_harmless_listedRun :
    Harmless (after anyStep (listedRun ++ ticks basicConfig 3) (by decide +kernel))
      (after anyStep (listedRun ++ ticks basicConfig 3 ++ [.kill 1]) (by decide +kernel)) := by
  have hready := reaches_after anyStep readyRun (by decide +kernel)
  have hrun : Path step anyStep
      (after anyStep (readyRun ++ [.resourceDelete .unused]) (by decide +kernel)) beganRun
      (after anyStep (listedRun ++ ticks basicConfig 3) (by decide +kernel)) :=
    Path.of_execWithin (by decide +kernel)
  have hkill : (after anyStep (listedRun ++ ticks basicConfig 3) (by decide +kernel)).step
      (.kill 1) = some (after anyStep (listedRun ++ ticks basicConfig 3 ++ [.kill 1])
        (by decide +kernel)) := by
    decide +kernel
  -- none of these steps assigns a resource
  have hnone : observe assignment? step
      (after anyStep (readyRun ++ [.resourceDelete .unused]) (by decide +kernel)) beganRun =
      [] := by decide +kernel
  refine (@unused_harmless_iff _ _ _ _ _ 1 [] hready.inv step_readyRun hrun (by decide +kernel)
    (by rw [nextId_readyRun, hkill])).mpr ?_
  rintro tid ⟨pre, a, post, u, v, hsplit, hpre, hassign, -⟩
  rw [hsplit, hpre.observe_append, observe, hassign] at hnone
  simp at hnone

/-- The Manager assigns the listed resource before it is killed, and the ticket fails. -/
theorem unused_harms :
    ¬ ∀ as₀ as w₀ w₁ w w', Reaches anyStep as₀ w₀ →
      w₀.step (.resourceDelete .unused) = some w₁ → Path step anyStep w₁ as w →
      w.step (.kill w₀.maintainers.nextId) = some w' → Harmless w w' := by
  intro h
  have hready := reaches_after anyStep readyRun (by decide +kernel)
  have hrun : Path step anyStep
      (after anyStep (readyRun ++ [.resourceDelete .unused]) (by decide +kernel))
      (.takeTicket [] none :: ticks basicConfig 12)
      (after anyStep (listedRun ++ ticks basicConfig 12) (by decide +kernel)) :=
    Path.of_execWithin (by decide +kernel)
  have hkill : (after anyStep (listedRun ++ ticks basicConfig 12) (by decide +kernel)).step
      (.kill 1) = some (after anyStep (listedRun ++ ticks basicConfig 12 ++ [.kill 1])
        (by decide +kernel)) := by
    decide +kernel
  have hharmless := h _ _ _ _ _ _ hready step_readyRun hrun (by rw [nextId_readyRun, hkill])
  have hbefore : ((after anyStep (listedRun ++ ticks basicConfig 12)
      (by decide +kernel)).db.tickets.get? 1).any (fun t => t.state = .opened) = true := by
    decide +kernel
  have hafter : ((after anyStep (listedRun ++ ticks basicConfig 12 ++ [.kill 1])
      (by decide +kernel)).db.tickets.get? 1).any (fun t => t.state = .failed) = true := by
    decide +kernel
  obtain ⟨t, ht, hopened⟩ := (Option.any_eq_true _ _).mp hbefore
  obtain ⟨t', ht', hfailed⟩ := (Option.any_eq_true _ _).mp hafter
  rw [decide_eq_true_eq] at hopened hfailed
  have hstate := hharmless.tickets ht ht' hfailed
  simp [hopened] at hstate

end World

end Resalloc
