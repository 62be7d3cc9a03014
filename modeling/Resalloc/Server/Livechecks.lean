import Resalloc.Server.Serving

/-!
# Failed tickets and livechecks

A ticket fails when its resource is killed: by a maintainer, or by the removal pass
after too many failing livechecks in a row.  The number of failures is a column of
the resource, which outlives the ticket, and the watcher writes it at any time.

What keeps the failures of an earlier holder from being charged to a later ticket is
the readiness test: a resource is given away only with a count of zero, and from then
on the count is the number of failures since the last success.

Main results:

- Theorem {lit}`Linked.removal_tickets`: which tickets a removal pass fails.
- Theorem {lit}`World.Reaches.counted_checks`: where the count of a used resource
  comes from.
- Theorem {lit}`World.Reaches.failed_for_cause`: every step that fails a ticket has a
  cause.
- Theorem {lit}`World.fails_together`: one removal pass may fail the tickets of several
  resources.
-/

namespace Resalloc

open Foundations

/-! ## The removal pass -/

section Removal

variable {p : Pool} {now : Time} {db db' : Db} {tid : TicketId} {t : Ticket}

/-- A ticket that the loop over the failing livechecks writes is an open one of a
resource with too many failures. -/
theorem foldl_removeIfFailing_ticket (ids : List ResourceId)
    (ht : db.tickets.get? tid = some t) :
    (ids.foldl p.removeIfFailing db).tickets.get? tid = some t ∨
      ∃ id ∈ ids, ∃ r, t.resourceId = some id ∧ t.state = .opened ∧
        db.resources.get? id = some r ∧ p.livecheckAttempts ≤ r.checkFailedCount ∧
        (ids.foldl p.removeIfFailing db).tickets.get? tid = some { t with state := .failed } := by
  induction ids generalizing db t with
  | nil => exact .inl ht
  | cons id ids ih =>
      rw [List.foldl_cons]
      have hround : p.removeIfFailing db id = db ∨
          ∃ r, db.resources.get? id = some r ∧ p.livecheckAttempts ≤ r.checkFailedCount ∧
            p.removeIfFailing db id = kill db id := by
        unfold Pool.removeIfFailing
        split
        · exact .inl rfl
        next r hr =>
          split_ifs with hattempts
          · exact .inr ⟨r, hr, hattempts, rfl⟩
          · exact .inl rfl
      rcases hround with heq | ⟨r, hr, hattempts, heq⟩
      · rw [heq]
        rcases ih ht with hsame | ⟨j, hj, hrest⟩
        · exact .inl hsame
        · exact .inr ⟨j, List.mem_cons_of_mem _ hj, hrest⟩
      · rw [heq]
        by_cases hkilled : t.resourceId = some id ∧ t.state = .opened
        · -- a failed ticket is not written again
          have ht' : (kill db id).tickets.get? tid = some { t with state := .failed } := by
            simp [ht, Ticket.killedWith, hkilled]
          refine .inr ⟨id, List.mem_cons_self, r, hkilled.1, hkilled.2, hr, hattempts, ?_⟩
          rcases ih ht' with hsame | ⟨_, _, _, _, hopened, _⟩
          · exact hsame
          · contradiction
        · have ht' : (kill db id).tickets.get? tid = some t := by
            simp [ht, Ticket.killedWith, hkilled]
          rcases ih ht' with hsame | ⟨j, hj, q, hid, hopened, hq, hrest⟩
          · exact .inl hsame
          · have hne : j ≠ id := by
              rintro rfl
              exact hkilled ⟨hid, hopened⟩
            rw [kill_resource, if_neg hne] at hq
            exact .inr ⟨j, List.mem_cons_of_mem _ hj, q, hid, hopened, hq, hrest⟩

/-- The later parts of a removal pass write no tickets. -/
theorem requestResourceRemoval_tickets (h : p.requestResourceRemoval now db = .ok db') :
    db'.tickets = (((QResources.checkFailureCandidates db (some p.name)).map Prod.fst).foldl
      p.removeIfFailing db).tickets := by
  simp only [Pool.requestResourceRemoval] at h
  split at h
  next => contradiction
  next db₂ hreleased =>
    obtain rfl := Except.ok.inj h
    have htickets : db₂.tickets = _ := foldlM_ok_invariant
      (P := fun d => d.tickets = (((QResources.checkFailureCandidates db (some p.name)).map
        Prod.fst).foldl p.removeIfFailing db).tickets) hreleased rfl
      fun d hd id _ d' hround => by
        unfold Pool.removeIfUnusable at hround
        split at hround
        next => exact Except.ok.inj hround ▸ hd
        next =>
          split at hround
          next => contradiction
          next => exact Except.ok.inj hround ▸ hd
          next => exact Except.ok.inj hround ▸ hd
    refine Eq.trans ?_ htickets
    unfold Pool.requestOnDemandResourcesRemoval
    split_ifs
    · rfl
    · simp only
      rw [foldl_retire_frame]

/-- The resource that a failing ticket has in a removal pass. -/
structure Pool.Condemns (p : Pool) (db db' : Db) (tid : TicketId) (t : Ticket)
    (id : ResourceId) (r : Resource) : Prop where
  link : t.resourceId = some id
  opened : t.state = .opened
  row : db.resources.get? id = some r
  up : r.state = .up
  holds : r.ticketId = some tid
  failing : 0 < r.checkFailedCount
  attempts : p.livecheckAttempts ≤ r.checkFailedCount
  retired : db'.resources.get? id = some r.retired
  failed : db'.tickets.get? tid = some { t with state := .failed }

/-- A removal pass fails the open tickets of resources with too many failures, and
writes no other ticket. -/
theorem Linked.removal_tickets (h : Linked db)
    (hremoval : p.requestResourceRemoval now db = .ok db') (ht : db.tickets.get? tid = some t) :
    db'.tickets.get? tid = some t ∨ ∃ id r, p.Condemns db db' tid t id r := by
  have htickets := requestResourceRemoval_tickets hremoval
  have hremoves := h.removes hremoval
  rcases foldl_removeIfFailing_ticket (p := p)
      ((QResources.checkFailureCandidates db (some p.name)).map Prod.fst) ht with
    hsame | ⟨id, hid, r, hlink, hopened, hr, hattempts, hfailed⟩
  · exact .inl (htickets ▸ hsame)
  · rw [← htickets] at hfailed
    obtain ⟨⟨_, r'⟩, he, rfl⟩ := List.mem_map.mp hid
    obtain ⟨hr', -, hup, hfailing⟩ := mem_checkFailureCandidates.mp he
    obtain rfl := Option.some.inj (hr.symm.trans hr')
    obtain ⟨r₁, hr₁, hholds, -⟩ := h.resource ht hlink
    obtain rfl := Option.some.inj (hr.symm.trans hr₁)
    refine .inr ⟨_, r, hlink, hopened, hr, hup, (hholds hopened).2, hfailing, hattempts, ?_,
      hfailed⟩
    -- the resource of a failed ticket is leaving, so the pass has written its row
    rcases hremoves.retires.kept hr with hkept | ⟨-, -, hretired⟩
    · obtain ⟨r₂, hr₂, -, hleaving⟩ := hremoves.linked.resource hfailed hlink
      obtain rfl := Option.some.inj (hkept.symm.trans hr₂)
      simp [hup, RState.leaving] at hleaving
    · exact hretired

end Removal

namespace World

variable {w w' : World} {a : Action} {as : List Action} {id : ResourceId} {tid : TicketId}
variable {r r' : Resource} {t t' : Ticket}

/-! ## Recorded results -/

/-- The result of a livecheck of a resource that an action records. -/
def check? (id : ResourceId) (w : World) (a : Action) : Option Int :=
  match a, w.watcher with
  | .watcher i, .record item status _ =>
      if i.raises = false ∧ item.resourceId = id ∧ (w.db.resources.get? id).isSome then some status
      else none
  | _, _ => none

/-- The results for a resource that a run records. -/
def checks (id : ResourceId) (w : World) (as : List Action) : List Int :=
  observe (check? id) step w as

/-- The count of failures after an action. -/
def countAfter (id : ResourceId) (w : World) (a : Action) (count : ℕ) : ℕ :=
  match w.check? id a with
  | none => count
  | some status => if status = 0 then 0 else count + 1

/-- The watcher writes the result of a check into the row of its resource. -/
theorem watcher_row (i : Input) (hr : w.db.resources.get? id = some r) :
    ∃ r', (w.watcher.step i w.db).1.resources.get? id = some r' ∧
      r'.checkFailedCount = w.countAfter id (.watcher i) r.checkFailedCount := by
  unfold WatcherPc.step countAfter check?
  cases hraises : i.raises with
  | true => cases w.watcher <;> simp [hr, hraises]
  | false =>
      simp only [Bool.false_eq_true, if_false]
      cases w.watcher with
      | sleep => cases i.config <;> exact ⟨r, hr, rfl⟩
      | check items =>
          cases items with
          | nil => exact ⟨r, hr, rfl⟩
          | cons item rest =>
              simp only
              split_ifs <;> exact ⟨r, hr, rfl⟩
      | record item status rest =>
          simp only
          by_cases hid : item.resourceId = id
          · subst hid
            refine ⟨r.checked i.now status, by simp [hr], ?_⟩
            simp [hr, hraises, Resource.checked]
          · refine ⟨r, ?_, by simp [hid]⟩
            split
            · exact hr
            · simp [IdTable.get?_modify_of_ne (Ne.symm hid), hr]

/-- Only recorded results change the count of failures. -/
theorem Inv.count_step (h : w.Inv) (hstep : w.step a = some w')
    (hr : w.db.resources.get? id = some r) (hr' : w'.db.resources.get? id = some r') :
    r'.checkFailedCount = w.countAfter id a r.checkFailedCount := by
  by_cases hwatcher : ∃ i, a = .watcher i
  · obtain ⟨i, rfl⟩ := hwatcher
    obtain rfl := Option.some.inj hstep
    obtain ⟨r₁, hr₁, hcount⟩ := watcher_row i hr
    obtain rfl := Option.some.inj (hr'.symm.trans hr₁)
    exact hcount
  · obtain ⟨r₁, hr₁, hrow⟩ := (step_cases hstep).resource h.linked hr
    obtain rfl := Option.some.inj (hr'.symm.trans hr₁)
    have hnone : w.check? id a = none := by
      cases a <;> simp_all [check?]
    simp only [countAfter, hnone]
    cases hrow with
    | checked i => exact absurd ⟨i, rfl⟩ hwatcher
    | _ => rfl

/-! ## Where the count of a used resource comes from -/

/-- The last results of a list are failures, and there are as many of them. -/
def FailsLast (count : ℕ) (results : List Int) : Prop :=
  ∃ before fails, results = before ++ fails ∧ fails.length = count ∧ ∀ s ∈ fails, s ≠ 0

/-- One more step keeps the count the number of the last failures. -/
theorem FailsLast.step {count : ℕ} {results : List Int} (h : FailsLast count results) :
    FailsLast (w.countAfter id a count) (results ++ (w.check? id a).toList) := by
  obtain ⟨before, fails, rfl, hlength, hfails⟩ := h
  unfold countAfter
  cases w.check? id a with
  | none => exact ⟨before, fails, by simp, hlength, hfails⟩
  | some status =>
      by_cases hstatus : status = 0
      · exact ⟨before ++ fails ++ [status], [], by simp, by simp [hstatus], by simp⟩
      · refine ⟨before, fails ++ [status], by simp, by simp [hstatus, hlength], fun s hs => ?_⟩
        rcases List.mem_append.mp hs with hs | hs
        · exact hfails s hs
        · exact List.mem_singleton.mp hs ▸ hstatus

/-- A run has assigned the resource to the ticket, and since then the last results
recorded for the resource were failures, this many. -/
def FailsSince (as : List Action) (w : World) (id : ResourceId) (tid : TicketId) (count : ℕ) :
    Prop :=
  ∃ pre a post u v, as = pre ++ a :: post ∧ Reaches anyStep pre u ∧
    u.assignment? a = some (id, tid) ∧ u.step a = some v ∧ Path step anyStep v post w ∧
    FailsLast count (checks id v post)

/-- One more step after the assignment. -/
theorem FailsSince.snoc {count : ℕ} (h : FailsSince as w id tid count)
    (hstep : w.step a = some w') :
    FailsSince (as ++ [a]) w' id tid (w.countAfter id a count) := by
  obtain ⟨pre, b, post, u, v, rfl, hpre, hassign, hnext, hpost, hfails⟩ := h
  refine ⟨pre, b, post ++ [a], u, v, by simp, hpre, hassign, hnext,
    .snoc hpost trivial hstep, ?_⟩
  rw [checks, hpost.observe_snoc (check? id) hstep]
  exact hfails.step

/-- An action gives a ticket to a resource by an assignment only. -/
theorem ResourceSteps.ticketId_cases (h : w.ResourceSteps id r a r')
    (htid : r'.ticketId = some tid) :
    r.ticketId = some tid ∨ w.assignment? a = some (id, tid) ∧ r'.checkFailedCount =
      r.checkFailedCount := by
  cases h with
  | assigned i hassign =>
      obtain rfl := Option.some.inj htid
      exact .inr ⟨hassign, rfl⟩
  | decoupled =>
      simp only [Resource.decoupled, Resource.released] at htid
      contradiction
  | _ => exact .inl htid

/-- The failures a resource counts while it works on a ticket were all recorded since
it was assigned to this ticket. -/
theorem Reaches.counted_checks (h : Reaches anyStep as w) :
    ∀ {id r tid}, w.db.resources.get? id = some r → r.ticketId = some tid →
      FailsSince as w id tid r.checkFailedCount := by
  induction h with
  | refl =>
      intro id r tid hr
      simp [init] at hr
  | @snoc as u w' a hprev hok hstep ih =>
      intro id r' tid hr' htid
      have hinv := Reaches.inv hprev
      cases hr : u.db.resources.get? id with
      | none =>
          obtain ⟨_, _, _, _, _, -, -, -, rfl⟩ := (step_cases hstep).created hinv.linked hr' hr
          simp [Pool.newResource] at htid
      | some r =>
          obtain ⟨r₁, hr₁, hrow⟩ := (step_cases hstep).resource hinv.linked hr
          obtain rfl := Option.some.inj (hr'.symm.trans hr₁)
          rcases hrow.ticketId_cases htid with hold | ⟨hassign, hcount⟩
          · rw [hinv.count_step hstep hr hr']
            exact (ih hr hold).snoc hstep
          · -- a resource that is given away counts no failures
            obtain ⟨q, _, hq, -, hfits, -⟩ := Reaches.fits hprev hassign
            obtain rfl := Option.some.inj (hr.symm.trans hq)
            rw [hcount, hfits.checked]
            exact ⟨as, a, [], u, w', rfl, hprev, hassign, hstep, .refl, [], [], rfl, rfl, by simp⟩

/-! ## Causes -/

/-- A maintainer kills a resource: only its tickets are written. -/
def Kills (w : World) (a : Action) (w' : World) (id : ResourceId) : Prop :=
  ∃ k rest, a = .kill k ∧ w.maintainers.get? k = some (id :: rest) ∧
    ∀ tid t, w.db.tickets.get? tid = some t → t.resourceId ≠ some id →
      w'.db.tickets.get? tid = some t

/-- The removal pass of a pool condemns a resource, because the last livechecks since
the assignment to its ticket have failed. -/
def Condemned (as : List Action) (w : World) (a : Action) (id : ResourceId) (tid : TicketId) :
    Prop :=
  ∃ i c p rest, ∃ count : ℕ, a = .manager i ∧ w.manager = .removal c p rest ∧
    1 ≤ count ∧ p.livecheckAttempts ≤ (count : Int) ∧ FailsSince as w id tid count

/-- The tickets that a step writes if it fails one of them: open ones, which become
failed, with a resource that the step moves from UP to DELETE_REQUEST. -/
structure FailsWith (as : List Action) (w : World) (a : Action) (w' : World) (tid : TicketId)
    (t : Ticket) (id : ResourceId) (r : Resource) : Prop where
  link : t.resourceId = some id
  opened : t.state = .opened
  row : w.db.resources.get? id = some r
  up : r.state = .up
  retired : w'.db.resources.get? id = some { r with state := .deleteRequest }
  failed : w'.db.tickets.get? tid = some { t with state := .failed }
  cause : w.Kills a w' id ∨ Condemned as w a id tid

/-- A kill by a maintainer. -/
theorem kill_inv {k : ℕ} (hstep : w.step (.kill k) = some w') :
    ∃ id rest, w.maintainers.get? k = some (id :: rest) ∧ w'.db = Resalloc.kill w.db id := by
  simp only [step] at hstep
  split at hstep
  next id rest hk =>
    obtain rfl := Option.some.inj hstep
    exact ⟨id, rest, hk, rfl⟩
  next => contradiction

/-- A step that fails a ticket writes no other kind of tickets. -/
theorem Reaches.ticket_cases (h : Reaches anyStep as w) (hstep : w.step a = some w')
    (hcause : (∃ k, a = .kill k) ∨ ∃ i c p rest, a = .manager i ∧ w.manager = .removal c p rest)
    (ht : w.db.tickets.get? tid = some t) :
    w'.db.tickets.get? tid = some t ∨ ∃ id r, FailsWith as w a w' tid t id r := by
  have hlinked := h.inv.linked
  rcases hcause with ⟨k, rfl⟩ | ⟨i, c, p, rest, rfl, hpc⟩
  · obtain ⟨id, rest, hk, hdb⟩ := kill_inv hstep
    by_cases hkilled : t.resourceId = some id ∧ t.state = .opened
    · obtain ⟨r, hr, hup, -⟩ := hlinked.resource ht hkilled.1
      refine .inr ⟨id, r, hkilled.1, hkilled.2, hr, (hup hkilled.2).1, ?_, ?_, .inl ?_⟩
      · simp [hdb, hr, Resource.requested, (hup hkilled.2).1]
      · simp [hdb, ht, Ticket.killedWith, hkilled]
      · refine ⟨k, rest, rfl, hk, fun tid t ht hne => ?_⟩
        simp [hdb, ht, Ticket.killedWith, hne]
    · exact .inl (by simp [hdb, ht, Ticket.killedWith, hkilled])
  · cases step_cases hstep with
    | manager hmanager =>
        rw [hpc] at hmanager
        cases hmanager with
        | stop => exact .inl ht
        | removal hremoval =>
            rcases hlinked.removal_tickets hremoval ht with hsame | ⟨id, r, hcondemns⟩
            · exact .inl hsame
            · have hsince := h.counted_checks hcondemns.row hcondemns.holds
              exact .inr ⟨id, r, hcondemns.link, hcondemns.opened, hcondemns.row, hcondemns.up,
                hcondemns.retired, hcondemns.failed, .inr ⟨i, c, p, rest, r.checkFailedCount, rfl,
                hpc, hcondemns.failing, hcondemns.attempts, hsince⟩⟩

/-- A ticket that a step fails was failed by a kill or by a removal pass. -/
theorem Inv.failing_action (h : w.Inv) (hstep : w.step a = some w')
    (ht : w.db.tickets.get? tid = some t) (ht' : w'.db.tickets.get? tid = some t')
    (hold : t.state ≠ .failed) (hfailed : t'.state = .failed) :
    (∃ k, a = .kill k) ∨ ∃ i c p rest, a = .manager i ∧ w.manager = .removal c p rest := by
  -- the ticket is not written, or not failed
  have hsame : w'.db.tickets.get? tid ≠ some t := fun heq => by
    obtain rfl := Option.some.inj (ht'.symm.trans heq)
    exact hold hfailed
  have hrows : w'.db.tickets = w.db.tickets → False := fun heq => hsame (by rw [heq, ht])
  cases step_cases hstep with
  | @manager i db started pc hpc =>
      generalize hmanager : w.manager = m at hpc
      cases hpc with
      | removal => exact .inr ⟨i, _, _, _, rfl, rfl⟩
      | load _ _ htickets => exact (hrows htickets).elim
      | detectClosed hdetect =>
          have hframe := (h.linked.decouples hdetect).frame
          exact (hrows (by rw [hframe])).elim
      | allocate _ hallocate => exact (hrows (allocate_ok hallocate).2.1).elim
      | assigned =>
          simp only [assignTicket_ticket, ht] at ht'
          split_ifs at ht'
          · obtain rfl := Option.some.inj ht'
            exact absurd hfailed hold
          · obtain rfl := Option.some.inj ht'
            exact absurd hfailed hold
      | stop | plan | garbage | wantsMore | hasEnough | tooSoon | soonEnough | cleanUnknown
        | keepUnknown | markCleaned | collect | skipped | served => exact (hrows rfl).elim
  | worker _ _ hnext =>
      cases hnext with
      | started _ _ htickets _ | ended _ _ htickets _ => exact (hrows htickets).elim
      | raised | moved | cleaned | gaveUp | terminating | returned => exact (hrows rfl).elim
  | takeTicket => exact (hsame (IdTable.get?_push_of_some _ ht)).elim
  | closeTicket tid' =>
      simp only [Db.modifyTicket_tickets, IdTable.get?_modify, ht] at ht'
      split_ifs at ht'
      · obtain rfl := Option.some.inj ht'
        contradiction
      · obtain rfl := Option.some.inj ht'
        exact absurd hfailed hold
  | kill k => exact .inl ⟨k, rfl⟩
  | restart | watched | checked | notTaken | notClosed | resourceDelete => exact (hrows rfl).elim

/-- A ticket fails only for cause: its resource is killed by a maintainer, or it has
failed its last livechecks, all recorded since it was assigned to this ticket.  The
step moves the resource from UP to DELETE_REQUEST, and every ticket it writes fails in
this way. -/
theorem Reaches.failed_for_cause (h : Reaches anyStep as w) (hstep : w.step a = some w')
    (ht : w.db.tickets.get? tid = some t) (ht' : w'.db.tickets.get? tid = some t')
    (hold : t.state ≠ .failed) (hfailed : t'.state = .failed) :
    (∃ id r, FailsWith as w a w' tid t id r) ∧
      ∀ tid₁ t₁, w.db.tickets.get? tid₁ = some t₁ →
        w'.db.tickets.get? tid₁ = some t₁ ∨ ∃ id r, FailsWith as w a w' tid₁ t₁ id r := by
  have hcause := h.inv.failing_action hstep ht ht' hold hfailed
  refine ⟨?_, fun tid₁ t₁ ht₁ => h.ticket_cases hstep hcause ht₁⟩
  rcases h.ticket_cases hstep hcause ht with hsame | hfails
  · obtain rfl := Option.some.inj (ht'.symm.trans hsame)
    exact absurd hfailed hold
  · exact hfails

/-- A pool that gives its resources up after one failing livecheck. -/
def checkedPool : Pool :=
  { basicPool with
    max := 2, maxStarting := 2, maxPrealloc := 2, cmdLivecheck := some "check"
    livecheckPeriod := 0, livecheckAttempts := 1 }

/-- The configuration with this pool. -/
def checkedConfig : Config := .single checkedPool (by decide +kernel)

/-- Two tickets get the resources of the pool, both livechecks fail, and the manager
comes to the removal pass. -/
def failingRun : List Action :=
  [.takeTicket [] none, .takeTicket [] none] ++ ticks checkedConfig 11 ++
    List.replicate 3 (.worker 1 { now := 20 }) ++ List.replicate 3 (.worker 2 { now := 20 }) ++
    ticks checkedConfig 6 ++
    List.replicate 5 (.watcher { now := 30, config := some checkedConfig, output := ⟨1, []⟩ }) ++
    ticks checkedConfig 3

/-- The removal pass. -/
def failingStep : Action := .manager { now := 40 }

/-- A ticket of the first resource. -/
def failingTicket : Ticket := { resourceId := some 1, sandbox := some "uuid" }

/-- The first ticket fails, because of the livecheck since its assignment. -/
theorem failed_for_cause_failingRun :
    ∃ id r, FailsWith failingRun (after anyStep failingRun (by decide +kernel)) failingStep
      (after anyStep (failingRun ++ [failingStep]) (by decide +kernel)) 1 failingTicket id r :=
  have hfailed : (after anyStep (failingRun ++ [failingStep])
      (by decide +kernel)).db.tickets.get? 1 = some { failingTicket with state := .failed } := by
    decide +kernel
  (Reaches.failed_for_cause (reaches_after anyStep failingRun _) (by decide +kernel)
    (by decide +kernel) hfailed (by decide) rfl).1

/-- The pass that fails the first ticket fails the ticket of the other resource. -/
theorem fails_together :
    ¬ ∀ (as : List Action) (w : World) (a : Action) (w' : World) (tid : TicketId) (t t' : Ticket)
      (id : ResourceId), Reaches anyStep as w → w.step a = some w' →
      w.db.tickets.get? tid = some t → w'.db.tickets.get? tid = some t' →
      t.state ≠ .failed → t'.state = .failed → t.resourceId = some id →
      ∀ other u, w.db.tickets.get? other = some u → u.resourceId ≠ some id →
        w'.db.tickets.get? other = some u := by
  intro h
  have hother := h failingRun (after anyStep failingRun (by decide +kernel)) failingStep
    (after anyStep (failingRun ++ [failingStep]) (by decide +kernel)) 1 failingTicket
    { failingTicket with state := .failed } 1 (reaches_after anyStep failingRun _)
    (by decide +kernel) (by decide +kernel) (by decide +kernel) (by decide) rfl rfl 2
    { failingTicket with resourceId := some 2 } (by decide +kernel) (by decide)
  exact absurd hother (by decide +kernel)

end World

end Resalloc
