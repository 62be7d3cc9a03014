import Mathlib.Order.Filter.AtTopBot.Basic
import Mathlib.Order.Filter.Finite
import Resalloc.Server.Fairness
import Resalloc.Server.Liveness

/-!
# Tickets that wait for ever

A ticket gets its turn in every assignment pass, after the tickets with an on-demand tag and the
older ones.  There are finitely many older tickets, and each of them is served once at most.  So a
ticket that still waits in the end has lost its resources in another way.

Main results:

- Theorem {lit}`World.Inv.unfits`: what takes a resource away from a ticket during a pass.
- Theorem {lit}`World.Fair.no_starvation`: why a ticket may wait for ever.
-/

namespace Resalloc

open Filter Foundations

namespace World

variable {w w' : World} {a : Action} {id : ResourceId} {tid : TicketId} {t t' : Ticket}
variable {name : String} {run : ℕ → World} {act : ℕ → Action} {n m : ℕ}

/-! ## One step -/

/-- A resource is killed, or a livecheck of it fails. -/
def Loses (id : ResourceId) (w : World) (a : Action) : Prop :=
  (∃ k rest, a = .kill k ∧ w.maintainers.get? k = some (id :: rest)) ∨
    ∃ status, w.check? id a = some status ∧ status ≠ 0

/-- The assignment pass runs. -/
def Assigning (w : World) : Prop := ∃ c queue ids, w.manager = .assign c queue ids

/-- During a pass, a resource that is ready for a ticket is lost, or given to some ticket, when it
does not fit the ticket any more. -/
theorem Inv.unfits (h : w.Inv) (hpass : w.Assigning) (hstep : w.step a = some w')
    (hlives : ∀ t, a ≠ .restart t) (ht : w.db.tickets.get? tid = some t)
    (ht' : w'.db.tickets.get? tid = some t') (htags : t'.tags = t.tags)
    (hsandbox : t'.sandbox = t.sandbox) (hfits : w.db.Fits tid id) (hnot : ¬ w'.db.Fits tid id) :
    w.Loses id a ∨ ∃ other, w.assignment? a = some (id, other) := by
  obtain ⟨c, queue, ids, hpc⟩ := hpass
  obtain ⟨r, t₁, hr, ht₁, hrow⟩ := hfits
  obtain rfl := Option.some.inj (ht.symm.trans ht₁)
  obtain ⟨r', hr', hrrow⟩ := (step_cases hstep).resource h.linked hr
  have hcount := h.count_step hstep hr hr'
  -- a row that is still in service has failed its livecheck
  have hfailed : r'.state = r.state → r'.ticketId = r.ticketId → r'.tagSet = r.tagSet →
      r'.sandbox = r.sandbox → w.Loses id a := by
    intro hstate hticket htagset hbox
    right
    have hchecked : r'.checkFailedCount ≠ 0 := by
      intro hzero
      apply hnot
      refine ⟨r', t', hr', ht', hstate.trans hrow.up, hticket.trans hrow.free, hzero, ?_, ?_⟩
      · rw [htags, htagset]
        exact hrow.tags
      · rw [hsandbox, hbox]
        exact hrow.sandbox
    rw [hcount] at hchecked
    unfold countAfter at hchecked
    split at hchecked
    next => exact absurd hrow.checked hchecked
    next status hcheck =>
      split_ifs at hchecked with hpassed
      · exact absurd rfl hchecked
      · exact ⟨status, hcheck, hpassed⟩
  cases hrrow with
  | same | checked => exact .inl (hfailed rfl rfl rfl rfl)
  | decoupled i hdetect | retired i hdetect =>
      rw [hpc] at hdetect
      contradiction
  | assigned i hassign => exact .inr ⟨_, hassign⟩
  | killed k =>
      obtain ⟨id', rest, hk, hdb⟩ := kill_inv hstep
      by_cases hid : id = id'
      · subst hid
        exact .inl (.inl ⟨k, rest, rfl, hk⟩)
      · -- another resource is killed
        rw [hdb, kill_resource, if_neg hid, hr] at hr'
        have hstate := congrArg Resource.state (Option.some.inj hr')
        rw [hrow.up] at hstate
        contradiction
  | broken t => exact absurd rfl (hlives t)
  | started hruns =>
      have hstarting := h.owned.starting hruns hr
      rw [hrow.up] at hstarting
      contradiction
  | terminating hruns | ended hruns =>
      obtain ⟨r₁, hr₁, hleaving⟩ := h.owned.terminate hruns
      obtain rfl := Option.some.inj (hr.symm.trans hr₁)
      simp [hrow.up, RState.leaving] at hleaving
  | returned hruns =>
      have hreleasing := h.owned.releasing hruns hr
      rw [hrow.up] at hreleasing
      contradiction

/-! ## Tickets that are served -/

/-- A ticket keeps its resource. -/
theorem Fair.linked_kept (h : Fair name run act) (hle : n ≤ m)
    (ht : (run n).db.tickets.get? tid = some t) (hlink : t.resourceId = some id) :
    ∃ t', (run m).db.tickets.get? tid = some t' ∧ t'.resourceId = some id := by
  induction m, hle using Nat.le_induction with
  | base => exact ⟨t, ht, hlink⟩
  | succ m _ ih =>
      obtain ⟨t', ht', hlink'⟩ := ih
      obtain ⟨t'', ht'', hcontinues⟩ := (h.inv m).ticket_continues (h.step m) ht'
      exact ⟨t'', ht'', hcontinues.resourceId id hlink'⟩

/-- What a round that makes an assignment leaves behind. -/
theorem Fair.assigned (h : Fair name run act)
    (hassign : (run n).assignment? (act n) = some (id, tid)) :
    ∃ t, (run (n + 1)).db.tickets.get? tid = some t ∧ t.resourceId = some id := by
  obtain ⟨as, hrun⟩ := h.reaches n
  obtain ⟨_, t, -, ht, -⟩ := hrun.fits hassign
  obtain ⟨i, _, _, _, _, -, -, -, -, hnext⟩ := step_of_assignment hassign (h.step n)
  rw [hnext]
  exact ⟨t.assigned id i.uuid.1, by simp [ht], rfl⟩

/-- A ticket is served once at most. -/
theorem Fair.eventually_unassigned (h : Fair name run act) (tid : TicketId) :
    ∀ᶠ m in atTop, ∀ id, (run m).assignment? (act m) ≠ some (id, tid) := by
  rw [eventually_atTop]
  by_cases hserved : ∃ n id, (run n).assignment? (act n) = some (id, tid)
  · obtain ⟨n, id, hassign⟩ := hserved
    refine ⟨n + 1, fun m hle id' hassign' => ?_⟩
    obtain ⟨t, ht, hlink⟩ := h.assigned hassign
    obtain ⟨t', ht', hlink'⟩ := h.linked_kept hle ht hlink
    -- only tickets without a resource are served
    obtain ⟨as, hrun⟩ := h.reaches m
    obtain ⟨_, t₁, -, ht₁, -, hnone, -⟩ := hrun.fits hassign'
    obtain rfl := Option.some.inj (ht'.symm.trans ht₁)
    rw [hlink'] at hnone
    contradiction
  · exact ⟨0, fun m _ id hassign => hserved ⟨m, id, hassign⟩⟩

/-- In the end no older ticket is served any more. -/
theorem Fair.exists_oldest (h : Fair name run act) (tid : TicketId) :
    ∃ m, ∀ n, m ≤ n → ∀ older id, (run n).assignment? (act n) = some (id, older) → tid ≤ older := by
  have hall : ∀ᶠ n in atTop, ∀ older ∈ Finset.range tid, ∀ id,
      (run n).assignment? (act n) ≠ some (id, older) :=
    (eventually_all_finset _).mpr fun older _ => h.eventually_unassigned older
  obtain ⟨m, hm⟩ := eventually_atTop.mp hall
  refine ⟨m, fun n hle older id hassign => ?_⟩
  by_contra hlt
  exact hm n hle older (Finset.mem_range.mpr (Nat.lt_of_not_le hlt)) id hassign

/-- The manager thread never dies. -/
theorem Fair.unstopped (h : Fair name run act) (n : ℕ) (e : PyError) :
    (run n).manager ≠ .stopped e := by
  intro hstopped
  have hkept : ∀ m, n ≤ m → ∃ e, (run m).manager = .stopped e := by
    intro m hle
    induction m, hle using Nat.le_induction with
    | base => exact ⟨e, hstopped⟩
    | succ m _ ih =>
        obtain ⟨e', hstill⟩ := ih
        have hsteps := step_cases (h.step m)
        generalize hact : act m = a at hsteps
        generalize run (m + 1) = w' at hsteps
        cases hsteps with
        | @manager i db started pc hpc =>
            rw [hstill] at hpc
            cases hpc with
            | stop => exact ⟨_, rfl⟩
        | restart t => exact absurd hact (h.lives m t)
        | _ => exact ⟨e', hstill⟩
  obtain ⟨m, i, hle, -, hwait⟩ := h.cycles n
  obtain ⟨e', hstill⟩ := hkept m hle
  rw [hstill] at hwait
  contradiction

/-! ## The turn of a waiting ticket -/

/-- A resource is ready for a ticket that has its turn before it. -/
structure Due (before : TicketId → TicketId → Prop) (tid : TicketId) (id : ResourceId)
    (w : World) : Prop where
  queue : ∃ c queue ids, w.manager = .assign c queue ids ∧ tid ∈ queue.tasks ∧ id ∈ ids ∧
    queue.tasks.Pairwise before
  fits : w.db.Fits tid id

/-- At the beginning of a pass every waiting ticket is due for what is ready for it. -/
theorem due_collect {c : Cycle} {i : Input} (hpc : w.manager = .collect c)
    (hstep : w.step (.manager i) = some w') (hwaits : w.db.Waits tid) (hfits : w.db.Fits tid id) :
    Due (w.db.ServedBefore c.onDemandTags) tid id w' := by
  obtain ⟨-, hmem, hready⟩ := collectQueue_spec c.onDemandTags w.db
  have horder := (collectQueue_order c.onDemandTags w.db).1
  have hrows := hfits
  obtain ⟨r, _, hr, -, hrow⟩ := hrows
  simp only [World.step, hpc, ManagerPc.step] at hstep
  obtain rfl := Option.some.inj hstep
  refine ⟨⟨_, _, _, rfl, (hmem tid).mpr hwaits, ?_, horder⟩, hfits⟩
  rw [hready]
  exact List.mem_map_of_mem (f := Prod.fst)
    (mem_ready.mpr ⟨hr, by simp [InPool], hrow.up, hrow.free, hrow.checked⟩)

/-- A step that neither serves the ticket nor takes the resource away leaves the ticket due. -/
theorem Due.step {before : TicketId → TicketId → Prop} (h : Due before tid id w) (hinv : w.Inv)
    (hstep : w.step a = some w') (hlives : ∀ t, a ≠ .restart t)
    (hruns : ∀ e, w'.manager ≠ .stopped e) (hskips : w.Skips tid a)
    (hfits : w'.db.Fits tid id) : Due before tid id w' := by
  obtain ⟨⟨c, queue, ids, hpc, hmem, hid, horder⟩, hbefore⟩ := h
  refine ⟨?_, hfits⟩
  -- the rounds of other tickets
  have hround : ∀ {other queue'}, queue.popTask = (some other, queue') → other ≠ tid →
      tid ∈ queue'.tasks ∧ queue'.tasks.Pairwise before := by
    intro other queue' hpop hne
    obtain ⟨-, htasks⟩ := (hinv.queued.wf hpc).popTask_some hpop
    rw [htasks] at hmem horder
    exact ⟨(List.mem_cons.mp hmem).resolve_left hne.symm, (List.pairwise_cons.mp horder).2⟩
  have hsteps := step_cases hstep
  cases hsteps with
  | @manager i db started pc hmanager =>
      rw [hpc] at hmanager
      cases hmanager with
      | stop => exact absurd rfl (hruns _)
      | @assigned _ _ _ other queue' id' hpop hchoose =>
          have hne : other ≠ tid := by
            rintro rfl
            exact hskips id' (assignment?_of_assign hpc hpop hchoose i)
          obtain ⟨hmem', horder'⟩ := hround hpop hne
          exact ⟨c, queue', ids, rfl, hmem', hid, horder'⟩
      | @skipped _ _ _ other queue' hpop hchoose =>
          have hne : other ≠ tid := by
            rintro rfl
            obtain ⟨r, t, hr, ht, hrow⟩ := hbefore
            have hready : (id, r) ∈ QResources.ready w.db none :=
              mem_ready.mpr ⟨hr, by simp [InPool], hrow.up, hrow.free, hrow.checked⟩
            have husable : usable t ids id r :=
              ⟨hid, sandbox_test_iff.mpr hrow.sandbox, hrow.tags⟩
            exact chooseResource_eq_none ht hchoose hready husable
          obtain ⟨hmem', horder'⟩ := hround hpop hne
          exact ⟨c, queue', ids, rfl, hmem', hid, horder'⟩
      | served hpop =>
          rw [PriorityQueue.popTask_eq_none] at hpop
          simp [hpop] at hmem
  | restart t => exact absurd rfl (hlives t)
  | _ => exact ⟨c, queue, ids, hpc, hmem, hid, horder⟩

/-- A ticket that waits for ever loses what is due for it. -/
theorem Fair.due_ends (h : Fair name run act) {before : TicketId → TicketId → Prop}
    (hwaits : ∀ m, n ≤ m → (run m).db.Waits tid) (hdue : Due before tid id (run n)) :
    ∃ q, n ≤ q ∧ (∀ j, n ≤ j → j ≤ q → Due before tid id (run j)) ∧
      ((run q).Loses id (act q) ∨ ∃ other, other ≠ tid ∧ before other tid ∧
        (run q).assignment? (act q) = some (id, other)) := by
  -- the pass ends, and with it everything that is due
  obtain ⟨l, -, hl, -, hwait⟩ := h.cycles n
  have hend : ¬ ∀ j, n ≤ j → j ≤ l → Due before tid id (run j) := by
    intro hall
    obtain ⟨⟨_, _, _, hpc, -⟩, -⟩ := hall l hl (le_refl l)
    rw [hwait] at hpc
    contradiction
  have hstart : ∀ j, n ≤ j → j ≤ n → Due before tid id (run j) := by
    intro j hj hj'
    obtain rfl := le_antisymm hj' hj
    exact hdue
  obtain ⟨q, hq, -, hbefore, hafter⟩ :=
    exists_exit (P := fun m => ∀ j, n ≤ j → j ≤ m → Due before tid id (run j)) hl hstart hend
  refine ⟨q, hq, hbefore, ?_⟩
  have hdueq := hbefore q hq (le_refl q)
  have hlast : ¬ Due before tid id (run (q + 1)) := by
    intro hstill
    apply hafter
    intro j hj hj'
    rcases Nat.lt_or_eq_of_le hj' with hlt | rfl
    · exact hbefore j hj (Nat.le_of_lt_succ hlt)
    · exact hstill
  -- the ticket is not served
  have hskips : (run q).Skips tid (act q) := by
    intro id' hassign
    obtain ⟨t, ht, hlink⟩ := h.assigned hassign
    obtain ⟨t', ht'⟩ := hwaits (q + 1) (hq.trans (Nat.le_succ q))
    obtain ⟨ht', hunlinked, -⟩ := mem_waiting.mp ht'
    obtain rfl := Option.some.inj (ht.symm.trans ht')
    rw [hlink] at hunlinked
    contradiction
  have hlost : ¬ (run (q + 1)).db.Fits tid id := fun hfits =>
    hlast (hdueq.step (h.inv q) (h.step q) (h.lives q) (h.unstopped (q + 1)) hskips hfits)
  obtain ⟨c, queue, ids, hpc, hmem, -, horder⟩ := hdueq.queue
  obtain ⟨t, hwaiting⟩ := hwaits q hq
  have ht := (mem_waiting.mp hwaiting).1
  obtain ⟨t', ht', hrow⟩ := (step_cases (h.step q)).ticket (h.inv q).linked ht
  obtain ⟨htags, hsandbox⟩ := hrow.kept hskips
  refine ((h.inv q).unfits ⟨c, queue, ids, hpc⟩ (h.step q) (h.lives q) ht ht' htags hsandbox
    hdueq.fits hlost).imp_right ?_
  rintro ⟨other, hassign⟩
  have hne : other ≠ tid := by
    rintro rfl
    exact hskips id hassign
  obtain ⟨i, c', queue', ids', rest, -, hpc', hpop, -⟩ := assignment?_some hassign
  obtain ⟨rfl, rfl, rfl⟩ := ManagerPc.assign.inj (hpc.symm.trans hpc')
  obtain ⟨-, htasks⟩ := ((h.inv q).queued.wf hpc).popTask_some hpop
  rw [htasks] at hmem horder
  have hrest := (List.mem_cons.mp hmem).resolve_left hne.symm
  exact ⟨other, hne, (List.pairwise_cons.mp horder).1 tid hrest, hassign⟩

/-- A ticket that waits is served, closed or failed in the end, or from some pass on everything
that is ready for it when a pass begins is lost during this pass: killed, failing a livecheck, or
given to a newer ticket that has an on-demand tag, which this one has not. -/
theorem Fair.no_starvation (h : Fair name run act) (n : ℕ) (tid : TicketId) :
    (∃ m, n ≤ m ∧ ¬ (run m).db.Waits tid) ∨
      ∃ m, ∀ l i c id, m ≤ l → act l = .manager i → (run l).manager = .collect c →
        (run l).db.Fits tid id → ∃ q, l < q ∧ (∀ j, l < j → j ≤ q → (run j).Assigning) ∧
          ((run q).Loses id (act q) ∨ ∃ newer, tid < newer ∧
            (run q).assignment? (act q) = some (id, newer) ∧
            (run l).db.WantsOnDemand c.onDemandTags newer ∧
            ¬ (run l).db.WantsOnDemand c.onDemandTags tid) := by
  rw [or_iff_not_imp_left]
  intro hwaits
  simp only [not_exists, not_and, not_not] at hwaits
  obtain ⟨m, holdest⟩ := h.exists_oldest tid
  refine ⟨max n m, fun l i c id hle hact hpc hfits => ?_⟩
  have hn : n ≤ l := (le_max_left n m).trans hle
  have hm : m ≤ l := (le_max_right n m).trans hle
  have hstep := h.step l
  rw [hact] at hstep
  have hdue := due_collect hpc hstep (hwaits l hn) hfits
  obtain ⟨q, hq, hall, hlost⟩ :=
    h.due_ends (fun j hj => hwaits j (hn.trans ((Nat.le_succ l).trans hj))) hdue
  refine ⟨q, hq, fun j hj hj' => ?_, hlost.imp_right ?_⟩
  · obtain ⟨⟨c, queue, ids, hpc, -⟩, -⟩ := hall j hj hj'
    exact ⟨c, queue, ids, hpc⟩
  · rintro ⟨other, hne, hbefore, hassign⟩
    have hnewer : tid < other :=
      lt_of_le_of_ne (holdest q (hm.trans ((Nat.le_succ l).trans hq)) other id hassign) hne.symm
    obtain ⟨hwants, hnot⟩ | ⟨-, holder⟩ := hbefore
    · exact ⟨other, hnewer, hassign, hwants, hnot⟩
    · exact absurd holder hnewer.asymm

/-- The ticket that waits when a resource is ready is served. -/
theorem no_starvation_waitingWorlds : ∃ m, 0 ≤ m ∧ ¬ (waitingWorlds m).db.Waits 1 := by
  rcases Fair.no_starvation fair_waitingWorlds 0 1 with hdone | -
  · exact hdone
  · refine ⟨9, Nat.zero_le 9, ?_⟩
    rintro ⟨t, hwaiting⟩
    have hserved : ((waitingWorlds 9).db.tickets.get? 1).any (fun t => t.resourceId ≠ none) =
        true := by
      decide +kernel
    obtain ⟨ht, hnone, -⟩ := mem_waiting.mp hwaiting
    simp [ht, hnone] at hserved

end World

end Resalloc
