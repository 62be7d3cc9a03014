import Resalloc.Server.Steps

/-!
# Invariants of the running server

What holds between the database and the threads that work on it, in every state
that any interleaving can reach: the tables are linked, a worker finds its
resource in the state its job expects, and the queued tickets still wait.

Main results:

- Definition {lit}`World.Inv`: the invariant.
- Theorem {lit}`World.Inv.step`: every action keeps it.
- Theorem {lit}`World.Reaches.inv`: it holds in every reachable state.
-/

namespace Resalloc

open Foundations

/-! ## Threads and resources -/

/-- The resource a job is going to take out of STARTING or RELEASING. -/
def Job.brings? : Job → Option ResourceId
  | .alloc id _ | .release id _ => some id
  | _ => none

/-- The resource a job is about. -/
def Job.target? : Job → Option ResourceId
  | .alloc id _ | .release id _ | .terminate id _ => some id
  | .cleanUnknown _ => none

/-- The resource and the status of a release that is about to be recorded. -/
def Job.finish? : Job → Option (ResourceId × Int)
  | .release id (.finish status) => some (id, status)
  | _ => none

/-- The resource of a terminator that has not begun yet. -/
def Job.request? : Job → Option ResourceId
  | .terminate id .request => some id
  | _ => none

/-- What a job brings out of a state is what it is about. -/
theorem Job.target?_of_brings? {job : Job} {id : ResourceId} (h : job.brings? = some id) :
    job.target? = some id := by
  cases job <;> simp_all [Job.brings?, Job.target?]

/-- A job goes on with the same resource. -/
theorem Job.Moves.brings? {i : Input} {job job' : Job} (h : Job.Moves i job job') :
    job'.brings? = job.brings? := by
  cases h <;> rfl

namespace World

/-- A running worker finds its resource in the state its job expects. -/
structure Owned (w : World) : Prop where
  alloc : ∀ {k p id pc}, w.Runs k p (.alloc id pc) →
    ∃ r, w.db.resources.get? id = some r ∧ r.state = .starting ∧ r.pool = p.name
  release : ∀ {k p id pc}, w.Runs k p (.release id pc) →
    ∃ r, w.db.resources.get? id = some r ∧ r.state = .releasing ∧ InPool (some p.name) r
  terminate : ∀ {k p id pc}, w.Runs k p (.terminate id pc) →
    ∃ r, w.db.resources.get? id = some r ∧ r.state.leaving = true
  /-- At most one worker takes a resource out of STARTING or RELEASING. -/
  unique : ∀ {j k p q job job' id}, w.Runs j p job → w.Runs k q job' →
    job.brings? = some id → job'.brings? = some id → j = k

/-- The tickets queued in the assignment pass still wait for a resource. -/
structure Queued (w : World) : Prop where
  wf : ∀ {c queue ids}, w.manager = .assign c queue ids → queue.WF
  waiting : ∀ {c queue ids tid}, w.manager = .assign c queue ids → tid ∈ queue.tasks →
    ∃ t, w.db.tickets.get? tid = some t ∧ t.resourceId = none ∧ t.state ≠ .failed

/-- The invariant of the server. -/
structure Inv (w : World) : Prop where
  linked : Linked w.db
  owned : w.Owned
  queued : w.Queued

variable {w w' : World} {a : Action} {id : ResourceId} {k : ℕ} {p : Pool} {job : Job}
variable {r r' : Resource}

/-- The resource of a running {lit}`AllocWorker` is in STARTING. -/
theorem Owned.starting (h : w.Owned) {pc : AllocPc} (hruns : w.Runs k p (.alloc id pc))
    (hr : w.db.resources.get? id = some r) : r.state = .starting := by
  obtain ⟨r₀, hr₀, hstate, -⟩ := h.alloc hruns
  rwa [Option.some.inj (hr.symm.trans hr₀)]

/-- The resource of a running {lit}`ReleaseWorker` is in RELEASING. -/
theorem Owned.releasing (h : w.Owned) {pc : ReleasePc} (hruns : w.Runs k p (.release id pc))
    (hr : w.db.resources.get? id = some r) : r.state = .releasing := by
  obtain ⟨r₀, hr₀, hstate, -⟩ := h.release hruns
  rwa [Option.some.inj (hr.symm.trans hr₀)]

/-- The resource of a running {lit}`TerminateWorker` is leaving. -/
theorem Owned.leaving (h : w.Owned) {pc : TerminatePc} (hruns : w.Runs k p (.terminate id pc))
    (hr : w.db.resources.get? id = some r) : r.state.leaving = true := by
  obtain ⟨r₀, hr₀, hleaving⟩ := h.terminate hruns
  rwa [Option.some.inj (hr.symm.trans hr₀)]

/-- The server starts in its invariant. -/
theorem inv_init : Inv init := by
  refine ⟨linked_empty, ⟨?_, ?_, ?_, ?_⟩, ⟨?_, ?_⟩⟩ <;> intros <;>
    simp_all [Runs, init]

/-! ## The tables stay linked -/

/-- Every action keeps the tables linked. -/
theorem Inv.linked_step (h : w.Inv) (hstep : w.Steps a w') : Linked w'.db := by
  cases hstep with
  | @manager i db started pc hpc =>
      generalize hmanager : w.manager = m at hpc
      cases hpc with
      | load _ hresources htickets => exact h.linked.of_eq htickets hresources
      | detectClosed hdetect => exact h.linked.detectClosedTickets hdetect
      | @removal c p rest _ hremoval =>
          exact (h.linked.removes hremoval).linked
      | @allocate c rest _ newId p p' hp hallocate =>
          obtain ⟨rfl, htickets, name, hget⟩ := allocate_ok hallocate
          refine h.linked.of_rows htickets (fun j r hr => ?_) (fun j r' hr' hnone => ?_)
          · exact ⟨r, by simp [hget, (IdTable.lt_nextId hr).ne, hr], .refl r⟩
          · simp only [hget, hnone] at hr'
            split_ifs at hr'
            obtain rfl := Option.some.inj hr'
            exact ⟨rfl, rfl, rfl⟩
      | @assigned c queue ids tid queue' j hpop hchoose =>
          obtain ⟨t, r, ht, hr, hup, hfree, -, -⟩ := chooseResource_some hchoose
          have hmem : tid ∈ queue.tasks := by
            rw [((h.queued.wf hmanager).popTask_some hpop).2]
            simp
          obtain ⟨t₀, ht₀, hwaiting, hstate⟩ := h.queued.waiting hmanager hmem
          obtain rfl := Option.some.inj (ht.symm.trans ht₀)
          exact h.linked.assignTicket i.uuid.2 hr hup hfree ht hwaiting hstate
      | stop | plan | garbage | wantsMore | hasEnough | tooSoon | soonEnough | cleanUnknown
        | keepUnknown | markCleaned | collect | skipped | served =>
          exact h.linked.of_eq rfl rfl
  | @worker k i worker db next hworker hrunning hwstep =>
      have hruns := runs_of_running hworker hrunning
      cases hwstep with
      | @started j startInitiated output _ hok hjob htickets hresources =>
          rw [hjob] at hruns
          have hlinked := h.linked.modifyResource j
            (f := fun r => r.started worker.pool output) fun r hr => by
              have hstarting := h.owned.starting hruns hr
              refine ⟨rfl, rfl, rfl, rfl, fun hup => ?_, fun hleaving => ?_, fun hidle => ?_⟩
              · simp [hstarting] at hup
              · simp [hstarting, RState.leaving] at hleaving
              · simp only [Resource.started] at hidle
                split_ifs at hidle <;> simp at hidle
          exact hlinked.of_eq htickets hresources
      | @terminating j hok hjob =>
          rw [hjob] at hruns
          refine h.linked.modifyResource j fun r hr => ?_
          have hleaving := h.owned.leaving hruns hr
          exact .state (fun hup => by simp [hup, RState.leaving] at hleaving) (fun _ => rfl)
            (by simp)
      | @ended j _ hok hjob htickets hresources =>
          rw [hjob] at hruns
          have hlinked := h.linked.modifyResource j
            (f := fun r => { r with state := .ended }) fun r hr => by
              have hleaving := h.owned.leaving hruns hr
              exact .state (fun hup => by simp [hup, RState.leaving] at hleaving) (fun _ => rfl)
                (by simp)
          exact hlinked.of_eq htickets hresources
      | @returned j status hok hjob =>
          rw [hjob] at hruns
          refine h.linked.modifyResource j fun r hr => ?_
          have hreleasing := h.owned.releasing hruns hr
          refine ⟨rfl, rfl, rfl, rfl, fun _ _ => rfl, fun hleaving => ?_, fun hidle => ?_⟩
          · simp [hreleasing, RState.leaving] at hleaving
          · simp [Resource.returned] at hidle
      | raised | moved | cleaned | gaveUp => exact h.linked.of_eq rfl rfl
  | checked i j status pc =>
      exact h.linked.modifyResource j fun r _ =>
        ⟨rfl, rfl, rfl, rfl, fun hup _ => hup, fun hleaving => hleaving, fun _ => rfl⟩
  | @takeTicket tags sandbox _ => exact h.linked.takeTicket sandbox tags
  | closeTicket tid => exact h.linked.closeTicket tid
  | kill k j => exact h.linked.kill j
  | restart importTime =>
      refine h.linked.of_rows rfl (fun j r hr => ?_) (fun j r' hr' hnone => ?_)
      · by_cases hbroken : r.state.inconsistent = true
        · refine ⟨{ r with state := .deleteRequest }, by simp [hr, hbroken],
            .state (fun hup => ?_) (fun _ => rfl) (by simp)⟩
          simp [hup, RState.inconsistent] at hbroken
        · exact ⟨r, by simp [hr, hbroken], .refl r⟩
      · simp [hnone] at hr'
  | watched | notTaken | notClosed | resourceDelete => exact h.linked

/-! ## Workers keep finding their resources -/

/-- No action moves a resource to another pool. -/
theorem ResourceSteps.pool (h : w.ResourceSteps id r a r') : r'.pool = r.pool := by
  cases h <;> rfl

/-- A resource leaves STARTING by the last transaction of its worker, or by a
restart. -/
theorem Inv.starting_cases (h : w.Inv) (hsteps : w.ResourceSteps id r a r')
    (hr : w.db.resources.get? id = some r) (hstate : r.state = .starting) :
    r'.state = .starting ∨
      (∃ k p i s o, a = .worker k i ∧ w.Runs k p (.alloc id (.finish s o)) ∧ i.raises = false ∧
        r' = r.started p o) ∨
      ∃ t, a = .restart t ∧ r' = r.retired := by
  cases hsteps with
  | @started k i p s o hruns hok => exact .inr (.inl ⟨k, p, i, s, o, rfl, hruns, hok, rfl⟩)
  | broken t => exact .inr (.inr ⟨t, rfl, rfl⟩)
  | decoupled _ _ hclosing => simp [hclosing.2.1] at hstate
  | terminating hruns | ended hruns =>
      have hleaving := h.owned.leaving hruns hr
      simp [hstate, RState.leaving] at hleaving
  | returned hruns =>
      have hreleasing := h.owned.releasing hruns hr
      simp [hstate] at hreleasing
  | same | checked => exact .inl hstate
  | retired | killed | assigned => simp_all

/-- A resource leaves RELEASING by the last transaction of its worker, or by a
restart. -/
theorem Inv.releasing_cases (h : w.Inv) (hsteps : w.ResourceSteps id r a r')
    (hr : w.db.resources.get? id = some r) (hstate : r.state = .releasing) :
    r'.state = .releasing ∨
      (∃ k p i s, a = .worker k i ∧ w.Runs k p (.release id (.finish s)) ∧ i.raises = false ∧
        r' = r.returned p s) ∨
      ∃ t, a = .restart t ∧ r' = r.retired := by
  cases hsteps with
  | @returned k i p s hruns hok => exact .inr (.inl ⟨k, p, i, s, rfl, hruns, hok, rfl⟩)
  | broken t => exact .inr (.inr ⟨t, rfl, rfl⟩)
  | decoupled _ _ hclosing => simp [hclosing.2.1] at hstate
  | terminating hruns | ended hruns =>
      have hleaving := h.owned.leaving hruns hr
      simp [hstate, RState.leaving] at hleaving
  | started hruns =>
      have hstarting := h.owned.starting hruns hr
      simp [hstate] at hstarting
  | same | checked => exact .inl hstate
  | retired | killed | assigned => simp_all

/-- A leaving resource keeps leaving: it is only switched to DELETING or to
ENDED, by its terminators. -/
theorem Inv.leaving_cases (h : w.Inv) (hsteps : w.ResourceSteps id r a r')
    (hr : w.db.resources.get? id = some r) (hleaving : r.state.leaving = true) :
    (r'.state = r.state ∧ r'.ticketId = r.ticketId) ∨
      (∃ k p i, a = .worker k i ∧ w.Runs k p (.terminate id .request) ∧ i.raises = false ∧
        r' = { r with state := .deleting }) ∨
      (∃ k p i, a = .worker k i ∧ w.Runs k p (.terminate id .close) ∧ i.raises = false ∧
        r' = { r with state := .ended }) ∨
      ∃ t, a = .restart t ∧ r.state = .deleting ∧ r' = r.retired := by
  cases hsteps with
  | @terminating k i p hruns hok => exact .inr (.inl ⟨k, p, i, rfl, hruns, hok, rfl⟩)
  | @ended k i p hruns hok => exact .inr (.inr (.inl ⟨k, p, i, rfl, hruns, hok, rfl⟩))
  | broken t hbroken =>
      refine .inr (.inr (.inr ⟨t, rfl, ?_, rfl⟩))
      cases hstate : r.state <;> simp_all [RState.leaving, RState.inconsistent]
  | decoupled _ _ hclosing => simp [hclosing.2.1, RState.leaving] at hleaving
  | started hruns =>
      have hstarting := h.owned.starting hruns hr
      simp [hstarting, RState.leaving] at hleaving
  | returned hruns =>
      have hreleasing := h.owned.releasing hruns hr
      simp [hreleasing, RState.leaving] at hleaving
  | same | checked => exact .inl ⟨rfl, rfl⟩
  | retired | killed | assigned => simp_all [RState.leaving]

/-- A leaving resource is leaving after every action. -/
theorem Inv.leaving_kept (h : w.Inv) (hsteps : w.ResourceSteps id r a r')
    (hr : w.db.resources.get? id = some r) (hleaving : r.state.leaving = true) :
    r'.state.leaving = true := by
  rcases h.leaving_cases hsteps hr hleaving with ⟨hstate, -⟩ | ⟨_, _, _, _, _, _, rfl⟩ |
    ⟨_, _, _, _, _, _, rfl⟩ | ⟨_, _, _, rfl⟩
  · rw [hstate, hleaving]
  · rfl
  · rfl
  · rfl

/-- No thread survives a restart. -/
theorem Steps.not_runs {t : Time} (h : w.Steps (.restart t) w') : ¬ w'.Runs k p job := by
  cases h
  simp [Runs]

/-- An {lit}`AllocWorker` keeps finding its resource in STARTING. -/
theorem Inv.alloc_step (h : w.Inv) (hstep : w.Steps a w') {pc : AllocPc}
    (hruns : w'.Runs k p (.alloc id pc)) :
    ∃ r, w'.db.resources.get? id = some r ∧ r.state = .starting ∧ r.pool = p.name := by
  rcases hstep.runs_cases h.linked hruns with ⟨hold, hother⟩ | ⟨i, old, -, -, hold, hcases⟩ |
    ⟨-, -, hstarts⟩
  · obtain ⟨r, hr, hstate, hpool⟩ := h.owned.alloc hold
    obtain ⟨r', hr', hrow⟩ := hstep.resource h.linked hr
    refine ⟨r', hr', ?_, hrow.pool.trans hpool⟩
    rcases h.starting_cases hrow hr hstate with hkept | ⟨j, q, i, s, o, ha, hlast, -⟩ | ⟨t, ha, -⟩
    · exact hkept
    · obtain rfl := h.owned.unique hlast hold rfl rfl
      exact absurd ha (hother i)
    · subst ha
      exact absurd hruns hstep.not_runs
  · rcases hcases with ⟨hmoves, hdb⟩ | ⟨_, -, heq, -⟩
    · rw [hdb]
      cases hmoves <;> exact h.owned.alloc hold
    · contradiction
  · cases hstarts with
    | alloc name _ _ _ hr => exact ⟨_, hr, rfl, rfl⟩

/-- A {lit}`ReleaseWorker` keeps finding its resource in RELEASING. -/
theorem Inv.release_step (h : w.Inv) (hstep : w.Steps a w') {pc : ReleasePc}
    (hruns : w'.Runs k p (.release id pc)) :
    ∃ r, w'.db.resources.get? id = some r ∧ r.state = .releasing ∧ InPool (some p.name) r := by
  rcases hstep.runs_cases h.linked hruns with ⟨hold, hother⟩ | ⟨i, old, -, -, hold, hcases⟩ |
    ⟨-, -, hstarts⟩
  · obtain ⟨r, hr, hstate, hpool⟩ := h.owned.release hold
    obtain ⟨r', hr', hrow⟩ := hstep.resource h.linked hr
    refine ⟨r', hr', ?_, by rwa [InPool, hrow.pool]⟩
    rcases h.releasing_cases hrow hr hstate with hkept | ⟨j, q, i, s, ha, hlast, -⟩ | ⟨t, ha, -⟩
    · exact hkept
    · obtain rfl := h.owned.unique hlast hold rfl rfl
      exact absurd ha (hother i)
    · subst ha
      exact absurd hruns hstep.not_runs
  · rcases hcases with ⟨hmoves, hdb⟩ | ⟨_, -, heq, -⟩
    · rw [hdb]
      cases hmoves <;> exact h.owned.release hold
    · contradiction
  · cases hstarts with
    | release now _ hrelease _ hclosing hr' =>
        exact ⟨_, hr', by simp [Resource.decoupled, hrelease], hclosing.1⟩

/-- A {lit}`TerminateWorker` keeps finding its resource leaving. -/
theorem Inv.terminate_step (h : w.Inv) (hstep : w.Steps a w') {pc : TerminatePc}
    (hruns : w'.Runs k p (.terminate id pc)) :
    ∃ r, w'.db.resources.get? id = some r ∧ r.state.leaving = true := by
  rcases hstep.runs_cases h.linked hruns with ⟨hold, -⟩ | ⟨i, old, -, -, hold, hcases⟩ |
    ⟨-, -, hstarts⟩
  · obtain ⟨r, hr, hleaving⟩ := h.owned.terminate hold
    obtain ⟨r', hr', hrow⟩ := hstep.resource h.linked hr
    exact ⟨r', hr', h.leaving_kept hrow hr hleaving⟩
  · rcases hcases with ⟨hmoves, hdb⟩ | ⟨j, rfl, heq, hdb⟩
    · rw [hdb]
      cases hmoves
      exact h.owned.terminate hold
    · obtain ⟨rfl, -⟩ := by simpa using heq
      obtain ⟨r, hr, -⟩ := h.owned.terminate hold
      exact ⟨{ r with state := .deleting }, by simp [hdb, hr], rfl⟩
  · cases hstarts with
    | terminate _ hr _ hstate hdb => exact ⟨_, hdb ▸ hr, by rw [hstate]; rfl⟩

/-- A worker that brings a resource out of STARTING or RELEASING ran before, or the
resource was new or UP. -/
theorem Inv.brings_cases (h : w.Inv) (hstep : w.Steps a w') (hruns : w'.Runs k p job)
    (hid : job.brings? = some id) :
    (∃ old, w.Runs k p old ∧ old.brings? = some id) ∨
      w.workers.get? k = none ∧ ∀ r, w.db.resources.get? id = some r → r.state = .up := by
  rcases hstep.runs_cases h.linked hruns with ⟨hold, -⟩ | ⟨i, old, -, -, hold, hcases⟩ |
    ⟨hnew, -, hstarts⟩
  · exact .inl ⟨job, hold, hid⟩
  · rcases hcases with ⟨hmoves, -⟩ | ⟨_, -, rfl, -⟩
    · exact .inl ⟨old, hold, hmoves.brings? ▸ hid⟩
    · simp [Job.brings?] at hid
  · refine .inr ⟨hnew, fun r hr => ?_⟩
    cases hstarts with
    | release now _ _ hr₀ hclosing _ =>
        obtain rfl := Option.some.inj hid
        obtain rfl := Option.some.inj (hr.symm.trans hr₀)
        exact hclosing.2.1
    | alloc name _ _ hnone _ =>
        obtain rfl := Option.some.inj hid
        simp [hnone] at hr
    | terminate | cleanUnknown => simp [Job.brings?] at hid

/-- Workers started together are about different resources. -/
theorem Steps.started_unique (h : w.Steps a w') (hlinked : Linked w.db) {j : ℕ} {q : Pool}
    {job' : Job} (hj : w'.Runs j p job) (hjnew : w.workers.get? j = none)
    (hk : w'.Runs k q job') (hknew : w.workers.get? k = none) (hid : job.target? = some id)
    (hid' : job'.target? = some id) : j = k := by
  cases h with
  | @manager i db started pc hpc =>
      have hspawn : (started.map fun worker => worker.job.target?).Nodup → j = k := fun hnodup =>
        get?_spawn_inj hnodup hj hjnew hk hknew (by rw [hid, hid'])
      generalize hmanager : w.manager = m at hpc
      cases hpc with
      | @detectClosed c p rest _ closed hdetect =>
          have hnodup := (hlinked.decouples hdetect).nodup
          refine hspawn ?_
          simp only [List.map_map, Function.comp_def, Job.target?]
          exact hnodup.map fun _ _ => Option.some.inj
      | garbage c p rest =>
          refine hspawn ?_
          have hnodup : (p.garbageCollector w.db).Nodup := select_nodup _
          simp only [List.map_map, Function.comp_def, Job.target?]
          exact hnodup.map fun _ _ => Option.some.inj
      | allocate | cleanUnknown => exact hspawn (List.nodup_singleton _)
      | _ => exact hspawn List.nodup_nil
  | @worker l i worker db next hworker _ _ =>
      have hold : w.workers.get? j ≠ none := by
        have hsome := hj
        rw [Runs, IdTable.get?_modify] at hsome
        split_ifs at hsome with hl
        · simp [hl, hworker]
        · simp [hsome]
      exact absurd hjnew hold
  | restart => simp [Runs] at hj
  | watched | checked | takeTicket | notTaken | closeTicket | notClosed | resourceDelete | kill =>
      rw [Runs] at hj
      simp [hj] at hjnew

/-- Workers keep finding their resources, and share none that they bring out of
STARTING or RELEASING. -/
theorem Inv.owned_step (h : w.Inv) (hstep : w.Steps a w') : w'.Owned := by
  refine ⟨h.alloc_step hstep, h.release_step hstep, h.terminate_step hstep, ?_⟩
  intro j k p q job job' id hj hk hid hid'
  -- the resource of a worker that ran before is not UP
  have hbusy : ∀ {l p old}, w.Runs l p old → old.brings? = some id →
      ¬ ∀ r, w.db.resources.get? id = some r → r.state = .up := by
    intro l p old hold hbrings hup
    cases old with
    | alloc _ pc =>
        obtain rfl := Option.some.inj hbrings
        obtain ⟨r, hr, hstate, -⟩ := h.owned.alloc hold
        simp [hup r hr] at hstate
    | release _ pc =>
        obtain rfl := Option.some.inj hbrings
        obtain ⟨r, hr, hstate, -⟩ := h.owned.release hold
        simp [hup r hr] at hstate
    | terminate | cleanUnknown => simp [Job.brings?] at hbrings
  rcases h.brings_cases hstep hj hid with ⟨old, hold, hbrings⟩ | ⟨hjnew, hjup⟩ <;>
    rcases h.brings_cases hstep hk hid' with ⟨old', hold', hbrings'⟩ | ⟨hknew, hkup⟩
  · exact h.owned.unique hold hold' hbrings hbrings'
  · exact absurd hkup (hbusy hold hbrings)
  · exact absurd hjup (hbusy hold' hbrings')
  · exact hstep.started_unique h.linked hj hjnew hk hknew (Job.target?_of_brings? hid)
      (Job.target?_of_brings? hid')

/-! ## Queued tickets keep waiting -/

/-- The queue of the assignment pass after an action: it was just collected, or it
lost its first ticket, or nothing happened to it. -/
theorem Steps.assign_cases (h : w.Steps a w') {c : Cycle} {queue : PriorityQueue TicketId}
    {ids : List ResourceId} (hpc : w'.manager = .assign c queue ids) :
    (w.manager = .assign c queue ids ∧ w.assignment? a = none ∧ ∀ i, a ≠ .manager i) ∨
      (∃ i, a = .manager i ∧ w.manager = .collect c ∧ w'.db = w.db ∧
        collectQueue c.onDemandTags w.db = (queue, ids)) ∨
      ∃ i tid before, a = .manager i ∧ w.manager = .assign c before ids ∧
        before.popTask = (some tid, queue) ∧
        (w'.db = w.db ∧ w.assignment? a = none ∨
          ∃ id, w.assignment? a = some (id, tid)) := by
  cases h with
  | @manager i db started pc hstep =>
      generalize hmanager : w.manager = m at hstep
      replace hpc : pc = .assign c queue ids := hpc
      cases hstep with
      | collect c' =>
          obtain ⟨rfl, rfl, rfl⟩ := by simpa using hpc
          exact .inr (.inl ⟨i, rfl, rfl, rfl, rfl⟩)
      | @assigned c' before ids' tid queue' id hpop hchoose =>
          obtain ⟨rfl, rfl, rfl⟩ := by simpa using hpc
          exact .inr (.inr ⟨i, tid, before, rfl, rfl, hpop, .inr ⟨id,
            assignment?_of_assign hmanager hpop hchoose i⟩⟩)
      | @skipped c' before ids' tid queue' hpop hchoose =>
          obtain ⟨rfl, rfl, rfl⟩ := by simpa using hpc
          exact .inr (.inr ⟨i, tid, before, rfl, rfl, hpop, .inl ⟨rfl,
            by simp [assignment?, hmanager, ManagerPc.assignment?, hpop, hchoose]⟩⟩)
      | load | detectClosed => exact absurd hpc ManagerPc.nextDetect_ne_assign
      | plan | keepUnknown | markCleaned => exact absurd hpc ManagerPc.nextPool_ne_assign
      | _ => contradiction
  | restart => contradiction
  | worker | watched | checked | takeTicket | notTaken | closeTicket | notClosed
    | resourceDelete | kill => exact .inl ⟨hpc, rfl, by simp⟩

/-- A ticket without a resource that is not failed stays so, unless it is
assigned. -/
theorem TicketSteps.waiting {tid : TicketId} {t t' : Ticket} (h : w.TicketSteps tid t a t')
    (hnone : t.resourceId = none) (hstate : t.state ≠ .failed)
    (hassign : ∀ id, w.assignment? a ≠ some (id, tid)) :
    t'.resourceId = none ∧ t'.state ≠ .failed := by
  cases h with
  | same => exact ⟨hnone, hstate⟩
  | closed => exact ⟨hnone, by simp⟩
  | killed _ _ hid => exact absurd hnone hid
  | assigned _ heq => exact absurd heq (hassign _)

/-- The queued tickets keep waiting. -/
theorem Inv.queued_step (h : w.Inv) (hstep : w.Steps a w') : w'.Queued := by
  have hkept : ∀ {tid t}, w.db.tickets.get? tid = some t → t.resourceId = none →
      t.state ≠ .failed → (∀ id, w.assignment? a ≠ some (id, tid)) →
      ∃ t', w'.db.tickets.get? tid = some t' ∧ t'.resourceId = none ∧ t'.state ≠ .failed := by
    intro tid t ht hnone hstate hassign
    obtain ⟨t', ht', hrow⟩ := hstep.ticket h.linked ht
    exact ⟨t', ht', hrow.waiting hnone hstate hassign⟩
  refine ⟨fun {c queue ids} hpc => ?_, fun {c queue ids tid} hpc hmem => ?_⟩
  · rcases hstep.assign_cases hpc with ⟨hold, -⟩ | ⟨i, -, -, -, hcollect⟩ |
      ⟨i, tid, before, -, hold, hpop, -⟩
    · exact h.queued.wf hold
    · have hwf := (collectQueue_spec c.onDemandTags w.db).1
      rwa [hcollect] at hwf
    · exact ((h.queued.wf hold).popTask_some hpop).1
  · rcases hstep.assign_cases hpc with ⟨hold, hassign, -⟩ | ⟨i, -, -, hdb, hcollect⟩ |
      ⟨i, first, before, -, hold, hpop, hround⟩
    · obtain ⟨t, ht, hnone, hstate⟩ := h.queued.waiting hold hmem
      exact hkept ht hnone hstate (by simp [hassign])
    · have hqueue := (collectQueue_spec c.onDemandTags w.db).2.1 tid
      rw [hcollect] at hqueue
      obtain ⟨t, ht⟩ := hqueue.mp hmem
      obtain ⟨ht, hnone, hopened⟩ := mem_waiting.mp ht
      exact ⟨t, hdb ▸ ht, hnone, by simp [hopened]⟩
    · obtain ⟨-, htasks⟩ := (h.queued.wf hold).popTask_some hpop
      obtain ⟨t, ht, hnone, hstate⟩ := h.queued.waiting hold (htasks ▸ List.mem_cons_of_mem _ hmem)
      refine hkept ht hnone hstate fun id hassign => ?_
      -- the popped ticket is not in the rest of the queue
      have hnodup := (h.queued.wf hold).tasks_nodup
      rw [htasks] at hnodup
      rcases hround with ⟨-, hnothing⟩ | ⟨id', hpopped⟩
      · simp [hnothing] at hassign
      · obtain ⟨-, rfl⟩ := by simpa using hpopped.symm.trans hassign
        exact (List.nodup_cons.mp hnodup).1 hmem

/-! ## Every reachable state -/

/-- Every action keeps the invariant. -/
theorem Inv.step (h : w.Inv) (hstep : w.step a = some w') : w'.Inv :=
  ⟨h.linked_step (step_cases hstep), h.owned_step (step_cases hstep),
    h.queued_step (step_cases hstep)⟩

/-- The invariant holds in every reachable state, whatever the interleaving. -/
theorem Reaches.inv {ok : World → Action → Prop} {as : List Action} (h : Reaches ok as w) :
    w.Inv :=
  h.invariant inv_init fun _ _ _ hinv _ hstep => hinv.step hstep

end World

/-! ## What the manager relies on -/

/-- The links between tickets and resources, as the rest of the server sees them. -/
structure Consistent (db : Db) : Prop where
  opened : ∀ {tid t id}, db.tickets.get? tid = some t → t.state = .opened →
    t.resourceId = some id →
    ∃ r, db.resources.get? id = some r ∧ r.state = .up ∧ r.ticketId = some tid
  pointsBack : ∀ {id r tid}, db.resources.get? id = some r → r.ticketId = some tid →
    ∃ t, db.tickets.get? tid = some t ∧ t.resourceId = some id
  exclusive : ∀ {id j r q tid}, db.resources.get? id = some r → r.ticketId = some tid →
    db.resources.get? j = some q → q.ticketId = some tid → id = j
  idle : ∀ {id r}, db.resources.get? id = some r → r.state = .starting ∨ r.state = .releasing →
    r.ticketId = none
  unfailed : ∀ {id r tid t}, db.resources.get? id = some r → r.state = .up →
    r.ticketId = some tid → db.tickets.get? tid = some t → t.state ≠ .failed
  released : ∀ {id r}, db.resources.get? id = some r → r.releasedAt ≠ none →
    truthy r.sandbox = true ∧ r.sandboxedSince ≠ none

/-- Linked tables are consistent. -/
theorem Linked.consistent {db : Db} (h : Linked db) : Consistent db := by
  refine ⟨?_, h.pointsBack, ?_, h.idle, ?_, ?_⟩
  · intro tid t id ht hopened hid
    obtain ⟨r, hr, hup, -⟩ := h.resource ht hid
    exact ⟨r, hr, hup hopened⟩
  · intro id j r q tid hr hrt hq hqt
    obtain ⟨t, ht, hid⟩ := h.pointsBack hr hrt
    obtain ⟨t', ht', hj⟩ := h.pointsBack hq hqt
    obtain rfl := Option.some.inj (ht.symm.trans ht')
    exact Option.some.inj (hid.symm.trans hj)
  · intro id r tid t hr hup hrt ht hfailed
    obtain ⟨t', ht', hid⟩ := h.pointsBack hr hrt
    obtain rfl := Option.some.inj (ht.symm.trans ht')
    obtain ⟨r', hr', -, hleaving⟩ := h.resource ht hid
    obtain rfl := Option.some.inj (hr.symm.trans hr')
    simpa [hup, RState.leaving] using hleaving hfailed
  · intro id r hr hreleased
    have hsandbox := h.sandboxed hr (.inr hreleased)
    exact ⟨hsandbox, h.since hr hsandbox⟩

/-- The release of the ticket of a resource unlinks that resource. -/
theorem Linked.releaseResource {db : Db} (h : Linked db) {id : ResourceId} {r : Resource}
    {tid : TicketId} (hr : db.resources.get? id = some r) (hrt : r.ticketId = some tid)
    (now : Time) :
    ∃ db', Resalloc.releaseResource db tid now = .ok db' ∧
      db'.resources.get? id = some (r.released now) := by
  obtain ⟨t, ht, hid⟩ := h.pointsBack hr hrt
  exact ⟨_, releaseResource_eq _ _ _ ht hid hr, by simp [hr]⟩

namespace World

/-- In every reachable state the links are consistent; the decoupling and the
removal pass of any pool, at any time, do not raise; and the release of a ticket
clears the ticket of the resource that holds it. -/
theorem Reaches.links {as : List Action} {w : World} (h : Reaches anyStep as w) :
    Consistent w.db ∧
      (∀ (p : Pool) (now : Time), (∃ out, p.detectClosedTickets now w.db = .ok out) ∧
        ∃ db', p.requestResourceRemoval now w.db = .ok db') ∧
      ∀ (id : ResourceId) (r : Resource) (tid : TicketId) (now : Time),
        w.db.resources.get? id = some r → r.ticketId = some tid →
        ∃ db' r', releaseResource w.db tid now = .ok db' ∧
          db'.resources.get? id = some r' ∧ r'.ticketId = none := by
  have hlinked := h.inv.linked
  refine ⟨hlinked.consistent, fun p now => ⟨?_, ?_⟩, fun id r tid now hr hrt => ?_⟩
  · obtain ⟨db', ids, hok, -⟩ := detectClosedTickets_spec hlinked p now
    exact ⟨_, hok⟩
  · obtain ⟨db', hok, -⟩ := requestResourceRemoval_spec hlinked p now
    exact ⟨db', hok⟩
  · obtain ⟨db', hok, hget⟩ := hlinked.releaseResource hr hrt now
    exact ⟨db', _, hok, hget, rfl⟩

/-- A pool without tags that keeps its only resource prepared. -/
def basicPool : Pool :=
  { name := "basic", max := 1, maxPrealloc := 1, cmdNew := some "new", cmdDelete := some "delete" }

/-- The configuration with this pool. -/
def basicConfig : Config := .single basicPool (by decide +kernel)

/-- Steps of the manager with an unchanged configuration. -/
def ticks (config : Config) (n : ℕ) : List Action :=
  List.replicate n (.manager { now := 10, config := some config })

/-- A ticket gets the first resource of the pool and is closed. -/
def basicRun : List Action :=
  .takeTicket [] none :: ticks basicConfig 8 ++ List.replicate 3 (.worker 1 { now := 20 }) ++
    ticks basicConfig 12 ++ [.closeTicket 1]

/-- The links of a run that assigns a resource and closes its ticket. -/
theorem links_basicRun :
    Consistent (after anyStep basicRun (by decide +kernel)).db :=
  (Reaches.links (reaches_after anyStep basicRun (by decide +kernel))).1

end World

end Resalloc
