import Resalloc.Server.Tags
import Resalloc.Server.Allocations
import Resalloc.Server.Decisions

/-!
# No thread dies of itself

The manager thread is started once, and nobody starts it again; a worker that dies leaves its
resource behind.  Everything their steps look up is there: the rows that tables point to, the
rows of the pools, free numbers, and the priorities of the tags.  So only the configuration or
the outside world makes a thread raise.

Main results:

- Theorem {lit}`decideWhereToStart_returns_onDemand`: the planning returns if all on-demand pools
  can answer.
- Theorem {lit}`World.Reaches.manager_survives`: the manager never stops.
- Theorem {lit}`World.Reaches.workers_survive`: no worker raises unless a hook or a transaction
  of it is made to.
-/

namespace Resalloc

open Foundations

/-! ## The planning returns -/

/-- Pools that start nothing on demand take no part in the planning. -/
theorem onDemandPools_filter (pools : List Pool) (db : Db) :
    onDemandPools (pools.filter fun p => p.tagsOnDemand ≠ []) db = onDemandPools pools db := by
  simp [onDemandPools, List.filter_filter]

/-- The planning returns if every on-demand pool can answer about all its tags. -/
theorem decideWhereToStart_returns_onDemand {pools : List Pool}
    (h : ∀ p ∈ pools, p.tagsOnDemand ≠ [] → p.Prioritized) (onDemandTags : List String) (db : Db) :
    ∃ pools', decideWhereToStart onDemandTags pools db = .ok pools' := by
  have hanswer : ∀ p ∈ pools.filter fun p => p.tagsOnDemand ≠ [], p.Prioritized := by
    intro p hp
    obtain ⟨hmem, hdemand⟩ := List.mem_filter.mp hp
    exact h p hmem (of_decide_eq_true hdemand)
  obtain ⟨pools', hplan⟩ := decideWhereToStart_returns hanswer onDemandTags db
  -- whether it raises does not depend on the pools that are left out
  simp only [decideWhereToStart, onDemandPools_filter] at hplan ⊢
  split at hplan
  · cases hplan
  split at hplan
  · cases hplan
  · exact ⟨_, rfl⟩

/-! ## Where pool objects come from -/

/-- The pool objects that the manager holds. -/
def ManagerPc.held (pc : ManagerPc) : List Pool :=
  (pc.cycle?.elim [] Cycle.pools) ++ pc.current

@[simp]
theorem ManagerPc.nextDetect_held (c : Cycle) (pools : List Pool) :
    (nextDetect c pools).held = c.pools ++ pools := by
  simp [held]

@[simp]
theorem ManagerPc.nextPool_held (c : Cycle) (pools : List Pool) :
    (nextPool c pools).held = c.pools ++ pools := by
  simp [held]

/-- Up to planned starts, a pool object after a step was held before, or it was loaded by the
step. -/
def ManagerPc.Origin (pc : ManagerPc) (i : Input) (p : Pool) : Prop :=
  (∃ q ∈ pc.held, q.base = p.base) ∨
    pc = .wait ∧ ∃ config, i.config = some config ∧ ∃ q ∈ config.pools, q.base = p.base

/-- The pool objects that a step leaves with the manager, and those it gives to threads. -/
theorem ManagerPc.Steps.origin {pc pc' : ManagerPc} {i : Input} {importTime : Time} {db db' : Db}
    {started : List Worker} (hloaded : pc.Loaded)
    (h : ManagerPc.Steps i importTime db pc db' started pc') :
    (∀ p ∈ pc'.held, pc.Origin i p) ∧ ∀ worker ∈ started, pc.Origin i worker.pool := by
  have hkept : ∀ {p}, p ∈ pc.held → pc.Origin i p := fun hp => .inl ⟨_, hp, rfl⟩
  cases h with
  | stop | served => exact ⟨by simp [held, cycle?, current], by simp⟩
  | @load config _ hconfig =>
      refine ⟨?_, by simp⟩
      intro p hp
      rw [nextDetect_held, List.mem_append, or_self] at hp
      exact .inr ⟨rfl, config, hconfig, p, hp, rfl⟩
  | @detectClosed c p rest _ closed _ =>
      constructor
      · intro q hq
        rw [nextDetect_held] at hq
        apply hkept
        simp only [held, cycle?, current, Option.elim_some, List.mem_append, List.mem_cons] at hq ⊢
        tauto
      · intro worker hworker
        obtain ⟨id, -, rfl⟩ := List.mem_map.mp hworker
        exact hkept (by simp [held, current])
  | @plan c pools hplan =>
      refine ⟨?_, by simp⟩
      intro p hp
      rw [nextPool_held, List.mem_append, or_self] at hp
      obtain ⟨config, rfl⟩ := hloaded.fresh rfl rfl
      obtain ⟨q, hq, heq⟩ := exists_base_eq_of_plan config.nodup hplan hp
      exact .inl ⟨q, by simpa [held, cycle?, current] using hq, heq⟩
  | garbage c p rest =>
      refine ⟨fun q hq => hkept hq, ?_⟩
      intro worker hworker
      obtain ⟨id, -, rfl⟩ := List.mem_map.mp hworker
      exact hkept (by simp [held, current])
  | @allocate c rest _ id p p' hp _ =>
      have hfirst : (ManagerPc.allocate c p rest).Origin i p' :=
        .inl ⟨p, by simp [held, current], by rw [hp]; rfl⟩
      refine ⟨?_, by simpa using hfirst⟩
      intro q hq
      simp only [held, cycle?, current, Option.elim_some, List.mem_append, List.mem_cons] at hq
      rcases hq with hq | rfl | hq
      · exact hkept (by simp [held, cycle?, hq])
      · exact hfirst
      · exact hkept (by simp [held, current, hq])
  | cleanUnknown c p rest =>
      refine ⟨fun q hq => hkept hq, ?_⟩
      intro worker hworker
      rw [List.mem_singleton.mp hworker]
      exact hkept (by simp [held, current])
  | keepUnknown c p rest | markCleaned c p rest =>
      refine ⟨?_, by simp⟩
      intro q hq
      rw [nextPool_held] at hq
      apply hkept
      simp only [held, cycle?, current, Option.elim_some, List.mem_append, List.mem_cons] at hq ⊢
      tauto
  | removal | wantsMore | hasEnough | tooSoon | soonEnough | collect | assigned | skipped =>
      exact ⟨fun q hq => hkept hq, by simp⟩

/-- A round of the assignment pass returns if its ticket exists. -/
theorem assignTicketTo_returns {tid : TicketId} {t : Ticket} {db : Db}
    (ht : db.tickets.get? tid = some t) (ids : List ResourceId) (uuid : String) (now : Time) :
    ∃ db', assignTicketTo tid ids uuid now db = .ok db' := by
  unfold assignTicketTo
  split_ifs with hready hnone
  · exact ⟨_, rfl⟩
  · simp [ht] at hnone
  · split
    · exact ⟨_, rfl⟩
    · exact ⟨_, rfl⟩

namespace World

variable {Q : Pool → Prop} {w w' : World} {a : Action} {as : List Action} {i : Input}

/-! ## What the threads rely on -/

/-- All pools of the configurations that are loaded have a property. -/
def SuppliesPools (Q : Pool → Prop) (w : World) (a : Action) : Prop :=
  match a with
  | .manager i => w.manager = .wait → ∀ config ∈ i.config, ∀ p ∈ config.pools, Q p
  | _ => True

instance [DecidablePred Q] (w : World) (a : Action) : Decidable (SuppliesPools Q w a) :=
  match a with
  | .manager _ => inferInstanceAs (Decidable (_ → ∀ _ ∈ _, ∀ _ ∈ _, _))
  | .worker _ _ | .watcher _ | .takeTicket _ _ | .closeTicket _ | .resourceDelete _ | .kill _
  | .restart _ => inferInstanceAs (Decidable True)

/-- Every cycle loads a configuration, all pools of which have a property. -/
def LoadsPools (Q : Pool → Prop) (w : World) (a : Action) : Prop :=
  match a with
  | .manager i => w.manager = .wait → ∃ config ∈ i.config, ∀ p ∈ config.pools, Q p
  | _ => True

instance [DecidablePred Q] (w : World) (a : Action) : Decidable (LoadsPools Q w a) :=
  match a with
  | .manager _ => inferInstanceAs (Decidable (_ → ∃ _ ∈ _, ∀ _ ∈ _, _))
  | .worker _ _ | .watcher _ | .takeTicket _ _ | .closeTicket _ | .resourceDelete _ | .kill _
  | .restart _ => inferInstanceAs (Decidable True)

/-- A configuration that was loaded is one of those that are loaded. -/
theorem LoadsPools.supplies (h : LoadsPools Q w a) : SuppliesPools Q w a := by
  cases a with
  | manager i =>
      intro hwait config hconfig
      obtain ⟨config', hconfig', hsound⟩ := h hwait
      obtain rfl := Option.some.inj (hconfig.symm.trans hconfig')
      exact hsound
  | _ => trivial

/-- All pool objects have the property, and those of the manager have rows. -/
structure Supplied (Q : Pool → Prop) (w : World) : Prop where
  prepared : w.Prepared
  held : ∀ p ∈ w.manager.held, Q p.base ∧ p.name ∈ w.db.poolNames
  threads : ∀ {k worker}, w.workers.get? k = some worker → Q worker.pool.base

/-- An origin has the property and a row. -/
theorem Supplied.origin (h : w.Supplied Q) (hloads : SuppliesPools Q w (.manager i))
    (hstep : w.step (.manager i) = some w') {p : Pool} (hp : w.manager.Origin i p) :
    Q p.base ∧ p.name ∈ w'.db.poolNames := by
  have hnames := step_poolNames h.prepared.inv.linked hstep
  rcases hp with ⟨q, hq, heq⟩ | ⟨hwait, config, hconfig, q, hq, heq⟩
  · obtain ⟨hsound, hrow⟩ := h.held q hq
    rw [← heq, ← Pool.base_name, ← heq]
    exact ⟨hsound, hnames hrow⟩
  · rw [← Pool.base_name, ← heq, config.base_eq hq]
    refine ⟨hloads hwait config hconfig q hq, ?_⟩
    simp only [World.step, hwait, ManagerPc.step, hconfig, Option.some.injEq] at hstep
    rw [← hstep]
    exact (foldl_initPoolInDb_poolNames i.now w.db config.pools).2 q hq

/-- Every action keeps what the threads rely on. -/
theorem Supplied.step (h : w.Supplied Q) (hloads : SuppliesPools Q w a)
    (hstep : w.step a = some w') : w'.Supplied Q := by
  have hsteps := step_cases hstep
  have hnames := step_poolNames h.prepared.inv.linked hstep
  refine ⟨h.prepared.step hstep, ?_, ?_⟩
  · intro p hp
    cases hsteps with
    | manager hpc =>
        exact h.origin hloads hstep ((hpc.origin h.prepared.loaded).1 p hp)
    | restart => simp [ManagerPc.held, ManagerPc.cycle?, ManagerPc.current] at hp
    | worker | watched | checked | takeTicket | notTaken | closeTicket | notClosed
      | resourceDelete | kill =>
        obtain ⟨hsound, hrow⟩ := h.held p hp
        exact ⟨hsound, hnames hrow⟩
  · intro k worker hworker
    cases hsteps with
    | manager hpc =>
        rcases get?_spawn hworker with hold | ⟨-, hmem⟩
        · exact h.threads hold
        · exact (h.origin hloads hstep ((hpc.origin h.prepared.loaded).2 worker hmem)).1
    | @worker j i old db next hold _ hnext =>
        by_cases hk : k = j
        · subst hk
          obtain rfl : next = worker := by simpa [hold] using hworker
          rw [hnext.pool]
          exact h.threads hold
        · exact h.threads (by rwa [IdTable.get?_modify_of_ne hk] at hworker)
    | restart => simp at hworker
    | watched | checked | takeTicket | notTaken | closeTicket | notClosed | resourceDelete
      | kill => exact h.threads hworker

/-- The threads have what they rely on in every reachable state. -/
theorem Reaches.supplied {ok : World → Action → Prop} (h : Reaches ok as w)
    (hloads : ∀ w a, ok w a → SuppliesPools Q w a) : w.Supplied Q := by
  have hstart : init.Supplied Q :=
    ⟨Reaches.prepared .refl,
      by simp [init, ManagerPc.held, ManagerPc.cycle?, ManagerPc.current], by simp [init]⟩
  exact h.invariant hstart fun _ _ _ hsupplied hok hstep =>
    hsupplied.step (hloads _ _ hok) hstep

/-! ## The manager -/

/-- If the pool starts resources on demand, its tags have priorities. -/
def Unfailing (p : Pool) : Prop := p.tagsOnDemand ≠ [] → p.Prioritized

instance (p : Pool) : Decidable (Unfailing p) :=
  inferInstanceAs (Decidable (_ → _))

/-- No step of the manager stops it. -/
theorem Supplied.manager_step (h : w.Supplied Unfailing)
    (hloads : LoadsPools Unfailing w (.manager i)) (hlive : ∀ e, w.manager ≠ .stopped e)
    (hstep : w.step (.manager i) = some w') (e : PyError) : w'.manager ≠ .stopped e := by
  obtain rfl := Option.some.inj hstep
  obtain ⟨⟨hinv, howners, hloaded, -⟩, hheld, -⟩ := h
  change (w.manager.step i w.importTime w.db).2.2 ≠ .stopped e
  have hnextDetect : ∀ c pools, ManagerPc.nextDetect c pools ≠ .stopped e := by
    intro c pools
    cases pools <;> simp [ManagerPc.nextDetect]
  have hnextPool : ∀ c pools, ManagerPc.nextPool c pools ≠ .stopped e := by
    intro c pools
    cases pools <;> simp [ManagerPc.nextPool]
  cases hmanager : w.manager with
  | stopped e => exact absurd hmanager (hlive e)
  | wait =>
      obtain ⟨config, hconfig, -⟩ := hloads hmanager
      simp only [ManagerPc.step, Option.mem_def.mp hconfig]
      exact hnextDetect _ _
  | detectClosed c p rest =>
      obtain ⟨db', closed, hdetect, -⟩ := detectClosedTickets_spec hinv.linked p i.now
      simp only [ManagerPc.step, hdetect]
      exact hnextDetect _ _
  | plan c =>
      have hanswer : ∀ p ∈ c.pools, p.tagsOnDemand ≠ [] → p.Prioritized := fun p hp =>
        (hheld p (by simp [hmanager, ManagerPc.held, ManagerPc.cycle?, hp])).1
      obtain ⟨pools, hpools⟩ := decideWhereToStart_returns_onDemand hanswer c.onDemandTags w.db
      simp only [ManagerPc.step, hpools]
      exact hnextPool _ _
  | removal c p rest =>
      obtain ⟨db', hremoval, -⟩ := requestResourceRemoval_spec hinv.linked p i.now
      simp [ManagerPc.step, hremoval]
  | garbage => simp [ManagerPc.step]
  | stats =>
      simp only [ManagerPc.step]
      split_ifs <;> simp
  | tooSoon c p rest =>
      have hrow := (hheld p (by simp [hmanager, ManagerPc.held, ManagerPc.current])).2
      obtain ⟨row, -, hfound⟩ := w.db.exists_pool? hrow
      simp only [ManagerPc.step, Pool.tooSoon, hfound]
      cases decide (i.now < row.lastStart + p.startDelay) <;> simp
  | allocate c p rest =>
      have hrow := (hheld p (by simp [hmanager, ManagerPc.held, ManagerPc.current])).2
      obtain ⟨db', id, hallocate⟩ := @allocate_returns w.db
        { p with startOnDemandThisCycle := p.startOnDemandThisCycle - 1 } howners hrow
        i.now w.importTime i.datetime
      simp [ManagerPc.step, hallocate]
  | cleanUnknown =>
      simp only [ManagerPc.step]
      split_ifs
      · simp
      · exact hnextPool _ _
  | markCleaned =>
      simp only [ManagerPc.step]
      exact hnextPool _ _
  | collect => simp [ManagerPc.step]
  | assign c queue ids =>
      simp only [ManagerPc.step]
      split
      · simp
      next tid queue' hpop =>
        -- the queued ticket is there
        have hmem : tid ∈ queue.tasks := (hinv.queued.wf hmanager).popTask_mem (by rw [hpop])
        obtain ⟨t, ht, -⟩ := hinv.queued.waiting hmanager hmem
        obtain ⟨db', hround⟩ := assignTicketTo_returns ht ids i.uuid.1 i.now
        simp [hround]

end World

/-! ## The workers -/

/-- The rows of a resource of the pool can be written: its tags have different names, and its
`id` is the name of its row. -/
def Pool.Storable (p : Pool) : Prop := p.tagSet.Nodup ∧ p.id = p.name

instance (p : Pool) : Decidable p.Storable :=
  inferInstanceAs (Decidable (_ ∧ _))

namespace World

variable {w w' : World} {a : Action} {as : List Action}

/-- Every resource in STARTING has an identifier of its pool. -/
structure Identified (w : World) : Prop where
  row : ∀ {id r}, w.db.resources.get? id = some r → r.state = .starting →
    ∃ row ∈ w.db.idsWithinPool, row.resourceId = id

/-- Every action keeps the identifiers of the resources in STARTING. -/
theorem Identified.step (h : w.Identified) (hinv : w.Inv) (hstep : w.step a = some w') :
    w'.Identified := by
  have hsteps := step_cases hstep
  have hold : ∀ {id r r'}, w.db.resources.get? id = some r → w'.db.resources.get? id = some r' →
      r'.state = .starting → ∃ row ∈ w.db.idsWithinPool, row.resourceId = id := by
    intro id r r' hr hr' hstate
    obtain ⟨r'', hr'', hrow⟩ := hsteps.resource hinv.linked hr
    obtain rfl := Option.some.inj (hr'.symm.trans hr'')
    exact h.row hr (hrow.of_starting hstate).1
  constructor
  intro id r' hr' hstate
  cases hinv.numberSteps hstep with
  | kept gone hends hrows =>
      obtain ⟨r, hr⟩ := hrows hr'
      obtain ⟨row, hrow, hid⟩ := hold hr hr' hstate
      refine ⟨row, ?_, hid⟩
      rw [hends.keeps.1, List.mem_filter]
      refine ⟨hrow, ?_⟩
      rw [hid, decide_eq_true_eq]
      intro hgone
      simp [hends.ended hgone.symm hr'] at hstate
  | @given i c p rest new ha hmanager hgives =>
      rw [hgives.ids]
      by_cases hnew : id = new
      · exact ⟨_, List.mem_append_right _ (List.mem_singleton_self _), hnew.symm⟩
      · have hr : w.db.resources.get? id = some r' := by rw [← hgives.others id hnew, hr']
        obtain ⟨row, hrow, hid⟩ := hold hr hr' hstate
        exact ⟨row, List.mem_append_left _ hrow, hid⟩

end World

/-- The last transaction of an allocation returns if everything it looks up is there, and the
tags of the pool have different names. -/
theorem allocFinish_returns {p : Pool} {id : ResourceId} {db : Db} {r : Resource}
    (hpool : p.id ∈ db.poolNames) (hr : db.resources.get? id = some r) (hbare : r.tags = [])
    (hid : ∃ row ∈ db.idsWithinPool, row.resourceId = id) (htags : p.tagSet.Nodup)
    (startInitiated now : Time) (rounding : Rounding) (output : Output) :
    ∃ db', allocFinish p startInitiated now rounding output id db = .ok db' := by
  obtain ⟨row, -, hrow⟩ := db.exists_pool? hpool
  obtain ⟨number, hnumber, hid⟩ := hid
  have hany : db.idsWithinPool.any (fun row => row.resourceId = id) = true :=
    List.any_eq_true.mpr ⟨number, hnumber, by simpa using hid⟩
  simp only [allocFinish, hrow, hr, hbare, List.nil_append, Pool.resourceTags_ids, htags, if_true,
    Db.modifyResource, Db.modifyPool, hany]
  split_ifs
  · exact ⟨_, rfl⟩
  · exact ⟨_, rfl⟩

/-- The first transaction of a termination returns if its resource exists. -/
theorem terminateRequest_returns {id : ResourceId} {db : Db} {r : Resource}
    (hr : db.resources.get? id = some r) : ∃ out, terminateRequest id db = .ok out := by
  simp only [terminateRequest, hr]
  split
  · split_ifs
    · exact ⟨_, rfl⟩
    · exact ⟨_, rfl⟩
  · exact ⟨_, rfl⟩

/-- The manager starts running threads. -/
theorem ManagerPc.Steps.started_running {pc pc' : ManagerPc} {i : Input} {importTime : Time}
    {db db' : Db} {started : List Worker} {worker : Worker}
    (h : ManagerPc.Steps i importTime db pc db' started pc') (hworker : worker ∈ started) :
    worker.status = .running := by
  cases h with
  | detectClosed | garbage =>
      obtain ⟨id, -, rfl⟩ := List.mem_map.mp hworker
      rfl
  | allocate | cleanUnknown =>
      rw [List.mem_singleton.mp hworker]
  | _ => simp at hworker

namespace World

variable {w w' : World} {a : Action} {as : List Action} {i : Input} {k : ℕ} {worker : Worker}

/-- The hook of a step of the worker prints what the worker can decode. -/
def Readable (worker : Worker) (i : Input) : Prop :=
  worker.job = .cleanUnknown .cmdList → listAllResources i.output.stdout ≠ none

instance (worker : Worker) (i : Input) : Decidable (Readable worker i) :=
  inferInstanceAs (Decidable (_ → _))

/-- No hook and no transaction of a worker is made to raise, `cmd_list` prints UTF-8, and each
loaded pool can be written into the rows of its resources: its tags have different names, and no
option `name` or `id` differs from its key. -/
def Unprovoked (w : World) (a : Action) : Prop :=
  SuppliesPools Pool.Storable w a ∧
    match a with
    | .worker k i => i.raises = false ∧ ∀ worker ∈ w.workers.get? k, Readable worker i
    | _ => True

instance (w : World) (a : Action) : Decidable (Unprovoked w a) :=
  match a with
  | .worker k i =>
      inferInstanceAs (Decidable (SuppliesPools _ w (.worker k i) ∧ i.raises = false ∧ ∀ _ ∈ _, _))
  | .manager i => inferInstanceAs (Decidable (SuppliesPools _ w (.manager i) ∧ True))
  | .watcher _ | .takeTicket _ _ | .closeTicket _ | .resourceDelete _ | .kill _ | .restart _ =>
      inferInstanceAs (Decidable (True ∧ True))

/-- A step of a worker that is not made to raise does not raise. -/
theorem Equipped.worker_step (h : w.Equipped) (hidentified : w.Identified)
    (hworker : w.workers.get? k = some worker) (hrunning : worker.status = .running)
    (hstorable : worker.pool.Storable) (hok : i.raises = false) (hreadable : Readable worker i) :
    (worker.step i w.db).2.status ≠ .raised := by
  have hruns := runs_of_running hworker hrunning
  simp only [Worker.step, hok, Bool.false_eq_true, if_false]
  cases hjob : worker.job with
  | alloc id pc =>
      rw [hjob] at hruns
      obtain ⟨r, hr, hstate, -⟩ := h.inv.owned.alloc hruns
      cases pc with
      | load => simp [hr, Worker.goto, hrunning]
      | cmdNew => simp [Worker.goto, hrunning]
      | finish s output =>
          obtain ⟨htags, hid⟩ := hstorable
          have hpool : worker.pool.id ∈ w.db.poolNames := by rw [hid]; exact h.rows hruns
          obtain ⟨db', hfinish⟩ := allocFinish_returns hpool hr (h.bare hr hstate).1
            (hidentified.row hr hstate) htags s i.now i.rounding output
          simp [hfinish, Worker.finish]
  | terminate id pc =>
      rw [hjob] at hruns
      obtain ⟨r, hr, -⟩ := h.inv.owned.terminate hruns
      cases pc with
      | request =>
          obtain ⟨out, hout⟩ := terminateRequest_returns hr
          cases out <;> simp [hout, Worker.goto, Worker.finish, hrunning]
      | cmdDelete => simp [Worker.goto, hrunning]
      | close => simp [terminateClose, hr, Worker.finish]
  | release id pc =>
      rw [hjob] at hruns
      obtain ⟨r, hr, -⟩ := h.inv.owned.release hruns
      cases pc with
      | load => simp [hr, Worker.goto, hrunning]
      | cmdRelease => simp [Worker.goto, hrunning]
      | finish status => simp [releaseFinish, hr, Worker.finish]
  | cleanUnknown pc =>
      cases pc with
      | cmdList =>
          obtain ⟨names, hnames⟩ := Option.ne_none_iff_exists'.mp (hreadable hjob)
          simp [hnames, Worker.goto, hrunning]
      | readKnown => simp [Worker.goto, hrunning]
      | cmdDelete names => cases names <;> simp [Worker.goto, Worker.finish, hrunning]

/-- Unless a hook or a transaction is made to raise, the resources in STARTING keep their
identifiers, and no thread dies. -/
theorem Reaches.identified_unraised (h : Reaches Unprovoked as w) : w.Identified ∧
    ∀ k worker, w.workers.get? k = some worker → worker.status ≠ .raised := by
  induction h with
  | refl => exact ⟨⟨by simp [init]⟩, by simp [init]⟩
  | @snoc as w w' a hprev hok hstep ih =>
      obtain ⟨hidentified, hlive⟩ := ih
      have hequipped := Reaches.equipped hprev.anyStep
      have hsupplied := Reaches.supplied hprev fun _ _ hok => hok.1
      refine ⟨hidentified.step hequipped.inv hstep, ?_⟩
      intro k worker hworker
      cases a with
      | worker j i =>
          obtain ⟨old, db, next, hold, hrunning, hnext, rfl⟩ := step_worker hstep
          by_cases hk : k = j
          · subst hk
            obtain rfl : next = worker := by simpa [hold] using hworker
            have hstatus := hequipped.worker_step hidentified hold hrunning
              (hsupplied.threads hold) hok.2.1 (hok.2.2 old hold)
            rwa [hnext] at hstatus
          · exact hlive k worker (by rwa [IdTable.get?_modify_of_ne hk] at hworker)
      | manager i =>
          cases step_cases hstep with
          | manager hpc =>
              rcases get?_spawn hworker with hold | ⟨-, hmem⟩
              · exact hlive k worker hold
              · rw [hpc.started_running hmem]
                simp
      | restart =>
          cases step_cases hstep
          simp at hworker
      | watcher | takeTicket | closeTicket | resourceDelete | kill =>
          have hold : w.workers.get? k = some worker := by
            cases step_cases hstep <;> exact hworker
          exact hlive k worker hold

/-- No worker dies of an exception of its own: as long as no hook and no transaction is made to
raise, `cmd_list` prints UTF-8 and the loaded pools can be written into the rows of their
resources, every thread that was ever started still runs or has returned. -/
theorem Reaches.workers_survive (h : Reaches Unprovoked as w)
    (hworker : w.workers.get? k = some worker) : worker.status ≠ .raised :=
  h.identified_unraised.2 k worker hworker

/-- A ticket starts a resource on demand, and the server is restarted twice. -/
def survivedRun : List Action :=
  .takeTicket ["x"] none :: ticks onDemandConfig 8 ++
    [.worker 1 {}, .restart 30] ++ ticks onDemandConfig 12 ++ [.restart 60]

/-- The only worker of the starting run has not raised after its hook. -/
theorem workers_survive_ticks : ∃ worker,
    (after Unprovoked (ticks basicConfig 8 ++ List.replicate 3 (.worker 1 { now := 20 }))
      (by decide +kernel)).workers.get? 1 = some worker ∧ worker.status ≠ .raised := by
  have hrun := reaches_after Unprovoked
    (ticks basicConfig 8 ++ List.replicate 3 (.worker 1 { now := 20 })) (by decide +kernel)
  have hworker : ((after Unprovoked (ticks basicConfig 8 ++
      List.replicate 3 (.worker 1 { now := 20 })) (by decide +kernel)).workers.get? 1).isSome =
      true := by decide +kernel
  obtain ⟨worker, hworker⟩ := Option.isSome_iff_exists.mp hworker
  exact ⟨worker, hworker, Reaches.workers_survive hrun hworker⟩

end World

end Resalloc
