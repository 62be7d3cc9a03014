import Resalloc.Server.Lifecycle
import Resalloc.Server.Numbers
import Resalloc.Server.Survival

/-!
# The hooks of a resource

The scripts of the administrator see a resource through the hooks that the workers run for it,
and through the environment that each hook gets.  Both are about the whole life of a resource:
which hooks run at all, in which order, and what they are told.

Main results:

- Theorem {lit}`World.Reaches.hooks_in_order`: whatever the interleaving, {lit}`cmd_new` runs at
  most once, then {lit}`cmd_release`, then {lit}`cmd_delete`.
- Theorem {lit}`World.Reaches.hooks_agree`: all hooks of a resource are told the same.
-/

namespace Resalloc

open Foundations

/-! ## Kinds of hooks -/

/-- The hooks that workers run for a resource.  The {lit}`cmd_livecheck` of the watcher is none
of them: a check that was collected in time may run next to any of them, or after all. -/
inductive HookKind
  | new
  | release
  | delete
deriving DecidableEq

/-- The place of a hook in the life of its resource. -/
def HookKind.rank : HookKind → ℕ
  | .new => 0
  | .release => 1
  | .delete => 2

/-- The hook that is the next thing a worker does. -/
def Job.hook? : Job → Option HookKind
  | .alloc _ (.cmdNew _) => some .new
  | .release _ .cmdRelease => some .release
  | .terminate _ .cmdDelete => some .delete
  | _ => none

/-- The age of the resources that a job is for. -/
def Job.age : Job → ℕ
  | .alloc _ _ | .cleanUnknown _ => 0
  | .release _ _ => 1
  | .terminate _ _ => 2

theorem Job.rank_of_hook? {job : Job} {kind : HookKind} (h : job.hook? = some kind) :
    kind.rank = job.age := by
  unfold Job.hook? at h
  split at h <;> cases h <;> rfl

/-- Resources go through these ages one after another. -/
def RState.age : RState → ℕ
  | .starting => 0
  | .up | .releasing => 1
  | .deleteRequest | .deleting | .ended => 2

theorem RState.age_le (s : RState) : s.age ≤ 2 := by
  cases s <;> decide

/-- The age of a leaving resource. -/
theorem RState.age_of_leaving {s : RState} (h : s.leaving = true) : s.age = 2 := by
  cases s <;> simp_all [RState.leaving, RState.age]

namespace World

variable {w w' : World} {a : Action} {as : List Action} {id : ResourceId} {kind : HookKind}
variable {r r' : Resource} {j k : ℕ} {p q : Pool} {job : Job}

/-- The hook of a resource that a step of a worker starts, also if it raises. -/
def hookOf? (id : ResourceId) (w : World) (a : Action) : Option HookKind :=
  match a with
  | .worker k _ =>
      (w.workers.get? k).bind fun worker =>
        if worker.status = .running ∧ worker.job.target? = some id then worker.job.hook? else none
  | _ => none

/-- A started hook is that of a running worker. -/
theorem runs_of_hookOf? (h : w.hookOf? id a = some kind) :
    ∃ k p i job, a = .worker k i ∧ w.Runs k p job ∧ job.target? = some id ∧
      job.hook? = some kind := by
  unfold hookOf? at h
  split at h
  next k i =>
    obtain ⟨worker, hworker, hhook⟩ := Option.bind_eq_some_iff.mp h
    split_ifs at hhook with hcond
    exact ⟨k, worker.pool, i, worker.job, rfl, runs_of_running hworker hcond.1, hcond.2, hhook⟩
  next => contradiction

/-- The age of a resource, also before it is inserted. -/
def age (id : ResourceId) (w : World) : ℕ := (w.db.resources.get? id).elim 0 fun r => r.state.age

theorem age_of_get? (hr : w.db.resources.get? id = some r) : w.age id = r.state.age := by
  simp [age, hr]

/-- No resource grows younger. -/
theorem Inv.age_le (h : w.Inv) (hstep : w.Steps a w') (id : ResourceId) : w.age id ≤ w'.age id := by
  cases hr : w.db.resources.get? id with
  | none => simp [age, hr]
  | some r =>
      obtain ⟨r', hr', hrow⟩ := hstep.resource h.linked hr
      rw [age_of_get? hr, age_of_get? hr']
      cases hrow with
      | same | checked => exact Nat.le_refl _
      | assigned => exact Nat.le_refl _
      | decoupled _ _ hclosing =>
          simp only [Resource.decoupled, hclosing.2.1]
          split_ifs <;> exact Nat.le_refl _
      | retired | killed | broken => exact r.state.age_le
      | started hruns =>
          rw [h.owned.starting hruns hr]
          exact Nat.zero_le _
      | terminating | ended => exact r.state.age_le
      | returned hruns =>
          rw [h.owned.releasing hruns hr]
          exact Nat.le_refl _

/-- The resource of a running worker has the age that the worker is for. -/
theorem Inv.age_of_runs (h : w.Inv) (hruns : w.Runs k p job) (htarget : job.target? = some id) :
    w.age id = job.age := by
  cases job with
  | alloc j pc =>
      obtain rfl := Option.some.inj htarget
      obtain ⟨r, hr, hstate, -⟩ := h.owned.alloc hruns
      rw [age_of_get? hr, hstate]
      rfl
  | release j pc =>
      obtain rfl := Option.some.inj htarget
      obtain ⟨r, hr, hstate, -⟩ := h.owned.release hruns
      rw [age_of_get? hr, hstate]
      rfl
  | terminate j pc =>
      obtain rfl := Option.some.inj htarget
      obtain ⟨r, hr, hleaving⟩ := h.owned.terminate hruns
      rw [age_of_get? hr, RState.age_of_leaving hleaving]
      rfl
  | cleanUnknown => contradiction

/-- A hook runs at the age it belongs to. -/
theorem Inv.age_of_hookOf? (h : w.Inv) (hhook : w.hookOf? id a = some kind) :
    w.age id = kind.rank := by
  obtain ⟨k, p, i, job, -, hruns, htarget, hkind⟩ := runs_of_hookOf? hhook
  rw [h.age_of_runs hruns htarget, Job.rank_of_hook? hkind]

/-- Two workers for one resource are both terminators, or they are one worker. -/
theorem Inv.alone (h : w.Inv) {job' : Job} (hj : w.Runs j p job) (hk : w.Runs k q job')
    (hid : job.target? = some id) (hid' : job'.target? = some id) :
    j = k ∨ ∃ pc pc', job = .terminate id pc ∧ job' = .terminate id pc' := by
  have hage : job.age = job'.age := by
    rw [← h.age_of_runs hj hid, ← h.age_of_runs hk hid']
  cases job with
  | alloc | release =>
      left
      cases job' with
      | alloc | release => exact h.owned.unique hj hk hid hid'
      | terminate => simp [Job.age] at hage
      | cleanUnknown => contradiction
  | terminate i pc =>
      cases job' with
      | terminate i' pc' =>
          obtain rfl := Option.some.inj hid
          obtain rfl := Option.some.inj hid'
          exact .inr ⟨pc, pc', rfl, rfl⟩
      | alloc | release => simp [Job.age] at hage
      | cleanUnknown => contradiction
  | cleanUnknown => contradiction

/-! ## Hooks of a run -/

/-- The hooks of a resource that a run starts. -/
def hooks (id : ResourceId) (as : List Action) : List HookKind := observe (hookOf? id) step init as

/-- What the hooks so far say about the state. -/
structure Hooked (id : ResourceId) (shown : List HookKind) (w : World) : Prop where
  once : shown.count .new ≤ 1
  /-- After {lit}`cmd_new` its worker is in its last transaction. -/
  prepared : .new ∈ shown → (∃ r, w.db.resources.get? id = some r) ∧
    ∀ {k p pc}, w.Runs k p (.alloc id pc) → ∃ s output, pc = .finish s output
  finishing : ∀ {k p s output}, w.Runs k p (.alloc id (.finish s output)) → .new ∈ shown
  grown : w.age id = 1 → .new ∈ shown
  released : .release ∈ shown → .new ∈ shown

/-- A resource comes to the age of use by the last transaction of {lit}`cmd_new`'s worker. -/
theorem Inv.grown_cases (h : w.Inv) (hstep : w.Steps a w') (hage : w'.age id = 1) :
    w.age id = 1 ∨ ∃ k p s output, w.Runs k p (.alloc id (.finish s output)) := by
  cases hr : w.db.resources.get? id with
  | none =>
      cases hr' : w'.db.resources.get? id with
      | none => simp [age, hr'] at hage
      | some r' =>
          obtain ⟨i, c, p, rest, name, -, -, -, rfl⟩ := hstep.created h.linked hr' hr
          simp [age, hr', Pool.newResource, RState.age] at hage
  | some r =>
      obtain ⟨r', hr', hrow⟩ := hstep.resource h.linked hr
      rw [age_of_get? hr'] at hage
      rw [age_of_get? hr]
      cases hrow with
      | same | checked | assigned => exact .inl hage
      | decoupled _ _ hclosing => exact .inl (by simp [hclosing.2.1, RState.age])
      | retired | killed | broken | terminating | ended =>
          simp [Resource.retired, RState.age] at hage
      | started hruns => exact .inr ⟨_, _, _, _, hruns⟩
      | returned hruns =>
          rw [h.owned.releasing hruns hr]
          exact .inl rfl

/-- Every action keeps what the hooks say about the state. -/
theorem Hooked.step {shown : List HookKind} (h : Hooked id shown w) (hinv : w.Inv)
    (hstep : w.Steps a w') : Hooked id (shown ++ (w.hookOf? id a).toList) w' := by
  -- the worker of a started cmd_new
  have hnew : w.hookOf? id a = some .new → ∃ k p i s, a = .worker k i ∧
      w.Runs k p (.alloc id (.cmdNew s)) := by
    intro hhook
    obtain ⟨k, p, i, job, ha, hruns, htarget, hkind⟩ := runs_of_hookOf? hhook
    unfold Job.hook? at hkind
    split at hkind
    next j s =>
      obtain rfl := Option.some.inj htarget
      exact ⟨k, p, i, s, ha, hruns⟩
    all_goals simp at hkind
  have hgrown : w'.age id = 1 → .new ∈ shown := by
    intro hage
    rcases hinv.grown_cases hstep hage with hold | ⟨k, p, s, output, hruns⟩
    · exact h.grown hold
    · exact h.finishing hruns
  refine ⟨?_, ?_, ?_, fun hage => List.mem_append_left _ (hgrown hage), ?_⟩
  · rw [List.count_append]
    cases hhook : w.hookOf? id a with
    | none => simpa using h.once
    | some kind =>
        by_cases hkind : kind = .new
        · subst hkind
          obtain ⟨k, p, i, s, -, hruns⟩ := hnew hhook
          have hfirst : .new ∉ shown := by
            intro hmem
            obtain ⟨_, _, hpc⟩ := (h.prepared hmem).2 hruns
            contradiction
          simp [List.count_eq_zero.mpr hfirst]
        · simpa [hkind] using h.once
  · intro hmem
    have hshown : .new ∈ shown ∨ w.hookOf? id a = some .new := by simpa using hmem
    have hrow : ∃ r, w.db.resources.get? id = some r := by
      rcases hshown with hold | hhook
      · exact (h.prepared hold).1
      · obtain ⟨k, p, i, s, -, hruns⟩ := hnew hhook
        obtain ⟨r, hr, -⟩ := hinv.owned.alloc hruns
        exact ⟨r, hr⟩
    obtain ⟨r, hr⟩ := hrow
    constructor
    · obtain ⟨r', hr', -⟩ := hstep.resource hinv.linked hr
      exact ⟨r', hr'⟩
    intro k p pc hruns
    rcases hstep.runs_cases hinv.linked hruns with ⟨hold, hother⟩ |
      ⟨i, old, ha, -, hold, ⟨hmoves, -⟩ | ⟨_, -, heq, -⟩⟩ | ⟨-, -, hstarts⟩
    · rcases hshown with hbefore | hhook
      · exact (h.prepared hbefore).2 hold
      · obtain ⟨j, q, i, s, ha, hj⟩ := hnew hhook
        obtain rfl := hinv.owned.unique hj hold rfl rfl
        exact absurd ha (hother i)
    · cases hmoves with
      | allocLoad =>
          rcases hshown with hbefore | hhook
          · obtain ⟨_, _, hpc⟩ := (h.prepared hbefore).2 hold
            contradiction
          · obtain ⟨j, q, i', s, hj, hruns'⟩ := hnew hhook
            obtain ⟨rfl, -⟩ := Action.worker.inj (ha.symm.trans hj)
            simpa [Runs, hold] using hold.symm.trans hruns'
      | cmdNew => exact ⟨_, _, rfl⟩
    · contradiction
    · cases hstarts with
      | alloc _ _ _ hnone => simp [hr] at hnone
  · intro k p s output hruns
    rcases hstep.runs_cases hinv.linked hruns with ⟨hold, -⟩ |
      ⟨i, old, rfl, -, hold, ⟨hmoves, -⟩ | ⟨_, -, heq, -⟩⟩ | ⟨-, -, hstarts⟩
    · exact List.mem_append_left _ (h.finishing hold)
    · cases hmoves with
      | cmdNew =>
          have hhook : w.hookOf? id (.worker k i) = some .new := by
            simp [hookOf?, show w.workers.get? k = _ from hold, Job.target?, Job.hook?]
          simp [hhook]
    · contradiction
    · cases hstarts
  · intro hmem
    rcases List.mem_append.mp hmem with hold | hhook
    · exact List.mem_append_left _ (h.released hold)
    · have hage := hinv.age_of_hookOf? (by simpa using hhook : w.hookOf? id a = some .release)
      exact List.mem_append_left _ (h.grown hage)

/-- Whatever the interleaving, the failures and the restarts are, the hooks of a resource come in
the order of its life: {lit}`cmd_new` at most once, {lit}`cmd_release` only after it, and after
{lit}`cmd_delete` nothing but {lit}`cmd_delete`.  Only terminators ever work on one resource at
the same time. -/
theorem Reaches.hooks_in_order (h : Reaches anyStep as w) (id : ResourceId) :
    (hooks id as).Pairwise (fun hook later => hook.rank ≤ later.rank) ∧
      (hooks id as).count .new ≤ 1 ∧
      (.release ∈ hooks id as → .new ∈ hooks id as) ∧
      ∀ j k p q job job', w.Runs j p job → w.Runs k q job' → job.target? = some id →
        job'.target? = some id →
        j = k ∨ ∃ pc pc', job = .terminate id pc ∧ job' = .terminate id pc' := by
  have hordered := h.observe_phases (hookOf? id) (P := Inv) (age id) HookKind.rank inv_init
    fun u a v hinv _ hstep =>
      ⟨hinv.step hstep, hinv.age_le (step_cases hstep) id, fun kind hkind =>
        have hage := hinv.age_of_hookOf? hkind
        ⟨hage.le, hage ▸ hinv.age_le (step_cases hstep) id⟩⟩
  have hhooked : Hooked id (hooks id as) w := by
    clear hordered
    induction h with
    | refl => refine ⟨?_, ?_, ?_, ?_, ?_⟩ <;> simp [hooks, observe, Runs, init, age]
    | @snoc as w w' a hprev _ hstep ih =>
        rw [hooks, hprev.observe_snoc _ hstep]
        exact ih.step (Reaches.inv hprev) (step_cases hstep)
  exact ⟨hordered.2.1, hhooked.once, hhooked.released,
    fun _ _ _ _ _ _ hj hk hid hid' => h.inv.alone hj hk hid hid'⟩

/-! ## What the hooks are told -/

end World

/-- What {lit}`command_env` tells a hook about its resource, besides the identifier. -/
structure CommandEnv where
  poolId : String
  resName : Option String
  idInPool : Option ℕ
  namedCounters : List (String × ℕ)
  data : Option (List UInt8)
deriving DecidableEq

/-- {lit}`Resource.id_in_pool`. -/
def Db.idInPool (db : Db) (id : ResourceId) : Option ℕ :=
  (db.idsWithinPool.find? fun row => row.resourceId = id).map IDWithinPool.id

/-- {lit}`Resource.named_counters_dict`.  A session has one object for a resource and a counter,
read from the first of their rows. -/
def Db.namedCountersDict (db : Db) (id : ResourceId) : List (String × ℕ) :=
  (db.namedCounters.filter fun row => row.resourceId = id).foldl (fun dict row =>
    if row.counterName ∈ dict.map Prod.fst then dict
    else dict ++ [(row.counterName, row.value)]) []

/-- The environment that a session reads for a hook of a pool. -/
def commandEnv (p : Pool) (id : ResourceId) (r : Resource) (db : Db) : CommandEnv where
  poolId := p.id
  resName := r.name
  idInPool := db.idInPool id
  namedCounters := db.namedCountersDict id
  data := r.data

/-- The resource whose environment the next transaction of a worker reads. -/
def Job.reads? : Job → Option ResourceId
  | .alloc id .load | .release id .load | .terminate id .request => some id
  | _ => none

/-- What a worker gives its hook; {lit}`AllocWorker` leaves the data out. -/
def Worker.env (worker : Worker) (id : ResourceId) (r : Resource) (db : Db) : CommandEnv :=
  match worker.job with
  | .alloc _ _ => { commandEnv worker.pool id r db with data := none }
  | _ => commandEnv worker.pool id r db

/-- What the watcher gives a livecheck. -/
def CheckItem.env (item : CheckItem) (r : Resource) (db : Db) : CommandEnv :=
  commandEnv item.pool item.resourceId r db

section Numbers

variable {db db' : Db} {id : ResourceId} {gone : Option ResourceId}

theorem Db.idInPool_eq_head? (db : Db) (id : ResourceId) :
    db.idInPool id =
      ((db.idsWithinPool.filter fun row => row.resourceId = id).map IDWithinPool.id).head? := by
  rw [Db.idInPool, List.head?_map, List.head?_filter]

/-- The numbers of another resource are taken back. -/
theorem Db.KeepsNumbers.rows_of_ne (h : db.KeepsNumbers db' gone) (hne : gone ≠ some id) :
    (db'.idsWithinPool.filter fun row => row.resourceId = id) =
        db.idsWithinPool.filter (fun row => row.resourceId = id) ∧
      (db'.namedCounters.filter fun row => row.resourceId = id) =
        db.namedCounters.filter fun row => row.resourceId = id := by
  obtain ⟨hids, hcounters⟩ := h
  rw [hids, hcounters, List.filter_filter, List.filter_filter]
  constructor
  · apply List.filter_congr
    intro row _
    by_cases hrow : row.resourceId = id <;> simp [hrow, hne.symm]
  · apply List.filter_congr
    intro row _
    by_cases hrow : row.resourceId = id <;> simp [hrow, hne.symm]

/-- Another resource is given numbers. -/
theorem Pool.GivesNumbers.rows_of_ne {p : Pool} {new : ResourceId}
    (h : p.GivesNumbers db db' new) (hne : new ≠ id) :
    (db'.idsWithinPool.filter fun row => row.resourceId = id) =
        db.idsWithinPool.filter (fun row => row.resourceId = id) ∧
      (db'.namedCounters.filter fun row => row.resourceId = id) =
        db.namedCounters.filter fun row => row.resourceId = id := by
  obtain ⟨news, hnews, hvalues⟩ := h.values
  rw [h.ids, hvalues, List.filter_append, List.filter_append]
  constructor
  · simp [Db.newId, hne]
  · rw [List.append_right_eq_self, List.filter_eq_nil_iff]
    intro row hrow
    simp [hnews.owner row hrow, hne]

end Numbers

namespace World

/-- The environments that a transaction reads for later hooks, also if it goes no further. -/
def prepares (w : World) (a : Action) : List (ResourceId × CommandEnv) :=
  match a with
  | .worker k _ =>
      match w.workers.get? k with
      | some worker =>
          if worker.status = .running then
            worker.job.reads?.toList.flatMap fun id =>
              (w.db.resources.get? id).toList.map fun r => (id, worker.env id r w.db)
          else []
      | none => []
  | .watcher i =>
      match w.watcher, i.config with
      | .sleep, some config =>
          (collectChecks config w.db).flatMap fun item =>
            (w.db.resources.get? item.resourceId).toList.map fun r =>
              (item.resourceId, item.env r w.db)
      | _, _ => []
  | _ => []

/-- What every hook of a resource is to be told. -/
def resourceEnv (w : World) (id : ResourceId) (r : Resource) : CommandEnv where
  poolId := r.pool
  resName := r.name
  idInPool := w.db.idInPool id
  namedCounters := w.db.namedCountersDict id
  data := r.data

variable {w w' v : World} {a a' : Action} {as bs : List Action} {id : ResourceId} {k : ℕ}
variable {p : Pool} {job : Job} {r r' : Resource} {e e' : CommandEnv}

/-- A running terminator works for a resource of its pool. -/
theorem Reaches.terminator_pool (h : Reaches anyStep as w) {pc : TerminatePc}
    (hruns : w.Runs k p (.terminate id pc)) :
    ∃ r, w.db.resources.get? id = some r ∧ InPool (some p.name) r := by
  induction h generalizing pc with
  | refl => simp [Runs, init] at hruns
  | @snoc as w w' a hprev _ hstep ih =>
      have hlinked := (Reaches.inv hprev).linked
      have hsteps := step_cases hstep
      have hkept : (∃ pc', w.Runs k p (.terminate id pc')) →
          ∃ r, w'.db.resources.get? id = some r ∧ InPool (some p.name) r := by
        rintro ⟨pc', hold⟩
        obtain ⟨r, hr, hpool⟩ := ih hold
        obtain ⟨r', hr', hrow⟩ := hsteps.resource hlinked hr
        exact ⟨r', hr', by rwa [InPool, hrow.pool]⟩
      rcases hsteps.runs_cases hlinked hruns with ⟨hold, -⟩ |
        ⟨i, old, -, -, hold, ⟨hmoves, -⟩ | ⟨j, rfl, heq, -⟩⟩ | ⟨-, -, hstarts⟩
      · exact hkept ⟨_, hold⟩
      · cases hmoves
        exact hkept ⟨_, hold⟩
      · obtain ⟨rfl, -⟩ := by simpa using heq
        exact hkept ⟨_, hold⟩
      · cases hstarts with
        | terminate _ hr hpool _ hdb => exact ⟨_, hdb ▸ hr, hpool⟩

/-- The pool objects of workers have names. -/
theorem Reaches.worker_named (h : Reaches anyStep as w) (hruns : w.Runs k p job) :
    p.name ≠ "" := by
  have hsupplied := Reaches.supplied (Q := fun p => p.name ≠ "") h fun w a _ => by
    cases a with
    | manager i => exact fun _ config _ p hp => config.named p hp
    | _ => trivial
  exact hsupplied.threads hruns

/-- The pool object that a step reads environments for. -/
def ReadsFor (w : World) (a : Action) (p : Pool) : Prop :=
  (∃ k i job, a = .worker k i ∧ w.Runs k p job) ∨
    ∃ i config, a = .watcher i ∧ i.config = some config ∧ p ∈ config.pools

/-- A worker reads the environment of a resource of its own pool, which has not ended. -/
theorem Reaches.worker_env (h : Reaches QuietGarbage as w) {worker : Worker}
    (hruns : w.Runs k worker.pool worker.job) (hreads : worker.job.reads? = some id)
    (hr : w.db.resources.get? id = some r) :
    r.state ≠ .ended ∧ worker.pool.name = r.pool ∧
      (worker.env id r w.db = { w.resourceEnv id r with poolId := worker.pool.id } ∨
        r.state = .starting ∧ worker.env id r w.db =
          { w.resourceEnv id r with poolId := worker.pool.id, data := none }) := by
  have hinv := h.inv
  have hpool : InPool (some worker.pool.name) r → worker.pool.name = r.pool := by
    intro hin
    have hname := Reaches.worker_named h.anyStep hruns
    exact Option.some.inj (hin (by simpa [truthy] using hname))
  cases hjob : worker.job with
  | alloc j pc =>
      rw [hjob] at hruns hreads
      cases pc <;> simp [Job.reads?] at hreads
      subst hreads
      obtain ⟨r₀, hr₀, hstate, hname⟩ := hinv.owned.alloc hruns
      obtain rfl := Option.some.inj (hr.symm.trans hr₀)
      refine ⟨by simp [hstate], hpool fun _ => by rw [hname], .inr ⟨hstate, ?_⟩⟩
      rw [Worker.env, hjob]
      rfl
  | release j pc =>
      rw [hjob] at hruns hreads
      cases pc <;> simp [Job.reads?] at hreads
      subst hreads
      obtain ⟨r₀, hr₀, hstate, hin⟩ := hinv.owned.release hruns
      obtain rfl := Option.some.inj (hr.symm.trans hr₀)
      refine ⟨by simp [hstate], hpool hin, .inl ?_⟩
      rw [Worker.env, hjob]
      rfl
  | terminate j pc =>
      rw [hjob] at hruns hreads
      cases pc <;> simp [Job.reads?] at hreads
      subst hreads
      obtain ⟨r₀, hr₀, hstate⟩ := h.oneTerminator.request hruns
      obtain ⟨r₁, hr₁, hin⟩ := Reaches.terminator_pool h.anyStep hruns
      obtain rfl := Option.some.inj (hr.symm.trans hr₀)
      obtain rfl := Option.some.inj (hr.symm.trans hr₁)
      refine ⟨by simp [hstate], hpool hin, .inl ?_⟩
      rw [Worker.env, hjob]
      rfl
  | cleanUnknown pc =>
      rw [hjob] at hreads
      simp [Job.reads?] at hreads

/-- Every environment that is read is the one to be told, except that it has the `id` of a pool
object, and that {lit}`cmd_new` does not get the data. -/
theorem Reaches.of_mem_prepares (h : Reaches QuietGarbage as w) (he : (id, e) ∈ w.prepares a) :
    ∃ r p, w.db.resources.get? id = some r ∧ r.state ≠ .ended ∧ w.ReadsFor a p ∧
      p.name = r.pool ∧
      (e = { w.resourceEnv id r with poolId := p.id } ∨
        r.state = .starting ∧ e = { w.resourceEnv id r with poolId := p.id, data := none }) := by
  unfold prepares at he
  split at he
  next k i =>
    split at he
    next worker hworker =>
      split_ifs at he with hrunning
      · have hruns := runs_of_running hworker hrunning
        simp only [List.mem_flatMap, Option.mem_toList, List.mem_map] at he
        obtain ⟨j, hreads, r, hr, heq⟩ := he
        obtain ⟨rfl, rfl⟩ := Prod.mk.inj heq
        obtain ⟨hstate, hpool, henv⟩ := h.worker_env hruns hreads hr
        exact ⟨r, worker.pool, hr, hstate, .inl ⟨k, i, _, rfl, hruns⟩, hpool, henv⟩
      · simp at he
    next => simp at he
  next i =>
    split at he
    next config _ hconfig =>
      simp only [List.mem_flatMap, Option.mem_toList, List.mem_map] at he
      obtain ⟨item, hitem, r, hr, heq⟩ := he
      obtain ⟨rfl, rfl⟩ := Prod.mk.inj heq
      obtain ⟨⟨j, r₀⟩, hup, hfind⟩ := List.mem_filterMap.mp hitem
      obtain ⟨p, hp, rfl⟩ := Option.map_eq_some_iff.mp hfind
      obtain ⟨hr₀, -, hup⟩ := mem_select.mp hup
      have hstate : r₀.state = .up := of_decide_eq_true hup
      obtain rfl := Option.some.inj (hr.symm.trans hr₀)
      have hname : p.name = r.pool := by simpa using List.find?_some hp
      have hfor : w.ReadsFor (.watcher i) p :=
        .inr ⟨i, config, rfl, hconfig, List.mem_of_find?_eq_some hp⟩
      exact ⟨r, p, hr, by simp [hstate], hfor, hname, .inl rfl⟩
    next => simp at he
  next => simp at he

/-- What the hooks of a resource are to be told in a later state, unless it has ended: the same
as before, but for the data that {lit}`cmd_new` may bring. -/
def KeepsEnv (w : World) (id : ResourceId) (r : Resource) (v : World) : Prop :=
  ∃ r', v.db.resources.get? id = some r' ∧
    (r'.state ≠ .ended → v.resourceEnv id r' = { w.resourceEnv id r with data := r'.data }) ∧
    (r.state ≠ .starting → r'.state ≠ .starting ∧ r'.data = r.data)

/-- Every action keeps what the hooks are to be told. -/
theorem Inv.keepsEnv (h : w.Inv) (hstep : w.step a = some w')
    (hr : w.db.resources.get? id = some r) : w.KeepsEnv id r w' := by
  obtain ⟨r', hr', hrow⟩ := (step_cases hstep).resource h.linked hr
  refine ⟨r', hr', fun hended => ?_, fun hstate => ?_⟩
  · have hrows : (w'.db.idsWithinPool.filter fun row => row.resourceId = id) =
          w.db.idsWithinPool.filter (fun row => row.resourceId = id) ∧
        (w'.db.namedCounters.filter fun row => row.resourceId = id) =
          w.db.namedCounters.filter fun row => row.resourceId = id := by
      cases h.numberSteps hstep with
      | kept gone hends _ =>
          exact hends.keeps.rows_of_ne fun hgone => hended (hends.ended hgone hr')
      | given _ _ hgives =>
          apply hgives.rows_of_ne
          rintro rfl
          simp [hgives.new] at hr
    have hname : r'.name = r.name := by
      cases hrow <;> rfl
    simp only [resourceEnv, Db.idInPool_eq_head?, Db.namedCountersDict, hrows.1, hrows.2, hname,
      hrow.pool]
  · cases hrow with
    | started hruns => exact absurd (h.owned.starting hruns hr) hstate
    | same | checked | assigned => exact ⟨hstate, rfl⟩
    | decoupled =>
        refine ⟨?_, rfl⟩
        simp only [Resource.decoupled, Resource.released]
        split_ifs
        · simp
        · exact hstate
    | retired | killed | broken | terminating | ended | returned =>
        simp [Resource.retired, Resource.returned]

/-- Until it ends, a resource keeps what its hooks are to be told. -/
theorem Reaches.keepsEnv (h : Reaches QuietGarbage as w)
    (hrest : Path World.step QuietGarbage w bs v) (hr : w.db.resources.get? id = some r) :
    w.KeepsEnv id r v := by
  have hall : v.Inv ∧ v.OneTerminator ∧ w.KeepsEnv id r v := by
    refine hrest.invariant (P := fun u => u.Inv ∧ u.OneTerminator ∧ w.KeepsEnv id r u)
      ⟨h.inv, h.oneTerminator, r, hr, fun _ => rfl, fun hstate => ⟨hstate, rfl⟩⟩ ?_
    rintro u b u' ⟨hinv, hone, r₁, hr₁, henv, hdata⟩ hok hstep
    refine ⟨hinv.step hstep, hinv.oneTerminator_step hone hok (step_cases hstep), ?_⟩
    obtain ⟨r₂, hr₂, henv₂, hdata₂⟩ := hinv.keepsEnv hstep hr₁
    refine ⟨r₂, hr₂, fun hended => ?_, fun hstate => ?_⟩
    · rw [henv₂ hended, henv]
      intro hbefore
      obtain ⟨r₃, hr₃, hended₃⟩ := hinv.ended_step hone (step_cases hstep) hr₁ hbefore
      obtain rfl := Option.some.inj (hr₂.symm.trans hr₃)
      exact hended hended₃
    · obtain ⟨hstate₁, heq⟩ := hdata hstate
      obtain ⟨hstate₂, heq₂⟩ := hdata₂ hstate₁
      exact ⟨hstate₂, heq₂.trans heq⟩
  exact hall.2.2

/-- No pool of the configurations that a step loads has another `id` than its name. -/
def Keyed (_ : World) (a : Action) : Prop :=
  match a with
  | .manager i | .watcher i => ∀ config ∈ i.config, ∀ p ∈ config.pools, p.id = p.name
  | _ => True

instance (w : World) (a : Action) : Decidable (w.Keyed a) :=
  match a with
  | .manager _ | .watcher _ => inferInstanceAs (Decidable (∀ _ ∈ _, ∀ _ ∈ _, _))
  | .worker _ _ | .takeTicket _ _ | .closeTicket _ | .resourceDelete _ | .kill _ | .restart _ =>
      inferInstanceAs (Decidable True)

/-- Environments are read for pool objects that were loaded. -/
theorem Reaches.id_of_readsFor (h : Reaches Keyed as w) (ha : w.Keyed a) (hfor : w.ReadsFor a p) :
    p.id = p.name := by
  rcases hfor with ⟨k, i, job, -, hruns⟩ | ⟨i, config, rfl, hconfig, hp⟩
  · have hsupplied := Reaches.supplied (Q := fun p => p.id = p.name) h fun w a hkeyed => by
      cases a with
      | manager i => exact fun _ => hkeyed
      | _ => trivial
    exact hsupplied.threads hruns
  · exact ha config hconfig p hp

/-- In runs without a second terminator, all hooks of a resource are told the same name,
identifier within the pool and counters; all of them but {lit}`cmd_new` are given the same data;
and they are told the same pool, unless an option `id` or `name` differs from its key. -/
theorem Reaches.hooks_agree (h : Reaches QuietGarbage as w)
    (hrest : Path World.step QuietGarbage w bs v) (he : (id, e) ∈ w.prepares a)
    (he' : (id, e') ∈ v.prepares a') (hr : w.db.resources.get? id = some r) :
    e' = { e with poolId := e'.poolId, data := e'.data } ∧
      (r.state ≠ .starting → e'.data = e.data) ∧
      (Reaches Keyed as w → w.Keyed a → Path World.step Keyed w bs v → v.Keyed a' →
        e'.poolId = e.poolId) := by
  obtain ⟨r₀, p, hr₀, -, hfor, hpool, htold⟩ := h.of_mem_prepares he
  obtain rfl := Option.some.inj (hr.symm.trans hr₀)
  obtain ⟨r', p', hr', hended, hfor', hpool', htold'⟩ :=
    Reaches.of_mem_prepares (h.append hrest) he'
  obtain ⟨r₁, hr₁, henv, hdata⟩ := h.keepsEnv hrest hr
  obtain rfl := Option.some.inj (hr'.symm.trans hr₁)
  have hsame := henv hended
  refine ⟨?_, ?_, ?_⟩
  · rcases htold with rfl | ⟨-, rfl⟩ <;> rcases htold' with rfl | ⟨-, rfl⟩ <;> rw [hsame]
  · intro hstate
    obtain ⟨hstate', heq⟩ := hdata hstate
    rcases htold with rfl | ⟨hstarting, -⟩
    · rcases htold' with rfl | ⟨hstarting', -⟩
      · exact heq
      · exact absurd hstarting' hstate'
    · exact absurd hstarting hstate
  · intro hkeyed ha hkeyed' ha'
    -- the resource stays in its pool
    have hsamePool : r'.pool = r.pool := congrArg CommandEnv.poolId hsame
    have hid : e.poolId = p.id := by
      rcases htold with rfl | ⟨-, rfl⟩ <;> rfl
    have hid' : e'.poolId = p'.id := by
      rcases htold' with rfl | ⟨-, rfl⟩ <;> rfl
    rw [hid, hid', hkeyed.id_of_readsFor ha hfor, hpool,
      Reaches.id_of_readsFor (hkeyed.append hkeyed') ha' hfor', hpool', hsamePool]

/-! ## A resource with all its hooks -/

/-- A pool whose resources are released between two tickets. -/
def releasingPool : Pool := { basicPool with cmdRelease := some "release" }

/-- A resource serves a ticket that is then closed, and its release begins. -/
def closedRun : List Action :=
  let config : Config := .single releasingPool (by decide +kernel)
  .takeTicket [] none :: ticks config 8 ++ List.replicate 3 (.worker 1 { now := 20 }) ++
    ticks config 12 ++ [.closeTicket 1] ++ ticks config 4

/-- The resource is released and killed, and a terminator is started for it. -/
def releasedRun : List Action :=
  List.replicate 3 (.worker 2 {}) ++ [.resourceDelete .all, .kill 1] ++
    ticks (.single releasingPool (by decide +kernel)) 9

/-- The hooks of the whole life. -/
theorem hooks_in_order_releasedRun :
    (hooks 1 (closedRun ++ releasedRun ++ List.replicate 3 (.worker 3 {}))).Pairwise
      fun hook later => hook.rank ≤ later.rank :=
  (Reaches.hooks_in_order (reaches_after anyStep
    (closedRun ++ releasedRun ++ List.replicate 3 (.worker 3 {})) (by decide +kernel)) 1).1

/-- No resource gets a second terminator, and the pools have the names of their sections. -/
def QuietKeyed (w : World) (a : Action) : Prop := QuietGarbage w a ∧ w.Keyed a

instance (w : World) (a : Action) : Decidable (QuietKeyed w a) :=
  inferInstanceAs (Decidable (_ ∧ _))

/-- The releaser and the terminator read the same environment. -/
theorem hooks_agree_releasedRun :
    ∃ e e', (1, e) ∈ (after QuietKeyed closedRun (by decide +kernel)).prepares (.worker 2 {}) ∧
      (1, e') ∈ ((execWithin step QuietKeyed
        (after QuietKeyed closedRun (by decide +kernel)) releasedRun).get
          (by decide +kernel)).prepares (.worker 3 {}) ∧ e' = e := by
  have hreleased : ((after QuietKeyed closedRun (by decide +kernel)).db.resources.get? 1).any
      (fun r => r.state ≠ .starting) = true := by decide +kernel
  obtain ⟨r, hr, hstate⟩ := (Option.any_eq_true _ _).mp hreleased
  rw [decide_eq_true_eq] at hstate
  have hrun := reaches_after QuietKeyed closedRun (by decide +kernel)
  have hlater : (execWithin step QuietKeyed (after QuietKeyed closedRun (by decide +kernel))
      releasedRun).isSome = true := by decide +kernel
  have hrest := Path.of_execWithin (Option.some_get hlater).symm
  have he : (1, { poolId := "basic", resName := some "basic_00000001_", idInPool := some 0,
                  namedCounters := [], data := some [] }) ∈
      (after QuietKeyed closedRun (by decide +kernel)).prepares (.worker 2 {}) := by
    decide +kernel
  have he' : (1, { poolId := "basic", resName := some "basic_00000001_", idInPool := some 0,
                   namedCounters := [], data := some [] }) ∈ ((execWithin step QuietKeyed
      (after QuietKeyed closedRun (by decide +kernel)) releasedRun).get
        (by decide +kernel)).prepares (.worker 3 {}) := by
    decide +kernel
  obtain ⟨htold, hdata, hpool⟩ := Reaches.hooks_agree (hrun.weaken fun _ _ hok => hok.1)
    (hrest.weaken fun _ _ hok => hok.1) he he' hr
  have hpoolId := hpool (hrun.weaken fun _ _ hok => hok.2) trivial
    (hrest.weaken fun _ _ hok => hok.2) trivial
  exact ⟨_, _, he, he', by rw [htold, hdata hstate, hpoolId]⟩

end World

end Resalloc
