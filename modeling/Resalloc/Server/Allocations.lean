import Resalloc.Server.Numbers
import Resalloc.Server.Surplus

/-!
# Allocations that raise nothing

An allocation needs the row of its pool, and numbers that are not in use.  A cycle enters all
its pools into the database and no row is ever deleted; identifiers are only held by
resources that exist, and the search finds free numbers.  So no allocation of a cycle raises.

Main results:

- Theorem {lit}`allocate_returns`: when an allocation returns.
- Theorem {lit}`ManagerPc.step_poolWrites`: how the manager writes the rows of pools.
- Theorem {lit}`World.step_poolNames`: the rows of pools stay.
- Theorem {lit}`World.Prepared.step`: every action keeps what allocations rely on.
- Theorem {lit}`World.Reaches.prepared`: it holds in every reachable state.
-/

namespace Resalloc

open Foundations

namespace Db

/-- The names of the pools that have a row. -/
def poolNames (db : Db) : List String := db.pools.map PoolRow.name

/-- Only resources that exist hold numbers. -/
structure Owners (db : Db) : Prop where
  ids : ∀ row ∈ db.idsWithinPool, db.resources.get? row.resourceId ≠ none
  values : ∀ row ∈ db.namedCounters, db.resources.get? row.resourceId ≠ none

variable {db db' : Db} {name : String}

/-- A pool has a row if its name is that of a row. -/
theorem exists_pool? (h : name ∈ db.poolNames) : ∃ row ∈ db.pools, db.pool? name = some row := by
  obtain ⟨row, hrow, rfl⟩ := List.mem_map.mp h
  cases hfound : db.pool? row.name with
  | none =>
      have hnone := List.find?_eq_none.mp hfound row hrow
      simp at hnone
  | some row' => exact ⟨row', List.mem_of_find?_eq_some hfound, rfl⟩

/-- Rewriting a row keeps the names. -/
theorem modifyPool_poolNames (db : Db) (name : String) {f : PoolRow → PoolRow}
    (hf : ∀ row, (f row).name = row.name) : (db.modifyPool name f).poolNames = db.poolNames := by
  simp only [poolNames, modifyPool, List.map_map]
  apply List.map_congr_left
  intro row _
  simp only [Function.comp_apply]
  split_ifs
  · exact hf row
  · rfl

/-- Only the rows of the pools have their names. -/
theorem poolNames_congr (h : db'.pools = db.pools) : db'.poolNames = db.poolNames := by
  rw [poolNames, h, ← poolNames]

/-- Numbers that stay or are taken back are still held by existing resources. -/
theorem Owners.kept {gone : Option ResourceId} (h : db.Owners) (hkeeps : db.KeepsNumbers db' gone)
    (hrows : ∀ {j}, db.resources.get? j ≠ none → db'.resources.get? j ≠ none) : db'.Owners := by
  obtain ⟨hids, hvalues⟩ := hkeeps
  constructor
  · intro row hrow
    rw [hids] at hrow
    exact hrows (h.ids row (List.mem_of_mem_filter hrow))
  · intro row hrow
    rw [hvalues] at hrow
    exact hrows (h.values row (List.mem_of_mem_filter hrow))

/-- The numbers of a new resource are held by it. -/
theorem Owners.given {p : Pool} {id : ResourceId} (h : db.Owners)
    (hgives : p.GivesNumbers db db' id) : db'.Owners := by
  have hrows : ∀ {j}, db.resources.get? j ≠ none → db'.resources.get? j ≠ none := by
    intro j hj
    obtain ⟨r, hr⟩ := Option.ne_none_iff_exists'.mp hj
    simp [hgives.kept hr]
  obtain ⟨-, ⟨r, hr, -⟩, -, hids, hvalues⟩ := hgives
  constructor
  · intro row hrow
    rw [hids] at hrow
    rcases List.mem_append.mp hrow with hold | hown
    · exact hrows (h.ids row hold)
    · obtain rfl := List.mem_singleton.mp hown
      simp [newId, hr]
  · obtain ⟨news, hnews, hvalues⟩ := hvalues
    intro row hrow
    rw [hvalues] at hrow
    rcases List.mem_append.mp hrow with hold | hown
    · exact hrows (h.values row hold)
    · simp [hnews.owner row hown, hr]

end Db

/-! ## When an allocation returns -/

section Allocating

variable {db : Db} {p : Pool} {id : ResourceId}

/-- A new resource gets an identifier of its pool. -/
theorem allocatePoolId_returns (hnew : ∀ row ∈ db.idsWithinPool, row.resourceId ≠ id) :
    ∃ db', p.allocatePoolId id db = .ok db' := by
  have hfree := (findSmallestNumber_isLeast
    ((db.idsWithinPool.filter fun row => row.poolName = p.name).map IDWithinPool.id)).1
  simp only [Pool.allocatePoolId, Db.addIdWithinPool]
  rw [if_neg]
  · exact ⟨_, rfl⟩
  · rw [List.any_eq_true]
    rintro ⟨row, hrow, hused⟩
    rcases of_decide_eq_true hused with hid | ⟨hnumber, hpool⟩
    · exact hnew row hrow hid
    · apply hfree
      rw [← hnumber]
      exact List.mem_map_of_mem (List.mem_filter.mpr ⟨hrow, by simpa using hpool⟩)

/-- A resource gets a value of a counter. -/
theorem allocateNamedCounterValue_returns (db : Db) (id : ResourceId) (name : String) :
    ∃ db', Pool.allocateNamedCounterValue id db name = .ok db' := by
  have hfree := (findSmallestNumber_isLeast
    ((db.namedCounters.filter fun row => row.counterName = name).map NamedCounter.value)).1
  simp only [Pool.allocateNamedCounterValue, Db.addNamedCounter]
  rw [if_neg]
  · exact ⟨_, rfl⟩
  · rw [List.any_eq_true]
    rintro ⟨row, hrow, hused⟩
    obtain ⟨hname, hvalue⟩ := of_decide_eq_true hused
    apply hfree
    rw [← hvalue]
    exact List.mem_map_of_mem (List.mem_filter.mpr ⟨hrow, by simpa using hname⟩)

/-- An allocation returns if its pool has a row. -/
theorem allocate_returns (howners : db.Owners) (hpool : p.name ∈ db.poolNames)
    (now importTime : Time) (datetime : String) :
    ∃ db' id, p.allocate now importTime datetime db = .ok (db', id) := by
  have hnext : ∀ {j}, db.resources.get? j ≠ none → j ≠ db.resources.nextId := by
    rintro j hj rfl
    exact hj (by simp)
  obtain ⟨row, -, hrow⟩ := db.exists_pool? hpool
  unfold Pool.allocate
  rw [hrow]
  simp only
  obtain ⟨db₁, hdb₁⟩ := @allocatePoolId_returns
    { db.modifyPool p.name fun row => { row with lastStart := now } with
      resources := db.resources.push (p.newResource importTime) } p db.resources.nextId
    fun row hrow => hnext (howners.ids row hrow)
  obtain ⟨db₂, hdb₂, -⟩ := foldlM_returns (P := fun _ => True) (l := p.namedCounters)
    (f := Pool.allocateNamedCounterValue db.resources.nextId) (b := db₁) trivial
    fun db _ name _ => (allocateNamedCounterValue_returns db _ name).imp fun _ h => ⟨h, trivial⟩
  simp only [Db.modifyPool_resources, hdb₁, hdb₂]
  exact ⟨_, _, rfl⟩

end Allocating

/-! ## The rows of the pools -/

section Rows

variable {db db' : Db} {p : Pool} {id : ResourceId}

/-- A pool that is entered into the database has a row afterwards. -/
theorem initPoolInDb_poolNames (now : Time) (db : Db) (p : Pool) :
    db.poolNames ⊆ (initPoolInDb now db p).poolNames ∧
      p.name ∈ (initPoolInDb now db p).poolNames := by
  cases hfound : db.pool? p.name with
  | none =>
      simp only [initPoolInDb, hfound]
      rw [Db.modifyPool_poolNames]
      · constructor <;> simp [Db.poolNames]
      · exact fun _ => rfl
  | some row =>
      have hname : row.name = p.name := by simpa using List.find?_some hfound
      simp only [initPoolInDb, hfound]
      rw [Db.modifyPool_poolNames]
      · exact ⟨List.Subset.refl _, hname ▸ List.mem_map_of_mem (List.mem_of_find?_eq_some hfound)⟩
      · exact fun _ => rfl

/-- All pools that a cycle enters have a row afterwards. -/
theorem foldl_initPoolInDb_poolNames (now : Time) (db : Db) (pools : List Pool) :
    db.poolNames ⊆ (pools.foldl (initPoolInDb now) db).poolNames ∧
      ∀ p ∈ pools, p.name ∈ (pools.foldl (initPoolInDb now) db).poolNames := by
  induction pools generalizing db with
  | nil => exact ⟨List.Subset.refl _, by simp⟩
  | cons p pools ih =>
      obtain ⟨hsub, hmem⟩ := initPoolInDb_poolNames now db p
      obtain ⟨hsub', hmem'⟩ := ih (initPoolInDb now db p)
      refine ⟨fun name hname => hsub' (hsub hname), fun q hq => ?_⟩
      rcases List.mem_cons.mp hq with rfl | hq
      · exact hsub' hmem
      · exact hmem' q hq

/-- An allocation stores its time in the row of its pool. -/
theorem allocate_pools {now importTime : Time} {datetime : String}
    (h : p.allocate now importTime datetime db = .ok (db', id)) :
    db'.pools = (db.modifyPool p.name fun row => { row with lastStart := now }).pools := by
  obtain ⟨rfl, db₁, db₂, hdb₁, hdb₂, rfl⟩ := allocate_parts h
  calc db₂.pools = db₁.pools := by rw [foldlM_allocateNamedCounterValue_frame hdb₂]
    _ = (db.modifyPool p.name fun row => { row with lastStart := now }).pools := by
      rw [allocatePoolId_frame hdb₁]

/-- A worker writes statistics into the row of its pool, or nothing. -/
theorem Worker.step_pools {worker next : Worker} {i : Input}
    (h : worker.step i db = (db', next)) :
    db'.pools = db.pools ∨ ∃ success startInitiated, db'.pools = (db.modifyPool worker.pool.id
      (recalculateStatistics success startInitiated i.now i.rounding)).pools := by
  have hsteps := Worker.step_cases h
  cases hsteps with
  | raised | moved | cleaned | gaveUp | terminating | returned => exact .inl rfl
  | @started id startInitiated output _ hok hjob =>
      have hfinish := Worker.allocFinish_of_step hok hjob h
      refine .inr ⟨output.status = 0, startInitiated, ?_⟩
      unfold allocFinish at hfinish
      split at hfinish
      next =>
        simp only at hfinish
        split_ifs at hfinish
        all_goals obtain rfl := Except.ok.inj hfinish
        all_goals rfl
      next => contradiction
  | @ended id _ hok hjob =>
      obtain rfl := terminateClose_ok (Worker.terminateClose_of_step hok hjob h)
      exact .inl rfl

/-- How a step of the manager may write the rows of the pools. -/
inductive ManagerPc.PoolWrites (i : Input) (importTime : Time) (db : Db) (pc : ManagerPc)
    (db' : Db) : Prop
  | same : db'.pools = db.pools → PoolWrites i importTime db pc db'
  | load {config : Config} : i.config = some config →
      db' = config.pools.foldl (initPoolInDb i.now) db → PoolWrites i importTime db pc db'
  | allocate {c : Cycle} {p : Pool} {rest : List Pool} {id : ResourceId} :
      pc = .allocate c p rest →
      { p with startOnDemandThisCycle := p.startOnDemandThisCycle - 1 }.allocate
        i.now importTime i.datetime db = .ok (db', id) →
      PoolWrites i importTime db pc db'
  | markCleaned (p : Pool) : db' = p.markCleaned i.now db → PoolWrites i importTime db pc db'

/-- Every step of the manager writes them so. -/
theorem ManagerPc.step_poolWrites {pc pc' : ManagerPc} {i : Input} {importTime : Time}
    {started : List Worker} (hlinked : Linked db)
    (h : pc.step i importTime db = (db', started, pc')) :
    PoolWrites i importTime db pc db' := by
  have hsteps := ManagerPc.step_cases h
  cases hsteps with
  | load hconfig =>
      simp only [ManagerPc.step, hconfig] at h
      exact .load hconfig (Prod.mk.inj h).1.symm
  | detectClosed hdetect =>
      rw [(hlinked.decouples hdetect).frame]
      exact .same rfl
  | removal hremoval =>
      rw [(hlinked.removes hremoval).retires.frame]
      exact .same rfl
  | allocate hp hallocate =>
      rw [hp] at hallocate
      exact .allocate rfl hallocate
  | markCleaned c p rest => exact .markCleaned p rfl
  | stop | plan | garbage | wantsMore | hasEnough | tooSoon | soonEnough | cleanUnknown
    | keepUnknown | collect | assigned | skipped | served => exact .same rfl

/-- A worker keeps the rows of the pools. -/
theorem Worker.step_poolNames {worker next : Worker} {i : Input}
    (h : worker.step i db = (db', next)) : db'.poolNames = db.poolNames := by
  rcases Worker.step_pools h with hpools | ⟨success, startInitiated, hpools⟩
  · exact Db.poolNames_congr hpools
  · exact (Db.poolNames_congr hpools).trans (db.modifyPool_poolNames _ fun _ => rfl)

/-- The manager keeps the rows of the pools. -/
theorem ManagerPc.step_poolNames {pc pc' : ManagerPc} {i : Input} {importTime : Time}
    {started : List Worker} (hlinked : Linked db)
    (h : pc.step i importTime db = (db', started, pc')) : db.poolNames ⊆ db'.poolNames := by
  cases step_poolWrites hlinked h with
  | same hpools =>
      rw [Db.poolNames_congr hpools]
      exact List.Subset.refl _
  | load _ hdb =>
      rw [hdb]
      exact (foldl_initPoolInDb_poolNames i.now db _).1
  | allocate _ hallocate =>
      rw [Db.poolNames_congr (allocate_pools hallocate), Db.modifyPool_poolNames]
      · exact List.Subset.refl _
      · exact fun _ => rfl
  | markCleaned p hdb =>
      rw [hdb, Pool.markCleaned, Db.modifyPool_poolNames]
      · exact List.Subset.refl _
      · exact fun _ => rfl

end Rows

/-! ## What allocations rely on -/

namespace World

variable {w w' : World} {a : Action} {as : List Action}

/-- Every action keeps the rows of the pools. -/
theorem step_poolNames (hlinked : Linked w.db) (hstep : w.step a = some w') :
    w.db.poolNames ⊆ w'.db.poolNames := by
  cases a with
  | manager i =>
      obtain rfl := Option.some.inj hstep
      exact ManagerPc.step_poolNames hlinked rfl
  | worker k i =>
      obtain ⟨worker, db, next, -, -, hnext, rfl⟩ := step_worker hstep
      rw [← Worker.step_poolNames hnext]
      exact List.Subset.refl _
  | _ =>
      have hsteps := step_cases hstep
      cases hsteps <;> exact List.Subset.refl _

/-- What the allocations of a cycle rely on. -/
structure Prepared (w : World) : Prop where
  inv : w.Inv
  owners : w.db.Owners
  loaded : w.manager.Loaded
  /-- The pools of the running cycle have rows. -/
  rows : ∀ {c}, w.manager.cycle? = some c → ∀ p ∈ c.pools, p.name ∈ w.db.poolNames

/-- Every action keeps the owners of numbers. -/
theorem Inv.owners_step (h : w.Inv) (howners : w.db.Owners) (hstep : w.step a = some w') :
    w'.db.Owners := by
  have hrows : ∀ {j}, w.db.resources.get? j ≠ none → w'.db.resources.get? j ≠ none := by
    intro j hj
    obtain ⟨r, hr⟩ := Option.ne_none_iff_exists'.mp hj
    obtain ⟨r', hr', -⟩ := (step_cases hstep).resource h.linked hr
    simp [hr']
  rcases h.numberSteps hstep with ⟨gone, hends, -⟩ | ⟨-, -, hgives⟩
  · exact howners.kept hends.keeps hrows
  · exact howners.given hgives

/-- Every action keeps it. -/
theorem Prepared.step (h : w.Prepared) (hstep : w.step a = some w') : w'.Prepared := by
  have hsteps := step_cases hstep
  have hnames := step_poolNames h.inv.linked hstep
  obtain ⟨hinv, howners, hloaded, hrows⟩ := h
  refine ⟨hinv.step hstep, hinv.owners_step howners hstep, hloaded.step_world hsteps, ?_⟩
  intro c hc p hp
  cases hsteps with
  | @manager i db started pc hpc =>
      replace hc : pc.cycle? = some c := hc
      generalize hmanager : w.manager = m at hpc hrows hloaded
      -- most steps leave the pools of the cycle as they are
      have hsame : m.cycle? = some c → p.name ∈ db.poolNames :=
        fun hcycle => hnames (hrows hcycle p hp)
      cases hpc with
      | stop | served => simp [ManagerPc.cycle?] at hc
      | @load config _ hconfig =>
          rw [ManagerPc.nextDetect_cycle?, Option.some.injEq] at hc
          subst hc
          simp only [World.step, hmanager, ManagerPc.step, hconfig, Option.some.injEq,
            World.mk.injEq] at hstep
          rw [← hstep.1]
          exact (foldl_initPoolInDb_poolNames i.now w.db config.pools).2 p hp
      | @plan c₀ pools hplan =>
          rw [ManagerPc.nextPool_cycle?, Option.some.injEq] at hc
          subst hc
          obtain ⟨config, rfl⟩ := hloaded.fresh rfl rfl
          obtain ⟨q, hq, heq⟩ := exists_base_eq_of_plan config.nodup hplan hp
          rw [← Pool.base_name, ← heq, Pool.base_name]
          exact hnames (hrows rfl q hq)
      | detectClosed =>
          rw [ManagerPc.nextDetect_cycle?] at hc
          exact hsame hc
      | keepUnknown | markCleaned =>
          rw [ManagerPc.nextPool_cycle?] at hc
          exact hsame hc
      | removal =>
          obtain rfl := Option.some.inj hc
          exact hnames (hrows rfl p hp)
      | garbage | wantsMore | hasEnough | tooSoon | soonEnough | allocate | cleanUnknown | collect
        | assigned | skipped => exact hsame hc
  | restart => simp [ManagerPc.cycle?] at hc
  | worker | watched | checked | takeTicket | notTaken | closeTicket | notClosed
    | resourceDelete | kill => exact hnames (hrows hc p hp)

/-- It holds in every reachable state, whatever the configurations of the cycles are. -/
theorem Reaches.prepared (h : Reaches anyStep as w) : w.Prepared := by
  have hstart : init.Prepared :=
    ⟨inv_init, ⟨by simp [init], by simp [init]⟩,
      ⟨by simp [init, ManagerPc.cycle?], by simp [init, ManagerPc.current],
        by simp [init, ManagerPc.current]⟩, by simp [init, ManagerPc.cycle?]⟩
  exact h.invariant hstart fun _ _ _ hprepared _ hstep => hprepared.step hstep

end World

end Resalloc
