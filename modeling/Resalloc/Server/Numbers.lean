import Mathlib.Algebra.BigOperators.Ring.Finset
import Mathlib.Algebra.Order.BigOperators.Group.List
import Resalloc.Foundations.Numbering
import Resalloc.Server.Quotas

/-!
# Pool identifiers and named counters

Every resource in service holds one identifier of its pool, and as many values of a
named counter as its pool lists it.  The numbers are given in the transaction that
inserts the resource, and taken back in the one that moves it to ENDED, which two kinds
of workers do.

Main results:

- Theorem {lit}`findSmallestNumber_isLeast`: the search finds the least unused
  number.
- Definition {lit}`NumberSteps`: what an action can do to the two tables.
- Theorem {lit}`World.Inv.numbers_step`: every action keeps the numbers in order.
- Theorem {lit}`World.Reaches.numbers`: they are in order in every reachable state.
- Theorem {lit}`World.counters_exceptional`: a pool that lists a counter twice, and one with
  a negative limit.
-/

namespace Resalloc

open Foundations

/-! ## The two tables -/

/-- A pool identifier is a number given to a resource within its pool. -/
def IDWithinPool.given (row : IDWithinPool) : Given String ResourceId :=
  ⟨row.resourceId, row.poolName, row.id⟩

/-- A counter value is a number given to a resource within a counter. -/
def NamedCounter.given (row : NamedCounter) : Given String ResourceId :=
  ⟨row.resourceId, row.counterName, row.value⟩

namespace Db

/-- The given pool identifiers. -/
def idRows (db : Db) : List (Given String ResourceId) := db.idsWithinPool.map IDWithinPool.given

/-- The given counter values. -/
def counterRows (db : Db) : List (Given String ResourceId) :=
  db.namedCounters.map NamedCounter.given

/-- The numbers of one resource were taken back, if there is one, and no others were
touched. -/
def KeepsNumbers (db db' : Db) (gone : Option ResourceId) : Prop :=
  (db'.idsWithinPool = db.idsWithinPool.filter fun row => some row.resourceId ≠ gone) ∧
    db'.namedCounters = db.namedCounters.filter fun row => some row.resourceId ≠ gone

/-- The numbers of a pool, as {lit}`_allocate_pool_id` reads them. -/
theorem numbers_idRows (db : Db) (pool : String) :
    numbers db.idRows pool =
      (db.idsWithinPool.filter fun row => row.poolName = pool).map IDWithinPool.id := by
  rw [numbers, Db.idRows, List.filter_map, List.map_map]
  rfl

/-- The values of a counter, as {lit}`_allocate_named_counter_value` reads them. -/
theorem numbers_counterRows (db : Db) (counter : String) :
    numbers db.counterRows counter =
      (db.namedCounters.filter fun row => row.counterName = counter).map NamedCounter.value := by
  rw [numbers, Db.counterRows, List.filter_map, List.map_map]
  rfl

/-- The identifier a pool gives next. -/
def newId (db : Db) (pool : String) (id : ResourceId) : IDWithinPool :=
  ⟨id, pool, findSmallestNumber (numbers db.idRows pool)⟩

/-- The value a counter gives next. -/
def newValue (db : Db) (id : ResourceId) (counter : String) : NamedCounter :=
  ⟨id, counter, findSmallestNumber (numbers db.counterRows counter)⟩

variable {db db' : Db} {id : ResourceId}

/-- A step that writes neither table keeps all numbers. -/
theorem keepsNumbers_of_eq (hids : db'.idsWithinPool = db.idsWithinPool)
    (hcounters : db'.namedCounters = db.namedCounters) : db.KeepsNumbers db' none := by
  constructor <;> simp [hids, hcounters]

theorem keepsNumbers_drop (id : ResourceId) : db.KeepsNumbers (db.dropNumbers id) (some id) := by
  constructor <;> simp [dropNumbers]

theorem KeepsNumbers.idRows {gone : Option ResourceId} (h : db.KeepsNumbers db' gone) :
    db'.idRows = db.idRows.filter fun row => some row.owner ≠ gone := by
  rw [Db.idRows, Db.idRows, List.filter_map, h.1]
  rfl

theorem KeepsNumbers.counterRows {gone : Option ResourceId} (h : db.KeepsNumbers db' gone) :
    db'.counterRows = db.counterRows.filter fun row => some row.owner ≠ gone := by
  rw [Db.counterRows, Db.counterRows, List.filter_map, h.2]
  rfl

theorem KeepsNumbers.mem_idRows {gone : Option ResourceId} (h : db.KeepsNumbers db' gone)
    {row : Given String ResourceId} :
    row ∈ db'.idRows ↔ row ∈ db.idRows ∧ some row.owner ≠ gone := by
  rw [h.idRows, List.mem_filter, decide_eq_true_eq]

theorem KeepsNumbers.mem_counterRows {gone : Option ResourceId} (h : db.KeepsNumbers db' gone)
    {row : Given String ResourceId} :
    row ∈ db'.counterRows ↔ row ∈ db.counterRows ∧ some row.owner ≠ gone := by
  rw [h.counterRows, List.mem_filter, decide_eq_true_eq]

theorem mem_idRows {row : IDWithinPool} (h : row ∈ db.idsWithinPool) :
    row.given ∈ db.idRows :=
  List.mem_map_of_mem h

theorem mem_counterRows {row : NamedCounter} (h : row ∈ db.namedCounters) :
    row.given ∈ db.counterRows :=
  List.mem_map_of_mem h

end Db

/-! ## Giving numbers -/

/-- From a number on below which all are in use, the search finds the least unused
one. -/
theorem findSmallestNumber_go_isLeast (ids : List ℕ) (rounds tryId : ℕ)
    (hused : ∀ k < tryId, k ∈ ids) (hrounds : ids.length ≤ rounds + tryId) :
    IsLeast {k | k ∉ ids} (findSmallestNumber.go ids rounds tryId) := by
  -- a number that is not in use is none of those before
  have hleast : tryId ∉ ids → IsLeast {k | k ∉ ids} tryId := fun hfree =>
    ⟨hfree, fun k hk => le_of_not_gt fun hlt => hk (hused k hlt)⟩
  have hused' : tryId ∈ ids → ∀ k < tryId + 1, k ∈ ids := by
    intro hmem k hk
    rcases Nat.lt_succ_iff_lt_or_eq.mp hk with hlt | rfl
    · exact hused k hlt
    · exact hmem
  induction rounds generalizing tryId with
  | zero =>
      apply hleast
      intro hmem
      have hlength := le_length_of_forall_lt (hused' hmem)
      omega
  | succ rounds ih =>
      rw [findSmallestNumber.go]
      split_ifs with hmem
      · apply ih (tryId + 1) (hused' hmem) (by omega)
        · exact fun hfree => ⟨hfree, fun k hk => le_of_not_gt fun hlt => hk (hused' hmem k hlt)⟩
        · intro hnext k hk
          rcases Nat.lt_succ_iff_lt_or_eq.mp hk with hlt | rfl
          · exact hused' hmem k hlt
          · exact hnext
      · exact hleast hmem

/-- {lit}`_find_smallest_number` finds the least number that is not in use. -/
theorem findSmallestNumber_isLeast (ids : List ℕ) :
    IsLeast {k | k ∉ ids} (findSmallestNumber ids) :=
  findSmallestNumber_go_isLeast ids ids.length 0 (by simp) (by simp)

section Allocate

variable {db db' : Db} {p : Pool} {id : ResourceId}

/-- A successful insertion into {lit}`ids_within_pool`. -/
theorem allocatePoolId_ok (h : p.allocatePoolId id db = .ok db') :
    db'.idsWithinPool = db.idsWithinPool ++ [db.newId p.name id] ∧
      db'.namedCounters = db.namedCounters := by
  simp only [Pool.allocatePoolId, Db.addIdWithinPool] at h
  split_ifs at h
  obtain rfl := Except.ok.inj h
  exact ⟨by rw [Db.newId, Db.numbers_idRows], rfl⟩

/-- A successful insertion into {lit}`named_counters`. -/
theorem allocateNamedCounterValue_ok {name : String}
    (h : Pool.allocateNamedCounterValue id db name = .ok db') :
    db'.idsWithinPool = db.idsWithinPool ∧
      db'.namedCounters = db.namedCounters ++ [db.newValue id name] := by
  simp only [Pool.allocateNamedCounterValue, Db.addNamedCounter] at h
  split_ifs at h
  obtain rfl := Except.ok.inj h
  exact ⟨rfl, by rw [Db.newValue, Db.numbers_counterRows]⟩

/-- The rows given to a resource for a list of counters, one after another. -/
structure Db.NewValues (db : Db) (id : ResourceId) (names : List String)
    (news : List NamedCounter) : Prop where
  owner : ∀ row ∈ news, row.resourceId = id
  names : news.map NamedCounter.counterName = names
  least : GivenLeast db.counterRows (news.map NamedCounter.given)

/-- The counters of a resource are inserted one after another. -/
theorem foldlM_allocateNamedCounterValue_ok {names : List String}
    (h : names.foldlM (Pool.allocateNamedCounterValue id) db = .ok db') :
    db'.idsWithinPool = db.idsWithinPool ∧
      ∃ news, db.NewValues id names news ∧ db'.namedCounters = db.namedCounters ++ news := by
  induction names generalizing db with
  | nil =>
      obtain rfl := Except.ok.inj h
      exact ⟨rfl, [], ⟨by simp, rfl, trivial⟩, (List.append_nil _).symm⟩
  | cons name names ih =>
      obtain ⟨db₁, hfirst, h⟩ := foldlM_cons_ok.mp h
      obtain ⟨hids₁, hrows₁⟩ := allocateNamedCounterValue_ok hfirst
      obtain ⟨hids, news, hnews, hrows⟩ := ih h
      have hcounters : db₁.counterRows = db.counterRows ++ [(db.newValue id name).given] := by
        rw [Db.counterRows, hrows₁, List.map_append]
        rfl
      refine ⟨hids.trans hids₁, db.newValue id name :: news, ⟨?_, ?_, ?_⟩, ?_⟩
      · exact List.forall_mem_cons.mpr ⟨rfl, hnews.owner⟩
      · rw [List.map_cons, hnews.names]
        rfl
      · exact ⟨findSmallestNumber_isLeast _, hcounters ▸ hnews.least⟩
      · rw [hrows, hrows₁, List.append_assoc, List.singleton_append]

/-- A successful allocation gives one pool identifier, and a value for each time the
pool lists a counter. -/
theorem allocate_numbers {now importTime : Time} {datetime : String}
    (h : p.allocate now importTime datetime db = .ok (db', id)) :
    db'.idsWithinPool = db.idsWithinPool ++ [db.newId p.name id] ∧
      ∃ news, db.NewValues id p.namedCounters news ∧
        db'.namedCounters = db.namedCounters ++ news := by
  obtain ⟨rfl, db₁, db₂, hdb₁, hdb₂, rfl⟩ := allocate_parts h
  obtain ⟨hids₁, hrows₁⟩ := allocatePoolId_ok hdb₁
  obtain ⟨hids₂, news, hnews, hrows₂⟩ := foldlM_allocateNamedCounterValue_ok hdb₂
  have hsame : db₁.counterRows = db.counterRows := by
    rw [Db.counterRows, hrows₁]
    rfl
  refine ⟨hids₂.trans hids₁, news, ⟨hnews.owner, hnews.names, hsame ▸ hnews.least⟩, ?_⟩
  refine hrows₂.trans ?_
  rw [hrows₁]
  rfl

end Allocate

/-! ## What an action can do to the tables of numbers -/

/-- Entering all pools into the database gives no numbers. -/
theorem foldl_initPoolInDb_numbers (now : Time) (db : Db) (pools : List Pool) :
    (pools.foldl (initPoolInDb now) db).idsWithinPool = db.idsWithinPool ∧
      (pools.foldl (initPoolInDb now) db).namedCounters = db.namedCounters := by
  induction pools generalizing db with
  | nil => exact ⟨rfl, rfl⟩
  | cons p pools ih =>
      have hfirst : (initPoolInDb now db p).idsWithinPool = db.idsWithinPool ∧
          (initPoolInDb now db p).namedCounters = db.namedCounters := by
        unfold initPoolInDb
        cases db.pool? p.name <;> exact ⟨rfl, rfl⟩
      obtain ⟨hids, hcounters⟩ := ih (initPoolInDb now db p)
      exact ⟨hids.trans hfirst.1, hcounters.trans hfirst.2⟩

/-- The numbers given with a new resource of a pool. -/
structure Pool.GivesNumbers (p : Pool) (db db' : Db) (id : ResourceId) : Prop where
  new : db.resources.get? id = none
  inserted : ∃ r, db'.resources.get? id = some r ∧ r.state = .starting ∧ r.pool = p.name
  others : ∀ j, j ≠ id → db'.resources.get? j = db.resources.get? j
  ids : db'.idsWithinPool = db.idsWithinPool ++ [db.newId p.name id]
  values : ∃ news, db.NewValues id p.namedCounters news ∧
    db'.namedCounters = db.namedCounters ++ news

section Giving

variable {p : Pool} {db db' : Db} {id : ResourceId}

/-- The identifier that is given. -/
theorem Pool.GivesNumbers.idRows (h : p.GivesNumbers db db' id) :
    db'.idRows = db.idRows ++ [(db.newId p.name id).given] := by
  rw [Db.idRows, h.ids, List.map_append]
  rfl

/-- It is the least unused one. -/
theorem newId_isLeast (db : Db) (pool : String) (id : ResourceId) :
    IsLeast {k | k ∉ numbers db.idRows (db.newId pool id).given.group}
      (db.newId pool id).given.number :=
  findSmallestNumber_isLeast _

/-- The values that are given, as numbers of their counters. -/
theorem Pool.GivesNumbers.counterRows (h : p.GivesNumbers db db' id) :
    ∃ rows, db'.counterRows = db.counterRows ++ rows ∧ GivenLeast db.counterRows rows ∧
      (∀ row ∈ rows, row.owner = id) ∧ rows.map Given.group = p.namedCounters := by
  obtain ⟨news, hnews, hrows⟩ := h.values
  refine ⟨news.map NamedCounter.given, ?_, hnews.least, ?_, ?_⟩
  · rw [Db.counterRows, hrows, List.map_append]
    rfl
  · exact List.forall_mem_map.mpr hnews.owner
  · rw [List.map_map]
    exact hnews.names

/-- The other resources stay as they are. -/
theorem Pool.GivesNumbers.kept (h : p.GivesNumbers db db' id) {j : ResourceId} {r : Resource}
    (hr : db.resources.get? j = some r) : db'.resources.get? j = some r := by
  rw [h.others j, hr]
  rintro rfl
  simp [h.new] at hr

end Giving

/-- A step of the manager gives numbers when it allocates, and takes none back. -/
theorem ManagerPc.step_numbers {pc pc' : ManagerPc} {i : Input} {importTime : Time} {db db' : Db}
    {started : List Worker} (hlinked : Linked db)
    (h : pc.step i importTime db = (db', started, pc')) :
    db.KeepsNumbers db' none ∧ (db' = db ∨ ∀ c p rest, pc ≠ .allocate c p rest) ∨
      ∃ c p rest id, pc = .allocate c p rest ∧ p.GivesNumbers db db' id := by
  have hsteps := ManagerPc.step_cases h
  cases hsteps with
  | load hconfig =>
      simp only [ManagerPc.step, hconfig] at h
      obtain ⟨rfl, -⟩ := Prod.mk.inj h
      obtain ⟨hids, hcounters⟩ := foldl_initPoolInDb_numbers i.now db _
      exact .inl ⟨Db.keepsNumbers_of_eq hids hcounters, .inr (by simp)⟩
  | detectClosed hdetect =>
      have hframe := (hlinked.decouples hdetect).frame
      exact .inl ⟨Db.keepsNumbers_of_eq (by rw [hframe]) (by rw [hframe]), .inr (by simp)⟩
  | removal hremoval =>
      have hframe := (hlinked.removes hremoval).retires.frame
      exact .inl ⟨Db.keepsNumbers_of_eq (by rw [hframe]) (by rw [hframe]), .inr (by simp)⟩
  | @allocate c rest _ id p p' hp hallocate =>
      obtain ⟨hid, -, name, hget⟩ := allocate_ok hallocate
      obtain ⟨hids, hvalues⟩ := allocate_numbers hallocate
      have hname : p'.name = p.name := by rw [hp]
      have hnames : p'.namedCounters = p.namedCounters := by rw [hp]
      rw [hname] at hids
      rw [hnames] at hvalues
      refine .inr ⟨c, p, rest, id, rfl, by simp [hid], ?_, ?_, hids, hvalues⟩
      · exact ⟨{ p'.newResource importTime with name := name }, by simp [hget], rfl, hname⟩
      · intro j hj
        simp [hget, hj]
  | stop => exact .inl ⟨Db.keepsNumbers_of_eq rfl rfl, .inl rfl⟩
  | plan | garbage | wantsMore | hasEnough | tooSoon | soonEnough | cleanUnknown | keepUnknown
    | markCleaned | collect | assigned | skipped | served =>
      exact .inl ⟨Db.keepsNumbers_of_eq rfl rfl, .inr (by simp)⟩

/-- A step of a worker that does not end its row keeps the others from ending. -/
theorem ended_of_modify {rows : IdTable Resource} {f : Resource → Resource} {id j : ResourceId}
    {r' : Resource} (hf : ∀ r, (f r).state ≠ .ended)
    (hr' : (rows.modify id f).get? j = some r') (hended : r'.state = .ended) :
    rows.get? j = some r' := by
  rw [IdTable.get?_modify] at hr'
  split_ifs at hr' with hj
  · obtain ⟨r, -, rfl⟩ := Option.map_eq_some_iff.mp hr'
    exact absurd hended (hf r)
  · exact hr'

/-- The end of an allocation takes the numbers back if the hook has failed. -/
theorem allocFinish_numbers {p : Pool} {startInitiated now : Time} {rounding : Rounding}
    {output : Output} {id : ResourceId} {db db' : Db}
    (h : allocFinish p startInitiated now rounding output id db = .ok db') :
    db.KeepsNumbers db' (if output.status = 0 then none else some id) := by
  unfold allocFinish at h
  split at h
  next row r _ hr =>
    simp only at h
    split_ifs at h ⊢
    all_goals obtain rfl := Except.ok.inj h
    · exact Db.keepsNumbers_of_eq rfl rfl
    · exact Db.keepsNumbers_drop id
  next => contradiction

/-- What a step does to the numbers of the resources that end in it. -/
structure EndsWith (db db' : Db) (gone : Option ResourceId) : Prop where
  keeps : db.KeepsNumbers db' gone
  ended : ∀ {id r'}, gone = some id → db'.resources.get? id = some r' → r'.state = .ended
  others : ∀ {id r'}, db'.resources.get? id = some r' → r'.state = .ended →
    gone = some id ∨ ∃ r, db.resources.get? id = some r ∧ r.state = .ended

/-- A step that rewrites one row without ending it takes no numbers back. -/
theorem endsWith_none {db db' : Db} (hkeeps : db.KeepsNumbers db' none)
    (hothers : ∀ id r', db'.resources.get? id = some r' → r'.state = .ended →
      ∃ r, db.resources.get? id = some r ∧ r.state = .ended) : EndsWith db db' none :=
  ⟨hkeeps, by simp, fun hr' hended => .inr (hothers _ _ hr' hended)⟩

/-- A step that ends one row takes its numbers back. -/
theorem endsWith_some {db db' : Db} {id : ResourceId} {f : Resource → Resource}
    (hkeeps : db.KeepsNumbers db' (some id)) (hresources : db'.resources = db.resources.modify id f)
    (hf : ∀ r, (f r).state = .ended) : EndsWith db db' (some id) := by
  refine ⟨hkeeps, fun {j r'} hj hr' => ?_, fun {j r'} hr' hended => ?_⟩
  all_goals rw [hresources, IdTable.get?_modify] at hr'
  · obtain rfl := Option.some.inj hj
    rw [if_pos rfl] at hr'
    obtain ⟨r, -, rfl⟩ := Option.map_eq_some_iff.mp hr'
    exact hf r
  · split_ifs at hr' with hj
    · exact .inl (by rw [hj])
    · exact .inr ⟨r', hr', hended⟩

/-- A step of a worker takes the numbers of a resource back when it moves it to
ENDED. -/
theorem Worker.step_numbers {worker next : Worker} {i : Input} {db db' : Db}
    (h : worker.step i db = (db', next)) : ∃ gone, EndsWith db db' gone := by
  have hsteps := Worker.step_cases h
  cases hsteps with
  | raised | moved | cleaned | gaveUp =>
      exact ⟨none, endsWith_none (Db.keepsNumbers_of_eq rfl rfl) fun _ r' hr' hended =>
        ⟨r', hr', hended⟩⟩
  | @started id startInitiated output _ hok hjob _ hresources =>
      have hkeeps := allocFinish_numbers (Worker.allocFinish_of_step hok hjob h)
      split_ifs at hkeeps with hstatus
      · refine ⟨none, endsWith_none hkeeps fun j r' hr' hended => ?_⟩
        rw [hresources] at hr'
        exact ⟨r', ended_of_modify (by simp [Resource.started, hstatus]) hr' hended, hended⟩
      · exact ⟨some id, endsWith_some hkeeps hresources (by simp [Resource.started, hstatus])⟩
  | terminating =>
      exact ⟨none, endsWith_none (Db.keepsNumbers_of_eq rfl rfl) fun _ r' hr' hended =>
        ⟨r', ended_of_modify (by simp) hr' hended, hended⟩⟩
  | @ended id _ hok hjob =>
      obtain rfl := terminateClose_ok (Worker.terminateClose_of_step hok hjob h)
      exact ⟨some id, endsWith_some (Db.keepsNumbers_drop id) rfl fun _ => rfl⟩
  | returned =>
      exact ⟨none, endsWith_none (Db.keepsNumbers_of_eq rfl rfl) fun _ r' hr' hended =>
        ⟨r', ended_of_modify (by simp [Resource.returned]) hr' hended, hended⟩⟩

/-! ## Numbers in order -/

/-- The sum of the limits of the pools that list a counter, each of them as often as it
lists it; a pool with a negative limit starts nothing and counts as zero. -/
def Config.counterBound (config : Config) (counter : String) : Int :=
  (config.pools.map fun p => (p.namedCounters.count counter : Int) * Max.max p.max 0).sum

/-- The numbers of the running server are in order. -/
structure Db.Numbers (config : Config) (db : Db) : Prop where
  ids : Numbered db.idRows
  values : DistinctNumbers db.counterRows
  /-- A resource has a pool of the configuration. -/
  pool : ∀ {id r}, db.resources.get? id = some r → ∃ p ∈ config.pools, p.name = r.pool
  idOwner : ∀ {row}, row ∈ db.idRows →
    ∃ r, db.resources.get? row.owner = some r ∧ r.state ≠ .ended ∧ r.pool = row.group
  valueOwner : ∀ {row}, row ∈ db.counterRows → ∃ idRow ∈ db.idRows, idRow.owner = row.owner
  /-- A resource in service has an identifier. -/
  idHeld : ∀ {id r}, db.resources.get? id = some r → r.state.leaving = false →
    ∃ row ∈ db.idRows, row.owner = id
  /-- A resource with an identifier has as many values of a counter as its pool lists it. -/
  valueHeld : ∀ {idRow p}, idRow ∈ db.idRows → p ∈ config.pools → p.name = idRow.group →
    ∀ name, held db.counterRows name idRow.owner = p.namedCounters.count name
  idBelow : ∀ {row p}, row ∈ db.idRows → p ∈ config.pools → p.name = row.group →
    (row.number : Int) < p.max
  valueBelow : ∀ {row}, row ∈ db.counterRows →
    (row.number : Int) < config.counterBound row.group

namespace Db

variable {config : Config} {db db' : Db} {gone : Option ResourceId} {p : Pool} {id : ResourceId}

/-- What an action does to existing rows, as far as numbers are concerned. -/
structure RowsContinue (db db' : Db) : Prop where
  row : ∀ {j r}, db.resources.get? j = some r →
    ∃ r', db'.resources.get? j = some r' ∧ r'.pool = r.pool
  leaving : ∀ {j r r'}, db.resources.get? j = some r → db'.resources.get? j = some r' →
    r.state.leaving = true → r'.state.leaving = true

/-- The empty database gives no numbers. -/
theorem numbers_empty (config : Config) : ({} : Db).Numbers config := by
  refine ⟨numbered_nil, distinctNumbers_nil, ?_, ?_, ?_, ?_, ?_, ?_, ?_⟩ <;>
    simp [idRows, counterRows]

/-- Numbers stay in order when those of the ending resource are taken back. -/
theorem Numbers.kept (h : db.Numbers config) (hends : EndsWith db db' gone)
    (hrows : db.RowsContinue db')
    (hold : ∀ {j r'}, db'.resources.get? j = some r' → ∃ r, db.resources.get? j = some r) :
    db'.Numbers config := by
  have hids := fun row => @KeepsNumbers.mem_idRows _ _ _ hends.keeps row
  have hvalues := fun row => @KeepsNumbers.mem_counterRows _ _ _ hends.keeps row
  -- a row of a resource in service is not taken back
  have hserving : ∀ {j r'}, db'.resources.get? j = some r' → r'.state.leaving = false →
      some j ≠ gone ∧ ∃ r, db.resources.get? j = some r ∧ r.state.leaving = false ∧
        r'.pool = r.pool := by
    intro j r' hr' hstate
    refine ⟨fun hj => ?_, ?_⟩
    · simp [hends.ended hj.symm hr', RState.leaving] at hstate
    · obtain ⟨r, hr⟩ := hold hr'
      obtain ⟨r₁, hr₁, hpool⟩ := hrows.row hr
      obtain rfl := Option.some.inj (hr'.symm.trans hr₁)
      refine ⟨r, hr, ?_, hpool⟩
      by_contra hleaving
      have hleaving' := hrows.leaving hr hr' (by simpa using hleaving)
      simp [hstate] at hleaving'
  constructor
  case ids => exact hends.keeps.idRows ▸ h.ids.filter _
  case values => exact hends.keeps.counterRows ▸ h.values.filter _
  case pool =>
    intro j r' hr'
    obtain ⟨r, hr⟩ := hold hr'
    obtain ⟨r₁, hr₁, hpool⟩ := hrows.row hr
    obtain rfl := Option.some.inj (hr'.symm.trans hr₁)
    rw [hpool]
    exact h.pool hr
  case idOwner =>
    intro row hrow
    rw [hids] at hrow
    obtain ⟨r, hr, hstate, hpool⟩ := h.idOwner hrow.1
    obtain ⟨r', hr', hpool'⟩ := hrows.row hr
    refine ⟨r', hr', fun hended => ?_, hpool'.trans hpool⟩
    rcases hends.others hr' hended with hgone | ⟨r₁, hr₁, hended₁⟩
    · exact hrow.2 hgone.symm
    · obtain rfl := Option.some.inj (hr.symm.trans hr₁)
      exact hstate hended₁
  case valueOwner =>
    intro row hrow
    rw [hvalues] at hrow
    obtain ⟨idRow, hidRow, howner⟩ := h.valueOwner hrow.1
    exact ⟨idRow, (hids idRow).mpr ⟨hidRow, howner ▸ hrow.2⟩, howner⟩
  case idHeld =>
    intro j r' hr' hstate
    obtain ⟨hgone, r, hr, hleaving, -⟩ := hserving hr' hstate
    obtain ⟨row, hrow, rfl⟩ := h.idHeld hr hleaving
    exact ⟨row, (hids row).mpr ⟨hrow, hgone⟩, rfl⟩
  case valueHeld =>
    intro idRow q hidRow hq hname name
    rw [hids] at hidRow
    rw [hends.keeps.counterRows, held_filter, h.valueHeld hidRow.1 hq hname]
    rintro row hrow
    simpa [hrow] using hidRow.2
  case idBelow =>
    intro row q hrow hq hname
    exact h.idBelow ((hids row).mp hrow).1 hq hname
  case valueBelow =>
    intro row hrow
    exact h.valueBelow ((hvalues row).mp hrow).1

/-- The rows of a pool are at most as many as its limit allows. -/
theorem Numbers.length_le (h : db.Numbers config) (hp : p ∈ config.pools) :
    ((numbers db.idRows p.name).length : Int) ≤ Max.max p.max 0 := by
  have hlength : (numbers db.idRows p.name).length ≤ p.max.toNat := by
    apply h.ids.number.length_le
    intro k hk
    obtain ⟨row, hrow, hgroup, rfl⟩ := mem_numbers.mp hk
    have hbelow := h.idBelow hrow hp hgroup.symm
    omega
  omega

/-- A counter has room for the values of another resource of a pool that has room. -/
theorem Numbers.length_add_le (h : db.Numbers config) (hp : p ∈ config.pools)
    (hroom : ((numbers db.idRows p.name).length : Int) < p.max) (name : String) :
    ((numbers db.counterRows name).length : Int) + p.namedCounters.count name ≤
      config.counterBound name := by
  have hcover : (numbers db.counterRows name).length ≤
      (config.pools.map fun q =>
        q.namedCounters.count name * (numbers db.idRows q.name).length).sum := by
    apply length_le_sum
    intro row hrow _
    obtain ⟨idRow, hidRow, howner⟩ := h.valueOwner hrow
    obtain ⟨r, hr, -, hpool⟩ := h.idOwner hidRow
    obtain ⟨q, hq, hname⟩ := h.pool hr
    have hgroup : q.name = idRow.group := hname.trans hpool
    refine ⟨q, hq, mem_owners.mpr ⟨idRow, hidRow, hgroup.symm, howner⟩, ?_⟩
    rw [← howner, h.valueHeld hidRow hq hgroup]
  have hsum : (config.pools.map fun q =>
        (q.namedCounters.count name : Int) * (numbers db.idRows q.name).length).sum +
      p.namedCounters.count name ≤ config.counterBound name :=
    sum_mul_add_le (fun q hq => h.length_le hq) hp (by omega)
  calc ((numbers db.counterRows name).length : Int) + p.namedCounters.count name
      ≤ ((config.pools.map fun q =>
          q.namedCounters.count name * (numbers db.idRows q.name).length).sum : ℕ) +
          p.namedCounters.count name := by
        exact_mod_cast Nat.add_le_add_right hcover _
    _ = (config.pools.map fun q =>
          (q.namedCounters.count name : Int) * (numbers db.idRows q.name).length).sum +
          p.namedCounters.count name := by
        rw [Nat.cast_list_sum, List.map_map]
        rfl
    _ ≤ config.counterBound name := hsum

/-- A new resource has no numbers. -/
theorem Numbers.owner_ne (h : db.Numbers config) (hnew : db.resources.get? id = none) :
    (∀ {row}, row ∈ db.idRows → row.owner ≠ id) ∧
      ∀ {row}, row ∈ db.counterRows → row.owner ≠ id := by
  have hidOwner : ∀ {row}, row ∈ db.idRows → row.owner ≠ id := by
    rintro row hrow rfl
    obtain ⟨r, hr, -⟩ := h.idOwner hrow
    simp [hnew] at hr
  refine ⟨hidOwner, fun {row} hrow heq => ?_⟩
  obtain ⟨idRow, hidRow, howner⟩ := h.valueOwner hrow
  exact hidOwner hidRow (howner.trans heq)

/-- The numbers of a new resource are different from all others. -/
theorem Numbers.numbered_given (h : db.Numbers config) (hgives : p.GivesNumbers db db' id) :
    Numbered db'.idRows ∧ DistinctNumbers db'.counterRows := by
  obtain ⟨hidOwner, -⟩ := h.owner_ne hgives.new
  obtain ⟨rows, hrows, hleast, -⟩ := hgives.counterRows
  refine ⟨⟨?_, ?_⟩, ?_⟩
  · rw [hgives.idRows]
    exact h.ids.number.snoc (newId_isLeast db p.name id)
  · rw [hgives.idRows]
    refine List.pairwise_append.mpr ⟨h.ids.owner, List.pairwise_singleton _ _, ?_⟩
    intro x hx y hy _
    obtain rfl := List.mem_singleton.mp hy
    exact hidOwner hx
  · rw [hrows]
    exact hleast.distinct h.values

/-- A new resource of a pool with room gets its numbers in order. -/
theorem Numbers.given (h : db.Numbers config) (hp : p.base ∈ config.pools)
    (hgives : p.GivesNumbers db db' id)
    (hroom : ((numbers db.idRows p.name).length : Int) < p.max) : db'.Numbers config := by
  obtain ⟨hnumbered, hnumbered'⟩ := h.numbered_given hgives
  have hids := hgives.idRows
  obtain ⟨news, hvalues, hleast, howners, hgroups⟩ := hgives.counterRows
  obtain ⟨hidOwner, hvalueOwner⟩ := h.owner_ne hgives.new
  obtain ⟨r₀, hr₀, hstate₀, hpool₀⟩ := hgives.inserted
  have hrow : ∀ {j r'}, db'.resources.get? j = some r' →
      j = id ∧ r' = r₀ ∨ db.resources.get? j = some r' := by
    intro j r' hr'
    by_cases hj : j = id
    · subst hj
      exact .inl ⟨rfl, Option.some.inj (hr'.symm.trans hr₀)⟩
    · exact .inr (hgives.others j hj ▸ hr')
  constructor
  case ids => exact hnumbered
  case values => exact hnumbered'
  case pool =>
    intro j r' hr'
    rcases hrow hr' with ⟨-, rfl⟩ | hr
    · exact ⟨p.base, hp, hpool₀.symm⟩
    · exact h.pool hr
  case idOwner =>
    intro row hmem
    rw [hids] at hmem
    rcases List.mem_append.mp hmem with hmem | hmem
    · obtain ⟨r, hr, hstate, hpool⟩ := h.idOwner hmem
      exact ⟨r, hgives.kept hr, hstate, hpool⟩
    · obtain rfl := List.mem_singleton.mp hmem
      exact ⟨r₀, hr₀, by simp [hstate₀], hpool₀⟩
  case valueOwner =>
    intro row hmem
    rw [hvalues] at hmem
    rw [hids]
    rcases List.mem_append.mp hmem with hmem | hmem
    · obtain ⟨idRow, hidRow, howner⟩ := h.valueOwner hmem
      exact ⟨idRow, List.mem_append_left _ hidRow, howner⟩
    · exact ⟨_, List.mem_append_right _ (List.mem_singleton_self _), (howners row hmem).symm⟩
  case idHeld =>
    intro j r' hr' hserving
    rw [hids]
    rcases hrow hr' with ⟨rfl, rfl⟩ | hr
    · exact ⟨_, List.mem_append_right _ (List.mem_singleton_self _), rfl⟩
    · obtain ⟨row, hmem, howner⟩ := h.idHeld hr hserving
      exact ⟨row, List.mem_append_left _ hmem, howner⟩
  case valueHeld =>
    intro idRow q hmem hq hname name
    rw [hids] at hmem
    rw [hvalues, held_append]
    rcases List.mem_append.mp hmem with hmem | hmem
    · have hother : ∀ row ∈ news, row.owner ≠ idRow.owner := by
        intro row hrow heq
        exact hidOwner hmem (heq.symm.trans (howners row hrow))
      rw [held_eq_zero hother, h.valueHeld hmem hq hname, add_zero]
    · obtain rfl := List.mem_singleton.mp hmem
      obtain rfl := config.eq_of_name hq hp hname
      have hnone : held db.counterRows name id = 0 := held_eq_zero (fun row => hvalueOwner) name
      have hnew : held news name id = p.namedCounters.count name := by
        rw [held_of_owner howners, hgroups]
      change held db.counterRows name id + held news name id = _
      rw [hnone, hnew, zero_add]
      rfl
  case idBelow =>
    intro row q hmem hq hname
    rw [hids] at hmem
    rcases List.mem_append.mp hmem with hmem | hmem
    · exact h.idBelow hmem hq hname
    · obtain rfl := List.mem_singleton.mp hmem
      obtain rfl := config.eq_of_name hq hp hname
      have hle := le_length_of_isLeast (findSmallestNumber_isLeast (numbers db.idRows p.name))
      exact lt_of_le_of_lt (by exact_mod_cast hle) hroom
  case valueBelow =>
    intro row hmem
    rw [hvalues] at hmem
    rcases List.mem_append.mp hmem with hmem | hmem
    · exact h.valueBelow hmem
    · have hlt := hleast.lt_length hmem
      have hbound := h.length_add_le hp hroom row.group
      have hcount : (numbers news row.group).length = p.namedCounters.count row.group := by
        rw [numbers_length, hgroups]
      rw [numbers_append, List.length_append, hcount] at hlt
      have hcast : (row.number : Int) < ((numbers db.counterRows row.group).length : Int) +
          p.namedCounters.count row.group := by exact_mod_cast hlt
      exact lt_of_lt_of_le hcast hbound

/-- A pool has at most as many identifiers in use as resources that are not in
ENDED. -/
theorem Numbers.length_le_on (h : db.Numbers config) (pool : String) :
    (numbers db.idRows pool).length ≤ db.resources.count (Resource.isOn pool) := by
  have hsubset : (owners db.idRows pool).toFinset ⊆
      db.resources.idsWhere (Resource.isOn pool) := by
    intro owner howner
    obtain ⟨row, hrow, hgroup, rfl⟩ := mem_owners.mp (List.mem_toFinset.mp howner)
    obtain ⟨r, hr, hstate, hpool⟩ := h.idOwner hrow
    exact IdTable.mem_idsWhere.mpr ⟨r, hr, by simp [Resource.isOn, hstate, hpool, hgroup]⟩
  calc (numbers db.idRows pool).length
      = (owners db.idRows pool).toFinset.card := by
        rw [List.toFinset_card_of_nodup (h.ids.owners_nodup pool), owners_length]
    _ ≤ (db.resources.idsWhere (Resource.isOn pool)).card := Finset.card_le_card hsubset
    _ = db.resources.count (Resource.isOn pool) := (IdTable.count_eq_card _ _).symm

end Db

namespace World

variable {config : Config} {w w' : World} {a : Action} {as : List Action}

/-- What an action can do to the numbers. -/
inductive NumberSteps (w : World) (a : Action) (w' : World) : Prop
  | kept (gone) : EndsWith w.db w'.db gone →
      (∀ {j r'}, w'.db.resources.get? j = some r' → ∃ r, w.db.resources.get? j = some r) →
      NumberSteps w a w'
  | given {i c p rest id} : a = .manager i → w.manager = .allocate c p rest →
      p.GivesNumbers w.db w'.db id → NumberSteps w a w'

/-- Unless a worker moves it there, no resource comes to ENDED. -/
theorem ResourceSteps.was_ended {id : ResourceId} {r r' : Resource}
    (h : w.ResourceSteps id r a r') (hworker : ∀ k i, a ≠ .worker k i)
    (hended : r'.state = .ended) : r.state = .ended := by
  cases h with
  | same | checked | assigned => exact hended
  | decoupled =>
      simp only [Resource.decoupled, Resource.released] at hended
      split_ifs at hended
      exact hended
  | retired | killed | broken => simp [Resource.retired] at hended
  | started | terminating | ended | returned => exact absurd rfl (hworker _ _)

/-- What an action does to the numbers. -/
theorem Inv.numberSteps (h : w.Inv) (hstep : w.step a = some w') : w.NumberSteps a w' := by
  have hsteps := step_cases hstep
  have hold : w'.db = w.db ∨ (∀ i c p rest, a = .manager i → w.manager ≠ .allocate c p rest) →
      ∀ {j r'}, w'.db.resources.get? j = some r' → ∃ r, w.db.resources.get? j = some r := by
    intro hother j r' hr'
    cases hr : w.db.resources.get? j with
    | none =>
        obtain ⟨i, c, p, rest, name, ha, hpc, -⟩ := hsteps.created h.linked hr' hr
        rcases hother with hdb | hother
        · simp [hdb, hr] at hr'
        · exact absurd hpc (hother i c p rest ha)
    | some r => exact ⟨r, rfl⟩
  -- an action that is no step of a worker ends no resource
  have hkept : (∀ k i, a ≠ .worker k i) → w.db.KeepsNumbers w'.db none →
      w'.db = w.db ∨ (∀ i c p rest, a = .manager i → w.manager ≠ .allocate c p rest) →
      w.NumberSteps a w' := by
    intro hworker hkeeps hother
    refine .kept none (endsWith_none hkeeps fun j r' hr' hended => ?_) (hold hother)
    obtain ⟨r, hr⟩ := hold hother hr'
    obtain ⟨r₁, hr₁, hrow⟩ := hsteps.resource h.linked hr
    obtain rfl := Option.some.inj (hr'.symm.trans hr₁)
    exact ⟨r, hr, hrow.was_ended hworker hended⟩
  cases a with
  | manager i =>
      obtain rfl := Option.some.inj hstep
      rcases ManagerPc.step_numbers h.linked rfl with
        ⟨hkeeps, hother⟩ | ⟨c, p, rest, id, hpc, hgives⟩
      · exact hkept (by simp) hkeeps (hother.imp_right fun hpc _ c p rest _ => hpc c p rest)
      · exact .given rfl hpc hgives
  | worker k i =>
      obtain ⟨worker, db, next, -, -, hnext, rfl⟩ := step_worker hstep
      obtain ⟨gone, hends⟩ := Worker.step_numbers hnext
      exact .kept gone hends (hold (.inr (by simp)))
  | _ =>
      refine hkept (by simp) ?_ (.inr (by simp))
      cases hsteps <;> exact Db.keepsNumbers_of_eq rfl rfl

/-- The numbers are in order, and the pool that is going to allocate has room. -/
structure Numbers (config : Config) (w : World) : Prop where
  db : w.db.Numbers config
  room : ∀ {c p rest}, w.manager = .tooSoon c p rest ∨ w.manager = .allocate c p rest →
    ((numbers w.db.idRows p.name).length : Int) < p.max

/-- Rows of resources continue in an action. -/
theorem Inv.rowsContinue (h : w.Inv) (hstep : w.Steps a w') : w.db.RowsContinue w'.db := by
  constructor
  · intro j r hr
    obtain ⟨r', hr', hrow⟩ := hstep.resource h.linked hr
    exact ⟨r', hr', hrow.pool⟩
  · intro j r r' hr hr' hleaving
    obtain ⟨r₁, hr₁, hrow⟩ := hstep.resource h.linked hr
    obtain rfl := Option.some.inj (hr'.symm.trans hr₁)
    exact h.leaving_kept hrow hr hleaving

/-- Every action keeps the numbers in order. -/
theorem Inv.numbers_step (h : w.Inv) (hconfig : w.Configured config) (hnumbers : w.Numbers config)
    (hstep : w.step a = some w') : w'.Numbers config := by
  have hsteps := step_cases hstep
  have hcurrent : ∀ {c p rest}, w.manager = .stats c p rest ∨ w.manager = .allocate c p rest →
      p.base ∈ config.pools := by
    rintro c p rest (hpc | hpc) <;>
      exact hconfig.current p (by simp [hpc, ManagerPc.current])
  have hnumberSteps := h.numberSteps hstep
  constructor
  · cases hnumberSteps with
    | kept gone hends hold => exact hnumbers.db.kept hends (h.rowsContinue hsteps) hold
    | given _ hpc hgives =>
        exact hnumbers.db.given (hcurrent (.inr hpc)) hgives (hnumbers.room (.inr hpc))
  · intro c p rest hpc
    rcases hsteps.deciding_cases hpc with ⟨hbefore, hother⟩ | ⟨-, hstats, hdb, hwants⟩
    · cases hnumberSteps with
      | kept gone hends _ =>
          have hroom := hnumbers.room hbefore
          rw [hends.keeps.idRows]
          have hle : (numbers (w.db.idRows.filter fun row => some row.owner ≠ gone) p.name).length ≤
              (numbers w.db.idRows p.name).length := by
            simp only [numbers, List.length_map]
            exact (List.filter_sublist.filter _).length_le
          omega
      | given ha hpc' _ => exact absurd hpc' (hother ha)
    · have hname : p.name ≠ "" := config.named p.base (hcurrent (.inl hstats))
      have hroom := (Pool.hasRoom_of_wantsMore hname hwants).on
      have hle := hnumbers.db.length_le_on p.name
      rw [hdb]
      omega

end World

/-! ## What clients rely on -/

/-- A resource holds exactly one identifier of its pool, and of each counter as many
values as the pool lists it. -/
def Db.HoldsNumbers (db : Db) (id : ResourceId) (p : Pool) : Prop :=
  (∃ n, db.idsWithinPool.filter (fun row => row.resourceId = id) = [⟨id, p.name, n⟩]) ∧
    ∀ name, (db.namedCounters.filter fun row =>
      row.resourceId = id ∧ row.counterName = name).length = p.namedCounters.count name

/-- A resource holds no numbers. -/
def Db.HoldsNone (db : Db) (id : ResourceId) : Prop :=
  (∀ row ∈ db.idsWithinPool, row.resourceId ≠ id) ∧
    ∀ row ∈ db.namedCounters, row.resourceId ≠ id

/-- No pool gives an identifier twice, and no counter a value. -/
def Db.UniqueNumbers (db : Db) : Prop :=
  (db.idsWithinPool.Pairwise fun x y => x.poolName = y.poolName → x.id ≠ y.id) ∧
    db.namedCounters.Pairwise fun x y => x.counterName = y.counterName → x.value ≠ y.value

/-- Each number that one step adds to a table is the least one that is not in use when it
is given: no row that is older is taken back in the step, and the rows before it in the
table are those that are in use by then. -/
def Db.GivesLeast (db db' : Db) : Prop :=
  (∀ before row after, db'.idsWithinPool = before ++ row :: after → row ∉ db.idsWithinPool →
    db.idsWithinPool ⊆ before ∧
      IsLeast {n | ∀ old ∈ before, old.poolName = row.poolName → old.id ≠ n} row.id) ∧
    ∀ before row after, db'.namedCounters = before ++ row :: after → row ∉ db.namedCounters →
      db.namedCounters ⊆ before ∧
        IsLeast {n | ∀ old ∈ before, old.counterName = row.counterName → old.value ≠ n} row.value

namespace Db

variable {config : Config} {db db' : Db} {id : ResourceId} {r : Resource} {p : Pool}

/-- Numbers in order are not given twice. -/
theorem Numbers.unique (h : db.Numbers config) : db.UniqueNumbers :=
  ⟨List.pairwise_map.mp h.ids.number, List.pairwise_map.mp h.values⟩

/-- A resource in service holds the numbers of its pool. -/
theorem Numbers.holds (h : db.Numbers config) (hr : db.resources.get? id = some r)
    (hserving : r.state.leaving = false) :
    ∃ p ∈ config.pools, p.name = r.pool ∧ db.HoldsNumbers id p := by
  obtain ⟨p, hp, hname⟩ := h.pool hr
  have hgroup : ∀ row ∈ db.idsWithinPool, row.resourceId = id → row.poolName = p.name := by
    rintro row hrow rfl
    obtain ⟨r₁, hr₁, -, hpool⟩ := h.idOwner (mem_idRows hrow)
    obtain rfl := Option.some.inj (hr.symm.trans hr₁)
    exact hpool.symm.trans hname.symm
  refine ⟨p, hp, hname, ?_, fun name => ?_⟩
  · obtain ⟨_, hmem, howner⟩ := h.idHeld hr hserving
    obtain ⟨row, hrow, rfl⟩ := List.mem_map.mp hmem
    have hpair := (List.pairwise_map.mp h.ids.owner).imp_of_mem
      (S := fun x y => decide (x.resourceId = id) = true → decide (y.resourceId = id) = false) <|
      fun {x y} hx hy hne => by
        simp only [decide_eq_true_eq, decide_eq_false_iff_not]
        intro hxid hyid
        have hgroups := (hgroup x hx hxid).trans (hgroup y hy hyid).symm
        exact hne hgroups (hxid.trans hyid.symm)
    refine ⟨row.id, (filter_eq_singleton hpair hrow (decide_eq_true howner)).trans ?_⟩
    have hpool := hgroup row hrow howner
    obtain ⟨owner, pool, n⟩ := row
    obtain rfl : owner = id := howner
    obtain rfl : pool = p.name := hpool
    rfl
  · obtain ⟨idRow, hidRow, rfl⟩ := h.idHeld hr hserving
    obtain ⟨r₁, hr₁, -, hpool⟩ := h.idOwner hidRow
    obtain rfl := Option.some.inj (hr.symm.trans hr₁)
    rw [← h.valueHeld hidRow hp (hname.trans hpool) name, held, counterRows, List.countP_map,
      List.countP_eq_length_filter]
    congr 1
    apply List.filter_congr
    intro row _
    exact decide_eq_decide.mpr and_comm

/-- A resource in ENDED holds no numbers. -/
theorem Numbers.holdsNone (h : db.Numbers config) (hr : db.resources.get? id = some r)
    (hended : r.state = .ended) : db.HoldsNone id := by
  have hnone : ∀ row ∈ db.idRows, row.owner ≠ id := by
    rintro row hrow rfl
    obtain ⟨r₁, hr₁, hstate, -⟩ := h.idOwner hrow
    obtain rfl := Option.some.inj (hr.symm.trans hr₁)
    exact hstate hended
  constructor
  · intro row hrow
    exact hnone row.given (mem_idRows hrow)
  · intro row hrow hid
    obtain ⟨idRow, hidRow, howner⟩ := h.valueOwner (mem_counterRows hrow)
    exact hnone idRow hidRow (howner.trans hid)

/-- The numbers of a group that are not in use. -/
theorem unused_ids (rows : List IDWithinPool) (pool : String) :
    {k | k ∉ numbers (rows.map IDWithinPool.given) pool} =
      {n | ∀ old ∈ rows, old.poolName = pool → old.id ≠ n} := by
  ext n
  simp [mem_numbers, IDWithinPool.given]

theorem unused_values (rows : List NamedCounter) (counter : String) :
    {k | k ∉ numbers (rows.map NamedCounter.given) counter} =
      {n | ∀ old ∈ rows, old.counterName = counter → old.value ≠ n} := by
  ext n
  simp [mem_numbers, NamedCounter.given]

/-- The numbers given with a new resource are the least ones not in use. -/
theorem givesLeast_of_gives (h : p.GivesNumbers db db' id) : db.GivesLeast db' := by
  constructor
  · intro before row after hsplit hnew
    rw [h.ids] at hsplit
    obtain ⟨between, rfl, hlast⟩ := append_eq_append_cons hsplit hnew
    obtain ⟨rfl, rfl, -⟩ := singleton_eq_append_cons hlast
    rw [List.append_nil]
    exact ⟨List.Subset.refl _, unused_ids _ _ ▸ newId_isLeast db p.name id⟩
  · intro before row after hsplit hnew
    obtain ⟨news, hnews, hrows⟩ := h.values
    rw [hrows] at hsplit
    obtain ⟨between, rfl, rfl⟩ := append_eq_append_cons hsplit hnew
    have hleast := hnews.least
    rw [List.map_append, List.map_cons] at hleast
    have hleast := hleast.isLeast
    rw [counterRows, ← List.map_append, show row.given.group = row.counterName from rfl,
      unused_values] at hleast
    exact ⟨List.subset_append_left _ _, hleast⟩

/-- A step that gives no numbers. -/
theorem givesLeast_of_keeps {gone : Option ResourceId} (h : db.KeepsNumbers db' gone) :
    db.GivesLeast db' := by
  have hkept : ∀ {α : Type} {rows rows' before after : List α} {row : α} {p : α → Bool},
      rows' = rows.filter p → rows' = before ++ row :: after → row ∈ rows := by
    intro α rows rows' before after row p hfilter hsplit
    have hmem : row ∈ rows' := by simp [hsplit]
    rw [hfilter] at hmem
    exact List.mem_of_mem_filter hmem
  constructor
  · intro before row after hsplit hnew
    exact absurd (hkept h.1 hsplit) hnew
  · intro before row after hsplit hnew
    exact absurd (hkept h.2 hsplit) hnew

end Db

namespace World

/-- A pool that shares a counter, which it lists once or more often. -/
def sharingPool (name : String) (max : Int) (namedCounters : List String) : Pool :=
  { name := name, max := max, maxPrealloc := 1, cmdNew := some "new", cmdDelete := some "delete",
    namedCounters := namedCounters }

/-- Two pools that share the counter; the first may list it twice. -/
def sharingConfig (namedCounters : List String) (max : Int) : Config where
  pools := [sharingPool "a" 1 namedCounters, sharingPool "b" max ["port"]]
  nodup := by simp [sharingPool]
  distinct := by simp [sharingPool]
  named := by simp [sharingPool]
  unplanned := by simp [sharingPool]
  noPrealloc := by simp [sharingPool]
  validated := by simp [sharingPool, Pool.validate, onDemandTags, Pool.tagSetOnDemand,
    Pool.tagSetNormal, truthy]

/-- Both pools start a resource, the first one with two values of the counter. -/
def sharingWorld : World :=
  after (Loads (sharingConfig ["port", "port"] 1)) (ticks (sharingConfig ["port", "port"] 1) 17)
    (by decide +kernel)

end World

end Resalloc
