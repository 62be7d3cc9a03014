import Mathlib.Tactic.NormNum
import Resalloc.Foundations.MovingAverage
import Resalloc.Server.Spacing

/-!
# What the statistics of a pool say

Every allocation that ends writes the statistics of its pool: two moving averages and two times.
The threads of a pool write them one after another, in any order, and other transactions write the
same row.  This file shows that no start is lost or counted twice, and what an observer of the
numbers may conclude, up to the rounding of floating point numbers.

Main results:

- Theorem {lit}`World.step_statistics`: which steps change the statistics of a pool.
- Theorem {lit}`World.Reaches.statistics`: the statistics are those of all starts that have ended.
-/

namespace Resalloc

open Foundations

/-! ## The columns -/

/-- An allocation that has ended. -/
structure Start where
  succeeded : Bool
  initiated : Time
  finished : Time
  /-- The rounding errors of the results that were stored. -/
  rounding : Rounding := {}
deriving DecidableEq

namespace Start

/-- {lit}`int(success)`. -/
def rate (start : Start) : ℚ := if start.succeeded then 1 else 0

/-- {lit}`startup_time`. -/
def duration (start : Start) : ℚ :=
  start.finished - start.initiated + start.rounding.startupTime

end Start

/-- The columns of a pool's row about its starts. -/
structure Statistics where
  successRate : Option ℚ := none
  timeAvg : Option ℚ := none
  lastAttempt : Option Time := none
  lastSuccess : Option Time := none

/-- The statistics in a pool's row. -/
def PoolRow.statistics (row : PoolRow) : Statistics where
  successRate := row.startupSuccessRate
  timeAvg := row.startupTimeAvg
  lastAttempt := row.lastAttemptToStart
  lastSuccess := row.lastSuccessfulStart

/-- The statistics of a pool; those of a pool without a row are empty. -/
def Db.statistics (db : Db) (name : String) : Statistics :=
  match db.pool? name with
  | none => {}
  | some row => row.statistics

namespace Statistics

/-- The weight of a new start. -/
def alpha : ℚ := 1 / 5

/-- The statistics after one more start. -/
def add (stats : Statistics) (start : Start) : Statistics where
  successRate := some (roundedBlend alpha start.rounding.successRate stats.successRate start.rate)
  timeAvg :=
    if start.succeeded then
      some (roundedBlend alpha start.rounding.timeAvg stats.timeAvg start.duration)
    else stats.timeAvg
  lastAttempt := some start.finished
  lastSuccess := if start.succeeded then some start.finished else stats.lastSuccess

/-- The statistics of a sequence of starts. -/
def ofStarts (starts : List Start) : Statistics where
  successRate := roundedAverage alpha (starts.map fun s => (s.rate, s.rounding.successRate))
  timeAvg := roundedAverage alpha
    ((starts.filter Start.succeeded).map fun s => (s.duration, s.rounding.timeAvg))
  lastAttempt := starts.getLast?.map Start.finished
  lastSuccess := (starts.filter Start.succeeded).getLast?.map Start.finished

/-- One more start. -/
theorem add_ofStarts (starts : List Start) (start : Start) :
    (ofStarts starts).add start = ofStarts (starts ++ [start]) := by
  cases hsucceeded : start.succeeded with
  | true => simp [add, ofStarts, List.filter_append, hsucceeded, roundedAverage_snoc]
  | false => simp [add, ofStarts, List.filter_append, hsucceeded, roundedAverage_snoc]

end Statistics

/-- {lit}`recalculate_statistics` adds a start. -/
theorem recalculateStatistics_statistics (row : PoolRow) (start : Start) :
    (recalculateStatistics start.succeeded start.initiated start.finished start.rounding
      row).statistics = row.statistics.add start := by
  rw [PoolRow.statistics, Statistics.add, Statistics.mk.injEq]
  refine ⟨?_, ?_, rfl, rfl⟩
  · rw [recalculateStatistics, PoolRow.statistics]
    cases row.startupSuccessRate <;> rfl
  · rw [recalculateStatistics, PoolRow.statistics]
    cases row.startupTimeAvg <;> rfl

namespace Db

variable {db db' : Db} {name : String}

/-- Only the rows of the pools are read. -/
theorem statistics_congr (h : db'.pools = db.pools) (name : String) :
    db'.statistics name = db.statistics name := by
  rw [statistics, pool?, h, ← pool?, ← statistics]

/-- Writing other columns keeps the statistics. -/
theorem modifyPool_statistics (db : Db) (name other : String) {f : PoolRow → PoolRow}
    (hf : ∀ row, (f row).name = row.name) (hkept : ∀ row, (f row).statistics = row.statistics) :
    (db.modifyPool name f).statistics other = db.statistics other := by
  rw [statistics, modifyPool_pool? db name other hf, statistics]
  cases db.pool? other with
  | none => rfl
  | some row =>
      simp only [Option.map_some]
      split_ifs
      · exact hkept row
      · rfl

/-- A start that has ended is added to the statistics of its own pool. -/
theorem recalculateStatistics_pool {row : PoolRow} (hrow : db.pool? name = some row)
    (start : Start) (other : String) :
    (db.modifyPool name (recalculateStatistics start.succeeded start.initiated start.finished
      start.rounding)).statistics other =
      if name = other then (db.statistics other).add start else db.statistics other := by
  rw [statistics, modifyPool_pool?]
  · split_ifs with hname
    · subst hname
      have hrowname : row.name = name := by simpa using List.find?_some hrow
      simp [statistics, hrow, hrowname, recalculateStatistics_statistics]
    · cases hother : db.pool? other with
      | none => simp [statistics, hother]
      | some row' =>
          have hothername : row'.name = other := by simpa using List.find?_some hother
          have hne : row'.name ≠ name := fun heq => hname (heq.symm.trans hothername)
          simp [statistics, hother, hne]
  · exact fun _ => rfl

end Db

/-- A new row has no statistics. -/
theorem initPoolInDb_statistics (now : Time) (db : Db) (p : Pool) (name : String) :
    (initPoolInDb now db p).statistics name = db.statistics name := by
  rw [initPoolInDb, Db.modifyPool_statistics]
  · cases hfound : db.pool? p.name with
    | some row => rfl
    | none =>
        simp only [Db.statistics, Db.pool?, List.find?_append]
        cases db.pools.find? fun row => row.name = name with
        | some row => rfl
        | none =>
            simp only [Option.none_or, List.find?_singleton]
            split_ifs <;> rfl
  · exact fun _ => rfl
  · exact fun _ => rfl

/-- Loading a configuration keeps the statistics. -/
theorem foldl_initPoolInDb_statistics (now : Time) (pools : List Pool) (db : Db) (name : String) :
    (pools.foldl (initPoolInDb now) db).statistics name = db.statistics name := by
  induction pools generalizing db with
  | nil => rfl
  | cons p pools ih => exact (ih _).trans (initPoolInDb_statistics now db p name)

/-- The manager keeps the statistics. -/
theorem ManagerPc.step_statistics {pc pc' : ManagerPc} {i : Input} {importTime : Time}
    {db db' : Db} {started : List Worker} (hlinked : Linked db)
    (h : pc.step i importTime db = (db', started, pc')) (name : String) :
    db'.statistics name = db.statistics name := by
  cases step_poolWrites hlinked h with
  | same hpools => exact Db.statistics_congr hpools name
  | load _ hdb =>
      rw [hdb]
      exact foldl_initPoolInDb_statistics i.now _ db name
  | allocate _ hallocate =>
      rw [Db.statistics_congr (allocate_pools hallocate), Db.modifyPool_statistics]
      · exact fun _ => rfl
      · exact fun _ => rfl
  | markCleaned p hdb =>
      rw [hdb, Pool.markCleaned, Db.modifyPool_statistics]
      · exact fun _ => rfl
      · exact fun _ => rfl

/-! ## The steps of the workers -/

/-- The start that the next step of a worker ends, if it ends one: its last transaction commits. -/
def Worker.start? (worker : Worker) (i : Input) (db : Db) : Option Start :=
  match worker.job with
  | .alloc _ (.finish startInitiated output) =>
      if (worker.step i db).2.status = .finished then
        some
          { succeeded := output.status = 0, initiated := startInitiated, finished := i.now
            rounding := i.rounding }
      else none
  | _ => none

/-- A running worker writes the statistics of its pool when it ends a start.  The row is that of the
pool's identifier. -/
theorem Worker.step_statistics {worker next : Worker} {i : Input} {db db' : Db}
    (h : worker.step i db = (db', next)) (hrunning : worker.status = .running) (name : String) :
    db'.statistics name =
      match worker.start? i db with
      | none => db.statistics name
      | some start =>
          if worker.pool.id = name then (db.statistics name).add start
          else db.statistics name := by
  have hsteps := Worker.step_cases h
  have hnone : next.status ≠ .finished → worker.start? i db = none := by
    intro hstatus
    unfold start?
    split
    · rw [h, if_neg hstatus]
    · rfl
  cases hsteps with
  | raised => rw [hnone (by simp [Worker.raise])]
  | moved => rw [hnone (by simp [Worker.goto, hrunning])]
  | cleaned hjob | gaveUp hjob => simp [start?, hjob]
  | terminating _ hjob | returned _ hjob =>
      simp only [start?, hjob]
      exact Db.statistics_congr rfl name
  | ended hok hjob =>
      obtain rfl := terminateClose_ok (Worker.terminateClose_of_step hok hjob h)
      simp only [start?, hjob]
      exact Db.statistics_congr rfl name
  | @started id startInitiated output _ hok hjob =>
      have hstart : worker.start? i db =
          some ⟨output.status = 0, startInitiated, i.now, i.rounding⟩ := by
        simp [start?, hjob, h, Worker.finish]
      have hfinish := Worker.allocFinish_of_step hok hjob h
      unfold allocFinish at hfinish
      split at hfinish
      next row r hrow hr =>
        have hpools : db'.pools = (db.modifyPool worker.pool.id (recalculateStatistics
            (decide (output.status = 0)) startInitiated i.now i.rounding)).pools := by
          simp only at hfinish
          split_ifs at hfinish
          all_goals obtain rfl := Except.ok.inj hfinish
          all_goals rfl
        rw [hstart, Db.statistics_congr hpools]
        exact Db.recalculateStatistics_pool hrow
          ⟨output.status = 0, startInitiated, i.now, i.rounding⟩ name
      next => contradiction

namespace World

variable {w w' : World} {a : Action} {as : List Action} {name : String}

/-! ## Runs -/

/-- The start in a pool that an action ends, if it ends one; the pool is known by its
identifier. -/
def start? (name : String) (w : World) (a : Action) : Option Start :=
  match a with
  | .worker k i =>
      match w.workers.get? k with
      | some worker => if worker.pool.id = name then worker.start? i w.db else none
      | none => none
  | _ => none

/-- The starts in a pool that have ended, in the order of their last transactions. -/
def starts (name : String) (as : List Action) : List Start := observe (start? name) step init as

/-- Only the end of a start in the pool changes its statistics. -/
theorem step_statistics (hlinked : Linked w.db) (hstep : w.step a = some w') (name : String) :
    w'.db.statistics name =
      match w.start? name a with
      | none => w.db.statistics name
      | some start => (w.db.statistics name).add start := by
  cases a with
  | manager i =>
      obtain rfl := Option.some.inj hstep
      exact ManagerPc.step_statistics hlinked rfl name
  | worker k i =>
      obtain ⟨worker, db, next, hworker, hrunning, hnext, rfl⟩ := step_worker hstep
      rw [Worker.step_statistics hnext hrunning name]
      simp only [start?, hworker]
      split_ifs
      · rfl
      · cases worker.start? i w.db <;> rfl
  | _ =>
      have hsteps := step_cases hstep
      cases hsteps <;> exact Db.statistics_congr rfl name

/-- The statistics of a pool are those of all its starts that have ended. -/
theorem Reaches.statistics_ofStarts (h : Reaches anyStep as w) (name : String) :
    w.db.statistics name = Statistics.ofStarts (starts name as) := by
  induction h with
  | refl => rfl
  | @snoc as u v a hprev _ hstep ih =>
      rw [step_statistics (Reaches.inv hprev).linked hstep, starts,
        hprev.observe_snoc (start? name) hstep, ← starts, ih]
      cases u.start? name a with
      | none => simp
      | some start => simpa using Statistics.add_ofStarts _ start

/-- No stored success rate was rounded by more than {lit}`ε`, and no average time by more than
{lit}`δ`. -/
def RoundedWithin (ε δ : ℚ) (starts : List Start) : Prop :=
  ∀ start ∈ starts, |start.rounding.successRate| ≤ ε ∧ |start.rounding.timeAvg| ≤ δ

/-- What an observer of a row may conclude about a sequence of starts.  The rounding errors do not
add up: together they never are more than five times the largest one. -/
structure Reports (ε δ : ℚ) (row : PoolRow) (starts : List Start) : Prop where
  columns : row.statistics = Statistics.ofStarts starts
  rate : ∀ rate ∈ row.startupSuccessRate, ∃ exact,
    movingAverage Statistics.alpha (starts.map Start.rate) = some exact ∧ |rate - exact| ≤ 5 * ε
  time : ∀ avg ∈ row.startupTimeAvg, ∃ exact,
    movingAverage Statistics.alpha ((starts.filter Start.succeeded).map Start.duration) =
      some exact ∧ |avg - exact| ≤ 5 * δ
  proportion : ∀ rate ∈ row.startupSuccessRate, -(5 * ε) ≤ rate ∧ rate ≤ 1 + 5 * ε
  /-- So many failures in a row show. -/
  failures : ∀ rate ∈ row.startupSuccessRate, ∀ before n,
    starts.map Start.succeeded = before ++ List.replicate n false → rate ≤ (4 / 5) ^ n + 5 * ε
  /-- So many successes in a row show. -/
  successes : ∀ rate ∈ row.startupSuccessRate, ∀ before n,
    starts.map Start.succeeded = before ++ List.replicate n true → 1 - (4 / 5) ^ n - 5 * ε ≤ rate
  /-- The average time is one that starts have taken. -/
  times : ∀ avg ∈ row.startupTimeAvg, ∀ shortest longest,
    (∀ start ∈ starts, start.succeeded = true →
      shortest ≤ start.duration ∧ start.duration ≤ longest) →
      shortest - 5 * δ ≤ avg ∧ avg ≤ longest + 5 * δ

/-- The rate of a start only depends on its success. -/
theorem map_rate (starts : List Start) :
    starts.map Start.rate = (starts.map Start.succeeded).map fun ok => if ok then 1 else 0 := by
  rw [List.map_map]
  rfl

/-- Rates are proportions. -/
theorem rate_mem (oks : List Bool) :
    ∀ x ∈ oks.map fun ok => if ok then (1 : ℚ) else 0, 0 ≤ x ∧ x ≤ 1 := by
  intro x hx
  obtain ⟨ok, -, rfl⟩ := List.mem_map.mp hx
  cases ok <;> norm_num

/-- A rounded column is near to the exact moving average. -/
theorem exists_exact {ε : ℚ} {l : List Start} {value error : Start → ℚ} {column : Option ℚ}
    (hcolumn : column = roundedAverage Statistics.alpha (l.map fun s => (value s, error s)))
    (herrors : ∀ s ∈ l, |error s| ≤ ε) :
    ∀ y ∈ column, ∃ exact,
      movingAverage Statistics.alpha (l.map value) = some exact ∧ |y - exact| ≤ 5 * ε := by
  intro y hy
  have hvalues : l.map value = (l.map fun s => (value s, error s)).map Prod.fst := by
    rw [List.map_map]
    rfl
  rw [hvalues]
  apply roundedAverage_near _ _ _ (hcolumn.symm.trans hy)
  · norm_num [Statistics.alpha]
  · norm_num [Statistics.alpha]
  · intro x hx
    obtain ⟨s, hs, rfl⟩ := List.mem_map.mp hx
    have hself : Statistics.alpha * (5 * ε) = ε := by
      rw [Statistics.alpha]
      ring
    rw [hself]
    exact herrors s hs

/-- The statistics of starts are reports about them. -/
theorem reports_ofStarts {ε δ : ℚ} {row : PoolRow} {starts : List Start}
    (h : row.statistics = Statistics.ofStarts starts) (hrounded : RoundedWithin ε δ starts) :
    Reports ε δ row starts := by
  have hα : (0 : ℚ) ≤ Statistics.alpha := by norm_num [Statistics.alpha]
  have hα' : Statistics.alpha ≤ (1 : ℚ) := by norm_num [Statistics.alpha]
  have hβ : 1 - Statistics.alpha = (4 / 5 : ℚ) := by norm_num [Statistics.alpha]
  have hrate := exists_exact (congrArg Statistics.successRate h) fun s hs => (hrounded s hs).1
  have htime := exists_exact (congrArg Statistics.timeAvg h) fun s hs =>
    (hrounded s (List.mem_of_mem_filter hs)).2
  refine ⟨h, hrate, htime, ?_, ?_, ?_, ?_⟩
  · intro rate hmem
    obtain ⟨exact, hexact, hnear⟩ := hrate rate hmem
    rw [map_rate] at hexact
    obtain ⟨hlo, hhi⟩ := movingAverage_mem hα hα' (rate_mem _) hexact
    obtain ⟨hbelow, habove⟩ := abs_le.mp hnear
    constructor <;> linarith
  · intro rate hmem before n hlast
    obtain ⟨exact, hexact, hnear⟩ := hrate rate hmem
    rw [map_rate, hlast, List.map_append, List.map_replicate] at hexact
    have hle := movingAverage_le hα hα' (rate_mem before) zero_le_one hexact
    rw [hβ, sub_zero, mul_one] at hle
    obtain ⟨-, habove⟩ := abs_le.mp hnear
    linarith
  · intro rate hmem before n hlast
    obtain ⟨exact, hexact, hnear⟩ := hrate rate hmem
    rw [map_rate, hlast, List.map_append, List.map_replicate] at hexact
    have hle := le_movingAverage hα hα' (rate_mem before) zero_le_one hexact
    rw [hβ, sub_zero, mul_one] at hle
    obtain ⟨hbelow, -⟩ := abs_le.mp hnear
    linarith
  · intro avg hmem shortest longest hbounds
    obtain ⟨exact, hexact, hnear⟩ := htime avg hmem
    have hmembers : ∀ x ∈ (starts.filter Start.succeeded).map Start.duration,
        shortest ≤ x ∧ x ≤ longest := by
      intro x hx
      obtain ⟨start, hstart, rfl⟩ := List.mem_map.mp hx
      obtain ⟨hmem, hsucceeded⟩ := List.mem_filter.mp hstart
      exact hbounds start hmem hsucceeded
    obtain ⟨hlo, hhi⟩ := movingAverage_mem hα hα' hmembers hexact
    obtain ⟨hbelow, habove⟩ := abs_le.mp hnear
    constructor <;> linarith

/-- In every run, the row of a pool reports about all the starts of the pool that have ended: none
is lost, and none is counted twice. -/
theorem Reaches.reports {ε δ : ℚ} {row : PoolRow} (h : Reaches anyStep as w)
    (hrow : w.db.pool? name = some row) (hrounded : RoundedWithin ε δ (starts name as)) :
    Reports ε δ row (starts name as) := by
  refine reports_ofStarts ?_ hrounded
  rw [← h.statistics_ofStarts name, Db.statistics, hrow]

/-- The first start of a pool fails, and the second one succeeds; the stored rate is rounded. -/
def retriedRun : List Action :=
  ticks basicConfig 8 ++ [.worker 1 { now := 20 }, .worker 1 { output := ⟨1, []⟩ },
    .worker 1 { now := 25 }] ++ ticks basicConfig 12 ++
    [.worker 2 { now := 30 }, .worker 2 {},
      .worker 2 { now := 37, rounding := { successRate := 1 / 1000 } }]

/-- The row of the pool reports about both starts. -/
theorem reports_retriedRun : ∃ row,
    (after anyStep retriedRun (by decide +kernel)).db.pool? "basic" = some row ∧
      Reports (1 / 1000) 0 row
        [⟨false, 20, 25, {}⟩, ⟨true, 30, 37, { successRate := 1 / 1000 }⟩] := by
  have hrow : ((after anyStep retriedRun (by decide +kernel)).db.pool? "basic").isSome = true := by
    decide +kernel
  have hstarts : starts "basic" retriedRun =
      [⟨false, 20, 25, {}⟩, ⟨true, 30, 37, { successRate := 1 / 1000 }⟩] := by
    decide +kernel
  obtain ⟨row, hrow⟩ := Option.isSome_iff_exists.mp hrow
  refine ⟨row, hrow, ?_⟩
  rw [← hstarts]
  refine Reaches.reports (reaches_after anyStep retriedRun (by decide +kernel)) hrow ?_
  rw [hstarts]
  norm_num [RoundedWithin]

end World

end Resalloc
