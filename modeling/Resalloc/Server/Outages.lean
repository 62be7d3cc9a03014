import Resalloc.Server.Livechecks
import Resalloc.Server.Spacing

/-!
# How long a resource may be out

The watcher reads the time of the last check of every resource at the start of its loop, compares
it with the clock when it comes to the resource, and stores the time of the new result after the
hook.  So the row of a resource is a limiter for its livechecks, and the removal pass, which counts
failed checks, gives a resource up only after it has failed for some time.

Main results:

- Theorem {lit}`World.Watching.step`: what the watcher has read stays the case until it is used.
- Theorem {lit}`World.Reaches.checks_apart`: the checks of a resource are apart.
- Theorem {lit}`World.Reaches.outage_lasts`: a ticket fails after an outage of this length only.
-/

namespace Resalloc

open Foundations

/-- The checks that the watcher is still to decide on. -/
def WatcherPc.pending : WatcherPc → List CheckItem
  | .sleep => []
  | .check items | .record _ _ items => items

/-- The check whose result the watcher is going to store. -/
def WatcherPc.current? : WatcherPc → Option CheckItem
  | .record item _ _ => some item
  | _ => none

namespace World

variable {w w' : World} {a : Action} {as : List Action} {id : ResourceId} {name : String}
variable {delay : Time} {r r' : Resource} {i : Input} {tid : TicketId} {t t' : Ticket}

/-! ## The steps of the watcher -/

/-- What the watcher can do. -/
inductive Watches (w : World) (i : Input) (w' : World) : Prop
  /-- The loop has ended, or has raised. -/
  | sleep : w'.db = w.db → w'.watcher = .sleep → (∀ id, check? id w (.watcher i) = none) →
      Watches w i w'
  | collect {config} : w.watcher = .sleep → i.config = some config → w'.db = w.db →
      w'.watcher = .check (collectChecks config w.db) → Watches w i w'
  | skip {item rest} : w.watcher = .check (item :: rest) → w'.db = w.db →
      w'.watcher = .check rest → Watches w i w'
  | run {item rest} : w.watcher = .check (item :: rest) →
      item.last + item.pool.livecheckPeriod ≤ i.now → w'.db = w.db →
      w'.watcher = .record item i.output.status rest → Watches w i w'
  | record {item status rest r} : w.watcher = .record item status rest →
      w.db.resources.get? item.resourceId = some r →
      w'.db = w.db.modifyResource item.resourceId (fun r => r.checked i.now status) →
      w'.watcher = .check rest →
      (∀ id, check? id w (.watcher i) = if item.resourceId = id then some status else none) →
      Watches w i w'

/-- Every step of the watcher is one of these. -/
theorem step_watches (hstep : w.step (.watcher i) = some w') : w.Watches i w' := by
  have hdb : w'.db = (w.watcher.step i w.db).1 := by
    obtain rfl := Option.some.inj hstep
    rfl
  have hwatcher : w'.watcher = (w.watcher.step i w.db).2 := by
    obtain rfl := Option.some.inj hstep
    rfl
  cases hraises : i.raises with
  | true =>
      apply Watches.sleep
      · simp [hdb, WatcherPc.step, hraises]
      · simp [hwatcher, WatcherPc.step, hraises]
      · intro id
        cases hpc : w.watcher <;> simp [check?, hraises, hpc]
  | false =>
      simp only [WatcherPc.step, hraises, Bool.false_eq_true, if_false] at hdb hwatcher
      cases hpc : w.watcher with
      | sleep =>
          cases hconfig : i.config with
          | none =>
              apply Watches.sleep
              · simp [hdb, hpc, hconfig]
              · simp [hwatcher, hpc, hconfig]
              · simp [check?, hpc]
          | some config =>
              apply Watches.collect hpc hconfig
              · simp [hdb, hpc, hconfig]
              · simp [hwatcher, hpc, hconfig]
      | check items =>
          cases items with
          | nil =>
              apply Watches.sleep
              · simp [hdb, hpc]
              · simp [hwatcher, hpc]
              · simp [check?, hpc]
          | cons item rest =>
              simp only [hpc] at hdb hwatcher
              split_ifs at hdb hwatcher with hcheck
              · exact .run hpc hcheck.2 hdb hwatcher
              · exact .skip hpc hdb hwatcher
      | record item status rest =>
          simp only [hpc] at hdb hwatcher
          cases hr : w.db.resources.get? item.resourceId with
          | none =>
              apply Watches.sleep
              · simp [hdb, hr]
              · simp [hwatcher, hr]
              · intro id
                suffices item.resourceId = id → w.db.resources.get? id = none by
                  simpa [check?, hpc, hraises] using this
                rintro rfl
                exact hr
          | some r =>
              apply Watches.record hpc hr
              · simp [hdb, hr]
              · simp [hwatcher, hr]
              · intro id
                by_cases hid : item.resourceId = id
                · subst hid
                  simp [check?, hpc, hraises, hr]
                · simp [check?, hpc, hid]

/-! ## What the watcher has read -/

/-- A resource is still as the watcher has read it. -/
def Unchecked (w : World) (item : CheckItem) : Prop :=
  ∃ r, w.db.resources.get? item.resourceId = some r ∧ r.checkLastTime = item.last ∧
    item.pool.name = r.pool

/-- The resources that the watcher is going to decide on are as it has read them, and the pool is
checked no more often than this. -/
structure Watching (name : String) (delay : Time) (w : World) : Prop where
  nodup : (w.watcher.pending.map CheckItem.resourceId).Nodup
  unchecked : ∀ item ∈ w.watcher.pending, w.Unchecked item
  slow : ∀ item ∈ w.watcher.pending, item.pool.name = name → delay ≤ item.pool.livecheckPeriod
  current : ∀ item ∈ w.watcher.current?,
    item.resourceId ∉ w.watcher.pending.map CheckItem.resourceId

/-- The watcher loads only configurations with these livecheck periods. -/
def ChecksSlowly (name : String) (delay : Time) (w : World) (a : Action) : Prop :=
  match a with
  | .watcher i => w.watcher = .sleep → ∀ config ∈ i.config, ∀ p ∈ config.pools,
      p.name = name → delay ≤ p.livecheckPeriod
  | _ => True

instance (name : String) (delay : Time) (w : World) (a : Action) :
    Decidable (ChecksSlowly name delay w a) :=
  match a with
  | .watcher _ => inferInstanceAs (Decidable (_ → ∀ _ ∈ _, ∀ _ ∈ _, _ → _))
  | .manager _ | .worker _ _ | .takeTicket _ _ | .closeTicket _ | .resourceDelete _ | .kill _
  | .restart _ => inferInstanceAs (Decidable True)

/-- No action but the last transaction of a check changes what the watcher has read. -/
theorem ResourceSteps.checkLastTime (h : w.ResourceSteps id r a r') (hother : ∀ i, a ≠ .watcher i) :
    r'.checkLastTime = r.checkLastTime := by
  cases h with
  | checked i => exact absurd rfl (hother i)
  | _ => rfl

/-- Unless the watcher moves, the resources stay as it has read them. -/
theorem Unchecked.kept {item : CheckItem} (h : w.Unchecked item) (hinv : w.Inv)
    (hstep : w.Steps a w') (hother : ∀ i, a ≠ .watcher i) : w'.Unchecked item := by
  obtain ⟨r, hr, hlast, hpool⟩ := h
  obtain ⟨r', hr', hrow⟩ := hstep.resource hinv.linked hr
  exact ⟨r', hr', (hrow.checkLastTime hother).trans hlast, hpool.trans hrow.pool.symm⟩

/-- A sleeping watcher has read nothing. -/
theorem watching_sleep (h : w.watcher = .sleep) : w.Watching name delay := by
  constructor <;> simp [h, WatcherPc.pending, WatcherPc.current?]

/-- The watcher collects rows of the database, each with its pool. -/
theorem mem_collectChecks {config : Config} {item : CheckItem}
    (h : item ∈ collectChecks config w.db) : w.Unchecked item ∧ item.pool ∈ config.pools := by
  obtain ⟨⟨j, r⟩, hup, hfind⟩ := List.mem_filterMap.mp h
  obtain ⟨p, hp, rfl⟩ := Option.map_eq_some_iff.mp hfind
  have hname : p.name = r.pool := by simpa using List.find?_some hp
  exact ⟨⟨r, (mem_select.mp hup).1, rfl, hname⟩, List.mem_of_find?_eq_some hp⟩

/-- The watcher collects no row twice. -/
theorem collectChecks_nodup (config : Config) (db : Db) :
    ((collectChecks config db).map CheckItem.resourceId).Nodup := by
  have hsublist : ((collectChecks config db).map CheckItem.resourceId).Sublist
      ((QResources.up db none).map Prod.fst) := by
    unfold collectChecks
    generalize QResources.up db none = rows
    induction rows with
    | nil => exact .slnil
    | cons e rows ih =>
        rw [List.filterMap_cons]
        cases config.pools.find? fun p => p.name = e.2.pool with
        | none => exact ih.cons _
        | some p => exact ih.cons_cons _
  exact (select_nodup _).sublist hsublist

/-- What the watcher has read stays the case while the watcher uses it. -/
theorem Watching.watcher_step (h : w.Watching name delay)
    (hok : ChecksSlowly name delay w (.watcher i)) (hstep : w.Watches i w') :
    w'.Watching name delay := by
  obtain ⟨hnodup, hunchecked, hslow, hcurrent⟩ := h
  cases hstep with
  | sleep _ hwatcher => exact watching_sleep hwatcher
  | @collect config hpc hconfig hdb hwatcher =>
      constructor
      · rw [hwatcher]
        exact collectChecks_nodup config w.db
      · rw [hwatcher]
        intro item hitem
        rw [Unchecked, hdb]
        exact (mem_collectChecks hitem).1
      · rw [hwatcher]
        exact fun item hitem => hok hpc config hconfig item.pool (mem_collectChecks hitem).2
      · simp [hwatcher, WatcherPc.current?]
  | @skip item rest hpc hdb hwatcher =>
      rw [hpc] at hnodup hunchecked hslow
      constructor
      · rw [hwatcher]
        exact (List.nodup_cons.mp hnodup).2
      · rw [hwatcher]
        intro other hother
        rw [Unchecked, hdb]
        exact hunchecked other (List.mem_cons_of_mem _ hother)
      · rw [hwatcher]
        exact fun other hother => hslow other (List.mem_cons_of_mem _ hother)
      · simp [hwatcher, WatcherPc.current?]
  | @run item rest hpc _ hdb hwatcher =>
      rw [hpc] at hnodup hunchecked hslow
      obtain ⟨hfirst, hrest⟩ := List.nodup_cons.mp hnodup
      constructor
      · rw [hwatcher]
        exact hrest
      · rw [hwatcher]
        intro other hother
        rw [Unchecked, hdb]
        exact hunchecked other (List.mem_cons_of_mem _ hother)
      · rw [hwatcher]
        exact fun other hother => hslow other (List.mem_cons_of_mem _ hother)
      · rw [hwatcher]
        intro cur hcur
        obtain rfl : item = cur := by simpa [WatcherPc.current?] using hcur
        exact hfirst
  | @record item status rest r hpc hr hdb hwatcher =>
      rw [hpc] at hnodup hunchecked hslow hcurrent
      have hdone : item.resourceId ∉ rest.map CheckItem.resourceId := hcurrent item rfl
      constructor
      · rw [hwatcher]
        exact hnodup
      · rw [hwatcher]
        intro other hother
        obtain ⟨r₁, hr₁, hlast, hpool⟩ := hunchecked other hother
        have hne : other.resourceId ≠ item.resourceId := fun heq =>
          hdone (heq ▸ List.mem_map_of_mem hother)
        exact ⟨r₁, by simpa [hdb, IdTable.get?_modify_of_ne hne] using hr₁, hlast, hpool⟩
      · rw [hwatcher]
        exact hslow
      · simp [hwatcher, WatcherPc.current?]

/-- Only the watcher moves the watcher, but for a restart. -/
theorem Steps.watcher_kept (hstep : w.Steps a w') (hother : ∀ i, a ≠ .watcher i) :
    w'.watcher = .sleep ∨ w'.watcher = w.watcher := by
  cases hstep with
  | restart => exact .inl rfl
  | watched i | checked i => exact absurd rfl (hother i)
  | _ => exact .inr rfl

/-- Every action keeps what the watcher has read. -/
theorem Watching.step (h : w.Watching name delay) (hinv : w.Inv)
    (hok : ChecksSlowly name delay w a) (hstep : w.step a = some w') :
    w'.Watching name delay := by
  by_cases hwatcher : ∃ i, a = .watcher i
  · obtain ⟨i, rfl⟩ := hwatcher
    exact h.watcher_step hok (step_watches hstep)
  · have hother : ∀ i, a ≠ .watcher i := fun i ha => hwatcher ⟨i, ha⟩
    rcases (step_cases hstep).watcher_kept hother with hsleep | hsame
    · exact watching_sleep hsleep
    · constructor
      · rw [hsame]
        exact h.nodup
      · rw [hsame]
        exact fun item hitem => (h.unchecked item hitem).kept hinv (step_cases hstep) hother
      · rw [hsame]
        exact h.slow
      · rw [hsame]
        exact h.current

/-! ## The checks of a resource -/

/-- The time and the result of a livecheck of a resource that an action records. -/
def result? (id : ResourceId) (w : World) (a : Action) : Option (Time × Int) :=
  match a with
  | .watcher i => (check? id w a).map fun status => (i.now, status)
  | _ => none

/-- The livechecks of a resource that a run records, with their times. -/
def results (id : ResourceId) (w : World) (as : List Action) : List (Time × Int) :=
  observe (result? id) step w as

/-- The recorded results are those with their times left out. -/
theorem results_status (id : ResourceId) (w : World) (as : List Action) :
    (results id w as).map Prod.snd = checks id w as := by
  have hstatus : (fun w a => (result? id w a).map Prod.snd) = check? id := by
    ext w a : 2
    cases a with
    | watcher i => simp [result?, Function.comp_def]
    | _ => rfl
  rw [results, ← observe_map, hstatus]
  rfl

/-- When the watcher looks at its clock. -/
def watcherClock? : Action → Option Time
  | .watcher i => some i.now
  | _ => none

/-- The livechecks of a resource, with the time of the last one in its row. -/
def checkLimiter (id : ResourceId) : Limiter World Action Time where
  clock := watcherClock?
  fires w a := (result? id w a).map Prod.fst
  last w := (w.db.resources.get? id).map Resource.checkLastTime
  Armed w := ∃ item ∈ w.watcher.current?, item.resourceId = id

/-- The watcher checks a resource of the pool after the period only. -/
theorem Watching.watcher_limits (h : w.Watching name delay)
    (hpool : ∀ r ∈ w.db.resources.get? id, r.pool = name) (hstep : w.Watches i w') :
    (checkLimiter id).Steps delay w (.watcher i) w' := by
  cases hstep with
  | sleep hdb hwatcher hnone =>
      apply Limiter.Steps.keep
      · simp [checkLimiter, result?, hnone]
      · simp [checkLimiter, hwatcher, WatcherPc.current?]
      · simp [checkLimiter, hdb]
  | collect hpc _ hdb hwatcher | skip hpc hdb hwatcher =>
      apply Limiter.Steps.keep
      · simp [checkLimiter, result?, check?, hpc]
      · simp [checkLimiter, hwatcher, WatcherPc.current?]
      · simp [checkLimiter, hdb]
  | @run item rest hpc htested hdb hwatcher =>
      have hnone : (checkLimiter id).fires w (.watcher i) = none := by
        simp [checkLimiter, result?, check?, hpc]
      by_cases hid : item.resourceId = id
      · have hitem : item ∈ w.watcher.pending := by simp [hpc, WatcherPc.pending]
        apply Limiter.Steps.arm hnone rfl
        · -- the watcher compares with the time that is still stored
          obtain ⟨r, hr, hlast, hname⟩ := h.unchecked item hitem
          rw [hid] at hr
          have hperiod := h.slow item hitem (hname.trans (hpool r hr))
          simp only [checkLimiter, hr, Option.map_some, Option.mem_some_iff, forall_eq', hlast]
          exact (add_le_add_right hperiod _).trans htested
        · simp [checkLimiter, hdb]
      · apply Limiter.Steps.keep hnone
        · simp [checkLimiter, hwatcher, WatcherPc.current?, hid]
        · simp [checkLimiter, hdb]
  | @record item status rest r hpc hr hdb hwatcher hcheck =>
      by_cases hid : item.resourceId = id
      · subst hid
        have hfires : (checkLimiter item.resourceId).fires w (.watcher i) = some i.now := by
          simp [checkLimiter, result?, hcheck]
        apply Limiter.Steps.fire hfires rfl
        · exact ⟨item, by simp [hpc, WatcherPc.current?], rfl⟩
        · simp [checkLimiter, hdb, hr, Resource.checked]
        · simp [checkLimiter, hwatcher, WatcherPc.current?]
      · apply Limiter.Steps.keep
        · simp [checkLimiter, result?, hcheck, hid]
        · simp [checkLimiter, hwatcher, WatcherPc.current?]
        · simp [checkLimiter, hdb, IdTable.get?_modify_of_ne (Ne.symm hid)]

/-- Every action handles the limiter of a resource of the pool as it may. -/
theorem Watching.limits (h : w.Watching name delay) (hinv : w.Inv)
    (hpool : ∀ r ∈ w.db.resources.get? id, r.pool = name) (hstep : w.step a = some w') :
    (checkLimiter id).Steps delay w a w' := by
  by_cases hwatcher : ∃ i, a = .watcher i
  · obtain ⟨i, rfl⟩ := hwatcher
    exact h.watcher_limits hpool (step_watches hstep)
  · have hother : ∀ i, a ≠ .watcher i := fun i ha => hwatcher ⟨i, ha⟩
    have hsteps := step_cases hstep
    apply Limiter.Steps.keep
    · cases a with
      | watcher i => exact absurd rfl (hother i)
      | _ => rfl
    · rcases hsteps.watcher_kept hother with hsleep | hsame
      · simp [checkLimiter, hsleep, WatcherPc.current?]
      · simp [checkLimiter, hsame]
    · intro time htime
      obtain ⟨r, hr, rfl⟩ := Option.map_eq_some_iff.mp htime
      obtain ⟨r', hr', hrow⟩ := hsteps.resource hinv.linked hr
      simp [checkLimiter, hr', hrow.checkLastTime hother]

/-- The pool of a resource is the same throughout a run. -/
theorem Reaches.of_pool {ok : World → Action → Prop} (h : Reaches ok as w)
    (hpool : ∀ r ∈ w.db.resources.get? id, r.pool = name) :
    Reaches (fun u a => ok u a ∧ ∀ r ∈ u.db.resources.get? id, r.pool = name) as w := by
  induction h with
  | refl => exact .refl
  | @snoc as u v a hprev hok hstep ih =>
      have hbefore : ∀ r ∈ u.db.resources.get? id, r.pool = name := by
        intro r hr
        obtain ⟨r', hr', hrow⟩ := (step_cases hstep).resource (Reaches.inv hprev).linked hr
        exact hrow.pool.symm.trans (hpool r' hr')
      exact .snoc (ih hbefore) ⟨hok, hbefore⟩ hstep

/-- The recorded livechecks of a resource are apart, if the clock does not go back. -/
theorem Reaches.checks_apart (h : Reaches (ChecksSlowly name delay) as w)
    (hpool : ∀ r ∈ w.db.resources.get? id, r.pool = name)
    (hclock : (as.filterMap watcherClock?).Pairwise (· ≤ ·)) :
    ((results id init as).map Prod.fst).IsChain fun time next => time + delay ≤ next := by
  have hstart : init.Watching name delay := watching_sleep rfl
  have hwatching : ∀ {bs u}, Reaches (ChecksSlowly name delay) bs u → u.Watching name delay := by
    intro bs u hrun
    have hboth := hrun.invariant (P := fun u => u.Inv ∧ u.Watching name delay) ⟨inv_init, hstart⟩
      fun u a v hu hok hstep => ⟨hu.1.step hstep, hu.2.step hu.1 hok hstep⟩
    exact hboth.2
  have hspaced := Limiter.spaced (l := checkLimiter id) (h.of_pool hpool)
    (by simp [checkLimiter, init, WatcherPc.current?])
    (fun hrun hok hstep => (hwatching (hrun.weaken fun _ _ hboth => hboth.1)).limits
      (Reaches.inv hrun) hok.2 hstep)
    hclock
  rw [results, ← observe_map]
  exact hspaced.apart

/-! ## Outages -/

/-- The last livechecks failed, at least this many of them, and for at least this long. -/
def Outage (attempts : Int) (delay : Time) (results : List (Time × Int)) : Prop :=
  ∃ before fails, results = before ++ fails ∧ attempts ≤ (fails.length : Int) ∧
    (∀ result ∈ fails, result.2 ≠ 0) ∧ ∃ first last, fails.head? = some first ∧
      fails.getLast? = some last ∧ first.1 + (fails.length - 1) • delay ≤ last.1

/-- Counted failures that are apart make an outage. -/
theorem FailsLast.outage {results : List (Time × Int)} {count : ℕ} {attempts : Int}
    (h : FailsLast count (results.map Prod.snd)) (hcount : 1 ≤ count)
    (hattempts : attempts ≤ (count : Int))
    (hapart : (results.map Prod.fst).IsChain fun time next => time + delay ≤ next) :
    Outage attempts delay results := by
  obtain ⟨before, fails, hall, hlength, hfails⟩ := h
  obtain ⟨before, fails, rfl, rfl, rfl⟩ := List.map_eq_append_iff.mp hall
  rw [List.length_map] at hlength
  cases fails with
  | nil =>
      simp only [List.length_nil] at hlength
      omega
  | cons first rest =>
      obtain ⟨last, hlast⟩ : ∃ last, (first :: rest).getLast? = some last :=
        ⟨_, List.getLast?_eq_some_getLast (List.cons_ne_nil _ _)⟩
      refine ⟨before, first :: rest, rfl, hlength ▸ hattempts, ?_, first, last, rfl, hlast, ?_⟩
      · exact fun result hresult => hfails result.2 (List.mem_map_of_mem hresult)
      · rw [List.map_append] at hapart
        have hend : (first.1 :: rest.map Prod.fst).getLast? = some last.1 := by
          rw [← List.map_cons, List.getLast?_map, hlast]
          rfl
        have htimes := Limiter.span (List.isChain_append.mp hapart).2.1 hend
        simpa using htimes

/-- The manager fails an open ticket only after an outage of its resource, which the livechecks
have seen since the resource was assigned to this ticket: enough of them failed in a row, each of
them after the period of the pool. -/
theorem Reaches.outage_lasts (h : Reaches (ChecksSlowly name delay) as w)
    (hclock : (as.filterMap watcherClock?).Pairwise (· ≤ ·))
    (hstep : w.step (.manager i) = some w') (ht : w.db.tickets.get? tid = some t)
    (ht' : w'.db.tickets.get? tid = some t') (hold : t.state ≠ .failed)
    (hfailed : t'.state = .failed) (hlink : t.resourceId = some id)
    (hr : w.db.resources.get? id = some r) (hpool : r.pool = name) :
    ∃ c p rest, w.manager = .removal c p rest ∧
      ∃ pre a post u v, as = pre ++ a :: post ∧ Reaches anyStep pre u ∧
        u.assignment? a = some (id, tid) ∧ u.step a = some v ∧
        Outage p.livecheckAttempts delay (results id v post) := by
  have hrun : Reaches anyStep as w := Path.anyStep h
  have hcause := hrun.inv.failing_action hstep ht ht' hold hfailed
  rcases hrun.ticket_cases hstep hcause ht with hsame | ⟨j, q, hfails⟩
  · obtain rfl := Option.some.inj (ht'.symm.trans hsame)
    exact absurd hfailed hold
  obtain rfl : id = j := Option.some.inj (hlink.symm.trans hfails.link)
  rcases hfails.cause with ⟨k, _, hkill, _⟩ | ⟨_, c, p, rest, count, -, hpc, hcount, hattempts,
    hsince⟩
  · contradiction
  obtain ⟨pre, a, post, u, v, rfl, hpre, hassign, hnext, hpost, hlast⟩ := hsince
  refine ⟨c, p, rest, hpc, pre, a, post, u, v, rfl, hpre, hassign, hnext, ?_⟩
  have hpools : ∀ q ∈ w.db.resources.get? id, q.pool = name := by simpa [hr] using hpool
  have hapart := h.checks_apart hpools hclock
  have hsplit : results id init (pre ++ a :: post) =
      results id init (pre ++ [a]) ++ results id v post := by
    have hfirst : Reaches anyStep (pre ++ [a]) v := .snoc hpre trivial hnext
    rw [results, results, results, ← hfirst.observe_append]
    simp
  rw [hsplit, List.map_append] at hapart
  rw [← results_status] at hlast
  exact hlast.outage hcount hattempts (List.isChain_append.mp hapart).2.1

/-- A pool that gives its resources up after two failing livechecks. -/
def flakyPool : Pool := { checkedPool with livecheckPeriod := 10, livecheckAttempts := 2 }

/-- The configuration with this pool. -/
def flakyConfig : Config := .single flakyPool (by decide +kernel)

/-- A ticket gets a resource of the pool, two livechecks of it fail, and the manager comes to the
removal pass. -/
def flakyRun : List Action :=
  [.takeTicket [] none] ++ ticks flakyConfig 9 ++ List.replicate 3 (.worker 1 { now := 20 }) ++
    ticks flakyConfig 8 ++
    List.replicate 4 (.watcher { now := 30, config := some flakyConfig, output := ⟨1, []⟩ }) ++
    List.replicate 4 (.watcher { now := 40, config := some flakyConfig, output := ⟨1, []⟩ }) ++
    ticks flakyConfig 2

/-- The ticket of the resource. -/
def flakyTicket : Ticket := { resourceId := some 1, sandbox := some "uuid" }

/-- The ticket fails after ten seconds. -/
theorem outage_lasts_flakyRun :
    ∃ c p rest, (after (ChecksSlowly "basic" 10) flakyRun (by decide +kernel)).manager =
        .removal c p rest ∧
      ∃ pre a post u v, flakyRun = pre ++ a :: post ∧ Reaches anyStep pre u ∧
        u.assignment? a = some (1, 1) ∧ u.step a = some v ∧
        Outage p.livecheckAttempts 10 (results 1 v post) := by
  have hrow : ((after (ChecksSlowly "basic" 10) flakyRun (by decide +kernel)).db.resources.get?
      1).map Resource.pool = some "basic" := by
    decide +kernel
  obtain ⟨r, hr, hpool⟩ := Option.map_eq_some_iff.mp hrow
  have hstep : (after (ChecksSlowly "basic" 10) flakyRun (by decide +kernel)).step
      (.manager { now := 40 }) = some (after (ChecksSlowly "basic" 10)
        (flakyRun ++ [.manager { now := 40 }]) (by decide +kernel)) := by
    decide +kernel
  have hopened : (after (ChecksSlowly "basic" 10) flakyRun (by decide +kernel)).db.tickets.get? 1 =
      some flakyTicket := by
    decide +kernel
  have hfailed : (after (ChecksSlowly "basic" 10) (flakyRun ++ [.manager { now := 40 }])
      (by decide +kernel)).db.tickets.get? 1 = some { flakyTicket with state := .failed } := by
    decide +kernel
  exact Reaches.outage_lasts (reaches_after (ChecksSlowly "basic" 10) flakyRun _)
    (by decide +kernel) hstep hopened hfailed (by decide) rfl rfl hr hpool

end World

end Resalloc
