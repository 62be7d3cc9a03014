import Resalloc.Server.Invariants

/-!
# Unknown resources

A {lit}`CleanUnknownWorker` lists the resources of a pool, then reads the names
that the database knows, and deletes what is not among them.  The two lists are
taken at different times, and the deletions come much later.

What makes this safe is the order: a listed resource of the server is in the
database before it is listed, so it is either known when the names are read or in
ENDED, and an ended resource never comes back into service.

Main results:

- Definition {lit}`World.NamesApart`: what is assumed about names.
- Theorem {lit}`World.Reaches.cleaner_safe`: no name that a cleaner is going to
  delete belongs to a resource in service.
-/

namespace Resalloc

open Foundations

/-- The steps of a cleaner. -/
inductive CleanPc.Moves (i : Input) (db : Db) : CleanPc → CleanPc → Prop
  | list {names} : listAllResources i.output.stdout = some names →
      Moves i db .cmdList (.readKnown names)
  | read (all) : Moves i db (.readKnown all)
      (.cmdDelete (all.dedup.filter fun name =>
        some name ∉ (QResources.on db none).map fun e => e.2.name))
  | delete (name rest) : Moves i db (.cmdDelete (name :: rest)) (.cmdDelete rest)

/-- A cleaner that goes on has made one of its steps. -/
theorem Worker.step_cleaner {p : Pool} {pc pc' : CleanPc} {i : Input} {db : Db}
    (h : (Worker.step { pool := p, job := .cleanUnknown pc } i db).2 =
      { pool := p, job := .cleanUnknown pc' }) : i.raises = false ∧ CleanPc.Moves i db pc pc' := by
  cases hraises : i.raises with
  | true => simp [Worker.step, hraises, Worker.raise] at h
  | false =>
      refine ⟨rfl, ?_⟩
      cases pc with
      | cmdList =>
          cases hlist : listAllResources i.output.stdout with
          | none => simp [Worker.step, hraises, hlist, Worker.raise] at h
          | some names =>
              obtain rfl : CleanPc.readKnown names = pc' := by
                simpa [Worker.step, hraises, hlist, Worker.goto] using h
              exact .list hlist
      | readKnown all =>
          simp only [Worker.step, hraises, Bool.false_eq_true, if_false, Worker.goto] at h
          obtain rfl := Job.cleanUnknown.inj (congrArg Worker.job h)
          exact .read all
      | cmdDelete names =>
          cases names with
          | nil => simp [Worker.step, hraises, Worker.finish] at h
          | cons name rest =>
              obtain rfl : CleanPc.cmdDelete rest = pc' := by
                simpa [Worker.step, hraises, Worker.goto] using h
              exact .delete name rest

namespace World

variable {foreign : String → Prop} {w w' : World} {a : Action} {as : List Action} {k : ℕ}
variable {p : Pool}

/-- No action renames a resource. -/
theorem ResourceSteps.name {id : ResourceId} {r r' : Resource} (h : w.ResourceSteps id r a r') :
    r'.name = r.name := by
  cases h <;> rfl

/-- The name of the resource that an action inserts. -/
def newName? (w : World) (a : Action) : Option String :=
  (w.step a).bind fun w' => (w'.db.resources.get? w.db.resources.nextId).bind Resource.name

/-- The names that {lit}`cmd_list` prints in an action. -/
def listed (w : World) (a : Action) : List String :=
  match a with
  | .worker k i =>
      match w.workers.get? k with
      | some ⟨_, .cleanUnknown .cmdList, .running⟩ =>
          if i.raises then [] else (listAllResources i.output.stdout).getD []
      | _ => []
  | _ => []

/-- What is assumed about names: a new resource has a name of its own, which is no
foreign name, and a listed name is foreign or that of a committed resource. -/
def NamesApart (foreign : String → Prop) (w : World) (a : Action) : Prop :=
  (∀ name ∈ w.newName? a, ¬ foreign name ∧ ∀ e ∈ w.db.resources.entries, e.2.name ≠ some name) ∧
    ∀ name ∈ w.listed a, foreign name ∨ ∃ e ∈ w.db.resources.entries, e.2.name = some name

instance [DecidablePred foreign] (w : World) (a : Action) : Decidable (NamesApart foreign w a) :=
  inferInstanceAs (Decidable (_ ∧ _))

/-- A cleaner that runs after an action was just started, or it ran before, and it
has made a step if the action was its own. -/
theorem Inv.cleaner_cases (h : w.Inv) (hstep : w.step a = some w') {pc' : CleanPc}
    (hruns : w'.Runs k p (.cleanUnknown pc')) :
    pc' = .cmdList ∨ w.Runs k p (.cleanUnknown pc') ∨
      ∃ i pc, a = .worker k i ∧ w.Runs k p (.cleanUnknown pc) ∧ i.raises = false ∧
        CleanPc.Moves i w.db pc pc' := by
  rcases (step_cases hstep).runs_cases h.linked hruns with ⟨hold, -⟩ |
    ⟨i, old, rfl, -, hold, hcases⟩ | ⟨-, -, hstarts⟩
  · exact .inr (.inl hold)
  · rcases hcases with ⟨hmoves, -⟩ | ⟨_, -, heq, -⟩
    · cases hmoves with
      | cleanUnknown pc _ =>
          rw [Runs] at hold
          simp only [World.step, hold, if_true] at hstep
          obtain rfl := Option.some.inj hstep
          simp only [Runs, IdTable.get?_modify_self, hold, Option.map_some,
            Option.some.injEq] at hruns
          obtain ⟨hok, hmoves⟩ := Worker.step_cleaner hruns
          exact .inr (.inr ⟨i, pc, rfl, hold, hok, hmoves⟩)
    · contradiction
  · cases hstarts
    exact .inl rfl

/-- Names of resources are apart, and what a cleaner has read is out of service. -/
structure CleanedApart (foreign : String → Prop) (w : World) : Prop where
  own : ∀ {id r name}, w.db.resources.get? id = some r → r.name = some name → ¬ foreign name
  distinct : ∀ {id j r q name}, w.db.resources.get? id = some r →
    w.db.resources.get? j = some q → r.name = some name → q.name = some name → id = j
  listed : ∀ {k p all name}, w.Runs k p (.cleanUnknown (.readKnown all)) → name ∈ all →
    foreign name ∨ ∃ id r, w.db.resources.get? id = some r ∧ r.name = some name
  unknown : ∀ {k p names name}, w.Runs k p (.cleanUnknown (.cmdDelete names)) → name ∈ names →
    foreign name ∨ ∃ id r, w.db.resources.get? id = some r ∧ r.name = some name ∧
      r.state.leaving = true

/-- A name that was given to a resource in an action. -/
theorem newName?_of_created (hstep : w.step a = some w') {id : ResourceId} {r : Resource}
    (hr : w'.db.resources.get? id = some r) (hid : id = w.db.resources.nextId) :
    w.newName? a = r.name := by
  simp [newName?, hstep, ← hid, hr]

/-- A resource after an action has the name it had before, or a new one. -/
theorem Inv.name_cases (h : w.Inv) (hok : NamesApart foreign w a) (hstep : w.step a = some w')
    {id : ResourceId} {r' : Resource} {name : String} (hr' : w'.db.resources.get? id = some r')
    (hname : r'.name = some name) :
    (∃ r, w.db.resources.get? id = some r ∧ r.name = some name) ∨
      id = w.db.resources.nextId ∧ ¬ foreign name ∧
        ∀ {j q}, w.db.resources.get? j = some q → q.name ≠ some name := by
  cases hr : w.db.resources.get? id with
  | none =>
      obtain ⟨_, _, _, _, _, -, -, hid, -⟩ := (step_cases hstep).created h.linked hr' hr
      have hnew : name ∈ w.newName? a := by
        rw [newName?_of_created hstep hr' hid]
        exact hname
      obtain ⟨hown, hapart⟩ := hok.1 name hnew
      exact .inr ⟨hid, hown, fun hq => hapart (_, _) (IdTable.mem_entries.mpr hq)⟩
  | some r =>
      obtain ⟨r₁, hr₁, hrow⟩ := (step_cases hstep).resource h.linked hr
      obtain rfl := Option.some.inj (hr'.symm.trans hr₁)
      exact .inl ⟨r, rfl, hrow.name.symm.trans hname⟩

/-- A listed or unknown name keeps belonging to its resource. -/
theorem Inv.name_kept (h : w.Inv) (hstep : w.step a = some w') {id : ResourceId} {r : Resource}
    {name : String} (hr : w.db.resources.get? id = some r) (hname : r.name = some name) :
    ∃ r', w'.db.resources.get? id = some r' ∧ r'.name = some name ∧
      (r.state.leaving = true → r'.state.leaving = true) := by
  obtain ⟨r', hr', hrow⟩ := (step_cases hstep).resource h.linked hr
  exact ⟨r', hr', hrow.name.trans hname, h.leaving_kept hrow hr⟩

/-- A name that the database does not know belongs to no resource but an ended
one. -/
theorem leaving_of_unknown {db : Db} {all : List String} {name : String} {id : ResourceId}
    {r : Resource} (hr : db.resources.get? id = some r) (hname : r.name = some name)
    (hunknown : name ∈ all.dedup.filter fun name =>
      some name ∉ (QResources.on db none).map fun e => e.2.name) : r.state.leaving = true := by
  have hoff := (List.mem_filter.mp hunknown).2
  have hended : r.state = .ended := by
    by_contra hstate
    have hon : (id, r) ∈ QResources.on db none := by
      simp [QResources.on, mem_select, hr, InPool, hstate]
    exact of_decide_eq_true hoff (List.mem_map.mpr ⟨(id, r), hon, hname⟩)
  simp [hended, RState.leaving]

/-- Every action keeps the names apart. -/
theorem CleanedApart.step (hapart : w.CleanedApart foreign) (h : w.Inv)
    (hok : NamesApart foreign w a) (hstep : w.step a = some w') : w'.CleanedApart foreign := by
  constructor
  · intro id r' name hr' hname
    rcases h.name_cases hok hstep hr' hname with ⟨r, hr, hold⟩ | ⟨-, hown, -⟩
    · exact hapart.own hr hold
    · exact hown
  · intro id j r' q' name hr' hq' hrname hqname
    rcases h.name_cases hok hstep hr' hrname with ⟨r, hr, hrold⟩ | ⟨hid, -, hrnew⟩ <;>
      rcases h.name_cases hok hstep hq' hqname with ⟨q, hq, hqold⟩ | ⟨hj, -, hqnew⟩
    · exact hapart.distinct hr hq hrold hqold
    · exact absurd hrold (hqnew hr)
    · exact absurd hqold (hrnew hq)
    · rw [hid, hj]
  · intro k p all name hruns hmem
    rcases h.cleaner_cases hstep hruns with hpc | hold | ⟨i, pc, rfl, hold, hraises, hmoves⟩
    · contradiction
    · rcases hapart.listed hold hmem with hforeign | ⟨id, r, hr, hname⟩
      · exact .inl hforeign
      · obtain ⟨r', hr', hname', -⟩ := h.name_kept hstep hr hname
        exact .inr ⟨id, r', hr', hname'⟩
    · cases hmoves with
      | list hlist =>
          rw [Runs] at hold
          have hlisted : name ∈ w.listed (.worker k i) := by
            simpa [World.listed, hold, hraises, hlist] using hmem
          rcases hok.2 name hlisted with hforeign | ⟨⟨id, r⟩, he, hname⟩
          · exact .inl hforeign
          · obtain ⟨r', hr', hname', -⟩ :=
              h.name_kept hstep (IdTable.mem_entries.mp he) hname
            exact .inr ⟨id, r', hr', hname'⟩
  · intro k p names name hruns hmem
    rcases h.cleaner_cases hstep hruns with hpc | hold | ⟨i, pc, rfl, hold, hraises, hmoves⟩
    · contradiction
    · rcases hapart.unknown hold hmem with hforeign | ⟨id, r, hr, hname, hleaving⟩
      · exact .inl hforeign
      · obtain ⟨r', hr', hname', hkept⟩ := h.name_kept hstep hr hname
        exact .inr ⟨id, r', hr', hname', hkept hleaving⟩
    · cases hmoves with
      | read all =>
          have hall : name ∈ all := List.mem_dedup.mp (List.mem_of_mem_filter hmem)
          rcases hapart.listed hold hall with hforeign | ⟨id, r, hr, hname⟩
          · exact .inl hforeign
          · obtain ⟨r', hr', hname', hkept⟩ := h.name_kept hstep hr hname
            exact .inr ⟨id, r', hr', hname', hkept (leaving_of_unknown hr hname hmem)⟩
      | delete first rest =>
          rcases hapart.unknown hold (List.mem_cons_of_mem first hmem) with
            hforeign | ⟨id, r, hr, hname, hleaving⟩
          · exact .inl hforeign
          · obtain ⟨r', hr', hname', hkept⟩ := h.name_kept hstep hr hname
            exact .inr ⟨id, r', hr', hname', hkept hleaving⟩

/-- Whatever the interleaving, no name that a cleaner is going to delete belongs to a
resource in service. -/
theorem Reaches.cleaner_safe (h : Reaches (NamesApart foreign) as w) {names : List String}
    (hruns : w.Runs k p (.cleanUnknown (.cmdDelete names))) :
    ∀ name ∈ names, ∀ id r, w.db.resources.get? id = some r → r.name = some name →
      r.state ≠ .starting ∧ r.state ≠ .up ∧ r.state ≠ .releasing := by
  have hstart : init.Inv ∧ init.CleanedApart foreign :=
    ⟨inv_init, by constructor <;> intros <;> simp_all [Runs, init]⟩
  have hkept : ∀ u a v, u.Inv ∧ u.CleanedApart foreign → NamesApart foreign u a →
      u.step a = some v → v.Inv ∧ v.CleanedApart foreign := by
    rintro u a v ⟨hinv, hapart⟩ hok hstep
    exact ⟨hinv.step hstep, hapart.step hinv hok hstep⟩
  obtain ⟨-, hapart⟩ := h.invariant hstart hkept
  intro name hname id r hr hrname
  rcases hapart.unknown hruns hname with hforeign | ⟨j, q, hq, hqname, hleaving⟩
  · exact absurd hforeign (hapart.own hr hrname)
  · obtain rfl := hapart.distinct hr hq hrname hqname
    obtain rfl := Option.some.inj (hr.symm.trans hq)
    refine ⟨?_, ?_, ?_⟩ <;> intro hstate <;> simp [hstate, RState.leaving] at hleaving

/-- A pool that lists its resources. -/
def listingPool : Pool := { basicPool with cmdList := some "list" }

/-- The configuration with this pool. -/
def listingConfig : Config := .single listingPool (by decide +kernel)

/-- The first resource fails to start, and a cleaner finds its name. -/
def cleanerRun : List Action :=
  ticks listingConfig 9 ++ List.replicate 3 (.worker 1 { now := 20, output := ⟨1, []⟩ }) ++
    [.manager { now := 2000 },
      .worker 2 { output := ⟨0, encodeUtf8 "basic_00000001_\n".toList⟩ }, .worker 2 {}]

/-- The cleaner is going to delete that name, and it may. -/
theorem cleaner_safe_cleanerRun :
    ∃ r, (after (NamesApart (· = "foreign")) cleanerRun (by decide +kernel)).db.resources.get? 1 =
        some r ∧ r.state ≠ .starting ∧ r.state ≠ .up ∧ r.state ≠ .releasing := by
  have hresource : (after (NamesApart (· = "foreign")) cleanerRun
      (by decide +kernel)).db.resources.get? 1 =
        some { name := some "basic_00000001_", data := some [], pool := "basic", state := .ended,
               checkLastTime := 0 } := by decide +kernel
  refine ⟨_, hresource, ?_⟩
  exact Reaches.cleaner_safe (k := 2) (p := { listingPool with startOnDemandThisCycle := -1 })
    (reaches_after (NamesApart (· = "foreign")) cleanerRun _) (by unfold Runs; decide +kernel)
    "basic_00000001_" (List.mem_singleton_self _) 1 _ hresource rfl

end World

end Resalloc
