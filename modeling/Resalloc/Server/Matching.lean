import Resalloc.Server.Loading
import Resalloc.Server.Tags

/-!
# A pool and its resources on the same tags

The tags of a section are normalised into the attributes of a pool object, which answers
{lit}`get_tags_priority`, and {lit}`AllocWorker` writes them into rows of a resource, which
{lit}`_assign_tickets` asks.  This file says when the two answers are the same, for every section
that {lit}`from_dict` reads.

Main results:

- Theorem {lit}`PoolSection.HasEntry.getTagsPriority_raises`: an entry that stops a pool.
- Theorem {lit}`PoolSection.ListsEntries.eq_of_attr`: the tags of a typed pool are listed.
- Theorem {lit}`World.matching_agrees_iff`: when a pool agrees with the resource that its
  successful script has started.
- Theorem {lit}`World.matching_disagrees`: a null priority.
-/

namespace Resalloc

open Foundations

namespace PoolObject

variable {obj : PoolObject} {p : Pool} {queried : List String} {r : Resource}

/-! ## Answers of a pool object -/

/-- A pool object and a resource of the pool agree on a set of requested tags. -/
structure Agrees (obj : PoolObject) (queried : List String) (r : Resource) : Prop where
  up : r.state = .up
  answer : ∃ priority, obj.getTagsPriority queried = .ok priority ∧
    (priority ≠ none ↔ ∀ tag ∈ queried, tag ∈ r.tagSet) ∧
    ∀ score, priority = some score → score = .scalar (.int
      (tagsScore queried r.tags + if truthy r.sandbox then reusedResourcePriority else 0))

/-- An object with the tags of a pool agrees as the pool does. -/
theorem HasTagsOf.agrees_iff (h : obj.HasTagsOf p) : obj.Agrees queried r ↔ p.Agrees queried r := by
  have hanswer := h.getTagsPriority queried
  constructor
  · rintro ⟨hup, answer, hobj, hfound, hscore⟩
    rw [hanswer] at hobj
    cases hpool : p.getTagsPriority queried with
    | error e =>
        rw [hpool] at hobj
        contradiction
    | ok priority =>
        rw [hpool] at hobj
        obtain rfl := Except.ok.inj hobj
        refine ⟨hup, priority, hpool, ?_, ?_⟩
        · rw [← hfound]
          cases priority <;> simp
        · rintro score rfl
          simpa using hscore _ rfl
  · rintro ⟨hup, priority, hpool, hfound, hscore⟩
    refine ⟨hup, priority.map fun n => .scalar (.int n), ?_, ?_, ?_⟩
    · rw [hanswer, hpool]
      rfl
    · rw [← hfound]
      cases priority <;> simp
    · intro score hmap
      obtain ⟨n, rfl, rfl⟩ := Option.map_eq_some_iff.mp hmap
      rw [hscore n rfl]

/-- A round of {lit}`get_tags_priority` keeps the sum a number. -/
theorem addTagPriority_number {acc acc' : Yaml × List String} {tag : Yaml}
    (h : addTagPriority queried acc tag = .ok acc') (hacc : acc.1.number? ≠ none) :
    acc'.1.number? ≠ none := by
  unfold addTagPriority at h
  split at h
  · contradiction
  · split_ifs at h
    · split at h
      · contradiction
      · split at h
        · contradiction
        next hplus =>
          obtain rfl := Except.ok.inj h
          exact (Yaml.plus_number hplus hacc).2
    · obtain rfl := Except.ok.inj h
      exact hacc
  · obtain rfl := Except.ok.inj h
    exact hacc

/-- A pool cannot answer if the round of one of its tags fails. -/
theorem getTagsPriority_raises {items : List Yaml} {tag : Yaml}
    (hall : obj.tagsAll = .ok (.list items)) (htag : tag ∈ items)
    (hfails : ∀ acc acc', acc.1.number? ≠ none → addTagPriority queried acc tag ≠ .ok acc') :
    ∃ e, obj.getTagsPriority queried = .error e := by
  obtain ⟨before, after, rfl⟩ := List.append_of_mem htag
  simp only [getTagsPriority, hall, Yaml.iter]
  cases hloop : (before ++ tag :: after).foldlM (addTagPriority queried)
      (.scalar (.int 0), []) with
  | error e => exact ⟨e, rfl⟩
  | ok acc =>
      -- the sum was a number when the loop came to the tag
      obtain ⟨acc₁, hbefore, hrest⟩ := foldlM_append_ok.mp hloop
      obtain ⟨acc₂, hround, -⟩ := foldlM_cons_ok.mp hrest
      have hnumber : acc₁.1.number? ≠ none :=
        foldlM_ok_invariant (P := fun acc => acc.1.number? ≠ none) hbefore
          (by simp [Yaml.number?, Yaml.integer?]) fun acc hacc tag _ acc' h =>
            addTagPriority_number h hacc
      exact absurd hround (hfails acc₁ acc₂ hnumber)

/-- A tag that a pool cannot be asked about: no set can hold its name, or it is requested and its
priority is no number. -/
def Unranked (queried : List String) (tag : Yaml) : Prop :=
  ∃ name, tag.item "name" = .ok name ∧
    (name.hashable = false ∨ ∃ text ∈ queried, name = .scalar (.str text) ∧
      ∃ priority, tag.item "priority" = .ok priority ∧ priority.number? = none)

/-- Its round fails. -/
theorem Unranked.addTagPriority_fails {tag : Yaml} (h : Unranked queried tag)
    {acc acc' : Yaml × List String} (hacc : acc.1.number? ≠ none) :
    addTagPriority queried acc tag ≠ .ok acc' := by
  intro hround
  obtain ⟨name, hname, hunhashable | ⟨text, hqueried, rfl, priority, hpriority, hvalue⟩⟩ := h
  · have hraises : tagName tag = .error .typeError := by simp [tagName, hname, hunhashable]
    simp [addTagPriority, hraises] at hround
  · have hnamed : tagName tag = .ok (.scalar (.str text)) := by
      simp [tagName, hname, Yaml.hashable]
    simp only [addTagPriority, hnamed, if_pos hqueried, hpriority] at hround
    split at hround
    · contradiction
    next hplus => exact absurd hvalue (Yaml.plus_number hplus hacc).1

/-- All tags of a pool with a list of tags, if they can be added up. -/
theorem tagsAll_cases {key : String} {items : List Yaml} (hkey : key ∈ tagOptions)
    (h : obj.attr key = .ok (.list items)) :
    (∃ all, obj.tagsAll = .ok (.list all) ∧ ∀ tag ∈ items, tag ∈ all) ∨
      ∃ e, obj.tagsAll = .error e := by
  unfold tagsAll
  rcases List.mem_pair.mp hkey with rfl | rfl
  · rw [h]
    cases obj.attr "tags_on_demand" with
    | error e => exact Or.inr ⟨e, rfl⟩
    | ok other =>
        cases other with
        | list others =>
            exact Or.inl ⟨items ++ others, rfl, fun tag => List.mem_append_left others⟩
        | scalar s =>
            right
            cases s <;> exact ⟨.typeError, rfl⟩
        | dict entries => exact Or.inr ⟨.typeError, rfl⟩
  · cases obj.attr "tags" with
    | error e => exact Or.inr ⟨e, rfl⟩
    | ok other =>
        rw [h]
        cases other with
        | list others =>
            exact Or.inl ⟨others ++ items, rfl, fun tag => List.mem_append_right others⟩
        | scalar s =>
            right
            cases s with
            | float x => cases x <;> exact ⟨.typeError, rfl⟩
            | _ => exact ⟨.typeError, rfl⟩
        | dict entries => exact Or.inr ⟨.typeError, rfl⟩

/-- They cannot be added up if an attribute is missing. -/
theorem tagsAll_error {key : String} {e : PyError} (hkey : key ∈ tagOptions)
    (h : obj.attr key = .error e) : ∃ e, obj.tagsAll = .error e := by
  unfold tagsAll
  rcases List.mem_pair.mp hkey with rfl | rfl
  · exact ⟨e, by rw [h]⟩
  · cases obj.attr "tags" with
    | error e => exact ⟨e, rfl⟩
    | ok tags => exact ⟨e, by rw [h]⟩

end PoolObject

/-! ## Tags of a section -/

open PoolObject

/-- Different tags are different values. -/
theorem ConfigTag.toYaml_injective :
    Function.Injective fun tag : ConfigTag => tag.toYamlTag.toYaml := by
  rintro ⟨name, priority⟩ ⟨name', priority'⟩ h
  simp only [toYamlTag, YamlTag.toYaml, Yaml.dict.injEq, List.cons.injEq, Prod.mk.injEq,
    Yaml.scalar.injEq, Scalar.str.injEq, true_and, and_true] at h
  obtain ⟨rfl, hpriority⟩ := h
  cases priority <;> cases priority' <;> simp_all

/-- A normalised mapping keeps its name. -/
theorem Yaml.normalizeTag_name {entry tag name : Yaml} (h : entry.normalizeTag = .ok tag)
    (hname : entry.item "name" = .ok name) : tag.item "name" = .ok name := by
  cases entry with
  | dict entries =>
      simp only [normalizeTag, hname] at h
      obtain rfl := Except.ok.inj h
      rfl
  | scalar | list => contradiction

/-- It keeps its priority. -/
theorem Yaml.normalizeTag_priority {entry tag priority : Yaml} (h : entry.normalizeTag = .ok tag)
    (hpriority : entry.item "priority" = .ok priority) : tag.item "priority" = .ok priority := by
  cases entry with
  | dict entries =>
      have hlookup : entries.lookup (.str "priority") = some priority := by
        unfold item at hpriority
        cases hfound : entries.lookup (.str "priority") with
        | none => simp [hfound] at hpriority
        | some value => simpa [hfound] using hpriority
      simp only [normalizeTag, hlookup] at h
      split at h
      · contradiction
      · obtain rfl := Except.ok.inj h
        rfl
  | scalar | list => contradiction

/-- It stays unranked. -/
theorem PoolObject.Unranked.normalized {queried : List String} {entry tag : Yaml}
    (h : Unranked queried entry) (hnormal : entry.normalizeTag = .ok tag) :
    Unranked queried tag := by
  obtain ⟨name, hname, hrest⟩ := h
  refine ⟨name, Yaml.normalizeTag_name hnormal hname, hrest.imp_right ?_⟩
  rintro ⟨text, hqueried, htext, priority, hpriority, hvalue⟩
  exact ⟨text, hqueried, htext, priority, Yaml.normalizeTag_priority hnormal hpriority, hvalue⟩

namespace PoolSection

variable {s : PoolSection} {key : String} {id : Scalar} {obj : PoolObject}
  {log : List ConfigWarning} {entry : Yaml}

/-- The list of an option has an entry. -/
def HasEntry (s : PoolSection) (key : String) (entry : Yaml) : Prop :=
  ∃ items, s.value? key = some (.list items) ∧ entry ∈ items

/-- The attribute of a tag option is the normalised option. -/
theorem normalizeOption_eq_attr (honce : ∀ option ∈ s.entries, SetsOnce option)
    (hread : (PoolObject.init id).fromDict (.dict s.entries) = .ok (obj, log))
    (hkey : key ∈ tagOptions) : (given s.entries key).normalizeOption = obj.attr key := by
  obtain ⟨acc, more, -, -, hnormal⟩ := fromDict_ok (fun acc => readSoFar_end honce) hread
  exact hnormal key hkey

/-- An entry is normalised together with its list. -/
theorem HasEntry.normalized (h : s.HasEntry key entry) {value : Yaml}
    (hnormal : (given s.entries key).normalizeOption = .ok value) :
    ∃ items tag, value = .list items ∧ tag ∈ items ∧ entry.normalizeTag = .ok tag := by
  obtain ⟨items, hvalue, hentry⟩ := h
  have hgiven : given s.entries key = .list items := by
    rw [given, show s.entries.lookup (.str key) = some (.list items) from hvalue, Option.getD_some]
  have htrue : (Yaml.list items).isTrue = true := by
    simpa [Yaml.isTrue] using List.ne_nil_of_mem hentry
  rw [hgiven] at hnormal
  simp only [Yaml.normalizeOption, Yaml.normalizeTags, htrue, if_true, Yaml.iter] at hnormal
  cases hitems : items.mapM Yaml.normalizeTag with
  | error e => simp [hitems] at hnormal
  | ok tags =>
      rw [hitems] at hnormal
      obtain rfl := Except.ok.inj hnormal
      obtain ⟨tag, htag, hresult⟩ := mapM_ok_mem hitems hentry
      exact ⟨tags, tag, rfl, htag, hresult⟩

/-- A pool cannot answer if an entry of its section is unranked. -/
theorem HasEntry.getTagsPriority_raises (h : s.HasEntry key entry) (hkey : key ∈ tagOptions)
    (honce : ∀ option ∈ s.entries, SetsOnce option)
    (hread : (PoolObject.init id).fromDict (.dict s.entries) = .ok (obj, log))
    {queried : List String} (hunranked : Unranked queried entry) :
    ∃ e, obj.getTagsPriority queried = .error e := by
  have hnormal := normalizeOption_eq_attr honce hread hkey
  have hfails : (∃ e, obj.tagsAll = .error e) → ∃ e, obj.getTagsPriority queried = .error e := by
    rintro ⟨e, hall⟩
    exact ⟨e, by simp [PoolObject.getTagsPriority, hall]⟩
  cases hattr : obj.attr key with
  | error e => exact hfails (tagsAll_error hkey hattr)
  | ok value =>
      obtain ⟨items, tag, rfl, htag, hresult⟩ := h.normalized (hnormal.trans hattr)
      rcases tagsAll_cases hkey hattr with ⟨all, hall, hmem⟩ | hall
      · exact PoolObject.getTagsPriority_raises hall (hmem tag htag) fun _ _ hacc =>
          (hunranked.normalized hresult).addTagPriority_fails hacc
      · exact hfails hall

/-- A typed attribute has the tags that its option lists. -/
theorem ListsEntries.eq_of_attr {tags tags' : List ConfigTag}
    (h : s.ListsEntries key (tags.map ConfigTag.toYamlTag))
    (honce : ∀ option ∈ s.entries, SetsOnce option)
    (hread : (PoolObject.init id).fromDict (.dict s.entries) = .ok (obj, log))
    (hkey : key ∈ tagOptions)
    (hattr : obj.attr key = .ok (.list (tags'.map fun tag => tag.toYamlTag.toYaml))) :
    tags' = tags := by
  have hnormal := (normalizeOption_eq_attr honce hread hkey).trans hattr
  rw [h.normalizeOption (Yaml.normalizeOption_type hnormal), List.map_map] at hnormal
  exact (List.map_injective_iff.mpr ConfigTag.toYaml_injective
    (Yaml.list.inj (Except.ok.inj hnormal))).symm

end PoolSection

/-! ## A pool and its resource -/

namespace World

variable {w w' : World} {p : Pool} {id : ResourceId} {obj : PoolObject} {log : List ConfigWarning}

/-- The last transaction of an {lit}`AllocWorker` whose {lit}`cmd_new` has succeeded. -/
def FinishesAlloc (w w' : World) (p : Pool) (id : ResourceId) : Prop :=
  ∃ as k i s output, Reaches anyStep as w ∧ w.Runs k p (.alloc id (.finish s output)) ∧
    output.status = 0 ∧ i.raises = false ∧ w.step (.worker k i) = some w'

/-- The row of a pool from a plain section is there when a script of it finishes. -/
theorem FinishesAlloc.mem_poolNames (h : w.FinishesAlloc w' p id) {key : Scalar} {data : Yaml}
    (hread : (PoolObject.init key).fromDict data = .ok (obj, log)) (hplain : Plain data)
    (hpool : obj.IsPool p.base) : p.id ∈ w.db.poolNames := by
  obtain ⟨as, k, i, s, output, hreach, hruns, -⟩ := h
  obtain ⟨hid, hname, -⟩ := fromDict_isPool hread hplain hpool
  have heq : p.id = p.name := Scalar.str.inj (hid.symm.trans hname)
  rw [heq]
  exact hreach.equipped.rows hruns

/-- A pool answers as its resource does, after the script of the resource has succeeded, if the
pool's identifier has a row, no name is listed twice and no requested tag has a null priority.
The row is there if the section is plain.  Whatever types the names and the priorities have, an
unranked entry stops the pool. -/
theorem matching_agrees_iff (conf : PoolSection) (honce : ∀ option ∈ conf.entries, SetsOnce option)
    {key : Scalar} (hread : (PoolObject.init key).fromDict (.dict conf.entries) = .ok (obj, log))
    (queried : List String) :
    (∀ (w w' : World) (p : Pool) (id : ResourceId) (tags tagsOnDemand : List ConfigTag),
      w.FinishesAlloc w' p id → obj.IsPool p.base →
      conf.ListsEntries "tags" (tags.map ConfigTag.toYamlTag) →
      conf.ListsEntries "tags_on_demand" (tagsOnDemand.map ConfigTag.toYamlTag) →
      ((∃ r, w'.db.resources.get? id = some r ∧ obj.Agrees queried r) ↔
        p.id ∈ w.db.poolNames ∧ ((tags ++ tagsOnDemand).map ConfigTag.name).Nodup ∧
          ∀ tag ∈ tags ++ tagsOnDemand, tag.name ∈ queried → tag.priority ≠ none) ∧
      (Plain (.dict conf.entries) → p.id ∈ w.db.poolNames)) ∧
    ∀ option ∈ tagOptions, ∀ entry, conf.HasEntry option entry → Unranked queried entry →
      ∃ e, obj.getTagsPriority queried = .error e := by
  constructor
  · intro w w' p id tags tagsOnDemand hfinishes hpool htags hdemand
    refine ⟨?_, fun hplain => hfinishes.mem_poolNames hread hplain hpool⟩
    obtain ⟨as, k, i, s, output, hreach, hruns, hstatus, hok, hstep⟩ := hfinishes
    obtain rfl : p.tags = tags := htags.eq_of_attr honce hread (by decide) hpool.tags
    obtain rfl : p.tagsOnDemand = tagsOnDemand :=
      hdemand.eq_of_attr honce hread (by decide) hpool.tagsOnDemand
    have hsame : ∀ r, obj.Agrees queried r ↔ p.Agrees queried r := by
      intro r
      have hbase : obj.Agrees queried r ↔ p.base.Agrees queried r :=
        hpool.toHasTagsOf.agrees_iff
      rw [hbase]
      exact ⟨fun h => ⟨h.up, h.answer⟩, fun h => ⟨h.up, h.answer⟩⟩
    simp only [hsame]
    rw [hreach.agrees_iff hruns hstatus hok hstep queried]
    have hnames : (p.tags ++ p.tagsOnDemand).map ConfigTag.name = p.tagSet := List.map_append
    rw [hnames]
    rfl
  · intro option hoption entry hentry hunranked
    exact hentry.getTagsPriority_raises hoption honce hread hunranked

/-- A tag with a priority and one with a null priority. -/
def fastSlow : List ConfigTag :=
  [{ name := "x86_64" }, { name := "fast", priority := some 10 },
    { name := "slow", priority := none }]

/-- A pool with these tags that keeps its only resource prepared. -/
def fastSlowPool : Pool := { basicPool with tags := fastSlow }

/-- The script of the thread that starts the resource succeeds. -/
def fastSlowRun : List Action :=
  ticks (.single fastSlowPool (by decide +kernel)) 8 ++ List.replicate 2 (.worker 1 { now := 20 })

/-- The world before the last transaction. -/
def fastSlowStarting : World := after anyStep fastSlowRun (by decide +kernel)

/-- The world after it. -/
def fastSlowStarted : World := (fastSlowStarting.step (.worker 1 {})).get (by decide +kernel)

/-- The pool of the thread. -/
def startedPool : Pool := { fastSlowPool with startOnDemandThisCycle := -1 }

/-- The thread finishes. -/
theorem finishesAlloc_fastSlow : fastSlowStarting.FinishesAlloc fastSlowStarted startedPool 1 := by
  have hruns : fastSlowStarting.workers.get? 1 =
      some { pool := startedPool, job := .alloc 1 (.finish 20 { status := 0 }) } := by
    decide +kernel
  have hreach := reaches_after anyStep fastSlowRun (by decide +kernel)
  exact ⟨fastSlowRun, 1, {}, 20, { status := 0 }, hreach, hruns, rfl, rfl, (Option.some_get _).symm⟩

/-- The section of the pool. -/
def fastSlowSection : PoolSection where
  entries := [(.str "max", .scalar (.int 1)), (.str "max_prealloc", .scalar (.int 1)),
    (.str "cmd_new", .scalar (.str "new")), (.str "cmd_delete", .scalar (.str "delete")),
    (.str "tags", .list [.scalar (.str "x86_64"),
      .dict [(.str "name", .scalar (.str "fast")), (.str "priority", .scalar (.int 10))],
      .dict [(.str "name", .scalar (.str "slow")), (.str "priority", .scalar .null)]])]
  nodup := by decide

/-- The object that is read from the section. -/
def fastSlowObject : PoolObject :=
  (((PoolObject.init (.str "basic")).fromDict (.dict fastSlowSection.entries)).toOption.map
    Prod.fst).getD (.init (.str "basic"))

/-- The section is read without a warning. -/
theorem fromDict_fastSlow :
    (PoolObject.init (.str "basic")).fromDict (.dict fastSlowSection.entries) =
      .ok (fastSlowObject, []) :=
  rfl

/-- No option is a mapping of attributes. -/
theorem setsOnce_fastSlow : ∀ option ∈ fastSlowSection.entries, SetsOnce option := by
  simp [fastSlowSection, SetsOnce]

/-- The object has the attributes of the pool. -/
theorem isPool_fastSlow : fastSlowObject.IsPool startedPool.base where
  tags := rfl
  tagsOnDemand := rfl
  id := rfl
  name := rfl
  integers := by
    intro e he
    simp only [Pool.integers, List.mem_cons, List.not_mem_nil, or_false] at he
    rcases he with rfl | rfl | rfl | rfl | rfl | rfl <;> exact ⟨_, rfl, rfl⟩
  seconds := by
    intro e he
    simp only [Pool.seconds, List.mem_cons, List.not_mem_nil, or_false] at he
    rcases he with rfl | rfl | rfl | rfl <;> exact ⟨_, rfl, rfl⟩
  commands := by
    intro e he
    simp only [Pool.commands, List.mem_cons, List.not_mem_nil, or_false] at he
    rcases he with rfl | rfl | rfl | rfl | rfl <;> rfl
  namePattern := by
    have htext : patternText startedPool.base.namePattern =
        "\x7bpool_name\x7d_\x7bid\x7d_\x7bdatetime\x7d" := by decide +kernel
    rw [htext]
    rfl
  namedCounters := rfl

/-- The pool and its resource agree on the tag with a priority, and the pool cannot answer about
the other one. -/
theorem matching_agrees_fastSlow :
    (∃ r, fastSlowStarted.db.resources.get? 1 = some r ∧ fastSlowObject.Agrees ["fast"] r) ∧
      ∃ e, fastSlowObject.getTagsPriority ["slow"] = .error e := by
  constructor
  · have hagrees := (matching_agrees_iff fastSlowSection setsOnce_fastSlow fromDict_fastSlow
      ["fast"]).1 _ _ _ _ fastSlow [] finishesAlloc_fastSlow isPool_fastSlow rfl rfl
    exact hagrees.1.mpr (by decide +kernel)
  · have hentry : fastSlowSection.HasEntry "tags"
        (.dict [(.str "name", .scalar (.str "slow")), (.str "priority", .scalar .null)]) :=
      ⟨_, rfl, by simp⟩
    have hunranked : Unranked ["slow"]
        (.dict [(.str "name", .scalar (.str "slow")), (.str "priority", .scalar .null)]) :=
      ⟨_, rfl, .inr ⟨"slow", by simp, rfl, .scalar .null, rfl, rfl⟩⟩
    exact (matching_agrees_iff fastSlowSection setsOnce_fastSlow fromDict_fastSlow ["slow"]).2
      "tags" (by decide) _ hentry hunranked

/-- The loop of {lit}`_assign_tickets` skips a null priority, and the pool cannot answer. -/
theorem matching_disagrees :
    ¬ ∀ (w w' : World) p id (conf : PoolSection) key obj log queried, w.FinishesAlloc w' p id →
      (∀ option ∈ conf.entries, SetsOnce option) →
      (PoolObject.init key).fromDict (.dict conf.entries) = .ok (obj, log) → obj.IsPool p.base →
      ∃ r, w'.db.resources.get? id = some r ∧ obj.Agrees queried r := by
  intro h
  obtain ⟨r, -, hagrees⟩ := h _ _ _ _ fastSlowSection (.str "basic") _ _ ["slow"]
    finishesAlloc_fastSlow setsOnce_fastSlow fromDict_fastSlow isPool_fastSlow
  obtain ⟨priority, hpriority, -⟩ := hagrees.answer
  have hraises : fastSlowObject.getTagsPriority ["slow"] = .error .typeError := rfl
  rw [hraises] at hpriority
  contradiction

end World

end Resalloc
