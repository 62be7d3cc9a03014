import Resalloc.Server.PoolSections

/-!
# Loading the configuration file

{lit}`reload_config` makes a pool object for each section of the file.  Its attributes can be of
any type, while the pools of the other modules have attributes of the types of their defaults.
This file says when an object is such a pool, and that the objects of a file are a
{lit}`Config`, unless a section sets an option that is meant for nobody.

Main results:

- Definition {lit}`PoolObject.IsPool`: an object with typed attributes.
- Theorem {lit}`PoolObject.fromDict_keeps`: an attribute that no option sets.
- Theorem {lit}`PoolObject.fromDict_isPool`: what holds of a pool that was read.
- Theorem {lit}`exists_config`: the pools of a file are a configuration.
-/

namespace Resalloc

open Foundations

/-! ## Typed attributes -/

/-- The text of a name pattern: braces of the literal text are doubled. -/
def patternText (pattern : List PatternPart) : String :=
  String.join (pattern.map fun
    | .text s => String.ofList (s.toList.flatMap fun c =>
        if c = '\x7b' ∨ c = '\x7d' then [c, c] else [c])
    | .field key => "\x7b" ++ key ++ "\x7d")

namespace Pool

variable (p : Pool)

/-- The attributes that are counted. -/
def integers : List (String × Int) :=
  [("max", p.max), ("max_starting", p.maxStarting), ("max_prealloc", p.maxPrealloc),
    ("livecheck_attempts", p.livecheckAttempts), ("reuse_max_count", p.reuseMaxCount),
    ("start_on_demand_this_cycle", p.startOnDemandThisCycle)]

/-- The attributes that are times. -/
def seconds : List (String × Time) :=
  [("start_delay", p.startDelay), ("livecheck_period", p.livecheckPeriod),
    ("reuse_opportunity_time", p.reuseOpportunityTime), ("reuse_max_time", p.reuseMaxTime)]

/-- The hooks. -/
def commands : List (String × Option String) :=
  [("cmd_new", p.cmdNew), ("cmd_delete", p.cmdDelete), ("cmd_livecheck", p.cmdLivecheck),
    ("cmd_release", p.cmdRelease), ("cmd_list", p.cmdList)]

end Pool

namespace PoolObject

/-- All attributes of the object have the types of a pool, and are those of this pool. -/
structure IsPool (obj : PoolObject) (p : Pool) : Prop extends obj.HasTagsOf p where
  id : obj.attr "id" = .ok (.scalar (.str p.id))
  name : obj.attr "name" = .ok (.scalar (.str p.name))
  integers : ∀ e ∈ p.integers, ∃ value, obj.attr e.1 = .ok value ∧ value.integer? = some e.2
  seconds : ∀ e ∈ p.seconds, ∃ value, obj.attr e.1 = .ok value ∧ value.number? = some (some e.2)
  commands : ∀ e ∈ p.commands, obj.attr e.1 = .ok (.scalar (e.2.elim .null .str))
  namePattern : obj.attr "name_pattern" = .ok (.scalar (.str (patternText p.namePattern)))
  namedCounters : obj.attr "named_counters" =
    .ok (.list (p.namedCounters.map fun name => .scalar (.str name)))

/-! ## Attributes that no option sets -/

section Keeps

variable {options : List (Scalar × Yaml)} {obj obj' : PoolObject} {log : List ConfigWarning}
  {key : String}

/-- A normalised attribute leaves the others as they are. -/
theorem normalizeAttr_keeps {k : String} (h : normalizeAttr obj k = .ok obj') (hne : key ≠ k) :
    obj'.attr key = obj.attr key := by
  unfold normalizeAttr at h
  split at h
  · contradiction
  · obtain rfl := Except.ok.inj h
    exact attr_assign_of_ne hne

/-- The end of {lit}`from_dict` sets one attribute at most. -/
theorem disablePrealloc_keeps {acc acc' : PoolObject × List ConfigWarning}
    (h : disablePrealloc acc = .ok acc') (hne : key ≠ "max_prealloc") :
    acc'.1.attr key = acc.1.attr key := by
  unfold disablePrealloc at h
  split at h
  · contradiction
  · split_ifs at h
    · split at h
      · contradiction
      · split_ifs at h
        · obtain rfl := Except.ok.inj h
          exact attr_assign_of_ne hne
        · obtain rfl := Except.ok.inj h
          rfl
    · obtain rfl := Except.ok.inj h
      rfl

/-- An attribute that no option sets keeps its value. -/
theorem fromDict_keeps (h : obj.fromDict (.dict options) = .ok (obj', log))
    (hkey : key ∉ tagOptions) (hmax : key ≠ "max_prealloc")
    (hoption : .str key ∉ options.map Prod.fst) (hdict : .str "__dict__" ∉ options.map Prod.fst) :
    obj'.attr key = obj.attr key := by
  simp only [fromDict] at h
  split at h
  · contradiction
  next read reported hloop =>
    have hread : read.attr key = obj.attr key := by
      refine foldlM_ok_invariant (P := fun acc => acc.1.attr key = obj.attr key) hloop rfl ?_
      intro acc hacc option hoptions acc' hround
      have hmem : option.1 ∈ options.map Prod.fst := List.mem_map_of_mem hoptions
      rw [← hacc]
      apply readOption_keeps hround
      · exact fun heq => hoption (heq ▸ hmem)
      · exact fun heq => absurd (heq ▸ hmem) hdict
    split at h
    · contradiction
    next normal hnormal =>
      have hnormals : normal.attr key = read.attr key := by
        refine foldlM_ok_invariant (P := fun o => o.attr key = read.attr key) hnormal rfl ?_
        intro o ho k hk o' hround
        rw [← ho]
        exact normalizeAttr_keeps hround fun heq => hkey (heq ▸ hk)
      rw [disablePrealloc_keeps h hmax, hnormals, hread]

/-- In the end, an on-demand pool preallocates nothing. -/
theorem disablePrealloc_zero {acc acc' : PoolObject × List ConfigWarning} {tags value : Yaml}
    (h : disablePrealloc acc = .ok acc') (htags : acc'.1.attr "tags_on_demand" = .ok tags)
    (htrue : tags.isTrue = true) (hvalue : acc'.1.attr "max_prealloc" = .ok value) :
    value.isNotZero = false := by
  have hbefore : acc'.1.attr "tags_on_demand" = acc.1.attr "tags_on_demand" :=
    disablePrealloc_keeps h (by decide)
  rw [htags] at hbefore
  simp only [disablePrealloc, ← hbefore, htrue, if_true] at h
  split at h
  · contradiction
  next maxPrealloc hmax =>
    split_ifs at h with hzero
    · obtain rfl := Except.ok.inj h
      rw [attr_assign_self] at hvalue
      obtain rfl := Except.ok.inj hvalue
      rfl
    · obtain rfl := Except.ok.inj h
      obtain rfl := Except.ok.inj (hmax.symm.trans hvalue)
      exact Bool.eq_false_iff.mpr hzero

end Keeps

/-! ## A pool that was read -/

/-- The section leaves alone what is not meant to be an option. -/
def Plain : Yaml → Prop
  | .dict options => ∀ key ∈ ["id", "name", "start_on_demand_this_cycle", "__dict__"],
      .str key ∉ options.map Prod.fst
  | _ => True

section Reads

variable {id : Scalar} {data : Yaml} {obj : PoolObject} {log : List ConfigWarning} {p : Pool}

/-- What is not meant to be an option has the value of a new object. -/
theorem fromDict_plain (h : (init id).fromDict data = .ok (obj, log)) (hplain : Plain data)
    {k : String} (hk : k ∈ ["id", "name", "start_on_demand_this_cycle", "__dict__"]) :
    obj.attr k = (init id).attr k := by
  cases data with
  | dict options =>
      have hkeys : k ∉ tagOptions ∧ k ≠ "max_prealloc" := by
        simp only [List.mem_cons, List.not_mem_nil, or_false] at hk
        rcases hk with rfl | rfl | rfl | rfl <;> decide
      exact fromDict_keeps h hkeys.1 hkeys.2 (hplain k hk) (hplain "__dict__" (by simp))
  | scalar | list =>
      obtain ⟨rfl, -⟩ := Prod.mk.inj (Except.ok.inj h)
      rfl

/-- A pool that was read preallocates nothing if it is started on demand. -/
theorem fromDict_noPrealloc (h : (init id).fromDict data = .ok (obj, log))
    (hpool : obj.IsPool p) (hdemand : p.tagsOnDemand ≠ []) : p.maxPrealloc = 0 := by
  cases data with
  | dict options =>
      simp only [fromDict] at h
      split at h
      · contradiction
      · split at h
        · contradiction
        next normal _ =>
          obtain ⟨value, hvalue, hinteger⟩ := hpool.integers ("max_prealloc", p.maxPrealloc)
            (by simp [Pool.integers])
          have hzero := disablePrealloc_zero h hpool.tagsOnDemand
            (by simpa [Yaml.isTrue] using hdemand) hvalue
          simpa [Yaml.isNotZero, Yaml.number?_of_integer? hinteger] using hzero
  | scalar | list =>
      obtain ⟨rfl, -⟩ := Prod.mk.inj (Except.ok.inj h)
      have htags : Yaml.list [] = .list _ := Except.ok.inj hpool.tagsOnDemand
      exact absurd (by simpa using htags) hdemand

/-- A pool that was read from a plain section: both of its names are the key. -/
theorem fromDict_isPool (h : (init id).fromDict data = .ok (obj, log))
    (hplain : Plain data) (hpool : obj.IsPool p) :
    id = .str p.id ∧ id = .str p.name ∧ p.startOnDemandThisCycle = 0 := by
  have hid := (fromDict_plain h hplain (k := "id") (by simp)).symm.trans hpool.id
  have hname := (fromDict_plain h hplain (k := "name") (by simp)).symm.trans hpool.name
  obtain ⟨value, hvalue, hinteger⟩ := hpool.integers
    ("start_on_demand_this_cycle", p.startOnDemandThisCycle) (by simp [Pool.integers])
  have hstart :=
    (fromDict_plain h hplain (k := "start_on_demand_this_cycle") (by simp)).symm.trans hvalue
  refine ⟨?_, ?_, ?_⟩
  · exact Yaml.scalar.inj (Except.ok.inj hid)
  · exact Yaml.scalar.inj (Except.ok.inj hname)
  · obtain rfl : Yaml.scalar (.int 0) = value := Except.ok.inj hstart
    exact (Option.some.inj hinteger).symm

end Reads

end PoolObject

/-! ## The whole file -/

open PoolObject

/-- The loop of {lit}`reload_config` over the sections. -/
def loadPools (sections : List (String × Yaml)) : Except PyError (List PoolObject) :=
  sections.mapM fun e => ((PoolObject.init (.str e.1)).fromDict e.2).map Prod.fst

/-- Each object is read from its section. -/
theorem loadPools_cons_ok {e : String × Yaml} {sections : List (String × Yaml)}
    {objs : List PoolObject} (h : loadPools (e :: sections) = .ok objs) :
    ∃ obj log rest, (PoolObject.init (.str e.1)).fromDict e.2 = .ok (obj, log) ∧
      loadPools sections = .ok rest ∧ objs = obj :: rest := by
  obtain ⟨obj, rest, hfirst, hrest, rfl⟩ := mapM_cons_ok.mp h
  cases hread : (PoolObject.init (.str e.1)).fromDict e.2 with
  | error e' =>
      rw [hread] at hfirst
      contradiction
  | ok result =>
      rw [hread] at hfirst
      obtain rfl := Except.ok.inj hfirst
      exact ⟨result.1, result.2, rest, rfl, hrest, rfl⟩

/-- The pools of a file with plain sections. -/
theorem loadPools_typed {sections : List (String × Yaml)} {objs : List PoolObject}
    {pools : List Pool} (h : loadPools sections = .ok objs)
    (hplain : ∀ e ∈ sections, Plain e.2) (htyped : List.Forall₂ IsPool objs pools) :
    pools.map Pool.name = sections.map Prod.fst ∧
      ∀ p ∈ pools, p.id = p.name ∧ p.startOnDemandThisCycle = 0 ∧
        (p.tagsOnDemand ≠ [] → p.maxPrealloc = 0) := by
  induction sections generalizing objs pools with
  | nil =>
      obtain rfl := Except.ok.inj h
      cases htyped
      simp
  | cons e sections ih =>
      obtain ⟨obj, log, rest, hread, hrest, rfl⟩ := loadPools_cons_ok h
      cases htyped with
      | cons hpool htail =>
          obtain ⟨hfirst, hothers⟩ := List.forall_mem_cons.mp hplain
          obtain ⟨hid, hname, hstart⟩ := fromDict_isPool hread hfirst hpool
          have hid : e.1 = _ := Scalar.str.inj hid
          have hname : e.1 = _ := Scalar.str.inj hname
          obtain ⟨hnames, hpools⟩ := ih hrest hothers htail
          constructor
          · rw [List.map_cons, List.map_cons, hnames, hname]
          · rw [List.forall_mem_cons]
            exact ⟨⟨hid.symm.trans hname, hstart, fromDict_noPrealloc hread hpool⟩, hpools⟩

/-- The typed pools of a file with plain sections are a configuration if they are valid, and no
key of the file is empty. -/
theorem exists_config {sections : List (String × Yaml)} {objs : List PoolObject}
    {pools : List Pool} (hkeys : (sections.map Prod.fst).Nodup)
    (hnamed : "" ∉ sections.map Prod.fst)
    (hplain : ∀ e ∈ sections, Plain e.2) (h : loadPools sections = .ok objs)
    (htyped : List.Forall₂ IsPool objs pools)
    (hvalid : ∀ p ∈ pools, p.validate (onDemandTags pools)) :
    ∃ config : Config, config.pools = pools ∧ ∀ p ∈ config.pools, p.id = p.name := by
  obtain ⟨hnames, hpools⟩ := loadPools_typed h hplain htyped
  have hids : pools.map Pool.id = pools.map Pool.name :=
    List.map_congr_left fun p hp => (hpools p hp).1
  refine ⟨⟨pools, ?_, ?_, ?_, ?_, ?_, hvalid⟩, rfl, fun p hp => (hpools p hp).1⟩
  · rw [hnames]
    exact hkeys
  · rw [hids, hnames]
    exact hkeys
  · rintro p hp hempty
    apply hnamed
    rw [← hnames, ← hempty]
    exact List.mem_map_of_mem hp
  · exact fun p hp => (hpools p hp).2.1
  · exact fun p hp => (hpools p hp).2.2

end Resalloc
