import Resalloc.Foundations.Fallible
import Resalloc.Server.Yaml

/-!
# Reading the configuration of a pool

{lit}`Pool.from_dict` copies the options of a mapping to the attributes of a pool, by
their names and with no check but on the type of the old value.  The two tag options are
looked at afterwards: a value that is no list is reported, null becomes an empty list, and
the normaliser takes the rest.

Main results:

- Definition {lit}`PoolObject.fromDict`: {lit}`Pool.from_dict`.
- Theorem {lit}`PoolObject.readOption_cases`: what reading one option can do.
- Theorem {lit}`PoolObject.readOption_returns_iff`: when it is read without an exception.
- Theorem {lit}`PoolObject.ReadSoFar.readOption`: the tag attributes after one more option.
- Theorem {lit}`PoolObject.fromDict_ok`: the tag attributes in the end.
-/

namespace Resalloc

open Foundations

/-! ## Attributes by name -/

/-- What an attribute of a pool can be. -/
inductive Attr
  | value (v : Yaml)
  /-- A set of tag names. -/
  | set
  | method

/-- {lit}`type(attribute)`. -/
def Attr.type : Attr → PyType
  | .value v => v.type
  | .set => .set
  | .method => .method

/-- What {lit}`from_dict` reports. -/
inductive ConfigWarning
  /-- {lit}`useless config option` -/
  | uselessOption (key : String)
  /-- {lit}`Ignoring configuration attribute %s in Pool %s, array/list expected!` -/
  | ignoringAttribute (key : String) (name : Yaml)
  /-- {lit}`Setting max_prealloc=0 for on-demand pool %s` -/
  | settingMaxPrealloc (name : Yaml)

/-- A pool with its attributes: the {lit}`__dict__` of the object. -/
structure PoolObject where
  attrs : List (Scalar × Yaml)

namespace PoolObject

/-- The two options that list tags. -/
def tagOptions : List String := ["tags", "tags_on_demand"]

/-- Attributes of the class that are no functions. -/
def classAttrs : List (String × Yaml) :=
  [("description", .scalar .null), ("max", .scalar (.int 4)), ("max_starting", .scalar (.int 1)),
    ("max_prealloc", .scalar (.int 2)), ("start_delay", .scalar (.int 0)),
    ("cmd_new", .scalar .null), ("cmd_delete", .scalar .null), ("cmd_livecheck", .scalar .null),
    ("cmd_release", .scalar .null), ("cmd_list", .scalar .null),
    ("livecheck_period", .scalar (.int 600)), ("livecheck_attempts", .scalar (.int 3)),
    ("name_pattern", .scalar (.str "{pool_name}_{id}_{datetime}")),
    ("reuse_opportunity_time", .scalar (.int 0)), ("reuse_max_count", .scalar (.int 0)),
    ("reuse_max_time", .scalar (.int 3600)), ("named_counters", .list []),
    ("start_on_demand_this_cycle", .scalar (.int 0)), ("__doc__", .scalar .null),
    ("__module__", .scalar (.str "resallocserver.manager"))]

/-- Functions of the class, and those of {lit}`object`. -/
def methods : List String :=
  ["get_tags_priority", "loop", "validate", "_find_smallest_number", "_allocate_pool_id",
    "_allocate_named_counter_value", "allocate", "from_dict", "_too_soon",
    "_allocate_more_resources", "_clean_unknown_resources", "detect_closed_tickets",
    "_request_on_demand_resources_removal", "_request_resource_removal", "_garbage_collector",
    "__init__", "__class__", "__delattr__", "__dir__", "__eq__", "__format__", "__ge__",
    "__getattribute__", "__getstate__", "__gt__", "__hash__", "__init_subclass__", "__le__",
    "__lt__", "__ne__", "__new__", "__reduce__", "__reduce_ex__", "__repr__", "__setattr__",
    "__sizeof__", "__str__", "__subclasshook__"]

/-- Attributes that cannot be assigned: the properties, and a slot of every object. -/
def readOnly : List String :=
  ["tags_all", "tag_set", "tag_set_normal", "tag_set_on_demand", "__weakref__"]

variable (obj : PoolObject)

/-- {lit}`__init__`. -/
def init (id : Scalar) : PoolObject where
  attrs := [(.str "id", .scalar id), (.str "tags", .list []), (.str "tags_on_demand", .list []),
    (.str "name", .scalar id)]

/-- The attribute of the object, or else that of the class. -/
def attr (key : String) : Except PyError Yaml :=
  match (obj.attrs.lookup (.str key)).or (classAttrs.lookup key) with
  | none => .error .attributeError
  | some value => .ok value

/-- {lit}`tags_all`. -/
def tagsAll : Except PyError Yaml :=
  match obj.attr "tags" with
  | .error e => .error e
  | .ok tags =>
      match obj.attr "tags_on_demand" with
      | .error e => .error e
      | .ok tagsOnDemand => tags.plus tagsOnDemand

/-- The name of a tag, which goes into a set or is looked up in one. -/
def tagName (tag : Yaml) : Except PyError Yaml :=
  match tag.item "name" with
  | .error e => .error e
  | .ok name => if name.hashable then .ok name else .error .typeError

/-- The names of the tags in a list, as {lit}`tag_set_normal` and
{lit}`tag_set_on_demand` collect them. -/
def nameSet (tags : Yaml) : Except PyError (List Yaml) :=
  match tags.iter with
  | .error e => .error e
  | .ok items => items.mapM tagName

/-- {lit}`tag_set_normal`. -/
def tagSetNormal : Except PyError (List Yaml) :=
  match obj.attr "tags" with
  | .error e => .error e
  | .ok tags => nameSet tags

/-- {lit}`tag_set_on_demand`. -/
def tagSetOnDemand : Except PyError (List Yaml) :=
  match obj.attr "tags_on_demand" with
  | .error e => .error e
  | .ok tags => nameSet tags

/-- {lit}`tag_set`. -/
def tagSet : Except PyError (List Yaml) :=
  match obj.tagSetNormal with
  | .error e => .error e
  | .ok normal =>
      match obj.tagSetOnDemand with
      | .error e => .error e
      | .ok onDemand => .ok (normal ++ onDemand)

/-- One round of the loop of {lit}`get_tags_priority`. -/
def addTagPriority (queriedTags : List String) (acc : Yaml × List String) (tag : Yaml) :
    Except PyError (Yaml × List String) :=
  match tagName tag with
  | .error e => .error e
  | .ok (.scalar (.str name)) =>
      if name ∈ queriedTags then
        match tag.item "priority" with
        | .error e => .error e
        | .ok priority =>
            match acc.1.plus priority with
            | .error e => .error e
            | .ok total => .ok (total, name :: acc.2)
      else .ok acc
  | .ok _ => .ok acc

/-- {lit}`get_tags_priority`. -/
def getTagsPriority (queriedTags : List String) : Except PyError (Option Yaml) :=
  match obj.tagsAll with
  | .error e => .error e
  | .ok tagsAll =>
      match tagsAll.iter with
      | .error e => .error e
      | .ok tags =>
          match tags.foldlM (addTagPriority queriedTags) (.scalar (.int 0), []) with
          | .error e => .error e
          | .ok (priority, foundTags) =>
              if ∀ tag ∈ queriedTags, tag ∈ foundTags then .ok (some priority) else .ok none

/-- {lit}`getattr(self, key)`: a property is evaluated. -/
def getattr (key : String) : Except PyError Attr :=
  if key = "tags_all" then obj.tagsAll.map .value
  else if key = "tag_set" then obj.tagSet.map fun _ => .set
  else if key = "tag_set_normal" then obj.tagSetNormal.map fun _ => .set
  else if key = "tag_set_on_demand" then obj.tagSetOnDemand.map fun _ => .set
  else if key = "__dict__" then .ok (.value (.dict obj.attrs))
  else if key = "__weakref__" then .ok (.value (.scalar .null))
  else
    match obj.attr key with
    | .error e => if key ∈ methods then .ok .method else .error e
    | .ok value => .ok (.value value)

/-- Assign an attribute of the object. -/
def assign (key : String) (value : Yaml) : PoolObject where
  attrs := setItem obj.attrs (.str key) value

/-- {lit}`setattr(self, key, value)`. -/
def setattr (key : String) (value : Yaml) : Except PyError PoolObject :=
  if key ∈ readOnly then .error .attributeError
  else if key = "__dict__" then
    match value with
    | .dict attrs => .ok { attrs := attrs }
    | _ => .error .typeError
  else .ok (obj.assign key value)

/-! ## Reading a mapping -/

/-- {lit}`allowed_types`. -/
def allowedTypes : List PyType := [.int, .str, .dict, .noneType, .list]

/-- The name of the pool in what is reported. -/
def logName : Yaml := (obj.attr "name").toOption.getD (.scalar .null)

/-- The check of a tag option that has been copied: only a list "seems good". -/
def ignored (key : String) : List ConfigWarning :=
  if key ∈ tagOptions then
    match obj.attr key with
    | .ok (.list _) => []
    | _ => [.ignoringAttribute key obj.logName]
  else []

/-- One round of the loop of {lit}`from_dict` over the options. -/
def readOption (acc : PoolObject × List ConfigWarning) (option : Scalar × Yaml) :
    Except PyError (PoolObject × List ConfigWarning) :=
  match option.1 with
  | .str key =>
      match acc.1.getattr key with
      -- The only exception that {lit}`hasattr` catches.
      | .error .attributeError => .ok (acc.1, acc.2 ++ [.uselessOption key])
      | .error e => .error e
      | .ok (.value old) =>
          if old.type ∈ allowedTypes then
            match acc.1.setattr key
                (if old.type = .dict then old.mergeDict option.2 else option.2) with
            | .error e => .error e
            | .ok obj => .ok (obj, acc.2 ++ obj.ignored key)
          else .ok acc
      | .ok _ => .ok acc
  -- {lit}`hasattr` wants a text.
  | _ => .error .typeError

/-- One round of the loop that normalises the tags. -/
def normalizeAttr (obj : PoolObject) (key : String) : Except PyError PoolObject :=
  match ((obj.attr key).toOption.getD (.scalar .null)).normalizeOption with
  | .error e => .error e
  | .ok value => .ok (obj.assign key value)

/-- The end of {lit}`from_dict`: no resource is preallocated in an on-demand pool. -/
def disablePrealloc (acc : PoolObject × List ConfigWarning) :
    Except PyError (PoolObject × List ConfigWarning) :=
  match acc.1.attr "tags_on_demand" with
  | .error e => .error e
  | .ok tagsOnDemand =>
      if tagsOnDemand.isTrue then
        match acc.1.attr "max_prealloc" with
        | .error e => .error e
        | .ok maxPrealloc =>
            if maxPrealloc.isNotZero then
              .ok (acc.1.assign "max_prealloc" (.scalar (.int 0)),
                acc.2 ++ [.settingMaxPrealloc acc.1.logName])
            else .ok acc
      else .ok acc

/-- {lit}`from_dict`, with what it reports. -/
def fromDict : Yaml → Except PyError (PoolObject × List ConfigWarning)
  | .dict options =>
      match options.foldlM readOption (obj, []) with
      | .error e => .error e
      | .ok (obj, log) =>
          match tagOptions.foldlM normalizeAttr obj with
          | .error e => .error e
          | .ok obj => disablePrealloc (obj, log)
  | _ => .ok (obj, [])

/-! ## Names of tags -/

/-- A mapping with a name that a set can hold. -/
def NamesTag (tag : Yaml) : Prop :=
  ∃ entries name, tag = .dict entries ∧ entries.lookup (.str "name") = some name ∧
    name.hashable = true

/-- A list of such mappings. -/
def NamesTags (tags : Yaml) : Prop :=
  ∃ items, tags = .list items ∧ ∀ tag ∈ items, NamesTag tag

/-- A tag has a name if it is a mapping with a hashable one. -/
theorem tagName_returns_iff {tag : Yaml} : (∃ name, tagName tag = .ok name) ↔ NamesTag tag := by
  constructor
  · rintro ⟨name, h⟩
    unfold tagName at h
    split at h
    next => contradiction
    next found hitem =>
      split at h
      next hhashable =>
        unfold Yaml.item at hitem
        split at hitem
        next entries =>
          split at hitem
          next => contradiction
          next value hlookup =>
            obtain rfl := Except.ok.inj hitem
            exact ⟨entries, value, rfl, hlookup, hhashable⟩
        next => contradiction
      next => contradiction
  · rintro ⟨entries, name, rfl, hlookup, hhashable⟩
    exact ⟨name, by simp [tagName, Yaml.item, hlookup, hhashable]⟩

/-- No attribute is missing where a name is. -/
theorem tagName_error {tag : Yaml} {e : PyError} (h : tagName tag = .error e) :
    e ≠ .attributeError := by
  unfold tagName at h
  split at h
  next e' hitem =>
    obtain rfl := Except.error.inj h
    unfold Yaml.item at hitem
    split at hitem
    next =>
      split at hitem
      · obtain rfl := Except.error.inj hitem
        decide
      · contradiction
    next =>
      obtain rfl := Except.error.inj hitem
      decide
  next =>
    split at h
    · contradiction
    · obtain rfl := Except.error.inj h
      decide

/-- The names of null or of a list are collected if it is a list of named mappings. -/
theorem nameSet_returns_iff {tags : Yaml} (htype : tags.type = .noneType ∨ tags.type = .list) :
    (∃ names, nameSet tags = .ok names) ↔ NamesTags tags := by
  rw [Yaml.type_eq_noneType, Yaml.type_eq_list] at htype
  rcases htype with rfl | ⟨items, rfl⟩
  · constructor
    · rintro ⟨names, h⟩
      contradiction
    · rintro ⟨items, h, -⟩
      contradiction
  · have hnames : nameSet (.list items) = items.mapM tagName := rfl
    rw [hnames, mapM_returns_iff]
    constructor
    · exact fun h => ⟨items, rfl, fun tag htag => tagName_returns_iff.mp (h tag htag)⟩
    · rintro ⟨items, h, hnamed⟩ tag htag
      obtain rfl := Yaml.list.inj h
      exact tagName_returns_iff.mpr (hnamed tag htag)

/-- No attribute is missing where names are collected. -/
theorem nameSet_error {tags : Yaml} {e : PyError} (h : nameSet tags = .error e) :
    e ≠ .attributeError := by
  unfold nameSet at h
  split at h
  next e' hiter =>
    obtain rfl := Except.error.inj h
    unfold Yaml.iter at hiter
    split at hiter <;> cases hiter
    decide
  next =>
    obtain ⟨tag, -, htag⟩ := mapM_error h
    exact tagName_error htag

/-! ## One option -/

section Attributes

variable {obj obj' : PoolObject} {key k : String} {value : Yaml}

/-- An attribute after an assignment to it. -/
@[simp] theorem attr_assign_self (obj : PoolObject) (key : String) (value : Yaml) :
    (obj.assign key value).attr key = .ok value := by
  simp [attr, assign]

/-- An attribute after an assignment to another one. -/
theorem attr_assign_of_ne (h : k ≠ key) : (obj.assign key value).attr k = obj.attr k := by
  simp [attr, assign, lookup_setItem_of_ne (show Scalar.str k ≠ .str key by simpa using h)]

/-- The two tag attributes are none of the special ones. -/
theorem tagOptions_plain (h : key ∈ tagOptions) : key ∉ readOnly ∧ key ≠ "__dict__" := by
  rcases List.mem_pair.mp h with rfl | rfl <;> decide

/-- What is found under a name that is not special. -/
theorem getattr_plain (obj : PoolObject) (h : key ∉ readOnly) (hdict : key ≠ "__dict__") :
    obj.getattr key =
      match obj.attr key with
      | .error e => if key ∈ methods then .ok .method else .error e
      | .ok value => .ok (.value value) := by
  simp only [readOnly, List.mem_cons, List.not_mem_nil, or_false, not_or] at h
  obtain ⟨hall, hset, hnormal, hdemand, hweakref⟩ := h
  simp only [getattr, hall, hset, hnormal, hdemand, hdict, hweakref, if_false]

/-- An attribute that is not found is missing. -/
theorem attr_error {e : PyError} (h : obj.attr key = .error e) : e = .attributeError := by
  unfold attr at h
  split at h
  · exact (Except.error.inj h).symm
  · contradiction

/-- The tag attributes after another assignment: the object's {lit}`__dict__` is merged
with the mapping, and so keeps what the mapping does not have. -/
theorem setattr_keeps (hset : obj.setattr key value = .ok obj') (hkey : k ≠ key)
    (hdict : key = "__dict__" → ∃ entries, value = .dict (Yaml.mergeEntries obj.attrs entries) ∧
      .str k ∉ entries.map Prod.fst) :
    obj'.attr k = obj.attr k := by
  unfold setattr at hset
  split_ifs at hset with hreadOnly hisDict
  · obtain ⟨entries, rfl, habsent⟩ := hdict hisDict
    obtain rfl := Except.ok.inj hset
    simp [attr, Yaml.lookup_mergeEntries habsent]
  · obtain rfl := Except.ok.inj hset
    exact attr_assign_of_ne hkey

end Attributes

section Options

variable {acc acc' : PoolObject × List ConfigWarning} {option : Scalar × Yaml}
  {before : List (Scalar × Yaml)} {key : String} {value : Yaml}

/-- A value that is no list is reported. -/
theorem ignored_of_ne {obj : PoolObject} (hkey : key ∈ tagOptions)
    (hattr : obj.attr key = .ok value) (htype : value.type ≠ .list) :
    .ignoringAttribute key obj.logName ∈ obj.ignored key := by
  unfold ignored
  rw [if_pos hkey, hattr]
  split
  next items h =>
    obtain rfl := Except.ok.inj h
    exact absurd rfl htype
  next => exact List.mem_singleton_self _

/-- One of the two tag options replaces the empty list. -/
theorem readOption_tags (hkey : key ∈ tagOptions) (hattr : acc.1.attr key = .ok (.list [])) :
    readOption acc (.str key, value) =
      .ok (acc.1.assign key value, acc.2 ++ (acc.1.assign key value).ignored key) := by
  obtain ⟨hplain, hdict⟩ := tagOptions_plain hkey
  have hallowed : (Yaml.list []).type ∈ allowedTypes := by decide
  have hnotDict : (Yaml.list []).type ≠ .dict := by decide
  simp [readOption, getattr_plain acc.1 hplain hdict, hattr, hallowed, hnotDict, setattr,
    hplain, hdict]

/-- What reading an option can do: nothing but to report it, or to assign it. -/
theorem readOption_cases (h : readOption acc option = .ok acc') :
    ∃ key log, option.1 = .str key ∧ acc'.2 = acc.2 ++ log ∧
      (acc'.1 = acc.1 ∨ ∃ old, acc.1.getattr key = .ok (.value old) ∧
        acc.1.setattr key (if old.type = .dict then old.mergeDict option.2 else option.2) =
          .ok acc'.1) := by
  unfold readOption at h
  split at h
  next key hkey =>
    split at h
    next =>
      obtain rfl := Except.ok.inj h
      exact ⟨key, _, hkey, rfl, Or.inl rfl⟩
    next => contradiction
    next old hold =>
      split at h
      next =>
        split at h
        next => contradiction
        next obj hset =>
          obtain rfl := Except.ok.inj h
          exact ⟨key, _, hkey, rfl, Or.inr ⟨old, hold, hset⟩⟩
      next =>
        obtain rfl := Except.ok.inj h
        exact ⟨key, [], hkey, (List.append_nil _).symm, Or.inl rfl⟩
    next =>
      obtain rfl := Except.ok.inj h
      exact ⟨key, [], hkey, (List.append_nil _).symm, Or.inl rfl⟩
  next => contradiction

/-- Another option leaves a tag attribute as it is. -/
theorem readOption_keeps (h : readOption acc option = .ok acc') {k : String}
    (hkey : option.1 ≠ .str k)
    (hdict : option.1 = .str "__dict__" → ∀ entries, option.2 = .dict entries →
      .str k ∉ entries.map Prod.fst) :
    acc'.1.attr k = acc.1.attr k := by
  obtain ⟨key, log, hname, -, hsame | ⟨old, hold, hset⟩⟩ := readOption_cases h
  · rw [hsame]
  · apply setattr_keeps hset
    · rintro rfl
      exact hkey hname
    · rintro rfl
      obtain rfl : Yaml.dict acc.1.attrs = old := by simpa [getattr] using hold
      have hmerge : (Yaml.dict acc.1.attrs).type = .dict := rfl
      rw [if_pos hmerge] at hset ⊢
      cases hvalue : option.2 with
      | dict entries => exact ⟨entries, by rw [Yaml.mergeDict], hdict hname entries hvalue⟩
      | _ =>
          rw [hvalue] at hset
          simp [Yaml.mergeDict, setattr, readOnly] at hset

/-- {lit}`tag_set` is made if both of its parts are. -/
theorem tagSet_returns_iff (obj : PoolObject) :
    (∃ names, obj.tagSet = .ok names) ↔
      (∃ names, obj.tagSetNormal = .ok names) ∧ ∃ names, obj.tagSetOnDemand = .ok names := by
  unfold tagSet
  cases obj.tagSetNormal with
  | error e => simp
  | ok normal => cases obj.tagSetOnDemand <;> simp

/-- It fails as one of its parts does. -/
theorem tagSet_error {obj : PoolObject} {e : PyError} (h : obj.tagSet = .error e) :
    obj.tagSetNormal = .error e ∨ obj.tagSetOnDemand = .error e := by
  unfold tagSet at h
  cases hnormal : obj.tagSetNormal with
  | error e' =>
      rw [hnormal] at h
      exact Or.inl h
  | ok normal =>
      rw [hnormal] at h
      cases honDemand : obj.tagSetOnDemand with
      | error e' =>
          rw [honDemand] at h
          exact Or.inr h
      | ok onDemand =>
          rw [honDemand] at h
          contradiction

/-- An option with the name of a property that makes a set is read, and ignored, if the
set can be made. -/
theorem readOption_set {names : Except PyError (List Yaml)}
    (hget : acc.1.getattr key = names.map fun _ => .set)
    (herror : ∀ e, names = .error e → e ≠ .attributeError) :
    (∃ acc', readOption acc (.str key, value) = .ok acc') ↔ ∃ found, names = .ok found := by
  cases hnames : names with
  | error e =>
      have hother : e ≠ .attributeError := herror e hnames
      have hget' : acc.1.getattr key = .error e := by rw [hget, hnames]; rfl
      constructor
      · rintro ⟨acc', h⟩
        cases e <;> simp [readOption, hget'] at h hother
      · rintro ⟨found, h⟩
        contradiction
  | ok found =>
      have hget' : acc.1.getattr key = .ok .set := by rw [hget, hnames]; rfl
      constructor
      · exact fun _ => ⟨found, rfl⟩
      · exact fun _ => ⟨acc, by simp [readOption, hget']⟩

/-- An option with the name of an attribute of an allowed type is read if the attribute can
be assigned. -/
theorem readOption_value {old : Yaml} (hget : acc.1.getattr key = .ok (.value old))
    (hallowed : old.type ∈ allowedTypes) :
    (∃ acc', readOption acc (.str key, value) = .ok acc') ↔
      ∃ obj, acc.1.setattr key (if old.type = .dict then old.mergeDict value else value) =
        .ok obj := by
  simp only [readOption, hget, hallowed, if_true]
  cases acc.1.setattr key (if old.type = .dict then old.mergeDict value else value) with
  | error e => simp
  | ok obj => simp

/-- An option with a plain name is read. -/
theorem readOption_plain (hplain : key ∉ readOnly) (hdict : key ≠ "__dict__") :
    ∃ acc', readOption acc (.str key, value) = .ok acc' := by
  have hget := getattr_plain acc.1 hplain hdict
  cases hattr : acc.1.attr key with
  | error e =>
      obtain rfl := attr_error hattr
      by_cases hmethod : key ∈ methods
      · exact ⟨acc, by simp [readOption, hget, hattr, hmethod]⟩
      · exact ⟨(acc.1, acc.2 ++ [.uselessOption key]),
          by simp [readOption, hget, hattr, hmethod]⟩
  | ok old =>
      rw [hattr] at hget
      by_cases hallowed : old.type ∈ allowedTypes
      · rw [readOption_value hget hallowed]
        unfold setattr
        rw [if_neg hplain, if_neg hdict]
        exact ⟨_, rfl⟩
      · exact ⟨acc, by simp [readOption, hget, hallowed]⟩

/-- The object's {lit}`__dict__` can be merged with a mapping only. -/
theorem readOption_dict_iff :
    (∃ acc', readOption acc (.str "__dict__", value) = .ok acc') ↔ value.type = .dict := by
  have hget : acc.1.getattr "__dict__" = .ok (.value (.dict acc.1.attrs)) := by simp [getattr]
  have hmerge : (Yaml.dict acc.1.attrs).type = .dict := rfl
  rw [readOption_value hget (by rw [hmerge]; decide), if_pos hmerge]
  cases value with
  | dict entries => simp [Yaml.mergeDict, setattr, readOnly, Yaml.type]
  | list items => simp [Yaml.mergeDict, setattr, readOnly, Yaml.type]
  | scalar s => cases s <;> simp [Yaml.mergeDict, setattr, readOnly, Yaml.type]

/-- A property has no setter, and the slot for weak references is not writable. -/
theorem readOption_readOnly {old : Yaml} (hget : acc.1.getattr key = .ok (.value old))
    (hallowed : old.type ∈ allowedTypes) (hreadOnly : key ∈ readOnly) :
    readOption acc (.str key, value) ≠ .ok acc' := by
  intro h
  obtain ⟨obj, hset⟩ := (readOption_value hget hallowed).mp ⟨acc', h⟩
  unfold setattr at hset
  rw [if_pos hreadOnly] at hset
  contradiction

/-- A sum with a list, or with null in front, is a list or fails. -/
theorem plus_cases {a b : Yaml} (htype : a.type = .noneType ∨ a.type = .list) :
    (∃ items, a.plus b = .ok (.list items)) ∨ a.plus b = .error .typeError := by
  rw [Yaml.type_eq_noneType, Yaml.type_eq_list] at htype
  rcases htype with rfl | ⟨items, rfl⟩
  · right
    cases b with
    | scalar s => cases s <;> rfl
    | _ => rfl
  · cases b with
    | list others => exact Or.inl ⟨items ++ others, rfl⟩
    | scalar s =>
        right
        cases s <;> rfl
    | dict entries => exact Or.inr rfl

/-- No option replaces {lit}`tags_all`. -/
theorem readOption_tagsAll {tags tagsOnDemand : Yaml} (htags : acc.1.attr "tags" = .ok tags)
    (hdemand : acc.1.attr "tags_on_demand" = .ok tagsOnDemand)
    (htype : tags.type = .noneType ∨ tags.type = .list) :
    readOption acc (.str "tags_all", value) ≠ .ok acc' := by
  have hget : acc.1.getattr "tags_all" = (tags.plus tagsOnDemand).map .value := by
    simp [getattr, tagsAll, htags, hdemand]
  rcases plus_cases htype with ⟨items, hplus⟩ | hplus
  · rw [hplus] at hget
    have hallowed : (Yaml.list items).type ∈ allowedTypes := by
      change PyType.list ∈ allowedTypes
      decide
    exact readOption_readOnly hget hallowed (by decide)
  · simp [readOption, hget, hplus, Except.map]

/-- The slot for weak references is not writable. -/
theorem readOption_weakref : readOption acc (.str "__weakref__", value) ≠ .ok acc' := by
  have hget : acc.1.getattr "__weakref__" = .ok (.value (.scalar .null)) := by simp [getattr]
  exact readOption_readOnly hget (by decide) (by decide)

/-- What an option needs to be read without an exception, after the tag options have got
these values. -/
structure Quiet (tags tagsOnDemand : Yaml) (option : Scalar × Yaml) : Prop where
  text : ∃ key, option.1 = .str key
  writable : option.1 ≠ .str "tags_all" ∧ option.1 ≠ .str "__weakref__"
  dict : option.1 = .str "__dict__" → option.2.type = .dict
  normal : option.1 = .str "tag_set" ∨ option.1 = .str "tag_set_normal" → NamesTags tags
  onDemand : option.1 = .str "tag_set" ∨ option.1 = .str "tag_set_on_demand" →
    NamesTags tagsOnDemand

/-- The same for an option with a text as its key. -/
theorem quiet_text {tags tagsOnDemand : Yaml} :
    Quiet tags tagsOnDemand (.str key, value) ↔
      (key ≠ "tags_all" ∧ key ≠ "__weakref__") ∧ (key = "__dict__" → value.type = .dict) ∧
        (key = "tag_set" ∨ key = "tag_set_normal" → NamesTags tags) ∧
        (key = "tag_set" ∨ key = "tag_set_on_demand" → NamesTags tagsOnDemand) := by
  constructor
  · rintro ⟨-, hwritable, hdict, hnormal, honDemand⟩
    simp only [Scalar.str.injEq, ne_eq] at hwritable hdict hnormal honDemand
    exact ⟨hwritable, hdict, hnormal, honDemand⟩
  · rintro ⟨hwritable, hdict, hnormal, honDemand⟩
    constructor
    · exact ⟨key, rfl⟩
    · simpa using hwritable
    · simpa using hdict
    · simpa using hnormal
    · simpa using honDemand

/-- An option with a plain name is a quiet one. -/
theorem quiet_plain (hplain : key ∉ readOnly) (hdict : key ≠ "__dict__") (value : Yaml)
    (tags tagsOnDemand : Yaml) : Quiet tags tagsOnDemand (.str key, value) := by
  simp only [readOnly, List.mem_cons, List.not_mem_nil, or_false, not_or] at hplain
  simp [quiet_text, hplain, hdict]

/-- One option is read without an exception if it is a quiet one. -/
theorem readOption_returns_iff {tags tagsOnDemand : Yaml} (htags : acc.1.attr "tags" = .ok tags)
    (hdemand : acc.1.attr "tags_on_demand" = .ok tagsOnDemand)
    (htype : tags.type = .noneType ∨ tags.type = .list)
    (hdemandType : tagsOnDemand.type = .noneType ∨ tagsOnDemand.type = .list) :
    (∃ acc', readOption acc option = .ok acc') ↔ Quiet tags tagsOnDemand option := by
  obtain ⟨name, value⟩ := option
  by_cases htext : ∃ key, name = .str key
  swap
  · constructor
    · rintro ⟨acc', h⟩
      obtain ⟨key, -, hkey, -⟩ := readOption_cases h
      exact absurd ⟨key, hkey⟩ htext
    · exact fun h => absurd h.text htext
  obtain ⟨key, rfl⟩ := htext
  have hnormal : acc.1.tagSetNormal = nameSet tags := by rw [tagSetNormal, htags]
  have honDemand : acc.1.tagSetOnDemand = nameSet tagsOnDemand := by
    rw [tagSetOnDemand, hdemand]
  have hnormalError : ∀ e, acc.1.tagSetNormal = .error e → e ≠ .attributeError := by
    rw [hnormal]
    exact fun e => nameSet_error
  have honDemandError : ∀ e, acc.1.tagSetOnDemand = .error e → e ≠ .attributeError := by
    rw [honDemand]
    exact fun e => nameSet_error
  rw [quiet_text]
  by_cases hreadOnly : key ∈ readOnly
  · simp only [readOnly, List.mem_cons, List.not_mem_nil, or_false] at hreadOnly
    rcases hreadOnly with rfl | rfl | rfl | rfl | rfl
    · constructor
      · rintro ⟨acc', h⟩
        exact absurd h (readOption_tagsAll htags hdemand htype)
      · exact fun h => absurd rfl h.1.1
    · have hsetError : ∀ e, acc.1.tagSet = .error e → e ≠ .attributeError := by
        intro e h
        rcases tagSet_error h with h | h
        · exact hnormalError e h
        · exact honDemandError e h
      rw [readOption_set (by simp [getattr]) hsetError, tagSet_returns_iff, hnormal, honDemand,
        nameSet_returns_iff htype, nameSet_returns_iff hdemandType]
      simp
    · rw [readOption_set (by simp [getattr]) hnormalError, hnormal, nameSet_returns_iff htype]
      simp
    · rw [readOption_set (by simp [getattr]) honDemandError, honDemand,
        nameSet_returns_iff hdemandType]
      simp
    · constructor
      · rintro ⟨acc', h⟩
        exact absurd h readOption_weakref
      · exact fun h => absurd rfl h.1.2
  by_cases hdict : key = "__dict__"
  · subst hdict
    rw [readOption_dict_iff]
    simp
  · have hquiet := quiet_plain hreadOnly hdict value tags tagsOnDemand
    exact iff_of_true (readOption_plain hreadOnly hdict) (quiet_text.mp hquiet)

end Options

/-! ## All options -/

/-- The value of a tag option, which is an empty list at first. -/
def given (options : List (Scalar × Yaml)) (key : String) : Yaml :=
  (options.lookup (.str key)).getD (.list [])

/-- The tag attributes after some options have been read: the values are copied, and those
that are no list have been reported. -/
structure ReadSoFar (options : List (Scalar × Yaml)) (acc : PoolObject × List ConfigWarning) :
    Prop where
  attr : ∀ key ∈ tagOptions, acc.1.attr key = .ok (given options key)
  reported : ∀ key ∈ tagOptions, ∀ value, options.lookup (.str key) = some value →
    value.type ≠ .list → ∃ name, .ignoringAttribute key name ∈ acc.2

/-- Before the first option. -/
theorem readSoFar_init (id : Scalar) : ReadSoFar [] (init id, []) where
  attr key hkey := by
    rcases List.mem_pair.mp hkey with rfl | rfl <;> rfl
  reported key _ value h := by simp at h

/-- A tag option is in no other mapping that is copied to the object. -/
def SetsOnce (option : Scalar × Yaml) : Prop :=
  option.1 = .str "__dict__" → ∀ entries, option.2 = .dict entries →
    ∀ key ∈ tagOptions, .str key ∉ entries.map Prod.fst

/-- A tag attribute whose option has not been read yet is an empty list. -/
theorem ReadSoFar.attr_new {options : List (Scalar × Yaml)} {key : String}
    {acc : PoolObject × List ConfigWarning} (h : ReadSoFar options acc) (hkey : key ∈ tagOptions)
    (hnew : Scalar.str key ∉ options.map Prod.fst) : acc.1.attr key = .ok (.list []) := by
  rw [h.attr key hkey, given, lookup_eq_none hnew]
  rfl

/-- One more option. -/
theorem ReadSoFar.readOption {options : List (Scalar × Yaml)} {option : Scalar × Yaml}
    {acc acc' : PoolObject × List ConfigWarning} (h : ReadSoFar options acc)
    (hnew : option.1 ∉ options.map Prod.fst) (honce : SetsOnce option)
    (hreads : readOption acc option = .ok acc') : ReadSoFar (options ++ [option]) acc' := by
  obtain ⟨name, value⟩ := option
  constructor
  · intro key hkey
    by_cases hname : name = .str key
    · subst hname
      rw [readOption_tags hkey (h.attr_new hkey hnew)] at hreads
      obtain rfl := Except.ok.inj hreads
      simp [given, lookup_snoc, lookup_eq_none hnew]
    · rw [readOption_keeps hreads hname fun hdict entries hentries =>
        honce hdict entries hentries key hkey, h.attr key hkey]
      simp [given, lookup_snoc, Ne.symm hname]
  · intro key hkey found hfound htype
    obtain ⟨-, log, -, hlog, -⟩ := readOption_cases hreads
    by_cases hname : name = .str key
    · subst hname
      rw [readOption_tags hkey (h.attr_new hkey hnew)] at hreads
      obtain rfl := Except.ok.inj hreads
      obtain rfl : value = found := by
        simpa [lookup_snoc, lookup_eq_none hnew] using hfound
      exact ⟨_, List.mem_append_right _ (ignored_of_ne hkey (attr_assign_self ..) htype)⟩
    · have hold : options.lookup (.str key) = some found := by
        simpa [lookup_snoc, Ne.symm hname] using hfound
      obtain ⟨pool, hmem⟩ := h.reported key hkey found hold htype
      refine ⟨pool, ?_⟩
      rw [hlog]
      exact List.mem_append_left _ hmem

/-! ## The end of the function -/

/-- One tag attribute is normalised. -/
theorem normalizeAttr_eq {obj : PoolObject} {key : String} {value : Yaml}
    (h : obj.attr key = .ok value) :
    normalizeAttr obj key = value.normalizeOption.map (obj.assign key) := by
  rw [normalizeAttr, h]
  cases hnormal : value.normalizeOption <;> simp [hnormal, Except.toOption, Except.map]

/-- Both tag attributes are normalised. -/
theorem foldlM_normalizeAttr_iff {obj obj' : PoolObject} {tags tagsOnDemand : Yaml}
    (htags : obj.attr "tags" = .ok tags) (hdemand : obj.attr "tags_on_demand" = .ok tagsOnDemand) :
    tagOptions.foldlM normalizeAttr obj = .ok obj' ↔
      ∃ v w, tags.normalizeOption = .ok v ∧ tagsOnDemand.normalizeOption = .ok w ∧
        obj' = (obj.assign "tags" v).assign "tags_on_demand" w := by
  rw [tagOptions, foldlM_cons_ok, normalizeAttr_eq htags]
  cases tags.normalizeOption with
  | error e => simp [Except.map]
  | ok v =>
      have hkept : (obj.assign "tags" v).attr "tags_on_demand" = .ok tagsOnDemand := by
        rw [attr_assign_of_ne (by decide), hdemand]
      simp only [Except.map, Except.ok.injEq, exists_eq_left', foldlM_cons_ok,
        normalizeAttr_eq hkept]
      cases tagsOnDemand.normalizeOption with
      | error e => simp
      | ok w => simp [eq_comm, pure, Except.pure]

/-- The last lines of {lit}`from_dict` change one attribute at most. -/
theorem disablePrealloc_returns {obj : PoolObject} {tagsOnDemand : Yaml}
    (h : obj.attr "tags_on_demand" = .ok tagsOnDemand) (log : List ConfigWarning) :
    ∃ obj' more, disablePrealloc (obj, log) = .ok (obj', log ++ more) ∧
      ∀ key ∈ tagOptions, obj'.attr key = obj.attr key := by
  obtain ⟨maxPrealloc, hmax⟩ : ∃ value, obj.attr "max_prealloc" = .ok value := by
    cases hattr : obj.attrs.lookup (.str "max_prealloc") with
    | none => exact ⟨.scalar (.int 2), by simp [attr, hattr, classAttrs, List.lookup_cons]⟩
    | some value => exact ⟨value, by simp [attr, hattr]⟩
  by_cases hdisables : tagsOnDemand.isTrue = true ∧ maxPrealloc.isNotZero = true
  · refine ⟨obj.assign "max_prealloc" (.scalar (.int 0)), [.settingMaxPrealloc obj.logName],
      ?_, ?_⟩
    · simp [disablePrealloc, h, hmax, hdisables]
    · intro key hkey
      apply attr_assign_of_ne
      rintro rfl
      exact absurd hkey (by decide)
  · refine ⟨obj, [], ?_, fun _ _ => rfl⟩
    simp only [disablePrealloc, h, hmax, List.append_nil]
    split_ifs with htrue hzero
    · exact absurd ⟨htrue, hzero⟩ hdisables
    · rfl
    · rfl

section End

variable {options : List (Scalar × Yaml)} {obj obj' : PoolObject} {log : List ConfigWarning}
  {acc : PoolObject × List ConfigWarning}

/-- What {lit}`from_dict` has done when it returns. -/
theorem fromDict_ok
    (hread : ∀ acc, options.foldlM PoolObject.readOption (obj, []) = .ok acc →
      ReadSoFar options acc)
    (h : obj.fromDict (.dict options) = .ok (obj', log)) :
    ∃ acc more, options.foldlM PoolObject.readOption (obj, []) = .ok acc ∧ log = acc.2 ++ more ∧
      ∀ key ∈ tagOptions, (given options key).normalizeOption = obj'.attr key := by
  simp only [fromDict] at h
  split at h
  next => contradiction
  next read reported hloop =>
    have hsofar := hread _ hloop
    have htags := hsofar.attr "tags" (by decide)
    have hdemand := hsofar.attr "tags_on_demand" (by decide)
    split at h
    next => contradiction
    next normal hnormal =>
      obtain ⟨v, w, hv, hw, rfl⟩ := (foldlM_normalizeAttr_iff htags hdemand).mp hnormal
      obtain ⟨last, more, hend, hkeeps⟩ := disablePrealloc_returns
        (attr_assign_self (read.assign "tags" v) "tags_on_demand" w) reported
      rw [hend] at h
      obtain ⟨rfl, rfl⟩ := Prod.mk.inj (Except.ok.inj h)
      refine ⟨_, more, hloop, rfl, ?_⟩
      intro key hkey
      rw [hkeeps key hkey]
      rcases List.mem_pair.mp hkey with rfl | rfl
      · rw [hv, attr_assign_of_ne (by decide), attr_assign_self]
      · rw [hw, attr_assign_self]

/-- It returns if all options are read and both tag options can be normalised. -/
theorem fromDict_returns {v w : Yaml}
    (hloop : options.foldlM PoolObject.readOption (obj, []) = .ok acc)
    (hread : ReadSoFar options acc) (hv : (given options "tags").normalizeOption = .ok v)
    (hw : (given options "tags_on_demand").normalizeOption = .ok w) :
    ∃ obj' log, obj.fromDict (.dict options) = .ok (obj', log) := by
  have htags := hread.attr "tags" (by decide)
  have hdemand := hread.attr "tags_on_demand" (by decide)
  have hnormal := (foldlM_normalizeAttr_iff htags hdemand).mpr ⟨v, w, hv, hw, rfl⟩
  obtain ⟨obj', more, hend, -⟩ := disablePrealloc_returns
    (attr_assign_self (acc.1.assign "tags" v) "tags_on_demand" w) acc.2
  refine ⟨obj', acc.2 ++ more, ?_⟩
  simp only [fromDict, hloop, hnormal]
  exact hend

end End

end PoolObject

end Resalloc
