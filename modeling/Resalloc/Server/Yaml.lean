import Resalloc.Foundations.Entries
import Resalloc.Server.Pool

/-!
# Values of the configuration file

A configuration file is read by {lit}`yaml.safe_load`, which gives scalars, lists and
mappings as Python objects.  This file has the operations that the server applies to
them without knowing their types, and the list normaliser of {lit}`tags`, which meets
every one of these types.

Main results:

- Definition {lit}`Yaml`: the values.
- Definitions {lit}`Yaml.plus`, {lit}`Yaml.iter` and {lit}`Yaml.item`: Python's {lit}`+`,
  {lit}`for` and subscript.
- Definition {lit}`Yaml.mergeDict`: {lit}`merge_dict`.
- Theorem {lit}`Yaml.normalizeTags_list`: the normaliser on a list of tags.
- Theorem {lit}`Yaml.normalizeOption_type`: what it can turn into a list.
-/

namespace Resalloc

open Foundations

/-! ## Values -/

/-- A scalar, which is also what a key of a mapping can be.  A float is the rational it
denotes, or {lean}`none` if it is infinite or not a number; a timestamp is known by its
text. -/
inductive Scalar
  | null
  | bool (b : Bool)
  | int (n : Int)
  | float (x : Option ℚ)
  | str (s : String)
  | bytes (b : List UInt8)
  | timestamp (text : String)
deriving DecidableEq

/-- A value of a YAML file. -/
inductive Yaml
  | scalar (s : Scalar)
  | list (items : List Yaml)
  | dict (entries : List (Scalar × Yaml))

/-- Python types. -/
inductive PyType
  | noneType
  | bool
  | int
  | float
  | str
  | bytes
  | datetime
  | list
  | dict
  | set
  /-- A bound method, or another callable. -/
  | method
deriving DecidableEq

namespace Yaml

/-- {lit}`type(value)`. -/
def type : Yaml → PyType
  | .scalar .null => .noneType
  | .scalar (.bool _) => .bool
  | .scalar (.int _) => .int
  | .scalar (.float _) => .float
  | .scalar (.str _) => .str
  | .scalar (.bytes _) => .bytes
  | .scalar (.timestamp _) => .datetime
  | .list _ => .list
  | .dict _ => .dict

/-- {lit}`bool(value)`. -/
def isTrue : Yaml → Bool
  | .scalar .null => false
  | .scalar (.bool b) => b
  | .scalar (.int n) => n ≠ 0
  | .scalar (.float x) => x ≠ some 0
  | .scalar (.str s) => s ≠ ""
  | .scalar (.bytes b) => b ≠ []
  | .scalar (.timestamp _) => true
  | .list items => !items.isEmpty
  | .dict entries => !entries.isEmpty

/-- The integer that a value counts as in a sum. -/
def integer? : Yaml → Option Int
  | .scalar (.bool b) => some (if b then 1 else 0)
  | .scalar (.int n) => some n
  | _ => none

/-- The number that a value counts as in a sum or in a comparison. -/
def number? : Yaml → Option (Option ℚ)
  | .scalar (.float x) => some x
  | value => value.integer?.map fun n => some n

/-- An integer counts as a number. -/
theorem number?_of_integer? {value : Yaml} {n : Int} (h : value.integer? = some n) :
    value.number? = some (some (n : ℚ)) := by
  cases value with
  | scalar s => cases s <;> simp_all [number?, integer?]
  | list | dict => simp [integer?] at h

/-- {lit}`value != 0`. -/
def isNotZero (value : Yaml) : Bool := value.number? ≠ some (some 0)

/-- {lit}`a + b`. -/
def plus : Yaml → Yaml → Except PyError Yaml
  | .list a, .list b => .ok (.list (a ++ b))
  | .scalar (.str a), .scalar (.str b) => .ok (.scalar (.str (a ++ b)))
  | .scalar (.bytes a), .scalar (.bytes b) => .ok (.scalar (.bytes (a ++ b)))
  | a, b =>
      match a.integer?, b.integer? with
      | some m, some n => .ok (.scalar (.int (m + n)))
      | _, _ =>
          match a.number?, b.number? with
          | some (some x), some (some y) => .ok (.scalar (.float (some (x + y))))
          | some _, some _ => .ok (.scalar (.float none))
          | _, _ => .error .typeError

/-- Only numbers can be added to a number, and they give a number. -/
theorem plus_number {a b total : Yaml} (h : a.plus b = .ok total) (ha : a.number? ≠ none) :
    b.number? ≠ none ∧ total.number? ≠ none := by
  unfold plus at h
  split at h
  · simp [number?, integer?] at ha
  · simp [number?, integer?] at ha
  · simp [number?, integer?] at ha
  · split at h
    next m n _ hn =>
      obtain rfl := Except.ok.inj h
      exact ⟨by simp [number?_of_integer? hn], by simp [number?, integer?]⟩
    next =>
      split at h
      next hy =>
        obtain rfl := Except.ok.inj h
        exact ⟨by simp [hy], by simp [number?]⟩
      next hy =>
        obtain rfl := Except.ok.inj h
        exact ⟨by simp [hy], by simp [number?]⟩
      next => contradiction

/-- What {lit}`for` takes from a value: the keys of a mapping, the characters of a
string. -/
def iter : Yaml → Except PyError (List Yaml)
  | .list items => .ok items
  | .dict entries => .ok (entries.map fun e => .scalar e.1)
  | .scalar (.str s) => .ok (s.toList.map fun c => .scalar (.str (String.singleton c)))
  | .scalar (.bytes b) => .ok (b.map fun byte => .scalar (.int byte.toNat))
  | .scalar _ => .error .typeError

/-- {lit}`value[key]` for a text. -/
def item (value : Yaml) (key : String) : Except PyError Yaml :=
  match value with
  | .dict entries =>
      match entries.lookup (.str key) with
      | none => .error .keyError
      | some value => .ok value
  | _ => .error .typeError

/-- Values that can be put into a set. -/
def hashable : Yaml → Bool
  | .scalar _ => true
  | _ => false

/-- The value is a list. -/
theorem type_eq_list {value : Yaml} : value.type = .list ↔ ∃ items, value = .list items := by
  constructor
  · intro h
    cases value with
    | scalar s => cases s <;> cases h
    | list items => exact ⟨items, rfl⟩
    | dict entries => cases h
  · rintro ⟨items, rfl⟩
    rfl

/-- The value is null. -/
theorem type_eq_noneType {value : Yaml} : value.type = .noneType ↔ value = .scalar .null := by
  constructor
  · intro h
    cases value with
    | scalar s =>
        cases s with
        | null => rfl
        | _ => cases h
    | list items => cases h
    | dict entries => cases h
  · rintro rfl
    rfl

/-! ## Merging -/

mutual

/-- {lit}`merge_dict`: the entries of a mapping replace those of another, recursively;
another value replaces it as a whole. -/
def mergeDict : Yaml → Yaml → Yaml
  | .dict origin, .dict override => .dict (mergeEntries origin override)
  | _, override => override

/-- Its loop over the entries that replace. -/
def mergeEntries (origin : List (Scalar × Yaml)) : List (Scalar × Yaml) → List (Scalar × Yaml)
  | [] => origin
  | (key, value) :: rest =>
      match origin.lookup key with
      | some old => mergeEntries (setItem origin key (mergeDict old value)) rest
      | none => mergeEntries (setItem origin key value) rest

end

/-- A key that the other mapping does not have keeps its value. -/
theorem lookup_mergeEntries {origin override : List (Scalar × Yaml)} {key : Scalar}
    (h : key ∉ override.map Prod.fst) :
    (mergeEntries origin override).lookup key = origin.lookup key := by
  induction override generalizing origin with
  | nil => simp [mergeEntries]
  | cons entry rest ih =>
      rw [List.map_cons, List.mem_cons, not_or] at h
      rw [mergeEntries]
      split
      · rw [ih h.2, lookup_setItem_of_ne h.1]
      · rw [ih h.2, lookup_setItem_of_ne h.1]

/-! ## Tags -/

/-- One round of {lit}`normalize_tags`. -/
def normalizeTag : Yaml → Except PyError Yaml
  | .scalar (.str s) =>
      .ok (.dict [(.str "name", .scalar (.str s)), (.str "priority", .scalar (.int 0))])
  | .dict entries =>
      match (Yaml.dict entries).item "name" with
      | .error e => .error e
      | .ok name =>
          .ok (.dict [(.str "name", name),
            (.str "priority", (entries.lookup (.str "priority")).getD (.scalar (.int 0)))])
  | _ => .error .assertionError

/-- {lit}`normalize_tags`: the value that its argument has afterwards.  The contents are
replaced in place, which only a list allows. -/
def normalizeTags (tags : Yaml) : Except PyError Yaml :=
  if tags.isTrue then
    match tags.iter with
    | .error e => .error e
    | .ok items =>
        match items.mapM normalizeTag with
        | .error e => .error e
        | .ok newTags =>
            match tags with
            | .list _ => .ok (.list newTags)
            | _ => .error .typeError
  else .ok tags

/-- What {lit}`from_dict` makes of {lit}`tags` or {lit}`tags_on_demand` in the end. -/
def normalizeOption : Yaml → Except PyError Yaml
  | .scalar .null => .ok (.list [])
  | value => value.normalizeTags

end Yaml

/-- A normalised tag; its priority is {lean}`none` if it is null. -/
structure YamlTag where
  name : Yaml
  priority : Option Int

/-- A normalised tag with a text as its name. -/
def ConfigTag.toYamlTag (tag : ConfigTag) : YamlTag :=
  { name := .scalar (.str tag.name), priority := tag.priority }

/-- The tag as a value. -/
def YamlTag.toYaml (tag : YamlTag) : Yaml :=
  .dict [(.str "name", tag.name), (.str "priority", .scalar (tag.priority.elim .null .int))]

namespace Yaml

/-- The tag that an entry of a list stands for: a text, or a mapping with a name and
possibly with a priority, an integer or null. -/
def tag? : Yaml → Option YamlTag
  | .scalar (.str s) => some { name := .scalar (.str s), priority := some 0 }
  | .dict entries =>
      match entries.lookup (.str "name"), entries.lookup (.str "priority") with
      | some name, none => some { name := name, priority := some 0 }
      | some name, some (.scalar (.int priority)) =>
          some { name := name, priority := some priority }
      | some name, some (.scalar .null) => some { name := name, priority := none }
      | _, _ => none
  | _ => none

/-- One round on an entry that stands for a tag. -/
theorem normalizeTag_ok {value : Yaml} {tag : YamlTag} (h : value.tag? = some tag) :
    value.normalizeTag = .ok tag.toYaml := by
  unfold tag? at h
  split at h
  next s =>
    obtain rfl := Option.some.inj h
    rfl
  next entries =>
    split at h
    next name hname hpriority =>
      obtain rfl := Option.some.inj h
      simp [normalizeTag, item, hname, hpriority, YamlTag.toYaml]
    next name priority hname hpriority =>
      obtain rfl := Option.some.inj h
      simp [normalizeTag, item, hname, hpriority, YamlTag.toYaml]
    next name hname hpriority =>
      obtain rfl := Option.some.inj h
      simp [normalizeTag, item, hname, hpriority, YamlTag.toYaml]
    next => contradiction
  next => contradiction

/-- All rounds on a list of tags. -/
theorem mapM_normalizeTag {items : List Yaml} {tags : List YamlTag}
    (h : items.map tag? = tags.map some) :
    items.mapM normalizeTag = .ok (tags.map YamlTag.toYaml) := by
  induction items generalizing tags with
  | nil =>
      obtain rfl := List.map_eq_nil_iff.mp h.symm
      rfl
  | cons value items ih =>
      cases tags with
      | nil => simp at h
      | cons tag tags =>
          obtain ⟨hfirst, hrest⟩ := List.cons.inj h
          rw [List.mapM_cons, normalizeTag_ok hfirst, ih hrest]
          rfl

/-- The normaliser on a list of tags. -/
theorem normalizeTags_list {items : List Yaml} {tags : List YamlTag}
    (h : items.map tag? = tags.map some) :
    (Yaml.list items).normalizeTags = .ok (.list (tags.map YamlTag.toYaml)) := by
  unfold normalizeTags
  by_cases hempty : items = []
  · subst hempty
    obtain rfl := List.map_eq_nil_iff.mp h.symm
    rfl
  · simp [isTrue, hempty, iter, mapM_normalizeTag h]

/-- Only a list or null comes out as a list. -/
theorem normalizeOption_type {value : Yaml} {items : List Yaml}
    (h : value.normalizeOption = .ok (.list items)) :
    value.type = .noneType ∨ value.type = .list := by
  unfold normalizeOption at h
  split at h
  · exact Or.inl rfl
  next value _ =>
    right
    unfold normalizeTags at h
    split at h
    · split at h
      · contradiction
      · split at h
        · contradiction
        · split at h
          · rfl
          · contradiction
    · obtain rfl := Except.ok.inj h
      rfl

end Yaml

end Resalloc
