import Resalloc.Server.PoolConfig

/-!
# Sections that do no harm

An exception in {lit}`Pool.from_dict`, or in what reads the tags afterwards, ends the
manager and with it the server.  This file says which sections of the configuration file
are safe: the two tag options have whatever values they have, and the tags they list are
the ones that a list stands for.

Main results:

- Theorem {lit}`PoolObject.HasTagsOf.getTagsPriority`: the pools of the other modules answer
  as these objects do.
- Theorem {lit}`PoolSection.tolerates_iff`: which sections do no harm.
- Theorem {lit}`PoolSection.not_tolerates_text`: a text in place of the list.
-/

namespace Resalloc

open Foundations

namespace PoolObject

/-! ## Reading normalised tags -/

section Reads

variable {obj : PoolObject} {tags tagsOnDemand : List YamlTag}

/-- The name of a normalised tag. -/
theorem tagName_toYaml (tag : YamlTag) :
    tagName tag.toYaml = if tag.name.hashable then .ok tag.name else .error .typeError :=
  rfl

/-- The names of normalised tags are collected if a set can hold them. -/
theorem nameSet_toYaml_iff :
    (∃ names, nameSet (.list (tags.map YamlTag.toYaml)) = .ok names) ↔
      ∀ tag ∈ tags, tag.name.hashable = true := by
  have hnames : nameSet (.list (tags.map YamlTag.toYaml)) =
      (tags.map YamlTag.toYaml).mapM tagName := rfl
  rw [hnames, mapM_returns_iff, List.forall_mem_map]
  apply forall₂_congr
  intro tag _
  rw [tagName_toYaml]
  split_ifs with hhashable <;> simp [hhashable]

/-- A round of {lit}`get_tags_priority` keeps the sum an integer. -/
theorem addTagPriority_returns {queried : List String} {tag : YamlTag} {n : Int}
    {found : List String} (hhashable : tag.name.hashable = true) (hpriority : tag.priority ≠ none) :
    ∃ m found', addTagPriority queried (.scalar (.int n), found) tag.toYaml =
      .ok (.scalar (.int m), found') := by
  obtain ⟨priority, hpriority⟩ := Option.ne_none_iff_exists'.mp hpriority
  have hitem : tag.toYaml.item "priority" = .ok (.scalar (.int priority)) := by
    simp [YamlTag.toYaml, Yaml.item, lookup_cons_of_ne, hpriority]
  have hsum : (Yaml.scalar (.int n)).plus (.scalar (.int priority)) =
      .ok (.scalar (.int (n + priority))) := rfl
  unfold addTagPriority
  rw [tagName_toYaml, if_pos hhashable]
  split
  next => contradiction
  next name hname =>
    split_ifs
    · exact ⟨n + priority, name :: found, by simp only [hitem, hsum]⟩
    · exact ⟨n, found, rfl⟩
  next => exact ⟨n, found, rfl⟩

variable (htags : obj.attr "tags" = .ok (.list (tags.map YamlTag.toYaml)))
  (hdemand : obj.attr "tags_on_demand" = .ok (.list (tagsOnDemand.map YamlTag.toYaml)))

include htags hdemand

/-- All tags of a pool with normalised tags. -/
theorem tagsAll_toYaml :
    obj.tagsAll = .ok (.list ((tags ++ tagsOnDemand).map YamlTag.toYaml)) := by
  rw [tagsAll, htags, hdemand, List.map_append]
  rfl

/-- When it has a set of names. -/
theorem tagSet_toYaml_iff :
    (∃ names, obj.tagSet = .ok names) ↔
      ∀ tag ∈ tags ++ tagsOnDemand, tag.name.hashable = true := by
  rw [tagSet_returns_iff, tagSetNormal, tagSetOnDemand, htags, hdemand, List.forall_mem_append]
  exact and_congr nameSet_toYaml_iff nameSet_toYaml_iff

/-- It answers every query if a set can hold the names and no priority is null. -/
theorem getTagsPriority_toYaml
    (hhashable : ∀ tag ∈ tags ++ tagsOnDemand, tag.name.hashable = true)
    (hpriority : ∀ tag ∈ tags ++ tagsOnDemand, tag.priority ≠ none) (queried : List String) :
    ∃ priority, obj.getTagsPriority queried = .ok priority := by
  have hloop : ∃ acc, ((tags ++ tagsOnDemand).map YamlTag.toYaml).foldlM (addTagPriority queried)
      (.scalar (.int 0), []) = .ok acc ∧ ∃ n, acc.1 = .scalar (.int n) := by
    apply foldlM_returns ⟨0, rfl⟩
    rintro ⟨_, found⟩ ⟨n, rfl⟩ value hvalue
    obtain ⟨tag, htag, rfl⟩ := List.mem_map.mp hvalue
    obtain ⟨m, found', hround⟩ := addTagPriority_returns (hhashable tag htag) (hpriority tag htag)
    exact ⟨_, hround, m, rfl⟩
  obtain ⟨⟨priority, found⟩, hloop, -⟩ := hloop
  simp only [getTagsPriority, tagsAll_toYaml htags hdemand, Yaml.iter, hloop]
  split_ifs
  · exact ⟨some priority, rfl⟩
  · exact ⟨none, rfl⟩

end Reads

/-! ## The pools of the manager -/

/-- The tag attributes of a pool. -/
structure HasTagsOf (obj : PoolObject) (p : Pool) : Prop where
  tags : obj.attr "tags" = .ok (.list (p.tags.map fun tag => tag.toYamlTag.toYaml))
  tagsOnDemand :
    obj.attr "tags_on_demand" = .ok (.list (p.tagsOnDemand.map fun tag => tag.toYamlTag.toYaml))

/-- A round of {lit}`get_tags_priority` is one of the typed loop. -/
theorem addTagPriority_toYaml (queried : List String) (acc : Int × List String)
    (tag : ConfigTag) :
    addTagPriority queried (.scalar (.int acc.1), acc.2) tag.toYamlTag.toYaml =
      (Pool.addTagPriority queried acc tag).map fun acc => (.scalar (.int acc.1), acc.2) := by
  have hname : tagName tag.toYamlTag.toYaml = .ok (.scalar (.str tag.name)) := rfl
  have hitem : tag.toYamlTag.toYaml.item "priority" =
      .ok (.scalar (tag.priority.elim .null .int)) := by
    simp [ConfigTag.toYamlTag, YamlTag.toYaml, Yaml.item, lookup_cons_of_ne]
  simp only [addTagPriority, Pool.addTagPriority, hname]
  by_cases hqueried : tag.name ∈ queried
  · rw [if_pos hqueried, if_pos hqueried, hitem]
    cases tag.priority with
    | none => rfl
    | some priority => rfl
  · rw [if_neg hqueried, if_neg hqueried]
    rfl

/-- The object answers as the pool does. -/
theorem HasTagsOf.getTagsPriority {obj : PoolObject} {p : Pool} (h : obj.HasTagsOf p)
    (queried : List String) :
    obj.getTagsPriority queried =
      (p.getTagsPriority queried).map (Option.map fun n => .scalar (.int n)) := by
  have hall : obj.tagsAll = .ok (.list (p.tagsAll.map fun tag => tag.toYamlTag.toYaml)) := by
    rw [tagsAll, h.tags, h.tagsOnDemand, Pool.tagsAll, List.map_append]
    rfl
  have hloop := foldlM_map (addTagPriority_toYaml queried) p.tagsAll (0, [])
  simp only [PoolObject.getTagsPriority, Pool.getTagsPriority, hall, Yaml.iter, hloop]
  cases p.tagsAll.foldlM (Pool.addTagPriority queried) (0, []) with
  | error e => rfl
  | ok acc =>
      simp only [Except.map]
      split_ifs <;> rfl

end PoolObject

/-! ## Sections of the configuration file -/

open PoolObject

/-- The section of a pool in the configuration file. -/
structure PoolSection where
  entries : List (Scalar × Yaml)
  /-- A mapping has a key only once. -/
  nodup : (entries.map Prod.fst).Nodup

namespace PoolSection

variable {s : PoolSection} {tags tagsOnDemand : List YamlTag} {key : String}

/-- The value of an option. -/
def value? (s : PoolSection) (key : String) : Option Yaml := s.entries.lookup (.str key)

/-- The tags of an option.  A list has texts and mappings, with a name and possibly an integer
priority; a missing option and a value that is no list have no tags. -/
def Lists (s : PoolSection) (key : String) (tags : List YamlTag) : Prop :=
  match s.value? key with
  | some (.list items) =>
      items.map Yaml.tag? = tags.map some ∧ ∀ tag ∈ tags, tag.priority ≠ none
  | _ => tags = []

/-- The tags that the entries of an option stand for, some of them possibly with a null
priority. -/
def ListsEntries (s : PoolSection) (key : String) (tags : List YamlTag) : Prop :=
  match s.value? key with
  | some (.list items) => items.map Yaml.tag? = tags.map some
  | _ => tags = []

/-- The pool after its section has been read. -/
structure Configures (s : PoolSection) (tags tagsOnDemand : List YamlTag) (obj : PoolObject)
    (log : List ConfigWarning) : Prop where
  tags : obj.attr "tags" = .ok (.list (tags.map YamlTag.toYaml))
  tagsOnDemand : obj.attr "tags_on_demand" = .ok (.list (tagsOnDemand.map YamlTag.toYaml))
  reported : ∀ key ∈ tagOptions, ∀ value, s.value? key = some value → value.type ≠ .list →
    ∃ name, .ignoringAttribute key name ∈ log
  tagsAll : ∃ all, obj.tagsAll = .ok all
  tagSet : ∃ names, obj.tagSet = .ok names
  answers : ∀ queried, ∃ priority, obj.getTagsPriority queried = .ok priority

/-- The server keeps running: the pool is configured without an exception. -/
def Tolerates (s : PoolSection) (id : Scalar) (tags tagsOnDemand : List YamlTag) : Prop :=
  ∃ obj log, (PoolObject.init id).fromDict (.dict s.entries) = .ok (obj, log) ∧
    s.Configures tags tagsOnDemand obj log

/-- What it takes: the tag options are missing, null or lists, a set can hold every name, and
every option is a quiet one after those in front of it. -/
structure Harmless (s : PoolSection) (tags tagsOnDemand : List YamlTag) : Prop where
  listed : ∀ key ∈ tagOptions, ∀ value, s.value? key = some value →
    value.type = .noneType ∨ value.type = .list
  hashable : ∀ tag ∈ tags ++ tagsOnDemand, tag.name.hashable = true
  quiet : ∀ before option after, s.entries = before ++ option :: after →
    Quiet (given before "tags") (given before "tags_on_demand") option

/-- An option is not in front of itself. -/
theorem new_of_split {before after : List (Scalar × Yaml)} {option : Scalar × Yaml}
    (h : s.entries = before ++ option :: after) : option.1 ∉ before.map Prod.fst := by
  have hnodup := s.nodup
  rw [h, List.map_append, List.map_cons] at hnodup
  intro hmem
  exact (List.disjoint_of_nodup_append hnodup) hmem List.mem_cons_self

/-- What holds of the tag attributes while the options are read. -/
theorem readSoFar_round (honce : ∀ option ∈ s.entries, SetsOnce option)
    (before : List (Scalar × Yaml)) (option : Scalar × Yaml) (after : List (Scalar × Yaml))
    (hsplit : s.entries = before ++ option :: after) (acc acc' : PoolObject × List ConfigWarning)
    (h : ReadSoFar before acc) (hreads : readOption acc option = .ok acc') :
    ReadSoFar (before ++ [option]) acc' := by
  apply h.readOption (new_of_split hsplit) _ hreads
  apply honce option
  rw [hsplit]
  exact List.mem_append_right before List.mem_cons_self

/-- What holds of them when all options have been read. -/
theorem readSoFar_end (honce : ∀ option ∈ s.entries, SetsOnce option) {id : Scalar}
    {acc : PoolObject × List ConfigWarning}
    (hloop : s.entries.foldlM readOption (PoolObject.init id, []) = .ok acc) :
    ReadSoFar s.entries acc :=
  foldlM_history (readSoFar_init id) (readSoFar_round honce) hloop

/-- The type of a tag option that has been read so far. -/
theorem given_type (h : ∀ value, s.value? key = some value →
      value.type = .noneType ∨ value.type = .list)
    {before after : List (Scalar × Yaml)} (hsplit : s.entries = before ++ after) :
    (given before key).type = .noneType ∨ (given before key).type = .list := by
  unfold given
  cases hlookup : before.lookup (.str key) with
  | none => exact Or.inr rfl
  | some value =>
      apply h value
      rw [value?, hsplit, List.lookup_append, hlookup]
      rfl

/-- A tag option after the normaliser. -/
theorem ListsEntries.normalizeOption (h : s.ListsEntries key tags)
    (htype : (given s.entries key).type = .noneType ∨ (given s.entries key).type = .list) :
    (given s.entries key).normalizeOption = .ok (.list (tags.map YamlTag.toYaml)) := by
  have hgiven : given s.entries key = (s.value? key).getD (.list []) := rfl
  rw [hgiven] at htype ⊢
  unfold ListsEntries at h
  split at h
  next items hvalue =>
    rw [hvalue]
    exact Yaml.normalizeTags_list h
  next hvalue =>
    subst h
    cases hfound : s.value? key with
    | none => rfl
    | some value =>
        rw [hfound] at htype
        rw [Yaml.type_eq_noneType, Yaml.type_eq_list] at htype
        rcases htype with hnull | ⟨items, hlist⟩
        · rw [Option.getD_some] at hnull ⊢
          subst hnull
          rfl
        · rw [Option.getD_some] at hlist
          exact absurd (hlist ▸ hfound) (hvalue items)

/-- The tags of an option are its entries. -/
theorem Lists.entries (h : s.Lists key tags) : s.ListsEntries key tags := by
  unfold Lists at h
  unfold ListsEntries
  split at h
  · exact h.1
  · exact h

/-- The priorities of the tags of an option. -/
theorem Lists.priority (h : s.Lists key tags) : ∀ tag ∈ tags, tag.priority ≠ none := by
  unfold Lists at h
  split at h
  · exact h.2
  · simp [h]

/-- When all options are read, if the tag options are missing, null or lists. -/
theorem loop_returns_iff (honce : ∀ option ∈ s.entries, SetsOnce option) (id : Scalar)
    (hlisted : ∀ key ∈ tagOptions, ∀ value, s.value? key = some value →
      value.type = .noneType ∨ value.type = .list) :
    (∃ acc, s.entries.foldlM readOption (PoolObject.init id, []) = .ok acc) ↔
      ∀ before option after, s.entries = before ++ option :: after →
        Quiet (given before "tags") (given before "tags_on_demand") option := by
  apply foldlM_returns_iff_history (readSoFar_init id) (readSoFar_round honce)
  intro before option after hsplit acc hread
  exact readOption_returns_iff (hread.attr "tags" (by decide))
    (hread.attr "tags_on_demand" (by decide))
    (given_type (hlisted "tags" (by decide)) hsplit)
    (given_type (hlisted "tags_on_demand" (by decide)) hsplit)

/-- A tolerated section lists its tags. -/
theorem Tolerates.listed {id : Scalar} (h : s.Tolerates id tags tagsOnDemand)
    (honce : ∀ option ∈ s.entries, SetsOnce option) :
    ∀ key ∈ tagOptions, ∀ value, s.value? key = some value →
      value.type = .noneType ∨ value.type = .list := by
  obtain ⟨obj, log, hreturns, hpool⟩ := h
  obtain ⟨acc, more, -, -, hnormal⟩ := fromDict_ok (fun acc => readSoFar_end honce) hreturns
  intro key hkey value hvalue
  have hgiven : given s.entries key = value := by
    rw [given, show s.entries.lookup (.str key) = some value from hvalue, Option.getD_some]
  have hend := hnormal key hkey
  rw [hgiven] at hend
  rcases List.mem_pair.mp hkey with rfl | rfl
  · exact Yaml.normalizeOption_type (hend.trans hpool.tags)
  · exact Yaml.normalizeOption_type (hend.trans hpool.tagsOnDemand)

/-- A tolerated section does no harm. -/
theorem Tolerates.harmless {id : Scalar} (h : s.Tolerates id tags tagsOnDemand)
    (honce : ∀ option ∈ s.entries, SetsOnce option) : s.Harmless tags tagsOnDemand := by
  have hlisted := h.listed honce
  obtain ⟨obj, log, hreturns, hpool⟩ := h
  obtain ⟨acc, more, hloop, -⟩ := fromDict_ok (fun acc => readSoFar_end honce) hreturns
  constructor
  · exact hlisted
  · exact (tagSet_toYaml_iff hpool.tags hpool.tagsOnDemand).mp hpool.tagSet
  · exact (loop_returns_iff honce id hlisted).mp ⟨acc, hloop⟩

/-- A section that does no harm is tolerated. -/
theorem Harmless.tolerates (h : s.Harmless tags tagsOnDemand) (id : Scalar)
    (htags : s.Lists "tags" tags) (hdemand : s.Lists "tags_on_demand" tagsOnDemand)
    (honce : ∀ option ∈ s.entries, SetsOnce option) : s.Tolerates id tags tagsOnDemand := by
  have hsplit : s.entries = s.entries ++ [] := (List.append_nil _).symm
  have hv := htags.entries.normalizeOption (given_type (h.listed "tags" (by decide)) hsplit)
  have hw := hdemand.entries.normalizeOption
    (given_type (h.listed "tags_on_demand" (by decide)) hsplit)
  obtain ⟨acc, hloop⟩ := (loop_returns_iff honce id h.listed).mpr h.quiet
  obtain ⟨obj, log, hreturns⟩ := fromDict_returns hloop (readSoFar_end honce hloop) hv hw
  obtain ⟨acc', more, hloop', rfl, hnormal⟩ :=
    fromDict_ok (fun acc => readSoFar_end honce) hreturns
  have hattr := (hnormal "tags" (by decide)).symm.trans hv
  have hattrDemand := (hnormal "tags_on_demand" (by decide)).symm.trans hw
  refine ⟨obj, acc'.2 ++ more, hreturns, hattr, hattrDemand, ?_, ?_, ?_, ?_⟩
  · intro key hkey value hvalue htype
    obtain ⟨name, hmem⟩ := (readSoFar_end honce hloop').reported key hkey value hvalue htype
    exact ⟨name, List.mem_append_left _ hmem⟩
  · exact ⟨_, tagsAll_toYaml hattr hattrDemand⟩
  · exact (tagSet_toYaml_iff hattr hattrDemand).mpr h.hashable
  · apply getTagsPriority_toYaml hattr hattrDemand h.hashable
    exact List.forall_mem_append.mpr ⟨htags.priority, hdemand.priority⟩

/-- A section does no harm, whatever the values of its tag options are, exactly if these are
missing, null or lists, a set can hold the names in them, and no other option stands for
something that cannot be evaluated or assigned. -/
theorem tolerates_iff (s : PoolSection) (id : Scalar) {tags tagsOnDemand : List YamlTag}
    (htags : s.Lists "tags" tags) (hdemand : s.Lists "tags_on_demand" tagsOnDemand)
    (honce : ∀ option ∈ s.entries, SetsOnce option) :
    s.Tolerates id tags tagsOnDemand ↔ s.Harmless tags tagsOnDemand := by
  constructor
  · exact fun h => h.harmless honce
  · exact fun h => h.tolerates id htags hdemand honce

/-- A tag option that is null, a list and an option that no pool has. -/
def basicSection : PoolSection where
  entries := [(.str "tags_on_demand", .scalar .null),
    (.str "tags", .list [.scalar (.str "x86_64"),
      .dict [(.str "name", .scalar (.str "builder")), (.str "priority", .scalar (.int 5))]]),
    (.str "colour", .scalar (.str "red"))]
  nodup := by decide

/-- The section does no harm. -/
theorem tolerates_basicSection :
    basicSection.Tolerates (.str "basic")
      [{ name := .scalar (.str "x86_64"), priority := some 0 },
        { name := .scalar (.str "builder"), priority := some 5 }] [] := by
  refine (tolerates_iff basicSection (.str "basic") ?_ ?_ ?_).mpr ⟨?_, ?_, ?_⟩
  · exact ⟨rfl, by simp⟩
  · rfl
  · simp [basicSection, SetsOnce]
  · intro key hkey value hvalue
    rcases List.mem_pair.mp hkey with rfl | rfl
    · obtain rfl := Option.some.inj hvalue
      exact Or.inr rfl
    · obtain rfl := Option.some.inj hvalue
      exact Or.inl rfl
  · simp [Yaml.hashable]
  · intro before option after hsplit
    have hmem : option ∈ basicSection.entries := by
      rw [hsplit]
      exact List.mem_append_right before List.mem_cons_self
    simp only [basicSection, List.mem_cons, List.not_mem_nil, or_false] at hmem
    rcases hmem with rfl | rfl | rfl
    · exact quiet_plain (by decide) (by decide) _ _ _
    · exact quiet_plain (by decide) (by decide) _ _ _
    · exact quiet_plain (by decide) (by decide) _ _ _

/-- A text where the list of tags should be. -/
def textSection : PoolSection where
  entries := [(.str "tags", .scalar (.str "x86_64"))]
  nodup := by decide

/-- The text is reported as ignored, but it is kept and handed to the normaliser, which fails
when it replaces the contents. -/
theorem not_tolerates_text :
    (textSection.Lists "tags" [] ∧ textSection.Lists "tags_on_demand" [] ∧
        ∀ option ∈ textSection.entries, SetsOnce option) ∧
      (PoolObject.init (.str "basic")).fromDict (.dict textSection.entries) = .error .typeError ∧
      ¬textSection.Tolerates (.str "basic") [] [] := by
  have hraises : (PoolObject.init (.str "basic")).fromDict (.dict textSection.entries) =
      .error .typeError := rfl
  refine ⟨⟨rfl, rfl, ?_⟩, hraises, ?_⟩
  · simp [textSection, SetsOnce]
  · rintro ⟨obj, log, hreturns, -⟩
    rw [hraises] at hreturns
    contradiction

end PoolSection

end Resalloc
