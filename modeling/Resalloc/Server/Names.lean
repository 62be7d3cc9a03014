import Mathlib.Data.Finset.Card
import Resalloc.Server.Invariants

/-!
# Names of resources

The name of a resource is its pool's {lit}`name_pattern` with the fields filled in.
{lit}`careful_string_format` is written as a loop that meets one unknown field in each
round and stores a filler for it, but the loop is left after its first round.  This
file compares it with the text that the fillers would give.

Main results:

- Theorem {lit}`formatRounds_eq`: how many rounds a pattern needs, and the text they
  return.
- Theorem {lit}`carefulStringFormat_fills_iff`: the patterns of which one round is
  enough, and the resources that get a name.
-/

namespace Resalloc

open Foundations

/-! ## The filled pattern -/

/-- The named fields of a pattern. -/
def fieldKeys : List PatternPart → List String
  | [] => []
  | .text _ :: rest => fieldKeys rest
  | .field key :: rest => key :: fieldKeys rest

/-- The filler that the handler stores for a missing key. -/
def filler (key : String) : String := key

/-- The filler is {lit}`'{key}'.format(key=key)`. -/
theorem formatPattern_filler (key : String) :
    formatPattern [.field "key"] [("key", key)] = .ok (filler key) := by
  simp [formatPattern, filler]

/-- The pattern with the value of every known field, and with the filler of every
other one. -/
def fillPattern (pattern : List PatternPart) (fillDict : List (String × String)) : String :=
  match pattern with
  | [] => ""
  | .text s :: rest => s ++ fillPattern rest fillDict
  | .field key :: rest =>
      (fillDict.lookup key).getD (filler key) ++ fillPattern rest fillDict

/-- Fields of a pattern that a dictionary does not know. -/
def unknownKeys (pattern : List PatternPart) (fillDict : List (String × String)) :
    Finset String :=
  (fieldKeys pattern).toFinset \ (fillDict.map Prod.fst).toFinset

variable {pattern rest : List PatternPart} {fillDict : List (String × String)}
variable {key datetime : String}

@[simp]
theorem mem_unknownKeys :
    key ∈ unknownKeys pattern fillDict ↔
      key ∈ fieldKeys pattern ∧ key ∉ fillDict.map Prod.fst := by
  simp [unknownKeys]

theorem unknownKeys_eq_empty :
    unknownKeys pattern fillDict = ∅ ↔ ∀ key ∈ fieldKeys pattern, key ∈ fillDict.map Prod.fst := by
  simp [unknownKeys, Finset.subset_iff]

/-- A dictionary gives a value to its keys only. -/
theorem lookup_none : fillDict.lookup key = none ↔ key ∉ fillDict.map Prod.fst := by
  rw [List.lookup_eq_none_iff]
  constructor
  · intro h hmem
    obtain ⟨entry, hentry, rfl⟩ := List.mem_map.mp hmem
    simpa using h entry hentry
  · intro h entry hentry
    rw [bne_iff_ne]
    rintro rfl
    exact h (List.mem_map_of_mem hentry)

/-- Formatting raises the name of a field that the dictionary does not know. -/
theorem formatPattern_error (h : formatPattern pattern fillDict = .error key) :
    key ∈ unknownKeys pattern fillDict := by
  induction pattern with
  | nil => simp [formatPattern] at h
  | cons part rest ih =>
      cases part with
      | text s =>
          simp only [formatPattern] at h
          split at h
          next => contradiction
          next missing hrest =>
            obtain rfl := Except.error.inj h
            simpa [fieldKeys] using ih hrest
      | field name =>
          simp only [formatPattern] at h
          split at h
          next hname =>
            obtain rfl := Except.error.inj h
            simpa [fieldKeys] using lookup_none.mp hname
          next value hname =>
            split at h
            next => contradiction
            next missing hrest =>
              obtain rfl := Except.error.inj h
              have hmem := mem_unknownKeys.mp (ih hrest)
              exact mem_unknownKeys.mpr ⟨List.mem_cons_of_mem _ hmem.1, hmem.2⟩

/-- Formatting returns the filled pattern, and needs all its fields. -/
theorem formatPattern_ok {s : String} (h : formatPattern pattern fillDict = .ok s) :
    unknownKeys pattern fillDict = ∅ ∧ s = fillPattern pattern fillDict := by
  rw [unknownKeys_eq_empty]
  induction pattern generalizing s with
  | nil =>
      obtain rfl := Except.ok.inj h
      simp [fieldKeys, fillPattern]
  | cons part rest ih =>
      cases part with
      | text literal =>
          simp only [formatPattern] at h
          split at h
          next tail hrest =>
            obtain rfl := Except.ok.inj h
            obtain ⟨hkeys, rfl⟩ := ih hrest
            exact ⟨hkeys, rfl⟩
          next => contradiction
      | field name =>
          simp only [formatPattern] at h
          split at h
          next => contradiction
          next value hname =>
            split at h
            next tail hrest =>
              obtain rfl := Except.ok.inj h
              obtain ⟨hkeys, rfl⟩ := ih hrest
              constructor
              · rw [fieldKeys]
                refine List.forall_mem_cons.mpr ⟨?_, hkeys⟩
                by_contra hmem
                simp [lookup_none.mpr hmem] at hname
              · simp [fillPattern, hname]
            next => contradiction

/-! ## The loop -/

/-- The loop of {lit}`careful_string_format`, left after at most the given number of
rounds: a round that meets an unknown field stores its filler. -/
def formatRounds (pattern : List PatternPart) : ℕ → List (String × String) → Option String
  | 0, _ => none
  | rounds + 1, fillDict =>
      match formatPattern pattern fillDict with
      | .ok result => some result
      | .error key => formatRounds pattern rounds ((key, filler key) :: fillDict)

/-- The source leaves the loop after its first round. -/
theorem carefulStringFormat_eq_formatRounds (pattern : List PatternPart)
    (fillDict : List (String × String)) (datetime : String) :
    carefulStringFormat pattern fillDict datetime =
      formatRounds pattern 1 (("datetime", datetime) :: fillDict) := by
  rw [carefulStringFormat, formatRounds]
  cases formatPattern pattern (("datetime", datetime) :: fillDict) <;> rfl

/-- A stored filler makes one field known. -/
theorem unknownKeys_cons (key : String) :
    unknownKeys pattern ((key, filler key) :: fillDict) =
      (unknownKeys pattern fillDict).erase key := by
  ext name
  simp only [mem_unknownKeys, List.map_cons, List.mem_cons, Finset.mem_erase]
  tauto

/-- A stored filler is what the filled pattern has in its place already. -/
theorem fillPattern_cons (h : key ∉ fillDict.map Prod.fst) :
    fillPattern pattern ((key, filler key) :: fillDict) = fillPattern pattern fillDict := by
  induction pattern with
  | nil => rfl
  | cons part rest ih =>
      cases part with
      | text s => simp [fillPattern, ih]
      | field name =>
          by_cases hname : name = key
          · subst hname
            simp [fillPattern, ih, lookup_none.mpr h]
          · have hne : (name == key) = false := by simpa using hname
            simp [fillPattern, ih, List.lookup_cons, hne]

/-- Each unknown field takes one round, and the last round returns the filled
pattern. -/
theorem formatRounds_eq (pattern : List PatternPart) (rounds : ℕ)
    (fillDict : List (String × String)) :
    formatRounds pattern rounds fillDict =
      if (unknownKeys pattern fillDict).card < rounds then some (fillPattern pattern fillDict)
      else none := by
  induction rounds generalizing fillDict with
  | zero => simp [formatRounds]
  | succ rounds ih =>
      rw [formatRounds]
      split
      next result hok =>
        obtain ⟨hempty, rfl⟩ := formatPattern_ok hok
        simp [hempty]
      next key herror =>
        have hmem := formatPattern_error herror
        have hcard := Finset.card_erase_add_one hmem
        rw [ih, unknownKeys_cons, fillPattern_cons (mem_unknownKeys.mp hmem).2]
        congr 1
        simp only [eq_iff_iff]
        omega

/-- One round is enough for a pattern without unknown fields. -/
theorem carefulStringFormat_eq (pattern : List PatternPart) (fillDict : List (String × String))
    (datetime : String) :
    carefulStringFormat pattern fillDict datetime =
      if ∀ key ∈ fieldKeys pattern, key ∈ "datetime" :: fillDict.map Prod.fst then
        some (fillPattern pattern (("datetime", datetime) :: fillDict))
      else none := by
  rw [carefulStringFormat_eq_formatRounds, formatRounds_eq]
  simp only [Nat.lt_one_iff, Finset.card_eq_zero, unknownKeys_eq_empty, List.map_cons]

/-! ## Names in the database -/

/-- The values that {lit}`allocate` fills a name pattern with. -/
def Pool.nameDict (p : Pool) (id : ResourceId) (datetime : String) : List (String × String) :=
  [("datetime", datetime), ("id", zfill id 8), ("pool_name", p.name)]

/-- The name of a new resource, which is null if the pattern has an unknown field. -/
theorem allocate_name {p : Pool} {now importTime : Time} {db db' : Db} {id : ResourceId}
    (h : p.allocate now importTime datetime db = .ok (db', id)) :
    (db'.resources.get? id).bind Resource.name =
      if ∀ key ∈ fieldKeys p.namePattern, key ∈ ["datetime", "id", "pool_name"] then
        some (fillPattern p.namePattern (p.nameDict id datetime))
      else none := by
  obtain ⟨-, -, hrows⟩ := allocate_rows h
  rw [hrows, if_pos rfl, Option.bind_some, carefulStringFormat_eq]
  rfl

/-- The loop fills exactly the patterns without unknown fields, and a new resource has
a name if and only if its pool has such a pattern. -/
theorem carefulStringFormat_fills_iff (pattern : List PatternPart)
    (fillDict : List (String × String)) (datetime : String) :
    (carefulStringFormat pattern fillDict datetime =
        some (fillPattern pattern (("datetime", datetime) :: fillDict)) ↔
      ∀ key ∈ fieldKeys pattern, key ∈ "datetime" :: fillDict.map Prod.fst) ∧
    ∀ (p : Pool) (now importTime : Time) (db db' : Db) (id : ResourceId),
      p.namePattern = pattern → p.allocate now importTime datetime db = .ok (db', id) →
      ((db'.resources.get? id).bind Resource.name =
          some (fillPattern pattern (p.nameDict id datetime)) ↔
        ∀ key ∈ fieldKeys pattern, key ∈ ["datetime", "id", "pool_name"]) := by
  constructor
  · rw [carefulStringFormat_eq, Option.ite_none_right_eq_some, and_iff_left rfl]
  · rintro p now importTime db db' id rfl h
    rw [allocate_name h, Option.ite_none_right_eq_some, and_iff_left rfl]

section Runs

open World

/-- A database with the row of the basic pool. -/
def basicDb : Db := { pools := [{ name := "basic" }] }

/-- The default pattern has known fields only. -/
theorem carefulStringFormat_fills_basicPool :
    ∃ db' id, basicPool.allocate 10 0 "20240101_120000" basicDb = .ok (db', id) ∧
      (db'.resources.get? id).bind Resource.name =
        some (fillPattern basicPool.namePattern (basicPool.nameDict id "20240101_120000")) := by
  refine ⟨_, _, rfl, ?_⟩
  exact ((carefulStringFormat_fills_iff basicPool.namePattern [] "20240101_120000").2 basicPool 10 0
    basicDb _ _ rfl rfl).mpr (by decide)

/-- A pool whose name pattern has a field that {lit}`allocate` does not know. -/
def clusterPool : Pool :=
  { basicPool with namePattern := [.field "pool_name", .text "_", .field "cluster"] }

/-- An unknown field makes the loop return nothing, and the name null. -/
theorem carefulStringFormat_unfilled :
    (¬ ∀ pattern fillDict datetime, ∃ s, carefulStringFormat pattern fillDict datetime = some s) ∧
      ∃ db' id r, clusterPool.allocate 10 0 "20240101_120000" basicDb = .ok (db', id) ∧
        db'.resources.get? id = some r ∧ r.name = none := by
  constructor
  · intro h
    obtain ⟨s, hs⟩ := h clusterPool.namePattern [("pool_name", "basic")] "20240101_120000"
    contradiction
  · exact ⟨_, _, _, rfl, rfl, rfl⟩

end Runs

end Resalloc
