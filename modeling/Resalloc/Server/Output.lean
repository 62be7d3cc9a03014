import Mathlib.Algebra.Order.BigOperators.Group.Finset
import Mathlib.Logic.Function.Basic
import Resalloc.Foundations.Lines
import Resalloc.Foundations.Runs

/-!
# Reading the output of commands

The generator {lit}`yield_lines_from_fds` reads several descriptors in the order in which
{lit}`select` reports them, and it yields their lines.  Its environment decides which
descriptors are reported, how many bytes a read returns and whether the time runs out.

Main results:

- Theorem {lit}`takeLines_eq`: the inner loop cuts the buffer.
- Theorem {lit}`Generator.step_cases`: what one step can do.
- Theorem {lit}`Generator.Reads.step`: how buffers, unread bytes and yielded lines relate.
- Theorem {lit}`Generator.path_length_le`: every run is finite.
- Theorem {lit}`Generator.yields_lossless`: without a limit, each stream is cut into its
  lines.
-/

namespace Resalloc

open Foundations

/-! ## The generator -/

/-- A file descriptor. -/
abbrev Fd := ℕ

/-- A {lit}`bytes` object. -/
abbrev Bytes := List UInt8

/-- The byte {lit}`b"\n"`. -/
def newline : UInt8 := 10

/-- The exceptions of the generator. -/
inductive ReadError
  /-- The deadline is over, maybe noticed by {lit}`select`. -/
  | timeoutError (onRead : Bool)
  | lineBufferOverflow (fd : Fd) (maxLineLength : ℕ)
deriving DecidableEq

/-- The text of an exception. -/
def ReadError.text (timeout : ℕ) : ReadError → String
  | .timeoutError false => s!"timeouted after {timeout}s"
  | .timeoutError true => s!"timeouted after {timeout}s (on read)"
  | .lineBufferOverflow fd maxLineLength => s!"line on fd {fd} exceeded {maxLineLength} bytes"

/-- {lit}`split(b"\n", 1)` of bytes with a newline. -/
def splitNewline (buffer : Bytes) : Bytes × Bytes :=
  (buffer.takeWhile fun byte => byte ≠ newline, (buffer.dropWhile fun byte => byte ≠ newline).tail)

/-- The lines that the inner loop takes from a buffer, and the buffer after it.  Each
round shortens the buffer. -/
def takeLines (buffer : Bytes) : List Bytes × Bytes :=
  go buffer.length buffer
where
  /-- The rounds of the loop. -/
  go : ℕ → Bytes → List Bytes × Bytes
  | 0, buffer => ([], buffer)
  | rounds + 1, buffer =>
      if newline ∈ buffer then
        let (line, buffer) := splitNewline buffer
        let (lines, buffer) := go rounds buffer
        ((line ++ [newline]) :: lines, buffer)
      else ([], buffer)

/-- How many bytes are requested from a descriptor; {lean}`none` if the line is already
too long. -/
def readLimit (maxLineLength : Option ℕ) (buffer : Bytes) : Option ℕ :=
  match maxLineLength with
  | none | some 0 => some 4096
  | some maxLineLength =>
      let capacity := maxLineLength - buffer.length
      if capacity = 0 then none else some (min 4096 capacity)

/-- The local variables of the generator, the bytes that its descriptors still deliver,
and what it has yielded or raised. -/
structure Generator where
  buffers : Fd → Bytes
  activeFds : Finset Fd
  /-- The descriptors that the inner loop has still to read. -/
  ready : List Fd := []
  unread : Fd → Bytes
  yielded : List (Fd × Bytes) := []
  error : Option ReadError := none

/-- What the environment decides. -/
inductive ReadAction
  /-- {lit}`select` returns. -/
  | select (ready : List Fd)
  /-- {lit}`os.read` returns this many bytes, or fewer at the end of the stream. -/
  | read (size : ℕ)
  /-- The deadline is over, before {lit}`select` or in it. -/
  | expire (onRead : Bool)
deriving DecidableEq

namespace Generator

/-- The generator before its first round. -/
def start (fds : List Fd) (streams : Fd → Bytes) : Generator :=
  { buffers := fun _ => [], activeFds := fds.toFinset, unread := streams }

/-- A descriptor has delivered some bytes. -/
def receive (g : Generator) (fd : Fd) (rest : List Fd) (chunk left : Bytes) : Generator :=
  let (lines, buffer) := takeLines (g.buffers fd ++ chunk)
  { g with
    buffers := Function.update g.buffers fd buffer
    ready := rest
    unread := Function.update g.unread fd left
    yielded := g.yielded ++ lines.map fun line => (fd, line) }

/-- A descriptor is at its end. -/
def close (g : Generator) (fd : Fd) (rest : List Fd) : Generator :=
  { g with
    activeFds := g.activeFds.erase fd
    ready := rest
    yielded := g.yielded ++ if g.buffers fd = [] then [] else [(fd, g.buffers fd)] }

/-- The next step of the generator; {lean}`none` if it has ended, or if the environment
cannot do that. -/
def step (maxLineLength : Option ℕ) (g : Generator) (a : ReadAction) : Option Generator :=
  if g.error ≠ none then none
  else
    match g.ready, a with
    | [], .select ready =>
        if ready ≠ [] ∧ ready.Nodup ∧ ∀ fd ∈ ready, fd ∈ g.activeFds then
          some { g with ready := ready }
        else none
    | [], .expire onRead =>
        if g.activeFds = ∅ then none else some { g with error := some (.timeoutError onRead) }
    | fd :: rest, .read size =>
        match readLimit maxLineLength (g.buffers fd) with
        | none => some { g with error := some (.lineBufferOverflow fd (maxLineLength.getD 0)) }
        | some limit =>
            if 0 < size ∧ size ≤ limit then
              match (g.unread fd).take size with
              | [] => some (g.close fd rest)
              | byte :: chunk =>
                  some (g.receive fd rest (byte :: chunk) ((g.unread fd).drop size))
            else none
    | _, _ => none

/-- The generator has ended, normally or with an exception. -/
def Ended (g : Generator) : Prop :=
  g.error ≠ none ∨ g.ready = [] ∧ g.activeFds = ∅

/-- The time does not run out. -/
def NoTimeout (_ : Generator) (a : ReadAction) : Prop :=
  a ≠ .expire false ∧ a ≠ .expire true

instance (g : Generator) (a : ReadAction) : Decidable (NoTimeout g a) :=
  inferInstanceAs (Decidable (_ ∧ _))

/-- The lines that are yielded for a descriptor. -/
def linesOf (g : Generator) (fd : Fd) : List Bytes :=
  g.yielded.filterMap fun e => if e.1 = fd then some e.2 else none

end Generator

/-! ## Buffers -/

/-- The first newline of a buffer is split off. -/
theorem splitNewline_line {body : Bytes} (h : newline ∉ body) (rest : Bytes) :
    splitNewline (body ++ newline :: rest) = (body, rest) := by
  have hbody : ∀ byte ∈ body, decide (byte ≠ newline) = true := by
    intro byte hbyte
    rw [decide_eq_true_eq]
    rintro rfl
    exact h hbyte
  rw [splitNewline, List.takeWhile_append_of_pos hbody, List.dropWhile_append_of_pos hbody]
  simp

/-- The inner loop cuts the buffer. -/
theorem takeLines_eq (buffer : Bytes) :
    takeLines buffer = (completeLines newline buffer, lastLine newline buffer) := by
  have hrounds : ∀ rounds, buffer.length ≤ rounds →
      takeLines.go rounds buffer = (completeLines newline buffer, lastLine newline buffer) := by
    induction buffer using linesRec newline with
    | rest buffer h =>
        intro rounds _
        cases rounds <;> simp [takeLines.go, h, completeLines_of_not_mem, lastLine_of_not_mem]
    | line body buffer h ih =>
        intro rounds hle
        rw [List.length_append, List.length_cons] at hle
        cases rounds with
        | zero => omega
        | succ rounds =>
            have hmem : newline ∈ body ++ newline :: buffer := by simp
            simp only [takeLines.go, if_pos hmem, splitNewline_line h]
            rw [ih rounds (by omega), completeLines_line h, lastLine_line]
  exact hrounds buffer.length le_rfl

/-- A read is refused if the buffer has no room for another byte. -/
theorem readLimit_none {maxLineLength : Option ℕ} {buffer : Bytes} :
    readLimit maxLineLength buffer = none ↔
      ∃ limit, maxLineLength = some limit ∧ 0 < limit ∧ limit ≤ buffer.length := by
  unfold readLimit
  split
  · simp
  · simp
  next limit hlimit =>
    have hpos : 0 < limit := Nat.pos_of_ne_zero hlimit
    simp only [ite_eq_left_iff, reduceCtorEq, imp_false, not_not, Option.some.injEq,
      exists_eq_left', hpos, true_and]
    omega

/-- A read does not ask for more than the buffer has room for. -/
theorem readLimit_some {maxLineLength : Option ℕ} {buffer : Bytes} {size : ℕ}
    (h : readLimit maxLineLength buffer = some size) :
    0 < size ∧ ∀ limit, maxLineLength = some limit → 0 < limit → buffer.length + size ≤ limit := by
  unfold readLimit at h
  split at h
  · obtain rfl := Option.some.inj h
    simp
  · obtain rfl := Option.some.inj h
    simp
  next limit hlimit =>
    simp only at h
    split_ifs at h
    obtain rfl := Option.some.inj h
    constructor
    · omega
    · rintro _ ⟨⟩ hpos
      omega

namespace Generator

variable {m : Option ℕ} {g g' : Generator} {a : ReadAction} {as : List ReadAction} {fd other : Fd}
variable {rest fds : List Fd} {chunk left : Bytes} {streams : Fd → Bytes}

/-! ## Steps -/

/-- What the next step of the generator can do. -/
inductive Steps (m : Option ℕ) (g : Generator) : ReadAction → Generator → Prop
  | select {ready : List Fd} : g.ready = [] → ready ≠ [] → ready.Nodup →
      (∀ fd ∈ ready, fd ∈ g.activeFds) → Steps m g (.select ready) { g with ready := ready }
  | expire (onRead : Bool) : g.ready = [] → g.activeFds ≠ ∅ →
      Steps m g (.expire onRead) { g with error := some (.timeoutError onRead) }
  | overflow {fd : Fd} {rest : List Fd} {limit : ℕ} (size : ℕ) : g.ready = fd :: rest →
      m = some limit → 0 < limit → limit ≤ (g.buffers fd).length →
      Steps m g (.read size) { g with error := some (.lineBufferOverflow fd limit) }
  | receive {fd : Fd} {rest : List Fd} {chunk left : Bytes} (size : ℕ) : g.ready = fd :: rest →
      chunk ≠ [] → g.unread fd = chunk ++ left →
      (∀ limit, m = some limit → 0 < limit → (g.buffers fd ++ chunk).length ≤ limit) →
      Steps m g (.read size) (g.receive fd rest chunk left)
  | close {fd : Fd} {rest : List Fd} (size : ℕ) : g.ready = fd :: rest → g.unread fd = [] →
      Steps m g (.read size) (g.close fd rest)

/-- The outcomes of a step, which is made only if nothing has been raised. -/
theorem step_cases (h : step m g a = some g') : g.error = none ∧ Steps m g a g' := by
  unfold step at h
  by_cases herror : g.error = none
  swap
  · simp [herror] at h
  refine ⟨herror, ?_⟩
  rw [if_neg (not_not.mpr herror)] at h
  split at h
  next ready hready =>
    split_ifs at h with hselect
    obtain rfl := Option.some.inj h
    exact .select hready hselect.1 hselect.2.1 hselect.2.2
  next onRead hready =>
    split_ifs at h with hactive
    obtain rfl := Option.some.inj h
    exact .expire onRead hready hactive
  next fd rest size hready =>
    split at h
    next hlimit =>
      obtain ⟨limit, rfl, hpos, hle⟩ := readLimit_none.mp hlimit
      obtain rfl := Option.some.inj h
      exact .overflow size hready rfl hpos hle
    next bound hlimit =>
      obtain ⟨-, hroom⟩ := readLimit_some hlimit
      split_ifs at h with hsize
      split at h
      next hnil =>
        obtain rfl := Option.some.inj h
        refine .close size hready ?_
        rcases List.take_eq_nil_iff.mp hnil with hzero | hempty
        · omega
        · exact hempty
      next byte chunk htake =>
        obtain rfl := Option.some.inj h
        refine .receive size hready (List.cons_ne_nil _ _) ?_ ?_
        · rw [← htake, List.take_append_drop]
        · intro limit hm hpos
          have hle := hroom limit hm hpos
          have hlength := List.length_take_le size (g.unread fd)
          rw [htake] at hlength
          rw [List.length_append]
          omega
  next => contradiction

/-- Lines of one descriptor, seen from an arbitrary descriptor. -/
theorem filterMap_lines (fd other : Fd) (lines : List Bytes) :
    ((lines.map fun line => (other, line)).filterMap fun e => if e.1 = fd then some e.2 else none) =
      if other = fd then lines else [] := by
  induction lines with
  | nil => simp
  | cons line lines ih =>
      by_cases hfd : other = fd
      · simp [hfd]
      · simp [hfd]

/-- The outputs after a chunk. -/
theorem receive_yielded (g : Generator) (fd : Fd) (rest : List Fd) (chunk left : Bytes) :
    (g.receive fd rest chunk left).yielded =
      g.yielded ++ (completeLines newline (g.buffers fd ++ chunk)).map fun line => (fd, line) := by
  rw [receive, takeLines_eq]

/-- The lines yielded after a chunk. -/
theorem receive_linesOf (g : Generator) (fd other : Fd) (rest : List Fd) (chunk left : Bytes) :
    (g.receive fd rest chunk left).linesOf other =
      g.linesOf other ++
        if fd = other then completeLines newline (g.buffers fd ++ chunk) else [] := by
  rw [linesOf, receive_yielded, List.filterMap_append, filterMap_lines]
  rfl

/-- The lines yielded at the end of a stream. -/
theorem close_linesOf (g : Generator) (fd other : Fd) (rest : List Fd) :
    (g.close fd rest).linesOf other =
      g.linesOf other ++
        if fd = other then (if g.buffers fd = [] then [] else [g.buffers fd]) else [] := by
  simp only [close, linesOf, List.filterMap_append]
  by_cases hbuffer : g.buffers fd = []
  · simp [hbuffer]
  · rw [if_neg hbuffer]
    by_cases hfd : fd = other
    · subst hfd
      simp [hbuffer]
    · simp [hfd]

/-! ## Runs -/

/-- The bytes a descriptor has delivered are the yielded lines and its buffer, and a
descriptor at its end has yielded all its lines. -/
structure Reads (fds : List Fd) (streams : Fd → Bytes) (g : Generator) : Prop where
  nodup : g.ready.Nodup
  ready : ∀ fd ∈ g.ready, fd ∈ g.activeFds
  known : ∀ fd ∈ g.activeFds, fd ∈ fds
  active : ∀ fd ∈ g.activeFds, ∃ seen, streams fd = seen ++ g.unread fd ∧
    g.buffers fd = lastLine newline seen ∧ g.linesOf fd = completeLines newline seen
  closed : ∀ fd ∈ fds, fd ∉ g.activeFds → g.linesOf fd = cutLines newline (streams fd)

/-- It holds before the first round. -/
theorem reads_start (fds : List Fd) (streams : Fd → Bytes) :
    Reads fds streams (start fds streams) := by
  constructor
  · exact List.nodup_nil
  · simp [start]
  · simp [start]
  · intro fd _
    exact ⟨[], by simp [start], rfl, rfl⟩
  · intro fd hfd hend
    exact absurd (List.mem_toFinset.mpr hfd) hend

/-- Every step keeps it. -/
theorem Reads.step (h : Reads fds streams g) (hstep : step m g a = some g') :
    Reads fds streams g' := by
  obtain ⟨hnodup, hready, hfds, hactive, hclosed⟩ := h
  obtain ⟨-, hsteps⟩ := step_cases hstep
  cases hsteps with
  | select _ _ hnodup' hready' => exact ⟨hnodup', hready', hfds, hactive, hclosed⟩
  | expire | overflow => exact ⟨hnodup, hready, hfds, hactive, hclosed⟩
  | @receive fd rest chunk left size hnext hchunk hunread hroom =>
      rw [hnext, List.nodup_cons] at hnodup
      have hother : ∀ other ∈ g.activeFds, other ∈ (g.receive fd rest chunk left).activeFds :=
        fun other hmem => hmem
      refine ⟨hnodup.2, fun other hmem => ?_, hfds, fun other hmem => ?_, fun other hmem hend => ?_⟩
      · exact hready other (by simp [hnext, show other ∈ rest from hmem])
      · obtain ⟨seen, hstream, hbuffer, hlines⟩ := hactive other hmem
        rw [receive_linesOf, hlines]
        by_cases hfd : fd = other
        · subst hfd
          refine ⟨seen ++ chunk, ?_, ?_, ?_⟩
          · simp [receive, hstream, hunread]
          · simp [receive, takeLines_eq, hbuffer, lastLine_append seen chunk]
          · rw [if_pos rfl, completeLines_append seen chunk, hbuffer]
        · have hne : other ≠ fd := Ne.symm hfd
          refine ⟨seen, ?_, ?_, ?_⟩
          · simp [receive, hne, hstream]
          · simp [receive, hne, hbuffer]
          · rw [if_neg hfd, List.append_nil]
      · have hfd : fd ≠ other := by
          rintro rfl
          exact hend (hready fd (by simp [hnext]))
        rw [receive_linesOf, if_neg hfd, List.append_nil]
        exact hclosed other hmem hend
  | @close fd rest size hnext hunread =>
      rw [hnext, List.nodup_cons] at hnodup
      refine ⟨hnodup.2, fun other hmem => ?_, fun other hmem => ?_, fun other hmem => ?_,
        fun other hmem hend => ?_⟩
      · have hne : other ≠ fd := by
          rintro rfl
          exact hnodup.1 hmem
        have hother : other ∈ g.ready := by simp [hnext, show other ∈ rest from hmem]
        exact Finset.mem_erase.mpr ⟨hne, hready other hother⟩
      · exact hfds other (Finset.mem_of_mem_erase hmem)
      · obtain ⟨hne, hmem⟩ := Finset.mem_erase.mp hmem
        obtain ⟨seen, hstream, hbuffer, hlines⟩ := hactive other hmem
        refine ⟨seen, hstream, hbuffer, ?_⟩
        rw [close_linesOf, if_neg (Ne.symm hne), List.append_nil, hlines]
      · rw [close_linesOf]
        by_cases hfd : fd = other
        · subst hfd
          obtain ⟨seen, hstream, hbuffer, hlines⟩ := hactive fd (hready fd (by simp [hnext]))
          rw [hunread, List.append_nil] at hstream
          rw [if_pos rfl, hstream, hlines, hbuffer]
          rfl
        · rw [if_neg hfd, List.append_nil]
          refine hclosed other hmem fun hactive => hend ?_
          exact Finset.mem_erase.mpr ⟨Ne.symm hfd, hactive⟩

/-- It holds in every run. -/
theorem reads_of_path {ok : Generator → ReadAction → Prop}
    (hrun : Path (Generator.step m) ok (start fds streams) as g) : Reads fds streams g :=
  hrun.invariant (reads_start fds streams) fun _ _ _ h _ hstep => h.step hstep

/-! ## Every run ends -/

/-- What the descriptors have still to deliver, their ends included. -/
def toRead (g : Generator) : ℕ := ∑ fd ∈ g.activeFds, ((g.unread fd).length + 1)

/-- A bound for the number of steps that are left. -/
def stepsLeft (g : Generator) : ℕ :=
  if g.error = none then 2 * g.toRead + if g.ready = [] then 1 else 0 else 0

/-- A chunk is not read again. -/
theorem receive_toRead (hactive : fd ∈ g.activeFds) (hchunk : chunk ≠ [])
    (hunread : g.unread fd = chunk ++ left) :
    (g.receive fd rest chunk left).toRead < g.toRead := by
  have hlength := List.length_pos_iff.mpr hchunk
  apply Finset.sum_lt_sum
  · intro other _
    by_cases hfd : other = fd
    · subst hfd
      simp [receive, hunread]
    · simp [receive, hfd]
  · refine ⟨fd, hactive, ?_⟩
    simp [receive, hunread, hlength]

/-- A closed descriptor is not read again. -/
theorem close_toRead (hactive : fd ∈ g.activeFds) : (g.close fd rest).toRead < g.toRead := by
  have hsum := Finset.sum_erase_add g.activeFds (fun fd => (g.unread fd).length + 1) hactive
  simp only [toRead, close]
  omega

/-- The bound before the next round of the outer loop. -/
theorem stepsLeft_le (g : Generator) : g.stepsLeft ≤ 2 * g.toRead + 1 := by
  unfold stepsLeft
  split_ifs <;> omega

/-- The bound in the inner loop. -/
theorem stepsLeft_of_ready (herror : g.error = none) (hready : g.ready = fd :: rest) :
    g.stepsLeft = 2 * g.toRead := by
  simp [stepsLeft, herror, hready]

/-- Every step brings the end nearer. -/
theorem Reads.stepsLeft_lt (h : Reads fds streams g) (hstep : Generator.step m g a = some g') :
    g'.stepsLeft < g.stepsLeft := by
  obtain ⟨herror, hsteps⟩ := step_cases hstep
  cases hsteps with
  | select hnext hne => simp [stepsLeft, toRead, herror, hnext, hne]
  | expire onRead hnext => simp [stepsLeft, herror, hnext]
  | @overflow fd rest _ _ hnext =>
      have hactive := h.ready fd (by simp [hnext])
      have hpos : 0 < g.toRead := Finset.sum_pos (fun _ _ => Nat.succ_pos _) ⟨fd, hactive⟩
      rw [stepsLeft_of_ready herror hnext]
      simp only [stepsLeft, reduceCtorEq, if_false]
      omega
  | @receive fd rest chunk left _ hnext hchunk hunread =>
      have hlt : (g.receive fd rest chunk left).toRead < g.toRead :=
        receive_toRead (h.ready fd (by simp [hnext])) hchunk hunread
      have hle := (g.receive fd rest chunk left).stepsLeft_le
      rw [stepsLeft_of_ready herror hnext]
      omega
  | @close fd rest _ hnext =>
      have hlt : (g.close fd rest).toRead < g.toRead :=
        close_toRead (h.ready fd (by simp [hnext]))
      have hle := (g.close fd rest).stepsLeft_le
      rw [stepsLeft_of_ready herror hnext]
      omega

/-- A run is not longer than the streams require. -/
theorem path_length_le {ok : Generator → ReadAction → Prop}
    (hrun : Path (Generator.step m) ok (start fds streams) as g) :
    as.length ≤ 2 * ∑ fd ∈ fds.toFinset, ((streams fd).length + 1) + 1 := by
  have hbudget := (@Path.budget _ _ _ _ _ _ _ (Reads fds streams) stepsLeft (fun _ => true) hrun
    (reads_start fds streams) fun u a v hu _ hstep =>
      ⟨hu.step hstep, hu.stepsLeft_lt hstep⟩).2
  have hstart : (start fds streams).stepsLeft =
      2 * ∑ fd ∈ fds.toFinset, ((streams fd).length + 1) + 1 := by
    simp [stepsLeft, toRead, start]
  rw [hstart, List.countP_true] at hbudget
  omega

/-- One active descriptor is reported. -/
theorem step_select (herror : g.error = none) (hready : g.ready = []) (hfd : fd ∈ g.activeFds) :
    Generator.step m g (.select [fd]) = some { g with ready := [fd] } := by
  simp [Generator.step, herror, hready, hfd]

/-- A byte is read from the next descriptor. -/
theorem step_read_byte {limit : ℕ} {byte : UInt8} (herror : g.error = none)
    (hready : g.ready = fd :: rest) (hlimit : readLimit m (g.buffers fd) = some limit)
    (hunread : g.unread fd = byte :: left) :
    Generator.step m g (.read 1) = some (g.receive fd rest [byte] left) := by
  have hpos : 1 ≤ limit := (readLimit_some hlimit).1
  simp [Generator.step, herror, hready, hlimit, hunread, hpos]

/-- The end of the next descriptor is read. -/
theorem step_read_end {limit : ℕ} (herror : g.error = none) (hready : g.ready = fd :: rest)
    (hlimit : readLimit m (g.buffers fd) = some limit) (hunread : g.unread fd = []) :
    Generator.step m g (.read 1) = some (g.close fd rest) := by
  have hpos : 1 ≤ limit := (readLimit_some hlimit).1
  simp [Generator.step, herror, hready, hlimit, hunread, hpos]

/-- The buffer of the next descriptor is full. -/
theorem step_read_full (herror : g.error = none) (hready : g.ready = fd :: rest)
    (hlimit : readLimit m (g.buffers fd) = none) :
    Generator.step m g (.read 1) =
      some { g with error := some (.lineBufferOverflow fd (m.getD 0)) } := by
  simp only [Generator.step, herror, hready, hlimit, ne_eq, not_true_eq_false, if_false]

/-- A run goes on until the generator has ended, without a timeout. -/
theorem ended_or_step (m : Option ℕ) (g : Generator) :
    g.Ended ∨ ∃ a g', NoTimeout g a ∧ Generator.step m g a = some g' := by
  by_cases hended : g.Ended
  · exact .inl hended
  · right
    rw [Ended, not_or, not_not, not_and] at hended
    obtain ⟨herror, hactive⟩ := hended
    cases hready : g.ready with
    | nil =>
        obtain ⟨fd, hfd⟩ := Finset.nonempty_iff_ne_empty.mpr (hactive hready)
        exact ⟨_, _, by simp [NoTimeout], step_select herror hready hfd⟩
    | cons fd rest =>
        cases hlimit : readLimit m (g.buffers fd) with
        | none => exact ⟨_, _, by simp [NoTimeout], step_read_full herror hready hlimit⟩
        | some limit =>
            cases hunread : g.unread fd with
            | nil => exact ⟨_, _, by simp [NoTimeout], step_read_end herror hready hlimit hunread⟩
            | cons byte left =>
                exact ⟨_, _, by simp [NoTimeout], step_read_byte herror hready hlimit hunread⟩

/-! ## Without a limit -/

/-- A generator that is not stopped by an exception has cut every stream. -/
theorem Reads.linesOf_of_ended (h : Reads fds streams g) (hended : g.Ended)
    (herror : g.error = none) (hfd : fd ∈ fds) : g.linesOf fd = cutLines newline (streams fd) := by
  rcases hended with hraised | ⟨-, hempty⟩
  · exact absurd herror hraised
  · apply h.closed fd hfd
    simp [hempty]

/-- Nothing is raised without a limit and a timeout. -/
theorem error_of_unlimited
    (hrun : Path (Generator.step none) NoTimeout (start fds streams) as g) : g.error = none := by
  apply @Path.invariant _ _ _ _ _ _ _ (fun g => g.error = none) hrun rfl
  intro u a v hu hok hstep
  obtain ⟨-, hsteps⟩ := step_cases hstep
  cases hsteps with
  | select | receive | close => exact hu
  | expire onRead =>
      cases onRead
      · exact absurd rfl hok.1
      · exact absurd rfl hok.2
  | overflow _ _ hnone => contradiction

/-- Without a limit and a timeout every run ends, and the lines of each descriptor are its
stream, cut after each newline. -/
theorem yields_lossless
    (hrun : Path (Generator.step none) NoTimeout (start fds streams) as g) :
    as.length ≤ 2 * ∑ fd ∈ fds.toFinset, ((streams fd).length + 1) + 1 ∧
      (g.Ended ∨ ∃ a g', NoTimeout g a ∧ Generator.step none g a = some g') ∧
      g.error = none ∧
      (g.Ended → ∀ fd ∈ fds, g.linesOf fd = cutLines newline (streams fd) ∧
        (g.linesOf fd).flatten = streams fd ∧
        ∀ line ∈ g.linesOf fd, line ≠ [] ∧ newline ∉ line.dropLast) := by
  have herror := error_of_unlimited hrun
  refine ⟨path_length_le hrun, ended_or_step none g, herror, fun hended fd hfd => ?_⟩
  rw [(reads_of_path hrun).linesOf_of_ended hended herror hfd]
  exact ⟨rfl, flatten_cutLines _, fun line hline => line_of_mem_cutLines hline⟩

/-- The bytes {lit}`a\nb` on one descriptor, and {lit}`\nc\n` on another one. -/
def twoStreams (fd : Fd) : Bytes := if fd = 3 then [97, 10, 98] else [10, 99, 10]

/-- Both descriptors are read in turn, and a newline comes apart from its line. -/
def twoReads : List ReadAction :=
  [.select [4, 3], .read 2, .read 1, .select [3, 4], .read 2, .read 1,
    .select [3], .read 5, .select [4], .read 1]

/-- The descriptor without a newline at its end has lost nothing. -/
theorem yields_lossless_twoReads :
    ∃ g, execWithin (Generator.step none) NoTimeout (start [3, 4] twoStreams) twoReads = some g ∧
      (g.linesOf 3).flatten = [97, 10, 98] := by
  have hrun : Path (Generator.step none) NoTimeout (start [3, 4] twoStreams) twoReads
      ((execWithin (Generator.step none) NoTimeout (start [3, 4] twoStreams) twoReads).get
        (by decide +kernel)) := Path.of_execWithin (Option.some_get _).symm
  have hended : ((execWithin (Generator.step none) NoTimeout (start [3, 4] twoStreams)
      twoReads).get (by decide +kernel)).Ended :=
    .inr ⟨by decide +kernel, by decide +kernel⟩
  exact ⟨_, (Option.some_get _).symm, ((yields_lossless hrun).2.2.2 hended 3 (by decide)).2.1⟩

end Generator

end Resalloc
