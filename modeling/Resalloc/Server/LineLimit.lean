import Resalloc.Server.Output

/-!
# The limit for the length of a line

With {lit}`max_line_length` the generator never asks for more bytes than its buffer has room
for, and it raises when a full buffer has no newline.  It does so before it knows whether
the line goes on.

Main results:

- Theorem {lit}`Generator.Short.step`: no line and no buffer is longer than the limit.
- Theorem {lit}`Generator.Reads.full`: what a full buffer says about the stream.
- Theorem {lit}`Generator.limit_exact_iff`: when the limit is exact.
- Theorem {lit}`Generator.limit_inexact`: a last line that is as long as the limit.
-/

namespace Resalloc

open Foundations

namespace Generator

variable {limit : ℕ} {g g' : Generator} {a : ReadAction} {as : List ReadAction} {fd : Fd}
variable {fds : List Fd} {streams : Fd → Bytes}

/-! ## What the limit guarantees -/

/-- No line and no buffer is longer than the limit, and a buffer without room is full. -/
structure Short (limit : ℕ) (g : Generator) : Prop where
  yielded : ∀ e ∈ g.yielded, e.2.length ≤ limit
  buffers : ∀ fd, (g.buffers fd).length ≤ limit
  overflow : ∀ {fd n}, g.error = some (.lineBufferOverflow fd n) →
    fd ∈ g.activeFds ∧ n = limit ∧ limit ≤ (g.buffers fd).length

/-- It holds before the first round. -/
theorem short_start (limit : ℕ) (fds : List Fd) (streams : Fd → Bytes) :
    Short limit (start fds streams) := by
  constructor <;> simp [start]

/-- Every step keeps it. -/
theorem Short.step (h : Short limit g) (hpos : 0 < limit)
    (hready : ∀ fd ∈ g.ready, fd ∈ g.activeFds)
    (hstep : Generator.step (some limit) g a = some g') : Short limit g' := by
  obtain ⟨hyielded, hbuffers, -⟩ := h
  obtain ⟨herror, hsteps⟩ := step_cases hstep
  cases hsteps with
  | select => exact ⟨hyielded, hbuffers, by simp [herror]⟩
  | expire => exact ⟨hyielded, hbuffers, by simp⟩
  | @overflow fd rest _ size hnext hlimit _ hfull =>
      obtain rfl := Option.some.inj hlimit
      refine ⟨hyielded, hbuffers, fun {other n} hraised => ?_⟩
      obtain ⟨rfl, rfl⟩ := ReadError.lineBufferOverflow.inj (Option.some.inj hraised)
      exact ⟨hready _ (by simp [hnext]), rfl, hfull⟩
  | @receive fd rest chunk left size hnext _ _ hroom =>
      have hle := hroom limit rfl hpos
      refine ⟨fun e he => ?_, fun other => ?_, by simp [receive, herror]⟩
      · rw [receive_yielded] at he
        rcases List.mem_append.mp he with he | he
        · exact hyielded e he
        · obtain ⟨line, hline, rfl⟩ := List.mem_map.mp he
          have hcut : line ∈ cutLines newline (g.buffers fd ++ chunk) :=
            List.mem_append_left _ hline
          exact (length_le_of_mem_cutLines hcut).trans hle
      · by_cases hfd : other = fd
        · subst hfd
          simp only [receive, takeLines_eq, Function.update_self]
          exact (length_lastLine_le _).trans hle
        · simpa [receive, hfd] using hbuffers other
  | @close fd rest size hnext =>
      refine ⟨fun e he => ?_, hbuffers, by simp [close, herror]⟩
      rcases List.mem_append.mp he with he | he
      · exact hyielded e he
      · split_ifs at he
        · simp at he
        · rw [List.mem_singleton.mp he]
          exact hbuffers fd

/-- It holds in every run. -/
theorem short_of_path {ok : Generator → ReadAction → Prop} (hpos : 0 < limit)
    (hrun : Path (Generator.step (some limit)) ok (start fds streams) as g) : Short limit g := by
  have hboth := @Path.invariant _ _ _ _ _ _ _ (fun g => Reads fds streams g ∧ Short limit g) hrun
    ⟨reads_start fds streams, short_start limit fds streams⟩ fun u _ v hu _ hstep =>
      ⟨hu.1.step hstep, hu.2.step hpos hu.1.ready hstep⟩
  exact hboth.2

/-- A line that is yielded for a descriptor is not longer than the limit. -/
theorem Short.linesOf (h : Short limit g) {line : Bytes} (hline : line ∈ g.linesOf fd) :
    line.length ≤ limit := by
  obtain ⟨e, he, hsome⟩ := List.mem_filterMap.mp hline
  split_ifs at hsome
  obtain rfl := Option.some.inj hsome
  exact h.yielded e he

/-- The lines of a stream whose buffer is full: the next one is too long, or the stream ends
with a line that is as long as the limit. -/
theorem Reads.full (h : Reads fds streams g) (hshort : Short limit g)
    (hraised : g.error = some (.lineBufferOverflow fd limit)) :
    (∃ line post, cutLines newline (streams fd) = g.linesOf fd ++ line :: post ∧
        limit < line.length) ∨
      (∀ line ∈ cutLines newline (streams fd), line.length ≤ limit) ∧
        (lastLine newline (streams fd)).length = limit := by
  obtain ⟨hactive, -, hfull⟩ := hshort.overflow hraised
  obtain ⟨seen, hstream, hbuffer, hlines⟩ := h.active fd hactive
  have hlength : (lastLine newline seen).length = limit := by
    rw [← hbuffer]
    exact le_antisymm (hshort.buffers fd) hfull
  by_cases hunread : g.unread fd = []
  · right
    rw [hunread, List.append_nil] at hstream
    rw [hstream]
    refine ⟨fun line hline => ?_, hlength⟩
    rcases List.mem_append.mp hline with hcomplete | hlast
    · exact hshort.linesOf (hlines ▸ hcomplete)
    · split_ifs at hlast
      · simp at hlast
      · rw [List.mem_singleton.mp hlast, hlength]
  · left
    obtain ⟨line, post, hcut, hlong⟩ := exists_cutLines_cons (not_mem_lastLine seen) hunread
    refine ⟨line, post, ?_, hlength ▸ hlong⟩
    rw [hstream, cutLines_append, hcut, hlines]

/-! ## When the limit is exact -/

/-- The run ends, it yields no line that is too long, it raises if and only if there is
one, and before that it yields the lines that precede it. -/
structure KeepsLimit (fds : List Fd) (streams : Fd → Bytes) (limit : ℕ) (as : List ReadAction)
    (g : Generator) : Prop where
  finite : as.length ≤ 2 * ∑ fd ∈ fds.toFinset, ((streams fd).length + 1) + 1
  goesOn : g.Ended ∨ ∃ a g', NoTimeout g a ∧ Generator.step (some limit) g a = some g'
  short : ∀ e ∈ g.yielded, e.2.length ≤ limit
  raises : g.Ended → ((∃ fd, g.error = some (.lineBufferOverflow fd limit)) ↔
    ∃ fd ∈ fds, ∃ line ∈ cutLines newline (streams fd), limit < line.length)
  before : ∀ {fd}, g.error = some (.lineBufferOverflow fd limit) →
    ∃ line post, cutLines newline (streams fd) = g.linesOf fd ++ line :: post ∧
      limit < line.length ∧ ∀ line ∈ g.linesOf fd, line.length ≤ limit

/-- Only the limit stops a run without a timeout. -/
theorem error_of_limited
    (hrun : Path (Generator.step (some limit)) NoTimeout (start fds streams) as g) :
    g.error = none ∨ ∃ fd, g.error = some (.lineBufferOverflow fd limit) := by
  apply @Path.invariant _ _ _ _ _ _ _
    (fun g => g.error = none ∨ ∃ fd, g.error = some (.lineBufferOverflow fd limit)) hrun (.inl rfl)
  intro u a v hu hok hstep
  obtain ⟨herror, hsteps⟩ := step_cases hstep
  cases hsteps with
  | select | receive | close => exact .inl herror
  | expire onRead =>
      cases onRead
      · exact absurd rfl hok.1
      · exact absurd rfl hok.2
  | @overflow fd _ _ _ _ hlimit =>
      obtain rfl := Option.some.inj hlimit
      exact .inr ⟨fd, rfl⟩

/-- The limit is exact unless a stream without a longer line ends with a line that is as
long as the limit and has no newline. -/
theorem keepsLimit_of_path (hpos : 0 < limit)
    (hlast : ∀ fd ∈ fds, (∀ line ∈ cutLines newline (streams fd), line.length ≤ limit) →
      (lastLine newline (streams fd)).length ≠ limit)
    (hrun : Path (Generator.step (some limit)) NoTimeout (start fds streams) as g) :
    KeepsLimit fds streams limit as g := by
  have hreads := reads_of_path hrun
  have hshort := short_of_path hpos hrun
  have hbefore : ∀ {fd}, g.error = some (.lineBufferOverflow fd limit) → fd ∈ fds ∧
      ∃ line post, cutLines newline (streams fd) = g.linesOf fd ++ line :: post ∧
        limit < line.length ∧ ∀ line ∈ g.linesOf fd, line.length ≤ limit := by
    intro fd hraised
    have hfd := hreads.known fd (hshort.overflow hraised).1
    rcases hreads.full hshort hraised with ⟨line, post, hcut, hlong⟩ | ⟨hall, hlength⟩
    · exact ⟨hfd, line, post, hcut, hlong, fun _ hline => hshort.linesOf hline⟩
    · exact absurd hlength (hlast fd hfd hall)
  refine ⟨path_length_le hrun, ended_or_step _ g, hshort.yielded, fun hended => ?_,
    fun hraised => (hbefore hraised).2⟩
  constructor
  · rintro ⟨fd, hraised⟩
    obtain ⟨hfd, line, post, hcut, hlong, -⟩ := hbefore hraised
    exact ⟨fd, hfd, line, by simp [hcut], hlong⟩
  · rintro ⟨fd, hfd, line, hline, hlong⟩
    rcases error_of_limited hrun with herror | hraised
    · rw [← hreads.linesOf_of_ended hended herror hfd] at hline
      have hle := hshort.linesOf hline
      omega
    · exact hraised

/-- Some run fills the buffer of a stream that ends with a line as long as the limit. -/
theorem exists_overflow (hpos : 0 < limit) (hreads : Reads fds streams g) (herror : g.error = none)
    (hready : g.ready = []) (hactive : fd ∈ g.activeFds)
    (hlast : (lastLine newline (streams fd)).length = limit) :
    ∃ as g', Path (Generator.step (some limit)) NoTimeout g as g' ∧
      g'.error = some (.lineBufferOverflow fd limit) := by
  induction hunread : g.unread fd generalizing g with
  | nil =>
      obtain ⟨seen, hstream, hbuffer, -⟩ := hreads.active fd hactive
      have hfull : readLimit (some limit) (g.buffers fd) = none := by
        rw [hunread, List.append_nil] at hstream
        exact readLimit_none.mpr ⟨limit, rfl, hpos, by rw [hbuffer, ← hstream, hlast]⟩
      exact ⟨_, _, .snoc (.single (by simp [NoTimeout]) (step_select herror hready hactive))
        (by simp [NoTimeout]) (step_read_full herror rfl hfull), rfl⟩
  | cons byte left ih =>
      have hselect := step_select (m := some limit) herror hready hactive
      have hselected : Path (Generator.step (some limit)) NoTimeout g [.select [fd]] _ :=
        .single (by simp [NoTimeout]) hselect
      cases hlimit : readLimit (some limit) (g.buffers fd) with
      | none =>
          exact ⟨_, _, .snoc hselected (by simp [NoTimeout])
            (step_read_full herror rfl hlimit), rfl⟩
      | some room =>
          have hread := step_read_byte (g := { g with ready := [fd] }) herror rfl hlimit hunread
          have hnext := (hreads.step hselect).step hread
          obtain ⟨as, g', hrest, hraised⟩ := ih hnext herror rfl hactive (by simp [receive])
          exact ⟨_, g', (hselected.snoc (by simp [NoTimeout]) hread).append hrest, hraised⟩

/-- The limit is exact for all schedules if and only if no stream without a longer line
ends with a line that is as long as the limit and has no newline. -/
theorem limit_exact_iff (hpos : 0 < limit) (fds : List Fd) (streams : Fd → Bytes) :
    (∀ as g, Path (Generator.step (some limit)) NoTimeout (start fds streams) as g →
        KeepsLimit fds streams limit as g) ↔
      ∀ fd ∈ fds, (∀ line ∈ cutLines newline (streams fd), line.length ≤ limit) →
        (lastLine newline (streams fd)).length ≠ limit := by
  constructor
  · intro hkeeps fd hfd hall hlast
    obtain ⟨as, g, hrun, hraised⟩ := exists_overflow hpos (reads_start fds streams) rfl rfl
      (List.mem_toFinset.mpr hfd) hlast
    obtain ⟨line, post, hcut, hlong, -⟩ := (hkeeps as g hrun).before hraised
    have hle := hall line (by simp [hcut])
    omega
  · intro hlast as g hrun
    exact keepsLimit_of_path hpos hlast hrun

/-- Two descriptors are read with a limit of two bytes. -/
def limitedReads : List ReadAction :=
  [.select [4, 3], .read 2, .read 2, .select [3, 4], .read 1, .read 1,
    .select [3], .read 1, .select [4], .read 1]

/-- Lines of two bytes and a last line of one byte are within the limit. -/
theorem limit_exact_limitedReads :
    ∃ g, execWithin (Generator.step (some 2)) NoTimeout (start [3, 4] twoStreams) limitedReads =
      some g ∧ KeepsLimit [3, 4] twoStreams 2 limitedReads g := by
  have hrun : Path (Generator.step (some 2)) NoTimeout (start [3, 4] twoStreams) limitedReads
      ((execWithin (Generator.step (some 2)) NoTimeout (start [3, 4] twoStreams)
        limitedReads).get (by decide +kernel)) := Path.of_execWithin (Option.some_get _).symm
  exact ⟨_, (Option.some_get _).symm,
    (limit_exact_iff Nat.two_pos [3, 4] twoStreams).mpr (by decide +kernel) _ _ hrun⟩

/-- Three bytes without a newline. -/
def fullStream (_ : Fd) : Bytes := [97, 98, 99]

/-- The full buffer is reported before the end of the stream. -/
def fullReads : List ReadAction := [.select [3], .read 3, .select [3], .read 1]

/-- A last line that is as long as the limit counts as too long. -/
theorem limit_inexact :
    ¬ ∀ limit fds streams as g, 0 < limit →
      Path (Generator.step (some limit)) NoTimeout (start fds streams) as g →
      KeepsLimit fds streams limit as g := by
  intro h
  have hrun : Path (Generator.step (some 3)) NoTimeout (start [3] fullStream) fullReads
      ((execWithin (Generator.step (some 3)) NoTimeout (start [3] fullStream)
        fullReads).get (by decide +kernel)) := Path.of_execWithin (Option.some_get _).symm
  obtain ⟨line, post, hcut, hlong, -⟩ := @KeepsLimit.before _ _ _ _ _
    (h 3 [3] fullStream fullReads _ (by decide) hrun) 3 (by decide +kernel)
  have hmem : line ∈ cutLines newline (fullStream 3) := by simp [hcut]
  have hshort : ∀ line ∈ cutLines newline (fullStream 3), line.length ≤ 3 := by decide
  exact absurd (hshort line hmem) (Nat.not_le_of_lt hlong)

end Generator

end Resalloc
