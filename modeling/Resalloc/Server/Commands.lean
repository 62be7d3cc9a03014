import Resalloc.Foundations.Words
import Resalloc.Server.LineLimit

/-!
# Capturing the output of commands

A hook runs in a shell.  Its standard output is read line by line, every line is logged,
and the first lines are returned.  Names of resources are split from the returned text, so
a name must not be cut.

Main results:

- Theorem {lit}`foldl_readLine`: what the loop captures.
- Theorem {lit}`Generator.Reads.kept_prefix`: where captured lines end.
- Theorem {lit}`isWordOf_of_listAllResources`: names of a captured prefix are words of the
  output.
- Theorem {lit}`runCommand_faithful`: what {lit}`_run_command` returns and logs.
-/

namespace Resalloc

open Foundations

/-! ## The text of the output -/

/-- {lit}`str.encode`. -/
def encodeUtf8 (text : List Char) : Bytes := text.flatMap String.utf8EncodeChar

/-- {lit}`bytes.decode("utf-8")`; {lean}`none` if it raises {lit}`UnicodeDecodeError`. -/
def decodeUtf8 (bytes : Bytes) : Option (List Char) :=
  (String.fromUTF8? bytes.toByteArray).map String.toList

/-- {lit}`str.isspace`, for one character. -/
def isSpace (c : Char) : Bool :=
  let code := c.toNat
  9 ≤ code ∧ code ≤ 13 ∨ 28 ≤ code ∧ code ≤ 32 ∨ code = 0x85 ∨ code = 0xa0 ∨ code = 0x1680 ∨
    0x2000 ≤ code ∧ code ≤ 0x200a ∨ code = 0x2028 ∨ code = 0x2029 ∨ code = 0x202f ∨
    code = 0x205f ∨ code = 0x3000

/-- {lit}`_list_all_resources`, after the command. -/
def listAllResources (stdout : Bytes) : Option (List String) :=
  (decodeUtf8 stdout).map fun text => (words isSpace (strip isSpace text)).map String.ofList

/-! ## The loop over the lines -/

/-- The mark of an incomplete output. -/
def trimmed : Bytes := encodeUtf8 "<< trimmed >>\n".toList

/-- The local variables of {lit}`_run_command` and what it has logged. -/
structure Capture where
  stdoutWritten : ℕ := 0
  stdoutStopped : Bool := false
  capturedString : Bytes := []
  logfile : List Bytes := []

/-- The body of the loop. -/
def Capture.readLine (catchStdoutBytes : ℕ) (securely : Bool) (c : Capture) (line : Bytes) :
    Capture :=
  let c := { c with logfile := c.logfile ++ [line] }
  if c.stdoutStopped then c
  else if catchStdoutBytes < c.stdoutWritten + line.length then
    let start := if c.stdoutWritten = 0 ∧ securely = false then line.take catchStdoutBytes else []
    let marker := if securely then [] else trimmed
    { c with capturedString := c.capturedString ++ start ++ marker, stdoutStopped := true }
  else
    { c with
      stdoutWritten := c.stdoutWritten + line.length
      capturedString := c.capturedString ++ line }

/-- What {lit}`_run_command` returns. -/
structure CommandResult where
  status : Int
  stdout : Option Bytes := none

/-- What happens to a command. -/
structure CommandRun where
  exitStatus : Int
  /-- {lit}`subprocess.call` runs out of time. -/
  timedOut : Bool := false
  /-- The generator after the loop. -/
  reader : Generator

/-- {lit}`_run_command`: the result, and what is written to the log. -/
def runCommand (catchStdoutBytes : Option ℕ) (securely : Bool) (timeout : Option ℕ)
    (run : CommandRun) : CommandResult × List Bytes :=
  if catchStdoutBytes.getD 0 = 0 then
    if run.timedOut then
      let seconds := timeout.getD 0
      ({ status := 124 }, [encodeUtf8 s!"<timeouted after {seconds}s>\n".toList])
    else ({ status := run.exitStatus }, [])
  else
    let c := (run.reader.yielded.map Prod.snd).foldl
      (Capture.readLine (catchStdoutBytes.getD 0) securely) {}
    match run.reader.error with
    | some error =>
        let seconds := if timeout.getD 0 = 0 then 60 * 60 * 24 else timeout.getD 0
        let text := error.text seconds
        ({ status := 124, stdout := some c.capturedString },
          c.logfile ++ [encodeUtf8 s!"<{text}>\n".toList])
    | none => ({ status := run.exitStatus, stdout := some c.capturedString }, c.logfile)

/-- The limit for a line, which depends on the mode. -/
def maxLineLength (securely : Bool) : Option ℕ := if securely then some 10240 else none

/-! ## What is captured -/

section Capture

variable {limit : ℕ} {securely : Bool} {lines kept other : List Bytes} {c : Capture}

/-- The longest run of leading lines with at most so many bytes. -/
structure LongestWithin (limit : ℕ) (lines kept : List Bytes) : Prop where
  leading : kept <+: lines
  within : kept.flatten.length ≤ limit
  longest : ∀ {other}, other <+: lines → other.flatten.length ≤ limit → other <+: kept

/-- The leading lines that fit into a number of bytes. -/
def fitting : ℕ → List Bytes → List Bytes
  | _, [] => []
  | room, line :: lines =>
      if line.length ≤ room then line :: fitting (room - line.length) lines else []

/-- They are the longest such run. -/
theorem longestWithin_fitting (limit : ℕ) (lines : List Bytes) :
    LongestWithin limit lines (fitting limit lines) := by
  induction lines generalizing limit with
  | nil =>
      refine ⟨List.prefix_refl _, by simp [fitting], fun {other} hother _ => ?_⟩
      exact hother
  | cons line lines ih =>
      rw [fitting]
      split_ifs with hroom
      · obtain ⟨hleading, hwithin, hlongest⟩ := ih (limit - line.length)
        refine ⟨List.prefix_cons_inj line |>.mpr hleading, ?_, fun {other} hother hbytes => ?_⟩
        · rw [List.flatten_cons, List.length_append]
          omega
        · cases other with
          | nil => exact List.nil_prefix
          | cons first other =>
              obtain ⟨rfl, hrest⟩ := List.cons_prefix_cons.mp hother
              rw [List.flatten_cons, List.length_append] at hbytes
              exact (List.prefix_cons_inj first).mpr (hlongest hrest (by omega))
      · refine ⟨List.nil_prefix, by simp, fun {other} hother hbytes => ?_⟩
        cases other with
        | nil => exact List.prefix_refl _
        | cons first other =>
            obtain ⟨rfl, -⟩ := List.cons_prefix_cons.mp hother
            rw [List.flatten_cons, List.length_append] at hbytes
            omega

/-- Every line is logged. -/
theorem foldl_readLine_logfile (lines : List Bytes) (c : Capture) :
    (lines.foldl (Capture.readLine limit securely) c).logfile = c.logfile ++ lines := by
  induction lines generalizing c with
  | nil => simp
  | cons line lines ih =>
      have hround : (c.readLine limit securely line).logfile = c.logfile ++ [line] := by
        simp only [Capture.readLine]
        split_ifs <;> rfl
      rw [List.foldl_cons, ih, hround, List.append_assoc]
      rfl

/-- Nothing is captured after the first line that does not fit. -/
theorem foldl_readLine_stopped (lines : List Bytes) (hstopped : c.stdoutStopped = true) :
    (lines.foldl (Capture.readLine limit securely) c).capturedString = c.capturedString := by
  induction lines generalizing c with
  | nil => rfl
  | cons line lines ih =>
      have hround : c.readLine limit securely line = { c with logfile := c.logfile ++ [line] } := by
        simp [Capture.readLine, hstopped]
      rw [List.foldl_cons, hround]
      exact ih hstopped

/-- What the loop captures in place of the lines that do not fit. -/
def dropped (limit : ℕ) (securely : Bool) (written : ℕ) (lines : List Bytes) : Bytes :=
  match lines with
  | [] => []
  | line :: _ =>
      if securely then [] else (if written = 0 then line.take limit else []) ++ trimmed

/-- Nothing is captured in their place in the secure mode. -/
theorem dropped_securely (limit written : ℕ) (lines : List Bytes) :
    dropped limit true written lines = [] := by
  cases lines <;> rfl

/-- In the normal mode a mark is captured, and the start of a first line that is too long. -/
theorem flatten_append_dropped (hnonempty : ∀ line ∈ lines, line ≠ []) (hkept : kept <+: lines) :
    kept.flatten ++ dropped limit false kept.flatten.length (lines.drop kept.length) =
      (if kept = [] then (lines.headD []).take limit else kept.flatten) ++
        if kept = lines then [] else trimmed := by
  obtain ⟨rest, rfl⟩ := hkept
  rw [List.drop_left]
  cases kept with
  | nil => cases rest <;> simp [dropped]
  | cons first kept =>
      have hfirst := List.length_pos_iff.mpr (hnonempty first (by simp))
      cases rest with
      | nil => simp [dropped]
      | cons line rest =>
          have hwritten : (first :: kept).flatten.length ≠ 0 := by
            rw [List.flatten_cons, List.length_append]
            omega
          simp only [dropped, if_neg hwritten]
          simp

/-- The loop captures the lines that fit, and a mark if some do not. -/
theorem foldl_readLine (lines : List Bytes) (hgoes : c.stdoutStopped = false)
    (hwritten : c.stdoutWritten ≤ limit) :
    (lines.foldl (Capture.readLine limit securely) c).capturedString =
      c.capturedString ++ (fitting (limit - c.stdoutWritten) lines).flatten ++
        dropped limit securely
          (c.stdoutWritten + (fitting (limit - c.stdoutWritten) lines).flatten.length)
          (lines.drop (fitting (limit - c.stdoutWritten) lines).length) := by
  induction lines generalizing c with
  | nil => simp [fitting, dropped]
  | cons line lines ih =>
      rw [List.foldl_cons, fitting]
      by_cases hfits : line.length ≤ limit - c.stdoutWritten
      · have hroom : ¬ limit < c.stdoutWritten + line.length := by omega
        have hround : c.readLine limit securely line =
            { c with
              logfile := c.logfile ++ [line]
              stdoutWritten := c.stdoutWritten + line.length
              capturedString := c.capturedString ++ line } := by
          simp [Capture.readLine, hgoes, hroom]
        have hrest := @ih (c.readLine limit securely line) (by rw [hround]; exact hgoes)
          (by rw [hround]; simp only; omega)
        rw [if_pos hfits, hrest, hround]
        simp [Nat.sub_sub, Nat.add_assoc]
      · have hroom : limit < c.stdoutWritten + line.length := by omega
        rw [if_neg hfits, foldl_readLine_stopped lines (by simp [Capture.readLine, hgoes, hroom])]
        cases securely <;> simp [Capture.readLine, hgoes, hroom, dropped]

end Capture

/-! ## Names -/

section Names

variable {bytes output rest : Bytes} {text : List Char}

/-- The output contains a name as one word: after the start or a space, and before the end
or a space. -/
def IsWordOf (name : String) (output : Bytes) : Prop :=
  ∃ before after rest, output = encodeUtf8 before ++ encodeUtf8 name.toList ++
      encodeUtf8 after ++ rest ∧
    name ≠ "" ∧ (∀ c ∈ name.toList, isSpace c = false) ∧
    (∀ c, before.getLast? = some c → isSpace c = true) ∧
    (∀ c, after.head? = some c → isSpace c = true) ∧ (after = [] → rest = [])

/-- Texts are encoded one after the other. -/
theorem encodeUtf8_append (text other : List Char) :
    encodeUtf8 (text ++ other) = encodeUtf8 text ++ encodeUtf8 other :=
  List.flatMap_append

/-- Decoded bytes are the encoding of their text. -/
theorem encodeUtf8_of_decodeUtf8 (h : decodeUtf8 bytes = some text) : bytes = encodeUtf8 text := by
  obtain ⟨string, hstring, rfl⟩ := Option.map_eq_some_iff.mp h
  unfold String.fromUTF8? at hstring
  split_ifs at hstring with hvalid
  obtain rfl := Option.some.inj hstring
  have hencode := @String.utf8Encode_toList (String.fromUTF8 bytes.toByteArray hvalid)
  exact (List.toByteArray_inj.mp hencode).symm

/-- Every encoded text can be decoded. -/
theorem decodeUtf8_encodeUtf8 (text : List Char) : decodeUtf8 (encodeUtf8 text) = some text := by
  have hvalid : (encodeUtf8 text).toByteArray.IsValidUTF8 := .intro text rfl
  have hstring : String.fromUTF8 (encodeUtf8 text).toByteArray hvalid = String.ofList text := rfl
  rw [decodeUtf8, String.fromUTF8?, dif_pos hvalid, hstring, Option.map_some, String.toList_ofList]

/-- The last byte of a text belongs to its last character. -/
theorem getLast?_encodeUtf8 (text : List Char) (c : Char) :
    (encodeUtf8 (text ++ [c])).getLast? = (String.utf8EncodeChar c).getLast? := by
  have hencode : encodeUtf8 (text ++ [c]) = encodeUtf8 text ++ String.utf8EncodeChar c := by
    rw [encodeUtf8_append]
    simp [encodeUtf8]
  obtain ⟨byte, hbyte⟩ := Option.ne_none_iff_exists'.mp
    (mt List.getLast?_eq_none_iff.mp (@String.utf8EncodeChar_ne_nil c))
  rw [hencode, List.getLast?_append, hbyte, Option.some_or]

/-- The byte {lit}`b"\n"` ends a newline only. -/
theorem eq_newline_of_getLast? {c : Char}
    (hlast : (String.utf8EncodeChar c).getLast? = some newline) : c = '\n' := by
  have hcontinues : ∀ v : ℕ, UInt8.ofNat (v % 64 + 128) ≠ newline := by
    intro v heq
    have hnat : (v % 64 + 128) % 2 ^ 8 = 10 := congrArg UInt8.toNat heq
    omega
  unfold String.utf8EncodeChar at hlast
  simp only at hlast
  split_ifs at hlast with hascii
  · simp only [List.getLast?_singleton, Option.some.injEq] at hlast
    have hnat : c.val.toNat % 2 ^ 8 = 10 := congrArg UInt8.toNat hlast
    have hcode : c.val.toNat = '\n'.val.toNat := by
      have hten : '\n'.val.toNat = 10 := rfl
      omega
    exact Char.ext (UInt32.toNat_inj.mp hcode)
  all_goals
    simp only [List.getLast?_cons_cons, List.getLast?_singleton, Option.some.injEq] at hlast
    exact absurd hlast (hcontinues _)

/-- The newline is a space. -/
theorem isSpace_newline : isSpace '\n' = true := by
  decide

/-- Names that are split from leading lines of an output are words of the output. -/
theorem isWordOf_of_listAllResources {names : List String} {name : String}
    (hend : bytes = [] ∨ rest = [] ∨ ∃ body, bytes = body ++ [newline])
    (hnames : listAllResources bytes = some names) (hname : name ∈ names) :
    IsWordOf name (bytes ++ rest) := by
  obtain ⟨text, htext, rfl⟩ := Option.map_eq_some_iff.mp hnames
  obtain ⟨w, hw, rfl⟩ := List.mem_map.mp hname
  obtain ⟨before, after, rfl, hne, hspaces, hbefore, hafter⟩ := (isWord_of_mem_words hw).of_strip
  obtain rfl := encodeUtf8_of_decodeUtf8 htext
  refine ⟨before, after, rest, ?_, ?_, ?_, hbefore, hafter, ?_⟩
  · rw [String.toList_ofList, encodeUtf8_append, encodeUtf8_append]
  · simpa using hne
  · rwa [String.toList_ofList]
  · rintro rfl
    obtain ⟨front, c, rfl⟩ : ∃ front c, w = front ++ [c] :=
      ⟨w.dropLast, w.getLast hne, (List.dropLast_append_getLast hne).symm⟩
    have hlast := getLast?_encodeUtf8 (before ++ front) c
    rw [List.append_nil, ← List.append_assoc] at hend
    rcases hend with hempty | hrest | ⟨body, hbody⟩
    · rw [hempty, List.getLast?_nil] at hlast
      exact absurd (List.getLast?_eq_none_iff.mp hlast.symm) String.utf8EncodeChar_ne_nil
    · exact hrest
    · -- the last character of the word would be a newline
      rw [hbody, List.getLast?_concat] at hlast
      obtain rfl := eq_newline_of_getLast? hlast.symm
      have hspace := hspaces '\n' (by simp)
      simp [isSpace_newline] at hspace

end Names

/-! ## Commands -/

namespace Generator

variable {m : Option ℕ} {g g' : Generator} {a : ReadAction} {as : List ReadAction} {fd : Fd}
variable {fds : List Fd} {streams : Fd → Bytes}

/-- The yielded lines have at least one byte, and they belong to the descriptors. -/
structure Yields (fds : List Fd) (g : Generator) : Prop where
  known : ∀ e ∈ g.yielded, e.1 ∈ fds
  nonempty : ∀ e ∈ g.yielded, e.2 ≠ []

/-- Every step keeps this. -/
theorem Yields.step (h : Yields fds g) (hreads : Reads fds streams g)
    (hstep : Generator.step m g a = some g') : Yields fds g' := by
  obtain ⟨-, hsteps⟩ := step_cases hstep
  have hfd : ∀ {fd rest}, g.ready = fd :: rest → fd ∈ fds := by
    intro fd rest hnext
    exact hreads.known fd (hreads.ready fd (by simp [hnext]))
  cases hsteps with
  | select | expire | overflow => exact ⟨h.known, h.nonempty⟩
  | @receive fd rest chunk left size hnext =>
      constructor
      all_goals
        intro e he
        rw [receive_yielded, List.mem_append] at he
        rcases he with he | he
      · exact h.known e he
      · obtain ⟨line, -, rfl⟩ := List.mem_map.mp he
        exact hfd hnext
      · exact h.nonempty e he
      · obtain ⟨line, hline, rfl⟩ := List.mem_map.mp he
        obtain ⟨body, -, rfl⟩ := exists_body_of_mem hline
        simp
  | @close fd rest size hnext =>
      constructor
      all_goals
        intro e he
        rw [close, List.mem_append] at he
        rcases he with he | he
      · exact h.known e he
      · split_ifs at he
        · simp at he
        · rw [List.mem_singleton.mp he]
          exact hfd hnext
      · exact h.nonempty e he
      · split_ifs at he with hbuffer
        · simp at he
        · rw [List.mem_singleton.mp he]
          exact hbuffer

/-- It holds in every run. -/
theorem yields_of_path {ok : Generator → ReadAction → Prop}
    (hrun : Path (Generator.step m) ok (start fds streams) as g) : Yields fds g := by
  have hboth := @Path.invariant _ _ _ _ _ _ _ (fun g => Reads fds streams g ∧ Yields fds g) hrun
    ⟨reads_start fds streams, by constructor <;> simp [start]⟩ fun u _ v hu _ hstep =>
      ⟨hu.1.step hstep, hu.2.step hu.1 hstep⟩
  exact hboth.2

/-- All lines belong to the only descriptor. -/
theorem Yields.linesOf_eq (h : Yields [fd] g) : g.linesOf fd = g.yielded.map Prod.snd := by
  rw [linesOf, ← List.filterMap_eq_map]
  apply List.filterMap_congr
  intro e he
  simp [List.mem_singleton.mp (h.known e he)]

/-- The yielded lines are leading lines of the stream, at any time. -/
theorem Reads.prefix_linesOf (h : Reads fds streams g) (hfd : fd ∈ fds) :
    g.linesOf fd <+: cutLines newline (streams fd) := by
  by_cases hactive : fd ∈ g.activeFds
  · obtain ⟨seen, hstream, -, hlines⟩ := h.active fd hactive
    rw [hstream, cutLines_append, hlines]
    exact List.prefix_append _ _
  · rw [h.closed fd hfd hactive]

end Generator

open Generator

/-- What a command that ends in some way returns and logs: the longest run of leading lines
that fits, with a mark if this is not all in the normal mode, and the names of the secure
mode are words of the output.  Every line that was read is logged. -/
theorem runCommand_faithful {limit : ℕ} (hlimit : 0 < limit) {securely : Bool} {fd : Fd}
    {streams : Fd → Bytes} {as : List ReadAction} {run : CommandRun}
    (hrun : Path (Generator.step (maxLineLength securely)) anyStep (start [fd] streams) as
      run.reader)
    (timeout : Option ℕ) :
    ∃ kept captured,
      LongestWithin limit (run.reader.yielded.map Prod.snd) kept ∧
      (runCommand (some limit) securely timeout run).1.stdout = some captured ∧
      (securely = true → captured = kept.flatten ∧
        ∀ names, listAllResources captured = some names →
          ∀ name ∈ names, IsWordOf name (streams fd)) ∧
      (securely = false → captured =
        (if kept = [] then ((run.reader.yielded.map Prod.snd).headD []).take limit
          else kept.flatten) ++
        if kept = run.reader.yielded.map Prod.snd then [] else trimmed) ∧
      ∃ message, (runCommand (some limit) securely timeout run).2 =
          run.reader.yielded.map Prod.snd ++ message ∧
        (message = [] ↔ run.reader.error = none) := by
  generalize hlines : run.reader.yielded.map Prod.snd = lines
  have hyields := yields_of_path hrun
  have hnonempty : ∀ line ∈ lines, line ≠ [] := by
    intro line hline
    obtain ⟨e, he, rfl⟩ := List.mem_map.mp (hlines ▸ hline)
    exact hyields.nonempty e he
  have hleading : lines <+: cutLines newline (streams fd) := by
    rw [← hlines, ← hyields.linesOf_eq]
    exact (reads_of_path hrun).prefix_linesOf (List.mem_singleton_self fd)
  have hkept := longestWithin_fitting limit lines
  have hcaptured : (lines.foldl (Capture.readLine limit securely) {}).capturedString =
      (fitting limit lines).flatten ++ dropped limit securely (fitting limit lines).flatten.length
        (lines.drop (fitting limit lines).length) := by
    simpa using @foldl_readLine limit securely {} lines rfl (Nat.zero_le limit)
  have hlogfile : (lines.foldl (Capture.readLine limit securely) {}).logfile = lines := by
    simpa using @foldl_readLine_logfile limit securely lines {}
  refine ⟨fitting limit lines, (lines.foldl (Capture.readLine limit securely) {}).capturedString,
    hkept, ?_, ?_, ?_, ?_⟩
  · simp only [runCommand, Option.getD_some, hlimit.ne', if_false, hlines]
    cases run.reader.error <;> rfl
  · rintro rfl
    rw [dropped_securely, List.append_nil] at hcaptured
    rw [hcaptured]
    refine ⟨rfl, fun names hnames name hname => ?_⟩
    obtain ⟨rest, houtput, hend⟩ := flatten_of_prefix_cutLines (hkept.leading.trans hleading)
    rw [houtput]
    refine isWordOf_of_listAllResources (hend.imp_left fun hnil => ?_) hnames hname
    rw [hnil, List.flatten_nil]
  · rintro rfl
    rw [hcaptured, flatten_append_dropped hnonempty hkept.leading]
  · simp only [runCommand, Option.getD_some, hlimit.ne', if_false, hlines]
    cases herror : run.reader.error with
    | none => exact ⟨[], by simp [hlogfile], by simp⟩
    | some error => exact ⟨_, congrArg (fun log => log ++ _) hlogfile, by simp⟩

/-- A command prints the names {lit}`web` and {lit}`db`. -/
def printedNames (_ : Fd) : Bytes := encodeUtf8 ['w', 'e', 'b', '\n', 'd', 'b', '\n']

/-- The output is read in two chunks, and the time runs out before its end. -/
def printedReads : List ReadAction :=
  [.select [3], .read 6, .select [3], .read 1, .expire true]

/-- The generator that has read it. -/
def printedReader : Generator :=
  (execWithin (Generator.step (maxLineLength true)) anyStep (start [3] printedNames)
    printedReads).get (by decide +kernel)

/-- Only the first name fits into the captured bytes, and it is a name of the output. -/
theorem runCommand_faithful_printedNames :
    ∃ names, ((runCommand (some 6) true (some 120)
        { exitStatus := 0, reader := printedReader }).1.stdout.bind listAllResources) = some names ∧
      "web" ∈ names ∧ IsWordOf "web" (printedNames 3) := by
  have hrun : Path (Generator.step (maxLineLength true)) anyStep (start [3] printedNames)
      printedReads printedReader := Path.of_execWithin (Option.some_get _).symm
  obtain ⟨kept, captured, -, hstdout, hsecurely, -⟩ :=
    @runCommand_faithful 6 (by decide) true 3 _ _ { exitStatus := 0, reader := printedReader } hrun
      (some 120)
  have hcaptured : captured = encodeUtf8 ['w', 'e', 'b', '\n'] := by
    apply Option.some.inj
    rw [← hstdout]
    decide +kernel
  have hnames : listAllResources captured = some ["web"] := by
    rw [hcaptured, listAllResources, decodeUtf8_encodeUtf8]
    decide +kernel
  refine ⟨["web"], ?_, by simp, (hsecurely rfl).2 _ hnames _ (by simp)⟩
  rw [hstdout, Option.bind_some, hnames]

end Resalloc
