import Mathlib.Data.Int.Notation
import Mathlib.Tactic.Common
import SpartanLauncher.Lib.Machine

/-!
# Echoing streams as they become ready

The client polls the streams that it reads, and copies what each ready stream delivers to the output
that belongs to it.

* `writeToOutputStream`: one stream is copied until a read would block, or the stream ends.
* `multiReadOnReady`: the rounds of `poll`; a stream that ends takes the streams related to it out
  of the two maps.

The results of the system calls are data of the run: what `poll` reports, how many bytes each
`read` delivers and how many of them each `write` takes. A run in which the results do not fit, or
are too many or too few, has no value. No signal interrupts the thread, apart from a `poll` that
returns `EINTR`.
-/

namespace Spartan

open Machine

/-- A file descriptor. -/
abbrev Fd := ℤ

/-- `enum class WRITE_RESULT`. -/
inductive WriteResult where
  | noOp
  | success
  | failure
  | interrupted
  | endOfFile
  | pipeConnBroken
  deriving DecidableEq

def WriteResult.canContinue : WriteResult → Bool
  | noOp | success => true
  | _ => false

/-- The results of a `read` and, where it delivers `n` bytes, of the `write` that follows: the
number of bytes that it takes, or a failure. -/
inductive Io where
  | data (n : ℕ) (nw : Option ℕ)
  | wouldBlock
  | eof
  | error
  deriving DecidableEq

/-! ## `write_to_output_stream` -/

/-- An input with its output. -/
structure StreamIo where
  /-- What the other side has written, or writes before it closes, and is not read yet. -/
  unread : List Char
  /-- What was written to the output. -/
  written : List Char
  readTotal : ℕ := 0
  nRead : ℕ := 0
  nWrit : ℕ := 0

namespace StreamIo

/-- Write a chunk that was read. -/
def writeOutput (chunk : List Char) (nw : Option ℕ) (io : StreamIo) :
    Option (WriteResult × StreamIo) :=
  let io := { io with
    readTotal := io.readTotal + chunk.length
    nRead := io.nRead + chunk.length }
  match nw with
  | none => some (.failure, io)
  | some k =>
    if k ≤ chunk.length then
      some (if k = chunk.length then .success else .failure,
        { io with nWrit := io.nWrit + k, written := io.written ++ chunk.take k })
    else none

/-- Read a chunk of `n` bytes into a buffer, and write it. -/
def transfer (bufSize n : ℕ) (nw : Option ℕ) (io : StreamIo) : Option (WriteResult × StreamIo) :=
  if 0 < n ∧ n ≤ bufSize ∧ n ≤ io.unread.length then
    { io with unread := io.unread.drop n }.writeOutput (io.unread.take n) nw
  else none

end StreamIo

/-- The call returns, and makes no further system call. -/
def returns {α : Type} (rest : List Io) (a : α) : Option α := if rest = [] then some a else none

/-- `PIPE_BUF`. -/
def pipeBuf : ℕ := 4096

def echo : List Io → StreamIo → Option (WriteResult × StreamIo)
  | [], _ => none
  | .data n nw :: ios, io =>
    (io.transfer pipeBuf n nw).bind fun (wr, io) =>
      if wr.canContinue then echo ios io else returns ios (wr, io)
  | .wouldBlock :: ios, io =>
    -- a first read that would block, although the stream was ready, is a broken connection
    returns ios (if io.readTotal > 0 then .noOp else .pipeConnBroken, io)
  | .eof :: ios, io => if io.unread = [] then returns ios (.endOfFile, io) else none
  | .error :: ios, io => returns ios (.failure, io)

/-- `POLLERR | POLLHUP | POLLNVAL`. -/
def pollErrHupNval : BitVec 16 := 0x38#16

/-- `write_to_output_stream`, when the output stream has a descriptor: where `fileno()` is -1, it
returns `FAILURE` without a read. -/
def writeToOutputStream (revents : BitVec 16) (ios : List Io) (io : StreamIo) :
    Option (WriteResult × StreamIo) :=
  if revents &&& pollErrHupNval ≠ 0 then
    match ios with
    | [] => none
    | .data n nw :: ios =>
      -- despite the error condition the read returned some data, at most `sizeof(ullint)` bytes
      (io.transfer 8 n nw).bind fun (wr, io) =>
        if wr.canContinue then echo ios io else returns ios (wr, io)
    | .wouldBlock :: ios => returns ios (.pipeConnBroken, io)
    | .eof :: ios => if io.unread = [] then returns ios (.endOfFile, io) else none
    | .error :: ios => returns ios (.failure, io)
  else echo ios io

/-! ### What a call does -/

/-- How many bytes the reads deliver. -/
def delivered : List Io → ℕ
  | [] => 0
  | .data n _ :: ios => n + delivered ios
  | _ :: ios => delivered ios

/-- How many bytes the writes take. -/
def accepted : List Io → ℕ
  | [] => 0
  | .data _ nw :: ios => nw.getD 0 + accepted ios
  | _ :: ios => accepted ios

/-- The write, if there is one, takes all that was read. -/
def Io.isWritten : Io → Bool
  | .data n nw => nw = some n
  | _ => true

/-- Each write takes all that was read. -/
def AllWritten (ios : List Io) : Prop := ∀ io ∈ ios, io.isWritten = true

instance (ios : List Io) : Decidable (AllWritten ios) :=
  inferInstanceAs (Decidable (∀ io ∈ ios, io.isWritten = true))

/-- What the call returns, by the results of its system calls; `readSome` says whether it has read
something before. -/
def outcome : Bool → List Io → WriteResult
  | _, [] => .noOp
  | _, .data n nw :: ios => if nw = some n then outcome true ios else .failure
  | readSome, .wouldBlock :: _ => if readSome then .noOp else .pipeConnBroken
  | _, .eof :: _ => .endOfFile
  | _, .error :: _ => .failure

/-- The bytes that were delivered are gone from the input, and those that were accepted were added
to the output; only at the very end may a write have taken less than what was read. -/
structure Moved (ios : List Io) (unread written unread' written' : List Char) : Prop where
  unread_eq : unread' = unread.drop (delivered ios)
  written_eq : written' = written ++ unread.take (accepted ios)
  delivered_le : delivered ios ≤ unread.length
  accepted_le : accepted ios ≤ delivered ios
  allWritten_iff : AllWritten ios ↔ accepted ios = delivered ios

variable {ios ios' : List Io} {unread written unread' written' unread'' written'' : List Char}
  {io io' : StreamIo} {wr : WriteResult} {n bufSize : ℕ} {nw : Option ℕ}

theorem delivered_append (ios ios' : List Io) :
    delivered (ios ++ ios') = delivered ios + delivered ios' := by
  induction ios with
  | nil => simp [delivered]
  | cons io ios ih =>
    cases io with
    | data n nw => simp only [List.cons_append, delivered, ih, Nat.add_assoc]
    | _ => exact ih

theorem accepted_append (ios ios' : List Io) :
    accepted (ios ++ ios') = accepted ios + accepted ios' := by
  induction ios with
  | nil => simp [accepted]
  | cons io ios ih =>
    cases io with
    | data n nw => simp only [List.cons_append, accepted, ih, Nat.add_assoc]
    | _ => exact ih

theorem allWritten_append :
    AllWritten (ios ++ ios') ↔ AllWritten ios ∧ AllWritten ios' := by
  simp only [AllWritten, List.mem_append, or_imp, forall_and]

theorem Moved.nil : Moved [] unread written unread written :=
  ⟨rfl, by simp [accepted], Nat.zero_le _, Nat.le_refl _, iff_of_true (by simp [AllWritten]) rfl⟩

theorem Moved.append (h : Moved ios unread written unread' written') (hall : AllWritten ios)
    (h' : Moved ios' unread' written' unread'' written'') :
    Moved (ios ++ ios') unread written unread'' written'' := by
  have heq := h.allWritten_iff.1 hall
  have hle := h'.delivered_le
  have hle' := h'.accepted_le
  rw [h.unread_eq, List.length_drop] at hle
  have hle'' := h.delivered_le
  refine ⟨?_, ?_, ?_, ?_, ?_⟩
  · rw [h'.unread_eq, h.unread_eq, List.drop_drop, delivered_append]
  · rw [h'.written_eq, h.written_eq, h.unread_eq, List.append_assoc, accepted_append, heq,
      List.take_add]
  · rw [delivered_append]
    omega
  · rw [delivered_append, accepted_append]
    omega
  · rw [allWritten_append, delivered_append, accepted_append, h'.allWritten_iff, heq]
    simp only [Nat.add_left_cancel_iff, and_iff_right hall]

theorem transfer_spec (h : io.transfer bufSize n nw = some (wr, io')) :
    Moved [.data n nw] io.unread io.written io'.unread io'.written ∧
      wr = (if nw = some n then .success else .failure) ∧ 0 < io'.readTotal := by
  unfold StreamIo.transfer at h
  split at h
  · next hn =>
    have hlength : (io.unread.take n).length = n := by
      rw [List.length_take]
      omega
    cases nw with
    | none =>
      cases h
      refine ⟨⟨by simp [delivered], by simp [accepted], ?_, Nat.zero_le _, ?_⟩, rfl, ?_⟩
      · simp only [delivered]
        omega
      · simp [AllWritten, Io.isWritten, accepted, delivered]
        omega
      · simp only [hlength]
        omega
    | some k =>
      simp only [StreamIo.writeOutput, hlength] at h
      split at h
      · next hk =>
        cases h
        refine ⟨⟨by simp [delivered], ?_, ?_, ?_, ?_⟩, ?_, ?_⟩
        · simp [accepted, List.take_take, Nat.min_eq_left hk]
        · simp only [delivered]
          omega
        · simpa [delivered, accepted] using hk
        · simp [AllWritten, Io.isWritten, accepted, delivered]
        · simp only [Option.some.injEq]
        · simp only
          omega
      · cases h
  · cases h

theorem returns_eq_some {α : Type} {rest : List Io} {a b : α} (h : returns rest a = some b) :
    rest = [] ∧ a = b := by
  unfold returns at h
  split at h
  · next hrest => exact ⟨hrest, Option.some.inj h⟩
  · cases h

/-- A result that delivers nothing. -/
theorem moved_single {first : Io} (h : ∀ n nw, first ≠ .data n nw) :
    Moved [first] unread written unread written ∧ AllWritten [first] := by
  have hall : AllWritten [first] := by
    refine List.forall_mem_singleton.2 ?_
    cases first with
    | data n nw => exact absurd rfl (h n nw)
    | _ => rfl
  have hnone : delivered [first] = 0 ∧ accepted [first] = 0 := by
    cases first with
    | data n nw => exact absurd rfl (h n nw)
    | _ => exact ⟨rfl, rfl⟩
  refine ⟨⟨?_, ?_, ?_, ?_, ?_⟩, hall⟩ <;> simp [hnone, hall]

/-- What a call does to its stream, and what it returns. -/
def Echoes (readSome : Bool) (ios : List Io) (io io' : StreamIo) (wr : WriteResult) : Prop :=
  Moved ios io.unread io.written io'.unread io'.written ∧ wr = outcome readSome ios ∧
    (wr ≠ .failure → AllWritten ios)

/-- The call ends with a result that delivers nothing. -/
theorem echoes_returns {first : Io} {readSome : Bool} (hfirst : ∀ n nw, first ≠ .data n nw)
    (h : returns ios (outcome readSome [first], io) = some (wr, io')) :
    Echoes readSome (first :: ios) io io' wr := by
  obtain ⟨rfl, hret⟩ := returns_eq_some h
  cases hret
  obtain ⟨hmoved, hall⟩ := moved_single hfirst
  exact ⟨hmoved, rfl, fun _ => hall⟩

/-- The call goes on behind a chunk, unless the chunk could not be written. -/
theorem echoes_data {readSome : Bool}
    (hrest : ∀ {io}, echo ios io = some (wr, io') →
      Echoes (decide (0 < io.readTotal)) ios io io' wr)
    (h : ((io.transfer bufSize n nw).bind fun (wr, io) =>
      if wr.canContinue then echo ios io else returns ios (wr, io)) = some (wr, io')) :
    Echoes readSome (.data n nw :: ios) io io' wr := by
  obtain ⟨⟨wr₁, io₁⟩, htransfer, h⟩ := Option.bind_eq_some_iff.1 h
  obtain ⟨hmoved, hwr, htotal⟩ := transfer_spec htransfer
  by_cases hnw : nw = some n
  · rw [if_pos hnw] at hwr
    subst hwr
    obtain ⟨hmoved', hwr', hall⟩ := hrest h
    have hfirst : AllWritten [.data n nw] := by simp [AllWritten, Io.isWritten, hnw]
    refine ⟨hmoved.append hfirst hmoved', ?_, ?_⟩
    · rw [hwr', outcome, if_pos hnw, decide_eq_true htotal]
    · intro hne
      exact allWritten_append.2 ⟨hfirst, hall hne⟩
  · rw [if_neg hnw] at hwr
    subst hwr
    obtain ⟨rfl, hret⟩ := returns_eq_some h
    cases hret
    exact ⟨hmoved, by rw [outcome, if_neg hnw], fun hne => absurd rfl hne⟩

theorem echo_spec (h : echo ios io = some (wr, io')) :
    Echoes (decide (0 < io.readTotal)) ios io io' wr := by
  induction ios generalizing io with
  | nil => cases h
  | cons first ios ih =>
    cases first with
    | data n nw => exact echoes_data ih h
    | wouldBlock =>
      refine echoes_returns nofun ?_
      simpa [echo, outcome] using h
    | eof =>
      refine echoes_returns nofun ?_
      exact (Option.ite_none_right_eq_some.1 h).2
    | error => exact echoes_returns nofun h

/-- **One stream.** What the call reads it writes, in order, and the last of its results decides
what it returns. -/
theorem writeToOutputStream_spec {revents : BitVec 16}
    (h : writeToOutputStream revents ios io = some (wr, io')) (htotal : io.readTotal = 0) :
    Echoes false ios io io' wr := by
  have hecho : echo ios io = some (wr, io') → Echoes false ios io io' wr := by
    intro h
    have hspec := echo_spec h
    rwa [htotal] at hspec
  unfold writeToOutputStream at h
  split at h
  · cases ios with
    | nil => cases h
    | cons first ios =>
      cases first with
      | data n nw => exact echoes_data echo_spec h
      | wouldBlock => exact echoes_returns nofun h
      | eof =>
        refine echoes_returns nofun ?_
        exact (Option.ite_none_right_eq_some.1 h).2
      | error => exact echoes_returns nofun h
  · exact hecho h

/-! ### What a call counts, and when it returns what -/

/-- The two counters. -/
def Counts (ios : List Io) (io io' : StreamIo) : Prop :=
  io'.nRead = io.nRead + delivered ios ∧ io'.nWrit = io.nWrit + accepted ios

theorem counts_transfer (h : io.transfer bufSize n nw = some (wr, io')) :
    Counts [.data n nw] io io' ∧ 0 < n := by
  unfold StreamIo.transfer at h
  split at h
  · next hn =>
    have hlength : (io.unread.take n).length = n := by
      rw [List.length_take]
      omega
    refine ⟨?_, hn.1⟩
    cases nw with
    | none =>
      cases h
      exact ⟨by simp [delivered, hlength], by simp [accepted]⟩
    | some k =>
      simp only [StreamIo.writeOutput, hlength] at h
      split at h
      · cases h
        exact ⟨by simp [delivered], by simp [accepted]⟩
      · cases h
  · cases h

/-- The last of the results: a call that returns `END_OF_FILE` or `NO_OP` has
just seen the reason for it. -/
def Ends (readSome : Bool) (ios : List Io) (wr : WriteResult) : Prop :=
  (wr = .endOfFile → ios.getLast? = some .eof) ∧
    (wr = .noOp → ios.getLast? = some .wouldBlock ∧ (readSome = true ∨ 0 < delivered ios))

theorem Ends.cons {readSome readSome' : Bool} {first : Io} (h : Ends readSome' ios wr)
    (hne : ios ≠ []) (hfirst : 0 < delivered [first]) : Ends readSome (first :: ios) wr := by
  have hlast : (first :: ios).getLast? = ios.getLast? := by
    rw [List.getLast?_cons_of_ne_nil hne]
  have hdelivered : delivered (first :: ios) = delivered [first] + delivered ios :=
    delivered_append [first] ios
  refine ⟨fun heof => hlast.trans (h.1 heof), fun hnoOp => ⟨hlast.trans (h.2 hnoOp).1, .inr ?_⟩⟩
  omega

/-- The call goes on behind a chunk, or returns a failure. -/
theorem counts_data {readSome : Bool}
    (hrest : ∀ {io}, echo ios io = some (wr, io') → Counts ios io io' ∧
      Ends (decide (0 < io.readTotal)) ios wr)
    (h : ((io.transfer bufSize n nw).bind fun (wr, io) =>
      if wr.canContinue then echo ios io else returns ios (wr, io)) = some (wr, io')) :
    Counts (.data n nw :: ios) io io' ∧ Ends readSome (.data n nw :: ios) wr := by
  obtain ⟨⟨wr₁, io₁⟩, htransfer, h⟩ := Option.bind_eq_some_iff.1 h
  obtain ⟨⟨hread, hwrit⟩, hpos⟩ := counts_transfer htransfer
  obtain ⟨-, hwr, -⟩ := transfer_spec htransfer
  by_cases hnw : nw = some n
  · rw [if_pos hnw] at hwr
    subst hwr
    have hecho : echo ios io₁ = some (wr, io') := h
    obtain ⟨⟨hread', hwrit'⟩, hends⟩ := hrest hecho
    have hne : ios ≠ [] := by
      rintro rfl
      cases hecho
    refine ⟨⟨?_, ?_⟩, hends.cons hne (by simpa [delivered] using hpos)⟩
    · rw [hread', hread]
      simp only [delivered]
      omega
    · rw [hwrit', hwrit]
      simp only [accepted]
      omega
  · rw [if_neg hnw] at hwr
    subst hwr
    obtain ⟨rfl, hret⟩ := returns_eq_some h
    cases hret
    exact ⟨⟨hread, hwrit⟩, nofun, nofun⟩

/-- The call ends with a result that delivers nothing. -/
theorem counts_returns {first : Io} {readSome : Bool} {wr' : WriteResult}
    (hfirst : ∀ n nw, first ≠ .data n nw) (hends : Ends readSome [first] wr')
    (h : returns ios (wr', io) = some (wr, io')) :
    Counts (first :: ios) io io' ∧ Ends readSome (first :: ios) wr := by
  obtain ⟨rfl, hret⟩ := returns_eq_some h
  cases hret
  refine ⟨?_, hends⟩
  cases first with
  | data n nw => exact absurd rfl (hfirst n nw)
  | _ => exact ⟨rfl, rfl⟩

theorem ends_eof (readSome : Bool) : Ends readSome [.eof] .endOfFile := ⟨fun _ => rfl, nofun⟩

theorem ends_error (readSome : Bool) : Ends readSome [.error] .failure := ⟨nofun, nofun⟩

theorem echo_counts (h : echo ios io = some (wr, io')) :
    Counts ios io io' ∧ Ends (decide (0 < io.readTotal)) ios wr := by
  induction ios generalizing io with
  | nil => cases h
  | cons first ios ih =>
    cases first with
    | data n nw => exact counts_data ih h
    | wouldBlock =>
      refine counts_returns nofun ?_ h
      split
      · next htotal => exact ⟨nofun, fun _ => ⟨rfl, .inl (decide_eq_true htotal)⟩⟩
      · exact ⟨nofun, nofun⟩
    | eof => exact counts_returns nofun (ends_eof _) (Option.ite_none_right_eq_some.1 h).2
    | error => exact counts_returns nofun (ends_error _) h

theorem writeToOutputStream_counts {revents : BitVec 16}
    (h : writeToOutputStream revents ios io = some (wr, io')) (htotal : io.readTotal = 0) :
    Counts ios io io' ∧ Ends false ios wr := by
  have hecho : echo ios io = some (wr, io') → Counts ios io io' ∧ Ends false ios wr := by
    intro h
    have hcounts := echo_counts h
    rwa [htotal] at hcounts
  unfold writeToOutputStream at h
  split at h
  · cases ios with
    | nil => cases h
    | cons first ios =>
      cases first with
      | data n nw => exact counts_data echo_counts h
      | wouldBlock =>
        have hends : Ends false [.wouldBlock] .pipeConnBroken := ⟨nofun, nofun⟩
        exact counts_returns nofun hends h
      | eof => exact counts_returns nofun (ends_eof _) (Option.ite_none_right_eq_some.1 h).2
      | error => exact counts_returns nofun (ends_error _) h
  · exact hecho h

/-- What a call read and what it wrote: the written bytes are a prefix of the read ones, the
counters count them, nothing is missing unless the call fails, and the last read says why the call
returns. -/
structure Echoed (ios : List Io) (io io' : StreamIo) (wr : WriteResult)
    (read wrote : List Char) : Prop where
  unread_eq : io.unread = read ++ io'.unread
  written_eq : io'.written = io.written ++ wrote
  isPrefix : wrote <+: read
  nRead_eq : io'.nRead = io.nRead + read.length
  nWrit_eq : io'.nWrit = io.nWrit + wrote.length
  all_written : wr ≠ .failure → wrote = read
  endOfFile : wr = .endOfFile → ios.getLast? = some .eof
  noOp : wr = .noOp → read ≠ [] ∧ ios.getLast? = some .wouldBlock

/-- **Echoing one stream**, whatever the results of its system calls are. -/
theorem writeToOutputStream_echoes {revents : BitVec 16} {ios : List Io}
    {unread written : List Char} {nRead nWrit : ℕ} {io' : StreamIo} {wr : WriteResult}
    (h : writeToOutputStream revents ios { unread, written, nRead, nWrit } = some (wr, io')) :
    ∃ read wrote, Echoed ios { unread, written, nRead, nWrit } io' wr read wrote := by
  obtain ⟨hmoved, -, hall⟩ := writeToOutputStream_spec h rfl
  obtain ⟨⟨hread, hwrit⟩, heof, hnoOp⟩ := writeToOutputStream_counts h rfl
  have hdelivered := hmoved.delivered_le
  have haccepted := hmoved.accepted_le
  have hlength : (unread.take (delivered ios)).length = delivered ios := by
    rw [List.length_take, Nat.min_eq_left hdelivered]
  refine ⟨unread.take (delivered ios), unread.take (accepted ios), ?_, hmoved.written_eq,
    ?_, ?_, ?_, ?_, heof, ?_⟩
  · rw [hmoved.unread_eq, List.take_append_drop]
  · exact List.take_prefix_take_left haccepted
  · rw [hread, hlength]
  · rw [hwrit, List.length_take, Nat.min_eq_left (Nat.le_trans haccepted hdelivered)]
  · intro hne
    rw [hmoved.allWritten_iff.1 (hall hne)]
  · intro heq
    obtain ⟨hlast, hpos⟩ := hnoOp heq
    refine ⟨List.ne_nil_of_length_pos ?_, hlast⟩
    rw [hlength]
    exact hpos.resolve_left Bool.false_ne_true

/-- Two bytes behind a hang-up, and a read that would block. -/
theorem writeToOutputStream_echoes_two :
    ∃ io', writeToOutputStream 0x10 [.data 2 (some 2), .wouldBlock]
        { unread := ['o', 'k'], written := ['>'] } = some (.noOp, io') ∧
      ∃ read wrote, Echoed [.data 2 (some 2), .wouldBlock]
        { unread := ['o', 'k'], written := ['>'] } io' .noOp read wrote := by
  obtain ⟨io', h⟩ : ∃ io', writeToOutputStream 0x10 [.data 2 (some 2), .wouldBlock]
      { unread := ['o', 'k'], written := ['>'] } = some (.noOp, io') := ⟨_, rfl⟩
  exact ⟨io', h, writeToOutputStream_echoes h⟩

/-! ## `read_multi_stream` -/

structure StreamCtx where
  origFd : Fd := -1
  dupFd : Fd := -1
  deriving DecidableEq

def StreamCtx.isValidInit (ctx : StreamCtx) : Bool := decide (ctx.origFd ≥ 0 ∧ ctx.dupFd ≠ -1)

structure ReactIoCtx where
  stdoutCtx : StreamCtx := {}
  stderrCtx : StreamCtx := {}
  stdinCtx : StreamCtx := {}
  deriving DecidableEq

/-- The `FILE` streams of the outputs. -/
inductive OutputStream where
  | stdout
  | stderr
  | wrt
  deriving DecidableEq

/-- The state of `multi_read_on_ready`, with all inputs and outputs. -/
structure EchoState where
  fdMap : List (Fd × ReactIoCtx)
  outputStreamsMap : List (Fd × OutputStream)
  ec : ℕ := 0
  wr : WriteResult := .noOp
  unread : Fd → List Char
  written : OutputStream → List Char := fun _ => []
  bytesWritten : OutputStream → ℕ := fun _ => 0

namespace EchoState

def getReactIoCtx (s : EchoState) (fd : Fd) : Option ReactIoCtx := s.fdMap.lookup fd

def getMutableStreamCtx (s : EchoState) (fd : Fd) : Option StreamCtx :=
  (s.fdMap.lookup fd).bind fun ctx =>
    if ctx.stdoutCtx.origFd = fd then some ctx.stdoutCtx
    else if ctx.stderrCtx.origFd = fd then some ctx.stderrCtx
    else if ctx.stdinCtx.origFd = fd then some ctx.stdinCtx
    else none

/-- `rms.remove(fd)` and `output_streams_map.erase(fd)`. -/
def remove (s : EchoState) (fd : Fd) : EchoState :=
  { s with
    fdMap := s.fdMap.filter fun entry => entry.1 ≠ fd
    outputStreamsMap := s.outputStreamsMap.filter fun entry => entry.1 ≠ fd }

end EchoState

/-! ## `multi_read_on_ready` -/

/-- A descriptor that `poll` reports, and the results of the calls on it in this round. -/
structure PollfdResult where
  fd : Fd
  revents : BitVec 16
  ios : List Io
  deriving DecidableEq

inductive PollResult where
  | eintr
  | ready (pollfds : List PollfdResult)
  deriving DecidableEq

namespace EchoState

/-- The call of `write_to_output_stream` for a descriptor, on a thread of its own if there are
several; the calls share nothing. -/
def runFuture (p : PollfdResult) (out : OutputStream) (s : EchoState) :
    Option (EchoState × WriteResult) :=
  (writeToOutputStream p.revents p.ios
    { unread := s.unread p.fd, written := s.written out, nWrit := s.bytesWritten out }).map
    fun (wr, io) => ({ s with
      unread := fun fd => if fd = p.fd then io.unread else s.unread fd
      written := fun o => if o = out then io.written else s.written o
      bytesWritten := fun o => if o = out then io.nWrit else s.bytesWritten o }, wr)

/-- The first loop of a round: the results of the futures, with their descriptors. -/
def launch : List PollfdResult → EchoState → Option (EchoState × List (Fd × WriteResult))
  | [], s => some (s, [])
  | p :: ps, s =>
    match s.getMutableStreamCtx p.fd with
    | none => if p.ios = [] then launch ps s else none
    | some ctx =>
      if ctx.isValidInit then
        match s.outputStreamsMap.lookup p.fd with
        | none => if p.ios = [] then launch ps s else none
        | some out =>
          (s.runFuture p out).bind fun (s, wr) =>
            (launch ps s).map fun (s, results) => (s, (p.fd, wr) :: results)
      else
        -- corrupted runtime state
        if p.ios = [] then some (s.remove p.fd, []) else none

/-- One result in the second loop of a round. -/
def obtainResult (s : EchoState) (result : Fd × WriteResult) : EchoState :=
  if result.2.canContinue then s
  else
    let s := match s.getReactIoCtx result.1 with
      | none => s
      | some ctx =>
        ([ctx.stdoutCtx.origFd, ctx.stderrCtx.origFd, ctx.stdinCtx.origFd].filter
          (· ≠ -1)).foldl remove s
    let s := if s.wr = .noOp then { s with wr := result.2 } else s
    if result.2 ≠ .endOfFile then { s with ec := 1 } else s

/-- A round of the loop: `poll` reports each of its descriptors at most once. -/
def round (s : EchoState) : PollResult → Option EchoState
  | .eintr => if s.fdMap = [] then none else some s
  | .ready ps =>
    if s.fdMap ≠ [] ∧ ps ≠ [] ∧ (ps.map (·.fd)).Nodup ∧
        ∀ p ∈ ps, p.fd ∈ s.fdMap.map (·.1) ∧ p.revents ≠ 0 then
      (launch ps { s with wr := .noOp }).map fun (s, results) => results.foldl obtainResult s
    else none

/-- The rounds until no descriptor is left. -/
def multiReadOnReady (s : EchoState) (rounds : List PollResult) : Option EchoState :=
  (run round s rounds).filter fun t => t.fdMap.isEmpty

end EchoState

end Spartan
