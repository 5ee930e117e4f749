import SpartanLauncher.Lib.CString
import SpartanLauncher.Message

/-!
# The receive loop of `supervisor()`

The loop takes one message after the other off the queue and gives each to `msg_dispatch`. It
works on one buffer, and on two variables that both the error branch and the dispatch assign.

**Theorem (`receiveLoop_faithful_iff`).** When every dispatch asks to continue, the loop passes
on exactly the messages that arrive, and ends at the first error, if and only if there is no error.

Without an error each iteration adds one call or none (`receiveLoop_of_no_error`). At an error the
branch falls through to `msg_dispatch`, whose result replaces the decision to end, and the next
iteration dereferences the queue that the branch has closed (`receiveLoop_crashes`).
-/

namespace Spartan

open CString

/-! ## Dispatch of a message -/

def exitSuccess : ℤ := 0
def exitFailure : ℤ := 1

/-- `processor_result_t`: whether to continue, and the exit code. -/
abbrev ProcessorResult := Bool × ℤ

/-- What a dispatch does besides its result. -/
inductive DispatchEffect where
  | stop
  | shutdown
  /-- Answer a status request on the socket with this name, on a thread of its own. -/
  | statusResponse (udsSocketName : Option (List Char))
  | statusIgnored
  | enQueued (msg : List Char)
  | refused (msg : List Char)
  deriving DecidableEq

/-- The conversion of an `int` to `size_t`. -/
def toSizeT (n : ℤ) : ℕ := (n % 2 ^ 64).toNat

/-- `en_queue_dispatch_msg`; `locked` tells whether it obtained the lock. -/
def enQueueDispatchMsg (locked : Bool) (msg : List Char) : DispatchEffect × ProcessorResult :=
  if locked then (.enQueued msg, (true, exitSuccess)) else (.refused msg, (false, exitFailure))

def msgDispatchForLauncher (locked : Bool) (buffer : List Char) (msgSize : ℤ) :
    DispatchEffect × ProcessorResult :=
  let msgDup := strndup buffer (toSizeT msgSize)
  if msgDup = stopCmd then (.stop, (false, exitSuccess)) else enQueueDispatchMsg locked msgDup

/-- `ec` is the exit code of the Java shutdown method, `quitting` the disjunction of `flag`,
`shutting_down` and `jvm_shutting_down`. -/
def msgDispatchForSupervisor (locked quitting : Bool) (ec : ℤ) (buffer : List Char)
    (msgSize : ℤ) : DispatchEffect × ProcessorResult :=
  let msgDup := strndup buffer (toSizeT msgSize)
  if msgDup = shutdownCmd then (.shutdown, (false, ec))
  else if strncmpEq msgDup statusCmd statusCmd.length then
    if quitting then (.statusIgnored, (true, exitSuccess))
    else
      let udsSocketName := (strtok ' ' msgDup).bind fun (_, save) => (strtok ' ' save).map Prod.fst
      (.statusResponse udsSocketName, (true, exitSuccess))
  else enQueueDispatchMsg locked msgDup

/-- A message is dispatched with its own bytes. -/
theorem strndup_message {msg : List Char} (hnul : '\x00' ∉ msg) (hlt : msg.length < 2 ^ 64)
    (rest : List Char) : strndup (msg ++ rest) (toSizeT msg.length) = msg := by
  have hsize : toSizeT msg.length = msg.length := by
    unfold toSizeT
    omega
  rw [strndup, hsize, List.take_left, cstr_of_nulFree hnul]

/-- The size that stands for an error, as a `size_t`, is no limit. -/
theorem strndup_error {buffer : List Char} (hlt : buffer.length < 2 ^ 64) :
    strndup buffer (toSizeT (-1)) = cstr buffer := by
  have hsize : toSizeT (-1) = 2 ^ 64 - 1 := rfl
  rw [strndup, hsize, List.take_of_length_le (by omega)]

/-- **What the error branch dispatches.** When the buffer holds a message with a NUL behind it, a
dispatch of size -1 is the dispatch of that message once more. -/
theorem dispatch_error_repeats {buffer msg rest : List Char} (locked quitting : Bool) (ec : ℤ)
    (hbuffer : buffer = msg ++ '\x00' :: rest) (hnul : '\x00' ∉ msg)
    (hlt : buffer.length < 2 ^ 64) :
    msgDispatchForLauncher locked buffer (-1) =
        msgDispatchForLauncher locked buffer msg.length ∧
      msgDispatchForSupervisor locked quitting ec buffer (-1) =
        msgDispatchForSupervisor locked quitting ec buffer msg.length := by
  have hlength : msg.length < 2 ^ 64 := by
    rw [hbuffer, List.length_append] at hlt
    omega
  have hrepeat : strndup buffer (toSizeT (-1)) = strndup buffer (toSizeT msg.length) := by
    rw [strndup_error hlt, hbuffer, cstr_append_nul hnul, strndup_message hnul hlength]
  constructor
  · simp only [msgDispatchForLauncher, hrepeat]
  · simp only [msgDispatchForSupervisor, hrepeat]

/-! ## The loop -/

def eTimedOut : ℕ := 110

/-- What `mq_timedreceive` returns: the bytes of a message, or an `errno`. -/
inductive Received where
  | message (bytes : List Char)
  | failed (ern : ℕ)
  deriving DecidableEq

/-- An error other than a timeout. -/
def Received.IsError : Received → Prop
  | .message _ => False
  | .failed ern => ern ≠ eTimedOut

instance : DecidablePred Received.IsError
  | .message _ => inferInstanceAs (Decidable False)
  | .failed ern => inferInstanceAs (Decidable (ern ≠ eTimedOut))

/-- A call of `msg_dispatch`, with the whole buffer at that time. -/
structure DispatchCall where
  buffer : List Char
  msgSize : ℤ
  result : ProcessorResult
  deriving DecidableEq

structure LoopState where
  buffer : List Char
  /-- `mqd_sp` is not null. -/
  mqdOpen : Bool := true
  loopContinue : Bool := true
  exitCode : ℤ := exitSuccess
  calls : List DispatchCall := []
  deriving DecidableEq

inductive LoopStatus where
  /-- About to call `mq_timedreceive`. -/
  | receiving
  | ended
  /-- The null pointer `mqd_sp` was dereferenced. -/
  | crashed
  deriving DecidableEq

/-- `msg_dispatch` may depend on what happened before. -/
abbrev MsgDispatch := List DispatchCall → List Char → ℤ → ProcessorResult

variable {msgDispatch : MsgDispatch} {s : LoopState} {os : List Received}

/-- The end of an iteration: the dispatch, and its result in the two variables of the loop. -/
def dispatchBuffer (msgDispatch : MsgDispatch) (s : LoopState) (msgSize : ℤ) : LoopState :=
  let dispatchRslt := msgDispatch s.calls s.buffer msgSize
  { s with
    loopContinue := dispatchRslt.1
    exitCode := dispatchRslt.2
    calls := s.calls ++ [⟨s.buffer, msgSize, dispatchRslt⟩] }

/-- The body of the loop, with the flag at zero. -/
def iteration (msgDispatch : MsgDispatch) (s : LoopState) : Received → LoopState
  | .message bytes =>
    let s := { s with buffer := bytes ++ s.buffer.drop bytes.length }
    if bytes.length = 0 then s else dispatchBuffer msgDispatch s bytes.length
  | .failed ern =>
    if ern = eTimedOut then s
    else
      -- falls through to the dispatch, with -1 for the size of the message
      dispatchBuffer msgDispatch
        { s with mqdOpen := false, loopContinue := false, exitCode := exitFailure } (-1)

/-- The loop on the outcomes of `mq_timedreceive`, which all its iterations consume in turn. -/
def receiveLoop (msgDispatch : MsgDispatch) (s : LoopState) :
    List Received → LoopStatus × LoopState
  | [] => (if s.mqdOpen then .receiving else .crashed, s)
  | o :: os =>
    if s.mqdOpen then
      let t := iteration msgDispatch s o
      if t.loopContinue then receiveLoop msgDispatch t os else (.ended, t)
    else (.crashed, s)

/-! ## Iterations -/

/-- The message that an outcome asks to be dispatched. -/
def Received.arrived : Received → Option (List Char)
  | .message bytes => if bytes.length = 0 then none else some bytes
  | .failed _ => none

/-- The part of the buffer that a dispatch is told to look at, with the size it is told. -/
def DispatchCall.passed (c : DispatchCall) : List Char × ℤ :=
  (c.buffer.take c.msgSize.toNat, c.msgSize)

/-- Without an error, an iteration keeps the queue open and adds a call for the message that
arrived. -/
theorem iteration_of_no_error (msgDispatch : MsgDispatch) (s : LoopState) {o : Received}
    (ho : ¬ o.IsError) :
    (iteration msgDispatch s o).mqdOpen = s.mqdOpen ∧
      ∃ calls, (iteration msgDispatch s o).calls = s.calls ++ calls ∧
        calls.map DispatchCall.passed =
          o.arrived.toList.map (fun msg => (msg, (msg.length : ℤ))) ∧
        ((∀ c ∈ calls, c.result.1 = true) → s.loopContinue = true →
          (iteration msgDispatch s o).loopContinue = true) := by
  cases o with
  | message bytes =>
    simp only [iteration, Received.arrived]
    split_ifs with hsize
    · exact ⟨rfl, [], by simp⟩
    · exact ⟨rfl, [_], rfl, by simp [DispatchCall.passed], fun h _ => h _ List.mem_cons_self⟩
  | failed ern =>
    simp only [Received.IsError, not_not] at ho
    simp only [iteration, if_pos ho, Received.arrived]
    exact ⟨trivial, [], by simp⟩

/-- At an error the queue is closed and `msg_dispatch` is called for a message of size -1. -/
theorem iteration_of_error (msgDispatch : MsgDispatch) (s : LoopState) {o : Received}
    (ho : o.IsError) :
    (iteration msgDispatch s o).mqdOpen = false ∧
      ∃ c, (iteration msgDispatch s o).calls = s.calls ++ [c] ∧ c.msgSize = -1 ∧
        (iteration msgDispatch s o).loopContinue = c.result.1 := by
  cases o with
  | message bytes => exact ho.elim
  | failed ern =>
    simp only [iteration, if_neg ho]
    exact ⟨rfl, _, rfl, rfl, rfl⟩

theorem receiveLoop_cons {o : Received} (hopen : s.mqdOpen = true)
    (hcontinue : (iteration msgDispatch s o).loopContinue = true) :
    receiveLoop msgDispatch s (o :: os) =
      receiveLoop msgDispatch (iteration msgDispatch s o) os := by
  simp only [receiveLoop, hopen, hcontinue, if_true]

/-- Calls are only added. -/
theorem calls_grow : s.calls <+: (receiveLoop msgDispatch s os).2.calls := by
  induction os generalizing s with
  | nil => exact List.prefix_rfl
  | cons o os ih =>
    have hstep : s.calls <+: (iteration msgDispatch s o).calls := by
      by_cases ho : o.IsError
      · obtain ⟨-, c, hc, -⟩ := iteration_of_error msgDispatch s ho
        exact hc ▸ List.prefix_append _ _
      · obtain ⟨-, calls, hc, -⟩ := iteration_of_no_error msgDispatch s ho
        exact hc ▸ List.prefix_append _ _
    simp only [receiveLoop]
    split_ifs
    · exact hstep.trans ih
    · exact hstep
    · exact List.prefix_rfl

/-! ## Runs of the loop -/

/-- The messages that arrive before the first error. -/
def arrivals (os : List Received) : List (List Char) :=
  (os.takeWhile fun o => !decide o.IsError).filterMap Received.arrived

/-- The messages that arrive before the first error are dispatched, each once, with their own
bytes and in order; nothing else is; and the first error ends the loop with a failure. -/
structure Faithful (os : List Received) (result : LoopStatus × LoopState) : Prop where
  calls : result.2.calls.map DispatchCall.passed =
    (arrivals os).map fun msg => (msg, (msg.length : ℤ))
  error_ends : (∃ o ∈ os, o.IsError) → result.1 = .ended ∧ result.2.exitCode = exitFailure

/-- The calls made in an iteration are among those of the whole run. -/
theorem result_of_prefix {t : LoopState}
    (hcontinue : ∀ c ∈ (receiveLoop msgDispatch t os).2.calls, c.result.1 = true) :
    ∀ c ∈ t.calls, c.result.1 = true :=
  fun c hc => hcontinue c (calls_grow.subset hc)

/-- The calls of the run contain those of its first iteration. -/
theorem continue_of_cons {o : Received} (hopen : s.mqdOpen = true)
    (hcontinue : ∀ c ∈ (receiveLoop msgDispatch s (o :: os)).2.calls, c.result.1 = true) :
    ∀ c ∈ (iteration msgDispatch s o).calls, c.result.1 = true := by
  simp only [receiveLoop, hopen, if_true] at hcontinue
  split_ifs at hcontinue
  · exact result_of_prefix hcontinue
  · exact hcontinue

/-- Without an error the loop goes on receiving, and dispatches what arrives. -/
theorem receiveLoop_of_no_error (hopen : s.mqdOpen = true) (hloop : s.loopContinue = true)
    (hos : ∀ o ∈ os, ¬ o.IsError)
    (hcontinue : ∀ c ∈ (receiveLoop msgDispatch s os).2.calls, c.result.1 = true) :
    (receiveLoop msgDispatch s os).2.calls.map DispatchCall.passed =
      s.calls.map DispatchCall.passed ++
        (os.filterMap Received.arrived).map fun msg => (msg, (msg.length : ℤ)) := by
  induction os generalizing s with
  | nil => simp [receiveLoop]
  | cons o os ih =>
    have ho := hos o List.mem_cons_self
    obtain ⟨hopen', calls, hcalls, hpassed, hnext⟩ :=
      iteration_of_no_error msgDispatch s ho
    have hfirst : ∀ c ∈ calls, c.result.1 = true := fun c hc =>
      continue_of_cons hopen hcontinue c (hcalls ▸ List.mem_append_right _ hc)
    have hloop' := hnext hfirst hloop
    rw [receiveLoop_cons hopen hloop'] at hcontinue ⊢
    rw [ih (hopen'.trans hopen) hloop' (fun o' ho' => hos o' (List.mem_cons_of_mem o ho'))
      hcontinue, hcalls, List.map_append, hpassed, List.filterMap_cons]
    cases o.arrived <;> simp

/-- When the dispatch at the first error asks to continue, as all others do, the next iteration
works on the closed queue. -/
theorem receiveLoop_crashes (hopen : s.mqdOpen = true) (hloop : s.loopContinue = true)
    (hos : ∃ o ∈ os, o.IsError)
    (hcontinue : ∀ c ∈ (receiveLoop msgDispatch s os).2.calls, c.result.1 = true) :
    (receiveLoop msgDispatch s os).1 = .crashed := by
  induction os generalizing s with
  | nil => simp at hos
  | cons o os ih =>
    have hall := continue_of_cons hopen hcontinue
    by_cases ho : o.IsError
    · obtain ⟨hclosed, c, hc, -, hresult⟩ :=
        iteration_of_error msgDispatch s ho
      have hloop' := hresult.trans (hall c (by simp [hc]))
      rw [receiveLoop_cons hopen hloop']
      cases os <;> simp [receiveLoop, hclosed]
    · obtain ⟨hopen', calls, hcalls, -, hnext⟩ :=
        iteration_of_no_error msgDispatch s ho
      have hloop' := hnext (fun c hc => hall c (by simp [hcalls, hc])) hloop
      rw [receiveLoop_cons hopen hloop'] at hcontinue ⊢
      refine ih (hopen'.trans hopen) hloop' ?_ hcontinue
      simpa [ho] using hos

/-- **The receive loop is faithful exactly on sequences without an error.** -/
theorem receiveLoop_faithful_iff (msgDispatch : MsgDispatch) (buffer : List Char)
    (os : List Received)
    (hcontinue : ∀ c ∈ (receiveLoop msgDispatch { buffer := buffer } os).2.calls,
      c.result.1 = true) :
    Faithful os (receiveLoop msgDispatch { buffer := buffer } os) ↔ ∀ o ∈ os, ¬ o.IsError := by
  refine ⟨?_, ?_⟩
  · rintro ⟨-, hends⟩ o ho herr
    have hcrash := receiveLoop_crashes (s := { buffer := buffer }) rfl rfl ⟨o, ho, herr⟩ hcontinue
    rw [(hends ⟨o, ho, herr⟩).1] at hcrash
    cases hcrash
  · intro hos
    refine ⟨?_, fun ⟨o, ho, herr⟩ => absurd herr (hos o ho)⟩
    rw [receiveLoop_of_no_error (s := { buffer := buffer }) rfl rfl hos hcontinue, arrivals,
      List.takeWhile_eq_self_iff.2 (by simpa using hos)]
    simp

/-- Two messages, an empty one and a timeout in the launcher. -/
theorem receiveLoop_faithful_two :
    let msgDispatch : MsgDispatch := fun _ buffer msgSize =>
      (msgDispatchForLauncher true buffer msgSize).2
    let os : List Received := [.message "- u abc".toList, .message [], .failed eTimedOut,
      .message "- u".toList]
    Faithful os (receiveLoop msgDispatch { buffer := List.replicate msgBufSz '\x00' } os) := by
  intro msgDispatch os
  refine (receiveLoop_faithful_iff msgDispatch _ os ?_).2 (by decide)
  decide +kernel

/-- After an error the launcher enqueues the message before it once more, and crashes. -/
theorem receiveLoop_not_faithful :
    let msgDispatch : MsgDispatch := fun _ buffer msgSize =>
      (msgDispatchForLauncher true buffer msgSize).2
    let os : List Received := [.message "- u abc".toList, .failed 9]
    let result := receiveLoop msgDispatch { buffer := List.replicate msgBufSz '\x00' } os
    (∀ c ∈ result.2.calls, c.result.1 = true) ∧ ¬ Faithful os result := by
  intro msgDispatch os result
  refine ⟨by decide +kernel, ?_⟩
  intro hfaithful
  have hends := hfaithful.error_ends (by decide)
  revert hends
  decide +kernel

end Spartan
