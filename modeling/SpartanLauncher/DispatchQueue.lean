import SpartanLauncher.Lib.CString
import SpartanLauncher.Lib.Machine

/-!
# The dispatch queue of `supervisor()`

The receive loop puts messages on `dispatch_msg_queue` (`en_queue_dispatch_msg`), a dedicated
thread takes batches of them off and hands them to `handle_dispatch_msg`
(`de_queue_dispatch_msg_thrd`), and in the launcher a third thread lowers
`child_process_count` when a child terminates (`child_process_completion`). All three meet in
the timed mutex `qm`.

**Theorem (`dispatch_exactly_once`).** In every interleaving, the messages handed over are a
prefix of the messages accepted, and the rest of the accepted messages are the not yet handed
over part of the batch followed by the queue.

`DispatchTrans` says once what each step does. The proof is the conservation law
`step_messages`: no step changes the sequence "handed, batch, queue", except an accepted message,
which goes to its end.
-/

namespace Spartan

open Machine

/-! ## The machine -/

/-- What differs between the launcher process and the supervisor process. -/
structure DispatchCfg where
  isLauncherProcess : Bool
  childProcessMaxCount : ℤ

/-- Where `de_queue_dispatch_msg_thrd` stands in its loop. The mutex `qm` is held across actions
only at `locked`: `wait_for` releases it while it blocks. -/
inductive DeQueue (μ : Type*) where
  | idle
  /-- Blocked in `qcv.wait_for`. -/
  | waiting
  /-- Out of `qcv.wait_for`, with the headroom its predicate computed last. -/
  | locked (countHeadroom : ℤ)
  /-- In the loop over `msg_array_sp`, with the messages not yet handed over. -/
  | handling (msgs : List μ)
  deriving DecidableEq

structure DispatchState (μ : Type*) where
  dispatchMsgQueue : List μ := []
  qready : Bool := false
  /-- Starts at one for the process of the JVM `main()` method. -/
  childProcessCount : ℤ := 1
  thread : DeQueue μ := .idle
  /-- The messages given to `handle_dispatch_msg` so far. -/
  handed : List μ := []
  deriving DecidableEq

inductive DispatchAct (μ : Type*) where
  /-- `en_queue_dispatch_msg` when it obtains the lock, -/
  | enQueue (msg : μ)
  /-- and when `try_lock_for` gives up after five seconds. -/
  | refuse (msg : μ)
  /-- The de-queue thread's own `try_lock_for` gives up. -/
  | lockFails
  /-- The de-queue thread obtains the lock and enters `qcv.wait_for`. -/
  | wait
  /-- The blocked thread wakes up, notified, spuriously or because its two seconds are over. -/
  | wake (timeout : Bool)
  /-- It takes a batch off the queue and releases the lock. -/
  | take
  /-- It hands the next message of the batch to `handle_dispatch_msg`. -/
  | handle
  /-- `child_process_completion`, with the lock or without. -/
  | completion (locked : Bool)
  deriving DecidableEq

variable {μ : Type*}

namespace DispatchState

/-- The part of the current batch that is still to be handed over. -/
def batch (s : DispatchState μ) : List μ :=
  match s.thread with
  | .handling msgs => msgs
  | _ => []

/-- Nobody holds `qm` from one action to the next. -/
def lockFree (s : DispatchState μ) : Bool :=
  match s.thread with
  | .locked _ => false
  | _ => true

/-- Every message accepted so far: handed over, in the batch, or queued. -/
def messages (s : DispatchState μ) : List μ := s.handed ++ s.batch ++ s.dispatchMsgQueue

end DispatchState

/-- The predicate of `qcv.wait_for`, with the headroom it leaves in `countHeadroom`. -/
def headroom (cfg : DispatchCfg) (s : DispatchState μ) : ℤ :=
  cfg.childProcessMaxCount - s.childProcessCount

def waitPredicate (cfg : DispatchCfg) (s : DispatchState μ) : Bool :=
  s.qready && decide (headroom cfg s > 0)

/-- `deQueueCount` as computed from the size of the queue and the captured headroom. -/
def deQueueCount (size : ℕ) (countHeadroom : ℤ) : ℤ :=
  let queueCount := CString.toInt32 size
  if queueCount > countHeadroom then countHeadroom else queueCount

/-- The locked block after `wait_for`, once `deQueueCount` is known. -/
def takeBatch (s : DispatchState μ) (deQueueCount : ℤ) : DispatchState μ :=
  if deQueueCount > 0 then
    { s with
      qready := false
      thread := .handling (s.dispatchMsgQueue.take deQueueCount.toNat)
      dispatchMsgQueue := s.dispatchMsgQueue.drop deQueueCount.toNat
      childProcessCount := s.childProcessCount + deQueueCount }
  else { s with qready := false, thread := .idle }

/-- `child_process_completion`: the counter goes down in both branches. -/
def childProcessCompletion (cfg : DispatchCfg) (s : DispatchState μ) (locked : Bool) :
    DispatchState μ :=
  if locked && decide (s.childProcessCount < cfg.childProcessMaxCount) &&
      !s.dispatchMsgQueue.isEmpty then
    { s with childProcessCount := s.childProcessCount - 1, qready := true }
  else { s with childProcessCount := s.childProcessCount - 1 }

/-- One action of one of the three threads, in a run where `jvm_shutting_down` is never set. -/
def dispatchStep (cfg : DispatchCfg) (s : DispatchState μ) :
    DispatchAct μ → Option (DispatchState μ)
  | .enQueue msg =>
    if s.lockFree then
      some { s with dispatchMsgQueue := s.dispatchMsgQueue ++ [msg], qready := true }
    else none
  | .refuse _ => some s
  | .lockFails =>
    match s.thread with
    | .idle => some s
    | _ => none
  | .wait =>
    match s.thread with
    | .idle =>
      some { s with thread := if waitPredicate cfg s then .locked (headroom cfg s) else .waiting }
    | _ => none
  | .wake timeout =>
    match s.thread with
    | .waiting =>
      some { s with thread := if waitPredicate cfg s || timeout then .locked (headroom cfg s)
        else .waiting }
    | _ => none
  | .take =>
    match s.thread with
    | .locked countHeadroom =>
      some (takeBatch s (deQueueCount s.dispatchMsgQueue.length countHeadroom))
    | _ => none
  | .handle =>
    match s.thread with
    | .handling (msg :: msgs) =>
      some { s with
        handed := s.handed ++ [msg]
        thread := if msgs.isEmpty then .idle else .handling msgs
        -- `handle_supervisor_msg` starts with `child_process_count--`
        childProcessCount :=
          if cfg.isLauncherProcess then s.childProcessCount else s.childProcessCount - 1 }
    | _ => none
  | .completion locked =>
    if locked && !s.lockFree then none else some (childProcessCompletion cfg s locked)

/-! ## What one step does -/

variable {cfg : DispatchCfg} {s t : DispatchState μ} {a : DispatchAct μ}

theorem deQueueCount_le_headroom (size : ℕ) (h : ℤ) : deQueueCount size h ≤ h := by
  simp only [deQueueCount]
  split_ifs <;> omega

theorem deQueueCount_le_size (size : ℕ) (h : ℤ) : deQueueCount size h ≤ size := by
  have := CString.toInt32_le (Int.natCast_nonneg size)
  simp only [deQueueCount]
  split_ifs <;> omega

/-- The batch comes off the front of the queue, and the counter goes up by its size. -/
theorem takeBatch_spec (s : DispatchState μ) (d : ℤ) :
    (takeBatch s d).dispatchMsgQueue = s.dispatchMsgQueue.drop d.toNat ∧
      (takeBatch s d).batch = s.dispatchMsgQueue.take d.toNat ∧
      (takeBatch s d).handed = s.handed ∧
      (takeBatch s d).childProcessCount = s.childProcessCount + d.toNat := by
  unfold takeBatch
  split_ifs with hd
  · exact ⟨rfl, rfl, rfl, by rw [Int.toNat_of_nonneg (by omega)]⟩
  · rw [Int.toNat_of_nonpos (by omega)]
    simp [DispatchState.batch]

theorem childProcessCompletion_count (cfg : DispatchCfg) (s : DispatchState μ) (locked : Bool) :
    (childProcessCompletion cfg s locked).childProcessCount = s.childProcessCount - 1 := by
  unfold childProcessCompletion
  split_ifs <;> rfl

theorem childProcessCompletion_messages (cfg : DispatchCfg) (s : DispatchState μ)
    (locked : Bool) :
    (childProcessCompletion cfg s locked).handed = s.handed ∧
      (childProcessCompletion cfg s locked).thread = s.thread ∧
      (childProcessCompletion cfg s locked).dispatchMsgQueue = s.dispatchMsgQueue := by
  unfold childProcessCompletion
  split_ifs <;> exact ⟨rfl, rfl, rfl⟩

/-- The steps of the dispatch queue, one constructor for each action. -/
inductive DispatchTrans (cfg : DispatchCfg) (s : DispatchState μ) :
    DispatchAct μ → DispatchState μ → Prop
  | enQueue {msg} (hlock : s.lockFree = true) :
      DispatchTrans cfg s (.enQueue msg) { s with
        dispatchMsgQueue := s.dispatchMsgQueue ++ [msg]
        qready := true }
  | refuse {msg} : DispatchTrans cfg s (.refuse msg) s
  | lockFails (hthread : s.thread = .idle) : DispatchTrans cfg s .lockFails s
  | wait {thread} (hthread : s.thread = .idle)
      (hnext : thread = .waiting ∨ thread = .locked (headroom cfg s)) :
      DispatchTrans cfg s .wait { s with thread := thread }
  | wake {timeout thread} (hthread : s.thread = .waiting)
      (hnext : thread = .waiting ∨ thread = .locked (headroom cfg s)) :
      DispatchTrans cfg s (.wake timeout) { s with thread := thread }
  | take {countHeadroom} (hthread : s.thread = .locked countHeadroom) :
      DispatchTrans cfg s .take
        (takeBatch s (deQueueCount s.dispatchMsgQueue.length countHeadroom))
  | handle {msg msgs thread} (hthread : s.thread = .handling (msg :: msgs))
      (hnext : thread = if msgs.isEmpty then .idle else .handling msgs) :
      DispatchTrans cfg s .handle { s with
        handed := s.handed ++ [msg]
        thread := thread
        childProcessCount :=
          if cfg.isLauncherProcess then s.childProcessCount else s.childProcessCount - 1 }
  | completion {locked} (hlock : locked = true → s.lockFree = true) :
      DispatchTrans cfg s (.completion locked) (childProcessCompletion cfg s locked)

/-- **Inversion.** Every step of the dispatch queue is one of `DispatchTrans`. -/
theorem dispatchTrans_of_step (hstep : dispatchStep cfg s a = some t) :
    DispatchTrans cfg s a t := by
  cases a with
  | enQueue msg =>
    simp only [dispatchStep, Option.ite_none_right_eq_some, Option.some.injEq] at hstep
    obtain ⟨hlock, rfl⟩ := hstep
    exact .enQueue hlock
  | refuse msg =>
    cases hstep
    exact .refuse
  | lockFails =>
    simp only [dispatchStep] at hstep
    split at hstep
    · next hthread => cases hstep; exact .lockFails hthread
    · cases hstep
  | wait =>
    simp only [dispatchStep] at hstep
    split at hstep
    · next hthread =>
      cases hstep
      apply DispatchTrans.wait hthread
      split_ifs <;> simp
    · cases hstep
  | wake timeout =>
    simp only [dispatchStep] at hstep
    split at hstep
    · next hthread =>
      cases hstep
      apply DispatchTrans.wake hthread
      split_ifs <;> simp
    · cases hstep
  | take =>
    simp only [dispatchStep] at hstep
    split at hstep
    · next hthread =>
      obtain rfl := Option.some.inj hstep
      exact .take hthread
    · cases hstep
  | handle =>
    simp only [dispatchStep] at hstep
    split at hstep
    · next hthread =>
      obtain rfl := Option.some.inj hstep
      exact .handle hthread rfl
    · cases hstep
  | completion locked =>
    simp only [dispatchStep, Option.ite_none_left_eq_some, Option.some.injEq] at hstep
    obtain ⟨hlock, rfl⟩ := hstep
    exact .completion fun hlocked => by simpa [hlocked] using hlock

/-! ## What a step keeps -/

/-- The message that an action adds to the accepted ones. -/
def DispatchAct.accepted : DispatchAct μ → Option μ
  | .enQueue msg => some msg
  | _ => none

/-- **Conservation.** A step moves messages between "handed", "batch" and "queue" without
changing their sequence; an accepted message goes to the end. -/
theorem step_messages (hstep : dispatchStep cfg s a = some t) :
    t.messages = s.messages ++ a.accepted.toList := by
  cases dispatchTrans_of_step hstep with
  | enQueue => simp [DispatchState.messages, DispatchState.batch, DispatchAct.accepted]
  | refuse | lockFails => simp [DispatchAct.accepted]
  | wait hthread hnext | wake hthread hnext =>
    rcases hnext with rfl | rfl <;>
      simp [DispatchState.messages, DispatchState.batch, DispatchAct.accepted, hthread]
  | @take h hthread =>
    obtain ⟨hqueue, hbatch, hhanded, -⟩ :=
      takeBatch_spec s (deQueueCount s.dispatchMsgQueue.length h)
    have hs : s.batch = [] := by simp [DispatchState.batch, hthread]
    simp only [DispatchState.messages, hqueue, hbatch, hhanded, hs, DispatchAct.accepted,
      Option.toList_none, List.append_nil, List.append_assoc, List.take_append_drop]
  | @handle msg msgs _ hthread hnext =>
    subst hnext
    cases msgs <;>
      simp [DispatchState.messages, DispatchState.batch, DispatchAct.accepted, hthread]
  | @completion locked =>
    obtain ⟨hhanded, hthread, hqueue⟩ := childProcessCompletion_messages cfg s locked
    simp [DispatchState.messages, DispatchState.batch, DispatchAct.accepted, hhanded, hthread,
      hqueue]

/-- A step leaves the queue alone, appends to it, or is the `take` of an iteration, which
removes no more than the headroom observed in that iteration. -/
theorem step_queue (hstep : dispatchStep cfg s a = some t) :
    (∃ msgs, t.dispatchMsgQueue = s.dispatchMsgQueue ++ msgs) ∨
      ∃ (h : ℤ) (n : ℕ), a = .take ∧ s.thread = .locked h ∧
        n ≤ s.dispatchMsgQueue.length ∧ (n = 0 ∨ (n : ℤ) ≤ h) ∧
        t.dispatchMsgQueue = s.dispatchMsgQueue.drop n := by
  cases dispatchTrans_of_step hstep with
  | @enQueue msg => exact .inl ⟨[msg], rfl⟩
  | @take h hthread =>
    have hsize := deQueueCount_le_size s.dispatchMsgQueue.length h
    have hle := deQueueCount_le_headroom s.dispatchMsgQueue.length h
    exact .inr ⟨h, (deQueueCount s.dispatchMsgQueue.length h).toNat, rfl, hthread,
      by omega, by omega, (takeBatch_spec _ _).1⟩
  | @completion locked =>
    exact .inl ⟨[], by simp [childProcessCompletion_messages cfg s locked]⟩
  | refuse | lockFails | wait | wake | handle => exact .inl ⟨[], by simp⟩

/-- What an action adds to the children that the launcher's counter pays for: a message handed
over is about to become one, and a completion takes one away. -/
def DispatchAct.paid : DispatchAct μ → ℤ
  | .handle => 1
  | .completion _ => -1
  | _ => 0

/-- The counter pays for the batch and for the children. -/
theorem step_paid (hlauncher : cfg.isLauncherProcess = true)
    (hstep : dispatchStep cfg s a = some t) :
    t.childProcessCount - t.batch.length =
      s.childProcessCount - s.batch.length + a.paid := by
  cases dispatchTrans_of_step hstep with
  | enQueue => simp [DispatchState.batch, DispatchAct.paid]
  | refuse | lockFails => simp [DispatchAct.paid]
  | wait hthread hnext | wake hthread hnext =>
    rcases hnext with rfl | rfl <;> simp [DispatchState.batch, DispatchAct.paid, hthread]
  | @take h hthread =>
    have hsize := deQueueCount_le_size s.dispatchMsgQueue.length h
    obtain ⟨-, hbatch, -, hcount⟩ :=
      takeBatch_spec s (deQueueCount s.dispatchMsgQueue.length h)
    have hs : s.batch = [] := by simp [DispatchState.batch, hthread]
    rw [hbatch, hcount, hs, List.length_take]
    simp only [List.length_nil, DispatchAct.paid]
    omega
  | @handle msg msgs _ hthread hnext =>
    subst hnext
    simp only [hlauncher, if_true]
    cases msgs <;> simp only [DispatchState.batch, DispatchAct.paid, hthread, List.isEmpty_nil,
      List.isEmpty_cons, if_true, Bool.false_eq_true, if_false, List.length_cons, List.length_nil]
    all_goals omega
  | @completion locked =>
    have hthread := (childProcessCompletion_messages cfg s locked).2.1
    simp only [childProcessCompletion_count, DispatchState.batch, hthread, DispatchAct.paid]
    omega

/-- The counter stays within the maximum, and a captured headroom within what is left of it. -/
def WithinMax (cfg : DispatchCfg) (s : DispatchState μ) : Prop :=
  s.childProcessCount ≤ cfg.childProcessMaxCount ∧
    ∀ h, s.thread = .locked h → h ≤ headroom cfg s

/-- Between the capture of the headroom and its use the counter can only go down. -/
theorem step_withinMax (hs : WithinMax cfg s) (hstep : dispatchStep cfg s a = some t) :
    WithinMax cfg t := by
  obtain ⟨hcount, hhead⟩ := hs
  cases dispatchTrans_of_step hstep with
  | enQueue | refuse | lockFails => exact ⟨hcount, hhead⟩
  | wait hthread hnext | wake hthread hnext =>
    refine ⟨hcount, ?_⟩
    intro h hh
    rcases hnext with rfl | rfl <;> cases hh
    exact le_rfl
  | @take h hthread =>
    have hle := deQueueCount_le_headroom s.dispatchMsgQueue.length h
    have hcap := hhead h hthread
    have hspec := (takeBatch_spec s (deQueueCount s.dispatchMsgQueue.length h)).2.2.2
    unfold headroom at hcap
    refine ⟨by omega, ?_⟩
    intro h' hh
    unfold takeBatch at hh
    split_ifs at hh
  | handle hthread hnext =>
    refine ⟨?_, ?_⟩
    · simp only
      split_ifs <;> omega
    · intro h hh
      subst hnext
      simp only at hh
      split_ifs at hh
  | @completion locked =>
    have hthread := (childProcessCompletion_messages cfg s locked).2.1
    have hdown := childProcessCompletion_count cfg s locked
    refine ⟨by omega, ?_⟩
    intro h hh
    have := hhead h (hthread ▸ hh)
    unfold headroom at this ⊢
    omega

/-! ## Runs -/

/-- The messages for which `en_queue_dispatch_msg` answered "continue", in order. -/
def acceptedMsgs (as : List (DispatchAct μ)) : List μ := as.filterMap DispatchAct.accepted

theorem run_messages {as : List (DispatchAct μ)} (hrun : run (dispatchStep cfg) s as = some t) :
    t.messages = s.messages ++ acceptedMsgs as := by
  induction as generalizing s with
  | nil => cases hrun; simp [acceptedMsgs]
  | cons a as ih =>
    obtain ⟨u, hu, hrun⟩ := run_cons_eq_some.1 hrun
    rw [ih hrun, step_messages hu, acceptedMsgs, acceptedMsgs, List.filterMap_cons]
    cases a.accepted <;> simp

/-- **The dispatch queue delivers exactly once and in order.** -/
theorem dispatch_exactly_once (cfg : DispatchCfg) (as : List (DispatchAct μ))
    {s : DispatchState μ} (hrun : run (dispatchStep cfg) {} as = some s) :
    s.handed <+: acceptedMsgs as ∧
      acceptedMsgs as = s.handed ++ (s.batch ++ s.dispatchMsgQueue) ∧
      ∀ a t, dispatchStep cfg s a = some t →
        (∃ msgs, t.dispatchMsgQueue = s.dispatchMsgQueue ++ msgs) ∨
        ∃ (h : ℤ) (n : ℕ), a = .take ∧ s.thread = .locked h ∧
          t.dispatchMsgQueue = s.dispatchMsgQueue.drop n ∧
          n ≤ s.dispatchMsgQueue.length ∧ (h ≤ 0 → n = 0) ∧ (0 < h → (n : ℤ) ≤ h) := by
  have hall : acceptedMsgs as = s.handed ++ (s.batch ++ s.dispatchMsgQueue) := by
    have := run_messages hrun
    simpa [DispatchState.messages, DispatchState.batch] using this.symm
  refine ⟨⟨_, hall.symm⟩, hall, ?_⟩
  intro a t hstep
  rcases step_queue hstep with hqueue | ⟨h, n, ha, hthread, hn, hle, hqueue⟩
  · exact .inl hqueue
  · exact .inr ⟨h, n, ha, hthread, hqueue, hn, by omega, by omega⟩

/-- With `child_process_max_count` two, the second of two messages waits in the queue. -/
theorem dispatch_exactly_once_two :
    [7] <+: acceptedMsgs [.enQueue 7, .enQueue 8, .wait, .take, .handle] :=
  (dispatch_exactly_once ⟨true, 2⟩ [.enQueue 7, .enQueue 8, .wait, .take, .handle]
    (s := ⟨[8], false, 2, .idle, [7]⟩) (by decide)).1

end Spartan
