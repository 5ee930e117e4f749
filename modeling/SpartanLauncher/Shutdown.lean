import SpartanLauncher.Capacity

/-!
# The launcher's shutdown

When the receive loop ends, the main thread sets `shutting_down` and the terminate flag, sends the
shutdown command to the supervisor, and runs `waitid_on_forked_children` itself: until its
completion routine finds `child_process_count` at zero or below, until there is no child process
left, or until a signal interrupts `waitid`. The `waitid` thread goes on meanwhile; with
`shutting_down` set its loop ends behind the next report.

The JVM process of the supervisor is a child of the launcher here, and the counter starts at one
for it. The de-queue thread keeps going as before, though the queue it reads goes out of scope with
the receive loop: the runs include those in which it finds nothing there.

**Theorem (`counter_ends_shutdown_iff`).** The completion routine of the main thread ends the loop
exactly when the reports about stopped children are more than the failed forks, the messages being
handled and the processes not accounted for, together.

**Theorem (`shutdown_outlives_processes`).** Without such reports the main thread returns only when
no process is left, or when it is interrupted.

**Theorem (`shutdown_returns_iff`).** Once all processes have terminated, the main thread returns
without the help of any other thread, unless it is blocked in `mq_send` because the queue of the
supervisor is full.

The proof is a ledger over runs (`owed_run`) on top of the one for the launcher (`leaked_step`).
-/

namespace Spartan

open Machine

/-! ## The machine -/

/-- Where the main thread stands. -/
inductive MainThread where
  | receiving
  /-- In `send_mq_msg` with the shutdown command. -/
  | sending
  /-- Blocked in `waitid`. -/
  | waiting
  /-- `waitid` returned; the completion routine comes next. -/
  | reported (pid : Pid)
  /-- `supervisor_child_processor_completion_notify` comes next. -/
  | counted (pid : Pid) (done : Bool)
  /-- Behind `waitid_on_forked_children`. -/
  | returned
  deriving DecidableEq

structure ShutdownState where
  launcher : LauncherState
  main : MainThread := .receiving
  shuttingDown : Bool := false
  /-- Non-zero indicates was signaled to terminate. -/
  flag : Bool := false
  /-- The `waitid` thread has not left its loop. -/
  waiterRuns : Bool := true
  /-- The variable `done` of the `waitid` thread. -/
  waiterDone : Bool := false
  deriving DecidableEq

inductive ShutdownAct where
  | launcher (a : LauncherAct)
  /-- `signal_callback_handler`. -/
  | signal
  /-- `waitid` fails in the `waitid` thread, with `ECHILD` or `EINTR`. -/
  | waiterNoChild
  | waiterInterrupted
  /-- The receive loop ends, and `cleanup_supervisor_jvm_ctx` begins. -/
  | shutdown
  /-- `mq_send` puts the shutdown command on the queue, -/
  | mainSend
  /-- or `send_mq_msg` fails. -/
  | mainSendFails
  /-- `waitid` reports `WEXITED` or `WSTOPPED` to the main thread. -/
  | mainExited (pid : Pid)
  | mainStopped (pid : Pid)
  | mainCompletion
  | mainNotify
  /-- `waitid` fails in the main thread, with `ECHILD` or `EINTR`. -/
  | mainNoChild
  | mainInterrupted
  deriving DecidableEq

/-- The launcher as the receive loop finds it, with the JVM process forked. -/
def ShutdownState.started (cfg : LauncherCfg) (jvm : Pid) : ShutdownState where
  launcher := { children := [⟨jvm, cfg.launcherPgid, [], true, true⟩] }

/-- Only the receive loop enqueues, and only a running loop calls `waitid`. -/
def ShutdownState.allows (s : ShutdownState) : LauncherAct → Bool
  | .dispatch (.enQueue _) | .dispatch (.refuse _) => decide (s.main = .receiving)
  | .waitExited _ | .waitStopped _ => s.waiterRuns
  | _ => true

/-- `done` is the answer of `child_process_completion`, and looked at behind the notification. -/
def ShutdownState.next (s : ShutdownState) (a : LauncherAct) (launcher : LauncherState) :
    ShutdownState :=
  match a with
  | .completion _ => { s with launcher := launcher, waiterDone := s.shuttingDown }
  | .completionNotify => { s with launcher := launcher, waiterRuns := !s.waiterDone }
  | _ => { s with launcher := launcher }

def shutdownStep (cfg : LauncherCfg) (s : ShutdownState) : ShutdownAct → Option ShutdownState
  | .launcher a =>
    if s.allows a then (limitedStep cfg s.flag s.launcher a).map (s.next a) else none
  | .signal => some { s with flag := true }
  | .waiterNoChild =>
    if s.launcher.waiter = .waiting ∧ s.launcher.children = [] ∧ s.flag = true then
      some { s with waiterRuns := false }
    else none
  | .waiterInterrupted =>
    if s.launcher.waiter = .waiting then some { s with waiterRuns := false } else none
  | .shutdown =>
    if s.main = .receiving then
      some { s with main := .sending, shuttingDown := true, flag := true }
    else none
  | .mainSend =>
    -- unlike `send_supervisor_mq_msg`, this goes ahead with `flag` set
    if s.main = .sending ∧ s.launcher.mq.length < mqMaxMsg then
      some { s with
        launcher := { s.launcher with mq := s.launcher.mq ++ [shutdownCmd] }
        main := .waiting }
    else none
  | .mainSendFails => if s.main = .sending then some { s with main := .waiting } else none
  | .mainExited pid =>
    if s.main = .waiting ∧ ∃ c ∈ s.launcher.children, c.pid = pid ∧ c.live = false then
      some { s with
        launcher := { s.launcher with children := reap s.launcher.children pid }
        main := .reported pid }
    else none
  | .mainStopped pid =>
    if s.main = .waiting ∧ ∃ c ∈ s.launcher.children, c.pid = pid ∧ c.live = true then
      some { s with main := .reported pid }
    else none
  | .mainCompletion =>
    match s.main with
    | .reported pid =>
      let dispatch := s.launcher.dispatch
      some { s with
        launcher := { s.launcher with
          dispatch := { dispatch with childProcessCount := dispatch.childProcessCount - 1 } }
        main := .counted pid (decide (dispatch.childProcessCount ≤ 0)) }
    | _ => none
  | .mainNotify =>
    match s.main with
    | .counted pid done =>
      (sendSupervisorMqMsg s.flag s.launcher.mq
          (supervisorChildProcessorCompletionNotify pid)).map fun mq =>
        { s with
          launcher := { s.launcher with mq := mq }
          main := if done then .returned else .waiting }
    | _ => none
  | .mainNoChild =>
    if s.main = .waiting ∧ s.launcher.children = [] ∧ s.flag = true then
      some { s with main := .returned }
    else none
  | .mainInterrupted =>
    if s.main = .waiting then some { s with main := .returned } else none

/-! ## What a step does -/

/-- The steps of the shutdown. The constructor `other` stands for those that touch neither the
main thread nor a process. -/
inductive ShutdownTrans (cfg : LauncherCfg) (s : ShutdownState) :
    ShutdownAct → ShutdownState → Prop
  | launcher {a launcher mq t} (htrans : Trans cfg s.launcher a launcher)
      (hlauncher : t.launcher = { launcher with mq := mq }) (hmain : t.main = s.main)
      (hflag : t.flag = s.flag) : ShutdownTrans cfg s (.launcher a) t
  | other {a t} (ha : a = .signal ∨ a = .waiterNoChild ∨ a = .waiterInterrupted)
      (hlauncher : t.launcher = s.launcher) (hmain : t.main = s.main)
      (hflag : s.flag = true → t.flag = true) : ShutdownTrans cfg s a t
  | shutdown (hmain : s.main = .receiving) :
      ShutdownTrans cfg s .shutdown { s with main := .sending, shuttingDown := true, flag := true }
  | sent {a mq} (ha : a = .mainSend ∨ a = .mainSendFails) (hmain : s.main = .sending) :
      ShutdownTrans cfg s a { s with
        launcher := { s.launcher with mq := mq }
        main := .waiting }
  | mainExited {pid c} (hmain : s.main = .waiting) (hc : c ∈ s.launcher.children)
      (hpid : c.pid = pid) (hlive : c.live = false) :
      ShutdownTrans cfg s (.mainExited pid) { s with
        launcher := { s.launcher with children := reap s.launcher.children pid }
        main := .reported pid }
  | mainStopped {pid c} (hmain : s.main = .waiting) (hc : c ∈ s.launcher.children)
      (hpid : c.pid = pid) (hlive : c.live = true) :
      ShutdownTrans cfg s (.mainStopped pid) { s with main := .reported pid }
  | mainCompletion {pid} (hmain : s.main = .reported pid) :
      ShutdownTrans cfg s .mainCompletion { s with
        launcher := { s.launcher with
          dispatch := { s.launcher.dispatch with
            childProcessCount := s.launcher.dispatch.childProcessCount - 1 } }
        main := .counted pid (decide (s.launcher.dispatch.childProcessCount ≤ 0)) }
  | mainNotify {pid done mq} (hmain : s.main = .counted pid done) :
      ShutdownTrans cfg s .mainNotify { s with
        launcher := { s.launcher with mq := mq }
        main := if done then .returned else .waiting }
  | mainNoChild (hmain : s.main = .waiting) (hchildren : s.launcher.children = []) :
      ShutdownTrans cfg s .mainNoChild { s with main := .returned }
  | mainInterrupted (hmain : s.main = .waiting) :
      ShutdownTrans cfg s .mainInterrupted { s with main := .returned }

variable {cfg : LauncherCfg} {s t : ShutdownState} {a : ShutdownAct} {as : List ShutdownAct}

@[simp] theorem ShutdownState.next_launcher (s : ShutdownState) (a : LauncherAct)
    (launcher : LauncherState) : (s.next a launcher).launcher = launcher := by
  cases a <;> rfl

@[simp] theorem ShutdownState.next_main (s : ShutdownState) (a : LauncherAct)
    (launcher : LauncherState) : (s.next a launcher).main = s.main := by
  cases a <;> rfl

@[simp] theorem ShutdownState.next_flag (s : ShutdownState) (a : LauncherAct)
    (launcher : LauncherState) : (s.next a launcher).flag = s.flag := by
  cases a <;> rfl

/-- **Inversion.** -/
theorem shutdownTrans_of_step (h : shutdownStep cfg s a = some t) : ShutdownTrans cfg s a t := by
  cases a with
  | launcher a =>
    simp only [shutdownStep, Option.ite_none_right_eq_some, Option.map_eq_some_iff] at h
    obtain ⟨-, launcher, hstep, rfl⟩ := h
    obtain ⟨u, htrans, hu⟩ := trans_of_limitedStep hstep
    exact .launcher htrans (by simpa using hu) (by simp) (by simp)
  | signal =>
    cases h
    exact .other (.inl rfl) rfl rfl fun _ => rfl
  | waiterNoChild =>
    simp only [shutdownStep, Option.ite_none_right_eq_some, Option.some.injEq] at h
    obtain ⟨-, rfl⟩ := h
    exact .other (.inr (.inl rfl)) rfl rfl id
  | waiterInterrupted =>
    simp only [shutdownStep, Option.ite_none_right_eq_some, Option.some.injEq] at h
    obtain ⟨-, rfl⟩ := h
    exact .other (.inr (.inr rfl)) rfl rfl id
  | shutdown =>
    simp only [shutdownStep, Option.ite_none_right_eq_some, Option.some.injEq] at h
    obtain ⟨hmain, rfl⟩ := h
    exact .shutdown hmain
  | mainSend =>
    simp only [shutdownStep, Option.ite_none_right_eq_some, Option.some.injEq] at h
    obtain ⟨⟨hmain, -⟩, rfl⟩ := h
    exact .sent (.inl rfl) hmain
  | mainSendFails =>
    simp only [shutdownStep, Option.ite_none_right_eq_some, Option.some.injEq] at h
    obtain ⟨hmain, rfl⟩ := h
    exact @ShutdownTrans.sent cfg s _ s.launcher.mq (.inr rfl) hmain
  | mainExited pid =>
    simp only [shutdownStep, Option.ite_none_right_eq_some, Option.some.injEq] at h
    obtain ⟨⟨hmain, c, hc, hpid, hlive⟩, rfl⟩ := h
    exact .mainExited hmain hc hpid hlive
  | mainStopped pid =>
    simp only [shutdownStep, Option.ite_none_right_eq_some, Option.some.injEq] at h
    obtain ⟨⟨hmain, c, hc, hpid, hlive⟩, rfl⟩ := h
    exact .mainStopped hmain hc hpid hlive
  | mainCompletion =>
    simp only [shutdownStep] at h
    split at h
    · next hmain => cases h; exact .mainCompletion hmain
    · cases h
  | mainNotify =>
    simp only [shutdownStep] at h
    split at h
    · next hmain =>
      obtain ⟨mq, -, rfl⟩ := Option.map_eq_some_iff.1 h
      exact .mainNotify hmain
    · cases h
  | mainNoChild =>
    simp only [shutdownStep, Option.ite_none_right_eq_some, Option.some.injEq] at h
    obtain ⟨⟨hmain, hchildren, -⟩, rfl⟩ := h
    exact .mainNoChild hmain hchildren
  | mainInterrupted =>
    simp only [shutdownStep, Option.ite_none_right_eq_some, Option.some.injEq] at h
    obtain ⟨hmain, rfl⟩ := h
    exact .mainInterrupted hmain

/-! ## The ledger -/

def ShutdownAct.isFailedFork : ShutdownAct → Bool
  | .launcher a => a.isFailedFork
  | _ => false

/-- A report, to either thread, about a child that did not terminate. -/
def ShutdownAct.isStopReport : ShutdownAct → Bool
  | .launcher a => a.isStopReport
  | .mainStopped _ => true
  | _ => false

/-- The main thread has a report that it did not count yet. -/
def MainThread.uncounted : MainThread → ℕ
  | .reported _ => 1
  | _ => 0

/-- The messages being handled, the processes in the process table, and the exit that the `waitid`
thread was told of and did not count yet. -/
def unaccounted (s : LauncherState) : ℕ := s.dispatch.batch.length + unprocessed s

/-- What the counter has too much. -/
def ShutdownState.owed (s : ShutdownState) : ℤ :=
  s.launcher.dispatch.childProcessCount - unaccounted s.launcher - s.main.uncounted

theorem owed_eq (s : ShutdownState) : s.owed = leaked s.launcher + 1 - s.main.uncounted := by
  rw [ShutdownState.owed, leaked, unaccounted]
  push_cast
  omega

@[simp] theorem leaked_mq (s : LauncherState) (mq : List (List Char)) :
    leaked { s with mq := mq } = leaked s := rfl

theorem leaked_stopReport {s t : LauncherState} {a : LauncherAct} (h : Trans cfg s a t)
    (hreport : a.isStopReport = true) : leaked t = leaked s - 1 := by
  cases h with
  | waitStopped hwaiter =>
    simp only [leaked, unprocessed, uncounted, hwaiter]
    omega
  | _ => cases hreport

/-- **Step lemma.** A failed fork adds to what the counter has too much, and a report about a
stopped child takes away from it. -/
theorem owed_step (hnodup : (s.launcher.children.map Child.pid).Nodup)
    (h : ShutdownTrans cfg s a t) :
    t.owed = s.owed + (if a.isFailedFork then 1 else 0) - (if a.isStopReport then 1 else 0) := by
  cases h with
  | @launcher a launcher mq t htrans hlauncher hmain =>
    rw [owed_eq, owed_eq, hlauncher, hmain, leaked_mq, ShutdownAct.isFailedFork,
      ShutdownAct.isStopReport]
    by_cases hreport : a.isStopReport = true
    · have hfork : a.isFailedFork = false := by
        cases a <;> first | rfl | cases hreport
      rw [leaked_stopReport htrans hreport, hreport, hfork]
      simp only [Bool.false_eq_true, if_false, if_true]
      omega
    · rw [Bool.not_eq_true] at hreport
      rw [leaked_step hnodup htrans hreport, hreport]
      simp only [Bool.false_eq_true, if_false]
      omega
  | other ha hlauncher hmain =>
    rcases ha with rfl | rfl | rfl <;>
      simp [ShutdownState.owed, hlauncher, hmain, ShutdownAct.isFailedFork,
        ShutdownAct.isStopReport]
  | shutdown hmain | mainNoChild hmain | mainInterrupted hmain =>
    simp [ShutdownState.owed, hmain, MainThread.uncounted, ShutdownAct.isFailedFork,
      ShutdownAct.isStopReport]
  | sent ha hmain =>
    rcases ha with rfl | rfl <;>
      simp [owed_eq, hmain, MainThread.uncounted, ShutdownAct.isFailedFork,
        ShutdownAct.isStopReport]
  | mainExited hmain hc hpid =>
    have hlength := length_reap hnodup hc hpid
    simp only [ShutdownState.owed, unaccounted, unprocessed, uncounted, hmain,
      MainThread.uncounted, ShutdownAct.isFailedFork, ShutdownAct.isStopReport,
      Bool.false_eq_true, if_false]
    omega
  | mainStopped hmain =>
    simp [ShutdownState.owed, hmain, MainThread.uncounted, ShutdownAct.isFailedFork,
      ShutdownAct.isStopReport]
  | mainCompletion hmain =>
    simp only [ShutdownState.owed, unaccounted, unprocessed, uncounted, DispatchState.batch, hmain,
      MainThread.uncounted, ShutdownAct.isFailedFork, ShutdownAct.isStopReport,
      Bool.false_eq_true, if_false]
    omega
  | @mainNotify pid done mq hmain =>
    cases done <;>
      simp [owed_eq, hmain, MainThread.uncounted, ShutdownAct.isFailedFork,
        ShutdownAct.isStopReport]

theorem nodup_shutdown (hnodup : (s.launcher.children.map Child.pid).Nodup)
    (h : ShutdownTrans cfg s a t) : (t.launcher.children.map Child.pid).Nodup := by
  cases h with
  | launcher htrans hlauncher =>
    have hpids := pids_nodup_step hnodup htrans
    rw [hlauncher]
    exact hpids
  | other _ hlauncher => rwa [hlauncher]
  | mainExited => exact hnodup.sublist (List.filter_sublist.map Child.pid)
  | _ => exact hnodup

/-- **The ledger.** -/
theorem owed_run (hnodup : (s.launcher.children.map Child.pid).Nodup)
    (hrun : run (shutdownStep cfg) s as = some t) :
    t.owed = s.owed + as.countP ShutdownAct.isFailedFork -
      as.countP ShutdownAct.isStopReport := by
  induction as generalizing s with
  | nil =>
    cases hrun
    simp
  | cons a as ih =>
    obtain ⟨u, hu, hrun⟩ := run_cons_eq_some.1 hrun
    have htrans := shutdownTrans_of_step hu
    have hstep := owed_step hnodup htrans
    rw [ih (nodup_shutdown hnodup htrans) hrun, hstep, List.countP_cons, List.countP_cons]
    push_cast
    omega

theorem owed_started (jvm : Pid) : (ShutdownState.started cfg jvm).owed = 0 := rfl

theorem nodup_started (jvm : Pid) :
    ((ShutdownState.started cfg jvm).launcher.children.map Child.pid).Nodup :=
  List.nodup_cons.2 ⟨List.not_mem_nil, List.nodup_nil⟩

/-! ## How the main thread's loop ends -/

/-- **The counter ends the loop.** -/
theorem counter_ends_shutdown_iff (cfg : LauncherCfg) (jvm : Pid) (as : List ShutdownAct)
    {s t : ShutdownState} {pid : Pid} {done : Bool}
    (hrun : run (shutdownStep cfg) (.started cfg jvm) as = some s)
    (hstep : shutdownStep cfg s .mainCompletion = some t) (hmain : t.main = .counted pid done) :
    done = true ↔ as.countP ShutdownAct.isFailedFork + unaccounted s.launcher <
      as.countP ShutdownAct.isStopReport := by
  have hledger := owed_run (nodup_started jvm) hrun
  rw [owed_started, ShutdownState.owed] at hledger
  cases shutdownTrans_of_step hstep with
  | other ha => rcases ha with ha | ha | ha <;> cases ha
  | sent ha => rcases ha with ha | ha <;> cases ha
  | mainCompletion hs =>
    obtain ⟨-, rfl⟩ := MainThread.counted.inj hmain
    rw [hs, MainThread.uncounted] at hledger
    rw [decide_eq_true_iff]
    omega

/-- A child that was stopped twice is left behind when the main thread has counted the exit of the
JVM process. -/
theorem counter_ends_shutdown_stopped :
    let cfg : LauncherCfg := ⟨⟨1, by decide, by decide⟩, 3⟩
    let jvm : Pid := ⟨50, by decide, by decide⟩
    let p : Pid := ⟨100, by decide, by decide⟩
    let stop : List ShutdownAct :=
      [.launcher (.waitStopped p), .launcher (.completion true), .launcher .completionNotify]
    let as : List ShutdownAct :=
      [.launcher (.dispatch (.enQueue "- u a".toList)), .launcher (.dispatch .wait),
        .launcher (.dispatch .take), .launcher (.fork (some p)), .launcher .setpgid,
        .launcher .notify] ++ stop ++ stop ++
        [.shutdown, .mainSend, .launcher (.exit jvm), .mainExited jvm]
    ∃ s t, run (shutdownStep cfg) (.started cfg jvm) as = some s ∧
      shutdownStep cfg s .mainCompletion = some t ∧ t.main = .counted jvm true ∧
      as.countP ShutdownAct.isFailedFork + unaccounted s.launcher <
        as.countP ShutdownAct.isStopReport := by
  intro cfg jvm p stop as
  let s := (run (shutdownStep cfg) (.started cfg jvm) as).getD (.started cfg jvm)
  let t := (shutdownStep cfg s .mainCompletion).getD s
  have hrun : run (shutdownStep cfg) (.started cfg jvm) as = some s := by decide +kernel
  have hstep : shutdownStep cfg s .mainCompletion = some t := by decide +kernel
  have hmain : t.main = .counted jvm true := by decide +kernel
  exact ⟨s, t, hrun, hstep, hmain, (counter_ends_shutdown_iff cfg jvm as hrun hstep hmain).1 rfl⟩

/-- The completion routine has not ended the loop. -/
def MainThread.goesOn : MainThread → Prop
  | .counted _ done => done = false
  | _ => True

/-- What holds as long as each report is about a process that terminated. -/
structure ShutdownInv (s : ShutdownState) : Prop where
  nodup : (s.launcher.children.map Child.pid).Nodup
  paid : 0 ≤ s.owed
  goesOn : s.main.goesOn

theorem shutdownInv_started (jvm : Pid) : ShutdownInv (.started cfg jvm) :=
  ⟨nodup_started jvm, (owed_started jvm).ge, trivial⟩

theorem shutdownInv_step (hs : ShutdownInv s) (hreport : a.isStopReport = false)
    (h : ShutdownTrans cfg s a t) : ShutdownInv t := by
  have howed := owed_step hs.nodup h
  rw [hreport, if_neg Bool.false_ne_true] at howed
  have hpaid := hs.paid
  refine ⟨nodup_shutdown hs.nodup h, ?_, ?_⟩
  · split_ifs at howed <;> omega
  · cases h with
    | launcher _ _ hmain | other _ _ hmain => exact hmain ▸ hs.goesOn
    | mainCompletion hmain =>
      rw [ShutdownState.owed, hmain, MainThread.uncounted] at hpaid
      simp only [MainThread.goesOn, decide_eq_false_iff_not]
      omega
    | @mainNotify pid done => cases done <;> trivial
    | _ => trivial

/-- **The launcher outlives its processes.** -/
theorem shutdown_outlives_processes (cfg : LauncherCfg) (jvm : Pid) (as : List ShutdownAct)
    {s t : ShutdownState} {a : ShutdownAct} (hreports : ∀ a ∈ as, a.isStopReport = false)
    (hrun : run (shutdownStep cfg) (.started cfg jvm) as = some s) (hmain : s.main ≠ .returned)
    (hstep : shutdownStep cfg s a = some t) (hreturned : t.main = .returned) :
    a = .mainInterrupted ∨ s.launcher.children = [] := by
  have hinv : ShutdownInv s :=
    run_invariant_of (P := fun _ a => a.isStopReport = false)
      (fun _ _ _ hs hreport hstep => shutdownInv_step hs hreport (shutdownTrans_of_step hstep))
      (shutdownInv_started jvm) (always_of_forall hreports) hrun
  cases shutdownTrans_of_step hstep with
  | launcher _ _ hkept | other _ _ hkept => exact absurd (hkept ▸ hreturned) hmain
  | @mainNotify pid done mq hcounted =>
    have hdone : done = false := by simpa [hcounted, MainThread.goesOn] using hinv.goesOn
    subst hdone
    cases hreturned
  | mainNoChild _ hchildren => exact .inr hchildren
  | mainInterrupted => exact .inl rfl
  | _ => cases hreturned

/-- The JVM process alone, reported to the main thread. -/
theorem shutdown_outlives_jvm :
    let cfg : LauncherCfg := ⟨⟨1, by decide, by decide⟩, 3⟩
    let jvm : Pid := ⟨50, by decide, by decide⟩
    let as : List ShutdownAct :=
      [.shutdown, .mainSend, .launcher (.exit jvm), .mainExited jvm, .mainCompletion, .mainNotify]
    ∃ s t, run (shutdownStep cfg) (.started cfg jvm) as = some s ∧
      shutdownStep cfg s .mainNoChild = some t ∧ s.launcher.children = [] := by
  intro cfg jvm as
  let s := (run (shutdownStep cfg) (.started cfg jvm) as).getD (.started cfg jvm)
  let t := (shutdownStep cfg s .mainNoChild).getD s
  have hrun : run (shutdownStep cfg) (.started cfg jvm) as = some s := by decide +kernel
  have hstep : shutdownStep cfg s .mainNoChild = some t := by decide +kernel
  have houtlives := shutdown_outlives_processes cfg jvm as (by decide) hrun (by decide +kernel)
    hstep (by decide +kernel)
  exact ⟨s, t, hrun, hstep, houtlives.resolve_left (by decide)⟩

/-! ## Returning -/

/-- Steps of the main thread alone, when no system call fails. -/
def ShutdownAct.isMain : ShutdownAct → Bool
  | .mainSend | .mainExited _ | .mainCompletion | .mainNotify | .mainNoChild => true
  | _ => false

/-- The main thread alone can return, in `n` steps at most. -/
def MainReturnsWithin (cfg : LauncherCfg) (n : ℕ) (s : ShutdownState) : Prop :=
  ReachesWithin (shutdownStep cfg) (fun a => a.isMain = true) (fun t => t.main = .returned) n s

/-- `mq_send` of the shutdown command blocks. -/
def ShutdownState.blocked (s : ShutdownState) : Prop :=
  s.main = .sending ∧ mqMaxMsg ≤ s.launcher.mq.length

/-- The processes left have terminated; there are `n` of them at most. -/
structure Ending (s : ShutdownState) (n : ℕ) : Prop where
  flag : s.flag = true
  dead : ∀ c ∈ s.launcher.children, c.live = false
  length_le : s.launcher.children.length ≤ n

/-- Behind a report the main thread waits again, unless the counter ends the loop. With `flag` set,
its notification is not sent. -/
theorem mainReturnsWithin_counted {n m : ℕ} {pid : Pid} {done : Bool} (hs : Ending s n)
    (hmain : s.main = .counted pid done)
    (hwait : ∀ t, Ending t n → t.main = .waiting → MainReturnsWithin cfg m t) :
    MainReturnsWithin cfg (m + 1) s := by
  have hstep : shutdownStep cfg s .mainNotify =
      some { s with main := if done then .returned else .waiting } := by
    simp [shutdownStep, hmain, sendSupervisorMqMsg, hs.flag]
  refine .cons ?_ rfl hstep
  cases done with
  | true => exact .mono (.zero rfl) (Nat.zero_le m)
  | false => exact hwait _ ⟨hs.flag, hs.dead, hs.length_le⟩ rfl

theorem mainReturnsWithin_reported {n m : ℕ} {pid : Pid} (hs : Ending s n)
    (hmain : s.main = .reported pid)
    (hwait : ∀ t, Ending t n → t.main = .waiting → MainReturnsWithin cfg m t) :
    MainReturnsWithin cfg (m + 2) s := by
  have hstep : shutdownStep cfg s .mainCompletion = some { s with
      launcher := { s.launcher with
        dispatch := { s.launcher.dispatch with
          childProcessCount := s.launcher.dispatch.childProcessCount - 1 } }
      main := .counted pid (decide (s.launcher.dispatch.childProcessCount ≤ 0)) } := by
    simp only [shutdownStep, hmain]
  refine .cons ?_ rfl hstep
  exact mainReturnsWithin_counted ⟨hs.flag, hs.dead, hs.length_le⟩ rfl hwait

/-- Three steps for each process that is left, and one more. -/
theorem mainReturnsWithin_waiting {n : ℕ} (hs : Ending s n) (hmain : s.main = .waiting) :
    MainReturnsWithin cfg (3 * n + 1) s := by
  induction n generalizing s with
  | zero =>
    have hchildren := List.length_eq_zero_iff.1 (Nat.le_zero.1 hs.length_le)
    have hstep : shutdownStep cfg s .mainNoChild = some { s with main := .returned } := by
      simp [shutdownStep, hmain, hchildren, hs.flag]
    exact .cons (.zero rfl) rfl hstep
  | succ n ih =>
    cases hchildren : s.launcher.children with
    | nil => exact .mono (ih ⟨hs.flag, hs.dead, by simp [hchildren]⟩ hmain) (by omega)
    | cons c children =>
      have hc : c ∈ s.launcher.children := hchildren ▸ List.mem_cons_self
      have hstep : shutdownStep cfg s (.mainExited c.pid) = some { s with
          launcher := { s.launcher with children := reap s.launcher.children c.pid }
          main := .reported c.pid } := by
        simp only [shutdownStep]
        rw [if_pos ⟨hmain, c, hc, rfl, hs.dead c hc⟩]
      have hlt := (length_reap_lt hc rfl).trans_le hs.length_le
      refine .cons ?_ rfl hstep
      exact mainReturnsWithin_reported
        ⟨hs.flag, fun c' hc' => hs.dead c' (mem_reap.1 hc').1, Nat.le_of_lt_succ hlt⟩ rfl
        fun t ht hwaiting => ih ht hwaiting

theorem mainReturnsWithin_sending {n : ℕ} (hs : Ending s n) (hmain : s.main = .sending)
    (hroom : s.launcher.mq.length < mqMaxMsg) : MainReturnsWithin cfg (3 * n + 2) s := by
  have hstep : shutdownStep cfg s .mainSend = some { s with
      launcher := { s.launcher with mq := s.launcher.mq ++ [shutdownCmd] }
      main := .waiting } := by
    simp only [shutdownStep]
    rw [if_pos ⟨hmain, hroom⟩]
  refine .cons ?_ rfl hstep
  exact mainReturnsWithin_waiting ⟨hs.flag, hs.dead, hs.length_le⟩ rfl

/-- A main thread that is blocked has no step. -/
theorem not_mainReturnsWithin_blocked (hs : s.blocked) (n : ℕ) : ¬MainReturnsWithin cfg n s := by
  obtain ⟨hmain, hfull⟩ := hs
  rintro ⟨as, -, has, t, hrun, hreturned⟩
  cases as with
  | nil =>
    cases hrun
    rw [hmain] at hreturned
    cases hreturned
  | cons a as =>
    obtain ⟨u, hstep, -⟩ := run_cons_eq_some.1 hrun
    have ha := has a List.mem_cons_self
    cases a with
    | mainSend =>
      obtain ⟨⟨-, hroom⟩, -⟩ := Option.ite_none_right_eq_some.1 hstep
      exact absurd hroom (not_lt.2 hfull)
    | mainExited | mainCompletion | mainNotify | mainNoChild =>
      simp [shutdownStep, hmain] at hstep
    | launcher | signal | waiterNoChild | waiterInterrupted | shutdown | mainSendFails
    | mainStopped | mainInterrupted => cases ha

theorem flag_step (hs : s.main ≠ .receiving → s.flag = true) (h : ShutdownTrans cfg s a t) :
    t.main ≠ .receiving → t.flag = true := by
  cases h with
  | launcher _ _ hmain hflag =>
    rw [hmain, hflag]
    exact hs
  | other _ _ hmain hflag =>
    rw [hmain]
    exact fun h => hflag (hs h)
  | shutdown => exact fun _ => rfl
  | sent _ hmain | mainExited hmain | mainStopped hmain | mainCompletion hmain | mainNotify hmain
  | mainNoChild hmain | mainInterrupted hmain =>
    intro _
    exact hs (by simp [hmain])

/-- **The shutdown returns,** unless it is blocked. -/
theorem shutdown_returns_iff (cfg : LauncherCfg) (jvm : Pid) (as : List ShutdownAct)
    {s : ShutdownState} (hrun : run (shutdownStep cfg) (.started cfg jvm) as = some s)
    (hmain : s.main ≠ .receiving) (hdead : ∀ c ∈ s.launcher.children, c.live = false) :
    MainReturnsWithin cfg (3 * s.launcher.children.length + 3) s ↔ ¬s.blocked := by
  have hflag : s.flag = true :=
    run_invariant (I := fun s => s.main ≠ .receiving → s.flag = true)
      (fun _ _ _ hs hstep => flag_step hs (shutdownTrans_of_step hstep))
      (fun h => absurd rfl h) hrun hmain
  have hs : Ending s s.launcher.children.length := ⟨hflag, hdead, le_rfl⟩
  have hwait (t : ShutdownState) (ht : Ending t s.launcher.children.length)
      (hwaiting : t.main = .waiting) :
      MainReturnsWithin cfg (3 * s.launcher.children.length + 1) t :=
    mainReturnsWithin_waiting ht hwaiting
  refine ⟨fun hreturns hblocked => not_mainReturnsWithin_blocked hblocked _ hreturns, ?_⟩
  intro hblocked
  cases hstage : s.main with
  | receiving => exact absurd hstage hmain
  | sending =>
    have hroom : s.launcher.mq.length < mqMaxMsg := not_le.1 fun hfull => hblocked ⟨hstage, hfull⟩
    exact .mono (mainReturnsWithin_sending hs hstage hroom) (by omega)
  | waiting => exact .mono (hwait s hs hstage) (by omega)
  | reported pid => exact mainReturnsWithin_reported hs hstage hwait
  | counted pid done => exact .mono (mainReturnsWithin_counted hs hstage hwait) (by omega)
  | returned => exact .mono (.zero hstage) (Nat.zero_le _)

/-- The JVM process has terminated, and nobody was told yet. -/
theorem shutdown_returns_iff_jvm :
    let cfg : LauncherCfg := ⟨⟨1, by decide, by decide⟩, 3⟩
    let jvm : Pid := ⟨50, by decide, by decide⟩
    ∃ s, run (shutdownStep cfg) (.started cfg jvm) [.shutdown, .launcher (.exit jvm)] = some s ∧
      MainReturnsWithin cfg 6 s := by
  intro cfg jvm
  let s := (run (shutdownStep cfg) (.started cfg jvm)
    [.shutdown, .launcher (.exit jvm)]).getD (.started cfg jvm)
  have hrun : run (shutdownStep cfg) (.started cfg jvm) [.shutdown, .launcher (.exit jvm)] =
      some s := by decide +kernel
  have hblocked : ¬s.blocked := fun h => absurd h.2 (by decide +kernel)
  exact ⟨s, hrun, (shutdown_returns_iff cfg jvm _ hrun (by decide +kernel) (by decide +kernel)).2
    hblocked⟩

end Spartan
