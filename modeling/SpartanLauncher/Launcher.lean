import SpartanLauncher.DispatchQueue
import SpartanLauncher.Message

/-!
# The launcher, its children and the supervisor's registry

The launcher is a machine with three threads of its own and two parties outside.

* The de-queue thread runs the dispatch queue and, for each message, `handle_launcher_msg`: it
  forks a child, puts it into the process group of its sub-command and notifies the supervisor.
* The `waitid` thread runs `waitid_on_forked_children`: it takes a report about a child, runs
  `child_process_completion` and notifies the supervisor.
* The receive loop puts messages on the dispatch queue.
* The kernel decides which pid a fork returns, when a child exits and what `waitid` reports.
* The supervisor takes the notifications off its message queue in order.

One action is one atomic step of one of them. `Trans` says once what each step does, and
`trans_of_step` is the inversion lemma from which the invariants of the launcher follow.

The supervisor's own JVM process, which the launcher forked before, counts in
`child_process_count` only: that `waitid` reports its exit is no step of these runs, while it is
one of the runs through the launcher's shutdown.

`launcherStep` takes every message for sent. `limitedStep` has the same steps with what
`send_supervisor_mq_msg` and the supervisor's queue make of the messages.
-/

namespace Spartan

open Machine

/-! ## State -/

structure LauncherCfg where
  /-- The process group the launcher runs in. -/
  launcherPgid : Pid
  childProcessMaxCount : ℤ

/-- An entry of the kernel's process table for a forked child; it stays there as a zombie until
`waitid` reports the exit. -/
structure Child where
  pid : Pid
  pgid : Pid
  /-- The sub-command token of the message that the child was forked for. -/
  cmd : List Char
  /-- The `setpgid` step for this child was executed. -/
  grouped : Bool
  live : Bool
  deriving DecidableEq

/-- Where the de-queue thread stands in `handle_launcher_msg`. -/
inductive Handler where
  | idle
  /-- `fork()` returned the pid; `setpgid` comes next. -/
  | forked (pid : Pid) (cmd msg : List Char)
  /-- `supervisor_child_processor_notify` comes next. -/
  | grouped (pid : Pid) (cmd msg : List Char)
  deriving DecidableEq

/-- Where the thread in `waitid_on_forked_children` stands. -/
inductive Waiter where
  | waiting
  /-- `waitid` returned; `child_process_completion` comes next. -/
  | reported (pid : Pid)
  /-- `supervisor_child_processor_completion_notify` comes next. -/
  | counted (pid : Pid)
  deriving DecidableEq

structure LauncherState where
  dispatch : DispatchState (List Char) := {}
  handler : Handler := .idle
  /-- The first child process of a command starts a group. -/
  prcsGrps : List (List Char × Pid) := []
  children : List Child := []
  waiter : Waiter := .waiting
  /-- The message queue of the supervisor. -/
  mq : List (List Char) := []
  /-- The map `_childProcesses` of the supervisor's Java object. -/
  childProcesses : List (ℤ × List Char) := []
  /-- The pids of all children forked so far. -/
  forks : List Pid := []
  deriving DecidableEq

inductive LauncherAct where
  /-- A step of the dispatch queue that is not part of another action. -/
  | dispatch (a : DispatchAct (List Char))
  /-- `handle_launcher_msg` starts on the next message; `fork()` fails or returns a pid. -/
  | fork (result : Option Pid)
  | setpgid
  | notify
  /-- A child terminates. -/
  | exit (pid : Pid)
  /-- `waitid` reports `WEXITED`, which removes the child from the process table, -/
  | waitExited (pid : Pid)
  /-- or `WSTOPPED`, which leaves it there. -/
  | waitStopped (pid : Pid)
  | completion (locked : Bool)
  | completionNotify
  /-- The supervisor handles the next message of its queue. -/
  | superviseMsg
  deriving DecidableEq

/-- A report of `waitid` about a child that did not terminate. -/
def LauncherAct.isStopReport : LauncherAct → Bool
  | .waitStopped _ => true
  | _ => false

/-! ## System calls -/

/-- Some process is a member of the group. -/
def groupExists (cfg : LauncherCfg) (children : List Child) (pgid : Pid) : Bool :=
  decide (pgid = cfg.launcherPgid) || children.any fun c => decide (c.pgid = pgid)

/-- The kernel gives a new process a number that is neither a pid nor a process group. -/
def isFresh (cfg : LauncherCfg) (children : List Child) (pid : Pid) : Bool :=
  !groupExists cfg children pid && children.all fun c => decide (c.pid ≠ pid)

/-- `setpgid(pid, pgid)` is refused, without effect, when `pgid` is neither the process itself
nor an existing group. The child is marked as grouped in either case, since the launcher does not
look at the result. -/
def setpgid (cfg : LauncherCfg) (children : List Child) (pid pgid : Pid) : List Child :=
  children.map fun c =>
    if c.pid = pid then
      { c with
        grouped := true
        pgid := if pgid = pid || groupExists cfg children pgid then pgid else c.pgid }
    else c

def exitChild (children : List Child) (pid : Pid) : List Child :=
  children.map fun c => if c.pid = pid then { c with live := false } else c

/-- `waitid` takes a zombie out of the process table. -/
def reap (children : List Child) (pid : Pid) : List Child :=
  children.filter fun c => decide (c.pid ≠ pid)

/-- `killpg_helper`: the children that receive the signal. `none` when `getpgid` fails. -/
def killpgHelper (children : List Child) (pid : Pid) : Option (List Child) :=
  (children.find? fun c => decide (c.pid = pid)).map fun c =>
    children.filter fun c' => c'.live && decide (c'.pgid = c.pgid)

/-! ## The supervisor's registry -/

/-- `childProcessNotify`: `_childProcesses.put(pid, ...)`. -/
def childProcessNotify (childProcesses : List (ℤ × List Char)) (pid : ℤ)
    (commandLine : List Char) : List (ℤ × List Char) :=
  (pid, commandLine) :: childProcesses.filter fun e => decide (e.1 ≠ pid)

/-- `childProcessCompletionNotify`: `_childProcesses.remove(pid)`. -/
def childProcessCompletionNotify (childProcesses : List (ℤ × List Char)) (pid : ℤ) :
    List (ℤ × List Char) :=
  childProcesses.filter fun e => decide (e.1 ≠ pid)

/-- What a call from `handle_supervisor_msg` does to the registry. -/
def SupervisorCall.apply (childProcesses : List (ℤ × List Char)) :
    SupervisorCall → List (ℤ × List Char)
  | .childProcessNotify pid commandLine => Spartan.childProcessNotify childProcesses pid commandLine
  | .childProcessCompletionNotify pid => Spartan.childProcessCompletionNotify childProcesses pid
  | .command _ => childProcesses

/-! ## Steps -/

/-- The dispatch queue as configured in the launcher process. -/
def LauncherCfg.dispatch (cfg : LauncherCfg) : DispatchCfg := ⟨true, cfg.childProcessMaxCount⟩

/-- The actions of the dispatch queue that can run while the de-queue thread is, or is not,
inside `handle_launcher_msg`. -/
def dispatchEnabled (handler : Handler) : DispatchAct (List Char) → Bool
  | .enQueue _ | .refuse _ => true
  | .lockFails | .wait | .wake _ | .take => decide (handler = .idle)
  | .handle | .completion _ => false

/-- `handle_launcher_msg` up to the return of `fork()` in the launcher. -/
def forkStep (cfg : LauncherCfg) (s : LauncherState) (result : Option Pid) :
    Option LauncherState :=
  match s.handler, s.dispatch.thread with
  | .idle, .handling (msg :: _) =>
    (dispatchStep cfg.dispatch s.dispatch .handle).bind fun dispatch =>
    (subCommand msg).bind fun cmd =>
      match result with
      | none => some { s with dispatch := dispatch }
      | some pid =>
        if isFresh cfg s.children pid then
          some { s with
            dispatch := dispatch
            handler := .forked pid cmd msg
            children := ⟨pid, cfg.launcherPgid, cmd, false, true⟩ :: s.children
            forks := s.forks ++ [pid] }
        else none
  | _, _ => none

/-- The part of `handle_launcher_msg` about `prcs_grps`. -/
def setpgidStep (cfg : LauncherCfg) (s : LauncherState) : Option LauncherState :=
  match s.handler with
  | .forked pid cmd msg =>
    match s.prcsGrps.lookup cmd with
    | none =>
      -- not found so make new entry
      some { s with
        handler := .grouped pid cmd msg
        children := setpgid cfg s.children pid pid
        prcsGrps := (cmd, pid) :: s.prcsGrps }
    | some pgid =>
      some { s with
        handler := .grouped pid cmd msg
        children := setpgid cfg s.children pid pgid }
  | _ => none

def launcherStep (cfg : LauncherCfg) (s : LauncherState) : LauncherAct → Option LauncherState
  | .dispatch a =>
    if dispatchEnabled s.handler a then
      (dispatchStep cfg.dispatch s.dispatch a).map fun dispatch => { s with dispatch := dispatch }
    else none
  | .fork result => forkStep cfg s result
  | .setpgid => setpgidStep cfg s
  | .notify =>
    match s.handler with
    | .grouped pid _ msg =>
      some { s with handler := .idle, mq := s.mq ++ [supervisorChildProcessorNotify pid msg] }
    | _ => none
  | .exit pid =>
    if ∃ c ∈ s.children, c.pid = pid ∧ c.live = true then
      some { s with children := exitChild s.children pid }
    else none
  | .waitExited pid =>
    if s.waiter = .waiting ∧ ∃ c ∈ s.children, c.pid = pid ∧ c.live = false then
      some { s with children := reap s.children pid, waiter := .reported pid }
    else none
  | .waitStopped pid =>
    if s.waiter = .waiting ∧ ∃ c ∈ s.children, c.pid = pid ∧ c.live = true then
      some { s with waiter := .reported pid }
    else none
  | .completion locked =>
    match s.waiter with
    | .reported pid =>
      (dispatchStep cfg.dispatch s.dispatch (.completion locked)).map fun dispatch =>
        { s with dispatch := dispatch, waiter := .counted pid }
    | _ => none
  | .completionNotify =>
    match s.waiter with
    | .counted pid =>
      some { s with
        waiter := .waiting
        mq := s.mq ++ [supervisorChildProcessorCompletionNotify pid] }
    | _ => none
  | .superviseMsg =>
    match s.mq with
    | msg :: mq =>
      (handleSupervisorMsg msg).map fun call =>
        { s with mq := mq, childProcesses := call.apply s.childProcesses }
    | [] => none

/-! ## The limits of the supervisor's queue -/

/-- `send_supervisor_mq_msg`: once `flag` is set nothing is sent; `mq_send` refuses a message that
is too long, and blocks while the queue is full. The launcher does not look at the result. -/
def sendSupervisorMqMsg (flag : Bool) (mq : List (List Char)) (msg : List Char) :
    Option (List (List Char)) :=
  if flag then some mq
  else
    match sendMqMsg msg with
    | none => some mq
    | some msg => if mq.length < mqMaxMsg then some (mq ++ [msg]) else none

/-- The message that a step is to send. -/
def LauncherState.sends (s : LauncherState) : LauncherAct → Option (List Char)
  | .notify =>
    match s.handler with
    | .grouped pid _ msg => some (supervisorChildProcessorNotify pid msg)
    | _ => none
  | .completionNotify =>
    match s.waiter with
    | .counted pid => some (supervisorChildProcessorCompletionNotify pid)
    | _ => none
  | _ => none

/-- `launcherStep` within these limits. -/
def limitedStep (cfg : LauncherCfg) (flag : Bool) (s : LauncherState) (a : LauncherAct) :
    Option LauncherState :=
  (launcherStep cfg s a).bind fun t =>
    match s.sends a with
    | none => some t
    | some msg => (sendSupervisorMqMsg flag s.mq msg).map fun mq => { t with mq := mq }

/-! ## What a step does -/

/-- The steps of the launcher, one constructor for each kind. -/
inductive Trans (cfg : LauncherCfg) (s : LauncherState) : LauncherAct → LauncherState → Prop
  | dispatch {a dispatch} (henabled : dispatchEnabled s.handler a = true)
      (hdispatch : dispatchStep cfg.dispatch s.dispatch a = some dispatch) :
      Trans cfg s (.dispatch a) { s with dispatch := dispatch }
  | forkFails {dispatch} (hhandler : s.handler = .idle)
      (hdispatch : dispatchStep cfg.dispatch s.dispatch .handle = some dispatch) :
      Trans cfg s (.fork none) { s with dispatch := dispatch }
  | forked {pid cmd msg dispatch} (hhandler : s.handler = .idle)
      (hdispatch : dispatchStep cfg.dispatch s.dispatch .handle = some dispatch)
      (hcmd : subCommand msg = some cmd) (hfresh : isFresh cfg s.children pid = true) :
      Trans cfg s (.fork (some pid)) { s with
        dispatch := dispatch
        handler := .forked pid cmd msg
        children := ⟨pid, cfg.launcherPgid, cmd, false, true⟩ :: s.children
        forks := s.forks ++ [pid] }
  | newGroup {pid cmd msg} (hhandler : s.handler = .forked pid cmd msg)
      (hgrp : s.prcsGrps.lookup cmd = none) :
      Trans cfg s .setpgid { s with
        handler := .grouped pid cmd msg
        children := setpgid cfg s.children pid pid
        prcsGrps := (cmd, pid) :: s.prcsGrps }
  | joinGroup {pid cmd msg pgid} (hhandler : s.handler = .forked pid cmd msg)
      (hgrp : s.prcsGrps.lookup cmd = some pgid) :
      Trans cfg s .setpgid { s with
        handler := .grouped pid cmd msg
        children := setpgid cfg s.children pid pgid }
  | notify {pid cmd msg} (hhandler : s.handler = .grouped pid cmd msg) :
      Trans cfg s .notify { s with
        handler := .idle
        mq := s.mq ++ [supervisorChildProcessorNotify pid msg] }
  | exit {pid c} (hc : c ∈ s.children) (hpid : c.pid = pid) (hlive : c.live = true) :
      Trans cfg s (.exit pid) { s with children := exitChild s.children pid }
  | waitExited {pid c} (hwaiter : s.waiter = .waiting) (hc : c ∈ s.children) (hpid : c.pid = pid)
      (hlive : c.live = false) :
      Trans cfg s (.waitExited pid) { s with
        children := reap s.children pid
        waiter := .reported pid }
  | waitStopped {pid c} (hwaiter : s.waiter = .waiting) (hc : c ∈ s.children)
      (hpid : c.pid = pid) (hlive : c.live = true) :
      Trans cfg s (.waitStopped pid) { s with waiter := .reported pid }
  | completion {pid locked dispatch} (hwaiter : s.waiter = .reported pid)
      (hdispatch : dispatchStep cfg.dispatch s.dispatch (.completion locked) = some dispatch) :
      Trans cfg s (.completion locked) { s with dispatch := dispatch, waiter := .counted pid }
  | completionNotify {pid} (hwaiter : s.waiter = .counted pid) :
      Trans cfg s .completionNotify { s with
        waiter := .waiting
        mq := s.mq ++ [supervisorChildProcessorCompletionNotify pid] }
  | superviseMsg {msg mq call} (hmq : s.mq = msg :: mq)
      (hcall : handleSupervisorMsg msg = some call) :
      Trans cfg s .superviseMsg { s with
        mq := mq
        childProcesses := call.apply s.childProcesses }

variable {cfg : LauncherCfg} {s t : LauncherState} {a : LauncherAct}

theorem trans_of_forkStep {result : Option Pid} (h : forkStep cfg s result = some t) :
    Trans cfg s (.fork result) t := by
  unfold forkStep at h
  split at h
  · next msg msgs hhandler hthread =>
    simp only [Option.bind_eq_some_iff] at h
    obtain ⟨dispatch, hdispatch, cmd, hcmd, h⟩ := h
    cases result with
    | none => cases h; exact .forkFails hhandler hdispatch
    | some pid =>
      simp only [Option.ite_none_right_eq_some, Option.some.injEq] at h
      obtain ⟨hfresh, rfl⟩ := h
      exact .forked hhandler hdispatch hcmd hfresh
  · cases h

theorem trans_of_setpgidStep (h : setpgidStep cfg s = some t) : Trans cfg s .setpgid t := by
  unfold setpgidStep at h
  split at h
  · next pid cmd msg hhandler =>
    split at h
    · next hgrp => cases h; exact .newGroup hhandler hgrp
    · next pgid hgrp => cases h; exact .joinGroup hhandler hgrp
  · cases h

/-- **Inversion.** Every step of the launcher is one of `Trans`. -/
theorem trans_of_step (h : launcherStep cfg s a = some t) : Trans cfg s a t := by
  cases a with
  | dispatch a =>
    simp only [launcherStep, Option.ite_none_right_eq_some, Option.map_eq_some_iff] at h
    obtain ⟨henabled, dispatch, hdispatch, rfl⟩ := h
    exact .dispatch henabled hdispatch
  | fork result => exact trans_of_forkStep h
  | setpgid => exact trans_of_setpgidStep h
  | notify =>
    simp only [launcherStep] at h
    split at h
    · next hhandler => cases h; exact .notify hhandler
    · cases h
  | exit pid =>
    simp only [launcherStep, Option.ite_none_right_eq_some, Option.some.injEq] at h
    obtain ⟨⟨c, hc, hpid, hlive⟩, rfl⟩ := h
    exact .exit hc hpid hlive
  | waitExited pid =>
    simp only [launcherStep, Option.ite_none_right_eq_some, Option.some.injEq] at h
    obtain ⟨⟨hwaiter, c, hc, hpid, hlive⟩, rfl⟩ := h
    exact .waitExited hwaiter hc hpid hlive
  | waitStopped pid =>
    simp only [launcherStep, Option.ite_none_right_eq_some, Option.some.injEq] at h
    obtain ⟨⟨hwaiter, c, hc, hpid, hlive⟩, rfl⟩ := h
    exact .waitStopped hwaiter hc hpid hlive
  | completion locked =>
    simp only [launcherStep] at h
    split at h
    · next hwaiter =>
      obtain ⟨dispatch, hdispatch, rfl⟩ := Option.map_eq_some_iff.1 h
      exact .completion hwaiter hdispatch
    · cases h
  | completionNotify =>
    simp only [launcherStep] at h
    split at h
    · next hwaiter => cases h; exact .completionNotify hwaiter
    · cases h
  | superviseMsg =>
    simp only [launcherStep] at h
    split at h
    · next hmq =>
      obtain ⟨call, hcall, rfl⟩ := Option.map_eq_some_iff.1 h
      exact .superviseMsg hmq hcall
    · cases h

theorem sendSupervisorMqMsg_cases {flag : Bool} {mq mq' : List (List Char)} {msg : List Char}
    (h : sendSupervisorMqMsg flag mq msg = some mq') :
    mq' = mq ∧ (flag = true ∨ msgBufSz < msg.length) ∨
      mq' = mq ++ [msg] ∧ flag = false ∧ msg.length ≤ msgBufSz := by
  rw [sendSupervisorMqMsg] at h
  by_cases hflag : flag = true
  · rw [if_pos hflag] at h
    exact .inl ⟨(Option.some.inj h).symm, .inl hflag⟩
  rw [if_neg hflag, sendMqMsg] at h
  by_cases hfits : msg.length ≤ msgBufSz
  · rw [if_pos hfits] at h
    obtain ⟨-, h⟩ := Option.ite_none_right_eq_some.1 h
    exact .inr ⟨(Option.some.inj h).symm, by simpa using hflag, hfits⟩
  · rw [if_neg hfits] at h
    exact .inl ⟨(Option.some.inj h).symm, .inr (not_le.1 hfits)⟩

/-- The limits make a difference to a step that sends, and there to the queue alone. -/
theorem limitedStep_cases {flag : Bool} (h : limitedStep cfg flag s a = some t) :
    s.sends a = none ∧ launcherStep cfg s a = some t ∨
      ∃ msg u mq, s.sends a = some msg ∧ launcherStep cfg s a = some u ∧
        sendSupervisorMqMsg flag s.mq msg = some mq ∧ t = { u with mq := mq } := by
  obtain ⟨u, hu, h⟩ := Option.bind_eq_some_iff.1 h
  cases hsends : s.sends a with
  | none =>
    rw [hsends] at h
    exact .inl ⟨rfl, hu.trans h⟩
  | some msg =>
    rw [hsends] at h
    obtain ⟨mq, hmq, rfl⟩ := Option.map_eq_some_iff.1 h
    exact .inr ⟨msg, u, mq, rfl, hu, hmq, rfl⟩

theorem trans_of_limitedStep {flag : Bool} (h : limitedStep cfg flag s a = some t) :
    ∃ u, Trans cfg s a u ∧ t = { u with mq := t.mq } := by
  rcases limitedStep_cases h with ⟨-, hu⟩ | ⟨msg, u, mq, -, hu, -, rfl⟩
  · exact ⟨t, trans_of_step hu, rfl⟩
  · exact ⟨u, trans_of_step hu, rfl⟩

/-! ## The process table -/

theorem mem_pids {children : List Child} {pid : Pid} :
    pid ∈ children.map Child.pid ↔ ∃ c ∈ children, c.pid = pid := List.mem_map

theorem find_pid {children : List Child} (hnodup : (children.map Child.pid).Nodup) {c : Child}
    (hc : c ∈ children) : (children.find? fun c' => decide (c'.pid = c.pid)) = some c := by
  induction children with
  | nil => cases hc
  | cons b children ih =>
    rw [List.map_cons, List.nodup_cons] at hnodup
    rcases List.mem_cons.1 hc with rfl | hc
    · simp
    · have hne : b.pid ≠ c.pid := fun h => hnodup.1 (h ▸ List.mem_map_of_mem hc)
      rw [List.find?_cons_of_neg (by simpa using hne), ih hnodup.2 hc]

@[simp] theorem map_pid_setpgid (children : List Child) (pid pgid : Pid) :
    (setpgid cfg children pid pgid).map Child.pid = children.map Child.pid := by
  rw [setpgid, List.map_map]
  exact List.map_congr_left fun c _ => by simp only [Function.comp]; split_ifs <;> rfl

@[simp] theorem map_pid_exitChild (children : List Child) (pid : Pid) :
    (exitChild children pid).map Child.pid = children.map Child.pid := by
  rw [exitChild, List.map_map]
  exact List.map_congr_left fun c _ => by simp only [Function.comp]; split_ifs <;> rfl

theorem mem_reap {children : List Child} {pid : Pid} {c : Child} :
    c ∈ reap children pid ↔ c ∈ children ∧ c.pid ≠ pid := by
  simp [reap]

theorem mem_map_pid_reap {children : List Child} {pid pid' : Pid} :
    pid' ∈ (reap children pid).map Child.pid ↔ pid' ∈ children.map Child.pid ∧ pid' ≠ pid := by
  simp only [mem_pids, mem_reap]
  refine ⟨?_, ?_⟩
  · intro h
    obtain ⟨c, ⟨hc, hne⟩, rfl⟩ := h
    exact ⟨⟨c, hc, rfl⟩, hne⟩
  · intro h
    obtain ⟨⟨c, hc, rfl⟩, hne⟩ := h
    exact ⟨c, ⟨hc, hne⟩, rfl⟩

theorem isFresh_iff {children : List Child} {pid : Pid} :
    isFresh cfg children pid = true ↔
      pid ≠ cfg.launcherPgid ∧ ∀ c ∈ children, c.pgid ≠ pid ∧ c.pid ≠ pid := by
  simp only [isFresh, groupExists, Bool.and_eq_true, Bool.not_eq_true', Bool.or_eq_false_iff,
    decide_eq_false_iff_not, List.any_eq_false, List.all_eq_true, decide_eq_true_eq]
  refine ⟨?_, ?_⟩
  · intro h
    obtain ⟨⟨hl, hgrp⟩, hpid⟩ := h
    exact ⟨hl, fun c hc => ⟨hgrp c hc, hpid c hc⟩⟩
  · intro h
    obtain ⟨hl, h⟩ := h
    exact ⟨⟨hl, fun c hc => (h c hc).1⟩, fun c hc => (h c hc).2⟩

theorem groupExists_iff {children : List Child} {pgid : Pid} :
    groupExists cfg children pgid = true ↔
      pgid = cfg.launcherPgid ∨ ∃ c ∈ children, c.pgid = pgid := by
  simp [groupExists]

/-- No two entries of the process table have the same pid. -/
theorem pids_nodup_step (hs : (s.children.map Child.pid).Nodup) (h : Trans cfg s a t) :
    (t.children.map Child.pid).Nodup := by
  cases h with
  | forked _ _ _ hfresh =>
    rw [List.map_cons, List.nodup_cons]
    refine ⟨?_, hs⟩
    intro hmem
    obtain ⟨c, hc, hpid⟩ := mem_pids.1 hmem
    exact ((isFresh_iff.1 hfresh).2 c hc).2 hpid
  | newGroup | joinGroup => simpa using hs
  | exit => simpa using hs
  | waitExited => exact hs.sublist (List.filter_sublist.map Child.pid)
  | _ => exact hs

/-- Only a fork adds to the list of forked pids. -/
theorem forks_step (h : Trans cfg s a t) : s.forks <+: t.forks := by
  cases h with
  | forked => exact List.prefix_append _ _
  | _ => exact List.prefix_rfl

theorem forks_of_fork {pid : Pid} (h : Trans cfg s (.fork (some pid)) t) :
    t.forks = s.forks ++ [pid] := by
  cases h
  rfl

theorem run_forks {as : List LauncherAct} (h : run (launcherStep cfg) s as = some t) :
    s.forks <+: t.forks :=
  run_invariant (I := fun u => s.forks <+: u.forks)
    (fun _ _ _ hu hstep => hu.trans (forks_step (trans_of_step hstep))) List.prefix_rfl h

end Spartan
