import SpartanLauncher.Lib.CString

/-!
# The messages of the two queues

The launcher and the supervisor exchange flat strings. This file has the texts of `spartan.cpp`,
the two notifications that the launcher sends about its children, and how a receiver takes a
message apart with `strtok_r`.

* `subCommand`: the token that `handle_launcher_msg` takes for the name of the sub-command.
* `handleSupervisorMsg`: the three branches of `handle_supervisor_msg`.
* `handleSupervisorMsg_notify`, `handleSupervisorMsg_completion`: the supervisor understands
  both notifications.
-/

namespace Spartan

open CString

def msgBufSz : ℕ := 4096

/-- The `mq_maxmsg` of the two queues. -/
def mqMaxMsg : ℕ := 10

def stopCmd : List Char := "--STOP".toList
def shutdownCmd : List Char := "--SHUTDOWN".toList
def statusCmd : List Char := "--STATUS".toList
def childPidNotifyCmd : List Char := "--CHILD_PID_NOTIFY".toList
def childPidCompletionNotifyCmd : List Char := "--CHILD_PID_COMPLETION_NOTIFY".toList
def extendedInvokeCmd : List Char := "--EXTENDED_INVOKE".toList

/-- `send_mq_msg`: what arrives at the queue. `mq_send` refuses a message that is longer than the
`mq_msgsize` of the queue. -/
def sendMqMsg (msg : List Char) : Option (List Char) :=
  if msg.length ≤ msgBufSz then some msg else none

/-- The `pid_t` of a process: a positive 32-bit number. -/
structure Pid where
  val : ℕ
  pos : 0 < val
  lt : val < 2 ^ 31
  deriving DecidableEq

/-! ## The launcher's side -/

/-- `supervisor_child_processor_notify`: `"%s %d %s"`. -/
def supervisorChildProcessorNotify (childPid : Pid) (commandLine : List Char) : List Char :=
  snprintfGrow 256 (childPidNotifyCmd ++ ' ' :: (printDec childPid.val ++ ' ' :: commandLine))

/-- `supervisor_child_processor_completion_notify`: `"%s %d"`. -/
def supervisorChildProcessorCompletionNotify (siPid : Pid) : List Char :=
  snprintfGrow 64 (childPidCompletionNotifyCmd ++ ' ' :: printDec siPid.val)

/-- The third token of a message; there may be none. -/
def thirdToken (msg : List Char) : Option (List Char) :=
  (strtok ' ' msg).bind fun (_, save) =>   -- 1st arg - extended-invoke-command (skipping it)
  (strtok ' ' save).bind fun (_, save) =>  -- 2nd arg - unix datagram name (skipping it)
  (strtok ' ' save).map Prod.fst           -- 3rd arg is sub-command token

/-- The sub-command of a message, as `handle_launcher_msg` reads it. Without a third token the
code constructs a `std::string` from a null pointer. -/
def subCommand (msg : List Char) : Option (List Char) :=
  (thirdToken msg).map fun cmdStr => cmdStr.filter (· ≠ '"')

/-! ## The supervisor's side -/

/-- What `handle_supervisor_msg` calls. -/
inductive SupervisorCall where
  | childProcessNotify (pid : ℤ) (commandLine : List Char)
  | childProcessCompletionNotify (pid : ℤ)
  /-- A supervisor sub-command, with the name looked up in the table of annotated commands. -/
  | command (cmdToken : Option (List Char))
  deriving DecidableEq

/-- `handle_supervisor_msg`, up to the invocation of the Java method. `none` stands for the
branches where the code passes a null pointer to the C library, or reads behind the message. -/
def handleSupervisorMsg (msg : List Char) : Option SupervisorCall :=
  (strtok ' ' msg).bind fun (cmd, save) =>
    if strncmpEq cmd childPidNotifyCmd childPidNotifyCmd.length then
      (strtok ' ' save).bind fun (pid, save) =>
      (strtok ' ' save).bind fun _ =>
      (strtokTail ' ' save).map fun cmdLine =>
        .childProcessNotify (toInt32 (strtol pid)) cmdLine
    else if strncmpEq cmd childPidCompletionNotifyCmd childPidCompletionNotifyCmd.length then
      (strtok ' ' save).map fun (pid, _) =>
        .childProcessCompletionNotify (toInt32 (strtol pid))
    else
      some (.command (subCommand msg))

/-! ## Decoding what was encoded -/

theorem toInt32_strtol_printDec (pid : Pid) : toInt32 (strtol (printDec pid.val)) = pid.val := by
  have := pid.lt
  rw [strtol_printDec (by omega), toInt32_eq (by omega) (by omega)]

/-- A message with a third token has text behind its first one. -/
theorem strtokTail_of_subCommand {msg cmd : List Char} (h : subCommand msg = some cmd) :
    ∃ first rest, strtok ' ' msg = some (first, rest) ∧ strtokTail ' ' msg = some rest := by
  simp only [subCommand, thirdToken, Option.map_eq_some_iff, Option.bind_eq_some_iff] at h
  obtain ⟨third, ⟨⟨first, rest⟩, hfirst, ⟨second, rest'⟩, hsecond, -⟩, -⟩ := h
  refine ⟨first, rest, hfirst, ?_⟩
  simp only [strtok, Option.ite_none_left_eq_some, Option.some.injEq, Prod.mk.injEq] at hfirst
  obtain ⟨-, -, hrest⟩ := hfirst
  unfold strtokTail
  split
  · next hnil =>
    rw [hnil] at hrest
    subst hrest
    cases hsecond
  · next c cs hcons =>
    rw [hcons] at hrest
    exact congrArg some hrest

theorem handleSupervisorMsg_notify (pid : Pid) {msg cmd : List Char}
    (h : subCommand msg = some cmd) :
    ∃ cmdLine, handleSupervisorMsg (supervisorChildProcessorNotify pid msg) =
      some (.childProcessNotify pid.val cmdLine) := by
  obtain ⟨first, rest, hfirst, htail⟩ := strtokTail_of_subCommand h
  refine ⟨rest, ?_⟩
  have hcmd : strtok ' ' (childPidNotifyCmd ++ ' ' :: (printDec pid.val ++ ' ' :: msg)) =
      some (childPidNotifyCmd, printDec pid.val ++ ' ' :: msg) :=
    strtok_append (by decide) (by decide) _
  have hpid := strtok_append (printDec_ne_nil pid.val) (space_notMem_printDec pid.val) msg
  have hbranch : strncmpEq childPidNotifyCmd childPidNotifyCmd childPidNotifyCmd.length := by
    decide
  simp only [supervisorChildProcessorNotify, snprintfGrow_eq, handleSupervisorMsg, hcmd,
    Option.bind_some, hbranch, if_true, hpid, hfirst, htail, Option.map_some,
    toInt32_strtol_printDec]

theorem handleSupervisorMsg_completion (pid : Pid) :
    handleSupervisorMsg (supervisorChildProcessorCompletionNotify pid) =
      some (.childProcessCompletionNotify pid.val) := by
  have hcmd : strtok ' ' (childPidCompletionNotifyCmd ++ ' ' :: printDec pid.val) =
      some (childPidCompletionNotifyCmd, printDec pid.val) :=
    strtok_append (by decide) (by decide) _
  have hpid := strtok_last (printDec_ne_nil pid.val) (space_notMem_printDec pid.val)
  have hother : strncmpEq childPidCompletionNotifyCmd childPidNotifyCmd
      childPidNotifyCmd.length = false := by decide
  have hbranch : strncmpEq childPidCompletionNotifyCmd childPidCompletionNotifyCmd
      childPidCompletionNotifyCmd.length := by decide
  simp only [supervisorChildProcessorCompletionNotify, snprintfGrow_eq, handleSupervisorMsg,
    hcmd, Option.bind_some, hother, hbranch, Bool.false_eq_true, if_false, if_true, hpid,
    Option.map_some, toInt32_strtol_printDec]

end Spartan
