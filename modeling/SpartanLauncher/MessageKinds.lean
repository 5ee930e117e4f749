import SpartanLauncher.ChildNotify
import SpartanLauncher.PipeFilter

/-!
# The messages of the two queues

Six places of the program send a message, and two receive loops tell them apart by their text
alone. The text of a command line comes from outside: whatever it says, it must not be taken for a
control message.

* `Sent`: the messages that the program sends, to which queue and what for.
* `MqQueue.understands`: what the receive loop at a queue, and the thread behind it, take the
  message in the buffer for.

**Theorem (`message_understood`).** Each message that a queue accepts is taken for what it was sent
for, whatever an earlier message has left in the buffer. Only the name of the socket in a status
request is cut at its first space.

A command line starts with a quote, because its first entry is an option in quotes
(`cstr_commandLine`), and with the quote all comparisons fail (`understands_quote`). The control
messages start with a dash, and the comparisons tell them apart (`understands_report`,
`understands_statusRequest`).
-/

namespace Spartan

open CString Quoting

/-! ## What a message is sent for -/

inductive Meaning where
  | stop
  | shutdown
  | status (udsSocketName : List Char)
  | statusIgnored
  /-- A sub-command: the launcher forks a child for it, the supervisor invokes it itself. -/
  | command (commandLine : List Char)
  | childProcessNotify (pid : ℤ) (commandLine : List Char)
  | childProcessCompletionNotify (pid : ℤ)
  deriving DecidableEq

/-- The message of `client_status_request`. -/
def Client.statusRequest (client : Client) : List Char :=
  snprintfGrow 256 (statusCmd ++ ' ' :: client.bindUdsSocketName)

/-- The messages that the program sends. -/
inductive Sent : MqQueue → List Char → Meaning → Prop
  /-- The operation `stop` of a client, and a forked child that is about to fail. -/
  | stop : Sent .launcher stopCmd .stop
  /-- The launcher, when it has ended. -/
  | shutdown : Sent .supervisor shutdownCmd .shutdown
  | status (client : Client) :
      Sent .supervisor client.statusRequest (.status client.bindUdsSocketName)
  | command {client : Client} {args : List (List Char)} {queue : MqQueue}
      {command uds msg : List Char}
      (hposted : forkableMainEntry client args = .posted queue command uds (some msg)) :
      Sent queue msg (.command (strndup msg msg.length))
  /-- The launcher reports a child along with the command line that it has received. -/
  | childProcessNotify (pid : Pid) {msg commandLine : List Char}
      (hsent : Sent .launcher msg (.command commandLine)) :
      Sent .supervisor (supervisorChildProcessorNotify pid commandLine)
        (.childProcessNotify pid.val ((commandLine.dropWhile (· ≠ ' ')).drop 1))
  | childProcessCompletionNotify (siPid : Pid) :
      Sent .supervisor (supervisorChildProcessorCompletionNotify siPid)
        (.childProcessCompletionNotify siPid.val)

/-! ## What a message is taken for -/

def SupervisorCall.meaning (msg : List Char) : SupervisorCall → Meaning
  | .childProcessNotify pid commandLine => .childProcessNotify pid commandLine
  | .childProcessCompletionNotify pid => .childProcessCompletionNotify pid
  | .command _ => .command msg

/-- The meaning of what `msg_dispatch` does, and of the call that follows for a message on the
work queue. -/
def MqQueue.understands (queue : MqQueue) (quitting : Bool) (buffer : List Char) (msgSize : ℤ) :
    Option Meaning :=
  match queue with
  | .launcher =>
    match (msgDispatchForLauncher true buffer msgSize).1 with
    | .stop => some .stop
    | .enQueued msg => some (.command msg)
    | _ => none
  | .supervisor =>
    match (msgDispatchForSupervisor true quitting exitSuccess buffer msgSize).1 with
    | .shutdown => some .shutdown
    | .statusResponse udsSocketName => udsSocketName.map .status
    | .statusIgnored => some .statusIgnored
    | .enQueued msg => (handleSupervisorMsg msg).map (SupervisorCall.meaning msg)
    | _ => none

/-- What arrives: a supervisor that is about to end ignores status requests. -/
def Meaning.received (quitting : Bool) : Meaning → Meaning
  | .status udsSocketName =>
    if quitting then .statusIgnored else .status (udsSocketName.takeWhile (· ≠ ' '))
  | meaning => meaning

/-! ## Each kind of message -/

variable {queue : MqQueue} {quitting : Bool} {msg rest buffer : List Char} {msgSize : ℤ}

/-- The message, cut out of the buffer. -/
theorem strndup_buffer (hfits : msg.length ≤ msgBufSz) (rest : List Char) :
    strndup (msg ++ rest) (toSizeT msg.length) = cstr msg := by
  have hbuf : msgBufSz = 4096 := rfl
  have hsize : toSizeT msg.length = msg.length := by
    unfold toSizeT
    omega
  rw [strndup, hsize, List.take_left]

/-- A message that the supervisor does not recognize goes to the work queue. -/
theorem understands_enQueued (hmsg : strndup buffer (toSizeT msgSize) = msg)
    (hshutdown : msg ≠ shutdownCmd) (hstatus : strncmpEq msg statusCmd statusCmd.length = false) :
    MqQueue.supervisor.understands quitting buffer msgSize =
      (handleSupervisorMsg msg).map (SupervisorCall.meaning msg) := by
  simp only [MqQueue.understands, msgDispatchForSupervisor, hmsg, hshutdown, hstatus,
    enQueueDispatchMsg, Bool.false_eq_true, if_false, if_true]

/-- **Command lines.** A quote in front makes a message a command, on both queues. -/
theorem understands_quote {tail : List Char}
    (hmsg : strndup buffer (toSizeT msgSize) = '"' :: tail) :
    queue.understands quitting buffer msgSize = some (.command ('"' :: tail)) := by
  cases queue with
  | launcher =>
    have hstop : '"' :: tail ≠ stopCmd := by
      intro h
      exact absurd (List.cons.inj h).1 (by decide)
    simp only [MqQueue.understands, msgDispatchForLauncher, hmsg, hstop, enQueueDispatchMsg,
      if_false, if_true]
  | supervisor =>
    have hshutdown : '"' :: tail ≠ shutdownCmd := by
      intro h
      exact absurd (List.cons.inj h).1 (by decide)
    rw [understands_enQueued hmsg hshutdown rfl, handleSupervisorMsg_quote]
    rfl

/-- What a client posts, and that it names a socket. -/
theorem posted_message {client : Client} {args : List (List Char)} {command uds : List Char}
    (hposted : forkableMainEntry client args = .posted queue command uds (some msg)) :
    uds ≠ [] ∧ sendFlattenedArgvMqMsg args client.extendedInvokeOption uds = some msg := by
  have hpost : ∀ {cmd arg : List Char},
      client.postCommand args cmd arg = .posted queue command uds (some msg) →
      uds ≠ [] ∧ sendFlattenedArgvMqMsg args client.extendedInvokeOption uds = some msg := by
    intro cmd arg h
    obtain ⟨-, rfl, hmsg⟩ := postCommand_posted h
    refine ⟨?_, hmsg.symm⟩
    by_cases hempty : arg.isEmpty = true
    · rw [if_pos hempty]
      exact (bindUdsSocketName_spec client args).ne_nil
    · rw [if_neg hempty]
      simpa using hempty
  simp only [forkableMainEntry] at hposted
  split at hposted
  case h_5 =>
    split_ifs at hposted
    exact hpost hposted
  case h_6 => exact hpost hposted
  all_goals cases hposted

/-- A command line starts with a quote, and has a space behind its first entry. -/
theorem cstr_commandLine {client : Client} {args : List (List Char)} {command uds : List Char}
    (hposted : forkableMainEntry client args = .posted queue command uds (some msg)) :
    ∃ first tail, cstr msg = '"' :: first ++ ' ' :: tail ∧ ' ' ∉ '"' :: first := by
  have hext := firstArg_extendedInvokeOption client
  obtain ⟨huds, hmsg⟩ := posted_message hposted
  obtain ⟨tail, rfl⟩ := sendFlattenedArgvMqMsg_shape hext huds hmsg
  have hspace : ' ' ∉ quoted client.extendedInvokeOption.length client.extendedInvokeOption :=
    notMem_quoted le_rfl hext.no_space (by decide)
  have hnul : ∀ c ∈ quoted client.extendedInvokeOption.length client.extendedInvokeOption,
      decide (c ≠ '\x00') = true := by
    intro c hc
    have hnul := notMem_quoted (c := '\x00') (n := client.extendedInvokeOption.length) le_rfl
      hext.nulFree (by decide)
    simpa using fun h : c = '\x00' => hnul (h ▸ hc)
  refine ⟨_, cstr tail, ?_, hspace⟩
  rw [cstr, List.takeWhile_append_of_pos hnul, List.takeWhile_cons_of_pos (by decide)]
  rfl

/-- A sub-command that is sent to the launcher has been posted by a client. -/
theorem commandLine_of_sent {commandLine : List Char}
    (hsent : Sent .launcher msg (.command commandLine)) :
    ∃ first tail, commandLine = '"' :: first ++ ' ' :: tail ∧ ' ' ∉ '"' :: first ∧
      '\x00' ∉ commandLine := by
  cases hsent with
  | command hposted =>
    obtain ⟨first, tail, hmsg, hspace⟩ := cstr_commandLine hposted
    exact ⟨first, tail, by rw [strndup_length, hmsg], hspace, nul_notMem_cstr _⟩

theorem bindUdsSocketName_eq (client : Client) :
    ∃ name, client.bindUdsSocketName = '/' :: name := by
  rw [Client.bindUdsSocketName, makeFifoPipeName, snprintfGrow_eq]
  exact ⟨_, rfl⟩

/-- **Status requests.** -/
theorem understands_statusRequest (client : Client)
    (hfits : client.statusRequest.length ≤ msgBufSz) (rest : List Char) :
    MqQueue.supervisor.understands quitting (client.statusRequest ++ rest)
        client.statusRequest.length =
      some ((Meaning.status client.bindUdsSocketName).received quitting) := by
  obtain ⟨name, hname⟩ := bindUdsSocketName_eq client
  have hnul := (bindUdsSocketName_spec client []).nulFree
  have hmsg := strndup_buffer hfits rest
  have hcstr : cstr client.statusRequest = client.statusRequest := by
    apply cstr_of_nulFree
    simp only [Client.statusRequest, snprintfGrow_eq, List.mem_append, List.mem_cons, not_or]
    exact ⟨by decide, by decide, hnul⟩
  rw [hcstr] at hmsg
  have hshutdown : client.statusRequest ≠ shutdownCmd := by
    intro h
    have hfourth : client.statusRequest[3]? = some 'T' := by
      rw [Client.statusRequest, snprintfGrow_eq]
      rfl
    rw [h] at hfourth
    exact absurd hfourth (by decide)
  have hstatus : strncmpEq client.statusRequest statusCmd statusCmd.length = true := by
    rw [Client.statusRequest, snprintfGrow_eq]
    rfl
  have hfirst : strtok ' ' client.statusRequest = some (statusCmd, client.bindUdsSocketName) := by
    rw [Client.statusRequest, snprintfGrow_eq]
    exact strtok_append (by decide) (by decide) _
  have hsecond : (strtok ' ' client.bindUdsSocketName).map Prod.fst =
      some (client.bindUdsSocketName.takeWhile (· ≠ ' ')) := by
    rw [hname]
    simp [strtok]
  simp only [MqQueue.understands, msgDispatchForSupervisor, hmsg, hshutdown, hstatus, if_false,
    if_true, hfirst, Option.bind_some, hsecond, Meaning.received]
  cases quitting <;> rfl

/-- A report is neither `--SHUTDOWN` nor a status request: they differ in the third character. -/
theorem understands_report (hnul : '\x00' ∉ msg) (hthird : msg[2]? = some 'C')
    (hfits : msg.length ≤ msgBufSz) (rest : List Char) :
    MqQueue.supervisor.understands quitting (msg ++ rest) msg.length =
      (handleSupervisorMsg msg).map (SupervisorCall.meaning msg) := by
  have hmsg := strndup_buffer hfits rest
  rw [cstr_of_nulFree hnul] at hmsg
  have hshutdown : msg ≠ shutdownCmd := by
    intro h
    rw [h] at hthird
    exact absurd hthird (by decide)
  have hstatus : strncmpEq msg statusCmd statusCmd.length = false := by
    by_contra h
    rw [Bool.not_eq_false, strncmpEq, beq_iff_eq] at h
    have hget := congrArg (·[2]?) h
    simp only [List.getElem?_take_of_lt (show 2 < statusCmd.length by decide), hthird] at hget
    exact absurd hget (by decide)
  exact understands_enQueued hmsg hshutdown hstatus

/-- What the supervisor does with the report about a new child. -/
theorem handleSupervisorMsg_childProcessNotify (pid : Pid) {first tail : List Char}
    (hne : first ≠ []) (hspace : ' ' ∉ first) (hnul : '\x00' ∉ first ++ ' ' :: tail)
    (hfits : (supervisorChildProcessorNotify pid (first ++ ' ' :: tail)).length ≤ msgBufSz) :
    handleSupervisorMsg (supervisorChildProcessorNotify pid (first ++ ' ' :: tail)) =
      some (.childProcessNotify pid.val tail) := by
  have hnotify : notifySupervisor pid (first ++ ' ' :: tail) = _ :=
    notifySupervisor_eq hne hspace hnul
  have hoverhead := hfits
  rw [length_supervisorChildProcessorNotify] at hoverhead
  rwa [if_pos hoverhead, notifySupervisor, sendMqMsg, if_pos hfits, Option.bind_some,
    msgDispatchForSupervisor_notify hnul hoverhead] at hnotify

theorem nul_notMem_notify (pid : Pid) {commandLine : List Char} (hnul : '\x00' ∉ commandLine) :
    '\x00' ∉ supervisorChildProcessorNotify pid commandLine := by
  simp only [supervisorChildProcessorNotify, snprintfGrow_eq, List.mem_append, List.mem_cons,
    not_or]
  exact ⟨by decide, by decide, nul_notMem_printDec _, by decide, hnul⟩

theorem nul_notMem_completionNotify (siPid : Pid) :
    '\x00' ∉ supervisorChildProcessorCompletionNotify siPid := by
  simp only [supervisorChildProcessorCompletionNotify, snprintfGrow_eq, List.mem_append,
    List.mem_cons, not_or]
  exact ⟨by decide, by decide, nul_notMem_printDec _⟩

/-! ## All of them -/

/-- **The messages of the two queues.** -/
theorem message_understood {meaning : Meaning} (hsent : Sent queue msg meaning)
    (hfits : msg.length ≤ msgBufSz) (quitting : Bool) (rest : List Char) :
    queue.understands quitting (msg ++ rest) msg.length = some (meaning.received quitting) := by
  cases hsent with
  | stop =>
    have hmsg := strndup_buffer hfits rest
    simp only [MqQueue.understands, msgDispatchForLauncher, hmsg]
    rfl
  | shutdown =>
    have hmsg := strndup_buffer hfits rest
    simp only [MqQueue.understands, msgDispatchForSupervisor, hmsg]
    rfl
  | status client => exact understands_statusRequest client hfits rest
  | command hposted =>
    obtain ⟨first, tail, hmsg, -⟩ := cstr_commandLine hposted
    rw [strndup_length, hmsg]
    exact understands_quote ((strndup_buffer hfits rest).trans hmsg)
  | childProcessNotify pid hcommand =>
    -- the command line is one that the launcher has received
    obtain ⟨first, tail, rfl, hspace, hnul⟩ := commandLine_of_sent hcommand
    have hpos : ∀ c ∈ '"' :: first, decide (c ≠ ' ') = true := by
      intro c hc
      simpa using fun h : c = ' ' => hspace (h ▸ hc)
    have htail : (('"' :: first ++ ' ' :: tail).dropWhile (· ≠ ' ')).drop 1 = tail := by
      rw [List.dropWhile_append_of_pos hpos]
      rfl
    have hthird : (supervisorChildProcessorNotify pid ('"' :: first ++ ' ' :: tail))[2]? =
        some 'C' := by
      rw [supervisorChildProcessorNotify, snprintfGrow_eq]
      rfl
    rw [htail, understands_report (nul_notMem_notify pid hnul) hthird hfits,
      handleSupervisorMsg_childProcessNotify pid (List.cons_ne_nil _ _) hspace hnul hfits]
    rfl
  | childProcessCompletionNotify siPid =>
    have hthird : (supervisorChildProcessorCompletionNotify siPid)[2]? = some 'C' := by
      rw [supervisorChildProcessorCompletionNotify, snprintfGrow_eq]
      rfl
    rw [understands_report (nul_notMem_completionNotify siPid) hthird hfits,
      handleSupervisorMsg_completion]
    rfl

/-- A command line that quotes control messages, reported by the launcher. Behind the report the
buffer holds what was left of a status request. -/
theorem message_understood_quoting :
    let commandLine := "\"--EXTENDED_INVOKE=false\" \"/tmp/u\" \"etl\" \"--STOP\"".toList
    let msg := supervisorChildProcessorNotify ⟨4711, by decide, by decide⟩ commandLine
    MqQueue.supervisor.understands false (msg ++ "LauncherUDS_7_3".toList) msg.length =
      some (.childProcessNotify 4711 "\"/tmp/u\" \"etl\" \"--STOP\"".toList) := by
  intro commandLine msg
  let client : Client :=
    ⟨false, ["etl".toList], "app".toList, by decide, ⟨7, by decide, by decide⟩, 3⟩
  have hposted : forkableMainEntry client
      ["-pipe=/tmp/u".toList, "etl".toList, "--STOP".toList] =
      .posted .launcher "etl".toList "/tmp/u".toList (some commandLine) := by
    decide +kernel
  have hsent : Sent .supervisor msg
      (.childProcessNotify 4711 ((commandLine.dropWhile (· ≠ ' ')).drop 1)) := by
    have hcommand := Sent.command hposted
    have hdup : strndup commandLine commandLine.length = commandLine := by decide +kernel
    rw [hdup] at hcommand
    exact .childProcessNotify ⟨4711, by decide, by decide⟩ hcommand
  exact message_understood hsent (by decide +kernel) false _

end Spartan
