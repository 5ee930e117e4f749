import SpartanLauncher.ReceiveLoop
import SpartanLauncher.Routing
import SpartanLauncher.Transport

/-!
# The notification about a child, within the limit of the queue

The launcher wraps the command line of a child into `--CHILD_PID_NOTIFY pid ...` and sends it to
the supervisor, whose queue has the same limit `MSG_BUF_SZ` as the launcher's own. The supervisor
takes the pid with `strtok_r`, and the command line with pointer arithmetic behind the first of
its tokens.

**Theorem (`childNotify_round_trips_iff`).** The command line without its first token reaches
`childProcessNotify` exactly when there is room for the wrapping.
-/

namespace Spartan

open CString Quoting

/-- The call that `supervisor_child_processor_notify` brings about in the supervisor. `none` when
the queue refuses the message. -/
def notifySupervisor (pid : Pid) (commandLine : List Char) : Option SupervisorCall :=
  (sendMqMsg (supervisorChildProcessorNotify pid commandLine)).bind fun buffer =>
    match (msgDispatchForSupervisor true false exitSuccess buffer buffer.length).1 with
    | .enQueued msg => handleSupervisorMsg msg
    | _ => none

/-- The supervisor is notified of the pid, and of the command line without its first token and
the space behind it. -/
def NotifyRoundTrips (pid : Pid) (commandLine : List Char) : Prop :=
  ∃ first rest, commandLine = first ++ ' ' :: rest ∧ first ≠ [] ∧ ' ' ∉ first ∧
    notifySupervisor pid commandLine = some (.childProcessNotify pid.val rest)

/-- What the notification needs besides the command line. -/
def notifyOverhead (pid : Pid) : ℕ := 20 + (printDec pid.val).length

variable {pid : Pid} {first rest commandLine : List Char}

theorem length_supervisorChildProcessorNotify (pid : Pid) (commandLine : List Char) :
    (supervisorChildProcessorNotify pid commandLine).length =
      notifyOverhead pid + commandLine.length := by
  have hcmd : childPidNotifyCmd.length = 18 := rfl
  simp only [supervisorChildProcessorNotify, snprintfGrow_eq, notifyOverhead, List.length_append,
    List.length_cons, hcmd]
  omega

/-- The supervisor dispatches a notification to the work queue, with all its bytes. -/
theorem msgDispatchForSupervisor_notify (hnul : '\x00' ∉ commandLine)
    (hfits : notifyOverhead pid + commandLine.length ≤ msgBufSz) :
    (msgDispatchForSupervisor true false exitSuccess
      (supervisorChildProcessorNotify pid commandLine)
      (supervisorChildProcessorNotify pid commandLine).length).1 =
      .enQueued (supervisorChildProcessorNotify pid commandLine) := by
  have hlength := length_supervisorChildProcessorNotify pid commandLine
  have hbuf : msgBufSz = 4096 := rfl
  have hnul' : '\x00' ∉ supervisorChildProcessorNotify pid commandLine := by
    simp only [supervisorChildProcessorNotify, snprintfGrow_eq, List.mem_append, List.mem_cons,
      not_or]
    exact ⟨by decide, by decide, nul_notMem_printDec _, by decide, hnul⟩
  have hdup := strndup_message hnul' (by omega) []
  rw [List.append_nil] at hdup
  have hshutdown : supervisorChildProcessorNotify pid commandLine ≠ shutdownCmd := by
    intro h
    have hthird : (supervisorChildProcessorNotify pid commandLine)[2]? = some 'C' := by
      rw [supervisorChildProcessorNotify, snprintfGrow_eq]
      rfl
    rw [h] at hthird
    exact absurd hthird (by decide)
  have hstatus : strncmpEq (supervisorChildProcessorNotify pid commandLine) statusCmd
      statusCmd.length = false := by
    rw [supervisorChildProcessorNotify, snprintfGrow_eq]
    rfl
  simp only [msgDispatchForSupervisor, hdup, hshutdown, hstatus, enQueueDispatchMsg,
    Bool.false_eq_true, if_false, if_true]

/-- **Notification.** It is refused by the queue, or it is understood. -/
theorem notifySupervisor_eq (hne : first ≠ []) (hspace : ' ' ∉ first)
    (hnul : '\x00' ∉ first ++ ' ' :: rest) :
    notifySupervisor pid (first ++ ' ' :: rest) =
      if notifyOverhead pid + (first ++ ' ' :: rest).length ≤ msgBufSz then
        some (.childProcessNotify pid.val rest) else none := by
  rw [notifySupervisor, sendMqMsg, length_supervisorChildProcessorNotify]
  split_ifs with hfits
  · have hcmd : strtok ' ' (childPidNotifyCmd ++ ' ' :: (printDec pid.val ++ ' ' ::
        (first ++ ' ' :: rest))) =
        some (childPidNotifyCmd, printDec pid.val ++ ' ' :: (first ++ ' ' :: rest)) :=
      strtok_append (by decide) (by decide) _
    have hpid := strtok_append (printDec_ne_nil pid.val) (space_notMem_printDec pid.val)
      (first ++ ' ' :: rest)
    have hfirst := strtok_append hne hspace rest
    have htail : strtokTail ' ' (first ++ ' ' :: rest) = some rest := by
      have hpos : ∀ c ∈ first, decide (c ≠ ' ') = true := fun c hc => by
        simpa using fun hcd : c = ' ' => hspace (hcd ▸ hc)
      rw [strtokTail, dropWhile_delim_of_notMem hne hspace, List.dropWhile_append_of_pos hpos]
      rfl
    have hbranch : strncmpEq childPidNotifyCmd childPidNotifyCmd childPidNotifyCmd.length := by
      decide
    rw [Option.bind_some, msgDispatchForSupervisor_notify hnul hfits]
    simp only [supervisorChildProcessorNotify, snprintfGrow_eq, handleSupervisorMsg, hcmd,
      Option.bind_some, hbranch, if_true, hpid, hfirst, htail, Option.map_some,
      toInt32_strtol_printDec]
  · rfl

/-- What the first entry of a message has to be: the message then starts with it. -/
structure FirstArg (extendedInvokeCmd : List Char) : Prop where
  ne_nil : extendedInvokeCmd ≠ []
  no_space : ' ' ∉ extendedInvokeCmd
  nulFree : '\x00' ∉ extendedInvokeCmd
  no_pipe : isPipeOption extendedInvokeCmd = false

/-- The option of a client is one. -/
theorem firstArg_extendedInvokeOption (client : Client) : FirstArg client.extendedInvokeOption :=
  let h := plainArg_extendedInvokeOption client
  ⟨h.1.ne_nil, h.1.no_space, h.1.nulFree, h.2⟩

/-- The message starts with its first entry in quotes, and goes on. -/
theorem sendFlattenedArgvMqMsg_shape {ext : List Char} (hext : FirstArg ext)
    {args : List (List Char)} {uds m : List Char} (huds : uds ≠ [])
    (hm : sendFlattenedArgvMqMsg args ext uds = some m) :
    ∃ rest, m = quoted ext.length ext ++ ' ' :: rest := by
  have hpipe := hext.no_pipe
  cases htail : removePipeOption (uds :: args) with
  | nil =>
    have hshort : removePipeOption (ext :: uds :: args) = [ext] := by
      unfold removePipeOption at htail ⊢
      rw [List.eraseP_cons_of_neg (by simp [hpipe]), htail]
    simp [sendFlattenedArgvMqMsg, hshort] at hm
  | cons b rest =>
    have hfilter : removePipeOption (ext :: uds :: args) = ext :: b :: rest := by
      unfold removePipeOption at htail ⊢
      rw [List.eraseP_cons_of_neg (by simp [hpipe]), htail]
    have hcopied : copied ((ext.length, ext) :: (uds.length, b) ::
        rest.map fun arg => (arg.length, arg)) =
        quoted ext.length ext :: quoted uds.length b ::
          copied (rest.map fun arg => (arg.length, arg)) := by
      simp [copied, hext.ne_nil, huds]
    rw [sendFlattenedArgvMqMsg_eq hext.ne_nil hfilter, hcopied, List.intercalate_cons_cons] at hm
    cases hm
    exact ⟨_, List.append_assoc _ _ _⟩

/-- What the launcher takes the message for has the same first token. -/
theorem commandLine_shape {ext : List Char} (hext : FirstArg ext) {args : List (List Char)}
    {uds m : List Char} (huds : uds ≠ []) (hm : sendFlattenedArgvMqMsg args ext uds = some m) :
    ∃ first rest, strndup m m.length = first ++ ' ' :: rest ∧ first ≠ [] ∧ ' ' ∉ first := by
  obtain ⟨rest, rfl⟩ := sendFlattenedArgvMqMsg_shape hext huds hm
  refine ⟨_, cstr rest, ?_, quoted_ne_nil _ _, notMem_quoted le_rfl hext.no_space (by decide)⟩
  have hnul : '\x00' ∉ quoted ext.length ext := notMem_quoted le_rfl hext.nulFree (by decide)
  have hpos : ∀ c ∈ quoted ext.length ext, decide (c ≠ '\x00') = true := fun c hc => by
    simpa using fun hc0 : c = '\x00' => hnul (hc0 ▸ hc)
  rw [strndup_length, cstr, List.takeWhile_append_of_pos hpos, cstr]
  simp

/-- A command line that the wrapping makes too long never arrives. -/
theorem not_notifyRoundTrips {ext : List Char} (hext : FirstArg ext) {args : List (List Char)}
    {uds m : List Char} (huds : uds ≠ []) (hm : sendFlattenedArgvMqMsg args ext uds = some m)
    (hlong : msgBufSz < notifyOverhead pid + (strndup m m.length).length) :
    ¬ NotifyRoundTrips pid (strndup m m.length) := by
  intro htrips
  obtain ⟨first, rest, hshape, hne, hspace⟩ := commandLine_shape hext huds hm
  obtain ⟨_, _, -, -, -, hcall⟩ := htrips
  have hnul : '\x00' ∉ strndup m m.length := nul_notMem_cstr _
  rw [hshape] at hnul hcall hlong
  rw [notifySupervisor_eq hne hspace hnul, if_neg (by omega)] at hcall
  cases hcall

/-- **Round trip of the notification.** -/
theorem childNotify_round_trips_iff (pid : Pid) {extendedInvokeCmd : List Char}
    (hext : FirstArg extendedInvokeCmd) {args : List (List Char)} {uds m : List Char}
    (huds : uds ≠ []) (hm : sendFlattenedArgvMqMsg args extendedInvokeCmd uds = some m) :
    NotifyRoundTrips pid (strndup m m.length) ↔
      notifyOverhead pid + (strndup m m.length).length ≤ msgBufSz := by
  refine ⟨?_, ?_⟩
  · intro htrips
    by_contra hlong
    exact not_notifyRoundTrips hext huds hm (by omega) htrips
  · intro hfits
    obtain ⟨first, rest, hshape, hne, hspace⟩ := commandLine_shape hext huds hm
    have hnul : '\x00' ∉ strndup m m.length := nul_notMem_cstr _
    rw [hshape] at hnul hfits ⊢
    exact ⟨first, rest, rfl, hne, hspace,
      (notifySupervisor_eq hne hspace hnul).trans (if_pos hfits)⟩

/-- A command of the usual length. -/
theorem childNotify_round_trips_short :
    let client : Client :=
      ⟨false, ["etl".toList], "app".toList, by decide, ⟨7, by decide, by decide⟩, 3⟩
    let m := "\"--EXTENDED_INVOKE=false\" \"/tmp/u\" \"etl\" \"a  b\"".toList
    sendFlattenedArgvMqMsg ["etl".toList, "a  b".toList] client.extendedInvokeOption
        "/tmp/u".toList = some m ∧
      NotifyRoundTrips ⟨4711, by decide, by decide⟩ (strndup m m.length) := by
  intro client m
  have hm : sendFlattenedArgvMqMsg ["etl".toList, "a  b".toList] client.extendedInvokeOption
      "/tmp/u".toList = some m := by
    decide +kernel
  exact ⟨hm, (childNotify_round_trips_iff ⟨4711, by decide, by decide⟩
    (firstArg_extendedInvokeOption client) (by decide) hm).2 (by decide +kernel)⟩

/-- Strings without a NUL arrive in the buffer of the launcher as they were sent. -/
theorem strndup_joined {ss : List (List Char)} (hnul : ∀ s ∈ ss, '\x00' ∉ s) :
    strndup (joined ss) (joined ss).length = joined ss := by
  rw [strndup_length]
  apply cstr_of_nulFree
  apply nul_notMem_intercalate
  intro block hblock
  obtain ⟨s, hs, rfl⟩ := List.mem_map.1 hblock
  rw [← quoted_length]
  exact notMem_quoted le_rfl (hnul s hs) (by decide)

/-- A command line that fills the launcher's queue entry: there is no room for the wrapping. -/
theorem childNotify_not_round_trips :
    let client : Client :=
      ⟨false, ["etl".toList], "app".toList, by decide, ⟨7, by decide, by decide⟩, 3⟩
    ∃ m, sendFlattenedArgvMqMsg ["etl".toList, List.replicate 4053 'x']
        client.extendedInvokeOption "/tmp/u".toList = some m ∧
      sendMqMsg m = some m ∧
      ¬ NotifyRoundTrips ⟨4711, by decide, by decide⟩ (strndup m m.length) := by
  intro client
  obtain ⟨arg, harg⟩ : ∃ arg, List.replicate 4053 'x' = arg := ⟨_, rfl⟩
  have hlength : arg.length = 4053 := harg ▸ List.length_replicate
  have hnul : '\x00' ∉ arg := harg ▸ fun hc => absurd (List.eq_of_mem_replicate hc) (by decide)
  have hpipe : isPipeOption arg = false := harg ▸ rfl
  rw [harg]
  set ss := [client.extendedInvokeOption, "/tmp/u".toList, "etl".toList, arg] with hss
  have hm : sendFlattenedArgvMqMsg ["etl".toList, arg] client.extendedInvokeOption
      "/tmp/u".toList = some (joined ss) := by
    apply sendFlattenedArgvMqMsg_joined
    · simp only [List.forall_mem_cons]
      exact ⟨by decide, by decide, by decide, List.ne_nil_of_length_pos (by omega), nofun⟩
    · simp only [List.forall_mem_cons]
      exact ⟨by decide, by decide, by decide, hpipe, nofun⟩
  have hfull : (joined ss).length = msgBufSz := by
    have hjoined : (joined ss).length + 1 = ss.flatten.length + 3 * 4 :=
      length_joined (List.cons_ne_nil _ _)
    have hflatten : ss.flatten.length = 23 + (6 + (3 + (arg.length + 0))) := by
      rw [List.length_flatten]
      rfl
    rw [hflatten, hlength] at hjoined
    exact Nat.succ.inj hjoined
  have hdup : strndup (joined ss) (joined ss).length = joined ss := by
    apply strndup_joined
    simp only [hss, List.forall_mem_cons]
    exact ⟨by decide, by decide, by decide, hnul, nofun⟩
  refine ⟨joined ss, hm, if_pos hfull.le, ?_⟩
  apply not_notifyRoundTrips (firstArg_extendedInvokeOption client) (by decide) hm
  rw [hdup, hfull]
  exact Nat.lt_add_of_pos_left (by decide)

end Spartan
