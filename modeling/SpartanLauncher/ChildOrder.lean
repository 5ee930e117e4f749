import SpartanLauncher.Launcher

/-!
# One child for each message

A message goes from the receive loop through the dispatch queue to `handle_launcher_msg`, which
forks once for it and reports the child to the supervisor, along with the message.

* `ReportingState`: the launcher with the flag that a termination signal sets, and with what the
  supervisor took off its queue.
* `forkResults`: the results of the forks of a run, in order.
* `notifications`: the reports about the children, as the forks were made.

**Theorem (`one_child_per_message`).** In every interleaving, the forks of a run were made for the
first accepted messages, one for each and in order. The reports that the supervisor has received,
or will find in its queue, are those about the first of the forks that succeeded, in the same order
and each with its message, but for the ones that the queue refuses. Before a termination signal,
none of these is missing.

`limited_hands` says what a step does to the messages handed over, the forks and the reports; the
invariant `Reporting` follows from it.
-/

namespace Spartan

open Machine CString

/-! ## Messages, forks and reports -/

structure ReportingState where
  launcher : LauncherState := {}
  /-- Non-zero indicates was signaled to terminate. -/
  flag : Bool := false
  /-- What the supervisor took off its queue, in order. -/
  received : List (List Char) := []
  deriving DecidableEq

inductive ReportingAct where
  | launcher (a : LauncherAct)
  /-- `signal_callback_handler`. -/
  | signal
  deriving DecidableEq

/-- What the supervisor takes off its queue in a step. -/
def LauncherState.received (s : LauncherState) : LauncherAct → List (List Char)
  | .superviseMsg => s.mq.head?.toList
  | _ => []

def reportingStep (cfg : LauncherCfg) (s : ReportingState) : ReportingAct → Option ReportingState
  | .launcher a =>
    (limitedStep cfg s.flag s.launcher a).map fun launcher =>
      { s with launcher := launcher, received := s.received ++ s.launcher.received a }
  | .signal => some { s with flag := true }

def LauncherAct.enQueued : LauncherAct → Option (List Char)
  | .dispatch a => a.accepted
  | _ => none

def LauncherAct.forkResult : LauncherAct → Option (Option Pid)
  | .fork result => some result
  | _ => none

def ReportingAct.launcher? : ReportingAct → Option LauncherAct
  | .launcher a => some a
  | .signal => none

/-- The messages accepted by the receive loop, in order. -/
def enQueuedMsgs (as : List ReportingAct) : List (List Char) :=
  as.filterMap fun a => a.launcher?.bind LauncherAct.enQueued

/-- The results of the forks, in order. -/
def forkResults (as : List ReportingAct) : List (Option Pid) :=
  as.filterMap fun a => a.launcher?.bind LauncherAct.forkResult

/-- The report about the child that was forked for a message. -/
def notification (msg : List Char) (result : Option Pid) : Option (List Char) :=
  result.map fun pid => supervisorChildProcessorNotify pid msg

/-- One report for each fork that succeeded. -/
def notifications (handed : List (List Char)) (results : List (Option Pid)) : List (List Char) :=
  (handed.zip results).filterMap fun e => notification e.1 e.2

/-- The report that `handle_launcher_msg` has still to send. -/
def Handler.pending : Handler → List (List Char)
  | .idle => []
  | .forked pid _ msg | .grouped pid _ msg => [supervisorChildProcessorNotify pid msg]

/-- The message is a report about a new child. -/
def isNotification (msg : List Char) : Bool := childPidNotifyCmd.isPrefixOf msg

/-- The reports that have got through to the supervisor. -/
def ReportingState.reports (s : ReportingState) : List (List Char) :=
  (s.received ++ s.launcher.mq).filter isNotification

/-- The messages that the queue does not refuse. -/
def sendable (msgs : List (List Char)) : List (List Char) := msgs.filterMap sendMqMsg

variable {cfg : LauncherCfg} {s t : LauncherState} {a : LauncherAct} {flag : Bool}

theorem isNotification_notify (pid : Pid) (msg : List Char) :
    isNotification (supervisorChildProcessorNotify pid msg) = true := by
  rw [isNotification, supervisorChildProcessorNotify, snprintfGrow_eq, List.isPrefixOf_iff_prefix]
  exact List.prefix_append _ _

theorem isNotification_completion (pid : Pid) :
    isNotification (supervisorChildProcessorCompletionNotify pid) = false := by
  rw [supervisorChildProcessorCompletionNotify, snprintfGrow_eq]
  rfl

theorem notifications_append {handed handed' : List (List Char)}
    {results results' : List (Option Pid)} (h : handed.length = results.length) :
    notifications (handed ++ handed') (results ++ results') =
      notifications handed results ++ notifications handed' results' := by
  rw [notifications, List.zip_append h, List.filterMap_append]
  rfl

/-! ## One step -/

/-- `handle_launcher_msg` takes the next message, and makes one fork for it. -/
theorem forkStep_handed {result : Option Pid} (h : forkStep cfg s result = some t) :
    ∃ msg, t.dispatch.handed = s.dispatch.handed ++ [msg] ∧ t.mq = s.mq ∧
      s.handler.pending = [] ∧ t.handler.pending = (notification msg result).toList := by
  unfold forkStep at h
  split at h
  · next msg msgs hhandler hthread =>
    simp only [Option.bind_eq_some_iff] at h
    obtain ⟨dispatch, hdispatch, cmd, -, h⟩ := h
    have hhanded : dispatch.handed = s.dispatch.handed ++ [msg] := by
      cases dispatchTrans_of_step hdispatch with
      | handle hthread' =>
        cases hthread.symm.trans hthread'
        rfl
    cases result with
    | none =>
      cases h
      exact ⟨msg, hhanded, rfl, by rw [hhandler]; rfl, by rw [hhandler]; rfl⟩
    | some pid =>
      simp only [Option.ite_none_right_eq_some, Option.some.injEq] at h
      obtain ⟨-, rfl⟩ := h
      exact ⟨msg, hhanded, rfl, by rw [hhandler]; rfl, rfl⟩
  · cases h

/-- A step of the dispatch queue other than `handle` hands over nothing. -/
theorem handed_eq {dispatch : DispatchState (List Char)} {b : DispatchAct (List Char)}
    (h : dispatchStep cfg.dispatch s.dispatch b = some dispatch) (hb : b ≠ .handle) :
    dispatch.handed = s.dispatch.handed := by
  cases dispatchTrans_of_step h with
  | take => exact (takeBatch_spec _ _).2.2.1
  | handle => exact absurd rfl hb
  | completion => exact (childProcessCompletion_messages _ _ _).1
  | _ => rfl

theorem sendable_append (msgs msgs' : List (List Char)) :
    sendable (msgs ++ msgs') = sendable msgs ++ sendable msgs' := List.filterMap_append

/-- What a step without a fork, and without a report, leaves as it is. -/
theorem hands_of_kept (h : launcherStep cfg s a = some t) (hfork : ∀ result, a ≠ .fork result)
    (hnotify : a ≠ .notify) :
    t.dispatch.handed = s.dispatch.handed ∧ t.handler.pending = s.handler.pending := by
  cases trans_of_step h with
  | dispatch henabled hdispatch =>
    refine ⟨handed_eq hdispatch ?_, rfl⟩
    intro h
    subst h
    cases henabled
  | completion _ hdispatch => exact ⟨handed_eq hdispatch nofun, rfl⟩
  | newGroup hhandler | joinGroup hhandler =>
    refine ⟨rfl, ?_⟩
    rw [hhandler]
    rfl
  | exit | waitExited | waitStopped | completionNotify | superviseMsg => exact ⟨rfl, rfl⟩
  | notify => exact absurd rfl hnotify
  | forkFails | forked => exact absurd rfl (hfork _)

/-- The queue after a step that sends nothing. -/
theorem received_mq (h : launcherStep cfg s a = some t) (hsends : s.sends a = none) :
    s.received a ++ t.mq = s.mq := by
  cases trans_of_step h with
  | notify hhandler =>
    rw [LauncherState.sends, hhandler] at hsends
    cases hsends
  | completionNotify hwaiter =>
    rw [LauncherState.sends, hwaiter] at hsends
    cases hsends
  | superviseMsg hmq =>
    rw [LauncherState.received, hmq]
    rfl
  | _ => rfl

/-- **Step lemma.** Each fork is made for a message that is handed over. A report gets to the queue
behind the earlier ones, and none gets there once `flag` is set. -/
theorem limited_hands (h : limitedStep cfg flag s a = some t) :
    ∃ handed sent, t.dispatch.handed = s.dispatch.handed ++ handed ∧
      handed.length = (forkResults [.launcher a]).length ∧
      (s.received a ++ t.mq).filter isNotification = s.mq.filter isNotification ++ sent ∧
      (flag = true → sent = []) ∧
      (flag = false → sent ++ sendable t.handler.pending =
        sendable s.handler.pending ++
          sendable (notifications handed (forkResults [.launcher a]))) := by
  rcases limitedStep_cases h with ⟨hsends, hstep⟩ | ⟨msg, u, mq, hsends, hstep, hsent, rfl⟩
  · have hqueue := received_mq hstep hsends
    by_cases hfork : ∃ result, a = .fork result
    · obtain ⟨result, rfl⟩ := hfork
      obtain ⟨msg, hhanded, -, hidle, hpending⟩ := forkStep_handed hstep
      refine ⟨[msg], [], hhanded, rfl, by simp [hqueue], fun _ => rfl, ?_⟩
      intro _
      rw [hidle, hpending]
      cases result <;> rfl
    · have hnotify : a ≠ .notify := by
        rintro rfl
        cases trans_of_step hstep with
        | notify hhandler =>
          rw [LauncherState.sends, hhandler] at hsends
          cases hsends
      obtain ⟨hhanded, hpending⟩ := hands_of_kept hstep (fun result h => hfork ⟨result, h⟩) hnotify
      have hnone : forkResults [.launcher a] = [] := by
        cases a <;> first | rfl | exact absurd ⟨_, rfl⟩ hfork
      refine ⟨[], [], by simp [hhanded], by rw [hnone]; rfl, by simp [hqueue], fun _ => rfl, ?_⟩
      intro _
      rw [hpending, hnone, List.nil_append]
      exact (List.append_nil _).symm
  · cases trans_of_step hstep with
    | @notify pid cmd msg' hhandler =>
      rw [LauncherState.sends, hhandler, Option.some.injEq] at hsends
      subst hsends
      rw [hhandler]
      rcases sendSupervisorMqMsg_cases hsent with ⟨rfl, hlost⟩ | ⟨rfl, hflag, hfits⟩
      · refine ⟨[], [], by simp, rfl, by simp [LauncherState.received], fun _ => rfl, ?_⟩
        intro hflag
        have hlong := hlost.resolve_left (by simp [hflag])
        simp [Handler.pending, sendable, sendMqMsg, not_le.2 hlong, notifications]
      · refine ⟨[], [supervisorChildProcessorNotify pid msg'], by simp, rfl, ?_, ?_, ?_⟩
        · simp [LauncherState.received, isNotification_notify]
        · simp [hflag]
        · intro _
          simp [Handler.pending, sendable, sendMqMsg, hfits, notifications]
    | @completionNotify pid hwaiter =>
      rw [LauncherState.sends, hwaiter, Option.some.injEq] at hsends
      subst hsends
      refine ⟨[], [], by simp, rfl, ?_, fun _ => rfl, ?_⟩
      · rcases sendSupervisorMqMsg_cases hsent with ⟨rfl, -⟩ | ⟨rfl, -, -⟩
        · simp [LauncherState.received]
        · simp [LauncherState.received, isNotification_completion]
      · intro _
        exact (List.append_nil _).symm
    | _ => cases hsends

/-- The messages accepted so far are those handed over, the batch and the queue. -/
theorem enQueued_step (h : Trans cfg s a t) :
    t.dispatch.messages = s.dispatch.messages ++ a.enQueued.toList := by
  cases h with
  | dispatch _ hdispatch => exact step_messages hdispatch
  | forkFails _ hdispatch | forked _ hdispatch => exact step_messages hdispatch
  | completion _ hdispatch => exact step_messages hdispatch
  | _ => exact (List.append_nil _).symm

/-! ## Runs -/

/-- What holds of every run. -/
structure Reporting (as : List ReportingAct) (s : ReportingState) : Prop where
  messages : s.launcher.dispatch.messages = enQueuedMsgs as
  handed : s.launcher.dispatch.handed.length = (forkResults as).length
  reports : s.reports <+: sendable (notifications s.launcher.dispatch.handed (forkResults as))
  all : s.flag = false → s.reports ++ sendable s.launcher.handler.pending =
    sendable (notifications s.launcher.dispatch.handed (forkResults as))

theorem Reporting.step {as : List ReportingAct} {s t : ReportingState} {a : ReportingAct}
    (hs : Reporting as s) (h : reportingStep cfg s a = some t) : Reporting (as ++ [a]) t := by
  cases a with
  | signal =>
    cases h
    have hresults : forkResults (as ++ [.signal]) = forkResults as := by
      rw [forkResults, List.filterMap_append]
      exact List.append_nil _
    refine ⟨?_, ?_, ?_, nofun⟩
    · rw [enQueuedMsgs, List.filterMap_append, hs.messages]
      exact (List.append_nil _).symm
    · rw [hresults]
      exact hs.handed
    · rw [hresults]
      exact hs.reports
  | launcher a =>
    obtain ⟨launcher, hstep, rfl⟩ := Option.map_eq_some_iff.1 h
    obtain ⟨handed, sent, hhanded, hlength, hqueue, hflagged, hunflagged⟩ := limited_hands hstep
    obtain ⟨u, htrans, hu⟩ := trans_of_limitedStep hstep
    have hresults : forkResults (as ++ [.launcher a]) =
        forkResults as ++ forkResults [.launcher a] := List.filterMap_append
    have hnotifications : notifications launcher.dispatch.handed
        (forkResults (as ++ [.launcher a])) =
        notifications s.launcher.dispatch.handed (forkResults as) ++
          notifications handed (forkResults [.launcher a]) := by
      rw [hhanded, hresults, notifications_append hs.handed]
    have hreports : ReportingState.reports { s with
        launcher := launcher
        received := s.received ++ s.launcher.received a } = s.reports ++ sent := by
      rw [ReportingState.reports, ReportingState.reports, List.append_assoc, List.filter_append,
        hqueue, ← List.append_assoc, ← List.filter_append]
    have hall : s.flag = false →
        (s.reports ++ sent) ++ sendable launcher.handler.pending =
          sendable (notifications launcher.dispatch.handed
            (forkResults (as ++ [.launcher a]))) := by
      intro hflag
      rw [List.append_assoc, hunflagged hflag, ← List.append_assoc, hs.all hflag, hnotifications,
        sendable_append]
    refine ⟨?_, ?_, ?_, ?_⟩
    · have hmessages : launcher.dispatch.messages = u.dispatch.messages := by rw [hu]
      have hqueued : enQueuedMsgs (as ++ [.launcher a]) = enQueuedMsgs as ++ a.enQueued.toList := by
        rw [enQueuedMsgs, List.filterMap_append]
        cases haq : a.enQueued <;> simp [enQueuedMsgs, ReportingAct.launcher?, haq]
      show launcher.dispatch.messages = _
      rw [hmessages, enQueued_step htrans, hs.messages, hqueued]
    · show launcher.dispatch.handed.length = _
      rw [hhanded, hresults, List.length_append, List.length_append, hs.handed, hlength]
    · rw [hreports]
      by_cases hflag : s.flag = true
      · rw [hflagged hflag, List.append_nil]
        show s.reports <+: sendable (notifications launcher.dispatch.handed _)
        rw [hnotifications, sendable_append]
        exact hs.reports.trans (List.prefix_append _ _)
      · exact ⟨_, hall (by simpa using hflag)⟩
    · intro hflag
      rw [hreports]
      exact hall hflag

theorem reporting_run {as : List ReportingAct} {t : ReportingState}
    (hrun : run (reportingStep cfg) {} as = some t) : Reporting as t :=
  run_history (I := Reporting) (fun _ _ _ _ hs hstep => hs.step hstep)
    ⟨rfl, rfl, List.prefix_rfl, fun _ => rfl⟩ hrun

/-- **One child for each message.** -/
theorem one_child_per_message (cfg : LauncherCfg) (as : List ReportingAct) {t : ReportingState}
    (hrun : run (reportingStep cfg) {} as = some t) :
    t.launcher.dispatch.handed <+: enQueuedMsgs as ∧
      t.launcher.dispatch.handed.length = (forkResults as).length ∧
      t.reports <+: sendable (notifications t.launcher.dispatch.handed (forkResults as)) ∧
      (t.flag = false → t.reports ++ sendable t.launcher.handler.pending =
        sendable (notifications t.launcher.dispatch.handed (forkResults as))) := by
  have hinv := reporting_run hrun
  refine ⟨?_, hinv.handed, hinv.reports, hinv.all⟩
  rw [← hinv.messages, DispatchState.messages, List.append_assoc]
  exact List.prefix_append _ _

/-- The first fork fails; the report is about the second message. -/
theorem one_child_per_message_two :
    let cfg : LauncherCfg := ⟨⟨1, by decide, by decide⟩, 3⟩
    let p : Pid := ⟨100, by decide, by decide⟩
    let as : List ReportingAct :=
      [.launcher (.dispatch (.enQueue "- u a".toList)),
        .launcher (.dispatch (.enQueue "- u b".toList)), .launcher (.dispatch .wait),
        .launcher (.dispatch .take), .launcher (.fork none), .launcher (.fork (some p)),
        .launcher .setpgid, .launcher .notify, .launcher .superviseMsg]
    ∃ t, run (reportingStep cfg) {} as = some t ∧
      t.reports ++ sendable t.launcher.handler.pending =
        ["--CHILD_PID_NOTIFY 100 - u b".toList] := by
  intro cfg p as
  let t := (run (reportingStep cfg) {} as).getD {}
  have hrun : run (reportingStep cfg) {} as = some t := by decide +kernel
  have hflag : t.flag = false := by decide +kernel
  exact ⟨t, hrun, ((one_child_per_message cfg as hrun).2.2.2 hflag).trans (by decide +kernel)⟩

end Spartan
