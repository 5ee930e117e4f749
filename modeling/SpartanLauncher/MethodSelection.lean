import SpartanLauncher.ChildCommands
import SpartanLauncher.Routing

/-!
# The method that a command invokes

The client decides by the commands of the session state whether a command goes to the launcher or
to the supervisor. The launcher forks a child, which looks the command up among the annotated
methods of child processes; the supervisor looks it up among its own annotated methods. Both fall
back on an entry point of the session state.

* `launcherInvokes`, `supervisorInvokes`: the method that the receiver of a message invokes.
* `ClientResult.invokes`: the method that is invoked for what a client does, if any.
* `SessionState.invokesInChild`, `SessionState.invokesInSupervisor`: the method that a command
  stands for.

**Theorem (`command_reaches_method`).** When the first argument behind a `-pipe=` option is the
command, the method that is invoked at the other end is the one that the command stands for: of
child processes when an annotation of these, or the configuration, lists it, and otherwise of the
supervisor; the first one annotated with that name in whatever case, or else the entry point. A
message of more than `MSG_BUF_SZ` characters does not arrive.
-/

namespace Spartan

open CString

/-! ## The receivers -/

/-- `icompare`. -/
def icompare (a b : List Char) : Bool :=
  if a.length = b.length then (a.zip b).all fun p => p.1.toLower == p.2.toLower else false

inductive Invoked where
  /-- In a child process with these options for its JVM. -/
  | inChildProcess (method : MethodDescriptor) (jvmOptions : List Char)
  | inSupervisor (method : MethodDescriptor)
  /-- No Java method defined to handle the command line. -/
  | noMethod
  deriving DecidableEq

/-- What the child that `handle_launcher_msg` forks does with the message. -/
def launcherInvokes (ss : SessionState) (msg : List Char) : Option Invoked :=
  (subCommand msg).map fun cmd =>
    let found := (ss.spSpartanChildProcessorCommands.getD []).find? fun methDesc =>
      icompare methDesc.command cmd
    let pMethDesc := (found.map (·.toMethodDescriptor)).getD ss.spartanChildProcessorEntryPoint
    let jvmOverrideOptns := (found.map (·.jvmOptionsCommandLine)).getD []
    if pMethDesc.fullMethodName.isEmpty then .noMethod
    else .inChildProcess pMethDesc jvmOverrideOptns

/-- What `handle_supervisor_msg` does with a message that is no notification. -/
def supervisorInvokes (ss : SessionState) (msg : List Char) : Option Invoked :=
  match handleSupervisorMsg msg with
  | some (.command cmdToken) =>
    let found := cmdToken.bind fun cmdStr =>
      (ss.spSpartanSupervisorCommands.getD []).find? fun methDesc =>
        icompare methDesc.command cmdStr
    match found with
    | some methDesc => some (.inSupervisor methDesc.toMethodDescriptor)
    | none =>
      if ss.spartanSupervisorEntryPoint.fullMethodName.isEmpty then some .noMethod
      else some (.inSupervisor ss.spartanSupervisorEntryPoint)
  | _ => none

def MqQueue.invokes (queue : MqQueue) (ss : SessionState) (msg : List Char) : Option Invoked :=
  let msgDup := strndup msg msg.length
  match queue with
  | .launcher => launcherInvokes ss msgDup
  | .supervisor => supervisorInvokes ss msgDup

/-- What comes of a client's call: nothing, when no message arrives. -/
def ClientResult.invokes (result : ClientResult) (ss : SessionState) : Option Invoked :=
  result.delivered.bind fun (queue, msg) => queue.invokes ss msg

/-! ## What a command stands for -/

/-- The first annotated method with that name in whatever case. -/
def firstAnnotated (commands : Option (List MethodDescriptorCmd)) (command : List Char) :
    Option MethodDescriptorCmd :=
  (commands.getD []).find? fun methDesc => strcasecmpEq methDesc.command command

def SessionState.invokesInChild (ss : SessionState) (command : List Char) : Invoked :=
  match firstAnnotated ss.spSpartanChildProcessorCommands command with
  | some methDesc =>
    if methDesc.fullMethodName.isEmpty then .noMethod
    else .inChildProcess methDesc.toMethodDescriptor methDesc.jvmOptionsCommandLine
  | none =>
    if ss.spartanChildProcessorEntryPoint.fullMethodName.isEmpty then .noMethod
    else .inChildProcess ss.spartanChildProcessorEntryPoint []

def SessionState.invokesInSupervisor (ss : SessionState) (command : List Char) : Invoked :=
  match firstAnnotated ss.spSpartanSupervisorCommands command with
  | some methDesc => .inSupervisor methDesc.toMethodDescriptor
  | none =>
    if ss.spartanSupervisorEntryPoint.fullMethodName.isEmpty then .noMethod
    else .inSupervisor ss.spartanSupervisorEntryPoint

/-- The strings of the session state that the commands come from are C strings. -/
structure CommandsNulFree (ss : SessionState) : Prop where
  configured : '\x00' ∉ ss.spartanChildProcessorCommands
  annotated : ∀ methDesc ∈ ss.spSpartanChildProcessorCommands.getD [], '\x00' ∉ methDesc.command

/-! ## The lookup -/

theorem icompare_eq (a b : List Char) : icompare a b = strcasecmpEq a b := by
  rw [icompare, strcasecmpEq]
  by_cases hlength : a.length = b.length
  · rw [if_pos hlength]
    induction a generalizing b with
    | nil =>
      obtain rfl := List.length_eq_zero_iff.1 hlength.symm
      rfl
    | cons x a ih =>
      cases b with
      | nil => cases hlength
      | cons y b =>
        have htail := ih b (Nat.succ.inj hlength)
        rw [List.zip_cons_cons, List.all_cons, htail]
        by_cases hxy : x.toLower = y.toLower <;> simp [hxy]
  · rw [if_neg hlength, eq_comm, beq_eq_false_iff_ne]
    intro heq
    have hlengths := congrArg List.length heq
    rw [List.length_map, List.length_map] at hlengths
    exact hlength hlengths

theorem strcasecmpEq_of_eq {a b c : List Char} (h : strcasecmpEq a b = true) :
    strcasecmpEq c a = strcasecmpEq c b := by
  rw [strcasecmpEq_iff] at h
  rw [strcasecmpEq, strcasecmpEq, h]

/-- The name in the message and the client's command find the same method. -/
theorem find?_icompare {name command : List Char} (h : strcasecmpEq name command = true)
    (commands : Option (List MethodDescriptorCmd)) :
    ((commands.getD []).find? fun methDesc => icompare methDesc.command name) =
      firstAnnotated commands command := by
  have hpred : (fun methDesc : MethodDescriptorCmd => icompare methDesc.command name) =
      fun methDesc => strcasecmpEq methDesc.command command := by
    funext methDesc
    rw [icompare_eq, strcasecmpEq_of_eq h]
  rw [hpred, firstAnnotated]

theorem launcherInvokes_eq {ss : SessionState} {msg name command : List Char}
    (hname : subCommand msg = some name) (h : strcasecmpEq name command = true) :
    launcherInvokes ss msg = some (ss.invokesInChild command) := by
  rw [launcherInvokes, hname, Option.map_some, SessionState.invokesInChild]
  simp only [find?_icompare h]
  cases firstAnnotated ss.spSpartanChildProcessorCommands command <;> rfl

theorem supervisorInvokes_eq {ss : SessionState} {msg name command : List Char}
    (hname : handleSupervisorMsg msg = some (.command (some name)))
    (h : strcasecmpEq name command = true) :
    supervisorInvokes ss msg = some (ss.invokesInSupervisor command) := by
  rw [supervisorInvokes, hname, SessionState.invokesInSupervisor]
  simp only [Option.bind_some, find?_icompare h]
  cases firstAnnotated ss.spSpartanSupervisorCommands command with
  | some methDesc => rfl
  | none =>
    by_cases hempty : ss.spartanSupervisorEntryPoint.fullMethodName.isEmpty = true
    · simp [hempty]
    · simp [hempty]

/-! ## The client -/

theorem mem_cmdsSet_iff {ss : SessionState} {cmdsSet : List (List Char)}
    (hnul : CommandsNulFree ss) (hset : getChildProcessorCommands ss = some cmdsSet)
    (cmd : List Char) : cmd ∈ cmdsSet ↔ IsChildCommand ss cmd := by
  obtain ⟨configured, hconfigured, rfl⟩ := Option.map_eq_some_iff.1 hset
  rcases configuredCommands_spec ss.spartanChildProcessorCommands with
    ⟨-, -, hnone⟩ | ⟨cmdsSet, hsome, -, hmem⟩
  · rw [hnone] at hconfigured
    cases hconfigured
  · rw [hsome] at hconfigured
    cases hconfigured
    rw [mem_foldl_insert, hmem, cstr_of_nulFree hnul.configured, IsChildCommand]
    refine or_congr Iff.rfl (exists_congr fun methDesc => and_congr_right fun hmeth => ?_)
    rw [cstr_of_nulFree (hnul.annotated methDesc hmeth)]

theorem queue_of_posted {client : Client} {args : List (List Char)} {queue : MqQueue}
    {command uds : List Char} {msg : Option (List Char)}
    (hposted : forkableMainEntry client args = .posted queue command uds msg) :
    queue = if command ∈ client.cmdsSet then .launcher else .supervisor := by
  have hpost {cmd arg : List Char} (h : client.postCommand args cmd arg =
      .posted queue command uds msg) :
      queue = if command ∈ client.cmdsSet then .launcher else .supervisor := by
    simp only [Client.postCommand] at h
    obtain ⟨rfl, rfl, -, -⟩ := ClientResult.posted.inj h
    rfl
  simp only [forkableMainEntry] at hposted
  split at hposted
  case h_5 =>
    split at hposted
    · cases hposted
    · exact hpost hposted
  case h_6 => exact hpost hposted
  all_goals cases hposted

/-- The receivers find the command in the message. -/
theorem routingAgrees_of_posted {client : Client} {args : List (List Char)} {queue : MqQueue}
    {command uds : List Char} {msg : Option (List Char)} {a : List Char}
    (hargs : ∀ a ∈ args, PlainArg a)
    (hposted : forkableMainEntry client args = .posted queue command uds msg)
    (hspace : ' ' ∉ uds) (hhead : (removePipeOption args).head? = some a)
    (hword : isCommandWord a = true) : RoutingAgrees queue command msg := by
  obtain ⟨⟨w, hw, rfl⟩, huds, rfl⟩ := posted_spec hargs hposted
  obtain ⟨hext, hextPipe⟩ := plainArg_extendedInvokeOption client
  obtain ⟨rest, hrest⟩ : ∃ rest, removePipeOption args = a :: rest := by
    cases hargs' : removePipeOption args with
    | nil =>
      rw [hargs'] at hhead
      cases hhead
    | cons b rest =>
      rw [hargs'] at hhead
      cases hhead
      exact ⟨rest, rfl⟩
  have hsub : ∀ b ∈ removePipeOption args, PlainArg b := fun b hb =>
    hargs b (List.mem_of_mem_eraseP hb)
  rw [hrest, List.forall_mem_cons] at hsub
  have hnul : ∀ r ∈ rest, '\x00' ∉ r := fun r hr => (hsub.2 r hr).nulFree
  by_cases hpipe : isPipeOption uds = true
  · exact (routingAgrees_iff_of_name_removed hargs hw hext hextPipe huds hpipe hrest hsub.1
      hnul).2 hword
  · exact (routingAgrees_iff_of_name_kept hw hext hextPipe huds hspace hpipe hrest hsub.1
      hnul).2 hword

theorem invokes_posted (ss : SessionState) (queue : MqQueue) (command uds m : List Char) :
    (ClientResult.posted queue command uds (some m)).invokes ss =
      if m.length ≤ msgBufSz then queue.invokes ss m else none := by
  rw [ClientResult.invokes, ClientResult.delivered, Option.bind_some, sendMqMsg]
  by_cases hfits : m.length ≤ msgBufSz
  · rw [if_pos hfits, if_pos hfits]
    rfl
  · rw [if_neg hfits, if_neg hfits]
    rfl

/-- **A command reaches its method.** -/
theorem command_reaches_method {ss : SessionState} {client : Client} {args : List (List Char)}
    {queue : MqQueue} {command uds : List Char} {msg : Option (List Char)} {a : List Char}
    (hnul : CommandsNulFree ss) (hset : getChildProcessorCommands ss = some client.cmdsSet)
    (hargs : ∀ a ∈ args, PlainArg a)
    (hposted : forkableMainEntry client args = .posted queue command uds msg)
    (hspace : ' ' ∉ uds) (hhead : (removePipeOption args).head? = some a)
    (hword : isCommandWord a = true) :
    ∃ m, msg = some m ∧
      (m.length ≤ msgBufSz → IsChildCommand ss command →
        (forkableMainEntry client args).invokes ss = some (ss.invokesInChild command)) ∧
      (m.length ≤ msgBufSz → ¬IsChildCommand ss command →
        (forkableMainEntry client args).invokes ss = some (ss.invokesInSupervisor command)) ∧
      (msgBufSz < m.length → (forkableMainEntry client args).invokes ss = none) := by
  obtain ⟨m, name, rfl, -, hname, hcommand⟩ :=
    routingAgrees_of_posted hargs hposted hspace hhead hword
  have hqueue := queue_of_posted hposted
  rw [hposted, invokes_posted]
  refine ⟨m, rfl, ?_, ?_, ?_⟩
  · intro hfits hchild
    rw [if_pos ((mem_cmdsSet_iff hnul hset command).2 hchild)] at hqueue
    subst hqueue
    rw [if_pos hfits]
    exact launcherInvokes_eq hname hcommand
  · intro hfits hchild
    rw [if_neg fun h => hchild ((mem_cmdsSet_iff hnul hset command).1 h)] at hqueue
    subst hqueue
    rw [if_pos hfits]
    simp only [receivedCommand] at hname
    split at hname
    case h_1 hcall =>
      subst hname
      exact supervisorInvokes_eq hcall hcommand
    case h_2 => cases hname
  · intro hlong
    exact if_neg (not_le.2 hlong)

/-- An annotated command of child processes, in another case. -/
theorem command_reaches_method_annotated :
    let methDesc : MethodDescriptorCmd :=
      { fullMethodName := "App/hello".toList, command := "Hello".toList,
        jvmOptionsCommandLine := "-Xmx64m".toList }
    let ss : SessionState := { spSpartanChildProcessorCommands := some [methDesc] }
    let client : Client :=
      ⟨false, ["hello".toList], "app".toList, by decide, ⟨7, by decide, by decide⟩, 3⟩
    (forkableMainEntry client ["HELLO".toList]).invokes ss =
      some (.inChildProcess methDesc.toMethodDescriptor "-Xmx64m".toList) := by
  intro methDesc ss client
  have hnul : CommandsNulFree ss := ⟨by decide, by decide⟩
  have hset : getChildProcessorCommands ss = some client.cmdsSet := by decide +kernel
  have hposted : forkableMainEntry client ["HELLO".toList] = .posted .launcher "hello".toList
      "/tmp/app_JLauncher_UDS_7_3".toList
      (some "\"--EXTENDED_INVOKE=false\" \"/tmp/app_JLauncher_UDS_7_3\" \"HELLO\"".toList) := by
    decide +kernel
  have hchild : IsChildCommand ss "hello".toList :=
    .inr ⟨methDesc, List.mem_singleton_self _, by decide⟩
  obtain ⟨m, hm, hinvokes, -⟩ :=
    command_reaches_method hnul hset (by decide) hposted (by decide) rfl (by decide)
  cases hm
  exact (hinvokes (by decide) hchild).trans (by decide +kernel)

end Spartan
