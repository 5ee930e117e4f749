import SpartanLauncher.Lib.Quoting
import SpartanLauncher.SendMqMsg

/-!
# Transport of a command line

The sender puts each string of the command line in double quotes; the receiver splits the message
with `poptParseArgvString`, drops the extended-invoke option and the name of the socket, and hands
the rest to the Java method.

**Theorem (`commandLine_round_trip_iff`).** The message never overruns its buffer, and the
receiver gets the strings that were sent exactly when none of them contains a double quote or ends
in an odd number of backslashes.
-/

namespace Spartan

open CString Quoting

/-! ## The receiver -/

/-- `parse_cmd_line`, with `popt` for `poptParseArgvString`. -/
def parseCmdLine (popt : List Char → Option (List (List Char))) (cmdLine : List Char) :
    Option (List (List Char)) := popt cmdLine

/-- `parse_extended_invoke_option`. `none` when there is no text behind the `=`, which the code
passes to `strcmp` as a null pointer. -/
def parseExtendedInvokeOption (extendedInvoke : List Char) : Option Bool :=
  if strncmpEq extendedInvoke extendedInvokeCmd extendedInvokeCmd.length then
    (strtok '=' extendedInvoke).bind fun (_, save) =>
    (strtok '=' save).map fun (val, _) => val == "true".toList
  else some false

/-- What `invoke_java_method` is called with. -/
structure Invocation where
  /-- Three streams instead of one. -/
  isExtendedInvoke : Bool
  udsSocketName : List Char
  argv : List (List Char)
  deriving DecidableEq

inductive InvokeError where
  | parse
  | insufficientArguments
  | nullOption
  deriving DecidableEq

/-- `core_invoke_command`; `isReact` tells whether the method has the descriptor for three
streams. -/
def coreInvokeCommand (popt : List Char → Option (List (List Char))) (isReact : Bool)
    (msg : List Char) : Except InvokeError Invocation :=
  match parseCmdLine popt msg with
  | none => .error .parse
  | some (extdInvokeCmd :: udsSocketName :: arg :: args) =>
    match parseExtendedInvokeOption extdInvokeCmd with
    | none => .error .nullOption
    | some isExtended =>
      .ok ⟨isExtended || isReact, udsSocketName, udsSocketName :: arg :: args⟩
  | some _ => .error .insufficientArguments

/-- The `String[]` that `invoke_java_method` builds: all but the first of its strings. -/
def javaArgs (argv : List (List Char)) : List (List Char) := argv.drop 1

/-! ## Round trip -/

/-- The message is built, and the receiver gets the strings that were sent: the parser yields
all of them, and the Java method the arguments, if there are any and the option can be read. -/
structure RoundTrips (popt : List Char → Option (List (List Char))) (extendedInvoke uds : List Char)
    (args : List (List Char)) (msg : List Char) : Prop where
  sent : sendFlattenedArgvMqMsg args extendedInvoke uds = some msg
  parsed : parseCmdLine popt msg = some (extendedInvoke :: uds :: args)
  java : ∀ isReact isExtended, args ≠ [] →
    parseExtendedInvokeOption extendedInvoke = some isExtended →
    ∃ invocation, coreInvokeCommand popt isReact msg = .ok invocation ∧
      invocation.isExtendedInvoke = (isExtended || isReact) ∧
      invocation.udsSocketName = uds ∧ javaArgs invocation.argv = args

variable {popt : List Char → Option (List (List Char))} {extendedInvoke uds msg : List Char}
  {args : List (List Char)}

theorem quoted_length (s : List Char) : quoted s.length s = inQuotes s := by
  rw [quoted, inQuotes, strncpy_length]

/-- Without empty strings and options to filter, the message is all strings in quotes. -/
theorem sendFlattenedArgvMqMsg_joined (hne : ∀ s ∈ extendedInvoke :: uds :: args, s ≠ [])
    (hpipe : ∀ s ∈ extendedInvoke :: uds :: args, isPipeOption s = false) :
    sendFlattenedArgvMqMsg args extendedInvoke uds =
      some (joined (extendedInvoke :: uds :: args)) := by
  have hfilter : removePipeOption (extendedInvoke :: uds :: args) =
      extendedInvoke :: uds :: args :=
    List.eraseP_of_forall_not fun s hs => by simp [hpipe s hs]
  have hcopied : copied ((extendedInvoke :: uds :: args).map fun s => (s.length, s)) =
      (extendedInvoke :: uds :: args).map inQuotes := by
    have hall : ((extendedInvoke :: uds :: args).map fun s => (s.length, s)).filter
        (fun e => decide (e.1 ≠ 0)) = (extendedInvoke :: uds :: args).map fun s => (s.length, s) :=
      List.filter_eq_self.2 fun e he => by
        obtain ⟨s, hs, rfl⟩ := List.mem_map.1 he
        simpa using hne s hs
    rw [copied, hall, List.map_map]
    exact List.map_congr_left fun s _ => quoted_length s
  rw [sendFlattenedArgvMqMsg_eq (hne _ List.mem_cons_self) hfilter]
  exact congrArg (fun blocks => some ([' '].intercalate blocks)) hcopied

/-- What the parser yields is what the Java method gets. -/
theorem coreInvokeCommand_of_parsed
    (hparsed : parseCmdLine popt msg = some (extendedInvoke :: uds :: args)) {isReact : Bool}
    {isExtended : Bool} (hargs : args ≠ [])
    (hoption : parseExtendedInvokeOption extendedInvoke = some isExtended) :
    ∃ invocation, coreInvokeCommand popt isReact msg = .ok invocation ∧
      invocation.isExtendedInvoke = (isExtended || isReact) ∧
      invocation.udsSocketName = uds ∧ javaArgs invocation.argv = args := by
  obtain ⟨arg, args', rfl⟩ := List.exists_cons_of_ne_nil hargs
  refine ⟨⟨isExtended || isReact, uds, uds :: arg :: args'⟩, ?_, rfl, rfl, rfl⟩
  simp only [coreInvokeCommand, hparsed, hoption]

/-- **Round trip of the command line.** -/
theorem commandLine_round_trip_iff (popt : List Char → Option (List (List Char)))
    (hpopt : Splits popt) (extendedInvoke uds : List Char) (args : List (List Char))
    (hne : ∀ s ∈ extendedInvoke :: uds :: args, s ≠ [])
    (hpipe : ∀ s ∈ extendedInvoke :: uds :: args, isPipeOption s = false) :
    (∃ msg, RoundTrips popt extendedInvoke uds args msg) ↔
      ∀ s ∈ extendedInvoke :: uds :: args, '"' ∉ s ∧ endsInBackslash s = false := by
  have hsent := sendFlattenedArgvMqMsg_joined hne hpipe
  have hiff := splits_joined_iff hpopt (List.cons_ne_nil extendedInvoke (uds :: args)) hne
  refine Iff.trans ⟨?_, ?_⟩ hiff
  · intro hround
    obtain ⟨msg, hsent', hparsed, -⟩ := hround
    cases hsent.symm.trans hsent'
    exact hparsed
  · intro hparsed
    exact ⟨_, hsent, hparsed, fun _ _ => coreInvokeCommand_of_parsed hparsed⟩

/-- Spaces, single quotes and backslashes inside of an argument survive. -/
theorem commandLine_round_trip_spaces :
    ∃ msg, RoundTrips parseArgv "--EXTENDED_INVOKE=false".toList "/tmp/uds".toList
      ["etl".toList, "C:\\my dir\\\\".toList, "it's".toList] msg :=
  (commandLine_round_trip_iff parseArgv parseArgv_splits _ _ _ (by decide) (by decide)).2
    (by decide)

/-- An argument that ends in a backslash takes the quote behind it, and the rest of the command
line with it. -/
theorem commandLine_not_round_trip :
    ∃ ext uds : List Char, ∃ args : List (List Char),
      (∀ s ∈ ext :: uds :: args, s ≠ []) ∧ (∀ s ∈ ext :: uds :: args, isPipeOption s = false) ∧
      ¬ ∃ msg, RoundTrips parseArgv ext uds args msg := by
  refine ⟨"--EXTENDED_INVOKE=false".toList, "/tmp/uds".toList,
    ["etl".toList, "C:\\dir\\".toList, "x".toList], by decide, by decide, ?_⟩
  intro hround
  obtain ⟨msg, hsent, hparsed, -⟩ := hround
  have hmsg : sendFlattenedArgvMqMsg ["etl".toList, "C:\\dir\\".toList, "x".toList]
      "--EXTENDED_INVOKE=false".toList "/tmp/uds".toList =
      some "\"--EXTENDED_INVOKE=false\" \"/tmp/uds\" \"etl\" \"C:\\dir\\\" \"x\"".toList := by
    decide +kernel
  cases hmsg.symm.trans hsent
  revert hparsed
  decide +kernel

end Spartan
