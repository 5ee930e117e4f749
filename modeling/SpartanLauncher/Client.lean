import SpartanLauncher.SendMqMsg

/-!
# The client side of a command

`forkable_main_entry` goes over the command line once to find the operation and the command,
chooses the queue by the command, and posts the whole command line. The receivers find the
command in the message on their own.

* `Selection.next`: one iteration of the loop over the arguments.
* `forkableMainEntry`: what the client does for a command line.
* `ClientResult.delivered`: what arrives at a queue, which refuses long messages.
* `receivedCommand`: the command that the receiver of a message takes it for.
-/

namespace Spartan

open CString

/-! ## Selection of the operation -/

inductive Operation where
  | none
  | service
  | invokedCommand
  | status
  | stop
  | command
  deriving DecidableEq

def srvcOptn : List Char := "service".toList
def statusCmdArg : List Char := "status".toList
def stopCmdArg : List Char := "stop".toList

structure Selection where
  operation : Operation := .none
  pipeOption : List Char := []
  command : List Char := []
  deriving DecidableEq

/-- The first recognized operation is the one that is selected; a command is still picked up
after an operation that has none. -/
def Selection.next (s : Selection) : List Char → Selection
  | '-' :: optn =>
    if strcasecmpEq optn srvcOptn then
      if s.operation = .none then { s with operation := .service } else s
    else if strncasecmpEq optn pipeOptn pipeOptn.length then
      if s.operation = .none then
        { s with operation := .invokedCommand, pipeOption := '-' :: optn }
      else s
    else s
  | optn =>
    if strcasecmpEq optn statusCmdArg then
      if s.operation = .none then { s with operation := .status, command := statusCmdArg } else s
    else if strcasecmpEq optn stopCmdArg then
      if s.operation = .none then { s with operation := .stop, command := stopCmdArg } else s
    else if s.operation = .none then { s with operation := .command, command := optn }
    else if s.command.isEmpty then { s with command := optn }
    else s

/-! ## Posting a command -/

inductive MqQueue where
  | launcher
  | supervisor
  deriving DecidableEq

/-- The process that runs `forkable_main_entry`. -/
structure Client where
  isExtendedInvoke : Bool
  /-- The commands that child processes execute, in lower case. -/
  cmdsSet : List (List Char)
  progname : List Char
  progname_nulFree : '\x00' ∉ progname
  pid : Pid
  rndNbr : ℕ

/-- `make_fifo_pipe_name`: `"%s/%s_%s_%d_%d"`. -/
def makeFifoPipeName (progname basename : List Char) (pid : Pid) (rndNbr : ℕ) : List Char :=
  snprintfGrow 256 ("/tmp".toList ++ '/' :: (progname ++ '_' :: (basename ++ '_' ::
    (printDec pid.val ++ '_' :: printDec rndNbr))))

/-- The name that `bind_uds_socket_name` binds. -/
def Client.bindUdsSocketName (client : Client) : List Char :=
  makeFifoPipeName client.progname "JLauncher_UDS".toList client.pid client.rndNbr

def Client.extendedInvokeOption (client : Client) : List Char :=
  extendedInvokeCmd ++ if client.isExtendedInvoke then "=true".toList else "=false".toList

inductive ClientResult where
  | service
  | status
  | stop
  | missingCommand
  | noOperation
  /-- A command line that goes to `send_mq_msg`; `msg` is `none` when building the message
  failed. -/
  | posted (queue : MqQueue) (command udsSocketName : List Char) (msg : Option (List Char))
  deriving DecidableEq

/-- The case `OP::COMMAND`. -/
def Client.postCommand (client : Client) (args : List (List Char))
    (command udsSocketNameArg : List Char) : ClientResult :=
  let command := command.map Char.toLower
  let udsSocketName :=
    if udsSocketNameArg.isEmpty then client.bindUdsSocketName else udsSocketNameArg
  .posted (if command ∈ client.cmdsSet then .launcher else .supervisor) command udsSocketName
    (sendFlattenedArgvMqMsg args client.extendedInvokeOption udsSocketName)

/-- `forkable_main_entry` on the arguments behind the program name. -/
def forkableMainEntry (client : Client) (args : List (List Char)) : ClientResult :=
  let selection := args.foldl Selection.next {}
  match selection.operation with
  | .none => .noOperation
  | .service => .service
  | .status => .status
  | .stop => .stop
  | .invokedCommand =>
    if selection.command.isEmpty then .missingCommand
    else
      client.postCommand args selection.command
        ((selection.pipeOption.dropWhile (· ≠ '=')).drop 1)
  | .command => client.postCommand args selection.command []

/-- What a queue gets, whatever the message that was built. -/
def ClientResult.delivered : ClientResult → Option (MqQueue × List Char)
  | .posted queue _ _ msg => (msg.bind sendMqMsg).map fun m => (queue, m)
  | _ => none

/-! ## The receivers -/

/-- The sub-command that `handle_launcher_msg`, or `handle_supervisor_msg`, takes from a
message off its queue. -/
def receivedCommand (queue : MqQueue) (msg : List Char) : Option (List Char) :=
  let msgDup := strndup msg msg.length
  match queue with
  | .launcher => subCommand msgDup
  | .supervisor =>
    match handleSupervisorMsg msgDup with
    | some (.command cmdToken) => cmdToken
    | _ => none

end Spartan
