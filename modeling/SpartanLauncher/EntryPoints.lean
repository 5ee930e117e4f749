import SpartanLauncher.AnnotationScan
import SpartanLauncher.SessionState

/-!
# The entry points of the session state

The constructor of `sessionState` takes the entry points from the configuration, or makes them up
from the class of the main entry point. `CmdDispatchInfoProcessor` adds what the scan for
annotations has found; when the main entry point is among that, the other entry points move to
its class.

* `sessionState`: the constructor.
* `processInitialCmdDispatchInfo`: the processor.
* `Session`: a session state that both of them have built.
-/

namespace Spartan

open CString

/-! ## The constructor -/

namespace WhichMethod

def main : WhichMethod := ⟨1⟩
def getStatus : WhichMethod := ⟨2⟩
def supervisorShutdown : WhichMethod := ⟨3⟩
def childNotify : WhichMethod := ⟨4⟩
def childCompletionNotify : WhichMethod := ⟨5⟩
def supervisorDoCmd : WhichMethod := ⟨6⟩
def childDoCmd : WhichMethod := ⟨7⟩
def getCmdDispatchInfo : WhichMethod := ⟨8⟩

end WhichMethod

def mainDescriptor : List Char := "([Ljava/lang/String;)V".toList
def getStatusDescriptor : List Char := "(Ljava/io/PrintStream;)V".toList
def supervisorShutdownDescriptor : List Char := "()V".toList
def childNotifyDescriptor : List Char := "(ILjava/lang/String;)V".toList
def childCompletionNotifyDescriptor : List Char := "(I)V".toList
def stdInvokeDescriptor : List Char := "([Ljava/lang/String;Ljava/io/PrintStream;)V".toList
def reactInvokeDescriptor : List Char :=
  "([Ljava/lang/String;Ljava/io/PrintStream;Ljava/io/PrintStream;Ljava/io/InputStream;)V".toList

/-- One call of the handler by the parser of the configuration file. -/
structure ConfigEntry where
  sectionName : List Char
  name : List Char
  value : List Char
  deriving DecidableEq

/-- `std::replace(s.begin(), s.end(), '.', '/')`. -/
def replaceDots (s : List Char) : List Char := s.map fun c => if c = '.' then '/' else c

/-- The settings of entry points: an empty value leaves the entry point as it is. -/
def setEntryPoint (md : MethodDescriptor) (value suffix descriptor : List Char)
    (isStatic : Bool) (which : WhichMethod) : MethodDescriptor :=
  if value.isEmpty then md else ⟨isStatic, which, replaceDots value ++ suffix, descriptor⟩

/-- `std::stoi`; `none` stands for its two exceptions. -/
def stoi (s : List Char) : Option ℤ :=
  let (sign, digits) := match s.dropWhile isSpace with
    | '-' :: ds => ((-1 : ℤ), ds)
    | '+' :: ds => (1, ds)
    | ds => (1, ds)
  if (digits.takeWhile Char.isDigit).isEmpty then none
  else if -2 ^ 31 ≤ sign * scanNat digits ∧ sign * scanNat digits < 2 ^ 31 then
    some (sign * scanNat digits)
  else none

/-- The lambda that handles an entry of the configuration. The options of the JVM and the level of
the logger are not part of the session state. -/
def SessionState.handleEntry (ss : SessionState) (entry : ConfigEntry) : SessionState :=
  let name := entry.name
  let value := entry.value
  if strcasecmpEq entry.sectionName "JvmSettings".toList then ss
  else if strcasecmpEq entry.sectionName "SupervisorProcessSettings".toList then
    if strcasecmpEq name "MainEntryPoint".toList then
      { ss with
        spartanMainEntryPoint :=
          setEntryPoint ss.spartanMainEntryPoint value "/main".toList mainDescriptor true
            WhichMethod.main }
    else if strcasecmpEq name "GetStatusEntryPoint".toList then
      { ss with
        spartanGetStatusEntryPoint :=
          setEntryPoint ss.spartanGetStatusEntryPoint value [] getStatusDescriptor false
            WhichMethod.getStatus }
    else if strcasecmpEq name "SupervisorShutdownEntryPoint".toList then
      { ss with
        spartanSupervisorShutdownEntryPoint :=
          setEntryPoint ss.spartanSupervisorShutdownEntryPoint value []
            supervisorShutdownDescriptor false WhichMethod.supervisorShutdown }
    else if strcasecmpEq name "ChildNotifyEntryPoint".toList then
      { ss with
        spartanChildNotifyEntryPoint :=
          setEntryPoint ss.spartanChildNotifyEntryPoint value [] childNotifyDescriptor false
            WhichMethod.childNotify }
    else if strcasecmpEq name "ChildCompletionNotifyEntryPoint".toList then
      { ss with
        spartanChildCompletionNotifyEntryPoint :=
          setEntryPoint ss.spartanChildCompletionNotifyEntryPoint value []
            childCompletionNotifyDescriptor false WhichMethod.childCompletionNotify }
    else if strcasecmpEq name "SupervisorEntryPoint".toList then
      -- the test is on the local string, which is still empty
      { ss with
        spartanSupervisorEntryPoint :=
          setEntryPoint ss.spartanSupervisorEntryPoint [] [] stdInvokeDescriptor false
            WhichMethod.supervisorDoCmd }
    else ss
  else if strcasecmpEq entry.sectionName "ChildProcessSettings".toList then
    if strcasecmpEq name "ChildProcessMaxCount".toList then
      { ss with childProcessMaxCount := ((stoi value).map Int16.ofInt).getD 40 }
    else if strcasecmpEq name "ChildProcessorEntryPoint".toList then
      { ss with
        spartanChildProcessorEntryPoint :=
          setEntryPoint ss.spartanChildProcessorEntryPoint value [] stdInvokeDescriptor true
            WhichMethod.childDoCmd }
    else if strcasecmpEq name "ChildProcessorCommands".toList then
      { ss with spartanChildProcessorCommands := value }
    else ss
  else if strcasecmpEq entry.sectionName "LoggingSettings".toList then
    if strcasecmpEq name "LoggingLevel".toList then { ss with spartanLoggingLevel := value }
    else ss
  else ss

/-- Cut a name at its last `/`. `none` when there is no `/`, or nothing behind it. -/
def splitMethodName (fullMethodName : List Char) : Option (List Char × List Char) :=
  match fullMethodName.reverse.dropWhile (· ≠ '/') with
  | [] => none
  | _ :: className =>
    let methodName := (fullMethodName.reverse.takeWhile (· ≠ '/')).reverse
    if methodName.isEmpty then none else some (className.reverse, methodName)

inductive InitializationError where
  /-- `"%s" missing required setting "%s"`. -/
  | missingSetting (item : List Char)
  /-- No main() entry method defined in either config.ini or via @SupervisorMain annotation. -/
  | noMainEntryPoint
  deriving DecidableEq

/-- An entry point that is not configured is a method of the class of the main entry point. -/
def defaultEntryPoint (md : MethodDescriptor) (className name descriptor : List Char)
    (isStatic : Bool) (which : WhichMethod) : MethodDescriptor :=
  if md.fullMethodName.isEmpty then ⟨isStatic, which, className ++ '/' :: name, descriptor⟩ else md

/-- The class that the entry points are methods of when they are not configured. -/
def SessionState.className (ss : SessionState) : List Char :=
  let className := ((splitMethodName ss.spartanMainEntryPoint.fullMethodName).map Prod.fst).getD []
  if className.isEmpty then "spartan/SpartanBase".toList else replaceDots className

/-- The check for required entry points. -/
def SessionState.addDefaults (ss : SessionState) : SessionState :=
  let fill (md : MethodDescriptor) (name : String) (descriptor : List Char) (which : WhichMethod) :
      MethodDescriptor := defaultEntryPoint md ss.className name.toList descriptor false which
  { ss with
    spartanGetStatusEntryPoint :=
      fill ss.spartanGetStatusEntryPoint "status" getStatusDescriptor WhichMethod.getStatus
    spartanSupervisorShutdownEntryPoint :=
      fill ss.spartanSupervisorShutdownEntryPoint "supervisorShutdown"
        supervisorShutdownDescriptor WhichMethod.supervisorShutdown
    spartanChildNotifyEntryPoint :=
      fill ss.spartanChildNotifyEntryPoint "childProcessNotify" childNotifyDescriptor
        WhichMethod.childNotify
    spartanChildCompletionNotifyEntryPoint :=
      fill ss.spartanChildCompletionNotifyEntryPoint "childProcessCompletionNotify"
        childCompletionNotifyDescriptor WhichMethod.childCompletionNotify
    spartanSupervisorEntryPoint :=
      fill ss.spartanSupervisorEntryPoint "supervisorDoCommand" stdInvokeDescriptor
        WhichMethod.supervisorDoCmd }

/-- The constructor of `sessionState`, on the entries of the configuration file. -/
def sessionState (jvmlibPath : List Char) (entries : List ConfigEntry) :
    Except InitializationError SessionState :=
  let ss := (entries.foldl SessionState.handleEntry { jvmlibPath }).addDefaults
  if !ss.spartanChildProcessorEntryPoint.fullMethodName.isEmpty &&
      ss.spartanChildProcessorCommands.isEmpty then
    .error (.missingSetting "ChildProcessorCommands".toList)
  else
    .ok { ss with
      spartanChildProcessorEntryPoint :=
        defaultEntryPoint ss.spartanChildProcessorEntryPoint ss.className
        "childWorkerDoCommand".toList stdInvokeDescriptor true WhichMethod.childDoCmd }

/-! ## The processor -/

/-- What the processor takes from `CommandDispatchInfo`, with the system properties. -/
structure CommandDispatchInfo where
  sysProps : List (List Char)
  systemClassPath : List (List Char)
  spartanMainEntryPoint : Option MethInfo
  spartanSupervisorCommands : List CmdInfo
  spartanChildWorkerCommands : List ChildCmdInfo
  deriving DecidableEq

/-- The local variables of `str_split`. -/
structure SplitState where
  buf : List Char := []
  v : List (List Char) := []
  added : ℕ := 0
  atLimit : Bool := false
  deriving DecidableEq

/-- One iteration of the loop of `str_split`. -/
def SplitState.next (c : Char) (limit : ℕ) (s : SplitState) (n : Char) : SplitState :=
  if n ≠ c then { s with buf := s.buf ++ [n] }
  else if s.buf.isEmpty then s
  else
    let added := if limit = 0 then s.added else s.added + 1
    let s := if limit ≠ 0 ∧ limit ≤ added then
        { s with buf := s.buf ++ [n], added, atLimit := true }
      else { s with added }
    if s.atLimit then s else { s with buf := [], v := s.v ++ [s.buf] }

/-- `str_split`; a limit of zero is none. -/
def strSplit (s : List Char) (c : Char) (limit : ℕ) : List (List Char) :=
  let s := s.foldl (SplitState.next c limit) {}
  if s.buf.isEmpty then s.v else s.v ++ [s.buf]

/-- `extract_method_info`: the full name of the method. -/
def MethInfo.fullMethodName (info : MethInfo) : List Char :=
  replaceDots info.className ++ '/' :: info.methodName

/-- `extract_method_jvm_optns_cmd_info`. -/
def ChildCmdInfo.jvmOptions (info : ChildCmdInfo) : List Char :=
  info.jvmArgs.foldl (fun optns arg => (if optns.isEmpty then optns else optns ++ [' ']) ++ arg) []

/-- The class of the main entry point with the `/` behind it. -/
def entryPointsClass (mainEntryPoint : List Char) : List Char :=
  match splitMethodName mainEntryPoint with
  | some (className, _) => className ++ ['/']
  | none => "spartan/SpartanBase/".toList

/-- An entry point whose name does not begin with the class keeps the last part of its name. -/
def adjustEntryPoint (entryPointsClass : List Char) (md : MethodDescriptor) : MethodDescriptor :=
  if strncasecmpEq md.fullMethodName entryPointsClass entryPointsClass.length then md
  else
    match (strSplit md.fullMethodName '/' 0).getLast? with
    | some last => { md with fullMethodName := entryPointsClass ++ last }
    | none => md

/-- `extract_main_entry_method_info`. -/
def SessionState.extractMainEntryMethodInfo (ss : SessionState) (info : CommandDispatchInfo) :
    Except InitializationError SessionState :=
  match info.spartanMainEntryPoint with
  | none => .error .noMainEntryPoint
  | some main =>
    let adjust := adjustEntryPoint (entryPointsClass main.fullMethodName)
    .ok { ss with
      spartanMainEntryPoint := ⟨true, WhichMethod.main, main.fullMethodName, main.descriptor⟩
      spartanGetStatusEntryPoint := adjust ss.spartanGetStatusEntryPoint
      spartanSupervisorShutdownEntryPoint := adjust ss.spartanSupervisorShutdownEntryPoint
      spartanChildNotifyEntryPoint := adjust ss.spartanChildNotifyEntryPoint
      spartanChildCompletionNotifyEntryPoint := adjust ss.spartanChildCompletionNotifyEntryPoint
      spartanSupervisorEntryPoint := adjust ss.spartanSupervisorEntryPoint }

def CmdInfo.methodDescriptorCmd (info : CmdInfo) : MethodDescriptorCmd where
  isStaticMethod := false
  whichMethod := WhichMethod.supervisorDoCmd
  fullMethodName := info.fullMethodName
  descriptor := info.descriptor
  command := info.cmd

def ChildCmdInfo.methodDescriptorCmd (info : ChildCmdInfo) : MethodDescriptorCmd where
  isStaticMethod := true
  whichMethod := WhichMethod.childDoCmd
  fullMethodName := info.fullMethodName
  descriptor := info.descriptor
  command := info.cmd
  jvmOptionsCommandLine := info.jvmOptions

/-- A vector is replaced only when there are elements to put into it. -/
def replaceVec {T : Type} (vec : Option (List T)) (elems : List T) : Option (List T) :=
  if elems.isEmpty then vec else some elems

/-- `apply_cmd_dsp_info_to_session_state`. -/
def SessionState.applyCmdDspInfo (ss : SessionState) (info : CommandDispatchInfo) :
    Except InitializationError SessionState := do
  let ss := { ss with
    spSerializedSystemProperties := replaceVec ss.spSerializedSystemProperties info.sysProps
    systemClassPath := info.systemClassPath.foldl
      (fun path str => (if path.isEmpty then path else path ++ [':']) ++ str) [] }
  let ss ← if ss.spartanMainEntryPoint.fullMethodName.isEmpty then
      ss.extractMainEntryMethodInfo info
    else .ok ss
  return { ss with
    spSpartanSupervisorCommands := replaceVec ss.spSpartanSupervisorCommands
      (info.spartanSupervisorCommands.map CmdInfo.methodDescriptorCmd)
    spSpartanChildProcessorCommands := replaceVec ss.spSpartanChildProcessorCommands
      (info.spartanChildWorkerCommands.map ChildCmdInfo.methodDescriptorCmd) }

/-- `process_initial_cmd_dispatch_info`, up to the shared memory. -/
def SessionState.processInitialCmdDispatchInfo (ss : SessionState) (info : CommandDispatchInfo) :
    Except InitializationError SessionState := do
  let mainEntryPointSave := ss.spartanMainEntryPoint
  let ss ← ss.applyCmdDspInfo info
  return if mainEntryPointSave.fullMethodName.isEmpty then ss
    else { ss with spartanMainEntryPoint := mainEntryPointSave }

/-- The five instance entry points and the supervisor commands. -/
def SessionState.instanceDescriptors (ss : SessionState) : List MethodDescriptor :=
  [ss.spartanGetStatusEntryPoint, ss.spartanSupervisorShutdownEntryPoint,
    ss.spartanChildNotifyEntryPoint, ss.spartanChildCompletionNotifyEntryPoint,
    ss.spartanSupervisorEntryPoint] ++
  (ss.spSpartanSupervisorCommands.getD []).map MethodDescriptorCmd.toMethodDescriptor

/-- A session state as the supervisor builds it. -/
structure Session where
  jvmlibPath : List Char
  entries : List ConfigEntry
  info : CommandDispatchInfo
  state : SessionState
  built : (sessionState jvmlibPath entries).bind
    (·.processInitialCmdDispatchInfo info) = .ok state

/-! ## Instance methods -/

/-- A property of the five instance entry points. -/
structure InstanceEntryPoints (p : MethodDescriptor → Prop) (ss : SessionState) : Prop where
  getStatus : p ss.spartanGetStatusEntryPoint
  supervisorShutdown : p ss.spartanSupervisorShutdownEntryPoint
  childNotify : p ss.spartanChildNotifyEntryPoint
  childCompletionNotify : p ss.spartanChildCompletionNotifyEntryPoint
  supervisor : p ss.spartanSupervisorEntryPoint

/-- An entry point that is not filled in yet, or is not static. -/
def IsOpenOrInstance (md : MethodDescriptor) : Prop :=
  md.fullMethodName = [] ∨ md.isStaticMethod = false

theorem isOpenOrInstance_setEntryPoint {md : MethodDescriptor} (h : IsOpenOrInstance md)
    (value suffix descriptor : List Char) (which : WhichMethod) :
    IsOpenOrInstance (setEntryPoint md value suffix descriptor false which) := by
  unfold setEntryPoint
  split_ifs
  · exact h
  · exact .inr rfl

/-- What the entries of the configuration keep: the entry points are open or instance methods, and
there are no commands. -/
def Configured (ss : SessionState) : Prop :=
  InstanceEntryPoints IsOpenOrInstance ss ∧ ss.spSpartanSupervisorCommands = none

/-- An entry of the configuration sets one of the entry points at most. -/
theorem configured_handleEntry {ss : SessionState} (h : Configured ss) (entry : ConfigEntry) :
    Configured (ss.handleEntry entry) := by
  obtain ⟨⟨h₁, h₂, h₃, h₄, h₅⟩, hcmds⟩ := h
  have hset : ∀ {md : MethodDescriptor}, IsOpenOrInstance md → ∀ value suffix descriptor which,
      IsOpenOrInstance (setEntryPoint md value suffix descriptor false which) :=
    fun hmd => isOpenOrInstance_setEntryPoint hmd
  unfold SessionState.handleEntry
  simp only
  split_ifs
  all_goals
    refine ⟨?_, hcmds⟩
    first
    | exact ⟨h₁, h₂, h₃, h₄, h₅⟩
    | exact ⟨hset h₁ _ _ _ _, h₂, h₃, h₄, h₅⟩
    | exact ⟨h₁, hset h₂ _ _ _ _, h₃, h₄, h₅⟩
    | exact ⟨h₁, h₂, hset h₃ _ _ _ _, h₄, h₅⟩
    | exact ⟨h₁, h₂, h₃, hset h₄ _ _ _ _, h₅⟩

theorem configured_foldl {ss : SessionState} (h : Configured ss) (entries : List ConfigEntry) :
    Configured (entries.foldl SessionState.handleEntry ss) := by
  induction entries generalizing ss with
  | nil => exact h
  | cons entry entries ih => exact ih (configured_handleEntry h entry)

theorem isStatic_defaultEntryPoint {md : MethodDescriptor} (h : IsOpenOrInstance md)
    (className name descriptor : List Char) (which : WhichMethod) :
    (defaultEntryPoint md className name descriptor false which).isStaticMethod = false := by
  unfold defaultEntryPoint
  split_ifs with hempty
  · rfl
  · exact h.resolve_left (by simpa using hempty)

theorem isStatic_adjustEntryPoint (entryPointsClass : List Char) (md : MethodDescriptor) :
    (adjustEntryPoint entryPointsClass md).isStaticMethod = md.isStaticMethod := by
  unfold adjustEntryPoint
  split_ifs
  · rfl
  · split <;> rfl

/-- The constructor leaves instance methods. -/
theorem isStatic_sessionState {jvmlibPath : List Char} {entries : List ConfigEntry}
    {ss : SessionState} (h : sessionState jvmlibPath entries = .ok ss) :
    InstanceEntryPoints (·.isStaticMethod = false) ss ∧ ss.spSpartanSupervisorCommands = none := by
  obtain ⟨hfold, hcmds⟩ := @configured_foldl { jvmlibPath }
    ⟨⟨.inl rfl, .inl rfl, .inl rfl, .inl rfl, .inl rfl⟩, rfl⟩ entries
  unfold sessionState at h
  simp only at h
  split_ifs at h
  cases h
  refine ⟨⟨?_, ?_, ?_, ?_, ?_⟩, hcmds⟩
  · exact isStatic_defaultEntryPoint hfold.getStatus _ _ _ _
  · exact isStatic_defaultEntryPoint hfold.supervisorShutdown _ _ _ _
  · exact isStatic_defaultEntryPoint hfold.childNotify _ _ _ _
  · exact isStatic_defaultEntryPoint hfold.childCompletionNotify _ _ _ _
  · exact isStatic_defaultEntryPoint hfold.supervisor _ _ _ _

theorem bind_eq_ok {ε α β : Type} {x : Except ε α} {f : α → Except ε β} {b : β}
    (h : x >>= f = .ok b) : ∃ a, x = .ok a ∧ f a = .ok b := by
  cases x with
  | error e => cases h
  | ok a => exact ⟨a, rfl, h⟩

/-- Extracting the main entry point keeps them. -/
theorem isStatic_extractMain {ss ss' : SessionState} {info : CommandDispatchInfo}
    (hss : InstanceEntryPoints (·.isStaticMethod = false) ss)
    (h : ss.extractMainEntryMethodInfo info = .ok ss') :
    InstanceEntryPoints (·.isStaticMethod = false) ss' ∧
      ss'.spSpartanSupervisorCommands = ss.spSpartanSupervisorCommands := by
  unfold SessionState.extractMainEntryMethodInfo at h
  split at h
  · cases h
  · cases h
    refine ⟨⟨?_, ?_, ?_, ?_, ?_⟩, rfl⟩
    · exact (isStatic_adjustEntryPoint _ _).trans hss.getStatus
    · exact (isStatic_adjustEntryPoint _ _).trans hss.supervisorShutdown
    · exact (isStatic_adjustEntryPoint _ _).trans hss.childNotify
    · exact (isStatic_adjustEntryPoint _ _).trans hss.childCompletionNotify
    · exact (isStatic_adjustEntryPoint _ _).trans hss.supervisor

/-- The processor keeps them, and adds commands that are instance methods. -/
theorem isStatic_applyCmdDspInfo {ss ss' : SessionState} {info : CommandDispatchInfo}
    (hss : InstanceEntryPoints (·.isStaticMethod = false) ss)
    (hcmds : ss.spSpartanSupervisorCommands = none) (h : ss.applyCmdDspInfo info = .ok ss') :
    InstanceEntryPoints (·.isStaticMethod = false) ss' ∧
      ∀ cmd ∈ ss'.spSpartanSupervisorCommands.getD [], cmd.isStaticMethod = false := by
  have hadded : ∀ cmd ∈ (replaceVec none
      (info.spartanSupervisorCommands.map CmdInfo.methodDescriptorCmd)).getD [],
      cmd.isStaticMethod = false := by
    unfold replaceVec
    split_ifs
    · simp
    · rw [Option.getD_some, List.forall_mem_map]
      intro info _
      rfl
  unfold SessionState.applyCmdDspInfo at h
  simp only at h
  split_ifs at h
  · obtain ⟨ss₁, hextract, h⟩ := bind_eq_ok h
    obtain ⟨hss₁, hcmds₁⟩ := isStatic_extractMain
      (by exact ⟨hss.1, hss.2, hss.3, hss.4, hss.5⟩) hextract
    rw [hcmds] at hcmds₁
    cases h
    exact ⟨⟨hss₁.1, hss₁.2, hss₁.3, hss₁.4, hss₁.5⟩, by rw [hcmds₁]; exact hadded⟩
  · cases h
    exact ⟨⟨hss.1, hss.2, hss.3, hss.4, hss.5⟩, by rw [hcmds]; exact hadded⟩

theorem isStatic_processInitial {ss ss' : SessionState} {info : CommandDispatchInfo}
    (hss : InstanceEntryPoints (·.isStaticMethod = false) ss)
    (hcmds : ss.spSpartanSupervisorCommands = none)
    (h : ss.processInitialCmdDispatchInfo info = .ok ss') :
    ∀ md ∈ ss'.instanceDescriptors, md.isStaticMethod = false := by
  obtain ⟨ss₁, happly, h⟩ := bind_eq_ok h
  obtain ⟨⟨h₁, h₂, h₃, h₄, h₅⟩, hadded⟩ := isStatic_applyCmdDspInfo hss hcmds happly
  have hall : ∀ md ∈ ss₁.instanceDescriptors, md.isStaticMethod = false := by
    unfold SessionState.instanceDescriptors
    simp only [List.forall_mem_append, List.forall_mem_cons, List.forall_mem_map]
    exact ⟨⟨h₁, h₂, h₃, h₄, h₅, by simp⟩, hadded⟩
  cases h
  split_ifs
  · exact hall
  · exact hall

/-- **The descriptors of instance methods** are not static. -/
theorem Session.isStatic_instanceDescriptors (session : Session) :
    ∀ md ∈ session.state.instanceDescriptors, md.isStaticMethod = false := by
  have hbuilt := session.built
  cases hss : sessionState session.jvmlibPath session.entries with
  | error e =>
    rw [hss] at hbuilt
    cases hbuilt
  | ok ss =>
    rw [hss] at hbuilt
    obtain ⟨hstatic, hcmds⟩ := isStatic_sessionState hss
    exact isStatic_processInitial hstatic hcmds hbuilt

end Spartan
