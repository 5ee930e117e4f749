import SpartanLauncher.Lib.IStream

/-!
# The session state and its text format

`sessionState` with the operators that write it to a stream and read it back. Each record begins
with the name of its type; numbers and strings stand on lines of their own, a blank line follows
each nested record and each vector, and the system properties end with a carriage return each.

**Theorem (`SessionState.reads_streamOut`).** The reading operator takes exactly the text of the
writing operator off the stream, and gets the information of the session state back.

A C++ `char` is a `Char`. The name that the compiler gives a type is a parameter, `TypeNames`.
-/

namespace Spartan

open CString IStream

/-! ## The records -/

/-- `enum class WhichMethod : short`, of which each short number is a value. -/
structure WhichMethod where
  value : Int16
  deriving DecidableEq

def WhichMethod.none : WhichMethod := ⟨0⟩

structure MethodDescriptor where
  isStaticMethod : Bool := true
  whichMethod : WhichMethod := .none
  fullMethodName : List Char := []
  descriptor : List Char := []
  deriving DecidableEq

structure MethodDescriptorCmd extends MethodDescriptor where
  command : List Char := []
  jvmOptionsCommandLine : List Char := []
  deriving DecidableEq

/-- The information part of `sessionState`. A vector is held by a pointer, which may be null. -/
structure SessionState where
  supervisorPid : Int32 := 0
  childProcessMaxCount : Int16 := 0
  spartanMainEntryPoint : MethodDescriptor := {}
  spartanGetStatusEntryPoint : MethodDescriptor := {}
  spartanSupervisorShutdownEntryPoint : MethodDescriptor := {}
  spartanChildNotifyEntryPoint : MethodDescriptor := {}
  spartanChildCompletionNotifyEntryPoint : MethodDescriptor := {}
  spartanSupervisorEntryPoint : MethodDescriptor := {}
  spartanChildProcessorEntryPoint : MethodDescriptor := {}
  spartanChildProcessorCommands : List Char := []
  systemClassPath : List Char := []
  spSpartanSupervisorCommands : Option (List MethodDescriptorCmd) := none
  spSpartanChildProcessorCommands : Option (List MethodDescriptorCmd) := none
  spSerializedSystemProperties : Option (List (List Char)) := none
  spartanLoggingLevel : List Char := []
  jvmlibPath : List Char := []
  deriving DecidableEq

/-! ## Writing -/

/-- The types whose values are written with their name in front. -/
inductive StreamedType where
  | methodDescriptor
  | methodDescriptorCmd
  | sessionState
  | vectorOfMethodDescriptorCmd
  | vectorOfString
  deriving DecidableEq

/-- `typeid(T).name()`, an identifier that the compiler makes up. -/
structure TypeNames where
  name : StreamedType → List Char
  newline_notMem : ∀ t, '\n' ∉ name t

variable (typeid : TypeNames)

def MethodDescriptor.streamOut (self : MethodDescriptor) : List Char :=
  line (typeid.name .methodDescriptor) ++
  line (printDec self.isStaticMethod.toNat) ++
  line (printDec self.whichMethod.value.toInt) ++
  line self.fullMethodName ++
  line self.descriptor

def MethodDescriptorCmd.streamOut (self : MethodDescriptorCmd) : List Char :=
  line (typeid.name .methodDescriptorCmd) ++
  self.toMethodDescriptor.streamOut typeid ++
  line self.command ++
  line self.jvmOptionsCommandLine

/-- Write a vector of elements, each with the delimiter behind it. -/
def streamVecOut {T : Type} (vecType : StreamedType) (out : T → List Char)
    (self : Option (List T)) (delim : Char) : List Char :=
  line (typeid.name vecType) ++
  (match self with
    | some elems =>
      line (printDec elems.length) ++ (elems.map fun elem => out elem ++ [delim]).flatten
    | none => line (printDec 0)) ++
  ['\n']

def SessionState.streamOut (self : SessionState) : List Char :=
  line (typeid.name .sessionState) ++
  line (printDec self.supervisorPid.toInt) ++
  line (printDec self.childProcessMaxCount.toInt) ++
  line (self.spartanMainEntryPoint.streamOut typeid) ++
  line (self.spartanGetStatusEntryPoint.streamOut typeid) ++
  line (self.spartanSupervisorShutdownEntryPoint.streamOut typeid) ++
  line (self.spartanChildNotifyEntryPoint.streamOut typeid) ++
  line (self.spartanChildCompletionNotifyEntryPoint.streamOut typeid) ++
  line (self.spartanSupervisorEntryPoint.streamOut typeid) ++
  line (self.spartanChildProcessorEntryPoint.streamOut typeid) ++
  line self.spartanChildProcessorCommands ++
  line self.systemClassPath ++
  line (streamVecOut typeid .vectorOfMethodDescriptorCmd (·.streamOut typeid)
    self.spSpartanSupervisorCommands '\n') ++
  line (streamVecOut typeid .vectorOfMethodDescriptorCmd (·.streamOut typeid)
    self.spSpartanChildProcessorCommands '\n') ++
  line (streamVecOut typeid .vectorOfString id self.spSerializedSystemProperties '\r') ++
  line self.spartanLoggingLevel ++
  line self.jvmlibPath

/-! ## Reading -/

/-- `is >> n` for a `short`. -/
def getShort (n : Int16) : Extract Int16 := do
  return Int16.ofInt (← getInt (-2 ^ 15) (2 ^ 15 - 1) n.toInt)

/-- `is >> n` for an `int`. -/
def getInt32 (n : Int32) : Extract Int32 := do
  return Int32.ofInt (← getInt (-2 ^ 31) (2 ^ 31 - 1) n.toInt)

def MethodDescriptor.streamIn (self : MethodDescriptor) : Extract MethodDescriptor := do
  let _ ← getlineString '\n' []
  let isStaticMethod ← getBool self.isStaticMethod
  getline₁
  -- the variable that is read into has no initial value in the source
  let sint ← getShort 0
  getline₁
  let fullMethodName ← getlineString '\n' self.fullMethodName
  let descriptor ← getlineString '\n' self.descriptor
  return ⟨isStaticMethod, ⟨sint⟩, fullMethodName, descriptor⟩

def MethodDescriptorCmd.streamIn (self : MethodDescriptorCmd) : Extract MethodDescriptorCmd := do
  let _ ← getlineString '\n' []
  let md ← self.toMethodDescriptor.streamIn
  let command ← getlineString '\n' self.command
  let jvmOptionsCommandLine ← getlineString '\n' self.jvmOptionsCommandLine
  return ⟨md, command, jvmOptionsCommandLine⟩

/-- An element with one character behind it. -/
def streamInVecElm {T : Type} (streamIn : T → Extract T) (t : T) : Extract T := do
  let t ← streamIn t
  getline₁
  return t

/-- The elements one by one. What is left in `t` when an element was moved out of it is not
specified, and read over. -/
def streamInElms {T : Type} (streamInElm : T → Extract T) (t : T) : ℕ → Extract (List T)
  | 0 => return []
  | count + 1 => do
    let elem ← streamInElm t
    return elem :: (← streamInElms streamInElm t count)

def streamVecIn {T : Type} (streamInElm : T → Extract T) (t : T) (self : Option (List T)) :
    Extract (Option (List T)) := do
  let _ ← getlineString '\n' []
  let count ← getSize 0
  getline₁
  let self ← if count > 0 then some <$> streamInElms streamInElm t count else pure self
  getline₁
  return self

/-- A string up to a carriage return. -/
def streamInProperty (_ : List Char) : Extract (List Char) := getlineString '\r' []

def SessionState.streamIn (self : SessionState) : Extract SessionState := do
  let _ ← getlineString '\n' []
  let supervisorPid ← getInt32 self.supervisorPid
  getline₁
  let childProcessMaxCount ← getShort self.childProcessMaxCount
  getline₁
  let spartanMainEntryPoint ← self.spartanMainEntryPoint.streamIn
  getline₁
  let spartanGetStatusEntryPoint ← self.spartanGetStatusEntryPoint.streamIn
  getline₁
  let spartanSupervisorShutdownEntryPoint ← self.spartanSupervisorShutdownEntryPoint.streamIn
  getline₁
  let spartanChildNotifyEntryPoint ← self.spartanChildNotifyEntryPoint.streamIn
  getline₁
  let spartanChildCompletionNotifyEntryPoint ←
    self.spartanChildCompletionNotifyEntryPoint.streamIn
  getline₁
  let spartanSupervisorEntryPoint ← self.spartanSupervisorEntryPoint.streamIn
  getline₁
  let spartanChildProcessorEntryPoint ← self.spartanChildProcessorEntryPoint.streamIn
  getline₁
  let spartanChildProcessorCommands ← getlineString '\n' self.spartanChildProcessorCommands
  let systemClassPath ← getlineString '\n' self.systemClassPath
  let spSpartanSupervisorCommands ←
    streamVecIn (streamInVecElm (·.streamIn)) {} self.spSpartanSupervisorCommands
  getline₁
  let spSpartanChildProcessorCommands ←
    streamVecIn (streamInVecElm (·.streamIn)) {} self.spSpartanChildProcessorCommands
  getline₁
  let spSerializedSystemProperties ←
    streamVecIn streamInProperty [] self.spSerializedSystemProperties
  getline₁
  let spartanLoggingLevel ← getlineString '\n' self.spartanLoggingLevel
  let jvmlibPath ← getlineString '\n' self.jvmlibPath
  return ⟨supervisorPid, childProcessMaxCount, spartanMainEntryPoint, spartanGetStatusEntryPoint,
    spartanSupervisorShutdownEntryPoint, spartanChildNotifyEntryPoint,
    spartanChildCompletionNotifyEntryPoint, spartanSupervisorEntryPoint,
    spartanChildProcessorEntryPoint, spartanChildProcessorCommands, systemClassPath,
    spSpartanSupervisorCommands, spSpartanChildProcessorCommands, spSerializedSystemProperties,
    spartanLoggingLevel, jvmlibPath⟩

/-! ## Reading what was written -/

/-- The strings have no newline. -/
structure MethodDescriptor.OneLine (md : MethodDescriptor) : Prop where
  fullMethodName : '\n' ∉ md.fullMethodName
  descriptor : '\n' ∉ md.descriptor

structure MethodDescriptorCmd.OneLine (md : MethodDescriptorCmd) : Prop where
  toMethodDescriptor : md.toMethodDescriptor.OneLine
  command : '\n' ∉ md.command
  jvmOptionsCommandLine : '\n' ∉ md.jvmOptionsCommandLine

variable {typeid} {α : Type} {text : List Char} {a : α}

theorem reads_typeName (t : StreamedType) :
    Reads (getlineString '\n' []) (line (typeid.name t)) (typeid.name t) :=
  reads_line (typeid.newline_notMem t) []

theorem getShort_printDec (n old : Int16) (rest : List Char) :
    getShort old ⟨printDec n.toInt ++ '\n' :: rest, false, false⟩ =
      (n, ⟨'\n' :: rest, false, false⟩) := by
  have hlo := n.le_toInt
  have hhi := n.toInt_lt
  rw [getShort, bind_apply, getInt_printDec (by omega) (by omega)]
  show (Int16.ofInt n.toInt, _) = _
  rw [Int16.ofInt_toInt]

theorem getInt32_printDec (n old : Int32) (rest : List Char) :
    getInt32 old ⟨printDec n.toInt ++ '\n' :: rest, false, false⟩ =
      (n, ⟨'\n' :: rest, false, false⟩) := by
  have hlo := n.le_toInt
  have hhi := n.toInt_lt
  rw [getInt32, bind_apply, getInt_printDec (by omega) (by omega)]
  show (Int32.ofInt n.toInt, _) = _
  rw [Int32.ofInt_toInt]

theorem MethodDescriptor.reads_streamOut {self : MethodDescriptor} (h : self.OneLine)
    (old : MethodDescriptor) : Reads old.streamIn (self.streamOut typeid) self := by
  simp only [streamIn, streamOut, List.append_assoc]
  refine (reads_typeName _).bind ?_
  refine Reads.number (getBool_printDec _ _) ?_
  refine Reads.number (getShort_printDec _ _) ?_
  refine (reads_line h.fullMethodName _).bind ?_
  exact (reads_line h.descriptor _).last

theorem MethodDescriptorCmd.reads_streamOut {self : MethodDescriptorCmd} (h : self.OneLine)
    (old : MethodDescriptorCmd) : Reads old.streamIn (self.streamOut typeid) self := by
  simp only [streamIn, streamOut, List.append_assoc]
  refine (reads_typeName _).bind ?_
  refine (MethodDescriptor.reads_streamOut h.toMethodDescriptor _).bind ?_
  refine (reads_line h.command _).bind ?_
  exact (reads_line h.jvmOptionsCommandLine _).last

theorem reads_streamInElms {T : Type} {streamInElm : T → Extract T} {out : T → List Char} {t : T}
    {elems : List T} (h : ∀ elem ∈ elems, Reads (streamInElm t) (out elem) elem) :
    Reads (streamInElms streamInElm t elems.length) (elems.map out).flatten elems := by
  induction elems with
  | nil => exact Reads.pure []
  | cons elem elems ih =>
    rw [List.forall_mem_cons] at h
    exact h.1.bind (ih h.2).last

/-- An empty vector comes back as a null pointer. -/
theorem reads_streamVecOut {T : Type} {streamInElm : T → Extract T} {out : T → List Char} {t : T}
    {vecType : StreamedType} {self : Option (List T)} {delim : Char}
    (hcount : (self.getD []).length < 2 ^ 64)
    (h : ∀ elem ∈ self.getD [], Reads (streamInElm t) (out elem ++ [delim]) elem) :
    Reads (streamVecIn streamInElm t none) (streamVecOut typeid vecType out self delim)
      (self.filter fun elems => !elems.isEmpty) := by
  have hempty : Reads (streamVecIn streamInElm t none)
      (line (typeid.name vecType) ++ (line (printDec (0 : ℕ)) ++ ['\n'])) none := by
    refine (reads_typeName _).bind (Reads.number (getSize_printDec (by decide) _) ?_)
    show Reads (Pure.pure none >>= fun self => getline₁ >>= fun _ => Pure.pure self) _ _
    exact (Reads.pure none).bind reads_getline₁.last
  rcases self with _ | _ | ⟨elem, elems⟩
  · simp only [streamVecOut, List.append_assoc]
    exact hempty
  · simp only [streamVecOut, List.append_assoc, List.map_nil, List.flatten_nil, List.nil_append]
    exact hempty
  · simp only [streamVecOut, List.append_assoc]
    refine (reads_typeName _).bind (Reads.number (getSize_printDec hcount _) ?_)
    exact (reads_streamInElms h).last.bind reads_getline₁.last

/-- Each element takes at least the place of its delimiter. -/
theorem length_le_streamVecOut {T : Type} (typeid : TypeNames) (vecType : StreamedType)
    (out : T → List Char) (self : Option (List T)) (delim : Char) :
    (self.getD []).length ≤ (streamVecOut typeid vecType out self delim).length := by
  have helems : ∀ elems : List T,
      elems.length ≤ ((elems.map fun elem => out elem ++ [delim]).flatten).length := by
    intro elems
    induction elems with
    | nil => exact le_rfl
    | cons elem elems ih =>
      simp only [List.map_cons, List.flatten_cons, List.length_append, List.length_cons]
      omega
  cases self with
  | none => exact Nat.zero_le _
  | some elems =>
    have := helems elems
    simp only [streamVecOut, Option.getD_some, List.length_append]
    omega

theorem reads_commands {cmds : Option (List MethodDescriptorCmd)}
    (hcount : (cmds.getD []).length < 2 ^ 64) (h : ∀ cmd ∈ cmds.getD [], cmd.OneLine) :
    Reads (streamVecIn (streamInVecElm (·.streamIn)) {} none)
      (streamVecOut typeid .vectorOfMethodDescriptorCmd (·.streamOut typeid) cmds '\n')
      (cmds.filter fun cmds => !cmds.isEmpty) :=
  reads_streamVecOut hcount fun cmd hmem =>
    (MethodDescriptorCmd.reads_streamOut (h cmd hmem) {}).bind reads_getline₁.last

theorem reads_properties {props : Option (List (List Char))}
    (hcount : (props.getD []).length < 2 ^ 64) (h : ∀ prop ∈ props.getD [], '\r' ∉ prop) :
    Reads (streamVecIn streamInProperty [] none)
      (streamVecOut typeid .vectorOfString id props '\r')
      (props.filter fun props => !props.isEmpty) :=
  reads_streamVecOut hcount fun prop hmem => reads_getlineString (h prop hmem) []

/-! ## The session state -/

namespace SessionState

/-- The strings have no newline; the system properties may have newlines, but no carriage
return. -/
structure OneLine (ss : SessionState) : Prop where
  spartanMainEntryPoint : ss.spartanMainEntryPoint.OneLine
  spartanGetStatusEntryPoint : ss.spartanGetStatusEntryPoint.OneLine
  spartanSupervisorShutdownEntryPoint : ss.spartanSupervisorShutdownEntryPoint.OneLine
  spartanChildNotifyEntryPoint : ss.spartanChildNotifyEntryPoint.OneLine
  spartanChildCompletionNotifyEntryPoint : ss.spartanChildCompletionNotifyEntryPoint.OneLine
  spartanSupervisorEntryPoint : ss.spartanSupervisorEntryPoint.OneLine
  spartanChildProcessorEntryPoint : ss.spartanChildProcessorEntryPoint.OneLine
  spartanChildProcessorCommands : '\n' ∉ ss.spartanChildProcessorCommands
  systemClassPath : '\n' ∉ ss.systemClassPath
  spSpartanSupervisorCommands : ∀ cmd ∈ ss.spSpartanSupervisorCommands.getD [], cmd.OneLine
  spSpartanChildProcessorCommands :
    ∀ cmd ∈ ss.spSpartanChildProcessorCommands.getD [], cmd.OneLine
  spSerializedSystemProperties : ∀ prop ∈ ss.spSerializedSystemProperties.getD [], '\r' ∉ prop
  spartanLoggingLevel : '\n' ∉ ss.spartanLoggingLevel
  jvmlibPath : '\n' ∉ ss.jvmlibPath

/-- The session state with null pointers in place of empty vectors. -/
def withoutEmpty (ss : SessionState) : SessionState :=
  { ss with
    spSpartanSupervisorCommands :=
      ss.spSpartanSupervisorCommands.filter fun cmds => !cmds.isEmpty
    spSpartanChildProcessorCommands :=
      ss.spSpartanChildProcessorCommands.filter fun cmds => !cmds.isEmpty
    spSerializedSystemProperties :=
      ss.spSerializedSystemProperties.filter fun props => !props.isEmpty }

theorem counts_le (typeid : TypeNames) (ss : SessionState) :
    (ss.spSpartanSupervisorCommands.getD []).length ≤ (ss.streamOut typeid).length ∧
    (ss.spSpartanChildProcessorCommands.getD []).length ≤ (ss.streamOut typeid).length ∧
    (ss.spSerializedSystemProperties.getD []).length ≤ (ss.streamOut typeid).length := by
  have hsupervisor := length_le_streamVecOut typeid .vectorOfMethodDescriptorCmd
    (·.streamOut typeid) ss.spSpartanSupervisorCommands '\n'
  have hchild := length_le_streamVecOut typeid .vectorOfMethodDescriptorCmd
    (·.streamOut typeid) ss.spSpartanChildProcessorCommands '\n'
  have hprops := length_le_streamVecOut typeid .vectorOfString id
    ss.spSerializedSystemProperties '\r'
  simp only [streamOut, line, List.length_append]
  omega

/-- **The operators.** The text of a session state is read back as the session state, and the
stream stays good. -/
theorem reads_streamOut {self : SessionState} (h : self.OneLine)
    (hlength : (self.streamOut typeid).length < 2 ^ 64) :
    Reads (streamIn {}) (self.streamOut typeid) self.withoutEmpty := by
  obtain ⟨hsupervisor, hchild, hprops⟩ := self.counts_le typeid
  simp only [streamOut, List.append_assoc]
  unfold streamIn
  refine (reads_typeName _).bind ?_
  refine Reads.number (getInt32_printDec _ _) ?_
  refine Reads.number (getShort_printDec _ _) ?_
  refine (MethodDescriptor.reads_streamOut h.spartanMainEntryPoint _).separated ?_
  refine (MethodDescriptor.reads_streamOut h.spartanGetStatusEntryPoint _).separated ?_
  refine (MethodDescriptor.reads_streamOut h.spartanSupervisorShutdownEntryPoint _).separated ?_
  refine (MethodDescriptor.reads_streamOut h.spartanChildNotifyEntryPoint _).separated ?_
  refine (MethodDescriptor.reads_streamOut
    h.spartanChildCompletionNotifyEntryPoint _).separated ?_
  refine (MethodDescriptor.reads_streamOut h.spartanSupervisorEntryPoint _).separated ?_
  refine (MethodDescriptor.reads_streamOut h.spartanChildProcessorEntryPoint _).separated ?_
  refine (reads_line h.spartanChildProcessorCommands _).bind ?_
  refine (reads_line h.systemClassPath _).bind ?_
  refine (reads_commands (hsupervisor.trans_lt hlength) h.spSpartanSupervisorCommands).separated ?_
  refine (reads_commands (hchild.trans_lt hlength) h.spSpartanChildProcessorCommands).separated ?_
  refine (reads_properties (hprops.trans_lt hlength) h.spSerializedSystemProperties).separated ?_
  refine (reads_line h.spartanLoggingLevel _).bind ?_
  exact (reads_line h.jvmlibPath _).last

end SessionState

end Spartan
