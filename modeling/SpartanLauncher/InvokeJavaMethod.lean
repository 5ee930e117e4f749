import SpartanLauncher.EntryPoints

/-!
# The receiver of an instance method

`invoke_java_method` looks a method up in the class that its full name begins with, and calls
instance methods on one object, which is created from the class of the first call and kept.

**Theorem (`receiver_agrees_iff`).** The object is one of the class of the method, in every run
of calls, exactly when the entry points and commands that the JVM finds all belong to one class.
-/

namespace Spartan

open CString

/-! ## Calls -/

/-- What `invoke_java_method` sees of the JVM; the classes of the JDK are there. -/
structure Jvm where
  /-- `FindClass`. -/
  hasClass : List Char → Bool
  /-- `GetMethodID`, with the class, the name and the signature. -/
  hasMethod : List Char → List Char → List Char → Bool
  /-- `NewObject` with the constructor that takes no arguments. -/
  newObject : List Char → Bool

def ctorName : List Char := "<init>".toList

/-- A call with a descriptor that is not static. -/
structure InvokeCall where
  methodDescriptor : MethodDescriptor
  /-- There are descriptors for the error output and the input. -/
  hasErrAndInput : Bool
  deriving DecidableEq

/-- `create_cls_obj`: whether the object is created. The number is the one that is thrown. -/
def Jvm.createClsObj (jvm : Jvm) (className : List Char) : Except ℕ Unit :=
  if !jvm.hasMethod className ctorName "()V".toList then .error 4
  else if !jvm.newObject className then .error 5
  else .ok ()

/-- The `switch` on the method: whether `CallVoidMethod` is reached, or the number that is
thrown. -/
def InvokeCall.dispatch (call : InvokeCall) : Except ℕ Bool :=
  let md := call.methodDescriptor
  if md.whichMethod = WhichMethod.childDoCmd ∨ md.whichMethod = WhichMethod.supervisorDoCmd then
    let isExtendedInvoke := call.hasErrAndInput && md.descriptor == reactInvokeDescriptor
    if !isExtendedInvoke && md.descriptor != stdInvokeDescriptor then .error 6 else .ok true
  else if md.whichMethod ∈ [WhichMethod.getStatus, WhichMethod.supervisorShutdown,
      WhichMethod.childNotify, WhichMethod.childCompletionNotify] then .ok true
  else .ok false

/-- The class of the object that a method was called on, and the class of the method. -/
structure Receiver where
  object : List Char
  methodClass : List Char
  deriving DecidableEq

/-- The call on an object, if there is one. -/
def InvokeCall.callOn (call : InvokeCall) (object methodClass : List Char) :
    Except ℕ (Option Receiver) :=
  call.dispatch.map fun called => if called then some ⟨object, methodClass⟩ else none

/-- `invoke_java_method` for an instance method: the class of `atomicSpartanObj` after the call,
and the call that is made. -/
def Jvm.invokeJavaMethod (jvm : Jvm) (spartanObj : Option (List Char)) (call : InvokeCall) :
    Option (List Char) × Except ℕ (Option Receiver) :=
  match splitMethodName call.methodDescriptor.fullMethodName with
  | none => (spartanObj, .error 1)
  | some (className, methodName) =>
    if !jvm.hasClass className then (spartanObj, .error 3)
    else if !jvm.hasMethod className methodName call.methodDescriptor.descriptor then
      (spartanObj, .error 4)
    else
      match spartanObj with
      | some obj => (some obj, call.callOn obj className)
      | none =>
        match jvm.createClsObj className with
        | .error thrown => (none, .error thrown)
        | .ok _ => (some className, call.callOn className className)

/-- A run of calls. -/
def Jvm.run (jvm : Jvm) : Option (List Char) → List InvokeCall →
    List (Except ℕ (Option Receiver))
  | _, [] => []
  | spartanObj, call :: calls =>
    let (spartanObj, result) := jvm.invokeJavaMethod spartanObj call
    result :: jvm.run spartanObj calls

/-- In every run of calls with descriptors of the session state, a call that is made passes an
object of the class of its method. -/
def ReceiversAgree (jvm : Jvm) (ss : SessionState) : Prop :=
  ∀ calls : List InvokeCall, (∀ c ∈ calls, c.methodDescriptor ∈ ss.instanceDescriptors) →
    ∀ receiver, .ok (some receiver) ∈ jvm.run none calls → receiver.object = receiver.methodClass

/-! ## What the JVM finds -/

/-- The class in which the JVM finds the method of a descriptor. -/
def Jvm.classOf (jvm : Jvm) (md : MethodDescriptor) : Option (List Char) :=
  match splitMethodName md.fullMethodName with
  | none => none
  | some (className, methodName) =>
    if jvm.hasClass className && jvm.hasMethod className methodName md.descriptor then
      some className
    else none

/-- A first call with the descriptor creates the object. -/
def Jvm.Creates (jvm : Jvm) (md : MethodDescriptor) (className : List Char) : Prop :=
  jvm.classOf md = some className ∧ jvm.createClsObj className = .ok ()

/-- Some call with the descriptor gets to the method. -/
def Jvm.Reaches (jvm : Jvm) (md : MethodDescriptor) (className : List Char) : Prop :=
  jvm.classOf md = some className ∧ ∃ b, (InvokeCall.mk md b).dispatch = .ok true

variable {jvm : Jvm} {call : InvokeCall} {className obj : List Char}

theorem invokeJavaMethod_of_not_found (h : jvm.classOf call.methodDescriptor = none)
    (spartanObj : Option (List Char)) :
    ∃ thrown, jvm.invokeJavaMethod spartanObj call = (spartanObj, .error thrown) := by
  unfold Jvm.classOf at h
  unfold Jvm.invokeJavaMethod
  cases hsplit : splitMethodName call.methodDescriptor.fullMethodName with
  | none => exact ⟨1, rfl⟩
  | some parts =>
    rw [hsplit] at h
    cases hclass : jvm.hasClass parts.1 with
    | false => exact ⟨3, by simp [hclass]⟩
    | true =>
      cases hmethod : jvm.hasMethod parts.1 parts.2 call.methodDescriptor.descriptor with
      | false => exact ⟨4, by simp [hclass, hmethod]⟩
      | true => simp [hclass, hmethod] at h

/-- The code behind the two lookups. -/
theorem invokeJavaMethod_of_found (h : jvm.classOf call.methodDescriptor = some className)
    (spartanObj : Option (List Char)) :
    jvm.invokeJavaMethod spartanObj call =
      match spartanObj with
      | some obj => (some obj, call.callOn obj className)
      | none =>
        match jvm.createClsObj className with
        | .error thrown => (none, .error thrown)
        | .ok _ => (some className, call.callOn className className) := by
  unfold Jvm.classOf at h
  unfold Jvm.invokeJavaMethod
  cases hsplit : splitMethodName call.methodDescriptor.fullMethodName with
  | none =>
    rw [hsplit] at h
    cases h
  | some parts =>
    simp only [hsplit, Option.ite_none_right_eq_some, Bool.and_eq_true, Option.some.injEq] at h
    obtain ⟨⟨hclass, hmethod⟩, rfl⟩ := h
    simp [hclass, hmethod]

/-- A call that is made. -/
theorem callOn_eq_some {receiver : Receiver} (h : call.callOn obj className = .ok (some receiver)) :
    call.dispatch = .ok true ∧ receiver = ⟨obj, className⟩ := by
  unfold InvokeCall.callOn at h
  cases hdispatch : call.dispatch with
  | error thrown =>
    rw [hdispatch] at h
    cases h
  | ok called =>
    cases called with
    | false =>
      rw [hdispatch] at h
      cases h
    | true =>
      rw [hdispatch] at h
      cases h
      exact ⟨rfl, rfl⟩

/-! ## Runs -/

/-- The object is of a class that a descriptor of the session state creates. -/
def CreatedBy (jvm : Jvm) (ss : SessionState) (spartanObj : Option (List Char)) : Prop :=
  ∀ obj, spartanObj = some obj → ∃ md ∈ ss.instanceDescriptors, jvm.Creates md obj

/-- One call keeps the invariant, and the call that is made is on such an object. -/
theorem createdBy_invokeJavaMethod {ss : SessionState} {spartanObj : Option (List Char)}
    (hcall : call.methodDescriptor ∈ ss.instanceDescriptors)
    (hobj : CreatedBy jvm ss spartanObj) :
    CreatedBy jvm ss (jvm.invokeJavaMethod spartanObj call).1 ∧
      ∀ receiver, (jvm.invokeJavaMethod spartanObj call).2 = .ok (some receiver) →
        (∃ md ∈ ss.instanceDescriptors, jvm.Creates md receiver.object) ∧
          jvm.Reaches call.methodDescriptor receiver.methodClass := by
  cases hfound : jvm.classOf call.methodDescriptor with
  | none =>
    obtain ⟨thrown, hinvoke⟩ := invokeJavaMethod_of_not_found hfound spartanObj
    rw [hinvoke]
    exact ⟨hobj, fun receiver h => by cases h⟩
  | some className =>
    rw [invokeJavaMethod_of_found hfound]
    cases spartanObj with
    | some obj =>
      refine ⟨hobj, ?_⟩
      intro receiver hreceiver
      obtain ⟨hdispatch, rfl⟩ := callOn_eq_some hreceiver
      exact ⟨hobj obj rfl, hfound, call.hasErrAndInput, hdispatch⟩
    | none =>
      cases hcreate : jvm.createClsObj className with
      | error thrown => exact ⟨hobj, fun receiver h => by cases h⟩
      | ok u =>
        have hcreates : jvm.Creates call.methodDescriptor className := ⟨hfound, hcreate⟩
        refine ⟨?_, ?_⟩
        · intro obj hobj
          cases hobj
          exact ⟨_, hcall, hcreates⟩
        · intro receiver hreceiver
          obtain ⟨hdispatch, rfl⟩ := callOn_eq_some hreceiver
          exact ⟨⟨_, hcall, hcreates⟩, hfound, call.hasErrAndInput, hdispatch⟩

/-- **Runs.** Every call that is made is on an object that a descriptor creates, and reaches the
method of a descriptor. -/
theorem run_receiver {ss : SessionState} {calls : List InvokeCall}
    {spartanObj : Option (List Char)}
    (hcalls : ∀ c ∈ calls, c.methodDescriptor ∈ ss.instanceDescriptors)
    (hobj : CreatedBy jvm ss spartanObj) {receiver : Receiver}
    (hreceiver : .ok (some receiver) ∈ jvm.run spartanObj calls) :
    (∃ md ∈ ss.instanceDescriptors, jvm.Creates md receiver.object) ∧
      ∃ md ∈ ss.instanceDescriptors, jvm.Reaches md receiver.methodClass := by
  induction calls generalizing spartanObj with
  | nil => cases hreceiver
  | cons call calls ih =>
    rw [List.forall_mem_cons] at hcalls
    obtain ⟨hnext, hresult⟩ := createdBy_invokeJavaMethod hcalls.1 hobj
    rcases List.mem_cons.1 hreceiver with h | h
    · obtain ⟨hcreates, hreaches⟩ := hresult receiver h.symm
      exact ⟨hcreates, _, hcalls.1, hreaches⟩
    · exact ih hcalls.2 hnext h

/-- A first call that creates the object, and a second one that reaches another method. -/
theorem run_pair {md₁ md₂ : MethodDescriptor} {class₁ class₂ : List Char}
    (hcreates : jvm.Creates md₁ class₁) (hreaches : jvm.Reaches md₂ class₂) :
    ∃ b, .ok (some ⟨class₁, class₂⟩) ∈ jvm.run none [⟨md₁, b⟩, ⟨md₂, b⟩] := by
  obtain ⟨hfound₁, hcreate⟩ := hcreates
  obtain ⟨hfound₂, b, hdispatch⟩ := hreaches
  refine ⟨b, ?_⟩
  have h₁ : jvm.invokeJavaMethod none ⟨md₁, b⟩ = _ := invokeJavaMethod_of_found hfound₁ none
  have h₂ : jvm.invokeJavaMethod (some class₁) ⟨md₂, b⟩ = _ :=
    invokeJavaMethod_of_found hfound₂ (some class₁)
  simp only [hcreate] at h₁
  simp only [InvokeCall.callOn, hdispatch] at h₂
  simp only [Jvm.run, h₁, h₂]
  exact List.mem_cons_of_mem _ List.mem_cons_self

theorem receiversAgree_of_class {ss : SessionState}
    (hclass : ∀ md₁ ∈ ss.instanceDescriptors, ∀ md₂ ∈ ss.instanceDescriptors, ∀ class₁ class₂,
      jvm.Creates md₁ class₁ → jvm.Reaches md₂ class₂ → class₁ = class₂) :
    ReceiversAgree jvm ss := by
  intro calls hcalls receiver hreceiver
  obtain ⟨⟨md₁, h₁, hcreates⟩, md₂, h₂, hreaches⟩ :=
    run_receiver hcalls (fun obj h => by cases h) hreceiver
  exact hclass md₁ h₁ md₂ h₂ _ _ hcreates hreaches

/-- **The receiver of an instance method.** -/
theorem receiver_agrees_iff (jvm : Jvm) (session : Session) :
    ReceiversAgree jvm session.state ↔
      ∀ md₁ ∈ session.state.instanceDescriptors, ∀ md₂ ∈ session.state.instanceDescriptors,
        ∀ class₁ class₂, jvm.Creates md₁ class₁ → jvm.Reaches md₂ class₂ → class₁ = class₂ := by
  refine ⟨?_, receiversAgree_of_class⟩
  intro hagree md₁ h₁ md₂ h₂ class₁ class₂ hcreates hreaches
  obtain ⟨b, hrun⟩ := run_pair hcreates hreaches
  exact hagree _ (by simp [h₁, h₂]) _ hrun

/-- With a main entry point alone, the others are methods of the same class. -/
example (jvm : Jvm) : ∃ session : Session,
    session.entries = [⟨"SupervisorProcessSettings".toList, "MainEntryPoint".toList,
      "app.Main".toList⟩] ∧ ReceiversAgree jvm session.state := by
  let entries : List ConfigEntry :=
    [⟨"SupervisorProcessSettings".toList, "MainEntryPoint".toList, "app.Main".toList⟩]
  let info : CommandDispatchInfo := ⟨[], [], none, [], []⟩
  have hrun : ((sessionState [] entries).bind (·.processInitialCmdDispatchInfo info)).map
      (fun ss => ss.instanceDescriptors.all fun md =>
        (splitMethodName md.fullMethodName).all fun p => decide (p.1 = "app/Main".toList)) =
      .ok true := by
    rfl
  cases hbuilt : (sessionState [] entries).bind (·.processInitialCmdDispatchInfo info) with
  | error e =>
    rw [hbuilt] at hrun
    cases hrun
  | ok ss =>
    rw [hbuilt] at hrun
    have hall := List.all_eq_true.1 (Except.ok.inj hrun)
    have hclass {md : MethodDescriptor} {className : List Char}
        (hmd : md ∈ ss.instanceDescriptors) (hfound : jvm.classOf md = some className) :
        className = "app/Main".toList := by
      have hsplit := hall md hmd
      unfold Jvm.classOf at hfound
      cases hparts : splitMethodName md.fullMethodName with
      | none =>
        rw [hparts] at hfound
        cases hfound
      | some parts =>
        rw [hparts] at hfound hsplit
        obtain ⟨-, hname⟩ := Option.ite_none_right_eq_some.1 hfound
        exact (Option.some.inj hname).symm.trans (of_decide_eq_true hsplit)
    refine ⟨⟨[], entries, info, ss, hbuilt⟩, rfl, receiversAgree_of_class ?_⟩
    intro md₁ h₁ md₂ h₂ class₁ class₂ hcreates hreaches
    rw [hclass h₁ hcreates.1, hclass h₂ hreaches.1]

/-- A method for the status in a class of its own: the method that shuts the supervisor down is
called on an object of that class. -/
theorem not_receiver_agrees :
    ∃ (jvm : Jvm) (session : Session),
      session.entries =
        [⟨"SupervisorProcessSettings".toList, "MainEntryPoint".toList, "app.Main".toList⟩,
          ⟨"SupervisorProcessSettings".toList, "GetStatusEntryPoint".toList,
            "app.Status.status".toList⟩] ∧
      ¬ ReceiversAgree jvm session.state := by
  let entries : List ConfigEntry :=
    [⟨"SupervisorProcessSettings".toList, "MainEntryPoint".toList, "app.Main".toList⟩,
      ⟨"SupervisorProcessSettings".toList, "GetStatusEntryPoint".toList,
        "app.Status.status".toList⟩]
  let info : CommandDispatchInfo := ⟨[], [], none, [], []⟩
  let status : MethodDescriptor :=
    ⟨false, .getStatus, "app/Status/status".toList, getStatusDescriptor⟩
  let shutdown : MethodDescriptor :=
    ⟨false, .supervisorShutdown, "app/Main/supervisorShutdown".toList,
      supervisorShutdownDescriptor⟩
  have hrun : ((sessionState [] entries).bind (·.processInitialCmdDispatchInfo info)).map
      (fun ss => (ss.spartanGetStatusEntryPoint, ss.spartanSupervisorShutdownEntryPoint)) =
      .ok (status, shutdown) := by
    rfl
  cases hbuilt : (sessionState [] entries).bind (·.processInitialCmdDispatchInfo info) with
  | error e =>
    rw [hbuilt] at hrun
    cases hrun
  | ok ss =>
    rw [hbuilt] at hrun
    obtain ⟨hstatus, hshutdown⟩ := Prod.mk.inj (Except.ok.inj hrun)
    let jvm : Jvm := ⟨fun _ => true, fun _ _ _ => true, fun _ => true⟩
    refine ⟨jvm, ⟨[], entries, info, ss, hbuilt⟩, rfl, ?_⟩
    intro hagree
    have hcreates : jvm.Creates status "app/Status".toList := ⟨rfl, rfl⟩
    have hreaches : jvm.Reaches shutdown "app/Main".toList := ⟨rfl, false, rfl⟩
    obtain ⟨b, hpair⟩ := run_pair hcreates hreaches
    have hcalls : ∀ c ∈ [InvokeCall.mk status b, InvokeCall.mk shutdown b],
        c.methodDescriptor ∈ ss.instanceDescriptors := by
      simp [SessionState.instanceDescriptors, hstatus, hshutdown]
    exact absurd (hagree _ hcalls _ hpair) (by decide)

end Spartan
