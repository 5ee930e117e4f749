import SpartanLauncher.Lib.CString
import SpartanLauncher.Lib.Purge

/-!
# The scan for annotated methods

`AnnotationScanner` goes over the methods of all classes on the class path and collects the entry
point of the supervisor, its commands, and the commands of child workers. Entries of the
`spartan.test` classes are there by default: they go when an application has entries of its own.

**Theorem (`scanOrder_irrelevant_iff`).** The result does not depend on the order of the methods
exactly when nothing is removed: the flags that the removal looks at live for one method, so that
a default entry stays when its class comes later.
-/

namespace Spartan

open CString

/-! ## Annotated methods -/

/-- A value in an annotation of a class file. -/
inductive MemberValue where
  | string (value : List Char)
  | array (values : List (List Char))
  deriving DecidableEq

/-- An annotation as the compiler writes it. -/
inductive MethodAnnotation where
  | supervisorMain
  | supervisorCommand (value : List Char)
  /-- A default `jvmArgs` is not in the class file. -/
  | childWorkerCommand (cmd : List Char) (jvmArgs : Option (List (List Char)))
  | other (typeName : List Char)
  deriving DecidableEq

structure AnnotatedMethod where
  className : List Char
  methodName : List Char
  descriptor : List Char
  annotations : List MethodAnnotation
  deriving DecidableEq

/-! ## The tables -/

structure MethInfo where
  className : List Char
  methodName : List Char
  descriptor : List Char
  deriving DecidableEq

def AnnotatedMethod.methInfo (method : AnnotatedMethod) : MethInfo :=
  ⟨method.className, method.methodName, method.descriptor⟩

structure CmdInfo extends MethInfo where
  cmd : List Char := []
  deriving DecidableEq

structure ChildCmdInfo extends CmdInfo where
  jvmArgs : List (List Char) := []
  deriving DecidableEq

structure AnnotationScanner where
  spartanMainEntryPoint : Option MethInfo := none
  spartanSupervisorCmds : List CmdInfo := []
  spartanChildWorkerCmds : List ChildCmdInfo := []
  deriving DecidableEq

/-- A class of `spartan.test`. -/
def isSpartanTest (className : List Char) : Bool :=
  "spartan.test".toList.isPrefixOf className || "spartan/test".toList.isPrefixOf className

def isNullOrSpartanTestMethod (methInfo : Option MethInfo) : Bool :=
  methInfo.all fun methInfo => isSpartanTest methInfo.className

/-! ## The scan -/

/-- The names of `spartanAnnotationValidMetaData`. -/
def spartanAnnotationValidMetaData : List (List Char) :=
  ["value".toList, "cmd".toList, "jvmArgs".toList]

/-- The members of an annotation, with their names. -/
def MethodAnnotation.members : MethodAnnotation → List (List Char × MemberValue)
  | .supervisorMain => []
  | .supervisorCommand value => [("value".toList, .string value)]
  | .childWorkerCommand cmd jvmArgs =>
    ("cmd".toList, .string cmd) :: (jvmArgs.map fun args => ("jvmArgs".toList, .array args)).toList
  | .other _ => []

/-- The reference `cmdInfo` of `populate`. -/
inductive CmdInfoRef where
  | null
  | cmdInfo (info : CmdInfo)
  | childCmdInfo (info : ChildCmdInfo)

/-- `handleAnnotationValue`. `none` stands for the exceptions: a null pointer, or a `CmdInfo` that
is not a `ChildCmdInfo`. -/
def handleAnnotationValue : CmdInfoRef → MemberValue → Option CmdInfoRef
  | .cmdInfo info, .string value => some (.cmdInfo { info with cmd := value })
  | .childCmdInfo info, .string value => some (.childCmdInfo { info with cmd := value })
  | .childCmdInfo info, .array (arg :: args) =>
    some (.childCmdInfo { info with jvmArgs := arg :: args })
  | ref, .array [] => some ref
  | _, _ => none

/-- The members of an annotation, one after the other. -/
def handleMembers (a : MethodAnnotation) (ref : CmdInfoRef) : Option CmdInfoRef :=
  let members := a.members.filter (spartanAnnotationValidMetaData.contains ·.1)
  members.foldlM (fun ref member => handleAnnotationValue ref member.2) ref

/-- The scanner with the local flags of `populate`. -/
structure Populating where
  scanner : AnnotationScanner
  isNonSpartanTestSupervisorMain : Bool := false
  isNonSpartanTestSupervisorCmd : Bool := false
  isNonSpartanTestChildWorkerCmd : Bool := false

/-- The lambda `handleAnnotation`, behind the filter on `spartanAnnotations`. -/
def handleAnnotation (method : AnnotatedMethod) (s : Populating) (a : MethodAnnotation) :
    Option Populating :=
  let methInfo := method.methInfo
  match a with
  | .supervisorMain =>
    (handleMembers a .null).map fun _ =>
      if isNullOrSpartanTestMethod s.scanner.spartanMainEntryPoint then
        { s with
          scanner := { s.scanner with spartanMainEntryPoint := some methInfo }
          isNonSpartanTestSupervisorMain :=
            s.isNonSpartanTestSupervisorMain || !isNullOrSpartanTestMethod (some methInfo) }
      else s
  | .supervisorCommand _ =>
    (handleMembers a (.cmdInfo { methInfo with })).bind fun
      | .cmdInfo cmdInfo => some { s with
          scanner := { s.scanner with
            spartanSupervisorCmds := s.scanner.spartanSupervisorCmds ++ [cmdInfo] }
          isNonSpartanTestSupervisorCmd :=
            s.isNonSpartanTestSupervisorCmd || !isNullOrSpartanTestMethod (some methInfo) }
      | _ => none
  | .childWorkerCommand _ _ =>
    (handleMembers a (.childCmdInfo { methInfo with })).bind fun
      | .childCmdInfo childCmdInfo => some { s with
          scanner := { s.scanner with
            spartanChildWorkerCmds := s.scanner.spartanChildWorkerCmds ++ [childCmdInfo] }
          isNonSpartanTestChildWorkerCmd :=
            s.isNonSpartanTestChildWorkerCmd || !isNullOrSpartanTestMethod (some methInfo) }
      | _ => none
  | .other _ => some s

/-- The two removals at the end of `populate`. -/
def Populating.removeDefaults (s : Populating) : AnnotationScanner :=
  let isApplication (methInfo : MethInfo) : Bool := !isNullOrSpartanTestMethod (some methInfo)
  { s.scanner with
    spartanSupervisorCmds :=
      if s.isNonSpartanTestSupervisorMain || s.isNonSpartanTestSupervisorCmd then
        s.scanner.spartanSupervisorCmds.filter fun info => isApplication info.toMethInfo
      else s.scanner.spartanSupervisorCmds
    spartanChildWorkerCmds :=
      if s.isNonSpartanTestSupervisorMain || s.isNonSpartanTestChildWorkerCmd then
        s.scanner.spartanChildWorkerCmds.filter fun info => isApplication info.toMethInfo
      else s.scanner.spartanChildWorkerCmds }

def populate (scanner : AnnotationScanner) (method : AnnotatedMethod) : Option AnnotationScanner :=
  let s := method.annotations.foldlM (fun s a => handleAnnotation method s a) { scanner }
  s.map Populating.removeDefaults

/-- The scan of all methods, in the order in which they are found. -/
def scanMethods (methods : List AnnotatedMethod) : Option AnnotationScanner :=
  methods.foldlM populate {}

/-! ## What a method contributes -/

namespace AnnotatedMethod

def isTest (m : AnnotatedMethod) : Bool := isSpartanTest m.className

def isMain (m : AnnotatedMethod) : Bool := m.annotations.any (· = .supervisorMain)

def supervisorCmd (m : AnnotatedMethod) : MethodAnnotation → Option CmdInfo
  | .supervisorCommand value => some { m.methInfo with cmd := value }
  | _ => none

def childWorkerCmd (m : AnnotatedMethod) : MethodAnnotation → Option ChildCmdInfo
  | .childWorkerCommand cmd jvmArgs =>
    some { m.methInfo with cmd := cmd, jvmArgs := jvmArgs.getD [] }
  | _ => none

def hasSupervisorCommand (m : AnnotatedMethod) : Bool :=
  m.annotations.any fun a => (m.supervisorCmd a).isSome

def hasChildWorkerCommand (m : AnnotatedMethod) : Bool :=
  m.annotations.any fun a => (m.childWorkerCmd a).isSome

end AnnotatedMethod

open AnnotatedMethod

@[simp] theorem isNullOrSpartanTestMethod_methInfo (m : AnnotatedMethod) :
    isNullOrSpartanTestMethod (some m.methInfo) = m.isTest := rfl

/-- `SupervisorMain` is taken when there is no entry point, or only a default one. -/
def nextMain (m : AnnotatedMethod) (isMain : Bool) (main : Option MethInfo) : Option MethInfo :=
  if isMain && isNullOrSpartanTestMethod main then some m.methInfo else main

/-- The state behind the annotations `as` of a method. -/
def annotated (m : AnnotatedMethod) (as : List MethodAnnotation) (s : Populating) : Populating where
  scanner :=
    { spartanMainEntryPoint :=
        nextMain m (as.any (· = .supervisorMain)) s.scanner.spartanMainEntryPoint
      spartanSupervisorCmds := s.scanner.spartanSupervisorCmds ++ as.filterMap m.supervisorCmd
      spartanChildWorkerCmds := s.scanner.spartanChildWorkerCmds ++ as.filterMap m.childWorkerCmd }
  isNonSpartanTestSupervisorMain := s.isNonSpartanTestSupervisorMain ||
    (as.any (· = .supervisorMain) && isNullOrSpartanTestMethod s.scanner.spartanMainEntryPoint &&
      !m.isTest)
  isNonSpartanTestSupervisorCmd := s.isNonSpartanTestSupervisorCmd ||
    (as.any (fun a => (m.supervisorCmd a).isSome) && !m.isTest)
  isNonSpartanTestChildWorkerCmd := s.isNonSpartanTestChildWorkerCmd ||
    (as.any (fun a => (m.childWorkerCmd a).isSome) && !m.isTest)

/-- No annotation of these types makes the scan fail. -/
theorem handleAnnotation_eq (m : AnnotatedMethod) (s : Populating) (a : MethodAnnotation) :
    handleAnnotation m s a = some (annotated m [a] s) := by
  cases a with
  | supervisorMain =>
    have hmembers : handleMembers .supervisorMain .null = some .null := rfl
    simp only [hmembers, handleAnnotation, Option.map_some]
    by_cases hmain : isNullOrSpartanTestMethod s.scanner.spartanMainEntryPoint = true
    · simp [hmain, annotated, nextMain, supervisorCmd, childWorkerCmd, List.filterMap_cons]
    · simp [hmain, annotated, nextMain, supervisorCmd, childWorkerCmd, List.filterMap_cons]
  | supervisorCommand value =>
    have hmembers : handleMembers (.supervisorCommand value) (.cmdInfo { m.methInfo with }) =
        some (.cmdInfo { m.methInfo with cmd := value }) := rfl
    simp [hmembers, handleAnnotation, annotated, nextMain, supervisorCmd, childWorkerCmd,
      List.filterMap_cons]
  | childWorkerCommand cmd jvmArgs =>
    have hmembers : handleMembers (.childWorkerCommand cmd jvmArgs)
        (.childCmdInfo { m.methInfo with }) =
        some (.childCmdInfo { m.methInfo with cmd := cmd, jvmArgs := jvmArgs.getD [] }) := by
      cases jvmArgs with
      | none => rfl
      | some args => cases args <;> rfl
    simp [hmembers, handleAnnotation, annotated, nextMain, supervisorCmd, childWorkerCmd,
      List.filterMap_cons]
  | other typeName =>
    simp [annotated, handleAnnotation, nextMain, supervisorCmd, childWorkerCmd,
      List.filterMap_cons]

theorem annotated_nil (m : AnnotatedMethod) (s : Populating) : annotated m [] s = s := by
  simp [annotated, nextMain]

/-- An entry point of the method itself is a default one just when the method is. -/
theorem nextMain_nextMain (m : AnnotatedMethod) (b b' : Bool) (main : Option MethInfo) :
    nextMain m b' (nextMain m b main) = nextMain m (b || b') main := by
  cases b with
  | false => rfl
  | true =>
    cases hmain : isNullOrSpartanTestMethod main with
    | false => simp [nextMain, hmain]
    | true => simp [nextMain, hmain]

/-- After a first `SupervisorMain`, a second one finds the entry point of the method itself. -/
theorem isNull_nextMain (m : AnnotatedMethod) (b : Bool) (main : Option MethInfo) :
    (isNullOrSpartanTestMethod (nextMain m b main) && !m.isTest) =
      (!b && isNullOrSpartanTestMethod main && !m.isTest) := by
  cases b with
  | false => rfl
  | true =>
    cases hmain : isNullOrSpartanTestMethod main with
    | false => simp [nextMain, hmain]
    | true => simp [nextMain, hmain]

theorem annotated_cons (m : AnnotatedMethod) (a : MethodAnnotation) (as : List MethodAnnotation)
    (s : Populating) : annotated m as (annotated m [a] s) = annotated m (a :: as) s := by
  have happend : a :: as = [a] ++ as := rfl
  have hmain : ∀ b b' main : Bool, ∀ f, (f || (b && main && !m.isTest) ||
      (b' && (!b && main && !m.isTest))) = (f || ((b || b') && main && !m.isTest)) := by
    intro b b' main f
    cases b <;> cases b' <;> simp
  have hcmd : ∀ b b' f, (f || (b && !m.isTest) || (b' && !m.isTest)) =
      (f || ((b || b') && !m.isTest)) := by
    intro b b' f
    rw [Bool.or_assoc, Bool.and_or_distrib_right]
  simp only [annotated, nextMain_nextMain, happend, List.any_append, List.filterMap_append,
    List.append_assoc, Bool.and_assoc, isNull_nextMain]
  simp only [← Bool.and_assoc]
  rw [← hmain, ← hcmd, ← hcmd]
  simp only [Bool.and_assoc]

theorem foldlM_handleAnnotation (m : AnnotatedMethod) (as : List MethodAnnotation)
    (s : Populating) :
    as.foldlM (fun s a => handleAnnotation m s a) s = some (annotated m as s) := by
  induction as generalizing s with
  | nil => rw [annotated_nil]; rfl
  | cons a as ih =>
    rw [List.foldlM_cons, handleAnnotation_eq, ← annotated_cons m a as s]
    exact ih _

/-! ## The scan of all methods -/

/-- A method outside `spartan.test` that is the entry point. -/
def isApplicationMain (m : AnnotatedMethod) : Bool := m.isMain && !m.isTest

def isTestMain (m : AnnotatedMethod) : Bool := m.isMain && m.isTest

/-- How `populate` keeps a table, as long as the application has no other entry point. -/
def tableRule {ε : Type} (cmd : AnnotatedMethod → MethodAnnotation → Option ε)
    (className : ε → List Char) (hclass : ∀ m a e, cmd m a = some e → className e = m.className) :
    Purge.Rule AnnotatedMethod ε where
  entries m := m.annotations.filterMap (cmd m)
  builtin e := isSpartanTest (className e)
  trigger m := !m.isTest && (m.isMain || m.annotations.any fun a => (cmd m a).isSome)
  own m hm e he := by
    obtain ⟨a, -, ha⟩ := List.mem_filterMap.1 he
    rw [hclass m a e ha]
    show m.isTest = false
    simpa using (Bool.and_eq_true_iff.1 hm).1

theorem className_supervisorCmd (m : AnnotatedMethod) (a : MethodAnnotation) (e : CmdInfo)
    (h : m.supervisorCmd a = some e) : e.className = m.className := by
  cases a with
  | supervisorCommand value => cases h; rfl
  | _ => cases h

theorem className_childWorkerCmd (m : AnnotatedMethod) (a : MethodAnnotation) (e : ChildCmdInfo)
    (h : m.childWorkerCmd a = some e) : e.className = m.className := by
  cases a with
  | childWorkerCommand cmd jvmArgs => cases h; rfl
  | _ => cases h

def supervisorRule : Purge.Rule AnnotatedMethod CmdInfo :=
  tableRule supervisorCmd (fun info => info.className) className_supervisorCmd

def childWorkerRule : Purge.Rule AnnotatedMethod ChildCmdInfo :=
  tableRule childWorkerCmd (fun info => info.className) className_childWorkerCmd

theorem populate_eq (scanner : AnnotationScanner) (m : AnnotatedMethod)
    (hmain : isApplicationMain m = true →
      isNullOrSpartanTestMethod scanner.spartanMainEntryPoint = true) :
    populate scanner m = some
      { spartanMainEntryPoint := nextMain m m.isMain scanner.spartanMainEntryPoint
        spartanSupervisorCmds := supervisorRule.step scanner.spartanSupervisorCmds m
        spartanChildWorkerCmds := childWorkerRule.step scanner.spartanChildWorkerCmds m } := by
  have hflag : (m.isMain && isNullOrSpartanTestMethod scanner.spartanMainEntryPoint &&
      !m.isTest) = (m.isMain && !m.isTest) := by
    cases happ : isApplicationMain m with
    | true => simp [hmain happ]
    | false =>
      rw [Bool.and_right_comm, show (m.isMain && !m.isTest) = false from happ, Bool.false_and]
  have hfactor : ∀ b : Bool, (m.isMain && !m.isTest || (b && !m.isTest)) =
      (!m.isTest && (m.isMain || b)) := by
    intro b
    rw [← Bool.and_or_distrib_right, Bool.and_comm]
  rw [populate, foldlM_handleAnnotation, Option.map_some]
  have hsup := hfactor m.hasSupervisorCommand
  have hchild := hfactor m.hasChildWorkerCommand
  rw [← hflag] at hsup hchild
  simp only [annotated, Populating.removeDefaults, Bool.false_or, Purge.Rule.step, supervisorRule,
    childWorkerRule, tableRule]
  congr 2
  · exact if_congr (Bool.eq_iff_iff.1 hsup) rfl rfl
  · exact if_congr (Bool.eq_iff_iff.1 hchild) rfl rfl

/-- The entry point behind the methods `ms`. -/
def mainOf (ms : List AnnotatedMethod) (main : Option MethInfo) : Option MethInfo :=
  if isNullOrSpartanTestMethod main then
    ((ms.filter isApplicationMain).head?.map methInfo).or
      (((ms.filter isTestMain).getLast?.map methInfo).or main)
  else main

theorem mainOf_of_application {main : Option MethInfo}
    (h : isNullOrSpartanTestMethod main = false) (ms : List AnnotatedMethod) :
    mainOf ms main = main := by
  simp [mainOf, h]

theorem isNull_nextMain_of_not_application {m : AnnotatedMethod} (h : isApplicationMain m = false)
    (main : Option MethInfo) :
    isNullOrSpartanTestMethod (nextMain m m.isMain main) = isNullOrSpartanTestMethod main := by
  unfold nextMain
  split_ifs with hset
  · rw [Bool.and_eq_true] at hset
    rw [hset.2, isNullOrSpartanTestMethod_methInfo]
    simpa [isApplicationMain, hset.1] using h
  · rfl

theorem mainOf_cons (m : AnnotatedMethod) (ms : List AnnotatedMethod) (main : Option MethInfo) :
    mainOf ms (nextMain m m.isMain main) = mainOf (m :: ms) main := by
  cases hnull : isNullOrSpartanTestMethod main with
  | false => simp [nextMain, hnull, mainOf_of_application]
  | true =>
    cases hmain : m.isMain with
    | false => simp [nextMain, mainOf, hnull, isApplicationMain, isTestMain, hmain]
    | true =>
      have hnext : nextMain m true main = some m.methInfo := by simp [nextMain, hnull]
      have hown := isNullOrSpartanTestMethod_methInfo m
      rw [hnext]
      cases htest : m.isTest with
      | false =>
        have happ : isApplicationMain m = true := by simp [isApplicationMain, hmain, htest]
        rw [mainOf_of_application (hown.trans htest), mainOf, if_pos hnull,
          List.filter_cons_of_pos happ]
        rfl
      | true =>
        have happ : isApplicationMain m = false := by simp [isApplicationMain, htest]
        have htestMain : isTestMain m = true := by simp [isTestMain, hmain, htest]
        rw [mainOf, mainOf, if_pos hnull, if_pos (hown.trans htest),
          List.filter_cons_of_neg (by simp [happ]), List.filter_cons_of_pos htestMain,
          List.getLast?_cons]
        cases (ms.filter isTestMain).getLast? <;> rfl

/-- With one entry point of the application at most, the three parts of the result are
independent. -/
theorem foldlM_populate {ms : List AnnotatedMethod} (hms : (ms.filter isApplicationMain).length ≤ 1)
    (scanner : AnnotationScanner)
    (hmain : isNullOrSpartanTestMethod scanner.spartanMainEntryPoint = false →
      ms.filter isApplicationMain = []) :
    ms.foldlM populate scanner = some
      { spartanMainEntryPoint := mainOf ms scanner.spartanMainEntryPoint
        spartanSupervisorCmds := ms.foldl supervisorRule.step scanner.spartanSupervisorCmds
        spartanChildWorkerCmds :=
          ms.foldl childWorkerRule.step scanner.spartanChildWorkerCmds } := by
  induction ms generalizing scanner with
  | nil =>
    have hnil : mainOf [] scanner.spartanMainEntryPoint = scanner.spartanMainEntryPoint := by
      simp [mainOf]
    rw [hnil]
    rfl
  | cons m ms ih =>
    have hfirst : isApplicationMain m = true →
        isNullOrSpartanTestMethod scanner.spartanMainEntryPoint = true := by
      intro happ
      by_contra hnull
      have := hmain (Bool.not_eq_true _ ▸ hnull)
      rw [List.filter_cons_of_pos happ] at this
      cases this
    have hrest : (ms.filter isApplicationMain).length ≤ 1 :=
      (((List.sublist_cons_self m ms).filter isApplicationMain).length_le).trans hms
    have hlater : isNullOrSpartanTestMethod
        (nextMain m m.isMain scanner.spartanMainEntryPoint) = false →
        ms.filter isApplicationMain = [] := by
      intro hnull
      cases happ : isApplicationMain m with
      | true =>
        rw [List.filter_cons_of_pos happ, List.length_cons] at hms
        exact List.length_eq_zero_iff.1 (by omega)
      | false =>
        rw [List.filter_cons_of_neg (by simp [happ])] at hmain
        rw [isNull_nextMain_of_not_application happ] at hnull
        exact hmain hnull
    have ih := ih hrest
      { spartanMainEntryPoint := nextMain m m.isMain scanner.spartanMainEntryPoint
        spartanSupervisorCmds := supervisorRule.step scanner.spartanSupervisorCmds m
        spartanChildWorkerCmds := childWorkerRule.step scanner.spartanChildWorkerCmds m } hlater
    rw [List.foldlM_cons, populate_eq scanner m hfirst, Option.bind_eq_bind, Option.bind_some, ih,
      mainOf_cons]
    rfl

/-! ## The order of the scan -/

/-- Any two orders in which the methods are found give the same entry point and the same tables,
up to their order. -/
def ScanOrderIrrelevant (methods : List AnnotatedMethod) : Prop :=
  ∀ order₁ order₂ : List AnnotatedMethod, order₁.Perm methods → order₂.Perm methods →
    ∃ s₁ s₂, scanMethods order₁ = some s₁ ∧ scanMethods order₂ = some s₂ ∧
      s₁.spartanMainEntryPoint = s₂.spartanMainEntryPoint ∧
      s₁.spartanSupervisorCmds.Perm s₂.spartanSupervisorCmds ∧
      s₁.spartanChildWorkerCmds.Perm s₂.spartanChildWorkerCmds

/-- Nothing is removed from a table. -/
theorem tableRule_run_perm_iff {ε : Type} {cmd : AnnotatedMethod → MethodAnnotation → Option ε}
    {className : ε → List Char} (hclass : ∀ m a e, cmd m a = some e → className e = m.className)
    (ms : List AnnotatedMethod) :
    (∀ ms₁ ms₂ : List AnnotatedMethod, ms₁.Perm ms → ms₂.Perm ms →
      ((tableRule cmd className hclass).run ms₁).Perm ((tableRule cmd className hclass).run ms₂)) ↔
        (∀ m ∈ ms, m.isTest = false →
          m.isMain = false ∧ (m.annotations.any fun a => (cmd m a).isSome) = false) ∨
        ∀ m ∈ ms, m.isTest = true → (m.annotations.any fun a => (cmd m a).isSome) = false := by
  rw [Purge.Rule.run_perm_iff]
  apply or_congr
  · apply forall₂_congr
    intro m _
    simp only [tableRule]
    cases m.isTest <;> simp
  · apply forall₂_congr
    intro m _
    refine ⟨?_, ?_⟩
    · intro hbuiltin htest
      rw [List.any_eq_false]
      intro a ha hsome
      obtain ⟨e, he⟩ := Option.isSome_iff_exists.1 hsome
      have happ := hbuiltin e (List.mem_filterMap.2 ⟨a, ha, he⟩)
      simp only [tableRule, hclass m a e he] at happ
      exact absurd htest (by rw [isTest, happ]; decide)
    · intro hnone e he
      obtain ⟨a, ha, hcmd⟩ := List.mem_filterMap.1 he
      simp only [tableRule, hclass m a e hcmd]
      by_contra htest
      have hany := hnone (Bool.not_eq_false _ ▸ htest)
      rw [List.any_eq_false] at hany
      exact hany a ha (by rw [hcmd]; rfl)

/-- A filter that keeps one element at most does not depend on the order. -/
theorem filter_eq_of_perm {α : Type*} {p : α → Bool} {l₁ l₂ : List α} (hperm : l₁.Perm l₂)
    (h : (l₂.filter p).length ≤ 1) : l₁.filter p = l₂.filter p := by
  have hfilter := hperm.filter p
  cases hl : l₂.filter p with
  | nil =>
    rw [hl] at hfilter
    exact hfilter.eq_nil
  | cons a tail =>
    rw [hl, List.length_cons] at h
    have htail : tail = [] := List.length_eq_zero_iff.1 (by omega)
    rw [hl, htail] at hfilter
    rw [htail]
    exact hfilter.eq_singleton

theorem scanMethods_eq {methods order : List AnnotatedMethod}
    (happlication : (methods.filter isApplicationMain).length ≤ 1) (horder : order.Perm methods) :
    scanMethods order = some
      { spartanMainEntryPoint := mainOf order none
        spartanSupervisorCmds := supervisorRule.run order
        spartanChildWorkerCmds := childWorkerRule.run order } := by
  rw [scanMethods, foldlM_populate]
  · rfl
  · rw [filter_eq_of_perm horder happlication]
    exact happlication
  · intro h
    cases h

/-- The entry point never depends on the order. -/
theorem mainOf_perm {methods order : List AnnotatedMethod}
    (happlication : (methods.filter isApplicationMain).length ≤ 1)
    (htest : (methods.filter isTestMain).length ≤ 1) (horder : order.Perm methods)
    (main : Option MethInfo) : mainOf order main = mainOf methods main := by
  rw [mainOf, filter_eq_of_perm horder happlication, filter_eq_of_perm horder htest, mainOf]

/-- Both tables have to be independent of the order. -/
theorem scanOrderIrrelevant_iff_tables {methods : List AnnotatedMethod}
    (happlication : (methods.filter isApplicationMain).length ≤ 1)
    (htest : (methods.filter isTestMain).length ≤ 1) :
    ScanOrderIrrelevant methods ↔
      (∀ ms₁ ms₂ : List AnnotatedMethod, ms₁.Perm methods → ms₂.Perm methods →
        (supervisorRule.run ms₁).Perm (supervisorRule.run ms₂)) ∧
      ∀ ms₁ ms₂ : List AnnotatedMethod, ms₁.Perm methods → ms₂.Perm methods →
        (childWorkerRule.run ms₁).Perm (childWorkerRule.run ms₂) := by
  refine ⟨?_, ?_⟩
  · intro h
    have htables : ∀ ms₁ ms₂ : List AnnotatedMethod, ms₁.Perm methods → ms₂.Perm methods →
        (supervisorRule.run ms₁).Perm (supervisorRule.run ms₂) ∧
          (childWorkerRule.run ms₁).Perm (childWorkerRule.run ms₂) := by
      intro ms₁ ms₂ h₁ h₂
      obtain ⟨s₁, s₂, hs₁, hs₂, -, hsup, hchild⟩ := h ms₁ ms₂ h₁ h₂
      rw [scanMethods_eq happlication h₁] at hs₁
      rw [scanMethods_eq happlication h₂] at hs₂
      cases hs₁
      cases hs₂
      exact ⟨hsup, hchild⟩
    exact ⟨fun ms₁ ms₂ h₁ h₂ => (htables ms₁ ms₂ h₁ h₂).1,
      fun ms₁ ms₂ h₁ h₂ => (htables ms₁ ms₂ h₁ h₂).2⟩
  · intro h order₁ order₂ h₁ h₂
    refine ⟨_, _, scanMethods_eq happlication h₁, scanMethods_eq happlication h₂, ?_,
      h.1 _ _ h₁ h₂, h.2 _ _ h₁ h₂⟩
    show mainOf order₁ none = mainOf order₂ none
    rw [mainOf_perm happlication htest h₁, mainOf_perm happlication htest h₂]

/-- **Order of the scan.** -/
theorem scanOrder_irrelevant_iff (methods : List AnnotatedMethod)
    (happlication : (methods.filter isApplicationMain).length ≤ 1)
    (htest : (methods.filter isTestMain).length ≤ 1) :
    ScanOrderIrrelevant methods ↔
      ((∀ m ∈ methods, m.isTest = false → m.isMain = false ∧ m.hasSupervisorCommand = false) ∨
        ∀ m ∈ methods, m.isTest = true → m.hasSupervisorCommand = false) ∧
      ((∀ m ∈ methods, m.isTest = false → m.isMain = false ∧ m.hasChildWorkerCommand = false) ∨
        ∀ m ∈ methods, m.isTest = true → m.hasChildWorkerCommand = false) := by
  rw [scanOrderIrrelevant_iff_tables happlication htest, supervisorRule, childWorkerRule,
    tableRule_run_perm_iff, tableRule_run_perm_iff]
  rfl

/-- An application that brings nothing but its entry point and a command of its own, without any
default commands on the class path. -/
theorem scanOrder_irrelevant_application :
    ScanOrderIrrelevant
      [⟨"app.Main".toList, "main".toList, "()V".toList, [.supervisorMain]⟩,
        ⟨"app.Main".toList, "etl".toList, "()V".toList,
          [.childWorkerCommand "ETL".toList (some ["-Xmx324m".toList])]⟩] :=
  (scanOrder_irrelevant_iff _ (by decide) (by decide)).2 (by decide)

/-- The default command stays when its class is found behind the application. -/
theorem scanOrder_relevant :
    let methods : List AnnotatedMethod :=
      [⟨"app.Main".toList, "main".toList, "()V".toList, [.supervisorMain]⟩,
        ⟨"spartan.test.Test".toList, "genetl".toList, "()V".toList,
          [.childWorkerCommand "GENETL".toList none]⟩]
    (methods.filter isApplicationMain).length ≤ 1 ∧ (methods.filter isTestMain).length ≤ 1 ∧
      ¬ ScanOrderIrrelevant methods := by
  intro methods
  refine ⟨by decide, by decide, ?_⟩
  intro h
  obtain ⟨s₁, s₂, hs₁, hs₂, -, -, hchild⟩ := h methods methods.reverse (List.Perm.refl _)
    (List.reverse_perm _)
  have hfirst : (scanMethods methods).map (fun s => s.spartanChildWorkerCmds.length) = some 1 := by
    decide +kernel
  have hsecond : (scanMethods methods.reverse).map (fun s => s.spartanChildWorkerCmds.length) =
      some 0 := by
    decide +kernel
  rw [hs₁, Option.map_some, Option.some.injEq] at hfirst
  rw [hs₂, Option.map_some, Option.some.injEq, ← hchild.length_eq, hfirst] at hsecond
  cases hsecond

end Spartan
