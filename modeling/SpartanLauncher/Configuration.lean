import Mathlib.Data.List.Induction
import SpartanLauncher.EntryPoints

/-!
# What the configuration sets

The entries of the configuration reach the handler in the order of the file. For each setting the
last entry counts, and what no entry sets is filled in behind them.

**Theorem (`entryPoints_take_effect_iff`).** The entry points are the wanted ones exactly when
there is no `SupervisorEntryPoint`, or it names the default: the handler tests its value before
the value is there.

**Theorem (`childProcessMaxCount_iff`).** The number of child processes is the wanted one exactly
when it is configured, and is not cut to another number of 16 bits.
-/

namespace Spartan

open CString

/-! ## The last entry of a setting -/

/-- The value of the last entry that `p` selects. -/
def lastValue (p : ConfigEntry → Bool) (entries : List ConfigEntry) : Option (List Char) :=
  ((entries.filter p).getLast?).map ConfigEntry.value

theorem exists_of_lastValue {p : ConfigEntry → Bool} {entries : List ConfigEntry}
    {value : List Char} (h : lastValue p entries = some value) :
    ∃ entry, p entry = true ∧ entry.value = value := by
  obtain ⟨entry, hlast, rfl⟩ := Option.map_eq_some_iff.1 h
  exact ⟨entry, (List.mem_filter.1 (List.mem_of_getLast? hlast)).2, rfl⟩

/-- What the entries selected by `p` set, and the others leave alone, has its last value. -/
theorem foldl_handleEntry {α : Type} (f : SessionState → α) (p : ConfigEntry → Bool)
    (g : List Char → α)
    (hstep : ∀ ss entry, f (ss.handleEntry entry) = if p entry then g entry.value else f ss)
    (entries : List ConfigEntry) (ss : SessionState) :
    f (entries.foldl SessionState.handleEntry ss) =
      ((lastValue p entries).map g).getD (f ss) := by
  induction entries using List.reverseRecOn with
  | nil => rfl
  | append_singleton entries entry ih =>
    rw [List.foldl_concat, hstep, ih, lastValue, lastValue, List.filter_append]
    split_ifs with hentry
    · rw [List.filter_cons_of_pos hentry, List.filter_nil, List.getLast?_concat]
      rfl
    · rw [List.filter_cons_of_neg hentry, List.filter_nil, List.append_nil]

/-! ## The entry points -/

inductive EntryPoint where
  | main
  | getStatus
  | supervisorShutdown
  | childNotify
  | childCompletionNotify
  | supervisor
  | childProcessor
  deriving DecidableEq

namespace EntryPoint

def sectionName : EntryPoint → List Char
  | childProcessor => "ChildProcessSettings".toList
  | _ => "SupervisorProcessSettings".toList

def settingName : EntryPoint → List Char
  | main => "MainEntryPoint".toList
  | getStatus => "GetStatusEntryPoint".toList
  | supervisorShutdown => "SupervisorShutdownEntryPoint".toList
  | childNotify => "ChildNotifyEntryPoint".toList
  | childCompletionNotify => "ChildCompletionNotifyEntryPoint".toList
  | supervisor => "SupervisorEntryPoint".toList
  | childProcessor => "ChildProcessorEntryPoint".toList

/-- What is appended to the value. -/
def suffix : EntryPoint → List Char
  | main => "/main".toList
  | _ => []

/-- The name of the method when there is no setting. The main entry point has none. -/
def defaultName : EntryPoint → List Char
  | main => []
  | getStatus => "status".toList
  | supervisorShutdown => "supervisorShutdown".toList
  | childNotify => "childProcessNotify".toList
  | childCompletionNotify => "childProcessCompletionNotify".toList
  | supervisor => "supervisorDoCommand".toList
  | childProcessor => "childWorkerDoCommand".toList

def field (ss : SessionState) : EntryPoint → MethodDescriptor
  | main => ss.spartanMainEntryPoint
  | getStatus => ss.spartanGetStatusEntryPoint
  | supervisorShutdown => ss.spartanSupervisorShutdownEntryPoint
  | childNotify => ss.spartanChildNotifyEntryPoint
  | childCompletionNotify => ss.spartanChildCompletionNotifyEntryPoint
  | supervisor => ss.spartanSupervisorEntryPoint
  | childProcessor => ss.spartanChildProcessorEntryPoint

def update (ss : SessionState) (md : MethodDescriptor) : EntryPoint → SessionState
  | main => { ss with spartanMainEntryPoint := md }
  | getStatus => { ss with spartanGetStatusEntryPoint := md }
  | supervisorShutdown => { ss with spartanSupervisorShutdownEntryPoint := md }
  | childNotify => { ss with spartanChildNotifyEntryPoint := md }
  | childCompletionNotify => { ss with spartanChildCompletionNotifyEntryPoint := md }
  | supervisor => { ss with spartanSupervisorEntryPoint := md }
  | childProcessor => { ss with spartanChildProcessorEntryPoint := md }

theorem field_update_of_ne {s t : EntryPoint} (h : s ≠ t) (ss : SessionState)
    (md : MethodDescriptor) : s.field (t.update ss md) = s.field ss := by
  cases s <;> cases t <;> first | rfl | exact absurd rfl h

theorem childProcessMaxCount_update (s : EntryPoint) (ss : SessionState) (md : MethodDescriptor) :
    (s.update ss md).childProcessMaxCount = ss.childProcessMaxCount := by
  cases s <;> rfl

/-- An entry for the setting. -/
def isFor (s : EntryPoint) (entry : ConfigEntry) : Bool :=
  strcasecmpEq entry.sectionName s.sectionName && strcasecmpEq entry.name s.settingName

/-- An entry that gives a value to the setting. -/
def isSetBy (s : EntryPoint) (entry : ConfigEntry) : Bool := s.isFor entry && !entry.value.isEmpty

/-- The class of the main entry point. -/
def configuredClass (entries : List ConfigEntry) : List Char :=
  ((lastValue main.isSetBy entries).map replaceDots).getD "spartan/SpartanBase".toList

/-- The wanted name. -/
def wantedName (s : EntryPoint) (entries : List ConfigEntry) : List Char :=
  ((lastValue s.isSetBy entries).map (replaceDots · ++ s.suffix)).getD
    (configuredClass entries ++ '/' :: s.defaultName)

end EntryPoint

/-- Every setting has its wanted name; the main entry point when it is configured. -/
def EntryPointsTakeEffect (entries : List ConfigEntry) (ss : SessionState) : Prop :=
  ∀ s : EntryPoint, (s = .main → (lastValue s.isSetBy entries).isSome = true) →
    (s.field ss).fullMethodName = s.wantedName entries

/-- An entry for `child_process_max_count`. -/
def isMaxCount (entry : ConfigEntry) : Bool :=
  strcasecmpEq entry.sectionName "ChildProcessSettings".toList &&
    strcasecmpEq entry.name "ChildProcessMaxCount".toList

/-! ### The handler -/

/-- **What the handler can do:** it updates an entry point, the number of child processes, or
texts that are taken as they are. -/
theorem handleEntry_cases (ss : SessionState) (entry : ConfigEntry) :
    (∃ s md, EntryPoint.isFor s entry = true ∧ ss.handleEntry entry = s.update ss md) ∨
    (∃ count, isMaxCount entry = true ∧
      ss.handleEntry entry = { ss with childProcessMaxCount := count }) ∨
    ∃ commands level, ss.handleEntry entry =
      { ss with spartanChildProcessorCommands := commands, spartanLoggingLevel := level } := by
  generalize heq : ss.handleEntry entry = ss'
  unfold SessionState.handleEntry at heq
  simp only at heq
  split_ifs at heq with hjvm hsupervisor h₁ h₂ h₃ h₄ h₅ h₆ hchild h₇ h₈
  all_goals subst heq
  · exact .inr (.inr ⟨_, _, rfl⟩)
  · exact .inl ⟨.main, _, Bool.and_eq_true_iff.2 ⟨hsupervisor, h₁⟩, rfl⟩
  · exact .inl ⟨.getStatus, _, Bool.and_eq_true_iff.2 ⟨hsupervisor, h₂⟩, rfl⟩
  · exact .inl ⟨.supervisorShutdown, _, Bool.and_eq_true_iff.2 ⟨hsupervisor, h₃⟩, rfl⟩
  · exact .inl ⟨.childNotify, _, Bool.and_eq_true_iff.2 ⟨hsupervisor, h₄⟩, rfl⟩
  · exact .inl ⟨.childCompletionNotify, _, Bool.and_eq_true_iff.2 ⟨hsupervisor, h₅⟩, rfl⟩
  · exact .inl ⟨.supervisor, _, Bool.and_eq_true_iff.2 ⟨hsupervisor, h₆⟩, rfl⟩
  · exact .inr (.inr ⟨_, _, rfl⟩)
  · exact .inr (.inl ⟨_, Bool.and_eq_true_iff.2 ⟨hchild, h₇⟩, rfl⟩)
  · exact .inl ⟨.childProcessor, _, Bool.and_eq_true_iff.2 ⟨hchild, h₈⟩, rfl⟩
  · exact .inr (.inr ⟨_, _, rfl⟩)
  · exact .inr (.inr ⟨_, _, rfl⟩)
  · exact .inr (.inr ⟨_, _, rfl⟩)
  · exact .inr (.inr ⟨_, _, rfl⟩)
  · exact .inr (.inr ⟨_, _, rfl⟩)

/-- A text that equals one name compares with another one as that name does. -/
theorem strcasecmpEq_congr {s t : List Char} (h : strcasecmpEq s t = true) (u : List Char) :
    strcasecmpEq s u = strcasecmpEq t u := by
  rw [strcasecmpEq_iff] at h
  rw [strcasecmpEq, strcasecmpEq, h]

theorem strcasecmpEq_of_length_ne {s t : List Char} (h : s.length ≠ t.length) :
    strcasecmpEq s t = false := by
  by_contra heq
  rw [Bool.not_eq_false, strcasecmpEq_iff] at heq
  exact h (by simpa using congrArg List.length heq)

/-- The names of the settings already differ in their length. -/
theorem length_settingName_injective {s t : EntryPoint}
    (h : s.settingName.length = t.settingName.length) : s = t := by
  cases s <;> cases t <;> first | rfl | exact absurd h (by decide)

theorem strcasecmpEq_settingName (s t : EntryPoint) :
    strcasecmpEq s.settingName t.settingName = decide (s = t) := by
  by_cases hst : s = t
  · rw [hst, decide_eq_true rfl, strcasecmpEq_iff]
  · rw [decide_eq_false hst]
    exact strcasecmpEq_of_length_ne fun h => hst (length_settingName_injective h)

/-- The sections of the settings. -/
theorem strcasecmpEq_sectionName (s : EntryPoint) :
    strcasecmpEq s.sectionName "JvmSettings".toList = false ∧
      strcasecmpEq s.sectionName "SupervisorProcessSettings".toList = decide (s ≠ .childProcessor) ∧
      (s = .childProcessor → strcasecmpEq s.sectionName "ChildProcessSettings".toList = true) := by
  cases s with
  | childProcessor =>
    exact ⟨strcasecmpEq_of_length_ne (by decide), strcasecmpEq_of_length_ne (by decide),
      fun _ => strcasecmpEq_iff.2 rfl⟩
  | _ =>
    exact ⟨strcasecmpEq_of_length_ne (by decide), strcasecmpEq_iff.2 rfl, fun h => by cases h⟩

theorem fullMethodName_setEntryPoint (md : MethodDescriptor)
    (value suffix descriptor : List Char) (isStatic : Bool) (which : WhichMethod) :
    (setEntryPoint md value suffix descriptor isStatic which).fullMethodName =
      if !value.isEmpty then replaceDots value ++ suffix else md.fullMethodName := by
  cases value with
  | nil => rfl
  | cons c value => rfl

/-- An entry of another setting leaves the entry point alone. -/
theorem field_handleEntry_of_not {s : EntryPoint} {entry : ConfigEntry}
    (hfor : s.isFor entry = false) (ss : SessionState) :
    s.field (ss.handleEntry entry) = s.field ss := by
  rcases handleEntry_cases ss entry with ⟨t, md, ht, heq⟩ | ⟨count, -, heq⟩ | ⟨commands, level, heq⟩
  · have hne : s ≠ t := by
      rintro rfl
      exact absurd hfor (by simp [ht])
    rw [heq, EntryPoint.field_update_of_ne hne]
  · rw [heq]
    cases s <;> rfl
  · rw [heq]
    cases s <;> rfl

open EntryPoint in
/-- **The handler** sets each of the entry points but the one of the supervisor. -/
theorem fullMethodName_handleEntry (s : EntryPoint) (ss : SessionState) (entry : ConfigEntry) :
    (s.field (ss.handleEntry entry)).fullMethodName =
      if s.isSetBy entry && s ≠ supervisor then replaceDots entry.value ++ s.suffix
      else (s.field ss).fullMethodName := by
  cases hfor : s.isFor entry with
  | false =>
    rw [field_handleEntry_of_not hfor ss, isSetBy, hfor]
    rfl
  | true =>
    have hset : s.isSetBy entry = !entry.value.isEmpty := by rw [isSetBy, hfor, Bool.true_and]
    obtain ⟨hsection, hname⟩ := Bool.and_eq_true_iff.1 hfor
    obtain ⟨hjvm, hsupervisor, hchild⟩ := strcasecmpEq_sectionName s
    rw [← strcasecmpEq_congr hsection] at hjvm hsupervisor hchild
    have hsetting (t : EntryPoint) : strcasecmpEq entry.name t.settingName = decide (s = t) :=
      (strcasecmpEq_congr hname _).trans (strcasecmpEq_settingName s t)
    have hmain : strcasecmpEq entry.name "MainEntryPoint".toList = _ := hsetting main
    have hstatus : strcasecmpEq entry.name "GetStatusEntryPoint".toList = _ := hsetting getStatus
    have hshutdown : strcasecmpEq entry.name "SupervisorShutdownEntryPoint".toList = _ :=
      hsetting supervisorShutdown
    have hnotify : strcasecmpEq entry.name "ChildNotifyEntryPoint".toList = _ :=
      hsetting childNotify
    have hcompletion : strcasecmpEq entry.name "ChildCompletionNotifyEntryPoint".toList = _ :=
      hsetting childCompletionNotify
    unfold SessionState.handleEntry
    simp only [hjvm, hsupervisor, hmain, hstatus, hshutdown, hnotify, hcompletion, hset]
    have hvalue := fullMethodName_setEntryPoint (s.field ss) entry.value
    cases s with
    | supervisor =>
      simp only [ne_eq, reduceCtorEq, not_true_eq_false, not_false_eq_true, decide_true,
        decide_false, Bool.and_false, Bool.false_eq_true, if_true, if_false]
      -- the value that is tested is empty
      split_ifs
      · rfl
      · rfl
    | childProcessor =>
      have hcount : strcasecmpEq entry.name "ChildProcessMaxCount".toList = false :=
        (strcasecmpEq_congr hname _).trans (strcasecmpEq_of_length_ne (by decide))
      have hprocessor : strcasecmpEq entry.name "ChildProcessorEntryPoint".toList = true := hname
      simp only [hchild rfl, hcount, hprocessor, ne_eq, reduceCtorEq, not_true_eq_false,
        not_false_eq_true, decide_true, decide_false, Bool.and_true, Bool.false_eq_true, if_true,
        if_false]
      exact hvalue _ _ _ _
    | _ =>
      simp only [ne_eq, reduceCtorEq, not_false_eq_true, decide_true, decide_false,
        Bool.and_true, Bool.false_eq_true, if_true, if_false]
      exact hvalue _ _ _ _

/-- Behind all entries. The entry point of the supervisor is still open. -/
theorem fullMethodName_foldl (jvmlibPath : List Char) (entries : List ConfigEntry)
    (s : EntryPoint) :
    (s.field (entries.foldl SessionState.handleEntry { jvmlibPath })).fullMethodName =
      if s = .supervisor then []
      else ((lastValue s.isSetBy entries).map (replaceDots · ++ s.suffix)).getD [] := by
  rw [foldl_handleEntry (fun ss => (s.field ss).fullMethodName)
    (fun entry => s.isSetBy entry && s ≠ .supervisor) (replaceDots · ++ s.suffix)
    (fullMethodName_handleEntry s)]
  have hopen : (s.field { jvmlibPath }).fullMethodName = [] := by cases s <;> rfl
  rw [hopen]
  by_cases hs : s = .supervisor
  · have hnone : lastValue (fun entry => s.isSetBy entry && s ≠ .supervisor) entries = none := by
      simp [lastValue, hs]
    rw [if_pos hs, hnone]
    rfl
  · have hsame : (fun entry => s.isSetBy entry && s ≠ .supervisor) = s.isSetBy := by
      funext entry
      simp [hs]
    rw [if_neg hs, hsame]

/-! ### The defaults -/

theorem replaceDots_replaceDots (s : List Char) : replaceDots (replaceDots s) = replaceDots s := by
  rw [replaceDots, replaceDots, List.map_map]
  refine List.map_congr_left fun c _ => ?_
  by_cases hc : c = '.'
  · simp [hc]
  · simp [hc]

theorem splitMethodName_append {methodName : List Char} (hne : methodName ≠ [])
    (hslash : '/' ∉ methodName) (className : List Char) :
    splitMethodName (className ++ '/' :: methodName) = some (className, methodName) := by
  have hpos : ∀ c ∈ methodName.reverse, decide (c ≠ '/') = true := fun c hc => by
    simpa using fun h : c = '/' => hslash (h ▸ List.mem_reverse.1 hc)
  have hreverse : (className ++ '/' :: methodName).reverse =
      methodName.reverse ++ '/' :: className.reverse := by simp
  rw [splitMethodName, hreverse, List.dropWhile_append_of_pos hpos,
    List.takeWhile_append_of_pos hpos]
  simp [hne]

/-- The class that the constructor takes out of the main entry point. -/
theorem className_foldl (jvmlibPath : List Char) (entries : List ConfigEntry) :
    (entries.foldl SessionState.handleEntry { jvmlibPath }).className =
      EntryPoint.configuredClass entries := by
  have hmain := fullMethodName_foldl jvmlibPath entries .main
  rw [if_neg (by decide)] at hmain
  change (SessionState.spartanMainEntryPoint _).fullMethodName = _ at hmain
  unfold SessionState.className EntryPoint.configuredClass
  rw [hmain]
  cases hlast : lastValue EntryPoint.main.isSetBy entries with
  | none => rfl
  | some value =>
    obtain ⟨entry, hset, rfl⟩ := exists_of_lastValue hlast
    have hvalue : replaceDots entry.value ≠ [] := by
      simp only [EntryPoint.isSetBy, Bool.and_eq_true] at hset
      simpa [replaceDots] using hset.2
    have hsplit := @splitMethodName_append "main".toList (by decide) (by decide)
      (replaceDots entry.value)
    have hclass : ((splitMethodName (replaceDots entry.value ++ EntryPoint.main.suffix)).map
        Prod.fst).getD [] = replaceDots entry.value :=
      congrArg (fun split => (split.map Prod.fst).getD []) hsplit
    simp only [Option.map_some, Option.getD_some, hclass, replaceDots_replaceDots]
    rw [if_neg (by simpa using hvalue)]

theorem fullMethodName_defaultEntryPoint (md : MethodDescriptor)
    (className name descriptor : List Char) (isStatic : Bool) (which : WhichMethod) :
    (defaultEntryPoint md className name descriptor isStatic which).fullMethodName =
      if md.fullMethodName.isEmpty then className ++ '/' :: name else md.fullMethodName := by
  unfold defaultEntryPoint
  split_ifs
  · rfl
  · rfl

/-- The constructor fills in what is open, but for the main entry point. -/
theorem fullMethodName_sessionState {jvmlibPath : List Char} {entries : List ConfigEntry}
    {ss : SessionState} (h : sessionState jvmlibPath entries = .ok ss) {s : EntryPoint}
    (hs : s ≠ .main) :
    (s.field ss).fullMethodName =
      if (s.field (entries.foldl SessionState.handleEntry { jvmlibPath })).fullMethodName.isEmpty
      then EntryPoint.configuredClass entries ++ '/' :: s.defaultName
      else (s.field (entries.foldl SessionState.handleEntry { jvmlibPath })).fullMethodName := by
  have hclass := className_foldl jvmlibPath entries
  unfold sessionState at h
  simp only at h
  split_ifs at h
  cases h
  rw [← hclass]
  cases s with
  | main => exact absurd rfl hs
  | _ => exact fullMethodName_defaultEntryPoint _ _ _ _ _ _

theorem main_sessionState {jvmlibPath : List Char} {entries : List ConfigEntry}
    {ss : SessionState} (h : sessionState jvmlibPath entries = .ok ss) :
    EntryPoint.main.field ss =
      EntryPoint.main.field (entries.foldl SessionState.handleEntry { jvmlibPath }) := by
  unfold sessionState at h
  simp only at h
  split_ifs at h
  cases h
  rfl

/-- An entry point with a value, or with a default, is the wanted one. -/
theorem wantedName_of_ne {jvmlibPath : List Char} {entries : List ConfigEntry}
    {ss : SessionState} (h : sessionState jvmlibPath entries = .ok ss) {s : EntryPoint}
    (hs : s ≠ .supervisor) (hmain : s = .main → (lastValue s.isSetBy entries).isSome = true) :
    (s.field ss).fullMethodName = s.wantedName entries := by
  have hfold := fullMethodName_foldl jvmlibPath entries s
  rw [if_neg hs] at hfold
  unfold EntryPoint.wantedName
  cases hlast : lastValue s.isSetBy entries with
  | none =>
    rw [hlast] at hfold hmain
    have hne : s ≠ .main := fun heq => by simpa using hmain heq
    rw [fullMethodName_sessionState h hne, hfold]
    rfl
  | some value =>
    rw [hlast, Option.map_some, Option.getD_some] at hfold
    rw [Option.map_some, Option.getD_some]
    by_cases heq : s = .main
    · subst heq
      rw [main_sessionState h, hfold]
    · obtain ⟨entry, hset, rfl⟩ := exists_of_lastValue hlast
      have hvalue : entry.value ≠ [] := by
        simp only [EntryPoint.isSetBy, Bool.and_eq_true] at hset
        simpa using hset.2
      rw [fullMethodName_sessionState h heq, hfold, if_neg (by simp [replaceDots, hvalue])]

/-- **The entry points** are the wanted ones exactly when there is no value for the one of the
supervisor, or the value names the default. -/
theorem entryPoints_take_effect_iff {jvmlibPath : List Char} {entries : List ConfigEntry}
    {ss : SessionState} (h : sessionState jvmlibPath entries = .ok ss) :
    EntryPointsTakeEffect entries ss ↔
      ∀ value, lastValue EntryPoint.supervisor.isSetBy entries = some value →
        replaceDots value =
          EntryPoint.configuredClass entries ++ "/supervisorDoCommand".toList := by
  have hopen := fullMethodName_foldl jvmlibPath entries .supervisor
  rw [if_pos rfl] at hopen
  have hsupervisor := fullMethodName_sessionState h (s := .supervisor) (by decide)
  rw [hopen, if_pos List.isEmpty_nil] at hsupervisor
  refine ⟨?_, ?_⟩
  · intro heffect value hlast
    have hwanted := heffect .supervisor (fun heq => by cases heq)
    rw [hsupervisor, EntryPoint.wantedName, hlast, Option.map_some, Option.getD_some] at hwanted
    exact (List.append_nil _).symm.trans hwanted.symm
  · intro hdefault s hmain
    by_cases hs : s = .supervisor
    · subst hs
      rw [hsupervisor, EntryPoint.wantedName]
      cases hlast : lastValue EntryPoint.supervisor.isSetBy entries with
      | none => rfl
      | some value =>
        rw [Option.map_some, Option.getD_some, hdefault value hlast]
        exact (List.append_nil _).symm
    · exact wantedName_of_ne h hs hmain

/-- A configuration with an entry point of the supervisor. -/
def supervisorEntry (value : String) : ConfigEntry where
  sectionName := "SupervisorProcessSettings".toList
  name := "SupervisorEntryPoint".toList
  value := value.toList

theorem entryPoints_take_effect_default :
    ∃ ss, sessionState [] [supervisorEntry "spartan.SpartanBase.supervisorDoCommand"] = .ok ss ∧
      (EntryPointsTakeEffect [supervisorEntry "spartan.SpartanBase.supervisorDoCommand"] ss ↔
        ∀ value, lastValue EntryPoint.supervisor.isSetBy
          [supervisorEntry "spartan.SpartanBase.supervisorDoCommand"] = some value →
          replaceDots value = EntryPoint.configuredClass
            [supervisorEntry "spartan.SpartanBase.supervisorDoCommand"] ++
              "/supervisorDoCommand".toList) :=
  ⟨_, rfl, entryPoints_take_effect_iff rfl⟩

/-- The entry point of the supervisor stays the default. -/
theorem entryPoints_supervisor_ignored :
    ¬ ∀ jvmlibPath entries ss, sessionState jvmlibPath entries = .ok ss →
      EntryPointsTakeEffect entries ss := by
  intro h
  have heffect := h [] [supervisorEntry "app.Main.run"] _ rfl .supervisor (fun heq => by cases heq)
  exact absurd heffect (by decide)

/-! ## The number of child processes -/

/-- The numbers of the field. -/
def FitsShort (n : ℤ) : Prop := -2 ^ 15 ≤ n ∧ n < 2 ^ 15

instance (n : ℤ) : Decidable (FitsShort n) := inferInstanceAs (Decidable (_ ∧ _))

/-- The wanted number: the default, unless the last value is a number that fits. -/
def wantedMaxCount (entries : List ConfigEntry) : ℤ :=
  (((lastValue isMaxCount entries).bind stoi).filter FitsShort).getD 40

theorem childProcessMaxCount_handleEntry (ss : SessionState) (entry : ConfigEntry) :
    (ss.handleEntry entry).childProcessMaxCount =
      if isMaxCount entry then ((stoi entry.value).map Int16.ofInt).getD 40
      else ss.childProcessMaxCount := by
  cases hfor : isMaxCount entry with
  | false =>
    rcases handleEntry_cases ss entry with ⟨s, md, -, heq⟩ | ⟨count, h, -⟩ | ⟨commands, level, heq⟩
    · rw [heq, EntryPoint.childProcessMaxCount_update]
      rfl
    · rw [hfor] at h
      cases h
    · rw [heq]
      rfl
  | true =>
    obtain ⟨hsection, hname⟩ := Bool.and_eq_true_iff.1 hfor
    have hjvm : strcasecmpEq entry.sectionName "JvmSettings".toList = false :=
      (strcasecmpEq_congr hsection _).trans (strcasecmpEq_of_length_ne (by decide))
    have hsupervisor : strcasecmpEq entry.sectionName "SupervisorProcessSettings".toList = false :=
      (strcasecmpEq_congr hsection _).trans (strcasecmpEq_of_length_ne (by decide))
    simp only [SessionState.handleEntry, hjvm, hsupervisor, hsection, hname, Bool.false_eq_true,
      if_true, if_false]

theorem childProcessMaxCount_sessionState {jvmlibPath : List Char} {entries : List ConfigEntry}
    {ss : SessionState} (h : sessionState jvmlibPath entries = .ok ss) :
    ss.childProcessMaxCount =
      ((lastValue isMaxCount entries).map fun value =>
        ((stoi value).map Int16.ofInt).getD 40).getD 0 := by
  have hfold := foldl_handleEntry SessionState.childProcessMaxCount isMaxCount
    (fun value => ((stoi value).map Int16.ofInt).getD 40) childProcessMaxCount_handleEntry entries
    { jvmlibPath }
  unfold sessionState at h
  simp only at h
  split_ifs at h
  cases h
  exact hfold

/-- A number of 16 bits is what is left of `n`. -/
theorem toInt_ofInt_eq_iff (n : ℤ) :
    (Int16.ofInt n).toInt = (if FitsShort n then n else 40) ↔ FitsShort n ∨ n % 2 ^ 16 = 40 := by
  rw [Int16.toInt_ofInt, Int.bmod_def]
  unfold FitsShort
  push_cast
  split_ifs <;> omega

/-- **The number of child processes** is the wanted one exactly when it is configured, and fits or
happens to be cut to the default. -/
theorem childProcessMaxCount_iff {jvmlibPath : List Char} {entries : List ConfigEntry}
    {ss : SessionState} (h : sessionState jvmlibPath entries = .ok ss) :
    ss.childProcessMaxCount.toInt = wantedMaxCount entries ↔
      ∃ value, lastValue isMaxCount entries = some value ∧
        ∀ n, stoi value = some n → FitsShort n ∨ n % 2 ^ 16 = 40 := by
  rw [childProcessMaxCount_sessionState h, wantedMaxCount]
  cases lastValue isMaxCount entries with
  | none => simp
  | some value =>
    simp only [Option.map_some, Option.getD_some, Option.bind_some, Option.some.injEq,
      exists_eq_left']
    cases stoi value with
    | none => simp
    | some n =>
      have hn := toInt_ofInt_eq_iff n
      simp only [Option.map_some, Option.getD_some, Option.some.injEq, forall_eq']
      rw [← hn, Option.filter_some]
      by_cases hfits : FitsShort n
      · rw [if_pos hfits, if_pos (by simpa using hfits), Option.getD_some]
      · rw [if_neg hfits, if_neg (by simpa using hfits), Option.getD_none]

def maxCountEntry (value : String) : ConfigEntry where
  sectionName := "ChildProcessSettings".toList
  name := "ChildProcessMaxCount".toList
  value := value.toList

theorem childProcessMaxCount_thirty :
    ∃ ss, sessionState [] [maxCountEntry "30"] = .ok ss ∧
      (ss.childProcessMaxCount.toInt = wantedMaxCount [maxCountEntry "30"] ↔
        ∃ value, lastValue isMaxCount [maxCountEntry "30"] = some value ∧
          ∀ n, stoi value = some n → FitsShort n ∨ n % 2 ^ 16 = 40) :=
  ⟨_, rfl, childProcessMaxCount_iff rfl⟩

/-- A number beyond 16 bits is cut to another one. -/
theorem childProcessMaxCount_cut :
    ¬ ∀ jvmlibPath entries ss, sessionState jvmlibPath entries = .ok ss →
      ss.childProcessMaxCount.toInt = wantedMaxCount entries := by
  intro h
  have hcount := h [] [maxCountEntry "70000"] _ rfl
  exact absurd hcount (by decide)

end Spartan
