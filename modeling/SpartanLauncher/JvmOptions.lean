import Mathlib.Data.List.ReduceOption
import SpartanLauncher.Lib.CString
import SpartanLauncher.Lib.KeepFirst

/-!
# The options of the JVM

`create_jvm` parses the override options of a sub-command in front of the default options,
removes what it takes for duplicates, and builds the array for `JNI_CreateJavaVM`.

* `consolidateJvmOptions`: two loops over the array, one that overwrites duplicates with null
  pointers, and one that moves the other entries to the front.
* `setJavaVMOptions`: three options of its own, and the arguments behind them; two kinds of
  arguments are consumed here.

**Theorem (`consolidateJvmOptions_eq`).** The entries that are left are the first ones of their
prefix.

**Theorem (`createJvm_eq`).** The array has the class path, the two hooks, and behind them the
arguments that are left and not consumed.
-/

namespace Spartan

open CString KeepFirst

/-! ## Consolidation -/

/-- `char_set`. -/
def prefixEnd : List Char := "=:0123456789".toList

/-- What an option is recognized by: its text in front of the first character of `char_set`. -/
def optionPrefix (arg : List Char) : List Char := arg.takeWhile (· ∉ prefixEnd)

/-- The first loop: an option whose prefix is known already is overwritten. -/
def markDuplicates (jvmOptionsPrefixes : List (List Char)) : List (List Char) → Argv
  | [] => []
  | arg :: args =>
    if jvmOptionsPrefixes.contains (optionPrefix arg) then
      none :: markDuplicates jvmOptionsPrefixes args
    else some arg :: markDuplicates (optionPrefix arg :: jvmOptionsPrefixes) args

/-- The second loop, with the number of iterations at most; `j` grows in each of them. -/
def compact (argc : ℕ) : ℕ → ℕ → ℕ → Argv → Argv
  | 0, _, _, argv => argv
  | fuel + 1, i, j, argv =>
    if i < argc - 1 ∧ j < argc then
      match argv.getD i none, argv.getD j none with
      | none, some next => compact argc fuel (i + 1) (j + 1) ((argv.set i (some next)).set j none)
      | none, none => compact argc fuel i (j + 1) argv
      | some _, _ => compact argc fuel (i + 1) (j + 1) argv
    else argv

/-- `consolidate_jvm_options`: the result, the new `argc`, and the array. -/
def consolidateJvmOptions (args : List (List Char)) : Bool × ℕ × Argv :=
  let argc := args.length
  if argc < 2 then (false, argc, args.map some)
  else
    let argv := markDuplicates [] args
    let removedCount := argv.count none
    if 0 < removedCount then (true, argc - removedCount, compact argc argc 0 1 argv)
    else (false, argc, argv)

/-! ## The array -/

inductive JvmHook where
  | exiting
  | aborting
  deriving DecidableEq

structure JavaVMOption where
  optionString : Option (List Char) := none
  extraInfo : Option JvmHook := none
  deriving DecidableEq

def jvmClasspathOptn : List Char := "-Djava.class.path=".toList
def setCwdOptn : List Char := "-Duser.dir=".toList
def userClasspath : List Char := ".".toList
def pathSeparator : Char := ':'
def baseOptns : ℕ := 3

/-- `get_java_classpath`, with the value of `CLASSPATH`. -/
def getJavaClasspath (classpath : List Char) : List Char :=
  jvmClasspathOptn ++
    if classpath.isEmpty then userClasspath
    else if classpath.head? = userClasspath.head? then classpath
    else userClasspath ++ pathSeparator :: classpath

def isClasspathOption (arg : List Char) : Bool :=
  strncmpEq arg jvmClasspathOptn jvmClasspathOptn.length

def isSetCwdOption (arg : List Char) : Bool := strncmpEq arg setCwdOptn setCwdOptn.length

/-- The local state of the loop of `set_JavaVMOptions`. -/
structure OptionsState where
  n : ℕ := baseOptns
  j : ℕ := 0
  options : List JavaVMOption
  /-- The directories that were passed to `chdir`. -/
  cwds : List (List Char) := []
  deriving DecidableEq

/-- One iteration of the loop. -/
def OptionsState.next (s : OptionsState) (currArg : List Char) : OptionsState :=
  let options := s.options.set (s.j + baseOptns) {}
  if isClasspathOption currArg then
    { s with options := options.set 0 { optionString := some currArg } }
  else if isSetCwdOption currArg then
    { s with
      options
      cwds := if setCwdOptn.length < currArg.length then
          s.cwds ++ [currArg.drop setCwdOptn.length] else s.cwds }
  else
    { s with
      n := s.n + 1
      j := s.j + 1
      options := options.set (s.j + baseOptns) { optionString := some currArg } }

/-- The options that `set_JavaVMOptions` starts with, in an array of `count` null entries. -/
def initOptions (classpath : List Char) (count : ℕ) : OptionsState :=
  { options := (((List.replicate count ({} : JavaVMOption)).set 0
      { optionString := some (getJavaClasspath classpath) }).set 1
      { optionString := some "exit".toList, extraInfo := some .exiting }).set 2
      { optionString := some "abort".toList, extraInfo := some .aborting } }

/-- `set_JavaVMOptions`. `none` stands for a null pointer passed to `strncmp`. -/
def setJavaVMOptions (classpath : List Char) (argc : ℕ) (argv : Argv) : Option OptionsState :=
  (argv.take argc).foldlM (fun s entry => entry.map s.next)
    (initOptions classpath (argc + baseOptns))

/-! ## Creating the JVM -/

/-- The text that is parsed: the override options come first. -/
def cmdLineArgs (jvmOverrideOptns jvmCmdLineArgs : List Char) : List Char :=
  (if jvmOverrideOptns.isEmpty then [] else jvmOverrideOptns ++ [' ']) ++ jvmCmdLineArgs

/-- `create_jvm`, with `popt` for `poptParseArgvString`: the array of options that is passed to
`JNI_CreateJavaVM`. -/
def createJvm (popt : List Char → Option (List (List Char)))
    (classpath jvmOverrideOptns jvmCmdLineArgs : List Char) : Option (List JavaVMOption) :=
  (popt (cmdLineArgs jvmOverrideOptns jvmCmdLineArgs)).bind fun args =>
    let (_, argc, argv) := consolidateJvmOptions args
    (setJavaVMOptions classpath argc argv).map fun s => s.options.take s.n

/-! ## What consolidation leaves -/

theorem reduceOption_markDuplicates (prefixes : List (List Char)) (args : List (List Char)) :
    (markDuplicates prefixes args).reduceOption = keepFirst optionPrefix prefixes args := by
  induction args generalizing prefixes with
  | nil => rfl
  | cons arg args ih =>
    unfold markDuplicates keepFirst
    simp only [List.contains_iff_mem]
    split_ifs
    · rw [List.reduceOption_cons_of_none, ih]
    · rw [List.reduceOption_cons_of_some, ih]

@[simp] theorem length_markDuplicates (prefixes : List (List Char)) (args : List (List Char)) :
    (markDuplicates prefixes args).length = args.length := by
  induction args generalizing prefixes with
  | nil => rfl
  | cons arg args ih =>
    unfold markDuplicates
    split_ifs
    · rw [List.length_cons, List.length_cons, ih]
    · rw [List.length_cons, List.length_cons, ih]

/-- The null entries make up for the ones that are left. -/
theorem count_none_add (argv : Argv) :
    argv.count none + argv.reduceOption.length = argv.length := by
  induction argv with
  | nil => rfl
  | cons entry argv ih =>
    cases entry with
    | none =>
      rw [List.count_cons_self, List.reduceOption_cons_of_none, List.length_cons]
      omega
    | some arg =>
      rw [List.count_cons_of_ne (by simp), List.reduceOption_cons_of_some, List.length_cons,
        List.length_cons]
      omega

theorem map_some_reduceOption {argv : Argv} (h : none ∉ argv) :
    argv.reduceOption.map some = argv := by
  induction argv with
  | nil => rfl
  | cons entry argv ih =>
    rw [List.mem_cons, not_or] at h
    cases entry with
    | none => exact absurd rfl h.1
    | some arg => rw [List.reduceOption_cons_of_some, List.map_cons, ih h.2]

/-- Moving an entry from behind the gap to its start. -/
theorem set_set_gap (moved : List (List Char)) (gap : ℕ) (arg : List Char) (rest : Argv) :
    ((moved.map some ++ (List.replicate (gap + 1) none ++ some arg :: rest)).set moved.length
      (some arg)).set (moved.length + (gap + 1)) none =
        (moved ++ [arg]).map some ++ (List.replicate (gap + 1) none ++ rest) := by
  have hfirst : (moved.map some ++ (List.replicate (gap + 1) none ++ some arg :: rest)).set
      moved.length (some arg) =
      (moved.map some ++ some arg :: List.replicate gap none) ++ some arg :: rest := by
    simp [List.replicate_succ]
  have hlength : (moved.map some ++ some arg :: List.replicate gap none).length =
      moved.length + (gap + 1) := by
    simp
  rw [hfirst, ← hlength, List.set_append_right _ _ le_rfl, Nat.sub_self, List.set_cons_zero,
    List.replicate_succ']
  simp

/-- The invariant while there is a gap: `i` is at its start, `j` behind its end. -/
theorem compact_gap {argc fuel : ℕ} (moved : List (List Char)) (gap : ℕ) (rest : Argv)
    (hargc : argc = moved.length + (gap + 1) + rest.length) (hfuel : rest.length ≤ fuel) :
    compact argc fuel moved.length (moved.length + (gap + 1))
      (moved.map some ++ (List.replicate (gap + 1) none ++ rest)) =
        (moved ++ rest.reduceOption).map some ++
          List.replicate (gap + 1 + rest.count none) none := by
  induction rest generalizing moved gap fuel with
  | nil =>
    rw [List.length_nil] at hargc
    cases fuel with
    | zero => simp [compact]
    | succ fuel =>
      rw [compact, if_neg (by omega)]
      simp
  | cons entry rest ih =>
    cases fuel with
    | zero => simp at hfuel
    | succ fuel =>
      rw [List.length_cons] at hargc hfuel
      have hcurr : (moved.map some ++ (List.replicate (gap + 1) none ++ entry :: rest)).getD
          moved.length none = none := by
        simp [List.getD_eq_getElem?_getD, List.replicate_succ]
      have hnext : (moved.map some ++ (List.replicate (gap + 1) none ++ entry :: rest)).getD
          (moved.length + (gap + 1)) none = entry := by
        simp [List.getD_eq_getElem?_getD]
      rw [compact, if_pos (by omega), hcurr, hnext]
      cases entry with
      | none =>
        -- the gap grows
        have ih := ih moved (gap + 1) (by omega) (Nat.le_of_succ_le_succ hfuel)
        rw [List.replicate_succ', List.append_assoc, List.singleton_append] at ih
        have hnone : gap + 1 + (rest.count none + 1) = gap + 1 + 1 + rest.count none := by omega
        rw [List.reduceOption_cons_of_none, List.count_cons_self, hnone]
        exact ih
      | some arg =>
        have ih := ih (moved ++ [arg]) gap (by simp; omega) (Nat.le_of_succ_le_succ hfuel)
        have hindex : (moved ++ [arg]).length = moved.length + 1 := by simp
        rw [hindex, Nat.add_right_comm, List.append_assoc, List.singleton_append] at ih
        rw [List.reduceOption_cons_of_some, List.count_cons_of_ne (by simp)]
        simp only [set_set_gap]
        exact ih

/-- The invariant before the first gap: `j` is next to `i`. -/
theorem compact_full {argc : ℕ} (moved : List (List Char)) (rest : Argv) (fuel : ℕ)
    (hargc : argc = moved.length + rest.length) (hfuel : rest.length ≤ fuel + 1) :
    compact argc fuel moved.length (moved.length + 1) (moved.map some ++ rest) =
        (moved ++ rest.reduceOption).map some ++ List.replicate (rest.count none) none := by
  induction rest generalizing moved fuel with
  | nil =>
    rw [List.length_nil] at hargc
    cases fuel with
    | zero => simp [compact]
    | succ fuel =>
      rw [compact, if_neg (by omega)]
      simp
  | cons entry rest ih =>
    rw [List.length_cons] at hargc hfuel
    cases entry with
    | none =>
      have hgap : compact argc fuel _ _ _ = _ := compact_gap moved 0 rest (by omega) (by omega)
      have hnone : rest.count none + 1 = 0 + 1 + rest.count none := by omega
      rw [List.reduceOption_cons_of_none, List.count_cons_self, hnone]
      exact hgap
    | some arg =>
      cases fuel with
      | zero =>
        have hrest : rest = [] := by
          rw [← List.length_eq_zero_iff]
          omega
        subst hrest
        simp [compact]
      | succ fuel =>
        have hcurr : (moved.map some ++ some arg :: rest).getD moved.length none = some arg := by
          simp [List.getD_eq_getElem?_getD]
        rw [List.reduceOption_cons_of_some, List.count_cons_of_ne (by simp), compact, hcurr]
        split_ifs with hloop
        · have ih := ih (moved ++ [arg]) fuel (by simp; omega) (by omega)
          have hindex : (moved ++ [arg]).length = moved.length + 1 := by simp
          rw [hindex, List.append_assoc, List.singleton_append] at ih
          rw [← ih]
          simp
        · have hrest : rest = [] := by
            rw [← List.length_eq_zero_iff]
            omega
          subst hrest
          simp

/-- **Consolidation:** the first options of their prefix are left, in front of null pointers, and
the result tells whether that are fewer than before. -/
theorem consolidateJvmOptions_eq (args : List (List Char)) :
    consolidateJvmOptions args =
      let kept := keepFirst optionPrefix [] args
      (decide (kept.length < args.length), kept.length,
        kept.map some ++ List.replicate (args.length - kept.length) none) := by
  have hcount := count_none_add (markDuplicates [] args)
  rw [reduceOption_markDuplicates, length_markDuplicates] at hcount
  have hcompact := compact_full [] (markDuplicates [] args) args.length (by simp; rfl)
    (by simp)
  rw [reduceOption_markDuplicates] at hcompact
  simp only [List.length_nil, List.map_nil, List.nil_append, Nat.zero_add] at hcompact
  simp only [consolidateJvmOptions]
  split_ifs with hshort hremoved
  · -- a single argument is the first one
    rcases args with _ | ⟨arg, _ | ⟨_, rest⟩⟩
    · rfl
    · simp [keepFirst]
    · rw [List.length_cons, List.length_cons] at hshort
      omega
  · rw [hcompact]
    refine Prod.ext (by simp; omega) (Prod.ext (by simp only; omega) ?_)
    simp only
    congr 2
    omega
  · -- nothing was removed
    have hlength : (keepFirst optionPrefix [] args).length = args.length := by omega
    have hnone : (none : Option (List Char)) ∉ markDuplicates [] args := by
      rw [← List.count_eq_zero]
      omega
    have hfull := map_some_reduceOption hnone
    rw [reduceOption_markDuplicates] at hfull
    simp [hlength, hfull]

/-! ## What the array holds -/

def plainOption (arg : List Char) : JavaVMOption := { optionString := some arg }

/-- An argument that is passed on as it is. -/
def isPassedOn (arg : List Char) : Bool := !isClasspathOption arg && !isSetCwdOption arg

/-- The hooks that every JVM gets. -/
def hookOptions : List JavaVMOption :=
  [{ optionString := some "exit".toList, extraInfo := some .exiting },
    { optionString := some "abort".toList, extraInfo := some .aborting }]

/-- The last class path among the arguments, or the default. -/
def classpathOption (classpath : List Char) (args : List (List Char)) : JavaVMOption :=
  plainOption ((args.filter isClasspathOption).getLastD (getJavaClasspath classpath))

/-- The state of the loop behind `passed` and a class path, with `free` entries left. -/
def optionsState (first : List Char) (passed : List (List Char)) (free : ℕ)
    (cwds : List (List Char)) : OptionsState where
  n := passed.length + baseOptns
  j := passed.length
  options := plainOption first :: hookOptions ++ (passed.map plainOption ++ List.replicate free {})
  cwds := cwds

theorem initOptions_eq (classpath : List Char) (argc : ℕ) :
    initOptions classpath (argc + baseOptns) =
      optionsState (getJavaClasspath classpath) [] argc [] := rfl

theorem set_free (first : List Char) (passed : List (List Char)) (free : ℕ)
    (cwds : List (List Char)) (option : JavaVMOption) :
    (optionsState first passed (free + 1) cwds).options.set (passed.length + baseOptns) option =
      plainOption first :: hookOptions ++
        (passed.map plainOption ++ option :: List.replicate free {}) := by
  simp [optionsState, hookOptions, baseOptns, List.replicate_succ]

/-- One iteration, as long as there is a free entry. -/
theorem next_optionsState (first : List Char) (passed : List (List Char)) (free : ℕ)
    (cwds : List (List Char)) (arg : List Char) :
    ∃ cwds', (optionsState first passed (free + 1) cwds).next arg =
      if isClasspathOption arg then optionsState arg passed (free + 1) cwds'
      else if isSetCwdOption arg then optionsState first passed (free + 1) cwds'
      else optionsState first (passed ++ [arg]) free cwds' := by
  have hnull : (optionsState first passed (free + 1) cwds).options.set
      ((optionsState first passed (free + 1) cwds).j + baseOptns) {} =
      (optionsState first passed (free + 1) cwds).options := set_free first passed free cwds {}
  simp only [OptionsState.next, hnull]
  by_cases hclasspath : isClasspathOption arg = true
  · exact ⟨cwds, by rw [if_pos hclasspath, if_pos hclasspath]; rfl⟩
  · by_cases hcwd : isSetCwdOption arg = true
    · simp only [if_neg hclasspath, if_pos hcwd]
      exact ⟨_, rfl⟩
    · simp only [if_neg hclasspath, if_neg hcwd]
      refine ⟨cwds, ?_⟩
      have hset := set_free first passed free cwds (plainOption arg)
      have happend : optionsState first (passed ++ [arg]) free cwds =
          { n := passed.length + baseOptns + 1
            j := passed.length + 1
            options := plainOption first :: hookOptions ++
              (passed.map plainOption ++ plainOption arg :: List.replicate free {})
            cwds := cwds } := by
        simp [optionsState, Nat.add_right_comm]
      rw [happend, ← hset]
      rfl

/-- The whole loop, as long as there are enough free entries. -/
theorem foldlM_next (first : List Char) (passed : List (List Char)) (args : List (List Char))
    (free : ℕ) (cwds : List (List Char)) (hfree : args.length ≤ free) :
    ∃ cwds', (args.map some).foldlM (fun s entry => entry.map s.next)
      (optionsState first passed free cwds) =
        some (optionsState ((args.filter isClasspathOption).getLastD first)
          (passed ++ args.filter isPassedOn) (free - (args.filter isPassedOn).length) cwds') := by
  induction args generalizing first passed free cwds with
  | nil => exact ⟨cwds, by simp⟩
  | cons arg args ih =>
    rw [List.length_cons] at hfree
    obtain ⟨free, rfl⟩ : ∃ m, free = m + 1 := ⟨free - 1, by omega⟩
    obtain ⟨cwds', hnext⟩ := next_optionsState first passed free cwds arg
    rw [List.map_cons, List.foldlM_cons, Option.map_some, hnext]
    by_cases hclasspath : isClasspathOption arg = true
    · obtain ⟨cwds'', htail⟩ := ih arg passed (free + 1) cwds' (by omega)
      have hpassed : isPassedOn arg = false := by simp [isPassedOn, hclasspath]
      refine ⟨cwds'', ?_⟩
      rw [if_pos hclasspath, List.filter_cons_of_pos hclasspath, List.getLastD_cons,
        List.filter_cons_of_neg (by simp [hpassed])]
      exact htail
    · rw [if_neg hclasspath, List.filter_cons_of_neg hclasspath]
      by_cases hcwd : isSetCwdOption arg = true
      · obtain ⟨cwds'', htail⟩ := ih first passed (free + 1) cwds' (by omega)
        have hpassed : isPassedOn arg = false := by simp [isPassedOn, hcwd]
        refine ⟨cwds'', ?_⟩
        rw [if_pos hcwd, List.filter_cons_of_neg (by simp [hpassed])]
        exact htail
      · obtain ⟨cwds'', htail⟩ := ih first (passed ++ [arg]) free cwds' (by omega)
        have hpassed : isPassedOn arg = true := by simp [isPassedOn, hclasspath, hcwd]
        refine ⟨cwds'', ?_⟩
        rw [if_neg hcwd, List.filter_cons_of_pos hpassed, List.length_cons,
          Nat.add_sub_add_right]
        rw [List.append_assoc, List.singleton_append] at htail
        exact htail

/-- What the options are built from, behind the loop. -/
theorem setJavaVMOptions_eq (classpath : List Char) (args : List (List Char)) (rest : Argv) :
    ∃ cwds, setJavaVMOptions classpath args.length (args.map some ++ rest) =
      some (optionsState ((args.filter isClasspathOption).getLastD (getJavaClasspath classpath))
        (args.filter isPassedOn) (args.length - (args.filter isPassedOn).length) cwds) := by
  obtain ⟨cwds, hloop⟩ := foldlM_next (getJavaClasspath classpath) [] args args.length [] le_rfl
  refine ⟨cwds, ?_⟩
  rw [setJavaVMOptions, List.take_left' (List.length_map some), initOptions_eq, hloop,
    List.nil_append]

/-- **The array:** the class path, the hooks, and the arguments that are passed on. -/
theorem createJvm_eq {popt : List Char → Option (List (List Char))}
    {classpath jvmOverrideOptns jvmCmdLineArgs : List Char} {args : List (List Char)}
    (hparse : popt (cmdLineArgs jvmOverrideOptns jvmCmdLineArgs) = some args) :
    let kept := keepFirst optionPrefix [] args
    createJvm popt classpath jvmOverrideOptns jvmCmdLineArgs =
      some (classpathOption classpath kept :: hookOptions ++
        (kept.filter isPassedOn).map plainOption) := by
  intro kept
  obtain ⟨cwds, hset⟩ := setJavaVMOptions_eq classpath kept
    (List.replicate (args.length - kept.length) none)
  rw [createJvm, hparse, Option.bind_some, consolidateJvmOptions_eq]
  simp only
  rw [hset, Option.map_some]
  simp only [optionsState]
  rw [← List.append_assoc, List.take_left' (by simp [hookOptions, baseOptns])]
  rfl

end Spartan
