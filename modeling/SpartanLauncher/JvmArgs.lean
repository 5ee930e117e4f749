import SpartanLauncher.EntryPoints
import SpartanLauncher.JvmOptions
import SpartanLauncher.Lib.Unquoted

/-!
# The `jvmArgs` of a sub-command

The strings of a `ChildWorkerCommand` annotation are joined by spaces, kept with the sub-command as
one string, and put in front of the default options when a child process creates its JVM, which
splits the text again.

**Theorem (`jvmArgs_arrive_iff`).** The strings come back exactly when none of them has white space,
a quote or a backslash.
-/

namespace Spartan

open Quoting

variable {args : List (List Char)}

/-- The loop of `extract_method_jvm_optns_cmd_info`, behind `optns`. -/
theorem foldl_joinArgs (hne : ∀ arg ∈ args, arg ≠ []) (optns : List Char) (hoptns : optns ≠ []) :
    args.foldl (fun optns arg => (if optns.isEmpty then optns else optns ++ [' ']) ++ arg) optns ++
      [' '] = optns ++ ' ' :: args.flatMap (· ++ [' ']) := by
  induction args generalizing optns with
  | nil => rfl
  | cons arg args ih =>
    rw [List.forall_mem_cons] at hne
    have hisEmpty : optns.isEmpty = false := by simp [hoptns]
    have hnext : optns ++ [' '] ++ arg ≠ [] := by simp
    rw [List.foldl_cons, hisEmpty, if_neg Bool.false_ne_true, ih hne.2 _ hnext]
    simp

theorem jvmOptions_append {info : ChildCmdInfo} (hne : ∀ arg ∈ info.jvmArgs, arg ≠ [])
    (hargs : info.jvmArgs ≠ []) :
    info.jvmOptions ++ [' '] = info.jvmArgs.flatMap (· ++ [' ']) := by
  unfold ChildCmdInfo.jvmOptions
  cases h : info.jvmArgs with
  | nil => exact absurd h hargs
  | cons arg args =>
    rw [h, List.forall_mem_cons] at hne
    have hjoined := foldl_joinArgs hne.2 arg hne.1
    rw [List.flatMap_cons, List.append_assoc, List.singleton_append]
    exact hjoined

theorem jvmOptions_ne_nil {info : ChildCmdInfo} (hne : ∀ arg ∈ info.jvmArgs, arg ≠ [])
    (hargs : info.jvmArgs ≠ []) : info.jvmOptions ≠ [] := by
  intro hnil
  obtain ⟨arg, args, h⟩ := List.exists_cons_of_ne_nil hargs
  have hpos : 0 < arg.length := List.length_pos_iff.2 (hne arg (by simp [h]))
  have hlength := congrArg List.length (jvmOptions_append hne hargs)
  rw [hnil, h, List.flatMap_cons] at hlength
  simp only [List.nil_append, List.length_append, List.length_singleton] at hlength
  omega

/-- The text that is split in the child process. -/
theorem cmdLineArgs_jvmOptions {info : ChildCmdInfo} (hne : ∀ arg ∈ info.jvmArgs, arg ≠ [])
    (jvmCmdLineArgs : List Char) :
    cmdLineArgs info.jvmOptions jvmCmdLineArgs =
      info.jvmArgs.flatMap (· ++ [' ']) ++ jvmCmdLineArgs := by
  unfold cmdLineArgs
  by_cases hargs : info.jvmArgs = []
  · simp [ChildCmdInfo.jvmOptions, hargs]
  · rw [← jvmOptions_append hne hargs, if_neg]
    simpa using jvmOptions_ne_nil hne hargs

/-- **The `jvmArgs` of a sub-command** are the first options of its JVM, whatever the default
options are. -/
theorem jvmArgs_arrive_iff (popt : List Char → Option (List (List Char)))
    (hpopt : SplitsUniformly popt) (info : ChildCmdInfo) (hne : ∀ arg ∈ info.jvmArgs, arg ≠ []) :
    (∀ jvmCmdLineArgs, (popt jvmCmdLineArgs).isSome →
      ∃ rest, popt (cmdLineArgs info.jvmOptions jvmCmdLineArgs) = some (info.jvmArgs ++ rest)) ↔
      ∀ arg ∈ info.jvmArgs, ∀ c ∈ arg, isPlain c = true := by
  simp only [cmdLineArgs_jvmOptions hne]
  exact splits_words_iff hpopt hne

/-- The heap size and the properties of a sub-command. -/
theorem jvmArgs_arrive_plain :
    ∃ info : ChildCmdInfo, info.jvmArgs = ["-Xmx324m".toList, "-Dlog.level=9".toList] ∧
      ∀ jvmCmdLineArgs, (parseArgv jvmCmdLineArgs).isSome →
        ∃ rest, parseArgv (cmdLineArgs info.jvmOptions jvmCmdLineArgs) =
          some (info.jvmArgs ++ rest) := by
  refine ⟨{
    className := "app/Cmds".toList
    methodName := "run".toList
    descriptor := stdInvokeDescriptor
    jvmArgs := ["-Xmx324m".toList, "-Dlog.level=9".toList] }, rfl, ?_⟩
  exact (jvmArgs_arrive_iff parseArgv parseArgv_splitsUniformly _ (by decide)).2
    (by simp only [← List.all_eq_true]; rfl)

/-- A property with a space in its value is split in two. -/
theorem jvmArgs_split_at_space :
    ∃ info : ChildCmdInfo, (∀ arg ∈ info.jvmArgs, arg ≠ []) ∧ (parseArgv "-ea".toList).isSome ∧
      ¬ ∃ rest, parseArgv (cmdLineArgs info.jvmOptions "-ea".toList) =
        some (info.jvmArgs ++ rest) := by
  refine ⟨{
    className := "app/Cmds".toList
    methodName := "run".toList
    descriptor := stdInvokeDescriptor
    jvmArgs := ["-Dmsg=a b".toList] }, by decide, by decide, ?_⟩
  intro harrive
  obtain ⟨rest, hrest⟩ := harrive
  have hhead : some "-Dmsg=a".toList = some "-Dmsg=a b".toList :=
    congrArg (fun argv => argv.bind List.head?) hrest
  exact absurd hhead (by decide)

end Spartan
