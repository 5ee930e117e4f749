import SpartanLauncher.JvmOptions
import SpartanLauncher.Lib.Quoting

/-!
# Merging the options of a sub-command with the defaults

The options of a sub-command override the default options. Two options are taken for the same one
when they have the same prefix; the JVM tells them apart by their names.

**Theorem (`createJvm_merges_iff`).** The merge drops overridden options only, exactly when no
option that is the first of its name has the prefix of an option in front of it. All `-XX:` flags
have the same prefix.
-/

namespace Spartan

open CString KeepFirst

/-! ## Names of options -/

/-- The option that the JVM takes an argument for. -/
inductive OptionName where
  /-- `-Dname=value` -/
  | property (name : List Char)
  /-- `-XX:+name`, `-XX:-name` and `-XX:name=value` -/
  | flag (name : List Char)
  deriving DecidableEq

/-- The properties that `set_JavaVMOptions` does not pass on. -/
def consumedProperties : List (List Char) := ["java.class.path".toList, "user.dir".toList]

def optionName : List Char → Option OptionName
  | '-' :: 'D' :: property =>
    let name := property.takeWhile (· ≠ '=')
    if '=' ∈ property ∧ !consumedProperties.contains name then some (.property name) else none
  | '-' :: 'X' :: 'X' :: ':' :: '+' :: name => some (.flag name)
  | '-' :: 'X' :: 'X' :: ':' :: '-' :: name => some (.flag name)
  | '-' :: 'X' :: 'X' :: ':' :: flag =>
    if '=' ∈ flag then some (.flag (flag.takeWhile (· ≠ '='))) else none
  | _ => none

/-- The options of `overrides` and `defaults` that are the first of their name are there, in
order; of a name that occurs in both, there are options of `overrides` only. -/
structure MergeKeeps (overrides defaults : List (List Char)) (options : List JavaVMOption) :
    Prop where
  present : (keepFirst optionName [none] (overrides ++ defaults)).Sublist
    (options.filterMap JavaVMOption.optionString)
  overridden : ∀ name, some name ∈ overrides.map optionName → some name ∈ defaults.map optionName →
    ((options.filterMap JavaVMOption.optionString).filter (optionName · = some name)).Sublist
      (overrides.filter (optionName · = some name))

/-- An option that is the first of its name is the first of its prefix as well. -/
def PrefixesDistinguish (args : List (List Char)) : Prop :=
  ∀ pre a post, args = pre ++ a :: post → IsFirst optionName [none] pre a →
    ∀ b ∈ pre, optionPrefix b ≠ optionPrefix a

/-! ## Names and prefixes -/

theorem takeWhile_append_stop {α : Type*} {p : α → Bool} {c : α} (hc : p c = false)
    (l r : List α) : (l ++ c :: r).takeWhile p = l.takeWhile p := by
  induction l with
  | nil => simp [hc]
  | cons a l ih =>
    rw [List.cons_append, List.takeWhile_cons, List.takeWhile_cons, ih]

theorem dropWhile_ne_of_mem {c : Char} {s : List Char} (h : c ∈ s) :
    ∃ rest, s.dropWhile (· ≠ c) = c :: rest := by
  induction s with
  | nil => cases h
  | cons a s ih =>
    by_cases hac : a = c
    · exact ⟨s, by simp [hac]⟩
    · have hmem := (List.mem_cons.1 h).resolve_left (Ne.symm hac)
      obtain ⟨rest, hrest⟩ := ih hmem
      exact ⟨rest, by rw [List.dropWhile_cons_of_pos (by simp [hac]), hrest]⟩

theorem optionName_property {a name : List Char} (h : optionName a = some (.property name)) :
    ∃ value, a = "-D".toList ++ name ++ '=' :: value := by
  unfold optionName at h
  split at h
  · next property =>
    simp only [Option.ite_none_right_eq_some, Option.some.injEq, OptionName.property.injEq] at h
    obtain ⟨⟨hmem, -⟩, rfl⟩ := h
    have hsplit := List.takeWhile_append_dropWhile (p := (· ≠ '=')) (l := property)
    obtain ⟨value, hvalue⟩ := dropWhile_ne_of_mem hmem
    rw [hvalue] at hsplit
    exact ⟨value, by rw [List.append_assoc, hsplit]; rfl⟩
  · cases h
  · cases h
  · simp at h
  · cases h

theorem optionPrefix_property (name value : List Char) :
    optionPrefix ("-D".toList ++ name ++ '=' :: value) = optionPrefix ("-D".toList ++ name) :=
  takeWhile_append_stop (by decide) _ _

theorem optionPrefix_flag {a name : List Char} (h : optionName a = some (.flag name)) :
    optionPrefix a = "-XX".toList := by
  unfold optionName at h
  split at h
  · simp at h
  · rfl
  · rfl
  · rfl
  · cases h

/-- Options of the same name have the same prefix. -/
theorem optionPrefix_eq_of_name {a b : List Char} {name : OptionName}
    (ha : optionName a = some name) (hb : optionName b = some name) :
    optionPrefix a = optionPrefix b := by
  cases name with
  | property name =>
    obtain ⟨value, rfl⟩ := optionName_property ha
    obtain ⟨value', rfl⟩ := optionName_property hb
    rw [optionPrefix_property, optionPrefix_property]
  | flag name => rw [optionPrefix_flag ha, optionPrefix_flag hb]

theorem optionName_of_classpath {a : List Char} (h : isClasspathOption a = true) :
    optionName a = none := by
  rw [isClasspathOption, strncmpEq, beq_iff_eq, List.take_length] at h
  rw [← List.take_append_drop jvmClasspathOptn.length a, h]
  rfl

theorem optionName_of_setCwd {a : List Char} (h : isSetCwdOption a = true) :
    optionName a = none := by
  rw [isSetCwdOption, strncmpEq, beq_iff_eq, List.take_length] at h
  rw [← List.take_append_drop setCwdOptn.length a, h]
  rfl

/-- An option with a name is passed on. -/
theorem isPassedOn_of_name {a : List Char} {name : OptionName} (h : optionName a = some name) :
    isPassedOn a = true := by
  have hclasspath : isClasspathOption a = false := by
    by_contra hc
    rw [optionName_of_classpath (Bool.not_eq_false _ ▸ hc)] at h
    cases h
  have hcwd : isSetCwdOption a = false := by
    by_contra hc
    rw [optionName_of_setCwd (Bool.not_eq_false _ ▸ hc)] at h
    cases h
  simp [isPassedOn, hclasspath, hcwd]

theorem isPassedOn_of_first {args : List (List Char)} {a : List Char}
    (h : a ∈ keepFirst optionName [none] args) : isPassedOn a = true := by
  have hname := key_notMem_of_mem_keepFirst h
  rw [List.mem_singleton] at hname
  obtain ⟨name, hname⟩ := Option.ne_none_iff_exists'.1 hname
  exact isPassedOn_of_name hname

/-! ## What is in the array -/

/-- The strings of the array: the first three have no name. -/
theorem optionStrings_eq (classpath : List Char) (kept : List (List Char)) :
    ∃ own : List (List Char), (∀ a ∈ own, optionName a = none) ∧
      (classpathOption classpath kept :: hookOptions ++
        (kept.filter isPassedOn).map plainOption).filterMap JavaVMOption.optionString =
          own ++ kept.filter isPassedOn := by
  set first := (kept.filter isClasspathOption).getLastD (getJavaClasspath classpath) with hfirst
  have hclasspath : isClasspathOption first = true := by
    rcases List.mem_cons.1 (List.getLastD_mem_cons (l := kept.filter isClasspathOption)
      (a := getJavaClasspath classpath)) with h | h
    · rw [hfirst, h, isClasspathOption, strncmpEq, getJavaClasspath, List.take_left]
      simp
    · exact (List.mem_filter.1 h).2
  refine ⟨[first, "exit".toList, "abort".toList], ?_, ?_⟩
  · rw [List.forall_mem_cons]
    exact ⟨optionName_of_classpath hclasspath, by decide⟩
  · have hplain : ((kept.filter isPassedOn).map plainOption).filterMap
        JavaVMOption.optionString = kept.filter isPassedOn := by
      rw [List.filterMap_map]
      exact List.filterMap_some
    rw [List.filterMap_append, hplain]
    rfl

variable {args overrides defaults own : List (List Char)}

theorem prefixesDistinguish_iff :
    PrefixesDistinguish args ↔
      keepFirst optionName [none] args ⊆ keepFirst optionPrefix [] args := by
  rw [subset_keepFirst_iff]
  simp [PrefixesDistinguish, IsFirst]

instance (args : List (List Char)) : Decidable (PrefixesDistinguish args) :=
  decidable_of_iff _ prefixesDistinguish_iff.symm

/-- The options that are the first of their name are all there, if the prefixes tell them apart. -/
theorem present_iff (hown : ∀ a ∈ own, optionName a = none) :
    (keepFirst optionName [none] args).Sublist
      (own ++ (keepFirst optionPrefix [] args).filter isPassedOn) ↔ PrefixesDistinguish args := by
  rw [prefixesDistinguish_iff]
  refine ⟨?_, ?_⟩
  · intro hpresent a ha
    have hname := key_notMem_of_mem_keepFirst ha
    rcases List.mem_append.1 (hpresent.subset ha) with h | h
    · exact absurd (List.mem_singleton.2 (hown a h)) hname
    · exact List.mem_of_mem_filter h
  · intro h
    have hall : (keepFirst optionName [none] args).filter isPassedOn =
        keepFirst optionName [none] args :=
      List.filter_eq_self.2 fun a ha => isPassedOn_of_first ha
    rw [← hall]
    exact ((keepFirst_sublist_keepFirst (subset_keepFirst_iff.1 h)).filter isPassedOn).trans
      (List.sublist_append_right _ _)

/-- Of a name that occurs among the overrides, no default is left. -/
theorem overridden_sublist (hown : ∀ a ∈ own, optionName a = none) {name : OptionName}
    (hname : some name ∈ overrides.map optionName) :
    ((own ++ (keepFirst optionPrefix [] (overrides ++ defaults)).filter isPassedOn).filter
      (optionName · = some name)).Sublist (overrides.filter (optionName · = some name)) := by
  obtain ⟨a, ha, haname⟩ := List.mem_map.1 hname
  obtain ⟨seen, happend, hseen⟩ := keepFirst_append optionPrefix [] overrides defaults
  have hnone : own.filter (optionName · = some name) = [] := by
    rw [List.filter_eq_nil_iff]
    intro b hb
    simp [hown b hb]
  have hdefaults : (keepFirst optionPrefix seen defaults).filter (optionName · = some name) =
      [] := by
    rw [List.filter_eq_nil_iff]
    intro b hb
    have hnew := key_notMem_of_mem_keepFirst hb
    intro hbname
    rw [decide_eq_true_eq] at hbname
    exact hnew (optionPrefix_eq_of_name haname hbname ▸ hseen a ha)
  rw [List.filter_append, hnone, List.nil_append, List.filter_comm, happend, List.filter_append,
    hdefaults, List.append_nil]
  exact (List.filter_sublist).trans ((keepFirst_sublist _ _ _).filter _)

/-- The array is as it should be, up to the prefixes. -/
theorem mergeKeeps_iff (classpath : List Char) {kept : List (List Char)}
    (hkept : kept = keepFirst optionPrefix [] (overrides ++ defaults)) :
    MergeKeeps overrides defaults (classpathOption classpath kept :: hookOptions ++
      (kept.filter isPassedOn).map plainOption) ↔
        PrefixesDistinguish (overrides ++ defaults) := by
  obtain ⟨own, hown, hstrings⟩ := optionStrings_eq classpath kept
  refine ⟨?_, ?_⟩
  · intro hkeeps
    have hpresent := hkeeps.present
    rw [hstrings, hkept] at hpresent
    exact (present_iff hown).1 hpresent
  · intro hdistinguish
    refine ⟨?_, ?_⟩
    · rw [hstrings, hkept]
      exact (present_iff hown).2 hdistinguish
    · intro name hover _
      rw [hstrings, hkept]
      exact overridden_sublist hown hover

/-- **Merging of the options.** -/
theorem createJvm_merges_iff (popt : List Char → Option (List (List Char)))
    (classpath jvmOverrideOptns jvmCmdLineArgs : List Char) (overrides defaults : List (List Char))
    (hparse : popt (cmdLineArgs jvmOverrideOptns jvmCmdLineArgs) = some (overrides ++ defaults)) :
    (∃ options, createJvm popt classpath jvmOverrideOptns jvmCmdLineArgs = some options ∧
      MergeKeeps overrides defaults options) ↔ PrefixesDistinguish (overrides ++ defaults) := by
  rw [← mergeKeeps_iff classpath rfl, createJvm_eq hparse]
  simp

/-- A sub-command with its own heap size and its own value of a property. -/
theorem createJvm_merges_heap :
    ∃ options, createJvm Quoting.parseArgv [] "-Xmx324m -Dlog.level=9".toList
        "-server -Xmx50m -Dlog.level=1 -Dlog.file=a".toList = some options ∧
      MergeKeeps ["-Xmx324m".toList, "-Dlog.level=9".toList]
        ["-server".toList, "-Xmx50m".toList, "-Dlog.level=1".toList, "-Dlog.file=a".toList]
        options := by
  exact (createJvm_merges_iff _ _ _ _ _ _ (by decide +kernel)).2 (by decide +kernel)

/-- Two flags of different names: the default is dropped. -/
theorem createJvm_not_merges :
    Quoting.parseArgv (cmdLineArgs "-XX:+UseSerialGC".toList "-XX:MaxMetaspaceSize=64m".toList) =
        some (["-XX:+UseSerialGC".toList] ++ ["-XX:MaxMetaspaceSize=64m".toList]) ∧
      ¬ ∃ options, createJvm Quoting.parseArgv [] "-XX:+UseSerialGC".toList
          "-XX:MaxMetaspaceSize=64m".toList = some options ∧
        MergeKeeps ["-XX:+UseSerialGC".toList] ["-XX:MaxMetaspaceSize=64m".toList] options := by
  have hparse : Quoting.parseArgv (cmdLineArgs "-XX:+UseSerialGC".toList
      "-XX:MaxMetaspaceSize=64m".toList) =
      some (["-XX:+UseSerialGC".toList] ++ ["-XX:MaxMetaspaceSize=64m".toList]) := by
    decide +kernel
  refine ⟨hparse, ?_⟩
  intro hmerges
  obtain ⟨options, hoptions, hkeeps⟩ := hmerges
  rw [createJvm_eq hparse] at hoptions
  cases hoptions
  have hdistinguish := (mergeKeeps_iff [] rfl).1 hkeeps
  exact hdistinguish ["-XX:+UseSerialGC".toList] "-XX:MaxMetaspaceSize=64m".toList [] rfl
    (by decide) "-XX:+UseSerialGC".toList (by decide) (by decide)

end Spartan
