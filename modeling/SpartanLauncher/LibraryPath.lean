import SpartanLauncher.JvmOptions
import SpartanLauncher.Lib.Unquoted

/-!
# The library path of the JVM

The directory of the executable is put in front of the value of `java.library.path`. The option is
looked up among the arguments that the command line is split into, and changed in the text of the
command line.

**Theorem (`libraryPath_prepended_iff`).** The options are as they should be exactly when the first
match is spelled like the JVM spells it, and its text occurs in the command line, for the first time
at the start of an argument.
-/

namespace Spartan

open CString Quoting

/-! ## The code -/

/-- `compare_argv_str`: the end of `str1` that starts where `str2`, which is lower case, is
found. -/
def compareArgvStr (str1 str2 : List Char) : Option (List Char) :=
  (strstr (str1.map Char.toLower) str2).map fun (front, _) => str1.drop front.length

def javaLibPathOptnStr : List Char := "-djava.library.path=".toList

/-- The text in front of the first `=` behind the first character, and the value behind it. -/
def splitAtEquals (javaLibPathOptn : List Char) : Option (List Char × List Char) :=
  match (javaLibPathOptn.drop 1).dropWhile (· ≠ '=') with
  | [] => none
  | _ :: value =>
    some (javaLibPathOptn.take 1 ++ (javaLibPathOptn.drop 1).takeWhile (· ≠ '='), value)

/-- An argument that ends the loop: the option in it, with its name and its value. -/
def matchArgv (arg : List Char) : Option (List Char × List Char × List Char) :=
  (compareArgvStr arg javaLibPathOptnStr).bind fun javaLibPathOptn =>
    (splitAtEquals javaLibPathOptn).map fun (name, value) => (javaLibPathOptn, name, value)

/-- `prepend_to_java_library_path`, with `popt` for `poptParseArgvString`. `none` when the result of
a failed search is dereferenced. -/
def prependToJavaLibraryPath (popt : List Char → Option (List (List Char)))
    (executableDir jvmCmdLineArgs : List Char) : Option (List Char) :=
  match ((popt jvmCmdLineArgs).getD []).findSome? matchArgv with
  | some (javaLibPathOptn, name, value) =>
    let strbuf1 := snprintfGrow 512 (name ++ '=' :: (executableDir ++ pathSeparator :: value))
    (strstr jvmCmdLineArgs javaLibPathOptn).map fun (front, behind) => front ++ (strbuf1 ++ behind)
  | none => some (jvmCmdLineArgs ++ ' ' :: (javaLibPathOptnStr ++ executableDir))

/-! ## What it is for -/

/-- The option as the JVM spells it. -/
def javaLibraryPath : List Char := "-Djava.library.path=".toList

/-- The options with the directory in front of the old value, or with a new option when there was
none. -/
def Prepended (executableDir : List Char) (options options' : List (List Char)) : Prop :=
  (∃ pre old post, options = pre ++ (javaLibraryPath ++ old) :: post ∧
    options' = pre ++ (javaLibraryPath ++ (executableDir ++ ':' :: old)) :: post) ∨
  ((∀ option ∈ options, ¬ javaLibraryPath <+: option) ∧
    ∃ pre post, options = pre ++ post ∧
      options' = pre ++ (javaLibraryPath ++ executableDir) :: post)

/-- The first match among the options is spelled like the JVM spells it, and where its text occurs
first in the command line an argument starts. -/
def LinesUp (jvmCmdLineArgs : List Char) (options : List (List Char)) : Prop :=
  ∃ optn front behind, options.findSome? (compareArgvStr · javaLibPathOptnStr) = some optn ∧
    strstr jvmCmdLineArgs optn = some (front, behind) ∧
    javaLibraryPath <+: optn ∧ (scan front).front = []

/-! ## The match -/

variable {arg optn executableDir jvmCmdLineArgs : List Char} {options : List (List Char)}

/-- A match starts with the option in some spelling. -/
theorem compareArgvStr_sound (h : compareArgvStr arg javaLibPathOptnStr = some optn) :
    ∃ name value, optn = name ++ value ∧ name.map Char.toLower = javaLibPathOptnStr := by
  obtain ⟨⟨front, behind⟩, hfound, rfl⟩ := Option.map_eq_some_iff.1 h
  obtain ⟨start, rest, rfl, hstart, hrest⟩ := List.map_eq_append_iff.1 (strstr_sound hfound)
  obtain ⟨name, value, rfl, hname, -⟩ := List.map_eq_append_iff.1 hrest
  refine ⟨name, value, ?_, hname⟩
  show (start ++ (name ++ value)).drop front.length = name ++ value
  rw [← hstart, List.length_map, List.drop_left]

theorem map_toLower_javaLibPathOptnStr :
    javaLibPathOptnStr.map Char.toLower = javaLibPathOptnStr := by decide

theorem map_toLower_javaLibraryPath :
    javaLibraryPath.map Char.toLower = javaLibPathOptnStr := by decide

/-- The option of the JVM is a match. -/
theorem compareArgvStr_javaLibraryPath (h : javaLibraryPath <+: arg) :
    compareArgvStr arg javaLibPathOptnStr = some arg := by
  obtain ⟨value, rfl⟩ := h
  rw [compareArgvStr, List.map_append, map_toLower_javaLibraryPath, strstr_append]
  rfl

/-- What the scanner gives a meaning is not a letter. -/
theorem toLower_of_not_isPlain {c : Char} (h : isPlain c = false) : c.toLower = c := by
  rcases toLower_cases c with ⟨hlo, hhi, -⟩ | ⟨-, hc⟩
  · simp only [isPlain, isSpace, isSpecial, Bool.and_eq_false_iff, Bool.not_eq_false',
      Bool.or_eq_true, beq_iff_eq] at h
    rcases h with (((((rfl | rfl) | rfl) | rfl) | rfl) | rfl) | (rfl | rfl) | rfl <;>
      revert hlo hhi <;> decide
  · exact hc

theorem splitAtEquals_of_notMem {key : List Char} (hne : key ≠ []) (h : '=' ∉ key)
    (value : List Char) : splitAtEquals (key ++ '=' :: value) = some (key, value) := by
  cases key with
  | nil => exact absurd rfl hne
  | cons c key =>
    have hkey : ∀ c ∈ key, decide (c ≠ '=') = true := fun c hc => by
      simpa using fun heq : c = '=' => h (List.mem_cons_of_mem _ (heq ▸ hc))
    simp only [splitAtEquals, List.cons_append, List.drop_succ_cons, List.drop_zero,
      List.dropWhile_append_of_pos hkey, List.takeWhile_append_of_pos hkey]
    simp

section

variable {name value : List Char} (hname : name.map Char.toLower = javaLibPathOptnStr)
include hname

theorem length_name : name.length = 20 := by
  have hlength := congrArg List.length hname
  rwa [List.length_map] at hlength

/-- The name has no character that the scanner gives a meaning. -/
theorem isPlain_name : ∀ c ∈ name, isPlain c = true := by
  intro c hc
  have hlower : c.toLower ∈ javaLibPathOptnStr := hname ▸ List.mem_map_of_mem hc
  have hplain : ∀ c ∈ javaLibPathOptnStr, isPlain c = true := List.all_eq_true.1 rfl
  by_contra hnot
  rw [Bool.not_eq_true] at hnot
  rw [toLower_of_not_isPlain hnot] at hlower
  rw [hplain c hlower] at hnot
  cases hnot

/-- The name ends in the first `=`. -/
theorem splitAtEquals_name :
    ∃ key, name = key ++ ['='] ∧ splitAtEquals (name ++ value) = some (key, value) := by
  have hequals : ∀ c : Char, c.toLower = '=' ↔ c = '=' := fun c =>
    toLower_eq_iff (by decide) (by decide)
  have hsplit : javaLibPathOptnStr = "-djava.library.path".toList ++ ['='] := by decide
  rw [hsplit] at hname
  obtain ⟨key, last, rfl, hkey, hlast⟩ := List.map_eq_append_iff.1 hname
  obtain ⟨c, rfl, hc⟩ := List.map_eq_singleton_iff.1 hlast
  rw [hequals] at hc
  subst hc
  have hne : key ≠ [] := by
    rintro rfl
    exact absurd hkey (by decide)
  have hnotMem : '=' ∉ key := fun hmem => by
    have hlower := List.mem_map_of_mem (f := Char.toLower) hmem
    rw [hkey] at hlower
    exact absurd hlower (by decide)
  refine ⟨key, rfl, ?_⟩
  rw [List.append_assoc, List.singleton_append, splitAtEquals_of_notMem hne hnotMem]

end

/-- A match can always be split. -/
theorem matchArgv_of_compare (h : compareArgvStr arg javaLibPathOptnStr = some optn) :
    ∃ key value, optn = key ++ '=' :: value ∧
      (key ++ ['=']).map Char.toLower = javaLibPathOptnStr ∧
      matchArgv arg = some (optn, key, value) := by
  obtain ⟨name, value, rfl, hname⟩ := compareArgvStr_sound h
  obtain ⟨key, rfl, hsplit⟩ := @splitAtEquals_name _ value hname
  refine ⟨key, value, by simp, hname, ?_⟩
  rw [matchArgv, h, Option.bind_some, hsplit]
  rfl

theorem map_matchArgv (options : List (List Char)) :
    (options.findSome? matchArgv).map Prod.fst =
      options.findSome? (compareArgvStr · javaLibPathOptnStr) := by
  rw [List.map_findSome?]
  congr 1
  funext arg
  cases h : compareArgvStr arg javaLibPathOptnStr with
  | none => simp [matchArgv, h]
  | some optn =>
    obtain ⟨key, value, -, -, hmatch⟩ := matchArgv_of_compare h
    simp [hmatch]

/-! ## The result -/

variable {popt : List Char → Option (List (List Char))}

/-- The result when there is a match. -/
theorem prepend_of_match (hparse : popt jvmCmdLineArgs = some options)
    (hmatch : options.findSome? (compareArgvStr · javaLibPathOptnStr) = some optn) :
    ∃ name value, optn = name ++ value ∧ name.map Char.toLower = javaLibPathOptnStr ∧
      prependToJavaLibraryPath popt executableDir jvmCmdLineArgs =
        (strstr jvmCmdLineArgs optn).map fun (front, behind) =>
          front ++ (name ++ ((executableDir ++ [':']) ++ (value ++ behind))) := by
  rw [← map_matchArgv] at hmatch
  obtain ⟨⟨optn', key, value⟩, hfound, rfl⟩ := Option.map_eq_some_iff.1 hmatch
  obtain ⟨arg, -, harg⟩ := List.exists_of_findSome?_eq_some hfound
  obtain ⟨optn'', hcompare, -⟩ := Option.bind_eq_some_iff.1 harg
  obtain ⟨key', value', hoptn, hname, hmatch'⟩ := matchArgv_of_compare hcompare
  rw [harg] at hmatch'
  cases hmatch'
  refine ⟨key ++ ['='], value, by simp [hoptn], hname, ?_⟩
  simp only [prependToJavaLibraryPath, hparse, Option.getD_some, hfound, snprintfGrow_eq,
    pathSeparator]
  simp

/-- The result when there is none. -/
theorem prepend_of_no_match (hparse : popt jvmCmdLineArgs = some options)
    (hmatch : options.findSome? (compareArgvStr · javaLibPathOptnStr) = none) :
    prependToJavaLibraryPath popt executableDir jvmCmdLineArgs =
      some (jvmCmdLineArgs ++ ' ' :: (javaLibPathOptnStr ++ executableDir)) := by
  rw [← map_matchArgv, Option.map_eq_none_iff] at hmatch
  simp only [prependToJavaLibraryPath, hparse, Option.getD_some, hmatch]

/-! ## Whether it is right -/

/-- Where two lists differ in one element, they differ in it however they are split. -/
theorem append_cons_unique {α : Type*} {pre pre' post post' : List α} {a a' b b' : α}
    (h : pre ++ a :: post = pre' ++ b :: post') (h' : pre ++ a' :: post = pre' ++ b' :: post')
    (ha : a ≠ a') (hb : b ≠ b') : a = b ∧ a' = b' := by
  induction pre generalizing pre' with
  | nil =>
    cases pre' with
    | nil => exact ⟨(List.cons.inj h).1, (List.cons.inj h').1⟩
    | cons c pre' => exact absurd ((List.cons.inj h).1.trans (List.cons.inj h').1.symm) ha
  | cons c pre ih =>
    cases pre' with
    | nil => exact absurd ((List.cons.inj h).1.symm.trans (List.cons.inj h').1) hb
    | cons c' pre' => exact ih (List.cons.inj h).2 (List.cons.inj h').2

/-- Inserting a directory behind `name` is the same as inserting it behind the option at the start
of the argument only if `name` is there. -/
theorem eq_nil_of_insert {front name inserted rest old : List Char}
    (hname : name.map Char.toLower = javaLibPathOptnStr) (hlast : inserted.getLast? = some ':')
    (h : front ++ name ++ rest = javaLibraryPath ++ old)
    (h' : front ++ name ++ inserted ++ rest = javaLibraryPath ++ (inserted ++ old)) :
    front = [] ∧ name = javaLibraryPath := by
  have hlength := length_name hname
  have hoption : javaLibraryPath.length = 20 := rfl
  obtain ⟨v, hv⟩ : javaLibraryPath <+: front ++ name := by
    have hwhole : javaLibraryPath <+: front ++ name ++ rest := h ▸ List.prefix_append _ _
    have hfront : front ++ name <+: front ++ name ++ rest := List.prefix_append _ _
    apply List.prefix_of_prefix_length_le hwhole hfront
    rw [hoption, List.length_append, hlength]
    exact Nat.le_add_left _ _
  rw [← hv, List.append_assoc, List.append_cancel_left_eq] at h
  rw [← hv, ← h, List.append_assoc, List.append_assoc, List.append_cancel_left_eq,
    ← List.append_assoc, ← List.append_assoc, List.append_cancel_right_eq] at h'
  -- `v` commutes with a text that ends in `:`, and ends in `=`
  have hnil : v = [] := by
    by_contra hne
    obtain ⟨key, hkey, -⟩ := @splitAtEquals_name _ [] hname
    have hequals : v.getLast? = some '=' := by
      have hend := congrArg List.getLast? hv
      rw [hkey] at hend
      simpa [List.getLast?_append, Option.or_of_isSome, hne] using hend
    have hcolon := congrArg List.getLast? h'
    rw [List.getLast?_append, List.getLast?_append, hlast, hequals] at hcolon
    exact absurd hcolon (by decide)
  subst hnil
  rw [List.append_nil] at hv
  have hfront := congrArg List.length hv
  rw [hoption, List.length_append, hlength] at hfront
  have hfrontNil : front = [] := List.length_eq_zero_iff.1 (by omega)
  exact ⟨hfrontNil, by simpa [hfrontNil] using hv.symm⟩

/-- When there is a match whose text is found, the directory is inserted into one argument. -/
theorem scan_prepend {name : List Char} (hname : name.map Char.toLower = javaLibPathOptnStr)
    (hdir : ∀ c ∈ executableDir, isPlain c = true) (front behind : List Char) :
    (scan (front ++ (name ++ behind))).mode =
      (scan (front ++ (name ++ ((executableDir ++ [':']) ++ behind)))).mode ∧
    ∃ rest more,
      (scan (front ++ (name ++ behind))).result =
        (scan front).args ++ ((scan front).front ++ name ++ rest) :: more ∧
      (scan (front ++ (name ++ ((executableDir ++ [':']) ++ behind)))).result =
        (scan front).args ++ ((scan front).front ++ name ++ (executableDir ++ [':']) ++ rest) ::
          more := by
  have hinserted : ∀ c ∈ executableDir ++ [':'], isPlain c = true := by
    simpa [or_imp, forall_and] using ⟨hdir, rfl⟩
  have hne : name ≠ [] := by
    rintro rfl
    exact absurd hname (by decide)
  exact scan_insert (isPlain_name hname) hne hinserted behind

/-- The result is right when the option of the JVM starts an argument there. -/
theorem prepended_insert_iff {name value : List Char}
    (hname : name.map Char.toLower = javaLibPathOptnStr)
    (hdir : ∀ c ∈ executableDir, isPlain c = true) (front behind : List Char) :
    Prepended executableDir (scan (front ++ (name ++ (value ++ behind)))).result
      (scan (front ++ (name ++ ((executableDir ++ [':']) ++ (value ++ behind))))).result ↔
      javaLibraryPath <+: name ++ value ∧ (scan front).front = [] := by
  obtain ⟨-, rest, more, hold, hnew⟩ := scan_prepend hname hdir front (value ++ behind)
  have hassoc : (scan front).front ++ name ++ (executableDir ++ [':']) ++ rest =
      (scan front).front ++ name ++ (executableDir ++ ':' :: rest) := by simp
  rw [hold, hnew, hassoc]
  refine ⟨?_, ?_⟩
  · intro hprepended
    rcases hprepended with ⟨pre, old, post, hpre, hpre'⟩ | ⟨-, pre, post, hpre, hpre'⟩
    · have hlonger : ∀ head rest : List Char,
          head ++ rest ≠ head ++ (executableDir ++ ':' :: rest) := by
        intro head rest heq
        have hlength := congrArg List.length heq
        simp only [List.length_append, List.length_cons] at hlength
        omega
      obtain ⟨h, h'⟩ := append_cons_unique hpre hpre' (hlonger _ rest) (hlonger _ old)
      have hinsert : (scan front).front ++ name ++ (executableDir ++ [':']) ++ rest =
          javaLibraryPath ++ ((executableDir ++ [':']) ++ old) := by
        rw [hassoc, h']
        simp
      obtain ⟨hfront, hname'⟩ := eq_nil_of_insert hname (by simp) h hinsert
      exact ⟨hname' ▸ List.prefix_append _ _, hfront⟩
    · -- an argument more
      have hlength := congrArg List.length hpre
      have hlength' := congrArg List.length hpre'
      simp only [List.length_append, List.length_cons] at hlength hlength'
      omega
  · intro hstart
    obtain ⟨⟨old, hprefix⟩, hfront⟩ := hstart
    obtain ⟨hname', -⟩ := List.append_inj hprefix (length_name hname).symm
    refine .inl ⟨(scan front).args, rest, more, ?_, ?_⟩
    · rw [hfront, hname', List.nil_append]
    · rw [hfront, hname']
      simp

/-- Either way the option of the JVM is there. -/
theorem exists_prefix_of_prepended {options' : List (List Char)}
    (h : Prepended executableDir options options') : ∃ a ∈ options', javaLibraryPath <+: a := by
  rcases h with ⟨pre, old, post, -, rfl⟩ | ⟨-, pre, post, -, rfl⟩
  · exact ⟨_, List.mem_append_cons_self, List.prefix_append _ _⟩
  · exact ⟨_, List.mem_append_cons_self, List.prefix_append _ _⟩

/-- Without a match the new option is not the one of the JVM. -/
theorem not_prepended_appended (hdir : ∀ c ∈ executableDir, isPlain c = true)
    (hmatch : (scan jvmCmdLineArgs).result.findSome? (compareArgvStr · javaLibPathOptnStr) = none) :
    ¬ Prepended executableDir (scan jvmCmdLineArgs).result
      (scan (jvmCmdLineArgs ++ ' ' :: (javaLibPathOptnStr ++ executableDir))).result := by
  have hold : ∀ b ∈ (scan jvmCmdLineArgs).result, ¬ javaLibraryPath <+: b := by
    intro b hb hprefix
    have hnone := List.findSome?_eq_none_iff.1 hmatch b hb
    rw [compareArgvStr_javaLibraryPath hprefix] at hnone
    cases hnone
  have hnew : ∀ a ∈ (scan (jvmCmdLineArgs ++ ' ' :: (javaLibPathOptnStr ++ executableDir))).result,
      ¬ javaLibraryPath <+: a := by
    intro a ha hprefix
    have hplain : ∀ c ∈ javaLibPathOptnStr ++ executableDir, isPlain c = true := by
      intro c hc
      rcases List.mem_append.1 hc with hc | hc
      · exact isPlain_name map_toLower_javaLibPathOptnStr c hc
      · exact hdir c hc
    have hne : javaLibPathOptnStr ++ executableDir ≠ [] :=
      List.append_ne_nil_of_left_ne_nil (by decide) _
    have hplain' := isPlain_name map_toLower_javaLibraryPath
    have hne' : javaLibraryPath ≠ [] := by decide
    rcases prefix_of_appended hplain hne hplain' hne' ha hprefix with hstart | ⟨b, hb, hprefix'⟩
    · obtain ⟨rest, hrest⟩ := hstart
      have hlength : javaLibraryPath.length = javaLibPathOptnStr.length := by decide
      exact absurd (List.append_inj hrest hlength).1 (by decide)
    · exact hold b hb hprefix'
  intro hprepended
  obtain ⟨a, ha, hprefix⟩ := exists_prefix_of_prepended hprepended
  exact hnew a ha hprefix

theorem not_prepended_of_no_match (hpopt : SplitsUniformly popt)
    (hdir : ∀ c ∈ executableDir, isPlain c = true) (hparse : popt jvmCmdLineArgs = some options)
    (hmatch : options.findSome? (compareArgvStr · javaLibPathOptnStr) = none) :
    ¬ ∃ text options', prependToJavaLibraryPath popt executableDir jvmCmdLineArgs = some text ∧
      popt text = some options' ∧ Prepended executableDir options options' := by
  intro hright
  obtain ⟨text, options', htext, hparse', hprepended⟩ := hright
  rw [prepend_of_no_match hparse hmatch] at htext
  cases htext
  have hoptions := hpopt.eq_result hparse
  have hoptions' := hpopt.eq_result hparse'
  exact not_prepended_appended hdir (hoptions ▸ hmatch) (hoptions ▸ hoptions' ▸ hprepended)

/-- **The library path.** -/
theorem libraryPath_prepended_iff (popt : List Char → Option (List (List Char)))
    (hpopt : SplitsUniformly popt) (executableDir jvmCmdLineArgs : List Char)
    (options : List (List Char)) (hdir : ∀ c ∈ executableDir, isPlain c = true)
    (hparse : popt jvmCmdLineArgs = some options) :
    (∃ text options', prependToJavaLibraryPath popt executableDir jvmCmdLineArgs = some text ∧
      popt text = some options' ∧ Prepended executableDir options options') ↔
      LinesUp jvmCmdLineArgs options := by
  have haccepted : (popt jvmCmdLineArgs).isSome := by
    rw [hparse]
    rfl
  have hoptions := hpopt.eq_result hparse
  cases hmatch : options.findSome? (compareArgvStr · javaLibPathOptnStr) with
  | none =>
    have hnot : ¬ LinesUp jvmCmdLineArgs options := by simp [LinesUp, hmatch]
    exact iff_of_false (not_prepended_of_no_match hpopt hdir hparse hmatch) hnot
  | some optn =>
    obtain ⟨name, value, rfl, hname, hprepend⟩ :=
      @prepend_of_match _ executableDir _ _ _ hparse hmatch
    rw [hprepend]
    cases hfound : strstr jvmCmdLineArgs (name ++ value) with
    | none => simp [LinesUp, hmatch, hfound]
    | some found =>
      obtain ⟨front, behind⟩ := found
      have hlines : LinesUp jvmCmdLineArgs options ↔
          javaLibraryPath <+: name ++ value ∧ (scan front).front = [] := by
        simp [LinesUp, hmatch, hfound]
      have htext : jvmCmdLineArgs = front ++ (name ++ (value ++ behind)) := by
        rw [strstr_sound hfound, List.append_assoc]
      obtain ⟨hmode, rest, more, -, hnew⟩ := scan_prepend hname hdir front (value ++ behind)
      rw [← htext] at hmode
      have hne :
          (scan (front ++ (name ++ ((executableDir ++ [':']) ++ (value ++ behind))))).result ≠
            [] := by
        rw [hnew]
        exact List.append_ne_nil_of_right_ne_nil _ (List.cons_ne_nil _ _)
      have hparse' := hpopt.eq_of_like haccepted hmode hne
      rw [hlines, ← prepended_insert_iff hname hdir front behind, ← htext, ← hoptions]
      simp only [Option.map_some, Option.some.injEq, exists_and_left, exists_eq_left', hparse']

/-- The option between two others. -/
theorem libraryPath_prepended_present :
    ∃ text options', prependToJavaLibraryPath parseArgv "/opt/app".toList
        "-ea -Djava.library.path=/usr/lib -Xmx1g".toList = some text ∧
      parseArgv text = some options' ∧
      Prepended "/opt/app".toList
        ["-ea".toList, "-Djava.library.path=/usr/lib".toList, "-Xmx1g".toList] options' := by
  have hlines : LinesUp "-ea -Djava.library.path=/usr/lib -Xmx1g".toList
      ["-ea".toList, "-Djava.library.path=/usr/lib".toList, "-Xmx1g".toList] :=
    ⟨"-Djava.library.path=/usr/lib".toList, "-ea ".toList, " -Xmx1g".toList,
      by decide, by decide, by decide, by decide⟩
  exact (libraryPath_prepended_iff parseArgv parseArgv_splitsUniformly _ _ _
    (List.all_eq_true.1 rfl) (by decide +kernel)).2 hlines

/-- Without the option, one is added that the JVM does not know. -/
theorem libraryPath_not_prepended :
    ∃ executableDir jvmCmdLineArgs : List Char, ∃ options : List (List Char),
      (∀ c ∈ executableDir, isPlain c = true) ∧ parseArgv jvmCmdLineArgs = some options ∧
      ¬ ∃ text options',
        prependToJavaLibraryPath parseArgv executableDir jvmCmdLineArgs = some text ∧
        parseArgv text = some options' ∧ Prepended executableDir options options' := by
  refine ⟨"/opt/app".toList, "-ea".toList, ["-ea".toList], List.all_eq_true.1 rfl, rfl, ?_⟩
  intro hright
  obtain ⟨text, options', htext, hparse, hprepended⟩ := hright
  have hadded : prependToJavaLibraryPath parseArgv "/opt/app".toList "-ea".toList =
      some "-ea -djava.library.path=/opt/app".toList := by
    decide +kernel
  have hsplit : parseArgv "-ea -djava.library.path=/opt/app".toList =
      some ["-ea".toList, "-djava.library.path=/opt/app".toList] := by
    decide +kernel
  cases hadded.symm.trans htext
  cases hsplit.symm.trans hparse
  have hnone : ∀ a ∈ ["-ea".toList, "-djava.library.path=/opt/app".toList],
      ¬ javaLibraryPath <+: a := by
    decide
  obtain ⟨a, ha, hprefix⟩ := exists_prefix_of_prepended hprepended
  exact hnone a ha hprefix

end Spartan
