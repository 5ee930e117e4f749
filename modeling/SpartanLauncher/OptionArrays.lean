import SpartanLauncher.JvmOptions

/-!
# The two arrays behind the options of the JVM

`set_JavaVMOptions` fills an array of strings and an array of options that point into the first
one. An option is cleared before it is known whether it will be used, and a string that is
assigned leaves the pointers behind that were taken from it before.

Here the writes are checked, and a pointer knows which assignment it was taken after.

**Theorem (`setJavaVMOptionsInPlace_eq`).** No write is out of bounds, each option points to its
own string, and what the options point to is what `setJavaVMOptions` has.

**Theorem (`setJavaVMOptionsInPlace_options`).** The first option is the class path, and the
options behind the hooks are the arguments that are passed on, in their order.
-/

namespace Spartan

open CString

/-! ## The arrays -/

/-- A `std::string` of the first array, with the number of assignments to it. -/
structure OptionStr where
  text : List Char := []
  version : ℕ := 0
  deriving DecidableEq

/-- What `c_str()` returned for a string of the first array. -/
structure CStrPtr where
  index : ℕ
  version : ℕ
  deriving DecidableEq

/-- A `JavaVMOption`. -/
structure OptionSlot where
  optionString : Option CStrPtr := none
  extraInfo : Option JvmHook := none
  deriving DecidableEq

structure OptionArrays where
  optionStrs : List OptionStr
  options : List OptionSlot
  deriving DecidableEq

namespace OptionArrays

/-- The arrays of `create_jvm`. -/
def make (count : ℕ) : OptionArrays where
  optionStrs := List.replicate count {}
  options := List.replicate count {}

/-- `optionStrs[i] = text`. -/
def assign (a : OptionArrays) (i : ℕ) (text : List Char) : Option OptionArrays :=
  a.optionStrs[i]?.map fun str =>
    { a with optionStrs := a.optionStrs.set i { text, version := str.version + 1 } }

/-- `optionStrs[i].c_str()`. -/
def cStr (a : OptionArrays) (i : ℕ) : Option CStrPtr :=
  a.optionStrs[i]?.map fun str => { index := i, version := str.version }

/-- `options[i] = option`. -/
def setOption (a : OptionArrays) (i : ℕ) (option : OptionSlot) : Option OptionArrays :=
  if i < a.options.length then some { a with options := a.options.set i option } else none

/-- Assign a string, and let the option of the same index point to it. -/
def install (a : OptionArrays) (i : ℕ) (text : List Char) (extraInfo : Option JvmHook) :
    Option OptionArrays := do
  let a ← a.assign i text
  let optionString ← a.cStr i
  a.setOption i { optionString, extraInfo }

/-- What an option points to; there is nothing behind a pointer to a string that was assigned
since. -/
def text (a : OptionArrays) (option : OptionSlot) : Option (List Char) :=
  option.optionString.bind fun ptr =>
    a.optionStrs[ptr.index]?.bind fun str =>
      if str.version = ptr.version then some str.text else none

/-- The options with their texts in place of the pointers. -/
def view (a : OptionArrays) : List JavaVMOption :=
  a.options.map fun option => { optionString := a.text option, extraInfo := option.extraInfo }

end OptionArrays

/-- The local state of `set_JavaVMOptions`, with the arrays. -/
structure InPlaceState where
  n : ℕ := baseOptns
  j : ℕ := 0
  arrays : OptionArrays
  cwds : List (List Char) := []
  deriving DecidableEq

/-- The options in front of the loop. -/
def OptionArrays.initOptions (a : OptionArrays) (classpath : List Char) : Option OptionArrays := do
  let a ← a.install 0 (getJavaClasspath classpath) none
  let a ← a.install 1 "exit".toList (some .exiting)
  a.install 2 "abort".toList (some .aborting)

/-- One iteration of the loop. -/
def InPlaceState.next (s : InPlaceState) (currArg : List Char) : Option InPlaceState := do
  let arrays ← s.arrays.setOption (s.j + baseOptns) {}
  if isClasspathOption currArg then
    let arrays ← arrays.setOption 0 {}
    let arrays ← arrays.install 0 currArg none
    return { s with arrays }
  else if isSetCwdOption currArg then
    return { s with
      arrays
      cwds := if setCwdOptn.length < currArg.length then
          s.cwds ++ [currArg.drop setCwdOptn.length] else s.cwds }
  else
    let arrays ← arrays.install (s.j + baseOptns) currArg none
    return { s with n := s.n + 1, j := s.j + 1, arrays }

/-- `create_jvm` from where it has `argc` on: the arrays are made and `set_JavaVMOptions` fills
them. `none` stands for a null pointer passed to `strncmp`, or a write out of bounds. -/
def setJavaVMOptionsInPlace (classpath : List Char) (argc : ℕ) (argv : Argv) :
    Option InPlaceState := do
  let arrays ← (OptionArrays.make (argc + baseOptns)).initOptions classpath
  (argv.take argc).foldlM (fun s entry => entry.bind s.next) { arrays }

/-! ## One write -/

/-- Both arrays have `count` entries, and an option points to its own string, as it is now. -/
structure OptionArrays.Own (count : ℕ) (a : OptionArrays) : Prop where
  optionStrs : a.optionStrs.length = count
  options : a.options.length = count
  own : ∀ i option ptr, a.options[i]? = some option → option.optionString = some ptr →
    a.cStr i = some ptr

variable {count i : ℕ} {a : OptionArrays}

theorem own_make (count : ℕ) : (OptionArrays.make count).Own count where
  optionStrs := List.length_replicate
  options := List.length_replicate
  own i option ptr hoption hptr := by
    obtain rfl := List.eq_of_mem_replicate (List.mem_of_getElem? hoption)
    cases hptr

theorem view_make (count : ℕ) : (OptionArrays.make count).view = List.replicate count {} :=
  List.map_replicate

/-- Clearing an option. -/
theorem OptionArrays.Own.clear (h : a.Own count) (hi : i < count) :
    ∃ a', a.setOption i {} = some a' ∧ a'.Own count ∧ a'.view = a.view.set i {} := by
  refine ⟨_, if_pos (h.options.symm ▸ hi), ⟨h.optionStrs, ?_, ?_⟩, List.map_set⟩
  · rw [List.length_set, h.options]
  · intro k option ptr hoption hptr
    rw [List.getElem?_set] at hoption
    split_ifs at hoption with hk hlt
    · cases hoption
      cases hptr
    · exact h.own k option ptr hoption hptr

/-- The arrays after an option was installed. -/
def OptionArrays.installed (a : OptionArrays) (i : ℕ) (str : OptionStr)
    (extraInfo : Option JvmHook) : OptionArrays where
  optionStrs := a.optionStrs.set i str
  options := a.options.set i { optionString := some ⟨i, str.version⟩, extraInfo }

theorem install_eq {str : OptionStr} (hstr : a.optionStrs[i]? = some str)
    (hi : i < a.options.length) (text : List Char) (extraInfo : Option JvmHook) :
    a.install i text extraInfo = some (a.installed i ⟨text, str.version + 1⟩ extraInfo) := by
  have hassign : a.assign i text =
      some { a with optionStrs := a.optionStrs.set i ⟨text, str.version + 1⟩ } := by
    rw [OptionArrays.assign, hstr]
    rfl
  have hself : (a.optionStrs.set i ⟨text, str.version + 1⟩)[i]? =
      some ⟨text, str.version + 1⟩ :=
    List.getElem?_set_self (List.getElem?_eq_some_iff.1 hstr).1
  simp only [OptionArrays.install, hassign, OptionArrays.cStr, hself, OptionArrays.setOption,
    Option.bind_eq_bind, Option.bind_some, Option.map_some, if_pos hi]
  rfl

/-- A pointer to another string is not affected. -/
theorem text_installed_of_ne {str : OptionStr} {extraInfo : Option JvmHook} {option : OptionSlot}
    (hne : ∀ ptr, option.optionString = some ptr → ptr.index ≠ i) :
    (a.installed i str extraInfo).text option = a.text option := by
  unfold OptionArrays.text
  cases hptr : option.optionString with
  | none => rfl
  | some ptr =>
    show ((a.optionStrs.set i str)[ptr.index]?.bind _) = _
    rw [List.getElem?_set_ne (hne ptr hptr).symm]
    rfl

theorem text_installed_self {str : OptionStr} {extraInfo : Option JvmHook}
    (hi : i < a.optionStrs.length) :
    (a.installed i str extraInfo).text { optionString := some ⟨i, str.version⟩, extraInfo } =
      some str.text := by
  show ((a.optionStrs.set i str)[i]?.bind _) = _
  rw [List.getElem?_set_self hi, Option.bind_some, if_pos rfl]

theorem OptionArrays.Own.index_eq (h : a.Own count) {option : OptionSlot} {ptr : CStrPtr}
    (hoption : a.options[i]? = some option) (hptr : option.optionString = some ptr) :
    ptr.index = i := by
  obtain ⟨str, -, rfl⟩ := Option.map_eq_some_iff.1 (h.own i option ptr hoption hptr)
  rfl

theorem OptionArrays.Own.installed (h : a.Own count) (hi : i < count) (str : OptionStr)
    (extraInfo : Option JvmHook) : (a.installed i str extraInfo).Own count := by
  refine ⟨?_, ?_, ?_⟩
  · show (a.optionStrs.set i str).length = count
    rw [List.length_set, h.optionStrs]
  · show (a.options.set i _).length = count
    rw [List.length_set, h.options]
  · intro k option ptr hoption hptr
    by_cases hk : i = k
    · subst hk
      have hself : (a.options.set i _)[i]? = some option := hoption
      rw [List.getElem?_set_self (h.options.symm ▸ hi)] at hself
      cases hself
      cases hptr
      show Option.map _ (a.optionStrs.set i str)[i]? = _
      rw [List.getElem?_set_self (h.optionStrs.symm ▸ hi)]
      rfl
    · have hother : (a.options.set i _)[k]? = some option := hoption
      rw [List.getElem?_set_ne hk] at hother
      show Option.map _ (a.optionStrs.set i str)[k]? = _
      rw [List.getElem?_set_ne hk]
      exact h.own k option ptr hother hptr

theorem OptionArrays.Own.view_installed (h : a.Own count) (hi : i < count) (str : OptionStr)
    (extraInfo : Option JvmHook) :
    (a.installed i str extraInfo).view =
      a.view.set i { optionString := some str.text, extraInfo } := by
  apply List.ext_getElem?
  intro k
  show ((a.options.set i _).map _)[k]? = _
  rw [List.getElem?_map]
  by_cases hk : i = k
  · subst hk
    rw [List.getElem?_set_self (h.options.symm ▸ hi),
      List.getElem?_set_self (by simpa [OptionArrays.view, h.options] using hi), Option.map_some,
      text_installed_self (h.optionStrs.symm ▸ hi)]
  · rw [List.getElem?_set_ne hk, List.getElem?_set_ne hk]
    show _ = (a.options.map _)[k]?
    rw [List.getElem?_map]
    cases hoption : a.options[k]? with
    | none => rfl
    | some option =>
      rw [Option.map_some, Option.map_some, text_installed_of_ne]
      intro ptr hptr heq
      exact hk (heq ▸ h.index_eq hoption hptr)

/-- Installing an option leaves the others as they are: they point to other strings. -/
theorem OptionArrays.Own.install (h : a.Own count) (hi : i < count) (text : List Char)
    (extraInfo : Option JvmHook) :
    ∃ a', a.install i text extraInfo = some a' ∧ a'.Own count ∧
      a'.view = a.view.set i { optionString := some text, extraInfo } := by
  obtain ⟨str, hstr⟩ : ∃ str, a.optionStrs[i]? = some str :=
    ⟨_, List.getElem?_eq_getElem (h.optionStrs.symm ▸ hi)⟩
  exact ⟨_, install_eq hstr (h.options.symm ▸ hi) text extraInfo, h.installed hi _ extraInfo,
    h.view_installed hi _ extraInfo⟩

/-! ## The loop -/

/-- The state with the texts of the options. -/
def InPlaceState.view (s : InPlaceState) : OptionsState where
  n := s.n
  j := s.j
  options := s.arrays.view
  cwds := s.cwds

theorem initOptions_own (classpath : List Char) (argc : ℕ) :
    ∃ a, (OptionArrays.make (argc + baseOptns)).initOptions classpath = some a ∧
      a.Own (argc + baseOptns) ∧
      a.view = (initOptions classpath (argc + baseOptns)).options := by
  have hcount : 2 < argc + baseOptns := Nat.lt_of_lt_of_le (by decide) (Nat.le_add_left 3 argc)
  obtain ⟨a₀, hfirst, hown₀, hview₀⟩ := (own_make (argc + baseOptns)).install
    (show 0 < _ by omega) (getJavaClasspath classpath) none
  obtain ⟨a₁, hsecond, hown₁, hview₁⟩ := hown₀.install (show 1 < _ by omega) "exit".toList
    (some .exiting)
  obtain ⟨a₂, hthird, hown₂, hview₂⟩ := hown₁.install (show 2 < _ by omega) "abort".toList
    (some .aborting)
  refine ⟨a₂, ?_, hown₂, ?_⟩
  · simp only [OptionArrays.initOptions, hfirst, hsecond, hthird, Option.bind_eq_bind,
      Option.bind_some]
  · rw [hview₂, hview₁, hview₀, view_make]
    rfl

/-- **One iteration** does to the texts what the iteration of `setJavaVMOptions` does. -/
theorem next_own {s : InPlaceState} (h : s.arrays.Own count) (hj : s.j + baseOptns < count)
    (currArg : List Char) :
    ∃ s', s.next currArg = some s' ∧ s'.arrays.Own count ∧ s'.view = s.view.next currArg ∧
      s'.j ≤ s.j + 1 := by
  obtain ⟨cleared, hclear, hown, hview⟩ := h.clear hj
  by_cases hclasspath : isClasspathOption currArg = true
  · have hzero : 0 < count := Nat.zero_lt_of_lt hj
    obtain ⟨first, hfirst, hownFirst, hviewFirst⟩ := hown.clear hzero
    obtain ⟨a, hinstall, hownLast, hviewLast⟩ := hownFirst.install hzero currArg none
    refine ⟨{ s with arrays := a }, ?_, hownLast, ?_, Nat.le_succ s.j⟩
    · simp only [InPlaceState.next, hclear, hfirst, hinstall, if_pos hclasspath,
        Option.bind_eq_bind, Option.bind_some]
      rfl
    · simp only [InPlaceState.view, OptionsState.next, if_pos hclasspath]
      rw [hviewLast, hviewFirst, hview, List.set_set]
  · by_cases hcwd : isSetCwdOption currArg = true
    · refine ⟨{ s with
          arrays := cleared
          cwds := if setCwdOptn.length < currArg.length then
              s.cwds ++ [currArg.drop setCwdOptn.length] else s.cwds }, ?_, hown, ?_,
        Nat.le_succ s.j⟩
      · simp only [InPlaceState.next, hclear, if_neg hclasspath, if_pos hcwd,
          Option.bind_eq_bind, Option.bind_some]
        rfl
      · simp only [InPlaceState.view, OptionsState.next, if_neg hclasspath, if_pos hcwd]
        rw [hview]
    · obtain ⟨a, hinstall, hownLast, hviewLast⟩ := hown.install hj currArg none
      refine ⟨{ s with n := s.n + 1, j := s.j + 1, arrays := a }, ?_, hownLast, ?_, le_rfl⟩
      · simp only [InPlaceState.next, hclear, hinstall, if_neg hclasspath, if_neg hcwd,
          Option.bind_eq_bind, Option.bind_some]
        rfl
      · simp only [InPlaceState.view, OptionsState.next, if_neg hclasspath, if_neg hcwd]
        rw [hviewLast, hview]

/-- The whole loop: `j` stays behind the number of the arguments. -/
theorem foldlM_next_own {s : InPlaceState} (args : List (List Char)) (h : s.arrays.Own count)
    (hj : s.j + args.length + baseOptns ≤ count) :
    ∃ s', (args.map some).foldlM (fun s entry => entry.bind s.next) s = some s' ∧
      s'.arrays.Own count ∧
      (args.map some).foldlM (fun s entry => entry.map s.next) s.view = some s'.view := by
  induction args generalizing s with
  | nil => exact ⟨s, rfl, h, rfl⟩
  | cons arg args ih =>
    rw [List.length_cons] at hj
    obtain ⟨t, hnext, hown, hview, hle⟩ := next_own h (by omega) arg
    obtain ⟨s', hloop, hown', hview'⟩ := ih hown (by omega)
    rw [hview] at hview'
    refine ⟨s', ?_, hown', ?_⟩
    · rw [List.map_cons, List.foldlM_cons, Option.bind_some, hnext]
      exact hloop
    · rw [List.map_cons, List.foldlM_cons, Option.map_some]
      exact hview'

/-- **The arrays are filled** within their bounds, and hold what `setJavaVMOptions` says. -/
theorem setJavaVMOptionsInPlace_eq (classpath : List Char) (args : List (List Char))
    (rest : Argv) :
    ∃ s, setJavaVMOptionsInPlace classpath args.length (args.map some ++ rest) = some s ∧
      s.arrays.Own (args.length + baseOptns) ∧
      setJavaVMOptions classpath args.length (args.map some ++ rest) = some s.view := by
  have hargv : (args.map some ++ rest).take args.length = args.map some :=
    List.take_left' (List.length_map some)
  obtain ⟨a, hinit, hown, hview⟩ := initOptions_own classpath args.length
  have hbound : ({ arrays := a } : InPlaceState).j + args.length + baseOptns ≤
      args.length + baseOptns := by
    show 0 + args.length + baseOptns ≤ args.length + baseOptns
    omega
  obtain ⟨s, hloop, hown', hview'⟩ := foldlM_next_own args hown hbound
  have hstart : InPlaceState.view { arrays := a } =
      initOptions classpath (args.length + baseOptns) := by
    rw [InPlaceState.view, hview]
    rfl
  refine ⟨s, ?_, hown', ?_⟩
  · simp only [setJavaVMOptionsInPlace, hinit, hargv, Option.bind_eq_bind, Option.bind_some]
    exact hloop
  · rw [setJavaVMOptions, hargv, ← hstart]
    exact hview'

/-! ## What the options are -/

/-- The text of an option of the array. -/
def OptionArrays.optionText (a : OptionArrays) (i : ℕ) : Option (List Char) :=
  a.options[i]?.bind a.text

theorem strncmpEq_length_iff (arg optn : List Char) :
    strncmpEq arg optn optn.length = optn.isPrefixOf arg := by
  rw [Bool.eq_iff_iff, List.isPrefixOf_iff_prefix, List.prefix_iff_eq_take, strncmpEq,
    List.take_length, beq_iff_eq, eq_comm]

theorem isClasspathOption_eq : isClasspathOption = fun arg => jvmClasspathOptn.isPrefixOf arg := by
  funext arg
  exact strncmpEq_length_iff arg jvmClasspathOptn

theorem isPassedOn_eq : isPassedOn = fun arg =>
    !jvmClasspathOptn.isPrefixOf arg && !setCwdOptn.isPrefixOf arg := by
  funext arg
  rw [isPassedOn, isClasspathOption, isSetCwdOption, strncmpEq_length_iff, strncmpEq_length_iff]

theorem optionText_eq_view (a : OptionArrays) (i : ℕ) :
    a.optionText i = a.view[i]?.bind JavaVMOption.optionString := by
  rw [OptionArrays.optionText, OptionArrays.view, List.getElem?_map]
  cases a.options[i]? with
  | none => rfl
  | some option => rfl

/-- The options behind the hooks are the arguments that were passed on. -/
theorem getElem?_passed {first : List Char} {passed : List (List Char)} {free : ℕ}
    {cwds : List (List Char)} {i : ℕ} (hi : i < passed.length) :
    (optionsState first passed free cwds).options[i + baseOptns]? =
      some (plainOption passed[i]) := by
  show (plainOption first :: hookOptions ++ (passed.map plainOption ++ _))[i + 3]? = _
  rw [List.getElem?_append_right (Nat.le_add_left 3 i)]
  show (passed.map plainOption ++ _)[i + 3 - 3]? = _
  rw [Nat.add_sub_cancel, List.getElem?_append_left (by simpa using hi), List.getElem?_map,
    List.getElem?_eq_getElem hi, Option.map_some]

/-- No entry below `n` is a null pointer. -/
theorem optionString_lt {first : List Char} {passed : List (List Char)} {free : ℕ}
    {cwds : List (List Char)} {i : ℕ} (hi : i < (optionsState first passed free cwds).n) :
    ∃ text, (optionsState first passed free cwds).options[i]?.bind JavaVMOption.optionString =
      some text := by
  by_cases hhook : i < baseOptns
  · have hcases : i = 0 ∨ i = 1 ∨ i = 2 := by
      unfold baseOptns at hhook
      omega
    rcases hcases with rfl | rfl | rfl <;> exact ⟨_, rfl⟩
  · obtain ⟨k, rfl⟩ := Nat.exists_eq_add_of_le' (not_lt.1 hhook)
    rw [getElem?_passed (Nat.lt_of_add_lt_add_right hi)]
    exact ⟨_, rfl⟩

/-- **The array of options**: no write is out of bounds and no option below `n` is a null pointer,
the first one is the last class path among the arguments or the default, and the ones behind the
hooks are the other arguments but for the working directories. -/
theorem setJavaVMOptionsInPlace_options (classpath : List Char) (args : List (List Char))
    (rest : Argv) :
    ∃ s, setJavaVMOptionsInPlace classpath args.length (args.map some ++ rest) = some s ∧
      s.n ≤ args.length + baseOptns ∧
      (∀ i < s.n, ∃ text, s.arrays.optionText i = some text) ∧
      s.arrays.optionText 0 = some ((args.filter fun arg =>
        jvmClasspathOptn.isPrefixOf arg).getLastD (getJavaClasspath classpath)) ∧
      (List.range (s.n - baseOptns)).map (fun i => s.arrays.optionText (i + baseOptns)) =
        (args.filter fun arg =>
          !jvmClasspathOptn.isPrefixOf arg && !setCwdOptn.isPrefixOf arg).map some := by
  rw [← isClasspathOption_eq, ← isPassedOn_eq]
  obtain ⟨s, hset, -, hview⟩ := setJavaVMOptionsInPlace_eq classpath args rest
  obtain ⟨cwds, hoptions⟩ := setJavaVMOptions_eq classpath args rest
  have hstate := Option.some.inj (hoptions.symm.trans hview)
  have htext : ∀ i, s.arrays.optionText i =
      s.view.options[i]?.bind JavaVMOption.optionString := optionText_eq_view s.arrays
  have hn : s.n = (args.filter isPassedOn).length + baseOptns :=
    (congrArg OptionsState.n hstate).symm
  refine ⟨s, hset, ?_, ?_, ?_, ?_⟩
  · rw [hn]
    exact Nat.add_le_add_right (List.length_filter_le _ _) baseOptns
  · intro i hi
    rw [htext, ← hstate]
    exact optionString_lt (Nat.lt_of_lt_of_eq hi hn)
  · rw [htext, ← hstate]
    rfl
  · rw [hn, Nat.add_sub_cancel]
    apply List.ext_getElem (by simp)
    intro i hi hi'
    rw [List.length_map] at hi'
    simp only [List.getElem_map, List.getElem_range]
    rw [htext, ← hstate, getElem?_passed hi']
    rfl

end Spartan
