import SpartanLauncher.SessionState

/-!
# The commands of child processes

`get_child_processor_commands` collects the commands that a child process executes: the ones
listed in the configuration, separated by commas, and the annotated ones, all in lower case.

The first token of the list becomes a string without a test for the null pointer that `strtok_r`
returns when there is no token.

**Theorem (`getChildProcessorCommands_exact_iff`).** The set is the wanted one exactly when the
list of the configuration is empty or has a character other than a comma.
-/

namespace Spartan

open CString

/-- The loop over the other tokens, with the number of calls of `strtok_r` at most. -/
def addTokens : ℕ → List Char → List (List Char) → Option (List (List Char))
  | 0, _, _ => none
  | fuel + 1, save, cmdsSet =>
    match strtok ',' save with
    | none => some cmdsSet
    | some (cmdTok, save) => addTokens fuel save (cmdsSet.insert cmdTok)

/-- The tokens of the configured list. `none` stands for a string made of a null pointer. -/
def configuredCommands (spartanChildProcessorCommands : List Char) :
    Option (List (List Char)) :=
  if spartanChildProcessorCommands.isEmpty then some []
  else
    let cmds := (cstr spartanChildProcessorCommands).map Char.toLower
    (strtok ',' cmds).bind fun (cmdTok, save) => addTokens (save.length + 1) save [cmdTok]

/-- `get_child_processor_commands`. -/
def getChildProcessorCommands (ss : SessionState) : Option (List (List Char)) :=
  (configuredCommands ss.spartanChildProcessorCommands).map fun cmdsSet =>
    (ss.spSpartanChildProcessorCommands.getD []).foldl
      (fun cmdsSet methDesc => cmdsSet.insert ((cstr methDesc.command).map Char.toLower)) cmdsSet

/-- The wanted set. -/
def IsChildCommand (ss : SessionState) (cmd : List Char) : Prop :=
  (∃ piece ∈ pieces ',' ss.spartanChildProcessorCommands, cmd = piece.map Char.toLower) ∨
    ∃ methDesc ∈ ss.spSpartanChildProcessorCommands.getD [],
      cmd = methDesc.command.map Char.toLower

/-! ## The loops -/

theorem addTokens_eq_some {fuel : ℕ} (save : List Char) (cmdsSet : List (List Char))
    (hfuel : save.length < fuel) :
    ∃ cmdsSet', addTokens fuel save cmdsSet = some cmdsSet' ∧
      ∀ cmd, cmd ∈ cmdsSet' ↔ cmd ∈ cmdsSet ∨ cmd ∈ pieces ',' save := by
  induction fuel generalizing save cmdsSet with
  | zero => omega
  | succ fuel ih =>
    unfold addTokens
    cases htok : strtok ',' save with
    | none =>
      refine ⟨cmdsSet, rfl, fun cmd => ?_⟩
      simp [pieces_of_strtok_none htok]
    | some token =>
      obtain ⟨cmdTok, rest⟩ := token
      obtain ⟨hpieces, hlength⟩ := pieces_of_strtok htok
      obtain ⟨cmdsSet', hrun, hmem⟩ := ih rest (cmdsSet.insert cmdTok) (by omega)
      refine ⟨cmdsSet', hrun, fun cmd => ?_⟩
      rw [hmem, List.mem_insert_iff, hpieces, List.mem_cons]
      tauto

theorem mem_foldl_insert {α : Type} (f : α → List Char) (l : List α) (cmdsSet : List (List Char))
    (cmd : List Char) :
    cmd ∈ l.foldl (fun cmdsSet a => cmdsSet.insert (f a)) cmdsSet ↔
      cmd ∈ cmdsSet ∨ ∃ a ∈ l, cmd = f a := by
  induction l generalizing cmdsSet with
  | nil => simp
  | cons a l ih =>
    rw [List.foldl_cons, ih, List.mem_insert_iff, or_comm (a := cmd = f a), or_assoc]
    simp

/-- The configured list in lower case has the same pieces, in lower case. -/
theorem pieces_toLower (s : List Char) :
    pieces ',' (s.map Char.toLower) = (pieces ',' s).map (List.map Char.toLower) :=
  pieces_map (fun _ => toLower_eq_iff (by decide) (by decide)) s

/-- **The configured commands:** the pieces in lower case, unless there is no first token. -/
theorem configuredCommands_spec (commands : List Char) :
    (commands ≠ [] ∧ pieces ',' (cstr commands) = [] ∧ configuredCommands commands = none) ∨
    ∃ cmdsSet, configuredCommands commands = some cmdsSet ∧
      (commands = [] ∨ pieces ',' (cstr commands) ≠ []) ∧
      ∀ cmd, cmd ∈ cmdsSet ↔
        ∃ piece ∈ pieces ',' (cstr commands), cmd = piece.map Char.toLower := by
  unfold configuredCommands
  cases commands with
  | nil => exact .inr ⟨[], rfl, .inl rfl, by simp [cstr]⟩
  | cons c commands =>
    rw [if_neg (by simp)]
    have hlower := pieces_toLower (cstr (c :: commands))
    simp only
    cases htok : strtok ',' ((cstr (c :: commands)).map Char.toLower) with
    | none =>
      rw [pieces_of_strtok_none htok] at hlower
      exact .inl ⟨List.cons_ne_nil _ _, List.map_eq_nil_iff.1 hlower.symm, rfl⟩
    | some token =>
      obtain ⟨cmdTok, save⟩ := token
      obtain ⟨hpieces, -⟩ := pieces_of_strtok htok
      obtain ⟨cmdsSet, hrun, hmem⟩ := addTokens_eq_some save [cmdTok] (Nat.lt_succ_self _)
      rw [hpieces] at hlower
      refine .inr ⟨cmdsSet, hrun, .inr fun h => ?_, fun cmd => ?_⟩
      · rw [h] at hlower
        cases hlower
      · rw [hmem, List.mem_singleton, ← List.mem_cons, hlower, List.mem_map]
        exact exists_congr fun piece => and_congr_right fun _ => eq_comm

/-! ## The set -/

theorem toLower_eq_nul {c : Char} : c.toLower = '\x00' ↔ c = '\x00' :=
  toLower_eq_iff (by decide) (by decide)

theorem nul_mem_toLower {s : List Char} : '\x00' ∈ s.map Char.toLower ↔ '\x00' ∈ s := by
  rw [List.mem_map]
  simp [toLower_eq_nul]

theorem mem_pieces_subset {d c : Char} {s piece : List Char} (hpiece : piece ∈ pieces d s)
    (hc : c ∈ piece) : c ∈ s ∧ c ≠ d := by
  have hmem := List.mem_flatten_of_mem hpiece hc
  rw [flatten_pieces] at hmem
  simpa using List.mem_filter.1 hmem

theorem exists_mem_pieces {d c : Char} {s : List Char} (hc : c ∈ s) (hne : c ≠ d) :
    ∃ piece ∈ pieces d s, c ∈ piece := by
  rw [← List.mem_flatten, flatten_pieces]
  exact List.mem_filter.2 ⟨hc, by simpa using hne⟩

theorem pieces_ne_nil_iff {d : Char} {s : List Char} : pieces d s ≠ [] ↔ ∃ c ∈ s, c ≠ d := by
  refine ⟨?_, ?_⟩
  · intro h
    obtain ⟨piece, hpiece⟩ := List.exists_mem_of_ne_nil _ h
    have hne : piece ≠ [] := by simpa using (List.mem_filter.1 hpiece).2
    obtain ⟨c, hc⟩ := List.exists_mem_of_ne_nil _ hne
    exact ⟨c, mem_pieces_subset hpiece hc⟩
  · intro h
    obtain ⟨c, hc, hne⟩ := h
    obtain ⟨piece, hpiece, -⟩ := exists_mem_pieces hc hne
    exact List.ne_nil_of_mem hpiece

/-- A member of the set that the function returns is a C string. -/
theorem nul_notMem_of_mem {ss : SessionState} {cmdsSet : List (List Char)} {cmd : List Char}
    (hrun : getChildProcessorCommands ss = some cmdsSet) (hcmd : cmd ∈ cmdsSet) :
    '\x00' ∉ cmd := by
  obtain ⟨configured, hconfigured, rfl⟩ := Option.map_eq_some_iff.1 hrun
  rcases configuredCommands_spec ss.spartanChildProcessorCommands with
    ⟨-, -, hnone⟩ | ⟨cmdsSet, hsome, -, hmem⟩
  · rw [hnone] at hconfigured
    cases hconfigured
  · rw [hsome] at hconfigured
    cases hconfigured
    rcases (mem_foldl_insert _ _ _ _).1 hcmd with h | ⟨methDesc, -, rfl⟩
    · obtain ⟨piece, hpiece, rfl⟩ := (hmem cmd).1 h
      intro hnul
      exact nul_notMem_cstr _ (mem_pieces_subset hpiece (nul_mem_toLower.1 hnul)).1
    · rw [nul_mem_toLower]
      exact nul_notMem_cstr _

/-- **The set of child commands** is the wanted one exactly when the configured list is empty or
has a character other than a comma. (A C string has no NUL in it.) -/
theorem getChildProcessorCommands_exact_iff (ss : SessionState) :
    (∃ cmdsSet, getChildProcessorCommands ss = some cmdsSet ∧
      ∀ cmd, cmd ∈ cmdsSet ↔ IsChildCommand ss cmd) ↔
    (ss.spartanChildProcessorCommands = [] ∨ ∃ c ∈ ss.spartanChildProcessorCommands, c ≠ ',') ∧
      '\x00' ∉ ss.spartanChildProcessorCommands ∧
      ∀ methDesc ∈ ss.spSpartanChildProcessorCommands.getD [], '\x00' ∉ methDesc.command := by
  refine ⟨?_, ?_⟩
  · intro h
    obtain ⟨cmdsSet, hrun, hmem⟩ := h
    have hnul : '\x00' ∉ ss.spartanChildProcessorCommands := by
      intro hnul
      obtain ⟨piece, hpiece, hin⟩ := exists_mem_pieces (d := ',') hnul (by decide)
      exact nul_notMem_of_mem hrun ((hmem _).2 (.inl ⟨piece, hpiece, rfl⟩))
        (nul_mem_toLower.2 hin)
    refine ⟨?_, hnul, fun methDesc hmeth hin => ?_⟩
    · rcases configuredCommands_spec ss.spartanChildProcessorCommands with
        ⟨-, -, hnone⟩ | ⟨_, -, hsome, -⟩
      · rw [getChildProcessorCommands, hnone] at hrun
        cases hrun
      · rwa [cstr_of_nulFree hnul, pieces_ne_nil_iff] at hsome
    · exact nul_notMem_of_mem hrun ((hmem _).2 (.inr ⟨methDesc, hmeth, rfl⟩))
        (nul_mem_toLower.2 hin)
  · intro h
    obtain ⟨hcomma, hnul, hnames⟩ := h
    have hcstr := cstr_of_nulFree hnul
    rcases configuredCommands_spec ss.spartanChildProcessorCommands with
      ⟨hne, hpieces, -⟩ | ⟨cmdsSet, hsome, -, hmem⟩
    · rw [hcstr] at hpieces
      exact absurd hpieces (pieces_ne_nil_iff.2 (hcomma.resolve_left hne))
    · refine ⟨_, by rw [getChildProcessorCommands, hsome, Option.map_some], fun cmd => ?_⟩
      rw [mem_foldl_insert, hmem, hcstr, IsChildCommand]
      refine or_congr Iff.rfl (exists_congr fun methDesc => and_congr_right fun hmeth => ?_)
      rw [cstr_of_nulFree (hnames methDesc hmeth)]

/-- A list of commas only has no first token. -/
theorem getChildProcessorCommands_comma :
    ¬ ∀ ss, ∃ cmdsSet, getChildProcessorCommands ss = some cmdsSet ∧
      ∀ cmd, cmd ∈ cmdsSet ↔ IsChildCommand ss cmd := by
  intro h
  obtain ⟨cmdsSet, hrun, -⟩ := h { spartanChildProcessorCommands := [','] }
  have hnone : getChildProcessorCommands { spartanChildProcessorCommands := [','] } = none := by
    decide
  rw [hnone] at hrun
  cases hrun

end Spartan
