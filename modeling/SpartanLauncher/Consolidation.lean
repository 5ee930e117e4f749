import SpartanLauncher.JvmOptions

/-!
# The array accesses of the consolidation

`consolidate_jvm_options` again, with its indexes: every access is checked against the array, a
null pointer cannot be made a string, and a loop that does not come to its end has no result.

**Theorem (`consolidateInPlace_eq`).** No access fails, both loops end, and the result is the one
of `consolidateJvmOptions`.

**Theorem (`consolidateInPlace_keeps_first`).** What is in the array then.
-/

namespace Spartan

open CString KeepFirst

/-- `argv[i] = entry`, where `i` is inside the array. -/
def storeEntry (argv : Argv) (i : ℕ) (entry : Option (List Char)) : Option Argv :=
  if i < argv.length then some (argv.set i entry) else none

/-- The first loop, with the number of visits to its head at most. `none` stands for an access
outside of the array, a null pointer passed to `std::string`, or a loop that goes on. -/
def markLoop (argc : ℕ) : ℕ → ℕ → List (List Char) → ℕ → Argv → Option (ℕ × Argv)
  | 0, _, _, _, _ => none
  | fuel + 1, i, jvmOptionsPrefixes, removedCount, argv =>
    if i < argc then
      argv[i]?.join.bind fun arg =>
        if jvmOptionsPrefixes.contains (optionPrefix arg) then
          (storeEntry argv i none).bind fun argv =>
            markLoop argc fuel (i + 1) jvmOptionsPrefixes (removedCount + 1) argv
        else markLoop argc fuel (i + 1) (optionPrefix arg :: jvmOptionsPrefixes) removedCount argv
    else some (removedCount, argv)

/-- The second loop, likewise. -/
def compactLoop (argc : ℕ) : ℕ → ℕ → ℕ → Argv → Option Argv
  | 0, _, _, _ => none
  | fuel + 1, i, j, argv =>
    if i < argc - 1 ∧ j < argc then
      argv[i]?.bind fun curr => argv[j]?.bind fun next =>
        match curr, next with
        | none, some arg =>
          ((storeEntry argv i (some arg)).bind fun argv => storeEntry argv j none).bind
            fun argv => compactLoop argc fuel (i + 1) (j + 1) argv
        | none, none => compactLoop argc fuel i (j + 1) argv
        | some _, _ => compactLoop argc fuel (i + 1) (j + 1) argv
    else some argv

/-- `consolidate_jvm_options` on `argc` and the array: the result, the new `argc`, the array. -/
def consolidateInPlace (argc : ℕ) (argv : Argv) : Option (Bool × ℕ × Argv) :=
  if argc < 2 then some (false, argc, argv)
  else
    (markLoop argc (argc + 1) 0 [] 0 argv).bind fun (removedCount, argv) =>
      if 0 < removedCount then
        (compactLoop argc (argc + 1) 0 1 argv).map fun argv => (true, argc - removedCount, argv)
      else some (false, argc, argv)

/-! ## No access fails -/

/-- The first loop at index `i`: the entries in front are done, the ones behind as they were. -/
theorem markLoop_eq {argc fuel : ℕ} (done : Argv) (prefixes : List (List Char))
    (args : List (List Char)) (hargc : argc = done.length + args.length)
    (hfuel : args.length < fuel) :
    markLoop argc fuel done.length prefixes (done.count none) (done ++ args.map some) =
      some ((done ++ markDuplicates prefixes args).count none,
        done ++ markDuplicates prefixes args) := by
  induction args generalizing done prefixes fuel with
  | nil =>
    obtain ⟨fuel, rfl⟩ : ∃ m, fuel = m + 1 := ⟨fuel - 1, by omega⟩
    rw [List.length_nil, Nat.add_zero] at hargc
    simp [markLoop, markDuplicates, hargc]
  | cons arg args ih =>
    obtain ⟨fuel, rfl⟩ : ∃ m, fuel = m + 1 := ⟨fuel - 1, by omega⟩
    rw [List.length_cons] at hargc hfuel
    have hcurr : (done ++ (arg :: args).map some)[done.length]?.join = some arg := by simp
    have hstore : storeEntry (done ++ (arg :: args).map some) done.length none =
        some (done ++ [none] ++ args.map some) := by
      simp [storeEntry]
    rw [markLoop, if_pos (by omega), hcurr, Option.bind_some]
    unfold markDuplicates
    split_ifs with hknown
    · have ih := @ih fuel (done ++ [none]) prefixes (by simp; omega) (by omega)
      rw [List.length_append, List.count_append] at ih
      rw [hstore, Option.bind_some]
      refine ih.trans ?_
      rw [List.append_assoc, List.singleton_append]
    · have ih := @ih fuel (done ++ [some arg]) (optionPrefix arg :: prefixes) (by simp; omega)
        (by omega)
      rw [List.length_append, List.count_append, List.append_assoc, List.singleton_append,
        List.append_assoc, List.singleton_append] at ih
      exact ih

/-- Each iteration of the second loop brings `j` nearer to the end of the array. -/
theorem compactLoop_eq {argc fuel : ℕ} (i j : ℕ) (argv : Argv) (hargc : argv.length = argc)
    (hfuel : argc < fuel + j) :
    compactLoop argc (fuel + 1) i j argv = some (compact argc fuel i j argv) := by
  induction fuel generalizing i j argv with
  | zero => rw [compactLoop, if_neg (by omega), compact]
  | succ fuel ih =>
    rw [compactLoop, compact]
    split_ifs with hloop
    · have hi : argv[i]? = some (argv.getD i none) := by
        rw [List.getD_eq_getElem?_getD, List.getElem?_eq_getElem (by omega), Option.getD_some]
      have hj : argv[j]? = some (argv.getD j none) := by
        rw [List.getD_eq_getElem?_getD, List.getElem?_eq_getElem (by omega), Option.getD_some]
      rw [hi, Option.bind_some, hj, Option.bind_some]
      cases argv.getD i none with
      | some arg => exact ih (i + 1) (j + 1) argv hargc (by omega)
      | none =>
        cases argv.getD j none with
        | none => exact ih i (j + 1) argv hargc (by omega)
        | some next =>
          have hstore : ((storeEntry argv i (some next)).bind fun argv => storeEntry argv j none) =
              some ((argv.set i (some next)).set j none) := by
            rw [storeEntry, if_pos (by omega), Option.bind_some, storeEntry, List.length_set,
              if_pos (by omega)]
          simp only [hstore, Option.bind_some]
          exact ih (i + 1) (j + 1) _ (by simpa using hargc) (by omega)
    · rfl

/-- **The accesses:** every index is inside the array, both loops end, and the array is the one
of `consolidateJvmOptions`. -/
theorem consolidateInPlace_eq (args : List (List Char)) :
    consolidateInPlace args.length (args.map some) = some (consolidateJvmOptions args) := by
  have hmark := @markLoop_eq args.length (args.length + 1) [] [] args (by simp) (by omega)
  simp only [List.length_nil, List.count_nil, List.nil_append] at hmark
  have hcompact := @compactLoop_eq args.length args.length 0 1
    (markDuplicates [] args) (length_markDuplicates [] args) (by omega)
  simp only [consolidateInPlace, consolidateJvmOptions, hmark, Option.bind_some, hcompact,
    Option.map_some]
  split_ifs
  · rfl
  · rfl
  · rfl

/-! ## What is in the array -/

/-- The options whose prefix differs from the ones of all earlier options, in their order. -/
def firstOptions (args : List (List Char)) : List (List Char) :=
  (args.zipIdx.filter fun p =>
    (args.take p.2).all fun earlier => optionPrefix earlier ≠ optionPrefix p.1).map Prod.fst

theorem firstOptions_eq (args : List (List Char)) :
    firstOptions args = keepFirst optionPrefix [] args :=
  (keepFirst_eq_filter optionPrefix args).symm

/-- **Consolidation keeps the first options** of their prefix: they are in front, null pointers
behind them, and the new `argc` is their number. -/
theorem consolidateInPlace_keeps_first (args : List (List Char)) :
    ∃ result argc' argv',
      consolidateInPlace args.length (args.map some) = some (result, argc', argv') ∧
      argv'.length = args.length ∧
      argv'.take argc' = (firstOptions args).map some ∧
      (∀ entry ∈ argv'.drop argc', entry = none) ∧
      argc' = (firstOptions args).length ∧
      (result = true ↔ argc' < args.length) := by
  have hlength := (keepFirst_sublist optionPrefix [] args).length_le
  rw [consolidateInPlace_eq, consolidateJvmOptions_eq, firstOptions_eq]
  refine ⟨_, _, _, rfl, ?_, ?_, ?_, rfl, decide_eq_true_iff⟩
  · simp
    omega
  · exact List.take_left' (by simp)
  · rw [List.drop_left' (by simp)]
    intro entry hentry
    exact List.eq_of_mem_replicate hentry

example : consolidateInPlace 3 (["-Xms8m".toList, "-Xms9m".toList, "-ea".toList].map some) =
    some (true, 2, [some "-Xms8m".toList, some "-ea".toList, none]) := by
  decide

end Spartan
