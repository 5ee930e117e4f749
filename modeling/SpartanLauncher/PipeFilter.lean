import SpartanLauncher.Routing

/-!
# The filter of the `-pipe=` option

`forkable_main_entry` selects the operation in one scan over the command line, and removes the
`-pipe=` option in another one: a callback of `send_flattened_argv_mq_msg` that shifts the array
in place. The array has two more entries in front, and the callback does not know which option
was selected.

**Theorem (`pipeFilter_eq`).** The loops of the callback leave what `removePipeOption` leaves, with
the sentinel behind it.

**Theorem (`onlyInjected_filtered_iff`).** The callback removes just the injected option exactly
when the name of the socket does not look like the option itself, and a plain sub-command has no
argument that does.
-/

namespace Spartan

open CString

/-! ## The callback -/

/-- The array of `send_flattened_argv_mq_msg`: a null pointer is behind the last string. -/
def toArgv (args : List (List Char)) : Argv := args.map some ++ [none]

/-- The inner loop, from the entry that is removed: every entry becomes the next one. -/
def shiftDown (argc j : ℕ) (argv : Argv) : Argv :=
  (List.range' j (argc - j)).foldl (fun argv k => argv.set k (argv.getD (k + 1) none)) argv

/-- The outer loop, over the indices that are left. -/
def pipeFilterLoop (argc : ℕ) (argv : Argv) : List ℕ → ℕ × Argv
  | [] => (argc, argv)
  | j :: js =>
    if (argv.getD j none).any isPipeOption then (argc - 1, shiftDown argc j argv)
    else pipeFilterLoop argc argv js

/-- The callback, with the new value of `_argc_ref`. -/
def pipeFilter (argc : ℕ) (argv : Argv) : ℕ × Argv :=
  pipeFilterLoop argc argv (List.range argc)

/-- The argument list that is flattened: the entries of `argv_dup` that the callback leaves. -/
def flattenedArgv (ext uds : List Char) (args : List (List Char)) : Argv :=
  let filtered := pipeFilter (args.length + 2) (toArgv (ext :: uds :: args))
  filtered.2.take filtered.1

/-! ## What the loops leave -/

/-- Shifting moves what is behind the entry, and leaves the last entry twice. -/
theorem foldl_shift {α : Type*} (d : α) (pre : List α) (x : α) (post : List α) :
    (List.range' pre.length post.length).foldl (fun l k => l.set k (l.getD (k + 1) d))
      (pre ++ x :: post) = pre ++ (post ++ [(x :: post).getLast (List.cons_ne_nil x post)]) := by
  induction post generalizing pre x with
  | nil => rfl
  | cons y post ih =>
    have hnext : (pre ++ x :: y :: post).getD (pre.length + 1) d = y := by
      simp [List.getD_eq_getElem?_getD]
    have hset : (pre ++ x :: y :: post).set pre.length y = (pre ++ [y]) ++ y :: post := by
      simp
    have ih := ih (pre ++ [y]) y
    rw [List.length_append, List.length_singleton] at ih
    rw [List.length_cons, List.range'_succ, List.foldl_cons, hnext, hset, ih,
      List.getLast_cons_cons]
    simp

theorem shiftDown_toArgv (pre : List (List Char)) (x : List Char) (post : List (List Char)) :
    shiftDown (pre ++ x :: post).length pre.length (toArgv (pre ++ x :: post)) =
      toArgv (pre ++ post) ++ [none] := by
  have hshift := foldl_shift none (pre.map some) (some x) (toArgv post)
  have hargv : toArgv (pre ++ x :: post) = pre.map some ++ some x :: toArgv post := by
    simp [toArgv]
  have hcount : (pre ++ x :: post).length - pre.length = (toArgv post).length := by
    simp [toArgv]
  have hlast : (some x :: toArgv post).getLast (List.cons_ne_nil _ _) = none := by
    rw [List.getLast_cons (by simp [toArgv])]
    simp [toArgv]
  rw [hlast, List.length_map] at hshift
  rw [shiftDown, hargv, hcount, hshift]
  simp [toArgv]

/-- The scan has passed `pre`. -/
theorem pipeFilterLoop_toArgv (pre post : List (List Char)) :
    ∃ junk, pipeFilterLoop (pre ++ post).length (toArgv (pre ++ post))
      (List.range' pre.length post.length) =
        ((pre ++ removePipeOption post).length, toArgv (pre ++ removePipeOption post) ++ junk) := by
  induction post generalizing pre with
  | nil => exact ⟨[], by simp [removePipeOption, pipeFilterLoop]⟩
  | cons x post ih =>
    have hx : (toArgv (pre ++ x :: post)).getD pre.length none = some x := by
      simp [toArgv, List.getD_eq_getElem?_getD]
    rw [List.length_cons, List.range'_succ, pipeFilterLoop, hx, Option.any_some]
    by_cases hpipe : isPipeOption x = true
    · have hremove : removePipeOption (x :: post) = post := List.eraseP_cons_of_pos hpipe
      rw [if_pos hpipe, shiftDown_toArgv, hremove]
      exact ⟨[none], by simp⟩
    · have hremove : removePipeOption (x :: post) = x :: removePipeOption post :=
        List.eraseP_cons_of_neg hpipe
      obtain ⟨junk, hloop⟩ := ih (pre ++ [x])
      have hindex : (pre ++ [x]).length = pre.length + 1 := by simp
      rw [hindex] at hloop
      simp only [List.append_assoc, List.singleton_append] at hloop
      rw [if_neg hpipe, hremove]
      exact ⟨junk, hloop⟩

/-- **The callback** leaves the other entries, the sentinel, and what the shift left behind it. -/
theorem pipeFilter_eq (args : List (List Char)) :
    ∃ junk, pipeFilter args.length (toArgv args) =
      ((removePipeOption args).length, toArgv (removePipeOption args) ++ junk) := by
  rw [pipeFilter, List.range_eq_range']
  exact pipeFilterLoop_toArgv [] args

theorem flattenedArgv_eq (ext uds : List Char) (args : List (List Char)) :
    flattenedArgv ext uds args = (removePipeOption (ext :: uds :: args)).map some := by
  obtain ⟨junk, hfilter⟩ := pipeFilter_eq (ext :: uds :: args)
  rw [List.length_cons, List.length_cons] at hfilter
  rw [flattenedArgv, hfilter, toArgv, List.append_assoc]
  exact List.take_left' (by rw [List.length_map])

/-! ## The selected option -/

theorem next_operation {s : Selection} (hop : s.operation ≠ .none) (arg : List Char) :
    (s.next arg).operation = s.operation := foldl_operation hop [arg]

theorem next_pipeOption {s : Selection} (hop : s.operation ≠ .none) (arg : List Char) :
    (s.next arg).pipeOption = s.pipeOption := by
  by_cases hcmd : s.command = []
  · rw [next_of_no_command hop hcmd]
    split_ifs <;> rfl
  · rw [next_of_command hop hcmd]

theorem foldl_pipeOption {s : Selection} (hop : s.operation ≠ .none) (args : List (List Char)) :
    (args.foldl Selection.next s).pipeOption = s.pipeOption := by
  induction args generalizing s with
  | nil => rfl
  | cons arg args ih =>
    rw [List.foldl_cons, ih (by rw [next_operation hop]; exact hop), next_pipeOption hop]

/-- The option that was selected is the first one on the command line, and no operation was
recognized in front of it. -/
theorem foldl_invokedCommand {args : List (List Char)}
    (hop : (args.foldl Selection.next {}).operation = .invokedCommand) :
    ∃ pre post, args = pre ++ (args.foldl Selection.next {}).pipeOption :: post ∧
      isPipeOption (args.foldl Selection.next {}).pipeOption = true ∧
      pre.foldl Selection.next {} = {} ∧ ∀ a ∈ pre, isPipeOption a = false := by
  induction args with
  | nil => cases hop
  | cons arg args ih =>
    rw [List.foldl_cons] at hop ⊢
    rcases next_init arg with ⟨h, -, hpipe⟩ | ⟨h, -⟩ | ⟨h, hpipe⟩ | ⟨h, -, hinv⟩
    · rw [h] at hop ⊢
      obtain ⟨pre, post, hsplit, hselected, hnone, hpre⟩ := ih hop
      refine ⟨arg :: pre, post, by rw [List.cons_append, ← hsplit], hselected, ?_, ?_⟩
      · rw [List.foldl_cons, h, hnone]
      · exact List.forall_mem_cons.2 ⟨hpipe, hpre⟩
    · rw [h, foldl_operation (by simp)] at hop
      cases hop
    · have hoption : (args.foldl Selection.next (Selection.next {} arg)).pipeOption = arg := by
        rw [foldl_pipeOption (by simp [h]), h]
      rw [hoption]
      exact ⟨[], args, rfl, hpipe, rfl, by simp⟩
    · exact absurd ((foldl_operation h args).symm.trans hop) hinv

/-! ## Only the injected option -/

/-- The argument list that is flattened, behind the two entries in front: without the option that
selected the operation, and otherwise as on the command line. -/
def OnlyInjectedFiltered (client : Client) (args : List (List Char)) (uds : List Char) : Prop :=
  let selection := args.foldl Selection.next {}
  let ext := client.extendedInvokeOption
  (selection.operation = .invokedCommand → ∃ pre post,
    args = pre ++ selection.pipeOption :: post ∧
      (pre.foldl Selection.next {}).operation = .none ∧
      flattenedArgv ext uds args = (ext :: uds :: (pre ++ post)).map some) ∧
  (selection.operation = .command →
    flattenedArgv ext uds args = (ext :: uds :: args).map some)

/-- The name of the socket: the client's own, or the value of the selected option. -/
theorem posted_uds {client : Client} {args : List (List Char)} {queue : MqQueue}
    {command uds : List Char} {msg : Option (List Char)}
    (hposted : forkableMainEntry client args = .posted queue command uds msg) :
    uds = client.bindUdsSocketName ∧
        ((args.foldl Selection.next {}).operation = .command ∨
          (args.foldl Selection.next {}).operation = .invokedCommand) ∨
      (args.foldl Selection.next {}).operation = .invokedCommand ∧
        uds = ((args.foldl Selection.next {}).pipeOption.dropWhile (· ≠ '=')).drop 1 := by
  simp only [forkableMainEntry] at hposted
  split at hposted
  case h_5 hop =>
    split_ifs at hposted
    obtain ⟨-, huds, -⟩ := postCommand_posted hposted
    split_ifs at huds
    · exact .inl ⟨huds, .inr hop⟩
    · exact .inr ⟨hop, huds⟩
  case h_6 hop =>
    obtain ⟨-, huds, -⟩ := postCommand_posted hposted
    exact .inl ⟨huds, .inl hop⟩
  all_goals cases hposted

theorem isPipeOption_bindUdsSocketName (client : Client) :
    isPipeOption client.bindUdsSocketName = false := by
  simp [Client.bindUdsSocketName, makeFifoPipeName, isPipeOption]

variable {client : Client} {args : List (List Char)} {uds : List Char}

/-- The name is kept. -/
theorem flattenedArgv_of_name_kept (hpipe : isPipeOption uds = false) :
    flattenedArgv client.extendedInvokeOption uds args =
      (client.extendedInvokeOption :: uds :: removePipeOption args).map some := by
  have hext := (plainArg_extendedInvokeOption client).2
  rw [flattenedArgv_eq]
  unfold removePipeOption
  rw [List.eraseP_cons_of_neg (by simp [hext]), List.eraseP_cons_of_neg (by simp [hpipe])]

/-- The name looks like the option: it is removed, and the option stays. -/
theorem flattenedArgv_of_name_removed (hpipe : isPipeOption uds = true) :
    flattenedArgv client.extendedInvokeOption uds args =
      (client.extendedInvokeOption :: args).map some := by
  have hext := (plainArg_extendedInvokeOption client).2
  rw [flattenedArgv_eq]
  unfold removePipeOption
  rw [List.eraseP_cons_of_neg (by simp [hext]), List.eraseP_cons_of_pos hpipe]

/-- The value of an option is shorter than the option. -/
theorem value_ne_option {optn : List Char} (hpipe : isPipeOption optn = true) :
    (optn.dropWhile (· ≠ '=')).drop 1 ≠ optn := by
  intro h
  have hdrop := (List.dropWhile_suffix (fun c => decide (c ≠ '=')) (l := optn)).length_le
  have hlength := congrArg List.length h
  rw [List.length_drop] at hlength
  have hhead := List.head?_eq_some_iff.1 (head_of_isPipeOption hpipe)
  obtain ⟨rest, rfl⟩ := hhead
  rw [List.length_cons] at hlength hdrop
  omega

/-- A plain sub-command: nothing may be removed. -/
theorem onlyInjected_of_command (hop : (args.foldl Selection.next {}).operation = .command)
    (hpipe : isPipeOption uds = false) :
    OnlyInjectedFiltered client args uds ↔ ∀ a ∈ args, isPipeOption a = false := by
  simp only [OnlyInjectedFiltered, hop, flattenedArgv_of_name_kept hpipe,
    List.map_inj_right fun _ _ => Option.some.inj, List.cons.injEq, true_and, removePipeOption,
    List.eraseP_eq_self_iff]
  simp

/-- An injected option: it is removed, as long as the name is not taken for it. -/
theorem onlyInjected_of_invokedCommand
    (hop : (args.foldl Selection.next {}).operation = .invokedCommand)
    (huds : uds = client.bindUdsSocketName ∨
      uds = ((args.foldl Selection.next {}).pipeOption.dropWhile (· ≠ '=')).drop 1) :
    OnlyInjectedFiltered client args uds ↔ isPipeOption uds = false := by
  obtain ⟨pre, post, hsplit, hselected, hnone, hpre⟩ := foldl_invokedCommand hop
  refine ⟨?_, ?_⟩
  · intro honly
    obtain ⟨pre', post', hsplit', hnone', hgiven⟩ := honly.1 hop
    by_contra hpipe
    rw [Bool.not_eq_false] at hpipe
    rw [flattenedArgv_of_name_removed hpipe, List.map_inj_right fun _ _ => Option.some.inj,
      List.cons.injEq] at hgiven
    obtain ⟨-, hargs⟩ := hgiven
    have hhead : args.head? = some uds := by
      rw [hargs]
      rfl
    rw [hsplit'] at hhead
    cases pre' with
    | nil =>
      -- the name would be the option itself
      have hname := (Option.some.inj hhead).symm
      rcases huds with rfl | rfl
      · rw [isPipeOption_bindUdsSocketName] at hpipe
        cases hpipe
      · exact value_ne_option hselected hname
    | cons b pre' =>
      -- the name would have been selected in front of the option
      have hname : b = uds := Option.some.inj hhead
      subst hname
      rcases next_init b with ⟨-, -, h⟩ | ⟨-, h⟩ | ⟨h, -⟩ | ⟨h, -, -⟩
      · rw [hpipe] at h
        cases h
      · rw [isCommandWord_of_dash (head_of_isPipeOption hpipe)] at h
        cases h
      · rw [List.foldl_cons, foldl_operation (by simp [h]), h] at hnone'
        cases hnone'
      · rw [List.foldl_cons, foldl_operation h] at hnone'
        exact h hnone'
  · intro hpipe
    refine ⟨?_, fun hcommand => absurd (hop.symm.trans hcommand) (by decide)⟩
    intro _
    refine ⟨pre, post, hsplit, by rw [hnone], ?_⟩
    have hremove : removePipeOption args = pre ++ post := by
      rw [hsplit, removePipeOption, List.eraseP_append_right _ (by simpa using hpre),
        List.eraseP_cons_of_pos hselected]
    rw [flattenedArgv_of_name_kept hpipe, hremove]

/-- **Only the injected option is filtered.** -/
theorem onlyInjected_filtered_iff (client : Client) (args : List (List Char)) {queue : MqQueue}
    {command uds : List Char} {msg : Option (List Char)}
    (hposted : forkableMainEntry client args = .posted queue command uds msg) :
    OnlyInjectedFiltered client args uds ↔
      isPipeOption uds = false ∧ ((args.foldl Selection.next {}).operation = .command →
        ∀ a ∈ args, isPipeOption a = false) := by
  rcases posted_uds hposted with ⟨rfl, hop | hop⟩ | ⟨hop, huds⟩
  · have hpipe := isPipeOption_bindUdsSocketName client
    rw [onlyInjected_of_command hop hpipe]
    simp [hpipe, hop]
  · rw [onlyInjected_of_invokedCommand hop (.inl rfl)]
    simp [hop]
  · rw [onlyInjected_of_invokedCommand hop (.inr huds)]
    simp [hop]

/-- Two options: the first one was injected, the second one is an argument. -/
theorem onlyInjected_filtered_first :
    let client : Client :=
      ⟨false, ["etl".toList], "app".toList, by decide, ⟨7, by decide, by decide⟩, 3⟩
    let args := ["-Pipe=/tmp/uds".toList, "etl".toList, "-pipe=x".toList]
    ∃ command uds msg, forkableMainEntry client args = .posted .launcher command uds msg ∧
      OnlyInjectedFiltered client args uds := by
  intro client args
  have hposted : forkableMainEntry client args = .posted .launcher "etl".toList
      "/tmp/uds".toList
      (some "\"--EXTENDED_INVOKE=false\" \"/tmp/uds\" \"etl\" \"-pipe=x\"".toList) := by
    decide +kernel
  exact ⟨_, _, _, hposted, (onlyInjected_filtered_iff client args hposted).2 (by decide)⟩

/-- A sub-command with an argument that looks like the option: the argument is removed. -/
theorem not_onlyInjected_filtered :
    let client : Client :=
      ⟨false, ["etl".toList], "app".toList, by decide, ⟨7, by decide, by decide⟩, 3⟩
    let args := ["etl".toList, "-pipe=x".toList]
    ∃ command uds msg, forkableMainEntry client args = .posted .launcher command uds msg ∧
      ¬ OnlyInjectedFiltered client args uds := by
  intro client args
  have hop : (args.foldl Selection.next {}).operation = .command := by decide
  refine ⟨"etl".toList, "/tmp/app_JLauncher_UDS_7_3".toList,
    some "\"--EXTENDED_INVOKE=false\" \"/tmp/app_JLauncher_UDS_7_3\" \"etl\"".toList,
    by decide +kernel, ?_⟩
  rw [onlyInjected_of_command hop (by decide)]
  decide

end Spartan
