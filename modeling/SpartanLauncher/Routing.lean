import SpartanLauncher.Client

/-!
# Routing and dispatch of a command

The client looks for the command among all arguments; the receivers take the third token of the
message.

**Theorem (`routing_agrees_iff`).** They agree exactly when the first argument left after the
filter is the command itself, and not an option, `status` or `stop` that the client skips.

On the client's side the command is the first argument that `isCommandWord` accepts
(`posted_spec`). On the receivers' side the third token is the first argument that the filter
leaves (`subCommand_of_third`), as long as the second entry of the array was copied in full: when
the name of the socket looks like the option itself, the filter removes the name.
-/

namespace Spartan

open CString

/-! ## The command of the client -/

/-- An argument that the client takes for a command. -/
def isCommandWord : List Char → Bool
  | '-' :: _ => false
  | optn => !strcasecmpEq optn statusCmdArg && !strcasecmpEq optn stopCmdArg

theorem toLower_eq_dash {c : Char} (h : c.toLower = '-') : c = '-' := by
  rcases toLower_cases c with ⟨hlo, -, hc⟩ | ⟨-, hc⟩
  · have hdash : c.toLower.toNat = 45 := by rw [h]; rfl
    omega
  · rw [← hc, h]

theorem isCommandWord_of_dash {a : List Char} (h : a.head? = some '-') :
    isCommandWord a = false := by
  obtain ⟨optn, rfl⟩ := List.head?_eq_some_iff.1 h
  rfl

theorem head_of_isPipeOption {a : List Char} (h : isPipeOption a = true) : a.head? = some '-' := by
  unfold isPipeOption at h
  split at h
  · rfl
  · cases h

theorem isCommandWord_of_not_dash {a : List Char} (h : a.head? ≠ some '-') :
    isCommandWord a = (!strcasecmpEq a statusCmdArg && !strcasecmpEq a stopCmdArg) := by
  unfold isCommandWord
  split
  · simp at h
  · rfl

theorem head_map_toLower {a : List Char} :
    (a.map Char.toLower).head? = some '-' ↔ a.head? = some '-' := by
  rw [List.head?_map, Option.map_eq_some_iff]
  refine ⟨?_, ?_⟩
  · intro h
    obtain ⟨c, hc, hlower⟩ := h
    rw [hc, toLower_eq_dash hlower]
  · intro h
    exact ⟨'-', h, rfl⟩

/-- Being a command does not depend on the case. -/
theorem isCommandWord_congr {a b : List Char} (h : a.map Char.toLower = b.map Char.toLower) :
    isCommandWord a = isCommandWord b := by
  have hdash : a.head? = some '-' ↔ b.head? = some '-' := by
    rw [← head_map_toLower, h, head_map_toLower]
  by_cases ha : a.head? = some '-'
  · rw [isCommandWord_of_dash ha, isCommandWord_of_dash (hdash.1 ha)]
  · rw [isCommandWord_of_not_dash ha, isCommandWord_of_not_dash (mt hdash.2 ha), strcasecmpEq,
      strcasecmpEq, strcasecmpEq, strcasecmpEq, h]

/-- Once there is an operation and a command, nothing changes any more. -/
theorem next_of_command {s : Selection} (hop : s.operation ≠ .none) (hcmd : s.command ≠ [])
    (arg : List Char) : s.next arg = s := by
  have hempty : s.command.isEmpty = false := by simpa using hcmd
  unfold Selection.next
  split <;> simp [hop, hempty]

theorem foldl_of_command {s : Selection} (hop : s.operation ≠ .none) (hcmd : s.command ≠ [])
    (args : List (List Char)) : args.foldl Selection.next s = s := by
  induction args with
  | nil => rfl
  | cons arg args ih => rw [List.foldl_cons, next_of_command hop hcmd, ih]

/-- An operation without a command picks up the next command word. -/
theorem next_of_no_command {s : Selection} (hop : s.operation ≠ .none) (hcmd : s.command = [])
    (arg : List Char) :
    s.next arg = if isCommandWord arg then { s with command := arg } else s := by
  unfold Selection.next
  split
  · simp [hop, isCommandWord]
  · next hdash =>
    have hword : isCommandWord arg =
        (!strcasecmpEq arg statusCmdArg && !strcasecmpEq arg stopCmdArg) := by
      apply isCommandWord_of_not_dash
      intro h
      obtain ⟨optn, rfl⟩ := List.head?_eq_some_iff.1 h
      exact hdash optn rfl
    simp only [hop, hcmd, hword, if_false, List.isEmpty_nil, if_true]
    cases strcasecmpEq arg statusCmdArg <;> cases strcasecmpEq arg stopCmdArg <;> simp

theorem foldl_of_no_command {s : Selection} (hop : s.operation ≠ .none) (hcmd : s.command = [])
    {args : List (List Char)} (hargs : ∀ a ∈ args, a ≠ []) :
    args.foldl Selection.next s = { s with command := (args.find? isCommandWord).getD [] } := by
  induction args with
  | nil => simp [← hcmd]
  | cons arg args ih =>
    rw [List.foldl_cons, next_of_no_command hop hcmd]
    by_cases hword : isCommandWord arg
    · rw [if_pos hword, List.find?_cons_of_pos hword]
      exact foldl_of_command (s := { s with command := arg }) hop
        (hargs arg List.mem_cons_self) args
    · rw [if_neg hword, List.find?_cons_of_neg hword]
      exact ih fun a ha => hargs a (List.mem_cons_of_mem arg ha)

/-- The operation that is selected first stays. -/
theorem foldl_operation {s : Selection} (hop : s.operation ≠ .none) (args : List (List Char)) :
    (args.foldl Selection.next s).operation = s.operation := by
  induction args generalizing s with
  | nil => rfl
  | cons arg args ih =>
    have hnext : (s.next arg).operation = s.operation := by
      by_cases hcmd : s.command = []
      · rw [next_of_no_command hop hcmd]
        split_ifs <;> rfl
      · rw [next_of_command hop hcmd]
    rw [List.foldl_cons, ih (hnext ▸ hop), hnext]

/-- The first argument, when there is no operation yet. -/
theorem next_init (arg : List Char) :
    (Selection.next {} arg = {} ∧ arg.head? = some '-' ∧ isPipeOption arg = false) ∨
      (Selection.next {} arg = { operation := .command, command := arg } ∧
        isCommandWord arg = true) ∨
      (Selection.next {} arg = { operation := .invokedCommand, pipeOption := arg } ∧
        isPipeOption arg = true) ∨
      ((Selection.next {} arg).operation ≠ .none ∧
        (Selection.next {} arg).operation ≠ .command ∧
        (Selection.next {} arg).operation ≠ .invokedCommand) := by
  by_cases hdash : arg.head? = some '-'
  · obtain ⟨optn, rfl⟩ := List.head?_eq_some_iff.1 hdash
    by_cases hsrvc : strcasecmpEq optn srvcOptn = true
    · exact .inr (.inr (.inr (by simp [Selection.next, hsrvc])))
    · by_cases hpipe : strncasecmpEq optn pipeOptn pipeOptn.length = true
      · exact .inr (.inr (.inl ⟨by simp [Selection.next, hsrvc, hpipe], hpipe⟩))
      · refine .inl ⟨by simp [Selection.next, hsrvc, hpipe], rfl, ?_⟩
        simpa [isPipeOption] using hpipe
  · have hword := isCommandWord_of_not_dash hdash
    have hnext : Selection.next {} arg =
        if strcasecmpEq arg statusCmdArg then { operation := .status, command := statusCmdArg }
        else if strcasecmpEq arg stopCmdArg then { operation := .stop, command := stopCmdArg }
        else { operation := .command, command := arg } := by
      unfold Selection.next
      split
      · simp at hdash
      · simp
    rw [hnext, hword]
    split_ifs with hstatus hstop
    · exact .inr (.inr (.inr (by simp)))
    · exact .inr (.inr (.inr (by simp)))
    · exact .inr (.inl ⟨rfl, by simp [hstatus, hstop]⟩)

/-- What the loop over the arguments selects when the operation is about a command. -/
theorem foldl_init {args : List (List Char)} (hargs : ∀ a ∈ args, a ≠ []) :
    let s := args.foldl Selection.next {}
    (s.operation = .command → args.find? isCommandWord = some s.command) ∧
      (s.operation = .invokedCommand → s.command = (args.find? isCommandWord).getD [] ∧
        ∃ pre post, args = pre ++ s.pipeOption :: post ∧ isPipeOption s.pipeOption = true ∧
          ∀ a ∈ pre, a.head? = some '-' ∧ isPipeOption a = false) := by
  induction args with
  | nil => simp
  | cons arg args ih =>
    have hargs' : ∀ a ∈ args, a ≠ [] := fun a ha => hargs a (List.mem_cons_of_mem arg ha)
    rw [List.foldl_cons]
    rcases next_init arg with ⟨h, hdash, hpipe⟩ | ⟨h, hword⟩ | ⟨h, hpipe⟩ | ⟨h, hcmd, hinv⟩
    · have hword : ¬ isCommandWord arg = true := by simp [isCommandWord_of_dash hdash]
      rw [h, List.find?_cons_of_neg hword]
      obtain ⟨hop, hinvoked⟩ := ih hargs'
      refine ⟨hop, ?_⟩
      intro hop
      obtain ⟨hcommand, pre, post, hsplit, hp, hpre⟩ := hinvoked hop
      refine ⟨hcommand, arg :: pre, post, by rw [List.cons_append, ← hsplit], hp, ?_⟩
      exact List.forall_mem_cons.2 ⟨⟨hdash, hpipe⟩, hpre⟩
    · rw [h, foldl_of_command (by simp) (hargs arg List.mem_cons_self),
        List.find?_cons_of_pos hword]
      simp
    · have hword : ¬ isCommandWord arg = true := by
        simp [isCommandWord_of_dash (head_of_isPipeOption hpipe)]
      rw [h, foldl_of_no_command (by simp) rfl hargs', List.find?_cons_of_neg hword]
      exact ⟨by simp, fun _ => ⟨rfl, [], args, rfl, hpipe, by simp⟩⟩
    · have hop := foldl_operation h args
      exact ⟨fun h' => absurd (hop.symm.trans h') hcmd, fun h' => absurd (hop.symm.trans h') hinv⟩

/-! ## The posted message -/

/-- An argument as the command line of a shell delivers it, when it needs no quotes. -/
structure PlainArg (a : List Char) : Prop where
  ne_nil : a ≠ []
  no_space : ' ' ∉ a
  no_quote : '"' ∉ a
  nulFree : '\x00' ∉ a

instance (a : List Char) : Decidable (PlainArg a) :=
  decidable_of_iff (a ≠ [] ∧ ' ' ∉ a ∧ '"' ∉ a ∧ '\x00' ∉ a)
    ⟨fun ⟨h₁, h₂, h₃, h₄⟩ => ⟨h₁, h₂, h₃, h₄⟩,
      fun h => ⟨h.ne_nil, h.no_space, h.no_quote, h.nulFree⟩⟩

/-- The name of the socket in the message, and where it came from when it looks like an option. -/
structure UdsSpec (args : List (List Char)) (uds : List Char) : Prop where
  ne_nil : uds ≠ []
  nulFree : '\x00' ∉ uds
  pipe : isPipeOption uds = true → ∃ pre p post, args = pre ++ p :: post ∧
    isPipeOption p = true ∧ uds.length ≤ p.length ∧
    ∀ a ∈ pre, a.head? = some '-' ∧ isPipeOption a = false

theorem nul_notMem_printDec (n : ℕ) : '\x00' ∉ printDec n := fun h => by
  simpa using isDigit_printDec h

theorem bindUdsSocketName_spec (client : Client) (args : List (List Char)) :
    UdsSpec args client.bindUdsSocketName := by
  refine ⟨?_, ?_, ?_⟩
  · simp [Client.bindUdsSocketName, makeFifoPipeName]
  · simp [Client.bindUdsSocketName, makeFifoPipeName, client.progname_nulFree,
      nul_notMem_printDec]
  · intro h
    simp [Client.bindUdsSocketName, makeFifoPipeName, isPipeOption] at h

theorem postCommand_posted {client : Client} {args : List (List Char)} {queue : MqQueue}
    {cmd arg command uds : List Char} {msg : Option (List Char)}
    (h : client.postCommand args cmd arg = .posted queue command uds msg) :
    command = cmd.map Char.toLower ∧
      uds = (if arg.isEmpty then client.bindUdsSocketName else arg) ∧
      msg = sendFlattenedArgvMqMsg args client.extendedInvokeOption uds := by
  simp only [Client.postCommand] at h
  obtain ⟨-, rfl, huds, rfl⟩ := ClientResult.posted.inj h
  exact ⟨rfl, huds.symm, by rw [huds]⟩

/-- What the client has posted: its command is the first command word. -/
theorem posted_spec {client : Client} {args : List (List Char)} {queue : MqQueue}
    {command uds : List Char} {msg : Option (List Char)} (hargs : ∀ a ∈ args, PlainArg a)
    (hposted : forkableMainEntry client args = .posted queue command uds msg) :
    (∃ w, args.find? isCommandWord = some w ∧ command = w.map Char.toLower) ∧ UdsSpec args uds ∧
      msg = sendFlattenedArgvMqMsg args client.extendedInvokeOption uds := by
  obtain ⟨hcommand, hinvoked⟩ := foldl_init fun a ha => (hargs a ha).ne_nil
  simp only [forkableMainEntry] at hposted
  split at hposted
  case h_5 hop =>
    obtain ⟨hcmd, pre, post, hsplit, hpipe, hpre⟩ := hinvoked hop
    by_cases hempty : (args.foldl Selection.next {}).command.isEmpty = true
    · rw [if_pos hempty] at hposted
      cases hposted
    rw [if_neg hempty] at hposted
    obtain ⟨rfl, huds, rfl⟩ := postCommand_posted hposted
    refine ⟨?_, ?_, rfl⟩
    · cases hfind : args.find? isCommandWord with
      | none => simp [hcmd, hfind] at hempty
      | some w => exact ⟨w, rfl, by rw [hcmd, hfind, Option.getD_some]⟩
    · subst huds
      split_ifs with hname
      · exact bindUdsSocketName_spec client args
      · set p := (args.foldl Selection.next {}).pipeOption
        have hsub : (p.dropWhile (· ≠ '=')).drop 1 <:+ p :=
          (List.drop_suffix _ _).trans (List.dropWhile_suffix _)
        refine ⟨by simpa using hname, ?_, ?_⟩
        · intro h
          exact (hargs p (by rw [hsplit]; simp)).nulFree (hsub.subset h)
        · intro _
          exact ⟨pre, p, post, hsplit, hpipe, hsub.length_le, hpre⟩
  case h_6 hop =>
    obtain ⟨rfl, rfl, rfl⟩ := postCommand_posted hposted
    exact ⟨⟨_, hcommand hop, rfl⟩, bindUdsSocketName_spec client args, rfl⟩
  all_goals cases hposted

/-! ## The command of the receivers -/

theorem thirdToken_intercalate {a b c : List Char} {rest : List (List Char)} (ha : a ≠ [])
    (ha' : ' ' ∉ a) (hb : b ≠ []) (hb' : ' ' ∉ b) (hc : c ≠ []) (hc' : ' ' ∉ c) :
    thirdToken ([' '].intercalate (a :: b :: c :: rest)) = some c := by
  have hthird : (strtok ' ' ([' '].intercalate (c :: rest))).map Prod.fst = some c := by
    cases rest with
    | nil => rw [strtok_intercalate_singleton hc hc', Option.map_some]
    | cons d rest => rw [strtok_intercalate_cons hc hc', Option.map_some]
  simp only [thirdToken, strtok_intercalate_cons ha ha', strtok_intercalate_cons hb hb',
    Option.bind_some, hthird]

theorem strndup_length (s : List Char) : strndup s s.length = cstr s := by
  rw [strndup, List.take_length]

/-- A message that starts with a quote is none of the notifications. -/
theorem handleSupervisorMsg_quote (msg : List Char) :
    handleSupervisorMsg ('"' :: msg) = some (.command (subCommand ('"' :: msg))) := by
  have htok : strtok ' ' ('"' :: msg) =
      some ('"' :: msg.takeWhile (· ≠ ' '), (msg.dropWhile (· ≠ ' ')).drop 1) := by
    simp [strtok]
  have hnotify : strncmpEq ('"' :: msg.takeWhile (· ≠ ' ')) childPidNotifyCmd
      childPidNotifyCmd.length = false := rfl
  have hcompletion : strncmpEq ('"' :: msg.takeWhile (· ≠ ' ')) childPidCompletionNotifyCmd
      childPidCompletionNotifyCmd.length = false := rfl
  simp only [handleSupervisorMsg, htok, Option.bind_some, hnotify, hcompletion,
    Bool.false_eq_true, if_false]

theorem receivedCommand_of_quote {queue : MqQueue} {m : List Char} (tail : List Char)
    (hm : cstr m = '"' :: tail) : receivedCommand queue m = subCommand (cstr m) := by
  simp only [receivedCommand, strndup_length]
  cases queue with
  | launcher => rfl
  | supervisor => simp only [hm, handleSupervisorMsg_quote]

theorem quoted_of_le {n : ℕ} {x : List Char} (h : n ≤ x.length) :
    quoted n x = '"' :: (x.take n ++ ['"']) := by
  rw [quoted, strncpy, Nat.sub_eq_zero_of_le h, List.replicate_zero, List.append_nil]

theorem notMem_quoted {n : ℕ} {x : List Char} {c : Char} (h : n ≤ x.length) (hc : c ∉ x)
    (hquote : c ≠ '"') : c ∉ quoted n x := by
  rw [quoted_of_le h]
  simp only [List.mem_cons, List.mem_append, List.not_mem_nil, or_false, not_or]
  exact ⟨hquote, fun hmem => hc (List.mem_of_mem_take hmem), hquote⟩

theorem quoted_ne_nil (n : ℕ) (x : List Char) : quoted n x ≠ [] := List.cons_ne_nil _ _

theorem filter_quoted {a : List Char} (h : '"' ∉ a) :
    (quoted a.length a).filter (· ≠ '"') = a := by
  have hself : a.filter (· ≠ '"') = a := by
    rw [List.filter_eq_self]
    intro c hc
    simpa using fun h' : c = '"' => h (h' ▸ hc)
  rw [quoted_of_le le_rfl, List.take_length, List.filter_cons_of_neg (by decide),
    List.filter_append, hself]
  simp

theorem nul_notMem_intercalate {blocks : List (List Char)} (h : ∀ b ∈ blocks, '\x00' ∉ b) :
    '\x00' ∉ [' '].intercalate blocks := by
  induction blocks with
  | nil => simp
  | cons b blocks ih =>
    have ih := ih fun b' hb' => h b' (List.mem_cons_of_mem b hb')
    cases blocks with
    | nil => simpa using h b List.mem_cons_self
    | cons b' blocks =>
      rw [List.intercalate_cons_cons]
      simp only [List.mem_append, List.mem_singleton, not_or]
      exact ⟨⟨h b List.mem_cons_self, by decide⟩, ih⟩

variable {args rest : List (List Char)} {ext uds x a : List Char}

/-- When the second entry is copied in full, the receivers find the third one. -/
theorem receivedCommand_of_third (hext : PlainArg ext) (huds : uds ≠ [])
    (hfilter : removePipeOption (ext :: uds :: args) = ext :: x :: a :: rest)
    (hx : uds.length ≤ x.length) (hspace : ' ' ∉ x) (hnul : '\x00' ∉ x) (ha : PlainArg a)
    (hrest : ∀ r ∈ rest, '\x00' ∉ r) :
    ∃ m, sendFlattenedArgvMqMsg args ext uds = some m ∧
      thirdToken (strndup m m.length) = some (quoted a.length a) ∧
      ∀ queue, receivedCommand queue m = some a := by
  have hcopied : copied ((ext.length, ext) :: (uds.length, x) ::
      (a :: rest).map fun arg => (arg.length, arg)) =
      quoted ext.length ext :: quoted uds.length x :: quoted a.length a ::
        copied (rest.map fun arg => (arg.length, arg)) := by
    simp [copied, hext.ne_nil, huds, ha.ne_nil]
  refine ⟨_, sendFlattenedArgvMqMsg_eq hext.ne_nil hfilter, ?_⟩
  rw [hcopied, strndup_length]
  set m := [' '].intercalate (quoted ext.length ext :: quoted uds.length x ::
    quoted a.length a :: copied (rest.map fun arg => (arg.length, arg))) with hm
  have hcstr : cstr m = m := by
    refine cstr_of_nulFree (nul_notMem_intercalate ?_)
    intro b hb
    simp only [List.mem_cons, copied, List.mem_map, List.mem_filter] at hb
    rcases hb with rfl | rfl | rfl | ⟨e, ⟨⟨r, hr, rfl⟩, -⟩, rfl⟩
    · exact notMem_quoted le_rfl hext.nulFree (by decide)
    · exact notMem_quoted hx hnul (by decide)
    · exact notMem_quoted le_rfl ha.nulFree (by decide)
    · exact notMem_quoted le_rfl (hrest r hr) (by decide)
  have hthird : thirdToken m = some (quoted a.length a) :=
    thirdToken_intercalate (quoted_ne_nil _ _)
      (notMem_quoted le_rfl hext.no_space (by decide)) (quoted_ne_nil _ _)
      (notMem_quoted hx hspace (by decide)) (quoted_ne_nil _ _)
      (notMem_quoted le_rfl ha.no_space (by decide))
  have hhead : ∃ tail, cstr m = '"' :: tail := by
    rw [hcstr, hm, List.intercalate_cons_cons, quoted]
    exact ⟨_, rfl⟩
  obtain ⟨tail, htail⟩ := hhead
  refine ⟨hcstr.symm ▸ hthird, ?_⟩
  intro queue
  rw [receivedCommand_of_quote tail htail, hcstr, subCommand, hthird, Option.map_some,
    filter_quoted ha.no_quote]

/-- When the second entry is shorter than the name of the socket, the message ends in it. -/
theorem receivedCommand_of_short (hext : PlainArg ext)
    (hfilter : removePipeOption (ext :: uds :: args) = ext :: x :: rest)
    (hx : x.length < uds.length) (hspace : ' ' ∉ x) (hnul : '\x00' ∉ x) :
    ∃ m, sendFlattenedArgvMqMsg args ext uds = some m ∧
      ∀ queue, receivedCommand queue m = none := by
  refine ⟨_, sendFlattenedArgvMqMsg_eq hext.ne_nil hfilter, ?_⟩
  intro queue
  have hne : uds.length ≠ 0 := by omega
  have hcopied : copied ((ext.length, ext) :: (uds.length, x) ::
      rest.map fun arg => (arg.length, arg)) =
      quoted ext.length ext :: quoted uds.length x ::
        copied (rest.map fun arg => (arg.length, arg)) := by
    simp [copied, hext.ne_nil, List.length_eq_zero_iff.not.1 hne]
  have hpad : ∃ tail, quoted uds.length x = '"' :: x ++ '\x00' :: tail := by
    obtain ⟨k, hk⟩ := Nat.exists_eq_add_of_lt hx
    refine ⟨List.replicate k '\x00' ++ ['"'], ?_⟩
    rw [quoted, strncpy, List.take_of_length_le hx.le, hk]
    have : x.length + k + 1 - x.length = k + 1 := by omega
    simp [this, List.replicate_succ]
  obtain ⟨tail, hpad⟩ := hpad
  set first := quoted ext.length ext with hfirst
  have hfirst' : '\x00' ∉ first := notMem_quoted le_rfl hext.nulFree (by decide)
  have hm : ∃ tail', [' '].intercalate (first :: quoted uds.length x ::
      copied (rest.map fun arg => (arg.length, arg))) =
      (first ++ ' ' :: '"' :: x) ++ '\x00' :: tail' := by
    rw [List.intercalate_cons_cons]
    cases copied (rest.map fun arg => (arg.length, arg)) with
    | nil => exact ⟨tail, by simp [hpad]⟩
    | cons b blocks => exact ⟨tail ++ ' ' :: [' '].intercalate (b :: blocks), by simp [hpad]⟩
  obtain ⟨tail', hm⟩ := hm
  rw [hcopied, hm]
  have hcstr := cstr_append_nul (s := first ++ ' ' :: '"' :: x) (t := tail')
    (by simp [hfirst', hnul])
  have hfst : strtok ' ' (first ++ ' ' :: '"' :: x) = some (first, '"' :: x) :=
    strtok_append (quoted_ne_nil _ _) (notMem_quoted le_rfl hext.no_space (by decide)) _
  have hsnd : strtok ' ' ('"' :: x) = some ('"' :: x, []) :=
    strtok_last (by simp) (by simp [hspace])
  rw [receivedCommand_of_quote ((ext ++ ['"']) ++ ' ' :: '"' :: x)
    (by rw [hcstr, hfirst, quoted_of_le le_rfl, List.take_length]; rfl), hcstr]
  simp only [subCommand, thirdToken, hfst, Option.bind_some, hsnd, strtok_nil, Option.map_none]

/-! ## Agreement -/

/-- The message has a third token, and the receiver takes it for the command that the client
chose the queue by. -/
def RoutingAgrees (queue : MqQueue) (command : List Char) (msg : Option (List Char)) : Prop :=
  ∃ m name, msg = some m ∧ (thirdToken (strndup m m.length)).isSome = true ∧
    receivedCommand queue m = some name ∧ strcasecmpEq name command = true

theorem plainArg_extendedInvokeOption (client : Client) :
    PlainArg client.extendedInvokeOption ∧ isPipeOption client.extendedInvokeOption = false := by
  unfold Client.extendedInvokeOption
  cases client.isExtendedInvoke <;> exact ⟨⟨by decide, by decide, by decide, by decide⟩, rfl⟩

/-- The filter removes no command. -/
theorem find?_removePipeOption (args : List (List Char)) :
    (removePipeOption args).find? isCommandWord = args.find? isCommandWord := by
  induction args with
  | nil => rfl
  | cons arg args ih =>
    unfold removePipeOption at ih ⊢
    by_cases hpipe : isPipeOption arg = true
    · have hword : ¬ isCommandWord arg = true := by
        simp [isCommandWord_of_dash (head_of_isPipeOption hpipe)]
      rw [List.eraseP_cons_of_pos hpipe, List.find?_cons_of_neg hword]
    · rw [List.eraseP_cons_of_neg hpipe]
      by_cases hword : isCommandWord arg = true
      · rw [List.find?_cons_of_pos hword, List.find?_cons_of_pos hword]
      · rw [List.find?_cons_of_neg hword, List.find?_cons_of_neg hword, ih]

/-- An argument is the client's command, up to the case, only if it is a command word. -/
theorem isCommandWord_of_eq {args : List (List Char)} {a w : List Char}
    (hw : args.find? isCommandWord = some w)
    (h : strcasecmpEq a (w.map Char.toLower) = true) : isCommandWord a = true := by
  rw [strcasecmpEq_iff, map_toLower_toLower] at h
  rw [isCommandWord_congr h]
  exact List.find?_some hw

/-- The receivers find the first argument left by the filter: it has to be the command. -/
theorem routingAgrees_iff_of_head {args rest : List (List Char)} {a w m : List Char}
    {queue : MqQueue} (hw : args.find? isCommandWord = some w)
    (hhead : removePipeOption args = a :: rest)
    (hthird : (thirdToken (strndup m m.length)).isSome = true)
    (hreceived : ∀ queue, receivedCommand queue m = some a) :
    RoutingAgrees queue (w.map Char.toLower) (some m) ↔ isCommandWord a = true := by
  refine ⟨?_, ?_⟩
  · intro hagrees
    obtain ⟨m', name, hm', -, hname, heq⟩ := hagrees
    cases hm'
    rw [hreceived] at hname
    cases hname
    exact isCommandWord_of_eq hw heq
  · intro hword
    have hfind := find?_removePipeOption args
    rw [hhead, List.find?_cons_of_pos hword, hw] at hfind
    cases hfind
    refine ⟨m, a, rfl, hthird, hreceived queue, ?_⟩
    rw [strcasecmpEq_iff, map_toLower_toLower]

/-- When the filter removes the name of the socket and the first two arguments are options, the
receivers find the second one, or nothing. -/
theorem not_routingAgrees {args rest : List (List Char)} {ext uds b c w : List Char}
    {queue : MqQueue} (hw : args.find? isCommandWord = some w) (hext : PlainArg ext)
    (huds : uds ≠ []) (hfilter : removePipeOption (ext :: uds :: b :: c :: rest) =
      ext :: b :: c :: rest) (hb : PlainArg b) (hc : PlainArg c)
    (hrest : ∀ r ∈ rest, '\x00' ∉ r) (hdash : c.head? = some '-') :
    ¬ RoutingAgrees queue (w.map Char.toLower)
      (sendFlattenedArgvMqMsg (b :: c :: rest) ext uds) := by
  intro hagrees
  obtain ⟨m, name, hm, -, hname, heq⟩ := hagrees
  rcases Nat.lt_or_ge b.length uds.length with hlt | hle
  · obtain ⟨m', hm', hreceived⟩ :=
      receivedCommand_of_short hext hfilter hlt hb.no_space hb.nulFree
    cases hm.symm.trans hm'
    rw [hreceived] at hname
    cases hname
  · obtain ⟨m', hm', -, hreceived⟩ :=
      receivedCommand_of_third hext huds hfilter hle hb.no_space hb.nulFree hc hrest
    cases hm.symm.trans hm'
    rw [hreceived] at hname
    cases hname
    have hword := isCommandWord_of_eq hw heq
    rw [isCommandWord_of_dash hdash] at hword
    cases hword

/-- The filter keeps the name of the socket: the receivers find the first argument that is left. -/
theorem routingAgrees_iff_of_name_kept {args rest : List (List Char)} {ext uds a w : List Char}
    {queue : MqQueue} (hw : args.find? isCommandWord = some w) (hext : PlainArg ext)
    (hextPipe : isPipeOption ext = false) (huds : UdsSpec args uds) (hspace : ' ' ∉ uds)
    (hpipe : ¬ isPipeOption uds = true) (hhead : removePipeOption args = a :: rest)
    (ha : PlainArg a) (hrest : ∀ r ∈ rest, '\x00' ∉ r) :
    RoutingAgrees queue (w.map Char.toLower) (sendFlattenedArgvMqMsg args ext uds) ↔
      isCommandWord a = true := by
  have hfilter : removePipeOption (ext :: uds :: args) = ext :: uds :: a :: rest := by
    rw [← hhead]
    unfold removePipeOption
    rw [List.eraseP_cons_of_neg (by simp [hextPipe]), List.eraseP_cons_of_neg hpipe]
  obtain ⟨m, hm, hthird, hreceived⟩ := receivedCommand_of_third hext huds.ne_nil hfilter le_rfl
    hspace huds.nulFree ha hrest
  rw [hm]
  exact routingAgrees_iff_of_head hw hhead (by rw [hthird]; rfl) hreceived

/-- The filter removes the name of the socket, which looks like the option, and leaves all
arguments. When the first of them is the option that the name came from, it is what the receivers
skip in place of the name. -/
theorem routingAgrees_iff_of_name_removed {args rest : List (List Char)}
    {ext uds a w : List Char} {queue : MqQueue} (hargs : ∀ a ∈ args, PlainArg a)
    (hw : args.find? isCommandWord = some w) (hext : PlainArg ext)
    (hextPipe : isPipeOption ext = false) (huds : UdsSpec args uds)
    (hpipe : isPipeOption uds = true) (hhead : removePipeOption args = a :: rest)
    (ha : PlainArg a) (hrest : ∀ r ∈ rest, '\x00' ∉ r) :
    RoutingAgrees queue (w.map Char.toLower) (sendFlattenedArgvMqMsg args ext uds) ↔
      isCommandWord a = true := by
  have hfilter : removePipeOption (ext :: uds :: args) = ext :: args := by
    unfold removePipeOption
    rw [List.eraseP_cons_of_neg (by simp [hextPipe]), List.eraseP_cons_of_pos hpipe]
  obtain ⟨pre, p, post, hsplit, hp, hlen, hpre⟩ := huds.pipe hpipe
  cases pre with
  | nil =>
    rw [List.nil_append] at hsplit
    subst hsplit
    have hpost : post = a :: rest := (List.eraseP_cons_of_pos hp).symm.trans hhead
    subst hpost
    have hpPlain := hargs p List.mem_cons_self
    obtain ⟨m, hm, hthird, hreceived⟩ := receivedCommand_of_third hext huds.ne_nil hfilter hlen
      hpPlain.no_space hpPlain.nulFree ha hrest
    rw [hm]
    exact routingAgrees_iff_of_head hw hhead (by rw [hthird]; rfl) hreceived
  | cons b pre =>
    -- the first two arguments are options
    have hb := hpre b List.mem_cons_self
    have hne : pre ++ p :: post ≠ [] := by simp
    obtain ⟨c, tail, htail⟩ := List.exists_cons_of_ne_nil hne
    have hc : c.head? = some '-' := by
      cases pre with
      | nil =>
        cases htail
        exact head_of_isPipeOption hp
      | cons c' pre =>
        cases htail
        exact (hpre c (by simp)).1
    rw [List.cons_append, htail] at hsplit
    subst hsplit
    have hab : a = b := by
      unfold removePipeOption at hhead
      rw [List.eraseP_cons_of_neg (by simp [hb.2])] at hhead
      exact (List.cons.inj hhead).1.symm
    rw [hab, isCommandWord_of_dash hb.1]
    refine iff_of_false ?_ (by simp)
    exact not_routingAgrees hw hext huds.ne_nil hfilter (hargs b List.mem_cons_self)
      (hargs c (by simp)) (fun r hr => (hargs r (by simp [hr])).nulFree) hc

/-- **Routing and dispatch of a command.** -/
theorem routing_agrees_iff (client : Client) (args : List (List Char)) {queue : MqQueue}
    {command uds : List Char} {msg : Option (List Char)} (hargs : ∀ a ∈ args, PlainArg a)
    (hposted : forkableMainEntry client args = .posted queue command uds msg)
    (hspace : ' ' ∉ uds) :
    RoutingAgrees queue command msg ↔
      ∃ a, (removePipeOption args).head? = some a ∧ isCommandWord a = true := by
  obtain ⟨⟨w, hw, rfl⟩, huds, rfl⟩ := posted_spec hargs hposted
  obtain ⟨hext, hextPipe⟩ := plainArg_extendedInvokeOption client
  have hsub : ∀ a ∈ removePipeOption args, PlainArg a := fun a ha =>
    hargs a (List.mem_of_mem_eraseP ha)
  cases hhead : removePipeOption args with
  | nil =>
    have hfind := find?_removePipeOption args
    rw [hhead, hw] at hfind
    cases hfind
  | cons a rest =>
    rw [hhead, List.forall_mem_cons] at hsub
    have hiff : (∃ a', (a :: rest).head? = some a' ∧ isCommandWord a' = true) ↔
        isCommandWord a = true := by simp
    rw [hiff]
    have hrest : ∀ r ∈ rest, '\x00' ∉ r := fun r hr => (hsub.2 r hr).nulFree
    by_cases hpipe : isPipeOption uds = true
    · exact routingAgrees_iff_of_name_removed hargs hw hext hextPipe huds hpipe hhead hsub.1 hrest
    · exact routingAgrees_iff_of_name_kept hw hext hextPipe huds hspace hpipe hhead hsub.1 hrest

/-- A command that another program invokes, with the `-pipe=` option behind it. -/
theorem routing_agrees_pipe :
    let client : Client :=
      ⟨false, ["etl".toList], "app".toList, by decide, ⟨7, by decide, by decide⟩, 3⟩
    let args := ["-PIPE=/tmp/uds".toList, "ETL".toList, "-v".toList]
    ∃ command uds msg, forkableMainEntry client args = .posted .launcher command uds msg ∧
      RoutingAgrees .launcher command msg := by
  intro client args
  have hposted : forkableMainEntry client args = .posted .launcher "etl".toList
      "/tmp/uds".toList
      (some "\"--EXTENDED_INVOKE=false\" \"/tmp/uds\" \"ETL\" \"-v\"".toList) := by
    decide +kernel
  exact ⟨_, _, _, hposted,
    (routing_agrees_iff client args (by decide) hposted (by decide)).2
      ⟨"ETL".toList, by decide, by decide⟩⟩

/-- An option in front of the command: the client skips it, the receivers do not. -/
theorem routing_disagrees :
    let client : Client :=
      ⟨false, ["etl".toList], "app".toList, by decide, ⟨7, by decide, by decide⟩, 3⟩
    let args := ["-v".toList, "etl".toList]
    ∃ command uds msg, (∀ a ∈ args, PlainArg a) ∧
      forkableMainEntry client args = .posted .launcher command uds msg ∧ ' ' ∉ uds ∧
      ¬ RoutingAgrees .launcher command msg := by
  intro client args
  refine ⟨"etl".toList, "/tmp/app_JLauncher_UDS_7_3".toList,
    some "\"--EXTENDED_INVOKE=false\" \"/tmp/app_JLauncher_UDS_7_3\" \"-v\" \"etl\"".toList,
    by decide, by decide +kernel, by decide, ?_⟩
  intro hagrees
  obtain ⟨m, name, hm, -, hname, heq⟩ := hagrees
  cases hm
  have hreceived : receivedCommand .launcher
      "\"--EXTENDED_INVOKE=false\" \"/tmp/app_JLauncher_UDS_7_3\" \"-v\" \"etl\"".toList =
      some "-v".toList := by decide +kernel
  cases hreceived.symm.trans hname
  exact absurd heq (by decide)

end Spartan
