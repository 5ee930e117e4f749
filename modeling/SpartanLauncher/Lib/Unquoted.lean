import SpartanLauncher.Lib.Quoting

/-!
# Text without quotes

What the scanner of a command line does to characters that have no meaning for it, and what it
does to the ones that have.

* `foldl_step_plain`: plain characters are appended to the word being read.
* `foldl_step_args`: the arguments that are finished make no difference to the rest.
* `scan_insert`: text inserted behind plain characters ends up in the same argument.
* `prefix_of_appended`: plain text behind a space starts an argument, or is behind what is not
  plain.
* `special_lost`: of the quotes and backslashes of a text at least one is not kept.
* `splits_words_iff`: the words that survive being joined by spaces are the plain ones.
-/

namespace Quoting

open CString

/-- A quote or a backslash. -/
def isSpecial (c : Char) : Bool := c == '"' || c == '\'' || c == '\\'

/-- A character that means itself outside of quotes. -/
def isPlain (c : Char) : Bool := !isSpace c && !isSpecial c

theorem isPlain_iff {c : Char} : isPlain c = true ↔ isSpace c = false ∧ isSpecial c = false := by
  simp [isPlain]

theorem isSpecial_iff {c : Char} : isSpecial c = true ↔ c = '"' ∨ c = '\'' ∨ c = '\\' := by
  simp [isSpecial, or_assoc]

variable {s t : Scan} {c : Char} {text : List Char}

/-! ## Plain characters -/

/-- The scanner is not behind a backslash. -/
def Scan.Settled (s : Scan) : Prop :=
  s.mode = .plain ∨ s.mode = .quoted '"' ∨ s.mode = .quoted '\''

theorem step_plain (hs : s.Settled) (hc : isPlain c = true) :
    s.step c = { s with word := s.word ++ [c] } := by
  obtain ⟨hspace, hspecial⟩ := isPlain_iff.1 hc
  have hne : ¬ (c = '"' ∨ c = '\'' ∨ c = '\\') := fun h => by
    rw [isSpecial_iff.2 h] at hspecial
    cases hspecial
  rw [not_or, not_or] at hne
  obtain ⟨h₁, h₂, h₃⟩ := hne
  rcases hs with hmode | hmode | hmode
  · simp [Scan.step, hmode, hspace, h₁, h₂, h₃]
  · simp [Scan.step, hmode, h₁, h₃]
  · simp [Scan.step, hmode, h₂, h₃]

/-- Plain characters are appended to the word. -/
theorem foldl_step_plain (hs : s.Settled) (htext : ∀ c ∈ text, isPlain c = true) :
    text.foldl Scan.step s = { s with word := s.word ++ text } := by
  induction text generalizing s with
  | nil => simp
  | cons c text ih =>
    obtain ⟨hc, htext⟩ := List.forall_mem_cons.1 htext
    have hs' : ({ s with word := s.word ++ [c] } : Scan).Settled := hs
    rw [List.foldl_cons, step_plain hs hc, ih hs' htext]
    simp

/-- What is kept in front of the next character, if that is a plain one. -/
def Scan.front (s : Scan) : List Char :=
  match s.mode with
  | .quotedEscape _ => s.word ++ ['\\']
  | _ => s.word

/-- The modes that a text can lead to. -/
def Scan.Regular (s : Scan) : Prop :=
  ∀ q, s.mode = .quoted q ∨ s.mode = .quotedEscape q → q = '"' ∨ q = '\''

theorem regular_scan (text : List Char) : (scan text).Regular := (budget_scan text).quote

/-- The first plain character behind any text. -/
theorem step_plain_front (hs : s.Regular) (hc : isPlain c = true) :
    (s.step c).Settled ∧ (s.step c).args = s.args ∧ (s.step c).word = s.front ++ [c] := by
  cases hmode : s.mode with
  | plain =>
    rw [step_plain (.inl hmode) hc]
    exact ⟨.inl hmode, rfl, by simp [Scan.front, hmode]⟩
  | escape => exact ⟨.inl (by simp [Scan.step, hmode]), by simp [Scan.step, hmode],
      by simp [Scan.step, Scan.front, hmode]⟩
  | quoted q =>
    have hsettled : s.Settled := by
      rcases hs q (.inl hmode) with rfl | rfl
      · exact .inr (.inl hmode)
      · exact .inr (.inr hmode)
    rw [step_plain hsettled hc]
    exact ⟨hsettled, rfl, by simp [Scan.front, hmode]⟩
  | quotedEscape q =>
    have hq := hs q (.inr hmode)
    have hne : c ≠ q := by
      rintro rfl
      have hspecial := (isPlain_iff.1 hc).2
      rcases hq with rfl | rfl <;> cases hspecial
    refine ⟨?_, by simp [Scan.step, hmode], by simp [Scan.step, Scan.front, hmode, hne]⟩
    rcases hq with rfl | rfl
    · exact .inr (.inl (by simp [Scan.step, hmode]))
    · exact .inr (.inr (by simp [Scan.step, hmode]))

/-- Plain text behind any text. -/
theorem foldl_step_front (hs : s.Regular) (htext : ∀ c ∈ text, isPlain c = true)
    (hne : text ≠ []) :
    (text.foldl Scan.step s).Settled ∧ (text.foldl Scan.step s).args = s.args ∧
      (text.foldl Scan.step s).word = s.front ++ text := by
  cases text with
  | nil => exact absurd rfl hne
  | cons c text =>
    obtain ⟨hc, htext⟩ := List.forall_mem_cons.1 htext
    obtain ⟨hsettled, hargs, hword⟩ := step_plain_front hs hc
    rw [List.foldl_cons, foldl_step_plain hsettled htext]
    exact ⟨hsettled, hargs, by simp [hword]⟩

/-! ## Finished arguments -/

theorem step_args (args : List (List Char)) (s : Scan) (c : Char) :
    Scan.step { s with args := args ++ s.args } c =
      { s.step c with args := args ++ (s.step c).args } := by
  obtain ⟨mode, finished, word⟩ := s
  cases mode with
  | plain =>
    simp only [Scan.step]
    split_ifs <;> simp
  | escape => rfl
  | quoted q =>
    simp only [Scan.step]
    split_ifs <;> rfl
  | quotedEscape q => rfl

theorem foldl_step_args (args : List (List Char)) (text : List Char) (s : Scan) :
    text.foldl Scan.step { s with args := args ++ s.args } =
      { text.foldl Scan.step s with args := args ++ (text.foldl Scan.step s).args } := by
  induction text generalizing s with
  | nil => rfl
  | cons c text ih => rw [List.foldl_cons, List.foldl_cons, step_args, ih]

/-- Plain words, each with a space behind it. -/
theorem foldl_step_words {words : List (List Char)} (hne : ∀ word ∈ words, word ≠ [])
    (hplain : ∀ word ∈ words, ∀ c ∈ word, isPlain c = true) (args : List (List Char)) :
    (words.flatMap (· ++ [' '])).foldl Scan.step ⟨.plain, args, []⟩ =
      ⟨.plain, args ++ words, []⟩ := by
  induction words generalizing args with
  | nil => simp
  | cons word words ih =>
    rw [List.forall_mem_cons] at hne hplain
    rw [List.flatMap_cons, List.foldl_append, List.foldl_append,
      foldl_step_plain (.inl rfl) hplain.1, List.nil_append, List.foldl_cons, List.foldl_nil,
      step_space hne.1, ih hne.2 hplain.2]
    simp

/-- **Plain words in front of a text** are the first arguments. -/
theorem scan_words {words : List (List Char)} (hne : ∀ word ∈ words, word ≠ [])
    (hplain : ∀ word ∈ words, ∀ c ∈ word, isPlain c = true) (text : List Char) :
    (scan (words.flatMap (· ++ [' ']) ++ text)).mode = (scan text).mode ∧
      (scan (words.flatMap (· ++ [' ']) ++ text)).result = words ++ (scan text).result := by
  have hargs := foldl_step_args words text {}
  rw [List.append_nil] at hargs
  rw [scan, List.foldl_append, foldl_step_words hne hplain, List.nil_append, hargs]
  refine ⟨rfl, ?_⟩
  unfold Scan.result scan
  split_ifs
  · rfl
  · exact List.append_assoc _ _ _

/-! ## Inserting text -/

/-- Two states that differ in one argument, which starts with `head` in the one and with `head'`
in the other, behind `args`. -/
def Replaced (args : List (List Char)) (head head' : List Char) (s s' : Scan) : Prop :=
  s.mode = s'.mode ∧
    ((∃ rest, s.args = args ∧ s'.args = args ∧ s.word = head ++ rest ∧ s'.word = head' ++ rest) ∨
      ∃ rest more, s.args = args ++ (head ++ rest) :: more ∧
        s'.args = args ++ (head' ++ rest) :: more ∧ s.word = s'.word)

/-- The step lemma. -/
theorem replaced_step {args : List (List Char)} {head head' : List Char} {s s' : Scan}
    (hhead : head ≠ []) (hhead' : head' ≠ []) (h : Replaced args head head' s s') (c : Char) :
    Replaced args head head' (s.step c) (s'.step c) := by
  obtain ⟨mode, finished, word⟩ := s
  obtain ⟨mode', finished', word'⟩ := s'
  obtain ⟨hmode, ⟨rest, hargs, hargs', hword, hword'⟩ | ⟨rest, more, hargs, hargs', hword⟩⟩ := h
  · -- the argument is still being read
    simp only at hmode hargs hargs' hword hword'
    subst hmode hargs' hargs
    have hgoes : ∀ (mode : Mode) (kept : List Char), Replaced finished head head'
        ⟨mode, finished, word ++ kept⟩ ⟨mode, finished, word' ++ kept⟩ := by
      intro mode kept
      refine ⟨rfl, .inl ⟨rest ++ kept, rfl, rfl, ?_, ?_⟩⟩
      · rw [hword, List.append_assoc]
      · rw [hword', List.append_assoc]
    have hsame : ∀ mode : Mode, Replaced finished head head' ⟨mode, finished, word⟩
        ⟨mode, finished, word'⟩ := fun mode => by simpa using hgoes mode []
    cases mode with
    | plain =>
      have hne : word ≠ [] := by simp [hword, hhead]
      have hne' : word' ≠ [] := by simp [hword', hhead']
      simp only [Scan.step, if_neg hne, if_neg hne']
      split_ifs
      · exact ⟨rfl, .inr ⟨rest, [], by simp [hword], by simp [hword'], rfl⟩⟩
      · exact hsame _
      · exact hsame _
      · exact hgoes _ _
    | escape => exact hgoes _ _
    | quoted q =>
      simp only [Scan.step]
      split_ifs
      · exact hsame _
      · exact hsame _
      · exact hgoes _ _
    | quotedEscape q => exact hgoes _ _
  · -- the argument is finished
    simp only at hmode hargs hargs' hword
    subst hmode hword
    have hstep (args : List (List Char)) := step_args args ⟨mode, [], word⟩ c
    simp only [List.append_nil] at hstep
    rw [hargs, hargs', hstep (args ++ (head ++ rest) :: more),
      hstep (args ++ (head' ++ rest) :: more)]
    refine ⟨rfl, .inr ⟨rest, more ++ (Scan.step ⟨mode, [], word⟩ c).args, ?_, ?_, rfl⟩⟩
    · exact List.append_assoc _ _ _
    · exact List.append_assoc _ _ _

theorem replaced_foldl {args : List (List Char)} {head head' : List Char}
    (hhead : head ≠ []) (hhead' : head' ≠ []) (text : List Char) {s s' : Scan}
    (h : Replaced args head head' s s') :
    Replaced args head head' (text.foldl Scan.step s) (text.foldl Scan.step s') := by
  induction text generalizing s s' with
  | nil => exact h
  | cons c text ih => exact ih (replaced_step hhead hhead' h c)

theorem Replaced.result {args : List (List Char)} {head head' : List Char} {s s' : Scan}
    (h : Replaced args head head' s s') (hhead : head ≠ []) (hhead' : head' ≠ []) :
    ∃ rest more, s.result = args ++ (head ++ rest) :: more ∧
      s'.result = args ++ (head' ++ rest) :: more := by
  obtain ⟨-, ⟨rest, hargs, hargs', hword, hword'⟩ | ⟨rest, more, hargs, hargs', hword⟩⟩ := h
  · refine ⟨rest, [], ?_, ?_⟩
    · simp [Scan.result, hargs, hword, hhead]
    · simp [Scan.result, hargs', hword', hhead']
  · unfold Scan.result
    rw [← hword]
    split_ifs
    · exact ⟨rest, more, hargs, hargs'⟩
    · exact ⟨rest, more ++ [s.word], by simp [hargs], by simp [hargs']⟩

/-- **Inserting plain text** behind plain text changes one argument. -/
theorem scan_insert {front name inserted : List Char} (hname : ∀ c ∈ name, isPlain c = true)
    (hne : name ≠ []) (hinserted : ∀ c ∈ inserted, isPlain c = true) (behind : List Char) :
    (scan (front ++ (name ++ behind))).mode =
      (scan (front ++ (name ++ (inserted ++ behind)))).mode ∧
    ∃ rest more,
      (scan (front ++ (name ++ behind))).result =
        (scan front).args ++ ((scan front).front ++ name ++ rest) :: more ∧
      (scan (front ++ (name ++ (inserted ++ behind)))).result =
        (scan front).args ++ ((scan front).front ++ name ++ inserted ++ rest) :: more := by
  obtain ⟨hsettled, hargs, hword⟩ := foldl_step_front (regular_scan front) hname hne
  have hhead : (scan front).front ++ name ≠ [] := by simp [hne]
  have hhead' : (scan front).front ++ name ++ inserted ≠ [] := by simp [hne]
  have hstart : Replaced (scan front).args ((scan front).front ++ name)
      ((scan front).front ++ name ++ inserted) (name.foldl Scan.step (scan front))
      (inserted.foldl Scan.step (name.foldl Scan.step (scan front))) := by
    rw [foldl_step_plain hsettled hinserted]
    exact ⟨rfl, .inl ⟨[], hargs, hargs, by simp [hword], by simp [hword]⟩⟩
  have hend := replaced_foldl hhead hhead' behind hstart
  have htext : scan (front ++ (name ++ behind)) =
      behind.foldl Scan.step (name.foldl Scan.step (scan front)) := by
    simp [scan]
  have htext' : scan (front ++ (name ++ (inserted ++ behind))) =
      behind.foldl Scan.step (inserted.foldl Scan.step (name.foldl Scan.step (scan front))) := by
    simp [scan]
  rw [htext, htext']
  exact ⟨hend.1, hend.result hhead hhead'⟩

/-! ## Appending text -/

/-- A space ends the word, or is kept in it. -/
theorem step_space_cases (hs : s.Regular) :
    (∀ a ∈ (s.step ' ').args, a ∈ s.result) ∧ ((s.step ' ').front = [] ∨
      ∃ c kept, isPlain c = false ∧ (s.step ' ').front = s.word ++ c :: kept) := by
  have hspace : isSpace ' ' = true := rfl
  have hargs : ∀ a ∈ s.args, a ∈ s.result := by
    intro a ha
    unfold Scan.result
    split_ifs
    · exact ha
    · exact List.mem_append_left _ ha
  cases hmode : s.mode with
  | plain =>
    simp only [Scan.step, hmode, hspace, if_true]
    split_ifs with hword
    · exact ⟨hargs, .inl (by simp [Scan.front, hmode, hword])⟩
    · refine ⟨fun a ha => ?_, .inl (by simp [Scan.front])⟩
      simpa [Scan.result, hword] using ha
  | escape =>
    refine ⟨by simpa [Scan.step, hmode] using hargs, .inr ⟨' ', [], rfl, ?_⟩⟩
    simp [Scan.step, Scan.front, hmode]
  | quoted q =>
    have hne : ' ' ≠ q := by
      rcases hs q (.inl hmode) with rfl | rfl <;> decide
    refine ⟨by simpa [Scan.step, hmode, hne] using hargs, .inr ⟨' ', [], rfl, ?_⟩⟩
    simp [Scan.step, Scan.front, hmode, hne]
  | quotedEscape q =>
    have hne : ' ' ≠ q := by
      rcases hs q (.inr hmode) with rfl | rfl <;> decide
    refine ⟨by simpa [Scan.step, hmode] using hargs, .inr ⟨'\\', [' '], rfl, ?_⟩⟩
    simp [Scan.step, Scan.front, hmode, hne]

theorem prefix_of_prefix_append_cons {α : Type*} {p a kept : List α} {c : α}
    (h : p <+: a ++ c :: kept) (hc : c ∉ p) : p <+: a := by
  rcases Nat.lt_or_ge a.length p.length with hlt | hle
  · have hlonger : a ++ [c] <+: p :=
      List.prefix_of_prefix_length_le ⟨kept, by simp⟩ h (by simpa [Nat.succ_le_iff] using hlt)
    exact absurd (hlonger.subset (by simp)) hc
  · exact List.prefix_of_prefix_length_le h (List.prefix_append _ _) hle

/-- **Plain text behind a space** starts an argument, or belongs to one that does not start with
plain text beyond what it had before. -/
theorem prefix_of_appended {name p : List Char} (hname : ∀ c ∈ name, isPlain c = true)
    (hne : name ≠ []) (hp : ∀ c ∈ p, isPlain c = true) (hpne : p ≠ [])
    {a : List Char} (ha : a ∈ (scan (text ++ ' ' :: name)).result) (hstarts : p <+: a) :
    p <+: name ∨ ∃ b ∈ (scan text).result, p <+: b := by
  have hregular : ((scan text).step ' ').Regular := by
    have hscan : scan (text ++ [' ']) = (scan text).step ' ' := by simp [scan]
    exact hscan ▸ regular_scan _
  obtain ⟨-, hargs, hword⟩ := foldl_step_front hregular hname hne
  obtain ⟨hold, hfront⟩ := step_space_cases (regular_scan text)
  have hscan : scan (text ++ ' ' :: name) = name.foldl Scan.step ((scan text).step ' ') := by
    simp [scan]
  rw [hscan, Scan.result, hargs, hword, if_neg (by simp [hne]), List.mem_append,
    List.mem_singleton] at ha
  rcases ha with ha | rfl
  · exact .inr ⟨a, hold a ha, hstarts⟩
  · rcases hfront with hnil | ⟨c, kept, hc, hkept⟩
    · rw [hnil] at hstarts
      exact .inl hstarts
    · -- `c` ends what `p` can share with the argument
      have hnotMem : c ∉ p := fun hmem => by
        rw [hp c hmem] at hc
        cases hc
      rw [hkept, List.append_assoc, List.cons_append] at hstarts
      have hword' := prefix_of_prefix_append_cons hstarts hnotMem
      have hsome : (scan text).word ≠ [] := fun hnil => by
        rw [hnil, List.prefix_nil] at hword'
        exact hpne hword'
      exact .inr ⟨_, by simp [Scan.result, hsome], hword'⟩

/-! ## Specials -/

/-- A backslash whose fate is still open. -/
def Scan.pending (s : Scan) : ℕ :=
  match s.mode with
  | .quotedEscape _ => 1
  | _ => 0

/-- The text has no specials so far, or one of them is lost. -/
def Lossy (text : List Char) (s : Scan) : Prop :=
  (s.mode = .plain ∧ (∀ c ∈ text, isSpecial c = false) ∧ ∀ c ∈ s.text, isPlain c = true) ∨
    s.text.countP isSpecial + s.pending + 1 ≤ text.countP isSpecial

theorem lossy_next (h : s.text.countP isSpecial + s.pending + 1 ≤ text.countP isSpecial)
    (kept : List Char) (htext : t.text = s.text ++ kept)
    (hcost : kept.countP isSpecial + t.pending ≤ [c].countP isSpecial + s.pending) :
    Lossy (text ++ [c]) t := by
  right
  simp only [htext, List.countP_append]
  omega

theorem countP_special (hc : isSpecial c = true) : [c].countP isSpecial = 1 := by
  simp [hc]

/-- A step in front of the first special, or onto it. -/
theorem lossy_plain (hmode : s.mode = .plain) (htext : ∀ c ∈ text, isSpecial c = false)
    (hkept : ∀ c ∈ s.text, isPlain c = true) : Lossy (text ++ [c]) (s.step c) := by
  by_cases hc : isSpecial c = true
  · right
    have hnone : s.text.countP isSpecial = 0 :=
      List.countP_eq_zero.2 fun c hc => by simp [(isPlain_iff.1 (hkept c hc)).2]
    have hspace : isSpace c = false := by
      rcases isSpecial_iff.1 hc with rfl | rfl | rfl <;> rfl
    rw [List.countP_append, countP_special hc]
    simp only [Scan.step, hmode, hspace, Bool.false_eq_true, if_false]
    split_ifs with hquote hesc
    · show s.text.countP isSpecial + 0 + 1 ≤ _
      omega
    · show s.text.countP isSpecial + 0 + 1 ≤ _
      omega
    · rcases isSpecial_iff.1 hc with rfl | rfl | rfl <;> simp at hquote hesc
  · left
    rw [Bool.not_eq_true] at hc
    have htext' : ∀ c' ∈ text ++ [c], isSpecial c' = false := by
      simpa [or_imp, forall_and, hc] using htext
    by_cases hspace : isSpace c = true
    · simp only [Scan.step, hmode, hspace, if_true]
      split_ifs
      · exact ⟨hmode, htext', hkept⟩
      · exact ⟨rfl, htext', by simpa [Scan.text] using hkept⟩
    · have hplain : isPlain c = true := isPlain_iff.2 ⟨by simpa using hspace, hc⟩
      rw [step_plain (.inl hmode) hplain]
      refine ⟨hmode, htext', fun c' hc' => ?_⟩
      simp only [Scan.text, ← List.append_assoc, List.mem_append, List.mem_singleton] at hc'
      rcases hc' with hc' | rfl
      · exact hkept c' (List.mem_append.2 hc')
      · exact hplain

/-- A step when a special is lost already. -/
theorem lossy_lost (h : s.text.countP isSpecial + s.pending + 1 ≤ text.countP isSpecial) :
    Lossy (text ++ [c]) (s.step c) := by
  cases hmode : s.mode with
  | plain =>
    simp only [Scan.step, hmode]
    split_ifs
    · exact lossy_next h [] (by simp) (by simp)
    · exact lossy_next h [] (by simp [Scan.text]) (by simp [Scan.pending, hmode])
    · exact lossy_next h [] (by simp [Scan.text]) (by simp [Scan.pending])
    · exact lossy_next h [] (by simp [Scan.text]) (by simp [Scan.pending])
    · exact lossy_next h [c] (by simp [Scan.text]) (by simp [Scan.pending, hmode])
  | escape =>
    simp only [Scan.step, hmode]
    exact lossy_next h [c] (by simp [Scan.text]) (by simp [Scan.pending])
  | quoted q =>
    simp only [Scan.step, hmode]
    split_ifs with hclose hesc
    · exact lossy_next h [] (by simp [Scan.text]) (by simp [Scan.pending])
    · refine lossy_next h [] (by simp [Scan.text]) ?_
      rw [countP_special (isSpecial_iff.2 (.inr (.inr hesc)))]
      simp [Scan.pending]
    · exact lossy_next h [c] (by simp [Scan.text]) (by simp [Scan.pending, hmode])
  | quotedEscape q =>
    have hpending : s.pending = 1 := by simp only [Scan.pending, hmode]
    simp only [Scan.step, hmode]
    split_ifs
    · exact lossy_next h [c] (by simp [Scan.text]) (by simp [Scan.pending])
    · refine lossy_next h ['\\', c] (by simp [Scan.text]) ?_
      rw [hpending, List.countP_cons]
      simp [Scan.pending, isSpecial]

/-- **Step lemma.** -/
theorem lossy_step (h : Lossy text s) : Lossy (text ++ [c]) (s.step c) := by
  rcases h with ⟨hmode, htext, hkept⟩ | h
  · exact lossy_plain hmode htext hkept
  · exact lossy_lost h

theorem lossy_scan (text : List Char) : Lossy text (scan text) := by
  induction text using List.reverseRecOn with
  | nil => exact .inl ⟨rfl, by simp, by simp [scan, Scan.text]⟩
  | append_singleton text c ih =>
    rw [scan, List.foldl_append]
    exact lossy_step ih

/-- **Specials are lost.** A text without any is plain once it is scanned; of the others at least
one special is dropped. -/
theorem special_lost (text : List Char) :
    ((∀ c ∈ text, isSpecial c = false) ∧ ∀ c ∈ (scan text).text, isPlain c = true) ∨
      (scan text).text.countP isSpecial < text.countP isSpecial := by
  rcases lossy_scan text with ⟨-, htext, hkept⟩ | h
  · exact .inl ⟨htext, hkept⟩
  · right
    omega

/-! ## Splitting -/

/-- A function that splits command lines, fails without arguments, and otherwise depends on how the
text ends for whether it fails. -/
structure SplitsUniformly (parse : List Char → Option (List (List Char))) : Prop
    extends Splits parse where
  noArg : ∀ text, (scan text).result = [] → parse text = none
  uniform : ∀ s t, (scan s).result ≠ [] → (scan t).result ≠ [] →
    (scan s).mode = (scan t).mode → (parse s).isSome → (parse t).isSome

theorem parseArgv_splitsUniformly : SplitsUniformly parseArgv where
  toSplits := parseArgv_splits
  noArg text h := by
    unfold parseArgv
    simp only [h, if_true]
    split <;> rfl
  uniform s t hs ht hmode := by
    unfold parseArgv
    cases hm : (scan t).mode <;> simp [hs, ht, hmode, hm]

variable {parse : List Char → Option (List (List Char))}

theorem SplitsUniformly.result_ne_nil (hparse : SplitsUniformly parse) (h : (parse text).isSome) :
    (scan text).result ≠ [] := by
  intro hnil
  rw [hparse.noArg text hnil] at h
  cases h

theorem Splits.eq_of_isSome (hparse : Splits parse) (h : (parse text).isSome) :
    parse text = some (scan text).result := by
  rcases hparse.sound text with hnone | hsome
  · rw [hnone] at h
    cases h
  · exact hsome

theorem Splits.eq_result (hparse : Splits parse) {args : List (List Char)}
    (h : parse text = some args) : args = (scan text).result := by
  have haccepted : (parse text).isSome := by
    rw [h]
    rfl
  exact Option.some.inj (h.symm.trans (hparse.eq_of_isSome haccepted))

/-- A text with arguments is accepted when one that ends like it is. -/
theorem SplitsUniformly.eq_of_like (hparse : SplitsUniformly parse) {text' : List Char}
    (h : (parse text).isSome) (hmode : (scan text).mode = (scan text').mode)
    (hresult : (scan text').result ≠ []) : parse text' = some (scan text').result :=
  hparse.eq_of_isSome (hparse.uniform _ _ (hparse.result_ne_nil h) hresult hmode h)

/-- Words in front of a text without specials come back only if they are plain. -/
theorem plain_of_scan_words {words : List (List Char)} (htext : ∀ c ∈ text, isSpecial c = false)
    {rest : List (List Char)}
    (h : (scan (words.flatMap (· ++ [' ']) ++ text)).result = words ++ rest) :
    ∀ word ∈ words, ∀ c ∈ word, isPlain c = true := by
  have hkept : (scan (words.flatMap (· ++ [' ']) ++ text)).text =
      words.flatten ++ rest.flatten := by
    rw [← flatten_result, h, List.flatten_append]
  rcases special_lost (words.flatMap (· ++ [' ']) ++ text) with ⟨-, hplain⟩ | hlost
  · intro word hword c hc
    apply hplain
    rw [hkept]
    exact List.mem_append_left _ (List.mem_flatten.2 ⟨word, hword, hc⟩)
  · -- the words cannot have more specials than the text that they make up
    have hcount : (words.flatMap (· ++ [' ']) ++ text).countP isSpecial =
        words.flatten.countP isSpecial := by
      have hnone : text.countP isSpecial = 0 :=
        List.countP_eq_zero.2 fun c hc => by simp [htext c hc]
      have hspace : isSpecial ' ' = false := rfl
      rw [List.countP_append, hnone, List.countP_flatMap, List.countP_flatten]
      simp [Function.comp_def, hspace]
    rw [hcount, hkept, List.countP_append] at hlost
    omega

/-- **Words joined by spaces** are the first arguments, whatever is behind them, exactly when they
are plain. -/
theorem splits_words_iff (hparse : SplitsUniformly parse) {words : List (List Char)}
    (hne : ∀ word ∈ words, word ≠ []) :
    (∀ text, (parse text).isSome →
      ∃ rest, parse (words.flatMap (· ++ [' ']) ++ text) = some (words ++ rest)) ↔
      ∀ word ∈ words, ∀ c ∈ word, isPlain c = true := by
  refine ⟨?_, ?_⟩
  · intro h
    have hletter : (parse ['a']).isSome := by
      rw [hparse.complete ['a'] (by decide) (by decide)]
      rfl
    obtain ⟨rest, hrest⟩ := h ['a'] hletter
    exact plain_of_scan_words (List.forall_mem_singleton.2 rfl) (hparse.eq_result hrest).symm
  · intro hplain text htext
    obtain ⟨hmode, hresult⟩ := scan_words hne hplain text
    have hargs := hparse.result_ne_nil htext
    refine ⟨(scan text).result, ?_⟩
    rw [hparse.eq_of_like htext hmode.symm (by simp [hresult, hargs]), hresult]

end Quoting
