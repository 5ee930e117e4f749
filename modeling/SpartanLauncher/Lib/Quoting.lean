import Mathlib.Data.List.Induction
import Mathlib.Tactic.Common
import SpartanLauncher.Lib.CString

/-!
# Splitting a quoted command line

The scanner of a command line with the usual conventions: white space separates arguments; a
backslash takes the next character literally; `'` and `"` open a part that the same character
closes; inside of it a backslash before that character yields the character, and any other
backslash is kept together with the character behind it.

* `parseArgv`: the arguments, or an error.
* `scan_joined`: strings without `"` that do not end in an unpaired backslash survive being put in
  double quotes and joined by spaces.
* `quote_notMem_of_scan_joined` and `even_backslashes_of_scan_joined`: no other strings do.
-/

namespace Quoting

open CString

inductive Mode where
  | plain
  | escape
  | quoted (q : Char)
  | quotedEscape (q : Char)
  deriving DecidableEq

/-- The state of the scanner: the finished arguments and the word being read. -/
structure Scan where
  mode : Mode := .plain
  args : List (List Char) := []
  word : List Char := []
  deriving DecidableEq

def Scan.step (s : Scan) (c : Char) : Scan :=
  match s.mode with
  | .plain =>
    if isSpace c then
      if s.word = [] then s else { s with args := s.args ++ [s.word], word := [] }
    else if c = '"' ∨ c = '\'' then { s with mode := .quoted c }
    else if c = '\\' then { s with mode := .escape }
    else { s with word := s.word ++ [c] }
  | .escape => { s with mode := .plain, word := s.word ++ [c] }
  | .quoted q =>
    if c = q then { s with mode := .plain }
    else if c = '\\' then { s with mode := .quotedEscape q }
    else { s with word := s.word ++ [c] }
  | .quotedEscape q =>
    { s with mode := .quoted q, word := s.word ++ if c = q then [c] else ['\\', c] }

def scan (text : List Char) : Scan := text.foldl Scan.step {}

/-- The arguments at the end of the text. -/
def Scan.result (s : Scan) : List (List Char) :=
  if s.word = [] then s.args else s.args ++ [s.word]

/-- The arguments of a command line; an error when it ends in a backslash or has no arguments. -/
def parseArgv (text : List Char) : Option (List (List Char)) :=
  let s := scan text
  match s.mode with
  | .escape | .quotedEscape _ => none
  | _ => if s.result = [] then none else some s.result

/-- A function that splits command lines: it fails or returns the scanned arguments, and it does
not fail on a text with arguments whose quotes and escapes are all complete. -/
structure Splits (parse : List Char → Option (List (List Char))) : Prop where
  sound : ∀ text, parse text = none ∨ parse text = some (scan text).result
  complete : ∀ text, (scan text).mode = .plain → (scan text).result ≠ [] →
    parse text = some (scan text).result

theorem parseArgv_splits : Splits parseArgv where
  sound text := by
    unfold parseArgv
    by_cases h : (scan text).result = [] <;> cases hm : (scan text).mode <;> simp [h, hm]
  complete text hm h := by
    simp [parseArgv, hm, h]

/-! ## Quoted strings -/

/-- A string in double quotes. -/
def inQuotes (s : List Char) : List Char := '"' :: (s ++ ['"'])

/-- The strings in double quotes, joined by spaces. -/
noncomputable def joined (ss : List (List Char)) : List Char := [' '].intercalate (ss.map inQuotes)

/-- The number of backslashes at the end is odd. -/
def endsInBackslash (s : List Char) : Bool := s.foldl (fun odd c => c == '\\' && !odd) false

theorem endsInBackslash_append (s : List Char) (c : Char) :
    endsInBackslash (s ++ [c]) = (c == '\\' && !endsInBackslash s) := by
  simp [endsInBackslash]

/-- Inside quotes a string without a quote is kept; when it ends in an unpaired backslash, that
one is still pending. -/
theorem foldl_step_quoted (s : List Char) (hs : '"' ∉ s) (args : List (List Char))
    (word : List Char) :
    s.foldl Scan.step ⟨.quoted '"', args, word⟩ =
      if endsInBackslash s then ⟨.quotedEscape '"', args, word ++ s.dropLast⟩
      else ⟨.quoted '"', args, word ++ s⟩ := by
  induction s using List.reverseRecOn with
  | nil => simp [endsInBackslash]
  | append_singleton s c ih =>
    have hs' : '"' ∉ s := fun h => hs (List.mem_append_left _ h)
    have hc : c ≠ '"' := fun h => hs (by simp [h])
    rw [List.foldl_append, ih hs', endsInBackslash_append]
    cases hodd : endsInBackslash s with
    | false =>
      by_cases hb : c = '\\'
      · simp [Scan.step, hb]
      · simp [Scan.step, hb, hc]
    | true =>
      have hlast : ∃ t, s = t ++ ['\\'] := by
        rcases List.eq_nil_or_concat s with rfl | ⟨t, b, rfl⟩
        · simp [endsInBackslash] at hodd
        · rw [List.concat_eq_append, endsInBackslash_append] at hodd
          simp only [Bool.and_eq_true, beq_iff_eq] at hodd
          exact ⟨t, by rw [List.concat_eq_append, hodd.1]⟩
      obtain ⟨t, rfl⟩ := hlast
      simp [Scan.step, hc]

/-- A string in quotes is read as one word. -/
theorem foldl_step_inQuotes {s : List Char} (hs : '"' ∉ s) (heven : endsInBackslash s = false)
    (args : List (List Char)) :
    (inQuotes s).foldl Scan.step ⟨.plain, args, []⟩ = ⟨.plain, args, s⟩ := by
  rw [inQuotes, List.foldl_cons, List.foldl_append]
  have hopen : Scan.step ⟨.plain, args, []⟩ '"' = ⟨.quoted '"', args, []⟩ := rfl
  rw [hopen, foldl_step_quoted s hs, heven]
  simp [Scan.step]

/-- A space behind a word ends the argument. -/
theorem step_space {args : List (List Char)} {word : List Char} (h : word ≠ []) :
    Scan.step ⟨.plain, args, word⟩ ' ' = ⟨.plain, args ++ [word], []⟩ := by
  simp [Scan.step, isSpace, h]

/-- **Strings that survive.** -/
theorem foldl_step_joined {ss : List (List Char)} (hne : ∀ s ∈ ss, s ≠ [])
    (hquote : ∀ s ∈ ss, '"' ∉ s) (heven : ∀ s ∈ ss, endsInBackslash s = false)
    (args : List (List Char)) :
    ((joined ss).foldl Scan.step ⟨.plain, args, []⟩).mode = .plain ∧
      ((joined ss).foldl Scan.step ⟨.plain, args, []⟩).result = args ++ ss := by
  induction ss generalizing args with
  | nil => simp [joined, Scan.result]
  | cons s ss ih =>
    rw [List.forall_mem_cons] at hne hquote heven
    have hs := foldl_step_inQuotes hquote.1 heven.1 args
    cases ss with
    | nil => simp [joined, hs, Scan.result, hne.1]
    | cons s' ss =>
      have hjoined : joined (s :: s' :: ss) = inQuotes s ++ ' ' :: joined (s' :: ss) := by
        simp [joined, List.intercalate_cons_cons]
      rw [hjoined, List.foldl_append, hs, List.foldl_cons, step_space hne.1]
      have := ih hne.2 hquote.2 heven.2 (args ++ [s])
      simpa using this

theorem scan_joined {ss : List (List Char)} (hne : ∀ s ∈ ss, s ≠ [])
    (hquote : ∀ s ∈ ss, '"' ∉ s) (heven : ∀ s ∈ ss, endsInBackslash s = false) :
    (scan (joined ss)).mode = .plain ∧ (scan (joined ss)).result = ss := by
  simpa [scan] using foldl_step_joined hne hquote heven []

/-! ## What scanning costs -/

/-- The characters that the scanner has kept. -/
def Scan.text (s : Scan) : List Char := s.args.flatten ++ s.word

/-- How many characters at least were dropped besides the quotes `"` that delimit a part and one
for each finished argument. To keep a `"`, one has to drop a backslash, or a `'`. -/
def Scan.slack (s : Scan) : ℕ :=
  match s.mode with
  | .plain => min 1 (s.text.count '"')
  | .escape => 1
  | .quoted q => if q = '"' then min 1 (s.text.count '"') else 1
  | .quotedEscape q => if q = '"' then min 1 (s.text.count '"') + 1 else 2

/-- Every quote in the text was kept or dropped, and so were the other dropped characters. -/
structure Budget (text : List Char) (s : Scan) : Prop where
  quote : ∀ q, s.mode = .quoted q ∨ s.mode = .quotedEscape q → q = '"' ∨ q = '\''
  cost : s.text.length + text.count '"' + s.args.length + s.slack ≤
    text.length + s.text.count '"'

theorem isSpace_ne_quote {c : Char} (h : isSpace c = true) : c ≠ '"' := by
  rintro rfl
  cases h

variable {text : List Char} {s t : Scan} {c : Char}

/-- A step that keeps `kept` has to pay for it out of the character read and the slack. -/
theorem budget_next (hs : Budget text s) (kept : List Char) (htext : t.text = s.text ++ kept)
    (hquote : ∀ q, t.mode = .quoted q ∨ t.mode = .quotedEscape q → q = '"' ∨ q = '\'')
    (hcost : kept.length + [c].count '"' + t.args.length + t.slack ≤
      1 + kept.count '"' + s.args.length + s.slack) : Budget (text ++ [c]) t := by
  refine ⟨hquote, ?_⟩
  have := hs.cost
  simp only [htext, List.length_append, List.count_append, List.length_cons, List.length_nil]
  omega

theorem count_singleton_of_ne (h : c ≠ '"') : [c].count '"' = 0 := by simp [h]

/-- The slack is at least what a kept quote needs. -/
theorem min_le_slack (s : Scan) : min 1 (s.text.count '"') ≤ s.slack := by
  unfold Scan.slack
  split
  · exact le_rfl
  · omega
  · split_ifs <;> omega
  · split_ifs <;> omega

theorem budget_plain (hs : Budget text s) (hmode : s.mode = .plain) :
    Budget (text ++ [c]) (s.step c) := by
  have hslack : s.slack = min 1 (s.text.count '"') := by simp only [Scan.slack, hmode]
  simp only [Scan.step, hmode]
  split_ifs with hspace hword hquote hesc
  · apply budget_next hs [] (by simp) (by simp [hmode])
    rw [count_singleton_of_ne (isSpace_ne_quote hspace)]
    simp
  · apply budget_next hs [] (by simp [Scan.text]) (by simp)
    rw [count_singleton_of_ne (isSpace_ne_quote hspace), hslack]
    simp only [Scan.slack, Scan.text, List.flatten_append, List.flatten_singleton, List.append_nil,
      List.length_append, List.length_singleton, List.length_nil, List.count_nil]
    omega
  · apply budget_next hs [] (by simp [Scan.text]) (by simpa using hquote)
    rw [hslack]
    rcases hquote with rfl | rfl
    · simp [Scan.slack, Scan.text]
    · simp [Scan.slack]
      omega
  · apply budget_next hs [] (by simp [Scan.text]) (by simp)
    rw [hesc, hslack]
    simp [Scan.slack]
    omega
  · have hc : c ≠ '"' := fun h => hquote (.inl h)
    apply budget_next hs [c] (by simp [Scan.text]) (by simp)
    rw [count_singleton_of_ne hc, hslack]
    simp [Scan.slack, Scan.text, List.count_append, count_singleton_of_ne hc]

theorem budget_escape (hs : Budget text s) (hmode : s.mode = .escape) :
    Budget (text ++ [c]) (s.step c) := by
  have hslack : s.slack = 1 := by simp only [Scan.slack, hmode]
  simp only [Scan.step, hmode]
  apply budget_next hs [c] (by simp [Scan.text]) (by simp)
  rw [hslack]
  simp only [Scan.slack, List.length_singleton]
  omega

theorem budget_quoted (hs : Budget text s) {q : Char} (hmode : s.mode = .quoted q) :
    Budget (text ++ [c]) (s.step c) := by
  have hq := hs.quote q (.inl hmode)
  have hmin := min_le_slack s
  have hslack : s.slack = if q = '"' then min 1 (s.text.count '"') else 1 := by
    simp only [Scan.slack, hmode]
  simp only [Scan.step, hmode]
  split_ifs with hclose hesc
  · apply budget_next hs [] (by simp [Scan.text]) (by simp)
    have hle : [c].count '"' ≤ 1 := List.count_le_length
    simp only [Scan.slack, Scan.text, List.length_nil, List.count_nil] at hmin ⊢
    omega
  · apply budget_next hs [] (by simp [Scan.text]) (by simpa using hq)
    rw [hesc, hslack]
    rcases hq with rfl | rfl
    · simp only [Scan.slack, Scan.text, if_true, List.length_nil, List.count_nil,
        count_singleton_of_ne (by decide : '\\' ≠ '"')]
      omega
    · simp only [Scan.slack, if_neg (by decide : '\'' ≠ '"'), List.length_nil, List.count_nil,
        count_singleton_of_ne (by decide : '\\' ≠ '"')]
      omega
  · apply budget_next hs [c] (by simp [Scan.text]) (by simpa using hq)
    rw [hslack]
    rcases hq with rfl | rfl
    · simp [Scan.slack, Scan.text, List.count_append, count_singleton_of_ne hclose]
    · simp [Scan.slack]

theorem budget_quotedEscape (hs : Budget text s) {q : Char} (hmode : s.mode = .quotedEscape q) :
    Budget (text ++ [c]) (s.step c) := by
  have hq := hs.quote q (.inr hmode)
  have hslack : s.slack = if q = '"' then min 1 (s.text.count '"') + 1 else 2 := by
    simp only [Scan.slack, hmode]
  simp only [Scan.step, hmode]
  split_ifs with hclose
  · apply budget_next hs [c] (by simp [Scan.text]) (by simpa using hq)
    rw [hslack]
    rcases hq with rfl | rfl <;> simp [Scan.slack]
  · apply budget_next hs ['\\', c] (by simp [Scan.text]) (by simpa using hq)
    rw [hslack]
    rcases hq with rfl | rfl
    · simp [Scan.slack, Scan.text, List.count_append, hclose]
      omega
    · simp [Scan.slack, List.count_cons]
      omega

/-- **Step lemma.** -/
theorem budget_step (hs : Budget text s) : Budget (text ++ [c]) (s.step c) := by
  cases hmode : s.mode with
  | plain => exact budget_plain hs hmode
  | escape => exact budget_escape hs hmode
  | quoted q => exact budget_quoted hs hmode
  | quotedEscape q => exact budget_quotedEscape hs hmode

theorem budget_scan (text : List Char) : Budget text (scan text) := by
  induction text using List.reverseRecOn with
  | nil => exact ⟨by simp [scan], by simp [scan, Scan.slack, Scan.text]⟩
  | append_singleton text c ih =>
    rw [scan, List.foldl_append]
    exact budget_step ih

/-! ## No other strings survive -/

theorem length_joined {ss : List (List Char)} (hne : ss ≠ []) :
    (joined ss).length + 1 = ss.flatten.length + 3 * ss.length := by
  induction ss with
  | nil => exact absurd rfl hne
  | cons s ss ih =>
    cases ss with
    | nil => simp [joined, inQuotes]
    | cons s' ss =>
      have hjoined : joined (s :: s' :: ss) = inQuotes s ++ ' ' :: joined (s' :: ss) := by
        simp [joined, List.intercalate_cons_cons]
      have := ih (List.cons_ne_nil _ _)
      rw [hjoined]
      simp only [inQuotes, List.length_append, List.length_cons, List.length_nil,
        List.flatten_cons] at this ⊢
      omega

theorem count_joined (ss : List (List Char)) :
    (joined ss).count '"' = ss.flatten.count '"' + 2 * ss.length := by
  induction ss with
  | nil => simp [joined]
  | cons s ss ih =>
    have hs : (inQuotes s).count '"' = s.count '"' + 2 := by
      simp [inQuotes, List.count_append]
    cases ss with
    | nil => simp [joined, hs]
    | cons s' ss =>
      have hjoined : joined (s :: s' :: ss) = inQuotes s ++ ' ' :: joined (s' :: ss) := by
        simp [joined, List.intercalate_cons_cons]
      have hflatten : (s :: s' :: ss).flatten = s ++ (s' :: ss).flatten := List.flatten_cons
      have hlength : (s :: s' :: ss).length = (s' :: ss).length + 1 := List.length_cons
      rw [hjoined, List.count_append, List.count_cons_of_ne (by decide), ih, hs, hflatten,
        List.count_append, hlength]
      omega

theorem flatten_result (s : Scan) : s.result.flatten = s.text := by
  unfold Scan.result Scan.text
  split_ifs with h <;> simp [h]

theorem length_result_le (s : Scan) : s.result.length ≤ s.args.length + 1 := by
  unfold Scan.result
  split_ifs <;> simp

/-- **Strings with a quote do not survive:** the scanner would have to drop more than the quotes
and spaces that were put in. -/
theorem quote_notMem_of_scan_joined {ss : List (List Char)} (hne : ss ≠ [])
    (h : (scan (joined ss)).result = ss) : ∀ s ∈ ss, '"' ∉ s := by
  have hcost := (budget_scan (joined ss)).cost
  have hmin := min_le_slack (scan (joined ss))
  have hargs := length_result_le (scan (joined ss))
  rw [← flatten_result, h] at hcost hmin
  rw [h] at hargs
  have hlength := length_joined hne
  have hcount := count_joined ss
  have hzero : ss.flatten.count '"' = 0 := by omega
  intro s hs hquote
  exact List.count_eq_zero.1 hzero (List.mem_flatten.2 ⟨s, hs, hquote⟩)

theorem text_prefix_step (s : Scan) (c : Char) : s.text <+: (s.step c).text := by
  unfold Scan.step
  split
  · split_ifs <;> simp [Scan.text]
  · simp [Scan.text]
  · split_ifs <;> simp [Scan.text]
  · simp [Scan.text]

theorem text_prefix_foldl (text : List Char) (s : Scan) :
    s.text <+: (text.foldl Scan.step s).text := by
  induction text generalizing s with
  | nil => exact List.prefix_rfl
  | cons c text ih => exact (text_prefix_step s c).trans (ih _)

/-- After an unpaired backslash the closing quote is kept. -/
theorem quote_mem_of_odd {ss : List (List Char)} (hne : ∀ s ∈ ss, s ≠ [])
    (hquote : ∀ s ∈ ss, '"' ∉ s) (hodd : ∃ s ∈ ss, endsInBackslash s = true)
    (args : List (List Char)) :
    '"' ∈ ((joined ss).foldl Scan.step ⟨.plain, args, []⟩).text := by
  induction ss generalizing args with
  | nil => simp at hodd
  | cons s ss ih =>
    rw [List.forall_mem_cons] at hne hquote
    have hhead : ∃ rest, joined (s :: ss) = inQuotes s ++ rest := by
      cases ss with
      | nil => exact ⟨[], by simp [joined]⟩
      | cons s' ss => exact ⟨_, by rw [joined, List.map_cons, List.map_cons,
          List.intercalate_cons_cons, List.append_assoc]⟩
    cases hs : endsInBackslash s with
    | true =>
      obtain ⟨rest, hrest⟩ := hhead
      rw [hrest, List.foldl_append]
      apply (text_prefix_foldl rest _).subset
      have hopen : Scan.step ⟨.plain, args, []⟩ '"' = ⟨.quoted '"', args, []⟩ := rfl
      rw [inQuotes, List.foldl_cons, List.foldl_append, hopen, foldl_step_quoted s hquote.1, hs]
      simp [Scan.step, Scan.text]
    | false =>
      have hodd' : ∃ s ∈ ss, endsInBackslash s = true := by
        obtain ⟨s', hs', h⟩ := hodd
        rcases List.mem_cons.1 hs' with rfl | hs'
        · rw [hs] at h
          cases h
        · exact ⟨s', hs', h⟩
      cases ss with
      | nil => simp at hodd'
      | cons s' ss =>
        have hjoined : joined (s :: s' :: ss) = inQuotes s ++ ' ' :: joined (s' :: ss) := by
          simp [joined, List.intercalate_cons_cons]
        rw [hjoined, List.foldl_append, foldl_step_inQuotes hquote.1 hs, List.foldl_cons,
          step_space hne.1]
        exact ih hne.2 hquote.2 hodd' _

/-- **Strings that end in an unpaired backslash do not survive.** -/
theorem even_backslashes_of_scan_joined {ss : List (List Char)} (hne : ∀ s ∈ ss, s ≠ [])
    (hquote : ∀ s ∈ ss, '"' ∉ s) (h : (scan (joined ss)).result = ss) :
    ∀ s ∈ ss, endsInBackslash s = false := by
  intro s hs
  by_contra hodd
  rw [Bool.not_eq_false] at hodd
  have hmem := quote_mem_of_odd hne hquote ⟨s, hs, hodd⟩ []
  have hmem' : '"' ∈ (scan (joined ss)).text := hmem
  rw [← flatten_result, h] at hmem'
  obtain ⟨s', hs', hq⟩ := List.mem_flatten.1 hmem'
  exact hquote s' hs' hq

/-- A string that survives being put in double quotes. -/
def Survives (s : List Char) : Prop := '"' ∉ s ∧ endsInBackslash s = false

instance : DecidablePred Survives := fun _ => inferInstanceAs (Decidable (_ ∧ _))

/-- **Round trip.** Splitting the quoted strings gives them back exactly when each survives. -/
theorem splits_joined_iff {parse : List Char → Option (List (List Char))} (hparse : Splits parse)
    {ss : List (List Char)} (hss : ss ≠ []) (hne : ∀ s ∈ ss, s ≠ []) :
    parse (joined ss) = some ss ↔ ∀ s ∈ ss, Survives s := by
  refine ⟨?_, ?_⟩
  · intro h
    have hresult : (scan (joined ss)).result = ss := by
      rcases hparse.sound (joined ss) with h' | h' <;> rw [h] at h'
      · cases h'
      · exact (Option.some.inj h').symm
    have hquote := quote_notMem_of_scan_joined hss hresult
    exact fun s hs => ⟨hquote s hs, even_backslashes_of_scan_joined hne hquote hresult s hs⟩
  · intro h
    obtain ⟨hmode, hresult⟩ := scan_joined hne (fun s hs => (h s hs).1) fun s hs => (h s hs).2
    rw [hparse.complete _ hmode (by rwa [hresult]), hresult]

end Quoting
