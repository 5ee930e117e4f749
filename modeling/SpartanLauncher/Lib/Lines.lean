import Mathlib.Data.List.DropRight
import Mathlib.Tactic.Common

/-!
# Lines of a text, read through a buffer of fixed size

`cutLine` takes off a text what one `fgets` takes off a file: a line with its newline, or as much
of the line as there is room for. `fgetsAll` does that up to the end of the text.

* `fgetsAll_line`: a line that fits, with its newline, is one of the buffers.
* `fgetsAll_full`: a line that fits without its newline leaves the newline for the next buffer.
* `newline_of_mem_fgetsAll`: no buffer holds a newline in front of its last character.

The second part is about taking elements off the two ends of a list: `dropWhile` and `rdropWhile`
give back what stands between padding, when it neither begins nor ends with padding (`Trimmed`).
-/

namespace Lines

variable {α : Type*}

/-! ## Buffers -/

section Buffers

variable [DecidableEq α] {nl : α} {room : ℕ}

/-- The front of a text up to its first newline, and at most `room` elements of it. -/
def cutLine (nl : α) : ℕ → List α → List α × List α
  | 0, cs => ([], cs)
  | _ + 1, [] => ([], [])
  | room + 1, c :: cs =>
    if c = nl then ([c], cs) else
      let (line, rest) := cutLine nl room cs
      (c :: line, rest)

theorem cutLine_append (nl : α) (room : ℕ) (cs : List α) :
    (cutLine nl room cs).1 ++ (cutLine nl room cs).2 = cs := by
  induction room generalizing cs with
  | zero => rfl
  | succ room ih =>
    cases cs with
    | nil => rfl
    | cons c cs =>
      by_cases hc : c = nl
      · simp [cutLine, hc]
      · simp [cutLine, hc, ih]

theorem length_cutLine_le (room : ℕ) (cs : List α) : (cutLine nl room cs).1.length ≤ room := by
  induction room generalizing cs with
  | zero => exact le_rfl
  | succ room ih =>
    cases cs with
    | nil => simp [cutLine]
    | cons c cs =>
      by_cases hc : c = nl
      · simp [cutLine, hc]
      · simpa [cutLine, hc] using ih cs

/-- Only the last element of a buffer can be a newline. -/
theorem newline_of_mem_cutLine (room : ℕ) (cs : List α) :
    nl ∉ (cutLine nl room cs).1.dropLast := by
  induction room generalizing cs with
  | zero => simp [cutLine]
  | succ room ih =>
    cases cs with
    | nil => simp [cutLine]
    | cons c cs =>
      by_cases hc : c = nl
      · simp [cutLine, hc]
      · simp only [cutLine, hc, if_false]
        cases hline : (cutLine nl room cs).1 with
        | nil => simp
        | cons d ds =>
          have hrest := ih cs
          rw [hline] at hrest
          rw [List.dropLast_cons_cons, List.mem_cons, not_or]
          exact ⟨fun h => hc h.symm, hrest⟩

theorem cutLine_ne_nil (nl : α) {cs : List α} (hroom : 0 < room) (hcs : cs ≠ []) :
    (cutLine nl room cs).1 ≠ [] := by
  obtain ⟨room, rfl⟩ := Nat.exists_eq_add_of_lt hroom
  cases cs with
  | nil => exact absurd rfl hcs
  | cons c cs =>
    rw [Nat.zero_add]
    by_cases hc : c = nl <;> simp [cutLine, hc]

theorem length_rest_lt (nl : α) {cs : List α} (hroom : 0 < room) (hcs : cs ≠ []) :
    (cutLine nl room cs).2.length < cs.length := by
  have hlength := congrArg List.length (cutLine_append nl room cs)
  have hpos := List.length_pos_iff.2 (cutLine_ne_nil nl hroom hcs)
  rw [List.length_append] at hlength
  omega

theorem cutLine_line {line : List α} (hline : nl ∉ line) (hlength : line.length < room)
    (cs : List α) : cutLine nl room (line ++ nl :: cs) = (line ++ [nl], cs) := by
  induction line generalizing room with
  | nil =>
    obtain ⟨room, rfl⟩ := Nat.exists_eq_add_of_lt hlength
    rw [List.length_nil, Nat.zero_add]
    simp [cutLine]
  | cons c line ih =>
    rw [List.mem_cons, not_or] at hline
    obtain ⟨room, rfl⟩ := Nat.exists_eq_add_of_lt hlength
    have hrest : cutLine nl (line.length + 1 + room) (line ++ nl :: cs) = (line ++ [nl], cs) :=
      ih hline.2 (by omega)
    rw [List.length_cons, List.cons_append, cutLine, if_neg fun h => hline.1 h.symm, hrest]
    rfl

theorem cutLine_full {line : List α} (hline : nl ∉ line) (cs : List α) :
    cutLine nl line.length (line ++ cs) = (line, cs) := by
  induction line with
  | nil => cases cs <;> rfl
  | cons c line ih =>
    rw [List.mem_cons, not_or] at hline
    rw [List.length_cons, List.cons_append, cutLine, if_neg fun h => hline.1 h.symm, ih hline.2]

/-- The buffers of a text, with `fuel` as the bound on their number. -/
def fgetsLoop (nl : α) (room : ℕ) : ℕ → List α → List (List α)
  | 0, _ => []
  | fuel + 1, cs =>
    if cs.isEmpty then []
    else
      let (line, rest) := cutLine nl room cs
      line :: fgetsLoop nl room fuel rest

/-- Every buffer takes at least one element off the text, so that its length is fuel enough. -/
def fgetsAll (nl : α) (room : ℕ) (cs : List α) : List (List α) := fgetsLoop nl room cs.length cs

theorem fgetsLoop_eq (hroom : 0 < room) {fuel fuel' : ℕ} {cs : List α} (h : cs.length ≤ fuel)
    (h' : cs.length ≤ fuel') : fgetsLoop nl room fuel cs = fgetsLoop nl room fuel' cs := by
  induction fuel generalizing fuel' cs with
  | zero =>
    obtain rfl := List.eq_nil_of_length_eq_zero (Nat.le_zero.1 h)
    cases fuel' <;> rfl
  | succ fuel ih =>
    by_cases hcs : cs = []
    · subst hcs
      cases fuel' <;> rfl
    · have hpos := List.length_pos_iff.2 hcs
      obtain ⟨fuel', rfl⟩ := Nat.exists_eq_add_of_lt (lt_of_lt_of_le hpos h')
      have hlt := length_rest_lt nl hroom hcs
      have hempty : cs.isEmpty = false := by simpa using hcs
      rw [Nat.zero_add] at h' ⊢
      simp only [fgetsLoop, hempty, Bool.false_eq_true, if_false]
      have hrest : fgetsLoop nl room fuel (cutLine nl room cs).2 =
          fgetsLoop nl room fuel' (cutLine nl room cs).2 := ih (by omega) (by omega)
      rw [hrest]

theorem fgetsAll_of_cutLine {cs line rest : List α} (hroom : 0 < room) (hcs : cs ≠ [])
    (h : cutLine nl room cs = (line, rest)) :
    fgetsAll nl room cs = line :: fgetsAll nl room rest := by
  have hlt := length_rest_lt nl hroom hcs
  have hpos := List.length_pos_iff.2 hcs
  have hempty : cs.isEmpty = false := by simpa using hcs
  obtain ⟨n, hn⟩ := Nat.exists_eq_add_of_lt hpos
  rw [Nat.zero_add] at hn
  rw [h, hn] at hlt
  have hfuel : fgetsLoop nl room n rest = fgetsAll nl room rest :=
    fgetsLoop_eq hroom (Nat.le_of_lt_succ hlt) le_rfl
  rw [fgetsAll, hn, fgetsLoop, if_neg (by simp [hempty]), h]
  exact congrArg (line :: ·) hfuel

theorem fgetsAll_line {line : List α} (hline : nl ∉ line) (hlength : line.length < room)
    (cs : List α) :
    fgetsAll nl room (line ++ nl :: cs) = (line ++ [nl]) :: fgetsAll nl room cs :=
  fgetsAll_of_cutLine (by omega) (by simp) (cutLine_line hline hlength cs)

theorem fgetsAll_full {line : List α} (hline : nl ∉ line) (hpos : 0 < line.length)
    (cs : List α) :
    fgetsAll nl line.length (line ++ nl :: cs) = line :: [nl] :: fgetsAll nl line.length cs := by
  have hne : line ++ nl :: cs ≠ [] := by simp
  rw [fgetsAll_of_cutLine hpos hne (cutLine_full hline (nl :: cs))]
  rw [← List.nil_append (nl :: cs), fgetsAll_line List.not_mem_nil hpos]
  rfl

theorem mem_fgetsLoop {fuel : ℕ} {cs line : List α} (h : line ∈ fgetsLoop nl room fuel cs) :
    ∃ cs', line = (cutLine nl room cs').1 := by
  induction fuel generalizing cs with
  | zero => cases h
  | succ fuel ih =>
    rw [fgetsLoop] at h
    by_cases hcs : cs.isEmpty = true
    · rw [if_pos hcs] at h
      cases h
    · rw [if_neg hcs] at h
      rcases List.mem_cons.1 h with rfl | h
      · exact ⟨cs, rfl⟩
      · exact ih h

theorem length_le_of_mem_fgetsAll {cs line : List α} (h : line ∈ fgetsAll nl room cs) :
    line.length ≤ room := by
  obtain ⟨cs', rfl⟩ := mem_fgetsLoop h
  exact length_cutLine_le room cs'

theorem newline_of_mem_fgetsAll {cs line : List α} (h : line ∈ fgetsAll nl room cs) :
    nl ∉ line.dropLast := by
  obtain ⟨cs', rfl⟩ := mem_fgetsLoop h
  exact newline_of_mem_cutLine room cs'

end Buffers

/-! ## Padding -/

variable {p : α → Bool} {s t : List α}

/-- The list neither begins nor ends with padding. -/
structure Trimmed (p : α → Bool) (s : List α) : Prop where
  head : ∀ c ∈ s.head?, p c = false
  last : ∀ c ∈ s.getLast?, p c = false

theorem dropWhile_padded (hs : ∀ c ∈ s, p c = true) (ht : ∀ c ∈ t.head?, p c = false) :
    (s ++ t).dropWhile p = t := by
  rw [List.dropWhile_append_of_pos hs]
  cases t with
  | nil => rfl
  | cons c t => exact List.dropWhile_cons_of_neg (by simp [ht c rfl])

/-- Only what stands behind the last element that is no padding is taken off. -/
theorem rdropWhile_append_of_last (hs : ∀ c ∈ s.getLast?, p c = false) :
    (s ++ t).rdropWhile p = s ++ t.rdropWhile p := by
  induction t using List.reverseRecOn with
  | nil =>
    rw [List.append_nil, List.rdropWhile_nil, List.append_nil, List.rdropWhile_eq_self_iff]
    intro hne
    simp [hs _ (List.getLast?_eq_some_getLast hne)]
  | append_singleton t c ih =>
    rw [← List.append_assoc]
    by_cases hc : p c = true
    · rw [List.rdropWhile_concat_pos _ _ _ hc, List.rdropWhile_concat_pos _ _ _ hc, ih]
    · rw [List.rdropWhile_concat_neg _ _ _ hc, List.rdropWhile_concat_neg _ _ _ hc,
        List.append_assoc]

theorem rdropWhile_padded (hs : ∀ c ∈ s.getLast?, p c = false) (ht : ∀ c ∈ t, p c = true) :
    (s ++ t).rdropWhile p = s := by
  rw [rdropWhile_append_of_last hs, List.rdropWhile_eq_nil_iff.2 ht, List.append_nil]

theorem last_rdropWhile : ∀ c ∈ (s.rdropWhile p).getLast?, p c = false := by
  intro c hc
  have hne : s.rdropWhile p ≠ [] := by
    intro h
    rw [h] at hc
    cases hc
  rw [List.getLast?_eq_some_getLast hne, Option.mem_some_iff] at hc
  have hlast := List.rdropWhile_last_not p s hne
  rw [hc] at hlast
  simpa using hlast

theorem mem_head_mono (h : s <+: t) {c : α} (hc : c ∈ s.head?) : c ∈ t.head? := by
  obtain ⟨u, rfl⟩ := h
  cases s with
  | nil => cases hc
  | cons d s => exact hc

theorem last_of_suffix (h : s <:+ t) {c : α} (hc : c ∈ s.getLast?) : c ∈ t.getLast? := by
  obtain ⟨u, rfl⟩ := h
  rw [List.getLast?_append, hc]
  rfl

theorem head_dropWhile : ∀ c ∈ (s.dropWhile p).head?, p c = false := by
  intro c hc
  have hhead := List.head?_dropWhile_not p s
  rw [hc] at hhead
  simpa using hhead

/-- What is left between the padding on both ends of a list. -/
theorem trimmed_dropWhile_rdropWhile : Trimmed p ((s.rdropWhile p).dropWhile p) where
  head := head_dropWhile
  last c hc := last_rdropWhile c (last_of_suffix (List.dropWhile_suffix p) hc)

theorem Trimmed.rdropWhile_of_prefix (hs : Trimmed p s) (ht : t <+: s) :
    Trimmed p (t.rdropWhile p) where
  head c hc := hs.head c (mem_head_mono ((List.rdropWhile_prefix p t).trans ht) hc)
  last := last_rdropWhile

end Lines
