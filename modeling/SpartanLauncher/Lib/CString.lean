import Mathlib.Data.List.TakeWhile
import Mathlib.Tactic.Common
import Mathlib.Tactic.NormNum

/-!
# C strings as lists of characters

A C string is the list of its characters, without the terminating NUL; a buffer is a list that
may contain NULs. The functions carry the names of the C library and follow the "C" locale.

* `strtok` is one call of `strtok_r` with a single delimiter: the token and the saved rest.
* `printDec` and `strtol` are `%d` and `strtol(s, nullptr, 10)`; `strtol_printDec` relates them.
* `snprintf` truncates; `snprintfGrow` is the idiom that formats again into a larger buffer.
-/

namespace CString

/-! ## Buffers -/

/-- The string that starts at the beginning of a buffer: everything before the first NUL. -/
def cstr (buf : List Char) : List Char := buf.takeWhile (· ≠ '\x00')

/-- `strndup(s, n)`. -/
def strndup (buf : List Char) (n : ℕ) : List Char := cstr (buf.take n)

theorem nul_notMem_cstr (buf : List Char) : '\x00' ∉ cstr buf := by
  intro h
  simpa using List.mem_takeWhile_imp h

theorem cstr_of_nulFree {s : List Char} (h : '\x00' ∉ s) : cstr s = s :=
  List.takeWhile_eq_self_iff.2 fun c hc => by
    simpa using fun hc0 : c = '\x00' => h (hc0 ▸ hc)

theorem cstr_append_nul {s t : List Char} (h : '\x00' ∉ s) : cstr (s ++ '\x00' :: t) = s := by
  rw [cstr, List.takeWhile_append_of_pos fun c hc => by
    simpa using fun hc0 : c = '\x00' => h (hc0 ▸ hc)]
  simp

/-- The `n` characters that `strncpy(dst, s, n)` writes. -/
def strncpy (s : List Char) (n : ℕ) : List Char := s.take n ++ List.replicate (n - s.length) '\x00'

@[simp] theorem length_strncpy (s : List Char) (n : ℕ) : (strncpy s n).length = n := by
  simp only [strncpy, List.length_append, List.length_take, List.length_replicate]
  omega

@[simp] theorem strncpy_length (s : List Char) : strncpy s s.length = s := by simp [strncpy]

theorem strncpy_eq_take (s : List Char) (n : ℕ) :
    strncpy s n = s.take n ++ List.replicate (n - (s.take n).length) '\x00' := by
  have hpad : n - s.length = n - (s.take n).length := by
    rw [List.length_take]
    omega
  rw [strncpy, hpad]

/-- The copy of a string is cut after `n` characters. -/
theorem cstr_strncpy {s : List Char} (h : '\x00' ∉ s) (n : ℕ) : cstr (strncpy s n) = s.take n := by
  have hpos : ∀ c ∈ s.take n, decide (c ≠ '\x00') = true := by
    intro c hc
    rw [decide_eq_true_iff]
    rintro rfl
    exact h (List.mem_of_mem_take hc)
  have hpad : (List.replicate (n - s.length) '\x00').takeWhile (· ≠ '\x00') = [] := by
    cases n - s.length <;> rfl
  rw [cstr, strncpy, List.takeWhile_append_of_pos hpos, hpad, List.append_nil]

/-- Two copies are equal when the strings agree where they are copied. -/
theorem strncpy_eq_iff {s t : List Char} (hs : '\x00' ∉ s) (ht : '\x00' ∉ t) (n : ℕ) :
    strncpy s n = strncpy t n ↔ s.take n = t.take n := by
  refine ⟨?_, ?_⟩
  · intro h
    rw [← cstr_strncpy hs, ← cstr_strncpy ht, h]
  · intro h
    rw [strncpy_eq_take, strncpy_eq_take, h]

/-- Write behind what is in the buffer so far; `none` when the buffer is too small. -/
def writeBuf (size : ℕ) (written cs : List Char) : Option (List Char) :=
  if written.length + cs.length ≤ size then some (written ++ cs) else none

/-- An array of pointers to strings; `none` is a null pointer. -/
abbrev Argv := List (Option (List Char))

/-! ## Comparison -/

/-- `strncmp(s, t, n) == 0`. -/
def strncmpEq (s t : List Char) (n : ℕ) : Bool := s.take n == t.take n

/-- `strcasecmp(s, t) == 0`. -/
def strcasecmpEq (s t : List Char) : Bool := s.map Char.toLower == t.map Char.toLower

/-- `strncasecmp(s, t, n) == 0`. -/
def strncasecmpEq (s t : List Char) (n : ℕ) : Bool :=
  (s.take n).map Char.toLower == (t.take n).map Char.toLower

@[simp] theorem strcasecmpEq_iff {s t : List Char} :
    strcasecmpEq s t = true ↔ s.map Char.toLower = t.map Char.toLower := beq_iff_eq

/-- An upper case letter moves by 32, everything else stays. -/
theorem toLower_cases (c : Char) :
    (65 ≤ c.toNat ∧ c.toNat ≤ 90 ∧ c.toLower.toNat = c.toNat + 32) ∨
      (¬ (65 ≤ c.toNat ∧ c.toNat ≤ 90) ∧ c.toLower = c) := by
  by_cases hc : c.val ≥ 'A'.val ∧ c.val ≤ 'Z'.val
  · have hlo : 65 ≤ c.val.toNat := hc.1
    have hhi : c.val.toNat ≤ 90 := hc.2
    refine .inl ⟨hlo, hhi, ?_⟩
    have hlower : c.toLower.val = c.val + 32 := by
      have hdef : c.toLower = _ := dif_pos hc
      rw [hdef]
      rfl
    have h32 : (32 : UInt32).toNat = 32 := rfl
    show c.toLower.val.toNat = c.val.toNat + 32
    rw [hlower, UInt32.toNat_add]
    omega
  · exact .inr ⟨hc, dif_neg hc⟩

theorem toLower_toLower (c : Char) : c.toLower.toLower = c.toLower := by
  rcases toLower_cases c with ⟨hlo, hhi, hc⟩ | ⟨-, hc⟩
  · rcases toLower_cases c.toLower with ⟨-, hhi', -⟩ | ⟨-, h⟩
    · omega
    · exact h
  · rw [hc, hc]

theorem map_toLower_toLower (s : List Char) :
    (s.map Char.toLower).map Char.toLower = s.map Char.toLower := by
  rw [List.map_map]
  exact List.map_congr_left fun c _ => toLower_toLower c

/-- A character outside of the letters is reached from itself only. -/
theorem toLower_eq_iff {c d : Char} (hupper : ¬ (65 ≤ d.toNat ∧ d.toNat ≤ 90))
    (hlower : ¬ (97 ≤ d.toNat ∧ d.toNat ≤ 122)) : c.toLower = d ↔ c = d := by
  rcases toLower_cases c with ⟨hlo, hhi, hc⟩ | ⟨-, hc⟩
  · refine ⟨?_, ?_⟩
    · intro h
      rw [h] at hc
      omega
    · intro h
      rw [h] at hlo hhi
      omega
  · rw [hc]

/-! ## Search -/

/-- `strstr`: the text in front of the first occurrence of a string, and the text behind it. -/
def strstr : List Char → List Char → Option (List Char × List Char)
  | [], needle => if needle = [] then some ([], []) else none
  | c :: haystack, needle =>
    if needle.isPrefixOf (c :: haystack) then some ([], (c :: haystack).drop needle.length)
    else (strstr haystack needle).map fun (front, behind) => (c :: front, behind)

theorem strstr_sound {haystack needle front behind : List Char}
    (h : strstr haystack needle = some (front, behind)) :
    haystack = front ++ (needle ++ behind) := by
  induction haystack generalizing front with
  | nil =>
    unfold strstr at h
    split_ifs at h with hneedle
    cases h
    simp [hneedle]
  | cons c haystack ih =>
    unfold strstr at h
    split_ifs at h with hneedle
    · cases h
      exact (List.prefix_iff_eq_append.1 (List.isPrefixOf_iff_prefix.1 hneedle)).symm
    · obtain ⟨⟨front', behind'⟩, hrest, heq⟩ := Option.map_eq_some_iff.1 h
      cases heq
      rw [ih hrest, List.cons_append]

/-- A string at the start is found there. -/
theorem strstr_append (needle behind : List Char) :
    strstr (needle ++ behind) needle = some ([], behind) := by
  cases h : needle ++ behind with
  | nil =>
    obtain ⟨rfl, rfl⟩ := List.append_eq_nil_iff.1 h
    rfl
  | cons c haystack =>
    have hneedle : needle.isPrefixOf (c :: haystack) = true :=
      List.isPrefixOf_iff_prefix.2 (h ▸ List.prefix_append _ _)
    unfold strstr
    rw [if_pos hneedle, ← h, List.drop_left]

/-! ## Tokens -/

/-- One call of `strtok_r`: the next token and what the saved pointer then points to. -/
def strtok (delim : Char) (s : List Char) : Option (List Char × List Char) :=
  let start := s.dropWhile (· == delim)
  if start.isEmpty then none
  else some (start.takeWhile (· ≠ delim), (start.dropWhile (· ≠ delim)).drop 1)

/-- What `token + strlen(token) + 1` points to after a call of `strtok_r`: the text behind the
delimiter that ended the token. There is none when the token runs to the end of the string. -/
def strtokTail (delim : Char) (s : List Char) : Option (List Char) :=
  match (s.dropWhile (· == delim)).dropWhile (· ≠ delim) with
  | [] => none
  | _ :: rest => some rest

theorem dropWhile_delim_of_notMem {d : Char} {tok : List Char} (hne : tok ≠ []) (h : d ∉ tok)
    (rest : List Char) : (tok ++ rest).dropWhile (· == d) = tok ++ rest := by
  cases tok with
  | nil => exact absurd rfl hne
  | cons c tok =>
    have hc : c ≠ d := fun hc => h (hc ▸ List.mem_cons_self)
    simp [hc]

/-- A token that is followed by the delimiter. -/
theorem strtok_append {d : Char} {tok : List Char} (hne : tok ≠ []) (h : d ∉ tok)
    (rest : List Char) : strtok d (tok ++ d :: rest) = some (tok, rest) := by
  have hpos : ∀ c ∈ tok, decide (c ≠ d) = true := fun c hc => by
    simpa using fun hcd : c = d => h (hcd ▸ hc)
  rw [strtok, dropWhile_delim_of_notMem hne h, List.takeWhile_append_of_pos hpos,
    List.dropWhile_append_of_pos hpos]
  simp [hne]

/-- The last token of a string. -/
theorem strtok_last {d : Char} {tok : List Char} (hne : tok ≠ []) (h : d ∉ tok) :
    strtok d tok = some (tok, []) := by
  have hpos : ∀ c ∈ tok, decide (c ≠ d) = true := fun c hc => by
    simpa using fun hcd : c = d => h (hcd ▸ hc)
  have hdrop := dropWhile_delim_of_notMem hne h []
  rw [List.append_nil] at hdrop
  rw [strtok, hdrop, List.takeWhile_eq_self_iff.2 hpos, List.dropWhile_eq_nil_iff.2 hpos]
  simp [hne]

@[simp] theorem strtok_nil (d : Char) : strtok d [] = none := rfl

/-- The first token of tokens that are joined by the delimiter. -/
theorem strtok_intercalate_cons {d : Char} {tok tok' : List Char} {toks : List (List Char)}
    (hne : tok ≠ []) (h : d ∉ tok) :
    strtok d ([d].intercalate (tok :: tok' :: toks)) =
      some (tok, [d].intercalate (tok' :: toks)) := by
  rw [List.intercalate_cons_cons, List.append_assoc]
  exact strtok_append hne h _

theorem strtok_intercalate_singleton {d : Char} {tok : List Char} (hne : tok ≠ []) (h : d ∉ tok) :
    strtok d ([d].intercalate [tok]) = some (tok, []) := by
  rw [List.intercalate_singleton]
  exact strtok_last hne h

/-- The non-empty pieces between the delimiters. -/
def pieces (delim : Char) (s : List Char) : List (List Char) :=
  (s.splitOn delim).filter (!·.isEmpty)

@[simp] theorem pieces_nil (d : Char) : pieces d [] = [] := by simp [pieces]

theorem pieces_append_delim (d : Char) (s t : List Char) :
    pieces d (s ++ d :: t) = pieces d s ++ pieces d t := by
  rw [pieces, List.splitOn_append_cons_self, List.filter_append]
  rfl

theorem pieces_cons_delim (d : Char) (s : List Char) : pieces d (d :: s) = pieces d s :=
  pieces_append_delim d [] s

theorem pieces_of_notMem {d : Char} {tok : List Char} (hne : tok ≠ []) (h : d ∉ tok) :
    pieces d tok = [tok] := by
  rw [pieces, List.splitOn_eq_singleton h]
  simp [hne]

theorem pieces_dropWhile (d : Char) (s : List Char) :
    pieces d (s.dropWhile (· == d)) = pieces d s := by
  induction s with
  | nil => rfl
  | cons c s ih =>
    by_cases hc : c = d
    · rw [hc, List.dropWhile_cons_of_pos (by simp), ih, pieces_cons_delim]
    · rw [List.dropWhile_cons_of_neg (by simpa using hc)]

/-- Nothing is lost but the delimiters. -/
theorem flatten_pieces (d : Char) (s : List Char) :
    (pieces d s).flatten = s.filter (· ≠ d) := by
  rw [pieces, List.flatten_filter_not_isEmpty]
  induction s with
  | nil => simp
  | cons c s ih =>
    obtain ⟨head, tail, hsplit⟩ := List.exists_cons_of_ne_nil (List.splitOn_ne_nil d s)
    rw [List.splitOn_cons_eq_if_modifyHead]
    by_cases hc : c = d
    · rw [if_pos (by simpa using hc), List.filter_cons_of_neg (by simpa using hc), ← ih]
      rfl
    · rw [if_neg (by simpa using hc), List.filter_cons_of_pos (by simpa using hc), ← ih, hsplit]
      rfl

theorem pieces_map {d : Char} {f : Char → Char} (hf : ∀ c, f c = d ↔ c = d) (s : List Char) :
    pieces d (s.map f) = (pieces d s).map (List.map f) := by
  have hsplit : (s.map f).splitOn d = (s.splitOn d).map (List.map f) := by
    induction s with
    | nil => simp
    | cons c s ih =>
      obtain ⟨head, tail, hsplit⟩ := List.exists_cons_of_ne_nil (List.splitOn_ne_nil d s)
      rw [List.map_cons, List.splitOn_cons_eq_if_modifyHead, List.splitOn_cons_eq_if_modifyHead,
        ih, hsplit]
      by_cases hc : c = d
      · rw [if_pos (by simpa using (hf c).2 hc), if_pos (by simpa using hc)]
        rfl
      · rw [if_neg (by simpa using fun h => hc ((hf c).1 h)), if_neg (by simpa using hc)]
        rfl
  rw [pieces, hsplit, List.filter_map, pieces]
  congr 2
  funext piece
  simp

/-- **A call of `strtok`** that finds no token. -/
theorem pieces_of_strtok_none {d : Char} {s : List Char} (h : strtok d s = none) :
    pieces d s = [] := by
  simp only [strtok] at h
  split_ifs at h with hstart
  rw [← pieces_dropWhile, List.isEmpty_iff.1 hstart, pieces_nil]

/-- **A call of `strtok`** takes the first piece. -/
theorem pieces_of_strtok {d : Char} {s tok rest : List Char} (h : strtok d s = some (tok, rest)) :
    pieces d s = tok :: pieces d rest ∧ rest.length < s.length := by
  simp only [strtok] at h
  split_ifs at h with hstart
  simp only [Option.some.injEq, Prod.mk.injEq] at h
  obtain ⟨rfl, rfl⟩ := h
  have hlength := List.length_dropWhile_le (· == d) s
  rw [← pieces_dropWhile]
  generalize hs : s.dropWhile (· == d) = start at hstart hlength
  cases start with
  | nil => exact absurd rfl hstart
  | cons c start =>
    have hc : decide (c ≠ d) = true := by
      have hhead := List.head?_dropWhile_not (· == d) s
      rw [hs] at hhead
      simpa using hhead
    have htok : d ∉ (c :: start).takeWhile (· ≠ d) := fun hmem => by
      simpa using List.mem_takeWhile_imp hmem
    have hne : (c :: start).takeWhile (· ≠ d) ≠ [] := by
      have hcons : (c :: start).takeWhile (· ≠ d) = c :: start.takeWhile (· ≠ d) :=
        List.takeWhile_cons_of_pos hc
      rw [hcons]
      exact List.cons_ne_nil _ _
    have happend := List.takeWhile_append_dropWhile (p := (· ≠ d)) (l := c :: start)
    have hrest := List.length_dropWhile_le (· ≠ d) start
    have hdrop : (c :: start).dropWhile (· ≠ d) = start.dropWhile (· ≠ d) :=
      List.dropWhile_cons_of_pos hc
    rw [hdrop] at happend ⊢
    rw [List.length_cons] at hlength
    refine ⟨?_, by rw [List.length_drop]; omega⟩
    cases hbehind : start.dropWhile (· ≠ d) with
    | nil =>
      rw [hbehind, List.append_nil] at happend
      rw [happend] at hne htok ⊢
      rw [pieces_of_notMem hne htok, List.drop_nil, pieces_nil]
    | cons c' behind =>
      have hdelim : c' = d := by
        have hhead := List.head?_dropWhile_not (· ≠ d) start
        rw [hbehind] at hhead
        simpa using hhead
      rw [hbehind, hdelim] at happend
      rw [List.drop_one, List.tail_cons]
      conv_lhs => rw [← happend]
      rw [pieces_append_delim, pieces_of_notMem hne htok, List.singleton_append]

/-! ## Decimal numbers -/

/-- `%d`. -/
def printDec : ℤ → List Char
  | .ofNat n => Nat.toDigits 10 n
  | .negSucc n => '-' :: Nat.toDigits 10 (n + 1)

/-- The value of the longest prefix of digits. -/
def scanNat (s : List Char) : ℕ := Nat.ofDigitChars 10 (s.takeWhile Char.isDigit) 0

/-- White space in the sense of `isspace`. -/
def isSpace (c : Char) : Bool :=
  c == ' ' || c == '\t' || c == '\n' || c == '\x0b' || c == '\x0c' || c == '\r'

/-- `strtol(s, nullptr, 10)`, which skips white space, takes one sign, and clamps the value to
the 64-bit `long`. -/
def strtol (s : List Char) : ℤ :=
  match s.dropWhile isSpace with
  | '-' :: ds => max (-(scanNat ds : ℤ)) (-2 ^ 63)
  | '+' :: ds => min (scanNat ds : ℤ) (2 ^ 63 - 1)
  | ds => min (scanNat ds : ℤ) (2 ^ 63 - 1)

/-- The conversion to a 32-bit `int`. -/
def toInt32 (n : ℤ) : ℤ := n.bmod (2 ^ 32)

theorem toInt32_eq {n : ℤ} (hlo : -2 ^ 31 ≤ n) (hhi : n < 2 ^ 31) : toInt32 n = n := by
  rw [toInt32, Int.bmod_def]
  push_cast
  split_ifs <;> omega

theorem toInt32_le {n : ℤ} (hn : 0 ≤ n) : toInt32 n ≤ n := by
  rw [toInt32, Int.bmod_def]
  push_cast
  split_ifs <;> omega

theorem toInt32_neg {n : ℤ} (hlo : 2 ^ 31 ≤ n) (hhi : n < 2 ^ 32) : toInt32 n < 0 := by
  rw [toInt32, Int.bmod_def]
  push_cast
  split_ifs <;> omega

theorem isDigit_printDec {n : ℕ} {c : Char} (hc : c ∈ printDec n) : c.isDigit = true :=
  Nat.isDigit_of_mem_toDigits (by decide) (by decide) hc

theorem printDec_ne_nil (n : ℤ) : printDec n ≠ [] := by
  cases n with
  | ofNat n => exact Nat.toDigits_ne_nil
  | negSucc n => exact List.cons_ne_nil _ _

theorem scanNat_toDigits_append (n : ℕ) (rest : List Char)
    (hrest : ∀ c ∈ rest.head?, c.isDigit = false) :
    scanNat (Nat.toDigits 10 n ++ rest) = n := by
  have hdig : ∀ c ∈ Nat.toDigits 10 n, c.isDigit = true := fun c hc => isDigit_printDec hc
  rw [scanNat, List.takeWhile_append_of_pos hdig]
  cases rest with
  | nil => simp
  | cons c cs => simp [hrest c rfl]

theorem space_notMem_printDec (n : ℕ) : ' ' ∉ printDec n := fun h => by
  simpa using isDigit_printDec h

/-- Reading back a number that was printed. -/
theorem strtol_printDec {n : ℕ} (hn : n < 2 ^ 63) : strtol (printDec n) = n := by
  have hscan := scanNat_toDigits_append n [] (by simp)
  rw [List.append_nil] at hscan
  have hne := printDec_ne_nil n
  show strtol (Nat.toDigits 10 n) = n
  cases hd : Nat.toDigits 10 n with
  | nil => exact absurd hd hne
  | cons c cs =>
    have hc : c.isDigit = true := isDigit_printDec (n := n) (by
      show c ∈ Nat.toDigits 10 n
      rw [hd]; exact List.mem_cons_self)
    have hspace : isSpace c = false := by
      by_contra h
      simp only [isSpace, Bool.not_eq_false, Bool.or_eq_true, beq_iff_eq] at h
      rcases h with ((((rfl | rfl) | rfl) | rfl) | rfl) | rfl <;> exact absurd hc (by decide)
    have hneg : c ≠ '-' := by rintro rfl; exact absurd hc (by decide)
    have hpos : c ≠ '+' := by rintro rfl; exact absurd hc (by decide)
    rw [hd] at hscan
    simp only [strtol, List.dropWhile_cons, hspace]
    split
    · next h => exact absurd (List.cons.inj h).1 hneg
    · next h => exact absurd (List.cons.inj h).1 hpos
    · rw [if_neg (by decide), hscan]
      omega

/-! ## Formatting -/

/-- `snprintf(buf, size, ...)` for a text that needs `text.length` characters: the string that
ends up in the buffer and the number of characters the text needs. -/
def snprintf (size : ℕ) (text : List Char) : List Char × ℕ := (text.take (size - 1), text.length)

/-- Format into a buffer of `size`, and once more into one of the reported size plus one when
the text was cut. -/
def snprintfGrow (size : ℕ) (text : List Char) : List Char :=
  let (buf, n) := snprintf size text
  if n ≥ size then (snprintf (n + 1) text).1 else buf

@[simp] theorem snprintfGrow_eq (size : ℕ) (text : List Char) : snprintfGrow size text = text := by
  unfold snprintfGrow snprintf
  by_cases h : text.length ≥ size
  · simp [h]
  · simp only [h, if_false]
    exact List.take_of_length_le (by omega)

end CString
