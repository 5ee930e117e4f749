import SpartanLauncher.Lib.CString

/-!
# Input streams

Extraction from a `std::istream` of the C++ library, with its state bits. The stream buffer holds
the text that is left; nothing sets the bad bit, and no bit is ever cleared.

* `sentry`, `getline₁`, `getlineString`, `getInt`, `getSize`, `getBool`: the extractors.
* `Reads`: an extractor takes exactly a given text off the stream and leaves the stream good.
  `Reads.bind` composes, and each extractor has a rule.
-/

open CString

structure IStream where
  rest : List Char
  eofbit : Bool := false
  failbit : Bool := false
  deriving DecidableEq

namespace IStream

def good (is : IStream) : Bool := !is.eofbit && !is.failbit

/-- An extractor. -/
abbrev Extract (α : Type) := StateM IStream α

/-! ## The extractors -/

/-- What comes first in each extractor: nothing is extracted from a stream that is not good, or
that has only white space where white space is skipped. -/
def sentry (skipws : Bool) : Extract Bool := fun is =>
  if is.good then
    if skipws then
      match is.rest.dropWhile isSpace with
      | [] => (false, ⟨[], true, true⟩)
      | rest => (true, { is with rest := rest })
    else (true, is)
  else (false, { is with failbit := true })

/-- `is.getline(&c, 1)`, which has room for the terminating null character only. -/
def getline₁ : Extract Unit := do
  if ← sentry false then
    let is ← get
    match is.rest with
    | [] => set { is with eofbit := true, failbit := true }
    | c :: rest =>
      if c = '\n' then set { is with rest := rest } else set { is with failbit := true }

/-- `std::getline(is, str, delim)`. -/
def getlineString (delim : Char) (str : List Char) : Extract (List Char) := do
  if ← sentry false then
    let is ← get
    let line := is.rest.takeWhile (· != delim)
    match is.rest.dropWhile (· != delim) with
    | [] => set { is with rest := [], eofbit := true, failbit := decide (line = []) }
    | _ :: rest => set { is with rest := rest }
    return line
  else return str

def scanSign : List Char → ℤ × List Char
  | '-' :: ds => (-1, ds)
  | '+' :: ds => (1, ds)
  | ds => (1, ds)

/-- The sign and the digits of a number, and what follows them. -/
def scanInt (s : List Char) : Option ℤ × List Char :=
  let (sign, ds) := scanSign s
  (if ds.takeWhile Char.isDigit = [] then none else some (sign * scanNat ds),
    ds.dropWhile Char.isDigit)

/-- Extract the characters of a number; the stream has failed unless there were digits. -/
def scanNumber : Extract (Option ℤ) := fun is =>
  let (n, rest) := scanInt is.rest
  (n, { rest := rest, eofbit := decide (rest = []), failbit := decide (n = none) })

def setFail : Extract Unit := modify fun is => { is with failbit := true }

/-- `is >> n` for a signed integer type with the given bounds. -/
def getInt (lo hi n : ℤ) : Extract ℤ := do
  if ← sentry true then
    match ← scanNumber with
    | none => return 0
    | some m =>
      if m < lo then
        setFail
        return lo
      else if hi < m then
        setFail
        return hi
      else return m
  else return n

/-- `is >> n` for `size_t`: a negative number wraps around. -/
def getSize (n : ℕ) : Extract ℕ := do
  if ← sentry true then
    match ← scanNumber with
    | none => return 0
    | some m =>
      if 2 ^ 64 ≤ m.natAbs then
        setFail
        return 2 ^ 64 - 1
      else return (m % 2 ^ 64).toNat
  else return n

/-- `is >> b` without `std::boolalpha`. -/
def getBool (b : Bool) : Extract Bool := do
  if ← sentry true then
    match ← scanNumber with
    | none => return false
    | some m =>
      if m = 0 then return false
      else if m = 1 then return true
      else
        setFail
        return true
  else return b

/-! ## Reading exactly a text -/

/-- The text of `os << s << '\n'`. -/
def line (s : List Char) : List Char := s ++ ['\n']

/-- The extractor takes this text off a good stream, whatever follows, and leaves it good. -/
def Reads {α : Type} (r : Extract α) (text : List Char) (a : α) : Prop :=
  ∀ rest, r ⟨text ++ rest, false, false⟩ = (a, ⟨rest, false, false⟩)

section Reads

variable {α β : Type} {r : Extract α} {text text' : List Char} {a : α} {b : β}

theorem bind_apply (r : Extract α) (f : α → Extract β) (is : IStream) :
    (r >>= f) is = f (r is).1 (r is).2 := rfl

theorem Reads.pure (a : α) : Reads (Pure.pure a : Extract α) [] a := fun _ => rfl

theorem Reads.bind {f : α → Extract β} (h : Reads r text a) (h' : Reads (f a) text' b) :
    Reads (r >>= f) (text ++ text') b := by
  intro rest
  rw [bind_apply, List.append_assoc, h]
  exact h' rest

/-- The last extractor of a record. -/
theorem Reads.last {f : α → β} (h : Reads r text a) :
    Reads (r >>= fun a => Pure.pure (f a)) text (f a) := by
  have hbind : Reads (r >>= fun a => Pure.pure (f a)) (text ++ []) (f a) :=
    h.bind (Reads.pure (f a))
  rwa [List.append_nil] at hbind

theorem reads_getline₁ : Reads getline₁ ['\n'] () := fun _ => rfl

/-- A record with a newline behind it. -/
theorem Reads.separated {f : α → Extract β} (h : Reads r text a) (h' : Reads (f a) text' b) :
    Reads (r >>= fun a => getline₁ >>= fun _ => f a) (line text ++ text') b := by
  rw [line, List.append_assoc]
  exact h.bind (reads_getline₁.bind h')

theorem reads_getlineString {delim : Char} {line : List Char} (h : delim ∉ line)
    (str : List Char) : Reads (getlineString delim str) (line ++ [delim]) line := by
  intro rest
  have hpos : ∀ c ∈ line, (c != delim) = true := fun c hc => by
    simpa using fun heq : c = delim => h (heq ▸ hc)
  have htake : (line ++ [delim] ++ rest).takeWhile (· != delim) = line := by
    rw [List.append_assoc, List.takeWhile_append_of_pos hpos]
    simp
  have hdrop : (line ++ [delim] ++ rest).dropWhile (· != delim) = delim :: rest := by
    rw [List.append_assoc, List.dropWhile_append_of_pos hpos]
    simp
  simp only [getlineString, sentry, good, bind, StateT.bind, get, getThe, MonadStateOf.get,
    StateT.get, pure, Bool.not_false, Bool.and_self, if_true, Bool.false_eq_true, if_false, htake,
    hdrop]
  rfl

theorem reads_line {s : List Char} (h : '\n' ∉ s) (str : List Char) :
    Reads (getlineString '\n' str) (line s) s := reads_getlineString h str

/-! ### Numbers -/

theorem isSpace_of_isDigit {c : Char} (hc : c.isDigit = true) : isSpace c = false := by
  by_contra h
  simp only [isSpace, Bool.not_eq_false, Bool.or_eq_true, beq_iff_eq] at h
  rcases h with ((((rfl | rfl) | rfl) | rfl) | rfl) | rfl <;> exact absurd hc (by decide)

/-- A printed number begins with a digit or a minus sign. -/
theorem isSpace_head_printDec {n : ℤ} {c : Char} {cs : List Char} (h : printDec n = c :: cs) :
    isSpace c = false := by
  cases n with
  | ofNat n =>
    have hmem : c ∈ printDec n := by
      show c ∈ printDec (Int.ofNat n)
      rw [h]
      exact List.mem_cons_self
    exact isSpace_of_isDigit (isDigit_printDec hmem)
  | negSucc n =>
    cases h
    rfl

theorem takeWhile_isDigit_toDigits (n : ℕ) {rest : List Char}
    (hrest : ∀ c ∈ rest.head?, c.isDigit = false) :
    (Nat.toDigits 10 n ++ rest).takeWhile Char.isDigit = Nat.toDigits 10 n ∧
      (Nat.toDigits 10 n ++ rest).dropWhile Char.isDigit = rest := by
  have hdig : ∀ c ∈ Nat.toDigits 10 n, c.isDigit = true := fun c hc => isDigit_printDec hc
  rw [List.takeWhile_append_of_pos hdig, List.dropWhile_append_of_pos hdig]
  cases rest with
  | nil => simp
  | cons c cs => simp [hrest c rfl]

theorem scanSign_digit {c : Char} (hc : c.isDigit = true) (ds : List Char) :
    scanSign (c :: ds) = (1, c :: ds) := by
  unfold scanSign
  split
  · next h => cases h; exact absurd hc (by decide)
  · next h => cases h; exact absurd hc (by decide)
  · rfl

theorem scanInt_printDec (n : ℤ) (rest : List Char)
    (hrest : ∀ c ∈ rest.head?, c.isDigit = false) :
    scanInt (printDec n ++ rest) = (some n, rest) := by
  cases n with
  | ofNat n =>
    obtain ⟨htake, hdrop⟩ := takeWhile_isDigit_toDigits n hrest
    have hscan := scanNat_toDigits_append n rest hrest
    have hne : Nat.toDigits 10 n ≠ [] := Nat.toDigits_ne_nil
    have hsign : scanSign (Nat.toDigits 10 n ++ rest) = (1, Nat.toDigits 10 n ++ rest) := by
      obtain ⟨c, cs, hcs⟩ := List.exists_cons_of_ne_nil hne
      have hc : c ∈ printDec n := by
        show c ∈ Nat.toDigits 10 n
        rw [hcs]
        exact List.mem_cons_self
      rw [hcs]
      exact scanSign_digit (isDigit_printDec hc) _
    simp only [printDec, scanInt, hsign, htake, hdrop, if_neg hne, hscan]
    simp
  | negSucc n =>
    obtain ⟨htake, hdrop⟩ := takeWhile_isDigit_toDigits (n + 1) hrest
    have hscan := scanNat_toDigits_append (n + 1) rest hrest
    have hne : Nat.toDigits 10 (n + 1) ≠ [] := Nat.toDigits_ne_nil
    simp only [printDec, List.cons_append, scanInt, scanSign, htake, hdrop, if_neg hne, hscan]
    simp [Int.negSucc_eq]

/-- The number in front of a newline is scanned off a good stream. -/
theorem sentry_scanNumber (n : ℤ) (f : Option ℤ → Extract α) (g : Extract α) (rest : List Char) :
    (sentry true >>= fun ok => if ok then scanNumber >>= f else g)
      ⟨printDec n ++ '\n' :: rest, false, false⟩ = f (some n) ⟨'\n' :: rest, false, false⟩ := by
  obtain ⟨c, cs, hcs⟩ := List.exists_cons_of_ne_nil (printDec_ne_nil n)
  have hsentry : sentry true ⟨printDec n ++ '\n' :: rest, false, false⟩ =
      (true, ⟨printDec n ++ '\n' :: rest, false, false⟩) := by
    simp [sentry, good, hcs, isSpace_head_printDec hcs]
  have hscan := scanInt_printDec n ('\n' :: rest) (by simp [Char.isDigit])
  have hscan' : scanNumber ⟨printDec n ++ '\n' :: rest, false, false⟩ =
      (some n, ⟨'\n' :: rest, false, false⟩) := by
    simp [scanNumber, hscan]
  rw [bind_apply, hsentry]
  show (scanNumber >>= f) _ = _
  rw [bind_apply, hscan']

/-- The rule for an extractor of numbers on a number on a line of its own. -/
theorem Reads.number {get : Extract α} {f : α → Extract β} {n : ℤ}
    (hget : ∀ rest, get ⟨printDec n ++ '\n' :: rest, false, false⟩ =
      (a, ⟨'\n' :: rest, false, false⟩)) (h : Reads (f a) text b) :
    Reads (get >>= fun a => getline₁ >>= fun _ => f a) (line (printDec n) ++ text) b := by
  intro rest
  rw [bind_apply, line, List.append_assoc, List.append_assoc, List.singleton_append, hget,
    bind_apply]
  exact h rest

theorem getInt_printDec {lo hi n : ℤ} (hlo : lo ≤ n) (hhi : n ≤ hi) (old : ℤ) (rest : List Char) :
    getInt lo hi old ⟨printDec n ++ '\n' :: rest, false, false⟩ =
      (n, ⟨'\n' :: rest, false, false⟩) := by
  unfold getInt
  rw [sentry_scanNumber]
  simp only [if_neg (not_lt.2 hlo), if_neg (not_lt.2 hhi)]
  rfl

theorem getSize_printDec {n : ℕ} (hn : n < 2 ^ 64) (old : ℕ) (rest : List Char) :
    getSize old ⟨printDec n ++ '\n' :: rest, false, false⟩ =
      (n, ⟨'\n' :: rest, false, false⟩) := by
  unfold getSize
  rw [sentry_scanNumber]
  have hmod : ((n : ℤ) % 2 ^ 64).toNat = n := by omega
  simp only [Int.natAbs_natCast, if_neg (not_le.2 hn), hmod]
  rfl

theorem getBool_printDec (b old : Bool) (rest : List Char) :
    getBool old ⟨printDec b.toNat ++ '\n' :: rest, false, false⟩ =
      (b, ⟨'\n' :: rest, false, false⟩) := by
  unfold getBool
  rw [sentry_scanNumber]
  cases b <;> rfl

end Reads

end IStream
