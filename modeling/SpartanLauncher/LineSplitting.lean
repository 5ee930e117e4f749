import SpartanLauncher.ReadLine

/-!
# How `ReadLine` finds the next line

The invariant `Inv` relates an object to the text that is not delivered yet, for expressions whose
matches do not depend on what follows (`Determined`). `fillBuffer`, `searchBuffer` and `makeRoom`
get a specification each; with them a round of `readLineImpl` delivers the next line, or reads on,
or throws.

**Theorem (`readLineImpl_spec`).** `readLineImpl` takes the next line off the text, unless the line
is too long for the buffer: the buffer doubles until its size, a Java `int`, would overflow.
-/

namespace Spartan

open CString Alternation

/-! ## The abstract lines -/

/-- The next line and the text behind it. -/
def nextLine (eol : List (List Char)) (text : List Char) : Option (List Char × List Char) :=
  match (search eol text).1 with
  | some (skip, len) => some (text.take skip, text.drop (skip + len))
  | none => if text = [] then none else some (text, [])

/-- How much of the text the buffer has to hold to find its first line: up to the end of the match,
or one place more than the text, to find that nothing follows. -/
def need (eol : List (List Char)) (text : List Char) : ℕ :=
  match (search eol text).1 with
  | some (skip, len) => skip + len
  | none => text.length + 1

/-- The first of the sizes `n`, `2 * n`, `4 * n` and so on that cannot be doubled. -/
def growLimit (n : ℕ) : ℕ :=
  if n = 0 ∨ 2 ^ 30 ≤ n then n else growLimit (2 * n)
termination_by 2 ^ 30 - n

theorem growLimit_of_le {n : ℕ} (h : 2 ^ 30 ≤ n) : growLimit n = n := by
  rw [growLimit, if_pos (.inr h)]

theorem growLimit_double {n : ℕ} (hpos : 0 < n) (h : n < 2 ^ 30) :
    growLimit (2 * n) = growLimit n := by
  rw [growLimit.eq_def n, if_neg (by omega)]

theorem le_growLimit (n : ℕ) : n ≤ growLimit n := by
  fun_induction growLimit n with
  | case1 n h => exact le_rfl
  | case2 n h ih => omega

theorem two_pow_le_growLimit {n : ℕ} (hpos : 0 < n) : 2 ^ 30 ≤ growLimit n := by
  fun_induction growLimit n with
  | case1 n h => omega
  | case2 n h ih => exact ih (by omega)

/-- The expressions whose matches do not depend on what follows. -/
structure Determined (eol : List (List Char)) : Prop where
  ne_nil : ∀ lit ∈ eol, lit ≠ []
  not_hitEnd : ∀ text skip len hitEnd, search eol text = (some (skip, len), hitEnd) →
    hitEnd = false

variable {eol : List (List Char)}

theorem split_of_nextLine_some (heol : Determined eol) {text line rest : List Char}
    (h : nextLine eol text = some (line, rest)) : split eol text = line :: split eol rest := by
  unfold nextLine at h
  split at h
  · next heq =>
    cases h
    exact split_of_some heol.ne_nil heq
  · next heq =>
    rw [Option.ite_none_left_eq_some] at h
    obtain ⟨hne, h⟩ := h
    cases h
    rw [split_of_none heq, if_neg hne]
    rfl

theorem split_of_nextLine_none {text : List Char} (h : nextLine eol text = none) :
    split eol text = [] := by
  unfold nextLine at h
  split at h
  · cases h
  · next heq =>
    rw [split_of_none heq]
    simpa using h

/-! ## The buffer -/

namespace CharBuffer

theorem length_text (b : CharBuffer) : b.text.length = b.remaining := by
  have := b.limit_le
  simp only [text, remaining, List.length_drop, List.length_take]
  omega

theorem remaining_le_capacity (b : CharBuffer) : b.remaining ≤ b.capacity := by
  have := b.limit_le
  unfold remaining capacity
  omega

theorem setPosition_ok {b : CharBuffer} {p : ℕ} (h : p ≤ b.limit) :
    b.setPosition p = .ok ⟨b.cells, p, b.limit, h, b.limit_le⟩ := dif_pos h

theorem put_ok {b : CharBuffer} {src : List Char} (h : src.length ≤ b.remaining) :
    ∃ b', b.put src = .ok b' ∧ b'.position = b.position + src.length ∧ b'.limit = b.limit ∧
      b'.cells = b.cells.take b.position ++ src ++ b.cells.drop (b.position + src.length) :=
  ⟨_, dif_pos h, rfl, rfl, rfl⟩

/-- What `fillBuffer` does with a buffer after the end of the text. -/
theorem setLimit_setPosition (b : CharBuffer) :
    ∃ b', b.setLimit b.position = .ok b' ∧ b'.setPosition 0 = .ok b.flip :=
  ⟨_, dif_pos (b.position_le.trans b.limit_le), rfl⟩

end CharBuffer

/-- A buffer that holds some text at its beginning and has room behind it. -/
structure Holds (b : CharBuffer) (held : List Char) : Prop where
  position : b.position = held.length
  room : b.position < b.limit
  full : b.limit = b.capacity
  cells : b.cells.take b.position = held

theorem holds_clear {b : CharBuffer} (hpos : 0 < b.capacity) : Holds b.clear [] :=
  ⟨rfl, hpos, rfl, rfl⟩

theorem holds_compact {b : CharBuffer} (h : b.remaining < b.capacity) :
    Holds b.compact b.text ∧ b.compact.capacity = b.capacity := by
  have hlen := b.length_text
  have hcap : b.compact.capacity = b.capacity := by
    simp only [CharBuffer.compact, CharBuffer.capacity, List.length_append, List.length_drop, hlen]
    unfold CharBuffer.capacity at h
    omega
  refine ⟨⟨hlen.symm, h, hcap.symm, ?_⟩, hcap⟩
  exact List.take_left' hlen

theorem allocate_ok {n : ℕ} :
    ∃ b : CharBuffer, CharBuffer.allocate n = .ok b ∧ b.position = 0 ∧ b.limit = n ∧
      b.capacity = n := by
  refine ⟨⟨List.replicate n '\x00', 0, n, Nat.zero_le _, by simp⟩, ?_, rfl, rfl, by
    simp [CharBuffer.capacity]⟩
  simp [CharBuffer.allocate]

theorem holds_put {b : CharBuffer} (src : List Char) (hposition : b.position = 0)
    (hlimit : b.limit = b.capacity) (hroom : src.length < b.capacity) :
    ∃ b', b.put src = .ok b' ∧ Holds b' src ∧ b'.capacity = b.capacity := by
  have hrem : src.length ≤ b.remaining := by
    unfold CharBuffer.remaining
    omega
  refine ⟨_, dif_pos hrem, ⟨by simp [hposition], by simp only; omega, ?_, ?_⟩, ?_⟩
  · simp only [CharBuffer.capacity, List.length_append, List.length_take, List.length_drop,
      hposition, hlimit] at hroom ⊢
    omega
  · simp [hposition]
  · simp only [CharBuffer.capacity, List.length_append, List.length_take, List.length_drop,
      hposition] at hroom ⊢
    omega

/-! ## The matcher -/

/-- The matcher stands at the first match in the text from `nextStartPos` on. -/
structure Matcher.AtMatch (eol : List (List Char)) (m : Matcher) (text : List Char)
    (nextStartPos : ℕ) : Prop where
  text_eq : m.text = text
  regionStart : m.regionStart = 0
  regionEnd : m.regionEnd = text.length
  hitEnd : m.hitEnd = false
  found : ∃ skip len, search eol (text.drop nextStartPos) = (some (skip, len), false) ∧
    m.start = nextStartPos + skip ∧ m.end = nextStartPos + skip + len

theorem Matcher.find_spec (heol : Determined eol) {m : Matcher} {text : List Char}
    (htext : m.text = text) (hstart : m.regionStart = 0) (hend : m.regionEnd = text.length) :
    ((m.find eol).2 = false → (search eol (text.drop m.end)).1 = none) ∧
      ((m.find eol).2 = true → (m.find eol).1.AtMatch eol text m.end) := by
  have hregion : (m.text.take m.regionEnd).drop (max m.end m.regionStart) = text.drop m.end := by
    rw [htext, hend, hstart, List.take_length, Nat.max_zero]
  unfold Matcher.find
  simp only [hregion]
  rcases hsearch : search eol (text.drop m.end) with ⟨_ | ⟨skip, len⟩, hitEnd⟩
  · exact ⟨fun _ => rfl, by simp⟩
  · have hhit := heol.not_hitEnd _ _ _ _ hsearch
    subst hhit
    refine ⟨by simp, fun _ => ⟨htext, hstart, hend, rfl, skip, len, hsearch, ?_, ?_⟩⟩
    · simp [hstart]
    · simp [hstart]

/-! ## The invariant -/

namespace ReadLine

/-- The text in the buffer. -/
def held (rl : ReadLine) : List Char := rl.buffer.cells.take rl.buffer.limit

/-- The text that was read but is not delivered yet. -/
def pending (rl : ReadLine) : List Char := rl.held.drop rl.nextStartPos

theorem length_held (rl : ReadLine) : rl.held.length = rl.buffer.limit := by
  have := rl.buffer.limit_le
  simp only [held, List.length_take]
  omega

theorem length_pending (rl : ReadLine) :
    rl.pending.length = rl.buffer.limit - rl.nextStartPos := by
  rw [pending, List.length_drop, length_held]

/-- `undelivered` is the text behind the lines delivered so far, and `bound` the largest size that
the buffer can grow to. -/
structure Inv (eol : List (List Char)) (bound : ℕ) (rl : ReadLine) (undelivered : List Char) :
    Prop where
  eol_eq : rl.eol = eol
  size : rl.internalBufferSize = rl.buffer.capacity
  capacity_pos : 0 < rl.buffer.capacity
  capacity_lt : rl.buffer.capacity < 2 ^ 31
  growLimit_eq : growLimit rl.buffer.capacity = bound
  start_le : rl.nextStartPos ≤ rl.buffer.limit
  undelivered_eq : undelivered = rl.pending ++ rl.rdr.rest
  atEof : rl.eof = true → rl.rdr.rest = [] ∧ rl.buffer.limit < rl.buffer.capacity
  noMatch : rl.eolFound = false → (search eol rl.pending).1 = none
  atMatch : rl.eolFound = true → rl.matcher.AtMatch eol rl.held rl.nextStartPos

theorem Inv.bound_pos {eol : List (List Char)} {bound : ℕ} {rl : ReadLine}
    {undelivered : List Char} (h : Inv eol bound rl undelivered) : 0 < bound := by
  rw [← h.growLimit_eq]
  exact h.capacity_pos.trans_le (le_growLimit _)

/-- The result of `readLineImpl` is the next line of the undelivered text, or null. -/
def Delivers (eol : List (List Char)) (bound : ℕ) (rl : ReadLine) (undelivered : List Char)
    (result : ReadLine × Bool) : Prop :=
  match nextLine eol undelivered with
  | some (line, rest) => result.2 = true ∧ Inv eol bound result.1 rest ∧
    result.1.charSequence = .ok line ∧ result.1.lineNbr = rl.lineNbr + 1
  | none => result.2 = false ∧ Inv eol bound result.1 [] ∧ result.1.lineNbr = rl.lineNbr

variable {bound : ℕ} {rl rl' : ReadLine} {undelivered : List Char}

/-! ## The methods -/

theorem search_eq_none_of_nil {text : List Char} (h : text = []) : (search eol text).1 = none := by
  rw [h]
  rfl

/-- A match that was found in the pending text is the first one in the undelivered text. -/
theorem Inv.nextLine_of_match (heol : Determined eol) (h : Inv eol bound rl undelivered)
    {skip len : ℕ} (hsearch : search eol rl.pending = (some (skip, len), false)) :
    nextLine eol undelivered =
      some (rl.pending.take skip, rl.pending.drop (skip + len) ++ rl.rdr.rest) ∧
    need eol undelivered = skip + len := by
  have hbounds := search_bounds heol.ne_nil (congrArg Prod.fst hsearch)
  have hall : search eol undelivered = (some (skip, len), false) := by
    rw [h.undelivered_eq]
    exact search_append hsearch
  unfold nextLine need
  rw [hall, h.undelivered_eq]
  refine ⟨?_, rfl⟩
  simp only [Option.some.injEq, Prod.mk.injEq]
  exact ⟨List.take_append_of_le_length (by omega), List.drop_append_of_le_length (by omega)⟩

theorem charSequence_eq (hle : rl.startIndex ≤ rl.endIndex)
    (hlimit : rl.endIndex ≤ rl.buffer.limit) :
    rl.charSequence = .ok ((rl.held.drop rl.startIndex).take (rl.endIndex - rl.startIndex)) := by
  rw [charSequence, if_pos ⟨hle, hlimit⟩, held, ← List.drop_take, List.take_take,
    Nat.min_eq_left hlimit]

/-- The line in front of the match is delivered. -/
theorem takeMatch_delivers (heol : Determined eol) (h : Inv eol bound rl undelivered)
    (hfound : rl.eolFound = true) :
    Delivers eol bound rl undelivered (rl.takeMatch, true) ∧ need eol undelivered ≤ bound := by
  have hat := h.atMatch hfound
  obtain ⟨skip, len, hsearch, hstart, hend⟩ := hat.found
  change search eol rl.pending = _ at hsearch
  obtain ⟨hnext, hneed⟩ := h.nextLine_of_match heol hsearch
  have hbounds := search_bounds heol.ne_nil (congrArg Prod.fst hsearch)
  have hlength := rl.length_pending
  have hlimit := rl.buffer.limit_le
  have hcap := le_growLimit rl.buffer.capacity
  rw [h.growLimit_eq, CharBuffer.capacity] at hcap
  refine ⟨?_, by omega⟩
  rw [Delivers, hnext]
  refine ⟨rfl, ?_, ?_, rfl⟩
  · have hrest : rl.pending.drop (skip + len) = rl.held.drop rl.matcher.end := by
      rw [hend, pending, List.drop_drop, Nat.add_assoc]
    rw [hrest]
    have hle : rl.matcher.end ≤ rl.buffer.limit := by omega
    by_cases hlt : rl.matcher.end < rl.matcher.regionEnd
    · have htake : rl.takeMatch.matcher = (rl.matcher.find eol).1 ∧
          rl.takeMatch.eolFound = (rl.matcher.find eol).2 := by
        simp [takeMatch, hat.hitEnd, hlt, h.eol_eq]
      obtain ⟨hnone, hsome⟩ := Matcher.find_spec heol hat.text_eq hat.regionStart hat.regionEnd
      rw [← htake.2] at hnone
      rw [← htake.1, ← htake.2] at hsome
      exact { h with start_le := hle, undelivered_eq := rfl, noMatch := hnone, atMatch := hsome }
    · have htake : rl.takeMatch.eolFound = false := by
        simp [takeMatch, hat.hitEnd, hlt]
      have hnil : rl.held.drop rl.matcher.end = [] := by
        rw [hat.regionEnd] at hlt
        exact List.drop_eq_nil_of_le (by omega)
      exact { h with
        start_le := hle
        undelivered_eq := rfl
        noMatch := fun _ => search_eq_none_of_nil hnil
        atMatch := fun hfound' => absurd hfound' (Bool.eq_false_iff.1 htake) }
  · rw [charSequence_eq]
    · simp only [takeMatch, hstart, Nat.add_sub_cancel_left]
      rfl
    · simp only [takeMatch, hstart]
      exact Nat.le_add_right _ _
    · simp only [takeMatch, hstart]
      omega

/-- At the end of the text, what is pending is the last line. -/
theorem nextLine_of_eof (h : Inv eol bound rl undelivered) (hfound : rl.eolFound = false)
    (heof : rl.eof = true) :
    nextLine eol undelivered = (if rl.pending = [] then none else some (rl.pending, [])) ∧
      need eol undelivered ≤ bound := by
  obtain ⟨hrest, hlt⟩ := h.atEof heof
  have hlength := rl.length_pending
  have hcap := le_growLimit rl.buffer.capacity
  rw [h.growLimit_eq] at hcap
  have hall : undelivered = rl.pending := by rw [h.undelivered_eq, hrest, List.append_nil]
  unfold nextLine need
  rw [hall, h.noMatch hfound]
  exact ⟨rfl, by simp only; omega⟩

/-- A read at the end of the text leaves what the buffer holds. -/
theorem fillBuffer_of_end {held : List Char} (h : Holds rl.buffer held)
    (hrest : rl.rdr.rest = []) :
    rl.fillBuffer = .ok ({ rl with buffer := rl.buffer.flip, eof := true },
      decide (0 < rl.buffer.position)) := by
  have hread : rl.rdr.read rl.buffer.remaining = (none, rl.rdr) := if_pos hrest
  obtain ⟨b, hset, hset'⟩ := rl.buffer.setLimit_setPosition
  simp only [fillBuffer, hread, bind, Except.bind, pure, Except.pure, Nat.sub_self, ne_eq,
    not_true_eq_false, if_false, if_true, hset, hset']
  simp only [CharBuffer.flip, CharBuffer.remaining, decide_false, Bool.false_or]
  simp [h.room]

/-- Any other read adds some characters behind what the buffer holds. -/
theorem fillBuffer_of_text {held : List Char} (h : Holds rl.buffer held)
    (hrest : rl.rdr.rest ≠ []) {n : ℕ}
    (hn : n = min (rl.rdr.cut rl.rdr.reads + 1) rl.buffer.remaining) :
    ∃ b : CharBuffer, rl.fillBuffer = .ok ({ rl with
        rdr := ⟨rl.rdr.rest.drop n, rl.rdr.cut, rl.rdr.reads + 1⟩
        buffer := b.flip
        eof := false }, true) ∧
      0 < (rl.rdr.rest.take n).length ∧
      b.position = held.length + (rl.rdr.rest.take n).length ∧
      b.cells.take b.position = held ++ rl.rdr.rest.take n ∧ b.capacity = rl.buffer.capacity := by
  have hroom : 0 < rl.buffer.remaining := by
    have := h.room
    unfold CharBuffer.remaining
    omega
  have hread : rl.rdr.read rl.buffer.remaining =
      (some (rl.rdr.rest.take n), ⟨rl.rdr.rest.drop n, rl.rdr.cut, rl.rdr.reads + 1⟩) := by
    rw [hn]
    exact if_neg hrest
  have hgot : 0 < (rl.rdr.rest.take n).length := by
    have := List.length_pos_iff.2 hrest
    rw [List.length_take]
    omega
  have hfits : (rl.rdr.rest.take n).length ≤ rl.buffer.remaining := by
    rw [List.length_take]
    omega
  obtain ⟨b, hput, hposition, -, hcells⟩ := CharBuffer.put_ok hfits
  refine ⟨b, ?_, hgot, hposition.trans (congrArg (· + _) h.position), ?_, ?_⟩
  · have hsave : b.position - rl.buffer.position ≠ 0 := by omega
    simp only [fillBuffer, hread, hput, bind, Except.bind, pure, Except.pure, if_pos hsave,
      reduceCtorEq, if_false]
    simp [CharBuffer.flip, CharBuffer.remaining, hsave]
    omega
  · rw [hcells, h.cells, List.take_left' (by rw [List.length_append, hposition, h.position])]
  · have hlimit := rl.buffer.limit_le
    simp only [CharBuffer.capacity, hcells, List.length_append, List.length_take,
      List.length_drop]
    unfold CharBuffer.remaining at hfits
    simp only [List.length_take] at hfits
    omega

theorem fillBuffer_spec {held : List Char} (h : Holds rl.buffer held) :
    ∃ rdr b eof filled,
      rl.fillBuffer = .ok ({ rl with rdr := rdr, buffer := b, eof := eof }, filled) ∧
      (filled = true ↔ 0 < b.limit) ∧ b.position = 0 ∧ b.capacity = rl.buffer.capacity ∧
      b.cells.take b.limit ++ rdr.rest = held ++ rl.rdr.rest ∧
      (eof = true ∧ rdr.rest = [] ∧ b.limit < b.capacity ∧ b.cells.take b.limit = held ∨
        eof = false ∧ rdr.rest.length < rl.rdr.rest.length) := by
  by_cases hrest : rl.rdr.rest = []
  · refine ⟨rl.rdr, rl.buffer.flip, true, _, fillBuffer_of_end h hrest,
      by simp [CharBuffer.flip], rfl, rfl, ?_, .inl ⟨rfl, hrest, ?_, h.cells⟩⟩
    · rw [hrest, List.append_nil, List.append_nil]
      exact h.cells
    · exact h.full ▸ h.room
  · obtain ⟨b, hfill, hgot, hposition, hcells, hcap⟩ := fillBuffer_of_text h hrest rfl
    have hlimit : b.flip.limit = b.position := rfl
    refine ⟨_, b.flip, false, true, hfill, ?_, rfl, hcap, ?_, .inr ⟨rfl, ?_⟩⟩
    · simp only [hlimit, true_iff]
      omega
    · show b.cells.take b.position ++ _ = _
      rw [hcells, List.append_assoc, List.take_append_drop]
    · rw [List.length_take] at hgot
      rw [List.length_drop]
      omega

/-- A search of the buffer, whose position is zero. -/
theorem searchBuffer_eq (rl : ReadLine) (hposition : rl.buffer.position = 0) :
    rl.searchBuffer = .ok { rl with
      nextStartPos := 0
      matcher := (Matcher.find rl.eol
        { text := rl.held, regionStart := 0, regionEnd := rl.held.length }).1
      eolFound := (Matcher.find rl.eol
        { text := rl.held, regionStart := 0, regionEnd := rl.held.length }).2 } := by
  have htext : rl.buffer.text = rl.held := by rw [CharBuffer.text, hposition, List.drop_zero, held]
  have hlength := rl.length_held
  have hregion : (Matcher.reset rl.buffer).region rl.buffer.position rl.buffer.limit =
      .ok { text := rl.held, regionStart := 0, regionEnd := rl.held.length } := by
    rw [Matcher.region, hposition, Matcher.reset, htext, if_pos ⟨Nat.zero_le _, hlength.ge⟩,
      hlength]
  simp only [searchBuffer, resetMatcherOnBuffer, hregion, bind, Except.bind, pure, Except.pure]

theorem searchBuffer_spec (rl : ReadLine) (heol : Determined eol) (heq : rl.eol = eol)
    (hposition : rl.buffer.position = 0) :
    ∃ m found,
      rl.searchBuffer = .ok { rl with nextStartPos := 0, matcher := m, eolFound := found } ∧
      (found = false → (search eol rl.held).1 = none) ∧
      (found = true → m.AtMatch eol rl.held 0) := by
  obtain ⟨hnone, hsome⟩ := Matcher.find_spec heol
    (m := { text := rl.held, regionStart := 0, regionEnd := rl.held.length }) rfl rfl rfl
  refine ⟨_, _, ?_, hnone, hsome⟩
  rw [rl.searchBuffer_eq hposition, heq]

/-- A text without a match needs more room than it takes. -/
theorem need_gt (heol : Determined eol) {text : List Char} (more : List Char)
    (h : (search eol text).1 = none) :
    text.length < need eol (text ++ more) := by
  unfold need
  rcases hsearch : (search eol (text ++ more)).1 with _ | ⟨skip, len⟩
  · simp only [List.length_append]
    omega
  · by_contra hle
    have hpos := (search_bounds heol.ne_nil hsearch).2
    rw [search_take hsearch (by simpa using hle) hpos] at h
    cases h

/-- The buffer gets room behind the pending text, unless it is full and cannot grow. -/
theorem makeRoom_cases (hsize : rl.internalBufferSize = rl.buffer.capacity)
    (hpos : 0 < rl.buffer.capacity) (hlt : rl.buffer.capacity < 2 ^ 31)
    (hposition : rl.buffer.position = rl.nextStartPos) :
    (∃ b : CharBuffer,
      rl.makeRoom = .ok { rl with buffer := b, internalBufferSize := b.capacity } ∧
      Holds b rl.pending ∧
      (rl.pending.length < rl.buffer.capacity ∧ b.capacity = rl.buffer.capacity ∨
        rl.pending.length = rl.buffer.capacity ∧ rl.buffer.capacity < 2 ^ 30 ∧
          b.capacity = 2 * rl.buffer.capacity)) ∨
    rl.makeRoom = .error .illegalArgument ∧ rl.pending.length = rl.buffer.capacity ∧
      2 ^ 30 ≤ rl.buffer.capacity := by
  have htext : rl.buffer.text = rl.pending := by rw [CharBuffer.text, hposition, pending, held]
  have hlength := rl.buffer.length_text
  rw [htext] at hlength
  have hle := rl.buffer.remaining_le_capacity
  by_cases hnone : rl.buffer.remaining = 0
  · have hnil : rl.pending = [] := List.length_eq_zero_iff.1 (hlength.trans hnone)
    refine .inl ⟨rl.buffer.clear, ?_, hnil ▸ holds_clear hpos, .inl ⟨by omega, rfl⟩⟩
    rw [makeRoom, if_pos hnone]
    show _ = Except.ok { rl with
      buffer := rl.buffer.clear, internalBufferSize := rl.buffer.capacity }
    rw [← hsize]
  by_cases hsome : rl.buffer.remaining < rl.buffer.capacity
  · obtain ⟨hholds, hcap⟩ := holds_compact hsome
    refine .inl ⟨rl.buffer.compact, ?_, htext ▸ hholds, .inl ⟨by omega, hcap⟩⟩
    rw [makeRoom, if_neg hnone, if_pos hsome, hcap, ← hsize]
  have hfull : rl.pending.length = rl.buffer.capacity := by omega
  have hmake : rl.makeRoom = (do
      let buffer ← CharBuffer.allocate (toInt32 (rl.internalBufferSize * 2))
      let buffer ← buffer.put rl.pending
      return { rl with
        buffer := buffer, internalBufferSize := toInt32 (rl.internalBufferSize * 2) }) := by
    rw [makeRoom, if_neg hnone, if_neg hsome, htext]
  by_cases hgrow : rl.buffer.capacity < 2 ^ 30
  · have hdouble : toInt32 (rl.internalBufferSize * 2) = (2 * rl.buffer.capacity : ℕ) := by
      rw [hsize, toInt32_eq] <;> omega
    obtain ⟨b, hallocate, hzero, hlimit, hcap⟩ := allocate_ok (n := 2 * rl.buffer.capacity)
    obtain ⟨b', hput, hholds, hcap'⟩ := holds_put rl.pending hzero
      (hlimit.trans hcap.symm) (by omega)
    refine .inl ⟨b', ?_, hholds, .inr ⟨hfull, hgrow, hcap'.trans hcap⟩⟩
    rw [hmake, hdouble, hallocate, hcap', hcap]
    simp only [bind, Except.bind, hput, pure, Except.pure]
  · have hdouble : toInt32 (rl.internalBufferSize * 2) < 0 := by
      rw [hsize]
      exact toInt32_neg (by omega) (by omega)
    refine .inr ⟨?_, hfull, Nat.le_of_not_lt hgrow⟩
    rw [hmake, CharBuffer.allocate, if_pos hdouble]
    rfl

theorem makeRoom_spec (heol : Determined eol) (h : Inv eol bound rl undelivered)
    (hfound : rl.eolFound = false) (hposition : rl.buffer.position = rl.nextStartPos) :
    (∃ b size, rl.makeRoom = .ok { rl with buffer := b, internalBufferSize := size } ∧
      Holds b rl.pending ∧ size = b.capacity ∧ 0 < b.capacity ∧ b.capacity < 2 ^ 31 ∧
      growLimit b.capacity = bound) ∨
    rl.makeRoom = .error .illegalArgument ∧ bound < need eol undelivered := by
  have hpos := h.capacity_pos
  rcases makeRoom_cases h.size hpos h.capacity_lt hposition with
    ⟨b, hmake, hholds, ⟨-, hcap⟩ | ⟨-, hgrow, hcap⟩⟩ | ⟨hmake, hfull, hgrow⟩
  · exact .inl ⟨b, b.capacity, hmake, hholds, rfl, hcap ▸ hpos, hcap ▸ h.capacity_lt,
      hcap ▸ h.growLimit_eq⟩
  · refine .inl ⟨b, b.capacity, hmake, hholds, rfl, by omega, by omega, ?_⟩
    rw [hcap, growLimit_double hpos hgrow, h.growLimit_eq]
  · refine .inr ⟨hmake, ?_⟩
    have hneed := need_gt heol rl.rdr.rest (h.noMatch hfound)
    rw [← h.undelivered_eq] at hneed
    rw [← h.growLimit_eq, growLimit_of_le hgrow]
    omega

/-- What is still to be read: the characters, and the end of the text. -/
def toRead (rl : ReadLine) : ℕ := rl.rdr.rest.length + if rl.eof then 0 else 1

/-- An object whose buffer holds the pending text, ready for the next read. -/
structure Ready (eol : List (List Char)) (bound : ℕ) (rl : ReadLine) (undelivered : List Char)
    (pending : List Char) : Prop where
  eol_eq : rl.eol = eol
  holds : Holds rl.buffer pending
  size : rl.internalBufferSize = rl.buffer.capacity
  capacity_lt : rl.buffer.capacity < 2 ^ 31
  growLimit_eq : growLimit rl.buffer.capacity = bound
  undelivered_eq : undelivered = pending ++ rl.rdr.rest
  not_eof : rl.eof = false
  not_found : rl.eolFound = false

theorem noLine_spec (h : Inv eol bound rl []) (hfound : rl.eolFound = false) :
    ∃ rl', rl.noLine = .ok rl' ∧ Inv eol bound rl' [] ∧ rl'.lineNbr = rl.lineNbr ∧
      rl'.lineLookAhead = rl.lineLookAhead := by
  obtain ⟨-, hrest⟩ := List.append_eq_nil_iff.1 h.undelivered_eq.symm
  have hnil : rl.held.drop rl.buffer.limit = [] := List.drop_eq_nil_of_le rl.length_held.le
  have hnoLine : rl.noLine = .ok { rl with
      nextStartPos := rl.buffer.limit
      buffer := ⟨rl.buffer.cells, rl.buffer.limit, rl.buffer.limit, le_rfl, rl.buffer.limit_le⟩
      startIndex := 0
      endIndex := 0 } := by
    rw [noLine, CharBuffer.setPosition_ok le_rfl]
    rfl
  have hall : [] = rl.held.drop rl.buffer.limit ++ rl.rdr.rest := by
    rw [hnil, hrest]
    rfl
  refine ⟨_, hnoLine, ?_, rfl, rfl⟩
  exact { h with
    start_le := le_rfl
    undelivered_eq := hall
    noMatch := fun _ => search_eq_none_of_nil hnil
    atMatch := fun hfound' => absurd hfound' (Bool.eq_false_iff.1 hfound) }

/-- A read gets text to search, or finds that nothing is left. -/
theorem fillBuffer_ready {pending : List Char} (heol : Determined eol)
    (h : Ready eol bound rl undelivered pending) :
    (∃ rl₁ rl', rl.fillBuffer = .ok (rl₁, true) ∧ rl₁.searchBuffer = .ok rl' ∧
      Inv eol bound rl' undelivered ∧ rl'.toRead < rl.toRead ∧ rl'.lineNbr = rl.lineNbr ∧
      rl'.lineLookAhead = rl.lineLookAhead ∧ rl'.lastLine = rl.lastLine) ∨
    (∃ rl₁, rl.fillBuffer = .ok (rl₁, false) ∧ undelivered = [] ∧
      Inv eol bound { rl₁ with nextStartPos := 0 } [] ∧ rl₁.eolFound = false ∧
      rl₁.nextStartPos = rl.nextStartPos ∧ rl₁.lineNbr = rl.lineNbr ∧
      rl₁.lineLookAhead = rl.lineLookAhead ∧ rl₁.lastLine = rl.lastLine) := by
  obtain ⟨rdr, b, eof, filled, hfill, hfilled, hposition, hcap, htext, hprogress⟩ :=
    fillBuffer_spec h.holds
  have hpos : 0 < rl.buffer.capacity := by
    have := h.holds.full
    have := h.holds.room
    omega
  have htext' : undelivered = b.cells.take b.limit ++ rdr.rest := by rw [htext, h.undelivered_eq]
  have hroom : eof = true → rdr.rest = [] ∧ b.limit < b.capacity := by
    rintro rfl
    obtain ⟨-, hrest, hlt, -⟩ | ⟨heof, -⟩ := hprogress
    · exact ⟨hrest, hlt⟩
    · cases heof
  cases filled with
  | true =>
    obtain ⟨m, found, hsearch, hnone, hsome⟩ := searchBuffer_spec
      { rl with rdr := rdr, buffer := b, eof := eof } heol h.eol_eq hposition
    refine .inl ⟨_, _, hfill, hsearch, ⟨h.eol_eq, hcap ▸ h.size, hcap ▸ hpos, hcap ▸ h.capacity_lt,
      hcap ▸ h.growLimit_eq, Nat.zero_le _, htext', hroom, hnone, hsome⟩, ?_, rfl, rfl, rfl⟩
    · have hread := h.not_eof
      unfold toRead
      obtain ⟨rfl, hrest, -, -⟩ | ⟨rfl, hless⟩ := hprogress
      · simp [hrest, hread]
      · simpa [hread] using hless
  | false =>
    have hlimit : b.limit = 0 := by
      by_contra hne
      exact Bool.false_ne_true (hfilled.2 (Nat.pos_of_ne_zero hne))
    have hheld : b.cells.take b.limit = [] := by rw [hlimit, List.take_zero]
    obtain ⟨rfl, hrest, -, -⟩ | ⟨-, hless⟩ := hprogress
    · have hnil : undelivered = [] := by rw [htext', hheld, hrest]; rfl
      refine .inr ⟨_, hfill, hnil, ⟨h.eol_eq, hcap ▸ h.size, hcap ▸ hpos, hcap ▸ h.capacity_lt,
        hcap ▸ h.growLimit_eq, Nat.zero_le _, hnil ▸ htext', hroom, fun _ => ?_, fun hfound => ?_⟩,
        h.not_found, rfl, rfl, rfl, rfl⟩
      · exact search_eq_none_of_nil hheld
      · exact absurd hfound (Bool.eq_false_iff.1 h.not_found)
    · have hlength := congrArg List.length htext
      rw [hheld] at hlength
      simp only [List.length_append, List.length_nil] at hlength
      omega

/-- The object after `buffer.position(nextStartPos)`. -/
theorem Inv.setPosition (h : Inv eol bound rl undelivered) :
    ∃ b, rl.buffer.setPosition rl.nextStartPos = .ok b ∧ b.position = rl.nextStartPos ∧
      b.text = rl.pending ∧ Inv eol bound { rl with buffer := b } undelivered :=
  ⟨_, CharBuffer.setPosition_ok h.start_le, rfl, rfl, { h with }⟩

/-- A round at the end of the text. -/
theorem iteration_eof (h : Inv eol bound rl undelivered) (hfound : rl.eolFound = false)
    (heof : rl.eof = true) :
    ∃ rl' line, rl.iteration = .ok (rl', some line) ∧ need eol undelivered ≤ bound ∧
      Delivers eol bound rl undelivered (rl', line) ∧ rl'.lineLookAhead = rl.lineLookAhead := by
  obtain ⟨b, hset, hposition, htext, hinv⟩ := h.setPosition
  obtain ⟨hnext, hneed⟩ := nextLine_of_eof h hfound heof
  obtain ⟨hrest, -⟩ := h.atEof heof
  by_cases hremaining : 0 < b.remaining
  · have hpending : rl.pending ≠ [] := by
      rw [← htext]
      exact List.length_pos_iff.1 (b.length_text.symm ▸ hremaining)
    have hnil : (b.cells.take b.limit).drop b.limit = [] := by simp
    refine ⟨{ rl with
      buffer := b
      nextStartPos := b.limit
      startIndex := b.position
      endIndex := b.limit
      lineNbr := rl.lineNbr + 1 }, true, ?_, hneed, ?_, rfl⟩
    · simp only [iteration, hfound, hset, heof, hremaining, bind, Except.bind, pure, Except.pure,
        if_true, Bool.false_eq_true, if_false]
    · rw [Delivers, hnext, if_neg hpending]
      have hall : [] = (b.cells.take b.limit).drop b.limit ++ rl.rdr.rest := by
        rw [hnil, hrest]
        rfl
      refine ⟨rfl, ?_, ?_, rfl⟩
      · exact { hinv with
          start_le := le_rfl
          undelivered_eq := hall
          noMatch := fun _ => search_eq_none_of_nil hnil
          atMatch := fun hfound' => absurd hfound' (Bool.eq_false_iff.1 hfound) }
      · rw [charSequence_eq b.position_le le_rfl]
        show Except.ok (b.text.take b.remaining) = _
        rw [← b.length_text, List.take_length, htext]
  · have hpending : rl.pending = [] := by
      rw [← htext]
      exact List.length_eq_zero_iff.1 (b.length_text.trans (Nat.eq_zero_of_not_pos hremaining))
    have hnil : undelivered = [] := by rw [h.undelivered_eq, hpending, hrest]; rfl
    subst hnil
    obtain ⟨rl', hnoLine, hinv', hnbr, hahead⟩ := noLine_spec hinv hfound
    refine ⟨rl', false, ?_, hneed, ⟨rfl, hinv', hnbr⟩, hahead⟩
    simp only [iteration, hfound, hset, heof, hremaining, bind, Except.bind, pure, Except.pure,
      if_false, if_true, Bool.false_eq_true] at hnoLine ⊢
    rw [hnoLine]

/-- A round that finds no line in the text searched so far, while the reader is not at its end. -/
theorem iteration_of_not_found {b : CharBuffer} (hfound : rl.eolFound = false)
    (heof : rl.eof = false) (hset : rl.buffer.setPosition rl.nextStartPos = .ok b) :
    rl.iteration = (do
      let rl ← { rl with buffer := b }.makeRoom
      let (rl, filled) ← rl.fillBuffer
      if filled then return (← rl.searchBuffer, none)
      else return (← rl.noLine, some false)) := by
  simp only [iteration, hfound, hset, heof, bind, Except.bind, if_false, Bool.false_eq_true]

/-- What a round of the loop does: it returns what it has to, or reads on, or throws because the
next line is too long. -/
theorem iteration_spec (heol : Determined eol) (h : Inv eol bound rl undelivered) :
    (∃ rl' line, rl.iteration = .ok (rl', some line) ∧ need eol undelivered ≤ bound ∧
      Delivers eol bound rl undelivered (rl', line) ∧ rl'.lineLookAhead = rl.lineLookAhead) ∨
    (∃ rl', rl.iteration = .ok (rl', none) ∧ Inv eol bound rl' undelivered ∧
      rl'.toRead < rl.toRead ∧ rl'.lineNbr = rl.lineNbr ∧
      rl'.lineLookAhead = rl.lineLookAhead) ∨
    rl.iteration = .error .illegalArgument ∧ bound < need eol undelivered := by
  cases hfound : rl.eolFound with
  | true =>
    obtain ⟨hdelivers, hneed⟩ := takeMatch_delivers heol h hfound
    exact .inl ⟨rl.takeMatch, true, if_pos hfound, hneed, hdelivers, rfl⟩
  | false =>
    cases heof : rl.eof with
    | true => exact .inl (iteration_eof h hfound heof)
    | false =>
      obtain ⟨b, hset, hposition, -, hinv⟩ := h.setPosition
      have hiteration := iteration_of_not_found hfound heof hset
      rcases makeRoom_spec heol hinv hfound hposition with
        ⟨b', size, hmake, hholds, hsize, hcap, hlt, hbound⟩ | ⟨hmake, hneed⟩
      · have hready : Ready eol bound { rl with buffer := b', internalBufferSize := size }
            undelivered (pending { rl with buffer := b }) :=
          ⟨h.eol_eq, hholds, hsize, hlt, hbound, hinv.undelivered_eq, heof, hfound⟩
        rcases fillBuffer_ready heol hready with
          ⟨rl₁, rl', hfill, hsearch, hinv', hless, hnbr, hahead, -⟩ |
          ⟨rl₁, hfill, hnil, hinv', hfound', -, hnbr, hahead, -⟩
        · refine .inr (.inl ⟨rl', ?_, hinv', hless, hnbr, hahead⟩)
          rw [hiteration, hmake]
          simp only [bind, Except.bind, hfill, hsearch]
          rfl
        · obtain ⟨rl', hnoLine, hinv'', hnbr', hahead'⟩ := noLine_spec hinv' hfound'
          have hneed : need eol undelivered ≤ bound := by
            rw [hnil, ← hbound]
            exact hcap.trans_le (le_growLimit _)
          refine .inl ⟨rl', false, ?_, hneed, ?_, hahead'.trans hahead⟩
          · change rl₁.noLine = _ at hnoLine
            rw [hiteration, hmake]
            simp only [bind, Except.bind, hfill, hnoLine]
            rfl
          · rw [hnil]
            exact ⟨rfl, hinv'', hnbr'.trans hnbr⟩
      · refine .inr (.inr ⟨?_, hneed⟩)
        rw [hiteration, hmake]
        rfl

theorem readLineLoop_spec (heol : Determined eol) (fuel : ℕ)
    (h : Inv eol bound rl undelivered) (hfuel : rl.toRead < fuel) :
    (∃ result, readLineLoop fuel rl = .ok result ∧ need eol undelivered ≤ bound ∧
      Delivers eol bound rl undelivered result ∧ result.1.lineLookAhead = rl.lineLookAhead) ∨
    readLineLoop fuel rl = .error .illegalArgument ∧ bound < need eol undelivered := by
  induction fuel generalizing rl with
  | zero => omega
  | succ fuel ih =>
    rcases iteration_spec heol h with
      ⟨rl', line, hiter, hneed, hdelivers, hahead⟩ | ⟨rl', hiter, hinv, hless, hnbr, hahead⟩ |
      ⟨hiter, hneed⟩
    · refine .inl ⟨(rl', line), ?_, hneed, hdelivers, hahead⟩
      simp only [readLineLoop, hiter, bind, Except.bind]
      rfl
    · have hloop : readLineLoop (fuel + 1) rl = readLineLoop fuel rl' := by
        simp only [readLineLoop, hiter, bind, Except.bind]
      rw [hloop, ← hahead]
      unfold Delivers
      rw [← hnbr]
      exact ih hinv (by omega)
    · refine .inr ⟨?_, hneed⟩
      simp only [readLineLoop, hiter, bind, Except.bind]

/-- **The next line.** `readLineImpl` returns the next line of the undelivered text, or null at its
end; when the line does not fit into the largest buffer, it throws. -/
theorem readLineImpl_spec (heol : Determined eol) (h : Inv eol bound rl undelivered) :
    (∃ result, rl.readLineImpl = .ok result ∧ need eol undelivered ≤ bound ∧
      Delivers eol bound rl undelivered result ∧ result.1.lineLookAhead = rl.lineLookAhead) ∨
    rl.readLineImpl = .error .illegalArgument ∧ bound < need eol undelivered := by
  apply readLineLoop_spec heol _ h
  unfold toRead
  split <;> omega

theorem new_spec (heol : Determined eol) {n : ℕ} (hpos : 0 < n) (hlt : n < 2 ^ 31) (rdr : Reader) :
    ∃ rl, new eol rdr n = .ok rl ∧ Inv eol (growLimit n) rl rdr.rest ∧ rl.lineNbr = 0 ∧
      rl.lineLookAhead = false ∧ rl.lastLine = false := by
  obtain ⟨b, hallocate, hposition, hlimit, hcap⟩ := @allocate_ok n
  have hroom : b.position < b.limit := by omega
  have hready : Ready eol (growLimit n)
      { eol := eol, rdr := rdr, buffer := b, internalBufferSize := n } rdr.rest [] :=
    ⟨rfl, ⟨hposition, hroom, hlimit.trans hcap.symm, by rw [hposition, List.take_zero]⟩,
      by rw [hcap], by rw [hcap]; exact hlt, by rw [hcap], rfl, rfl, rfl⟩
  rcases fillBuffer_ready heol hready with
    ⟨rl₁, rl, hfill, hsearch, hinv, -, hnbr, hahead, hlast⟩ |
    ⟨rl₁, hfill, hnil, hinv, -, hstart, hnbr, hahead, hlast⟩
  · refine ⟨rl, ?_, hinv, hnbr, hahead, hlast⟩
    simp only [new, hallocate, bind, Except.bind, hfill, hsearch, if_true]
  · refine ⟨rl₁, ?_, ?_, hnbr, hahead, hlast⟩
    · simp only [new, hallocate, bind, Except.bind, hfill, Bool.false_eq_true, if_false]
      rfl
    · cases rl₁
      change _ = 0 at hstart
      subst hstart
      rw [hnil]
      exact hinv

end ReadLine

end Spartan
