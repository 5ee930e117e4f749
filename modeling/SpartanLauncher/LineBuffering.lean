import SpartanLauncher.Lib.ChunkedSplit
import SpartanLauncher.LineDelivery

/-!
# Custom line ends and the buffer of `ReadLine`

With the default end-of-line expression a match does not depend on what follows. With others it
may: the matcher takes what it finds in the buffer, and only then asks whether it looked at the end.

* `ReadLine.Feeds`: the object stands for a text that arrives in chunks (`ChunkedSplit.Feed`).
* `deliversLines_iff`: the lines that the object delivers are those that the feed yields.

**Theorem (`readLine_independent`).** The lines depend neither on the size of the buffer nor on the
reads when the runs of the objects are safe: no match is taken that the rest of the content changes.
-/

namespace Spartan

open Alternation ChunkedSplit

/-! ## The matcher -/

theorem Matcher.find_of_some {eol : List (List Char)} {m : Matcher} {skip len : ℕ} {hitEnd : Bool}
    (hstart : m.regionStart = 0) (hend : m.regionEnd = m.text.length)
    (h : search eol (m.text.drop m.end) = (some (skip, len), hitEnd)) :
    m.find eol = ({
      text := m.text
      regionStart := 0
      regionEnd := m.text.length
      start := m.end + skip
      «end» := m.end + skip + len
      hitEnd := hitEnd }, true) := by
  simp only [Matcher.find, hstart, hend, List.take_length, Nat.max_zero, h]

theorem Matcher.find_of_none {eol : List (List Char)} {m : Matcher} (hstart : m.regionStart = 0)
    (hend : m.regionEnd = m.text.length) (h : (search eol (m.text.drop m.end)).1 = none) :
    (m.find eol).2 = false := by
  rcases hsearch : search eol (m.text.drop m.end) with ⟨_ | found, hitEnd⟩
  · simp only [Matcher.find, hstart, hend, List.take_length, Nat.max_zero, hsearch]
  · rw [hsearch] at h
    cases h

namespace ReadLine

/-! ## Objects and feeds -/

/-- The buffer and the reader of the object are those of the feed. -/
structure Holding (eol : List (List Char)) (rl : ReadLine) (s : Feed Char) : Prop where
  eol_eq : rl.eol = eol
  size : rl.internalBufferSize = rl.buffer.capacity
  capacity : rl.buffer.capacity = s.size
  size_pos : 0 < s.size
  size_lt : s.size < 2 ^ 31
  start_le : rl.nextStartPos ≤ rl.buffer.limit
  pending : rl.pending = s.pending
  rest : rl.rdr.rest = s.rest
  cut : ∀ i, rl.rdr.cut (rl.rdr.reads + i) = s.cut i
  eof : rl.eof = s.eof
  lookAhead : rl.lineLookAhead = false

/-- So is the match, if there is one. -/
structure Feeds (eol : List (List Char)) (rl : ReadLine) (s : Feed Char) : Prop
    extends Holding eol rl s where
  found : rl.eolFound = s.found.isSome
  atMatch : ∀ skip len hitEnd, s.found = some (skip, len, hitEnd) →
    search eol s.pending = (some (skip, len), hitEnd) ∧
      rl.matcher = {
        text := rl.held
        regionStart := 0
        regionEnd := rl.held.length
        start := rl.nextStartPos + skip
        «end» := rl.nextStartPos + skip + len
        hitEnd := hitEnd }

variable {eol : List (List Char)} {rl : ReadLine} {s : Feed Char}

theorem Holding.of_not_found (h : Holding eol rl s) (hfound : rl.eolFound = false)
    (hfound' : s.found = none) : Feeds eol rl s :=
  ⟨h, by rw [hfound, hfound']; rfl, fun _ _ _ h => by rw [hfound'] at h; cases h⟩

theorem Holding.searched (h : Holding eol rl s) : Holding eol rl (s.searched eol) := { h with }

/-- The next search of the matcher is a search of the pending text. -/
theorem Holding.find (h : Holding eol rl s) {m : Matcher} (htext : m.text = rl.held)
    (hstart : m.regionStart = 0) (hend : m.regionEnd = rl.held.length)
    (hnext : m.end = rl.nextStartPos) :
    Feeds eol { rl with matcher := (m.find eol).1, eolFound := (m.find eol).2 }
      (s.searched eol) := by
  have hdrop : m.text.drop m.end = s.pending := by
    rw [htext, hnext, ← h.pending, ReadLine.pending]
  have hregion : m.regionEnd = m.text.length := by rw [hend, htext]
  have hbase : Holding eol { rl with matcher := (m.find eol).1, eolFound := (m.find eol).2 }
      (s.searched eol) := { h with }
  rcases hsearch : search eol s.pending with ⟨_ | ⟨skip, len⟩, hitEnd⟩
  · have hnone : (search eol s.pending).1 = none := congrArg Prod.fst hsearch
    exact hbase.of_not_found (Matcher.find_of_none hstart hregion (hdrop ▸ hnone))
      (found_searched_none hnone)
  · have hfind := Matcher.find_of_some hstart hregion (hdrop ▸ hsearch)
    have hfound := found_searched_some (s := s) hsearch
    refine ⟨hbase, ?_, fun skip' len' hitEnd' heq => ?_⟩
    · rw [hfound, hfind]
      rfl
    · rw [hfound] at heq
      cases heq
      refine ⟨hsearch, ?_⟩
      rw [hfind, hnext, htext]
      rfl

/-! ## The line in front of a match -/

/-- The object behind its match, with the result of the next search. -/
def behindMatch (rl : ReadLine) (m : Matcher) (found : Bool) : ReadLine :=
  { rl with
    startIndex := rl.nextStartPos
    endIndex := rl.matcher.start
    nextStartPos := rl.matcher.end
    matcher := m
    eolFound := found
    lineNbr := rl.lineNbr + 1 }

theorem takeMatch_of_hitEnd (h : rl.matcher.hitEnd = true) :
    rl.takeMatch = rl.behindMatch rl.matcher false := by
  simp only [ReadLine.takeMatch, h, if_true, behindMatch]

theorem takeMatch_of_more (h : rl.matcher.hitEnd = false)
    (hmore : rl.matcher.end < rl.matcher.regionEnd) :
    rl.takeMatch = rl.behindMatch (rl.matcher.find rl.eol).1 (rl.matcher.find rl.eol).2 := by
  simp only [ReadLine.takeMatch, h, hmore, if_true, Bool.false_eq_true, if_false, behindMatch]

theorem takeMatch_of_end (h : rl.matcher.hitEnd = false)
    (hmore : ¬ rl.matcher.end < rl.matcher.regionEnd) :
    rl.takeMatch = rl.behindMatch rl.matcher false := by
  simp only [ReadLine.takeMatch, h, hmore, Bool.false_eq_true, if_false, behindMatch]

theorem Feeds.takeMatch {skip len : ℕ} {hitEnd : Bool} (heol : ∀ lit ∈ eol, lit ≠ [])
    (h : Feeds eol rl s) (hfound : s.found = some (skip, len, hitEnd)) :
    rl.takeMatch.charSequence = .ok (s.pending.take skip) ∧
      Feeds eol rl.takeMatch (s.taken eol skip len hitEnd) := by
  obtain ⟨hsearch, hmatcher⟩ := h.atMatch skip len hitEnd hfound
  have hbounds := search_bounds heol (congrArg Prod.fst hsearch)
  have hlength := rl.length_pending
  have hheld := rl.length_held
  rw [h.pending] at hlength
  have hpending : rl.held.drop (rl.nextStartPos + skip + len) = s.pending.drop (skip + len) := by
    rw [← h.pending, ReadLine.pending, List.drop_drop, Nat.add_assoc]
  have hle : rl.nextStartPos + skip + len ≤ rl.buffer.limit := by
    have := h.start_le
    omega
  constructor
  · rw [charSequence_eq]
    · simp only [ReadLine.takeMatch, hmatcher, Nat.add_sub_cancel_left]
      rw [← h.pending]
      rfl
    · simp only [ReadLine.takeMatch, hmatcher]
      exact Nat.le_add_right _ _
    · simp only [ReadLine.takeMatch, hmatcher]
      omega
  · have hbase : ∀ m found, Holding eol (rl.behindMatch m found)
        { s with pending := s.pending.drop (skip + len), found := none } := by
      intro m found
      refine { h with start_le := ?_, pending := ?_ }
      · show rl.matcher.end ≤ _
        rw [hmatcher]
        exact hle
      · show rl.held.drop rl.matcher.end = _
        rw [hmatcher]
        exact hpending
    cases hitEnd with
    | true =>
      rw [takeMatch_of_hitEnd (by rw [hmatcher])]
      exact (hbase _ _).of_not_found rfl rfl
    | false =>
      have hhit : rl.matcher.hitEnd = false := by rw [hmatcher]
      by_cases hmore : rl.matcher.end < rl.matcher.regionEnd
      · rw [takeMatch_of_more hhit hmore, h.eol_eq]
        exact (hbase rl.matcher true).find (by rw [hmatcher]; rfl) (by rw [hmatcher])
          (by rw [hmatcher]; rfl) rfl
      · have hnil : s.pending.drop (skip + len) = [] := by
          rw [hmatcher] at hmore
          exact List.drop_eq_nil_of_le (by simp only at hmore; omega)
        have htaken : s.taken eol skip len false = { s with pending := [], found := none } :=
          taken_at_end false (List.drop_eq_nil_iff.1 hnil)
        have hbase' := hbase rl.matcher false
        rw [hnil] at hbase'
        rw [takeMatch_of_end hhit hmore, htaken]
        exact hbase'.of_not_found rfl rfl

/-! ## The next read -/

/-- The buffer has the pending text at its beginning and room behind it. -/
structure Prepared (eol : List (List Char)) (rl : ReadLine) (s : Feed Char) (size : ℕ) :
    Prop where
  eol_eq : rl.eol = eol
  holds : Holds rl.buffer s.pending
  size_eq : rl.internalBufferSize = rl.buffer.capacity
  capacity : rl.buffer.capacity = size
  size_lt : size < 2 ^ 31
  rest : rl.rdr.rest = s.rest
  cut : ∀ i, rl.rdr.cut (rl.rdr.reads + i) = s.cut i
  lookAhead : rl.lineLookAhead = false
  not_eof : rl.eof = false ∧ s.eof = false
  not_found : rl.eolFound = false

/-- A search of the whole buffer. -/
theorem Holding.searchBuffer (rl : ReadLine) (h : Holding eol { rl with nextStartPos := 0 } s)
    (hposition : rl.buffer.position = 0) :
    ∃ rl', rl.searchBuffer = .ok rl' ∧ Feeds eol rl' (s.searched eol) ∧ rl'.toRead = rl.toRead := by
  obtain rfl : rl.eol = eol := h.eol_eq
  exact ⟨_, rl.searchBuffer_eq hposition,
    h.find (m := { text := rl.held, regionStart := 0, regionEnd := rl.held.length })
      rfl rfl rfl rfl, rfl⟩

theorem Prepared.size_pos {size : ℕ} (h : Prepared eol rl s size) : 0 < size :=
  h.capacity ▸ h.holds.full ▸ Nat.zero_lt_of_lt h.holds.room

/-- The buffer after `buffer.flip()` at the end of the text. -/
theorem Prepared.holding_end {size : ℕ} (h : Prepared eol rl s size) :
    Holding eol { rl with buffer := rl.buffer.flip, eof := true, nextStartPos := 0 }
      { s with size := size, eof := true } where
  eol_eq := h.eol_eq
  size := h.size_eq
  capacity := h.capacity
  size_pos := h.size_pos
  size_lt := h.size_lt
  start_le := Nat.zero_le _
  pending := h.holds.cells
  rest := h.rest
  cut := h.cut
  eof := rfl
  lookAhead := h.lookAhead

/-- The read that finds the end of the text, behind text that is not delivered. -/
theorem Prepared.fillBuffer_end {size : ℕ} (h : Prepared eol rl s size) (hrest : s.rest = [])
    (hpending : s.pending ≠ []) :
    ∃ rl₁ rl', rl.fillBuffer = .ok (rl₁, true) ∧ rl₁.searchBuffer = .ok rl' ∧
      Feeds eol rl' (s.filled eol size) ∧ rl'.toRead < rl.toRead := by
  have hfilled : s.filled eol size = Feed.searched eol { s with size := size, eof := true } :=
    if_pos hrest
  have hfill := fillBuffer_of_end h.holds (h.rest.trans hrest)
  have hread : decide (0 < rl.buffer.position) = true := by
    rw [h.holds.position]
    exact decide_eq_true (List.length_pos_iff.2 hpending)
  rw [hread] at hfill
  obtain ⟨rl', hsearch, hfeeds, htoRead⟩ := Holding.searchBuffer
    { rl with buffer := rl.buffer.flip, eof := true } h.holding_end rfl
  refine ⟨_, rl', hfill, hsearch, hfilled ▸ hfeeds, ?_⟩
  rw [htoRead]
  simp [toRead, h.not_eof.1]

/-- The read that finds the end of the text, with nothing before it. -/
theorem Prepared.fillBuffer_exhausted {size : ℕ} (h : Prepared eol rl s size)
    (hrest : s.rest = []) (hpending : s.pending = []) :
    ∃ rl₁, rl.fillBuffer = .ok (rl₁, false) ∧ rl₁.nextStartPos = rl.nextStartPos ∧
      Feeds eol { rl₁ with nextStartPos := 0 } (s.filled eol size) ∧
      (s.filled eol size).Exhausted := by
  have hfilled : s.filled eol size = Feed.searched eol { s with size := size, eof := true } :=
    if_pos hrest
  have hfill := fillBuffer_of_end h.holds (h.rest.trans hrest)
  have hzero : rl.buffer.position = 0 := by rw [h.holds.position, hpending, List.length_nil]
  rw [hzero] at hfill
  have hfound : (Feed.searched eol { s with size := size, eof := true }).found = none :=
    found_searched_none (search_eq_none_of_nil hpending)
  rw [hfilled]
  exact ⟨_, hfill, rfl, h.holding_end.searched.of_not_found h.not_found hfound, hfound, rfl,
    hpending⟩

/-- The read of a chunk. -/
theorem Prepared.fillBuffer_text {size : ℕ} (h : Prepared eol rl s size) (hrest : s.rest ≠ []) :
    ∃ rl₁ rl', rl.fillBuffer = .ok (rl₁, true) ∧ rl₁.searchBuffer = .ok rl' ∧
      Feeds eol rl' (s.filled eol size) ∧ rl'.toRead < rl.toRead := by
  obtain ⟨n, hn⟩ : ∃ n, n = min (s.cut 0 + 1) (size - s.pending.length) := ⟨_, rfl⟩
  have hfilled : s.filled eol size = Feed.searched eol { s with
      pending := s.pending ++ s.rest.take n
      rest := s.rest.drop n
      cut := fun i => s.cut (i + 1)
      size := size } := by
    rw [hn]
    exact if_neg hrest
  have hread : n = min (rl.rdr.cut rl.rdr.reads + 1) rl.buffer.remaining := by
    rw [hn, ← h.cut 0, CharBuffer.remaining, h.holds.full, h.capacity, h.holds.position]
    rfl
  obtain ⟨b, hfill, hgot, hend, hcells, hcap⟩ :=
    fillBuffer_of_text h.holds (h.rest.symm ▸ hrest) hread
  rw [h.rest] at hfill hgot hend hcells
  have hbase : Holding eol { rl with
      rdr := ⟨s.rest.drop n, rl.rdr.cut, rl.rdr.reads + 1⟩
      buffer := b.flip
      eof := false
      nextStartPos := 0 }
      { s with
        pending := s.pending ++ s.rest.take n
        rest := s.rest.drop n
        cut := fun i => s.cut (i + 1)
        size := size } := by
    refine ⟨h.eol_eq, h.size_eq.trans (congrArg _ hcap.symm), hcap.trans h.capacity, h.size_pos,
      h.size_lt, Nat.zero_le _, hcells, rfl, fun i => ?_, h.not_eof.2.symm, h.lookAhead⟩
    rw [← h.cut (i + 1)]
    exact congrArg rl.rdr.cut (Nat.succ_add_eq_add_succ rl.rdr.reads i)
  obtain ⟨rl', hsearch, hfeeds, htoRead⟩ := Holding.searchBuffer { rl with
    rdr := ⟨s.rest.drop n, rl.rdr.cut, rl.rdr.reads + 1⟩
    buffer := b.flip
    eof := false } hbase rfl
  refine ⟨_, rl', hfill, hsearch, hfilled ▸ hfeeds, ?_⟩
  rw [htoRead]
  simp only [toRead, h.not_eof.1, h.rest, List.length_drop, Bool.false_eq_true, if_false]
  rw [List.length_take] at hgot
  omega

/-- **The read.** It goes on with a search, or finds that nothing is left. -/
theorem Prepared.fillBuffer {size : ℕ} (h : Prepared eol rl s size) :
    (∃ rl₁ rl', rl.fillBuffer = .ok (rl₁, true) ∧ rl₁.searchBuffer = .ok rl' ∧
      Feeds eol rl' (s.filled eol size) ∧ rl'.toRead < rl.toRead) ∨
    (∃ rl₁, rl.fillBuffer = .ok (rl₁, false) ∧ rl₁.nextStartPos = rl.nextStartPos ∧
      Feeds eol { rl₁ with nextStartPos := 0 } (s.filled eol size) ∧
      (s.filled eol size).Exhausted) := by
  by_cases hrest : s.rest = []
  · by_cases hpending : s.pending = []
    · exact .inr (h.fillBuffer_exhausted hrest hpending)
    · exact .inl (h.fillBuffer_end hrest hpending)
  · exact .inl (h.fillBuffer_text hrest)

/-! ## One line -/

/-- The object after `buffer.position(nextStartPos)`. -/
theorem Feeds.setPosition (h : Feeds eol rl s) :
    ∃ b, rl.buffer.setPosition rl.nextStartPos = .ok b ∧ b.position = rl.nextStartPos ∧
      b.remaining = s.pending.length ∧ Feeds eol { rl with buffer := b } s := by
  have hlength := rl.length_pending
  rw [h.pending] at hlength
  exact ⟨_, CharBuffer.setPosition_ok h.start_le, rfl, hlength.symm, { h with }⟩

/-- The end of `readLineImpl` when nothing is left. -/
theorem Feeds.noLine (h : Feeds eol rl s) (hexhausted : s.Exhausted) :
    ∃ rl', rl.noLine = .ok rl' ∧ Feeds eol rl' s := by
  have hdrop : rl.held.drop rl.buffer.limit = [] := List.drop_eq_nil_of_le rl.length_held.le
  have hnoLine : rl.noLine = .ok { rl with
      nextStartPos := rl.buffer.limit
      buffer := ⟨rl.buffer.cells, rl.buffer.limit, rl.buffer.limit, le_rfl, rl.buffer.limit_le⟩
      startIndex := 0
      endIndex := 0 } := by
    rw [ReadLine.noLine, CharBuffer.setPosition_ok le_rfl]
    rfl
  have hfound := h.found
  rw [hexhausted.found] at hfound
  have hpending : rl.held.drop rl.buffer.limit = s.pending := hdrop.trans hexhausted.pending.symm
  refine ⟨_, hnoLine, Holding.of_not_found ?_ hfound hexhausted.found⟩
  exact { h with start_le := le_rfl, pending := hpending }

/-- The outcome of `readLineImpl`: a line, null, or an exception. -/
def Outcome (eol : List (List Char)) (s : Feed Char) (result : Except JavaError (ReadLine × Bool)) :
    Prop :=
  (∃ rl' s' line, result = .ok (rl', true) ∧ rl'.charSequence = .ok line ∧ Feeds eol rl' s' ∧
    ∀ lines, Yields eol (2 ^ 30) s lines ↔
      ∃ lines', lines = line :: lines' ∧ Yields eol (2 ^ 30) s' lines') ∨
  (∃ rl' s', result = .ok (rl', false) ∧ Feeds eol rl' s' ∧ s'.Exhausted ∧
    ∀ lines, Yields eol (2 ^ 30) s lines ↔ lines = []) ∨
  (result = .error .illegalArgument ∧ ∀ lines, ¬ Yields eol (2 ^ 30) s lines)

theorem Outcome.congr {s' : Feed Char} {result : Except JavaError (ReadLine × Bool)}
    (h : ∀ lines, Yields eol (2 ^ 30) s lines ↔ Yields eol (2 ^ 30) s' lines)
    (houtcome : Outcome eol s' result) : Outcome eol s result := by
  unfold Outcome at houtcome ⊢
  simpa only [h] using houtcome

/-- A round at the end of the text. -/
theorem Feeds.iteration_eof (h : Feeds eol rl s) (hfound : s.found = none) (heof : s.eof = true) :
    ∃ rl' line, rl.iteration = .ok (rl', some line) ∧ Outcome eol s (.ok (rl', line)) := by
  obtain ⟨b, hset, hposition, hremaining, hfeeds⟩ := h.setPosition
  have hfound' := h.found
  rw [hfound] at hfound'
  have heof' := h.eof.trans heof
  by_cases hnil : s.pending = []
  · have hexhausted : s.Exhausted := ⟨hfound, heof, hnil⟩
    obtain ⟨rl', hnoLine, hfeeds'⟩ := hfeeds.noLine hexhausted
    have hzero : ¬ 0 < b.remaining := by rw [hremaining, hnil]; exact lt_irrefl 0
    refine ⟨rl', false, ?_, .inr (.inl ⟨rl', s, rfl, hfeeds', hexhausted,
      fun _ => yields_exhausted_iff hexhausted⟩)⟩
    simp only [iteration, hfound', hset, heof', hzero, bind, Except.bind, pure, Except.pure,
      if_false, if_true, Bool.false_eq_true, Option.isSome_none] at hnoLine ⊢
    rw [hnoLine]
  · have hpos : 0 < b.remaining := by rw [hremaining]; exact List.length_pos_iff.2 hnil
    have htext : b.text = s.pending := by
      rw [← hfeeds.pending, CharBuffer.text, hposition]
      rfl
    have hrest : ({ s with pending := [] } : Feed Char).Exhausted := ⟨hfound, heof, rfl⟩
    refine ⟨{ rl with
      buffer := b
      nextStartPos := b.limit
      startIndex := b.position
      endIndex := b.limit
      lineNbr := rl.lineNbr + 1 }, true, ?_, .inl ⟨_, { s with pending := [] }, s.pending, rfl, ?_,
        ?_, fun lines => ?_⟩⟩
    · simp only [iteration, hfound', hset, heof', hpos, bind, Except.bind, pure, Except.pure,
        if_true, Bool.false_eq_true, if_false, Option.isSome_none]
    · rw [charSequence_eq b.position_le le_rfl]
      show Except.ok (b.text.take b.remaining) = _
      rw [← b.length_text, List.take_length, htext]
    · have hnone : (b.cells.take b.limit).drop b.limit = [] := by simp
      refine Holding.of_not_found ?_ hfound' hfound
      exact { hfeeds with start_le := le_rfl, pending := hnone }
    · rw [yields_last_iff hfound heof, asLine, if_neg hnil]
      simp only [yields_exhausted_iff hrest, exists_eq_right]

/-- A round that reads on. -/
theorem Feeds.iteration_read (h : Feeds eol rl s) (hfound : s.found = none) (heof : s.eof = false) :
    (∃ rl' s', rl.iteration = .ok (rl', none) ∧ s.read eol (2 ^ 30) = some s' ∧ Feeds eol rl' s' ∧
      rl'.toRead < rl.toRead) ∨
    (∃ rl' s', rl.iteration = .ok (rl', some false) ∧ s.read eol (2 ^ 30) = some s' ∧
      Feeds eol rl' s' ∧ s'.Exhausted) ∨
    (rl.iteration = .error .illegalArgument ∧ s.read eol (2 ^ 30) = none) := by
  obtain ⟨b, hset, hposition, -, hfeeds⟩ := h.setPosition
  have hfound' := h.found
  rw [hfound] at hfound'
  have hiteration := iteration_of_not_found hfound' (h.eof.trans heof) hset
  have hcapacity : b.capacity = s.size := hfeeds.capacity
  have hpending : pending { rl with buffer := b } = s.pending := hfeeds.pending
  have hsize_pos := h.size_pos
  have hsize_lt := h.size_lt
  rcases @makeRoom_cases { rl with buffer := b } hfeeds.size (hcapacity ▸ hsize_pos)
    (hcapacity ▸ hsize_lt) hposition with ⟨b', hmake, hholds, hgrow⟩ | ⟨hmake, hfull, hgrow⟩
  · have hgrown : s.grown (2 ^ 30) = some b'.capacity := by
      simp only [hpending, hcapacity] at hgrow
      unfold Feed.grown
      rcases hgrow with ⟨hroom, hcap⟩ | ⟨hfull, hsmall, hcap⟩
      · rw [if_pos hroom, hcap]
      · rw [if_neg hfull.not_lt, if_pos hsmall, hcap]
    have hread : s.read eol (2 ^ 30) = some (s.filled eol b'.capacity) := by
      rw [Feed.read, hgrown, Option.map_some]
    have hprepared : Prepared eol
        { rl with buffer := b', internalBufferSize := b'.capacity } s b'.capacity := by
      refine ⟨h.eol_eq, hpending ▸ hholds, rfl, rfl, ?_, h.rest, h.cut, h.lookAhead,
        ⟨h.eof.trans heof, heof⟩, hfound'⟩
      simp only [hpending, hcapacity] at hgrow
      omega
    rcases hprepared.fillBuffer with ⟨rl₁, rl', hfill, hsearch, hfeeds', hless⟩ |
      ⟨rl₁, hfill, -, hfeeds', hexhausted⟩
    · refine .inl ⟨rl', _, ?_, hread, hfeeds', hless⟩
      rw [hiteration, hmake]
      simp only [bind, Except.bind, hfill, hsearch]
      rfl
    · obtain ⟨rl', hnoLine, hfeeds''⟩ := hfeeds'.noLine hexhausted
      change rl₁.noLine = _ at hnoLine
      refine .inr (.inl ⟨rl', _, ?_, hread, hfeeds'', hexhausted⟩)
      rw [hiteration, hmake]
      simp only [bind, Except.bind, hfill, hnoLine]
      rfl
  · refine .inr (.inr ⟨?_, ?_⟩)
    · rw [hiteration, hmake]
      rfl
    · simp only [hpending, hcapacity] at hfull hgrow
      rw [Feed.read, Feed.grown, if_neg hfull.not_lt, if_neg (Nat.not_lt.2 hgrow)]
      rfl

theorem Feeds.readLineLoop (heol : ∀ lit ∈ eol, lit ≠ []) (fuel : ℕ) (h : Feeds eol rl s)
    (hfuel : rl.toRead < fuel) : Outcome eol s (rl.readLineLoop fuel) := by
  induction fuel generalizing rl s with
  | zero => omega
  | succ fuel ih =>
    cases hfound : s.found with
    | some found =>
      obtain ⟨skip, len, hitEnd⟩ := found
      obtain ⟨hline, hnext⟩ := h.takeMatch heol hfound
      have hfound' := h.found
      rw [hfound] at hfound'
      have hiteration : rl.iteration = .ok (rl.takeMatch, some true) := if_pos hfound'
      refine .inl ⟨rl.takeMatch, _, _, ?_, hline, hnext, fun _ => yields_found_iff hfound⟩
      simp only [ReadLine.readLineLoop, hiteration, bind, Except.bind]
      rfl
    | none =>
      cases heof : s.eof with
      | true =>
        obtain ⟨rl', line, hiteration, houtcome⟩ := h.iteration_eof hfound heof
        have hloop : rl.readLineLoop (fuel + 1) = .ok (rl', line) := by
          simp only [ReadLine.readLineLoop, hiteration, bind, Except.bind]
          rfl
        exact hloop ▸ houtcome
      | false =>
        have hstep : ∀ lines, Yields eol (2 ^ 30) s lines ↔
            ∃ s', s.read eol (2 ^ 30) = some s' ∧ Yields eol (2 ^ 30) s' lines :=
          fun _ => yields_read_iff hfound heof
        rcases h.iteration_read hfound heof with ⟨rl', s', hiteration, hread, hnext, hless⟩ |
          ⟨rl', s', hiteration, hread, hnext, hexhausted⟩ | ⟨hiteration, hread⟩
        · have hloop : rl.readLineLoop (fuel + 1) = rl'.readLineLoop fuel := by
            simp only [ReadLine.readLineLoop, hiteration, bind, Except.bind]
          rw [hloop]
          refine Outcome.congr (fun lines => ?_) (ih hnext (by omega))
          simp only [hstep, hread, Option.some.injEq, exists_eq_left']
        · refine .inr (.inl ⟨rl', s', ?_, hnext, hexhausted, fun lines => ?_⟩)
          · simp only [ReadLine.readLineLoop, hiteration, bind, Except.bind]
            rfl
          · simp only [hstep, hread, Option.some.injEq, exists_eq_left',
              yields_exhausted_iff hexhausted]
        · refine .inr (.inr ⟨?_, fun lines => ?_⟩)
          · simp only [ReadLine.readLineLoop, hiteration, bind, Except.bind]
          · simp only [hstep, hread, reduceCtorEq, false_and, exists_false, not_false_eq_true]

theorem Feeds.readLineImpl (heol : ∀ lit ∈ eol, lit ≠ []) (h : Feeds eol rl s) :
    Outcome eol s rl.readLineImpl := by
  apply h.readLineLoop heol
  unfold toRead
  split <;> omega

/-- A new object stands for the feed after its first read. -/
theorem feeds_new (eol : List (List Char)) (content : List Char) (cut : ℕ → ℕ) {n : ℕ}
    (hpos : 0 < n) (hlt : n < 2 ^ 31) :
    ∃ rl s, new eol { rest := content, cut := cut } n = .ok rl ∧ Feeds eol rl s ∧
      (Feed.start content cut n).read eol (2 ^ 30) = some s := by
  obtain ⟨b, hallocate, hposition, hlimit, hcap⟩ := @allocate_ok n
  have hroom : b.position < b.limit := by
    rw [hposition, hlimit]
    exact hpos
  have hprepared : Prepared eol
      { eol := eol, rdr := { rest := content, cut := cut }, buffer := b, internalBufferSize := n }
      (.start content cut n) n :=
    ⟨rfl, ⟨hposition, hroom, hlimit.trans hcap.symm, by rw [hposition, List.take_zero]; rfl⟩,
      by rw [hcap], hcap, hlt, rfl, fun i => by simp [Feed.start], rfl, ⟨rfl, rfl⟩, rfl⟩
  have hread : (Feed.start content cut n).read eol (2 ^ 30) =
      some ((Feed.start content cut n).filled eol n) := by
    have hgrown : (Feed.start content cut n).grown (2 ^ 30) = some n := if_pos hpos
    rw [Feed.read, hgrown, Option.map_some]
  rcases hprepared.fillBuffer with ⟨rl₁, rl, hfill, hsearch, hfeeds, -⟩ |
    ⟨rl₁, hfill, hstart, hfeeds, -⟩
  · refine ⟨rl, _, ?_, hfeeds, hread⟩
    simp only [new, hallocate, bind, Except.bind, hfill, hsearch, if_true]
  · refine ⟨rl₁, _, ?_, ?_, hread⟩
    · simp only [new, hallocate, bind, Except.bind, hfill, Bool.false_eq_true, if_false]
      rfl
    · cases rl₁
      change _ = 0 at hstart
      subst hstart
      exact hfeeds

/-! ## All lines -/

/-- The calls of `readLine()` return the lines and then null. -/
def Returns (rl : ReadLine) (lines : List (List Char)) : Prop :=
  ∀ k, ∃ rl', rl.runOps (List.replicate k .readLine) =
    .ok (rl', (List.range k).map fun i => lines[i]?)

/-- One call. -/
theorem Feeds.readLine (heol : ∀ lit ∈ eol, lit ≠ []) (h : Feeds eol rl s) :
    (∃ rl' s' line, rl.readLine = .ok (rl', some line) ∧ Feeds eol rl' s' ∧
      ∀ lines, Yields eol (2 ^ 30) s lines ↔
        ∃ lines', lines = line :: lines' ∧ Yields eol (2 ^ 30) s' lines') ∨
    (∃ rl' s', rl.readLine = .ok (rl', none) ∧ Feeds eol rl' s' ∧ s'.Exhausted ∧
      ∀ lines, Yields eol (2 ^ 30) s lines ↔ lines = []) ∨
    (rl.readLine = .error .illegalArgument ∧ ∀ lines, ¬ Yields eol (2 ^ 30) s lines) := by
  have hset : ∀ {rl' s'} (last : Bool), Feeds eol rl' s' →
      Feeds eol { rl' with lastLine := last } s' := fun _ h => { h with }
  have hread : rl.readLine = rl.readLineImpl.bind fun result =>
      if result.2 then result.1.charSequence.map fun line =>
        ({ result.1 with lastLine := result.2 }, some line)
      else .ok ({ result.1 with lastLine := result.2 }, none) := by
    simp only [ReadLine.readLine, h.lookAhead, Bool.false_eq_true, if_false, bind, Except.bind,
      pure, Except.pure]
    cases rl.readLineImpl <;> rfl
  rcases h.readLineImpl heol with ⟨rl', s', line, himpl, hline, hnext, hyields⟩ |
    ⟨rl', s', himpl, hnext, hexhausted, hyields⟩ | ⟨himpl, hyields⟩
  · refine .inl ⟨{ rl' with lastLine := true }, s', line, ?_, hset true hnext, hyields⟩
    simp only [hread, himpl, Except.bind, hline, if_true]
    rfl
  · refine .inr (.inl ⟨{ rl' with lastLine := false }, s', ?_, hset false hnext, hexhausted,
      hyields⟩)
    simp only [hread, himpl, Except.bind, Bool.false_eq_true, if_false]
  · refine .inr (.inr ⟨?_, hyields⟩)
    simp only [hread, himpl, Except.bind]

theorem runOps_replicate_succ {rl' : ReadLine} {line : Option (List Char)}
    (hread : rl.readLine = .ok (rl', line)) (k : ℕ) :
    rl.runOps (List.replicate (k + 1) .readLine) =
      (rl'.runOps (List.replicate k .readLine)).map fun result =>
        (result.1, line :: result.2) := by
  simp only [List.replicate_succ, runOps, hread, bind, Except.bind, pure, Except.pure]
  cases rl'.runOps (List.replicate k .readLine) <;> rfl

theorem range_succ_getElem? {α : Type*} (k : ℕ) (lines : List α) :
    (List.range (k + 1)).map (fun i => lines[i]?) =
      lines[0]? :: (List.range k).map fun i => lines[i + 1]? := by
  rw [List.range_succ_eq_map, List.map_cons, List.map_map]
  rfl

/-- The first of the calls. -/
theorem Returns.readLine {lines : List (List Char)} {rl' : ReadLine} {line : Option (List Char)}
    (h : rl.Returns lines) (hread : rl.readLine = .ok (rl', line)) :
    line = lines[0]? ∧ rl'.Returns (lines.drop 1) := by
  have hall : ∀ k, ∃ rl'', rl'.runOps (List.replicate k .readLine) =
      .ok (rl'', (List.range k).map fun i => lines[i + 1]?) ∧ line = lines[0]? := by
    intro k
    obtain ⟨rl'', hrun⟩ := h (k + 1)
    rw [runOps_replicate_succ hread, range_succ_getElem?] at hrun
    cases hnext : rl'.runOps (List.replicate k .readLine) with
    | error e =>
      rw [hnext] at hrun
      cases hrun
    | ok result =>
      obtain ⟨rl₁, results⟩ := result
      rw [hnext] at hrun
      cases hrun
      exact ⟨rl₁, rfl, rfl⟩
  obtain ⟨-, -, hline⟩ := hall 0
  refine ⟨hline, fun k => ?_⟩
  obtain ⟨rl'', hrun, -⟩ := hall k
  refine ⟨rl'', hrun.trans ?_⟩
  simp only [List.getElem?_drop, Nat.add_comm 1]

theorem Returns.readLine_ne {lines : List (List Char)} {e : JavaError} (h : rl.Returns lines) :
    rl.readLine ≠ .error e := by
  intro hread
  obtain ⟨rl', hrun⟩ := h 1
  simp only [List.replicate_succ, runOps, hread, bind, Except.bind] at hrun
  cases hrun

/-- The object delivers the lines that the feed yields. -/
theorem Feeds.returns_iff (heol : ∀ lit ∈ eol, lit ≠ []) (h : Feeds eol rl s)
    (lines : List (List Char)) : rl.Returns lines ↔ Yields eol (2 ^ 30) s lines := by
  refine ⟨?_, ?_⟩
  · intro hreturns
    induction lines generalizing rl s with
    | nil =>
      rcases h.readLine heol with ⟨rl', s', line, hread, -⟩ | ⟨rl', s', -, -, -, hiff⟩ |
        ⟨hread, -⟩
      · have hone := hreturns.readLine hread
        cases hone.1
      · exact (hiff []).2 rfl
      · exact absurd hread hreturns.readLine_ne
    | cons line lines ih =>
      rcases h.readLine heol with ⟨rl', s', line', hread, hnext, hiff⟩ |
        ⟨rl', s', hread, -⟩ | ⟨hread, -⟩
      · obtain ⟨hline, hreturns'⟩ := hreturns.readLine hread
        cases hline
        exact (hiff _).2 ⟨lines, rfl, ih hnext hreturns'⟩
      · have hone := hreturns.readLine hread
        cases hone.1
      · exact absurd hread hreturns.readLine_ne
  · intro hyields k
    induction k generalizing rl s lines with
    | zero => exact ⟨rl, rfl⟩
    | succ k ih =>
      rw [range_succ_getElem?]
      rcases h.readLine heol with ⟨rl', s', line, hread, hnext, hiff⟩ |
        ⟨rl', s', hread, hnext, hexhausted, hiff⟩ | ⟨-, hnot⟩
      · obtain ⟨lines', rfl, hyields'⟩ := (hiff lines).1 hyields
        obtain ⟨rl'', hrun⟩ := ih hnext lines' hyields'
        refine ⟨rl'', ?_⟩
        rw [runOps_replicate_succ hread, hrun]
        rfl
      · obtain rfl := (hiff lines).1 hyields
        obtain ⟨rl'', hrun⟩ := ih hnext [] ((yields_exhausted_iff hexhausted).2 rfl)
        refine ⟨rl'', ?_⟩
        rw [runOps_replicate_succ hread, hrun]
        rfl
      · exact absurd hyields (hnot lines)

/-! ## The lines of a text -/

/-- What `readLine()` delivers of the content: a new object with a buffer of `n` characters returns
the lines, and then null. -/
def DeliversLines (eol : List (List Char)) (content : List Char) (cut : ℕ → ℕ) (n : ℕ)
    (lines : List (List Char)) : Prop :=
  ∃ rl, new eol { rest := content, cut := cut } n = .ok rl ∧ rl.Returns lines

theorem deliversLines_iff (heol : ∀ lit ∈ eol, lit ≠ []) (content : List Char) (cut : ℕ → ℕ)
    {n : ℕ} (hpos : 0 < n) (hlt : n < 2 ^ 31) (lines : List (List Char)) :
    DeliversLines eol content cut n lines ↔
      Yields eol (2 ^ 30) (.start content cut n) lines := by
  obtain ⟨rl, s, hnew, hfeeds, hread⟩ := feeds_new eol content cut hpos hlt
  rw [yields_read_iff rfl rfl]
  constructor
  · rintro ⟨rl', hnew', hreturns⟩
    cases hnew.symm.trans hnew'
    exact ⟨s, hread, (hfeeds.returns_iff heol lines).1 hreturns⟩
  · rintro ⟨s', hread', hyields⟩
    cases hread.symm.trans hread'
    exact ⟨rl, hnew, (hfeeds.returns_iff heol lines).2 hyields⟩

end ReadLine

open ReadLine

/-- **Custom line ends.** Two objects whose runs are safe, whatever the sizes of their buffers and
the reads, deliver the same lines. This asks for no more than it has to: of the parts of a content
all objects deliver the same lines exactly when all runs on the parts are safe. -/
theorem readLine_independent (eol : List (List Char)) (heol : ∀ lit ∈ eol, lit ≠ [])
    (hlength : ∀ lit ∈ eol, lit.length < 2 ^ 31) (content : List Char) :
    (∀ n₁ n₂ cut₁ cut₂, 0 < n₁ → n₁ < 2 ^ 31 → 0 < n₂ → n₂ < 2 ^ 31 →
      SafeRun eol (2 ^ 30) (.start content cut₁ n₁) →
      SafeRun eol (2 ^ 30) (.start content cut₂ n₂) →
      ∃ lines, DeliversLines eol content cut₁ n₁ lines ∧
        DeliversLines eol content cut₂ n₂ lines) ∧
    ((∀ part, part <:+: content → ∀ n₁ n₂ cut₁ cut₂, 0 < n₁ → n₁ < 2 ^ 31 → 0 < n₂ → n₂ < 2 ^ 31 →
        ∃ lines, DeliversLines eol part cut₁ n₁ lines ∧ DeliversLines eol part cut₂ n₂ lines) ↔
      ∀ part, part <:+: content → ∀ n cut, 0 < n → n < 2 ^ 31 →
        SafeRun eol (2 ^ 30) (.start part cut n)) := by
  have hsplit : ∀ part n cut, 0 < n → n < 2 ^ 31 →
      SafeRun eol (2 ^ 30) (.start part cut n) →
      DeliversLines eol part cut n (split eol part) := fun part n cut hpos hlt h =>
    (deliversLines_iff heol part cut hpos hlt _).2 (yields_split heol (wellFormed_start _ _ hpos) h)
  refine ⟨?_, ?_, ?_⟩
  · intro n₁ n₂ cut₁ cut₂ hpos₁ hlt₁ hpos₂ hlt₂ h₁ h₂
    exact ⟨split eol content, hsplit content n₁ cut₁ hpos₁ hlt₁ h₁,
      hsplit content n₂ cut₂ hpos₂ hlt₂ h₂⟩
  · intro h
    have hdouble : 2 * 2 ^ 30 = 2 ^ 31 := by norm_num
    have hiff := @parts_agree_iff Char _ eol (2 ^ 30) heol (hdouble ▸ hlength) content
    rw [hdouble] at hiff
    refine hiff.1 fun part hpart => ?_
    -- all objects deliver what one with a buffer of one character does
    obtain ⟨lines, hlines, -⟩ := h part hpart 1 1 (fun _ => 0) (fun _ => 0) Nat.one_pos
      (by norm_num) Nat.one_pos (by norm_num)
    refine ⟨lines, fun n cut hpos hlt => ?_⟩
    obtain ⟨lines', hlines', hcut⟩ := h part hpart 1 n (fun _ => 0) cut Nat.one_pos (by norm_num)
      hpos hlt
    rw [deliversLines_iff heol part _ Nat.one_pos (by norm_num)] at hlines hlines'
    rw [hlines.unique hlines']
    exact (deliversLines_iff heol part cut hpos hlt lines').1 hcut
  · intro h part hpart n₁ n₂ cut₁ cut₂ hpos₁ hlt₁ hpos₂ hlt₂
    exact ⟨split eol part, hsplit part n₁ cut₁ hpos₁ hlt₁ (h part hpart n₁ cut₁ hpos₁ hlt₁),
      hsplit part n₂ cut₂ hpos₂ hlt₂ (h part hpart n₂ cut₂ hpos₂ hlt₂)⟩

/-- The lines may be the same although a match was taken that the rest of the text changes: with
`aaa|aa`, `aaaaa` has two line ends when `aa` is read first, and when all is read at once. -/
example : ¬ SafeRun [['a', 'a', 'a'], ['a', 'a']] (2 ^ 30)
      (.start ['a', 'a', 'a', 'a', 'a'] (fun i => i + 1) 8) ∧
    Yields [['a', 'a', 'a'], ['a', 'a']] (2 ^ 30)
      (.start ['a', 'a', 'a', 'a', 'a'] (fun i => i + 1) 8) [[], []] ∧
    Yields [['a', 'a', 'a'], ['a', 'a']] (2 ^ 30)
      (.start ['a', 'a', 'a', 'a', 'a'] (fun _ => 4) 8) [[], []] := by
  refine ⟨fun h => ?_, ?_, ?_⟩
  · have hkept := (h.next rfl).safe.kept 0 2 rfl
    revert hkept
    decide
  · exact .read rfl rfl rfl (@Yields.found _ _ _ _ _ 0 2 true _ rfl
      (.read rfl rfl rfl (@Yields.found _ _ _ _ _ 0 3 false _ rfl
        (.read rfl rfl rfl (.last rfl rfl)))))
  · exact .read rfl rfl rfl (@Yields.found _ _ _ _ _ 0 3 false _ rfl
      (@Yields.found _ _ _ _ _ 0 2 true _ rfl (.read rfl rfl rfl (.last rfl rfl))))

/-- The line end of `a\r\nb` is read at once into a buffer of 8 or 16 characters. -/
theorem safeRun_crlf {n : ℕ} (hn : n = 8 ∨ n = 16) :
    SafeRun [['\r', '\n'], ['\n'], ['\r']] (2 ^ 30)
      (.start ['a', '\r', '\n', 'b'] (fun _ => 3) n) := by
  rcases hn with rfl | rfl <;>
    exact .of_next ⟨nofun, nofun, nofun⟩ rfl (.of_next ⟨nofun, nofun, nofun⟩ rfl
      (.of_next ⟨nofun, nofun, nofun⟩ rfl (.of_last ⟨nofun, fun _ _ => rfl, nofun⟩ rfl)))

/-- The default expression, read one character at a time and at once, and `\r\n|\n|\r`, read at
once into buffers of two sizes. -/
theorem readLine_independent_crlf :
    (∃ lines, DeliversLines defaultEolRegEx ['a', '\r', '\n', 'b'] (fun _ => 0) 1 lines ∧
      DeliversLines defaultEolRegEx ['a', '\r', '\n', 'b'] (fun _ => 3) 8 lines) ∧
    ∃ lines, DeliversLines [['\r', '\n'], ['\n'], ['\r']] ['a', '\r', '\n', 'b'] (fun _ => 3) 8
        lines ∧
      DeliversLines [['\r', '\n'], ['\n'], ['\r']] ['a', '\r', '\n', 'b'] (fun _ => 3) 16
        lines := by
  have hdefault : ∀ n cut, 0 < n → SafeRun defaultEolRegEx (2 ^ 30)
      (.start ['a', '\r', '\n', 'b'] cut n) := fun n cut hpos =>
    safeRun_of_not_hitEnd determined_default.ne_nil
      (fun text found h => Bool.noConfusion (determined_default.not_hitEnd text _ _ _ h)) hpos
      (by decide) cut
  exact ⟨(readLine_independent defaultEolRegEx determined_default.ne_nil (by decide)
      ['a', '\r', '\n', 'b']).1 1 8 _ _ (by decide) (by decide) (by decide) (by decide)
      (hdefault 1 _ (by decide)) (hdefault 8 _ (by decide)),
    (readLine_independent [['\r', '\n'], ['\n'], ['\r']] (by decide) (by decide)
      ['a', '\r', '\n', 'b']).1 8 16 _ _ (by decide) (by decide) (by decide) (by decide)
      (safeRun_crlf (.inl rfl)) (safeRun_crlf (.inr rfl))⟩

/-- With `\r\n|\n|\r`, a read that ends between the two characters of a line end makes of it two
line ends. -/
theorem readLine_depends_on_reads :
    DeliversLines [['\r', '\n'], ['\n'], ['\r']] ['a', '\r', '\n', 'b'] (fun _ => 3) 8
        [['a'], ['b']] ∧
      DeliversLines [['\r', '\n'], ['\n'], ['\r']] ['a', '\r', '\n', 'b'] (fun _ => 1) 8
        [['a'], [], ['b']] ∧
      ¬ ∃ lines,
        DeliversLines [['\r', '\n'], ['\n'], ['\r']] ['a', '\r', '\n', 'b'] (fun _ => 3) 8 lines ∧
        DeliversLines [['\r', '\n'], ['\n'], ['\r']] ['a', '\r', '\n', 'b'] (fun _ => 1) 8
          lines := by
  have hiff := fun cut lines => @deliversLines_iff [['\r', '\n'], ['\n'], ['\r']]
    (by decide) ['a', '\r', '\n', 'b'] cut 8 (by decide) (by decide) lines
  have hwhole : Yields [['\r', '\n'], ['\n'], ['\r']] (2 ^ 30)
      (.start ['a', '\r', '\n', 'b'] (fun _ => 3) 8) [['a'], ['b']] :=
    .read rfl rfl rfl (@Yields.found _ _ _ _ _ 1 2 false _ rfl
      (.read rfl rfl rfl (.last rfl rfl)))
  have hpairs : Yields [['\r', '\n'], ['\n'], ['\r']] (2 ^ 30)
      (.start ['a', '\r', '\n', 'b'] (fun _ => 1) 8) [['a'], [], ['b']] :=
    .read rfl rfl rfl (@Yields.found _ _ _ _ _ 1 1 true _ rfl
      (.read rfl rfl rfl (@Yields.found _ _ _ _ _ 0 1 false _ rfl
        (.read rfl rfl rfl (.last rfl rfl)))))
  rw [hiff, hiff]
  refine ⟨hwhole, hpairs, ?_⟩
  rintro ⟨lines, h, h'⟩
  rw [hiff] at h h'
  have heq := hwhole.unique h
  rw [← heq] at h'
  cases hpairs.unique h'

end Spartan
