import Mathlib.Algebra.Order.Group.Nat
import Mathlib.Logic.Relation
import SpartanLauncher.Lib.Alternation

/-!
# Splitting a text that arrives in chunks

A text is split at the matches of an alternation of literals while it is read, through a buffer
that grows when it is full of text without a match. The search sees what was read so far; when it
looked at the end of that on the way to a match, the text behind the match is not searched before
more was read, and at the end of the text it becomes one line.

* `Feed`: the text that was read, the text that is still to be read and how it will be cut.
* `Yields`: the lines that come out; there are none when the buffer cannot grow any more.
* `SafeRun`: on the way, no match is taken that the rest of the text changes, no match is left in
  the last line, and the buffer can grow.

**Theorem (`yields_split`).** A feed whose run is safe yields the pieces of its text.

**Theorem (`parts_agree_iff`).** The lines of the parts of a text depend neither on the size of the
buffer nor on the chunks exactly when all runs on them are safe.
-/

namespace ChunkedSplit

open Alternation

variable {α : Type*}

structure Feed (α : Type*) where
  /-- What was read and is not delivered. -/
  pending : List α
  rest : List α
  /-- The next chunks have at most `cut 0 + 1`, `cut 1 + 1`, … characters. -/
  cut : ℕ → ℕ
  size : ℕ
  /-- The end of the text was read. -/
  eof : Bool := false
  /-- The match in the pending text, and whether the search looked at its end. -/
  found : Option (ℕ × ℕ × Bool) := none

/-- A text as the last line. -/
def asLine (text : List α) : List (List α) := if text = [] then [] else [text]

/-! ## The steps -/

namespace Feed

variable [DecidableEq α]

def start (text : List α) (cut : ℕ → ℕ) (size : ℕ) : Feed α :=
  { pending := [], rest := text, cut := cut, size := size }

/-- The text that is not delivered yet. -/
def undelivered (s : Feed α) : List α := s.pending ++ s.rest

/-- Search the pending text. -/
def searched (alts : List (List α)) (s : Feed α) : Feed α :=
  { s with found := match search alts s.pending with
      | (some (skip, len), hitEnd) => some (skip, len, hitEnd)
      | (none, _) => none }

/-- The size of the buffer when more is read; sizes from `top` on cannot be doubled. -/
def grown (top : ℕ) (s : Feed α) : Option ℕ :=
  if s.pending.length < s.size then some s.size
  else if s.size < top then some (2 * s.size)
  else none

/-- Read the next chunk, or the end of the text, into a buffer of the given size. -/
def filled (alts : List (List α)) (s : Feed α) (size : ℕ) : Feed α :=
  if s.rest = [] then searched alts { s with size := size, eof := true }
  else
    let n := min (s.cut 0 + 1) (size - s.pending.length)
    searched alts { s with
      pending := s.pending ++ s.rest.take n
      rest := s.rest.drop n
      cut := fun i => s.cut (i + 1)
      size := size }

def read (alts : List (List α)) (top : ℕ) (s : Feed α) : Option (Feed α) :=
  (s.grown top).map (s.filled alts)

/-- Go on behind a match. -/
def taken (alts : List (List α)) (s : Feed α) (skip len : ℕ) (hitEnd : Bool) : Feed α :=
  let s := { s with pending := s.pending.drop (skip + len), found := none }
  if hitEnd then s else searched alts s

end Feed

/-- The lines that come out. -/
inductive Yields [DecidableEq α] (alts : List (List α)) (top : ℕ) :
    Feed α → List (List α) → Prop where
  | found {s : Feed α} {skip len : ℕ} {hitEnd : Bool} {lines : List (List α)}
      (hfound : s.found = some (skip, len, hitEnd))
      (hnext : Yields alts top (s.taken alts skip len hitEnd) lines) :
      Yields alts top s (s.pending.take skip :: lines)
  | read {s s' : Feed α} {lines : List (List α)} (hfound : s.found = none) (heof : s.eof = false)
      (hread : s.read alts top = some s') (hnext : Yields alts top s' lines) :
      Yields alts top s lines
  | last {s : Feed α} (hfound : s.found = none) (heof : s.eof = true) :
      Yields alts top s (asLine s.pending)

variable [DecidableEq α] {alts : List (List α)} {top : ℕ} {s : Feed α} {lines : List (List α)}

theorem yields_found_iff {skip len : ℕ} {hitEnd : Bool}
    (hfound : s.found = some (skip, len, hitEnd)) :
    Yields alts top s lines ↔ ∃ lines', lines = s.pending.take skip :: lines' ∧
      Yields alts top (s.taken alts skip len hitEnd) lines' := by
  refine ⟨?_, ?_⟩
  · intro h
    cases h with
    | found hfound' hnext =>
      cases hfound.symm.trans hfound'
      exact ⟨_, rfl, hnext⟩
    | read hfound' => cases hfound.symm.trans hfound'
    | last hfound' => cases hfound.symm.trans hfound'
  · rintro ⟨lines', rfl, hnext⟩
    exact .found hfound hnext

theorem yields_read_iff (hfound : s.found = none) (heof : s.eof = false) :
    Yields alts top s lines ↔ ∃ s', s.read alts top = some s' ∧ Yields alts top s' lines := by
  refine ⟨?_, ?_⟩
  · intro h
    cases h with
    | found hfound' => cases hfound.symm.trans hfound'
    | read _ _ hread hnext => exact ⟨_, hread, hnext⟩
    | last _ heof' => cases heof.symm.trans heof'
  · rintro ⟨s', hread, hnext⟩
    exact .read hfound heof hread hnext

theorem yields_last_iff (hfound : s.found = none) (heof : s.eof = true) :
    Yields alts top s lines ↔ lines = asLine s.pending := by
  refine ⟨?_, ?_⟩
  · intro h
    cases h with
    | found hfound' => cases hfound.symm.trans hfound'
    | read _ heof' => cases heof.symm.trans heof'
    | last => rfl
  · rintro rfl
    exact .last hfound heof

/-- Nothing is left. -/
structure Feed.Exhausted (s : Feed α) : Prop where
  found : s.found = none
  eof : s.eof = true
  pending : s.pending = []

theorem yields_exhausted_iff (h : s.Exhausted) : Yields alts top s lines ↔ lines = [] := by
  rw [yields_last_iff h.found h.eof, asLine, if_pos h.pending]

/-- A feed yields at most one list of lines. -/
theorem Yields.unique {lines' : List (List α)} (h : Yields alts top s lines)
    (h' : Yields alts top s lines') : lines = lines' := by
  induction h generalizing lines' with
  | found hfound hnext ih =>
    obtain ⟨_, rfl, hnext'⟩ := (yields_found_iff hfound).1 h'
    rw [ih hnext']
  | read hfound heof hread hnext ih =>
    obtain ⟨_, hread', hnext'⟩ := (yields_read_iff hfound heof).1 h'
    cases hread.symm.trans hread'
    exact ih hnext'
  | last hfound heof => exact ((yields_last_iff hfound heof).1 h').symm

/-! ## Reading -/

omit [DecidableEq α] in
theorem grown_spec {size : ℕ} (h : s.grown top = some size) (hlength : s.pending.length ≤ s.size)
    (hsize : 0 < s.size) :
    s.pending.length < size ∧ s.size ≤ size ∧ (s.size < 2 * top → size < 2 * top) := by
  unfold Feed.grown at h
  split_ifs at h with hroom htop
  · cases h
    exact ⟨hroom, le_rfl, id⟩
  · cases h
    omega

/-- A read at the end of the text. -/
theorem read_nil {s' : Feed α} (hrest : s.rest = []) (h : s.read alts top = some s') :
    ∃ size, s.grown top = some size ∧
      s' = Feed.searched alts { s with size := size, eof := true } := by
  obtain ⟨size, hgrown, rfl⟩ := Option.map_eq_some_iff.1 h
  exact ⟨size, hgrown, if_pos hrest⟩

/-- Any other read. -/
theorem read_text {s' : Feed α} (hrest : s.rest ≠ []) (h : s.read alts top = some s') :
    ∃ size n, s.grown top = some size ∧ n = min (s.cut 0 + 1) (size - s.pending.length) ∧
      s' = Feed.searched alts { s with
        pending := s.pending ++ s.rest.take n
        rest := s.rest.drop n
        cut := fun i => s.cut (i + 1)
        size := size } := by
  obtain ⟨size, hgrown, rfl⟩ := Option.map_eq_some_iff.1 h
  exact ⟨size, _, hgrown, rfl, if_neg hrest⟩

/-! ## A search of the pending text -/

theorem found_searched_some {skip len : ℕ} {hitEnd : Bool}
    (h : search alts s.pending = (some (skip, len), hitEnd)) :
    (s.searched alts).found = some (skip, len, hitEnd) := by
  simp only [Feed.searched, h]

theorem found_searched_none (h : (search alts s.pending).1 = none) :
    (s.searched alts).found = none := by
  rcases hsearch : search alts s.pending with ⟨_ | _, hitEnd⟩
  · simp only [Feed.searched, hsearch]
  · rw [hsearch] at h
    cases h

theorem search_of_found {skip len : ℕ} {hitEnd : Bool}
    (h : (s.searched alts).found = some (skip, len, hitEnd)) :
    search alts s.pending = (some (skip, len), hitEnd) := by
  rcases hsearch : search alts s.pending with ⟨_ | ⟨skip', len'⟩, hitEnd'⟩
  · simp only [Feed.searched, hsearch] at h
    cases h
  · rw [found_searched_some hsearch] at h
    cases h
    rfl

theorem search_of_not_found (h : (s.searched alts).found = none) :
    (search alts s.pending).1 = none := by
  rcases hsearch : search alts s.pending with ⟨_ | ⟨skip, len⟩, hitEnd⟩
  · rfl
  · rw [found_searched_some hsearch] at h
    cases h

/-- Behind a match at the end there is nothing to search. -/
theorem taken_at_end {skip len : ℕ} (hitEnd : Bool) (h : s.pending.length ≤ skip + len) :
    s.taken alts skip len hitEnd = { s with pending := [], found := none } := by
  have hdrop : s.pending.drop (skip + len) = [] := List.drop_eq_nil_of_le h
  unfold Feed.taken
  rw [hdrop]
  cases hitEnd <;> rfl

/-! ## The states on the way -/

/-- The next step: take the match, read on, or stop. -/
def Feed.step (alts : List (List α)) (top : ℕ) (s : Feed α) : Option (Feed α) :=
  match s.found with
  | some (skip, len, hitEnd) => some (s.taken alts skip len hitEnd)
  | none => if s.eof then none else s.read alts top

theorem step_of_found {skip len : ℕ} {hitEnd : Bool} (hfound : s.found = some (skip, len, hitEnd)) :
    s.step alts top = some (s.taken alts skip len hitEnd) := by
  rw [Feed.step, hfound]

theorem step_of_read (hfound : s.found = none) (heof : s.eof = false) :
    s.step alts top = s.read alts top := by
  rw [Feed.step, hfound]
  exact if_neg (by rw [heof]; exact Bool.false_ne_true)

theorem step_of_last (hfound : s.found = none) (heof : s.eof = true) :
    s.step alts top = none := by
  rw [Feed.step, hfound]
  exact if_pos heof

/-- The feeds of an object: what was read fits into the buffer, and the match is that of it. -/
structure Feed.WellFormed (alts : List (List α)) (s : Feed α) : Prop where
  size_pos : 0 < s.size
  length_le : s.pending.length ≤ s.size
  rest : s.eof = true → s.rest = []
  found : ∀ skip len hitEnd, s.found = some (skip, len, hitEnd) →
    search alts s.pending = (some (skip, len), hitEnd)

theorem wellFormed_start (text : List α) (cut : ℕ → ℕ) {size : ℕ} (hpos : 0 < size) :
    (Feed.start text cut size).WellFormed alts := ⟨hpos, Nat.zero_le _, nofun, nofun⟩

/-- A bound on the steps. -/
def Feed.left (s : Feed α) : ℕ :=
  s.pending.length + 2 * s.rest.length + if s.eof then 0 else 1

namespace Feed.WellFormed

theorem searched (h : s.WellFormed alts) : (s.searched alts).WellFormed alts :=
  ⟨h.size_pos, h.length_le, h.rest, fun _ _ _ hfound => search_of_found hfound⟩

theorem undelivered_of_eof (h : s.WellFormed alts) (heof : s.eof = true) :
    s.undelivered = s.pending := by
  rw [Feed.undelivered, h.rest heof, List.append_nil]

/-- The match of the pending text lies within it. -/
theorem bounds (h : s.WellFormed alts) (halts : ∀ lit ∈ alts, lit ≠ []) {skip len : ℕ}
    {hitEnd : Bool} (hfound : s.found = some (skip, len, hitEnd)) :
    skip + len ≤ s.pending.length ∧ 0 < len :=
  search_bounds halts (congrArg Prod.fst (h.found skip len hitEnd hfound))

/-- What was found without looking at the end is the match of the rest of the text, too. -/
theorem search_undelivered (h : s.WellFormed alts) {skip len : ℕ}
    (hfound : s.found = some (skip, len, false)) :
    (search alts s.undelivered).1 = some (skip, len) :=
  congrArg Prod.fst (search_append (h.found skip len false hfound))

theorem taken (h : s.WellFormed alts) (halts : ∀ lit ∈ alts, lit ≠ []) {skip len : ℕ}
    {hitEnd : Bool} (hfound : s.found = some (skip, len, hitEnd)) :
    (s.taken alts skip len hitEnd).WellFormed alts ∧
      (s.taken alts skip len hitEnd).undelivered = s.undelivered.drop (skip + len) ∧
      (s.taken alts skip len hitEnd).left < s.left := by
  obtain ⟨hle, hpos⟩ := h.bounds halts hfound
  have hshorter : (s.pending.drop (skip + len)).length < s.pending.length := by
    rw [List.length_drop]
    omega
  have hbase : Feed.WellFormed alts
      { s with pending := s.pending.drop (skip + len), found := none } :=
    ⟨h.size_pos, hshorter.le.trans h.length_le, h.rest, nofun⟩
  have htext : s.pending.drop (skip + len) ++ s.rest = s.undelivered.drop (skip + len) :=
    (List.drop_append_of_le_length hle).symm
  have hleft : ∀ found,
      Feed.left { s with pending := s.pending.drop (skip + len), found := found } < s.left :=
    fun _ => Nat.add_lt_add_right (Nat.add_lt_add_right hshorter _) _
  cases hitEnd with
  | true => exact ⟨hbase, htext, hleft none⟩
  | false => exact ⟨hbase.searched, htext, hleft _⟩

theorem read {s' : Feed α} (h : s.WellFormed alts) (heof : s.eof = false)
    (hread : s.read alts top = some s') :
    s'.WellFormed alts ∧ s'.undelivered = s.undelivered ∧ s'.left < s.left ∧
      (s.size < 2 * top → s'.size < 2 * top) := by
  by_cases hrest : s.rest = []
  · obtain ⟨size, hgrown, rfl⟩ := read_nil hrest hread
    obtain ⟨hroom, hle, hlt⟩ := grown_spec hgrown h.length_le h.size_pos
    have hbase : Feed.WellFormed alts { s with size := size, eof := true } :=
      ⟨h.size_pos.trans_le hle, hroom.le, fun _ => hrest, h.found⟩
    refine ⟨hbase.searched, rfl, ?_, hlt⟩
    simp only [Feed.left, Feed.searched, heof, if_true, Bool.false_eq_true, if_false]
    omega
  · obtain ⟨size, n, hgrown, hn, rfl⟩ := read_text hrest hread
    obtain ⟨hroom, hle, hlt⟩ := grown_spec hgrown h.length_le h.size_pos
    have hpos := List.length_pos_iff.2 hrest
    have hfits : (s.pending ++ s.rest.take n).length ≤ size := by
      rw [List.length_append, List.length_take]
      omega
    refine ⟨⟨h.size_pos.trans_le hle, hfits, fun heof' => ?_, fun _ _ _ hfound =>
      search_of_found hfound⟩, ?_, ?_, hlt⟩
    · cases heof.symm.trans heof'
    · show s.pending ++ s.rest.take n ++ s.rest.drop n = s.pending ++ s.rest
      rw [List.append_assoc, List.take_append_drop]
    · simp only [Feed.left, Feed.searched, heof, List.length_append, List.length_take,
        List.length_drop, Bool.false_eq_true, if_false]
      omega

end Feed.WellFormed

/-! ## Safe runs -/

/-- The next step does what it would do if all of the text had been read. -/
structure Feed.Safe (alts : List (List α)) (top : ℕ) (s : Feed α) : Prop where
  /-- A match found after looking at the end of what was read is that of the rest of the text. -/
  kept : ∀ skip len, s.found = some (skip, len, true) →
    (search alts s.undelivered).1 = some (skip, len)
  /-- The last line has no match. -/
  last : s.found = none → s.eof = true → (search alts s.pending).1 = none
  /-- There is room for the next read. -/
  room : s.found = none → s.eof = false → s.read alts top ≠ none

/-- All steps on the way are safe. -/
def SafeRun (alts : List (List α)) (top : ℕ) (s : Feed α) : Prop :=
  ∀ s', Relation.ReflTransGen (fun t t' => Feed.step alts top t = some t') s s' → s'.Safe alts top

namespace SafeRun

theorem safe (h : SafeRun alts top s) : s.Safe alts top := h s .refl

theorem next {s' : Feed α} (h : SafeRun alts top s) (hstep : s.step alts top = some s') :
    SafeRun alts top s' := fun _ hreach => h _ (.head hstep hreach)

theorem of_next {s' : Feed α} (hsafe : s.Safe alts top) (hstep : s.step alts top = some s')
    (hnext : SafeRun alts top s') : SafeRun alts top s := by
  intro t hreach
  rcases hreach.cases_head with rfl | ⟨t', hstep', hreach'⟩
  · exact hsafe
  · cases hstep.symm.trans hstep'
    exact hnext t hreach'

theorem of_last (hsafe : s.Safe alts top) (hstep : s.step alts top = none) :
    SafeRun alts top s := by
  intro t hreach
  rcases hreach.cases_head with rfl | ⟨t', hstep', -⟩
  · exact hsafe
  · cases hstep.symm.trans hstep'

end SafeRun

/-- The rule for an invariant that makes the steps safe. -/
theorem safeRun_of_invariant {I : Feed α → Prop} (hsafe : ∀ t, I t → t.Safe alts top)
    (hstep : ∀ t t', I t → t.step alts top = some t' → I t') (hs : I s) :
    SafeRun alts top s := by
  intro s' hreach
  have hI : I s' := by
    induction hreach with
    | refl => exact hs
    | tail _ hnext ih => exact hstep _ _ ih hnext
  exact hsafe s' hI

/-- **The run lemma.** A feed whose run is safe yields the pieces of its text. -/
theorem yields_split (halts : ∀ lit ∈ alts, lit ≠ []) (hs : s.WellFormed alts)
    (h : SafeRun alts top s) : Yields alts top s (split alts s.undelivered) := by
  induction hmeasure : s.left using Nat.strong_induction_on generalizing s with
  | _ measure ih =>
    cases hfound : s.found with
    | some found =>
      obtain ⟨skip, len, hitEnd⟩ := found
      obtain ⟨hnext, htext, hless⟩ := hs.taken halts hfound
      obtain ⟨hle, -⟩ := hs.bounds halts hfound
      have hmatch : (search alts s.undelivered).1 = some (skip, len) := by
        cases hitEnd with
        | true => exact h.safe.kept skip len hfound
        | false => exact hs.search_undelivered hfound
      have htake : s.undelivered.take skip = s.pending.take skip :=
        List.take_append_of_le_length (by omega)
      rw [split_of_some halts hmatch, htake, ← htext]
      exact .found hfound (ih _ (hmeasure ▸ hless) hnext (h.next (step_of_found hfound)) rfl)
    | none =>
      cases heof : s.eof with
      | true =>
        rw [hs.undelivered_of_eof heof, split_of_none (h.safe.last hfound heof)]
        exact .last hfound heof
      | false =>
        obtain ⟨s', hread⟩ := Option.ne_none_iff_exists'.1 (h.safe.room hfound heof)
        obtain ⟨hnext, htext, hless, -⟩ := hs.read heof hread
        rw [← htext]
        exact .read hfound heof hread
          (ih _ (hmeasure ▸ hless) hnext (h.next ((step_of_read hfound heof).trans hread)) rfl)

/-! ## Matches that do not depend on what follows -/

/-- The steps of a feed for an expression whose matches are never found after looking at the end. -/
structure Settled (alts : List (List α)) (top : ℕ) (s : Feed α) : Prop where
  wellFormed : s.WellFormed alts
  searched : s.found = none → (search alts s.pending).1 = none
  length_lt : s.undelivered.length < top

theorem Settled.safe (hhit : ∀ text found, search alts text ≠ (some found, true))
    (h : Settled alts top s) : s.Safe alts top where
  kept skip len hfound := absurd (h.wellFormed.found skip len true hfound) (hhit _ _)
  last hfound _ := h.searched hfound
  room _ _ := by
    have hlength := h.length_lt
    have hle := h.wellFormed.length_le
    rw [Feed.undelivered, List.length_append] at hlength
    unfold Feed.read Feed.grown
    split_ifs
    · exact Option.some_ne_none _
    · exact Option.some_ne_none _
    · omega

theorem Settled.step {s' : Feed α} (halts : ∀ lit ∈ alts, lit ≠ [])
    (hhit : ∀ text found, search alts text ≠ (some found, true)) (h : Settled alts top s)
    (hstep : s.step alts top = some s') : Settled alts top s' := by
  cases hfound : s.found with
  | some found =>
    obtain ⟨skip, len, hitEnd⟩ := found
    cases (step_of_found hfound).symm.trans hstep
    obtain ⟨hnext, htext, -⟩ := h.wellFormed.taken halts hfound
    cases hitEnd with
    | true => exact absurd (h.wellFormed.found skip len true hfound) (hhit _ _)
    | false =>
      refine ⟨hnext, search_of_not_found, ?_⟩
      rw [htext, List.length_drop]
      exact (Nat.sub_le _ _).trans_lt h.length_lt
  | none =>
    cases heof : s.eof with
    | true => cases (step_of_last hfound heof).symm.trans hstep
    | false =>
      have hread := (step_of_read hfound heof).symm.trans hstep
      obtain ⟨hnext, htext, -⟩ := h.wellFormed.read heof hread
      refine ⟨hnext, ?_, htext ▸ h.length_lt⟩
      obtain ⟨size, -, rfl⟩ := Option.map_eq_some_iff.1 hread
      unfold Feed.filled
      split_ifs
      · exact search_of_not_found
      · exact search_of_not_found

/-- Where no match is found after looking at the end, the runs on texts that fit are safe. -/
theorem safeRun_of_not_hitEnd (halts : ∀ lit ∈ alts, lit ≠ [])
    (hhit : ∀ text found, search alts text ≠ (some found, true)) {text : List α} {size : ℕ}
    (hpos : 0 < size) (hlength : text.length < top) (cut : ℕ → ℕ) :
    SafeRun alts top (.start text cut size) :=
  safeRun_of_invariant (fun _ => Settled.safe hhit) (fun _ _ => Settled.step halts hhit)
    ⟨wellFormed_start text cut hpos, fun _ => rfl, hlength⟩

/-! ## The parts of a text -/

/-- The parts of the text have the lines `L`, whatever the size of the buffer and the chunks. -/
def Agreed (alts : List (List α)) (top : ℕ) (text : List α) (L : List α → List (List α)) : Prop :=
  ∀ part, part <:+: text → ∀ n cut, 0 < n → n < 2 * top →
    Yields alts top (.start part cut n) (L part)

/-- A first chunk, in front of others. -/
def consCut (n : ℕ) (cut : ℕ → ℕ) : ℕ → ℕ
  | 0 => n
  | i + 1 => cut i

/-- The first read of a text that is not empty. -/
theorem yields_start_iff {text : List α} {n k : ℕ} {cut : ℕ → ℕ} (htext : text ≠ [])
    (hpos : 0 < n) (hk : k = min (cut 0 + 1) n) :
    Yields alts top (.start text cut n) lines ↔
      Yields alts top (Feed.searched alts
        ⟨text.take k, text.drop k, fun i => cut (i + 1), n, false, none⟩) lines := by
  have hgrown : (Feed.start text cut n).grown top = some n := if_pos hpos
  have hread : (Feed.start text cut n).read alts top = some (Feed.searched alts
      ⟨text.take k, text.drop k, fun i => cut (i + 1), n, false, none⟩) := by
    rw [Feed.read, hgrown, Option.map_some, hk]
    exact congrArg some (if_neg htext)
  rw [yields_read_iff rfl rfl]
  constructor
  · rintro ⟨s', hread', hnext⟩
    cases hread.symm.trans hread'
    exact hnext
  · exact fun hnext => ⟨_, hread, hnext⟩

variable {text : List α} {skip len : ℕ}

/-- What is yielded when the first chunk ends with a match. -/
theorem yields_first (halts : ∀ lit ∈ alts, lit ≠ []) {n : ℕ} {cut : ℕ → ℕ}
    (hmatch : (search alts (text.take (skip + len))).1 = some (skip, len)) (hle : skip + len ≤ n)
    (h : Yields alts top (.start text (consCut (skip + len - 1) cut) n) lines) :
    ∃ lines', lines = text.take skip :: lines' ∧
      Yields alts top (.start (text.drop (skip + len)) cut n) lines' := by
  have hpos := (search_bounds halts hmatch).2
  have htext : text ≠ [] := by
    rintro rfl
    rw [List.take_nil] at hmatch
    cases hmatch
  have hk : skip + len = min (consCut (skip + len - 1) cut 0 + 1) n := by
    show skip + len = min (skip + len - 1 + 1) n
    omega
  rw [yields_start_iff htext (by omega) hk] at h
  rcases hsearch : search alts (text.take (skip + len)) with ⟨_ | ⟨skip', len'⟩, hitEnd⟩
  · rw [hsearch] at hmatch
    cases hmatch
  · rw [hsearch] at hmatch
    cases hmatch
    obtain ⟨lines', rfl, hnext⟩ := (yields_found_iff (found_searched_some hsearch)).1 h
    rw [taken_at_end hitEnd (List.length_take_le _ _)] at hnext
    refine ⟨lines', ?_, hnext⟩
    show (text.take (skip + len)).take skip :: lines' = _
    rw [List.take_take, Nat.min_eq_left (Nat.le_add_right _ _)]

/-- A text that is not empty yields a line. -/
theorem undelivered_of_yields_nil (hs : s.WellFormed alts) (h : Yields alts top s []) :
    s.undelivered = [] := by
  generalize hlines : ([] : List (List α)) = lines at h
  induction h with
  | found => cases hlines
  | read hfound heof hread hnext ih =>
    obtain ⟨hwf, htext, -⟩ := hs.read heof hread
    exact htext ▸ ih hwf hlines
  | last hfound heof =>
    rw [hs.undelivered_of_eof heof]
    unfold asLine at hlines
    split_ifs at hlines with hnil
    exact hnil

/-- An empty text yields nothing. -/
theorem yields_start_nil {n : ℕ} {cut : ℕ → ℕ} : Yields alts top (.start [] cut (n + 1)) [] := by
  have hgrown : (Feed.start ([] : List α) cut (n + 1)).grown top = some (n + 1) :=
    if_pos (Nat.succ_pos n)
  have hread : (Feed.start [] cut (n + 1)).read alts top =
      some (Feed.searched alts ⟨[], [], cut, n + 1, true, none⟩) := by
    rw [Feed.read, hgrown, Option.map_some]
    rfl
  exact .read rfl rfl hread (.last rfl rfl)

namespace Agreed

variable {L : List α → List (List α)} {part : List α}

/-- The lines of a part whose beginning has a match. -/
theorem first (h : Agreed alts top text L) (halts : ∀ lit ∈ alts, lit ≠ []) (hpart : part <:+: text)
    (hmatch : (search alts (part.take (skip + len))).1 = some (skip, len))
    (hlt : skip + len < 2 * top) :
    L part = part.take skip :: L (part.drop (skip + len)) := by
  have hpos := (search_bounds halts hmatch).2
  obtain ⟨lines, hlines, hnext⟩ := yields_first halts hmatch le_rfl
    (h part hpart (skip + len) (consCut _ fun _ => 0) (by omega) hlt)
  have hrest := h (part.drop (skip + len)) ((List.drop_suffix _ _).isInfix.trans hpart) (skip + len)
    (fun _ => 0) (by omega) hlt
  rw [hlines, hnext.unique hrest]

theorem eq_nil (h : Agreed alts top text L) (htop : 0 < top) (hpart : part <:+: text)
    (hnil : L part = []) : part = [] := by
  have hyields := h part hpart 1 (fun _ => 0) Nat.one_pos (by omega)
  rw [hnil] at hyields
  exact undelivered_of_yields_nil (wellFormed_start part _ Nat.one_pos) hyields

/-- No match ends within the first match of a part, if that begins with the part. -/
theorem len_le (h : Agreed alts top text L) (halts : ∀ lit ∈ alts, lit ≠ [])
    (hpart : part <:+: text) {len' : ℕ} (hlt : len' < 2 * top)
    (hwhole : (search alts part).1 = some (0, len'))
    (hmatch : (search alts (part.take (skip + len))).1 = some (skip, len)) : len' ≤ skip + len := by
  by_contra hless
  have hbound := (search_bounds halts hwhole).1
  have hlength : (part.take len').length = len' := List.length_take_of_le (by omega)
  have hpart' : part.take len' <:+: text := (List.take_prefix _ _).isInfix.trans hpart
  have htake : (part.take len').take (skip + len) = part.take (skip + len) := by
    rw [List.take_take, Nat.min_eq_left (by omega)]
  -- read at once, the beginning of the part is one empty line
  have hall : (search alts ((part.take len').take (0 + len'))).1 = some (0, len') := by
    have hself := search_take_self halts hwhole
    rw [Nat.zero_add] at hself ⊢
    rw [List.take_take, Nat.min_self, hself]
  have hone := h.first halts hpart' hall (by omega)
  -- read up to the other match, it is a line in front of others
  have htwo := h.first halts hpart' (htake.symm ▸ hmatch) (by omega)
  have hend : (part.take len').drop (0 + len') = [] := List.drop_eq_nil_of_le (by omega)
  have hnil : L [] = [] :=
    (h [] List.nil_infix 1 (fun _ => 0) Nat.one_pos (by omega)).unique yields_start_nil
  rw [hone, hend, hnil] at htwo
  have hrest := h.eq_nil (by omega) ((List.drop_suffix _ _).isInfix.trans hpart')
    (List.cons.inj htwo).2.symm
  have hle := List.drop_eq_nil_iff.1 hrest
  omega

/-- A feed of a part that yields the lines of its text. -/
structure Tracks (alts : List (List α)) (top : ℕ) (text : List α) (L : List α → List (List α))
    (s : Feed α) : Prop where
  wellFormed : s.WellFormed alts
  part : s.undelivered <:+: text
  size_lt : s.size < 2 * top
  yields : Yields alts top s (L s.undelivered)

/-- The match of the pending text ends a line. -/
theorem Tracks.first (hs : Tracks alts top text L s) (h : Agreed alts top text L)
    (halts : ∀ lit ∈ alts, lit ≠ []) {hitEnd : Bool} (hfound : s.found = some (skip, len, hitEnd)) :
    L s.undelivered = s.undelivered.take skip :: L (s.undelivered.drop (skip + len)) := by
  obtain ⟨hle, -⟩ := hs.wellFormed.bounds halts hfound
  have hlength := hs.wellFormed.length_le
  have hsize := hs.size_lt
  refine h.first halts hs.part ?_ (by omega)
  rw [Feed.undelivered, List.take_append_of_le_length hle]
  exact search_take_self halts (congrArg Prod.fst (hs.wellFormed.found skip len hitEnd hfound))

theorem Tracks.step {s' : Feed α} (hs : Tracks alts top text L s) (h : Agreed alts top text L)
    (halts : ∀ lit ∈ alts, lit ≠ []) (hstep : s.step alts top = some s') :
    Tracks alts top text L s' := by
  cases hfound : s.found with
  | some found =>
    obtain ⟨skip, len, hitEnd⟩ := found
    cases (step_of_found hfound).symm.trans hstep
    obtain ⟨hwf, htext, -⟩ := hs.wellFormed.taken halts hfound
    obtain ⟨lines, hlines, hyields⟩ := (yields_found_iff hfound).1 hs.yields
    rw [hs.first h halts hfound] at hlines
    refine ⟨hwf, ?_, ?_, ?_⟩
    · rw [htext]
      exact (List.drop_suffix _ _).isInfix.trans hs.part
    · cases hitEnd <;> exact hs.size_lt
    · rw [htext, (List.cons.inj hlines).2]
      exact hyields
  | none =>
    cases heof : s.eof with
    | true => cases (step_of_last hfound heof).symm.trans hstep
    | false =>
      have hread := (step_of_read hfound heof).symm.trans hstep
      obtain ⟨hwf, htext, -, hlt⟩ := hs.wellFormed.read heof hread
      obtain ⟨s'', hread', hyields⟩ := (yields_read_iff hfound heof).1 hs.yields
      cases hread.symm.trans hread'
      exact ⟨hwf, htext ▸ hs.part, hlt hs.size_lt, htext ▸ hyields⟩

theorem Tracks.kept (hs : Tracks alts top text L s) (h : Agreed alts top text L)
    (halts : ∀ lit ∈ alts, lit ≠ []) (hlength : ∀ lit ∈ alts, lit.length < 2 * top) {hitEnd : Bool}
    (hfound : s.found = some (skip, len, hitEnd)) :
    (search alts s.undelivered).1 = some (skip, len) := by
  have hmatch : (search alts s.pending).1 = some (skip, len) :=
    congrArg Prod.fst (hs.wellFormed.found skip len hitEnd hfound)
  have hle := (search_bounds halts hmatch).1
  obtain ⟨skip', len', hmatch', hskip⟩ := exists_search_append s.rest hmatch
  obtain ⟨lit, hlit, hlen⟩ := exists_literal_of_search hmatch'
  -- from where the match of the whole text begins, both matches are seen
  have hwhole := search_drop hmatch' le_rfl
  rw [Nat.sub_self] at hwhole
  have hother := search_take_self halts (search_drop hmatch hskip)
  have htake : ((s.pending ++ s.rest).drop skip').take (skip - skip' + len) =
      (s.pending.drop skip').take (skip - skip' + len) := by
    rw [List.drop_append_of_le_length (by omega),
      List.take_append_of_le_length (by rw [List.length_drop]; omega)]
  have hbound := h.len_le halts ((List.drop_suffix _ _).isInfix.trans hs.part)
    (hlen ▸ hlength lit hlit) hwhole (htake.symm ▸ hother)
  rw [Feed.undelivered, hmatch', ← hmatch]
  exact (search_take hmatch' (by omega) (search_bounds halts hmatch').2).symm

theorem Tracks.last (hs : Tracks alts top text L s) (h : Agreed alts top text L)
    (halts : ∀ lit ∈ alts, lit ≠ []) (hfound : s.found = none) (heof : s.eof = true) :
    (search alts s.pending).1 = none := by
  by_contra hmatch
  obtain ⟨⟨skip, len⟩, hmatch⟩ := Option.ne_none_iff_exists'.1 hmatch
  obtain ⟨hle, hpos⟩ := search_bounds halts hmatch
  have hlength := hs.wellFormed.length_le
  have hsize := hs.size_lt
  have hlines := (yields_last_iff hfound heof).1 hs.yields
  have hpart := hs.part
  rw [hs.wellFormed.undelivered_of_eof heof] at hlines hpart
  rw [h.first halts hpart (search_take_self halts hmatch) (by omega)] at hlines
  unfold asLine at hlines
  split_ifs at hlines with hnil
  have hline := congrArg List.length (List.cons.inj hlines).1
  rw [List.length_take] at hline
  omega

theorem Tracks.safe (hs : Tracks alts top text L s) (h : Agreed alts top text L)
    (halts : ∀ lit ∈ alts, lit ≠ []) (hlength : ∀ lit ∈ alts, lit.length < 2 * top) :
    s.Safe alts top where
  kept skip len hfound := hs.kept h halts hlength hfound
  last hfound heof := hs.last h halts hfound heof
  room hfound heof := by
    obtain ⟨s', hread, -⟩ := (yields_read_iff hfound heof).1 hs.yields
    rw [hread]
    exact Option.some_ne_none s'

theorem safeRun (h : Agreed alts top text L) (halts : ∀ lit ∈ alts, lit ≠ [])
    (hlength : ∀ lit ∈ alts, lit.length < 2 * top) (hpart : part <:+: text) {n : ℕ} (cut : ℕ → ℕ)
    (hpos : 0 < n) (hlt : n < 2 * top) : SafeRun alts top (.start part cut n) :=
  safeRun_of_invariant (I := Tracks alts top text L) (fun _ hs => hs.safe h halts hlength)
    (fun _ _ hs => hs.step h halts)
    ⟨wellFormed_start part cut hpos, hpart, hlt, h part hpart n cut hpos hlt⟩

end Agreed

/-- **Independence of the chunks.** All parts of a text yield lines that do not depend on the size
of the buffer and the chunks exactly when all runs on them are safe. -/
theorem parts_agree_iff (halts : ∀ lit ∈ alts, lit ≠ [])
    (hlength : ∀ lit ∈ alts, lit.length < 2 * top) (text : List α) :
    (∀ part, part <:+: text → ∃ lines, ∀ n cut, 0 < n → n < 2 * top →
      Yields alts top (.start part cut n) lines) ↔
    ∀ part, part <:+: text → ∀ n cut, 0 < n → n < 2 * top →
      SafeRun alts top (.start part cut n) := by
  constructor
  · intro h part hpart n cut hpos hlt
    choose! L hL using h
    exact Agreed.safeRun (L := L) hL halts hlength hpart cut hpos hlt
  · exact fun h part hpart => ⟨split alts part, fun n cut hpos hlt =>
      yields_split halts (wellFormed_start part cut hpos) (h part hpart n cut hpos hlt)⟩

end ChunkedSplit
