import SpartanLauncher.LineSplitting

/-!
# `ReadLine` splits its text into lines

**Theorem (`readLine_splits_iff`).** With the default end-of-line expression, whatever the text,
the way the reader cuts it and the calls, `readLine()` delivers the pieces of the text between the
matches of the expression, each again after `wasLineLookAhead()`, and null at the end, exactly
when every line is shorter than the largest buffer.

* `LineSource`: what the calls do to an abstract list of lines.
* `ReadLine.Follows`: the object stands for a `LineSource`; each call keeps it (`readLine_spec`).
-/

namespace Spartan

open CString Alternation

/-! ## The default end-of-line expression -/

theorem matchHere_default_none {text : List Char} (h : '\n' ∉ text) :
    (matchHere defaultEolRegEx text).1 = none := by
  have hnot : ∀ lit ∈ defaultEolRegEx, ¬ lit.isPrefixOf text = true := by
    intro lit hlit hprefix
    have hmem : '\n' ∈ lit := by
      simp only [defaultEolRegEx, List.mem_cons, List.not_mem_nil, or_false] at hlit
      rcases hlit with rfl | rfl <;> decide
    exact h ((List.isPrefixOf_iff_prefix.1 hprefix).subset hmem)
  simp only [defaultEolRegEx, List.mem_cons, List.not_mem_nil, or_false, forall_eq_or_imp,
    forall_eq] at hnot
  simp [defaultEolRegEx, matchHere, hnot.1, hnot.2]

theorem search_default_none {text : List Char} (h : '\n' ∉ text) :
    (search defaultEolRegEx text).1 = none := by
  induction text with
  | nil => rfl
  | cons c text ih =>
    have hhere := matchHere_default_none h
    simp only [search]
    split
    · next heq => rw [heq] at hhere; cases hhere
    · simp [ih (fun hmem => h (List.mem_cons_of_mem c hmem))]

/-- The first match ends behind the first newline. -/
theorem search_default_some {line : List Char} (rest : List Char) (h : '\n' ∉ line) :
    ∃ skip len, search defaultEolRegEx (line ++ '\n' :: rest) = (some (skip, len), false) ∧
      skip + len = line.length + 1 := by
  induction line with
  | nil => exact ⟨0, 1, by simp [search, matchHere, defaultEolRegEx, List.isPrefixOf], rfl⟩
  | cons c line ih =>
    obtain ⟨hc, hline⟩ := List.ne_and_not_mem_of_not_mem_cons h
    obtain ⟨skip, len, hsearch, hlength⟩ := ih hline
    by_cases hcr : c = '\r' ∧ line = []
    · obtain ⟨rfl, rfl⟩ := hcr
      exact ⟨0, 2, by simp [search, matchHere, defaultEolRegEx, List.isPrefixOf], rfl⟩
    · refine ⟨skip + 1, len, ?_, by simp only [List.length_cons]; omega⟩
      have hhere : matchHere defaultEolRegEx (c :: (line ++ '\n' :: rest)) = (none, false) := by
        cases line with
        | nil =>
          have hcr' : c ≠ '\r' := fun heq => hcr ⟨heq, rfl⟩
          simp [matchHere, defaultEolRegEx, List.isPrefixOf, hc, hcr', hcr'.symm]
        | cons d line =>
          have hd := (List.ne_and_not_mem_of_not_mem_cons hline).1
          simp [matchHere, defaultEolRegEx, List.isPrefixOf, hc, hd]
      rw [List.cons_append, search, hhere]
      simp [hsearch]

theorem determined_default : Determined defaultEolRegEx := by
  refine ⟨by decide, ?_⟩
  intro text skip len hitEnd hsearch
  by_cases hmem : '\n' ∈ text
  · obtain ⟨line, rest, rfl, hline⟩ := List.eq_append_cons_of_mem hmem
    obtain ⟨skip', len', hsearch', -⟩ := search_default_some rest hline
    rw [hsearch'] at hsearch
    exact (Prod.mk.inj hsearch).2.symm
  · have hnone := search_default_none hmem
    rw [hsearch] at hnone
    cases hnone

/-! ## Lines that fit -/

/-- The buffer, which grows up to the bound, can hold each line. -/
inductive Fits (eol : List (List Char)) (bound : ℕ) : List Char → Prop where
  | last {text : List Char} (h : nextLine eol text = none) : Fits eol bound text
  | line {text line rest : List Char} (h : nextLine eol text = some (line, rest))
      (hneed : need eol text ≤ bound) (hrest : Fits eol bound rest) : Fits eol bound text

theorem Fits.need_le {eol : List (List Char)} {bound : ℕ} {text : List Char}
    (h : Fits eol bound text) (hbound : 0 < bound) : need eol text ≤ bound := by
  cases h with
  | last h =>
    unfold nextLine at h
    unfold need
    split at h
    · cases h
    · next heq =>
      have hnil : text = [] := by simpa using h
      rw [hnil]
      exact hbound
  | line _ hneed _ => exact hneed

theorem length_lt_of_nextLine {eol : List (List Char)} (heol : Determined eol)
    {text line rest : List Char} (h : nextLine eol text = some (line, rest)) :
    rest.length < text.length := by
  unfold nextLine at h
  split at h
  · next skip len heq =>
    have hbounds := search_bounds heol.ne_nil heq
    cases h
    rw [List.length_drop]
    omega
  · next heq =>
    rw [Option.ite_none_left_eq_some] at h
    obtain ⟨hne, h⟩ := h
    cases h
    exact List.length_pos_iff.2 hne

theorem fits_iff_of_nextLine {eol : List (List Char)} {bound : ℕ} {text line rest : List Char}
    (h : nextLine eol text = some (line, rest)) :
    Fits eol bound text ↔ need eol text ≤ bound ∧ Fits eol bound rest := by
  refine ⟨?_, ?_⟩
  · rintro (h' | ⟨h', hneed, hrest⟩)
    · rw [h] at h'
      cases h'
    · rw [h] at h'
      cases h'
      exact ⟨hneed, hrest⟩
  · intro h
    obtain ⟨hneed, hrest⟩ := h
    exact .line h hneed hrest

theorem nextLine_default_some {line : List Char} (rest : List Char) (h : '\n' ∉ line) :
    (∃ line', nextLine defaultEolRegEx (line ++ '\n' :: rest) = some (line', rest)) ∧
      need defaultEolRegEx (line ++ '\n' :: rest) = line.length + 1 := by
  obtain ⟨skip, len, hsearch, hlength⟩ := search_default_some rest h
  unfold nextLine need
  rw [hsearch]
  refine ⟨⟨(line ++ '\n' :: rest).take skip, ?_⟩, hlength⟩
  simp only [hlength, Option.some.injEq, Prod.mk.injEq, true_and]
  simp

theorem nextLine_default_none {text : List Char} (h : '\n' ∉ text) :
    nextLine defaultEolRegEx text = (if text = [] then none else some (text, [])) ∧
      need defaultEolRegEx text = text.length + 1 := by
  unfold nextLine need
  rw [search_default_none h]
  exact ⟨rfl, rfl⟩

/-- With the default expression, a line counts up to its newline. -/
theorem fits_default_iff {bound : ℕ} (hbound : 0 < bound) (text : List Char) :
    Fits defaultEolRegEx bound text ↔ ∀ line ∈ text.splitOn '\n', line.length < bound := by
  induction hlength : text.length using Nat.strong_induction_on generalizing text with
  | _ length ih =>
    by_cases hmem : '\n' ∈ text
    · obtain ⟨line, rest, rfl, hline⟩ := List.eq_append_cons_of_mem hmem
      obtain ⟨⟨line', hnext⟩, hneed⟩ := nextLine_default_some rest hline
      have hless := length_lt_of_nextLine determined_default hnext
      have hrest := ih rest.length (hlength ▸ hless) rest rfl
      rw [fits_iff_of_nextLine hnext, hneed, hrest,
        List.splitOn_append_cons_self_of_not_mem hline, List.forall_mem_cons, Nat.succ_le_iff]
    · obtain ⟨hnext, hneed⟩ := nextLine_default_none hmem
      rw [List.splitOn_eq_singleton hmem, List.forall_mem_singleton]
      by_cases hnil : text = []
      · rw [if_pos hnil] at hnext
        exact iff_of_true (.last hnext) (hnil ▸ hbound)
      · rw [if_neg hnil] at hnext
        rw [fits_iff_of_nextLine hnext, hneed, Nat.succ_le_iff]
        exact and_iff_left (.last rfl)

/-! ## Sequences of calls -/

/-- The lines of a text, one delivered after the other. -/
structure LineSource where
  /-- The lines that are not delivered yet. -/
  lines : List (List Char)
  /-- How many lines were delivered. -/
  delivered : ℕ := 0
  /-- What the last call returned. -/
  last : Option (List Char) := none
  /-- Whether the next call returns it again. -/
  lookAhead : Bool := false

namespace LineSource

def readLine (src : LineSource) : LineSource × Option (List Char) :=
  if src.lookAhead then ({ src with lookAhead := false }, src.last)
  else
    match src.lines with
    | [] => ({ src with last := none }, none)
    | line :: lines => ({ src with
        lines := lines
        delivered := src.delivered + 1
        last := some line }, some line)

def runOps : List ReadLineOp → LineSource → LineSource × List (Option (List Char))
  | [], src => (src, [])
  | .readLine :: ops, src =>
    let (src, line) := src.readLine
    let (src, lines) := runOps ops src
    (src, line :: lines)
  | .wasLineLookAhead :: ops, src => runOps ops { src with lookAhead := true }

end LineSource

namespace ReadLine

/-- The object, with the undelivered text, stands for the abstract source. -/
structure Follows (eol : List (List Char)) (bound : ℕ) (rl : ReadLine) (undelivered : List Char)
    (src : LineSource) : Prop where
  inv : Inv eol bound rl undelivered
  lines : src.lines = split eol undelivered
  delivered : src.delivered = rl.lineNbr
  lookAhead : src.lookAhead = rl.lineLookAhead
  last : src.last.isSome = rl.lastLine ∧ ∀ line ∈ src.last, rl.charSequence = .ok line

variable {eol : List (List Char)} {bound : ℕ} {rl : ReadLine} {undelivered : List Char}
  {src : LineSource}

theorem Inv.setLast (h : Inv eol bound rl undelivered) (ahead last : Bool) :
    Inv eol bound { rl with lineLookAhead := ahead, lastLine := last } undelivered :=
  { h with }

/-- What `readLine()` returns when `this` object stands for the line `last`, or null. -/
theorem readLine_returns (rl : ReadLine) {last : Option (List Char)}
    (hsome : last.isSome = rl.lastLine) (hline : ∀ line ∈ last, rl.charSequence = .ok line) :
    (if rl.lastLine then do return (rl, some (← rl.charSequence)) else return (rl, none)) =
      (.ok (rl, last) : Except JavaError (ReadLine × Option (List Char))) := by
  cases last with
  | none =>
    rw [← hsome]
    rfl
  | some line =>
    rw [← hsome, hline line rfl]
    rfl

/-- **One call.** As long as the text fits, `readLine()` does what the abstract source does. -/
theorem readLine_spec (heol : Determined eol) (h : Follows eol bound rl undelivered src)
    (hfits : Fits eol bound undelivered) :
    ∃ rl' undelivered', rl.readLine = .ok (rl', src.readLine.2) ∧
      Follows eol bound rl' undelivered' src.readLine.1 ∧ Fits eol bound undelivered' := by
  obtain ⟨hlast, hline⟩ := h.last
  cases hahead : rl.lineLookAhead with
  | true =>
    have hsrc : src.readLine = ({ src with lookAhead := false }, src.last) :=
      if_pos (h.lookAhead.trans hahead)
    rw [hsrc]
    refine ⟨{ rl with lineLookAhead := false }, undelivered, ?_,
      ⟨h.inv.setLast false rl.lastLine, h.lines, h.delivered, rfl, h.last⟩, hfits⟩
    rw [readLine, if_pos hahead]
    exact readLine_returns { rl with lineLookAhead := false } hlast hline
  | false =>
    have hsrc : src.readLine = (match src.lines with
      | [] => ({ src with last := none }, none)
      | line :: lines => ({ src with
          lines := lines
          delivered := src.delivered + 1
          last := some line }, some line)) :=
      if_neg (by rw [h.lookAhead, hahead]; exact Bool.false_ne_true)
    rcases readLineImpl_spec heol h.inv with
      ⟨⟨rl', line⟩, himpl, -, hdelivers, hahead'⟩ | ⟨-, hneed⟩
    · have hread : rl.readLine = (if line then
          do return ({ rl' with lastLine := line }, some (← rl'.charSequence))
          else return ({ rl' with lastLine := line }, none)) := by
        simp only [readLine, hahead, himpl, bind, Except.bind, pure, Except.pure,
          Bool.false_eq_true, if_false]
        rfl
      unfold Delivers at hdelivers
      split at hdelivers
      · next piece rest hnext =>
        obtain ⟨rfl, hinv, hchars, hnbr⟩ := hdelivers
        rw [h.lines, split_of_nextLine_some heol hnext] at hsrc
        rw [hsrc]
        refine ⟨{ rl' with lastLine := true }, rest, ?_,
          ⟨hinv.setLast rl'.lineLookAhead true, rfl, ?_, ?_, rfl, ?_⟩,
          ((fits_iff_of_nextLine hnext).1 hfits).2⟩
        · rw [hread, if_pos rfl, hchars]
          rfl
        · exact (congrArg (· + 1) h.delivered).trans hnbr.symm
        · exact h.lookAhead.trans hahead'.symm
        · rintro _ ⟨⟩
          exact hchars
      · next hnext =>
        obtain ⟨rfl, hinv, hnbr⟩ := hdelivers
        rw [h.lines, split_of_nextLine_none hnext] at hsrc
        rw [hsrc]
        refine ⟨{ rl' with lastLine := false }, [], ?_,
          ⟨hinv.setLast rl'.lineLookAhead false, rfl, ?_, ?_, rfl, nofun⟩, .last rfl⟩
        · rw [hread]
          rfl
        · exact h.delivered.trans hnbr.symm
        · exact h.lookAhead.trans hahead'.symm
    · have := hfits.need_le h.inv.bound_pos
      omega

/-- **All calls.** As long as the text fits, the calls do what the abstract source does. -/
theorem runOps_spec (heol : Determined eol) (ops : List ReadLineOp)
    (h : Follows eol bound rl undelivered src) (hfits : Fits eol bound undelivered) :
    ∃ rl', rl.runOps ops = .ok (rl', (src.runOps ops).2) ∧
      rl'.getLineNumber = (src.runOps ops).1.delivered := by
  induction ops generalizing rl undelivered src with
  | nil => exact ⟨rl, rfl, h.delivered.symm⟩
  | cons op ops ih =>
    cases op with
    | readLine =>
      obtain ⟨rl', undelivered', hread, hfollows, hfits'⟩ := readLine_spec heol h hfits
      obtain ⟨rl'', hrun, hnbr⟩ := ih hfollows hfits'
      refine ⟨rl'', ?_, hnbr⟩
      simp only [runOps, hread, bind, Except.bind, hrun, LineSource.runOps]
      rfl
    | wasLineLookAhead =>
      have hfollows : Follows eol bound rl.wasLineLookAhead undelivered
          { src with lookAhead := true } :=
        ⟨h.inv.setLast true rl.lastLine, h.lines, h.delivered, rfl, h.last⟩
      exact ih hfollows hfits

/-- A text that does not fit makes one of the calls throw. -/
theorem runOps_throws (heol : Determined eol) (h : Inv eol bound rl undelivered)
    (hahead : rl.lineLookAhead = false) (hfits : ¬ Fits eol bound undelivered) :
    ∃ k, rl.runOps (List.replicate k .readLine) = .error .illegalArgument := by
  induction hlength : undelivered.length using Nat.strong_induction_on
    generalizing rl undelivered with
  | _ length ih =>
    rcases readLineImpl_spec heol h with
      ⟨⟨rl', line⟩, himpl, hneed, hdelivers, hahead'⟩ | ⟨himpl, -⟩
    · unfold Delivers at hdelivers
      split at hdelivers
      · next piece rest hnext =>
        obtain ⟨rfl, hinv, hchars, hnbr⟩ := hdelivers
        have hrest : ¬ Fits eol bound rest :=
          fun hrest => hfits ((fits_iff_of_nextLine hnext).2 ⟨hneed, hrest⟩)
        obtain ⟨k, hk⟩ := ih rest.length (hlength ▸ length_lt_of_nextLine heol hnext)
          (hinv.setLast rl'.lineLookAhead true) (hahead'.trans hahead) hrest rfl
        have hread : rl.readLine = .ok ({ rl' with lastLine := true }, some piece) := by
          simp only [readLine, hahead, himpl, bind, Except.bind, pure, Except.pure,
            Bool.false_eq_true, if_false, if_true]
          rw [show charSequence { rl' with lastLine := true } = .ok piece from hchars]
        refine ⟨k + 1, ?_⟩
        simp only [List.replicate_succ, runOps, hread, bind, Except.bind]
        rw [hk]
      · next hnext => exact absurd (.last hnext) hfits
    · refine ⟨1, ?_⟩
      simp only [List.replicate_one, runOps, readLine, hahead, himpl, bind, Except.bind,
        Bool.false_eq_true, if_false]

/-! ## Line splitting -/

/-- Whatever the calls on a new object, none throws, `readLine()` returns the lines of the content
as the abstract source does, and the line number counts them. -/
def SplitsLines (content : List Char) (cut : ℕ → ℕ) (internalBufferSize : ℕ) : Prop :=
  ∀ ops, ∃ rl,
    ((new defaultEolRegEx { rest := content, cut := cut } internalBufferSize).bind fun rl =>
      rl.runOps ops) =
      .ok (rl, (LineSource.runOps ops { lines := split defaultEolRegEx content }).2) ∧
    rl.getLineNumber =
      (LineSource.runOps ops { lines := split defaultEolRegEx content }).1.delivered

theorem splitsLines_iff_fits {content : List Char} (cut : ℕ → ℕ) {n : ℕ} (hpos : 0 < n)
    (hlt : n < 2 ^ 31) :
    SplitsLines content cut n ↔ Fits defaultEolRegEx (growLimit n) content := by
  obtain ⟨rl, hnew, hinv, hnbr, hahead, hlast⟩ :=
    new_spec determined_default hpos hlt { rest := content, cut := cut }
  unfold SplitsLines
  simp only [hnew, Except.bind]
  refine ⟨?_, ?_⟩
  · intro h
    by_contra hfits
    obtain ⟨k, hk⟩ := runOps_throws determined_default hinv hahead hfits
    obtain ⟨rl', hrun, -⟩ := h (List.replicate k .readLine)
    rw [hk] at hrun
    cases hrun
  · intro hfits ops
    exact runOps_spec determined_default ops
      ⟨hinv, rfl, hnbr.symm, hahead.symm, hlast.symm, nofun⟩ hfits

end ReadLine

/-- **Line splitting.** `ReadLine` delivers the lines of its text exactly when every line, up to
its newline, is shorter than the largest buffer. -/
theorem readLine_splits_iff (content : List Char) (cut : ℕ → ℕ) {n : ℕ} (hpos : 0 < n)
    (hlt : n < 2 ^ 31) :
    ReadLine.SplitsLines content cut n ↔
      ∀ line ∈ content.splitOn '\n', line.length < growLimit n := by
  rw [ReadLine.splitsLines_iff_fits cut hpos hlt]
  exact fits_default_iff ((Nat.zero_lt_of_lt hpos).trans_le (le_growLimit n)) content

theorem readLine_splits_three :
    ReadLine.SplitsLines ['a', '\r', '\n', 'b', 'c', '\n', 'd'] (fun _ => 1) 1 := by
  refine (readLine_splits_iff _ _ (by decide) (by decide)).2 ?_
  intro line hline
  have hlength : line.length < 2 ^ 30 := by
    simp only [show ['a', '\r', '\n', 'b', 'c', '\n', 'd'].splitOn '\n' =
      [['a', '\r'], ['b', 'c'], ['d']] from rfl, List.mem_cons, List.not_mem_nil, or_false] at hline
    rcases hline with rfl | rfl | rfl <;> decide
  exact hlength.trans_le (two_pow_le_growLimit (by decide))

/-- A text of one line that is as long as the largest buffer. -/
theorem not_splitsLines_replicate (cut : ℕ → ℕ) {n : ℕ} (hle : 2 ^ 30 ≤ n) (hlt : n < 2 ^ 31) :
    ¬ ReadLine.SplitsLines (List.replicate n 'a') cut n := by
  have hpos : 0 < n := by omega
  rw [ReadLine.splitsLines_iff_fits cut hpos hlt,
    fits_default_iff (hpos.trans_le (le_growLimit n)), List.splitOn_eq_singleton (by simp),
    List.forall_mem_singleton, List.length_replicate, growLimit_of_le hle]
  exact lt_irrefl n

theorem readLine_not_splits :
    ¬ ReadLine.SplitsLines (List.replicate (2 ^ 30) 'a') (fun _ => 0) (2 ^ 30) :=
  not_splitsLines_replicate _ le_rfl (by decide)

end Spartan
