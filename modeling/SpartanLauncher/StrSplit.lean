import SpartanLauncher.EntryPoints

/-!
# The limit of `str_split`

`str_split` goes over the string once, with a buffer for the fragment that it is in. It counts
the delimiters behind a fragment in an `int`; from the one on that reaches the limit, delimiters
are kept. Delimiters that come while the buffer is empty are passed over, also in front of the
first fragment and with a limit of one.

**Theorem (`strSplitInt_honoursLimit_iff`).** The limit is honoured exactly when the counter does
not overflow and, for a limit of one, the string is not empty and does not begin with the
delimiter.

The specification (`SplitsFirst`) is a relation: which strings can be split in which ways at the
first `k` runs of delimiters that come behind a fragment.
-/

namespace Spartan

open CString

/-! ## The counter -/

/-- One iteration of the loop of `str_split`; `none` when `++added` overflows. -/
def SplitState.nextInt (c : Char) (limit : ℕ) (s : SplitState) (n : Char) : Option SplitState :=
  if (s.next c limit n).added < 2 ^ 31 then some (s.next c limit n) else none

/-- What is returned: the fragments, with the one that is still in the buffer. -/
def SplitState.fragments (s : SplitState) : List (List Char) :=
  if s.buf.isEmpty then s.v else s.v ++ [s.buf]

/-- `str_split` with `added` as an `int`. -/
def strSplitInt (s : List Char) (c : Char) (limit : ℕ) : Option (List (List Char)) :=
  (s.foldlM (SplitState.nextInt c limit) {}).map SplitState.fragments

/-! ## The specification -/

/-- Splitting at the first `k` runs of `c` behind a fragment. The rest is the last fragment. -/
inductive SplitsFirst (c : Char) : ℕ → List Char → List (List Char) → Prop where
  | none {k : ℕ} {run : List Char} (hrun : ∀ x ∈ run, x = c) : SplitsFirst c k run []
  | last {run rest : List Char} (hrun : ∀ x ∈ run, x = c) (hne : rest ≠ [])
      (hrest : rest.head? ≠ some c) : SplitsFirst c 0 (run ++ rest) [rest]
  | split {k : ℕ} {run frag rest : List Char} {w : List (List Char)} (hrun : ∀ x ∈ run, x = c)
      (hne : frag ≠ []) (hfrag : c ∉ frag) (hrest : rest = [] ∨ rest.head? = some c)
      (h : SplitsFirst c k rest w) : SplitsFirst c (k + 1) (run ++ (frag ++ rest)) (frag :: w)

/-- What the comment and the limit promise. -/
def HonoursLimit (s : List Char) (c : Char) (limit : ℕ) (v : List (List Char)) : Prop :=
  if limit = 0 then v = pieces c s
  else v.length ≤ limit ∧ SplitsFirst c (limit - 1) s v ∧ (limit = 1 → v = [s])

/-- What is left of a string behind its first `k` fragments and the delimiters there. -/
def restAfter (c : Char) : ℕ → List Char → List Char
  | 0, s => s.dropWhile (· == c)
  | k + 1, s => restAfter c k ((s.dropWhile (· == c)).dropWhile (· ≠ c))

variable {c : Char} {limit k : ℕ} {s t run frag : List Char} {v w : List (List Char)}
  {st : SplitState}

theorem SplitsFirst.length_le (h : SplitsFirst c k s w) : w.length ≤ k + 1 := by
  induction h with
  | none hrun => exact Nat.zero_le _
  | last hrun hne hrest => exact le_rfl
  | split hrun hne hfrag hrest h ih => exact Nat.succ_le_succ ih

/-- A string begins with a run of delimiters, and a fragment behind it unless that is all. -/
theorem exists_run_frag (c : Char) (s : List Char) :
    ∃ run frag rest, s = run ++ (frag ++ rest) ∧ (∀ x ∈ run, x = c) ∧ c ∉ frag ∧
      (rest = [] ∨ rest.head? = some c) ∧ (frag = [] → rest = []) := by
  obtain ⟨start, hstart⟩ : ∃ start, s.dropWhile (· == c) = start := ⟨_, rfl⟩
  have hrest : start.dropWhile (· ≠ c) = [] ∨ (start.dropWhile (· ≠ c)).head? = some c := by
    have hhead := List.head?_dropWhile_not (· ≠ c) start
    cases hcase : (start.dropWhile (· ≠ c)).head? with
    | none => exact .inl (List.head?_eq_none_iff.1 hcase)
    | some x =>
      rw [hcase] at hhead
      simp only [Bool.not_eq_false', decide_not, decide_eq_true_eq] at hhead
      exact .inr (congrArg some hhead)
  refine ⟨s.takeWhile (· == c), start.takeWhile (· ≠ c), start.dropWhile (· ≠ c), ?_, ?_, ?_,
    hrest, ?_⟩
  · rw [List.takeWhile_append_dropWhile, ← hstart, List.takeWhile_append_dropWhile]
  · intro x hx
    simpa using List.mem_takeWhile_imp hx
  · intro hc
    simpa using List.mem_takeWhile_imp hc
  · intro hfrag
    rcases hrest with hnil | hhead
    · exact hnil
    · -- without a fragment the rest would begin with a delimiter of the run
      have happend := List.takeWhile_append_dropWhile (p := (· ≠ c)) (l := start)
      rw [hfrag, List.nil_append] at happend
      have hnot := List.head?_dropWhile_not (· == c) s
      rw [hstart, ← happend, hhead] at hnot
      simp at hnot

theorem dropWhile_run (hrun : ∀ x ∈ run, x = c) (t : List Char) :
    (run ++ t).dropWhile (· == c) = t.dropWhile (· == c) :=
  List.dropWhile_append_of_pos fun x hx => by simpa using hrun x hx

/-! ## The loop -/

theorem foldl_run (hrun : ∀ x ∈ run, x = c) (hbuf : st.buf = []) :
    run.foldl (SplitState.next c limit) st = st := by
  induction run with
  | nil => rfl
  | cons x run ih =>
    have hx : x = c := hrun x List.mem_cons_self
    have hnext : st.next c limit x = st := by simp [SplitState.next, hx, hbuf]
    rw [List.foldl_cons, hnext]
    exact ih fun y hy => hrun y (List.mem_cons_of_mem x hy)

theorem foldl_frag (hfrag : c ∉ frag) :
    frag.foldl (SplitState.next c limit) st = { st with buf := st.buf ++ frag } := by
  induction frag generalizing st with
  | nil => simp
  | cons x frag ih =>
    rw [List.mem_cons, not_or] at hfrag
    have hnext : st.next c limit x = { st with buf := st.buf ++ [x] } :=
      if_pos (Ne.symm hfrag.1)
    rw [List.foldl_cons, hnext, ih hfrag.2, List.append_assoc, List.singleton_append]

/-- The state behind a fragment and a delimiter, with splits left. -/
def SplitState.behind (st : SplitState) (frag : List Char) : SplitState where
  v := st.v ++ [frag]
  added := st.added + 1

theorem next_behind (hbuf : st.buf = []) (hat : st.atLimit = false) (hne : frag ≠ [])
    (hlimit : st.added + 1 < limit) :
    { st with buf := st.buf ++ frag }.next c limit c = st.behind frag := by
  have hpos : limit ≠ 0 := by omega
  have hnot : ¬limit ≤ st.added + 1 := not_le.2 hlimit
  simp [SplitState.next, SplitState.behind, hbuf, hat, hne, hpos, hnot]

/-- The next delimiters of the run are passed over. -/
theorem behind_next : (st.behind frag).next c limit c = st.behind frag := by
  simp [SplitState.next, SplitState.behind]

/-- From the limit on, everything is kept, and the delimiters are counted. -/
theorem foldl_rest (hbuf : st.buf ≠ []) (hpos : limit ≠ 0) (hlimit : limit ≤ st.added + 1) :
    ∃ atLimit, t.foldl (SplitState.next c limit) st =
      { buf := st.buf ++ t, v := st.v, added := st.added + t.count c, atLimit } := by
  induction t generalizing st with
  | nil => exact ⟨st.atLimit, by simp⟩
  | cons x t ih =>
    by_cases hx : x = c
    · have hnext : st.next c limit x =
          { st with buf := st.buf ++ [x], added := st.added + 1, atLimit := true } := by
        simp [SplitState.next, hx, hbuf, hpos, hlimit]
      obtain ⟨atLimit, hfold⟩ := @ih (st.next c limit x) (by simp [hnext])
        (by rw [hnext]; exact Nat.le_succ_of_le hlimit)
      refine ⟨atLimit, ?_⟩
      rw [List.foldl_cons, hfold, hnext, hx, List.count_cons_self]
      simp only [List.append_assoc, List.singleton_append, Nat.add_right_comm _ 1, Nat.add_assoc]
    · have hnext : st.next c limit x = { st with buf := st.buf ++ [x] } := if_pos hx
      obtain ⟨atLimit, hfold⟩ := @ih (st.next c limit x) (by simp [hnext]) (hnext ▸ hlimit)
      refine ⟨atLimit, ?_⟩
      rw [List.foldl_cons, hfold, hnext, List.count_cons_of_ne hx]
      simp only [List.append_assoc, List.singleton_append]

/-! ## What is left behind the splits -/

theorem restAfter_run (hrun : ∀ x ∈ run, x = c) : restAfter c k run = [] := by
  have hdrop : run.dropWhile (· == c) = [] :=
    List.dropWhile_eq_nil_iff.2 fun x hx => by simpa using hrun x hx
  induction k generalizing run with
  | zero => exact hdrop
  | succ k ih =>
    rw [restAfter, hdrop]
    exact ih (fun x hx => nomatch hx) rfl

theorem restAfter_zero (hrun : ∀ x ∈ run, x = c) (hne : frag ≠ []) (hfrag : c ∉ frag)
    (rest : List Char) : restAfter c 0 (run ++ (frag ++ rest)) = frag ++ rest := by
  rw [restAfter, dropWhile_run hrun, dropWhile_delim_of_notMem hne hfrag]

theorem restAfter_succ {rest : List Char} (hrun : ∀ x ∈ run, x = c) (hne : frag ≠ [])
    (hfrag : c ∉ frag) (hrest : rest = [] ∨ rest.head? = some c) :
    restAfter c (k + 1) (run ++ (frag ++ rest)) = restAfter c k rest := by
  have hpos : ∀ x ∈ frag, decide (x ≠ c) = true := by
    intro x hx
    rw [decide_eq_true_iff]
    rintro rfl
    exact hfrag hx
  have hstop : rest.dropWhile (· ≠ c) = rest := by
    rcases hrest with rfl | hhead
    · rfl
    · obtain ⟨rest', rfl⟩ := List.head?_eq_some_iff.1 hhead
      exact List.dropWhile_cons_of_neg (by simp)
  rw [restAfter, dropWhile_run hrun, dropWhile_delim_of_notMem hne hfrag,
    List.dropWhile_append_of_pos hpos, hstop]

/-! ## The whole loop -/

/-- What the loop does with `k` splits left: it splits the string `k` times, and counts the splits
and the delimiters in the rest. -/
def LoopSplits (c : Char) (limit k : ℕ) (s : List Char) (st : SplitState) : Prop :=
  ∃ w, SplitsFirst c k s w ∧ (s.foldl (SplitState.next c limit) st).fragments = st.v ++ w ∧
    ((restAfter c k s = [] ∧ (s.foldl (SplitState.next c limit) st).added ≤ st.added + k) ∨
      (s.foldl (SplitState.next c limit) st).added = st.added + k + (restAfter c k s).count c)

/-- There is no fragment. -/
theorem loopSplits_run (hrun : ∀ x ∈ run, x = c) (hbuf : st.buf = []) :
    LoopSplits c limit k run st := by
  unfold LoopSplits
  rw [foldl_run hrun hbuf]
  refine ⟨[], .none hrun, ?_, .inl ⟨restAfter_run hrun, Nat.le_add_right _ _⟩⟩
  simp [SplitState.fragments, hbuf]

/-- There is no split left: the first fragment goes on to the end. -/
theorem loopSplits_last {rest : List Char} (hrun : ∀ x ∈ run, x = c) (hne : frag ≠ [])
    (hfrag : c ∉ frag) (hbuf : st.buf = []) (hlimit : st.added + 1 = limit) :
    LoopSplits c limit 0 (run ++ (frag ++ rest)) st := by
  have hhead : (frag ++ rest).head? ≠ some c := by
    rw [List.head?_append_of_ne_nil _ hne]
    exact fun hc => hfrag (List.mem_of_mem_head? hc)
  obtain ⟨atLimit, hfold⟩ := @foldl_rest c limit rest { st with buf := st.buf ++ frag }
    (by simp [hne]) (by omega) hlimit.ge
  unfold LoopSplits
  rw [List.foldl_append, foldl_run hrun hbuf, restAfter_zero hrun hne hfrag, List.foldl_append,
    foldl_frag hfrag, hfold]
  refine ⟨[frag ++ rest], .last hrun (by simp [hne]) hhead, ?_, .inr ?_⟩
  · simp [SplitState.fragments, hbuf, hne]
  · rw [List.count_append, List.count_eq_zero_of_not_mem hfrag, Nat.zero_add]
    rfl

/-- The string ends with a fragment before the splits are used up. -/
theorem loopSplits_end (hrun : ∀ x ∈ run, x = c) (hne : frag ≠ []) (hfrag : c ∉ frag)
    (hbuf : st.buf = []) : LoopSplits c limit (k + 1) (run ++ (frag ++ [])) st := by
  have hnil : ∀ x ∈ ([] : List Char), x = c := fun x hx => nomatch hx
  unfold LoopSplits
  rw [restAfter_succ hrun hne hfrag (.inl rfl), List.foldl_append, foldl_run hrun hbuf,
    List.foldl_append, foldl_frag hfrag]
  refine ⟨[frag], .split hrun hne hfrag (.inl rfl) (.none hnil), ?_,
    .inl ⟨restAfter_run hnil, Nat.le_add_right _ _⟩⟩
  simp [SplitState.fragments, hbuf, hne]

/-- A split: the delimiter behind the fragment belongs to the run that is passed over next. -/
theorem loopSplits_split {rest : List Char} (hrun : ∀ x ∈ run, x = c) (hne : frag ≠ [])
    (hfrag : c ∉ frag) (hbuf : st.buf = []) (hat : st.atLimit = false)
    (hlimit : st.added + 1 < limit) (h : LoopSplits c limit k (c :: rest) (st.behind frag)) :
    LoopSplits c limit (k + 1) (run ++ (frag ++ c :: rest)) st := by
  obtain ⟨w, hsplits, hfragments, hadded⟩ := h
  have hcount : (st.behind frag).added + k = st.added + (k + 1) := by
    show st.added + 1 + k = st.added + (k + 1)
    omega
  rw [List.foldl_cons, behind_next] at hfragments hadded
  unfold LoopSplits
  rw [restAfter_succ hrun hne hfrag (.inr rfl), List.foldl_append, foldl_run hrun hbuf,
    List.foldl_append, foldl_frag hfrag, List.foldl_cons, next_behind hbuf hat hne hlimit]
  refine ⟨frag :: w, .split hrun hne hfrag (.inr rfl) hsplits, ?_, ?_⟩
  · rw [hfragments, SplitState.behind, List.append_assoc, List.singleton_append]
  · rwa [hcount] at hadded

/-- **The loop with `k` splits left.** -/
theorem foldl_splits (hbuf : st.buf = []) (hat : st.atLimit = false)
    (hlimit : st.added + k + 1 = limit) : LoopSplits c limit k s st := by
  induction k generalizing s st with
  | zero =>
    obtain ⟨run, frag, rest, rfl, hrun, hfrag, hrest, hempty⟩ := exists_run_frag c s
    by_cases hne : frag = []
    · rw [hempty hne, hne, List.append_nil, List.append_nil]
      exact loopSplits_run hrun hbuf
    · exact loopSplits_last hrun hne hfrag hbuf hlimit
  | succ k ih =>
    obtain ⟨run, frag, rest, rfl, hrun, hfrag, hrest, hempty⟩ := exists_run_frag c s
    by_cases hne : frag = []
    · rw [hempty hne, hne, List.append_nil, List.append_nil]
      exact loopSplits_run hrun hbuf
    · rcases hrest with rfl | hhead
      · exact loopSplits_end hrun hne hfrag hbuf
      · obtain ⟨rest, rfl⟩ := List.head?_eq_some_iff.1 hhead
        apply loopSplits_split hrun hne hfrag hbuf hat (by omega)
        apply ih rfl rfl
        show st.added + 1 + k + 1 = limit
        omega

/-- **The loop without a limit** returns all pieces, and counts nothing. -/
theorem foldl_pieces (hbuf : c ∉ st.buf) (hat : st.atLimit = false) :
    (s.foldl (SplitState.next c 0) st).fragments = st.v ++ pieces c (st.buf ++ s) ∧
      (s.foldl (SplitState.next c 0) st).added = st.added := by
  induction s generalizing st with
  | nil =>
    refine ⟨?_, rfl⟩
    rw [List.append_nil, List.foldl_nil, SplitState.fragments]
    by_cases hnil : st.buf = []
    · rw [hnil, pieces_nil, List.append_nil]
      rfl
    · rw [pieces_of_notMem hnil hbuf, if_neg (by simpa using hnil)]
  | cons x s ih =>
    rw [List.foldl_cons]
    by_cases hx : x = c
    · by_cases hnil : st.buf = []
      · have hnext : st.next c 0 x = st := by simp [SplitState.next, hx, hnil]
        rw [hnext, hx, hnil, List.nil_append, pieces_cons_delim]
        have ih := ih hbuf hat
        rwa [hnil, List.nil_append] at ih
      · have hnext : st.next c 0 x = { st with buf := [], v := st.v ++ [st.buf] } := by
          simp [SplitState.next, hx, hnil, hat]
        obtain ⟨hfragments, hadded⟩ := @ih (st.next c 0 x) (by simp [hnext]) (by rw [hnext, hat])
        refine ⟨?_, hadded.trans (by rw [hnext])⟩
        rw [hfragments, hnext, hx, pieces_append_delim, pieces_of_notMem hnil hbuf,
          List.nil_append, List.append_assoc]
    · have hnext : st.next c 0 x = { st with buf := st.buf ++ [x] } := if_pos hx
      obtain ⟨hfragments, hadded⟩ := @ih (st.next c 0 x)
        (by simpa [hnext, Ne.symm hx] using hbuf) (by rw [hnext, hat])
      refine ⟨?_, hadded.trans (by rw [hnext])⟩
      rw [hfragments, hnext, List.append_assoc, List.singleton_append]

/-! ## The counter of the loop -/

theorem added_le_next (st : SplitState) (n : Char) : st.added ≤ (st.next c limit n).added := by
  unfold SplitState.next
  grind

theorem added_le_foldl (st : SplitState) (s : List Char) :
    st.added ≤ (s.foldl (SplitState.next c limit) st).added := by
  induction s generalizing st with
  | nil => exact le_rfl
  | cons n s ih => exact (added_le_next st n).trans (ih (st.next c limit n))

/-- The counter only grows: it overflows when its last value is too large for an `int`. -/
theorem foldlM_nextInt (hst : st.added < 2 ^ 31) :
    s.foldlM (SplitState.nextInt c limit) st =
      if (s.foldl (SplitState.next c limit) st).added < 2 ^ 31 then
        some (s.foldl (SplitState.next c limit) st) else none := by
  induction s generalizing st with
  | nil => exact (if_pos hst).symm
  | cons n s ih =>
    rw [List.foldlM_cons, List.foldl_cons, SplitState.nextInt]
    by_cases hnext : (st.next c limit n).added < 2 ^ 31
    · rw [if_pos hnext]
      exact ih hnext
    · have hlast : (st.next c limit n).added ≤
          (s.foldl (SplitState.next c limit) (st.next c limit n)).added := added_le_foldl _ s
      rw [if_neg hnext, if_neg (by omega)]
      rfl

theorem strSplitInt_eq (s : List Char) (c : Char) (limit : ℕ) :
    strSplitInt s c limit =
      if (s.foldl (SplitState.next c limit) {}).added < 2 ^ 31 then some (strSplit s c limit)
      else none := by
  rw [strSplitInt, foldlM_nextInt (by decide)]
  split_ifs
  · rfl
  · rfl

/-- With a limit, `limit - 1` splits are left at the start. -/
theorem strSplit_splits (s : List Char) (c : Char) (k : ℕ) :
    SplitsFirst c k s (strSplit s c (k + 1)) := by
  obtain ⟨w, hsplits, hfragments, -⟩ := @foldl_splits c (k + 1) k s {} rfl rfl
    (by rw [Nat.zero_add])
  have hsplit : strSplit s c (k + 1) = w := hfragments
  rwa [hsplit]

/-- The counter overflows when the splits and the delimiters in the rest are too many. -/
theorem added_lt_iff (hk : k < 2 ^ 31) :
    (s.foldl (SplitState.next c (k + 1)) {}).added < 2 ^ 31 ↔
      k + (restAfter c k s).count c < 2 ^ 31 := by
  obtain ⟨w, -, -, hadded⟩ := @foldl_splits c (k + 1) k s {} rfl rfl (by rw [Nat.zero_add])
  have hzero : ({} : SplitState).added + k = k := Nat.zero_add k
  rw [hzero] at hadded
  rcases hadded with ⟨hnil, hle⟩ | heq
  · rw [hnil, List.count_nil]
    omega
  · rw [heq]

/-- Without splits there is at most one fragment, the string behind the run it begins with. -/
theorem SplitsFirst.zero_cases (h : SplitsFirst c 0 s w) :
    (w = [] ∧ ∀ x ∈ s, x = c) ∨ ∃ run rest, s = run ++ rest ∧ w = [rest] ∧
      (∀ x ∈ run, x = c) ∧ rest ≠ [] ∧ rest.head? ≠ some c := by
  cases h with
  | none hrun => exact .inl ⟨rfl, hrun⟩
  | last hrun hne hrest => exact .inr ⟨_, _, rfl, rfl, hrun, hne, hrest⟩

/-- The fragment is the whole string when there is nothing to pass over. -/
theorem SplitsFirst.eq_self_iff (h : SplitsFirst c 0 s w) :
    w = [s] ↔ s ≠ [] ∧ s.head? ≠ some c := by
  rcases h.zero_cases with ⟨rfl, hall⟩ | ⟨run, rest, rfl, rfl, hrun, hne, hhead⟩
  · refine ⟨fun hw => absurd hw.symm (List.cons_ne_nil s []), ?_⟩
    rintro ⟨hne, hhead⟩
    obtain ⟨x, s, rfl⟩ := List.exists_cons_of_ne_nil hne
    exact absurd (congrArg some (hall x List.mem_cons_self)) hhead
  · refine ⟨?_, ?_⟩
    · intro hw
      obtain rfl : run = [] := List.append_left_eq_self.1 (List.cons.inj hw).1.symm
      exact ⟨hne, hhead⟩
    · rintro ⟨-, hnot⟩
      cases run with
      | nil => rfl
      | cons x run => exact absurd (congrArg some (hrun x List.mem_cons_self)) hnot

/-- **The limit is honoured** exactly when the counter does not overflow and, for a limit of one,
there is a fragment at the start of the string. -/
theorem strSplitInt_honoursLimit_iff (hlimit : limit < 2 ^ 31) :
    (∃ v, strSplitInt s c limit = some v ∧ HonoursLimit s c limit v) ↔
      limit = 0 ∨ (limit - 1 + (restAfter c (limit - 1) s).count c < 2 ^ 31 ∧
        (limit = 1 → s ≠ [] ∧ s.head? ≠ some c)) := by
  cases limit with
  | zero =>
    obtain ⟨hfragments, hadded⟩ := @foldl_pieces c s {} (by simp) rfl
    have hpieces : strSplit s c 0 = pieces c s := hfragments
    refine ⟨fun _ => .inl rfl, ?_⟩
    intro _
    refine ⟨pieces c s, ?_, ?_⟩
    · rw [strSplitInt_eq, hadded, if_pos (by decide), hpieces]
    · rw [HonoursLimit, if_pos rfl]
  | succ k =>
    have hsplits := strSplit_splits s c k
    rw [strSplitInt_eq, Nat.add_sub_cancel, ← added_lt_iff (by omega)]
    refine ⟨?_, ?_⟩
    · rintro ⟨v, hv, hhonours⟩
      split_ifs at hv with hadded
      cases hv
      rw [HonoursLimit, if_neg (Nat.succ_ne_zero k)] at hhonours
      refine .inr ⟨hadded, ?_⟩
      intro hone
      obtain rfl : k = 0 := by omega
      exact hsplits.eq_self_iff.1 (hhonours.2.2 hone)
    · rintro (hzero | ⟨hadded, hfirst⟩)
      · exact absurd hzero (Nat.succ_ne_zero k)
      · refine ⟨_, if_pos hadded, ?_⟩
        rw [HonoursLimit, if_neg (Nat.succ_ne_zero k)]
        refine ⟨hsplits.length_le, hsplits, ?_⟩
        intro hone
        obtain rfl : k = 0 := by omega
        exact hsplits.eq_self_iff.2 (hfirst rfl)

theorem strSplitInt_honoursLimit_two :
    ∃ v, strSplitInt "a::b:c".toList ':' 2 = some v ∧ HonoursLimit "a::b:c".toList ':' 2 v :=
  (strSplitInt_honoursLimit_iff (by decide)).2 (.inr ⟨by decide, fun h => by cases h⟩)

/-- The delimiter in front is lost, although a limit of one promises a copy of the string. -/
theorem strSplitInt_one_delim :
    strSplitInt ":a".toList ':' 1 = some ["a".toList] ∧
      ¬ HonoursLimit ":a".toList ':' 1 ["a".toList] := by
  refine ⟨by decide, ?_⟩
  intro h
  exact absurd (h.2.2 rfl) (by decide)

end Spartan
