import SpartanLauncher.Lib.Rejection

/-!
# Random numbers

`get_rnd_nbr` divides the values of `rand_r` that are below a limit into buckets of one size, one
for each number of the interval. Values from the limit on are rejected.

The arithmetic is checked: an operation whose result does not fit is an error here, although the
unsigned ones would wrap, and so is a division by zero.

**Theorem (`getRndNbr_fair`).** There is no error, the result is in the interval, each number has
the same count of values, and the rejected ones are not more than the numbers.
-/

namespace Spartan

open Rejection

/-! ## The function -/

inductive ArithError where
  | divisionByZero
  | overflow
  deriving DecidableEq

/-- `RAND_MAX`. -/
def randMax : ℕ := 2 ^ 31 - 1

/-- The result of an operation in a type with `bound` values. -/
def fits (bound n : ℕ) : Except ArithError ℕ := if n < bound then .ok n else .error .overflow

/-- Subtraction in an unsigned type. -/
def usub (m n : ℕ) : Except ArithError ℕ := if n ≤ m then .ok (m - n) else .error .overflow

def udiv (m n : ℕ) : Except ArithError ℕ :=
  if n = 0 then .error .divisionByZero else .ok (m / n)

/-- `buckets` and `limit`, which is converted to an `int`. -/
def rndBuckets (minN maxN : ℕ) : Except ArithError (ℕ × ℕ) := do
  let sum ← fits (2 ^ 32) (1 + maxN)
  let range ← usub sum minN
  let buckets ← udiv randMax range
  let product ← fits (2 ^ 32) (buckets * range)
  let limit ← fits (2 ^ 31) product
  return (buckets, limit)

/-- `min_n + rnd_n / buckets`, which is converted to an `int`. -/
def rndResult (minN buckets rndN : ℕ) : Except ArithError ℕ := do
  let quotient ← udiv rndN buckets
  let sum ← fits (2 ^ 32) (minN + quotient)
  fits (2 ^ 31) sum

/-- The loop over the results of `rand_r`. -/
def drawRnd (limit : ℕ) : List ℕ → Option ℕ
  | [] => none
  | rndN :: rands => if rndN ≥ limit then drawRnd limit rands else some rndN

/-- `get_rnd_nbr`, with the results of `rand_r`; nothing is returned as long as all of them are
rejected. -/
def getRndNbr (minN maxN : ℕ) (rands : List ℕ) : Except ArithError (Option ℕ) := do
  let buckets ← rndBuckets minN maxN
  match drawRnd buckets.2 rands with
  | none => return none
  | some rndN =>
    let result ← rndResult minN buckets.1 rndN
    return some result

/-- What `rand_r` can return. -/
def rndValues : Finset ℕ := Finset.range (randMax + 1)

/-! ## The buckets -/

/-- The interval of a call. -/
structure RndInterval (minN maxN : ℕ) : Prop where
  le : minN ≤ maxN
  lt_randMax : maxN - minN < randMax
  lt_int : maxN < 2 ^ 31

/-- How many numbers there are, and how many values each of them has. -/
def rndRange (minN maxN : ℕ) : ℕ := maxN - minN + 1
def bucketSize (minN maxN : ℕ) : ℕ := randMax / rndRange minN maxN

/-- What a single result of `rand_r` is good for. -/
def rndDraw (minN maxN rndN : ℕ) : Option ℕ :=
  (bucket (bucketSize minN maxN) (rndRange minN maxN) rndN).map (minN + ·)

variable {minN maxN : ℕ}

theorem fits_ok {bound n : ℕ} (h : n < bound) : fits bound n = .ok n := if_pos h

theorem udiv_ok {m n : ℕ} (h : 0 < n) : udiv m n = .ok (m / n) := if_neg (Nat.ne_of_gt h)

theorem rndRange_pos (minN maxN : ℕ) : 0 < rndRange minN maxN := Nat.succ_pos _

theorem RndInterval.bucketSize_pos (h : RndInterval minN maxN) : 0 < bucketSize minN maxN :=
  Nat.div_pos h.lt_randMax (rndRange_pos minN maxN)

theorem limit_le (minN maxN : ℕ) : bucketSize minN maxN * rndRange minN maxN ≤ randMax :=
  Nat.div_mul_le_self _ _

/-- **The limit** is computed without an error. -/
theorem rndBuckets_eq (h : RndInterval minN maxN) :
    rndBuckets minN maxN =
      .ok (bucketSize minN maxN, bucketSize minN maxN * rndRange minN maxN) := by
  have hsum : fits (2 ^ 32) (1 + maxN) = .ok (1 + maxN) := fits_ok (by have := h.lt_int; omega)
  have hrange : usub (1 + maxN) minN = .ok (rndRange minN maxN) := by
    have hle := h.le
    rw [usub, if_pos (by omega), rndRange]
    congr 1
    omega
  have hdiv : udiv randMax (rndRange minN maxN) = .ok (bucketSize minN maxN) :=
    udiv_ok (rndRange_pos minN maxN)
  have hlimit : bucketSize minN maxN * rndRange minN maxN < 2 ^ 31 :=
    Nat.lt_of_le_of_lt (limit_le minN maxN) (by decide)
  have hproduct : bucketSize minN maxN * rndRange minN maxN < 2 ^ 32 :=
    Nat.lt_trans hlimit (by decide)
  simp only [rndBuckets, hsum, hrange, hdiv, fits_ok hproduct, fits_ok hlimit, bind, Except.bind]
  rfl

/-- **The result** of an accepted value is computed without an error. -/
theorem rndResult_eq (h : RndInterval minN maxN) {rndN : ℕ}
    (hrnd : rndN < bucketSize minN maxN * rndRange minN maxN) :
    rndResult minN (bucketSize minN maxN) rndN =
      .ok (minN + rndN / bucketSize minN maxN) := by
  have hquotient : rndN / bucketSize minN maxN < rndRange minN maxN := Nat.div_lt_of_lt_mul hrnd
  have hint : minN + rndN / bucketSize minN maxN < 2 ^ 31 := by
    have hle := h.le
    have hmax := h.lt_int
    unfold rndRange at hquotient
    omega
  have hsum : minN + rndN / bucketSize minN maxN < 2 ^ 32 := Nat.lt_trans hint (by decide)
  simp only [rndResult, udiv_ok h.bucketSize_pos, fits_ok hsum, fits_ok hint, bind, Except.bind]

/-- The loop finds the first value that is good for a number. -/
theorem drawRnd_map (minN maxN : ℕ) (rands : List ℕ) :
    (drawRnd (bucketSize minN maxN * rndRange minN maxN) rands).map
      (fun rndN => minN + rndN / bucketSize minN maxN) =
        rands.findSome? (rndDraw minN maxN) := by
  induction rands with
  | nil => rfl
  | cons rndN rands ih =>
    rw [drawRnd, List.findSome?_cons, rndDraw, bucket]
    by_cases hrejected : rndN ≥ bucketSize minN maxN * rndRange minN maxN
    · rw [if_pos hrejected, if_neg (not_lt.2 hrejected), ih]
      rfl
    · rw [if_neg hrejected, if_pos (not_le.1 hrejected)]
      rfl

theorem drawRnd_lt {limit rndN : ℕ} {rands : List ℕ} (h : drawRnd limit rands = some rndN) :
    rndN < limit := by
  induction rands with
  | nil => cases h
  | cons first rands ih =>
    unfold drawRnd at h
    split_ifs at h with hrejected
    · exact ih h
    · cases h
      exact not_le.1 hrejected

/-- **A call** returns what the first value that is accepted is good for. -/
theorem getRndNbr_eq (h : RndInterval minN maxN) (rands : List ℕ) :
    getRndNbr minN maxN rands = .ok (rands.findSome? (rndDraw minN maxN)) := by
  rw [← drawRnd_map]
  cases hdraw : drawRnd (bucketSize minN maxN * rndRange minN maxN) rands with
  | none =>
    simp only [getRndNbr, rndBuckets_eq h, hdraw, bind, Except.bind]
    rfl
  | some rndN =>
    have hresult := rndResult_eq h (drawRnd_lt hdraw)
    simp only [getRndNbr, rndBuckets_eq h, hdraw, hresult, bind, Except.bind]
    rfl

/-! ## Fairness -/

/-- The numbers of the interval. -/
def rndNumbers (minN maxN : ℕ) : Finset ℕ := (Finset.range (rndRange minN maxN)).image (minN + ·)

theorem rndDraw_fair (h : RndInterval minN maxN) :
    Fair rndValues (rndNumbers minN maxN) (rndDraw minN maxN) (bucketSize minN maxN) :=
  (fair_bucket h.bucketSize_pos ((limit_le minN maxN).trans (Nat.le_succ _))).image
    fun _ _ heq => Nat.add_left_cancel heq

theorem mem_rndNumbers_iff (h : RndInterval minN maxN) {n : ℕ} :
    n ∈ rndNumbers minN maxN ↔ minN ≤ n ∧ n ≤ maxN := by
  have hle := h.le
  rw [rndNumbers, Finset.mem_image]
  refine ⟨?_, ?_⟩
  · rintro ⟨q, hq, rfl⟩
    have hlt := Finset.mem_range.1 hq
    unfold rndRange at hlt
    omega
  · rintro ⟨hmin, hmax⟩
    refine ⟨n - minN, Finset.mem_range.2 ?_, Nat.add_sub_cancel' hmin⟩
    unfold rndRange
    omega

theorem getRndNbr_singleton (h : RndInterval minN maxN) (rndN : ℕ) :
    getRndNbr minN maxN [rndN] = .ok (rndDraw minN maxN rndN) := by
  rw [getRndNbr_eq h, List.findSome?_cons]
  cases rndDraw minN maxN rndN with
  | none => rfl
  | some n => rfl

/-- Only a remainder and one value more are rejected. -/
theorem card_rejected_le (h : RndInterval minN maxN) :
    (rndValues.filter fun rndN => rndDraw minN maxN rndN = none).card ≤ rndRange minN maxN := by
  have hcard := (rndDraw_fair h).card_rejected
  have hnumbers : (rndNumbers minN maxN).card = rndRange minN maxN := by
    rw [rndNumbers, Finset.card_image_of_injective _ fun _ _ heq => Nat.add_left_cancel heq,
      Finset.card_range]
  rw [hnumbers, rndValues, Finset.card_range] at hcard
  have hdiv : rndRange minN maxN * bucketSize minN maxN + randMax % rndRange minN maxN = randMax :=
    Nat.div_add_mod randMax (rndRange minN maxN)
  have hmod : randMax % rndRange minN maxN < rndRange minN maxN :=
    Nat.mod_lt _ (rndRange_pos minN maxN)
  rw [rndValues]
  omega

/-- **Random numbers** are computed without an error and lie in the interval; each number has the
same count of values, and the rejected values are not more than the numbers. -/
theorem getRndNbr_fair (h : RndInterval minN maxN) :
    (∀ rands, ∃ result, getRndNbr minN maxN rands = .ok result ∧
      ∀ n, result = some n → minN ≤ n ∧ n ≤ maxN) ∧
    (∃ weight, 1 ≤ weight ∧ ∀ n, minN ≤ n → n ≤ maxN →
      (rndValues.filter fun rndN => getRndNbr minN maxN [rndN] = .ok (some n)).card = weight) ∧
    (rndValues.filter fun rndN => getRndNbr minN maxN [rndN] = .ok none).card ≤
      rndRange minN maxN := by
  have hdrawn : ∀ result, (rndValues.filter fun rndN => getRndNbr minN maxN [rndN] = .ok result) =
      rndValues.filter fun rndN => rndDraw minN maxN rndN = result := by
    intro result
    apply Finset.filter_congr
    intro rndN _
    rw [getRndNbr_singleton h, Except.ok.injEq]
  refine ⟨?_, ⟨bucketSize minN maxN, h.bucketSize_pos, ?_⟩, ?_⟩
  · intro rands
    refine ⟨_, getRndNbr_eq h rands, ?_⟩
    intro n hn
    obtain ⟨rndN, -, hdraw⟩ := List.exists_of_findSome?_eq_some hn
    obtain ⟨q, hq, rfl⟩ := Option.map_eq_some_iff.1 hdraw
    refine (mem_rndNumbers_iff h).1 (Finset.mem_image_of_mem _ (Finset.mem_range.2 ?_))
    unfold bucket at hq
    split_ifs at hq with hlt
    cases hq
    exact Nat.div_lt_of_lt_mul hlt
  · intro n hmin hmax
    rw [hdrawn]
    exact (rndDraw_fair h).card_drawn n ((mem_rndNumbers_iff h).2 ⟨hmin, hmax⟩)
  · rw [hdrawn]
    exact card_rejected_le h

theorem getRndNbr_fair_99 :
    ∃ weight, 1 ≤ weight ∧ ∀ n, 1 ≤ n → n ≤ 99 →
      (rndValues.filter fun rndN => getRndNbr 1 99 [rndN] = .ok (some n)).card = weight :=
  (getRndNbr_fair ⟨by decide, by decide, by decide⟩).2.1

end Spartan
