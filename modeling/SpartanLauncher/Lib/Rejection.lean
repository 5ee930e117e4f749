import Mathlib.Algebra.BigOperators.Option
import Mathlib.Algebra.BigOperators.Group.Finset.Basic
import Mathlib.Order.Interval.Finset.Nat

/-!
# Fair draws with rejection

A draw takes a value of a finite source to an outcome, or rejects it. It is fair when each outcome
has the same number of values.

* `Fair.card_rejected`: how many values a fair draw rejects.
* `Fair.image`: a fair draw with other names for the outcomes.
* `fair_bucket`: buckets of equal size, with the values behind the last bucket rejected.
-/

namespace Rejection

variable {α β γ : Type*} [DecidableEq β] [DecidableEq γ]

/-- Each outcome is drawn from `weight` values of the source, and nothing else is drawn. -/
structure Fair (source : Finset α) (outcomes : Finset β) (draw : α → Option β) (weight : ℕ) :
    Prop where
  mem_outcomes : ∀ a ∈ source, ∀ b, draw a = some b → b ∈ outcomes
  card_drawn : ∀ b ∈ outcomes, (source.filter fun a => draw a = some b).card = weight

variable {source : Finset α} {outcomes : Finset β} {draw : α → Option β} {weight : ℕ}

/-- The values are the rejected ones and those of the outcomes. -/
theorem Fair.card_rejected (h : Fair source outcomes draw weight) :
    (source.filter fun a => draw a = none).card + outcomes.card * weight = source.card := by
  have hmaps : ∀ a ∈ source, draw a ∈ Finset.insertNone outcomes := by
    intro a ha
    exact Finset.mem_insertNone.2 fun b hb => h.mem_outcomes a ha b hb
  rw [Finset.card_eq_sum_card_fiberwise hmaps, Finset.sum_insertNone,
    Finset.sum_const_nat h.card_drawn]

/-- Renaming the outcomes. -/
theorem Fair.image (h : Fair source outcomes draw weight) {f : β → γ}
    (hf : Function.Injective f) :
    Fair source (outcomes.image f) (fun a => (draw a).map f) weight := by
  refine ⟨?_, ?_⟩
  · intro a ha c hc
    obtain ⟨b, hb, rfl⟩ := Option.map_eq_some_iff.1 hc
    exact Finset.mem_image_of_mem f (h.mem_outcomes a ha b hb)
  · intro c hc
    obtain ⟨b, hb, rfl⟩ := Finset.mem_image.1 hc
    rw [← h.card_drawn b hb]
    congr 1
    apply Finset.filter_congr
    intro a _
    rw [Option.map_eq_some_iff]
    refine ⟨?_, ?_⟩
    · rintro ⟨b', hb', heq⟩
      rw [hb', hf heq]
    · intro hdraw
      exact ⟨b, hdraw, rfl⟩

/-- The bucket of a value, for `k` buckets of `size`. -/
def bucket (size k n : ℕ) : Option ℕ := if n < size * k then some (n / size) else none

theorem bucket_eq_some_iff {size k n q : ℕ} (hsize : 0 < size) (hq : q < k) :
    bucket size k n = some q ↔ q * size ≤ n ∧ n < (q + 1) * size := by
  have hlast : (q + 1) * size ≤ size * k := by
    rw [Nat.mul_comm size]
    exact Nat.mul_le_mul_right size hq
  unfold bucket
  split_ifs with hn
  · rw [Option.some.injEq, Nat.div_eq_iff hsize, Nat.add_mul]
    omega
  · simp only [false_iff, not_and]
    omega

theorem fair_bucket {size k N : ℕ} (hsize : 0 < size) (hN : size * k ≤ N) :
    Fair (Finset.range N) (Finset.range k) (bucket size k) size := by
  refine ⟨?_, ?_⟩
  · intro n _ q hq
    unfold bucket at hq
    split_ifs at hq with hn
    cases hq
    exact Finset.mem_range.2 (Nat.div_lt_of_lt_mul hn)
  · intro q hq
    have hq := Finset.mem_range.1 hq
    have hIco : ((Finset.range N).filter fun n => bucket size k n = some q) =
        Finset.Ico (q * size) ((q + 1) * size) := by
      ext n
      rw [Finset.mem_filter, Finset.mem_range, Finset.mem_Ico, bucket_eq_some_iff hsize hq]
      refine ⟨fun h => h.2, ?_⟩
      intro h
      have hlast : (q + 1) * size ≤ size * k := by
        rw [Nat.mul_comm size]
        exact Nat.mul_le_mul_right size hq
      exact ⟨by omega, h⟩
    rw [hIco, Nat.card_Ico, Nat.add_mul]
    omega

end Rejection
