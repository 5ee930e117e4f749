import Mathlib.Data.List.Basic

/-!
# Listings that are pruned by the answers

The items of a listing are asked one after the other, and an answer may suppress items behind it.
An item that is not answered ends everything.

* `prune_append`: the second part of a listing goes on behind the answers to the first.
* `prune_of_suppressed`: suppressed items make no difference.
* `prune_reported_sublist`: each item is asked at most once, in the order of the listing.
* `prune_of_final`: what changes when an answer is made final.
* `mem_front_of_split`, `eq_nil_of_last`: which of two items comes first.
-/

namespace Pruning

variable {ι α : Type*}

structure Rule (ι α : Type*) where
  /-- The answer to an item, behind the items that were answered. -/
  ask : List (ι × α) → ι → Option α
  suppresses : ι → α → ι → Bool

namespace Rule

def Suppressed (r : Rule ι α) (log : List (ι × α)) (i : ι) : Prop :=
  ∃ p ∈ log, r.suppresses p.1 p.2 i = true

instance (r : Rule ι α) (log : List (ι × α)) (i : ι) : Decidable (r.Suppressed log i) :=
  inferInstanceAs (Decidable (∃ p ∈ log, r.suppresses p.1 p.2 i = true))

/-- The answers to a listing, and the item that was not answered. -/
def prune (r : Rule ι α) (log : List (ι × α)) : List ι → List (ι × α) × Option ι
  | [] => ([], none)
  | i :: l =>
    if r.Suppressed log i then r.prune log l
    else
      match r.ask log i with
      | none => ([], some i)
      | some a => ((i, a) :: (r.prune (log ++ [(i, a)]) l).1, (r.prune (log ++ [(i, a)]) l).2)

/-- The items that are asked. -/
def asked (r : Rule ι α) (log : List (ι × α)) (l : List ι) : List ι :=
  (r.prune log l).1.map Prod.fst ++ (r.prune log l).2.toList

variable {r : Rule ι α} {log log' : List (ι × α)} {i : ι} {a : α} {l l₁ l₂ : List ι}

theorem suppressed_append :
    r.Suppressed (log ++ log') i ↔ r.Suppressed log i ∨ r.Suppressed log' i := by
  simp only [Suppressed, List.mem_append, or_and_right, exists_or]

theorem suppressed_singleton : r.Suppressed [(i, a)] = fun j => r.suppresses i a j = true := by
  funext j
  simp [Suppressed]

/-! ## One item -/

@[simp]
theorem prune_nil : r.prune log [] = ([], none) := rfl

theorem prune_cons_of_suppressed (h : r.Suppressed log i) :
    r.prune log (i :: l) = r.prune log l := by
  rw [prune, if_pos h]

theorem prune_cons_of_none (h : ¬r.Suppressed log i) (ha : r.ask log i = none) :
    r.prune log (i :: l) = ([], some i) := by
  rw [prune, if_neg h, ha]

theorem prune_cons_of_some (h : ¬r.Suppressed log i) (ha : r.ask log i = some a) :
    r.prune log (i :: l) =
      ((i, a) :: (r.prune (log ++ [(i, a)]) l).1, (r.prune (log ++ [(i, a)]) l).2) := by
  rw [prune, if_neg h, ha]

/-! ## Parts of a listing -/

theorem prune_append_of_some (h : (r.prune log l₁).2 = some i) :
    r.prune log (l₁ ++ l₂) = r.prune log l₁ := by
  induction l₁ generalizing log with
  | nil => cases h
  | cons j l ih =>
    rw [List.cons_append]
    by_cases hj : r.Suppressed log j
    · rw [prune_cons_of_suppressed hj] at h ⊢
      rw [prune_cons_of_suppressed hj]
      exact ih h
    · cases ha : r.ask log j with
      | none => rw [prune_cons_of_none hj ha, prune_cons_of_none hj ha]
      | some a =>
        rw [prune_cons_of_some hj ha] at h
        rw [prune_cons_of_some hj ha, prune_cons_of_some hj ha, ih h]

/-- **The second part** goes on behind the answers to the first. -/
theorem prune_append (h : (r.prune log l₁).2 = none) :
    r.prune log (l₁ ++ l₂) =
      ((r.prune log l₁).1 ++ (r.prune (log ++ (r.prune log l₁).1) l₂).1,
        (r.prune (log ++ (r.prune log l₁).1) l₂).2) := by
  induction l₁ generalizing log with
  | nil => simp
  | cons j l ih =>
    rw [List.cons_append]
    by_cases hj : r.Suppressed log j
    · rw [prune_cons_of_suppressed hj] at h ⊢
      rw [prune_cons_of_suppressed hj]
      exact ih h
    · cases ha : r.ask log j with
      | none =>
        rw [prune_cons_of_none hj ha] at h
        cases h
      | some a =>
        rw [prune_cons_of_some hj ha] at h
        rw [prune_cons_of_some hj ha, prune_cons_of_some hj ha, ih h]
        simp only [List.append_assoc, List.cons_append, List.nil_append]

theorem prune_of_suppressed (h : ∀ i ∈ l, r.Suppressed log i) : r.prune log l = ([], none) := by
  induction l with
  | nil => rfl
  | cons i l ih =>
    rw [List.forall_mem_cons] at h
    rw [prune_cons_of_suppressed h.1, ih h.2]

/-- The first item that is not suppressed is asked. -/
theorem asked_ne_nil (h : ∃ i ∈ l, ¬r.Suppressed log i) :
    ∃ i ∈ l, ¬r.Suppressed log i ∧ ∃ rest, r.asked log l = i :: rest := by
  induction l with
  | nil => simp at h
  | cons j l ih =>
    by_cases hj : r.Suppressed log j
    · have hl : ∃ i ∈ l, ¬r.Suppressed log i := by
        obtain ⟨i, hi, hnot⟩ := h
        rcases List.mem_cons.1 hi with rfl | hi
        · exact absurd hj hnot
        · exact ⟨i, hi, hnot⟩
      obtain ⟨i, hi, hnot, rest, hrest⟩ := ih hl
      refine ⟨i, List.mem_cons_of_mem j hi, hnot, rest, ?_⟩
      rw [asked, prune_cons_of_suppressed hj]
      exact hrest
    · refine ⟨j, List.mem_cons_self, hj, ?_⟩
      cases ha : r.ask log j with
      | none => exact ⟨[], by rw [asked, prune_cons_of_none hj ha]; rfl⟩
      | some a => exact ⟨_, by rw [asked, prune_cons_of_some hj ha]; rfl⟩

/-! ## What is reported -/

theorem asked_sublist : (r.asked log l).Sublist l := by
  induction l generalizing log with
  | nil => exact List.Sublist.refl _
  | cons j l ih =>
    by_cases hj : r.Suppressed log j
    · rw [asked, prune_cons_of_suppressed hj]
      exact ih.cons j
    · cases ha : r.ask log j with
      | none =>
        rw [asked, prune_cons_of_none hj ha]
        exact (List.nil_sublist l).cons_cons j
      | some a =>
        rw [asked, prune_cons_of_some hj ha]
        exact ih.cons_cons j

theorem prune_reported_sublist : ((r.prune log l).1.map Prod.fst).Sublist l :=
  (List.sublist_append_left _ _).trans asked_sublist

theorem mem_of_reported {p : ι × α} (hp : p ∈ (r.prune log l).1) : p.1 ∈ l :=
  prune_reported_sublist.subset (List.mem_map_of_mem hp)

theorem mem_of_not_answered (h : (r.prune log l).2 = some i) : i ∈ l :=
  asked_sublist.subset (List.mem_append_right _ (by rw [h]; exact List.mem_singleton_self i))

/-- What is suppressed is not asked. -/
theorem not_suppressed_of_asked (h : i ∈ r.asked log l) : ¬r.Suppressed log i := by
  induction l generalizing log with
  | nil => cases h
  | cons j l ih =>
    by_cases hj : r.Suppressed log j
    · rw [asked, prune_cons_of_suppressed hj] at h
      exact ih h
    · cases ha : r.ask log j with
      | none =>
        rw [asked, prune_cons_of_none hj ha] at h
        rw [List.mem_singleton.1 h]
        exact hj
      | some a =>
        rw [asked, prune_cons_of_some hj ha] at h
        rcases List.mem_cons.1 h with rfl | h
        · exact hj
        · exact fun hi => ih h (suppressed_append.2 (.inl hi))

/-- An item is answered by `ask`. -/
theorem ask_of_reported {p : ι × α} (hp : p ∈ (r.prune log l).1) :
    ∃ log', r.ask log' p.1 = some p.2 := by
  induction l generalizing log with
  | nil => cases hp
  | cons j l ih =>
    by_cases hj : r.Suppressed log j
    · rw [prune_cons_of_suppressed hj] at hp
      exact ih hp
    · cases ha : r.ask log j with
      | none =>
        rw [prune_cons_of_none hj ha] at hp
        cases hp
      | some a =>
        rw [prune_cons_of_some hj ha] at hp
        rcases List.mem_cons.1 hp with rfl | hp
        · exact ⟨log, ha⟩
        · exact ih hp

theorem ask_of_not_answered (h : (r.prune log l).2 = some i) : ∃ log', r.ask log' i = none := by
  induction l generalizing log with
  | nil => cases h
  | cons j l ih =>
    by_cases hj : r.Suppressed log j
    · rw [prune_cons_of_suppressed hj] at h
      exact ih h
    · cases ha : r.ask log j with
      | none =>
        rw [prune_cons_of_none hj ha] at h
        exact ⟨log, Option.some.inj h ▸ ha⟩
      | some a =>
        rw [prune_cons_of_some hj ha] at h
        exact ih h

/-! ## A final answer -/

/-- The rule in which the answer `final` suppresses everything. -/
def withFinal [DecidableEq α] (r : Rule ι α) (final : α) : Rule ι α where
  ask := r.ask
  suppresses i a j := a == final || r.suppresses i a j

variable [DecidableEq α] {final : α}

theorem withFinal_suppressed_iff (hlog : ∀ p ∈ log, p.2 ≠ final) :
    (r.withFinal final).Suppressed log i ↔ r.Suppressed log i := by
  refine ⟨?_, ?_⟩
  · intro h
    obtain ⟨p, hp, h⟩ := h
    simp only [withFinal, Bool.or_eq_true, beq_iff_eq] at h
    exact ⟨p, hp, h.resolve_left (hlog p hp)⟩
  · intro h
    obtain ⟨p, hp, h⟩ := h
    exact ⟨p, hp, by simp [withFinal, h]⟩

theorem withFinal_suppressed_of_final {p : ι × α} (hp : p ∈ log) (hfinal : p.2 = final) :
    (r.withFinal final).Suppressed log i :=
  ⟨p, hp, by simp [withFinal, hfinal]⟩

/-- **A final answer.** Without it in the answers, `withFinal` changes nothing. Otherwise the
rules agree up to that answer, behind which only `r` goes on. -/
theorem prune_of_final (r : Rule ι α) (l : List ι) (hlog : ∀ p ∈ log, p.2 ≠ final) :
    ((∀ p ∈ ((r.withFinal final).prune log l).1, p.2 ≠ final) ∧
      r.prune log l = (r.withFinal final).prune log l) ∨
    ∃ l₁ x l₂ answers, l = l₁ ++ x :: l₂ ∧ (answers.map Prod.fst).Sublist l₁ ∧
      (∀ p ∈ answers, p.2 ≠ final) ∧ ¬r.Suppressed (log ++ answers) x ∧
      (r.withFinal final).prune log l = (answers ++ [(x, final)], none) ∧
      r.prune log l =
        (answers ++ (x, final) :: (r.prune (log ++ answers ++ [(x, final)]) l₂).1,
          (r.prune (log ++ answers ++ [(x, final)]) l₂).2) := by
  induction l generalizing log with
  | nil => exact .inl ⟨by simp, rfl⟩
  | cons j l ih =>
    by_cases hj : r.Suppressed log j
    · have hj' := (withFinal_suppressed_iff hlog).2 hj
      rw [prune_cons_of_suppressed hj, prune_cons_of_suppressed hj']
      rcases ih hlog with h | ⟨l₁, x, l₂, answers, rfl, hsub, h⟩
      · exact .inl h
      · exact .inr ⟨j :: l₁, x, l₂, answers, rfl, hsub.cons j, h⟩
    · have hj' : ¬(r.withFinal final).Suppressed log j :=
        fun h => hj ((withFinal_suppressed_iff hlog).1 h)
      cases ha : r.ask log j with
      | none =>
        rw [prune_cons_of_none hj ha, prune_cons_of_none hj' ha]
        exact .inl ⟨by simp, rfl⟩
      | some a =>
        rw [prune_cons_of_some hj ha, prune_cons_of_some hj' ha]
        by_cases hfinal : a = final
        · subst hfinal
          have hall : ∀ i ∈ l, (r.withFinal a).Suppressed (log ++ [(j, a)]) i := fun i _ =>
            withFinal_suppressed_of_final (List.mem_append_right log (List.mem_singleton_self _))
              rfl
          rw [prune_of_suppressed hall]
          exact .inr ⟨[], j, l, [], rfl, List.Sublist.refl _, by simp, by simpa using hj, rfl,
            by simp⟩
        · have hnext : ∀ p ∈ log ++ [(j, a)], p.2 ≠ final := by
            intro p hp
            rcases List.mem_append.1 hp with hp | hp
            · exact hlog p hp
            · rw [List.mem_singleton.1 hp]
              exact hfinal
          rcases ih hnext with ⟨hnone, heq⟩ | ⟨l₁, x, l₂, answers, rfl, hsub, hans, hx, hfin, heq⟩
          · refine .inl ⟨?_, by rw [heq]⟩
            intro p hp
            rcases List.mem_cons.1 hp with rfl | hp
            · exact hfinal
            · exact hnone p hp
          · refine .inr ⟨j :: l₁, x, l₂, (j, a) :: answers, rfl, hsub.cons_cons j, ?_, ?_, ?_, ?_⟩
            · intro p hp
              rcases List.mem_cons.1 hp with rfl | hp
              · exact hfinal
              · exact hans p hp
            · rwa [List.append_assoc] at hx
            · rw [hfin]
              rfl
            · rw [heq]
              simp only [List.append_assoc, List.cons_append, List.nil_append]

end Rule

/-! ## Places in a listing -/

section Places

variable {l m₁ m₂ : List ι} {j : ι}

/-- What only the last item satisfies has nothing behind it. -/
theorem eq_nil_of_last {P : ι → Prop} {pre pre' post : List ι} (hpre : ∀ k ∈ pre, ¬P k)
    (heq : pre ++ [i] = pre' ++ j :: post) (hj : P j) : post = [] := by
  rcases List.eq_nil_or_concat post with rfl | ⟨post, w, rfl⟩
  · rfl
  · rw [List.concat_eq_append, ← List.cons_append, ← List.append_assoc] at heq
    have hmem : j ∈ pre := by
      rw [(List.append_inj' heq rfl).1]
      simp
    exact absurd hj (hpre j hmem)

/-- Of two items, the one that comes first is in front of the other. -/
theorem mem_front_of_split (h : l₁ ++ i :: l₂ = m₁ ++ j :: m₂) (hne : i ≠ j) (hj : j ∉ l₁) :
    i ∈ m₁ := by
  rcases List.append_eq_append_iff.1 h with ⟨_ | ⟨z, m⟩, hm, htail⟩ | ⟨_ | ⟨z, m⟩, hm, htail⟩
  · exact absurd (List.cons.inj htail).1 hne
  · rw [hm, (List.cons.inj htail).1]
    simp
  · exact absurd (List.cons.inj htail).1.symm hne
  · rw [hm, (List.cons.inj htail).1] at hj
    simp at hj

theorem mem_of_last (h : l ++ [j] = l₁ ++ i :: l₂) (hne : i ≠ j) : j ∈ l₂ := by
  rcases List.eq_nil_or_concat l₂ with rfl | ⟨l₂, w, rfl⟩
  · exact absurd (List.singleton_inj.1 (List.append_inj' h rfl).2).symm hne
  · rw [List.concat_eq_append, ← List.cons_append, ← List.append_assoc] at h
    rw [List.singleton_inj.1 (List.append_inj' h rfl).2]
    simp

theorem eq_of_singleton (h : [j] = l₁ ++ i :: l₂) : i = j := by
  have hmem : i ∈ [j] := by
    rw [h]
    simp
  exact List.mem_singleton.1 hmem

end Places

end Pruning
