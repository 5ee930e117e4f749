import Mathlib.Data.List.Basic

/-!
# The first elements of their key

`keepFirst key seen l` keeps the elements of `l` whose key was not seen before, where the keys in
`seen` count as seen from the start. With a key in `Option` and `none` in `seen`, the elements
without a key are dropped.

* `mem_keepFirst_iff`: an element is kept when its key occurs neither in `seen` nor in front of
  one of its occurrences.
* `keepFirst_sublist_keepFirst`: a finer key keeps at least as much, in the same order.
* `subset_keepFirst_iff`: when the first elements of one key are kept by another one.
-/

namespace KeepFirst

variable {α κ ν : Type*}

def keepFirst [DecidableEq κ] (key : α → κ) (seen : List κ) : List α → List α
  | [] => []
  | a :: l => if key a ∈ seen then keepFirst key seen l else a :: keepFirst key (key a :: seen) l

/-- `a` comes behind `pre`, and its key is new there. -/
def IsFirst (key : α → κ) (seen : List κ) (pre : List α) (a : α) : Prop :=
  key a ∉ seen ∧ ∀ b ∈ pre, key b ≠ key a

instance [DecidableEq κ] (key : α → κ) (seen : List κ) (pre : List α) (a : α) :
    Decidable (IsFirst key seen pre a) :=
  inferInstanceAs (Decidable (_ ∧ _))

variable {key : α → κ} {name : α → ν} {seen : List κ} {names : List ν}

theorem isFirst_nil {a : α} : IsFirst key seen [] a ↔ key a ∉ seen := by simp [IsFirst]

/-- The elements of `pre` can as well be counted as seen. -/
theorem isFirst_cons {b : α} {pre : List α} {a : α} :
    IsFirst key seen (b :: pre) a ↔ IsFirst key (key b :: seen) pre a := by
  unfold IsFirst
  rw [List.forall_mem_cons, List.mem_cons, not_or]
  refine ⟨?_, ?_⟩
  · intro h
    obtain ⟨hseen, hb, hpre⟩ := h
    exact ⟨⟨hb.symm, hseen⟩, hpre⟩
  · intro h
    obtain ⟨⟨hb, hseen⟩, hpre⟩ := h
    exact ⟨hseen, Ne.symm hb, hpre⟩

/-- A key that is seen already makes no difference. -/
theorem isFirst_cons_of_mem {b : α} {pre : List α} {a : α} (hb : key b ∈ seen) :
    IsFirst key seen (b :: pre) a ↔ IsFirst key seen pre a := by
  refine ⟨?_, ?_⟩
  · intro h
    exact ⟨h.1, fun c hc => h.2 c (List.mem_cons_of_mem b hc)⟩
  · intro h
    refine ⟨h.1, List.forall_mem_cons.2 ⟨?_, h.2⟩⟩
    intro heq
    exact h.1 (heq ▸ hb)

variable [DecidableEq κ]

theorem keepFirst_sublist (key : α → κ) (seen : List κ) (l : List α) :
    (keepFirst key seen l).Sublist l := by
  induction l generalizing seen with
  | nil => exact .slnil
  | cons a l ih =>
    unfold keepFirst
    split_ifs
    · exact (ih seen).cons a
    · exact (ih _).cons_cons a

/-- **What is kept.** -/
theorem mem_keepFirst_iff {l : List α} {a : α} :
    a ∈ keepFirst key seen l ↔ ∃ pre post, l = pre ++ a :: post ∧ IsFirst key seen pre a := by
  induction l generalizing seen with
  | nil => simp [keepFirst]
  | cons b l ih =>
    unfold keepFirst
    split_ifs with hseen
    · rw [ih]
      refine ⟨?_, ?_⟩
      · intro h
        obtain ⟨pre, post, rfl, hfirst⟩ := h
        exact ⟨b :: pre, post, rfl, (isFirst_cons_of_mem hseen).2 hfirst⟩
      · intro h
        obtain ⟨pre, post, hl, hfirst⟩ := h
        cases pre with
        | nil =>
          cases hl
          exact absurd hseen (isFirst_nil.1 hfirst)
        | cons b' pre =>
          cases hl
          exact ⟨pre, post, rfl, (isFirst_cons_of_mem hseen).1 hfirst⟩
    · rw [List.mem_cons, ih]
      refine ⟨?_, ?_⟩
      · intro h
        rcases h with rfl | ⟨pre, post, rfl, hfirst⟩
        · exact ⟨[], l, rfl, isFirst_nil.2 hseen⟩
        · exact ⟨b :: pre, post, rfl, isFirst_cons.2 hfirst⟩
      · intro h
        obtain ⟨pre, post, hl, hfirst⟩ := h
        cases pre with
        | nil =>
          cases hl
          exact .inl rfl
        | cons b' pre =>
          cases hl
          exact .inr ⟨pre, post, rfl, isFirst_cons.1 hfirst⟩

theorem key_notMem_of_mem_keepFirst {l : List α} {a : α} (h : a ∈ keepFirst key seen l) :
    key a ∉ seen := by
  obtain ⟨_, _, -, hfirst⟩ := mem_keepFirst_iff.1 h
  exact hfirst.1

/-- The keys of the elements in front are seen by those behind. -/
theorem keepFirst_append (key : α → κ) (seen : List κ) (l l' : List α) :
    ∃ seen', keepFirst key seen (l ++ l') = keepFirst key seen l ++ keepFirst key seen' l' ∧
      ∀ a ∈ l, key a ∈ seen' := by
  suffices ∃ seen', keepFirst key seen (l ++ l') = keepFirst key seen l ++ keepFirst key seen' l' ∧
      seen ⊆ seen' ∧ ∀ a ∈ l, key a ∈ seen' by
    obtain ⟨seen', happend, -, hkeys⟩ := this
    exact ⟨seen', happend, hkeys⟩
  induction l generalizing seen with
  | nil => exact ⟨seen, rfl, List.Subset.refl _, by simp⟩
  | cons a l ih =>
    simp only [List.cons_append, keepFirst]
    split_ifs with hseen
    · obtain ⟨seen', happend, hsub, hkeys⟩ := ih seen
      exact ⟨seen', happend, hsub, List.forall_mem_cons.2 ⟨hsub hseen, hkeys⟩⟩
    · obtain ⟨seen', happend, hsub, hkeys⟩ := ih (key a :: seen)
      rw [List.cons_subset] at hsub
      refine ⟨seen', ?_, hsub.2, List.forall_mem_cons.2 ⟨hsub.1, hkeys⟩⟩
      rw [happend, List.cons_append]

/-- **What is kept, by position:** the elements whose key occurs nowhere in front of them. -/
theorem keepFirst_eq_filter (key : α → κ) (l : List α) :
    keepFirst key [] l =
      (l.zipIdx.filter fun p => (l.take p.2).all fun b => key b ≠ key p.1).map Prod.fst := by
  suffices ∀ (pre rest : List α) (seen : List κ), (∀ k, k ∈ seen ↔ ∃ b ∈ pre, key b = k) →
      keepFirst key seen rest =
        ((rest.zipIdx pre.length).filter fun p =>
          ((pre ++ rest).take p.2).all fun b => key b ≠ key p.1).map Prod.fst from
    this [] l [] (by simp)
  intro pre rest seen hseen
  induction rest generalizing pre seen with
  | nil => rfl
  | cons a rest ih =>
    have hfront :
        ((pre ++ a :: rest).take pre.length).all (fun b => decide (key b ≠ key a)) = true ↔
          key a ∉ seen := by
      rw [List.take_left, List.all_eq_true, hseen]
      simp
    have ih := fun seen' h => ih (pre ++ [a]) seen' h
    rw [List.length_append, List.append_assoc, List.singleton_append] at ih
    unfold keepFirst
    rw [List.zipIdx_cons, List.filter_cons]
    simp only [hfront]
    by_cases hkey : key a ∈ seen
    · rw [if_pos hkey, if_neg (not_not.2 hkey)]
      refine ih seen fun k => ?_
      rw [hseen]
      simp only [List.mem_append, List.mem_singleton, or_and_right, exists_or, exists_eq_left]
      refine ⟨?_, ?_⟩
      · exact .inl
      · intro h
        rcases h with h | rfl
        · exact h
        · exact (hseen _).1 hkey
    · rw [if_neg hkey, if_pos hkey, List.map_cons]
      congr 1
      refine ih _ fun k => ?_
      rw [List.mem_cons, hseen]
      simp only [List.mem_append, List.mem_singleton, or_and_right, exists_or, exists_eq_left]
      rw [or_comm, eq_comm]

variable [DecidableEq ν]

/-- If the first elements by name are first by key as well, they are kept, in order. -/
theorem keepFirst_sublist_keepFirst {l : List α}
    (h : ∀ pre a post, l = pre ++ a :: post → IsFirst name names pre a →
      IsFirst key seen pre a) :
    (keepFirst name names l).Sublist (keepFirst key seen l) := by
  induction l generalizing names seen with
  | nil => exact .slnil
  | cons a l ih =>
    have hhead := h [] a l rfl
    rw [isFirst_nil, isFirst_nil] at hhead
    unfold keepFirst
    by_cases hname : name a ∈ names
    · rw [if_pos hname]
      split_ifs with hkey
      · apply ih
        intro pre b post hl hfirst
        exact (isFirst_cons_of_mem hkey).1
          (h (a :: pre) b post (by rw [hl, List.cons_append])
            ((isFirst_cons_of_mem hname).2 hfirst))
      · apply List.Sublist.cons
        apply ih
        intro pre b post hl hfirst
        exact isFirst_cons.1 (h (a :: pre) b post (by rw [hl, List.cons_append])
          ((isFirst_cons_of_mem hname).2 hfirst))
    · rw [if_neg hname, if_neg (hhead hname)]
      apply List.Sublist.cons_cons
      apply ih
      intro pre b post hl hfirst
      exact isFirst_cons.1 (h (a :: pre) b post (by rw [hl, List.cons_append])
        (isFirst_cons.2 hfirst))

omit [DecidableEq ν] in
/-- An element that is first by name at one place and first by key at another is so at the same
place. -/
theorem isFirst_of_mem_keepFirst {pre post : List α} {a : α}
    (hname : IsFirst name names pre a) (hmem : a ∈ keepFirst key seen (pre ++ a :: post)) :
    IsFirst key seen pre a := by
  obtain ⟨pre', post', hsplit, hkey⟩ := mem_keepFirst_iff.1 hmem
  have hpre : a ∉ pre := fun h => hname.2 a h rfl
  have hpre' : a ∉ pre' := fun h => hkey.2 a h rfl
  rcases List.append_eq_append_iff.1 hsplit with ⟨mid, rfl, hmid⟩ | ⟨mid, rfl, hmid⟩
  · cases mid with
    | nil => rwa [List.append_nil] at hkey
    | cons b mid =>
      cases hmid
      exact absurd (by simp) hpre'
  · cases mid with
    | nil => rwa [List.append_nil]
    | cons b mid =>
      cases hmid
      exact absurd (by simp) hpre

/-- **The first elements by name** are kept exactly when they are first by key. -/
theorem subset_keepFirst_iff {l : List α} :
    keepFirst name names l ⊆ keepFirst key seen l ↔
      ∀ pre a post, l = pre ++ a :: post → IsFirst name names pre a → IsFirst key seen pre a := by
  refine ⟨?_, ?_⟩
  · intro hsub pre a post hl hname
    have hmem := hsub (mem_keepFirst_iff.2 ⟨pre, post, hl, hname⟩)
    rw [hl] at hmem
    exact isFirst_of_mem_keepFirst hname hmem
  · intro h
    exact (keepFirst_sublist_keepFirst h).subset

end KeepFirst
