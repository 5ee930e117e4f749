import Mathlib.Data.List.Basic
import Mathlib.Tactic.Common

/-!
# Searching for an alternation of literals

A regular expression that is a finite alternation of literals, on a text of which more may follow:
`search` finds the leftmost match, takes the first alternative that matches there, and reports
whether it looked at the end of the text on the way.

* `search_append`: a match found without looking at the end stays the match when the text goes on.
* `search_take`: a match is found as soon as the text up to its end is there.
* `pieces`: the pieces of a text between the leftmost matches.
-/

namespace Alternation

variable {α : Type*} [DecidableEq α]

/-- The first alternative that matches at the beginning of the text, and whether an alternative
tried before it, or all of them, ran into the end of the text. -/
def matchHere : List (List α) → List α → Option ℕ × Bool
  | [], _ => (none, false)
  | lit :: alts, text =>
    if lit.isPrefixOf text then (some lit.length, false)
    else
      let (len, hitEnd) := matchHere alts text
      (len, text.isPrefixOf lit || hitEnd)

/-- The leftmost match, as the length of the text in front of it and the length of the match. -/
def search (alts : List (List α)) : List α → Option (ℕ × ℕ) × Bool
  | [] => (none, true)
  | c :: text =>
    match matchHere alts (c :: text) with
    | (some len, hitEnd) => (some (0, len), hitEnd)
    | (none, hitEnd) =>
      let (found, hitEnd') := search alts text
      (found.map fun (skip, len) => (skip + 1, len), hitEnd || hitEnd')

variable {alts : List (List α)} {text more : List α} {len skip : ℕ} {hitEnd : Bool}

/-! ## Texts that go on -/

theorem isPrefixOf_append_of_not_hit {lit : List α} (hmore : ¬ text.isPrefixOf lit = true) :
    lit.isPrefixOf (text ++ more) = lit.isPrefixOf text := by
  rw [Bool.eq_iff_iff, List.isPrefixOf_iff_prefix, List.isPrefixOf_iff_prefix]
  rw [List.isPrefixOf_iff_prefix] at hmore
  refine ⟨?_, ?_⟩
  · intro h
    rcases List.prefix_or_prefix_of_prefix h (List.prefix_append text more) with h' | h'
    · exact h'
    · exact absurd h' hmore
  · exact fun h => h.trans (List.prefix_append text more)

theorem not_prefix_of_append {lit : List α} (h : ¬ text.isPrefixOf lit = true) :
    ¬ (text ++ more).isPrefixOf lit = true := by
  rw [List.isPrefixOf_iff_prefix] at h ⊢
  exact fun h' => h ((List.prefix_append text more).trans h')

theorem matchHere_append (text more : List α) (h : (matchHere alts text).2 = false) :
    matchHere alts (text ++ more) = matchHere alts text := by
  induction alts with
  | nil => rfl
  | cons lit alts ih =>
    simp only [matchHere] at h ⊢
    by_cases hlit : lit.isPrefixOf text = true
    · have hlit' : lit.isPrefixOf (text ++ more) = true := by
        rw [List.isPrefixOf_iff_prefix] at hlit ⊢
        exact hlit.trans (List.prefix_append text more)
      rw [if_pos hlit, if_pos hlit']
    · rw [if_neg hlit] at h
      simp only [Bool.or_eq_false_iff] at h
      have hhit : ¬ text.isPrefixOf lit = true := by simp [h.1]
      rw [isPrefixOf_append_of_not_hit hhit, if_neg hlit, if_neg hlit, ih h.2, h.2,
        Bool.eq_false_iff.2 hhit, Bool.eq_false_iff.2 (not_prefix_of_append hhit)]

/-- **Stability.** What was found without looking at the end does not depend on what follows. -/
theorem search_append (h : search alts text = (some (skip, len), false)) :
    search alts (text ++ more) = (some (skip, len), false) := by
  induction text generalizing skip with
  | nil => simp [search] at h
  | cons c text ih =>
    have hhere : (matchHere alts (c :: text)).2 = false := by
      simp only [search] at h
      split at h
      · next heq => rw [heq]; exact (Prod.mk.inj h).2
      · next heq => rw [heq]; exact (Bool.or_eq_false_iff.1 (Prod.mk.inj h).2).1
    have hmore : matchHere alts (c :: (text ++ more)) = matchHere alts (c :: text) :=
      matchHere_append (c :: text) more hhere
    simp only [List.cons_append, search, hmore] at h ⊢
    split at h
    · exact h
    · obtain ⟨hfound, hhit⟩ := Prod.mk.inj h
      obtain ⟨hhit, hhit'⟩ := Bool.or_eq_false_iff.1 hhit
      obtain ⟨⟨skip', len'⟩, hlater, hskip⟩ := Option.map_eq_some_iff.1 hfound
      cases hskip
      have hrest : search alts text = (some (skip', len'), false) := Prod.ext hlater hhit'
      rw [ih hrest]
      simp [hhit]

theorem matchHere_none_of_append (text more : List α)
    (h : (matchHere alts (text ++ more)).1 = none) :
    (matchHere alts text).1 = none := by
  induction alts with
  | nil => rfl
  | cons lit alts ih =>
    simp only [matchHere] at h ⊢
    have hlit : ¬ lit.isPrefixOf text = true := by
      intro hlit
      have hlit' : lit.isPrefixOf (text ++ more) = true := by
        rw [List.isPrefixOf_iff_prefix] at hlit ⊢
        exact hlit.trans (List.prefix_append text more)
      simp [hlit'] at h
    by_cases hlit' : lit.isPrefixOf (text ++ more) = true
    · simp [hlit'] at h
    · rw [if_neg hlit'] at h
      rw [if_neg hlit]
      exact ih h

theorem matchHere_take (text more : List α)
    (h : (matchHere alts (text ++ more)).1 = some len)
    (hlen : len ≤ text.length) : (matchHere alts text).1 = some len := by
  induction alts with
  | nil => cases h
  | cons lit alts ih =>
    simp only [matchHere] at h ⊢
    by_cases hlit' : lit.isPrefixOf (text ++ more) = true
    · rw [if_pos hlit'] at h
      cases h
      have hlit : lit.isPrefixOf text = true := by
        rw [List.isPrefixOf_iff_prefix] at hlit' ⊢
        exact List.prefix_of_prefix_length_le hlit' (List.prefix_append _ _) hlen
      rw [if_pos hlit]
    · rw [if_neg hlit'] at h
      by_cases hlit : lit.isPrefixOf text = true
      · exact absurd (List.isPrefixOf_iff_prefix.2
          ((List.isPrefixOf_iff_prefix.1 hlit).trans (List.prefix_append text more))) hlit'
      · rw [if_neg hlit]
        exact ih h

/-- **Progress.** The match is found once the text up to its end is there. -/
theorem search_take (h : (search alts (text ++ more)).1 = some (skip, len))
    (hlen : skip + len ≤ text.length) (hpos : 0 < len) :
    (search alts text).1 = some (skip, len) := by
  induction text generalizing skip with
  | nil =>
    simp only [List.length_nil] at hlen
    omega
  | cons c text ih =>
    simp only [List.cons_append, search] at h ⊢
    split at h
    · next heq =>
      cases h
      have hhere := matchHere_take (c :: text) more
        (by rw [List.cons_append, heq]) (by simpa using hlen)
      split
      · next heq' => rw [heq'] at hhere; exact congrArg (Option.map (Prod.mk 0)) hhere
      · next heq' => rw [heq'] at hhere; cases hhere
    · next _ heq =>
      have hnone := matchHere_none_of_append (c :: text) more
        (by rw [List.cons_append, heq])
      obtain ⟨⟨skip', len'⟩, hlater, hskip⟩ := Option.map_eq_some_iff.1 h
      cases hskip
      have hrest := ih hlater (by simp only [List.length_cons] at hlen; omega)
      split
      · next heq' => rw [heq'] at hnone; cases hnone
      · simp [hrest]

/-! ## Bounds -/

theorem matchHere_le (h : (matchHere alts text).1 = some len) : len ≤ text.length := by
  induction alts with
  | nil => cases h
  | cons lit alts ih =>
    simp only [matchHere] at h
    by_cases hlit : lit.isPrefixOf text = true
    · rw [if_pos hlit] at h
      cases h
      exact (List.isPrefixOf_iff_prefix.1 hlit).length_le
    · rw [if_neg hlit] at h
      exact ih h

theorem matchHere_pos (halts : ∀ lit ∈ alts, lit ≠ []) (h : (matchHere alts text).1 = some len) :
    0 < len := by
  induction alts with
  | nil => cases h
  | cons lit alts ih =>
    simp only [matchHere] at h
    by_cases hlit : lit.isPrefixOf text = true
    · rw [if_pos hlit] at h
      cases h
      exact List.length_pos_iff.2 (halts lit List.mem_cons_self)
    · rw [if_neg hlit] at h
      exact ih (fun lit' hlit' => halts lit' (List.mem_cons_of_mem lit hlit')) h

/-- A match lies within the text and, if no literal is empty, is not empty. -/
theorem search_bounds (halts : ∀ lit ∈ alts, lit ≠ [])
    (h : (search alts text).1 = some (skip, len)) : skip + len ≤ text.length ∧ 0 < len := by
  induction text generalizing skip with
  | nil => cases h
  | cons c text ih =>
    simp only [search] at h
    split at h
    · next heq =>
      cases h
      have hhere := congrArg Prod.fst heq
      exact ⟨by simpa using matchHere_le hhere, matchHere_pos halts hhere⟩
    · obtain ⟨⟨skip', len'⟩, hlater, hskip⟩ := Option.map_eq_some_iff.1 h
      cases hskip
      obtain ⟨hle, hpos⟩ := ih hlater
      exact ⟨by simp only [List.length_cons]; omega, hpos⟩

theorem search_none_of_append (text more : List α) (h : (search alts (text ++ more)).1 = none) :
    (search alts text).1 = none := by
  induction text with
  | nil => rfl
  | cons c text ih =>
    simp only [List.cons_append, search] at h ⊢
    split at h
    · cases h
    · next heq =>
      have hhere := matchHere_none_of_append (c :: text) more
        (by rw [List.cons_append, heq])
      split
      · next heq' => rw [heq'] at hhere; cases hhere
      · simp [ih (Option.map_eq_none_iff.1 h)]

/-- The text up to the end of its match has the same match. -/
theorem search_take_self (halts : ∀ lit ∈ alts, lit ≠ [])
    (h : (search alts text).1 = some (skip, len)) :
    (search alts (text.take (skip + len))).1 = some (skip, len) := by
  obtain ⟨hle, hpos⟩ := search_bounds halts h
  rw [← List.take_append_drop (skip + len) text] at h
  exact search_take h (Nat.le_of_eq (List.length_take_of_le hle).symm) hpos

/-! ## A match in a part of a text -/

/-- The same match is found from any place up to its beginning. -/
theorem search_drop (h : (search alts text).1 = some (skip, len)) {i : ℕ} (hi : i ≤ skip) :
    (search alts (text.drop i)).1 = some (skip - i, len) := by
  induction text generalizing skip i with
  | nil => cases h
  | cons c text ih =>
    cases i with
    | zero => exact h
    | succ i =>
      simp only [search] at h
      split at h
      · cases h
        omega
      · obtain ⟨⟨skip', len'⟩, hlater, hskip⟩ := Option.map_eq_some_iff.1 h
        cases hskip
        rw [List.drop_succ_cons, Nat.add_sub_add_right]
        exact ih hlater (Nat.le_of_succ_le_succ hi)

/-- A text that goes on has a match that begins no later. -/
theorem exists_search_append (more : List α) (h : (search alts text).1 = some (skip, len)) :
    ∃ skip' len', (search alts (text ++ more)).1 = some (skip', len') ∧ skip' ≤ skip := by
  induction text generalizing skip with
  | nil => cases h
  | cons c text ih =>
    rcases hmore : (search alts (c :: text ++ more)).1 with _ | ⟨skip', len'⟩
    · rw [search_none_of_append _ _ hmore] at h
      cases h
    · refine ⟨skip', len', rfl, ?_⟩
      simp only [List.cons_append, search] at h hmore
      split at hmore
      · cases hmore
        exact Nat.zero_le _
      · next heq =>
        have hnone := matchHere_none_of_append (c :: text) more
          (by rw [List.cons_append, heq])
        obtain ⟨⟨k', l'⟩, hlater', hskip'⟩ := Option.map_eq_some_iff.1 hmore
        cases hskip'
        split at h
        · next heq' =>
          rw [heq'] at hnone
          cases hnone
        · obtain ⟨⟨k, l⟩, hlater, hskip⟩ := Option.map_eq_some_iff.1 h
          cases hskip
          obtain ⟨_, _, heq', hle⟩ := ih hlater
          rw [hlater'] at heq'
          cases heq'
          exact Nat.succ_le_succ hle

theorem exists_literal_of_matchHere (h : (matchHere alts text).1 = some len) :
    ∃ lit ∈ alts, lit.length = len := by
  induction alts with
  | nil => cases h
  | cons lit alts ih =>
    simp only [matchHere] at h
    by_cases hlit : lit.isPrefixOf text = true
    · rw [if_pos hlit] at h
      exact ⟨lit, List.mem_cons_self, Option.some.inj h⟩
    · rw [if_neg hlit] at h
      obtain ⟨lit', hmem, hlength⟩ := ih h
      exact ⟨lit', List.mem_cons_of_mem lit hmem, hlength⟩

/-- A match is as long as one of the literals. -/
theorem exists_literal_of_search (h : (search alts text).1 = some (skip, len)) :
    ∃ lit ∈ alts, lit.length = len := by
  induction text generalizing skip with
  | nil => cases h
  | cons c text ih =>
    simp only [search] at h
    split at h
    · next heq =>
      cases h
      exact exists_literal_of_matchHere (congrArg Prod.fst heq)
    · obtain ⟨⟨skip', len'⟩, hlater, hskip⟩ := Option.map_eq_some_iff.1 h
      cases hskip
      exact ih hlater

/-! ## Pieces -/

/-- The pieces of the text between the leftmost matches, and the last one if it is not empty.
`skip` characters of a match are still to be passed over, and `piece` was read already. -/
def pieces (alts : List (List α)) : ℕ → List α → List α → List (List α)
  | _, piece, [] => if piece = [] then [] else [piece]
  | skip + 1, piece, _ :: text => pieces alts skip piece text
  | 0, piece, c :: text =>
    match (matchHere alts (c :: text)).1 with
    | some len => piece :: pieces alts (len - 1) [] text
    | none => pieces alts 0 (piece ++ [c]) text

/-- The text split at the leftmost matches. -/
def split (alts : List (List α)) (text : List α) : List (List α) := pieces alts 0 [] text

theorem pieces_skip (alts : List (List α)) (skip : ℕ) (text : List α) :
    pieces alts skip [] text = split alts (text.drop skip) := by
  induction text generalizing skip with
  | nil => cases skip <;> simp [pieces, split]
  | cons c text ih =>
    cases skip with
    | zero => rfl
    | succ skip => exact ih skip

/-- The first piece ends at the match that a search finds. -/
theorem pieces_of_some (halts : ∀ lit ∈ alts, lit ≠ []) (piece : List α)
    (h : (search alts text).1 = some (skip, len)) :
    pieces alts 0 piece text =
      (piece ++ text.take skip) :: split alts (text.drop (skip + len)) := by
  induction text generalizing skip piece with
  | nil => cases h
  | cons c text ih =>
    simp only [search] at h
    split at h
    · next heq =>
      cases h
      have hhere := congrArg Prod.fst heq
      have hpos := matchHere_pos halts hhere
      simp only [pieces, hhere]
      rw [pieces_skip]
      obtain ⟨k, hk⟩ := Nat.exists_eq_add_of_lt hpos
      simp [hk]
    · next heq =>
      have hhere := congrArg Prod.fst heq
      obtain ⟨⟨skip', len'⟩, hlater, hskip⟩ := Option.map_eq_some_iff.1 h
      cases hskip
      simp only [pieces, hhere]
      rw [ih (piece ++ [c]) hlater]
      simp [Nat.add_right_comm skip' 1 len']

theorem pieces_of_none (piece : List α) (h : (search alts text).1 = none) :
    pieces alts 0 piece text = if piece ++ text = [] then [] else [piece ++ text] := by
  induction text generalizing piece with
  | nil => simp [pieces]
  | cons c text ih =>
    simp only [search] at h
    split at h
    · cases h
    · next heq =>
      have hhere := congrArg Prod.fst heq
      simp only [pieces, hhere]
      rw [ih (piece ++ [c]) (Option.map_eq_none_iff.1 h)]
      simp

theorem split_of_some (halts : ∀ lit ∈ alts, lit ≠ [])
    (h : (search alts text).1 = some (skip, len)) :
    split alts text = text.take skip :: split alts (text.drop (skip + len)) :=
  pieces_of_some halts [] h

theorem split_of_none (h : (search alts text).1 = none) :
    split alts text = if text = [] then [] else [text] :=
  pieces_of_none [] h

end Alternation
