import Mathlib.Data.List.Basic

/-!
# Tables that are purged on the way

A table is built from a list of messages: each one appends its entries, and some of them, the
triggers, remove all built-in entries that are in the table by then.

* `run_eq`: without triggers, or without built-in entries, the table has all entries.
* `run_perm_iff`: these are the only cases in which the order of the messages does not matter.
-/

namespace Purge

variable {μ ε : Type*}

structure Rule (μ ε : Type*) where
  entries : μ → List ε
  builtin : ε → Bool
  trigger : μ → Bool
  /-- A trigger does not remove its own entries. -/
  own : ∀ m, trigger m = true → ∀ e ∈ entries m, builtin e = false

namespace Rule

def step (r : Rule μ ε) (table : List ε) (m : μ) : List ε :=
  let table := table ++ r.entries m
  if r.trigger m then table.filter (!r.builtin ·) else table

/-- The table behind all messages. -/
def run (r : Rule μ ε) (ms : List μ) : List ε := ms.foldl r.step []

variable {r : Rule μ ε} {ms : List μ} {m : μ} {e : ε}

theorem foldl_of_no_trigger (h : ∀ m ∈ ms, r.trigger m = false) (table : List ε) :
    ms.foldl r.step table = table ++ ms.flatMap r.entries := by
  induction ms generalizing table with
  | nil => simp
  | cons m ms ih =>
    rw [List.forall_mem_cons] at h
    rw [List.foldl_cons, ih h.2, step, h.1, List.flatMap_cons, ← List.append_assoc]
    rfl

theorem foldl_of_no_builtin (h : ∀ m ∈ ms, ∀ e ∈ r.entries m, r.builtin e = false)
    {table : List ε} (htable : ∀ e ∈ table, r.builtin e = false) :
    ms.foldl r.step table = table ++ ms.flatMap r.entries := by
  induction ms generalizing table with
  | nil => simp
  | cons m ms ih =>
    rw [List.forall_mem_cons] at h
    have hnext : ∀ e ∈ table ++ r.entries m, r.builtin e = false := by
      intro e he
      exact (List.mem_append.1 he).elim (htable e) (h.1 e)
    have hstep : r.step table m = table ++ r.entries m := by
      unfold step
      split_ifs
      · exact List.filter_eq_self.2 fun e he => by rw [hnext e he]; rfl
      · rfl
    rw [List.foldl_cons, hstep, ih h.2 hnext, List.flatMap_cons, ← List.append_assoc]

/-- All entries are in the table. -/
theorem run_eq (h : (∀ m ∈ ms, r.trigger m = false) ∨
    ∀ m ∈ ms, ∀ e ∈ r.entries m, r.builtin e = false) : r.run ms = ms.flatMap r.entries := by
  rcases h with h | h
  · exact foldl_of_no_trigger h []
  · exact foldl_of_no_builtin h (by simp)

/-- A trigger at the end leaves no built-in entry. -/
theorem builtin_of_trigger_last (ht : r.trigger m = true) (he : e ∈ r.run (ms ++ [m])) :
    r.builtin e = false := by
  rw [run, List.foldl_append, List.foldl_cons, List.foldl_nil, step, if_pos ht,
    List.mem_filter] at he
  simpa using he.2

/-- The built-in entries of the last message stay. -/
theorem mem_of_builtin_last (he : e ∈ r.entries m) (hbuiltin : r.builtin e = true) :
    e ∈ r.run (ms ++ [m]) := by
  have ht : r.trigger m = false := by
    by_contra ht
    rw [r.own m (Bool.not_eq_false _ ▸ ht) e he] at hbuiltin
    cases hbuiltin
  rw [run, List.foldl_append, List.foldl_cons, List.foldl_nil, step, ht]
  exact List.mem_append_right _ he

theorem exists_perm_last (hm : m ∈ ms) : ∃ rest, (rest ++ [m]).Perm ms := by
  obtain ⟨pre, post, rfl⟩ := List.append_of_mem hm
  refine ⟨pre ++ post, ?_⟩
  rw [List.append_assoc]
  exact List.perm_append_comm.append_left pre

/-- **The order of the messages** does not matter just when there is nothing to be purged. -/
theorem run_perm_iff :
    (∀ ms₁ ms₂ : List μ, ms₁.Perm ms → ms₂.Perm ms → (r.run ms₁).Perm (r.run ms₂)) ↔
      (∀ m ∈ ms, r.trigger m = false) ∨ ∀ m ∈ ms, ∀ e ∈ r.entries m, r.builtin e = false := by
  refine ⟨?_, ?_⟩
  · intro hperm
    by_contra hboth
    simp only [not_or, not_forall, Bool.not_eq_false] at hboth
    obtain ⟨⟨t, ht, htrigger⟩, m, hm, e, he, hbuiltin⟩ := hboth
    obtain ⟨rest₁, h₁⟩ := exists_perm_last ht
    obtain ⟨rest₂, h₂⟩ := exists_perm_last hm
    have hmem := (hperm _ _ h₂ h₁).subset (mem_of_builtin_last he hbuiltin)
    rw [builtin_of_trigger_last htrigger hmem] at hbuiltin
    cases hbuiltin
  · intro h ms₁ ms₂ h₁ h₂
    have hrun : ∀ ms' : List μ, ms'.Perm ms → r.run ms' = ms'.flatMap r.entries := by
      intro ms' h'
      apply run_eq
      rcases h with h | h
      · exact .inl fun m hm => h m (h'.subset hm)
      · exact .inr fun m hm => h m (h'.subset hm)
    rw [hrun ms₁ h₁, hrun ms₂ h₂]
    exact (h₁.trans h₂.symm).flatMap_right r.entries

end Rule

end Purge
