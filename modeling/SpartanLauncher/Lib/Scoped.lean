import Mathlib.Data.List.Nodup
import Mathlib.Logic.Function.Basic

/-!
# Resources that are acquired and released

A table of resources is read as a partial function from keys to resources. `Adds v v' own` says
that `v'` is `v` with the resources `own` in places that were free.

* `Adds.trans`, `Adds.release`, `Adds.eq_of_nil`: acquiring more, giving one back, and having
  given back all.
* `alloc` puts a resource into the first free slot of a table, as `open` does with descriptors.
* `Triple` is a program logic for programs that may fail in any of their calls, with one
  postcondition for each way out. `guarded` releases on both ways out, as a destructor does, and
  `guardedOnError` when the program fails, as the destructor of an object that is moved out does.
-/

namespace Scoped

open Function

/-! ## Partial functions with more in them -/

section Adds

variable {κ ω : Type*}

structure Adds (v v' : κ → Option ω) (own : List (κ × ω)) : Prop where
  keys : (own.map Prod.fst).Nodup
  fresh : ∀ e ∈ own, v e.1 = none
  there : ∀ e ∈ own, v' e.1 = some e.2
  frame : ∀ k, k ∉ own.map Prod.fst → v' k = v k

variable {v v' v'' : κ → Option ω} {own own' : List (κ × ω)} {k : κ} {o : ω}

theorem Adds.refl (v : κ → Option ω) : Adds v v [] :=
  ⟨List.nodup_nil, by simp, by simp, fun _ _ => rfl⟩

/-- Everything was given back. -/
theorem Adds.eq_of_nil (h : Adds v v' []) : v' = v := funext fun k => h.frame k (by simp)

theorem Adds.lookup (h : Adds v v' own) (hmem : (k, o) ∈ own) : v' k = some o :=
  h.there (k, o) hmem

/-- What is there stays there. -/
theorem Adds.kept (h : Adds v v' own) (hk : v k = some o) : v' k = some o := by
  rw [h.frame k ?_, hk]
  intro hmem
  obtain ⟨e, he, rfl⟩ := List.mem_map.1 hmem
  rw [h.fresh e he] at hk
  cases hk

theorem Adds.trans (h : Adds v v' own) (h' : Adds v' v'' own') : Adds v v'' (own' ++ own) := by
  have hdisjoint : ∀ e ∈ own', e.1 ∉ own.map Prod.fst := by
    intro e he hmem
    obtain ⟨e', he', heq⟩ := List.mem_map.1 hmem
    have := h'.fresh e he
    rw [← heq, h.there e' he'] at this
    cases this
  refine ⟨?_, ?_, ?_, ?_⟩
  · rw [List.map_append, List.nodup_append]
    refine ⟨h'.keys, h.keys, ?_⟩
    intro k hk _ hk' h
    subst h
    obtain ⟨e, he, rfl⟩ := List.mem_map.1 hk
    exact hdisjoint e he hk'
  · intro e he
    rcases List.mem_append.1 he with he | he
    · rw [← h.frame e.1 (hdisjoint e he)]
      exact h'.fresh e he
    · exact h.fresh e he
  · intro e he
    rcases List.mem_append.1 he with he | he
    · exact h'.there e he
    · exact h'.kept (h.there e he)
  · intro k hk
    rw [List.map_append, List.mem_append, not_or] at hk
    rw [h'.frame k hk.1, h.frame k hk.2]

theorem Adds.perm (h : Adds v v' own) (hperm : own.Perm own') : Adds v v' own' where
  keys := (hperm.map _).nodup_iff.1 h.keys
  fresh e he := h.fresh e (hperm.mem_iff.2 he)
  there e he := h.there e (hperm.mem_iff.2 he)
  frame k hk := h.frame k fun hmem => hk ((hperm.map _).mem_iff.1 hmem)

variable [DecidableEq κ]

theorem Adds.acquire (hk : v k = none) : Adds v (update v k (some o)) [(k, o)] where
  keys := by simp
  fresh e he := by simpa [List.mem_singleton.1 he] using hk
  there e he := by simp [List.mem_singleton.1 he]
  frame k' hk' := update_of_ne (by simpa using hk') _ _

/-- One resource is given back. -/
theorem Adds.release (pre : List (κ × ω)) (h : Adds v v' (pre ++ (k, o) :: own)) :
    Adds v (update v' k none) (pre ++ own) := by
  have h := h.perm List.perm_middle
  obtain ⟨hk, hkeys⟩ := List.nodup_cons.1 h.keys
  have hne : ∀ e ∈ pre ++ own, e.1 ≠ k := by
    intro e he h
    subst h
    exact hk (List.mem_map.2 ⟨e, he, rfl⟩)
  refine ⟨hkeys, fun e he => h.fresh e (List.mem_cons_of_mem _ he), ?_, ?_⟩
  · intro e he
    rw [update_of_ne (hne e he)]
    exact h.there e (List.mem_cons_of_mem _ he)
  · intro k' hk'
    by_cases heq : k' = k
    · subst heq
      rw [update_self]
      exact (h.fresh _ List.mem_cons_self).symm
    · rw [update_of_ne heq]
      apply h.frame
      rw [List.map_cons, List.mem_cons, not_or]
      exact ⟨heq, hk'⟩

/-- A place that was taken is emptied on both sides. -/
theorem Adds.emptied (h : Adds v v' own) (hk : v k ≠ none) :
    Adds (update v k none) (update v' k none) own := by
  have hne : ∀ e ∈ own, e.1 ≠ k := by
    intro e he h
    subst h
    exact hk (h.fresh e he)
  refine ⟨h.keys, ?_, ?_, ?_⟩
  · intro e he
    rw [update_of_ne (hne e he)]
    exact h.fresh e he
  · intro e he
    rw [update_of_ne (hne e he)]
    exact h.there e he
  · intro k' hk'
    by_cases heq : k' = k
    · rw [heq, update_self, update_self]
    · rw [update_of_ne heq, update_of_ne heq]
      exact h.frame k' hk'

/-- A resource that is acquired once and was not there before is in one place. -/
theorem Adds.only (pre : List (κ × ω)) (h : Adds v v' (pre ++ (k, o) :: own))
    (hv : ∀ k, v k ≠ some o) (honce : ∀ e ∈ pre ++ own, e.2 ≠ o) (k' : κ) :
    v' k' = some o ↔ k' = k := by
  refine ⟨fun hk' => ?_, ?_⟩
  · by_contra hne
    by_cases hmem : k' ∈ (pre ++ (k, o) :: own).map Prod.fst
    · obtain ⟨e, he, rfl⟩ := List.mem_map.1 hmem
      rw [h.there e he, Option.some.injEq] at hk'
      rcases List.mem_append.1 he with he' | he'
      · exact honce e (List.mem_append_left _ he') hk'
      · rcases List.mem_cons.1 he' with rfl | he'
        · exact hne rfl
        · exact honce e (List.mem_append_right _ he') hk'
    · rw [h.frame k' hmem] at hk'
      exact hv k' hk'
  · intro h
    subst h
    exact h.lookup (List.mem_append_right _ List.mem_cons_self)

/-- A resource that is not acquired is nowhere it was not before. -/
theorem Adds.nowhere (h : Adds v v' own) (hv : ∀ k, v k ≠ some o) (hown : ∀ e ∈ own, e.2 ≠ o)
    (k' : κ) : v' k' ≠ some o := by
  intro hk'
  by_cases hmem : k' ∈ own.map Prod.fst
  · obtain ⟨e, he, rfl⟩ := List.mem_map.1 hmem
    rw [h.there e he, Option.some.injEq] at hk'
    exact hown e he hk'
  · rw [h.frame k' hmem] at hk'
    exact hv k' hk'

end Adds

/-! ## Tables -/

section Table

variable {ω : Type*}

/-- The resource in a slot. -/
def slot (table : List (Option ω)) (k : ℕ) : Option ω := table[k]?.join

/-- The first free slot. -/
def firstFree : List (Option ω) → ℕ
  | [] => 0
  | none :: _ => 0
  | some _ :: table => firstFree table + 1

/-- Put a resource into the first free slot. -/
def alloc (o : ω) : List (Option ω) → List (Option ω)
  | [] => [some o]
  | none :: table => some o :: table
  | some x :: table => some x :: alloc o table

/-- Empty a slot. -/
def free (k : ℕ) (table : List (Option ω)) : List (Option ω) := table.set k none

variable {table : List (Option ω)} {k : ℕ} {o : ω}

theorem slot_firstFree : slot table (firstFree table) = none := by
  induction table with
  | nil => rfl
  | cons x table ih =>
    cases x with
    | none => rfl
    | some x => exact ih

theorem slot_alloc : slot (alloc o table) = update (slot table) (firstFree table) (some o) := by
  funext k
  induction table generalizing k with
  | nil => cases k <;> simp [slot, alloc, firstFree]
  | cons x table ih =>
    cases x with
    | none => cases k <;> simp [slot, alloc, firstFree]
    | some x =>
      cases k with
      | zero => simp [slot, alloc, firstFree]
      | succ k => simpa [slot, alloc, firstFree, update_apply] using ih k

theorem slot_free : slot (free k table) = update (slot table) k none := by
  funext k'
  by_cases heq : k' = k
  · subst heq
    by_cases hlt : k' < table.length <;> simp [slot, free, hlt]
  · simp [slot, free, heq, Ne.symm heq]

theorem adds_alloc : Adds (slot table) (slot (alloc o table)) [(firstFree table, o)] := by
  rw [slot_alloc]
  exact .acquire slot_firstFree

/-- Put several resources into free slots, in order. -/
def allocAll : List ω → List (Option ω) → List ℕ × List (Option ω)
  | [], table => ([], table)
  | o :: os, table =>
    let (ks, table') := allocAll os (alloc o table)
    (firstFree table :: ks, table')

theorem adds_allocAll {os : List ω} :
    Adds (slot table) (slot (allocAll os table).2) ((allocAll os table).1.zip os) := by
  induction os generalizing table with
  | nil => exact .refl _
  | cons o os ih => exact (adds_alloc.trans ih).perm List.perm_append_comm

theorem length_allocAll {os : List ω} : (allocAll os table).1.length = os.length := by
  induction os generalizing table with
  | nil => rfl
  | cons o os ih => exact congrArg Nat.succ ih

end Table

/-! ## Programs -/

section Programs

variable {σ ε α β : Type}

def Triple (P : σ → Prop) (p : ExceptT ε (StateM σ) α) (Q : α → σ → Prop) (E : σ → Prop) : Prop :=
  ∀ s, P s → match p.run s with
    | (.ok a, t) => Q a t
    | (.error _, t) => E t

/-- Run `release` behind the program, on both ways out. -/
def guarded (release : σ → σ) (p : ExceptT ε (StateM σ) α) : ExceptT ε (StateM σ) α :=
  ExceptT.mk fun s => let (r, t) := p.run s; (r, release t)

/-- Run `release` when the program fails. -/
def guardedOnError (release : σ → σ) (p : ExceptT ε (StateM σ) α) : ExceptT ε (StateM σ) α :=
  ExceptT.mk fun s => match p.run s with
    | (.ok a, t) => (.ok a, t)
    | (.error e, t) => (.error e, release t)

variable {P P' : σ → Prop} {Q Q' : α → σ → Prop} {R : β → σ → Prop} {E E' : σ → Prop}
  {p : ExceptT ε (StateM σ) α} {q : α → ExceptT ε (StateM σ) β} {release : σ → σ}

theorem Triple.ok {s t : σ} {a : α} (h : Triple P p Q E) (hs : P s) (hrun : p.run s = (.ok a, t)) :
    Q a t := by
  have := h s hs
  rwa [hrun] at this

theorem Triple.error {s t : σ} {e : ε} (h : Triple P p Q E) (hs : P s)
    (hrun : p.run s = (.error e, t)) : E t := by
  have := h s hs
  rwa [hrun] at this

theorem Triple.pure {a : α} (h : ∀ s, P s → Q a s) :
    Triple P (Pure.pure a : ExceptT ε (StateM σ) α) Q E := h

theorem Triple.bind (hp : Triple P p Q E) (hq : ∀ a, Triple (Q a) (q a) R E) :
    Triple P (p >>= q) R E := by
  intro s hs
  have hs' := hp s hs
  show match (ExceptT.bindCont q (p.run s).1).run (p.run s).2 with
    | (.ok a, t) => R a t
    | (.error _, t) => E t
  rcases hrun : p.run s with ⟨a | a, t⟩
  · rw [hrun] at hs'
    exact hs'
  · rw [hrun] at hs'
    exact hq a t hs'

theorem Triple.consequence (h : Triple P p Q E) (hP : ∀ s, P' s → P s)
    (hQ : ∀ a s, Q a s → Q' a s) (hE : ∀ s, E s → E' s) : Triple P' p Q' E' := by
  intro s hs
  have hs' := h s (hP s hs)
  rcases hrun : p.run s with ⟨a | a, t⟩
  · rw [hrun] at hs'
    exact hE t hs'
  · rw [hrun] at hs'
    exact hQ a t hs'

theorem Triple.guarded (h : Triple P p (fun a s => Q a (release s)) fun s => E (release s)) :
    Triple P (Scoped.guarded release p) Q E := by
  intro s hs
  have hs' := h s hs
  show match ((p.run s).1, release (p.run s).2) with
    | (.ok a, t) => Q a t
    | (.error _, t) => E t
  rcases hrun : p.run s with ⟨a | a, t⟩ <;> rw [hrun] at hs' <;> exact hs'

theorem Triple.guardedOnError (h : Triple P p Q fun s => E (release s)) :
    Triple P (Scoped.guardedOnError release p) Q E := by
  intro s hs
  have hs' := h s hs
  show match (match p.run s with
      | (.ok a, t) => ((.ok a : Except ε α), t)
      | (.error e, t) => (.error e, release t)) with
    | (.ok a, t) => Q a t
    | (.error _, t) => E t
  rcases hrun : p.run s with ⟨a | a, t⟩ <;> rw [hrun] at hs' <;> exact hs'

end Programs

end Scoped
