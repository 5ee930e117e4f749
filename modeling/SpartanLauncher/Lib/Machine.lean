import Mathlib.Data.List.Basic

/-!
# Runs of a machine with partial steps

A machine is a function `step : σ → α → Option σ`: `none` says that the action is not enabled.
An interleaving of several threads is a list of actions, and `run` executes it.

* `run_invariant`: what every step keeps, every run keeps.
* `run_invariant_of`: the same when the steps keep it only under a condition `P` on the state
  and the action, and the run satisfies `P` at each of its steps (`Always`).
* `throughout_cons_iff`: a property of all states that a run visits, one step at a time.
* `throughout_of`: the invariant rule for such a property.
* `run_history`: what relates the state to the actions so far.
* `exists_of_not_always`: where a run first breaks a condition on its steps.
* `ReachesWithin`: what some run of bounded length, with steps of one kind, can reach.
-/

namespace Machine

variable {σ α τ : Type*}

/-- Execute the actions from left to right; `none` when one of them is not enabled. -/
def run (step : σ → α → Option σ) : σ → List α → Option σ
  | s, [] => some s
  | s, a :: as => (step s a).bind fun t => run step t as

/-- `P` holds of the state and the action at each step of the run. -/
def Always (step : σ → α → Option σ) (P : σ → α → Prop) : σ → List α → Prop
  | _, [] => True
  | s, a :: as => P s a ∧ match step s a with
    | none => True
    | some t => Always step P t as

instance Always.decidable (step : σ → α → Option σ) (P : σ → α → Prop)
    [∀ s a, Decidable (P s a)] : (s : σ) → (as : List α) → Decidable (Always step P s as)
  | _, [] => inferInstanceAs (Decidable True)
  | s, a :: as =>
    letI : Decidable (match step s a with
        | none => True
        | some t => Always step P t as) :=
      match step s a with
      | none => inferInstanceAs (Decidable True)
      | some t => Always.decidable step P t as
    inferInstanceAs (Decidable (_ ∧ _))

variable {step : σ → α → Option σ} {P Q : σ → α → Prop} {s t u : σ} {a : α} {as : List α}

theorem run_cons : run step s (a :: as) = (step s a).bind fun t => run step t as := rfl

theorem run_cons_eq_some :
    run step s (a :: as) = some u ↔ ∃ t, step s a = some t ∧ run step t as = some u := by
  rw [run_cons, Option.bind_eq_some_iff]

theorem Always.head (h : Always step P s (a :: as)) : P s a := h.1

theorem Always.tail (h : Always step P s (a :: as)) (ha : step s a = some t) :
    Always step P t as := by
  have := h.2
  rwa [ha] at this

theorem Always.cons (h : P s a) (ha : step s a = some t) (htail : Always step P t as) :
    Always step P s (a :: as) := by
  refine ⟨h, ?_⟩
  rwa [ha]

theorem always_cons_iff (ha : step s a = some t) :
    Always step P s (a :: as) ↔ P s a ∧ Always step P t as :=
  ⟨fun h => ⟨h.head, h.tail ha⟩, fun h => .cons h.1 ha h.2⟩

/-- A condition on the actions alone holds along a run when it holds of each action. -/
theorem always_of_forall {p : α → Prop} (h : ∀ a ∈ as, p a) :
    Always step (fun _ a => p a) s as := by
  induction as generalizing s with
  | nil => trivial
  | cons a as ih =>
    refine ⟨h a List.mem_cons_self, ?_⟩
    cases step s a with
    | none => trivial
    | some t => exact ih fun b hb => h b (List.mem_cons_of_mem a hb)

/-- `I` holds of every state that the run visits. -/
def Throughout (step : σ → α → Option σ) (I : σ → Prop) (s : σ) (as : List α) : Prop :=
  ∀ pre u, pre <+: as → run step s pre = some u → I u

theorem throughout_nil_iff {I : σ → Prop} : Throughout step I s [] ↔ I s := by
  refine ⟨?_, ?_⟩
  · intro h
    exact h [] s List.prefix_rfl rfl
  · rintro h pre u hpre hrun
    obtain rfl := List.prefix_nil.1 hpre
    exact Option.some.inj hrun ▸ h

theorem throughout_cons_iff {I : σ → Prop} (ha : step s a = some t) :
    Throughout step I s (a :: as) ↔ I s ∧ Throughout step I t as := by
  refine ⟨?_, ?_⟩
  · intro h
    refine ⟨h [] s (List.nil_prefix) rfl, ?_⟩
    intro pre u hpre hrun
    exact h (a :: pre) u (List.cons_prefix_cons.2 ⟨rfl, hpre⟩) (run_cons_eq_some.2 ⟨t, ha, hrun⟩)
  · rintro ⟨hs, h⟩ pre u hpre hrun
    rcases List.prefix_cons_iff.1 hpre with rfl | ⟨pre', rfl, hpre'⟩
    · exact Option.some.inj hrun ▸ hs
    · obtain ⟨v, hv, hrun⟩ := run_cons_eq_some.1 hrun
      cases ha.symm.trans hv
      exact h pre' u hpre' hrun

theorem Throughout.last {I : σ → Prop} (h : Throughout step I s as)
    (hrun : run step s as = some t) : I t := h as t List.prefix_rfl hrun

/-- **Invariant rule** with a condition on the steps. -/
theorem run_invariant_of {I : σ → Prop}
    (hstep : ∀ s a t, I s → P s a → step s a = some t → I t)
    (hs : I s) (hP : Always step P s as) (h : run step s as = some t) : I t := by
  induction as generalizing s with
  | nil => exact Option.some.inj h ▸ hs
  | cons a as ih =>
    obtain ⟨u, hu, h⟩ := run_cons_eq_some.1 h
    exact ih (hstep s a u hs hP.head hu) (hP.tail hu) h

/-- **Invariant rule** for all states that the run visits. -/
theorem throughout_of {I : σ → Prop}
    (hstep : ∀ s a t, I s → P s a → step s a = some t → I t)
    (hs : I s) (hP : Always step P s as) : Throughout step I s as := by
  induction as generalizing s with
  | nil => exact throughout_nil_iff.2 hs
  | cons a as ih =>
    cases ha : step s a with
    | some t =>
      exact (throughout_cons_iff ha).2 ⟨hs, ih (hstep s a t hs hP.head ha) (hP.tail ha)⟩
    | none =>
      intro pre u hpre hrun
      rcases List.prefix_cons_iff.1 hpre with rfl | ⟨pre', rfl, -⟩
      · exact Option.some.inj hrun ▸ hs
      · rw [run_cons, ha] at hrun
        cases hrun

/-- **Invariant rule.** -/
theorem run_invariant {I : σ → Prop} (hstep : ∀ s a t, I s → step s a = some t → I t)
    (hs : I s) (h : run step s as = some t) : I t :=
  run_invariant_of (P := fun _ _ => True) (fun s a t hs _ h => hstep s a t hs h) hs
    (always_of_forall fun _ _ => trivial) h

theorem run_history_from {I : List α → σ → Prop} {before : List α}
    (hstep : ∀ before s a t, I before s → step s a = some t → I (before ++ [a]) t)
    (hs : I before s) (h : run step s as = some t) : I (before ++ as) t := by
  induction as generalizing before s with
  | nil =>
    rw [List.append_nil]
    exact Option.some.inj h ▸ hs
  | cons a as ih =>
    obtain ⟨u, hu, h⟩ := run_cons_eq_some.1 h
    rw [List.append_cons]
    exact ih (hstep before s a u hs hu) h

/-- **Invariant rule** for a property of the actions so far and the state. -/
theorem run_history {I : List α → σ → Prop}
    (hstep : ∀ before s a t, I before s → step s a = some t → I (before ++ [a]) t)
    (hs : I [] s) (h : run step s as = some t) : I as t :=
  run_history_from hstep hs h

/-- The first step at which a condition does not hold. -/
theorem exists_of_not_always (h : run step s as = some t) (hP : ¬Always step P s as) :
    ∃ pre a post u v, as = pre ++ a :: post ∧ run step s pre = some u ∧ Always step P s pre ∧
      ¬P u a ∧ step u a = some v ∧ run step v post = some t := by
  induction as generalizing s with
  | nil => exact absurd trivial hP
  | cons a as ih =>
    obtain ⟨u, ha, h⟩ := run_cons_eq_some.1 h
    by_cases hhead : P s a
    · have htail : ¬Always step P u as := fun hall => hP (.cons hhead ha hall)
      obtain ⟨pre, b, post, v, w, rfl, hrun, hpre, hb, hstep, hpost⟩ := ih h htail
      exact ⟨a :: pre, b, post, v, w, rfl, run_cons_eq_some.2 ⟨u, ha, hrun⟩,
        .cons hhead ha hpre, hb, hstep, hpost⟩
    · exact ⟨[], a, as, s, u, rfl, rfl, trivial, hhead, ha, h⟩

/-- Within `n` steps, all of which satisfy `p`, the machine can reach a goal. -/
def ReachesWithin (step : σ → α → Option σ) (p : α → Prop) (goal : σ → Prop) (n : ℕ) (s : σ) :
    Prop :=
  ∃ as, as.length ≤ n ∧ (∀ a ∈ as, p a) ∧ ∃ t, run step s as = some t ∧ goal t

namespace ReachesWithin

variable {p : α → Prop} {goal : σ → Prop} {m n : ℕ}

theorem zero (h : goal s) : ReachesWithin step p goal 0 s :=
  ⟨[], Nat.le_refl 0, fun _ ha => absurd ha List.not_mem_nil, s, rfl, h⟩

theorem cons (h : ReachesWithin step p goal n t) (ha : p a) (hstep : step s a = some t) :
    ReachesWithin step p goal (n + 1) s := by
  obtain ⟨as, hlength, has, u, hrun, hu⟩ := h
  exact ⟨a :: as, Nat.succ_le_succ hlength, List.forall_mem_cons.2 ⟨ha, has⟩, u,
    run_cons_eq_some.2 ⟨t, hstep, hrun⟩, hu⟩

theorem mono (h : ReachesWithin step p goal m s) (hle : m ≤ n) :
    ReachesWithin step p goal n s := by
  obtain ⟨as, hlength, hrest⟩ := h
  exact ⟨as, Nat.le_trans hlength hle, hrest⟩

end ReachesWithin

end Machine
