import SpartanLauncher.Admission

/-!
# Failed forks and the capacity of the launcher

The de-queue thread raises `child_process_count` by the size of a batch before any child of the
batch is forked, and only the report of an exit lowers it again. The branch of
`handle_launcher_msg` for a failed `fork()` writes a log line and returns.

**Theorem (`capacity_balanced_iff`).** Between two batches the counter is one plus the number of
children whose exit is not processed exactly when no fork has failed in the run.

The proof is the ledger `leaked_run`: what the counter has too much is the number of failed forks.
-/

namespace Spartan

open Machine

def LauncherAct.isFailedFork : LauncherAct → Bool
  | .fork none => true
  | _ => false

def failedForks (as : List LauncherAct) : ℕ := as.countP LauncherAct.isFailedFork

/-- The forked children whose exit `child_process_completion` has not processed: those in the
process table, and the one that `waitid` has just reported. -/
def unprocessed (s : LauncherState) : ℕ := s.children.length + uncounted s

/-- The counter is one for the JVM `main()` process plus one for each unprocessed child, and
without children the headroom is back to its initial value. -/
structure CapacityBalanced (cfg : LauncherCfg) (s : LauncherState) : Prop where
  count : s.dispatch.childProcessCount = 1 + unprocessed s
  headroom : unprocessed s = 0 →
    headroom cfg.dispatch s.dispatch = headroom cfg.dispatch ({} : LauncherState).dispatch

/-- What the counter has too much, with the messages of the batch paid for. -/
def leaked (s : LauncherState) : ℤ :=
  s.dispatch.childProcessCount - s.dispatch.batch.length - (1 + unprocessed s)

variable {cfg : LauncherCfg} {s t : LauncherState} {a : LauncherAct} {as : List LauncherAct}

/-- `waitid` takes exactly one child out of the process table. -/
theorem length_reap {children : List Child} {pid : Pid} {c : Child}
    (hnodup : (children.map Child.pid).Nodup) (hc : c ∈ children) (hpid : c.pid = pid) :
    (reap children pid).length + 1 = children.length := by
  induction children with
  | nil => cases hc
  | cons c' children ih =>
    rw [List.map_cons, List.nodup_cons] at hnodup
    rcases List.mem_cons.1 hc with rfl | hmem
    · have hkeep : reap (c :: children) pid = children := by
        rw [reap, List.filter_cons_of_neg (by simp [hpid]), List.filter_eq_self]
        intro c' hc'
        have hne : c'.pid ≠ c.pid := fun h => hnodup.1 (h ▸ List.mem_map_of_mem hc')
        simpa [← hpid] using hne
      rw [hkeep, List.length_cons]
    · have hne : c'.pid ≠ pid := by
        intro h
        exact hnodup.1 (h ▸ hpid ▸ List.mem_map_of_mem hmem)
      have htail := ih hnodup.2 hmem
      rw [reap, List.filter_cons_of_pos (by simpa using hne), List.length_cons, List.length_cons]
      rw [reap] at htail
      omega

/-- **Step lemma.** Only a failed fork changes what the counter has too much. -/
theorem leaked_step (hnodup : (s.children.map Child.pid).Nodup) (h : Trans cfg s a t)
    (hreport : a.isStopReport = false) :
    leaked t = leaked s + if a.isFailedFork then 1 else 0 := by
  cases h with
  | dispatch henabled hdispatch =>
    have hslots := step_paid rfl hdispatch
    rw [DispatchAct.paid_of_enabled henabled] at hslots
    simp only [leaked, unprocessed, uncounted, LauncherAct.isFailedFork, Bool.false_eq_true,
      if_false]
    omega
  | forkFails _ hdispatch =>
    have hslots := step_paid rfl hdispatch
    simp only [leaked, unprocessed, uncounted, LauncherAct.isFailedFork, DispatchAct.paid,
      if_true] at hslots ⊢
    omega
  | forked _ hdispatch =>
    have hslots := step_paid rfl hdispatch
    simp only [leaked, unprocessed, uncounted, LauncherAct.isFailedFork, DispatchAct.paid,
      List.length_cons, Bool.false_eq_true, if_false] at hslots ⊢
    omega
  | newGroup | joinGroup =>
    simp [leaked, unprocessed, uncounted, setpgid, LauncherAct.isFailedFork]
  | exit => simp [leaked, unprocessed, uncounted, exitChild, LauncherAct.isFailedFork]
  | waitExited hwaiter hc hpid =>
    have hlength := length_reap hnodup hc hpid
    simp only [leaked, unprocessed, uncounted, hwaiter, LauncherAct.isFailedFork,
      Bool.false_eq_true, if_false]
    omega
  | waitStopped => cases hreport
  | completion hwaiter hdispatch =>
    have hslots := step_paid rfl hdispatch
    simp only [leaked, unprocessed, uncounted, hwaiter, LauncherAct.isFailedFork,
      DispatchAct.paid, Bool.false_eq_true, if_false] at hslots ⊢
    omega
  | completionNotify hwaiter =>
    simp [leaked, unprocessed, uncounted, hwaiter, LauncherAct.isFailedFork]
  | notify | superviseMsg => simp [leaked, unprocessed, uncounted, LauncherAct.isFailedFork]

/-- **The ledger.** Over a run, the counter gains one too much for each failed fork. -/
theorem leaked_run (hnodup : (s.children.map Child.pid).Nodup)
    (hreports : ∀ a ∈ as, a.isStopReport = false) (hrun : run (launcherStep cfg) s as = some t) :
    leaked t = leaked s + failedForks as := by
  induction as generalizing s with
  | nil => cases hrun; simp [failedForks]
  | cons a as ih =>
    obtain ⟨u, hu, hrun⟩ := run_cons_eq_some.1 hrun
    have htrans := trans_of_step hu
    have hstep := leaked_step hnodup htrans (hreports a List.mem_cons_self)
    have hrest := ih (pids_nodup_step hnodup htrans)
      (fun b hb => hreports b (List.mem_cons_of_mem a hb)) hrun
    rw [hrest, hstep, failedForks, failedForks, List.countP_cons]
    push_cast
    omega

theorem failedForks_eq_zero_iff :
    failedForks as = 0 ↔ ∀ a ∈ as, a.isFailedFork = false := by
  simp [failedForks, List.countP_eq_zero]

/-- **Failed forks consume capacity.** -/
theorem capacity_balanced_iff (cfg : LauncherCfg) (as : List LauncherAct) {t : LauncherState}
    (hreports : ∀ a ∈ as, a.isStopReport = false) (hrun : run (launcherStep cfg) {} as = some t)
    (hhandled : t.dispatch.batch = []) :
    CapacityBalanced cfg t ↔ ∀ a ∈ as, a.isFailedFork = false := by
  have hledger := leaked_run (by simp) hreports hrun
  have hinit : leaked ({} : LauncherState) = 0 := by decide
  rw [hinit] at hledger
  simp only [leaked, hhandled, List.length_nil] at hledger
  rw [← failedForks_eq_zero_iff]
  refine ⟨?_, ?_⟩
  · intro hbalanced
    have hcount := hbalanced.count
    omega
  · intro hnone
    have hcount : t.dispatch.childProcessCount = 1 + unprocessed t := by omega
    refine ⟨hcount, ?_⟩
    intro hgone
    rw [headroom, headroom, hcount, hgone]
    rfl

/-- Two children, one of which is gone. -/
theorem capacity_balanced_two :
    let cfg : LauncherCfg := ⟨⟨1, by decide, by decide⟩, 3⟩
    let p : Pid := ⟨100, by decide, by decide⟩
    let q : Pid := ⟨101, by decide, by decide⟩
    let as : List LauncherAct :=
      [.dispatch (.enQueue "- u a".toList), .dispatch (.enQueue "- u b".toList),
        .dispatch .wait, .dispatch .take, .fork (some p), .setpgid, .notify, .fork (some q),
        .exit p, .waitExited p, .completion true]
    ∃ t, run (launcherStep cfg) {} as = some t ∧ CapacityBalanced cfg t := by
  intro cfg p q as
  have hrun : (run (launcherStep cfg) {} as).map (fun t => t.dispatch.batch) = some [] := by
    decide +kernel
  obtain ⟨t, ht, hbatch⟩ := Option.map_eq_some_iff.1 hrun
  exact ⟨t, ht, (capacity_balanced_iff cfg as (by decide) ht hbatch).2 (by decide)⟩

/-- After one failed fork there is no child, and one place less. -/
theorem capacity_not_balanced :
    let cfg : LauncherCfg := ⟨⟨1, by decide, by decide⟩, 3⟩
    let as : List LauncherAct :=
      [.dispatch (.enQueue "- u a".toList), .dispatch .wait, .dispatch .take, .fork none]
    ∃ t, run (launcherStep cfg) {} as = some t ∧ (∀ a ∈ as, a.isStopReport = false) ∧
      t.dispatch.batch = [] ∧ unprocessed t = 0 ∧ ¬ CapacityBalanced cfg t := by
  intro cfg as
  have hrun : (run (launcherStep cfg) {} as).map
      (fun t => (t.dispatch.batch, unprocessed t, t.dispatch.childProcessCount)) =
      some ([], 0, 2) := by decide +kernel
  obtain ⟨t, ht, hvalues⟩ := Option.map_eq_some_iff.1 hrun
  simp only [Prod.mk.injEq] at hvalues
  obtain ⟨hbatch, hgone, hcount⟩ := hvalues
  refine ⟨t, ht, by decide, hbatch, hgone, ?_⟩
  intro hbalanced
  have hone := hbalanced.count
  rw [hcount, hgone] at hone
  exact absurd hone (by decide)

end Spartan
