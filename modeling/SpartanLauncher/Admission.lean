import SpartanLauncher.Launcher

/-!
# The bound on the number of child processes

The de-queue thread takes no more messages off the queue than `child_process_max_count` leaves
room for, and counts them in `child_process_count` before it forks. The `waitid` thread lowers the
counter at each report.

**Theorem (`admission_bound`).** As long as each report is about a child that terminated, the
live children and the JVM `main()` process together never exceed the maximum.

The invariant `AdmissionInv` is that the counter pays for the JVM `main()` process, each message
of the batch, each entry of the process table, and the exit that was reported but not counted
yet.
-/

namespace Spartan

open Machine

/-- A termination was reported and the counter not yet lowered. -/
def uncounted (s : LauncherState) : ℕ :=
  match s.waiter with
  | .reported _ => 1
  | _ => 0

structure AdmissionInv (cfg : LauncherCfg) (s : LauncherState) : Prop where
  paid : 1 + s.children.length + uncounted s ≤
    s.dispatch.childProcessCount - s.dispatch.batch.length
  withinMax : WithinMax cfg.dispatch s.dispatch

def liveChildren (s : LauncherState) : List Child := s.children.filter Child.live

variable {cfg : LauncherCfg} {s t : LauncherState} {a : LauncherAct}

theorem admissionInv_init (hmax : 1 ≤ cfg.childProcessMaxCount) : AdmissionInv cfg {} where
  paid := by simp [uncounted, DispatchState.batch]
  withinMax := ⟨hmax, by simp⟩

theorem length_reap_lt {children : List Child} {pid : Pid} {c : Child} (hc : c ∈ children)
    (hpid : c.pid = pid) : (reap children pid).length < children.length :=
  List.length_filter_lt_length_iff_exists.2 ⟨c, hc, by simp [hpid]⟩

theorem DispatchAct.paid_of_enabled {handler : Handler} {a : DispatchAct (List Char)}
    (h : dispatchEnabled handler a = true) : a.paid = 0 := by
  cases a with
  | handle | completion => cases h
  | _ => rfl

/-- **Step lemma.** -/
theorem admissionInv_step (hs : AdmissionInv cfg s) (h : Trans cfg s a t)
    (hreport : a.isStopReport = false) : AdmissionInv cfg t := by
  obtain ⟨hpaid, hwithin⟩ := hs
  cases h with
  | dispatch henabled hdispatch =>
    have hslots := step_paid rfl hdispatch
    rw [DispatchAct.paid_of_enabled henabled] at hslots
    refine ⟨?_, step_withinMax hwithin hdispatch⟩
    simp only [uncounted] at hpaid ⊢
    omega
  | forkFails _ hdispatch =>
    have hslots := step_paid rfl hdispatch
    refine ⟨?_, step_withinMax hwithin hdispatch⟩
    simp only [uncounted, DispatchAct.paid] at hslots hpaid ⊢
    omega
  | forked _ hdispatch =>
    have hslots := step_paid rfl hdispatch
    refine ⟨?_, step_withinMax hwithin hdispatch⟩
    simp only [uncounted, DispatchAct.paid, List.length_cons] at hslots hpaid ⊢
    omega
  | newGroup | joinGroup => exact ⟨by simpa [setpgid, uncounted] using hpaid, hwithin⟩
  | exit => exact ⟨by simpa [exitChild, uncounted] using hpaid, hwithin⟩
  | waitExited hwaiter hc hpid =>
    have hlt := length_reap_lt hc hpid
    refine ⟨?_, hwithin⟩
    simp only [uncounted, hwaiter] at hpaid ⊢
    omega
  | waitStopped => cases hreport
  | completion hwaiter hdispatch =>
    have hslots := step_paid rfl hdispatch
    refine ⟨?_, step_withinMax hwithin hdispatch⟩
    simp only [uncounted, DispatchAct.paid, hwaiter] at hslots hpaid ⊢
    omega
  | completionNotify hwaiter =>
    refine ⟨?_, hwithin⟩
    simp only [uncounted, hwaiter] at hpaid ⊢
    exact hpaid
  | notify | superviseMsg => exact ⟨hpaid, hwithin⟩

theorem live_le_of_admissionInv (hs : AdmissionInv cfg s) :
    ((liveChildren s).length : ℤ) + 1 ≤ cfg.childProcessMaxCount := by
  have hlive : (liveChildren s).length ≤ s.children.length := List.length_filter_le _ _
  have hpaid := hs.paid
  have hmax : s.dispatch.childProcessCount ≤ cfg.childProcessMaxCount := hs.withinMax.1
  omega

/-- **Admission bound.** -/
theorem admission_bound (cfg : LauncherCfg) (as : List LauncherAct) {t : LauncherState}
    (hmax : 1 ≤ cfg.childProcessMaxCount) (hreports : ∀ a ∈ as, a.isStopReport = false)
    (hrun : run (launcherStep cfg) {} as = some t) :
    ((liveChildren t).length : ℤ) + 1 ≤ cfg.childProcessMaxCount := by
  have hstep : ∀ s a t, AdmissionInv cfg s → a.isStopReport = false →
      launcherStep cfg s a = some t → AdmissionInv cfg t :=
    fun s a t hs ha h => admissionInv_step hs (trans_of_step h) ha
  exact live_le_of_admissionInv
    (run_invariant_of hstep (admissionInv_init hmax) (always_of_forall hreports) hrun)

/-- With room for one child, the second message waits until the first child is gone. -/
theorem admission_bound_two :
    let cfg : LauncherCfg := ⟨⟨1, by decide, by decide⟩, 2⟩
    let p : Pid := ⟨100, by decide, by decide⟩
    let q : Pid := ⟨101, by decide, by decide⟩
    let as : List LauncherAct :=
      [.dispatch (.enQueue "- u a".toList), .dispatch (.enQueue "- u a".toList),
        .dispatch .wait, .dispatch .take, .fork (some p), .setpgid, .notify, .exit p,
        .waitExited p, .completion true, .dispatch .wait, .dispatch (.wake true),
        .dispatch .take, .fork (some q)]
    ∃ t, run (launcherStep cfg) {} as = some t ∧ ((liveChildren t).length : ℤ) + 1 ≤ 2 := by
  intro cfg p q as
  have hsome : (run (launcherStep cfg) {} as).isSome = true := by decide +kernel
  exact ⟨_, (Option.some_get hsome).symm,
    admission_bound cfg as (by decide) (by decide) (Option.some_get hsome).symm⟩

/-- A child that is stopped, for instance by `SIGSTOP`, makes room for one too many. -/
theorem admission_exceeded :
    let cfg : LauncherCfg := ⟨⟨1, by decide, by decide⟩, 2⟩
    let p : Pid := ⟨100, by decide, by decide⟩
    let q : Pid := ⟨101, by decide, by decide⟩
    let as : List LauncherAct :=
      [.dispatch (.enQueue "- u a".toList), .dispatch (.enQueue "- u a".toList),
        .dispatch .wait, .dispatch .take, .fork (some p), .setpgid, .notify,
        .waitStopped p, .completion true, .dispatch .wait, .dispatch (.wake true),
        .dispatch .take, .fork (some q)]
    ∃ t, run (launcherStep cfg) {} as = some t ∧ ¬ ((liveChildren t).length : ℤ) + 1 ≤ 2 := by
  intro cfg p q as
  have hrun : (run (launcherStep cfg) {} as).map (fun t => (liveChildren t).length) = some 2 := by
    decide +kernel
  obtain ⟨t, ht, hlive⟩ := Option.map_eq_some_iff.1 hrun
  exact ⟨t, ht, by simp [hlive]⟩

end Spartan
