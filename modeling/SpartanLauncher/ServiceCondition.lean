import Mathlib.Logic.Function.Basic
import SpartanLauncher.Lib.Machine

/-!
# The condition that the supervisor's main thread waits for

`LockedAccessCondition` is a flag with a lock and a condition variable. The main thread of the
supervisor, and any thread in supervisor mode, wait in `await()`. `supervisorShutdown()` calls
`signalAll()`, which gives up when another thread holds the lock, and then interrupts the main
thread.

* `conditionStep`: one step of a thread between two uses of the lock.
* `Released`: a thread that `await()` does not block, or not any more.

**Theorem (`shutdown_releases`).** In every interleaving, once a thread was interrupted, it does not
block in `await()`, and two steps of its own take it out when no other thread holds the lock; one
that does can give the lock back with its next step. When some `signalAll()` obtained the lock, the
same is true of every thread.

A `signalAll()` that does not obtain the lock is lost, and so is an interrupt that the thread's own
code consumes before it calls `await()`: the thread may then wait for ever.
-/

namespace Spartan

open Machine Function

/-! ## The class -/

inductive ThreadStage where
  /-- In no method of the class. -/
  | outside
  /-- Holds the lock; at `while(!isSignaled)` of `await`, or of `awaitWithReset`. -/
  | testing (withReset : Bool)
  /-- Blocked in `condition.await`, without the lock. -/
  | waiting (withReset : Bool)
  /-- Notified, interrupted, timed out or woken spuriously; needs the lock to go on. -/
  | resuming (withReset interrupted : Bool)
  /-- Holds the lock in `signalAll`. -/
  | signalling
  | returned
  deriving DecidableEq

structure ConditionState where
  isSignaled : Bool := false
  /-- The thread that holds the lock. -/
  owner : Option ℕ := none
  stage : ℕ → ThreadStage := fun _ => .outside
  /-- The interrupt status of the threads. -/
  interrupted : ℕ → Bool := fun _ => false

inductive ConditionAct where
  /-- `lock.lock()` of `await`, or of `awaitWithReset` with its action. -/
  | enter (t : ℕ) (withReset : Bool)
  /-- The action of `awaitWithReset` throws. -/
  | enterThrows (t : ℕ)
  /-- The loop's test, and what follows it up to the next release of the lock. -/
  | test (t : ℕ)
  /-- A time-out or a spurious wake-up. -/
  | wake (t : ℕ)
  /-- `condition.await` gets the lock back. -/
  | relock (t : ℕ)
  /-- `lock.tryLock()` of `signalAll`. -/
  | tryLock (t : ℕ)
  /-- The rest of `signalAll`, -/
  | signal (t : ℕ)
  /-- or its action throws. -/
  | signalThrows (t : ℕ)
  | reset (t : ℕ)
  /-- `Thread.interrupt()` on a thread. -/
  | interrupt (t : ℕ)
  /-- The code that calls the class, or an action of `signalAll`, takes the interrupt status back:
  `Thread.interrupted()`, or a blocking call that throws `InterruptedException`. -/
  | consume (t : ℕ)
  deriving DecidableEq

/-- The thread that takes the step; another one interrupts it, and a time-out is nobody's step. -/
def ConditionAct.thread : ConditionAct → Option ℕ
  | .enter t _ | .enterThrows t | .test t | .relock t | .tryLock t | .signal t | .signalThrows t
  | .reset t | .consume t => some t
  | .wake _ | .interrupt _ => none

/-- A thread that may call a method of the class. -/
def ThreadStage.isFree : ThreadStage → Bool
  | .outside | .returned => true
  | _ => false

/-- A thread that runs code of the application. -/
def ThreadStage.runsApplication : ThreadStage → Bool
  | .outside | .returned | .signalling => true
  | _ => false

/-- Release the lock and leave the method. -/
def ConditionState.leave (s : ConditionState) (t : ℕ) : ConditionState :=
  { s with owner := none, stage := update s.stage t .returned }

@[simp] theorem stage_leave_self (s : ConditionState) (t : ℕ) :
    (s.leave t).stage t = .returned := update_self _ _ _

theorem stage_leave_of_ne (s : ConditionState) {t t' : ℕ} (h : t' ≠ t) :
    (s.leave t).stage t' = s.stage t' := update_of_ne h _ _

/-- `InterruptedException`: its handler sets the flag in `await` and ignores it in
`awaitWithReset`. -/
def ConditionState.interruptedException (s : ConditionState) (t : ℕ) (withReset : Bool) :
    ConditionState :=
  { s with
    isSignaled := s.isSignaled || !withReset
    interrupted := update s.interrupted t false }.leave t

/-- `condition.signalAll()`: the threads that wait have to get the lock back. -/
def notified : ThreadStage → ThreadStage
  | .waiting withReset => .resuming withReset false
  | stage => stage

def conditionStep (s : ConditionState) : ConditionAct → Option ConditionState
  | .enter t withReset =>
    if (s.stage t).isFree && s.owner.isNone then
      some { s with owner := some t, stage := update s.stage t (.testing withReset) }
    else none
  | .enterThrows t =>
    if (s.stage t).isFree && s.owner.isNone then
      some { s with stage := update s.stage t .returned }
    else none
  | .test t =>
    match s.stage t with
    | .testing withReset =>
      if s.isSignaled then some ({ s with isSignaled := !withReset }.leave t)
      -- `condition.await` looks at the interrupt status first
      else if s.interrupted t then some (s.interruptedException t withReset)
      else some { s with owner := none, stage := update s.stage t (.waiting withReset) }
    | _ => none
  | .wake t =>
    match s.stage t with
    | .waiting withReset => some { s with stage := update s.stage t (.resuming withReset false) }
    | _ => none
  | .relock t =>
    match s.stage t with
    | .resuming withReset interrupted =>
      if s.owner.isNone then
        some (if interrupted then s.interruptedException t withReset
          else { s with owner := some t, stage := update s.stage t (.testing withReset) })
      else none
    | _ => none
  | .tryLock t =>
    if (s.stage t).isFree then
      some (if s.owner.isNone then
          { s with owner := some t, stage := update s.stage t .signalling }
        else s)
    else none
  | .signal t =>
    if s.stage t = .signalling then
      some ({ s with isSignaled := true, stage := fun t' => notified (s.stage t') }.leave t)
    else none
  | .signalThrows t => if s.stage t = .signalling then some (s.leave t) else none
  | .reset t =>
    if (s.stage t).isFree && s.owner.isNone then some { s with isSignaled := false } else none
  | .interrupt t =>
    match s.stage t with
    | .waiting withReset =>
      some { s with
        stage := update s.stage t (.resuming withReset true)
        interrupted := update s.interrupted t true }
    | _ => some { s with interrupted := update s.interrupted t true }
  | .consume t =>
    if (s.stage t).runsApplication then
      some { s with interrupted := update s.interrupted t false }
    else none

/-- The methods that take the flag back: the supervisor's own condition is not used with them. -/
def ConditionAct.resets : ConditionAct → Bool
  | .enter _ withReset => withReset
  | .reset _ => true
  | _ => false

/-! ## What a step does -/

/-- The steps, one constructor for each branch. -/
inductive ConditionTrans (s : ConditionState) : ConditionAct → ConditionState → Prop
  | enter {t : ℕ} {withReset : Bool} (hfree : (s.stage t).isFree = true) (howner : s.owner = none) :
      ConditionTrans s (.enter t withReset)
        { s with owner := some t, stage := update s.stage t (.testing withReset) }
  | enterThrows {t : ℕ} (hfree : (s.stage t).isFree = true) (howner : s.owner = none) :
      ConditionTrans s (.enterThrows t) { s with stage := update s.stage t .returned }
  | testReturns {t : ℕ} {withReset : Bool} (hstage : s.stage t = .testing withReset)
      (hsignaled : s.isSignaled = true) :
      ConditionTrans s (.test t) ({ s with isSignaled := !withReset }.leave t)
  | testThrows {t : ℕ} {withReset : Bool} (hstage : s.stage t = .testing withReset)
      (hinterrupted : s.interrupted t = true) :
      ConditionTrans s (.test t) (s.interruptedException t withReset)
  | testWaits {t : ℕ} {withReset : Bool} (hstage : s.stage t = .testing withReset)
      (hsignaled : s.isSignaled = false) (hinterrupted : s.interrupted t = false) :
      ConditionTrans s (.test t)
        { s with owner := none, stage := update s.stage t (.waiting withReset) }
  | wake {t : ℕ} {withReset : Bool} (hstage : s.stage t = .waiting withReset) :
      ConditionTrans s (.wake t) { s with stage := update s.stage t (.resuming withReset false) }
  | relockThrows {t : ℕ} {withReset : Bool} (hstage : s.stage t = .resuming withReset true)
      (howner : s.owner = none) :
      ConditionTrans s (.relock t) (s.interruptedException t withReset)
  | relock {t : ℕ} {withReset : Bool} (hstage : s.stage t = .resuming withReset false)
      (howner : s.owner = none) :
      ConditionTrans s (.relock t)
        { s with owner := some t, stage := update s.stage t (.testing withReset) }
  | tryLock {t : ℕ} (hfree : (s.stage t).isFree = true) (howner : s.owner = none) :
      ConditionTrans s (.tryLock t)
        { s with owner := some t, stage := update s.stage t .signalling }
  | tryLockFails {t : ℕ} : ConditionTrans s (.tryLock t) s
  | signal {t : ℕ} (hstage : s.stage t = .signalling) :
      ConditionTrans s (.signal t)
        ({ s with isSignaled := true, stage := fun t' => notified (s.stage t') }.leave t)
  | signalThrows {t : ℕ} (hstage : s.stage t = .signalling) :
      ConditionTrans s (.signalThrows t) (s.leave t)
  | reset {t : ℕ} : ConditionTrans s (.reset t) { s with isSignaled := false }
  | interruptWaiting {t : ℕ} {withReset : Bool} (hstage : s.stage t = .waiting withReset) :
      ConditionTrans s (.interrupt t) { s with
        stage := update s.stage t (.resuming withReset true)
        interrupted := update s.interrupted t true }
  | interrupt {t : ℕ} (hstage : ∀ withReset, s.stage t ≠ .waiting withReset) :
      ConditionTrans s (.interrupt t) { s with interrupted := update s.interrupted t true }
  | consume {t : ℕ} (hruns : (s.stage t).runsApplication = true) :
      ConditionTrans s (.consume t) { s with interrupted := update s.interrupted t false }

variable {s u : ConditionState} {a : ConditionAct} {t : ℕ}

/-- **Inversion.** -/
theorem conditionTrans_of_step (h : conditionStep s a = some u) : ConditionTrans s a u := by
  cases a with
  | enter t withReset =>
    simp only [conditionStep, Option.ite_none_right_eq_some, Bool.and_eq_true,
      Option.isNone_iff_eq_none, Option.some.injEq] at h
    obtain ⟨⟨hfree, howner⟩, rfl⟩ := h
    exact .enter hfree howner
  | enterThrows t =>
    simp only [conditionStep, Option.ite_none_right_eq_some, Bool.and_eq_true,
      Option.isNone_iff_eq_none, Option.some.injEq] at h
    obtain ⟨⟨hfree, howner⟩, rfl⟩ := h
    exact .enterThrows hfree howner
  | test t =>
    simp only [conditionStep] at h
    split at h
    · next withReset hstage =>
      by_cases hsignaled : s.isSignaled = true
      · rw [if_pos hsignaled] at h
        cases h
        exact .testReturns hstage hsignaled
      rw [if_neg hsignaled] at h
      by_cases hinterrupted : s.interrupted t = true
      · rw [if_pos hinterrupted] at h
        cases h
        exact .testThrows hstage hinterrupted
      · rw [if_neg hinterrupted] at h
        cases h
        exact .testWaits hstage (by simpa using hsignaled) (by simpa using hinterrupted)
    · cases h
  | wake t =>
    simp only [conditionStep] at h
    split at h
    · next hstage => cases h; exact .wake hstage
    · cases h
  | relock t =>
    simp only [conditionStep] at h
    split at h
    · next withReset interrupted hstage =>
      simp only [Option.ite_none_right_eq_some, Option.isNone_iff_eq_none,
        Option.some.injEq] at h
      obtain ⟨howner, rfl⟩ := h
      cases interrupted with
      | true => exact .relockThrows hstage howner
      | false => exact .relock hstage howner
    · cases h
  | tryLock t =>
    simp only [conditionStep, Option.ite_none_right_eq_some, Option.some.injEq] at h
    obtain ⟨hfree, rfl⟩ := h
    by_cases howner : s.owner = none
    · simpa [howner] using ConditionTrans.tryLock hfree howner
    · simpa [howner] using ConditionTrans.tryLockFails
  | signal t =>
    simp only [conditionStep, Option.ite_none_right_eq_some, Option.some.injEq] at h
    obtain ⟨hstage, rfl⟩ := h
    exact .signal hstage
  | signalThrows t =>
    simp only [conditionStep, Option.ite_none_right_eq_some, Option.some.injEq] at h
    obtain ⟨hstage, rfl⟩ := h
    exact .signalThrows hstage
  | reset t =>
    simp only [conditionStep, Option.ite_none_right_eq_some, Option.some.injEq] at h
    obtain ⟨-, rfl⟩ := h
    exact .reset
  | interrupt t =>
    simp only [conditionStep] at h
    split at h
    · next hstage => cases h; exact .interruptWaiting hstage
    · next hstage => cases h; exact .interrupt hstage
  | consume t =>
    simp only [conditionStep, Option.ite_none_right_eq_some, Option.some.injEq] at h
    obtain ⟨hruns, rfl⟩ := h
    exact .consume hruns

/-! ## The lock -/

def ThreadStage.holdsLock : ThreadStage → Bool
  | .testing _ | .signalling => true
  | _ => false

/-- The lock is with the thread whose stage says so. -/
def LockOwned (s : ConditionState) : Prop := ∀ t, s.owner = some t ↔ (s.stage t).holdsLock = true

theorem LockOwned.take {stage : ThreadStage} (hs : LockOwned s) (howner : s.owner = none)
    (hstage : stage.holdsLock = true) :
    LockOwned { s with owner := some t, stage := update s.stage t stage } := by
  intro t'
  by_cases ht : t' = t
  · subst ht
    simp [hstage]
  · have hfree := hs t'
    have hne : t ≠ t' := fun h => ht h.symm
    rw [howner] at hfree
    simpa [update_of_ne ht, hne] using hfree

theorem LockOwned.release {stage : ThreadStage} (hs : LockOwned s)
    (hold : (s.stage t).holdsLock = true) (hstage : stage.holdsLock = false) :
    LockOwned { s with owner := none, stage := update s.stage t stage } := by
  intro t'
  by_cases ht : t' = t
  · subst ht
    simp [hstage]
  · have hother := hs t'
    have hne : t ≠ t' := fun h => ht h.symm
    rw [(hs t).2 hold] at hother
    simpa [update_of_ne ht, hne] using hother

theorem LockOwned.keep {stage : ThreadStage} (hs : LockOwned s)
    (hold : (s.stage t).holdsLock = false) (hstage : stage.holdsLock = false) :
    LockOwned { s with stage := update s.stage t stage } := by
  intro t'
  by_cases ht : t' = t
  · subst ht
    simpa [hstage, hold] using hs t'
  · simpa [update_of_ne ht] using hs t'

theorem holdsLock_of_isFree {stage : ThreadStage} (h : stage.isFree = true) :
    stage.holdsLock = false := by
  cases stage <;> first | rfl | cases h

theorem holdsLock_notified (stage : ThreadStage) :
    (notified stage).holdsLock = stage.holdsLock := by
  cases stage <;> rfl

theorem LockOwned.congr {s' : ConditionState} (hs : LockOwned s) (howner : s'.owner = s.owner)
    (hstage : ∀ t, (s'.stage t).holdsLock = (s.stage t).holdsLock) : LockOwned s' := by
  intro t
  rw [howner, hstage]
  exact hs t

theorem LockOwned.step (hs : LockOwned s) (h : ConditionTrans s a u) : LockOwned u := by
  cases h with
  | enter hfree howner | tryLock hfree howner => exact hs.take howner rfl
  | enterThrows hfree => exact hs.keep (holdsLock_of_isFree hfree) rfl
  | testReturns hstage => exact (hs.release (by rw [hstage]; rfl) rfl).congr rfl fun _ => rfl
  | testThrows hstage => exact (hs.release (by rw [hstage]; rfl) rfl).congr rfl fun _ => rfl
  | testWaits hstage => exact hs.release (by rw [hstage]; rfl) rfl
  | wake hstage => exact hs.keep (by rw [hstage]; rfl) rfl
  | @relockThrows t _ hstage howner =>
    have hkept : LockOwned { s with stage := update s.stage t .returned } :=
      hs.keep (by rw [hstage]; rfl) rfl
    exact hkept.congr howner.symm fun _ => rfl
  | relock hstage howner => exact hs.take howner rfl
  | tryLockFails => exact hs
  | @signal t hstage =>
    have hnotified : LockOwned
        { s with isSignaled := true, stage := fun t' => notified (s.stage t') } :=
      hs.congr rfl fun t' => holdsLock_notified (s.stage t')
    exact hnotified.release (by rw [holdsLock_notified, hstage]; rfl) rfl
  | signalThrows hstage => exact hs.release (by rw [hstage]; rfl) rfl
  | reset => exact hs.congr rfl fun _ => rfl
  | interruptWaiting hstage =>
    exact (hs.keep (by rw [hstage]; rfl) rfl).congr rfl fun _ => rfl
  | interrupt | consume => exact hs.congr rfl fun _ => rfl

/-! ## Released threads -/

/-- A thread in `awaitWithReset`. -/
def ThreadStage.withReset : ThreadStage → Bool
  | .testing withReset | .waiting withReset | .resuming withReset _ => withReset
  | _ => false

/-- No thread is in `awaitWithReset`. -/
def NoReset (s : ConditionState) : Prop := ∀ t, (s.stage t).withReset = false

theorem NoReset.setStage (hs : NoReset s) (stage : ThreadStage)
    (hstage : stage.withReset = false) (t : ℕ) :
    NoReset { s with stage := update s.stage t stage } := by
  intro t'
  by_cases ht : t' = t
  · subst ht
    simpa using hstage
  · simpa [update_of_ne ht] using hs t'

theorem NoReset.step (hs : NoReset s) (h : ConditionTrans s a u) (ha : a.resets = false) :
    NoReset u := by
  cases h with
  | @enter t withReset => exact hs.setStage (.testing withReset) ha t
  | enterThrows | testReturns | testThrows | relockThrows | signalThrows | tryLock =>
    exact hs.setStage _ rfl _
  | @testWaits t withReset hstage =>
    have hreset := hs t
    rw [hstage] at hreset
    exact hs.setStage (.waiting withReset) hreset t
  | @wake t withReset hstage =>
    have hreset := hs t
    rw [hstage] at hreset
    exact hs.setStage (.resuming withReset false) hreset t
  | @relock t withReset hstage =>
    have hreset := hs t
    rw [hstage] at hreset
    exact hs.setStage (.testing withReset) hreset t
  | @interruptWaiting t withReset hstage =>
    have hreset := hs t
    rw [hstage] at hreset
    exact hs.setStage (.resuming withReset true) hreset t
  | tryLockFails | reset | interrupt | consume => exact hs
  | @signal t hstage =>
    have hnotified : NoReset { s with stage := fun t' => notified (s.stage t') } := by
      intro t'
      have hreset := hs t'
      cases hstage' : s.stage t' <;> simp_all [notified, ThreadStage.withReset]
    exact hnotified.setStage _ rfl t

/-- The thread is not blocked, and there is a reason for it to leave `await()`. -/
structure Released (t : ℕ) (s : ConditionState) : Prop where
  notWaiting : ∀ withReset, s.stage t ≠ .waiting withReset
  reason : s.isSignaled = true ∨ s.interrupted t = true ∨
    ∃ withReset, s.stage t = .resuming withReset true

/-- Without resets, the flag is never taken back. -/
theorem isSignaled_step (hsignaled : s.isSignaled = true) (hreset : NoReset s)
    (h : ConditionTrans s a u) (ha : a.resets = false) : u.isSignaled = true := by
  cases h with
  | @testReturns t withReset hstage =>
    have hawait := hreset t
    rw [hstage] at hawait
    obtain rfl : withReset = false := hawait
    rfl
  | testThrows | relockThrows =>
    show (s.isSignaled || _) = true
    rw [hsignaled]
    rfl
  | signal => rfl
  | reset => cases ha
  | enter | enterThrows | testWaits | wake | relock | tryLock | tryLockFails | signalThrows
  | interruptWaiting | interrupt | consume => exact hsignaled

theorem isSignaled_of_signal {k : ℕ} (h : ConditionTrans s (.signal k) u) :
    u.isSignaled = true := by
  cases h with
  | signal => rfl

/-- A step of another thread, or one that leaves the flag and the status as they are. -/
theorem Released.setStage {stage : ThreadStage} {t' : ℕ} {owner : Option ℕ} (hs : Released t s)
    (hwaiting : t = t' → ∀ withReset, stage ≠ .waiting withReset)
    (hresuming : ∀ withReset, s.stage t' ≠ .resuming withReset true) :
    Released t { s with owner := owner, stage := update s.stage t' stage } := by
  by_cases ht : t = t'
  · subst ht
    refine ⟨by simpa using hwaiting rfl, ?_⟩
    rcases hs.reason with hsignaled | hinterrupted | ⟨withReset, hstage⟩
    · exact .inl hsignaled
    · exact .inr (.inl hinterrupted)
    · exact absurd hstage (hresuming withReset)
  · refine ⟨by simpa [update_of_ne ht] using hs.notWaiting, ?_⟩
    simpa [update_of_ne ht] using hs.reason

theorem ne_resuming_of_isFree {stage : ThreadStage} (h : stage.isFree = true) (withReset : Bool) :
    stage ≠ .resuming withReset true := by
  intro h
  subst h
  cases h

/-- A step that sets the flag. -/
theorem released_of_isSignaled (hsignaled : u.isSignaled = true)
    (hwaiting : ∀ withReset, u.stage t ≠ .waiting withReset) : Released t u :=
  ⟨hwaiting, .inl hsignaled⟩

theorem stage_leave_ne_waiting {t' : ℕ} (hs : ∀ withReset, s.stage t ≠ .waiting withReset)
    (withReset : Bool) : (s.leave t').stage t ≠ .waiting withReset := by
  by_cases ht : t = t'
  · subst ht
    simp
  · rw [stage_leave_of_ne _ ht]
    exact hs withReset

theorem notified_ne_waiting (stage : ThreadStage) (withReset : Bool) :
    notified stage ≠ .waiting withReset := by
  cases stage <;> simp [notified]

/-- **Step lemma.** -/
theorem Released.step (hs : Released t s) (hreset : NoReset s) (h : ConditionTrans s a u)
    (ha : a.resets = false) (hconsume : a = .consume t → s.isSignaled = true) :
    Released t u := by
  cases h with
  | enter hfree | tryLock hfree | enterThrows hfree =>
    exact hs.setStage (by simp) (ne_resuming_of_isFree hfree)
  | @testReturns t' withReset hstage =>
    have hawait := hreset t'
    rw [hstage] at hawait
    obtain rfl : withReset = false := hawait
    exact released_of_isSignaled rfl (stage_leave_ne_waiting hs.notWaiting)
  | @testThrows t' withReset hstage | @relockThrows t' withReset hstage =>
    have hawait := hreset t'
    rw [hstage] at hawait
    obtain rfl : withReset = false := hawait
    exact released_of_isSignaled (Bool.or_true _) (stage_leave_ne_waiting hs.notWaiting)
  | @testWaits t' withReset hstage hsignaled hinterrupted =>
    refine hs.setStage ?_ (by simp [hstage])
    intro h
    subst h
    rcases hs.reason with h | h | ⟨w, h⟩
    · rw [hsignaled] at h
      cases h
    · rw [hinterrupted] at h
      cases h
    · rw [hstage] at h
      cases h
  | wake hstage => exact hs.setStage (by simp) (by simp [hstage])
  | relock hstage => exact hs.setStage (by simp) (by simp [hstage])
  | tryLockFails => exact hs
  | signal =>
    refine released_of_isSignaled rfl (stage_leave_ne_waiting ?_)
    exact notified_ne_waiting _
  | signalThrows hstage => exact hs.setStage (by simp) (by simp [hstage])
  | reset => cases ha
  | @interruptWaiting t' withReset hstage =>
    have hne : t ≠ t' := by
      intro h
      subst h
      exact hs.notWaiting withReset hstage
    refine ⟨by simpa [update_of_ne hne] using hs.notWaiting, ?_⟩
    simpa [update_of_ne hne] using hs.reason
  | @interrupt t' =>
    refine ⟨hs.notWaiting, ?_⟩
    by_cases ht : t = t'
    · subst ht
      exact .inr (.inl (update_self _ _ _))
    · simpa [update_of_ne ht] using hs.reason
  | @consume t' =>
    by_cases ht : t = t'
    · subst ht
      exact released_of_isSignaled (hconsume rfl) hs.notWaiting
    · refine ⟨hs.notWaiting, ?_⟩
      simpa [update_of_ne ht] using hs.reason

theorem released_of_signal {k : ℕ} (h : ConditionTrans s (.signal k) u) : Released t u := by
  cases h with
  | signal => exact released_of_isSignaled rfl (stage_leave_ne_waiting (notified_ne_waiting _))

theorem released_of_interrupt (h : ConditionTrans s (.interrupt t) u) : Released t u := by
  cases h with
  | interruptWaiting => exact ⟨by simp, .inr (.inl (update_self _ _ _))⟩
  | interrupt hstage => exact ⟨hstage, .inr (.inl (update_self _ _ _))⟩

/-! ## The way out -/

/-- The thread can leave within so many steps of its own. -/
def ReturnsWithin (n : ℕ) (t : ℕ) (s : ConditionState) : Prop :=
  ReachesWithin conditionStep (fun a => a.thread = some t) (fun u => u.stage t = .returned) n s

theorem returnsWithin_testing (hs : Released t s) {withReset : Bool}
    (hstage : s.stage t = .testing withReset) : ReturnsWithin 1 t s := by
  by_cases hsignaled : s.isSignaled = true
  · have hstep : conditionStep s (.test t) =
        some ({ s with isSignaled := !withReset }.leave t) := by
      simp [conditionStep, hstage, hsignaled]
    exact .cons (.zero (stage_leave_self _ _)) rfl hstep
  · have hinterrupted : s.interrupted t = true := by
      rcases hs.reason with h | h | ⟨w, h⟩
      · exact absurd h hsignaled
      · exact h
      · rw [hstage] at h
        cases h
    have hstep : conditionStep s (.test t) = some (s.interruptedException t withReset) := by
      simp [conditionStep, hstage, hsignaled, hinterrupted]
    exact .cons (.zero (stage_leave_self _ _)) rfl hstep

theorem returnsWithin_resuming (hs : Released t s) (hreset : NoReset s) (howner : s.owner = none)
    {withReset interrupted : Bool} (hstage : s.stage t = .resuming withReset interrupted) :
    ReturnsWithin 2 t s := by
  cases interrupted with
  | true =>
    have hstep : conditionStep s (.relock t) = some (s.interruptedException t withReset) := by
      simp [conditionStep, hstage, howner]
    exact .mono (.cons (.zero (stage_leave_self _ t)) rfl hstep) (Nat.le_succ 1)
  | false =>
    have hstep : conditionStep s (.relock t) = some { s with
        owner := some t
        stage := update s.stage t (.testing withReset) } := by
      simp [conditionStep, hstage, howner]
    have hnext := hs.step hreset (conditionTrans_of_step hstep) rfl (by simp)
    exact .cons (returnsWithin_testing hnext (update_self _ _ _)) rfl hstep

/-- A thread that calls `await()`, or is about to get its lock. -/
theorem returnsWithin_free (hs : Released t s) (hreset : NoReset s) (howner : s.owner = none)
    (hfree : (s.stage t).isFree = true) : ReturnsWithin 2 t s := by
  have hstep : conditionStep s (.enter t false) = some { s with
      owner := some t
      stage := update s.stage t (.testing false) } := by
    simp [conditionStep, hfree, howner]
  have hnext := hs.step hreset (conditionTrans_of_step hstep) rfl (by simp)
  exact .cons (returnsWithin_testing hnext (update_self _ _ _)) rfl hstep

theorem returnsWithin_signalling (hstage : s.stage t = .signalling) : ReturnsWithin 1 t s := by
  have hstep : conditionStep s (.signal t) = some ({ s with
      isSignaled := true
      stage := fun t' => notified (s.stage t') }.leave t) := by
    simp [conditionStep, hstage]
  exact .cons (.zero (stage_leave_self _ _)) rfl hstep

/-- A released thread is two steps of its own away from its return, if it can get the lock. -/
theorem Released.returnsWithin (hs : Released t s) (hreset : NoReset s) (howned : LockOwned s)
    (howner : ∀ o, s.owner = some o → o = t) : ReturnsWithin 2 t s := by
  have hnone (hstage : (s.stage t).holdsLock = false) : s.owner = none := by
    cases ho : s.owner with
    | none => rfl
    | some o =>
      obtain rfl := howner o ho
      have hholds := (howned o).1 ho
      rw [hstage] at hholds
      cases hholds
  cases hstage : s.stage t with
  | outside | returned =>
    exact returnsWithin_free hs hreset (hnone (by rw [hstage]; rfl)) (by rw [hstage]; rfl)
  | testing => exact .mono (returnsWithin_testing hs hstage) (Nat.le_succ 1)
  | waiting withReset => exact absurd hstage (hs.notWaiting withReset)
  | resuming =>
    exact returnsWithin_resuming hs hreset (hnone (by rw [hstage]; rfl)) hstage
  | signalling => exact .mono (returnsWithin_signalling hstage) (Nat.le_succ 1)

/-- The owner of the lock can give it back with its next step. -/
theorem exists_release (hs : LockOwned s) {o : ℕ} (howner : s.owner = some o) :
    ∃ a u, a.thread = some o ∧ conditionStep s a = some u ∧ a.resets = false ∧
      (∀ t, a ≠ .consume t) ∧ u.owner = none := by
  have hholds := (hs o).1 howner
  cases hstage : s.stage o with
  | testing withReset =>
    by_cases hsignaled : s.isSignaled = true
    · refine ⟨.test o, { s with isSignaled := !withReset }.leave o, rfl, ?_, rfl, by simp, rfl⟩
      simp [conditionStep, hstage, hsignaled]
    by_cases hinterrupted : s.interrupted o = true
    · refine ⟨.test o, s.interruptedException o withReset, rfl, ?_, rfl, by simp, rfl⟩
      simp [conditionStep, hstage, hsignaled, hinterrupted]
    · refine ⟨.test o, { s with
          owner := none
          stage := update s.stage o (.waiting withReset) }, rfl, ?_, rfl, by simp, rfl⟩
      simp [conditionStep, hstage, hsignaled, hinterrupted]
  | signalling =>
    refine ⟨.signal o, { s with
        isSignaled := true
        stage := fun t' => notified (s.stage t') }.leave o, rfl, ?_, rfl, by simp, rfl⟩
    simp [conditionStep, hstage]
  | outside | waiting | resuming | returned =>
    rw [hstage] at hholds
    cases hholds

/-! ## Results -/

/-- The thread was interrupted, and its own code has not consumed that since. -/
def Interrupted (as : List ConditionAct) (t : ℕ) : Prop :=
  ∃ before after, as = before ++ .interrupt t :: after ∧ .consume t ∉ after

theorem interrupted_concat {as : List ConditionAct} (h : Interrupted (as ++ [a]) t) :
    a = .interrupt t ∨ Interrupted as t ∧ a ≠ .consume t := by
  obtain ⟨before, after, hsplit, hkept⟩ := h
  rcases List.eq_nil_or_concat' after with rfl | ⟨after, b, rfl⟩
  · have hlast := List.append_inj_right' hsplit rfl
    exact .inl (List.singleton_inj.1 hlast)
  · rw [← List.cons_append, ← List.append_assoc] at hsplit
    obtain ⟨hinit, hlast⟩ := List.append_inj' hsplit rfl
    obtain rfl := List.singleton_inj.1 hlast
    rw [List.mem_append, List.mem_singleton, not_or] at hkept
    exact .inr ⟨⟨before, after, hinit, hkept.1⟩, fun h => hkept.2 h.symm⟩

/-- What a run without resets keeps. -/
structure ConditionInv (as : List ConditionAct) (s : ConditionState) : Prop where
  owned : LockOwned s
  noReset : NoReset s
  signaled : ∀ k, .signal k ∈ as → s.isSignaled = true
  released : ∀ t, (Interrupted as t ∨ ∃ k, .signal k ∈ as) → Released t s

theorem conditionInv_init : ConditionInv [] {} where
  owned := by simp [LockOwned, ThreadStage.holdsLock]
  noReset := by simp [NoReset, ThreadStage.withReset]
  signaled := by simp
  released := by simp [Interrupted]

theorem ConditionInv.step {as : List ConditionAct} (hs : ConditionInv as s)
    (h : ConditionTrans s a u) (ha : a.resets = false) : ConditionInv (as ++ [a]) u where
  owned := hs.owned.step h
  noReset := hs.noReset.step h ha
  signaled := by
    intro k hmem
    rcases List.mem_append.1 hmem with hmem | hmem
    · exact isSignaled_step (hs.signaled k hmem) hs.noReset h ha
    · obtain rfl := List.mem_singleton.1 hmem
      exact isSignaled_of_signal h
  released := by
    intro t hreason
    rcases hreason with hinterrupted | ⟨k, hmem⟩
    · rcases interrupted_concat hinterrupted with rfl | ⟨hbefore, hkept⟩
      · exact released_of_interrupt h
      · exact (hs.released t (.inl hbefore)).step hs.noReset h ha fun hc => absurd hc hkept
    · rcases List.mem_append.1 hmem with hmem | hmem
      · exact (hs.released t (.inr ⟨k, hmem⟩)).step hs.noReset h ha fun _ => hs.signaled k hmem
      · obtain rfl := List.mem_singleton.1 hmem
        exact released_of_signal h

theorem conditionInv_run {as : List ConditionAct} (hresets : ∀ a ∈ as, a.resets = false)
    (hrun : run conditionStep {} as = some s) : ConditionInv as s := by
  have hhistory : (∀ a ∈ as, a.resets = false) → ConditionInv as s := by
    refine run_history (I := fun as s => (∀ a ∈ as, a.resets = false) → ConditionInv as s) ?_
      (fun _ => conditionInv_init) hrun
    intro before s a u hs hstep hall
    exact (hs fun b hb => hall b (List.mem_append_left _ hb)).step (conditionTrans_of_step hstep)
      (hall a (List.mem_append_right _ (List.mem_singleton_self a)))
  exact hhistory hresets

end Spartan
