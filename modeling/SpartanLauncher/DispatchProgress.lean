import SpartanLauncher.DispatchQueue

/-!
# Progress of the dispatch queue

The de-queue thread clears `qready` in each iteration, also when it leaves messages in the queue,
and a completion that does not get the lock notifies nobody. It waits two seconds at most, however,
and then takes what the headroom allows.

* `granted`: the headrooms that the iterations of a run have captured, together.
* `supervisorDispatch`: the queue as configured in the supervisor process.

**Theorem (`queued_messages_taken`).** As many of the queued messages are taken as the headrooms
captured since then allow, whatever was notified.

**Theorem (`supervisor_takes_all`).** In the supervisor process each iteration captures a headroom
of 99, whatever happened before. This is so until `jvm_shutting_down` is set: a batch that is
dropped from then on stays in the counter.

The measure is the number of messages taken. `step_dispatched` says what a step adds to it.
-/

namespace Spartan

open Machine

variable {μ : Type*}

/-- The messages that were taken off the queue, in order. -/
def DispatchState.taken (s : DispatchState μ) : List μ := s.handed ++ s.batch

/-- The headroom that `take` goes by, as far as it is positive. -/
def DispatchState.grant (s : DispatchState μ) : DispatchAct μ → ℕ
  | .take =>
    match s.thread with
    | .locked countHeadroom => countHeadroom.toNat
    | _ => 0
  | _ => 0

/-- The headrooms that the iterations of a run have captured, together. -/
def granted (cfg : DispatchCfg) : DispatchState μ → List (DispatchAct μ) → ℕ
  | _, [] => 0
  | s, a :: as =>
    s.grant a +
      match dispatchStep cfg s a with
      | none => 0
      | some t => granted cfg t as

/-- The queue is never so long that its size does not fit an `int`. -/
def SizeFits (s : DispatchState μ) (_ : DispatchAct μ) : Prop :=
  s.dispatchMsgQueue.length < 2 ^ 31

variable {cfg : DispatchCfg} {s t : DispatchState μ} {a : DispatchAct μ}
  {as : List (DispatchAct μ)}

/-! ## One step -/

theorem deQueueCount_toNat {size : ℕ} (hsize : size < 2 ^ 31) (h : ℤ) :
    (deQueueCount size h).toNat = min h.toNat size := by
  have hfits : CString.toInt32 size = size := CString.toInt32_eq (by omega) (by omega)
  simp only [deQueueCount, hfits]
  split_ifs <;> omega

/-- **Step lemma.** A step takes as many messages as are queued and granted. -/
theorem step_taken (hsize : SizeFits s a) (hstep : dispatchStep cfg s a = some t) :
    t.taken = s.taken ++ s.dispatchMsgQueue.take (s.grant a) := by
  cases dispatchTrans_of_step hstep with
  | enQueue | refuse | lockFails =>
    simp [DispatchState.taken, DispatchState.batch, DispatchState.grant]
  | wait hthread hnext | wake hthread hnext =>
    rcases hnext with rfl | rfl <;>
      simp [DispatchState.taken, DispatchState.batch, DispatchState.grant, hthread]
  | @take h hthread =>
    obtain ⟨-, hbatch, hhanded, -⟩ :=
      takeBatch_spec s (deQueueCount s.dispatchMsgQueue.length h)
    have hs : s.batch = [] := by simp [DispatchState.batch, hthread]
    have hgrant : s.grant .take = h.toNat := by simp [DispatchState.grant, hthread]
    rw [DispatchState.taken, DispatchState.taken, hbatch, hhanded, hs, hgrant,
      deQueueCount_toNat hsize, List.append_nil, ← List.take_eq_take_min]
  | @handle msg msgs _ hthread hnext =>
    subst hnext
    cases msgs <;>
      simp [DispatchState.taken, DispatchState.batch, DispatchState.grant, hthread]
  | @completion locked =>
    obtain ⟨hhanded, hthread, -⟩ := childProcessCompletion_messages cfg s locked
    simp [DispatchState.taken, DispatchState.batch, DispatchState.grant, hhanded, hthread]

/-- What is left in the queue, with what was accepted behind it. -/
theorem step_left (hsize : SizeFits s a) (hstep : dispatchStep cfg s a = some t) :
    t.dispatchMsgQueue = s.dispatchMsgQueue.drop (s.grant a) ++ a.accepted.toList := by
  have hmessages : t.taken ++ t.dispatchMsgQueue =
      s.taken ++ s.dispatchMsgQueue ++ a.accepted.toList := step_messages hstep
  rw [step_taken hsize hstep, List.append_assoc, List.append_assoc] at hmessages
  have hqueue := List.append_cancel_left hmessages
  rw [← List.take_append_drop (s.grant a) s.dispatchMsgQueue, List.append_assoc,
    List.take_append_drop] at hqueue
  exact List.append_cancel_left hqueue

/-- The queue stays short enough in a run with few enough actions. -/
theorem always_sizeFits (hfew : s.dispatchMsgQueue.length + as.length < 2 ^ 31) :
    Always (dispatchStep cfg) SizeFits s as := by
  induction as generalizing s with
  | nil => trivial
  | cons a as ih =>
    rw [List.length_cons] at hfew
    have hfits : SizeFits s a := by
      rw [SizeFits]
      omega
    refine ⟨hfits, ?_⟩
    cases hstep : dispatchStep cfg s a with
    | none => trivial
    | some t =>
      have haccepted : a.accepted.toList.length ≤ 1 := by cases a.accepted <;> simp
      have hlength : t.dispatchMsgQueue.length ≤ s.dispatchMsgQueue.length + 1 := by
        rw [step_left hfits hstep, List.length_append, List.length_drop]
        omega
      exact ih (by omega)

/-! ## Runs -/

theorem granted_cons (hstep : dispatchStep cfg s a = some t) :
    granted cfg s (a :: as) = s.grant a + granted cfg t as := by
  rw [granted, hstep]

/-- **Run lemma.** The granted front of the queue is taken behind what was taken before. -/
theorem run_taken (hsize : Always (dispatchStep cfg) SizeFits s as)
    (hrun : run (dispatchStep cfg) s as = some t) :
    s.taken ++ s.dispatchMsgQueue.take (granted cfg s as) <+: t.taken := by
  induction as generalizing s with
  | nil =>
    cases hrun
    simp [granted]
  | cons a as ih =>
    obtain ⟨u, hu, hrun⟩ := run_cons_eq_some.1 hrun
    have hrest := ih (hsize.tail hu) hrun
    have hnext : s.taken ++ s.dispatchMsgQueue.take (granted cfg s (a :: as)) <+:
        u.taken ++ u.dispatchMsgQueue.take (granted cfg u as) := by
      rw [granted_cons hu, step_taken hsize.head hu, step_left hsize.head hu, List.take_add,
        List.append_assoc, List.prefix_append_right_inj, List.prefix_append_right_inj,
        List.take_append]
      exact List.prefix_append _ _
    exact hnext.trans hrest

/-- **Queued messages are taken.** -/
theorem queued_messages_taken (cfg : DispatchCfg) (as bs : List (DispatchAct μ))
    {s t : DispatchState μ} (hrun : run (dispatchStep cfg) {} as = some s)
    (hrun' : run (dispatchStep cfg) s bs = some t)
    (hsize : Always (dispatchStep cfg) SizeFits s bs) :
    s.taken ++ s.dispatchMsgQueue.take (granted cfg s bs) <+: t.taken ∧
      (s.dispatchMsgQueue.length ≤ granted cfg s bs → acceptedMsgs as <+: t.taken) := by
  have htaken := run_taken hsize hrun'
  refine ⟨htaken, ?_⟩
  intro hall
  have haccepted : s.taken ++ s.dispatchMsgQueue = acceptedMsgs as := by
    simpa [DispatchState.messages, DispatchState.taken, DispatchState.batch] using
      run_messages hrun
  rwa [List.take_of_length_le hall, haccepted] at htaken

/-- The completion does not get the lock and notifies nobody; the second message is taken when
the two seconds are over. -/
theorem queued_messages_taken_timeout :
    let as : List (DispatchAct ℕ) := [.enQueue 7, .enQueue 8]
    let bs : List (DispatchAct ℕ) :=
      [.wait, .take, .handle, .completion false, .wait, .wake true, .take]
    ∃ s t, run (dispatchStep ⟨true, 2⟩) {} as = some s ∧
      run (dispatchStep ⟨true, 2⟩) s bs = some t ∧ [7, 8] <+: t.taken := by
  intro as bs
  let s := (run (dispatchStep ⟨true, 2⟩) {} as).getD {}
  have hrun : run (dispatchStep ⟨true, 2⟩) {} as = some s := rfl
  have hsome : (run (dispatchStep ⟨true, 2⟩) s bs).isSome = true := by decide +kernel
  have hsize : Always (dispatchStep ⟨true, 2⟩) SizeFits s bs := always_sizeFits (by decide)
  exact ⟨_, _, hrun, (Option.some_get hsome).symm,
    (queued_messages_taken ⟨true, 2⟩ as bs hrun (Option.some_get hsome).symm hsize).2
      (by decide +kernel)⟩

/-! ## The supervisor process -/

/-- The queue as configured in the supervisor process. -/
def supervisorDispatch : DispatchCfg := ⟨false, 100⟩

def DispatchAct.isTake : DispatchAct μ → Bool
  | .take => true
  | _ => false

/-- The `waitid` thread runs in the launcher only. -/
def DispatchAct.isCompletion : DispatchAct μ → Bool
  | .completion _ => true
  | _ => false

/-- The counter pays for the JVM `main()` process and the batch. -/
structure SupervisorInv (cfg : DispatchCfg) (s : DispatchState μ) : Prop where
  count : s.childProcessCount = 1 + s.batch.length
  locked : ∀ h, s.thread = .locked h → h = cfg.childProcessMaxCount - 1

theorem supervisorInv_step (hs : SupervisorInv cfg s) (hsupervisor : cfg.isLauncherProcess = false)
    (hact : a.isCompletion = false) (hstep : dispatchStep cfg s a = some t) :
    SupervisorInv cfg t := by
  obtain ⟨hcount, hlocked⟩ := hs
  cases dispatchTrans_of_step hstep with
  | enQueue => exact ⟨hcount, hlocked⟩
  | refuse | lockFails => exact ⟨hcount, hlocked⟩
  | wait hthread hnext | wake hthread hnext =>
    have hone : s.childProcessCount = 1 := by simpa [DispatchState.batch, hthread] using hcount
    rcases hnext with rfl | rfl
    · exact ⟨by simp [DispatchState.batch, hone], fun h hh => by cases hh⟩
    · refine ⟨by simp [DispatchState.batch, hone], ?_⟩
      intro h hh
      cases hh
      rw [headroom, hone]
  | @take h hthread =>
    obtain ⟨-, hbatch, -, hnew⟩ := takeBatch_spec s (deQueueCount s.dispatchMsgQueue.length h)
    have hone : s.childProcessCount = 1 := by simpa [DispatchState.batch, hthread] using hcount
    have hsize := deQueueCount_le_size s.dispatchMsgQueue.length h
    refine ⟨?_, ?_⟩
    · rw [hnew, hbatch, hone, List.length_take]
      omega
    · intro h' hh
      unfold takeBatch at hh
      split_ifs at hh
  | @handle msg msgs _ hthread hnext =>
    subst hnext
    simp only [DispatchState.batch, hthread, List.length_cons] at hcount
    refine ⟨?_, ?_⟩
    · simp only [hsupervisor, Bool.false_eq_true, if_false]
      cases msgs with
      | nil =>
        simp only [DispatchState.batch, List.isEmpty_nil, if_true, List.length_nil] at hcount ⊢
        omega
      | cons msg' msgs =>
        simp only [DispatchState.batch, List.isEmpty_cons, Bool.false_eq_true, if_false,
          List.length_cons] at hcount ⊢
        omega
    · intro h hh
      simp only at hh
      split_ifs at hh
  | completion => cases hact

theorem supervisorInv_run (hs : SupervisorInv cfg s) (hsupervisor : cfg.isLauncherProcess = false)
    (hacts : ∀ a ∈ as, a.isCompletion = false) (hrun : run (dispatchStep cfg) s as = some t) :
    SupervisorInv cfg t :=
  run_invariant_of (P := fun _ a => a.isCompletion = false)
    (fun _ _ _ hs hact hstep => supervisorInv_step hs hsupervisor hact hstep) hs
    (always_of_forall hacts) hrun

/-- Each iteration is granted the maximum less one. -/
theorem granted_supervisor (hs : SupervisorInv cfg s)
    (hsupervisor : cfg.isLauncherProcess = false) (hacts : ∀ a ∈ as, a.isCompletion = false)
    (hrun : run (dispatchStep cfg) s as = some t) :
    granted cfg s as = (cfg.childProcessMaxCount - 1).toNat * as.countP DispatchAct.isTake := by
  induction as generalizing s with
  | nil => simp [granted]
  | cons a as ih =>
    obtain ⟨u, hu, hrun⟩ := run_cons_eq_some.1 hrun
    have hact := hacts a List.mem_cons_self
    have hrest := ih (supervisorInv_step hs hsupervisor hact hu)
      (fun b hb => hacts b (List.mem_cons_of_mem a hb)) hrun
    have hgrant : s.grant a = if a.isTake then (cfg.childProcessMaxCount - 1).toNat else 0 := by
      cases dispatchTrans_of_step hu with
      | @take h hthread =>
        rw [DispatchState.grant, hthread, DispatchAct.isTake, if_pos rfl, hs.locked h hthread]
      | _ => rfl
    rw [granted_cons hu, hgrant, hrest, List.countP_cons, Nat.mul_add, Nat.add_comm]
    split_ifs <;> simp

/-- **The supervisor takes what is queued,** 99 messages in each iteration, as long as it is not
shutting down. -/
theorem supervisor_takes_all (as bs : List (DispatchAct μ)) {s t : DispatchState μ}
    (hacts : ∀ a ∈ as ++ bs, a.isCompletion = false)
    (hrun : run (dispatchStep supervisorDispatch) {} as = some s)
    (hrun' : run (dispatchStep supervisorDispatch) s bs = some t)
    (hsize : Always (dispatchStep supervisorDispatch) SizeFits s bs) :
    s.taken ++ s.dispatchMsgQueue.take (99 * bs.countP DispatchAct.isTake) <+: t.taken := by
  have hinit : SupervisorInv supervisorDispatch ({} : DispatchState μ) :=
    ⟨rfl, fun h hh => by cases hh⟩
  have hinv := supervisorInv_run hinit rfl (fun a ha => hacts a (List.mem_append_left bs ha)) hrun
  have hgranted := granted_supervisor hinv rfl
    (fun a ha => hacts a (List.mem_append_right as ha)) hrun'
  have htaken := run_taken hsize hrun'
  rwa [hgranted] at htaken

/-- A message that came during an iteration, and another one behind it. -/
theorem supervisor_takes_all_two :
    let as : List (DispatchAct ℕ) := [.enQueue 7, .wait, .take, .enQueue 8, .enQueue 9]
    let bs : List (DispatchAct ℕ) := [.handle, .wait, .take]
    ∃ s t, run (dispatchStep supervisorDispatch) {} as = some s ∧
      run (dispatchStep supervisorDispatch) s bs = some t ∧ [7, 8, 9] <+: t.taken := by
  intro as bs
  let s := (run (dispatchStep supervisorDispatch) {} as).getD {}
  have hrun : run (dispatchStep supervisorDispatch) {} as = some s := rfl
  have hsome : (run (dispatchStep supervisorDispatch) s bs).isSome = true := by decide +kernel
  have hsize : Always (dispatchStep supervisorDispatch) SizeFits s bs :=
    always_sizeFits (by decide)
  have htaken := supervisor_takes_all as bs (by decide) hrun (Option.some_get hsome).symm hsize
  exact ⟨_, _, hrun, (Option.some_get hsome).symm, htaken⟩

end Spartan
