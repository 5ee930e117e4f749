import SpartanLauncher.Launcher

/-!
# Agreement of the child registry

The supervisor learns about a child from two notifications: the de-queue thread of the launcher
sends "forked" and its `waitid` thread sends "completed". Nothing orders the two threads.

**Theorem (`childProcesses_agree_iff`).** In a run that ends at rest, the keys of
`_childProcesses` are the live children exactly when no "completed" was sent for a child whose
"forked" was still owed.

The proof looks at the keys that the registry will have once its queue is empty (`settled`). A
step changes them only by sending. The invariant `RegistryInv` says which keys these are, in
terms of the set `early` of the children whose "completed" was sent too early.
-/

namespace Spartan

open Machine

/-! ## The keys of the registry -/

/-- `handle_supervisor_msg` on the registry. -/
def supervise (childProcesses : List (ℤ × List Char)) (msg : List Char) : List (ℤ × List Char) :=
  match handleSupervisorMsg msg with
  | some call => call.apply childProcesses
  | none => childProcesses

def keys (childProcesses : List (ℤ × List Char)) : List ℤ := childProcesses.map Prod.fst

theorem mem_keys_childProcessNotify {childProcesses : List (ℤ × List Char)} {pid k : ℤ}
    {commandLine : List Char} :
    k ∈ keys (childProcessNotify childProcesses pid commandLine) ↔
      k = pid ∨ k ∈ keys childProcesses := by
  by_cases hk : k = pid <;> simp [keys, childProcessNotify, hk]

theorem mem_keys_childProcessCompletionNotify {childProcesses : List (ℤ × List Char)}
    {pid k : ℤ} :
    k ∈ keys (childProcessCompletionNotify childProcesses pid) ↔
      k ∈ keys childProcesses ∧ k ≠ pid := by
  by_cases hk : k = pid <;> simp [keys, childProcessCompletionNotify, hk]

namespace LauncherState

/-- The registry once the supervisor has handled everything in its queue. -/
def settled (s : LauncherState) : List (ℤ × List Char) := s.mq.foldl supervise s.childProcesses

/-- The process is in the process table, or was taken out of it with the "completed" still owed. -/
def Present (s : LauncherState) (pid : Pid) : Prop :=
  pid ∈ s.children.map Child.pid ∨ s.waiter = .reported pid ∨ s.waiter = .counted pid

/-- The launcher owes the "forked" of the process. -/
def Owes (s : LauncherState) (pid : Pid) : Prop :=
  match s.handler with
  | .idle => False
  | .forked p _ _ | .grouped p _ _ => p = pid

instance (s : LauncherState) (pid : Pid) : Decidable (s.Owes pid) :=
  match h : s.handler with
  | .idle => .isFalse (by simp [Owes, h])
  | .forked p _ _ => decidable_of_iff (p = pid) (by simp [Owes, h])
  | .grouped p _ _ => decidable_of_iff (p = pid) (by simp [Owes, h])

/-- Nothing is owed: no notification to be sent, no exit to be reported, no message to be
handled. -/
structure AtRest (s : LauncherState) : Prop where
  handler : s.handler = .idle
  waiter : s.waiter = .waiting
  noZombies : ∀ c ∈ s.children, c.live = true
  mq : s.mq = []

end LauncherState

variable {cfg : LauncherCfg} {s t : LauncherState} {a : LauncherAct} {early : List Pid}

theorem mem_settled_notify {pid : Pid} {msg cmd : List Char} {k : ℤ}
    (hcmd : subCommand msg = some cmd) {h : Handler} :
    k ∈ keys ({ s with
        handler := h
        mq := s.mq ++ [supervisorChildProcessorNotify pid msg] } : LauncherState).settled ↔
      k = pid.val ∨ k ∈ keys s.settled := by
  obtain ⟨cmdLine, hcall⟩ := handleSupervisorMsg_notify pid hcmd
  simp only [LauncherState.settled, List.foldl_append, List.foldl_cons, List.foldl_nil]
  rw [supervise, hcall]
  exact mem_keys_childProcessNotify

theorem mem_settled_completionNotify {pid : Pid} {k : ℤ} {w : Waiter} :
    k ∈ keys ({ s with
        waiter := w
        mq := s.mq ++ [supervisorChildProcessorCompletionNotify pid] } : LauncherState).settled ↔
      k ∈ keys s.settled ∧ k ≠ pid.val := by
  simp only [LauncherState.settled, List.foldl_append, List.foldl_cons, List.foldl_nil]
  rw [supervise, handleSupervisorMsg_completion]
  exact mem_keys_childProcessCompletionNotify

theorem owes_iff {p : Pid} :
    s.Owes p ↔ ∃ cmd msg, s.handler = .forked p cmd msg ∨ s.handler = .grouped p cmd msg := by
  cases hhandler : s.handler <;> simp [LauncherState.Owes, hhandler]

theorem owes_idle (h : s.handler = .idle) (p : Pid) : ¬ s.Owes p := by
  simp [LauncherState.Owes, h]

theorem owes_forked {pid : Pid} {cmd msg : List Char} (h : s.handler = .forked pid cmd msg)
    (p : Pid) : s.Owes p ↔ p = pid := by
  simp [LauncherState.Owes, h, eq_comm]

theorem owes_grouped {pid : Pid} {cmd msg : List Char} (h : s.handler = .grouped pid cmd msg)
    (p : Pid) : s.Owes p ↔ p = pid := by
  simp [LauncherState.Owes, h, eq_comm]

theorem pid_ext {p q : Pid} (h : (p.val : ℤ) = q.val) : p = q := by
  cases p
  cases q
  simpa using h

/-! ## The invariant -/

structure RegistryInv (s : LauncherState) (early : List Pid) : Prop where
  present_forks : ∀ p, s.Present p → p ∈ s.forks
  early_forks : ∀ p ∈ early, p ∈ s.forks
  /-- What the `waitid` thread has taken out of the process table is not in it. -/
  reaped : ∀ p, s.waiter = .reported p ∨ s.waiter = .counted p →
    p ∉ s.children.map Child.pid
  early_gone : ∀ p ∈ early, ¬ s.Present p
  owes_known : ∀ p, s.Owes p → s.Present p ∨ p ∈ early
  /-- The message being handled has a sub-command. -/
  message : ∀ p cmd msg, s.handler = .forked p cmd msg ∨ s.handler = .grouped p cmd msg →
    subCommand msg = some cmd
  /-- The keys to come: the children that are known and not owed, and those completed early. -/
  keys_iff : ∀ k, k ∈ keys s.settled ↔
    ∃ p : Pid, (p.val : ℤ) = k ∧ (s.Present p ∨ p ∈ early) ∧ ¬ s.Owes p

theorem registryInv_init : RegistryInv {} [] := by
  constructor <;> simp [LauncherState.Present, LauncherState.Owes, LauncherState.settled, keys]

/-- No "completed" is sent while the "forked" of the same child is owed. -/
def NotifiedFirst (s : LauncherState) (a : LauncherAct) : Prop :=
  match a, s.waiter with
  | .completionNotify, .counted p => ¬ s.Owes p
  | _, _ => True

instance (s : LauncherState) (a : LauncherAct) : Decidable (NotifiedFirst s a) :=
  match h : s.waiter with
  | .waiting => .isTrue (by simp [NotifiedFirst, h])
  | .reported _ => .isTrue (by simp [NotifiedFirst, h])
  | .counted p =>
    decidable_of_iff (a = .completionNotify → ¬ s.Owes p) (by cases a <;> simp [NotifiedFirst, h])

/-! ## What one step keeps -/

/-- A step that changes neither the pids the threads hold nor the keys to come. -/
theorem registryInv_frame (hs : RegistryInv s early)
    (hpids : t.children.map Child.pid = s.children.map Child.pid)
    (hwaiter : ∀ p, t.waiter = .reported p ∨ t.waiter = .counted p ↔
      s.waiter = .reported p ∨ s.waiter = .counted p)
    (hhandler : ∀ p cmd msg, t.handler = .forked p cmd msg ∨ t.handler = .grouped p cmd msg ↔
      s.handler = .forked p cmd msg ∨ s.handler = .grouped p cmd msg)
    (hforks : t.forks = s.forks) (hsettled : t.settled = s.settled) : RegistryInv t early := by
  have hpresent : ∀ p, t.Present p ↔ s.Present p := fun p => by
    simp only [LauncherState.Present, hpids, hwaiter]
  have howes : ∀ p, t.Owes p ↔ s.Owes p := fun p => by simp only [owes_iff, hhandler]
  refine ⟨?_, ?_, ?_, ?_, ?_, ?_, ?_⟩ <;>
    simp only [hpresent, howes, hwaiter, hhandler, hforks, hpids, hsettled]
  exacts [hs.present_forks, hs.early_forks, hs.reaped, hs.early_gone, hs.owes_known, hs.message,
    hs.keys_iff]

/-- A fork with a new pid: the child is present and its "forked" is owed. -/
theorem registryInv_forked (hs : RegistryInv s early) {pid : Pid} {cmd msg : List Char}
    {d : DispatchState (List Char)} (hhandler : s.handler = .idle)
    (hcmd : subCommand msg = some cmd) (hnew : pid ∉ s.forks) :
    RegistryInv { s with
      dispatch := d
      handler := .forked pid cmd msg
      children := ⟨pid, cfg.launcherPgid, cmd, false, true⟩ :: s.children
      forks := s.forks ++ [pid] } early := by
  set t : LauncherState := { s with
      dispatch := d
      handler := .forked pid cmd msg
      children := ⟨pid, cfg.launcherPgid, cmd, false, true⟩ :: s.children
      forks := s.forks ++ [pid] } with ht
  have hpresent : ∀ p, t.Present p ↔ p = pid ∨ s.Present p := fun p => by
    simp [LauncherState.Present, ht, or_assoc]
  have howes : ∀ p, t.Owes p ↔ p = pid := owes_forked rfl
  have hgone : ¬ s.Present pid := fun h => hnew (hs.present_forks pid h)
  have hearly : pid ∉ early := fun h => hnew (hs.early_forks pid h)
  refine ⟨?_, ?_, ?_, ?_, ?_, ?_, ?_⟩
  · intro p hp
    rcases (hpresent p).1 hp with rfl | hp
    · exact List.mem_append_right _ List.mem_cons_self
    · exact List.mem_append_left _ (hs.present_forks p hp)
  · intro p hp
    exact List.mem_append_left _ (hs.early_forks p hp)
  · intro p hp hmem
    rcases List.mem_cons.1 hmem with rfl | hmem
    · exact hgone (.inr hp)
    · exact hs.reaped p hp hmem
  · intro p hp hpres
    rcases (hpresent p).1 hpres with rfl | hpres
    · exact hearly hp
    · exact hs.early_gone p hp hpres
  · intro p hp
    exact .inl ((hpresent p).2 (.inl ((howes p).1 hp)))
  · intro p cmd' msg' hp
    rcases hp with hp | hp <;> cases hp
    exact hcmd
  · intro k
    refine (hs.keys_iff k).trans ⟨?_, ?_⟩
    · intro h
      obtain ⟨p, rfl, hp, -⟩ := h
      refine ⟨p, rfl, hp.imp_left fun hp => (hpresent p).2 (.inr hp), ?_⟩
      intro h
      obtain rfl := (howes p).1 h
      exact hp.elim hgone hearly
    · intro h
      obtain ⟨p, rfl, hp, hne⟩ := h
      refine ⟨p, rfl, hp.imp_left ?_, owes_idle hhandler p⟩
      intro hp
      exact ((hpresent p).1 hp).resolve_left fun h => hne ((howes p).2 h)

/-- The exit of a child is reported: it stays present, as what the `waitid` thread holds. -/
theorem registryInv_waitExited (hs : RegistryInv s early) {pid : Pid}
    (hwaiter : s.waiter = .waiting) (hpid : pid ∈ s.children.map Child.pid) :
    RegistryInv { s with
      children := reap s.children pid
      waiter := .reported pid } early := by
  set t : LauncherState := { s with
      children := reap s.children pid
      waiter := .reported pid } with ht
  have hpresent : ∀ p, t.Present p ↔ s.Present p := fun p => by
    by_cases hp : p = pid
    · simp [LauncherState.Present, ht, hp, hpid]
    · simp [LauncherState.Present, ht, hwaiter, mem_map_pid_reap, hp, Ne.symm hp]
  refine ⟨?_, hs.early_forks, ?_, ?_, ?_, hs.message, ?_⟩
  · simpa only [hpresent] using hs.present_forks
  · intro p hp
    rcases hp with hp | hp <;> cases hp
    exact fun hmem => (mem_map_pid_reap.1 hmem).2 rfl
  · simpa only [hpresent] using hs.early_gone
  · exact fun p hp => (hs.owes_known p hp).imp_left (hpresent p).2
  · intro k
    simp only [hpresent]
    exact hs.keys_iff k

/-- The "forked" of a child is sent: its key is to come. -/
theorem registryInv_notify (hs : RegistryInv s early) {pid : Pid} {cmd msg : List Char}
    (hhandler : s.handler = .grouped pid cmd msg) :
    RegistryInv { s with
      handler := .idle
      mq := s.mq ++ [supervisorChildProcessorNotify pid msg] } early := by
  have howes := owes_grouped hhandler
  refine ⟨hs.present_forks, hs.early_forks, hs.reaped, hs.early_gone,
    fun p hp => absurd hp (owes_idle rfl p), ?_, ?_⟩
  · rintro p cmd' msg' (hp | hp) <;> cases hp
  · intro k
    rw [mem_settled_notify (hs.message pid cmd msg (.inr hhandler)), hs.keys_iff]
    refine ⟨?_, ?_⟩
    · rintro (rfl | ⟨p, rfl, hp, -⟩)
      · exact ⟨pid, rfl, hs.owes_known pid ((howes pid).2 rfl), owes_idle rfl pid⟩
      · exact ⟨p, rfl, hp, owes_idle rfl p⟩
    · intro h
      obtain ⟨p, rfl, hp, -⟩ := h
      by_cases hpid : p = pid
      · exact .inl (by rw [hpid])
      · exact .inr ⟨p, rfl, hp, fun h => hpid ((howes p).1 h)⟩

/-- The "completed" of a child is sent. The child is completed early when its "forked" is still
owed; otherwise its key goes for good. -/
theorem registryInv_completionNotify (hs : RegistryInv s early) {pid : Pid}
    (hwaiter : s.waiter = .counted pid) :
    ∃ early', RegistryInv { s with
        waiter := .waiting
        mq := s.mq ++ [supervisorChildProcessorCompletionNotify pid] } early' ∧
      (early' = [] ↔ early = [] ∧ ¬ s.Owes pid) := by
  set t : LauncherState := { s with
        waiter := .waiting
        mq := s.mq ++ [supervisorChildProcessorCompletionNotify pid] } with ht
  have hreaped := hs.reaped pid (.inr hwaiter)
  have hpresent : ∀ p, s.Present p ↔ t.Present p ∨ p = pid := fun p => by
    simp [LauncherState.Present, ht, hwaiter, eq_comm]
  have hgone : ¬ t.Present pid := by simpa [LauncherState.Present, ht] using hreaped
  have hearly : pid ∉ early := fun h => hs.early_gone pid h ((hpresent pid).2 (.inr rfl))
  have hkeys : ∀ k, k ∈ keys t.settled ↔ ∃ p : Pid, (p.val : ℤ) = k ∧
      ((t.Present p ∨ p ∈ early) ∧ ¬ s.Owes p) := fun k => by
    rw [mem_settled_completionNotify, hs.keys_iff]
    refine ⟨?_, ?_⟩
    · intro h
      obtain ⟨⟨p, rfl, hp, howes⟩, hne⟩ := h
      have hpid : p ≠ pid := fun h => hne (by rw [h])
      exact ⟨p, rfl, hp.imp_left fun hp => ((hpresent p).1 hp).resolve_right hpid, howes⟩
    · intro h
      obtain ⟨p, rfl, hp, howes⟩ := h
      refine ⟨⟨p, rfl, hp.imp_left fun hp => (hpresent p).2 (.inl hp), howes⟩, ?_⟩
      intro h
      obtain rfl := pid_ext h
      exact hp.elim hgone hearly
  have hbase : ∀ p, t.Present p → p ∈ t.forks := fun p hp =>
    hs.present_forks p ((hpresent p).2 (.inl hp))
  have hforked : pid ∈ t.forks := hs.present_forks pid ((hpresent pid).2 (.inr rfl))
  have hnone : ∀ p, t.waiter = .reported p ∨ t.waiter = .counted p →
      p ∉ t.children.map Child.pid := by
    rintro p (hp | hp) <;> cases hp
  by_cases howes : s.Owes pid
  · refine ⟨pid :: early, ⟨hbase, ?_, hnone, ?_, ?_, hs.message, ?_⟩,
      by simp [howes]⟩
    · exact List.forall_mem_cons.2 ⟨hforked, hs.early_forks⟩
    · exact List.forall_mem_cons.2 ⟨hgone, fun p hp h =>
        hs.early_gone p hp ((hpresent p).2 (.inl h))⟩
    · intro p hp
      rw [List.mem_cons]
      rcases hs.owes_known p hp with hp | hp
      · exact ((hpresent p).1 hp).imp_right .inl
      · exact .inr (.inr hp)
    · intro k
      rw [hkeys]
      refine exists_congr fun p => and_congr_right fun _ => and_congr_left ?_
      intro hp
      have hne : p ≠ pid := fun h => hp (h ▸ howes)
      simp [hne]
  · refine ⟨early, ⟨hbase, hs.early_forks, hnone, ?_, ?_, hs.message,
      hkeys⟩, by simp [howes]⟩
    · intro p hp h
      exact hs.early_gone p hp ((hpresent p).2 (.inl h))
    · intro p hp
      have hne : p ≠ pid := fun h => howes (h ▸ hp)
      exact (hs.owes_known p hp).imp_left fun hp => ((hpresent p).1 hp).resolve_right hne

/-- **Step lemma.** The set `early` grows exactly at a step that is not `NotifiedFirst`. -/
theorem registryInv_step (hs : RegistryInv s early) (h : Trans cfg s a t)
    (hstop : a.isStopReport = false) (hnew : ∀ p, a = .fork (some p) → p ∉ s.forks) :
    ∃ early', RegistryInv t early' ∧ (early' = [] ↔ early = [] ∧ NotifiedFirst s a) := by
  by_cases ha : a = .completionNotify
  · subst ha
    cases h with
    | @completionNotify pid hwaiter =>
      obtain ⟨early', hinv, hearly⟩ := registryInv_completionNotify hs hwaiter
      exact ⟨early', hinv, by simpa only [NotifiedFirst, hwaiter] using hearly⟩
  have hfirst : NotifiedFirst s a := by
    unfold NotifiedFirst
    split
    · exact absurd rfl ha
    · trivial
  refine ⟨early, ?_, by simp [hfirst]⟩
  cases h with
  | dispatch | forkFails => exact registryInv_frame hs rfl (by simp) (by simp) rfl rfl
  | @forked pid _ _ _ hhandler _ hcmd =>
    exact registryInv_forked hs hhandler hcmd (hnew pid rfl)
  | newGroup hhandler | joinGroup hhandler =>
    refine registryInv_frame hs (map_pid_setpgid _ _ _) (by simp) ?_ rfl rfl
    intro p cmd msg
    simp [hhandler]
  | notify hhandler => exact registryInv_notify hs hhandler
  | exit => exact registryInv_frame hs (map_pid_exitChild _ _) (by simp) (by simp) rfl rfl
  | waitExited hwaiter hc hpid =>
    exact registryInv_waitExited hs hwaiter (mem_pids.2 ⟨_, hc, hpid⟩)
  | waitStopped => cases hstop
  | completion hwaiter =>
    refine registryInv_frame hs rfl ?_ (by simp) rfl rfl
    intro p
    simp [hwaiter]
  | completionNotify => exact absurd rfl ha
  | superviseMsg hmq hcall =>
    refine registryInv_frame hs rfl (by simp) (by simp) rfl ?_
    simp [LauncherState.settled, hmq, supervise, hcall]

/-! ## Runs -/

theorem run_registryInv {as : List LauncherAct} (hs : RegistryInv s early)
    (hrun : run (launcherStep cfg) s as = some t) (hstop : ∀ a ∈ as, a.isStopReport = false)
    (hnodup : t.forks.Nodup) :
    ∃ early', RegistryInv t early' ∧
      (early' = [] ↔ early = [] ∧ Always (launcherStep cfg) NotifiedFirst s as) := by
  induction as generalizing s early with
  | nil => cases hrun; exact ⟨early, hs, by simp [Always]⟩
  | cons a as ih =>
    obtain ⟨u, hu, htail⟩ := run_cons_eq_some.1 hrun
    have htrans := trans_of_step hu
    have hnew : ∀ p, a = .fork (some p) → p ∉ s.forks := by
      rintro p rfl hp
      have hforks := hnodup.sublist (run_forks htail).sublist
      rw [forks_of_fork htrans] at hforks
      exact (List.nodup_append.1 hforks).2.2 p hp p List.mem_cons_self rfl
    obtain ⟨early', hinv, hearly⟩ :=
      registryInv_step hs htrans (hstop a List.mem_cons_self) hnew
    obtain ⟨early'', hinv', hearly'⟩ := ih hinv htail fun b hb =>
      hstop b (List.mem_cons_of_mem a hb)
    exact ⟨early'', hinv', by rw [hearly', hearly, always_cons_iff hu, and_assoc]⟩

/-- The registry lists exactly the children that were forked and have not exited. -/
def LauncherState.RegistryAgrees (s : LauncherState) : Prop :=
  ∀ k, k ∈ keys s.childProcesses ↔ ∃ c ∈ s.children, c.live = true ∧ (c.pid.val : ℤ) = k

/-- At rest the registry is right exactly when no child was completed early. -/
theorem registryAgrees_iff (hs : RegistryInv s early) (hrest : s.AtRest) :
    s.RegistryAgrees ↔ early = [] := by
  have hpresent : ∀ p, s.Present p ↔ ∃ c ∈ s.children, c.live = true ∧ c.pid = p := fun p => by
    simp only [LauncherState.Present, hrest.waiter, reduceCtorEq, or_false, mem_pids]
    exact exists_congr fun c => and_congr_right fun hc => by simp [hrest.noZombies c hc]
  have hsettled : s.settled = s.childProcesses := by simp [LauncherState.settled, hrest.mq]
  have hkeys : ∀ k, k ∈ keys s.childProcesses ↔
      ∃ p : Pid, (p.val : ℤ) = k ∧ (s.Present p ∨ p ∈ early) := fun k => by
    rw [← hsettled, hs.keys_iff]
    exact exists_congr fun p => and_congr_right fun _ =>
      and_iff_left (owes_idle hrest.handler p)
  refine ⟨?_, ?_⟩
  · intro hagrees
    by_contra hne
    obtain ⟨p, hp⟩ := List.exists_mem_of_ne_nil early hne
    obtain ⟨c, hc, hlive, hpid⟩ := (hagrees p.val).1 ((hkeys _).2 ⟨p, rfl, .inr hp⟩)
    exact hs.early_gone p hp ((hpresent p).2 ⟨c, hc, hlive, pid_ext hpid⟩)
  · rintro rfl k
    rw [hkeys]
    refine ⟨?_, ?_⟩
    · intro h
      obtain ⟨p, rfl, hp | hp⟩ := h
      · obtain ⟨c, hc, hlive, rfl⟩ := (hpresent p).1 hp
        exact ⟨c, hc, hlive, rfl⟩
      · cases hp
    · intro h
      obtain ⟨c, hc, hlive, rfl⟩ := h
      exact ⟨c.pid, rfl, .inl ((hpresent _).2 ⟨c, hc, hlive, rfl⟩)⟩

/-- **Agreement of the child registry.** -/
theorem childProcesses_agree_iff (cfg : LauncherCfg) (as : List LauncherAct) {t : LauncherState}
    (hrun : run (launcherStep cfg) {} as = some t) (hpids : t.forks.Nodup)
    (hstop : ∀ a ∈ as, a.isStopReport = false) (hrest : t.AtRest) :
    t.RegistryAgrees ↔ Always (launcherStep cfg) NotifiedFirst {} as := by
  obtain ⟨early, hinv, hearly⟩ := run_registryInv registryInv_init hrun hstop hpids
  rw [registryAgrees_iff hinv hrest, hearly]
  exact and_iff_right rfl

/-- One child stays, a second one runs and terminates. -/
theorem childProcesses_agree_iff_two :
    let cfg : LauncherCfg := ⟨⟨1, by decide, by decide⟩, 10⟩
    let p : Pid := ⟨100, by decide, by decide⟩
    let q : Pid := ⟨101, by decide, by decide⟩
    let as : List LauncherAct :=
      [.dispatch (.enQueue "- u a".toList), .dispatch (.enQueue "- u b".toList), .dispatch .wait,
        .dispatch .take, .fork (some p), .setpgid, .notify, .fork (some q), .setpgid, .notify,
        .exit q, .waitExited q, .completion true, .completionNotify, .superviseMsg,
        .superviseMsg, .superviseMsg]
    ∃ t, run (launcherStep cfg) {} as = some t ∧ t.RegistryAgrees := by
  intro cfg p q as
  let t : LauncherState :=
    { dispatch := ⟨[], false, 2, .idle, ["- u a".toList, "- u b".toList]⟩
      prcsGrps := [("b".toList, q), ("a".toList, p)]
      children := [⟨p, p, "a".toList, true, true⟩]
      childProcesses := [(100, "u a".toList)]
      forks := [p, q] }
  have hrun : run (launcherStep cfg) {} as = some t := by decide +kernel
  exact ⟨t, hrun, (childProcesses_agree_iff cfg as hrun (by decide) (by decide)
    ⟨rfl, rfl, by decide, rfl⟩).2 (by decide +kernel)⟩

/-- A child that terminates before the supervisor has been told about it stays in the registry
for ever. -/
theorem childProcesses_disagree :
    let cfg : LauncherCfg := ⟨⟨1, by decide, by decide⟩, 10⟩
    let p : Pid := ⟨100, by decide, by decide⟩
    let as : List LauncherAct :=
      [.dispatch (.enQueue "- u a".toList), .dispatch .wait, .dispatch .take, .fork (some p),
        .setpgid, .exit p, .waitExited p, .completion true, .completionNotify, .notify,
        .superviseMsg, .superviseMsg]
    ∃ t, run (launcherStep cfg) {} as = some t ∧ t.forks.Nodup ∧
      (∀ a ∈ as, a.isStopReport = false) ∧ t.AtRest ∧ ¬ t.RegistryAgrees := by
  intro cfg p as
  let t : LauncherState :=
    { dispatch := ⟨[], false, 1, .idle, ["- u a".toList]⟩
      prcsGrps := [("a".toList, p)]
      childProcesses := [(100, "u a".toList)]
      forks := [p] }
  refine ⟨t, by decide +kernel, by decide, by decide, ⟨rfl, rfl, by decide, rfl⟩, ?_⟩
  intro hagrees
  obtain ⟨c, hc, -⟩ := (hagrees 100).1 (by decide)
  cases hc

end Spartan
