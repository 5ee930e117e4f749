import Mathlib.Logic.Function.Basic
import SpartanLauncher.Lib.Machine
import SpartanLauncher.Message

/-!
# The names of the message queues

A launcher and its supervisor each create a message queue under a name made from the program's
name. The kernel keeps the names: a name leads to a queue until someone unlinks it, and a queue
that lost its name goes on for those who have it open. When there is none left, the kernel destroys
it, with the messages that wait in it.

`supervisor` creates its queue with `O_CREAT | O_EXCL`. When that fails it unlinks the name, which
it takes for an orphan, and tries once more. It closes its queue and unlinks its name when it
returns, and the launcher then unlinks the name of the supervisor's queue. Nothing tells a process
that its name was unlinked by another one.

* `linked_name_has_owner`: a name that is left over is the name of a process that ended without its
  destructors.
* `linked_iff_not_unlinked`: a process is reached by its name exactly as long as no step unlinks
  that name, also by a step of another process.
-/

namespace Spartan

open Machine Function

/-! ## Names -/

abbrev QueueName := List Char

/-- `get_jlauncher_mq_queue_name`. -/
def getJlauncherMqQueueName (progname : List Char) : QueueName :=
  '/' :: (progname ++ "_JLauncher".toList)

/-- `get_jsupervisor_mq_queue_name`. -/
def getJsupervisorMqQueueName (progname : List Char) : QueueName :=
  '/' :: (progname ++ "_JSupervisor".toList)

inductive Role where
  | launcher
  | supervisor
  deriving DecidableEq

/-! ## Processes -/

/-- Where a process is in `supervisor`. -/
inductive Stage where
  /-- At `mq_open_ex`, with the value of `try_attempts`. -/
  | opening (tryAttempts : ℕ)
  /-- The name exists; at `mqd_sp.reset(nullptr)`. -/
  | orphaned (tryAttempts : ℕ)
  /-- `mq_open_ex` failed; at `goto try_again` or `return`, which destroy `mqd_sp`. -/
  | failing (tryAttempts : ℕ)
  /-- In the loop around `mq_timedreceive`. -/
  | receiving (queue : ℕ)
  /-- In `unlink_mqd`, between `mq_close` and `mq_unlink`: out of the loop, where `mqd_sp` is
  destroyed, or after `mq_timedreceive` failed, at `mqd_sp.reset(nullptr)`. -/
  | leaving (queue : ℕ)
  /-- `unlink_mqd` returned, and the process did not get to `cleanup_supervisor_jvm_ctx` yet. -/
  | dropped
  /-- In `cleanup_supervisor_jvm_ctx`. -/
  | cleaningUp (started : Bool)
  | exited (started : Bool)
  /-- A child that the launcher forked. It released `mqd_sp`, and goes on with the descriptor that
  it has from the launcher. -/
  | forked (queue : Option ℕ)
  /-- Ended without a destructor: killed, or by `_exit` or `System.exit`. -/
  | crashed (queue : Option ℕ)
  deriving DecidableEq

/-- The queue that the process created, while it is responsible for its name. -/
def Stage.queue : Stage → Option ℕ
  | .receiving q | .leaving q => some q
  | .crashed q => q
  | _ => none

/-- The queue that the process has open. -/
def Stage.opened : Stage → Option ℕ
  | .receiving q => some q
  | .forked q => q
  | _ => none

/-- The thread that handles the messages runs. -/
def Stage.dispatches : Stage → Bool
  | .receiving _ | .leaving _ | .dropped | .cleaningUp true => true
  | _ => false

structure Proc where
  role : Role
  progname : List Char
  stage : Stage
  deriving DecidableEq

/-- The variable `mq_queue_name`, which `do_main_entry_fork` sets. -/
def Proc.mqQueueName (p : Proc) : QueueName :=
  match p.role with
  | .launcher => getJlauncherMqQueueName p.progname
  | .supervisor => getJsupervisorMqQueueName p.progname

inductive ProcAct where
  /-- `mq_open_ex`; `otherError` when it fails for another reason than `EEXIST`. -/
  | mqOpen (otherError : Bool)
  /-- The next `mq_unlink` of the process; it succeeds, or there is no such name. -/
  | mqUnlink
  | receive
  /-- `mq_timedreceive` fails, and `unlink_mqd` closes the queue. -/
  | receiveError
  /-- A step on the way out that unlinks nothing; past the loop, `unlink_mqd` closes the queue. -/
  | leave
  | crash
  deriving DecidableEq

/-- What a step of a process does to the queues. -/
inductive Effect where
  | nothing
  | create (queue : ℕ)
  | unlink (name : QueueName)
  | receive (queue : ℕ)
  deriving DecidableEq

def Effect.unlinked : Effect → Option QueueName
  | .unlink name => some name
  | _ => none

/-- A step of `supervisor` in one process. `linked` is the queue that the process's name leads to
and `fresh` the one that the kernel would create. -/
def procStep (linked : Option ℕ) (fresh : ℕ) (p : Proc) : ProcAct → Option (Stage × Effect)
  | .mqOpen otherError =>
    match p.stage with
    | .opening attempts =>
      match otherError, linked with
      | true, _ => some (.failing attempts, .nothing)
      | false, some _ => some (.orphaned attempts, .nothing)
      | false, none => some (.receiving fresh, .create fresh)
    | _ => none
  | .mqUnlink =>
    match p.stage with
    | .orphaned attempts => some (.failing attempts, .unlink p.mqQueueName)
    | .failing attempts =>
      some (if 0 < attempts - 1 then .opening (attempts - 1) else .cleaningUp false,
        .unlink p.mqQueueName)
    | .leaving _ => some (.dropped, .unlink p.mqQueueName)
    | .cleaningUp started =>
      -- only the process that forked Java `main` sends `SHUTDOWN_CMD`, waits and unlinks
      match p.role with
      | .launcher => some (.exited started, .unlink (getJsupervisorMqQueueName p.progname))
      | .supervisor => none
    | _ => none
  | .receive =>
    match p.stage with
    | .receiving q => some (.receiving q, .receive q)
    | _ => none
  | .receiveError =>
    match p.stage with
    | .receiving q => some (.leaving q, .nothing)
    | _ => none
  | .leave =>
    match p.stage with
    | .receiving q => some (.leaving q, .nothing)
    | .dropped => some (.cleaningUp true, .nothing)
    | .cleaningUp started =>
      match p.role with
      | .launcher => none
      | .supervisor => some (.exited started, .nothing)
    | .forked _ => some (.exited true, .nothing)
    | _ => none
  | .crash =>
    match p.stage with
    | .exited _ | .crashed _ => none
    | stage => some (.crashed stage.queue, .nothing)

/-! ## The kernel -/

/-- Who can have a queue open: a process, or a call of `send_mq_msg`. -/
inductive Holder where
  | process (pid : ℕ)
  | writer (w : ℕ)
  deriving DecidableEq

structure NameState where
  /-- The queue that a name leads to. -/
  links : QueueName → Option ℕ := fun _ => none
  /-- The number of the next queue. -/
  next : ℕ := 0
  /-- The name under which a queue was created. -/
  names : ℕ → QueueName := fun _ => []
  waiting : ℕ → List (List Char) := fun _ => []
  /-- Who has a queue open. -/
  holders : ℕ → List Holder := fun _ => []
  procs : ℕ → Option Proc := fun _ => none
  /-- The queue that a call of `send_mq_msg` has open. -/
  writers : ℕ → Option ℕ := fun _ => none
  /-- What `mq_send` put into a queue so far, -/
  sent : ℕ → List (List Char) := fun _ => []
  /-- what was taken off it, with the pid of the receiver, -/
  received : ℕ → List (ℕ × List Char) := fun _ => []
  /-- and what was destroyed with it. -/
  lost : ℕ → List (List Char) := fun _ => []

inductive NameAct where
  | start (pid : ℕ) (role : Role) (progname : List Char)
  | fork (pid child : ℕ)
  | proc (pid : ℕ) (a : ProcAct)
  /-- The three calls of `send_mq_msg`: `mq_open_ex` with `O_WRONLY`, -/
  | openWrite (w : ℕ) (name : QueueName)
  /-- `mq_send` -/
  | send (w : ℕ) (msg : List Char)
  /-- and `mq_close`. -/
  | close (w : ℕ)
  deriving DecidableEq

/-- The queue has no name, and nobody has it open. -/
def NameState.Unreferenced (s : NameState) (q : ℕ) : Prop :=
  s.holders q = [] ∧ s.links (s.names q) ≠ some q

instance (s : NameState) (q : ℕ) : Decidable (s.Unreferenced q) :=
  inferInstanceAs (Decidable (_ ∧ _))

/-- The kernel destroys a queue to which there is no reference any more. -/
def NameState.evict (s : NameState) (q : ℕ) : NameState :=
  if s.Unreferenced q then
    { s with waiting := update s.waiting q [], lost := update s.lost q (s.lost q ++ s.waiting q) }
  else s

/-- A holder opens a queue. -/
def NameState.openBy (s : NameState) (h : Holder) (q : ℕ) : NameState :=
  { s with holders := update s.holders q (h :: s.holders q) }

/-- A holder closes a queue, or ends. -/
def NameState.closeBy (s : NameState) (h : Holder) (q : ℕ) : NameState :=
  NameState.evict { s with holders := update s.holders q ((s.holders q).filter (· ≠ h)) } q

/-- A holder goes on with another descriptor, or with none. -/
def NameState.reopen (s : NameState) (h : Holder) : Option ℕ → Option ℕ → NameState
  | some q, none => s.closeBy h q
  | none, some q => s.openBy h q
  | _, _ => s

def NameState.unlink (s : NameState) (name : QueueName) : NameState :=
  match s.links name with
  | some q => NameState.evict { s with links := update s.links name none } q
  | none => s

def NameState.setProc (s : NameState) (pid : ℕ) (p : Proc) : NameState :=
  { s with procs := update s.procs pid (some p) }

def NameState.effect (s : NameState) (pid : ℕ) (name : QueueName) : Effect → Option NameState
  | .nothing => some s
  | .create q => some { s with
      links := update s.links name (some q)
      next := q + 1
      names := update s.names q name }
  | .unlink other => some (s.unlink other)
  | .receive q =>
    match s.waiting q with
    | [] => none
    | msg :: msgs => some { s with
        waiting := update s.waiting q msgs
        received := update s.received q (s.received q ++ [(pid, msg)]) }

def nameStep (s : NameState) : NameAct → Option NameState
  | .start pid role progname =>
    if (s.procs pid).isSome then none
    else some (s.setProc pid ⟨role, progname, .opening 2⟩)
  | .fork pid child =>
    match s.procs pid, s.procs child with
    | some ⟨.launcher, progname, stage⟩, none =>
      if stage.dispatches then
        some ((s.setProc child ⟨.launcher, progname, .forked stage.opened⟩).reopen
          (.process child) none stage.opened)
      else none
    | _, _ => none
  | .proc pid a =>
    (s.procs pid).bind fun p =>
    (procStep (s.links p.mqQueueName) s.next p a).bind fun (stage, e) =>
    (s.effect pid p.mqQueueName e).map fun t =>
      (t.setProc pid { p with stage := stage }).reopen (.process pid) p.stage.opened stage.opened
  | .openWrite w name =>
    if (s.writers w).isSome then none
    else (s.links name).map fun q =>
      NameState.openBy { s with writers := update s.writers w (some q) } (.writer w) q
  | .send w msg =>
    (s.writers w).bind fun q =>
    (sendMqMsg msg).bind fun msg =>
    if (s.waiting q).length < mqMaxMsg then
      some { s with
        waiting := update s.waiting q (s.waiting q ++ [msg])
        sent := update s.sent q (s.sent q ++ [msg]) }
    else none
  | .close w => (s.writers w).map fun q =>
    NameState.closeBy { s with writers := update s.writers w none } (.writer w) q

/-- The name that an action unlinks. -/
def unlinkedBy (s : NameState) : NameAct → Option QueueName
  | .proc pid a =>
    (s.procs pid).bind fun p =>
    (procStep (s.links p.mqQueueName) s.next p a).bind fun (_, e) => e.unlinked
  | _ => none

/-! ## What the descriptors do not touch -/

/-- The names, the processes and what was sent and taken are the same. -/
structure SameNames (s t : NameState) : Prop where
  links : t.links = s.links
  next : t.next = s.next
  names : t.names = s.names
  procs : t.procs = s.procs
  writers : t.writers = s.writers
  sent : t.sent = s.sent
  received : t.received = s.received

section SameNames

variable {s t u : NameState}

theorem SameNames.refl (s : NameState) : SameNames s s := ⟨rfl, rfl, rfl, rfl, rfl, rfl, rfl⟩

theorem SameNames.trans (h : SameNames s t) (h' : SameNames t u) : SameNames s u :=
  ⟨h'.links.trans h.links, h'.next.trans h.next, h'.names.trans h.names, h'.procs.trans h.procs,
    h'.writers.trans h.writers, h'.sent.trans h.sent, h'.received.trans h.received⟩

theorem sameNames_evict (s : NameState) (q : ℕ) : SameNames s (s.evict q) := by
  unfold NameState.evict
  split_ifs
  · exact ⟨rfl, rfl, rfl, rfl, rfl, rfl, rfl⟩
  · exact .refl s

theorem sameNames_openBy (s : NameState) (h : Holder) (q : ℕ) : SameNames s (s.openBy h q) :=
  ⟨rfl, rfl, rfl, rfl, rfl, rfl, rfl⟩

theorem sameNames_closeBy (s : NameState) (h : Holder) (q : ℕ) : SameNames s (s.closeBy h q) :=
  SameNames.trans (t := { s with holders := update s.holders q ((s.holders q).filter (· ≠ h)) })
    ⟨rfl, rfl, rfl, rfl, rfl, rfl, rfl⟩ (sameNames_evict _ q)

theorem sameNames_reopen (s : NameState) (h : Holder) (old new : Option ℕ) :
    SameNames s (s.reopen h old new) := by
  cases old <;> cases new
  · exact .refl s
  · exact sameNames_openBy ..
  · exact sameNames_closeBy ..
  · exact .refl s

theorem sameNames_unlink (s : NameState) (name : QueueName) :
    SameNames { s with links := update s.links name none } (s.unlink name) := by
  unfold NameState.unlink
  split
  · exact sameNames_evict ..
  · next hlink => exact ⟨(update_eq_self_iff.2 hlink.symm).symm, rfl, rfl, rfl, rfl, rfl, rfl⟩

end SameNames

/-! ## What a step can do -/

section Steps

variable {linked : Option ℕ} {fresh pid q : ℕ} {p : Proc} {a : ProcAct} {stage : Stage}
  {e : Effect} {s t u : NameState} {name : QueueName}

/-- A process gets a queue by creating it and gives it up by unlinking its name. -/
theorem procStep_queue (h : procStep linked fresh p a = some (stage, e)) :
    (e = .create fresh ∧ linked = none ∧ p.stage.queue = none ∧ stage = .receiving fresh) ∨
      ((∀ q, e ≠ .create q) ∧
        (stage.queue = p.stage.queue ∨ e = .unlink p.mqQueueName ∧ stage.queue = none)) := by
  obtain ⟨role, progname, st⟩ := p
  cases a with
  | mqOpen otherError =>
    cases st <;> cases otherError <;> cases linked <;> simp [procStep] at h <;>
      obtain ⟨rfl, rfl⟩ := h <;> simp [Stage.queue]
  | mqUnlink =>
    cases st with
    | failing attempts =>
      simp only [procStep, Option.some.injEq, Prod.mk.injEq] at h
      obtain ⟨rfl, rfl⟩ := h
      right
      split_ifs <;> simp [Stage.queue]
    | cleaningUp started =>
      cases role <;> simp [procStep] at h
      obtain ⟨rfl, rfl⟩ := h
      simp [Stage.queue]
    | orphaned attempts | leaving queue =>
      simp [procStep] at h
      obtain ⟨rfl, rfl⟩ := h
      simp [Stage.queue]
    | _ => simp [procStep] at h
  | receive | receiveError | crash =>
    cases st <;> simp [procStep] at h <;> obtain ⟨rfl, rfl⟩ := h <;>
      simp [Stage.queue]
  | leave =>
    cases st <;> cases role <;> simp [procStep] at h <;> obtain ⟨rfl, rfl⟩ := h <;>
      simp [Stage.queue]

theorem procStep_create (h : procStep linked fresh p a = some (stage, .create q)) :
    a = .mqOpen false ∧ q = fresh ∧ linked = none := by
  rcases procStep_queue h with ⟨hq, hnone, -⟩ | ⟨hcreate, -⟩
  · refine ⟨?_, Effect.create.inj hq, hnone⟩
    obtain ⟨role, progname, st⟩ := p
    cases a with
    | mqOpen otherError => cases otherError <;> cases st <;> simp_all [procStep]
    | mqUnlink | leave => cases st <;> cases role <;> simp [procStep] at h
    | receive | receiveError | crash => cases st <;> simp [procStep] at h
  · exact absurd rfl (hcreate q)

/-- Only the process that created a queue takes messages off it. -/
theorem procStep_receive (h : procStep linked fresh p a = some (stage, .receive q)) :
    p.stage = .receiving q := by
  obtain ⟨role, progname, st⟩ := p
  cases a with
  | receive =>
    cases st <;> simp [procStep] at h
    obtain ⟨-, rfl⟩ := h
    rfl
  | mqOpen otherError =>
    cases st <;> cases otherError <;> cases linked <;> simp [procStep] at h
  | mqUnlink | leave => cases st <;> cases role <;> simp [procStep] at h
  | receiveError | crash => cases st <;> simp [procStep] at h

/-- What the steps of the machine do. -/
inductive NameTrans (s : NameState) : NameAct → NameState → Prop where
  | start {pid : ℕ} {role : Role} {progname : List Char} (hfree : s.procs pid = none) :
    NameTrans s (.start pid role progname) (s.setProc pid ⟨role, progname, .opening 2⟩)
  | fork {pid child : ℕ} {p : Proc} {progname : List Char} (hp : s.procs pid = some p)
    (hfree : s.procs child = none) :
    NameTrans s (.fork pid child)
      ((s.setProc child ⟨.launcher, progname, .forked p.stage.opened⟩).reopen (.process child) none
        p.stage.opened)
  | proc {pid : ℕ} {a : ProcAct} {p : Proc} {stage : Stage} {e : Effect} {u : NameState}
    (hp : s.procs pid = some p)
    (hstep : procStep (s.links p.mqQueueName) s.next p a = some (stage, e))
    (hu : s.effect pid p.mqQueueName e = some u) :
    NameTrans s (.proc pid a) ((u.setProc pid { p with stage := stage }).reopen (.process pid)
      p.stage.opened stage.opened)
  | openWrite {w : ℕ} {name : QueueName} {q : ℕ} (hfree : s.writers w = none)
    (hlink : s.links name = some q) :
    NameTrans s (.openWrite w name)
      (NameState.openBy { s with writers := update s.writers w (some q) } (.writer w) q)
  | send {w : ℕ} {msg : List Char} {q : ℕ} (hw : s.writers w = some q) :
    NameTrans s (.send w msg) { s with
      waiting := update s.waiting q (s.waiting q ++ [msg])
      sent := update s.sent q (s.sent q ++ [msg]) }
  | close {w q : ℕ} (hw : s.writers w = some q) :
    NameTrans s (.close w)
      (NameState.closeBy { s with writers := update s.writers w none } (.writer w) q)

theorem nameTrans_of_step {a : NameAct} (h : nameStep s a = some t) : NameTrans s a t := by
  cases a with
  | start pid role progname =>
    by_cases hfree : (s.procs pid).isSome
    · simp [nameStep, hfree] at h
    · simp only [nameStep, hfree, Bool.false_eq_true, if_false, Option.some.injEq] at h
      subst h
      exact .start (by simpa using hfree)
  | fork pid child =>
    simp only [nameStep] at h
    split at h
    · next hp hfree =>
      split_ifs at h
      cases h
      exact .fork hp hfree
    · cases h
  | proc pid a =>
    simp only [nameStep, Option.bind_eq_some_iff, Option.map_eq_some_iff] at h
    obtain ⟨p, hp, ⟨stage, e⟩, hstep, u, hu, rfl⟩ := h
    exact .proc hp hstep hu
  | openWrite w name =>
    by_cases hfree : (s.writers w).isSome
    · simp [nameStep, hfree] at h
    · simp only [nameStep, hfree, Bool.false_eq_true, if_false, Option.map_eq_some_iff] at h
      obtain ⟨q, hq, rfl⟩ := h
      exact .openWrite (by simpa using hfree) hq
  | send w msg =>
    simp only [nameStep, Option.bind_eq_some_iff] at h
    obtain ⟨q, hq, msg', hsent, h⟩ := h
    obtain ⟨-, ⟨⟩⟩ := Option.ite_none_right_eq_some.1 hsent
    split_ifs at h
    cases h
    exact .send hq
  | close w =>
    simp only [nameStep, Option.map_eq_some_iff] at h
    obtain ⟨q, hq, rfl⟩ := h
    exact .close hq

end Steps

/-! ## Who is responsible for a queue -/

/-- The process created the queue under the name and did not unlink it yet. -/
def StandsFor (s : NameState) (pid : ℕ) (name : QueueName) (q : ℕ) : Prop :=
  ∃ p, s.procs pid = some p ∧ p.mqQueueName = name ∧ p.stage.queue = some q

structure Owned (s : NameState) : Prop where
  bound : ∀ pid name q, StandsFor s pid name q → q < s.next
  unmade : ∀ q, s.next ≤ q → s.received q = []
  owner : ∀ q, ∃ pid, (∀ m ∈ s.received q, m.1 = pid) ∧
    ∀ pid' name, StandsFor s pid' name q → pid' = pid
  linked : ∀ name q, s.links name = some q → ∃ pid, StandsFor s pid name q
  opened : ∀ w q, s.writers w = some q → q < s.next

section Invariant

variable {s t u : NameState} {a : NameAct} {as : List NameAct} {pid pid' q : ℕ} {p : Proc}
  {name : QueueName}

@[simp] theorem mqQueueName_setStage (p : Proc) (stage : Stage) :
    ({ p with stage := stage } : Proc).mqQueueName = p.mqQueueName := rfl

theorem holds_setProc_self :
    StandsFor (s.setProc pid p) pid name q ↔ p.mqQueueName = name ∧ p.stage.queue = some q := by
  simp [StandsFor, NameState.setProc]

theorem holds_setProc_of_ne (hne : pid' ≠ pid) :
    StandsFor (s.setProc pid p) pid' name q ↔ StandsFor s pid' name q := by
  simp [StandsFor, NameState.setProc, hne]

/-- Who is responsible depends on neither the descriptors nor the messages that wait. -/
theorem Owned.congr (h : Owned s) (hsame : SameNames s t) : Owned t := by
  have hstands : ∀ pid name q, StandsFor t pid name q ↔ StandsFor s pid name q := by
    intro pid name q
    rw [StandsFor, StandsFor, hsame.procs]
  constructor
  · simpa only [hstands, hsame.next] using h.bound
  · simpa only [hsame.next, hsame.received] using h.unmade
  · simpa only [hstands, hsame.received] using h.owner
  · simpa only [hstands, hsame.links] using h.linked
  · simpa only [hsame.next, hsame.writers] using h.opened

/-- A process that stands for no queue changes nothing. -/
theorem Owned.setProc (h : Owned s) (hfree : ∀ name q, ¬StandsFor s pid name q)
    (hp : p.stage.queue = none) : Owned (s.setProc pid p) := by
  have hback : ∀ pid' name q, StandsFor (s.setProc pid p) pid' name q →
      StandsFor s pid' name q := by
    intro pid' name q hq
    by_cases hne : pid' = pid
    · subst hne
      rw [holds_setProc_self, hp] at hq
      exact absurd hq.2 (by simp)
    · exact (holds_setProc_of_ne hne).1 hq
  exact {
    bound := fun pid' name q hq => h.bound pid' name q (hback pid' name q hq)
    unmade := h.unmade
    owner := fun q => by
      obtain ⟨o, hr, ho⟩ := h.owner q
      exact ⟨o, hr, fun pid' name hq => ho pid' name (hback pid' name q hq)⟩
    linked := fun name q hl => by
      obtain ⟨o, ho⟩ := h.linked name q hl
      by_cases hne : o = pid
      · exact absurd (hne ▸ ho) (hfree name q)
      · exact ⟨o, (holds_setProc_of_ne hne).2 ho⟩
    opened := h.opened }

theorem holds_of_procs (hp : s.procs pid = some p) (hq : p.stage.queue = some q) :
    StandsFor s pid p.mqQueueName q := ⟨p, hp, rfl, hq⟩

/-- The process goes on with the queue that it has. -/
theorem Owned.setStage {stage : Stage} (h : Owned s) (hp : s.procs pid = some p)
    (hq : stage.queue = p.stage.queue) :
    Owned (s.setProc pid { p with stage := stage }) := by
  have hiff : ∀ pid' name q, StandsFor (s.setProc pid { p with stage := stage }) pid' name q ↔
      StandsFor s pid' name q := by
    intro pid' name q
    by_cases hne : pid' = pid
    · subst hne
      rw [holds_setProc_self, mqQueueName_setStage]
      simp [StandsFor, hp, hq]
    · exact holds_setProc_of_ne hne
  exact {
    bound := fun pid' name q hq => h.bound pid' name q ((hiff ..).1 hq)
    unmade := h.unmade
    owner := fun q => by
      obtain ⟨o, hr, ho⟩ := h.owner q
      exact ⟨o, hr, fun pid' name hq => ho pid' name ((hiff ..).1 hq)⟩
    linked := fun name q hl => by
      obtain ⟨o, ho⟩ := h.linked name q hl
      exact ⟨o, (hiff ..).2 ho⟩
    opened := h.opened }

/-- The process gives up its queue, whose name leads nowhere. -/
theorem Owned.giveUp {stage : Stage} (h : Owned s) (hp : s.procs pid = some p)
    (hlink : s.links p.mqQueueName = none) (hq : stage.queue = none) :
    Owned (s.setProc pid { p with stage := stage }) := by
  have hback : ∀ pid' name q, StandsFor (s.setProc pid { p with stage := stage }) pid' name q →
      StandsFor s pid' name q := by
    intro pid' name q hold
    by_cases hne : pid' = pid
    · subst hne
      rw [holds_setProc_self, hq] at hold
      exact absurd hold.2 (by simp)
    · exact (holds_setProc_of_ne hne).1 hold
  exact {
    bound := fun pid' name q hold => h.bound pid' name q (hback pid' name q hold)
    unmade := h.unmade
    owner := fun q => by
      obtain ⟨o, hr, ho⟩ := h.owner q
      exact ⟨o, hr, fun pid' name hold => ho pid' name (hback pid' name q hold)⟩
    linked := fun name q hl => by
      obtain ⟨o, ho⟩ := h.linked name q hl
      by_cases hne : o = pid
      · obtain ⟨p', hp', hname, -⟩ := ho
        rw [hne, hp, Option.some.injEq] at hp'
        rw [← hname, ← hp'] at hl
        exact absurd (hlink.symm.trans hl) (by simp)
      · exact ⟨o, (holds_setProc_of_ne hne).2 ho⟩
    opened := h.opened }

theorem Owned.unlink (h : Owned s) (name : QueueName) :
    Owned { s with links := update s.links name none } where
  bound := h.bound
  unmade := h.unmade
  owner := h.owner
  linked name' q hl := by
    by_cases hne : name' = name
    · subst hne
      simp at hl
    · exact h.linked name' q (by simpa [hne] using hl)
  opened := h.opened

theorem Owned.create (h : Owned s) (hp : s.procs pid = some p) (hfree : p.stage.queue = none) :
    Owned (NameState.setProc { s with
        links := update s.links p.mqQueueName (some s.next)
        next := s.next + 1
        names := update s.names s.next p.mqQueueName } pid
      { p with stage := .receiving s.next }) := by
  have hself : ∀ name q, ¬StandsFor s pid name q := by
    intro name q h
    obtain ⟨p', hp', -, hq⟩ := h
    rw [hp, Option.some.injEq] at hp'
    rw [← hp', hfree] at hq
    cases hq
  -- the new queue is the creator's, and all others belong to whom they did
  have hback : ∀ pid' name q, StandsFor (NameState.setProc { s with
        links := update s.links p.mqQueueName (some s.next)
        next := s.next + 1
        names := update s.names s.next p.mqQueueName } pid
      { p with stage := .receiving s.next }) pid' name q →
      pid' = pid ∧ q = s.next ∨ StandsFor s pid' name q := by
    intro pid' name q hold
    by_cases hne : pid' = pid
    · subst hne
      rw [holds_setProc_self] at hold
      left
      exact ⟨rfl, (Option.some.inj hold.2).symm⟩
    · right
      exact (holds_setProc_of_ne hne).1 hold
  have hnew : ∀ pid' name, ¬StandsFor s pid' name s.next := fun pid' name hold =>
    Nat.lt_irrefl _ (h.bound pid' name _ hold)
  exact {
    bound := fun pid' name q hold => by
      rcases hback pid' name q hold with ⟨-, rfl⟩ | hold
      · exact Nat.lt_succ_self _
      · exact Nat.lt_succ_of_lt (h.bound pid' name q hold)
    unmade := fun q hq => h.unmade q (Nat.le_of_succ_le hq)
    owner := fun q => by
      by_cases hq : q = s.next
      · subst hq
        refine ⟨pid, ?_, ?_⟩
        · show ∀ m ∈ s.received s.next, m.1 = pid
          rw [h.unmade _ (Nat.le_refl _)]
          simp
        · intro pid' name hold
          rcases hback pid' name _ hold with ⟨rfl, -⟩ | hold
          · rfl
          · exact absurd hold (hnew pid' name)
      · obtain ⟨o, hr, ho⟩ := h.owner q
        refine ⟨o, hr, fun pid' name hold => ?_⟩
        rcases hback pid' name q hold with ⟨-, rfl⟩ | hold
        · exact absurd rfl hq
        · exact ho pid' name hold
    linked := fun name q hl => by
      by_cases hne : name = p.mqQueueName
      · subst hne
        have hq : s.next = q := by simpa [NameState.setProc] using hl
        exact ⟨pid, holds_setProc_self.2 ⟨rfl, congrArg some hq⟩⟩
      · obtain ⟨o, ho⟩ := h.linked name q (by simpa [NameState.setProc, hne] using hl)
        have hop : o ≠ pid := by
          intro h
          subst h
          exact hself name q ho
        exact ⟨o, (holds_setProc_of_ne hop).2 ho⟩
    opened := fun w q hw => Nat.lt_succ_of_lt (h.opened w q hw) }

theorem Owned.receive {msg : List Char} {msgs : List (List Char)} (h : Owned s)
    (hold : StandsFor s pid name q) (hw : s.waiting q = msg :: msgs) :
    Owned { s with
      waiting := update s.waiting q msgs
      received := update s.received q (s.received q ++ [(pid, msg)]) } where
  bound := h.bound
  unmade q' hq' := by
    have hne : q' ≠ q := by
      intro h
      subst h
      exact absurd (h.bound _ _ _ hold) (Nat.not_lt.2 hq')
    simpa [hne] using h.unmade q' hq'
  owner q' := by
    obtain ⟨o, hr, ho⟩ := h.owner q'
    refine ⟨o, ?_, ho⟩
    by_cases hne : q' = q
    · subst hne
      intro m hm
      simp only [update_self, List.mem_append, List.mem_singleton] at hm
      rcases hm with hm | rfl
      · exact hr m hm
      · exact ho pid name hold
    · simpa [hne] using hr
  linked := h.linked
  opened := h.opened

theorem Owned.setWriter {w : ℕ} {opened : Option ℕ} (h : Owned s)
    (hq : ∀ q, opened = some q → q < s.next) :
    Owned { s with writers := update s.writers w opened } where
  bound := h.bound
  unmade := h.unmade
  owner := h.owner
  linked := h.linked
  opened w' q hw := by
    by_cases hne : w' = w
    · subst hne
      exact hq q (by simpa using hw)
    · exact h.opened w' q (by simpa [hne] using hw)

theorem Owned.link_lt (h : Owned s) (hl : s.links name = some q) : q < s.next := by
  obtain ⟨pid, hold⟩ := h.linked name q hl
  exact h.bound pid name q hold

theorem owned_initial : Owned {} where
  bound _ _ _ := by rintro ⟨p, hp, -⟩; cases hp
  unmade _ _ := rfl
  owner _ := ⟨0, by simp, by rintro _ _ ⟨p, hp, -⟩; cases hp⟩
  linked _ _ hl := by cases hl
  opened _ _ hw := by cases hw

/-- A process that was not there stands for no queue. -/
theorem not_holds_of_free (hfree : s.procs pid = none) (name : QueueName) (q : ℕ) :
    ¬StandsFor s pid name q := by
  intro h
  obtain ⟨p, hp, -⟩ := h
  rw [hfree] at hp
  cases hp

theorem Owned.step (h : Owned s) (ha : nameStep s a = some t) : Owned t := by
  cases nameTrans_of_step ha with
  | start hfree => exact h.setProc (not_holds_of_free hfree) rfl
  | fork hp hfree =>
    exact (h.setProc (p := ⟨_, _, .forked _⟩) (not_holds_of_free hfree) rfl).congr
      (sameNames_reopen ..)
  | @proc pid a p stage e u hp hstep hu =>
    refine Owned.congr ?_ (sameNames_reopen ..)
    rcases procStep_queue hstep with ⟨rfl, -, hnone, rfl⟩ | ⟨hcreate, hq⟩
    · cases hu
      exact h.create hp hnone
    · cases e with
      | nothing =>
        cases hu
        exact h.setStage hp (hq.resolve_right fun h => by cases h.1)
      | create q => exact absurd rfl (hcreate q)
      | unlink name =>
        cases hu
        have hsame := sameNames_unlink s name
        have hunlink := (h.unlink name).congr hsame
        have hp' : (s.unlink name).procs pid = some p := hsame.procs ▸ hp
        rcases hq with hq | ⟨hname, hq⟩
        · exact hunlink.setStage hp' hq
        · obtain rfl := Effect.unlink.inj hname
          exact hunlink.giveUp hp' (hsame.links ▸ update_self ..) hq
      | receive q =>
        have hhold := holds_of_procs hp (congrArg Stage.queue (procStep_receive hstep))
        simp only [NameState.effect] at hu
        split at hu
        · cases hu
        · rename_i msg msgs hw
          cases hu
          exact (h.receive hhold hw).setStage hp (hq.resolve_right fun h => by cases h.1)
  | openWrite hfree hlink =>
    refine Owned.congr (h.setWriter fun q hq => ?_) (sameNames_openBy ..)
    cases hq
    exact h.link_lt hlink
  | @send w msg q hw => exact ⟨h.bound, h.unmade, h.owner, h.linked, h.opened⟩
  | close hw => exact (h.setWriter fun q hq => by cases hq).congr (sameNames_closeBy ..)

/-- A launcher creates its queue, a second one of the same program takes the name over, and a
message is sent. -/
def takeover : List NameAct :=
  [.start 1 .launcher "etl".toList, .proc 1 (.mqOpen false), .start 2 .launcher "etl".toList,
    .proc 2 (.mqOpen false), .proc 2 .mqUnlink, .proc 2 .mqUnlink, .proc 2 (.mqOpen false),
    .openWrite 7 "/etl_JLauncher".toList, .send 7 "--ETL".toList]

theorem owned_run (h : run nameStep {} as = some s) : Owned s :=
  run_invariant (fun _ _ _ h ha => h.step ha) owned_initial h

/-- A name that leads to a queue is that of the process that created the queue. It runs, or it
ended without its destructors. -/
theorem linked_name_has_owner (h : run nameStep {} as = some s) (hl : s.links name = some q) :
    ∃ pid p, s.procs pid = some p ∧ p.mqQueueName = name ∧
      (p.stage = .receiving q ∨ p.stage = .leaving q ∨ p.stage = .crashed (some q)) := by
  obtain ⟨pid, p, hp, hname, hq⟩ := (owned_run h).linked name q hl
  refine ⟨pid, p, hp, hname, ?_⟩
  cases hstage : p.stage <;> simp_all [Stage.queue]

theorem linked_name_has_owner_takeover :
    ∃ s pid p, run nameStep {} takeover = some s ∧ s.procs pid = some p ∧
      p.mqQueueName = "/etl_JLauncher".toList ∧
      (p.stage = .receiving 1 ∨ p.stage = .leaving 1 ∨ p.stage = .crashed (some 1)) := by
  have hrun : run nameStep {} takeover = some _ := rfl
  obtain ⟨pid, p, h⟩ := linked_name_has_owner hrun
    (rfl : NameState.links _ "/etl_JLauncher".toList = some 1)
  exact ⟨_, pid, p, rfl, h⟩

/-- A step of the machine is a step of this process, or leaves it where it is. -/
theorem proc_step (h : nameStep s a = some t) (hp : s.procs pid = some p) :
    (∃ b stage e, a = .proc pid b ∧
        procStep (s.links p.mqQueueName) s.next p b = some (stage, e) ∧
        t.procs pid = some { p with stage := stage }) ∨
      (∀ b, a ≠ .proc pid b) ∧ t.procs pid = some p := by
  have hne_of_free : ∀ {pid'}, s.procs pid' = none → pid ≠ pid' := by
    rintro pid' hfree rfl
    rw [hfree] at hp
    cases hp
  cases nameTrans_of_step h with
  | @start pid' role progname hfree =>
    exact .inr ⟨by simp, by simpa [NameState.setProc, hne_of_free hfree] using hp⟩
  | @fork _ pid' _ progname _ hfree =>
    refine .inr ⟨by simp, ?_⟩
    rw [(sameNames_reopen ..).procs]
    simpa [NameState.setProc, hne_of_free hfree] using hp
  | @proc pid' b p' stage e u hp' hstep hu =>
    have hprocs : u.procs = s.procs := by
      cases e with
      | unlink name =>
        cases hu
        exact (sameNames_unlink s name).procs
      | receive q' =>
        simp only [NameState.effect] at hu
        split at hu <;> cases hu
        rfl
      | _ => cases hu; rfl
    rw [(sameNames_reopen ..).procs]
    by_cases hne : pid = pid'
    · subst hne
      cases hp.symm.trans hp'
      exact .inl ⟨b, stage, e, rfl, hstep, by simp [NameState.setProc]⟩
    · refine .inr ⟨?_, by simpa [NameState.setProc, hne, hprocs] using hp⟩
      intro b' hb
      cases hb
      exact hne rfl
  | close => exact .inr ⟨by simp, by rw [(sameNames_closeBy ..).procs]; exact hp⟩
  | _ => exact .inr ⟨by simp, hp⟩

/-! ## What becomes of a name -/

theorem unlinkedBy_proc {b : ProcAct} {stage : Stage} {e : Effect} (hp : s.procs pid = some p)
    (hstep : procStep (s.links p.mqQueueName) s.next p b = some (stage, e)) :
    unlinkedBy s (.proc pid b) = e.unlinked := by
  simp only [unlinkedBy, hp, hstep, Option.bind_some]

/-- A step unlinks a name, leaves the names as they are, or links a name that leads nowhere. -/
theorem links_cases (h : nameStep s a = some t) :
    (∃ name, unlinkedBy s a = some name ∧ t.links = update s.links name none ∧ t.next = s.next) ∨
      unlinkedBy s a = none ∧ (t.links = s.links ∧ t.next = s.next ∨
        ∃ pid p, a = .proc pid (.mqOpen false) ∧ s.procs pid = some p ∧
          s.links p.mqQueueName = none ∧ t.next = s.next + 1 ∧
          t.links = update s.links p.mqQueueName (some s.next)) := by
  cases nameTrans_of_step h with
  | @proc pid b p stage e u hp hstep hu =>
    have hsame := sameNames_reopen (u.setProc pid { p with stage := stage }) (.process pid)
      p.stage.opened stage.opened
    rw [unlinkedBy_proc hp hstep, hsame.links, hsame.next]
    cases e with
    | nothing =>
      cases hu
      exact .inr ⟨rfl, .inl ⟨rfl, rfl⟩⟩
    | create q' =>
      obtain ⟨rfl, hq, hnone⟩ := procStep_create hstep
      cases hq
      cases hu
      exact .inr ⟨rfl, .inr ⟨pid, p, rfl, hp, hnone, rfl, rfl⟩⟩
    | unlink other =>
      cases hu
      have hunlink := sameNames_unlink s other
      exact .inl ⟨other, rfl, hunlink.links, hunlink.next⟩
    | receive q' =>
      simp only [NameState.effect] at hu
      split at hu <;> cases hu
      exact .inr ⟨rfl, .inl ⟨rfl, rfl⟩⟩
  | fork =>
    refine .inr ⟨rfl, .inl ⟨?_, ?_⟩⟩
    · exact (sameNames_reopen ..).links
    · exact (sameNames_reopen ..).next
  | close =>
    refine .inr ⟨rfl, .inl ⟨?_, ?_⟩⟩
    · exact (sameNames_closeBy ..).links
    · exact (sameNames_closeBy ..).next
  | _ => exact .inr ⟨rfl, .inl ⟨rfl, rfl⟩⟩

theorem next_le_step (h : nameStep s a = some t) : s.next ≤ t.next := by
  rcases links_cases h with ⟨_, -, -, hn⟩ | ⟨-, ⟨-, hn⟩ | ⟨_, _, -, -, -, hn, -⟩⟩ <;> omega

theorem links_of_unlinkedBy (h : nameStep s a = some t) (hname : unlinkedBy s a = some name) :
    t.links name = none := by
  rcases links_cases h with ⟨other, hother, hl, -⟩ | ⟨hnone, -⟩
  · cases hother.symm.trans hname
    rw [hl, update_self]
  · cases hnone.symm.trans hname

/-- A name that is not unlinked leads where it led. -/
theorem links_kept (h : nameStep s a = some t) (hl : s.links name = some q)
    (hname : unlinkedBy s a ≠ some name) : t.links name = some q := by
  rcases links_cases h with ⟨other, hother, ht, -⟩ | ⟨-, ⟨ht, -⟩ | ⟨_, p, -, -, hfree, -, ht⟩⟩
  · have hne : name ≠ other := by
      intro h
      subst h
      exact hname hother
    rw [ht, update_of_ne hne, hl]
  · rw [ht, hl]
  · have hne : name ≠ p.mqQueueName := by
      intro h
      subst h
      rw [hfree] at hl
      cases hl
    rw [ht, update_of_ne hne, hl]

/-- A name leads where it led, or to a queue that was not there. -/
theorem links_back (h : nameStep s a = some t) (hl : t.links name = some q) :
    s.links name = some q ∨ q = s.next := by
  rcases links_cases h with ⟨other, -, ht, -⟩ | ⟨-, ⟨ht, -⟩ | ⟨_, p, -, -, -, -, ht⟩⟩
  · rw [ht] at hl
    by_cases hne : name = other
    · subst hne
      simp at hl
    · rw [update_of_ne hne] at hl
      exact .inl hl
  · exact .inl (ht ▸ hl)
  · rw [ht] at hl
    by_cases hne : name = p.mqQueueName
    · subst hne
      rw [update_self] at hl
      exact .inr (Option.some.inj hl).symm
    · rw [update_of_ne hne] at hl
      exact .inl hl

/-- A queue that lost its name does not get it back. -/
theorem not_linked_run (h : run nameStep s as = some t) (hq : q < s.next)
    (hl : s.links name ≠ some q) : t.links name ≠ some q := by
  have := run_invariant (I := fun u => q < u.next ∧ u.links name ≠ some q)
    (fun u a v hu ha => by
      refine ⟨Nat.lt_of_lt_of_le hu.1 (next_le_step ha), fun hv => ?_⟩
      rcases links_back ha hv with hlink | hfresh
      · exact hu.2 hlink
      · exact Nat.ne_of_lt hu.1 hfresh)
    ⟨hq, hl⟩ h
  exact this.2

/-- **A process is reached by its name exactly as long as nobody unlinks the name.** -/
theorem linked_iff_not_unlinked {before : List NameAct} (hs : run nameStep {} before = some s)
    (hl : s.links name = some q) (h : run nameStep s as = some t) :
    t.links name = some q ↔ Always nameStep (fun u a => unlinkedBy u a ≠ some name) s as := by
  have hq : q < s.next := (owned_run hs).link_lt hl
  clear hs
  induction as generalizing s with
  | nil =>
    cases h
    exact iff_of_true hl trivial
  | cons a as ih =>
    obtain ⟨u, ha, h⟩ := run_cons_eq_some.1 h
    have hqu := Nat.lt_of_lt_of_le hq (next_le_step ha)
    rw [always_cons_iff ha]
    by_cases hname : unlinkedBy s a = some name
    · refine iff_of_false ?_ fun hboth => hboth.1 hname
      exact not_linked_run h hqu (by simp [links_of_unlinkedBy ha hname])
    · exact (ih (links_kept ha hl hname) h hqu).trans (and_iff_right hname).symm

/-- When the first launcher exits, it unlinks the name that leads to the second one. -/
theorem linked_iff_not_unlinked_takeover :
    ∃ s t, run nameStep {} takeover = some s ∧ s.links "/etl_JLauncher".toList = some 1 ∧
      run nameStep s [.proc 1 .leave, .proc 1 .mqUnlink] = some t ∧
      t.links "/etl_JLauncher".toList ≠ some 1 := by
  have hbefore : run nameStep {} takeover = some ((run nameStep {} takeover).getD {}) := rfl
  have hrun : run nameStep ((run nameStep {} takeover).getD {})
    [.proc 1 .leave, .proc 1 .mqUnlink] = some _ := rfl
  refine ⟨_, _, hbefore, rfl, hrun, fun hlink => ?_⟩
  have hall := (linked_iff_not_unlinked hbefore rfl hrun).1 hlink
  exact hall.2.1 rfl

end Invariant

end Spartan
