import Mathlib.Data.List.Nodup
import Mathlib.Logic.Function.Basic
import SpartanLauncher.Lib.CString
import SpartanLauncher.Lib.Machine

/-!
# The pid file of `isFirstInstance`

`isFirstInstance` opens the first file it can of four candidates, takes an exclusive lock on it
without waiting, and writes its pid at the start of the file. It never closes the descriptor: the
lock stays with the open file description until the last process that has it open is gone, and a
forked child has it open too. Nothing shortens the file before the pid is written.

* `one_first_instance_per_file`: of the live processes, one at most was told that it is the first
  instance on a file, and once only.
* `one_first_instance_per_name`: the same for a name, among processes whose candidates are the
  same files.
* `pid_file_names_first_instance`: the first line of the file is the pid of that process, whatever
  an earlier and longer pid left behind.
* `lock_outlives_taker`: as long as the process that was told so lives, or one that was forked from
  it, all other calls on the file are refused.
-/

namespace Spartan

open Machine Function CString

/-! ## Candidates -/

/-- `path_concat`. -/
def pathConcat (str1 str2 : List Char) : List Char :=
  match str1.getLast? with
  | none => str2
  | some lastCh =>
    if lastCh ≠ '/' ∧ lastCh ≠ '\\' then str1 ++ '/' :: str2
    else str1.dropLast ++ '/' :: str2

/-- What a process brings along. -/
structure PidFileEnv where
  /-- `$HOME`, -/
  home : Option (List Char) := none
  /-- and the home directory that `getpwuid` knows. -/
  pwDir : Option (List Char) := none
  progpath : List Char := []
  /-- The file that `open` with `O_CREAT | O_RDWR` yields for a path, by the process's rights and
  its current directory. -/
  openFile : List Char → Option ℕ := fun _ => none

/-- The values of `full_path` in the order of `PFL`. -/
def PidFileEnv.candidates (env : PidFileEnv) (pre : List Char) : List (List Char) :=
  ("/var/run/".toList ++ pre ++ ".pid".toList) ::
    ((match env.home.or env.pwDir with
      | some homedir => [pathConcat homedir pre ++ ".pid".toList]
      | none => []) ++
      [pathConcat env.progpath pre ++ ".pid".toList, "./".toList ++ pre ++ ".pid".toList])

/-- The file of `pid_file_fd`; `none` when no candidate can be opened. -/
def PidFileEnv.pidFile (env : PidFileEnv) (pre : List Char) : Option ℕ :=
  (env.candidates pre).findSome? env.openFile

theorem findSome?_congr_of_mem {α β : Type} {f g : α → Option β} {l : List α}
    (h : ∀ x ∈ l, f x = g x) : l.findSome? f = l.findSome? g := by
  induction l with
  | nil => rfl
  | cons x l ih =>
    rw [List.findSome?_cons, List.findSome?_cons, h x List.mem_cons_self,
      ih fun y hy => h y (List.mem_cons_of_mem x hy)]

/-! ## Processes and locks -/

/-- Where a process is in `isFirstInstance`. -/
inductive CallStage where
  | idle
  /-- `pid_file_fd` refers to the open file description `d`; at `flock`. -/
  | opened (pre : List Char) (d : ℕ)
  /-- Locked; at `dup` and `fprintf`. -/
  | locked (pre : List Char) (d : ℕ)
  deriving DecidableEq

structure Instance where
  env : PidFileEnv := {}
  /-- The open file descriptions that descriptors of the process refer to. -/
  fds : List ℕ := []
  stage : CallStage := .idle
  /-- The calls that returned `JNI_TRUE`: the name and the description. -/
  firsts : List (List Char × ℕ) := []

structure PidFiles where
  /-- All pids so far. -/
  pids : List ℕ := []
  proc : ℕ → Option Instance := fun _ => none
  /-- The number of the next open file description. -/
  next : ℕ := 0
  /-- The file of an open file description. -/
  file : ℕ → ℕ := fun _ => 0
  /-- The description that took the lock of a file last. -/
  lock : ℕ → Option ℕ := fun _ => none
  content : ℕ → List Char := fun _ => []

/-- The steps of `isFirstInstance`. -/
inductive CallAct where
  /-- Open the pid file for a name. -/
  | openPidFile (pre : List Char)
  | flock
  /-- `flock` fails for another reason than a lock: an exception. -/
  | flockError
  /-- `dup` and `fprintf`, which gets the line into the file. -/
  | write (dupFails : Bool)

inductive PidFileAct where
  | start (pid : ℕ) (env : PidFileEnv)
  | fork (pid child : ℕ)
  | call (pid : ℕ) (a : CallAct)
  | exit (pid : ℕ)

/-- Some live process has the description open. -/
def PidFiles.isOpen (s : PidFiles) (d : ℕ) : Bool :=
  s.pids.any fun pid => (s.proc pid).any fun p => decide (d ∈ p.fds)

/-- A description that is open has the lock of the file. -/
def PidFiles.isLocked (s : PidFiles) (file : ℕ) : Bool := (s.lock file).any s.isOpen

def PidFiles.setProc (s : PidFiles) (pid : ℕ) (p : Option Instance) : PidFiles :=
  { s with proc := update s.proc pid p }

def PidFiles.newProc (s : PidFiles) (pid : ℕ) (p : Instance) : PidFiles :=
  { s with pids := pid :: s.pids, proc := update s.proc pid (some p) }

/-- A write at the offset 0. -/
def overwrite (content new : List Char) : List Char := new ++ content.drop new.length

/-- `fprintf(fp, "%d\n", getpid())`. -/
def pidLine (pid : ℕ) : List Char := printDec pid ++ ['\n']

/-- The process writes its pid into the file. -/
def PidFiles.writePid (s : PidFiles) (file pid : ℕ) : PidFiles :=
  { s with content := update s.content file (overwrite (s.content file) (pidLine pid)) }

def callStep (s : PidFiles) (pid : ℕ) (p : Instance) : CallAct → Option PidFiles
  | .openPidFile pre =>
    match p.stage, p.env.pidFile pre with
    | .idle, none => some s
    | .idle, some file => some
        ({ s with next := s.next + 1, file := update s.file s.next file }.setProc pid
          (some { p with fds := s.next :: p.fds, stage := .opened pre s.next }))
    | _, _ => none
  | .flock =>
    match p.stage with
    | .opened pre d =>
      if s.isLocked (s.file d) then some (s.setProc pid (some { p with stage := .idle }))
      else some ({ s with lock := update s.lock (s.file d) (some d) }.setProc pid
        (some { p with stage := .locked pre d }))
    | _ => none
  | .flockError =>
    match p.stage with
    | .opened _ _ => some (s.setProc pid (some { p with stage := .idle }))
    | _ => none
  | .write dupFails =>
    match p.stage with
    | .locked pre d =>
      -- the stream is null when `dup` fails; otherwise the duplicate is left open
      if dupFails then some (s.setProc pid none)
      else some ((s.writePid (s.file d) pid).setProc pid
        (some { p with stage := .idle, firsts := (pre, d) :: p.firsts }))
    | _ => none

def pidFileStep (s : PidFiles) : PidFileAct → Option PidFiles
  | .start pid env => if (s.proc pid).isSome then none else some (s.newProc pid { env := env })
  | .fork pid child =>
    (s.proc pid).bind fun p =>
    if (s.proc child).isSome then none
    else some (s.newProc child { env := p.env, fds := p.fds })
  | .call pid a => (s.proc pid).bind fun p => callStep s pid p a
  | .exit pid => (s.proc pid).map fun _ => s.setProc pid none

/-! ## What a step can do -/

inductive PidFileTrans (s : PidFiles) : PidFileAct → PidFiles → Prop where
  | start {pid : ℕ} {env : PidFileEnv} (hfree : s.proc pid = none) :
    PidFileTrans s (.start pid env) (s.newProc pid { env := env })
  | fork {pid child : ℕ} {p : Instance} (hp : s.proc pid = some p)
    (hfree : s.proc child = none) :
    PidFileTrans s (.fork pid child) (s.newProc child { env := p.env, fds := p.fds })
  | exit {pid : ℕ} : PidFileTrans s (.exit pid) (s.setProc pid none)
  | noFile {pid : ℕ} {pre : List Char} : PidFileTrans s (.call pid (.openPidFile pre)) s
  | opened {pid : ℕ} {p : Instance} {pre : List Char} {file : ℕ} (hp : s.proc pid = some p)
    (hfile : p.env.pidFile pre = some file) :
    PidFileTrans s (.call pid (.openPidFile pre))
      ({ s with next := s.next + 1, file := update s.file s.next file }.setProc pid
        (some { p with fds := s.next :: p.fds, stage := .opened pre s.next }))
  | locked {pid : ℕ} {p : Instance} {pre : List Char} {d : ℕ} (hp : s.proc pid = some p)
    (hstage : p.stage = .opened pre d) (hlock : s.isLocked (s.file d) = false) :
    PidFileTrans s (.call pid .flock)
      ({ s with lock := update s.lock (s.file d) (some d) }.setProc pid
        (some { p with stage := .locked pre d }))
  | refused {pid : ℕ} {p : Instance} {a : CallAct} (hp : s.proc pid = some p) :
    PidFileTrans s (.call pid a) (s.setProc pid (some { p with stage := .idle }))
  | died {pid : ℕ} {a : CallAct} : PidFileTrans s (.call pid a) (s.setProc pid none)
  | written {pid : ℕ} {p : Instance} {pre : List Char} {d : ℕ} (hp : s.proc pid = some p)
    (hstage : p.stage = .locked pre d) :
    PidFileTrans s (.call pid (.write false)) ((s.writePid (s.file d) pid).setProc pid
      (some { p with stage := .idle, firsts := (pre, d) :: p.firsts }))

theorem pidFileTrans_of_step {s t : PidFiles} {a : PidFileAct} (h : pidFileStep s a = some t) :
    PidFileTrans s a t := by
  cases a with
  | start pid env =>
    cases hfree : s.proc pid <;> simp [pidFileStep, hfree] at h
    exact h ▸ .start hfree
  | fork pid child =>
    cases hp : s.proc pid <;> cases hfree : s.proc child <;> simp [pidFileStep, hp, hfree] at h
    exact h ▸ .fork hp hfree
  | exit pid =>
    cases hp : s.proc pid <;> simp [pidFileStep, hp] at h
    exact h ▸ .exit
  | call pid a =>
    obtain ⟨p, hp, h⟩ := Option.bind_eq_some_iff.1 h
    cases a with
    | openPidFile pre =>
      cases hstage : p.stage <;> cases hfile : p.env.pidFile pre <;>
        simp [callStep, hstage, hfile] at h
      · exact h ▸ .noFile
      · exact h ▸ .opened hp hfile
    | flock =>
      cases hstage : p.stage <;> simp only [callStep, hstage] at h
      case opened pre d =>
        cases hlock : s.isLocked (s.file d) <;> simp [hlock] at h
        · exact h ▸ .locked hp hstage hlock
        · exact h ▸ .refused hp
      all_goals cases h
    | flockError =>
      cases hstage : p.stage <;> simp [callStep, hstage] at h
      exact h ▸ .refused hp
    | write dupFails =>
      cases hstage : p.stage <;> cases dupFails <;> simp [callStep, hstage] at h
      · exact h ▸ .written hp hstage
      · exact h ▸ .died

/-! ## The invariant -/

/-- The call that the process is in, and the one that has the lock. -/
def CallStage.tries : CallStage → List (List Char × ℕ)
  | .idle => []
  | .opened pre d | .locked pre d => [(pre, d)]

def CallStage.has : CallStage → List (List Char × ℕ)
  | .locked pre d => [(pre, d)]
  | _ => []

/-- The calls that may still get or already got the answer `JNI_TRUE`, -/
def Instance.tries (p : Instance) : List (List Char × ℕ) := p.stage.tries ++ p.firsts

/-- and those of them that have the lock. -/
def Instance.has (p : Instance) : List (List Char × ℕ) := p.stage.has ++ p.firsts

structure LocksKept (s : PidFiles) : Prop where
  listed : ∀ pid p, s.proc pid = some p → pid ∈ s.pids
  bound : ∀ pid p d, s.proc pid = some p → d ∈ p.fds → d < s.next
  tries : ∀ pid p c, s.proc pid = some p → c ∈ p.tries →
    c.2 ∈ p.fds ∧ p.env.pidFile c.1 = some (s.file c.2)
  caller : ∀ pid p pid' p' c c', s.proc pid = some p → s.proc pid' = some p' → c ∈ p.tries →
    c' ∈ p'.tries → c.2 = c'.2 → pid = pid'
  nodup : ∀ pid p, s.proc pid = some p → (p.tries.map Prod.snd).Nodup
  has : ∀ pid p c, s.proc pid = some p → c ∈ p.has → s.lock (s.file c.2) = some c.2
  written : ∀ pid p c, s.proc pid = some p → c ∈ p.firsts →
    ∃ rest, s.content (s.file c.2) = pidLine pid ++ rest

section Invariant

variable {s t : PidFiles} {a : PidFileAct} {as : List PidFileAct} {pid pid' d : ℕ}
  {p p' : Instance} {q : Option Instance} {pre : List Char}

theorem has_subset_tries (p : Instance) : p.has ⊆ p.tries := by
  intro c hc
  cases hstage : p.stage <;> simp_all [Instance.has, Instance.tries, CallStage.has,
    CallStage.tries]

theorem firsts_subset_has (p : Instance) : p.firsts ⊆ p.has := List.subset_append_right _ _

theorem proc_setProc_iff :
    (s.setProc pid q).proc pid' = some p' ↔
      pid' = pid ∧ q = some p' ∨ pid' ≠ pid ∧ s.proc pid' = some p' := by
  by_cases hne : pid' = pid
  · subst hne
    simp [PidFiles.setProc]
  · simp [PidFiles.setProc, hne]

/-- A process ends, or it drops a call. -/
theorem LocksKept.drop (h : LocksKept s)
    (hq : ∀ p', q = some p' → ∃ p, s.proc pid = some p ∧ p'.env = p.env ∧ p'.fds = p.fds ∧
      p'.stage = .idle ∧ p'.firsts = p.firsts) : LocksKept (s.setProc pid q) := by
  -- every process there is was there with at least the same calls
  have hback : ∀ pid' p', (s.setProc pid q).proc pid' = some p' → ∃ p, s.proc pid' = some p ∧
      p'.env = p.env ∧ p'.fds = p.fds ∧ p'.firsts = p.firsts ∧ p'.tries.Sublist p.tries ∧
      p'.has ⊆ p.has := by
    intro pid' p' hp'
    rcases proc_setProc_iff.1 hp' with ⟨rfl, hq'⟩ | ⟨-, hp'⟩
    · obtain ⟨p, hp, henv, hfds, hstage, hfirsts⟩ := hq p' hq'
      refine ⟨p, hp, henv, hfds, hfirsts, ?_, ?_⟩
      · simp [Instance.tries, hstage, hfirsts, CallStage.tries]
      · simp [Instance.has, hstage, hfirsts, CallStage.has]
    · exact ⟨p', hp', rfl, rfl, rfl, List.Sublist.refl _, fun _ hc => hc⟩
  exact {
    listed := fun pid' p' hp' => by
      obtain ⟨p, hp, -⟩ := hback pid' p' hp'
      exact h.listed pid' p hp
    bound := fun pid' p' d hp' hd => by
      obtain ⟨p, hp, -, hfds, -⟩ := hback pid' p' hp'
      exact h.bound pid' p d hp (hfds ▸ hd)
    tries := fun pid' p' c hp' hc => by
      obtain ⟨p, hp, henv, hfds, -, hsub, -⟩ := hback pid' p' hp'
      rw [henv, hfds]
      exact h.tries pid' p c hp (hsub.subset hc)
    caller := fun pid₁ p₁ pid₂ p₂ c c' hp₁ hp₂ hc hc' heq => by
      obtain ⟨q₁, hq₁, -, -, -, hsub₁, -⟩ := hback pid₁ p₁ hp₁
      obtain ⟨q₂, hq₂, -, -, -, hsub₂, -⟩ := hback pid₂ p₂ hp₂
      exact h.caller pid₁ q₁ pid₂ q₂ c c' hq₁ hq₂ (hsub₁.subset hc) (hsub₂.subset hc') heq
    nodup := fun pid' p' hp' => by
      obtain ⟨p, hp, -, -, -, hsub, -⟩ := hback pid' p' hp'
      exact (h.nodup pid' p hp).sublist (hsub.map _)
    has := fun pid' p' c hp' hc => by
      obtain ⟨p, hp, -, -, -, -, hsub⟩ := hback pid' p' hp'
      exact h.has pid' p c hp (hsub hc)
    written := fun pid' p' c hp' hc => by
      obtain ⟨p, hp, -, -, hfirsts, -⟩ := hback pid' p' hp'
      exact h.written pid' p c hp (hfirsts ▸ hc) }

theorem LocksKept.newProc (h : LocksKept s) (hstage : p.stage = .idle) (hfirsts : p.firsts = [])
    (hfds : ∀ d ∈ p.fds, d < s.next) : LocksKept (s.newProc pid p) := by
  have hsplit : ∀ pid' p', (s.newProc pid p).proc pid' = some p' →
      p' = p ∨ s.proc pid' = some p' := by
    intro pid' p' hp'
    rcases (proc_setProc_iff (q := some p)).1 hp' with ⟨-, hq⟩ | ⟨-, hp'⟩
    · exact .inl (Option.some.inj hq).symm
    · exact .inr hp'
  have htries : p.tries = [] := by simp [Instance.tries, hstage, hfirsts, CallStage.tries]
  have hhas : p.has = [] := by simp [Instance.has, hstage, hfirsts, CallStage.has]
  exact {
    listed := fun pid' p' hp' => by
      rcases (proc_setProc_iff (q := some p)).1 hp' with ⟨rfl, -⟩ | ⟨-, hp'⟩
      · exact List.mem_cons_self
      · exact List.mem_cons_of_mem _ (h.listed pid' p' hp')
    bound := fun pid' p' d hp' hd => by
      rcases hsplit pid' p' hp' with rfl | hp'
      · exact hfds d hd
      · exact h.bound pid' p' d hp' hd
    tries := fun pid' p' c hp' hc => by
      rcases hsplit pid' p' hp' with rfl | hp'
      · simp [htries] at hc
      · exact h.tries pid' p' c hp' hc
    caller := fun pid₁ p₁ pid₂ p₂ c c' hp₁ hp₂ hc hc' heq => by
      rcases hsplit pid₁ p₁ hp₁ with rfl | hp₁
      · simp [htries] at hc
      rcases hsplit pid₂ p₂ hp₂ with rfl | hp₂
      · simp [htries] at hc'
      · exact h.caller pid₁ p₁ pid₂ p₂ c c' hp₁ hp₂ hc hc' heq
    nodup := fun pid' p' hp' => by
      rcases hsplit pid' p' hp' with rfl | hp'
      · simp [htries]
      · exact h.nodup pid' p' hp'
    has := fun pid' p' c hp' hc => by
      rcases hsplit pid' p' hp' with rfl | hp'
      · simp [hhas] at hc
      · exact h.has pid' p' c hp' hc
    written := fun pid' p' c hp' hc => by
      rcases hsplit pid' p' hp' with rfl | hp'
      · simp [hfirsts] at hc
      · exact h.written pid' p' c hp' hc }

/-- A description that was opened before is not the new one. -/
theorem LocksKept.ne_next (h : LocksKept s) {c : List Char × ℕ} (hp : s.proc pid = some p)
    (hc : c ∈ p.tries) : c.2 ≠ s.next :=
  Nat.ne_of_lt (h.bound pid p c.2 hp (h.tries pid p c hp hc).1)

theorem LocksKept.opened {file : ℕ} (h : LocksKept s) (hp : s.proc pid = some p)
    (hfile : p.env.pidFile pre = some file) :
    LocksKept ({ s with next := s.next + 1, file := update s.file s.next file }.setProc pid
      (some { p with fds := s.next :: p.fds, stage := .opened pre s.next })) := by
  have hfirsts : ∀ c ∈ p.firsts, c ∈ p.tries := fun c hc => List.mem_append_right _ hc
  -- the calls of a process are the old ones and, for the caller, the new one
  have hback : ∀ pid' p', (PidFiles.setProc
      { s with next := s.next + 1, file := update s.file s.next file } pid
      (some { p with fds := s.next :: p.fds, stage := .opened pre s.next })).proc pid' = some p' →
      ∃ p₀, s.proc pid' = some p₀ ∧ p'.env = p₀.env ∧ p₀.fds ⊆ p'.fds ∧
        (∀ c ∈ p'.tries, c ∈ p₀.tries ∨ pid' = pid ∧ c = (pre, s.next) ∧
          p₀.env.pidFile pre = some file ∧ s.next ∈ p'.fds) ∧
        (∀ c ∈ p'.has, c ∈ p₀.has) ∧ (∀ c ∈ p'.firsts, c ∈ p₀.firsts) ∧
        (∀ d ∈ p'.fds, d ∈ p₀.fds ∨ d = s.next) ∧ (p'.tries.map Prod.snd).Nodup := by
    intro pid' p' hp'
    rcases proc_setProc_iff.1 hp' with ⟨rfl, hq⟩ | ⟨-, hp'⟩
    · obtain rfl := Option.some.inj hq
      refine ⟨p, hp, rfl, List.subset_cons_self _ _, ?_, ?_, fun c hc => hc, ?_, ?_⟩
      · intro c hc
        rcases List.mem_cons.1 hc with rfl | hc
        · exact .inr ⟨rfl, rfl, hfile, List.mem_cons_self⟩
        · exact .inl (hfirsts c hc)
      · intro c hc
        exact List.mem_append_right _ (by simpa [Instance.has, CallStage.has] using hc)
      · intro d hd
        exact (List.mem_cons.1 hd).symm
      · show (s.next :: p.firsts.map Prod.snd).Nodup
        refine List.nodup_cons.2 ⟨?_, ?_⟩
        · intro hmem
          obtain ⟨c, hc, hnext⟩ := List.mem_map.1 hmem
          exact h.ne_next hp (hfirsts c hc) hnext
        · exact (h.nodup pid' p hp).sublist ((List.sublist_append_right _ _).map _)
    · exact ⟨p', hp', rfl, fun _ hd => hd, fun c hc => .inl hc, fun c hc => hc, fun c hc => hc,
        fun d hd => .inl hd, h.nodup pid' p' hp'⟩
  have hold : ∀ pid' p', s.proc pid' = some p' → ∀ c ∈ p'.tries,
      update s.file s.next file c.2 = s.file c.2 := fun pid' p' hp' c hc =>
    update_of_ne (h.ne_next hp' hc) _ _
  exact {
    listed := fun pid' p' hp' => by
      obtain ⟨p₀, hp₀, -⟩ := hback pid' p' hp'
      exact h.listed pid' p₀ hp₀
    bound := fun pid' p' d hp' hd => by
      obtain ⟨p₀, hp₀, -, -, -, -, -, hfds, -⟩ := hback pid' p' hp'
      rcases hfds d hd with hd | rfl
      · exact Nat.lt_succ_of_lt (h.bound pid' p₀ d hp₀ hd)
      · exact Nat.lt_succ_self _
    tries := fun pid' p' c hp' hc => by
      obtain ⟨p₀, hp₀, henv, hfds, htries, -⟩ := hback pid' p' hp'
      rw [henv]
      rcases htries c hc with hc | ⟨-, rfl, hfile', hnext⟩
      · obtain ⟨hd, hpid⟩ := h.tries pid' p₀ c hp₀ hc
        refine ⟨hfds hd, hpid.trans (congrArg some ?_)⟩
        exact (hold pid' p₀ hp₀ c hc).symm
      · exact ⟨hnext, hfile'.trans (by simp [PidFiles.setProc])⟩
    caller := fun pid₁ p₁ pid₂ p₂ c c' hp₁ hp₂ hc hc' heq => by
      obtain ⟨q₁, hq₁, -, -, htries₁, -⟩ := hback pid₁ p₁ hp₁
      obtain ⟨q₂, hq₂, -, -, htries₂, -⟩ := hback pid₂ p₂ hp₂
      rcases htries₁ c hc with hc | ⟨rfl, rfl, -⟩
      · rcases htries₂ c' hc' with hc' | ⟨-, rfl, -⟩
        · exact h.caller pid₁ q₁ pid₂ q₂ c c' hq₁ hq₂ hc hc' heq
        · exact absurd heq (h.ne_next hq₁ hc)
      · rcases htries₂ c' hc' with hc' | ⟨rfl, -⟩
        · exact absurd heq.symm (h.ne_next hq₂ hc')
        · rfl
    nodup := fun pid' p' hp' => by
      obtain ⟨p₀, -, -, -, -, -, -, -, hnodup⟩ := hback pid' p' hp'
      exact hnodup
    has := fun pid' p' c hp' hc => by
      obtain ⟨p₀, hp₀, -, -, -, hhas, -⟩ := hback pid' p' hp'
      have hc' := hhas c hc
      show s.lock (update s.file s.next file c.2) = some c.2
      rw [hold pid' p₀ hp₀ c (has_subset_tries p₀ hc')]
      exact h.has pid' p₀ c hp₀ hc'
    written := fun pid' p' c hp' hc => by
      obtain ⟨p₀, hp₀, -, -, -, -, hfirsts', -⟩ := hback pid' p' hp'
      have hc' := hfirsts' c hc
      show ∃ rest, s.content (update s.file s.next file c.2) = pidLine pid' ++ rest
      rw [hold pid' p₀ hp₀ c (has_subset_tries p₀ (firsts_subset_has p₀ hc'))]
      exact h.written pid' p₀ c hp₀ hc' }

/-- A call that has the lock keeps others from it. -/
theorem LocksKept.isLocked_of_has (h : LocksKept s) {c : List Char × ℕ}
    (hp : s.proc pid = some p) (hc : c ∈ p.has) : s.isLocked (s.file c.2) = true := by
  rw [PidFiles.isLocked, h.has pid p c hp hc]
  show s.isOpen c.2 = true
  refine List.any_eq_true.2 ⟨pid, h.listed pid p hp, ?_⟩
  simpa [hp] using (h.tries pid p c hp (has_subset_tries p hc)).1

/-- The process goes on with the calls that it has. -/
theorem LocksKept.advance {u : PidFiles} (h : LocksKept s) (hp : s.proc pid = some p)
    (henv : p'.env = p.env) (hfds : p'.fds = p.fds) (htries : p'.tries = p.tries)
    (hu : u = { s with lock := u.lock, content := u.content })
    (hhas : ∀ pid₁ p₁ c, (u.setProc pid (some p')).proc pid₁ = some p₁ → c ∈ p₁.has →
      u.lock (s.file c.2) = some c.2)
    (hwritten : ∀ pid₁ p₁ c, (u.setProc pid (some p')).proc pid₁ = some p₁ → c ∈ p₁.firsts →
      ∃ rest, u.content (s.file c.2) = pidLine pid₁ ++ rest) :
    LocksKept (u.setProc pid (some p')) := by
  rw [hu] at hhas hwritten ⊢
  have hback : ∀ pid₁ p₁, (PidFiles.setProc { s with lock := u.lock, content := u.content } pid
      (some p')).proc pid₁ = some p₁ →
      ∃ p₀, s.proc pid₁ = some p₀ ∧ p₁.env = p₀.env ∧ p₁.fds = p₀.fds ∧ p₁.tries = p₀.tries := by
    intro pid₁ p₁ hp₁
    rcases proc_setProc_iff.1 hp₁ with ⟨rfl, hq⟩ | ⟨-, hp₁⟩
    · obtain rfl := Option.some.inj hq
      exact ⟨p, hp, henv, hfds, htries⟩
    · exact ⟨p₁, hp₁, rfl, rfl, rfl⟩
  exact {
    listed := fun pid₁ p₁ hp₁ => by
      obtain ⟨p₀, hp₀, -⟩ := hback pid₁ p₁ hp₁
      exact h.listed pid₁ p₀ hp₀
    bound := fun pid₁ p₁ d hp₁ hd => by
      obtain ⟨p₀, hp₀, -, hfds₀, -⟩ := hback pid₁ p₁ hp₁
      exact h.bound pid₁ p₀ d hp₀ (hfds₀ ▸ hd)
    tries := fun pid₁ p₁ c hp₁ hc => by
      obtain ⟨p₀, hp₀, henv₀, hfds₀, htries₀⟩ := hback pid₁ p₁ hp₁
      rw [henv₀, hfds₀]
      exact h.tries pid₁ p₀ c hp₀ (htries₀ ▸ hc)
    caller := fun pid₁ p₁ pid₂ p₂ c c' hp₁ hp₂ hc hc' heq => by
      obtain ⟨q₁, hq₁, -, -, htries₁⟩ := hback pid₁ p₁ hp₁
      obtain ⟨q₂, hq₂, -, -, htries₂⟩ := hback pid₂ p₂ hp₂
      exact h.caller pid₁ q₁ pid₂ q₂ c c' hq₁ hq₂ (htries₁ ▸ hc) (htries₂ ▸ hc') heq
    nodup := fun pid₁ p₁ hp₁ => by
      obtain ⟨p₀, hp₀, -, -, htries₀⟩ := hback pid₁ p₁ hp₁
      rw [htries₀]
      exact h.nodup pid₁ p₀ hp₀
    has := hhas
    written := hwritten }

theorem LocksKept.locked (h : LocksKept s) (hp : s.proc pid = some p)
    (hstage : p.stage = .opened pre d) (hlock : s.isLocked (s.file d) = false) :
    LocksKept ({ s with lock := update s.lock (s.file d) (some d) }.setProc pid
      (some { p with stage := .locked pre d })) := by
  have hfree : ∀ pid₁ p₁ c, s.proc pid₁ = some p₁ → c ∈ p₁.has → s.file c.2 ≠ s.file d := by
    intro pid₁ p₁ c hp₁ hc heq
    have := h.isLocked_of_has hp₁ hc
    rw [heq, hlock] at this
    cases this
  have hfirsts : ∀ c ∈ p.firsts, c ∈ p.has := fun c hc => firsts_subset_has p hc
  refine h.advance hp ?_ ?_ ?_ ?_ ?_ ?_
  · rfl
  · rfl
  · simp [Instance.tries, hstage, CallStage.tries]
  · rfl
  · intro pid₁ p₁ c hp₁ hc
    show update s.lock (s.file d) (some d) (s.file c.2) = some c.2
    rcases proc_setProc_iff.1 hp₁ with ⟨rfl, hq⟩ | ⟨-, hp₁⟩
    · obtain rfl := Option.some.inj hq
      rcases List.mem_cons.1 hc with rfl | hc
      · exact update_self ..
      · rw [update_of_ne (hfree pid₁ p c hp (hfirsts c hc))]
        exact h.has pid₁ p c hp (hfirsts c hc)
    · rw [update_of_ne (hfree pid₁ p₁ c hp₁ hc)]
      exact h.has pid₁ p₁ c hp₁ hc
  · intro pid₁ p₁ c hp₁ hc
    rcases proc_setProc_iff.1 hp₁ with ⟨rfl, hq⟩ | ⟨-, hp₁⟩
    · obtain rfl := Option.some.inj hq
      exact h.written pid₁ p c hp hc
    · exact h.written pid₁ p₁ c hp₁ hc

theorem LocksKept.write (h : LocksKept s) (hp : s.proc pid = some p)
    (hstage : p.stage = .locked pre d) :
    LocksKept ((s.writePid (s.file d) pid).setProc pid
      (some { p with stage := .idle, firsts := (pre, d) :: p.firsts })) := by
  have hhas : p.has = (pre, d) :: p.firsts := by simp [Instance.has, hstage, CallStage.has]
  have hlock : s.lock (s.file d) = some d :=
    h.has pid p (pre, d) hp (hhas ▸ List.mem_cons_self)
  -- whoever was told to be first on the file is the process that writes
  have hmine : ∀ pid₁ p₁ c, s.proc pid₁ = some p₁ → c ∈ p₁.has → s.file c.2 = s.file d →
      pid₁ = pid := by
    intro pid₁ p₁ c hp₁ hc heq
    have hc' := h.has pid₁ p₁ c hp₁ hc
    rw [heq, hlock] at hc'
    exact h.caller pid₁ p₁ pid p c (pre, d) hp₁ hp (has_subset_tries p₁ hc)
      (has_subset_tries p (hhas ▸ List.mem_cons_self)) (Option.some.inj hc').symm
  have hcontent : ∀ pid₁ file, (file = s.file d → pid₁ = pid) →
      (file ≠ s.file d → ∃ rest, s.content file = pidLine pid₁ ++ rest) →
      ∃ rest, (s.writePid (s.file d) pid).content file = pidLine pid₁ ++ rest := by
    intro pid₁ file hpid hkept
    by_cases hne : file = s.file d
    · subst hne
      rw [hpid rfl]
      exact ⟨_, update_self ..⟩
    · obtain ⟨rest, hrest⟩ := hkept hne
      exact ⟨rest, (update_of_ne hne _ _).trans hrest⟩
  refine h.advance hp ?_ ?_ ?_ ?_ ?_ ?_
  · rfl
  · rfl
  · simp [Instance.tries, hstage, CallStage.tries]
  · rfl
  · intro pid₁ p₁ c hp₁ hc
    rcases proc_setProc_iff.1 hp₁ with ⟨rfl, hq⟩ | ⟨-, hp₁⟩
    · obtain rfl := Option.some.inj hq
      exact h.has pid₁ p c hp (hhas ▸ hc)
    · exact h.has pid₁ p₁ c hp₁ hc
  · intro pid₁ p₁ c hp₁ hc
    apply hcontent
    · intro heq
      rcases proc_setProc_iff.1 hp₁ with ⟨rfl, -⟩ | ⟨-, hp₁⟩
      · rfl
      · exact hmine pid₁ p₁ c hp₁ (firsts_subset_has p₁ hc) heq
    · intro hne
      rcases proc_setProc_iff.1 hp₁ with ⟨rfl, hq⟩ | ⟨-, hp₁⟩
      · obtain rfl := Option.some.inj hq
        rcases List.mem_cons.1 hc with rfl | hc
        · exact absurd rfl hne
        · exact h.written pid₁ p c hp hc
      · exact h.written pid₁ p₁ c hp₁ hc

theorem LocksKept.step (h : LocksKept s) (ha : pidFileStep s a = some t) : LocksKept t := by
  cases pidFileTrans_of_step ha with
  | start hfree => exact h.newProc rfl rfl (by simp)
  | fork hp hfree => exact h.newProc rfl rfl fun d hd => h.bound _ _ d hp hd
  | exit | died => exact h.drop (by simp)
  | noFile => exact h
  | opened hp hfile => exact h.opened hp hfile
  | locked hp hstage hlock => exact h.locked hp hstage hlock
  | @refused pid p a hp =>
    exact h.drop fun p' hq => ⟨p, hp, by simp [← Option.some.inj hq]⟩
  | written hp hstage => exact h.write hp hstage

theorem locksKept_run (h : run pidFileStep {} as = some s) : LocksKept s :=
  run_invariant (fun _ _ _ h ha => h.step ha)
    ⟨by simp, by simp, by simp, by simp, by simp, by simp, by simp⟩ h

/-! ## Who is first -/

/-- **One first instance per file**, and one call of it. -/
theorem one_first_instance_per_file (h : run pidFileStep {} as = some s)
    (hp : s.proc pid = some p) (hp' : s.proc pid' = some p') {c c' : List Char × ℕ}
    (hc : c ∈ p.firsts) (hc' : c' ∈ p'.firsts) (hfile : s.file c.2 = s.file c'.2) :
    pid = pid' ∧ c = c' := by
  have hkept := locksKept_run h
  have hsub : ∀ p : Instance, p.firsts ⊆ p.tries := fun p _ hc => List.mem_append_right _ hc
  have hlock := hkept.has pid p c hp (firsts_subset_has p hc)
  have hlock' := hkept.has pid' p' c' hp' (firsts_subset_has p' hc')
  have hd : c.2 = c'.2 := by
    rw [hfile, hlock'] at hlock
    exact (Option.some.inj hlock).symm
  obtain rfl := hkept.caller pid p pid' p' c c' hp hp' (hsub p hc) (hsub p' hc') hd
  cases hp.symm.trans hp'
  exact ⟨rfl, List.inj_on_of_nodup_map (hkept.nodup pid p hp) (hsub p hc) (hsub p hc') hd⟩

/-- Process 12345 was the first instance and is gone; 7 is the first instance now, and 8 asked
after that. -/
def succession : List PidFileAct :=
  [.start 12345 { openFile := fun _ => some 0 }, .call 12345 (.openPidFile "etl".toList),
    .call 12345 .flock, .call 12345 (.write false), .exit 12345,
    .start 7 { openFile := fun _ => some 0 }, .call 7 (.openPidFile "etl".toList),
    .call 7 .flock, .call 7 (.write false),
    .start 8 { openFile := fun _ => some 0 }, .call 8 (.openPidFile "etl".toList)]

/-- **One first instance per name**, among processes for which the name means the same file. -/
theorem one_first_instance_per_name (h : run pidFileStep {} as = some s)
    (hp : s.proc pid = some p) (hp' : s.proc pid' = some p') {d' : ℕ}
    (hc : (pre, d) ∈ p.firsts) (hc' : (pre, d') ∈ p'.firsts)
    (hsame : ∀ path ∈ p.env.candidates pre, p.env.openFile path = p'.env.openFile path)
    (hcand : p.env.candidates pre = p'.env.candidates pre) : pid = pid' ∧ d = d' := by
  have hkept := locksKept_run h
  have hsub : ∀ p : Instance, p.firsts ⊆ p.tries := fun p _ hc => List.mem_append_right _ hc
  have hfile := (hkept.tries pid p _ hp (hsub p hc)).2
  have hfile' := (hkept.tries pid' p' _ hp' (hsub p' hc')).2
  have hpid : p.env.pidFile pre = p'.env.pidFile pre := by
    rw [PidFileEnv.pidFile, PidFileEnv.pidFile, ← hcand]
    exact findSome?_congr_of_mem hsame
  have := one_first_instance_per_file h hp hp' hc hc'
    (Option.some.inj ((hfile.symm.trans hpid).trans hfile'))
  exact ⟨this.1, congrArg Prod.snd this.2⟩

/-- While process 7 lives, nobody else with its candidates is told to be the first. -/
theorem one_first_instance_per_name_succession :
    ∃ s, run pidFileStep {} succession = some s ∧ ∀ pid p d, s.proc pid = some p →
      p.env = { openFile := fun _ => some 0 } → ("etl".toList, d) ∈ p.firsts → 7 = pid := by
  have hrun : run pidFileStep {} succession = some ((run pidFileStep {} succession).getD {}) := rfl
  have hp : ((run pidFileStep {} succession).getD {}).proc 7 = some _ := rfl
  refine ⟨_, hrun, fun pid p d hp' henv hd => ?_⟩
  exact (one_first_instance_per_name hrun hp hp' (.head _) hd (by simp [henv]) (by simp [henv])).1

/-- **The pid file names the first instance.** -/
theorem pid_file_names_first_instance (h : run pidFileStep {} as = some s)
    (hp : s.proc pid = some p) {c : List Char × ℕ} (hc : c ∈ p.firsts) :
    scanNat (s.content (s.file c.2)) = pid := by
  obtain ⟨rest, hrest⟩ := (locksKept_run h).written pid p c hp hc
  rw [hrest, pidLine, List.append_assoc]
  exact scanNat_toDigits_append pid _ (by simp)

/-- The longer pid of the predecessor leaves three digits in the second line. -/
theorem pid_file_names_first_instance_succession :
    ∃ s, run pidFileStep {} succession = some s ∧ s.content 0 = "7\n345\n".toList ∧
      scanNat (s.content 0) = 7 := by
  have hrun : run pidFileStep {} succession = some ((run pidFileStep {} succession).getD {}) := rfl
  have hp : ((run pidFileStep {} succession).getD {}).proc 7 = some _ := rfl
  have hfirst := pid_file_names_first_instance (c := ("etl".toList, 1)) hrun hp (.head _)
  exact ⟨_, hrun, rfl, hfirst⟩

/-! ## How long the lock is kept -/

/-- Some live process has the description open. -/
def PidFiles.HasOpen (s : PidFiles) (d : ℕ) : Prop := ∃ pid p, s.proc pid = some p ∧ d ∈ p.fds

theorem LocksKept.isOpen_iff (h : LocksKept s) (d : ℕ) : s.isOpen d = true ↔ s.HasOpen d := by
  refine ⟨?_, ?_⟩
  · intro hopen
    obtain ⟨pid, -, hany⟩ := List.any_eq_true.1 hopen
    obtain ⟨p, hp, hmem⟩ := (Option.any_eq_true _ _).1 hany
    exact ⟨pid, p, hp, of_decide_eq_true hmem⟩
  · rintro ⟨pid, p, hp, hmem⟩
    refine List.any_eq_true.2 ⟨pid, h.listed pid p hp, ?_⟩
    simpa [hp] using hmem

theorem LocksKept.isLocked (h : LocksKept s) {file : ℕ} (hlock : s.lock file = some d)
    (hopen : s.HasOpen d) : s.isLocked file = true := by
  rw [PidFiles.isLocked, hlock]
  exact (h.isOpen_iff d).2 hopen

/-- No process gets a description that was opened before but by being forked from one that has it
open. -/
theorem hasOpen_step (ha : pidFileStep s a = some t) (hd : d < s.next) (hopen : t.HasOpen d) :
    s.HasOpen d := by
  obtain ⟨pid', p', hp', hmem⟩ := hopen
  have hset : ∀ {u : PidFiles} {pid q}, u.proc = s.proc → (u.setProc pid q).proc pid' = some p' →
      (∀ p₁, q = some p₁ → ∃ p, s.proc pid = some p ∧ (d ∈ p₁.fds → d ∈ p.fds)) →
      s.HasOpen d := by
    intro u pid q hu hproc hq
    rcases proc_setProc_iff.1 hproc with ⟨rfl, hq'⟩ | ⟨-, hproc⟩
    · obtain ⟨p, hp, hfds⟩ := hq p' hq'
      exact ⟨pid', p, hp, hfds hmem⟩
    · exact ⟨pid', p', hu ▸ hproc, hmem⟩
  cases pidFileTrans_of_step ha with
  | @start pid env hfree =>
    rcases (proc_setProc_iff (q := some _)).1 hp' with ⟨rfl, hq⟩ | ⟨-, hp'⟩
    · cases hq
      cases hmem
    · exact ⟨pid', p', hp', hmem⟩
  | @fork pid child p hp hfree =>
    rcases (proc_setProc_iff (q := some _)).1 hp' with ⟨rfl, hq⟩ | ⟨-, hp'⟩
    · cases hq
      exact ⟨pid, p, hp, hmem⟩
    · exact ⟨pid', p', hp', hmem⟩
  | exit | died => exact hset rfl hp' (by simp)
  | noFile => exact ⟨pid', p', hp', hmem⟩
  | @opened pid p pre file hp hfile =>
    refine hset rfl hp' fun p₁ hq => ⟨p, hp, fun hmem => ?_⟩
    cases hq
    exact (List.mem_cons.1 hmem).resolve_left (Nat.ne_of_lt hd)
  | @locked pid p pre d' hp hstage hlock | @refused pid p a hp | @written pid p pre d' hp hstage =>
    refine hset rfl hp' fun p₁ hq => ⟨p, hp, fun hmem => ?_⟩
    cases hq
    exact hmem

/-- The lock of the file is with the description that a call of the process opened. -/
structure KeepsLock (pid d file : ℕ) (s : PidFiles) : Prop where
  kept : LocksKept s
  bound : d < s.next
  file_eq : s.file d = file
  lock : s.HasOpen d → s.lock file = some d
  caller : ∀ pid' p c, s.proc pid' = some p → c ∈ p.tries → c.2 = d → pid' = pid

theorem KeepsLock.step {file : ℕ} (h : KeepsLock pid d file s) (ha : pidFileStep s a = some t) :
    KeepsLock pid d file t := by
  have hopen : t.HasOpen d → s.lock file = some d := fun hopen =>
    h.lock (hasOpen_step ha h.bound hopen)
  have hkept := h.kept.step ha
  have hset : ∀ {u : PidFiles} {pid₁ q pid' p'}, u.proc = s.proc →
      (u.setProc pid₁ q).proc pid' = some p' →
      (∀ p₁, q = some p₁ → ∃ p, s.proc pid₁ = some p ∧ ∀ c ∈ p₁.tries, c.2 = d → c ∈ p.tries) →
      ∀ c ∈ p'.tries, c.2 = d → pid' = pid := by
    intro u pid₁ q pid' p' hu hproc hq c hc hcd
    rcases proc_setProc_iff.1 hproc with ⟨rfl, hq'⟩ | ⟨-, hproc⟩
    · obtain ⟨p, hp, htries⟩ := hq p' hq'
      exact h.caller pid' p c hp (htries c hc hcd) hcd
    · exact h.caller pid' p' c (hu ▸ hproc) hc hcd
  cases pidFileTrans_of_step ha with
  | start hfree | fork hp hfree =>
    refine ⟨hkept, h.bound, h.file_eq, hopen, fun pid' p' c hp' hc hcd => ?_⟩
    rcases (proc_setProc_iff (q := some _)).1 hp' with ⟨rfl, hq⟩ | ⟨-, hp'⟩
    · cases hq
      cases hc
    · exact h.caller pid' p' c hp' hc hcd
  | exit | died =>
    exact ⟨hkept, h.bound, h.file_eq, hopen, fun pid' p' c hp' => hset rfl hp' (by simp) c⟩
  | noFile => exact ⟨hkept, h.bound, h.file_eq, hopen, h.caller⟩
  | @opened pid₁ p pre file' hp hfile =>
    refine ⟨hkept, Nat.lt_succ_of_lt h.bound, ?_, hopen, fun pid' p' c hp' => hset rfl hp' ?_ c⟩
    · exact (update_of_ne (Nat.ne_of_lt h.bound) _ _).trans h.file_eq
    · intro p₁ hq
      cases hq
      refine ⟨p, hp, fun c hc hcd => ?_⟩
      rcases List.mem_cons.1 hc with rfl | hc
      · exact absurd hcd (Nat.ne_of_gt h.bound)
      · exact List.mem_append_right _ hc
  | @locked pid₁ p pre d' hp hstage hlock =>
    refine ⟨hkept, h.bound, h.file_eq, fun ht => ?_, fun pid' p' c hp' => hset rfl hp' ?_ c⟩
    · have hold := hasOpen_step ha h.bound ht
      have hne : file ≠ s.file d' := by
        rintro rfl
        rw [h.kept.isLocked (h.lock hold) hold] at hlock
        cases hlock
      exact (update_of_ne hne _ _).trans (h.lock hold)
    · intro p₁ hq
      cases hq
      exact ⟨p, hp, fun c hc _ => by simpa [Instance.tries, hstage, CallStage.tries] using hc⟩
  | @refused pid₁ p a hp =>
    refine ⟨hkept, h.bound, h.file_eq, hopen, fun pid' p' c hp' => hset rfl hp' ?_ c⟩
    intro p₁ hq
    cases hq
    exact ⟨p, hp, fun c hc _ => List.mem_append_right _ hc⟩
  | @written pid₁ p pre d' hp hstage =>
    refine ⟨hkept, h.bound, h.file_eq, hopen, fun pid' p' c hp' => hset rfl hp' ?_ c⟩
    intro p₁ hq
    cases hq
    exact ⟨p, hp, fun c hc _ => by simpa [Instance.tries, hstage, CallStage.tries] using hc⟩

/-- **The lock outlives its taker.** As long as the process that was told to be the first lives, or
one that was forked from it and has its descriptor, every other call on the file is refused and
nobody else is the first on it. -/
theorem lock_outlives_taker {before : List PidFileAct} (h : run pidFileStep {} before = some s)
    (hp : s.proc pid = some p) {c : List Char × ℕ} (hc : c ∈ p.firsts)
    (h' : run pidFileStep s as = some t) (hopen : t.HasOpen c.2) :
    (∀ pid' p' pre' d', t.proc pid' = some p' → p'.stage = .opened pre' d' →
      t.file d' = s.file c.2 →
      pidFileStep t (.call pid' .flock) = some (t.setProc pid' (some { p' with stage := .idle }))) ∧
    ∀ pid' p' c', t.proc pid' = some p' → c' ∈ p'.firsts → t.file c'.2 = s.file c.2 →
      pid' = pid ∧ c'.2 = c.2 := by
  have hkept := locksKept_run h
  have hhas := firsts_subset_has p hc
  have htries := has_subset_tries p hhas
  have hstart : KeepsLock pid c.2 (s.file c.2) s :=
    ⟨hkept, hkept.bound pid p c.2 hp (hkept.tries pid p c hp htries).1, rfl,
      fun _ => hkept.has pid p c hp hhas,
      fun pid' p' c' hp' hc' hd => hkept.caller pid' p' pid p c' c hp' hp hc' htries hd⟩
  have hend : KeepsLock pid c.2 (s.file c.2) t :=
    run_invariant (fun _ _ _ hs ha => KeepsLock.step hs ha) hstart h'
  refine ⟨fun pid' p' pre' d' hp' hstage hfile => ?_, fun pid' p' c' hp' hc' hfile => ?_⟩
  · have hlocked := hend.kept.isLocked (hend.lock hopen) hopen
    simp only [pidFileStep, hp', Option.bind_some, callStep, hstage, hfile, hlocked, if_true]
  · have hhas' := firsts_subset_has p' hc'
    have hlock := hend.kept.has pid' p' c' hp' hhas'
    rw [hfile, hend.lock hopen] at hlock
    have hd := (Option.some.inj hlock).symm
    exact ⟨hend.caller pid' p' c' hp' (has_subset_tries p' hhas') hd, hd⟩

/-- Process 7 forks 9 and is gone; 8 is not the first, as 9 has the descriptor of 7. -/
theorem lock_outlives_taker_fork :
    ∃ s t u, run pidFileStep {} succession = some s ∧
      run pidFileStep s [.fork 7 9, .exit 7] = some t ∧ t.proc 7 = none ∧
      pidFileStep t (.call 8 .flock) = some u ∧ (u.proc 8).map Instance.stage = some .idle := by
  have hbefore : run pidFileStep {} succession =
    some ((run pidFileStep {} succession).getD {}) := rfl
  have hp : ((run pidFileStep {} succession).getD {}).proc 7 = some _ := rfl
  have hrun : run pidFileStep ((run pidFileStep {} succession).getD {}) [.fork 7 9, .exit 7] =
    some _ := rfl
  have hlock := (lock_outlives_taker hbefore hp (.head _) hrun ⟨9, _, rfl, .head _⟩).1 8 _ _ _
    rfl rfl rfl
  exact ⟨_, _, _, hbefore, hrun, rfl, hlock, rfl⟩

end Invariant

end Spartan
