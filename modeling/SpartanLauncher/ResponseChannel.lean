import SpartanLauncher.Lib.Scoped

/-!
# The response channel

The process that carries out a sub-command makes one pipe for its output, or three pipes when the
client takes part in the input as well. It keeps the ends that it uses, sends its pid and the
number of descriptors to the client's socket, and then the other ends as ancillary data.

The functions hold descriptors in smart pointers, so every way out closes what is not handed on.
-/

namespace Spartan

open Scoped

/-! ## Descriptors and datagrams -/

/-- What a descriptor refers to. -/
inductive FdObject where
  | socket
  | pipeEnd (pipe : ℕ) (writeEnd : Bool)
  | other (id : ℕ)
  deriving DecidableEq

inductive Datagram where
  /-- `pid_buffer_t`. -/
  | pidBuffer (pid fdRtnCount : ℕ)
  /-- A message without data whose control message is of the type `SCM_RIGHTS`. -/
  | rights (objects : List FdObject)
  deriving DecidableEq

/-- `sizeof(pipe_fds_buffer_t)` and `sizeof(pipes_fds_buffer_t)` for 1 and 3 descriptors: a
`cmsghdr` of 16 bytes and the descriptors, in a union that is aligned like the `cmsghdr` to 8. -/
def sizeofPayload (n : ℕ) : ℕ := (16 + 4 * n + 7) / 8 * 8

/-- How many descriptors the kernel finds in a control message of this length. -/
def cmsgFdCount (cmsgLen : ℕ) : ℕ := (cmsgLen - 16) / 4

/-- The descriptors in a payload: those that were put there, and the bytes behind them, which
`memset` made 0. -/
def payloadFds (fds : List ℕ) : List ℕ :=
  fds ++ List.replicate (cmsgFdCount (sizeofPayload fds.length) - fds.length) 0

/-! ## The process that responds -/

structure Responder where
  fds : List (Option FdObject) := []
  nextPipe : ℕ := 0
  /-- What arrived at the client's socket. -/
  delivered : List Datagram := []
  /-- Which of the next system calls fail. -/
  fails : List Bool := []

inductive OpenPipeError where
  /-- `create_uds_socket_exception`. -/
  | createUdsSocket
  /-- `open_write_pipe_exception`, of `pipe`, `sendto` and `sendmsg`. -/
  | pipe
  | sendto
  | sendmsg
  deriving DecidableEq

abbrev Responding := ExceptT OpenPipeError (StateM Responder)

/-- A system call that may fail without an effect. -/
def syscall {α : Type} (error : OpenPipeError) (effect : Responder → α × Responder) :
    Responding α :=
  ExceptT.mk fun k =>
    let k' := { k with fails := k.fails.tail }
    if k.fails.head? = some true then (.error error, k')
    else ((.ok (effect k').1 : Except OpenPipeError α), (effect k').2)

def closeFd (fd : ℕ) (k : Responder) : Responder := { k with fds := free fd k.fds }

def createUdsSocket : Responding ℕ :=
  syscall .createUdsSocket fun k => (firstFree k.fds, { k with fds := alloc .socket k.fds })

/-- The end for reading and the end for writing. -/
def makeAnonPipe : Responding (ℕ × ℕ) :=
  syscall .pipe fun k =>
    let fds := alloc (.pipeEnd k.nextPipe false) k.fds
    ((firstFree k.fds, firstFree fds),
      { k with fds := alloc (.pipeEnd k.nextPipe true) fds, nextPipe := k.nextPipe + 1 })

def sendPidAndFdCount (pid fdsCount : ℕ) : Responding Unit :=
  syscall .sendto fun k => ((), { k with delivered := k.delivered ++ [.pidBuffer pid fdsCount] })

/-- `sendmsg`, which fails with `EBADF` when a descriptor of the payload is not open. -/
def sendRights (fds : List ℕ) : Responding Unit := do
  let objects ← syscall .sendmsg fun k => ((payloadFds fds).mapM (slot k.fds), k)
  match objects with
  | none => throw .sendmsg
  | some objects =>
    modify fun k => { k with delivered := k.delivered ++ [.rights objects] }

/-- `open_write_anon_pipe`. -/
def openWriteAnonPipe (pid : ℕ) : Responding ℕ := do
  let socketFd ← createUdsSocket
  guarded (closeFd socketFd) do
    let (rdrRd, rdrWr) ← makeAnonPipe
    guarded (closeFd rdrRd) <| guardedOnError (closeFd rdrWr) do
      sendPidAndFdCount pid 1
      sendRights [rdrRd]
      return rdrWr

/-- `open_react_anon_pipes`. -/
def openReactAnonPipes (pid : ℕ) : Responding (ℕ × ℕ × ℕ) := do
  let socketFd ← createUdsSocket
  guarded (closeFd socketFd) do
    let (rdrRd, rdrWr) ← makeAnonPipe
    guarded (closeFd rdrRd) <| guardedOnError (closeFd rdrWr) do
      let (errRd, errWr) ← makeAnonPipe
      guarded (closeFd errRd) <| guardedOnError (closeFd errWr) do
        let (wrtRd, wrtWr) ← makeAnonPipe
        guarded (closeFd wrtWr) <| guardedOnError (closeFd wrtRd) do
          sendPidAndFdCount pid 3
          sendRights [rdrRd, errRd, wrtWr]
          return (rdrWr, errWr, wrtRd)

/-! ## What the system calls do -/

/-- The object of descriptor 0 once the socket is there. -/
def stdinObject (k₀ : Responder) : FdObject := (slot k₀.fds 0).getD .socket

/-- The process has `own` in addition to what it had, made `n` pipes, and sent `sent`. -/
structure Holding (k₀ : Responder) (own : List (ℕ × FdObject)) (n : ℕ) (sent : List Datagram)
    (k : Responder) : Prop where
  adds : Adds (slot k₀.fds) (slot k.fds) own
  nextPipe : k.nextPipe = k₀.nextPipe + n
  delivered : k.delivered = k₀.delivered ++ sent
  stdin : slot k.fds 0 = some (stdinObject k₀)

/-- On the way out of a function that fails: the pid may have been sent. -/
structure Failing (k₀ : Responder) (pid count : ℕ) (own : List (ℕ × FdObject)) (k : Responder) :
    Prop where
  adds : Adds (slot k₀.fds) (slot k.fds) own
  delivered : k.delivered = k₀.delivered ∨ k.delivered = k₀.delivered ++ [.pidBuffer pid count]

section Calls

variable {k₀ k : Responder} {own : List (ℕ × FdObject)} {n pid count fd : ℕ} {o : FdObject}
  {sent : List Datagram} {α : Type}

theorem Failing.close (pre : List (ℕ × FdObject))
    (h : Failing k₀ pid count (pre ++ (fd, o) :: own) k) :
    Failing k₀ pid count (pre ++ own) (closeFd fd k) where
  adds := by
    rw [closeFd, slot_free]
    exact h.adds.release pre
  delivered := h.delivered

theorem syscall_triple {error : OpenPipeError} {effect : Responder → α × Responder}
    {P : Responder → Prop} {Q : α → Responder → Prop}
    (hP : ∀ k fails, P k → P { k with fails := fails })
    (hQ : ∀ k, P k → Q (effect k).1 (effect k).2) : Triple P (syscall error effect) Q P := by
  intro k hk
  have hk' := hP k k.fails.tail hk
  by_cases hfail : k.fails.head? = some true
  · simpa [syscall, hfail, ExceptT.run, ExceptT.mk] using hk'
  · simpa [syscall, hfail, ExceptT.run, ExceptT.mk] using hQ _ hk'

theorem createUdsSocket_triple (k₀ : Responder) :
    Triple (fun k => ∃ fails, k = { k₀ with fails := fails }) createUdsSocket
      (fun fd k => Holding k₀ [(fd, .socket)] 0 [] k)
      (fun k => ∃ fails, k = { k₀ with fails := fails }) := by
  apply syscall_triple
  · intro _ fails h
    obtain ⟨_, rfl⟩ := h
    exact ⟨fails, rfl⟩
  · intro _ h
    obtain ⟨fails, rfl⟩ := h
    refine ⟨adds_alloc, rfl, (List.append_nil _).symm, ?_⟩
    show slot (alloc .socket k₀.fds) 0 = some (stdinObject k₀)
    rw [slot_alloc, stdinObject]
    cases hfree : k₀.fds with
    | nil => simp [firstFree, slot]
    | cons x fds => cases x <;> simp [firstFree, slot]

theorem makeAnonPipe_triple :
    Triple (Holding k₀ own n sent) makeAnonPipe
      (fun fds k => Holding k₀ ((fds.2, .pipeEnd (k₀.nextPipe + n) true) ::
        (fds.1, .pipeEnd (k₀.nextPipe + n) false) :: own) (n + 1) sent k)
      (Holding k₀ own n sent) := by
  apply syscall_triple
  · intro k fails h
    obtain ⟨hadds, hnext, hsent, hstdin⟩ := h
    exact ⟨hadds, hnext, hsent, hstdin⟩
  · intro k h
    obtain ⟨hadds, hnext, hsent, hstdin⟩ := h
    rw [← hnext]
    refine ⟨?_, ?_, hsent, ?_⟩
    · exact (hadds.trans adds_alloc).trans adds_alloc
    · show k.nextPipe + 1 = k₀.nextPipe + (n + 1)
      omega
    · exact adds_alloc.kept (adds_alloc.kept hstdin)

theorem sendPidAndFdCount_triple :
    Triple (Holding k₀ own n []) (sendPidAndFdCount pid count)
      (fun _ k => Holding k₀ own n [.pidBuffer pid count] k) (Holding k₀ own n []) := by
  apply syscall_triple
  · intro k fails h
    obtain ⟨hadds, hnext, hsent, hstdin⟩ := h
    exact ⟨hadds, hnext, hsent, hstdin⟩
  · intro k h
    obtain ⟨hadds, hnext, hsent, hstdin⟩ := h
    refine ⟨hadds, hnext, ?_, hstdin⟩
    show k.delivered ++ [.pidBuffer pid count] = _
    rw [hsent, List.append_nil]

/-- With 1 or 3 descriptors, the payload has descriptor 0 behind them. -/
theorem payloadFds_eq {fds : List ℕ} (h : fds.length = 1 ∨ fds.length = 3) :
    payloadFds fds = fds ++ [0] := by
  rcases h with h | h <;> rw [payloadFds, h] <;> rfl

theorem mapM_slot {fds : List ℕ} {objects : List FdObject} {v : ℕ → Option FdObject}
    (h : List.Forall₂ (fun fd o => v fd = some o) fds objects) : fds.mapM v = some objects := by
  induction h with
  | nil => rfl
  | cons hfd _ ih => simp [hfd, ih]

theorem sendRights_triple {fds : List ℕ} {objects : List FdObject}
    (hlen : fds.length = 1 ∨ fds.length = 3)
    (hown : List.Forall₂ (fun fd o => (fd, o) ∈ own) fds objects) :
    Triple (Holding k₀ own n sent) (sendRights fds)
      (fun _ k => Holding k₀ own n (sent ++ [.rights (objects ++ [stdinObject k₀])]) k)
      (Holding k₀ own n sent) := by
  apply Triple.bind (Q := fun r k => r = some (objects ++ [stdinObject k₀]) ∧
    Holding k₀ own n sent k)
  · apply syscall_triple
    · intro k fails h
      obtain ⟨hadds, hnext, hsent, hstdin⟩ := h
      exact ⟨hadds, hnext, hsent, hstdin⟩
    · intro k h
      obtain ⟨hadds, hnext, hsent, hstdin⟩ := h
      refine ⟨?_, hadds, hnext, hsent, hstdin⟩
      rw [payloadFds_eq hlen]
      apply mapM_slot
      refine List.rel_append (hown.imp fun fd o hmem => hadds.lookup hmem) ?_
      exact .cons hstdin .nil
  · intro r k h
    obtain ⟨rfl, hadds, hnext, hsent, hstdin⟩ := h
    refine ⟨hadds, hnext, ?_, hstdin⟩
    show k.delivered ++ [.rights _] = _
    rw [hsent, List.append_assoc]

/-- Before the pid was sent. -/
theorem Holding.failing (h : Holding k₀ own n [] k) : Failing k₀ pid count own k :=
  ⟨h.adds, .inl (h.delivered.trans (List.append_nil _))⟩

/-- After the pid was sent. -/
theorem Holding.failing_pid (h : Holding k₀ own n [.pidBuffer pid count] k) :
    Failing k₀ pid count own k := ⟨h.adds, .inr h.delivered⟩

/-- What the function leaves when it succeeds: the descriptors in `own`, and two datagrams. -/
structure Responded (k₀ : Responder) (pid count : ℕ) (own : List (ℕ × FdObject))
    (objects : List FdObject) (k : Responder) : Prop where
  adds : Adds (slot k₀.fds) (slot k.fds) own
  delivered : k.delivered = k₀.delivered ++
    [.pidBuffer pid count, .rights (objects ++ [stdinObject k₀])]

theorem Responded.close {objects : List FdObject} (pre : List (ℕ × FdObject))
    (h : Responded k₀ pid count (pre ++ (fd, o) :: own) objects k) :
    Responded k₀ pid count (pre ++ own) objects (closeFd fd k) where
  adds := by
    rw [closeFd, slot_free]
    exact h.adds.release pre
  delivered := h.delivered

/-- The two datagrams, whatever the function holds meanwhile. -/
theorem respond_triple {fds : List ℕ} {objects : List FdObject} {a : α}
    (hlen : fds.length = 1 ∨ fds.length = 3)
    (hown : List.Forall₂ (fun fd o => (fd, o) ∈ own) fds objects) :
    Triple (Holding k₀ own n [])
      (do sendPidAndFdCount pid fds.length; sendRights fds; return a)
      (fun r k => r = a ∧ Responded k₀ pid fds.length own objects k)
      (Failing k₀ pid fds.length own) := by
  apply Triple.bind
  · exact sendPidAndFdCount_triple.consequence (fun _ h => h) (fun _ _ h => h)
      fun _ h => h.failing
  · intro _
    apply Triple.bind
    · exact (sendRights_triple hlen hown).consequence (fun _ h => h) (fun _ _ h => h)
        fun _ h => h.failing_pid
    · intro _
      exact Triple.pure fun k h => ⟨rfl, h.adds, h.delivered⟩

/-! ## The two functions -/

/-- A new pipe, with what is done when it cannot be made. -/
theorem makeAnonPipe_bind {q : ℕ × ℕ → Responding α} {Q : α → Responder → Prop}
    {E : Responder → Prop}
    (hE : ∀ k, Failing k₀ pid count own k → E k)
    (hq : ∀ rd wr, Triple (Holding k₀ ((wr, .pipeEnd (k₀.nextPipe + n) true) ::
      (rd, .pipeEnd (k₀.nextPipe + n) false) :: own) (n + 1) []) (q (rd, wr)) Q E) :
    Triple (Holding k₀ own n []) (makeAnonPipe >>= q) Q E :=
  (makeAnonPipe_triple.consequence (fun _ h => h) (fun _ _ h => h) fun k h => hE k h.failing).bind
    fun fds => hq fds.1 fds.2

theorem createUdsSocket_bind {q : ℕ → Responding α} {Q : α → Responder → Prop}
    (hq : ∀ fd, Triple (Holding k₀ [(fd, .socket)] 0 []) (q fd) Q (Failing k₀ pid count [])) :
    Triple (fun k => k = k₀) (createUdsSocket >>= q) Q (Failing k₀ pid count []) := by
  refine Triple.bind ((createUdsSocket_triple k₀).consequence ?_ (fun _ _ h => h) ?_) hq
  · intro k h
    subst h
    exact ⟨k.fails, rfl⟩
  · intro _ h
    obtain ⟨fails, rfl⟩ := h
    exact ⟨.refl _, .inl rfl⟩

/-- `open_write_anon_pipe` keeps the writing end of a new pipe, or nothing. -/
theorem openWriteAnonPipe_triple (k₀ : Responder) (pid : ℕ) :
    Triple (fun k => k = k₀) (openWriteAnonPipe pid)
      (fun fd k => Responded k₀ pid 1 [(fd, .pipeEnd k₀.nextPipe true)]
        [.pipeEnd k₀.nextPipe false] k)
      (Failing k₀ pid 1 []) := by
  refine createUdsSocket_bind fun socketFd => ?_
  apply Triple.guarded
  refine makeAnonPipe_bind (fun k hk => hk.close []) fun rdrRd rdrWr => ?_
  apply Triple.guarded
  apply Triple.guardedOnError
  refine (respond_triple (.inl rfl) (.cons (.tail _ (.head _)) .nil)).consequence (fun _ h => h)
    ?_ ?_
  · intro _ k h
    obtain ⟨rfl, hk⟩ := h
    exact (hk.close [_]).close [_]
  · intro k hk
    exact ((hk.close []).close []).close []

/-- `open_react_anon_pipes` keeps two writing ends and one reading end of three new pipes, or
nothing. -/
theorem openReactAnonPipes_triple (k₀ : Responder) (pid : ℕ) :
    Triple (fun k => k = k₀) (openReactAnonPipes pid)
      (fun fds k => Responded k₀ pid 3
        [(fds.2.2, .pipeEnd (k₀.nextPipe + 2) false), (fds.2.1, .pipeEnd (k₀.nextPipe + 1) true),
          (fds.1, .pipeEnd k₀.nextPipe true)]
        [.pipeEnd k₀.nextPipe false, .pipeEnd (k₀.nextPipe + 1) false,
          .pipeEnd (k₀.nextPipe + 2) true] k)
      (Failing k₀ pid 3 []) := by
  refine createUdsSocket_bind fun socketFd => ?_
  apply Triple.guarded
  refine makeAnonPipe_bind (fun k hk => hk.close []) fun rdrRd rdrWr => ?_
  apply Triple.guarded
  apply Triple.guardedOnError
  refine makeAnonPipe_bind (fun k hk => ((hk.close []).close []).close []) fun errRd errWr => ?_
  apply Triple.guarded
  apply Triple.guardedOnError
  refine makeAnonPipe_bind
    (fun k hk => ((((hk.close []).close []).close []).close []).close []) fun wrtRd wrtWr => ?_
  apply Triple.guarded
  apply Triple.guardedOnError
  -- held now: `wrtWr`, `wrtRd`, `errWr`, `errRd`, `rdrWr`, `rdrRd` and the socket
  refine (respond_triple (.inr rfl)
    (.cons (.tail _ (.tail _ (.tail _ (.tail _ (.tail _ (.head _))))))
      (.cons (.tail _ (.tail _ (.tail _ (.head _)))) (.cons (.head _) .nil)))).consequence
    (fun _ h => h) ?_ ?_
  · intro _ k h
    obtain ⟨rfl, hk⟩ := h
    exact (((hk.close []).close [_, _]).close [_, _, _]).close [_, _, _]
  · intro k hk
    exact ((((((hk.close [_]).close []).close []).close []).close []).close []).close []

end Calls

end Spartan
