import SpartanLauncher.Client
import SpartanLauncher.Lib.Machine
import SpartanLauncher.ResponseChannel
import SpartanLauncher.Transport

/-!
# The client's end of the response channel

`obtain_response_stream` takes the two datagrams of the responder off the client's socket: the
pid and the number of descriptors, and then the descriptors.

* `react_connected` and `write_connected`: each new pipe connects the two processes, with one
  descriptor for each of its ends, so the reader sees the end of the stream when the writer closes.
* `client_returns_iff`: the client returns exactly when the responder succeeded; otherwise it
  waits for ever.
* `exchanges_leak`: a response brings one descriptor more than it says, namely the responder's
  descriptor 0. Nobody closes it, so a client that goes on has one more after each response.
-/

namespace Spartan

open Scoped Machine

/-! ## `obtain_response_stream` -/

structure SocketOwner where
  fds : List (Option FdObject) := []
  /-- The datagrams at the socket. -/
  queue : List Datagram := []

inductive ObtainRspStreamError where
  | recvfrom
  /-- Not exactly 1 or 3 descriptors. -/
  | fdCount (count : ℕ)
  | recvmsg
  /-- No descriptors in the second datagram. -/
  | invalidDatagram
  deriving DecidableEq

structure ResponseFds where
  pid : ℕ
  childRdr : ℕ
  childErr : Option ℕ := none
  childWrt : Option ℕ := none
  deriving DecidableEq

/-- The `pid_buffer` after `recvfrom`, which drops the control message of another datagram. -/
def Datagram.pidAndCount : Datagram → ℕ × ℕ
  | .pidBuffer pid count => (pid, count)
  | .rights _ => (0, 0)

/-- The descriptors that `recvmsg` makes room for and the kernel installs. -/
def Datagram.received (count : ℕ) : Datagram → List FdObject
  | .pidBuffer _ _ => []
  | .rights objects => objects.take (cmsgFdCount (sizeofPayload count))

/-- The body of the function; the result is `none` while it waits for a datagram. -/
def receiveResponse (recvfromFails recvmsgFails : Bool) (c : SocketOwner) :
    Option (Except ObtainRspStreamError ResponseFds × SocketOwner) :=
  if recvfromFails then some (.error .recvfrom, c)
  else
    match c.queue with
    | [] => none
    | first :: queue =>
      let (pid, count) := first.pidAndCount
      if count ≠ 1 ∧ count ≠ 3 then some (.error (.fdCount count), { c with queue := queue })
      else if recvmsgFails then some (.error .recvmsg, { c with queue := queue })
      else
        match queue with
        | [] => none
        | second :: queue =>
          let (fds, table) := allocAll (second.received count) c.fds
          let c' : SocketOwner := ⟨table, queue⟩
          if fds = [] then some (.error .invalidDatagram, c')
          else if count = 1 then some (.ok { pid := pid, childRdr := fds.getD 0 0 }, c')
          else some (.ok ⟨pid, fds.getD 0 0, some (fds.getD 1 0), some (fds.getD 2 0)⟩, c')

/-- `obtain_response_stream`, which closes the socket on every way out. -/
def obtainResponseStream (recvfromFails recvmsgFails : Bool) (socketFd : ℕ) (c : SocketOwner) :
    Option (Except ObtainRspStreamError ResponseFds × SocketOwner) :=
  (receiveResponse recvfromFails recvmsgFails c).map fun (r, c') =>
    (r, { c' with fds := free socketFd c'.fds })

/-! ## Both ends -/

/-- The writer has the only descriptor of the end for writing, and the reader the only one of the
end for reading. -/
structure Connected (pipe : ℕ) (writer reader : ℕ → Option FdObject) (w r : ℕ) : Prop where
  writeEnd : ∀ fd, writer fd = some (.pipeEnd pipe true) ↔ fd = w
  readEnd : ∀ fd, reader fd = some (.pipeEnd pipe false) ↔ fd = r
  notWriter : ∀ fd, reader fd ≠ some (.pipeEnd pipe true)
  notReader : ∀ fd, writer fd ≠ some (.pipeEnd pipe false)

/-- No descriptor refers to a pipe that is still to be made. -/
def PipesBelow (n : ℕ) (v : ℕ → Option FdObject) : Prop :=
  ∀ fd pipe writeEnd, v fd = some (.pipeEnd pipe writeEnd) → pipe < n

section BothEnds

variable {k₀ k₁ : Responder} {c : SocketOwner} {pid socketFd n : ℕ}

/-- The client takes what a responder sent. -/
theorem obtainResponseStream_of_responded {count : ℕ} {own : List (ℕ × FdObject)}
    {objects : List FdObject} (hk : Responded k₀ pid count own objects k₁)
    (hsent : k₀.delivered = []) (hcount : count = 1 ∨ count = 3) (hlen : objects.length = count)
    (hsocket : slot c.fds socketFd = some .socket) :
    ∃ (res : ResponseFds) (fds : List ℕ) (c' : SocketOwner),
      obtainResponseStream false false socketFd { c with queue := k₁.delivered } =
        some (.ok res, c') ∧ c'.queue = [] ∧ fds.length = count + 1 ∧
      Adds (slot (free socketFd c.fds)) (slot c'.fds) (fds.zip (objects ++ [stdinObject k₀])) ∧
      res = if count = 1 then { pid := pid, childRdr := fds.getD 0 0 }
        else ⟨pid, fds.getD 0 0, some (fds.getD 1 0), some (fds.getD 2 0)⟩ := by
  have hqueue : k₁.delivered =
      [.pidBuffer pid count, .rights (objects ++ [stdinObject k₀])] := by
    rw [hk.delivered, hsent, List.nil_append]
  have hroom : cmsgFdCount (sizeofPayload count) = (objects ++ [stdinObject k₀]).length := by
    rw [List.length_append, hlen]
    rcases hcount with rfl | rfl <;> rfl
  have htake : (Datagram.rights (objects ++ [stdinObject k₀])).received count =
      objects ++ [stdinObject k₀] := by
    rw [Datagram.received, hroom, List.take_length]
  have hfds : (allocAll (objects ++ [stdinObject k₀]) c.fds).1.length = count + 1 := by
    rw [length_allocAll, List.length_append, hlen, List.length_singleton]
  have hne : (allocAll (objects ++ [stdinObject k₀]) c.fds).1 ≠ [] := by
    rw [← List.length_pos_iff, hfds]
    omega
  refine ⟨_, (allocAll (objects ++ [stdinObject k₀]) c.fds).1,
    ⟨free socketFd (allocAll (objects ++ [stdinObject k₀]) c.fds).2, []⟩, ?_, rfl, hfds, ?_, rfl⟩
  · have hcount' : ¬(count ≠ 1 ∧ count ≠ 3) := by omega
    simp only [obtainResponseStream, receiveResponse, hqueue, Datagram.pidAndCount, hcount',
      htake, hne, if_false, Bool.false_eq_true]
    split_ifs <;> rfl
  · show Adds (slot (free socketFd c.fds)) (slot (free socketFd _)) _
    rw [slot_free, slot_free]
    exact adds_allocAll.emptied (by simp [hsocket])

theorem PipesBelow.ne {v : ℕ → Option FdObject} (h : PipesBelow n v) {pipe : ℕ} (hle : n ≤ pipe)
    (writeEnd : Bool) (fd : ℕ) : v fd ≠ some (.pipeEnd pipe writeEnd) := fun hfd =>
  absurd (h fd pipe writeEnd hfd) (Nat.not_lt.2 hle)

theorem PipesBelow.free {table : List (Option FdObject)} (h : PipesBelow n (slot table))
    (fd : ℕ) : PipesBelow n (slot (Scoped.free fd table)) := by
  intro fd' pipe writeEnd hfd
  rw [slot_free] at hfd
  by_cases heq : fd' = fd
  · rw [heq, Function.update_self] at hfd
    cases hfd
  · rw [Function.update_of_ne heq] at hfd
    exact h fd' pipe writeEnd hfd

/-- Descriptor 0 refers to something older than the new pipes. -/
theorem stdinObject_ne (h : PipesBelow n (slot k₀.fds)) {pipe : ℕ} (hle : n ≤ pipe)
    (writeEnd : Bool) : stdinObject k₀ ≠ .pipeEnd pipe writeEnd := by
  intro heq
  cases hslot : slot k₀.fds 0 with
  | none =>
    rw [stdinObject, hslot] at heq
    cases heq
  | some o =>
    rw [stdinObject, hslot] at heq
    exact h.ne hle writeEnd 0 (hslot.trans (congrArg some heq))

/-- **The three pipes of a sub-command that takes part in the input.** -/
theorem react_connected {w₁ w₂ r₃ : ℕ}
    (hrun : (openReactAnonPipes pid).run k₀ = (.ok (w₁, w₂, r₃), k₁))
    (hsent : k₀.delivered = []) (hsocket : slot c.fds socketFd = some .socket)
    (hk₀ : PipesBelow k₀.nextPipe (slot k₀.fds)) (hc : PipesBelow k₀.nextPipe (slot c.fds)) :
    ∃ (rd er wr : ℕ) (c' : SocketOwner),
      obtainResponseStream false false socketFd { c with queue := k₁.delivered } =
        some (.ok ⟨pid, rd, some er, some wr⟩, c') ∧
      Connected k₀.nextPipe (slot k₁.fds) (slot c'.fds) w₁ rd ∧
      Connected (k₀.nextPipe + 1) (slot k₁.fds) (slot c'.fds) w₂ er ∧
      Connected (k₀.nextPipe + 2) (slot c'.fds) (slot k₁.fds) wr r₃ := by
  have hk := (openReactAnonPipes_triple k₀ pid).ok rfl hrun
  obtain ⟨res, fds, c', hobtain, -, hlen, hadds, rfl⟩ :=
    obtainResponseStream_of_responded hk hsent (.inr rfl) rfl hsocket
  obtain ⟨rd, er, wr, x, rfl⟩ := List.length_eq_four.1 hlen
  have hadds : Adds (slot (free socketFd c.fds)) (slot c'.fds)
      [(rd, .pipeEnd k₀.nextPipe false), (er, .pipeEnd (k₀.nextPipe + 1) false),
        (wr, .pipeEnd (k₀.nextPipe + 2) true), (x, stdinObject k₀)] := hadds
  have hfree := hc.free socketFd
  have h₀ : k₀.nextPipe ≤ k₀.nextPipe := Nat.le_refl _
  have h₁ : k₀.nextPipe ≤ k₀.nextPipe + 1 := Nat.le_add_right _ _
  have h₂ : k₀.nextPipe ≤ k₀.nextPipe + 2 := Nat.le_add_right _ _
  have hx : ∀ pipe, k₀.nextPipe ≤ pipe → ∀ writeEnd, stdinObject k₀ ≠ .pipeEnd pipe writeEnd :=
    fun pipe hle writeEnd => stdinObject_ne hk₀ hle writeEnd
  refine ⟨rd, er, wr, c', hobtain, ⟨?_, ?_, ?_, ?_⟩, ⟨?_, ?_, ?_, ?_⟩, ⟨?_, ?_, ?_, ?_⟩⟩
  · exact hk.adds.only [_, _] (hk₀.ne h₀ true) (by simp)
  · exact hadds.only [] (hfree.ne h₀ false) (by simp [hx])
  · exact hadds.nowhere (hfree.ne h₀ true) (by simp [hx])
  · exact hk.adds.nowhere (hk₀.ne h₀ false) (by simp)
  · exact hk.adds.only [_] (hk₀.ne h₁ true) (by simp)
  · exact hadds.only [_] (hfree.ne h₁ false) (by simp [hx])
  · exact hadds.nowhere (hfree.ne h₁ true) (by simp [hx])
  · exact hk.adds.nowhere (hk₀.ne h₁ false) (by simp)
  · exact hadds.only [_, _] (hfree.ne h₂ true) (by simp [hx])
  · exact hk.adds.only [] (hk₀.ne h₂ false) (by simp)
  · exact hk.adds.nowhere (hk₀.ne h₂ true) (by simp)
  · exact hadds.nowhere (hfree.ne h₂ false) (by simp [hx])

/-- A process with the three standard streams. -/
def stdStreams : List (Option FdObject) := [some (.other 0), some (.other 1), some (.other 2)]

theorem pipesBelow_stdStreams : PipesBelow 0 (slot (stdStreams ++ [some .socket])) := by
  intro fd pipe writeEnd h
  match fd, h with
  | 0, h | 1, h | 2, h | 3, h => cases h
  | fd + 4, h => cases h

theorem react_connected_stdStreams :
    ∃ (rd er wr : ℕ) (k₁ : Responder) (c' : SocketOwner),
      (openReactAnonPipes 42).run { fds := stdStreams ++ [some .socket] } = (.ok (6, 8, 9), k₁) ∧
      Connected 0 (slot k₁.fds) (slot c'.fds) 6 rd ∧ Connected 1 (slot k₁.fds) (slot c'.fds) 8 er ∧
      Connected 2 (slot c'.fds) (slot k₁.fds) wr 9 := by
  have hrun : (openReactAnonPipes 42).run { fds := stdStreams ++ [some .socket] } =
      (.ok (6, 8, 9), _) := rfl
  have hsocket : slot (stdStreams ++ [some .socket]) 3 = some .socket := rfl
  obtain ⟨rd, er, wr, c', -, h⟩ := react_connected (c := ⟨stdStreams ++ [some .socket], []⟩)
    hrun rfl hsocket pipesBelow_stdStreams pipesBelow_stdStreams
  exact ⟨rd, er, wr, _, c', hrun, h⟩

/-- **The pipe of a sub-command with a response stream only.** -/
theorem write_connected {w : ℕ} (hrun : (openWriteAnonPipe pid).run k₀ = (.ok w, k₁))
    (hsent : k₀.delivered = []) (hsocket : slot c.fds socketFd = some .socket)
    (hk₀ : PipesBelow k₀.nextPipe (slot k₀.fds)) (hc : PipesBelow k₀.nextPipe (slot c.fds)) :
    ∃ (rd : ℕ) (c' : SocketOwner),
      obtainResponseStream false false socketFd { c with queue := k₁.delivered } =
        some (.ok { pid := pid, childRdr := rd }, c') ∧
      Connected k₀.nextPipe (slot k₁.fds) (slot c'.fds) w rd := by
  have hk := (openWriteAnonPipe_triple k₀ pid).ok rfl hrun
  obtain ⟨res, fds, c', hobtain, -, hlen, hadds, rfl⟩ :=
    obtainResponseStream_of_responded hk hsent (.inl rfl) rfl hsocket
  obtain ⟨rd, x, rfl⟩ := List.length_eq_two.1 hlen
  have hadds : Adds (slot (free socketFd c.fds)) (slot c'.fds)
      [(rd, .pipeEnd k₀.nextPipe false), (x, stdinObject k₀)] := hadds
  have hfree := hc.free socketFd
  have h₀ : k₀.nextPipe ≤ k₀.nextPipe := Nat.le_refl _
  have hx := stdinObject_ne hk₀ h₀
  refine ⟨rd, c', hobtain, ?_, ?_, ?_, ?_⟩
  · exact hk.adds.only [] (hk₀.ne h₀ true) (by simp)
  · exact hadds.only [] (hfree.ne h₀ false) (by simp [hx])
  · exact hadds.nowhere (hfree.ne h₀ true) (by simp [hx])
  · exact hk.adds.nowhere (hk₀.ne h₀ false) (by simp)

/-! ## Failures -/

/-- The function that the responder calls. -/
def respond (react : Bool) (pid : ℕ) : Responding (List ℕ) :=
  if react then (fun fds => [fds.1, fds.2.1, fds.2.2]) <$> openReactAnonPipes pid
  else (fun fd => [fd]) <$> openWriteAnonPipe pid

/-- How many descriptors go to the client. -/
def rtnCount (react : Bool) : ℕ := if react then 3 else 1

theorem respond_triple_of (react : Bool) (k₀ : Responder) (pid : ℕ) :
    Triple (fun k => k = k₀) (respond react pid)
      (fun fds k => ∃ (own : List (ℕ × FdObject)) (objects : List FdObject),
        own.map Prod.fst = fds.reverse ∧ objects.length = rtnCount react ∧
        Responded k₀ pid (rtnCount react) own objects k)
      (Failing k₀ pid (rtnCount react) []) := by
  cases react with
  | false =>
    exact (openWriteAnonPipe_triple k₀ pid).bind fun fd =>
      Triple.pure fun k hk => ⟨_, _, rfl, rfl, hk⟩
  | true =>
    exact (openReactAnonPipes_triple k₀ pid).bind fun fds =>
      Triple.pure fun k hk => ⟨_, _, rfl, rfl, hk⟩

/-- **A responder that fails leaves nothing open, and a client that waits.** -/
theorem client_returns_iff {react : Bool} {r : Except OpenPipeError (List ℕ)}
    (hrun : (respond react pid).run k₀ = (r, k₁)) (hsent : k₀.delivered = [])
    (hsocket : slot c.fds socketFd = some .socket) :
    ((obtainResponseStream false false socketFd { c with queue := k₁.delivered }).isSome ↔
      ∃ fds, r = .ok fds) ∧ ((∀ fds, r ≠ .ok fds) → slot k₁.fds = slot k₀.fds) := by
  have hcount : rtnCount react = 1 ∨ rtnCount react = 3 := by cases react <;> simp [rtnCount]
  cases r with
  | ok fds =>
    obtain ⟨own, objects, -, hlen, hk⟩ := (respond_triple_of react k₀ pid).ok rfl hrun
    obtain ⟨res, fds', c', hobtain, -⟩ :=
      obtainResponseStream_of_responded hk hsent hcount hlen hsocket
    refine ⟨iff_of_true ?_ ⟨fds, rfl⟩, fun hne => absurd rfl (hne fds)⟩
    rw [hobtain]
    rfl
  | error e =>
    have hk := (respond_triple_of react k₀ pid).error rfl hrun
    refine ⟨iff_of_false ?_ (by simp), fun _ => hk.adds.eq_of_nil⟩
    rcases hk.delivered with hq | hq
    · rw [hq, hsent]
      simp [obtainResponseStream, receiveResponse]
    · have hcount' : ¬(rtnCount react ≠ 1 ∧ rtnCount react ≠ 3) := by omega
      rw [hq, hsent]
      simp [obtainResponseStream, receiveResponse, Datagram.pidAndCount, hcount']

/-- The call for the third pipe fails. -/
theorem client_returns_iff_third_pipe :
    ∃ k₁, (respond true 42).run { fds := stdStreams, fails := [false, false, false, true] } =
        (.error .pipe, k₁) ∧ slot k₁.fds = slot stdStreams ∧
      obtainResponseStream false false 3 ⟨stdStreams ++ [some .socket], k₁.delivered⟩ = none := by
  have hrun : (respond true 42).run
      { fds := stdStreams, fails := [false, false, false, true] } = (.error .pipe, _) := rfl
  have hsocket : slot (stdStreams ++ [some .socket]) 3 = some .socket := rfl
  have hiff := client_returns_iff (c := ⟨stdStreams ++ [some .socket], []⟩) hrun rfl hsocket
  exact ⟨_, hrun, hiff.2 (by simp), by simpa using hiff.1⟩

/-! ## How many streams -/

theorem parseExtendedInvokeOption_client (client : Client) :
    parseExtendedInvokeOption client.extendedInvokeOption = some client.isExtendedInvoke := by
  rw [Client.extendedInvokeOption]
  cases client.isExtendedInvoke <;> decide

/-- **A client that asked for three streams gets three**, and another one does so when the method
has the descriptor for them. `launch_program_helper` relies on this: it goes through the pointers
to the second and third descriptor when it asked for them. -/
theorem streams_iff {popt : List Char → Option (List (List Char))} {client : Client}
    {uds msg : List Char} {args : List (List Char)} {isReact : Bool} {fds : List ℕ}
    {invocation : Invocation} (hround : RoundTrips popt client.extendedInvokeOption uds args msg)
    (hargs : args ≠ []) (hinvoke : coreInvokeCommand popt isReact msg = .ok invocation)
    (hrun : (respond invocation.isExtendedInvoke pid).run k₀ = (.ok fds, k₁))
    (hsent : k₀.delivered = []) (hsocket : slot c.fds socketFd = some .socket) :
    ∃ (res : ResponseFds) (c' : SocketOwner),
      obtainResponseStream false false socketFd { c with queue := k₁.delivered } =
        some (.ok res, c') ∧ res.pid = pid ∧
      res.childErr.isSome = (client.isExtendedInvoke || isReact) ∧
      res.childWrt.isSome = (client.isExtendedInvoke || isReact) := by
  obtain ⟨invocation', hinvoke', hext, -⟩ :=
    hround.java isReact client.isExtendedInvoke hargs (parseExtendedInvokeOption_client client)
  cases hinvoke.symm.trans hinvoke'
  obtain ⟨own, objects, -, hlen, hk⟩ := (respond_triple_of _ k₀ pid).ok rfl hrun
  have hcount : rtnCount invocation.isExtendedInvoke = 1 ∨
      rtnCount invocation.isExtendedInvoke = 3 := by
    cases invocation.isExtendedInvoke <;> simp [rtnCount]
  obtain ⟨res, fds', c', hobtain, -, -, -, hres⟩ :=
    obtainResponseStream_of_responded hk hsent hcount hlen hsocket
  refine ⟨res, c', hobtain, ?_⟩
  rw [hres, hext]
  cases client.isExtendedInvoke <;> cases isReact <;> simp [rtnCount]

/-- A client that asks for three streams. -/
def extendedClient : Client where
  isExtendedInvoke := true
  cmdsSet := []
  progname := "etl".toList
  progname_nulFree := by decide
  pid := ⟨42, by decide, by decide⟩
  rndNbr := 7

theorem roundTrips_extendedClient :
    RoundTrips Quoting.parseArgv extendedClient.extendedInvokeOption "/tmp/u".toList
      ["etl".toList] "\"--EXTENDED_INVOKE=true\" \"/tmp/u\" \"etl\"".toList := by
  have hparsed : parseCmdLine Quoting.parseArgv
      "\"--EXTENDED_INVOKE=true\" \"/tmp/u\" \"etl\"".toList =
      some [extendedClient.extendedInvokeOption, "/tmp/u".toList, "etl".toList] := by decide
  exact ⟨by decide, hparsed, fun _ _ hargs hoption =>
    coreInvokeCommand_of_parsed hparsed hargs hoption⟩

/-- The method has no descriptor for three streams, and the client gets them. -/
theorem streams_iff_extendedClient :
    ∃ (res : ResponseFds) (c' : SocketOwner) (k₁ : Responder),
      (respond true 42).run { fds := stdStreams } = (.ok [5, 7, 8], k₁) ∧
      obtainResponseStream false false 3 ⟨stdStreams ++ [some .socket], k₁.delivered⟩ =
        some (.ok res, c') ∧ res.childErr.isSome = true := by
  have hrun : (respond true 42).run { fds := stdStreams } = (.ok [5, 7, 8], _) := rfl
  have hinvoke : coreInvokeCommand Quoting.parseArgv false
      "\"--EXTENDED_INVOKE=true\" \"/tmp/u\" \"etl\"".toList =
      .ok ⟨true, "/tmp/u".toList, ["/tmp/u".toList, "etl".toList]⟩ := by decide
  have hsocket : slot (stdStreams ++ [some .socket]) 3 = some .socket := rfl
  obtain ⟨res, c', hobtain, -, herr, -⟩ := streams_iff
    (c := ⟨stdStreams ++ [some .socket], []⟩) roundTrips_extendedClient (by simp) hinvoke hrun rfl
    hsocket
  exact ⟨res, c', _, hrun, hobtain, herr⟩

/-! ## A client that goes on -/

/-- An exchange of a client that goes on: it makes the socket, gets the response and closes the
descriptors that it was given. -/
def exchangeStep (fds : List (Option FdObject)) (e : Responder × Bool × ℕ) :
    Option (List (Option FdObject)) :=
  match (respond e.2.1 e.2.2).run { e.1 with delivered := [] } with
  | (.error _, _) => none
  | (.ok _, k) =>
    match obtainResponseStream false false (firstFree fds) ⟨alloc .socket fds, k.delivered⟩ with
    | some (.ok res, c) =>
      some ((res.childRdr :: (res.childErr.toList ++ res.childWrt.toList)).foldl
        (fun fds fd => free fd fds) c.fds)
    | _ => none

theorem exchangeStep_adds {fds fds' : List (Option FdObject)} {e : Responder × Bool × ℕ}
    (h : exchangeStep fds e = some fds') :
    ∃ x, Adds (slot fds) (slot fds') [(x, stdinObject e.1)] := by
  obtain ⟨k₀, react, pid⟩ := e
  simp only [exchangeStep] at h
  rcases hrun : (respond react pid).run { k₀ with delivered := [] } with ⟨r | r, k⟩
  · rw [hrun] at h
    cases h
  rw [hrun] at h
  obtain ⟨own, objects, -, hlen, hk⟩ := (respond_triple_of react _ pid).ok rfl hrun
  have hcount : rtnCount react = 1 ∨ rtnCount react = 3 := by cases react <;> simp [rtnCount]
  have hsocket : slot (alloc .socket fds) (firstFree fds) = some .socket :=
    adds_alloc.lookup (List.mem_singleton.2 rfl)
  obtain ⟨res, fds₁, c, hobtain, -, hlen', hadds, hres⟩ :=
    obtainResponseStream_of_responded (c := ⟨alloc .socket fds, []⟩) hk rfl hcount hlen hsocket
  simp only [hobtain, Option.some.injEq] at h
  have hsame : slot (free (firstFree fds) (alloc .socket fds)) = slot fds := by
    rw [slot_free]
    exact (Adds.release [] adds_alloc).eq_of_nil
  have hadds : Adds (slot fds) (slot c.fds) (fds₁.zip (objects ++ [stdinObject k₀])) := by
    rw [← hsame]
    exact hadds
  subst h hres
  cases react with
  | false =>
    obtain ⟨o, rfl⟩ := List.length_eq_one_iff.1 hlen
    obtain ⟨rd, x, rfl⟩ := List.length_eq_two.1 hlen'
    refine ⟨x, ?_⟩
    show Adds (slot fds) (slot (free rd c.fds)) _
    rw [slot_free]
    exact Adds.release [] hadds
  | true =>
    obtain ⟨o₁, o₂, o₃, rfl⟩ := List.length_eq_three.1 hlen
    obtain ⟨rd, er, wr, x, rfl⟩ := List.length_eq_four.1 hlen'
    refine ⟨x, ?_⟩
    show Adds (slot fds) (slot (free wr (free er (free rd c.fds)))) _
    rw [slot_free, slot_free, slot_free]
    exact Adds.release [] (Adds.release [] (Adds.release [] hadds))

/-- **One descriptor is left open for each response.** -/
theorem exchanges_leak {fds fds' : List (Option FdObject)} {es : List (Responder × Bool × ℕ)}
    (h : run exchangeStep fds es = some fds') :
    ∃ own, Adds (slot fds) (slot fds') own ∧
      own.map Prod.snd = (es.map fun e => stdinObject e.1).reverse := by
  induction es generalizing fds with
  | nil =>
    cases h
    exact ⟨[], .refl _, rfl⟩
  | cons e es ih =>
    obtain ⟨fds₁, he, h⟩ := run_cons_eq_some.1 h
    obtain ⟨x, hadds⟩ := exchangeStep_adds he
    obtain ⟨own, hadds', hown⟩ := ih h
    refine ⟨own ++ [(x, stdinObject e.1)], hadds.trans hadds', ?_⟩
    rw [List.map_append, hown]
    simp

/-- Two responses, of one stream and of three: two descriptors more. -/
theorem exchanges_leak_two :
    ∃ fds' own, run exchangeStep stdStreams [({ fds := stdStreams }, false, 42),
        ({ fds := [] }, true, 43)] = some fds' ∧ Adds (slot stdStreams) (slot fds') own ∧
      own.map Prod.snd = [.socket, .other 0] := by
  have hrun : run exchangeStep stdStreams [({ fds := stdStreams }, false, 42),
    ({ fds := [] }, true, 43)] = some _ := rfl
  obtain ⟨own, hadds, hown⟩ := exchanges_leak hrun
  exact ⟨_, own, hrun, hadds, hown⟩

end BothEnds

end Spartan
