import SpartanLauncher.ReadOnReady

/-!
# The client echoes the output of a sub-command

The client reads three streams: the output pipe and the error pipe of the sub-command, and its own
standard input, which it passes on to the sub-command.

**Theorem (`echo_keepsOutput_iff`).** When the client returns with success, all that the
sub-command wrote is written to the two outputs, exactly when the first stream that ends does not
leave something behind: if it ends by end of file, both pipes have delivered everything by the end
of that round. The end of one stream takes all three out of the maps.

The set-up succeeds: the descriptors are there, are duplicated and made non-blocking. Where a step
of it fails, the client returns with a failure at once.
-/

namespace Spartan

open Machine

/-- The descriptors of the three streams, and the duplicates that `dup` makes of them. -/
structure ReactFds where
  rspFd : Fd
  errFd : Fd
  stdinFd : Fd
  dup : Fd → Fd
  nonneg : 0 ≤ rspFd ∧ 0 ≤ errFd ∧ 0 ≤ stdinFd
  distinct : rspFd ≠ errFd ∧ rspFd ≠ stdinFd ∧ errFd ≠ stdinFd
  dup_ne : dup rspFd ≠ -1 ∧ dup errFd ≠ -1 ∧ dup stdinFd ≠ -1

/-- `unordered_map::insert`, which keeps an entry that is there. -/
def mapInsert {α : Type} (m : List (Fd × α)) (fd : Fd) (a : α) : List (Fd × α) :=
  if (m.lookup fd).isSome then m else m ++ [(fd, a)]

namespace ReactFds

variable (fds : ReactFds)

/-- The `react_io_ctx` of the three streams. -/
def ctx : ReactIoCtx where
  stdoutCtx := ⟨fds.rspFd, fds.dup fds.rspFd⟩
  stderrCtx := ⟨fds.errFd, fds.dup fds.errFd⟩
  stdinCtx := ⟨fds.stdinFd, fds.dup fds.stdinFd⟩

/-- `read_multi_stream::add_entry_to_map`. -/
def addEntryToMap (fdMap : List (Fd × ReactIoCtx)) : List (Fd × ReactIoCtx) :=
  mapInsert (mapInsert (mapInsert fdMap fds.rspFd fds.ctx) fds.errFd fds.ctx) fds.stdinFd fds.ctx

def outputStreamsMap : List (Fd × OutputStream) :=
  mapInsert (mapInsert (mapInsert [] fds.rspFd .stdout) fds.errFd .stderr) fds.stdinFd .wrt

/-- The state before the first round. -/
def start (content : Fd → List Char) : EchoState where
  fdMap := fds.addEntryToMap []
  outputStreamsMap := fds.outputStreamsMap
  unread := content

end ReactFds

/-- The exit code of the client. -/
def EchoState.rtn (s : EchoState) : ℕ := if s.ec = 0 ∨ s.wr = .endOfFile then 0 else 1

/-- The exit code with the final state. `content` is what is written to each input before it is
closed. -/
def stdoutEchoResponseStream (fds : ReactFds) (content : Fd → List Char)
    (rounds : List PollResult) : Option (ℕ × EchoState) :=
  ((fds.start content).multiReadOnReady rounds).map fun s => (s.rtn, s)

/-! ## What the rounds deliver -/

/-- The results of the calls on one descriptor. -/
def eventsOf (fd : Fd) (ps : List PollfdResult) : List Io :=
  ps.flatMap fun p => if p.fd = fd then p.ios else []

def PollResult.pollfds : PollResult → List PollfdResult
  | .eintr => []
  | .ready ps => ps

def events (fd : Fd) (rounds : List PollResult) : List Io :=
  eventsOf fd (rounds.flatMap PollResult.pollfds)

/-- How the first stream to end ends. -/
def firstEnding (ps : List PollfdResult) : Option WriteResult :=
  (ps.map fun p => outcome false p.ios).find? fun wr => !wr.canContinue

/-! ## The maps -/

namespace ReactFds

variable (fds : ReactFds)

/-- The three inputs with their outputs. -/
def outputs : List (Fd × OutputStream) :=
  [(fds.rspFd, .stdout), (fds.errFd, .stderr), (fds.stdinFd, .wrt)]

theorem outputStreamsMap_eq : fds.outputStreamsMap = fds.outputs := by
  obtain ⟨h₁, h₂, h₃⟩ := fds.distinct
  simp [outputStreamsMap, outputs, mapInsert, List.lookup_cons, beq_eq_false_iff_ne.2 h₁.symm,
    beq_eq_false_iff_ne.2 h₂.symm, beq_eq_false_iff_ne.2 h₃.symm]

theorem addEntryToMap_eq :
    fds.addEntryToMap [] =
      [(fds.rspFd, fds.ctx), (fds.errFd, fds.ctx), (fds.stdinFd, fds.ctx)] := by
  obtain ⟨h₁, h₂, h₃⟩ := fds.distinct
  simp [addEntryToMap, mapInsert, List.lookup_cons, beq_eq_false_iff_ne.2 h₁.symm,
    beq_eq_false_iff_ne.2 h₂.symm, beq_eq_false_iff_ne.2 h₃.symm]

end ReactFds

/-- All three streams are still there. -/
structure EchoState.Open (fds : ReactFds) (s : EchoState) : Prop where
  fdMap : s.fdMap = fds.addEntryToMap []
  outputStreamsMap : s.outputStreamsMap = fds.outputStreamsMap
  ec : s.ec = 0

variable {fds : ReactFds} {s s' t : EchoState} {fd : Fd} {out : OutputStream}

namespace EchoState

/-- What the maps say about each of the three descriptors. -/
theorem Open.lookup (h : s.Open fds) (hfd : (fd, out) ∈ fds.outputs) :
    s.getReactIoCtx fd = some fds.ctx ∧
      s.getMutableStreamCtx fd = some ⟨fd, fds.dup fd⟩ ∧
      s.outputStreamsMap.lookup fd = some out := by
  obtain ⟨h₁, h₂, h₃⟩ := fds.distinct
  have hlookup : s.getReactIoCtx fd = some fds.ctx := by
    rw [getReactIoCtx, h.fdMap, fds.addEntryToMap_eq]
    simp only [ReactFds.outputs, List.mem_cons, Prod.mk.injEq, List.not_mem_nil, or_false] at hfd
    rcases hfd with ⟨rfl, -⟩ | ⟨rfl, -⟩ | ⟨rfl, -⟩ <;>
      simp [List.lookup_cons, beq_eq_false_iff_ne.2 h₁.symm, beq_eq_false_iff_ne.2 h₂.symm,
        beq_eq_false_iff_ne.2 h₃.symm]
  refine ⟨hlookup, ?_, ?_⟩
  · rw [getMutableStreamCtx]
    show (s.getReactIoCtx fd).bind _ = _
    rw [hlookup]
    simp only [ReactFds.outputs, List.mem_cons, Prod.mk.injEq, List.not_mem_nil, or_false] at hfd
    rcases hfd with ⟨rfl, -⟩ | ⟨rfl, -⟩ | ⟨rfl, -⟩ <;>
      simp [ReactFds.ctx, h₁, h₂, h₃]
  · rw [h.outputStreamsMap, fds.outputStreamsMap_eq]
    simp only [ReactFds.outputs, List.mem_cons, Prod.mk.injEq, List.not_mem_nil, or_false] at hfd
    rcases hfd with ⟨rfl, rfl⟩ | ⟨rfl, rfl⟩ | ⟨rfl, rfl⟩ <;>
      simp [ReactFds.outputs, List.lookup_cons, beq_eq_false_iff_ne.2 h₁.symm,
        beq_eq_false_iff_ne.2 h₂.symm, beq_eq_false_iff_ne.2 h₃.symm]

theorem isValidInit_of_mem (hfd : (fd, out) ∈ fds.outputs) :
    StreamCtx.isValidInit ⟨fd, fds.dup fd⟩ = true := by
  obtain ⟨h₁, h₂, h₃⟩ := fds.nonneg
  obtain ⟨hdup₁, hdup₂, hdup₃⟩ := fds.dup_ne
  simp only [ReactFds.outputs, List.mem_cons, Prod.mk.injEq, List.not_mem_nil, or_false] at hfd
  apply decide_eq_true
  rcases hfd with ⟨rfl, -⟩ | ⟨rfl, -⟩ | ⟨rfl, -⟩ <;> constructor <;> assumption

/-- Different descriptors have different outputs. -/
theorem fd_eq_iff {fd' : Fd} {out' : OutputStream} (hfd : (fd, out) ∈ fds.outputs)
    (hfd' : (fd', out') ∈ fds.outputs) : fd = fd' ↔ out = out' := by
  obtain ⟨h₁, h₂, h₃⟩ := fds.distinct
  simp only [ReactFds.outputs, List.mem_cons, Prod.mk.injEq, List.not_mem_nil, or_false]
    at hfd hfd'
  rcases hfd with ⟨rfl, rfl⟩ | ⟨rfl, rfl⟩ | ⟨rfl, rfl⟩ <;>
    rcases hfd' with ⟨rfl, rfl⟩ | ⟨rfl, rfl⟩ | ⟨rfl, rfl⟩ <;>
      simp [h₁, h₂, h₃, h₁.symm, h₂.symm, h₃.symm]

/-! ## One round -/

/-- The bytes of each stream that moved in going from one state to the other. -/
def MovedAll (fds : ReactFds) (events : Fd → List Io) (s t : EchoState) : Prop :=
  ∀ fd out, (fd, out) ∈ fds.outputs →
    Moved (events fd) (s.unread fd) (s.written out) (t.unread fd) (t.written out)

theorem runFuture_spec {p : PollfdResult} {wr : WriteResult} (hfd : (p.fd, out) ∈ fds.outputs)
    (h : s.runFuture p out = some (t, wr)) :
    MovedAll fds (fun fd => if p.fd = fd then p.ios else []) s t ∧
      wr = outcome false p.ios ∧ (wr ≠ .failure → AllWritten p.ios) ∧
      t.fdMap = s.fdMap ∧ t.outputStreamsMap = s.outputStreamsMap ∧ t.ec = s.ec ∧ t.wr = s.wr := by
  obtain ⟨⟨wr', io⟩, hwrite, heq⟩ := Option.map_eq_some_iff.1 h
  cases heq
  obtain ⟨hmoved, hwr, hall⟩ := writeToOutputStream_spec hwrite rfl
  refine ⟨?_, hwr, hall, rfl, rfl, rfl, rfl⟩
  intro fd' out' hfd'
  have hiff := fd_eq_iff hfd hfd'
  by_cases heq : p.fd = fd'
  · subst heq
    have hout := hiff.1 rfl
    subst hout
    simpa using hmoved
  · have hout : out ≠ out' := fun hout => heq (hiff.2 hout)
    simpa [heq, Ne.symm heq, hout.symm] using Moved.nil

theorem eventsOf_cons (fd : Fd) (p : PollfdResult) (ps : List PollfdResult) :
    eventsOf fd (p :: ps) = (if p.fd = fd then p.ios else []) ++ eventsOf fd ps := rfl

theorem eventsOf_eq_nil {ps : List PollfdResult} (h : fd ∉ ps.map (·.fd)) :
    eventsOf fd ps = [] := by
  refine List.flatMap_eq_nil_iff.2 fun p hp => if_neg fun heq => h ?_
  exact List.mem_map.2 ⟨p, hp, heq⟩

/-- The streams that are ready are copied, each on its own; the maps stay as they are. -/
theorem launch_spec {ps : List PollfdResult} {results : List (Fd × WriteResult)}
    (hopen : s.Open fds) (hmem : ∀ p ∈ ps, ∃ out, (p.fd, out) ∈ fds.outputs)
    (hnodup : (ps.map (·.fd)).Nodup) (h : launch ps s = some (t, results)) :
    MovedAll fds (fun fd => eventsOf fd ps) s t ∧ t.Open fds ∧ t.wr = s.wr ∧
      results = ps.map (fun p => (p.fd, outcome false p.ios)) ∧
      ∀ p ∈ ps, outcome false p.ios ≠ .failure → AllWritten p.ios := by
  induction ps generalizing s results with
  | nil =>
    cases h
    exact ⟨fun _ _ _ => Moved.nil, hopen, rfl, rfl, by simp⟩
  | cons p ps ih =>
    rw [List.forall_mem_cons] at hmem
    obtain ⟨⟨out, hout⟩, hmem⟩ := hmem
    obtain ⟨-, hctx, hlookup⟩ := hopen.lookup hout
    rw [List.map_cons, List.nodup_cons] at hnodup
    simp only [launch, hctx, isValidInit_of_mem hout, hlookup, if_true] at h
    obtain ⟨⟨s₁, wr⟩, hfuture, h⟩ := Option.bind_eq_some_iff.1 h
    obtain ⟨⟨t', results'⟩, hlaunch, heq⟩ := Option.map_eq_some_iff.1 h
    simp only [Prod.mk.injEq] at heq
    obtain ⟨rfl, rfl⟩ := heq
    obtain ⟨hmoved, hwr, hall, hfdMap, hout', hec, hwr'⟩ := runFuture_spec hout hfuture
    have hopen₁ : s₁.Open fds :=
      ⟨hfdMap.trans hopen.fdMap, hout'.trans hopen.outputStreamsMap, hec.trans hopen.ec⟩
    obtain ⟨hmoved', hopen', hwr'', rfl, hall'⟩ := ih hopen₁ hmem hnodup.2 hlaunch
    refine ⟨?_, hopen', hwr''.trans hwr', by rw [List.map_cons, hwr],
      List.forall_mem_cons.2 ⟨hwr ▸ hall, hall'⟩⟩
    intro fd' out' hfd'
    have hfirst := hmoved fd' out' hfd'
    have hrest := hmoved' fd' out' hfd'
    simp only [eventsOf_cons] at hfirst hrest ⊢
    by_cases heq : p.fd = fd'
    · -- the descriptor is not reported a second time
      rw [eventsOf_eq_nil (heq ▸ hnodup.1)] at hrest ⊢
      have hunread : t'.unread fd' = s₁.unread fd' := hrest.unread_eq
      have hwritten : t'.written out' = s₁.written out' := by
        simpa [accepted] using hrest.written_eq
      rw [List.append_nil, hunread, hwritten]
      exact hfirst
    · rw [if_neg heq] at hfirst ⊢
      exact hfirst.append (List.forall_mem_nil _) hrest

/-- Once the maps are empty, a further result changes the exit code only. -/
theorem obtainResult_closed (result : Fd × WriteResult) (hfdMap : s.fdMap = [])
    (hwr : s.wr ≠ .noOp) :
    s.obtainResult result = s ∨ s.obtainResult result = { s with ec := 1 } := by
  have hlookup : s.getReactIoCtx result.1 = none := by rw [getReactIoCtx, hfdMap]; rfl
  unfold obtainResult
  simp only [hlookup, if_neg hwr]
  split
  · exact .inl rfl
  · split
    · exact .inr rfl
    · exact .inl rfl

theorem foldl_obtainResult_closed (results : List (Fd × WriteResult)) (hfdMap : s.fdMap = [])
    (hwr : s.wr ≠ .noOp) :
    results.foldl obtainResult s = s ∨ results.foldl obtainResult s = { s with ec := 1 } := by
  induction results generalizing s with
  | nil => exact .inl rfl
  | cons result results ih =>
    rw [List.foldl_cons]
    rcases obtainResult_closed result hfdMap hwr with heq | heq <;> rw [heq]
    · exact ih hfdMap hwr
    · rcases ih (s := { s with ec := 1 }) hfdMap hwr with heq' | heq' <;> rw [heq']
      · exact .inr rfl
      · exact .inr rfl

/-- The first stream that ends takes all three out of the maps. -/
theorem remove_all (hopen : s.Open fds) :
    ([fds.rspFd, fds.errFd, fds.stdinFd].foldl remove s).fdMap = [] := by
  simp [remove, hopen.fdMap, fds.addEntryToMap_eq]

theorem obtainResult_open {wr : WriteResult} (hopen : s.Open fds) (hwr : s.wr = .noOp)
    (hfd : (fd, out) ∈ fds.outputs) (hends : wr.canContinue = false) :
    ∃ t, s.obtainResult (fd, wr) = t ∧ t.fdMap = [] ∧ t.wr = wr ∧
      t.ec = (if wr = .endOfFile then 0 else 1) ∧ t.unread = s.unread ∧ t.written = s.written := by
  obtain ⟨hlookup, -, -⟩ := hopen.lookup hfd
  have hfilter : ([fds.ctx.stdoutCtx.origFd, fds.ctx.stderrCtx.origFd,
      fds.ctx.stdinCtx.origFd].filter (· ≠ -1)) = [fds.rspFd, fds.errFd, fds.stdinFd] := by
    obtain ⟨h₁, h₂, h₃⟩ := fds.nonneg
    have hne : ∀ fd : Fd, 0 ≤ fd → fd ≠ -1 := by
      rintro _ hle rfl
      exact absurd hle (by decide)
    simp [ReactFds.ctx, hne _ h₁, hne _ h₂, hne _ h₃]
  have hempty := remove_all hopen
  have hwr' : ([fds.rspFd, fds.errFd, fds.stdinFd].foldl remove s).wr = .noOp := hwr
  refine ⟨_, rfl, ?_⟩
  unfold obtainResult
  simp only [hends, hlookup, hfilter, hwr', Bool.false_eq_true, if_false, if_true]
  split
  · exact ⟨hempty, rfl, rfl, rfl, rfl⟩
  · next heq => exact ⟨hempty, rfl, by rw [if_pos (not_not.1 heq)]; exact hopen.ec, rfl, rfl⟩

/-- What the second loop of a round does. -/
theorem foldl_obtainResult_open (hopen : s.Open fds) (hwr : s.wr = .noOp)
    (results : List (Fd × WriteResult))
    (hmem : ∀ result ∈ results, ∃ out, (result.1, out) ∈ fds.outputs) :
    match (results.map (·.2)).find? fun wr => !wr.canContinue with
    | none => results.foldl obtainResult s = s
    | some wr => ∃ t, results.foldl obtainResult s = t ∧ t.fdMap = [] ∧
      (t.rtn = 0 ↔ wr = .endOfFile) ∧ t.unread = s.unread ∧ t.written = s.written := by
  induction results with
  | nil => rfl
  | cons result results ih =>
    obtain ⟨fd, wr⟩ := result
    rw [List.forall_mem_cons] at hmem
    obtain ⟨⟨out, hout⟩, hmem⟩ := hmem
    cases hends : wr.canContinue with
    | true =>
      have hskip : s.obtainResult (fd, wr) = s := if_pos hends
      rw [List.map_cons, List.find?_cons_of_neg (by simp [hends]), List.foldl_cons, hskip]
      exact ih hmem
    | false =>
      obtain ⟨t, hobtain, hfdMap, hwr', hec, hunread, hwritten⟩ :=
        obtainResult_open hopen hwr hout hends
      rw [List.map_cons, List.find?_cons_of_pos (by simp [hends]), List.foldl_cons, hobtain]
      have hne : t.wr ≠ .noOp := by
        rw [hwr']
        rintro rfl
        cases hends
      have hrtn : t.rtn = 0 ↔ wr = .endOfFile := by
        rw [rtn, hec, hwr']
        by_cases heof : wr = .endOfFile <;> simp [heof]
      rcases foldl_obtainResult_closed results hfdMap hne with heq | heq
      · exact ⟨t, heq, hfdMap, hrtn, hunread, hwritten⟩
      · refine ⟨_, heq, hfdMap, ?_, hunread, hwritten⟩
        simp [rtn, hwr']

theorem allWritten_eventsOf {ps : List PollfdResult} (h : ∀ p ∈ ps, AllWritten p.ios) (fd : Fd) :
    AllWritten (eventsOf fd ps) := by
  intro io hmem
  obtain ⟨p, hp, hio⟩ := List.mem_flatMap.1 hmem
  split at hio
  · exact h p hp io hio
  · cases hio

/-- **One round.** Either no stream ends, and what was delivered is written; or the first stream
that ends decides the exit code, and no stream is left. -/
theorem round_spec {ps : List PollfdResult} (hopen : s.Open fds)
    (h : s.round (.ready ps) = some t) :
    MovedAll fds (fun fd => eventsOf fd ps) s t ∧
      match firstEnding ps with
      | none => t.Open fds ∧ ∀ fd, AllWritten (eventsOf fd ps)
      | some wr => t.fdMap = [] ∧ (t.rtn = 0 ↔ wr = .endOfFile) := by
  simp only [round, Option.ite_none_right_eq_some] at h
  obtain ⟨⟨-, -, hnodup, hready⟩, h⟩ := h
  obtain ⟨⟨s₁, results⟩, hlaunch, heq⟩ := Option.map_eq_some_iff.1 h
  simp only at heq
  have hmem : ∀ p ∈ ps, ∃ out, (p.fd, out) ∈ fds.outputs := by
    intro p hp
    have hfd := (hready p hp).1
    rw [hopen.fdMap, fds.addEntryToMap_eq] at hfd
    simp only [List.map_cons, List.map_nil, List.mem_cons, List.not_mem_nil, or_false] at hfd
    rcases hfd with hfd | hfd | hfd
    · exact ⟨.stdout, by simp [ReactFds.outputs, hfd]⟩
    · exact ⟨.stderr, by simp [ReactFds.outputs, hfd]⟩
    · exact ⟨.wrt, by simp [ReactFds.outputs, hfd]⟩
  have hopen' : ({ s with wr := .noOp } : EchoState).Open fds :=
    ⟨hopen.fdMap, hopen.outputStreamsMap, hopen.ec⟩
  obtain ⟨hmoved, hopen₁, hwr, rfl, hall⟩ := launch_spec hopen' hmem hnodup hlaunch
  have hobtain := foldl_obtainResult_open hopen₁ hwr (ps.map fun p => (p.fd, outcome false p.ios))
    (by
      intro result hresult
      obtain ⟨p, hp, rfl⟩ := List.mem_map.1 hresult
      exact hmem p hp)
  rw [heq, List.map_map] at hobtain
  have hfirst : (ps.map ((·.2) ∘ fun p => (p.fd, outcome false p.ios))).find?
      (fun wr => !wr.canContinue) = firstEnding ps := rfl
  rw [hfirst] at hobtain
  cases hending : firstEnding ps with
  | none =>
    rw [hending] at hobtain
    subst hobtain
    refine ⟨hmoved, hopen₁, allWritten_eventsOf fun p hp => hall p hp ?_⟩
    have hcontinue := List.find?_eq_none.1 hending _ (List.mem_map_of_mem hp)
    rintro hfailure
    simp [hfailure, WriteResult.canContinue] at hcontinue
  | some wr =>
    rw [hending] at hobtain
    obtain ⟨t', rfl, hfdMap, hrtn, hunread, hwritten⟩ := hobtain
    refine ⟨?_, hfdMap, hrtn⟩
    intro fd out hfd
    rw [hunread, hwritten]
    exact hmoved fd out hfd

/-! ## All rounds -/

theorem events_cons (fd : Fd) (r : PollResult) (rounds : List PollResult) :
    events fd (r :: rounds) = eventsOf fd r.pollfds ++ events fd rounds := by
  rw [events, List.flatMap_cons, eventsOf, List.flatMap_append]
  rfl

theorem firstEnding_append (ps ps' : List PollfdResult) :
    firstEnding (ps ++ ps') = (firstEnding ps).or (firstEnding ps') := by
  rw [firstEnding, List.map_append, List.find?_append]
  rfl

/-- No round begins when no descriptor is left. -/
theorem run_of_closed {rounds : List PollResult} (hfdMap : s.fdMap = [])
    (h : run round s rounds = some t) : rounds = [] ∧ s = t := by
  cases rounds with
  | nil => exact ⟨rfl, Option.some.inj h⟩
  | cons r rounds =>
    obtain ⟨u, hu, -⟩ := run_cons_eq_some.1 h
    cases r <;> simp [round, hfdMap] at hu

/-- **All rounds.** The run ends in the round in which the first stream ends. -/
theorem run_spec {rounds : List PollResult} (hopen : s.Open fds)
    (h : run round s rounds = some t) (hfdMap : t.fdMap = []) :
    MovedAll fds (fun fd => events fd rounds) s t ∧
      (t.rtn = 0 ↔ firstEnding (rounds.flatMap PollResult.pollfds) = some .endOfFile) := by
  induction rounds generalizing s with
  | nil =>
    cases h
    rw [hopen.fdMap, fds.addEntryToMap_eq] at hfdMap
    cases hfdMap
  | cons r rounds ih =>
    obtain ⟨u, hu, hrun⟩ := run_cons_eq_some.1 h
    cases r with
    | eintr =>
      simp only [round, Option.ite_none_left_eq_some, Option.some.injEq] at hu
      obtain ⟨-, rfl⟩ := hu
      exact ih hopen hrun
    | ready ps =>
      obtain ⟨hmoved, hround⟩ := round_spec hopen hu
      rw [List.flatMap_cons, firstEnding_append]
      simp only [PollResult.pollfds]
      cases hending : firstEnding ps with
      | none =>
        rw [hending] at hround
        obtain ⟨hopen', hall⟩ := hround
        obtain ⟨hmoved', hrtn⟩ := ih hopen' hrun
        refine ⟨?_, hrtn⟩
        intro fd out hfd
        simp only [events_cons]
        exact (hmoved fd out hfd).append (hall fd) (hmoved' fd out hfd)
      | some wr =>
        rw [hending] at hround
        obtain ⟨hclosed, hrtn⟩ := hround
        obtain ⟨rfl, rfl⟩ := run_of_closed hclosed hrun
        refine ⟨?_, by simpa using hrtn⟩
        intro fd out hfd
        simp only [events_cons]
        exact (List.append_nil (eventsOf fd ps)).symm ▸ hmoved fd out hfd

end EchoState

/-! ## No output is lost -/

/-- A client that returns with success has written all that the sub-command wrote. -/
def KeepsOutput (fds : ReactFds) (content : Fd → List Char) (rtn : ℕ) (s : EchoState) : Prop :=
  rtn = 0 → s.written .stdout = content fds.rspFd ∧ s.written .stderr = content fds.errFd

/-- If the first stream to end ends by end of file, then by the end of that round, which is the
last one, both pipes have delivered all they hold, and each write took all that it was given. -/
def NothingLeftBehind (fds : ReactFds) (content : Fd → List Char) (rounds : List PollResult) :
    Prop :=
  firstEnding (rounds.flatMap PollResult.pollfds) = some .endOfFile →
    ∀ fd ∈ [fds.rspFd, fds.errFd],
      delivered (events fd rounds) = (content fd).length ∧ AllWritten (events fd rounds)

/-- What was moved to an empty output is all there is, if all of it was delivered and accepted. -/
theorem Moved.written_eq_iff {ios : List Io} {unread unread' written' : List Char}
    (h : Moved ios unread [] unread' written') :
    written' = unread ↔ delivered ios = unread.length ∧ AllWritten ios := by
  have hdelivered := h.delivered_le
  have haccepted := h.accepted_le
  have htake : unread.take (accepted ios) = unread ↔ unread.length ≤ accepted ios := by
    refine ⟨?_, List.take_of_length_le⟩
    intro heq
    have hlength := congrArg List.length heq
    rw [List.length_take] at hlength
    omega
  rw [h.written_eq, List.nil_append, h.allWritten_iff, htake]
  omega

/-- **No output is lost**, in any run that returns with success, exactly when the first stream to
end leaves nothing behind. -/
theorem echo_keepsOutput_iff (fds : ReactFds) (content : Fd → List Char)
    (rounds : List PollResult) {rtn : ℕ} {s : EchoState}
    (h : stdoutEchoResponseStream fds content rounds = some (rtn, s)) :
    KeepsOutput fds content rtn s ↔ NothingLeftBehind fds content rounds := by
  obtain ⟨t, hrun, heq⟩ := Option.map_eq_some_iff.1 h
  cases heq
  obtain ⟨hrun, hempty⟩ := Option.filter_eq_some_iff.1 hrun
  have hopen : (fds.start content).Open fds := ⟨rfl, rfl, rfl⟩
  obtain ⟨hmoved, hrtn⟩ := EchoState.run_spec hopen hrun (List.isEmpty_iff.1 hempty)
  have hout := (hmoved fds.rspFd .stdout (by simp [ReactFds.outputs])).written_eq_iff
  have herr := (hmoved fds.errFd .stderr (by simp [ReactFds.outputs])).written_eq_iff
  rw [KeepsOutput, NothingLeftBehind, ← hrtn]
  apply imp_congr_right
  intro _
  rw [List.forall_mem_cons, List.forall_mem_singleton]
  exact and_congr hout herr

def sampleFds : ReactFds where
  rspFd := 3
  errFd := 4
  stdinFd := 5
  dup fd := fd + 3
  nonneg := by decide
  distinct := by decide
  dup_ne := by decide

/-- The sub-command writes two bytes to its output and one to its error output. -/
def sampleContent (fd : Fd) : List Char :=
  if fd = 3 then ['h', 'i'] else if fd = 4 then ['!'] else []

/-- Both pipes are read before they are closed, with a signal in between. -/
theorem echo_keepsOutput_two :
    ∃ rtn s, stdoutEchoResponseStream sampleFds sampleContent
        [.ready [⟨3, 1, [.data 2 (some 2), .wouldBlock]⟩], .eintr,
          .ready [⟨4, 0x11, [.data 1 (some 1), .eof]⟩, ⟨3, 0x10, [.eof]⟩]] = some (rtn, s) ∧
      KeepsOutput sampleFds sampleContent rtn s := by
  obtain ⟨⟨rtn, s⟩, h⟩ := Option.isSome_iff_exists.1 (by decide :
    (stdoutEchoResponseStream sampleFds sampleContent
      [.ready [⟨3, 1, [.data 2 (some 2), .wouldBlock]⟩], .eintr,
        .ready [⟨4, 0x11, [.data 1 (some 1), .eof]⟩, ⟨3, 0x10, [.eof]⟩]]).isSome = true)
  exact ⟨rtn, s, h, (echo_keepsOutput_iff _ _ _ h).2 fun _ => by decide⟩

/-- The standard input of the client is at its end, and the sub-command has not written yet. -/
theorem echo_losesOutput :
    ∃ rtn s, stdoutEchoResponseStream sampleFds sampleContent [.ready [⟨5, 0x11, [.eof]⟩]] =
        some (rtn, s) ∧
      ¬ KeepsOutput sampleFds sampleContent rtn s := by
  have hrun : (stdoutEchoResponseStream sampleFds sampleContent
      [.ready [⟨5, 0x11, [.eof]⟩]]).map (fun r => (r.1, r.2.written .stdout)) = some (0, []) := by
    decide
  obtain ⟨⟨rtn, s⟩, h, heq⟩ := Option.map_eq_some_iff.1 hrun
  simp only [Prod.mk.injEq] at heq
  refine ⟨rtn, s, h, ?_⟩
  intro hkeeps
  have hout := (hkeeps heq.1).1
  rw [heq.2] at hout
  cases hout

end Spartan
