import Mathlib.Data.List.Nodup
import SpartanLauncher.EchoStreams

/-!
# The two maps of the echo loop

`multi_read_on_ready` looks a descriptor up in the map of the inputs and in the map of the outputs.
A stream that ends takes the descriptors of its `react_io_ctx` out of both.

**Theorem (`streamMaps_in_step`).** From either set-up of `stdout_echo_response_stream`, and
whatever the calls of the system return: the maps have the same keys at each loop head, and each
key leads to its stream. So each descriptor that is reported is read, and a stream that ends makes
both maps smaller.
-/

namespace Spartan

open Machine

/-! ## The set-up -/

/-- `react_io_ctx(int rsp_fd)`. -/
def rspIoCtx (rspFd dupFd : Fd) : ReactIoCtx := { stdoutCtx := ⟨rspFd, dupFd⟩ }

/-- What `stdout_echo_response_stream` sets up: one descriptor, or three. -/
inductive EchoStart where
  | single (rspFd dupFd : Fd) (nonneg : 0 ≤ rspFd) (dup_ne : dupFd ≠ -1)
  | react (fds : ReactFds)

def EchoStart.state (content : Fd → List Char) : EchoStart → EchoState
  | single rspFd dupFd _ _ =>
    { fdMap := mapInsert [] rspFd (rspIoCtx rspFd dupFd)
      outputStreamsMap := mapInsert [] rspFd .stdout
      unread := content }
  | react fds => fds.start content

/-- The descriptors of a `react_io_ctx`. -/
def ReactIoCtx.origFds (ctx : ReactIoCtx) : List Fd :=
  [ctx.stdoutCtx.origFd, ctx.stderrCtx.origFd, ctx.stdinCtx.origFd].filter (· ≠ -1)

/-- The maps are in step: they have the same keys, the descriptors of a `react_io_ctx` all lead to
it, and a descriptor leads to the stream of its own. -/
structure EchoState.InStep (s : EchoState) : Prop where
  nodup : (s.fdMap.map Prod.fst).Nodup ∧ (s.outputStreamsMap.map Prod.fst).Nodup
  keys_iff : ∀ fd, fd ∈ s.fdMap.map Prod.fst ↔ fd ∈ s.outputStreamsMap.map Prod.fst
  closed : ∀ fd ctx, s.getReactIoCtx fd = some ctx →
    ∀ fd' ∈ ctx.origFds, s.getReactIoCtx fd' = some ctx
  resolves : ∀ fd ∈ s.fdMap.map Prod.fst, ∃ ctx, s.getMutableStreamCtx fd = some ctx ∧
    ctx.origFd = fd ∧ ctx.isValidInit = true

/-- A round reads each descriptor that `poll` reports, and makes both maps smaller when one of the
results is an end. -/
def EchoState.ReadsAll (s : EchoState) (ps : List PollfdResult) (t : EchoState) : Prop :=
  ∃ s₁ results, EchoState.launch ps { s with wr := .noOp } = some (s₁, results) ∧
    results.map Prod.fst = ps.map PollfdResult.fd ∧
    ((∃ result ∈ results, result.2.canContinue = false) →
      t.fdMap.length < s.fdMap.length ∧ t.outputStreamsMap.length < s.outputStreamsMap.length)

/-! ## Removing descriptors -/

section Maps

variable {α : Type} {m : List (Fd × α)} {fd : Fd} {fds : List Fd}

theorem mem_keys_iff : fd ∈ m.map Prod.fst ↔ ∃ a, m.lookup fd = some a := by
  rw [← Option.isSome_iff_exists, List.lookup_isSome_iff]
  simp only [List.mem_map, beq_iff_eq]
  exact exists_congr fun entry => and_congr_right fun _ => eq_comm

theorem mem_keys_filter :
    fd ∈ (m.filter fun entry => entry.1 ∉ fds).map Prod.fst ↔
      fd ∈ m.map Prod.fst ∧ fd ∉ fds := by
  simp only [List.mem_map, List.mem_filter, decide_eq_true_eq]
  refine ⟨?_, ?_⟩
  · intro h
    obtain ⟨entry, ⟨hmem, hkept⟩, rfl⟩ := h
    exact ⟨⟨entry, hmem, rfl⟩, hkept⟩
  · intro h
    obtain ⟨⟨entry, hmem, rfl⟩, hkept⟩ := h
    exact ⟨entry, ⟨hmem, hkept⟩, rfl⟩

theorem lookup_filter (m : List (Fd × α)) (fd : Fd) (fds : List Fd) :
    (m.filter fun entry => entry.1 ∉ fds).lookup fd =
      if fd ∈ fds then none else m.lookup fd := by
  induction m with
  | nil => simp
  | cons entry m ih =>
    obtain ⟨key, a⟩ := entry
    by_cases hkey : key ∈ fds
    · rw [List.filter_cons_of_neg (by simpa using hkey), ih]
      split_ifs with hfd
      · rfl
      · have hne : (fd == key) = false := beq_eq_false_iff_ne.2 fun h => hfd (h ▸ hkey)
        rw [List.lookup_cons, hne]
    · rw [List.filter_cons_of_pos (by simpa using hkey), List.lookup_cons, List.lookup_cons, ih]
      by_cases hfd : fd = key
      · subst hfd
        simp only [beq_self_eq_true, if_neg hkey]
      · rw [beq_eq_false_iff_ne.2 hfd]

theorem length_filter_lt (hmem : fd ∈ m.map Prod.fst) (hfd : fd ∈ fds) :
    (m.filter fun entry => entry.1 ∉ fds).length < m.length := by
  obtain ⟨entry, hentry, rfl⟩ := List.mem_map.1 hmem
  rw [List.length_filter_lt_length_iff_exists]
  exact ⟨entry, hentry, by simpa using hfd⟩

end Maps

namespace EchoState

variable {s t : EchoState} {fd : Fd} {fds : List Fd} {ctx : ReactIoCtx}

/-- `t` has the maps of `s` without the descriptors. -/
def Pruned (fds : List Fd) (s t : EchoState) : Prop :=
  t.fdMap = s.fdMap.filter (fun entry => entry.1 ∉ fds) ∧
    t.outputStreamsMap = s.outputStreamsMap.filter fun entry => entry.1 ∉ fds

theorem pruned_nil_of_eq (hfdMap : t.fdMap = s.fdMap)
    (hout : t.outputStreamsMap = s.outputStreamsMap) : Pruned [] s t := by
  simp [Pruned, hfdMap, hout]

theorem pruned_foldl_remove (fds : List Fd) (s : EchoState) :
    Pruned fds s (fds.foldl remove s) := by
  induction fds generalizing s with
  | nil => exact pruned_nil_of_eq rfl rfl
  | cons fd fds ih =>
    obtain ⟨hfdMap, hout⟩ := ih (s.remove fd)
    refine ⟨hfdMap.trans ?_, hout.trans ?_⟩
    · simp [remove, List.filter_filter, Bool.and_comm]
    · simp [remove, List.filter_filter, Bool.and_comm]

theorem getReactIoCtx_of_pruned (h : Pruned fds s t) (fd : Fd) :
    t.getReactIoCtx fd = if fd ∈ fds then none else s.getReactIoCtx fd := by
  rw [getReactIoCtx, h.1, lookup_filter]
  rfl

theorem getMutableStreamCtx_congr (h : t.getReactIoCtx fd = s.getReactIoCtx fd) :
    t.getMutableStreamCtx fd = s.getMutableStreamCtx fd := by
  unfold getReactIoCtx at h
  rw [getMutableStreamCtx, getMutableStreamCtx, h]

/-- A key is among the descriptors that it leads to. -/
theorem InStep.mem_origFds (h : s.InStep) (hctx : s.getReactIoCtx fd = some ctx) :
    fd ∈ ctx.origFds := by
  obtain ⟨stream, hstream, hfd, hvalid⟩ := h.resolves fd (mem_keys_iff.2 ⟨ctx, hctx⟩)
  have hne : fd ≠ -1 := by
    rintro rfl
    have hvalid := of_decide_eq_true hvalid
    rw [hfd] at hvalid
    exact absurd hvalid.1 (by decide)
  have hlookup : s.fdMap.lookup fd = some ctx := hctx
  rw [getMutableStreamCtx, hlookup, Option.bind_some] at hstream
  refine List.mem_filter.2 ⟨?_, decide_eq_true hne⟩
  split_ifs at hstream with h₁ h₂ h₃
  · rw [← h₁]
    simp
  · rw [← h₂]
    simp
  · rw [← h₃]
    simp

/-- **Removing the descriptors** of a `react_io_ctx` keeps the maps in step: no other one has any
of them. -/
theorem InStep.pruned (h : s.InStep) (hctx : s.getReactIoCtx fd = some ctx)
    (hpruned : Pruned ctx.origFds s t) : t.InStep := by
  have hget := getReactIoCtx_of_pruned hpruned
  refine ⟨?_, ?_, ?_, ?_⟩
  · rw [hpruned.1, hpruned.2]
    exact ⟨h.nodup.1.sublist (List.filter_sublist.map _),
      h.nodup.2.sublist (List.filter_sublist.map _)⟩
  · intro fd'
    rw [hpruned.1, hpruned.2, mem_keys_filter, mem_keys_filter, h.keys_iff fd']
  · intro fd₁ ctx₁ hctx₁ fd₂ hfd₂
    rw [hget] at hctx₁
    split_ifs at hctx₁ with hfd₁
    have hctx₂ := h.closed fd₁ ctx₁ hctx₁ fd₂ hfd₂
    rw [hget, if_neg]
    · exact hctx₂
    · intro hremoved
      have hsame := (h.closed fd ctx hctx fd₂ hremoved).symm.trans hctx₂
      cases hsame
      exact hfd₁ (h.mem_origFds hctx₁)
  · intro fd' hfd'
    rw [hpruned.1, mem_keys_filter] at hfd'
    obtain ⟨stream, hstream, hvalid⟩ := h.resolves fd' hfd'.1
    refine ⟨stream, ?_, hvalid⟩
    have hsame : t.getReactIoCtx fd' = s.getReactIoCtx fd' := by rw [hget, if_neg hfd'.2]
    rw [getMutableStreamCtx_congr hsame, hstream]

theorem InStep.congr (h : s.InStep) (hfdMap : t.fdMap = s.fdMap)
    (hout : t.outputStreamsMap = s.outputStreamsMap) : t.InStep := by
  obtain ⟨hnodup, hkeys, hclosed, hresolves⟩ := h
  refine ⟨by rwa [hfdMap, hout], by rwa [hfdMap, hout], ?_, ?_⟩
  · unfold getReactIoCtx at hclosed ⊢
    rwa [hfdMap]
  · unfold getMutableStreamCtx at hresolves ⊢
    rwa [hfdMap]

/-! ## One round -/

theorem maps_runFuture {p : PollfdResult} {out : OutputStream} {wr : WriteResult}
    (h : s.runFuture p out = some (t, wr)) :
    t.fdMap = s.fdMap ∧ t.outputStreamsMap = s.outputStreamsMap := by
  obtain ⟨_, -, heq⟩ := Option.map_eq_some_iff.1 h
  cases heq
  exact ⟨rfl, rfl⟩

/-- The first loop reads each descriptor, and leaves the maps alone. -/
theorem launch_inStep {ps : List PollfdResult} {results : List (Fd × WriteResult)}
    (hin : s.InStep) (hkeys : ∀ p ∈ ps, p.fd ∈ s.fdMap.map Prod.fst)
    (h : launch ps s = some (t, results)) :
    results.map Prod.fst = ps.map PollfdResult.fd ∧
      t.fdMap = s.fdMap ∧ t.outputStreamsMap = s.outputStreamsMap := by
  induction ps generalizing s results with
  | nil =>
    cases h
    exact ⟨rfl, rfl, rfl⟩
  | cons p ps ih =>
    obtain ⟨hkey, hkeys⟩ := List.forall_mem_cons.1 hkeys
    obtain ⟨stream, hstream, -, hvalid⟩ := hin.resolves p.fd hkey
    obtain ⟨out, hout⟩ := mem_keys_iff.1 ((hin.keys_iff p.fd).1 hkey)
    simp only [launch, hstream, hvalid, hout, if_true] at h
    obtain ⟨⟨s₁, wr⟩, hfuture, h⟩ := Option.bind_eq_some_iff.1 h
    obtain ⟨⟨t', results'⟩, hlaunch, heq⟩ := Option.map_eq_some_iff.1 h
    cases heq
    obtain ⟨hfdMap, hstreams⟩ := maps_runFuture hfuture
    obtain ⟨hresults, hfdMap', hstreams'⟩ := ih (hin.congr hfdMap hstreams)
      (by rwa [hfdMap]) hlaunch
    exact ⟨by rw [List.map_cons, List.map_cons, hresults], hfdMap'.trans hfdMap,
      hstreams'.trans hstreams⟩

/-- What a result does to the maps. A descriptor that an earlier result of the round has removed
is not found any more. -/
theorem obtainResult_cases (s : EchoState) (result : Fd × WriteResult) :
    (result.2.canContinue = true ∧ s.obtainResult result = s) ∨
    (result.2.canContinue = false ∧ s.getReactIoCtx result.1 = none ∧
      Pruned [] s (s.obtainResult result)) ∨
    (result.2.canContinue = false ∧ ∃ ctx, s.getReactIoCtx result.1 = some ctx ∧
      Pruned ctx.origFds s (s.obtainResult result)) := by
  cases hend : result.2.canContinue with
  | true => exact .inl ⟨rfl, if_pos hend⟩
  | false =>
    cases hctx : s.getReactIoCtx result.1 with
    | none =>
      refine .inr (.inl ⟨rfl, rfl, pruned_nil_of_eq ?_ ?_⟩)
      · unfold obtainResult
        simp only [hend, hctx, Bool.false_eq_true, if_false]
        split_ifs <;> rfl
      · unfold obtainResult
        simp only [hend, hctx, Bool.false_eq_true, if_false]
        split_ifs <;> rfl
    | some ctx =>
      obtain ⟨hfdMap, hout⟩ := pruned_foldl_remove ctx.origFds s
      refine .inr (.inr ⟨rfl, ctx, rfl, ?_, ?_⟩)
      · rw [← hfdMap]
        unfold obtainResult
        simp only [hend, hctx, Bool.false_eq_true, if_false]
        split_ifs <;> rfl
      · rw [← hout]
        unfold obtainResult
        simp only [hend, hctx, Bool.false_eq_true, if_false]
        split_ifs <;> rfl

theorem Pruned.length_le (h : Pruned fds s t) :
    t.fdMap.length ≤ s.fdMap.length ∧ t.outputStreamsMap.length ≤ s.outputStreamsMap.length := by
  rw [h.1, h.2]
  exact ⟨List.length_filter_le _ _, List.length_filter_le _ _⟩

/-- The step lemma of the second loop. -/
theorem inStep_obtainResult (h : s.InStep) (result : Fd × WriteResult) :
    (s.obtainResult result).InStep ∧
      (s.obtainResult result).fdMap.length ≤ s.fdMap.length ∧
      (s.obtainResult result).outputStreamsMap.length ≤ s.outputStreamsMap.length := by
  rcases obtainResult_cases s result with ⟨-, heq⟩ | ⟨-, -, hpruned⟩ | ⟨-, ctx, hctx, hpruned⟩
  · rw [heq]
    exact ⟨h, Nat.le_refl _, Nat.le_refl _⟩
  · refine ⟨h.congr ?_ ?_, hpruned.length_le⟩
    · simpa using hpruned.1
    · simpa using hpruned.2
  · exact ⟨h.pruned hctx hpruned, hpruned.length_le⟩

/-- The run lemma of the second loop. -/
theorem inStep_foldl_obtainResult (h : s.InStep) (results : List (Fd × WriteResult)) :
    (results.foldl obtainResult s).InStep ∧
      (results.foldl obtainResult s).fdMap.length ≤ s.fdMap.length ∧
      (results.foldl obtainResult s).outputStreamsMap.length ≤ s.outputStreamsMap.length := by
  induction results generalizing s with
  | nil => exact ⟨h, Nat.le_refl _, Nat.le_refl _⟩
  | cons result results ih =>
    obtain ⟨hin, hfdMap, hout⟩ := inStep_obtainResult h result
    obtain ⟨hin', hfdMap', hout'⟩ := ih hin
    exact ⟨hin', Nat.le_trans hfdMap' hfdMap, Nat.le_trans hout' hout⟩

/-- The first end of a round finds its `react_io_ctx`. -/
theorem length_foldl_obtainResult_lt (h : s.InStep) {results : List (Fd × WriteResult)}
    (hkeys : ∀ result ∈ results, result.1 ∈ s.fdMap.map Prod.fst)
    (hend : ∃ result ∈ results, result.2.canContinue = false) :
    (results.foldl obtainResult s).fdMap.length < s.fdMap.length ∧
      (results.foldl obtainResult s).outputStreamsMap.length < s.outputStreamsMap.length := by
  induction results with
  | nil => simp at hend
  | cons result results ih =>
    obtain ⟨hkey, hkeys⟩ := List.forall_mem_cons.1 hkeys
    rw [List.foldl_cons]
    rcases obtainResult_cases s result with ⟨hgoes, heq⟩ | ⟨-, hnone, -⟩ | ⟨-, ctx, hctx, hpruned⟩
    · rw [heq]
      refine ih hkeys ?_
      obtain ⟨r, hr, hend⟩ := hend
      rcases List.mem_cons.1 hr with rfl | hr
      · rw [hgoes] at hend
        cases hend
      · exact ⟨r, hr, hend⟩
    · obtain ⟨ctx, hctx⟩ := mem_keys_iff.1 hkey
      have hsome : s.getReactIoCtx result.1 = some ctx := hctx
      rw [hnone] at hsome
      cases hsome
    · have hmem := h.mem_origFds hctx
      have hfdMap := length_filter_lt hkey hmem
      have hout := length_filter_lt ((h.keys_iff result.1).1 hkey) hmem
      rw [← hpruned.1] at hfdMap
      rw [← hpruned.2] at hout
      obtain ⟨-, hfdMap', hout'⟩ := inStep_foldl_obtainResult (h.pruned hctx hpruned) results
      exact ⟨Nat.lt_of_le_of_lt hfdMap' hfdMap, Nat.lt_of_le_of_lt hout' hout⟩

/-- **One round** keeps the maps in step. -/
theorem inStep_round {ps : List PollfdResult} (h : s.InStep)
    (hround : s.round (.ready ps) = some t) : t.InStep ∧ s.ReadsAll ps t := by
  simp only [round, Option.ite_none_right_eq_some] at hround
  obtain ⟨⟨-, -, -, hready⟩, hround⟩ := hround
  obtain ⟨⟨s₁, results⟩, hlaunch, heq⟩ := Option.map_eq_some_iff.1 hround
  simp only at heq
  have hin : ({ s with wr := .noOp } : EchoState).InStep := h.congr rfl rfl
  obtain ⟨hresults, hfdMap, hout⟩ := launch_inStep hin (fun p hp => (hready p hp).1) hlaunch
  have hin₁ : s₁.InStep := hin.congr hfdMap hout
  rw [← heq]
  refine ⟨(inStep_foldl_obtainResult hin₁ results).1, s₁, results, hlaunch, hresults, ?_⟩
  intro hend
  have hkeys : ∀ result ∈ results, result.1 ∈ s₁.fdMap.map Prod.fst := by
    intro result hresult
    have hmem : result.1 ∈ ps.map PollfdResult.fd := hresults ▸ List.mem_map_of_mem hresult
    obtain ⟨p, hp, hfd⟩ := List.mem_map.1 hmem
    rw [hfdMap, ← hfd]
    exact (hready p hp).1
  have hlength := length_foldl_obtainResult_lt hin₁ hkeys hend
  rwa [hfdMap, hout] at hlength

end EchoState

/-! ## Runs -/

theorem inStep_single {rspFd dupFd : Fd} (hnonneg : 0 ≤ rspFd) (hdup : dupFd ≠ -1)
    (content : Fd → List Char) :
    ((EchoStart.single rspFd dupFd hnonneg hdup).state content).InStep := by
  have hne : rspFd ≠ -1 := by
    rintro rfl
    exact absurd hnonneg (by decide)
  have hget (fd : Fd) : ((EchoStart.single rspFd dupFd hnonneg hdup).state
      content).getReactIoCtx fd = if fd == rspFd then some (rspIoCtx rspFd dupFd) else none := by
    show [(rspFd, rspIoCtx rspFd dupFd)].lookup fd = _
    rw [List.lookup_cons]
    cases fd == rspFd with
    | true => rfl
    | false => rfl
  have horig : (rspIoCtx rspFd dupFd).origFds = [rspFd] := by
    simp [ReactIoCtx.origFds, rspIoCtx, hne]
  refine ⟨⟨List.nodup_singleton _, List.nodup_singleton _⟩, fun _ => Iff.rfl, ?_, ?_⟩
  · intro fd ctx hctx fd' hfd'
    rw [hget] at hctx
    split_ifs at hctx
    cases hctx
    rw [horig, List.mem_singleton] at hfd'
    rw [hget, hfd', beq_self_eq_true, if_pos rfl]
  · intro fd hfd
    have hfd : fd = rspFd := List.mem_singleton.1 hfd
    subst hfd
    refine ⟨⟨fd, dupFd⟩, ?_, rfl, decide_eq_true ⟨hnonneg, hdup⟩⟩
    rw [EchoState.getMutableStreamCtx]
    show (EchoState.getReactIoCtx _ fd).bind _ = _
    rw [hget, beq_self_eq_true, if_pos rfl, Option.bind_some]
    exact if_pos rfl

theorem mem_outputs_iff {fds : ReactFds} {fd : Fd} :
    (∃ out, (fd, out) ∈ fds.outputs) ↔ fd ∈ fds.ctx.origFds := by
  obtain ⟨h₁, h₂, h₃⟩ := fds.nonneg
  have hne : ∀ fd : Fd, 0 ≤ fd → fd ≠ -1 := by
    rintro _ hle rfl
    exact absurd hle (by decide)
  simp [ReactIoCtx.origFds, ReactFds.outputs, ReactFds.ctx, hne _ h₁, hne _ h₂, hne _ h₃,
    exists_or]

theorem inStep_react (fds : ReactFds) (content : Fd → List Char) :
    ((EchoStart.react fds).state content).InStep := by
  have hopen : ((EchoStart.react fds).state content).Open fds := ⟨rfl, rfl, rfl⟩
  have hkeys (fd : Fd) : fd ∈ (fds.addEntryToMap []).map Prod.fst ↔
      ∃ out, (fd, out) ∈ fds.outputs := by
    rw [fds.addEntryToMap_eq]
    simp [ReactFds.outputs, exists_or]
  obtain ⟨h₁, h₂, h₃⟩ := fds.distinct
  refine ⟨⟨?_, ?_⟩, ?_, ?_, ?_⟩
  · rw [hopen.fdMap, fds.addEntryToMap_eq]
    simp [h₁, h₂, h₃]
  · rw [hopen.outputStreamsMap, fds.outputStreamsMap_eq]
    simp [ReactFds.outputs, h₁, h₂, h₃]
  · intro fd
    rw [hopen.fdMap, hkeys, hopen.outputStreamsMap, fds.outputStreamsMap_eq]
    simp only [List.mem_map, Prod.exists, exists_and_right, exists_eq_right]
  · intro fd ctx hctx fd' hfd'
    have hkey : fd ∈ (fds.addEntryToMap []).map Prod.fst := mem_keys_iff.2 ⟨ctx, hctx⟩
    obtain ⟨out, hout⟩ := (hkeys fd).1 hkey
    obtain ⟨hlookup, -, -⟩ := hopen.lookup hout
    rw [hlookup] at hctx
    cases hctx
    obtain ⟨out', hout'⟩ := mem_outputs_iff.2 hfd'
    exact (hopen.lookup hout').1
  · intro fd hfd
    obtain ⟨out, hout⟩ := (hkeys fd).1 hfd
    obtain ⟨-, hstream, -⟩ := hopen.lookup hout
    exact ⟨_, hstream, rfl, EchoState.isValidInit_of_mem hout⟩

theorem inStep_start (start : EchoStart) (content : Fd → List Char) :
    (start.state content).InStep := by
  cases start with
  | single rspFd dupFd hnonneg hdup => exact inStep_single hnonneg hdup content
  | react fds => exact inStep_react fds content

/-- **The two maps stay in step** at each loop head, and each round reads all that is reported. -/
theorem streamMaps_in_step (start : EchoStart) (content : Fd → List Char)
    {rounds : List PollResult} {s : EchoState}
    (hrun : run EchoState.round (start.state content) rounds = some s) :
    s.InStep ∧ ∀ ps t, s.round (.ready ps) = some t → s.ReadsAll ps t := by
  have hin : s.InStep := by
    refine run_invariant (fun s r t hin hstep => ?_) (inStep_start start content) hrun
    cases r with
    | eintr =>
      simp only [EchoState.round, Option.ite_none_left_eq_some, Option.some.injEq] at hstep
      exact hstep.2 ▸ hin
    | ready ps => exact (EchoState.inStep_round hin hstep).1
  exact ⟨hin, fun ps t hround => (EchoState.inStep_round hin hround).2⟩

/-- The error pipe and the standard input end in one round, behind a round that only reads. -/
theorem streamMaps_in_step_two :
    ∃ s, run EchoState.round ((EchoStart.react sampleFds).state sampleContent)
        [.ready [⟨3, 1, [.data 2 (some 2), .wouldBlock]⟩],
          .ready [⟨5, 0x11, [.eof]⟩, ⟨4, 0x11, [.error]⟩]] = some s ∧
      s.InStep ∧ ∀ ps t, s.round (.ready ps) = some t → s.ReadsAll ps t := by
  obtain ⟨s, hrun⟩ := Option.isSome_iff_exists.1 (by decide :
    (run EchoState.round ((EchoStart.react sampleFds).state sampleContent)
      [.ready [⟨3, 1, [.data 2 (some 2), .wouldBlock]⟩],
        .ready [⟨5, 0x11, [.eof]⟩, ⟨4, 0x11, [.error]⟩]]).isSome = true)
  exact ⟨s, hrun, streamMaps_in_step _ _ hrun⟩

end Spartan
