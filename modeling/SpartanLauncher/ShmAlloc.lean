import Mathlib.Data.Set.Defs
import SpartanLauncher.Lib.Machine
import SpartanLauncher.SharedMemory

/-!
# Runs of the shared memory allocator

`ShmAllocator::alloc` adds the size of a request to an `int`, as a `size_t`, and keeps the sum as
an `int`. A run is a list of requests to a new allocator.

**Theorem (`alloc_safe_of_always`).** When no sum wraps, and no offset outgrows an `int`, the
blocks lie inside the region and apart from each other.

**Theorem (`alloc_safe_iff`).** In a region below 2 GiB the runs without such a sum are the only
safe ones.
-/

namespace Spartan

open CString Machine

/-- `alloc` with the state that it leaves behind, also when it throws. -/
def ShmAllocator.allocState (progname : List Char) (self : ShmAllocator) (size : ℕ) :
    Except ShmError ℤ × ShmAllocator :=
  let newOffset := ((self.currOffset + size) % 2 ^ 64).toNat
  if newOffset > self.maxSize then
    (.error (.sharedMem (exceededMessage progname (newOffset - self.maxSize))), self)
  else (.ok self.currOffset, { self with currOffset := toInt32 newOffset })

theorem alloc_eq_allocState (progname : List Char) (self : ShmAllocator) (size : ℕ) :
    self.alloc progname size =
      (self.allocState progname size).1.map fun start =>
        (start, (self.allocState progname size).2) := by
  simp only [ShmAllocator.alloc, ShmAllocator.allocState]
  split_ifs
  · rfl
  · rfl

/-- An allocator, and the blocks that it has returned: where they start, and their size. -/
structure AllocRun where
  allocator : ShmAllocator
  blocks : List (ℤ × ℕ) := []
  deriving DecidableEq

/-- A new allocator. -/
def AllocRun.make (maxSize : ℕ) : AllocRun := { allocator := ⟨maxSize, 0⟩ }

/-- One request. -/
def AllocRun.request (progname : List Char) (run : AllocRun) (size : ℕ) : Option AllocRun :=
  match run.allocator.allocState progname size with
  | (.error _, allocator) => some { run with allocator }
  | (.ok start, allocator) => some { allocator, blocks := run.blocks ++ [(start, size)] }

/-- The addresses of a block. -/
def addresses (block : ℤ × ℕ) : Set ℤ := { a | block.1 ≤ a ∧ a < block.1 + block.2 }

/-- The offset and the blocks are inside the region, and no two blocks have an address in
common. -/
structure AllocRun.Safe (maxSize : ℕ) (run : AllocRun) : Prop where
  offset_nonneg : 0 ≤ run.allocator.currOffset
  offset_le : run.allocator.currOffset ≤ maxSize
  inside : ∀ block ∈ run.blocks, 0 ≤ block.1 ∧ block.1 + block.2 ≤ maxSize
  disjoint : run.blocks.Pairwise fun b b' => ∀ a ∈ addresses b, a ∉ addresses b'

/-- A request that throws leaves the allocator as it is. -/
def AllocRun.ThrowsUnchanged (progname : List Char) (run : AllocRun) : Prop :=
  ∀ size error, (run.allocator.allocState progname size).1 = .error error →
    (run.allocator.allocState progname size).2 = run.allocator

/-- The sum is a `size_t`, and an `int` when the request is granted. -/
def AllocRun.Representable (run : AllocRun) (size : ℕ) : Prop :=
  run.allocator.currOffset + size < 2 ^ 64 ∧
    (run.allocator.currOffset + size ≤ run.allocator.maxSize →
      run.allocator.currOffset + size < 2 ^ 31)

instance (run : AllocRun) (size : ℕ) : Decidable (run.Representable size) :=
  inferInstanceAs (Decidable (_ ∧ _))

/-! ## One request -/

/-- What a run keeps: the blocks are in front of the offset. -/
structure AllocRun.Inv (maxSize : ℕ) (run : AllocRun) : Prop where
  maxSize_eq : run.allocator.maxSize = maxSize
  offset_nonneg : 0 ≤ run.allocator.currOffset
  offset_le : run.allocator.currOffset ≤ maxSize
  behind : ∀ block ∈ run.blocks, 0 ≤ block.1 ∧ block.1 + block.2 ≤ run.allocator.currOffset
  disjoint : run.blocks.Pairwise fun b b' => ∀ a ∈ addresses b, a ∉ addresses b'

variable {progname : List Char} {maxSize size : ℕ} {run run' : AllocRun}

theorem throwsUnchanged (progname : List Char) (run : AllocRun) :
    run.ThrowsUnchanged progname := by
  intro size error h
  simp only [ShmAllocator.allocState] at h ⊢
  split_ifs at h ⊢
  rfl

/-- **What a request does** while the sum does not wrap. -/
theorem request_cases (hoffset : 0 ≤ run.allocator.currOffset)
    (hwrap : run.allocator.currOffset + size < 2 ^ 64)
    (h : run.request progname size = some run') :
    (run.allocator.maxSize < run.allocator.currOffset + size ∧ run' = run) ∨
    (run.allocator.currOffset + size ≤ run.allocator.maxSize ∧
      run'.allocator.maxSize = run.allocator.maxSize ∧
      run'.allocator.currOffset = toInt32 (run.allocator.currOffset + size) ∧
      run'.blocks = run.blocks ++ [(run.allocator.currOffset, size)]) := by
  obtain ⟨newOffset, hnew⟩ : ∃ n : ℕ, ((run.allocator.currOffset + size) % 2 ^ 64).toNat = n :=
    ⟨_, rfl⟩
  have hsum : (newOffset : ℤ) = run.allocator.currOffset + size := by omega
  obtain ⟨kept, hkept⟩ : ∃ n, toInt32 newOffset = n := ⟨_, rfl⟩
  simp only [AllocRun.request, ShmAllocator.allocState, hnew, hkept] at h
  split_ifs at h with hexceeded
  · cases h
    exact .inl ⟨by omega, rfl⟩
  · cases h
    exact .inr ⟨by omega, rfl, by rw [← hsum, hkept], rfl⟩

theorem disjoint_of_behind {b b' : ℤ × ℕ} (h : b.1 + b.2 ≤ b'.1) :
    ∀ a ∈ addresses b, a ∉ addresses b' := by
  intro a ha hb
  obtain ⟨-, hlt⟩ := ha
  obtain ⟨hle, -⟩ := hb
  exact absurd (hlt.trans_le (h.trans hle)) (lt_irrefl a)

/-- The step lemma: a granted block begins at the offset, behind all other blocks. -/
theorem inv_request (hinv : run.Inv maxSize) (hrep : run.Representable size)
    (h : run.request progname size = some run') : run'.Inv maxSize := by
  rcases request_cases hinv.offset_nonneg hrep.1 h with ⟨-, rfl⟩ | ⟨hfits, hmax, hoffset, hblocks⟩
  · exact hinv
  · have hint := hrep.2 hfits
    have hnonneg := hinv.offset_nonneg
    rw [toInt32_eq (by omega) hint] at hoffset
    rw [hinv.maxSize_eq] at hfits
    refine ⟨hmax.trans hinv.maxSize_eq, by omega, by omega, ?_, ?_⟩
    · rw [hblocks, hoffset]
      intro block hblock
      rcases List.mem_append.1 hblock with hold | hnew
      · have hbehind := hinv.behind block hold
        omega
      · rw [List.mem_singleton.1 hnew]
        exact ⟨hnonneg, le_rfl⟩
    · rw [hblocks, List.pairwise_append]
      refine ⟨hinv.disjoint, List.pairwise_singleton _ _, fun b hb b' hb' => ?_⟩
      rw [List.mem_singleton.1 hb']
      exact disjoint_of_behind (hinv.behind b hb).2

theorem AllocRun.Inv.safe (hinv : run.Inv maxSize) : run.Safe maxSize where
  offset_nonneg := hinv.offset_nonneg
  offset_le := hinv.offset_le
  inside block hblock := by
    have hbehind := hinv.behind block hblock
    have hoffset := hinv.offset_le
    omega
  disjoint := hinv.disjoint

theorem inv_make (maxSize : ℕ) : (AllocRun.make maxSize).Inv maxSize where
  maxSize_eq := rfl
  offset_nonneg := le_rfl
  offset_le := Int.natCast_nonneg maxSize
  behind := by simp [AllocRun.make]
  disjoint := List.Pairwise.nil

/-! ## Runs -/

/-- The run lemma. -/
theorem throughout_inv (hinv : run.Inv maxSize) {sizes : List ℕ}
    (h : Always (AllocRun.request progname) AllocRun.Representable run sizes) :
    Throughout (AllocRun.request progname) (AllocRun.Inv maxSize) run sizes :=
  throughout_of (fun _ _ _ hinv hrep hstep => inv_request hinv hrep hstep) hinv h

/-- **The allocator is safe** in every run of which all requests are representable. -/
theorem alloc_safe_of_always {maxSize : ℕ} {sizes : List ℕ}
    (h : Always (AllocRun.request progname) AllocRun.Representable (.make maxSize) sizes) :
    Throughout (AllocRun.request progname)
      (fun run => run.Safe maxSize ∧ run.ThrowsUnchanged progname) (.make maxSize) sizes := by
  intro pre run hpre hrun
  exact ⟨(throughout_inv (inv_make maxSize) h pre run hpre hrun).safe,
    throwsUnchanged progname run⟩

theorem alloc_safe_of_always_page :
    Throughout (AllocRun.request "spartan".toList)
      (fun run => run.Safe 4096 ∧ run.ThrowsUnchanged "spartan".toList) (.make 4096)
      [100, 5000, 3996] :=
  alloc_safe_of_always (by decide)

/-- A sum that wraps: the second block is said to end behind the region. -/
theorem alloc_unsafe_wrapped :
    ¬ ∀ maxSize sizes, Throughout (AllocRun.request "spartan".toList)
      (fun run => run.Safe maxSize ∧ run.ThrowsUnchanged "spartan".toList)
      (.make maxSize) sizes := by
  intro h
  have hrun : run (AllocRun.request "spartan".toList) (.make 4096) [8, 2 ^ 64 - 8] =
      some ⟨⟨4096, 0⟩, [(0, 8), (8, 2 ^ 64 - 8)]⟩ := by
    decide +kernel
  have hsafe := (h 4096 [8, 2 ^ 64 - 8]).last hrun
  have hinside := (hsafe.1.inside (8, 2 ^ 64 - 8) (by simp)).2
  norm_num at hinside

/-- A request whose sum wraps is granted all the same. -/
theorem blocks_of_wrap (hinv : run.Inv maxSize) (hmax : maxSize < 2 ^ 64)
    (hwrap : 2 ^ 64 ≤ run.allocator.currOffset + size) (hsize : size < 2 ^ 64)
    (h : run.request progname size = some run') :
    (run.allocator.currOffset, size) ∈ run'.blocks := by
  have hnonneg := hinv.offset_nonneg
  have hle := hinv.offset_le
  have hgranted : ¬ ((run.allocator.currOffset + size) % 2 ^ 64).toNat > run.allocator.maxSize := by
    rw [hinv.maxSize_eq]
    omega
  simp only [AllocRun.request, ShmAllocator.allocState, if_neg hgranted] at h
  cases h
  exact List.mem_append_right _ List.mem_cons_self

theorem always_of_throughout (hmax : maxSize < 2 ^ 31) {sizes : List ℕ}
    (hsizes : ∀ size ∈ sizes, size < 2 ^ 64) (hinv : run.Inv maxSize)
    (hsafe : Throughout (AllocRun.request progname) (AllocRun.Safe maxSize) run sizes) :
    Always (AllocRun.request progname) AllocRun.Representable run sizes := by
  induction sizes generalizing run with
  | nil => trivial
  | cons size sizes ih =>
    obtain ⟨hsize, hsizes⟩ := List.forall_mem_cons.1 hsizes
    obtain ⟨run', hstep⟩ : ∃ run', run.request progname size = some run' := by
      unfold AllocRun.request
      split
      · exact ⟨_, rfl⟩
      · exact ⟨_, rfl⟩
    obtain ⟨-, htail⟩ := (throughout_cons_iff hstep).1 hsafe
    have hrep : run.Representable size := by
      by_contra hrep
      have hle := hinv.offset_le
      have hwrap : 2 ^ 64 ≤ run.allocator.currOffset + size := by
        unfold AllocRun.Representable at hrep
        rw [hinv.maxSize_eq] at hrep
        omega
      have hmem := blocks_of_wrap hinv (by omega) hwrap hsize hstep
      have hinside := (htail [] run' List.nil_prefix rfl).inside _ hmem
      omega
    exact .cons hrep hstep (ih hsizes (inv_request hinv hrep hstep) htail)

/-- **In a region below 2 GiB** the allocator is safe in exactly the runs without a sum that
wraps. -/
theorem alloc_safe_iff (hmax : maxSize < 2 ^ 31) {sizes : List ℕ}
    (hsizes : ∀ size ∈ sizes, size < 2 ^ 64) :
    Throughout (AllocRun.request progname) (AllocRun.Safe maxSize) (.make maxSize) sizes ↔
      Always (AllocRun.request progname) AllocRun.Representable (.make maxSize) sizes := by
  refine ⟨?_, ?_⟩
  · exact always_of_throughout hmax hsizes (inv_make maxSize)
  · intro h pre run hpre hrun
    exact (throughout_inv (inv_make maxSize) h pre run hpre hrun).safe

end Spartan
