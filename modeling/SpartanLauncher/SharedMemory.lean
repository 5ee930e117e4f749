import SpartanLauncher.Lib.Memory
import SpartanLauncher.SessionState

/-!
# Publishing the session state

The supervisor writes two blocks into shared memory, each behind its length: the command dispatch
information, as it got it from Java, and the text of its session state. A client reads the second.

**Theorem (`sessionState_published`).** The two blocks fit into the pages that are allocated, and
the client gets the text that was written, and from it the session state.

The system calls that map the memory succeed. The page size and the name of the program are
parameters.
-/

namespace Spartan

open CString IStream Memory

inductive ShmError where
  /-- `shared_mem_exception` with its text. -/
  | sharedMem (what : List Char)
  /-- An access outside the mapping. -/
  | fault
  deriving DecidableEq

def orFault {α : Type} : Option α → Except ShmError α
  | some a => .ok a
  | none => .error .fault

/-! ## `shm` -/

def getShmName (progname : List Char) : List Char := '/' :: progname

/-- A new region of zeros. -/
def allocate (pgSize pages : ℤ) : List Char :=
  List.replicate ((pages * pgSize) % 2 ^ 64).toNat '\x00'

/-- The allocator, whose blocks are offsets into its region. -/
structure ShmAllocator where
  maxSize : ℕ
  currOffset : ℤ
  deriving DecidableEq

/-- `%ul` prints an unsigned `int` and the letter. -/
def exceededMessage (progname : List Char) (n : ℕ) : List Char :=
  "shared memory space of \"".toList ++ getShmName progname ++ "\" exceeded by ".toList ++
    printDec (n % 2 ^ 32 : ℕ) ++ "l bytes".toList

def ShmAllocator.alloc (progname : List Char) (self : ShmAllocator) (size : ℕ) :
    Except ShmError (ℤ × ShmAllocator) :=
  let newOffset := ((self.currOffset + size) % 2 ^ 64).toNat
  if newOffset > self.maxSize then
    .error (.sharedMem (exceededMessage progname (newOffset - self.maxSize)))
  else .ok (self.currOffset, { self with currOffset := toInt32 newOffset })

/-! ## The supervisor -/

/-- The text goes through a string stream. -/
def serializeSessionStateToMembuf (typeid : TypeNames) (ss : SessionState) : List Char :=
  ss.streamOut typeid

/-- The pages for that many bytes. -/
def pagesFor (pgSize shmRequiredSize : ℕ) : ℤ :=
  let pgs := toInt32 (shmRequiredSize / pgSize : ℕ)
  if shmRequiredSize % pgSize ≠ 0 then toInt32 (pgs + 1) else pgs

/-- The function from where the session state is complete. -/
def processInitialCmdDispatchInfo (typeid : TypeNames) (progname : List Char) (pgSize : ℕ)
    (serCmdDispatchInfo : List Char) (ss : SessionState) :
    Except ShmError (ShmAllocator × List Char) := do
  let ssSerMembuf := serializeSessionStateToMembuf typeid ss
  let byteArrayLen := serCmdDispatchInfo.length
  let shmRequiredSize := (4 + byteArrayLen + 4 + ssSerMembuf.length) % 2 ^ 64
  let mem := allocate pgSize (pagesFor pgSize shmRequiredSize)
  let (byteMemBuffer, shmAlloc) ←
    ShmAllocator.alloc progname ⟨mem.length, 0⟩ shmRequiredSize
  let byteMemBufPos := byteMemBuffer
  let mem ← orFault (storeInt32 mem byteMemBufPos byteArrayLen)
  let byteMemBufPos := byteMemBufPos + 4
  let mem ← orFault (store mem byteMemBufPos serCmdDispatchInfo)
  let byteMemBufPos := byteMemBufPos + byteArrayLen
  let mem ← orFault (storeInt32 mem byteMemBufPos (toInt32 ssSerMembuf.length))
  let byteMemBufPos := byteMemBufPos + 4
  let mem ← orFault (store mem byteMemBufPos ssSerMembuf)
  return (shmAlloc, mem)

/-! ## The client -/

/-- Where the text of the session state begins, and its length. -/
def getSessionStateBufInfo (shmBase : List Char) : Except ShmError (ℤ × ℤ) := do
  let byteMemBufPos : ℤ := 0
  let blockSize ← orFault (loadInt32 shmBase byteMemBufPos)
  let byteMemBufPos := byteMemBufPos + 4 + blockSize
  let blockSize ← orFault (loadInt32 shmBase byteMemBufPos)
  let byteMemBufPos := byteMemBufPos + 4
  return (byteMemBufPos, blockSize)

/-- The characters that a `streambufWrapper` on the block stands for. -/
def streambufWrapper (shmBase : List Char) (pbuf size : ℤ) : Except ShmError (List Char) :=
  orFault (load shmBase pbuf (size % 2 ^ 64).toNat)

/-- The session state that was read, and the stream after it. -/
def getCmdDispatchInfo (shmBase : List Char) (ss : SessionState) :
    Except ShmError (SessionState × IStream) := do
  let (pbuf, size) ← getSessionStateBufInfo shmBase
  let buf ← streambufWrapper shmBase pbuf size
  return ss.streamIn { rest := buf }

/-! ## The two sides together -/

/-- The pages hold the bytes. -/
theorem allocate_pagesFor {pgSize size : ℕ} (hpos : 0 < pgSize) (hlt : pgSize < 2 ^ 63)
    (hsize : size < 2 ^ 31) :
    ∃ pages : ℕ, allocate pgSize (pagesFor pgSize size) =
      List.replicate (pages * pgSize) '\x00' ∧ size ≤ pages * pgSize := by
  have hallocate : ∀ pages : ℕ, pages * pgSize < size + pgSize →
      allocate pgSize pages = List.replicate (pages * pgSize) '\x00' := by
    intro pages hpages
    have hnat : (((pages : ℤ) * pgSize) % 2 ^ 64).toNat = pages * pgSize := by
      rw [← Nat.cast_mul]
      omega
    rw [allocate, hnat]
  obtain ⟨q, hq⟩ : ∃ q, q = size / pgSize := ⟨_, rfl⟩
  obtain ⟨r, hr⟩ : ∃ r, r = size % pgSize := ⟨_, rfl⟩
  have hdiv : q * pgSize + r = size := by rw [hq, hr, Nat.mul_comm, Nat.div_add_mod]
  have hmod : r < pgSize := hr ▸ Nat.mod_lt size hpos
  have hle : q ≤ size := hq ▸ Nat.div_le_self _ _
  have hq32 : toInt32 (q : ℤ) = q := toInt32_eq (by omega) (by omega)
  simp only [pagesFor, ← hq, ← hr, hq32]
  by_cases hrem : r = 0
  · refine ⟨q, ?_, by omega⟩
    rw [if_neg (not_not.2 hrem)]
    exact hallocate q (by omega)
  · have htwo : q ≤ size / 2 := by
      rw [hq]
      exact Nat.div_le_div_left (by omega) (by decide)
    have hpages : (q + 1) * pgSize = q * pgSize + pgSize := Nat.succ_mul q pgSize
    have hsucc : toInt32 ((q : ℤ) + 1) = (q + 1 : ℕ) := by
      rw [toInt32_eq (by omega) (by omega), Nat.cast_succ]
    refine ⟨q + 1, ?_, by omega⟩
    rw [if_pos hrem, hsucc]
    exact hallocate (q + 1) (by omega)

theorem alloc_ok (progname : List Char) {maxSize size : ℕ} (hfits : size ≤ maxSize)
    (hsize : size < 2 ^ 31) :
    ShmAllocator.alloc progname ⟨maxSize, 0⟩ size = .ok (0, ⟨maxSize, size⟩) := by
  have hoffset : (((0 : ℤ) + size) % 2 ^ 64).toNat = size := by omega
  simp only [ShmAllocator.alloc, hoffset, if_neg (not_lt.2 hfits)]
  rw [toInt32_eq (by omega) (by omega)]

/-- What the shared memory holds. -/
def published (typeid : TypeNames) (b : List Char) (ss : SessionState) (spare : ℕ) : List Char :=
  int32Bytes b.length ++ b ++ int32Bytes (ss.streamOut typeid).length ++
    ss.streamOut typeid ++ List.replicate spare '\x00'

variable {typeid : TypeNames} {progname b : List Char} {ss : SessionState}
  {pgSize : ℕ}

/-- The two blocks are written one behind the other. -/
theorem processInitialCmdDispatchInfo_ok (typeid : TypeNames) (progname : List Char)
    (hpos : 0 < pgSize) (hlt : pgSize < 2 ^ 63)
    (hsize : 8 + b.length + (ss.streamOut typeid).length < 2 ^ 31) :
    ∃ pages spare : ℕ, processInitialCmdDispatchInfo typeid progname pgSize b ss =
        .ok (⟨pages * pgSize, 8 + b.length + (ss.streamOut typeid).length⟩,
          published typeid b ss spare) ∧
      8 + b.length + (ss.streamOut typeid).length + spare = pages * pgSize := by
  obtain ⟨text, htext⟩ : ∃ text, text = ss.streamOut typeid := ⟨_, rfl⟩
  rw [← htext] at hsize ⊢
  have hrequired : (4 + b.length + 4 + text.length) % 2 ^ 64 =
      8 + b.length + text.length := by omega
  obtain ⟨pages, hallocate, hfits⟩ := allocate_pagesFor hpos hlt hsize
  obtain ⟨spare, hspare⟩ := Nat.exists_eq_add_of_le hfits
  refine ⟨pages, spare, ?_, hspare.symm⟩
  have hlength : toInt32 text.length = text.length := toInt32_eq (by omega) (by omega)
  have halloc := alloc_ok progname hfits hsize
  have hstore₁ : storeInt32 (List.replicate (pages * pgSize) '\x00') 0 b.length =
      some (int32Bytes b.length ++ List.replicate (pages * pgSize - 4) '\x00') :=
    storeInt32_zeros [] rfl _ (by omega)
  have hstore₂ : store _ (0 + 4) b = _ :=
    store_zeros (int32Bytes b.length) (n := pages * pgSize - 4) rfl (by omega)
  have hstore₃ : storeInt32 _ (0 + 4 + b.length) text.length = _ :=
    storeInt32_zeros (int32Bytes b.length ++ b) (k := pages * pgSize - 4 - b.length)
      (by simp) text.length (by omega)
  have hstore₄ : store _ (0 + 4 + b.length + 4) text = _ :=
    store_zeros (int32Bytes b.length ++ b ++ int32Bytes text.length)
      (n := pages * pgSize - 4 - b.length - 4)
      (by simp only [List.length_append, length_int32Bytes]; omega) (by omega)
  simp only [processInitialCmdDispatchInfo, serializeSessionStateToMembuf, ← htext, hrequired,
    hallocate, List.length_replicate, halloc, hlength, bind, Except.bind, orFault, hstore₁, hstore₂,
    hstore₃, hstore₄]
  rw [published, ← htext]
  have hrest : pages * pgSize - 4 - b.length - 4 - text.length = spare := by omega
  rw [hrest]
  rfl

/-- The client finds the second block. -/
theorem getSessionStateBufInfo_published (spare : ℕ)
    (hsize : 8 + b.length + (ss.streamOut typeid).length < 2 ^ 31) :
    getSessionStateBufInfo (published typeid b ss spare) =
        .ok (8 + b.length, (ss.streamOut typeid).length) ∧
      streambufWrapper (published typeid b ss spare) (8 + b.length) (ss.streamOut typeid).length =
        .ok (ss.streamOut typeid) := by
  obtain ⟨text, htext⟩ : ∃ text, text = ss.streamOut typeid := ⟨_, rfl⟩
  rw [published, ← htext]
  rw [← htext] at hsize
  simp only [List.append_assoc]
  constructor
  · have hload₁ : loadInt32 _ 0 = some (b.length : ℤ) := loadInt32_append []
      (b ++ (int32Bytes text.length ++ (text ++ List.replicate spare '\x00'))) rfl
      (by omega) (by omega)
    have hload₂ : loadInt32 _ (0 + 4 + b.length) = some (text.length : ℤ) :=
      loadInt32_append (int32Bytes b.length ++ b) (text ++ List.replicate spare '\x00') (by simp)
        (by omega) (by omega)
    rw [List.nil_append] at hload₁
    rw [List.append_assoc] at hload₂
    simp only [getSessionStateBufInfo, hload₁, hload₂, orFault, bind, Except.bind]
    rw [zero_add, add_right_comm]
    rfl
  · have hload : load _ (8 + b.length) text.length = some text :=
      load_append (int32Bytes b.length ++ (b ++ int32Bytes text.length)) text
        (List.replicate spare '\x00')
        (by simp only [List.length_append, length_int32Bytes]; omega)
    have hnat : ((text.length : ℤ) % 2 ^ 64).toNat = text.length := by omega
    simp only [List.append_assoc] at hload
    rw [streambufWrapper, hnat, hload]
    rfl

/-- **Publishing and reading back.** Whatever the page size, the byte array and the session state,
its strings being lines: both blocks are written into the pages that are allocated; the client
finds the text of the session state, and reads from it, without a failure of the stream, the
session state itself, with null pointers for empty vectors. -/
theorem sessionState_published (typeid : TypeNames) (progname : List Char) {pgSize : ℕ}
    (hpos : 0 < pgSize) (hlt : pgSize < 2 ^ 63) (b : List Char) {ss : SessionState}
    (hline : ss.OneLine) (hsize : 8 + b.length + (ss.streamOut typeid).length < 2 ^ 31) :
    ∃ shmAlloc mem pos,
      processInitialCmdDispatchInfo typeid progname pgSize b ss = .ok (shmAlloc, mem) ∧
      pgSize ∣ mem.length ∧ 8 + b.length + (ss.streamOut typeid).length ≤ mem.length ∧
      getSessionStateBufInfo mem = .ok (pos, (ss.streamOut typeid).length) ∧
      streambufWrapper mem pos (ss.streamOut typeid).length = .ok (ss.streamOut typeid) ∧
      getCmdDispatchInfo mem {} = .ok (ss.withoutEmpty, { rest := [] }) := by
  obtain ⟨pages, spare, hpublish, hspare⟩ :=
    processInitialCmdDispatchInfo_ok typeid progname hpos hlt hsize
  obtain ⟨hinfo, hbuf⟩ := getSessionStateBufInfo_published spare hsize
  have hmem : (published typeid b ss spare).length = pages * pgSize := by
    rw [← hspare]
    simp only [published, List.length_append, length_int32Bytes, List.length_replicate]
    omega
  refine ⟨_, _, _, hpublish, hmem ▸ Nat.dvd_mul_left pgSize pages, by omega, hinfo, hbuf, ?_⟩
  have hread := SessionState.reads_streamOut hline
    (by omega : (ss.streamOut typeid).length < 2 ^ 64) []
  rw [List.append_nil] at hread
  simp only [getCmdDispatchInfo, hinfo, hbuf, bind, Except.bind, hread]
  rfl

/-- A session state with a property that is a newline, and an empty vector of commands. -/
def sampleState : SessionState where
  supervisorPid := -7
  spartanLoggingLevel := ['W']
  spSpartanSupervisorCommands := some [{ command := ['e', 't', 'l'] }]
  spSpartanChildProcessorCommands := some []
  spSerializedSystemProperties := some [['k', '='], ['\n']]

theorem sampleState_oneLine : sampleState.OneLine := by
  constructor <;> simp [sampleState] <;> constructor <;> simp
  constructor <;> simp

theorem sessionState_published_two :
    ∃ shmAlloc mem pos,
      processInitialCmdDispatchInfo ⟨fun _ => ['T'], fun _ => by decide⟩ ['a'] 4096 ['x', 'y']
          sampleState = .ok (shmAlloc, mem) ∧
      4096 ∣ mem.length ∧
      8 + 2 + (sampleState.streamOut ⟨fun _ => ['T'], fun _ => by decide⟩).length ≤ mem.length ∧
      getSessionStateBufInfo mem =
        .ok (pos, (sampleState.streamOut ⟨fun _ => ['T'], fun _ => by decide⟩).length) ∧
      streambufWrapper mem pos
          (sampleState.streamOut ⟨fun _ => ['T'], fun _ => by decide⟩).length =
        .ok (sampleState.streamOut ⟨fun _ => ['T'], fun _ => by decide⟩) ∧
      getCmdDispatchInfo mem {} = .ok (sampleState.withoutEmpty, { rest := [] }) :=
  sessionState_published _ _ (by decide) (by decide) _ sampleState_oneLine (by decide +kernel)

end Spartan
