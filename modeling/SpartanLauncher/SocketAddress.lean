import SpartanLauncher.Client

/-!
# Socket addresses

The parent binds a datagram socket to a name, and the spawned program sends to a socket of the
same name. `init_sockaddr` makes an address out of a name: the path is cut to the buffer of the
structure, the first byte is overwritten for the abstract name space, and the length is computed
from the name as it was.

**Theorem (`initSockaddr_sound_iff`).** The addresses of two names are in bounds and distinct
exactly when the names are not longer than the buffer, and differ in what is copied or in their
lengths if they differ at all.
-/

namespace Spartan

open CString

/-! ## The address -/

def afUnix : ℕ := 1
def sizeofSunPath : ℕ := 108
/-- The path is behind the two bytes of the family. -/
def sizeofSockaddrUn : ℕ := 2 + sizeofSunPath

structure SockaddrUn where
  sunFamily : ℕ
  sunPath : List Char
  deriving DecidableEq

/-- The length of an address: an expression in `size_t` that is kept as a `socklen_t`. -/
def addrLen (size : ℕ) : ℕ :=
  ((sizeofSockaddrUn - (sizeofSunPath - size : ℤ) % 2 ^ 64) % 2 ^ 64 % 2 ^ 32).toNat

/-- `init_sockaddr`: the address and its length. -/
def initSockaddr (udsSockName : List Char) : SockaddrUn × ℕ :=
  let cleared := List.replicate sizeofSunPath '\x00'
  let pathBufEnd := sizeofSunPath - 1
  let copied := strncpy udsSockName pathBufEnd ++ cleared.drop pathBufEnd
  ({ sunFamily := afUnix, sunPath := (copied.set pathBufEnd '\x00').set 0 '\x00' },
    addrLen udsSockName.length)

/-- A name that begins with a slash, as a C string. -/
structure SocketName (name : List Char) : Prop where
  head : name.head? = some '/'
  nulFree : '\x00' ∉ name

/-- The addresses are not longer than the structure, and equal only if the names are. -/
def AddressesSound (name name' : List Char) : Prop :=
  (initSockaddr name).2 ≤ sizeofSockaddrUn ∧ (initSockaddr name').2 ≤ sizeofSockaddrUn ∧
    (initSockaddr name = initSockaddr name' → name = name')

/-! ## What is kept of a name -/

theorem initSockaddr_snd (name : List Char) : (initSockaddr name).2 = addrLen name.length := rfl

theorem addrLen_eq (size : ℕ) : addrLen size = (size + 2) % 2 ^ 32 := by
  unfold addrLen sizeofSockaddrUn sizeofSunPath
  omega

/-- The first byte of the name is overwritten, and the last byte of the buffer is not used. -/
theorem sunPath_eq (rest : List Char) :
    (initSockaddr ('/' :: rest)).1.sunPath =
      '\x00' :: (strncpy rest (sizeofSunPath - 2) ++ ['\x00']) := by
  have hcopied : strncpy ('/' :: rest) (sizeofSunPath - 1) =
      '/' :: strncpy rest (sizeofSunPath - 2) := by
    simp [strncpy, sizeofSunPath]
  have hlength : ('/' :: strncpy rest (sizeofSunPath - 2)).length = sizeofSunPath - 1 := by
    rw [List.length_cons, length_strncpy]
    rfl
  show ((strncpy ('/' :: rest) (sizeofSunPath - 1) ++ ['\x00']).set (sizeofSunPath - 1)
    '\x00').set 0 '\x00' = _
  rw [hcopied, List.set_append_right _ _ hlength.le, hlength, Nat.sub_self]
  rfl

variable {name name' : List Char}

theorem SocketName.exists_cons (h : SocketName name) :
    ∃ rest, name = '/' :: rest ∧ '\x00' ∉ rest := by
  obtain ⟨rest, rfl⟩ := List.head?_eq_some_iff.1 h.head
  exact ⟨rest, rfl, fun hmem => h.nulFree (List.mem_cons_of_mem _ hmem)⟩

/-- **Which names have the same address**: those that agree in front of the last byte of the
buffer, and in their lengths as far as a `socklen_t` keeps them. -/
theorem initSockaddr_eq_iff (h : SocketName name) (h' : SocketName name') :
    initSockaddr name = initSockaddr name' ↔
      name.take (sizeofSunPath - 1) = name'.take (sizeofSunPath - 1) ∧
        name.length % 2 ^ 32 = name'.length % 2 ^ 32 := by
  obtain ⟨rest, rfl, hrest⟩ := h.exists_cons
  obtain ⟨rest', rfl, hrest'⟩ := h'.exists_cons
  have hpath : (initSockaddr ('/' :: rest)).1 = (initSockaddr ('/' :: rest')).1 ↔
      ('/' :: rest).take (sizeofSunPath - 1) = ('/' :: rest').take (sizeofSunPath - 1) := by
    show SockaddrUn.mk afUnix (initSockaddr ('/' :: rest)).1.sunPath =
      SockaddrUn.mk afUnix (initSockaddr ('/' :: rest')).1.sunPath ↔
        '/' :: rest.take (sizeofSunPath - 2) = '/' :: rest'.take (sizeofSunPath - 2)
    rw [SockaddrUn.mk.injEq, sunPath_eq, sunPath_eq, List.cons_inj_right, List.cons_inj_right,
      List.append_left_inj, strncpy_eq_iff hrest hrest']
    simp only [true_and]
  rw [Prod.ext_iff, hpath]
  refine and_congr_right fun _ => ?_
  show addrLen _ = addrLen _ ↔ _
  rw [addrLen_eq, addrLen_eq]
  omega

/-- **Socket addresses** are in bounds and distinct exactly when the names fit into the buffer and
differ where it is seen. -/
theorem initSockaddr_sound_iff (h : SocketName name) (h' : SocketName name') :
    AddressesSound name name' ↔
      (name.length + 2) % 2 ^ 32 ≤ sizeofSockaddrUn ∧
      (name'.length + 2) % 2 ^ 32 ≤ sizeofSockaddrUn ∧
      (name.take (sizeofSunPath - 1) = name'.take (sizeofSunPath - 1) →
        name.length % 2 ^ 32 = name'.length % 2 ^ 32 → name = name') := by
  rw [AddressesSound, initSockaddr_eq_iff h h', and_imp]
  show addrLen name.length ≤ _ ∧ addrLen name'.length ≤ _ ∧ _ ↔ _
  rw [addrLen_eq, addrLen_eq]

theorem initSockaddr_sound_short :
    AddressesSound "/tmp/spartan_JLauncher_UDS_7_11".toList
      "/tmp/spartan_JLauncher_UDS_7_12".toList :=
  (initSockaddr_sound_iff ⟨rfl, by decide⟩ ⟨rfl, by decide⟩).2
    ⟨by decide, by decide, fun h => absurd h (by decide)⟩

/-- Names that fit in front of the last byte of the buffer. -/
theorem initSockaddr_sound_of_length_lt (h : SocketName name) (h' : SocketName name')
    (hlt : name.length < sizeofSunPath) (hlt' : name'.length < sizeofSunPath) :
    AddressesSound name name' := by
  unfold sizeofSunPath at hlt hlt'
  refine (initSockaddr_sound_iff h h').2 ⟨?_, ?_, ?_⟩
  · unfold sizeofSockaddrUn sizeofSunPath
    omega
  · unfold sizeofSockaddrUn sizeofSunPath
    omega
  · intro htake _
    have hall : ∀ s : List Char, s.length < 108 → s.take (sizeofSunPath - 1) = s :=
      fun s hs => List.take_of_length_le (Nat.le_pred_of_lt hs)
    rwa [hall name hlt, hall name' hlt'] at htake

/-! ## The names of the launcher -/

theorem socketName_makeFifoPipeName {progname basename : List Char} (pid : Pid) (rndNbr : ℕ)
    (hprogname : '\x00' ∉ progname) (hbasename : '\x00' ∉ basename) :
    SocketName (makeFifoPipeName progname basename pid rndNbr) := by
  have hdec : ∀ n : ℕ, '\x00' ∉ printDec n := by
    intro n hmem
    exact absurd (isDigit_printDec hmem) (by decide)
  rw [makeFifoPipeName, snprintfGrow_eq]
  refine ⟨rfl, ?_⟩
  simp [hprogname, hbasename, hdec]

/-- The path of a program in a deep directory. -/
def longProgpath : List Char := '/' :: List.replicate 100 'a'

/-- The name that is made for it, with a random number. -/
def longName (rndNbr : ℕ) : List Char :=
  makeFifoPipeName longProgpath "JLauncher_UDS".toList ⟨7, by decide, by decide⟩ rndNbr

/-- The name in front of the random number is longer than the buffer. -/
def longFront : List Char := "/tmp/".toList ++ longProgpath ++ "_JLauncher_UDS_7_".toList

theorem length_longFront : longFront.length = 123 := by
  have hpath : longProgpath.length = 101 := congrArg Nat.succ List.length_replicate
  calc longFront.length
      = ("/tmp/".toList ++ longProgpath).length + 17 := List.length_append
    _ = 5 + longProgpath.length + 17 := congrArg (· + 17) List.length_append
    _ = 123 := by rw [hpath]

theorem longName_eq (rndNbr : ℕ) : longName rndNbr = longFront ++ printDec rndNbr :=
  snprintfGrow_eq 256 _

theorem take_longName (rndNbr : ℕ) :
    (longName rndNbr).take (sizeofSunPath - 1) = longFront.take (sizeofSunPath - 1) := by
  rw [longName_eq]
  apply List.take_append_of_le_length
  rw [length_longFront]
  decide

/-- Two names of a program with a long path, which have one address, and that is too long. -/
theorem initSockaddr_longName :
    SocketName (longName 11) ∧ SocketName (longName 12) ∧ longName 11 ≠ longName 12 ∧
      initSockaddr (longName 11) = initSockaddr (longName 12) ∧
      sizeofSockaddrUn < (initSockaddr (longName 11)).2 ∧
      ¬ AddressesSound (longName 11) (longName 12) := by
  have hname : SocketName (longName 11) := socketName_makeFifoPipeName _ _ (by decide) (by decide)
  have hname' : SocketName (longName 12) := socketName_makeFifoPipeName _ _ (by decide) (by decide)
  have hne : longName 11 ≠ longName 12 := by
    rw [longName_eq, longName_eq, Ne, List.append_cancel_left_eq]
    decide
  have heq : initSockaddr (longName 11) = initSockaddr (longName 12) := by
    refine (initSockaddr_eq_iff hname hname').2 ⟨?_, ?_⟩
    · rw [take_longName, take_longName]
    · have hlength : (printDec (11 : ℕ)).length = (printDec (12 : ℕ)).length := rfl
      rw [longName_eq, longName_eq, List.length_append, List.length_append, hlength]
  have hlong : sizeofSockaddrUn < (initSockaddr (longName 11)).2 := by
    rw [initSockaddr_snd, longName_eq, List.length_append, length_longFront]
    decide
  exact ⟨hname, hname', hne, heq, hlong, fun h => hne (h.2.2 heq)⟩

end Spartan
