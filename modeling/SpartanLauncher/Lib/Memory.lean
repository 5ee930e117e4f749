import SpartanLauncher.Lib.CString

/-!
# A mapped region of memory

The region is the list of its bytes, each a `Char`; a store or a load outside it has no value.
Positions are integers, as the difference of two pointers.

* `store_zeros`, `load_append`: what a store and a load do to a region written front to back.
* `int32OfBytes_int32Bytes`: a little-endian `int32_t` is loaded as it was stored.
-/

open CString

namespace Memory

/-- Write the bytes at the position. -/
def store (mem : List Char) (pos : ℤ) (bytes : List Char) : Option (List Char) :=
  if 0 ≤ pos ∧ pos + bytes.length ≤ mem.length then
    some (mem.take pos.toNat ++ bytes ++ mem.drop (pos.toNat + bytes.length))
  else none

/-- Read as many bytes from the position on. -/
def load (mem : List Char) (pos : ℤ) (len : ℕ) : Option (List Char) :=
  if 0 ≤ pos ∧ pos + len ≤ mem.length then some ((mem.drop pos.toNat).take len) else none

/-- The four bytes of an `int32_t`, the lowest first. -/
def int32Bytes (n : ℤ) : List Char :=
  (List.range 4).map fun i => Char.ofNat ((n % 2 ^ 32).toNat / 256 ^ i % 256)

/-- The `int32_t` with these bytes. -/
def int32OfBytes (bytes : List Char) : ℤ :=
  toInt32 (bytes.foldr (fun c n => c.toNat + 256 * n) 0 : ℕ)

def storeInt32 (mem : List Char) (pos n : ℤ) : Option (List Char) := store mem pos (int32Bytes n)

def loadInt32 (mem : List Char) (pos : ℤ) : Option ℤ := (load mem pos 4).map int32OfBytes

@[simp] theorem length_int32Bytes (n : ℤ) : (int32Bytes n).length = 4 := rfl

theorem toNat_ofNat_byte {k : ℕ} (hk : k < 256) : (Char.ofNat k).toNat = k := by
  have hvalid : k.isValidChar := .inl (by omega)
  rw [Char.ofNat, dif_pos hvalid]
  rfl

theorem int32OfBytes_int32Bytes {n : ℤ} (hlo : -2 ^ 31 ≤ n) (hhi : n < 2 ^ 31) :
    int32OfBytes (int32Bytes n) = n := by
  obtain ⟨u, hu⟩ : ∃ u, u = (n % 2 ^ 32).toNat := ⟨_, rfl⟩
  have hbyte : ∀ i, (Char.ofNat (u / 256 ^ i % 256)).toNat = u / 256 ^ i % 256 :=
    fun i => toNat_ofNat_byte (Nat.mod_lt _ (by decide))
  have hvalue : (int32Bytes n).foldr (fun c n => c.toNat + 256 * n) 0 = u := by
    simp only [int32Bytes, ← hu, List.range, List.range.loop, List.map, List.foldr, hbyte]
    omega
  rw [int32OfBytes, hvalue, toInt32, Int.bmod_def]
  push_cast
  split_ifs <;> omega

/-! ## Regions written front to back -/

variable {bytes : List Char} {pos : ℤ}

/-- Write behind what is written already. -/
theorem store_zeros (pre : List Char) (hpos : pos = pre.length) {n : ℕ} (h : bytes.length ≤ n) :
    store (pre ++ List.replicate n '\x00') pos bytes =
      some (pre ++ bytes ++ List.replicate (n - bytes.length) '\x00') := by
  rw [hpos, store, if_pos (by simp; omega)]
  simp

theorem storeInt32_zeros (pre : List Char) (hpos : pos = pre.length) {k : ℕ} (n : ℤ) (h : 4 ≤ k) :
    storeInt32 (pre ++ List.replicate k '\x00') pos n =
      some (pre ++ int32Bytes n ++ List.replicate (k - 4) '\x00') :=
  store_zeros pre hpos h

theorem load_append (pre bytes post : List Char) (hpos : pos = pre.length) :
    load (pre ++ (bytes ++ post)) pos bytes.length = some bytes := by
  rw [hpos, load, if_pos (by simp)]
  simp

theorem loadInt32_append (pre post : List Char) (hpos : pos = pre.length) {n : ℤ}
    (hlo : -2 ^ 31 ≤ n) (hhi : n < 2 ^ 31) :
    loadInt32 (pre ++ (int32Bytes n ++ post)) pos = some n := by
  have hload : load (pre ++ (int32Bytes n ++ post)) pos 4 = some (int32Bytes n) :=
    load_append pre _ post hpos
  rw [loadInt32, hload, Option.map_some, int32OfBytes_int32Bytes hlo hhi]

end Memory
