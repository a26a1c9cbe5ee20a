import LinuxBasedOS.Lib.CString

/-!
# The filesystem image and its directory

The image is the memory from `start_addr`, byte by byte. `bootblock_t` is its first block
(three counts, a reserved gap, 63 directory entries of 64 bytes), the inode blocks follow
it, then the data blocks. A slot index past the array, or a block index past an inode, is
read where C reads it: in the bytes that follow.

`readDentryByName` and `readDentryByIndex` fill the caller's `dentry_t`, whose previous
contents are an argument because the callers do not set them.
-/

namespace LinuxBasedOS.Filesystem

open Word Lib

abbrev Image := Nat → UInt8

def filenameLimit : Nat := 32

def fsBlock : Nat := 4096

/-- The little-endian 32-bit word at `addr`. -/
def word (img : Image) (addr : Nat) : Nat :=
  (img addr).toNat + 256 * (img (addr + 1)).toNat + 65536 * (img (addr + 2)).toNat +
    16777216 * (img (addr + 3)).toNat

theorem word_lt (img : Image) (addr : Nat) : word img addr < 4294967296 := by
  have h0 := (img addr).toNat_lt
  have h1 := (img (addr + 1)).toNat_lt
  have h2 := (img (addr + 2)).toNat_lt
  have h3 := (img (addr + 3)).toNat_lt
  unfold word
  omega

def numDir (img : Image) : Nat := word img 0

def numInode (img : Image) : Nat := word img 4

def numData (img : Image) : Nat := word img 8

structure Dentry where
  filename : Nat → UInt8
  filetype : Int
  idxInode : Int

def regFile : Int := 2

def dirFile : Int := 1

/-- The number of entries of the `dentry` array of `bootblock_t`. -/
def dentrySlots : Nat := 63

def dentryAddr (i : Nat) : Nat := 64 + 64 * i

/-- `bootblock_ptr->dentry[i]`. -/
def dentryAt (img : Image) (i : Nat) : Dentry where
  filename k := img (dentryAddr i + k)
  filetype := i32 (word img (dentryAddr i + 32))
  idxInode := i32 (word img (dentryAddr i + 36))

/-! ## Lookup by name -/

/-- `!strncmp(fname, bootblock_ptr->dentry[i].filename, length)` with `length` set to
`FILENAME_LIMIT - 1`. -/
def nameMatches (img : Image) (fname : Nat → UInt8) (i : Nat) : Bool :=
  strncmp fname (dentryAt img i).filename (filenameLimit - 1) == 0

/-- The `while` loop of `read_dentry_by_name` from slot `i`, with `n` slots left: the slots
whose names it reads, and the slot at which it stops. -/
def scanNames (img : Image) (fname : Nat → UInt8) : Nat → Nat → List Nat × Option Nat
  | 0, _ => ([], none)
  | n + 1, i =>
    if nameMatches img fname i then ([i], some i)
    else
      let rest := scanNames img fname n (i + 1)
      (i :: rest.1, rest.2)

/-- The slots `read_dentry_by_name` reads; the loop runs while `i <= num_dir`. -/
def slotsRead (img : Image) (fname : Nat → UInt8) : List Nat :=
  (scanNames img fname (numDir img + 1) 0).1

def matchedSlot (img : Image) (fname : Nat → UInt8) : Option Nat :=
  (scanNames img fname (numDir img + 1) 0).2

def readDentryByName (img : Image) (fname : Nat → UInt8) (dentry : Dentry) : Int × Dentry :=
  match matchedSlot img fname with
  | none => (-1, dentry)
  | some i =>
    (0, { filename := strncpy dentry.filename (dentryAt img i).filename (filenameLimit - 1)
          filetype := (dentryAt img i).filetype
          idxInode := (dentryAt img i).idxInode })

/-! ## Lookup by index -/

def readDentryByIndex (img : Image) (index : Nat) (dentry : Dentry) : Int × Dentry :=
  if numDir img ≤ index then (-1, dentry)
  else
    (0, { filename := strncpy dentry.filename (dentryAt img index).filename (filenameLimit - 1)
          filetype := (dentryAt img index).filetype
          idxInode := (dentryAt img index).idxInode })

/-! ## The scan -/

/-- The scan stops at the first slot of its range whose name matches. -/
theorem scanNames_snd (img : Image) (fname : Nat → UInt8) (n i : Nat) :
    (scanNames img fname n i).2 = (List.range' i n).find? (nameMatches img fname) := by
  induction n generalizing i with
  | zero => rfl
  | succ n ih =>
    rw [List.range'_succ, List.find?_cons]
    unfold scanNames
    cases hm : nameMatches img fname i with
    | true => rfl
    | false => exact ih (i + 1)

/-- The scan reads every slot up to the one at which it stops, and no other. -/
theorem mem_scanNames_slots {img : Image} {fname : Nat → UInt8} {n i j : Nat} :
    j ∈ (scanNames img fname n i).1 ↔
      i ≤ j ∧ j < i + n ∧ ∀ k, i ≤ k → k < j → nameMatches img fname k = false := by
  induction n generalizing i with
  | zero =>
    simp only [scanNames, List.not_mem_nil, false_iff]
    omega
  | succ n ih =>
    unfold scanNames
    by_cases hm : nameMatches img fname i = true
    · simp only [hm, if_true, List.mem_singleton]
      constructor
      · rintro rfl
        exact ⟨Nat.le_refl j, by omega, fun k h1 h2 => by omega⟩
      · rintro ⟨hij, -, hbefore⟩
        rcases Nat.eq_or_lt_of_le hij with rfl | hlt
        · rfl
        · rw [hbefore i (Nat.le_refl i) hlt] at hm
          cases hm
    · simp only [hm, Bool.false_eq_true, if_false, List.mem_cons]
      rw [ih]
      have hf : nameMatches img fname i = false := by simpa using hm
      constructor
      · rintro (rfl | ⟨hij, hjn, hbefore⟩)
        · exact ⟨Nat.le_refl j, by omega, fun k h1 h2 => by omega⟩
        · refine ⟨by omega, by omega, fun k h1 h2 => ?_⟩
          rcases Nat.eq_or_lt_of_le h1 with rfl | hlt
          · exact hf
          · exact hbefore k hlt h2
      · rintro ⟨hij, hjn, hbefore⟩
        rcases Nat.eq_or_lt_of_le hij with rfl | hlt
        · exact Or.inl rfl
        · exact Or.inr ⟨hlt, by omega, fun k h1 h2 => hbefore k (by omega) h2⟩

theorem matchedSlot_eq_find (img : Image) (fname : Nat → UInt8) :
    matchedSlot img fname = (List.range (numDir img + 1)).find? (nameMatches img fname) := by
  rw [List.range_eq_range']
  exact scanNames_snd img fname _ 0

theorem matchedSlot_eq_some {img : Image} {fname : Nat → UInt8} {j : Nat} :
    matchedSlot img fname = some j ↔
      j ≤ numDir img ∧ nameMatches img fname j = true ∧
        ∀ k < j, nameMatches img fname k = false := by
  rw [matchedSlot_eq_find, List.find?_range_eq_some]
  constructor
  · rintro ⟨hm, hj, hbefore⟩
    exact ⟨by rw [List.mem_range] at hj; omega, hm, fun k hk => by simpa using hbefore k hk⟩
  · rintro ⟨hj, hm, hbefore⟩
    exact ⟨hm, List.mem_range.mpr (by omega), fun k hk => by simpa using hbefore k hk⟩

theorem matchedSlot_eq_none {img : Image} {fname : Nat → UInt8} :
    matchedSlot img fname = none ↔ ∀ k ≤ numDir img, nameMatches img fname k = false := by
  rw [matchedSlot_eq_find, List.find?_range_eq_none]
  constructor
  · intro h k hk
    simpa using h k (by omega)
  · intro h k hk
    simpa using h k (by omega)

theorem mem_slotsRead {img : Image} {fname : Nat → UInt8} {j : Nat} :
    j ∈ slotsRead img fname ↔
      j ≤ numDir img ∧ ∀ k < j, nameMatches img fname k = false := by
  unfold slotsRead
  rw [mem_scanNames_slots]
  constructor
  · rintro ⟨-, hj, hbefore⟩
    exact ⟨by omega, fun k hk => hbefore k (Nat.zero_le k) hk⟩
  · rintro ⟨hj, hbefore⟩
    exact ⟨Nat.zero_le j, by omega, fun k _ hk => hbefore k hk⟩

/-! ## A small image -/

/-- The entries `.` (the directory), `rtc` and `f`; the regular file `f` is inode 1 and
holds `hello`. -/
def sampleImage : Image := fun addr =>
  if addr = 0 then 3
  else if addr = 4 then 2
  else if addr = 8 then 1
  else if addr = 64 then 46
  else if addr = 96 then 1
  else if addr = 128 then 114
  else if addr = 129 then 116
  else if addr = 130 then 99
  else if addr = 192 then 102
  else if addr = 224 then 2
  else if addr = 228 then 1
  else if addr = 8192 then 5
  else if addr = 12288 then 104
  else if addr = 12289 then 101
  else if addr = 12290 then 108
  else if addr = 12291 then 108
  else if addr = 12292 then 111
  else 0

end LinuxBasedOS.Filesystem
