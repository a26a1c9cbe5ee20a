import LinuxBasedOS.Filesystem.ReadMemory
import LinuxBasedOS.Filesystem.ReadTurns

/-!
# What read_data delivers of a valid file

A file is valid when its length fits the 1023 entries of its inode and the entries of its blocks
name data blocks of the image. On such a file the loop of `read_data` meets at most one entry that
holds no byte of the request: the one at the end of a request that ends with a block.

* `contents_exact`: the bytes of the request arrive in the buffer, and nothing else is stored.
* `count_exact_iff`: the value returned is their number as long as that fits 16 bits.
* `stops_at_end_iff`: a request whose end passes 2^32 is not clamped; it copies up to the end of
  the block, which may be past the end of the file.
-/

namespace LinuxBasedOS.Filesystem

open Word Cursor

/-! ## Valid files -/

/-- Entry `k`, as the stored 32-bit value, is in `[0, num_data)`. -/
def EntryValid (img : Image) (inode k : Nat) : Prop :=
  0 ≤ i32 (dblock img inode k) ∧ i32 (dblock img inode k) < i32 (numData img)

instance (img : Image) (inode k : Nat) : Decidable (EntryValid img inode k) :=
  inferInstanceAs (Decidable (_ ∧ _))

/-- The length fits the entries of the inode, and the entries that cover the file are valid. -/
structure FileValid (img : Image) (inode : Nat) : Prop where
  length_le : inodeLength img inode ≤ 1023 * fsBlock
  entries : ∀ k, k * fsBlock < inodeLength img inode → EntryValid img inode k

section Entry

variable {img : Image} {inode k : Nat}

theorem EntryValid.value (h : EntryValid img inode k) :
    i32 (dblock img inode k) = (dblock img inode k : Int) := by
  have hlt : dblock img inode k < 4294967296 := word_lt _ _
  have h0 := h.1
  unfold i32 u32 at *
  split at h0 <;> split <;> omega

theorem EntryValid.lt (h : EntryValid img inode k) :
    (dblock img inode k : Int) < i32 (numData img) := by
  rw [← h.value]
  exact h.2

/-- The check of `read_data` lets a valid entry pass. -/
theorem EntryValid.accepted (h : EntryValid img inode k) : Accepted img inode k := by
  have hlt := h.lt
  unfold Accepted u16
  omega

/-- With at most 65536 data blocks a valid entry is not changed by the cut to 16 bits. -/
theorem EntryValid.narrow (h : EntryValid img inode k) (hdata : i32 (numData img) ≤ 65536) :
    u16 (dblock img inode k) = dblock img inode k := by
  have hlt := h.lt
  exact u16_of_lt (by omega)

end Entry

/-! ## The call on a valid file -/

section Call

variable {img : Image} {inode offset length n : Nat}

/-- Whatever the entry at its end is, a request on a valid file writes the bytes of the request.
The entry decides about the value returned only. -/
theorem readData_of_fileValid (h : FileValid img inode) (hinode : inode < numInode img)
    (hoffset : offset < inodeLength img inode) (hrange : offset + length < 4294967296)
    (hn : n = min length (inodeLength img inode - offset)) :
    readData img inode offset length =
      some (if Accepted img inode ((offset + n) / fsBlock) then (u16 n : Int) else -1,
        servedBytes img inode offset n) := by
  have hblk : fsBlock = 4096 := rfl
  have hmax := h.length_le
  have hclamp := clampedLength_of_lt hrange hn hoffset
  obtain ⟨r, hr⟩ := Nat.exists_eq_add_of_le
    (show offset / fsBlock ≤ (offset + n) / fsBlock from Nat.div_le_div_right (by omega))
  have hend := (endBlock_of_lt hrange hn hoffset (by rw [hblk] at *; omega)).trans hr
  -- the entries before the last turn cover bytes of the request
  have hvalid : ∀ k, k * fsBlock < offset + n → Accepted img inode k := by
    intro k hk
    exact (h.entries k (by omega)).accepted
  have hbefore : ∀ k, offset / fsBlock ≤ k → k < offset / fsBlock + r → Accepted img inode k := by
    intro k _ hk
    refine hvalid k ?_
    rw [hblk] at *
    omega
  rw [hr]
  by_cases hlast : Accepted img inode (offset / fsBlock + r)
  · have hall : ∀ k, offset / fsBlock ≤ k → k ≤ offset / fsBlock + r → Accepted img inode k := by
      intro k hk hk'
      rcases Nat.eq_or_lt_of_le hk' with rfl | hlt
      · exact hlast
      · exact hbefore k hk hlt
    rw [readData_of_accepted hinode hoffset (by omega) hend (by rw [hblk] at *; omega) hall, hclamp,
      copiedBefore_end hr.symm, if_pos hlast]
  · have hcopied : copiedBefore offset n r = n := by
      have hpast : ¬ (offset / fsBlock + r) * fsBlock < offset + n := fun hlt => hlast (hvalid _ hlt)
      unfold copiedBefore
      rw [hblk] at *
      omega
    rw [readData_of_rejected hinode hoffset (by omega) hend hbefore hlast, hclamp, hcopied,
      if_neg hlast]

/-- A request whose end passes 2^32 is not clamped, and is served one turn. -/
theorem readData_of_wrap (h : FileValid img inode) (hinode : inode < numInode img)
    (hoffset : offset < inodeLength img inode) (hlength : length < 4294967296)
    (hwrap : 4294967296 ≤ offset + length)
    (hn : n = (offset / fsBlock + 1) * fsBlock - offset) :
    readData img inode offset length = some ((u16 n : Int), servedBytes img inode offset n) := by
  have hblk : fsBlock = 4096 := rfl
  have hmax := h.length_le
  have hsum : u32 ((offset : Int) + (length : Int)) = offset + length - 4294967296 := by
    unfold u32
    omega
  have hclamp : clampedLength img inode offset length = length := by
    rw [clampedLength, hsum, if_neg (by omega)]
  have hend : endBlock img inode offset length ≤ offset / fsBlock := by
    rw [endBlock, hclamp, hsum, u16_of_lt (by rw [hblk]; omega)]
    exact Nat.div_le_div_right (by omega)
  have hfirst : turnBlock offset 0 = offset / fsBlock := u16_of_lt (by rw [hblk]; omega)
  have hstop : ¬ turnBlock offset (0 + 1) ≤ endBlock img inode offset length := by
    rw [turnBlock, u16_of_lt (by rw [hblk]; omega)]
    omega
  have hall : ∀ j ≤ 0, Accepted img inode (turnBlock offset j) := by
    intro j hj
    rw [Nat.le_zero.mp hj, hfirst]
    exact (h.entries _ (by rw [hblk]; omega)).accepted
  have hreached : Reached img inode offset length 0 := fun j hj => absurd hj (Nat.not_lt_zero j)
  have hcopied : copiedBefore offset length (0 + 1) = n := by
    rw [copiedBefore, hn, hblk]
    rw [hblk] at hmax
    omega
  rw [readData_eq_readCopies, readCopies_completed hinode hoffset hlength hreached hstop hall,
    hclamp, Option.map_some, flatMap_turnCopies, hcopied]

end Call

/-! ## Contents -/

theorem FileValid.servedByte {img : Image} {inode j : Nat} (h : FileValid img inode)
    (hdata : i32 (numData img) ≤ 65536) (hj : j < inodeLength img inode) :
    servedByte img inode j = fileByte img inode j := by
  have hmax := h.length_le
  have hentry := h.entries (j / fsBlock) (Nat.lt_of_le_of_lt (Nat.div_mul_le_self _ _) hj)
  have hcounter : u16 (j / fsBlock) = j / fsBlock := by
    unfold fsBlock at *
    exact u16_of_lt (by omega)
  rw [Filesystem.servedByte, fileByte, hcounter, hentry.narrow hdata]

/-- **Contents.** Whatever `read_data` returns, it leaves the bytes of the request in the buffer,
in order, and changes no other byte of the memory, for every valid file and every buffer outside
the image. -/
theorem contents_exact {mem : Memory} {start inode offset buf length : Nat}
    (h : FileValid (imageAt mem start) inode) (hdata : i32 (numData (imageAt mem start)) ≤ 65536)
    (hinode : inode < numInode (imageAt mem start))
    (hoffset : offset < inodeLength (imageAt mem start) inode)
    (hrange : offset + length < 4294967296)
    (hdisjoint : ∀ i < length, ∀ a < imageSize (imageAt mem start), buf + i ≠ start + a) :
    ∃ r mem', readDataInto mem start inode offset buf length = some (r, mem') ∧
      memBytes mem' buf (min length (inodeLength (imageAt mem start) inode - offset)) =
        chunk (fileBytes (imageAt mem start) inode) offset length ∧
      ∀ a, a < buf ∨ buf + min length (inodeLength (imageAt mem start) inode - offset) ≤ a →
        mem' a = mem a := by
  obtain ⟨n, hn⟩ : ∃ n, n = min length (inodeLength (imageAt mem start) inode - offset) := ⟨_, rfl⟩
  have hpos : 0 < numData (imageAt mem start) := by
    have hlt := (h.entries 0 (by omega)).lt
    rcases Nat.eq_zero_or_pos (numData (imageAt mem start)) with hzero | hpos
    · rw [hzero] at hlt
      have h0 : i32 ((0 : Nat) : Int) = 0 := rfl
      omega
    · exact hpos
  have hcall := @readDataInto_eq mem start inode offset buf length (by omega) hpos hrange
    h.length_le (fun i hi a ha => hdisjoint i (by omega) a ha)
  have hbytes : servedBytes (imageAt mem start) inode offset n =
      chunk (fileBytes (imageAt mem start) inode) offset length := by
    rw [servedBytes_eq_blockBytes fun j hj => h.servedByte hdata (by omega),
      chunk_eq_blockBytes hn (by omega)]
  rw [readData_of_fileValid h hinode hoffset hrange hn, Option.map_some] at hcall
  rw [← hn]
  refine ⟨_, _, hcall, ?_, ?_⟩
  · rw [← hbytes]
    refine List.ext_getElem (by simp) ?_
    intro i hi hi'
    have hin : i < (servedBytes (imageAt mem start) inode offset n).length := hi'
    rw [getElem_memBytes]
    exact Stores.place_inside mem buf hin
  · intro a ha
    apply Stores.place_outside
    rw [length_servedBytes]
    exact ha

theorem fileValid_sampleImage : FileValid sampleImage 1 where
  length_le := by decide
  entries k hk := by
    have hlength : inodeLength sampleImage 1 = 5 := by decide
    have hzero : k = 0 := by
      unfold fsBlock at hk
      omega
    rw [hzero]
    decide

theorem imageAt_zero (mem : Memory) : imageAt mem 0 = mem := by
  funext a
  rw [imageAt, Nat.zero_add]

/-- Three bytes of `hello` are read into a buffer behind the image. -/
theorem contents_exact_sample :
    ∃ r mem', readDataInto sampleImage 0 1 1 20000 3 = some (r, mem') ∧
      memBytes mem' 20000 3 = [101, 108, 108] ∧ mem' 20003 = sampleImage 20003 := by
  have himage := imageAt_zero sampleImage
  have hsize : imageSize sampleImage = 16384 := by decide
  obtain ⟨r, mem', hcall, hbytes, hkept⟩ := @contents_exact sampleImage 0 1 1 20000 3
    (by rw [himage]; exact fileValid_sampleImage) (by rw [himage]; decide) (by rw [himage]; decide)
    (by rw [himage]; decide) (by decide) (by rw [himage, hsize]; omega)
  rw [himage] at hbytes hkept
  refine ⟨r, mem', hcall, hbytes.trans (by decide), hkept 20003 (Or.inr (by decide))⟩

/-! ## Counts -/

/-- A call that does not fail returns the number of bytes that are left of the request, and has
copied as many. -/
def CountExact (img : Image) (inode offset length : Nat) : Prop :=
  ∀ r bytes, readData img inode offset length = some (r, bytes) → r ≠ -1 →
    r = (min length (inodeLength img inode - offset) : Nat) ∧
      bytes.length = min length (inodeLength img inode - offset)

/-- **Counts.** On a valid file the value returned is right exactly when it fits the 16-bit
counter, or when the call fails: the entry at the end of the request is rejected. -/
theorem count_exact_iff {img : Image} {inode offset length : Nat} (h : FileValid img inode)
    (hinode : inode < numInode img) (hrange : offset + length < 4294967296) :
    CountExact img inode offset length ↔
      min length (inodeLength img inode - offset) < 65536 ∨
        ¬ Accepted img inode
          ((offset + min length (inodeLength img inode - offset)) / fsBlock) := by
  obtain ⟨n, hn⟩ : ∃ n, n = min length (inodeLength img inode - offset) := ⟨_, rfl⟩
  unfold CountExact
  rw [← hn]
  rcases Nat.lt_or_ge offset (inodeLength img inode) with hoffset | hpast
  · have hcall := readData_of_fileValid h hinode hoffset hrange hn
    constructor
    · intro hexact
      by_cases haccepted : Accepted img inode ((offset + n) / fsBlock)
      · rw [if_pos haccepted] at hcall
        have hcount := (hexact _ _ hcall (by omega)).1
        unfold u16 at hcount
        omega
      · exact Or.inr haccepted
    · rintro hfits r bytes hcall' hr
      rw [hcall] at hcall'
      cases hcall'
      rw [length_servedBytes]
      refine ⟨?_, rfl⟩
      split_ifs at hr ⊢ with haccepted
      · rw [u16_of_lt (hfits.resolve_right (not_not.mpr haccepted))]
      · exact absurd rfl hr
  · have hzero : n = 0 := by omega
    rw [hzero]
    constructor
    · intro _
      exact Or.inl (by omega)
    · intro _ r bytes hcall hr
      rw [readData_past_end hinode hpast] at hcall
      cases hcall
      exact ⟨rfl, rfl⟩

/-- Three bytes of `hello` are counted. -/
theorem count_exact_sample : CountExact sampleImage 1 1 3 :=
  (count_exact_iff fileValid_sampleImage (by decide) (by decide)).mpr (Or.inl (by decide))

/-- One inode of 65536 bytes, all of them in the one data block of the image. -/
def longImage : Image := fun addr => if addr = 4 ∨ addr = 8 ∨ addr = 4098 then 1 else 0

theorem dblock_longImage (k : Nat) : dblock longImage 0 k = 0 := by
  unfold dblock word inodeAddr fsBlock
  have hzero : ∀ addr, 4099 < addr → longImage addr = 0 := by
    intro addr haddr
    rw [longImage, if_neg (by omega)]
  rw [hzero _ (by omega), hzero _ (by omega), hzero _ (by omega), hzero _ (by omega)]
  rfl

theorem entryValid_longImage (k : Nat) : EntryValid longImage 0 k := by
  unfold EntryValid
  rw [dblock_longImage]
  decide

theorem fileValid_longImage : FileValid longImage 0 where
  length_le := by decide
  entries k _ := entryValid_longImage k

/-- A read of the whole file returns 0, as at its end. -/
theorem count_wraps :
    FileValid longImage 0 ∧ 0 < numInode longImage ∧ inodeLength longImage 0 = 65536 ∧
      (∃ bytes, readData longImage 0 0 65536 = some (0, bytes) ∧ bytes.length = 65536) ∧
      ¬ CountExact longImage 0 0 65536 := by
  have hlength : inodeLength longImage 0 = 65536 := by decide
  have hcall := @readData_of_fileValid longImage 0 0 65536 65536 fileValid_longImage (by decide)
    (by omega) (by omega) (by omega)
  rw [if_pos (entryValid_longImage _).accepted] at hcall
  refine ⟨fileValid_longImage, by decide, hlength, ⟨_, hcall, length_servedBytes _ _ _ _⟩, ?_⟩
  intro hexact
  have hcount := (hexact _ _ hcall (by decide)).1
  rw [hlength] at hcount
  exact absurd hcount (by decide)

/-! ## The end of the file -/

/-- The call copies at most the bytes that are left of the file. -/
def StopsAtEnd (img : Image) (inode offset length : Nat) : Prop :=
  ∃ r bytes, readData img inode offset length = some (r, bytes) ∧
    bytes.length ≤ inodeLength img inode - offset

/-- **The end of the file.** A read on a valid file copies no byte past its end exactly when it
begins past the end, or its end does not pass 2^32, or the block it begins in is full. -/
theorem stops_at_end_iff {img : Image} {inode : Nat} (h : FileValid img inode)
    (hinode : inode < numInode img) (position nbytes : Int) :
    StopsAtEnd img inode (u32 position) (u32 nbytes) ↔
      inodeLength img inode ≤ u32 position ∨ u32 position + u32 nbytes < 4294967296 ∨
        (u32 position / fsBlock + 1) * fsBlock ≤ inodeLength img inode := by
  have hlength := u32_lt nbytes
  generalize u32 position = offset
  generalize u32 nbytes = length at hlength
  unfold StopsAtEnd
  rcases Nat.lt_or_ge offset (inodeLength img inode) with hoffset | hpast
  · rcases Nat.lt_or_ge (offset + length) 4294967296 with hrange | hwrap
    · have hcall := readData_of_fileValid h hinode hoffset hrange rfl
      constructor
      · exact fun _ => Or.inr (Or.inl hrange)
      · intro _
        refine ⟨_, _, hcall, ?_⟩
        rw [length_servedBytes]
        exact Nat.min_le_right _ _
    · have hcall := readData_of_wrap h hinode hoffset hlength hwrap rfl
      constructor
      · rintro ⟨r, bytes, hcall', hbytes⟩
        rw [hcall] at hcall'
        cases hcall'
        rw [length_servedBytes] at hbytes
        exact Or.inr (Or.inr (by omega))
      · intro hcond
        refine ⟨_, _, hcall, ?_⟩
        rw [length_servedBytes]
        omega
  · constructor
    · exact fun _ => Or.inl hpast
    · exact fun _ => ⟨_, _, readData_past_end hinode hpast, Nat.zero_le _⟩

theorem stops_at_end_sample : StopsAtEnd sampleImage 1 (u32 1) (u32 100) :=
  (stops_at_end_iff fileValid_sampleImage (by decide) 1 100).mpr (Or.inr (Or.inl (by decide)))

/-- A read of `-1` bytes at position 1 of `hello` copies 4095 bytes. -/
theorem read_passes_end :
    FileValid sampleImage 1 ∧ 1 < numInode sampleImage ∧
      (∃ r bytes, readData sampleImage 1 (u32 1) (u32 (-1)) = some (r, bytes) ∧
        bytes.length = 4095) ∧
      ¬ StopsAtEnd sampleImage 1 (u32 1) (u32 (-1)) := by
  have hcall := @readData_of_wrap sampleImage 1 (u32 1) (u32 (-1)) 4095 fileValid_sampleImage
    (by decide) (by decide) (by decide) (by decide) (by decide)
  refine ⟨fileValid_sampleImage, by decide, ⟨_, _, hcall, length_servedBytes _ _ _ _⟩, ?_⟩
  rintro ⟨r, bytes, hcall', hbytes⟩
  rw [hcall] at hcall'
  cases hcall'
  rw [length_servedBytes] at hbytes
  exact absurd hbytes (by decide)

end LinuxBasedOS.Filesystem
