import LinuxBasedOS.Base.Stores
import LinuxBasedOS.Filesystem.ReadData

/-!
# read_data on the memory

The image and the buffer of the caller lie in one memory: `readDataInto` is `read_data` with the
memory as its state. It reads the image where `filesystem_init` has found it and stores through
`buf`, so what it copies first could change what it reads next.

`readDataInto_eq` says that for a buffer outside the image nothing of the kind happens: the call
returns what `readData` returns on the image, and leaves the bytes of `readData` in the buffer.
-/

namespace LinuxBasedOS.Filesystem

open Word Stores

abbrev Memory := Nat → UInt8

/-- The image at `start`, as `bootblock_ptr` and `inode_start_addr` lead to it. -/
def imageAt (mem : Memory) (start : Nat) : Image := fun addr => mem (start + addr)

def memcpy (mem : Memory) (dest src n : Nat) : Memory := place mem dest (memBytes mem src n)

/-- The `do` loop of `read_data`; `dataStart` is `data_start_addr`, which `filesystem_init` has
computed. -/
def readLoopInto (start dataStart inode totalBlocks : Nat) :
    Nat → Memory → Nat → Nat → Nat → Nat → Nat → Option (Int × Memory)
  | 0, _, _, _, _, _, _ => none
  | fuel + 1, mem, buf, offset, length, currentBlock, writtenBytes =>
    let offsetBlock := u16 (offset % fsBlock)
    let idxBlock := u16 (dblock (imageAt mem start) inode currentBlock)
    if i32 (numData (imageAt mem start)) ≤ (idxBlock : Int) then some (-1, mem)
    else
      let n := if fsBlock - offsetBlock ≤ length then u16 (fsBlock - offsetBlock) else u16 length
      let mem' := memcpy mem buf (dataStart + idxBlock * fsBlock + offsetBlock) n
      let writtenBytes' := u16 (writtenBytes + n)
      let currentBlock' := u16 (currentBlock + 1)
      if currentBlock' ≤ totalBlocks then
        readLoopInto start dataStart inode totalBlocks fuel mem' (buf + n) (u32 (offset + n))
          (u32 (length - n)) currentBlock' writtenBytes'
      else some (writtenBytes', mem')

def readDataInto (mem : Memory) (start inode offset buf length : Nat) : Option (Int × Memory) :=
  let img := imageAt mem start
  if numInode img ≤ inode then some (-1, mem)
  else if inodeLength img inode ≤ offset then some (0, mem)
  else
    let length' :=
      if inodeLength img inode ≤ u32 (offset + length) then inodeLength img inode - offset
      else length
    readLoopInto start (start + dataAddr img 0) inode (u16 (u32 (offset + length') / fsBlock))
      readFuel mem buf offset length' (u16 (offset / fsBlock)) 0

/-- The bytes of the image: the boot block, the inodes and the data blocks. -/
def imageSize (img : Image) : Nat := dataAddr img (numData img)

/-! ## Equal images -/

theorem word_congr {img img' : Image} {addr : Nat} (h : ∀ j < 4, img (addr + j) = img' (addr + j)) :
    word img addr = word img' addr := by
  have h0 := h 0 (by omega)
  rw [Nat.add_zero] at h0
  rw [word, word, h0, h 1 (by omega), h 2 (by omega), h 3 (by omega)]

/-! ## The loop -/

/-- The bytes written before are kept in front of those of the loop. -/
theorem readLoop_append (img : Image) (inode totalBlocks fuel offset length currentBlock
    writtenBytes : Nat) (out : List UInt8) :
    readLoop img inode totalBlocks fuel offset length currentBlock writtenBytes out =
      (readLoop img inode totalBlocks fuel offset length currentBlock writtenBytes []).map
        fun r => (r.1, out ++ r.2) := by
  induction fuel generalizing offset length currentBlock writtenBytes out with
  | zero => rfl
  | succ fuel ih =>
    rw [readLoop, readLoop]
    dsimp only
    rw [copySize_eq]
    generalize min length (fsBlock - u16 (offset % fsBlock)) = n
    split_ifs
    · rw [Option.map_some, List.append_nil]
    · rw [ih, ih _ _ _ _ ([] ++ _), Option.map_map]
      congr 1
      funext r
      simp only [Function.comp_apply, List.nil_append, List.append_assoc]
    · rw [Option.map_some, List.nil_append]

/-- The memory holds the image, and a buffer of `n` bytes is outside of it. -/
structure Outside (img : Image) (mem : Memory) (start buf n : Nat) : Prop where
  image : ∀ a < imageSize img, mem (start + a) = img a
  disjoint : ∀ i < n, ∀ a < imageSize img, buf + i ≠ start + a

/-- Storing in the buffer keeps the image. -/
theorem Outside.place {img : Image} {mem : Memory} {start buf n : Nat}
    (h : Outside img mem start buf n) {bytes : List UInt8} (hlen : bytes.length ≤ n) :
    Outside img (place mem buf bytes) start (buf + bytes.length) (n - bytes.length) := by
  refine ⟨?_, ?_⟩
  · intro a ha
    rw [← h.image a ha]
    apply place_outside
    by_contra hin
    exact h.disjoint (start + a - buf) (by omega) a ha (by omega)
  · intro i hi a ha
    rw [Nat.add_assoc]
    exact h.disjoint _ (by omega) a ha

/-- The fields that the loop reads are those of the image. -/
theorem Outside.word {img : Image} {mem : Memory} {start buf n addr : Nat}
    (h : Outside img mem start buf n) (haddr : addr + 4 ≤ imageSize img) :
    word (imageAt mem start) addr = word img addr := by
  refine word_congr ?_
  intro j hj
  exact h.image _ (by omega)

/-- A copy out of a data block takes the bytes of the image. -/
theorem Outside.memcpy {img : Image} {mem : Memory} {start buf n : Nat}
    (h : Outside img mem start buf n) {block offset size : Nat} (hblock : block < numData img)
    (hsize : offset + size ≤ fsBlock) :
    memcpy mem buf (start + dataAddr img 0 + block * fsBlock + offset) size =
      Stores.place mem buf (memBytes img (dataAddr img block + offset) size) := by
  have haddr : start + dataAddr img 0 + block * fsBlock + offset =
      start + (dataAddr img block + offset) := by
    unfold dataAddr fsBlock
    omega
  rw [Filesystem.memcpy, haddr]
  congr 1
  refine List.map_congr_left ?_
  intro j hj
  have hj' := List.mem_range.mp hj
  rw [Nat.add_assoc]
  refine h.image _ ?_
  unfold imageSize dataAddr fsBlock at *
  omega

/-- A number that the check lets pass is that of a data block of the image. -/
theorem block_lt_of_check {img : Image} {n : Nat}
    (hcheck : ¬ i32 (numData img) ≤ (u16 n : Int)) : u16 n < numData img := by
  have hlt : numData img < 4294967296 := word_lt _ _
  unfold i32 u32 at hcheck
  split at hcheck <;> omega

theorem readLoopInto_eq {img : Image} {start inode totalBlocks fuel : Nat} {mem : Memory}
    {buf offset length currentBlock writtenBytes : Nat} (hlength : length < 4294967296)
    (h : Outside img mem start buf length) (hinode : inode < numInode img) (hdata : 0 < numData img)
    (htotal : totalBlocks ≤ 1023) (hcurrent : currentBlock ≤ 1023) :
    readLoopInto start (start + dataAddr img 0) inode totalBlocks fuel mem buf offset length
        currentBlock writtenBytes =
      (readLoop img inode totalBlocks fuel offset length currentBlock writtenBytes []).map
        fun r => (r.1, Stores.place mem buf r.2) := by
  have hblk : fsBlock = 4096 := rfl
  have hsize : imageSize img = 4096 * (1 + numInode img + numData img) := rfl
  induction fuel generalizing mem buf offset length currentBlock writtenBytes with
  | zero => rfl
  | succ fuel ih =>
    have hentry : dblock (imageAt mem start) inode currentBlock = dblock img inode currentBlock :=
      h.word (by unfold inodeAddr; rw [hblk]; omega)
    have hnum : numData (imageAt mem start) = numData img := h.word (by omega)
    have hmod : u16 (offset % fsBlock) < fsBlock := by
      unfold u16 fsBlock
      omega
    rw [readLoopInto, readLoop, hentry, hnum]
    dsimp only
    rw [copySize_eq]
    generalize hn : min length (fsBlock - u16 (offset % fsBlock)) = n
    by_cases hcheck : i32 (numData img) ≤ (u16 (dblock img inode currentBlock) : Int)
    · rw [if_pos hcheck, if_pos hcheck, Option.map_some, place_nil]
    · rw [if_neg hcheck, if_neg hcheck, h.memcpy (block_lt_of_check hcheck) (by omega),
        u32_sub (by omega) hlength, List.nil_append]
      generalize hbytes : memBytes img (dataAddr img (u16 (dblock img inode currentBlock)) +
        u16 (offset % fsBlock)) n = bytes
      have hlen : bytes.length = n := by rw [← hbytes, length_memBytes]
      have hnext := h.place (show bytes.length ≤ length by omega)
      rw [hlen] at hnext
      split_ifs with hmore
      · rw [ih (by omega) hnext (by omega), readLoop_append _ _ _ _ _ _ _ _ bytes, Option.map_map]
        congr 1
        funext r
        simp only [Function.comp_apply]
        rw [← place_place, hlen]
      · rfl

/-- A call with a buffer outside the image returns what `readData` returns on the image, and
leaves the bytes of `readData` in the buffer. -/
theorem readDataInto_eq {mem : Memory} {start inode offset buf length : Nat}
    (hlength : length < 4294967296) (hdata : 0 < numData (imageAt mem start))
    (hrange : offset + length < 4294967296)
    (hmax : inodeLength (imageAt mem start) inode ≤ 1023 * fsBlock)
    (hdisjoint : ∀ i < min length (inodeLength (imageAt mem start) inode - offset),
      ∀ a < imageSize (imageAt mem start), buf + i ≠ start + a) :
    readDataInto mem start inode offset buf length =
      (readData (imageAt mem start) inode offset length).map
        fun r => (r.1, Stores.place mem buf r.2) := by
  have hblk : fsBlock = 4096 := rfl
  rw [readDataInto, readData]
  dsimp only
  by_cases hinode : numInode (imageAt mem start) ≤ inode
  · rw [if_pos hinode, if_pos hinode, Option.map_some, place_nil]
  · rw [if_neg hinode, if_neg hinode]
    by_cases hoffset : inodeLength (imageAt mem start) inode ≤ offset
    · rw [if_pos hoffset, if_pos hoffset, Option.map_some, place_nil]
    · rw [if_neg hoffset, if_neg hoffset]
      have hclamp : (if inodeLength (imageAt mem start) inode ≤ offset + length then
          inodeLength (imageAt mem start) inode - offset else length) =
            min length (inodeLength (imageAt mem start) inode - offset) := by
        split <;> omega
      rw [u32_add hrange, hclamp]
      generalize hn : min length (inodeLength (imageAt mem start) inode - offset) = n at *
      rw [u32_add (show offset + n < 4294967296 by omega)]
      refine readLoopInto_eq (by omega) ⟨fun _ _ => rfl, hdisjoint⟩ (by omega) hdata ?_ ?_
      · rw [u16_of_lt (by rw [hblk]; omega), hblk]
        omega
      · rw [u16_of_lt (by rw [hblk]; omega), hblk]
        omega

end LinuxBasedOS.Filesystem
