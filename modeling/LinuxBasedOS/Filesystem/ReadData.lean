import LinuxBasedOS.Base.Cursor
import LinuxBasedOS.Filesystem.Image

/-!
# Reading the bytes of an inode

`readData` is `read_data` with its 16-bit counters: it gives the value returned and the
bytes written from `buf` on, in order. The loop gives up on a bad block entry after it has
written the bytes of the blocks before it.

`readLoop` runs on fuel. The loop counter is a 16-bit variable, so a loop that has gone
round once for each of its values is in a cycle; `readFuel` is one turn more than that.
-/

namespace LinuxBasedOS.Filesystem

open Word Cursor

/-- The address of an inode: the inode blocks follow the boot block. -/
def inodeAddr (inode : Nat) : Nat := fsBlock * (1 + inode)

def inodeLength (img : Image) (inode : Nat) : Nat := word img (inodeAddr inode)

/-- `inode_ptr->dblocks[k]`. -/
def dblock (img : Image) (inode k : Nat) : Nat := word img (inodeAddr inode + 4 + 4 * k)

/-- The address of a data block: the data blocks follow the inode blocks. -/
def dataAddr (img : Image) (block : Nat) : Nat := fsBlock * (1 + numInode img + block)

/-- The bytes `memcpy` takes from `addr`. -/
def memBytes (img : Image) (addr n : Nat) : List UInt8 :=
  (List.range n).map fun j => img (addr + j)

@[simp] theorem length_memBytes (img : Image) (addr n : Nat) : (memBytes img addr n).length = n := by
  simp [memBytes]

theorem getElem_memBytes (img : Image) (addr n j : Nat) (h : j < (memBytes img addr n).length) :
    (memBytes img addr n)[j] = img (addr + j) := by
  simp only [memBytes, List.getElem_map, List.getElem_range]

theorem memBytes_succ (img : Image) (addr n : Nat) :
    memBytes img addr (n + 1) = memBytes img addr n ++ [img (addr + n)] := by
  rw [memBytes, List.range_succ, List.map_append]
  rfl

/-- The `do` loop of `read_data`. -/
def readLoop (img : Image) (inode totalBlocks : Nat) :
    Nat → Nat → Nat → Nat → Nat → List UInt8 → Option (Int × List UInt8)
  | 0, _, _, _, _, _ => none
  | fuel + 1, offset, length, currentBlock, writtenBytes, out =>
    let offsetBlock := u16 (offset % fsBlock)
    let idxBlock := u16 (dblock img inode currentBlock)
    if i32 (numData img) ≤ (idxBlock : Int) then some (-1, out)
    else
      let n := if fsBlock - offsetBlock ≤ length then u16 (fsBlock - offsetBlock) else u16 length
      let out' := out ++ memBytes img (dataAddr img idxBlock + offsetBlock) n
      let writtenBytes' := u16 (writtenBytes + n)
      let currentBlock' := u16 (currentBlock + 1)
      if currentBlock' ≤ totalBlocks then
        readLoop img inode totalBlocks fuel (u32 (offset + n)) (u32 (length - n)) currentBlock'
          writtenBytes' out'
      else some (writtenBytes', out')

def readFuel : Nat := 65537

def readData (img : Image) (inode offset length : Nat) : Option (Int × List UInt8) :=
  if numInode img ≤ inode then some (-1, [])
  else if inodeLength img inode ≤ offset then some (0, [])
  else
    let length' :=
      if inodeLength img inode ≤ u32 (offset + length) then inodeLength img inode - offset
      else length
    readLoop img inode (u16 (u32 (offset + length') / fsBlock)) readFuel offset length'
      (u16 (offset / fsBlock)) 0 []

/-- A turn copies up to the end of the block, or what is left of the request; either fits the
16-bit variable. -/
theorem copySize_eq (offsetBlock length : Nat) :
    (if fsBlock - offsetBlock ≤ length then u16 (fsBlock - offsetBlock) else u16 length) =
      min length (fsBlock - offsetBlock) := by
  have hblk : fsBlock = 4096 := rfl
  split
  · rw [u16_of_lt (by omega)]
    omega
  · rw [u16_of_lt (by omega)]
    omega

/-! ## The bytes of a file -/

/-- Byte `j` of the concatenation of the data blocks of an inode. -/
def fileByte (img : Image) (inode j : Nat) : UInt8 :=
  img (dataAddr img (dblock img inode (j / fsBlock)) + j % fsBlock)

/-- `n` bytes of the blocks of an inode, from byte `start`. -/
def blockBytes (img : Image) (inode start n : Nat) : List UInt8 :=
  (List.range n).map fun j => fileByte img inode (start + j)

/-- The contents of the file: its data blocks, cut to the length of the inode. -/
def fileBytes (img : Image) (inode : Nat) : List UInt8 :=
  blockBytes img inode 0 (inodeLength img inode)

/-- A range of bytes is read in two pieces. -/
theorem map_range_add {α : Type} (byte : Nat → α) (start m n : Nat) :
    (List.range (m + n)).map (fun j => byte (start + j)) =
      (List.range m).map (fun j => byte (start + j)) ++
        (List.range n).map fun j => byte (start + m + j) := by
  rw [List.range_add, List.map_append, List.map_map]
  congr 1
  apply List.map_congr_left
  intro j _
  simp only [Function.comp_apply, Nat.add_assoc]

@[simp] theorem length_blockBytes (img : Image) (inode start n : Nat) :
    (blockBytes img inode start n).length = n := by
  simp [blockBytes]

theorem length_fileBytes (img : Image) (inode : Nat) :
    (fileBytes img inode).length = inodeLength img inode := length_blockBytes _ _ _ _

theorem blockBytes_add (img : Image) (inode start m n : Nat) :
    blockBytes img inode start (m + n) =
      blockBytes img inode start m ++ blockBytes img inode (start + m) n :=
  map_range_add (fileByte img inode) start m n

/-- A range of blocks inside the file is a chunk of the file. -/
theorem blockBytes_eq_chunk {img : Image} {inode start n : Nat}
    (h : start + n ≤ inodeLength img inode) :
    blockBytes img inode start n = chunk (fileBytes img inode) start n := by
  obtain ⟨m, hm⟩ := Nat.exists_eq_add_of_le h
  rw [chunk, fileBytes, hm, blockBytes_add, blockBytes_add, Nat.zero_add,
    List.append_assoc, List.drop_left' (length_blockBytes _ _ _ _),
    List.take_left' (length_blockBytes _ _ _ _)]

theorem readData_past_end {img : Image} {inode offset length : Nat}
    (hinode : inode < numInode img) (hoffset : inodeLength img inode ≤ offset) :
    readData img inode offset length = some (0, []) := by
  rw [readData, if_neg (by omega), if_pos hoffset]

/-- What a request that starts inside the file should deliver. -/
theorem chunk_eq_blockBytes {img : Image} {inode offset length n : Nat}
    (hn : n = min length (inodeLength img inode - offset)) (hoffset : offset ≤ inodeLength img inode) :
    chunk (fileBytes img inode) offset length = blockBytes img inode offset n := by
  rw [blockBytes_eq_chunk (by omega), chunk, chunk, hn, List.take_eq_take_min (i := length),
    List.length_drop, length_fileBytes]

/-! ## Entries that name data blocks -/

/-- The entries of the blocks `first` to `last` name data blocks of the image. -/
def BlocksValid (img : Image) (inode first last : Nat) : Prop :=
  ∀ k, first ≤ k → k ≤ last → dblock img inode k < numData img

/-- An inode of the image that `read_data` can serve: its block entries name data blocks
that fit the 16-bit index, and its length leaves the last entry unused. -/
structure InodeReadable (img : Image) (inode : Nat) : Prop where
  inode_lt : inode < numInode img
  data_le : numData img ≤ 65536
  blocks : ∀ k < 1023, dblock img inode k < numData img
  length_le : inodeLength img inode ≤ 1022 * fsBlock

end LinuxBasedOS.Filesystem
