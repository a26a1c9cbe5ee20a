import LinuxBasedOS.Files.FileArray
import LinuxBasedOS.Filesystem.ReadTurns

/-!
# The read drivers of the filesystem

`readFs` and `readFsDir` are `read_fs` and `read_fs_dir` on the descriptor they are called
for. `read_fs` does not keep the directory entry of the file: it looks for the inode again,
from the first entry on, and reads as the type of the entry it finds says. The guard of that
loop is `num_dir` itself and not the index, so a search that leaves the directory goes on
looking at the last entry and does not end.

`ReadLocals` holds the locals that the source does not set before use in every case.
-/

namespace LinuxBasedOS.Files

open Word Lib Filesystem Cursor

/-- `file` and `read_bytes` of `read_fs`, and `file` of `read_fs_dir`, before they are set. -/
structure ReadLocals where
  file : Dentry
  readBytes : Int
  dirFile : Dentry

/-- The loop of `read_fs` over the entries from index `i`; no result is a loop that has not
stopped yet. -/
def findInode (img : Image) (idxInode : Int) : Nat → Nat → Dentry → Option (Nat × Dentry)
  | 0, _, _ => none
  | fuel + 1, i, file =>
    let found := (readDentryByIndex img i file).2
    if found.idxInode = idxInode then some (i, found)
    else findInode img idxInode fuel (i + 1) found

/-- The memory from the first byte of a local `dentry_t`: the name, the type, the inode and
what follows. -/
def dentryBytes (file : Dentry) : Nat → UInt8 := fun k =>
  if k < 32 then file.filename k
  else if k < 36 then UInt8.ofNat (u32 file.filetype / 256 ^ (k - 32))
  else if k < 40 then UInt8.ofNat (u32 file.idxInode / 256 ^ (k - 36))
  else file.filename k

def readFsDir (img : Image) (uninit : Dentry) (slot : FileDescriptor) (nbytes : Int) : Reply :=
  let lookup := readDentryByIndex img (u32 slot.filePosition) uninit
  let n := u32 nbytes
  if lookup.1 = 0 then
    { retval := nbytes
      filePosition := i32 (slot.filePosition + 1)
      bytes := (List.range n).map (strncpy (fun _ => 0) (dentryBytes lookup.2) n) }
  else { retval := 0, filePosition := i32 (slot.filePosition + 1), bytes := [] }

/-- The end of `read_fs`: `file_position += read_bytes`. -/
def advance (reply : Reply) : Reply :=
  { reply with filePosition := i32 (reply.filePosition + reply.retval) }

/-- The branches of `read_fs` on the type of the entry it has found. -/
def readFound (img : Image) (locals : ReadLocals) (slot : FileDescriptor) (nbytes : Int)
    (file : Dentry) : Option Reply :=
  if file.filetype = regFile then
    (readData img (u32 slot.inodeIndx) (u32 slot.filePosition) (u32 nbytes)).map fun r =>
      advance { retval := r.1, filePosition := slot.filePosition, bytes := r.2 }
  else if file.filetype = dirFile then some (advance (readFsDir img locals.dirFile slot nbytes))
  else
    -- `read_bytes` has not been set
    some (advance { retval := locals.readBytes, filePosition := slot.filePosition, bytes := [] })

/-- The search of `read_fs`: the guard is false only in an empty directory. A search that has
not stopped inside the directory never stops. -/
def searchInode (img : Image) (idxInode : Int) (file : Dentry) : Option (Nat × Dentry) :=
  if numDir img = 0 then some (0, file) else findInode img idxInode (numDir img) 0 file

def readFs (img : Image) (locals : ReadLocals) (slot : FileDescriptor) (nbytes : Int) :
    Option Reply :=
  match searchInode img slot.inodeIndx locals.file with
  | none => none
  | some (i, file) =>
    if i = numDir img then some { retval := -1, filePosition := slot.filePosition, bytes := [] }
    else readFound img locals slot nbytes file

/-- The read routines behind the jump tables, with those of the other devices given. -/
def readDriver (img : Image) (locals : ReadLocals) (others : Driver) : Driver
  | .filesystemReg, slot, nbytes => readFs img locals slot nbytes
  | .filesystemDir, slot, nbytes => some (readFsDir img locals.dirFile slot nbytes)
  | table, slot, nbytes => others table slot nbytes

/-! ## The search for the inode -/

theorem readDentryByIndex_of_lt {img : Image} {i : Nat} (h : i < numDir img) (file : Dentry) :
    (readDentryByIndex img i file).2.idxInode = (dentryAt img i).idxInode ∧
      (readDentryByIndex img i file).2.filetype = (dentryAt img i).filetype := by
  rw [readDentryByIndex, if_neg (by omega)]
  exact ⟨rfl, rfl⟩

/-- Past the directory the entry at hand does not change any more, so the search goes on
however long it is run. -/
theorem findInode_past {img : Image} {idxInode : Int} {i : Nat} {file : Dentry}
    (hi : numDir img ≤ i) (hne : file.idxInode ≠ idxInode) (fuel : Nat) :
    findInode img idxInode fuel i file = none := by
  induction fuel generalizing i with
  | zero => rfl
  | succ fuel ih =>
    have hsame : (readDentryByIndex img i file).2 = file := by rw [readDentryByIndex, if_pos hi]
    simp only [findInode, hsame, if_neg hne]
    exact ih (Nat.le_succ_of_le hi)

/-- More turns than the directory has entries change nothing. -/
theorem findInode_fuel {img : Image} {idxInode : Int} (fuel extra i : Nat) (file : Dentry)
    (hfuel : numDir img ≤ i + fuel) (hi : 0 < fuel) :
    findInode img idxInode (fuel + extra) i file = findInode img idxInode fuel i file := by
  induction fuel generalizing i file with
  | zero => omega
  | succ fuel ih =>
    rw [Nat.add_right_comm]
    simp only [findInode]
    split
    · rfl
    · next hne =>
      cases fuel with
      | zero =>
        rw [findInode_past (by omega) hne, findInode_past (by omega) hne]
      | succ fuel => exact ih (i + 1) _ (by omega) (by omega)

/-- Entry `m` is the first of the directory that carries the inode number. -/
structure FirstCarrying (img : Image) (idxInode : Int) (m : Nat) : Prop where
  lt : m < numDir img
  carries : (dentryAt img m).idxInode = idxInode
  first : ∀ j < m, (dentryAt img j).idxInode ≠ idxInode

section Search

variable {img : Image} {idxInode : Int}

theorem findInode_of_first {m : Nat} (h : FirstCarrying img idxInode m) {fuel i : Nat}
    (hi : i ≤ m) (hfuel : m < i + fuel) (file : Dentry) :
    ∃ found, findInode img idxInode fuel i file = some (m, found) ∧
      found.filetype = (dentryAt img m).filetype := by
  induction fuel generalizing i file with
  | zero => omega
  | succ fuel ih =>
    have hlt := h.lt
    obtain ⟨hidx, htype⟩ := readDentryByIndex_of_lt (show i < numDir img by omega) file
    simp only [findInode]
    rcases Nat.eq_or_lt_of_le hi with rfl | hless
    · rw [if_pos (hidx.trans h.carries)]
      exact ⟨_, rfl, htype⟩
    · rw [if_neg (hidx ▸ h.first i hless)]
      exact ih hless (by omega) _

theorem findInode_of_absent {fuel i : Nat} (hdir : i + fuel ≤ numDir img)
    (h : ∀ j < numDir img, (dentryAt img j).idxInode ≠ idxInode) (file : Dentry) :
    findInode img idxInode fuel i file = none := by
  induction fuel generalizing i file with
  | zero => rfl
  | succ fuel ih =>
    obtain ⟨hidx, -⟩ := readDentryByIndex_of_lt (show i < numDir img by omega) file
    simp only [findInode]
    rw [if_neg (hidx ▸ h i (by omega))]
    exact ih (by omega) _

/-- The directory is empty, or an entry carries the number, or none does. -/
theorem search_cases (img : Image) (idxInode : Int) :
    numDir img = 0 ∨ (∃ m, FirstCarrying img idxInode m) ∨
      0 < numDir img ∧ ∀ j < numDir img, (dentryAt img j).idxInode ≠ idxInode := by
  classical
  rcases Nat.eq_zero_or_pos (numDir img) with hzero | hpos
  · exact Or.inl hzero
  · by_cases hex : ∃ m, m < numDir img ∧ (dentryAt img m).idxInode = idxInode
    · obtain ⟨hlt, hcarries⟩ := Nat.find_spec hex
      refine Or.inr (Or.inl ⟨Nat.find hex, hlt, hcarries, ?_⟩)
      intro j hj hsame
      exact Nat.find_min hex hj ⟨hj.trans hlt, hsame⟩
    · refine Or.inr (Or.inr ⟨hpos, ?_⟩)
      intro j hj hsame
      exact hex ⟨j, hj, hsame⟩

theorem exists_firstCarrying {slot : Nat} (h : slot < numDir img) :
    ∃ m, FirstCarrying img (dentryAt img slot).idxInode m := by
  rcases search_cases img (dentryAt img slot).idxInode with hempty | hfirst | ⟨-, habsent⟩
  · omega
  · exact hfirst
  · exact absurd rfl (habsent slot h)

end Search

/-! ## The read on a descriptor -/

section Read

variable {img : Image} {locals : ReadLocals} {slot : FileDescriptor} {nbytes : Int}

theorem readFs_of_empty (h : numDir img = 0) :
    readFs img locals slot nbytes =
      some { retval := -1, filePosition := slot.filePosition, bytes := [] } := by
  rw [readFs, searchInode, if_pos h]
  dsimp only
  rw [if_pos h.symm]

/-- A number that no entry carries is searched for ever. -/
theorem readFs_of_absent (hpos : 0 < numDir img)
    (h : ∀ j < numDir img, (dentryAt img j).idxInode ≠ slot.inodeIndx) :
    readFs img locals slot nbytes = none := by
  rw [readFs, searchInode, if_neg (by omega), findInode_of_absent (by omega) h]

/-- The type of the first entry that carries the number decides how it is read. -/
theorem readFs_of_first {m : Nat} (h : FirstCarrying img slot.inodeIndx m) :
    readFs img locals slot nbytes = readFound img locals slot nbytes (dentryAt img m) := by
  have hlt := h.lt
  obtain ⟨found, hfind, htype⟩ :=
    @findInode_of_first img _ m h (numDir img) 0 (Nat.zero_le m) (by omega) locals.file
  rw [readFs, searchInode, if_neg (by omega), hfind]
  dsimp only
  rw [if_neg (by omega), readFound, readFound, htype]

end Read

/-! ## Reading a regular file -/

/-- The descriptor of an open regular file. -/
def regularDescriptor (idxInode position : Int) : FileDescriptor where
  fdJumptable := some .filesystemReg
  inodeIndx := idxInode
  filePosition := position
  flags := inUse

/-- The file of an entry of the directory: its inode can be read, and every entry that
carries the inode is a regular one. -/
structure RegularFile (img : Image) (slot : Nat) : Prop where
  slot_lt : slot < numDir img
  filetype : (dentryAt img slot).filetype = regFile
  inode : InodeReadable img (u32 (dentryAt img slot).idxInode)
  regular : ∀ i < numDir img, (dentryAt img i).idxInode = (dentryAt img slot).idxInode →
    (dentryAt img i).filetype = regFile

/-- The bytes of the file of an entry. -/
def entryBytes (img : Image) (slot : Nat) : List UInt8 :=
  fileBytes img (u32 (dentryAt img slot).idxInode)

theorem length_entryBytes_le {img : Image} {slot : Nat} (h : RegularFile img slot) :
    (entryBytes img slot).length ≤ 4186112 := by
  have := h.inode.length_le
  rw [entryBytes, length_fileBytes]
  unfold fsBlock at this
  omega

/-- A read of a regular file delivers the next bytes of the file, returns how many they are
and moves the position past them. -/
theorem readFs_chunk {img : Image} {slot p n : Nat} (h : RegularFile img slot)
    (locals : ReadLocals) (hp : p ≤ (entryBytes img slot).length) (hn : n < 65536) :
    readFs img locals (regularDescriptor (dentryAt img slot).idxInode p) n =
      some { retval := (chunk (entryBytes img slot) p n).length
             filePosition := (p + (chunk (entryBytes img slot) p n).length : Nat)
             bytes := chunk (entryBytes img slot) p n } := by
  have hslot := h.slot_lt
  have hmax := length_entryBytes_le h
  have hlen : (chunk (entryBytes img slot) p n).length ≤ n := by
    rw [length_chunk]
    exact Nat.min_le_left _ _
  obtain ⟨m, hfirst⟩ := exists_firstCarrying hslot
  have hreg := h.regular m hfirst.lt hfirst.carries
  rw [readFs_of_first hfirst, readFound, if_pos hreg, regularDescriptor]
  simp only [u32_natCast (show p < 4294967296 by omega), u32_natCast (show n < 4294967296 by omega),
    readData_chunk h.inode hn, Option.map_some, advance]
  rw [← Nat.cast_add, i32_of_range]
  · rfl
  · omega
  · change ((p + (chunk (entryBytes img slot) p n).length : Nat) : Int) < 2147483648
    omega

end LinuxBasedOS.Files
