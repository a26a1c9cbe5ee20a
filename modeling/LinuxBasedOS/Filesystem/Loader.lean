import LinuxBasedOS.Filesystem.FileContents
import LinuxBasedOS.Filesystem.Lookup

/-!
# The executable check and the loader

`is_executable` reads four bytes of a file into a local buffer, and `loadProcess` forty; neither
looks at how many bytes came back. For a short file the rest of the buffer is what the stack held
before. The unset locals are arguments, as everywhere.

`exec_exact_iff` says for which files and which stacks the check answers for the file and the loader
delivers it: either the file is long enough for the entry point and its block numbers fit, or it is
not executable, and it and the stack behind it do not add up to the magic number.
-/

namespace LinuxBasedOS.Filesystem

open Word Stores Lib

def elfEntry : Nat := 24

/-- The four comparisons of `is_executable`. -/
def IsElf (buffer : Nat → UInt8) : Prop :=
  buffer 0 = 0x7F ∧ buffer 1 = 0x45 ∧ buffer 2 = 0x4C ∧ buffer 3 = 0x46

instance (buffer : Nat → UInt8) : Decidable (IsElf buffer) :=
  inferInstanceAs (Decidable (_ ∧ _ ∧ _ ∧ _))

/-- `is_executable`; `uninit` and `buffer` are its locals before they are set. -/
def isExecutable (img : Image) (filename : Option (Nat → UInt8)) (uninit : Dentry)
    (buffer : Nat → UInt8) : Option Int :=
  match filename with
  | none => some 0
  | some fname =>
    let lookup := readDentryByName img fname uninit
    if lookup.1 = 0 then
      if lookup.2.filetype = 2 ∧ lookup.2.idxInode ≠ 0 then
        (readData img (u32 lookup.2.idxInode) 0 4).map fun r =>
          if IsElf (place buffer 0 r.2) then 1 else 0
      else some 0
    else some 0

def getFilesizeByName (img : Image) (fname : Nat → UInt8) (uninit : Dentry) : Int :=
  let file := (readDentryByName img fname uninit).2
  if file.filetype = 2 then i32 (inodeLength img (u32 file.idxInode)) else 0

/-- The locals of `loadProcess`, and of `get_filesize_by_name`, before they are set. -/
structure LoadLocals where
  processDentry : Dentry
  file : Dentry
  entryBuff : Nat → UInt8

/-- What `loadProcess` returns, and what it has stored from `virtual_addr` on. -/
structure Loaded where
  entry : Nat
  bytes : List UInt8

/-- The loop of `loadProcess` over the four bytes of the entry point. -/
def entryPoint (entryBuff : Nat → UInt8) : Nat :=
  (List.range 4).foldl (fun entry i => entry ||| (entryBuff (elfEntry + i)).toNat <<< (i * 8)) 0

def loadProcess (img : Image) (command : Nat → UInt8) (locals : LoadLocals) : Option Loaded :=
  let processDentry := (readDentryByName img command locals.processDentry).2
  let length := getFilesizeByName img command locals.file
  (readData img (u32 processDentry.idxInode) 0 40).bind fun head =>
    (readData img (u32 processDentry.idxInode) 0 (u32 length)).map fun image =>
      { entry := entryPoint (place locals.entryBuff 0 head.2), bytes := image.2 }

/-! ## What they are for -/

/-- The files of the image are valid. -/
def ImageValid (img : Image) : Prop := ∀ inode < numInode img, FileValid img inode

/-- The entry is a regular file with a non-zero inode of the image, of at least 4 bytes, that
begins with the magic number. -/
structure ExecutableFile (img : Image) (slot : Nat) : Prop where
  filetype : (dentryAt img slot).filetype = regFile
  inode_ne : (dentryAt img slot).idxInode ≠ 0
  inode_lt : u32 (dentryAt img slot).idxInode < numInode img
  length : 4 ≤ inodeLength img (u32 (dentryAt img slot).idxInode)
  magic : (fileBytes img (u32 (dentryAt img slot).idxInode)).take 4 = [0x7F, 0x45, 0x4C, 0x46]

/-- The name leads to an executable file. -/
def NamesExecutable (img : Image) (filename : Option (Nat → UInt8)) : Prop :=
  ∃ fname slot, filename = some fname ∧ matchedSlot img fname = some slot ∧ ExecutableFile img slot

/-- The bytes of the file are stored, and the word at its offset 24 is returned. -/
structure Loads (img : Image) (slot : Nat) (l : Loaded) : Prop where
  bytes : l.bytes = fileBytes img (u32 (dentryAt img slot).idxInode)
  length : 28 ≤ inodeLength img (u32 (dentryAt img slot).idxInode)
  entry : l.entry = word (fun j => fileByte img (u32 (dentryAt img slot).idxInode) j) elfEntry

/-- The check answers 1 on executable files and 0 on all others, and the loader loads every file
that the check accepts. -/
structure ExecExact (img : Image) (filename : Option (Nat → UInt8)) (uninit : Dentry)
    (buffer : Nat → UInt8) (locals : LoadLocals) : Prop where
  decides : isExecutable img filename uninit buffer = some 1 ∧ NamesExecutable img filename ∨
    isExecutable img filename uninit buffer = some 0 ∧ ¬ NamesExecutable img filename
  loads : ∀ fname slot, filename = some fname → matchedSlot img fname = some slot →
    isExecutable img filename uninit buffer = some 1 →
      ∃ l, loadProcess img fname locals = some l ∧ Loads img slot l

/-- The magic number. -/
def elfMagic : List UInt8 := [0x7F, 0x45, 0x4C, 0x46]

/-- How many bytes of the file there are for the check to read. -/
def headLength (img : Image) (inode : Nat) : Nat :=
  if inode < numInode img then min 4 (inodeLength img inode) else 0

/-- The first bytes of the file, at most four, are those of the magic number; they are in the block
that the low 16 bits of the first entry name. -/
def StartsAsElf (img : Image) (inode : Nat) : Prop :=
  ∀ j < headLength img inode,
    img (dataAddr img (dblock img inode 0 % 65536) + j) = elfMagic.getD j 0

/-- The bytes of the stack that come after the first bytes of the file complete the magic number. -/
def StackCompletes (img : Image) (inode : Nat) (buffer : Nat → UInt8) : Prop :=
  ∀ j < 4, headLength img inode ≤ j → buffer j = elfMagic.getD j 0

instance (img : Image) (inode : Nat) : Decidable (StartsAsElf img inode) :=
  inferInstanceAs (Decidable (∀ j < _, _))

instance (img : Image) (inode : Nat) (buffer : Nat → UInt8) :
    Decidable (StackCompletes img inode buffer) :=
  inferInstanceAs (Decidable (∀ j < 4, _))

/-- The inode is one of the image, the file reaches past its entry point, and the low 16 bits of
its entries lead to the same bytes as the entries. -/
structure Loadable (img : Image) (inode : Nat) : Prop where
  inode_lt : inode < numInode img
  length : 28 ≤ inodeLength img inode
  own : ∀ k, ∀ b < fsBlock, k * fsBlock + b < inodeLength img inode →
    img (dataAddr img (dblock img inode k % 65536) + b) = img (dataAddr img (dblock img inode k) + b)

/-- A regular file with a non-zero inode number is loadable, or it is not executable and does not
look so on this stack. -/
def ExecSafe (img : Image) (filename : Option (Nat → UInt8)) (buffer : Nat → UInt8) : Prop :=
  ∀ fname slot, filename = some fname → matchedSlot img fname = some slot →
    (dentryAt img slot).filetype = regFile → (dentryAt img slot).idxInode ≠ 0 →
      Loadable img (u32 (dentryAt img slot).idxInode) ∨
        ¬ ExecutableFile img slot ∧ ¬ (StartsAsElf img (u32 (dentryAt img slot).idxInode) ∧
          StackCompletes img (u32 (dentryAt img slot).idxInode) buffer)

/-! ## The reads -/

/-- A read from the beginning of a file of a valid image comes back with its first bytes. -/
theorem readData_from_start {img : Image} (h : ImageValid img) (inode : Nat) {length : Nat}
    (hlength : length < 4294967296) :
    ∃ r, readData img inode 0 length =
      some (r, if inode < numInode img then
        servedBytes img inode 0 (min length (inodeLength img inode)) else []) := by
  by_cases hinode : inode < numInode img
  · rw [if_pos hinode]
    rcases Nat.eq_zero_or_pos (inodeLength img inode) with hzero | hpos
    · refine ⟨0, ?_⟩
      rw [readData_past_end hinode (by omega), hzero, Nat.min_zero]
      rfl
    · exact ⟨_, readData_of_fileValid (h inode hinode) hinode hpos (by omega) rfl⟩
  · refine ⟨-1, ?_⟩
    rw [readData, if_pos (by omega), if_neg hinode]

/-- A read of less than a block from the beginning of a file ends after one turn, in every image. -/
theorem readData_first_block (img : Image) (inode : Nat) {length : Nat} (hlength : length < fsBlock) :
    ∃ r, readData img inode 0 length = some r := by
  have hblk : fsBlock = 4096 := rfl
  have hturn : ∀ n < fsBlock, ∃ r, readLoop img inode (u16 (u32 ((0 : Nat) + (n : Nat)) / fsBlock))
      readFuel 0 n (u16 (0 / fsBlock)) 0 [] = some r := by
    intro n hn
    have hend : u16 (u32 ((0 : Nat) + (n : Nat)) / fsBlock) = 0 := by
      rw [u32_add (by omega), Nat.zero_add, Nat.div_eq_of_lt hn]
      rfl
    have hcounter : ¬ u16 (u16 (0 / fsBlock) + 1) ≤ 0 := by decide
    rw [hend, readFuel, readLoop]
    dsimp only
    rw [if_neg hcounter]
    split_ifs <;> exact ⟨_, rfl⟩
  by_cases hinode : numInode img ≤ inode
  · exact ⟨_, by rw [readData, if_pos hinode]⟩
  · by_cases hempty : inodeLength img inode ≤ 0
    · exact ⟨_, by rw [readData, if_neg hinode, if_pos hempty]⟩
    · rw [readData, if_neg hinode, if_neg hempty]
      refine hturn _ ?_
      rw [u32_add (by omega)]
      split_ifs <;> omega

/-- The loop puts the four bytes together as the little-endian word at offset 24. -/
theorem entryPoint_eq (entryBuff : Nat → UInt8) : entryPoint entryBuff = word entryBuff elfEntry := by
  have h0 := (entryBuff elfEntry).toNat_lt
  have h1 := (entryBuff (elfEntry + 1)).toNat_lt
  have h2 := (entryBuff (elfEntry + 2)).toNat_lt
  have hshift : ∀ (byte : UInt8) (low i : Nat), low < 2 ^ i →
      low ||| byte.toNat <<< i = low + byte.toNat * 2 ^ i := by
    intro byte low i hlow
    rw [Nat.lor_comm, ← Nat.shiftLeft_add_eq_or_of_lt hlow, Nat.shiftLeft_eq, Nat.add_comm]
  unfold entryPoint word
  simp only [List.range_succ, List.range_zero, List.nil_append, List.cons_append, List.foldl_cons,
    List.foldl_nil, Nat.add_zero, Nat.zero_mul, Nat.shiftLeft_zero, Nat.zero_or, Nat.one_mul]
  rw [hshift _ _ 8 (by omega), hshift _ _ (2 * 8) (by omega), hshift _ _ (3 * 8) (by omega)]
  omega

/-- The four bytes that the check compares: the first bytes of the file, as `read_data` serves them,
then the stack. -/
def magicBuffer (img : Image) (inode : Nat) (buffer : Nat → UInt8) : Nat → UInt8 :=
  place buffer 0 (if inode < numInode img then
    servedBytes img inode 0 (min 4 (inodeLength img inode)) else [])

/-- Inside the bytes that were served the buffer holds them. -/
theorem place_servedBytes {img : Image} {inode n j : Nat} (buffer : Nat → UInt8) (hj : j < n) :
    place buffer 0 (servedBytes img inode 0 n) j = servedByte img inode j := by
  have hin : j < (servedBytes img inode 0 n).length := by rw [length_servedBytes]; exact hj
  have hplace := place_inside buffer 0 hin
  rw [Nat.zero_add] at hplace
  rw [hplace]
  simp [servedBytes]

/-- The bytes that the check compares, by the file and the stack. -/
theorem magicBuffer_apply (img : Image) (inode : Nat) (buffer : Nat → UInt8) {j : Nat} (hj : j < 4) :
    magicBuffer img inode buffer j =
      if j < headLength img inode then img (dataAddr img (dblock img inode 0 % 65536) + j)
      else buffer j := by
  unfold magicBuffer headLength
  by_cases hinode : inode < numInode img
  · rw [if_pos hinode, if_pos hinode]
    by_cases hin : j < min 4 (inodeLength img inode)
    · have hzero : j / fsBlock = 0 := Nat.div_eq_of_lt (by unfold fsBlock; omega)
      have hmod : j % fsBlock = j := Nat.mod_eq_of_lt (by unfold fsBlock; omega)
      rw [if_pos hin, place_servedBytes buffer hin, servedByte, hzero, hmod]
      rfl
    · rw [if_neg hin, place_outside buffer (Or.inr (by rw [length_servedBytes]; omega))]
  · rw [if_neg hinode, if_neg hinode, if_neg (Nat.not_lt_zero j), place_nil]

theorem isElf_iff_getD (bytes : Nat → UInt8) :
    IsElf bytes ↔ ∀ j < 4, bytes j = elfMagic.getD j 0 := by
  constructor
  · rintro ⟨h0, h1, h2, h3⟩ j hj
    obtain rfl | rfl | rfl | rfl : j = 0 ∨ j = 1 ∨ j = 2 ∨ j = 3 := by omega
    · exact h0
    · exact h1
    · exact h2
    · exact h3
  · intro h
    exact ⟨h 0 (by decide), h 1 (by decide), h 2 (by decide), h 3 (by decide)⟩

/-- The check is passed when the file begins the magic number and the stack completes it. -/
theorem isElf_magicBuffer_iff (img : Image) (inode : Nat) (buffer : Nat → UInt8) :
    IsElf (magicBuffer img inode buffer) ↔
      StartsAsElf img inode ∧ StackCompletes img inode buffer := by
  have hhead : headLength img inode ≤ 4 := by
    unfold headLength
    split <;> omega
  rw [isElf_iff_getD]
  constructor
  · intro h
    constructor
    · intro j hj
      have hbyte := h j (by omega)
      rw [magicBuffer_apply img inode buffer (by omega), if_pos hj] at hbyte
      exact hbyte
    · intro j hj hstack
      have hbyte := h j hj
      rw [magicBuffer_apply img inode buffer hj, if_neg (by omega)] at hbyte
      exact hbyte
  · rintro ⟨hfile, hstack⟩ j hj
    rw [magicBuffer_apply img inode buffer hj]
    split_ifs with hin
    · exact hfile j hin
    · exact hstack j hj (by omega)

/-- In a valid file the entries lead to its own bytes exactly when these are served. -/
theorem own_iff_served {img : Image} {inode : Nat} (h : FileValid img inode) :
    (∀ k, ∀ b < fsBlock, k * fsBlock + b < inodeLength img inode →
        img (dataAddr img (dblock img inode k % 65536) + b) =
          img (dataAddr img (dblock img inode k) + b)) ↔
      ∀ j < inodeLength img inode, servedByte img inode j = fileByte img inode j := by
  have hblk : fsBlock = 4096 := rfl
  have hmax := h.length_le
  have hserved : ∀ j < inodeLength img inode, servedByte img inode j =
      img (dataAddr img (dblock img inode (j / fsBlock) % 65536) + j % fsBlock) := by
    intro j hj
    rw [servedByte, u16_of_lt (show j / fsBlock < 65536 by rw [hblk] at hmax ⊢; omega)]
    rfl
  constructor
  · intro hown j hj
    rw [hserved j hj]
    refine hown (j / fsBlock) (j % fsBlock) (Nat.mod_lt _ (by decide)) ?_
    rw [Nat.div_add_mod']
    exact hj
  · intro hall k b hb hin
    have hdiv : (k * fsBlock + b) / fsBlock = k := by rw [hblk] at hb ⊢; omega
    have hmod : (k * fsBlock + b) % fsBlock = b := by rw [hblk] at hb ⊢; omega
    have hbyte := hall _ hin
    rw [hserved _ hin, fileByte, hdiv, hmod] at hbyte
    exact hbyte

theorem Loadable.served {img : Image} {inode : Nat} (h : Loadable img inode)
    (hvalid : ImageValid img) :
    ∀ j < inodeLength img inode, servedByte img inode j = fileByte img inode j :=
  (own_iff_served (hvalid inode h.inode_lt)).mp h.own

theorem take_fileBytes {img : Image} {inode : Nat} (h : 4 ≤ inodeLength img inode) :
    (fileBytes img inode).take 4 =
      [fileByte img inode 0, fileByte img inode 1, fileByte img inode 2, fileByte img inode 3] := by
  rw [fileBytes, blockBytes, ← List.map_take, List.take_range, Nat.min_eq_left h]
  rfl

section Exec

variable {img : Image} {fname : Nat → UInt8} {slot : Nat}

/-- The answer for a regular file with a non-zero inode is what the four bytes look like. -/
theorem isExecutable_of_regular (h : ImageValid img) (hslot : matchedSlot img fname = some slot)
    (hreg : (dentryAt img slot).filetype = regFile) (hne : (dentryAt img slot).idxInode ≠ 0)
    (uninit : Dentry) (buffer : Nat → UInt8) :
    isExecutable img (some fname) uninit buffer =
      some (if IsElf (magicBuffer img (u32 (dentryAt img slot).idxInode) buffer) then 1 else 0) := by
  obtain ⟨hfound, htype, hinode⟩ := readDentryByName_of_some hslot uninit
  obtain ⟨r, hcall⟩ := @readData_from_start img h (u32 (dentryAt img slot).idxInode) 4 (by decide)
  have htest : (dentryAt img slot).filetype = 2 ∧ (dentryAt img slot).idxInode ≠ 0 := ⟨hreg, hne⟩
  simp only [isExecutable, hfound, htype, hinode, if_true]
  rw [if_pos htest, hcall]
  rfl

theorem isExecutable_of_absent (hslot : matchedSlot img fname = none) (uninit : Dentry)
    (buffer : Nat → UInt8) : isExecutable img (some fname) uninit buffer = some 0 := by
  have hfound := readDentryByName_of_none hslot uninit
  simp only [isExecutable, hfound]
  rfl

theorem isExecutable_of_other (hslot : matchedSlot img fname = some slot)
    (hother : ¬ ((dentryAt img slot).filetype = regFile ∧ (dentryAt img slot).idxInode ≠ 0))
    (uninit : Dentry) (buffer : Nat → UInt8) :
    isExecutable img (some fname) uninit buffer = some 0 := by
  obtain ⟨hfound, htype, hinode⟩ := readDentryByName_of_some hslot uninit
  simp only [isExecutable, hfound, htype, hinode, if_true]
  exact if_neg hother

/-- The loader on a regular file of the image: all bytes are stored as `read_data` serves them,
and the entry point is read from the first 40. -/
theorem loadProcess_of_regular (h : ImageValid img) (hslot : matchedSlot img fname = some slot)
    (hreg : (dentryAt img slot).filetype = regFile)
    (hinode : u32 (dentryAt img slot).idxInode < numInode img) (locals : LoadLocals) :
    loadProcess img fname locals =
      some { entry := word (place locals.entryBuff 0
               (servedBytes img (u32 (dentryAt img slot).idxInode) 0
                 (min 40 (inodeLength img (u32 (dentryAt img slot).idxInode))))) elfEntry
             bytes := servedBytes img (u32 (dentryAt img slot).idxInode) 0
               (inodeLength img (u32 (dentryAt img slot).idxInode)) } := by
  obtain ⟨-, -, hidx⟩ := readDentryByName_of_some hslot locals.processDentry
  obtain ⟨-, htype', hidx'⟩ := readDentryByName_of_some hslot locals.file
  generalize hi : u32 (dentryAt img slot).idxInode = i at *
  have hmax := (h i hinode).length_le
  have hsize : u32 (getFilesizeByName img fname locals.file) = inodeLength img i := by
    have htwo : (dentryAt img slot).filetype = 2 := hreg
    simp only [getFilesizeByName, htype', hidx', hi]
    unfold fsBlock at hmax
    rw [if_pos htwo, i32_of_range (by omega) (by omega), u32_natCast (by omega)]
  obtain ⟨r, hhead⟩ := @readData_from_start img h i 40 (by decide)
  obtain ⟨r', himage⟩ := @readData_from_start img h i (inodeLength img i) (word_lt _ _)
  rw [if_pos hinode] at hhead himage
  rw [Nat.min_self] at himage
  simp only [loadProcess, hidx, hi, hsize, hhead, himage, Option.bind_some, Option.map_some,
    entryPoint_eq]

/-- What the check sees of a loadable file is the file. -/
theorem isElf_iff_of_loadable {inode : Nat} (hvalid : ImageValid img) (h : Loadable img inode)
    (buffer : Nat → UInt8) :
    IsElf (magicBuffer img inode buffer) ↔
      (fileBytes img inode).take 4 = [0x7F, 0x45, 0x4C, 0x46] := by
  have hlength := h.length
  have hat : ∀ j < 4, magicBuffer img inode buffer j = fileByte img inode j := by
    intro j hj
    rw [magicBuffer, if_pos h.inode_lt, place_servedBytes buffer (by omega),
      h.served hvalid j (by omega)]
  rw [take_fileBytes (by omega), IsElf, hat 0 (by omega), hat 1 (by omega), hat 2 (by omega),
    hat 3 (by omega)]
  simp

/-- A loadable file is loaded. -/
theorem loads_of_loadable (h : ImageValid img) (hslot : matchedSlot img fname = some slot)
    (hreg : (dentryAt img slot).filetype = regFile)
    (hload : Loadable img (u32 (dentryAt img slot).idxInode)) (locals : LoadLocals) :
    ∃ l, loadProcess img fname locals = some l ∧ Loads img slot l := by
  have hlength := hload.length
  refine ⟨_, loadProcess_of_regular h hslot hreg hload.inode_lt locals, ?_, hlength, ?_⟩
  · refine servedBytes_eq_blockBytes ?_
    intro j hj
    rw [Nat.zero_add]
    exact hload.served h j hj
  · refine word_congr ?_
    intro j hj
    unfold elfEntry
    rw [place_servedBytes locals.entryBuff (by omega)]
    exact hload.served h _ (by omega)

/-- A file that is loaded is loadable. -/
theorem loadable_of_loads (h : ImageValid img) (hslot : matchedSlot img fname = some slot)
    (hreg : (dentryAt img slot).filetype = regFile)
    (hinode : u32 (dentryAt img slot).idxInode < numInode img) {locals : LoadLocals} {l : Loaded}
    (hl : loadProcess img fname locals = some l) (hloads : Loads img slot l) :
    Loadable img (u32 (dentryAt img slot).idxInode) := by
  rw [loadProcess_of_regular h hslot hreg hinode] at hl
  cases hl
  refine ⟨hinode, hloads.length, (own_iff_served (h _ hinode)).mpr ?_⟩
  intro j hj
  have hserved := List.map_inj_left.mp hloads.bytes j (List.mem_range.mpr hj)
  rw [Nat.zero_add] at hserved
  exact hserved

/-- The check comes back in every image, with 0 or 1. -/
theorem isExecutable_cases (img : Image) (fname : Nat → UInt8) (uninit : Dentry)
    (buffer : Nat → UInt8) :
    isExecutable img (some fname) uninit buffer = some 0 ∨
      isExecutable img (some fname) uninit buffer = some 1 := by
  obtain ⟨r, hr⟩ := readData_first_block img
    (u32 (readDentryByName img fname uninit).2.idxInode) (show 4 < fsBlock by decide)
  simp only [isExecutable, hr, Option.map_some]
  split_ifs
  · exact Or.inr rfl
  · exact Or.inl rfl
  · exact Or.inl rfl
  · exact Or.inl rfl

/-- The check depends on the name up to its terminator. -/
theorem isExecutable_of_holdsAt {fname' : Nat → UInt8} {name : List UInt8}
    (h : HoldsAt fname 0 name) (h' : HoldsAt fname' 0 name) (uninit : Dentry)
    (buffer : Nat → UInt8) :
    isExecutable img (some fname) uninit buffer = isExecutable img (some fname') uninit buffer := by
  have hlookup : readDentryByName img fname uninit = readDentryByName img fname' uninit := by
    rw [readDentryByName, readDentryByName, matchedSlot_of_holdsAt h h']
  simp only [isExecutable, hlookup]

theorem namesExecutable_iff (hslot : matchedSlot img fname = some slot) :
    NamesExecutable img (some fname) ↔ ExecutableFile img slot := by
  constructor
  · rintro ⟨fname', slot', hfname, hslot', hfile⟩
    cases hfname
    rw [hslot] at hslot'
    cases hslot'
    exact hfile
  · intro hfile
    exact ⟨fname, slot, rfl, hslot, hfile⟩

/-- A file that is not executable is refused, and nothing is asked of the loader. -/
theorem execExact_of_refused {filename : Option (Nat → UInt8)} {uninit : Dentry}
    {buffer : Nat → UInt8} (hanswer : isExecutable img filename uninit buffer = some 0)
    (hnot : ¬ NamesExecutable img filename) (locals : LoadLocals) :
    ExecExact img filename uninit buffer locals := by
  refine ⟨Or.inr ⟨hanswer, hnot⟩, ?_⟩
  intro fname slot _ _ hone
  rw [hanswer] at hone
  cases hone

/-- A loadable file is accepted when it is executable, and then loaded. -/
theorem execExact_of_loadable (h : ImageValid img) (hslot : matchedSlot img fname = some slot)
    (hreg : (dentryAt img slot).filetype = regFile) (hne : (dentryAt img slot).idxInode ≠ 0)
    (hload : Loadable img (u32 (dentryAt img slot).idxInode)) (uninit : Dentry)
    (buffer : Nat → UInt8) (locals : LoadLocals) :
    ExecExact img (some fname) uninit buffer locals := by
  have hanswer := isExecutable_of_regular h hslot hreg hne uninit buffer
  have hmagic := isElf_iff_of_loadable h hload buffer
  by_cases helf : IsElf (magicBuffer img (u32 (dentryAt img slot).idxInode) buffer)
  · rw [if_pos helf] at hanswer
    have hlength := hload.length
    have hfile : ExecutableFile img slot :=
      ⟨hreg, hne, hload.inode_lt, by omega, hmagic.mp helf⟩
    refine ⟨Or.inl ⟨hanswer, (namesExecutable_iff hslot).mpr hfile⟩, ?_⟩
    intro fname' slot' hfname hslot' _
    cases hfname
    rw [hslot] at hslot'
    cases hslot'
    exact loads_of_loadable h hslot hreg hload locals
  · rw [if_neg helf] at hanswer
    refine execExact_of_refused hanswer ?_ locals
    rw [namesExecutable_iff hslot]
    exact fun hfile => helf (hmagic.mpr hfile.magic)

/-- A file that is not loadable must not be accepted, and must not have to be. -/
theorem not_execExact_of_not_loadable (h : ImageValid img)
    (hslot : matchedSlot img fname = some slot) (hreg : (dentryAt img slot).filetype = regFile)
    (hne : (dentryAt img slot).idxInode ≠ 0)
    (hload : ¬ Loadable img (u32 (dentryAt img slot).idxInode)) {uninit : Dentry}
    {buffer : Nat → UInt8} {locals : LoadLocals}
    (hexact : ExecExact img (some fname) uninit buffer locals) :
    ¬ ExecutableFile img slot ∧
      ¬ IsElf (magicBuffer img (u32 (dentryAt img slot).idxInode) buffer) := by
  have hanswer := isExecutable_of_regular h hslot hreg hne uninit buffer
  have hnotOne : isExecutable img (some fname) uninit buffer ≠ some 1 := by
    intro hone
    obtain ⟨l, hl, hloads⟩ := hexact.loads fname slot rfl hslot hone
    rcases hexact.decides with ⟨-, hnames⟩ | ⟨hzero, -⟩
    · have hfile := (namesExecutable_iff hslot).mp hnames
      exact hload (loadable_of_loads h hslot hreg hfile.inode_lt hl hloads)
    · rw [hone] at hzero
      cases hzero
  refine ⟨?_, ?_⟩
  · intro hfile
    rcases hexact.decides with ⟨hone, -⟩ | ⟨-, hnot⟩
    · exact hnotOne hone
    · exact hnot ((namesExecutable_iff hslot).mpr hfile)
  · intro helf
    rw [if_pos helf] at hanswer
    exact hnotOne hanswer

/-- **Executables.** In an image of valid files the check answers for the file and the loader
delivers it exactly when this is safe, for every name and all contents of the stack. -/
theorem exec_exact_iff {img : Image} (h : ImageValid img) (filename : Option (Nat → UInt8))
    (uninit : Dentry) (buffer : Nat → UInt8) (locals : LoadLocals) :
    ExecExact img filename uninit buffer locals ↔ ExecSafe img filename buffer := by
  constructor
  · rintro hexact fname slot rfl hslot hreg hne
    by_cases hload : Loadable img (u32 (dentryAt img slot).idxInode)
    · exact Or.inl hload
    · rw [← isElf_magicBuffer_iff]
      exact Or.inr (not_execExact_of_not_loadable h hslot hreg hne hload hexact)
  · intro hsafe
    cases filename with
    | none =>
      refine execExact_of_refused rfl ?_ locals
      rintro ⟨fname, slot, hfname, -⟩
      cases hfname
    | some fname =>
      cases hslot : matchedSlot img fname with
      | none =>
        refine execExact_of_refused (isExecutable_of_absent hslot uninit buffer) ?_ locals
        rintro ⟨fname', slot, hfname, hslot', -⟩
        cases hfname
        rw [hslot] at hslot'
        cases hslot'
      | some slot =>
        by_cases hfile : (dentryAt img slot).filetype = regFile ∧ (dentryAt img slot).idxInode ≠ 0
        · rcases hsafe fname slot rfl hslot hfile.1 hfile.2 with hload | ⟨hnot, hlooks⟩
          · exact execExact_of_loadable h hslot hfile.1 hfile.2 hload uninit buffer locals
          · have hanswer := isExecutable_of_regular h hslot hfile.1 hfile.2 uninit buffer
            rw [← isElf_magicBuffer_iff] at hlooks
            rw [if_neg hlooks] at hanswer
            refine execExact_of_refused hanswer ?_ locals
            rw [namesExecutable_iff hslot]
            exact hnot
        · refine execExact_of_refused (isExecutable_of_other hslot hfile uninit buffer) ?_ locals
          rw [namesExecutable_iff hslot]
          exact fun hexec => hfile ⟨hexec.filetype, hexec.inode_ne⟩

end Exec

/-- One entry, the regular file `f` with inode number 1 and `length` bytes, that begin with the
magic number; the byte at offset 25 is 128. -/
def execImage (length : UInt8) : Image := fun addr =>
  if addr = 0 ∨ addr = 8 ∨ addr = 100 then 1
  else if addr = 4 ∨ addr = 96 then 2
  else if addr = 64 then 102
  else if addr = 8192 then length
  else if addr = 12288 then 0x7F
  else if addr = 12289 then 0x45
  else if addr = 12290 then 0x4C
  else if addr = 12291 then 0x46
  else if addr = 12313 then 128
  else 0

theorem inodeLength_execImage (length : UInt8) :
    inodeLength (execImage length) 1 = length.toNat := by
  simp [inodeLength, word, inodeAddr, fsBlock, execImage]

theorem imageValid_execImage (length : UInt8) : ImageValid (execImage length) := by
  have hlength := length.toNat_lt
  have hinodes : numInode (execImage length) = 2 := rfl
  have hdata : numData (execImage length) = 1 := rfl
  intro inode hinode
  obtain ⟨hblock, hshort⟩ : dblock (execImage length) inode 0 = 0 ∧
      inodeLength (execImage length) inode ≤ 255 := by
    obtain rfl | rfl : inode = 0 ∨ inode = 1 := by omega
    · exact ⟨rfl, Nat.zero_le _⟩
    · refine ⟨rfl, ?_⟩
      rw [inodeLength_execImage]
      omega
  refine ⟨by unfold fsBlock; omega, ?_⟩
  intro k hk
  obtain rfl : k = 0 := by
    unfold fsBlock at hk
    omega
  unfold EntryValid
  rw [hblock, hdata]
  decide

theorem matchedSlot_execImage (length : UInt8) :
    matchedSlot (execImage length) (cstr [102]) = some 0 := by
  refine matchedSlot_eq_some.mpr ⟨Nat.zero_le _, rfl, ?_⟩
  intro k hk
  omega

/-- A file of 28 bytes is accepted and loaded. -/
theorem exec_exact_sample :
    isExecutable (execImage 28) (some (cstr [102])) (dentryAt (execImage 28) 0) (fun _ => 0) =
        some 1 ∧
      ExecExact (execImage 28) (some (cstr [102])) (dentryAt (execImage 28) 0) (fun _ => 0)
        { processDentry := dentryAt (execImage 28) 0
          file := dentryAt (execImage 28) 0
          entryBuff := fun _ => 0 } := by
  refine ⟨by decide +kernel, (exec_exact_iff (imageValid_execImage 28) _ _ _ _).mpr ?_⟩
  intro fname slot hfname hslot _ _
  cases hfname
  rw [matchedSlot_execImage] at hslot
  cases hslot
  refine Or.inl ⟨by decide, by decide, (own_iff_served (imageValid_execImage 28 1 (by decide))).mpr ?_⟩
  intro j hj
  exact (imageValid_execImage 28 1 (by decide)).servedByte (by decide) hj

/-- A file of 1 byte is accepted when the stack holds the rest of the magic number. -/
theorem short_file_accepted :
    ImageValid (execImage 1) ∧ matchedSlot (execImage 1) (cstr [102]) = some 0 ∧
      inodeLength (execImage 1) 1 = 1 ∧
      isExecutable (execImage 1) (some (cstr [102])) (dentryAt (execImage 1) 0)
        (fun i => if i = 1 then 0x45 else if i = 2 then 0x4C else 0x46) = some 1 ∧
      ¬ ExecExact (execImage 1) (some (cstr [102])) (dentryAt (execImage 1) 0)
        (fun i => if i = 1 then 0x45 else if i = 2 then 0x4C else 0x46)
        { processDentry := dentryAt (execImage 1) 0
          file := dentryAt (execImage 1) 0
          entryBuff := fun _ => 0 } := by
  have hanswer : isExecutable (execImage 1) (some (cstr [102])) (dentryAt (execImage 1) 0)
      (fun i => if i = 1 then 0x45 else if i = 2 then 0x4C else 0x46) = some 1 := by
    decide +kernel
  have hlength := inodeLength_execImage 1
  refine ⟨imageValid_execImage 1, matchedSlot_execImage 1, hlength, hanswer, ?_⟩
  intro hexact
  rcases hexact.decides with ⟨-, hfile⟩ | ⟨hzero, -⟩
  · have hfour := ((namesExecutable_iff (matchedSlot_execImage 1)).mp hfile).length
    exact absurd hfour (by decide)
  · rw [hanswer] at hzero
    cases hzero

end LinuxBasedOS.Filesystem
