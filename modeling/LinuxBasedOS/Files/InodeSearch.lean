import LinuxBasedOS.Files.ReadFs
import LinuxBasedOS.Filesystem.FileContents

/-!
# What read_fs does with the descriptor of a regular file

`read_fs` searches the directory for the inode number of the descriptor and reads as the type of
the first entry that carries it says. Then it adds the value of the read to `file_position`,
whatever that value is.

* `failed_read_keeps_iff`: a read that returns -1 leaves the array as it was exactly when the -1
  is not the answer of `read_data`, and not a `read_bytes` that was never set.
* `opened_file_read_iff`: reads on a descriptor that `open` has set up from a regular file come
  back with the data of that file exactly when the first entry with its inode number is a regular
  one, and `read_data` ends on the inode.
-/

namespace LinuxBasedOS.Files

open Word Lib Filesystem

/-! ## Reads that fail -/

/-- A read that returns -1 leaves every field of the array as it was. -/
def KeepsOnFailure (img : Image) (locals : ReadLocals) (others : Driver) (fd : Nat)
    (bufNull : Bool) (nbytes : Int) (fa : FileArray) : Prop :=
  ∀ r, sysRead fd bufNull nbytes (readDriver img locals others) fa = some r → r.retval = -1 →
    r.fileArray = fa

/-- The first entry with the inode number is a regular one and `read_data` fails on the request,
or it is neither regular nor a directory and the value that `read_bytes` happens to have is -1. -/
def MovesBack (img : Image) (locals : ReadLocals) (idxInode position nbytes : Int) : Prop :=
  ∃ m, FirstCarrying img idxInode m ∧
    ((dentryAt img m).filetype = regFile ∧
        ReadFails img (u32 idxInode) (u32 position) (u32 nbytes) ∨
      (dentryAt img m).filetype ≠ regFile ∧ (dentryAt img m).filetype ≠ dirFile ∧
        locals.readBytes = -1)

section Failure

variable {img : Image} {locals : ReadLocals} {idxInode position nbytes : Int}

/-- A read that fails so moves the position back by one. -/
theorem readFs_of_movesBack (h : MovesBack img locals idxInode position nbytes) :
    ∃ bytes, readFs img locals (regularDescriptor idxInode position) nbytes =
      some { retval := -1, filePosition := i32 (position + -1), bytes := bytes } := by
  obtain ⟨m, hfirst, hmoves⟩ := h
  rw [readFs_of_first hfirst, readFound]
  rcases hmoves with ⟨hreg, hfails⟩ | ⟨hreg, hdir, hvalue⟩
  · obtain ⟨bytes, hcall⟩ := (readData_eq_neg_iff (u32_lt nbytes)).mpr hfails
    refine ⟨bytes, ?_⟩
    rw [if_pos hreg]
    show (readData img (u32 idxInode) (u32 position) (u32 nbytes)).map _ = _
    rw [hcall]
    rfl
  · refine ⟨[], ?_⟩
    rw [if_neg hreg, if_neg hdir, hvalue]
    rfl

/-- Every other read that returns -1 leaves the position. -/
theorem readFs_position_of_not (h : ¬ MovesBack img locals idxInode position nbytes)
    (hpos0 : -2147483648 ≤ position) (hpos1 : position < 2147483648) {reply : Reply}
    (hreply : readFs img locals (regularDescriptor idxInode position) nbytes = some reply)
    (hret : reply.retval = -1) : reply.filePosition = position := by
  rcases search_cases img idxInode with hempty | ⟨m, hfirst⟩ | ⟨hdir, habsent⟩
  · rw [readFs_of_empty hempty] at hreply
    cases hreply
    rfl
  · rw [readFs_of_first hfirst, readFound] at hreply
    split_ifs at hreply with hreg hdir
    · -- a regular entry: `read_data` would have failed
      obtain ⟨r, hcall, rfl⟩ := Option.map_eq_some_iff.mp hreply
      have hfails : ReadFails img (u32 idxInode) (u32 position) (u32 nbytes) := by
        refine (readData_eq_neg_iff (u32_lt nbytes)).mp ⟨r.2, ?_⟩
        rw [← hret]
        exact hcall
      exact absurd ⟨m, hfirst, Or.inl ⟨hreg, hfails⟩⟩ h
    · -- a directory: the entry is counted, then the -1 of the caller is added
      cases hreply
      have hvalue : (readFsDir img locals.dirFile (regularDescriptor idxInode position)
          nbytes).retval = -1 := hret
      rw [advance, hvalue]
      unfold readFsDir at hvalue ⊢
      dsimp only at hvalue ⊢
      split_ifs at hvalue ⊢
      · show i32 (i32 (position + 1) + -1) = position
        unfold i32 u32
        split_ifs <;> omega
    · cases hreply
      exact absurd ⟨m, hfirst, Or.inr ⟨hreg, hdir, hret⟩⟩ h
  · rw [readFs_of_absent hdir habsent] at hreply
    cases hreply

end Failure

/-- **Failed reads.** A read that returns -1 on the descriptor of an open regular file leaves the
array as it was exactly when the buffer is null, or the -1 does not come from `read_data` or an
unset `read_bytes`. -/
theorem failed_read_keeps_iff {img : Image} {locals : ReadLocals} {others : Driver} {fa : FileArray}
    {fd : Nat} {bufNull : Bool} {idxInode position nbytes : Int} (hfd0 : minFd ≤ fd)
    (hfd1 : fd < maxFd) (hopen : fa fd = regularDescriptor idxInode position)
    (hpos0 : -2147483648 ≤ position) (hpos1 : position < 2147483648) :
    KeepsOnFailure img locals others fd bufNull nbytes fa ↔
      bufNull = true ∨ ¬ MovesBack img locals idxInode position nbytes := by
  cases bufNull with
  | true =>
    refine iff_of_true ?_ (Or.inl rfl)
    intro r hr _
    have hrefused : sysRead fd true nbytes (readDriver img locals others) fa = some (refusal fa) := by
      rw [sysRead, dispatch, if_pos (rfl : true = true)]
      split_ifs <;> rfl
    rw [hrefused] at hr
    cases hr
    rfl
  | false =>
    have hserved : sysRead fd false nbytes (readDriver img locals others) fa =
        (readFs img locals (fa fd) nbytes).map (answered fa fd .filesystemReg) := by
      have hflags : (fa fd).flags ≠ notInUse := by
        rw [hopen]
        show inUse ≠ notInUse
        decide
      have htable : (fa fd).fdJumptable = some .filesystemReg := by
        rw [hopen]
        rfl
      exact dispatch_served (by omega) (by omega) (by unfold minFd at hfd0; omega) hflags htable
    unfold KeepsOnFailure
    rw [hserved, hopen]
    constructor
    · intro hkeeps
      refine Or.inr ?_
      intro hmoves
      obtain ⟨bytes, hreply⟩ := readFs_of_movesBack hmoves
      rw [hreply, Option.map_some] at hkeeps
      have hsame : Function.update fa fd _ fd = fa fd := congrFun (hkeeps _ rfl rfl) fd
      rw [Function.update_self, hopen] at hsame
      have hposition : i32 (position + -1) = position := congrArg FileDescriptor.filePosition hsame
      unfold i32 u32 at hposition
      split at hposition <;> omega
    · rintro (hnull | hnot) r hr hret
      · cases hnull
      · obtain ⟨reply, hreply, rfl⟩ := Option.map_eq_some_iff.mp hr
        have hposition := readFs_position_of_not hnot hpos0 hpos1 hreply hret
        refine Function.update_eq_self_iff.mpr ?_
        rw [hposition, hopen]
        rfl

/-- The regular file `f` of 5 bytes, with inode 0; the image has one data block, and the one block
entry of the file is given. -/
def oneFileImage (entry : UInt8) : Image := fun addr =>
  if addr = 0 ∨ addr = 4 ∨ addr = 8 then 1
  else if addr = 64 then 102
  else if addr = 96 then 2
  else if addr = 4096 then 5
  else if addr = 4100 then entry
  else 0

def unsetLocals (img : Image) : ReadLocals where
  file := dentryAt img 0
  readBytes := 0
  dirFile := dentryAt img 0

/-- With a valid entry no read on `f` fails. -/
theorem failed_read_keeps_valid :
    KeepsOnFailure (oneFileImage 0) (unsetLocals (oneFileImage 0)) (fun _ _ _ => none) 2 false 5
      (fun _ => regularDescriptor 0 0) := by
  refine (failed_read_keeps_iff (by decide) (by decide) rfl (by decide) (by decide)).mpr
    (Or.inr ?_)
  rintro ⟨m, hfirst, ⟨-, hfails⟩ | ⟨hreg, -, -⟩⟩
  · obtain ⟨bytes, hcall⟩ := (readData_eq_neg_iff (u32_lt 5)).mpr hfails
    have hread : (readData (oneFileImage 0) (u32 0) (u32 0) (u32 5)).map Prod.fst = some 5 := by
      decide +kernel
    rw [hcall] at hread
    cases hread
  · have hone : numDir (oneFileImage 0) = 1 := by decide
    have hzero : m = 0 := by
      have hlt := hfirst.lt
      omega
    rw [hzero] at hreg
    exact absurd (by decide) hreg

/-- The entry 1 is rejected: the read returns -1 and the position goes from 0 to -1. -/
theorem failed_read_moves_back :
    (sysRead 2 false 5 (readDriver (oneFileImage 1) (unsetLocals (oneFileImage 1))
        (fun _ _ _ => none)) (fun _ => regularDescriptor 0 0)).map
          (fun r => (r.retval, (r.fileArray 2).filePosition)) = some (-1, -1) ∧
      ¬ KeepsOnFailure (oneFileImage 1) (unsetLocals (oneFileImage 1)) (fun _ _ _ => none) 2 false 5
        (fun _ => regularDescriptor 0 0) := by
  have hread : (sysRead 2 false 5 (readDriver (oneFileImage 1) (unsetLocals (oneFileImage 1))
      (fun _ _ _ => none)) (fun _ => regularDescriptor 0 0)).map
        (fun r => (r.retval, (r.fileArray 2).filePosition)) = some (-1, -1) := by decide +kernel
  refine ⟨hread, ?_⟩
  intro hkeeps
  obtain ⟨r, hr, hvalues⟩ := Option.map_eq_some_iff.mp hread
  have hret : r.retval = -1 := congrArg Prod.fst hvalues
  have hposition : (r.fileArray 2).filePosition = -1 := congrArg Prod.snd hvalues
  rw [hkeeps r hr hret] at hposition
  exact absurd hposition (by decide)

/-! ## Reads of an opened file -/

/-- Whatever the position, the request and the unset locals, the read on the descriptor comes back,
with what `read_data` delivers from the inode of the entry. -/
def ReadsEntry (img : Image) (slot : Nat) (descriptor : FileDescriptor) : Prop :=
  ∀ locals position nbytes, ∃ r bytes,
    readData img (u32 (dentryAt img slot).idxInode) (u32 position) (u32 nbytes) = some (r, bytes) ∧
      readFs img locals { descriptor with filePosition := position } nbytes =
        some (advance { retval := r, filePosition := position, bytes := bytes })

section Opened

variable {img : Image} {idxInode : Int}

/-- A first entry of another type is told by a read at the last position. -/
theorem regular_of_readsEntry {slot m : Nat} {descriptor : FileDescriptor}
    (hfirst : FirstCarrying img descriptor.inodeIndx m) (h : ReadsEntry img slot descriptor) :
    (dentryAt img m).filetype = regFile := by
  by_contra hreg
  -- `read_bytes` happens to be 5, which no read of no bytes returns
  obtain ⟨r, bytes, hcall, hread⟩ := h { unsetLocals img with readBytes := 5 } (-1) 0
  have hend : u32 (-1) = 4294967295 := by decide
  have hvalue : r = 0 ∨ r = -1 := by
    have hword : inodeLength img (u32 (dentryAt img slot).idxInode) < 4294967296 := word_lt _ _
    by_cases hthere : numInode img ≤ u32 (dentryAt img slot).idxInode
    · rw [readData, if_pos hthere] at hcall
      cases hcall
      exact Or.inr rfl
    · rw [readData_past_end (Nat.lt_of_not_le hthere) (by omega)] at hcall
      cases hcall
      exact Or.inl rfl
  have hfirst' : FirstCarrying img
      ({ descriptor with filePosition := -1 } : FileDescriptor).inodeIndx m := hfirst
  rw [readFs_of_first hfirst', readFound, if_neg hreg] at hread
  split_ifs at hread with hdir
  · have hpast : numDir img ≤ u32 (-1) := by
      have hword : numDir img < 4294967296 := word_lt _ _
      omega
    have hdirRead : readFsDir img (unsetLocals img).dirFile
        { descriptor with filePosition := -1 } 0 =
          { retval := 0, filePosition := 0, bytes := [] } := by
      rw [readFsDir, readDentryByIndex]
      dsimp only
      rw [if_pos hpast]
      rfl
    rw [show ({ unsetLocals img with readBytes := 5 } : ReadLocals).dirFile =
      (unsetLocals img).dirFile from rfl, hdirRead] at hread
    have hreply := Option.some.inj hread
    have hret : (0 : Int) = r := congrArg Reply.retval hreply
    have hposition : i32 (0 + 0) = i32 (-1 + r) := congrArg Reply.filePosition hreply
    rw [← hret] at hposition
    exact absurd hposition (by decide)
  · have hret : (5 : Int) = r := congrArg Reply.retval (Option.some.inj hread)
    omega

/-- **Reads of an opened file.** Reads on the descriptor that `open` has set up from an entry of
type regular file come back with the data of its inode exactly when the first entry of the
directory that carries the inode number is a regular one, and `read_data` ends on the inode. -/
theorem opened_file_read_iff {img : Image} {filename : List UInt8} {uninit : Dentry}
    {fa fa' : FileArray} {fd slot : Nat} (hopen : sysOpen img filename uninit fa = some ((fd : Int), fa'))
    (hslot : matchedSlot img (cstr filename) = some slot)
    (hreg : (dentryAt img slot).filetype = regFile) :
    ReadsEntry img slot (fa' fd) ↔
      (∃ m, FirstCarrying img (dentryAt img slot).idxInode m ∧
        (dentryAt img m).filetype = regFile) ∧
      ReadEnds img (u32 (dentryAt img slot).idxInode) := by
  have hinode : (fa' fd).inodeIndx = (dentryAt img slot).idxInode := by
    rcases sysOpen_inv hopen with ⟨hfail, -⟩ | ⟨i, fd', table, hmatch, -, -, -, hfd, hfa⟩
    · omega
    · obtain rfl : fd = fd' := by omega
      rw [hslot] at hmatch
      cases hmatch
      rw [hfa, Function.update_self, openedDescriptor]
      exact if_pos hreg
  constructor
  · intro hreads
    refine ⟨?_, ?_⟩
    · obtain ⟨r, bytes, hcall, hread⟩ := hreads (unsetLocals img) 0 0
      rcases search_cases img (dentryAt img slot).idxInode with hempty | ⟨m, hfirst⟩ |
          ⟨hpos, habsent⟩
      · -- an empty directory: the position does not move with the -1
        rw [readFs_of_empty hempty] at hread
        have hreply := Option.some.inj hread
        have hret : (-1 : Int) = r := congrArg Reply.retval hreply
        have hposition : (0 : Int) = i32 (0 + r) := congrArg Reply.filePosition hreply
        rw [← hret] at hposition
        exact absurd hposition (by decide)
      · rw [← hinode] at hfirst
        exact ⟨m, hinode ▸ hfirst, regular_of_readsEntry hfirst hreads⟩
      · rw [readFs_of_absent hpos (by rw [show ({ fa' fd with filePosition := 0 } :
          FileDescriptor).inodeIndx = (fa' fd).inodeIndx from rfl, hinode]; exact habsent)] at hread
        cases hread
    · refine readEnds_iff.mp ?_
      intro offset hoffset length hlength hnone
      obtain ⟨r, bytes, hcall, -⟩ := hreads (unsetLocals img) offset length
      rw [u32_natCast hoffset, u32_natCast hlength, hnone] at hcall
      cases hcall
  · rintro ⟨⟨m, hfirst, hreg'⟩, hends⟩ locals position nbytes
    have hsome := readEnds_iff.mpr hends (u32 position) (u32_lt position) (u32 nbytes) (u32_lt nbytes)
    obtain ⟨⟨r, bytes⟩, hcall⟩ := Option.ne_none_iff_exists'.mp hsome
    refine ⟨r, bytes, hcall, ?_⟩
    have hfirst' : FirstCarrying img
        ({ fa' fd with filePosition := position } : FileDescriptor).inodeIndx m := by
      show FirstCarrying img (fa' fd).inodeIndx m
      rw [hinode]
      exact hfirst
    rw [readFs_of_first hfirst', readFound, if_pos hreg']
    show (readData img (u32 (fa' fd).inodeIndx) (u32 position) (u32 nbytes)).map _ = _
    rw [hinode, hcall]
    rfl

end Opened

/-- The file `f` of `sampleImage`, opened. -/
theorem opened_file_read_sample : ∃ fa' : FileArray,
    sysOpen sampleImage [102] (dentryAt sampleImage 0) (fun _ => closedDescriptor) =
      some (((2 : Nat) : Int), fa') ∧ ReadsEntry sampleImage 2 (fa' 2) := by
  have hfd : (sysOpen sampleImage [102] (dentryAt sampleImage 0) (fun _ => closedDescriptor)).map
      Prod.fst = some 2 := by decide +kernel
  obtain ⟨⟨r, fa'⟩, hopen, rfl⟩ := Option.map_eq_some_iff.mp hfd
  refine ⟨fa', hopen, ?_⟩
  refine (@opened_file_read_iff _ _ _ _ _ 2 2 hopen (by decide) (by decide)).mpr ⟨⟨2, ?_, ?_⟩, ?_⟩
  · exact ⟨by decide, by decide, by decide⟩
  · decide
  · exact Or.inr (Or.inl (by decide))

/-- The directory `.` and the regular file `f` of 5 bytes, both with inode number 0. -/
def sharedInodeImage : Image := fun addr =>
  if addr = 0 then 2
  else if addr = 4 ∨ addr = 8 then 1
  else if addr = 64 then 46
  else if addr = 96 then 1
  else if addr = 128 then 102
  else if addr = 160 then 2
  else if addr = 4096 then 5
  else 0

/-- `f` is opened, and a read of 32 bytes returns the name of the directory entry. -/
theorem opened_file_reads_directory : ∃ fa' : FileArray,
    sysOpen sharedInodeImage [102] (dentryAt sharedInodeImage 0) (fun _ => closedDescriptor) =
      some (((2 : Nat) : Int), fa') ∧
    matchedSlot sharedInodeImage (cstr [102]) = some 1 ∧
    (dentryAt sharedInodeImage 1).filetype = regFile ∧
    (readFs sharedInodeImage (unsetLocals sharedInodeImage) (fa' 2) 32).map
      (fun reply => (reply.retval, reply.bytes.take 2)) = some (32, [46, 0]) ∧
    ¬ ReadsEntry sharedInodeImage 1 (fa' 2) := by
  have hfd : (sysOpen sharedInodeImage [102] (dentryAt sharedInodeImage 0)
      (fun _ => closedDescriptor)).map (fun r => (r.1, r.2 2)) =
        some (2, regularDescriptor 0 0) := by decide +kernel
  obtain ⟨⟨r, fa'⟩, hopen, hvalues⟩ := Option.map_eq_some_iff.mp hfd
  obtain rfl : r = 2 := congrArg Prod.fst hvalues
  have hslot : fa' 2 = regularDescriptor 0 0 := congrArg Prod.snd hvalues
  have hread : (readFs sharedInodeImage (unsetLocals sharedInodeImage) (regularDescriptor 0 0) 32).map
      (fun reply => (reply.retval, reply.bytes.take 2)) = some (32, [46, 0]) := by decide +kernel
  refine ⟨fa', hopen, by decide, by decide, ?_, ?_⟩
  · rw [hslot]
    exact hread
  · intro hreads
    obtain ⟨r, bytes, hcall, hread'⟩ := hreads (unsetLocals sharedInodeImage) 0 32
    have hdata : (readData sharedInodeImage (u32 (dentryAt sharedInodeImage 1).idxInode) (u32 0)
        (u32 32)).map Prod.fst = some 5 := by decide +kernel
    rw [hcall] at hdata
    obtain rfl : r = 5 := Option.some.inj hdata
    rw [hslot] at hread'
    have hread'' : readFs sharedInodeImage (unsetLocals sharedInodeImage) (regularDescriptor 0 0) 32 =
      some (advance { retval := 5, filePosition := 0, bytes := bytes }) := hread'
    rw [hread''] at hread
    have hret : (5 : Int) = 32 := congrArg Prod.fst (Option.some.inj hread)
    exact absurd hret (by decide)

end LinuxBasedOS.Files
