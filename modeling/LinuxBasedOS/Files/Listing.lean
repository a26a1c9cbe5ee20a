import LinuxBasedOS.Base.Transition
import LinuxBasedOS.Files.ReadFs
import LinuxBasedOS.Filesystem.Lookup

/-!
# Listing a directory

`ls` and `grep` read a directory 32 bytes at a time and open what they read. The listing goes
through `read_dentry_by_index`, which copies 31 bytes of a name into a local entry that the
kernel has not set, and `strncpy` copies that to the user; opening goes through
`read_dentry_by_name`, which compares 31 bytes.

For a directory of distinct names of at most 30 bytes, `listing_reopens` says that the two agree:
the reads return the names in the order of the entries, filled up with NUL, then 0, and a lookup
of what was read finds the entry it was read from.
-/

namespace LinuxBasedOS.Files

open Word Lib Filesystem Transition

/-! ## The names of a directory -/

/-- The bytes of the name field of an entry before the first NUL. -/
def dentryName (img : Image) (i : Nat) : List UInt8 :=
  ((List.range filenameLimit).map (dentryAt img i).filename).takeWhile (· ≠ 0)

/-- The name as the reader receives it. -/
def paddedName (img : Image) (i : Nat) : List UInt8 :=
  (List.range filenameLimit).map (cstr (dentryName img i))

/-- A boot block of at most 63 entries with distinct names of 1 to 30 bytes. -/
structure Listable (img : Image) : Prop where
  numDir_le : numDir img ≤ dentrySlots
  distinct : ∀ i < numDir img, ∀ j < numDir img, dentryName img i = dentryName img j → i = j
  nonempty : ∀ i < numDir img, dentryName img i ≠ []
  short : ∀ i < numDir img, (dentryName img i).length ≤ 30

theorem zero_notMem_dentryName (img : Image) (i : Nat) : 0 ∉ dentryName img i := by
  intro hmem
  have hne := List.mem_takeWhile_imp hmem
  simp at hne

theorem length_dentryName_le (img : Image) (i : Nat) :
    (dentryName img i).length ≤ filenameLimit := by
  have hname : dentryName img i <+: (List.range filenameLimit).map (dentryAt img i).filename :=
    List.takeWhile_prefix _
  have hle := hname.length_le
  rwa [List.length_map, List.length_range] at hle

/-- The bytes of the name are those of the field, and a name that does not fill the field ends
at a NUL. -/
theorem stores_dentryName (img : Image) (i : Nat) : Stores img i (dentryName img i) := by
  have hfield : dentryName img i ++
      ((List.range filenameLimit).map (dentryAt img i).filename).dropWhile (· ≠ 0) =
        (List.range filenameLimit).map (dentryAt img i).filename :=
    List.takeWhile_append_dropWhile
  have hat : ∀ k < filenameLimit, (dentryAt img i).filename k =
      (dentryName img i ++
        ((List.range filenameLimit).map (dentryAt img i).filename).dropWhile (· ≠ 0)).getD k 0 := by
    intro k hk
    rw [hfield]
    simp [hk]
  refine ⟨length_dentryName_le img i, ?_, ?_⟩
  · intro k hk
    rw [hat k (Nat.lt_of_lt_of_le hk (length_dentryName_le img i)), cstr_of_lt hk]
    simp [List.getElem?_append_left hk, hk]
  · intro hlt
    rw [hat _ hlt]
    generalize hrest : ((List.range filenameLimit).map (dentryAt img i).filename).dropWhile (· ≠ 0) =
      rest at *
    cases rest with
    | nil => simp
    | cons c rest =>
      have hc := List.head?_dropWhile_not (fun c : UInt8 => decide (c ≠ 0))
        ((List.range filenameLimit).map (dentryAt img i).filename)
      rw [hrest] at hc
      simpa using hc

/-- A slot stores no name that ends before another one it stores. -/
theorem length_le_of_stores {img : Image} {i : Nat} {name name' : List UInt8}
    (h : Stores img i name) (h' : Stores img i name') (hname' : 0 ∉ name') :
    name'.length ≤ name.length := by
  by_contra hlt
  have hlt : name.length < name'.length := Nat.lt_of_not_le hlt
  have hend := h.2.2 (Nat.lt_of_lt_of_le hlt h'.1)
  rw [h'.2.1 _ hlt] at hend
  exact cstr_ne_zero hname' hlt hend

/-- A slot stores one name only. -/
theorem eq_of_stores {img : Image} {i : Nat} {name name' : List UInt8} (h : Stores img i name)
    (h' : Stores img i name') (hname : 0 ∉ name) (hname' : 0 ∉ name') : name = name' := by
  have hlen : name.length = name'.length :=
    Nat.le_antisymm (length_le_of_stores h' h hname) (length_le_of_stores h h' hname')
  refine List.ext_getElem hlen fun k hk hk' => ?_
  rw [← cstr_of_lt hk, ← cstr_of_lt hk', ← h.2.1 k hk, ← h'.2.1 k hk']

/-! ## Lookup of a listed name -/

/-- The memory at a pointer begins with the given bytes. -/
def BeginsWith (fname : Nat → UInt8) (bytes : List UInt8) : Prop :=
  ∀ k < bytes.length, fname k = bytes.getD k 0

theorem nameMatches_congr {img : Image} {fname gname : Nat → UInt8}
    (h : ∀ k < filenameLimit, fname k = gname k) (i : Nat) :
    nameMatches img fname i = nameMatches img gname i := by
  have hiff : nameMatches img fname i = true ↔ nameMatches img gname i = true := by
    rw [nameMatches_iff_agree, nameMatches_iff_agree]
    refine forall_congr' fun k => imp_congr_right fun hk => ?_
    have hk' : k < filenameLimit := Nat.lt_of_lt_of_le hk (Nat.sub_le _ _)
    rw [h k hk']
    refine imp_congr_left (forall_congr' fun j => imp_congr_right fun hj => ?_)
    rw [h j (Nat.lt_trans hj hk')]
  exact Bool.eq_iff_iff.mpr hiff

theorem fname_of_beginsWith {img : Image} {i : Nat} {fname : Nat → UInt8}
    (h : BeginsWith fname (paddedName img i)) :
    ∀ k < filenameLimit, fname k = cstr (dentryName img i) k := by
  intro k hk
  have hlen : (paddedName img i).length = filenameLimit := by simp [paddedName]
  rw [h k (by rw [hlen]; exact hk)]
  simp [paddedName, hk]

/-- The lookup of a listed name stops at the entry it was listed from. -/
theorem matchedSlot_listed {img : Image} (h : Listable img) {i : Nat} (hi : i < numDir img)
    {fname : Nat → UInt8} (hfname : BeginsWith fname (paddedName img i)) :
    matchedSlot img fname = some i := by
  have hcongr := @nameMatches_congr img _ _ (fname_of_beginsWith hfname)
  refine matchedSlot_eq_some.mpr ⟨Nat.le_of_lt hi, ?_, ?_⟩
  · rw [hcongr]
    exact nameMatches_of_stores (stores_dentryName img i)
  · intro j hj
    rw [hcongr, nameMatches_eq_false_iff (zero_notMem_dentryName img i)]
    constructor
    · intro hstores
      have heq := eq_of_stores hstores (stores_dentryName img j) (zero_notMem_dentryName img i)
        (zero_notMem_dentryName img j)
      have := h.distinct i hi j (by omega) heq
      omega
    · rintro ⟨hlong, -⟩
      have hshort := h.short i hi
      unfold filenameLimit at hlong
      omega

/-! ## Reading the directory -/

/-- A descriptor of an open directory, at a position. -/
structure DirDescriptor (descriptor : FileDescriptor) (position : Int) : Prop where
  table : descriptor.fdJumptable = some .filesystemDir
  flags : descriptor.flags = inUse
  filePosition : descriptor.filePosition = position

/-- The array of the process and what its reads have returned: the value, and the bytes stored
in its buffer. -/
structure Listing where
  fileArray : FileArray
  replies : List (Int × List UInt8)

/-- A read of 32 bytes; `locals` are the unset locals of the read routine. -/
def listStep (img : Image) (others : Driver) (fd : Nat) (s : Listing) (locals : ReadLocals) :
    Option Listing :=
  (sysRead fd false filenameLimit (readDriver img locals others) s.fileArray).map fun r =>
    { fileArray := r.fileArray, replies := s.replies ++ [(r.retval, r.bytes)] }

/-- What the `k`-th read of a directory has to return. -/
def listReply (img : Image) (k : Nat) : Int × List UInt8 :=
  if k < numDir img then (filenameLimit, paddedName img k) else (0, [])

section LocalEntry

variable {img : Image} {i : Nat}

/-- The local entry holds the first 31 bytes of the name; the byte after them is not set. -/
theorem localName (hi : i < numDir img) (uninit : Dentry) {k : Nat} (hk : k < 32) :
    dentryBytes (readDentryByIndex img i uninit).2 k =
      if k < 31 then cstr (dentryName img i) k else uninit.filename k := by
  obtain ⟨-, hbytes, hend⟩ := stores_dentryName img i
  rw [readDentryByIndex, if_neg (by omega), dentryBytes, if_pos hk]
  refine strncpy_of_string uninit.filename (zero_notMem_dentryName img i) ?_ k
  intro j hj hle
  rcases Nat.eq_or_lt_of_le hle with rfl | hlt
  · rw [hend (by unfold filenameLimit at *; omega), cstr_of_le (Nat.le_refl _)]
  · exact hbytes j hlt

/-- What the read stores at byte `k`. -/
theorem copiedName (hi : i < numDir img) (uninit : Dentry) {n k : Nat} (hn : n ≤ 32) (hk : k < n) :
    strncpy (fun _ => 0) (dentryBytes (readDentryByIndex img i uninit).2) n k =
      if k = 31 ∧ 30 < (dentryName img i).length then uninit.filename 31
      else cstr (dentryName img i) k := by
  have hover := @forall_ne_zero_iff (dentryBytes (readDentryByIndex img i uninit).2) _
    (zero_notMem_dentryName img i) k fun j hj _ => by
      rw [localName hi uninit (by omega), if_pos (by omega)]
  rw [strncpy_apply, if_pos hk]
  split_ifs with hne hlast hlast
  · rw [localName hi uninit (by omega), if_neg (by omega), hlast.1]
  · have hle := hover.mp hne
    rw [localName hi uninit (by omega), if_pos (by omega)]
  · rw [hover] at hne
    omega
  · rw [hover] at hne
    rw [cstr_of_le (by omega)]

/-- A read inside the directory. -/
theorem readFsDir_of_lt (hi : i < numDir img) {slot : FileDescriptor}
    (hslot : u32 slot.filePosition = i) (uninit : Dentry) {n : Nat} (hn : n ≤ 32) :
    readFsDir img uninit slot n =
      { retval := n
        filePosition := i32 (slot.filePosition + 1)
        bytes := (List.range n).map
          (strncpy (fun _ => 0) (dentryBytes (readDentryByIndex img i uninit).2) n) } := by
  have hfound : (readDentryByIndex img i uninit).1 = 0 := by
    rw [readDentryByIndex, if_neg (by omega)]
  rw [readFsDir, hslot, u32_natCast (by omega), if_pos hfound]

end LocalEntry

/-- One read of a directory: whatever the local entry held, the reader gets the name of the
entry at the position, or 0 past the last. -/
theorem readFsDir_reply {img : Image} (h : Listable img) {k : Nat} (hk : k + 1 < 2147483648)
    {slot : FileDescriptor} (hslot : slot.filePosition = k) (uninit : Dentry) :
    readFsDir img uninit slot filenameLimit =
      { retval := (listReply img k).1
        filePosition := (k + 1 : Nat)
        bytes := (listReply img k).2 } := by
  have hpos : u32 slot.filePosition = k := by
    rw [hslot]
    exact u32_natCast (by omega)
  have hnext : i32 (slot.filePosition + 1) = (k + 1 : Nat) := by
    rw [hslot]
    exact i32_of_range (by omega) (by omega)
  by_cases hlt : k < numDir img
  · have hshort := h.short k hlt
    have hbytes : (List.range filenameLimit).map (strncpy (fun _ => 0)
        (dentryBytes (readDentryByIndex img k uninit).2) filenameLimit) = paddedName img k := by
      refine List.map_congr_left fun j hj => ?_
      rw [copiedName hlt uninit (by decide) (List.mem_range.mp hj), if_neg (by omega)]
    rw [readFsDir_of_lt hlt hpos uninit (by decide), hnext, hbytes, listReply, if_pos hlt]
  · have hpast : (readDentryByIndex img k uninit).1 = -1 := by
      rw [readDentryByIndex, if_pos (by omega)]
    simp only [readFsDir, hpos, hnext]
    rw [if_neg (by rw [hpast]; decide), listReply, if_neg hlt]

/-- The descriptor stands after the reads made so far, and each has returned what it should. -/
structure ListingHolds (img : Image) (fd : Nat) (s : Listing) : Prop where
  descriptor : DirDescriptor (s.fileArray fd) s.replies.length
  replies : s.replies = (List.range s.replies.length).map (listReply img)

theorem listStep_holds {img : Image} (h : Listable img) {fd : Nat} (hfd0 : minFd ≤ fd)
    (hfd1 : fd < maxFd) {s : Listing} (hs : ListingHolds img fd s)
    (hlen : s.replies.length + 1 < 2147483648) (others : Driver) (locals : ReadLocals) :
    ∃ s', listStep img others fd s locals = some s' ∧ ListingHolds img fd s' ∧
      s'.replies.length = s.replies.length + 1 := by
  obtain ⟨⟨htable, hflags, hpos⟩, hreplies⟩ := hs
  have hserved : sysRead fd false filenameLimit (readDriver img locals others) s.fileArray =
      (readDriver img locals others .filesystemDir (s.fileArray fd) filenameLimit).map
        (answered s.fileArray fd .filesystemDir) := by
    refine dispatch_served (by omega) (by omega) (by unfold minFd at hfd0; omega) ?_ htable
    rw [Int.toNat_natCast, hflags]
    decide
  have hreply := readFsDir_reply h hlen hpos locals.dirFile
  rw [readDriver, hreply, Option.map_some] at hserved
  refine ⟨_, Option.map_eq_some_iff.mpr ⟨_, hserved, rfl⟩, ⟨⟨?_, ?_, ?_⟩, ?_⟩, ?_⟩
  · simp [answered, htable]
  · simp [answered, hflags]
  · simp [answered]
  · rw [List.length_append, List.length_singleton, List.range_succ, List.map_append, ← hreplies]
    rfl
  · simp

theorem run_listing {img : Image} (h : Listable img) {fd : Nat} (hfd0 : minFd ≤ fd)
    (hfd1 : fd < maxFd) (others : Driver) {s : Listing} (hs : ListingHolds img fd s)
    {reads : List ReadLocals} (hlen : s.replies.length + reads.length < 2147483648) :
    ∃ s', run (listStep img others fd) s reads = some s' ∧ ListingHolds img fd s' ∧
      s'.replies.length = s.replies.length + reads.length := by
  induction reads generalizing s with
  | nil => exact ⟨s, rfl, hs, rfl⟩
  | cons locals reads ih =>
    rw [List.length_cons] at hlen
    obtain ⟨t, hstep, ht, hlen'⟩ := listStep_holds h hfd0 hfd1 hs (by omega) others locals
    obtain ⟨s', hrun, hs', hlast⟩ := ih ht (by omega)
    refine ⟨s', run_cons.mpr ⟨t, hstep, hrun⟩, hs', ?_⟩
    rw [hlast, hlen', List.length_cons]
    omega

/-- **Listing and reopening.** For every listable boot block, reads of 32 bytes on a directory
descriptor at position 0 return the names of the entries in order and then 0, whatever the
kernel's local entry held, and the lookup of each returned name finds the entry it came from. -/
theorem listing_reopens {img : Image} (h : Listable img) {fa : FileArray} {fd : Nat}
    (hfd0 : minFd ≤ fd) (hfd1 : fd < maxFd) (hdir : DirDescriptor (fa fd) 0) (others : Driver)
    {reads : List ReadLocals} (hreads : reads.length < 2147483648) :
    (∃ s, run (listStep img others fd) { fileArray := fa, replies := [] } reads = some s ∧
      s.replies = (List.range reads.length).map (listReply img)) ∧
    ∀ i < numDir img, ∀ fname, BeginsWith fname (paddedName img i) → ∀ dentry,
      (readDentryByName img fname dentry).1 = 0 ∧
      (readDentryByName img fname dentry).2.filetype = (dentryAt img i).filetype ∧
      (readDentryByName img fname dentry).2.idxInode = (dentryAt img i).idxInode := by
  constructor
  · have hstart : ListingHolds img fd { fileArray := fa, replies := [] } := ⟨hdir, rfl⟩
    obtain ⟨s, hrun, hs, hlen⟩ :=
      run_listing h hfd0 hfd1 others hstart (show [].length + reads.length < 2147483648 by simpa)
    refine ⟨s, hrun, ?_⟩
    rw [hs.replies, hlen]
    simp
  · intro i hi fname hfname dentry
    exact readDentryByName_of_some (matchedSlot_listed h hi hfname) dentry

theorem listable_sampleImage : Listable sampleImage where
  numDir_le := by decide
  distinct := by decide
  nonempty := by decide
  short := by decide

def sampleLocals : ReadLocals where
  file := dentryAt sampleImage 0
  readBytes := 0
  dirFile := dentryAt sampleImage 2

/-- The directory of `sampleImage`, opened. -/
def sampleListing : Listing where
  fileArray := fun _ => openedDescriptor (dentryAt sampleImage 0) .filesystemDir
  replies := []

theorem dirDescriptor_sampleListing : DirDescriptor (sampleListing.fileArray 2) 0 := ⟨rfl, rfl, rfl⟩

/-- The directory with the entries `.`, `rtc` and `f`, read four times. -/
theorem listing_sample :
    ∃ s, run (listStep sampleImage (fun _ _ _ => none) 2) sampleListing
        (List.replicate 4 sampleLocals) = some s ∧
      s.replies.map Prod.fst = [32, 32, 32, 0] ∧
      s.replies.map (fun reply => reply.2.take 4) =
        [[46, 0, 0, 0], [114, 116, 99, 0], [102, 0, 0, 0], []] := by
  obtain ⟨⟨s, hrun, hreplies⟩, -⟩ := listing_reopens listable_sampleImage (by decide) (by decide)
    dirDescriptor_sampleListing (fun _ _ _ => none)
    (show (List.replicate 4 sampleLocals).length < 2147483648 by decide)
  refine ⟨s, hrun, ?_⟩
  rw [hreplies]
  decide +kernel

end LinuxBasedOS.Files
