import LinuxBasedOS.Filesystem.FileContents

/-!
# Block entries that read_data looks at

Two questions about the entries of an inode, for every image, inode and request.

* Does an entry matter that holds no byte of the file? The loop counts `(offset + length) / 4096`
  as its last block, one too many when the request ends with a block. `unused_entries_iff` says
  when two images that agree on a file are told apart by a read of it: at the end of a file that
  fills its blocks, when the entry after the last one passes the check in one of them only.
* Is a corrupt entry rejected? The check is made on the entry cut to 16 bits.
  `corrupt_rejected_iff` says by the entries of the request when it stops the call in time.
-/

namespace LinuxBasedOS.Filesystem

open Word

/-! ## Images that agree on a file -/

/-- The images have the same counts, and the inode has in both the same length, the same entries
for the blocks of the file, and the same data in the blocks that `read_data` takes them for. The
entries after them, and everything else, may differ. -/
structure SameFile (img img' : Image) (inode : Nat) : Prop where
  numInode : numInode img' = numInode img
  numData : numData img' = numData img
  length : inodeLength img' inode = inodeLength img inode
  entries : ∀ k, k * fsBlock < inodeLength img inode → dblock img' inode k = dblock img inode k
  data : ∀ k, k * fsBlock < inodeLength img inode → ∀ b < fsBlock,
    img' (dataAddr img (u16 (dblock img inode k)) + b) =
      img (dataAddr img (u16 (dblock img inode k)) + b)

/-- A request that reads to the end of a file that fills its blocks, and comes to the entry after
those of the file. The counter of a file of 65535 blocks goes round: there every entry counts. -/
def EndsOnUnused (img : Image) (inode offset length : Nat) : Prop :=
  inode < numInode img ∧ offset < inodeLength img inode ∧
    inodeLength img inode ≤ offset + length ∧ inodeLength img inode % fsBlock = 0 ∧
    inodeLength img inode / fsBlock < 65536 ∧
    ∀ k < inodeLength img inode / fsBlock,
      offset / fsBlock ≤ k ∨ inodeLength img inode / fsBlock = 65535 → Accepted img inode k

instance (img : Image) (inode offset length : Nat) :
    Decidable (EndsOnUnused img inode offset length) :=
  inferInstanceAs (Decidable (_ ∧ _ ∧ _ ∧ _ ∧ _ ∧ ∀ k < _, _))

namespace SameFile

variable {img img' : Image} {inode offset length : Nat}

theorem accepted_iff (h : SameFile img img' inode) {k : Nat}
    (hk : k * fsBlock < inodeLength img inode) :
    Accepted img' inode k ↔ Accepted img inode k := by
  rw [Accepted, Accepted, h.entries k hk, h.numData]

theorem clampedLength (h : SameFile img img' inode) :
    clampedLength img' inode offset length = Filesystem.clampedLength img inode offset length := by
  rw [Filesystem.clampedLength, Filesystem.clampedLength, h.length]

theorem endBlock (h : SameFile img img' inode) :
    endBlock img' inode offset length = Filesystem.endBlock img inode offset length := by
  rw [Filesystem.endBlock, Filesystem.endBlock, h.clampedLength]

theorem reached_iff (h : SameFile img img' inode) {r : Nat} :
    Reached img' inode offset length r ↔ Reached img inode offset length r := by
  rw [Reached, Reached, h.endBlock]

theorem servedBytes (h : SameFile img img' inode) {n : Nat}
    (hn : offset + n ≤ inodeLength img inode) :
    servedBytes img' inode offset n = Filesystem.servedBytes img inode offset n := by
  refine List.map_congr_left ?_
  intro j hj
  have hjn := List.mem_range.mp hj
  have hused : u16 ((offset + j) / fsBlock) * fsBlock < inodeLength img inode := by
    unfold u16 fsBlock
    omega
  have hmod : (offset + j) % fsBlock < fsBlock := Nat.mod_lt _ (by decide)
  have haddr : ∀ block, dataAddr img' block = dataAddr img block := by
    intro block
    rw [dataAddr, dataAddr, h.numInode]
  rw [servedByte, servedByte, h.entries _ hused, haddr, h.data _ hused _ hmod]

end SameFile

/-- Images that differ only in entries of the inode that hold no byte of its file agree on the
file. -/
theorem sameFile_of_unused {img img' : Image} {inode : Nat} (hinode : inode < numInode img)
    (hdiffer : ∀ addr, img' addr ≠ img addr →
      inodeAddr inode + 4 + 4 * ((inodeLength img inode + 4095) / fsBlock) ≤ addr ∧
        addr < inodeAddr (inode + 1)) : SameFile img img' inode := by
  have hblk : fsBlock = 4096 := rfl
  have hfirst : inodeAddr inode = 4096 * (1 + inode) := rfl
  have hnext : inodeAddr (inode + 1) = 4096 * (1 + (inode + 1)) := rfl
  have hsame : ∀ addr, addr < inodeAddr inode + 4 + 4 * ((inodeLength img inode + 4095) / 4096) ∨
      inodeAddr (inode + 1) ≤ addr → img' addr = img addr := by
    intro addr haddr
    by_contra hne
    have hrange := hdiffer addr hne
    rw [hblk] at hrange
    omega
  refine ⟨?_, ?_, ?_, ?_, ?_⟩
  · exact word_congr fun j hj => hsame _ (by omega)
  · exact word_congr fun j hj => hsame _ (by omega)
  · exact word_congr fun j hj => hsame _ (by omega)
  · intro k hk
    rw [hblk] at hk
    exact word_congr fun j hj => hsame _ (by omega)
  · intro k hk b hb
    have haddr : dataAddr img (u16 (dblock img inode k)) =
        4096 * (1 + numInode img + u16 (dblock img inode k)) := rfl
    exact hsame _ (by omega)

/-! ## The entries that a call comes to -/

section Entries

variable {img img' : Image} {inode offset length : Nat}

/-- The bytes copied by the turns of a call are bytes of the file. -/
theorem copied_le (hoffset : offset < inodeLength img inode) (hrange : offset + length < 4294967296)
    (r : Nat) :
    offset + copiedBefore offset (clampedLength img inode offset length) r ≤
      inodeLength img inode := by
  have hle := copiedBefore_le offset (clampedLength img inode offset length) r
  rw [clampedLength_of_lt hrange rfl hoffset] at *
  omega

/-- A call comes to the entries of the file, and to the one after them only at the end of a file
that fills its blocks. -/
theorem turnBlock_of_reached (hoffset : offset < inodeLength img inode)
    (hrange : offset + length < 4294967296) {r : Nat} (hreached : Reached img inode offset length r) :
    turnBlock offset r * fsBlock < inodeLength img inode ∨
      turnBlock offset r = inodeLength img inode / fsBlock ∧
        inodeLength img inode % fsBlock = 0 ∧ inodeLength img inode ≤ offset + length := by
  have hblk : fsBlock = 4096 := rfl
  have hend : endBlock img inode offset length ≤
      (offset + min length (inodeLength img inode - offset)) / 4096 := by
    rw [endBlock, clampedLength_of_lt hrange rfl hoffset, u32_add (by omega)]
    exact Nat.mod_le _ _
  have hturn : turnBlock offset r ≤
      (offset + min length (inodeLength img inode - offset)) / 4096 := by
    cases r with
    | zero =>
      have hle : turnBlock offset 0 ≤ offset / 4096 := Nat.mod_le _ _
      omega
    | succ r =>
      have hle := hreached r (Nat.lt_succ_self r)
      omega
  rw [hblk]
  omega

/-- A call that comes to entries that pass the check alike goes alike. -/
theorem readData_congr (h : SameFile img img' inode) (hinode : inode < numInode img)
    (hoffset : offset < inodeLength img inode) (hrange : offset + length < 4294967296)
    (hagree : ∀ r, Reached img inode offset length r →
      (Accepted img' inode (turnBlock offset r) ↔ Accepted img inode (turnBlock offset r))) :
    readData img' inode offset length = readData img inode offset length := by
  have hinode' : inode < numInode img' := h.numInode.symm ▸ hinode
  have hoffset' : offset < inodeLength img' inode := h.length.symm ▸ hoffset
  have hlength : length < 4294967296 := by omega
  have hserved : ∀ r, (turnCopies img' inode offset (clampedLength img' inode offset length) r).flatMap
      (copyBytes img') =
        (turnCopies img inode offset (clampedLength img inode offset length) r).flatMap
          (copyBytes img) := by
    intro r
    rw [flatMap_turnCopies, flatMap_turnCopies, h.clampedLength,
      h.servedBytes (copied_le hoffset hrange r)]
  rw [readData_eq_readCopies, readData_eq_readCopies]
  rcases turns_cases img inode offset length with ⟨r, hreached, hbefore, hrejected⟩ |
      ⟨r, hreached, hlast, hall⟩ | ⟨hreached, hall⟩
  · have hbefore' : ∀ j < r, Accepted img' inode (turnBlock offset j) := by
      intro j hj
      exact (hagree j (hreached.mono (Nat.le_of_lt hj))).mpr (hbefore j hj)
    have hrejected' : ¬ Accepted img' inode (turnBlock offset r) := by
      rw [hagree r hreached]
      exact hrejected
    rw [readCopies_rejected hinode hoffset hlength hreached hbefore hrejected,
      readCopies_rejected hinode' hoffset' hlength (h.reached_iff.mpr hreached) hbefore' hrejected',
      Option.map_some, Option.map_some, hserved]
  · have hall' : ∀ j ≤ r, Accepted img' inode (turnBlock offset j) := by
      intro j hj
      exact (hagree j (hreached.mono hj)).mpr (hall j hj)
    have hlast' : ¬ turnBlock offset (r + 1) ≤ endBlock img' inode offset length := by
      rw [h.endBlock]
      exact hlast
    rw [readCopies_completed hinode hoffset hlength hreached hlast hall,
      readCopies_completed hinode' hoffset' hlength (h.reached_iff.mpr hreached) hlast' hall',
      Option.map_some, Option.map_some, hserved, h.clampedLength]
  · rw [readCopies_endless hinode hoffset hlength hreached hall,
      readCopies_endless hinode' hoffset' hlength (fun r => h.reached_iff.mpr (hreached r))
        (fun j => (hagree j (hreached j)).mpr (hall j))]
    rfl

end Entries

/-! ## The end of a file that fills its blocks -/

section Unused

variable {img img' : Image} {inode offset length : Nat}

/-- From the turn of the entry after the file on, nothing is left to copy. -/
theorem copiedBefore_of_past {q r : Nat} (hpast : inodeLength img inode ≤ turnBlock offset q * fsBlock)
    (hqr : q ≤ r) :
    copiedBefore offset (inodeLength img inode - offset) r = inodeLength img inode - offset := by
  have hle : turnBlock offset q ≤ offset / 4096 + q := Nat.mod_le _ _
  unfold copiedBefore fsBlock at *
  omega

/-- A request that reads to the end of the file has the block after its bytes as the last one. -/
theorem endBlock_of_reach (hoffset : offset < inodeLength img inode)
    (hrange : offset + length < 4294967296) (hreach : inodeLength img inode ≤ offset + length)
    (hcounter : inodeLength img inode / fsBlock < 65536) :
    endBlock img inode offset length = inodeLength img inode / fsBlock := by
  have hsum : offset + (inodeLength img inode - offset) = inodeLength img inode := by omega
  rw [endBlock_of_lt hrange (show inodeLength img inode - offset = _ by omega) hoffset (by rwa [hsum]),
    hsum]

/-- What a call that comes to the entry after the file makes of it. -/
theorem readData_endsOnUnused (h : EndsOnUnused img inode offset length)
    (hrange : offset + length < 4294967296) :
    readData img inode offset length =
      if Accepted img inode (inodeLength img inode / fsBlock) then
        if inodeLength img inode / fsBlock = 65535 then none
        else some ((u16 (inodeLength img inode - offset) : Int),
          servedBytes img inode offset (inodeLength img inode - offset))
      else some (-1, servedBytes img inode offset (inodeLength img inode - offset)) := by
  have hblk : fsBlock = 4096 := rfl
  obtain ⟨hinode, hoffset, hreach, haligned, hcounter, haccepted⟩ := h
  have hclamp : clampedLength img inode offset length = inodeLength img inode - offset :=
    clampedLength_of_lt hrange (by omega) hoffset
  obtain ⟨r, hr⟩ := Nat.exists_eq_add_of_le
    (show offset / fsBlock ≤ inodeLength img inode / fsBlock from Nat.div_le_div_right (by omega))
  have hend := (endBlock_of_reach hoffset hrange hreach hcounter).trans hr
  have hpast : inodeLength img inode ≤ turnBlock offset r * fsBlock := by
    rw [turnBlock_of_le hend (Nat.le_refl r), ← hr, hblk] at *
    omega
  rw [hr] at haccepted hcounter ⊢
  by_cases hlast : Accepted img inode (offset / fsBlock + r)
  · have hall : ∀ k, offset / fsBlock ≤ k ∨ offset / fsBlock + r = 65535 →
        k ≤ offset / fsBlock + r → Accepted img inode k := by
      intro k hk hk'
      rcases Nat.eq_or_lt_of_le hk' with rfl | hlt
      · exact hlast
      · exact haccepted k hlt hk
    rw [if_pos hlast]
    by_cases hround : offset / fsBlock + r = 65535
    · have hturn : ∀ j, turnBlock offset j ≤ offset / fsBlock + r := by
        intro j
        have hlt : turnBlock offset j < 65536 := Nat.mod_lt _ (by decide)
        omega
      have hreached : ∀ q, Reached img inode offset length q := by
        intro q j _
        rw [hend]
        exact hturn (j + 1)
      rw [readData_eq_readCopies, readCopies_endless hinode hoffset (by omega) hreached
        (fun j => hall _ (Or.inr hround) (hturn j)), if_pos hround]
      rfl
    · rw [readData_of_accepted hinode hoffset (by omega) hend (by omega)
        (fun k hk => hall k (Or.inl hk)), hclamp, copiedBefore_of_past hpast (Nat.le_succ r),
        if_neg hround]
  · rw [if_neg hlast, readData_of_rejected hinode hoffset (by omega) hend
      (fun k hk hk' => haccepted k hk' (Or.inl hk)) hlast, hclamp,
      copiedBefore_of_past hpast (Nat.le_refl r)]

theorem SameFile.endsOnUnused (h : SameFile img img' inode)
    (hends : EndsOnUnused img inode offset length) : EndsOnUnused img' inode offset length := by
  obtain ⟨hinode, hoffset, hreach, haligned, hcounter, haccepted⟩ := hends
  rw [EndsOnUnused, h.numInode, h.length]
  refine ⟨hinode, hoffset, hreach, haligned, hcounter, ?_⟩
  intro k hk hfirst
  refine (h.accepted_iff ?_).mpr (haccepted k hk hfirst)
  unfold fsBlock at *
  omega

/-- A used entry that is rejected makes the call fail in both images, with the same bytes. -/
theorem readData_eq_of_rejected (h : SameFile img img' inode) (hinode : inode < numInode img)
    (hoffset : offset < inodeLength img inode) (hrange : offset + length < 4294967296)
    (hreach : inodeLength img inode ≤ offset + length) {r : Nat}
    (hreached : Reached img inode offset length r)
    (hused : turnBlock offset r * fsBlock < inodeLength img inode)
    (hrejected : ¬ Accepted img inode (turnBlock offset r)) :
    readData img' inode offset length = readData img inode offset length := by
  have hclamp : clampedLength img inode offset length = inodeLength img inode - offset :=
    clampedLength_of_lt hrange (by omega) hoffset
  have hrejected' : ¬ Accepted img' inode (turnBlock offset r) := by
    rw [h.accepted_iff hused]
    exact hrejected
  obtain ⟨q, -, hq, hbefore, hstop⟩ := exists_first_rejected hreached hrejected
  obtain ⟨q', -, hq', hbefore', hstop'⟩ :=
    exists_first_rejected (h.reached_iff.mpr hreached) hrejected'
  -- where the images differ on an entry, the whole request has been copied
  have hcopied : copiedBefore offset (inodeLength img inode - offset) q' =
      copiedBefore offset (inodeLength img inode - offset) q := by
    rcases Nat.lt_trichotomy q q' with hlt | heq | hgt
    · have hpast : inodeLength img inode ≤ turnBlock offset q * fsBlock := by
        by_contra hnot
        exact hstop ((h.accepted_iff (Nat.lt_of_not_le hnot)).mp (hbefore' q hlt))
      rw [copiedBefore_of_past hpast (Nat.le_of_lt hlt), copiedBefore_of_past hpast (Nat.le_refl q)]
    · rw [heq]
    · have hpast : inodeLength img inode ≤ turnBlock offset q' * fsBlock := by
        by_contra hnot
        exact hstop' ((h.accepted_iff (Nat.lt_of_not_le hnot)).mpr (hbefore q' hgt))
      rw [copiedBefore_of_past hpast (Nat.le_of_lt hgt), copiedBefore_of_past hpast (Nat.le_refl q')]
  have hinode' : inode < numInode img' := h.numInode.symm ▸ hinode
  have hoffset' : offset < inodeLength img' inode := h.length.symm ▸ hoffset
  rw [readData_eq_readCopies, readData_eq_readCopies,
    readCopies_rejected hinode hoffset (by omega) hq hbefore hstop,
    readCopies_rejected hinode' hoffset' (by omega) hq' hbefore' hstop', Option.map_some,
    Option.map_some, flatMap_turnCopies, flatMap_turnCopies, h.clampedLength, hclamp, hcopied,
    h.servedBytes]
  have hle := copiedBefore_le offset (inodeLength img inode - offset) q
  omega

/-- The loop of a request to the end of a file that fills its blocks comes to every entry of the
request, and in a file of 65535 blocks to every entry. -/
theorem exists_turn (hoffset : offset < inodeLength img inode) (hrange : offset + length < 4294967296)
    (hreach : inodeLength img inode ≤ offset + length)
    (hcounter : inodeLength img inode / fsBlock < 65536) {k : Nat}
    (hk : k < inodeLength img inode / fsBlock)
    (hfirst : offset / fsBlock ≤ k ∨ inodeLength img inode / fsBlock = 65535) :
    ∃ r, Reached img inode offset length r ∧ turnBlock offset r = k := by
  have hblk : fsBlock = 4096 := rfl
  have hend := endBlock_of_reach hoffset hrange hreach hcounter
  rw [hblk] at hk hfirst hcounter hend
  by_cases hbefore : offset / 4096 ≤ k
  · refine ⟨k - offset / 4096, ?_, ?_⟩
    · intro j hj
      rw [hend, turnBlock, hblk, u16_of_lt (by omega)]
      omega
    · rw [turnBlock, hblk, u16_of_lt (by omega)]
      omega
  · refine ⟨65536 + k - offset / 4096, ?_, ?_⟩
    · intro j _
      have hlt : turnBlock offset (j + 1) < 65536 := Nat.mod_lt _ (by decide)
      omega
    · unfold turnBlock u16 fsBlock
      omega

/-- **Unused entries.** A read tells two images that agree on the file apart exactly when it ends
at the end of a file that fills its blocks, comes to the entry after the last one, and that entry
passes the check in one of the two images only. -/
theorem unused_entries_iff (h : SameFile img img' inode) (hrange : offset + length < 4294967296) :
    readData img' inode offset length = readData img inode offset length ↔
      (EndsOnUnused img inode offset length →
        (Accepted img' inode (inodeLength img inode / fsBlock) ↔
          Accepted img inode (inodeLength img inode / fsBlock))) := by
  constructor
  · intro heq hends
    have hcall := readData_endsOnUnused hends hrange
    have hcall' := readData_endsOnUnused (h.endsOnUnused hends) hrange
    rw [heq, hcall, h.length] at hcall'
    by_cases hlast : Accepted img inode (inodeLength img inode / fsBlock) <;>
      by_cases hlast' : Accepted img' inode (inodeLength img inode / fsBlock)
    · exact iff_of_true hlast' hlast
    · rw [if_pos hlast, if_neg hlast'] at hcall'
      split_ifs at hcall'
      have hret := congrArg Prod.fst (Option.some.inj hcall')
      dsimp only at hret
      omega
    · rw [if_neg hlast, if_pos hlast'] at hcall'
      split_ifs at hcall'
      have hret := congrArg Prod.fst (Option.some.inj hcall')
      dsimp only at hret
      omega
    · exact iff_of_false hlast' hlast
  · intro hcond
    by_cases hinode : numInode img ≤ inode
    · rw [readData, readData, h.numInode, if_pos hinode, if_pos hinode]
    · have hinode := Nat.lt_of_not_le hinode
      rcases Nat.lt_or_ge offset (inodeLength img inode) with hoffset | hpast
      · by_cases hagree : ∀ r, Reached img inode offset length r →
            (Accepted img' inode (turnBlock offset r) ↔ Accepted img inode (turnBlock offset r))
        · exact readData_congr h hinode hoffset hrange hagree
        · -- the images differ on the entry after the file, but a used entry is rejected
          simp only [not_forall] at hagree
          obtain ⟨r, hreached, hdiffer⟩ := hagree
          rcases turnBlock_of_reached hoffset hrange hreached with hused |
              ⟨hlast, haligned, hreach⟩
          · exact absurd (h.accepted_iff hused) hdiffer
          · rw [hlast] at hdiffer
            have hcounter : inodeLength img inode / fsBlock < 65536 := by
              rw [← hlast]
              exact Nat.mod_lt _ (by decide)
            have hnot : ¬ EndsOnUnused img inode offset length := fun hends => hdiffer (hcond hends)
            simp only [EndsOnUnused, hinode, hoffset, hreach, haligned, hcounter, true_and,
              not_forall] at hnot
            obtain ⟨k, hk, hfirst, hrejected⟩ := hnot
            obtain ⟨q, hq, hturn⟩ := exists_turn hoffset hrange hreach hcounter hk hfirst
            refine readData_eq_of_rejected h hinode hoffset hrange hreach hq ?_ ?_
            · rw [hturn]
              unfold fsBlock at *
              omega
            · rw [hturn]
              exact hrejected
      · rw [readData_past_end hinode hpast,
          readData_past_end (h.numInode.symm ▸ hinode) (h.length.symm ▸ hpast)]

end Unused

/-- A file that fills the one data block of the image; its second entry is `entry`. -/
def fullBlockImage (entry : UInt8) : Image := fun addr =>
  if addr = 4 ∨ addr = 8 then 1
  else if addr = 4097 then 16
  else if addr = 4104 then entry
  else 0

theorem fullBlockImage_differ {entry entry' : UInt8} {addr : Nat}
    (h : fullBlockImage entry' addr ≠ fullBlockImage entry addr) : addr = 4104 := by
  by_contra hne
  refine h ?_
  rw [fullBlockImage, fullBlockImage, if_neg hne, if_neg hne]

theorem sameFile_fullBlockImage : SameFile (fullBlockImage 0) (fullBlockImage 1) 0 := by
  refine sameFile_of_unused (by decide) ?_
  intro addr hdiffer
  rw [fullBlockImage_differ hdiffer]
  decide

/-- The first 4095 bytes are read alike from both images. -/
theorem unused_entries_before_end :
    readData (fullBlockImage 1) 0 0 4095 = readData (fullBlockImage 0) 0 0 4095 :=
  (unused_entries_iff sameFile_fullBlockImage (by decide)).mpr fun hends =>
    absurd hends.2.2.1 (by decide)

/-- The images differ in the second entry of the inode, which holds no byte of the file of 4096
bytes. A read of the whole file succeeds on the one and fails on the other. -/
theorem unused_entry_fails_read :
    inodeLength (fullBlockImage 0) 0 = 4096 ∧
      (∀ addr, fullBlockImage 1 addr ≠ fullBlockImage 0 addr →
        inodeAddr 0 + 4 + 4 * 1 ≤ addr ∧ addr < inodeAddr 0 + 4 + 4 * 2) ∧
      (∃ bytes, readData (fullBlockImage 0) 0 0 4096 = some (4096, bytes)) ∧
      (∃ bytes, readData (fullBlockImage 1) 0 0 4096 = some (-1, bytes)) ∧
      readData (fullBlockImage 1) 0 0 4096 ≠ readData (fullBlockImage 0) 0 0 4096 := by
  have hends : EndsOnUnused (fullBlockImage 0) 0 0 4096 := by decide
  have hcall := readData_endsOnUnused hends (by decide)
  have hcall' := readData_endsOnUnused (sameFile_fullBlockImage.endsOnUnused hends) (by decide)
  rw [if_pos (by decide), if_neg (by decide)] at hcall
  rw [if_neg (by decide)] at hcall'
  refine ⟨by decide, ?_, ⟨_, hcall⟩, ⟨_, hcall'⟩, ?_⟩
  · intro addr hdiffer
    rw [fullBlockImage_differ hdiffer]
    decide
  · rw [hcall, hcall']
    intro heq
    have hret := congrArg Prod.fst (Option.some.inj heq)
    exact absurd hret (by decide)

/-! ## Corrupt entries -/

/-- Entry `k` covers a byte of the request, cut to the file. -/
def Covers (img : Image) (inode offset length k : Nat) : Prop :=
  0 < min length (inodeLength img inode - offset) ∧ offset / fsBlock ≤ k ∧
    k * fsBlock < offset + min length (inodeLength img inode - offset)

instance (img : Image) (inode offset length k : Nat) :
    Decidable (Covers img inode offset length k) :=
  inferInstanceAs (Decidable (_ ∧ _ ∧ _))

/-- The block is named by a valid entry of the request. -/
def NamedByValid (img : Image) (inode offset length block : Nat) : Prop :=
  ∃ k, Covers img inode offset length k ∧ EntryValid img inode k ∧ dblock img inode k = block

/-- The call returns -1, and all bytes it has copied are from blocks that valid entries name. -/
def RejectsCorrupt (img : Image) (inode offset length : Nat) : Prop :=
  ∃ copies, readCopies img inode offset length = some (-1, copies) ∧
    ∀ c ∈ copies, 0 < c.size → NamedByValid img inode offset length c.block

/-- The 16-bit counter of a request runs through entry `k`: it starts at `first`, goes on as long as
it is at most `last`, and comes to 0 after 65535. -/
def InTurn (first last k : Nat) : Prop :=
  k = first ∨ k ≤ last ∧ (first < k ∨ first = 65535 ∨ last = 65535)

instance (first last k : Nat) : Decidable (InTurn first last k) :=
  inferInstanceAs (Decidable (_ ∨ _))

/-- How many entries the counter comes to before entry `k`. -/
def turnsTo (first k : Nat) : Nat := (k + (65536 - first)) % 65536

/-- The clamped request has a byte in the block for which the counter comes to entry `k`. -/
def TakesFrom (img : Image) (inode offset length k : Nat) : Prop :=
  (offset / fsBlock + turnsTo (u16 (offset / fsBlock)) k) * fsBlock <
    offset + clampedLength img inode offset length

instance (img : Image) (inode offset length k : Nat) :
    Decidable (TakesFrom img inode offset length k) :=
  inferInstanceAs (Decidable (_ < _))

/-- Entry `k` covers a byte of the request and fits 16 bits, or its low 16 bits are a valid entry
that covers one. -/
def LeadsToValid (img : Image) (inode offset length k : Nat) : Prop :=
  Covers img inode offset length k ∧ dblock img inode k < 65536 ∨
    ∃ v, Covers img inode offset length v ∧ EntryValid img inode v ∧
      dblock img inode v = dblock img inode k % 65536

/-- Among the entries of the request one has its low 16 bits at or above `num_data`, and all those
before it from which a byte is taken lead to blocks of valid entries. -/
def StopsInTime (img : Image) (inode offset length : Nat) : Prop :=
  ∃ k < 65536, InTurn (u16 (offset / fsBlock)) (endBlock img inode offset length) k ∧
    i32 (numData img) ≤ ((dblock img inode k % 65536 : Nat) : Int) ∧
    ∀ j < 65536, turnsTo (u16 (offset / fsBlock)) j < turnsTo (u16 (offset / fsBlock)) k →
      TakesFrom img inode offset length j → LeadsToValid img inode offset length j

section Corrupt

variable {img : Image} {inode offset length : Nat}

theorem turnBlock_turnsTo {k : Nat} (hk : k < 65536) :
    turnBlock offset (turnsTo (u16 (offset / fsBlock)) k) = k := by
  unfold turnBlock turnsTo u16 fsBlock
  omega

theorem turnsTo_turnBlock {j : Nat} (hj : j < 65536) :
    turnsTo (u16 (offset / fsBlock)) (turnBlock offset j) = j := by
  unfold turnBlock turnsTo u16 fsBlock
  omega

/-- The loop comes to an entry within one round of its counter, or not at all. -/
theorem reached_turnsTo_iff {k : Nat} (hk : k < 65536) :
    Reached img inode offset length (turnsTo (u16 (offset / fsBlock)) k) ↔
      InTurn (u16 (offset / fsBlock)) (endBlock img inode offset length) k := by
  have hfirst : u16 (offset / fsBlock) < 65536 := Nat.mod_lt _ (by decide)
  have hlast : endBlock img inode offset length < 65536 := Nat.mod_lt _ (by decide)
  have hturn : ∀ j, turnBlock offset j = (u16 (offset / fsBlock) + j) % 65536 := by
    intro j
    unfold turnBlock u16 fsBlock
    omega
  unfold Reached InTurn turnsTo
  simp only [hturn]
  generalize u16 (offset / fsBlock) = first at hfirst ⊢
  generalize endBlock img inode offset length = last at hlast ⊢
  constructor
  · intro hreached
    by_contra hnot
    have hne : k ≠ first := fun heq => hnot (Or.inl heq)
    have hend := hreached ((k + (65536 - first)) % 65536 - 1) (by omega)
    have hround := hreached (65534 - first)
    omega
  · rintro hin j hj
    omega

theorem not_accepted_iff {k : Nat} :
    ¬ Accepted img inode k ↔ i32 (numData img) ≤ ((dblock img inode k % 65536 : Nat) : Int) :=
  not_lt

/-- A turn copies something exactly when the clamped request has a byte in its block. -/
theorem turnCopy_size_pos_iff {j : Nat} (hj : j < 65536)
    (hpos : 0 < clampedLength img inode offset length) :
    0 < (turnCopy img inode offset (clampedLength img inode offset length) j).size ↔
      TakesFrom img inode offset length (turnBlock offset j) := by
  show 0 < copiedBefore _ _ (j + 1) - copiedBefore _ _ j ↔ _
  rw [TakesFrom, turnsTo_turnBlock hj]
  unfold copiedBefore fsBlock
  omega

/-- An entry that passes the check leads to the block of a valid entry exactly when the block it
is taken for is one. -/
theorem leadsToValid_iff {k : Nat} (haccepted : Accepted img inode k) :
    LeadsToValid img inode offset length k ↔
      NamedByValid img inode offset length (u16 (dblock img inode k)) := by
  constructor
  · rintro (⟨hcovers, hfits⟩ | hvalid)
    · have hblock : u16 (dblock img inode k) = dblock img inode k := u16_of_lt hfits
      have hentry : i32 (dblock img inode k) = dblock img inode k := i32_of_range (by omega) (by omega)
      refine ⟨k, hcovers, ?_, hblock.symm⟩
      unfold Accepted at haccepted
      rw [hblock] at haccepted
      rw [EntryValid, hentry]
      exact ⟨Int.natCast_nonneg _, haccepted⟩
    · exact hvalid
  · exact Or.inr

/-- What the loop makes of a request with a corrupt entry, turn by turn. -/
theorem rejectsCorrupt_iff_turns (hinode : inode < numInode img) (hlength : length < 4294967296)
    (hoffset : offset < inodeLength img inode) :
    RejectsCorrupt img inode offset length ↔
      ∃ r, Reached img inode offset length r ∧ ¬ Accepted img inode (turnBlock offset r) ∧
        (∀ j < r, Accepted img inode (turnBlock offset j)) ∧
        ∀ j < r, 0 < (turnCopy img inode offset (clampedLength img inode offset length) j).size →
          NamedByValid img inode offset length (u16 (dblock img inode (turnBlock offset j))) := by
  constructor
  · rintro ⟨copies, hcall, hcopies⟩
    rcases turns_cases img inode offset length with ⟨r, hreached, hbefore, hrejected⟩ |
        ⟨r, hreached, hlast, hall⟩ | ⟨hreached, hall⟩
    · rw [readCopies_rejected hinode hoffset hlength hreached hbefore hrejected] at hcall
      cases hcall
      refine ⟨r, hreached, hrejected, hbefore, ?_⟩
      intro j hj hsize
      exact hcopies _ (List.mem_map.mpr ⟨j, List.mem_range.mpr hj, rfl⟩) hsize
    · rw [readCopies_completed hinode hoffset hlength hreached hlast hall] at hcall
      have hret := congrArg Prod.fst (Option.some.inj hcall)
      dsimp only at hret
      omega
    · rw [readCopies_endless hinode hoffset hlength hreached hall] at hcall
      cases hcall
  · rintro ⟨r, hreached, hrejected, hbefore, hnamed⟩
    refine ⟨_, readCopies_rejected hinode hoffset hlength hreached hbefore hrejected, ?_⟩
    intro c hc hsize
    obtain ⟨j, hj, rfl⟩ := List.mem_map.mp hc
    exact hnamed j (List.mem_range.mp hj) hsize

/-- The first entry to be rejected comes within one round of the counter. -/
theorem first_rejected_lt {r : Nat} (hrejected : ¬ Accepted img inode (turnBlock offset r))
    (hbefore : ∀ j < r, Accepted img inode (turnBlock offset j)) : r < 65536 := by
  by_contra hle
  obtain ⟨q, rfl⟩ : ∃ q, r = q + 65536 := ⟨r - 65536, by omega⟩
  rw [turnBlock_period] at hrejected
  exact hrejected (hbefore q (by omega))

end Corrupt

/-- **Corrupt entries.** A call on a request with a corrupt entry rejects it exactly when the
entries of the request stop it in time: one of them has its low 16 bits at or above `num_data`, and
those before it lead to blocks of valid entries. -/
theorem corrupt_rejected_iff {img : Image} {inode offset length : Nat}
    (hinode : inode < numInode img) (hlength : length < 4294967296)
    (hcorrupt : ∃ k, Covers img inode offset length k ∧ ¬ EntryValid img inode k) :
    RejectsCorrupt img inode offset length ↔ StopsInTime img inode offset length := by
  obtain ⟨-, ⟨hcovered, -⟩, -⟩ := hcorrupt
  have hoffset : offset < inodeLength img inode := by omega
  have hpos : 0 < clampedLength img inode offset length := by
    unfold clampedLength
    split <;> omega
  rw [rejectsCorrupt_iff_turns hinode hlength hoffset]
  constructor
  · rintro ⟨r, hreached, hrejected, hbefore, hnamed⟩
    have hr := first_rejected_lt hrejected hbefore
    have hk : turnBlock offset r < 65536 := Nat.mod_lt _ (by decide)
    refine ⟨turnBlock offset r, hk, ?_, not_accepted_iff.mp hrejected, ?_⟩
    · rw [← turnsTo_turnBlock hr] at hreached
      exact (reached_turnsTo_iff hk).mp hreached
    · intro k hk' hlt htakes
      rw [turnsTo_turnBlock hr] at hlt
      have hturn := @turnBlock_turnsTo offset k hk'
      rw [← hturn] at htakes ⊢
      refine (leadsToValid_iff (hbefore _ hlt)).mpr (hnamed _ hlt ?_)
      exact (turnCopy_size_pos_iff (by omega) hpos).mpr htakes
  · rintro ⟨k, hk, hin, hlow, hvalid⟩
    have hrejected : ¬ Accepted img inode
        (turnBlock offset (turnsTo (u16 (offset / fsBlock)) k)) := by
      rw [turnBlock_turnsTo hk]
      exact not_accepted_iff.mpr hlow
    obtain ⟨q, hle, hq, hbefore, hstop⟩ :=
      exists_first_rejected ((reached_turnsTo_iff hk).mpr hin) hrejected
    have hround := first_rejected_lt hstop hbefore
    refine ⟨q, hq, hstop, hbefore, ?_⟩
    intro j hj hsize
    refine (leadsToValid_iff (hbefore j hj)).mp (hvalid _ (Nat.mod_lt _ (by decide)) ?_ ?_)
    · rw [turnsTo_turnBlock (by omega)]
      omega
    · exact (turnCopy_size_pos_iff (by omega) hpos).mp hsize

/-- A file of 5 bytes in an image of one data block; the low and the high half of its one entry
are given. -/
def corruptImage (low high : UInt8) : Image := fun addr =>
  if addr = 4 ∨ addr = 8 then 1
  else if addr = 4096 then 5
  else if addr = 4100 then low
  else if addr = 4102 then high
  else 0

/-- The entry 1 is rejected. -/
theorem corrupt_entry_rejected : RejectsCorrupt (corruptImage 1 0) 0 0 5 := by
  refine (corrupt_rejected_iff (by decide) (by decide) ⟨0, by decide, by decide⟩).mpr
    ⟨0, by decide, by decide, by decide, ?_⟩
  intro j _ hj
  exact absurd hj (Nat.not_lt_zero _)

/-- The entry 65536 is taken for block 0. -/
theorem corrupt_entry_taken :
    0 < numInode (corruptImage 0 1) ∧ dblock (corruptImage 0 1) 0 0 = 65536 ∧
      numData (corruptImage 0 1) = 1 ∧ Covers (corruptImage 0 1) 0 0 5 0 ∧
      ¬ EntryValid (corruptImage 0 1) 0 0 ∧
      readCopies (corruptImage 0 1) 0 0 5 = some (5, [{ block := 0, offset := 0, size := 5 }]) ∧
      ¬ RejectsCorrupt (corruptImage 0 1) 0 0 5 := by
  have hcall : readCopies (corruptImage 0 1) 0 0 5 =
      some (5, [{ block := 0, offset := 0, size := 5 }]) := by decide +kernel
  refine ⟨by decide, by decide, by decide, by decide, by decide, hcall, ?_⟩
  rintro ⟨copies, hcall', -⟩
  rw [hcall] at hcall'
  have hret : (5 : Int) = -1 := congrArg Prod.fst (Option.some.inj hcall')
  exact absurd hret (by decide)

end LinuxBasedOS.Filesystem
