import LinuxBasedOS.Filesystem.ReadData

/-!
# The turns of read_data

The loop of `read_data` by the number of its turn, for every image and every request. Turn `j`
looks at the entry that the 16-bit counter has come to, `turnBlock offset j`, and copies what the
request takes of one block. Nothing else is needed of the inode: it may be longer than its 1023
entries, and the counters may wrap.

* `copyLoop` is the loop with the list of its `memcpy` calls in place of the bytes, and
  `readData_eq_readCopies` says that the bytes are those of the calls.
* `readCopies_rejected`, `readCopies_completed` and `readCopies_endless` are the three ways a call
  can go: it comes to an entry that the check rejects, it gets through its turns, or it does not
  come back. `turns_cases` says that there is no other.
* `readData_of_rejected` and `readData_of_accepted` are the first two for requests whose counter
  does not wrap. `readData_chunk` is what follows for an inode whose entries are all good.
-/

namespace LinuxBasedOS.Filesystem

open Word Cursor

/-! ## The calls of memcpy -/

/-- A call of `memcpy`: the data block, the first byte in it, and how many bytes. -/
structure Copy where
  block : Nat
  offset : Nat
  size : Nat
  deriving DecidableEq

def copyBytes (img : Image) (c : Copy) : List UInt8 :=
  memBytes img (dataAddr img c.block + c.offset) c.size

/-- The `do` loop of `read_data`, with its calls of `memcpy`. -/
def copyLoop (img : Image) (inode totalBlocks : Nat) :
    Nat → Nat → Nat → Nat → Nat → List Copy → Option (Int × List Copy)
  | 0, _, _, _, _, _ => none
  | fuel + 1, offset, length, currentBlock, writtenBytes, copies =>
    let offsetBlock := u16 (offset % fsBlock)
    let idxBlock := u16 (dblock img inode currentBlock)
    if i32 (numData img) ≤ (idxBlock : Int) then some (-1, copies)
    else
      let n := if fsBlock - offsetBlock ≤ length then u16 (fsBlock - offsetBlock) else u16 length
      let copies' := copies ++ [{ block := idxBlock, offset := offsetBlock, size := n }]
      let writtenBytes' := u16 (writtenBytes + n)
      let currentBlock' := u16 (currentBlock + 1)
      if currentBlock' ≤ totalBlocks then
        copyLoop img inode totalBlocks fuel (u32 (offset + n)) (u32 (length - n)) currentBlock'
          writtenBytes' copies'
      else some (writtenBytes', copies')

/-- The length of the request after the clamp of `read_data`. -/
def clampedLength (img : Image) (inode offset length : Nat) : Nat :=
  if inodeLength img inode ≤ u32 (offset + length) then inodeLength img inode - offset else length

/-- `total_blocks`, the last value of the counter. -/
def endBlock (img : Image) (inode offset length : Nat) : Nat :=
  u16 (u32 (offset + clampedLength img inode offset length) / fsBlock)

/-- `read_data` with its calls of `memcpy`. -/
def readCopies (img : Image) (inode offset length : Nat) : Option (Int × List Copy) :=
  if numInode img ≤ inode then some (-1, [])
  else if inodeLength img inode ≤ offset then some (0, [])
  else
    copyLoop img inode (endBlock img inode offset length) readFuel offset
      (clampedLength img inode offset length) (u16 (offset / fsBlock)) 0 []

theorem readLoop_eq_copyLoop (img : Image) (inode totalBlocks fuel offset length currentBlock
    writtenBytes : Nat) (copies : List Copy) :
    readLoop img inode totalBlocks fuel offset length currentBlock writtenBytes
        (copies.flatMap (copyBytes img)) =
      (copyLoop img inode totalBlocks fuel offset length currentBlock writtenBytes copies).map
        fun r => (r.1, r.2.flatMap (copyBytes img)) := by
  induction fuel generalizing offset length currentBlock writtenBytes copies with
  | zero => rfl
  | succ fuel ih =>
    rw [readLoop, copyLoop]
    dsimp only
    rw [copySize_eq]
    generalize min length (fsBlock - u16 (offset % fsBlock)) = n
    split_ifs
    · rfl
    · rw [← ih, List.flatMap_append, List.flatMap_singleton]
      rfl
    · rw [Option.map_some, List.flatMap_append, List.flatMap_singleton]
      rfl

/-- The bytes that `read_data` writes are those of its calls of `memcpy`. -/
theorem readData_eq_readCopies (img : Image) (inode offset length : Nat) :
    readData img inode offset length =
      (readCopies img inode offset length).map fun r => (r.1, r.2.flatMap (copyBytes img)) := by
  rw [readData, readCopies]
  by_cases hinode : numInode img ≤ inode
  · rw [if_pos hinode, if_pos hinode]
    rfl
  · rw [if_neg hinode, if_neg hinode]
    by_cases hoffset : inodeLength img inode ≤ offset
    · rw [if_pos hoffset, if_pos hoffset]
      rfl
    · rw [if_neg hoffset, if_neg hoffset]
      exact readLoop_eq_copyLoop img inode _ readFuel offset _ _ 0 []

/-! ## Turns -/

/-- The counter `current_block` in turn `j`. -/
def turnBlock (offset j : Nat) : Nat := u16 (offset / fsBlock + j)

/-- The bytes copied before turn `j`. -/
def copiedBefore (offset length j : Nat) : Nat :=
  min length ((offset / fsBlock + j) * fsBlock - offset)

/-- The check of `read_data` lets entry `k` pass. -/
def Accepted (img : Image) (inode k : Nat) : Prop :=
  (u16 (dblock img inode k) : Int) < i32 (numData img)

instance (img : Image) (inode k : Nat) : Decidable (Accepted img inode k) :=
  inferInstanceAs (Decidable (_ < _))

/-- The copy of turn `j`. -/
def turnCopy (img : Image) (inode offset length j : Nat) : Copy where
  block := u16 (dblock img inode (turnBlock offset j))
  offset := (offset + copiedBefore offset length j) % fsBlock
  size := copiedBefore offset length (j + 1) - copiedBefore offset length j

def turnCopies (img : Image) (inode offset length r : Nat) : List Copy :=
  (List.range r).map (turnCopy img inode offset length)

theorem copiedBefore_zero (offset length : Nat) : copiedBefore offset length 0 = 0 := by
  unfold copiedBefore fsBlock
  omega

theorem copiedBefore_le (offset length j : Nat) : copiedBefore offset length j ≤ length :=
  Nat.min_le_left _ _

theorem turnCopies_succ (img : Image) (inode offset length r : Nat) :
    turnCopies img inode offset length (r + 1) =
      turnCopies img inode offset length r ++ [turnCopy img inode offset length r] := by
  rw [turnCopies, List.range_succ, List.map_append]
  rfl

/-- A turn copies the rest of the request, or up to the end of its block. -/
theorem copiedBefore_succ (offset length j : Nat) :
    copiedBefore offset length (j + 1) = copiedBefore offset length j +
      min (length - copiedBefore offset length j)
        (fsBlock - (offset + copiedBefore offset length j) % fsBlock) := by
  unfold copiedBefore fsBlock
  omega

/-- The loop at the beginning of turn `j`. -/
def loopAt (img : Image) (inode totalBlocks offset length fuel j : Nat) :
    Option (Int × List Copy) :=
  copyLoop img inode totalBlocks fuel (u32 (offset + copiedBefore offset length j : Nat))
    (length - copiedBefore offset length j) (turnBlock offset j)
    (u16 (copiedBefore offset length j)) (turnCopies img inode offset length j)

section Turn

variable {img : Image} {inode totalBlocks offset length : Nat}

theorem loopAt_succ (hlength : length < 4294967296) (fuel j : Nat) :
    loopAt img inode totalBlocks offset length (fuel + 1) j =
      if Accepted img inode (turnBlock offset j) then
        if turnBlock offset (j + 1) ≤ totalBlocks then
          loopAt img inode totalBlocks offset length fuel (j + 1)
        else some ((u16 (copiedBefore offset length (j + 1)) : Int),
          turnCopies img inode offset length (j + 1))
      else some (-1, turnCopies img inode offset length j) := by
  have hblk : fsBlock = 4096 := rfl
  have hle := copiedBefore_le offset length j
  have hsucc := copiedBefore_succ offset length j
  generalize hc : copiedBefore offset length j = c at hle hsucc
  have hmod : u32 ((offset + c : Nat) : Int) % fsBlock = (offset + c) % fsBlock := by
    unfold u32 fsBlock
    omega
  have hlt : (offset + c) % fsBlock < fsBlock := Nat.mod_lt _ (by omega)
  have hob : u16 (u32 ((offset + c : Nat) : Int) % fsBlock) = (offset + c) % fsBlock := by
    rw [hmod]
    exact u16_of_lt (by omega)
  have hsize : min (length - c) (fsBlock - (offset + c) % fsBlock) =
      copiedBefore offset length (j + 1) - c := by
    rw [hsucc]
    omega
  generalize hd : copiedBefore offset length (j + 1) = d at hsucc hsize
  have hoff : u32 ((u32 ((offset + c : Nat) : Int) : Int) + ((d - c : Nat) : Int)) =
      u32 ((offset + d : Nat) : Int) := by
    unfold u32
    omega
  have hlen : u32 (((length - c : Nat) : Int) - ((d - c : Nat) : Int)) = length - d := by
    unfold u32
    omega
  have hwritten : u16 (u16 c + (d - c)) = u16 d := by
    unfold u16
    omega
  have hnext : u16 (turnBlock offset j + 1) = turnBlock offset (j + 1) := by
    unfold turnBlock u16
    omega
  have hcopy : turnCopy img inode offset length j =
      { block := u16 (dblock img inode (turnBlock offset j))
        offset := (offset + c) % fsBlock
        size := d - c } := by
    rw [turnCopy, hc, hd]
  rw [loopAt, loopAt, hc, hd, copyLoop]
  dsimp only
  rw [hob, copySize_eq, hsize, hoff, hlen, hwritten, hnext, turnCopies_succ, hcopy]
  by_cases haccepted : Accepted img inode (turnBlock offset j)
  · rw [if_pos haccepted, if_neg (not_le.mpr haccepted)]
  · rw [if_neg haccepted, if_pos (not_lt.mp haccepted)]

/-- The loop gives up at the first entry that the check rejects. -/
theorem loopAt_rejected {fuel j r : Nat} (hlength : length < 4294967296) (hjr : j ≤ r)
    (hfuel : r - j < fuel)
    (hreached : ∀ k, j ≤ k → k < r → turnBlock offset (k + 1) ≤ totalBlocks)
    (hbefore : ∀ k, j ≤ k → k < r → Accepted img inode (turnBlock offset k))
    (hrejected : ¬ Accepted img inode (turnBlock offset r)) :
    loopAt img inode totalBlocks offset length fuel j =
      some (-1, turnCopies img inode offset length r) := by
  induction fuel generalizing j with
  | zero => omega
  | succ fuel ih =>
    rw [loopAt_succ hlength]
    rcases Nat.eq_or_lt_of_le hjr with rfl | hlt
    · rw [if_neg hrejected]
    · rw [if_pos (hbefore j (Nat.le_refl j) hlt), if_pos (hreached j (Nat.le_refl j) hlt)]
      refine ih hlt (by omega) ?_ ?_
      · intro k hk
        exact hreached k (by omega)
      · intro k hk
        exact hbefore k (by omega)

/-- The loop gets through its turns when all their entries pass the check. -/
theorem loopAt_completed {fuel j r : Nat} (hlength : length < 4294967296) (hjr : j ≤ r)
    (hfuel : r - j < fuel)
    (hreached : ∀ k, j ≤ k → k < r → turnBlock offset (k + 1) ≤ totalBlocks)
    (hlast : ¬ turnBlock offset (r + 1) ≤ totalBlocks)
    (hall : ∀ k, j ≤ k → k ≤ r → Accepted img inode (turnBlock offset k)) :
    loopAt img inode totalBlocks offset length fuel j =
      some ((u16 (copiedBefore offset length (r + 1)) : Int),
        turnCopies img inode offset length (r + 1)) := by
  induction fuel generalizing j with
  | zero => omega
  | succ fuel ih =>
    rw [loopAt_succ hlength, if_pos (hall j (Nat.le_refl j) hjr)]
    rcases Nat.eq_or_lt_of_le hjr with rfl | hlt
    · rw [if_neg hlast]
    · rw [if_pos (hreached j (Nat.le_refl j) hlt)]
      refine ih hlt (by omega) ?_ ?_
      · intro k hk
        exact hreached k (by omega)
      · intro k hk
        exact hall k (by omega)

/-- The loop does not end when it always goes on and no entry is rejected. -/
theorem loopAt_endless (hlength : length < 4294967296)
    (hreached : ∀ k, turnBlock offset (k + 1) ≤ totalBlocks)
    (hall : ∀ k, Accepted img inode (turnBlock offset k)) (fuel j : Nat) :
    loopAt img inode totalBlocks offset length fuel j = none := by
  induction fuel generalizing j with
  | zero => rfl
  | succ fuel ih =>
    rw [loopAt_succ hlength, if_pos (hall j), if_pos (hreached j)]
    exact ih (j + 1)

end Turn

/-! ## The three ways of a call -/

/-- The loop goes on to turn `r` when no entry stops it. -/
def Reached (img : Image) (inode offset length r : Nat) : Prop :=
  ∀ j < r, turnBlock offset (j + 1) ≤ endBlock img inode offset length

instance (img : Image) (inode offset length r : Nat) :
    Decidable (Reached img inode offset length r) :=
  inferInstanceAs (Decidable (∀ j < r, _))

section Call

variable {img : Image} {inode offset length : Nat}

theorem Reached.mono {r j : Nat} (h : Reached img inode offset length r) (hj : j ≤ r) :
    Reached img inode offset length j :=
  fun k hk => h k (Nat.lt_of_lt_of_le hk hj)

theorem turnBlock_period (offset j : Nat) : turnBlock offset (j + 65536) = turnBlock offset j := by
  unfold turnBlock u16
  omega

theorem clampedLength_lt (hlength : length < 4294967296) :
    clampedLength img inode offset length < 4294967296 := by
  have hword : inodeLength img inode < 4294967296 := word_lt _ _
  unfold clampedLength
  split <;> omega

theorem readCopies_eq_loopAt (hinode : inode < numInode img)
    (hoffset : offset < inodeLength img inode) :
    readCopies img inode offset length =
      loopAt img inode (endBlock img inode offset length) offset
        (clampedLength img inode offset length) readFuel 0 := by
  have hword : inodeLength img inode < 4294967296 := word_lt _ _
  rw [readCopies, if_neg (by omega), if_neg (by omega), loopAt, copiedBefore_zero,
    u32_natCast (by omega)]
  rfl

/-- A call that comes to an entry that the check rejects returns -1. -/
theorem readCopies_rejected {r : Nat} (hinode : inode < numInode img)
    (hoffset : offset < inodeLength img inode) (hlength : length < 4294967296)
    (hreached : Reached img inode offset length r)
    (hbefore : ∀ j < r, Accepted img inode (turnBlock offset j))
    (hrejected : ¬ Accepted img inode (turnBlock offset r)) :
    readCopies img inode offset length =
      some (-1, turnCopies img inode offset (clampedLength img inode offset length) r) := by
  -- after one round of the counter an accepted entry would come again
  have hr : r < 65536 := by
    by_contra hle
    obtain ⟨q, rfl⟩ : ∃ q, r = q + 65536 := ⟨r - 65536, by omega⟩
    rw [turnBlock_period] at hrejected
    exact hrejected (hbefore q (by omega))
  rw [readCopies_eq_loopAt hinode hoffset]
  exact loopAt_rejected (clampedLength_lt hlength) (Nat.zero_le r) (by unfold readFuel; omega)
    (fun k _ hk => hreached k hk) (fun k _ hk => hbefore k hk) hrejected

/-- A call whose entries all pass the check returns its 16-bit count. -/
theorem readCopies_completed {r : Nat} (hinode : inode < numInode img)
    (hoffset : offset < inodeLength img inode) (hlength : length < 4294967296)
    (hreached : Reached img inode offset length r)
    (hlast : ¬ turnBlock offset (r + 1) ≤ endBlock img inode offset length)
    (hall : ∀ j ≤ r, Accepted img inode (turnBlock offset j)) :
    readCopies img inode offset length =
      some ((u16 (copiedBefore offset (clampedLength img inode offset length) (r + 1)) : Int),
        turnCopies img inode offset (clampedLength img inode offset length) (r + 1)) := by
  have hr : r < 65536 := by
    by_contra hle
    obtain ⟨q, rfl⟩ : ∃ q, r = q + 65536 := ⟨r - 65536, by omega⟩
    have hround := hreached q (by omega)
    rw [← turnBlock_period, Nat.add_right_comm] at hround
    exact hlast hround
  rw [readCopies_eq_loopAt hinode hoffset]
  exact loopAt_completed (clampedLength_lt hlength) (Nat.zero_le r) (by unfold readFuel; omega)
    (fun k _ hk => hreached k hk) hlast (fun k _ hk => hall k hk)

/-- A call whose counter never passes its end, and whose entries all pass the check, does not
come back. -/
theorem readCopies_endless (hinode : inode < numInode img)
    (hoffset : offset < inodeLength img inode) (hlength : length < 4294967296)
    (hreached : ∀ r, Reached img inode offset length r)
    (hall : ∀ j, Accepted img inode (turnBlock offset j)) :
    readCopies img inode offset length = none := by
  rw [readCopies_eq_loopAt hinode hoffset]
  exact loopAt_endless (clampedLength_lt hlength) (fun k => hreached (k + 1) k (Nat.lt_succ_self k))
    hall readFuel 0

/-- A call comes to a rejected entry, gets through, or does not come back. -/
theorem turns_cases (img : Image) (inode offset length : Nat) :
    (∃ r, Reached img inode offset length r ∧
      (∀ j < r, Accepted img inode (turnBlock offset j)) ∧
        ¬ Accepted img inode (turnBlock offset r)) ∨
    (∃ r, Reached img inode offset length r ∧
      ¬ turnBlock offset (r + 1) ≤ endBlock img inode offset length ∧
        ∀ j ≤ r, Accepted img inode (turnBlock offset j)) ∨
    ((∀ r, Reached img inode offset length r) ∧ ∀ j, Accepted img inode (turnBlock offset j)) := by
  classical
  by_cases hstop : ∃ r, ¬ Accepted img inode (turnBlock offset r) ∨
      ¬ turnBlock offset (r + 1) ≤ endBlock img inode offset length
  · have hbefore : ∀ j < Nat.find hstop, Accepted img inode (turnBlock offset j) ∧
        turnBlock offset (j + 1) ≤ endBlock img inode offset length := by
      intro j hj
      have hnot := Nat.find_min hstop hj
      rw [not_or, not_not, not_not] at hnot
      exact hnot
    by_cases haccepted : Accepted img inode (turnBlock offset (Nat.find hstop))
    · have hlast := (Nat.find_spec hstop).resolve_left (not_not.mpr haccepted)
      refine Or.inr (Or.inl ⟨Nat.find hstop, fun j hj => (hbefore j hj).2, hlast, ?_⟩)
      intro j hj
      rcases Nat.eq_or_lt_of_le hj with rfl | hlt
      · exact haccepted
      · exact (hbefore j hlt).1
    · exact Or.inl ⟨Nat.find hstop, fun j hj => (hbefore j hj).2, fun j hj => (hbefore j hj).1,
        haccepted⟩
  · simp only [not_exists, not_or, not_not] at hstop
    exact Or.inr (Or.inr ⟨fun r j _ => (hstop j).2, fun j => (hstop j).1⟩)

/-- What a call comes back with. -/
theorem readCopies_cases (img : Image) (inode offset : Nat) (hlength : length < 4294967296) :
    (numInode img ≤ inode ∧ readCopies img inode offset length = some (-1, [])) ∨
    (inode < numInode img ∧ inodeLength img inode ≤ offset ∧
      readCopies img inode offset length = some (0, [])) ∨
    (inode < numInode img ∧ offset < inodeLength img inode ∧
      ((∃ r copies, Reached img inode offset length r ∧ ¬ Accepted img inode (turnBlock offset r) ∧
          readCopies img inode offset length = some (-1, copies)) ∨
        (∃ (count : Nat) (copies : List Copy),
          readCopies img inode offset length = some ((count : Int), copies)) ∨
        (∀ r, Reached img inode offset length r) ∧
          (∀ j, Accepted img inode (turnBlock offset j)) ∧
          readCopies img inode offset length = none)) := by
  rcases Nat.lt_or_ge inode (numInode img) with hinode | hinode
  · rcases Nat.lt_or_ge offset (inodeLength img inode) with hoffset | hoffset
    · refine Or.inr (Or.inr ⟨hinode, hoffset, ?_⟩)
      rcases turns_cases img inode offset length with ⟨r, hreached, hbefore, hrejected⟩ |
          ⟨r, hreached, hlast, hall⟩ | ⟨hreached, hall⟩
      · exact Or.inl ⟨r, _, hreached, hrejected,
          readCopies_rejected hinode hoffset hlength hreached hbefore hrejected⟩
      · exact Or.inr (Or.inl ⟨_, _,
          readCopies_completed hinode hoffset hlength hreached hlast hall⟩)
      · exact Or.inr (Or.inr ⟨hreached, hall,
          readCopies_endless hinode hoffset hlength hreached hall⟩)
    · refine Or.inr (Or.inl ⟨hinode, hoffset, ?_⟩)
      rw [readCopies, if_neg (by omega), if_pos hoffset]
  · refine Or.inl ⟨hinode, ?_⟩
    rw [readCopies, if_pos hinode]

/-- `read_data` returns -1 exactly when the inode is not there or the loop comes to an entry that
the check rejects. -/
def ReadFails (img : Image) (inode offset length : Nat) : Prop :=
  numInode img ≤ inode ∨ offset < inodeLength img inode ∧
    ∃ r, Reached img inode offset length r ∧ ¬ Accepted img inode (turnBlock offset r)

theorem exists_first_rejected {r : Nat} (hreached : Reached img inode offset length r)
    (hrejected : ¬ Accepted img inode (turnBlock offset r)) :
    ∃ q ≤ r, Reached img inode offset length q ∧
      (∀ j < q, Accepted img inode (turnBlock offset j)) ∧
        ¬ Accepted img inode (turnBlock offset q) := by
  classical
  have hex : ∃ q, ¬ Accepted img inode (turnBlock offset q) := ⟨r, hrejected⟩
  have hle := Nat.find_min' hex hrejected
  exact ⟨Nat.find hex, hle, hreached.mono hle, fun j hj => not_not.mp (Nat.find_min hex hj),
    Nat.find_spec hex⟩

theorem readCopies_eq_neg_iff (hlength : length < 4294967296) :
    (∃ copies, readCopies img inode offset length = some (-1, copies)) ↔
      ReadFails img inode offset length := by
  rcases readCopies_cases img inode offset hlength with ⟨hinode, hcall⟩ |
      ⟨hinode, hoffset, hcall⟩ | ⟨hinode, hoffset, hturns⟩
  · exact iff_of_true ⟨[], hcall⟩ (Or.inl hinode)
  · refine iff_of_false ?_ ?_
    · rw [hcall]
      rintro ⟨copies, heq⟩
      cases heq
    · rintro (hnot | ⟨hnot, -⟩) <;> omega
  · constructor
    · rintro ⟨copies, hneg⟩
      rcases hturns with ⟨r, -, hreached, hrejected, -⟩ | ⟨count, copies', hcall⟩ | ⟨-, -, hcall⟩
      · exact Or.inr ⟨hoffset, r, hreached, hrejected⟩
      · rw [hcall] at hneg
        simp only [Option.some.injEq, Prod.mk.injEq] at hneg
        omega
      · rw [hcall] at hneg
        cases hneg
    · rintro (hnot | ⟨-, r, hreached, hrejected⟩)
      · omega
      · obtain ⟨q, -, hq, hbefore, hq'⟩ := exists_first_rejected hreached hrejected
        exact ⟨_, readCopies_rejected hinode hoffset hlength hq hbefore hq'⟩

theorem readData_eq_neg_iff (hlength : length < 4294967296) :
    (∃ bytes, readData img inode offset length = some (-1, bytes)) ↔
      ReadFails img inode offset length := by
  rw [← readCopies_eq_neg_iff hlength, readData_eq_readCopies]
  constructor
  · rintro ⟨bytes, hcall⟩
    obtain ⟨⟨r, copies⟩, hcopies, heq⟩ := Option.map_eq_some_iff.mp hcall
    cases heq
    exact ⟨copies, hcopies⟩
  · rintro ⟨copies, hcopies⟩
    rw [hcopies]
    exact ⟨_, rfl⟩

/-- The inode is not there, or too short for the counter to go round, or one of the entries that
the counter can come to is rejected. -/
def ReadEnds (img : Image) (inode : Nat) : Prop :=
  numInode img ≤ inode ∨ inodeLength img inode < 65535 * fsBlock ∨
    ∃ k < 65536, ¬ Accepted img inode k

/-- The end of a request is in the file, whether it was clamped or not. -/
theorem endBlock_mul_le (hoffset : offset < inodeLength img inode) :
    endBlock img inode offset length * fsBlock ≤ inodeLength img inode := by
  have hword : inodeLength img inode < 4294967296 := word_lt _ _
  have hle : u32 ((offset : Int) + (clampedLength img inode offset length : Int)) ≤
      inodeLength img inode := by
    unfold clampedLength
    split
    · unfold u32
      omega
    · omega
  have hmod : endBlock img inode offset length ≤
      u32 ((offset : Int) + (clampedLength img inode offset length : Int)) / fsBlock :=
    Nat.mod_le _ _
  calc endBlock img inode offset length * fsBlock
      ≤ u32 ((offset : Int) + (clampedLength img inode offset length : Int)) / fsBlock * fsBlock :=
        Nat.mul_le_mul_right _ hmod
    _ ≤ u32 ((offset : Int) + (clampedLength img inode offset length : Int)) :=
        Nat.div_mul_le_self _ _
    _ ≤ inodeLength img inode := hle

/-- The counter comes to every one of its values. -/
theorem exists_turnBlock (offset : Nat) {k : Nat} (hk : k < 65536) :
    ∃ j, turnBlock offset (j + 1) = k := by
  refine ⟨k + 65535 * (offset / 4096 + 1), ?_⟩
  unfold turnBlock u16 fsBlock
  omega

/-- A request of 65535 blocks goes round for ever when no entry stops it. -/
theorem readData_endless (hinode : inode < numInode img)
    (hlong : 65535 * fsBlock ≤ inodeLength img inode) (hall : ∀ k < 65536, Accepted img inode k) :
    readData img inode 0 (65535 * fsBlock) = none := by
  have hturn : ∀ j, turnBlock 0 j < 65536 := fun j => Nat.mod_lt _ (by decide)
  have hclamp : clampedLength img inode 0 (65535 * fsBlock) = 65535 * fsBlock := by
    unfold clampedLength u32 fsBlock at *
    split <;> omega
  have hend : endBlock img inode 0 (65535 * fsBlock) = 65535 := by
    rw [endBlock, hclamp]
    rfl
  have hreached : ∀ r, Reached img inode 0 (65535 * fsBlock) r := by
    intro r j _
    have hlt := hturn (j + 1)
    omega
  have hoffset : 0 < inodeLength img inode := by
    unfold fsBlock at hlong
    omega
  rw [readData_eq_readCopies, readCopies_endless hinode hoffset (by decide) hreached
    fun j => hall _ (hturn j)]
  rfl

/-- `read_data` comes back from every request on an inode exactly when it is one of these. -/
theorem readEnds_iff :
    (∀ offset < 4294967296, ∀ length < 4294967296, readData img inode offset length ≠ none) ↔
      ReadEnds img inode := by
  constructor
  · intro hends
    by_contra hnot
    simp only [ReadEnds, not_or, not_exists, not_and, not_not, not_le, not_lt] at hnot
    obtain ⟨hinode, hlong, hall⟩ := hnot
    exact hends 0 (by decide) (65535 * fsBlock) (by decide) (readData_endless hinode hlong hall)
  · intro hends offset _ length hlength hnone
    rw [readData_eq_readCopies, Option.map_eq_none_iff] at hnone
    rcases readCopies_cases img inode offset hlength with ⟨-, hcall⟩ | ⟨-, -, hcall⟩ |
        ⟨hinode, hoffset, ⟨r, copies, -, -, hcall⟩ | ⟨count, copies, hcall⟩ | ⟨hreached, hall, -⟩⟩
    · rw [hcall] at hnone
      cases hnone
    · rw [hcall] at hnone
      cases hnone
    · rw [hcall] at hnone
      cases hnone
    · rw [hcall] at hnone
      cases hnone
    · rcases hends with hnot | hshort | ⟨k, hk, hrejected⟩
      · omega
      · obtain ⟨j, hj⟩ := exists_turnBlock offset (show 65535 < 65536 by decide)
        have hle := hreached (j + 1) j (Nat.lt_succ_self j)
        have hmul := @endBlock_mul_le img inode offset length hoffset
        unfold fsBlock at hmul hshort
        omega
      · obtain ⟨j, hj⟩ := exists_turnBlock offset hk
        exact hrejected (hj ▸ hall (j + 1))

end Call

/-! ## The bytes of the turns -/

/-- Byte `j` of the file as `read_data` serves it: block counter and block number are cut to
16 bits. -/
def servedByte (img : Image) (inode j : Nat) : UInt8 :=
  img (dataAddr img (u16 (dblock img inode (u16 (j / fsBlock)))) + j % fsBlock)

def servedBytes (img : Image) (inode start n : Nat) : List UInt8 :=
  (List.range n).map fun j => servedByte img inode (start + j)

@[simp] theorem length_servedBytes (img : Image) (inode start n : Nat) :
    (servedBytes img inode start n).length = n := by
  simp [servedBytes]

theorem servedBytes_add (img : Image) (inode start m n : Nat) :
    servedBytes img inode start (m + n) =
      servedBytes img inode start m ++ servedBytes img inode (start + m) n :=
  map_range_add (servedByte img inode) start m n

theorem copyBytes_turnCopy (img : Image) (inode offset length j : Nat) :
    copyBytes img (turnCopy img inode offset length j) =
      servedBytes img inode (offset + copiedBefore offset length j)
        (copiedBefore offset length (j + 1) - copiedBefore offset length j) := by
  unfold copyBytes turnCopy memBytes servedBytes
  apply List.map_congr_left
  intro i hi
  have hsize : i < copiedBefore offset length (j + 1) - copiedBefore offset length j :=
    List.mem_range.mp hi
  have hdiv : (offset + copiedBefore offset length j + i) / fsBlock = offset / fsBlock + j := by
    unfold copiedBefore fsBlock at *
    omega
  have hmod : (offset + copiedBefore offset length j + i) % fsBlock =
      (offset + copiedBefore offset length j) % fsBlock + i := by
    unfold copiedBefore fsBlock at *
    omega
  rw [servedByte, hdiv, hmod, turnBlock, Nat.add_assoc]

/-- The first `r` turns serve the bytes of the request up to where they have come. -/
theorem flatMap_turnCopies (img : Image) (inode offset length r : Nat) :
    (turnCopies img inode offset length r).flatMap (copyBytes img) =
      servedBytes img inode offset (copiedBefore offset length r) := by
  induction r with
  | zero =>
    rw [copiedBefore_zero]
    rfl
  | succ r ih =>
    have hsucc := copiedBefore_succ offset length r
    rw [turnCopies_succ, List.flatMap_append, ih, List.flatMap_singleton, copyBytes_turnCopy,
      ← servedBytes_add]
    congr 1
    omega

/-- Where the cut to 16 bits changes no entry, the bytes served are those of the file. -/
theorem servedBytes_eq_blockBytes {img : Image} {inode start n : Nat}
    (h : ∀ j < n, servedByte img inode (start + j) = fileByte img inode (start + j)) :
    servedBytes img inode start n = blockBytes img inode start n :=
  List.map_congr_left fun j hj => h j (List.mem_range.mp hj)

/-! ## Requests whose counter does not wrap -/

section Range

variable {img : Image} {inode offset length n r : Nat}

theorem clampedLength_of_lt (hrange : offset + length < 4294967296)
    (hn : n = min length (inodeLength img inode - offset)) (hoffset : offset < inodeLength img inode) :
    clampedLength img inode offset length = n := by
  rw [clampedLength, u32_add hrange]
  split <;> omega

theorem endBlock_of_lt (hrange : offset + length < 4294967296)
    (hn : n = min length (inodeLength img inode - offset)) (hoffset : offset < inodeLength img inode)
    (hlast : (offset + n) / fsBlock < 65536) :
    endBlock img inode offset length = (offset + n) / fsBlock := by
  rw [endBlock, clampedLength_of_lt hrange hn hoffset, u32_add (by omega), u16_of_lt hlast]

/-- Up to the last block of the request the counter does not wrap. -/
theorem turnBlock_of_le (hend : endBlock img inode offset length = offset / fsBlock + r) {j : Nat}
    (hj : j ≤ r) : turnBlock offset j = offset / fsBlock + j := by
  have hlt : endBlock img inode offset length < 65536 := Nat.mod_lt _ (by decide)
  exact u16_of_lt (by omega)

theorem reached_of_end (hend : endBlock img inode offset length = offset / fsBlock + r) :
    Reached img inode offset length r := by
  intro j hj
  rw [hend, turnBlock_of_le hend hj]
  omega

/-- A request whose last entry is the first to be rejected. -/
theorem readData_of_rejected (hinode : inode < numInode img)
    (hoffset : offset < inodeLength img inode) (hlength : length < 4294967296)
    (hend : endBlock img inode offset length = offset / fsBlock + r)
    (hbefore : ∀ k, offset / fsBlock ≤ k → k < offset / fsBlock + r → Accepted img inode k)
    (hrejected : ¬ Accepted img inode (offset / fsBlock + r)) :
    readData img inode offset length =
      some (-1, servedBytes img inode offset
        (copiedBefore offset (clampedLength img inode offset length) r)) := by
  have hbefore' : ∀ j < r, Accepted img inode (turnBlock offset j) := by
    intro j hj
    rw [turnBlock_of_le hend (Nat.le_of_lt hj)]
    exact hbefore _ (by omega) (by omega)
  have hrejected' : ¬ Accepted img inode (turnBlock offset r) := by
    rw [turnBlock_of_le hend (Nat.le_refl r)]
    exact hrejected
  rw [readData_eq_readCopies, readCopies_rejected hinode hoffset hlength (reached_of_end hend)
    hbefore' hrejected', Option.map_some, flatMap_turnCopies]

/-- A request whose entries all pass the check. -/
theorem readData_of_accepted (hinode : inode < numInode img)
    (hoffset : offset < inodeLength img inode) (hlength : length < 4294967296)
    (hend : endBlock img inode offset length = offset / fsBlock + r)
    (hround : offset / fsBlock + r < 65535)
    (hall : ∀ k, offset / fsBlock ≤ k → k ≤ offset / fsBlock + r → Accepted img inode k) :
    readData img inode offset length =
      some ((u16 (copiedBefore offset (clampedLength img inode offset length) (r + 1)) : Int),
        servedBytes img inode offset
          (copiedBefore offset (clampedLength img inode offset length) (r + 1))) := by
  have hstop : ¬ turnBlock offset (r + 1) ≤ endBlock img inode offset length := by
    rw [hend, turnBlock, u16_of_lt (by omega)]
    omega
  have hall' : ∀ j ≤ r, Accepted img inode (turnBlock offset j) := by
    intro j hj
    rw [turnBlock_of_le hend hj]
    exact hall _ (by omega) (by omega)
  rw [readData_eq_readCopies, readCopies_completed hinode hoffset hlength (reached_of_end hend)
    hstop hall', Option.map_some, flatMap_turnCopies]

/-- The turns up to the last block of the request copy all of it. -/
theorem copiedBefore_end (hr : offset / fsBlock + r = (offset + n) / fsBlock) :
    copiedBefore offset n (r + 1) = n := by
  unfold copiedBefore fsBlock at *
  omega

end Range

/-- A request that starts inside the file returns what is left of the file, cut to the
request, as far as the 16-bit counter can say. -/
theorem readData_inside {img : Image} {inode offset length n : Nat}
    (hinode : inode < numInode img) (hdata : numData img ≤ 65536)
    (hoffset : offset < inodeLength img inode) (hrange : offset + length < 4294967296)
    (hn : n = min length (inodeLength img inode - offset))
    (hvalid : BlocksValid img inode (offset / fsBlock) ((offset + n) / fsBlock))
    (hlast : (offset + n) / fsBlock < 65535) :
    readData img inode offset length =
      some ((u16 n : Int), blockBytes img inode offset n) := by
  have hfirst : offset / fsBlock ≤ (offset + n) / fsBlock := Nat.div_le_div_right (by omega)
  obtain ⟨r, hr⟩ := Nat.exists_eq_add_of_le hfirst
  have hend := (endBlock_of_lt hrange hn hoffset (by omega)).trans hr
  have hnum : i32 (numData img) = (numData img : Int) := i32_of_range (by omega) (by omega)
  have hall : ∀ k, offset / fsBlock ≤ k → k ≤ offset / fsBlock + r → Accepted img inode k := by
    intro k hk hk'
    have hlt := hvalid k hk (by omega)
    rw [Accepted, hnum, u16_of_lt (by omega)]
    omega
  have hserved : ∀ j < n, servedByte img inode (offset + j) = fileByte img inode (offset + j) := by
    intro j hj
    have hlow : offset / fsBlock ≤ (offset + j) / fsBlock := Nat.div_le_div_right (by omega)
    have hhigh : (offset + j) / fsBlock ≤ (offset + n) / fsBlock := Nat.div_le_div_right (by omega)
    have hlt := hvalid _ hlow hhigh
    rw [servedByte, fileByte, u16_of_lt (show (offset + j) / fsBlock < 65536 by omega),
      u16_of_lt (by omega)]
  rw [readData_of_accepted hinode hoffset (by omega) hend (by omega) hall,
    clampedLength_of_lt hrange hn hoffset, copiedBefore_end hr.symm, servedBytes_eq_blockBytes hserved]

/-- On a readable inode a request delivers the next bytes of the file, and counts them. -/
theorem readData_chunk {img : Image} {inode offset length : Nat} (h : InodeReadable img inode)
    (hlength : length < 65536) :
    readData img inode offset length =
      some (((chunk (fileBytes img inode) offset length).length : Int),
        chunk (fileBytes img inode) offset length) := by
  have hblk : fsBlock = 4096 := rfl
  have hmax := h.length_le
  rcases Nat.lt_or_ge offset (inodeLength img inode) with hin | hend
  · obtain ⟨n, hn⟩ : ∃ n, n = min length (inodeLength img inode - offset) := ⟨_, rfl⟩
    have hlast : (offset + n) / fsBlock < 1023 := by
      rw [hblk] at hmax ⊢
      omega
    rw [chunk_eq_blockBytes hn (by omega), length_blockBytes, readData_inside h.inode_lt h.data_le hin
      (by omega) hn (fun k _ hk => h.blocks k (by omega)) (by omega), u16_of_lt (by omega)]
  · rw [readData_past_end h.inode_lt hend,
      chunk_past_end (by rw [length_fileBytes]; exact hend)]
    rfl

end LinuxBasedOS.Filesystem
