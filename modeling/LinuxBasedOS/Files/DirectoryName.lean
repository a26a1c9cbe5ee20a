import LinuxBasedOS.Files.Listing

/-!
# The name that a directory read returns

A directory read passes the name through two copies: `read_dentry_by_index` copies 31 bytes of the
field into a local entry that is not set before, and `read_fs_dir` copies from there to the caller.
The last byte of the field is never copied. `ece391Read` is the same call in the Linux emulation
of the system calls, which has no such limit.

`directory_read_iff` says when the two agree: the byte that the stack happens to hold behind the
31 copied ones must not be seen, or must be the right one.
-/

namespace LinuxBasedOS.Files

open Word Lib Filesystem

/-! ## The emulation -/

/-- The loop of `ece391_read` over the bytes of `d_name`, with those stored so far; it may return
from inside. -/
def ece391ReadCopy (nbytes : Int) : List UInt8 → List UInt8 → Option Int × List UInt8
  | [], stored => (none, stored)
  | c :: name, stored =>
    let stored' := stored ++ [c]
    if (stored'.length : Int) = nbytes then (some nbytes, stored')
    else if stored'.length = 32 then (some 32, stored')
    else ece391ReadCopy nbytes name stored'

/-- The loop of `ece391_read` that fills up with NUL; it has at most 32 turns. -/
def ece391ReadFill (nbytes : Int) : Nat → List UInt8 → List UInt8
  | 0, stored => stored
  | n + 1, stored =>
    if (stored.length : Int) < nbytes ∧ stored.length < 32 then
      ece391ReadFill nbytes n (stored ++ [0])
    else stored

/-- `ece391_read` on an open directory, at an entry of the given name. -/
def ece391Read (dName : List UInt8) (nbytes : Int) : Int × List UInt8 :=
  match ece391ReadCopy nbytes dName [] with
  | (some r, stored) => (r, stored)
  | (none, stored) =>
    let filled := ece391ReadFill nbytes 32 stored
    (filled.length, filled)

theorem ece391ReadCopy_eq {n : Nat} (hn : n ≤ 32) (name stored : List UInt8)
    (hstored : stored.length < n) :
    ece391ReadCopy n name stored =
      if n ≤ stored.length + name.length then
        (some (n : Int), stored ++ name.take (n - stored.length))
      else (none, stored ++ name) := by
  induction name generalizing stored with
  | nil =>
    rw [ece391ReadCopy, if_neg (by simp only [List.length_nil]; omega), List.append_nil]
  | cons c name ih =>
    have hlen : (stored ++ [c]).length = stored.length + 1 := by simp
    simp only [ece391ReadCopy, hlen, List.length_cons]
    by_cases hlast : stored.length + 1 = n
    · rw [if_pos (by omega), if_pos (by omega), ← hlast, Nat.add_sub_cancel_left]
      rfl
    · obtain ⟨m, hm⟩ : ∃ m, n - stored.length = m + 1 := ⟨n - stored.length - 1, by omega⟩
      have hm' : n - (stored.length + 1) = m := by omega
      rw [if_neg (by omega), if_neg (by omega), ih (stored ++ [c]) (by omega), hlen, hm, hm',
        List.take_succ_cons, List.append_assoc, List.append_assoc, Nat.add_assoc,
        Nat.add_comm 1 name.length]
      rfl

theorem ece391ReadFill_eq {n fuel : Nat} (hn : n ≤ 32) (stored : List UInt8)
    (hstored : stored.length ≤ n) (hfuel : n - stored.length ≤ fuel) :
    ece391ReadFill n fuel stored = stored ++ List.replicate (n - stored.length) 0 := by
  induction fuel generalizing stored with
  | zero =>
    rw [show n - stored.length = 0 by omega, List.replicate_zero, List.append_nil]
    rfl
  | succ fuel ih =>
    have hlen : (stored ++ [(0 : UInt8)]).length = stored.length + 1 := by simp
    rw [ece391ReadFill]
    by_cases hfull : stored.length = n
    · rw [if_neg (by omega), hfull, Nat.sub_self, List.replicate_zero, List.append_nil]
    · obtain ⟨m, hm⟩ : ∃ m, n - stored.length = m + 1 := ⟨n - stored.length - 1, by omega⟩
      rw [if_pos (by omega), ih (stored ++ [0]) (by omega) (by omega), hlen,
        show n - (stored.length + 1) = m by omega, hm, List.replicate_succ, List.append_assoc]
      rfl

/-- The emulation returns the first bytes of the name, filled up with NUL. -/
theorem ece391Read_eq {name : List UInt8} {n : Nat} (hn0 : 0 < n) (hn : n ≤ 32) :
    ece391Read name n = ((n : Int), (List.range n).map (cstr name)) := by
  have hbytes : (List.range n).map (cstr name) =
      name.take n ++ List.replicate (n - name.length) 0 := by
    refine List.ext_getElem (by simp; omega) ?_
    intro i hi hi'
    rw [List.getElem_map, List.getElem_range]
    rcases Nat.lt_or_ge i name.length with hlt | hge
    · have hin : i < n := by simpa using hi
      rw [cstr_of_lt hlt, List.getElem_append_left (by simp; omega), List.getElem_take]
    · rw [cstr_of_le hge, List.getElem_append_right (by simp; omega), List.getElem_replicate]
  rw [ece391Read, ece391ReadCopy_eq hn name [] hn0]
  by_cases hlong : n ≤ name.length
  · rw [if_pos (by simpa using hlong)]
    dsimp only
    rw [hbytes, show n - name.length = 0 by omega]
    simp
  · rw [if_neg (by simpa using hlong)]
    dsimp only
    rw [List.nil_append, ece391ReadFill_eq hn name (by omega) (by omega), hbytes,
      List.take_of_length_le (by omega), List.length_append, List.length_replicate]
    congr 2
    omega

/-! ## The directory read -/

/-- The read returns the request and stores the first bytes of the name, filled up with NUL, as
the emulation does. -/
structure DirectoryReadExact (img : Image) (i : Nat) (nbytes : Nat) (reply : Reply) : Prop where
  retval : reply.retval = nbytes
  bytes : reply.bytes = (paddedName img i).take nbytes
  emulated : (reply.retval, reply.bytes) = ece391Read (dentryName img i) nbytes

section Directory

variable {img : Image} {i : Nat}

/-- **Directory reads.** A read of 1 to 32 bytes at an entry of the directory returns its name
byte for byte exactly when it asks for less than 32 bytes, or the name has at most 30, or the
unset byte of the local entry is the last byte of the field. -/
theorem directory_read_iff {slot : FileDescriptor} {uninit : Dentry} {n : Nat}
    (hslot : u32 slot.filePosition = i) (hi : i < numDir img) (hn0 : 1 ≤ n) (hn : n ≤ 32) :
    DirectoryReadExact img i n (readFsDir img uninit slot n) ↔
      n ≤ 31 ∨ (dentryName img i).length ≤ 30 ∨
        uninit.filename 31 = cstr (dentryName img i) 31 := by
  have htake : (paddedName img i).take n = (List.range n).map (cstr (dentryName img i)) := by
    rw [paddedName, ← List.map_take, List.take_range]
    congr 2
    unfold filenameLimit
    omega
  have hexact : DirectoryReadExact img i n (readFsDir img uninit slot n) ↔
      ∀ k < n, strncpy (fun _ => 0) (dentryBytes (readDentryByIndex img i uninit).2) n k =
        cstr (dentryName img i) k := by
    rw [readFsDir_of_lt hi hslot uninit hn]
    constructor
    · intro h k hk
      have hbytes := h.bytes
      rw [htake] at hbytes
      exact List.map_inj_left.mp hbytes k (List.mem_range.mpr hk)
    · intro h
      have hbytes := List.map_congr_left fun k hk => h k (List.mem_range.mp hk)
      refine ⟨rfl, ?_, ?_⟩
      · rw [htake]
        exact hbytes
      · rw [ece391Read_eq hn0 hn]
        exact congrArg (Prod.mk _) hbytes
  rw [hexact]
  constructor
  · intro h
    by_contra hnot
    have hlast := h 31 (by omega)
    rw [copiedName hi uninit hn (by omega), if_pos ⟨rfl, by omega⟩] at hlast
    exact hnot (Or.inr (Or.inr hlast))
  · intro hcond k hk
    rw [copiedName hi uninit hn hk]
    split_ifs with hlast
    · rw [hlast.1]
      exact (hcond.resolve_left (by omega)).resolve_left (by omega)
    · rfl

end Directory

/-- The directory of one entry, with a name of 31 times the letter `a`. -/
def longNameImage : Image := fun addr =>
  if addr = 0 then 1 else if 64 ≤ addr ∧ addr < 95 then 97 else 0

/-- A local entry on a stack that holds the byte 65 everywhere. -/
def staleEntry : Dentry where
  filename := fun _ => 65
  filetype := 65
  idxInode := 65

theorem directory_read_short :
    DirectoryReadExact longNameImage 0 31
      (readFsDir longNameImage staleEntry (openedDescriptor staleEntry .filesystemDir) (31 : Nat)) :=
  (@directory_read_iff longNameImage 0 (openedDescriptor staleEntry .filesystemDir) staleEntry 31 rfl
    (by decide) (by decide) (by decide)).mpr (Or.inl (by decide))

/-- A read of 32 bytes ends with the byte of the stack instead of NUL. -/
theorem directory_read_stale :
    0 < numDir longNameImage ∧
      (readFsDir longNameImage staleEntry (openedDescriptor staleEntry .filesystemDir)
        (32 : Nat)).bytes = List.replicate 31 97 ++ [65] ∧
      ece391Read (dentryName longNameImage 0) (32 : Nat) = (32, List.replicate 31 97 ++ [0]) ∧
      ¬ DirectoryReadExact longNameImage 0 32
        (readFsDir longNameImage staleEntry (openedDescriptor staleEntry .filesystemDir)
          (32 : Nat)) := by
  have hbytes : (readFsDir longNameImage staleEntry (openedDescriptor staleEntry .filesystemDir)
      (32 : Nat)).bytes = List.replicate 31 97 ++ [65] := by decide +kernel
  have hemulated : ece391Read (dentryName longNameImage 0) (32 : Nat) =
      (32, List.replicate 31 97 ++ [0]) := by decide +kernel
  refine ⟨by decide, hbytes, hemulated, ?_⟩
  intro h
  have hsame := congrArg Prod.snd h.emulated
  rw [hemulated] at hsame
  exact absurd (hbytes.symm.trans hsame) (by decide)

end LinuxBasedOS.Files
