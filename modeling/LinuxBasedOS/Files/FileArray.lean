import LinuxBasedOS.Filesystem.Image

/-!
# The file descriptor array

`fileArray` is the array of eight descriptors of a PCB. `sysOpen`, `sysClose`, `sysRead` and
`sysWrite` are `open`, `close`, `read` and `write` of `system_calls.c` on the array of the
calling process. A jump table is named by its driver; a null table is `none`, and a call
whose source would follow a null or foreign table has no result.

The driver behind a jump table is an argument of the call. It gives the value returned, the
new `file_position` of the dispatched slot and the bytes it wrote from `buf` on; a driver
that does not come back gives nothing. The routine `open` calls at the end of a successful
open (`rtc_open` or `open_fs`) is not an argument: it is not told the descriptor.
-/

namespace LinuxBasedOS.Files

open Lib Filesystem

/-- The jump tables of `fop_tables`. -/
inductive JumpTable where
  | rtc
  | filesystemDir
  | filesystemReg
  | keyboard
  | terminal
  deriving DecidableEq, Repr

def notInUse : Int := 0

def inUse : Int := 1

structure FileDescriptor where
  fdJumptable : Option JumpTable
  inodeIndx : Int
  filePosition : Int
  flags : Int
  deriving DecidableEq

abbrev FileArray := Nat → FileDescriptor

def maxFd : Nat := 8

def minFd : Nat := 2

/-- `fop_tables[filetype]`; a type past the array has no table. -/
def fopTables (filetype : Int) : Option JumpTable :=
  if filetype = 0 then some .rtc
  else if filetype = 1 then some .filesystemDir
  else if filetype = 2 then some .filesystemReg
  else if filetype = 3 then some .keyboard
  else if filetype = 4 then some .terminal
  else none

/-- A descriptor as `close`, `halt` and `PCB_init` leave it. -/
def closedDescriptor : FileDescriptor where
  fdJumptable := none
  inodeIndx := 0
  filePosition := 0
  flags := notInUse

/-- The descriptors `PCB_init` gives to `stdin` and `stdout`. -/
def standardDescriptor (table : JumpTable) : FileDescriptor where
  fdJumptable := some table
  inodeIndx := 0
  filePosition := 0
  flags := inUse

/-! ## open and close -/

/-- The loop of `open` over the descriptors 2 to 7. -/
def freeDescriptor (fa : FileArray) : Option Nat :=
  (List.range' minFd (maxFd - minFd)).find? fun fd => decide ((fa fd).flags = notInUse)

/-- `open`; `uninit` is its local `file_dentry` before the lookup. -/
def sysOpen (img : Image) (filename : List UInt8) (uninit : Dentry) (fa : FileArray) :
    Option (Int × FileArray) :=
  if strncmp (cstr filename) (cstr []) (strlen filename) = 0 then some (-1, fa)
  else
    let lookup := readDentryByName img (cstr filename) uninit
    if lookup.1 ≠ 0 then some (-1, fa)
    else
      match freeDescriptor fa with
      | none => some (-1, fa)
      | some fd =>
        match fopTables lookup.2.filetype with
        | none => none
        | some table =>
          some (fd, Function.update fa fd
            { fdJumptable := some table
              flags := inUse
              filePosition := 0
              inodeIndx := if lookup.2.filetype = 2 then lookup.2.idxInode else 0 })

def sysClose (fd : Int) (fa : FileArray) : Int × FileArray :=
  if (maxFd : Int) ≤ fd ∨ fd < minFd then (-1, fa)
  else if (fa fd.toNat).flags = notInUse then (-1, fa)
  else (0, Function.update fa fd.toNat closedDescriptor)

/-- The slot that `open` fills in for an entry. -/
def openedDescriptor (entry : Dentry) (table : JumpTable) : FileDescriptor where
  fdJumptable := some table
  inodeIndx := if entry.filetype = 2 then entry.idxInode else 0
  filePosition := 0
  flags := inUse

/-- The search of `open` stops at the first slot that is not in use. -/
theorem freeDescriptor_eq_some {fa : FileArray} {fd : Nat} (h0 : minFd ≤ fd) (h1 : fd < maxFd)
    (hfree : (fa fd).flags = notInUse)
    (hbefore : ∀ j, minFd ≤ j → j < fd → (fa j).flags ≠ notInUse) :
    freeDescriptor fa = some fd := by
  refine List.find?_range'_eq_some.mpr ⟨by simpa using hfree, ?_, fun j hj0 hj1 => ?_⟩
  · rw [List.mem_range'_1]
    omega
  · simpa using hbefore j hj0 hj1

theorem freeDescriptor_eq_none {fa : FileArray}
    (h : ∀ fd, minFd ≤ fd → fd < maxFd → (fa fd).flags ≠ notInUse) :
    freeDescriptor fa = none := by
  refine List.find?_range'_eq_none.mpr fun fd hfd0 hfd1 => ?_
  simpa using h fd hfd0 (by unfold minFd maxFd at *; omega)

theorem freeDescriptor_bounds {fa : FileArray} {fd : Nat} (h : freeDescriptor fa = some fd) :
    minFd ≤ fd ∧ fd < maxFd := by
  have hmem := List.mem_of_find?_eq_some h
  rw [List.mem_range'_1] at hmem
  unfold minFd maxFd at *
  omega

/-- `open` by cases: the empty name, a name that is not found, a full array, and an entry
put into the first free slot. -/
theorem sysOpen_cases (img : Image) (filename : List UInt8) (uninit : Dentry) (fa : FileArray) :
    sysOpen img filename uninit fa =
      if strlen filename = 0 then some (-1, fa)
      else
        match matchedSlot img (cstr filename), freeDescriptor fa with
        | some i, some fd => (fopTables (dentryAt img i).filetype).map fun table =>
            ((fd : Int), Function.update fa fd (openedDescriptor (dentryAt img i) table))
        | _, _ => some (-1, fa) := by
  unfold sysOpen
  simp only [strncmp_empty]
  split
  · rfl
  · unfold readDentryByName
    cases matchedSlot img (cstr filename) with
    | none => simp
    | some i =>
      simp only [ne_eq, not_true_eq_false, if_false]
      cases freeDescriptor fa with
      | none => rfl
      | some fd =>
        dsimp only
        cases fopTables (dentryAt img i).filetype with
        | none => rfl
        | some table => rfl

/-- What an `open` that comes back has done: nothing, or filled in one free slot. -/
theorem sysOpen_inv {img : Image} {filename : List UInt8} {uninit : Dentry} {fa fa' : FileArray}
    {r : Int} (h : sysOpen img filename uninit fa = some (r, fa')) :
    (r = -1 ∧ fa' = fa) ∨
      ∃ i fd table, matchedSlot img (cstr filename) = some i ∧ minFd ≤ fd ∧ fd < maxFd ∧
        fopTables (dentryAt img i).filetype = some table ∧ r = (fd : Int) ∧
        fa' = Function.update fa fd (openedDescriptor (dentryAt img i) table) := by
  rw [sysOpen_cases] at h
  split at h
  · cases h
    exact Or.inl ⟨rfl, rfl⟩
  · split at h
    · next i fd hslot hfree =>
      obtain ⟨table, htable, heq⟩ := Option.map_eq_some_iff.mp h
      cases heq
      obtain ⟨h0, h1⟩ := freeDescriptor_bounds hfree
      exact Or.inr ⟨i, fd, table, hslot, h0, h1, htable, rfl, rfl⟩
    · cases h
      exact Or.inl ⟨rfl, rfl⟩

theorem sysClose_inv (fd : Int) (fa : FileArray) :
    sysClose fd fa = (-1, fa) ∨
      sysClose fd fa = (0, Function.update fa fd.toNat closedDescriptor) := by
  unfold sysClose
  split_ifs with hrange hflags
  · exact Or.inl rfl
  · exact Or.inl rfl
  · exact Or.inr rfl

/-! ## read and write -/

structure Reply where
  retval : Int
  filePosition : Int
  bytes : List UInt8

/-- A driver call through a jump table, on the dispatched descriptor. -/
abbrev Driver := JumpTable → FileDescriptor → Int → Option Reply

structure CallResult where
  retval : Int
  fileArray : FileArray
  dispatched : Option JumpTable
  bytes : List UInt8

/-- The result of a call that its checks refuse. -/
def refusal (fa : FileArray) : CallResult where
  retval := -1
  fileArray := fa
  dispatched := none
  bytes := []

/-- The result of a call that the driver of `table` answers. -/
def answered (fa : FileArray) (fd : Nat) (table : JumpTable) (reply : Reply) : CallResult where
  retval := reply.retval
  fileArray := Function.update fa fd { fa fd with filePosition := reply.filePosition }
  dispatched := some table
  bytes := reply.bytes

/-- The common body of `read` and `write`: `refused` is the standard descriptor that the
call does not serve, `bufNull` says that `buf` is the null pointer. -/
def dispatch (refused fd : Int) (bufNull : Bool) (nbytes : Int) (driver : Driver)
    (fa : FileArray) : Option CallResult :=
  if (maxFd : Int) ≤ fd ∨ fd < 0 then some (refusal fa)
  else if fd = refused then some (refusal fa)
  else if (fa fd.toNat).flags = notInUse then some (refusal fa)
  else if bufNull then some (refusal fa)
  else
    match (fa fd.toNat).fdJumptable with
    | none => none
    | some table => (driver table (fa fd.toNat) nbytes).map (answered fa fd.toNat table)

/-- A transfer changes no slot but the one it is called for. -/
theorem dispatch_frame {refused fd nbytes : Int} {bufNull : Bool} {driver : Driver}
    {fa : FileArray} {r : CallResult} (h : dispatch refused fd bufNull nbytes driver fa = some r)
    {j : Nat} (hj : j ≠ fd.toNat) : r.fileArray j = fa j := by
  unfold dispatch at h
  split_ifs at h with h1 h2 h3 h4
  · cases h
    rfl
  · cases h
    rfl
  · cases h
    rfl
  · cases h
    rfl
  · split at h
    · cases h
    · obtain ⟨reply, -, rfl⟩ := Option.map_eq_some_iff.mp h
      exact Function.update_of_ne hj _ _

/-- A transfer on a slot in use is answered by the driver of its table. -/
theorem dispatch_served {refused fd nbytes : Int} {driver : Driver} {fa : FileArray}
    {table : JumpTable} (h0 : 0 ≤ fd) (h1 : fd < maxFd) (hne : fd ≠ refused)
    (hflags : (fa fd.toNat).flags ≠ notInUse) (htable : (fa fd.toNat).fdJumptable = some table) :
    dispatch refused fd false nbytes driver fa =
      (driver table (fa fd.toNat) nbytes).map (answered fa fd.toNat table) := by
  rw [dispatch, if_neg (by omega), if_neg hne, if_neg hflags, if_neg Bool.false_ne_true, htable]

def sysRead (fd : Int) (bufNull : Bool) (nbytes : Int) (driver : Driver) (fa : FileArray) :
    Option CallResult :=
  dispatch 1 fd bufNull nbytes driver fa

def sysWrite (fd : Int) (bufNull : Bool) (nbytes : Int) (driver : Driver) (fa : FileArray) :
    Option CallResult :=
  dispatch 0 fd bufNull nbytes driver fa

end LinuxBasedOS.Files
