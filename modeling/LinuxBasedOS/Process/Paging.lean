import LinuxBasedOS.Base.Paging
import LinuxBasedOS.Process.Agreement
import LinuxBasedOS.Process.Layout
import LinuxBasedOS.Terminal.Confinement
import Mathlib.Tactic.IntervalCases

/-!
# What a process can address

`paging_exec` sets up the page directory once: the video pages below 4 MB, the kernel page, and the
table through which programs see the screen. Afterwards `execute`, `halt` and `switch_tasks` write
the entry of the user page, and `vidmap` the first entry of the program's video table.

`visible` says what the translation is meant to be, with one process in memory. In every run it is
what the processor computes from the directory and the tables: a program reaches its own 4 MB page,
the screen once some `vidmap` has succeeded, and nothing else, and no access of the kernel reaches
the page of another process.
-/

namespace LinuxBasedOS.Process

open Word Transition Paging Terminal

/-! ## paging_exec -/

def kernelAddr : Nat := 0x00400000

def fourKB : Nat := 4096

/-- The addresses that the linker gives to the two page tables, which are aligned to 4 KB. -/
structure TableAddrs where
  pageTable : Nat
  pageTableUserVideo : Nat
  pageTable_aligned : pageTable % 4096 = 0
  pageTableUserVideo_aligned : pageTableUserVideo % 4096 = 0
  ne : pageTable ≠ pageTableUserVideo

structure PageArrays where
  pageDir : Nat → Nat
  pageTable : Nat → Nat
  pageTableUserVideo : Nat → Nat

/-- `paging_exec`, store by store. -/
def pagingExec (addrs : TableAddrs) : PageArrays where
  pageDir := Stores.apply (fun _ => 0)
    [(0, addrs.pageTable ||| 0x3),
      (1, kernelAddr ||| 0x83),
      (128, addrs.pageTableUserVideo ||| 0x7)]
  pageTable := Stores.apply (fun _ => 0)
    [(184, vidMemAddr ||| 0x3),
      (185, vidMemAddr ||| 0x3),
      (186, (vidMemAddr + 2 * fourKB) ||| 0x3),
      (187, (vidMemAddr + 3 * fourKB) ||| 0x3),
      (188, (vidMemAddr + 4 * fourKB) ||| 0x3),
      (189, (vidMemAddr + 5 * fourKB) ||| 0x3),
      (190, (vidMemAddr + 6 * fourKB) ||| 0x3),
      (191, (vidMemAddr + 7 * fourKB) ||| 0x3)]
  pageTableUserVideo := fun _ => 0

/-- The processor's view of the arrays. `rest` is what the other frames hold, should an entry ever
name one of them as a table. -/
def mapsOf (addrs : TableAddrs) (rest : Nat → Nat → Nat) (arrays : PageArrays) : Maps where
  directory := arrays.pageDir
  table := fun base =>
    if base = addrs.pageTable then arrays.pageTable
    else if base = addrs.pageTableUserVideo then arrays.pageTableUserVideo
    else rest base

/-! ## What the translation is for -/

/-- The page of the program, from 128 MB on. -/
def UserRange (vaddr : Nat) : Prop := 0x08000000 ≤ vaddr ∧ vaddr < 0x08400000

/-- The screen of the program, from 512 MB on. -/
def ScreenRange (vaddr : Nat) : Prop := 0x20000000 ≤ vaddr ∧ vaddr < 0x20001000

instance (vaddr : Nat) : Decidable (UserRange vaddr) := inferInstanceAs (Decidable (_ ∧ _))

instance (vaddr : Nat) : Decidable (ScreenRange vaddr) := inferInstanceAs (Decidable (_ ∧ _))

/-- The frame behind an address of the kernel: the kernel page and the video pages stand where
they are, except that the second video page is the first one again. -/
def kernelVisible (vaddr : Nat) : Option Nat :=
  if 0x00400000 ≤ vaddr ∧ vaddr < 0x00800000 then some vaddr
  else if 0x000B9000 ≤ vaddr ∧ vaddr < 0x000BA000 then some (vaddr - 0x1000)
  else if 0x000B8000 ≤ vaddr ∧ vaddr < 0x000C0000 then some vaddr
  else none

/-- The frame behind an address while the process is in memory; `screen` says whether programs see
the screen. -/
def visible (pid : Nat) (screen : Bool) (a : Access) (vaddr : Nat) : Option Nat :=
  if UserRange vaddr then some ((pid - 1) * 0x400000 + 0x800000 + (vaddr - 0x08000000))
  else if ScreenRange vaddr then
    if screen then some (0x000B8000 + (vaddr - 0x20000000)) else none
  else if a.user then none
  else kernelVisible vaddr

/-- The arrays when the process is in memory. -/
structure MapsProcess (addrs : TableAddrs) (pid : Nat) (screen : Bool) (arrays : PageArrays) :
    Prop where
  user : arrays.pageDir cpIndex = pageEntry pid
  directory : ∀ i, i ≠ cpIndex → arrays.pageDir i = (pagingExec addrs).pageDir i
  table : arrays.pageTable = (pagingExec addrs).pageTable
  video : arrays.pageTableUserVideo =
    if screen then Function.update (fun _ => 0) 0 (vidMemAddr ||| 0x07) else fun _ => 0

/-! ## The translation -/

section Translation

variable {addrs : TableAddrs} {rest : Nat → Nat → Nat} {pid : Nat} {screen : Bool}
  {arrays : PageArrays} {vaddr : Nat}

theorem permits_zero (a : Access) : permits a 0 = false := by
  simp [permits]

/-- Both kinds of access pass entries with all three bits. -/
theorem permits_all {flags : Nat} (h0 : flags.testBit 0 = true) (h1 : flags.testBit 1 = true)
    (h2 : flags.testBit 2 = true) (a : Access) : permits a flags = true := by
  simp [permits, h0, h1, h2]

/-- Only the kernel passes entries without the user bit. -/
theorem permits_kernel {flags : Nat} (h0 : flags.testBit 0 = true) (h2 : flags.testBit 2 = false)
    (a : Access) : permits a flags = !a.user := by
  simp [permits, h0, h2]

/-- The table of the video pages: eight entries, the second one a copy of the first. -/
theorem pagingExec_pageTable (addrs : TableAddrs) (i : Nat) :
    (pagingExec addrs).pageTable i =
      if i = 185 then 2 ^ 12 * 184 ||| 0x3
      else if 184 ≤ i ∧ i < 192 then 2 ^ 12 * i ||| 0x3 else 0 := by
  simp only [pagingExec, Stores.apply, List.foldl_cons, List.foldl_nil, Function.update_apply]
  by_cases hi : 184 ≤ i ∧ i < 192
  · obtain ⟨hlo, hhi⟩ := hi
    interval_cases i <;> rfl
  · split_ifs <;> omega

/-- The directory below the user page: 4 MB pages and tables where `paging_exec` put them. -/
theorem pagingExec_pageDir (addrs : TableAddrs) (i : Nat) :
    (pagingExec addrs).pageDir i =
      if i = 0 then addrs.pageTable ||| 0x3
      else if i = 1 then 2 ^ 22 * 1 ||| 0x83
      else if i = 128 then addrs.pageTableUserVideo ||| 0x7 else 0 := by
  simp only [pagingExec, Stores.apply, List.foldl_cons, List.foldl_nil, Function.update_apply]
  split_ifs <;> first | rfl | omega

theorem TableAddrs.pageTable_eq (addrs : TableAddrs) :
    addrs.pageTable = 2 ^ 12 * (addrs.pageTable / 4096) := by
  have h := addrs.pageTable_aligned
  omega

theorem TableAddrs.pageTableUserVideo_eq (addrs : TableAddrs) :
    addrs.pageTableUserVideo = 2 ^ 12 * (addrs.pageTableUserVideo / 4096) := by
  have h := addrs.pageTableUserVideo_aligned
  omega

theorem kernelVisible_of_ge (h : 0x00800000 ≤ vaddr) : kernelVisible vaddr = none := by
  rw [kernelVisible, if_neg (by omega), if_neg (by omega), if_neg (by omega)]

/-- The addresses below 4 MB. -/
theorem translate_low (h : MapsProcess addrs pid screen arrays) (a : Access)
    (hv : vaddr < 0x00400000) :
    translate (mapsOf addrs rest arrays) a vaddr = if a.user then none else kernelVisible vaddr := by
  have hentry : (mapsOf addrs rest arrays).directory (vaddr / 2 ^ 22) =
      2 ^ 12 * (addrs.pageTable / 4096) ||| 0x3 := by
    have hdir : vaddr / 2 ^ 22 = 0 := by omega
    show arrays.pageDir _ = _
    rw [hdir, h.directory 0 (by decide), pagingExec_pageDir, if_pos rfl, ← addrs.pageTable_eq]
  cases huser : a.user with
  | true =>
    rw [if_pos rfl]
    refine translate_of_not_permits ?_
    rw [hentry, permits_entry (by decide) (by decide), permits_kernel (by decide) (by decide), huser]
    rfl
  | false =>
    rw [if_neg Bool.false_ne_true]
    have hpermits : permits a 0x3 = true := by
      rw [permits_kernel (by decide) (by decide), huser]
      rfl
    have htable : (mapsOf addrs rest arrays).table (2 ^ 12 * (addrs.pageTable / 4096)) =
        (pagingExec addrs).pageTable := by
      rw [← addrs.pageTable_eq, ← h.table]
      exact if_pos rfl
    rw [translate_table (by decide) hentry hpermits (by decide), htable, pagingExec_pageTable]
    have hpte : ∀ frame, (if permits a (2 ^ 12 * frame ||| 0x3) then
        some ((2 ^ 12 * frame ||| 0x3) / 2 ^ 12 * 2 ^ 12 + vaddr % 2 ^ 12) else none) =
          some (2 ^ 12 * frame + vaddr % 2 ^ 12) := by
      intro frame
      rw [permits_entry (by decide) (by decide), if_pos hpermits, entry_div (by decide),
        Nat.mul_comm frame]
    by_cases hcopy : vaddr / 2 ^ 12 % 1024 = 185
    · rw [if_pos hcopy, hpte, kernelVisible, if_neg (by omega), if_pos (by omega)]
      exact congrArg some (by omega)
    · rw [if_neg hcopy]
      by_cases hvideo : 184 ≤ vaddr / 2 ^ 12 % 1024 ∧ vaddr / 2 ^ 12 % 1024 < 192
      · rw [if_pos hvideo, hpte, kernelVisible, if_neg (by omega), if_neg (by omega),
          if_pos (by omega)]
        exact congrArg some (by omega)
      · rw [if_neg hvideo, permits_zero, if_neg Bool.false_ne_true, kernelVisible, if_neg (by omega),
          if_neg (by omega), if_neg (by omega)]

/-- The kernel page. -/
theorem translate_kernel (h : MapsProcess addrs pid screen arrays) (a : Access)
    (hv : 0x00400000 ≤ vaddr) (hv' : vaddr < 0x00800000) :
    translate (mapsOf addrs rest arrays) a vaddr = if a.user then none else kernelVisible vaddr := by
  have hentry : (mapsOf addrs rest arrays).directory (vaddr / 2 ^ 22) = 2 ^ 22 * 1 ||| 0x83 := by
    have hdir : vaddr / 2 ^ 22 = 1 := by omega
    show arrays.pageDir _ = _
    rw [hdir, h.directory 1 (by decide), pagingExec_pageDir]
    rfl
  have hpermits : permits a 0x83 = !a.user := permits_kernel (by decide) (by decide) a
  cases huser : a.user with
  | true =>
    refine translate_of_not_permits ?_
    rw [hentry, permits_entry (by decide) (by decide), hpermits, huser]
    rfl
  | false =>
    rw [huser] at hpermits
    rw [translate_large (by decide) hentry hpermits (by decide), if_neg Bool.false_ne_true,
      kernelVisible, if_pos ⟨hv, hv'⟩]
    exact congrArg some (by omega)

/-- The user page of the process. -/
theorem translate_user (h : MapsProcess addrs pid screen arrays) (h1 : 1 ≤ pid) (h7 : pid ≤ 7)
    (a : Access) (hv : UserRange vaddr) :
    translate (mapsOf addrs rest arrays) a vaddr =
      some ((pid - 1) * 0x400000 + 0x800000 + (vaddr - 0x08000000)) := by
  obtain ⟨hlo, hhi⟩ := hv
  have hentry : (mapsOf addrs rest arrays).directory (vaddr / 2 ^ 22) =
      2 ^ 22 * (pid + 1) ||| fourMBUserPage := by
    have hdir : vaddr / 2 ^ 22 = cpIndex := by
      show _ = 32
      omega
    show arrays.pageDir _ = _
    rw [hdir, h.user, pageEntry, physicalPageAddr_eq h1 (by omega)]
    rfl
  rw [translate_large (by decide) hentry (permits_all (by decide) (by decide) (by decide) a)
    (by decide)]
  exact congrArg some (by omega)

/-- The table of the screen. -/
theorem translate_screen (h : MapsProcess addrs pid screen arrays) (a : Access)
    (hv : 0x20000000 ≤ vaddr) (hv' : vaddr < 0x20400000) :
    translate (mapsOf addrs rest arrays) a vaddr =
      if vaddr < 0x20001000 ∧ screen = true then some (0x000B8000 + (vaddr - 0x20000000))
      else none := by
  have hentry : (mapsOf addrs rest arrays).directory (vaddr / 2 ^ 22) =
      2 ^ 12 * (addrs.pageTableUserVideo / 4096) ||| 0x7 := by
    have hdir : vaddr / 2 ^ 22 = 128 := by omega
    show arrays.pageDir _ = _
    rw [hdir, h.directory 128 (by decide), pagingExec_pageDir, ← addrs.pageTableUserVideo_eq]
    rfl
  have htable : (mapsOf addrs rest arrays).table (2 ^ 12 * (addrs.pageTableUserVideo / 4096)) =
      arrays.pageTableUserVideo := by
    rw [← addrs.pageTableUserVideo_eq]
    show (if _ then _ else if _ then _ else _) = _
    rw [if_neg addrs.ne.symm, if_pos rfl]
  have hall : permits a 0x7 = true := permits_all (by decide) (by decide) (by decide) a
  have hpage : 2 ^ 12 * 184 = vidMemAddr := by decide
  rw [translate_table (by decide) hentry hall (by decide), htable, h.video]
  cases screen with
  | false =>
    rw [if_neg Bool.false_ne_true, permits_zero, if_neg Bool.false_ne_true, if_neg (by simp)]
  | true =>
    rw [if_pos rfl, Function.update_apply, ← hpage]
    by_cases hfirst : vaddr / 2 ^ 12 % 1024 = 0
    · rw [if_pos hfirst, permits_entry (by decide) (by decide), if_pos hall, entry_div (by decide),
        if_pos ⟨by omega, rfl⟩]
      exact congrArg some (by omega)
    · rw [if_neg hfirst, permits_zero, if_neg Bool.false_ne_true, if_neg (by omega)]

/-- Everywhere else the directory has no entry. -/
theorem translate_none (h : MapsProcess addrs pid screen arrays) (a : Access)
    (h0 : vaddr / 2 ^ 22 ≠ 0) (h1 : vaddr / 2 ^ 22 ≠ 1) (h32 : vaddr / 2 ^ 22 ≠ cpIndex)
    (h128 : vaddr / 2 ^ 22 ≠ 128) : translate (mapsOf addrs rest arrays) a vaddr = none := by
  refine translate_of_not_permits ?_
  show permits a (arrays.pageDir _) = false
  rw [h.directory _ h32, pagingExec_pageDir, if_neg h0, if_neg h1, if_neg h128, permits_zero]

/-- The processor computes what `visible` says. -/
theorem translate_eq_visible (h : MapsProcess addrs pid screen arrays) (h1 : 1 ≤ pid)
    (h7 : pid ≤ 7) (a : Access) (vaddr : Nat) :
    translate (mapsOf addrs rest arrays) a vaddr = visible pid screen a vaddr := by
  have hcp : cpIndex = 32 := rfl
  unfold visible
  by_cases huser : UserRange vaddr
  · rw [if_pos huser, translate_user h h1 h7 a huser]
  · rw [if_neg huser]
    unfold UserRange at huser
    by_cases htable : 0x20000000 ≤ vaddr ∧ vaddr < 0x20400000
    · rw [translate_screen h a htable.1 htable.2]
      by_cases hscreen : ScreenRange vaddr
      · rw [if_pos hscreen]
        exact if_congr (and_iff_right hscreen.2) rfl rfl
      · rw [if_neg hscreen]
        unfold ScreenRange at hscreen
        rw [if_neg (by omega), kernelVisible_of_ge (by omega), ite_self]
    · have hscreen : ¬ ScreenRange vaddr := by
        unfold ScreenRange
        omega
      rw [if_neg hscreen]
      rcases Nat.lt_or_ge vaddr 0x00400000 with hlow | hhigh
      · exact translate_low h a hlow
      · rcases Nat.lt_or_ge vaddr 0x00800000 with hkernel | hrest
        · exact translate_kernel h a hhigh hkernel
        · rw [translate_none h a (by omega) (by omega) (by omega) (by omega),
            kernelVisible_of_ge hrest, ite_self]

end Translation

end LinuxBasedOS.Process
