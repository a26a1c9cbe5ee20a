import LinuxBasedOS.Base.Blocks
import LinuxBasedOS.Process.Steps

/-!
# The layout of memory

`execute` and `switch_tasks` compute the kernel stack of a process, its PCB and its user page from
the pid, by products and differences of 32 bits; `current_PCB` computes the PCB from the stack
pointer, by a mask. The stacks are blocks of 8 KB and the pages are blocks of 4 MB, so the formulas
agree as long as the blocks are in the kernel page.
-/

namespace LinuxBasedOS.Process

open Word Blocks

/-! ## Regions -/

/-- The PCB of a process, at the bottom, and its kernel stack, from the top down. -/
def processBlock (pid : Nat) : Set Nat := Set.Ico (pcbAddr pid) (kernelStackAddr pid)

/-- The stack of `boot.S`. -/
def bootStack : Set Nat := Set.Ico (0x800000 - 0x2000) 0x800000

/-- The page from 4 MB to 8 MB. -/
def kernelPage : Set Nat := Set.Ico 0x400000 0x800000

/-- The physical page of the program. -/
def userPage (pid : Nat) : Set Nat := Set.Ico (physicalPageAddr pid) (physicalPageAddr pid + 0x400000)

/-- The processor is set up for the process. -/
structure SetUpFor (k : Kernel) (pid : Nat) : Prop where
  tss : k.tssEsp0 = kernelStackAddr pid
  page : k.pageDir cpIndex = pageEntry pid
  running : (k.pcbs (pcbAddr pid)).processState = .running

/-- The regions of a process are where they should be, and the functions that compute them agree. -/
structure LaidOut (pid : Nat) : Prop where
  block_eq : processBlock pid =
    Set.Ico (0x800000 - (pid + 1) * 0x2000) (0x800000 - pid * 0x2000)
  pcb_fits : pcbAddr pid + pcbSize ≤ kernelStackAddr pid
  block_boot : Disjoint (processBlock pid) bootStack
  block_kernel : processBlock pid ⊆ kernelPage
  page_eq : userPage pid =
    Set.Ico ((pid - 1) * 0x400000 + 0x800000) ((pid - 1) * 0x400000 + 0x800000 + 0x400000)
  page_kernel : Disjoint (userPage pid) kernelPage
  entry_address : pageEntry pid &&& 0xFFC00000 = physicalPageAddr pid
  entry_flags : pageEntry pid &&& 0x3FFFFF = fourMBUserPage
  launched : ∀ (isExecutable : List UInt8 → Bool) (k : Kernel) (f : Frame) (command : List UInt8)
    (l : Launch), execute isExecutable k f command = some l → l.pid = pid → SetUpFor l.kernel pid
  switched : ∀ (isExecutable : List UInt8 → Bool) (k : Kernel) (f : Frame) (r : SwitchResult),
    k.scheduleStarted = 1 → switchTasks isExecutable k f = some r →
      r.kernel.priorityListPid r.kernel.currentSchedule.toNat = pid → SetUpFor r.kernel pid
  current : ∀ esp < 4294967296, currentPCB esp = pcbAddr pid ↔ esp ∈ processBlock pid

section Regions

variable {p q : Nat}

theorem processBlock_eq (h : p < 512) : processBlock p = block 8192 (1023 - p) := by
  have hbottom : pcbAddr p = 8192 * (1023 - p) := by
    rw [pcbAddr_of_le (by omega)]
    omega
  have htop : kernelStackAddr p = 8192 * (1023 - p + 1) := by
    rw [kernelStackAddr_of_le (by omega)]
    omega
  rw [processBlock, hbottom, htop, block]

theorem bootStack_eq : bootStack = block 8192 1023 := rfl

theorem kernelPage_eq : kernelPage = block 4194304 1 := rfl

theorem physicalPageAddr_eq (h0 : 1 ≤ p) (h : p < 512) :
    physicalPageAddr p = 4194304 * (p + 1) := by
  unfold physicalPageAddr u32 fourMB eightMB
  omega

theorem userPage_eq (h0 : 1 ≤ p) (h : p < 512) : userPage p = block 4194304 (p + 1) := by
  have htop : 4194304 * (p + 1) + 0x400000 = 4194304 * (p + 1 + 1) := by omega
  rw [userPage, physicalPageAddr_eq h0 h, htop, block]

theorem disjoint_processBlock (hp : p < 512) (hq : q < 512) (h : p ≠ q) :
    Disjoint (processBlock p) (processBlock q) := by
  rw [processBlock_eq hp, processBlock_eq hq]
  exact disjoint_block 8192 (by omega)

theorem disjoint_bootStack (h0 : 1 ≤ p) (h : p < 512) : Disjoint (processBlock p) bootStack := by
  rw [processBlock_eq h, bootStack_eq]
  exact disjoint_block 8192 (by omega)

theorem processBlock_subset (h : p < 512) : processBlock p ⊆ kernelPage := by
  have hpage : (1023 - p) / 512 = 1 := by omega
  have hsub := block_subset_block 8192 (i := 1023 - p) (show 0 < 512 by decide)
  rw [hpage] at hsub
  rw [processBlock_eq h, kernelPage_eq]
  exact hsub

theorem disjoint_userPage (hp0 : 1 ≤ p) (hq0 : 1 ≤ q) (hp : p < 512) (hq : q < 512) (h : p ≠ q) :
    Disjoint (userPage p) (userPage q) := by
  rw [userPage_eq hp0 hp, userPage_eq hq0 hq]
  exact disjoint_block 4194304 (by omega)

theorem disjoint_kernelPage (h0 : 1 ≤ p) (h : p < 512) : Disjoint (userPage p) kernelPage := by
  rw [userPage_eq h0 h, kernelPage_eq]
  exact disjoint_block 4194304 (by omega)

/-! ## The page directory entry -/

theorem pageEntry_eq (h0 : 1 ≤ p) (h : p < 512) :
    pageEntry p = 4194304 * (p + 1) + fourMBUserPage := by
  have hflags : fourMBUserPage < 2 ^ 22 := by decide
  rw [pageEntry, physicalPageAddr_eq h0 h]
  exact lor_flags hflags

theorem pageEntry_address (h0 : 1 ≤ p) (h : p < 512) :
    pageEntry p &&& 0xFFC00000 = physicalPageAddr p := by
  have hentry := pageEntry_eq h0 h
  have hflags : fourMBUserPage = 135 := rfl
  have hmem : pageEntry p ∈ block (2 ^ 22) (p + 1) := by
    rw [mem_block (by decide), hentry]
    omega
  rw [physicalPageAddr_eq h0 h]
  exact (land_mask_eq_iff (n := 32) (k := 22) (by decide) (by omega)).mpr hmem

theorem pageEntry_flags (h0 : 1 ≤ p) (h : p < 512) :
    pageEntry p &&& 0x3FFFFF = fourMBUserPage := by
  have hflags : fourMBUserPage = 135 := rfl
  have hmask : pageEntry p &&& 0x3FFFFF = pageEntry p % 2 ^ 22 :=
    Nat.and_two_pow_sub_one_eq_mod _ 22
  rw [hmask, pageEntry_eq h0 h]
  omega

/-! ## The formulas -/

/-- The mask gives the PCB of a process exactly on the stack pointers in its block. -/
theorem currentPCB_eq_iff (h : p < 512) {esp : Nat} (hesp : esp < 4294967296) :
    currentPCB esp = pcbAddr p ↔ esp ∈ processBlock p := by
  have hbottom : pcbAddr p = 2 ^ 13 * (1023 - p) := by
    rw [pcbAddr_of_le (by omega)]
    omega
  rw [hbottom, processBlock_eq h]
  exact land_mask_eq_iff (n := 32) (k := 13) (by decide) hesp

theorem setUpFor_launchAs (k : Kernel) (f : Frame) (pid : Nat) (foundPid : Bool)
    (args : List UInt8) : SetUpFor (launchAs k f pid foundPid args).kernel pid where
  tss := rfl
  page := launchAs_pageDir k f pid foundPid args
  running := by simp [launchAs, enterProcess]

/-- Whatever pid `execute` has, it sets up its process. -/
theorem setUpFor_execute {isExecutable : List UInt8 → Bool} {k : Kernel} {f : Frame}
    {command : List UInt8} {l : Launch} (h : execute isExecutable k f command = some l) :
    SetUpFor l.kernel l.pid := by
  obtain ⟨-, -, rfl⟩ := execute_eq_some h
  unfold launch
  dsimp only
  split
  · exact setUpFor_launchAs _ f _ true _
  · exact setUpFor_launchAs _ f _ false _

theorem setUpFor_switchTo {k : Kernel} {i pid : Nat} (h : k.priorityListPid i = pid) (addr : Nat) :
    SetUpFor (switchTo k addr i).kernel pid where
  tss := by rw [switchTo_tssEsp0, h]
  page := by simp [switchTo, setPCB, pageAllocate, pageEntry, h]
  running := by simp [switchTo, setPCB, h]

/-- `switch_tasks` sets up the process of the slot it goes to. -/
theorem setUpFor_switchTasks {isExecutable : List UInt8 → Bool} {k : Kernel} {f : Frame}
    {r : SwitchResult} {pid : Nat} (hstarted : k.scheduleStarted = 1)
    (h : switchTasks isExecutable k f = some r)
    (hpid : r.kernel.priorityListPid r.kernel.currentSchedule.toNat = pid) :
    SetUpFor r.kernel pid := by
  unfold switchTasks at h
  dsimp only at h
  rw [if_pos hstarted, Option.map_eq_some_iff] at h
  obtain ⟨i, -, rfl⟩ := h
  rw [switchTo_priorityListPid, switchTo_currentSchedule, Int.toNat_natCast] at hpid
  exact setUpFor_switchTo hpid _

theorem laidOut (h0 : 1 ≤ p) (h : p < 512) : LaidOut p where
  block_eq := by
    rw [processBlock, pcbAddr_of_le (by omega), kernelStackAddr_of_le (by omega)]
    congr 1 <;> omega
  pcb_fits := by
    rw [pcbAddr_of_le (by omega), kernelStackAddr_of_le (by omega)]
    unfold pcbSize
    omega
  block_boot := disjoint_bootStack h0 h
  block_kernel := processBlock_subset h
  page_eq := by
    have haddr : physicalPageAddr p = (p - 1) * 0x400000 + 0x800000 := by
      rw [physicalPageAddr_eq h0 h]
      omega
    rw [userPage, haddr]
  page_kernel := disjoint_kernelPage h0 h
  entry_address := pageEntry_address h0 h
  entry_flags := pageEntry_flags h0 h
  launched _ _ _ _ _ hl hpid := hpid ▸ setUpFor_execute hl
  switched _ _ _ _ := setUpFor_switchTasks
  current _ hesp := currentPCB_eq_iff h hesp

/-- **The layout.** For every two pids whose blocks are in the kernel page: each process has its
block and its page where the formulas put them, apart from the boot stack and the kernel page; what
`execute` and `switch_tasks` set up is the same; the mask on the stack pointer gives the PCB exactly
in the block; and the two processes have no address in common. -/
theorem layout_consistent (hp0 : 1 ≤ p) (hq0 : 1 ≤ q) (hne : p ≠ q)
    (hp : (p + 1) * 0x2000 ≤ 0x400000) (hq : (q + 1) * 0x2000 ≤ 0x400000) :
    LaidOut p ∧ LaidOut q ∧ Disjoint (processBlock p) (processBlock q) ∧
      Disjoint (userPage p) (userPage q) := by
  have hp' : p < 512 := by omega
  have hq' : q < 512 := by omega
  exact ⟨laidOut hp0 hp', laidOut hq0 hq', disjoint_processBlock hp' hq' hne,
    disjoint_userPage hp0 hq0 hp' hq' hne⟩

end Regions

/-- The first process and the last one that has room. -/
theorem layout_consistent_last : LaidOut 511 ∧ Disjoint (userPage 1) (userPage 511) := by
  obtain ⟨-, hlast, -, hpages⟩ := layout_consistent (p := 1) (q := 511) (by decide) (by decide)
    (by decide) (by decide) (by decide)
  exact ⟨hlast, hpages⟩

end LinuxBasedOS.Process
