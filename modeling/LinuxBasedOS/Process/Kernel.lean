import LinuxBasedOS.Base.Word
import LinuxBasedOS.Files.FileArray

/-!
# Process control blocks and the globals of the kernel

`Kernel` holds the globals that `execute`, `halt`, `PCB_init` and `switch_tasks` share, the
page directory, the fields of the TSS they set, and the PCBs by address. A PCB lies at the
bottom of the 8 KB block that holds the kernel stack of its process, so every PCB address
is a multiple of 8 KB and two PCBs never overlap.

An array of the source is a function of the index. An index past the array is one more
argument of the function, read and written where the source reads and writes it.
-/

namespace LinuxBasedOS.Process

open Word Files

def fourMB : Int := 0x00400000

def eightMB : Int := 0x00800000

def eightKB : Int := 0x00002000

def fourMBUserPage : Nat := 0x87

/-- The page directory entry of the user page at 128 MB. -/
def cpIndex : Nat := 32

def kernelDS : Nat := 0x0018

/-- `sizeof(PCB_t)`. -/
def pcbSize : Nat := 300

inductive ProcessState where
  | started
  | ready
  | running
  | waiting
  | terminated
  deriving DecidableEq, Repr

structure PCB where
  pid : Nat
  processState : ProcessState
  terminalId : Nat
  sesp : Nat
  sebp : Nat
  kernelStack : Nat
  kernelSS : Nat
  kesp : Nat
  kebp : Nat
  nArg : Nat
  args : Nat → UInt8
  fileArray : FileArray
  parentAddr : Int

structure Kernel where
  totalTasks : Nat
  pidBitpattern : Nat → Nat
  currentTask : Nat
  terminalCurrentPid : Nat → Nat
  activeTerminal : Nat
  priorityListPid : Nat → Int
  currentSchedule : Int
  scheduleStarted : Int
  pcbTerminal : Nat
  exceptionHalt : Int
  pageDir : Nat → Nat
  tssSs0 : Nat
  tssEsp0 : Nat
  pcbs : Nat → PCB

/-! ## Addresses -/

/-- `EIGHTMB - (pid * EIGHTKB)`: the top of the kernel stack of a process. -/
def kernelStackAddr (pid : Int) : Nat := u32 (eightMB - pid * eightKB)

/-- `kernelStackAddr - EIGHTKB`: the PCB of a process, at the bottom of its block. -/
def pcbAddr (pid : Int) : Nat := u32 (kernelStackAddr pid - eightKB)

/-- `((pid-1) * FOURMB) + EIGHTMB`. -/
def physicalPageAddr (pid : Int) : Nat := u32 ((pid - 1) * fourMB + eightMB)

/-- The entry `page_allocate` writes for the user page of a process. -/
def pageEntry (pid : Int) : Nat := physicalPageAddr pid ||| fourMBUserPage

/-- `current_PCB`: the stack pointer with its low 13 bits cleared. -/
def currentPCB (esp : Nat) : Nat := esp &&& 0xFFFFE000

theorem kernelStackAddr_of_le {p : Nat} (h : p ≤ 1000) :
    kernelStackAddr p = 8388608 - 8192 * p := by
  unfold kernelStackAddr u32 eightMB eightKB
  omega

theorem pcbAddr_of_le {p : Nat} (h : p ≤ 1000) : pcbAddr p = 8380416 - 8192 * p := by
  unfold pcbAddr
  rw [kernelStackAddr_of_le h]
  unfold u32 eightKB
  omega

theorem pcbAddr_inj {p q : Nat} (hp : p ≤ 1000) (hq : q ≤ 1000) :
    pcbAddr p = pcbAddr q ↔ p = q := by
  rw [pcbAddr_of_le hp, pcbAddr_of_le hq]
  omega

/-- `current_PCB` gives the bottom of the block that the stack pointer is in. -/
theorem currentPCB_of_block {esp base : Nat} (halign : base % 8192 = 0)
    (htop : base + 8192 ≤ 4294967296) (h0 : base ≤ esp) (h1 : esp < base + 8192) :
    currentPCB esp = base := by
  have hmask : (0xFFFFE000 : Nat) = 2 ^ 32 - 2 ^ 13 := by decide
  unfold currentPCB
  rw [hmask, land_high_mask (by decide) (by omega)]
  exact div_mul_of_block (by decide) halign h0 h1

/-! ## Updates -/

/-- `page_allocate`. -/
def pageAllocate (k : Kernel) (physicalAddr pdeIndex pdeFlags : Nat) : Kernel :=
  { k with pageDir := Function.update k.pageDir pdeIndex (physicalAddr ||| pdeFlags) }

/-- A store to fields of the PCB at an address. -/
def setPCB (k : Kernel) (addr : Nat) (f : PCB → PCB) : Kernel :=
  { k with pcbs := Function.update k.pcbs addr (f (k.pcbs addr)) }

theorem setPCB_pcbs (k : Kernel) (addr : Nat) (f : PCB → PCB) (a : Nat) :
    (setPCB k addr f).pcbs a = if a = addr then f (k.pcbs addr) else k.pcbs a := by
  simp only [setPCB, Function.update_apply]

end LinuxBasedOS.Process
