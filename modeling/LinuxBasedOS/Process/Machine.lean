import LinuxBasedOS.Base.Transition
import LinuxBasedOS.Process.Syscalls

/-!
# The scheduler and the machine it runs on

`switchTasks` is `switch_tasks` of `schedule.c`: in the startup phase it launches a base
shell, afterwards it saves the stack pointer of the running process and restores that of
the next one in the run queue.

`Machine` adds the processor to the kernel: the 8 KB block its kernel stack pointer is in,
and which processes spin in `page_handler` after a fault. A system call, and an interrupt of
user code, run on the stack that `tss.esp0` names; an interrupt of kernel code runs on the
stack in use. Every interleaving of timer ticks, system calls, page faults and terminal
switches is a run of `step`.
-/

namespace LinuxBasedOS.Process

open Word Files Transition

/-! ## switch_tasks -/

/-- The slot search of `switch_tasks` from `planned`, for at most `n` turns. The search is
cyclic, so seven turns decide it. -/
def slotSearch (list : Nat → Int) : Nat → Nat → Option Nat
  | 0, _ => none
  | n + 1, planned =>
    if list planned < 0 then slotSearch list n (if 6 < planned + 1 then 0 else planned + 1)
    else some planned

/-- The slot the search starts at. -/
def plannedSchedule (k : Kernel) : Nat := ((k.currentSchedule + 1).tmod 7).toNat

structure SwitchResult where
  kernel : Kernel
  stack : Nat
  launch : Option Launch

/-- The switch to the process in slot `i`, from the process at `addr`. -/
def switchTo (k : Kernel) (addr i : Nat) : SwitchResult :=
  let nextPid := k.priorityListPid i
  let paged := pageAllocate k (physicalPageAddr nextPid) cpIndex fourMBUserPage
  let waiting := setPCB
    { paged with
      currentSchedule := i
      tssSs0 := kernelDS
      tssEsp0 := kernelStackAddr nextPid
      pcbTerminal := (k.pcbs addr).terminalId }
    addr fun pcb => { pcb with processState := .waiting }
  let running := setPCB waiting (pcbAddr nextPid) fun pcb => { pcb with processState := .running }
  { kernel := running
    stack := currentPCB (running.pcbs (pcbAddr nextPid)).sesp
    launch := none }

/-- The startup branch of `switch_tasks`. -/
def startShell (isExecutable : List UInt8 → Bool) (k : Kernel) (f : Frame) : SwitchResult :=
  let counted := { k with activeTerminal := u32 ((k.activeTerminal : Int) - 1) }
  let checked := if counted.activeTerminal = 0 then { counted with scheduleStarted := 1 } else counted
  match execute isExecutable checked f shellCommand with
  | some l => { kernel := l.kernel, stack := pcbAddr l.pid, launch := some l }
  | none => { kernel := checked, stack := currentPCB f.esp, launch := none }

/-- `switch_tasks`; it has no result when the slot search does not end. -/
def switchTasks (isExecutable : List UInt8 → Bool) (k : Kernel) (f : Frame) :
    Option SwitchResult :=
  let addr := currentPCB f.esp
  let saved := setPCB k addr fun pcb => { pcb with sesp := f.esp, sebp := f.ebp }
  if k.scheduleStarted = 1 then
    (slotSearch k.priorityListPid 7 (plannedSchedule k)).map (switchTo saved addr)
  else some (startShell isExecutable saved f)

/-! ## The machine -/

structure Machine where
  kernel : Kernel
  stack : Nat
  faulted : Nat → Bool

inductive Event where
  | tick (f : Frame)
  | execute (f : Frame) (command : List UInt8)
  | halt (f : Frame) (status : UInt8)
  | pageFault
  | key (terminal : Nat)

structure Outcome where
  machine : Machine
  launch : Option Launch
  halted : Option Nat
  retval : Option Int

/-- The pointers of the frame lie in the stack of the block, above the PCB. -/
def OnStack (base : Nat) (f : Frame) : Prop :=
  (base + pcbSize ≤ f.esp ∧ f.esp < base + 8192) ∧ (base + pcbSize ≤ f.ebp ∧ f.ebp < base + 8192)

instance (base : Nat) (f : Frame) : Decidable (OnStack base f) :=
  inferInstanceAs (Decidable (_ ∧ _))

/-- The block of the stack that a trap from user code runs on. -/
def entryBlock (k : Kernel) : Nat := u32 ((k.tssEsp0 : Int) - eightKB)

/-- User code is running: a process has been started, and it does not spin in
`page_handler`. -/
def UserRuns (m : Machine) : Prop :=
  (m.kernel.tssEsp0 : Int) ≠ eightMB ∧ m.faulted (entryBlock m.kernel) = false

instance (m : Machine) : Decidable (UserRuns m) := inferInstanceAs (Decidable (_ ∧ _))

/-- A process that starts, or that returns from `execute`, does not spin. -/
def unfault (faulted : Nat → Bool) (block : Nat) : Nat → Bool := Function.update faulted block false

def stepTick (isExecutable : List UInt8 → Bool) (m : Machine) (f : Frame) : Option Outcome :=
  if OnStack (entryBlock m.kernel) f ∨ OnStack m.stack f then
    (switchTasks isExecutable m.kernel f).map fun r =>
      { machine :=
          { kernel := r.kernel
            stack := r.stack
            faulted := match r.launch with
              | none => m.faulted
              | some _ => unfault m.faulted r.stack }
        launch := r.launch, halted := none, retval := none }
  else none

def stepExecute (isExecutable : List UInt8 → Bool) (m : Machine) (f : Frame)
    (command : List UInt8) : Option Outcome :=
  if UserRuns m ∧ OnStack (entryBlock m.kernel) f then
    match execute isExecutable m.kernel f command with
    | none => some
        { machine := { m with stack := entryBlock m.kernel }
          launch := none, halted := none, retval := some (-1) }
    | some l => some
        { machine :=
            { kernel := l.kernel, stack := pcbAddr l.pid, faulted := unfault m.faulted (pcbAddr l.pid) }
          launch := some l, halted := none, retval := none }
  else none

def stepHalt (isExecutable : List UInt8 → Bool) (m : Machine) (f : Frame) (status : UInt8) :
    Option Outcome :=
  if UserRuns m ∧ OnStack (entryBlock m.kernel) f then
    let r := halt isExecutable m.kernel f status
    some
      { machine := { kernel := r.kernel, stack := r.stack, faulted := unfault m.faulted r.stack }
        launch := r.launch
        halted := some (m.kernel.pcbs (currentPCB f.esp)).pid
        retval := r.retval }
  else none

/-- One step of the machine, with what it does to processes. `key` is an Alt+Fn press of
the keyboard handler, `pageFault` the fault of the running process in `page_handler`. -/
def outcome (isExecutable : List UInt8 → Bool) (m : Machine) : Event → Option Outcome
  | .tick f => stepTick isExecutable m f
  | .execute f command => stepExecute isExecutable m f command
  | .halt f status => stepHalt isExecutable m f status
  | .pageFault =>
    if UserRuns m then some
      { machine :=
          { kernel := { m.kernel with exceptionHalt := 1 }
            stack := entryBlock m.kernel
            faulted := Function.update m.faulted (entryBlock m.kernel) true }
        launch := none, halted := none, retval := none }
    else none
  | .key terminal =>
    if terminal < 3 then some
      { machine := { m with kernel := { m.kernel with activeTerminal := terminal } }
        launch := none, halted := none, retval := none }
    else none

def step (isExecutable : List UInt8 → Bool) (m : Machine) (e : Event) : Option Machine :=
  (outcome isExecutable m e).map Outcome.machine

/-- The machine when `entry` has enabled interrupts, over any contents of the memory where
the PCBs will be: `scheduler_init` has run, and `entry` is on the boot stack. -/
def boot (memory : Nat → PCB) : Machine where
  kernel :=
    { totalTasks := 1
      pidBitpattern := fun _ => 0
      currentTask := 0
      terminalCurrentPid := fun _ => 0
      activeTerminal := 3
      priorityListPid := fun _ => -1
      currentSchedule := -1
      scheduleStarted := 0
      pcbTerminal := 0
      exceptionHalt := 0
      pageDir := fun _ => 0
      tssSs0 := kernelDS
      tssEsp0 := 0x800000
      pcbs := memory }
  stack := pcbAddr 0
  faulted := fun _ => false

/-! ## Concrete runs -/

def zeroPCB : PCB where
  pid := 0
  processState := .started
  terminalId := 0
  sesp := 0
  sebp := 0
  kernelStack := 0
  kernelSS := 0
  kesp := 0
  kebp := 0
  nArg := 0
  args := fun _ => 0
  fileArray := fun _ => closedDescriptor
  parentAddr := 0

/-- A frame in the middle of the kernel stack of a process. -/
def frameOf (pid : Nat) : Frame where
  esp := pcbAddr pid + 4096
  ebp := pcbAddr pid + 4128
  pid := 0
  newPCB := zeroPCB

/-- The ticks that start the three base shells, each on the stack of the one before. -/
def startupTicks : List Event := [.tick (frameOf 0), .tick (frameOf 1), .tick (frameOf 2)]

/-- The command `"ls"`. -/
def lsCommand : List UInt8 := [108, 115]

/-- A filesystem whose programs are `shell` and `ls`. -/
def programs (name : List UInt8) : Bool := name == shellCommand || name == lsCommand

end LinuxBasedOS.Process
