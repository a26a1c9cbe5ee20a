import LinuxBasedOS.Process.Kernel

/-!
# execute, PCB_init and halt

The three functions of `system_calls.c` that create and end processes, with the parts of
the kernel they touch. Both `execute` and `halt` leave by changing stacks, so their results
say where the processor goes on: `Launch` is an `execute` that has entered the new process,
`HaltResult` a `halt` that has gone back into the frame of the `execute` that started the
process, or has restarted a base shell and does not return.

A `Frame` is what the function finds on the kernel stack it runs on: its stack and frame
pointers, and the previous contents of the locals `pid` and `newPCB` of `execute`, which it
does not set before use in every case. `isExecutable` is the answer of `is_executable` on
the filesystem, which no system call changes.
-/

namespace LinuxBasedOS.Process

open Word Lib Files

structure Frame where
  esp : Nat
  ebp : Nat
  pid : Nat
  newPCB : PCB

/-! ## PCB_init -/

/-- `for(i=0;i<7;i++) if (priority_list_pid[i]==pid) break;` -/
def slotOf (list : Nat → Int) (pid : Nat) : Option Nat :=
  (List.range 7).find? fun i => u32 (list i) == pid

/-- The search of `PCB_init` for a free slot from index `i`; `n` counts down as `j` counts
up to its limit. -/
def freeSlot (list : Nat → Int) : Nat → Nat → Option Nat
  | 0, _ => none
  | n + 1, i => if 0 < list i then freeSlot list n (if 6 < i + 1 then 0 else i + 1) else some i

/-- What `PCB_init` returns and writes: the PCB, the run queue and `current_schedule`. -/
structure InitResult where
  result : Int
  slot : Option Nat
  newPCB : PCB
  priorityListPid : Nat → Int
  currentSchedule : Int

/-- The fields `PCB_init` sets before it looks for a slot. -/
def pcbStart (k : Kernel) (newPCB : PCB) (pid : Nat) : PCB :=
  { newPCB with
    pid := pid
    processState := .started
    terminalId := k.activeTerminal
    parentAddr := -1
    fileArray := fun i => if 2 ≤ i ∧ i < 8 then closedDescriptor else newPCB.fileArray i }

/-- The end of `PCB_init`, with the slot it has chosen. -/
def pcbFinish (k : Kernel) (pcb : PCB) (pid slot : Nat) (args : List UInt8) : InitResult where
  result := 0
  slot := some slot
  newPCB := { pcb with
    args := strcpy pcb.args args
    fileArray := Function.update (Function.update pcb.fileArray 0 (standardDescriptor .keyboard))
      1 (standardDescriptor .terminal) }
  priorityListPid := Function.update k.priorityListPid slot (i32 pid)
  currentSchedule := slot

/-- `PCB_init`, run on the stack `esp`. The loop for the parent's slot ends at 7 when the
parent has none. -/
def pcbInit (k : Kernel) (esp : Nat) (newPCB : PCB) (pid : Nat) (args : List UInt8) :
    InitResult :=
  let pcb := pcbStart k newPCB pid
  if 3 < pid then
    let parent := k.pcbs (currentPCB esp)
    pcbFinish k { pcb with terminalId := parent.terminalId, parentAddr := i32 (currentPCB esp) }
      pid ((slotOf k.priorityListPid parent.pid).getD 7) args
  else
    match freeSlot k.priorityListPid 7 0 with
    | none =>
      { result := -1, slot := none, newPCB := pcb
        priorityListPid := k.priorityListPid, currentSchedule := k.currentSchedule }
    | some i => pcbFinish k pcb pid i args

/-! ## execute -/

/-- `' '` or `'\n'`. -/
def isSeparator (c : UInt8) : Bool := c == 32 || c == 10

/-- The command split as `execute` splits `k_command`: the program name, and the one word
kept as its arguments. -/
def parseCommand (command : List UInt8) : List UInt8 × List UInt8 :=
  let name := command.takeWhile fun c => !isSeparator c
  (name, ((command.drop name.length).drop 1).takeWhile fun c => !isSeparator c)

structure Launch where
  kernel : Kernel
  pid : Nat
  foundPid : Bool
  initResult : Int
  slot : Option Nat

/-- The search for a free pid: the index of the first clear bit. -/
def freePid (bits : Nat → Nat) : Option Nat := (List.range 7).find? fun i => bits i == 0

/-- The part of `execute` after `PCB_init`: store the PCB and enter the process. -/
def enterProcess (k : Kernel) (f : Frame) (pid : Nat) (init : InitResult) : Kernel :=
  { k with
    priorityListPid := init.priorityListPid
    currentSchedule := init.currentSchedule
    pcbs := Function.update k.pcbs (pcbAddr pid)
      { init.newPCB with
        kernelStack := kernelStackAddr pid
        kernelSS := kernelDS
        kesp := f.esp
        kebp := f.ebp
        processState := .running }
    tssSs0 := kernelDS
    tssEsp0 := kernelStackAddr pid
    currentTask := pid
    terminalCurrentPid := Function.update k.terminalCurrentPid k.activeTerminal pid }

/-- The launch of a process under a given pid. -/
def launchAs (k : Kernel) (f : Frame) (pid : Nat) (foundPid : Bool) (args : List UInt8) : Launch :=
  let paged := pageAllocate k (physicalPageAddr pid) cpIndex fourMBUserPage
  let init := pcbInit paged f.esp f.newPCB pid args
  { kernel := enterProcess paged f pid init, pid := pid, foundPid := foundPid
    initResult := init.result, slot := init.slot }

/-- `execute` after its checks: count the task, take a pid, set up the process. -/
def launch (k : Kernel) (f : Frame) (args : List UInt8) : Launch :=
  let counted := { k with totalTasks := u32 (k.totalTasks + 1) }
  match freePid k.pidBitpattern with
  | some i =>
    launchAs { counted with pidBitpattern := Function.update k.pidBitpattern i 1 } f (i + 1) true args
  | none =>
    -- the search has left `pid` as it was on the stack
    launchAs counted f f.pid false args

/-- `execute`; `none` is the return value -1, with the kernel unchanged. -/
def execute (isExecutable : List UInt8 → Bool) (k : Kernel) (f : Frame) (command : List UInt8) :
    Option Launch :=
  if strlen command < 1 then none
  else if 7 ≤ k.totalTasks then none
  else
    let parsed := parseCommand command
    if isExecutable parsed.1 then some (launch k f parsed.2) else none

/-- The command `"shell"`. -/
def shellCommand : List UInt8 := [115, 104, 101, 108, 108]

/-! ## halt -/

structure HaltResult where
  kernel : Kernel
  stack : Nat
  retval : Option Int
  launch : Option Launch

/-- The end of `halt`: the slot of the process goes to `current_task`, and the processor
returns into the frame that `execute` saved. -/
def haltReturn (k : Kernel) (current : PCB) (status : UInt8) : HaltResult :=
  let queued :=
    match slotOf k.priorityListPid current.pid with
    | none => k
    | some i =>
      { k with priorityListPid := Function.update k.priorityListPid i (i32 k.currentTask) }
  if k.exceptionHalt = 1 then
    { kernel := { queued with exceptionHalt := 0 }
      stack := currentPCB current.kebp, retval := some 256, launch := none }
  else
    { kernel := queued
      stack := currentPCB current.kebp, retval := some status.toNat, launch := none }

/-- `halt` up to the branch on the pid: one task less, and no open files. -/
def haltStart (k : Kernel) (addr : Nat) : Kernel :=
  setPCB { k with totalTasks := u32 (k.totalTasks - 1) } addr fun pcb =>
    { pcb with fileArray := fun i => if i < 8 then closedDescriptor else pcb.fileArray i }

/-- The branch of `halt` for a process with a parent. -/
def haltChild (k : Kernel) (current : PCB) (status : UInt8) : HaltResult :=
  let parent := k.pcbs (u32 current.parentAddr)
  let back := pageAllocate { k with tssSs0 := kernelDS, tssEsp0 := parent.kernelStack }
    (physicalPageAddr parent.pid) cpIndex fourMBUserPage
  haltReturn { back with currentTask := parent.pid } current status

/-- The branch of `halt` for a base shell: free its pid and start a shell again. -/
def haltShell (isExecutable : List UInt8 → Bool) (k : Kernel) (f : Frame) (current : PCB)
    (status : UInt8) : HaltResult :=
  let freed := { k with
    pidBitpattern := Function.update k.pidBitpattern (u32 ((current.pid : Int) - 1)) 0 }
  match execute isExecutable freed f shellCommand with
  | some l => { kernel := l.kernel, stack := pcbAddr l.pid, retval := none, launch := some l }
  | none => haltReturn freed current status

def halt (isExecutable : List UInt8 → Bool) (k : Kernel) (f : Frame) (status : UInt8) :
    HaltResult :=
  let addr := currentPCB f.esp
  let current := k.pcbs addr
  let cleared := haltStart k addr
  if 3 < current.pid then haltChild cleared current status
  else haltShell isExecutable cleared f current status

end LinuxBasedOS.Process
