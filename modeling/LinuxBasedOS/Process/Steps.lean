import LinuxBasedOS.Process.Machine

/-!
# What one step of the machine can do

One lemma for each search loop, small lemmas for each function of the process layer, and
`Happens`, the list of everything that a step of the machine can be. The invariants of the
following modules are case analyses of `Happens`; none of them unfolds a function of the
kernel.
-/

namespace LinuxBasedOS.Process

open Word Lib Files

/-! ## Searches -/

theorem slotOf_eq_some {list : Nat → Int} {pid i : Nat} (h : slotOf list pid = some i) :
    i < 7 ∧ u32 (list i) = pid ∧ ∀ j < i, u32 (list j) ≠ pid := by
  obtain ⟨hi, hmem, hbefore⟩ := List.find?_range_eq_some.mp h
  refine ⟨List.mem_range.mp hmem, by simpa using hi, fun j hj => by simpa using hbefore j hj⟩

theorem slotOf_ne_none {list : Nat → Int} {pid i : Nat} (hi : i < 7) (h : u32 (list i) = pid) :
    slotOf list pid ≠ none := by
  intro hnone
  have := List.find?_range_eq_none.mp hnone i hi
  simp [h] at this

theorem freeSlot_spec {list : Nat → Int} {n i j : Nat} (hi : i < 7)
    (h : freeSlot list n i = some j) : j < 7 ∧ list j ≤ 0 := by
  induction n generalizing i with
  | zero => cases h
  | succ n ih =>
    unfold freeSlot at h
    split at h
    · refine ih ?_ h
      split <;> omega
    · rename_i hpos
      cases h
      exact ⟨hi, by omega⟩

theorem slotSearch_spec {list : Nat → Int} {n i j : Nat} (hi : i < 7)
    (h : slotSearch list n i = some j) : j < 7 ∧ 0 ≤ list j := by
  induction n generalizing i with
  | zero => cases h
  | succ n ih =>
    unfold slotSearch at h
    split at h
    · refine ih ?_ h
      split <;> omega
    · rename_i hneg
      cases h
      exact ⟨hi, by omega⟩

theorem plannedSchedule_lt (k : Kernel) : plannedSchedule k < 7 := by
  unfold plannedSchedule
  have h := Int.tmod_lt_of_pos (k.currentSchedule + 1) (show (0 : Int) < 7 by omega)
  omega

theorem freePid_eq_some {bits : Nat → Nat} {i : Nat} :
    freePid bits = some i ↔ i < 7 ∧ bits i = 0 ∧ ∀ j < i, bits j ≠ 0 := by
  unfold freePid
  rw [List.find?_range_eq_some]
  simp only [beq_iff_eq, List.mem_range, Bool.not_eq_eq_eq_not, Bool.not_true, beq_eq_false_iff_ne]
  exact ⟨fun ⟨h1, h2, h3⟩ => ⟨h2, h1, h3⟩, fun ⟨h1, h2, h3⟩ => ⟨h2, h1, h3⟩⟩

/-! ## The pids given out -/

/-- The first `n` bits are set. -/
def BitsUpTo (bits : Nat → Nat) (n : Nat) : Prop := ∀ i < 7, bits i = if i < n then 1 else 0

theorem BitsUpTo.freePid {bits : Nat → Nat} {n : Nat} (h : BitsUpTo bits n) (hn : n < 7) :
    freePid bits = some n := by
  refine freePid_eq_some.mpr ⟨hn, ?_, fun j hj => ?_⟩
  · rw [h n hn, if_neg (by omega)]
  · rw [h j (by omega), if_pos hj]
    omega

theorem BitsUpTo.freePid_none {bits : Nat → Nat} {n : Nat} (h : BitsUpTo bits n) (hn : 7 ≤ n) :
    Process.freePid bits = none := by
  refine List.find?_range_eq_none.mpr fun j hj => ?_
  rw [h j hj, if_pos (by omega)]
  rfl

theorem BitsUpTo.take {bits : Nat → Nat} {n : Nat} (h : BitsUpTo bits n) :
    BitsUpTo (Function.update bits n 1) (n + 1) := by
  intro i hi
  by_cases hin : i = n
  · rw [hin, Function.update_self, if_pos (by omega)]
  · rw [Function.update_of_ne hin, h i hi]
    by_cases hlt : i < n
    · rw [if_pos hlt, if_pos (by omega)]
    · rw [if_neg hlt, if_neg (by omega)]

/-- A pid that is given back is the next one to be given out. -/
theorem BitsUpTo.freePid_release {bits : Nat → Nat} {n p : Nat} (h : BitsUpTo bits n)
    (hn : n ≤ 7) (hp : 1 ≤ p) (hpn : p ≤ n) :
    Process.freePid (Function.update bits (p - 1) 0) = some (p - 1) := by
  refine freePid_eq_some.mpr ⟨by omega, Function.update_self _ _ _, fun j hj => ?_⟩
  rw [Function.update_of_ne (by omega), h j (by omega), if_pos (by omega)]
  omega

theorem BitsUpTo.retake {bits : Nat → Nat} {n p : Nat} (h : BitsUpTo bits n) (hp : 1 ≤ p)
    (hpn : p ≤ n) :
    BitsUpTo (Function.update (Function.update bits (p - 1) 0) (p - 1) 1) n := by
  intro i hi
  rw [Function.update_idem]
  by_cases hip : i = p - 1
  · rw [hip, Function.update_self, if_pos (by omega)]
  · rw [Function.update_of_ne hip]
    exact h i hi

/-! ## PCBs -/

/-- The fields of a PCB that the scheduler and the start of `halt` do not write. -/
structure SameProcess (p q : PCB) : Prop where
  pid : p.pid = q.pid
  terminalId : p.terminalId = q.terminalId
  kernelStack : p.kernelStack = q.kernelStack
  kebp : p.kebp = q.kebp
  parentAddr : p.parentAddr = q.parentAddr

theorem SameProcess.refl (p : PCB) : SameProcess p p := ⟨rfl, rfl, rfl, rfl, rfl⟩

theorem SameProcess.trans {p q r : PCB} (h₁ : SameProcess p q) (h₂ : SameProcess q r) :
    SameProcess p r :=
  ⟨h₁.pid.trans h₂.pid, h₁.terminalId.trans h₂.terminalId, h₁.kernelStack.trans h₂.kernelStack,
    h₁.kebp.trans h₂.kebp, h₁.parentAddr.trans h₂.parentAddr⟩

theorem setPCB_sameProcess {k : Kernel} {addr : Nat} {g : PCB → PCB}
    (hg : ∀ p, SameProcess (g p) p) (a : Nat) :
    SameProcess ((setPCB k addr g).pcbs a) (k.pcbs a) := by
  rw [setPCB_pcbs]
  split
  · rename_i ha
    rw [ha]
    exact hg _
  · exact SameProcess.refl _

theorem haltStart_sameProcess (k : Kernel) (addr a : Nat) :
    SameProcess ((haltStart k addr).pcbs a) (k.pcbs a) := by
  refine setPCB_sameProcess (fun p => ?_) a
  exact ⟨rfl, rfl, rfl, rfl, rfl⟩

/-! ## Launching -/

theorem execute_eq_some {isExecutable : List UInt8 → Bool} {k : Kernel} {f : Frame}
    {command : List UInt8} {l : Launch} (h : execute isExecutable k f command = some l) :
    k.totalTasks < 7 ∧ isExecutable (parseCommand command).1 = true ∧
      l = launch k f (parseCommand command).2 := by
  unfold execute at h
  split at h
  · cases h
  · split at h
    · cases h
    · dsimp only at h
      split at h
      · rename_i htasks hexec
        cases h
        exact ⟨by omega, hexec, rfl⟩
      · cases h

theorem execute_shell {isExecutable : List UInt8 → Bool} {k : Kernel} (f : Frame)
    (htasks : k.totalTasks < 7) (hshell : isExecutable (parseCommand shellCommand).1 = true) :
    execute isExecutable k f shellCommand = some (launch k f (parseCommand shellCommand).2) := by
  have hlen : ¬ strlen shellCommand < 1 := by decide
  rw [execute, if_neg hlen, if_neg (by omega)]
  simp only [hshell, if_true]

/-- The kernel when `execute` has counted the task and taken the pid `i + 1`. -/
def taken (k : Kernel) (i : Nat) : Kernel :=
  { k with
    totalTasks := u32 (k.totalTasks + 1)
    pidBitpattern := Function.update k.pidBitpattern i 1 }

theorem launch_of_freePid {k : Kernel} {f : Frame} {args : List UInt8} {i : Nat}
    (h : freePid k.pidBitpattern = some i) :
    launch k f args = launchAs (taken k i) f (i + 1) true args := by
  simp only [launch, h]
  rfl

theorem taken_totalTasks {k : Kernel} {i : Nat} (h : k.totalTasks < 7) :
    (taken k i).totalTasks = k.totalTasks + 1 := by
  show u32 ((k.totalTasks : Int) + 1) = _
  unfold u32
  omega

section LaunchAs

variable (k : Kernel) (f : Frame) (pid : Nat) (foundPid : Bool) (args : List UInt8)

@[simp] theorem launchAs_tssEsp0 :
    (launchAs k f pid foundPid args).kernel.tssEsp0 = kernelStackAddr pid := rfl

@[simp] theorem launchAs_pid : (launchAs k f pid foundPid args).pid = pid := rfl

@[simp] theorem launchAs_foundPid : (launchAs k f pid foundPid args).foundPid = foundPid := rfl

theorem launchAs_pageDir :
    (launchAs k f pid foundPid args).kernel.pageDir cpIndex = pageEntry pid := by
  simp [launchAs, enterProcess, pageAllocate, pageEntry]

theorem launchAs_pcbs_of_ne {a : Nat} (h : a ≠ pcbAddr pid) :
    (launchAs k f pid foundPid args).kernel.pcbs a = k.pcbs a := by
  simp [launchAs, enterProcess, pageAllocate, h]

theorem pcbInit_pid (esp : Nat) (newPCB : PCB) : (pcbInit k esp newPCB pid args).newPCB.pid = pid := by
  unfold pcbInit
  dsimp only
  split
  · rfl
  · split <;> rfl

theorem launchAs_pcb_pid :
    ((launchAs k f pid foundPid args).kernel.pcbs (pcbAddr pid)).pid = pid := by
  simp [launchAs, enterProcess, pcbInit_pid]

theorem launchAs_pcb_kernelStack :
    ((launchAs k f pid foundPid args).kernel.pcbs (pcbAddr pid)).kernelStack =
      kernelStackAddr pid := by
  simp [launchAs, enterProcess]

theorem launchAs_pcb_kebp :
    ((launchAs k f pid foundPid args).kernel.pcbs (pcbAddr pid)).kebp = f.ebp := by
  simp [launchAs, enterProcess]

/-- A base shell gets the terminal that is active, and no parent. -/
theorem launchAs_pcb_base (h : pid ≤ 3) :
    ((launchAs k f pid foundPid args).kernel.pcbs (pcbAddr pid)).terminalId = k.activeTerminal ∧
      ((launchAs k f pid foundPid args).kernel.pcbs (pcbAddr pid)).parentAddr = -1 := by
  have hpid : ¬ 3 < pid := by omega
  simp only [launchAs, enterProcess, pcbInit, if_neg hpid, Function.update_self]
  split
  · exact ⟨rfl, rfl⟩
  · exact ⟨rfl, rfl⟩

/-- A child gets the terminal of the process on whose stack `execute` runs. -/
theorem launchAs_pcb_child_terminalId (h : 3 < pid) :
    ((launchAs k f pid foundPid args).kernel.pcbs (pcbAddr pid)).terminalId =
      (k.pcbs (currentPCB f.esp)).terminalId := by
  simp [launchAs, enterProcess, pcbInit, pcbFinish, pageAllocate, h]

/-- The run queue after a launch: unchanged when `PCB_init` fails, else the pid stands in
the slot that `PCB_init` has chosen. -/
theorem launchAs_queue :
    (launchAs k f pid foundPid args).kernel.priorityListPid = k.priorityListPid ∨
      ∃ slot, (launchAs k f pid foundPid args).kernel.priorityListPid =
        Function.update k.priorityListPid slot (i32 pid) := by
  show (pcbInit (pageAllocate k _ _ _) f.esp f.newPCB pid args).priorityListPid = _ ∨ ∃ slot,
    (pcbInit (pageAllocate k _ _ _) f.esp f.newPCB pid args).priorityListPid = _
  unfold pcbInit
  dsimp only
  split
  · exact Or.inr ⟨_, rfl⟩
  · split
    · exact Or.inl rfl
    · exact Or.inr ⟨_, rfl⟩

/-- A child takes the slot of its parent; with no such slot it takes the place after the
queue. -/
theorem launchAs_child (h : 3 < pid) {slot : Nat}
    (hslot : (slotOf k.priorityListPid (k.pcbs (currentPCB f.esp)).pid).getD 7 = slot) :
    (launchAs k f pid foundPid args).initResult = 0 ∧
      (launchAs k f pid foundPid args).slot = some slot ∧
      (launchAs k f pid foundPid args).kernel.priorityListPid =
        Function.update k.priorityListPid slot (i32 pid) ∧
      (launchAs k f pid foundPid args).kernel.currentSchedule = slot ∧
      ((launchAs k f pid foundPid args).kernel.pcbs (pcbAddr pid)).parentAddr =
        i32 (currentPCB f.esp) := by
  subst hslot
  simp [launchAs, enterProcess, pcbInit, pcbFinish, pageAllocate, h]

/-- A base shell takes the first free slot. -/
theorem launchAs_base (h : pid ≤ 3) (hok : (launchAs k f pid foundPid args).initResult = 0) :
    ∃ slot, freeSlot k.priorityListPid 7 0 = some slot ∧
      (launchAs k f pid foundPid args).slot = some slot ∧
      (launchAs k f pid foundPid args).kernel.priorityListPid =
        Function.update k.priorityListPid slot (i32 pid) ∧
      (launchAs k f pid foundPid args).kernel.currentSchedule = slot := by
  have hpid : ¬ 3 < pid := by omega
  cases hslot : freeSlot k.priorityListPid 7 0 with
  | none =>
    simp [launchAs, pcbInit, pageAllocate, hpid, hslot] at hok
  | some slot =>
    refine ⟨slot, rfl, ?_⟩
    simp [launchAs, enterProcess, pcbInit, pcbFinish, pageAllocate, hpid, hslot]

theorem launchAs_initResult_base (h : pid ≤ 3) {slot : Nat}
    (hslot : freeSlot k.priorityListPid 7 0 = some slot) :
    (launchAs k f pid foundPid args).initResult = 0 := by
  have hpid : ¬ 3 < pid := by omega
  simp [launchAs, pcbInit, pcbFinish, pageAllocate, hpid, hslot]

/-- With no free slot a base shell runs without one. -/
theorem launchAs_full (h : pid ≤ 3) (hfull : freeSlot k.priorityListPid 7 0 = none) :
    (launchAs k f pid foundPid args).kernel.priorityListPid = k.priorityListPid ∧
      (launchAs k f pid foundPid args).kernel.currentSchedule = k.currentSchedule := by
  have hpid : ¬ 3 < pid := by omega
  simp [launchAs, enterProcess, pcbInit, pageAllocate, hpid, hfull]

end LaunchAs

theorem launch_totalTasks (k : Kernel) (f : Frame) (args : List UInt8) :
    (launch k f args).kernel.totalTasks = u32 (k.totalTasks + 1) := by
  unfold launch
  dsimp only
  split <;> rfl

theorem launch_scheduleStarted (k : Kernel) (f : Frame) (args : List UInt8) :
    (launch k f args).kernel.scheduleStarted = k.scheduleStarted := by
  unfold launch
  dsimp only
  split <;> rfl

theorem launch_activeTerminal (k : Kernel) (f : Frame) (args : List UInt8) :
    (launch k f args).kernel.activeTerminal = k.activeTerminal := by
  unfold launch
  dsimp only
  split <;> rfl

theorem launch_pcbTerminal (k : Kernel) (f : Frame) (args : List UInt8) :
    (launch k f args).kernel.pcbTerminal = k.pcbTerminal := by
  unfold launch
  dsimp only
  split <;> rfl

/-- The checks that an `execute` which launches a process has passed. -/
theorem execute_checks {isExecutable : List UInt8 → Bool} {k : Kernel} {f : Frame}
    {command : List UInt8} {l : Launch} (hl : execute isExecutable k f command = some l) :
    1 ≤ strlen command ∧ k.totalTasks < 7 ∧ isExecutable (parseCommand command).1 = true := by
  have hlen : 1 ≤ strlen command := by
    by_contra hshort
    rw [execute, if_pos (by omega)] at hl
    cases hl
  obtain ⟨htasks, hexec, _⟩ := execute_eq_some hl
  exact ⟨hlen, htasks, hexec⟩

theorem foundPid_of_free {isExecutable : List UInt8 → Bool} {k : Kernel} {f : Frame}
    {command : List UInt8} {l : Launch} (hl : execute isExecutable k f command = some l)
    (hfree : 1 ≤ strlen command ∧ k.totalTasks < 7 ∧ isExecutable (parseCommand command).1 = true →
      ∃ i < 7, k.pidBitpattern i = 0) : l.foundPid = true := by
  obtain ⟨i, hi, hbit⟩ := hfree (execute_checks hl)
  obtain ⟨_, _, rfl⟩ := execute_eq_some hl
  cases hpid : freePid k.pidBitpattern with
  | none =>
    have := List.find?_range_eq_none.mp hpid i hi
    simp [hbit] at this
  | some j => rw [launch_of_freePid hpid, launchAs_foundPid]

/-! ## Switching -/

section SwitchTo

variable (k : Kernel) (addr i : Nat)

@[simp] theorem switchTo_tssEsp0 :
    (switchTo k addr i).kernel.tssEsp0 = kernelStackAddr (k.priorityListPid i) := rfl

@[simp] theorem switchTo_currentSchedule :
    (switchTo k addr i).kernel.currentSchedule = i := rfl

@[simp] theorem switchTo_activeTerminal :
    (switchTo k addr i).kernel.activeTerminal = k.activeTerminal := rfl

@[simp] theorem switchTo_scheduleStarted :
    (switchTo k addr i).kernel.scheduleStarted = k.scheduleStarted := rfl

@[simp] theorem switchTo_pidBitpattern :
    (switchTo k addr i).kernel.pidBitpattern = k.pidBitpattern := rfl

@[simp] theorem switchTo_priorityListPid :
    (switchTo k addr i).kernel.priorityListPid = k.priorityListPid := rfl

@[simp] theorem switchTo_exceptionHalt :
    (switchTo k addr i).kernel.exceptionHalt = k.exceptionHalt := rfl

@[simp] theorem switchTo_totalTasks : (switchTo k addr i).kernel.totalTasks = k.totalTasks := rfl

@[simp] theorem switchTo_pcbTerminal :
    (switchTo k addr i).kernel.pcbTerminal = (k.pcbs addr).terminalId := rfl

/-- The switch leaves the saved stack pointers alone, and goes to the one of the next process. -/
theorem switchTo_sesp (a : Nat) : ((switchTo k addr i).kernel.pcbs a).sesp = (k.pcbs a).sesp := by
  have hset : ∀ (k' : Kernel) (b : Nat) (st : ProcessState),
      ((setPCB k' b fun pcb => { pcb with processState := st }).pcbs a).sesp =
        (k'.pcbs a).sesp := by
    intro k' b st
    rw [setPCB_pcbs]
    split
    · rename_i hab
      rw [hab]
    · rfl
  exact (hset _ _ _).trans (hset _ _ _)

theorem switchTo_stack :
    (switchTo k addr i).stack = currentPCB (k.pcbs (pcbAddr (k.priorityListPid i))).sesp :=
  congrArg currentPCB (switchTo_sesp k addr i _)

theorem switchTo_pageDir :
    (switchTo k addr i).kernel.pageDir cpIndex = pageEntry (k.priorityListPid i) := by
  simp [switchTo, setPCB, pageAllocate, pageEntry]

theorem switchTo_sameProcess (a : Nat) :
    SameProcess ((switchTo k addr i).kernel.pcbs a) (k.pcbs a) := by
  have hstate : ∀ (s : ProcessState) (p : PCB), SameProcess { p with processState := s } p :=
    fun _ _ => ⟨rfl, rfl, rfl, rfl, rfl⟩
  exact (setPCB_sameProcess (hstate .running) a).trans (setPCB_sameProcess (hstate .waiting) a)

end SwitchTo

/-- `switch_tasks` has saved the stack pointer of the process it interrupts. -/
def saveStack (k : Kernel) (f : Frame) : Kernel :=
  setPCB k (currentPCB f.esp) fun pcb => { pcb with sesp := f.esp, sebp := f.ebp }

@[simp] theorem saveStack_activeTerminal (k : Kernel) (f : Frame) :
    (saveStack k f).activeTerminal = k.activeTerminal := rfl

@[simp] theorem saveStack_scheduleStarted (k : Kernel) (f : Frame) :
    (saveStack k f).scheduleStarted = k.scheduleStarted := rfl

@[simp] theorem saveStack_totalTasks (k : Kernel) (f : Frame) :
    (saveStack k f).totalTasks = k.totalTasks := rfl

@[simp] theorem saveStack_pidBitpattern (k : Kernel) (f : Frame) :
    (saveStack k f).pidBitpattern = k.pidBitpattern := rfl

@[simp] theorem saveStack_priorityListPid (k : Kernel) (f : Frame) :
    (saveStack k f).priorityListPid = k.priorityListPid := rfl

@[simp] theorem saveStack_exceptionHalt (k : Kernel) (f : Frame) :
    (saveStack k f).exceptionHalt = k.exceptionHalt := rfl

theorem saveStack_sesp (k : Kernel) (f : Frame) (a : Nat) :
    ((saveStack k f).pcbs a).sesp = if a = currentPCB f.esp then f.esp else (k.pcbs a).sesp := by
  rw [saveStack, setPCB_pcbs]
  split <;> rfl

theorem saveStack_sameProcess (k : Kernel) (f : Frame) (a : Nat) :
    SameProcess ((saveStack k f).pcbs a) (k.pcbs a) := by
  refine setPCB_sameProcess (fun p => ?_) a
  exact ⟨rfl, rfl, rfl, rfl, rfl⟩

/-- A task switch leaves every PCB to its process. -/
theorem switch_sameProcess (k : Kernel) (f : Frame) (i a : Nat) :
    SameProcess ((switchTo (saveStack k f) (currentPCB f.esp) i).kernel.pcbs a) (k.pcbs a) :=
  (switchTo_sameProcess _ _ _ a).trans (saveStack_sameProcess k f a)

/-- The kernel on which a startup tick calls `execute`. -/
def startupKernel (k : Kernel) (f : Frame) : Kernel :=
  let counted := { saveStack k f with activeTerminal := u32 ((k.activeTerminal : Int) - 1) }
  if counted.activeTerminal = 0 then { counted with scheduleStarted := 1 } else counted

/-- The kernel on which `halt` of a base shell calls `execute`. -/
def restartKernel (k : Kernel) (f : Frame) : Kernel :=
  let cleared := haltStart k (currentPCB f.esp)
  { cleared with
    pidBitpattern := Function.update k.pidBitpattern
      (u32 (((k.pcbs (currentPCB f.esp)).pid : Int) - 1)) 0 }

section StartupKernel

variable (k : Kernel) (f : Frame)

theorem startupKernel_activeTerminal :
    (startupKernel k f).activeTerminal = u32 ((k.activeTerminal : Int) - 1) := by
  unfold startupKernel
  dsimp only
  split <;> rfl

theorem startupKernel_scheduleStarted :
    (startupKernel k f).scheduleStarted =
      if u32 ((k.activeTerminal : Int) - 1) = 0 then 1 else k.scheduleStarted := by
  unfold startupKernel
  dsimp only
  split <;> rfl

theorem startupKernel_eq : ∃ terminal started,
    startupKernel k f =
      { saveStack k f with activeTerminal := terminal, scheduleStarted := started } := by
  unfold startupKernel
  dsimp only
  split
  · exact ⟨_, _, rfl⟩
  · exact ⟨_, _, rfl⟩

@[simp] theorem startupKernel_totalTasks : (startupKernel k f).totalTasks = k.totalTasks := by
  obtain ⟨t, s, h⟩ := startupKernel_eq k f
  rw [h]
  rfl

@[simp] theorem startupKernel_pidBitpattern :
    (startupKernel k f).pidBitpattern = k.pidBitpattern := by
  obtain ⟨t, s, h⟩ := startupKernel_eq k f
  rw [h]
  rfl

@[simp] theorem startupKernel_priorityListPid :
    (startupKernel k f).priorityListPid = k.priorityListPid := by
  obtain ⟨t, s, h⟩ := startupKernel_eq k f
  rw [h]
  rfl

theorem startupKernel_pcbs : (startupKernel k f).pcbs = (saveStack k f).pcbs := by
  obtain ⟨t, s, h⟩ := startupKernel_eq k f
  rw [h]

theorem startupKernel_pcbTerminal : (startupKernel k f).pcbTerminal = k.pcbTerminal := by
  obtain ⟨t, s, h⟩ := startupKernel_eq k f
  rw [h]
  rfl

theorem startupKernel_exceptionHalt : (startupKernel k f).exceptionHalt = k.exceptionHalt := by
  obtain ⟨t, s, h⟩ := startupKernel_eq k f
  rw [h]
  rfl

@[simp] theorem startupKernel_tssEsp0 : (startupKernel k f).tssEsp0 = k.tssEsp0 := by
  obtain ⟨t, s, h⟩ := startupKernel_eq k f
  rw [h]
  rfl

@[simp] theorem startupKernel_currentSchedule :
    (startupKernel k f).currentSchedule = k.currentSchedule := by
  obtain ⟨t, s, h⟩ := startupKernel_eq k f
  rw [h]
  rfl

@[simp] theorem startupKernel_pageDir : (startupKernel k f).pageDir = k.pageDir := by
  obtain ⟨t, s, h⟩ := startupKernel_eq k f
  rw [h]
  rfl

theorem startupKernel_sameProcess (a : Nat) :
    SameProcess ((startupKernel k f).pcbs a) (k.pcbs a) := by
  obtain ⟨t, s, h⟩ := startupKernel_eq k f
  rw [h]
  exact saveStack_sameProcess k f a

end StartupKernel

theorem restartKernel_pidBitpattern {k : Kernel} {f : Frame} {p : Nat}
    (h : (k.pcbs (currentPCB f.esp)).pid = p) (h1 : 1 ≤ p) (h7 : p ≤ 7) :
    (restartKernel k f).pidBitpattern = Function.update k.pidBitpattern (p - 1) 0 := by
  have hbit : u32 ((p : Int) - 1) = p - 1 := by
    unfold u32
    omega
  unfold restartKernel
  dsimp only
  rw [h, hbit]

theorem restartKernel_totalTasks {k : Kernel} {f : Frame} (h1 : 1 ≤ k.totalTasks)
    (h7 : k.totalTasks ≤ 7) : (restartKernel k f).totalTasks = k.totalTasks - 1 := by
  show u32 ((k.totalTasks : Int) - 1) = _
  unfold u32
  omega

theorem i32_of_pid {p : Nat} (h : p ≤ 7) : i32 p = p := by
  refine i32_of_range ?_ ?_ <;> omega

theorem pcbAddr_ne {p q : Nat} (hp : p ≤ 7) (hq : q ≤ 7) (h : p ≠ q) : pcbAddr p ≠ pcbAddr q := by
  intro heq
  exact h ((pcbAddr_inj (by omega) (by omega)).mp heq)

theorem restartKernel_sameProcess (k : Kernel) (f : Frame) (a : Nat) :
    SameProcess ((restartKernel k f).pcbs a) (k.pcbs a) :=
  haltStart_sameProcess k (currentPCB f.esp) a

/-! ## Halting -/

/-- The kernel that `halt` of a child leaves, up to the exception flag. -/
def childExitKernel (k : Kernel) (f : Frame) : Kernel :=
  let current := k.pcbs (currentPCB f.esp)
  let cleared := haltStart k (currentPCB f.esp)
  let parent := cleared.pcbs (u32 current.parentAddr)
  let back := pageAllocate { cleared with tssSs0 := kernelDS, tssEsp0 := parent.kernelStack }
    (physicalPageAddr parent.pid) cpIndex fourMBUserPage
  { back with
    currentTask := parent.pid
    exceptionHalt := if k.exceptionHalt = 1 then 0 else k.exceptionHalt
    priorityListPid := match slotOf k.priorityListPid current.pid with
      | none => k.priorityListPid
      | some i => Function.update k.priorityListPid i (i32 parent.pid) }

/-- The value that `halt` of a child hands to the `execute` of its parent. -/
def exitValue (k : Kernel) (status : UInt8) : Int :=
  if k.exceptionHalt = 1 then 256 else status.toNat

theorem halt_child {isExecutable : List UInt8 → Bool} {k : Kernel} {f : Frame} {status : UInt8}
    (h : 3 < (k.pcbs (currentPCB f.esp)).pid) :
    halt isExecutable k f status =
      { kernel := childExitKernel k f
        stack := currentPCB (k.pcbs (currentPCB f.esp)).kebp
        retval := some (exitValue k status)
        launch := none } := by
  have hexc : (haltStart k (currentPCB f.esp)).exceptionHalt = k.exceptionHalt := rfl
  have hqueue : (haltStart k (currentPCB f.esp)).priorityListPid = k.priorityListPid := rfl
  simp only [halt, if_pos h, haltChild, haltReturn, childExitKernel, exitValue, pageAllocate, hexc,
    hqueue]
  cases slotOf k.priorityListPid (k.pcbs (currentPCB f.esp)).pid with
  | none => by_cases hone : k.exceptionHalt = 1 <;> simp [hone]
  | some i => by_cases hone : k.exceptionHalt = 1 <;> simp [hone]

theorem halt_shell {isExecutable : List UInt8 → Bool} {k : Kernel} {f : Frame} {status : UInt8}
    (h : ¬ 3 < (k.pcbs (currentPCB f.esp)).pid) :
    halt isExecutable k f status =
      match execute isExecutable (restartKernel k f) f shellCommand with
      | some l => { kernel := l.kernel, stack := pcbAddr l.pid, retval := none, launch := some l }
      | none => haltReturn (restartKernel k f) (k.pcbs (currentPCB f.esp)) status := by
  simp only [halt, if_neg h, haltShell]
  rfl

@[simp] theorem haltReturn_launch (k : Kernel) (current : PCB) (status : UInt8) :
    (haltReturn k current status).launch = none := by
  unfold haltReturn
  dsimp only
  split <;> rfl

theorem childExitKernel_sameProcess (k : Kernel) (f : Frame) (a : Nat) :
    SameProcess ((childExitKernel k f).pcbs a) (k.pcbs a) :=
  haltStart_sameProcess k (currentPCB f.esp) a

section ChildExitKernel

variable {k : Kernel} {f : Frame} {parent : PCB}
  (hparent : k.pcbs (u32 (k.pcbs (currentPCB f.esp)).parentAddr) = parent)

include hparent

theorem childExitKernel_tssEsp0 : (childExitKernel k f).tssEsp0 = parent.kernelStack := by
  have hsame := haltStart_sameProcess k (currentPCB f.esp) (u32 (k.pcbs (currentPCB f.esp)).parentAddr)
  rw [hparent] at hsame
  exact hsame.kernelStack

theorem childExitKernel_pageDir : (childExitKernel k f).pageDir cpIndex = pageEntry parent.pid := by
  have hsame := haltStart_sameProcess k (currentPCB f.esp) (u32 (k.pcbs (currentPCB f.esp)).parentAddr)
  rw [hparent] at hsame
  simp [childExitKernel, pageAllocate, pageEntry, hsame.pid]

theorem childExitKernel_queue :
    (childExitKernel k f).priorityListPid =
      match slotOf k.priorityListPid (k.pcbs (currentPCB f.esp)).pid with
      | none => k.priorityListPid
      | some i => Function.update k.priorityListPid i (i32 parent.pid) := by
  have hsame := haltStart_sameProcess k (currentPCB f.esp) (u32 (k.pcbs (currentPCB f.esp)).parentAddr)
  rw [hparent] at hsame
  simp only [childExitKernel, hsame.pid]

end ChildExitKernel

/-! ## The machine -/

/-- The stack that a tick runs on: that of the running process, or the one in use. -/
def OnTick (m : Machine) (f : Frame) : Prop := OnStack (entryBlock m.kernel) f ∨ OnStack m.stack f

/-- A system call of the running process. -/
def OnSyscall (m : Machine) (f : Frame) : Prop := UserRuns m ∧ OnStack (entryBlock m.kernel) f

/-- What a launch leaves: the new process runs on its own stack. -/
def launched (m : Machine) (l : Launch) (halted : Option Nat) : Outcome where
  machine :=
    { kernel := l.kernel, stack := pcbAddr l.pid, faulted := unfault m.faulted (pcbAddr l.pid) }
  launch := some l
  halted := halted
  retval := none

/-- Everything that one step of the machine can be. -/
inductive Happens (isExecutable : List UInt8 → Bool) (m : Machine) : Event → Outcome → Prop where
  | switch {f : Frame} {i : Nat} (hf : OnTick m f) (hstarted : m.kernel.scheduleStarted = 1)
      (hslot : slotSearch m.kernel.priorityListPid 7 (plannedSchedule m.kernel) = some i) :
      Happens isExecutable m (.tick f)
        { machine :=
            { kernel := (switchTo (saveStack m.kernel f) (currentPCB f.esp) i).kernel
              stack := (switchTo (saveStack m.kernel f) (currentPCB f.esp) i).stack
              faulted := m.faulted }
          launch := none, halted := none, retval := none }
  | startup {f : Frame} {l : Launch} (hf : OnTick m f) (hstarted : m.kernel.scheduleStarted ≠ 1)
      (hl : execute isExecutable (startupKernel m.kernel f) f shellCommand = some l) :
      Happens isExecutable m (.tick f) (launched m l none)
  | startupRefused {f : Frame} (hf : OnTick m f) (hstarted : m.kernel.scheduleStarted ≠ 1)
      (hl : execute isExecutable (startupKernel m.kernel f) f shellCommand = none) :
      Happens isExecutable m (.tick f)
        { machine :=
            { kernel := startupKernel m.kernel f, stack := currentPCB f.esp, faulted := m.faulted }
          launch := none, halted := none, retval := none }
  | executed {f : Frame} {command : List UInt8} {l : Launch} (hf : OnSyscall m f)
      (hl : execute isExecutable m.kernel f command = some l) :
      Happens isExecutable m (.execute f command) (launched m l none)
  | refused {f : Frame} {command : List UInt8} (hf : OnSyscall m f)
      (hl : execute isExecutable m.kernel f command = none) :
      Happens isExecutable m (.execute f command)
        { machine := { m with stack := entryBlock m.kernel }
          launch := none, halted := none, retval := some (-1) }
  | childExit {f : Frame} {status : UInt8} (hf : OnSyscall m f)
      (hpid : 3 < (m.kernel.pcbs (currentPCB f.esp)).pid) :
      Happens isExecutable m (.halt f status)
        { machine :=
            { kernel := childExitKernel m.kernel f
              stack := currentPCB (m.kernel.pcbs (currentPCB f.esp)).kebp
              faulted :=
                unfault m.faulted (currentPCB (m.kernel.pcbs (currentPCB f.esp)).kebp) }
          launch := none
          halted := some (m.kernel.pcbs (currentPCB f.esp)).pid
          retval := some (exitValue m.kernel status) }
  | restart {f : Frame} {status : UInt8} {l : Launch} (hf : OnSyscall m f)
      (hpid : ¬ 3 < (m.kernel.pcbs (currentPCB f.esp)).pid)
      (hl : execute isExecutable (restartKernel m.kernel f) f shellCommand = some l) :
      Happens isExecutable m (.halt f status)
        (launched m l (some (m.kernel.pcbs (currentPCB f.esp)).pid))
  | shellExit {f : Frame} {status : UInt8} {r : HaltResult} (hf : OnSyscall m f)
      (hpid : ¬ 3 < (m.kernel.pcbs (currentPCB f.esp)).pid)
      (hl : execute isExecutable (restartKernel m.kernel f) f shellCommand = none)
      (hr : haltReturn (restartKernel m.kernel f) (m.kernel.pcbs (currentPCB f.esp)) status = r) :
      Happens isExecutable m (.halt f status)
        { machine :=
            { kernel := r.kernel, stack := r.stack, faulted := unfault m.faulted r.stack }
          launch := r.launch
          halted := some (m.kernel.pcbs (currentPCB f.esp)).pid
          retval := r.retval }
  | fault (hm : UserRuns m) :
      Happens isExecutable m .pageFault
        { machine :=
            { kernel := { m.kernel with exceptionHalt := 1 }
              stack := entryBlock m.kernel
              faulted := Function.update m.faulted (entryBlock m.kernel) true }
          launch := none, halted := none, retval := none }
  | key {terminal : Nat} (ht : terminal < 3) :
      Happens isExecutable m (.key terminal)
        { machine := { m with kernel := { m.kernel with activeTerminal := terminal } }
          launch := none, halted := none, retval := none }

/-! ## Stacks -/

theorem entryBlock_of_tss {k : Kernel} {p : Nat}
    (h : k.tssEsp0 = kernelStackAddr p) : entryBlock k = pcbAddr p := by
  unfold entryBlock pcbAddr
  rw [h]

theorem currentPCB_of_onStack {f : Frame} {p : Nat} (hp : p ≤ 1000) (h : OnStack (pcbAddr p) f) :
    currentPCB f.esp = pcbAddr p ∧ currentPCB f.ebp = pcbAddr p := by
  obtain ⟨⟨hesp, hesp'⟩, hebp, hebp'⟩ := h
  have haddr := pcbAddr_of_le hp
  have halign : pcbAddr p % 8192 = 0 := by omega
  have htop : pcbAddr p + 8192 ≤ 4294967296 := by omega
  have hsize : pcbSize = 300 := rfl
  exact ⟨currentPCB_of_block halign htop (by omega) hesp',
    currentPCB_of_block halign htop (by omega) hebp'⟩

/-- A system call runs on the stack of the process that `tss.esp0` names. -/
theorem OnSyscall.currentPCB {m : Machine} {f : Frame} {p : Nat} (hf : OnSyscall m f)
    (hp : p ≤ 1000) (h : m.kernel.tssEsp0 = kernelStackAddr p) :
    currentPCB f.esp = pcbAddr p ∧ currentPCB f.ebp = pcbAddr p := by
  have hstack := hf.2
  rw [entryBlock_of_tss h] at hstack
  exact currentPCB_of_onStack hp hstack

section Outcome

variable {isExecutable : List UInt8 → Bool} {m : Machine}

theorem happens_of_tick {f : Frame} {o : Outcome} (h : stepTick isExecutable m f = some o) :
    Happens isExecutable m (.tick f) o := by
  unfold stepTick at h
  split at h
  · rename_i hf
    obtain ⟨r, hr, rfl⟩ := Option.map_eq_some_iff.mp h
    unfold switchTasks at hr
    dsimp only at hr
    split at hr
    · rename_i hstarted
      obtain ⟨i, hi, rfl⟩ := Option.map_eq_some_iff.mp hr
      exact .switch hf hstarted hi
    · rename_i hstarted
      have hstart : startShell isExecutable (saveStack m.kernel f) f = r := Option.some.inj hr
      have heq : startShell isExecutable (saveStack m.kernel f) f =
          match execute isExecutable (startupKernel m.kernel f) f shellCommand with
          | some l => { kernel := l.kernel, stack := pcbAddr l.pid, launch := some l }
          | none =>
            { kernel := startupKernel m.kernel f, stack := currentPCB f.esp, launch := none } := rfl
      rw [heq] at hstart
      cases hl : execute isExecutable (startupKernel m.kernel f) f shellCommand with
      | some l =>
        rw [hl] at hstart
        subst hstart
        exact .startup hf hstarted hl
      | none =>
        rw [hl] at hstart
        subst hstart
        exact .startupRefused hf hstarted hl
  · cases h

theorem happens_of_execute {f : Frame} {command : List UInt8} {o : Outcome}
    (h : stepExecute isExecutable m f command = some o) :
    Happens isExecutable m (.execute f command) o := by
  unfold stepExecute at h
  split at h
  · rename_i hf
    cases hl : execute isExecutable m.kernel f command with
    | some l =>
      rw [hl] at h
      cases h
      exact .executed hf hl
    | none =>
      rw [hl] at h
      cases h
      exact .refused hf hl
  · cases h

theorem happens_of_halt {f : Frame} {status : UInt8} {o : Outcome}
    (h : stepHalt isExecutable m f status = some o) :
    Happens isExecutable m (.halt f status) o := by
  unfold stepHalt at h
  split at h
  · rename_i hf
    by_cases hpid : 3 < (m.kernel.pcbs (currentPCB f.esp)).pid
    · rw [halt_child hpid] at h
      cases h
      exact .childExit hf hpid
    · rw [halt_shell hpid] at h
      cases hl : execute isExecutable (restartKernel m.kernel f) f shellCommand with
      | some l =>
        rw [hl] at h
        cases h
        exact .restart hf hpid hl
      | none =>
        rw [hl] at h
        cases h
        exact .shellExit hf hpid hl rfl
  · cases h

theorem happens_of_outcome {e : Event} {o : Outcome} (h : outcome isExecutable m e = some o) :
    Happens isExecutable m e o := by
  cases e with
  | tick f => exact happens_of_tick h
  | execute f command => exact happens_of_execute h
  | halt f status => exact happens_of_halt h
  | pageFault =>
    simp only [outcome] at h
    split at h
    · rename_i hm
      cases h
      exact .fault hm
    · cases h
  | key terminal =>
    simp only [outcome] at h
    split at h
    · rename_i ht
      cases h
      exact .key ht
    · cases h

end Outcome

end LinuxBasedOS.Process
