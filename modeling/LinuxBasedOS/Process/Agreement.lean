import LinuxBasedOS.Process.History
import LinuxBasedOS.Process.Refinement

/-!
# Who is running

The page directory, `tss.esp0` and the run queue are written independently by `execute`,
`PCB_init`, `halt` and `switch_tasks`. In every run in which each `execute` finds a free pid
and each `PCB_init` succeeds, the machine runs the chains of `Chains`, so the three of them
name one process.
-/

namespace LinuxBasedOS.Process

open Word Transition

variable {isExecutable : List UInt8 → Bool} {m : Machine} {a : Chains}

/-! ## The two phases of a run -/

/-- No process has been started yet. -/
structure Idle (k : Kernel) : Prop where
  bits : BitsUpTo k.pidBitpattern 0
  total : k.totalTasks = 1
  queue : ∀ i < 7, k.priorityListPid i = -1
  tss : k.tssEsp0 = 0x800000
  starting : k.scheduleStarted ≠ 1

/-- The machine runs the chains. In the startup phase the stack in use is that of the process
that runs. -/
structure Agrees (m : Machine) (a : Chains) : Prop where
  kernel : RunsAs m.kernel a
  stack : m.kernel.scheduleStarted ≠ 1 → m.stack = pcbAddr a.running

theorem idle_boot (memory : Nat → PCB) : Idle (boot memory).kernel := by
  refine ⟨fun i _ => rfl, rfl, fun i _ => rfl, rfl, ?_⟩
  show (0 : Int) ≠ 1
  omega

theorem Idle.not_userRuns (h : Idle m.kernel) : ¬ UserRuns m := by
  intro hruns
  have hne := hruns.1
  rw [h.tss] at hne
  exact hne rfl

theorem Idle.startup {k : Kernel} (h : Idle k) (f : Frame) (args : List UInt8) :
    (launch (startupKernel k f) f args).pid = 1 ∧
      RunsAs (launch (startupKernel k f) f args).kernel Chains.first := by
  have hbits : BitsUpTo (startupKernel k f).pidBitpattern 0 := by
    rw [startupKernel_pidBitpattern]
    exact h.bits
  have htotal : (startupKernel k f).totalTasks = 1 := by
    rw [startupKernel_totalTasks]
    exact h.total
  have hqueue : (taken (startupKernel k f) 0).priorityListPid = k.priorityListPid :=
    startupKernel_priorityListPid k f
  have hfree : freeSlot (taken (startupKernel k f) 0).priorityListPid 7 0 = some 0 := by
    rw [hqueue, freeSlot, h.queue 0 (by omega)]
    rfl
  rw [launch_of_freePid (hbits.freePid (by omega))]
  have hok : (launchAs (taken (startupKernel k f) 0) f (0 + 1) true args).initResult = 0 :=
    launchAs_initResult_base _ _ _ _ _ (by omega) hfree
  obtain ⟨slot, hslot, _, hqueue', hschedule⟩ := launchAs_base _ _ _ _ _ (by omega) hok
  obtain rfl : slot = 0 := by
    rw [hfree] at hslot
    exact (Option.some.inj hslot).symm
  have hchildren : Chains.first.children = 0 := by decide
  refine ⟨rfl, RunsAs.launchAs_runsAs rfl hbits.take ?_ ?_ ?_ hschedule ?_ ?_ ?_⟩
  · rw [taken_totalTasks (by omega), htotal, hchildren]
    rfl
  · rw [taken_totalTasks (by omega), htotal]
    omega
  · intro i hi
    rw [hqueue', hqueue]
    by_cases hi0 : i = 0
    · rw [hi0, Function.update_self]
      exact i32_of_pid (by omega)
    · rw [Function.update_of_ne hi0, h.queue i hi]
      simp [Chains.first, hi0, entry]
  · intro q h1 hq hne
    have hq1 : q ≤ 1 := hq
    omega
  · intro q h1 hq hne
    have hq1 : q ≤ 1 := hq
    omega
  · intro i hi
    by_cases hi0 : i = 0
    · simp [Chains.first, hi0, Linked]
    · simp [Chains.first, hi0, Linked]

/-! ## Launches -/

theorem RunsAs.onSyscall {f : Frame} (h : RunsAs m.kernel a) (hf : OnSyscall m f) :
    RunsAs.OnRunning a f := by
  have hle := a.running_le
  exact hf.currentPCB (by omega) h.tss

/-- The process that makes a system call is the one that runs. -/
theorem RunsAs.current {f : Frame} (h : RunsAs m.kernel a) (hf : OnSyscall m f) :
    (m.kernel.pcbs (currentPCB f.esp)).pid = a.running := by
  obtain ⟨h1, hle⟩ := a.running_range
  rw [(h.onSyscall hf).1]
  exact h.pid a.running h1 hle

theorem Agrees.onTick {f : Frame} (h : Agrees m a) (hstarted : m.kernel.scheduleStarted ≠ 1)
    (hf : OnTick m f) : RunsAs.OnRunning a f := by
  have hle := a.running_le
  rcases hf with hentry | hstack
  · rw [entryBlock_of_tss h.kernel.tss] at hentry
    exact currentPCB_of_onStack (by omega) hentry
  · rw [h.stack hstarted] at hstack
    exact currentPCB_of_onStack (by omega) hstack

theorem RunsAs.startup {k : Kernel} (h : RunsAs k a) (f : Frame) : RunsAs (startupKernel k f) a := by
  refine h.congr ?_ ?_ ?_ ?_ ?_ ?_ (startupKernel_sameProcess k f)
  · exact startupKernel_pidBitpattern k f
  · exact startupKernel_totalTasks k f
  · exact startupKernel_priorityListPid k f
  · exact startupKernel_currentSchedule k f
  · exact startupKernel_tssEsp0 k f
  · exact startupKernel_pageDir k f

theorem RunsAs.execute {k : Kernel} {f : Frame} {command : List UInt8} {l : Launch}
    (h : RunsAs k a) (hf : RunsAs.OnRunning a f) (hl : execute isExecutable k f command = some l)
    (hfound : l.foundPid = true) (hinit : l.initResult = 0) :
    ∃ b, RunsAs l.kernel b ∧ b.running = l.pid := by
  obtain ⟨htasks, _, rfl⟩ := execute_eq_some hl
  have h7 := h.used_lt hfound
  by_cases h3 : a.used < 3
  · obtain ⟨i, hi, _, hpid, _, hruns⟩ := h.launch_base htasks h3 hinit
    refine ⟨_, hruns, ?_⟩
    rw [hpid]
    simp [Chains.running, Chains.start]
  · obtain ⟨i, hi, hbusy, hpid, _, _, hruns⟩ :=
      h.launch_child hf (parseCommand command).2 htasks (by omega) h7
    refine ⟨_, hruns, ?_⟩
    rw [hpid]
    simp [Chains.running, Chains.push]

/-- The search of `PCB_init` for the parent's slot ends inside the queue. -/
theorem RunsAs.child_slot {k : Kernel} {f : Frame} {command : List UInt8} {l : Launch}
    (h : RunsAs k a) (hf : RunsAs.OnRunning a f) (hl : Process.execute isExecutable k f command = some l)
    (hpid : 3 < l.pid) : ∃ i ≤ 6, l.slot = some i := by
  obtain ⟨_, _, rfl⟩ := execute_eq_some hl
  obtain ⟨h1, hle⟩ := a.running_range
  obtain ⟨i, hi, hslot, _⟩ := h.slotOf_running
  have hparent : (slotOf k.priorityListPid (k.pcbs (currentPCB f.esp)).pid).getD 7 = i := by
    rw [hf.1, h.pid a.running h1 hle, hslot]
    rfl
  refine ⟨i, by omega, ?_⟩
  cases hfree : freePid k.pidBitpattern with
  | none =>
    rw [launch, hfree] at hpid ⊢
    exact (launchAs_child _ f f.pid false _ hpid hparent).2.1
  | some j =>
    rw [launch_of_freePid hfree] at hpid ⊢
    exact (launchAs_child _ f (j + 1) true _ hpid hparent).2.1

/-! ## Steps -/

/-- Every `execute` of the step finds a free pid, and its `PCB_init` returns 0. -/
def LaunchesWell (isExecutable : List UInt8 → Bool) (t : Tracked) (e : Event) : Prop :=
  ((outcome isExecutable t.machine e).bind Outcome.launch).all
    (fun l => l.foundPid && l.initResult == 0) = true

instance (isExecutable : List UInt8 → Bool) (t : Tracked) (e : Event) :
    Decidable (LaunchesWell isExecutable t e) :=
  inferInstanceAs (Decidable (_ = true))

theorem LaunchesWell.launch {t : Tracked} {e : Event} {o : Outcome} {l : Launch}
    (h : LaunchesWell isExecutable t e) (ho : outcome isExecutable t.machine e = some o)
    (hl : o.launch = some l) : l.foundPid = true ∧ l.initResult = 0 := by
  unfold LaunchesWell at h
  rw [ho, Option.bind_some, hl, Option.all_some, Bool.and_eq_true, beq_iff_eq] at h
  exact h

/-- A refused startup launch leaves the process that runs running. -/
theorem Agrees.startupRefused {f : Frame} (h : Agrees m a) (hf : OnTick m f)
    (hstarted : m.kernel.scheduleStarted ≠ 1) :
    Agrees { kernel := startupKernel m.kernel f, stack := currentPCB f.esp, faulted := m.faulted }
      a :=
  ⟨h.kernel.startup f, fun _ => (h.onTick hstarted hf).1⟩

theorem Agrees.childExit {f : Frame} {faulted : Nat → Bool} (h : Agrees m a) (hf : OnSyscall m f)
    (hpid : 3 < (m.kernel.pcbs (currentPCB f.esp)).pid) :
    ∃ b, Agrees
      { kernel := childExitKernel m.kernel f
        stack := currentPCB (m.kernel.pcbs (currentPCB f.esp)).kebp
        faulted := faulted } b := by
  have hrun := h.kernel.onSyscall hf
  rw [h.kernel.current hf] at hpid
  obtain ⟨p, rest, hchain⟩ := a.exists_parent hpid
  have hlinks := h.kernel.links a.current a.current_lt
  rw [hchain] at hlinks
  refine ⟨a.exit p rest hchain, h.kernel.exit hrun hchain, fun _ => ?_⟩
  show currentPCB (m.kernel.pcbs (currentPCB f.esp)).kebp = _
  rw [hrun.1, hlinks.2.1]
  simp [Chains.running, Chains.exit]

theorem RunsAs.restart_tasks {f : Frame} {k : Kernel} (h : RunsAs k a) :
    (restartKernel k f).totalTasks < 7 := by
  have htotal := h.total
  have htotal_le := h.total_le
  rw [restartKernel_totalTasks (by omega) htotal_le]
  omega

section Run

variable {t t' : Tracked} {e : Event} {o : Outcome}
  (hshell : isExecutable (parseCommand shellCommand).1 = true)

include hshell

theorem Agrees.step (h : Agrees t.machine a) (hwell : LaunchesWell isExecutable t e)
    (ho : outcome isExecutable t.machine e = some o) : ∃ b, Agrees o.machine b := by
  have hlaunch := fun l => hwell.launch (l := l) ho
  cases happens_of_outcome ho with
  | switch hf hstarted hslot =>
    obtain ⟨hi, hbusy, hruns⟩ := h.kernel.switch _ hslot
    refine ⟨_, hruns, ?_⟩
    rw [switchTo_scheduleStarted, saveStack_scheduleStarted]
    exact fun hne => absurd hstarted hne
  | startup hf hstarted hl =>
    obtain ⟨hfound, hinit⟩ := hlaunch _ rfl
    obtain ⟨b, hruns, hpid⟩ :=
      (h.kernel.startup _).execute (h.onTick hstarted hf) hl hfound hinit
    exact ⟨b, hruns, fun _ => by rw [hpid]; rfl⟩
  | startupRefused hf hstarted hl => exact ⟨a, h.startupRefused hf hstarted⟩
  | executed hf hl =>
    obtain ⟨hfound, hinit⟩ := hlaunch _ rfl
    obtain ⟨b, hruns, hpid⟩ := h.kernel.execute (h.kernel.onSyscall hf) hl hfound hinit
    exact ⟨b, hruns, fun _ => by rw [hpid]; rfl⟩
  | refused hf hl => exact ⟨a, h.kernel, fun _ => entryBlock_of_tss h.kernel.tss⟩
  | childExit hf hpid => exact h.childExit hf hpid
  | @restart f status l hf hpid hl =>
    obtain ⟨hfound, hinit⟩ := hlaunch _ rfl
    obtain ⟨_, _, rfl⟩ := execute_eq_some hl
    have hrun := h.kernel.onSyscall hf
    rw [h.kernel.current hf] at hpid
    obtain ⟨i, hi, _, hp, _, hruns⟩ := h.kernel.restart hrun (by omega) hinit
    refine ⟨_, hruns, fun _ => ?_⟩
    show pcbAddr (launch (restartKernel t.machine.kernel f) f _).pid = _
    rw [hp]
    simp [Chains.running, Chains.start]
  | @shellExit f status r hf hpid hl hr =>
    rw [execute_shell f h.kernel.restart_tasks hshell] at hl
    cases hl
  | fault hm => exact ⟨a, h.kernel.fault 1, fun _ => entryBlock_of_tss h.kernel.tss⟩
  | @key terminal ht => exact ⟨a, h.kernel.key terminal, h.stack⟩

/-- Before the first launch nothing runs; its outcome runs the first base shell. -/
theorem Idle.step (h : Idle t.machine.kernel) (ho : outcome isExecutable t.machine e = some o) :
    (o.launch = none ∧ Idle o.machine.kernel) ∨ Agrees o.machine Chains.first := by
  cases happens_of_outcome ho with
  | switch hf hstarted hslot => exact absurd hstarted h.starting
  | @startup f l hf hstarted hl =>
    obtain ⟨_, _, rfl⟩ := execute_eq_some hl
    obtain ⟨hpid, hruns⟩ := h.startup f (parseCommand shellCommand).2
    refine Or.inr ⟨hruns, fun _ => ?_⟩
    show pcbAddr (launch (startupKernel t.machine.kernel f) f _).pid = _
    rw [hpid]
    rfl
  | @startupRefused f hf hstarted hl =>
    have htasks : (startupKernel t.machine.kernel f).totalTasks < 7 := by
      rw [startupKernel_totalTasks, h.total]
      omega
    rw [execute_shell f htasks hshell] at hl
    cases hl
  | executed hf hl => exact absurd hf.1 h.not_userRuns
  | refused hf hl => exact absurd hf.1 h.not_userRuns
  | childExit hf hpid => exact absurd hf.1 h.not_userRuns
  | restart hf hpid hl => exact absurd hf.1 h.not_userRuns
  | shellExit hf hpid hl hr => exact absurd hf.1 h.not_userRuns
  | fault hm => exact absurd hm h.not_userRuns
  | key ht => exact Or.inl ⟨rfl, h.bits, h.total, h.queue, h.tss, h.starting⟩

theorem phase_step
    (h : (t.executed = 0 ∧ Idle t.machine.kernel) ∨ ∃ a, Agrees t.machine a)
    (hwell : LaunchesWell isExecutable t e) (hs : trackedStep isExecutable t e = some t') :
    (t'.executed = 0 ∧ Idle t'.machine.kernel) ∨ ∃ a, Agrees t'.machine a := by
  obtain ⟨o, ho, rfl⟩ := Option.map_eq_some_iff.mp hs
  rcases h with ⟨hzero, hidle⟩ | ⟨a, hagrees⟩
  · rcases hidle.step hshell ho with ⟨hnone, hidle'⟩ | hagrees
    · refine Or.inl ⟨?_, hidle'⟩
      show t.executed + o.launch.toList.length = 0
      rw [hnone, hzero]
      rfl
    · exact Or.inr ⟨_, hagrees⟩
  · exact Or.inr (hagrees.step hshell hwell ho)

end Run

/-! ## The agreement -/

/-- One process is in memory, on the kernel stack and at the current slot of the queue; and
the next child that is started takes a slot of the queue. -/
structure Agreement (isExecutable : List UInt8 → Bool) (m : Machine) : Prop where
  running : ∃ p : Nat, 1 ≤ p ∧
    m.kernel.pageDir cpIndex = ((p - 1) * 0x400000 + 0x800000) ||| fourMBUserPage ∧
    m.kernel.tssEsp0 = 0x800000 - p * 0x2000 ∧
    0 ≤ m.kernel.currentSchedule ∧ m.kernel.currentSchedule ≤ 6 ∧
    m.kernel.priorityListPid m.kernel.currentSchedule.toNat = p
  parent_slot : ∀ e o l, outcome isExecutable m e = some o → o.launch = some l → 3 < l.pid →
    ∃ i ≤ 6, l.slot = some i

theorem pageEntry_of_le {p : Nat} (h1 : 1 ≤ p) (h7 : p ≤ 7) :
    pageEntry p = ((p - 1) * 0x400000 + 0x800000) ||| fourMBUserPage := by
  have haddr : physicalPageAddr p = (p - 1) * 0x400000 + 0x800000 := by
    unfold physicalPageAddr u32 fourMB eightMB
    omega
  rw [pageEntry, haddr]

theorem Agrees.parent_slot {e : Event} {o : Outcome} {l : Launch} (h : Agrees m a)
    (ho : outcome isExecutable m e = some o) (hl : o.launch = some l) (hpid : 3 < l.pid) :
    ∃ i ≤ 6, l.slot = some i := by
  cases happens_of_outcome ho with
  | startup hf hstarted hexec =>
    cases hl
    exact (h.kernel.startup _).child_slot (h.onTick hstarted hf) hexec hpid
  | executed hf hexec =>
    cases hl
    exact h.kernel.child_slot (h.kernel.onSyscall hf) hexec hpid
  | @restart f status l' hf hbase hexec =>
    -- the shell that exits leaves its own pid free, so the new one is a base shell
    cases hl
    obtain ⟨_, _, rfl⟩ := execute_eq_some hexec
    rw [h.kernel.current hf] at hbase
    rw [h.kernel.restart_pid (h.kernel.onSyscall hf)] at hpid
    omega
  | @shellExit f status r hf hbase hexec hr =>
    rw [← hr, haltReturn_launch] at hl
    cases hl
  | switch | startupRefused | refused | childExit | fault | key => cases hl

theorem Agrees.agreement (h : Agrees m a) : Agreement isExecutable m := by
  obtain ⟨h1, hle⟩ := a.running_range
  have h7 := a.running_le
  have hcurrent := a.current_lt
  have hschedule := h.kernel.schedule
  refine ⟨⟨a.running, h1, ?_, ?_, by omega, by omega, ?_⟩, fun e o l => h.parent_slot⟩
  · rw [h.kernel.page]
    exact pageEntry_of_le h1 h7
  · rw [h.kernel.tss, kernelStackAddr_of_le (by omega)]
    omega
  · rw [hschedule, Int.toNat_natCast]
    exact h.kernel.queue_current

/-- The page directory, the kernel stack and the run queue agree on who is running, in every
state after the first `execute`. -/
theorem memory_stack_queue_agree {memory : Nat → PCB} {es : List Event} {t : Tracked}
    (hshell : isExecutable (parseCommand shellCommand).1 = true)
    (hrun : run (trackedStep isExecutable) (start memory) es = some t)
    (hwell : Along (trackedStep isExecutable) (LaunchesWell isExecutable) (start memory) es)
    (hexecuted : 0 < t.executed) : Agreement isExecutable t.machine := by
  have hstep : ∀ ⦃s e s'⦄, ((s.executed = 0 ∧ Idle s.machine.kernel) ∨ ∃ a, Agrees s.machine a) →
      LaunchesWell isExecutable s e → trackedStep isExecutable s e = some s' →
        (s'.executed = 0 ∧ Idle s'.machine.kernel) ∨ ∃ a, Agrees s'.machine a := by
    intro s e s' hphase hw hs
    exact phase_step hshell hphase hw hs
  have hphase := run_invariant hstep hrun hwell (Or.inl ⟨rfl, idle_boot memory⟩)
  rcases hphase with ⟨hzero, _⟩ | ⟨a, hagrees⟩
  · omega
  · exact hagrees.agreement

/-- Three base shells, a child of the third, ticks around all of them, the exit of the child
and the exit of its shell. -/
def nestedRun : List Event :=
  startupTicks ++ [.execute (frameOf 3) lsCommand, .tick (frameOf 4), .tick (frameOf 1),
    .tick (frameOf 2), .halt (frameOf 4) 0, .halt (frameOf 3) 0]

theorem memory_stack_queue_agree_nested : ∃ t,
    run (trackedStep programs) (start fun _ => zeroPCB) nestedRun = some t ∧ 0 < t.executed ∧
      Agreement programs t.machine := by
  have hsome : ((run (trackedStep programs) (start fun _ => zeroPCB) nestedRun).map
      Tracked.executed) = some 5 := by decide +kernel
  obtain ⟨t, ht, hcount⟩ := Option.map_eq_some_iff.mp hsome
  have hpos : 0 < t.executed := by omega
  exact ⟨t, ht, hpos, memory_stack_queue_agree (by decide) ht (by decide +kernel) hpos⟩

end LinuxBasedOS.Process
