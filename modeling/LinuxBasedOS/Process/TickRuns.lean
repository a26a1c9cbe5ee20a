import LinuxBasedOS.Process.PidAccounting

/-!
# Runs of timer ticks

What the ticks do to the machine when no process executes or halts: the startup ticks launch
processes under the pids 1, 2, … one after the other, and the later ticks switch between them.
Every process that does not run has been interrupted on its own kernel stack, so a switch comes
back to that stack, and `pcb_terminal` is the terminal of one of the processes launched.

The terminals that the shells get are terminals as long as the counter of the startup phase does
not go below 0.
-/

namespace LinuxBasedOS.Process

open Word

variable {isExecutable : List UInt8 → Bool}

/-- The ticks have launched `n` processes, and process `r` runs; process 0 is `entry` on the boot
stack. -/
structure TickInv (m : Machine) (n r : Nat) : Prop where
  dense : PidsDense m.kernel n
  running : r ≤ n
  user : 0 < n → 0 < r
  tss : m.kernel.tssEsp0 = kernelStackAddr r
  stack : m.stack = pcbAddr r
  saved : ∀ p : Nat, 1 ≤ p → p ≤ n → p ≠ r →
    currentPCB (m.kernel.pcbs (pcbAddr p)).sesp = pcbAddr p
  terminals : ∀ p : Nat, 1 ≤ p → p ≤ n → (m.kernel.pcbs (pcbAddr p)).terminalId < 3
  terminal : m.kernel.pcbTerminal < 3
  active : m.kernel.activeTerminal ≤ 3

theorem tickInv_boot (memory : Nat → PCB) : TickInv (boot memory) 0 0 := by
  refine ⟨pidsDense_boot memory, le_rfl, ?_, ?_, rfl, ?_, ?_, ?_, le_rfl⟩
  · intro h
    omega
  · show 0x800000 = kernelStackAddr (0 : Nat)
    decide
  · intro p h1 hp
    omega
  · intro p h1 hp
    omega
  · show 0 < 3
    omega

namespace TickInv

variable {m m' : Machine} {n r : Nat} {f : Frame}

/-- A tick runs on the stack of the process that runs. -/
theorem onTick (h : TickInv m n r) (hf : OnTick m f) : currentPCB f.esp = pcbAddr r := by
  have hcount := h.dense.le_six
  have hrunning := h.running
  have hstack : OnStack (pcbAddr r) f := by
    rcases hf with hentry | hstack
    · rw [entryBlock_of_tss h.tss] at hentry
      exact hentry
    · rw [h.stack] at hstack
      exact hstack
  exact (currentPCB_of_onStack (by omega) hstack).1

/-- When the tick has saved its stack pointer, every process has one on its own stack. -/
theorem saveStack_saved (h : TickInv m n r) (hf : OnTick m f) {p : Nat} (h1 : 1 ≤ p)
    (hp : p ≤ n) : currentPCB ((saveStack m.kernel f).pcbs (pcbAddr p)).sesp = pcbAddr p := by
  have hcount := h.dense.le_six
  have hrunning := h.running
  have hblock := h.onTick hf
  rw [saveStack_sesp, hblock]
  by_cases hpr : p = r
  · rw [if_pos (by rw [hpr]), hpr]
    exact hblock
  · rw [if_neg (pcbAddr_ne (by omega) (by omega) hpr)]
    exact h.saved p h1 hp hpr

/-- The keyboard selects a terminal. -/
theorem key (h : TickInv m n r) {terminal : Nat} (ht : terminal ≤ 3) :
    TickInv { m with kernel := { m.kernel with activeTerminal := terminal } } n r := by
  refine ⟨?_, h.running, h.user, h.tss, h.stack, h.saved, h.terminals, h.terminal, ht⟩
  exact h.dense.congr rfl rfl rfl rfl fun _ => SameProcess.refl _

theorem switch (h : TickInv m n r) {i : Nat} (hf : OnTick m f)
    (hslot : slotSearch m.kernel.priorityListPid 7 (plannedSchedule m.kernel) = some i)
    (hkernel : m'.kernel = (switchTo (saveStack m.kernel f) (currentPCB f.esp) i).kernel)
    (hstack : m'.stack = (switchTo (saveStack m.kernel f) (currentPCB f.esp) i).stack) :
    ∃ p, TickInv m' n p := by
  obtain ⟨hi, hpos⟩ := slotSearch_spec (plannedSchedule_lt m.kernel) hslot
  obtain hfree | ⟨p, h1, hp, hnext⟩ := h.dense.queue i hi
  · omega
  have hr := h.user (by omega)
  refine ⟨p, ?_, hp, fun _ => h1, ?_, ?_, ?_, ?_, ?_, ?_⟩
  · rw [hkernel]
    exact h.dense.switch f hslot
  · rw [hkernel, switchTo_tssEsp0, saveStack_priorityListPid, hnext]
  · rw [hstack, switchTo_stack, saveStack_priorityListPid, hnext]
    exact h.saveStack_saved hf h1 hp
  · intro q hq1 hq _
    rw [hkernel, switchTo_sesp]
    exact h.saveStack_saved hf hq1 hq
  · intro q hq1 hq
    rw [hkernel, (switch_sameProcess _ _ _ _).terminalId]
    exact h.terminals q hq1 hq
  · rw [hkernel, switchTo_pcbTerminal, h.onTick hf, (saveStack_sameProcess m.kernel f _).terminalId]
    exact h.terminals r hr h.running
  · rw [hkernel, switchTo_activeTerminal, saveStack_activeTerminal]
    exact h.active

/-- The counter of the startup phase comes to a terminal, if it was not at 0. -/
theorem counter_lt (h : TickInv m n r) (hcounter : m.kernel.activeTerminal ≠ 0) :
    u32 ((m.kernel.activeTerminal : Int) - 1) < 3 := by
  have hactive := h.active
  unfold u32
  omega

theorem startupRefused (h : TickInv m n r) (hf : OnTick m f)
    (hcounter : m.kernel.activeTerminal ≠ 0) (hkernel : m'.kernel = startupKernel m.kernel f)
    (hstack : m'.stack = currentPCB f.esp) : TickInv m' n r := by
  have hlt := h.counter_lt hcounter
  refine ⟨?_, h.running, h.user, ?_, ?_, ?_, ?_, ?_, ?_⟩
  · rw [hkernel]
    exact h.dense.startup f
  · rw [hkernel, startupKernel_tssEsp0]
    exact h.tss
  · rw [hstack]
    exact h.onTick hf
  · intro p h1 hp _
    rw [hkernel, startupKernel_pcbs]
    exact h.saveStack_saved hf h1 hp
  · intro p h1 hp
    rw [hkernel, (startupKernel_sameProcess _ _ _).terminalId]
    exact h.terminals p h1 hp
  · rw [hkernel, startupKernel_pcbTerminal]
    exact h.terminal
  · rw [hkernel, startupKernel_activeTerminal]
    omega

theorem startup (h : TickInv m n r) {l : Launch} (hf : OnTick m f)
    (hcounter : m.kernel.activeTerminal ≠ 0)
    (hl : execute isExecutable (startupKernel m.kernel f) f shellCommand = some l)
    (hkernel : m'.kernel = l.kernel) (hstack : m'.stack = pcbAddr l.pid) :
    TickInv m' (n + 1) (n + 1) := by
  obtain ⟨htasks, _, rfl⟩ := execute_eq_some hl
  have hdense := h.dense.startup f
  have htotal := hdense.total
  have hlt := h.counter_lt hcounter
  obtain ⟨_, hpid, hdense'⟩ := hdense.launch htasks f (parseCommand shellCommand).2
  have hlaunch : launch (startupKernel m.kernel f) f (parseCommand shellCommand).2 =
      launchAs (taken (startupKernel m.kernel f) n) f (n + 1) true
        (parseCommand shellCommand).2 :=
    launch_of_freePid (hdense.bits.freePid (by omega))
  have hold : ∀ p : Nat, p ≤ n →
      m'.kernel.pcbs (pcbAddr p) = (saveStack m.kernel f).pcbs (pcbAddr p) := by
    intro p hp
    rw [hkernel, hlaunch,
      launchAs_pcbs_of_ne _ _ _ _ _ (pcbAddr_ne (by omega) (by omega) (by omega))]
    exact congrFun (startupKernel_pcbs m.kernel f) _
  refine ⟨?_, le_rfl, fun _ => Nat.succ_pos n, ?_, ?_, ?_, ?_, ?_, ?_⟩
  · rw [hkernel]
    exact hdense'
  · rw [hkernel, hlaunch, launchAs_tssEsp0]
  · rw [hstack, hpid]
  · intro p h1 hp hne
    rw [hold p (by omega)]
    exact h.saveStack_saved hf h1 (by omega)
  · intro p h1 hp
    by_cases hpn : p = n + 1
    · rw [hpn, hkernel, hlaunch]
      by_cases h3 : n + 1 ≤ 3
      · rw [(launchAs_pcb_base _ _ _ _ _ h3).1]
        show (startupKernel m.kernel f).activeTerminal < 3
        rw [startupKernel_activeTerminal]
        exact hlt
      · -- a process above the three shells has the terminal of the one that runs
        rw [launchAs_pcb_child_terminalId _ _ _ _ _ (by omega), h.onTick hf]
        show ((startupKernel m.kernel f).pcbs (pcbAddr r)).terminalId < 3
        rw [(startupKernel_sameProcess _ _ _).terminalId]
        exact h.terminals r (h.user (by omega)) h.running
    · rw [hold p (by omega), (saveStack_sameProcess _ _ _).terminalId]
      exact h.terminals p h1 (by omega)
  · rw [hkernel, launch_pcbTerminal, startupKernel_pcbTerminal]
    exact h.terminal
  · rw [hkernel, launch_activeTerminal, startupKernel_activeTerminal]
    omega

/-- A tick keeps the invariant when the counter of the startup phase does not go below 0. -/
theorem tick (h : TickInv m n r) {o : Outcome}
    (hcounter : m.kernel.scheduleStarted ≠ 1 → m.kernel.activeTerminal ≠ 0)
    (ho : outcome isExecutable m (.tick f) = some o) : ∃ n' r', TickInv o.machine n' r' := by
  cases happens_of_outcome ho with
  | switch hf _ hslot => exact ⟨n, h.switch hf hslot rfl rfl⟩
  | startup hf hne hl => exact ⟨n + 1, n + 1, h.startup hf (hcounter hne) hl rfl rfl⟩
  | startupRefused hf hne hl => exact ⟨n, r, h.startupRefused hf (hcounter hne) rfl rfl⟩

end TickInv

end LinuxBasedOS.Process
