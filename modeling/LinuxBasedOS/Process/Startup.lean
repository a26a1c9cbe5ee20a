import LinuxBasedOS.Process.RunQueue

/-!
# One shell for each terminal at startup

In the startup phase `switch_tasks` counts `active_terminal` down from 3 and launches a base shell
on the terminal it comes to; the phase ends when the counter is 0. Alt+Fn writes the same
variable, so a key press between two ticks sets the counter. `Boot` runs ticks and key presses
from `scheduler_init` on and counts the ticks.

`startup_iff` says that startup gives each terminal its shell exactly in the runs in which every
startup tick finds the counter as `scheduler_init` or the tick before it left it.
-/

namespace LinuxBasedOS.Process

open Word Transition

variable {isExecutable : List UInt8 → Bool}

/-! ## Ticks and keys -/

structure Boot where
  tracked : Tracked
  ticks : Nat

/-- A timer tick, or a key event with Alt+Fn held. -/
inductive BootEvent where
  | tick (f : Frame)
  | key (terminal : Nat)

def BootEvent.event : BootEvent → Event
  | .tick f => .tick f
  | .key terminal => .key terminal

def BootEvent.ticks : BootEvent → Nat
  | .tick _ => 1
  | .key _ => 0

def bootStep (isExecutable : List UInt8 → Bool) (b : Boot) (e : BootEvent) : Option Boot :=
  (trackedStep isExecutable b.tracked e.event).map fun t =>
    { tracked := t, ticks := b.ticks + e.ticks }

def bootStart (memory : Nat → PCB) : Boot where
  tracked := start memory
  ticks := 0

/-- What startup is for: each of the first three ticks has launched a base shell, the shells have
the terminals 2, 1 and 0, the counter has not wrapped, and the scheduler switches tasks once the
third shell is there. -/
structure OneShellEach (b : Boot) : Prop where
  launched : b.tracked.executed = min b.ticks 3
  terminals : ∀ p, 1 ≤ p → p ≤ b.tracked.executed →
    (b.tracked.machine.kernel.pcbs (pcbAddr p)).pid = p ∧
      (b.tracked.machine.kernel.pcbs (pcbAddr p)).terminalId = 3 - p
  counter : b.tracked.machine.kernel.activeTerminal ≤ 3
  started : b.tracked.machine.kernel.scheduleStarted = 1 ↔ b.tracked.executed = 3

/-- A startup tick finds the counter as `scheduler_init` or the startup tick before it left it. -/
def CounterKept (b : Boot) : BootEvent → Prop
  | .tick f => OnTick b.tracked.machine f → b.tracked.machine.kernel.scheduleStarted ≠ 1 →
    b.tracked.machine.kernel.activeTerminal = 3 - b.tracked.executed
  | .key _ => True

instance (m : Machine) (f : Frame) : Decidable (OnTick m f) :=
  inferInstanceAs (Decidable (_ ∨ _))

instance (b : Boot) : (e : BootEvent) → Decidable (CounterKept b e)
  | .tick _ => inferInstanceAs (Decidable (_ → _ → _))
  | .key _ => .isTrue trivial

/-! ## One step -/

section Step

variable {b b' : Boot} {f : Frame}

theorem bootStep_eq_some {e : BootEvent} (h : bootStep isExecutable b e = some b') :
    trackedStep isExecutable b.tracked e.event = some b'.tracked ∧
      b'.ticks = b.ticks + e.ticks := by
  obtain ⟨t, ht, rfl⟩ := Option.map_eq_some_iff.mp h
  exact ⟨ht, rfl⟩

theorem OneShellEach.executed_lt (h : OneShellEach b)
    (hstarted : b.tracked.machine.kernel.scheduleStarted ≠ 1) : b.tracked.executed < 3 := by
  have hle := h.launched
  have hne : b.tracked.executed ≠ 3 := fun heq => hstarted (h.started.mpr heq)
  omega

/-- The PCBs after a startup tick: the new shell has the terminal that the counter comes to, the
others are as before. -/
theorem Booting.pcbs_tick {t : Tracked} {n : Nat} (h : Booting t n) (h3 : n < 3)
    (args : List UInt8) :
    ((launch (startupKernel t.machine.kernel f) f args).kernel.pcbs (pcbAddr (n + 1 : Nat))).pid =
        n + 1 ∧
      ((launch (startupKernel t.machine.kernel f) f args).kernel.pcbs
        (pcbAddr (n + 1 : Nat))).terminalId = u32 ((t.machine.kernel.activeTerminal : Int) - 1) ∧
      ∀ p : Nat, p ≤ n → SameProcess
        ((launch (startupKernel t.machine.kernel f) f args).kernel.pcbs (pcbAddr p))
        (t.machine.kernel.pcbs (pcbAddr p)) := by
  rw [h.launch_eq h3]
  refine ⟨launchAs_pcb_pid _ _ _ _ _, ?_, ?_⟩
  · rw [(launchAs_pcb_base _ _ _ _ _ h3).1]
    exact startupKernel_activeTerminal _ _
  · intro p hp
    rw [launchAs_pcbs_of_ne _ _ _ _ _ (pcbAddr_ne (by omega) (by omega) (by omega))]
    exact startupKernel_sameProcess _ _ _

/-- A startup tick is always served. -/
theorem exists_startup_tick (hf : OnTick b.tracked.machine f)
    (hstarted : b.tracked.machine.kernel.scheduleStarted ≠ 1) :
    ∃ b', bootStep isExecutable b (.tick f) = some b' := by
  have houtcome : (outcome isExecutable b.tracked.machine (.tick f)).isSome = true := by
    simp only [outcome, stepTick, if_pos (show _ ∨ _ from hf), switchTasks, if_neg hstarted,
      Option.map_some, Option.isSome_some]
  obtain ⟨o, ho⟩ := Option.isSome_iff_exists.mp houtcome
  exact ⟨_, Option.map_eq_some_iff.mpr ⟨_, Option.map_eq_some_iff.mpr ⟨o, ho, rfl⟩, rfl⟩⟩

variable (hshell : isExecutable (parseCommand shellCommand).1 = true)

include hshell

theorem OneShellEach.startupTick (h : OneShellEach b) (hboot : Booting b.tracked b.tracked.executed)
    (hstarted : b.tracked.machine.kernel.scheduleStarted ≠ 1)
    (hcounter : b.tracked.machine.kernel.activeTerminal = 3 - b.tracked.executed)
    (hstep : bootStep isExecutable b (.tick f) = some b') :
    OneShellEach b' ∧ Booting b'.tracked b'.tracked.executed := by
  obtain ⟨hs, hticks⟩ := bootStep_eq_some hstep
  have h3 := h.executed_lt hstarted
  have hlaunched := h.launched
  obtain ⟨hnext, hexecuted, hkernel⟩ := hboot.tick hshell h3 hstarted hs
  obtain ⟨hpid, hterminal, hothers⟩ := hboot.pcbs_tick (f := f) h3 (parseCommand shellCommand).2
  have hcounter' : u32 ((b.tracked.machine.kernel.activeTerminal : Int) - 1) =
      3 - (b.tracked.executed + 1) := by
    rw [hcounter]
    unfold u32
    omega
  have hticks' : b'.ticks = b.ticks + 1 := hticks
  refine ⟨⟨?_, ?_, ?_, ?_⟩, ?_⟩
  · omega
  · intro p h1 hp
    rw [hexecuted] at hp
    rw [hkernel]
    rcases Nat.eq_or_lt_of_le hp with rfl | hlt
    · exact ⟨hpid, hterminal.trans hcounter'⟩
    · obtain ⟨hold, hold'⟩ := h.terminals p h1 (by omega)
      have hsame := hothers p (by omega)
      exact ⟨hsame.pid.trans hold, hsame.terminalId.trans hold'⟩
  · rw [hkernel, launch_activeTerminal, startupKernel_activeTerminal, hcounter']
    omega
  · rw [hkernel, launch_scheduleStarted, startupKernel_scheduleStarted, hcounter', hexecuted]
    by_cases hlast : b.tracked.executed + 1 = 3
    · rw [if_pos (by omega)]
      exact ⟨fun _ => hlast, fun _ => rfl⟩
    · rw [if_neg (by omega)]
      exact ⟨fun hone => absurd hone hstarted, fun heq => absurd heq hlast⟩
  · rw [hexecuted]
    exact hnext

omit hshell

/-- A step that launches nothing and leaves the PCBs to their processes. -/
theorem OneShellEach.same (h : OneShellEach b)
    (hexecuted : b'.tracked.executed = b.tracked.executed)
    (hticks : b.tracked.executed = min b'.ticks 3)
    (hpcbs : ∀ addr, SameProcess (b'.tracked.machine.kernel.pcbs addr)
      (b.tracked.machine.kernel.pcbs addr))
    (hcounter : b'.tracked.machine.kernel.activeTerminal ≤ 3)
    (hstarted : b'.tracked.machine.kernel.scheduleStarted =
      b.tracked.machine.kernel.scheduleStarted) : OneShellEach b' := by
  refine ⟨hexecuted.trans hticks, ?_, hcounter, ?_⟩
  · intro p h1 hp
    rw [hexecuted] at hp
    obtain ⟨hpid, hterminal⟩ := h.terminals p h1 hp
    exact ⟨(hpcbs _).pid.trans hpid, (hpcbs _).terminalId.trans hterminal⟩
  · rw [hstarted, hexecuted]
    exact h.started

/-- Once the three shells are there, a tick switches between them. -/
theorem OneShellEach.switchTick (h : OneShellEach b) (hboot : Booting b.tracked b.tracked.executed)
    (hstarted : b.tracked.machine.kernel.scheduleStarted = 1)
    (hstep : bootStep isExecutable b (.tick f) = some b') :
    OneShellEach b' ∧ Booting b'.tracked b'.tracked.executed := by
  obtain ⟨hs, hticks⟩ := bootStep_eq_some hstep
  have hthree := h.started.mp hstarted
  have hlaunched := h.launched
  have hticks' : b'.ticks = b.ticks + 1 := hticks
  obtain ⟨o, ho, htrack⟩ := trackedStep_happens hs
  rcases hboot with ⟨hzero, _⟩ | ⟨a, hused, htasks, hqueue⟩
  · omega
  · cases ho with
    | @switch f i hf _ hslot =>
      obtain ⟨hi, hbusy, hruns⟩ := hqueue.runs.switch f hslot
      have hexecuted : b'.tracked.executed = b.tracked.executed := by
        rw [htrack]
        exact track_executed_of_quiet rfl
      have hprocs : b'.tracked.procs = b.tracked.procs := by
        rw [htrack]
        exact track_procs_of_quiet rfl rfl
      have hkernel : b'.tracked.machine.kernel =
          (switchTo (saveStack b.tracked.machine.kernel f) (currentPCB f.esp) i).kernel := by
        rw [htrack]
        rfl
      refine ⟨h.same hexecuted (by omega) ?_ ?_ ?_, Or.inr ⟨a.switch i hi hbusy, ?_, ?_, ?_, ?_⟩⟩
      · intro addr
        rw [hkernel]
        exact switch_sameProcess _ f i addr
      · rw [hkernel, switchTo_activeTerminal, saveStack_activeTerminal]
        exact h.counter
      · rw [hkernel, switchTo_scheduleStarted, saveStack_scheduleStarted]
      · rw [hexecuted]
        exact hused
      · rw [hexecuted, hkernel, switchTo_totalTasks, saveStack_totalTasks]
        exact htasks
      · rw [hkernel]
        exact hruns
      · rw [hprocs]
        exact hqueue.recorded.switch hi hbusy
    | startup hf hne hl => exact absurd hstarted hne
    | startupRefused hf hne hl => exact absurd hstarted hne

theorem OneShellEach.key {terminal : Nat} (h : OneShellEach b)
    (hboot : Booting b.tracked b.tracked.executed)
    (hstep : bootStep isExecutable b (.key terminal) = some b') :
    OneShellEach b' ∧ Booting b'.tracked b'.tracked.executed := by
  obtain ⟨t, hs, rfl⟩ := Option.map_eq_some_iff.mp hstep
  obtain ⟨o, ho, rfl⟩ := trackedStep_happens hs
  cases ho with
  | key ht =>
    refine ⟨⟨h.launched, h.terminals, Nat.le_of_lt ht, h.started⟩, ?_⟩
    rcases hboot with ⟨hzero, hprocs, hidle⟩ | ⟨a, hused, htasks, hqueue⟩
    · exact Or.inl ⟨hzero, hprocs, hidle.bits, hidle.total, hidle.queue, hidle.tss, hidle.starting⟩
    · refine Or.inr ⟨a, hused, htasks, ?_, hqueue.recorded⟩
      exact hqueue.runs.key terminal

end Step

/-! ## Runs -/

theorem oneShellEach_start (memory : Nat → PCB) : OneShellEach (bootStart memory) := by
  refine ⟨rfl, ?_, Nat.le_refl 3, ?_⟩
  · intro p h1 hp
    have hp0 : p ≤ 0 := hp
    omega
  · show (0 : Int) = 1 ↔ 0 = 3
    omega

theorem oneShellEach_step (hshell : isExecutable (parseCommand shellCommand).1 = true) {b b' : Boot}
    {e : BootEvent} (h : OneShellEach b) (hboot : Booting b.tracked b.tracked.executed)
    (hkept : CounterKept b e) (hstep : bootStep isExecutable b e = some b') :
    OneShellEach b' ∧ Booting b'.tracked b'.tracked.executed := by
  cases e with
  | tick f =>
    by_cases hstarted : b.tracked.machine.kernel.scheduleStarted = 1
    · exact h.switchTick hboot hstarted hstep
    · have hf : OnTick b.tracked.machine f := by
        obtain ⟨o, ho, _⟩ := trackedStep_happens (bootStep_eq_some hstep).1
        cases ho with
        | switch hf _ _ => exact hf
        | startup hf _ _ => exact hf
        | startupRefused hf _ _ => exact hf
      exact h.startupTick hshell hboot hstarted (hkept hf hstarted) hstep
  | key terminal => exact h.key hboot hstep

/-- A startup tick that gives its shell the right terminal has found the counter as it should
be. -/
theorem counterKept_of_reaches (hshell : isExecutable (parseCommand shellCommand).1 = true)
    {b : Boot} {e : BootEvent} (h : OneShellEach b) (hboot : Booting b.tracked b.tracked.executed)
    (hreach : Reaches (bootStep isExecutable) OneShellEach b e) : CounterKept b e := by
  cases e with
  | key terminal => trivial
  | tick f =>
    intro hf hstarted
    obtain ⟨b', hstep⟩ := exists_startup_tick hf hstarted
    have hnext := hreach b' hstep
    have h3 := h.executed_lt hstarted
    obtain ⟨_, hexecuted, hkernel⟩ := hboot.tick hshell h3 hstarted (bootStep_eq_some hstep).1
    obtain ⟨_, hterminal, _⟩ := hboot.pcbs_tick (f := f) h3 (parseCommand shellCommand).2
    have hright := (hnext.terminals (b.tracked.executed + 1) (by omega) (by omega)).2
    rw [hkernel, hterminal] at hright
    have hcounter := h.counter
    unfold u32 at hright
    omega

/-- **Startup.** In every state of a run of ticks and key presses each terminal has its shell as
far as there have been ticks, if and only if every startup tick finds the counter as
`scheduler_init` or the tick before left it. -/
theorem startup_iff (hshell : isExecutable (parseCommand shellCommand).1 = true)
    (memory : Nat → PCB) (events : List BootEvent) :
    Along (bootStep isExecutable) (Reaches (bootStep isExecutable) OneShellEach)
        (bootStart memory) events ↔
      Along (bootStep isExecutable) CounterKept (bootStart memory) events :=
  along_reaches_iff (A := fun b => Booting b.tracked b.tracked.executed)
    (fun _ _ _ h hboot hkept hstep => oneShellEach_step hshell h hboot hkept hstep)
    (fun _ _ h hboot hreach => counterKept_of_reaches hshell h hboot hreach)
    (oneShellEach_start memory) (booting_start memory)

/-- The three startup ticks and one more, with a terminal switch after startup. -/
def quietStartup : List BootEvent :=
  [.tick (frameOf 0), .tick (frameOf 1), .tick (frameOf 2), .key 1, .tick (frameOf 3)]

theorem startup_quiet :
    Along (bootStep programs) (Reaches (bootStep programs) OneShellEach)
      (bootStart fun _ => zeroPCB) quietStartup :=
  (startup_iff (by decide) _ _).mpr (by decide +kernel)

/-- Alt+F1 before the first tick: the counter wraps below 0. -/
theorem startup_wraps :
    ¬ ∀ (isExecutable : List UInt8 → Bool) (memory : Nat → PCB) (events : List BootEvent),
      isExecutable (parseCommand shellCommand).1 = true →
        Along (bootStep isExecutable) (Reaches (bootStep isExecutable) OneShellEach)
          (bootStart memory) events := by
  intro hall
  have hrun := hall programs (fun _ => zeroPCB) [.key 0, .tick (frameOf 0)] (by decide)
  have hcounter : (run (bootStep programs) (bootStart fun _ => zeroPCB)
      [.key 0, .tick (frameOf 0)]).map (fun b => b.tracked.machine.kernel.activeTerminal) =
        some 4294967295 := by
    decide +kernel
  obtain ⟨b, hb, hwrapped⟩ := Option.map_eq_some_iff.mp hcounter
  obtain ⟨b₁, hb₁, hrest⟩ := run_cons.mp hb
  obtain ⟨b₂, hb₂, hend⟩ := run_cons.mp hrest
  cases hend
  have hsound := (along_cons hrun hb₁).2.1 b hb₂
  have hle := hsound.counter
  omega

end LinuxBasedOS.Process
