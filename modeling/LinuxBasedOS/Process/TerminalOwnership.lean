import LinuxBasedOS.Process.Startup

/-!
# The terminals of the shells over restarts

`PCB_init` gives a child the terminal of its parent, and a process with a pid up to 3 the terminal
that is on the display. At startup that is the counter of the scheduler. When `halt` of a base
shell starts the shell again, it is the terminal that the user is looking at, which need not be
the one of the shell that exits.

`terminals_survive_restarts` says that the three shells keep their terminals, and every process the
terminal of its base shell, in every run in which a base shell exits only while its terminal is on
the display and every `execute` finds a free pid.
-/

namespace LinuxBasedOS.Process

open Word Lib Transition

variable {isExecutable : List UInt8 → Bool}

/-- The base shells have the three terminals, and every process has the terminal of its base
shell. -/
structure OwnsTerminals (t : Tracked) : Prop where
  live : ∀ p, 1 ≤ p → p ≤ 3 → Live t.procs p ∧ (pcbOf t p).pid = p
  range : ∀ p, 1 ≤ p → p ≤ 3 → (pcbOf t p).terminalId < 3
  distinct : ∀ p, 1 ≤ p → p ≤ 3 → ∀ r, 1 ≤ r → r ≤ 3 →
    (pcbOf t p).terminalId = (pcbOf t r).terminalId → p = r
  children : ∀ q ∈ t.procs, 1 ≤ q.base ∧ q.base ≤ 3 ∧
    (pcbOf t q.pid).terminalId = (pcbOf t q.base).terminalId

/-- A shell that a `halt` starts has the terminal of the shell that halted. -/
def RestartKeepsTerminal (isExecutable : List UInt8 → Bool) (t : Tracked) (e : Event) : Prop :=
  ∀ o p l, outcome isExecutable t.machine e = some o → o.halted = some p → o.launch = some l →
    (o.machine.kernel.pcbs (pcbAddr l.pid)).terminalId = (pcbOf t p).terminalId

/-- A base shell halts only while its terminal is on the display, and an `execute` that passes its
checks finds a free bit. -/
def RestartsDisplayed (isExecutable : List UInt8 → Bool) (t : Tracked) : Event → Prop
  | .halt f _ => (t.machine.kernel.pcbs (currentPCB f.esp)).pid ≤ 3 →
    t.machine.kernel.activeTerminal = (t.machine.kernel.pcbs (currentPCB f.esp)).terminalId
  | .execute _ command =>
    1 ≤ strlen command ∧ t.machine.kernel.totalTasks < 7 ∧
      isExecutable (parseCommand command).1 = true →
        ∃ i < 7, t.machine.kernel.pidBitpattern i = 0
  | _ => True

instance (isExecutable : List UInt8 → Bool) (t : Tracked) :
    (e : Event) → Decidable (RestartsDisplayed isExecutable t e)
  | .halt _ _ => inferInstanceAs (Decidable (_ → _))
  | .execute _ _ => inferInstanceAs (Decidable (_ → _))
  | .tick _ | .pageFault | .key _ => .isTrue trivial

/-! ## The invariant -/

/-- Shell `p` has terminal `3 - p`, every live process has the terminal of its base shell, and the
processes of the chains are alive. -/
structure TerminalInv (t : Tracked) (a : Chains) : Prop where
  started : t.machine.kernel.scheduleStarted = 1
  used : 3 ≤ a.used
  runs : RunsAs t.machine.kernel a
  shells : ∀ p, 1 ≤ p → p ≤ 3 → Live t.procs p ∧ (pcbOf t p).terminalId = 3 - p
  procs : ∀ q ∈ t.procs, (1 ≤ q.base ∧ q.base ≤ 3) ∧ (1 ≤ q.pid ∧ q.pid ≤ a.used) ∧
    (pcbOf t q.pid).terminalId = 3 - q.base
  live : ∀ i < 7, ∀ p ∈ a.chain i, Live t.procs p

namespace TerminalInv

variable {t t' : Tracked} {a b : Chains}

theorem owns (h : TerminalInv t a) : OwnsTerminals t := by
  refine ⟨?_, ?_, ?_, ?_⟩
  · intro p h1 h3
    exact ⟨(h.shells p h1 h3).1, h.runs.pid p h1 (h3.trans h.used)⟩
  · intro p h1 h3
    rw [(h.shells p h1 h3).2]
    omega
  · intro p h1 h3 r hr1 hr3 heq
    rw [(h.shells p h1 h3).2, (h.shells r hr1 hr3).2] at heq
    omega
  · intro q hq
    obtain ⟨⟨h1, h3⟩, _, hterminal⟩ := h.procs q hq
    refine ⟨h1, h3, ?_⟩
    rw [hterminal, (h.shells q.base h1 h3).2]

/-- A step that launches and ends no process. -/
theorem quiet (h : TerminalInv t a) {e : Event} {o : Outcome} (hlaunch : o.launch = none)
    (hhalted : o.halted = none) (hused : b.used = a.used) (hchain : b.chain = a.chain)
    (hstarted : o.machine.kernel.scheduleStarted = 1) (hruns : RunsAs o.machine.kernel b)
    (hpcbs : ∀ addr, SameProcess (o.machine.kernel.pcbs addr) (t.machine.kernel.pcbs addr)) :
    TerminalInv (track t e o) b := by
  have hprocs := track_procs_of_quiet (t := t) (e := e) hlaunch hhalted
  refine ⟨hstarted, hused ▸ h.used, hruns, ?_, ?_, ?_⟩
  · intro p h1 h3
    obtain ⟨hlive, hterminal⟩ := h.shells p h1 h3
    rw [hprocs]
    exact ⟨hlive, (hpcbs _).terminalId.trans hterminal⟩
  · intro q hq
    rw [hprocs] at hq
    obtain ⟨hbase, hpid, hterminal⟩ := h.procs q hq
    exact ⟨hbase, hused ▸ hpid, (hpcbs _).terminalId.trans hterminal⟩
  · rw [hchain, hprocs]
    exact h.live

/-- The process that makes a system call is the one that runs. -/
theorem current (h : TerminalInv t a) {f : Frame} (hf : OnSyscall t.machine f) :
    t.machine.kernel.pcbs (currentPCB f.esp) = pcbOf t a.running ∧
      (pcbOf t a.running).pid = a.running := by
  have hcurrent : t.machine.kernel.pcbs (currentPCB f.esp) = pcbOf t a.running := by
    rw [(h.runs.onSyscall hf).1]
    rfl
  refine ⟨hcurrent, ?_⟩
  rw [← hcurrent]
  exact h.runs.current hf

/-- What a launch does, whoever makes it: the processes that were there keep their terminals, and
the new one has the terminal of its base shell. -/
theorem launch (h : TerminalInv t a) {q : Proc} {procs : List Proc}
    (hstarted : t'.machine.kernel.scheduleStarted = 1) (hused : a.used ≤ b.used)
    (hruns : RunsAs t'.machine.kernel b) (hprocs : t'.procs = q :: procs)
    (hold : ∀ r ∈ procs, r ∈ t.procs) (hlive : ∀ p, Live t.procs p → Live (q :: procs) p)
    (hkept : ∀ p ≤ a.used, (pcbOf t' p).terminalId = (pcbOf t p).terminalId)
    (hbase : 1 ≤ q.base ∧ q.base ≤ 3) (hpid : 1 ≤ q.pid ∧ q.pid ≤ b.used)
    (hterminal : (pcbOf t' q.pid).terminalId = 3 - q.base)
    (hmem : ∀ j < 7, ∀ p ∈ b.chain j, p ∈ a.chain j ∨ p = q.pid) : TerminalInv t' b := by
  have h3 := h.used
  refine ⟨hstarted, h3.trans hused, hruns, ?_, ?_, ?_⟩ <;> rw [hprocs]
  · intro p hp1 hp3
    obtain ⟨hold, hshell⟩ := h.shells p hp1 hp3
    rw [hkept p (by omega)]
    exact ⟨hlive p hold, hshell⟩
  · intro r hr
    rcases List.mem_cons.mp hr with rfl | hr'
    · exact ⟨hbase, hpid, hterminal⟩
    · obtain ⟨hrbase, ⟨h1, hle⟩, hrterminal⟩ := h.procs r (hold r hr')
      rw [hkept r.pid hle]
      exact ⟨hrbase, ⟨h1, hle.trans hused⟩, hrterminal⟩
  · intro j hj p hp
    rcases hmem j hj p hp with hold | heq
    · exact hlive p (h.live j hj p hold)
    · exact live_cons.mpr (Or.inl heq.symm)

/-! ## Steps -/

/-- A child is recorded under the base shell of the process that runs, whose terminal is that of
the shell. -/
theorem newProc_execute (h : TerminalInv t a) {f : Frame} (hf : OnSyscall t.machine f)
    (command : List UInt8) (pid : Nat) : ∃ base, (1 ≤ base ∧ base ≤ 3) ∧
      (t.machine.kernel.pcbs (currentPCB f.esp)).terminalId = 3 - base ∧
      newProc t (.execute f command) pid =
        { pid := pid, caller := some a.running, base := base } := by
  obtain ⟨hcurrent, hpid⟩ := h.current hf
  have hlive := h.live a.current a.current_lt a.running a.running_mem
  obtain ⟨r, hr, hrpid, hbase⟩ := exists_baseOf hlive
  obtain ⟨hrbase, _, hterminal⟩ := h.procs r hr
  refine ⟨r.base, hrbase, ?_, ?_⟩
  · rw [hcurrent, ← hrpid]
    exact hterminal
  · rw [newProc, caller, hcurrent, hpid, Option.bind_some, hbase]
    rfl

theorem executed (h : TerminalInv t a) {f : Frame} {command : List UInt8} {l : Launch}
    (hf : OnSyscall t.machine f)
    (hl : execute isExecutable t.machine.kernel f command = some l) (hfound : l.foundPid = true)
    (hprocs : t'.procs = newProc t (.execute f command) l.pid :: t.procs)
    (hkernel : t'.machine.kernel = l.kernel) : ∃ b, TerminalInv t' b := by
  obtain ⟨htasks, _, rfl⟩ := execute_eq_some hl
  have hused := h.used
  have h7 := h.runs.used_lt hfound
  obtain ⟨i, hi, hbusy, hnew, _, _, hruns⟩ :=
    h.runs.launch_child (h.runs.onSyscall hf) (parseCommand command).2 htasks hused h7
  obtain ⟨base, hbase, hterminal, hproc⟩ := h.newProc_execute hf command (a.used + 1)
  rw [hnew, hproc] at hprocs
  refine ⟨a.push i hi hbusy hused h7, h.launch ?_ ?_ ?_ hprocs ?_ ?_ ?_ hbase ?_ ?_ ?_⟩
  · rw [hkernel, launch_scheduleStarted]
    exact h.started
  · exact Nat.le_succ _
  · rw [hkernel]
    exact hruns
  · intro r hr
    exact hr
  · intro p hp
    exact live_cons.mpr (Or.inr hp)
  · intro p hp
    rw [pcbOf, hkernel, h.runs.launch_pcbs _ h7 hp]
    rfl
  · exact ⟨Nat.succ_pos _, le_rfl⟩
  · rw [pcbOf, hkernel, launch_of_freePid (h.runs.bits.freePid h7),
      launchAs_pcb_child_terminalId _ _ _ _ _ (by omega)]
    exact hterminal
  · intro j _ p hp
    exact (Chains.mem_push.mp hp).imp_right And.right

theorem childExit (h : TerminalInv t a) {f : Frame} (hf : OnSyscall t.machine f)
    (hpid : 3 < (t.machine.kernel.pcbs (currentPCB f.esp)).pid)
    (hprocs : t'.procs =
      afterHalt t.procs (some (t.machine.kernel.pcbs (currentPCB f.esp)).pid))
    (hkernel : t'.machine.kernel = childExitKernel t.machine.kernel f) :
    ∃ b, TerminalInv t' b := by
  obtain ⟨hcurrent, hrunning⟩ := h.current hf
  rw [hcurrent, hrunning] at hprocs hpid
  have hsame := childExitKernel_sameProcess t.machine.kernel f
  obtain ⟨p, rest, hchain⟩ := a.exists_parent hpid
  refine ⟨a.exit p rest hchain, ?_, h.used, ?_, ?_, ?_, ?_⟩
  · rw [hkernel]
    exact h.started
  · rw [hkernel]
    exact h.runs.exit (h.runs.onSyscall hf) hchain
  · intro q h1 h3
    obtain ⟨hlive, hterminal⟩ := h.shells q h1 h3
    rw [hprocs, live_afterHalt, pcbOf, hkernel]
    exact ⟨⟨by omega, hlive⟩, (hsame _).terminalId.trans hterminal⟩
  · intro q hq
    rw [hprocs] at hq
    obtain ⟨hbase, hrange, hterminal⟩ := h.procs q (List.mem_of_mem_filter hq)
    rw [pcbOf, hkernel]
    exact ⟨hbase, hrange, (hsame _).terminalId.trans hterminal⟩
  · intro j hj q hq
    obtain ⟨hmem, hne⟩ := (a.mem_exit hchain hj).mp hq
    rw [hprocs, live_afterHalt]
    exact ⟨hne, h.live j hj q hmem⟩

/-- A base shell that exits while its terminal is on the display gets its pid and its terminal
again, and the other processes keep theirs. -/
theorem restart_terminals (h : TerminalInv t a) {f : Frame} {status : UInt8} {l : Launch}
    (hf : OnSyscall t.machine f)
    (hpid : ¬ 3 < (t.machine.kernel.pcbs (currentPCB f.esp)).pid)
    (hdisplayed : RestartsDisplayed isExecutable t (.halt f status))
    (hl : execute isExecutable (restartKernel t.machine.kernel f) f shellCommand = some l) :
    l.pid = a.running ∧
      ∀ p ≤ a.used, (l.kernel.pcbs (pcbAddr p)).terminalId = (pcbOf t p).terminalId := by
  obtain ⟨_, _, rfl⟩ := execute_eq_some hl
  obtain ⟨hcurrent, hrunning⟩ := h.current hf
  have hterminal := hdisplayed (by omega)
  rw [hcurrent, hrunning] at hpid
  rw [hcurrent] at hterminal
  have hrun := h.runs.onSyscall hf
  refine ⟨h.runs.restart_pid hrun _, ?_⟩
  intro p hp
  by_cases hpr : p = a.running
  · rw [hpr, h.runs.restart_launch hrun, (launchAs_pcb_base _ _ _ _ _ (by omega)).1]
    exact hterminal
  · exact (h.runs.restart_sameProcess hrun _ hp hpr).terminalId

theorem restart (h : TerminalInv t a) {f : Frame} {status : UInt8} {l : Launch}
    (hf : OnSyscall t.machine f)
    (hpid : ¬ 3 < (t.machine.kernel.pcbs (currentPCB f.esp)).pid)
    (hdisplayed : RestartsDisplayed isExecutable t (.halt f status))
    (hl : execute isExecutable (restartKernel t.machine.kernel f) f shellCommand = some l)
    (hprocs : t'.procs = newProc t (.halt f status) l.pid ::
      afterHalt t.procs (some (t.machine.kernel.pcbs (currentPCB f.esp)).pid))
    (hkernel : t'.machine.kernel = l.kernel) : ∃ b, TerminalInv t' b := by
  obtain ⟨hnew, hkept⟩ := h.restart_terminals hf hpid hdisplayed hl
  obtain ⟨_, _, rfl⟩ := execute_eq_some hl
  obtain ⟨hcurrent, hrunning⟩ := h.current hf
  rw [hcurrent, hrunning] at hpid hprocs
  have h3 : a.running ≤ 3 := by omega
  obtain ⟨h1, _⟩ := a.running_range
  obtain ⟨b, hbused, _, hmem, _, hruns⟩ :=
    h.runs.restart_any (h.runs.onSyscall hf) h3 (parseCommand shellCommand).2
  have hterminals : ∀ p ≤ a.used, (pcbOf t' p).terminalId = (pcbOf t p).terminalId := by
    intro p hp
    rw [pcbOf, hkernel]
    exact hkept p hp
  have hproc : newProc t (.halt f status) a.running =
      { pid := a.running, caller := none, base := a.running } := rfl
  rw [hnew, hproc] at hprocs
  refine ⟨b, h.launch ?_ hbused.ge ?_ hprocs ?_ ?_ hterminals ⟨h1, h3⟩ ?_ ?_ hmem⟩
  · rw [hkernel, launch_scheduleStarted]
    exact h.started
  · rw [hkernel]
    exact hruns
  · intro r hr
    exact List.mem_of_mem_filter hr
  · intro p hp
    exact live_restart.mpr (Or.inr hp)
  · rw [hbused]
    exact a.running_range
  · rw [hterminals a.running a.running_range.2]
    exact (h.shells a.running h1 h3).2

variable (hshell : isExecutable (parseCommand shellCommand).1 = true)

include hshell

theorem step {e : Event} (h : TerminalInv t a) (hdisplayed : RestartsDisplayed isExecutable t e)
    (hs : trackedStep isExecutable t e = some t') : ∃ b, TerminalInv t' b := by
  obtain ⟨o, ho, rfl⟩ := trackedStep_happens hs
  have hstarted := h.started
  cases ho with
  | switch hf _ hslot =>
    obtain ⟨hi, hbusy, hruns⟩ := h.runs.switch _ hslot
    refine ⟨a.switch _ hi hbusy, h.quiet rfl rfl rfl rfl ?_ hruns (switch_sameProcess _ _ _)⟩
    exact (switchTo_scheduleStarted _ _ _).trans hstarted
  | startup hf hne hl => exact absurd hstarted hne
  | startupRefused hf hne hl => exact absurd hstarted hne
  | executed hf hl => exact h.executed hf hl (foundPid_of_free hl hdisplayed) rfl rfl
  | refused hf hl =>
    exact ⟨a, h.quiet rfl rfl rfl rfl hstarted h.runs fun _ => SameProcess.refl _⟩
  | childExit hf hpid => exact h.childExit hf hpid rfl rfl
  | restart hf hpid hl => exact h.restart hf hpid hdisplayed hl rfl rfl
  | @shellExit f status r hf hpid hl hr =>
    rw [execute_shell f h.runs.restart_tasks hshell] at hl
    cases hl
  | fault hm =>
    exact ⟨a, h.quiet rfl rfl rfl rfl hstarted (h.runs.fault 1) fun _ => SameProcess.refl _⟩
  | @key terminal ht =>
    exact ⟨a, h.quiet rfl rfl rfl rfl hstarted (h.runs.key terminal) fun _ => SameProcess.refl _⟩

omit hshell

theorem restartKeepsTerminal {e : Event} (h : TerminalInv t a)
    (hdisplayed : RestartsDisplayed isExecutable t e) : RestartKeepsTerminal isExecutable t e := by
  intro o p l ho hhalted hlaunch
  cases happens_of_outcome ho with
  | childExit => cases hlaunch
  | @restart f status l' hf hpid hl =>
    cases hlaunch
    cases hhalted
    obtain ⟨hcurrent, hrunning⟩ := h.current hf
    obtain ⟨hnew, hterminals⟩ := h.restart_terminals hf hpid hdisplayed hl
    rw [hcurrent, hrunning, hnew]
    exact hterminals a.running a.running_range.2
  | shellExit hf hpid hl hr =>
    rw [← hr, haltReturn_launch] at hlaunch
    cases hlaunch
  | switch | startup | startupRefused | executed | refused | fault | key => cases hhalted

end TerminalInv

/-! ## After startup -/

/-- When startup has come to its end, the shells have their terminals. -/
theorem OneShellEach.terminalInv {b : Boot} (h : OneShellEach b)
    (hboot : Booting b.tracked b.tracked.executed)
    (hstarted : b.tracked.machine.kernel.scheduleStarted = 1) : ∃ a, TerminalInv b.tracked a := by
  have hthree := h.started.mp hstarted
  rcases hboot with ⟨hzero, _⟩ | ⟨a, hused, _, hqueue⟩
  · omega
  · have hlive : ∀ i < 7, ∀ p ∈ a.chain i, Live b.tracked.procs p := by
      intro i hi p hp
      exact hqueue.recorded.live hi hp
    refine ⟨a, hstarted, by omega, hqueue.runs, ?_, ?_, hlive⟩
    · intro p h1 h3
      obtain ⟨i, hi, hlast⟩ := hqueue.recorded.base p h1 (by omega)
      exact ⟨hlive i hi p (List.mem_of_getLast? hlast), (h.terminals p h1 (by omega)).2⟩
    · intro q hq
      obtain ⟨i, hi, hlast, hmem⟩ := hqueue.recorded.mem_chain hq
      have hrange := a.range i hi q.pid (mem_of_mem_withCallers hmem)
      -- no child has been started yet
      have hbase : q.pid = q.base := by
        rcases (a.shape i hi).mem (mem_of_mem_withCallers hmem) with h3 | hlast'
        · omega
        · exact Option.some.inj (hlast'.symm.trans hlast)
      rw [← hbase]
      exact ⟨⟨hrange.1, by omega⟩, hrange, (h.terminals q.pid hrange.1 (by omega)).2⟩

/-- **Terminal ownership.** After a startup that is left to the scheduler, the three base shells
own the three terminals, every process has the terminal of its base shell, and every restarted
shell the terminal of the one before it, in every state of a run in which base shells exit only
while their terminal is on the display and every `execute` finds a free pid. -/
theorem terminals_survive_restarts {memory : Nat → PCB} {boots : List BootEvent} {b : Boot}
    {es : List Event} {t : Tracked} (hshell : isExecutable (parseCommand shellCommand).1 = true)
    (hboot : run (bootStep isExecutable) (bootStart memory) boots = some b)
    (hcounter : Along (bootStep isExecutable) CounterKept (bootStart memory) boots)
    (hstarted : b.tracked.machine.kernel.scheduleStarted = 1)
    (hrun : run (trackedStep isExecutable) b.tracked es = some t)
    (hdisplayed : Along (trackedStep isExecutable) (RestartsDisplayed isExecutable) b.tracked es) :
    OwnsTerminals t ∧
      Along (trackedStep isExecutable) (RestartKeepsTerminal isExecutable) b.tracked es := by
  have hbooted : OneShellEach b ∧ Booting b.tracked b.tracked.executed := by
    refine run_invariant (I := fun c => OneShellEach c ∧ Booting c.tracked c.tracked.executed) ?_
      hboot hcounter ⟨oneShellEach_start memory, booting_start memory⟩
    intro s e s' ⟨hone, hs⟩ hkept hstep
    exact oneShellEach_step hshell hone hs hkept hstep
  have hinv := hbooted.1.terminalInv hbooted.2 hstarted
  have hstep : ∀ ⦃s e s'⦄, (∃ a, TerminalInv s a) → RestartsDisplayed isExecutable s e →
      trackedStep isExecutable s e = some s' → ∃ a, TerminalInv s' a := by
    intro s e s' ⟨a, hs⟩ hd hse
    exact hs.step hshell hd hse
  constructor
  · obtain ⟨a, ha⟩ := run_invariant hstep hrun hdisplayed hinv
    exact ha.owns
  · refine along_of_invariant hstep ?_ hdisplayed hinv
    intro s e ⟨a, hs⟩ hd
    exact hs.restartKeepsTerminal hd

/-- Startup by three ticks. -/
def bootTicks : List BootEvent := [.tick (frameOf 0), .tick (frameOf 1), .tick (frameOf 2)]

/-- The third shell runs a program and exits, with its own terminal on the display. -/
def displayedExit : List Event :=
  [.execute (frameOf 3) lsCommand, .key 2, .halt (frameOf 4) 0, .key 0, .halt (frameOf 3) 0]

theorem terminals_survive_displayed : ∃ b t,
    run (bootStep programs) (bootStart fun _ => zeroPCB) bootTicks = some b ∧
      run (trackedStep programs) b.tracked displayedExit = some t ∧ OwnsTerminals t ∧
      Along (trackedStep programs) (RestartKeepsTerminal programs) b.tracked displayedExit := by
  have hsome : ((run (bootStep programs) (bootStart fun _ => zeroPCB) bootTicks).all fun b =>
      (run (trackedStep programs) b.tracked displayedExit).isSome &&
      decide (b.tracked.machine.kernel.scheduleStarted = 1) &&
      decide (Along (trackedStep programs) (RestartsDisplayed programs) b.tracked displayedExit)) =
        true := by
    decide +kernel
  have hboot : (run (bootStep programs) (bootStart fun _ => zeroPCB) bootTicks).isSome = true := by
    decide +kernel
  obtain ⟨b, hb⟩ := Option.isSome_iff_exists.mp hboot
  rw [hb, Option.all_some, Bool.and_eq_true, Bool.and_eq_true, decide_eq_true_eq,
    decide_eq_true_eq] at hsome
  obtain ⟨⟨hrun, hstarted⟩, hdisplayed⟩ := hsome
  obtain ⟨t, ht⟩ := Option.isSome_iff_exists.mp hrun
  have hcounter : Along (bootStep programs) CounterKept (bootStart fun _ => zeroPCB) bootTicks := by
    decide +kernel
  exact ⟨b, t, hb, ht,
    terminals_survive_restarts (by decide) hb hcounter hstarted ht hdisplayed⟩

/-- The third shell exits while terminal 1 is on the display: it comes back on the terminal of the
second one. -/
theorem restart_takes_displayed_terminal :
    ¬ ∀ (isExecutable : List UInt8 → Bool) (memory : Nat → PCB) (boots : List BootEvent) (b : Boot)
        (es : List Event) (t : Tracked),
      isExecutable (parseCommand shellCommand).1 = true →
      run (bootStep isExecutable) (bootStart memory) boots = some b →
      Along (bootStep isExecutable) CounterKept (bootStart memory) boots →
      b.tracked.machine.kernel.scheduleStarted = 1 →
      run (trackedStep isExecutable) b.tracked es = some t →
        OwnsTerminals t ∧
          Along (trackedStep isExecutable) (RestartKeepsTerminal isExecutable) b.tracked es := by
  intro hall
  have hsome : ((run (bootStep programs) (bootStart fun _ => zeroPCB) bootTicks).bind fun b =>
      (run (trackedStep programs) b.tracked [.key 1, .halt (frameOf 3) 0]).map fun t =>
        (b.tracked.machine.kernel.scheduleStarted, (pcbOf t 2).terminalId,
          (pcbOf t 3).terminalId)) = some (1, 1, 1) := by
    decide +kernel
  obtain ⟨b, hb, hrest⟩ := Option.bind_eq_some_iff.mp hsome
  obtain ⟨t, ht, hvalues⟩ := Option.map_eq_some_iff.mp hrest
  simp only [Prod.mk.injEq] at hvalues
  obtain ⟨hstarted, htwo, hthree⟩ := hvalues
  obtain ⟨howns, _⟩ := hall programs _ bootTicks b _ t (by decide) hb (by decide +kernel) hstarted ht
  have hsame := howns.distinct 2 (by omega) (by omega) 3 (by omega) (by omega)
    (htwo.trans hthree.symm)
  omega

end LinuxBasedOS.Process
