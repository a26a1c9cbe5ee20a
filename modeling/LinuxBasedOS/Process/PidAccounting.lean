import LinuxBasedOS.Process.History

/-!
# The pids in use

`pid_bitpattern` and `total_tasks` are to count the processes that `execute` has started and
that have not halted. `halt` frees the pid of a base shell; the branch for a process with a
parent does not. As long as only base shells halt, the pids in use are `1, …, n`, and this is
the invariant `PidsDense` from which the accounting follows.
-/

namespace LinuxBasedOS.Process

open Word Transition

variable {isExecutable : List UInt8 → Bool}

/-! ## The pids in use are the first ones -/

structure PidsDense (k : Kernel) (n : Nat) : Prop where
  le_six : n ≤ 6
  bits : BitsUpTo k.pidBitpattern n
  total : k.totalTasks = n + 1
  queue : ∀ i < 7, k.priorityListPid i = -1 ∨ ∃ p, 1 ≤ p ∧ p ≤ n ∧ k.priorityListPid i = (p : Nat)
  pid : ∀ p, 1 ≤ p → p ≤ n → (k.pcbs (pcbAddr p)).pid = p
  running : n = 0 ∧ k.tssEsp0 = 0x800000 ∨ ∃ p, 1 ≤ p ∧ p ≤ n ∧ k.tssEsp0 = kernelStackAddr (p : Nat)

theorem pidsDense_boot (memory : Nat → PCB) : PidsDense (boot memory).kernel 0 := by
  refine ⟨by omega, fun i _ => by simp [boot], rfl, fun i _ => Or.inl rfl, ?_, Or.inl ⟨rfl, rfl⟩⟩
  intro p h1 h0
  omega

theorem PidsDense.congr {k k' : Kernel} {n : Nat} (h : PidsDense k n)
    (hbits : k'.pidBitpattern = k.pidBitpattern) (htotal : k'.totalTasks = k.totalTasks)
    (hqueue : k'.priorityListPid = k.priorityListPid) (htss : k'.tssEsp0 = k.tssEsp0)
    (hsame : ∀ a, SameProcess (k'.pcbs a) (k.pcbs a)) : PidsDense k' n where
  le_six := h.le_six
  bits := by rw [hbits]; exact h.bits
  total := by rw [htotal]; exact h.total
  queue := by rw [hqueue]; exact h.queue
  pid := fun p h1 hn => (hsame _).pid.trans (h.pid p h1 hn)
  running := by rw [htss]; exact h.running

theorem PidsDense.startup {k : Kernel} {n : Nat} (h : PidsDense k n) (f : Frame) :
    PidsDense (startupKernel k f) n := by
  refine h.congr ?_ ?_ ?_ ?_ (startupKernel_sameProcess k f)
  · exact startupKernel_pidBitpattern k f
  · exact startupKernel_totalTasks k f
  · exact startupKernel_priorityListPid k f
  · exact startupKernel_tssEsp0 k f

theorem PidsDense.switch {k : Kernel} {n i : Nat} (h : PidsDense k n) (f : Frame)
    (hslot : slotSearch k.priorityListPid 7 (plannedSchedule k) = some i) :
    PidsDense (switchTo (saveStack k f) (currentPCB f.esp) i).kernel n := by
  obtain ⟨hi, hpos⟩ := slotSearch_spec (plannedSchedule_lt k) hslot
  obtain hfree | ⟨p, hp1, hpn, hp⟩ := h.queue i hi
  · omega
  refine ⟨h.le_six, ?_, ?_, ?_, fun q hq1 hqn => ?_, Or.inr ⟨p, hp1, hpn, ?_⟩⟩
  · rw [switchTo_pidBitpattern, saveStack_pidBitpattern]
    exact h.bits
  · rw [switchTo_totalTasks, saveStack_totalTasks]
    exact h.total
  · rw [switchTo_priorityListPid, saveStack_priorityListPid]
    exact h.queue
  · exact (switch_sameProcess k f i (pcbAddr q)).pid.trans (h.pid q hq1 hqn)
  · rw [switchTo_tssEsp0, saveStack_priorityListPid, hp]

/-- What a launch needs to leave the first `n` pids in use. -/
theorem launchAs_dense {k : Kernel} {n p : Nat} (f : Frame) (args : List UInt8) (hn : n ≤ 6)
    (hbits : BitsUpTo k.pidBitpattern n) (htotal : k.totalTasks = n + 1)
    (hqueue : ∀ i < 7,
      k.priorityListPid i = -1 ∨ ∃ q, 1 ≤ q ∧ q ≤ n ∧ k.priorityListPid i = (q : Nat))
    (hpid : ∀ q, 1 ≤ q → q ≤ n → q ≠ p → (k.pcbs (pcbAddr q)).pid = q) (hp1 : 1 ≤ p)
    (hpn : p ≤ n) : PidsDense (launchAs k f p true args).kernel n := by
  refine ⟨hn, hbits, htotal, fun i hi => ?_, fun q hq1 hqn => ?_, Or.inr ⟨p, hp1, hpn, rfl⟩⟩
  · obtain hsame | ⟨slot, hslot⟩ := launchAs_queue k f p true args
    · rw [hsame]
      exact hqueue i hi
    · rw [hslot]
      by_cases his : i = slot
      · refine Or.inr ⟨p, hp1, hpn, ?_⟩
        rw [his, Function.update_self]
        exact i32_of_pid (by omega)
      · rw [Function.update_of_ne his]
        exact hqueue i hi
  · by_cases hqp : q = p
    · rw [hqp]
      exact launchAs_pcb_pid k f p true args
    · rw [launchAs_pcbs_of_ne k f p true args (pcbAddr_ne (by omega) (by omega) hqp)]
      exact hpid q hq1 hqn hqp

/-- A launch that passes its checks takes the pid after the last one in use. -/
theorem PidsDense.launch {k : Kernel} {n : Nat} (h : PidsDense k n) (htasks : k.totalTasks < 7)
    (f : Frame) (args : List UInt8) :
    (launch k f args).foundPid = true ∧ (launch k f args).pid = n + 1 ∧
      PidsDense (launch k f args).kernel (n + 1) := by
  have htotal := h.total
  rw [launch_of_freePid (h.bits.freePid (by omega))]
  refine ⟨rfl, rfl, launchAs_dense f args (by omega) h.bits.take ?_ (fun i hi => ?_)
    (fun q hq1 hqn hne => h.pid q hq1 (by omega)) (by omega) le_rfl⟩
  · rw [taken_totalTasks htasks, htotal]
  · obtain hfree | ⟨p, hp1, hpn, hp⟩ := h.queue i hi
    · exact Or.inl hfree
    · exact Or.inr ⟨p, hp1, by omega, hp⟩

/-- A base shell that exits is started again under its own pid. -/
theorem PidsDense.restart {k : Kernel} {n p : Nat} (h : PidsDense k n) (f : Frame)
    (args : List UInt8) (hp1 : 1 ≤ p) (hpn : p ≤ n) (hp : (k.pcbs (currentPCB f.esp)).pid = p) :
    (Process.launch (restartKernel k f) f args).foundPid = true ∧
      (Process.launch (restartKernel k f) f args).pid = p ∧
        PidsDense (Process.launch (restartKernel k f) f args).kernel n := by
  have hle := h.le_six
  have htotal := h.total
  have hbits := restartKernel_pidBitpattern hp hp1 (by omega)
  have htasks : (restartKernel k f).totalTasks = n := by
    rw [restartKernel_totalTasks (by omega) (by omega), htotal]
    rfl
  have hpid : p - 1 + 1 = p := by omega
  rw [launch_of_freePid (by rw [hbits]; exact h.bits.freePid_release (by omega) hp1 hpn), hpid]
  refine ⟨rfl, rfl, launchAs_dense f args hle ?_ ?_ h.queue
    (fun q hq1 hqn _ => (restartKernel_sameProcess k f _).pid.trans (h.pid q hq1 hqn)) hp1 hpn⟩
  · show BitsUpTo (Function.update (restartKernel k f).pidBitpattern (p - 1) 1) n
    rw [hbits]
    exact h.bits.retake hp1 hpn
  · rw [taken_totalTasks (by omega), htasks]

/-! ## Along a run -/

structure PidInv (isExecutable : List UInt8 → Bool) (t : Tracked) (n : Nat) : Prop where
  dense : PidsDense t.machine.kernel n
  live : ∀ p, Live t.procs p ↔ 1 ≤ p ∧ p ≤ n
  shell : n ≠ 0 → isExecutable (parseCommand shellCommand).1 = true

/-- The process that calls `halt` is a base shell. -/
def HaltsBaseShell (t : Tracked) : Event → Prop
  | .halt f _ => (t.machine.kernel.pcbs (currentPCB f.esp)).pid ≤ 3
  | _ => True

instance (t : Tracked) : (e : Event) → Decidable (HaltsBaseShell t e)
  | .halt _ _ => inferInstanceAs (Decidable (_ ≤ 3))
  | .tick _ | .execute _ _ | .pageFault | .key _ => .isTrue trivial

theorem pidInv_start (memory : Nat → PCB) : PidInv isExecutable (start memory) 0 := by
  refine ⟨pidsDense_boot memory, fun p => ?_, fun h => absurd rfl h⟩
  refine ⟨fun ⟨q, hq, _⟩ => absurd hq (List.not_mem_nil), fun h => ?_⟩
  omega

theorem PidInv.current {t : Tracked} {n : Nat} {f : Frame} (h : PidInv isExecutable t n)
    (hf : OnSyscall t.machine f) :
    1 ≤ (t.machine.kernel.pcbs (currentPCB f.esp)).pid ∧
      (t.machine.kernel.pcbs (currentPCB f.esp)).pid ≤ n := by
  have hle := h.dense.le_six
  obtain ⟨_, hidle⟩ | ⟨p, hp1, hpn, hp⟩ := h.dense.running
  · have hruns := hf.1.1
    rw [hidle] at hruns
    exact absurd rfl hruns
  · have haddr := (hf.currentPCB (by omega) hp).1
    rw [haddr, h.dense.pid p hp1 hpn]
    exact ⟨hp1, hpn⟩

theorem PidInv.launched {t : Tracked} {n : Nat} {k : Kernel} {f : Frame} {command : List UInt8}
    {l : Launch} {e : Event} (h : PidInv isExecutable t n) (hk : PidsDense k n)
    (hshell : isExecutable (parseCommand shellCommand).1 = true)
    (hl : execute isExecutable k f command = some l) :
    PidInv isExecutable (track t e (Process.launched t.machine l none)) (n + 1) := by
  obtain ⟨htasks, _, rfl⟩ := execute_eq_some hl
  obtain ⟨_, hpid, hdense⟩ := hk.launch htasks f (parseCommand command).2
  refine ⟨hdense, fun p => ?_, fun _ => hshell⟩
  show Live (newProc t e _ :: t.procs) p ↔ _
  rw [live_cons, h.live p]
  show (launch k f (parseCommand command).2).pid = p ∨ _ ↔ _
  rw [hpid]
  omega

/-- A step that launches and ends no process. -/
theorem PidInv.quiet {t : Tracked} {e : Event} {o : Outcome} {n : Nat}
    (h : PidInv isExecutable t n) (hlaunch : o.launch = none) (hhalted : o.halted = none)
    (hdense : PidsDense o.machine.kernel n) : PidInv isExecutable (track t e o) n := by
  refine ⟨hdense, ?_, h.shell⟩
  rw [track_procs_of_quiet hlaunch hhalted]
  exact h.live

theorem PidInv.step {t t' : Tracked} {e : Event} {n : Nat} (h : PidInv isExecutable t n)
    (hc : HaltsBaseShell t e) (hs : trackedStep isExecutable t e = some t') :
    ∃ n', PidInv isExecutable t' n' := by
  obtain ⟨o, ho, rfl⟩ := trackedStep_happens hs
  cases ho with
  | switch hf hstarted hslot => exact ⟨n, h.quiet rfl rfl (h.dense.switch _ hslot)⟩
  | startup hf hstarted hl =>
    exact ⟨n + 1, h.launched (h.dense.startup _) (execute_eq_some hl).2.1 hl⟩
  | startupRefused hf hstarted hl => exact ⟨n, h.quiet rfl rfl (h.dense.startup _)⟩
  | executed hf hl =>
    obtain ⟨h1, hn⟩ := h.current hf
    exact ⟨n + 1, h.launched h.dense (h.shell (by omega)) hl⟩
  | refused hf hl => exact ⟨n, h.quiet rfl rfl h.dense⟩
  | childExit hf hpid => exact absurd hc (by simpa [HaltsBaseShell] using hpid)
  | @restart f status l hf hpid hl =>
    obtain ⟨h1, hn⟩ := h.current hf
    obtain ⟨_, _, rfl⟩ := execute_eq_some hl
    obtain ⟨_, hp, hdense⟩ :=
      h.dense.restart f (parseCommand shellCommand).2 h1 hn rfl
    refine ⟨n, hdense, fun p => ?_, h.shell⟩
    show Live (newProc t _ _ :: afterHalt t.procs (some _)) p ↔ _
    rw [live_cons, live_afterHalt, h.live p]
    show (launch _ f _).pid = p ∨ _ ↔ _
    rw [hp]
    omega
  | @shellExit f status r hf hpid hl hr =>
    -- the counter is at most 6 after the decrement, so the restart is never refused
    obtain ⟨h1, hn⟩ := h.current hf
    have htotal := h.dense.total
    have hle := h.dense.le_six
    have htasks : (restartKernel t.machine.kernel f).totalTasks < 7 := by
      rw [restartKernel_totalTasks (by omega) (by omega)]
      omega
    rw [execute_shell f htasks (h.shell (by omega))] at hl
    cases hl
  | fault hm =>
    exact ⟨n, h.quiet rfl rfl (h.dense.congr rfl rfl rfl rfl fun a => SameProcess.refl _)⟩
  | key ht =>
    exact ⟨n, h.quiet rfl rfl (h.dense.congr rfl rfl rfl rfl fun a => SameProcess.refl _)⟩

/-! ## The accounting -/

/-- `pid_bitpattern` and `total_tasks` describe the live processes, and every `execute` that
passes its checks takes a pid that no live process has. -/
structure PidsAccounted (isExecutable : List UInt8 → Bool) (t : Tracked) : Prop where
  bits : ∀ i < 7, t.machine.kernel.pidBitpattern i = 1 ↔ Live t.procs (i + 1)
  total : t.machine.kernel.totalTasks =
    1 + (List.range 7).countP fun i => t.machine.kernel.pidBitpattern i == 1
  execute : ∀ f command, 1 ≤ Lib.strlen command → t.machine.kernel.totalTasks < 7 →
    isExecutable (parseCommand command).1 = true →
      ∃ l, execute isExecutable t.machine.kernel f command = some l ∧ l.foundPid = true ∧
        1 ≤ l.pid ∧ l.pid ≤ 7 ∧ ¬ Live t.procs l.pid
  launch : ∀ e o l, outcome isExecutable t.machine e = some o → o.launch = some l →
    l.foundPid = true ∧ 1 ≤ l.pid ∧ l.pid ≤ 7 ∧ ¬ Live (afterHalt t.procs o.halted) l.pid

theorem PidInv.total_eq {t : Tracked} {n : Nat} (h : PidInv isExecutable t n) :
    t.machine.kernel.totalTasks =
      1 + (List.range 7).countP fun i => t.machine.kernel.pidBitpattern i == 1 := by
  have hcount : (List.range 7).countP (fun i => t.machine.kernel.pidBitpattern i == 1) =
      (List.range 7).countP fun i => decide (i < n) := by
    refine List.countP_congr fun i hi => ?_
    rw [h.dense.bits i (List.mem_range.mp hi)]
    by_cases hin : i < n <;> simp [hin]
  have hdense : ∀ j ≤ 6, (List.range 7).countP (fun i => decide (i < j)) = j := by decide
  rw [hcount, hdense n h.dense.le_six, h.dense.total]
  omega

theorem PidInv.execute_fresh {t : Tracked} {n : Nat} {k : Kernel} {f : Frame}
    {command : List UInt8} {l : Launch} (h : PidInv isExecutable t n) (hk : PidsDense k n)
    (hl : execute isExecutable k f command = some l) :
    l.foundPid = true ∧ 1 ≤ l.pid ∧ l.pid ≤ 7 ∧ ¬ Live t.procs l.pid := by
  obtain ⟨htasks, _, rfl⟩ := execute_eq_some hl
  obtain ⟨hfound, hpid, hdense⟩ := hk.launch htasks f (parseCommand command).2
  have hle := hdense.le_six
  rw [h.live, hpid]
  exact ⟨hfound, by omega, by omega, by omega⟩

theorem PidInv.launch_fresh {t : Tracked} {n : Nat} {e : Event} {o : Outcome} {l : Launch}
    (h : PidInv isExecutable t n) (ho : outcome isExecutable t.machine e = some o)
    (hl : o.launch = some l) :
    l.foundPid = true ∧ 1 ≤ l.pid ∧ l.pid ≤ 7 ∧ ¬ Live (afterHalt t.procs o.halted) l.pid := by
  cases happens_of_outcome ho with
  | startup hf hstarted hexec =>
    cases hl
    exact h.execute_fresh (h.dense.startup _) hexec
  | executed hf hexec =>
    cases hl
    exact h.execute_fresh h.dense hexec
  | @restart f status l' hf hpid hexec =>
    cases hl
    obtain ⟨h1, hn⟩ := h.current hf
    have hle := h.dense.le_six
    obtain ⟨_, _, rfl⟩ := execute_eq_some hexec
    obtain ⟨hfound, hp, _⟩ := h.dense.restart f (parseCommand shellCommand).2 h1 hn rfl
    show _ ∧ _ ∧ _ ∧ ¬ Live (afterHalt t.procs (some _)) _
    rw [live_afterHalt, hp]
    exact ⟨hfound, h1, by omega, fun hlive => hlive.1 rfl⟩
  | @shellExit f status r hf hpid hexec hr =>
    rw [← hr, haltReturn_launch] at hl
    cases hl
  | switch | startupRefused | refused | childExit | fault | key => cases hl

theorem PidInv.accounted {t : Tracked} {n : Nat} (h : PidInv isExecutable t n) :
    PidsAccounted isExecutable t := by
  refine ⟨fun i hi => ?_, h.total_eq, fun f command hlen htasks hexec => ?_, ?_⟩
  · rw [h.dense.bits i hi, h.live]
    by_cases hin : i < n
    · rw [if_pos hin]
      omega
    · rw [if_neg hin]
      omega
  · have hl : execute isExecutable t.machine.kernel f command =
        some (launch t.machine.kernel f (parseCommand command).2) := by
      rw [execute, if_neg (by omega), if_neg (by omega)]
      simp only [hexec, if_true]
    exact ⟨_, hl, h.execute_fresh h.dense hl⟩
  · intro e o l ho hl
    exact h.launch_fresh ho hl

/-- The pids are accounted for in every state of a run in which only base shells halt. -/
theorem pids_accounted_of_base_halts {memory : Nat → PCB} {es : List Event} {t : Tracked}
    (hrun : run (trackedStep isExecutable) (start memory) es = some t)
    (hhalts : Along (trackedStep isExecutable) HaltsBaseShell (start memory) es) :
    PidsAccounted isExecutable t := by
  have hstep : ∀ ⦃s e s'⦄, (∃ n, PidInv isExecutable s n) → HaltsBaseShell s e →
      trackedStep isExecutable s e = some s' → ∃ n, PidInv isExecutable s' n := by
    intro s e s' ⟨n, hn⟩ hc hs
    exact hn.step hc hs
  obtain ⟨n, hn⟩ := run_invariant hstep hrun hhalts ⟨0, pidInv_start memory⟩
  exact hn.accounted

theorem pids_accounted_after_shell_exit : ∃ t,
    run (trackedStep programs) (start fun _ => zeroPCB)
        (startupTicks ++ [.halt (frameOf 3) 0, .execute (frameOf 3) lsCommand]) = some t ∧
      PidsAccounted programs t := by
  have hsome : (run (trackedStep programs) (start fun _ => zeroPCB)
      (startupTicks ++ [.halt (frameOf 3) 0, .execute (frameOf 3) lsCommand])).isSome = true := by
    decide +kernel
  obtain ⟨t, ht⟩ := Option.isSome_iff_exists.mp hsome
  exact ⟨t, ht, pids_accounted_of_base_halts ht (by decide +kernel)⟩

/-- The exit of a child leaves its bit set. -/
theorem child_exit_keeps_bit :
    ¬ ∀ (isExecutable : List UInt8 → Bool) (memory : Nat → PCB) (es : List Event) (t : Tracked),
      run (trackedStep isExecutable) (start memory) es = some t → PidsAccounted isExecutable t := by
  intro hall
  have hsome : ((run (trackedStep programs) (start fun _ => zeroPCB)
      (startupTicks ++ [.execute (frameOf 3) lsCommand, .halt (frameOf 4) 0])).map fun t =>
        (t.machine.kernel.pidBitpattern 3, decide (Live t.procs 4))) = some (1, false) := by
    decide +kernel
  obtain ⟨t, ht, hbit⟩ := Option.map_eq_some_iff.mp hsome
  have hone : t.machine.kernel.pidBitpattern 3 = 1 := congrArg Prod.fst hbit
  have hdead : decide (Live t.procs 4) = false := congrArg Prod.snd hbit
  have hlive := ((hall _ _ _ t ht).bits 3 (by omega)).mp hone
  exact of_decide_eq_false hdead hlive

end LinuxBasedOS.Process
