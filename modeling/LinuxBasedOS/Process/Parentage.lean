import LinuxBasedOS.Process.RunQueue

/-!
# Who a child returns to

Whether a process has a parent is decided by its pid: `PCB_init` gives a parent to the pids above
3 only, and `halt` of the others starts a shell. The pids are given out lowest first, to the
shells that the scheduler starts and to the programs that processes execute alike, so a program
that is executed before the three shells are there gets the pid of a shell.

A pid does not tell a process from the one that had the pid before it. `Lineage` numbers the
launches of a run: it keeps the number of the process under each pid, and the number of the
process whose `execute` started it.

`child_returns_to_executor` says that a child returns to the process that executed it, in every run
in which `execute` calls come after the three shells and find a free pid, the startup ticks find
one of the three pids and a slot free, and no base shell exits that a live process was executed by.
-/

namespace LinuxBasedOS.Process

open Word Lib Transition

variable {isExecutable : List UInt8 → Bool}

/-! ## Runs with numbered processes -/

structure Lineage where
  tracked : Tracked
  serial : Nat → Nat
  executor : Nat → Option Nat

/-- The number of the process that makes an `execute` call. -/
def executorOf (g : Lineage) (e : Event) : Option Nat :=
  (caller g.tracked.machine e).map g.serial

def lineageTrack (g : Lineage) (e : Event) (o : Outcome) : Lineage where
  tracked := track g.tracked e o
  serial := match o.launch with
    | none => g.serial
    | some l => Function.update g.serial l.pid g.tracked.executed
  executor := match o.launch with
    | none => g.executor
    | some l => Function.update g.executor l.pid (executorOf g e)

def lineageStep (isExecutable : List UInt8 → Bool) (g : Lineage) (e : Event) : Option Lineage :=
  (outcome isExecutable g.tracked.machine e).map (lineageTrack g e)

def lineageStart (memory : Nat → PCB) : Lineage where
  tracked := start memory
  serial := fun _ => 0
  executor := fun _ => none

theorem lineageStep_happens {g g' : Lineage} {e : Event}
    (h : lineageStep isExecutable g e = some g') :
    ∃ o, Happens isExecutable g.tracked.machine e o ∧ g' = lineageTrack g e o := by
  obtain ⟨o, ho, rfl⟩ := Option.map_eq_some_iff.mp h
  exact ⟨o, happens_of_outcome ho, rfl⟩

theorem lineageTrack_of_quiet {g : Lineage} {e : Event} {o : Outcome} (hlaunch : o.launch = none) :
    (lineageTrack g e o).serial = g.serial ∧ (lineageTrack g e o).executor = g.executor := by
  simp only [lineageTrack, hlaunch, and_self]

/-! ## Parents -/

/-- Every live process that an `execute` call started has the PCB of its caller for a parent, and
the caller is alive; the shells have no parent. -/
structure Parented (g : Lineage) : Prop where
  distinct : (g.tracked.procs.map Proc.pid).Nodup
  child : ∀ c ∈ g.tracked.procs, ∀ q, c.caller = some q →
    3 < c.pid ∧ (pcbOf g.tracked c.pid).parentAddr = pcbAddr q ∧ Live g.tracked.procs q ∧
      g.executor c.pid = some (g.serial q)
  shell : ∀ c ∈ g.tracked.procs, c.caller = none →
    c.pid ≤ 3 ∧ (pcbOf g.tracked c.pid).parentAddr = -1

/-- When a process halts that an `execute` call of `q` started, the same `q` goes on: no shell is
launched, memory, kernel stack and stack are those of `q`, and `q` takes the slot of the process
in the run queue. -/
def ReturnsToExecutor (isExecutable : List UInt8 → Bool) (g : Lineage) (e : Event) : Prop :=
  ∀ o, outcome isExecutable g.tracked.machine e = some o →
    ∀ c ∈ g.tracked.procs, o.halted = some c.pid → ∀ q, c.caller = some q →
      o.launch = none ∧
      Live (afterHalt g.tracked.procs o.halted) q ∧ g.executor c.pid = some (g.serial q) ∧
      o.machine.stack = pcbAddr q ∧ o.machine.kernel.tssEsp0 = kernelStackAddr q ∧
      o.machine.kernel.pageDir cpIndex = pageEntry q ∧
      ∃ i < 7, g.tracked.machine.kernel.priorityListPid i = c.pid ∧
        o.machine.kernel.priorityListPid =
          Function.update g.tracked.machine.kernel.priorityListPid i q

/-- A startup tick finds one of the first three bits clear and a free slot. An `execute` that
passes its checks finds the first three bits set and another one clear. A base shell halts only
when no live process was executed by it. -/
def KeepsParents (isExecutable : List UInt8 → Bool) (g : Lineage) : Event → Prop
  | .tick _ => g.tracked.machine.kernel.scheduleStarted ≠ 1 →
    g.tracked.machine.kernel.totalTasks < 7 →
      (∃ i < 3, g.tracked.machine.kernel.pidBitpattern i = 0) ∧
        ∃ i < 7, g.tracked.machine.kernel.priorityListPid i ≤ 0
  | .execute _ command =>
    1 ≤ strlen command ∧ g.tracked.machine.kernel.totalTasks < 7 ∧
      isExecutable (parseCommand command).1 = true →
        (∀ i < 3, g.tracked.machine.kernel.pidBitpattern i ≠ 0) ∧
          ∃ i < 7, g.tracked.machine.kernel.pidBitpattern i = 0
  | .halt f _ => (g.tracked.machine.kernel.pcbs (currentPCB f.esp)).pid ≤ 3 →
    ∀ c ∈ g.tracked.procs,
      c.caller ≠ some (g.tracked.machine.kernel.pcbs (currentPCB f.esp)).pid
  | _ => True

instance (isExecutable : List UInt8 → Bool) (g : Lineage) :
    (e : Event) → Decidable (KeepsParents isExecutable g e)
  | .tick _ => inferInstanceAs (Decidable (_ → _ → _))
  | .execute _ _ => inferInstanceAs (Decidable (_ → _))
  | .halt _ _ => inferInstanceAs (Decidable (_ → _))
  | .pageFault | .key _ => .isTrue trivial

/-! ## The invariant -/

/-- The record of the run and the chains: the processes of the chains are alive, and a live child
is in a chain. -/
structure ParentInv (g : Lineage) (a : Chains) : Prop where
  runs : RunsAs g.tracked.machine.kernel a
  parented : Parented g
  range : ∀ c ∈ g.tracked.procs, 1 ≤ c.pid ∧ c.pid ≤ a.used
  live : ∀ i < 7, ∀ p ∈ a.chain i, Live g.tracked.procs p
  chained : ∀ c ∈ g.tracked.procs, ∀ q, c.caller = some q → ∃ i < 7, c.pid ∈ a.chain i

theorem pcbAddr_int {p : Nat} (hp : p ≤ 7) : u32 (pcbAddr p : Int) = pcbAddr p := by
  have haddr := pcbAddr_of_le (p := p) (by omega)
  exact u32_natCast (by omega)

namespace ParentInv

variable {g g' : Lineage} {a b : Chains}

theorem live_range (h : ParentInv g a) {p : Nat} (hp : Live g.tracked.procs p) :
    1 ≤ p ∧ p ≤ a.used := by
  obtain ⟨c, hc, rfl⟩ := hp
  exact h.range c hc

/-- A live child stands in a chain, with the process that executed it below it. -/
theorem below (h : ParentInv g a) {c : Proc} {q : Nat} (hc : c ∈ g.tracked.procs)
    (hq : c.caller = some q) : ∃ i < 7, c.pid ∈ a.chain i ∧ q ∈ (a.chain i).tail := by
  obtain ⟨i, hi, hmem⟩ := h.chained c hc q hq
  obtain ⟨h3, hparent, hlive, _⟩ := h.parented.child c hc q hq
  obtain ⟨r, hr, hlink⟩ := (h.runs.links i hi).parent (a.shape i hi) hmem h3
  have hused := a.used_le
  have hqr := h.live_range hlive
  have hrr := a.range i hi r (List.mem_of_mem_tail hr)
  have haddr : pcbAddr q = pcbAddr r := by
    rw [← hlink, ← pcbAddr_int (by omega : q ≤ 7)]
    exact congrArg u32 hparent.symm
  rw [pcbAddr_inj (by omega) (by omega)] at haddr
  exact ⟨i, hi, hmem, haddr ▸ hr⟩

/-- The child that runs has executed no live process. -/
theorem caller_ne_running (h : ParentInv g a) (h3 : 3 < a.running) {c : Proc}
    (hc : c ∈ g.tracked.procs) : c.caller ≠ some a.running := by
  intro hq
  obtain ⟨i, hi, _, htail⟩ := h.below hc hq
  obtain rfl := a.unique i hi a.current a.current_lt a.running (List.mem_of_mem_tail htail)
    a.running_mem h3
  have hnodup := a.nodup a.current a.current_lt
  rw [a.chain_current] at hnodup htail
  exact (List.nodup_cons.mp hnodup).1 htail

/-- A step that launches and ends no process. -/
theorem quiet (h : ParentInv g a) {e : Event} {o : Outcome} (hlaunch : o.launch = none)
    (hhalted : o.halted = none) (hused : b.used = a.used) (hchain : b.chain = a.chain)
    (hruns : RunsAs o.machine.kernel b)
    (hpcbs : ∀ addr, SameProcess (o.machine.kernel.pcbs addr)
      (g.tracked.machine.kernel.pcbs addr)) : ParentInv (lineageTrack g e o) b := by
  have hprocs : (lineageTrack g e o).tracked.procs = g.tracked.procs :=
    track_procs_of_quiet hlaunch hhalted
  obtain ⟨hserial, hexecutor⟩ := lineageTrack_of_quiet (g := g) (e := e) hlaunch
  refine ⟨hruns, ⟨?_, ?_, ?_⟩, ?_, ?_, ?_⟩
  · rw [hprocs]
    exact h.parented.distinct
  · rw [hprocs, hserial, hexecutor]
    intro c hc q hq
    obtain ⟨h3, hparent, hrest⟩ := h.parented.child c hc q hq
    exact ⟨h3, (hpcbs _).parentAddr.trans hparent, hrest⟩
  · rw [hprocs]
    intro c hc hnone
    obtain ⟨h3, hparent⟩ := h.parented.shell c hc hnone
    exact ⟨h3, (hpcbs _).parentAddr.trans hparent⟩
  · rw [hprocs, hused]
    exact h.range
  · rw [hprocs, hchain]
    exact h.live
  · rw [hprocs, hchain]
    exact h.chained

/-! ## Launches -/

/-- The processes that were there keep their parents when a process is launched under another pid
than that of a caller. -/
theorem kept (h : ParentInv g a) {e : Event} {l : Launch} {halted : Option Nat} {c : Proc}
    (hpcbs : ∀ p ≤ a.used, p ≠ l.pid →
      SameProcess (l.kernel.pcbs (pcbAddr p)) (pcbOf g.tracked p))
    (hcallers : ∀ c ∈ g.tracked.procs, c.caller ≠ some l.pid)
    (hc : c ∈ afterHalt g.tracked.procs (some l.pid)) :
    (l.kernel.pcbs (pcbAddr c.pid)).parentAddr = (pcbOf g.tracked c.pid).parentAddr ∧
      ∀ q, c.caller = some q →
        (lineageTrack g e (launched g.tracked.machine l halted)).executor c.pid =
          some ((lineageTrack g e (launched g.tracked.machine l halted)).serial q) := by
  obtain ⟨hmem, hne⟩ := mem_afterHalt.mp hc
  refine ⟨(hpcbs c.pid (h.range c hmem).2 hne).parentAddr, ?_⟩
  intro q hq
  have hqn : q ≠ l.pid := by
    rintro rfl
    exact hcallers c hmem hq
  show Function.update g.executor l.pid (executorOf g e) c.pid =
    some (Function.update g.serial l.pid g.tracked.executed q)
  rw [Function.update_of_ne hne, Function.update_of_ne hqn]
  exact (h.parented.child c hmem q hq).2.2.2

/-- The new process is numbered under its caller. -/
theorem executor_launched {e : Event} {l : Launch} {halted : Option Nat} {q : Nat}
    (hcaller : caller g.tracked.machine e = some q) (hne : q ≠ l.pid) :
    (lineageTrack g e (launched g.tracked.machine l halted)).executor l.pid =
      some ((lineageTrack g e (launched g.tracked.machine l halted)).serial q) := by
  show Function.update g.executor l.pid (executorOf g e) l.pid =
    some (Function.update g.serial l.pid g.tracked.executed q)
  rw [Function.update_self, Function.update_of_ne hne, executorOf, hcaller]
  rfl

/-- What a launch does, whoever makes it: the processes that were there keep their parents, and
the new one has its caller for a parent. -/
theorem launch (h : ParentInv g a) {e : Event} {l : Launch} {halted : Option Nat}
    (hruns : RunsAs l.kernel b) (hused : a.used ≤ b.used) (hpid : 1 ≤ l.pid ∧ l.pid ≤ b.used)
    (hhalted : afterHalt g.tracked.procs halted = afterHalt g.tracked.procs (some l.pid))
    (hpcbs : ∀ p ≤ a.used, p ≠ l.pid →
      SameProcess (l.kernel.pcbs (pcbAddr p)) (pcbOf g.tracked p))
    (hmem : ∀ i < 7, ∀ p ∈ b.chain i, p ∈ a.chain i ∨ p = l.pid)
    (hkept : ∀ i < 7, ∀ p ∈ a.chain i, p ∈ b.chain i)
    (hcallers : ∀ c ∈ g.tracked.procs, c.caller ≠ some l.pid)
    (hshell : caller g.tracked.machine e = none →
      l.pid ≤ 3 ∧ (l.kernel.pcbs (pcbAddr l.pid)).parentAddr = -1)
    (hchild : ∀ q, caller g.tracked.machine e = some q → 3 < l.pid ∧
      (l.kernel.pcbs (pcbAddr l.pid)).parentAddr = pcbAddr q ∧ Live g.tracked.procs q ∧
        q ≠ l.pid ∧ ∃ i < 7, l.pid ∈ b.chain i) :
    ParentInv (lineageTrack g e (launched g.tracked.machine l halted)) b := by
  have hprocs : (lineageTrack g e (launched g.tracked.machine l halted)).tracked.procs =
      newProc g.tracked e l.pid :: afterHalt g.tracked.procs (some l.pid) := by
    rw [← hhalted]
    rfl
  have hlive : ∀ p, p = l.pid ∨ Live g.tracked.procs p →
      Live (newProc g.tracked e l.pid :: afterHalt g.tracked.procs (some l.pid)) p := by
    intro p hp
    exact live_restart.mpr hp
  refine ⟨hruns, ⟨?_, ?_, ?_⟩, ?_, ?_, ?_⟩ <;> rw [hprocs]
  · rw [List.map_cons, List.nodup_cons]
    constructor
    · intro hp
      obtain ⟨c, hc, heq⟩ := List.mem_map.mp hp
      exact (mem_afterHalt.mp hc).2 heq
    · exact h.parented.distinct.sublist (List.filter_sublist.map _)
  · intro c hc q hq
    rcases List.mem_cons.mp hc with rfl | hold
    · obtain ⟨h3, hparent, hlive', hne, _⟩ := hchild q hq
      exact ⟨h3, hparent, hlive q (Or.inr hlive'), executor_launched hq hne⟩
    · obtain ⟨h3, hparent, hlive', _⟩ := h.parented.child c (mem_afterHalt.mp hold).1 q hq
      obtain ⟨hsame, hserials⟩ := h.kept hpcbs hcallers hold
      exact ⟨h3, hsame.trans hparent, hlive q (Or.inr hlive'), hserials q hq⟩
  · intro c hc hnone
    rcases List.mem_cons.mp hc with rfl | hold
    · exact hshell hnone
    · obtain ⟨hmem', hne⟩ := mem_afterHalt.mp hold
      obtain ⟨h3, hparent⟩ := h.parented.shell c hmem' hnone
      exact ⟨h3, (hpcbs c.pid (h.range c hmem').2 hne).parentAddr.trans hparent⟩
  · intro c hc
    rcases List.mem_cons.mp hc with rfl | hold
    · exact hpid
    · obtain ⟨h1, hle⟩ := h.range c (mem_afterHalt.mp hold).1
      exact ⟨h1, hle.trans hused⟩
  · intro i hi p hp
    refine hlive p ?_
    rcases hmem i hi p hp with hp' | heq
    · exact Or.inr (h.live i hi p hp')
    · exact Or.inl heq
  · intro c hc q hq
    rcases List.mem_cons.mp hc with rfl | hold
    · exact (hchild q hq).2.2.2.2
    · obtain ⟨i, hi, hp⟩ := h.chained c (mem_afterHalt.mp hold).1 q hq
      exact ⟨i, hi, hkept i hi c.pid hp⟩

/-- The next pid has no process yet. -/
theorem afterHalt_next (h : ParentInv g a) :
    afterHalt g.tracked.procs none = afterHalt g.tracked.procs (some (a.used + 1)) := by
  symm
  refine List.filter_eq_self.mpr ?_
  intro c hc
  have hrange := h.range c hc
  simp only [bne_iff_ne]
  omega

theorem caller_ne_next (h : ParentInv g a) {c : Proc} (hc : c ∈ g.tracked.procs) :
    c.caller ≠ some (a.used + 1) := by
  intro hq
  have hrange := h.live_range (h.parented.child c hc _ hq).2.2.1
  omega

theorem startup (h : ParentInv g a) {f : Frame} {l : Launch} (h3 : a.used < 3)
    (hslot : ∃ i < 7, g.tracked.machine.kernel.priorityListPid i ≤ 0)
    (hl : execute isExecutable (startupKernel g.tracked.machine.kernel f) f shellCommand = some l) :
    ∃ b, ParentInv (lineageTrack g (.tick f) (launched g.tracked.machine l none)) b := by
  obtain ⟨htasks, _, rfl⟩ := execute_eq_some hl
  have hruns := h.runs.startup f
  have hfree : ∃ slot, freeSlot (startupKernel g.tracked.machine.kernel f).priorityListPid 7 0 =
      some slot := by
    rw [startupKernel_priorityListPid]
    exact exists_freeSlot hslot
  obtain ⟨i, hi, hempty, hpid, _, hruns'⟩ :=
    hruns.launch_base htasks h3 (@launch_initResult _ f (parseCommand shellCommand).2 hfree)
  refine ⟨_, h.launch hruns' ?_ ?_ ?_ ?_ ?_ ?_ ?_ ?_ ?_⟩
  · exact Nat.le_succ _
  · rw [hpid]
    exact ⟨Nat.succ_pos _, le_rfl⟩
  · rw [hpid]
    exact h.afterHalt_next
  · intro p hp _
    rw [hruns.launch_pcbs _ (by omega) hp]
    exact startupKernel_sameProcess _ _ _
  · intro j _ p hp
    rw [hpid]
    exact Chains.mem_start_cases hp
  · intro j _ p hp
    exact Chains.mem_start_of_mem hempty hp
  · rw [hpid]
    intro c hc
    exact h.caller_ne_next hc
  · intro _
    rw [launch_of_freePid (hruns.bits.freePid (by omega))]
    exact ⟨h3, (launchAs_pcb_base _ _ _ _ _ h3).2⟩
  · intro q hq
    cases hq

theorem executed (h : ParentInv g a) {f : Frame} {command : List UInt8} {l : Launch}
    (hused : 3 ≤ a.used) (hf : OnSyscall g.tracked.machine f)
    (hl : execute isExecutable g.tracked.machine.kernel f command = some l)
    (hfound : l.foundPid = true) :
    ∃ b, ParentInv
      (lineageTrack g (.execute f command) (launched g.tracked.machine l none)) b := by
  obtain ⟨htasks, _, rfl⟩ := execute_eq_some hl
  have h7 := h.runs.used_lt hfound
  have hrun := h.runs.onSyscall hf
  have hrange := a.running_range
  have hcaller : caller g.tracked.machine (.execute f command) = some a.running := by
    rw [caller, h.runs.current hf]
  obtain ⟨i, hi, hbusy, hpid, _, _, hruns⟩ :=
    h.runs.launch_child hrun (parseCommand command).2 htasks hused h7
  refine ⟨_, h.launch hruns ?_ ?_ ?_ ?_ ?_ ?_ ?_ ?_ ?_⟩
  · exact Nat.le_succ _
  · rw [hpid]
    exact ⟨Nat.succ_pos _, le_rfl⟩
  · rw [hpid]
    exact h.afterHalt_next
  · intro p hp _
    rw [h.runs.launch_pcbs _ h7 hp]
    exact SameProcess.refl _
  · rw [hpid]
    intro j _ p hp
    exact (Chains.mem_push.mp hp).imp_right And.right
  · intro j _ p hp
    exact Chains.mem_push.mpr (Or.inl hp)
  · rw [hpid]
    intro c hc
    exact h.caller_ne_next hc
  · intro hnone
    rw [hcaller] at hnone
    cases hnone
  · intro q hq
    rw [hcaller] at hq
    cases hq
    rw [hpid]
    exact ⟨Nat.lt_succ_of_le hused, h.runs.launch_child_parentAddr hrun _ hused h7,
      h.live a.current a.current_lt _ a.running_mem, by omega, i, hi,
      Chains.mem_push.mpr (Or.inr ⟨rfl, rfl⟩)⟩

theorem restart (h : ParentInv g a) {f : Frame} {status : UInt8} {l : Launch}
    (hf : OnSyscall g.tracked.machine f)
    (hpid : ¬ 3 < (g.tracked.machine.kernel.pcbs (currentPCB f.esp)).pid)
    (hkeeps : KeepsParents isExecutable g (.halt f status))
    (hl : execute isExecutable (restartKernel g.tracked.machine.kernel f) f shellCommand = some l) :
    ∃ b, ParentInv (lineageTrack g (.halt f status) (launched g.tracked.machine l
      (some (g.tracked.machine.kernel.pcbs (currentPCB f.esp)).pid))) b := by
  obtain ⟨_, _, rfl⟩ := execute_eq_some hl
  have hcallers := hkeeps (by omega)
  rw [h.runs.current hf] at hpid hcallers ⊢
  have h3 : a.running ≤ 3 := by omega
  have hrun := h.runs.onSyscall hf
  have hnew := h.runs.restart_pid hrun (parseCommand shellCommand).2
  obtain ⟨b, hused, _, hmem, hkept, hruns⟩ :=
    h.runs.restart_any hrun h3 (parseCommand shellCommand).2
  refine ⟨b, h.launch hruns hused.ge ?_ ?_ ?_ ?_ hkept ?_ ?_ ?_⟩
  · rw [hnew, hused]
    exact a.running_range
  · rw [hnew]
  · intro p hp hne
    rw [hnew] at hne
    exact h.runs.restart_sameProcess hrun _ hp hne
  · rw [hnew]
    exact hmem
  · rw [hnew]
    exact hcallers
  · intro _
    rw [hnew, h.runs.restart_launch hrun]
    exact ⟨h3, (launchAs_pcb_base _ _ _ _ _ h3).2⟩
  · intro q hq
    cases hq

/-! ## Exits -/

theorem childExit (h : ParentInv g a) {f : Frame} (hf : OnSyscall g.tracked.machine f)
    (hpid : 3 < (g.tracked.machine.kernel.pcbs (currentPCB f.esp)).pid)
    (hprocs : g'.tracked.procs = afterHalt g.tracked.procs
      (some (g.tracked.machine.kernel.pcbs (currentPCB f.esp)).pid))
    (hserial : g'.serial = g.serial) (hexecutor : g'.executor = g.executor)
    (hkernel : g'.tracked.machine.kernel = childExitKernel g.tracked.machine.kernel f) :
    ∃ b, ParentInv g' b := by
  rw [h.runs.current hf] at hpid hprocs
  have hsame := childExitKernel_sameProcess g.tracked.machine.kernel f
  obtain ⟨p, rest, hchain⟩ := a.exists_parent hpid
  have hold : ∀ c ∈ g'.tracked.procs, c ∈ g.tracked.procs ∧ c.pid ≠ a.running := by
    intro c hc
    rw [hprocs] at hc
    exact mem_afterHalt.mp hc
  refine ⟨a.exit p rest hchain, ?_, ⟨?_, ?_, ?_⟩, ?_, ?_, ?_⟩
  · rw [hkernel]
    exact h.runs.exit (h.runs.onSyscall hf) hchain
  · rw [hprocs]
    exact h.parented.distinct.sublist (List.filter_sublist.map _)
  · intro c hc q hq
    obtain ⟨hmem, _⟩ := hold c hc
    obtain ⟨h3, hparent, hlive, hserials⟩ := h.parented.child c hmem q hq
    have hne : q ≠ a.running := by
      rintro rfl
      exact h.caller_ne_running hpid hmem hq
    rw [hprocs, live_afterHalt, hserial, hexecutor, pcbOf, hkernel]
    exact ⟨h3, (hsame _).parentAddr.trans hparent, ⟨hne, hlive⟩, hserials⟩
  · intro c hc hnone
    obtain ⟨h3, hparent⟩ := h.parented.shell c (hold c hc).1 hnone
    rw [pcbOf, hkernel]
    exact ⟨h3, (hsame _).parentAddr.trans hparent⟩
  · intro c hc
    exact h.range c (hold c hc).1
  · intro j hj q hq
    obtain ⟨hmem, hne⟩ := (a.mem_exit hchain hj).mp hq
    rw [hprocs, live_afterHalt]
    exact ⟨hne, h.live j hj q hmem⟩
  · intro c hc q hq
    obtain ⟨hmem, hne⟩ := hold c hc
    obtain ⟨j, hj, hin⟩ := h.chained c hmem q hq
    exact ⟨j, hj, (a.mem_exit hchain hj).mpr ⟨hin, hne⟩⟩

/-- Under the child that runs is the process that executed it. -/
theorem executor_below (h : ParentInv g a) {c : Proc} {q : Nat} (hc : c ∈ g.tracked.procs)
    (hq : c.caller = some q) (hrunning : a.running = c.pid) :
    ∃ rest, a.chain a.current = a.running :: q :: rest := by
  obtain ⟨h3, hparent, hlive, _⟩ := h.parented.child c hc q hq
  rw [← hrunning] at h3 hparent
  obtain ⟨p, rest, hchain⟩ := a.exists_parent h3
  have hlinks := h.runs.links a.current a.current_lt
  rw [hchain] at hlinks
  have hrange := a.range a.current a.current_lt p (by rw [hchain]; simp)
  have hqrange := h.live_range hlive
  have hused := a.used_le
  have haddr : pcbAddr p = pcbAddr q := by
    rw [← hlinks.1, ← pcbAddr_int (by omega : q ≤ 7)]
    exact congrArg u32 hparent
  obtain rfl := (pcbAddr_inj (by omega) (by omega)).mp haddr
  exact ⟨rest, hchain⟩

/-- The child that halts returns to the process that executed it. -/
theorem returns (h : ParentInv g a) (e : Event) : ReturnsToExecutor isExecutable g e := by
  intro o ho c hc hhalted q hq
  obtain ⟨h3, _, hlive, hserials⟩ := h.parented.child c hc q hq
  cases happens_of_outcome ho with
  | @childExit f status hf hpid =>
    have hrunning : a.running = c.pid := by
      rw [← h.runs.current hf]
      exact Option.some.inj hhalted
    have hrun := h.runs.onSyscall hf
    obtain ⟨rest, hchain⟩ := h.executor_below hc hq hrunning
    have hlinks := h.runs.links a.current a.current_lt
    rw [hchain] at hlinks
    have hexit := h.runs.exit hrun hchain
    have hback : (a.exit q rest hchain).running = q := by
      simp [Chains.running, Chains.exit]
    have hne : q ≠ a.running := by
      rintro rfl
      exact h.caller_ne_running (hrunning ▸ h3) hc hq
    refine ⟨rfl, ?_, hserials, ?_, ?_, ?_, a.current, a.current_lt, ?_, ?_⟩
    · show Live (afterHalt g.tracked.procs
        (some (g.tracked.machine.kernel.pcbs (currentPCB f.esp)).pid)) q
      rw [h.runs.current hf, live_afterHalt]
      exact ⟨hne, hlive⟩
    · show currentPCB (g.tracked.machine.kernel.pcbs (currentPCB f.esp)).kebp = _
      rw [hrun.1, hlinks.2.1]
    · show (childExitKernel g.tracked.machine.kernel f).tssEsp0 = _
      rw [hexit.tss, hback]
    · show (childExitKernel g.tracked.machine.kernel f).pageDir cpIndex = _
      rw [hexit.page, hback]
    · rw [h.runs.queue_current, hrunning]
    · show (childExitKernel g.tracked.machine.kernel f).priorityListPid = _
      have hle := (a.exit q rest hchain).running_le
      rw [h.runs.exit_queue hrun hchain, i32_of_pid (hback ▸ hle)]
  | @restart f status l hf hpid hl =>
    rw [← Option.some.inj hhalted] at h3
    exact absurd h3 hpid
  | shellExit hf hpid hl hr =>
    rw [← Option.some.inj hhalted] at h3
    exact absurd h3 hpid
  | switch | startup | startupRefused | executed | refused | fault | key => cases hhalted

/-! ## Steps -/

variable (hshell : isExecutable (parseCommand shellCommand).1 = true)

include hshell

theorem step {e : Event} (h : ParentInv g a) (hkeeps : KeepsParents isExecutable g e)
    (hs : lineageStep isExecutable g e = some g') : ∃ b, ParentInv g' b := by
  obtain ⟨o, ho, rfl⟩ := lineageStep_happens hs
  have hused := a.used_le
  cases ho with
  | switch hf _ hslot =>
    obtain ⟨hi, hbusy, hruns⟩ := h.runs.switch _ hslot
    exact ⟨a.switch _ hi hbusy, h.quiet rfl rfl rfl rfl hruns (switch_sameProcess _ _ _)⟩
  | startup hf hne hl =>
    have htasks := (execute_eq_some hl).1
    rw [startupKernel_totalTasks] at htasks
    obtain ⟨⟨i, hi, hbit⟩, hslot⟩ := hkeeps hne htasks
    -- the bits are set up to `used`
    have h3 : a.used < 3 := by
      by_contra hge
      rw [h.runs.bits i (by omega), if_pos (by omega)] at hbit
      omega
    exact h.startup h3 hslot hl
  | @startupRefused f hf hne hl =>
    exact ⟨a, h.quiet rfl rfl rfl rfl (h.runs.startup f) (startupKernel_sameProcess _ _)⟩
  | executed hf hl =>
    obtain ⟨hset, hfree⟩ := hkeeps (execute_checks hl)
    have h3 : 3 ≤ a.used := by
      by_contra hlt
      refine hset a.used (by omega) ?_
      rw [h.runs.bits a.used (by omega), if_neg (by omega)]
    exact h.executed h3 hf hl (foundPid_of_free hl fun _ => hfree)
  | refused hf hl =>
    exact ⟨a, h.quiet rfl rfl rfl rfl h.runs fun _ => SameProcess.refl _⟩
  | childExit hf hpid => exact h.childExit hf hpid rfl rfl rfl rfl
  | restart hf hpid hl => exact h.restart hf hpid hkeeps hl
  | @shellExit f status r hf hpid hl hr =>
    rw [execute_shell f h.runs.restart_tasks hshell] at hl
    cases hl
  | fault hm =>
    exact ⟨a, h.quiet rfl rfl rfl rfl (h.runs.fault 1) fun _ => SameProcess.refl _⟩
  | @key terminal ht =>
    exact ⟨a, h.quiet rfl rfl rfl rfl (h.runs.key terminal) fun _ => SameProcess.refl _⟩

end ParentInv

/-! ## Runs -/

/-- The first shell has no parent. -/
theorem Idle.parentInv {g : Lineage} {f : Frame} {l : Launch} (h : Idle g.tracked.machine.kernel)
    (hprocs : g.tracked.procs = [])
    (hl : execute isExecutable (startupKernel g.tracked.machine.kernel f) f shellCommand = some l) :
    ParentInv (lineageTrack g (.tick f) (launched g.tracked.machine l none)) Chains.first := by
  obtain ⟨_, _, rfl⟩ := execute_eq_some hl
  obtain ⟨hpid, hruns⟩ := h.startup f (parseCommand shellCommand).2
  have hbits : BitsUpTo (startupKernel g.tracked.machine.kernel f).pidBitpattern 0 := by
    rw [startupKernel_pidBitpattern]
    exact h.bits
  have hparent : ((launch (startupKernel g.tracked.machine.kernel f) f
      (parseCommand shellCommand).2).kernel.pcbs (pcbAddr (1 : Nat))).parentAddr = -1 := by
    rw [launch_of_freePid (hbits.freePid (by omega))]
    exact (launchAs_pcb_base _ _ _ _ _ (by omega)).2
  have hrecord : (lineageTrack g (.tick f) (launched g.tracked.machine
      (launch (startupKernel g.tracked.machine.kernel f) f (parseCommand shellCommand).2)
      none)).tracked.procs = [{ pid := 1, caller := none, base := 1 }] := by
    show newProc g.tracked (.tick f) (launch _ f _).pid :: g.tracked.procs = _
    rw [hpid, hprocs]
    rfl
  refine ⟨hruns, ⟨?_, ?_, ?_⟩, ?_, ?_, ?_⟩ <;> rw [hrecord]
  · exact List.nodup_singleton _
  · intro c hc q hq
    rw [List.mem_singleton.mp hc] at hq
    cases hq
  · intro c hc _
    rw [List.mem_singleton.mp hc]
    exact ⟨by decide, hparent⟩
  · intro c hc
    rw [List.mem_singleton.mp hc]
    exact ⟨le_rfl, le_rfl⟩
  · intro i hi p hp
    obtain ⟨h1, hle⟩ := Chains.first.range i hi p hp
    have hp1 : p = 1 := Nat.le_antisymm hle h1
    exact ⟨_, List.mem_singleton.mpr rfl, hp1.symm⟩
  · intro c hc q hq
    rw [List.mem_singleton.mp hc] at hq
    cases hq

/-- Either no process has been started, or the run has kept the parents. -/
def LineageInv (g : Lineage) : Prop :=
  (g.tracked.procs = [] ∧ Idle g.tracked.machine.kernel) ∨ ∃ a, ParentInv g a

theorem LineageInv.parented {g : Lineage} (h : LineageInv g) : Parented g := by
  rcases h with ⟨hprocs, _⟩ | ⟨a, ha⟩
  · refine ⟨?_, ?_, ?_⟩ <;> rw [hprocs]
    · exact List.nodup_nil
    · intro c hc
      cases hc
    · intro c hc
      cases hc
  · exact ha.parented

theorem LineageInv.returns {g : Lineage} (h : LineageInv g) (e : Event) :
    ReturnsToExecutor isExecutable g e := by
  rcases h with ⟨hprocs, _⟩ | ⟨a, ha⟩
  · intro o _ c hc
    rw [hprocs] at hc
    cases hc
  · exact ha.returns e

theorem LineageInv.step (hshell : isExecutable (parseCommand shellCommand).1 = true)
    {g g' : Lineage} {e : Event} (h : LineageInv g) (hkeeps : KeepsParents isExecutable g e)
    (hs : lineageStep isExecutable g e = some g') : LineageInv g' := by
  rcases h with ⟨hprocs, hidle⟩ | ⟨a, ha⟩
  · obtain ⟨o, ho, rfl⟩ := lineageStep_happens hs
    cases ho with
    | switch hf hstarted hslot => exact absurd hstarted hidle.starting
    | startup hf hne hl => exact Or.inr ⟨_, hidle.parentInv hprocs hl⟩
    | @startupRefused f hf hne hl =>
      have htasks : (startupKernel g.tracked.machine.kernel f).totalTasks < 7 := by
        rw [startupKernel_totalTasks, hidle.total]
        omega
      rw [execute_shell f htasks hshell] at hl
      cases hl
    | executed hf hl => exact absurd hf.1 hidle.not_userRuns
    | refused hf hl => exact absurd hf.1 hidle.not_userRuns
    | childExit hf hpid => exact absurd hf.1 hidle.not_userRuns
    | restart hf hpid hl => exact absurd hf.1 hidle.not_userRuns
    | shellExit hf hpid hl hr => exact absurd hf.1 hidle.not_userRuns
    | fault hm => exact absurd hm hidle.not_userRuns
    | key ht =>
      exact Or.inl ⟨hprocs, hidle.bits, hidle.total, hidle.queue, hidle.tss, hidle.starting⟩
  · exact Or.inr (ha.step hshell hkeeps hs)

/-- **Children return to their callers.** In every state of a run whose steps keep the parents, a
process that an `execute` call started has the PCB of its caller for a parent and the shells have
none; and a process that halts returns to the process that executed it. -/
theorem child_returns_to_executor {memory : Nat → PCB} {es : List Event} {g : Lineage}
    (hshell : isExecutable (parseCommand shellCommand).1 = true)
    (hrun : run (lineageStep isExecutable) (lineageStart memory) es = some g)
    (hkeeps : Along (lineageStep isExecutable) (KeepsParents isExecutable) (lineageStart memory) es) :
    Parented g ∧
      Along (lineageStep isExecutable) (ReturnsToExecutor isExecutable) (lineageStart memory) es := by
  have hstart : LineageInv (lineageStart memory) := Or.inl ⟨rfl, idle_boot memory⟩
  have hstep : ∀ ⦃s e s'⦄, LineageInv s → KeepsParents isExecutable s e →
      lineageStep isExecutable s e = some s' → LineageInv s' := by
    intro s e s' hs hk hse
    exact hs.step hshell hk hse
  constructor
  · exact (run_invariant hstep hrun hkeeps hstart).parented
  · refine along_of_invariant hstep ?_ hkeeps hstart
    intro s e hs _
    exact hs.returns e

/-- Three shells, a program of the third one that runs a program of its own, both exits, and the
exit of the shell. -/
def familyRun : List Event :=
  startupTicks ++ [.execute (frameOf 3) lsCommand, .tick (frameOf 4), .tick (frameOf 1),
    .tick (frameOf 2), .execute (frameOf 4) lsCommand, .halt (frameOf 5) 0, .halt (frameOf 4) 0,
    .halt (frameOf 3) 0]

theorem child_returns_family : ∃ g,
    run (lineageStep programs) (lineageStart fun _ => zeroPCB) familyRun = some g ∧ Parented g ∧
      Along (lineageStep programs) (ReturnsToExecutor programs) (lineageStart fun _ => zeroPCB)
        familyRun := by
  have hsome : (run (lineageStep programs) (lineageStart fun _ => zeroPCB) familyRun).isSome =
      true := by
    decide +kernel
  obtain ⟨g, hg⟩ := Option.isSome_iff_exists.mp hsome
  exact ⟨g, hg, child_returns_to_executor (by decide) hg (by decide +kernel)⟩

/-- A program that the first shell executes before the next tick gets pid 2 and no parent. -/
theorem early_child_has_no_parent :
    ¬ ∀ (isExecutable : List UInt8 → Bool) (memory : Nat → PCB) (es : List Event) (g : Lineage),
      isExecutable (parseCommand shellCommand).1 = true →
      run (lineageStep isExecutable) (lineageStart memory) es = some g →
        Parented g ∧ Along (lineageStep isExecutable) (ReturnsToExecutor isExecutable)
          (lineageStart memory) es := by
  intro hall
  have hsome : (run (lineageStep programs) (lineageStart fun _ => zeroPCB)
      [.tick (frameOf 0), .execute (frameOf 1) lsCommand]).map
        (fun g => (g.tracked.procs, (pcbOf g.tracked 2).parentAddr)) =
      some ([{ pid := 2, caller := some 1, base := 1 }, { pid := 1, caller := none, base := 1 }],
        -1) := by
    decide +kernel
  obtain ⟨g, hg, hvalues⟩ := Option.map_eq_some_iff.mp hsome
  have hprocs := congrArg Prod.fst hvalues
  have hparent : (pcbOf g.tracked 2).parentAddr = -1 := congrArg Prod.snd hvalues
  obtain ⟨hparented, _⟩ := hall programs _ _ g (by decide) hg
  have hmem : { pid := 2, caller := some 1, base := 1 } ∈ g.tracked.procs := by
    rw [show g.tracked.procs = _ from hprocs]
    exact List.mem_cons_self
  have hchild := (hparented.child _ hmem 1 rfl).2.1
  rw [show (pcbOf g.tracked 2).parentAddr = _ from hparent] at hchild
  omega

end LinuxBasedOS.Process
