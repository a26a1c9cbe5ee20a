import LinuxBasedOS.Process.Chains
import LinuxBasedOS.Process.Steps

/-!
# The kernel runs the chains

`RunsAs k a` relates a kernel to the chains it stands for: the run queue holds the heads of
the chains, the PCB of a child points to the one below it, and the page directory, the TSS
and `current_schedule` name the process that runs. One lemma for each operation of the kernel
says that it does what the operation on the chains does.
-/

namespace LinuxBasedOS.Process

open Word

/-- The entry of the run queue that stands for a chain. -/
def entry : List Nat → Int
  | [] => -1
  | p :: _ => p

/-- Every process of the chain was executed on the stack of the one below it. -/
def Linked (k : Kernel) : List Nat → Prop
  | child :: p :: rest =>
    u32 (k.pcbs (pcbAddr child)).parentAddr = pcbAddr p ∧
      currentPCB (k.pcbs (pcbAddr child)).kebp = pcbAddr p ∧ Linked k (p :: rest)
  | _ => True

structure RunsAs (k : Kernel) (a : Chains) : Prop where
  bits : BitsUpTo k.pidBitpattern a.used
  total : k.totalTasks = 1 + min a.used 3 + a.children
  total_le : k.totalTasks ≤ 7
  queue : ∀ i < 7, k.priorityListPid i = entry (a.chain i)
  pid : ∀ p, 1 ≤ p → p ≤ a.used → (k.pcbs (pcbAddr p)).pid = p
  kernelStack : ∀ p, 1 ≤ p → p ≤ a.used → (k.pcbs (pcbAddr p)).kernelStack = kernelStackAddr p
  links : ∀ i < 7, Linked k (a.chain i)
  schedule : k.currentSchedule = a.current
  tss : k.tssEsp0 = kernelStackAddr a.running
  page : k.pageDir cpIndex = pageEntry a.running

/-! ## Entries and links -/

theorem entry_nonneg {chain : List Nat} (h : 0 ≤ entry chain) : chain ≠ [] := by
  intro hnil
  rw [hnil] at h
  simp [entry] at h

theorem entry_nonpos {chain : List Nat} (hpos : ∀ p ∈ chain, 1 ≤ p) (h : entry chain ≤ 0) :
    chain = [] := by
  cases chain with
  | nil => rfl
  | cons p rest =>
    have hp := hpos p List.mem_cons_self
    simp only [entry] at h
    omega

theorem entry_eq_head {chain : List Nat} (h : chain ≠ []) : entry chain = chain.head h := by
  cases chain with
  | nil => exact absurd rfl h
  | cons p rest => rfl

/-- The search for a pid finds a chain with that head. -/
theorem head_of_entry {chain : List Nat} {p : Nat} (hrange : ∀ q ∈ chain, q ≤ 7) (hp : p ≤ 7)
    (h : u32 (entry chain) = p) : ∃ rest, chain = p :: rest := by
  cases chain with
  | nil =>
    simp only [entry, u32] at h
    omega
  | cons q rest =>
    have hq := hrange q List.mem_cons_self
    simp only [entry, u32] at h
    exact ⟨rest, by congr 1; omega⟩

/-- Links are read from the PCBs of children only. -/
theorem Linked.congr {k k' : Kernel} {chain : List Nat} (h : Linked k chain) (hchain : IsChain chain)
    (hsame : ∀ p ∈ chain, 3 < p → SameProcess (k'.pcbs (pcbAddr p)) (k.pcbs (pcbAddr p))) :
    Linked k' chain := by
  induction chain with
  | nil => trivial
  | cons child rest ih =>
    cases rest with
    | nil => trivial
    | cons p rest' =>
      obtain ⟨hparent, hkebp, hrest⟩ := h
      have hchild := hsame child List.mem_cons_self hchain.1
      refine ⟨?_, ?_, ih hrest hchain.2 fun q hq => hsame q (List.mem_cons_of_mem _ hq)⟩
      · rw [hchild.parentAddr]
        exact hparent
      · rw [hchild.kebp]
        exact hkebp

/-- The PCB of a child names a process below it. -/
theorem Linked.parent {k : Kernel} {chain : List Nat} {p : Nat} (h : Linked k chain)
    (hchain : IsChain chain) (hp : p ∈ chain) (h3 : 3 < p) :
    ∃ r ∈ chain.tail, u32 (k.pcbs (pcbAddr p)).parentAddr = pcbAddr r := by
  induction chain with
  | nil => cases hp
  | cons child rest ih =>
    cases rest with
    | nil =>
      have hbase : child ≤ 3 := hchain
      rw [List.mem_singleton] at hp
      omega
    | cons q rest' =>
      obtain ⟨hparent, _, hrest⟩ := h
      rcases List.mem_cons.mp hp with rfl | hp'
      · exact ⟨q, List.mem_cons_self, hparent⟩
      · obtain ⟨r, hr, hlink⟩ := ih hrest hchain.2 hp'
        exact ⟨r, List.mem_cons_of_mem _ hr, hlink⟩

namespace RunsAs

variable {k k' : Kernel} {a : Chains}

theorem queue_current (h : RunsAs k a) : k.priorityListPid a.current = a.running := by
  rw [h.queue a.current a.current_lt]
  exact entry_eq_head a.busy

theorem congr (h : RunsAs k a) (hbits : k'.pidBitpattern = k.pidBitpattern)
    (htotal : k'.totalTasks = k.totalTasks) (hqueue : k'.priorityListPid = k.priorityListPid)
    (hschedule : k'.currentSchedule = k.currentSchedule) (htss : k'.tssEsp0 = k.tssEsp0)
    (hpage : k'.pageDir = k.pageDir) (hsame : ∀ b, SameProcess (k'.pcbs b) (k.pcbs b)) :
    RunsAs k' a where
  bits := by rw [hbits]; exact h.bits
  total := by rw [htotal]; exact h.total
  total_le := by rw [htotal]; exact h.total_le
  queue := by rw [hqueue]; exact h.queue
  pid := fun p h1 hp => (hsame _).pid.trans (h.pid p h1 hp)
  kernelStack := fun p h1 hp => (hsame _).kernelStack.trans (h.kernelStack p h1 hp)
  links := fun i hi => (h.links i hi).congr (a.shape i hi) fun p _ _ => hsame _
  schedule := by rw [hschedule]; exact h.schedule
  tss := by rw [htss]; exact h.tss
  page := by rw [hpage]; exact h.page

/-- A page fault leaves the chains as they are. -/
theorem fault (h : RunsAs k a) (value : Int) : RunsAs { k with exceptionHalt := value } a :=
  h.congr rfl rfl rfl rfl rfl rfl fun _ => SameProcess.refl _

/-- So does the choice of a terminal. -/
theorem key (h : RunsAs k a) (terminal : Nat) : RunsAs { k with activeTerminal := terminal } a :=
  h.congr rfl rfl rfl rfl rfl rfl fun _ => SameProcess.refl _

/-! ## Task switches -/

theorem switch {i : Nat} (h : RunsAs k a) (f : Frame)
    (hslot : slotSearch k.priorityListPid 7 (plannedSchedule k) = some i) :
    ∃ hi hbusy, RunsAs (switchTo (saveStack k f) (currentPCB f.esp) i).kernel
      (a.switch i hi hbusy) := by
  obtain ⟨hi, hpos⟩ := slotSearch_spec (plannedSchedule_lt k) hslot
  rw [h.queue i hi] at hpos
  have hbusy := entry_nonneg hpos
  have hnext : (saveStack k f).priorityListPid i = ((a.switch i hi hbusy).running : Int) := by
    rw [saveStack_priorityListPid, h.queue i hi]
    exact entry_eq_head hbusy
  have hsame := switch_sameProcess k f i
  refine ⟨hi, hbusy, ?_⟩
  exact
    { bits := by
        rw [switchTo_pidBitpattern, saveStack_pidBitpattern]
        exact h.bits
      total := by
        rw [switchTo_totalTasks, saveStack_totalTasks]
        exact h.total
      total_le := by
        rw [switchTo_totalTasks, saveStack_totalTasks]
        exact h.total_le
      queue := by
        rw [switchTo_priorityListPid, saveStack_priorityListPid]
        exact h.queue
      pid := fun p h1 hp => (hsame _).pid.trans (h.pid p h1 hp)
      kernelStack := fun p h1 hp => (hsame _).kernelStack.trans (h.kernelStack p h1 hp)
      links := fun j hj => (h.links j hj).congr (a.shape j hj) fun p _ _ => hsame _
      schedule := rfl
      tss := by rw [switchTo_tssEsp0, hnext]
      page := by rw [switchTo_pageDir, hnext] }

/-! ## Launches -/

theorem used_lt (h : RunsAs k a) {f : Frame} {args : List UInt8}
    (hfound : (launch k f args).foundPid = true) : a.used < 7 := by
  by_contra hused
  rw [launch, h.bits.freePid_none (by omega)] at hfound
  cases hfound

/-- The search of `PCB_init` for the slot of the process that runs ends in the queue. -/
theorem slotOf_running (h : RunsAs k a) :
    ∃ i, i < 7 ∧ slotOf k.priorityListPid a.running = some i ∧
      ∃ rest, a.chain i = a.running :: rest := by
  have hle := a.running_le
  have hcurrent : u32 (k.priorityListPid a.current) = a.running := by
    rw [h.queue_current]
    exact u32_natCast (by omega)
  obtain ⟨i, hi⟩ := Option.ne_none_iff_exists'.mp (slotOf_ne_none a.current_lt hcurrent)
  obtain ⟨hi7, hentry, _⟩ := slotOf_eq_some hi
  rw [h.queue i hi7] at hentry
  refine ⟨i, hi7, hi, head_of_entry (fun q hq => ?_) hle hentry⟩
  exact (a.range i hi7 q hq).2.trans a.used_le

/-- The frame is on the stack of the process that runs. -/
def OnRunning (a : Chains) (f : Frame) : Prop :=
  currentPCB f.esp = pcbAddr a.running ∧ currentPCB f.ebp = pcbAddr a.running

/-- A queue that stands for the chains still does when a slot and its chain get a new head. -/
theorem queue_update {chain : Nat → List Nat} {queue : Nat → Int} {i p : Nat} {rest : List Nat}
    (h : ∀ j < 7, queue j = entry (chain j)) (hp : p ≤ 7) :
    ∀ j < 7, Function.update queue i (i32 p) j = entry (Function.update chain i (p :: rest) j) := by
  intro j hj
  by_cases hji : j = i
  · rw [hji, Function.update_self, Function.update_self]
    exact i32_of_pid hp
  · rw [Function.update_of_ne hji, Function.update_of_ne hji]
    exact h j hj

/-- A launch under pid `p`, in terms of the chains after it. -/
theorem launchAs_runsAs {b : Chains} {f : Frame} {args : List UInt8} {p : Nat}
    (hp : b.running = p) (hbits : BitsUpTo k.pidBitpattern b.used)
    (htotal : k.totalTasks = 1 + min b.used 3 + b.children) (htotal_le : k.totalTasks ≤ 7)
    (hqueue : ∀ i < 7,
      (launchAs k f p true args).kernel.priorityListPid i = entry (b.chain i))
    (hschedule : (launchAs k f p true args).kernel.currentSchedule = b.current)
    (hpid : ∀ q, 1 ≤ q → q ≤ b.used → q ≠ p → (k.pcbs (pcbAddr q)).pid = q)
    (hkernelStack : ∀ q, 1 ≤ q → q ≤ b.used → q ≠ p →
      (k.pcbs (pcbAddr q)).kernelStack = kernelStackAddr q)
    (hlinks : ∀ i < 7, Linked (launchAs k f p true args).kernel (b.chain i)) :
    RunsAs (launchAs k f p true args).kernel b := by
  have hb := b.used_le
  have hple := b.running_le
  have hold : ∀ q ≤ b.used, q ≠ p → (launchAs k f p true args).kernel.pcbs (pcbAddr q) =
      k.pcbs (pcbAddr q) := by
    intro q hq hne
    exact launchAs_pcbs_of_ne k f p true args (pcbAddr_ne (by omega) (by omega) hne)
  refine ⟨hbits, htotal, htotal_le, hqueue, fun q h1 hq => ?_, fun q h1 hq => ?_, hlinks, hschedule,
    ?_, ?_⟩
  · by_cases hqp : q = p
    · rw [hqp]
      exact launchAs_pcb_pid k f p true args
    · rw [hold q hq hqp]
      exact hpid q h1 hq hqp
  · by_cases hqp : q = p
    · rw [hqp]
      exact launchAs_pcb_kernelStack k f p true args
    · rw [hold q hq hqp]
      exact hkernelStack q h1 hq hqp
  · rw [launchAs_tssEsp0, hp]
  · rw [launchAs_pageDir, hp]

/-- The PCBs of the processes that were there keep their links when the next pid is launched. -/
theorem links_launch {f : Frame} (h : RunsAs k a) (args : List UInt8) (h7 : a.used < 7) {j : Nat}
    (hj : j < 7) :
    Linked (launchAs (taken k a.used) f (a.used + 1) true args).kernel (a.chain j) := by
  refine (h.links j hj).congr (a.shape j hj) fun p hp _ => ?_
  have hpu := (a.range j hj p hp).2
  rw [launchAs_pcbs_of_ne _ f _ true args (pcbAddr_ne (by omega) (by omega) (by omega))]
  exact SameProcess.refl _

/-- The next pid leaves the PCBs of the processes that were there as they are. -/
theorem launch_pcbs {f : Frame} (h : RunsAs k a) (args : List UInt8) (h7 : a.used < 7) {p : Nat}
    (hp : p ≤ a.used) :
    (launch k f args).kernel.pcbs (pcbAddr p) = k.pcbs (pcbAddr p) := by
  rw [launch_of_freePid (h.bits.freePid h7),
    launchAs_pcbs_of_ne _ _ _ _ _ (pcbAddr_ne (by omega) (by omega) (by omega))]
  rfl

/-- `execute` of a child pushes it on the chain of the process that runs. -/
theorem launch_child {f : Frame} (h : RunsAs k a) (hf : OnRunning a f) (args : List UInt8)
    (htasks : k.totalTasks < 7) (h3 : 3 ≤ a.used) (h7 : a.used < 7) :
    ∃ i hi hbusy, (launch k f args).pid = a.used + 1 ∧ (launch k f args).slot = some i ∧
      (∃ rest, a.chain i = a.running :: rest) ∧
      RunsAs (launch k f args).kernel (a.push i hi hbusy h3 h7) := by
  have hle := a.running_le
  have hpos := a.running_range
  have htotal := h.total
  obtain ⟨i, hi, hslot, rest, hhead⟩ := h.slotOf_running
  have hbusy : a.chain i ≠ [] := by
    rw [hhead]
    exact List.cons_ne_nil _ _
  rw [launch_of_freePid (h.bits.freePid h7)]
  have hparent :
      (slotOf (taken k a.used).priorityListPid ((taken k a.used).pcbs (currentPCB f.esp)).pid).getD 7 =
        i := by
    show (slotOf k.priorityListPid (k.pcbs (currentPCB f.esp)).pid).getD 7 = i
    rw [hf.1, h.pid a.running hpos.1 hpos.2, hslot]
    rfl
  obtain ⟨_, hslot', hqueue, hschedule, hparentAddr⟩ :=
    launchAs_child (taken k a.used) f (a.used + 1) true args (by omega) hparent
  have htasks' := taken_totalTasks (i := a.used) htasks
  refine ⟨i, hi, hbusy, rfl, hslot', ⟨rest, hhead⟩, ?_⟩
  refine launchAs_runsAs ?_ h.bits.take ?_ (by omega) ?_ hschedule ?_ ?_ ?_
  · simp [Chains.running, Chains.push]
  · rw [htasks', Chains.children_push]
    show _ = 1 + min (a.used + 1) 3 + _
    omega
  · rw [hqueue]
    exact queue_update h.queue (by omega)
  · intro q h1 hq hne
    have hq' : q ≤ a.used + 1 := hq
    exact h.pid q h1 (by omega)
  · intro q h1 hq hne
    have hq' : q ≤ a.used + 1 := hq
    exact h.kernelStack q h1 (by omega)
  · -- the PCBs of the older children are as before, the new one points to the running process
    refine Chains.forall_update (fun j hj => h.links_launch args h7 hj) ?_
    have htop := h.links_launch (f := f) args h7 hi
    rw [hhead] at htop ⊢
    refine ⟨?_, ?_, htop⟩
    · have haddr := pcbAddr_of_le (p := a.running) (by omega)
      rw [hparentAddr, hf.1, i32_of_range (by omega) (by omega)]
      exact u32_natCast (by omega)
    · rw [launchAs_pcb_kebp, hf.2]

/-- The PCB of a child names the process that executed it. -/
theorem launch_child_parentAddr {f : Frame} (h : RunsAs k a) (hf : OnRunning a f)
    (args : List UInt8) (h3 : 3 ≤ a.used) (h7 : a.used < 7) :
    ((launch k f args).kernel.pcbs (pcbAddr (a.used + 1 : Nat))).parentAddr =
      pcbAddr a.running := by
  have hle := a.running_le
  have haddr := pcbAddr_of_le (p := a.running) (by omega)
  rw [launch_of_freePid (h.bits.freePid h7),
    (launchAs_child _ f (a.used + 1) true args (by omega) rfl).2.2.2.2, hf.1]
  exact i32_of_range (by omega) (by omega)

/-- A base shell starts in the first free slot, on a kernel `k'` that differs from `k` only in
the counter and the pids given out. -/
theorem launchAs_start {f : Frame} {args : List UInt8} {p used : Nat} (h : RunsAs k a)
    (hp : 1 ≤ p) (hp3 : p ≤ 3) (hused : p ≤ used) (hmono : a.used ≤ used) (h7 : used ≤ 7)
    (hnew : ∀ q ≤ used, q ≠ p → q ≤ a.used) (hbits : BitsUpTo k'.pidBitpattern used)
    (htotal : k'.totalTasks = 1 + min used 3 + a.children) (htotal_le : k'.totalTasks ≤ 7)
    (hqueue : k'.priorityListPid = k.priorityListPid)
    (hsame : ∀ b, SameProcess (k'.pcbs b) (k.pcbs b))
    (hok : (launchAs k' f p true args).initResult = 0) :
    ∃ i hi, a.chain i = [] ∧ (launchAs k' f p true args).slot = some i ∧
      RunsAs (launchAs k' f p true args).kernel (a.start i p used hi hp hp3 hused hmono h7) := by
  obtain ⟨i, hslot, hslot', hqueue', hschedule⟩ := launchAs_base k' f p true args hp3 hok
  rw [hqueue] at hslot hqueue'
  obtain ⟨hi, hfree⟩ := freeSlot_spec (by omega) hslot
  rw [h.queue i hi] at hfree
  have hempty : a.chain i = [] := entry_nonpos (fun q hq => (a.range i hi q hq).1) hfree
  refine ⟨i, hi, hempty, hslot', ?_⟩
  refine launchAs_runsAs ?_ hbits ?_ htotal_le ?_ hschedule ?_ ?_ ?_
  · simp [Chains.running, Chains.start]
  · rw [htotal, Chains.children_start a hi hp hp3 hused hmono h7 hempty]
    rfl
  · rw [hqueue']
    exact queue_update h.queue (by omega)
  · intro q h1 hq hne
    exact (hsame _).pid.trans (h.pid q h1 (hnew q hq hne))
  · intro q h1 hq hne
    exact (hsame _).kernelStack.trans (h.kernelStack q h1 (hnew q hq hne))
  · refine Chains.forall_update (fun j hj => ?_) trivial
    refine (h.links j hj).congr (a.shape j hj) fun q hq h3q => ?_
    have hqu := (a.range j hj q hq).2
    rw [launchAs_pcbs_of_ne k' f p true args (pcbAddr_ne (by omega) (by omega) (by omega))]
    exact hsame _

/-- `execute` of a base shell in the startup phase. -/
theorem launch_base {f : Frame} {args : List UInt8} (h : RunsAs k a) (htasks : k.totalTasks < 7)
    (h3 : a.used < 3) (hok : (launch k f args).initResult = 0) :
    ∃ i hi, a.chain i = [] ∧ (launch k f args).pid = a.used + 1 ∧
      (launch k f args).slot = some i ∧
      RunsAs (launch k f args).kernel
        (a.start i (a.used + 1) (a.used + 1) hi (by omega) h3 (by omega) (by omega) (by omega)) := by
  have htotal := h.total
  have htasks' := taken_totalTasks (i := a.used) htasks
  rw [launch_of_freePid (h.bits.freePid (by omega))] at hok ⊢
  have hnew : ∀ q ≤ a.used + 1, q ≠ a.used + 1 → q ≤ a.used := fun q hq hne => by omega
  obtain ⟨i, hi, hempty, hslot, hruns⟩ :=
    h.launchAs_start (by omega) h3 le_rfl (by omega) (by omega) hnew h.bits.take
      (show (taken k a.used).totalTasks = _ by omega) (by omega) rfl
      (fun b => SameProcess.refl _) hok
  exact ⟨i, hi, hempty, rfl, hslot, hruns⟩

theorem restart_bits {f : Frame} (h : RunsAs k a) (hf : OnRunning a f) :
    (restartKernel k f).pidBitpattern = Function.update k.pidBitpattern (a.running - 1) 0 := by
  obtain ⟨h1, hle⟩ := a.running_range
  refine restartKernel_pidBitpattern ?_ h1 a.running_le
  rw [hf.1]
  exact h.pid a.running h1 hle

/-- The pid of a base shell that exits is the first free one. -/
theorem restart_freePid {f : Frame} (h : RunsAs k a) (hf : OnRunning a f) :
    freePid (restartKernel k f).pidBitpattern = some (a.running - 1) := by
  obtain ⟨h1, hle⟩ := a.running_range
  rw [h.restart_bits hf]
  exact h.bits.freePid_release a.used_le h1 hle

/-- The `execute` that `halt` of a base shell calls launches the same pid. -/
theorem restart_launch {f : Frame} (h : RunsAs k a) (hf : OnRunning a f) (args : List UInt8) :
    launch (restartKernel k f) f args =
      launchAs (taken (restartKernel k f) (a.running - 1)) f a.running true args := by
  have hpid : a.running - 1 + 1 = a.running := Nat.sub_add_cancel a.running_range.1
  rw [launch_of_freePid (h.restart_freePid hf), hpid]

theorem restart_pid {f : Frame} (h : RunsAs k a) (hf : OnRunning a f) (args : List UInt8) :
    (launch (restartKernel k f) f args).pid = a.running := by
  rw [h.restart_launch hf, launchAs_pid]

theorem restart_sameProcess {f : Frame} (h : RunsAs k a) (hf : OnRunning a f) (args : List UInt8)
    {p : Nat} (hp : p ≤ a.used) (hne : p ≠ a.running) :
    SameProcess ((launch (restartKernel k f) f args).kernel.pcbs (pcbAddr p))
      (k.pcbs (pcbAddr p)) := by
  have h7 := a.used_le
  have hle := a.running_le
  rw [h.restart_launch hf, launchAs_pcbs_of_ne _ _ _ _ _ (pcbAddr_ne (by omega) (by omega) hne)]
  exact restartKernel_sameProcess k f _

theorem restart_taken_bits {f : Frame} (h : RunsAs k a) (hf : OnRunning a f) :
    BitsUpTo (taken (restartKernel k f) (a.running - 1)).pidBitpattern a.used := by
  obtain ⟨h1, hle⟩ := a.running_range
  show BitsUpTo (Function.update (restartKernel k f).pidBitpattern (a.running - 1) 1) a.used
  rw [h.restart_bits hf]
  exact h.bits.retake h1 hle

theorem restart_taken_tasks {f : Frame} (h : RunsAs k a) :
    (taken (restartKernel k f) (a.running - 1)).totalTasks = k.totalTasks := by
  have htotal := h.total
  have htotal_le := h.total_le
  have htasks : (restartKernel k f).totalTasks = k.totalTasks - 1 :=
    restartKernel_totalTasks (by omega) htotal_le
  rw [taken_totalTasks (by omega), htasks]
  omega

/-- The exit of a base shell starts it again, under its own pid, in a free slot. -/
theorem restart {f : Frame} {args : List UInt8} (h : RunsAs k a) (hf : OnRunning a f)
    (h3 : a.running ≤ 3) (hok : (launch (restartKernel k f) f args).initResult = 0) :
    ∃ i hi, a.chain i = [] ∧ (launch (restartKernel k f) f args).pid = a.running ∧
      (launch (restartKernel k f) f args).slot = some i ∧
      RunsAs (launch (restartKernel k f) f args).kernel
        (a.start i a.running a.used hi a.running_range.1 h3 a.running_range.2 le_rfl a.used_le) := by
  obtain ⟨h1, hle⟩ := a.running_range
  have htotal := h.total
  have htotal_le := h.total_le
  have htasks := h.restart_taken_tasks (f := f)
  rw [h.restart_launch hf] at hok ⊢
  obtain ⟨i, hi, hempty, hslot, hruns⟩ :=
    h.launchAs_start h1 h3 hle le_rfl a.used_le (fun q hq _ => hq) (h.restart_taken_bits hf)
      (by omega) (by omega) rfl (restartKernel_sameProcess k f) hok
  exact ⟨i, hi, hempty, rfl, hslot, hruns⟩

/-- With a full queue the base shell goes on in the slot it has. -/
theorem restart_full {f : Frame} (h : RunsAs k a) (hf : OnRunning a f) (h3 : a.running ≤ 3)
    (hfull : freeSlot k.priorityListPid 7 0 = none) (args : List UInt8) :
    RunsAs (launch (restartKernel k f) f args).kernel a := by
  have htotal := h.total
  have htotal_le := h.total_le
  have htasks := h.restart_taken_tasks (f := f)
  have hsame := restartKernel_sameProcess k f
  obtain ⟨hqueue, hschedule⟩ :=
    launchAs_full (taken (restartKernel k f) (a.running - 1)) f a.running true args h3 hfull
  rw [h.restart_launch hf]
  refine launchAs_runsAs rfl (h.restart_taken_bits hf) (by omega) (by omega) ?_ ?_ ?_ ?_ ?_
  · rw [hqueue]
    exact h.queue
  · rw [hschedule]
    exact h.schedule
  · intro q h1 hq _
    exact (hsame _).pid.trans (h.pid q h1 hq)
  · intro q h1 hq _
    exact (hsame _).kernelStack.trans (h.kernelStack q h1 hq)
  · intro j hj
    refine (h.links j hj).congr (a.shape j hj) fun q hq h3q => ?_
    have hqu := (a.range j hj q hq).2
    have hused := a.used_le
    rw [launchAs_pcbs_of_ne _ f a.running true args (pcbAddr_ne (by omega) (by omega) (by omega))]
    exact hsame _

/-- The exit of a base shell, whether the queue has a free slot or not. -/
theorem restart_any {f : Frame} (h : RunsAs k a) (hf : OnRunning a f) (h3 : a.running ≤ 3)
    (args : List UInt8) :
    ∃ b : Chains, b.used = a.used ∧ b.running = a.running ∧
      (∀ i < 7, ∀ p ∈ b.chain i, p ∈ a.chain i ∨ p = a.running) ∧
      (∀ i < 7, ∀ p ∈ a.chain i, p ∈ b.chain i) ∧
      RunsAs (launch (restartKernel k f) f args).kernel b := by
  cases hslot : freeSlot k.priorityListPid 7 0 with
  | none =>
    exact ⟨a, rfl, rfl, fun i _ p hp => Or.inl hp, fun i _ p hp => hp,
      h.restart_full hf h3 hslot args⟩
  | some slot =>
    have hok : (launch (restartKernel k f) f args).initResult = 0 := by
      rw [h.restart_launch hf]
      exact launchAs_initResult_base _ f a.running true args h3 hslot
    obtain ⟨i, hi, hempty, _, _, hruns⟩ := h.restart hf h3 hok
    refine ⟨a.start i a.running a.used hi a.running_range.1 h3 a.running_range.2 le_rfl a.used_le,
      rfl, ?_, ?_, ?_, hruns⟩
    · simp [Chains.running, Chains.start]
    · intro j _ p hp
      exact Chains.mem_start_cases hp
    · intro j _ p hp
      exact Chains.mem_start_of_mem hempty hp

/-! ## Exits -/

/-- A child is in one chain only, so its slot is the current one. -/
theorem slotOf_child (h : RunsAs k a) (hchild : 3 < a.running) :
    slotOf k.priorityListPid a.running = some a.current := by
  obtain ⟨i, hi, hslot, rest, hhead⟩ := h.slotOf_running
  have hi' : i = a.current := by
    refine a.unique i hi a.current a.current_lt a.running ?_ a.running_mem hchild
    rw [hhead]
    exact List.mem_cons_self
  rw [hslot, hi']

/-- The PCB that `halt` of a child takes for its parent's is that of the process below it. -/
theorem exit_parent {f : Frame} {p : Nat} {rest : List Nat} (h : RunsAs k a) (hf : OnRunning a f)
    (hchain : a.chain a.current = a.running :: p :: rest) :
    k.pcbs (u32 (k.pcbs (currentPCB f.esp)).parentAddr) = k.pcbs (pcbAddr p) := by
  have hlinks := h.links a.current a.current_lt
  rw [hchain] at hlinks
  rw [hf.1, hlinks.1]

/-- The parent takes the slot of the child. -/
theorem exit_queue {f : Frame} {p : Nat} {rest : List Nat} (h : RunsAs k a) (hf : OnRunning a f)
    (hchain : a.chain a.current = a.running :: p :: rest) :
    (childExitKernel k f).priorityListPid = Function.update k.priorityListPid a.current (i32 p) := by
  obtain ⟨h1, hle⟩ := a.running_range
  have hshape := a.shape a.current a.current_lt
  rw [hchain] at hshape
  have hp := a.range a.current a.current_lt p (by rw [hchain]; simp)
  have hslot : slotOf k.priorityListPid (k.pcbs (currentPCB f.esp)).pid = some a.current := by
    rw [hf.1, h.pid a.running h1 hle, h.slotOf_child hshape.1]
  rw [childExitKernel_queue (h.exit_parent hf hchain), hslot]
  show Function.update k.priorityListPid a.current (i32 (k.pcbs (pcbAddr p)).pid) = _
  rw [h.pid p hp.1 hp.2]

/-- `halt` of a child takes it off its chain. -/
theorem exit {f : Frame} {p : Nat} {rest : List Nat} (h : RunsAs k a) (hf : OnRunning a f)
    (hchain : a.chain a.current = a.running :: p :: rest) :
    RunsAs (childExitKernel k f) (a.exit p rest hchain) := by
  have hp := a.range a.current a.current_lt p (by rw [hchain]; simp)
  have hused := a.used_le
  have hparent := h.exit_parent hf hchain
  have hsame := childExitKernel_sameProcess k f
  have htotal := h.total
  have htotal_le := h.total_le
  have hchildren := a.children_exit hchain
  have htasks : (childExitKernel k f).totalTasks = k.totalTasks - 1 := by
    show u32 ((k.totalTasks : Int) - 1) = _
    unfold u32
    omega
  refine ⟨h.bits, ?_, by omega, ?_, ?_, ?_, ?_, h.schedule, ?_, ?_⟩
  · rw [htasks]
    show _ = 1 + min a.used 3 + _
    omega
  · rw [h.exit_queue hf hchain]
    exact queue_update h.queue (by omega)
  · intro q hq1 hq
    exact (hsame _).pid.trans (h.pid q hq1 hq)
  · intro q hq1 hq
    exact (hsame _).kernelStack.trans (h.kernelStack q hq1 hq)
  · have hlinks' : ∀ j < 7, Linked (childExitKernel k f) (a.chain j) := by
      intro j hj
      exact (h.links j hj).congr (a.shape j hj) fun q _ _ => hsame _
    refine Chains.forall_update hlinks' ?_
    have htop := hlinks' a.current a.current_lt
    rw [hchain] at htop
    exact htop.2.2
  · rw [childExitKernel_tssEsp0 hparent, h.kernelStack p hp.1 hp.2]
    simp [Chains.running, Chains.exit]
  · rw [childExitKernel_pageDir hparent, h.pid p hp.1 hp.2]
    simp [Chains.running, Chains.exit]

end RunsAs

end LinuxBasedOS.Process
