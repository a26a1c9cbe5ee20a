import LinuxBasedOS.Process.Agreement
import LinuxBasedOS.Process.ChainRecord

/-!
# One slot for each base shell

The run queue is to hold, for each base shell, the newest live process of its chain: a
process that waits in `execute` is never scheduled, and a shell that restarts finds a free
slot. `halt` of a base shell does not free the slot of the shell, since the `execute` it calls
does not return; the restarted shell takes a second slot. As long as no base shell exits and
every `execute` finds a free pid, the queue is the one meant.
-/

namespace LinuxBasedOS.Process

open Word Lib Transition

variable {isExecutable : List UInt8 → Bool}

/-! ## What the queue is for -/

/-- The most recently executed live process of a base shell's chain. -/
def newest (procs : List Proc) (base : Nat) : Option Nat :=
  (procs.find? fun q => q.base == base).map Proc.pid

structure QueueSound (isExecutable : List UInt8 → Bool) (t : Tracked) : Prop where
  distinct : ∀ i < 7, ∀ j < 7, 0 < t.machine.kernel.priorityListPid i →
    t.machine.kernel.priorityListPid i = t.machine.kernel.priorityListPid j → i = j
  one_per_shell : ∀ b, 1 ≤ b → b ≤ 3 → ∃! i, i < 7 ∧ 0 < t.machine.kernel.priorityListPid i ∧
    newest t.procs b = some (t.machine.kernel.priorityListPid i).toNat
  newest : ∀ i < 7, 0 < t.machine.kernel.priorityListPid i → ∃! b, 1 ≤ b ∧ b ≤ 3 ∧
    newest t.procs b = some (t.machine.kernel.priorityListPid i).toNat
  unblocked : ∀ i,
    slotSearch t.machine.kernel.priorityListPid 7 (plannedSchedule t.machine.kernel) = some i →
      ∀ q ∈ t.procs, q.caller ≠ some (t.machine.kernel.priorityListPid i).toNat
  slots : ∀ e o l, outcome isExecutable t.machine e = some o → o.launch = some l →
    l.initResult ≠ -1

/-! ## Slots -/

theorem freeSlot_eq_none {list : Nat → Int} {n i : Nat} (hn : i + n ≤ 7)
    (h : freeSlot list n i = none) : ∀ j, i ≤ j → j < i + n → 0 < list j := by
  induction n generalizing i with
  | zero =>
    intro j hij hj
    omega
  | succ n ih =>
    intro j hij hj
    unfold freeSlot at h
    split at h
    · rename_i hpos
      by_cases hji : j = i
      · rw [hji]
        exact hpos
      · by_cases hlast : 6 < i + 1
        · omega
        · rw [if_neg hlast] at h
          exact ih (by omega) h j (by omega) (by omega)
    · cases h

section Slots

variable {procs : List Proc} {a : Chains} {k : Kernel}

theorem Recorded.newest_eq (h : Recorded procs a) {i b : Nat} (hi : i < 7)
    (hlast : (a.chain i).getLast? = some b) : newest procs b = (a.chain i).head? := by
  have hhead : newest procs b = (Process.members procs b).head?.map Prod.fst := by
    rw [newest, ← List.head?_filter, Process.members, List.head?_map, Option.map_map]
    rfl
  rw [hhead, h.members i hi b hlast]
  cases a.chain i with
  | nil => rfl
  | cons p rest => rfl

theorem exists_last {l : List Nat} (h : l ≠ []) : ∃ b, l.getLast? = some b :=
  ⟨l.getLast h, List.getLast?_eq_some_getLast h⟩

/-- There are three base shells and seven slots. -/
theorem Recorded.exists_empty (h : Recorded procs a) : ∃ i < 7, a.chain i = [] := by
  by_contra hnone
  have hlast : ∀ i < 7, ∃ b, (a.chain i).getLast? = some b := by
    intro i hi
    exact exists_last fun hempty => hnone ⟨i, hi, hempty⟩
  obtain ⟨b₀, h₀⟩ := hlast 0 (by omega)
  obtain ⟨b₁, h₁⟩ := hlast 1 (by omega)
  obtain ⟨b₂, h₂⟩ := hlast 2 (by omega)
  obtain ⟨b₃, h₃⟩ := hlast 3 (by omega)
  have hne : ∀ i j b c, i < j → j < 7 → (a.chain i).getLast? = some b →
      (a.chain j).getLast? = some c → b ≠ c := by
    intro i j b c hij hj hb hc hbc
    rw [← hbc] at hc
    have := h.once i (by omega) j hj b hb hc
    omega
  have h01 := hne 0 1 _ _ (by omega) (by omega) h₀ h₁
  have h02 := hne 0 2 _ _ (by omega) (by omega) h₀ h₂
  have h03 := hne 0 3 _ _ (by omega) (by omega) h₀ h₃
  have h12 := hne 1 2 _ _ (by omega) (by omega) h₁ h₂
  have h13 := hne 1 3 _ _ (by omega) (by omega) h₁ h₃
  have h23 := hne 2 3 _ _ (by omega) (by omega) h₂ h₃
  have hle₀ := h.last_le (by omega) h₀
  have hle₁ := h.last_le (by omega) h₁
  have hle₂ := h.last_le (by omega) h₂
  have hle₃ := h.last_le (by omega) h₃
  omega

/-- The search of `PCB_init` finds a free slot if there is one. -/
theorem exists_freeSlot {list : Nat → Int} (h : ∃ i < 7, list i ≤ 0) :
    ∃ slot, freeSlot list 7 0 = some slot := by
  obtain ⟨i, hi, hfree⟩ := h
  refine Option.ne_none_iff_exists'.mp fun hnone => ?_
  have hpos := freeSlot_eq_none (by omega) hnone i (by omega) (by omega)
  omega

theorem Recorded.exists_freeSlot (h : Recorded procs a) (hk : RunsAs k a) :
    ∃ slot, freeSlot k.priorityListPid 7 0 = some slot := by
  obtain ⟨i, hi, hempty⟩ := h.exists_empty
  refine Process.exists_freeSlot ⟨i, hi, ?_⟩
  rw [hk.queue i hi, hempty]
  simp [entry]

/-- With a free slot in the queue, `PCB_init` succeeds. -/
theorem launch_initResult {f : Frame} {args : List UInt8}
    (h : ∃ slot, freeSlot k.priorityListPid 7 0 = some slot) :
    (launch k f args).initResult = 0 := by
  obtain ⟨slot, hslot⟩ := h
  have hinit : ∀ (k' : Kernel) (pid : Nat) (found : Bool),
      k'.priorityListPid = k.priorityListPid → (launchAs k' f pid found args).initResult = 0 := by
    intro k' pid found hqueue
    by_cases hpid : 3 < pid
    · exact (launchAs_child k' f pid found args hpid rfl).1
    · exact launchAs_initResult_base k' f pid found args (by omega) (by rw [hqueue]; exact hslot)
  unfold launch
  dsimp only
  split
  · exact hinit _ _ _ rfl
  · exact hinit _ _ _ rfl

/-- A positive entry is the head of the chain in its slot. -/
theorem RunsAs.chain_of_pos (hk : RunsAs k a) {i : Nat} (hi : i < 7)
    (hpos : 0 < k.priorityListPid i) :
    ∃ rest, a.chain i = (k.priorityListPid i).toNat :: rest := by
  rw [hk.queue i hi] at hpos ⊢
  cases hchain : a.chain i with
  | nil =>
    rw [hchain] at hpos
    simp [entry] at hpos
  | cons p rest => exact ⟨rest, rfl⟩

theorem RunsAs.pos_of_chain (hk : RunsAs k a) {i : Nat} (hi : i < 7) (hbusy : a.chain i ≠ []) :
    0 < k.priorityListPid i ∧ (a.chain i).head? = some (k.priorityListPid i).toNat := by
  cases hchain : a.chain i with
  | nil => exact absurd hchain hbusy
  | cons p rest =>
    have hp := a.range i hi p (by rw [hchain]; exact List.mem_cons_self)
    rw [hk.queue i hi, hchain]
    simp only [entry, List.head?_cons, Int.toNat_natCast, and_true]
    omega

end Slots

/-! ## The queue stands for the record -/

structure QueueInv (t : Tracked) (a : Chains) : Prop where
  runs : RunsAs t.machine.kernel a
  recorded : Recorded t.procs a

namespace QueueInv

variable {t : Tracked} {a : Chains}

theorem slots (h : QueueInv t a) {e : Event} {o : Outcome} {l : Launch}
    (ho : outcome isExecutable t.machine e = some o) (hl : o.launch = some l) :
    l.initResult ≠ -1 := by
  have hfree := h.recorded.exists_freeSlot h.runs
  have hinit : ∀ {k f command}, k.priorityListPid = t.machine.kernel.priorityListPid →
      execute isExecutable k f command = some l → l.initResult ≠ -1 := by
    intro k f command hqueue hexec
    obtain ⟨_, _, rfl⟩ := execute_eq_some hexec
    rw [launch_initResult (by rw [hqueue]; exact hfree)]
    omega
  cases happens_of_outcome ho with
  | startup hf hstarted hexec =>
    cases hl
    exact hinit (startupKernel_priorityListPid _ _) hexec
  | executed hf hexec =>
    cases hl
    exact hinit rfl hexec
  | @restart f status l' hf hpid hexec =>
    cases hl
    exact hinit (k := restartKernel t.machine.kernel f) rfl hexec
  | shellExit hf hpid hexec hr =>
    rw [← hr, haltReturn_launch] at hl
    cases hl
  | switch | startupRefused | refused | childExit | fault | key => cases hl

theorem unblocked (h : QueueInv t a) {i : Nat}
    (hslot : slotSearch t.machine.kernel.priorityListPid 7 (plannedSchedule t.machine.kernel) =
      some i) :
    ∀ q ∈ t.procs, q.caller ≠ some (t.machine.kernel.priorityListPid i).toNat := by
  intro q hq hcaller
  obtain ⟨hi, hpos⟩ := slotSearch_spec (plannedSchedule_lt _) hslot
  have hbusy : a.chain i ≠ [] := by
    rw [h.runs.queue i hi] at hpos
    exact entry_nonneg hpos
  obtain ⟨rest, hchain⟩ := h.runs.chain_of_pos hi (h.runs.pos_of_chain hi hbusy).1
  obtain ⟨j, hj, _, hmem⟩ := h.recorded.mem_chain hq
  rw [hcaller] at hmem
  have htail := caller_mem_tail hmem
  -- the one that waits is in the chain in slot i, where it is the head
  have hmem' : (t.machine.kernel.priorityListPid i).toNat ∈ a.chain i := by
    rw [hchain]
    exact List.mem_cons_self
  obtain rfl := h.recorded.disjoint hi hj hmem' (List.mem_of_mem_tail htail)
  have hnodup := a.nodup i hi
  rw [hchain] at hnodup htail
  exact (List.nodup_cons.mp hnodup).1 htail

/-- A positive entry is the newest process of the base shell of its chain. -/
theorem newest_of_pos (h : QueueInv t a) {i : Nat} (hi : i < 7)
    (hpos : 0 < t.machine.kernel.priorityListPid i) :
    ∃ b, 1 ≤ b ∧ b ≤ 3 ∧ (a.chain i).getLast? = some b ∧
      newest t.procs b = some (t.machine.kernel.priorityListPid i).toNat := by
  obtain ⟨rest, hchain⟩ := h.runs.chain_of_pos hi hpos
  obtain ⟨b, hb⟩ := exists_last (l := a.chain i) (by rw [hchain]; exact List.cons_ne_nil _ _)
  obtain ⟨h1, h3⟩ := h.recorded.last_le hi hb
  refine ⟨b, h1, h3, hb, ?_⟩
  rw [h.recorded.newest_eq hi hb, hchain]
  rfl

/-- A base shell has a positive entry, its newest process. -/
theorem slot_of_base (h : QueueInv t a) (hused : 3 ≤ a.used) {b : Nat} (h1 : 1 ≤ b) (h3 : b ≤ 3) :
    ∃ i < 7, (a.chain i).getLast? = some b ∧ 0 < t.machine.kernel.priorityListPid i ∧
      newest t.procs b = some (t.machine.kernel.priorityListPid i).toNat := by
  obtain ⟨i, hi, hb⟩ := h.recorded.base b h1 (by omega)
  have hbusy : a.chain i ≠ [] := by
    intro hempty
    rw [hempty] at hb
    cases hb
  obtain ⟨hpos, hhead⟩ := h.runs.pos_of_chain hi hbusy
  exact ⟨i, hi, hb, hpos, by rw [h.recorded.newest_eq hi hb, hhead]⟩

theorem entries_distinct (h : QueueInv t a) {i j : Nat} (hi : i < 7) (hj : j < 7)
    (hpos : 0 < t.machine.kernel.priorityListPid i)
    (heq : t.machine.kernel.priorityListPid i = t.machine.kernel.priorityListPid j) : i = j := by
  obtain ⟨resti, hchaini⟩ := h.runs.chain_of_pos hi hpos
  obtain ⟨restj, hchainj⟩ := h.runs.chain_of_pos hj (heq ▸ hpos)
  refine h.recorded.disjoint (p := (t.machine.kernel.priorityListPid i).toNat) hi hj ?_ ?_
  · rw [hchaini]
    exact List.mem_cons_self
  · rw [hchainj, heq]
    exact List.mem_cons_self

theorem sound (h : QueueInv t a) (hused : 3 ≤ a.used) : QueueSound isExecutable t := by
  refine ⟨fun i hi j hj hpos heq => h.entries_distinct hi hj hpos heq, fun b h1 h3 => ?_,
    fun i hi hpos => ?_, fun i hi => h.unblocked hi, fun e o l ho hl => h.slots ho hl⟩
  · obtain ⟨i, hi, hb, hpos, hnew⟩ := h.slot_of_base hused h1 h3
    refine ⟨i, ⟨hi, hpos, hnew⟩, fun j ⟨hj, hposj, hnewj⟩ => ?_⟩
    have heq := Option.some.inj (hnewj.symm.trans hnew)
    exact h.entries_distinct hj hi hposj (by omega)
  · obtain ⟨b, h1, h3, hb, hnew⟩ := h.newest_of_pos hi hpos
    refine ⟨b, ⟨h1, h3, hnew⟩, fun c ⟨hc1, hc3, hnewc⟩ => ?_⟩
    obtain ⟨j, hj, hc, hposj, hnewj⟩ := h.slot_of_base hused hc1 hc3
    have heq := Option.some.inj (hnewc.symm.trans hnewj)
    obtain rfl := h.entries_distinct hi hj hpos (by omega)
    exact Option.some.inj (hc.symm.trans hb)

/-! ## Steps after startup -/

/-- A step that launches and ends no process. -/
theorem quiet {b : Chains} (_ : QueueInv t a) {e : Event} {o : Outcome} (hlaunch : o.launch = none)
    (hhalted : o.halted = none) (hruns : RunsAs o.machine.kernel b) (hrecorded : Recorded t.procs b) :
    QueueInv (track t e o) b := by
  refine ⟨hruns, ?_⟩
  rw [track_procs_of_quiet hlaunch hhalted]
  exact hrecorded

theorem executed (h : QueueInv t a) {f : Frame} {command : List UInt8} {l : Launch}
    (hused : 3 ≤ a.used) (hf : OnSyscall t.machine f)
    (hl : execute isExecutable t.machine.kernel f command = some l) (hfound : l.foundPid = true) :
    ∃ b, 3 ≤ b.used ∧
      QueueInv (track t (.execute f command) (launched t.machine l none)) b := by
  obtain ⟨htasks, _, rfl⟩ := execute_eq_some hl
  have hrun := h.runs.onSyscall hf
  have h7 := h.runs.used_lt hfound
  obtain ⟨i, hi, hbusy, hpid, _, ⟨rest, hhead⟩, hruns⟩ :=
    h.runs.launch_child hrun (parseCommand command).2 htasks hused h7
  obtain ⟨b, hb⟩ := exists_last hbusy
  have hmem : a.running ∈ a.chain i := by
    rw [hhead]
    exact List.mem_cons_self
  have hcaller : caller t.machine (.execute f command) = some a.running := by
    rw [caller, h.runs.current hf]
  have hproc : newProc t (.execute f command) (a.used + 1) =
      { pid := a.used + 1, caller := some a.running, base := b } := by
    rw [newProc, hcaller, Option.bind_some, h.recorded.baseOf_eq hi hmem hb]
    rfl
  refine ⟨_, ?_, hruns, ?_⟩
  · show 3 ≤ a.used + 1
    omega
  · show Recorded (newProc t (.execute f command) (launch _ f _).pid :: t.procs) _
    rw [hpid, hproc]
    exact h.recorded.push hi hbusy hused h7 hhead hb

theorem childExit (h : QueueInv t a) {f : Frame} (hf : OnSyscall t.machine f)
    (hpid : 3 < (t.machine.kernel.pcbs (currentPCB f.esp)).pid) :
    ∃ b, b.used = a.used ∧ RunsAs (childExitKernel t.machine.kernel f) b ∧
      Recorded (afterHalt t.procs (some (t.machine.kernel.pcbs (currentPCB f.esp)).pid)) b := by
  rw [h.runs.current hf] at hpid ⊢
  obtain ⟨p, rest, hchain⟩ := a.exists_parent hpid
  refine ⟨a.exit p rest hchain, rfl, ?_, h.recorded.exit hchain⟩
  exact h.runs.exit (h.runs.onSyscall hf) hchain

end QueueInv

/-- No base shell halts, and an `execute` that passes its checks finds a free bit. -/
def KeepsShells (isExecutable : List UInt8 → Bool) (t : Tracked) : Event → Prop
  | .halt f _ => 3 < (t.machine.kernel.pcbs (currentPCB f.esp)).pid
  | .execute _ command =>
    1 ≤ strlen command ∧ t.machine.kernel.totalTasks < 7 ∧
      isExecutable (parseCommand command).1 = true →
        ∃ i < 7, t.machine.kernel.pidBitpattern i = 0
  | _ => True

instance (isExecutable : List UInt8 → Bool) (t : Tracked) :
    (e : Event) → Decidable (KeepsShells isExecutable t e)
  | .halt _ _ => inferInstanceAs (Decidable (3 < _))
  | .execute _ _ => inferInstanceAs (Decidable (_ → _))
  | .tick _ | .pageFault | .key _ => .isTrue trivial

theorem QueueInv.step {t t' : Tracked} {e : Event} {a : Chains} (h : QueueInv t a)
    (hstarted : t.machine.kernel.scheduleStarted = 1) (hused : 3 ≤ a.used)
    (hkeeps : KeepsShells isExecutable t e) (hs : trackedStep isExecutable t e = some t') :
    t'.machine.kernel.scheduleStarted = 1 ∧ ∃ b, 3 ≤ b.used ∧ QueueInv t' b := by
  obtain ⟨o, ho, rfl⟩ := trackedStep_happens hs
  cases ho with
  | switch hf _ hslot =>
    obtain ⟨hi, hbusy, hruns⟩ := h.runs.switch _ hslot
    refine ⟨?_, a.switch _ hi hbusy, hused, h.quiet rfl rfl hruns (h.recorded.switch hi hbusy)⟩
    exact (switchTo_scheduleStarted _ _ _).trans hstarted
  | startup hf hne hl => exact absurd hstarted hne
  | startupRefused hf hne hl => exact absurd hstarted hne
  | @executed f command l hf hl =>
    have hfound : l.foundPid = true := foundPid_of_free hl hkeeps
    refine ⟨?_, h.executed hused hf hl hfound⟩
    obtain ⟨_, _, rfl⟩ := execute_eq_some hl
    exact (launch_scheduleStarted _ _ _).trans hstarted
  | refused hf hl => exact ⟨hstarted, a, hused, h.runs, h.recorded⟩
  | childExit hf hpid =>
    obtain ⟨b, hb, hruns, hrec⟩ := h.childExit hf hpid
    exact ⟨hstarted, b, hb ▸ hused, hruns, hrec⟩
  | restart hf hpid hl => exact absurd hkeeps hpid
  | shellExit hf hpid hl hr => exact absurd hkeeps hpid
  | fault hm => exact ⟨hstarted, a, hused, h.quiet rfl rfl (h.runs.fault 1) h.recorded⟩
  | @key terminal ht => exact ⟨hstarted, a, hused, h.quiet rfl rfl (h.runs.key terminal) h.recorded⟩

/-! ## Startup -/

/-- The first `n` ticks have each started a base shell. -/
structure Startup (t : Tracked) (n : Nat) (a : Chains) : Prop where
  queue : QueueInv t a
  used : a.used = n
  tasks : t.machine.kernel.totalTasks = n + 1
  terminal : t.machine.kernel.activeTerminal = 3 - n
  started : t.machine.kernel.scheduleStarted = if n = 3 then 1 else 0

/-- The first `n` base shells have been started, and nothing else; whatever the terminals. -/
def Booting (t : Tracked) (n : Nat) : Prop :=
  (n = 0 ∧ t.procs = [] ∧ Idle t.machine.kernel) ∨
    ∃ a, a.used = n ∧ t.machine.kernel.totalTasks = n + 1 ∧ QueueInv t a

section Booting

variable {t : Tracked} {n : Nat}

theorem booting_start (memory : Nat → PCB) : Booting (start memory) 0 :=
  Or.inl ⟨rfl, rfl, idle_boot memory⟩

theorem Startup.booting {a : Chains} (h : Startup t n a) : Booting t n :=
  Or.inr ⟨a, h.used, h.tasks, h.queue⟩

theorem Booting.bits (h : Booting t n) : BitsUpTo t.machine.kernel.pidBitpattern n := by
  rcases h with ⟨rfl, _, hidle⟩ | ⟨a, rfl, _, hqueue⟩
  · exact hidle.bits
  · exact hqueue.runs.bits

theorem Booting.tasks (h : Booting t n) : t.machine.kernel.totalTasks = n + 1 := by
  rcases h with ⟨rfl, _, hidle⟩ | ⟨_, _, htasks, _⟩
  · exact hidle.total
  · exact htasks

/-- A startup tick launches the next pid. -/
theorem Booting.launch_eq (h : Booting t n) (h3 : n < 3) (f : Frame) (args : List UInt8) :
    launch (startupKernel t.machine.kernel f) f args =
      launchAs (taken (startupKernel t.machine.kernel f) n) f (n + 1) true args := by
  apply launch_of_freePid
  rw [startupKernel_pidBitpattern]
  exact h.bits.freePid (by omega)

/-- The chains after a startup tick. -/
theorem Booting.queueInv_tick (h : Booting t n) (h3 : n < 3) (f : Frame) (args : List UInt8) :
    ∃ b, b.used = n + 1 ∧
      RunsAs (launch (startupKernel t.machine.kernel f) f args).kernel b ∧
      Recorded (newProc t (.tick f) (n + 1) :: t.procs) b := by
  rcases h with ⟨rfl, hprocs, hidle⟩ | ⟨a, rfl, htasks, hqueue⟩
  · obtain ⟨_, hruns⟩ := hidle.startup f args
    refine ⟨Chains.first, rfl, hruns, ?_⟩
    rw [hprocs]
    exact recorded_first
  · have hruns := hqueue.runs.startup f
    have hinit := @launch_initResult (startupKernel t.machine.kernel f) f args
      (hqueue.recorded.exists_freeSlot hruns)
    obtain ⟨i, hi, hempty, _, _, hlaunched⟩ :=
      hruns.launch_base (by rw [startupKernel_totalTasks]; omega) h3 hinit
    exact ⟨_, rfl, hlaunched, hqueue.recorded.start hi h3 hempty⟩

end Booting

section StartupTicks

variable {t t' : Tracked} {f : Frame} {n : Nat}
  (hshell : isExecutable (parseCommand shellCommand).1 = true)

include hshell

/-- In the startup phase a tick launches a shell. -/
theorem tick_launches (hstarted : t.machine.kernel.scheduleStarted ≠ 1)
    (htasks : t.machine.kernel.totalTasks < 7)
    (hs : trackedStep isExecutable t (.tick f) = some t') :
    t' = track t (.tick f)
      (launched t.machine
        (launch (startupKernel t.machine.kernel f) f (parseCommand shellCommand).2) none) := by
  obtain ⟨o, ho, rfl⟩ := trackedStep_happens hs
  have hexec := execute_shell f (show (startupKernel t.machine.kernel f).totalTasks < 7 by
    rw [startupKernel_totalTasks]
    exact htasks) hshell
  cases ho with
  | switch hf hone hslot => exact absurd hone hstarted
  | startup hf hne hl =>
    rw [hexec] at hl
    cases hl
    rfl
  | startupRefused hf hne hl =>
    rw [hexec] at hl
    cases hl

theorem Booting.tick (h : Booting t n) (h3 : n < 3)
    (hstarted : t.machine.kernel.scheduleStarted ≠ 1)
    (hs : trackedStep isExecutable t (.tick f) = some t') :
    Booting t' (n + 1) ∧ t'.executed = t.executed + 1 ∧
      t'.machine.kernel = (launch (startupKernel t.machine.kernel f) f
        (parseCommand shellCommand).2).kernel := by
  have htasks := h.tasks
  have htick := tick_launches hshell hstarted (by omega) hs
  obtain ⟨b, hused, hruns, hrecorded⟩ := h.queueInv_tick h3 f (parseCommand shellCommand).2
  have hpid : (launch (startupKernel t.machine.kernel f) f (parseCommand shellCommand).2).pid =
      n + 1 := by
    rw [h.launch_eq h3, launchAs_pid]
  rw [htick]
  refine ⟨Or.inr ⟨b, hused, ?_, hruns, ?_⟩, rfl, rfl⟩
  · show (launch _ f _).kernel.totalTasks = _
    rw [launch_totalTasks, startupKernel_totalTasks, htasks]
    unfold u32
    omega
  · show Recorded (newProc t (.tick f) (launch _ f _).pid :: t.procs) b
    rw [hpid]
    exact hrecorded

/-- A startup tick that finds the counter as the one before it left it. -/
theorem Booting.startup (h : Booting t n) (h3 : n < 3)
    (hterminal : t.machine.kernel.activeTerminal = 3 - n)
    (hstarted : t.machine.kernel.scheduleStarted = 0)
    (hs : trackedStep isExecutable t (.tick f) = some t') : ∃ b, Startup t' (n + 1) b := by
  obtain ⟨hnext, _, hkernel⟩ := h.tick hshell h3 (by omega) hs
  have hterminal' : u32 ((t.machine.kernel.activeTerminal : Int) - 1) = 3 - (n + 1) := by
    unfold u32
    omega
  rcases hnext with ⟨hzero, _⟩ | ⟨b, hused, htasks, hqueue⟩
  · omega
  · refine ⟨b, hqueue, hused, htasks, ?_, ?_⟩
    · rw [hkernel, launch_activeTerminal, startupKernel_activeTerminal, hterminal']
    · rw [hkernel, launch_scheduleStarted, startupKernel_scheduleStarted, hterminal', hstarted]
      by_cases hn : n + 1 = 3
      · rw [if_pos (by omega), if_pos hn]
      · rw [if_neg (by omega), if_neg hn]

theorem Startup.next {a : Chains} (h : Startup t n a) (h3 : n < 3)
    (hs : trackedStep isExecutable t (.tick f) = some t') : ∃ b, Startup t' (n + 1) b := by
  refine h.booting.startup hshell h3 h.terminal ?_ hs
  rw [h.started, if_neg (by omega)]

end StartupTicks

/-! ## The queue along a run -/

/-- After the three base shells have been started, the queue is sound in every state of a run
in which no base shell exits and every `execute` finds a free pid. -/
theorem run_queue_sound {memory : Nat → PCB} {f₁ f₂ f₃ : Frame} {es : List Event}
    {t₀ t : Tracked} (hshell : isExecutable (parseCommand shellCommand).1 = true)
    (hstart : run (trackedStep isExecutable) (start memory) [.tick f₁, .tick f₂, .tick f₃] = some t₀)
    (hrun : run (trackedStep isExecutable) t₀ es = some t)
    (hkeeps : Along (trackedStep isExecutable) (KeepsShells isExecutable) t₀ es) :
    QueueSound isExecutable t := by
  obtain ⟨t₁, hs₁, hrest₁⟩ := run_cons.mp hstart
  obtain ⟨t₂, hs₂, hrest₂⟩ := run_cons.mp hrest₁
  obtain ⟨t₃, hs₃, hrest₃⟩ := run_cons.mp hrest₂
  cases hrest₃
  obtain ⟨a₁, h₁⟩ := (booting_start memory).startup hshell (by omega) rfl rfl hs₁
  obtain ⟨a₂, h₂⟩ := h₁.next hshell (by omega) hs₂
  obtain ⟨a₃, h₃⟩ := h₂.next hshell (by omega) hs₃
  have hused : 3 ≤ a₃.used := by
    rw [h₃.used]
  have hinv : t.machine.kernel.scheduleStarted = 1 ∧ ∃ b, 3 ≤ b.used ∧ QueueInv t b := by
    refine run_invariant
      (I := fun s => s.machine.kernel.scheduleStarted = 1 ∧ ∃ b, 3 ≤ b.used ∧ QueueInv s b)
      ?_ hrun hkeeps ⟨h₃.started, a₃, hused, h₃.queue⟩
    intro s e s' ⟨hone, b, hb, hs⟩ hk hstep
    exact hs.step hone hb hk hstep
  obtain ⟨_, b, hb, hqueue⟩ := hinv
  exact hqueue.sound hb

theorem run_queue_sound_child : ∃ t₀ t,
    run (trackedStep programs) (start fun _ => zeroPCB) startupTicks = some t₀ ∧
      run (trackedStep programs) t₀
        [.execute (frameOf 3) lsCommand, .tick (frameOf 4), .tick (frameOf 1), .tick (frameOf 2),
          .halt (frameOf 4) 0] = some t ∧
      QueueSound programs t := by
  have hsome : ((run (trackedStep programs) (start fun _ => zeroPCB) startupTicks).all fun t₀ =>
      (run (trackedStep programs) t₀
        [.execute (frameOf 3) lsCommand, .tick (frameOf 4), .tick (frameOf 1), .tick (frameOf 2),
          .halt (frameOf 4) 0]).isSome &&
      decide (Along (trackedStep programs) (KeepsShells programs) t₀
        [.execute (frameOf 3) lsCommand, .tick (frameOf 4), .tick (frameOf 1), .tick (frameOf 2),
          .halt (frameOf 4) 0])) = true := by
    decide +kernel
  have hstart : (run (trackedStep programs) (start fun _ => zeroPCB) startupTicks).isSome = true := by
    decide +kernel
  obtain ⟨t₀, ht₀⟩ := Option.isSome_iff_exists.mp hstart
  rw [ht₀, Option.all_some, Bool.and_eq_true, decide_eq_true_eq] at hsome
  obtain ⟨t, ht⟩ := Option.isSome_iff_exists.mp hsome.1
  exact ⟨t₀, t, ht₀, ht, run_queue_sound (by decide) ht₀ ht hsome.2⟩

/-- The exit of the third base shell leaves its pid in two slots. -/
theorem shell_exit_doubles_entry :
    ¬ ∀ (isExecutable : List UInt8 → Bool) (memory : Nat → PCB) (f₁ f₂ f₃ : Frame)
        (es : List Event) (t₀ t : Tracked),
      isExecutable (parseCommand shellCommand).1 = true →
      run (trackedStep isExecutable) (start memory) [.tick f₁, .tick f₂, .tick f₃] = some t₀ →
      run (trackedStep isExecutable) t₀ es = some t → QueueSound isExecutable t := by
  intro hall
  have hsome : ((run (trackedStep programs) (start fun _ => zeroPCB) startupTicks).bind fun t₀ =>
      (run (trackedStep programs) t₀ [.halt (frameOf 3) 0]).map fun t =>
        (t.machine.kernel.priorityListPid 2, t.machine.kernel.priorityListPid 3)) =
          some (3, 3) := by
    decide +kernel
  obtain ⟨t₀, ht₀, hrest⟩ := Option.bind_eq_some_iff.mp hsome
  obtain ⟨t, ht, hentries⟩ := Option.map_eq_some_iff.mp hrest
  have htwo : t.machine.kernel.priorityListPid 2 = 3 := congrArg Prod.fst hentries
  have hthree : t.machine.kernel.priorityListPid 3 = 3 := congrArg Prod.snd hentries
  have hsound := hall programs _ _ _ _ _ t₀ t (by decide) ht₀ ht
  have hsame := hsound.distinct 2 (by omega) 3 (by omega) (by omega) (htwo.trans hthree.symm)
  omega

end LinuxBasedOS.Process
