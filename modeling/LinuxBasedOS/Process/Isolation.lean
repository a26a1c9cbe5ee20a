import LinuxBasedOS.Process.Paging

/-!
# Every process has a memory of its own

The machine with the physical memory: programs store through the translation, system calls store
for the program that calls them, `vidmap` opens the screen and stores its answer or faults, and a
launch loads a program from 0x08048000 on. The stores of the kernel to its own page are part of the
machine of `Machine`, so a store of the kernel is one outside that page.

`vidmap_safe` says what `vidmap` stores, in every state of every run. `address_map_exact` gives the
translation there, and `page_private` the contents of the page of each pid: what was stored there by
the process while it ran and by the loader when it started, and by nobody else.
-/

namespace LinuxBasedOS.Process

open Word Transition Paging Terminal

/-! ## The machine with its memory -/

structure Spaces where
  tracked : Tracked
  pageTable : Nat → Nat
  pageTableUserVideo : Nat → Nat
  memory : Nat → UInt8

inductive SpaceEvent where
  | machine (e : Event)
  | vidmap (terminals : Terminals) (screenStart : Nat)
  | store (user : Bool) (vaddr : Nat) (value : UInt8)

/-- `CP_VADDR`. -/
def cpVaddr : Nat := 0x08048000

def arraysOf (s : Spaces) : PageArrays where
  pageDir := s.tracked.machine.kernel.pageDir
  pageTable := s.pageTable
  pageTableUserVideo := s.pageTableUserVideo

/-- Where the stores of the program, or of the kernel, go. -/
def storesOf (addrs : TableAddrs) (rest : Nat → Nat → Nat) (user : Bool) (arrays : PageArrays) :
    Nat → Option Nat :=
  translate (mapsOf addrs rest arrays) { user := user, write := true }

/-- The terminals and the memory that `vidmap` works on, with the tables of the machine. -/
def userVideo (addrs : TableAddrs) (rest : Nat → Nat → Nat) (s : Spaces) (terminals : Terminals) :
    UserVideo where
  toTerminals := { terminals with activeTerminal := s.tracked.machine.kernel.activeTerminal }
  pageTableUserVideo := s.pageTableUserVideo
  maps := fun video => mapsOf addrs rest { arraysOf s with pageTableUserVideo := video }
  memory := s.memory

/-- The name of the program that a launch loads. -/
def programName : Event → List UInt8
  | .execute _ command => (parseCommand command).1
  | _ => (parseCommand shellCommand).1

section Step

variable (isExecutable : List UInt8 → Bool) (program : List UInt8 → List UInt8) (addrs : TableAddrs)
  (rest : Nat → Nat → Nat)

/-- A step of the machine. A launch has set the page directory when `loadProcess` stores the
program. -/
def machineStep (s : Spaces) (e : Event) : Option Spaces :=
  (outcome isExecutable s.tracked.machine e).map fun o =>
    let s' := { s with tracked := track s.tracked e o }
    match o.launch with
    | none => s'
    | some _ => { s' with
        memory := storeAll (storesOf addrs rest false (arraysOf s')) s.memory cpVaddr
          (program (programName e)) }

/-- A call of `vidmap` by the program that runs. When the store of the answer faults the program
spins in `page_handler`. -/
def vidmapStep (s : Spaces) (terminals : Terminals) (screenStart : Nat) : Option Spaces :=
  let called := vidmap (userVideo addrs rest s terminals) s.tracked.machine.kernel.pcbTerminal
    screenStart
  let s' := { s with
    pageTableUserVideo := called.2.pageTableUserVideo
    memory := called.2.memory }
  match called.1 with
  | some _ => some s'
  | none => machineStep isExecutable program addrs rest s' .pageFault

def storeStep (s : Spaces) (user : Bool) (vaddr : Nat) (value : UInt8) : Spaces :=
  { s with memory := store (storesOf addrs rest user (arraysOf s)) s.memory vaddr value }

def spaceStep (s : Spaces) : SpaceEvent → Option Spaces
  | .machine e => machineStep isExecutable program addrs rest s e
  | .vidmap terminals screenStart =>
    if UserRuns s.tracked.machine then
      vidmapStep isExecutable program addrs rest s terminals screenStart
    else none
  | .store user vaddr value =>
    if UserRuns s.tracked.machine ∧ (user = true ∨ ¬ (0x00400000 ≤ vaddr ∧ vaddr < 0x00800000)) then
      some (storeStep addrs rest s user vaddr value)
    else none

end Step

/-- The state when `entry` has enabled interrupts, after `paging_exec`. -/
def bootSpaces (addrs : TableAddrs) (pcbs : Nat → PCB) (memory : Nat → UInt8) : Spaces where
  tracked :=
    { start pcbs with
      machine := { boot pcbs with
        kernel := { (boot pcbs).kernel with pageDir := (pagingExec addrs).pageDir } } }
  pageTable := (pagingExec addrs).pageTable
  pageTableUserVideo := (pagingExec addrs).pageTableUserVideo
  memory := memory

/-! ## The tables in a run -/

/-- The directory but for the user page, and the two tables. -/
structure TablesSet (addrs : TableAddrs) (screen : Bool) (s : Spaces) : Prop where
  directory : ∀ i, i ≠ cpIndex →
    s.tracked.machine.kernel.pageDir i = (pagingExec addrs).pageDir i
  table : s.pageTable = (pagingExec addrs).pageTable
  video : s.pageTableUserVideo =
    if screen then Function.update (fun _ => 0) 0 (vidMemAddr ||| 0x07) else fun _ => 0

/-- Nothing runs yet, or the machine runs chains of processes. -/
def Phased (t : Tracked) : Prop :=
  (t.executed = 0 ∧ Idle t.machine.kernel) ∨ ∃ a, Agrees t.machine a

/-- The event is a `vidmap` that is not refused. -/
def opensScreen : SpaceEvent → Bool
  | .vidmap _ screenStart => !decide (Refused screenStart)
  | _ => false

/-- Every `execute` of the step finds a free pid, and its `PCB_init` returns 0. -/
def SpaceWell (isExecutable : List UInt8 → Bool) (s : Spaces) : SpaceEvent → Prop
  | .machine e => LaunchesWell isExecutable s.tracked e
  | _ => True

instance (isExecutable : List UInt8 → Bool) (s : Spaces) (e : SpaceEvent) :
    Decidable (SpaceWell isExecutable s e) :=
  match e with
  | .machine e => inferInstanceAs (Decidable (LaunchesWell isExecutable s.tracked e))
  | .vidmap _ _ => .isTrue trivial
  | .store _ _ _ => .isTrue trivial

section Tables

variable {isExecutable : List UInt8 → Bool} {program : List UInt8 → List UInt8} {addrs : TableAddrs}
  {rest : Nat → Nat → Nat} {s s' : Spaces} {screen : Bool}

theorem launch_pageDir_of_ne (k : Kernel) (f : Frame) (args : List UInt8) {i : Nat}
    (hi : i ≠ cpIndex) : (launch k f args).kernel.pageDir i = k.pageDir i := by
  have has : ∀ (k' : Kernel) pid found, (launchAs k' f pid found args).kernel.pageDir i =
      k'.pageDir i := by
    intro k' pid found
    exact Function.update_of_ne hi _ _
  unfold launch
  dsimp only
  split
  · exact has _ _ _
  · exact has _ _ _

theorem execute_pageDir_of_ne {k : Kernel} {f : Frame} {command : List UInt8} {l : Launch}
    (h : execute isExecutable k f command = some l) {i : Nat} (hi : i ≠ cpIndex) :
    l.kernel.pageDir i = k.pageDir i := by
  obtain ⟨-, -, rfl⟩ := execute_eq_some h
  exact launch_pageDir_of_ne k f _ hi

/-- The steps of the machine write no entry of the directory but that of the user page. -/
theorem happens_pageDir_of_ne {m : Machine} {e : Event} {o : Outcome}
    (h : Happens isExecutable m e o) {i : Nat} (hi : i ≠ cpIndex) :
    o.machine.kernel.pageDir i = m.kernel.pageDir i := by
  cases h with
  | switch => exact Function.update_of_ne hi _ _
  | startup hf hstarted hl =>
    refine (execute_pageDir_of_ne hl hi).trans ?_
    rw [startupKernel_pageDir]
  | startupRefused => exact congrFun (startupKernel_pageDir _ _) i
  | executed hf hl => exact execute_pageDir_of_ne hl hi
  | refused => rfl
  | childExit => exact Function.update_of_ne hi _ _
  | restart hf hpid hl => exact execute_pageDir_of_ne hl hi
  | shellExit hf hpid hl hr =>
    subst hr
    show (haltReturn _ _ _).kernel.pageDir i = _
    unfold haltReturn
    dsimp only
    split <;> split <;> rfl
  | fault => rfl
  | key => rfl

theorem machineStep_eq_some {e : Event}
    (h : machineStep isExecutable program addrs rest s e = some s') :
    ∃ o, outcome isExecutable s.tracked.machine e = some o ∧
      s'.tracked = track s.tracked e o ∧ s'.pageTable = s.pageTable ∧
      s'.pageTableUserVideo = s.pageTableUserVideo ∧
      s'.memory = match o.launch with
        | none => s.memory
        | some _ => storeAll (storesOf addrs rest false (arraysOf s')) s.memory cpVaddr
            (program (programName e)) := by
  obtain ⟨o, ho, rfl⟩ := Option.map_eq_some_iff.mp h
  refine ⟨o, ho, ?_⟩
  dsimp only
  split
  · exact ⟨rfl, rfl, rfl, rfl⟩
  · exact ⟨rfl, rfl, rfl, rfl⟩

theorem machineStep_trackedStep {e : Event}
    (h : machineStep isExecutable program addrs rest s e = some s') :
    trackedStep isExecutable s.tracked e = some s'.tracked := by
  obtain ⟨o, ho, htracked, -⟩ := machineStep_eq_some h
  rw [htracked, trackedStep, ho]
  rfl

/-- A call of `vidmap` sets the table and the memory, and then returns or faults. -/
theorem vidmapStep_eq_some {terminals : Terminals} {screenStart : Nat}
    (h : vidmapStep isExecutable program addrs rest s terminals screenStart = some s') :
    s'.pageTable = s.pageTable ∧
      s'.pageTableUserVideo = (if Refused screenStart then s.pageTableUserVideo
        else Function.update s.pageTableUserVideo 0 (vidMemAddr ||| 0x07)) ∧
      s'.memory = (vidmap (userVideo addrs rest s terminals)
        s.tracked.machine.kernel.pcbTerminal screenStart).2.memory ∧
      (s'.tracked = s.tracked ∨
        trackedStep isExecutable s.tracked .pageFault = some s'.tracked) := by
  unfold vidmapStep at h
  dsimp only at h
  rw [vidmap_pageTableUserVideo] at h
  split at h
  · cases h
    exact ⟨rfl, rfl, rfl, Or.inl rfl⟩
  · obtain ⟨o, ho, htracked, htable, hvideo, hmemory⟩ := machineStep_eq_some h
    have hlaunch : o.launch = none := by
      cases happens_of_outcome ho with
      | fault => rfl
    rw [hlaunch] at hmemory
    refine ⟨htable, hvideo, hmemory, Or.inr ?_⟩
    rw [trackedStep, ho, htracked]
    rfl

/-- Nothing that `vidmap` does changes the page directory. -/
theorem vidmapStep_pageDir {terminals : Terminals} {screenStart : Nat}
    (h : vidmapStep isExecutable program addrs rest s terminals screenStart = some s') :
    s'.tracked.machine.kernel.pageDir = s.tracked.machine.kernel.pageDir := by
  obtain ⟨-, -, -, htracked | hfault⟩ := vidmapStep_eq_some h
  · rw [htracked]
  · obtain ⟨o, ho, htracked⟩ := Option.map_eq_some_iff.mp hfault
    rw [← htracked]
    cases happens_of_outcome ho with
    | fault => rfl

/-- A `vidmap` that has been taken once leaves the screen open. -/
theorem TablesSet.step (h : TablesSet addrs screen s) {e : SpaceEvent}
    (hs : spaceStep isExecutable program addrs rest s e = some s') :
    TablesSet addrs (screen || opensScreen e) s' := by
  cases e with
  | machine e =>
    obtain ⟨o, ho, htracked, htable, hvideo, -⟩ := machineStep_eq_some hs
    refine ⟨fun i hi => ?_, htable.trans h.table, ?_⟩
    · rw [htracked]
      exact (happens_pageDir_of_ne (happens_of_outcome ho) hi).trans (h.directory i hi)
    · have hquiet : opensScreen (.machine e) = false := rfl
      rw [hvideo, h.video, hquiet, Bool.or_false]
  | vidmap terminals screenStart =>
    simp only [spaceStep] at hs
    split at hs
    · obtain ⟨htable, hvideo, -⟩ := vidmapStep_eq_some hs
      refine ⟨fun i hi => ?_, htable.trans h.table, ?_⟩
      · rw [vidmapStep_pageDir hs]
        exact h.directory i hi
      · rw [hvideo, h.video, opensScreen]
        by_cases hrefused : Refused screenStart
        · simp only [hrefused, if_true, decide_true, Bool.not_true, Bool.or_false]
        · cases screen with
          | false => simp [hrefused]
          | true => simp [hrefused]
    · cases hs
  | store user vaddr value =>
    simp only [spaceStep] at hs
    split at hs
    · cases hs
      have hquiet : opensScreen (.store user vaddr value) = false := rfl
      rw [hquiet, Bool.or_false]
      exact ⟨h.directory, h.table, h.video⟩
    · cases hs

/-- A page fault launches nothing. -/
theorem launchesWell_pageFault (t : Tracked) : LaunchesWell isExecutable t .pageFault := by
  unfold LaunchesWell
  cases ho : outcome isExecutable t.machine .pageFault with
  | none => rfl
  | some o =>
    cases happens_of_outcome ho with
    | fault => rfl

theorem Phased.step (hshell : isExecutable (parseCommand shellCommand).1 = true)
    (h : Phased s.tracked) {e : SpaceEvent} (hwell : SpaceWell isExecutable s e)
    (hs : spaceStep isExecutable program addrs rest s e = some s') : Phased s'.tracked := by
  cases e with
  | machine e => exact phase_step hshell h hwell (machineStep_trackedStep hs)
  | vidmap terminals screenStart =>
    simp only [spaceStep] at hs
    split at hs
    · obtain ⟨-, -, -, htracked | hfault⟩ := vidmapStep_eq_some hs
      · rw [htracked]
        exact h
      · exact phase_step hshell h (launchesWell_pageFault s.tracked) hfault
    · cases hs
  | store user vaddr value =>
    simp only [spaceStep] at hs
    split at hs
    · cases hs
      exact h
    · cases hs

/-- What holds in every state of a run, after the events `es`. -/
structure Reached (addrs : TableAddrs) (screen : Bool) (s : Spaces) : Prop where
  phase : Phased s.tracked
  tables : TablesSet addrs screen s

theorem reached_boot (pcbs : Nat → PCB) (memory : Nat → UInt8) :
    Reached addrs false (bootSpaces addrs pcbs memory) := by
  have hidle := idle_boot pcbs
  exact ⟨Or.inl ⟨rfl, hidle.bits, hidle.total, hidle.queue, hidle.tss, hidle.starting⟩,
    fun _ _ => rfl, rfl, rfl⟩

theorem Reached.after (hshell : isExecutable (parseCommand shellCommand).1 = true)
    (h : Reached addrs screen s) {es : List SpaceEvent}
    (hrun : run (spaceStep isExecutable program addrs rest) s es = some s')
    (hwell : Along (spaceStep isExecutable program addrs rest) (SpaceWell isExecutable) s es) :
    Reached addrs (screen || es.any opensScreen) s' := by
  induction es generalizing s screen with
  | nil =>
    cases hrun
    rw [List.any_nil, Bool.or_false]
    exact h
  | cons e es ih =>
    obtain ⟨t, ht, hrest⟩ := run_cons.mp hrun
    obtain ⟨hw, hwrest⟩ := along_cons hwell ht
    rw [List.any_cons, ← Bool.or_assoc]
    exact ih ⟨h.phase.step hshell hw ht, h.tables.step ht⟩ hrest hwrest

/-- The process that the tables have in memory is the one on the kernel stack. -/
theorem Reached.maps (h : Reached addrs screen s) (hexecuted : 0 < s.tracked.executed) :
    ∃ p, 1 ≤ p ∧ p ≤ 7 ∧ s.tracked.machine.kernel.tssEsp0 = 0x800000 - p * 0x2000 ∧
      MapsProcess addrs p screen (arraysOf s) := by
  rcases h.phase with ⟨hzero, -⟩ | ⟨a, hagrees⟩
  · omega
  · obtain ⟨h1, -⟩ := a.running_range
    have h7 := a.running_le
    refine ⟨a.running, h1, h7, ?_, hagrees.kernel.page, h.tables.directory, h.tables.table,
      h.tables.video⟩
    rw [hagrees.kernel.tss, kernelStackAddr_of_le (by omega)]
    omega

/-- **The address map.** In every state after the first `execute`, of every run of the machine with
its memory: the processor translates every access to every address as `visible` says for the
process on whose kernel stack system calls run, with the screen open from the first `vidmap` on
that was not refused. -/
theorem address_map_exact {pcbs : Nat → PCB} {memory : Nat → UInt8} {es : List SpaceEvent}
    (hshell : isExecutable (parseCommand shellCommand).1 = true)
    (hrun : run (spaceStep isExecutable program addrs rest) (bootSpaces addrs pcbs memory) es =
      some s)
    (hwell : Along (spaceStep isExecutable program addrs rest) (SpaceWell isExecutable)
      (bootSpaces addrs pcbs memory) es)
    (hexecuted : 0 < s.tracked.executed) :
    ∃ p, 1 ≤ p ∧ p ≤ 7 ∧ s.tracked.machine.kernel.tssEsp0 = 0x800000 - p * 0x2000 ∧
      ∀ a vaddr, translate (mapsOf addrs rest (arraysOf s)) a vaddr =
        visible p (es.any opensScreen) a vaddr := by
  have hreached := (reached_boot pcbs memory).after hshell hrun hwell
  rw [Bool.false_or] at hreached
  obtain ⟨p, h1, h7, htss, hmaps⟩ := hreached.maps hexecuted
  exact ⟨p, h1, h7, htss, fun a vaddr => translate_eq_visible hmaps h1 h7 a vaddr⟩

end Tables

/-! ## The pointer of vidmap -/

/-- What `vidmap` is to do with a pointer. The four bytes that it stores when it returns 0 are in the
user page, and no other frame changes; when it returns -1 nothing has changed. It answers as the
pointer says: where the store of the answer leaves the page it faults. -/
structure VidmapSafe (s : UserVideo) (pcbTerminal screenStart : Nat) : Prop where
  inside : (vidmap s pcbTerminal screenStart).1 = some 0 →
    ∀ i < 4, usrLowBound ≤ screenStart + i ∧ screenStart + i < upperBound
  outside : (vidmap s pcbTerminal screenStart).1 = some 0 →
    ∀ frame, (∀ i < 4, (openScreen s pcbTerminal).stores (screenStart + i) ≠ some frame) →
      (vidmap s pcbTerminal screenStart).2.memory frame = s.memory frame
  unchanged : (vidmap s pcbTerminal screenStart).1 = some (-1) →
    (vidmap s pcbTerminal screenStart).2 = s
  answer : (vidmap s pcbTerminal screenStart).1 =
    if Refused screenStart then some (-1) else if screenStart + 4 ≤ upperBound then some 0 else none

theorem vidmapSafe_of_refused {screenStart : Nat} (h : Refused screenStart) (s : UserVideo)
    (pcbTerminal : Nat) : VidmapSafe s pcbTerminal screenStart := by
  have hcall := vidmap_of_refused h s pcbTerminal
  refine ⟨fun hzero => ?_, fun hzero => ?_, fun _ => congrArg Prod.snd hcall, ?_⟩
  · rw [hcall] at hzero
    cases hzero
  · rw [hcall] at hzero
    cases hzero
  · rw [hcall, if_pos h]

theorem vidmapSafe_of_mapped {s : UserVideo} {pcbTerminal screenStart : Nat}
    (h : UserPageMapped (openScreen s pcbTerminal)) (hlow : usrLowBound ≤ screenStart)
    (hhigh : screenStart + 4 ≤ upperBound) : VidmapSafe s pcbTerminal screenStart := by
  have hcall := vidmap_of_mapped h hlow hhigh
  have htaken : ¬ Refused screenStart := by
    unfold Refused
    omega
  refine ⟨fun _ i hi => ⟨by omega, by omega⟩, fun _ frame hframe => ?_, fun hminus => ?_, ?_⟩
  · rw [hcall]
    exact storeAll_outside hframe
  · rw [hcall] at hminus
    cases hminus
  · rw [hcall, if_neg htaken, if_pos hhigh]

theorem vidmapSafe_of_fault {s s' : UserVideo} {pcbTerminal screenStart : Nat}
    (htaken : ¬ Refused screenStart) (hhigh : ¬ screenStart + 4 ≤ upperBound)
    (hcall : vidmap s pcbTerminal screenStart = (none, s')) :
    VidmapSafe s pcbTerminal screenStart := by
  refine ⟨fun hzero => ?_, fun hzero => ?_, fun hminus => ?_, ?_⟩
  · rw [hcall] at hzero
    cases hzero
  · rw [hcall] at hzero
    cases hzero
  · rw [hcall] at hminus
    cases hminus
  · rw [hcall, if_neg htaken, if_neg hhigh]

/-- The directory while user code runs: the page of the program is there, and the entry behind it
is empty. -/
structure UserDirectory (s : Spaces) : Prop where
  page : ∃ pid, s.tracked.machine.kernel.pageDir cpIndex = pageEntry pid
  behind : s.tracked.machine.kernel.pageDir (cpIndex + 1) = 0

section Vidmap

variable {isExecutable : List UInt8 → Bool} {program : List UInt8 → List UInt8} {addrs : TableAddrs}
  {rest : Nat → Nat → Nat} {s s' : Spaces}

/-- Nothing has been started yet, or the page of some process is in the directory. -/
def UserPageSet (k : Kernel) : Prop :=
  k.tssEsp0 = 0x800000 ∨ ∃ pid, k.pageDir cpIndex = pageEntry pid

theorem haltReturn_userPageSet {k : Kernel} (current : PCB) (status : UInt8) (h : UserPageSet k) :
    UserPageSet (haltReturn k current status).kernel := by
  unfold haltReturn
  dsimp only
  split <;> split <;> exact h

theorem happens_userPageSet {m : Machine} {e : Event} {o : Outcome}
    (h : Happens isExecutable m e o) (hset : UserPageSet m.kernel) :
    UserPageSet o.machine.kernel := by
  have hlaunched : ∀ {k : Kernel} {f : Frame} {command : List UInt8} {l : Launch},
      execute isExecutable k f command = some l → UserPageSet l.kernel := by
    intro k f command l hl
    exact Or.inr ⟨_, (setUpFor_execute hl).page⟩
  cases h with
  | @switch f i =>
    refine Or.inr ⟨(saveStack m.kernel f).priorityListPid i, ?_⟩
    exact Function.update_self cpIndex _ m.kernel.pageDir
  | startup hf hstarted hl => exact hlaunched hl
  | startupRefused =>
    unfold UserPageSet
    rw [startupKernel_tssEsp0, startupKernel_pageDir]
    exact hset
  | executed hf hl => exact hlaunched hl
  | refused => exact hset
  | childExit => exact Or.inr ⟨_, childExitKernel_pageDir rfl⟩
  | restart hf hpid hl => exact hlaunched hl
  | shellExit hf hpid hl hr =>
    subst hr
    exact haltReturn_userPageSet _ _ hset
  | fault => exact hset
  | key => exact hset

theorem UserPageSet.step (h : UserPageSet s.tracked.machine.kernel) {e : SpaceEvent}
    (hs : spaceStep isExecutable program addrs rest s e = some s') :
    UserPageSet s'.tracked.machine.kernel := by
  have htracked : ∀ {e : Event}, trackedStep isExecutable s.tracked e = some s'.tracked →
      UserPageSet s'.tracked.machine.kernel := by
    intro e ht
    obtain ⟨o, ho, heq⟩ := Option.map_eq_some_iff.mp ht
    rw [← heq]
    exact happens_userPageSet (happens_of_outcome ho) h
  cases e with
  | machine e => exact htracked (machineStep_trackedStep hs)
  | vidmap terminals screenStart =>
    simp only [spaceStep] at hs
    split at hs
    · obtain ⟨-, -, -, hsame | hfault⟩ := vidmapStep_eq_some hs
      · rw [hsame]
        exact h
      · exact htracked hfault
    · cases hs
  | store user vaddr value =>
    simp only [spaceStep] at hs
    split at hs
    · cases hs
      exact h
    · cases hs

theorem TablesSet.behind {screen : Bool} (h : TablesSet addrs screen s) :
    s.tracked.machine.kernel.pageDir (cpIndex + 1) = 0 := by
  rw [h.directory _ (by decide), pagingExec_pageDir]
  rfl

/-- The directory in every state of a run in which user code runs. -/
theorem userDirectory_of_run {pcbs : Nat → PCB} {memory : Nat → UInt8} {es : List SpaceEvent}
    (hrun : run (spaceStep isExecutable program addrs rest) (bootSpaces addrs pcbs memory) es =
      some s)
    (hm : UserRuns s.tracked.machine) : UserDirectory s := by
  obtain ⟨⟨screen, htables⟩, hset⟩ :=
    run_invariant (C := fun _ _ => True)
      (I := fun s => (∃ screen, TablesSet addrs screen s) ∧ UserPageSet s.tracked.machine.kernel)
      (fun _ _ _ ⟨⟨screen, htables⟩, hset⟩ _ hs => ⟨⟨_, htables.step hs⟩, hset.step hs⟩) hrun
      (along_of_forall (fun _ _ => trivial) _ es)
      ⟨⟨false, (reached_boot pcbs memory).tables⟩, Or.inl rfl⟩
  refine ⟨?_, ?_⟩
  · rcases hset with hboot | hpage
    · exact absurd (congrArg Nat.cast hboot) hm.1
    · exact hpage
  · exact htables.behind

/-- Every address of the user page has a frame, whatever the video table holds. -/
theorem UserDirectory.mapped (h : UserDirectory s) (terminals : Terminals) (pcbTerminal : Nat) :
    UserPageMapped (openScreen (userVideo addrs rest s terminals) pcbTerminal) := by
  intro vaddr hlow hhigh
  obtain ⟨pid, hpage⟩ := h.page
  have hlower : usrLowBound = 0x08000000 := rfl
  have hupper : upperBound = 0x08400000 := rfl
  have hdir : vaddr / 2 ^ 22 = cpIndex := by
    show _ = 32
    omega
  refine translate_isSome_of_large ?_ ?_
  · show permits _ (s.tracked.machine.kernel.pageDir (vaddr / 2 ^ 22)) = true
    rw [hdir, hpage, pageEntry, permits, Nat.testBit_or]
    exact congrArg (· && true) (Bool.or_true _)
  · show (s.tracked.machine.kernel.pageDir (vaddr / 2 ^ 22)).testBit 7 = true
    rw [hdir, hpage, pageEntry, Nat.testBit_or]
    exact Bool.or_true _

/-- The address behind the user page has none. -/
theorem UserDirectory.stores_upperBound (h : UserDirectory s) (terminals : Terminals)
    (pcbTerminal : Nat) {vaddr : Nat} (hlow : upperBound ≤ vaddr) (hhigh : vaddr < upperBound + 4) :
    (openScreen (userVideo addrs rest s terminals) pcbTerminal).stores vaddr = none := by
  have hupper : upperBound = 0x08400000 := rfl
  have hdir : vaddr / 2 ^ 22 = cpIndex + 1 := by
    show _ = 33
    omega
  refine translate_of_not_permits ?_
  show permits _ (s.tracked.machine.kernel.pageDir (vaddr / 2 ^ 22)) = false
  rw [hdir, h.behind, permits_zero]

theorem UserDirectory.faults (h : UserDirectory s) (terminals : Terminals) (pcbTerminal : Nat)
    {screenStart : Nat} (htaken : ¬ Refused screenStart) (hhigh : ¬ screenStart + 4 ≤ upperBound) :
    vidmap (userVideo addrs rest s terminals) pcbTerminal screenStart =
      (none, openScreen (userVideo addrs rest s terminals) pcbTerminal) := by
  unfold Refused at htaken
  have hbehind := @UserDirectory.stores_upperBound addrs rest s h terminals pcbTerminal upperBound
    le_rfl (by omega)
  have hlast : screenStart + (upperBound - screenStart) = upperBound := by omega
  rw [vidmap_of_taken htaken, storeWhole_of_unmapped (i := upperBound - screenStart) ?_ ?_]
  · show _ < 4
    omega
  · rw [hlast]
    exact hbehind

/-- **The pointer of vidmap.** In every state of every run in which a program can call it, for every
pointer and whatever the terminals show: when `vidmap` returns 0, the four bytes that it has stored
are in the page of the program and nothing else in memory has changed, and when it returns -1
nothing at all has changed. It returns -1 for the pointers outside its bounds and 0 for those with
four bytes in the page; for the four pointers between, the store of the answer faults. -/
theorem vidmap_safe {pcbs : Nat → PCB} {memory : Nat → UInt8} {es : List SpaceEvent}
    (hrun : run (spaceStep isExecutable program addrs rest) (bootSpaces addrs pcbs memory) es =
      some s)
    (hm : UserRuns s.tracked.machine) (terminals : Terminals) (pcbTerminal screenStart : Nat) :
    VidmapSafe (userVideo addrs rest s terminals) pcbTerminal screenStart := by
  have hdirectory := userDirectory_of_run hrun hm
  by_cases hrefused : Refused screenStart
  · exact vidmapSafe_of_refused hrefused _ pcbTerminal
  · have hlow : usrLowBound ≤ screenStart := by
      unfold Refused at hrefused
      omega
    by_cases hhigh : screenStart + 4 ≤ upperBound
    · exact vidmapSafe_of_mapped (hdirectory.mapped terminals pcbTerminal) hlow hhigh
    · exact vidmapSafe_of_fault hrefused hhigh (hdirectory.faults terminals pcbTerminal hrefused hhigh)

end Vidmap

/-! ## The page of a process -/

/-- The page of a pid. -/
def privatePage (pid : Nat) (memory : Nat → UInt8) : Nat → UInt8 :=
  page memory ((pid - 1) * 0x400000 + 0x800000)

/-- The process that runs, by the kernel stack. -/
def runningPid (s : Spaces) : Nat := (0x800000 - s.tracked.machine.kernel.tssEsp0) / 0x2000

/-- The stores that an event makes to the page of a pid, by offset: those of the process itself,
the answer of `vidmap` to it unless it faults, and its program. -/
def ownStores (isExecutable : List UInt8 → Bool) (program : List UInt8 → List UInt8) (pid : Nat)
    (s : Spaces) : SpaceEvent → List (Nat × UInt8)
  | .machine e =>
    match (outcome isExecutable s.tracked.machine e).bind Outcome.launch with
    | some l => if l.pid = pid then Stores.series 0x48000 (program (programName e)) else []
    | none => []
  | .vidmap _ screenStart =>
    if runningPid s = pid ∧ usrLowBound ≤ screenStart ∧ screenStart + 4 ≤ upperBound then
      Stores.series (screenStart - usrLowBound) (wordBytes usrVidMapAddr)
    else []
  | .store _ vaddr value =>
    if runningPid s = pid ∧ UserRange vaddr then [(vaddr - 0x08000000, value)] else []

/-- The stores to the page of a pid in a run. -/
def storesInRun (isExecutable : List UInt8 → Bool) (program : List UInt8 → List UInt8)
    (addrs : TableAddrs) (rest : Nat → Nat → Nat) (pid : Nat) :
    Spaces → List SpaceEvent → List (Nat × UInt8)
  | _, [] => []
  | s, e :: es => ownStores isExecutable program pid s e ++
    match spaceStep isExecutable program addrs rest s e with
    | none => []
    | some s' => storesInRun isExecutable program addrs rest pid s' es

section Page

variable {isExecutable : List UInt8 → Bool} {program : List UInt8 → List UInt8} {addrs : TableAddrs}
  {rest : Nat → Nat → Nat} {s s' : Spaces} {arrays : PageArrays} {screen : Bool} {p q : Nat}

/-- No address of the kernel leads to a user page. -/
theorem kernelVisible_lt {vaddr frame : Nat} (h : kernelVisible vaddr = some frame) :
    frame < 0x800000 := by
  unfold kernelVisible at h
  split_ifs at h with hkernel hcopy hvideo
  · have hframe := Option.some.inj h
    omega
  · have hframe := Option.some.inj h
    omega
  · have hframe := Option.some.inj h
    omega

theorem visible_eq_iff (hp : 1 ≤ p) (hq : 1 ≤ q) (a : Access) (vaddr : Nat) {i : Nat}
    (hi : i < 0x400000) :
    visible p screen a vaddr = some ((q - 1) * 0x400000 + 0x800000 + i) ↔
      p = q ∧ vaddr = 0x08000000 + i := by
  unfold visible
  constructor
  · intro h
    split_ifs at h with huser hscreen hopen
    · have hframe := Option.some.inj h
      unfold UserRange at huser
      omega
    · have hframe := Option.some.inj h
      unfold ScreenRange at hscreen
      omega
    · have hlt := kernelVisible_lt h
      omega
  · rintro ⟨rfl, rfl⟩
    rw [if_pos ⟨by omega, by omega⟩, Nat.add_sub_cancel_left]

/-- The process in memory sees its page from 128 MB on. -/
theorem MapsProcess.window (h : MapsProcess addrs p screen arrays) (h1 : 1 ≤ p) (h7 : p ≤ 7)
    (user : Bool) :
    Window (storesOf addrs rest user arrays) 0x08000000 ((p - 1) * 0x400000 + 0x800000) 0x400000 where
  eq_iff := by
    intro vaddr i hi
    rw [storesOf, translate_eq_visible h h1 h7, visible_eq_iff h1 h1 _ _ hi]
    exact and_iff_right rfl

/-- No address leads to the page of another pid. -/
theorem MapsProcess.hidden (h : MapsProcess addrs p screen arrays) (h1 : 1 ≤ p) (h7 : p ≤ 7)
    (hq : 1 ≤ q) (hne : p ≠ q) (user : Bool) :
    Hidden (storesOf addrs rest user arrays) ((q - 1) * 0x400000 + 0x800000) 0x400000 := by
  intro vaddr i hi
  rw [storesOf, translate_eq_visible h h1 h7, Ne, visible_eq_iff h1 hq _ _ hi]
  exact fun heq => hne heq.1

/-- A run of stores from the page on, seen by any pid. -/
theorem MapsProcess.storeAll (h : MapsProcess addrs p screen arrays) (h1 : 1 ≤ p) (h7 : p ≤ 7)
    (hq : 1 ≤ q) (user : Bool) (memory : Nat → UInt8) (offset : Nat) (values : List UInt8) {i : Nat}
    (hi : i < 0x400000) :
    privatePage q
        (Paging.storeAll (storesOf addrs rest user arrays) memory (0x08000000 + offset) values) i = Stores.apply (privatePage q memory)
          (if p = q then Stores.series offset values else []) i := by
  by_cases hpq : p = q
  · subst hpq
    rw [if_pos rfl, Stores.apply_series]
    exact (h.window h1 h7 user).storeAll offset values hi
  · rw [if_neg hpq]
    exact (h.hidden h1 h7 hq hpq user).storeAll _ values hi

theorem execute_pid_le {k : Kernel} {f : Frame} {command : List UInt8} {l : Launch}
    (h : execute isExecutable k f command = some l) (hfound : l.foundPid = true) :
    1 ≤ l.pid ∧ l.pid ≤ 7 := by
  obtain ⟨-, -, rfl⟩ := execute_eq_some h
  unfold launch at hfound ⊢
  dsimp only at hfound ⊢
  split at hfound
  · rename_i i hfree
    have hi := (freePid_eq_some.mp hfree).1
    exact ⟨Nat.succ_pos i, hi⟩
  · cases hfound

/-- The machine is set up for the process that a step launches. -/
theorem setUpFor_outcome {m : Machine} {e : Event} {o : Outcome} {l : Launch}
    (ho : outcome isExecutable m e = some o) (hl : o.launch = some l) :
    SetUpFor o.machine.kernel l.pid ∧ (l.foundPid = true → 1 ≤ l.pid ∧ l.pid ≤ 7) := by
  cases happens_of_outcome ho with
  | startup hf hstarted hexec | executed hf hexec | restart hf hpid hexec =>
    cases hl
    exact ⟨setUpFor_execute hexec, execute_pid_le hexec⟩
  | shellExit hf hpid hexec hr =>
    rw [← hr, haltReturn_launch] at hl
    cases hl
  | switch | startupRefused | refused | childExit | fault | key => cases hl

/-- The maps after a launch have the new process in memory. -/
theorem TablesSet.maps_launch (h : TablesSet addrs screen s') {e : Event} {o : Outcome} {l : Launch}
    (hwell : LaunchesWell isExecutable s.tracked e)
    (ho : outcome isExecutable s.tracked.machine e = some o) (hl : o.launch = some l)
    (htracked : s'.tracked = track s.tracked e o) :
    1 ≤ l.pid ∧ l.pid ≤ 7 ∧ MapsProcess addrs l.pid screen (arraysOf s') := by
  obtain ⟨hset, hpid⟩ := setUpFor_outcome ho hl
  obtain ⟨h1, h7⟩ := hpid (hwell.launch ho hl).1
  refine ⟨h1, h7, ?_, h.directory, h.table, h.video⟩
  show s'.tracked.machine.kernel.pageDir cpIndex = _
  rw [htracked]
  exact hset.page

/-- User code runs only when a process is in memory. -/
theorem Phased.userRuns (h : Phased s.tracked) (hm : UserRuns s.tracked.machine) :
    ∃ p, 1 ≤ p ∧ p ≤ 7 ∧ runningPid s = p ∧
      s.tracked.machine.kernel.pageDir cpIndex = pageEntry p := by
  rcases h with ⟨-, hidle⟩ | ⟨a, hagrees⟩
  · exact absurd hm hidle.not_userRuns
  · obtain ⟨h1, -⟩ := a.running_range
    have h7 := a.running_le
    refine ⟨a.running, h1, h7, ?_, hagrees.kernel.page⟩
    rw [runningPid, hagrees.kernel.tss, kernelStackAddr_of_le (by omega)]
    omega

theorem Reached.machine_page (h : Reached addrs screen s) {e : Event}
    (hwell : LaunchesWell isExecutable s.tracked e)
    (hs : machineStep isExecutable program addrs rest s e = some s') (hq : 1 ≤ q) {i : Nat}
    (hi : i < 0x400000) :
    privatePage q s'.memory i =
      Stores.apply (privatePage q s.memory) (ownStores isExecutable program q s (.machine e)) i := by
  have htables : TablesSet addrs (screen || opensScreen (.machine e)) s' := h.tables.step hs
  obtain ⟨o, ho, htracked, -, -, hmemory⟩ := machineStep_eq_some hs
  rw [hmemory, ownStores, ho, Option.bind_some]
  cases hl : o.launch with
  | none => rfl
  | some l =>
    obtain ⟨h1, h7, hmaps⟩ := htables.maps_launch hwell ho hl htracked
    exact hmaps.storeAll h1 h7 hq false s.memory 0x48000 _ hi

/-- The directory while user code runs, in a reached state. -/
theorem Reached.userDirectory (h : Reached addrs screen s) (hm : UserRuns s.tracked.machine) :
    UserDirectory s := by
  obtain ⟨p, -, -, -, hpage⟩ := h.phase.userRuns hm
  exact ⟨⟨p, hpage⟩, h.tables.behind⟩

/-- The process sees its page while `vidmap` stores its answer. -/
theorem TablesSet.maps_openScreen (h : TablesSet addrs screen s)
    (hpage : s.tracked.machine.kernel.pageDir cpIndex = pageEntry p) (terminals : Terminals)
    (pcbTerminal : Nat) :
    MapsProcess addrs p true { arraysOf s with
      pageTableUserVideo :=
        (openScreen (userVideo addrs rest s terminals) pcbTerminal).pageTableUserVideo } := by
  refine ⟨hpage, h.directory, h.table, ?_⟩
  show Function.update s.pageTableUserVideo 0 _ = _
  rw [h.video]
  cases screen with
  | false => rfl
  | true => exact Function.update_idem _ _ _

theorem Reached.vidmap_page (h : Reached addrs screen s) {terminals : Terminals} {screenStart : Nat}
    (hm : UserRuns s.tracked.machine)
    (hs : vidmapStep isExecutable program addrs rest s terminals screenStart = some s')
    (hq : 1 ≤ q) {i : Nat} (hi : i < 0x400000) :
    privatePage q s'.memory i =
      Stores.apply (privatePage q s.memory)
        (ownStores isExecutable program q s (.vidmap terminals screenStart)) i := by
  obtain ⟨p, h1, h7, hrunning, hpage⟩ := h.phase.userRuns hm
  have hdirectory := h.userDirectory hm
  obtain ⟨-, -, hmemory, -⟩ := vidmapStep_eq_some hs
  rw [hmemory, ownStores, hrunning]
  by_cases hrefused : Refused screenStart
  · rw [vidmap_of_refused hrefused, if_neg]
    · rfl
    · unfold Refused at hrefused
      omega
  · have hlow : usrLowBound ≤ screenStart := by
      unfold Refused at hrefused
      omega
    by_cases hhigh : screenStart + 4 ≤ upperBound
    · have hstart : 0x08000000 + (screenStart - usrLowBound) = screenStart := by
        have hbound : usrLowBound = 0x08000000 := rfl
        omega
      have hmaps := @TablesSet.maps_openScreen addrs rest s screen p h.tables hpage terminals
        s.tracked.machine.kernel.pcbTerminal
      rw [vidmap_of_mapped (hdirectory.mapped _ _) hlow hhigh]
      simp only [hlow, hhigh, and_true]
      have hstored := @MapsProcess.storeAll addrs rest _ true p q hmaps h1 h7 hq false s.memory
        (screenStart - usrLowBound) (wordBytes usrVidMapAddr) i hi
      rw [hstart] at hstored
      exact hstored
    · rw [hdirectory.faults _ _ hrefused hhigh, if_neg (fun hand => hhigh hand.2.2)]
      rfl

theorem Reached.store_page (h : Reached addrs screen s) (user : Bool) (vaddr : Nat) (value : UInt8)
    (hm : UserRuns s.tracked.machine) (hq : 1 ≤ q) {i : Nat} (hi : i < 0x400000) :
    privatePage q (storeStep addrs rest s user vaddr value).memory i =
      Stores.apply (privatePage q s.memory)
        (ownStores isExecutable program q s (.store user vaddr value)) i := by
  obtain ⟨p, h1, h7, hrunning, hpage⟩ := h.phase.userRuns hm
  have hmaps : MapsProcess addrs p screen (arraysOf s) :=
    ⟨hpage, h.tables.directory, h.tables.table, h.tables.video⟩
  rw [ownStores, hrunning]
  by_cases hpq : p = q
  · subst hpq
    by_cases huser : UserRange vaddr
    · rw [if_pos ⟨rfl, huser⟩]
      obtain ⟨offset, rfl⟩ := Nat.exists_eq_add_of_le huser.1
      rw [Nat.add_sub_cancel_left]
      exact (hmaps.window h1 h7 user).store_in offset value hi
    · rw [if_neg (fun hand => huser hand.2)]
      exact (hmaps.window h1 h7 user).store_out huser value hi
  · rw [if_neg (fun hand => hpq hand.1)]
    exact (hmaps.hidden h1 h7 hq hpq user).store vaddr value hi

/-- One step makes the stores of each pid to its page. -/
theorem Reached.step_page (h : Reached addrs screen s) {e : SpaceEvent}
    (hwell : SpaceWell isExecutable s e)
    (hs : spaceStep isExecutable program addrs rest s e = some s') (hq : 1 ≤ q) {i : Nat}
    (hi : i < 0x400000) :
    privatePage q s'.memory i =
      Stores.apply (privatePage q s.memory) (ownStores isExecutable program q s e) i := by
  cases e with
  | machine e => exact h.machine_page hwell hs hq hi
  | vidmap terminals screenStart =>
    simp only [spaceStep] at hs
    split at hs
    · rename_i hm
      exact h.vidmap_page hm hs hq hi
    · cases hs
  | store user vaddr value =>
    simp only [spaceStep] at hs
    split at hs
    · rename_i hm
      cases hs
      exact h.store_page user vaddr value hm.1 hq hi
    · cases hs

theorem Reached.run_page (hshell : isExecutable (parseCommand shellCommand).1 = true)
    (h : Reached addrs screen s) {es : List SpaceEvent}
    (hrun : run (spaceStep isExecutable program addrs rest) s es = some s')
    (hwell : Along (spaceStep isExecutable program addrs rest) (SpaceWell isExecutable) s es)
    (hq : 1 ≤ q) {i : Nat} (hi : i < 0x400000) :
    privatePage q s'.memory i =
      Stores.apply (privatePage q s.memory)
        (storesInRun isExecutable program addrs rest q s es) i := by
  induction es generalizing s screen with
  | nil =>
    cases hrun
    rfl
  | cons e es ih =>
    obtain ⟨t, ht, hrest⟩ := run_cons.mp hrun
    obtain ⟨hw, hwrest⟩ := along_cons hwell ht
    have hreached : Reached addrs (screen || opensScreen e) t :=
      ⟨h.phase.step hshell hw ht, h.tables.step ht⟩
    rw [ih hreached hrest hwrest, storesInRun, ht, Stores.apply_append]
    refine Stores.apply_congr ?_
    exact h.step_page hw ht hq hi

/-- **A memory of its own.** In every run of the machine with its memory, the page of every pid
holds what was in it at boot, changed by the stores that the process made while it was running, by
those that its system calls made for it and by the load of its program, in their order; nothing
that another process does changes it. -/
theorem page_private {pcbs : Nat → PCB} {memory : Nat → UInt8} {es : List SpaceEvent}
    (hshell : isExecutable (parseCommand shellCommand).1 = true)
    (hrun : run (spaceStep isExecutable program addrs rest) (bootSpaces addrs pcbs memory) es =
      some s)
    (hwell : Along (spaceStep isExecutable program addrs rest) (SpaceWell isExecutable)
      (bootSpaces addrs pcbs memory) es)
    (hq : 1 ≤ q) {i : Nat} (hi : i < 0x400000) :
    privatePage q s.memory i =
      Stores.apply (privatePage q memory)
        (storesInRun isExecutable program addrs rest q (bootSpaces addrs pcbs memory) es) i :=
  (reached_boot pcbs memory).run_page hshell hrun hwell hq hi

end Page

/-! ## A run -/

/-- Two tables in the kernel page. -/
def sampleTables : TableAddrs where
  pageTable := 0x00409000
  pageTableUserVideo := 0x0040A000
  pageTable_aligned := by decide
  pageTableUserVideo_aligned := by decide
  ne := by decide

/-- The three base shells start; the third stores a byte, opens the screen and starts a child,
which stores a byte at the same address. -/
def storingRun : List SpaceEvent :=
  startupTicks.map .machine ++ [.store true 0x08000010 7, .vidmap typedOnce.toTerminals 0x08000020,
    .machine (.execute (frameOf 3) lsCommand), .store true 0x08000010 9]

theorem storingRun_executed :
    ∃ s, run (spaceStep programs (fun _ => [0x7F]) sampleTables fun _ _ => 0)
        (bootSpaces sampleTables (fun _ => zeroPCB) fun _ => 0) storingRun = some s ∧
      0 < s.tracked.executed ∧ UserRuns s.tracked.machine := by
  have hsome : ((run (spaceStep programs (fun _ => [0x7F]) sampleTables fun _ _ => 0)
      (bootSpaces sampleTables (fun _ => zeroPCB) fun _ => 0) storingRun).map
        fun s => (s.tracked.executed, decide (UserRuns s.tracked.machine))) = some (4, true) := by
    decide +kernel
  obtain ⟨s, hs, hpair⟩ := Option.map_eq_some_iff.mp hsome
  obtain ⟨hcount, hruns⟩ := Prod.mk.inj hpair
  exact ⟨s, hs, by omega, of_decide_eq_true hruns⟩

/-- The child asks for the screen: at 0x083FFFFC its answer is stored in the last four bytes of its
page, and one byte further on the store faults. -/
theorem vidmap_safe_storing : ∃ s,
    run (spaceStep programs (fun _ => [0x7F]) sampleTables fun _ _ => 0)
        (bootSpaces sampleTables (fun _ => zeroPCB) fun _ => 0) storingRun = some s ∧
      (vidmap (userVideo sampleTables (fun _ _ => 0) s typedOnce.toTerminals) 2 0x083FFFFC).1 =
        some 0 ∧
      (vidmap (userVideo sampleTables (fun _ _ => 0) s typedOnce.toTerminals) 2 0x083FFFFD).1 =
        none := by
  obtain ⟨s, hs, -, hruns⟩ := storingRun_executed
  exact ⟨s, hs, (vidmap_safe hs hruns _ _ _).answer, (vidmap_safe hs hruns _ _ _).answer⟩

theorem address_map_exact_storing : ∃ s p,
    run (spaceStep programs (fun _ => [0x7F]) sampleTables fun _ _ => 0)
        (bootSpaces sampleTables (fun _ => zeroPCB) fun _ => 0) storingRun = some s ∧
      ∀ a vaddr, translate (mapsOf sampleTables (fun _ _ => 0) (arraysOf s)) a vaddr =
        visible p true a vaddr := by
  obtain ⟨s, hs, hpos, -⟩ := storingRun_executed
  obtain ⟨p, -, -, -, hvisible⟩ := address_map_exact (by decide) hs (by decide +kernel) hpos
  exact ⟨s, p, hs, hvisible⟩

/-- The child has its own byte at the address, and the third shell has kept its own. -/
theorem page_private_storing : ∃ s,
    run (spaceStep programs (fun _ => [0x7F]) sampleTables fun _ _ => 0)
        (bootSpaces sampleTables (fun _ => zeroPCB) fun _ => 0) storingRun = some s ∧
      privatePage 3 s.memory 0x10 = 7 ∧ privatePage 4 s.memory 0x10 = 9 := by
  obtain ⟨s, hs, -⟩ := storingRun_executed
  have hpage : ∀ q, 1 ≤ q → privatePage q s.memory 0x10 = _ := fun q hq =>
    page_private (q := q) (by decide) hs (by decide +kernel) hq (by decide : 0x10 < 0x400000)
  refine ⟨s, hs, ?_, ?_⟩
  · rw [hpage 3 (by decide)]
    decide +kernel
  · rw [hpage 4 (by decide)]
    decide +kernel

end LinuxBasedOS.Process
