import LinuxBasedOS.Process.History

/-!
# Exit status

The value that `halt` of a child hands to the `execute` of its parent is to be the status of
the child, or 256 for a child that died by an exception. `page_handler` only sets the global
`exception_halt`, and the process that faulted spins; the flag is consumed by the next process
that halts. `Watched` adds to the machine whether a fault is pending, that is, has happened
since the last `halt` that returned.
-/

namespace LinuxBasedOS.Process

open Transition

variable {isExecutable : List UInt8 → Bool}

structure Watched where
  machine : Machine
  pending : Bool

/-- A fault is pending until a `halt` returns into an `execute`. -/
def pendingAfter (pending : Bool) (e : Event) (o : Outcome) : Bool :=
  match e with
  | .pageFault => true
  | .halt _ _ => pending && o.retval.isNone
  | .tick _ | .execute _ _ | .key _ => pending

def watchedStep (isExecutable : List UInt8 → Bool) (w : Watched) (e : Event) : Option Watched :=
  (outcome isExecutable w.machine e).map fun o =>
    { machine := o.machine, pending := pendingAfter w.pending e o }

def watch (memory : Nat → PCB) : Watched where
  machine := boot memory
  pending := false

/-- A child that exits hands its own status to its parent, and 256 only if it has faulted
itself. -/
def ExitStatusOwn (isExecutable : List UInt8 → Bool) (w : Watched) : Event → Prop
  | .halt f status =>
    ∀ o, outcome isExecutable w.machine (.halt f status) = some o →
      3 < (w.machine.kernel.pcbs (currentPCB f.esp)).pid →
        (w.machine.faulted (entryBlock w.machine.kernel) = false → o.retval = some status.toNat) ∧
          (o.retval = some 256 → w.machine.faulted (entryBlock w.machine.kernel) = true)
  | _ => True

/-- No child exits while a fault is pending. -/
def NoPendingFault (w : Watched) : Event → Prop
  | .halt f _ =>
    OnSyscall w.machine f → 3 < (w.machine.kernel.pcbs (currentPCB f.esp)).pid → w.pending = false
  | _ => True

/-! ## The flag and the faults -/

theorem haltReturn_retval (k : Kernel) (current : PCB) (status : UInt8) :
    (haltReturn k current status).retval.isNone = false := by
  unfold haltReturn
  dsimp only
  split <;> rfl

theorem haltReturn_exceptionHalt (k : Kernel) (current : PCB) (status : UInt8) :
    (haltReturn k current status).kernel.exceptionHalt ≠ 1 := by
  unfold haltReturn
  dsimp only
  split
  · exact zero_ne_one
  · rename_i hne
    split
    · exact hne
    · exact hne

theorem launch_exceptionHalt (k : Kernel) (f : Frame) (args : List UInt8) :
    (launch k f args).kernel.exceptionHalt = k.exceptionHalt := by
  unfold launch
  dsimp only
  split <;> rfl

/-- `exception_halt` is 1 exactly while a fault is pending. -/
theorem pending_step {w w' : Watched} {e : Event}
    (h : w.machine.kernel.exceptionHalt = 1 ↔ w.pending = true)
    (hs : watchedStep isExecutable w e = some w') :
    w'.machine.kernel.exceptionHalt = 1 ↔ w'.pending = true := by
  obtain ⟨o, ho, rfl⟩ := Option.map_eq_some_iff.mp hs
  have hlaunch : ∀ {k f command l}, execute isExecutable k f command = some l →
      l.kernel.exceptionHalt = k.exceptionHalt := by
    intro k f command l hl
    obtain ⟨_, _, rfl⟩ := execute_eq_some hl
    exact launch_exceptionHalt _ _ _
  cases happens_of_outcome ho with
  | switch hf hstarted hslot =>
    show (switchTo _ _ _).kernel.exceptionHalt = 1 ↔ _
    rw [switchTo_exceptionHalt, saveStack_exceptionHalt]
    exact h
  | startup hf hstarted hl =>
    show (launched w.machine _ none).machine.kernel.exceptionHalt = 1 ↔ _
    rw [← startupKernel_exceptionHalt, ← hlaunch hl] at h
    exact h
  | startupRefused hf hstarted hl =>
    rw [← startupKernel_exceptionHalt] at h
    exact h
  | executed hf hl =>
    rw [← hlaunch hl] at h
    exact h
  | refused hf hl => exact h
  | childExit hf hpid =>
    show (childExitKernel w.machine.kernel _).exceptionHalt = 1 ↔ (w.pending && false) = true
    rw [Bool.and_false]
    refine ⟨fun hone => ?_, fun hfalse => nomatch hfalse⟩
    change (if w.machine.kernel.exceptionHalt = 1 then 0 else w.machine.kernel.exceptionHalt) = 1 at hone
    split at hone
    · exact absurd hone zero_ne_one
    · rename_i hne
      exact absurd hone hne
  | @restart f status l hf hpid hl =>
    show l.kernel.exceptionHalt = 1 ↔ (w.pending && true) = true
    rw [Bool.and_true, hlaunch hl]
    exact h
  | @shellExit f status r hf hpid hl hr =>
    show r.kernel.exceptionHalt = 1 ↔ (w.pending && r.retval.isNone) = true
    rw [← hr, haltReturn_retval, Bool.and_false]
    exact ⟨fun hone => absurd hone (haltReturn_exceptionHalt _ _ _), fun hfalse => nomatch hfalse⟩
  | fault hm => exact ⟨fun _ => rfl, fun _ => rfl⟩
  | key ht => exact h

/-! ## What the parent gets -/

theorem outcome_halt (isExecutable : List UInt8 → Bool) {m : Machine} {f : Frame}
    (hf : OnSyscall m f) (hpid : 3 < (m.kernel.pcbs (currentPCB f.esp)).pid) (status : UInt8) :
    ∃ o, outcome isExecutable m (.halt f status) = some o ∧
      o.retval = some (exitValue m.kernel status) := by
  refine ⟨_, if_pos hf, ?_⟩
  show (halt isExecutable m.kernel f status).retval = _
  rw [halt_child hpid]

theorem onSyscall_of_halt {m : Machine} {f : Frame} {status : UInt8} {o : Outcome}
    (h : outcome isExecutable m (.halt f status) = some o) : OnSyscall m f := by
  cases happens_of_outcome h with
  | childExit hf hpid => exact hf
  | restart hf hpid hl => exact hf
  | shellExit hf hpid hl hr => exact hf

theorem exitStatusOwn_iff {w : Watched} {e : Event}
    (h : w.machine.kernel.exceptionHalt = 1 ↔ w.pending = true) :
    ExitStatusOwn isExecutable w e ↔ NoPendingFault w e := by
  cases e with
  | halt f status =>
    have hlt := status.toNat_lt
    constructor
    · intro hown hf hpid
      obtain ⟨o, ho, hretval⟩ := outcome_halt isExecutable hf hpid status
      have hstatus := (hown o ho hpid).1 hf.1.2
      rw [hretval, exitValue] at hstatus
      by_contra hpending
      rw [if_pos (h.mpr (by simpa using hpending))] at hstatus
      have := Option.some.inj hstatus
      omega
    · intro hquiet o ho hpid
      have hf := onSyscall_of_halt ho
      obtain ⟨o', ho', hretval⟩ := outcome_halt isExecutable hf hpid status
      obtain rfl : o' = o := Option.some.inj (ho'.symm.trans ho)
      have hne : w.machine.kernel.exceptionHalt ≠ 1 := by
        intro hone
        rw [hquiet hf hpid] at h
        exact absurd (h.mp hone) Bool.false_ne_true
      rw [exitValue, if_neg hne] at hretval
      refine ⟨fun _ => hretval, fun h256 => ?_⟩
      rw [hretval] at h256
      have := Option.some.inj h256
      omega
  | tick f => exact Iff.rfl
  | execute f command => exact Iff.rfl
  | pageFault => exact Iff.rfl
  | key terminal => exact Iff.rfl

/-- Along a run every child hands over its own status if and only if no child exits while the
fault of another process is pending. -/
theorem exit_status_own_iff (isExecutable : List UInt8 → Bool) (memory : Nat → PCB)
    (es : List Event) :
    Along (watchedStep isExecutable) (ExitStatusOwn isExecutable) (watch memory) es ↔
      Along (watchedStep isExecutable) NoPendingFault (watch memory) es := by
  refine along_iff_of_invariant
    (I := fun w => w.machine.kernel.exceptionHalt = 1 ↔ w.pending = true) ?_ ?_ ?_
  · intro w e w' h hs
    exact pending_step h hs
  · intro w e h
    exact exitStatusOwn_iff h
  · exact ⟨fun hone => absurd hone zero_ne_one, fun hfalse => nomatch hfalse⟩

/-- Shell 3 starts a child, and shell 1 faults while the child is preempted. -/
def faultBeforeExit : List Event :=
  startupTicks ++ [.execute (frameOf 3) lsCommand, .tick (frameOf 4), .pageFault, .tick (frameOf 1),
    .tick (frameOf 2)]

/-- The child exits with 7, and its parent gets 256. -/
theorem fault_taken_for_child :
    ¬ ∀ (isExecutable : List UInt8 → Bool) (memory : Nat → PCB) (es : List Event),
      Along (watchedStep isExecutable) (ExitStatusOwn isExecutable) (watch memory) es := by
  intro hall
  have hsome : ((run (watchedStep programs) (watch fun _ => zeroPCB) faultBeforeExit).bind fun w =>
      (outcome programs w.machine (.halt (frameOf 4) 7)).map fun o =>
        (o.retval, w.machine.faulted (entryBlock w.machine.kernel),
          (w.machine.kernel.pcbs (currentPCB (frameOf 4).esp)).pid)) = some (some 256, false, 4) := by
    decide +kernel
  obtain ⟨w, hw, hrest⟩ := Option.bind_eq_some_iff.mp hsome
  obtain ⟨o, ho, hfacts⟩ := Option.map_eq_some_iff.mp hrest
  obtain ⟨hretval, hfacts'⟩ := Prod.mk.inj hfacts
  obtain ⟨hfault, hpid⟩ := Prod.mk.inj hfacts'
  have hown := along_at
    (hall programs (fun _ => zeroPCB) (faultBeforeExit ++ [.halt (frameOf 4) 7])) hw o ho (by omega)
  rw [hretval] at hown
  exact absurd (hown.1 hfault) (by decide)

end LinuxBasedOS.Process
