import LinuxBasedOS.Process.Steps

/-!
# Runs with the processes they have started

The kernel keeps no record of which processes are alive. `Tracked` adds one to the machine:
every process that `execute` has started and that has not called `halt`, newest first, with
the process whose `execute` started it and the base shell at the end of its chain. The record
only watches the machine, and `machine_run` takes a run with it to a run of the machine.
-/

namespace LinuxBasedOS.Process

open Transition

structure Proc where
  pid : Nat
  caller : Option Nat
  base : Nat
  deriving DecidableEq, Repr

structure Tracked where
  machine : Machine
  procs : List Proc
  executed : Nat

/-- The PCB at the address of a pid. -/
def pcbOf (t : Tracked) (pid : Nat) : PCB := t.machine.kernel.pcbs (pcbAddr pid)

/-- A process with this pid has been executed and has not halted. -/
def Live (procs : List Proc) (pid : Nat) : Prop := ∃ q ∈ procs, q.pid = pid

instance (procs : List Proc) (pid : Nat) : Decidable (Live procs pid) :=
  inferInstanceAs (Decidable (∃ q ∈ procs, q.pid = pid))

/-- The process whose system call the event is, when a process calls `execute`. -/
def caller (m : Machine) : Event → Option Nat
  | .execute f _ => some (m.kernel.pcbs (currentPCB f.esp)).pid
  | _ => none

/-- The base shell of a live process. -/
def baseOf (procs : List Proc) (pid : Nat) : Option Nat :=
  (procs.find? fun q => q.pid == pid).map Proc.base

/-- The record of a new process. A process that the scheduler or a base shell's exit starts
begins a chain of its own. -/
def newProc (t : Tracked) (e : Event) (pid : Nat) : Proc where
  pid := pid
  caller := caller t.machine e
  base := ((caller t.machine e).bind (baseOf t.procs)).getD pid

def afterHalt (procs : List Proc) : Option Nat → List Proc
  | none => procs
  | some pid => procs.filter fun q => q.pid != pid

def afterLaunch (t : Tracked) (e : Event) (procs : List Proc) : Option Launch → List Proc
  | none => procs
  | some l => newProc t e l.pid :: procs

def track (t : Tracked) (e : Event) (o : Outcome) : Tracked where
  machine := o.machine
  procs := afterLaunch t e (afterHalt t.procs o.halted) o.launch
  executed := t.executed + o.launch.toList.length

def trackedStep (isExecutable : List UInt8 → Bool) (t : Tracked) (e : Event) : Option Tracked :=
  (outcome isExecutable t.machine e).map (track t e)

/-- The start of every run. -/
def start (memory : Nat → PCB) : Tracked where
  machine := boot memory
  procs := []
  executed := 0

variable {isExecutable : List UInt8 → Bool}

theorem trackedStep_happens {t t' : Tracked} {e : Event}
    (h : trackedStep isExecutable t e = some t') :
    ∃ o, Happens isExecutable t.machine e o ∧ t' = track t e o := by
  obtain ⟨o, ho, rfl⟩ := Option.map_eq_some_iff.mp h
  exact ⟨o, happens_of_outcome ho, rfl⟩

/-- A step that launches and ends no process leaves the record as it is. -/
theorem track_procs_of_quiet {t : Tracked} {e : Event} {o : Outcome} (hlaunch : o.launch = none)
    (hhalted : o.halted = none) : (track t e o).procs = t.procs := by
  simp only [track, hlaunch, hhalted, afterLaunch, afterHalt]

theorem track_executed_of_quiet {t : Tracked} {e : Event} {o : Outcome}
    (hlaunch : o.launch = none) : (track t e o).executed = t.executed := by
  simp only [track, hlaunch, Option.toList_none, List.length_nil, Nat.add_zero]

theorem machine_run {t t' : Tracked} {es : List Event}
    (h : run (trackedStep isExecutable) t es = some t') :
    run (step isExecutable) t.machine es = some t'.machine := by
  have hstep : ∀ ⦃s : Tracked⦄ ⦃m : Machine⦄ ⦃e : Event⦄ ⦃s' : Tracked⦄, s.machine = m →
      trackedStep isExecutable s e = some s' →
        ∃ m', step isExecutable m e = some m' ∧ s'.machine = m' := by
    intro s m e s' hm hs
    obtain ⟨o, ho, rfl⟩ := Option.map_eq_some_iff.mp hs
    refine ⟨o.machine, ?_, rfl⟩
    rw [step, ← hm, ho]
    rfl
  obtain ⟨m', hm', hmachine⟩ := run_simulation hstep h rfl
  rw [hm', hmachine]

/-- The base shell of a live process is read from its record. -/
theorem exists_baseOf {procs : List Proc} {p : Nat} (h : Live procs p) :
    ∃ q ∈ procs, q.pid = p ∧ baseOf procs p = some q.base := by
  obtain ⟨r, hr, hpid⟩ := h
  have hfind : (procs.find? fun q => q.pid == p).isSome = true :=
    List.find?_isSome.mpr ⟨r, hr, by simp [hpid]⟩
  obtain ⟨q, hq⟩ := Option.isSome_iff_exists.mp hfind
  refine ⟨q, List.mem_of_find?_eq_some hq, by simpa using List.find?_some hq, ?_⟩
  rw [baseOf, hq]
  rfl

theorem live_cons {procs : List Proc} {q : Proc} {p : Nat} :
    Live (q :: procs) p ↔ q.pid = p ∨ Live procs p := by
  simp [Live]

theorem mem_afterHalt {procs : List Proc} {pid : Nat} {q : Proc} :
    q ∈ afterHalt procs (some pid) ↔ q ∈ procs ∧ q.pid ≠ pid := by
  simp only [afterHalt, List.mem_filter, bne_iff_ne]

theorem live_afterHalt {procs : List Proc} {pid p : Nat} :
    Live (afterHalt procs (some pid)) p ↔ p ≠ pid ∧ Live procs p := by
  simp only [Live, mem_afterHalt]
  refine ⟨fun ⟨q, ⟨hq, hne⟩, hp⟩ => ⟨hp ▸ hne, q, hq, hp⟩, fun ⟨hne, q, hq, hp⟩ => ⟨q, ⟨hq, ?_⟩, hp⟩⟩
  rw [hp]
  exact hne

/-- A process that is started again under its pid is as alive as before. -/
theorem live_restart {procs : List Proc} {q : Proc} {p : Nat} :
    Live (q :: afterHalt procs (some q.pid)) p ↔ p = q.pid ∨ Live procs p := by
  rw [live_cons, live_afterHalt]
  by_cases hp : p = q.pid
  · simp [hp]
  · simp [hp, Ne.symm hp]

end LinuxBasedOS.Process
