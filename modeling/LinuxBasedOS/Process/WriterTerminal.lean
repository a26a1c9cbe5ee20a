import LinuxBasedOS.Process.Steps
import LinuxBasedOS.Terminal.Keyboard

/-!
# The terminal of the writer

`terminal_write` prints to `pcb_terminal`, which `switch_tasks` sets at every switch. It is to
be the terminal of the process that is switched to; `switch_tasks` reads it from the PCB of the
process that is switched from.
-/

namespace LinuxBasedOS.Process

open Transition Terminal

variable {isExecutable : List UInt8 → Bool}

/-- After a task switch `pcb_terminal` is the terminal of the process that runs, and so is the
terminal of every `putc` that a `terminal_write` of the process makes. -/
def WritesOwnTerminal (isExecutable : List UInt8 → Bool) (m : Machine) : Event → Prop
  | .tick f => ∀ o, outcome isExecutable m (.tick f) = some o → m.kernel.scheduleStarted = 1 →
    let k := o.machine.kernel
    k.pcbTerminal = (k.pcbs (entryBlock k)).terminalId ∧
      ∀ buf nbytes, ∀ call ∈ putcCalls k.pcbTerminal buf nbytes,
        call.2 = (k.pcbs (entryBlock k)).terminalId
  | _ => True

/-- A task switch leads to a process of the same terminal. -/
def SwitchesWithinTerminal (m : Machine) : Event → Prop
  | .tick f => OnTick m f → m.kernel.scheduleStarted = 1 →
    ∀ i, slotSearch m.kernel.priorityListPid 7 (plannedSchedule m.kernel) = some i →
      (m.kernel.pcbs (currentPCB f.esp)).terminalId =
        (m.kernel.pcbs (pcbAddr (m.kernel.priorityListPid i))).terminalId
  | _ => True

theorem putcCalls_terminal {pcbTerminal : Nat} {buf : Nat → UInt8} {nbytes : Int}
    {call : UInt8 × Nat} (h : call ∈ putcCalls pcbTerminal buf nbytes) : call.2 = pcbTerminal := by
  obtain ⟨c, _, rfl⟩ := List.mem_map.mp h
  rfl

section Switch

variable {m : Machine} {f : Frame} {i : Nat}

theorem outcome_switch (hf : OnTick m f) (hstarted : m.kernel.scheduleStarted = 1)
    (hslot : slotSearch m.kernel.priorityListPid 7 (plannedSchedule m.kernel) = some i) :
    ∃ o, outcome isExecutable m (.tick f) = some o ∧
      o.machine.kernel = (switchTo (saveStack m.kernel f) (currentPCB f.esp) i).kernel := by
  have htasks : switchTasks isExecutable m.kernel f =
      some (switchTo (saveStack m.kernel f) (currentPCB f.esp) i) := by
    rw [switchTasks, if_pos hstarted, hslot]
    rfl
  refine ⟨_, (if_pos hf).trans (by rw [htasks]; rfl), rfl⟩

/-- The terminal that `switch_tasks` writes to, and that of the process it starts. -/
theorem switchTo_terminals (k : Kernel) :
    let k' := (switchTo (saveStack k f) (currentPCB f.esp) i).kernel
    k'.pcbTerminal = (k.pcbs (currentPCB f.esp)).terminalId ∧
      (k'.pcbs (entryBlock k')).terminalId =
        (k.pcbs (pcbAddr (k.priorityListPid i))).terminalId := by
  refine ⟨(saveStack_sameProcess k f _).terminalId, ?_⟩
  have hsame := (switchTo_sameProcess (saveStack k f) (currentPCB f.esp) i
    (pcbAddr (k.priorityListPid i))).trans (saveStack_sameProcess k f _)
  exact hsame.terminalId

end Switch

theorem writesOwnTerminal_iff {m : Machine} {e : Event} :
    WritesOwnTerminal isExecutable m e ↔ SwitchesWithinTerminal m e := by
  cases e with
  | tick f =>
    constructor
    · intro hown hf hstarted i hslot
      obtain ⟨o, ho, hkernel⟩ := outcome_switch hf hstarted hslot
      obtain ⟨hpcb, hnext⟩ := switchTo_terminals (f := f) (i := i) m.kernel
      have hterminal := (hown o ho hstarted).1
      rw [hkernel] at hterminal
      exact hpcb.symm.trans (hterminal.trans hnext)
    · intro hsame o ho hstarted
      cases happens_of_outcome ho with
      | @switch f i hf _ hslot =>
        obtain ⟨hpcb, hnext⟩ := switchTo_terminals (f := f) (i := i) m.kernel
        have hterminal := (hpcb.trans (hsame hf hstarted i hslot)).trans hnext.symm
        refine ⟨hterminal, fun buf nbytes call hcall => ?_⟩
        exact (putcCalls_terminal hcall).trans hterminal
      | startup hf hne hl => exact absurd hstarted hne
      | startupRefused hf hne hl => exact absurd hstarted hne
  | execute f command => exact Iff.rfl
  | halt f status => exact Iff.rfl
  | pageFault => exact Iff.rfl
  | key terminal => exact Iff.rfl

/-- Along a run, from any state, output goes to the writer's own terminal after every task switch
if and only if every task switch stays within one terminal. -/
theorem writes_own_terminal_iff (isExecutable : List UInt8 → Bool) (m : Machine)
    (es : List Event) :
    Along (step isExecutable) (WritesOwnTerminal isExecutable) m es ↔
      Along (step isExecutable) SwitchesWithinTerminal m es :=
  along_iff_of_invariant (I := fun _ => True) (fun _ _ _ _ _ => trivial)
    (fun _ _ _ => writesOwnTerminal_iff) trivial

/-- The first switch after startup goes from the shell of terminal 0 to that of terminal 2, and
leaves `pcb_terminal` at 0. -/
theorem switch_keeps_old_terminal :
    ¬ ∀ (isExecutable : List UInt8 → Bool) (memory : Nat → PCB) (es : List Event),
      Along (step isExecutable) (WritesOwnTerminal isExecutable) (boot memory) es := by
  intro hall
  have hsome : ((run (step programs) (boot fun _ => zeroPCB) startupTicks).bind fun m =>
      (outcome programs m (.tick (frameOf 3))).map fun o =>
        (m.kernel.scheduleStarted, o.machine.kernel.pcbTerminal,
          (o.machine.kernel.pcbs (entryBlock o.machine.kernel)).terminalId)) = some (1, 0, 2) := by
    decide +kernel
  obtain ⟨m, hm, hrest⟩ := Option.bind_eq_some_iff.mp hsome
  obtain ⟨o, ho, hfacts⟩ := Option.map_eq_some_iff.mp hrest
  obtain ⟨hstarted, hfacts'⟩ := Prod.mk.inj hfacts
  obtain ⟨hpcb, hown⟩ := Prod.mk.inj hfacts'
  have hterminal := (along_at
    (hall programs (fun _ => zeroPCB) (startupTicks ++ [.tick (frameOf 3)])) hm o ho hstarted).1
  rw [hpcb, hown] at hterminal
  omega

end LinuxBasedOS.Process
