import LinuxBasedOS.Base.Cyclic
import LinuxBasedOS.Process.Steps

/-!
# The scheduler as a round robin

The search of `switch_tasks` begins at the slot after `current_schedule`, goes on in cyclic order
and has no bound of its own. `slotSearch_of_firstFrom` says that it ends, within seven turns, at
the first slot with a process. `switches_roundRobin` is about any number of switches one after the
other, from every state in which the queue has a process.
-/

namespace LinuxBasedOS.Process

open Cyclic

/-! ## The search -/

/-- The slot has a process. -/
def Occupied (list : Nat → Int) (i : Nat) : Prop := 0 ≤ list i

instance (list : Nat → Int) : DecidablePred (Occupied list) := fun i =>
  inferInstanceAs (Decidable (0 ≤ list i))

theorem slotSearch_eq {list : Nat → Int} {n p d : Nat} (hp : p < 7) (hd : d < n)
    (hocc : Occupied list ((p + d) % 7)) (hmin : ∀ e < d, ¬ Occupied list ((p + e) % 7)) :
    slotSearch list n p = some ((p + d) % 7) := by
  induction n generalizing p d with
  | zero => omega
  | succ n ih =>
    have hnext : (if 6 < p + 1 then 0 else p + 1) = (p + 1) % 7 := by
      split <;> omega
    have hhere : (p + 0) % 7 = p := Nat.mod_eq_of_lt hp
    rw [slotSearch, hnext]
    cases d with
    | zero =>
      rw [hhere] at hocc ⊢
      rw [if_neg (Int.not_lt.mpr hocc)]
    | succ d =>
      have hfree := hmin 0 (Nat.succ_pos d)
      rw [hhere] at hfree
      have hplace : ∀ e, ((p + 1) % 7 + e) % 7 = (p + (e + 1)) % 7 := by
        intro e
        omega
      rw [if_pos (Int.not_le.mp hfree), ih (Nat.mod_lt _ (by decide)) (Nat.lt_of_succ_lt_succ hd),
        hplace]
      · rw [hplace]
        exact hocc
      · intro e he
        rw [hplace]
        exact hmin (e + 1) (Nat.succ_lt_succ he)

/-- The search ends at the first slot with a process, in cyclic order from where it begins. -/
theorem slotSearch_of_firstFrom {list : Nat → Int} {p slot : Nat}
    (h : FirstFrom 7 (Occupied list) p slot) : slotSearch list 7 (p % 7) = some slot := by
  obtain ⟨d, hd, rfl, hocc, hmin⟩ := h
  have hplace : ∀ e, (p % 7 + e) % 7 = (p + e) % 7 := Nat.mod_add_mod p 7
  rw [← hplace]
  refine slotSearch_eq (Nat.mod_lt _ (by decide)) hd ?_ ?_
  · rw [hplace]
    exact hocc
  · intro e he
    rw [hplace]
    exact hmin e he

/-! ## One switch -/

/-- The base shells have been started, `current_schedule` is -1 or a slot, and the queue is
`list`. -/
structure Schedules (list : Nat → Int) (k : Kernel) : Prop where
  started : k.scheduleStarted = 1
  lower : -1 ≤ k.currentSchedule
  upper : k.currentSchedule ≤ 6
  queue : k.priorityListPid = list

theorem Schedules.planned {list : Nat → Int} {k : Kernel} (h : Schedules list k) :
    plannedSchedule k = (k.currentSchedule + 1).toNat % 7 := by
  have hlower := h.lower
  unfold plannedSchedule
  rw [Int.tmod_eq_emod_of_nonneg (by omega)]
  omega

/-- A switch comes to an end, takes the first slot after `current_schedule` and leaves the
queue. -/
theorem Schedules.switch {list : Nat → Int} {k : Kernel} (h : Schedules list k)
    (isExecutable : List UInt8 → Bool) (f : Frame) {slot : Nat}
    (hslot : FirstFrom 7 (Occupied list) (k.currentSchedule + 1).toNat slot) :
    ∃ r, switchTasks isExecutable k f = some r ∧ r.kernel.currentSchedule = slot ∧
      Schedules list r.kernel := by
  have hsearch : slotSearch k.priorityListPid 7 (plannedSchedule k) = some slot := by
    rw [h.planned, h.queue]
    exact slotSearch_of_firstFrom hslot
  have hlt := hslot.lt
  refine ⟨switchTo (saveStack k f) (currentPCB f.esp) slot, ?_, rfl, ?_⟩
  · unfold switchTasks
    dsimp only
    rw [if_pos h.started, hsearch]
    rfl
  · refine ⟨?_, ?_, ?_, ?_⟩
    · exact h.started
    · exact (by omega : (-1 : Int) ≤ (slot : Int))
    · exact (by omega : (slot : Int) ≤ 6)
    · exact h.queue

/-! ## Any number of switches -/

/-- The kernel after the first `n` of the switches; there is none when a search does not end. -/
def afterSwitches (isExecutable : List UInt8 → Bool) (k : Kernel) (frames : Nat → Frame) :
    Nat → Option Kernel
  | 0 => some k
  | n + 1 => (afterSwitches isExecutable k frames n).bind fun k =>
      (switchTasks isExecutable k (frames n)).map SwitchResult.kernel

section Switches

variable {list : Nat → Int} {k : Kernel}

theorem Schedules.next (h : Schedules list k) (hqueue : ∃ i < 7, Occupied list i)
    (isExecutable : List UInt8 → Bool) (f : Frame) :
    ∃ slot k', (switchTasks isExecutable k f).map SwitchResult.kernel = some k' ∧
      k'.currentSchedule = (slot : Nat) ∧ Schedules list k' ∧
      FirstFrom 7 (Occupied list) (k.currentSchedule + 1).toNat slot := by
  obtain ⟨i, hi, hocc⟩ := hqueue
  obtain ⟨slot, hslot⟩ := exists_firstFrom hi hocc (k.currentSchedule + 1).toNat
  obtain ⟨r, hr, hcurrent, hkeeps⟩ := h.switch isExecutable f hslot
  refine ⟨slot, r.kernel, ?_, hcurrent, hkeeps, hslot⟩
  rw [hr]
  rfl

theorem Schedules.after (h : Schedules list k) (hqueue : ∃ i < 7, Occupied list i)
    (isExecutable : List UInt8 → Bool) (frames : Nat → Frame) (n : Nat) :
    ∃ k', afterSwitches isExecutable k frames n = some k' ∧ Schedules list k' := by
  induction n with
  | zero => exact ⟨k, rfl, h⟩
  | succ n ih =>
    obtain ⟨k', hk', hschedules⟩ := ih
    obtain ⟨slot, k'', hk'', -, hschedules', -⟩ :=
      hschedules.next hqueue isExecutable (frames n)
    refine ⟨k'', ?_, hschedules'⟩
    rw [afterSwitches, hk']
    exact hk''

end Switches

/-- **Round robin.** For all contents of the queue with a process and every `current_schedule` from
-1 to 6, each of any number of switches comes to an end; the first takes the first slot with a
process after `current_schedule`, each other the first after the slot before it, and between two
turns of a slot every other slot with a process has one turn, in the same order each time. -/
theorem switches_roundRobin (isExecutable : List UInt8 → Bool) (k : Kernel) (frames : Nat → Frame)
    (hstarted : k.scheduleStarted = 1)
    (hcurrent : -1 ≤ k.currentSchedule ∧ k.currentSchedule ≤ 6)
    (hqueue : ∃ i < 7, 0 ≤ k.priorityListPid i) :
    ∃ turn : Nat → Nat,
      (∀ n, ∃ k', afterSwitches isExecutable k frames (n + 1) = some k' ∧
        k'.currentSchedule = turn n ∧ k'.priorityListPid = k.priorityListPid) ∧
      FirstFrom 7 (Occupied k.priorityListPid) (k.currentSchedule + 1).toNat (turn 0) ∧
      TakesNext 7 (Occupied k.priorityListPid) turn ∧
      RoundRobin 7 (Occupied k.priorityListPid) turn := by
  have hschedules : Schedules k.priorityListPid k := ⟨hstarted, hcurrent.1, hcurrent.2, rfl⟩
  choose kernelAt hkernelAt hkeeps using hschedules.after hqueue isExecutable frames
  -- the slot of each switch, and that it is the first after `current_schedule` before the switch
  have hturn : ∀ n, ∃ slot : Nat, (kernelAt (n + 1)).currentSchedule = slot ∧
      FirstFrom 7 (Occupied k.priorityListPid) ((kernelAt n).currentSchedule + 1).toNat slot := by
    intro n
    obtain ⟨slot, k', hk', hslot, -, hfirst⟩ := (hkeeps n).next hqueue isExecutable (frames n)
    have hsame : kernelAt (n + 1) = k' := by
      have hnext := hkernelAt (n + 1)
      rw [afterSwitches, hkernelAt n] at hnext
      exact Option.some.inj (hnext.symm.trans hk')
    exact ⟨slot, hsame ▸ hslot, hfirst⟩
  choose turn hslot hfirst using hturn
  have hstart : kernelAt 0 = k := Option.some.inj (hkernelAt 0).symm
  have hnext : TakesNext 7 (Occupied k.priorityListPid) turn := by
    intro n
    have hafter := hfirst (n + 1)
    rw [hslot n] at hafter
    exact hafter
  refine ⟨turn, ?_, hstart ▸ hfirst 0, hnext, ?_⟩
  · intro n
    exact ⟨kernelAt (n + 1), hkernelAt (n + 1), hslot n, (hkeeps (n + 1)).queue⟩
  · exact roundRobin_of_next hnext (fun n => (hfirst n).lt) fun n => (hfirst n).taken

/-- A kernel in which slots 1 and 4 have processes and the last switch took slot 4. -/
def twoProcesses : Kernel :=
  { (boot fun _ => zeroPCB).kernel with
    scheduleStarted := 1
    currentSchedule := 4
    priorityListPid := fun i => if i = 1 then 1 else if i = 4 then 2 else -1 }

/-- The search from slot 4 goes round to slot 1. -/
theorem switches_roundRobin_two :
    slotSearch twoProcesses.priorityListPid 7 (plannedSchedule twoProcesses) = some 1 ∧
      ∃ turn : Nat → Nat, RoundRobin 7 (Occupied twoProcesses.priorityListPid) turn := by
  obtain ⟨turn, -, -, -, hturn⟩ := switches_roundRobin programs twoProcesses (fun _ => frameOf 1)
    rfl (by decide) ⟨1, by decide, by decide⟩
  exact ⟨by decide, turn, hturn⟩

end LinuxBasedOS.Process
