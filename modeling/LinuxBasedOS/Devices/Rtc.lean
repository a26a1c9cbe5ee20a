import LinuxBasedOS.Base.Transition
import Mathlib.Logic.Function.Basic

/-!
# rtc_read, for any number of waiting processes

`rtc_interrupt` sets `interrupt_occurred`. Each call of `rtc_read` clears it, waits with
interrupts enabled until it is set, clears it again and returns 0. Interrupts and the steps of
the other calls come between any two of these steps; the first clear stands between `cli` and
`sti`, so no interrupt is handled inside it.

The state also keeps the history that the results speak of: the number of interrupts handled so
far, and for each call how many there were when it cleared the flag on entry and when it last
looked at the flag.

* `rtcRead_waits`: a call that returns has seen an interrupt since it cleared the flag.
* `rtcRead_findsTick`: a call finds every interrupt of its wait, as long as no other call clears
  the flag while the interrupt is unseen. The clear on the way out does that to other waiters
  (`rtcRead_losesTick`).
-/

namespace LinuxBasedOS.Devices

open Transition

/-! ## The driver -/

inductive Pc where
  | idle
  /-- `interrupt_occurred = 0` on entry -/
  | clear
  /-- `interrupt_occurred == 0` -/
  | test
  /-- `interrupt_occurred = 0` on the way out, and the return -/
  | finish
  deriving DecidableEq, Repr

/-- One call of `rtc_read`. The two counts are the interrupts handled when the call cleared the
flag on entry, and when it last tested it (or cleared it on entry). -/
structure Reader where
  pc : Pc
  result : Option Int
  clearedAt : Nat
  testedAt : Nat

structure Rtc (n : Nat) where
  interruptOccurred : UInt8
  readers : Fin n → Reader
  interrupts : Nat

inductive Event (n : Nat) where
  | interrupt
  | call (p : Fin n)
  | advance (p : Fin n)

variable {n : Nat}

def rtcInterrupt (s : Rtc n) : Rtc n :=
  { s with interruptOccurred := 1, interrupts := s.interrupts + 1 }

/-- One step of a call of `rtc_read`: the flag and the call after it. -/
def readerStep (flag : UInt8) (interrupts : Nat) (r : Reader) : UInt8 × Reader :=
  match r.pc with
  | .idle => (flag, r)
  | .clear => (0, { r with pc := .test, clearedAt := interrupts, testedAt := interrupts })
  | .test =>
    if flag = 0 then (flag, { r with testedAt := interrupts })
    else (flag, { r with pc := .finish, testedAt := interrupts })
  | .finish => (0, { r with pc := .idle, result := some 0 })

def step (s : Rtc n) : Event n → Option (Rtc n)
  | .interrupt => some (rtcInterrupt s)
  | .call p =>
    if (s.readers p).pc = .idle then some
      { s with
        readers := Function.update s.readers p { s.readers p with pc := .clear, result := none } }
    else none
  | .advance p =>
    if (s.readers p).pc = .idle then none
    else some
      { s with
        interruptOccurred :=
          (readerStep s.interruptOccurred s.interrupts (s.readers p)).1
        readers := Function.update s.readers p
          (readerStep s.interruptOccurred s.interrupts (s.readers p)).2 }

/-- No call is open and no interrupt has come. -/
def start (n : Nat) : Rtc n where
  interruptOccurred := 0
  readers := fun _ => { pc := .idle, result := none, clearedAt := 0, testedAt := 0 }
  interrupts := 0

/-- Everything that one step can be. -/
inductive Happens (s : Rtc n) : Event n → Rtc n → Prop where
  | interrupted : Happens s .interrupt (rtcInterrupt s)
  | called (p : Fin n) :
      Happens s (.call p) { s with
        readers := Function.update s.readers p { s.readers p with pc := .clear, result := none } }
  | cleared (p : Fin n) (hpc : (s.readers p).pc = .clear) :
      Happens s (.advance p) { s with
        interruptOccurred := 0
        readers := Function.update s.readers p
          { s.readers p with pc := .test, clearedAt := s.interrupts, testedAt := s.interrupts } }
  | waited (p : Fin n) (hpc : (s.readers p).pc = .test) (hflag : s.interruptOccurred = 0) :
      Happens s (.advance p) { s with
        readers := Function.update s.readers p { s.readers p with testedAt := s.interrupts } }
  | found (p : Fin n) (hpc : (s.readers p).pc = .test) (hflag : s.interruptOccurred ≠ 0) :
      Happens s (.advance p) { s with
        readers := Function.update s.readers p
          { s.readers p with pc := .finish, testedAt := s.interrupts } }
  | returned (p : Fin n) (hpc : (s.readers p).pc = .finish) :
      Happens s (.advance p) { s with
        interruptOccurred := 0
        readers := Function.update s.readers p { s.readers p with pc := .idle, result := some 0 } }

theorem happens_of_step {s s' : Rtc n} {e : Event n} (h : step s e = some s') :
    Happens s e s' := by
  cases e with
  | interrupt =>
    cases h
    exact .interrupted
  | call p =>
    simp only [step] at h
    split at h
    · cases h
      exact .called p
    · cases h
  | advance p =>
    simp only [step] at h
    split at h
    · cases h
    · cases h
      rename_i hbusy
      unfold readerStep
      cases hpc : (s.readers p).pc with
      | idle => exact absurd hpc hbusy
      | clear => exact .cleared p hpc
      | test =>
        by_cases hflag : s.interruptOccurred = 0
        · simp only [if_pos hflag]
          exact hpc ▸ .waited p hpc hflag
        · simp only [if_neg hflag]
          exact .found p hpc hflag
      | finish => exact .returned p hpc

/-- A property of every call survives a change to one of them when the changed call has it and
the others keep it. -/
theorem forall_update {P : Reader → Prop} {readers : Fin n → Reader} {p : Fin n} {r : Reader}
    (hr : P r) (hothers : ∀ q, q ≠ p → P (readers q)) :
    ∀ q, P (Function.update readers p r q) := by
  intro q
  by_cases hq : q = p
  · rw [hq, Function.update_self]
    exact hr
  · rw [Function.update_of_ne hq]
    exact hothers q hq

/-! ## No call returns before an interrupt -/

/-- A call that is about to return has had an interrupt since it cleared the flag on entry. -/
def ReturnsAfterInterrupt (s : Rtc n) : Event n → Prop
  | .advance p =>
    (s.readers p).pc = .finish → (s.readers p).clearedAt < s.interrupts
  | .interrupt | .call _ => True

/-- What the flag tells about one call: no count is ahead of the clock, a call that has left its
loop has had an interrupt, and so has a waiting call for which the flag is set. -/
structure Waits (flag : UInt8) (interrupts : Nat) (r : Reader) : Prop where
  cleared_le : r.clearedAt ≤ interrupts
  test : r.pc = .test → flag ≠ 0 → r.clearedAt < interrupts
  finish : r.pc = .finish → r.clearedAt < interrupts

def WaitsAll (s : Rtc n) : Prop := ∀ p, Waits s.interruptOccurred s.interrupts (s.readers p)

/-- Clearing the flag takes nothing from the other calls: the flag only ever promises. -/
theorem Waits.cleared {flag : UInt8} {interrupts : Nat} {r : Reader} (h : Waits flag interrupts r) :
    Waits 0 interrupts r :=
  ⟨h.cleared_le, fun _ hflag => absurd rfl hflag, h.finish⟩

theorem Waits.interrupted {flag : UInt8} {interrupts : Nat} {r : Reader}
    (h : Waits flag interrupts r) : Waits 1 (interrupts + 1) r := by
  have hlt : r.clearedAt < interrupts + 1 := Nat.lt_succ_of_le h.cleared_le
  exact ⟨Nat.le_of_lt hlt, fun _ _ => hlt, fun _ => hlt⟩

theorem waitsAll_step {s s' : Rtc n} {e : Event n} (h : WaitsAll s) (hstep : step s e = some s') :
    WaitsAll s' := by
  unfold WaitsAll at *
  cases happens_of_step hstep with
  | interrupted =>
    intro p
    exact (h p).interrupted
  | called p =>
    exact forall_update ⟨(h p).cleared_le, nofun, nofun⟩ fun q _ => h q
  | cleared p hpc =>
    refine forall_update ⟨Nat.le_refl _, ?_, nofun⟩ fun q _ => (h q).cleared
    intro _ hflag
    exact absurd rfl hflag
  | waited p hpc hflag =>
    exact forall_update ⟨(h p).cleared_le, (h p).test, (h p).finish⟩ fun q _ => h q
  | found p hpc hflag =>
    have hlt : (s.readers p).clearedAt < s.interrupts := (h p).test hpc hflag
    exact forall_update ⟨(h p).cleared_le, nofun, fun _ => hlt⟩ fun q _ => h q
  | returned p hpc =>
    exact forall_update ⟨(h p).cleared_le, nofun, nofun⟩ fun q _ => (h q).cleared

theorem waitsAll_start : WaitsAll (start n) :=
  fun _ => ⟨Nat.le_refl _, nofun, nofun⟩

theorem WaitsAll.returnsAfterInterrupt {s : Rtc n} (h : WaitsAll s) (e : Event n) :
    ReturnsAfterInterrupt s e := by
  cases e with
  | interrupt => trivial
  | call p => trivial
  | advance p => exact (h p).finish

/-- In every interleaving, a call of `rtc_read` returns only after an interrupt that was handled
since the call cleared the flag on entry. -/
theorem rtcRead_waits (n : Nat) (events : List (Event n)) :
    Along step ReturnsAfterInterrupt (start n) events := by
  refine along_of_invariant (C := fun _ _ => True) (I := WaitsAll) ?_ ?_ ?_ waitsAll_start
  · intro s e s' h _ hstep
    exact waitsAll_step h hstep
  · intro s e h _
    exact h.returnsAfterInterrupt e
  · exact along_of_forall (fun _ _ => trivial) _ _

/-! ## Ticks that another call takes away -/

/-- The call waits, and an interrupt has been handled that it has not looked at the flag since. -/
def Unseen (s : Rtc n) (p : Fin n) : Prop :=
  (s.readers p).pc = .test ∧ (s.readers p).testedAt < s.interrupts

instance (s : Rtc n) (p : Fin n) : Decidable (Unseen s p) :=
  inferInstanceAs (Decidable (_ ∧ _))

/-- A test that comes after an interrupt of the call's own wait finds the flag set. -/
def FindsTick (s : Rtc n) : Event n → Prop
  | .advance p => Unseen s p → s.interruptOccurred ≠ 0
  | .interrupt | .call _ => True

instance (s : Rtc n) : (e : Event n) → Decidable (FindsTick s e)
  | .advance p => inferInstanceAs (Decidable (Unseen s p → s.interruptOccurred ≠ 0))
  | .interrupt | .call _ => .isTrue trivial

/-- The step clears the flag, on entry or on the way out. -/
def Clears (s : Rtc n) (p : Fin n) : Prop :=
  (s.readers p).pc = .clear ∨ (s.readers p).pc = .finish

instance (s : Rtc n) (p : Fin n) : Decidable (Clears s p) :=
  inferInstanceAs (Decidable (_ ∨ _))

/-- The flag is cleared only when no other waiting call has an interrupt it has not seen. -/
def ClearsSeen (s : Rtc n) : Event n → Prop
  | .advance p => Clears s p → ∀ q, q ≠ p → ¬ Unseen s q
  | .interrupt | .call _ => True

instance (s : Rtc n) : (e : Event n) → Decidable (ClearsSeen s e)
  | .advance p => inferInstanceAs (Decidable (Clears s p → ∀ q, q ≠ p → ¬ Unseen s q))
  | .interrupt | .call _ => .isTrue trivial

/-- An interrupt that a waiting call has not seen is still in the flag. -/
def Kept (flag : UInt8) (interrupts : Nat) (r : Reader) : Prop :=
  r.pc = .test → r.testedAt < interrupts → flag ≠ 0

def KeptAll (s : Rtc n) : Prop := ∀ p, Kept s.interruptOccurred s.interrupts (s.readers p)

theorem keptAll_step {s s' : Rtc n} {e : Event n} (h : KeptAll s) (hclears : ClearsSeen s e)
    (hstep : step s e = some s') : KeptAll s' := by
  unfold KeptAll at *
  -- a clear leaves nothing behind for the other calls, by the condition on the step
  have hcleared : ∀ p, e = .advance p → Clears s p → ∀ q, q ≠ p →
      Kept 0 s.interrupts (s.readers q) := by
    rintro p rfl hp q hq hpc hlt
    exact absurd ⟨hpc, hlt⟩ (hclears hp q hq)
  cases happens_of_step hstep with
  | interrupted =>
    intro p _ _
    exact show (1 : UInt8) ≠ 0 by decide
  | called p => exact forall_update nofun fun q _ => h q
  | cleared p hpc =>
    refine forall_update ?_ (hcleared p rfl (.inl hpc))
    intro _ hlt
    exact absurd hlt (Nat.lt_irrefl _)
  | waited p hpc hflag =>
    refine forall_update ?_ fun q _ => h q
    intro _ hlt
    exact absurd hlt (Nat.lt_irrefl _)
  | found p hpc hflag => exact forall_update nofun fun q _ => h q
  | returned p hpc => exact forall_update nofun (hcleared p rfl (.inr hpc))

theorem keptAll_start : KeptAll (start n) := fun _ => nofun

theorem KeptAll.findsTick {s : Rtc n} (h : KeptAll s) (e : Event n) : FindsTick s e := by
  cases e with
  | interrupt => trivial
  | call p => trivial
  | advance p =>
    rintro ⟨hpc, hlt⟩
    exact h p hpc hlt

/-- In a run that never clears the flag over another waiting call's unseen interrupt, every
waiting call finds its interrupts. -/
theorem rtcRead_findsTick {n : Nat} {events : List (Event n)}
    (hclears : Along step ClearsSeen (start n) events) :
    Along step FindsTick (start n) events :=
  along_of_invariant (fun _ _ _ h hc hstep => keptAll_step h hc hstep)
    (fun _ e h _ => h.findsTick e) hclears keptAll_start

/-- Two calls that wait one after the other each find their own interrupt. -/
theorem rtcRead_findsTick_inTurn :
    Along step FindsTick (start 2)
      [.call 0, .advance 0, .interrupt, .advance 0, .advance 0,
       .call 1, .advance 1, .interrupt, .advance 1, .advance 1] :=
  rtcRead_findsTick (by decide)

/-- Two calls wait; after one interrupt the first finds the flag set and clears it on its way
out, and the second finds it clear. -/
theorem rtcRead_losesTick :
    ¬ ∀ (n : Nat) (events : List (Event n)), Along step FindsTick (start n) events := by
  intro hall
  have hrun := hall 2
    [.call 0, .advance 0, .call 1, .advance 1, .interrupt, .advance 0, .advance 0, .advance 1]
  exact absurd hrun (by decide)

end LinuxBasedOS.Devices
