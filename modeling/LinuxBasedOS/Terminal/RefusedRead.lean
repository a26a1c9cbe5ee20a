import LinuxBasedOS.Terminal.Reader

/-!
# A read of no bytes

`keyboard_read` is to refuse a negative count with -1 and to answer a count of 0 with 0, and
neither is to consume anything. The checks of the arguments stand in the body of the wait loop.
A read that finds a finished line of its terminal does not come to them: it clears the flag and
the line buffer and returns 0, whatever the count.

`Returns` is a call that runs without a key or another reader between its steps.
-/

namespace LinuxBasedOS.Terminal

open Lib

/-! ## A call on its own -/

/-- The call after `n` steps. -/
def afterSteps (s : Terminals) (r : Reader) (n : Nat) : Terminals × Reader :=
  (fun p : Terminals × Reader => readerStep p.1 p.2)^[n] (s, r)

/-- The call returns the value and leaves the state. -/
def Returns (s : Terminals) (r : Reader) (value : Int) (s' : Terminals) : Prop :=
  ∃ n, (afterSteps s r n).1 = s' ∧ (afterSteps s r n).2.pc = .idle ∧
    (afterSteps s r n).2.result = some value

theorem afterSteps_add (s : Terminals) (r : Reader) (m n : Nat) :
    afterSteps s r (m + n) = afterSteps (afterSteps s r m).1 (afterSteps s r m).2 n := by
  unfold afterSteps
  rw [Nat.add_comm, Function.iterate_add_apply]

/-- A call that has returned takes no more steps. -/
theorem afterSteps_of_idle {s : Terminals} {r : Reader} (h : r.pc = .idle) (n : Nat) :
    afterSteps s r n = (s, r) := by
  refine Function.iterate_fixed ?_ n
  unfold readerStep
  rw [h]

theorem Returns.unique {s s' s'' : Terminals} {r : Reader} {value value' : Int}
    (h : Returns s r value s') (h' : Returns s r value' s'') : value = value' ∧ s' = s'' := by
  obtain ⟨n, hstate, hidle, hvalue⟩ := h
  obtain ⟨m, hstate', hidle', hvalue'⟩ := h'
  have hsame : afterSteps s r n = afterSteps s r m := by
    rcases Nat.le_total n m with hle | hle
    · obtain ⟨d, rfl⟩ := Nat.exists_eq_add_of_le hle
      rw [afterSteps_add, afterSteps_of_idle hidle]
    · obtain ⟨d, rfl⟩ := Nat.exists_eq_add_of_le hle
      rw [afterSteps_add, afterSteps_of_idle hidle']
  rw [hsame] at hvalue hstate
  rw [hvalue] at hvalue'
  exact ⟨Option.some.inj hvalue', hstate.symm.trans hstate'⟩

/-! ## The three ways of a read of no bytes -/

/-- A finished line of the terminal waits for the read. -/
def LineWaits (s : Terminals) (terminal : Nat) : Prop :=
  s.enterStatus ≠ 0 ∧ terminal = s.activeTerminal

/-- What the checks in the wait loop answer to a count that is not positive. -/
def refusal (nbytes : Int) (null : Bool) : Int := if nbytes < 0 ∨ null = true then -1 else 0

section Calls

variable {s : Terminals} {terminal : Nat} {nbytes : Int} {null : Bool}

theorem newReader_buf : (newReader terminal nbytes null).buf = none ↔ null = true := by
  cases null with
  | true => exact iff_of_true rfl rfl
  | false => exact iff_of_false (fun h => by cases h) Bool.false_ne_true

/-- The body of the wait loop ends the call. -/
theorem readerStep_wait (h : nbytes ≤ 0) {r : Reader} (hpc : r.pc = .wait) (hbytes : r.nbytes = nbytes)
    (hbuf : r.buf = none ↔ null = true) :
    readerStep s r = (s, { r with pc := .idle, result := some (refusal nbytes null) }) := by
  have hchecks : r.nbytes < 0 ∨ r.buf = none ↔ nbytes < 0 ∨ null = true := by
    rw [hbytes, hbuf]
  unfold readerStep refusal
  rw [hpc]
  dsimp only
  by_cases hrefused : nbytes < 0 ∨ null = true
  · rw [if_pos (hchecks.mpr hrefused), if_pos hrefused]
  · have hzero : r.nbytes = 0 := by
      rw [not_or] at hrefused
      omega
    rw [if_neg (mt hchecks.mp hrefused), if_pos hzero, if_neg hrefused]

/-- When no line waits the call is answered by the checks and changes nothing. -/
theorem returns_of_no_line (h : nbytes ≤ 0) (hline : ¬ LineWaits s terminal) :
    Returns s (newReader terminal nbytes null) (refusal nbytes null) s := by
  by_cases hflag : s.enterStatus = 0
  · have htest : readerStep s (newReader terminal nbytes null) =
        (s, { newReader terminal nbytes null with pc := .wait }) := by
      simp [readerStep, newReader, hflag]
    have htwo : afterSteps s (newReader terminal nbytes null) 2 = (s, { newReader terminal nbytes null with
        pc := .idle, result := some (refusal nbytes null) }) := by
      change readerStep (readerStep s _).1 (readerStep s _).2 = _
      rw [htest]
      exact readerStep_wait h rfl rfl (@newReader_buf terminal nbytes null)
    exact ⟨2, by rw [htwo], by rw [htwo], by rw [htwo]⟩
  · have hterminal : terminal ≠ s.activeTerminal := fun heq => hline ⟨hflag, heq⟩
    have htest : readerStep s (newReader terminal nbytes null) =
        (s, { newReader terminal nbytes null with pc := .testTerminal }) := by
      simp [readerStep, newReader, hflag]
    have hwait : readerStep s { newReader terminal nbytes null with pc := .testTerminal } =
        (s, { newReader terminal nbytes null with pc := .wait }) := by
      simp [readerStep, newReader, hterminal]
    have hthree : afterSteps s (newReader terminal nbytes null) 3 = (s, { newReader terminal nbytes null with
        pc := .idle, result := some (refusal nbytes null) }) := by
      change readerStep (readerStep (readerStep s _).1 (readerStep s _).2).1
        (readerStep (readerStep s _).1 (readerStep s _).2).2 = _
      rw [htest]
      dsimp only
      rw [hwait]
      exact readerStep_wait h rfl rfl (@newReader_buf terminal nbytes null)
    exact ⟨3, by rw [hthree], by rw [hthree], by rw [hthree]⟩

/-- When a line waits the call takes it, without a byte of it. -/
theorem returns_of_line (h : nbytes ≤ 0) (hline : LineWaits s terminal) :
    Returns s (newReader terminal nbytes null) 0
      (clearKeyboardBuffer { s with enterStatus := 0 } s.activeTerminal) := by
  obtain ⟨hflag, hterminal⟩ := hline
  refine ⟨5, ?_⟩
  have hcopy : ¬ 0 < nbytes := by omega
  have hfive : afterSteps s (newReader terminal nbytes null) 5 =
      (clearKeyboardBuffer { s with enterStatus := 0 } s.activeTerminal,
        { newReader terminal nbytes null with
          pc := .idle, text := bufferText s s.activeTerminal, result := some 0 }) := by
    simp [afterSteps, Function.iterate_succ_apply, readerStep, newReader, hflag, hterminal, hcopy]
  exact ⟨by rw [hfive], by rw [hfive], by rw [hfive]⟩

end Calls

/-- A read of no bytes returns -1 or 0 by its count, and leaves the flag, the line buffers and
their indices. -/
def RefusedCleanly (s : Terminals) (terminal : Nat) (nbytes : Int) (null : Bool) : Prop :=
  ∃ s', Returns s (newReader terminal nbytes null) (if nbytes < 0 then -1 else 0) s' ∧
    s'.enterStatus = s.enterStatus ∧ s'.keyboardBuffer = s.keyboardBuffer ∧
    s'.keyboardBufferIdx = s.keyboardBufferIdx

/-- **Reads of no bytes.** In every state of the keyboard a read with a count that is not positive
is refused cleanly exactly when no finished line of its terminal waits, and, for a count of 0, its
buffer is not the null pointer. -/
theorem refused_cleanly_iff (s : Terminals) (terminal : Nat) {nbytes : Int} (h : nbytes ≤ 0)
    (null : Bool) :
    RefusedCleanly s terminal nbytes null ↔
      ¬ LineWaits s terminal ∧ (nbytes = 0 → null = false) := by
  constructor
  · rintro ⟨s', hreturns, hflag, -, -⟩
    have hline : ¬ LineWaits s terminal := by
      intro hline
      obtain ⟨-, rfl⟩ := hreturns.unique (returns_of_line h hline)
      exact hline.1 hflag.symm
    refine ⟨hline, ?_⟩
    rintro rfl
    have hvalue := (hreturns.unique (returns_of_no_line (Int.le_refl 0) hline)).1
    cases null with
    | true => exact absurd hvalue (by decide)
    | false => rfl
  · rintro ⟨hline, hnull⟩
    have hvalue : refusal nbytes null = if nbytes < 0 then -1 else 0 := by
      by_cases hneg : nbytes < 0
      · rw [refusal, if_pos (Or.inl hneg), if_pos hneg]
      · rw [refusal, hnull (by omega), if_neg hneg, if_neg (by simp [hneg])]
    have hreturns := @returns_of_no_line s terminal nbytes null h hline
    rw [hvalue] at hreturns
    exact ⟨s, hreturns, rfl, rfl, rfl⟩

/-- With no line waiting a count of -1 is refused. -/
theorem refused_cleanly_idle :
    RefusedCleanly (startSystem 0 blankConsole 0).terminals 0 (-1) false :=
  (refused_cleanly_iff _ 0 (by decide) false).mpr ⟨fun h => h.1 rfl, fun _ => rfl⟩

/-- The state after Enter: the line `"\n"` waits. -/
def enteredLine : Terminals := keyboardHandler (startSystem 0 blankConsole 0).terminals enterKey

/-- With a line waiting a count of -1 returns 0 and takes the line. -/
theorem refused_read_takes_line :
    LineWaits enteredLine 0 ∧ enteredLine.keyboardBufferIdx 0 = 1 ∧
      Returns enteredLine (newReader 0 (-1) false) 0
        (clearKeyboardBuffer { enteredLine with enterStatus := 0 } 0) ∧
      ¬ RefusedCleanly enteredLine 0 (-1) false := by
  have hline : LineWaits enteredLine 0 := ⟨by decide, rfl⟩
  have hreturns : Returns enteredLine (newReader 0 (-1) false) 0
      (clearKeyboardBuffer { enteredLine with enterStatus := 0 } 0) :=
    returns_of_line (by decide) hline
  refine ⟨hline, rfl, hreturns, ?_⟩
  rintro ⟨s', hreturns', -⟩
  exact absurd (hreturns'.unique hreturns).1 (by decide)

end LinuxBasedOS.Terminal
