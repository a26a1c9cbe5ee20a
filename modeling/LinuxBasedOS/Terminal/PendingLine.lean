import LinuxBasedOS.Terminal.LineRead

/-!
# A finished line is not forgotten

One flag, `enterStatus`, stands for Enter on three terminals. `terminal_write` and
`keyboard_read` clear it whether or not a line is waiting, so a line that has been finished
can be left in its buffer with the flag clear. It is not, as long as nobody clears the flag
while the line of another terminal waits, and the terminal is not switched under a reader that
takes a line.
-/

namespace LinuxBasedOS.Terminal

open Lib Transition

variable {n : Nat}

/-! ## Lines that wait -/

/-- A read on the terminal has left its wait loop and has not returned. -/
def Reads (s : System n) (t : Nat) : Prop := ∃ r, (s.readers r).pc.Reading ∧ (s.readers r).terminal = t

/-- The line buffer holds a newline that no read has consumed. -/
def Unread (s : System n) (t : Nat) : Prop := newline ∈ bufferText s.terminals t ∧ ¬ Reads s t

instance (s : System n) (t : Nat) : Decidable (Reads s t) :=
  inferInstanceAs (Decidable (∃ _, _))

instance (s : System n) (t : Nat) : Decidable (Unread s t) :=
  inferInstanceAs (Decidable (_ ∧ _))

/-- An unread line has the flag set, so a reader of its terminal, while it is the active one,
leaves its wait loop without a further Enter. -/
structure NotForgotten (s : System n) : Prop where
  flag : ∀ t < 3, Unread s t → s.terminals.enterStatus ≠ 0
  reader : ∀ t < 3, Unread s t → s.terminals.activeTerminal = t → ∀ r,
    (s.readers r).pc = .testEnter → (s.readers r).terminal = t →
      ∃ s', run step s [.advance r, .advance r] = some s' ∧ (s'.readers r).pc = .leave

/-- The flag is cleared only when no line waits, apart from the one that is read, and the
terminal is not switched while a line is read. -/
def KeepsFlag (s : System n) : Event n → Prop
  | .key scancode =>
    (∃ r, (s.readers r).pc.Reading) →
      (chord (newFlags s.terminals.flags scancode)).getD s.terminals.activeTerminal =
        s.terminals.activeTerminal
  | .write _ buf nbytes => buf.isSome = true → 0 ≤ nbytes → ∀ t < 3, ¬ Unread s t
  | .advance r =>
    (s.readers r).pc = .leave → ∀ t < 3, t ≠ (s.readers r).terminal → ¬ Unread s t
  | .call _ _ _ _ => True

instance (s : System n) : (e : Event n) → Decidable (KeepsFlag s e)
  | .key _ => inferInstanceAs (Decidable (_ → _))
  | .write _ _ _ => inferInstanceAs (Decidable (_ → _ → _))
  | .advance _ => inferInstanceAs (Decidable (_ → _))
  | .call _ _ _ _ => .isTrue trivial

structure FlagInv (s : System n) : Prop where
  flag : ∀ t < 3, newline ∈ bufferText s.terminals t → s.terminals.enterStatus ≠ 0 ∨ Reads s t
  active : ∀ r, (s.readers r).pc.Reading → (s.readers r).terminal = s.terminals.activeTerminal

theorem flagInv_start (console : Console) (activeTerminal : Nat) :
    FlagInv (startSystem n console activeTerminal) := by
  refine ⟨fun t _ hmem => ?_, fun r hr => hr.elim⟩
  simp [startSystem, bufferText] at hmem

/-! ## Steps -/

theorem FlagInv.key {s : System n} {scancode : UInt8} (h : FlagInv s)
    (hkeeps : KeepsFlag s (.key scancode)) {entered : Nat → Bool} :
    FlagInv { s with terminals := keyboardHandler s.terminals scancode, entered := entered } := by
  have henter := keyboardHandler_enterStatus s.terminals scancode
  refine ⟨fun t ht hmem => ?_, fun r hr => ?_⟩
  · show (keyboardHandler s.terminals scancode).enterStatus ≠ 0 ∨ Reads s t
    rw [henter]
    rcases newline_of_keyboardHandler hmem with hold | hkey
    · rcases h.flag t ht hold with hflag | hreads
      · refine Or.inl ?_
        split
        · omega
        · exact hflag
      · exact Or.inr hreads
    · rw [if_pos hkey]
      exact Or.inl (by omega)
  · show (s.readers r).terminal = (keyboardHandler s.terminals scancode).activeTerminal
    rw [keyboardHandler_activeTerminal, hkeeps ⟨r, hr⟩]
    exact h.active r hr

theorem FlagInv.write {s : System n} {pcbTerminal : Nat} {buf : Option (Nat → UInt8)} {nbytes : Int}
    (h : FlagInv s) (hkeeps : KeepsFlag s (.write pcbTerminal buf nbytes)) :
    FlagInv { s with terminals := (terminalWrite s.terminals pcbTerminal buf nbytes).2 } := by
  cases buf with
  | none => exact ⟨h.flag, h.active⟩
  | some bytes =>
    by_cases hneg : nbytes < 0
    · rw [terminalWrite, if_pos hneg]
      exact ⟨h.flag, h.active⟩
    · rw [terminalWrite, if_neg hneg]
      refine ⟨fun t ht hmem => Or.inr ?_, h.active⟩
      by_contra hnone
      exact hkeeps rfl (by omega) t ht ⟨hmem, hnone⟩

/-- A reader that is replaced by one that reads whenever it does keeps the reads. -/
theorem Reads.update {s : System n} {t : Nat} {r : Fin n} {r' : Reader} {terminals : Terminals}
    {entered : Nat → Bool} (h : Reads s t)
    (hr : (s.readers r).pc.Reading → r'.pc.Reading ∧ r'.terminal = (s.readers r).terminal) :
    Reads { terminals := terminals, readers := Function.update s.readers r r', entered := entered } t := by
  obtain ⟨q, hq, hterminal⟩ := h
  refine ⟨q, ?_⟩
  show (Function.update s.readers r r' q).pc.Reading ∧ (Function.update s.readers r r' q).terminal = t
  by_cases hqr : q = r
  · rw [hqr] at hq hterminal ⊢
    rw [Function.update_self]
    exact ⟨(hr hq).1, (hr hq).2.trans hterminal⟩
  · rw [Function.update_of_ne hqr]
    exact ⟨hq, hterminal⟩

theorem bufferText_clear_active (s : Terminals) (t : Nat) :
    bufferText (clearKeyboardBuffer s t) t = [] := by
  simp [bufferText, clearKeyboardBuffer]

theorem newline_of_clear {s : Terminals} {t t' : Nat}
    (h : newline ∈ bufferText (clearKeyboardBuffer s t) t') : t' ≠ t ∧ newline ∈ bufferText s t' := by
  have hne : t' ≠ t := by
    intro heq
    rw [heq, bufferText_clear_active] at h
    cases h
  refine ⟨hne, ?_⟩
  obtain ⟨i, hi, hchar⟩ := List.mem_map.mp h
  have hi' := List.mem_range.mp hi
  simp only [clearKeyboardBuffer, Function.update_of_ne hne] at hi' hchar
  split at hchar
  · exact absurd hchar (by decide)
  · exact List.mem_map.mpr ⟨i, List.mem_range.mpr hi', hchar⟩

/-- Every reader that takes a line still does so on the active terminal after a step of `r`. -/
theorem FlagInv.active_update {s : System n} {r : Fin n} {r' : Reader} (h : FlagInv s)
    (hr' : r'.pc.Reading → r'.terminal = s.terminals.activeTerminal) (q : Fin n)
    (hq : (Function.update s.readers r r' q).pc.Reading) :
    (Function.update s.readers r r' q).terminal = s.terminals.activeTerminal := by
  by_cases hqr : q = r
  · rw [hqr, Function.update_self] at hq ⊢
    exact hr' hq
  · rw [Function.update_of_ne hqr] at hq ⊢
    exact h.active q hq

theorem FlagInv.advance {s : System n} {r : Fin n} {terminals : Terminals} {r' : Reader}
    {entered : Nat → Bool} (h : FlagInv s) (hkeeps : KeepsFlag s (.advance r))
    (hmove : ReaderMove s.terminals (s.readers r) terminals r') :
    FlagInv { terminals := terminals, readers := Function.update s.readers r r', entered := entered } := by
  cases hmove with
  | waits hpc hpc' htest hterminal hbytes hbuf =>
    refine ⟨fun t ht hmem => ?_, h.active_update fun hr' => absurd hr' hpc'⟩
    exact (h.flag t ht hmem).imp_right fun hreads => hreads.update fun hr => absurd hr hpc
  | enters hpc hterminal =>
    refine ⟨fun t ht hmem => ?_, h.active_update fun _ => hterminal⟩
    exact (h.flag t ht hmem).imp_right fun hreads => hreads.update fun _ => ⟨trivial, rfl⟩
  | leaves hpc =>
    have hreading : (s.readers r).pc.Reading := by rw [hpc]; trivial
    refine ⟨fun t ht hmem => Or.inr ?_, h.active_update fun _ => h.active r hreading⟩
    by_cases htr : t = (s.readers r).terminal
    · refine ⟨r, ?_⟩
      show (Function.update s.readers r _ r).pc.Reading ∧ (Function.update s.readers r _ r).terminal = t
      rw [Function.update_self]
      exact ⟨trivial, htr.symm⟩
    · have hreads : Reads s t := by
        by_contra hnone
        exact hkeeps hpc t ht htr ⟨hmem, hnone⟩
      exact hreads.update fun _ => ⟨trivial, rfl⟩
  | copies hpc hidx hbytes =>
    have hreading : (s.readers r).pc.Reading := by rw [hpc]; trivial
    refine ⟨fun t ht hmem => ?_, h.active_update fun _ => h.active r hreading⟩
    exact (h.flag t ht hmem).imp_right fun hreads => hreads.update fun _ => ⟨trivial, rfl⟩
  | stops hpc hend =>
    have hreading : (s.readers r).pc.Reading := by rw [hpc]; trivial
    refine ⟨fun t ht hmem => ?_, h.active_update fun _ => h.active r hreading⟩
    exact (h.flag t ht hmem).imp_right fun hreads => hreads.update fun _ => ⟨trivial, rfl⟩
  | returns hpc =>
    refine ⟨fun t ht hmem => ?_, h.active_update fun hr' => hr'.elim⟩
    -- a line of another terminal has the flag, since every reader reads the active one
    obtain ⟨hne, hold⟩ := newline_of_clear hmem
    rcases h.flag t ht hold with hflag | ⟨q, hq, hterminal⟩
    · exact Or.inl hflag
    · exact absurd (hterminal.symm.trans (h.active q hq)) hne

theorem FlagInv.call {s : System n} {r : Fin n} {r' : Reader} (h : FlagInv s)
    (hidle : (s.readers r).pc = .idle) (hr' : ¬ r'.pc.Reading) :
    FlagInv { s with readers := Function.update s.readers r r' } := by
  have hnot : ¬ (s.readers r).pc.Reading := by rw [hidle]; exact id
  refine ⟨fun t ht hmem => ?_, fun q hq => ?_⟩
  · exact (h.flag t ht hmem).imp_right fun hreads => hreads.update fun hr => absurd hr hnot
  · change (Function.update s.readers r r' q).pc.Reading at hq
    show (Function.update s.readers r r' q).terminal = _
    by_cases hqr : q = r
    · rw [hqr, Function.update_self] at hq
      exact absurd hq hr'
    · rw [Function.update_of_ne hqr] at hq ⊢
      exact h.active q hq

theorem FlagInv.step {s s' : System n} {e : Event n} (h : FlagInv s) (hkeeps : KeepsFlag s e)
    (hs : step s e = some s') : FlagInv s' := by
  cases e with
  | key scancode =>
    cases hs
    exact h.key hkeeps
  | write pcbTerminal buf nbytes =>
    cases hs
    exact h.write hkeeps
  | call r terminal nbytes null =>
    simp only [Terminal.step] at hs
    split at hs
    · rename_i hidle
      cases hs
      exact h.call hidle id
    · cases hs
  | advance r =>
    simp only [Terminal.step] at hs
    split at hs
    · cases hs
    · rename_i hpc
      cases hs
      exact h.advance hkeeps (readerStep_move hpc)

/-! ## The line is still there -/

/-- With the flag set and its terminal active, a reader leaves its wait loop. -/
theorem run_leaves {s : System n} {r : Fin n} (hflag : s.terminals.enterStatus ≠ 0)
    (hpc : (s.readers r).pc = .testEnter)
    (hactive : (s.readers r).terminal = s.terminals.activeTerminal) :
    ∃ s', run step s [.advance r, .advance r] = some s' ∧ (s'.readers r).pc = .leave := by
  let tested : Reader := { s.readers r with pc := .testTerminal }
  have hfirst : step s (.advance r) = some
      { s with readers := Function.update s.readers r tested } := by
    simp [step, readerStep, hpc, hflag, afterReturn, tested]
  have hsecond := step_advance (s := { s with readers := Function.update s.readers r tested }) (r := r)
    (by simp [tested])
  refine ⟨_, run_cons.mpr ⟨_, hfirst, run_cons.mpr ⟨_, hsecond, rfl⟩⟩, ?_⟩
  simp [readerStep, hactive, tested]

theorem FlagInv.notForgotten {s : System n} (h : FlagInv s) : NotForgotten s := by
  have hflag : ∀ t < 3, Unread s t → s.terminals.enterStatus ≠ 0 := by
    intro t ht ⟨hmem, hnone⟩
    exact (h.flag t ht hmem).resolve_right hnone
  refine ⟨hflag, fun t ht hunread hactive r hpc hterminal => ?_⟩
  exact run_leaves (hflag t ht hunread) hpc (hterminal.trans hactive.symm)

/-- A finished line is not forgotten in any state of a run that keeps the flag. -/
theorem finished_line_kept {console : Console} {activeTerminal : Nat} {es : List (Event n)}
    {s : System n} (hrun : run step (startSystem n console activeTerminal) es = some s)
    (hkeeps : Along step KeepsFlag (startSystem n console activeTerminal) es) : NotForgotten s := by
  have hstep : ∀ ⦃s : System n⦄ ⦃e : Event n⦄ ⦃s' : System n⦄, FlagInv s → KeepsFlag s e →
      step s e = some s' → FlagInv s' := by
    intro s e s' h hk hs
    exact h.step hk hs
  exact (run_invariant hstep hrun hkeeps (flagInv_start console activeTerminal)).notForgotten

theorem finished_line_kept_reading : ∃ s,
    run step (startSystem 1 blankConsole 0) readOneLine = some s ∧ NotForgotten s := by
  have hsome : (run step (startSystem 1 blankConsole 0) readOneLine).isSome = true := by
    decide +kernel
  obtain ⟨s, hs⟩ := Option.isSome_iff_exists.mp hsome
  exact ⟨s, hs, finished_line_kept hs (by decide +kernel)⟩

/-- Enter on terminal 0, then a write of one byte by a process of terminal 1. -/
def writeAfterEnter : List (Event 0) := [.key enterKey, .write 1 (some fun _ => 65) 1]

/-- The write clears the flag of the line that waits on terminal 0. -/
theorem write_forgets_line :
    ¬ ∀ (n : Nat) (console : Console) (activeTerminal : Nat) (es : List (Event n)) (s : System n),
      activeTerminal < 3 → run step (startSystem n console activeTerminal) es = some s →
        NotForgotten s := by
  intro hall
  have hsome : ((run step (startSystem 0 blankConsole 0) writeAfterEnter).map fun s =>
      (decide (Unread s 0), s.terminals.enterStatus)) = some (true, 0) := by
    decide +kernel
  obtain ⟨s, hs, hfacts⟩ := Option.map_eq_some_iff.mp hsome
  have hunread : Unread s 0 := of_decide_eq_true (congrArg Prod.fst hfacts)
  have hflag : s.terminals.enterStatus = 0 := congrArg Prod.snd hfacts
  exact (hall 0 blankConsole 0 _ s (by omega) hs).flag 0 (by omega) hunread hflag

end LinuxBasedOS.Terminal
