import LinuxBasedOS.Terminal.LineEditor

/-!
# From the keys to the reader

A line is typed on the active terminal and finished with Enter, and a process of that terminal calls
`keyboard_read`, before, while or after it is typed. `typed_line_read` says what the process gets,
in whatever order the keys, the steps of the read, those of the readers of other terminals and the
output of other processes come: the line of the editor with its newline. `Before` is the invariant
up to Enter; behind it `Fetching` counts the steps that the read still has to make.
-/

namespace LinuxBasedOS.Terminal

open Lib Transition

variable {n : Nat}

/-! ## Runs in which a line is typed -/

/-- How many steps of its call a reader makes in a run. -/
def advancesOf (r : Fin n) (es : List (Event n)) : Nat :=
  es.countP fun e =>
    match e with
    | .advance q => q = r
    | _ => false

/-- The call of a process that waits for the line: it has not been made before. -/
def CallsOnce (s : System n) (r : Fin n) (t : Nat) (nbytes : Int) (q : Fin n) (terminal : Nat)
    (wanted : Int) (null : Bool) : Prop :=
  if q = r then (s.readers r).result = none ∧ terminal = t ∧ wanted = nbytes ∧ null = false
  else terminal ≠ t

/-- Up to Enter: any keys but Enter and the chords, any output, and reads on the other terminals. -/
def Types (r : Fin n) (t : Nat) (nbytes : Int) (s : System n) : Event n → Prop
  | .key scancode => scancode ≠ enterKey ∧ chord (newFlags s.terminals.flags scancode) = none
  | .write _ _ _ => True
  | .call q terminal wanted null => CallsOnce s r t nbytes q terminal wanted null
  | .advance _ => True

/-- Behind Enter: keys that leave the line, and no output before the read has taken it. -/
def Fetches (r : Fin n) (t : Nat) (nbytes : Int) (s : System n) : Event n → Prop
  | .key scancode => Quiet s.terminals scancode ∧ scancode ≠ enterKey ∧
      chord (newFlags s.terminals.flags scancode) = none
  | .write _ _ _ => (s.readers r).pc.Reading ∨ (s.readers r).result ≠ none
  | .call q terminal wanted null => CallsOnce s r t nbytes q terminal wanted null
  | .advance _ => True

instance (s : System n) (r : Fin n) (t : Nat) (nbytes : Int) (q : Fin n) (terminal : Nat)
    (wanted : Int) (null : Bool) : Decidable (CallsOnce s r t nbytes q terminal wanted null) :=
  inferInstanceAs (Decidable (if q = r then _ ∧ _ ∧ _ ∧ _ else _ ≠ _))

instance (r : Fin n) (t : Nat) (nbytes : Int) (s : System n) :
    (e : Event n) → Decidable (Types r t nbytes s e)
  | .key _ => inferInstanceAs (Decidable (_ ∧ _))
  | .call q terminal wanted null => inferInstanceAs (Decidable (CallsOnce s r t nbytes q terminal wanted null))
  | .write _ _ _ | .advance _ => .isTrue trivial

instance (r : Fin n) (t : Nat) (nbytes : Int) (s : System n) :
    (e : Event n) → Decidable (Fetches r t nbytes s e)
  | .key _ => inferInstanceAs (Decidable (_ ∧ _ ∧ _))
  | .write _ _ _ => inferInstanceAs (Decidable (_ ∨ _))
  | .call q terminal wanted null => inferInstanceAs (Decidable (CallsOnce s r t nbytes q terminal wanted null))
  | .advance _ => .isTrue trivial

/-- The other readers are not in a call on the terminal, and have not left their loops. -/
def OthersWait (s : System n) (r : Fin n) (t : Nat) : Prop :=
  ∀ q, q ≠ r → ¬ (s.readers q).pc.Reading ∧ ((s.readers q).pc = .idle ∨ (s.readers q).terminal ≠ t)

/-- The line of the active terminal is empty, and the reader has not called. -/
structure Listening (s : System n) (r : Fin n) (t : Nat) : Prop where
  active : s.terminals.activeTerminal = t
  empty : s.terminals.keyboardBufferIdx t = 0
  flag : s.terminals.enterStatus = 0
  idle : (s.readers r).pc = .idle
  fresh : (s.readers r).result = none
  others : OthersWait s r t

/-! ## Up to Enter -/

/-- The call is the one that is waited for, and has copied nothing. -/
structure Asks (r : Reader) (t : Nat) (nbytes : Int) : Prop where
  terminal : r.terminal = t
  nbytes : r.nbytes = nbytes
  buf : r.buf = some []
  result : r.result = none

structure Before (e : Editor) (nbytes : Int) (t : Nat) (r : Fin n) (s : System n) : Prop where
  active : s.terminals.activeTerminal = t
  flags : s.terminals.flags = e.flags
  text : bufferText s.terminals t = e.line
  length : e.line.length ≤ 128
  flag : s.terminals.enterStatus = 0
  reader : ((s.readers r).pc = .idle ∧ (s.readers r).result = none) ∨
    (((s.readers r).pc = .testEnter ∨ (s.readers r).pc = .wait) ∧ Asks (s.readers r) t nbytes)
  others : OthersWait s r t

section Steps

variable {s s' : System n} {r q : Fin n} {t : Nat} {nbytes : Int}

theorem Listening.before (h : Listening s r t) :
    Before { flags := s.terminals.flags, line := [] } nbytes t r s := by
  refine ⟨h.active, rfl, ?_, Nat.zero_le _, h.flag, Or.inl ⟨h.idle, h.fresh⟩, h.others⟩
  rw [← List.length_eq_zero_iff, length_bufferText]
  exact h.empty

theorem asks_newReader : Asks (newReader t nbytes false) t nbytes := ⟨rfl, rfl, rfl, rfl⟩

/-- A reader of another terminal goes on waiting, and changes nothing. -/
theorem waits_on {terminals : Terminals} {reader : Reader} (hpc : reader.pc ≠ .idle)
    (hreading : ¬ reader.pc.Reading) (hterminal : reader.terminal ≠ terminals.activeTerminal) :
    (readerStep terminals reader).1 = terminals ∧ ¬ (readerStep terminals reader).2.pc.Reading ∧
      (readerStep terminals reader).2.terminal = reader.terminal := by
  have hmove := readerStep_move (s := terminals) hpc
  generalize (readerStep terminals reader).1 = terminals', (readerStep terminals reader).2 = reader'
    at hmove ⊢
  cases hmove with
  | waits _ hpc' _ hterminal' => exact ⟨rfl, hpc', hterminal'⟩
  | enters _ hactive => exact absurd hactive hterminal
  | leaves hleave => exact absurd (by rw [hleave]; trivial) hreading
  | copies hcopy => exact absurd (by rw [hcopy]; trivial) hreading
  | stops hcopy => exact absurd (by rw [hcopy]; trivial) hreading
  | returns hfinish => exact absurd (by rw [hfinish]; trivial) hreading

theorem OthersWait.update (h : OthersWait s r t) {reader : Reader}
    (hreaders : s'.readers = Function.update s.readers q reader)
    (hreader : q ≠ r → ¬ reader.pc.Reading ∧ (reader.pc = .idle ∨ reader.terminal ≠ t)) :
    OthersWait s' r t := by
  intro p hp
  rw [hreaders]
  by_cases hpq : p = q
  · subst hpq
    rw [Function.update_self]
    exact hreader hp
  · rw [Function.update_of_ne hpq]
    exact h p hp

theorem not_idle_of_advance (hstep : step s (.advance q) = some s') : (s.readers q).pc ≠ .idle := by
  intro hidle
  unfold step at hstep
  dsimp only at hstep
  rw [if_pos hidle] at hstep
  cases hstep

/-- A step of another reader. -/
theorem advance_other (hothers : OthersWait s r t) (hactive : s.terminals.activeTerminal = t)
    (hq : q ≠ r) (hstep : step s (.advance q) = some s') :
    s'.terminals = s.terminals ∧ s'.readers r = s.readers r ∧ OthersWait s' r t := by
  have hpc := not_idle_of_advance hstep
  obtain ⟨hreading, hterminal⟩ := hothers q hq
  have hterminal' := hterminal.resolve_left hpc
  obtain ⟨hsame, hreading', hsame'⟩ := waits_on hpc hreading (hactive ▸ hterminal')
  rw [step_advance hpc] at hstep
  cases hstep
  refine ⟨hsame, Function.update_of_ne (Ne.symm hq) _ _, hothers.update rfl fun _ => ?_⟩
  exact ⟨hreading', Or.inr (hsame'.symm ▸ hterminal')⟩

/-- A call. -/
theorem call_step {terminal : Nat} {wanted : Int} {null : Bool} (hothers : OthersWait s r t)
    (hcalls : CallsOnce s r t nbytes q terminal wanted null)
    (hstep : step s (.call q terminal wanted null) = some s') :
    s'.terminals = s.terminals ∧ OthersWait s' r t ∧
      ((q ≠ r ∧ s'.readers r = s.readers r) ∨ (q = r ∧ (s.readers r).pc = .idle ∧
        (s.readers r).result = none ∧ s'.readers r = newReader t nbytes false)) := by
  unfold step at hstep
  dsimp only at hstep
  split_ifs at hstep with hidle
  cases hstep
  unfold CallsOnce at hcalls
  by_cases hq : q = r
  · subst hq
    rw [if_pos rfl] at hcalls
    obtain ⟨hfresh, rfl, rfl, rfl⟩ := hcalls
    refine ⟨rfl, hothers.update rfl fun h => absurd rfl h, Or.inr ⟨rfl, hidle, hfresh, ?_⟩⟩
    exact Function.update_self _ _ _
  · rw [if_neg hq] at hcalls
    refine ⟨rfl, hothers.update rfl fun _ => ⟨id, Or.inr hcalls⟩, Or.inl ⟨hq, ?_⟩⟩
    exact Function.update_of_ne (Ne.symm hq) _ _

/-- The waiting process goes round its loop. -/
theorem waits_for_enter {terminals : Terminals} {reader : Reader} (hflag : terminals.enterStatus = 0)
    (hpos : 0 < nbytes) (hasks : Asks reader t nbytes) (hpc : reader.pc = .testEnter ∨ reader.pc = .wait) :
    (readerStep terminals reader).1 = terminals ∧
      ((readerStep terminals reader).2.pc = .testEnter ∨
        (readerStep terminals reader).2.pc = .wait) ∧
      Asks (readerStep terminals reader).2 t nbytes := by
  obtain ⟨hterminal, hbytes, hbuf, hresult⟩ := hasks
  rcases hpc with htest | hwait
  · have hstep : readerStep terminals reader = (terminals, { reader with pc := .wait }) := by
      simp only [readerStep, htest, if_pos hflag]
    rw [hstep]
    exact ⟨rfl, Or.inr rfl, hterminal, hbytes, hbuf, hresult⟩
  · have hvalid : ¬ (reader.nbytes < 0 ∨ reader.buf = none) := by
      rw [hbytes, hbuf]
      rintro (hneg | hnone)
      · omega
      · cases hnone
    have hsome : ¬ reader.nbytes = 0 := by omega
    have hstep : readerStep terminals reader = (terminals, { reader with pc := .testEnter }) := by
      simp only [readerStep, hwait, if_neg hvalid, if_neg hsome]
    rw [hstep]
    exact ⟨rfl, Or.inl rfl, hterminal, hbytes, hbuf, hresult⟩

/-- The editor after an event. -/
def editBy (e : Editor) : Event n → Editor
  | .key scancode => edit e scancode
  | _ => e

/-- A step of a reader that leaves the terminals. -/
theorem Before.of_reader {e : Editor} (h : Before e nbytes t r s)
    (hterminals : s'.terminals = s.terminals) (hothers : OthersWait s' r t)
    (hreader : ((s'.readers r).pc = .idle ∧ (s'.readers r).result = none) ∨
      (((s'.readers r).pc = .testEnter ∨ (s'.readers r).pc = .wait) ∧
        Asks (s'.readers r) t nbytes)) : Before e nbytes t r s' := by
  refine ⟨?_, ?_, ?_, h.length, ?_, hreader, hothers⟩ <;> rw [hterminals]
  · exact h.active
  · exact h.flags
  · exact h.text
  · exact h.flag

/-- One event, before Enter. -/
theorem Before.next {e : Editor} {event : Event n} (h : Before e nbytes t r s) (hpos : 0 < nbytes)
    (htypes : Types r t nbytes s event) (hstep : step s event = some s') :
    Before (editBy e event) nbytes t r s' := by
  cases event with
  | key scancode =>
    cases hstep
    obtain ⟨henter, hchord⟩ := htypes
    have hedit := keyboardHandler_edit hchord
    rw [h.active, h.text, h.flags] at hedit
    refine ⟨?_, ?_, hedit, length_editLine_le _ h.length _, ?_, h.reader, h.others⟩
    · show (keyboardHandler s.terminals scancode).activeTerminal = t
      rw [keyboardHandler_activeTerminal, hchord]
      exact h.active
    · show (keyboardHandler s.terminals scancode).flags = _
      rw [keyboardHandler_flags, h.flags]
      rfl
    · show (keyboardHandler s.terminals scancode).enterStatus = 0
      rw [keyboardHandler_enterStatus, if_neg henter]
      exact h.flag
  | write pcbTerminal buf bytes =>
    cases hstep
    have hsame : (terminalWrite s.terminals pcbTerminal buf bytes).2.activeTerminal =
          s.terminals.activeTerminal ∧
        (terminalWrite s.terminals pcbTerminal buf bytes).2.flags = s.terminals.flags ∧
        bufferText (terminalWrite s.terminals pcbTerminal buf bytes).2 t = bufferText s.terminals t ∧
        (terminalWrite s.terminals pcbTerminal buf bytes).2.enterStatus = 0 := by
      unfold terminalWrite
      cases buf with
      | none => exact ⟨rfl, rfl, rfl, h.flag⟩
      | some data =>
        dsimp only
        split_ifs
        · exact ⟨rfl, rfl, rfl, h.flag⟩
        · exact ⟨rfl, rfl, rfl, rfl⟩
    exact ⟨hsame.1.trans h.active, hsame.2.1.trans h.flags, hsame.2.2.1.trans h.text, h.length,
      hsame.2.2.2, h.reader, h.others⟩
  | call q terminal wanted null =>
    obtain ⟨hterminals, hothers, hreader⟩ := call_step h.others htypes hstep
    refine h.of_reader hterminals hothers ?_
    rcases hreader with ⟨_, hsame⟩ | ⟨_, _, _, hnew⟩
    · rw [hsame]
      exact h.reader
    · rw [hnew]
      exact Or.inr ⟨Or.inl rfl, asks_newReader⟩
  | advance q =>
    by_cases hq : q = r
    · subst hq
      have hpc : (s.readers q).pc ≠ .idle := not_idle_of_advance hstep
      obtain ⟨hpc', hasks⟩ := h.reader.resolve_left fun hidle => hpc hidle.1
      obtain ⟨hsame, hwaits⟩ := waits_for_enter h.flag hpos hasks hpc'
      rw [step_advance hpc] at hstep
      cases hstep
      refine h.of_reader hsame (h.others.update rfl fun hne => absurd rfl hne) (Or.inr ?_)
      dsimp only
      rw [Function.update_self]
      exact hwaits
    · obtain ⟨hterminals, hsame, hothers⟩ := advance_other h.others h.active hq hstep
      refine h.of_reader hterminals hothers ?_
      rw [hsame]
      exact h.reader

end Steps

/-! ## Behind Enter -/

/-- The line is in the buffer and the flag is up. -/
structure Pending (s : Terminals) (t : Nat) (line : List UInt8) : Prop where
  text : bufferText s t = line
  flag : s.enterStatus ≠ 0

/-- How many bytes the read delivers. -/
def delivered (line : List UInt8) (nbytes : Int) : Nat := min nbytes.toNat line.length

/-- Where the read is, with the number of steps that are left. -/
inductive Fetching (line : List UInt8) (nbytes : Int) (t : Nat) (s : Terminals) (r : Reader) :
    Nat → Prop where
  | uncalled (hpc : r.pc = .idle) (hfresh : r.result = none) (hpending : Pending s t line) :
      Fetching line nbytes t s r (delivered line nbytes + 5)
  | waits (hpc : r.pc = .wait) (hasks : Asks r t nbytes) (hpending : Pending s t line) :
      Fetching line nbytes t s r (delivered line nbytes + 6)
  | testsEnter (hpc : r.pc = .testEnter) (hasks : Asks r t nbytes) (hpending : Pending s t line) :
      Fetching line nbytes t s r (delivered line nbytes + 5)
  | testsTerminal (hpc : r.pc = .testTerminal) (hasks : Asks r t nbytes)
      (hpending : Pending s t line) : Fetching line nbytes t s r (delivered line nbytes + 4)
  | leaves (hpc : r.pc = .leave) (hasks : Asks r t nbytes) (htext : bufferText s t = line) :
      Fetching line nbytes t s r (delivered line nbytes + 3)
  | copies {i : Nat} (hpc : r.pc = .copy i) (hbytes : r.nbytes = nbytes)
      (hi : i ≤ delivered line nbytes) (hbuf : r.buf = some (line.take i))
      (htext : bufferText s t = line) (hflag : s.enterStatus = 0) (hfresh : r.result = none) :
      Fetching line nbytes t s r (delivered line nbytes - i + 2)
  | finishes (hpc : r.pc = .finish (delivered line nbytes))
      (hbuf : r.buf = some (line.take nbytes.toNat)) (hflag : s.enterStatus = 0)
      (hfresh : r.result = none) : Fetching line nbytes t s r 1
  | returned (hpc : r.pc = .idle) (hresult : r.result = some (delivered line nbytes : Int))
      (hbuf : r.buf = some (line.take nbytes.toNat)) (hempty : bufferText s t = [])
      (hflag : s.enterStatus = 0) : Fetching line nbytes t s r 0

structure After (line : List UInt8) (nbytes : Int) (t : Nat) (r : Fin n) (s : System n) (k : Nat) :
    Prop where
  active : s.terminals.activeTerminal = t
  fetching : Fetching line nbytes t s.terminals (s.readers r) k
  others : OthersWait s r t

section Fetch

variable {line : List UInt8} {nbytes : Int} {t k : Nat} {terminals terminals' : Terminals}
variable {reader : Reader}

/-- The character at an index of the line. -/
theorem bufferText_getElem? (htext : bufferText terminals t = line) {i : Nat}
    (hi : i < line.length) : line.take (i + 1) = line.take i ++ [terminals.keyboardBuffer (bufferAt t i)] := by
  have hget : (line)[i] = terminals.keyboardBuffer (bufferAt t i) := by
    subst htext
    simp only [bufferText, List.getElem_map, List.getElem_range]
  rw [← hget, List.take_append_getElem hi]

/-- Every step of the read brings it on. -/
theorem Fetching.advance (h : Fetching line nbytes t terminals reader k)
    (hactive : terminals.activeTerminal = t) (hpos : 0 < nbytes) (hpc : reader.pc ≠ .idle) :
    ∃ j, k = j + 1 ∧
      Fetching line nbytes t (readerStep terminals reader).1 (readerStep terminals reader).2 j ∧
      (readerStep terminals reader).1.activeTerminal = t := by
  cases h with
  | uncalled hidle => exact absurd hidle hpc
  | returned hidle => exact absurd hidle hpc
  | waits hwait hasks hpending =>
    obtain ⟨hterminal, hbytes, hbuf, hresult⟩ := hasks
    have hvalid : ¬ (reader.nbytes < 0 ∨ reader.buf = none) := by
      rw [hbytes, hbuf]
      rintro (hneg | hnone)
      · omega
      · cases hnone
    have hsome : ¬ reader.nbytes = 0 := by omega
    have hstep : readerStep terminals reader = (terminals, { reader with pc := .testEnter }) := by
      simp only [readerStep, hwait, if_neg hvalid, if_neg hsome]
    rw [hstep]
    exact ⟨_, rfl, .testsEnter rfl ⟨hterminal, hbytes, hbuf, hresult⟩ hpending, hactive⟩
  | testsEnter htest hasks hpending =>
    have hstep : readerStep terminals reader = (terminals, { reader with pc := .testTerminal }) := by
      simp only [readerStep, htest, if_neg hpending.flag]
    rw [hstep]
    exact ⟨_, rfl, .testsTerminal rfl ⟨hasks.terminal, hasks.nbytes, hasks.buf, hasks.result⟩
      hpending, hactive⟩
  | testsTerminal htest hasks hpending =>
    have hsame : ¬ reader.terminal ≠ terminals.activeTerminal :=
      not_not.mpr (hasks.terminal.trans hactive.symm)
    have hstep : readerStep terminals reader = (terminals,
        { reader with pc := .leave, text := bufferText terminals terminals.activeTerminal }) := by
      simp only [readerStep, htest, if_neg hsame]
    rw [hstep]
    exact ⟨_, rfl, .leaves rfl ⟨hasks.terminal, hasks.nbytes, hasks.buf, hasks.result⟩
      hpending.text, hactive⟩
  | leaves hleave hasks htext =>
    have hstep : readerStep terminals reader =
        ({ terminals with enterStatus := 0 }, { reader with pc := .copy 0 }) := by
      simp only [readerStep, hleave]
    rw [hstep]
    refine ⟨delivered line nbytes - 0 + 2, by omega, ?_, hactive⟩
    exact .copies rfl hasks.nbytes (Nat.zero_le _) hasks.buf htext rfl hasks.result
  | @copies i hcopy hbytes hi hbuf htext hflag hfresh =>
    have hlength : line.length = terminals.keyboardBufferIdx t := by
      rw [← htext, length_bufferText]
    by_cases hmore : i < delivered line nbytes
    · have hless : i < line.length ∧ (i : Int) < nbytes := by
        unfold delivered at hmore
        omega
      have hgo : i < terminals.keyboardBufferIdx terminals.activeTerminal ∧
          (i : Int) < reader.nbytes := by
        rw [hactive, hbytes, ← hlength]
        exact hless
      have hstep : readerStep terminals reader = (terminals,
          { reader with
            pc := .copy (i + 1)
            buf := reader.buf.map fun bytes =>
              bytes ++ [terminals.keyboardBuffer (bufferAt terminals.activeTerminal i)] }) := by
        simp only [readerStep, hcopy, if_pos hgo]
      rw [hstep]
      refine ⟨delivered line nbytes - (i + 1) + 2, by omega, ?_, hactive⟩
      refine .copies rfl hbytes (by omega) ?_ htext hflag hfresh
      dsimp only
      rw [hbuf, hactive, Option.map_some, bufferText_getElem? htext hless.1]
    · have heq : i = delivered line nbytes := by omega
      have hend : ¬ (i < terminals.keyboardBufferIdx terminals.activeTerminal ∧
          (i : Int) < reader.nbytes) := by
        rw [hactive, hbytes, ← hlength]
        unfold delivered at heq
        omega
      have hstep : readerStep terminals reader = (terminals, { reader with pc := .finish i }) := by
        simp only [readerStep, hcopy, if_neg hend]
      rw [hstep]
      refine ⟨1, by omega, .finishes (congrArg Pc.finish heq) ?_ hflag hfresh, hactive⟩
      rw [hbuf, heq]
      refine congrArg some ?_
      unfold delivered
      rw [← List.take_eq_take_min]
  | finishes hfinish hbuf hflag =>
    have hstep : readerStep terminals reader = (clearKeyboardBuffer terminals terminals.activeTerminal,
        { reader with pc := .idle, result := some (delivered line nbytes : Int) }) := by
      simp only [readerStep, hfinish]
    rw [hstep]
    refine ⟨0, rfl, .returned rfl rfl hbuf ?_ hflag, hactive⟩
    rw [hactive]
    exact List.length_eq_zero_iff.mp ((length_bufferText _ _).trans (Function.update_self _ _ _))

theorem Pending.congr (h : Pending terminals t line)
    (htext : bufferText terminals' t = bufferText terminals t)
    (hflag : terminals'.enterStatus = terminals.enterStatus) : Pending terminals' t line :=
  ⟨htext.trans h.text, fun hdown => h.flag (hflag.symm.trans hdown)⟩

/-- What leaves the line and the flag leaves the read where it is. -/
theorem Fetching.congr (h : Fetching line nbytes t terminals reader k)
    (htext : bufferText terminals' t = bufferText terminals t)
    (hflag : terminals'.enterStatus = terminals.enterStatus) :
    Fetching line nbytes t terminals' reader k := by
  cases h with
  | uncalled hpc hfresh hpending =>
    exact .uncalled hpc hfresh (hpending.congr htext hflag)
  | waits hpc hasks hpending => exact .waits hpc hasks (hpending.congr htext hflag)
  | testsEnter hpc hasks hpending =>
    exact .testsEnter hpc hasks (hpending.congr htext hflag)
  | testsTerminal hpc hasks hpending =>
    exact .testsTerminal hpc hasks (hpending.congr htext hflag)
  | leaves hpc hasks hline => exact .leaves hpc hasks (htext.trans hline)
  | copies hpc hbytes hi hbuf hline hdown hfresh =>
    exact .copies hpc hbytes hi hbuf (htext.trans hline) (hflag.trans hdown) hfresh
  | finishes hpc hbuf hdown hfresh => exact .finishes hpc hbuf (hflag.trans hdown) hfresh
  | returned hpc hresult hbuf hempty hdown =>
    exact .returned hpc hresult hbuf (htext.trans hempty) (hflag.trans hdown)

/-- Output by another process, when the read has taken the line. -/
theorem Fetching.lower (h : Fetching line nbytes t terminals reader k)
    (htext : bufferText terminals' t = bufferText terminals t) (hflag : terminals'.enterStatus = 0)
    (htaken : reader.pc.Reading ∨ reader.result ≠ none) :
    Fetching line nbytes t terminals' reader k := by
  cases h with
  | uncalled hpc hfresh =>
    rw [hpc] at htaken
    exact absurd hfresh (htaken.resolve_left id)
  | waits hpc hasks =>
    rw [hpc] at htaken
    exact absurd hasks.result (htaken.resolve_left id)
  | testsEnter hpc hasks =>
    rw [hpc] at htaken
    exact absurd hasks.result (htaken.resolve_left id)
  | testsTerminal hpc hasks =>
    rw [hpc] at htaken
    exact absurd hasks.result (htaken.resolve_left id)
  | leaves hpc hasks hline => exact .leaves hpc hasks (htext.trans hline)
  | copies hpc hbytes hi hbuf hline _ hfresh =>
    exact .copies hpc hbytes hi hbuf (htext.trans hline) hflag hfresh
  | finishes hpc hbuf _ hfresh => exact .finishes hpc hbuf hflag hfresh
  | returned hpc hresult hbuf hempty => exact .returned hpc hresult hbuf (htext.trans hempty) hflag

end Fetch

section Run

variable {s s' : System n} {r : Fin n} {t k : Nat} {nbytes : Int} {line : List UInt8}

/-- The steps of the read in one event. -/
theorem After.next {event : Event n} (h : After line nbytes t r s k) (hpos : 0 < nbytes)
    (hfetches : Fetches r t nbytes s event) (hstep : step s event = some s') :
    ∃ j, k = j + advancesOf r [event] ∧ After line nbytes t r s' j := by
  cases event with
  | key scancode =>
    cases hstep
    obtain ⟨hquiet, henter, hchord⟩ := hfetches
    refine ⟨k, rfl, ?_, h.fetching.congr (keyboardHandler_text_quiet hquiet t) ?_, h.others⟩
    · show (keyboardHandler s.terminals scancode).activeTerminal = t
      rw [keyboardHandler_activeTerminal, hchord]
      exact h.active
    · rw [keyboardHandler_enterStatus, if_neg henter]
  | write pcbTerminal buf bytes =>
    cases hstep
    refine ⟨k, rfl, ?_⟩
    unfold terminalWrite
    cases buf with
    | none => exact h
    | some data =>
      dsimp only
      split_ifs
      · exact h
      · exact ⟨h.active, h.fetching.lower rfl rfl hfetches, h.others⟩
  | call q terminal wanted null =>
    obtain ⟨hterminals, hothers, hreader⟩ := call_step h.others hfetches hstep
    refine ⟨k, rfl, hterminals ▸ h.active, ?_, hothers⟩
    rw [hterminals]
    rcases hreader with ⟨_, hsame⟩ | ⟨_, hidle, hfresh, hnew⟩
    · rw [hsame]
      exact h.fetching
    · rw [hnew]
      have hfetching := h.fetching
      cases hfetching with
      | uncalled _ _ hpending => exact .testsEnter rfl asks_newReader hpending
      | returned _ hresult => exact absurd (hfresh.symm.trans hresult) nofun
      | waits hpc => exact absurd (hidle.symm.trans hpc) nofun
      | testsEnter hpc => exact absurd (hidle.symm.trans hpc) nofun
      | testsTerminal hpc => exact absurd (hidle.symm.trans hpc) nofun
      | leaves hpc => exact absurd (hidle.symm.trans hpc) nofun
      | copies hpc => exact absurd (hidle.symm.trans hpc) nofun
      | finishes hpc => exact absurd (hidle.symm.trans hpc) nofun
  | advance q =>
    by_cases hq : q = r
    · subst hq
      have hpc := not_idle_of_advance hstep
      obtain ⟨j, hj, hfetching, hactive⟩ := h.fetching.advance h.active hpos hpc
      rw [step_advance hpc] at hstep
      cases hstep
      refine ⟨j, ?_, hactive, ?_, h.others.update rfl fun hne => absurd rfl hne⟩
      · simp [advancesOf, hj]
      · dsimp only
        rw [Function.update_self]
        exact hfetching
    · obtain ⟨hterminals, hsame, hothers⟩ := advance_other h.others h.active hq hstep
      refine ⟨k, by simp [advancesOf, hq], hterminals ▸ h.active, ?_, hothers⟩
      rw [hterminals, hsame]
      exact h.fetching

/-- Enter puts the newline behind the line and raises the flag. -/
theorem Before.enter {e : Editor} (h : Before e nbytes t r s) (hroom : e.line.length < 128)
    (htypes : TypesChar (newFlags e.flags enterKey) enterKey)
    (hstep : step s (.key enterKey) = some s') :
    ∃ k ≤ delivered (e.line ++ [newline]) nbytes + 6,
      After (e.line ++ [newline]) nbytes t r s' k := by
  cases hstep
  rw [← h.flags] at htypes
  have htext : bufferText (keyboardHandler s.terminals enterKey) t = e.line ++ [newline] := by
    have hidx : s.terminals.keyboardBufferIdx s.terminals.activeTerminal < bufferSize := by
      rw [← length_bufferText, h.active, h.text]
      exact hroom
    rw [← h.text, ← h.active]
    exact keyboardHandler_text_enter htypes hidx
  have hpending : Pending (keyboardHandler s.terminals enterKey) t (e.line ++ [newline]) := by
    refine ⟨htext, ?_⟩
    rw [keyboardHandler_enterStatus, if_pos rfl]
    exact Nat.one_ne_zero
  have hactive : (keyboardHandler s.terminals enterKey).activeTerminal = t := by
    rw [keyboardHandler_activeTerminal, htypes.chord]
    exact h.active
  rcases h.reader with ⟨hidle, hfresh⟩ | ⟨htest | hwait, hasks⟩
  · exact ⟨_, Nat.le_succ _, hactive, .uncalled hidle hfresh hpending, h.others⟩
  · exact ⟨_, Nat.le_succ _, hactive, .testsEnter htest hasks hpending, h.others⟩
  · exact ⟨_, Nat.le_refl _, hactive, .waits hwait hasks hpending, h.others⟩

/-- The read has been called. -/
def Called (s : System n) (r : Fin n) : Prop := (s.readers r).pc ≠ .idle ∨ (s.readers r).result ≠ none

theorem called_step {terminals : Terminals} {reader : Reader} (hpc : reader.pc ≠ .idle) :
    (readerStep terminals reader).2.pc ≠ .idle ∨ (readerStep terminals reader).2.result ≠ none := by
  unfold readerStep
  cases hlabel : reader.pc with
  | idle => exact absurd hlabel hpc
  | testEnter => exact Or.inl (by dsimp only; split_ifs <;> exact nofun)
  | testTerminal => exact Or.inl (by dsimp only; split_ifs <;> exact nofun)
  | wait =>
    dsimp only
    split_ifs
    · exact Or.inr nofun
    · exact Or.inr nofun
    · exact Or.inl nofun
  | leave => exact Or.inl nofun
  | copy i => exact Or.inl (by dsimp only; split_ifs <;> exact nofun)
  | finish i => exact Or.inr nofun

theorem Called.next {event : Event n} (h : Called s r ∨ advancesOf r [event] ≠ 0)
    (hstep : step s event = some s') : Called s' r := by
  cases event with
  | key scancode =>
    cases hstep
    exact h.resolve_right fun hne => hne rfl
  | write pcbTerminal buf bytes =>
    cases hstep
    exact h.resolve_right fun hne => hne rfl
  | call q terminal wanted null =>
    unfold Terminal.step at hstep
    dsimp only at hstep
    split_ifs at hstep
    cases hstep
    by_cases hq : r = q
    · subst hq
      refine Or.inl ?_
      dsimp only
      rw [Function.update_self]
      exact nofun
    · unfold Called
      dsimp only
      rw [Function.update_of_ne hq]
      exact h.resolve_right fun hne => hne rfl
  | advance q =>
    have hpc := not_idle_of_advance hstep
    rw [step_advance hpc] at hstep
    cases hstep
    unfold Called
    dsimp only
    by_cases hq : r = q
    · subst hq
      rw [Function.update_self]
      exact called_step hpc
    · rw [Function.update_of_ne hq]
      exact h.resolve_right fun hne => hne (by simp [advancesOf, Ne.symm hq])

end Run

end LinuxBasedOS.Terminal
