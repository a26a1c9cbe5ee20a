import LinuxBasedOS.Base.Transition
import LinuxBasedOS.Terminal.LineBuffer

/-!
# keyboard_read, step by step

`keyboard_read` waits with interrupts enabled, so key presses, writes and other readers come
between any two of its steps. `Reader` is one call: the next statement, the arguments, and the
bytes it has copied to the buffer of its caller. `System` runs any number of readers against
the keyboard; while a reader runs, `pcb_terminal` is its terminal.

The system also keeps what the results about lines speak of: for each terminal, whether Enter
has been pressed on it since its last read, and for a reader that has left its wait loop, the
text that was in the buffer then.
-/

namespace LinuxBasedOS.Terminal

open Lib Transition

/-! ## Readers -/

inductive Pc where
  | idle
  /-- `!enterStatus` -/
  | testEnter
  /-- `pcb_terminal != active_terminal` -/
  | testTerminal
  /-- the body of the wait loop -/
  | wait
  /-- `enterStatus = 0` -/
  | leave
  /-- the copying loop, at index `i` -/
  | copy (i : Nat)
  /-- `clear_keyboardBuffer(active_terminal)`, and the return of `i` -/
  | finish (i : Nat)
  deriving DecidableEq, Repr

structure Reader where
  pc : Pc
  terminal : Nat
  nbytes : Int
  buf : Option (List UInt8)
  text : List UInt8
  result : Option Int

/-- The reader has left its wait loop and has not returned. -/
def Pc.Reading : Pc → Prop
  | .leave | .copy _ | .finish _ => True
  | .idle | .testEnter | .testTerminal | .wait => False

instance : (pc : Pc) → Decidable pc.Reading
  | .leave | .copy _ | .finish _ => .isTrue trivial
  | .idle | .testEnter | .testTerminal | .wait => .isFalse id

/-- The reader is about to clear the buffer and return. -/
def Pc.isFinish : Pc → Bool
  | .finish _ => true
  | .idle | .testEnter | .testTerminal | .wait | .leave | .copy _ => false

/-- One step of a call of `keyboard_read`. -/
def readerStep (s : Terminals) (r : Reader) : Terminals × Reader :=
  match r.pc with
  | .idle => (s, r)
  | .testEnter => (s, { r with pc := if s.enterStatus = 0 then .wait else .testTerminal })
  | .testTerminal =>
    if r.terminal ≠ s.activeTerminal then (s, { r with pc := .wait })
    else (s, { r with pc := .leave, text := bufferText s s.activeTerminal })
  | .wait =>
    if r.nbytes < 0 ∨ r.buf = none then (s, { r with pc := .idle, result := some (-1) })
    else if r.nbytes = 0 then (s, { r with pc := .idle, result := some 0 })
    else (s, { r with pc := .testEnter })
  | .leave => ({ s with enterStatus := 0 }, { r with pc := .copy 0 })
  | .copy i =>
    if i < s.keyboardBufferIdx s.activeTerminal ∧ (i : Int) < r.nbytes then
      (s, { r with
        pc := .copy (i + 1)
        buf := r.buf.map fun bytes => bytes ++ [s.keyboardBuffer (bufferAt s.activeTerminal i)] })
    else (s, { r with pc := .finish i })
  | .finish i => (clearKeyboardBuffer s s.activeTerminal, { r with pc := .idle, result := some i })

/-- Everything that one step of a reader can be. -/
inductive ReaderMove (s : Terminals) (r : Reader) : Terminals → Reader → Prop where
  | waits {r' : Reader} (hpc : ¬ r.pc.Reading) (hpc' : ¬ r'.pc.Reading)
      (htest : r'.pc = .testTerminal → s.enterStatus ≠ 0) (hterminal : r'.terminal = r.terminal)
      (hbytes : r'.nbytes = r.nbytes) (hbuf : r'.buf = r.buf) :
      ReaderMove s r s r'
  | enters (hpc : r.pc = .testTerminal) (hterminal : r.terminal = s.activeTerminal) :
      ReaderMove s r s { r with pc := .leave, text := bufferText s s.activeTerminal }
  | leaves (hpc : r.pc = .leave) :
      ReaderMove s r { s with enterStatus := 0 } { r with pc := .copy 0 }
  | copies {i : Nat} (hpc : r.pc = .copy i) (hidx : i < s.keyboardBufferIdx s.activeTerminal)
      (hbytes : (i : Int) < r.nbytes) :
      ReaderMove s r s
        { r with
          pc := .copy (i + 1)
          buf := r.buf.map fun bytes => bytes ++ [s.keyboardBuffer (bufferAt s.activeTerminal i)] }
  | stops {i : Nat} (hpc : r.pc = .copy i)
      (hend : ¬ (i < s.keyboardBufferIdx s.activeTerminal ∧ (i : Int) < r.nbytes)) :
      ReaderMove s r s { r with pc := .finish i }
  | returns {i : Nat} (hpc : r.pc = .finish i) :
      ReaderMove s r (clearKeyboardBuffer s s.activeTerminal)
        { r with pc := .idle, result := some i }

theorem readerStep_move {s : Terminals} {r : Reader} (hidle : r.pc ≠ .idle) :
    ReaderMove s r (readerStep s r).1 (readerStep s r).2 := by
  unfold readerStep
  cases hpc : r.pc with
  | idle => exact absurd hpc hidle
  | testEnter =>
    have hwaiting : ¬ r.pc.Reading := by rw [hpc]; exact id
    by_cases hflag : s.enterStatus = 0
    · simp only [if_pos hflag]
      exact .waits hwaiting id Pc.noConfusion rfl rfl rfl
    · simp only [if_neg hflag]
      exact .waits hwaiting id (fun _ => hflag) rfl rfl rfl
  | testTerminal =>
    have hwaiting : ¬ r.pc.Reading := by rw [hpc]; exact id
    by_cases hterminal : r.terminal = s.activeTerminal
    · simp only [hterminal, ne_eq, not_true_eq_false, if_false]
      have henters := ReaderMove.enters hpc hterminal
      simpa only [hterminal] using henters
    · simp only [ne_eq, hterminal, not_false_eq_true, if_true]
      exact .waits hwaiting id Pc.noConfusion rfl rfl rfl
  | wait =>
    have hwaiting : ¬ r.pc.Reading := by rw [hpc]; exact id
    dsimp only
    split_ifs
    · exact .waits hwaiting id Pc.noConfusion rfl rfl rfl
    · exact .waits hwaiting id Pc.noConfusion rfl rfl rfl
    · exact .waits hwaiting id Pc.noConfusion rfl rfl rfl
  | leave => exact .leaves hpc
  | copy i =>
    dsimp only
    split_ifs with hmore
    · exact .copies hpc hmore.1 hmore.2
    · exact .stops hpc hmore
  | finish i => exact .returns hpc

/-! ## The system -/

variable {n : Nat}

structure System (n : Nat) where
  terminals : Terminals
  readers : Fin n → Reader
  entered : Nat → Bool

inductive Event (n : Nat) where
  | key (scancode : UInt8)
  | write (pcbTerminal : Nat) (buf : Option (Nat → UInt8)) (nbytes : Int)
  | call (r : Fin n) (terminal : Nat) (nbytes : Int) (null : Bool)
  | advance (r : Fin n)

/-- A call of `keyboard_read`; `null` says that its buffer is a null pointer. -/
def newReader (terminal : Nat) (nbytes : Int) (null : Bool) : Reader where
  pc := .testEnter
  terminal := terminal
  nbytes := nbytes
  buf := if null then none else some []
  text := []
  result := none

/-- A read on the terminal has returned. -/
def afterReturn (entered : Nat → Bool) (r : Reader) : Nat → Bool :=
  match r.pc with
  | .finish _ => Function.update entered r.terminal false
  | _ => entered

/-- Enter has been pressed on the active terminal. -/
def afterKey (entered : Nat → Bool) (activeTerminal : Nat) (scancode : UInt8) : Nat → Bool :=
  if scancode = enterKey then Function.update entered activeTerminal true else entered

def step (s : System n) : Event n → Option (System n)
  | .key scancode => some
      { s with
        terminals := keyboardHandler s.terminals scancode
        entered := afterKey s.entered s.terminals.activeTerminal scancode }
  | .write pcbTerminal buf nbytes => some
      { s with terminals := (terminalWrite s.terminals pcbTerminal buf nbytes).2 }
  | .call r terminal nbytes null =>
    if (s.readers r).pc = .idle then some
      { s with readers := Function.update s.readers r (newReader terminal nbytes null) }
    else none
  | .advance r =>
    if (s.readers r).pc = .idle then none
    else some
      { terminals := (readerStep s.terminals (s.readers r)).1
        readers := Function.update s.readers r (readerStep s.terminals (s.readers r)).2
        entered := afterReturn s.entered (s.readers r) }

theorem step_advance {s : System n} {r : Fin n} (h : (s.readers r).pc ≠ .idle) :
    step s (.advance r) = some
      { terminals := (readerStep s.terminals (s.readers r)).1
        readers := Function.update s.readers r (readerStep s.terminals (s.readers r)).2
        entered := afterReturn s.entered (s.readers r) } :=
  if_neg h

/-- Empty buffers, no key held, no reader. -/
def startSystem (n : Nat) (console : Console) (activeTerminal : Nat) : System n where
  terminals :=
    { flags := ⟨0, 0, 0, 0, 0, 0, 0⟩
      enterStatus := 0
      keyboardBuffer := fun _ => 0
      keyboardBufferIdx := fun _ => 0
      activeTerminal := activeTerminal
      console := console }
  readers := fun _ =>
    { pc := .idle, terminal := 0, nbytes := 0, buf := none, text := [], result := none }
  entered := fun _ => false

/-- The screen with nothing on it. -/
def blankConsole : Console where
  screenX := fun _ => 0
  screenY := fun _ => 0
  video := fun _ => space
  position := 0

end LinuxBasedOS.Terminal
