import LinuxBasedOS.Lib.Console

/-!
# The keyboard handler and the line buffers

`Terminals` is what `keyboard.c` and `terminal.c` share: the modifier flags, `enterStatus`,
the line buffers of the three terminals and the console. The line buffers are one array in
memory, so index 128 of the buffer of one terminal is index 0 of the next.
-/

namespace LinuxBasedOS.Terminal

open Lib

/-! ## Scancodes -/

def lshift : UInt8 := 42
def rshift : UInt8 := 54
def ctrl : UInt8 := 29
def capslock : UInt8 := 58
def alt : UInt8 := 56
def backspaceKey : UInt8 := 14
def tabKey : UInt8 := 15
def enterKey : UInt8 := 28
def esc : UInt8 := 1
def f1 : UInt8 := 59
def f2 : UInt8 := 60
def f3 : UInt8 := 61

/-- `keyboardUS`; the entries after the last one given are 0. -/
def keyboardUS : List UInt8 :=
  [0, 27, 49, 50, 51, 52, 53, 54, 55, 56, 57, 48, 45, 61, 0, 9, 113, 119, 101, 114,
    116, 121, 117, 105, 111, 112, 91, 93, 10, 0, 97, 115, 100, 102, 103, 104, 106, 107, 108, 59,
    39, 96, 0, 92, 122, 120, 99, 118, 98, 110, 109, 44, 46, 47, 0, 42, 0, 32, 0, 0,
    0, 0, 0, 0, 0, 0, 0, 0, 0, 0, 0, 0, 0, 0, 45, 0, 0, 0, 43, 0]

/-- `keyboardUSShift`. -/
def keyboardUSShift : List UInt8 :=
  [0, 27, 33, 64, 35, 36, 37, 94, 38, 42, 40, 41, 95, 43, 0, 9, 81, 87, 69, 82,
    84, 89, 85, 73, 79, 80, 123, 125, 10, 0, 65, 83, 68, 70, 71, 72, 74, 75, 76, 58,
    34, 126, 0, 124, 90, 88, 67, 86, 66, 78, 77, 60, 62, 63, 0, 42, 0, 32, 0, 0,
    0, 0, 0, 0, 0, 0, 0, 0, 0, 0, 0, 0, 0, 0, 45, 0, 0, 0, 43, 0]

/-! ## The state -/

def bufferSize : Nat := 128

structure Flags where
  altStatus : Nat
  f1Status : Nat
  f2Status : Nat
  f3Status : Nat
  ctrlStatus : Nat
  shiftStatus : Nat
  capsStatus : Nat
  deriving DecidableEq, Repr

structure Terminals where
  flags : Flags
  enterStatus : Nat
  keyboardBuffer : Nat → UInt8
  keyboardBufferIdx : Nat → Nat
  activeTerminal : Nat
  console : Console

/-- The index of `keyboardBuffer[terminal][i]` in the array. -/
def bufferAt (terminal i : Nat) : Nat := terminal * bufferSize + i

/-- `clear_keyboardBuffer`. -/
def clearKeyboardBuffer (s : Terminals) (terminal : Nat) : Terminals :=
  { s with
    keyboardBufferIdx := Function.update s.keyboardBufferIdx terminal 0
    keyboardBuffer := fun j =>
      if bufferAt terminal 0 ≤ j ∧ j < bufferAt terminal bufferSize then 0 else s.keyboardBuffer j }

/-! ## keyboard_handler -/

/-- A key was released; `tempCode` is the scancode without its top bit. -/
def released (k : Flags) (tempCode : UInt8) : Flags where
  shiftStatus := if tempCode = lshift ∨ tempCode = rshift then 0 else k.shiftStatus
  ctrlStatus := if tempCode = ctrl then 0 else k.ctrlStatus
  altStatus := if tempCode = alt then 0 else k.altStatus
  f1Status := if tempCode = f1 then 0 else k.f1Status
  f2Status := if tempCode = f2 then 0 else k.f2Status
  f3Status := if tempCode = f3 then 0 else k.f3Status
  capsStatus := k.capsStatus

/-- A key was pressed. -/
def pressed (k : Flags) (scancode : UInt8) : Flags where
  shiftStatus := if scancode = lshift ∨ scancode = rshift then 1 else k.shiftStatus
  ctrlStatus := if scancode = ctrl then 1 else k.ctrlStatus
  altStatus := if scancode = alt then 1 else k.altStatus
  f1Status := if scancode = f1 then 1 else k.f1Status
  f2Status := if scancode = f2 then 1 else k.f2Status
  f3Status := if scancode = f3 then 1 else k.f3Status
  capsStatus :=
    if scancode = capslock then if k.capsStatus = 0 then 1 else 0 else k.capsStatus

/-- The top bit of the scancode is clear. -/
def isPress (scancode : UInt8) : Bool := scancode &&& 0x80 == 0

def newFlags (k : Flags) (scancode : UInt8) : Flags :=
  if isPress scancode then pressed k scancode else released k (scancode &&& 0x7F)

/-- The character of a pressed key. -/
def lookupChar (k : Flags) (scancode : UInt8) : UInt8 :=
  let plain := keyboardUS.getD scancode.toNat 0
  let shifted := keyboardUSShift.getD scancode.toNat 0
  if 97 ≤ plain ∧ plain ≤ 122 then
    if k.shiftStatus ^^^ k.capsStatus ≠ 0 then shifted else plain
  else if k.shiftStatus ≠ 0 then shifted
  else plain

/-- The terminal that the Alt+Fn keys held select. -/
def chord (k : Flags) : Option Nat :=
  if k.altStatus ≠ 0 ∧ k.f1Status ≠ 0 then some 0
  else if k.altStatus ≠ 0 ∧ k.f2Status ≠ 0 then some 1
  else if k.altStatus ≠ 0 ∧ k.f3Status ≠ 0 then some 2
  else none

/-- `returnChar` after the lookup and the handling of Tab. -/
def lookedChar (k : Flags) (scancode : UInt8) : UInt8 :=
  if scancode = tabKey then 0 else if isPress scancode then lookupChar k scancode else 0

/-- `ctrlStatus && (returnChar == 'l' || returnChar == 'L')`. -/
def clearsScreen (k : Flags) (scancode : UInt8) : Bool :=
  k.ctrlStatus != 0 && (lookedChar k scancode == 108 || lookedChar k scancode == 76)

/-- `returnChar` when the handler comes to the line buffer. -/
def returnChar (k : Flags) (scancode : UInt8) : UInt8 :=
  if (chord k).isSome then 0 else if clearsScreen k scancode then 0 else lookedChar k scancode

/-- `returnChar != 0 && scancode != ESC && ctrlStatus == 0`. -/
def TypesChar (k : Flags) (scancode : UInt8) : Prop :=
  returnChar k scancode ≠ 0 ∧ scancode ≠ esc ∧ k.ctrlStatus = 0

instance (k : Flags) (scancode : UInt8) : Decidable (TypesChar k scancode) :=
  inferInstanceAs (Decidable (_ ∧ _ ∧ _))

/-- The Backspace key. -/
def eraseLast (s : Terminals) : Terminals :=
  let t := s.activeTerminal
  let idx := s.keyboardBufferIdx t
  if 0 < idx then
    { s with
      console := backspace s.console t
      keyboardBuffer := Function.update s.keyboardBuffer (bufferAt t idx) 0
      keyboardBufferIdx := Function.update s.keyboardBufferIdx t (idx - 1) }
  else s

/-- The end of the handler: store the character if there is room, and print it. -/
def typeChar (s : Terminals) (c : UInt8) : Terminals :=
  let t := s.activeTerminal
  let idx := s.keyboardBufferIdx t
  let stored :=
    if idx < bufferSize then
      { s with
        keyboardBuffer := Function.update s.keyboardBuffer (bufferAt t idx) c
        keyboardBufferIdx := Function.update s.keyboardBufferIdx t (idx + 1) }
    else s
  { stored with console := putc s.console c t }

def flagKey (s : Terminals) (scancode : UInt8) : Terminals :=
  { s with
    flags := newFlags s.flags scancode
    enterStatus := if scancode = enterKey then 1 else s.enterStatus }

def eraseKey (s : Terminals) (scancode : UInt8) : Terminals :=
  if scancode = backspaceKey then eraseLast s else s

def tabulate (s : Terminals) (scancode : UInt8) : Terminals :=
  if scancode = tabKey then { s with console := tab s.console s.activeTerminal } else s

def clearScreen (s : Terminals) (scancode : UInt8) : Terminals :=
  if clearsScreen s.flags scancode then
    { s with console := clear s.console s.activeTerminal s.activeTerminal }
  else s

def switchTerminal (s : Terminals) : Terminals :=
  { s with activeTerminal := (chord s.flags).getD s.activeTerminal }

def typeKey (s : Terminals) (scancode : UInt8) : Terminals :=
  if TypesChar s.flags scancode then typeChar s (returnChar s.flags scancode) else s

/-- `keyboard_handler`, one stage of its body after the other. -/
def keyboardHandler (s : Terminals) (scancode : UInt8) : Terminals :=
  let flagged := flagKey s scancode
  let erased := eraseKey flagged scancode
  let tabbed := tabulate erased scancode
  let cleared := clearScreen tabbed scancode
  let switched := switchTerminal cleared
  typeKey switched scancode

/-! ## terminal_write -/

/-- The calls of `putc` that `terminal_write` makes: one for each byte that is not NUL. -/
def putcCalls (pcbTerminal : Nat) (buf : Nat → UInt8) (nbytes : Int) : List (UInt8 × Nat) :=
  (((List.range nbytes.toNat).map buf).filter fun c => c != 0).map fun c => (c, pcbTerminal)

/-- `terminal_write`; `buf` is `none` for a null pointer. -/
def terminalWrite (s : Terminals) (pcbTerminal : Nat) (buf : Option (Nat → UInt8)) (nbytes : Int) :
    Int × Terminals :=
  match buf with
  | none => (-1, s)
  | some bytes =>
    if nbytes < 0 then (-1, s)
    else
      (nbytes,
        { s with
          enterStatus := 0
          console := (putcCalls pcbTerminal bytes nbytes).foldl (fun c call => putc c call.1 call.2)
            s.console })

/-! ## terminal_open -/

/-- `terminal_open`, for a caller on `pcbTerminal`. -/
def terminalOpen (s : Terminals) (pcbTerminal : Nat) : Int × Terminals :=
  let emptied := clearKeyboardBuffer { s with enterStatus := 0 } pcbTerminal
  (0, { emptied with console := clear emptied.console emptied.activeTerminal pcbTerminal })

end LinuxBasedOS.Terminal
