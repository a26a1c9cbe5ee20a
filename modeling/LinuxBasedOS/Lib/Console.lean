import LinuxBasedOS.Base.Word

/-!
# The console of lib.c

Three terminals share the video memory: the page of terminal `t` begins `8192 * t` bytes
after `video_mem`, two bytes for a cell. `Console` holds the video memory by the offset from
`video_mem`, the cursor of each terminal, and the position last sent to the cursor registers.
-/

namespace LinuxBasedOS.Lib

open Word

def numCols : Int := 80

def numRows : Int := 25

def attrib : UInt8 := 0x7

def space : UInt8 := 32

def newline : UInt8 := 10

def carriageReturn : UInt8 := 13

def tabulator : UInt8 := 9

structure Console where
  screenX : Nat → Int
  screenY : Nat → Int
  video : Int → UInt8
  position : Nat

/-- `update_cursor_position`. -/
def updateCursorPosition (s : Console) (x y : Int) : Console :=
  { s with position := u16 (u32 (y * numCols + x)) }

/-- The offset of a cell from `video_mem`. -/
def cellOffset (terminal : Nat) (i : Int) : Int := 4096 * 2 * terminal + i * 2

/-- The two stores that put a character in a cell. -/
def setCell (video : Int → UInt8) (terminal : Nat) (i : Int) (c : UInt8) : Int → UInt8 :=
  Function.update (Function.update video (cellOffset terminal i) c) (cellOffset terminal i + 1) attrib

def backspace (s : Console) (activeTerminal : Nat) : Console :=
  let x := s.screenX activeTerminal
  let y := s.screenY activeTerminal
  let i := y * numCols + (x - 1)
  if i < 0 then s
  else
    let video := setCell s.video activeTerminal i space
    let moved : Console :=
      if y ≠ 0 ∧ x = 0 then
        { s with
          video := video
          screenX := Function.update s.screenX activeTerminal (numCols - 1)
          screenY := Function.update s.screenY activeTerminal (y - 1) }
      else
        { s with video := video, screenX := Function.update s.screenX activeTerminal (x - 1) }
    updateCursorPosition moved (moved.screenX activeTerminal) (moved.screenY activeTerminal)

/-- `for (i = from; i < from + n; i++)` over cells of the screen. -/
def overCells (store : (Int → UInt8) → Int → Int → UInt8) (video : Int → UInt8) (i : Int) :
    Nat → Int → UInt8
  | 0 => video
  | n + 1 => overCells store (store video i) (i + 1) n

/-- `clear`: the cells are those of `terminal`, the cursor is that of the active terminal. -/
def clear (s : Console) (activeTerminal terminal : Nat) : Console :=
  let blank := overCells (fun video i => setCell video terminal i space) s.video 0 2000
  let home : Console :=
    { s with
      video := blank
      screenX := Function.update s.screenX activeTerminal 0
      screenY := Function.update s.screenY activeTerminal 0 }
  updateCursorPosition home (home.screenX activeTerminal) (home.screenY activeTerminal)

/-- One turn of the copying loop of `scroll_up`, which reads from the page of terminal 0. -/
def scrollCell (terminal : Nat) (video : Int → UInt8) (i : Int) : Int → UInt8 :=
  let lifted := Function.update video (cellOffset terminal (i - numCols)) (video (i * 2))
  Function.update lifted (cellOffset terminal (i - numCols) + 1) (lifted (i * 2 + 1))

def scrollUp (s : Console) (terminal : Nat) : Console :=
  let lifted := overCells (scrollCell terminal) s.video numCols 1920
  let blank := overCells (fun video i => setCell video terminal i space) lifted 1920 80
  let last : Console :=
    { s with
      video := blank
      screenY := Function.update s.screenY terminal (numRows - 1)
      screenX := Function.update s.screenX terminal 0 }
  updateCursorPosition last (last.screenX terminal) (last.screenY terminal)

/-- `putc` of a character that is not a line end and not a tabulator. -/
def putPlain (s : Console) (c : UInt8) (terminal : Nat) : Console :=
  let x := s.screenX terminal
  let y := s.screenY terminal
  if x = numCols - 1 ∧ y = numRows - 1 then scrollUp s terminal
  else
    let next : Console :=
      { s with
        video := setCell s.video terminal (numCols * y + x) c
        screenY := Function.update s.screenY terminal ((y + (x + 1).tdiv numCols).tmod numRows)
        screenX := Function.update s.screenX terminal ((x + 1).tmod numCols) }
    updateCursorPosition next (next.screenX terminal) (next.screenY terminal)

def putSpaces (s : Console) (terminal : Nat) : Nat → Console
  | 0 => s
  | n + 1 => putSpaces (putPlain s space terminal) terminal n

def tab (s : Console) (terminal : Nat) : Console :=
  let x := s.screenX terminal
  let tabsize := if 8 < numCols - x then 8 - x.tmod 8 else 0
  putSpaces s terminal tabsize.toNat

def putc (s : Console) (c : UInt8) (terminal : Nat) : Console :=
  if c = newline ∨ c = carriageReturn then
    if s.screenY terminal = numRows - 1 then scrollUp s terminal
    else
      let next : Console :=
        { s with
          screenY := Function.update s.screenY terminal (s.screenY terminal + 1)
          screenX := Function.update s.screenX terminal 0 }
      updateCursorPosition next (next.screenX terminal) (next.screenY terminal)
  else if c = tabulator then tab s terminal
  else putPlain s c terminal

/-- `puts`, with the number of bytes it returns; `text` is the memory from `s` on. -/
def puts (s : Console) (text : List UInt8) (activeTerminal : Nat) : Int × Console :=
  let bytes := text.takeWhile (· ≠ 0)
  (i32 bytes.length, bytes.foldl (fun s c => putc s c activeTerminal) s)

end LinuxBasedOS.Lib
