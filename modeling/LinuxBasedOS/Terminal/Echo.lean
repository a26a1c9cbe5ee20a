import LinuxBasedOS.Terminal.BufferFrame
import LinuxBasedOS.Terminal.Confinement
import LinuxBasedOS.Terminal.HardwareCursor
import LinuxBasedOS.Terminal.LineEditor

/-!
# The echo of the line

The handler prints a character and stores it by two statements under two conditions, and erases
both ways by two more. `cursorCell` numbers the cells of the screen row after row: a plain
character moves the cursor to the next cell, Backspace to the one before.

* `echo_matches_iff`: along every sequence of keys on one line, the cursor is as many cells past
  the start of the line as the buffer has characters, and these cells show them, exactly when no
  Tab moves the cursor and no character is typed into a full buffer.
* `type_then_erase`: characters that are typed and erased again leave the cursor, the index and the
  line as they were, and blank cells.
-/

namespace LinuxBasedOS.Terminal

open Lib Transition

/-! ## The cursor as a cell -/

/-- The cell the cursor is on. -/
def cursorCell (s : Console) (terminal : Nat) : Int :=
  numCols * s.screenY terminal + s.screenX terminal

section Cursor

variable {s : Console} {terminal : Nat}

/-- The last cell of the screen. -/
def lastCell : Int := 1999

theorem cursorCell_range (h : OnScreen s terminal) :
    0 ≤ cursorCell s terminal ∧ cursorCell s terminal ≤ lastCell := by
  have hx0 := h.x_nonneg
  have hx := h.x_lt
  have hy0 := h.y_nonneg
  have hy := h.y_lt
  unfold cursorCell numCols lastCell
  omega

/-- On the screen the cell tells the column and the row. -/
theorem cursor_eq_of_cell {s' : Console} (h : OnScreen s terminal) (h' : OnScreen s' terminal)
    (hcell : cursorCell s' terminal = cursorCell s terminal) :
    s'.screenX terminal = s.screenX terminal ∧ s'.screenY terminal = s.screenY terminal := by
  have hx0 := h.x_nonneg
  have hx := h.x_lt
  have hx0' := h'.x_nonneg
  have hx' := h'.x_lt
  unfold cursorCell numCols at hcell
  omega

theorem corner_iff (h : OnScreen s terminal) :
    (s.screenX terminal = numCols - 1 ∧ s.screenY terminal = numRows - 1) ↔
      cursorCell s terminal = lastCell := by
  have hx0 := h.x_nonneg
  have hx := h.x_lt
  have hy0 := h.y_nonneg
  have hy := h.y_lt
  unfold cursorCell lastCell numCols numRows
  omega

/-- A plain character that does not scroll the screen. -/
theorem putPlain_cell (h : OnScreen s terminal) (hcorner : cursorCell s terminal ≠ lastCell)
    (c : UInt8) :
    cursorCell (putPlain s c terminal) terminal = cursorCell s terminal + 1 ∧
      ∀ i, cellAt (putPlain s c terminal).video terminal i =
        if i = cursorCell s terminal then (c, attrib) else cellAt s.video terminal i := by
  have hx0 := h.x_nonneg
  have hx := h.x_lt
  have hy0 := h.y_nonneg
  have hy := h.y_lt
  have hnot := mt (corner_iff h).mp hcorner
  constructor
  · have hcursor := cursorOf_putPlain s c terminal
    unfold nextCursor cursorOf at hcursor
    rw [if_neg hnot] at hcursor
    obtain ⟨hcolumn, hrow⟩ := Prod.mk.inj hcursor
    rw [h.carry.1] at hcolumn
    rw [h.carry.2] at hrow
    unfold cursorCell numCols
    unfold numCols numRows at hnot
    rw [hcolumn, hrow]
    omega
  · intro i
    unfold putPlain
    dsimp only
    rw [if_neg hnot]
    exact cellAt_setCell_self _ _ _ _ _

/-- `backspace` goes to the cell before and blanks it. -/
theorem backspace_cell (h : OnScreen s terminal) (hpos : 0 < cursorCell s terminal) :
    cursorCell (backspace s terminal) terminal = cursorCell s terminal - 1 ∧
      ∀ i, cellAt (backspace s terminal).video terminal i =
        if i = cursorCell s terminal - 1 then (space, attrib) else cellAt s.video terminal i := by
  have hx0 := h.x_nonneg
  have hx := h.x_lt
  have hy0 := h.y_nonneg
  have hhome : ¬ s.screenY terminal * numCols + (s.screenX terminal - 1) < 0 := by
    unfold cursorCell numCols at hpos
    unfold numCols
    omega
  constructor
  · unfold backspace updateCursorPosition
    dsimp only
    rw [if_neg hhome]
    unfold cursorCell numCols at *
    split_ifs with hwrap
    · dsimp only
      rw [Function.update_self, Function.update_self]
      omega
    · dsimp only
      rw [Function.update_self]
      omega
  · intro i
    have hbefore : s.screenY terminal * numCols + (s.screenX terminal - 1) =
        cursorCell s terminal - 1 := by
      unfold cursorCell numCols
      omega
    have hvideo : (backspace s terminal).video = setCell s.video terminal
        (s.screenY terminal * numCols + (s.screenX terminal - 1)) space := by
      unfold backspace updateCursorPosition
      dsimp only
      rw [if_neg hhome]
      split_ifs <;> rfl
    rw [hvideo, hbefore, cellAt_setCell_self]

/-- Spaces one after the other, up to the last cell. -/
theorem putSpaces_cell {n : Nat} (h : OnScreen s terminal)
    (hroom : cursorCell s terminal + n ≤ lastCell) :
    cursorCell (putSpaces s terminal n) terminal = cursorCell s terminal + n := by
  induction n generalizing s with
  | zero => exact (Int.add_zero _).symm
  | succ n ih =>
    have hstep := (putPlain_cell h (by omega) space).1
    rw [putSpaces, ih (putPlain_prints h space).onScreen (by omega), hstep]
    omega

/-- A tabulator moves the cursor on, except near the end of a row. -/
theorem tab_cell (h : OnScreen s terminal) :
    if s.screenX terminal < 72 then cursorCell s terminal < cursorCell (tab s terminal) terminal
    else tab s terminal = s := by
  have hx0 := h.x_nonneg
  have hx := h.x_lt
  have hy := h.y_lt
  have hmod : (s.screenX terminal).tmod 8 = s.screenX terminal % 8 :=
    Int.tmod_eq_emod_of_nonneg hx0
  unfold tab
  dsimp only
  rw [hmod]
  split_ifs with hstop hroom hroom
  · have hcells : cursorCell s terminal + (8 - s.screenX terminal % 8).toNat ≤ lastCell := by
      unfold cursorCell numCols lastCell
      omega
    rw [putSpaces_cell h hcells]
    omega
  · unfold numCols at hroom
    omega
  · unfold numCols at hroom
    omega
  · rfl

end Cursor

/-! ## Typed characters are plain -/

theorem lookedChar_plain {k : Flags} {scancode : UInt8} (hkey : scancode ≠ enterKey) :
    lookedChar k scancode ≠ newline ∧ lookedChar k scancode ≠ carriageReturn ∧
      lookedChar k scancode ≠ tabulator := by
  refine ⟨fun h => hkey (lookedChar_newline h), ?_, ?_⟩
  · intro h
    have htable : ∀ i < 80, ¬ (keyboardUS.getD i 0 = carriageReturn ∨
        keyboardUSShift.getD i 0 = carriageReturn) := by
      decide +kernel
    obtain ⟨hlt, hcode⟩ := lookedChar_mem h (by decide)
    exact htable _ hlt hcode
  · intro h
    have htable : ∀ i < 80, keyboardUS.getD i 0 = tabulator ∨
        keyboardUSShift.getD i 0 = tabulator → i = 15 := by
      decide +kernel
    obtain ⟨hlt, hcode⟩ := lookedChar_mem h (by decide)
    have htab : scancode = tabKey := UInt8.toNat_inj.mp (htable _ hlt hcode)
    rw [htab, lookedChar_tab] at h
    exact absurd h (by decide)

/-- What a key other than Enter types is put on the screen as a plain character. -/
theorem putc_returnChar {k : Flags} {scancode : UInt8} (hkey : scancode ≠ enterKey)
    (s : Console) (terminal : Nat) :
    putc s (returnChar k scancode) terminal = putPlain s (returnChar k scancode) terminal := by
  obtain ⟨hnewline, hreturn, htab⟩ := @lookedChar_plain k scancode hkey
  unfold returnChar
  split_ifs
  · rfl
  · rfl
  · rw [putc, if_neg (not_or.mpr ⟨hnewline, hreturn⟩), if_neg htab]

/-! ## The keys of one line -/

/-- A key that is none of Enter, Ctrl+L and the Alt+Fn chords, and does not scroll the screen. -/
structure LineKey (s : Terminals) (scancode : UInt8) : Prop where
  chord : chord (newFlags s.flags scancode) = none
  enter : scancode ≠ enterKey
  clear : clearsScreen (newFlags s.flags scancode) scancode = false
  scroll : TypesChar (newFlags s.flags scancode) scancode →
    cursorCell s.console s.activeTerminal ≠ lastCell

instance (s : Terminals) (scancode : UInt8) : Decidable (LineKey s scancode) :=
  decidable_of_iff (Terminal.chord (newFlags s.flags scancode) = none ∧ scancode ≠ enterKey ∧
      clearsScreen (newFlags s.flags scancode) scancode = false ∧
      (TypesChar (newFlags s.flags scancode) scancode →
        cursorCell s.console s.activeTerminal ≠ lastCell))
    ⟨fun h => ⟨h.1, h.2.1, h.2.2.1, h.2.2.2⟩, fun h => ⟨h.1, h.2, h.3, h.4⟩⟩

/-- The handler on the keys of one line; a key of another kind ends the sequence. -/
def lineStep (s : Terminals) (scancode : UInt8) : Option Terminals :=
  if LineKey s scancode then some (keyboardHandler s scancode) else none

/-- The cursor has moved from the cell `start` by as many cells as the line has characters, these
cells show them, and Backspace erases exactly while the cursor is past `start`. -/
structure Echoes (start : Int) (s : Terminals) : Prop where
  advance : cursorCell s.console s.activeTerminal = start + s.keyboardBufferIdx s.activeTerminal
  shown : ∀ i < s.keyboardBufferIdx s.activeTerminal,
    cellAt s.console.video s.activeTerminal (start + i) =
      (s.keyboardBuffer (bufferAt s.activeTerminal i), attrib)
  erases : 0 < s.keyboardBufferIdx s.activeTerminal ↔
    start < cursorCell s.console s.activeTerminal

/-- The key is not a Tab that moves the cursor, and types no character into a full buffer. -/
def EchoSafe (s : Terminals) (scancode : UInt8) : Prop :=
  LineKey s scancode →
    ¬ (scancode = tabKey ∧ s.console.screenX s.activeTerminal < 72) ∧
      ¬ (TypesChar (newFlags s.flags scancode) scancode ∧
        bufferSize ≤ s.keyboardBufferIdx s.activeTerminal)

instance (s : Terminals) (scancode : UInt8) : Decidable (EchoSafe s scancode) :=
  inferInstanceAs (Decidable (LineKey s scancode → _ ∧ _))

theorem Echoes.of_advance {start : Int} {s : Terminals}
    (hadvance : cursorCell s.console s.activeTerminal =
      start + s.keyboardBufferIdx s.activeTerminal)
    (hshown : ∀ i < s.keyboardBufferIdx s.activeTerminal,
      cellAt s.console.video s.activeTerminal (start + i) =
        (s.keyboardBuffer (bufferAt s.activeTerminal i), attrib)) : Echoes start s :=
  ⟨hadvance, hshown, by omega⟩

section Steps

variable {start : Int} {s : Terminals} {scancode : UInt8}

/-- Backspace keeps the echo: it takes the last character and its cell. -/
theorem Echoes.eraseLast (h : Echoes start s) (hscreen : OnScreen s.console s.activeTerminal)
    (hstart : 0 ≤ start) : Echoes start (eraseLast s) := by
  by_cases hpos : 0 < s.keyboardBufferIdx s.activeTerminal
  · have hadvance := h.advance
    obtain ⟨hcursor, hcells⟩ := backspace_cell hscreen (by omega)
    rw [eraseLast_of_pos hpos]
    refine Echoes.of_advance ?_ ?_
    · dsimp only
      rw [Function.update_self, hcursor, hadvance]
      omega
    · dsimp only
      intro i hi
      rw [Function.update_self] at hi
      rw [hcells, if_neg (by omega), h.shown i (by omega), Function.update_of_ne]
      unfold bufferAt
      omega
  · rw [eraseLast_of_not_pos hpos]
    exact h

/-- A character that is stored keeps the echo. -/
theorem Echoes.typeChar (h : Echoes start s) (hscreen : OnScreen s.console s.activeTerminal)
    (hlast : cursorCell s.console s.activeTerminal ≠ lastCell) {c : UInt8}
    (hplain : putc s.console c s.activeTerminal = putPlain s.console c s.activeTerminal)
    (hroom : s.keyboardBufferIdx s.activeTerminal < bufferSize) :
    Echoes start (typeChar s c) := by
  have hadvance := h.advance
  obtain ⟨hcursor, hcells⟩ := putPlain_cell hscreen hlast c
  rw [typeChar_of_room hroom, hplain]
  refine Echoes.of_advance ?_ ?_
  · dsimp only
    rw [Function.update_self, hcursor, hadvance]
    omega
  · dsimp only
    intro i hi
    rw [Function.update_self] at hi
    rw [hcells]
    rcases Nat.lt_succ_iff_lt_or_eq.mp hi with hlt | rfl
    · rw [if_neg (by omega), h.shown i hlt, Function.update_of_ne]
      unfold bufferAt
      omega
    · rw [if_pos (by omega), Function.update_self]

/-- A character that is only printed breaks it. -/
theorem not_echoes_full (h : Echoes start s) (hscreen : OnScreen s.console s.activeTerminal)
    (hlast : cursorCell s.console s.activeTerminal ≠ lastCell) {c : UInt8}
    (hplain : putc s.console c s.activeTerminal = putPlain s.console c s.activeTerminal)
    (hfull : ¬ s.keyboardBufferIdx s.activeTerminal < bufferSize) :
    ¬ Echoes start (Terminal.typeChar s c) := by
  have hadvance := h.advance
  have hcursor := (putPlain_cell hscreen hlast c).1
  rw [typeChar_of_full hfull, hplain]
  intro h'
  have hadvance' := h'.advance
  dsimp only at hadvance'
  omega

theorem Echoes.flagKey (h : Echoes start s) (scancode : UInt8) : Echoes start (flagKey s scancode) :=
  ⟨h.advance, h.shown, h.erases⟩

/-- A tabulator breaks the echo exactly when it moves the cursor. -/
theorem echoes_tab_iff (h : Echoes start s) (hscreen : OnScreen s.console s.activeTerminal) :
    Echoes start { flagKey s tabKey with console := tab s.console s.activeTerminal } ↔
      ¬ s.console.screenX s.activeTerminal < 72 := by
  have hadvance := h.advance
  have hmoves := tab_cell hscreen
  by_cases hroom : s.console.screenX s.activeTerminal < 72
  · rw [if_pos hroom] at hmoves
    refine iff_of_false ?_ (not_not.mpr hroom)
    intro h'
    have hadvance' : cursorCell (tab s.console s.activeTerminal) s.activeTerminal =
        start + s.keyboardBufferIdx s.activeTerminal := h'.advance
    omega
  · rw [if_neg hroom] at hmoves
    rw [hmoves]
    exact iff_of_true (h.flagKey tabKey) hroom

/-- **One key.** From a line that is echoed, a key leads to one exactly when it is safe. -/
theorem echoes_step_iff (h : Echoes start s) (hscreen : OnScreen s.console s.activeTerminal)
    (hstart : 0 ≤ start) (hkey : LineKey s scancode) :
    Echoes start (keyboardHandler s scancode) ↔ EchoSafe s scancode := by
  have hflagged := h.flagKey scancode
  have hsafe : EchoSafe s scancode ↔
      ¬ (scancode = tabKey ∧ s.console.screenX s.activeTerminal < 72) ∧
        ¬ (TypesChar (newFlags s.flags scancode) scancode ∧
          bufferSize ≤ s.keyboardBufferIdx s.activeTerminal) :=
    ⟨fun h => h hkey, fun h _ => h⟩
  rw [hsafe]
  by_cases hback : scancode = backspaceKey
  · subst hback
    rw [keyboardHandler_backspace hkey.chord]
    refine iff_of_true (hflagged.eraseLast hscreen hstart) ⟨?_, ?_⟩
    · exact fun htab => absurd htab.1 (by decide)
    · exact fun htypes => not_typesChar_backspace _ htypes.1
  by_cases htab : scancode = tabKey
  · subst htab
    rw [keyboardHandler_tab hkey.chord, echoes_tab_iff h hscreen]
    constructor
    · intro hend
      exact ⟨fun hmoves => hend hmoves.2, fun htypes => not_typesChar_tab _ htypes.1⟩
    · rintro ⟨hend, -⟩ hmoves
      exact hend ⟨rfl, hmoves⟩
  by_cases htypes : TypesChar (newFlags s.flags scancode) scancode
  · have hplain := @putc_returnChar (newFlags s.flags scancode) scancode hkey.enter s.console
      s.activeTerminal
    have hlast := hkey.scroll htypes
    rw [keyboardHandler_types htypes]
    by_cases hroom : s.keyboardBufferIdx s.activeTerminal < bufferSize
    · refine iff_of_true (hflagged.typeChar hscreen hlast hplain hroom) ⟨?_, ?_⟩
      · exact fun hmoves => htab hmoves.1
      · exact fun hfull => absurd hfull.2 (by omega)
    · refine iff_of_false (not_echoes_full hflagged hscreen hlast hplain hroom) ?_
      exact fun hnot => hnot.2 ⟨htypes, by omega⟩
  · rw [keyboardHandler_idle hkey.chord hback htab hkey.clear htypes]
    exact iff_of_true hflagged ⟨fun hmoves => htab hmoves.1, fun hfull => htypes hfull.1⟩

/-- A key of the line leaves its cursor on the screen. -/
theorem LineKey.onScreen (hkey : LineKey s scancode)
    (hscreen : OnScreen s.console s.activeTerminal) :
    OnScreen (keyboardHandler s scancode).console (keyboardHandler s scancode).activeTerminal := by
  have hsame : (Terminal.chord (newFlags s.flags scancode)).getD s.activeTerminal =
      s.activeTerminal := by
    rw [hkey.chord]
    rfl
  rw [keyboardHandler_activeTerminal, hsame]
  exact (keyboardHandler_prints hscreen hsame).onScreen

end Steps

/-! ## Every sequence of keys -/

/-- **The echo.** From every state with an empty line, along every sequence of keys of one line:
after each key the screen shows the line from the cell where the cursor was, and the cursor stands
behind it, exactly when no Tab moves the cursor and no character is typed into a full buffer. -/
theorem echo_matches_iff (s : Terminals) (hscreen : OnScreen s.console s.activeTerminal)
    (hempty : s.keyboardBufferIdx s.activeTerminal = 0) (scancodes : List UInt8) :
    Along lineStep (Reaches lineStep (Echoes (cursorCell s.console s.activeTerminal))) s scancodes ↔
      Along lineStep EchoSafe s scancodes := by
  have hstart := (cursorCell_range hscreen).1
  have hfirst : Echoes (cursorCell s.console s.activeTerminal) s := by
    refine Echoes.of_advance ?_ ?_
    · omega
    · intro i hi
      omega
  refine along_reaches_iff (A := fun s => OnScreen s.console s.activeTerminal) ?_ ?_ hfirst hscreen
  · intro s e s' hechoes hon hsafe hstep
    unfold lineStep at hstep
    split_ifs at hstep with hkey
    cases hstep
    exact ⟨(echoes_step_iff hechoes hon hstart hkey).mpr hsafe, hkey.onScreen hon⟩
  · intro s e hechoes hon hreaches hkey
    have hnext := hreaches (keyboardHandler s e) (if_pos hkey)
    exact (echoes_step_iff hechoes hon hstart hkey).mp hnext hkey

/-- The letter `a` and Backspace, on the empty first line. -/
theorem echo_matches_letter :
    Along lineStep (Reaches lineStep (Echoes 0)) (startSystem 0 blankConsole 0).terminals
      [30, backspaceKey] :=
  (echo_matches_iff (startSystem 0 blankConsole 0).terminals
    ⟨by decide, by decide, by decide, by decide⟩ rfl [30, backspaceKey]).mpr (by decide)

/-- Tab on the empty first line: the cursor moves, and no character is stored. -/
theorem tab_breaks_echo :
    LineKey (startSystem 0 blankConsole 0).terminals tabKey ∧
      ¬ Along lineStep (Reaches lineStep
          (Echoes (cursorCell (startSystem 0 blankConsole 0).terminals.console 0)))
        (startSystem 0 blankConsole 0).terminals [tabKey] := by
  have hkey : LineKey (startSystem 0 blankConsole 0).terminals tabKey := by decide
  refine ⟨hkey, ?_⟩
  intro h
  have hadvance := (h.1 _ (if_pos hkey)).advance
  exact absurd hadvance (by decide)

/-! ## Typing and erasing again -/

/-- The entry of the key in the table without Shift is a printable character. -/
def IsPrintableKey (scancode : UInt8) : Prop :=
  32 ≤ keyboardUS.getD scancode.toNat 0 ∧ keyboardUS.getD scancode.toNat 0 ≤ 126

instance (scancode : UInt8) : Decidable (IsPrintableKey scancode) :=
  inferInstanceAs (Decidable (_ ∧ _))

/-- Neither Ctrl nor Alt is held. -/
structure NoneHeld (k : Flags) : Prop where
  ctrl : k.ctrlStatus = 0
  alt : k.altStatus = 0

/-- `s'` is `s` but for `n` blank cells from the cursor on. -/
structure TypedAway (t n : Nat) (s s' : Terminals) : Prop where
  flags : s'.flags = s.flags
  active : s'.activeTerminal = s.activeTerminal
  column : s'.console.screenX t = s.console.screenX t
  row : s'.console.screenY t = s.console.screenY t
  index : s'.keyboardBufferIdx t = s.keyboardBufferIdx t
  line : ∀ i < s.keyboardBufferIdx t,
    s'.keyboardBuffer (bufferAt t i) = s.keyboardBuffer (bufferAt t i)
  blank : ∀ i, cursorCell s.console t ≤ i → i < cursorCell s.console t + n →
    cellAt s'.console.video t i = (space, attrib)
  kept : ∀ i, i < cursorCell s.console t ∨ cursorCell s.console t + n ≤ i →
    cellAt s'.console.video t i = cellAt s.console.video t i

section Printable

variable {s : Terminals} {k : Flags} {scancode : UInt8}

theorem NoneHeld.chord (h : NoneHeld k) : chord k = none := by
  have halt := h.alt
  unfold Terminal.chord
  rw [if_neg (fun hc => hc.1 halt), if_neg (fun hc => hc.1 halt), if_neg (fun hc => hc.1 halt)]

/-- A press of a key that is no modifier leaves the flags. -/
theorem newFlags_eq_self (hpress : isPress scancode = true)
    (hkey : scancode ∉ [lshift, rshift, ctrl, alt, f1, f2, f3, capslock]) :
    newFlags k scancode = k := by
  simp only [List.mem_cons, List.not_mem_nil, or_false, not_or] at hkey
  obtain ⟨hlshift, hrshift, hctrl, halt, hf1, hf2, hf3, hcaps⟩ := hkey
  simp only [newFlags, hpress, if_true, pressed, if_neg hctrl, if_neg halt, if_neg hf1, if_neg hf2,
    if_neg hf3, if_neg hcaps, if_neg (not_or.mpr ⟨hlshift, hrshift⟩)]

theorem flagKey_eq_self (hpress : isPress scancode = true)
    (hkey : scancode ∉ [lshift, rshift, ctrl, alt, f1, f2, f3, capslock])
    (henter : scancode ≠ enterKey) : flagKey s scancode = s := by
  unfold flagKey
  rw [newFlags_eq_self hpress hkey, if_neg henter]

/-- A printable key is a character key and none of the others. -/
theorem IsPrintableKey.plain (h : IsPrintableKey scancode) :
    isPress scancode = true ∧ IsCharacterKey scancode ∧
      scancode ∉ [lshift, rshift, ctrl, alt, f1, f2, f3, capslock] ∧
      scancode ∉ [esc, tabKey, enterKey] := by
  have hall : ∀ c, IsPrintableKey c → isPress c = true ∧ IsCharacterKey c ∧
      c ∉ [lshift, rshift, ctrl, alt, f1, f2, f3, capslock] ∧ c ∉ [esc, tabKey, enterKey] := by
    apply Word.forall_byte
    decide +kernel
  exact hall scancode h

theorem IsPrintableKey.ne_enter (h : IsPrintableKey scancode) : scancode ≠ enterKey := by
  rintro rfl
  exact absurd h (by decide)

theorem keyboardHandler_printable (h : IsPrintableKey scancode) (hheld : NoneHeld s.flags) :
    keyboardHandler s scancode = typeChar s (returnChar s.flags scancode) := by
  obtain ⟨hpress, hchar, hmodifier, hother⟩ := h.plain
  simp only [List.mem_cons, List.not_mem_nil, or_false, not_or] at hother
  obtain ⟨hesc, htab, henter⟩ := hother
  have hflags : newFlags s.flags scancode = s.flags := newFlags_eq_self hpress hmodifier
  have htypes : TypesChar (newFlags s.flags scancode) scancode := by
    rw [hflags]
    exact (typesChar_iff hheld.chord).mpr ⟨hpress, hchar, hesc, htab, hheld.ctrl⟩
  rw [keyboardHandler_types htypes, hflags, flagKey_eq_self hpress hmodifier henter]

theorem keyboardHandler_erases (hheld : NoneHeld s.flags) :
    keyboardHandler s backspaceKey = eraseLast s := by
  have hflags : newFlags s.flags backspaceKey = s.flags :=
    newFlags_eq_self (by decide) (by decide)
  rw [keyboardHandler_backspace (by rw [hflags]; exact hheld.chord),
    flagKey_eq_self (by decide) (by decide) (by decide)]

/-- **One character, and Backspace after the others.** What is typed and erased between the two
is between them on the screen and in the buffer. -/
theorem TypedAway.step {t n : Nat} {s₂ : Terminals} {c : UInt8}
    (hactive : s.activeTerminal = t)
    (hscreen : OnScreen s.console t) (hlast : cursorCell s.console t ≠ lastCell)
    (hroom : s.keyboardBufferIdx t < bufferSize)
    (hplain : putc s.console c t = putPlain s.console c t)
    (h : TypedAway t n (typeChar s c) s₂) : TypedAway t (n + 1) s (eraseLast s₂) := by
  subst hactive
  have hstart := (cursorCell_range hscreen).1
  obtain ⟨hcursor, hcells⟩ := putPlain_cell hscreen hlast c
  obtain ⟨hflags, hactive₂, hcolumn, hrow, hindex, hline, hblank, hkept⟩ := h
  rw [typeChar_of_room hroom, hplain] at hflags hactive₂ hcolumn hrow hindex hline hblank hkept
  dsimp only at hflags hactive₂ hcolumn hrow hindex hline hblank hkept
  rw [Function.update_self] at hindex hline
  rw [hcursor] at hblank hkept
  -- the cursor of `s₂` is behind the character
  have hscreen' := (putPlain_prints hscreen c).onScreen
  have hscreen₂ : OnScreen s₂.console s.activeTerminal := hscreen'.of_cursor_eq hcolumn hrow
  have hcursor₂ : cursorCell s₂.console s.activeTerminal =
      cursorCell s.console s.activeTerminal + 1 := by
    rw [← hcursor, cursorCell, hcolumn, hrow]
    rfl
  obtain ⟨hback, hbackCells⟩ := backspace_cell hscreen₂ (by omega)
  rw [hcursor₂, Int.add_sub_cancel] at hback hbackCells
  obtain ⟨hx, hy⟩ := cursor_eq_of_cell hscreen (backspace_prints hscreen₂).onScreen hback
  rw [eraseLast_of_pos (by rw [hactive₂]; omega), hactive₂]
  refine ⟨hflags, rfl, hx, hy, ?_, ?_, ?_, ?_⟩
  · dsimp only
    rw [Function.update_self, hindex]
    omega
  · dsimp only
    intro i hi
    have hne : bufferAt s.activeTerminal i ≠
        bufferAt s.activeTerminal (s₂.keyboardBufferIdx s.activeTerminal) := by
      unfold bufferAt
      omega
    have hne' : bufferAt s.activeTerminal i ≠
        bufferAt s.activeTerminal (s.keyboardBufferIdx s.activeTerminal) := by
      unfold bufferAt
      omega
    rw [Function.update_of_ne hne, hline i (by omega), Function.update_of_ne hne']
  · dsimp only
    intro i hlow hhigh
    rw [hbackCells]
    split_ifs with hfirst
    · rfl
    · exact hblank i (by omega) (by omega)
  · dsimp only
    intro i hout
    rw [hbackCells, if_neg (by omega), hkept i (by omega), hcells, if_neg (by omega)]

/-- **Typing and erasing.** Printable keys that are pressed with neither Ctrl nor Alt held, and as
many Backspaces, leave the cursor, the index and the line as they were and blank cells; the line
has room for the characters, and the screen has before its last cell. -/
theorem type_then_erase (s : Terminals) (t : Nat) (w : List UInt8) (hactive : s.activeTerminal = t)
    (hscreen : OnScreen s.console t) (hheld : NoneHeld s.flags)
    (hkeys : ∀ scancode ∈ w, IsPrintableKey scancode)
    (hroom : s.keyboardBufferIdx t + w.length ≤ 127)
    (hcells : 80 * s.console.screenY t + s.console.screenX t + w.length ≤ 1999) :
    TypedAway t w.length s
      ((w ++ List.replicate w.length backspaceKey).foldl keyboardHandler s) := by
  induction w generalizing s with
  | nil =>
    refine ⟨rfl, rfl, rfl, rfl, rfl, fun _ _ => rfl, ?_, fun _ _ => rfl⟩
    intro i hlow hhigh
    rw [List.length_nil] at hhigh
    omega
  | cons scancode w ih =>
    obtain ⟨hkey, hrest⟩ := List.forall_mem_cons.mp hkeys
    rw [List.length_cons] at hroom hcells
    have hlast : cursorCell s.console t ≠ lastCell := by
      unfold cursorCell numCols lastCell
      omega
    have hfits : s.keyboardBufferIdx t < bufferSize := by
      unfold bufferSize
      omega
    have hplain := @putc_returnChar s.flags scancode hkey.ne_enter s.console t
    have hcursor := (putPlain_cell hscreen hlast (returnChar s.flags scancode)).1
    -- the rest is typed and erased from the state behind the first character
    have hmiddle : TypedAway t w.length (typeChar s (returnChar s.flags scancode))
        ((w ++ List.replicate w.length backspaceKey).foldl keyboardHandler
          (typeChar s (returnChar s.flags scancode))) := by
      subst hactive
      rw [typeChar_of_room hfits, hplain]
      refine ih _ rfl (putPlain_prints hscreen _).onScreen hheld hrest ?_ ?_
      · dsimp only
        rw [Function.update_self]
        omega
      · unfold cursorCell numCols at hcursor
        dsimp only
        omega
    have hflags : (typeChar s (returnChar s.flags scancode)).flags = s.flags := by
      rw [← keyboardHandler_printable hkey hheld, keyboardHandler_flags]
      exact newFlags_eq_self hkey.plain.1 hkey.plain.2.2.1
    rw [List.length_cons, List.replicate_succ', List.cons_append, List.foldl_cons,
      ← List.append_assoc, List.foldl_append, keyboardHandler_printable hkey hheld]
    rw [List.foldl_cons, List.foldl_nil, keyboardHandler_erases]
    · exact hmiddle.step hactive hscreen hlast hfits hplain
    · rw [hmiddle.flags, hflags]
      exact hheld

end Printable

/-- The cursor two cells before the end of the first row. -/
def nearMargin : Terminals :=
  { (startSystem 0 blankConsole 0).terminals with
    console := { blankConsole with screenX := Function.update blankConsole.screenX 0 78 } }

theorem type_then_erase_margin :
    TypedAway 0 3 nearMargin
      ([30, 48, 30, backspaceKey, backspaceKey, backspaceKey].foldl keyboardHandler nearMargin) :=
  type_then_erase nearMargin 0 [30, 48, 30] rfl ⟨by decide, by decide, by decide, by decide⟩
    ⟨rfl, rfl⟩ (by simp [IsPrintableKey, keyboardUS]) (by decide) (by decide)

end LinuxBasedOS.Terminal
