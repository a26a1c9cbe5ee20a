import LinuxBasedOS.Terminal.Echo
import LinuxBasedOS.Terminal.Scrolling

/-!
# Printing text

A printed character is to go to the cell of the cursor, and the cursor to the next cell in reading
order, with the screen scrolled up when there is none. `putc` does so for every cell but the last:
there it scrolls and returns, and the character is on no screen.

`prints_all_iff` says which texts are printed whole, for every cursor: those that end before the
last cell.
-/

namespace LinuxBasedOS.Terminal

open Lib

/-! ## What printing is to leave -/

def IsPrintable (c : UInt8) : Prop := 32 ≤ c ∧ c ≤ 126

instance (c : UInt8) : Decidable (IsPrintable c) := inferInstanceAs (Decidable (_ ∧ _))

/-- How often the screen has to scroll until the cell is on it; the cells are counted in reading
order from the first, beyond the last as well. -/
def scrollsFor (cell : Int) : Int := if cell ≤ lastCell then 0 else (cell - 1920) / numCols

/-- The text is on the screen from the cursor of `s` on, moved up with the rows that have scrolled,
and the cursor of `s'` is on the cell after it. -/
structure Shows (s s' : Console) (terminal : Nat) (text : List UInt8) : Prop where
  column : s'.screenX terminal = (cursorCell s terminal + text.length -
    numCols * scrollsFor (cursorCell s terminal + text.length)) % numCols
  row : s'.screenY terminal = (cursorCell s terminal + text.length -
    numCols * scrollsFor (cursorCell s terminal + text.length)) / numCols
  cells : ∀ (i : Nat) (c : UInt8), text[i]? = some c →
    0 ≤ cursorCell s terminal + i - numCols * scrollsFor (cursorCell s terminal + text.length) →
      cellAt s'.video terminal (cursorCell s terminal + i -
        numCols * scrollsFor (cursorCell s terminal + text.length)) = (c, attrib)

/-- From every console with the cursor there, and after each byte of the text, `terminal_write` and
`puts` have put what was printed on the screen. -/
def PrintsAll (terminal : Nat) (x y : Int) (text : List UInt8) : Prop :=
  ∀ s : Terminals, s.console.screenX terminal = x → s.console.screenY terminal = y →
    ∀ n ≤ text.length,
      (∀ buf : Nat → UInt8, (∀ i < n, text[i]? = some (buf i)) →
        Shows s.console (terminalWrite s terminal (some buf) n).2.console terminal (text.take n)) ∧
      ∀ rest : List UInt8,
        Shows s.console (puts s.console (text.take n ++ 0 :: rest) terminal).2 terminal
          (text.take n)

/-! ## Both go through putc -/

theorem IsPrintable.ne_zero {c : UInt8} (h : IsPrintable c) : c ≠ 0 := by
  rintro rfl
  exact absurd h (by decide)

theorem putc_printable {c : UInt8} (h : IsPrintable c) (s : Console) (terminal : Nat) :
    putc s c terminal = putPlain s c terminal := by
  have hline : ¬ (c = newline ∨ c = carriageReturn) := by
    rintro (rfl | rfl)
    · exact absurd h (by decide)
    · exact absurd h (by decide)
  have htab : c ≠ tabulator := by
    rintro rfl
    exact absurd h (by decide)
  rw [putc, if_neg hline, if_neg htab]

/-- The console after the text, character by character. -/
def printText (s : Console) (terminal : Nat) (text : List UInt8) : Console :=
  text.foldl (fun s c => putPlain s c terminal) s

section Text

variable {s : Console} {terminal : Nat} {text : List UInt8}

theorem foldl_putc_printable (h : ∀ c ∈ text, IsPrintable c) (s : Console) :
    text.foldl (fun s c => putc s c terminal) s = printText s terminal text := by
  unfold printText
  refine List.foldl_ext _ _ _ ?_
  intro s c hc
  exact putc_printable (h c hc) s terminal

theorem puts_printable (h : ∀ c ∈ text, IsPrintable c) (rest : List UInt8) :
    (puts s (text ++ 0 :: rest) terminal).2 = printText s terminal text := by
  have hbytes : (text ++ 0 :: rest).takeWhile (· ≠ 0) = text := by
    have hall : ∀ c ∈ text, decide (c ≠ 0) = true :=
      fun c hc => decide_eq_true (h c hc).ne_zero
    rw [List.takeWhile_append_of_pos hall, List.takeWhile_cons_of_neg (by decide), List.append_nil]
  unfold puts
  dsimp only
  rw [hbytes]
  exact foldl_putc_printable h s

theorem terminalWrite_printable (h : ∀ c ∈ text, IsPrintable c) (s : Terminals) {n : Nat}
    {buf : Nat → UInt8} (hn : n ≤ text.length) (hbuf : ∀ i < n, text[i]? = some (buf i)) :
    (terminalWrite s terminal (some buf) n).2.console =
      printText s.console terminal (text.take n) := by
  have htake : ∀ c ∈ text.take n, IsPrintable c := fun c hc => h c (List.mem_of_mem_take hc)
  have hbytes : (List.range n).map buf = text.take n := by
    refine List.ext_getElem ?_ ?_
    · rw [List.length_map, List.length_range, List.length_take, Nat.min_eq_left hn]
    · intro i hi hi'
      rw [List.length_map, List.length_range] at hi
      rw [List.getElem_map, List.getElem_range, List.getElem_take]
      exact (Option.some.inj ((List.getElem?_eq_getElem (by omega)).symm.trans (hbuf i hi))).symm
  have hwritten : writtenBytes (some buf) n = text.take n := by
    unfold writtenBytes
    dsimp only
    rw [if_neg (by omega), Int.toNat_natCast, hbytes, List.filter_eq_self]
    intro c hc
    exact bne_iff_ne.mpr (htake c hc).ne_zero
  rw [terminalWrite_console, hwritten]
  exact foldl_putc_printable htake s.console

/-! ## Text that ends before the last cell -/

/-- A plain character changes the cell of the cursor and no other, of any terminal. -/
theorem cellAt_putPlain_inside (h : OnScreen s terminal)
    (hlast : cursorCell s terminal ≠ lastCell) (c : UInt8) (u : Nat) (i : Int) :
    cellAt (putPlain s c terminal).video u i =
      if cellOffset u i = cellOffset terminal (cursorCell s terminal) then (c, attrib)
      else cellAt s.video u i := by
  unfold putPlain
  dsimp only
  rw [if_neg (mt (corner_iff h).mp hlast)]
  exact cellAt_setCell _ _ _ _ _ _

/-- The console after a text that ends before the last cell. -/
structure Printed (s s' : Console) (terminal : Nat) (text : List UInt8) : Prop where
  onScreen : OnScreen s' terminal
  cursor : cursorCell s' terminal = cursorCell s terminal + text.length
  cells : ∀ (i : Nat) (c : UInt8), text[i]? = some c →
    cellAt s'.video terminal (cursorCell s terminal + i) = (c, attrib)
  others : ∀ u i, (∀ k < text.length,
    cellOffset u i ≠ cellOffset terminal (cursorCell s terminal + (k : Nat))) →
      cellAt s'.video u i = cellAt s.video u i

theorem printText_printed (h : OnScreen s terminal)
    (hroom : cursorCell s terminal + text.length ≤ lastCell) :
    Printed s (printText s terminal text) terminal text := by
  induction text generalizing s with
  | nil =>
    refine ⟨h, (Int.add_zero _).symm, ?_, fun _ _ _ => rfl⟩
    intro i c hc
    cases hc
  | cons c text ih =>
    rw [List.length_cons] at hroom
    have hlast : cursorCell s terminal ≠ lastCell := by omega
    have hcursor := (putPlain_cell h hlast c).1
    have hcell := cellAt_putPlain_inside h hlast c
    have hscreen := (putPlain_prints h c).onScreen
    obtain ⟨hon, hend, hcells, hothers⟩ := ih hscreen (by omega)
    rw [hcursor] at hend hcells hothers
    refine ⟨hon, ?_, ?_, ?_⟩
    · rw [List.length_cons]
      refine hend.trans ?_
      omega
    · intro i c' hc'
      cases i with
      | zero =>
        obtain rfl : c = c' := Option.some.inj hc'
        refine (hothers terminal _ ?_).trans ?_
        · intro k _
          unfold cellOffset
          omega
        · rw [hcell, if_pos (by rw [Int.natCast_zero, Int.add_zero])]
      | succ i =>
        have hnext := hcells i c' hc'
        rw [Int.add_assoc, Int.add_comm 1, ← Int.natCast_succ] at hnext
        exact hnext
    · intro u i hne
      have hfirst := hne 0 (Nat.succ_pos _)
      rw [Int.natCast_zero, Int.add_zero] at hfirst
      refine (hothers u i ?_).trans ?_
      · intro k hk
        have hlater := hne (k + 1) (Nat.succ_lt_succ hk)
        rw [Int.add_assoc, Int.add_comm 1, ← Int.natCast_succ]
        exact hlater
      · rw [hcell, if_neg hfirst]

/-- On the screen the column and the row are the remainder and the quotient of the cell. -/
theorem cursor_of_cell (h : OnScreen s terminal) :
    s.screenX terminal = cursorCell s terminal % numCols ∧
      s.screenY terminal = cursorCell s terminal / numCols := by
  have hx0 := h.x_nonneg
  have hx := h.x_lt
  unfold cursorCell numCols
  omega

theorem Printed.shows {s' : Console} (h : Printed s s' terminal text)
    (hroom : cursorCell s terminal + text.length ≤ lastCell) : Shows s s' terminal text := by
  have hnone : scrollsFor (cursorCell s terminal + text.length) = 0 := if_pos hroom
  obtain ⟨hx, hy⟩ := cursor_of_cell h.onScreen
  refine ⟨?_, ?_, ?_⟩
  · rw [hnone, Int.mul_zero, Int.sub_zero, ← h.cursor]
    exact hx
  · rw [hnone, Int.mul_zero, Int.sub_zero, ← h.cursor]
    exact hy
  · intro i c hc _
    rw [hnone, Int.mul_zero, Int.sub_zero]
    exact h.cells i c hc

/-! ## The last cell -/

/-- A console whose cells are all empty, with its cursors at one place. -/
def emptyConsole (x y : Int) : Console where
  screenX := fun _ => x
  screenY := fun _ => y
  video := fun _ => 0
  position := 0

/-- A text that ends on the last cell of an empty screen loses its last character. -/
theorem not_shows_last {x y : Int} (h : OnScreen (emptyConsole x y) terminal) {c : UInt8}
    (hlast : cursorCell (emptyConsole x y) terminal + text.length = lastCell) (hc : c ≠ 0) :
    ¬ Shows (emptyConsole x y) (printText (emptyConsole x y) terminal (text ++ [c])) terminal
      (text ++ [c]) := by
  have hprinted := printText_printed h (Int.le_of_eq hlast)
  have hcorner := (corner_iff hprinted.onScreen).mpr (hprinted.cursor.trans hlast)
  have hscrolled : printText (emptyConsole x y) terminal (text ++ [c]) =
      scrollUp (printText (emptyConsole x y) terminal text) terminal := by
    unfold printText
    rw [List.foldl_append, List.foldl_cons, List.foldl_nil]
    exact if_pos hcorner
  have hcount : scrollsFor (cursorCell (emptyConsole x y) terminal + (text ++ [c]).length) = 1 := by
    rw [List.length_append, List.length_singleton]
    unfold lastCell at hlast
    unfold scrollsFor lastCell numCols
    rw [if_neg (by omega)]
    omega
  -- the cell that is scrolled to the place of the character was never written
  have hempty : cellAt (printText (emptyConsole x y) terminal text).video 0 lastCell = (0, 0) := by
    refine hprinted.others 0 lastCell ?_
    intro k hk
    have hstart := (cursorCell_range h).1
    unfold lastCell at hlast
    unfold cellOffset lastCell
    omega
  intro hshows
  have hcell := hshows.cells text.length c List.getElem?_concat_length
  rw [hcount, hlast, hscrolled, Int.mul_one,
    cellAt_scrolled _ _ (by decide) (by decide), if_pos (by decide)] at hcell
  have hkept := (hcell (by decide)).symm.trans hempty
  exact hc (Prod.mk.inj hkept).1

end Text

/-- **Printing.** For every terminal, every cursor on the screen and every text of printable
characters: from all contents of the video memory `terminal_write` and `puts` put every character
of the text on the screen and the cursor behind it, exactly when the text ends before the last
cell. -/
theorem prints_all_iff (terminal : Nat) {x y : Int} (hx : 0 ≤ x ∧ x < 80) (hy : 0 ≤ y ∧ y < 25)
    {text : List UInt8} (hprintable : ∀ c ∈ text, IsPrintable c) :
    PrintsAll terminal x y text ↔ 80 * y + x + text.length ≤ 1999 := by
  constructor
  · intro hall
    by_contra hlong
    -- the part of the text that ends on the last cell
    obtain ⟨n, hn⟩ : ∃ n : Nat, 80 * y + x + n = 1999 := ⟨(1999 - (80 * y + x)).toNat, by omega⟩
    have hlt : n < text.length := by omega
    have hscreen : OnScreen (emptyConsole x y) terminal := ⟨hx.1, hx.2, hy.1, hy.2⟩
    have hshows := ((hall { (startSystem 0 blankConsole 0).terminals with
      console := emptyConsole x y } rfl rfl (n + 1) hlt).2 [])
    rw [puts_printable fun c hc => hprintable c (List.mem_of_mem_take hc),
      ← List.take_append_getElem hlt] at hshows
    refine not_shows_last hscreen ?_ (hprintable _ (List.getElem_mem hlt)).ne_zero hshows
    rw [List.length_take, Nat.min_eq_left (Nat.le_of_lt hlt)]
    exact hn
  · intro hroom s hsx hsy n hn
    have hscreen : OnScreen s.console terminal := by
      refine ⟨?_, ?_, ?_, ?_⟩
      all_goals omega
    have hlength : (text.take n).length = n := List.length_take_of_le hn
    have hend : cursorCell s.console terminal + (text.take n).length ≤ lastCell := by
      rw [hlength, cursorCell, hsx, hsy]
      unfold numCols lastCell
      omega
    have hshows := (printText_printed hscreen hend).shows hend
    constructor
    · intro buf hbuf
      rw [terminalWrite_printable hprintable s hn hbuf]
      exact hshows
    · intro rest
      rw [puts_printable fun c hc => hprintable c (List.mem_of_mem_take hc)]
      exact hshows

/-- Two letters over the end of the first row. -/
theorem prints_all_wrapped : PrintsAll 1 79 0 [97, 98] :=
  (prints_all_iff 1 (by decide) (by decide) (by simp [IsPrintable])).mpr (by decide)

/-- A letter in the last cell of the screen. -/
theorem prints_none_in_corner :
    ¬ PrintsAll 0 79 24 [97] ∧
      cellAt (putc (emptyConsole 79 24) 97 0).video 0 1919 = (0, 0) := by
  have hcorner : putc (emptyConsole 79 24) 97 0 = scrollUp (emptyConsole 79 24) 0 := rfl
  have hcell : cellAt (putc (emptyConsole 79 24) 97 0).video 0 1919 = (0, 0) := by
    rw [hcorner, cellAt_scrolled _ _ (by decide) (by decide)]
    rfl
  refine ⟨?_, hcell⟩
  intro hall
  have hshows := (hall { (startSystem 0 blankConsole 0).terminals with
    console := emptyConsole 79 24 } rfl rfl 1 (Nat.le_refl 1)).2 []
  have hletter := hshows.cells 0 97 rfl (by decide)
  exact absurd (hletter.symm.trans hcell) (by decide)

end LinuxBasedOS.Terminal
