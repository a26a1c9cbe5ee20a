import LinuxBasedOS.Terminal.Confinement

/-!
# Scrolling

`scroll_up` copies the cells of a screen one row up, cell after cell, and blanks the last row. The
destination of a copy is computed from the terminal, the source is not: it is always on the page
of terminal 0. On terminal 0 source and destination overlap, and the copy runs in the direction in
which that does no harm; on the others the screen becomes the screen of terminal 0.

`scrolls_own_iff` says that only terminal 0 scrolls its own text, for all contents of the video
memory.
-/

namespace LinuxBasedOS.Terminal

open Lib

/-! ## The copying loop -/

/-- One turn puts the cell `i` of terminal 0 one row higher on the terminal. -/
theorem cellAt_scrollCell (video : Int → UInt8) (terminal u : Nat) (i j : Int) :
    cellAt (scrollCell terminal video i) u j =
      if cellOffset u j = cellOffset terminal (i - numCols) then cellAt video 0 i
      else cellAt video u j := by
  have hsource : cellOffset 0 i = i * 2 := by
    unfold cellOffset
    omega
  unfold scrollCell
  dsimp only
  rw [← hsource]
  unfold cellAt
  split_ifs with hcell
  · rw [hcell, Function.update_of_ne (cellOffset_ne_succ terminal terminal _ _),
      Function.update_self, Function.update_self,
      Function.update_of_ne (cellOffset_ne_succ terminal 0 _ _).symm]
  · rw [Function.update_of_ne (cellOffset_ne_succ u terminal j _), Function.update_of_ne hcell,
      Function.update_of_ne (by omega),
      Function.update_of_ne (cellOffset_ne_succ terminal u _ j).symm]

/-- The loop over the cells from `i` on: a cell it has come to is the one below it on terminal 0,
the others stay. -/
theorem cellAt_lifted (terminal : Nat) {n : Nat} (video : Int → UInt8) {i j : Int}
    (hi : numCols ≤ i) (hend : i + n ≤ 2000) (hj0 : 0 ≤ j) (hj : j < 2000) :
    cellAt (overCells (scrollCell terminal) video i n) terminal j =
      if i - numCols ≤ j ∧ j < i - numCols + n then cellAt video 0 (j + numCols)
      else cellAt video terminal j := by
  have hcols : numCols = 80 := rfl
  induction n generalizing video i with
  | zero => exact (if_neg (by omega)).symm
  | succ n ih =>
    rw [overCells, ih _ (by omega) (by omega)]
    -- the turn writes above every cell that the later turns read
    have hread : i < j + numCols → cellAt (scrollCell terminal video i) 0 (j + numCols) =
        cellAt video 0 (j + numCols) := by
      intro hlater
      rw [cellAt_scrollCell, if_neg]
      unfold cellOffset
      omega
    have hwrite : cellAt (scrollCell terminal video i) terminal j =
        if j = i - numCols then cellAt video 0 i else cellAt video terminal j := by
      rw [cellAt_scrollCell]
      refine if_congr ?_ rfl rfl
      unfold cellOffset
      omega
    by_cases hlater : i + 1 - numCols ≤ j ∧ j < i + 1 - numCols + n
    · rw [if_pos hlater, if_pos (by omega), hread (by omega)]
    · rw [if_neg hlater, hwrite]
      by_cases hnow : j = i - numCols
      · rw [if_pos hnow, if_pos (by omega), hnow, Int.sub_add_cancel]
      · rw [if_neg hnow, if_neg (by omega)]

/-- The screen of the terminal after `scroll_up`: the rows of terminal 0 from the second on, and a
blank row. -/
theorem cellAt_scrolled (s : Console) (terminal : Nat) {j : Int} (hj0 : 0 ≤ j) (hj : j < 2000) :
    cellAt (scrollUp s terminal).video terminal j =
      if j < 1920 then cellAt s.video 0 (j + numCols) else (space, attrib) := by
  have hcols : numCols = 80 := rfl
  unfold scrollUp updateCursorPosition
  dsimp only
  rw [cellAt_overCells]
  by_cases hlast : 1920 ≤ j
  · rw [if_pos ⟨hlast, by omega⟩, if_neg (by omega)]
  · rw [if_neg (by omega), cellAt_lifted terminal s.video (by omega) (by omega) hj0 hj,
      if_pos (by omega), if_pos (by omega)]

/-! ## Own text -/

/-- The rows of the terminal move up by one, the last is blank, and what is on the screens of the
other terminals does not matter. -/
structure ScrollsOwn (s : Console) (terminal : Nat) : Prop where
  shifted : ∀ r x, 0 ≤ r → r < 24 → 0 ≤ x → x < numCols →
    cellAt (scrollUp s terminal).video terminal (numCols * r + x) =
      cellAt s.video terminal (numCols * (r + 1) + x)
  blank : ∀ x, 0 ≤ x → x < numCols →
    cellAt (scrollUp s terminal).video terminal (numCols * 24 + x) = (space, attrib)
  independent : ∀ s' : Console,
    (∀ i, 0 ≤ i → i < 2000 → cellAt s'.video terminal i = cellAt s.video terminal i) →
      ∀ i, 0 ≤ i → i < 2000 →
        cellAt (scrollUp s' terminal).video terminal i = cellAt (scrollUp s terminal).video terminal i

theorem scrollsOwn_zero (s : Console) : ScrollsOwn s 0 := by
  have hcols : numCols = 80 := rfl
  refine ⟨?_, ?_, ?_⟩
  · intro r x hr0 hr hx0 hx
    rw [hcols] at hx ⊢
    rw [cellAt_scrolled s 0 (by omega) (by omega), if_pos (by omega), hcols]
    congr 1
    omega
  · intro x hx0 hx
    rw [hcols] at hx ⊢
    rw [cellAt_scrolled s 0 (by omega) (by omega), if_neg (by omega)]
  · intro s' hsame i hi0 hi
    rw [cellAt_scrolled s' 0 hi0 hi, cellAt_scrolled s 0 hi0 hi]
    split_ifs with hlast
    · exact hsame _ (by omega) (by omega)
    · rfl

/-- The console with another character in the first cell of the second row of terminal 0. -/
def touched (s : Console) : Console :=
  { s with
    video := setCell s.video 0 numCols (if (cellAt s.video 0 numCols).1 = 0 then 1 else 0) }

/-- The first cell of a terminal after scrolling is the one that was touched. -/
theorem scrollUp_touched_ne (s : Console) (terminal : Nat) :
    cellAt (scrollUp (touched s) terminal).video terminal 0 ≠
      cellAt (scrollUp s terminal).video terminal 0 := by
  rw [cellAt_scrolled _ _ (Int.le_refl 0) (by decide),
    cellAt_scrolled _ _ (Int.le_refl 0) (by decide), if_pos (by decide), if_pos (by decide),
    Int.zero_add, touched]
  dsimp only
  rw [cellAt_setCell, if_pos rfl]
  intro heq
  have hchar := congrArg Prod.fst heq
  dsimp only at hchar
  split_ifs at hchar with hzero
  · rw [hzero] at hchar
    exact absurd hchar (by decide)
  · exact hzero hchar.symm

/-- **Scrolling.** For all contents of the video memory, a terminal scrolls its own text exactly
when it is terminal 0. -/
theorem scrolls_own_iff (s : Console) (terminal : Nat) : ScrollsOwn s terminal ↔ terminal = 0 := by
  constructor
  · intro h
    by_contra hne
    have hsame : ∀ i, 0 ≤ i → i < 2000 →
        cellAt (touched s).video terminal i = cellAt s.video terminal i := by
      intro i hi0 hi
      rw [touched]
      dsimp only
      rw [cellAt_setCell, if_neg]
      unfold cellOffset numCols
      omega
    exact scrollUp_touched_ne s terminal
      (h.independent (touched s) hsame 0 (Int.le_refl 0) (by decide))
  · rintro rfl
    exact scrollsOwn_zero s

/-- A blank video memory but for the letter `A` at the start of the second row of terminal 0. -/
def letterConsole : Console := homeConsole (setCell (fun _ => space) 0 numCols 65) 0

/-- Scrolling terminal 1, which is blank, brings the letter on its screen. -/
theorem scroll_copies_other :
    cellAt letterConsole.video 1 numCols = (space, space) ∧
      cellAt (scrollUp letterConsole 1).video 1 0 = (65, attrib) ∧
      ¬ ScrollsOwn letterConsole 1 := by
  have hbefore : cellAt letterConsole.video 1 numCols = (space, space) := by decide
  have hafter : cellAt (scrollUp letterConsole 1).video 1 0 = (65, attrib) := by
    rw [cellAt_scrolled _ _ (Int.le_refl 0) (by decide)]
    decide
  refine ⟨hbefore, hafter, ?_⟩
  intro h
  have hrow := h.shifted 0 0 (by decide) (by decide) (by decide) (by decide)
  rw [Int.mul_zero, Int.zero_add, Int.zero_add, Int.mul_one, Int.add_zero, hafter, hbefore] at hrow
  exact absurd hrow (by decide)

end LinuxBasedOS.Terminal
