import LinuxBasedOS.Base.Paging
import LinuxBasedOS.Terminal.Output

/-!
# The terminal of a console call

A routine of the console is told the terminal, and is meant to leave the others alone. `putc`,
`tab` and `scroll_up` do: what they store is in cells of their terminal, as long as its cursor is
on the screen. `clear` blanks the cells of its terminal, but sends the cursor of the active one to
the corner. `terminal_open` and `vidmap` call it for the terminal of the calling process.

`confined_iff` says for every state, with the cursors anywhere, which calls keep to their terminal.
`output_confined` runs the calls from cursors in the corner: all but `clear` do.

`vidmap` also stores through a pointer of the program, behind the translation of addresses, and
faults where that has no page.
-/

namespace LinuxBasedOS.Terminal

open Lib Transition Paging

/-! ## vidmap -/

def usrLowBound : Nat := 0x08000000

/-- `USR_LOW_BOUND + FOURMB`. -/
def upperBound : Nat := usrLowBound + 0x00400000

def vidMemAddr : Nat := 0x000B8000

def usrVidMapAddr : Nat := 0x20000000

/-- The terminals, with the page table through which programs see the screen, the page directory
and the tables as they are with such a table, and the physical memory. -/
structure UserVideo extends Terminals where
  pageTableUserVideo : Nat → Nat
  maps : (Nat → Nat) → Maps
  memory : Nat → UInt8

/-- Where the stores of the kernel go. -/
def UserVideo.stores (s : UserVideo) : Nat → Option Nat :=
  translate (s.maps s.pageTableUserVideo) { user := false, write := true }

/-- The four bytes of a word, the lowest first. -/
def wordBytes (w : Nat) : List UInt8 :=
  (List.range 4).map fun i => UInt8.ofNat (w / 256 ^ i)

/-- `vidmap` up to the store of its answer. -/
def openScreen (s : UserVideo) (pcbTerminal : Nat) : UserVideo :=
  { s with
    pageTableUserVideo := Function.update s.pageTableUserVideo 0 (vidMemAddr ||| 0x07)
    console := clear s.console s.activeTerminal pcbTerminal }

/-- `vidmap`, for a caller on `pcbTerminal`. It has no value when the store of the answer faults: it
does not return then. -/
def vidmap (s : UserVideo) (pcbTerminal screenStart : Nat) : Option Int × UserVideo :=
  if screenStart = 0 then (some (-1), s)
  else if screenStart < usrLowBound ∨ upperBound < screenStart then (some (-1), s)
  else
    let opened := openScreen s pcbTerminal
    match storeWhole opened.stores opened.memory screenStart (wordBytes usrVidMapAddr) with
    | some memory => (some 0, { opened with memory := memory })
    | none => (none, opened)

/-- The pointers that `vidmap` does not take. -/
def Refused (screenStart : Nat) : Prop :=
  screenStart < usrLowBound ∨ upperBound < screenStart

instance (screenStart : Nat) : Decidable (Refused screenStart) :=
  inferInstanceAs (Decidable (_ ∨ _))

theorem vidmap_of_refused {screenStart : Nat} (h : Refused screenStart) (s : UserVideo)
    (pcbTerminal : Nat) : vidmap s pcbTerminal screenStart = (some (-1), s) := by
  unfold vidmap
  split_ifs with hnull hbounds
  · rfl
  · rfl
  · exact absurd h hbounds

/-- A pointer that is taken: the screen is opened, and then the answer is stored or faults. -/
theorem vidmap_of_taken {screenStart : Nat} (h : ¬ Refused screenStart) (s : UserVideo)
    (pcbTerminal : Nat) :
    vidmap s pcbTerminal screenStart =
      match storeWhole (openScreen s pcbTerminal).stores s.memory screenStart
        (wordBytes usrVidMapAddr) with
      | some memory => (some 0, { openScreen s pcbTerminal with memory := memory })
      | none => (none, openScreen s pcbTerminal) := by
  have hnull : screenStart ≠ 0 := by
    rintro rfl
    exact h (by decide)
  unfold Refused at h
  unfold vidmap
  rw [if_neg hnull, if_neg h]
  rfl

theorem vidmap_console {screenStart : Nat} (h : ¬ Refused screenStart) (s : UserVideo)
    (pcbTerminal : Nat) :
    (vidmap s pcbTerminal screenStart).2.console = clear s.console s.activeTerminal pcbTerminal := by
  rw [vidmap_of_taken h]
  split <;> rfl

theorem vidmap_pageTableUserVideo (s : UserVideo) (pcbTerminal screenStart : Nat) :
    (vidmap s pcbTerminal screenStart).2.pageTableUserVideo =
      if Refused screenStart then s.pageTableUserVideo
      else Function.update s.pageTableUserVideo 0 (vidMemAddr ||| 0x07) := by
  split_ifs with hrefused
  · rw [vidmap_of_refused hrefused]
  · rw [vidmap_of_taken hrefused]
    split <;> rfl

/-- The page of the program is in memory. -/
def UserPageMapped (s : UserVideo) : Prop :=
  ∀ vaddr, usrLowBound ≤ vaddr → vaddr < upperBound → (s.stores vaddr).isSome

/-- A pointer with four bytes in the page of the program. -/
theorem vidmap_of_mapped {s : UserVideo} {pcbTerminal screenStart : Nat}
    (h : UserPageMapped (openScreen s pcbTerminal)) (hlow : usrLowBound ≤ screenStart)
    (hhigh : screenStart + 4 ≤ upperBound) :
    vidmap s pcbTerminal screenStart =
      (some 0, { openScreen s pcbTerminal with
        memory := storeAll (openScreen s pcbTerminal).stores s.memory screenStart
          (wordBytes usrVidMapAddr) }) := by
  have htaken : ¬ Refused screenStart := by
    unfold Refused
    omega
  have hmapped : ∀ i < (wordBytes usrVidMapAddr).length,
      ((openScreen s pcbTerminal).stores (screenStart + i)).isSome := by
    intro i hi
    have hfour : (wordBytes usrVidMapAddr).length = 4 := rfl
    exact h _ (by omega) (by omega)
  rw [vidmap_of_taken htaken, storeWhole_of_mapped hmapped]

/-- What a program sees on its screen: the page of the video memory that the first entry of its
table names. -/
def userScreen (s : UserVideo) (a : Nat) : UInt8 :=
  s.console.video (((s.pageTableUserVideo 0 / 4096 * 4096 : Nat) : Int) - vidMemAddr + a)

/-! ## Cells and cursors -/

/-- A cell of a terminal: its character and its attribute. -/
def cellAt (video : Int → UInt8) (terminal : Nat) (i : Int) : UInt8 × UInt8 :=
  (video (cellOffset terminal i), video (cellOffset terminal i + 1))

def cursorOf (s : Console) (terminal : Nat) : Int × Int :=
  (s.screenX terminal, s.screenY terminal)

/-- The 2000 cells and the cursor of every terminal but one stay. -/
structure KeepsOthers (s s' : Console) (terminal : Nat) : Prop where
  cells : ∀ u < 3, u ≠ terminal → ∀ i, 0 ≤ i → i < 2000 →
    cellAt s'.video u i = cellAt s.video u i
  cursors : ∀ u < 3, u ≠ terminal → cursorOf s' u = cursorOf s u

/-- The terminal is blank and its cursor is in the corner. -/
structure Blank (s : Console) (terminal : Nat) : Prop where
  cells : ∀ i, 0 ≤ i → i < 2000 → cellAt s.video terminal i = (space, attrib)
  cursor : cursorOf s terminal = (0, 0)

inductive TerminalCall where
  | putc (c : UInt8) (terminal : Fin 3)
  | tab (terminal : Fin 3)
  | scrollUp (terminal : Fin 3)
  | clear (terminal : Fin 3)
  | terminalOpen (pcbTerminal : Fin 3)
  | vidmap (pcbTerminal : Fin 3) (screenStart : Nat)

/-- What a call may do to the terminals. The calls of a background process leave the cursor of the
displayed terminal. -/
def Confined (s : UserVideo) : TerminalCall → Prop
  | .putc c t => KeepsOthers s.console (Lib.putc s.console c t) t
  | .tab t => KeepsOthers s.console (Lib.tab s.console t) t
  | .scrollUp t => KeepsOthers s.console (Lib.scrollUp s.console t) t
  | .clear t => KeepsOthers s.console (Lib.clear s.console s.activeTerminal t) t ∧
      Blank (Lib.clear s.console s.activeTerminal t) t
  | .terminalOpen t => (t : Nat) ≠ s.activeTerminal →
      cursorOf (Terminal.terminalOpen s.toTerminals t).2.console s.activeTerminal =
        cursorOf s.console s.activeTerminal
  | .vidmap t screenStart => (t : Nat) ≠ s.activeTerminal →
      cursorOf (Terminal.vidmap s t screenStart).2.console s.activeTerminal =
        cursorOf s.console s.activeTerminal

/-! ## Where a character is put -/

/-- The cursor after a plain character. -/
def nextCursor (cursor : Int × Int) : Int × Int :=
  if cursor.1 = numCols - 1 ∧ cursor.2 = numRows - 1 then (0, numRows - 1)
  else ((cursor.1 + 1).tmod numCols, (cursor.2 + (cursor.1 + 1).tdiv numCols).tmod numRows)

/-- A plain character with this cursor on `terminal` is put in cell `i` of terminal `u`. In the
last cell of the screen nothing is put. -/
def PutIn (terminal : Nat) (cursor : Int × Int) (u : Nat) (i : Int) : Prop :=
  ¬ (cursor.1 = numCols - 1 ∧ cursor.2 = numRows - 1) ∧
    cellOffset u i = cellOffset terminal (numCols * cursor.2 + cursor.1)

/-- The character is not put in a cell of another terminal, unless it stands there already. -/
def PutSafe (s : Console) (terminal : Nat) (cursor : Int × Int) (c : UInt8) : Prop :=
  ∀ u < 3, u ≠ terminal → ∀ i, 0 ≤ i → i < 2000 → PutIn terminal cursor u i →
    cellAt s.video u i = (c, attrib)

def tabSize (x : Int) : Int := if 8 < numCols - x then 8 - x.tmod 8 else 0

/-- The same of the spaces of a tabulator, with the cursors they are put at. -/
def TabSafe (s : Console) (terminal : Nat) : Prop :=
  ∀ k < (tabSize (s.screenX terminal)).toNat,
    PutSafe s terminal (nextCursor^[k] (cursorOf s terminal)) space

/-- The states in which a call is confined. -/
def ConfinedWhen (s : UserVideo) : TerminalCall → Prop
  | .putc c t =>
    if c = newline ∨ c = carriageReturn then True
    else if c = tabulator then TabSafe s.console t
    else PutSafe s.console t (cursorOf s.console t) c
  | .tab t => TabSafe s.console t
  | .scrollUp _ => True
  | .clear t => (t : Nat) = s.activeTerminal ∨ cursorOf s.console t = (0, 0) ∧
      (s.activeTerminal < 3 → cursorOf s.console s.activeTerminal = (0, 0))
  | .terminalOpen t => (t : Nat) = s.activeTerminal ∨
      cursorOf s.console s.activeTerminal = (0, 0)
  | .vidmap t screenStart => Refused screenStart ∨ (t : Nat) = s.activeTerminal ∨
      cursorOf s.console s.activeTerminal = (0, 0)

/-! ## One store -/

section Cells

variable {s : Console} {terminal u : Nat} {i : Int}

/-- Characters are at even offsets, attributes at odd ones. -/
theorem cellOffset_ne_succ (t t' : Nat) (i i' : Int) : cellOffset t i ≠ cellOffset t' i' + 1 := by
  unfold cellOffset
  omega

theorem cellOffset_inj {i k : Int} : cellOffset terminal i = cellOffset terminal k ↔ i = k := by
  unfold cellOffset
  omega

theorem cellAt_setCell (video : Int → UInt8) (terminal u : Nat) (i k : Int) (c : UInt8) :
    cellAt (setCell video terminal k c) u i =
      if cellOffset u i = cellOffset terminal k then (c, attrib) else cellAt video u i := by
  unfold cellAt setCell
  split_ifs with hcell
  · rw [hcell, Function.update_of_ne (cellOffset_ne_succ terminal terminal k k),
      Function.update_self, Function.update_self]
  · rw [Function.update_of_ne (cellOffset_ne_succ u terminal i k), Function.update_of_ne hcell,
      Function.update_of_ne (by omega),
      Function.update_of_ne (cellOffset_ne_succ terminal u k i).symm]

/-- A cell of the same terminal. -/
theorem cellAt_setCell_self (video : Int → UInt8) (terminal : Nat) (i k : Int) (c : UInt8) :
    cellAt (setCell video terminal k c) terminal i =
      if i = k then (c, attrib) else cellAt video terminal i :=
  (cellAt_setCell video terminal terminal i k c).trans (if_congr cellOffset_inj rfl rfl)

/-- The cells that a loop over cells blanks, and those that it leaves. -/
theorem cellAt_overCells (video : Int → UInt8) (terminal : Nat) (i k : Int) (n : Nat) :
    cellAt (overCells (fun video i => setCell video terminal i space) video k n) terminal i =
      if k ≤ i ∧ i < k + n then (space, attrib) else cellAt video terminal i := by
  induction n generalizing video k with
  | zero => exact (if_neg (by omega)).symm
  | succ n ih =>
    rw [overCells, ih, cellAt_setCell_self]
    split_ifs
    all_goals first | rfl | omega

/-- Stores in the page of one terminal leave the cells of the others. -/
theorem cellAt_apply {stores : List (Int × UInt8)} (video : Int → UInt8)
    (h : ∀ store ∈ stores, InPage terminal store) (hu : u ≠ terminal) (hi0 : 0 ≤ i)
    (hi : i < 2000) : cellAt (Stores.apply video stores) u i = cellAt video u i := by
  have hkept : ∀ addr, 8192 * (u : Int) ≤ addr → addr < 8192 * (u : Int) + 4000 →
      Stores.apply video stores addr = video addr := by
    intro addr hlow hhigh
    refine Stores.apply_of_forall_ne ?_
    rintro store hstore rfl
    have hpage := h store hstore
    unfold InPage at hpage
    omega
  unfold cellAt cellOffset
  rw [hkept _ (by omega) (by omega), hkept _ (by omega) (by omega)]

theorem cellAt_scrollUp (s : Console) (hu : u ≠ terminal) (hi0 : 0 ≤ i) (hi : i < 2000) :
    cellAt (scrollUp s terminal).video u i = cellAt s.video u i := by
  rw [scrollUp_video]
  exact cellAt_apply s.video scrollUpStores_inPage hu hi0 hi

theorem cursorOf_scrollUp (s : Console) (hu : u ≠ terminal) :
    cursorOf (scrollUp s terminal) u = cursorOf s u := by
  obtain ⟨hx, hy⟩ := (scrollUp_prints s terminal).others u hu
  rw [cursorOf, hx, hy]
  rfl

/-- A plain character on one terminal, seen from another. -/
theorem cellAt_putPlain (s : Console) (c : UInt8) (hu : u ≠ terminal) (hi0 : 0 ≤ i) (hi : i < 2000) :
    (PutIn terminal (cursorOf s terminal) u i →
      cellAt (putPlain s c terminal).video u i = (c, attrib)) ∧
    (¬ PutIn terminal (cursorOf s terminal) u i →
      cellAt (putPlain s c terminal).video u i = cellAt s.video u i) := by
  unfold PutIn cursorOf putPlain
  dsimp only
  split_ifs with hcorner
  · exact ⟨fun hput => absurd hcorner hput.1, fun _ => cellAt_scrollUp s hu hi0 hi⟩
  · constructor
    · intro hput
      exact (cellAt_setCell _ _ _ _ _ _).trans (if_pos hput.2)
    · intro hput
      exact (cellAt_setCell _ _ _ _ _ _).trans (if_neg fun hcell => hput ⟨hcorner, hcell⟩)

theorem cursorOf_putPlain (s : Console) (c : UInt8) (terminal : Nat) :
    cursorOf (putPlain s c terminal) terminal = nextCursor (cursorOf s terminal) := by
  unfold nextCursor cursorOf putPlain
  dsimp only
  split_ifs with hcorner
  · simp [scrollUp, updateCursorPosition]
  · simp [updateCursorPosition]

theorem cursorOf_putPlain_other (s : Console) (c : UInt8) (hu : u ≠ terminal) :
    cursorOf (putPlain s c terminal) u = cursorOf s u := by
  unfold putPlain
  dsimp only
  split_ifs with hcorner
  · exact cursorOf_scrollUp s hu
  · simp [cursorOf, updateCursorPosition, hu]

theorem cursorOf_putSpaces_other (s : Console) (n : Nat) (hu : u ≠ terminal) :
    cursorOf (putSpaces s terminal n) u = cursorOf s u := by
  induction n generalizing s with
  | zero => rfl
  | succ n ih => exact (ih _).trans (cursorOf_putPlain_other s space hu)

/-- Spaces that are put one after the other leave a cell of another terminal exactly when it was
blank already, or none of them was put in it. -/
theorem cellAt_putSpaces_iff (s : Console) (n : Nat) (hu : u ≠ terminal) (hi0 : 0 ≤ i)
    (hi : i < 2000) :
    cellAt (putSpaces s terminal n).video u i = cellAt s.video u i ↔
      ∀ k < n, PutIn terminal (nextCursor^[k] (cursorOf s terminal)) u i →
        cellAt s.video u i = (space, attrib) := by
  induction n generalizing s with
  | zero =>
    refine ⟨?_, fun _ => rfl⟩
    intro _ k hk
    omega
  | succ n ih =>
    obtain ⟨hput, hkept⟩ := cellAt_putPlain s space hu hi0 hi
    have hrest := ih (putPlain s space terminal)
    rw [cursorOf_putPlain] at hrest
    rw [putSpaces]
    by_cases hfirst : PutIn terminal (cursorOf s terminal) u i
    · -- once blank, the cell stays blank
      have hblank := hput hfirst
      rw [hblank] at hrest
      rw [hrest.mpr fun _ _ _ => rfl]
      constructor
      · intro hcell k _ _
        exact hcell.symm
      · intro hall
        exact (hall 0 (by omega) hfirst).symm
    · rw [hkept hfirst] at hrest
      rw [hrest]
      constructor
      · intro hall k hk hputk
        cases k with
        | zero => exact absurd hputk hfirst
        | succ k => exact hall k (by omega) hputk
      · intro hall k hk hputk
        exact hall (k + 1) (by omega) hputk

end Cells

/-! ## The calls -/

section Calls

variable (s : Console) (terminal : Nat)

theorem scrollUp_keepsOthers : KeepsOthers s (scrollUp s terminal) terminal where
  cells _ _ hu _ hi0 hi := cellAt_scrollUp s hu hi0 hi
  cursors _ _ hu := cursorOf_scrollUp s hu

theorem putPlain_keepsOthers_iff (c : UInt8) :
    KeepsOthers s (putPlain s c terminal) terminal ↔
      PutSafe s terminal (cursorOf s terminal) c := by
  constructor
  · intro h u hu3 hu i hi0 hi hput
    rw [← h.cells u hu3 hu i hi0 hi]
    exact (cellAt_putPlain s c hu hi0 hi).1 hput
  · intro h
    refine ⟨?_, fun u _ hu => cursorOf_putPlain_other s c hu⟩
    intro u hu3 hu i hi0 hi
    obtain ⟨hput, hkept⟩ := cellAt_putPlain s c hu hi0 hi
    by_cases hcell : PutIn terminal (cursorOf s terminal) u i
    · rw [hput hcell, h u hu3 hu i hi0 hi hcell]
    · exact hkept hcell

theorem tab_keepsOthers_iff : KeepsOthers s (tab s terminal) terminal ↔ TabSafe s terminal := by
  constructor
  · intro h k hk u hu3 hu i hi0 hi hput
    exact (cellAt_putSpaces_iff s _ hu hi0 hi).mp (h.cells u hu3 hu i hi0 hi) k hk hput
  · intro h
    refine ⟨?_, fun u _ hu => cursorOf_putSpaces_other s _ hu⟩
    intro u hu3 hu i hi0 hi
    refine (cellAt_putSpaces_iff s _ hu hi0 hi).mpr ?_
    intro k hk hput
    exact h k hk u hu3 hu i hi0 hi hput

theorem newline_keepsOthers {c : UInt8} (h : c = newline ∨ c = carriageReturn) :
    KeepsOthers s (putc s c terminal) terminal := by
  unfold putc
  rw [if_pos h]
  split_ifs
  · exact scrollUp_keepsOthers s terminal
  · refine ⟨fun _ _ _ _ _ _ => rfl, ?_⟩
    intro u _ hu
    simp [cursorOf, updateCursorPosition, hu]

theorem cursorOf_clear (activeTerminal u : Nat) :
    cursorOf (clear s activeTerminal terminal) u =
      if u = activeTerminal then (0, 0) else cursorOf s u := by
  unfold cursorOf clear updateCursorPosition
  dsimp only
  split_ifs with hu
  · rw [hu, Function.update_self, Function.update_self]
  · rw [Function.update_of_ne hu, Function.update_of_ne hu]

theorem cellAt_clear (activeTerminal : Nat) {i : Int} (hi0 : 0 ≤ i) (hi : i < 2000) :
    cellAt (clear s activeTerminal terminal).video terminal i = (space, attrib) := by
  unfold clear updateCursorPosition
  dsimp only
  rw [cellAt_overCells, if_pos ⟨hi0, by omega⟩]

/-- `clear` does all it should but for the cursors. -/
theorem clear_confined_iff (activeTerminal : Nat) :
    KeepsOthers s (clear s activeTerminal terminal) terminal ∧
        Blank (clear s activeTerminal terminal) terminal ↔
      terminal = activeTerminal ∨ cursorOf s terminal = (0, 0) ∧
        (activeTerminal < 3 → cursorOf s activeTerminal = (0, 0)) := by
  constructor
  · rintro ⟨hothers, hblank⟩
    by_cases hactive : terminal = activeTerminal
    · exact Or.inl hactive
    · refine Or.inr ⟨?_, ?_⟩
      · have hcursor := hblank.cursor
        rw [cursorOf_clear, if_neg hactive] at hcursor
        exact hcursor
      · intro hlt
        have hcursor := hothers.cursors activeTerminal hlt (Ne.symm hactive)
        rw [cursorOf_clear, if_pos rfl] at hcursor
        exact hcursor.symm
  · intro h
    refine ⟨⟨?_, ?_⟩, ?_, ?_⟩
    · intro u _ hu i hi0 hi
      rw [clear_video]
      exact cellAt_apply s.video clearStores_inPage hu hi0 hi
    · intro u hu3 hu
      rw [cursorOf_clear]
      split_ifs with hactive
      · rcases h with hterminal | ⟨-, hcursor⟩
        · exact absurd (hactive.trans hterminal.symm) hu
        · rw [hactive] at hu3 ⊢
          exact (hcursor hu3).symm
      · rfl
    · intro i hi0 hi
      exact cellAt_clear s terminal activeTerminal hi0 hi
    · rw [cursorOf_clear]
      split_ifs with hactive
      · rfl
      · exact (h.resolve_left hactive).1

/-- The first page of the video memory after a `clear`: it is that of terminal 0. -/
theorem clear_firstPage (activeTerminal : Nat) {a : Nat} (ha : a < 4096) :
    (clear s activeTerminal terminal).video a =
      if terminal = 0 ∧ a < 4000 then (if a % 2 = 0 then space else attrib) else s.video a := by
  by_cases hcell : terminal = 0 ∧ a < 4000
  · obtain ⟨rfl, hlt⟩ := hcell
    have hcells := cellAt_clear s 0 activeTerminal (i := (a / 2 : Nat)) (by omega) (by omega)
    obtain ⟨hchar, hattrib⟩ := Prod.mk.inj hcells
    have hoffset : cellOffset 0 (a / 2 : Nat) = (a / 2 * 2 : Nat) := by
      unfold cellOffset
      omega
    rw [hoffset] at hchar hattrib
    rw [if_pos ⟨rfl, hlt⟩]
    split_ifs with heven
    · rw [← hchar]
      exact congrArg (clear s activeTerminal 0).video (by omega)
    · rw [← hattrib]
      exact congrArg (clear s activeTerminal 0).video (by omega)
  · rw [if_neg hcell, clear_video]
    refine Stores.apply_of_forall_ne ?_
    intro store hstore heq
    have hpage := @clearStores_inPage s terminal store hstore
    unfold InPage at hpage
    omega

/-- The cursor of the displayed terminal after a process on `terminal` has cleared its screen. -/
theorem clear_leaves_iff (activeTerminal : Nat) :
    (terminal ≠ activeTerminal →
        cursorOf (clear s activeTerminal terminal) activeTerminal = cursorOf s activeTerminal) ↔
      terminal = activeTerminal ∨ cursorOf s activeTerminal = (0, 0) := by
  rw [cursorOf_clear, if_pos rfl, or_iff_not_imp_left]
  constructor
  · intro h hne
    exact (h hne).symm
  · intro h hne
    exact (h hne).symm

end Calls

/-- What the program sees when its pointer has been taken: terminal 0, which is blank if it is the
terminal of the program. -/
theorem userScreen_vidmap {screenStart : Nat} (h : ¬ Refused screenStart) (s : UserVideo)
    (pcbTerminal : Nat) {a : Nat} (ha : a < 4096) :
    userScreen (vidmap s pcbTerminal screenStart).2 a =
      if pcbTerminal = 0 ∧ a < 4000 then (if a % 2 = 0 then space else attrib)
      else s.console.video a := by
  have hframe : (vidMemAddr ||| 0x07) / 4096 * 4096 = vidMemAddr := by decide
  unfold userScreen
  rw [vidmap_pageTableUserVideo, if_neg h, Function.update_self, hframe, sub_self, zero_add,
    vidmap_console h]
  exact clear_firstPage s.console pcbTerminal s.activeTerminal ha

/-- **Confinement.** For every state, every terminal and every active terminal, the calls that keep
to their terminal are those of `ConfinedWhen`. -/
theorem confined_iff (s : UserVideo) (call : TerminalCall) :
    Confined s call ↔ ConfinedWhen s call := by
  cases call with
  | putc c t =>
    unfold Confined ConfinedWhen
    dsimp only
    split_ifs with hline htab
    · exact iff_true_intro (newline_keepsOthers s.console t hline)
    · rw [putc, if_neg hline, if_pos htab]
      exact tab_keepsOthers_iff s.console t
    · rw [putc, if_neg hline, if_neg htab]
      exact putPlain_keepsOthers_iff s.console t c
  | tab t => exact tab_keepsOthers_iff s.console t
  | scrollUp t => exact iff_true_intro (scrollUp_keepsOthers s.console t)
  | clear t => exact clear_confined_iff s.console t s.activeTerminal
  | terminalOpen t => exact clear_leaves_iff s.console t s.activeTerminal
  | vidmap t screenStart =>
    by_cases hrefused : Refused screenStart
    · refine iff_of_true ?_ (Or.inl hrefused)
      intro _
      rw [vidmap_of_refused hrefused]
    · have hclear := clear_leaves_iff s.console t s.activeTerminal
      rw [← vidmap_console hrefused] at hclear
      exact hclear.trans (or_iff_right hrefused).symm

/-- One character is on the screen of terminal 0, which is displayed; the page of the first process
is in memory. -/
def typedOnce : UserVideo where
  flags := ⟨0, 0, 0, 0, 0, 0, 0⟩
  enterStatus := 0
  keyboardBuffer := fun _ => 0
  keyboardBufferIdx := fun _ => 0
  activeTerminal := 0
  console := Lib.putc (homeConsole (fun _ => space) 0) 97 0
  pageTableUserVideo := fun _ => 0
  maps := fun _ => { directory := fun i => if i = 32 then 0x00800087 else 0, table := fun _ _ => 0 }
  memory := fun _ => 0

/-- A process on terminal 1 that clears its screen moves the displayed cursor. -/
theorem clear_moves_displayed :
    cursorOf typedOnce.console 0 = (1, 0) ∧
      cursorOf (clear typedOnce.console typedOnce.activeTerminal 1) 0 = (0, 0) ∧
      ¬ Confined typedOnce (.clear 1) ∧ ¬ Confined typedOnce (.terminalOpen 1) ∧
      ¬ Confined typedOnce (.vidmap 1 usrLowBound) := by
  have hbefore : cursorOf typedOnce.console 0 = (1, 0) := by decide
  have hafter : cursorOf (clear typedOnce.console 0 1) 0 = (0, 0) := cursorOf_clear _ _ _ _
  have hmoved : cursorOf (clear typedOnce.console 0 1) 0 ≠ cursorOf typedOnce.console 0 := by
    rw [hbefore, hafter]
    decide
  refine ⟨hbefore, hafter, ?_, ?_, ?_⟩
  · rintro ⟨hothers, -⟩
    exact hmoved (hothers.cursors 0 (by decide) (by decide))
  · intro hleaves
    exact hmoved (hleaves (by decide))
  · intro hleaves
    have hcursor := hleaves (by decide)
    rw [vidmap_console (by decide)] at hcursor
    exact hmoved hcursor

/-! ## Runs -/

/-- With all cursors on the screen, a call that moves the cursor of its own terminal keeps to that
terminal. -/
theorem printed_keepsOthers {s : Terminals} (h : ∀ t, OnScreen s.console t) {call : ConsoleCall}
    (hcall : call.cursor s.activeTerminal = call.terminal s.activeTerminal) :
    KeepsOthers s.console (printed s call).console (call.terminal s.activeTerminal) := by
  refine ⟨?_, ?_⟩
  · intro u _ hu i hi0 hi
    rw [printed_stored]
    exact cellAt_apply s.console.video (callStores_inPage h call) hu hi0 hi
  · intro u _ hu
    obtain ⟨hx, hy⟩ := (printed_prints h call).others u (hcall ▸ hu)
    rw [cursorOf, hx, hy]
    rfl

/-- Whatever calls are made from cursors in the corner, all but `clear` on a terminal that is not
active keep to their terminal. -/
theorem output_confined (s : Terminals) (video : Int → UInt8) (position : Nat)
    (outputs : List Output) :
    Along outputStep
      (fun s output => output.2.cursor output.1 = output.2.terminal output.1 →
        KeepsOthers s.console (printed { s with activeTerminal := output.1 } output.2).console
          (output.2.terminal output.1))
      { s with console := homeConsole video position } outputs := by
  apply along_output
  intro s output h hcall
  exact @printed_keepsOthers { s with activeTerminal := output.1 } h output.2 hcall

end LinuxBasedOS.Terminal
