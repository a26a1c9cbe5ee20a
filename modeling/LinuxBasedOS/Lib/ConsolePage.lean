import LinuxBasedOS.Base.Stores
import LinuxBasedOS.Lib.Console

/-!
# Cursors and stores of the console

Two facts about every routine of the console. `Prints` says what it does to the cursors: that of
the terminal it prints on stays on the screen and is sent to the cursor registers, the others
stay. The stores of a routine are listed as the source makes them, and the video memory after it
is the one before with these stores; all of them are in the page of the terminal.
-/

namespace LinuxBasedOS.Lib

open Word

/-! ## Cursors -/

/-- The cursor of a terminal is on the screen. -/
structure OnScreen (s : Console) (terminal : Nat) : Prop where
  x_nonneg : 0 ≤ s.screenX terminal
  x_lt : s.screenX terminal < 80
  y_nonneg : 0 ≤ s.screenY terminal
  y_lt : s.screenY terminal < 25

/-- The position last sent to the cursor registers is that of the terminal. -/
def CursorShown (s : Console) (terminal : Nat) : Prop :=
  (s.position : Int) = s.screenY terminal * numCols + s.screenX terminal

/-- What printing on a terminal does to the cursors. A routine that does nothing sends nothing
to the cursor registers. -/
structure Prints (s s' : Console) (terminal : Nat) : Prop where
  others : ∀ u, u ≠ terminal → s'.screenX u = s.screenX u ∧ s'.screenY u = s.screenY u
  onScreen : OnScreen s' terminal
  shown : s' = s ∨ CursorShown s' terminal

theorem Prints.refl {s : Console} {terminal : Nat} (h : OnScreen s terminal) :
    Prints s s terminal :=
  ⟨fun _ _ => ⟨rfl, rfl⟩, h, Or.inl rfl⟩

theorem Prints.trans {s s' s'' : Console} {terminal : Nat} (h : Prints s s' terminal)
    (h' : Prints s' s'' terminal) : Prints s s'' terminal := by
  refine ⟨?_, h'.onScreen, ?_⟩
  · intro u hu
    obtain ⟨hx, hy⟩ := h.others u hu
    obtain ⟨hx', hy'⟩ := h'.others u hu
    exact ⟨hx'.trans hx, hy'.trans hy⟩
  · rcases h'.shown with heq | hshown
    · rw [heq]
      exact h.shown
    · exact Or.inr hshown

theorem Prints.cursorShown {s s' : Console} {t : Nat} (h : Prints s s' t) (hs : CursorShown s t) :
    CursorShown s' t := by
  rcases h.shown with heq | hshown
  · rw [heq]
    exact hs
  · exact hshown

/-- Printing leaves every cursor on the screen. -/
theorem Prints.onScreen_all {s s' : Console} {terminal : Nat} (h : Prints s s' terminal)
    (hs : ∀ u, OnScreen s u) (u : Nat) : OnScreen s' u := by
  by_cases hu : u = terminal
  · rw [hu]
    exact h.onScreen
  · obtain ⟨hx, hy⟩ := h.others u hu
    have hold := hs u
    exact ⟨hx ▸ hold.x_nonneg, hx ▸ hold.x_lt, hy ▸ hold.y_nonneg, hy ▸ hold.y_lt⟩

/-- Every routine ends alike: it gives the terminal a new cursor and sends it to the registers. -/
theorem prints_moved {s s' : Console} {terminal : Nat} {x y : Int} (hx0 : 0 ≤ x) (hx : x < 80)
    (hy0 : 0 ≤ y) (hy : y < 25) (hsx : s'.screenX = Function.update s.screenX terminal x)
    (hsy : s'.screenY = Function.update s.screenY terminal y) :
    Prints s (updateCursorPosition s' (s'.screenX terminal) (s'.screenY terminal)) terminal := by
  have hx' : s'.screenX terminal = x := by rw [hsx, Function.update_self]
  have hy' : s'.screenY terminal = y := by rw [hsy, Function.update_self]
  refine ⟨?_, ⟨?_, ?_, ?_, ?_⟩, Or.inr ?_⟩
  · intro u hu
    constructor
    · exact (congrFun hsx u).trans (Function.update_of_ne hu _ _)
    · exact (congrFun hsy u).trans (Function.update_of_ne hu _ _)
  · exact hx' ▸ hx0
  · exact hx' ▸ hx
  · exact hy' ▸ hy0
  · exact hy' ▸ hy
  · show ((u16 (u32 (s'.screenY terminal * numCols + s'.screenX terminal)) : Nat) : Int) = _
    rw [hx', hy']
    show _ = s'.screenY terminal * numCols + s'.screenX terminal
    rw [hx', hy']
    unfold u16 u32 numCols
    omega

theorem backspace_prints {s : Console} {activeTerminal : Nat} (h : OnScreen s activeTerminal) :
    Prints s (backspace s activeTerminal) activeTerminal := by
  have hx0 := h.x_nonneg
  have hx := h.x_lt
  have hy0 := h.y_nonneg
  have hy := h.y_lt
  unfold backspace
  dsimp only
  split_ifs with hhome hwrap
  · exact Prints.refl h
  · exact prints_moved (x := numCols - 1) (y := s.screenY activeTerminal - 1) (by decide) (by decide)
      (by omega) (by omega) rfl rfl
  · unfold numCols at hhome
    refine prints_moved (x := s.screenX activeTerminal - 1) (y := s.screenY activeTerminal)
      (by omega) (by omega) hy0 hy rfl ?_
    exact (Function.update_eq_self _ _).symm

theorem clear_prints (s : Console) (activeTerminal terminal : Nat) :
    Prints s (clear s activeTerminal terminal) activeTerminal :=
  prints_moved (x := 0) (y := 0) (by decide) (by decide) (by decide) (by decide) rfl rfl

theorem scrollUp_prints (s : Console) (terminal : Nat) :
    Prints s (scrollUp s terminal) terminal :=
  prints_moved (x := 0) (y := numRows - 1) (by decide) (by decide) (by decide) (by decide) rfl rfl

theorem OnScreen.of_cursor_eq {s s' : Console} {terminal : Nat} (h : OnScreen s terminal)
    (hx : s'.screenX terminal = s.screenX terminal)
    (hy : s'.screenY terminal = s.screenY terminal) : OnScreen s' terminal := by
  obtain ⟨hx0, hx1, hy0, hy1⟩ := h
  rw [← hx] at hx0 hx1
  rw [← hy] at hy0 hy1
  exact ⟨hx0, hx1, hy0, hy1⟩

/-- On the screen the remainders of C that carry the cursor over a line end are those of the
integers. -/
theorem OnScreen.carry {s : Console} {terminal : Nat} (h : OnScreen s terminal) :
    (s.screenX terminal + 1).tmod numCols = (s.screenX terminal + 1) % 80 ∧
      (s.screenY terminal + (s.screenX terminal + 1).tdiv numCols).tmod numRows =
        (s.screenY terminal + (s.screenX terminal + 1) / 80) % 25 := by
  have hx0 := h.x_nonneg
  have hy0 := h.y_nonneg
  have hdiv : (s.screenX terminal + 1).tdiv numCols = (s.screenX terminal + 1) / 80 :=
    Int.tdiv_eq_ediv_of_nonneg (by omega)
  rw [hdiv]
  exact ⟨Int.tmod_eq_emod_of_nonneg (by omega), Int.tmod_eq_emod_of_nonneg (by omega)⟩

theorem putPlain_prints {s : Console} {terminal : Nat} (h : OnScreen s terminal) (c : UInt8) :
    Prints s (putPlain s c terminal) terminal := by
  have hx0 := h.x_nonneg
  have hx := h.x_lt
  have hy0 := h.y_nonneg
  have hy := h.y_lt
  unfold putPlain
  dsimp only
  split_ifs with hcorner
  · exact scrollUp_prints s terminal
  · obtain ⟨hcolumn, hrow⟩ := h.carry
    refine prints_moved (x := (s.screenX terminal + 1) % 80)
      (y := (s.screenY terminal + (s.screenX terminal + 1) / 80) % 25)
      (by omega) (by omega) (by omega) (by omega) ?_ ?_
    · rw [hcolumn]
    · rw [hrow]

theorem putSpaces_prints {s : Console} {terminal n : Nat} (h : OnScreen s terminal) :
    Prints s (putSpaces s terminal n) terminal := by
  induction n generalizing s with
  | zero => exact Prints.refl h
  | succ n ih =>
    have hfirst := putPlain_prints h space
    exact hfirst.trans (ih hfirst.onScreen)

theorem tab_prints {s : Console} {terminal : Nat} (h : OnScreen s terminal) :
    Prints s (tab s terminal) terminal :=
  putSpaces_prints h

theorem putc_prints {s : Console} {terminal : Nat} (h : OnScreen s terminal) (c : UInt8) :
    Prints s (putc s c terminal) terminal := by
  unfold putc
  split_ifs with hline hlast htab
  · exact scrollUp_prints s terminal
  · have hy0 := h.y_nonneg
    have hy := h.y_lt
    unfold numRows at hlast
    exact prints_moved (x := 0) (y := s.screenY terminal + 1) (by decide) (by decide) (by omega)
      (by omega) rfl rfl
  · exact tab_prints h
  · exact putPlain_prints h c

/-- A string or a buffer, byte after byte. -/
theorem foldl_putc_prints {s : Console} {terminal : Nat} (h : OnScreen s terminal)
    (bytes : List UInt8) :
    Prints s (bytes.foldl (fun s c => putc s c terminal) s) terminal := by
  induction bytes generalizing s with
  | nil => exact Prints.refl h
  | cons c bytes ih =>
    have hfirst := putc_prints h c
    exact hfirst.trans (ih hfirst.onScreen)

/-! ## Stores -/

/-- The stores that put a character in a cell. -/
def cellStores (terminal : Nat) (i : Int) (c : UInt8) : List (Int × UInt8) :=
  [(cellOffset terminal i, c), (cellOffset terminal i + 1, attrib)]

def backspaceStores (s : Console) (activeTerminal : Nat) : List (Int × UInt8) :=
  let i := s.screenY activeTerminal * numCols + (s.screenX activeTerminal - 1)
  if i < 0 then [] else cellStores activeTerminal i space

def clearStores (s : Console) (terminal : Nat) : List (Int × UInt8) :=
  Stores.loop (fun _ i => cellStores terminal i space) s.video 0 2000

/-- The stores of one turn of the copying loop of `scroll_up`. -/
def scrollCellStores (terminal : Nat) (video : Int → UInt8) (i : Int) : List (Int × UInt8) :=
  let lifted := Function.update video (cellOffset terminal (i - numCols)) (video (i * 2))
  [(cellOffset terminal (i - numCols), video (i * 2)),
    (cellOffset terminal (i - numCols) + 1, lifted (i * 2 + 1))]

def scrollUpStores (s : Console) (terminal : Nat) : List (Int × UInt8) :=
  Stores.loop (scrollCellStores terminal) s.video numCols 1920 ++
    Stores.loop (fun _ i => cellStores terminal i space) s.video 1920 80

def putPlainStores (s : Console) (c : UInt8) (terminal : Nat) : List (Int × UInt8) :=
  if s.screenX terminal = numCols - 1 ∧ s.screenY terminal = numRows - 1 then
    scrollUpStores s terminal
  else cellStores terminal (numCols * s.screenY terminal + s.screenX terminal) c

def putSpacesStores (s : Console) (terminal : Nat) : Nat → List (Int × UInt8)
  | 0 => []
  | n + 1 => putPlainStores s space terminal ++ putSpacesStores (putPlain s space terminal) terminal n

def tabStores (s : Console) (terminal : Nat) : List (Int × UInt8) :=
  let x := s.screenX terminal
  let tabsize := if 8 < numCols - x then 8 - x.tmod 8 else 0
  putSpacesStores s terminal tabsize.toNat

def putcStores (s : Console) (c : UInt8) (terminal : Nat) : List (Int × UInt8) :=
  if c = newline ∨ c = carriageReturn then
    if s.screenY terminal = numRows - 1 then scrollUpStores s terminal else []
  else if c = tabulator then tabStores s terminal
  else putPlainStores s c terminal

def putsStores (s : Console) (terminal : Nat) : List UInt8 → List (Int × UInt8)
  | [] => []
  | c :: bytes => putcStores s c terminal ++ putsStores (putc s c terminal) terminal bytes

section Video

variable (s : Console) (terminal : Nat)

/-- A loop over cells makes the stores of its turns. -/
theorem overCells_eq {store : (Int → UInt8) → Int → Int → UInt8}
    {stores : (Int → UInt8) → Int → List (Int × UInt8)}
    (h : ∀ video i, store video i = Stores.apply video (stores video i)) (video : Int → UInt8)
    (i : Int) (n : Nat) :
    overCells store video i n = Stores.apply video (Stores.loop stores video i n) := by
  induction n generalizing video i with
  | zero => rfl
  | succ n ih =>
    rw [overCells, Stores.loop, Stores.apply_append, ← h, ih]

theorem overCells_blank (video : Int → UInt8) (i : Int) (n : Nat) :
    overCells (fun video i => setCell video terminal i space) video i n =
      Stores.apply video (Stores.loop (fun _ i => cellStores terminal i space) video i n) := by
  apply overCells_eq
  intro video i
  rfl

theorem backspace_video :
    (backspace s terminal).video = Stores.apply s.video (backspaceStores s terminal) := by
  unfold backspace backspaceStores
  dsimp only
  split_ifs
  · rfl
  · rfl
  · rfl

theorem clear_video (activeTerminal : Nat) :
    (clear s activeTerminal terminal).video = Stores.apply s.video (clearStores s terminal) := by
  unfold clear updateCursorPosition clearStores
  dsimp only
  rw [overCells_blank]

theorem scrollUp_video :
    (scrollUp s terminal).video = Stores.apply s.video (scrollUpStores s terminal) := by
  have hlifted : overCells (scrollCell terminal) s.video numCols 1920 =
      Stores.apply s.video (Stores.loop (scrollCellStores terminal) s.video numCols 1920) := by
    apply overCells_eq
    intro video i
    rfl
  unfold scrollUp updateCursorPosition scrollUpStores
  dsimp only
  rw [Stores.apply_append, hlifted, overCells_blank, Stores.loop_of_const, Stores.loop_of_const]

theorem putPlain_video (c : UInt8) :
    (putPlain s c terminal).video = Stores.apply s.video (putPlainStores s c terminal) := by
  unfold putPlain putPlainStores
  dsimp only
  split_ifs
  · exact scrollUp_video s terminal
  · rfl

theorem putSpaces_video (n : Nat) :
    (putSpaces s terminal n).video = Stores.apply s.video (putSpacesStores s terminal n) := by
  induction n generalizing s with
  | zero => rfl
  | succ n ih =>
    rw [putSpaces, putSpacesStores, Stores.apply_append, ← putPlain_video, ih]

theorem putc_video (c : UInt8) :
    (putc s c terminal).video = Stores.apply s.video (putcStores s c terminal) := by
  unfold putc putcStores
  split_ifs
  · exact scrollUp_video s terminal
  · rfl
  · exact putSpaces_video s terminal _
  · exact putPlain_video s terminal c

theorem foldl_putc_video (bytes : List UInt8) :
    (bytes.foldl (fun s c => putc s c terminal) s).video =
      Stores.apply s.video (putsStores s terminal bytes) := by
  induction bytes generalizing s with
  | nil => rfl
  | cons c bytes ih =>
    rw [List.foldl_cons, putsStores, Stores.apply_append, ← putc_video, ih]

end Video

/-! ## The page of a terminal -/

/-- The store is in one of the 2000 cells of the terminal. -/
def InPage (terminal : Nat) (store : Int × UInt8) : Prop :=
  8192 * (terminal : Int) ≤ store.1 ∧ store.1 < 8192 * (terminal : Int) + 4000

section Page

variable {s : Console} {terminal : Nat}

theorem inPage_cell {i : Int} {c d : UInt8} (h0 : 0 ≤ i) (h1 : i < 2000) :
    ∀ store ∈ [(cellOffset terminal i, c), (cellOffset terminal i + 1, d)], InPage terminal store := by
  intro store hstore
  unfold InPage
  simp only [List.mem_cons, List.not_mem_nil, or_false] at hstore
  rcases hstore with rfl | rfl
  · unfold cellOffset
    dsimp only
    omega
  · unfold cellOffset
    dsimp only
    omega

theorem backspaceStores_inPage (h : OnScreen s terminal) :
    ∀ store ∈ backspaceStores s terminal, InPage terminal store := by
  have hx := h.x_lt
  have hy := h.y_lt
  unfold backspaceStores
  dsimp only
  split_ifs with hhome
  · intro store hstore
    exact absurd hstore List.not_mem_nil
  · apply inPage_cell
    · omega
    · unfold numCols
      omega

theorem clearStores_inPage : ∀ store ∈ clearStores s terminal, InPage terminal store := by
  apply Stores.forall_mem_loop
  intro video i h0 h1
  exact inPage_cell h0 (by omega)

theorem scrollUpStores_inPage : ∀ store ∈ scrollUpStores s terminal, InPage terminal store := by
  intro store hstore
  rcases List.mem_append.mp hstore with hlifted | hblank
  · refine Stores.forall_mem_loop ?_ _ store hlifted
    intro video i h0 h1
    unfold numCols at h0 h1
    apply inPage_cell
    · unfold numCols
      omega
    · unfold numCols
      omega
  · refine Stores.forall_mem_loop ?_ _ store hblank
    intro video i h0 h1
    exact inPage_cell (by omega) (by omega)

theorem putPlainStores_inPage (h : OnScreen s terminal) (c : UInt8) :
    ∀ store ∈ putPlainStores s c terminal, InPage terminal store := by
  have hx0 := h.x_nonneg
  have hx := h.x_lt
  have hy0 := h.y_nonneg
  have hy := h.y_lt
  unfold putPlainStores
  split_ifs
  · exact scrollUpStores_inPage
  · apply inPage_cell
    · unfold numCols
      omega
    · unfold numCols
      omega

theorem putSpacesStores_inPage {n : Nat} (h : OnScreen s terminal) :
    ∀ store ∈ putSpacesStores s terminal n, InPage terminal store := by
  induction n generalizing s with
  | zero =>
    intro store hstore
    exact absurd hstore List.not_mem_nil
  | succ n ih =>
    intro store hstore
    rcases List.mem_append.mp hstore with hfirst | hrest
    · exact putPlainStores_inPage h space store hfirst
    · exact ih (putPlain_prints h space).onScreen store hrest

theorem putcStores_inPage (h : OnScreen s terminal) (c : UInt8) :
    ∀ store ∈ putcStores s c terminal, InPage terminal store := by
  unfold putcStores
  split_ifs
  · exact scrollUpStores_inPage
  · intro store hstore
    exact absurd hstore List.not_mem_nil
  · exact putSpacesStores_inPage h
  · exact putPlainStores_inPage h c

theorem putsStores_inPage {bytes : List UInt8} (h : OnScreen s terminal) :
    ∀ store ∈ putsStores s terminal bytes, InPage terminal store := by
  induction bytes generalizing s with
  | nil =>
    intro store hstore
    exact absurd hstore List.not_mem_nil
  | cons c bytes ih =>
    intro store hstore
    rcases List.mem_append.mp hstore with hfirst | hrest
    · exact putcStores_inPage h c store hfirst
    · exact ih (putc_prints h c).onScreen store hrest

end Page

end LinuxBasedOS.Lib
