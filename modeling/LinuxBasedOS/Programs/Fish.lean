import LinuxBasedOS.Programs.Animation
import LinuxBasedOS.Programs.Cat
import LinuxBasedOS.Terminal.Confinement

/-!
# fish

`main` of `fish.c` makes blinkers of two text files and lets the list run for four times a hundred
ticks of the clock. `add_frames` reads the two files side by side, a byte of each at a time, and
adds a blinker for every cell of a row where one of them has a visible character; a file whose line
has ended, or which has ended, waits for the other one.

`vidmap` clears the terminal of the process and shows the program terminal 0; what is there after
each tick is kept in order. Nothing else stores to that page in the model. The locals that the source does not set are
given by `uninit`; the blinkers that are added have other values in their place.
-/

namespace LinuxBasedOS.Programs

open Lib Filesystem Files Process Terminal Loops Lines

/-! ## The program -/

structure Fish where
  world : World
  blink : Blink
  /-- what has been on the screen after each tick -/
  screens : List (Nat → UInt8)

abbrev FishProgram (α : Type) := StateT Fish Option α

/-- A system call of fish. -/
def call {α : Type} (p : Program α) : FishProgram α := fun s =>
  (p.run s.world).map fun r => (r.1, { s with world := r.2 })

def mp1Ioctl (request : Request) : FishProgram Int := fun s =>
  (handle s.blink request).map fun r => (r.2, { s with blink := r.1 })

/-- The tasklet is run, and the screen can be seen. -/
def showTick : FishProgram PUnit := fun s =>
  (mp1RtcTasklet s.blink).map fun b =>
    (⟨⟩, { s with blink := b, screens := s.screens ++ [b.video] })

/-- The loops of `main` that wait for the clock. -/
def waitLoop (h : Host) (rtcFd : Int) : Nat → FishProgram PUnit
  | 0 => pure ⟨⟩
  | n + 1 => do
    let _ ← call (h.readBytes rtcFd false 4)
    showTick
    waitLoop h rtcFd n

/-- What `add_frames` has of a file: its last character, and whether it has ended. -/
structure Lane where
  c : UInt8
  eof : Bool

def Lane.start : Lane := ⟨48, false⟩

/-- The character for a blinker: a line that has ended is blank. -/
def Lane.char (l : Lane) : UInt8 := if l.c = 10 then 32 else l.c

def Lane.Visible (l : Lane) : Prop := l.c ≠ 32 ∧ l.c ≠ 10

instance (l : Lane) : Decidable l.Visible := inferInstanceAs (Decidable (_ ∧ _))

/-- The read at the start of a turn of the inner loop. -/
def readLane (h : Host) (fd : Int) (l : Lane) : FishProgram Lane :=
  if l.c ≠ 10 then do
    let r ← call (h.readBytes fd false 1)
    pure (if r.1 = 0 then ⟨10, true⟩ else { l with c := r.2.headD l.c })
  else pure l

/-- The structure for the cell at a row and a column. -/
def frameBlink (uninit : BlinkStruct) (row col : Nat) (onChar offChar : UInt8) : BlinkStruct :=
  { uninit with
    location := UInt16.ofNat (row * 80 + col + 40)
    onChar := onChar
    offChar := offChar
    onLength := 15
    offLength := 15 }

def addCell (uninit : BlinkStruct) (row col : Nat) (l₀ l₁ : Lane) : FishProgram PUnit :=
  if l₀.Visible ∨ l₁.Visible then do
    let _ ← mp1Ioctl (.add (frameBlink uninit row col l₀.char l₁.char))
    pure ⟨⟩
  else pure ⟨⟩

/-- The inner loop of `add_frames`. -/
def addRow (h : Host) (uninit : BlinkStruct) (fd₀ fd₁ : Int) (row : Nat) :
    Nat → Nat → Lane → Lane → FishProgram (Lane × Lane)
  | 0, _, _, _ => fun _ => none
  | fuel + 1, col, l₀, l₁ => do
    let l₀ ← readLane h fd₀ l₀
    let l₁ ← readLane h fd₁ l₁
    if l₀.c = 10 ∧ l₁.c = 10 then pure (l₀, l₁)
    else do
      addCell uninit row col l₀ l₁
      addRow h uninit fd₀ fd₁ row fuel (col + 1) l₀ l₁

/-- The end of a row. -/
def endLane (fd : Int) (l : Lane) : FishProgram Lane :=
  if l.eof then do
    let _ ← call (ece391Close fd)
    pure { l with c := 10 }
  else pure { l with c := 48 }

/-- The outer loop of `add_frames`. -/
def addRows (h : Host) (uninit : BlinkStruct) (fd₀ fd₁ : Int) (cols : Nat) :
    Nat → Nat → Lane → Lane → FishProgram PUnit
  | 0, _, _, _ => fun _ => none
  | fuel + 1, row, l₀, l₁ =>
    if l₀.eof = false ∨ l₁.eof = false then do
      let ended ← addRow h uninit fd₀ fd₁ row cols 0 l₀ l₁
      let l₀ ← endLane fd₀ ended.1
      let l₁ ← endLane fd₁ ended.2
      addRows h uninit fd₀ fd₁ cols fuel (row + 1) l₀ l₁
    else pure ⟨⟩

/-- `add_frames`; a status is what it halts with. -/
def addFrames (h : Host) (uninit : BlinkStruct) (fuel : Nat) : FishProgram (Option Int) := do
  let fd₀ ← call (h.ece391Open (bytesOf "frame0.txt"))
  if fd₀ < 0 then pure (some 255)
  else do
    let fd₁ ← call (h.ece391Open (bytesOf "frame1.txt"))
    if fd₁ < 0 then pure (some 255)
    else do
      addRows h uninit fd₀ fd₁ fuel fuel 0 .start .start
      pure none

/-- The blinker that `main` adds by itself. -/
def imBlink (uninit : BlinkStruct) : BlinkStruct :=
  { uninit with
    location := 540
    onChar := 73
    offChar := 77
    onLength := 7
    offLength := 6 }

/-- `main` of `fish.c` behind `add_frames`. -/
def fishShow (h : Host) (uninit : BlinkStruct) (rtcFd : Int) : FishProgram Int := do
  let _ ← call (h.ece391Write rtcFd (some fun i => (wordBytes 32).getD i 0) 4)
  waitLoop h rtcFd 100
  let _ ← mp1Ioctl (.add (imBlink uninit))
  waitLoop h rtcFd 100
  let _ ← mp1Ioctl (.sync ((40 : UInt32) <<< 16 ||| 540))
  waitLoop h rtcFd 100
  let _ ← mp1Ioctl (.remove 540)
  waitLoop h rtcFd 100
  let _ ← call (ece391Close rtcFd)
  pure 0

/-- The array of the blinkers cleared. -/
def Blink.clear (b : Blink) : Blink := { b with slots := fun _ => .zero }

/-- `main` of `fish.c`, with `vmem_base_addr` at an address. It does not go on when `vidmap` does not
return. -/
def fishMain (h : Host) (user : UserVideo) (vmemBaseAddr : Nat) (uninit uninit' : BlinkStruct)
    (fuel : Nat) : FishProgram Int := do
  modify fun s => { s with blink := s.blink.clear }
  let called := vidmap user h.pcbTerminal vmemBaseAddr
  match called.1 with
  | none => fun _ => none
  | some value =>
    if value = -1 then pure (-1)
    else do
      modify fun s => { s with blink := { s.blink with video := userScreen called.2 } }
      let rtcFd ← call (h.ece391Open (bytesOf "rtc"))
      let halted ← addFrames h uninit fuel
      match halted with
      | some status => pure status
      | none => fishShow h uninit' rtcFd

/-! ## The frames -/

/-- What `f` makes of two lists side by side, counted from an index on; the shorter one is filled up. -/
def sideBySide {α β : Type} (f : Nat → α → α → List β) (x : α) (i : Nat) (as bs : List α) : List β :=
  (List.range (max as.length bs.length)).flatMap fun j => f (i + j) (as.getD j x) (bs.getD j x)

section SideBySide

variable {α β : Type} {f : Nat → α → α → List β} {x : α}

theorem sideBySide_step (f : Nat → α → α → List β) (x : α) (i : Nat) {as bs : List α}
    (h : as ≠ [] ∨ bs ≠ []) :
    sideBySide f x i as bs =
      f i (as.headD x) (bs.headD x) ++ sideBySide f x (i + 1) as.tail bs.tail := by
  have hlength : max as.length bs.length = max as.tail.length bs.tail.length + 1 := by
    have hpos : 0 < as.length ∨ 0 < bs.length :=
      h.imp List.length_pos_of_ne_nil List.length_pos_of_ne_nil
    rw [List.length_tail, List.length_tail]
    omega
  have hzero : ∀ l : List α, l.getD 0 x = l.headD x := by
    intro l
    cases l <;> rfl
  have hsucc : ∀ (l : List α) (j : Nat), l.getD (j + 1) x = l.tail.getD j x := by
    intro l j
    cases l <;> rfl
  unfold sideBySide
  rw [hlength, List.range_succ_eq_map, List.flatMap_cons, List.flatMap_map, hzero, hzero]
  simp only [Nat.add_zero, Nat.succ_eq_add_one, hsucc, Nat.add_assoc, Nat.add_comm 1]

/-- Where two fillings give nothing the shorter list can be thought of as endless. -/
theorem mem_sideBySide (hx : ∀ i, f i x x = []) {i : Nat} {as bs : List α} {y : β} :
    y ∈ sideBySide f x i as bs ↔ ∃ j, y ∈ f (i + j) (as.getD j x) (bs.getD j x) := by
  unfold sideBySide
  rw [List.mem_flatMap]
  constructor
  · rintro ⟨j, -, hy⟩
    exact ⟨j, hy⟩
  · rintro ⟨j, hy⟩
    refine ⟨j, ?_, hy⟩
    by_contra hj
    rw [List.mem_range, Nat.not_lt, max_le_iff] at hj
    rw [List.getD_eq_default _ _ hj.1, List.getD_eq_default _ _ hj.2, hx] at hy
    exact List.not_mem_nil hy

theorem pairwise_sideBySide {R : β → β → Prop} {i : Nat} {as bs : List α}
    (hone : ∀ j, (f (i + j) (as.getD j x) (bs.getD j x)).Pairwise R)
    (htwo : ∀ j k, j < k → ∀ y ∈ f (i + j) (as.getD j x) (bs.getD j x),
      ∀ z ∈ f (i + k) (as.getD k x) (bs.getD k x), R y z) :
    (sideBySide f x i as bs).Pairwise R := by
  unfold sideBySide
  rw [List.pairwise_flatMap]
  exact ⟨fun j _ => hone j, List.pairwise_lt_range.imp fun hjk => htwo _ _ hjk⟩

end SideBySide

/-- The blinker for a cell, if one of the characters is visible. -/
def cell (uninit : BlinkStruct) (row col : Nat) (c₀ c₁ : UInt8) : List BlinkStruct :=
  if c₀ = 32 ∧ c₁ = 32 then [] else [frameBlink uninit row col c₀ c₁]

/-- The blinkers for a row, from a column on. -/
def rowCells (uninit : BlinkStruct) (row : Nat) : Nat → List UInt8 → List UInt8 → List BlinkStruct :=
  sideBySide (cell uninit row) 32

/-- The blinkers for two texts, from a row on. -/
def frameCells (uninit : BlinkStruct) :
    Nat → List (List UInt8) → List (List UInt8) → List BlinkStruct :=
  sideBySide (fun row => rowCells uninit row 0) []

/-! ## The scene of a sequence of requests -/

namespace Scene

def after (s : Scene) (requests : List Request) : Scene :=
  requests.foldl (fun s request => (s.handle request).1) s

def AdmitsAll (s : Scene) : List Request → Prop
  | [] => True
  | request :: requests => s.Admits request ∧ (s.handle request).1.AdmitsAll requests

theorem after_append (s : Scene) (requests requests' : List Request) :
    s.after (requests ++ requests') = (s.after requests).after requests' := List.foldl_append

theorem admitsAll_append {s : Scene} {requests requests' : List Request} :
    s.AdmitsAll (requests ++ requests') ↔
      s.AdmitsAll requests ∧ (s.after requests).AdmitsAll requests' := by
  induction requests generalizing s with
  | nil => exact (true_and _).symm.to_iff
  | cons request requests ih =>
    rw [List.cons_append, AdmitsAll, AdmitsAll, ih, and_assoc]
    rfl

end Scene

/-- The list shows a scene. -/
def Plays (b : Blink) (s : Scene) : Prop := ∃ nodes, Refines b nodes s

/-! ## The rules of the program -/

section Rules

variable {h : Host} {s : Fish} {scene : Scene} {fd : Nat}

theorem call_run {α : Type} {p : Program α} {a : α} {w : World} (hrun : p.run s.world = some (a, w)) :
    (call p).run s = some (a, { s with world := w }) := by
  simp only [StateT.run, call] at hrun ⊢
  rw [hrun]
  rfl

theorem mp1Ioctl_meets (hplays : Plays s.blink scene) {request : Request}
    (hadmits : scene.Admits request) :
    Meets (mp1Ioctl request) s fun _ s' => ∃ b, s' = { s with blink := b } ∧
      Plays b (scene.handle request).1 := by
  obtain ⟨nodes, hrefines⟩ := hplays
  obtain ⟨b, nodes', hhandle, hrefines'⟩ := hrefines.request hadmits
  refine ⟨(scene.handle request).2, { s with blink := b }, ?_, b, rfl, nodes', hrefines'⟩
  simp only [StateT.run, mp1Ioctl, hhandle, Option.map_some]

/-- Nothing but a descriptor has been used. -/
structure Leaves (fd : Nat) (s s' : Fish) : Prop where
  blink : s'.blink = s.blink
  screens : s'.screens = s.screens
  fileArray : ∀ j ≠ fd, s'.world.fileArray j = s.world.fileArray j

theorem Leaves.refl (fd : Nat) (s : Fish) : Leaves fd s s := ⟨rfl, rfl, fun _ _ => rfl⟩

theorem leaves_put (s : Fish) (descriptor : FileDescriptor) :
    Leaves fd s { s with world := s.world.put fd descriptor } :=
  ⟨rfl, rfl, fun _ hj => Function.update_of_ne hj _ _⟩

end Rules

/-! ## A file in its lane -/

/-- What is left to be read on a descriptor. -/
def Rest (h : Host) (fa : FileArray) (fd : Nat) (rest : List UInt8) : Prop :=
  ∃ slot p, RegularFile h.img slot ∧ p ≤ (entryBytes h.img slot).length ∧
    fa fd = regularDescriptor (dentryAt h.img slot).idxInode p ∧
    rest = (entryBytes h.img slot).drop p

/-- In a row: what is left of the line, and the lines behind it. -/
inductive LaneAt (h : Host) (fa : FileArray) (fd : Nat) :
    Lane → List UInt8 → List (List UInt8) → Prop
  | reads {l : Lane} {rest line : List UInt8} {later : List (List UInt8)} (hc : l.c ≠ 10)
    (heof : l.eof = false) (hrest : Rest h fa fd rest) (hlines : rest.splitOn 10 = line :: later) :
    LaneAt h fa fd l line later
  | done {l : Lane} {rest : List UInt8} (hc : l.c = 10) (heof : l.eof = false)
    (hrest : Rest h fa fd rest) : LaneAt h fa fd l [] (rest.splitOn 10)
  | ended {l : Lane} (hc : l.c = 10) (heof : l.eof = true) : LaneAt h fa fd l [] []

section Lane

variable {h : Host} {s : Fish} {fa fa' : FileArray} {fd : Nat} {l : Lane} {rest line : List UInt8}
variable {later lines : List (List UInt8)}

theorem Rest.of_same (hrest : Rest h fa fd rest) (hsame : fa' fd = fa fd) : Rest h fa' fd rest := by
  obtain ⟨slot, p, hfile, hp, hfd, heq⟩ := hrest
  exact ⟨slot, p, hfile, hp, hsame.trans hfd, heq⟩

theorem LaneAt.of_same (hlane : LaneAt h fa fd l line later) (hsame : fa' fd = fa fd) :
    LaneAt h fa' fd l line later := by
  cases hlane with
  | reads hc heof hrest hlines => exact .reads hc heof (hrest.of_same hsame) hlines
  | done hc heof hrest => exact .done hc heof (hrest.of_same hsame)
  | ended hc heof => exact .ended hc heof

/-- A read of one byte. -/
theorem Rest.read (hrest : Rest h s.world.fileArray fd rest) (hfd0 : minFd ≤ fd) (hfd1 : fd < maxFd) :
    ∃ s', (call (h.readBytes fd false 1)).run s = some ((((rest.take 1).length : Int), rest.take 1), s') ∧
      Rest h s'.world.fileArray fd (rest.drop 1) ∧ Leaves fd s s' := by
  obtain ⟨slot, p, hfile, hp, hfd, rfl⟩ := hrest
  have hread := readBytes_regular hfile hfd0 hfd1 hfd hp (show 1 < 65536 by decide)
  unfold Cursor.chunk at hread
  refine ⟨_, call_run hread, ⟨slot, p + (((entryBytes h.img slot).drop p).take 1).length, hfile, ?_,
    Function.update_self _ _ _, ?_⟩, leaves_put s _⟩
  · rw [List.length_take, List.length_drop]
    omega
  · rw [List.drop_drop, List.length_take, List.length_drop]
    by_cases hend : p < (entryBytes h.img slot).length
    · rw [Nat.min_eq_left (by omega)]
    · rw [List.drop_eq_nil_of_le (by omega), List.drop_eq_nil_of_le (by omega)]

/-- A turn reads the next character of the line, or finds that it has ended. -/
theorem readLane_meets (hlane : LaneAt h s.world.fileArray fd l line later) (hfd0 : minFd ≤ fd)
    (hfd1 : fd < maxFd) :
    Meets (readLane h fd l) s fun l' s' => LaneAt h s'.world.fileArray fd l' line.tail later ∧
      l'.c = line.headD 10 ∧ (l'.c = 10 ↔ line = []) ∧ Leaves fd s s' := by
  cases hlane with
  | done hc heof hrest =>
    rw [readLane, if_neg (not_not.mpr hc)]
    exact Meets.pure ⟨.done hc heof hrest, hc, iff_of_true hc rfl, .refl fd s⟩
  | ended hc heof =>
    rw [readLane, if_neg (not_not.mpr hc)]
    exact Meets.pure ⟨.ended hc heof, hc, iff_of_true hc rfl, .refl fd s⟩
  | @reads rest line later hc heof hrest hlines =>
    obtain ⟨s', hread, hrest', hleaves⟩ := hrest.read hfd0 hfd1
    rw [readLane, if_pos hc]
    refine Meets.call hread (Meets.pure ?_)
    cases rest with
    | nil =>
      cases hlines
      exact ⟨.ended rfl rfl, rfl, iff_of_true rfl rfl, hleaves⟩
    | cons c rest =>
      rw [List.splitOn_cons_eq_if_modifyHead] at hlines
      by_cases hnewline : c = 10
      · subst hnewline
        rw [if_pos (beq_self_eq_true _)] at hlines
        cases hlines
        exact ⟨.done rfl heof hrest', rfl, iff_of_true rfl rfl, hleaves⟩
      · obtain ⟨first, others, hsplit⟩ := exists_splitOn 10 rest
        rw [if_neg (by simpa using hnewline), hsplit] at hlines
        cases hlines
        exact ⟨.reads hnewline heof hrest' hsplit, rfl, iff_of_false hnewline (List.cons_ne_nil _ _),
          hleaves⟩

/-- At the start of a row: the lines that are left. -/
structure Starts (h : Host) (fa : FileArray) (fd : Nat) (l : Lane) (lines : List (List UInt8)) :
    Prop where
  lane : LaneAt h fa fd l (lines.headD []) lines.tail
  eof : l.eof = false ↔ lines ≠ []

theorem Starts.of_same (hstarts : Starts h fa fd l lines) (hsame : fa' fd = fa fd) :
    Starts h fa' fd l lines := ⟨hstarts.lane.of_same hsame, hstarts.eof⟩

theorem starts_of_rest (hrest : Rest h fa fd rest) (hc : l.c ≠ 10) (heof : l.eof = false) :
    Starts h fa fd l (rest.splitOn 10) := by
  obtain ⟨first, others, hsplit⟩ := exists_splitOn 10 rest
  refine ⟨.reads hc heof hrest ?_, iff_of_true heof (List.splitOn_ne_nil 10 rest)⟩
  rw [hsplit]
  rfl

theorem endLane_meets (hlane : LaneAt h s.world.fileArray fd l [] later) (hc : l.c = 10) :
    Meets (endLane fd l) s fun l' s' => Starts h s'.world.fileArray fd l' later ∧ Leaves fd s s' := by
  cases hlane with
  | reads hc' => exact absurd hc hc'
  | done _ heof hrest =>
    rw [endLane, heof, if_neg Bool.false_ne_true]
    exact Meets.pure ⟨starts_of_rest hrest (show (48 : UInt8) ≠ 10 by decide) rfl, .refl fd s⟩
  | ended _ heof =>
    rw [endLane, if_pos heof]
    refine Meets.call (call_run rfl) (Meets.pure ⟨⟨.ended rfl heof, ?_⟩, rfl, rfl, fun j hj => ?_⟩)
    · exact iff_of_false (by rw [heof]; exact Bool.noConfusion) (not_not.mpr rfl)
    · rcases sysClose_inv fd s.world.fileArray with hclose | hclose
      · show (sysClose fd s.world.fileArray).2 j = _
        rw [hclose]
      · show (sysClose fd s.world.fileArray).2 j = _
        rw [hclose, Int.toNat_natCast]
        exact Function.update_of_ne hj _ _

end Lane

/-! ## The two files side by side -/

section Rows

variable {h : Host} {s : Fish} {scene : Scene} {fd₀ fd₁ fuel cols row : Nat} {l₀ l₁ : Lane}
variable {uninit : BlinkStruct} {line₀ line₁ : List UInt8}
variable {later₀ later₁ lines₀ lines₁ : List (List UInt8)}

/-- Blinkers have been added, and nothing but two descriptors has been used. -/
structure Added (fd₀ fd₁ : Nat) (scene : Scene) (cells : List BlinkStruct) (s s' : Fish) : Prop where
  plays : Plays s'.blink (scene.after (cells.map .add))
  screens : s'.screens = s.screens
  fileArray : ∀ j ≠ fd₀, j ≠ fd₁ → s'.world.fileArray j = s.world.fileArray j

theorem addCell_meets (hplays : Plays s.blink scene) (col : Nat)
    (hadmits : scene.AdmitsAll ((cell uninit row col l₀.char l₁.char).map .add)) :
    Meets (addCell uninit row col l₀ l₁) s fun _ s' => ∃ b, s' = { s with blink := b } ∧
      Plays b (scene.after ((cell uninit row col l₀.char l₁.char).map .add)) := by
  have hvisible : ∀ l : Lane, l.Visible ↔ l.char ≠ 32 := by
    intro l
    unfold Lane.Visible Lane.char
    split_ifs with hc
    · exact iff_of_false (fun hv => hv.2 hc) (not_not.mpr rfl)
    · exact and_iff_left hc
  have heither : l₀.Visible ∨ l₁.Visible ↔ ¬ (l₀.char = 32 ∧ l₁.char = 32) := by
    rw [hvisible, hvisible, not_and_or]
  unfold addCell
  unfold cell at hadmits ⊢
  by_cases hblank : l₀.char = 32 ∧ l₁.char = 32
  · rw [if_pos hblank, if_neg (mt heither.mp (not_not.mpr hblank))]
    exact Meets.pure ⟨s.blink, rfl, hplays⟩
  · rw [if_neg hblank] at hadmits ⊢
    rw [if_pos (heither.mpr hblank)]
    exact Meets.bind ((mp1Ioctl_meets hplays hadmits.1).imp fun _ s' hb => Meets.pure hb)

theorem addRow_meets (hne : fd₀ ≠ fd₁) (hfd₀ : minFd ≤ fd₀ ∧ fd₀ < maxFd)
    (hfd₁ : minFd ≤ fd₁ ∧ fd₁ < maxFd) (hlane₀ : LaneAt h s.world.fileArray fd₀ l₀ line₀ later₀)
    (hlane₁ : LaneAt h s.world.fileArray fd₁ l₁ line₁ later₁) (hplays : Plays s.blink scene)
    {col : Nat} (hadmits : scene.AdmitsAll ((rowCells uninit row col line₀ line₁).map .add))
    (hfuel : max line₀.length line₁.length < fuel) :
    Meets (addRow h uninit fd₀ fd₁ row fuel col l₀ l₁) s fun r s' =>
      (LaneAt h s'.world.fileArray fd₀ r.1 [] later₀ ∧ r.1.c = 10) ∧
        (LaneAt h s'.world.fileArray fd₁ r.2 [] later₁ ∧ r.2.c = 10) ∧
        Added fd₀ fd₁ scene (rowCells uninit row col line₀ line₁) s s' := by
  induction fuel generalizing s scene l₀ l₁ line₀ line₁ col with
  | zero => omega
  | succ fuel ih =>
    refine Meets.bind ((readLane_meets hlane₀ hfd₀.1 hfd₀.2).imp ?_)
    rintro l₀ s₁ ⟨hlane₀', hhead₀, hnil₀, hleaves₀⟩
    have hlane₁' := hlane₁.of_same (hleaves₀.fileArray fd₁ (Ne.symm hne))
    refine Meets.bind ((readLane_meets hlane₁' hfd₁.1 hfd₁.2).imp ?_)
    rintro l₁ s₂ ⟨hlane₁', hhead₁, hnil₁, hleaves₁⟩
    have hlane₀' := hlane₀'.of_same (hleaves₁.fileArray fd₀ hne)
    have hblink : s₂.blink = s.blink := hleaves₁.blink.trans hleaves₀.blink
    have hscreens : s₂.screens = s.screens := hleaves₁.screens.trans hleaves₀.screens
    have hsame : ∀ j ≠ fd₀, j ≠ fd₁ → s₂.world.fileArray j = s.world.fileArray j :=
      fun j hj₀ hj₁ => (hleaves₁.fileArray j hj₁).trans (hleaves₀.fileArray j hj₀)
    by_cases hend : l₀.c = 10 ∧ l₁.c = 10
    · obtain rfl := hnil₀.mp hend.1
      obtain rfl := hnil₁.mp hend.2
      rw [if_pos hend]
      refine Meets.pure ⟨⟨hlane₀', hend.1⟩, ⟨hlane₁', hend.2⟩, ?_, hscreens, hsame⟩
      rw [hblink]
      exact hplays
    · have hlines : line₀ ≠ [] ∨ line₁ ≠ [] := by
        rw [hnil₀, hnil₁] at hend
        exact not_and_or.mp hend
      have hchar : ∀ {l : Lane} {line : List UInt8}, l.c = line.headD 10 → (l.c = 10 ↔ line = []) →
          l.char = line.headD 32 := by
        intro l line hhead hnil
        unfold Lane.char
        cases line with
        | nil => exact if_pos hhead
        | cons c line =>
          rw [if_neg (mt hnil.mp (List.cons_ne_nil c line))]
          exact hhead
      have hstep := sideBySide_step (cell uninit row) 32 col hlines
      rw [← hchar hhead₀ hnil₀, ← hchar hhead₁ hnil₁] at hstep
      unfold rowCells at hadmits ⊢
      rw [hstep, List.map_append, Scene.admitsAll_append] at hadmits
      rw [if_neg hend]
      have hplays₂ : Plays s₂.blink scene := by
        rw [hblink]
        exact hplays
      refine Meets.bind ((addCell_meets hplays₂ col hadmits.1).imp ?_)
      rintro _ s₃ ⟨b, rfl, hplays₃⟩
      have hrow := ih (s := { s₂ with blink := b }) hlane₀' hlane₁' hplays₃ hadmits.2 (by
        rw [List.length_tail, List.length_tail]
        have hpos : 0 < line₀.length ∨ 0 < line₁.length :=
          hlines.imp List.length_pos_of_ne_nil List.length_pos_of_ne_nil
        omega)
      refine hrow.imp ?_
      rintro r s' ⟨hr₀, hr₁, hadded⟩
      refine ⟨hr₀, hr₁, ?_, hadded.screens.trans hscreens, fun j hj₀ hj₁ =>
        (hadded.fileArray j hj₀ hj₁).trans (hsame j hj₀ hj₁)⟩
      rw [hstep, List.map_append, Scene.after_append]
      exact hadded.plays

theorem addRows_meets (hne : fd₀ ≠ fd₁) (hfd₀ : minFd ≤ fd₀ ∧ fd₀ < maxFd)
    (hfd₁ : minFd ≤ fd₁ ∧ fd₁ < maxFd) (hstarts₀ : Starts h s.world.fileArray fd₀ l₀ lines₀)
    (hstarts₁ : Starts h s.world.fileArray fd₁ l₁ lines₁) (hplays : Plays s.blink scene)
    (hadmits : scene.AdmitsAll ((frameCells uninit row lines₀ lines₁).map .add))
    (hcols : ∀ line ∈ lines₀ ++ lines₁, line.length < cols) (hcols' : 0 < cols)
    (hfuel : max lines₀.length lines₁.length < fuel) :
    Meets (addRows h uninit fd₀ fd₁ cols fuel row l₀ l₁) s fun _ s' =>
      Added fd₀ fd₁ scene (frameCells uninit row lines₀ lines₁) s s' := by
  induction fuel generalizing s scene l₀ l₁ lines₀ lines₁ row with
  | zero => omega
  | succ fuel ih =>
    have hgoes := or_congr hstarts₀.eof hstarts₁.eof
    unfold addRows
    by_cases hlines : lines₀ ≠ [] ∨ lines₁ ≠ []
    · have hstep := sideBySide_step (fun row => rowCells uninit row 0) [] row hlines
      unfold frameCells at hadmits ⊢
      rw [hstep, List.map_append, Scene.admitsAll_append] at hadmits
      have hlength : ∀ lines : List (List UInt8), (∀ line ∈ lines, line.length < cols) →
          (lines.headD []).length < cols ∧ ∀ line ∈ lines.tail, line.length < cols := by
        intro lines hall
        cases lines with
        | nil => exact ⟨hcols', hall⟩
        | cons line lines => exact List.forall_mem_cons.mp hall
      rw [List.forall_mem_append] at hcols
      obtain ⟨hhead₀, htail₀⟩ := hlength lines₀ hcols.1
      obtain ⟨hhead₁, htail₁⟩ := hlength lines₁ hcols.2
      rw [if_pos (hgoes.mpr hlines)]
      refine Meets.bind ((addRow_meets hne hfd₀ hfd₁ hstarts₀.lane hstarts₁.lane hplays hadmits.1
        (by omega)).imp ?_)
      rintro ⟨l₀, l₁⟩ s₁ ⟨⟨hlane₀, hc₀⟩, ⟨hlane₁, hc₁⟩, hadded₁⟩
      refine Meets.bind ((endLane_meets hlane₀ hc₀).imp ?_)
      rintro l₀ s₂ ⟨hstarts₀, hleaves₀⟩
      have hlane₁' := hlane₁.of_same (hleaves₀.fileArray fd₁ (Ne.symm hne))
      refine Meets.bind ((endLane_meets hlane₁' hc₁).imp ?_)
      rintro l₁ s₃ ⟨hstarts₁, hleaves₁⟩
      have hstarts₀ := hstarts₀.of_same (hleaves₁.fileArray fd₀ hne)
      have hplays₃ : Plays s₃.blink (scene.after
          ((rowCells uninit row 0 (lines₀.headD []) (lines₁.headD [])).map .add)) := by
        rw [hleaves₁.blink, hleaves₀.blink]
        exact hadded₁.plays
      have hrows := ih hstarts₀ hstarts₁ hplays₃ hadmits.2
        (List.forall_mem_append.mpr ⟨htail₀, htail₁⟩) (by
          rw [List.length_tail, List.length_tail]
          have hpos : 0 < lines₀.length ∨ 0 < lines₁.length :=
            hlines.imp List.length_pos_of_ne_nil List.length_pos_of_ne_nil
          omega)
      refine hrows.imp ?_
      intro _ s' hadded
      refine ⟨?_, ?_, fun j hj₀ hj₁ => ?_⟩
      · rw [hstep, List.map_append, Scene.after_append]
        exact hadded.plays
      · rw [hadded.screens, hleaves₁.screens, hleaves₀.screens, hadded₁.screens]
      · rw [hadded.fileArray j hj₀ hj₁, hleaves₁.fileArray j hj₁, hleaves₀.fileArray j hj₀,
          hadded₁.fileArray j hj₀ hj₁]
    · rw [if_neg (mt hgoes.mp hlines)]
      rw [not_or, not_not, not_not] at hlines
      obtain ⟨rfl, rfl⟩ := hlines
      exact Meets.pure ⟨hplays, rfl, fun _ _ _ => rfl⟩

end Rows

/-! ## The parts of the program -/

section Parts

variable {h : Host} {s : Fish} {scene : Scene} {fd : Nat} {fa fa' : FileArray}

/-- The file of this name is a regular one, with these lines. -/
def TextFile (h : Host) (name : List UInt8) (lines : List (List UInt8)) : Prop :=
  ∃ slot, matchedSlot h.img (cstr name) = some slot ∧ RegularFile h.img slot ∧
    lines = (entryBytes h.img slot).splitOn 10

theorem TextFile.open_run {name : List UInt8} {lines : List (List UInt8)}
    (htext : TextFile h name lines) (h0 : 0 ∉ name) (hne : name ≠ [])
    (hfree : freeDescriptor s.world.fileArray = some fd) :
    ∃ s', (call (h.ece391Open name)).run s = some ((fd : Int), s') ∧
      Starts h s'.world.fileArray fd .start lines ∧ (s'.world.fileArray fd).flags ≠ notInUse ∧
      Leaves fd s s' := by
  obtain ⟨slot, hslot, hfile, rfl⟩ := htext
  obtain ⟨htable, hopened⟩ := openedDescriptor_regular hfile
  have hrun := Programs.open_run h0 hne hslot hfree htable
  rw [hopened] at hrun
  have hself : (s.world.put fd (regularDescriptor (dentryAt h.img slot).idxInode 0)).fileArray fd =
      regularDescriptor (dentryAt h.img slot).idxInode 0 := Function.update_self _ _ _
  refine ⟨_, call_run hrun, ?_, ?_, leaves_put s _⟩
  · exact starts_of_rest ⟨slot, 0, hfile, Nat.zero_le _, hself, rfl⟩ (by decide) rfl
  · show ((s.world.put fd (regularDescriptor _ 0)).fileArray fd).flags ≠ notInUse
    rw [hself]
    exact Int.one_ne_zero

/-- The clock is open, and the descriptors behind it are free. -/
structure Ready (fa : FileArray) : Prop where
  clock : (fa 2).fdJumptable = some .rtc ∧ (fa 2).flags ≠ notInUse
  free : ∀ j, 3 ≤ j → j < maxFd → (fa j).flags = notInUse

/-- `add_frames` adds the blinkers of the two texts. -/
theorem addFrames_meets {uninit : BlinkStruct} {fuel : Nat} {lines₀ lines₁ : List (List UInt8)}
    (htext₀ : TextFile h (bytesOf "frame0.txt") lines₀)
    (htext₁ : TextFile h (bytesOf "frame1.txt") lines₁) (hready : Ready s.world.fileArray)
    (hplays : Plays s.blink scene)
    (hadmits : scene.AdmitsAll ((frameCells uninit 0 lines₀ lines₁).map .add))
    (hcols : ∀ line ∈ lines₀ ++ lines₁, line.length < fuel)
    (hfuel : max lines₀.length lines₁.length < fuel) :
    Meets (addFrames h uninit fuel) s fun r s' => r = none ∧
      Added 3 4 scene (frameCells uninit 0 lines₀ lines₁) s s' := by
  have hfree₀ : freeDescriptor s.world.fileArray = some 3 := by
    refine freeDescriptor_eq_some (by decide) (by decide) (hready.free 3 (by decide) (by decide)) ?_
    intro j hj0 hj1
    obtain rfl : j = 2 := by
      unfold minFd at hj0
      omega
    exact hready.clock.2
  obtain ⟨s₁, hopen₀, hstarts₀, hflags₀, hleaves₀⟩ :=
    htext₀.open_run (by decide) (by decide) hfree₀
  have hfree₁ : freeDescriptor s₁.world.fileArray = some 4 := by
    refine freeDescriptor_eq_some (by decide) (by decide) ?_ ?_
    · rw [hleaves₀.fileArray 4 (by decide)]
      exact hready.free 4 (by decide) (by decide)
    · intro j hj0 hj1
      obtain rfl | rfl : j = 2 ∨ j = 3 := by
        unfold minFd at hj0
        omega
      · rw [hleaves₀.fileArray 2 (by decide)]
        exact hready.clock.2
      · exact hflags₀
  obtain ⟨s₂, hopen₁, hstarts₁, -, hleaves₁⟩ := htext₁.open_run (by decide) (by decide) hfree₁
  have hplays₂ : Plays s₂.blink scene := by
    rw [hleaves₁.blink, hleaves₀.blink]
    exact hplays
  have hstarts₀' := hstarts₀.of_same (hleaves₁.fileArray 3 (by decide))
  refine Meets.call hopen₀ ?_
  rw [if_neg (by decide)]
  refine Meets.call hopen₁ ?_
  rw [if_neg (by decide)]
  refine Meets.bind ((addRows_meets (by decide) (by decide) (by decide) hstarts₀' hstarts₁ hplays₂
    hadmits hcols (by omega) hfuel).imp ?_)
  intro _ s' hadded
  refine Meets.pure ⟨rfl, hadded.plays, ?_, fun j hj₀ hj₁ => ?_⟩
  · rw [hadded.screens, hleaves₁.screens, hleaves₀.screens]
  · rw [hadded.fileArray j hj₀ hj₁, hleaves₁.fileArray j hj₁, hleaves₀.fileArray j hj₀]

/-- Calls of the clock come back. -/
def ClockComes (h : Host) : Prop :=
  ∀ call slot nbytes, ∃ reply, h.others call .rtc slot nbytes = some reply

/-- A descriptor of the clock. -/
def ClockAt (fa : FileArray) (fd : Nat) : Prop :=
  (fa fd).fdJumptable = some .rtc ∧ (fa fd).flags ≠ notInUse

theorem clockAt_answered (hat : ClockAt fa fd) (reply : Reply) :
    ClockAt (answered fa fd .rtc reply).fileArray fd := by
  have hself : (answered fa fd .rtc reply).fileArray fd =
      { fa fd with filePosition := reply.filePosition } := Function.update_self _ _ _
  unfold ClockAt
  rw [hself]
  exact hat

/-- A wait for the clock. -/
theorem clockRead_run (hclock : ClockComes h) (hat : ClockAt s.world.fileArray fd)
    (hfd0 : minFd ≤ fd) (hfd1 : fd < maxFd) :
    ∃ r w, (call (h.readBytes fd false 4)).run s = some (r, { s with world := w }) ∧
      ClockAt w.fileArray fd := by
  obtain ⟨reply, hreply⟩ := hclock s.world.calls (s.world.fileArray fd) 4
  have hserved : sysRead fd false 4 (h.readRoutine s.world) s.world.fileArray =
      (h.others s.world.calls .rtc (s.world.fileArray fd) 4).map
        (answered s.world.fileArray fd .rtc) :=
    dispatch_served (by omega) (by omega) (by unfold minFd at hfd0; omega) hat.2 hat.1
  rw [hreply, Option.map_some] at hserved
  refine ⟨(reply.retval, reply.bytes),
    { s.world with
      fileArray := (answered s.world.fileArray fd .rtc reply).fileArray
      calls := s.world.calls + 1 }, call_run ?_, clockAt_answered hat reply⟩
  simp only [StateT.run, Host.readBytes, hserved, Option.map_some]
  rfl

/-- The rate of the clock is set. -/
theorem clockWrite_run (hclock : ClockComes h) (hat : ClockAt s.world.fileArray fd)
    (hfd0 : minFd ≤ fd) (hfd1 : fd < maxFd) (bytes : Nat → UInt8) :
    ∃ r w, (call (h.ece391Write fd (some bytes) 4)).run s = some (r, { s with world := w }) ∧
      ClockAt w.fileArray fd := by
  obtain ⟨reply, hreply⟩ := hclock s.world.calls (s.world.fileArray fd) 4
  have hserved : sysWrite fd false 4 (h.writeDriver (some bytes) s.world.calls) s.world.fileArray =
      (h.others s.world.calls .rtc (s.world.fileArray fd) 4).map
        (answered s.world.fileArray fd .rtc) :=
    dispatch_served (by omega) (by omega) (by unfold minFd at hfd0; omega) hat.2 hat.1
  rw [hreply, Option.map_some] at hserved
  refine ⟨reply.retval,
    { s.world with
      fileArray := (answered s.world.fileArray fd .rtc reply).fileArray
      written := s.world.written ++ []
      calls := s.world.calls + 1 }, call_run ?_, clockAt_answered hat reply⟩
  simp only [StateT.run, Host.ece391Write, Option.isNone_some, hserved, Option.map_some]
  rfl

/-- What is seen in the next ticks of a scene. -/
def Scene.ticks (scene : Scene) (n : Nat) : List (Nat → UInt8) :=
  (List.range n).map fun i => (Scene.tick^[i + 1] scene).screen

theorem Scene.ticks_succ (scene : Scene) (n : Nat) :
    scene.ticks (n + 1) = scene.tick.screen :: scene.tick.ticks n := by
  unfold Scene.ticks
  rw [List.range_succ_eq_map, List.map_cons, List.map_map]
  rfl

/-- The loops that wait show the ticks of the scene. -/
theorem waitLoop_meets (hclock : ClockComes h) (hat : ClockAt s.world.fileArray fd)
    (hfd0 : minFd ≤ fd) (hfd1 : fd < maxFd) (hplays : Plays s.blink scene) (n : Nat) :
    Meets (waitLoop h fd n) s fun _ s' => ClockAt s'.world.fileArray fd ∧
      Plays s'.blink (Scene.tick^[n] scene) ∧ s'.screens = s.screens ++ scene.ticks n := by
  induction n generalizing s scene with
  | zero => exact Meets.pure ⟨hat, hplays, (List.append_nil s.screens).symm⟩
  | succ n ih =>
    obtain ⟨r, w, hread, hat'⟩ := clockRead_run hclock hat hfd0 hfd1
    obtain ⟨nodes, hrefines⟩ := hplays
    have htasklet := mp1RtcTasklet_eq hrefines.toSound
    have htick : showTick.run { s with world := w } = some (⟨⟩,
        { world := w
          blink := nodes.foldl blinkNode s.blink
          screens := s.screens ++ [scene.tick.screen] }) := by
      simp only [StateT.run, showTick, htasklet, Option.map_some, hrefines.tick.video]
    refine Meets.call hread (Meets.call htick ?_)
    refine (ih (s := ⟨w, nodes.foldl blinkNode s.blink, s.screens ++ [scene.tick.screen]⟩) hat'
      ⟨nodes, hrefines.tick⟩).imp ?_
    rintro _ s' ⟨hat'', hplays', hscreens⟩
    refine ⟨hat'', hplays', ?_⟩
    rw [hscreens, Scene.ticks_succ, List.append_assoc, List.singleton_append]

/-- The scenes behind the three requests of `main`. -/
def imAdded (uninit : BlinkStruct) (scene : Scene) : Scene :=
  ((Scene.tick^[100] scene).handle (.add (imBlink uninit))).1

def imSynced (scene : Scene) : Scene :=
  ((Scene.tick^[100] scene).handle (.sync ((40 : UInt32) <<< 16 ||| 540))).1

def imRemoved (scene : Scene) : Scene := ((Scene.tick^[100] scene).handle (.remove 540)).1

theorem fishShow_meets {uninit : BlinkStruct} (hclock : ClockComes h)
    (hat : ClockAt s.world.fileArray fd) (hfd0 : minFd ≤ fd) (hfd1 : fd < maxFd)
    (hplays : Plays s.blink scene) (hadd : (Scene.tick^[100] scene).Admits (.add (imBlink uninit)))
    (hsync : (Scene.tick^[100] (imAdded uninit scene)).Admits (.sync ((40 : UInt32) <<< 16 ||| 540))) :
    Meets (fishShow h uninit fd) s fun r s' => r = 0 ∧
      s'.screens = s.screens ++ scene.ticks 100 ++ (imAdded uninit scene).ticks 100 ++
        (imSynced (imAdded uninit scene)).ticks 100 ++
        (imRemoved (imSynced (imAdded uninit scene))).ticks 100 := by
  obtain ⟨_, w, hwrite, hat⟩ := clockWrite_run hclock hat hfd0 hfd1 fun i => (wordBytes 32).getD i 0
  refine Meets.call hwrite ?_
  refine Meets.bind ((waitLoop_meets (s := { s with world := w }) hclock hat hfd0 hfd1 hplays
    100).imp ?_)
  rintro _ s₁ ⟨hat₁, hplays₁, hscreens₁⟩
  refine Meets.bind ((mp1Ioctl_meets hplays₁ hadd).imp ?_)
  rintro _ _ ⟨b₁, rfl, hplays₁⟩
  refine Meets.bind ((waitLoop_meets (s := { s₁ with blink := b₁ }) hclock hat₁ hfd0 hfd1 hplays₁
    100).imp ?_)
  rintro _ s₂ ⟨hat₂, hplays₂, hscreens₂⟩
  refine Meets.bind ((mp1Ioctl_meets hplays₂ hsync).imp ?_)
  rintro _ _ ⟨b₂, rfl, hplays₂⟩
  refine Meets.bind ((waitLoop_meets (s := { s₂ with blink := b₂ }) hclock hat₂ hfd0 hfd1 hplays₂
    100).imp ?_)
  rintro _ s₃ ⟨hat₃, hplays₃, hscreens₃⟩
  refine Meets.bind ((@mp1Ioctl_meets s₃ _ hplays₃ (.remove 540) trivial).imp ?_)
  rintro _ _ ⟨b₃, rfl, hplays₃⟩
  refine Meets.bind ((waitLoop_meets (s := { s₃ with blink := b₃ }) hclock hat₃ hfd0 hfd1 hplays₃
    100).imp ?_)
  rintro _ s₄ ⟨_, _, hscreens₄⟩
  refine Meets.call (call_run rfl) (Meets.pure ⟨rfl, ?_⟩)
  rw [hscreens₄, hscreens₃, hscreens₂, hscreens₁]
  rfl

end Parts

end LinuxBasedOS.Programs
