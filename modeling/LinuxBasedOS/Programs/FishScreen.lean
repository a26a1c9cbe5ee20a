import LinuxBasedOS.Programs.Fish

/-!
# What fish shows

The four hundred screens of `fish.c`, one behind each tick: the two frames in turn, fifteen ticks
each, from column 40 on; between the hundredth tick and the end of the third hundred a blinking
character, which keeps its own time until it is set like the first cell of the frames, and stays as
it is when it has been removed. `fish_plays` says that `main` shows them, for all frames that fit
next to it, on the screen that `vidmap` has left.
-/

namespace LinuxBasedOS.Programs

open Lib Filesystem Files Process Terminal Loops Stores Paging

/-! ## Painted scenes -/

/-- The scene of some blinkers on a screen. -/
def Scene.paint (video : Nat → UInt8) (blinkers : List Blinker) : Scene :=
  (Scene.start video).drawn blinkers

/-- A blinker so many ticks later. -/
def Blinker.aged (n : Nat) (x : Blinker) : Blinker := { x with age := x.age + n }

section Paint

variable {video : Nat → UInt8} {bs bs' : List Blinker}

/-- Blinkers drawn over others at their places. -/
theorem paint_drawn (hcover : ∀ x ∈ bs, ∃ y ∈ bs', y.location = x.location) :
    (Scene.paint video bs).drawn bs' = Scene.paint video bs' := by
  unfold Scene.paint Scene.drawn
  congr 1
  funext a
  dsimp only
  cases hfind : bs'.find? fun x => 2 * x.location.toNat = a with
  | some x => rfl
  | none =>
    have hnone : (bs.find? fun x => 2 * x.location.toNat = a) = none := by
      rw [List.find?_eq_none] at hfind ⊢
      intro x hx hplace
      obtain ⟨y, hy, hsame⟩ := hcover x hx
      rw [← hsame] at hplace
      exact hfind y hy hplace
    rw [hnone]

theorem handle_add {s : Scene} {user : BlinkStruct} (hlt : ¬ 2000 ≤ user.location.toNat) :
    s.handle (.add user) = (s.add user, 0) := if_neg hlt

theorem paint_add (user : BlinkStruct) :
    (Scene.paint video bs).add user = Scene.paint video (.new user :: bs) :=
  paint_drawn fun x hx => ⟨x, List.mem_cons_of_mem _ hx, rfl⟩

theorem paint_tick_iterate (n : Nat) :
    Scene.tick^[n] (Scene.paint video bs) = Scene.paint video (bs.map (Blinker.aged n)) := by
  induction n generalizing bs with
  | zero =>
    rw [Function.iterate_zero_apply, show Blinker.aged 0 = id from rfl, List.map_id]
  | succ n ih =>
    have htick : (Scene.paint video bs).tick = Scene.paint video (bs.map Blinker.older) :=
      paint_drawn fun x hx => ⟨x.older, List.mem_map_of_mem hx, rfl⟩
    have hcomp : Blinker.aged n ∘ Blinker.older = Blinker.aged (n + 1) := by
      funext x
      show ({ x with age := x.age + 1 + n } : Blinker) = { x with age := x.age + (n + 1) }
      rw [Nat.add_assoc, Nat.add_comm 1]
    rw [Function.iterate_succ_apply, htick, ih, List.map_map, hcomp]

theorem paint_sync (x : Blinker) (location : UInt16) :
    (Scene.paint video bs).sync x location =
      Scene.paint video (bs.map fun y => if y.location = location then y.like x else y) := by
  refine paint_drawn fun y hy => ⟨_, List.mem_map_of_mem hy, ?_⟩
  split_ifs <;> rfl

/-- The blinkers that are left are found where they were. -/
theorem find?_filter_location (bs : List Blinker) (location : UInt16) (a : Nat) :
    ((bs.filter fun x => x.location ≠ location).find? fun x => 2 * x.location.toNat = a) =
      if a = 2 * location.toNat then none else bs.find? fun x => 2 * x.location.toNat = a := by
  split_ifs with ha
  · rw [List.find?_eq_none]
    intro x hx htest
    have hplace : 2 * x.location.toNat = a := of_decide_eq_true htest
    have hne : x.location ≠ location := of_decide_eq_true (List.mem_filter.mp hx).2
    exact hne (UInt16.toNat_inj.mp (by omega))
  · rw [List.find?_filter]
    congr 1
    funext x
    rw [decide_eq_decide, decide_eq_true_iff, decide_eq_true_iff]
    refine and_iff_right_of_imp fun hplace => ?_
    rintro rfl
    exact ha hplace.symm

/-- A blinker that is taken out leaves what it has shown. -/
theorem paint_remove (location : UInt16) :
    (Scene.paint video bs).remove location =
      Scene.paint (Function.update video (2 * location.toNat)
          ((Scene.paint video bs).screen (2 * location.toNat)))
        (bs.filter fun x => x.location ≠ location) := by
  have hscreen : (Scene.paint video bs).screen =
      (Scene.paint (Function.update video (2 * location.toNat)
          ((Scene.paint video bs).screen (2 * location.toNat)))
        (bs.filter fun x => x.location ≠ location)).screen := by
    funext a
    unfold Scene.paint Scene.drawn Scene.start
    dsimp only
    rw [find?_filter_location]
    by_cases ha : a = 2 * location.toNat
    · rw [if_pos ha, ha]
      dsimp only
      rw [Function.update_self]
    · rw [if_neg ha, Function.update_of_ne ha]
  exact congrArg (Scene.mk (bs.filter fun x => x.location ≠ location)) hscreen

/-- Blinkers added one after the other at places of their own: those on the screen are shown. -/
theorem paint_adds {users : List BlinkStruct}
    (hapart : users.Pairwise fun u v => u.location ≠ v.location)
    (hpos : ∀ u ∈ users, 1 ≤ u.location.toNat)
    (hfree : ∀ u ∈ users, ∀ x ∈ bs, x.location ≠ u.location) :
    (Scene.paint video bs).AdmitsAll (users.map .add) ∧
      ∃ bs', (Scene.paint video bs).after (users.map .add) = Scene.paint video bs' ∧
        ∀ x, x ∈ bs' ↔ x ∈ bs ∨ ∃ u ∈ users, u.location.toNat < 2000 ∧ x = .new u := by
  induction users generalizing bs with
  | nil =>
    refine ⟨trivial, bs, rfl, fun x => ?_⟩
    simp only [List.not_mem_nil, false_and, exists_false, or_false]
  | cons u users ih =>
    rw [List.pairwise_cons] at hapart
    rw [List.forall_mem_cons] at hpos hfree
    have hnone : (Scene.paint video bs).blinkerAt u.location = none :=
      List.find?_eq_none.mpr fun x hx hsame => hfree.1 x hx (of_decide_eq_true hsame)
    by_cases hlarge : 2000 ≤ u.location.toNat
    · have hsame : ((Scene.paint video bs).handle (.add u)).1 = Scene.paint video bs :=
        congrArg Prod.fst (if_pos hlarge)
      obtain ⟨hadmits, bs', hafter, hmem⟩ := ih hapart.2 hpos.2 hfree.2
      refine ⟨⟨Or.inl hlarge, by rw [hsame]; exact hadmits⟩, bs', ?_, fun x => ?_⟩
      · show (((Scene.paint video bs).handle (.add u)).1).after _ = _
        rw [hsame, hafter]
      · rw [hmem, List.exists_mem_cons_iff]
        have hnot : ¬ (u.location.toNat < 2000 ∧ x = .new u) := fun hu => absurd hu.1 (by omega)
        rw [or_iff_right hnot]
    · have hsame : ((Scene.paint video bs).handle (.add u)).1 =
          Scene.paint video (.new u :: bs) := by
        rw [handle_add hlarge]
        exact paint_add u
      have hfree' : ∀ v ∈ users, ∀ x ∈ Blinker.new u :: bs, x.location ≠ v.location :=
        fun v hv => List.forall_mem_cons.mpr ⟨hapart.1 v hv, hfree.2 v hv⟩
      obtain ⟨hadmits, bs', hafter, hmem⟩ := ih hapart.2 hpos.2 hfree'
      refine ⟨⟨Or.inr ⟨hpos.1, hnone⟩, by rw [hsame]; exact hadmits⟩, bs', ?_, fun x => ?_⟩
      · show (((Scene.paint video bs).handle (.add u)).1).after _ = _
        rw [hsame, hafter]
      · rw [hmem, List.mem_cons, List.exists_mem_cons_iff, and_iff_right (Nat.not_le.mp hlarge),
          or_comm (a := x = Blinker.new u), or_assoc]

end Paint

/-! ## The cells of the frames -/

/-- The character of a text at a row and a column. -/
def frameChar (lines : List (List UInt8)) (row col : Nat) : UInt8 := (lines.getD row []).getD col 32

/-- One of the frames has a character there. -/
def InFrame (lines₀ lines₁ : List (List UInt8)) (row col : Nat) : Prop :=
  ¬ (frameChar lines₀ row col = 32 ∧ frameChar lines₁ row col = 32)

instance (lines₀ lines₁ : List (List UInt8)) (row col : Nat) :
    Decidable (InFrame lines₀ lines₁ row col) := inferInstanceAs (Decidable (¬ _))

/-- The frames are at most 40 columns wide, have a number of rows that `location` can count, and
leave the place of the other blinker free. -/
structure FramesFit (lines₀ lines₁ : List (List UInt8)) : Prop where
  rows : max lines₀.length lines₁.length ≤ 819
  cols : ∀ line ∈ lines₀ ++ lines₁, line.length ≤ 40
  place : ¬ InFrame lines₀ lines₁ 6 20

/-- An address of the screen with a character of the frames: two bytes a cell, 80 cells a row, and
the frames from column 40 on. -/
def OnFrame (lines₀ lines₁ : List (List UInt8)) (a : Nat) : Prop :=
  a % 2 = 0 ∧ a < 4000 ∧ 40 ≤ a / 2 % 80 ∧ InFrame lines₀ lines₁ (a / 160) (a / 2 % 80 - 40)

instance (lines₀ lines₁ : List (List UInt8)) (a : Nat) : Decidable (OnFrame lines₀ lines₁ a) :=
  inferInstanceAs (Decidable (_ ∧ _))

/-- The screen with the frames, so many ticks after they have been added. -/
def frameScreen (lines₀ lines₁ : List (List UInt8)) (video : Nat → UInt8) (k a : Nat) : UInt8 :=
  if OnFrame lines₀ lines₁ a then
    if k % 30 < 15 then frameChar lines₀ (a / 160) (a / 2 % 80 - 40)
    else frameChar lines₁ (a / 160) (a / 2 % 80 - 40)
  else video a

section Frames

variable {uninit : BlinkStruct} {lines₀ lines₁ : List (List UInt8)} {row col : Nat}
variable {video : Nat → UInt8} {bs : List Blinker}

def frameBlinkAt (uninit : BlinkStruct) (lines₀ lines₁ : List (List UInt8)) (row col : Nat) :
    BlinkStruct :=
  frameBlink uninit row col (frameChar lines₀ row col) (frameChar lines₁ row col)

theorem mem_cell {c₀ c₁ : UInt8} {u : BlinkStruct} :
    u ∈ cell uninit row col c₀ c₁ ↔ ¬ (c₀ = 32 ∧ c₁ = 32) ∧ u = frameBlink uninit row col c₀ c₁ := by
  unfold cell
  split_ifs with h
  · exact iff_of_false List.not_mem_nil fun hu => hu.1 h
  · rw [List.mem_singleton, and_iff_right h]

theorem mem_rowCells {line₀ line₁ : List UInt8} {u : BlinkStruct} :
    u ∈ rowCells uninit row 0 line₀ line₁ ↔ ∃ col,
      ¬ (line₀.getD col 32 = 32 ∧ line₁.getD col 32 = 32) ∧
        u = frameBlink uninit row col (line₀.getD col 32) (line₁.getD col 32) := by
  have hblank : ∀ col, cell uninit row col 32 32 = [] := fun col => if_pos ⟨rfl, rfl⟩
  unfold rowCells
  rw [mem_sideBySide hblank]
  refine exists_congr fun col => ?_
  rw [Nat.zero_add, mem_cell]

theorem mem_frameCells {u : BlinkStruct} :
    u ∈ frameCells uninit 0 lines₀ lines₁ ↔
      ∃ row col, InFrame lines₀ lines₁ row col ∧ u = frameBlinkAt uninit lines₀ lines₁ row col := by
  have hblank : ∀ row, rowCells uninit row 0 [] [] = [] := fun _ => rfl
  unfold frameCells
  rw [mem_sideBySide hblank]
  refine exists_congr fun row => ?_
  rw [Nat.zero_add, mem_rowCells]
  rfl

theorem FramesFit.bounds (hfit : FramesFit lines₀ lines₁) (hin : InFrame lines₀ lines₁ row col) :
    row < 819 ∧ col < 40 := by
  have hrows := hfit.rows
  have hcols := hfit.cols
  rw [List.forall_mem_append] at hcols
  have hline : ∀ lines : List (List UInt8), lines.length ≤ 819 → (∀ line ∈ lines, line.length ≤ 40) →
      819 ≤ row ∨ 40 ≤ col → frameChar lines row col = 32 := by
    intro lines hlength hwidth hout
    unfold frameChar
    by_cases hrow : row < lines.length
    · have hmem : lines.getD row [] ∈ lines := by
        rw [List.getD_eq_getElem _ _ hrow]
        exact List.getElem_mem hrow
      have hle := hwidth _ hmem
      exact List.getD_eq_default _ _ (by omega)
    · rw [List.getD_eq_default _ _ (Nat.not_lt.mp hrow)]
      rfl
  by_contra hout
  have hout' : 819 ≤ row ∨ 40 ≤ col := by omega
  exact hin ⟨hline lines₀ (by omega) hcols.1 hout', hline lines₁ (by omega) hcols.2 hout'⟩

theorem FramesFit.location (hfit : FramesFit lines₀ lines₁) (hin : InFrame lines₀ lines₁ row col) :
    (frameBlinkAt uninit lines₀ lines₁ row col).location.toNat = row * 80 + col + 40 := by
  obtain ⟨hrow, hcol⟩ := hfit.bounds hin
  exact UInt16.toNat_ofNat_of_lt' (show row * 80 + col + 40 < 65536 by omega)

/-- The cells have places of their own. -/
theorem FramesFit.pairwise (hfit : FramesFit lines₀ lines₁) :
    (frameCells uninit 0 lines₀ lines₁).Pairwise fun u v => u.location ≠ v.location := by
  have hapart : ∀ {row col row' col' : Nat}, InFrame lines₀ lines₁ row col →
      InFrame lines₀ lines₁ row' col' → row ≠ row' ∨ col ≠ col' →
      (frameBlinkAt uninit lines₀ lines₁ row col).location ≠
        (frameBlinkAt uninit lines₀ lines₁ row' col').location := by
    intro row col row' col' hin hin' hne hsame
    have hlocation := @FramesFit.location uninit _ _ _ _ hfit hin
    have hlocation' := @FramesFit.location uninit _ _ _ _ hfit hin'
    have hcol := (hfit.bounds hin).2
    have hcol' := (hfit.bounds hin').2
    rw [hsame] at hlocation
    omega
  refine pairwise_sideBySide (fun row => pairwise_sideBySide (fun col => ?_) ?_) ?_
  · unfold cell
    split_ifs
    · exact List.Pairwise.nil
    · exact List.pairwise_singleton _ _
  · intro col col' hlt u hu v hv
    rw [Nat.zero_add, Nat.zero_add, mem_cell] at hu hv
    obtain ⟨hin, rfl⟩ := hu
    obtain ⟨hin', rfl⟩ := hv
    exact hapart hin hin' (Or.inr (Nat.ne_of_lt hlt))
  · intro row row' hlt u hu v hv
    rw [Nat.zero_add, mem_rowCells] at hu hv
    obtain ⟨col, hin, rfl⟩ := hu
    obtain ⟨col', hin', rfl⟩ := hv
    exact hapart hin hin' (Or.inl (Nat.ne_of_lt hlt))

/-- The blinker of a cell, so many ticks after it has been added. -/
def frameBlinker (uninit : BlinkStruct) (lines₀ lines₁ : List (List UInt8)) (row col k : Nat) : Blinker :=
  (Blinker.new (frameBlinkAt uninit lines₀ lines₁ row col)).aged k

theorem on_frameBlinker (uninit : BlinkStruct) (lines₀ lines₁ : List (List UInt8)) (row col k : Nat) :
    (frameBlinker uninit lines₀ lines₁ row col k).On ↔ k % 30 < 15 := by
  have hage : (frameBlinker uninit lines₀ lines₁ row col k).age = k := Nat.zero_add k
  unfold Blinker.On
  rw [hage]
  rfl

/-- The blinkers of the frames that are on the screen. -/
def FrameBlinkers (uninit : BlinkStruct) (lines₀ lines₁ : List (List UInt8)) (bs : List Blinker) : Prop :=
  ∀ x, x ∈ bs ↔ ∃ u ∈ frameCells uninit 0 lines₀ lines₁, u.location.toNat < 2000 ∧ x = .new u

theorem find?_eq_some_of_unique {α : Type} {p : α → Bool} {l : List α} {x : α} (hx : x ∈ l)
    (hp : p x = true) (hunique : ∀ y ∈ l, p y = true → y = x) : l.find? p = some x := by
  cases hfind : l.find? p with
  | none => exact absurd hp (List.find?_eq_none.mp hfind x hx)
  | some y => rw [hunique y (List.mem_of_find?_eq_some hfind) (List.find?_some hfind)]

theorem find?_frames (hfit : FramesFit lines₀ lines₁) (hbs : FrameBlinkers uninit lines₀ lines₁ bs)
    (k a : Nat) :
    ((bs.map (Blinker.aged k)).find? fun x => 2 * x.location.toNat = a) =
      if OnFrame lines₀ lines₁ a then
        some (frameBlinker uninit lines₀ lines₁ (a / 160) (a / 2 % 80 - 40) k)
      else none := by
  have hinv : ∀ y ∈ bs.map (Blinker.aged k), 2 * y.location.toNat = a →
      OnFrame lines₀ lines₁ a ∧ y = frameBlinker uninit lines₀ lines₁ (a / 160) (a / 2 % 80 - 40) k := by
    intro y hy hplace
    obtain ⟨x, hx, rfl⟩ := List.mem_map.mp hy
    obtain ⟨u, hu, hlt, rfl⟩ := (hbs x).mp hx
    obtain ⟨row, col, hin, rfl⟩ := mem_frameCells.mp hu
    have hlocation := @FramesFit.location uninit _ _ _ _ hfit hin
    have hcol := (hfit.bounds hin).2
    have hplace' : 2 * (frameBlinkAt uninit lines₀ lines₁ row col).location.toNat = a := hplace
    have hrow' : a / 160 = row := by omega
    have hcol' : a / 2 % 80 - 40 = col := by omega
    unfold OnFrame
    rw [hrow', hcol']
    exact ⟨⟨by omega, by omega, by omega, hin⟩, rfl⟩
  split_ifs with ha
  · have hlocation := @FramesFit.location uninit _ _ _ _ hfit ha.2.2.2
    obtain ⟨heven, hlt, hcol, hin⟩ := ha
    refine find?_eq_some_of_unique ?_ (decide_eq_true ?_) fun y hy htest =>
      (hinv y hy (of_decide_eq_true htest)).2
    · refine List.mem_map.mpr ⟨_, (hbs _).mpr ⟨_, mem_frameCells.mpr ⟨_, _, hin, rfl⟩, ?_, rfl⟩, rfl⟩
      omega
    · show 2 * (frameBlinkAt uninit lines₀ lines₁ (a / 160) (a / 2 % 80 - 40)).location.toNat = a
      omega
  · rw [List.find?_eq_none]
    exact fun y hy htest => ha (hinv y hy (of_decide_eq_true htest)).1

theorem paint_frames_screen (hfit : FramesFit lines₀ lines₁)
    (hbs : FrameBlinkers uninit lines₀ lines₁ bs) (k a : Nat) :
    (Scene.paint video (bs.map (Blinker.aged k))).screen a = frameScreen lines₀ lines₁ video k a := by
  unfold Scene.paint Scene.drawn Scene.start frameScreen
  dsimp only
  rw [find?_frames hfit hbs]
  by_cases ha : OnFrame lines₀ lines₁ a
  · rw [if_pos ha, if_pos ha]
    unfold Blinker.shown
    simp only [on_frameBlinker]
    rfl
  · rw [if_neg ha, if_neg ha]

/-- With another blinker in front. -/
theorem paint_cons_frames_screen (hfit : FramesFit lines₀ lines₁)
    (hbs : FrameBlinkers uninit lines₀ lines₁ bs) {x : Blinker} (hx : x.location = 540) (k a : Nat) :
    (Scene.paint video (x :: bs.map (Blinker.aged k))).screen a =
      if a = 1080 then x.shown else frameScreen lines₀ lines₁ video k a := by
  have hscreen := @paint_frames_screen _ _ _ video _ hfit hbs k a
  unfold Scene.paint Scene.drawn Scene.start at hscreen ⊢
  dsimp only at hscreen ⊢
  rw [List.find?_cons, hx]
  by_cases ha : a = 1080
  · subst ha
    rfl
  · rw [if_neg ha, ← hscreen, decide_eq_false (show ¬ 2 * (540 : UInt16).toNat = a from Ne.symm ha)]

/-- There is nothing of the frames at the place of the other blinker. -/
theorem FramesFit.not_onFrame (hfit : FramesFit lines₀ lines₁) : ¬ OnFrame lines₀ lines₁ 1080 :=
  fun hon => hfit.place hon.2.2.2

theorem not_at_540 (hfit : FramesFit lines₀ lines₁) (hbs : FrameBlinkers uninit lines₀ lines₁ bs)
    (k : Nat) : ∀ y ∈ bs.map (Blinker.aged k), y.location ≠ 540 := by
  have hnone := (find?_frames hfit hbs k 1080).trans (if_neg hfit.not_onFrame)
  rw [List.find?_eq_none] at hnone
  intro y hy hsame
  refine hnone y hy (decide_eq_true ?_)
  rw [hsame]
  rfl

/-- The frames are admitted, and give a scene of theirs. -/
theorem frames_added (uninit : BlinkStruct) (hfit : FramesFit lines₀ lines₁) (video : Nat → UInt8) :
    (Scene.start video).AdmitsAll ((frameCells uninit 0 lines₀ lines₁).map .add) ∧
      ∃ bs, (Scene.start video).after ((frameCells uninit 0 lines₀ lines₁).map .add) =
        Scene.paint video bs ∧ FrameBlinkers uninit lines₀ lines₁ bs := by
  have hpos : ∀ u ∈ frameCells uninit 0 lines₀ lines₁, 1 ≤ u.location.toNat := by
    intro u hu
    obtain ⟨row, col, hin, rfl⟩ := mem_frameCells.mp hu
    rw [hfit.location hin]
    omega
  obtain ⟨hadmits, bs, hafter, hmem⟩ := @paint_adds video [] _ (@FramesFit.pairwise uninit _ _ hfit) hpos
    fun u _ x hx => absurd hx List.not_mem_nil
  refine ⟨hadmits, bs, hafter, fun x => ?_⟩
  rw [hmem, or_iff_right List.not_mem_nil]

end Frames

/-! ## The screens of the program -/

theorem blinkerAt_eq (s : Scene) (location : UInt16) :
    s.blinkerAt location = s.blinkers.find? fun x => 2 * x.location.toNat = 2 * location.toNat := by
  unfold Scene.blinkerAt
  congr 1
  funext x
  rw [decide_eq_decide, ← UInt16.toNat_inj]
  omega

/-- The other blinker at a tick: it keeps its own time up to tick 200, then that of the first cell of
the frames if there is one, and is no longer there behind tick 300. -/
def imChar (lines₀ lines₁ : List (List UInt8)) (k : Nat) : UInt8 :=
  if min k 300 ≤ 200 ∨ ¬ InFrame lines₀ lines₁ 0 0 then
    if (min k 300 - 100) % 13 < 7 then 73 else 77
  else if min k 300 % 30 < 15 then 73 else 77

/-- The screen behind tick `k`. -/
def fishScreen (lines₀ lines₁ : List (List UInt8)) (video : Nat → UInt8) (k a : Nat) : UInt8 :=
  if 100 < k ∧ a = 1080 then imChar lines₀ lines₁ k else frameScreen lines₀ lines₁ video k a

section Show

variable {uninit : BlinkStruct} {lines₀ lines₁ : List (List UInt8)} {video : Nat → UInt8}
variable {bs : List Blinker} {scene : Scene}

/-- The ticks of a scene, when each is known. -/
theorem ticks_eq {n c : Nat} {screen : Nat → Nat → UInt8}
    (h : ∀ k, 0 < k → k ≤ n → (Scene.tick^[k] scene).screen = screen (c + k)) :
    scene.ticks n = (List.range n).map fun i => screen (c + (i + 1)) := by
  refine List.map_congr_left fun i hi => ?_
  exact h (i + 1) (Nat.succ_pos i) (List.mem_range.mp hi)

theorem aged_aged (x : Blinker) (m n : Nat) : (x.aged m).aged n = x.aged (m + n) := by
  show ({ x with age := x.age + m + n } : Blinker) = { x with age := x.age + (m + n) }
  rw [Nat.add_assoc]

theorem map_aged (bs : List Blinker) (m n : Nat) :
    (bs.map (Blinker.aged m)).map (Blinker.aged n) = bs.map (Blinker.aged (m + n)) := by
  rw [List.map_map]
  exact List.map_congr_left fun x _ => aged_aged x m n

/-- Up to tick 100 there are the frames. -/
theorem frames_ticks (hfit : FramesFit lines₀ lines₁) (hbs : FrameBlinkers uninit lines₀ lines₁ bs) :
    (Scene.paint video bs).ticks 100 =
      (List.range 100).map fun i => fishScreen lines₀ lines₁ video (0 + (i + 1)) := by
  refine ticks_eq fun k _ hk => ?_
  funext a
  rw [paint_tick_iterate, paint_frames_screen hfit hbs, Nat.zero_add, fishScreen,
    if_neg (by omega)]

/-- With the other blinker in front, when it is known what it shows. -/
theorem im_ticks (hfit : FramesFit lines₀ lines₁) (hbs : FrameBlinkers uninit lines₀ lines₁ bs)
    {x : Blinker} (hx : x.location = 540) {c : Nat} (hc : 100 ≤ c)
    (hshown : ∀ k ≤ 100, 0 < k → (x.aged k).shown = imChar lines₀ lines₁ (c + k)) :
    (Scene.paint video (x :: bs.map (Blinker.aged c))).ticks 100 =
      (List.range 100).map fun i => fishScreen lines₀ lines₁ video (c + (i + 1)) := by
  refine ticks_eq fun k hpos hk => ?_
  funext a
  have hscreen := @paint_cons_frames_screen _ _ _ video _ hfit hbs _
    (show (x.aged k).location = 540 from hx) (c + k) a
  rw [paint_tick_iterate, List.map_cons, map_aged, hscreen, hshown k hk hpos, fishScreen]
  by_cases ha : a = 1080
  · rw [if_pos ha, if_pos ⟨by omega, ha⟩]
  · rw [if_neg ha, if_neg fun h => ha h.2]

/-- The other blinker as long as it keeps its own time. -/
theorem im_shown (uninit : BlinkStruct) {k : Nat} (hk : k ≤ 200)
    (hown : k ≤ 100 ∨ ¬ InFrame lines₀ lines₁ 0 0) :
    ((Blinker.new (imBlink uninit)).aged k).shown = imChar lines₀ lines₁ (100 + k) := by
  have hage : ((Blinker.new (imBlink uninit)).aged k).age = k := Nat.zero_add k
  have hon : ((Blinker.new (imBlink uninit)).aged k).On ↔ k % 13 < 7 := by
    unfold Blinker.On
    rw [hage]
    rfl
  have hmin : min (100 + k) 300 = 100 + k := by omega
  have hown' : 100 + k ≤ 200 ∨ ¬ InFrame lines₀ lines₁ 0 0 := hown.imp_left fun h => by omega
  unfold Blinker.shown imChar
  rw [hmin, if_pos hown', Nat.add_sub_cancel_left]
  simp only [hon]
  rfl

theorem imAdded_eq (hfit : FramesFit lines₀ lines₁) (hbs : FrameBlinkers uninit lines₀ lines₁ bs)
    (uninit' : BlinkStruct) :
    (Scene.tick^[100] (Scene.paint video bs)).Admits (.add (imBlink uninit')) ∧
      imAdded uninit' (Scene.paint video bs) =
        Scene.paint video (.new (imBlink uninit') :: bs.map (Blinker.aged 100)) := by
  have hnone : (Scene.paint video (bs.map (Blinker.aged 100))).blinkerAt 540 = none := by
    rw [blinkerAt_eq]
    exact (find?_frames hfit hbs 100 1080).trans (if_neg hfit.not_onFrame)
  have hlocation : (imBlink uninit').location = 540 := rfl
  unfold imAdded
  rw [paint_tick_iterate, handle_add (by rw [hlocation]; decide)]
  exact ⟨Or.inr ⟨by rw [hlocation]; decide, hnone⟩, paint_add _⟩

/-- Behind the sync the other blinker has the time of the first cell, if there is one. -/
theorem imSynced_eq (hfit : FramesFit lines₀ lines₁) (hbs : FrameBlinkers uninit lines₀ lines₁ bs)
    (uninit' : BlinkStruct) :
    let scene := Scene.paint video (.new (imBlink uninit') :: bs.map (Blinker.aged 100))
    (Scene.tick^[100] scene).Admits (.sync ((40 : UInt32) <<< 16 ||| 540)) ∧
      ∃ x, imSynced scene = Scene.paint video (x :: bs.map (Blinker.aged 200)) ∧ x.location = 540 ∧
        ∀ k ≤ 100, 0 < k → (x.aged k).shown = imChar lines₀ lines₁ (200 + k) := by
  intro scene
  have hticked : Scene.tick^[100] scene = Scene.paint video
      ((Blinker.new (imBlink uninit')).aged 100 :: bs.map (Blinker.aged 200)) := by
    rw [paint_tick_iterate, List.map_cons, map_aged]
  have hdest : (Scene.tick^[100] scene).blinkerAt 540 =
      some ((Blinker.new (imBlink uninit')).aged 100) := by
    rw [hticked]
    rfl
  have hsrc : (Scene.tick^[100] scene).blinkerAt 40 =
      if OnFrame lines₀ lines₁ 80 then some (frameBlinker uninit lines₀ lines₁ 0 0 200) else none := by
    rw [hticked, blinkerAt_eq]
    exact find?_frames hfit hbs 200 80
  have hcell : OnFrame lines₀ lines₁ 80 ↔ InFrame lines₀ lines₁ 0 0 :=
    ⟨fun hon => hon.2.2.2, fun hin => ⟨rfl, by decide, by decide, hin⟩⟩
  have hhigh : (((40 : UInt32) <<< 16 ||| 540) >>> 16).toUInt16 = 40 := by decide
  have hlow : ((40 : UInt32) <<< 16 ||| 540).toUInt16 = 540 := by decide
  unfold imSynced Scene.Admits Scene.handle
  dsimp only
  rw [hhigh, hlow, hdest, hsrc]
  by_cases hin : InFrame lines₀ lines₁ 0 0
  · rw [if_pos (hcell.mpr hin)]
    refine ⟨fun x hx y _ hon => ?_,
      ((Blinker.new (imBlink uninit')).aged 100).like (frameBlinker uninit lines₀ lines₁ 0 0 200),
      ?_, rfl, fun k hk hpos => ?_⟩
    · cases hx
      rw [on_frameBlinker] at hon
      exact absurd hon (by decide)
    · have hkept : (bs.map (Blinker.aged 200)).map (fun y => if y.location = 540
          then y.like (frameBlinker uninit lines₀ lines₁ 0 0 200) else y) =
          bs.map (Blinker.aged 200) := by
        refine (List.map_congr_left fun y hy => if_neg fun hsame => ?_).trans (List.map_id _)
        exact not_at_540 hfit hbs 200 y hy hsame
      dsimp only
      rw [hticked, paint_sync, List.map_cons, hkept]
      rfl
    · have hage : (frameBlinker uninit lines₀ lines₁ 0 0 200).age = 200 := rfl
      have hon : ((((Blinker.new (imBlink uninit')).aged 100).like
          (frameBlinker uninit lines₀ lines₁ 0 0 200)).aged k).On ↔ (200 + k) % 30 < 15 := Iff.rfl
      have hmin : min (200 + k) 300 = 200 + k := by omega
      unfold Blinker.shown imChar
      rw [hmin, if_neg (not_or.mpr ⟨by omega, not_not.mpr hin⟩)]
      simp only [hon]
      rfl
  · rw [if_neg (mt hcell.mp hin)]
    refine ⟨fun x hx => absurd hx (Option.not_mem_none x), _, hticked, rfl, fun k hk _ => ?_⟩
    have hshown := @im_shown lines₀ lines₁ uninit' (100 + k) (by omega) (Or.inr hin)
    rw [← Nat.add_assoc] at hshown
    exact (congrArg Blinker.shown (aged_aged _ 100 k)).trans hshown

/-- Taken out, the other blinker leaves the character of tick 300. -/
theorem imRemoved_eq (hfit : FramesFit lines₀ lines₁) (hbs : FrameBlinkers uninit lines₀ lines₁ bs)
    {x : Blinker} (hx : x.location = 540)
    (hshown : (x.aged 100).shown = imChar lines₀ lines₁ 300) :
    imRemoved (Scene.paint video (x :: bs.map (Blinker.aged 200))) =
      Scene.paint (Function.update video 1080 (imChar lines₀ lines₁ 300))
        (bs.map (Blinker.aged 300)) := by
  have hx' : (x.aged 100).location = 540 := hx
  have hticked : Scene.tick^[100] (Scene.paint video (x :: bs.map (Blinker.aged 200))) =
      Scene.paint video (x.aged 100 :: bs.map (Blinker.aged 300)) := by
    rw [paint_tick_iterate, List.map_cons, map_aged]
  have hat : (Scene.paint video (x.aged 100 :: bs.map (Blinker.aged 300))).blinkerAt 540 =
      some (x.aged 100) :=
    List.find?_cons_of_pos (decide_eq_true hx')
  have hscreen := @paint_cons_frames_screen _ _ _ video _ hfit hbs _ hx' 300 1080
  rw [if_pos rfl, hshown] at hscreen
  have hplace : 2 * (540 : UInt16).toNat = 1080 := rfl
  have hkept : (x.aged 100 :: bs.map (Blinker.aged 300)).filter (fun y => y.location ≠ 540) =
      bs.map (Blinker.aged 300) := by
    rw [List.filter_cons_of_neg (by simpa using hx'), List.filter_eq_self]
    exact fun y hy => decide_eq_true (not_at_540 hfit hbs 300 y hy)
  have harg : (540 : UInt32).toUInt16 = 540 := by decide
  unfold imRemoved Scene.handle
  dsimp only
  rw [hticked, harg, hat, Option.isSome_some, if_pos rfl]
  dsimp only
  rw [paint_remove, hkept, hplace, hscreen]

/-- Behind tick 300. -/
theorem removed_ticks (hfit : FramesFit lines₀ lines₁) (hbs : FrameBlinkers uninit lines₀ lines₁ bs) :
    (Scene.paint (Function.update video 1080 (imChar lines₀ lines₁ 300))
        (bs.map (Blinker.aged 300))).ticks 100 =
      (List.range 100).map fun i => fishScreen lines₀ lines₁ video (300 + (i + 1)) := by
  refine ticks_eq fun k _ _ => ?_
  funext a
  rw [paint_tick_iterate, map_aged, paint_frames_screen hfit hbs]
  unfold fishScreen
  by_cases ha : a = 1080
  · subst ha
    have hmin : min (300 + k) 300 = min 300 300 := by omega
    rw [if_pos ⟨by omega, rfl⟩, frameScreen, if_neg hfit.not_onFrame, Function.update_self]
    unfold imChar
    rw [hmin]
  · rw [if_neg fun h => ha h.2]
    unfold frameScreen
    rw [Function.update_of_ne ha]

end Show

/-- The four loops show the four hundred screens. -/
theorem fishShow_screens {h : Host} {s : Fish} {fd : Nat} {uninit uninit' : BlinkStruct}
    {lines₀ lines₁ : List (List UInt8)} {video : Nat → UInt8} {bs : List Blinker}
    (hfit : FramesFit lines₀ lines₁) (hbs : FrameBlinkers uninit lines₀ lines₁ bs)
    (hclock : ClockComes h) (hat : ClockAt s.world.fileArray fd) (hfd0 : minFd ≤ fd)
    (hfd1 : fd < maxFd) (hplays : Plays s.blink (Scene.paint video bs)) :
    Meets (fishShow h uninit' fd) s fun r s' => r = 0 ∧ s'.screens = s.screens ++
      (List.range 400).map fun i => fishScreen lines₀ lines₁ video (i + 1) := by
  obtain ⟨hadd, hadded⟩ := @imAdded_eq uninit lines₀ lines₁ video bs hfit hbs uninit'
  obtain ⟨hsync, x, hsynced, hx, hshown⟩ := @imSynced_eq uninit lines₀ lines₁ video bs hfit hbs uninit'
  rw [← hadded] at hsync hsynced
  refine (fishShow_meets hclock hat hfd0 hfd1 hplays hadd hsync).imp ?_
  rintro r s' ⟨hr, hscreens⟩
  have hshown' : (x.aged 100).shown = imChar lines₀ lines₁ 300 := hshown 100 (by decide) (by decide)
  have hsplit₁ : List.range 200 = List.range 100 ++ (List.range 100).map (100 + ·) :=
    @List.range_add 100 100
  have hsplit₂ : List.range 300 = List.range 200 ++ (List.range 100).map (200 + ·) :=
    @List.range_add 200 100
  have hsplit₃ : List.range 400 = List.range 300 ++ (List.range 100).map (300 + ·) :=
    @List.range_add 300 100
  refine ⟨hr, ?_⟩
  rw [hscreens, frames_ticks hfit hbs, hadded,
    im_ticks hfit hbs rfl (by decide) fun k hk _ => im_shown uninit' (by omega) (Or.inl hk), ← hadded,
    hsynced, im_ticks hfit hbs hx (by decide) hshown, imRemoved_eq hfit hbs hx hshown',
    removed_ticks hfit hbs, hsplit₃, hsplit₂, hsplit₁]
  simp only [List.map_append, List.map_map, List.append_assoc, Nat.zero_add, Function.comp_def,
    Nat.add_assoc]

/-- A fresh process opens the clock. -/
theorem clock_opens {h : Host} {s : Fish} {slot : Nat}
    (hfresh : ∀ fd, minFd ≤ fd → fd < maxFd → s.world.fileArray fd = closedDescriptor)
    (hrtc : matchedSlot h.img (cstr (bytesOf "rtc")) = some slot)
    (htype : (dentryAt h.img slot).filetype = 0) :
    ∃ s', (call (h.ece391Open (bytesOf "rtc"))).run s = some (2, s') ∧ Ready s'.world.fileArray ∧
      s'.blink = s.blink ∧ s'.screens = s.screens := by
  have hfree : freeDescriptor s.world.fileArray = some 2 := by
    refine freeDescriptor_eq_some (by decide) (by decide) ?_ ?_
    · rw [hfresh 2 (by decide) (by decide)]
      rfl
    · intro j hj0 hj1
      unfold minFd at hj0
      omega
  have htable : fopTables (dentryAt h.img slot).filetype = some .rtc := by
    rw [htype]
    rfl
  have hself : (s.world.put 2 (openedDescriptor (dentryAt h.img slot) .rtc)).fileArray 2 =
      openedDescriptor (dentryAt h.img slot) .rtc := by
    show Function.update s.world.fileArray 2 (openedDescriptor (dentryAt h.img slot) .rtc) 2 = _
    rw [Function.update_self]
  refine ⟨_, call_run (open_run (by decide) (by decide) hrtc hfree htable), ⟨?_, ?_⟩, rfl, rfl⟩
  · rw [hself]
    exact ⟨rfl, Int.one_ne_zero⟩
  · intro j hj0 hj1
    have hother : (s.world.put 2 (openedDescriptor (dentryAt h.img slot) .rtc)).fileArray j =
        s.world.fileArray j := Function.update_of_ne (by omega) _ _
    rw [hother, hfresh j (by unfold minFd; omega) hj1]
    rfl

/-- The array is cleared before the first blinker. -/
theorem plays_clear {b : Blink} (hhead : b.head = none) (video : Nat → UInt8) :
    Plays { b.clear with video := video } (Scene.start video) := by
  have hcleared : { b.clear with video := video } = Blink.start video := by
    unfold Blink.clear
    rw [hhead]
    rfl
  rw [hcleared]
  exact ⟨[], refines_start _⟩

/-- **fish.** For every image with the clock and two frames that fit: `main` returns 0, and behind
each of the four hundred ticks the whole screen is that of the two frames in turn and of the other
blinker, and as `vidmap` has left it anywhere else: blank, if terminal 0 is that of the process. -/
theorem fish_plays {h : Host} {user : UserVideo} {vmemBaseAddr : Nat} {uninit uninit' : BlinkStruct}
    {s : Fish} {lines₀ lines₁ : List (List UInt8)}
    (hmapped : UserPageMapped (openScreen user h.pcbTerminal)) (hlow : usrLowBound ≤ vmemBaseAddr)
    (hhigh : vmemBaseAddr + 4 ≤ upperBound) (hhead : s.blink.head = none)
    (hfresh : ∀ fd, minFd ≤ fd → fd < maxFd → s.world.fileArray fd = closedDescriptor)
    {slot : Nat} (hrtc : matchedSlot h.img (cstr (bytesOf "rtc")) = some slot)
    (htype : (dentryAt h.img slot).filetype = 0) (hclock : ClockComes h)
    (htext₀ : TextFile h (bytesOf "frame0.txt") lines₀)
    (htext₁ : TextFile h (bytesOf "frame1.txt") lines₁) (hfit : FramesFit lines₀ lines₁) :
    ∃ video : Nat → UInt8,
      (∀ a < 4096, video a = if h.pcbTerminal = 0 ∧ a < 4000 then (if a % 2 = 0 then space else attrib)
        else user.console.video a) ∧
      ∀ fuel ≥ 820, Meets (fishMain h user vmemBaseAddr uninit uninit' fuel) s fun r s' =>
        r = 0 ∧ s'.screens = s.screens ++
          (List.range 400).map fun i => fishScreen lines₀ lines₁ video (i + 1) := by
  have htaken : ¬ Refused vmemBaseAddr := by
    unfold Refused
    omega
  have hcalled : (vidmap user h.pcbTerminal vmemBaseAddr).1 = some 0 :=
    congrArg Prod.fst (vidmap_of_mapped hmapped hlow hhigh)
  refine ⟨userScreen (vidmap user h.pcbTerminal vmemBaseAddr).2,
    fun a ha => userScreen_vidmap htaken user h.pcbTerminal ha, fun fuel hfuel => ?_⟩
  generalize hvideo : userScreen (vidmap user h.pcbTerminal vmemBaseAddr).2 = video
  obtain ⟨hadmits, bs, hafter, hbs⟩ := frames_added uninit hfit video
  have hrows := hfit.rows
  refine @Meets.call _ _ _ _ _ s { s with blink := s.blink.clear } ⟨⟩ _ rfl ?_
  dsimp only
  rw [hcalled, hvideo]
  dsimp only
  rw [if_neg (by decide)]
  have hshown : (modify fun s => { s with blink := { s.blink with video := video } } :
      FishProgram PUnit).run { s with blink := s.blink.clear } =
        some (⟨⟩, { s with blink := { s.blink.clear with video := video } }) := rfl
  obtain ⟨s₀, hopen, hready, hblink, hscreens₀⟩ := @clock_opens h
    { s with blink := { s.blink.clear with video := video } } slot hfresh hrtc htype
  have hplays : Plays s₀.blink (Scene.start video) := by
    rw [hblink]
    exact plays_clear hhead video
  refine Meets.call hshown (Meets.call hopen ?_)
  refine Meets.bind ((addFrames_meets htext₀ htext₁ hready hplays hadmits (fun line hline =>
    Nat.lt_of_le_of_lt (hfit.cols line hline) (by omega)) (by omega)).imp ?_)
  rintro _ s₁ ⟨rfl, hadded⟩
  have hat : ClockAt s₁.world.fileArray 2 := by
    unfold ClockAt
    rw [hadded.fileArray 2 (by decide) (by decide)]
    exact hready.clock
  have hplays₁ := hadded.plays
  rw [hafter] at hplays₁
  refine (fishShow_screens hfit hbs hclock hat (by decide) (by decide) hplays₁).imp ?_
  rintro r s' ⟨hr, hscreens⟩
  refine ⟨hr, ?_⟩
  rw [hscreens, hadded.screens, hscreens₀]

/-- The entries `rtc`, `frame0.txt`, which is empty, and `frame1.txt` with an `o`. -/
def framesImage : Image := fun addr =>
  if addr = 0 ∨ addr = 4 then 3
  else if addr = 8 then 1
  else if 64 ≤ addr ∧ addr < 67 then (bytesOf "rtc").getD (addr - 64) 0
  else if 128 ≤ addr ∧ addr < 138 then (bytesOf "frame0.txt").getD (addr - 128) 0
  else if addr = 160 then 2
  else if addr = 164 then 1
  else if 192 ≤ addr ∧ addr < 202 then (bytesOf "frame1.txt").getD (addr - 192) 0
  else if addr = 224 then 2
  else if addr = 228 then 2
  else if addr = 12288 then 1
  else if addr = 16384 then 111
  else 0

theorem inodeReadable_framesImage {inode : Nat} (h0 : 1 ≤ inode) (h1 : inode ≤ 2) :
    InodeReadable framesImage inode := by
  have hzero : ∀ addr, 8192 < addr → addr < 16384 → addr ≠ 12288 → framesImage addr = 0 := by
    intro addr hlow hhigh hne
    simp (disch := omega) only [framesImage, if_neg]
  have hnum : numInode framesImage = 3 := by decide
  refine ⟨by omega, by decide, fun k hk => ?_, ?_⟩
  · have hblock : dblock framesImage inode k = 0 := by
      unfold dblock word inodeAddr fsBlock
      rw [hzero _ (by omega) (by omega) (by omega), hzero _ (by omega) (by omega) (by omega),
        hzero _ (by omega) (by omega) (by omega), hzero _ (by omega) (by omega) (by omega)]
      rfl
    rw [hblock]
    decide
  · obtain rfl | rfl : inode = 1 ∨ inode = 2 := by omega
    · decide
    · decide

def framesHost : Host := { sampleHost with img := framesImage }

def framesUser : UserVideo where
  toTerminals := sampleHost.terminals 0
  pageTableUserVideo _ := 0
  maps _ := { directory := fun i => if i = 32 then 0x00800087 else 0, table := fun _ _ => 0 }
  memory _ := 0

theorem userPageMapped_frames : UserPageMapped (openScreen framesUser 0) := by
  intro vaddr hlow hhigh
  have hlower : usrLowBound = 0x08000000 := rfl
  have hupper : upperBound = 0x08400000 := rfl
  have hdir : vaddr / 2 ^ 22 = 32 := by omega
  refine translate_isSome_of_large ?_ ?_
  · show permits _ (if vaddr / 2 ^ 22 = 32 then 0x00800087 else 0) = true
    rw [hdir]
    rfl
  · show (if vaddr / 2 ^ 22 = 32 then 0x00800087 else 0 : Nat).testBit 7 = true
    rw [hdir]
    rfl

/-- The first cell of the frames: blank for fifteen ticks, and then an `o` for fifteen. The corner is
blank, since `vidmap` has cleared the screen. -/
theorem fish_plays_sample :
    Meets (fishMain framesHost framesUser 0x8000000 corner corner 820)
      { world := { startedWorld [] with fileArray := fun _ => closedDescriptor }
        blink := Blink.start fun _ => 0
        screens := [] } fun r s' => r = 0 ∧ s'.screens.map (fun screen => (screen 80, screen 0)) =
          (List.range 400).map fun i => (if (i + 1) % 30 < 15 then 32 else 111, space) := by
  have hregular₀ : RegularFile framesImage 1 :=
    ⟨by decide, by decide, inodeReadable_framesImage (by decide) (by decide), by decide⟩
  have hregular₁ : RegularFile framesImage 2 :=
    ⟨by decide, by decide, inodeReadable_framesImage (by decide) (by decide), by decide⟩
  have htext₀ : TextFile framesHost (bytesOf "frame0.txt") [[]] := ⟨1, by decide, hregular₀, by decide⟩
  have htext₁ : TextFile framesHost (bytesOf "frame1.txt") [[111]] :=
    ⟨2, by decide, hregular₁, by decide⟩
  have hclock : ClockComes framesHost := fun _ _ _ => ⟨_, rfl⟩
  have hfit : FramesFit [[]] [[111]] := ⟨by decide, by decide, by decide⟩
  obtain ⟨video, hvideo, hplays⟩ := @fish_plays framesHost framesUser 0x8000000 corner corner
    { world := { startedWorld [] with fileArray := fun _ => closedDescriptor }
      blink := Blink.start fun _ => 0
      screens := [] } _ _ userPageMapped_frames (by decide) (by decide) rfl (fun _ _ _ => rfl) 0
    (by decide) (by decide) hclock htext₀ htext₁ hfit
  refine (hplays 820 (by decide)).imp ?_
  rintro r s' ⟨hr, hscreens⟩
  refine ⟨hr, ?_⟩
  rw [hscreens, List.nil_append, List.map_map]
  refine List.map_congr_left fun i _ => ?_
  have hon : OnFrame [[]] [[111]] 80 := by decide
  have hoff : ¬ OnFrame [[]] [[111]] 0 := by decide
  have hcorner : video 0 = space := hvideo 0 (by decide)
  refine Prod.ext ?_ ?_
  · show fishScreen [[]] [[111]] video (i + 1) 80 = _
    rw [fishScreen, if_neg (by omega), frameScreen, if_pos hon]
    rfl
  · show fishScreen [[]] [[111]] video (i + 1) 0 = _
    rw [fishScreen, if_neg (by omega), frameScreen, if_neg hoff, hcorner]

end LinuxBasedOS.Programs
