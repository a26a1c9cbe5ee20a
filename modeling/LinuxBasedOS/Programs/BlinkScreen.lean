import LinuxBasedOS.Programs.Blink
import Mathlib.Data.Nat.Bitwise

/-!
# The screen of fish

Every blinker on the list has a status, and its place on the screen should show the character that
goes with it. `mp1_ioctl_add` draws the character of a blinker that is on, the tasklet draws by a
branch on the status, and `mp1_ioctl_sync` by a conditional move. The condition of the move is never
met after a `testb`, so a blinker set like one that is on is drawn as if it were off.

`screen_along_iff` says that the screen is right in all histories in which this makes no difference,
and in no other.
-/

namespace LinuxBasedOS.Programs

open LinkedList Transition Blink

/-! ## What the screen should show -/

/-- The character that goes with the status. -/
def BlinkStruct.shown (node : BlinkStruct) : UInt8 :=
  if node.status &&& 1 = 1 then node.onChar else node.offChar

/-- Every node on the list is shown at its place. -/
def ScreenRight (b : Blink) : Prop :=
  ∃ nodes, Linked b.next b.head nodes ∧
    ∀ i ∈ nodes, b.video (2 * (b.slots i).location.toNat) = (b.slots i).shown

/-- A blinker is added at a place of the screen other than the corner where there is none. -/
def AddsApart (b : Blink) : Request → Prop
  | .add user => 1 ≤ user.location.toNat ∧ user.location.toNat ≤ 1999 ∧
    b.mp1FindHelper user.location = some none
  | _ => True

/-- No blinker that shows two different characters is set like one that is on. -/
def SyncsOff (b : Blink) : Request → Prop
  | .sync arg => ∀ i j, b.mp1FindHelper (arg >>> 16).toUInt16 = some (some i) →
    b.mp1FindHelper arg.toUInt16 = some (some j) → (b.slots i).status &&& 1 = 1 →
    (b.slots j).onChar = (b.slots j).offChar
  | _ => True

instance (b : Blink) (request : Request) : Decidable (AddsApart b request) :=
  match request with
  | .add user => inferInstanceAs (Decidable (1 ≤ user.location.toNat ∧ user.location.toNat ≤ 1999 ∧
      b.mp1FindHelper user.location = some none))
  | .remove _ | .find _ | .sync _ | .tasklet => .isTrue trivial

/-- The condition on a sync, over the nodes that are found. -/
theorem syncsOff_iff (b : Blink) (arg : UInt32) :
    SyncsOff b (.sync arg) ↔ ∀ i ∈ (b.mp1FindHelper (arg >>> 16).toUInt16).join,
      ∀ j ∈ (b.mp1FindHelper arg.toUInt16).join, (b.slots i).status &&& 1 = 1 →
        (b.slots j).onChar = (b.slots j).offChar := by
  simp only [Option.mem_def, Option.join_eq_some_iff]
  exact ⟨fun h i hi j hj => h i j hi hj, fun h i j hi hj => h i hi j hj⟩

instance (b : Blink) (request : Request) : Decidable (SyncsOff b request) :=
  match request with
  | .sync arg => decidable_of_iff _ (syncsOff_iff b arg).symm
  | .add _ | .remove _ | .find _ | .tasklet => .isTrue trivial

/-! ## The invariant -/

structure Screen (b : Blink) (nodes : List Nat) : Prop extends Sound b nodes where
  apart : ∀ i ∈ nodes, ∀ j ∈ nodes, (b.slots i).location = (b.slots j).location → i = j
  shows : ∀ i ∈ nodes, b.video (2 * (b.slots i).location.toNat) = (b.slots i).shown

section Screen

variable {b b' : Blink} {nodes nodes' : List Nat}

theorem Screen.screenRight (h : Screen b nodes) : ScreenRight b := ⟨nodes, h.linked, h.shows⟩

theorem ScreenRight.shows (h : ScreenRight b) (hlinked : Linked b.next b.head nodes) {i : Nat}
    (hi : i ∈ nodes) : b.video (2 * (b.slots i).location.toNat) = (b.slots i).shown := by
  obtain ⟨nodes', hlinked', hshows⟩ := h
  obtain rfl := hlinked.unique hlinked'
  exact hshows i hi

theorem video_mp1Poke_self (b : Blink) (location : UInt16) (c : UInt8) :
    (b.mp1Poke location c).video (2 * location.toNat) = c := by
  unfold Blink.mp1Poke
  exact Function.update_self _ _ _

theorem video_mp1Poke_of_ne {location location' : UInt16} (h : location' ≠ location) (b : Blink)
    (c : UInt8) :
    (b.mp1Poke location c).video (2 * location'.toNat) = b.video (2 * location'.toNat) := by
  have hne : 2 * location'.toNat ≠ 2 * location.toNat := by
    intro hsame
    exact h (UInt16.toNat_inj.mp (by omega))
  unfold Blink.mp1Poke
  exact Function.update_of_ne hne _ _

/-- What changes no location keeps the places apart. -/
theorem Screen.apart_of_same (h : Screen b nodes) (hsub : ∀ i ∈ nodes', i ∈ nodes)
    (hlocation : ∀ i ∈ nodes', (b'.slots i).location = (b.slots i).location) :
    ∀ i ∈ nodes', ∀ j ∈ nodes', (b'.slots i).location = (b'.slots j).location → i = j := by
  intro i hi j hj hij
  rw [hlocation i hi, hlocation j hj] at hij
  exact h.apart i (hsub i hi) j (hsub j hj) hij

/-- A node of the list is written, with its link and its location, and drawn. -/
theorem Screen.draw (h : Screen b nodes) {j : Nat} (hj : j ∈ nodes) {node : BlinkStruct} {c : UInt8}
    (hnext : node.next = b.next j) (hlocation : node.location = (b.slots j).location)
    (hc : c = node.shown) : Screen ((b.setSlot j node).mp1Poke node.location c) nodes := by
  have hsame := same_setSlot b hnext hlocation
  refine ⟨h.toSound.of_same rfl (fun k => (hsame k).1) fun k => (hsame k).2,
    h.apart_of_same (fun _ hk => hk) fun k _ => (hsame k).2, ?_⟩
  · intro k hk
    have hslots : ((b.setSlot j node).mp1Poke node.location c).slots = (b.setSlot j node).slots := rfl
    rw [hslots]
    by_cases hkj : k = j
    · subst hkj
      rw [slots_setSlot_self, video_mp1Poke_self]
      exact hc
    · have hne : (b.slots k).location ≠ node.location := by
        intro hsame
        exact hkj (h.apart k hk j hj (hsame.trans hlocation))
      rw [slots_setSlot_of_ne hkj, video_mp1Poke_of_ne hne]
      exact h.shows k hk

/-- A node of the list is written, and what it shows is the same. -/
theorem Screen.setSlot (h : Screen b nodes) {j : Nat} {node : BlinkStruct}
    (hnext : node.next = b.next j) (hlocation : node.location = (b.slots j).location)
    (hshown : node.shown = (b.slots j).shown) : Screen (b.setSlot j node) nodes := by
  have hsame := same_setSlot b hnext hlocation
  refine ⟨h.toSound.of_same rfl (fun k => (hsame k).1) fun k => (hsame k).2,
    h.apart_of_same (fun _ hk => hk) fun k _ => (hsame k).2, ?_⟩
  · intro k hk
    have hshows := h.shows k hk
    by_cases hkj : k = j
    · subst hkj
      rw [slots_setSlot_self, hlocation, hshown]
      exact hshows
    · rw [slots_setSlot_of_ne hkj]
      exact hshows

/-! ## Adding and removing -/

theorem Screen.addNode (h : Screen b nodes) {i : Nat} (hmalloc : b.mp1Malloc = some i)
    {user : BlinkStruct} (hne : user.location ≠ 0)
    (hapart : ∀ j ∈ nodes, (b.slots j).location ≠ user.location) :
    Screen (b.addNode i user) (i :: nodes) := by
  have hji : ∀ j ∈ nodes, j ≠ i := by
    rintro j hj rfl
    exact h.toSound.fresh hmalloc hj
  have hslots : ∀ j ∈ nodes, (b.addNode i user).slots j = b.slots j :=
    fun j hj => slots_addNode_of_ne (hji j hj) b user
  have hself : ((b.addNode i user).slots i).location = user.location := by
    rw [slots_addNode_self]
    rfl
  refine ⟨h.toSound.addNode hmalloc hne, ?_, ?_⟩
  · intro j hj k hk hjk
    rcases List.mem_cons.mp hj with rfl | hj'
    · rcases List.mem_cons.mp hk with rfl | hk'
      · rfl
      · rw [hself, hslots k hk'] at hjk
        exact absurd hjk.symm (hapart k hk')
    · rcases List.mem_cons.mp hk with rfl | hk'
      · rw [hself, hslots j hj'] at hjk
        exact absurd hjk (hapart j hj')
      · rw [hslots j hj', hslots k hk'] at hjk
        exact h.apart j hj' k hk' hjk
  · rw [List.forall_mem_cons]
    constructor
    · have hon : (1 : UInt16) &&& 1 = 1 := by decide
      have hshown : (user.added b.head).shown = user.onChar := if_pos hon
      rw [slots_addNode_self, hshown]
      unfold Blink.addNode
      exact video_mp1Poke_self _ user.location user.onChar
    · intro j hj
      rw [hslots j hj]
      exact (video_mp1Poke_of_ne (hapart j hj) _ user.onChar).trans (h.shows j hj)

/-- Taking out a node changes at most the links of the others. -/
theorem slots_removeNode (b : Blink) (cell : Option Nat) {i j : Nat} (h : j ≠ i) :
    ∃ q, (b.removeNode cell i).slots j = { b.slots j with next := q } := by
  unfold Blink.removeNode
  rw [slots_setSlot_of_ne h]
  cases cell with
  | none => exact ⟨(b.slots j).next, rfl⟩
  | some k =>
    unfold Blink.writeCell
    by_cases hjk : j = k
    · subst hjk
      rw [slots_setSlot_self]
      exact ⟨b.next i, rfl⟩
    · rw [slots_setSlot_of_ne hjk]
      exact ⟨(b.slots j).next, rfl⟩

theorem video_removeNode (b : Blink) (cell : Option Nat) (i : Nat) :
    (b.removeNode cell i).video = b.video := by
  cases cell <;> rfl

theorem Screen.removeNode {first rest : List Nat} {i : Nat} (h : Screen b (first ++ i :: rest)) :
    Screen (b.removeNode first.getLast? i) (first ++ rest) := by
  have hnodup := h.nodup
  rw [List.nodup_middle, List.nodup_cons] at hnodup
  have hsub : ∀ j ∈ first ++ rest, j ∈ first ++ i :: rest := by
    intro j hj
    rw [List.mem_append] at hj
    rw [List.mem_append, List.mem_cons]
    exact hj.imp_right Or.inr
  have hne : ∀ j ∈ first ++ rest, j ≠ i := by
    rintro j hj rfl
    exact hnodup.1 hj
  refine ⟨h.toSound.removeNode, h.apart_of_same hsub ?_, ?_⟩
  · intro j hj
    obtain ⟨q, hq⟩ := slots_removeNode b first.getLast? (hne j hj)
    rw [hq]
  · intro j hj
    obtain ⟨q, hq⟩ := slots_removeNode b first.getLast? (hne j hj)
    rw [hq, video_removeNode]
    exact h.shows j (hsub j hj)

/-! ## Status bits -/

theorem and_one_iff (status : UInt16) :
    (status &&& 1 = 1 ↔ status.toNat % 2 = 1) ∧ (status &&& 1 = 0 ↔ status.toNat % 2 = 0) := by
  have hbit : (status &&& 1).toNat = status.toNat % 2 := by
    rw [UInt16.toNat_and]
    exact Nat.and_one_is_mod _
  rw [← UInt16.toNat_inj, ← UInt16.toNat_inj, hbit]
  exact ⟨Iff.rfl, Iff.rfl⟩

theorem xor_one_mod (status : UInt16) : (status ^^^ 1).toNat % 2 = (status.toNat + 1) % 2 := by
  rw [UInt16.toNat_xor]
  exact Nat.xor_mod_two_eq

/-- The flags of `testb` never say less. -/
theorem testbLess_eq_false (status : UInt16) : testbLess status = false := by
  have hbit : (status.toUInt8 &&& 1).toNat = status.toUInt8.toNat % 2 := by
    rw [UInt8.toNat_and]
    exact Nat.and_one_is_mod _
  refine decide_eq_false ?_
  intro hge
  have hge' : 128 ≤ (status.toUInt8 &&& 1).toNat := hge
  omega

/-- The tasklet draws what goes with the new status, or leaves the status. -/
theorem tick_shown (node : BlinkStruct) :
    match node.tick.2 with
    | none => node.tick.1.shown = node.shown
    | some c => c = node.tick.1.shown := by
  unfold BlinkStruct.tick
  dsimp only
  split_ifs with hcount hoff
  · rfl
  · have hon : (node.status ^^^ 1) &&& 1 = 1 := by
      rw [(and_one_iff _).1, xor_one_mod]
      rw [(and_one_iff _).2] at hoff
      omega
    exact (if_pos hon).symm
  · have hon : ¬ (node.status ^^^ 1) &&& 1 = 1 := by
      rw [(and_one_iff _).1, xor_one_mod]
      rw [(and_one_iff _).2] at hoff
      omega
    exact (if_neg hon).symm

/-! ## The tasklet and sync -/

theorem Screen.blinkNode (h : Screen b nodes) {i : Nat} (hi : i ∈ nodes) :
    Screen (blinkNode b i) nodes := by
  obtain ⟨hnext, hlocation, -, -⟩ := tick_same (b.slots i)
  have hshown := tick_shown (b.slots i)
  unfold Programs.blinkNode
  dsimp only
  cases hdrawn : (b.slots i).tick.2 with
  | none =>
    rw [hdrawn] at hshown
    exact h.setSlot hnext hlocation hshown
  | some c =>
    rw [hdrawn] at hshown
    exact h.draw hi hnext hlocation hshown

theorem Screen.blinkNodes (h : Screen b nodes) {visited : List Nat}
    (hvisited : ∀ i ∈ visited, i ∈ nodes) : Screen (visited.foldl Programs.blinkNode b) nodes := by
  induction visited generalizing b with
  | nil => exact h
  | cons i visited ih =>
    rw [List.forall_mem_cons] at hvisited
    exact ih (h.blinkNode hvisited.1) hvisited.2

/-- What is drawn by `mp1_ioctl_sync`. -/
theorem syncNode_eq (b : Blink) (i j : Nat) :
    b.syncNode i j = (b.setSlot j ((b.slots j).syncFrom (b.slots i))).mp1Poke
      ((b.slots j).syncFrom (b.slots i)).location (b.slots j).offChar := by
  unfold Blink.syncNode
  dsimp only
  rw [testbLess_eq_false, if_neg Bool.false_ne_true]
  rfl

/-- The node is drawn right when it is set off, or when its characters are the same. -/
theorem shown_syncFrom (dest src : BlinkStruct) :
    dest.offChar = (dest.syncFrom src).shown ↔
      (src.status &&& 1 = 1 → dest.onChar = dest.offChar) := by
  unfold BlinkStruct.shown BlinkStruct.syncFrom
  dsimp only
  split_ifs with hon
  · constructor
    · intro h _
      exact h.symm
    · intro h
      exact (h hon).symm
  · constructor
    · intro _ hon'
      exact absurd hon' hon
    · intro _
      rfl

theorem Screen.syncNode (h : Screen b nodes) {i j : Nat} (hj : j ∈ nodes)
    (hoff : (b.slots i).status &&& 1 = 1 → (b.slots j).onChar = (b.slots j).offChar) :
    Screen (b.syncNode i j) nodes := by
  rw [syncNode_eq]
  exact h.draw hj rfl rfl ((shown_syncFrom _ _).mpr hoff)

/-- The place of the node that has been set shows its off character. -/
theorem ScreenRight.of_syncNode {i j : Nat} (hright : ScreenRight (b.syncNode i j))
    (hlinked : Linked (b.syncNode i j).next (b.syncNode i j).head nodes) (hj : j ∈ nodes) :
    (b.slots i).status &&& 1 = 1 → (b.slots j).onChar = (b.slots j).offChar := by
  have hshows := hright.shows hlinked hj
  have hself : (b.syncNode i j).slots j = (b.slots j).syncFrom (b.slots i) :=
    slots_setSlot_self b j _
  rw [hself, syncNode_eq, video_mp1Poke_self] at hshows
  exact (shown_syncFrom _ _).mp hshows

/-! ## The requests keep the screen -/

variable {request : Request} {r : Int}

theorem Does.screen (hdoes : Does b nodes request b' r nodes') (h : Screen b nodes)
    (hadds : AddsApart b request) (hsync : SyncsOff b request) : Screen b' nodes' := by
  cases hdoes with
  | refused => exact h
  | @added user i hmalloc =>
    obtain ⟨hpos, -, hnone⟩ := hadds
    rw [mp1FindHelper_eq h.toSound, Option.some.injEq, List.find?_eq_none] at hnone
    refine h.addNode hmalloc ?_ ?_
    · rintro hzero
      rw [hzero] at hpos
      exact absurd hpos (by decide)
    · intro j hj hsame
      exact hnone j hj (decide_eq_true hsame)
  | removed hnodes =>
    subst hnodes
    exact h.removeNode
  | found location => exact h
  | synced hsrc hdest hi hj => exact h.syncNode hj (hsync _ _ hsrc hdest)
  | ticked => exact h.blinkNodes fun i hi => hi

/-- A screen that is right after a sync shows that the sync made no difference. -/
theorem Screen.syncsOff (h : Screen b nodes) (hright : Reaches blinkStep ScreenRight b request) :
    SyncsOff b request := by
  cases request with
  | sync arg =>
    intro i j hsrc hdest
    have hstep : blinkStep b (.sync arg) = some (b.syncNode i j) := by
      rw [blinkStep, handle, mp1IoctlSync, hsrc, Option.bind_eq_bind, Option.bind_some]
      dsimp only
      rw [hdest]
      rfl
    have hj : j ∈ nodes := by
      rw [mp1FindHelper_eq h.toSound, Option.some.injEq] at hdest
      exact List.mem_of_find?_eq_some hdest
    exact ScreenRight.of_syncNode (hright _ hstep) (h.toSound.syncNode i j).linked hj
  | add user => trivial
  | remove arg => trivial
  | find location => trivial
  | tasklet => trivial

end Screen

/-- **The screen.** From the empty list on, in every sequence of requests and ticks in which
blinkers are added at places of their own, every blinker on the list is shown as its status says
after every step exactly when no blinker with two different characters is set like one that is on. -/
theorem screen_along_iff (video : Nat → UInt8) {requests : List Request}
    (hadds : Along blinkStep AddsApart (Blink.start video) requests) :
    Along blinkStep (Reaches blinkStep ScreenRight) (Blink.start video) requests ↔
      Along blinkStep SyncsOff (Blink.start video) requests := by
  have hboth : Along blinkStep (fun b request => Reaches blinkStep ScreenRight b request ∧
        AddsApart b request) (Blink.start video) requests ↔
      Along blinkStep (fun b request => SyncsOff b request ∧ AddsApart b request)
        (Blink.start video) requests := by
    refine along_iff_of_keep (A := fun b => ∃ nodes, Screen b nodes) ?_ ?_ ?_
    · rintro b request ⟨nodes, h⟩ ⟨hsync, hadd⟩
      obtain ⟨b', r, nodes', hhandle, hdoes⟩ := h.toSound.does request
      have h' := hdoes.screen h hadd hsync
      exact ⟨⟨reaches_of_handle hhandle h'.screenRight, hadd⟩,
        reaches_of_handle hhandle ⟨nodes', h'⟩⟩
    · rintro b request ⟨nodes, h⟩ ⟨hright, hadd⟩
      exact ⟨h.syncsOff hright, hadd⟩
    · exact ⟨[], sound_start video, fun i hi => absurd hi List.not_mem_nil,
        fun i hi => absurd hi List.not_mem_nil⟩
  rw [along_and, along_and] at hboth
  exact ⟨fun h => (hboth.mp ⟨h, hadds⟩).1, fun h => (hboth.mpr ⟨h, hadds⟩).1⟩

/-- A blinker in the first row. -/
def star (location : UInt16) : BlinkStruct where
  location := location
  onChar := 42
  offChar := 32
  onLength := 3
  offLength := 3
  countdown := 0
  status := 0
  next := none

/-- A blinker is switched off by the third tick; another one is set like it, and both are switched on
by the third tick behind that. -/
def starsInStep : List Request :=
  [.add (star 1), .tasklet, .tasklet, .tasklet, .add (star 2), .sync 0x10002, .tasklet, .tasklet,
    .tasklet]

theorem screen_right_stars_in_step :
    Along blinkStep (Reaches blinkStep ScreenRight) (Blink.start fun _ => 32) starsInStep ∧
      (run blinkStep (Blink.start fun _ => 32) starsInStep).map
        (fun b => (b.video 2, b.video 4)) = some (42, 42) :=
  ⟨(screen_along_iff _ (by decide +kernel)).mpr (by decide +kernel), by decide +kernel⟩

/-- Of two blinkers that are both on, the second is set like the first: a blank is drawn where its
star should be. -/
theorem star_synced_drawn_off :
    Along blinkStep AddsApart (Blink.start fun _ => 32)
        [.add (star 1), .add (star 2), .sync 0x10002] ∧
      ¬ Along blinkStep (Reaches blinkStep ScreenRight) (Blink.start fun _ => 32)
        [.add (star 1), .add (star 2), .sync 0x10002] := by
  have hfirst : blinkStep (Blink.start fun _ => 32) (.add (star 1)) =
      some ((Blink.start fun _ => 32).addNode 0 (star 1)) := by
    have hmalloc : (Blink.start fun _ => 32).mp1Malloc = some 0 :=
      mp1Malloc_iff.mpr ⟨by decide, rfl, fun j hj => absurd hj (Nat.not_lt_zero j)⟩
    rw [blinkStep, handle, mp1IoctlAdd, if_neg (by decide), hmalloc]
    rfl
  have hsecond : blinkStep ((Blink.start fun _ => 32).addNode 0 (star 1)) (.add (star 2)) =
      some (((Blink.start fun _ => 32).addNode 0 (star 1)).addNode 1 (star 2)) := by
    have hmalloc : ((Blink.start fun _ => 32).addNode 0 (star 1)).mp1Malloc = some 1 := by
      refine mp1Malloc_iff.mpr ⟨by decide, rfl, ?_⟩
      intro j hj
      obtain rfl : j = 0 := by omega
      decide
    rw [blinkStep, handle, mp1IoctlAdd, if_neg (by decide), hmalloc]
    rfl
  constructor
  · refine ⟨⟨by decide, by decide, rfl⟩, ?_⟩
    rw [hfirst]
    refine ⟨⟨by decide, by decide, rfl⟩, ?_⟩
    rw [hsecond]
    refine ⟨trivial, ?_⟩
    split <;> trivial
  · intro h
    obtain ⟨-, h⟩ := along_cons h hfirst
    obtain ⟨-, h⟩ := along_cons h hsecond
    obtain ⟨hright, -⟩ := h
    have hstep : blinkStep (((Blink.start fun _ => 32).addNode 0 (star 1)).addNode 1 (star 2))
        (.sync 0x10002) =
        some ((((Blink.start fun _ => 32).addNode 0 (star 1)).addNode 1 (star 2)).syncNode 0 1) :=
      rfl
    have hlinked : Linked ((((Blink.start fun _ => 32).addNode 0 (star 1)).addNode 1
        (star 2)).syncNode 0 1).next (some 1) [1, 0] := ⟨rfl, rfl, rfl⟩
    have hsame := ScreenRight.of_syncNode (hright _ hstep) hlinked List.mem_cons_self rfl
    exact absurd hsame (by decide)

end LinuxBasedOS.Programs
