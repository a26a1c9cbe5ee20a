import LinuxBasedOS.Programs.BlinkScreen
import Mathlib.Data.List.Forall2

/-!
# The animation of fish

What is seen of `blink.S` is the screen and what the requests answer. `Scene` says it with no slots,
links, countdowns and status bits: a blinker has an age, the ticks since it was added, and it is on
in the first part of each of its periods. After every request the blinkers are drawn, and the rest
of the screen is as before.

A countdown is compared with zero as a signed number after it has been decremented, so a length that
is zero or more than 32768 lasts one tick. `blinkers_keep_time` says that the list and the scene
cannot be told apart as long as blinkers are added at free places and none with two different
characters is set like one that is on.
-/

namespace LinuxBasedOS.Programs

open LinkedList Transition Blink

/-! ## The scene -/

/-- The ticks until a countdown comes to its end. -/
def lasting (count : UInt16) : Nat :=
  if 1 ≤ count.toNat ∧ count.toNat ≤ 32768 then count.toNat else 1

structure Blinker where
  location : UInt16
  onChar : UInt8
  offChar : UInt8
  onLength : UInt16
  offLength : UInt16
  age : Nat
  deriving DecidableEq, Repr

namespace Blinker

/-- A blinker that has just been added. -/
def new (user : BlinkStruct) : Blinker where
  location := user.location
  onChar := user.onChar
  offChar := user.offChar
  onLength := user.onLength
  offLength := user.offLength
  age := 0

def period (x : Blinker) : Nat := lasting x.onLength + lasting x.offLength

def On (x : Blinker) : Prop := x.age % x.period < lasting x.onLength

instance (x : Blinker) : Decidable x.On :=
  inferInstanceAs (Decidable (x.age % x.period < lasting x.onLength))

def shown (x : Blinker) : UInt8 := if x.On then x.onChar else x.offChar

def older (x : Blinker) : Blinker := { x with age := x.age + 1 }

/-- The times of another blinker. -/
def like (x y : Blinker) : Blinker :=
  { x with onLength := y.onLength, offLength := y.offLength, age := y.age }

end Blinker

structure Scene where
  blinkers : List Blinker
  screen : Nat → UInt8

namespace Scene

def start (video : Nat → UInt8) : Scene where
  blinkers := []
  screen := video

/-- With these blinkers, each drawn at its place. -/
def drawn (s : Scene) (blinkers : List Blinker) : Scene where
  blinkers := blinkers
  screen a :=
    match blinkers.find? fun x => 2 * x.location.toNat = a with
    | some x => x.shown
    | none => s.screen a

def blinkerAt (s : Scene) (location : UInt16) : Option Blinker :=
  s.blinkers.find? fun x => x.location = location

def add (s : Scene) (user : BlinkStruct) : Scene := s.drawn (.new user :: s.blinkers)

def remove (s : Scene) (location : UInt16) : Scene :=
  { s with blinkers := s.blinkers.filter fun x => x.location ≠ location }

def sync (s : Scene) (x : Blinker) (location : UInt16) : Scene :=
  s.drawn (s.blinkers.map fun y => if y.location = location then y.like x else y)

def tick (s : Scene) : Scene := s.drawn (s.blinkers.map Blinker.older)

/-- A request, with the scene after it and what it returns. -/
def handle (s : Scene) : Request → Scene × Int
  | .add user => if 2000 ≤ user.location.toNat then (s, -1) else (s.add user, 0)
  | .remove arg => if (s.blinkerAt arg.toUInt16).isSome then (s.remove arg.toUInt16, 0) else (s, -1)
  | .find location => (s, if (s.blinkerAt location).isSome then 0 else -1)
  | .sync arg =>
    match s.blinkerAt (arg >>> 16).toUInt16, s.blinkerAt arg.toUInt16 with
    | some x, some _ => (s.sync x arg.toUInt16, 0)
    | _, _ => (s, -1)
  | .tasklet => (s.tick, 0)

/-- A blinker is added at a place of its own (or at none), and none with two different characters is
set like one that is on. -/
def Admits (s : Scene) : Request → Prop
  | .add user =>
    2000 ≤ user.location.toNat ∨ 1 ≤ user.location.toNat ∧ s.blinkerAt user.location = none
  | .sync arg =>
    ∀ x ∈ s.blinkerAt (arg >>> 16).toUInt16, ∀ y ∈ s.blinkerAt arg.toUInt16,
      x.On → y.onChar = y.offChar
  | .remove _ | .find _ | .tasklet => True

instance (s : Scene) : (request : Request) → Decidable (s.Admits request)
  | .add _ => inferInstanceAs (Decidable (_ ∨ _))
  | .sync arg =>
    inferInstanceAs (Decidable (∀ x ∈ s.blinkerAt (arg >>> 16).toUInt16,
      ∀ y ∈ s.blinkerAt arg.toUInt16, x.On → y.onChar = y.offChar))
  | .remove _ | .find _ | .tasklet => .isTrue trivial

end Scene

/-- A step with the answers so far. -/
def logged {σ : Type} (handle : σ → Request → Option (σ × Int)) :
    σ × List Int → Request → Option (σ × List Int) :=
  fun (s, answers) request => (handle s request).map fun (s', r) => (s', answers ++ [r])

/-- The scene, step by step. -/
def sceneStep : Scene × List Int → Request → Option (Scene × List Int) :=
  logged fun s request => some (s.handle request)

/-! ## Time -/

theorem lasting_pos (count : UInt16) : 0 < lasting count := by
  unfold lasting
  split_ifs with h
  · exact h.1
  · exact Nat.one_pos

/-- The test of the tasklet. -/
theorem lasting_tick (count : UInt16) :
    (0 < count - 1 ∧ count - 1 < 32768 ↔ 1 < lasting count) ∧
      (1 < lasting count → lasting (count - 1) + 1 = lasting count) := by
  have hcount : count.toNat < 65536 := count.toNat_lt
  have hpred : (count - 1).toNat = (65535 + count.toNat) % 65536 := by
    rw [UInt16.toNat_sub]
    rfl
  have hcompare : 0 < count - 1 ∧ count - 1 < 32768 ↔
      0 < (count - 1).toNat ∧ (count - 1).toNat < 32768 := by
    rw [UInt16.lt_iff_toNat_lt, UInt16.lt_iff_toNat_lt]
    rfl
  rw [hcompare]
  unfold lasting
  rw [hpred]
  constructor
  · split_ifs <;> omega
  · split_ifs <;> omega

/-- A node of the list and what is seen of it. -/
structure Seen (node : BlinkStruct) (x : Blinker) : Prop where
  location : node.location = x.location
  onChar : node.onChar = x.onChar
  offChar : node.offChar = x.offChar
  onLength : node.onLength = x.onLength
  offLength : node.offLength = x.offLength
  on_iff : node.status &&& 1 = 1 ↔ x.On
  /-- what is left until the status changes -/
  left : lasting node.countdown + x.age % x.period = if x.On then lasting x.onLength else x.period

section Seen

variable {node src : BlinkStruct} {x y : Blinker}

theorem Seen.shown (h : Seen node x) : node.shown = x.shown := by
  unfold BlinkStruct.shown Blinker.shown
  simp only [h.on_iff, h.onChar, h.offChar]

theorem seen_added (user : BlinkStruct) (next : Option Nat) :
    Seen (user.added next) (.new user) := by
  have hage : (Blinker.new user).age % (Blinker.new user).period = 0 := Nat.zero_mod _
  have hon : (Blinker.new user).On := by
    unfold Blinker.On
    rw [hage]
    exact lasting_pos user.onLength
  have hbit : (1 : UInt16) &&& 1 = 1 := by decide
  refine ⟨rfl, rfl, rfl, rfl, rfl, iff_of_true hbit hon, ?_⟩
  rw [if_pos hon, hage]
  rfl

theorem Seen.sync (hdest : Seen node x) (hsrc : Seen src y) :
    Seen (node.syncFrom src) (x.like y) where
  location := hdest.location
  onChar := hdest.onChar
  offChar := hdest.offChar
  onLength := hsrc.onLength
  offLength := hsrc.offLength
  on_iff := hsrc.on_iff
  left := hsrc.left

theorem tick_of_lt (hleft : 1 < lasting node.countdown) :
    node.tick.1 = { node with countdown := node.countdown - 1 } := by
  unfold BlinkStruct.tick
  dsimp only
  rw [if_pos ((lasting_tick _).1.mpr hleft)]

theorem tick_of_le (hleft : lasting node.countdown ≤ 1) :
    node.tick.1 =
      { node with
        countdown := if node.status &&& 1 = 1 then node.offLength else node.onLength
        status := node.status ^^^ 1 } := by
  have hend : ¬ (0 < node.countdown - 1 ∧ node.countdown - 1 < 32768) := by
    rw [(lasting_tick _).1, Nat.not_lt]
    exact hleft
  unfold BlinkStruct.tick
  dsimp only
  rw [if_neg hend]
  have hone := and_one_iff node.status
  by_cases hoff : node.status &&& 1 = 0
  · have hon : ¬ node.status &&& 1 = 1 := by
      rw [hone.1]
      rw [hone.2] at hoff
      omega
    rw [if_pos hoff, if_neg hon]
  · have hon : node.status &&& 1 = 1 := by
      rw [hone.1]
      rw [hone.2] at hoff
      omega
    rw [if_neg hoff, if_pos hon]

theorem xor_one_iff (status : UInt16) : (status ^^^ 1) &&& 1 = 1 ↔ ¬ status &&& 1 = 1 := by
  rw [(and_one_iff _).1, (and_one_iff _).1, xor_one_mod]
  omega

/-- A tick later the blinker is at the next place of its period, or at its start. -/
theorem older_mod (x : Blinker) :
    x.older.age % x.period = if x.age % x.period + 1 < x.period then x.age % x.period + 1 else 0 := by
  have hlt : x.age % x.period < x.period := Nat.mod_lt _ (Nat.add_pos_left (lasting_pos _) _)
  have hnext : x.older.age % x.period = (x.age % x.period + 1) % x.period :=
    (Nat.mod_add_mod _ _ _).symm
  rw [hnext]
  split_ifs with h
  · exact Nat.mod_eq_of_lt h
  · have hlast : x.age % x.period + 1 = x.period := Nat.le_antisymm hlt (Nat.not_lt.mp h)
    rw [hlast, Nat.mod_self]

theorem Seen.tick (h : Seen node x) : Seen node.tick.1 x.older := by
  have hoff := lasting_pos x.offLength
  have hon := lasting_pos x.onLength
  have hperiod : x.period = lasting x.onLength + lasting x.offLength := rfl
  have hleft := h.left
  have hmod := older_mod x
  have hpos := lasting_pos node.countdown
  have hOn : x.On ↔ x.age % x.period < lasting x.onLength := Iff.rfl
  have hOn' : x.older.On ↔ x.older.age % x.period < lasting x.onLength := Iff.rfl
  have hlt : x.age % x.period < x.period := Nat.mod_lt _ (by omega)
  simp only [hOn] at hleft
  by_cases hend : 1 < lasting node.countdown
  · have htick := (lasting_tick node.countdown).2 hend
    have hsame : x.older.On ↔ x.On := by
      rw [hOn', hmod, hOn]
      split_ifs at hleft ⊢ <;> omega
    rw [tick_of_lt hend]
    refine ⟨h.location, h.onChar, h.offChar, h.onLength, h.offLength, h.on_iff.trans hsame.symm, ?_⟩
    show lasting (node.countdown - 1) + x.older.age % x.period =
      if x.older.On then lasting x.onLength else x.period
    simp only [hsame, hOn]
    rw [hmod]
    split_ifs at hleft ⊢ <;> omega
  · have hother : x.older.On ↔ ¬ x.On := by
      rw [hOn', hmod, hOn]
      split_ifs at hleft ⊢ <;> omega
    rw [tick_of_le (Nat.not_lt.mp hend)]
    refine ⟨h.location, h.onChar, h.offChar, h.onLength, h.offLength, ?_, ?_⟩
    · rw [xor_one_iff, h.on_iff]
      exact hother.symm
    · show lasting (if node.status &&& 1 = 1 then node.offLength else node.onLength) +
        x.older.age % x.period = if x.older.On then lasting x.onLength else x.period
      simp only [h.on_iff, hother, h.onLength, h.offLength, ite_not, hOn]
      rw [hmod]
      split_ifs at hleft ⊢ <;> omega

end Seen

/-! ## What the list shows -/

structure Refines (b : Blink) (nodes : List Nat) (s : Scene) : Prop extends Screen b nodes where
  /-- the slots that are not free are those of the list -/
  taken : ∀ i < 2000, (b.slots i).location ≠ 0 → i ∈ nodes
  place_lt : ∀ i ∈ nodes, (b.slots i).location.toNat < 2000
  seen : List.Forall₂ (fun i x => Seen (b.slots i) x) nodes s.blinkers
  video : b.video = s.screen

section Lists

variable {α β : Type} {R S : α → β → Prop} {as : List α} {bs : List β}

theorem forall₂_imp_of_mem (h : List.Forall₂ R as bs) (himp : ∀ a ∈ as, ∀ b, R a b → S a b) :
    List.Forall₂ S as bs :=
  ((List.forall₂_and_left as bs).mpr ⟨fun _ ha => ha, h⟩).imp fun a b hab => himp a hab.1 b hab.2

/-- A search finds elements that are related, or none in either list. -/
theorem forall₂_find? {p : α → Bool} {q : β → Bool} (hpq : ∀ a b, R a b → p a = q b)
    (h : List.Forall₂ R as bs) :
    (as.find? p = none ∧ bs.find? q = none) ∨
      ∃ a b, as.find? p = some a ∧ bs.find? q = some b ∧ R a b := by
  induction h with
  | nil => exact Or.inl ⟨rfl, rfl⟩
  | @cons a b as bs hab _ ih =>
    have hsame := hpq a b hab
    rw [List.find?_cons, List.find?_cons, ← hsame]
    cases p a with
    | true => exact Or.inr ⟨a, b, rfl, rfl, hab⟩
    | false => exact ih

end Lists

section Refines

variable {b b' : Blink} {nodes nodes' : List Nat} {s : Scene} {blinkers : List Blinker}

/-- The list and the scene find the same. -/
theorem Refines.blinkerAt (h : Refines b nodes s) (location : UInt16) :
    (b.mp1FindHelper location = some none ∧ s.blinkerAt location = none) ∨
      ∃ i x, b.mp1FindHelper location = some (some i) ∧ s.blinkerAt location = some x ∧
        i ∈ nodes ∧ (b.slots i).location = location ∧ Seen (b.slots i) x := by
  rw [mp1FindHelper_eq h.toSound]
  have hsame : ∀ (i : Nat) (x : Blinker), Seen (b.slots i) x →
      decide ((b.slots i).location = location) = decide (x.location = location) := by
    intro i x hseen
    rw [hseen.location]
  rcases forall₂_find? hsame h.seen with ⟨hnone, hnone'⟩ | ⟨i, x, hi, hx, hseen⟩
  · exact Or.inl ⟨congrArg some hnone, hnone'⟩
  · have htest := List.find?_some hi
    have hlocation : (b.slots i).location = location := of_decide_eq_true htest
    exact Or.inr ⟨i, x, congrArg some hi, hx, List.mem_of_find?_eq_some hi, hlocation, hseen⟩

/-- There are fewer places than slots, so there is always a slot. -/
theorem Refines.exists_malloc (h : Refines b nodes s) : ∃ i, b.mp1Malloc = some i := by
  cases hmalloc : b.mp1Malloc with
  | some i => exact ⟨i, rfl⟩
  | none =>
    exfalso
    unfold Blink.mp1Malloc at hmalloc
    rw [List.find?_eq_none] at hmalloc
    have hall : List.range 2000 ⊆ nodes := fun i hi =>
      h.taken i (List.mem_range.mp hi) fun hzero => hmalloc i hi (decide_eq_true hzero)
    have hmany := (List.nodup_range.subperm hall).length_le
    have hplaces : (nodes.map fun i => (b.slots i).location.toNat).Nodup :=
      h.nodup.map_on fun i hi j hj hij => h.apart i hi j hj (UInt16.toNat_inj.mp hij)
    have hfit : (nodes.map fun i => (b.slots i).location.toNat) ⊆ List.range' 1 1999 := by
      intro place hplace
      obtain ⟨i, hi, rfl⟩ := List.mem_map.mp hplace
      have hne : (b.slots i).location.toNat ≠ 0 := fun hzero =>
        h.location_ne i hi (UInt16.toNat_inj.mp hzero)
      have hlt := h.place_lt i hi
      rw [List.mem_range'_1]
      omega
    have hfew := (hplaces.subperm hfit).length_le
    rw [List.length_range] at hmany
    rw [List.length_map, List.length_range'] at hfew
    omega

/-- The screen of the list is drawn when nothing else has been changed. -/
theorem video_eq_drawn (hscreen : Screen b' nodes')
    (hseen : List.Forall₂ (fun i x => Seen (b'.slots i) x) nodes' blinkers)
    (hframe : ∀ a, (∀ i ∈ nodes', 2 * (b'.slots i).location.toNat ≠ a) → b'.video a = s.screen a) :
    b'.video = (s.drawn blinkers).screen := by
  funext a
  have hsame : ∀ (i : Nat) (x : Blinker), Seen (b'.slots i) x →
      decide (2 * (b'.slots i).location.toNat = a) = decide (2 * x.location.toNat = a) := by
    intro i x hseen
    rw [hseen.location]
  unfold Scene.drawn
  dsimp only
  rcases forall₂_find? hsame hseen with ⟨hnone, hnone'⟩ | ⟨i, x, hi, hx, hix⟩
  · rw [hnone']
    refine hframe a fun i hi heq => ?_
    exact List.find?_eq_none.mp hnone i hi (decide_eq_true heq)
  · have htest := List.find?_some hi
    have hplace : 2 * (b'.slots i).location.toNat = a := of_decide_eq_true htest
    rw [hx, ← hplace, hscreen.shows i (List.mem_of_find?_eq_some hi)]
    exact hix.shown

/-! ## The requests -/

theorem Refines.add (h : Refines b nodes s) {user : BlinkStruct} (hpos : 1 ≤ user.location.toNat)
    (hlt : user.location.toNat < 2000) (hnone : s.blinkerAt user.location = none) :
    ∃ b' nodes', handle b (.add user) = some (b', 0) ∧ Refines b' nodes' (s.add user) := by
  obtain ⟨i, hmalloc⟩ := h.exists_malloc
  have hfresh := h.toSound.fresh hmalloc
  have hne : user.location ≠ 0 := by
    intro hzero
    rw [hzero] at hpos
    exact absurd hpos (by decide)
  have hapart : ∀ j ∈ nodes, (b.slots j).location ≠ user.location := by
    rcases h.blinkerAt user.location with ⟨hfree, -⟩ | ⟨j, x, -, hx, -⟩
    · rw [mp1FindHelper_eq h.toSound, Option.some.injEq, List.find?_eq_none] at hfree
      exact fun j hj hsame => hfree j hj (decide_eq_true hsame)
    · rw [hnone] at hx
      cases hx
  have hother : ∀ j ≠ i, (b.addNode i user).slots j = b.slots j :=
    fun j hj => slots_addNode_of_ne hj b user
  have hself := slots_addNode_self b i user
  have hscreen := h.toScreen.addNode hmalloc hne hapart
  have hseen : List.Forall₂ (fun j x => Seen ((b.addNode i user).slots j) x) (i :: nodes)
      (.new user :: s.blinkers) := by
    refine .cons ?_ (forall₂_imp_of_mem h.seen fun j hj x hx => ?_)
    · rw [hself]
      exact seen_added user b.head
    · rw [hother j (ne_of_mem_of_not_mem hj hfresh)]
      exact hx
  refine ⟨b.addNode i user, i :: nodes, ?_, hscreen, ?_, ?_, hseen, ?_⟩
  · rw [handle, mp1IoctlAdd, if_neg (Nat.not_le.mpr hlt), hmalloc]
  · intro j hj hused
    by_cases hji : j = i
    · exact List.mem_cons.mpr (Or.inl hji)
    · rw [hother j hji] at hused
      exact List.mem_cons_of_mem i (h.taken j hj hused)
  · rw [List.forall_mem_cons, hself]
    refine ⟨hlt, fun j hj => ?_⟩
    rw [hother j (ne_of_mem_of_not_mem hj hfresh)]
    exact h.place_lt j hj
  · refine video_eq_drawn hscreen hseen fun a ha => ?_
    have hplace := ha i List.mem_cons_self
    rw [hself] at hplace
    rw [← h.video]
    exact Function.update_of_ne hplace.symm _ _

theorem Seen.setNext {node : BlinkStruct} {x : Blinker} (h : Seen node x) (q : Option Nat) :
    Seen { node with next := q } x :=
  ⟨h.location, h.onChar, h.offChar, h.onLength, h.offLength, h.on_iff, h.left⟩

theorem Refines.remove (h : Refines b nodes s) {arg : UInt32} {i : Nat}
    (hfind : b.mp1FindHelper arg.toUInt16 = some (some i)) (hi : i ∈ nodes)
    (hlocation : (b.slots i).location = arg.toUInt16) :
    ∃ b' nodes', handle b (.remove arg) = some (b', 0) ∧ Refines b' nodes' (s.remove arg.toUInt16) := by
  obtain ⟨first, rest, rfl⟩ := List.append_of_mem hi
  have hnodup := h.nodup
  rw [List.nodup_middle, List.nodup_cons] at hnodup
  have hcell : findCell b.head b.next i turns none = some first.getLast? := by
    have hlength := h.toSound.length_lt
    rw [List.length_append] at hlength
    have hfirst : i ∉ first := fun hmem => hnodup.1 (List.mem_append_left rest hmem)
    rw [findCell_eq b.head none h.linked hfirst (by omega), Option.or_none]
  have hkept : ∀ j ∈ first ++ rest, j ≠ i ∧ j ∈ first ++ i :: rest := by
    intro j hj
    refine ⟨ne_of_mem_of_not_mem hj hnodup.1, ?_⟩
    rw [List.mem_append] at hj
    rw [List.mem_append, List.mem_cons]
    exact hj.imp_right Or.inr
  have hslots : ∀ j ≠ i, ∃ q, (b.removeNode first.getLast? i).slots j = { b.slots j with next := q } :=
    fun j hj => slots_removeNode b first.getLast? hj
  have hfilter : (first ++ i :: rest).filter (fun j => (b.slots j).location ≠ arg.toUInt16) =
      first ++ rest := by
    have hneq : ∀ j ∈ first ++ rest, decide ((b.slots j).location ≠ arg.toUInt16) = true := by
      intro j hj
      obtain ⟨hji, hmem⟩ := hkept j hj
      exact decide_eq_true fun hsame => hji (h.apart j hmem i hi (hsame.trans hlocation.symm))
    rw [List.forall_mem_append] at hneq
    rw [List.filter_append, List.filter_cons_of_neg (by simpa using hlocation),
      List.filter_eq_self.mpr hneq.1, List.filter_eq_self.mpr hneq.2]
  refine ⟨b.removeNode first.getLast? i, first ++ rest, ?_, h.toScreen.removeNode, ?_, ?_, ?_, ?_⟩
  · rw [handle, mp1IoctlRemove, hfind, Option.bind_eq_bind, Option.bind_some]
    dsimp only
    rw [hcell, Option.bind_some]
  · intro j hj hused
    have hji : j ≠ i := by
      rintro rfl
      exact hused (congrArg BlinkStruct.location (slots_setSlot_self _ j .zero))
    obtain ⟨q, hq⟩ := hslots j hji
    rw [hq] at hused
    have hmem := h.taken j hj hused
    rw [List.mem_append, List.mem_cons] at hmem
    rw [List.mem_append]
    exact hmem.imp_right fun hor => hor.resolve_left hji
  · intro j hj
    obtain ⟨hji, hmem⟩ := hkept j hj
    obtain ⟨q, hq⟩ := hslots j hji
    rw [hq]
    exact h.place_lt j hmem
  · have hseen : List.Forall₂ (fun j x => Seen (b.slots j) x) (first ++ rest)
        (s.remove arg.toUInt16).blinkers := by
      rw [← hfilter]
      refine List.rel_filter (fun j x hx => ?_) h.seen
      simp only [hx.location]
    refine forall₂_imp_of_mem hseen fun j hj x hx => ?_
    obtain ⟨q, hq⟩ := hslots j (hkept j hj).1
    rw [hq]
    exact hx.setNext q
  · rw [video_removeNode]
    exact h.video

theorem Refines.sync (h : Refines b nodes s) {i j : Nat} {x : Blinker} (hj : j ∈ nodes)
    (hx : Seen (b.slots i) x) (hoff : x.On → (b.slots j).onChar = (b.slots j).offChar) :
    Refines (b.syncNode i j) nodes (s.sync x (b.slots j).location) := by
  have hself : (b.syncNode i j).slots j = (b.slots j).syncFrom (b.slots i) :=
    slots_setSlot_self b j _
  have hother : ∀ k ≠ j, (b.syncNode i j).slots k = b.slots k :=
    fun k hk => slots_setSlot_of_ne hk b _
  have hlocation : ∀ k, ((b.syncNode i j).slots k).location = (b.slots k).location :=
    fun k => (@same_setSlot b j ((b.slots j).syncFrom (b.slots i)) rfl rfl k).2
  have hscreen := h.toScreen.syncNode hj fun hon => hoff (hx.on_iff.mp hon)
  have hseen : List.Forall₂ (fun k y => Seen ((b.syncNode i j).slots k) y) nodes
      (s.sync x (b.slots j).location).blinkers := by
    refine List.forall₂_map_right_iff.mpr (forall₂_imp_of_mem h.seen fun k hk y hy => ?_)
    by_cases hkj : k = j
    · subst hkj
      rw [if_pos hy.location.symm, hself]
      exact hy.sync hx
    · have hne : y.location ≠ (b.slots j).location := by
        rw [← hy.location]
        exact fun hsame => hkj (h.apart k hk j hj hsame)
      rw [if_neg hne, hother k hkj]
      exact hy
  refine ⟨hscreen, ?_, ?_, hseen, ?_⟩
  · intro k hk hused
    rw [hlocation] at hused
    exact h.taken k hk hused
  · intro k hk
    rw [hlocation]
    exact h.place_lt k hk
  · refine video_eq_drawn hscreen hseen fun a ha => ?_
    have hplace := ha j hj
    rw [hself] at hplace
    rw [← h.video]
    exact Function.update_of_ne hplace.symm _ _

theorem video_blinkNode (b : Blink) {i a : Nat} (hne : 2 * (b.slots i).location.toNat ≠ a) :
    (blinkNode b i).video a = b.video a := by
  have hlocation := (tick_same (b.slots i)).2.1
  unfold blinkNode
  dsimp only
  split
  · rfl
  · rw [← hlocation] at hne
    exact Function.update_of_ne hne.symm _ _

/-- A pass of the tasklet over different nodes. -/
theorem blinkNodes_eq {visited : List Nat} (hnodup : visited.Nodup) (b : Blink) :
    (∀ i, (visited.foldl blinkNode b).slots i =
        if i ∈ visited then (b.slots i).tick.1 else b.slots i) ∧
      ∀ a, (∀ i ∈ visited, 2 * (b.slots i).location.toNat ≠ a) →
        (visited.foldl blinkNode b).video a = b.video a := by
  induction visited generalizing b with
  | nil => exact ⟨fun _ => rfl, fun _ _ => rfl⟩
  | cons i visited ih =>
    rw [List.nodup_cons] at hnodup
    obtain ⟨hslots, hvideo⟩ := ih hnodup.2 (blinkNode b i)
    have hself : (blinkNode b i).slots i = (b.slots i).tick.1 := by
      rw [(slots_blinkNode b i).1, slots_setSlot_self]
    have hother : ∀ j ≠ i, (blinkNode b i).slots j = b.slots j := by
      intro j hj
      rw [(slots_blinkNode b i).1, slots_setSlot_of_ne hj]
    rw [List.foldl_cons]
    constructor
    · intro j
      rw [hslots]
      by_cases hj : j = i
      · subst hj
        rw [if_neg hnodup.1, if_pos List.mem_cons_self, hself]
      · simp only [List.mem_cons, hj, false_or, hother j hj]
    · intro a ha
      rw [List.forall_mem_cons] at ha
      rw [hvideo a fun j hj => ?_]
      · exact video_blinkNode b ha.1
      · rw [hother j (ne_of_mem_of_not_mem hj hnodup.1)]
        exact ha.2 j hj

theorem Refines.tick (h : Refines b nodes s) : Refines (nodes.foldl blinkNode b) nodes s.tick := by
  obtain ⟨hslots, hvideo⟩ := blinkNodes_eq h.nodup b
  have hlocation : ∀ i, ((nodes.foldl blinkNode b).slots i).location = (b.slots i).location := by
    intro i
    rw [hslots]
    split
    · exact (tick_same (b.slots i)).2.1
    · rfl
  have hscreen : Screen (nodes.foldl blinkNode b) nodes := h.toScreen.blinkNodes fun _ hi => hi
  have hseen : List.Forall₂ (fun i x => Seen ((nodes.foldl blinkNode b).slots i) x) nodes
      s.tick.blinkers := by
    refine List.forall₂_map_right_iff.mpr (forall₂_imp_of_mem h.seen fun i hi x hx => ?_)
    rw [hslots, if_pos hi]
    exact hx.tick
  refine ⟨hscreen, ?_, ?_, hseen, ?_⟩
  · intro i hi hused
    rw [hlocation] at hused
    exact h.taken i hi hused
  · intro i hi
    rw [hlocation]
    exact h.place_lt i hi
  · refine video_eq_drawn hscreen hseen fun a ha => ?_
    simp only [hlocation] at ha
    rw [hvideo a ha, h.video]

/-- **One request.** It returns on the list what it returns in the scene. -/
theorem Refines.request (h : Refines b nodes s) {request : Request} (hadmits : s.Admits request) :
    ∃ b' nodes', handle b request = some (b', (s.handle request).2) ∧
      Refines b' nodes' (s.handle request).1 := by
  cases request with
  | add user =>
    unfold Scene.handle
    dsimp only
    by_cases hlarge : 2000 ≤ user.location.toNat
    · rw [if_pos hlarge]
      refine ⟨b, nodes, ?_, h⟩
      rw [handle, mp1IoctlAdd, if_pos hlarge]
    · rw [if_neg hlarge]
      obtain ⟨hpos, hnone⟩ := hadmits.resolve_left hlarge
      exact h.add hpos (Nat.not_le.mp hlarge) hnone
  | remove arg =>
    unfold Scene.handle
    dsimp only
    rcases h.blinkerAt arg.toUInt16 with ⟨hnone, hnone'⟩ | ⟨i, x, hfind, hx, hi, hlocation, -⟩
    · rw [hnone', Option.isSome_none, if_neg Bool.false_ne_true]
      refine ⟨b, nodes, ?_, h⟩
      rw [handle, mp1IoctlRemove, hnone, Option.bind_eq_bind, Option.bind_some]
    · rw [hx, Option.isSome_some, if_pos rfl]
      exact h.remove hfind hi hlocation
  | find location =>
    unfold Scene.handle
    dsimp only
    refine ⟨b, nodes, ?_, h⟩
    rcases h.blinkerAt location with ⟨hnone, hnone'⟩ | ⟨i, x, hfind, hx, -⟩
    · rw [handle, mp1IoctlFind, hnone, hnone']
      rfl
    · rw [handle, mp1IoctlFind, hfind, hx]
      rfl
  | sync arg =>
    unfold Scene.handle
    dsimp only
    rcases h.blinkerAt (arg >>> 16).toUInt16 with ⟨hnone, hnone'⟩ | ⟨i, x, hsrc, hx, -, -, hseen⟩
    · rw [hnone']
      refine ⟨b, nodes, ?_, h⟩
      rw [handle, mp1IoctlSync, hnone, Option.bind_eq_bind, Option.bind_some]
    · rw [hx]
      rcases h.blinkerAt arg.toUInt16 with ⟨hnone, hnone'⟩ | ⟨j, y, hdest, hy, hj, hlocation, hseen'⟩
      · rw [hnone']
        refine ⟨b, nodes, ?_, h⟩
        rw [handle, mp1IoctlSync, hsrc, Option.bind_eq_bind, Option.bind_some]
        dsimp only
        rw [hnone, Option.bind_some]
      · rw [hy]
        rw [← hlocation]
        refine ⟨b.syncNode i j, nodes, ?_, h.sync hj hseen fun hon => ?_⟩
        · rw [handle, mp1IoctlSync, hsrc, Option.bind_eq_bind, Option.bind_some]
          dsimp only
          rw [hdest, Option.bind_some]
        · rw [hseen'.onChar, hseen'.offChar]
          exact hadmits x hx y hy hon
  | tasklet =>
    refine ⟨nodes.foldl blinkNode b, nodes, ?_, h.tick⟩
    rw [handle, mp1RtcTasklet_eq h.toSound]
    rfl

theorem Refines.run (h : Refines b nodes s) {requests : List Request} {answers : List Int}
    (hadmits : Along sceneStep (fun t request => t.1.Admits request) (s, answers) requests) :
    ∃ b' nodes' s' answers', Transition.run (logged handle) (b, answers) requests = some (b', answers') ∧
      Transition.run sceneStep (s, answers) requests = some (s', answers') ∧ Refines b' nodes' s' := by
  induction requests generalizing b nodes s answers with
  | nil => exact ⟨b, nodes, s, answers, rfl, rfl, h⟩
  | cons request requests ih =>
    have hstep' : sceneStep (s, answers) request =
        some ((s.handle request).1, answers ++ [(s.handle request).2]) := rfl
    obtain ⟨hok, hrest⟩ := along_cons hadmits hstep'
    obtain ⟨b₁, nodes₁, hhandle, h₁⟩ := h.request hok
    have hstep : logged handle (b, answers) request =
        some (b₁, answers ++ [(s.handle request).2]) := by
      unfold logged
      dsimp only
      rw [hhandle]
      rfl
    obtain ⟨b', nodes', s', answers', hrun, hrun', h'⟩ := ih h₁ hrest
    exact ⟨b', nodes', s', answers', run_cons.mpr ⟨_, hstep, hrun⟩, run_cons.mpr ⟨_, hstep', hrun'⟩, h'⟩

end Refines

theorem refines_start (video : Nat → UInt8) : Refines (Blink.start video) [] (Scene.start video) where
  toSound := sound_start video
  apart _ hi := absurd hi List.not_mem_nil
  shows _ hi := absurd hi List.not_mem_nil
  taken _ _ hused := absurd rfl hused
  place_lt _ hi := absurd hi List.not_mem_nil
  seen := .nil
  video := rfl

/-- **The animation.** In every sequence of requests and ticks that the scene admits, the list answers
every request as the scene does, and the whole screen is that of the scene: each blinker shows the
character of its age, and everything else is as it was. -/
theorem blinkers_keep_time (video : Nat → UInt8) {requests : List Request}
    (hadmits : Along sceneStep (fun t request => t.1.Admits request) (Scene.start video, []) requests) :
    ∃ b s answers, run (logged handle) (Blink.start video, []) requests = some (b, answers) ∧
      run sceneStep (Scene.start video, []) requests = some (s, answers) ∧ b.video = s.screen := by
  obtain ⟨b, nodes, s, answers, hrun, hrun', h⟩ := (refines_start video).run hadmits
  exact ⟨b, s, answers, hrun, hrun', h.video⟩

/-- Two stars, and the first of them is off after three ticks. -/
theorem blinkers_keep_time_two_stars :
    ∃ b, run (logged handle) (Blink.start fun _ => 32, [])
        [.add (star 1), .tasklet, .add (star 2), .tasklet, .tasklet] = some (b, [0, 0, 0, 0, 0]) ∧
      b.video 2 = 32 ∧ b.video 4 = 42 := by
  obtain ⟨b, s, answers, hrun, hrun', hvideo⟩ := @blinkers_keep_time (fun _ => 32)
    [.add (star 1), .tasklet, .add (star 2), .tasklet, .tasklet] (by decide)
  cases hrun'
  refine ⟨b, hrun, ?_, ?_⟩
  · rw [hvideo]
    decide
  · rw [hvideo]
    decide

end LinuxBasedOS.Programs
