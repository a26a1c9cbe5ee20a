import LinuxBasedOS.Base.LinkedList
import LinuxBasedOS.Base.Transition
import Mathlib.Data.List.Perm.Subperm

/-!
# The blinkers of fish

`fish.c` has the nodes of the blink list in `blink_array` and their allocator, `blink.S` has the
list: its four requests and the tasklet that is run at every tick. A pointer to a node is the index
of its slot, and `none` is the null pointer. The requests return `none` when a loop does not come to
its end in one turn more than there are slots.

A slot is free for `mp1_malloc` when its location is zero, but `mp1_ioctl_add` takes the location
zero as well. `Proper` is what the list should be; `Works` is what a request should do to it, and
`works_along_iff` says in which histories every request does.
-/

namespace LinuxBasedOS.Programs

open LinkedList Transition

/-! ## The data -/

/-- `struct mp1_blink_struct`. -/
structure BlinkStruct where
  location : UInt16
  onChar : UInt8
  offChar : UInt8
  onLength : UInt16
  offLength : UInt16
  countdown : UInt16
  status : UInt16
  next : Option Nat
  deriving DecidableEq, Repr

/-- The structure `mp1_free` leaves. -/
def BlinkStruct.zero : BlinkStruct where
  location := 0
  onChar := 0
  offChar := 0
  onLength := 0
  offLength := 0
  countdown := 0
  status := 0
  next := none

structure Blink where
  /-- `blink_array` -/
  slots : Nat → BlinkStruct
  /-- `mp1_list_head` -/
  head : Option Nat
  /-- the bytes from `vmem_base_addr` on -/
  video : Nat → UInt8

namespace Blink

def next (b : Blink) (i : Nat) : Option Nat := (b.slots i).next

/-- Write a slot. -/
def setSlot (b : Blink) (i : Nat) (node : BlinkStruct) : Blink :=
  { b with slots := Function.update b.slots i node }

/-- `mp1_poke`, with the offset that its callers compute from the location. -/
def mp1Poke (b : Blink) (location : UInt16) (c : UInt8) : Blink :=
  { b with video := Function.update b.video (2 * location.toNat) c }

/-- `mp1_malloc`: the first slot whose location is zero. -/
def mp1Malloc (b : Blink) : Option Nat :=
  (List.range 2000).find? fun i => (b.slots i).location = 0

/-- One turn more than there are slots. -/
def turns : Nat := 2001

/-- `mp1_find_helper`. -/
def mp1FindHelper (b : Blink) (location : UInt16) : Option (Option Nat) :=
  search b.next (fun i => (b.slots i).location = location) turns b.head

/-- Write the cell to which `remove_find_prev` has come. -/
def writeCell (b : Blink) (cell q : Option Nat) : Blink :=
  match cell with
  | none => { b with head := q }
  | some i => b.setSlot i { b.slots i with next := q }

end Blink

/-! ## Requests -/

open Blink

/-- The structure that `mp1_ioctl_add` stores: switched on, and in front of the list. -/
def BlinkStruct.added (user : BlinkStruct) (next : Option Nat) : BlinkStruct :=
  { user with status := 1, countdown := user.onLength, next := next }

/-- From the copy of the structure into its slot up to `display`. -/
def Blink.addNode (b : Blink) (i : Nat) (user : BlinkStruct) : Blink :=
  ({ b.setSlot i (user.added b.head) with head := some i }).mp1Poke user.location user.onChar

/-- `mp1_ioctl_add`: the new state and what is returned. -/
def mp1IoctlAdd (b : Blink) (user : BlinkStruct) : Blink × Int :=
  if 2000 ≤ user.location.toNat then (b, -1)
  else match b.mp1Malloc with
    | none => (b, -1)
    | some i => (b.addNode i user, 0)

/-- From `found_prev` on: the node is taken out and freed. -/
def Blink.removeNode (b : Blink) (cell : Option Nat) (i : Nat) : Blink :=
  (b.writeCell cell (b.next i)).setSlot i .zero

/-- `mp1_ioctl_remove`: the low half of the argument is the location. -/
def mp1IoctlRemove (b : Blink) (arg : UInt32) : Option (Blink × Int) := do
  match ← b.mp1FindHelper arg.toUInt16 with
  | none => some (b, -1)
  | some i =>
    let cell ← findCell b.head b.next i turns none
    some (b.removeNode cell i, 0)

/-- `mp1_ioctl_find`: the node that is copied to the user. -/
def mp1IoctlFind (b : Blink) (location : UInt16) : Option (Option BlinkStruct) := do
  match ← b.mp1FindHelper location with
  | none => some none
  | some i => some (some (b.slots i))

/-- What `mp1_ioctl_sync` copies. -/
def BlinkStruct.syncFrom (dest src : BlinkStruct) : BlinkStruct :=
  { dest with
    onLength := src.onLength
    offLength := src.offLength
    countdown := src.countdown
    status := src.status }

/-- The `l` condition after `testb $0x1,STATUS`: the sign of the result against the overflow flag,
which `testb` clears. -/
def testbLess (status : UInt16) : Bool := (status.toUInt8 &&& 1) ≥ 128

/-- From `sync_copy_loop` on: node `j` is set like node `i` and drawn. -/
def Blink.syncNode (b : Blink) (i j : Nat) : Blink :=
  let node := (b.slots j).syncFrom (b.slots i)
  (b.setSlot j node).mp1Poke node.location
    (if testbLess node.status then node.onChar else node.offChar)

/-- `mp1_ioctl_sync`: the high half of the argument is the location of the source. -/
def mp1IoctlSync (b : Blink) (arg : UInt32) : Option (Blink × Int) := do
  match ← b.mp1FindHelper (arg >>> 16).toUInt16 with
  | none => some (b, -1)
  | some i =>
    match ← b.mp1FindHelper arg.toUInt16 with
    | none => some (b, -1)
    | some j => some (b.syncNode i j, 0)

/-- A node after one turn of `tasklet_loop`, and the character that is drawn. The comparison of the
countdown with zero is signed. -/
def BlinkStruct.tick (node : BlinkStruct) : BlinkStruct × Option UInt8 :=
  let node := { node with countdown := node.countdown - 1 }
  if 0 < node.countdown ∧ node.countdown < 32768 then (node, none)
  else if node.status &&& 1 = 0 then
    ({ node with countdown := node.onLength, status := node.status ^^^ 1 }, some node.onChar)
  else
    ({ node with countdown := node.offLength, status := node.status ^^^ 1 }, some node.offChar)

/-- One turn of `tasklet_loop`. -/
def blinkNode (b : Blink) (i : Nat) : Blink :=
  let (node, drawn) := (b.slots i).tick
  match drawn with
  | none => b.setSlot i node
  | some c => (b.setSlot i node).mp1Poke node.location c

/-- `mp1_rtc_tasklet`. -/
def mp1RtcTasklet (b : Blink) : Option Blink := walk blinkNode Blink.next turns b b.head

inductive Request where
  | add (user : BlinkStruct)
  | remove (arg : UInt32)
  | find (location : UInt16)
  | sync (arg : UInt32)
  | tasklet

/-- A request, with the state after it and what it returns. -/
def handle (b : Blink) : Request → Option (Blink × Int)
  | .add user => some (mp1IoctlAdd b user)
  | .remove arg => mp1IoctlRemove b arg
  | .find location => (mp1IoctlFind b location).map fun found => (b, if found.isSome then 0 else -1)
  | .sync arg => mp1IoctlSync b arg
  | .tasklet => (mp1RtcTasklet b).map fun b => (b, 0)

def blinkStep (b : Blink) (request : Request) : Option Blink := (handle b request).map Prod.fst

/-- After `main` has cleared `blink_array`. -/
def Blink.start (video : Nat → UInt8) : Blink where
  slots _ := .zero
  head := none
  video := video

/-! ## What the list should be -/

/-- The list from the head on ends, its nodes are different slots, and no slot of the list is handed
out again. -/
structure Proper (b : Blink) (nodes : List Nat) : Prop where
  linked : Linked b.next b.head nodes
  nodup : nodes.Nodup
  slot_lt : ∀ i ∈ nodes, i < 2000
  fresh : ∀ i, b.mp1Malloc = some i → i ∉ nodes

/-- The length of the list before and after a request that returned `r`. -/
def Request.Lengths (r : Int) (before after : Nat) : Request → Prop
  | .add _ => if r = 0 then after = before + 1 else after = before
  | .remove _ => if r = 0 then before = after + 1 else after = before
  | _ => after = before

/-- The request comes to its end, and takes a proper list to a proper list. -/
def Works (b : Blink) (request : Request) : Prop :=
  ∃ b' r nodes nodes', handle b request = some (b', r) ∧ Proper b nodes ∧ Proper b' nodes' ∧
    request.Lengths r nodes.length nodes'.length

/-- A node with location zero is put into a free slot. -/
def TakesZero (b : Blink) : Request → Prop
  | .add user => user.location = 0 ∧ b.mp1Malloc ≠ none
  | _ => False

instance (b : Blink) (request : Request) : Decidable (TakesZero b request) :=
  match request with
  | .add user => inferInstanceAs (Decidable (user.location = 0 ∧ b.mp1Malloc ≠ none))
  | .remove _ | .find _ | .sync _ | .tasklet => .isFalse id

/-! ## The invariant -/

/-- The nodes have locations, so `mp1_malloc` does not take them for free. -/
structure Sound (b : Blink) (nodes : List Nat) : Prop where
  linked : Linked b.next b.head nodes
  nodup : nodes.Nodup
  slot_lt : ∀ i ∈ nodes, i < 2000
  location_ne : ∀ i ∈ nodes, (b.slots i).location ≠ 0

section Invariant

variable {b b' : Blink} {nodes : List Nat}

theorem mp1Malloc_iff {i : Nat} :
    b.mp1Malloc = some i ↔
      i < 2000 ∧ (b.slots i).location = 0 ∧ ∀ j < i, (b.slots j).location ≠ 0 := by
  unfold Blink.mp1Malloc
  rw [List.find?_range_eq_some, List.mem_range, decide_eq_true_iff, and_left_comm]
  simp only [Bool.not_eq_true', decide_eq_false_iff_not, ne_eq]

theorem Sound.fresh (h : Sound b nodes) {i : Nat} (hi : b.mp1Malloc = some i) : i ∉ nodes :=
  fun hmem => h.location_ne i hmem (mp1Malloc_iff.mp hi).2.1

theorem Sound.proper (h : Sound b nodes) : Proper b nodes where
  linked := h.linked
  nodup := h.nodup
  slot_lt := h.slot_lt
  fresh _ hi := h.fresh hi

/-- There are fewer nodes than turns. -/
theorem Sound.length_lt (h : Sound b nodes) : nodes.length < turns := by
  have hsub : nodes ⊆ List.range 2000 := fun i hi => List.mem_range.mpr (h.slot_lt i hi)
  have hle := (h.nodup.subperm hsub).length_le
  rw [List.length_range] at hle
  exact Nat.lt_succ_of_le hle

/-- What changes neither links nor locations keeps the invariant. -/
theorem Sound.of_same (h : Sound b nodes) (hhead : b'.head = b.head)
    (hnext : ∀ i, b'.next i = b.next i)
    (hlocation : ∀ i, (b'.slots i).location = (b.slots i).location) : Sound b' nodes where
  linked := by
    rw [hhead, linked_congr fun i _ => hnext i]
    exact h.linked
  nodup := h.nodup
  slot_lt := h.slot_lt
  location_ne i hi := by
    rw [hlocation]
    exact h.location_ne i hi

theorem mp1FindHelper_eq (h : Sound b nodes) (location : UInt16) :
    b.mp1FindHelper location = some (nodes.find? fun i => (b.slots i).location = location) :=
  search_eq h.linked _ h.length_lt

theorem slots_setSlot_self (b : Blink) (i : Nat) (node : BlinkStruct) :
    (b.setSlot i node).slots i = node := by
  unfold Blink.setSlot
  exact Function.update_self i node b.slots

theorem slots_setSlot_of_ne {i j : Nat} (h : j ≠ i) (b : Blink) (node : BlinkStruct) :
    (b.setSlot i node).slots j = b.slots j := by
  unfold Blink.setSlot
  exact Function.update_of_ne h node b.slots

theorem next_setSlot (b : Blink) (i : Nat) (node : BlinkStruct) :
    (b.setSlot i node).next = Function.update b.next i node.next := by
  funext j
  unfold Blink.next
  by_cases hj : j = i
  · subst hj
    rw [slots_setSlot_self, Function.update_self]
  · rw [slots_setSlot_of_ne hj, Function.update_of_ne hj]

/-- A slot written with the same link and the same location. -/
theorem same_setSlot (b : Blink) {i : Nat} {node : BlinkStruct} (hnext : node.next = b.next i)
    (hlocation : node.location = (b.slots i).location) (j : Nat) :
    (b.setSlot i node).next j = b.next j ∧
      ((b.setSlot i node).slots j).location = (b.slots j).location := by
  by_cases hj : j = i
  · subst hj
    rw [next_setSlot, Function.update_self, slots_setSlot_self]
    exact ⟨hnext, hlocation⟩
  · rw [next_setSlot, Function.update_of_ne hj, slots_setSlot_of_ne hj]
    exact ⟨rfl, rfl⟩

theorem slots_addNode_self (b : Blink) (i : Nat) (user : BlinkStruct) :
    (b.addNode i user).slots i = user.added b.head := slots_setSlot_self b i _

theorem slots_addNode_of_ne {i j : Nat} (h : j ≠ i) (b : Blink) (user : BlinkStruct) :
    (b.addNode i user).slots j = b.slots j := slots_setSlot_of_ne h b _

end Invariant

/-! ## What the requests do -/

/-- What a request can do to a list: the state after it, what is returned and the nodes after it. -/
inductive Does (b : Blink) (nodes : List Nat) : Request → Blink → Int → List Nat → Prop
  | refused (request : Request) : Does b nodes request b (-1) nodes
  | added {user : BlinkStruct} {i : Nat} (hmalloc : b.mp1Malloc = some i) :
    Does b nodes (.add user) (b.addNode i user) 0 (i :: nodes)
  | removed {arg : UInt32} {first rest : List Nat} {i : Nat} (hnodes : nodes = first ++ i :: rest) :
    Does b nodes (.remove arg) (b.removeNode first.getLast? i) 0 (first ++ rest)
  | found (location : UInt16) : Does b nodes (.find location) b 0 nodes
  | synced {arg : UInt32} {i j : Nat} (hsrc : b.mp1FindHelper (arg >>> 16).toUInt16 = some (some i))
    (hdest : b.mp1FindHelper arg.toUInt16 = some (some j)) (hi : i ∈ nodes) (hj : j ∈ nodes) :
    Does b nodes (.sync arg) (b.syncNode i j) 0 nodes
  | ticked : Does b nodes .tasklet (nodes.foldl blinkNode b) 0 nodes

section Requests

variable {b b' : Blink} {nodes nodes' : List Nat} {request : Request} {r : Int}

theorem tick_same (node : BlinkStruct) :
    node.tick.1.next = node.next ∧ node.tick.1.location = node.location ∧
      node.tick.1.onChar = node.onChar ∧ node.tick.1.offChar = node.offChar := by
  unfold BlinkStruct.tick
  dsimp only
  split_ifs
  · exact ⟨rfl, rfl, rfl, rfl⟩
  · exact ⟨rfl, rfl, rfl, rfl⟩
  · exact ⟨rfl, rfl, rfl, rfl⟩

theorem slots_blinkNode (b : Blink) (i : Nat) :
    (blinkNode b i).slots = (b.setSlot i (b.slots i).tick.1).slots ∧
      (blinkNode b i).head = b.head := by
  unfold blinkNode
  dsimp only
  split
  · exact ⟨rfl, rfl⟩
  · exact ⟨rfl, rfl⟩

/-- A visit of the tasklet changes neither links nor locations. -/
theorem same_blinkNode (b : Blink) (i j : Nat) :
    (blinkNode b i).next j = b.next j ∧
      ((blinkNode b i).slots j).location = (b.slots j).location := by
  obtain ⟨hnext, hlocation, -, -⟩ := tick_same (b.slots i)
  have hsame := same_setSlot b hnext hlocation j
  unfold Blink.next at hsame ⊢
  rw [(slots_blinkNode b i).1]
  exact hsame

theorem Sound.blinkNodes (h : Sound b nodes) (visited : List Nat) :
    Sound (visited.foldl blinkNode b) nodes := by
  induction visited generalizing b with
  | nil => exact h
  | cons i visited ih =>
    refine ih (h.of_same (slots_blinkNode b i).2 ?_ ?_)
    · intro j
      exact (same_blinkNode b i j).1
    · intro j
      exact (same_blinkNode b i j).2

theorem mp1RtcTasklet_eq (h : Sound b nodes) :
    mp1RtcTasklet b = some (nodes.foldl blinkNode b) :=
  walk_eq (fun b i => funext fun j => (same_blinkNode b i j).1) h.linked h.length_lt

theorem does_add (b : Blink) (nodes : List Nat) (user : BlinkStruct) :
    ∃ b' r nodes', handle b (.add user) = some (b', r) ∧ Does b nodes (.add user) b' r nodes' := by
  by_cases hlocation : 2000 ≤ user.location.toNat
  · refine ⟨b, -1, nodes, ?_, .refused _⟩
    rw [handle, mp1IoctlAdd, if_pos hlocation]
  · cases hmalloc : b.mp1Malloc with
    | none =>
      refine ⟨b, -1, nodes, ?_, .refused _⟩
      rw [handle, mp1IoctlAdd, if_neg hlocation, hmalloc]
    | some i =>
      refine ⟨b.addNode i user, 0, i :: nodes, ?_, .added hmalloc⟩
      rw [handle, mp1IoctlAdd, if_neg hlocation, hmalloc]

/-- The search for the cell comes to the one before the node. -/
theorem does_remove (h : Sound b nodes) (arg : UInt32) :
    ∃ b' r nodes', handle b (.remove arg) = some (b', r) ∧ Does b nodes (.remove arg) b' r nodes' := by
  have hfind := mp1FindHelper_eq h arg.toUInt16
  cases hcase : nodes.find? fun i => (b.slots i).location = arg.toUInt16 with
  | none =>
    refine ⟨b, -1, nodes, ?_, .refused _⟩
    rw [handle, mp1IoctlRemove, hfind, hcase, Option.bind_eq_bind, Option.bind_some]
  | some i =>
    obtain ⟨first, rest, rfl⟩ := List.append_of_mem (List.mem_of_find?_eq_some hcase)
    have hfirst : i ∉ first := by
      have hnodup := h.nodup
      rw [List.nodup_middle, List.nodup_cons, List.mem_append, not_or] at hnodup
      exact hnodup.1.1
    have hcell : findCell b.head b.next i turns none = some first.getLast? := by
      have hlength := h.length_lt
      rw [List.length_append] at hlength
      rw [findCell_eq b.head none h.linked hfirst (by omega), Option.or_none]
    refine ⟨b.removeNode first.getLast? i, 0, first ++ rest, ?_, .removed rfl⟩
    rw [handle, mp1IoctlRemove, hfind, hcase, Option.bind_eq_bind, Option.bind_some]
    dsimp only
    rw [hcell, Option.bind_some]

theorem does_find (h : Sound b nodes) (location : UInt16) :
    ∃ b' r nodes', handle b (.find location) = some (b', r) ∧
      Does b nodes (.find location) b' r nodes' := by
  have hfind := mp1FindHelper_eq h location
  cases hcase : nodes.find? fun i => (b.slots i).location = location with
  | none =>
    refine ⟨b, -1, nodes, ?_, .refused _⟩
    rw [handle, mp1IoctlFind, hfind, hcase]
    rfl
  | some i =>
    refine ⟨b, 0, nodes, ?_, .found location⟩
    rw [handle, mp1IoctlFind, hfind, hcase]
    rfl

theorem does_sync (h : Sound b nodes) (arg : UInt32) :
    ∃ b' r nodes', handle b (.sync arg) = some (b', r) ∧ Does b nodes (.sync arg) b' r nodes' := by
  have hsrc := mp1FindHelper_eq h (arg >>> 16).toUInt16
  have hdest := mp1FindHelper_eq h arg.toUInt16
  cases hi : nodes.find? fun i => (b.slots i).location = (arg >>> 16).toUInt16 with
  | none =>
    refine ⟨b, -1, nodes, ?_, .refused _⟩
    rw [handle, mp1IoctlSync, hsrc, hi, Option.bind_eq_bind, Option.bind_some]
  | some i =>
    rw [hi] at hsrc
    cases hj : nodes.find? fun i => (b.slots i).location = arg.toUInt16 with
    | none =>
      refine ⟨b, -1, nodes, ?_, .refused _⟩
      rw [handle, mp1IoctlSync, hsrc, Option.bind_eq_bind, Option.bind_some]
      dsimp only
      rw [hdest, hj, Option.bind_some]
    | some j =>
      rw [hj] at hdest
      refine ⟨b.syncNode i j, 0, nodes, ?_, ?_⟩
      · rw [handle, mp1IoctlSync, hsrc, Option.bind_eq_bind, Option.bind_some]
        dsimp only
        rw [hdest, Option.bind_some]
      · exact .synced hsrc hdest (List.mem_of_find?_eq_some hi) (List.mem_of_find?_eq_some hj)

/-- Under the invariant every request comes to its end. -/
theorem Sound.does (h : Sound b nodes) (request : Request) :
    ∃ b' r nodes', handle b request = some (b', r) ∧ Does b nodes request b' r nodes' := by
  cases request with
  | add user => exact does_add b nodes user
  | remove arg => exact does_remove h arg
  | find location => exact does_find h location
  | sync arg => exact does_sync h arg
  | tasklet =>
    refine ⟨nodes.foldl blinkNode b, 0, nodes, ?_, .ticked⟩
    rw [handle, mp1RtcTasklet_eq h, Option.map_some]

theorem Does.lengths (h : Does b nodes request b' r nodes') :
    request.Lengths r nodes.length nodes'.length := by
  cases h with
  | refused => cases request <;> simp [Request.Lengths]
  | added hmalloc => exact List.length_cons
  | @removed arg first rest i hnodes =>
    subst hnodes
    change (first ++ i :: rest).length = (first ++ rest).length + 1
    rw [List.length_append, List.length_append, List.length_cons, Nat.add_assoc]
  | found location => rfl
  | synced hsrc hdest hi hj => rfl
  | ticked => rfl

/-! ## The requests keep the invariant -/

theorem Sound.addNode (h : Sound b nodes) {i : Nat} (hmalloc : b.mp1Malloc = some i)
    {user : BlinkStruct} (hne : user.location ≠ 0) : Sound (b.addNode i user) (i :: nodes) := by
  obtain ⟨hlt, -, -⟩ := mp1Malloc_iff.mp hmalloc
  have hfresh := h.fresh hmalloc
  refine ⟨?_, List.nodup_cons.mpr ⟨hfresh, h.nodup⟩, ?_, ?_⟩
  · have hnext : (b.addNode i user).next = Function.update b.next i b.head :=
      next_setSlot b i (user.added b.head)
    rw [hnext]
    exact h.linked.push hfresh
  · rw [List.forall_mem_cons]
    exact ⟨hlt, h.slot_lt⟩
  · rw [List.forall_mem_cons, slots_addNode_self]
    refine ⟨hne, ?_⟩
    intro j hj
    have hji : j ≠ i := by
      rintro rfl
      exact hfresh hj
    rw [slots_addNode_of_ne hji]
    exact h.location_ne j hj

/-- The list without a node, after the cell that points at it has been written. -/
theorem linked_writeCell {first rest : List Nat} {i : Nat}
    (h : Linked b.next b.head (first ++ i :: rest)) (hnodup : (first ++ i :: rest).Nodup) :
    Linked (b.writeCell first.getLast? (b.next i)).next
      (b.writeCell first.getLast? (b.next i)).head (first ++ rest) := by
  rcases List.eq_nil_or_concat first with rfl | ⟨before, j, rfl⟩
  · exact h.2
  · rw [List.concat_eq_append, List.append_assoc] at h hnodup
    rw [List.concat_eq_append, List.getLast?_concat, List.append_assoc]
    have hunlinked := Linked.unlink h hnodup
    rw [← next_setSlot b j { b.slots j with next := b.next i }] at hunlinked
    exact hunlinked

theorem location_writeCell (b : Blink) (cell q : Option Nat) (j : Nat) :
    ((b.writeCell cell q).slots j).location = (b.slots j).location := by
  cases cell with
  | none => rfl
  | some i =>
    unfold Blink.writeCell
    by_cases hj : j = i
    · subst hj
      rw [slots_setSlot_self]
    · rw [slots_setSlot_of_ne hj]

/-- `mp1_free` of a slot that is not on the list. -/
theorem Sound.free (h : Sound b nodes) {i : Nat} (hi : i ∉ nodes) :
    Sound (b.setSlot i .zero) nodes := by
  have hne : ∀ j ∈ nodes, j ≠ i := by
    rintro j hj rfl
    exact hi hj
  refine ⟨?_, h.nodup, h.slot_lt, ?_⟩
  · rw [next_setSlot, linked_congr fun j hj => Function.update_of_ne (hne j hj) _ _]
    exact h.linked
  · intro j hj
    rw [slots_setSlot_of_ne (hne j hj)]
    exact h.location_ne j hj

theorem Sound.removeNode {first rest : List Nat} {i : Nat} (h : Sound b (first ++ i :: rest)) :
    Sound (b.removeNode first.getLast? i) (first ++ rest) := by
  have hnodup := h.nodup
  rw [List.nodup_middle, List.nodup_cons] at hnodup
  have hlt := h.slot_lt
  have hlocation := h.location_ne
  rw [List.forall_mem_append, List.forall_mem_cons] at hlt hlocation
  refine Sound.free ⟨linked_writeCell h.linked h.nodup, hnodup.2, ?_, ?_⟩ hnodup.1
  · rw [List.forall_mem_append]
    exact ⟨hlt.1, hlt.2.2⟩
  · simp only [location_writeCell]
    rw [List.forall_mem_append]
    exact ⟨hlocation.1, hlocation.2.2⟩

/-- `mp1_ioctl_sync` writes a node with its own link and location. -/
theorem Sound.syncNode (h : Sound b nodes) (i j : Nat) : Sound (b.syncNode i j) nodes := by
  have hsame := @same_setSlot b j ((b.slots j).syncFrom (b.slots i)) rfl rfl
  exact h.of_same rfl (fun k => (hsame k).1) fun k => (hsame k).2

theorem Does.sound (hdoes : Does b nodes request b' r nodes') (h : Sound b nodes)
    (hzero : ¬ TakesZero b request) : Sound b' nodes' := by
  cases hdoes with
  | refused => exact h
  | @added user i hmalloc =>
    refine h.addNode hmalloc ?_
    intro hlocation
    exact hzero ⟨hlocation, hmalloc ▸ Option.some_ne_none i⟩
  | removed hnodes =>
    subst hnodes
    exact h.removeNode
  | found location => exact h
  | synced hsrc hdest hi hj => exact h.syncNode _ _
  | ticked => exact h.blinkNodes nodes

/-- After location zero has been put into a free slot, the slot is on the list and the next one to
be handed out. -/
theorem not_works_of_takesZero {request : Request} (hzero : TakesZero b request) :
    ¬ Works b request := by
  cases request with
  | add user =>
    obtain ⟨hlocation, hmalloc⟩ := hzero
    obtain ⟨i, hi⟩ := Option.ne_none_iff_exists'.mp hmalloc
    rintro ⟨b', r, nodes, nodes', hhandle, -, hproper, -⟩
    have hadded : b' = b.addNode i user := by
      rw [handle, mp1IoctlAdd, hlocation, if_neg (by decide), hi] at hhandle
      cases hhandle
      rfl
    subst hadded
    have hagain : (b.addNode i user).mp1Malloc = some i := by
      obtain ⟨hlt, -, hless⟩ := mp1Malloc_iff.mp hi
      refine mp1Malloc_iff.mpr ⟨hlt, ?_, ?_⟩
      · rw [slots_addNode_self]
        exact hlocation
      · intro j hj
        rw [slots_addNode_of_ne (Nat.ne_of_lt hj)]
        exact hless j hj
    have hmem : i ∈ nodes' := by
      have hlinked := hproper.linked
      cases nodes' with
      | nil => cases hlinked
      | cons j nodes' =>
        obtain ⟨hhead, -⟩ := hlinked
        cases hhead
        exact List.mem_cons_self
    exact hproper.fresh i hagain hmem
  | remove arg => exact absurd hzero id
  | find location => exact absurd hzero id
  | sync arg => exact absurd hzero id
  | tasklet => exact absurd hzero id

theorem reaches_of_handle {P : Blink → Prop} (h : handle b request = some (b', r)) (hP : P b') :
    Reaches blinkStep P b request := by
  intro b'' hstep
  rw [blinkStep, h, Option.map_some, Option.some.injEq] at hstep
  exact hstep ▸ hP

theorem sound_start (video : Nat → UInt8) : Sound (Blink.start video) [] where
  linked := rfl
  nodup := List.nodup_nil
  slot_lt _ hi := absurd hi List.not_mem_nil
  location_ne _ hi := absurd hi List.not_mem_nil

end Requests

/-- **The blink list.** From the empty list on, in every sequence of requests and ticks, every
request comes to its end and takes a proper list to a proper list, longer by one after an add and
shorter by one after a remove, exactly when no node with location zero is put into a free slot. -/
theorem works_along_iff (video : Nat → UInt8) (requests : List Request) :
    Along blinkStep Works (Blink.start video) requests ↔
      Along blinkStep (fun b request => ¬ TakesZero b request) (Blink.start video) requests := by
  refine along_iff_of_keep (A := fun b => ∃ nodes, Sound b nodes) ?_ ?_ ?_
  · rintro b request ⟨nodes, h⟩ hzero
    obtain ⟨b', r, nodes', hhandle, hdoes⟩ := h.does request
    have h' := hdoes.sound h hzero
    refine ⟨⟨b', r, nodes, nodes', hhandle, h.proper, h'.proper, hdoes.lengths⟩, ?_⟩
    exact reaches_of_handle hhandle ⟨nodes', h'⟩
  · intro b request _ hworks hzero
    exact not_works_of_takesZero hzero hworks
  · exact ⟨[], sound_start video⟩

/-- A blinker in the corner of the screen. -/
def corner : BlinkStruct where
  location := 0
  onChar := 65
  offChar := 66
  onLength := 3
  offLength := 3
  countdown := 0
  status := 0
  next := none

/-- Two blinkers in the corner get the same slot, and its link then leads back to it. -/
theorem corner_twice_not_works :
    (∃ b, run blinkStep (Blink.start fun _ => 32) [.add corner, .add corner] = some b ∧
      b.head = some 0 ∧ b.next 0 = some 0) ∧
    ¬ Along blinkStep Works (Blink.start fun _ => 32) [.add corner, .add corner] := by
  have hfirst : ∀ b : Blink, (b.slots 0).location = 0 → b.mp1Malloc = some 0 := by
    intro b hzero
    exact mp1Malloc_iff.mpr ⟨by decide, hzero, fun j hj => absurd hj (Nat.not_lt_zero j)⟩
  have hadd : ∀ b : Blink, (b.slots 0).location = 0 →
      blinkStep b (.add corner) = some (b.addNode 0 corner) := by
    intro b hzero
    rw [blinkStep, handle, mp1IoctlAdd, if_neg (by decide), hfirst b hzero]
    rfl
  have hagain : (((Blink.start fun _ => 32).addNode 0 corner).slots 0).location = 0 := by
    rw [slots_addNode_self]
    rfl
  refine ⟨⟨((Blink.start fun _ => 32).addNode 0 corner).addNode 0 corner, ?_, rfl, ?_⟩, ?_⟩
  · rw [run_cons]
    refine ⟨_, hadd _ rfl, ?_⟩
    rw [run_cons]
    exact ⟨_, hadd _ hagain, rfl⟩
  · unfold Blink.next
    rw [slots_addNode_self]
    rfl
  · intro h
    have hzero : TakesZero (Blink.start fun _ => 32) (.add corner) := by
      refine ⟨rfl, ?_⟩
      rw [hfirst _ rfl]
      exact Option.some_ne_none 0
    exact not_works_of_takesZero hzero h.1

end LinuxBasedOS.Programs
