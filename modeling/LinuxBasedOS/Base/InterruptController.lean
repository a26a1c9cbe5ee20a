import Mathlib.Data.List.Basic
import Mathlib.Logic.Function.Basic

/-!
# The 8259A interrupt controller

A controller has eight lines. It remembers which of them have been requested, takes one of them when
the processor asks for it, and has it in service until it is told that the interrupt has ended; while
a line is in service the lines from it on have to wait. `Cascade` is a controller with a second one
behind one of its lines. Of the commands there are the initialisation and the end of the interrupt of
a given line.
-/

namespace InterruptController

/-- What the next byte at the data port is: the words that an initialisation is made of, or a mask. -/
inductive Stage where
  | vectorBase (cascaded mode : Bool)
  | wiring (mode : Bool)
  | mode
  | mask
  deriving DecidableEq, Repr

structure Controller where
  stage : Stage
  base : Nat
  wiring : UInt8
  mask : UInt8
  requested : Nat → Bool
  inService : Nat → Bool

namespace Controller

/-- A byte at the command port. -/
def command (c : Controller) (data : UInt8) : Controller :=
  if data &&& 0x10 ≠ 0 then
    { c with
      stage := .vectorBase (data &&& 0x02 = 0) (data &&& 0x01 ≠ 0)
      mask := 0
      requested := fun _ => false
      inService := fun _ => false }
  else if data &&& 0xF8 = 0x60 then
    { c with inService := Function.update c.inService (data &&& 0x07).toNat false }
  else c

/-- A byte at the data port. -/
def data (c : Controller) (byte : UInt8) : Controller :=
  match c.stage with
  | .vectorBase cascaded mode =>
    { c with
      base := (byte &&& 0xF8).toNat
      stage := if cascaded then .wiring mode else if mode then .mode else .mask }
  | .wiring mode => { c with wiring := byte, stage := if mode then .mode else .mask }
  | .mode => { c with stage := .mask }
  | .mask => { c with mask := byte }

def masked (c : Controller) (line : Nat) : Bool := c.mask.toNat.testBit line

def request (c : Controller) (line : Nat) : Controller :=
  { c with requested := Function.update c.requested line true }

/-- The line would be taken if there were no other. -/
def waiting (c : Controller) (line : Nat) : Bool :=
  c.requested line && !c.masked line && (List.range (line + 1)).all fun j => !c.inService j

/-- The line that is taken when the processor asks for one. -/
def next (c : Controller) : Option Nat := (List.range 8).find? c.waiting

def acknowledge (c : Controller) (line : Nat) : Controller :=
  { c with
    requested := Function.update c.requested line false
    inService := Function.update c.inService line true }

/-- Behind the initialisation the data port takes masks. -/
theorem data_of_mask {c : Controller} (h : c.stage = .mask) (byte : UInt8) :
    c.data byte = { c with mask := byte } := by
  cases c
  cases h
  rfl

/-- The words of an initialisation, and a mask. -/
theorem initialised (c : Controller) (base wiring mode mask : UInt8) :
    (((((c.command 0x11).data base).data wiring).data mode).data mask) =
      { stage := .mask
        base := (base &&& 0xF8).toNat
        wiring := wiring
        mask := mask
        requested := fun _ => false
        inService := fun _ => false } := by
  have hstart : c.command 0x11 =
      { c with
        stage := .vectorBase true true
        mask := 0
        requested := fun _ => false
        inService := fun _ => false } := by
    rw [command, if_pos (by decide)]
    rfl
  rw [hstart]
  rfl

/-- Nothing is in service. -/
def Idle (c : Controller) : Prop := ∀ line < 8, c.inService line = false

/-- One line is in service. -/
def Serves (c : Controller) (line : Nat) : Prop := ∀ k < 8, c.inService k = decide (k = line)

section Lines

variable {c : Controller} {line : Nat}

theorem waiting_of_idle (h : c.Idle) (hline : line < 8) :
    c.waiting line = true ↔ c.requested line = true ∧ c.masked line = false := by
  have hfree : (List.range (line + 1)).all (fun j => !c.inService j) = true := by
    rw [List.all_eq_true]
    intro j hj
    have hlt := List.mem_range.mp hj
    rw [h j (by omega)]
    rfl
  unfold waiting
  rw [hfree, Bool.and_true, Bool.and_eq_true, Bool.not_eq_true']

/-- An idle controller takes the first of the lines that are requested and not masked. -/
theorem next_eq_some (h : c.Idle) :
    c.next = some line ↔ line < 8 ∧ (c.requested line = true ∧ c.masked line = false) ∧
      ∀ k < line, ¬ (c.requested k = true ∧ c.masked k = false) := by
  unfold next
  rw [List.find?_range_eq_some]
  constructor
  · rintro ⟨hwaiting, hline, hbelow⟩
    have hlt := List.mem_range.mp hline
    refine ⟨hlt, (waiting_of_idle h hlt).mp hwaiting, fun k hk hk' => ?_⟩
    have hnot := hbelow k hk
    rw [(waiting_of_idle h (by omega)).mpr hk'] at hnot
    cases hnot
  · rintro ⟨hlt, hwaiting, hbelow⟩
    refine ⟨(waiting_of_idle h hlt).mpr hwaiting, List.mem_range.mpr hlt, fun k hk => ?_⟩
    rw [Bool.not_eq_true', ← Bool.not_eq_true, waiting_of_idle h (by omega)]
    exact hbelow k hk

/-- An idle controller keeps nothing back. -/
theorem next_isSome (h : c.Idle) :
    c.next.isSome = true ↔ ∃ line < 8, c.requested line = true ∧ c.masked line = false := by
  unfold next
  rw [List.find?_isSome]
  constructor
  · rintro ⟨line, hline, hwaiting⟩
    have hlt := List.mem_range.mp hline
    exact ⟨line, hlt, (waiting_of_idle h hlt).mp hwaiting⟩
  · rintro ⟨line, hlt, hwaiting⟩
    exact ⟨line, List.mem_range.mpr hlt, (waiting_of_idle h hlt).mpr hwaiting⟩

theorem acknowledge_serves (h : c.Idle) (line : Nat) : (c.acknowledge line).Serves line := by
  intro k hk
  unfold acknowledge
  dsimp only
  by_cases heq : k = line
  · rw [heq, Function.update_self, decide_eq_true rfl]
  · rw [Function.update_of_ne heq, h k hk, decide_eq_false heq]

/-- The byte that ends the interrupt of a line. -/
theorem command_end (c : Controller) (hline : line < 8) :
    c.command (0x60 ||| UInt8.ofNat line) =
      { c with inService := Function.update c.inService line false } := by
  have hbyte : ∀ line < 8, (0x60 ||| UInt8.ofNat line) &&& 0x10 = 0 ∧
      (0x60 ||| UInt8.ofNat line) &&& 0xF8 = 0x60 ∧
      ((0x60 ||| UInt8.ofNat line) &&& 0x07).toNat = line := by
    decide
  obtain ⟨hinit, hend, hnumber⟩ := hbyte line hline
  rw [command, if_neg (not_not.mpr hinit), if_pos hend, hnumber]

theorem Serves.ended (h : c.Serves line) (hline : line < 8) :
    (c.command (0x60 ||| UInt8.ofNat line)).Idle := by
  intro k hk
  rw [command_end c hline]
  by_cases heq : k = line
  · exact heq ▸ Function.update_self _ _ _
  · exact (Function.update_of_ne heq _ _).trans ((h k hk).trans (decide_eq_false heq))

end Lines

end Controller

/-! ## Two controllers -/

structure Cascade where
  master : Controller
  slave : Controller

namespace Cascade

/-- The second controller is behind line 2 of the first. -/
def view (p : Cascade) : Controller :=
  { p.master with requested := Function.update p.master.requested 2 p.slave.next.isSome }

/-- A device requests one of the sixteen lines. -/
def request (p : Cascade) (line : Nat) : Cascade :=
  if line < 8 then { p with master := p.master.request line }
  else { p with slave := p.slave.request (line - 8) }

/-- A byte at one of the four ports. -/
def outb (p : Cascade) (byte : UInt8) (port : Nat) : Cascade :=
  if port = 0x20 then { p with master := p.master.command byte }
  else if port = 0x21 then { p with master := p.master.data byte }
  else if port = 0xA0 then { p with slave := p.slave.command byte }
  else if port = 0xA1 then { p with slave := p.slave.data byte }
  else p

/-- The processor asks for an interrupt: the line that is taken and the vector it gets. When both
controllers know how they are connected, the second one answers for its lines. -/
def accept (p : Cascade) : Option (Nat × Nat × Cascade) :=
  match p.view.next with
  | none => none
  | some line =>
    let master := p.master.acknowledge line
    if line = 2 ∧ p.master.wiring.toNat.testBit 2 ∧ p.slave.wiring = 2 then
      match p.slave.next with
      | none => some (15, p.slave.base + 7, { p with master := master })
      | some line' => some (8 + line', p.slave.base + line',
          { master := master, slave := p.slave.acknowledge line' })
    else some (line, p.master.base + line, { p with master := master })

/-- The line has been requested. -/
def requested (p : Cascade) (line : Nat) : Bool :=
  if line < 8 then p.master.requested line else p.slave.requested (line - 8)

/-- The line is masked, by its own controller or as one of those behind line 2. -/
def masked (p : Cascade) (line : Nat) : Bool :=
  if line < 8 then p.master.masked line else p.slave.masked (line - 8) || p.master.masked 2

/-- The line of a device waits to be taken. -/
structure Waits (p : Cascade) (line : Nat) : Prop where
  lt : line < 16
  ne : line ≠ 2
  requested : p.requested line = true
  unmasked : p.masked line = false

/-- The place of a line in the order in which the lines are taken. -/
def rank (line : Nat) : Nat := if line < 2 then line else if line < 8 then line + 8 else line - 6

/-- The lines of the second controller are where they belong. -/
structure Wired (p : Cascade) : Prop where
  master : p.master.wiring.toNat.testBit 2 = true
  slave : p.slave.wiring = 2

structure Idle (p : Cascade) : Prop where
  master : p.master.Idle
  slave : p.slave.Idle

/-- The line is in service, and no other. -/
def Serves (p : Cascade) (line : Nat) : Prop :=
  if line < 8 then p.master.Serves line ∧ p.slave.Idle
  else p.master.Serves 2 ∧ p.slave.Serves (line - 8)

def vector (p : Cascade) (line : Nat) : Nat :=
  if line < 8 then p.master.base + line else p.slave.base + (line - 8)

/-- The controllers when the line has been taken. -/
def taken (p : Cascade) (line : Nat) : Cascade :=
  if line < 8 then { p with master := p.master.acknowledge line }
  else { master := p.master.acknowledge 2, slave := p.slave.acknowledge (line - 8) }

/-- The controllers when they have been told that the interrupt of a line has ended. -/
def ended (p : Cascade) (line : Nat) : Cascade :=
  if line < 8 then p.outb (0x60 ||| UInt8.ofNat line) 0x20
  else (p.outb (0x60 ||| UInt8.ofNat (line - 8)) 0xA0).outb (0x60 ||| 2) 0x20

section Lines

variable {p : Cascade} {line k : Nat}

@[simp] theorem outb_masterCommand (p : Cascade) (byte : UInt8) :
    p.outb byte 0x20 = { p with master := p.master.command byte } := rfl

@[simp] theorem outb_masterData (p : Cascade) (byte : UInt8) :
    p.outb byte 0x21 = { p with master := p.master.data byte } := rfl

@[simp] theorem outb_slaveCommand (p : Cascade) (byte : UInt8) :
    p.outb byte 0xA0 = { p with slave := p.slave.command byte } := rfl

@[simp] theorem outb_slaveData (p : Cascade) (byte : UInt8) :
    p.outb byte 0xA1 = { p with slave := p.slave.data byte } := rfl

theorem requested_of_lt (h : line < 8) : p.requested line = p.master.requested line := if_pos h

theorem masked_of_lt (h : line < 8) : p.masked line = p.master.masked line := if_pos h

theorem requested_of_ge (h : 8 ≤ line) : p.requested line = p.slave.requested (line - 8) :=
  if_neg (by omega)

theorem masked_of_ge (h : 8 ≤ line) :
    p.masked line = (p.slave.masked (line - 8) || p.master.masked 2) :=
  if_neg (by omega)

theorem view_requested_of_ne (h : line ≠ 2) : p.view.requested line = p.master.requested line :=
  Function.update_of_ne h _ _

theorem view_requested_two : p.view.requested 2 = p.slave.next.isSome := by
  show Function.update p.master.requested 2 p.slave.next.isSome 2 = _
  rw [Function.update_self]

/-- A line behind line 2 waits, so line 2 does. -/
theorem Waits.two (hidle : p.Idle) (h : p.Waits line) (hline : 8 ≤ line) :
    p.view.requested 2 = true ∧ p.view.masked 2 = false := by
  have hlt := h.lt
  have hmask := h.unmasked
  rw [masked_of_ge hline, Bool.or_eq_false_iff] at hmask
  have hrequested := h.requested
  rw [requested_of_ge hline] at hrequested
  refine ⟨?_, hmask.2⟩
  rw [view_requested_two, Controller.next_isSome hidle.slave]
  exact ⟨line - 8, by omega, hrequested, hmask.1⟩

/-- What an idle pair takes: a line that waits, the first in the order. -/
theorem accept_spec (hidle : p.Idle) (hwired : p.Wired) {vector : Nat} {p' : Cascade}
    (h : p.accept = some (line, vector, p')) :
    p.Waits line ∧ (∀ k, p.Waits k → rank line ≤ rank k) ∧ vector = p.vector line ∧
      p' = p.taken line := by
  have hview : p.view.Idle := hidle.master
  unfold accept at h
  cases hnext : p.view.next with
  | none =>
    rw [hnext] at h
    cases h
  | some i =>
    obtain ⟨hi, ⟨hrequested, hmasked⟩, hbelow⟩ := (Controller.next_eq_some hview).mp hnext
    rw [hnext] at h
    dsimp only at h
    by_cases htwo : i = 2
    · subst htwo
      rw [if_pos ⟨rfl, hwired.master, hwired.slave⟩] at h
      rw [view_requested_two] at hrequested
      obtain ⟨j, hj⟩ := Option.isSome_iff_exists.mp hrequested
      obtain ⟨hlt, ⟨hrequested', hmasked'⟩, hbelow'⟩ := (Controller.next_eq_some hidle.slave).mp hj
      rw [hj] at h
      cases h
      have hsub : 8 + j - 8 = j := Nat.add_sub_cancel_left 8 j
      have hge : ¬ 8 + j < 8 := by omega
      refine ⟨⟨by omega, by omega, ?_, ?_⟩, fun k hk => ?_, ?_, ?_⟩
      · rw [requested_of_ge (by omega), hsub]
        exact hrequested'
      · rw [masked_of_ge (by omega), hsub, hmasked']
        exact hmasked
      · have hne := hk.ne
        have hlt16 := hk.lt
        by_contra hrank
        unfold rank at hrank
        have hcase : k < 2 ∨ (8 ≤ k ∧ k - 8 < j) := by
          split_ifs at hrank <;> omega
        rcases hcase with hlow | ⟨hslave, hless⟩
        · refine hbelow k hlow ?_
          rw [view_requested_of_ne hne, ← requested_of_lt (by omega)]
          exact ⟨hk.requested, (masked_of_lt (by omega)).symm.trans hk.unmasked⟩
        · have hmask := hk.unmasked
          rw [masked_of_ge hslave, Bool.or_eq_false_iff] at hmask
          exact hbelow' (k - 8) hless ⟨(requested_of_ge hslave).symm.trans hk.requested, hmask.1⟩
      · unfold Cascade.vector
        rw [if_neg hge, hsub]
      · unfold taken
        rw [if_neg hge, hsub]
    · rw [if_neg fun hand => htwo hand.1] at h
      cases h
      rw [view_requested_of_ne htwo] at hrequested
      refine ⟨⟨by omega, htwo, ?_, ?_⟩, fun k hk => ?_, ?_, ?_⟩
      · rw [requested_of_lt hi]
        exact hrequested
      · rw [masked_of_lt hi]
        exact hmasked
      · have hne := hk.ne
        have hlt16 := hk.lt
        by_contra hrank
        unfold rank at hrank
        have hcase : (k < 8 ∧ k < line) ∨ (8 ≤ k ∧ 2 < line) := by
          split_ifs at hrank <;> omega
        rcases hcase with ⟨hlow, hless⟩ | ⟨hslave, hthree⟩
        · refine hbelow k hless ?_
          rw [view_requested_of_ne hne, ← requested_of_lt hlow]
          exact ⟨hk.requested, (masked_of_lt hlow).symm.trans hk.unmasked⟩
        · exact hbelow 2 hthree (hk.two hidle hslave)
      · exact (if_pos hi).symm
      · exact (if_pos hi).symm

/-- An idle pair keeps nothing back. -/
theorem accept_isSome (hidle : p.Idle) (h : p.Waits line) : p.accept.isSome = true := by
  have hview : p.view.Idle := hidle.master
  have hnext : p.view.next.isSome = true := by
    rw [Controller.next_isSome hview]
    have hne := h.ne
    by_cases hlow : line < 8
    · refine ⟨line, hlow, ?_, ?_⟩
      · rw [view_requested_of_ne hne, ← requested_of_lt hlow]
        exact h.requested
      · exact (masked_of_lt hlow).symm.trans h.unmasked
    · exact ⟨2, by decide, h.two hidle (by omega)⟩
  obtain ⟨i, hi⟩ := Option.isSome_iff_exists.mp hnext
  unfold accept
  rw [hi]
  dsimp only
  split_ifs
  · cases p.slave.next <;> rfl
  · rfl

theorem taken_serves (hidle : p.Idle) (line : Nat) : (p.taken line).Serves line := by
  unfold taken Serves
  split_ifs with hline
  · exact ⟨Controller.acknowledge_serves hidle.master line, hidle.slave⟩
  · exact ⟨Controller.acknowledge_serves hidle.master 2, Controller.acknowledge_serves hidle.slave _⟩

/-- Only the request that is taken goes away. -/
theorem requested_taken (hk : k ≠ 2) (hlt : k < 16) (hline : line < 16) :
    (p.taken line).requested k = if k = line then false else p.requested k := by
  unfold taken requested Controller.acknowledge
  split_ifs <;> dsimp only <;> first
    | (subst_vars; exact Function.update_self _ _ _)
    | exact Function.update_of_ne (by omega) _ _
    | rfl
    | omega

/-- The end of an interrupt changes nothing but what is in service. -/
theorem ended_eq (p : Cascade) (hline : line < 16) : ∃ inMaster inSlave, p.ended line =
    { master := { p.master with inService := inMaster }
      slave := { p.slave with inService := inSlave } } := by
  unfold ended
  split_ifs with hlow
  · exact ⟨_, _, congrArg (Cascade.mk · p.slave) (p.master.command_end hlow)⟩
  · exact ⟨_, _, congrArg₂ Cascade.mk (@Controller.command_end 2 p.master (by decide))
      (@Controller.command_end (line - 8) p.slave (by omega))⟩

theorem Serves.ended (h : p.Serves line) (hline : line < 16) : (p.ended line).Idle := by
  unfold Serves at h
  unfold Cascade.ended
  split_ifs at h ⊢ with hlow
  · exact ⟨h.1.ended hlow, h.2⟩
  · exact ⟨@Controller.Serves.ended _ 2 h.1 (by decide), h.2.ended (by omega)⟩

end Lines

end Cascade

end InterruptController
