import LinuxBasedOS.Base.Stores
import LinuxBasedOS.Devices.I8259

/-!
# The interrupt masks as a table of lines

Seen from outside, the two masks are one table that says of each of the sixteen lines whether it is
masked, and a call of `enable_irq` or `disable_irq` is a store to the line it names. So after any
sequence of calls a line has what the last call that names it has stored.
-/

namespace LinuxBasedOS.Devices

open Word Stores

/-! ## The table -/

/-- The mask bit of a line: bit `n` of the first mask, or bit `n - 8` of the second. -/
def Pics.masked (s : Pics) (n : Nat) : Bool :=
  if n < 8 then s.masterMask.toNat.testBit n else s.slaveMask.toNat.testBit (n - 8)

inductive MaskCall where
  | enable (irqNum : Nat)
  | disable (irqNum : Nat)
  deriving DecidableEq

def MaskCall.irqNum : MaskCall → Nat
  | .enable irqNum => irqNum
  | .disable irqNum => irqNum

def maskCall (s : Pics) : MaskCall → Pics
  | .enable irqNum => enableIrq s irqNum
  | .disable irqNum => disableIrq s irqNum

/-- The controllers after `i8259_init` and the calls. -/
def afterMaskCalls (masterData slaveData : UInt8) (calls : List MaskCall) : Pics :=
  calls.foldl maskCall (i8259Init (Pics.start masterData slaveData))

/-- What a call stores in the table. -/
def MaskCall.store : MaskCall → Nat × Bool
  | .enable irqNum => (irqNum, false)
  | .disable irqNum => (irqNum, true)

/-- The last of the calls that name the line is `enable_irq`. -/
def LastEnables (n : Nat) (calls : List MaskCall) : Prop :=
  (calls.filter fun call => call.irqNum = n).getLast? = some (.enable n)

section Calls

variable {s s' : Pics} {n : Nat} {calls calls' : List MaskCall}

/-! ## One call -/

theorem testBit_lineBit {k : Nat} (h : k < 8) (i : Nat) :
    (lineBit k).toNat.testBit i = decide (k = i) := testBit_shiftLeft_one h i

theorem testBit_enable (mask : UInt8) {k : Nat} (h : k < 8) :
    (mask &&& ~~~lineBit k).toNat.testBit = Function.update mask.toNat.testBit k false := by
  rw [Function.eq_update_iff]
  constructor
  · rw [testBit_and_not, testBit_lineBit h]
    simp
  · intro i hi
    rw [testBit_and_not, testBit_lineBit h]
    simp [hi.symm]

theorem testBit_disable (mask : UInt8) {k : Nat} (h : k < 8) :
    (mask ||| lineBit k).toNat.testBit = Function.update mask.toNat.testBit k true := by
  rw [Function.eq_update_iff]
  constructor
  · rw [testBit_or, testBit_lineBit h]
    simp
  · intro i hi
    rw [testBit_or, testBit_lineBit h]
    simp [hi.symm]

/-- A store to a bit of the second mask. -/
theorem masked_of_slave {b : Bool} (hn : 8 ≤ n) (hmaster : s'.masterMask = s.masterMask)
    (hslave : s'.slaveMask.toNat.testBit = Function.update s.slaveMask.toNat.testBit (n - 8) b) :
    s'.masked = Function.update s.masked n b := by
  unfold Pics.masked
  rw [hmaster, hslave, Function.eq_update_iff]
  constructor
  · rw [if_neg (Nat.not_lt.mpr hn), Function.update_self]
  · intro i hi
    split_ifs
    · rfl
    · rw [Function.update_of_ne (by omega)]

/-- A store to a bit of the first mask. -/
theorem masked_of_master {b : Bool} (hn : n < 8) (hslave : s'.slaveMask = s.slaveMask)
    (hmaster : s'.masterMask.toNat.testBit = Function.update s.masterMask.toNat.testBit n b) :
    s'.masked = Function.update s.masked n b := by
  unfold Pics.masked
  rw [hmaster, hslave, Function.eq_update_iff]
  constructor
  · rw [if_pos hn, Function.update_self]
  · intro i hi
    rw [Function.update_of_ne hi]

/-- The test that chooses the controller. -/
theorem and_slaveOffset (h : n < 16) : n &&& slaveOffset ≠ 0 ↔ 8 ≤ n := by
  have hall : ∀ n < 16, n &&& slaveOffset ≠ 0 ↔ 8 ≤ n := by decide
  exact hall n h

/-- Each branch stores to the bit of its own mask. -/
theorem masked_of_branches {onSlave onMaster : Pics} {b : Bool} (h : n < 16)
    (hslave : 8 ≤ n → onSlave.masked = Function.update s.masked n b)
    (hmaster : n < 8 → onMaster.masked = Function.update s.masked n b) :
    (if n &&& slaveOffset ≠ 0 then onSlave else onMaster).masked =
      Function.update s.masked n b := by
  split_ifs with hbit
  · exact hslave ((and_slaveOffset h).mp hbit)
  · exact hmaster (Nat.not_le.mp (mt (and_slaveOffset h).mpr hbit))

theorem masked_enableIrq (s : Pics) (h : n < 16) :
    (enableIrq s n).masked = Function.update s.masked n false := by
  refine masked_of_branches h ?_ ?_
  · intro hn
    exact masked_of_slave hn rfl (testBit_enable s.slaveMask (Nat.sub_lt_right_of_lt_add hn h))
  · intro hn
    exact masked_of_master hn rfl (testBit_enable s.masterMask hn)

theorem masked_disableIrq (s : Pics) (h : n < 16) :
    (disableIrq s n).masked = Function.update s.masked n true := by
  refine masked_of_branches h ?_ ?_
  · intro hn
    exact masked_of_slave hn rfl (testBit_disable s.slaveMask (Nat.sub_lt_right_of_lt_add hn h))
  · intro hn
    exact masked_of_master hn rfl (testBit_disable s.masterMask hn)

/-- **One call** stores to the line it names. -/
theorem masked_maskCall (s : Pics) {call : MaskCall} (h : call.irqNum < 16) :
    (maskCall s call).masked = Function.update s.masked call.store.1 call.store.2 := by
  cases call with
  | enable irqNum => exact masked_enableIrq s h
  | disable irqNum => exact masked_disableIrq s h

theorem Pics.Written.maskCall (h : s.Written) (call : MaskCall) : (maskCall s call).Written := by
  cases call with
  | enable irqNum => exact h.enableIrq irqNum
  | disable irqNum => exact h.disableIrq irqNum

/-! ## i8259_init -/

theorem i8259Init_written (s : Pics) : (i8259Init s).Written :=
  Pics.Written.enableIrq ⟨rfl, rfl⟩ cascadeIrq

theorem masked_start (masterData slaveData : UInt8) (h : n < 16) :
    (Pics.start masterData slaveData).masked n = true := by
  have hbits : ∀ i < 8, (0xFF : UInt8).toNat.testBit i = true := by decide
  unfold Pics.masked Pics.start
  split_ifs with hn
  · exact hbits n hn
  · exact hbits (n - 8) (by omega)

/-- Only the line of the second controller is enabled. -/
theorem masked_i8259Init (masterData slaveData : UInt8) (h : n < 16) :
    (i8259Init (Pics.start masterData slaveData)).masked n = decide (n ≠ cascadeIrq) := by
  have hinit : (i8259Init (Pics.start masterData slaveData)).masked =
      Function.update (Pics.start masterData slaveData).masked cascadeIrq false :=
    masked_enableIrq _ (by decide)
  rw [hinit]
  by_cases hn : n = cascadeIrq
  · rw [hn, Function.update_self]
    rfl
  · rw [Function.update_of_ne hn, masked_start masterData slaveData h, decide_eq_true hn]

/-! ## Every history -/

theorem written_foldl (h : s.Written) (calls : List MaskCall) : (calls.foldl maskCall s).Written := by
  induction calls generalizing s with
  | nil => exact h
  | cons call calls ih => exact ih (h.maskCall call)

/-- The calls are stores to the table. -/
theorem masked_foldl (s : Pics) (h : ∀ call ∈ calls, call.irqNum < 16) :
    (calls.foldl maskCall s).masked = apply s.masked (calls.map MaskCall.store) := by
  induction calls generalizing s with
  | nil => rfl
  | cons call calls ih =>
    rw [List.forall_mem_cons] at h
    rw [List.foldl_cons, ih _ h.2, masked_maskCall s h.1]
    rfl

theorem filter_store (n : Nat) (calls : List MaskCall) :
    ((calls.map MaskCall.store).filter fun store => store.1 = n) =
      (calls.filter fun call => call.irqNum = n).map MaskCall.store := by
  rw [List.filter_map]
  congr 1
  refine List.filter_congr ?_
  intro call _
  cases call <;> rfl

/-- A line has what the last call that names it has stored. -/
theorem masked_afterMaskCalls (masterData slaveData : UInt8)
    (h : ∀ call ∈ calls, call.irqNum < 16) (hn : n < 16) :
    (afterMaskCalls masterData slaveData calls).masked n =
      (((calls.filter fun call => call.irqNum = n).getLast?).map fun call => call.store.2).getD
        (decide (n ≠ cascadeIrq)) := by
  unfold afterMaskCalls
  rw [masked_foldl _ h, apply_eq_last, filter_store, List.getLast?_map, Option.map_map,
    masked_i8259Init masterData slaveData hn]
  rfl

theorem MaskCall.store_eq_false_iff (call : MaskCall) :
    call.store.2 = false ↔ call = .enable call.irqNum := by
  cases call with
  | enable irqNum => exact ⟨fun _ => rfl, fun _ => rfl⟩
  | disable irqNum =>
    constructor
    · intro h
      cases h
    · intro h
      cases h

/-- Which lines are enabled. -/
theorem masked_eq_false_iff (masterData slaveData : UInt8)
    (h : ∀ call ∈ calls, call.irqNum < 16) (hn : n < 16) :
    (afterMaskCalls masterData slaveData calls).masked n = false ↔
      LastEnables n calls ∨ n = cascadeIrq ∧ ∀ call ∈ calls, call.irqNum ≠ n := by
  rw [masked_afterMaskCalls masterData slaveData h hn]
  unfold LastEnables
  cases hlast : (calls.filter fun call => call.irqNum = n).getLast? with
  | none =>
    have hunnamed : ∀ call ∈ calls, call.irqNum ≠ n := by
      rw [List.getLast?_eq_none_iff, List.filter_eq_nil_iff] at hlast
      intro call hcall hsame
      exact hlast call hcall (decide_eq_true hsame)
    rw [Option.map_none, Option.getD_none, decide_eq_false_iff_not, not_not]
    constructor
    · intro hcascade
      exact Or.inr ⟨hcascade, hunnamed⟩
    · rintro (hnone | ⟨hcascade, -⟩)
      · cases hnone
      · exact hcascade
  | some call =>
    obtain ⟨hcall, hnames⟩ := List.mem_filter.mp (List.mem_of_getLast? hlast)
    have hline : call.irqNum = n := of_decide_eq_true hnames
    rw [Option.map_some, Option.getD_some, call.store_eq_false_iff, hline, Option.some.injEq]
    constructor
    · intro henable
      exact Or.inl henable
    · rintro (henable | ⟨-, hunnamed⟩)
      · exact henable
      · exact absurd hline (hunnamed call hcall)

/-- **The masks follow the last call.** After `i8259_init` and every sequence of calls with lines
below 16, the data ports have the copies; a line is enabled exactly when the last call that names
it is `enable_irq`, or no call names it and it is the line of the second controller; and the calls
that name other lines make no difference to it. -/
theorem masks_follow_last_call (masterData slaveData : UInt8)
    (h : ∀ call ∈ calls, call.irqNum < 16) :
    (afterMaskCalls masterData slaveData calls).Written ∧
      ∀ n < 16,
        ((afterMaskCalls masterData slaveData calls).masked n = false ↔
          LastEnables n calls ∨ n = cascadeIrq ∧ ∀ call ∈ calls, call.irqNum ≠ n) ∧
        ∀ calls' : List MaskCall, (∀ call ∈ calls', call.irqNum < 16) →
          (calls'.filter fun call => call.irqNum = n) =
            (calls.filter fun call => call.irqNum = n) →
          (afterMaskCalls masterData slaveData calls').masked n =
            (afterMaskCalls masterData slaveData calls).masked n := by
  refine ⟨written_foldl (i8259Init_written _) calls, ?_⟩
  intro n hn
  refine ⟨masked_eq_false_iff masterData slaveData h hn, ?_⟩
  intro calls' h' hsame
  rw [masked_afterMaskCalls masterData slaveData h hn,
    masked_afterMaskCalls masterData slaveData h' hn, hsame]

end Calls

/-- The clock and the keyboard are enabled, and the clock is disabled again. -/
theorem masks_follow_last_call_clock :
    (afterMaskCalls 0 0 [.enable 8, .enable 1, .disable 8]).masked 8 = true ∧
      (afterMaskCalls 0 0 [.enable 8, .enable 1, .disable 8]).masked 1 = false := by
  have hlines : ∀ call ∈ [MaskCall.enable 8, .enable 1, .disable 8], call.irqNum < 16 := by decide
  obtain ⟨-, hmasks⟩ := masks_follow_last_call 0 0 hlines
  refine ⟨?_, (hmasks 1 (by decide)).1.mpr (Or.inl rfl)⟩
  rw [← Bool.not_eq_false, (hmasks 8 (by decide)).1]
  rintro (hlast | ⟨hcascade, -⟩)
  · cases hlast
  · cases hcascade

end LinuxBasedOS.Devices
