import LinuxBasedOS.Devices.I8259
import Mathlib.Data.List.Induction
import Mathlib.Order.Bounds.Basic

/-!
# The rate of the clock

`rtc_write` takes a frequency, rounds it up to a power of two by a chain of comparisons and puts
the code of that rate into the low half of register A; the other half is read and written back.
The registers are behind two ports, one for the number of the register and one for its byte, and
the line of the clock is masked meanwhile.

`rtc_rate_history` is about every sequence of calls: which are accepted, and what register A holds
after them.
-/

namespace LinuxBasedOS.Devices

open Word

/-! ## The ports -/

/-- The register that is selected, the registers, and the interrupt controllers. -/
structure Clock where
  selected : UInt8
  registers : UInt8 → UInt8
  pics : Pics

/-- `outb(data, RTC_REG_PORT)`; the top bit of the data masks the non-maskable interrupt. -/
def selectRegister (s : Clock) (data : UInt8) : Clock := { s with selected := data &&& 0x7F }

/-- `outb(data, RTC_CMOS_PORT)`. -/
def writeRegister (s : Clock) (data : UInt8) : Clock :=
  { s with registers := Function.update s.registers s.selected data }

/-- `inb(RTC_CMOS_PORT)`. -/
def readRegister (s : Clock) : UInt8 := s.registers s.selected

def disableNmi : UInt8 := 0x80

def rtcRegA : UInt8 := 0x0A

def rtcIrq : Nat := 8

def highRateMask : UInt8 := 0xF0

def lowRateMask : UInt8 := 0x0F

/-! ## rtc_write and rtc_open -/

/-- The chain of comparisons; `unset` is what `set_frequency` holds when no branch sets it. -/
def setFrequency (frequency : Int) (unset : UInt8) : UInt8 :=
  if frequency = 0 then 0x00
  else if 0 < frequency ∧ frequency ≤ 2 then 0x0F
  else if 2 < frequency ∧ frequency ≤ 4 then 0x0E
  else if 4 < frequency ∧ frequency ≤ 8 then 0x0D
  else if 8 < frequency ∧ frequency ≤ 16 then 0x0C
  else if 16 < frequency ∧ frequency ≤ 32 then 0x0B
  else if 32 < frequency ∧ frequency ≤ 64 then 0x0A
  else if 64 < frequency ∧ frequency ≤ 128 then 0x09
  else if 128 < frequency ∧ frequency ≤ 256 then 0x08
  else if 256 < frequency ∧ frequency ≤ 512 then 0x07
  else if 512 < frequency ∧ frequency ≤ 1024 then 0x06
  else unset

/-- The accesses to the ports. -/
def setRate (s : Clock) (rate : UInt8) : Clock :=
  let masked := { s with pics := disableIrq s.pics rtcIrq }
  let selectedOnce := selectRegister masked (rtcRegA ||| disableNmi)
  let currentA := readRegister selectedOnce
  let selectedAgain := selectRegister selectedOnce (rtcRegA ||| disableNmi)
  let written := writeRegister selectedAgain ((currentA &&& highRateMask) ||| rate)
  { written with pics := enableIrq written.pics rtcIrq }

/-- `rtc_write`; `word` is the 32-bit word that `buf` points to. -/
def rtcWrite (s : Clock) (word : Nat) (nbytes : Int) (unset : UInt8) : Int × Clock :=
  let frequency := i32 word
  if 4 ≠ nbytes then (-1, s)
  else if 0 = frequency then (-1, s)
  else if frequency < 0 then (-1, s)
  else if 1024 < frequency then (-1, s)
  else (0, setRate s (setFrequency frequency unset &&& lowRateMask))

def defaultFrequency : Nat := 2

def rtcOpen (s : Clock) (unset : UInt8) : Int × Clock :=
  (0, (rtcWrite s defaultFrequency 4 unset).2)

inductive RateCall where
  | openRtc (unset : UInt8)
  | write (word : Nat) (nbytes : Int) (unset : UInt8)

def rateCall (s : Clock) : RateCall → Int × Clock
  | .openRtc unset => rtcOpen s unset
  | .write word nbytes unset => rtcWrite s word nbytes unset

/-- The clock after the calls. -/
def afterCalls (s : Clock) (calls : List RateCall) : Clock :=
  calls.foldl (fun s call => (rateCall s call).2) s

/-! ## Which calls are accepted -/

/-- The frequencies that `rtc_write` takes, with the count of bytes they need. -/
def Accepts (word : Nat) (nbytes : Int) : Prop := nbytes = 4 ∧ 1 ≤ i32 word ∧ i32 word ≤ 1024

instance (word : Nat) (nbytes : Int) : Decidable (Accepts word nbytes) :=
  inferInstanceAs (Decidable (_ ∧ _ ∧ _))

/-- The frequency of a call that is accepted. -/
def acceptedFrequency : RateCall → Option Int
  | .openRtc _ => some defaultFrequency
  | .write word nbytes _ => if Accepts word nbytes then some (i32 word) else none

section Calls

variable {s : Clock} {word : Nat} {nbytes : Int} {unset : UInt8}

theorem rtcWrite_of_accepts (h : Accepts word nbytes) :
    rtcWrite s word nbytes unset = (0, setRate s (setFrequency (i32 word) unset &&& lowRateMask)) := by
  obtain ⟨hbytes, hpos, hle⟩ := h
  unfold rtcWrite
  dsimp only
  rw [if_neg (by omega), if_neg (by omega), if_neg (by omega), if_neg (by omega)]

theorem rtcWrite_of_not_accepts (h : ¬ Accepts word nbytes) :
    rtcWrite s word nbytes unset = (-1, s) := by
  unfold rtcWrite
  dsimp only
  split_ifs with hbytes hzero hneg hlarge
  · rfl
  · rfl
  · rfl
  · rfl
  · exact absurd ⟨by omega, by omega, by omega⟩ h

theorem rtcWrite_fst : (rtcWrite s word nbytes unset).1 = 0 ↔ Accepts word nbytes := by
  by_cases h : Accepts word nbytes
  · rw [rtcWrite_of_accepts h]
    exact iff_of_true rfl h
  · rw [rtcWrite_of_not_accepts h]
    exact iff_of_false (by decide : (-1 : Int) ≠ 0) h

/-- A call without an accepted frequency changes nothing; the others set the rate. -/
theorem rateCall_snd (s : Clock) (call : RateCall) :
    ∃ unset, (rateCall s call).2 = match acceptedFrequency call with
      | none => s
      | some frequency => setRate s (setFrequency frequency unset &&& lowRateMask) := by
  cases call with
  | openRtc unset =>
    refine ⟨unset, ?_⟩
    have haccepts : Accepts defaultFrequency 4 := by decide
    rw [rateCall, rtcOpen, rtcWrite_of_accepts haccepts]
    rfl
  | write word nbytes unset =>
    refine ⟨unset, ?_⟩
    rw [rateCall, acceptedFrequency]
    by_cases h : Accepts word nbytes
    · rw [rtcWrite_of_accepts h, if_pos h]
    · rw [rtcWrite_of_not_accepts h, if_neg h]

theorem acceptedFrequency_range {call : RateCall} {frequency : Int}
    (h : acceptedFrequency call = some frequency) : 1 ≤ frequency ∧ frequency ≤ 1024 := by
  cases call with
  | openRtc unset =>
    cases h
    decide
  | write word nbytes unset =>
    rw [acceptedFrequency] at h
    split_ifs at h with haccepts
    cases h
    exact haccepts.2

end Calls

/-! ## Register A -/

def registerA (s : Clock) : UInt8 := s.registers rtcRegA

/-- The low half of register A is the code of the smallest power of two that is at least 2 and at
least the frequency, and the high half is that of `high`. -/
structure HasRate (s : Clock) (high : UInt8) (frequency : Int) : Prop where
  rate : IsLeast {p : Nat | (∃ k, p = 2 ^ k) ∧ 2 ≤ p ∧ frequency ≤ p}
    (32768 >>> ((registerA s &&& lowRateMask).toNat - 1))
  high : registerA s &&& highRateMask = high &&& highRateMask

theorem registerA_setRate (s : Clock) (rate : UInt8) :
    registerA (setRate s rate) = (registerA s &&& highRateMask) ||| rate := by
  have hselected : (rtcRegA ||| disableNmi) &&& 0x7F = rtcRegA := by decide
  unfold registerA setRate selectRegister readRegister writeRegister
  dsimp only
  rw [hselected, Function.update_self]

/-- The code of the frequency rounded up to `2 ^ k`. -/
def RoundsUp (frequency : Int) (code : UInt8) : Prop :=
  ∃ k : Nat, 1 ≤ k ∧ k ≤ 10 ∧ frequency ≤ 2 ^ k ∧ (k = 1 ∨ 2 ^ (k - 1) < frequency) ∧
    code = UInt8.ofNat (16 - k)

/-- A branch of the chain, at frequencies that the branches before it have left. -/
theorem RoundsUp.branch {frequency low high : Int} {code rest : UInt8} (k : Nat)
    (hrange : 1 ≤ k ∧ k ≤ 10) (hlow : k = 1 ∨ 2 ^ (k - 1) = low) (hhigh : high = 2 ^ k)
    (hcode : code = UInt8.ofNat (16 - k)) (habove : low < frequency)
    (hrest : high < frequency → RoundsUp frequency rest) :
    RoundsUp frequency (if low < frequency ∧ frequency ≤ high then code else rest) := by
  by_cases h : frequency ≤ high
  · rw [if_pos ⟨habove, h⟩]
    refine ⟨k, hrange.1, hrange.2, hhigh ▸ h, ?_, hcode⟩
    rcases hlow with hone | hpow
    · exact Or.inl hone
    · exact Or.inr (hpow ▸ habove)
  · rw [if_neg fun hin => h hin.2]
    exact hrest (not_le.mp h)

theorem setFrequency_roundsUp {frequency : Int} (h0 : 1 ≤ frequency) (h : frequency ≤ 1024)
    (unset : UInt8) : RoundsUp frequency (setFrequency frequency unset) := by
  unfold setFrequency
  rw [if_neg (by omega)]
  refine RoundsUp.branch 1 (by decide) (Or.inl rfl) rfl rfl h0 fun h1 => ?_
  refine RoundsUp.branch 2 (by decide) (Or.inr rfl) rfl rfl h1 fun h2 => ?_
  refine RoundsUp.branch 3 (by decide) (Or.inr rfl) rfl rfl h2 fun h3 => ?_
  refine RoundsUp.branch 4 (by decide) (Or.inr rfl) rfl rfl h3 fun h4 => ?_
  refine RoundsUp.branch 5 (by decide) (Or.inr rfl) rfl rfl h4 fun h5 => ?_
  refine RoundsUp.branch 6 (by decide) (Or.inr rfl) rfl rfl h5 fun h6 => ?_
  refine RoundsUp.branch 7 (by decide) (Or.inr rfl) rfl rfl h6 fun h7 => ?_
  refine RoundsUp.branch 8 (by decide) (Or.inr rfl) rfl rfl h7 fun h8 => ?_
  refine RoundsUp.branch 9 (by decide) (Or.inr rfl) rfl rfl h8 fun h9 => ?_
  refine RoundsUp.branch 10 (by decide) (Or.inr rfl) rfl rfl h9 fun hlarge => ?_
  exact absurd h (not_le.mpr hlarge)

/-- The two halves of the byte that is written. -/
theorem rate_halves (a : UInt8) {k : Nat} (h0 : 1 ≤ k) (h : k ≤ 10) :
    ((a &&& highRateMask) ||| (UInt8.ofNat (16 - k) &&& lowRateMask)) &&& lowRateMask =
        UInt8.ofNat (16 - k) ∧
      ((a &&& highRateMask) ||| (UInt8.ofNat (16 - k) &&& lowRateMask)) &&& highRateMask =
        a &&& highRateMask := by
  have hall : ∀ a : UInt8, ∀ k < 11, 1 ≤ k →
      ((a &&& highRateMask) ||| (UInt8.ofNat (16 - k) &&& lowRateMask)) &&& lowRateMask =
          UInt8.ofNat (16 - k) ∧
        ((a &&& highRateMask) ||| (UInt8.ofNat (16 - k) &&& lowRateMask)) &&& highRateMask =
          a &&& highRateMask :=
    Word.forall_byte (by decide +kernel)
  exact hall a k (by omega) h0

theorem divider_eq {k : Nat} (h0 : 1 ≤ k) (h : k ≤ 10) :
    32768 >>> ((UInt8.ofNat (16 - k)).toNat - 1) = 2 ^ k := by
  have hall : ∀ k < 11, 1 ≤ k → 32768 >>> ((UInt8.ofNat (16 - k)).toNat - 1) = 2 ^ k := by
    decide
  exact hall k (by omega) h0

theorem isLeast_power {frequency : Int} {k : Nat} (h0 : 1 ≤ k) (hle : frequency ≤ 2 ^ k)
    (hmin : k = 1 ∨ 2 ^ (k - 1) < frequency) :
    IsLeast {p : Nat | (∃ k, p = 2 ^ k) ∧ 2 ≤ p ∧ frequency ≤ p} (2 ^ k) := by
  refine ⟨⟨⟨k, rfl⟩, ?_, ?_⟩, ?_⟩
  · exact (Nat.pow_le_pow_right (by decide) h0 : 2 ^ 1 ≤ 2 ^ k)
  · rw [Nat.cast_pow]
    exact hle
  · rintro p ⟨⟨m, rfl⟩, htwo, hfrequency⟩
    refine Nat.pow_le_pow_right (by decide) ?_
    by_contra hlt
    rcases hmin with rfl | hmin
    · obtain rfl : m = 0 := by omega
      exact absurd htwo (by decide)
    · have hpow : 2 ^ m ≤ 2 ^ (k - 1) := Nat.pow_le_pow_right (by decide) (by omega)
      have hcast : ((2 ^ m : Nat) : Int) ≤ 2 ^ (k - 1) := by exact_mod_cast hpow
      omega

theorem hasRate_setRate (s : Clock) {frequency : Int} (h0 : 1 ≤ frequency)
    (h : frequency ≤ 1024) (unset : UInt8) :
    HasRate (setRate s (setFrequency frequency unset &&& lowRateMask)) (registerA s) frequency := by
  obtain ⟨k, hk0, hk, hle, hmin, hcode⟩ := setFrequency_roundsUp h0 h unset
  obtain ⟨hlow, hhigh⟩ := rate_halves (registerA s) hk0 hk
  refine ⟨?_, ?_⟩
  · rw [registerA_setRate, hcode, hlow, divider_eq hk0 hk]
    exact isLeast_power hk0 hle hmin
  · rw [registerA_setRate, hcode]
    exact hhigh

/-! ## Every history -/

/-- What the calls leave: the clock as it was when none is accepted, else the rate of the last
that is. -/
def LeavesRate (s s' : Clock) (calls : List RateCall) : Prop :=
  match (calls.filterMap acceptedFrequency).getLast? with
  | none => s' = s
  | some frequency => HasRate s' (registerA s) frequency

/-- One call more: it sets the rate, or leaves it. -/
theorem leavesRate_concat {s s' : Clock} {calls : List RateCall} (h : LeavesRate s s' calls)
    (hhigh : registerA s' &&& highRateMask = registerA s &&& highRateMask) (call : RateCall) :
    LeavesRate s (rateCall s' call).2 (calls ++ [call]) := by
  obtain ⟨unset, hcall⟩ := rateCall_snd s' call
  unfold LeavesRate at *
  rw [List.filterMap_append]
  cases haccepted : acceptedFrequency call with
  | none =>
    rw [haccepted] at hcall
    rw [hcall, List.filterMap_cons_none haccepted, List.filterMap_nil, List.append_nil]
    exact h
  | some frequency =>
    rw [haccepted] at hcall
    rw [hcall, List.filterMap_cons_some haccepted, List.filterMap_nil, List.getLast?_concat]
    obtain ⟨h0, hle⟩ := acceptedFrequency_range haccepted
    have hrate := hasRate_setRate s' h0 hle unset
    exact ⟨hrate.rate, hrate.high.trans hhigh⟩

theorem afterCalls_concat (s : Clock) (calls : List RateCall) (call : RateCall) :
    afterCalls s (calls ++ [call]) = (rateCall (afterCalls s calls) call).2 := by
  unfold afterCalls
  rw [List.foldl_append, List.foldl_cons, List.foldl_nil]

theorem afterCalls_leaves (s : Clock) (calls : List RateCall) :
    LeavesRate s (afterCalls s calls) calls ∧
      registerA (afterCalls s calls) &&& highRateMask = registerA s &&& highRateMask := by
  induction calls using List.reverseRecOn with
  | nil => exact ⟨rfl, rfl⟩
  | append_singleton calls call ih =>
    obtain ⟨hleaves, hhigh⟩ := ih
    have hstep := leavesRate_concat hleaves hhigh call
    rw [afterCalls_concat]
    refine ⟨hstep, ?_⟩
    unfold LeavesRate at hstep
    cases hlast : ((calls ++ [call]).filterMap acceptedFrequency).getLast? with
    | none =>
      rw [hlast] at hstep
      rw [hstep]
    | some frequency =>
      rw [hlast] at hstep
      exact hstep.high

/-- After every call the interrupt controllers have the masks that the kernel has a copy of. -/
theorem afterCalls_written {s : Clock} (h : s.pics.Written) (calls : List RateCall) :
    (afterCalls s calls).pics.Written := by
  induction calls using List.reverseRecOn with
  | nil => exact h
  | append_singleton calls call ih =>
    rw [afterCalls_concat]
    obtain ⟨unset, hcall⟩ := rateCall_snd (afterCalls s calls) call
    cases haccepted : acceptedFrequency call with
    | none =>
      rw [haccepted] at hcall
      rw [hcall]
      exact ih
    | some frequency =>
      rw [haccepted] at hcall
      rw [hcall]
      exact (ih.disableIrq rtcIrq).enableIrq rtcIrq

/-- **The rate of the clock.** For every state of the clock and every sequence of calls: a call of
`rtc_write` after them returns 0 exactly when its count is 4 and its frequency is from 1 to 1024,
and otherwise returns -1 and changes nothing; and the calls leave in register A the code of the
last frequency that was accepted, rounded up to a power of two, beside the high half it had. -/
theorem rtc_rate_history (s : Clock) (calls : List RateCall) :
    (∀ word nbytes unset,
      ((rtcWrite (afterCalls s calls) word nbytes unset).1 = 0 ↔
        nbytes = 4 ∧ 1 ≤ i32 word ∧ i32 word ≤ 1024) ∧
      (¬ (nbytes = 4 ∧ 1 ≤ i32 word ∧ i32 word ≤ 1024) →
        rtcWrite (afterCalls s calls) word nbytes unset = (-1, afterCalls s calls))) ∧
    LeavesRate s (afterCalls s calls) calls ∧
    registerA (afterCalls s calls) &&& highRateMask = registerA s &&& highRateMask := by
  refine ⟨?_, afterCalls_leaves s calls⟩
  intro word nbytes unset
  exact ⟨rtcWrite_fst, rtcWrite_of_not_accepts⟩

end LinuxBasedOS.Devices
