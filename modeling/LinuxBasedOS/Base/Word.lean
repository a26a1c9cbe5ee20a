import Mathlib.Data.Nat.Bitwise
import Mathlib.Tactic.Ring

/-!
# Fixed-width integers of C

C arithmetic is computed in `Nat` or `Int` and wrapped where the source stores it in a
fixed-width variable. `u16` and `u32` are the unsigned wraps, `i32` is the signed
reading of a 32-bit word. The lemmas say that a wrap of a value in range changes
nothing, and that masking with the complement of a low mask rounds down.
-/

namespace Word

/-! ## Unsigned and signed wraps -/

def u16 (n : Nat) : Nat := n % 65536

def u32 (z : Int) : Nat := (z % 4294967296).toNat

/-- The signed reading of the low 32 bits of `z`. -/
def i32 (z : Int) : Int :=
  if u32 z < 2147483648 then (u32 z : Int) else (u32 z : Int) - 4294967296

/-- The value of a byte read through a signed `char`. -/
def i8 (b : UInt8) : Int := if b.toNat < 128 then (b.toNat : Int) else (b.toNat : Int) - 256

theorem i8_inj {a b : UInt8} : i8 a = i8 b ↔ a = b := by
  constructor
  · intro h
    have ha := a.toNat_lt
    have hb := b.toNat_lt
    apply UInt8.toNat_inj.mp
    unfold i8 at h
    split at h <;> split at h <;> omega
  · rintro rfl
    rfl

/-- A property of all bytes, number by number. -/
theorem forall_byte {P : UInt8 → Prop} (h : ∀ i < 256, P (UInt8.ofNat i)) (c : UInt8) : P c := by
  have hc := h c.toNat c.toNat_lt
  rw [UInt8.ofNat_toNat] at hc
  exact hc

theorem u16_of_lt {n : Nat} (h : n < 65536) : u16 n = n := Nat.mod_eq_of_lt h

theorem u32_lt (z : Int) : u32 z < 4294967296 := by
  unfold u32
  omega

theorem u32_natCast {n : Nat} (h : n < 4294967296) : u32 (n : Int) = n := by
  unfold u32
  omega

theorem u32_add {a b : Nat} (h : a + b < 4294967296) : u32 ((a : Int) + (b : Int)) = a + b := by
  unfold u32
  omega

theorem u32_sub {a b : Nat} (hle : b ≤ a) (h : a < 4294967296) :
    u32 ((a : Int) - (b : Int)) = a - b := by
  unfold u32
  omega

theorem i32_of_range {z : Int} (h0 : -2147483648 ≤ z) (h : z < 2147483648) : i32 z = z := by
  unfold i32 u32
  split <;> omega

/-! ## Bits of a byte -/

theorem testBit_or (a b : UInt8) (i : Nat) :
    (a ||| b).toNat.testBit i = (a.toNat.testBit i || b.toNat.testBit i) := by
  rw [UInt8.toNat_or, Nat.testBit_or]

/-- Clearing the bits of a byte. -/
theorem testBit_and_not (a b : UInt8) (i : Nat) :
    (a &&& ~~~b).toNat.testBit i = (a.toNat.testBit i && !b.toNat.testBit i) := by
  rw [UInt8.toNat_and, Nat.testBit_and]
  by_cases hi : i < 8
  · have hnot : (~~~b).toNat.testBit i = !b.toNat.testBit i := by
      rw [← UInt8.toNat_toBitVec, ← UInt8.toNat_toBitVec, UInt8.toBitVec_not, BitVec.testBit_toNat,
        BitVec.testBit_toNat, BitVec.getLsbD_not, decide_eq_true hi, Bool.true_and]
    rw [hnot]
  · have hlt : a.toNat < 2 ^ i :=
      a.toNat_lt.trans_le (Nat.pow_le_pow_right (by decide) (Nat.not_lt.mp hi))
    rw [Nat.testBit_lt_two_pow hlt, Bool.false_and, Bool.false_and]

/-- The byte with one bit. -/
theorem testBit_shiftLeft_one {k : Nat} (h : k < 8) (i : Nat) :
    (UInt8.ofNat (1 <<< k)).toNat.testBit i = decide (k = i) := by
  have hlt : 2 ^ k < 256 := Nat.pow_lt_pow_right (by decide : 1 < 2) h
  rw [Nat.shiftLeft_eq, Nat.one_mul, UInt8.toNat_ofNat_of_lt' hlt, Nat.testBit_two_pow]

/-! ## Rounding down to a block -/

/-- Clearing the low `k` bits of an `n`-bit number rounds it down to a multiple of
`2 ^ k`. -/
theorem land_high_mask {n k x : Nat} (hk : k ≤ n) (hx : x < 2 ^ n) :
    x &&& (2 ^ n - 2 ^ k) = x / 2 ^ k * 2 ^ k := by
  have hsplit : 2 ^ n - 2 ^ k = (2 ^ (n - k) - 1) * 2 ^ k := by
    rw [Nat.sub_mul, one_mul, ← pow_add, Nat.sub_add_cancel hk]
  apply Nat.eq_of_testBit_eq
  intro i
  rw [hsplit, Nat.testBit_and, Nat.testBit_mul_two_pow, Nat.testBit_mul_two_pow,
    Nat.testBit_two_pow_sub_one]
  by_cases hik : k ≤ i
  · simp only [hik, decide_true, Bool.true_and]
    rw [Nat.testBit_div_two_pow, Nat.sub_add_cancel hik]
    by_cases hin : i - k < n - k
    · simp [hin]
    · have hxi : x.testBit i = false :=
        Nat.testBit_lt_two_pow (hx.trans_le (Nat.pow_le_pow_right (by omega) (by omega)))
      simp [hxi]
  · simp [hik]

/-- Two addresses of one block round down to the same multiple. -/
theorem div_mul_of_block {x base size : Nat} (hs : 0 < size) (hb : base % size = 0)
    (h0 : base ≤ x) (h1 : x < base + size) : x / size * size = base := by
  obtain ⟨q, rfl⟩ := Nat.dvd_of_mod_eq_zero hb
  have hq : x / size = q := by
    rw [Nat.div_eq_iff hs]
    constructor
    · rw [mul_comm]
      exact h0
    · have hc : q * size = size * q := mul_comm _ _
      omega
  rw [hq, mul_comm]

end Word
