import Mathlib.Data.Nat.Basic
import Mathlib.Tactic.Ring

/-!
# Packed bit fields

A record whose fields lie side by side in a number, the first one in the lowest bits. `bits` reads
a field back from its place, and gives what was put there, cut to the width of the field.
-/

namespace Bitfields

/-- `len` bits of a number from bit `start` on. -/
def bits (n start len : Nat) : Nat := n / 2 ^ start % 2 ^ len

/-- The fields, each with its width. -/
def pack : List (Nat × Nat) → Nat
  | [] => 0
  | (w, v) :: fields => v % 2 ^ w + 2 ^ w * pack fields

def width : List (Nat × Nat) → Nat
  | [] => 0
  | (w, _) :: fields => w + width fields

theorem pack_div (before fields : List (Nat × Nat)) :
    pack (before ++ fields) / 2 ^ width before = pack fields := by
  induction before with
  | nil => exact Nat.div_one _
  | cons f before ih =>
    obtain ⟨w, v⟩ := f
    have hlow : v % 2 ^ w < 2 ^ w := Nat.mod_lt _ (Nat.two_pow_pos w)
    rw [List.cons_append, pack, width, pow_add, ← Nat.div_div_eq_div_mul,
      Nat.add_mul_div_left _ _ (Nat.two_pow_pos w), Nat.div_eq_of_lt hlow, Nat.zero_add, ih]

/-- A field is read back from its place. -/
theorem bits_pack (before fields : List (Nat × Nat)) (w v : Nat) :
    bits (pack (before ++ (w, v) :: fields)) (width before) w = v % 2 ^ w := by
  rw [bits, pack_div, pack, Nat.add_mul_mod_self_left, Nat.mod_mod]

/-- Neighbouring fields are read as one. -/
theorem bits_add (n start a b : Nat) :
    bits n start (a + b) = bits n start a + 2 ^ a * bits n (start + a) b := by
  unfold bits
  rw [pow_add 2 start a, ← Nat.div_div_eq_div_mul, pow_add 2 a b, Nat.mod_mul]

/-- A number with no bits above is its own lowest field. -/
theorem bits_of_lt {n len : Nat} (h : n < 2 ^ len) : bits n 0 len = n := by
  rw [bits, pow_zero, Nat.div_one, Nat.mod_eq_of_lt h]

theorem bits_lt (n start len : Nat) : bits n start len < 2 ^ len :=
  Nat.mod_lt _ (Nat.two_pow_pos len)

/-- A field by a mask and a shift. -/
theorem mask_shift {mask start len : Nat} (hmask : mask >>> start = 2 ^ len - 1) (n : Nat) :
    (n &&& mask) >>> start = bits n start len := by
  rw [Nat.shiftRight_and_distrib, hmask, Nat.and_two_pow_sub_one_eq_mod, Nat.shiftRight_eq_div_pow]
  rfl

theorem mask_low (n len : Nat) : n &&& (2 ^ len - 1) = bits n 0 len := by
  rw [Nat.and_two_pow_sub_one_eq_mod, bits, pow_zero, Nat.div_one]

end Bitfields
