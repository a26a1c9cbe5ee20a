import LinuxBasedOS.Base.Word
import Mathlib.Data.Nat.SuccPred
import Mathlib.Order.CompletePartialOrder
import Mathlib.Order.SuccPred.IntervalSucc

/-!
# Blocks of an address space

An address space is cut into blocks of one size, numbered from address 0 on. Two blocks are
disjoint, a large block is made of the small ones whose numbers divide to its own, and clearing the
low bits of an address gives the block that the address is in.
-/

namespace Blocks

/-- Block `i`. -/
def block (size i : Nat) : Set Nat := Set.Ico (size * i) (size * (i + 1))

theorem mem_block {size i x : Nat} (hs : 0 < size) : x ∈ block size i ↔ x / size = i := by
  unfold block
  rw [Set.mem_Ico, Nat.div_eq_iff hs]
  constructor
  · rintro ⟨hle, hlt⟩
    rw [Nat.mul_succ] at hlt
    rw [Nat.mul_comm]
    omega
  · rintro ⟨hle, hlt⟩
    rw [Nat.mul_comm] at hle hlt
    rw [Nat.mul_succ]
    omega

theorem disjoint_block (size : Nat) {i j : Nat} (h : i ≠ j) :
    Disjoint (block size i) (block size j) := by
  have hmono : Monotone fun i => size * i := fun _ _ hij => Nat.mul_le_mul_left size hij
  exact hmono.pairwise_disjoint_on_Ico_succ h

/-- `k` blocks make a larger one. -/
theorem block_subset_block (size : Nat) {k i : Nat} (hk : 0 < k) :
    block size i ⊆ block (size * k) (i / k) := by
  refine Set.Ico_subset_Ico ?_ ?_
  · rw [Nat.mul_assoc]
    exact Nat.mul_le_mul_left size (Nat.mul_div_le i k)
  · rw [Nat.mul_assoc]
    exact Nat.mul_le_mul_left size (Nat.lt_mul_div_succ i hk)

/-- The mask with `n - k` high bits set leaves the number of the block. -/
theorem land_mask_eq_iff {n k x i : Nat} (hk : k ≤ n) (hx : x < 2 ^ n) :
    x &&& (2 ^ n - 2 ^ k) = 2 ^ k * i ↔ x ∈ block (2 ^ k) i := by
  have hpos : 0 < 2 ^ k := Nat.two_pow_pos k
  rw [Word.land_high_mask hk hx, mem_block hpos, Nat.mul_comm]
  exact Nat.mul_right_inj hpos.ne'

/-- An aligned address and flags below the alignment keep apart. -/
theorem lor_flags {k i flags : Nat} (h : flags < 2 ^ k) :
    2 ^ k * i ||| flags = 2 ^ k * i + flags := (Nat.two_pow_add_eq_or_of_lt h i).symm

end Blocks
