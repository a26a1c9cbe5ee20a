import LinuxBasedOS.Base.Blocks
import LinuxBasedOS.Base.Stores

/-!
# Two-level page tables

The translation of addresses by a 32-bit x86 processor with 4 MB pages: the top ten bits of an
address choose an entry of the page directory, which is a page of 4 MB or names a table of pages of
4 KB. An access of a program needs the user bit of every entry on its way, and a store of a program
the write bit; the kernel needs neither.

`store` is memory behind such a translation. Where the translation leads to a page through one
window, the page behaves as a memory of its own; where it leads nowhere into the page, no store
changes the page.
-/

namespace Paging

open Blocks

/-- An access: of a program or of the kernel, to read or to write. -/
structure Access where
  user : Bool
  write : Bool
  deriving DecidableEq, Repr

/-- The present, user and write bits of an entry let the access through. -/
def permits (a : Access) (entry : Nat) : Bool :=
  entry.testBit 0 && (!a.user || (entry.testBit 2 && (!a.write || entry.testBit 1)))

/-- The directory, and the tables by their address. -/
structure Maps where
  directory : Nat → Nat
  table : Nat → Nat → Nat

def translate (m : Maps) (a : Access) (vaddr : Nat) : Option Nat :=
  let pde := m.directory (vaddr / 2 ^ 22)
  if permits a pde then
    if pde.testBit 7 then some (pde / 2 ^ 22 * 2 ^ 22 + vaddr % 2 ^ 22)
    else
      let pte := m.table (pde / 2 ^ 12 * 2 ^ 12) (vaddr / 2 ^ 12 % 1024)
      if permits a pte then some (pte / 2 ^ 12 * 2 ^ 12 + vaddr % 2 ^ 12) else none
  else none

/-! ## Entries -/

section Entry

variable {k i flags : Nat}

/-- The flags of an entry are the bits below its address. -/
theorem testBit_entry (h : flags < 2 ^ k) {b : Nat} (hb : b < k) :
    (2 ^ k * i ||| flags).testBit b = flags.testBit b := by
  rw [lor_flags h, Nat.testBit_two_pow_mul_add i h, if_pos hb]

theorem permits_entry (h : flags < 2 ^ k) (hk : 3 ≤ k) (a : Access) :
    permits a (2 ^ k * i ||| flags) = permits a flags := by
  unfold permits
  rw [testBit_entry h (by omega), testBit_entry h (by omega), testBit_entry h (by omega)]

theorem entry_div (h : flags < 2 ^ k) : (2 ^ k * i ||| flags) / 2 ^ k = i := by
  rw [lor_flags h, Nat.mul_add_div (Nat.two_pow_pos k), Nat.div_eq_of_lt h, Nat.add_zero]

end Entry

/-! ## Translation, entry by entry -/

section Translate

variable {m : Maps} {a : Access} {vaddr i flags : Nat}

/-- An entry that does not let the access through. -/
theorem translate_of_not_permits (h : permits a (m.directory (vaddr / 2 ^ 22)) = false) :
    translate m a vaddr = none := by
  simp only [translate, h, Bool.false_eq_true, if_false]

/-- A page of 4 MB. -/
theorem translate_large (hflags : flags < 2 ^ 22)
    (hentry : m.directory (vaddr / 2 ^ 22) = 2 ^ 22 * i ||| flags)
    (hpermits : permits a flags = true) (hlarge : flags.testBit 7 = true) :
    translate m a vaddr = some (2 ^ 22 * i + vaddr % 2 ^ 22) := by
  have hbit := testBit_entry (i := i) hflags (by decide : 7 < 22)
  simp only [translate, hentry, permits_entry hflags (by decide), hpermits, if_true, hbit, hlarge,
    entry_div hflags]
  rw [Nat.mul_comm i]

/-- Every address of a page of 4 MB has a frame. -/
theorem translate_isSome_of_large (hpermits : permits a (m.directory (vaddr / 2 ^ 22)) = true)
    (hlarge : (m.directory (vaddr / 2 ^ 22)).testBit 7 = true) : (translate m a vaddr).isSome := by
  simp only [translate, hpermits, hlarge, if_true, Option.isSome_some]

/-- A table of pages of 4 KB. -/
theorem translate_table (hflags : flags < 2 ^ 12)
    (hentry : m.directory (vaddr / 2 ^ 22) = 2 ^ 12 * i ||| flags)
    (hpermits : permits a flags = true) (hlarge : flags.testBit 7 = false) :
    translate m a vaddr =
      if permits a (m.table (2 ^ 12 * i) (vaddr / 2 ^ 12 % 1024)) then
        some (m.table (2 ^ 12 * i) (vaddr / 2 ^ 12 % 1024) / 2 ^ 12 * 2 ^ 12 + vaddr % 2 ^ 12)
      else none := by
  have hbit := testBit_entry (i := i) hflags (by decide : 7 < 12)
  simp only [translate, hentry, permits_entry hflags (by decide), hpermits, if_true, hbit, hlarge,
    Bool.false_eq_true, if_false, entry_div hflags]
  rw [Nat.mul_comm i]

end Translate

/-! ## Memory behind a translation -/

section Store

variable {γ : Type} {t : Nat → Option Nat} {memory : Nat → γ}

/-- A store to a virtual address; `t` is the translation of stores. -/
def store (t : Nat → Option Nat) (memory : Nat → γ) (vaddr : Nat) (value : γ) : Nat → γ :=
  match t vaddr with
  | none => memory
  | some frame => Function.update memory frame value

/-- The stores of a run of values from a virtual address on. -/
def storeAll (t : Nat → Option Nat) (memory : Nat → γ) (vaddr : Nat) : List γ → Nat → γ
  | [] => memory
  | value :: values => storeAll t (store t memory vaddr value) (vaddr + 1) values

/-- One store of several values: when one of their addresses is not mapped it faults, and nothing is
stored. -/
def storeWhole (t : Nat → Option Nat) (memory : Nat → γ) (vaddr : Nat) (values : List γ) :
    Option (Nat → γ) :=
  if ∀ i < values.length, (t (vaddr + i)).isSome then some (storeAll t memory vaddr values) else none

theorem storeWhole_of_mapped {vaddr : Nat} {values : List γ}
    (h : ∀ i < values.length, (t (vaddr + i)).isSome) :
    storeWhole t memory vaddr values = some (storeAll t memory vaddr values) := if_pos h

theorem storeWhole_of_unmapped {vaddr i : Nat} {values : List γ} (hi : i < values.length)
    (h : t (vaddr + i) = none) : storeWhole t memory vaddr values = none := by
  refine if_neg fun hall => ?_
  have hmapped := hall i hi
  rw [h] at hmapped
  cases hmapped

theorem store_apply (vaddr : Nat) (value : γ) (f : Nat) :
    store t memory vaddr value f = if t vaddr = some f then value else memory f := by
  unfold store
  cases hframe : t vaddr with
  | none => rw [if_neg (by simp)]
  | some frame =>
    refine (Function.update_apply memory frame value f).trans (if_congr ?_ rfl rfl)
    rw [Option.some.injEq]
    exact eq_comm

/-- A frame that no value is stored in keeps what it held. -/
theorem storeAll_outside {vaddr frame : Nat} {values : List γ}
    (h : ∀ i < values.length, t (vaddr + i) ≠ some frame) :
    storeAll t memory vaddr values frame = memory frame := by
  induction values generalizing memory vaddr with
  | nil => rfl
  | cons value values ih =>
    have hrest : ∀ i < values.length, t (vaddr + 1 + i) ≠ some frame := by
      intro i hi
      rw [Nat.add_right_comm]
      exact h (i + 1) (Nat.succ_lt_succ hi)
    rw [storeAll, ih hrest, store_apply, if_neg]
    exact h 0 (Nat.succ_pos _)

/-- The page of `size` frames from `base` on. -/
def page (memory : Nat → γ) (base : Nat) : Nat → γ := fun i => memory (base + i)

/-- The translation leads to the page of `size` frames from `base` on from the addresses from
`start` on, in order, and from no other address. -/
structure Window (t : Nat → Option Nat) (start base size : Nat) : Prop where
  eq_iff : ∀ a, ∀ i < size, t a = some (base + i) ↔ a = start + i

/-- The translation leads to no frame of the page. -/
def Hidden (t : Nat → Option Nat) (base size : Nat) : Prop := ∀ a, ∀ i < size, t a ≠ some (base + i)

/-- Through its window a page is a memory of its own, which begins at `start`. -/
theorem Window.store {start base size : Nat} (h : Window t start base size) (vaddr : Nat)
    (value : γ) {i : Nat} (hi : i < size) :
    page (Paging.store t memory vaddr value) base i =
      if vaddr = start + i then value else page memory base i := by
  unfold page
  rw [store_apply]
  exact if_congr (h.eq_iff vaddr i hi) rfl rfl

theorem Window.store_in {start base size : Nat} (h : Window t start base size) (offset : Nat)
    (value : γ) {i : Nat} (hi : i < size) :
    page (Paging.store t memory (start + offset) value) base i =
      Function.update (page memory base) offset value i := by
  rw [h.store _ _ hi, Function.update_apply]
  refine if_congr ?_ rfl rfl
  omega

theorem Window.store_out {start base size : Nat} (h : Window t start base size) {vaddr : Nat}
    (hout : ¬ (start ≤ vaddr ∧ vaddr < start + size)) (value : γ) {i : Nat} (hi : i < size) :
    page (Paging.store t memory vaddr value) base i = page memory base i := by
  rw [h.store _ _ hi, if_neg (by omega)]

theorem Hidden.store {base size : Nat} (h : Hidden t base size) (vaddr : Nat) (value : γ) {i : Nat}
    (hi : i < size) : page (Paging.store t memory vaddr value) base i = page memory base i := by
  unfold page
  rw [store_apply, if_neg (h vaddr i hi)]

theorem Hidden.storeAll {base size : Nat} (h : Hidden t base size) (vaddr : Nat) (values : List γ)
    {i : Nat} (hi : i < size) :
    page (Paging.storeAll t memory vaddr values) base i = page memory base i := by
  induction values generalizing memory vaddr with
  | nil => rfl
  | cons value values ih => exact (ih (vaddr + 1)).trans (h.store vaddr value hi)

/-- A run of values that begins in the window is placed in the page, up to its end. -/
theorem Window.storeAll {start base size : Nat} (h : Window t start base size) (offset : Nat)
    (values : List γ) {i : Nat} (hi : i < size) :
    page (Paging.storeAll t memory (start + offset) values) base i =
      Stores.place (page memory base) offset values i := by
  induction values generalizing memory offset with
  | nil => rw [Stores.place_nil]; rfl
  | cons value values ih =>
    rw [Paging.storeAll, Nat.add_assoc, ih, Stores.place_cons]
    unfold Stores.place
    rw [h.store_in offset value hi]

end Store

end Paging
