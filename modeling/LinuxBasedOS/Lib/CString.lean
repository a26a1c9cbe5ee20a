import LinuxBasedOS.Base.Stores
import LinuxBasedOS.Base.Word
import Mathlib.Data.List.TakeWhile
import Mathlib.Logic.Function.Basic

/-!
# The string functions of `lib.c`

A pointer to characters is the function that gives the byte at each index from it. A C
string is the list of its bytes before the terminator; `cstr` is the memory it occupies, and
`HoldsAt` says that a memory holds it from an address on.
-/

namespace LinuxBasedOS.Lib

open Word Stores

/-- The memory from the first byte of a string: its bytes, then the terminator. -/
def cstr (s : List UInt8) : Nat → UInt8 := fun i => s.getD i 0

def strlen (s : List UInt8) : Nat := (s.takeWhile (· ≠ 0)).length

/-- The loop of `strncmp` from index `i`, with `n` bytes left to compare. -/
def strncmpFrom (s1 s2 : Nat → UInt8) : Nat → Nat → Int
  | 0, _ => 0
  | n + 1, i =>
    if s1 i ≠ s2 i ∨ s1 i = 0 then i8 (s1 i) - i8 (s2 i) else strncmpFrom s1 s2 n (i + 1)

def strncmp (s1 s2 : Nat → UInt8) (n : Nat) : Int := strncmpFrom s1 s2 n 0

/-- The first loop of `strncpy`: copy until the terminator or until `n` bytes. -/
def strncpyCopy (src : Nat → UInt8) : Nat → Nat → (Nat → UInt8) → (Nat → UInt8) × Nat
  | 0, i, dest => (dest, i)
  | n + 1, i, dest =>
    if src i ≠ 0 then strncpyCopy src n (i + 1) (Function.update dest i (src i)) else (dest, i)

/-- The second loop of `strncpy`: fill with terminators. -/
def strncpyFill : Nat → Nat → (Nat → UInt8) → (Nat → UInt8)
  | 0, _, dest => dest
  | n + 1, i, dest => strncpyFill n (i + 1) (Function.update dest i 0)

def strncpy (dest src : Nat → UInt8) (n : Nat) : Nat → UInt8 :=
  let (copied, i) := strncpyCopy src n 0 dest
  strncpyFill (n - i) i copied

/-- `strcpy`: the bytes of the string and its terminator. -/
def strcpy (dest : Nat → UInt8) (src : List UInt8) : Nat → UInt8 :=
  fun i => if i ≤ src.length then cstr src i else dest i

/-- The stores of `strcpy` from index `i` on, in at most `n` turns of its loop. -/
def strcpyStores (src : Nat → UInt8) : Nat → Nat → List (Nat × UInt8)
  | 0, _ => []
  | n + 1, i => if src i ≠ 0 then (i, src i) :: strcpyStores src n (i + 1) else [(i, 0)]

/-- From `addr` on the memory holds the string and its terminator. -/
def HoldsAt (mem : Nat → UInt8) (addr : Nat) (s : List UInt8) : Prop :=
  ∀ j ≤ s.length, mem (addr + j) = cstr s j

instance (mem : Nat → UInt8) (addr : Nat) (s : List UInt8) : Decidable (HoldsAt mem addr s) :=
  inferInstanceAs (Decidable (∀ j ≤ s.length, mem (addr + j) = cstr s j))

/-- The string from index `i` on, as far as it goes in `n` bytes. -/
def stringFrom (mem : Nat → UInt8) : Nat → Nat → List UInt8
  | 0, _ => []
  | n + 1, i => if mem i = 0 then [] else mem i :: stringFrom mem n (i + 1)

theorem strlen_of_not_mem {s : List UInt8} (hs : 0 ∉ s) : strlen s = s.length := by
  rw [strlen, List.takeWhile_eq_self_iff.mpr]
  intro c hc
  have hne : c ≠ 0 := fun h => hs (h ▸ hc)
  simp [hne]

/-! ## Comparison -/

theorem strncmpFrom_eq_zero_iff (s1 s2 : Nat → UInt8) (n i : Nat) :
    strncmpFrom s1 s2 n i = 0 ↔
      ∀ k, i ≤ k → k < i + n → (∀ j, i ≤ j → j < k → s1 j ≠ 0) → s1 k = s2 k := by
  induction n generalizing i with
  | zero =>
    simp only [strncmpFrom, true_iff]
    intro k hk hk'
    omega
  | succ n ih =>
    unfold strncmpFrom
    by_cases hne : s1 i = s2 i
    · by_cases hz : s1 i = 0
      · -- both strings end at `i`: nothing after the terminator is compared
        rw [if_pos (Or.inr hz), hne]
        refine ⟨fun _ k hk _ hj => ?_, fun _ => by omega⟩
        rcases Nat.eq_or_lt_of_le hk with rfl | hlt
        · exact hne
        · exact absurd hz (hj i (Nat.le_refl i) hlt)
      · simp only [hne, ne_eq, not_true_eq_false, false_or, if_neg (hne ▸ hz)]
        rw [ih]
        constructor
        · intro h k hk hk' hj
          rcases Nat.eq_or_lt_of_le hk with rfl | hlt
          · exact hne
          · exact h k hlt (by omega) (fun j hj1 hj2 => hj j (by omega) hj2)
        · intro h k hk hk' hj
          refine h k (by omega) (by omega) (fun j hj1 hj2 => ?_)
          rcases Nat.eq_or_lt_of_le hj1 with rfl | hlt
          · exact hz
          · exact hj j hlt hj2
    · rw [if_pos (Or.inl hne)]
      constructor
      · intro h
        exact absurd (i8_inj.mp (by omega)) hne
      · intro h
        exact absurd (h i (Nat.le_refl i) (by omega) (fun j hj1 hj2 => by omega)) hne

/-- `strncmp` returns zero exactly when the strings agree up to `n` bytes or up to the
terminator of the first. -/
theorem strncmp_eq_zero_iff (s1 s2 : Nat → UInt8) (n : Nat) :
    strncmp s1 s2 n = 0 ↔ ∀ k < n, (∀ j < k, s1 j ≠ 0) → s1 k = s2 k := by
  unfold strncmp
  rw [strncmpFrom_eq_zero_iff]
  constructor
  · intro h k hk hj
    exact h k (Nat.zero_le k) (by omega) (fun j _ hjk => hj j hjk)
  · intro h k _ hk hj
    exact h k (by omega) (fun j hjk => hj j (Nat.zero_le j) hjk)

theorem cstr_of_lt {s : List UInt8} {i : Nat} (h : i < s.length) : cstr s i = s[i] := by
  simp [cstr, h]

theorem cstr_of_le {s : List UInt8} {i : Nat} (h : s.length ≤ i) : cstr s i = 0 := by
  simp [cstr, h]

theorem cstr_ne_zero {s : List UInt8} (hs : 0 ∉ s) {i : Nat} (h : i < s.length) :
    cstr s i ≠ 0 := by
  rw [cstr_of_lt h]
  intro h0
  exact hs (h0 ▸ List.getElem_mem h)

/-- `strncmp` with the empty string answers zero on the empty name only. -/
theorem strncmp_empty {filename : List UInt8} :
    strncmp (cstr filename) (cstr []) (strlen filename) = 0 ↔ strlen filename = 0 := by
  rw [strncmp_eq_zero_iff]
  constructor
  · intro h
    by_contra hne
    have hfirst := h 0 (by omega) (fun j hj => absurd hj (Nat.not_lt_zero j))
    cases filename with
    | nil => exact hne rfl
    | cons c cs =>
      have hc : c = 0 := hfirst
      subst hc
      exact hne rfl
  · intro h k hk
    omega

/-! ## Copying -/

theorem strncpyFill_apply (n i : Nat) (dest : Nat → UInt8) (j : Nat) :
    strncpyFill n i dest j = if i ≤ j ∧ j < i + n then 0 else dest j := by
  induction n generalizing i dest with
  | zero => rw [strncpyFill, if_neg (by omega)]
  | succ n ih =>
    rw [strncpyFill, ih]
    by_cases hj : j = i
    · rw [hj, Function.update_self, if_neg (by omega), if_pos (by omega)]
    · rw [Function.update_of_ne hj]
      refine if_congr ?_ rfl rfl
      omega

/-- The copying loop stops at the terminator when there is one among its `n` bytes. -/
theorem strncpyCopy_of_end {src : Nat → UInt8} {n i len : Nat} (dest : Nat → UInt8)
    (hi : i ≤ len) (hlen : len < i + n) (hne : ∀ j, i ≤ j → j < len → src j ≠ 0)
    (hend : src len = 0) :
    strncpyCopy src n i dest = (fun j => if i ≤ j ∧ j < len then src j else dest j, len) := by
  induction n generalizing i dest with
  | zero => omega
  | succ n ih =>
    unfold strncpyCopy
    rcases Nat.eq_or_lt_of_le hi with rfl | hlt
    · rw [if_neg (not_not.mpr hend)]
      congr 1
      ext j
      rw [if_neg (by omega)]
    · rw [if_pos (hne i (Nat.le_refl i) hlt),
        ih _ hlt (by omega) fun j hj hjlen => hne j (by omega) hjlen]
      congr 1
      ext j
      by_cases hj : j = i
      · rw [hj, Function.update_self, if_neg (by omega), if_pos ⟨Nat.le_refl i, hlt⟩]
      · rw [Function.update_of_ne hj]
        congr 1
        refine if_congr ?_ rfl rfl
        omega

/-- The copying loop takes all its bytes when there is no terminator among them. -/
theorem strncpyCopy_of_full {src : Nat → UInt8} {n i : Nat} (dest : Nat → UInt8)
    (hne : ∀ j, i ≤ j → j < i + n → src j ≠ 0) :
    strncpyCopy src n i dest = (fun j => if i ≤ j ∧ j < i + n then src j else dest j, i + n) := by
  induction n generalizing i dest with
  | zero =>
    unfold strncpyCopy
    congr 1
    ext j
    rw [if_neg (by omega)]
  | succ n ih =>
    unfold strncpyCopy
    rw [if_pos (hne i (Nat.le_refl i) (by omega)), ih _ fun j hj hjn => hne j (by omega) (by omega)]
    congr 1
    · ext j
      by_cases hj : j = i
      · rw [hj, Function.update_self, if_neg (by omega), if_pos (by omega)]
      · rw [Function.update_of_ne hj]
        congr 1
        refine if_congr ?_ rfl rfl
        omega
    · omega

/-- What `strncpy` leaves in the destination: in its `n` bytes that of the source, or a terminator
once the source has ended, and after them what was there. -/
theorem strncpy_apply (dest src : Nat → UInt8) (n j : Nat) :
    strncpy dest src n j =
      if j < n then if ∀ k < j, src k ≠ 0 then src j else 0 else dest j := by
  by_cases hex : ∃ k, k < n ∧ src k = 0
  · obtain ⟨hlen, hend⟩ := Nat.find_spec hex
    have hne : ∀ k < Nat.find hex, src k ≠ 0 := by
      intro k hk hzero
      exact Nat.find_min hex hk ⟨hk.trans hlen, hzero⟩
    have hcopy := @strncpyCopy_of_end src n 0 (Nat.find hex) dest (Nat.zero_le _) (by omega)
      (fun k _ hk => hne k hk) hend
    simp only [strncpy, hcopy, strncpyFill_apply]
    by_cases hj : j < n
    · rw [if_pos hj]
      rcases Nat.lt_trichotomy j (Nat.find hex) with hlt | heq | hgt
      · rw [if_neg (by omega), if_pos ⟨Nat.zero_le j, hlt⟩, if_pos fun k hk => hne k (hk.trans hlt)]
      · rw [if_pos (by omega), if_pos fun k hk => hne k (heq ▸ hk), heq, hend]
      · rw [if_pos (by omega), if_neg fun h => h _ hgt hend]
    · rw [if_neg hj, if_neg (by omega), if_neg (by omega)]
  · have hne : ∀ k < n, src k ≠ 0 := fun k hk hzero => hex ⟨k, hk, hzero⟩
    have hcopy := @strncpyCopy_of_full src n 0 dest (fun k _ hk => hne k (by omega))
    simp only [strncpy, hcopy, strncpyFill_apply]
    by_cases hj : j < n
    · rw [if_neg (by omega), if_pos (by omega), if_pos hj, if_pos fun k hk => hne k (by omega)]
    · rw [if_neg (by omega), if_neg (by omega), if_neg hj]

/-- The bytes of a memory that begins with a string, up to `j`, are not terminators exactly when
the string is not over. -/
theorem forall_ne_zero_iff {src : Nat → UInt8} {name : List UInt8} (hname : 0 ∉ name) {j : Nat}
    (hsrc : ∀ k < j, k ≤ name.length → src k = cstr name k) :
    (∀ k < j, src k ≠ 0) ↔ j ≤ name.length := by
  constructor
  · intro h
    by_contra hlt
    refine h name.length (by omega) ?_
    rw [hsrc _ (by omega) (Nat.le_refl _), cstr_of_le (Nat.le_refl _)]
  · intro hle k hk
    rw [hsrc k hk (by omega)]
    exact cstr_ne_zero hname (by omega)

/-- A string is copied up to `n` bytes, and filled up with terminators. -/
theorem strncpy_of_string {src : Nat → UInt8} {name : List UInt8} {n : Nat} (dest : Nat → UInt8)
    (hname : 0 ∉ name) (hsrc : ∀ j < n, j ≤ name.length → src j = cstr name j) (j : Nat) :
    strncpy dest src n j = if j < n then cstr name j else dest j := by
  rw [strncpy_apply]
  by_cases hj : j < n
  · have hover := @forall_ne_zero_iff src name hname j fun k hk hle => hsrc k (by omega) hle
    rw [if_pos hj, if_pos hj]
    split_ifs with hne
    · exact hsrc j hj (hover.mp hne)
    · rw [hover] at hne
      rw [cstr_of_le (by omega)]
  · rw [if_neg hj, if_neg hj]

/-! ## Strings in memory -/

theorem holdsAt_nil {mem : Nat → UInt8} {addr : Nat} : HoldsAt mem addr [] ↔ mem addr = 0 := by
  constructor
  · intro h
    exact h 0 (Nat.le_refl 0)
  · intro h j hj
    obtain rfl : j = 0 := Nat.le_zero.mp hj
    exact h

theorem holdsAt_cons {mem : Nat → UInt8} {addr : Nat} {c : UInt8} {s : List UInt8} :
    HoldsAt mem addr (c :: s) ↔ mem addr = c ∧ HoldsAt mem (addr + 1) s := by
  constructor
  · intro h
    refine ⟨h 0 (Nat.zero_le _), ?_⟩
    intro j hj
    have hnext := h (j + 1) (Nat.succ_le_succ hj)
    rw [← Nat.add_assoc, Nat.add_right_comm] at hnext
    exact hnext
  · rintro ⟨hfirst, hrest⟩ j hj
    cases j with
    | zero => exact hfirst
    | succ j =>
      rw [← Nat.add_assoc, Nat.add_right_comm]
      exact hrest j (Nat.le_of_succ_le_succ hj)

/-- After its first bytes a string goes on. -/
theorem HoldsAt.drop {mem : Nat → UInt8} {addr : Nat} {s : List UInt8} (h : HoldsAt mem addr s)
    {n : Nat} (hn : n ≤ s.length) : HoldsAt mem (addr + n) (s.drop n) := by
  intro j hj
  rw [List.length_drop] at hj
  rw [Nat.add_assoc, h _ (by omega), cstr, cstr, List.getD_eq_getElem?_getD, List.getD_eq_getElem?_getD,
    List.getElem?_drop]

theorem holdsAt_cstr (s : List UInt8) : HoldsAt (cstr s) 0 s := by
  intro j _
  rw [Nat.zero_add]

/-- `strcpy` stores the bytes of the string and the terminator, one after the other. -/
theorem strcpyStores_eq_series {src : Nat → UInt8} {s : List UInt8} {i n : Nat} (hs : 0 ∉ s)
    (h : HoldsAt src i s) (hn : s.length < n) : strcpyStores src n i = series i (s ++ [0]) := by
  induction s generalizing i n with
  | nil =>
    obtain ⟨n, rfl⟩ := Nat.exists_eq_add_one.mpr hn
    rw [strcpyStores, if_neg (not_not.mpr (holdsAt_nil.mp h))]
    rfl
  | cons c s ih =>
    obtain ⟨n, rfl⟩ := Nat.exists_eq_add_one.mpr (Nat.zero_lt_of_lt hn)
    obtain ⟨hfirst, hrest⟩ := holdsAt_cons.mp h
    rw [List.mem_cons, not_or] at hs
    rw [strcpyStores, hfirst, if_pos (Ne.symm hs.1), ih hs.2 hrest (Nat.lt_of_succ_lt_succ hn)]
    rfl

theorem stringFrom_of_holdsAt {mem : Nat → UInt8} {s : List UInt8} {i n : Nat} (hs : 0 ∉ s)
    (h : HoldsAt mem i s) (hn : s.length < n) : stringFrom mem n i = s := by
  induction s generalizing i n with
  | nil =>
    obtain ⟨n, rfl⟩ := Nat.exists_eq_add_one.mpr hn
    rw [stringFrom, if_pos (holdsAt_nil.mp h)]
  | cons c s ih =>
    obtain ⟨n, rfl⟩ := Nat.exists_eq_add_one.mpr (Nat.zero_lt_of_lt hn)
    obtain ⟨hfirst, hrest⟩ := holdsAt_cons.mp h
    rw [List.mem_cons, not_or] at hs
    rw [stringFrom, hfirst, if_neg (Ne.symm hs.1), ih hs.2 hrest (Nat.lt_of_succ_lt_succ hn)]

/-- `strcpy` stores nothing past the first terminator it meets. -/
theorem strcpyStores_le {src : Nat → UInt8} {last : Nat} (hlast : src last = 0) (n : Nat) {i : Nat}
    (hi : i ≤ last) : ∀ store ∈ strcpyStores src n i, store.1 ≤ last := by
  induction n generalizing i with
  | zero =>
    intro store hstore
    exact absurd hstore List.not_mem_nil
  | succ n ih =>
    rw [strcpyStores]
    split_ifs with hne
    · have hnext : i + 1 ≤ last := by
        refine Nat.lt_of_le_of_ne hi ?_
        rintro rfl
        exact hne hlast
      rw [List.forall_mem_cons]
      exact ⟨hi, ih hnext⟩
    · rw [List.forall_mem_singleton]
      exact hi

/-- The bytes of a stored string are in place. -/
theorem holdsAt_place (mem : Nat → UInt8) (addr : Nat) (s : List UInt8) :
    HoldsAt (place mem addr (s ++ [0])) addr s := by
  intro j hj
  have hlength : j < (s ++ [0]).length := by
    rw [List.length_append, List.length_singleton]
    omega
  rw [place_inside mem addr hlength]
  rcases Nat.eq_or_lt_of_le hj with rfl | hlt
  · rw [List.getElem_concat_length rfl, cstr_of_le (Nat.le_refl _)]
  · rw [List.getElem_append_left hlt, cstr_of_lt hlt]

/-- Bytes stored directly before a string. -/
theorem holdsAt_place_append {mem : Nat → UInt8} {addr : Nat} (s rest : List UInt8)
    (h : HoldsAt mem (addr + s.length) rest) : HoldsAt (place mem addr s) addr (s ++ rest) := by
  intro j hj
  rw [List.length_append] at hj
  rcases Nat.lt_or_ge j s.length with hlt | hge
  · rw [place_inside mem addr hlt, cstr, List.getD_eq_getElem?_getD, List.getElem?_append_left hlt,
      List.getElem?_eq_getElem hlt, Option.getD_some]
  · have hrest := h (j - s.length) (by omega)
    rw [Nat.add_assoc, Nat.add_sub_cancel' hge] at hrest
    rw [place_outside mem (by omega), hrest, cstr, cstr, List.getD_eq_getElem?_getD,
      List.getD_eq_getElem?_getD, List.getElem?_append_right hge]

end LinuxBasedOS.Lib
