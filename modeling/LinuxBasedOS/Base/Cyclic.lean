import Mathlib.Data.Nat.Find
import Mathlib.Data.Nat.ModEq

/-!
# Round robin

`n` slots are numbered from 0 and come round again after the last. A slot is occupied or not. A
search from a slot on takes the first occupied one in cyclic order (`FirstFrom`), and a scheduler
that searches each time from the slot after the one it took last is a round robin
(`roundRobin_of_next`): between two turns of one slot every other occupied slot has one turn, and
the turns of every round are in the same order.

The slots that are passed between two turns of a slot `a` are numbered by their distance from `a`.
-/

namespace Cyclic

variable {n : Nat} {occupied : Nat → Prop}

/-- The first occupied slot of `p`, `p + 1` and so on, in cyclic order. -/
def FirstFrom (n : Nat) (occupied : Nat → Prop) (p slot : Nat) : Prop :=
  ∃ d < n, slot = (p + d) % n ∧ occupied slot ∧ ∀ e < d, ¬ occupied ((p + e) % n)

theorem FirstFrom.lt {p slot : Nat} (h : FirstFrom n occupied p slot) : slot < n := by
  obtain ⟨d, hd, rfl, -⟩ := h
  exact Nat.mod_lt _ (Nat.zero_lt_of_lt hd)

theorem FirstFrom.taken {p slot : Nat} (h : FirstFrom n occupied p slot) : occupied slot := by
  obtain ⟨d, -, -, hslot, -⟩ := h
  exact hslot

theorem FirstFrom.unique {p slot slot' : Nat} (h : FirstFrom n occupied p slot)
    (h' : FirstFrom n occupied p slot') : slot = slot' := by
  obtain ⟨d, -, rfl, hslot, hmin⟩ := h
  obtain ⟨d', -, rfl, hslot', hmin'⟩ := h'
  rcases Nat.lt_trichotomy d d' with hlt | heq | hgt
  · exact absurd hslot (hmin' d hlt)
  · rw [heq]
  · exact absurd hslot' (hmin d' hgt)

/-- Every slot is at some distance below `n`. -/
theorem exists_distance {a slot : Nat} (ha : a < n) (hslot : slot < n) :
    ∃ d < n, slot = (a + d) % n := by
  rcases Nat.le_total a slot with hle | hle
  · refine ⟨slot - a, by omega, ?_⟩
    rw [Nat.add_sub_cancel' hle, Nat.mod_eq_of_lt hslot]
  · rcases Nat.eq_or_lt_of_le hle with rfl | hlt
    · exact ⟨0, Nat.zero_lt_of_lt ha, (Nat.mod_eq_of_lt ha).symm⟩
    · refine ⟨slot + n - a, by omega, ?_⟩
      rw [Nat.add_sub_cancel' (by omega), Nat.add_mod_right, Nat.mod_eq_of_lt hslot]

theorem distance_inj {a d d' : Nat} (hd : d < n) (hd' : d' < n)
    (h : (a + d) % n = (a + d') % n) : d = d' :=
  Nat.ModEq.eq_of_lt_of_lt (Nat.ModEq.add_left_cancel' a h) hd hd'

theorem exists_firstFrom [DecidablePred occupied] {slot : Nat} (hslot : slot < n)
    (h : occupied slot) (p : Nat) : ∃ slot', FirstFrom n occupied p slot' := by
  have hpos : 0 < n := Nat.zero_lt_of_lt hslot
  obtain ⟨d, hd, heq⟩ := exists_distance (Nat.mod_lt p hpos) hslot
  rw [Nat.mod_add_mod] at heq
  have hex : ∃ d, occupied ((p + d) % n) := ⟨d, heq ▸ h⟩
  have hle : Nat.find hex ≤ d := Nat.find_min' hex (heq ▸ h)
  exact ⟨_, Nat.find hex, by omega, rfl, Nat.find_spec hex, fun e he => Nat.find_min hex he⟩

/-! ## Between two turns of one slot -/

/-- Each slot is the first from the one after the slot before it. -/
def TakesNext (n : Nat) (occupied : Nat → Prop) (turn : Nat → Nat) : Prop :=
  ∀ k, FirstFrom n occupied (turn k + 1) (turn (k + 1))

/-- `j` is the next turn of the slot that has turn `i`. -/
structure NextTurn (turn : Nat → Nat) (i j : Nat) : Prop where
  later : i < j
  same : turn j = turn i
  first : ∀ k, i < k → k < j → turn k ≠ turn i

structure RoundRobin (n : Nat) (occupied : Nat → Prop) (turn : Nat → Nat) : Prop where
  each : ∀ i j, NextTurn turn i j → ∀ slot < n, occupied slot → slot ≠ turn i →
    ∃! k, i < k ∧ k < j ∧ turn k = slot
  order : ∀ i j, NextTurn turn i j → ∀ d, turn (j + d) = turn (i + d)

/-- The next slot is further from `a`, but not beyond it, and the slots in between are free. -/
theorem FirstFrom.distance {a d slot : Nat} (hd : d < n) (ha : a < n) (hocc : occupied a)
    (h : FirstFrom n occupied ((a + d) % n + 1) slot) :
    ∃ d', d < d' ∧ d' ≤ n ∧ slot = (a + d') % n ∧
      ∀ e, d < e → e < d' → ¬ occupied ((a + e) % n) := by
  obtain ⟨m, -, hslot, -, hmin⟩ := h
  have hplace : ∀ e, ((a + d) % n + 1 + e) % n = (a + (d + 1 + e)) % n := by
    intro e
    rw [Nat.add_assoc, Nat.mod_add_mod]
    congr 1
    omega
  have hle : d + 1 + m ≤ n := by
    by_contra hgt
    refine hmin (n - (d + 1)) (by omega) ?_
    rw [hplace, Nat.add_sub_cancel' hd, Nat.add_mod_right, Nat.mod_eq_of_lt ha]
    exact hocc
  refine ⟨d + 1 + m, by omega, hle, hslot.trans (hplace m), ?_⟩
  intro e hlow hhigh
  have hfree := hmin (e - (d + 1)) (by omega)
  rw [hplace, Nat.add_sub_cancel' hlow] at hfree
  exact hfree

/-- What the turns from `i` to `k` have passed, when the slot `a` of turn `i` has not come again:
`d` is the distance of turn `k`. -/
structure Passed (n : Nat) (occupied : Nat → Prop) (turn : Nat → Nat) (a i k d : Nat) : Prop where
  lt : d < n
  slot : turn k = (a + d) % n
  before : ∀ l, i ≤ l → l < k → ∃ e < d, turn l = (a + e) % n
  reached : ∀ e, 0 < e → e ≤ d → occupied ((a + e) % n) →
    ∃ l, i < l ∧ l ≤ k ∧ turn l = (a + e) % n

section Turns

variable {turn : Nat → Nat} {a i : Nat}

theorem exists_passed (hnext : TakesNext n occupied turn) (ha : a < n) (hocc : occupied a)
    (hi : turn i = a) (m : Nat) (hfirst : ∀ k, i < k → k ≤ i + m → turn k ≠ a) :
    ∃ d, Passed n occupied turn a i (i + m) d := by
  induction m with
  | zero =>
    refine ⟨0, Nat.zero_lt_of_lt ha, ?_, ?_, ?_⟩
    · rw [Nat.add_zero, Nat.add_zero, Nat.mod_eq_of_lt ha]
      exact hi
    · intro l hle hlt
      omega
    · intro e he0 he
      omega
  | succ m ih =>
    obtain ⟨d, hd⟩ := ih fun k hik hk => hfirst k hik (by omega)
    have hstep := hnext (i + m)
    rw [hd.slot] at hstep
    obtain ⟨d', hlt, hle, hslot, hfree⟩ := hstep.distance hd.lt ha hocc
    have hd' : d' < n := by
      refine Nat.lt_of_le_of_ne hle ?_
      rintro rfl
      refine hfirst (i + m + 1) (by omega) (Nat.le_refl _) ?_
      rw [hslot, Nat.add_mod_right, Nat.mod_eq_of_lt ha]
    refine ⟨d', hd', hslot, ?_, ?_⟩
    · intro l hil hl
      rcases Nat.lt_succ_iff_lt_or_eq.mp hl with hearlier | rfl
      · obtain ⟨e, he, hturn⟩ := hd.before l hil hearlier
        exact ⟨e, by omega, hturn⟩
      · exact ⟨d, hlt, hd.slot⟩
    · intro e he0 he heocc
      rcases Nat.lt_trichotomy e d' with hless | rfl | hmore
      · have hed : e ≤ d := by
          by_contra hgt
          exact hfree e (by omega) hless heocc
        obtain ⟨l, hil, hl, hturn⟩ := hd.reached e he0 hed heocc
        exact ⟨l, hil, by omega, hturn⟩
      · exact ⟨i + m + 1, by omega, Nat.le_refl _, hslot⟩
      · omega

/-- Between two turns of a slot no other has two. -/
theorem NextTurn.injective {j : Nat} (h : NextTurn turn i j) (hnext : TakesNext n occupied turn)
    (ha : turn i < n) (hocc : occupied (turn i)) {k l : Nat} (hik : i < k) (hkl : k < l)
    (hlj : l < j) : turn k ≠ turn l := by
  obtain ⟨m, rfl⟩ := Nat.exists_eq_add_of_le (Nat.le_of_lt (hik.trans hkl))
  obtain ⟨d, hd⟩ := exists_passed hnext ha hocc rfl m fun k' hk hk' =>
    h.first k' hk (by omega)
  obtain ⟨e, he, hturn⟩ := hd.before k (Nat.le_of_lt hik) hkl
  intro heq
  rw [hturn, hd.slot] at heq
  exact absurd (distance_inj (he.trans hd.lt) hd.lt heq) (Nat.ne_of_lt he)

/-- Between two turns of a slot every other occupied slot has one. -/
theorem NextTurn.exists_turn {j : Nat} (h : NextTurn turn i j) (hnext : TakesNext n occupied turn)
    (ha : turn i < n) (hocc : occupied (turn i)) {slot : Nat} (hslot : slot < n)
    (hsocc : occupied slot) (hne : slot ≠ turn i) : ∃ k, i < k ∧ k < j ∧ turn k = slot := by
  obtain ⟨m, hm⟩ := Nat.exists_eq_add_of_lt h.later
  obtain ⟨d, hd⟩ := exists_passed hnext ha hocc rfl m fun k hk hk' => h.first k hk (by omega)
  obtain ⟨e, he, rfl⟩ := exists_distance ha hslot
  have he0 : 0 < e := by
    refine Nat.pos_of_ne_zero ?_
    rintro rfl
    exact hne (Nat.mod_eq_of_lt ha)
  -- turn `j` is the slot again, so the slots after turn `i + m` are free
  have hstep := hnext (i + m)
  rw [← hm, h.same, hd.slot] at hstep
  obtain ⟨d', hlt, hle, hagain, hfree⟩ := hstep.distance hd.lt ha hocc
  have hd' : d' = n := by
    by_contra hless
    have hzero : (turn i + 0) % n = (turn i + d') % n := by
      rw [← hagain]
      exact Nat.mod_eq_of_lt ha
    have := distance_inj (Nat.zero_lt_of_lt ha) (by omega) hzero
    omega
  have hed : e ≤ d := by
    by_contra hgt
    exact hfree e (by omega) (by omega) hsocc
  obtain ⟨k, hik, hk, hturn⟩ := hd.reached e he0 hed hsocc
  exact ⟨k, hik, by omega, hturn⟩

/-- The slots after a turn depend only on its slot. -/
theorem TakesNext.same_order (hnext : TakesNext n occupied turn) {j : Nat} (h : turn j = turn i)
    (d : Nat) : turn (j + d) = turn (i + d) := by
  induction d with
  | zero => exact h
  | succ d ih =>
    have hj := hnext (j + d)
    rw [ih] at hj
    exact hj.unique (hnext (i + d))

/-- **Round robin.** A sequence of turns in which each slot is the first after the one before it. -/
theorem roundRobin_of_next (hnext : TakesNext n occupied turn) (hlt : ∀ k, turn k < n)
    (hocc : ∀ k, occupied (turn k)) : RoundRobin n occupied turn where
  each := by
    intro i j h slot hslot hsocc hne
    obtain ⟨k, hik, hkj, hturn⟩ := h.exists_turn hnext (hlt i) (hocc i) hslot hsocc hne
    refine ⟨k, ⟨hik, hkj, hturn⟩, ?_⟩
    rintro l ⟨hil, hlj, hlturn⟩
    rcases Nat.lt_trichotomy l k with hless | heq | hmore
    · exact absurd (hlturn.trans hturn.symm) (h.injective hnext (hlt i) (hocc i) hil hless hkj)
    · exact heq
    · exact absurd (hturn.trans hlturn.symm) (h.injective hnext (hlt i) (hocc i) hik hmore hlj)
  order := by
    intro i j h
    exact hnext.same_order h.same

end Turns

end Cyclic
