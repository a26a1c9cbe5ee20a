import Mathlib.Logic.Function.Basic
import Mathlib.Data.List.Basic
import Mathlib.Data.List.Induction

/-!
# Memory and the stores of a routine

A routine that writes to memory is described by the list of its stores, in order, each with its
address and its value. `Stores.apply` is the memory after them; an address keeps its value when no
store names it. `Stores.loop` lists the stores of a counting loop whose body may read what it has
stored before. `Stores.place` is the memory after
a run of values has been stored from an address on, `Stores.series` the stores of the run.
-/

namespace Stores

variable {α β : Type} [DecidableEq α]

/-- The memory after the stores. -/
def apply (memory : α → β) (stores : List (α × β)) : α → β :=
  stores.foldl (fun m store => Function.update m store.1 store.2) memory

theorem apply_append (memory : α → β) (stores stores' : List (α × β)) :
    apply memory (stores ++ stores') = apply (apply memory stores) stores' :=
  List.foldl_append

/-- What no store names stays. -/
theorem apply_of_forall_ne {memory : α → β} {stores : List (α × β)} {a : α}
    (h : ∀ store ∈ stores, store.1 ≠ a) : apply memory stores a = memory a := by
  induction stores generalizing memory with
  | nil => rfl
  | cons store stores ih =>
    rw [List.forall_mem_cons] at h
    exact (ih h.2).trans (Function.update_of_ne (Ne.symm h.1) _ _)

/-- The last store that names an address says what it has. -/
theorem apply_eq_last (memory : α → β) (stores : List (α × β)) (a : α) :
    apply memory stores a =
      (((stores.filter fun store => store.1 = a).getLast?).map Prod.snd).getD (memory a) := by
  induction stores using List.reverseRecOn with
  | nil => rfl
  | append_singleton stores store ih =>
    have hlast : apply memory (stores ++ [store]) a =
        Function.update (apply memory stores) store.1 store.2 a := by
      rw [apply_append]
      rfl
    rw [hlast, List.filter_append]
    by_cases h : store.1 = a
    · have hkept : [store].filter (fun store => store.1 = a) = [store] := by simp [h]
      rw [hkept, List.getLast?_concat, ← h, Function.update_self]
      rfl
    · have hdropped : [store].filter (fun store => store.1 = a) = [] := by simp [h]
      rw [hdropped, List.append_nil, Function.update_of_ne (Ne.symm h), ih]

/-- What an address has afterwards depends on the stores and on what it had. -/
theorem apply_congr {memory memory' : α → β} {stores : List (α × β)} {a : α}
    (h : memory a = memory' a) : apply memory stores a = apply memory' stores a := by
  rw [apply_eq_last, apply_eq_last, h]

/-- The stores of `n` turns of a loop that counts up from `i`. -/
def loop (body : (α → β) → Int → List (α × β)) (memory : α → β) (i : Int) : Nat → List (α × β)
  | 0 => []
  | n + 1 => body memory i ++ loop body (apply memory (body memory i)) (i + 1) n

/-- What holds of the stores of every turn holds of the stores of the loop. -/
theorem forall_mem_loop {P : α × β → Prop} {body : (α → β) → Int → List (α × β)} {i : Int} {n : Nat}
    (h : ∀ memory k, i ≤ k → k < i + n → ∀ store ∈ body memory k, P store) (memory : α → β) :
    ∀ store ∈ loop body memory i n, P store := by
  induction n generalizing i memory with
  | zero =>
    intro store hstore
    exact absurd hstore List.not_mem_nil
  | succ n ih =>
    intro store hstore
    rcases List.mem_append.mp hstore with hfirst | hrest
    · exact h memory i (Int.le_refl i) (by omega) store hfirst
    · refine ih ?_ _ store hrest
      intro memory k hk hk'
      exact h memory k (by omega) (by omega)

/-- A loop that reads nothing makes the stores of its turns, whatever the memory. -/
theorem loop_of_const (stores : Int → List (α × β)) (memory : α → β) (i : Int) (n : Nat) :
    loop (fun _ k => stores k) memory i n =
      (List.range n).flatMap fun k : Nat => stores (i + k) := by
  induction n generalizing memory i with
  | zero => rfl
  | succ n ih =>
    rw [loop, ih, List.range_succ_eq_map, List.flatMap_cons, List.flatMap_map]
    congr 1
    · rw [Int.natCast_zero, Int.add_zero]
    · refine List.flatMap_congr ?_
      intro k _
      rw [Int.natCast_succ, Int.add_assoc, Int.add_comm 1]

/-! ## Runs of values -/

section Place

variable {γ : Type}

/-- The memory with the values in order from `addr` on. -/
def place (memory : Nat → γ) (addr : Nat) (values : List γ) : Nat → γ := fun a =>
  if addr ≤ a then values[a - addr]?.getD (memory a) else memory a

@[simp] theorem place_nil (memory : Nat → γ) (addr : Nat) : place memory addr [] = memory := by
  funext a
  simp [place]

theorem place_inside (memory : Nat → γ) (addr : Nat) {values : List γ} {i : Nat}
    (h : i < values.length) : place memory addr values (addr + i) = values[i] := by
  simp [place, h]

theorem place_outside (memory : Nat → γ) {addr : Nat} {values : List γ} {a : Nat}
    (h : a < addr ∨ addr + values.length ≤ a) : place memory addr values a = memory a := by
  unfold place
  split_ifs with hle
  · rw [List.getElem?_eq_none (by omega), Option.getD_none]
  · rfl

/-- One run after the other is one run. -/
theorem place_place (memory : Nat → γ) (addr : Nat) (values values' : List γ) :
    place (place memory addr values) (addr + values.length) values' =
      place memory addr (values ++ values') := by
  funext a
  rcases Nat.lt_or_ge a (addr + values.length) with hlt | hge
  · rw [place_outside _ (Or.inl hlt)]
    unfold place
    split_ifs with hle
    · rw [List.getElem?_append_left (by omega)]
    · rfl
  · rw [place, if_pos hge, place_outside _ (Or.inr hge), place, if_pos (by omega),
      List.getElem?_append_right (by omega), Nat.sub_sub]

theorem update_eq_place (memory : Nat → γ) (addr : Nat) (value : γ) :
    Function.update memory addr value = place memory addr [value] := by
  funext a
  rcases Nat.lt_trichotomy a addr with hlt | rfl | hgt
  · rw [Function.update_of_ne (by omega), place_outside _ (Or.inl hlt)]
  · rw [Function.update_self]
    exact (@place_inside γ memory a [value] 0 Nat.zero_lt_one).symm
  · rw [Function.update_of_ne (by omega), place_outside _ (Or.inr hgt)]

theorem place_cons (memory : Nat → γ) (addr : Nat) (value : γ) (values : List γ) :
    place memory addr (value :: values) =
      place (Function.update memory addr value) (addr + 1) values := by
  rw [update_eq_place]
  exact (place_place memory addr [value] values).symm

theorem place_concat (memory : Nat → γ) (addr : Nat) (values : List γ) (value : γ) :
    place memory addr (values ++ [value]) =
      Function.update (place memory addr values) (addr + values.length) value := by
  rw [update_eq_place, place_place]

/-- A store beside the run and the run can change places. -/
theorem place_update (memory : Nat → γ) {addr : Nat} {values : List γ} {b : Nat} (value : γ)
    (h : b < addr ∨ addr + values.length ≤ b) :
    place (Function.update memory b value) addr values =
      Function.update (place memory addr values) b value := by
  funext a
  by_cases ha : a = b
  · subst ha
    rw [Function.update_self, place_outside _ h, Function.update_self]
  · rw [Function.update_of_ne ha]
    unfold place
    rw [Function.update_of_ne ha]

/-- The memory has the values in order from `addr` on. -/
def Spans (memory : Nat → γ) (addr : Nat) (values : List γ) : Prop :=
  ∀ i (h : i < values.length), memory (addr + i) = values[i]

theorem spans_nil (memory : Nat → γ) (addr : Nat) : Spans memory addr [] :=
  fun i hi => absurd hi (Nat.not_lt_zero i)

theorem spans_cons {memory : Nat → γ} {addr : Nat} {value : γ} {values : List γ} :
    Spans memory addr (value :: values) ↔ memory addr = value ∧ Spans memory (addr + 1) values := by
  constructor
  · intro h
    refine ⟨h 0 (Nat.zero_lt_succ _), ?_⟩
    intro i hi
    have hnext := h (i + 1) (Nat.succ_lt_succ hi)
    rw [← Nat.add_assoc, Nat.add_right_comm] at hnext
    exact hnext
  · rintro ⟨hfirst, hrest⟩ i hi
    cases i with
    | zero => exact hfirst
    | succ i =>
      rw [← Nat.add_assoc, Nat.add_right_comm]
      exact hrest i (Nat.lt_of_succ_lt_succ hi)

theorem spans_append {memory : Nat → γ} {addr : Nat} {values values' : List γ} :
    Spans memory addr (values ++ values') ↔
      Spans memory addr values ∧ Spans memory (addr + values.length) values' := by
  induction values generalizing addr with
  | nil =>
    refine ⟨fun h => ⟨spans_nil memory addr, h⟩, fun h => h.2⟩
  | cons value values ih =>
    have hnext : addr + (value :: values).length = addr + 1 + values.length := by
      rw [List.length_cons]
      omega
    rw [List.cons_append, spans_cons, spans_cons, ih, and_assoc, hnext]

theorem spans_place (memory : Nat → γ) (addr : Nat) (values : List γ) :
    Spans (place memory addr values) addr values := by
  intro i hi
  exact place_inside memory addr hi

/-- What agrees on the run has the run. -/
theorem Spans.congr {memory memory' : Nat → γ} {addr : Nat} {values : List γ}
    (h : Spans memory addr values)
    (hsame : ∀ i < values.length, memory' (addr + i) = memory (addr + i)) :
    Spans memory' addr values := by
  intro i hi
  rw [hsame i hi]
  exact h i hi

/-- The stores of the values in order from `addr` on. -/
def series (addr : Nat) : List γ → List (Nat × γ)
  | [] => []
  | value :: values => (addr, value) :: series (addr + 1) values

theorem apply_series (memory : Nat → γ) (addr : Nat) (values : List γ) :
    apply memory (series addr values) = place memory addr values := by
  induction values generalizing memory addr with
  | nil => exact (place_nil memory addr).symm
  | cons value values ih =>
    have hrest : apply memory (series addr (value :: values)) =
        apply (Function.update memory addr value) (series (addr + 1) values) := rfl
    rw [hrest, ih, place_cons]

theorem series_append (addr : Nat) (values values' : List γ) :
    series addr (values ++ values') = series addr values ++ series (addr + values.length) values' := by
  induction values generalizing addr with
  | nil => rfl
  | cons value values ih =>
    rw [List.cons_append, series, ih, series, List.length_cons, List.cons_append,
      Nat.add_assoc addr 1, Nat.add_comm 1]

theorem series_injective (addr : Nat) : Function.Injective (series addr (γ := γ)) := by
  intro values values' h
  induction values generalizing addr values' with
  | nil =>
    cases values' with
    | nil => rfl
    | cons value' values' => cases h
  | cons value values ih =>
    cases values' with
    | nil => cases h
    | cons value' values' =>
      injection h with hfirst hrest
      injection hfirst with _ hvalue
      rw [hvalue, ih (addr + 1) hrest]

@[simp] theorem length_series (addr : Nat) (values : List γ) :
    (series addr values).length = values.length := by
  induction values generalizing addr with
  | nil => rfl
  | cons value values ih => rw [series, List.length_cons, ih, List.length_cons]

/-- The last of the values has the highest address. -/
theorem forall_series_lt {addr bound : Nat} (values : List γ) (h : addr ≤ bound) :
    (∀ store ∈ series addr values, store.1 < bound) ↔ addr + values.length ≤ bound := by
  induction values generalizing addr with
  | nil => simp [series, h]
  | cons value values ih =>
    rw [series, List.forall_mem_cons, List.length_cons]
    constructor
    · rintro ⟨hfirst, hrest⟩
      have := (ih hfirst).mp hrest
      omega
    · intro hle
      exact ⟨by omega, (ih (by omega)).mpr (by omega)⟩

end Place

end Stores
