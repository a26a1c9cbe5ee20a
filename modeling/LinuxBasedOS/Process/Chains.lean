import Mathlib.Algebra.BigOperators.Group.Finset.Basic
import Mathlib.Algebra.Order.BigOperators.Group.Finset

/-!
# The run queue as chains of processes

What the run queue is for: each of its seven slots holds a chain of processes, every one of
them waiting in `execute` for the one before it, and the head of the chain can run. A chain
ends in a base shell, whose pid is at most 3. `Chains` is such a queue with the pids that
have been given out; a child's pid is in one chain only. The exit of a base shell may leave
its pid in several slots, so nothing of the kind is asked of base shells.
-/

namespace LinuxBasedOS.Process

/-- Children over a base shell. -/
def IsChain : List Nat → Prop
  | [] => True
  | [base] => base ≤ 3
  | child :: p :: rest => 3 < child ∧ IsChain (p :: rest)

theorem IsChain.of_child {child p : Nat} {rest : List Nat} (h : IsChain (child :: p :: rest)) :
    IsChain (p :: rest) := h.2

theorem IsChain.push {child : Nat} {chain : List Nat} (h : IsChain chain) (hne : chain ≠ [])
    (hchild : 3 < child) : IsChain (child :: chain) := by
  cases chain with
  | nil => exact absurd rfl hne
  | cons p rest => exact ⟨hchild, h⟩

/-- A process above 3 has its parent below it. -/
theorem IsChain.exists_parent {child : Nat} {rest : List Nat} (h : IsChain (child :: rest))
    (hchild : 3 < child) : ∃ p rest', rest = p :: rest' := by
  cases rest with
  | nil =>
    have hbase : child ≤ 3 := h
    omega
  | cons p rest' => exact ⟨p, rest', rfl⟩

theorem IsChain.mem {chain : List Nat} (h : IsChain chain) {p : Nat} (hp : p ∈ chain) :
    3 < p ∨ chain.getLast? = some p := by
  induction chain with
  | nil => cases hp
  | cons q rest ih =>
    cases rest with
    | nil =>
      rw [List.mem_singleton.mp hp]
      exact Or.inr rfl
    | cons r rest' =>
      rcases List.mem_cons.mp hp with rfl | hrest
      · exact Or.inl h.1
      · rw [List.getLast?_cons_cons]
        exact ih h.2 hrest

theorem IsChain.last_le {chain : List Nat} (h : IsChain chain) {b : Nat}
    (hb : chain.getLast? = some b) : b ≤ 3 := by
  induction chain with
  | nil => cases hb
  | cons q rest ih =>
    cases rest with
    | nil =>
      cases hb
      exact h
    | cons r rest' =>
      rw [List.getLast?_cons_cons] at hb
      exact ih h.2 hb

structure Chains where
  used : Nat
  chain : Nat → List Nat
  current : Nat
  used_le : used ≤ 7
  current_lt : current < 7
  busy : chain current ≠ []
  shape : ∀ i < 7, IsChain (chain i)
  range : ∀ i < 7, ∀ p ∈ chain i, 1 ≤ p ∧ p ≤ used
  nodup : ∀ i < 7, (chain i).Nodup
  unique : ∀ i < 7, ∀ j < 7, ∀ p ∈ chain i, p ∈ chain j → 3 < p → i = j

namespace Chains

variable (a : Chains)

/-- The process that runs. -/
def running : Nat := (a.chain a.current).head a.busy

/-- How many children are alive. -/
def children : Nat := ∑ i ∈ Finset.range 7, (a.chain i).countP fun p => 3 < p

theorem chain_current : a.chain a.current = a.running :: (a.chain a.current).tail :=
  (List.cons_head_tail a.busy).symm

theorem running_mem : a.running ∈ a.chain a.current := List.head_mem a.busy

theorem running_range : 1 ≤ a.running ∧ a.running ≤ a.used :=
  a.range a.current a.current_lt a.running a.running_mem

theorem running_le : a.running ≤ 7 := a.running_range.2.trans a.used_le

/-- Below a child that runs is the process that waits for it. -/
theorem exists_parent (h : 3 < a.running) :
    ∃ p rest, a.chain a.current = a.running :: p :: rest := by
  have hshape := a.shape a.current a.current_lt
  rw [a.chain_current] at hshape
  obtain ⟨p, rest, htail⟩ := hshape.exists_parent h
  refine ⟨p, rest, ?_⟩
  rw [← htail]
  exact a.chain_current

/-- A property of every chain survives the replacement of one chain. -/
theorem forall_update {P : Nat → List Nat → Prop} {chain : Nat → List Nat} {i : Nat}
    {l : List Nat} (h : ∀ j < 7, P j (chain j)) (hl : P i l) :
    ∀ j < 7, P j (Function.update chain i l j) := by
  intro j hj
  by_cases hji : j = i
  · rw [hji, Function.update_self]
    exact hl
  · rw [Function.update_of_ne hji]
    exact h j hj

/-! ## Operations -/

/-- Slot 0 gets the first base shell. -/
def first : Chains where
  used := 1
  chain := fun i => if i = 0 then [1] else []
  current := 0
  used_le := by omega
  current_lt := by omega
  busy := by simp
  shape := by
    intro i _
    by_cases hi : i = 0
    · rw [if_pos hi]
      show 1 ≤ 3
      omega
    · rw [if_neg hi]
      trivial
  range := by
    intro i _ p hp
    by_cases hi : i = 0
    · rw [if_pos hi, List.mem_singleton] at hp
      omega
    · rw [if_neg hi] at hp
      cases hp
  nodup := by
    intro i _
    by_cases hi : i = 0 <;> simp [hi]
  unique := by
    intro i _ j _ p hp _ h3
    by_cases hi : i = 0
    · rw [if_pos hi, List.mem_singleton] at hp
      omega
    · rw [if_neg hi] at hp
      cases hp

/-- A task switch. -/
def switch (i : Nat) (hi : i < 7) (hbusy : a.chain i ≠ []) : Chains :=
  { a with current := i, current_lt := hi, busy := hbusy }

/-- The chain in slot `i` gets a new child on top. -/
def push (i : Nat) (hi : i < 7) (hbusy : a.chain i ≠ []) (h3 : 3 ≤ a.used) (h7 : a.used < 7) :
    Chains where
  used := a.used + 1
  chain := Function.update a.chain i ((a.used + 1) :: a.chain i)
  current := i
  used_le := h7
  current_lt := hi
  busy := by simp
  shape := forall_update a.shape ((a.shape i hi).push hbusy (by omega))
  range := by
    refine forall_update (P := fun _ l => ∀ p ∈ l, 1 ≤ p ∧ p ≤ a.used + 1) ?_ ?_
    · intro j hj p hp
      have := a.range j hj p hp
      omega
    · intro p hp
      rcases List.mem_cons.mp hp with rfl | hold
      · omega
      · have := a.range i hi p hold
        omega
  nodup := by
    refine forall_update (P := fun _ l => l.Nodup) a.nodup ?_
    refine List.nodup_cons.mpr ⟨fun hmem => ?_, a.nodup i hi⟩
    have := a.range i hi _ hmem
    omega
  unique := by
    intro j hj j' hj' p hp hp' h3p
    -- the new pid is in no old chain
    have hnew : ∀ k < 7, ∀ q, q ∈ Function.update a.chain i ((a.used + 1) :: a.chain i) k →
        q = a.used + 1 ∧ k = i ∨ q ≤ a.used ∧ q ∈ a.chain k := by
      intro k hk q hq
      by_cases hki : k = i
      · rw [hki, Function.update_self] at hq
        rcases List.mem_cons.mp hq with rfl | hold
        · exact Or.inl ⟨rfl, hki⟩
        · exact Or.inr ⟨(a.range i hi q hold).2, hki ▸ hold⟩
      · rw [Function.update_of_ne hki] at hq
        exact Or.inr ⟨(a.range k hk q hq).2, hq⟩
    rcases hnew j hj p hp with ⟨hpn, rfl⟩ | ⟨hpu, hold⟩
    · rcases hnew j' hj' p hp' with ⟨_, rfl⟩ | ⟨hpu', _⟩
      · rfl
      · omega
    · rcases hnew j' hj' p hp' with ⟨hpn, _⟩ | ⟨_, hold'⟩
      · omega
      · exact a.unique j hj j' hj' p hold hold' h3p

/-- A base shell starts in a free slot. -/
def start (i p used : Nat) (hi : i < 7) (hp : 1 ≤ p) (hp3 : p ≤ 3) (hused : p ≤ used)
    (hmono : a.used ≤ used) (h7 : used ≤ 7) : Chains where
  used := used
  chain := Function.update a.chain i [p]
  current := i
  used_le := h7
  current_lt := hi
  busy := by simp
  shape := forall_update a.shape hp3
  range := by
    refine forall_update (P := fun _ l => ∀ q ∈ l, 1 ≤ q ∧ q ≤ used) ?_ ?_
    · intro j hj q hq
      have := a.range j hj q hq
      omega
    · intro q hq
      rw [List.mem_singleton.mp hq]
      omega
  nodup := forall_update (P := fun _ l => l.Nodup) a.nodup (List.nodup_singleton p)
  unique := by
    intro j hj j' hj' q hq hq' h3q
    have hold : ∀ k, q ∈ Function.update a.chain i [p] k → q ∈ a.chain k := by
      intro k hk
      by_cases hki : k = i
      · rw [hki, Function.update_self, List.mem_singleton] at hk
        omega
      · rwa [Function.update_of_ne hki] at hk
    exact a.unique j hj j' hj' q (hold j hq) (hold j' hq') h3q

/-- The child that runs exits, and its parent goes on. -/
def exit (p : Nat) (rest : List Nat) (h : a.chain a.current = a.running :: p :: rest) : Chains where
  used := a.used
  chain := Function.update a.chain a.current (p :: rest)
  current := a.current
  used_le := a.used_le
  current_lt := a.current_lt
  busy := by simp
  shape := by
    have hshape := a.shape a.current a.current_lt
    rw [h] at hshape
    exact forall_update a.shape hshape.of_child
  range := by
    refine forall_update (P := fun _ l => ∀ q ∈ l, 1 ≤ q ∧ q ≤ a.used) a.range fun q hq => ?_
    exact a.range a.current a.current_lt q (h ▸ List.mem_cons_of_mem _ hq)
  nodup := by
    have hnodup := a.nodup a.current a.current_lt
    rw [h] at hnodup
    exact forall_update (P := fun _ l => l.Nodup) a.nodup hnodup.of_cons
  unique := by
    intro j hj j' hj' q hq hq' h3q
    have hold : ∀ k, q ∈ Function.update a.chain a.current (p :: rest) k → q ∈ a.chain k := by
      intro k hk
      by_cases hki : k = a.current
      · rw [hki, Function.update_self] at hk
        rw [hki, h]
        exact List.mem_cons_of_mem _ hk
      · rwa [Function.update_of_ne hki] at hk
    exact a.unique j hj j' hj' q (hold j hq) (hold j' hq') h3q

theorem mem_start_cases {chain : Nat → List Nat} {i j p q : Nat}
    (hq : q ∈ Function.update chain i [p] j) : q ∈ chain j ∨ q = p := by
  by_cases hji : j = i
  · rw [hji, Function.update_self] at hq
    exact Or.inr (List.mem_singleton.mp hq)
  · rw [Function.update_of_ne hji] at hq
    exact Or.inl hq

/-- A base shell that starts in a free slot takes no process out of the chains. -/
theorem mem_start_of_mem {chain : Nat → List Nat} {i j p q : Nat} (hempty : chain i = [])
    (hq : q ∈ chain j) : q ∈ Function.update chain i [p] j := by
  have hji : j ≠ i := by
    rintro rfl
    rw [hempty] at hq
    cases hq
  rw [Function.update_of_ne hji]
  exact hq

/-- A child on top of a chain is the only new process of the chains. -/
theorem mem_push {chain : Nat → List Nat} {i j p q : Nat} :
    q ∈ Function.update chain i (p :: chain i) j ↔ q ∈ chain j ∨ j = i ∧ q = p := by
  by_cases hji : j = i
  · rw [hji, Function.update_self, List.mem_cons]
    constructor
    · rintro (heq | hold)
      · exact Or.inr ⟨rfl, heq⟩
      · exact Or.inl hold
    · rintro (hold | ⟨-, heq⟩)
      · exact Or.inr hold
      · exact Or.inl heq
  · rw [Function.update_of_ne hji]
    exact ⟨Or.inl, fun h => h.resolve_right fun hnew => hji hnew.1⟩

/-- The exit of a child takes its pid out of the chains and nothing else. -/
theorem mem_exit {p : Nat} {rest : List Nat} (h : a.chain a.current = a.running :: p :: rest)
    {j q : Nat} (hj : j < 7) :
    q ∈ (a.exit p rest h).chain j ↔ q ∈ a.chain j ∧ q ≠ a.running := by
  have hshape := a.shape a.current a.current_lt
  have hnodup := a.nodup a.current a.current_lt
  rw [h] at hshape hnodup
  have hnew : a.running ∉ p :: rest := (List.nodup_cons.mp hnodup).1
  show q ∈ Function.update a.chain a.current (p :: rest) j ↔ _
  by_cases hjc : j = a.current
  · rw [hjc, Function.update_self, h]
    constructor
    · intro hq
      exact ⟨List.mem_cons_of_mem _ hq, fun heq => hnew (heq ▸ hq)⟩
    · rintro ⟨hq, hne⟩
      exact List.mem_of_ne_of_mem hne hq
  · rw [Function.update_of_ne hjc]
    refine ⟨fun hq => ⟨hq, ?_⟩, fun hq => hq.1⟩
    rintro rfl
    exact hjc (a.unique j hj a.current a.current_lt a.running hq a.running_mem hshape.1)

/-! ## The number of children -/

theorem children_update (chain : Nat → List Nat) (l : List Nat) {i : Nat} (hi : i < 7) :
    (∑ j ∈ Finset.range 7, (Function.update chain i l j).countP fun p => 3 < p) +
        (chain i).countP (fun p => 3 < p) =
      (∑ j ∈ Finset.range 7, (chain j).countP fun p => 3 < p) + l.countP fun p => 3 < p := by
  have hmem : i ∈ Finset.range 7 := Finset.mem_range.mpr hi
  rw [← Finset.add_sum_erase _ _ hmem, ← Finset.add_sum_erase (Finset.range 7)
    (fun j => (chain j).countP fun p => 3 < p) hmem, Function.update_self]
  have hrest : ∑ j ∈ (Finset.range 7).erase i, (Function.update chain i l j).countP (fun p => 3 < p) =
      ∑ j ∈ (Finset.range 7).erase i, (chain j).countP fun p => 3 < p := by
    refine Finset.sum_congr rfl fun j hj => ?_
    rw [Function.update_of_ne (Finset.ne_of_mem_erase hj)]
  rw [hrest]
  omega

theorem children_push {i : Nat} (hi : i < 7) (hbusy : a.chain i ≠ []) (h3 : 3 ≤ a.used)
    (h7 : a.used < 7) : (a.push i hi hbusy h3 h7).children = a.children + 1 := by
  have hsum := children_update a.chain ((a.used + 1) :: a.chain i) hi
  rw [List.countP_cons_of_pos (by simp; omega)] at hsum
  unfold children push
  dsimp only
  omega

theorem children_start {i p used : Nat} (hi : i < 7) (hp : 1 ≤ p) (hp3 : p ≤ 3)
    (hused : p ≤ used) (hmono : a.used ≤ used) (h7 : used ≤ 7) (hfree : a.chain i = []) :
    (a.start i p used hi hp hp3 hused hmono h7).children = a.children := by
  have hsum := children_update a.chain [p] hi
  rw [List.countP_cons_of_neg (by simp; omega), hfree] at hsum
  simpa only [children, start, List.countP_nil, Nat.add_zero] using hsum

theorem children_exit {p : Nat} {rest : List Nat}
    (h : a.chain a.current = a.running :: p :: rest) :
    (a.exit p rest h).children + 1 = a.children := by
  have hsum := children_update a.chain (p :: rest) a.current_lt
  have hshape := a.shape a.current a.current_lt
  rw [h] at hshape
  have hchild : 3 < a.running := hshape.1
  rw [h, List.countP_cons_of_pos (by simpa using hchild)] at hsum
  unfold children exit
  dsimp only
  omega

end Chains

end LinuxBasedOS.Process
