import LinuxBasedOS.Process.Chains
import LinuxBasedOS.Process.History

/-!
# Chains and the processes of a run

`Recorded` relates the chains of the run queue to the record that a run keeps of its
processes: a chain is what is alive of one base shell, newest first, each process with the one
that waits for it, and every base shell has one chain. Starting a base shell, starting a child
and the exit of a child keep it; the exit of a base shell does not.
-/

namespace LinuxBasedOS.Process

/-- The processes of a chain, each with the one that waits for it. -/
def withCallers : List Nat → List (Nat × Option Nat)
  | [] => []
  | p :: rest => (p, rest.head?) :: withCallers rest

theorem mem_of_mem_withCallers {chain : List Nat} {x : Nat × Option Nat}
    (h : x ∈ withCallers chain) : x.1 ∈ chain := by
  induction chain with
  | nil => cases h
  | cons p rest ih =>
    rcases List.mem_cons.mp h with rfl | hrest
    · exact List.mem_cons_self
    · exact List.mem_cons_of_mem _ (ih hrest)

theorem exists_withCallers {chain : List Nat} {p : Nat} (h : p ∈ chain) :
    ∃ c, (p, c) ∈ withCallers chain := by
  induction chain with
  | nil => cases h
  | cons q rest ih =>
    rcases List.mem_cons.mp h with rfl | hrest
    · exact ⟨_, List.mem_cons_self⟩
    · obtain ⟨c, hc⟩ := ih hrest
      exact ⟨c, List.mem_cons_of_mem _ hc⟩

/-- Only processes below the head of a chain wait. -/
theorem caller_mem_tail {chain : List Nat} {p c : Nat} (h : (p, some c) ∈ withCallers chain) :
    c ∈ chain.tail := by
  induction chain with
  | nil => cases h
  | cons q rest ih =>
    rcases List.mem_cons.mp h with heq | hrest
    · exact List.mem_of_mem_head? (congrArg Prod.snd heq).symm
    · exact List.mem_of_mem_tail (ih hrest)

theorem filter_withCallers {chain : List Nat} {p : Nat} (h : p ∉ chain) :
    (withCallers chain).filter (fun x => x.1 != p) = withCallers chain := by
  refine List.filter_eq_self.mpr fun x hx => ?_
  have hne : x.1 ≠ p := fun heq => h (heq ▸ mem_of_mem_withCallers hx)
  simpa using hne

/-- The live processes of a base shell's chain, newest first. -/
def members (procs : List Proc) (base : Nat) : List (Nat × Option Nat) :=
  (procs.filter fun q => q.base == base).map fun q => (q.pid, q.caller)

theorem members_cons (procs : List Proc) (q : Proc) (base : Nat) :
    members (q :: procs) base =
      if q.base = base then (q.pid, q.caller) :: members procs base else members procs base := by
  unfold members
  by_cases h : q.base = base <;> simp [h]

theorem members_afterHalt (procs : List Proc) (pid base : Nat) :
    members (afterHalt procs (some pid)) base =
      (members procs base).filter fun x => x.1 != pid := by
  unfold members afterHalt
  rw [List.filter_map, List.filter_filter, List.filter_filter]
  congr 1
  refine List.filter_congr fun q _ => ?_
  simp only [Function.comp]
  exact Bool.and_comm _ _

theorem last_le_used {a : Chains} {j c : Nat} (hj : j < 7) (hc : (a.chain j).getLast? = some c) :
    c ≤ a.used :=
  (a.range j hj c (List.mem_of_getLast? hc)).2

/-- The base shells after a start: the new one in its slot, and the old ones as they were. -/
theorem last_start_cases {chain : Nat → List Nat} {i j p c : Nat}
    (hc : (Function.update chain i [p] j).getLast? = some c) :
    (j = i ∧ c = p) ∨ (j ≠ i ∧ (chain j).getLast? = some c) := by
  by_cases hji : j = i
  · rw [hji, Function.update_self] at hc
    exact Or.inl ⟨hji, (Option.some.inj hc).symm⟩
  · rw [Function.update_of_ne hji] at hc
    exact Or.inr ⟨hji, hc⟩

theorem last_start_of_old {chain : Nat → List Nat} {i j p c : Nat} (hempty : chain i = [])
    (hc : (chain j).getLast? = some c) : (Function.update chain i [p] j).getLast? = some c := by
  have hji : j ≠ i := by
    rintro rfl
    rw [hempty] at hc
    cases hc
  rw [Function.update_of_ne hji]
  exact hc

/-- Each chain is the record of one base shell, and each base shell has one chain. -/
structure Recorded (procs : List Proc) (a : Chains) : Prop where
  base : ∀ b, 1 ≤ b → b ≤ min a.used 3 → ∃ i < 7, (a.chain i).getLast? = some b
  once : ∀ i < 7, ∀ j < 7, ∀ b,
    (a.chain i).getLast? = some b → (a.chain j).getLast? = some b → i = j
  members : ∀ i < 7, ∀ b, (a.chain i).getLast? = some b → members procs b = withCallers (a.chain i)
  based : ∀ q ∈ procs, ∃ i < 7, (a.chain i).getLast? = some q.base

namespace Recorded

variable {procs : List Proc} {a : Chains}

theorem disjoint (h : Recorded procs a) {i j p : Nat} (hi : i < 7) (hj : j < 7)
    (hpi : p ∈ a.chain i) (hpj : p ∈ a.chain j) : i = j := by
  rcases (a.shape i hi).mem hpi with h3 | hlast
  · exact a.unique i hi j hj p hpi hpj h3
  · rcases (a.shape j hj).mem hpj with h3 | hlast'
    · exact a.unique i hi j hj p hpi hpj h3
    · exact h.once i hi j hj p hlast hlast'

theorem last_le (_ : Recorded procs a) {i b : Nat} (hi : i < 7) (h : (a.chain i).getLast? = some b) :
    1 ≤ b ∧ b ≤ 3 := by
  have hmem := List.mem_of_getLast? h
  refine ⟨(a.range i hi b hmem).1, ?_⟩
  exact (a.shape i hi).last_le h

/-- A live process is in the chain of its base shell. -/
theorem mem_chain (h : Recorded procs a) {q : Proc} (hq : q ∈ procs) :
    ∃ i < 7, (a.chain i).getLast? = some q.base ∧ (q.pid, q.caller) ∈ withCallers (a.chain i) := by
  obtain ⟨i, hi, hlast⟩ := h.based q hq
  refine ⟨i, hi, hlast, ?_⟩
  rw [← h.members i hi q.base hlast]
  exact List.mem_map.mpr ⟨q, List.mem_filter.mpr ⟨hq, by simp⟩, rfl⟩

/-- The processes of the chains are alive. -/
theorem live (h : Recorded procs a) {i p : Nat} (hi : i < 7) (hp : p ∈ a.chain i) :
    Live procs p := by
  have hlast := List.getLast?_eq_some_getLast (List.ne_nil_of_mem hp)
  obtain ⟨c, hc⟩ := exists_withCallers hp
  rw [← h.members i hi _ hlast] at hc
  obtain ⟨q, hq, hqp⟩ := List.mem_map.mp hc
  exact ⟨q, List.mem_of_mem_filter hq, congrArg Prod.fst hqp⟩

theorem baseOf_eq (h : Recorded procs a) {i p b : Nat} (hi : i < 7) (hp : p ∈ a.chain i)
    (hlast : (a.chain i).getLast? = some b) : baseOf procs p = some b := by
  obtain ⟨q, hq, hpid, hbase⟩ := exists_baseOf (h.live hi hp)
  obtain ⟨j, hj, hlast', hmem⟩ := h.mem_chain hq
  have hpj : p ∈ a.chain j := hpid ▸ mem_of_mem_withCallers hmem
  obtain rfl := h.disjoint hi hj hp hpj
  rw [hbase, ← hlast', hlast]

theorem last_update {chain : Nat → List Nat} {i : Nat} {l : List Nat}
    (h : l.getLast? = (chain i).getLast?) (j : Nat) :
    (Function.update chain i l j).getLast? = (chain j).getLast? := by
  by_cases hji : j = i
  · rw [hji, Function.update_self, h]
  · rw [Function.update_of_ne hji]

/-- The record follows a change of one chain that keeps its base shell. -/
theorem update (h : Recorded procs a) {b : Chains} {procs' : List Proc} {i : Nat} {l : List Nat}
    (hused : min b.used 3 = min a.used 3)
    (hchain : b.chain = Function.update a.chain i l)
    (hlast : l.getLast? = (a.chain i).getLast?)
    (hmembers : ∀ c, (a.chain i).getLast? = some c → Process.members procs' c = withCallers l)
    (hothers : ∀ j < 7, j ≠ i → ∀ c, (a.chain j).getLast? = some c →
      Process.members procs' c = Process.members procs c)
    (hbased : ∀ q ∈ procs', ∃ j < 7, (a.chain j).getLast? = some q.base) : Recorded procs' b := by
  have hlasts : ∀ j, (b.chain j).getLast? = (a.chain j).getLast? := by
    intro j
    rw [hchain]
    exact last_update hlast j
  refine ⟨fun c h1 hc => ?_, fun j hj j' hj' c hc hc' => ?_, fun j hj c hc => ?_, fun q hq => ?_⟩
  · obtain ⟨j, hj, hjc⟩ := h.base c h1 (hused ▸ hc)
    exact ⟨j, hj, by rw [hlasts j]; exact hjc⟩
  · rw [hlasts] at hc hc'
    exact h.once j hj j' hj' c hc hc'
  · rw [hlasts] at hc
    by_cases hji : j = i
    · rw [hji] at hc
      rw [hji, hchain, Function.update_self]
      exact hmembers c hc
    · rw [hchain, Function.update_of_ne hji, hothers j hj hji c hc]
      exact h.members j hj c hc
  · obtain ⟨j, hj, hjq⟩ := hbased q hq
    exact ⟨j, hj, by rw [hlasts j]; exact hjq⟩

theorem switch (h : Recorded procs a) {i : Nat} (hi : i < 7) (hbusy : a.chain i ≠ []) :
    Recorded procs (a.switch i hi hbusy) :=
  ⟨h.base, h.once, h.members, h.based⟩

/-- A new child is recorded under the process that runs and its base shell. -/
theorem push (h : Recorded procs a) {i b : Nat} {rest : List Nat} (hi : i < 7)
    (hbusy : a.chain i ≠ []) (h3 : 3 ≤ a.used) (h7 : a.used < 7)
    (hhead : a.chain i = a.running :: rest) (hlast : (a.chain i).getLast? = some b) :
    Recorded ({ pid := a.used + 1, caller := some a.running, base := b } :: procs)
      (a.push i hi hbusy h3 h7) := by
  have hpush : ((a.used + 1) :: a.chain i).getLast? = (a.chain i).getLast? := by
    rw [hhead, List.getLast?_cons_cons]
  refine h.update ?_ rfl hpush (fun c hc => ?_) (fun j hj hji c hc => ?_) (fun q hq => ?_)
  · show min (a.used + 1) 3 = min a.used 3
    omega
  · rw [hlast] at hc
    cases hc
    rw [members_cons, if_pos rfl, h.members i hi b hlast, withCallers, hhead]
    rfl
  · rw [members_cons, if_neg]
    intro hbc
    have hbc' : b = c := hbc
    rw [← hbc'] at hc
    exact hji (h.once j hj i hi b hc hlast)
  · rcases List.mem_cons.mp hq with rfl | hold
    · exact ⟨i, hi, hlast⟩
    · exact h.based q hold

/-- The exit of the running child takes its record away. -/
theorem exit (h : Recorded procs a) {p : Nat} {rest : List Nat}
    (hchain : a.chain a.current = a.running :: p :: rest) :
    Recorded (afterHalt procs (some a.running)) (a.exit p rest hchain) := by
  have hlast : (p :: rest).getLast? = (a.chain a.current).getLast? := by
    rw [hchain, List.getLast?_cons_cons]
  have hnodup := a.nodup a.current a.current_lt
  rw [hchain] at hnodup
  have hnew : a.running ∉ p :: rest := (List.nodup_cons.mp hnodup).1
  refine h.update rfl rfl hlast (fun c hc => ?_) (fun j hj hji c hc => ?_)
    (fun q hq => h.based q (List.mem_of_mem_filter hq))
  · rw [members_afterHalt, h.members a.current a.current_lt c hc, hchain, withCallers,
      List.filter_cons_of_neg (by simp), filter_withCallers hnew]
  · rw [members_afterHalt, h.members j hj c hc]
    refine filter_withCallers fun hmem => hji ?_
    exact h.disjoint hj a.current_lt hmem a.running_mem

/-- No process of the record has a base shell yet to start. -/
theorem members_next (h : Recorded procs a) : Process.members procs (a.used + 1) = [] := by
  refine List.map_eq_nil_iff.mpr (List.filter_eq_nil_iff.mpr fun q hq => ?_)
  obtain ⟨j, hj, hjq⟩ := h.based q hq
  have := last_le_used hj hjq
  simp only [beq_iff_eq]
  omega

/-- A new base shell starts a record of its own. -/
theorem start (h : Recorded procs a) {i : Nat} (hi : i < 7) (h3 : a.used + 1 ≤ 3)
    (hempty : a.chain i = []) :
    Recorded ({ pid := a.used + 1, caller := none, base := a.used + 1 } :: procs)
      (a.start i (a.used + 1) (a.used + 1) hi (by omega) h3 le_rfl (by omega) (by omega)) := by
  have hnew : (Function.update a.chain i [a.used + 1] i).getLast? = some (a.used + 1) := by
    rw [Function.update_self]
    rfl
  refine ⟨fun c h1 hc => ?_, fun j hj j' hj' c hc hc' => ?_, fun j hj c hc => ?_, fun q hq => ?_⟩
  · have hc' : c ≤ min (a.used + 1) 3 := hc
    by_cases hcn : c = a.used + 1
    · exact ⟨i, hi, hcn ▸ hnew⟩
    · obtain ⟨j, hj, hjc⟩ := h.base c h1 (by omega)
      exact ⟨j, hj, last_start_of_old hempty hjc⟩
  · rcases last_start_cases hc with ⟨rfl, hcn⟩ | ⟨_, hold₁⟩
    · rcases last_start_cases hc' with ⟨rfl, _⟩ | ⟨_, hold₂⟩
      · rfl
      · have := last_le_used hj' hold₂
        omega
    · rcases last_start_cases hc' with ⟨_, hcn⟩ | ⟨_, hold₂⟩
      · have := last_le_used hj hold₁
        omega
      · exact h.once j hj j' hj' c hold₁ hold₂
  · show _ = withCallers (Function.update a.chain i [a.used + 1] j)
    rw [members_cons]
    rcases last_start_cases hc with ⟨rfl, hcn⟩ | ⟨hji, hold⟩
    · rw [if_pos hcn.symm, hcn, h.members_next, Function.update_self]
      rfl
    · have := last_le_used hj hold
      rw [if_neg (by show a.used + 1 ≠ c; omega), Function.update_of_ne hji]
      exact h.members j hj c hold
  · rcases List.mem_cons.mp hq with rfl | hq'
    · exact ⟨i, hi, hnew⟩
    · obtain ⟨j, hj, hjq⟩ := h.based q hq'
      exact ⟨j, hj, last_start_of_old hempty hjq⟩

end Recorded

theorem recorded_first :
    Recorded [{ pid := 1, caller := none, base := 1 }] Chains.first := by
  have hlast : ∀ i b, (Chains.first.chain i).getLast? = some b → i = 0 ∧ b = 1 := by
    intro i b hb
    by_cases hi : i = 0
    · rw [hi] at hb
      exact ⟨hi, (Option.some.inj hb).symm⟩
    · simp [Chains.first, hi] at hb
  refine ⟨fun b h1 hb => ?_, fun i _ j _ b hi hj => ?_, fun i _ b hb => ?_, fun q hq => ?_⟩
  · have hb1 : b ≤ min 1 3 := hb
    refine ⟨0, by omega, ?_⟩
    rw [show b = 1 by omega]
    rfl
  · exact (hlast i b hi).1.trans (hlast j b hj).1.symm
  · obtain ⟨rfl, rfl⟩ := hlast i b hb
    rfl
  · rw [List.mem_singleton.mp hq]
    exact ⟨0, by omega, rfl⟩

end LinuxBasedOS.Process
