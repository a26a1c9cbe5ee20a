import Mathlib.Order.Basic

/-!
# Programs with loops

A program reads and changes a state, gives a result, and may not come back: `StateT σ Option α`.
`Meets` says that it comes back, and with what; there is one rule for each way to put programs
together. A loop is run in a number of turns, and `Meets.loop` is the rule for it: an invariant, and
a number that gets smaller with every turn but the last.
-/

namespace Loops

variable {σ α β ρ : Type}

/-- From the state, the program comes back with a result and a state that meet `post`. -/
def Meets (p : StateT σ Option α) (s : σ) (post : α → σ → Prop) : Prop :=
  ∃ a s', p.run s = some (a, s') ∧ post a s'

/-- A loop, in at most `n` turns. A turn that gives a result is the last one. -/
def loop (body : StateT σ Option (Option ρ)) : Nat → StateT σ Option ρ
  | 0 => fun _ => none
  | n + 1 => do
    match ← body with
    | some r => pure r
    | none => loop body n

variable {p : StateT σ Option α} {k : α → StateT σ Option β} {s s' : σ} {a : α}
variable {post : α → σ → Prop} {post' : β → σ → Prop}

theorem Meets.of_run (h : p.run s = some (a, s')) (hpost : post a s') : Meets p s post :=
  ⟨a, s', h, hpost⟩

theorem Meets.pure (h : post a s) : Meets (pure a) s post :=
  ⟨a, s, rfl, h⟩

theorem Meets.imp {weaker : α → σ → Prop} (h : Meets p s post)
    (himp : ∀ a s', post a s' → weaker a s') : Meets p s weaker := by
  obtain ⟨a, s', hrun, hpost⟩ := h
  exact ⟨a, s', hrun, himp a s' hpost⟩

theorem Meets.bind (h : Meets p s fun a s' => Meets (k a) s' post') :
    Meets (p >>= k) s post' := by
  obtain ⟨a, s', hp, b, s'', hk, hpost⟩ := h
  refine ⟨b, s'', ?_, hpost⟩
  rw [StateT.run_bind, hp]
  exact hk

/-- A program whose result is known, and what comes after it. -/
theorem Meets.call (h : p.run s = some (a, s')) (hk : Meets (k a) s' post') :
    Meets (p >>= k) s post' :=
  Meets.bind (Meets.of_run h hk)

/-- What a turn of a loop has to do: to leave with `post`, or to go on with the invariant and a
smaller measure. -/
def Keeps (I : σ → Prop) (measure : σ → Nat) (post : ρ → σ → Prop) (s : σ) :
    Option ρ → σ → Prop
  | some r, s' => post r s'
  | none, s' => I s' ∧ measure s' < measure s

/-- The rule for loops: more turns than the measure says are enough. -/
theorem Meets.loop {body : StateT σ Option (Option ρ)} {I : σ → Prop} {measure : σ → Nat}
    {post : ρ → σ → Prop} (hbody : ∀ s, I s → Meets body s (Keeps I measure post s)) {n : Nat}
    (hs : I s) (hn : measure s < n) : Meets (loop body n) s post := by
  induction n generalizing s with
  | zero => omega
  | succ n ih =>
    obtain ⟨result, t, hrun, hkeeps⟩ := hbody s hs
    refine Meets.call hrun ?_
    cases result with
    | some r => exact Meets.pure hkeeps
    | none =>
      obtain ⟨ht, hless⟩ := hkeeps
      exact ih ht (by omega)

end Loops
