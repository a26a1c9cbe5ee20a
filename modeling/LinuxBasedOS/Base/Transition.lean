import Mathlib.Data.List.Basic
import Mathlib.Logic.Function.Iterate

/-!
# Runs of partial transition functions

A system is a step function `step : σ → ε → Option σ`; an event that is not enabled, or
whose code does not come back, has no successor. `run` iterates it along a list of
events, `Along` says that every step of a run meets a condition on the state before it
and the event, and `run_invariant` is the rule by which every safety theorem of the
development is proved. `run_simulation` carries a run of one system to a run of another.
`Comes` is for machines without events.
-/

namespace Transition

variable {σ τ ε : Type}

def run (step : σ → ε → Option σ) : σ → List ε → Option σ
  | s, [] => some s
  | s, e :: es => (step s e).bind fun s' => run step s' es

/-- Every step of the run from `s` along the events meets `C`. -/
def Along (step : σ → ε → Option σ) (C : σ → ε → Prop) : σ → List ε → Prop
  | _, [] => True
  | s, e :: es => C s e ∧ match step s e with
    | none => True
    | some s' => Along step C s' es

variable {step : σ → ε → Option σ} {C : σ → ε → Prop}

instance decidableAlong [hC : ∀ s e, Decidable (C s e)] :
    ∀ (s : σ) (es : List ε), Decidable (Along step C s es)
  | _, [] => .isTrue trivial
  | s, e :: es =>
    match hC s e with
    | .isFalse h => .isFalse fun ha => h ha.1
    | .isTrue h =>
      match hs : step s e with
      | none => .isTrue ⟨h, by rw [hs]; trivial⟩
      | some s' =>
        match decidableAlong s' es with
        | .isTrue ha => .isTrue ⟨h, by rw [hs]; exact ha⟩
        | .isFalse ha => .isFalse fun hall => ha (by have := hall.2; rw [hs] at this; exact this)

theorem run_cons {s s' : σ} {e : ε} {es : List ε} :
    run step s (e :: es) = some s' ↔ ∃ t, step s e = some t ∧ run step t es = some s' := by
  simp only [run, Option.bind_eq_some_iff]

theorem along_cons {s t : σ} {e : ε} {es : List ε} (h : Along step C s (e :: es))
    (hs : step s e = some t) : C s e ∧ Along step C t es := by
  refine ⟨h.1, ?_⟩
  have h2 := h.2
  rw [hs] at h2
  exact h2

/-- A condition that holds of every step holds along every run. -/
theorem along_of_forall (h : ∀ s e, C s e) (s : σ) (es : List ε) : Along step C s es := by
  induction es generalizing s with
  | nil => trivial
  | cons e es ih =>
    refine ⟨h s e, ?_⟩
    split
    · trivial
    · exact ih _

theorem along_and {D : σ → ε → Prop} {s : σ} {es : List ε} :
    Along step (fun s e => C s e ∧ D s e) s es ↔ Along step C s es ∧ Along step D s es := by
  induction es generalizing s with
  | nil => exact (true_and _).symm.to_iff
  | cons e es ih =>
    unfold Along
    cases hs : step s e with
    | none => simp only [and_true]
    | some t =>
      dsimp only
      rw [ih, and_and_and_comm]

/-- What one admissible step keeps, every admissible run keeps. -/
theorem run_invariant {I : σ → Prop}
    (hstep : ∀ ⦃s e s'⦄, I s → C s e → step s e = some s' → I s')
    {s s' : σ} {es : List ε} (hrun : run step s es = some s') (hC : Along step C s es)
    (hs : I s) : I s' := by
  induction es generalizing s with
  | nil =>
    cases hrun
    exact hs
  | cons e es ih =>
    obtain ⟨t, ht, hrest⟩ := run_cons.mp hrun
    obtain ⟨hc, hrestC⟩ := along_cons hC ht
    exact ih hrest hrestC (hstep hs hc ht)

/-- The condition holds at every state that the run comes to. -/
theorem along_at {s t : σ} {e : ε} {es fs : List ε} (h : Along step C s (es ++ e :: fs))
    (hrun : run step s es = some t) : C t e := by
  induction es generalizing s with
  | nil =>
    cases hrun
    exact h.1
  | cons e' es ih =>
    obtain ⟨u, hu, hrest⟩ := run_cons.mp hrun
    exact ih (along_cons h hu).2 hrest

/-- What an invariant gives at one step of an admissible run, it gives at every step. -/
theorem along_of_invariant {I : σ → Prop} {D : σ → ε → Prop}
    (hstep : ∀ ⦃s e s'⦄, I s → C s e → step s e = some s' → I s')
    (hgives : ∀ ⦃s e⦄, I s → C s e → D s e)
    {s : σ} {es : List ε} (hC : Along step C s es) (hs : I s) : Along step D s es := by
  induction es generalizing s with
  | nil => trivial
  | cons e es ih =>
    refine ⟨hgives hs hC.1, ?_⟩
    cases ht : step s e with
    | none => trivial
    | some t => exact ih (along_cons hC ht).2 (hstep hs hC.1 ht)

/-- Two conditions that an invariant makes equivalent hold along the same runs. -/
theorem along_iff_of_invariant {I : σ → Prop} {D : σ → ε → Prop}
    (hstep : ∀ ⦃s e s'⦄, I s → step s e = some s' → I s')
    (hiff : ∀ ⦃s e⦄, I s → (C s e ↔ D s e)) {s : σ} {es : List ε} (hs : I s) :
    Along step C s es ↔ Along step D s es := by
  constructor
  · intro hC
    exact along_of_invariant (fun s e s' h _ ht => hstep h ht) (fun s e h hc => (hiff h).mp hc) hC hs
  · intro hD
    exact along_of_invariant (fun s e s' h _ ht => hstep h ht) (fun s e h hd => (hiff h).mpr hd) hD hs

/-- The step leads to a state with the property, if it leads anywhere. -/
def Reaches (step : σ → ε → Option σ) (P : σ → Prop) (s : σ) (e : ε) : Prop :=
  ∀ s', step s e = some s' → P s'

/-- A property of steps holds along a run exactly when a condition does: under the invariant an
admissible step has the property and keeps the invariant, and only an admissible one has it. -/
theorem along_iff_of_keep {A : σ → Prop} {D : σ → ε → Prop}
    (hkeep : ∀ ⦃s e⦄, A s → C s e → D s e ∧ Reaches step A s e)
    (hneed : ∀ ⦃s e⦄, A s → D s e → C s e) {s : σ} {es : List ε} (hs : A s) :
    Along step D s es ↔ Along step C s es := by
  constructor
  · intro h
    have hstep : ∀ ⦃s e s'⦄, A s → D s e → step s e = some s' → A s' := by
      intro s e s' ha hd ht
      exact (hkeep ha (hneed ha hd)).2 s' ht
    exact along_of_invariant hstep hneed h hs
  · intro h
    have hstep : ∀ ⦃s e s'⦄, A s → C s e → step s e = some s' → A s' := by
      intro s e s' ha hc ht
      exact (hkeep ha hc).2 s' ht
    exact along_of_invariant hstep (fun s e ha hc => (hkeep ha hc).1) h hs

/-- A property holds in every state of a run exactly when every step meets the condition: an
admissible step keeps the property (and what else the argument needs), and only an admissible
one does. -/
theorem along_reaches_iff {P A : σ → Prop}
    (hkeep : ∀ ⦃s e s'⦄, P s → A s → C s e → step s e = some s' → P s' ∧ A s')
    (hneed : ∀ ⦃s e⦄, P s → A s → Reaches step P s e → C s e) {s : σ} {es : List ε} (hs : P s)
    (ha : A s) : Along step (Reaches step P) s es ↔ Along step C s es := by
  refine along_iff_of_keep (A := fun s => P s ∧ A s) ?_ ?_ ⟨hs, ha⟩
  · rintro s e ⟨hp, ha⟩ hc
    exact ⟨fun s' ht => (hkeep hp ha hc ht).1, fun s' ht => hkeep hp ha hc ht⟩
  · rintro s e ⟨hp, ha⟩ hreaches
    exact hneed hp ha hreaches

/-- A forward simulation carries a run of the first system to a run of the second. -/
theorem run_simulation {step' : τ → ε → Option τ} {R : σ → τ → Prop}
    (hstep : ∀ ⦃s t e s'⦄, R s t → step s e = some s' → ∃ t', step' t e = some t' ∧ R s' t')
    {s s' : σ} {t : τ} {es : List ε} (hrun : run step s es = some s') (hs : R s t) :
    ∃ t', run step' t es = some t' ∧ R s' t' := by
  induction es generalizing s t with
  | nil =>
    cases hrun
    exact ⟨t, rfl, hs⟩
  | cons e es ih =>
    obtain ⟨u, hu, hrest⟩ := run_cons.mp hrun
    obtain ⟨t', ht', hR⟩ := hstep hs hu
    obtain ⟨t'', hrun', hR'⟩ := ih hrest hR
    exact ⟨t'', run_cons.mpr ⟨t', ht', hrun'⟩, hR'⟩

/-- A total step function comes to the end of every run. -/
theorem run_total (f : σ → ε → σ) (s : σ) (es : List ε) :
    run (fun s e => some (f s e)) s es = some (es.foldl f s) := by
  induction es generalizing s with
  | nil => rfl
  | cons e es ih => exact ih (f s e)

/-! ## Machines that run by themselves -/

/-- A machine with the step function `step` comes from `s` to `s'`. -/
def Comes (step : σ → σ) (s s' : σ) : Prop := ∃ k, step^[k] s = s'

namespace Comes

variable {step : σ → σ} {s s' s'' : σ}

theorem refl (s : σ) : Comes step s s := ⟨0, rfl⟩

theorem head (h : Comes step (step s) s') : Comes step s s' := by
  obtain ⟨k, hk⟩ := h
  exact ⟨k + 1, hk⟩

theorem trans (h : Comes step s s') (h' : Comes step s' s'') : Comes step s s'' := by
  obtain ⟨k, rfl⟩ := h
  obtain ⟨l, rfl⟩ := h'
  exact ⟨l + k, Function.iterate_add_apply step l k s⟩

end Comes

end Transition
