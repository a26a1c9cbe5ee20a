import Mathlib.Algebra.GroupWithZero.Nat
import Mathlib.Data.List.Basic
import Mathlib.Data.List.Induction

/-!
# Reading a list in pieces

A cursor over a list delivers, at each request, the next elements up to the request and
moves past them. A history is the list of requests with what each delivered. `Delivers`
says what each read of a history saw; what the reads gave together depends on the sum of
the requests only.
-/

namespace Cursor

variable {α : Type}

/-- The elements a request of `n` delivers from position `p`. -/
def chunk (l : List α) (p n : Nat) : List α := (l.drop p).take n

/-- The sum of the requests of a history. -/
def requested (reads : List (Nat × List α)) : Nat := (reads.map Prod.fst).sum

/-- Everything a history delivered, in order. -/
def delivered (reads : List (Nat × List α)) : List α := (reads.map Prod.snd).flatten

/-- Every read of the history delivered the chunk at the sum of the requests before it. -/
def Delivers (l : List α) (reads : List (Nat × List α)) : Prop :=
  ∀ before r after, reads = before ++ r :: after → r.2 = chunk l (requested before) r.1

theorem length_chunk (l : List α) (p n : Nat) : (chunk l p n).length = min n (l.length - p) := by
  simp [chunk]

theorem chunk_past_end {l : List α} {p : Nat} (h : l.length ≤ p) (n : Nat) : chunk l p n = [] := by
  rw [chunk, List.drop_of_length_le h, List.take_nil]

/-- What is before a position, and the chunk at it. -/
theorem take_append_chunk (l : List α) (p n : Nat) :
    l.take p ++ chunk l p n = l.take (p + (chunk l p n).length) := by
  rw [List.take_add, chunk, List.length_take, ← List.take_eq_take_min]

/-- A cursor past the end reads as one at the end. -/
theorem chunk_min (l : List α) (p n : Nat) : chunk l (min l.length p) n = chunk l p n := by
  rcases Nat.le_total p l.length with h | h
  · rw [Nat.min_eq_right h]
  · rw [Nat.min_eq_left h, chunk_past_end (Nat.le_refl _), chunk_past_end h]

@[simp] theorem requested_nil : requested ([] : List (Nat × List α)) = 0 := rfl

@[simp] theorem delivered_nil : delivered ([] : List (Nat × List α)) = [] := rfl

@[simp] theorem requested_append_singleton (reads : List (Nat × List α)) (r : Nat × List α) :
    requested (reads ++ [r]) = requested reads + r.1 := by
  simp [requested]

@[simp] theorem delivered_append_singleton (reads : List (Nat × List α)) (r : Nat × List α) :
    delivered (reads ++ [r]) = delivered reads ++ r.2 := by
  simp [delivered]

theorem delivers_nil (l : List α) : Delivers l [] := by
  intro before r after h
  simp at h

theorem delivers_append_singleton {l : List α} {reads : List (Nat × List α)} {r : Nat × List α} :
    Delivers l (reads ++ [r]) ↔ Delivers l reads ∧ r.2 = chunk l (requested reads) r.1 := by
  constructor
  · intro h
    refine ⟨fun before r' after hsplit => ?_, h reads r [] rfl⟩
    exact h before r' (after ++ [r]) (by rw [hsplit, List.append_assoc, List.cons_append])
  · rintro ⟨h, hr⟩ before r' after hsplit
    rcases List.eq_nil_or_concat after with rfl | ⟨front, last, rfl⟩
    · obtain ⟨rfl, hlast⟩ := List.append_inj' hsplit rfl
      cases hlast
      exact hr
    · rw [List.concat_eq_append, ← List.cons_append, ← List.append_assoc] at hsplit
      obtain ⟨hfront, -⟩ := List.append_inj' hsplit rfl
      exact h before r' front hfront

/-- Together the reads deliver a prefix, as long as the sum of the requests. -/
theorem delivered_eq_take {l : List α} {reads : List (Nat × List α)} (h : Delivers l reads) :
    delivered reads = l.take (requested reads) := by
  induction reads using List.reverseRecOn with
  | nil => simp
  | append_singleton reads r ih =>
    obtain ⟨hreads, hr⟩ := delivers_append_singleton.mp h
    rw [delivered_append_singleton, requested_append_singleton, ih hreads, hr, List.take_add]
    rfl

/-- After the whole list has been delivered a read delivers nothing. -/
theorem nil_of_delivered_all {l : List α} {before after : List (Nat × List α)}
    {r : Nat × List α} (h : Delivers l (before ++ r :: after)) (hall : delivered before = l) :
    r.2 = [] := by
  have hbefore : Delivers l before := fun b r' a hsplit =>
    h b r' (a ++ r :: after) (by rw [hsplit, List.append_assoc, List.cons_append])
  have htake : l.take (requested before) = l := (delivered_eq_take hbefore).symm.trans hall
  rw [h before r after rfl]
  refine chunk_past_end ?_ _
  rw [← htake, List.length_take]
  exact Nat.min_le_left _ _

end Cursor
