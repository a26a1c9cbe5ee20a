import Mathlib.Data.List.Basic
import Mathlib.Data.List.Infix

/-!
# Lines of a text

The lines of a text are the pieces between its separators, `List.splitOn`. `ended` writes lines with
a separator after each; every text is some ended lines and a tail without a separator. The lemmas
say how the lines of a text come from those of its parts, when the cut is behind a separator and
when it is inside a line.
-/

namespace Lines

variable {α : Type} {sep : α}

def ended (sep : α) (ls : List (List α)) : List α := ls.flatMap (· ++ [sep])

theorem ended_cons (l : List α) (ls : List (List α)) (text : List α) :
    ended sep (l :: ls) ++ text = l ++ sep :: (ended sep ls ++ text) := by
  unfold ended
  rw [List.flatMap_cons, List.append_assoc, List.append_assoc, List.singleton_append]

variable [DecidableEq α]

theorem exists_ended (sep : α) (text : List α) :
    ∃ ls tail, text = ended sep ls ++ tail ∧ (∀ l ∈ ls, sep ∉ l) ∧ sep ∉ tail := by
  induction text with
  | nil => exact ⟨[], [], rfl, fun l hl => absurd hl List.not_mem_nil, List.not_mem_nil⟩
  | cons c text ih =>
    obtain ⟨ls, tail, rfl, hls, htail⟩ := ih
    by_cases hc : c = sep
    · subst hc
      refine ⟨[] :: ls, tail, ?_, ?_, htail⟩
      · rw [ended_cons]
        rfl
      · rw [List.forall_mem_cons]
        exact ⟨List.not_mem_nil, hls⟩
    · cases ls with
      | nil =>
        refine ⟨[], c :: tail, rfl, fun l hl => absurd hl List.not_mem_nil, ?_⟩
        rw [List.mem_cons, not_or]
        exact ⟨Ne.symm hc, htail⟩
      | cons l ls =>
        rw [List.forall_mem_cons] at hls
        refine ⟨(c :: l) :: ls, tail, ?_, ?_, htail⟩
        · rw [ended_cons, ended_cons]
          rfl
        · rw [List.forall_mem_cons, List.mem_cons, not_or]
          exact ⟨⟨Ne.symm hc, hls.1⟩, hls.2⟩

/-- A cut behind a separator. -/
theorem splitOn_ended {ls : List (List α)} (h : ∀ l ∈ ls, sep ∉ l) (text : List α) :
    (ended sep ls ++ text).splitOn sep = ls ++ text.splitOn sep := by
  induction ls with
  | nil => rfl
  | cons l ls ih =>
    rw [List.forall_mem_cons] at h
    rw [ended_cons, List.splitOn_append_cons_self_of_not_mem h.1, ih h.2, List.cons_append]

/-- A cut inside a line. -/
theorem splitOn_append_of_not_mem {tail : List α} (htail : sep ∉ tail) (text : List α) :
    (tail ++ text).splitOn sep = (text.splitOn sep).modifyHead (tail ++ ·) := by
  induction tail with
  | nil =>
    rw [List.nil_append]
    cases text.splitOn sep <;> rfl
  | cons c tail ih =>
    rw [List.mem_cons, not_or] at htail
    rw [List.cons_append, List.splitOn_cons_eq_if_modifyHead, if_neg (by simpa using Ne.symm htail.1),
      ih htail.2, List.modifyHead_modifyHead]
    rfl

theorem exists_splitOn (sep : α) (text : List α) :
    ∃ first rest, text.splitOn sep = first :: rest :=
  List.exists_cons_of_ne_nil (List.splitOn_ne_nil sep text)

/-- What is in a line is in the text. -/
theorem mem_of_mem_splitOn {text l : List α} {c : α} (hl : l ∈ text.splitOn sep) (hc : c ∈ l) :
    c ∈ text := by
  obtain ⟨ls, tail, rfl, hls, htail⟩ := exists_ended sep text
  rw [splitOn_ended hls, List.splitOn_eq_singleton htail] at hl
  rcases List.mem_append.mp hl with hended | hlast
  · exact List.mem_append_left _ (List.mem_flatMap.mpr ⟨l, hended, List.mem_append_left _ hc⟩)
  · rw [List.mem_singleton.mp hlast] at hc
    exact List.mem_append_right _ hc

end Lines
