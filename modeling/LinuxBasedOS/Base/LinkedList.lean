import Mathlib.Data.List.Nodup
import Mathlib.Logic.Function.Basic

/-!
# Linked lists

`Linked next p nodes` says that the nodes in order are those that one meets from the pointer `p`
on, each at the link of the one before, until a link that is empty. The cells of a list are its
head and the links of its nodes: `none` is the head.

`search`, `findCell` and `walk` are the loops over a linked list: they look for a node, look for the
cell that points at a node, and visit every node. Each has a number of turns, and `none` says that
it was not enough or that an empty link was followed. On a list with fewer nodes than turns they
come to their end.
-/

namespace LinkedList

variable {α σ : Type}

def Linked (next : α → Option α) : Option α → List α → Prop
  | p, [] => p = none
  | p, a :: nodes => p = some a ∧ Linked next (next a) nodes

/-- The content of a cell. -/
def readCell (head : Option α) (next : α → Option α) : Option α → Option α
  | none => head
  | some a => next a

/-! ## Loops -/

def search (next : α → Option α) (test : α → Bool) : Nat → Option α → Option (Option α)
  | 0, _ => none
  | _ + 1, none => some none
  | fuel + 1, some a => if test a then some (some a) else search next test fuel (next a)

/-- From a cell on, the cell that points at `target`. -/
def findCell [DecidableEq α] (head : Option α) (next : α → Option α) (target : α) :
    Nat → Option α → Option (Option α)
  | 0, _ => none
  | fuel + 1, cell =>
    if readCell head next cell = some target then some cell
    else (readCell head next cell).bind fun a => findCell head next target fuel (some a)

/-- Visit the nodes; the link is read after the visit. -/
def walk (visit : σ → α → σ) (next : σ → α → Option α) : Nat → σ → Option α → Option σ
  | 0, _, _ => none
  | _ + 1, s, none => some s
  | fuel + 1, s, some a => walk visit next fuel (visit s a) (next (visit s a) a)

/-! ## Links -/

section Links

variable {next next' : α → Option α} {p : Option α} {nodes nodes' : List α} {a : α}

theorem linked_congr (h : ∀ a ∈ nodes, next' a = next a) :
    Linked next' p nodes ↔ Linked next p nodes := by
  induction nodes generalizing p with
  | nil => exact Iff.rfl
  | cons a nodes ih =>
    rw [List.forall_mem_cons] at h
    rw [Linked, Linked, h.1, ih h.2]

theorem Linked.unique (h : Linked next p nodes) (h' : Linked next p nodes') : nodes = nodes' := by
  induction nodes generalizing p nodes' with
  | nil =>
    cases nodes' with
    | nil => rfl
    | cons a' nodes' =>
      rw [show p = none from h] at h'
      cases h'.1
  | cons a nodes ih =>
    obtain ⟨rfl, hrest⟩ := h
    cases nodes' with
    | nil => cases h'
    | cons a' nodes' =>
      obtain ⟨hsame, hrest'⟩ := h'
      cases hsame
      rw [ih hrest hrest']

variable [DecidableEq α]

/-- A new node in front. -/
theorem Linked.push (h : Linked next p nodes) (ha : a ∉ nodes) :
    Linked (Function.update next a p) (some a) (a :: nodes) := by
  refine ⟨rfl, ?_⟩
  rw [Function.update_self, linked_congr]
  · exact h
  · intro b hb
    refine Function.update_of_ne ?_ _ _
    rintro rfl
    exact ha hb

/-- A node taken out by the link of the one before it. -/
theorem Linked.unlink {first : List α} {b : α} (h : Linked next p (first ++ b :: a :: nodes))
    (hnodup : (first ++ b :: a :: nodes).Nodup) :
    Linked (Function.update next b (next a)) p (first ++ b :: nodes) := by
  induction first generalizing p with
  | nil =>
    obtain ⟨hb, -, hrest⟩ := h
    rw [List.nil_append, List.nodup_cons] at hnodup
    refine ⟨hb, ?_⟩
    rw [Function.update_self, linked_congr]
    · exact hrest
    · intro c hc
      refine Function.update_of_ne ?_ _ _
      rintro rfl
      exact hnodup.1 (List.mem_cons_of_mem _ hc)
  | cons c first ih =>
    rw [List.cons_append, List.nodup_cons] at hnodup
    have hne : c ≠ b := by
      rintro rfl
      exact hnodup.1 (List.mem_append_right _ List.mem_cons_self)
    refine ⟨h.1, ?_⟩
    rw [Function.update_of_ne hne]
    exact ih h.2 hnodup.2

end Links

/-! ## Loops on a list -/

section Loops

variable {next : α → Option α} {p : Option α} {nodes : List α} {fuel : Nat}

theorem search_eq (h : Linked next p nodes) (test : α → Bool) (hfuel : nodes.length < fuel) :
    search next test fuel p = some (nodes.find? test) := by
  induction nodes generalizing p fuel with
  | nil =>
    obtain ⟨fuel, rfl⟩ := Nat.exists_eq_add_one.mpr hfuel
    rw [show p = none from h]
    rfl
  | cons a nodes ih =>
    obtain ⟨fuel, rfl⟩ := Nat.exists_eq_add_one.mpr (Nat.zero_lt_of_lt hfuel)
    obtain ⟨rfl, hrest⟩ := h
    rw [search, ih hrest (Nat.lt_of_succ_lt_succ hfuel), List.find?_cons]
    cases test a <;> rfl

theorem findCell_eq [DecidableEq α] {a : α} (head : Option α) (cell : Option α)
    {first : List α} (h : Linked next (readCell head next cell) (first ++ a :: nodes))
    (ha : a ∉ first) (hfuel : first.length < fuel) :
    findCell head next a fuel cell = some (first.getLast?.or cell) := by
  induction first generalizing cell fuel with
  | nil =>
    obtain ⟨fuel, rfl⟩ := Nat.exists_eq_add_one.mpr hfuel
    rw [findCell, if_pos h.1]
    rfl
  | cons b first ih =>
    obtain ⟨fuel, rfl⟩ := Nat.exists_eq_add_one.mpr (Nat.zero_lt_of_lt hfuel)
    rw [List.mem_cons, not_or] at ha
    obtain ⟨hb, hrest⟩ := h
    have hne : ¬ some b = some a := fun hsame => ha.1 (Option.some.inj hsame).symm
    rw [findCell, hb, if_neg hne, Option.bind_some,
      ih (some b) hrest ha.2 (Nat.lt_of_succ_lt_succ hfuel)]
    cases first with
    | nil => rfl
    | cons c first =>
      rw [List.getLast?_cons_cons, List.getLast?_eq_getLast_of_ne_nil (List.cons_ne_nil c first)]
      rfl

/-- A walk whose visits do not change the links visits every node in order. -/
theorem walk_eq {visit : σ → α → σ} {next : σ → α → Option α} {s : σ}
    (hvisit : ∀ s a, next (visit s a) = next s) (h : Linked (next s) p nodes)
    (hfuel : nodes.length < fuel) : walk visit next fuel s p = some (nodes.foldl visit s) := by
  induction nodes generalizing p fuel s with
  | nil =>
    obtain ⟨fuel, rfl⟩ := Nat.exists_eq_add_one.mpr hfuel
    rw [show p = none from h]
    rfl
  | cons a nodes ih =>
    obtain ⟨fuel, rfl⟩ := Nat.exists_eq_add_one.mpr (Nat.zero_lt_of_lt hfuel)
    obtain ⟨rfl, hrest⟩ := h
    rw [walk, hvisit, ih ((hvisit s a).symm ▸ hrest) (Nat.lt_of_succ_lt_succ hfuel),
      List.foldl_cons]

end Loops

end LinkedList
