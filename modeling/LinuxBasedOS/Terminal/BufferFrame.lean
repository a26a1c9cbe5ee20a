import LinuxBasedOS.Base.Transition
import LinuxBasedOS.Terminal.Reader

/-!
# The stores of a key into the line buffers

`keyboard_handler` stores through `keyboardBuffer` at two places: Backspace stores at the index
of the active terminal before it takes one from it, and a typed character is stored at the index
when that is below `BUFFER_SIZE`. The first has no bound of its own, and the index of a full line
is 128: Backspace then stores in column 128, the first byte of the next terminal's buffer.

`keyboardHandler_ownBuffer_iff` says that this is the only way in which a key reaches outside the
buffer of the active terminal, and `keys_ownBuffer_iff` says it for a sequence of keys.
-/

namespace LinuxBasedOS.Terminal

open Transition

/-! ## The stores -/

/-- The row and column of the store that Backspace makes. -/
def eraseStores (s : Terminals) (scancode : UInt8) : List (Nat × Nat) :=
  if scancode = backspaceKey ∧ 0 < s.keyboardBufferIdx s.activeTerminal then
    [(s.activeTerminal, s.keyboardBufferIdx s.activeTerminal)]
  else []

/-- The row and column of the store at the end of the handler. -/
def typeStores (s : Terminals) (scancode : UInt8) : List (Nat × Nat) :=
  if TypesChar s.flags scancode ∧ s.keyboardBufferIdx s.activeTerminal < bufferSize then
    [(s.activeTerminal, s.keyboardBufferIdx s.activeTerminal)]
  else []

/-- The stores through `keyboardBuffer` of one call of `keyboard_handler`, each in the state in
which the handler comes to it. -/
def bufferStores (s : Terminals) (scancode : UInt8) : List (Nat × Nat) :=
  eraseStores (flagKey s scancode) scancode ++ typeStores (beforeTyping s scancode) scancode

/-- The call stores in columns below 128 of the active terminal's buffer only, changes no other
byte, and no other index. -/
structure OwnBuffer (s : Terminals) (scancode : UInt8) : Prop where
  stores : ∀ row column, (row, column) ∈ bufferStores s scancode →
    row = s.activeTerminal ∧ column < bufferSize
  bytes : ∀ t i, t ≠ s.activeTerminal → i < bufferSize →
    (keyboardHandler s scancode).keyboardBuffer (bufferAt t i) = s.keyboardBuffer (bufferAt t i)
  idx : ∀ t, t ≠ s.activeTerminal →
    (keyboardHandler s scancode).keyboardBufferIdx t = s.keyboardBufferIdx t

section Stores

variable {s : Terminals} {scancode : UInt8}

theorem beforeTyping_idx (h : scancode ≠ backspaceKey) :
    (beforeTyping s scancode).keyboardBufferIdx = s.keyboardBufferIdx := by
  obtain ⟨console, terminal, heq⟩ := beforeTyping_eq s scancode
  rw [heq, eraseKey, if_neg h]
  rfl

/-- Every store is at the index that the active terminal had when the call began. -/
theorem bufferStores_cases {row column : Nat} (h : (row, column) ∈ bufferStores s scancode) :
    row = s.activeTerminal ∧ column = s.keyboardBufferIdx s.activeTerminal ∧
      (scancode = backspaceKey ∨ column < bufferSize) := by
  rcases List.mem_append.mp h with herase | htype
  · unfold eraseStores at herase
    split_ifs at herase with hkey
    · have hpair := List.mem_singleton.mp herase
      exact ⟨congrArg Prod.fst hpair, congrArg Prod.snd hpair, Or.inl hkey.1⟩
    · exact absurd herase List.not_mem_nil
  · unfold typeStores at htype
    split_ifs at htype with hkey
    · obtain ⟨htypes, hroom⟩ := hkey
      have hpair := List.mem_singleton.mp htype
      rw [beforeTyping_flags] at htypes
      have hback : scancode ≠ backspaceKey := by
        rintro rfl
        exact not_typesChar_backspace _ htypes
      have hactive : (beforeTyping s scancode).activeTerminal = s.activeTerminal := by
        rw [beforeTyping_activeTerminal, htypes.chord, Option.getD_none]
      rw [hactive, beforeTyping_idx hback] at hpair hroom
      refine ⟨congrArg Prod.fst hpair, congrArg Prod.snd hpair, Or.inr ?_⟩
      rw [show column = s.keyboardBufferIdx s.activeTerminal from congrArg Prod.snd hpair]
      exact hroom
    · exact absurd htype List.not_mem_nil

/-- Backspace stores at the index as it was before. -/
theorem mem_bufferStores_backspace (hidx : 0 < s.keyboardBufferIdx s.activeTerminal) :
    (s.activeTerminal, s.keyboardBufferIdx s.activeTerminal) ∈ bufferStores s backspaceKey := by
  refine List.mem_append_left _ ?_
  have hkey : backspaceKey = backspaceKey ∧
      0 < (flagKey s backspaceKey).keyboardBufferIdx (flagKey s backspaceKey).activeTerminal :=
    ⟨rfl, hidx⟩
  rw [eraseStores, if_pos hkey]
  exact List.mem_singleton_self _

theorem bufferAt_ne {t u i j : Nat} (htu : t ≠ u) (hi : i < bufferSize) (hj : j < bufferSize) :
    bufferAt t i ≠ bufferAt u j := by
  unfold bufferAt bufferSize at *
  intro heq
  omega

/-- The bytes of another terminal's buffer are out of reach of a store in a column below 128. -/
theorem update_bufferAt_of_ne {buffer : Nat → UInt8} {t u i j : Nat} {c : UInt8} (htu : t ≠ u)
    (hi : i < bufferSize) (hj : j < bufferSize) :
    Function.update buffer (bufferAt u j) c (bufferAt t i) = buffer (bufferAt t i) :=
  Function.update_of_ne (bufferAt_ne htu hi hj) _ _

theorem ownBuffer_of_room
    (h : ¬ (scancode = backspaceKey ∧ bufferSize ≤ s.keyboardBufferIdx s.activeTerminal)) :
    OwnBuffer s scancode := by
  have hidx : scancode = backspaceKey → s.keyboardBufferIdx s.activeTerminal < bufferSize := by
    intro hkey
    by_contra hfull
    exact h ⟨hkey, Nat.le_of_not_lt hfull⟩
  have heffect := keyboardHandler_buffers s scancode
  refine ⟨?_, ?_, ?_⟩
  · intro row column hmem
    obtain ⟨hrow, hcolumn, hroom⟩ := bufferStores_cases hmem
    refine ⟨hrow, ?_⟩
    rcases hroom with hkey | hroom
    · rw [hcolumn]
      exact hidx hkey
    · exact hroom
  · intro t i ht hi
    generalize (keyboardHandler s scancode).keyboardBuffer = buffer at heffect ⊢
    generalize (keyboardHandler s scancode).keyboardBufferIdx = idx at heffect
    cases heffect with
    | erased hkey hpos => exact update_bufferAt_of_ne ht hi (hidx hkey)
    | typed hkey hroom => exact update_bufferAt_of_ne ht hi hroom
    | unchanged hfull => rfl
  · intro t ht
    generalize (keyboardHandler s scancode).keyboardBuffer = buffer at heffect
    generalize (keyboardHandler s scancode).keyboardBufferIdx = idx at heffect ⊢
    cases heffect with
    | erased hkey hpos => exact Function.update_of_ne ht _ _
    | typed hkey hroom => exact Function.update_of_ne ht _ _
    | unchanged hfull => rfl

/-- A key keeps to the buffer of the active terminal unless it is Backspace on a full line. -/
theorem keyboardHandler_ownBuffer_iff :
    OwnBuffer s scancode ↔
      ¬ (scancode = backspaceKey ∧ bufferSize ≤ s.keyboardBufferIdx s.activeTerminal) := by
  constructor
  · rintro hown ⟨hkey, hfull⟩
    have hpos : 0 < s.keyboardBufferIdx s.activeTerminal := Nat.lt_of_lt_of_le (by decide) hfull
    have hmem := mem_bufferStores_backspace hpos
    rw [← hkey] at hmem
    have hlt := (hown.stores _ _ hmem).2
    omega
  · exact ownBuffer_of_room

end Stores

/-! ## Sequences of keys -/

def handle (s : Terminals) (scancode : UInt8) : Option Terminals := some (keyboardHandler s scancode)

/-- Backspace does not find the line of the active terminal full. -/
def ErasesInside (s : Terminals) (scancode : UInt8) : Prop :=
  ¬ (scancode = backspaceKey ∧ bufferSize ≤ s.keyboardBufferIdx s.activeTerminal)

/-- From any state and for any keys, every call keeps to the buffer of the terminal that is
active when it begins exactly when no Backspace comes while that terminal's line is full. -/
theorem keys_ownBuffer_iff (s : Terminals) (scancodes : List UInt8) :
    Along handle OwnBuffer s scancodes ↔ Along handle ErasesInside s scancodes :=
  along_iff_of_invariant (I := fun _ => True) (fun _ _ _ _ _ => trivial)
    (fun _ _ _ => keyboardHandler_ownBuffer_iff) trivial

/-! ## A full line -/

def keyA : UInt8 := 30

/-- No key is held. -/
def noFlags : Flags := ⟨0, 0, 0, 0, 0, 0, 0⟩

theorem newFlags_keyA : newFlags noFlags keyA = noFlags := by decide

theorem typesChar_keyA : TypesChar (newFlags noFlags keyA) keyA := by decide

/-- A letter key goes to the end of the line of the active terminal. -/
theorem keyboardHandler_keyA {s : Terminals} (hflags : s.flags = noFlags)
    (hroom : s.keyboardBufferIdx s.activeTerminal < bufferSize) :
    (keyboardHandler s keyA).flags = noFlags ∧
      (keyboardHandler s keyA).activeTerminal = s.activeTerminal ∧
      (keyboardHandler s keyA).keyboardBufferIdx s.activeTerminal =
        s.keyboardBufferIdx s.activeTerminal + 1 := by
  have hactive := keyboardHandler_activeTerminal s keyA
  have heffect := keyboardHandler_buffers s keyA
  rw [hflags, typesChar_keyA.chord, Option.getD_none] at hactive
  refine ⟨?_, hactive, ?_⟩
  · rw [keyboardHandler_flags, hflags, newFlags_keyA]
  · generalize (keyboardHandler s keyA).keyboardBuffer = buffer at heffect
    generalize (keyboardHandler s keyA).keyboardBufferIdx = idx at heffect ⊢
    cases heffect with
    | erased hkey _ => exact absurd hkey (by decide)
    | typed _ _ => exact Function.update_self _ _ _
    | unchanged hfull =>
      have htypes : TypesChar (newFlags s.flags keyA) keyA := by
        rw [hflags]
        exact typesChar_keyA
      have hfull := hfull htypes
      omega

/-- After `k` letter keys the line of the active terminal is `k` characters longer. -/
theorem run_keyA {k : Nat} {s : Terminals} (hflags : s.flags = noFlags)
    (hroom : s.keyboardBufferIdx s.activeTerminal + k ≤ bufferSize) :
    ∃ s', run handle s (List.replicate k keyA) = some s' ∧
      s'.activeTerminal = s.activeTerminal ∧
      s'.keyboardBufferIdx s.activeTerminal = s.keyboardBufferIdx s.activeTerminal + k := by
  induction k generalizing s with
  | zero => exact ⟨s, rfl, rfl, rfl⟩
  | succ k ih =>
    obtain ⟨hflags', hactive, hidx⟩ := keyboardHandler_keyA hflags (by omega)
    have hroom' : (keyboardHandler s keyA).keyboardBufferIdx
        (keyboardHandler s keyA).activeTerminal + k ≤ bufferSize := by
      rw [hactive, hidx]
      omega
    obtain ⟨s', hrun, hactive', hidx'⟩ := ih hflags' hroom'
    rw [hactive] at hactive' hidx'
    refine ⟨s', run_cons.mpr ⟨keyboardHandler s keyA, rfl, hrun⟩, hactive', ?_⟩
    rw [hidx', hidx]
    omega

/-- On terminal 0, with nothing typed before: 128 letters and a Backspace, which stores in column
128 of the buffer. -/
theorem fullLine_backspace_notOwnBuffer :
    ¬ Along handle OwnBuffer (startSystem 0 blankConsole 0).terminals
      (List.replicate 128 keyA ++ [backspaceKey]) := by
  intro hall
  obtain ⟨s, hrun, hactive, hidx⟩ := run_keyA (k := 128)
    (s := (startSystem 0 blankConsole 0).terminals) rfl (by decide)
  have hown := along_at hall hrun
  refine keyboardHandler_ownBuffer_iff.mp hown ⟨rfl, ?_⟩
  rw [hactive, hidx]
  decide

end LinuxBasedOS.Terminal
