import LinuxBasedOS.Terminal.Keyboard

/-!
# What a key does to the line buffers

`BufferEffect` lists the three things that `keyboard_handler` can do to the line buffers, and
`keyboardHandler_buffers` says that it does one of them. The results about lines use these and
the fields of `keyboardHandler`; none of them unfolds the handler.
-/

namespace LinuxBasedOS.Terminal

open Lib

/-! ## The keys -/

/-- The line buffer of a terminal up to its index. -/
def bufferText (s : Terminals) (terminal : Nat) : List UInt8 :=
  (List.range (s.keyboardBufferIdx terminal)).map fun i => s.keyboardBuffer (bufferAt terminal i)

theorem length_bufferText (s : Terminals) (t : Nat) :
    (bufferText s t).length = s.keyboardBufferIdx t := by
  rw [bufferText, List.length_map, List.length_range]

theorem lookedChar_backspace (k : Flags) : lookedChar k backspaceKey = 0 := by
  have hlook : lookupChar k backspaceKey = 0 := by
    unfold lookupChar
    split
    · split <;> rfl
    · split <;> rfl
  unfold lookedChar
  rw [hlook, ite_self, ite_self]

theorem lookedChar_enter (k : Flags) : lookedChar k enterKey = newline := by
  have hlook : lookupChar k enterKey = newline := by
    unfold lookupChar
    split
    · split <;> rfl
    · split <;> rfl
  unfold lookedChar
  rw [hlook]
  rfl

theorem not_typesChar_backspace (k : Flags) : ¬ TypesChar k backspaceKey := by
  intro h
  refine h.1 ?_
  unfold returnChar
  rw [lookedChar_backspace, ite_self, ite_self]

theorem returnChar_enter {k : Flags} (h : chord k = none) : returnChar k enterKey = newline := by
  have hclear : clearsScreen k enterKey = false := by
    rw [clearsScreen, lookedChar_enter]
    exact Bool.and_false _
  rw [returnChar, h, hclear, lookedChar_enter]
  rfl

/-- While a chord is held no character is typed. -/
theorem TypesChar.chord {k : Flags} {scancode : UInt8} (h : TypesChar k scancode) :
    chord k = none := by
  cases hc : Terminal.chord k with
  | none => rfl
  | some t =>
    refine absurd ?_ h.1
    rw [returnChar, hc]
    rfl

/-- The state in which the handler comes to its last stage. -/
def beforeTyping (s : Terminals) (scancode : UInt8) : Terminals :=
  switchTerminal (clearScreen (tabulate (eraseKey (flagKey s scancode) scancode) scancode) scancode)

theorem eraseLast_of_pos {s : Terminals} (h : 0 < s.keyboardBufferIdx s.activeTerminal) :
    eraseLast s =
      { s with
        console := backspace s.console s.activeTerminal
        keyboardBuffer := Function.update s.keyboardBuffer
          (bufferAt s.activeTerminal (s.keyboardBufferIdx s.activeTerminal)) 0
        keyboardBufferIdx := Function.update s.keyboardBufferIdx s.activeTerminal
          (s.keyboardBufferIdx s.activeTerminal - 1) } :=
  if_pos h

theorem eraseLast_of_not_pos {s : Terminals} (h : ¬ 0 < s.keyboardBufferIdx s.activeTerminal) :
    eraseLast s = s :=
  if_neg h

theorem typeChar_of_room {s : Terminals} {c : UInt8}
    (h : s.keyboardBufferIdx s.activeTerminal < bufferSize) :
    typeChar s c =
      { s with
        console := putc s.console c s.activeTerminal
        keyboardBuffer := Function.update s.keyboardBuffer
          (bufferAt s.activeTerminal (s.keyboardBufferIdx s.activeTerminal)) c
        keyboardBufferIdx := Function.update s.keyboardBufferIdx s.activeTerminal
          (s.keyboardBufferIdx s.activeTerminal + 1) } := by
  simp only [typeChar, if_pos h]

theorem typeChar_of_full {s : Terminals} {c : UInt8}
    (h : ¬ s.keyboardBufferIdx s.activeTerminal < bufferSize) :
    typeChar s c = { s with console := putc s.console c s.activeTerminal } := by
  simp only [typeChar, if_neg h]

section Stages

variable (s : Terminals) (scancode : UInt8)

theorem keyboardHandler_eq : keyboardHandler s scancode = typeKey (beforeTyping s scancode) scancode :=
  rfl

/-- The stages between Backspace and the line buffer print, and may switch the terminal. -/
theorem beforeTyping_eq : ∃ console terminal,
    beforeTyping s scancode =
      { eraseKey (flagKey s scancode) scancode with console := console, activeTerminal := terminal } := by
  unfold beforeTyping switchTerminal clearScreen tabulate
  split_ifs
  · exact ⟨_, _, rfl⟩
  · exact ⟨_, _, rfl⟩
  · exact ⟨_, _, rfl⟩
  · exact ⟨_, _, rfl⟩

theorem eraseKey_flags : (eraseKey s scancode).flags = s.flags := by
  unfold eraseKey eraseLast
  dsimp only
  split_ifs <;> rfl

theorem eraseKey_enterStatus : (eraseKey s scancode).enterStatus = s.enterStatus := by
  unfold eraseKey eraseLast
  dsimp only
  split_ifs <;> rfl

theorem eraseKey_activeTerminal : (eraseKey s scancode).activeTerminal = s.activeTerminal := by
  unfold eraseKey eraseLast
  dsimp only
  split_ifs <;> rfl

theorem tabulate_flags : (tabulate s scancode).flags = s.flags := by
  unfold tabulate
  split_ifs <;> rfl

theorem tabulate_activeTerminal : (tabulate s scancode).activeTerminal = s.activeTerminal := by
  unfold tabulate
  split_ifs <;> rfl

theorem beforeTyping_flags : (beforeTyping s scancode).flags = newFlags s.flags scancode := by
  obtain ⟨console, terminal, h⟩ := beforeTyping_eq s scancode
  rw [h]
  exact eraseKey_flags _ _

theorem beforeTyping_enterStatus :
    (beforeTyping s scancode).enterStatus = if scancode = enterKey then 1 else s.enterStatus := by
  obtain ⟨console, terminal, h⟩ := beforeTyping_eq s scancode
  rw [h]
  exact eraseKey_enterStatus _ _

theorem beforeTyping_activeTerminal :
    (beforeTyping s scancode).activeTerminal =
      (chord (newFlags s.flags scancode)).getD s.activeTerminal := by
  have hflags := eraseKey_flags (flagKey s scancode) scancode
  have hactive := eraseKey_activeTerminal (flagKey s scancode) scancode
  unfold beforeTyping switchTerminal clearScreen tabulate
  split_ifs <;> simp only [hflags, hactive] <;> rfl

theorem typeKey_enterStatus : (typeKey s scancode).enterStatus = s.enterStatus := by
  unfold typeKey typeChar
  dsimp only
  split_ifs <;> rfl

theorem typeKey_activeTerminal : (typeKey s scancode).activeTerminal = s.activeTerminal := by
  unfold typeKey typeChar
  dsimp only
  split_ifs <;> rfl

theorem typeKey_flags : (typeKey s scancode).flags = s.flags := by
  unfold typeKey typeChar
  dsimp only
  split_ifs <;> rfl

end Stages

section Handler

variable (s : Terminals) (scancode : UInt8)

/-- Only Enter sets `enterStatus`, and no key clears it. -/
theorem keyboardHandler_enterStatus :
    (keyboardHandler s scancode).enterStatus = if scancode = enterKey then 1 else s.enterStatus := by
  rw [keyboardHandler_eq, typeKey_enterStatus]
  exact beforeTyping_enterStatus s scancode

theorem keyboardHandler_flags : (keyboardHandler s scancode).flags = newFlags s.flags scancode := by
  rw [keyboardHandler_eq, typeKey_flags]
  exact beforeTyping_flags s scancode

theorem keyboardHandler_activeTerminal :
    (keyboardHandler s scancode).activeTerminal =
      (chord (newFlags s.flags scancode)).getD s.activeTerminal := by
  rw [keyboardHandler_eq, typeKey_activeTerminal]
  exact beforeTyping_activeTerminal s scancode

/-- What a key does to the line buffers: Backspace takes the last character away, a key with a
character adds it when there is room, and any other key leaves the buffers alone. -/
inductive BufferEffect : (Nat → UInt8) → (Nat → Nat) → Prop where
  | erased (hkey : scancode = backspaceKey)
      (hidx : 0 < s.keyboardBufferIdx s.activeTerminal) :
      BufferEffect
        (Function.update s.keyboardBuffer
          (bufferAt s.activeTerminal (s.keyboardBufferIdx s.activeTerminal)) 0)
        (Function.update s.keyboardBufferIdx s.activeTerminal
          (s.keyboardBufferIdx s.activeTerminal - 1))
  | typed (hkey : TypesChar (newFlags s.flags scancode) scancode)
      (hidx : s.keyboardBufferIdx s.activeTerminal < bufferSize) :
      BufferEffect
        (Function.update s.keyboardBuffer
          (bufferAt s.activeTerminal (s.keyboardBufferIdx s.activeTerminal))
          (returnChar (newFlags s.flags scancode) scancode))
        (Function.update s.keyboardBufferIdx s.activeTerminal
          (s.keyboardBufferIdx s.activeTerminal + 1))
  | unchanged
      (hfull : TypesChar (newFlags s.flags scancode) scancode →
        bufferSize ≤ s.keyboardBufferIdx s.activeTerminal) :
      BufferEffect s.keyboardBuffer s.keyboardBufferIdx

theorem keyboardHandler_buffers :
    BufferEffect s scancode (keyboardHandler s scancode).keyboardBuffer
      (keyboardHandler s scancode).keyboardBufferIdx := by
  have hflags := beforeTyping_flags s scancode
  have hactive := beforeTyping_activeTerminal s scancode
  obtain ⟨console, terminal, heq⟩ := beforeTyping_eq s scancode
  rw [keyboardHandler_eq]
  by_cases hback : scancode = backspaceKey
  · have hnot : ¬ TypesChar (beforeTyping s scancode).flags scancode := by
      rw [hback]
      exact not_typesChar_backspace _
    rw [typeKey, if_neg hnot, heq, eraseKey, if_pos hback]
    by_cases hidx : 0 < s.keyboardBufferIdx s.activeTerminal
    · rw [eraseLast_of_pos (s := flagKey s scancode) hidx]
      exact .erased hback hidx
    · have hnone : TypesChar (newFlags s.flags scancode) scancode →
          bufferSize ≤ s.keyboardBufferIdx s.activeTerminal := by
        rw [hback]
        exact fun htypes => absurd htypes (not_typesChar_backspace _)
      rw [eraseLast_of_not_pos (s := flagKey s scancode) hidx]
      exact .unchanged hnone
  · have hplain : beforeTyping s scancode =
        { flagKey s scancode with console := console, activeTerminal := terminal } := by
      rw [heq, eraseKey, if_neg hback]
    by_cases htypes : TypesChar (newFlags s.flags scancode) scancode
    · rw [htypes.chord, Option.getD_none, hplain] at hactive
      have hterminal : terminal = s.activeTerminal := hactive
      rw [typeKey, hflags, if_pos htypes, hplain, hterminal]
      by_cases hidx : s.keyboardBufferIdx s.activeTerminal < bufferSize
      · rw [typeChar_of_room (by exact hidx)]
        exact .typed htypes hidx
      · rw [typeChar_of_full (by exact hidx)]
        exact .unchanged fun _ => Nat.le_of_not_lt hidx
    · rw [typeKey, hflags, if_neg htypes, hplain]
      exact .unchanged fun htypes' => absurd htypes' htypes

end Handler

/-! ## What a key does to the text of a line -/

/-- The character of a key is in one of the two tables. -/
theorem lookedChar_mem {k : Flags} {scancode c : UInt8} (h : lookedChar k scancode = c)
    (hc : c ≠ 0) : scancode.toNat < 80 ∧
      (keyboardUS.getD scancode.toNat 0 = c ∨ keyboardUSShift.getD scancode.toNat 0 = c) := by
  have hcode : keyboardUS.getD scancode.toNat 0 = c ∨ keyboardUSShift.getD scancode.toNat 0 = c := by
    unfold lookedChar lookupChar at h
    dsimp only at h
    split_ifs at h
    · exact absurd h.symm hc
    · exact Or.inr h
    · exact Or.inl h
    · exact Or.inr h
    · exact Or.inl h
    · exact absurd h.symm hc
  refine ⟨?_, hcode⟩
  by_contra hlong
  have hend : ∀ l : List UInt8, l.length = 80 → l.getD scancode.toNat 0 = 0 := by
    intro l hl
    rw [List.getD_eq_getElem?_getD, List.getElem?_eq_none (by omega)]
    rfl
  rw [hend keyboardUS rfl, hend keyboardUSShift rfl] at hcode
  exact hc (hcode.elim Eq.symm Eq.symm)

theorem lookedChar_newline {k : Flags} {scancode : UInt8} (h : lookedChar k scancode = newline) :
    scancode = enterKey := by
  have htable : ∀ i < 80,
      keyboardUS.getD i 0 = newline ∨ keyboardUSShift.getD i 0 = newline → i = 28 := by
    decide +kernel
  obtain ⟨hlt, hcode⟩ := lookedChar_mem h (by decide)
  exact UInt8.toNat_inj.mp (htable _ hlt hcode)

theorem returnChar_newline {k : Flags} {scancode : UInt8} (h : returnChar k scancode = newline) :
    scancode = enterKey := by
  unfold returnChar at h
  split_ifs at h
  · exact absurd h (by decide)
  · exact absurd h (by decide)
  · exact lookedChar_newline h

theorem bufferText_congr {s s' : Terminals} (hbuffer : s.keyboardBuffer = s'.keyboardBuffer)
    (hidx : s.keyboardBufferIdx = s'.keyboardBufferIdx) (t : Nat) :
    bufferText s t = bufferText s' t := by
  unfold bufferText
  rw [hbuffer, hidx]

section Text

variable {s : Terminals} {scancode : UInt8}

/-- The indices stay inside the buffers. -/
theorem keyboardHandler_idx_le (h : ∀ t, s.keyboardBufferIdx t ≤ bufferSize) (t : Nat) :
    (keyboardHandler s scancode).keyboardBufferIdx t ≤ bufferSize := by
  have hactive := h s.activeTerminal
  have heffect := keyboardHandler_buffers s scancode
  generalize (keyboardHandler s scancode).keyboardBuffer = buffer at heffect
  generalize (keyboardHandler s scancode).keyboardBufferIdx = idx at heffect ⊢
  cases heffect with
  | erased hkey hidx =>
    by_cases ht : t = s.activeTerminal
    · rw [ht, Function.update_self]
      omega
    · rw [Function.update_of_ne ht]
      exact h t
  | typed hkey hidx =>
    by_cases ht : t = s.activeTerminal
    · rw [ht, Function.update_self]
      omega
    · rw [Function.update_of_ne ht]
      exact h t
  | unchanged hfull => exact h t

/-- The key changes no line buffer: it finds nothing to erase, or no room for its character,
or does neither. -/
def Quiet (s : Terminals) (scancode : UInt8) : Prop :=
  (scancode = backspaceKey → s.keyboardBufferIdx s.activeTerminal = 0) ∧
    (TypesChar (newFlags s.flags scancode) scancode →
      bufferSize ≤ s.keyboardBufferIdx s.activeTerminal)

instance (s : Terminals) (scancode : UInt8) : Decidable (Quiet s scancode) :=
  inferInstanceAs (Decidable (_ ∧ _))

theorem keyboardHandler_text_quiet (h : Quiet s scancode) (t : Nat) :
    bufferText (keyboardHandler s scancode) t = bufferText s t := by
  have heffect := keyboardHandler_buffers s scancode
  generalize hbuffer : (keyboardHandler s scancode).keyboardBuffer = buffer at heffect
  generalize hidx : (keyboardHandler s scancode).keyboardBufferIdx = idx at heffect
  cases heffect with
  | erased hkey hpos =>
    have := h.1 hkey
    omega
  | typed hkey hroom =>
    have := h.2 hkey
    omega
  | unchanged hfull => exact bufferText_congr hbuffer hidx t

theorem bufferText_append {s' : Terminals} {t : Nat} {c : UInt8}
    (hbuffer : s'.keyboardBuffer =
      Function.update s.keyboardBuffer (bufferAt t (s.keyboardBufferIdx t)) c)
    (hidx : s'.keyboardBufferIdx = Function.update s.keyboardBufferIdx t (s.keyboardBufferIdx t + 1)) :
    bufferText s' t = bufferText s t ++ [c] := by
  unfold bufferText
  rw [hbuffer, hidx, Function.update_self, List.range_succ, List.map_append, List.map_singleton,
    Function.update_self]
  congr 1
  refine List.map_congr_left fun i hi => ?_
  have hlt := List.mem_range.mp hi
  rw [Function.update_of_ne]
  unfold bufferAt
  omega

/-- Enter that is typed ends the line of the active terminal. -/
theorem keyboardHandler_text_enter (htypes : TypesChar (newFlags s.flags enterKey) enterKey)
    (hroom : s.keyboardBufferIdx s.activeTerminal < bufferSize) :
    bufferText (keyboardHandler s enterKey) s.activeTerminal =
      bufferText s s.activeTerminal ++ [newline] := by
  have heffect := keyboardHandler_buffers s enterKey
  generalize hbuffer : (keyboardHandler s enterKey).keyboardBuffer = buffer at heffect
  generalize hidx : (keyboardHandler s enterKey).keyboardBufferIdx = idx at heffect
  cases heffect with
  | erased hkey _ => exact absurd hkey (by decide)
  | typed _ _ =>
    rw [returnChar_enter htypes.chord] at hbuffer
    exact bufferText_append hbuffer hidx
  | unchanged hfull =>
    have := hfull htypes
    omega

/-- A newline comes into a line by Enter only. -/
theorem newline_of_keyboardHandler {t : Nat}
    (h : newline ∈ bufferText (keyboardHandler s scancode) t) :
    newline ∈ bufferText s t ∨ scancode = enterKey := by
  obtain ⟨i, hi, hchar⟩ := List.mem_map.mp h
  have hi' := List.mem_range.mp hi
  have heffect := keyboardHandler_buffers s scancode
  generalize (keyboardHandler s scancode).keyboardBuffer = buffer at heffect hchar
  generalize (keyboardHandler s scancode).keyboardBufferIdx = idx at heffect hi'
  have hold : i < s.keyboardBufferIdx t → s.keyboardBuffer (bufferAt t i) = newline →
      newline ∈ bufferText s t := by
    intro hlt heq
    exact List.mem_map.mpr ⟨i, List.mem_range.mpr hlt, heq⟩
  cases heffect with
  | erased hkey hpos =>
    by_cases hat : bufferAt t i =
        bufferAt s.activeTerminal (s.keyboardBufferIdx s.activeTerminal)
    · rw [hat, Function.update_self] at hchar
      exact absurd hchar (by decide)
    · rw [Function.update_of_ne hat] at hchar
      refine Or.inl (hold ?_ hchar)
      by_cases ht : t = s.activeTerminal
      · rw [ht, Function.update_self] at hi'
        rw [ht]
        omega
      · rwa [Function.update_of_ne ht] at hi'
  | typed hkey hroom =>
    by_cases hat : bufferAt t i =
        bufferAt s.activeTerminal (s.keyboardBufferIdx s.activeTerminal)
    · rw [hat, Function.update_self] at hchar
      exact Or.inr (returnChar_newline hchar)
    · rw [Function.update_of_ne hat] at hchar
      refine Or.inl (hold ?_ hchar)
      by_cases ht : t = s.activeTerminal
      · rw [ht, Function.update_self] at hi'
        rw [ht] at hat ⊢
        have hne : i ≠ s.keyboardBufferIdx s.activeTerminal := fun heq => hat (by rw [heq])
        omega
      · rwa [Function.update_of_ne ht] at hi'
  | unchanged hfull => exact Or.inl (hold hi' hchar)

end Text

end LinuxBasedOS.Terminal
