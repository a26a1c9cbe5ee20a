import LinuxBasedOS.Terminal.Reader

/-!
# The line buffer as a line editor

`edit` is a line editor: a line of text and the keys that change it, with no console, no indices
and no array. `handler_is_editor` says that the line buffer of the active terminal is its line,
for every sequence of keys without an Alt+Fn chord. A key that is pressed while Ctrl is held leaves
the line, except for Backspace, which the handler treats before it looks at Ctrl.

The first part says what the handler does with one such key. A key goes into one of five kinds,
and for each there is one equation; they serve the results about the screen as well.
-/

namespace LinuxBasedOS.Terminal

open Lib

/-! ## The handler without a chord -/

section Keys

variable {s : Terminals} {scancode : UInt8}

theorem switchTerminal_of_none {s : Terminals} (h : chord s.flags = none) : switchTerminal s = s := by
  rw [switchTerminal, h]
  rfl

/-- Neither the screen nor the line buffer is touched before the last stage. -/
theorem beforeTyping_of_plain (hchord : chord (newFlags s.flags scancode) = none)
    (hback : scancode ≠ backspaceKey) (htab : scancode ≠ tabKey)
    (hclear : clearsScreen (newFlags s.flags scancode) scancode = false) :
    beforeTyping s scancode = flagKey s scancode := by
  have herase : eraseKey (flagKey s scancode) scancode = flagKey s scancode := if_neg hback
  have htabulate : tabulate (flagKey s scancode) scancode = flagKey s scancode := if_neg htab
  have hscreen : clearScreen (flagKey s scancode) scancode = flagKey s scancode := by
    rw [clearScreen]
    change (if clearsScreen (newFlags s.flags scancode) scancode = true then _ else _) = _
    rw [hclear]
    rfl
  rw [beforeTyping, herase, htabulate, hscreen]
  exact switchTerminal_of_none hchord

theorem keyboardHandler_backspace (hchord : chord (newFlags s.flags backspaceKey) = none) :
    keyboardHandler s backspaceKey = eraseLast (flagKey s backspaceKey) := by
  have hflags := eraseKey_flags (flagKey s backspaceKey) backspaceKey
  have hclear : clearsScreen (eraseKey (flagKey s backspaceKey) backspaceKey).flags backspaceKey =
      false := by
    rw [clearsScreen, lookedChar_backspace]
    exact Bool.and_false _
  have hchord' : chord (eraseKey (flagKey s backspaceKey) backspaceKey).flags = none := by
    rw [hflags]
    exact hchord
  have htabulate : tabulate (eraseKey (flagKey s backspaceKey) backspaceKey) backspaceKey =
      eraseKey (flagKey s backspaceKey) backspaceKey := rfl
  have hscreen : clearScreen (eraseKey (flagKey s backspaceKey) backspaceKey) backspaceKey =
      eraseKey (flagKey s backspaceKey) backspaceKey := by
    rw [clearScreen, hclear]
    rfl
  rw [keyboardHandler_eq, beforeTyping, htabulate, hscreen, switchTerminal_of_none hchord', typeKey,
    if_neg (not_typesChar_backspace _)]
  rfl

theorem lookedChar_tab (k : Flags) : lookedChar k tabKey = 0 := rfl

theorem not_typesChar_tab (k : Flags) : ¬ TypesChar k tabKey := by
  intro h
  refine h.1 ?_
  unfold returnChar
  rw [lookedChar_tab, ite_self, ite_self]

theorem keyboardHandler_tab (hchord : chord (newFlags s.flags tabKey) = none) :
    keyboardHandler s tabKey =
      { flagKey s tabKey with console := tab s.console s.activeTerminal } := by
  have hclear : clearsScreen (newFlags s.flags tabKey) tabKey = false := by
    rw [clearsScreen, lookedChar_tab]
    exact Bool.and_false _
  have hscreen : clearScreen { flagKey s tabKey with console := tab s.console s.activeTerminal }
      tabKey = { flagKey s tabKey with console := tab s.console s.activeTerminal } := by
    rw [clearScreen]
    change (if clearsScreen (newFlags s.flags tabKey) tabKey = true then _ else _) = _
    rw [hclear]
    rfl
  have hbefore : beforeTyping s tabKey =
      { flagKey s tabKey with console := tab s.console s.activeTerminal } := by
    rw [beforeTyping]
    change switchTerminal (clearScreen { flagKey s tabKey with
      console := tab s.console s.activeTerminal } tabKey) = _
    rw [hscreen]
    exact switchTerminal_of_none hchord
  rw [keyboardHandler_eq, hbefore, typeKey, if_neg (not_typesChar_tab _)]

/-- A key that types stores its character and prints it. -/
theorem keyboardHandler_types (h : TypesChar (newFlags s.flags scancode) scancode) :
    keyboardHandler s scancode =
      typeChar (flagKey s scancode) (returnChar (newFlags s.flags scancode) scancode) := by
  have hback : scancode ≠ backspaceKey := by
    rintro rfl
    exact not_typesChar_backspace _ h
  have htab : scancode ≠ tabKey := by
    rintro rfl
    exact not_typesChar_tab _ h
  have hclear : clearsScreen (newFlags s.flags scancode) scancode = false := by
    rw [clearsScreen, h.2.2]
    rfl
  rw [keyboardHandler_eq, beforeTyping_of_plain h.chord hback htab hclear]
  exact if_pos h

/-- A key of no other kind only sets flags. -/
theorem keyboardHandler_idle (hchord : chord (newFlags s.flags scancode) = none)
    (hback : scancode ≠ backspaceKey) (htab : scancode ≠ tabKey)
    (hclear : clearsScreen (newFlags s.flags scancode) scancode = false)
    (htypes : ¬ TypesChar (newFlags s.flags scancode) scancode) :
    keyboardHandler s scancode = flagKey s scancode := by
  rw [keyboardHandler_eq, beforeTyping_of_plain hchord hback htab hclear]
  exact if_neg htypes

end Keys

/-! ## The editor -/

/-- The entry of the key in the tables is a character. -/
def IsCharacterKey (scancode : UInt8) : Prop := keyboardUS.getD scancode.toNat 0 ≠ 0

instance (scancode : UInt8) : Decidable (IsCharacterKey scancode) :=
  inferInstanceAs (Decidable (_ ≠ _))

/-- The entry of the key in the table without Shift is one of `a` to `z`. -/
def IsLetterKey (scancode : UInt8) : Prop :=
  97 ≤ keyboardUS.getD scancode.toNat 0 ∧ keyboardUS.getD scancode.toNat 0 ≤ 122

instance (scancode : UInt8) : Decidable (IsLetterKey scancode) :=
  inferInstanceAs (Decidable (_ ∧ _))

/-- The key gives its shifted character. -/
def IsShifted (k : Flags) (scancode : UInt8) : Prop :=
  if IsLetterKey scancode then k.shiftStatus ^^^ k.capsStatus ≠ 0 else k.shiftStatus ≠ 0

instance (k : Flags) (scancode : UInt8) : Decidable (IsShifted k scancode) :=
  inferInstanceAs (Decidable (if IsLetterKey scancode then k.shiftStatus ^^^ k.capsStatus ≠ 0
    else k.shiftStatus ≠ 0))

def keyChar (k : Flags) (scancode : UInt8) : UInt8 :=
  if IsShifted k scancode then keyboardUSShift.getD scancode.toNat 0
  else keyboardUS.getD scancode.toNat 0

/-- The line after a key; `k` are the modifiers with the key. -/
def editLine (k : Flags) (line : List UInt8) (scancode : UInt8) : List UInt8 :=
  if isPress scancode = false then line
  else if scancode = backspaceKey then line.dropLast
  else if IsCharacterKey scancode ∧ scancode ≠ esc ∧ scancode ≠ tabKey ∧ k.ctrlStatus = 0 then
    if line.length < 128 then line ++ [keyChar k scancode] else line
  else line

/-- The line, and the modifiers, which follow the keys as the handler sets them. -/
structure Editor where
  flags : Flags
  line : List UInt8

def edit (e : Editor) (scancode : UInt8) : Editor where
  flags := newFlags e.flags scancode
  line := editLine (newFlags e.flags scancode) e.line scancode

/-- No key of the sequence makes an Alt+Fn chord, or is pressed or released during one. -/
def NoChord : Flags → List UInt8 → Prop
  | _, [] => True
  | k, scancode :: scancodes =>
    chord (newFlags k scancode) = none ∧ NoChord (newFlags k scancode) scancodes

/-! ## One key -/

/-- The two tables have characters at the same keys. -/
theorem shifted_ne_zero_iff (i : Nat) : keyboardUSShift.getD i 0 ≠ 0 ↔ keyboardUS.getD i 0 ≠ 0 := by
  rcases Nat.lt_or_ge i 80 with hlt | hge
  · have htable : ∀ i < 80, keyboardUSShift.getD i 0 ≠ 0 ↔ keyboardUS.getD i 0 ≠ 0 := by
      decide +kernel
    exact htable i hlt
  · rw [List.getD_eq_getElem?_getD, List.getD_eq_getElem?_getD, List.getElem?_eq_none hge,
      List.getElem?_eq_none hge]

theorem lookupChar_eq_keyChar (k : Flags) (scancode : UInt8) :
    lookupChar k scancode = keyChar k scancode := by
  unfold lookupChar
  dsimp only
  by_cases hletter : IsLetterKey scancode
  · have hshifted : IsShifted k scancode ↔ k.shiftStatus ^^^ k.capsStatus ≠ 0 := by
      rw [IsShifted, if_pos hletter]
    exact (if_pos hletter).trans (if_congr hshifted.symm rfl rfl)
  · have hshifted : IsShifted k scancode ↔ k.shiftStatus ≠ 0 := by
      rw [IsShifted, if_neg hletter]
    exact (if_neg hletter).trans (if_congr hshifted.symm rfl rfl)

theorem keyChar_ne_zero_iff (k : Flags) (scancode : UInt8) :
    keyChar k scancode ≠ 0 ↔ IsCharacterKey scancode := by
  unfold keyChar
  split_ifs
  · exact shifted_ne_zero_iff _
  · exact Iff.rfl

/-- A press with Ctrl up types the character of its key. -/
theorem returnChar_eq_keyChar {k : Flags} {scancode : UInt8} (hchord : chord k = none)
    (hctrl : k.ctrlStatus = 0) (htab : scancode ≠ tabKey) (hpress : isPress scancode = true) :
    returnChar k scancode = keyChar k scancode := by
  have hclear : clearsScreen k scancode = false := by
    rw [clearsScreen, hctrl]
    rfl
  rw [returnChar, hchord, hclear, lookedChar, if_neg htab, if_pos hpress, lookupChar_eq_keyChar]
  rfl

/-- The keys that type are the character keys of the editor. -/
theorem typesChar_iff {k : Flags} {scancode : UInt8} (hchord : chord k = none) :
    TypesChar k scancode ↔ isPress scancode = true ∧ IsCharacterKey scancode ∧ scancode ≠ esc ∧
      scancode ≠ tabKey ∧ k.ctrlStatus = 0 := by
  constructor
  · intro htypes
    obtain ⟨hne, hesc, hctrl⟩ := htypes
    have htab : scancode ≠ tabKey := by
      rintro rfl
      exact not_typesChar_tab k ⟨hne, hesc, hctrl⟩
    have hpress : isPress scancode = true := by
      by_contra hreleased
      refine hne ?_
      have hlooked : lookedChar k scancode = 0 := by
        rw [lookedChar, if_neg htab, if_neg hreleased]
      rw [returnChar, hlooked, ite_self, ite_self]
    rw [returnChar_eq_keyChar hchord hctrl htab hpress, keyChar_ne_zero_iff] at hne
    exact ⟨hpress, hne, hesc, htab, hctrl⟩
  · rintro ⟨hpress, hkey, hesc, htab, hctrl⟩
    refine ⟨?_, hesc, hctrl⟩
    rw [returnChar_eq_keyChar hchord hctrl htab hpress, keyChar_ne_zero_iff]
    exact hkey

/-- Backspace takes the last character of the line away. -/
theorem bufferText_eraseLast (s : Terminals) :
    bufferText (eraseLast s) s.activeTerminal = (bufferText s s.activeTerminal).dropLast := by
  by_cases hpos : 0 < s.keyboardBufferIdx s.activeTerminal
  · rw [eraseLast_of_pos hpos]
    obtain ⟨n, hn⟩ := Nat.exists_eq_add_one.mpr hpos
    unfold bufferText
    dsimp only
    rw [Function.update_self, hn, Nat.add_sub_cancel, List.range_succ, List.map_append,
      List.map_singleton, List.dropLast_concat]
    refine List.map_congr_left ?_
    intro i hi
    have hlt := List.mem_range.mp hi
    rw [Function.update_of_ne]
    unfold bufferAt
    omega
  · have hempty : bufferText s s.activeTerminal = [] := by
      rw [← List.length_eq_zero_iff, length_bufferText]
      omega
    rw [eraseLast_of_not_pos hpos, hempty]
    rfl

/-- A typed character comes to the end of the line, if there is room. -/
theorem bufferText_typeChar (s : Terminals) (c : UInt8) :
    bufferText (typeChar s c) s.activeTerminal =
      if (bufferText s s.activeTerminal).length < bufferSize then
        bufferText s s.activeTerminal ++ [c]
      else bufferText s s.activeTerminal := by
  rw [length_bufferText]
  split_ifs with hroom
  · rw [typeChar_of_room hroom]
    exact bufferText_append rfl rfl
  · rw [typeChar_of_full hroom]
    rfl

/-- **One key.** The line of the active terminal changes as the editor says. -/
theorem keyboardHandler_edit {s : Terminals} {scancode : UInt8}
    (hchord : chord (newFlags s.flags scancode) = none) :
    bufferText (keyboardHandler s scancode) s.activeTerminal =
      editLine (newFlags s.flags scancode) (bufferText s s.activeTerminal) scancode := by
  have hsame : bufferText (flagKey s scancode) s.activeTerminal = bufferText s s.activeTerminal := rfl
  by_cases hback : scancode = backspaceKey
  · subst hback
    have herased := bufferText_eraseLast (flagKey s backspaceKey)
    rw [keyboardHandler_backspace hchord, editLine, if_neg (by decide), if_pos rfl, ← hsame]
    exact herased
  by_cases htypes : TypesChar (newFlags s.flags scancode) scancode
  · obtain ⟨hpress, hkey, hesc, htab, hctrl⟩ := (typesChar_iff hchord).mp htypes
    have htyped := bufferText_typeChar (flagKey s scancode)
      (returnChar (newFlags s.flags scancode) scancode)
    rw [returnChar_eq_keyChar hchord hctrl htab hpress] at htyped
    rw [keyboardHandler_types htypes, returnChar_eq_keyChar hchord hctrl htab hpress, editLine,
      if_neg (by rw [hpress]; decide), if_neg hback, if_pos ⟨hkey, hesc, htab, hctrl⟩, ← hsame]
    exact htyped
  · have hquiet : editLine (newFlags s.flags scancode) (bufferText s s.activeTerminal) scancode =
        bufferText s s.activeTerminal := by
      rw [editLine]
      by_cases hreleased : isPress scancode = false
      · exact if_pos hreleased
      · rw [if_neg hreleased, if_neg hback]
        refine if_neg ?_
        intro hkey
        exact htypes ((typesChar_iff hchord).mpr ⟨eq_true_of_ne_false hreleased, hkey⟩)
    rw [hquiet]
    exact keyboardHandler_text_quiet ⟨fun h => absurd h hback, fun h => absurd h htypes⟩ _

/-! ## Every sequence of keys -/

theorem length_editLine_le (k : Flags) {line : List UInt8} (h : line.length ≤ 128)
    (scancode : UInt8) : (editLine k line scancode).length ≤ 128 := by
  unfold editLine
  split_ifs with hreleased hback hkey hroom
  · exact h
  · rw [List.length_dropLast]
    omega
  · rw [List.length_append, List.length_singleton]
    omega
  · exact h
  · exact h

/-- The handler and the editor, from the same line on. -/
theorem handler_follows_editor {s : Terminals} {t : Nat} (hactive : s.activeTerminal = t)
    {scancodes : List UInt8} (hchord : NoChord s.flags scancodes) {line : List UInt8}
    (hline : bufferText s t = line) (hlength : line.length ≤ 128) :
    bufferText (scancodes.foldl keyboardHandler s) t =
        (scancodes.foldl edit { flags := s.flags, line := line }).line ∧
      (scancodes.foldl keyboardHandler s).keyboardBufferIdx t ≤ 128 := by
  induction scancodes generalizing s line with
  | nil =>
    refine ⟨hline, ?_⟩
    rw [← hline, length_bufferText] at hlength
    exact hlength
  | cons scancode scancodes ih =>
    have hstep := keyboardHandler_edit hchord.1
    rw [hactive, hline] at hstep
    have hactive' : (keyboardHandler s scancode).activeTerminal = t := by
      rw [keyboardHandler_activeTerminal, hchord.1]
      exact hactive
    have hflags := keyboardHandler_flags s scancode
    rw [List.foldl_cons, List.foldl_cons]
    have hrest := ih hactive' (by rw [hflags]; exact hchord.2) hstep
      (length_editLine_le _ hlength scancode)
    rw [hflags] at hrest
    exact hrest

/-- **The line editor.** For every state in which the line of the active terminal is empty and
every sequence of scancodes without an Alt+Fn chord, the line buffer holds the line that the editor
makes of the sequence, and its index is at most 128. -/
theorem handler_is_editor (s : Terminals) (t : Nat) (scancodes : List UInt8)
    (hactive : s.activeTerminal = t) (hempty : s.keyboardBufferIdx t = 0)
    (hchord : NoChord s.flags scancodes) :
    (scancodes.foldl keyboardHandler s).keyboardBufferIdx t ≤ 128 ∧
      bufferText (scancodes.foldl keyboardHandler s) t =
        (scancodes.foldl edit { flags := s.flags, line := [] }).line := by
  have hline : bufferText s t = [] := by
    rw [← List.length_eq_zero_iff, length_bufferText]
    exact hempty
  obtain ⟨htext, hidx⟩ := handler_follows_editor hactive hchord hline (Nat.zero_le 128)
  exact ⟨hidx, htext⟩

/-- Shift, a letter, Shift released, the letter again and Backspace leave `"A"`. -/
theorem handler_is_editor_sample :
    NoChord ⟨0, 0, 0, 0, 0, 0, 0⟩ [lshift, 30, lshift ||| 0x80, 30, backspaceKey] ∧
      bufferText ([lshift, 30, lshift ||| 0x80, 30, backspaceKey].foldl keyboardHandler
        (startSystem 0 blankConsole 0).terminals) 0 = [65] :=
  have hchord : NoChord ⟨0, 0, 0, 0, 0, 0, 0⟩ [lshift, 30, lshift ||| 0x80, 30, backspaceKey] :=
    ⟨by decide, by decide, by decide, by decide, by decide, trivial⟩
  ⟨hchord, (handler_is_editor (startSystem 0 blankConsole 0).terminals 0 _ rfl rfl hchord).2⟩

/-- An editor in which a key that is pressed while Ctrl is held leaves the line, whatever it is. -/
def editUnlessCtrl (e : Editor) (scancode : UInt8) : Editor where
  flags := newFlags e.flags scancode
  line :=
    if (newFlags e.flags scancode).ctrlStatus = 0 then
      editLine (newFlags e.flags scancode) e.line scancode
    else e.line

/-- A letter, and Backspace while Ctrl is held: the handler takes the letter away. -/
theorem ctrl_backspace_erases :
    NoChord ⟨0, 0, 0, 0, 0, 0, 0⟩ [30, ctrl, backspaceKey] ∧
      bufferText ([30, ctrl, backspaceKey].foldl keyboardHandler
        (startSystem 0 blankConsole 0).terminals) 0 = [] ∧
      ([30, ctrl, backspaceKey].foldl editUnlessCtrl
        { flags := ⟨0, 0, 0, 0, 0, 0, 0⟩, line := [] }).line = [97] :=
  ⟨⟨by decide, by decide, by decide, trivial⟩, by decide, by decide⟩

end LinuxBasedOS.Terminal
