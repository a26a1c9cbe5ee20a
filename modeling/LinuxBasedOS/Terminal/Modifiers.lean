import LinuxBasedOS.Terminal.BufferFrame
import Mathlib.Data.List.Induction

/-!
# The modifier flags and the keys held

`KeyHeld` says of a history of scancodes that a key has been pressed and not released since. The
flags of `keyboard_handler` are to tell the same. Ctrl, Alt and CapsLock do; the two Shift keys
share one flag, which the release of either of them clears.

`modifiers_reflect_iff` says for which histories the flags are right after every scancode: those
in which no Shift key is released while the other is held.
-/

namespace LinuxBasedOS.Terminal

/-! ## Histories -/

/-- The scancode of the release of a key. -/
def releaseOf (key : UInt8) : UInt8 := key ||| 0x80

/-- The key has been pressed and not released since. -/
def KeyHeld (history : List UInt8) (key : UInt8) : Prop :=
  ∃ before after, history = before ++ key :: after ∧ releaseOf key ∉ after

/-- The flags tell which keys are held. -/
structure FlagsReflect (k : Flags) (history : List UInt8) : Prop where
  shift : k.shiftStatus = 1 ↔ KeyHeld history lshift ∨ KeyHeld history rshift
  ctrl : k.ctrlStatus = 1 ↔ KeyHeld history ctrl
  alt : k.altStatus = 1 ↔ KeyHeld history alt
  caps : k.capsStatus = history.count capslock % 2

/-- The scancode does not release one Shift key while the other is held. -/
def ReleasesLastShift (history : List UInt8) (scancode : UInt8) : Prop :=
  (scancode = releaseOf lshift → ¬ KeyHeld history rshift) ∧
    (scancode = releaseOf rshift → ¬ KeyHeld history lshift)

theorem not_keyHeld_nil (key : UInt8) : ¬ KeyHeld [] key := by
  rintro ⟨before, after, h, -⟩
  cases before <;> cases h

/-- A key is held after one more scancode when this is its press, or when it was held and this is
not its release. -/
theorem keyHeld_concat {history : List UInt8} {key scancode : UInt8} :
    KeyHeld (history ++ [scancode]) key ↔
      scancode = key ∨ KeyHeld history key ∧ scancode ≠ releaseOf key := by
  constructor
  · rintro ⟨before, after, h, hafter⟩
    rcases List.eq_nil_or_concat after with rfl | ⟨after', last, rfl⟩
    · have hlast := (List.append_inj' h rfl).2
      exact Or.inl (List.cons.inj hlast).1
    · rw [List.concat_eq_append, ← List.cons_append, ← List.append_assoc] at h
      obtain ⟨hhistory, hlast⟩ := List.append_inj' h rfl
      have hscancode : scancode = last := (List.cons.inj hlast).1
      rw [List.concat_eq_append, List.mem_append, not_or, List.mem_singleton] at hafter
      refine Or.inr ⟨⟨before, after', hhistory, hafter.1⟩, ?_⟩
      rw [hscancode]
      exact fun heq => hafter.2 heq.symm
  · rintro (rfl | ⟨⟨before, after, rfl, hafter⟩, hrelease⟩)
    · exact ⟨history, [], rfl, List.not_mem_nil⟩
    · refine ⟨before, after ++ [scancode], by simp, ?_⟩
      rw [List.mem_append, not_or, List.mem_singleton]
      exact ⟨hafter, Ne.symm hrelease⟩

/-! ## One scancode -/

section Codes

variable {key scancode : UInt8}

/-- The release of a key has the top bit set, and the key below it. -/
theorem isPress_releaseOf (hkey : isPress key = true) :
    isPress (releaseOf key) = false ∧ releaseOf key &&& 0x7F = key := by
  have hall : ∀ c : UInt8, isPress c = true →
      isPress (releaseOf c) = false ∧ releaseOf c &&& 0x7F = c :=
    Word.forall_byte (by decide +kernel)
  exact hall key hkey

theorem ne_releaseOf_of_press (hkey : isPress key = true) (h : isPress scancode = true) :
    scancode ≠ releaseOf key := by
  rintro rfl
  rw [(isPress_releaseOf hkey).1] at h
  cases h

theorem ne_of_release (hkey : isPress key = true) (h : isPress scancode = false) :
    scancode ≠ key := by
  rintro rfl
  rw [hkey] at h
  cases h

theorem masked_eq_iff (hkey : isPress key = true) (h : isPress scancode = false) :
    scancode &&& 0x7F = key ↔ scancode = releaseOf key := by
  have hall : ∀ c : UInt8, isPress c = false → c = releaseOf (c &&& 0x7F) :=
    Word.forall_byte (by decide +kernel)
  constructor
  · rintro rfl
    exact hall scancode h
  · rintro rfl
    exact (isPress_releaseOf hkey).2

/-- A flag of one key: its press sets it, its release clears it. -/
theorem flag_eq (hkey : isPress key = true) (scancode : UInt8) (flag : Nat) :
    (if isPress scancode then if scancode = key then 1 else flag
      else if scancode &&& 0x7F = key then 0 else flag) =
      if scancode = key then 1 else if scancode = releaseOf key then 0 else flag := by
  cases hpress : isPress scancode with
  | true => rw [if_pos rfl, if_neg (ne_releaseOf_of_press hkey hpress)]
  | false =>
    rw [if_neg Bool.false_ne_true, if_neg (ne_of_release hkey hpress)]
    exact if_congr (masked_eq_iff hkey hpress) rfl rfl

end Codes

section Flags

variable (k : Flags) (scancode : UInt8)

theorem newFlags_ctrl :
    (newFlags k scancode).ctrlStatus =
      if scancode = ctrl then 1 else if scancode = releaseOf ctrl then 0 else k.ctrlStatus := by
  rw [← flag_eq (by decide), newFlags, apply_ite Flags.ctrlStatus]
  rfl

theorem newFlags_alt :
    (newFlags k scancode).altStatus =
      if scancode = alt then 1 else if scancode = releaseOf alt then 0 else k.altStatus := by
  rw [← flag_eq (by decide), newFlags, apply_ite Flags.altStatus]
  rfl

/-- The flag of the two Shift keys: the press of either sets it, the release of either clears it. -/
theorem newFlags_shift :
    (newFlags k scancode).shiftStatus =
      if scancode = lshift ∨ scancode = rshift then 1
      else if scancode = releaseOf lshift ∨ scancode = releaseOf rshift then 0
      else k.shiftStatus := by
  have hl : isPress lshift = true := by decide
  have hr : isPress rshift = true := by decide
  rw [newFlags, apply_ite Flags.shiftStatus]
  cases hpress : isPress scancode with
  | true =>
    have hnot : ¬ (scancode = releaseOf lshift ∨ scancode = releaseOf rshift) :=
      not_or.mpr ⟨ne_releaseOf_of_press hl hpress, ne_releaseOf_of_press hr hpress⟩
    rw [if_pos rfl, if_neg hnot]
    rfl
  | false =>
    have hnot : ¬ (scancode = lshift ∨ scancode = rshift) :=
      not_or.mpr ⟨ne_of_release hl hpress, ne_of_release hr hpress⟩
    rw [if_neg Bool.false_ne_true, if_neg hnot]
    exact if_congr (or_congr (masked_eq_iff hl hpress) (masked_eq_iff hr hpress)) rfl rfl

theorem newFlags_caps :
    (newFlags k scancode).capsStatus =
      if scancode = capslock then if k.capsStatus = 0 then 1 else 0 else k.capsStatus := by
  rw [newFlags, apply_ite Flags.capsStatus]
  cases hpress : isPress scancode with
  | true => rfl
  | false => rw [if_neg Bool.false_ne_true, if_neg (ne_of_release (by decide) hpress)]; rfl

end Flags

/-! ## The flags after one more scancode -/

section Step

variable {history : List UInt8} {scancode : UInt8}

/-- The flag of a single key stays right. -/
theorem flag_concat {key : UInt8} {flag : Nat} (h : flag = 1 ↔ KeyHeld history key) :
    (if scancode = key then 1 else if scancode = releaseOf key then 0 else flag) = 1 ↔
      KeyHeld (history ++ [scancode]) key := by
  rw [keyHeld_concat]
  split_ifs with hpress hrelease
  · exact iff_of_true rfl (Or.inl hpress)
  · refine iff_of_false not_false ?_
    rintro (heq | ⟨-, hne⟩)
    · exact hpress heq
    · exact hne hrelease
  · rw [h, or_iff_right hpress, and_iff_left hrelease]

/-- The flag of the two Shift keys stays right unless one is released while the other is held. -/
theorem shift_concat {flag : Nat} (h : flag = 1 ↔ KeyHeld history lshift ∨ KeyHeld history rshift) :
    ((if scancode = lshift ∨ scancode = rshift then 1
        else if scancode = releaseOf lshift ∨ scancode = releaseOf rshift then 0 else flag) = 1 ↔
      KeyHeld (history ++ [scancode]) lshift ∨ KeyHeld (history ++ [scancode]) rshift) ↔
      ReleasesLastShift history scancode := by
  rw [keyHeld_concat, keyHeld_concat, ReleasesLastShift]
  by_cases hl : scancode = lshift
  · subst hl
    have hne : lshift ≠ releaseOf lshift ∧ lshift ≠ releaseOf rshift := by decide
    simp [hne.1, hne.2]
  by_cases hr : scancode = rshift
  · subst hr
    have hne : rshift ≠ releaseOf lshift ∧ rshift ≠ releaseOf rshift := by decide
    simp [hne.1, hne.2]
  rw [if_neg (not_or.mpr ⟨hl, hr⟩)]
  by_cases hl' : scancode = releaseOf lshift
  · subst hl'
    have hne : releaseOf lshift ≠ rshift ∧ releaseOf lshift ≠ lshift ∧
        releaseOf lshift ≠ releaseOf rshift := by decide
    simp [hne.1, hne.2.1, hne.2.2]
  by_cases hr' : scancode = releaseOf rshift
  · subst hr'
    have hne : releaseOf rshift ≠ rshift ∧ releaseOf rshift ≠ lshift ∧
        releaseOf rshift ≠ releaseOf lshift := by decide
    simp [hne.1, hne.2.1, hne.2.2]
  · simp [hl, hr, hl', hr', h]

theorem caps_concat {flag : Nat} (h : flag = history.count capslock % 2) :
    (if scancode = capslock then if flag = 0 then 1 else 0 else flag) =
      (history ++ [scancode]).count capslock % 2 := by
  rw [List.count_append, List.count_singleton]
  by_cases hkey : scancode = capslock
  · rw [if_pos hkey, if_pos (beq_iff_eq.mpr hkey)]
    split_ifs <;> omega
  · rw [if_neg hkey, if_neg (mt beq_iff_eq.mp hkey), Nat.add_zero]
    exact h

/-- **One scancode.** From flags that are right, they stay right exactly when the scancode does
not release one Shift key while the other is held. -/
theorem flagsReflect_step {k : Flags} (h : FlagsReflect k history) :
    FlagsReflect (newFlags k scancode) (history ++ [scancode]) ↔
      ReleasesLastShift history scancode := by
  rw [← shift_concat h.shift, ← newFlags_shift]
  constructor
  · exact FlagsReflect.shift
  · intro hshift
    refine ⟨hshift, ?_, ?_, ?_⟩
    · rw [newFlags_ctrl]
      exact flag_concat h.ctrl
    · rw [newFlags_alt]
      exact flag_concat h.alt
    · rw [newFlags_caps]
      exact caps_concat h.caps

end Step

theorem flagsReflect_nil : FlagsReflect noFlags [] where
  shift := iff_of_false zero_ne_one (not_or.mpr ⟨not_keyHeld_nil _, not_keyHeld_nil _⟩)
  ctrl := iff_of_false zero_ne_one (not_keyHeld_nil _)
  alt := iff_of_false zero_ne_one (not_keyHeld_nil _)
  caps := rfl

/-! ## Every sequence of scancodes -/

theorem foldl_keyboardHandler_flags (s : Terminals) (scancodes : List UInt8) :
    (scancodes.foldl keyboardHandler s).flags = scancodes.foldl newFlags s.flags := by
  induction scancodes generalizing s with
  | nil => rfl
  | cons scancode scancodes ih =>
    rw [List.foldl_cons, List.foldl_cons, ih, keyboardHandler_flags]

/-- **Modifiers.** For every sequence of scancodes from a state in which no key is held, the flags
tell which keys are held after every call of the handler, exactly when no Shift key is released
while the other is held. -/
theorem modifiers_reflect_iff (s : Terminals) (hflags : s.flags = noFlags)
    (scancodes : List UInt8) :
    (∀ history, history <+: scancodes →
        FlagsReflect (history.foldl keyboardHandler s).flags history) ↔
      ∀ history scancode, history ++ [scancode] <+: scancodes →
        ReleasesLastShift history scancode := by
  induction scancodes using List.reverseRecOn with
  | nil =>
    constructor
    · intro _ history scancode h
      have hnil := List.prefix_nil.mp h
      exact absurd hnil (List.append_ne_nil_of_right_ne_nil _ (List.cons_ne_nil _ _))
    · intro _ history h
      rw [List.prefix_nil.mp h, List.foldl_nil, hflags]
      exact flagsReflect_nil
  | append_singleton scancodes last ih =>
    have hlast : ∀ k, FlagsReflect k scancodes → k = scancodes.foldl newFlags s.flags →
        (FlagsReflect ((scancodes ++ [last]).foldl keyboardHandler s).flags (scancodes ++ [last]) ↔
          ReleasesLastShift scancodes last) := by
      intro k hk heq
      rw [foldl_keyboardHandler_flags, List.foldl_append, List.foldl_cons, List.foldl_nil, ← heq]
      exact flagsReflect_step hk
    constructor
    · intro hall history scancode h
      have hbefore : ∀ history, history <+: scancodes →
          FlagsReflect (history.foldl keyboardHandler s).flags history :=
        fun history h => hall history (h.trans (List.prefix_append _ _))
      rcases List.prefix_concat_iff.mp h with heq | hprefix
      · obtain ⟨rfl, hscancode⟩ := List.append_inj' heq rfl
        rw [(List.cons.inj hscancode).1]
        exact (hlast _ (hbefore history (List.prefix_refl _))
          (foldl_keyboardHandler_flags s history)).mp (hall _ (List.prefix_refl _))
      · exact ih.mp hbefore history scancode hprefix
    · intro hall history h
      have hbefore := ih.mpr fun history scancode h =>
        hall history scancode (h.trans (List.prefix_append _ _))
      rcases List.prefix_concat_iff.mp h with rfl | hprefix
      · exact (hlast _ (hbefore scancodes (List.prefix_refl _))
          (foldl_keyboardHandler_flags s scancodes)).mpr (hall _ _ (List.prefix_refl _))
      · exact hbefore history hprefix

theorem KeyHeld.mem {history : List UInt8} {key : UInt8} (h : KeyHeld history key) : key ∈ history := by
  obtain ⟨before, after, rfl, -⟩ := h
  exact List.mem_append_right _ List.mem_cons_self

/-- The flags are right after one Shift key is pressed, a letter is typed and the key is let go. -/
theorem modifiers_reflect_one_shift :
    FlagsReflect ([lshift, keyA, releaseOf lshift].foldl keyboardHandler
      (startSystem 0 blankConsole 0).terminals).flags [lshift, keyA, releaseOf lshift] := by
  refine (modifiers_reflect_iff _ rfl _).mpr ?_ _ (List.prefix_refl _)
  intro history scancode h
  have hmem : ∀ c ∈ history ++ [scancode], c ≠ rshift ∧ c ≠ releaseOf rshift := by
    intro c hc
    have hcases : ∀ c ∈ [lshift, keyA, releaseOf lshift], c ≠ rshift ∧ c ≠ releaseOf rshift := by
      rw [List.forall_mem_cons, List.forall_mem_cons, List.forall_mem_singleton]
      decide
    exact hcases c (h.subset hc)
  refine ⟨fun _ hheld => ?_, fun heq => ?_⟩
  · exact (hmem rshift (List.mem_append_left _ hheld.mem)).1 rfl
  · exact absurd heq (hmem scancode (List.mem_append_right _ (List.mem_singleton_self _))).2

/-- Both Shift keys are pressed and the left one is let go: the right one is held, and the flag
is 0. -/
theorem modifiers_lose_shift :
    KeyHeld [lshift, rshift, releaseOf lshift] rshift ∧
      ([lshift, rshift, releaseOf lshift].foldl keyboardHandler
        (startSystem 0 blankConsole 0).terminals).flags.shiftStatus = 0 ∧
      ¬ ∀ history, history <+: [lshift, rshift, releaseOf lshift] →
        FlagsReflect (history.foldl keyboardHandler (startSystem 0 blankConsole 0).terminals).flags
          history := by
  have hheld : KeyHeld [lshift, rshift, releaseOf lshift] rshift :=
    ⟨[lshift], [releaseOf lshift], rfl, by decide⟩
  have hflag : ([lshift, rshift, releaseOf lshift].foldl keyboardHandler
      (startSystem 0 blankConsole 0).terminals).flags.shiftStatus = 0 := by
    rw [foldl_keyboardHandler_flags]
    decide
  refine ⟨hheld, hflag, ?_⟩
  intro hall
  have hone := (hall _ (List.prefix_refl _)).shift.mpr (Or.inr hheld)
  rw [hflag] at hone
  cases hone

end LinuxBasedOS.Terminal
