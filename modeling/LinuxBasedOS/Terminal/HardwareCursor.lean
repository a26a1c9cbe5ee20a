import LinuxBasedOS.Terminal.LineBuffer
import LinuxBasedOS.Terminal.Output

/-!
# The hardware cursor and the displayed terminal

`putc` sends the cursor of the terminal it prints on to the cursor registers, displayed or not,
and Alt+Fn changes the displayed terminal without sending anything. `cursorStep` runs keys and
output; `hardwareCursor_follows` says that the registers hold the cursor of the displayed terminal
as long as output is for the displayed terminal and a switch goes to a terminal whose cursor
stands at the same place.
-/

namespace LinuxBasedOS.Terminal

open Lib Transition

/-! ## A key and the console -/

section Keys

variable {k : Flags} {s : Terminals} {scancode : UInt8}

/-- Only Alt and the function keys, and key releases, change which chord is held. -/
theorem chord_newFlags (hpress : isPress scancode = true) (halt : scancode ≠ alt)
    (hf1 : scancode ≠ f1) (hf2 : scancode ≠ f2) (hf3 : scancode ≠ f3) :
    chord (newFlags k scancode) = chord k := by
  simp only [newFlags, hpress, if_true, pressed, chord, if_neg halt, if_neg hf1, if_neg hf2,
    if_neg hf3]

/-- Ctrl+L is the key of the letter `l`. -/
theorem scancode_of_clearsScreen (h : clearsScreen k scancode = true) : scancode = 38 := by
  have hsmall : ∀ i < 80, keyboardUS.getD i 0 = 108 ∨ keyboardUSShift.getD i 0 = 108 → i = 38 := by
    decide +kernel
  have hlarge : ∀ i < 80, keyboardUS.getD i 0 = 76 ∨ keyboardUSShift.getD i 0 = 76 → i = 38 := by
    decide +kernel
  have hchar : lookedChar k scancode = 108 ∨ lookedChar k scancode = 76 := by
    unfold clearsScreen at h
    simp only [Bool.and_eq_true, Bool.or_eq_true, beq_iff_eq] at h
    exact h.2
  have hnat : scancode.toNat = 38 := by
    rcases hchar with hl | hL
    · obtain ⟨hlt, hcode⟩ := lookedChar_mem hl (by decide)
      exact hsmall _ hlt hcode
    · obtain ⟨hlt, hcode⟩ := lookedChar_mem hL (by decide)
      exact hlarge _ hlt hcode
  exact UInt8.toNat_inj.mp hnat

/-- The key that completes a chord prints nothing. -/
theorem keyboardHandler_console_of_switch {u : Nat}
    (hnew : chord (newFlags s.flags scancode) = some u) (hold : chord s.flags ≠ some u) :
    (keyboardHandler s scancode).console = s.console := by
  have hback : scancode ≠ backspaceKey := by
    rintro rfl
    rw [chord_newFlags (by decide) (by decide) (by decide) (by decide) (by decide)] at hnew
    exact hold hnew
  have htab : scancode ≠ tabKey := by
    rintro rfl
    rw [chord_newFlags (by decide) (by decide) (by decide) (by decide) (by decide)] at hnew
    exact hold hnew
  have hclear : ¬ clearsScreen (newFlags s.flags scancode) scancode = true := by
    intro h
    obtain rfl := scancode_of_clearsScreen h
    rw [chord_newFlags (by decide) (by decide) (by decide) (by decide) (by decide)] at hnew
    exact hold hnew
  have htypes : ¬ TypesChar (newFlags s.flags scancode) scancode := by
    intro h
    rw [h.chord] at hnew
    cases hnew
  have hflags := beforeTyping_flags s scancode
  rw [keyboardHandler_eq, typeKey, hflags, if_neg htypes]
  unfold beforeTyping switchTerminal clearScreen tabulate
  simp only [eraseKey, if_neg hback, if_neg htab]
  split_ifs with h
  · exact absurd h hclear
  · rfl

theorem eraseKey_prints (h : OnScreen s.console s.activeTerminal) :
    Prints s.console (eraseKey s scancode).console s.activeTerminal := by
  unfold eraseKey eraseLast
  dsimp only
  split_ifs
  · exact backspace_prints h
  · exact Prints.refl h
  · exact Prints.refl h

theorem tabulate_prints (h : OnScreen s.console s.activeTerminal) :
    Prints s.console (tabulate s scancode).console s.activeTerminal := by
  unfold tabulate
  split_ifs
  · exact tab_prints h
  · exact Prints.refl h

theorem clearScreen_prints (h : OnScreen s.console s.activeTerminal) :
    Prints s.console (clearScreen s scancode).console s.activeTerminal := by
  unfold clearScreen
  split_ifs
  · exact clear_prints s.console s.activeTerminal s.activeTerminal
  · exact Prints.refl h

theorem typeKey_prints (h : OnScreen s.console s.activeTerminal) :
    Prints s.console (typeKey s scancode).console s.activeTerminal := by
  unfold typeKey typeChar
  dsimp only
  split_ifs
  · exact putc_prints h _
  · exact putc_prints h _
  · exact Prints.refl h

/-- The stages before the last print on the active terminal. -/
theorem beforeTyping_prints (h : OnScreen s.console s.activeTerminal) :
    Prints s.console (beforeTyping s scancode).console s.activeTerminal := by
  have herase : Prints s.console (eraseKey (flagKey s scancode) scancode).console
      s.activeTerminal := @eraseKey_prints (flagKey s scancode) scancode h
  have hactive := eraseKey_activeTerminal (flagKey s scancode) scancode
  have htab := @tabulate_prints (eraseKey (flagKey s scancode) scancode) scancode
    (hactive ▸ herase.onScreen)
  have hactive' := (tabulate_activeTerminal (eraseKey (flagKey s scancode) scancode) scancode).trans
    hactive
  rw [hactive] at htab
  have hclear := @clearScreen_prints (tabulate (eraseKey (flagKey s scancode) scancode) scancode)
    scancode (hactive' ▸ htab.onScreen)
  rw [hactive'] at hclear
  exact herase.trans (htab.trans hclear)

/-- A key that leaves the displayed terminal as it is prints on that terminal. -/
theorem keyboardHandler_prints (h : OnScreen s.console s.activeTerminal)
    (hsame : (chord (newFlags s.flags scancode)).getD s.activeTerminal = s.activeTerminal) :
    Prints s.console (keyboardHandler s scancode).console s.activeTerminal := by
  have hbefore := @beforeTyping_prints s scancode h
  have hactive := (beforeTyping_activeTerminal s scancode).trans hsame
  have htype := @typeKey_prints (beforeTyping s scancode) scancode (hactive ▸ hbefore.onScreen)
  rw [hactive] at htype
  exact hbefore.trans htype

end Keys

/-! ## Keys and output -/

inductive CursorEvent where
  | key (scancode : UInt8)
  | write (pcbTerminal : Fin 3) (buf : Option (Nat → UInt8)) (nbytes : Int)
  | putc (c : UInt8) (terminal : Fin 3)
  | clear (terminal : Fin 3)

def cursorStep (s : Terminals) : CursorEvent → Option Terminals
  | .key scancode => some (keyboardHandler s scancode)
  | .write pcbTerminal buf nbytes => some (printed s (.terminalWrite pcbTerminal buf nbytes))
  | .putc c terminal => some (printed s (.putc c terminal))
  | .clear terminal => some (printed s (.clear terminal))

/-- Output that prints is for the displayed terminal, and a switch goes to a terminal whose
cursor stands where that of the displayed one stands. -/
def FollowsDisplay (s : Terminals) : CursorEvent → Prop
  | .key scancode => ∀ u, chord (newFlags s.flags scancode) = some u →
      s.console.screenX u = s.console.screenX s.activeTerminal ∧
        s.console.screenY u = s.console.screenY s.activeTerminal
  | .write pcbTerminal buf nbytes =>
      (pcbTerminal : Nat) = s.activeTerminal ∨ writtenBytes buf nbytes = []
  | .putc _ terminal => (terminal : Nat) = s.activeTerminal
  | .clear _ => True

/-- All cursors are on the screen, the registers hold that of the displayed terminal, and the
terminal of a chord that is held is displayed. -/
structure Displayed (s : Terminals) : Prop where
  onScreen : ∀ t, OnScreen s.console t
  shown : CursorShown s.console s.activeTerminal
  chord : ∀ u, chord s.flags = some u → s.activeTerminal = u

/-- Output that moves the cursor of the displayed terminal keeps the registers right. -/
theorem Displayed.printed {s : Terminals} (h : Displayed s) {call : ConsoleCall}
    (hcall : call.cursor s.activeTerminal = s.activeTerminal)
    (hactive : (Terminal.printed s call).activeTerminal = s.activeTerminal)
    (hflags : (Terminal.printed s call).flags = s.flags) : Displayed (Terminal.printed s call) := by
  have hprints := printed_prints h.onScreen call
  refine ⟨hprints.onScreen_all h.onScreen, ?_, ?_⟩
  · rw [hcall] at hprints
    rw [hactive]
    exact hprints.cursorShown h.shown
  · intro u hu
    rw [hflags] at hu
    rw [hactive]
    exact h.chord u hu

theorem Displayed.key {s : Terminals} (h : Displayed s) {scancode : UInt8}
    (hswitch : FollowsDisplay s (.key scancode)) : Displayed (keyboardHandler s scancode) := by
  have hactive := keyboardHandler_activeTerminal s scancode
  have hchord : ∀ u, Terminal.chord (keyboardHandler s scancode).flags = some u →
      (keyboardHandler s scancode).activeTerminal = u := by
    intro u hu
    rw [keyboardHandler_flags] at hu
    rw [hactive, hu]
    rfl
  by_cases hsame : (Terminal.chord (newFlags s.flags scancode)).getD s.activeTerminal =
      s.activeTerminal
  · have hprints := keyboardHandler_prints (h.onScreen s.activeTerminal) hsame
    rw [hsame] at hactive
    refine ⟨hprints.onScreen_all h.onScreen, ?_, hchord⟩
    rw [hactive]
    exact hprints.cursorShown h.shown
  · -- the key switches to another terminal, and prints nothing
    cases hnew : Terminal.chord (newFlags s.flags scancode) with
    | none =>
      rw [hnew] at hsame
      exact absurd rfl hsame
    | some u =>
      rw [hnew] at hsame hactive
      have hold : Terminal.chord s.flags ≠ some u := fun hu => hsame (h.chord u hu).symm
      have hconsole := keyboardHandler_console_of_switch hnew hold
      obtain ⟨hx, hy⟩ := hswitch u hnew
      refine ⟨?_, ?_, hchord⟩
      · rw [hconsole]
        exact h.onScreen
      · rw [hconsole, hactive]
        show (s.console.position : Int) = s.console.screenY u * numCols + s.console.screenX u
        rw [hx, hy]
        exact h.shown

theorem cursorStep_displayed {s s' : Terminals} {e : CursorEvent} (h : Displayed s)
    (he : FollowsDisplay s e) (hstep : cursorStep s e = some s') : Displayed s' := by
  cases e with
  | key scancode =>
    cases hstep
    exact h.key he
  | write pcbTerminal buf nbytes =>
    cases hstep
    rcases he with hterminal | hnone
    · exact h.printed hterminal (terminalWrite_activeTerminal _ _ _ _) (terminalWrite_flags _ _ _ _)
    · have hconsole : (printed s (.terminalWrite pcbTerminal buf nbytes)).console = s.console := by
        rw [printed, terminalWrite_console, hnone]
        rfl
      have hactive := terminalWrite_activeTerminal s pcbTerminal buf nbytes
      have hflags := terminalWrite_flags s pcbTerminal buf nbytes
      refine ⟨?_, ?_, ?_⟩
      · rw [hconsole]
        exact h.onScreen
      · rw [hconsole, printed, hactive]
        exact h.shown
      · rw [printed, hactive, hflags]
        exact h.chord
  | putc c terminal =>
    cases hstep
    exact h.printed he rfl rfl
  | clear terminal =>
    cases hstep
    exact h.printed rfl rfl rfl

/-- No key is held, all cursors are in the corner, and so is the hardware cursor. -/
def startTerminals (video : Int → UInt8) (activeTerminal : Fin 3) : Terminals where
  flags := ⟨0, 0, 0, 0, 0, 0, 0⟩
  enterStatus := 0
  keyboardBuffer := fun _ => 0
  keyboardBufferIdx := fun _ => 0
  activeTerminal := activeTerminal
  console := homeConsole video 0

theorem displayed_start (video : Int → UInt8) (activeTerminal : Fin 3) :
    Displayed (startTerminals video activeTerminal) := by
  refine ⟨onScreen_home video 0, rfl, ?_⟩
  intro u hu
  cases hu

/-- **The hardware cursor.** In a run whose output is for the displayed terminal, and whose
switches go to a terminal with its cursor at the same place, the registers always hold the cursor
of the displayed terminal. -/
theorem hardwareCursor_follows {video : Int → UInt8} {activeTerminal : Fin 3}
    {events : List CursorEvent} {s : Terminals}
    (hrun : run cursorStep (startTerminals video activeTerminal) events = some s)
    (hfollows : Along cursorStep FollowsDisplay (startTerminals video activeTerminal) events) :
    CursorShown s.console s.activeTerminal :=
  (run_invariant (fun _ _ _ h he hstep => cursorStep_displayed h he hstep) hrun hfollows
    (displayed_start video activeTerminal)).shown

/-- A letter is typed, and a process of the displayed terminal writes one character. -/
def typedEvents : List CursorEvent := [.key 30, .write 0 (some fun _ => 98) 1]

theorem hardwareCursor_follows_typed :
    ∃ s, run cursorStep (startTerminals (fun _ => space) 0) typedEvents = some s ∧
      s.console.position = 2 ∧ CursorShown s.console s.activeTerminal := by
  have hfollows : Along cursorStep FollowsDisplay (startTerminals (fun _ => space) 0) typedEvents := by
    refine ⟨?_, Or.inl rfl, trivial⟩
    intro u hu
    cases hu
  have hposition : (run cursorStep (startTerminals (fun _ => space) 0) typedEvents).map
      (fun s => s.console.position) = some 2 := by
    decide +kernel
  obtain ⟨s, hrun, hposition⟩ := Option.map_eq_some_iff.mp hposition
  exact ⟨s, hrun, hposition, hardwareCursor_follows hrun hfollows⟩

/-- With terminal 0 displayed, a process of terminal 1 writes one character. -/
theorem hardwareCursor_leaves_display :
    ¬ ∀ (video : Int → UInt8) (activeTerminal : Fin 3) (events : List CursorEvent) (s : Terminals),
      run cursorStep (startTerminals video activeTerminal) events = some s →
        CursorShown s.console s.activeTerminal := by
  intro hall
  have hshown := hall (fun _ => space) 0 [.write 1 (some fun _ => 97) 1] _ rfl
  unfold CursorShown at hshown
  revert hshown
  decide +kernel

end LinuxBasedOS.Terminal
