import LinuxBasedOS.Base.Transition
import LinuxBasedOS.Lib.ConsolePage
import LinuxBasedOS.Terminal.Keyboard

/-!
# Output calls and the pages of the terminals

`ConsoleCall` is a call of one of the routines of the console, or of `terminal_write`, with
terminals from 0 to 2. `output_keepsPage` runs any sequence of them, each with any active
terminal, from cursors in the top left corner: after each call all cursors are on the screen,
and the call has stored in the page of its own terminal only.
-/

namespace LinuxBasedOS.Terminal

open Lib Transition

/-- The bytes that `terminal_write` prints. -/
def writtenBytes (buf : Option (Nat → UInt8)) (nbytes : Int) : List UInt8 :=
  match buf with
  | none => []
  | some bytes =>
    if nbytes < 0 then [] else ((List.range nbytes.toNat).map bytes).filter fun c => c != 0

/-- `terminal_write` prints its bytes one after the other on the terminal of the caller. -/
theorem terminalWrite_console (s : Terminals) (pcbTerminal : Nat) (buf : Option (Nat → UInt8))
    (nbytes : Int) :
    (terminalWrite s pcbTerminal buf nbytes).2.console =
      (writtenBytes buf nbytes).foldl (fun c byte => putc c byte pcbTerminal) s.console := by
  cases buf with
  | none => rfl
  | some bytes =>
    unfold terminalWrite writtenBytes
    dsimp only
    split_ifs
    · rfl
    · rw [putcCalls, List.foldl_map]

theorem terminalWrite_activeTerminal (s : Terminals) (pcbTerminal : Nat)
    (buf : Option (Nat → UInt8)) (nbytes : Int) :
    (terminalWrite s pcbTerminal buf nbytes).2.activeTerminal = s.activeTerminal := by
  cases buf with
  | none => rfl
  | some bytes =>
    unfold terminalWrite
    dsimp only
    split_ifs <;> rfl

theorem terminalWrite_flags (s : Terminals) (pcbTerminal : Nat) (buf : Option (Nat → UInt8))
    (nbytes : Int) : (terminalWrite s pcbTerminal buf nbytes).2.flags = s.flags := by
  cases buf with
  | none => rfl
  | some bytes =>
    unfold terminalWrite
    dsimp only
    split_ifs <;> rfl

/-! ## Calls -/

inductive ConsoleCall where
  | putc (c : UInt8) (terminal : Fin 3)
  | puts (text : List UInt8)
  | tab (terminal : Fin 3)
  | backspace
  | scrollUp (terminal : Fin 3)
  | clear (terminal : Fin 3)
  | terminalWrite (pcbTerminal : Fin 3) (buf : Option (Nat → UInt8)) (nbytes : Int)

/-- The terminal that a call prints on. -/
def ConsoleCall.terminal (activeTerminal : Nat) : ConsoleCall → Nat
  | .putc _ t | .tab t | .scrollUp t | .clear t | .terminalWrite t _ _ => t
  | .puts _ | .backspace => activeTerminal

/-- The state after a call. -/
def printed (s : Terminals) : ConsoleCall → Terminals
  | .putc c t => { s with console := Lib.putc s.console c t }
  | .puts text => { s with console := (Lib.puts s.console text s.activeTerminal).2 }
  | .tab t => { s with console := Lib.tab s.console t }
  | .backspace => { s with console := Lib.backspace s.console s.activeTerminal }
  | .scrollUp t => { s with console := Lib.scrollUp s.console t }
  | .clear t => { s with console := Lib.clear s.console s.activeTerminal t }
  | .terminalWrite t buf nbytes => (Terminal.terminalWrite s t buf nbytes).2

/-- The stores of a call, in order. -/
def callStores (s : Terminals) : ConsoleCall → List (Int × UInt8)
  | .putc c t => putcStores s.console c t
  | .puts text => putsStores s.console s.activeTerminal (text.takeWhile (· ≠ 0))
  | .tab t => tabStores s.console t
  | .backspace => backspaceStores s.console s.activeTerminal
  | .scrollUp t => scrollUpStores s.console t
  | .clear t => clearStores s.console t
  | .terminalWrite t buf nbytes => putsStores s.console t (writtenBytes buf nbytes)

/-- A call, and the terminal that is active when it is made. -/
abbrev Output := Fin 3 × ConsoleCall

def outputStep (s : Terminals) (output : Output) : Option Terminals :=
  some (printed { s with activeTerminal := output.1 } output.2)

/-- The call makes the listed stores, all of them in the page of its terminal, and leaves every
cursor on the screen. -/
structure KeepsPage (s : Terminals) (output : Output) : Prop where
  stored : (printed { s with activeTerminal := output.1 } output.2).console.video =
    Stores.apply s.console.video (callStores { s with activeTerminal := output.1 } output.2)
  inPage : ∀ store ∈ callStores { s with activeTerminal := output.1 } output.2,
    InPage (output.2.terminal output.1) store
  onScreen : ∀ t, OnScreen (printed { s with activeTerminal := output.1 } output.2).console t

section Call

variable {s : Terminals}

theorem printed_stored (s : Terminals) (call : ConsoleCall) :
    (printed s call).console.video = Stores.apply s.console.video (callStores s call) := by
  cases call with
  | putc c t => exact putc_video s.console t c
  | puts text => exact foldl_putc_video s.console s.activeTerminal _
  | tab t => exact putSpaces_video s.console t _
  | backspace => exact backspace_video s.console s.activeTerminal
  | scrollUp t => exact scrollUp_video s.console t
  | clear t => exact clear_video s.console t s.activeTerminal
  | terminalWrite t buf nbytes =>
    rw [printed, terminalWrite_console]
    exact foldl_putc_video s.console t _

theorem callStores_inPage (h : ∀ t, OnScreen s.console t) (call : ConsoleCall) :
    ∀ store ∈ callStores s call, InPage (call.terminal s.activeTerminal) store := by
  cases call with
  | putc c t => exact putcStores_inPage (h t) c
  | puts text => exact putsStores_inPage (h s.activeTerminal)
  | tab t => exact putSpacesStores_inPage (h t)
  | backspace => exact backspaceStores_inPage (h s.activeTerminal)
  | scrollUp t => exact scrollUpStores_inPage
  | clear t => exact clearStores_inPage
  | terminalWrite t buf nbytes => exact putsStores_inPage (h t)

/-- The terminal whose cursor a call moves: `clear` moves that of the active terminal. -/
def ConsoleCall.cursor (activeTerminal : Nat) : ConsoleCall → Nat
  | .putc _ t | .tab t | .scrollUp t | .terminalWrite t _ _ => t
  | .puts _ | .backspace | .clear _ => activeTerminal

theorem printed_prints (h : ∀ t, OnScreen s.console t) (call : ConsoleCall) :
    Prints s.console (printed s call).console (call.cursor s.activeTerminal) := by
  cases call with
  | putc c t => exact putc_prints (h t) c
  | puts text => exact foldl_putc_prints (h s.activeTerminal) _
  | tab t => exact tab_prints (h t)
  | backspace => exact backspace_prints (h s.activeTerminal)
  | scrollUp t => exact scrollUp_prints s.console t
  | clear t => exact clear_prints s.console s.activeTerminal t
  | terminalWrite t buf nbytes =>
    rw [printed, terminalWrite_console]
    exact foldl_putc_prints (h t) _

theorem keepsPage_of_onScreen (h : ∀ t, OnScreen s.console t) (output : Output) :
    KeepsPage s output where
  stored := printed_stored _ output.2
  inPage := @callStores_inPage { s with activeTerminal := output.1 } h output.2
  onScreen := (@printed_prints { s with activeTerminal := output.1 } h output.2).onScreen_all h

end Call

/-! ## Runs -/

/-- All cursors are in the top left corner. -/
def homeConsole (video : Int → UInt8) (position : Nat) : Console where
  screenX := fun _ => 0
  screenY := fun _ => 0
  video := video
  position := position

theorem onScreen_home (video : Int → UInt8) (position t : Nat) :
    OnScreen (homeConsole video position) t := by
  refine ⟨Int.le_refl 0, ?_, Int.le_refl 0, ?_⟩
  · simp [homeConsole]
  · simp [homeConsole]

/-- What holds of every call made with all cursors on the screen holds along every run from
cursors in the corner. -/
theorem along_output {P : Terminals → Output → Prop}
    (h : ∀ s output, (∀ t, OnScreen s.console t) → P s output) (s : Terminals)
    (video : Int → UInt8) (position : Nat) (outputs : List Output) :
    Along outputStep P { s with console := homeConsole video position } outputs := by
  refine along_of_invariant (C := fun _ _ => True) (I := fun s => ∀ t, OnScreen s.console t)
    ?_ ?_ ?_ (onScreen_home video position)
  · intro s output s' hs _ hstep
    cases hstep
    exact (keepsPage_of_onScreen hs output).onScreen
  · intro s output hs _
    exact h s output hs
  · exact along_of_forall (fun _ _ => trivial) _ _

/-- **The console keeps to its pages.** Whatever calls are made, with whatever active terminal,
and whatever the video memory holds at first. -/
theorem output_keepsPage (s : Terminals) (video : Int → UInt8) (position : Nat)
    (outputs : List Output) :
    Along outputStep KeepsPage { s with console := homeConsole video position } outputs := by
  apply along_output
  intro s output h
  exact keepsPage_of_onScreen h output

end LinuxBasedOS.Terminal
