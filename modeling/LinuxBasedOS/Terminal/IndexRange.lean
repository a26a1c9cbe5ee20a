import LinuxBasedOS.Process.TickRuns
import LinuxBasedOS.Terminal.LineBuffer
import LinuxBasedOS.Terminal.Output

/-!
# The indices into the arrays of the terminals

`screen_x`, `screen_y`, `keyboardBuffer` and `keyboardBufferIdx` have three elements, for the
terminals 0, 1 and 2. `scheduler_init` sets `active_terminal` to 3, from where the startup ticks
count it down, and `entry` goes on to print its last two messages on the active terminal: the
first of them before it has enabled interrupts.

`EntrySystem` runs `entry`, the timer, the keyboard and the output of processes from `scheduler_init`
on. `indices_inRange_iff` says which steps use an index of a terminal only: all but the uses of
`active_terminal` while it still is 3, in every run in which no startup tick finds it at 0.
-/

namespace LinuxBasedOS.Terminal

open Process Lib Transition

variable {isExecutable : List UInt8 → Bool}

/-! ## The system -/

/-- The message that `entry` prints with interrupts disabled: `"Enabling Interrupts\n"`. -/
def enablingMessage : List UInt8 :=
  [69, 110, 97, 98, 108, 105, 110, 103, 32, 73, 110, 116, 101, 114, 114, 117, 112, 116, 115, 10]

/-- The message that `entry` prints after `sti`: `"this\n"`. -/
def thisMessage : List UInt8 := [116, 104, 105, 115, 10]

/-- The machine with the terminals, and what `entry` has yet to print before and after it enables
interrupts. The machine and the terminals share `active_terminal`. -/
structure EntrySystem where
  machine : Machine
  terminals : Terminals
  masked : List UInt8
  unmasked : List UInt8
  shared : terminals.activeTerminal = machine.kernel.activeTerminal

inductive EntryEvent where
  | print
  | tick (f : Frame)
  | key (scancode : UInt8)
  | write (buf : Option (Nat → UInt8)) (nbytes : Int)

/-- `printf` of a byte that is not a conversion. -/
def printByte (s : Terminals) (c : UInt8) : Terminals :=
  { s with console := putc s.console c s.activeTerminal }

def entryPrint (s : EntrySystem) : Option EntrySystem :=
  if s.machine.stack = pcbAddr 0 then
    match s.masked, s.unmasked with
    | c :: rest, _ => some
        { s with terminals := printByte s.terminals c, masked := rest, shared := s.shared }
    | [], c :: rest => some
        { s with terminals := printByte s.terminals c, unmasked := rest, shared := s.shared }
    | [], [] => none
  else none

def entryTick (isExecutable : List UInt8 → Bool) (s : EntrySystem) (f : Frame) : Option EntrySystem :=
  (outcome isExecutable s.machine (.tick f)).map fun o =>
    { s with
      machine := o.machine
      terminals := { s.terminals with activeTerminal := o.machine.kernel.activeTerminal }
      shared := rfl }

def entryKey (s : EntrySystem) (scancode : UInt8) : EntrySystem :=
  let handled := keyboardHandler s.terminals scancode
  { s with
    machine :=
      { s.machine with kernel := { s.machine.kernel with activeTerminal := handled.activeTerminal } }
    terminals := handled
    shared := rfl }

def entryWrite (s : EntrySystem) (buf : Option (Nat → UInt8)) (nbytes : Int) : EntrySystem :=
  { s with
    terminals := (terminalWrite s.terminals s.machine.kernel.pcbTerminal buf nbytes).2
    shared := (terminalWrite_activeTerminal s.terminals _ buf nbytes).trans s.shared }

/-- `entry` prints while it is on its stack; no interrupt is taken before it has enabled them, and
output is written by the process that runs. -/
def entryStep (isExecutable : List UInt8 → Bool) (s : EntrySystem) : EntryEvent → Option EntrySystem
  | .print => entryPrint s
  | .tick f => if s.masked = [] then entryTick isExecutable s f else none
  | .key scancode => if s.masked = [] then some (entryKey s scancode) else none
  | .write buf nbytes =>
    if s.masked = [] ∧ UserRuns s.machine then some (entryWrite s buf nbytes) else none

/-- `scheduler_init` has run. -/
def scheduled (memory : Nat → PCB) (terminals : Terminals) : EntrySystem where
  machine := boot memory
  terminals := { terminals with activeTerminal := 3 }
  masked := enablingMessage
  unmasked := thisMessage
  shared := rfl

/-! ## Accesses -/

inductive TerminalArray where
  | screenX
  | screenY
  | keyboardBuffer
  | keyboardBufferIdx

abbrev Access := TerminalArray × Nat

/-- The accesses of a routine of the console for terminal `t`. -/
def cursorAt (t : Nat) : List Access := [(.screenX, t), (.screenY, t)]

def eraseAccesses (s : Terminals) (scancode : UInt8) : List Access :=
  if scancode = backspaceKey then
    (.keyboardBufferIdx, s.activeTerminal) ::
      if 0 < s.keyboardBufferIdx s.activeTerminal then
        (.keyboardBuffer, s.activeTerminal) :: cursorAt s.activeTerminal
      else []
  else []

def tabAccesses (s : Terminals) (scancode : UInt8) : List Access :=
  if scancode = tabKey then cursorAt s.activeTerminal else []

def clearAccesses (s : Terminals) (scancode : UInt8) : List Access :=
  if clearsScreen s.flags scancode then cursorAt s.activeTerminal else []

def typeAccesses (s : Terminals) (scancode : UInt8) : List Access :=
  if TypesChar s.flags scancode then
    (.keyboardBufferIdx, s.activeTerminal) :: cursorAt s.activeTerminal ++
      if s.keyboardBufferIdx s.activeTerminal < bufferSize then
        [(.keyboardBuffer, s.activeTerminal)]
      else []
  else []

/-- The accesses of `keyboard_handler`, one stage after the other. -/
def keyAccesses (s : Terminals) (scancode : UInt8) : List Access :=
  let flagged := flagKey s scancode
  let erased := eraseKey flagged scancode
  let tabbed := tabulate erased scancode
  let cleared := clearScreen tabbed scancode
  eraseAccesses flagged scancode ++ tabAccesses erased scancode ++ clearAccesses tabbed scancode ++
    typeAccesses (switchTerminal cleared) scancode

/-- The accesses of a step to the arrays of the terminals; `switch_tasks` makes none. -/
def accesses (s : EntrySystem) : EntryEvent → List Access
  | .print => match s.masked ++ s.unmasked with
    | [] => []
    | _ :: _ => cursorAt s.terminals.activeTerminal
  | .tick _ => []
  | .key scancode => keyAccesses s.terminals scancode
  | .write buf nbytes =>
    (writtenBytes buf nbytes).flatMap fun _ => cursorAt s.machine.kernel.pcbTerminal

/-- Every index that the step uses is that of a terminal. -/
def IndicesInRange (s : EntrySystem) (e : EntryEvent) : Prop := ∀ access ∈ accesses s e, access.2 < 3

/-! ## The condition -/

/-- The key uses the line or the screen of the active terminal. -/
def UsesActive (k : Flags) (scancode : UInt8) : Prop :=
  scancode = backspaceKey ∨ scancode = tabKey ∨ clearsScreen k scancode = true ∨
    TypesChar k scancode

/-- `active_terminal` is no longer the 3 of `scheduler_init`, if the step uses it. -/
def ActiveSet (s : EntrySystem) : EntryEvent → Prop
  | .print => s.masked ++ s.unmasked ≠ [] → s.terminals.activeTerminal ≠ 3
  | .key scancode => UsesActive (newFlags s.terminals.flags scancode) scancode →
    s.terminals.activeTerminal ≠ 3
  | .tick _ | .write _ _ => True

/-- A startup tick does not find the counter at 0. -/
def CounterPositive (s : EntrySystem) : EntryEvent → Prop
  | .tick _ => s.machine.kernel.scheduleStarted ≠ 1 → s.machine.kernel.activeTerminal ≠ 0
  | _ => True

instance (s : EntrySystem) : (e : EntryEvent) → Decidable (CounterPositive s e)
  | .tick _ => inferInstanceAs (Decidable (_ → _))
  | .print | .key _ | .write _ _ => .isTrue trivial

/-! ## Keys -/

theorem mem_cursorAt {t : Nat} {access : Access} (h : access ∈ cursorAt t) : access.2 = t := by
  simp only [cursorAt, List.mem_cons, List.not_mem_nil, or_false] at h
  rcases h with rfl | rfl
  · rfl
  · rfl

section Key

variable {s : Terminals} {scancode : UInt8} {access : Access}

theorem mem_eraseAccesses (h : access ∈ eraseAccesses s scancode) :
    access.2 = s.activeTerminal ∧ scancode = backspaceKey := by
  unfold eraseAccesses at h
  split_ifs at h with hkey hidx
  · refine ⟨?_, hkey⟩
    rcases List.mem_cons.mp h with rfl | h
    · rfl
    · rcases List.mem_cons.mp h with rfl | h
      · rfl
      · exact mem_cursorAt h
  · rw [List.mem_singleton.mp h]
    exact ⟨rfl, hkey⟩
  · cases h

theorem mem_typeAccesses (h : access ∈ typeAccesses s scancode) :
    access.2 = s.activeTerminal ∧ TypesChar s.flags scancode := by
  unfold typeAccesses at h
  split_ifs at h with hkey hidx
  · refine ⟨?_, hkey⟩
    rcases List.mem_append.mp h with h | h
    · rcases List.mem_cons.mp h with rfl | h
      · rfl
      · exact mem_cursorAt h
    · rw [List.mem_singleton.mp h]
  · refine ⟨?_, hkey⟩
    rw [List.append_nil] at h
    rcases List.mem_cons.mp h with rfl | h
    · rfl
    · exact mem_cursorAt h
  · cases h

/-- The stages before the switch of terminals see the active terminal of the call. -/
theorem stages_activeTerminal (s : Terminals) (scancode : UInt8) :
    (eraseKey (flagKey s scancode) scancode).activeTerminal = s.activeTerminal ∧
      (tabulate (eraseKey (flagKey s scancode) scancode) scancode).activeTerminal =
        s.activeTerminal := by
  have herased : (eraseKey (flagKey s scancode) scancode).activeTerminal = s.activeTerminal :=
    eraseKey_activeTerminal (flagKey s scancode) scancode
  exact ⟨herased, (tabulate_activeTerminal _ _).trans herased⟩

theorem stages_flags :
    (tabulate (eraseKey (flagKey s scancode) scancode) scancode).flags =
      newFlags s.flags scancode :=
  (tabulate_flags _ _).trans (eraseKey_flags (flagKey s scancode) scancode)

/-- No character is typed while the terminal is switched. -/
theorem TypesChar.activeTerminal (h : TypesChar (newFlags s.flags scancode) scancode) :
    (beforeTyping s scancode).activeTerminal = s.activeTerminal := by
  rw [beforeTyping_activeTerminal, h.chord]
  rfl

/-- All accesses of `keyboard_handler` are to the active terminal. -/
theorem mem_keyAccesses (h : access ∈ keyAccesses s scancode) :
    access.2 = s.activeTerminal ∧ UsesActive (newFlags s.flags scancode) scancode := by
  obtain ⟨herased, htabbed⟩ := stages_activeTerminal s scancode
  rcases List.mem_append.mp h with h | htyped
  · rcases List.mem_append.mp h with h | hclear
    · rcases List.mem_append.mp h with hback | htab
      · obtain ⟨hindex, hkey⟩ := mem_eraseAccesses hback
        exact ⟨hindex, Or.inl hkey⟩
      · unfold tabAccesses at htab
        split_ifs at htab with hkey
        · exact ⟨(mem_cursorAt htab).trans herased, Or.inr (Or.inl hkey)⟩
        · cases htab
    · unfold clearAccesses at hclear
      rw [stages_flags] at hclear
      split_ifs at hclear with hkey
      · exact ⟨(mem_cursorAt hclear).trans htabbed, Or.inr (Or.inr (Or.inl hkey))⟩
      · cases hclear
  · obtain ⟨hindex, htypes⟩ := mem_typeAccesses (s := beforeTyping s scancode) htyped
    rw [beforeTyping_flags] at htypes
    exact ⟨hindex.trans htypes.activeTerminal, Or.inr (Or.inr (Or.inr htypes))⟩

/-- A key that uses the active terminal makes an access to it. -/
theorem exists_keyAccess (h : UsesActive (newFlags s.flags scancode) scancode) :
    ∃ array, (array, s.activeTerminal) ∈ keyAccesses s scancode := by
  obtain ⟨herased, htabbed⟩ := stages_activeTerminal s scancode
  unfold keyAccesses
  simp only [List.mem_append]
  rcases h with hback | htab | hclear | htypes
  · refine ⟨.keyboardBufferIdx, Or.inl (Or.inl (Or.inl ?_))⟩
    rw [eraseAccesses, if_pos hback]
    exact List.mem_cons_self
  · refine ⟨.screenX, Or.inl (Or.inl (Or.inr ?_))⟩
    rw [tabAccesses, if_pos htab, herased]
    exact List.mem_cons_self
  · refine ⟨.screenX, Or.inl (Or.inr ?_)⟩
    rw [clearAccesses, stages_flags, if_pos hclear, htabbed]
    exact List.mem_cons_self
  · refine ⟨.keyboardBufferIdx, Or.inr ?_⟩
    have htypes' : TypesChar (beforeTyping s scancode).flags scancode := by
      rw [beforeTyping_flags]
      exact htypes
    show _ ∈ typeAccesses (beforeTyping s scancode) scancode
    rw [typeAccesses, if_pos htypes', htypes.activeTerminal]
    exact List.mem_append_left _ List.mem_cons_self

end Key

/-! ## One step -/

/-- The invariant: the machine is one that ticks and keys lead to. -/
def EntryInv (s : EntrySystem) : Prop := ∃ n r, TickInv s.machine n r

section Step

variable {s s' : EntrySystem} {e : EntryEvent}

theorem chord_le (k : Flags) {terminal : Nat} (h : terminal ≤ 3) : (chord k).getD terminal ≤ 3 := by
  unfold chord
  split_ifs
  · exact Nat.zero_le 3
  · exact Nat.le_add_left 1 2
  · exact Nat.le_add_left 2 1
  · exact h

theorem EntryInv.step (h : EntryInv s) (hcounter : CounterPositive s e)
    (hs : entryStep isExecutable s e = some s') : EntryInv s' := by
  obtain ⟨n, r, hinv⟩ := h
  cases e with
  | print =>
    have hmachine : s'.machine = s.machine := by
      simp only [entryStep, entryPrint] at hs
      split_ifs at hs
      split at hs
      · cases hs
        rfl
      · cases hs
        rfl
      · cases hs
    rw [EntryInv, hmachine]
    exact ⟨n, r, hinv⟩
  | tick f =>
    simp only [entryStep] at hs
    split_ifs at hs
    obtain ⟨o, ho, rfl⟩ := Option.map_eq_some_iff.mp hs
    exact hinv.tick hcounter ho
  | key scancode =>
    simp only [entryStep] at hs
    split_ifs at hs
    cases hs
    refine ⟨n, r, hinv.key ?_⟩
    rw [keyboardHandler_activeTerminal, s.shared]
    exact chord_le _ hinv.active
  | write buf nbytes =>
    simp only [entryStep] at hs
    split_ifs at hs
    cases hs
    exact ⟨n, r, hinv⟩

/-- The active terminal is a terminal, or the 3 of `scheduler_init`. -/
theorem EntryInv.active (h : EntryInv s) :
    s.terminals.activeTerminal < 3 ↔ s.terminals.activeTerminal ≠ 3 := by
  obtain ⟨n, r, hinv⟩ := h
  have hactive := hinv.active
  have hshared := s.shared
  omega

theorem EntryInv.inRange_iff (h : EntryInv s) (e : EntryEvent) :
    IndicesInRange s e ↔ ActiveSet s e := by
  cases e with
  | print =>
    unfold IndicesInRange accesses ActiveSet
    rw [← h.active]
    cases s.masked ++ s.unmasked with
    | nil => simp
    | cons c rest =>
      constructor
      · intro hrange _
        exact hrange (.screenX, _) List.mem_cons_self
      · intro hactive access haccess
        rw [mem_cursorAt haccess]
        exact hactive (List.cons_ne_nil _ _)
  | tick f =>
    refine iff_of_true ?_ trivial
    intro access haccess
    cases haccess
  | key scancode =>
    unfold ActiveSet
    rw [← h.active]
    constructor
    · intro hrange huses
      obtain ⟨array, haccess⟩ := exists_keyAccess huses
      exact hrange _ haccess
    · intro hactive access haccess
      obtain ⟨hindex, huses⟩ := mem_keyAccesses haccess
      rw [hindex]
      exact hactive huses
  | write buf nbytes =>
    refine iff_of_true ?_ trivial
    intro access haccess
    obtain ⟨n, r, hinv⟩ := h
    obtain ⟨_, _, hcursor⟩ := List.mem_flatMap.mp haccess
    rw [mem_cursorAt hcursor]
    exact hinv.terminal

end Step

/-! ## Runs -/

/-- **Indices of terminals.** At every step of a run in which no startup tick finds the counter at
0, the indices into the arrays of the terminals are 0, 1 or 2 if and only if `active_terminal` is
no longer 3 or the step does not use it. -/
theorem indices_inRange_iff (memory : Nat → PCB) (terminals : Terminals) (es : List EntryEvent)
    (hcounter : Along (entryStep isExecutable) CounterPositive (scheduled memory terminals) es) :
    Along (entryStep isExecutable) (fun s e => IndicesInRange s e ↔ ActiveSet s e)
      (scheduled memory terminals) es := by
  refine along_of_invariant (I := EntryInv) ?_ ?_ hcounter ⟨0, 0, tickInv_boot memory⟩
  · intro s e s' h hc hs
    exact h.step hc hs
  · intro s e h _
    exact h.inRange_iff e

/-- The terminals before the first key. -/
def blankTerminals : Terminals where
  flags := ⟨0, 0, 0, 0, 0, 0, 0⟩
  enterStatus := 0
  keyboardBuffer := fun _ => 0
  keyboardBufferIdx := fun _ => 0
  activeTerminal := 0
  console := homeConsole (fun _ => 0) 0

/-- The first message, the three startup ticks, a letter, a switch of tasks and some output. -/
def bootRun : List EntryEvent :=
  List.replicate 20 .print ++ [.tick (frameOf 0), .tick (frameOf 1), .tick (frameOf 2), .key 30,
    .tick (frameOf 3), .write (some fun _ => 97) 2]

theorem indices_inRange_bootRun :
    (run (entryStep programs) (scheduled (fun _ => zeroPCB) blankTerminals) bootRun).isSome = true ∧
      Along (entryStep programs) (fun s e => IndicesInRange s e ↔ ActiveSet s e)
        (scheduled (fun _ => zeroPCB) blankTerminals) bootRun :=
  ⟨by decide +kernel, indices_inRange_iff _ _ _ (by decide +kernel)⟩

/-- The first byte of the first message uses `screen_x[3]`. -/
theorem bootMessage_index_three :
    ¬ ∀ (isExecutable : List UInt8 → Bool) (memory : Nat → PCB) (terminals : Terminals)
        (es : List EntryEvent),
      Along (entryStep isExecutable) IndicesInRange (scheduled memory terminals) es := by
  intro hall
  have hrange := (hall programs (fun _ => zeroPCB) blankTerminals [.print]).1
  have hthree : (3 : Nat) < 3 := hrange (.screenX, 3) List.mem_cons_self
  omega

end LinuxBasedOS.Terminal
