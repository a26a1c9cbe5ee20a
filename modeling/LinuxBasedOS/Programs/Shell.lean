import LinuxBasedOS.Lib.Numbers
import LinuxBasedOS.Programs.Grep
import LinuxBasedOS.Programs.System

/-!
# The shell

`main` of the shell prints its prompt, reads a line into `buf`, hands the line over to `execute` and
says what has come of it, until the line is `exit`. `session` is what is to happen for the lines that
are typed and what the commands return; `shell_session` is that it does, with nothing stored outside
of the two buffers.
-/

namespace LinuxBasedOS.Programs

open Word Stores Lib Filesystem Files Process Loops

/-- `ece391_strcmp`, with a number of turns for its loop. The second string is a literal. -/
def ece391Strcmp (mem literal : Nat → UInt8) : Nat → Nat → Nat → Option Int
  | 0, _, _ => none
  | fuel + 1, s1, s2 =>
    if mem s1 = literal s2 then
      if mem s1 = 0 then some 0 else ece391Strcmp mem literal fuel (s1 + 1) (s2 + 1)
    else some ((mem s1).toNat - (literal s2).toNat)

/-- What `main` does with what `execute` has returned. -/
def shellReport (h : Host) (bufme fuel : Nat) (rval : Int) : Program (Option Int) := do
  if -1 = rval then
    h.ece391Fdputs 1 (bytesOf "no such command\n")
    pure none
  else if 256 = rval then
    h.ece391Fdputs 1 (bytesOf "program terminated by exception\n")
    pure none
  else if 0 ≠ rval then
    let w ← get
    let memory ← StateT.lift (ece391Itoa fuel w.memory (u32 rval) bufme 10)
    modify fun w => { w with memory := memory }
    h.ece391Fdputs 1 (stringAt memory bufme)
    h.ece391Fdputs 1 (bytesOf "program terminated abnormally\n")
    pure none
  else pure none

/-- The rest of a turn, when `buf` has the line. -/
def shellCommand (h : Host) (buf bufme fuel : Nat) : Program (Option Int) := do
  let w ← get
  let r ← StateT.lift (ece391Strcmp w.memory (cstr (bytesOf "exit")) fuel buf 0)
  if 0 = r then pure (some 0)
  else if 0 = w.memory buf then pure none
  else
    let rval ← ece391Execute (stringAt w.memory buf)
    shellReport h bufme fuel rval

/-- A turn of the `while` loop of `main`. -/
def shellTurn (h : Host) (buf bufme fuel : Nat) : Program (Option Int) := do
  h.ece391Fdputs 1 (bytesOf "391OS> ")
  let cnt ← h.ece391Read 0 buf 1023
  if -1 = cnt then
    h.ece391Fdputs 1 (bytesOf "read from keyboard failed\n")
    pure (some 3)
  else
    let w ← get
    let cnt := if cnt > 0 ∧ w.memory (buf + (cnt - 1).toNat) = 10 then cnt - 1 else cnt
    modify fun w => w.fill (buf + cnt.toNat) [0]
    shellCommand h buf bufme fuel

/-- `main` of the shell, with `buf` and `bufme` at addresses and a number of turns for its loops. -/
def shellMain (h : Host) (buf bufme fuel : Nat) : Program Int := do
  h.ece391Fdputs 1 (bytesOf "Starting 391 Shell\n")
  loop (shellTurn h buf bufme fuel) fuel

/-! ## Sessions -/

def strippedLine (line : List UInt8) : List UInt8 :=
  if line.getLast? = some 10 then line.dropLast else line

/-- The command in a line that has been read: without the newline, and up to the first NUL. -/
def typedCommand (line : List UInt8) : List UInt8 := (strippedLine line).takeWhile fun c => c != 0

/-- What the shell says of a command that has returned. -/
def shellSays (answer : Int) : List UInt8 :=
  if answer = -1 then bytesOf "no such command\n"
  else if answer = 256 then bytesOf "program terminated by exception\n"
  else if answer = 0 then []
  else numeral 10 (u32 answer) ++ bytesOf "program terminated abnormally\n"

/-- What is printed, and which commands are handed over, when these lines are typed and the commands
return these values. `none`: there is no `exit` to come to. -/
def session : List (List UInt8) → List Int → Option (List UInt8 × List (List UInt8))
  | [], _ => none
  | line :: lines, answers =>
    let command := typedCommand (line.take 1023)
    if command = bytesOf "exit" then some (bytesOf "391OS> ", [])
    else if command = [] then
      (session lines answers).map fun rest => (bytesOf "391OS> " ++ rest.1, rest.2)
    else
      match answers with
      | [] => none
      | answer :: answers => (session lines answers).map fun rest =>
          (bytesOf "391OS> " ++ shellSays answer ++ rest.1, command :: rest.2)

theorem not_mem_typedCommand (line : List UInt8) : 0 ∉ typedCommand line := by
  intro hmem
  have hne := List.mem_takeWhile_imp hmem
  exact absurd hne (by decide)

/-- What one line comes to. -/
theorem session_cons {line : List UInt8} {lines : List (List UInt8)} {answers : List Int}
    {all : List UInt8 × List (List UInt8)} (h : session (line :: lines) answers = some all) :
    let command := typedCommand (line.take 1023)
    (command = bytesOf "exit" ∧ all = (bytesOf "391OS> ", [])) ∨
    (command ≠ bytesOf "exit" ∧ command = [] ∧ ∃ rest, session lines answers = some rest ∧
      all = (bytesOf "391OS> " ++ rest.1, rest.2)) ∨
    (command ≠ bytesOf "exit" ∧ command ≠ [] ∧ ∃ answer answers' rest,
      answers = answer :: answers' ∧ session lines answers' = some rest ∧
      all = (bytesOf "391OS> " ++ shellSays answer ++ rest.1, command :: rest.2)) := by
  intro command
  unfold session at h
  dsimp only at h
  split_ifs at h with hexit hempty
  · exact Or.inl ⟨hexit, (Option.some.inj h).symm⟩
  · obtain ⟨rest, hrest, hall⟩ := Option.map_eq_some_iff.mp h
    exact Or.inr (Or.inl ⟨hexit, hempty, rest, hrest, hall.symm⟩)
  · cases answers with
    | nil => cases h
    | cons answer answers =>
      obtain ⟨rest, hrest, hall⟩ := Option.map_eq_some_iff.mp h
      exact Or.inr (Or.inr ⟨hexit, hempty, answer, answers, rest, rfl, hrest, hall.symm⟩)

/-- Only commands are handed over: no empty line, no `exit`, and nothing with a NUL in it. -/
theorem session_commands {lines : List (List UInt8)} {answers : List Int}
    {all : List UInt8 × List (List UInt8)} (h : session lines answers = some all) :
    ∀ command ∈ all.2, command ≠ [] ∧ command ≠ bytesOf "exit" ∧ 0 ∉ command := by
  induction lines generalizing answers all with
  | nil => cases h
  | cons line lines ih =>
    rcases session_cons h with ⟨_, rfl⟩ | ⟨_, _, rest, hrest, rfl⟩ |
      ⟨hexit, hempty, answer, answers', rest, _, hrest, rfl⟩
    · exact fun command hmem => absurd hmem List.not_mem_nil
    · exact fun command hmem => ih hrest command hmem
    · exact List.forall_mem_cons.mpr ⟨⟨hempty, hexit, not_mem_typedCommand _⟩, ih hrest⟩

/-! ## The line in the buffer -/

theorem ece391Strcmp_spec {mem literal : Nat → UInt8} {text word : List UInt8} {s1 s2 fuel : Nat}
    (htext : 0 ∉ text) (hword : 0 ∉ word) (h1 : HoldsAt mem s1 text) (h2 : HoldsAt literal s2 word)
    (hfuel : word.length < fuel) :
    ∃ r, ece391Strcmp mem literal fuel s1 s2 = some r ∧ (0 = r ↔ text = word) := by
  induction word generalizing text s1 s2 fuel with
  | nil =>
    obtain ⟨fuel, rfl⟩ := Nat.exists_eq_add_one_of_ne_zero (Nat.ne_of_gt hfuel)
    have hend := holdsAt_nil.mp h2
    unfold ece391Strcmp
    cases text with
    | nil =>
      rw [holdsAt_nil.mp h1, hend]
      exact ⟨0, rfl, by simp⟩
    | cons c text =>
      rw [List.mem_cons, not_or] at htext
      rw [(holdsAt_cons.mp h1).1, hend, if_neg (Ne.symm htext.1)]
      have hpos : 0 < c.toNat := Nat.pos_of_ne_zero fun h => htext.1 (UInt8.toNat_inj.mp h.symm)
      refine ⟨_, rfl, iff_of_false ?_ (List.cons_ne_nil _ _)⟩
      rw [show (0 : UInt8).toNat = 0 from rfl]
      omega
  | cons d word ih =>
    rw [List.mem_cons, not_or] at hword
    rw [List.length_cons] at hfuel
    obtain ⟨fuel, rfl⟩ := Nat.exists_eq_add_one_of_ne_zero (Nat.ne_of_gt (Nat.lt_of_le_of_lt (Nat.zero_le _) hfuel))
    obtain ⟨hd, hrest⟩ := holdsAt_cons.mp h2
    unfold ece391Strcmp
    cases text with
    | nil =>
      rw [holdsAt_nil.mp h1, hd, if_neg hword.1]
      have hpos : 0 < d.toNat := Nat.pos_of_ne_zero fun h => hword.1 (UInt8.toNat_inj.mp h.symm)
      refine ⟨_, rfl, iff_of_false ?_ (List.cons_ne_nil _ _).symm⟩
      rw [show (0 : UInt8).toNat = 0 from rfl]
      omega
    | cons c text =>
      rw [List.mem_cons, not_or] at htext
      obtain ⟨hc, htail⟩ := holdsAt_cons.mp h1
      rw [hc, hd]
      by_cases heq : c = d
      · obtain ⟨r, hr, hiff⟩ := @ih text (s1 + 1) (s2 + 1) fuel htext.2 hword.2 htail hrest (by omega)
        rw [if_pos heq, if_neg (Ne.symm htext.1)]
        refine ⟨r, hr, hiff.trans ?_⟩
        rw [heq, List.cons.injEq]
        exact ⟨fun h => ⟨rfl, h⟩, fun h => h.2⟩
      · rw [if_neg heq]
        have hne : c.toNat ≠ d.toNat := fun h => heq (UInt8.toNat_inj.mp h)
        refine ⟨_, rfl, iff_of_false (by omega) fun h => heq (List.cons.inj h).1⟩

theorem holdsAt_takeWhile {mem : Nat → UInt8} {addr : Nat} {s : List UInt8}
    (h : ∀ (j : Nat) (hj : j < s.length), mem (addr + j) = s[j])
    (hend : mem (addr + s.length) = 0) : HoldsAt mem addr (s.takeWhile fun c => c != 0) := by
  induction s generalizing addr with
  | nil => exact holdsAt_nil.mpr hend
  | cons c s ih =>
    have hfirst : mem addr = c := h 0 (Nat.succ_pos _)
    by_cases hc : c = 0
    · rw [List.takeWhile_cons_of_neg (by simp [hc])]
      exact holdsAt_nil.mpr (hfirst.trans hc)
    · rw [List.takeWhile_cons_of_pos (by simp [hc])]
      refine holdsAt_cons.mpr ⟨hfirst, ih ?_ ?_⟩
      · intro j hj
        rw [Nat.add_assoc, Nat.add_comm 1 j]
        exact h (j + 1) (Nat.succ_lt_succ hj)
      · rw [Nat.add_assoc, Nat.add_comm 1]
        exact hend

theorem strippedLine_eq_take (line : List UInt8) :
    strippedLine line = line.take (strippedLine line).length := by
  unfold strippedLine
  split_ifs
  · rw [List.length_dropLast, List.dropLast_eq_take]
  · rw [List.take_length]

theorem length_strippedLine_le (line : List UInt8) : (strippedLine line).length ≤ line.length := by
  rw [strippedLine_eq_take, List.length_take]
  exact Nat.min_le_right _ _

/-- What `main` counts when it leaves out the newline. -/
theorem stripped_count (memory : Nat → UInt8) (buf : Nat) (line : List UInt8) :
    (if (line.length : Int) > 0 ∧
        place memory buf line (buf + ((line.length : Int) - 1).toNat) = 10
      then (line.length : Int) - 1 else line.length) = ((strippedLine line).length : Nat) := by
  rcases List.eq_nil_or_concat' line with rfl | ⟨front, last, rfl⟩
  · rfl
  · have hlast : place memory buf (front ++ [last])
        (buf + (((front ++ [last]).length : Int) - 1).toNat) = last := by
      rw [List.length_append, List.length_singleton,
        show (((front.length + 1 : Nat) : Int) - 1).toNat = front.length by omega,
        place_inside memory buf (by rw [List.length_append, List.length_singleton]; omega)]
      exact List.getElem_concat_length rfl _
    unfold strippedLine
    rw [hlast, List.getLast?_concat, List.dropLast_concat]
    have hlength : (front ++ [last]).length = front.length + 1 := by
      rw [List.length_append, List.length_singleton]
    by_cases h : last = 10
    · rw [if_pos ⟨by omega, h⟩, if_pos (congrArg some h), hlength]
      omega
    · rw [if_neg fun hand => h hand.2, if_neg fun heq => h (Option.some.inj heq)]

/-- The string in the buffer when the newline has been overwritten. -/
theorem holdsAt_typedCommand (memory : Nat → UInt8) (buf : Nat) (line : List UInt8) :
    HoldsAt (place (place memory buf line) (buf + (strippedLine line).length) [0]) buf
      (typedCommand line) := by
  refine holdsAt_takeWhile ?_ ?_
  · intro j hj
    have hle := length_strippedLine_le line
    have hget : (strippedLine line)[j] = (line)[j] :=
      (List.getElem_of_eq (strippedLine_eq_take line) hj).trans List.getElem_take
    rw [place_outside _ (Or.inl (by omega)), place_inside memory buf (by omega), hget]
  · exact @place_inside _ _ _ [0] 0 Nat.one_pos

/-! ## What a turn does -/

/-- Only these two buffers are stored in, and the descriptors stay. -/
structure Within (w w' : World) (buf bufme : Nat) : Prop where
  memory : ∀ a, a < buf ∨ buf + 1024 ≤ a → a < bufme ∨ bufme + 200 ≤ a → w'.memory a = w.memory a
  fileArray : w'.fileArray = w.fileArray

/-- The shell has said something. -/
structure Said (w w' : World) (buf bufme : Nat) (text : List UInt8) : Prop where
  written : w'.written = w.written ++ text
  typed : w'.typed = w.typed
  answers : w'.answers = w.answers
  commands : w'.commands = w.commands
  within : Within w w' buf bufme

/-- The world after a call that has read a line from the keyboard. -/
def World.received (w : World) (lines : List (List UInt8)) : World := { w.called with typed := lines }

section Turn

variable {h : Host} {w₀ w : World} {buf bufme fuel : Nat}

theorem shellReport_meets (hstd : Standard w.fileArray) (hfuel : 32 < fuel) (rval : Int) :
    Meets (shellReport h bufme fuel rval) w fun r w' =>
      r = none ∧ Said w w' buf bufme (shellSays rval) := by
  have hunknown : (0 : UInt8) ∉ bytesOf "no such command\n" := by decide
  have hexception : (0 : UInt8) ∉ bytesOf "program terminated by exception\n" := by decide
  have habnormal : (0 : UInt8) ∉ bytesOf "program terminated abnormally\n" := by decide
  unfold shellReport
  by_cases h1 : rval = -1
  · have hsays : shellSays rval = bytesOf "no such command\n" := if_pos h1
    rw [if_pos h1.symm, hsays]
    exact says_meets hstd hunknown ⟨rfl, rfl, rfl, rfl, rfl, fun _ _ _ => rfl, rfl⟩
  by_cases h256 : rval = 256
  · have hsays : shellSays rval = bytesOf "program terminated by exception\n" := by
      unfold shellSays
      rw [if_neg h1, if_pos h256]
    rw [if_neg (Ne.symm h1), if_pos h256.symm, hsays]
    exact says_meets hstd hexception ⟨rfl, rfl, rfl, rfl, rfl, fun _ _ _ => rfl, rfl⟩
  by_cases hzero : rval = 0
  · have hsays : shellSays rval = [] := by
      unfold shellSays
      rw [if_neg h1, if_neg h256, if_pos hzero]
    rw [if_neg (Ne.symm h1), if_neg (Ne.symm h256), if_neg (not_not.mpr hzero.symm), hsays]
    exact Meets.pure ⟨rfl, (List.append_nil _).symm, rfl, rfl, rfl, fun _ _ _ => rfl, rfl⟩
  · obtain ⟨digits, hdigits⟩ : ∃ digits, digits = numeral 10 (u32 rval) := ⟨_, rfl⟩
    have hsays : shellSays rval = digits ++ bytesOf "program terminated abnormally\n" := by
      unfold shellSays
      rw [if_neg h1, if_neg h256, if_neg hzero, hdigits]
    have h0 : 0 ∉ digits := hdigits ▸ numeral_ne_zero (by decide) (by decide) _
    have hlength : digits.length ≤ 32 :=
      hdigits ▸ (numeral_isNumeral (by decide) (by decide) (u32_lt rval)).length_le
    have hitoa : ece391Itoa fuel w.memory (u32 rval) bufme 10 =
        some (place w.memory bufme (digits ++ [0])) := by
      rw [hdigits]
      exact ece391Itoa_eq (by decide) (by decide) (u32_lt rval) hfuel w.memory bufme
    obtain ⟨memory, hmemory⟩ : ∃ memory, memory = place w.memory bufme (digits ++ [0]) := ⟨_, rfl⟩
    rw [← hmemory] at hitoa
    have hstring : stringAt memory bufme = digits := by
      rw [hmemory]
      exact stringAt_of_holdsAt h0 (by omega) (holdsAt_place _ _ _)
    rw [if_neg (Ne.symm h1), if_neg (Ne.symm h256), if_pos (Ne.symm hzero), hsays]
    refine Meets.call (StateT.run_get w) ?_
    have hlift : (StateT.lift (ece391Itoa fuel w.memory (u32 rval) bufme 10) : Program _).run w =
        some (memory, w) := by
      rw [StateT.run_lift, hitoa]
      rfl
    refine Meets.call hlift ?_
    refine Meets.call rfl ?_
    rw [hstring]
    refine Meets.call (fdputs_run (w := { w with memory := memory }) hstd h0) ?_
    refine says_meets (w := World.print { w with memory := memory } digits) hstd habnormal ⟨rfl, ?_⟩
    refine ⟨List.append_assoc _ _ _, rfl, rfl, rfl, fun a _ ha => ?_, rfl⟩
    have hout : a < bufme ∨ bufme + (digits ++ [0]).length ≤ a := by
      rw [List.length_append, List.length_singleton]
      omega
    exact (congrFun hmemory a).trans (place_outside w.memory hout)

/-- What is still to be printed and handed over comes to what was to be from the start. -/
structure InSession (w₀ : World) (buf bufme : Nat) (text : List UInt8)
    (commands : List (List UInt8)) (w : World) : Prop where
  rest : ∃ rest, session w.typed w.answers = some rest ∧ w.written ++ rest.1 = text ∧
    w.commands ++ rest.2 = commands
  within : Within w₀ w buf bufme

/-- What is to hold when the shell ends. -/
structure ShellEnds (w₀ : World) (buf bufme : Nat) (text : List UInt8)
    (commands : List (List UInt8)) (r : Int) (w : World) : Prop where
  result : r = 0
  written : w.written = text
  commands : w.commands = commands
  within : Within w₀ w buf bufme

theorem Within.standard (h : Within w₀ w buf bufme) (hstd : Standard w₀.fileArray) :
    Standard w.fileArray := by
  rw [h.fileArray]
  exact hstd

theorem Within.trans {w' : World} (h : Within w₀ w buf bufme) (h' : Within w w' buf bufme) :
    Within w₀ w' buf bufme :=
  ⟨fun a ha ha' => (h'.memory a ha ha').trans (h.memory a ha ha'),
    h'.fileArray.trans h.fileArray⟩

/-- A read of a line from the keyboard. -/
theorem keyboard_run {line : List UInt8} {lines : List (List UInt8)} (hstd : Standard w.fileArray)
    (hbuf : buf ≠ 0) (htyped : w.typed = line :: lines) (n : Nat) :
    (h.ece391Read 0 buf n).run w =
      some (((line.take n).length : Int), (w.received lines).fill buf (line.take n)) := by
  have hserved : sysRead (0 : Nat) false n (h.readRoutine w) w.fileArray =
      (h.readRoutine w .keyboard (w.fileArray 0) n).map
        (answered w.fileArray 0 .keyboard) := by
    refine dispatch_served (by decide) (by decide) (by decide) ?_ ?_
    · rw [Int.toNat_natCast, hstd.stdin]
      exact Int.one_ne_zero
    · rw [Int.toNat_natCast, hstd.stdin]
      rfl
  have hsame : Function.update w.fileArray 0
      { w.fileArray 0 with filePosition := (w.fileArray 0).filePosition } = w.fileArray :=
    Function.update_eq_self 0 w.fileArray
  suffices hbytes : (h.readBytes (0 : Nat) false n).run w =
      some ((((line.take n).length : Int), line.take n), w.received lines) from read_run hbuf hbytes
  simp only [StateT.run, Host.readBytes, hserved, Host.readRoutine, htyped, List.head?_cons,
    Option.map_some, answered, hsame, if_true, Int.toNat_natCast, List.tail_cons]
  rfl

/-- The value of a comparison in the middle of a program. -/
theorem strcmp_exit_run {command : List UInt8} (h0 : 0 ∉ command) (hfuel : 32 < fuel)
    (hline : HoldsAt w.memory buf command) :
    ∃ r, (StateT.lift (ece391Strcmp w.memory (cstr (bytesOf "exit")) fuel buf 0) :
        Program Int).run w = some (r, w) ∧ (0 = r ↔ command = bytesOf "exit") := by
  have hexit : (0 : UInt8) ∉ bytesOf "exit" := by decide
  have hlength : (bytesOf "exit").length < fuel := Nat.lt_trans (by decide) hfuel
  obtain ⟨r, hr, hiff⟩ := ece391Strcmp_spec h0 hexit hline (holdsAt_cstr _) hlength
  refine ⟨r, ?_, hiff⟩
  rw [StateT.run_lift, hr]
  rfl

/-- A line that has been read, with its prompt on the screen, is dealt with, and the last one is
`exit`. -/
theorem shellCommand_keeps {w₁ : World} {line before text : List UInt8}
    {commands : List (List UInt8)} {all : List UInt8 × List (List UInt8)}
    (hstd : Standard w₀.fileArray) (hfuel : 32 < fuel) (hwithin : Within w₀ w₁ buf bufme)
    (hline : HoldsAt w₁.memory buf (typedCommand (line.take 1023)))
    (hsession : session (line :: w₁.typed) w₁.answers = some all)
    (hprompt : w₁.written = before ++ bytesOf "391OS> ") (hwritten : before ++ all.1 = text)
    (hcommands : w₁.commands ++ all.2 = commands) (hless : w₁.typed.length < w.typed.length) :
    Meets (shellCommand h buf bufme fuel) w₁
      (Keeps (InSession w₀ buf bufme text commands) (fun w => w.typed.length)
        (ShellEnds w₀ buf bufme text commands) w) := by
  have h0 := not_mem_typedCommand (line.take 1023)
  obtain ⟨r, hr, hexit⟩ := strcmp_exit_run h0 hfuel hline
  refine Meets.call (StateT.run_get w₁) ?_
  refine Meets.call hr ?_
  rcases session_cons hsession with ⟨hcommand, rfl⟩ | ⟨hne, hempty, rest, hrest, rfl⟩ |
    ⟨hne, hcommand, answer, answers, rest, hanswers, hrest, rfl⟩
  · -- `exit`
    rw [if_pos (hexit.mpr hcommand)]
    rw [List.append_nil] at hcommands
    exact Meets.pure ⟨rfl, hprompt.trans hwritten, hcommands, hwithin⟩
  · -- an empty line
    rw [hempty] at hline
    rw [if_neg fun h => hne (hexit.mp h), if_pos (holdsAt_nil.mp hline).symm]
    refine Meets.pure ⟨⟨⟨rest, hrest, ?_, hcommands⟩, hwithin⟩, hless⟩
    rw [hprompt, List.append_assoc]
    exact hwritten
  · -- a command
    have hfirst : ¬ 0 = w₁.memory buf := by
      intro hzero
      obtain ⟨c, command, heq⟩ := List.exists_cons_of_ne_nil hcommand
      rw [heq] at hline h0
      exact h0 (List.mem_cons.mpr (Or.inl (hzero.trans (holdsAt_cons.mp hline).1)))
    have hshort : (typedCommand (line.take 1023)).length < 4294967296 := by
      have hcut : (typedCommand (line.take 1023)).length ≤ (strippedLine (line.take 1023)).length :=
        (List.takeWhile_sublist _).length_le
      have hle := length_strippedLine_le (line.take 1023)
      have hread : (line.take 1023).length ≤ 1023 := List.length_take_le _ _
      omega
    obtain ⟨w₂, hw₂⟩ : ∃ w₂ : World, w₂ =
        { w₁ with
          answers := answers
          commands := w₁.commands ++ [typedCommand (line.take 1023)]
          calls := w₁.calls + 1 } := ⟨_, rfl⟩
    have hexecute : (ece391Execute (stringAt w₁.memory buf)).run w₁ = some (answer, w₂) := by
      rw [stringAt_of_holdsAt h0 hshort hline, hw₂]
      simp only [StateT.run, ece391Execute, hanswers]
    have hwithin₂ : Within w₀ w₂ buf bufme := by
      rw [hw₂]
      exact ⟨hwithin.memory, hwithin.fileArray⟩
    rw [if_neg fun h => hne (hexit.mp h), if_neg hfirst]
    refine Meets.call hexecute ?_
    refine (@shellReport_meets h w₂ buf bufme fuel (hwithin₂.standard hstd) hfuel answer).imp fun r w' ⟨hr, hsaid⟩ => ?_
    subst hr
    refine ⟨⟨⟨rest, ?_, ?_, ?_⟩, hwithin₂.trans hsaid.within⟩, ?_⟩
    · rw [hsaid.typed, hsaid.answers, hw₂]
      exact hrest
    · rw [hsaid.written, ← hwritten, hw₂]
      simp only [hprompt, List.append_assoc]
    · rw [hsaid.commands, ← hcommands, hw₂]
      exact List.append_assoc _ _ _
    · show w'.typed.length < w.typed.length
      rw [hsaid.typed, hw₂]
      exact hless

/-- One turn of the loop. -/
theorem shellTurn_keeps {text : List UInt8} {commands : List (List UInt8)}
    (hstd : Standard w₀.fileArray) (hbuf : UserBuffer buf 1024) (hfuel : 32 < fuel)
    (hin : InSession w₀ buf bufme text commands w) :
    Meets (shellTurn h buf bufme fuel) w
      (Keeps (InSession w₀ buf bufme text commands) (fun w => w.typed.length)
        (ShellEnds w₀ buf bufme text commands) w) := by
  have hprompt : (0 : UInt8) ∉ bytesOf "391OS> " := by decide
  have hbuf0 : buf ≠ 0 := by
    have := hbuf.1
    omega
  obtain ⟨⟨all, hsession, hwritten, hcommands⟩, hwithin⟩ := hin
  have hstd' := hwithin.standard hstd
  cases htyped : w.typed with
  | nil =>
    rw [htyped] at hsession
    cases hsession
  | cons line lines =>
    rw [htyped] at hsession
    obtain ⟨bytes, hbytes⟩ : ∃ bytes, bytes = line.take 1023 := ⟨_, rfl⟩
    have hlength : bytes.length ≤ 1023 := hbytes ▸ List.length_take_le _ _
    have hread := keyboard_run (h := h) (w := w.print (bytesOf "391OS> ")) hstd' hbuf0 htyped 1023
    rw [← hbytes] at hread
    -- the world with the string in the buffer
    obtain ⟨w₁, hw₁⟩ : ∃ w₁, w₁ = (((w.print (bytesOf "391OS> ")).received lines).fill buf bytes).fill
        (buf + (strippedLine bytes).length) [0] := ⟨_, rfl⟩
    have hline : HoldsAt w₁.memory buf (typedCommand bytes) := by
      rw [hw₁]
      exact holdsAt_typedCommand w.memory buf bytes
    have hwithin₁ : Within w₀ w₁ buf bufme := by
      have hle := length_strippedLine_le bytes
      refine hwithin.trans ⟨fun a ha _ => ?_, by rw [hw₁]; rfl⟩
      rw [hw₁]
      have hend : a < buf + (strippedLine bytes).length ∨
          buf + (strippedLine bytes).length + [(0 : UInt8)].length ≤ a := by
        rw [List.length_singleton]
        omega
      exact (place_outside _ hend).trans (place_outside _ (by omega))
    refine Meets.call (fdputs_run hstd' hprompt) ?_
    refine Meets.call hread ?_
    rw [if_neg (by omega)]
    refine Meets.call (StateT.run_get _) ?_
    dsimp only
    rw [show (((w.print (bytesOf "391OS> ")).received lines).fill buf bytes).memory =
      place w.memory buf bytes from rfl, stripped_count, Int.toNat_natCast]
    refine Meets.call rfl ?_
    dsimp only
    rw [← hw₁]
    rw [hbytes] at hline
    refine @shellCommand_keeps h w₀ w buf bufme fuel w₁ line w.written text commands all hstd hfuel
      hwithin₁ hline ?_ ?_ hwritten ?_ ?_ <;> rw [hw₁]
    · exact hsession
    · rfl
    · exact hcommands
    · rw [htyped]
      exact Nat.lt_succ_self _

end Turn

/-- **The shell.** Whatever happens between the calls: when the lines that are typed come to an
`exit`, the shell ends. It has printed a prompt for each line and what there is to say of each
command, and has handed over the commands in their order; besides `buf` and `bufme` its memory is as
it was, and its descriptors are. -/
theorem shell_session {h : Host} {w : World} {buf bufme fuel : Nat} {text : List UInt8}
    {commands : List (List UInt8)} (hstd : Standard w.fileArray) (hbuf : UserBuffer buf 1024)
    (hsession : session w.typed w.answers = some (text, commands))
    (hfuel : 32 + w.typed.length < fuel) :
    Meets (shellMain h buf bufme fuel) w (ShellEnds w buf bufme
      (w.written ++ bytesOf "Starting 391 Shell\n" ++ text) (w.commands ++ commands)) := by
  have hbanner : (0 : UInt8) ∉ bytesOf "Starting 391 Shell\n" := by decide
  refine Meets.call (fdputs_run hstd hbanner) ?_
  refine Meets.loop (I := InSession w buf bufme _ _) (fun w' hin =>
    shellTurn_keeps hstd hbuf (by omega) hin) ?_ ?_
  · exact ⟨⟨(text, commands), hsession, rfl, rfl⟩, fun _ _ _ => rfl, rfl⟩
  · show w.typed.length < fuel
    omega

/-- Three lines: a command that returns 7, an empty line and `exit`. -/
theorem shell_session_sample :
    Meets (shellMain sampleHost 0x8000000 0x8001000 64)
      { startedWorld [] with typed := [bytesOf "ls\n", [10], bytesOf "exit\n"], answers := [7] }
      fun r w' => r = 0 ∧ w'.commands = [bytesOf "ls"] := by
  have hsession : session [bytesOf "ls\n", [10], bytesOf "exit\n"] [7] = some
      (bytesOf "391OS> 7program terminated abnormally\n391OS> 391OS> ", [bytesOf "ls"]) := by
    decide
  refine (@shell_session sampleHost { startedWorld [] with
    typed := [bytesOf "ls\n", [10], bytesOf "exit\n"], answers := [7] } 0x8000000 0x8001000 64 _ _
    (standard_startedWorld []) (by decide) hsession (by decide)).imp fun r w' hends => ?_
  exact ⟨hends.result, hends.commands⟩

end LinuxBasedOS.Programs
