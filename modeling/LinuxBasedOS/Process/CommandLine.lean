import LinuxBasedOS.Filesystem.Loader
import LinuxBasedOS.Process.Machine

/-!
# The command line of execute

`execute` copies the command into `k_command`, ends the program name there with a terminator and
copies the word after it into `args`. The loops run over memory and are bounded only by what they
read, so each is given by the list of the stores it makes, with the index of each. `parseStores`
is the whole parsing; for a command without a terminator inside, `parseStores_eq` says which
stores these are.

* `parse_inside_iff`: the stores stay inside `k_command[1024]` and `args[128]`, and `args` stays
  terminated, exactly when the command is not parsed at all, or is at most 1023 bytes long and has
  no run of 128 bytes without separator right after its first separator.
* `executeCall` is `execute` on the stack memory, with the filesystem. `execute_fails_cleanly` says
  when it returns -1, and that it leaves the kernel alone when it does.
-/

namespace LinuxBasedOS.Process

open Word Stores Lib Filesystem

/-! ## The loops -/

/-- `'\0'`, `' '` or `'\n'`: what ends a scan of `execute`. -/
def endsToken (c : UInt8) : Bool := c == 0 || isSeparator c

/-- `for (; '\0' != *scan && ' ' != *scan && '\n' != *scan; scan++);` -/
def scanToken (mem : Nat → UInt8) : Nat → Nat → Nat
  | 0, scan => scan
  | n + 1, scan => if endsToken (mem scan) then scan else scanToken mem n (scan + 1)

/-- The same loop with `args[i] = *(char *)scan` as its body and `i++` beside `scan++`: the
stores to `args`, and where `scan` stops. -/
def copyToken (mem : Nat → UInt8) : Nat → Nat → Nat → List (Nat × UInt8) × Nat
  | 0, scan, _ => ([], scan)
  | n + 1, scan, i =>
    if endsToken (mem scan) then ([], scan)
    else
      let rest := copyToken mem n (scan + 1) (i + 1)
      ((i, mem scan) :: rest.1, rest.2)

/-- The sizes of the two arrays. -/
def kCommandSize : Nat := 1024

def argsSize : Nat := 128

/-- `args[i] = '\0'` for each `i`. -/
def clearArgs : List (Nat × UInt8) := series 0 (List.replicate argsSize 0)

/-- The stores of the parsing to `k_command` and to `args`; `kCommand` is what the array held. No
loop takes more turns than the command has bytes, its terminator included. -/
def parseStores (kCommand : Nat → UInt8) (command : List UInt8) :
    List (Nat × UInt8) × List (Nat × UInt8) :=
  let turns := command.length + 1
  let copied := strcpyStores (cstr command) turns 0
  let mem := apply kCommand copied
  let scan := scanToken mem turns 0
  if mem scan = 0 then (copied, clearArgs)
  else
    let cut := Function.update mem scan 0
    let word := copyToken cut turns (scan + 1) 0
    if cut word.2 = 0 then (copied ++ [(scan, 0)], clearArgs ++ word.1)
    else (copied ++ [(scan, 0), (word.2, 0)], clearArgs ++ word.1)

/-! ## What the loops do on a string -/

/-- The bytes of a string before its first separator. -/
def token (s : List UInt8) : List UInt8 := s.takeWhile fun c => !isSeparator c

theorem endsToken_of_ne {c : UInt8} (h : c ≠ 0) : endsToken c = isSeparator c := by
  simp [endsToken, h]

theorem token_cons_of_sep {c : UInt8} (s : List UInt8) (h : isSeparator c = true) :
    token (c :: s) = [] := by
  simp [token, h]

theorem token_cons_of_not_sep {c : UInt8} (s : List UInt8) (h : isSeparator c = false) :
    token (c :: s) = c :: token s := by
  simp [token, h]

theorem length_token_le (s : List UInt8) : (token s).length ≤ s.length :=
  (List.takeWhile_prefix _).length_le

theorem scanToken_of_holdsAt {mem : Nat → UInt8} {s : List UInt8} {scan n : Nat} (hs : 0 ∉ s)
    (h : HoldsAt mem scan s) (hn : s.length < n) :
    scanToken mem n scan = scan + (token s).length := by
  induction s generalizing scan n with
  | nil =>
    obtain ⟨n, rfl⟩ := Nat.exists_eq_add_one.mpr hn
    rw [scanToken, holdsAt_nil.mp h]
    rfl
  | cons c s ih =>
    obtain ⟨n, rfl⟩ := Nat.exists_eq_add_one.mpr (Nat.zero_lt_of_lt hn)
    obtain ⟨hfirst, hrest⟩ := holdsAt_cons.mp h
    rw [List.mem_cons, not_or] at hs
    rw [scanToken, hfirst, endsToken_of_ne (Ne.symm hs.1)]
    cases hsep : isSeparator c with
    | true =>
      rw [if_pos rfl, token_cons_of_sep s hsep]
      rfl
    | false =>
      rw [if_neg Bool.false_ne_true, ih hs.2 hrest (Nat.lt_of_succ_lt_succ hn),
        token_cons_of_not_sep s hsep, List.length_cons]
      omega

theorem copyToken_of_holdsAt {mem : Nat → UInt8} {s : List UInt8} {scan n : Nat} (i : Nat)
    (hs : 0 ∉ s) (h : HoldsAt mem scan s) (hn : s.length < n) :
    copyToken mem n scan i = (series i (token s), scan + (token s).length) := by
  induction s generalizing scan n i with
  | nil =>
    obtain ⟨n, rfl⟩ := Nat.exists_eq_add_one.mpr hn
    rw [copyToken, holdsAt_nil.mp h]
    rfl
  | cons c s ih =>
    obtain ⟨n, rfl⟩ := Nat.exists_eq_add_one.mpr (Nat.zero_lt_of_lt hn)
    obtain ⟨hfirst, hrest⟩ := holdsAt_cons.mp h
    rw [List.mem_cons, not_or] at hs
    rw [copyToken, hfirst, endsToken_of_ne (Ne.symm hs.1)]
    cases hsep : isSeparator c with
    | true =>
      rw [if_pos rfl, token_cons_of_sep s hsep]
      rfl
    | false =>
      rw [if_neg Bool.false_ne_true, ih (i + 1) hs.2 hrest (Nat.lt_of_succ_lt_succ hn),
        token_cons_of_not_sep s hsep, List.length_cons, Nat.add_right_comm, Nat.add_assoc]
      rfl

/-! ## The parsing -/

section Parse

variable {command : List UInt8}

/-- The program name of a command. -/
def commandName (command : List UInt8) : List UInt8 := (parseCommand command).1

/-- The word that is kept as the arguments. -/
def commandWord (command : List UInt8) : List UInt8 := (parseCommand command).2

theorem commandName_eq (command : List UInt8) : commandName command = token command := rfl

theorem commandWord_eq (command : List UInt8) :
    commandWord command = token (command.drop ((commandName command).length + 1)) := by
  rw [commandWord, commandName, parseCommand, List.drop_drop]
  rfl

theorem not_mem_commandWord (h0 : 0 ∉ command) : 0 ∉ commandWord command := by
  rw [commandWord_eq]
  intro hmem
  exact h0 (List.mem_of_mem_drop ((List.takeWhile_prefix _).subset hmem))

/-- Where the word ends. -/
def wordEnd (command : List UInt8) : Nat :=
  (commandName command).length + 1 + (commandWord command).length

/-- The terminators that the parsing puts over separators of the command. -/
def terminators (command : List UInt8) : List (Nat × UInt8) :=
  if (commandName command).length < command.length then
    if wordEnd command < command.length then [((commandName command).length, 0), (wordEnd command, 0)]
    else [((commandName command).length, 0)]
  else []

theorem length_commandName_le (command : List UInt8) :
    (commandName command).length ≤ command.length := length_token_le command

theorem length_commandWord_le (command : List UInt8) :
    (commandWord command).length ≤ command.length - ((commandName command).length + 1) := by
  have hle := length_token_le (command.drop ((commandName command).length + 1))
  rw [List.length_drop, ← commandWord_eq] at hle
  exact hle

theorem wordEnd_le (h : (commandName command).length < command.length) :
    wordEnd command ≤ command.length := by
  have hword := length_commandWord_le command
  unfold wordEnd
  omega

/-- The terminators stand at the end of the name or after it, inside the command. -/
theorem mem_terminators {store : Nat × UInt8} (h : store ∈ terminators command) :
    (commandName command).length ≤ store.1 ∧ store.1 < command.length := by
  unfold terminators at h
  split_ifs at h with hname hword
  · rcases List.mem_pair.mp h with rfl | rfl
    · exact ⟨Nat.le_refl _, hname⟩
    · refine ⟨?_, hword⟩
      unfold wordEnd
      dsimp only
      omega
  · rw [List.mem_singleton.mp h]
    exact ⟨Nat.le_refl _, hname⟩
  · exact absurd h List.not_mem_nil

/-- After the copy the array holds the command. -/
theorem holdsAt_copied (kCommand : Nat → UInt8) (h0 : 0 ∉ command) :
    HoldsAt (apply kCommand (strcpyStores (cstr command) (command.length + 1) 0)) 0 command := by
  rw [strcpyStores_eq_series h0 (holdsAt_cstr command) (Nat.lt_succ_self _), apply_series]
  exact holdsAt_place kCommand 0 command

/-- **The parsing** of a command, whatever the arrays held. -/
theorem parseStores_eq (kCommand : Nat → UInt8) (h0 : 0 ∉ command) :
    parseStores kCommand command =
      (series 0 (command ++ [0]) ++ terminators command,
        clearArgs ++ series 0 (commandWord command)) := by
  have hheld := holdsAt_copied kCommand h0
  have hcopied := strcpyStores_eq_series h0 (holdsAt_cstr command) (Nat.lt_succ_self _)
  have hle := length_commandName_le command
  unfold parseStores
  dsimp only
  rw [hcopied] at hheld ⊢
  generalize apply kCommand (series 0 (command ++ [0])) = mem at hheld ⊢
  rw [scanToken_of_holdsAt h0 hheld (Nat.lt_succ_self _), Nat.zero_add, ← commandName_eq]
  have hat := hheld _ hle
  rw [Nat.zero_add] at hat
  rcases Nat.eq_or_lt_of_le hle with heq | hlt
  · -- there is no separator: nothing is cut off and there is no word
    have hword : commandWord command = [] := by
      rw [commandWord_eq, List.drop_eq_nil_of_le (by omega)]
      rfl
    rw [if_pos (by rw [hat, cstr_of_le (Nat.le_of_eq heq.symm)]), terminators,
      if_neg (by omega), List.append_nil, hword, series, List.append_nil]
  · have hword : HoldsAt (Function.update mem (commandName command).length 0)
        ((commandName command).length + 1) (command.drop ((commandName command).length + 1)) := by
      intro j hj
      have hrest := hheld.drop hlt j hj
      rw [Function.update_of_ne (by omega)]
      rw [Nat.zero_add] at hrest
      exact hrest
    have h0' : 0 ∉ command.drop ((commandName command).length + 1) :=
      fun hmem => h0 (List.mem_of_mem_drop hmem)
    have hturns : (command.drop ((commandName command).length + 1)).length < command.length + 1 := by
      rw [List.length_drop]
      omega
    rw [if_neg (by rw [hat]; exact cstr_ne_zero h0 hlt), copyToken_of_holdsAt 0 h0' hword hturns,
      ← commandWord_eq, terminators, if_pos hlt]
    change (if Function.update mem (commandName command).length 0 (wordEnd command) = 0 then
      _ else _) = _
    have hend := wordEnd_le hlt
    have hcell := hheld _ hend
    rw [Nat.zero_add] at hcell
    rw [Function.update_of_ne (by unfold wordEnd; omega), hcell]
    rcases Nat.eq_or_lt_of_le hend with heq | hinside
    · rw [if_pos (cstr_of_le (Nat.le_of_eq heq.symm)), if_neg (by omega)]
    · rw [if_neg (cstr_ne_zero h0 hinside), if_pos hinside]
      rfl

/-! ## The arrays after the parsing -/

/-- `k_command` after the parsing: the program name, and a terminator after it. -/
theorem holdsAt_commandName (kCommand : Nat → UInt8) (h0 : 0 ∉ command) :
    HoldsAt (apply kCommand (parseStores kCommand command).1) 0 (commandName command) := by
  have hle := length_commandName_le command
  rw [parseStores_eq kCommand h0]
  dsimp only
  rw [apply_append, apply_series]
  have hheld := holdsAt_place kCommand 0 command
  have hname : ∀ j < (commandName command).length, cstr (commandName command) j = cstr command j := by
    intro j hj
    rw [cstr_of_lt hj, cstr_of_lt (by omega)]
    exact (List.takeWhile_prefix _).getElem hj
  intro j hj
  rcases Nat.eq_or_lt_of_le hj with rfl | hlt
  · rw [cstr_of_le (Nat.le_refl _), Nat.zero_add, terminators]
    split_ifs with hinside hword
    · have hne : wordEnd command ≠ (commandName command).length := by
        unfold wordEnd
        omega
      simp only [apply, List.foldl_cons, List.foldl_nil]
      rw [Function.update_of_ne (Ne.symm hne), Function.update_self]
    · exact Function.update_self _ _ _
    · have hend := hheld _ hle
      rw [Nat.zero_add, cstr_of_le (by omega)] at hend
      exact hend
  · have hbyte := hheld j (by omega)
    rw [apply_of_forall_ne, hbyte, hname j hlt]
    intro store hstore
    have := (mem_terminators hstore).1
    omega

/-- `args` after the parsing: the word, then terminators to the end of the array. -/
theorem args_parsed (kCommand args : Nat → UInt8) (h0 : 0 ∉ command) (j : Nat) :
    apply args (parseStores kCommand command).2 j =
      if j < (commandWord command).length ∨ j < argsSize then cstr (commandWord command) j
      else args j := by
  rw [parseStores_eq kCommand h0]
  dsimp only [clearArgs]
  rw [apply_append, apply_series, apply_series]
  have hzeros : ∀ j, place args 0 (List.replicate argsSize 0) j = if j < argsSize then 0 else args j := by
    intro j
    split_ifs with hj
    · have hin := @place_inside UInt8 args 0 (List.replicate argsSize 0) j
        (by rw [List.length_replicate]; exact hj)
      rw [Nat.zero_add] at hin
      rw [hin, List.getElem_replicate]
    · refine place_outside args (Or.inr ?_)
      rw [List.length_replicate]
      omega
  rcases Nat.lt_or_ge j (commandWord command).length with hlt | hge
  · have hin := place_inside (place args 0 (List.replicate argsSize 0)) 0 hlt
    rw [Nat.zero_add] at hin
    rw [hin, if_pos (Or.inl hlt), cstr_of_lt hlt]
  · rw [place_outside _ (Or.inr (by omega)), hzeros, cstr_of_le hge]
    refine if_congr ?_ rfl rfl
    omega

end Parse

/-! ## Bounds -/

/-- The stores of the parsing stay inside the two arrays, and `args` ends inside its array. -/
structure ParsesInside (kCommand args : Nat → UInt8) (command : List UInt8) : Prop where
  kCommand_lt : ∀ store ∈ (parseStores kCommand command).1, store.1 < kCommandSize
  args_lt : ∀ store ∈ (parseStores kCommand command).2, store.1 < argsSize
  terminated : ∃ n < argsSize, apply args (parseStores kCommand command).2 n = 0

instance (kCommand args : Nat → UInt8) (command : List UInt8) :
    Decidable (ParsesInside kCommand args command) :=
  decidable_of_iff ((∀ store ∈ (parseStores kCommand command).1, store.1 < kCommandSize) ∧
      (∀ store ∈ (parseStores kCommand command).2, store.1 < argsSize) ∧
      ∃ n < argsSize, apply args (parseStores kCommand command).2 n = 0)
    ⟨fun h => ⟨h.1, h.2.1, h.2.2⟩, fun h => ⟨h.1, h.2, h.3⟩⟩

/-- The call gets past the two checks that come before the parsing. -/
def IsParsed (k : Kernel) (command : List UInt8) : Prop :=
  ¬ strlen command < 1 ∧ ¬ 7 ≤ k.totalTasks

/-- Right after the first separator of the command come 128 bytes that are none. -/
def LongWord (command : List UInt8) : Prop :=
  ∃ name sep word rest, command = name ++ sep :: (word ++ rest) ∧
    (∀ c ∈ name, isSeparator c = false) ∧ isSeparator sep = true ∧
    (∀ c ∈ word, isSeparator c = false) ∧ word.length = argsSize

theorem token_append {s rest : List UInt8} (h : ∀ c ∈ s, isSeparator c = false) :
    token (s ++ rest) = s ++ token rest := by
  refine List.takeWhile_append_of_pos ?_
  intro c hc
  rw [h c hc]
  rfl

theorem isSeparator_of_mem_token {s : List UInt8} {c : UInt8} (h : c ∈ token s) :
    isSeparator c = false := by
  have hc := List.mem_takeWhile_imp h
  simpa using hc

/-- A string is one token, or its first token ends at a separator. -/
theorem token_split (s : List UInt8) :
    token s = s ∨ ∃ sep rest, isSeparator sep = true ∧ s = token s ++ sep :: rest := by
  induction s with
  | nil => exact Or.inl rfl
  | cons c s ih =>
    cases hsep : isSeparator c with
    | true =>
      rw [token_cons_of_sep s hsep]
      exact Or.inr ⟨c, s, hsep, rfl⟩
    | false =>
      rw [token_cons_of_not_sep s hsep]
      rcases ih with heq | ⟨sep, rest, hsep', heq⟩
      · exact Or.inl (congrArg (List.cons c) heq)
      · exact Or.inr ⟨sep, rest, hsep', congrArg (List.cons c) heq⟩

/-- The parts of a command that begins with a name and a separator. -/
theorem commandParts {name rest : List UInt8} {sep : UInt8}
    (hname : ∀ c ∈ name, isSeparator c = false) (hsep : isSeparator sep = true) :
    commandName (name ++ sep :: rest) = name ∧ commandWord (name ++ sep :: rest) = token rest := by
  have heq : commandName (name ++ sep :: rest) = name := by
    rw [commandName_eq, token_append hname, token_cons_of_sep rest hsep, List.append_nil]
  refine ⟨heq, ?_⟩
  rw [commandWord_eq, heq, List.append_cons, List.drop_left']
  rw [List.length_append, List.length_singleton]

theorem longWord_iff {command : List UInt8} :
    LongWord command ↔ argsSize ≤ (commandWord command).length := by
  constructor
  · rintro ⟨name, sep, word, rest, rfl, hname, hsep, hword, hlength⟩
    rw [(commandParts hname hsep).2, token_append hword, List.length_append, hlength]
    exact Nat.le_add_right _ _
  · intro hle
    rcases token_split command with heq | ⟨sep, rest, hsep, heq⟩
    · -- without a separator there is no word
      rw [commandWord_eq, commandName_eq, heq, List.drop_eq_nil_of_le (Nat.le_succ _)] at hle
      exact absurd hle (by decide)
    · have hname : ∀ c ∈ token command, isSeparator c = false := fun c => isSeparator_of_mem_token
      generalize token command = name at heq hname
      subst heq
      rw [(commandParts hname hsep).2] at hle
      obtain ⟨after, hafter⟩ : token rest <+: rest := List.takeWhile_prefix _
      refine ⟨name, sep, (token rest).take argsSize, (token rest).drop argsSize ++ after, ?_,
        hname, hsep, ?_, List.length_take_of_le hle⟩
      · rw [← List.append_assoc, List.take_append_drop, hafter]
      · intro c hc
        exact isSeparator_of_mem_token (List.mem_of_mem_take hc)

/-- The parsing stays inside the arrays exactly when the command and its word are short enough. -/
theorem parsesInside_iff {command : List UInt8} (kCommand args : Nat → UInt8) (h0 : 0 ∉ command) :
    ParsesInside kCommand args command ↔
      command.length < kCommandSize ∧ (commandWord command).length < argsSize := by
  constructor
  · rintro ⟨hkCommand, -, n, hn, hzero⟩
    rw [parseStores_eq kCommand h0] at hkCommand
    constructor
    · have hcopy := (forall_series_lt (command ++ [0]) (Nat.zero_le kCommandSize)).mp
        (List.forall_mem_append.mp hkCommand).1
      rw [List.length_append, List.length_singleton] at hcopy
      omega
    · rw [args_parsed kCommand args h0, if_pos (Or.inr hn)] at hzero
      by_contra hlong
      exact cstr_ne_zero (not_mem_commandWord h0) (by omega) hzero
  · rintro ⟨hlength, hword⟩
    refine ⟨?_, ?_, (commandWord command).length, hword, ?_⟩
    · rw [parseStores_eq kCommand h0, List.forall_mem_append]
      constructor
      · rw [forall_series_lt _ (Nat.zero_le _), List.length_append, List.length_singleton]
        omega
      · intro store hstore
        have := (mem_terminators hstore).2
        omega
    · rw [parseStores_eq kCommand h0, List.forall_mem_append, clearArgs,
        forall_series_lt _ (Nat.zero_le _), forall_series_lt _ (Nat.zero_le _),
        List.length_replicate]
      omega
    · rw [args_parsed kCommand args h0, if_pos (Or.inr hword), cstr_of_le (Nat.le_refl _)]

/-- **Bounds of the parsing.** For every command string, of any length: when it is parsed, the
stores stay inside `k_command` and `args`, `args` ends inside its array, and so does the copy of
it in the PCB, exactly when the command fits and has no long word. -/
theorem parse_inside_iff (k : Kernel) (kCommand args : Nat → UInt8) {command : List UInt8}
    (h0 : 0 ∉ command) :
    (IsParsed k command → ParsesInside kCommand args command ∧
      ∀ n, ∀ store ∈ strcpyStores (apply args (parseStores kCommand command).2) n 0,
        store.1 < argsSize) ↔
      command = [] ∨ 7 ≤ k.totalTasks ∨ command.length < kCommandSize ∧ ¬ LongWord command := by
  have hparsed : IsParsed k command ↔ ¬ command = [] ∧ ¬ 7 ≤ k.totalTasks := by
    rw [IsParsed, strlen_of_not_mem h0, ← List.length_eq_zero_iff]
    omega
  have hshort : ¬ LongWord command ↔ (commandWord command).length < argsSize := by
    rw [longWord_iff, Nat.not_le]
  rw [hparsed, hshort]
  constructor
  · intro h
    by_contra hnot
    rw [not_or, not_or] at hnot
    obtain ⟨hempty, htasks, hbounds⟩ := hnot
    exact hbounds ((parsesInside_iff kCommand args h0).mp (h ⟨hempty, htasks⟩).1)
  · rintro hcond ⟨hempty, htasks⟩
    have hbounds := (hcond.resolve_left hempty).resolve_left htasks
    have hinside := (parsesInside_iff kCommand args h0).mpr hbounds
    refine ⟨hinside, ?_⟩
    obtain ⟨last, hlast, hzero⟩ := hinside.terminated
    intro n store hstore
    have := strcpyStores_le hzero n (Nat.zero_le last) store hstore
    omega

/-- The command `"cat f"`. -/
def catCommand : List UInt8 := [99, 97, 116, 32, 102]

/-- `"cat f"` is parsed inside the arrays. -/
theorem parse_inside_cat :
    (0 : UInt8) ∉ catCommand ∧ IsParsed (boot fun _ => zeroPCB).kernel catCommand ∧
      ParsesInside (fun _ => 1) (fun _ => 1) catCommand :=
  have h0 : (0 : UInt8) ∉ catCommand := by decide
  have hparsed : IsParsed (boot fun _ => zeroPCB).kernel catCommand := ⟨by decide, by decide⟩
  ⟨h0, hparsed, ((parse_inside_iff _ _ _ h0).mpr (Or.inr (Or.inr
    ⟨by decide, fun h => absurd (longWord_iff.mp h) (by decide)⟩)) hparsed).1⟩

/-- The command `"a "` followed by 128 letters. -/
def longCommand : List UInt8 := [97] ++ 32 :: List.replicate 128 98

theorem not_mem_longCommand : (0 : UInt8) ∉ longCommand := by
  simp [longCommand]

theorem commandWord_longCommand : commandWord longCommand = List.replicate 128 98 := by
  rw [longCommand, (commandParts (by simp [isSeparator]) (by decide)).2, token,
    List.takeWhile_replicate]
  rfl

/-- A word of 128 bytes leaves `args` without a terminator. -/
theorem parse_fills_args :
    (0 : UInt8) ∉ longCommand ∧ IsParsed (boot fun _ => zeroPCB).kernel longCommand ∧
      (¬ ∃ n < argsSize, apply (fun _ => 0) (parseStores (fun _ => 0) longCommand).2 n = 0) ∧
      ¬ (IsParsed (boot fun _ => zeroPCB).kernel longCommand →
        ParsesInside (fun _ => 0) (fun _ => 0) longCommand ∧
          ∀ n, ∀ store ∈ strcpyStores (apply (fun _ => 0) (parseStores (fun _ => 0) longCommand).2) n 0,
            store.1 < argsSize) := by
  have hparsed : IsParsed (boot fun _ => zeroPCB).kernel longCommand := by
    refine ⟨?_, by decide⟩
    rw [strlen_of_not_mem not_mem_longCommand]
    simp [longCommand]
  have hnot : ¬ ∃ n < argsSize,
      apply (fun _ => 0) (parseStores (fun _ => 0) longCommand).2 n = 0 := by
    rintro ⟨n, hn, hzero⟩
    rw [args_parsed _ _ not_mem_longCommand, if_pos (Or.inr hn)] at hzero
    refine cstr_ne_zero (not_mem_commandWord not_mem_longCommand) ?_ hzero
    rw [commandWord_longCommand, List.length_replicate]
    exact hn
  exact ⟨not_mem_longCommand, hparsed, hnot, fun h => hnot (h hparsed).1.terminated⟩

/-! ## The call -/

/-- The locals of `execute` and of the functions it calls, before they are set. -/
structure ExecuteLocals where
  kCommand : Nat → UInt8
  args : Nat → UInt8
  file : Dentry
  buffer : Nat → UInt8
  load : LoadLocals

/-- What comes of a call of `execute`: it returns, or it has entered the new process. A read of
the filesystem can go on for ever, and C says nothing about a store outside an array. -/
inductive ExecuteResult where
  | returned (result : Int) (kernel : Kernel)
  | entered (launch : Launch) (image : Loaded)
  | endless
  | undefined

/-- `execute` on the memory of its stack frame. -/
def executeCall (img : Image) (k : Kernel) (f : Frame) (locals : ExecuteLocals)
    (command : List UInt8) : ExecuteResult :=
  if strlen command < 1 then .returned (-1) k
  else if 7 ≤ k.totalTasks then .returned (-1) k
  else if ParsesInside locals.kCommand locals.args command then
    let stores := parseStores locals.kCommand command
    let kCommand := apply locals.kCommand stores.1
    let args := apply locals.args stores.2
    match Filesystem.isExecutable img (some kCommand) locals.file locals.buffer with
    | none => .endless
    | some answer =>
      if answer = 0 then .returned (-1) k
      else
        match loadProcess img kCommand locals.load with
        | none => .endless
        | some image => .entered (launch k f (stringFrom args argsSize 0)) image
  else .undefined

/-- `is_executable` accepts the name. -/
def accepts (img : Image) (locals : ExecuteLocals) (name : List UInt8) : Bool :=
  Filesystem.isExecutable img (some (cstr name)) locals.file locals.buffer == some 1

section Call

variable {command : List UInt8} (img : Image) (k : Kernel) (f : Frame) (locals : ExecuteLocals)

theorem holdsAt_commandWord (kCommand args : Nat → UInt8) (h0 : 0 ∉ command)
    (hword : (commandWord command).length < argsSize) :
    HoldsAt (apply args (parseStores kCommand command).2) 0 (commandWord command) := by
  intro j hj
  rw [Nat.zero_add, args_parsed kCommand args h0, if_pos (Or.inr (by omega))]

/-- The checks of `execute`, as one condition. -/
theorem checks_eq {β : Type} (command : List UInt8) (k : Kernel) (accepted : Bool)
    (refused entered : β) :
    (if command.length < 1 then refused
      else if 7 ≤ k.totalTasks then refused
      else if accepted = true then entered else refused) =
      if command = [] ∨ 7 ≤ k.totalTasks ∨ accepted = false then refused else entered := by
  have hempty : command.length < 1 ↔ command = [] := by
    rw [Nat.lt_one_iff, List.length_eq_zero_iff]
  rw [if_congr hempty rfl rfl]
  by_cases hnone : command = []
  · rw [if_pos hnone, if_pos (Or.inl hnone)]
  by_cases htasks : 7 ≤ k.totalTasks
  · rw [if_neg hnone, if_pos htasks, if_pos (Or.inr (Or.inl htasks))]
  rw [if_neg hnone, if_neg htasks]
  cases accepted with
  | false => rw [if_neg Bool.false_ne_true, if_pos (Or.inr (Or.inr rfl))]
  | true => rw [if_pos rfl, if_neg (by simp [hnone, htasks])]

/-- `is_executable` always answers. -/
theorem answer_eq {β : Type} (name : List UInt8) (endless refused entered : β) :
    (match Filesystem.isExecutable img (some (cstr name)) locals.file locals.buffer with
      | none => endless
      | some answer => if answer = 0 then refused else entered) =
      if accepts img locals name = true then entered else refused := by
  unfold accepts
  rcases isExecutable_cases img (cstr name) locals.file locals.buffer with hno | hyes
  · rw [hno]
    rfl
  · rw [hyes]
    rfl

/-- The call on a command that fits. -/
theorem executeCall_eq (h0 : 0 ∉ command) (hlength : command.length < kCommandSize)
    (hword : (commandWord command).length < argsSize) :
    executeCall img k f locals command =
      if command = [] ∨ 7 ≤ k.totalTasks ∨ accepts img locals (commandName command) = false then
        .returned (-1) k
      else
        match loadProcess img (apply locals.kCommand (parseStores locals.kCommand command).1)
          locals.load with
        | none => .endless
        | some image => .entered (launch k f (commandWord command)) image := by
  have hargs := stringFrom_of_holdsAt (not_mem_commandWord h0)
    (holdsAt_commandWord locals.kCommand locals.args h0 hword) hword
  have hcheck : Filesystem.isExecutable img
      (some (apply locals.kCommand (parseStores locals.kCommand command).1)) locals.file
        locals.buffer =
      Filesystem.isExecutable img (some (cstr (commandName command))) locals.file locals.buffer :=
    isExecutable_of_holdsAt (holdsAt_commandName locals.kCommand h0) (holdsAt_cstr _) _ _
  unfold executeCall
  rw [strlen_of_not_mem h0, if_pos ((parsesInside_iff _ _ h0).mpr ⟨hlength, hword⟩)]
  dsimp only
  rw [hcheck, hargs]
  rw [answer_eq img locals, checks_eq]

/-- What `execute` answers, in the words of `executeCall_eq`. -/
theorem execute_eq (h0 : 0 ∉ command) :
    execute (accepts img locals) k f command =
      if command = [] ∨ 7 ≤ k.totalTasks ∨ accepts img locals (commandName command) = false then
        none
      else some (launch k f (commandWord command)) := by
  rw [execute, strlen_of_not_mem h0]
  exact checks_eq command k (accepts img locals (commandName command)) none _

/-- The call on the stack memory does what `execute` says: it returns -1 with the same kernel, or
enters the same process, or loads its image for ever. -/
theorem executeCall_refines (h0 : 0 ∉ command) (hlength : command.length < kCommandSize)
    (hword : (commandWord command).length < argsSize) :
    match execute (accepts img locals) k f command with
    | none => executeCall img k f locals command = .returned (-1) k
    | some l => executeCall img k f locals command = .endless ∨
        ∃ image, executeCall img k f locals command = .entered l image := by
  rw [executeCall_eq img k f locals h0 hlength hword, execute_eq img k f locals h0]
  split_ifs with hfails
  · rfl
  · dsimp only
    split
    · exact Or.inl rfl
    · exact Or.inr ⟨_, rfl⟩

theorem halt_retval_nonneg (isExecutable : List UInt8 → Bool) (k : Kernel) (f : Frame)
    (status : UInt8) {r : Int} (h : (halt isExecutable k f status).retval = some r) : 0 ≤ r := by
  have hreturn : ∀ k current, (haltReturn k current status).retval = some r → 0 ≤ r := by
    intro k current hr
    unfold haltReturn at hr
    dsimp only at hr
    split at hr
    · cases hr
      decide
    · cases hr
      exact Int.natCast_nonneg _
  unfold halt at h
  dsimp only at h
  split at h
  · exact hreturn _ _ h
  · unfold haltShell at h
    dsimp only at h
    split at h
    · cases h
    · exact hreturn _ _ h

/-- **Failure of execute.** For every kernel, every filesystem, all contents of the stack and every
command that fits: the call returns -1 exactly when the command is empty, there are 7 tasks, or its
first token is not accepted. A call that returns leaves the kernel as it was, and one that has
entered a process is never answered -1 by the `halt` that ends it. -/
theorem execute_fails_cleanly (h0 : 0 ∉ command) (hlength : command.length ≤ 1023)
    (hword : (commandWord command).length ≤ 127) :
    ((∃ k', executeCall img k f locals command = .returned (-1) k') ↔
      command = [] ∨ 7 ≤ k.totalTasks ∨
        Filesystem.isExecutable img (some (cstr (commandName command))) locals.file locals.buffer ≠
          some 1) ∧
      (∀ r k', executeCall img k f locals command = .returned r k' → r = -1 ∧ k' = k) ∧
      ∀ l image, executeCall img k f locals command = .entered l image →
        ∀ isExecutable k' f' status, (halt isExecutable k' f' status).retval ≠ some (-1) := by
  have haccepts : accepts img locals (commandName command) = false ↔
      Filesystem.isExecutable img (some (cstr (commandName command))) locals.file locals.buffer ≠
        some 1 := by
    rw [accepts, beq_eq_false_iff_ne]
  have hcall := executeCall_eq img k f locals h0 (Nat.lt_succ_of_le hlength)
    (Nat.lt_succ_of_le hword)
  rw [← haccepts]
  refine ⟨?_, ?_, ?_⟩
  · rw [hcall]
    constructor
    · rintro ⟨k', hreturned⟩
      by_contra hfails
      rw [if_neg hfails] at hreturned
      split at hreturned <;> cases hreturned
    · intro hfails
      exact ⟨k, if_pos hfails⟩
  · intro r k' hreturned
    rw [hcall] at hreturned
    split_ifs at hreturned with hfails
    · cases hreturned
      exact ⟨rfl, rfl⟩
    · split at hreturned <;> cases hreturned
  · intro l image _ isExecutable k' f' status hretval
    exact absurd (halt_retval_nonneg isExecutable k' f' status hretval) (by decide)

end Call

/-- Stack contents for the calls below. -/
def zeroLocals : ExecuteLocals where
  kCommand := fun _ => 0
  args := fun _ => 0
  file := dentryAt (execImage 28) 0
  buffer := fun _ => 0
  load :=
    { processDentry := dentryAt (execImage 28) 0
      file := dentryAt (execImage 28) 0
      entryBuff := fun _ => 0 }

/-- The command `"f x"` is accepted and `"g"` is refused where `f` is the only program. -/
theorem execute_fails_on_unknown :
    (¬ ∃ k', executeCall (execImage 28) (boot fun _ => zeroPCB).kernel (frameOf 1) zeroLocals
        [102, 32, 120] = .returned (-1) k') ∧
      ∃ k', executeCall (execImage 28) (boot fun _ => zeroPCB).kernel (frameOf 1) zeroLocals
        [103] = .returned (-1) k' := by
  constructor
  · rw [(execute_fails_cleanly (execImage 28) _ (frameOf 1) zeroLocals (by decide) (by decide)
      (by decide)).1]
    rintro (hempty | htasks | hrefused)
    · cases hempty
    · exact absurd htasks (by decide)
    · exact hrefused (by decide +kernel)
  · rw [(execute_fails_cleanly (execImage 28) _ (frameOf 1) zeroLocals (by decide) (by decide)
      (by decide)).1]
    exact Or.inr (Or.inr (by decide +kernel))

end LinuxBasedOS.Process
