import LinuxBasedOS.Process.CommandLine

/-!
# The arguments of a program

`getargs` copies the `args` field of the PCB of the caller to a buffer. Its loop is to end at the
terminator of the string, but it compares the pointer with `'\0'`, so it ends only with the count
of the caller and goes on past the string, past the field and past the PCB.
`getargs_reveals_iff` says for which counts this shows nothing but the arguments.

`arguments_agree_iff` compares the string a program gets with the one that the Linux emulation of
the system calls gives it. The emulation splits the command at every run of spaces and joins the
words; `execute` keeps the one word after the first separator.
-/

namespace LinuxBasedOS.Process

open Word Stores Lib Filesystem

/-! ## getargs -/

/-- The offset of `args` in `PCB_t`; ten words come before it. -/
def argsOffset : Nat := 40

/-- The `while` loop of `getargs`, in at most `n` turns, by its stores. `scan != '\0'` compares
the pointer. -/
def getargsStores : Nat → (Nat → UInt8) → Nat → Nat → List (Nat × UInt8)
  | 0, _, _, _ => []
  | n + 1, mem, scan, buf =>
    if scan = 0 then []
    else
      (buf, mem scan) ::
        getargsStores n (Function.update mem buf (mem scan)) (u32 (scan + 1)) (u32 (buf + 1))

/-- `getargs` of the process on whose kernel stack `esp` is: the value returned, and the stores
it makes. The null pointer is 0. -/
def getargs (mem : Nat → UInt8) (esp buf : Nat) (nbytes : Int) : Int × List (Nat × UInt8) :=
  let scan := currentPCB esp + argsOffset
  if buf = 0 then (-1, [])
  else if mem scan = 0 then (-1, [])
  else (0, getargsStores nbytes.toNat mem scan buf)

/-- The kernel stacks, and the PCBs below them, lie in the first 8 MB. -/
def KernelStack (esp : Nat) : Prop := esp < 0x800000

instance (esp : Nat) : Decidable (KernelStack esp) := inferInstanceAs (Decidable (_ < _))

/-- The page of a program, the 4 MB from 128 MB on. -/
def UserAddress (buf : Nat) : Prop := 0x8000000 ≤ buf ∧ buf < 0x8400000

instance (buf : Nat) : Decidable (UserAddress buf) := inferInstanceAs (Decidable (_ ∧ _))

theorem args_below {esp : Nat} (h : KernelStack esp) :
    0 < currentPCB esp + argsOffset ∧ currentPCB esp + argsOffset < 0x1000000 := by
  have hle : currentPCB esp ≤ esp := Nat.and_le_left
  unfold KernelStack at h
  unfold argsOffset
  omega

/-- The first `m` turns copy `m` bytes, as long as the loop has not come to its buffer. -/
theorem getargsStores_add {mem : Nat → UInt8} {scan buf m : Nat} (n : Nat) (hscan : 0 < scan)
    (hbuf : scan + m ≤ buf) (hrange : buf + m < 4294967296) :
    getargsStores (m + n) mem scan buf =
      series buf (memBytes mem scan m) ++
        getargsStores n (place mem buf (memBytes mem scan m)) (scan + m) (buf + m) := by
  induction m generalizing n with
  | zero => simp [memBytes, series]
  | succ m ih =>
    have hlength := length_memBytes mem scan m
    have hread : place mem buf (memBytes mem scan m) (scan + m) = mem (scan + m) :=
      place_outside mem (Or.inl (by omega))
    have hstore : Function.update (place mem buf (memBytes mem scan m)) (buf + m) (mem (scan + m)) =
        place mem buf (memBytes mem scan m ++ [mem (scan + m)]) := by
      rw [← place_place, hlength, update_eq_place]
    rw [Nat.add_assoc, ih (1 + n) (by omega) (by omega), Nat.add_comm 1 n, getargsStores,
      if_neg (by omega), hread, hstore, memBytes_succ, series_append, hlength]
    have hscan' : u32 ((scan + m : Nat) + 1) = scan + (m + 1) := by
      unfold u32
      omega
    have hbuf' : u32 ((buf + m : Nat) + 1) = buf + (m + 1) := by
      unfold u32
      omega
    rw [hscan', hbuf', List.append_assoc]
    rfl

/-- The bytes of a string and its terminator. -/
theorem memBytes_of_holdsAt {mem : Nat → UInt8} {addr : Nat} {s : List UInt8}
    (h : HoldsAt mem addr s) {m : Nat} (hm : m ≤ s.length + 1) :
    memBytes mem addr m = (s ++ [0]).take m := by
  refine List.ext_getElem ?_ ?_
  · rw [length_memBytes, List.length_take, List.length_append, List.length_singleton]
    omega
  · intro j hj hj'
    rw [length_memBytes] at hj
    rw [List.getElem_take]
    rw [getElem_memBytes, h j (by omega)]
    rcases Nat.eq_or_lt_of_le (show j ≤ s.length by omega) with rfl | hlt
    · rw [List.getElem_concat_length rfl, cstr_of_le (Nat.le_refl _)]
    · rw [List.getElem_append_left hlt, cstr_of_lt hlt]

/-! ## What getargs reveals -/

/-- The process on whose kernel stack `esp` is has the argument string `name` in its PCB. -/
def HasArguments (mem : Nat → UInt8) (esp : Nat) (name : List UInt8) : Prop :=
  KernelStack esp ∧ HoldsAt mem (currentPCB esp + argsOffset) name

/-- `getargs` gives the same value and the same bytes in every two states in which the process has
these arguments, whatever else is in the memory. -/
def RevealsOnlyArguments (name : List UInt8) (buf : Nat) (nbytes : Int) : Prop :=
  ∀ mem mem' esp esp', HasArguments mem esp name → HasArguments mem' esp' name →
    getargs mem esp buf nbytes = getargs mem' esp' buf nbytes

section Reveals

variable {name : List UInt8} {buf : Nat}

/-- With arguments and a buffer the call copies. -/
theorem getargs_of_arguments {mem : Nat → UInt8} {esp : Nat} {nbytes : Int} (h0 : 0 ∉ name)
    (hne : name ≠ []) (hbuf : UserAddress buf) (h : HasArguments mem esp name) :
    getargs mem esp buf nbytes =
      (0, getargsStores nbytes.toNat mem (currentPCB esp + argsOffset) buf) := by
  have hfirst : mem (currentPCB esp + argsOffset) ≠ 0 := by
    have hat := h.2 0 (Nat.zero_le _)
    rw [Nat.add_zero] at hat
    rw [hat]
    exact cstr_ne_zero h0 (List.length_pos_of_ne_nil hne)
  rw [getargs, if_neg (by unfold UserAddress at hbuf; omega), if_neg hfirst]

/-- A call that takes no more than the string and its terminator. -/
theorem getargs_of_short {mem : Nat → UInt8} {esp : Nat} {nbytes : Int} (h0 : 0 ∉ name)
    (hne : name ≠ []) (hlength : name.length < argsSize) (hbuf : UserAddress buf)
    (h : HasArguments mem esp name) (hshort : nbytes ≤ name.length + 1) :
    getargs mem esp buf nbytes = (0, series buf ((name ++ [0]).take nbytes.toNat)) := by
  obtain ⟨hpos, hbelow⟩ := args_below h.1
  have hcopy := @getargsStores_add mem (currentPCB esp + argsOffset) buf nbytes.toNat 0 hpos
    (by unfold UserAddress argsSize at *; omega) (by unfold UserAddress argsSize at *; omega)
  rw [Nat.add_zero, memBytes_of_holdsAt h.2 (by omega)] at hcopy
  rw [getargs_of_arguments h0 hne hbuf h, hcopy, getargsStores, List.append_nil]

/-- Two states that differ in the byte after the terminator. -/
def leakMemory (name : List UInt8) (byte : UInt8) : Nat → UInt8 :=
  place (fun _ => 0) (currentPCB 0x7FF000 + argsOffset) (name ++ [0] ++ [byte])

theorem hasArguments_leakMemory (name : List UInt8) (byte : UInt8) :
    HasArguments (leakMemory name byte) 0x7FF000 name := by
  refine ⟨by decide, ?_⟩
  intro j hj
  rw [leakMemory, ← place_place, place_outside _ (Or.inl (by simp; omega))]
  exact holdsAt_place _ _ name j hj

theorem leakMemory_after (name : List UInt8) (byte : UInt8) :
    leakMemory name byte (currentPCB 0x7FF000 + argsOffset + (name.length + 1)) = byte := by
  rw [leakMemory, place_inside _ _ (by simp)]
  simp

/-- **Information flow of getargs.** For every argument string, every buffer of the program and
every count, `getargs` reveals only the arguments exactly when the buffer is null or the count does
not go past the terminator. -/
theorem getargs_reveals_iff (h0 : 0 ∉ name) (hne : name ≠ []) (hlength : name.length < argsSize)
    (hbuf : buf = 0 ∨ UserAddress buf) (nbytes : Int) :
    RevealsOnlyArguments name buf nbytes ↔ buf = 0 ∨ nbytes ≤ name.length + 1 := by
  constructor
  · intro hsame
    rcases hbuf with hnull | hbuf
    · exact Or.inl hnull
    · right
      by_contra hlong
      obtain ⟨n, hn⟩ : ∃ n, nbytes.toNat = name.length + 2 + n :=
        Nat.exists_eq_add_of_le (by omega)
      have hcopy : ∀ byte, ∃ rest, getargs (leakMemory name byte) 0x7FF000 buf nbytes =
          (0, series buf (memBytes (leakMemory name byte) (currentPCB 0x7FF000 + argsOffset)
            (name.length + 2)) ++ rest) := by
        intro byte
        obtain ⟨hpos, hbelow⟩ := @args_below 0x7FF000 (by decide)
        rw [getargs_of_arguments h0 hne hbuf (hasArguments_leakMemory name byte), hn]
        unfold UserAddress argsSize at *
        exact ⟨_, congrArg (Prod.mk 0) (getargsStores_add n hpos (by omega) (by omega))⟩
      obtain ⟨rest, hrest⟩ := hcopy 0
      obtain ⟨rest', hrest'⟩ := hcopy 1
      have heq := hsame _ _ _ _ (hasArguments_leakMemory name 0) (hasArguments_leakMemory name 1)
      rw [hrest, hrest'] at heq
      injection heq with _ hstores
      have hbytes := series_injective buf (List.append_inj_left hstores (by simp))
      have hbyte := List.map_inj_left.mp hbytes (name.length + 1) (by simp)
      rw [leakMemory_after, leakMemory_after] at hbyte
      exact absurd hbyte (by decide)
  · rintro (hnull | hshort) mem mem' esp esp' hmem hmem'
    · rw [getargs, getargs, if_pos hnull, if_pos hnull]
    · rcases hbuf with hnull | hbuf
      · rw [getargs, getargs, if_pos hnull, if_pos hnull]
      · rw [getargs_of_short h0 hne hlength hbuf hmem hshort,
          getargs_of_short h0 hne hlength hbuf hmem' hshort]

end Reveals

/-- With the arguments `"f"` and a count of 2 nothing else is revealed. -/
theorem getargs_reveals_two :
    (0 : UInt8) ∉ [102] ∧ ([102] : List UInt8) ≠ [] ∧ UserAddress 0x8048000 ∧
      HasArguments (leakMemory [102] 7) 0x7FF000 [102] ∧
      RevealsOnlyArguments [102] 0x8048000 2 :=
  ⟨by decide, by decide, by decide, hasArguments_leakMemory _ _,
    (getargs_reveals_iff (by decide) (by decide) (by decide) (Or.inr (by decide)) 2).mpr
      (Or.inr (by decide))⟩

/-- With a count of 3 the byte after the terminator is copied too. -/
theorem getargs_leaks :
    HasArguments (leakMemory [102] 0) 0x7FF000 [102] ∧
      HasArguments (leakMemory [102] 1) 0x7FF000 [102] ∧
      (getargs (leakMemory [102] 0) 0x7FF000 0x8048000 3).2 ≠
        (getargs (leakMemory [102] 1) 0x7FF000 0x8048000 3).2 ∧
      ¬ RevealsOnlyArguments [102] 0x8048000 3 := by
  have hne : (getargs (leakMemory [102] 0) 0x7FF000 0x8048000 3).2 ≠
      (getargs (leakMemory [102] 1) 0x7FF000 0x8048000 3).2 := by decide
  refine ⟨hasArguments_leakMemory _ _, hasArguments_leakMemory _ _, hne, ?_⟩
  intro h
  exact hne (congrArg Prod.snd (h _ _ _ _ (hasArguments_leakMemory _ _)
    (hasArguments_leakMemory _ _)))

/-! ## The string a program gets -/

/-- The `args` field of the PCB after `PCB_init`: `field` is what it held, and the `args` of
`execute` is copied over it. -/
def pcbArgs (kCommand args field : Nat → UInt8) (command : List UInt8) : Nat → UInt8 :=
  apply field (strcpyStores (apply args (parseStores kCommand command).2) argsSize 0)

/-- The string in the buffer after `getargs`, when the call succeeds. -/
def kernelString (mem : Nat → UInt8) (esp buf : Nat) (nbytes : Int) : Option (List UInt8) :=
  let r := getargs mem esp buf nbytes
  if r.1 = 0 then some (stringFrom (apply mem r.2) nbytes.toNat buf) else none

/-- The field holds the word of the command. -/
theorem holdsAt_pcbArgs {command : List UInt8} (kCommand args field : Nat → UInt8)
    (h0 : 0 ∉ command) (hword : (commandWord command).length < argsSize) :
    HoldsAt (pcbArgs kCommand args field command) 0 (commandWord command) := by
  have hheld := holdsAt_commandWord kCommand args h0 hword
  rw [pcbArgs, strcpyStores_eq_series (not_mem_commandWord h0) hheld hword, apply_series]
  exact holdsAt_place field 0 _

/-- The PCB of a process that `execute` has entered holds the same string. -/
theorem holdsAt_launch {command : List UInt8} {img : Image} {k : Kernel} {f : Frame}
    {locals : ExecuteLocals} {l : Launch} {image : Loaded} (h0 : 0 ∉ command)
    (hlength : command.length < kCommandSize) (hword : (commandWord command).length < argsSize)
    (hentered : executeCall img k f locals command = .entered l image) (hinit : l.initResult = 0) :
    HoldsAt (l.kernel.pcbs (pcbAddr l.pid)).args 0 (commandWord command) := by
  have hlaunch : l = launch k f (commandWord command) := by
    rw [executeCall_eq img k f locals h0 hlength hword] at hentered
    split_ifs at hentered with hfails
    split at hentered
    · cases hentered
    · cases hentered
      rfl
  have hstrcpy : ∀ old, HoldsAt (strcpy old (commandWord command)) 0 (commandWord command) := by
    intro old j hj
    rw [Nat.zero_add, strcpy, if_pos hj]
  have has : ∀ k pid found, (launchAs k f pid found (commandWord command)).initResult = 0 →
      HoldsAt ((launchAs k f pid found (commandWord command)).kernel.pcbs
        (pcbAddr (launchAs k f pid found (commandWord command)).pid)).args 0
          (commandWord command) := by
    intro k pid found hzero
    simp only [launchAs, enterProcess, Function.update_self] at hzero ⊢
    unfold pcbInit at hzero ⊢
    dsimp only at hzero ⊢
    split_ifs at hzero ⊢ with hchild
    · exact hstrcpy _
    · split at hzero
      · cases hzero
      · exact hstrcpy _
  subst hlaunch
  unfold launch at hinit ⊢
  dsimp only at hinit ⊢
  split at hinit
  · exact has _ _ _ hinit
  · exact has _ _ _ hinit

/-- The stores of the copy go up from the buffer. -/
theorem le_of_mem_getargsStores {mem : Nat → UInt8} {scan buf n : Nat} {store : Nat × UInt8}
    (hrange : buf + n < 4294967296) (h : store ∈ getargsStores n mem scan buf) : buf ≤ store.1 := by
  induction n generalizing mem scan buf with
  | zero => exact absurd h List.not_mem_nil
  | succ n ih =>
    rw [getargsStores] at h
    split_ifs at h
    · exact absurd h List.not_mem_nil
    · have hnext : u32 ((buf : Nat) + 1) = buf + 1 := by
        unfold u32
        omega
      rw [hnext] at h
      rcases List.mem_cons.mp h with rfl | hrest
      · exact Nat.le_refl _
      · have := ih (by omega) hrest
        omega

/-- `getargs` delivers the string, if there is room for it; it fails on the empty one. -/
theorem kernelString_eq {mem : Nat → UInt8} {esp buf : Nat} {nbytes : Int} {name : List UInt8}
    (h0 : 0 ∉ name) (hlength : name.length < argsSize) (hbuf : UserAddress buf)
    (h : HasArguments mem esp name) (hroom : name.length < nbytes) (hnbytes : nbytes < 2147483648) :
    kernelString mem esp buf nbytes = if name = [] then none else some name := by
  have hpage := hbuf
  unfold UserAddress at hpage
  by_cases hne : name = []
  · have hzero : mem (currentPCB esp + argsOffset) = 0 := by
      rw [hne] at h
      exact holdsAt_nil.mp h.2
    have hfails : getargs mem esp buf nbytes = (-1, []) := by
      rw [getargs, if_neg (by omega), if_pos hzero]
    rw [kernelString, hfails, if_pos hne]
    rfl
  · obtain ⟨hpos, hbelow⟩ := args_below h.1
    obtain ⟨n, hn⟩ : ∃ n, nbytes.toNat = name.length + 1 + n :=
      Nat.exists_eq_add_of_le (by omega)
    unfold argsSize at hlength
    rw [kernelString, getargs_of_arguments h0 hne hbuf h, if_neg hne]
    dsimp only
    rw [if_pos rfl, stringFrom_of_holdsAt h0 _ (by omega)]
    intro j hj
    rw [hn, getargsStores_add n hpos (by omega) (by omega), memBytes_of_holdsAt h.2 (Nat.le_refl _),
      List.take_of_length_le (by rw [List.length_append, List.length_singleton]), apply_append,
      apply_of_forall_ne, apply_series]
    · exact holdsAt_place mem buf name j hj
    · intro store hstore
      have := le_of_mem_getargsStores (by omega) hstore
      omega

/-! ## The emulation -/

/-- The `while (1)` loop of `ece391_execute` from `scan` on, in at most `n` turns: the strings it
adds to the vector. -/
def emulatedWords : Nat → List UInt8 → List (List UInt8)
  | 0, _ => []
  | n + 1, scan =>
    match scan.dropWhile (· == 32) with
    | [] => []
    | c :: rest =>
      if c = 10 then []
      else
        let word := token (c :: rest)
        word :: emulatedWords n (((c :: rest).drop word.length).drop 1)

/-- The vector `args` that `ece391_execute` hands to `execv`; `none` is its return value -1. -/
def ece391Execute (command : List UInt8) : Option (List (List UInt8)) :=
  if 1023 < strlen command then none
  else
    let name := token command
    match command.drop name.length with
    | [] => some [46 :: 47 :: name]
    | _ :: rest => some ((46 :: 47 :: name) :: emulatedWords (command.length + 1) rest)

/-- The loop of `ece391_getargs` from the string at `idx` on: the string in the buffer, with
`nbytes` bytes left after `out`. -/
def ece391GetargsLoop : List (List UInt8) → Int → List UInt8 → Option (List UInt8)
  | [], nbytes, out => if nbytes < 1 then none else some out
  | word :: words, nbytes, out =>
    if nbytes < word.length then none
    else if words = [] then
      if nbytes - word.length < 1 then none else some (out ++ word)
    else if nbytes - word.length < 1 then none
    else ece391GetargsLoop words (nbytes - word.length - 1) (out ++ word ++ [32])

def ece391Getargs (argv : List (List UInt8)) (nbytes : Int) : Option (List UInt8) :=
  ece391GetargsLoop argv.tail nbytes []

/-- The string a program gets from the emulation. -/
def emulatedString (command : List UInt8) (nbytes : Int) : Option (List UInt8) :=
  (ece391Execute command).bind fun argv => ece391Getargs argv nbytes

/-! ## Command lines of words and spaces -/

def IsWord (w : List UInt8) : Prop := w ≠ [] ∧ ∀ c ∈ w, c ≠ 0 ∧ isSeparator c = false

def spaces (n : Nat) : List UInt8 := List.replicate n 32

/-- A program name and its argument words. Before each word there is a space, and more of them as
its number says; `trailing` spaces come at the end. -/
structure SpacedCommand where
  name : List UInt8
  args : List (Nat × List UInt8)
  trailing : Nat
  name_word : IsWord name
  args_word : ∀ arg ∈ args, IsWord arg.2
  args_ne : args ≠ []

def argsText (args : List (Nat × List UInt8)) (trailing : Nat) : List UInt8 :=
  (args.flatMap fun arg => spaces (arg.1 + 1) ++ arg.2) ++ spaces trailing

def SpacedCommand.text (line : SpacedCommand) : List UInt8 :=
  line.name ++ argsText line.args line.trailing

/-- The argument words joined by single spaces. -/
def SpacedCommand.joined (line : SpacedCommand) : List UInt8 :=
  [32].intercalate (line.args.map Prod.snd)

theorem argsText_cons (extra : Nat) (word : List UInt8) (args : List (Nat × List UInt8))
    (trailing : Nat) :
    argsText ((extra, word) :: args) trailing =
      32 :: (spaces extra ++ (word ++ argsText args trailing)) := by
  simp [argsText, spaces, List.replicate_succ]

/-- A word ends where the next space, or the command, ends it. -/
theorem token_word {word : List UInt8} (h : IsWord word) (args : List (Nat × List UInt8))
    (trailing : Nat) : token (word ++ argsText args trailing) = word := by
  have hnext : token (argsText args trailing) = [] := by
    cases args with
    | nil =>
      cases trailing with
      | zero => rfl
      | succ n => exact token_cons_of_sep (spaces n) rfl
    | cons arg args =>
      rw [argsText_cons]
      exact token_cons_of_sep _ rfl
  rw [token_append fun c hc => (h.2 c hc).2, hnext, List.append_nil]

theorem drop_argsText_nil (trailing : Nat) : (argsText [] trailing).drop 1 = spaces (trailing - 1) := by
  rw [argsText, List.flatMap_nil, List.nil_append, spaces, List.drop_replicate]
  rfl

theorem emulatedWords_spaces (n m : Nat) : emulatedWords n (spaces m) = [] := by
  cases n with
  | zero => rfl
  | succ n =>
    have hdrop : (spaces m).dropWhile (· == 32) = [] := by
      rw [List.dropWhile_eq_nil_iff]
      intro c hc
      rw [List.eq_of_mem_replicate hc]
      rfl
    rw [emulatedWords, hdrop]

/-- One turn of the loop: the spaces are skipped, the word is taken, and what ends it too. -/
theorem emulatedWords_word {word rest : List UInt8} (hword : IsWord word)
    (htoken : token (word ++ rest) = word) (n extra : Nat) :
    emulatedWords (n + 1) (spaces extra ++ (word ++ rest)) =
      word :: emulatedWords n (rest.drop 1) := by
  obtain ⟨c, cs, rfl⟩ := List.exists_cons_of_ne_nil hword.1
  have hsep := (hword.2 c List.mem_cons_self).2
  unfold isSeparator at hsep
  rw [Bool.or_eq_false_iff, beq_eq_false_iff_ne, beq_eq_false_iff_ne] at hsep
  have hdrop : (spaces extra ++ (c :: cs ++ rest)).dropWhile (· == 32) = c :: (cs ++ rest) := by
    rw [List.dropWhile_append_of_pos, List.cons_append, List.dropWhile_cons_of_neg]
    · rw [beq_iff_eq]
      exact hsep.1
    · intro d hd
      rw [List.eq_of_mem_replicate hd]
      rfl
  rw [emulatedWords, hdrop]
  dsimp only
  rw [if_neg hsep.2, ← List.cons_append, htoken, List.drop_left]

/-- The loop of the emulation finds the words, whatever the spaces between them. -/
theorem emulatedWords_eq {word : List UInt8} {args : List (Nat × List UInt8)} (hword : IsWord word)
    (hargs : ∀ arg ∈ args, IsWord arg.2) (trailing extra : Nat) {n : Nat} (hn : args.length < n) :
    emulatedWords n (spaces extra ++ (word ++ argsText args trailing)) =
      word :: args.map Prod.snd := by
  obtain ⟨n, rfl⟩ := Nat.exists_eq_add_one.mpr (Nat.zero_lt_of_lt hn)
  rw [emulatedWords_word hword (token_word hword args trailing)]
  induction args generalizing word extra n with
  | nil => rw [drop_argsText_nil, emulatedWords_spaces, List.map_nil]
  | cons arg args ih =>
    rw [List.forall_mem_cons] at hargs
    rw [List.length_cons] at hn
    obtain ⟨n, rfl⟩ := Nat.exists_eq_add_one.mpr (show 0 < n by omega)
    rw [argsText_cons, List.drop_one, List.tail_cons,
      emulatedWords_word hargs.1 (token_word hargs.1 args trailing),
      ih hargs.1 hargs.2 0 n (by omega), List.map_cons]

/-- There are no more words than bytes. -/
theorem length_args_le (args : List (Nat × List UInt8)) (trailing : Nat) :
    args.length ≤ (argsText args trailing).length := by
  induction args with
  | nil => exact Nat.zero_le _
  | cons arg args ih =>
    rw [argsText_cons, List.length_cons, List.length_cons, List.length_append, List.length_append]
    omega

/-- `ece391_getargs` joins the words, if there is room. -/
theorem ece391GetargsLoop_eq {words : List (List UInt8)} (hne : words ≠ []) {nbytes : Int}
    (hroom : ([32].intercalate words).length < nbytes) (out : List UInt8) :
    ece391GetargsLoop words nbytes out = some (out ++ [32].intercalate words) := by
  induction words generalizing nbytes out with
  | nil => exact absurd rfl hne
  | cons word words ih =>
    cases words with
    | nil =>
      rw [List.intercalate_singleton] at hroom ⊢
      rw [ece391GetargsLoop, if_neg (by omega), if_pos rfl, if_neg (by omega)]
    | cons next words =>
      rw [List.intercalate_cons_cons, List.length_append, List.length_append,
        List.length_singleton] at hroom
      rw [ece391GetargsLoop, if_neg (by omega), if_neg (List.cons_ne_nil _ _), if_neg (by omega),
        ih (List.cons_ne_nil _ _) (by omega), List.intercalate_cons_cons, List.append_assoc,
        List.append_assoc, List.append_assoc]

section Lines

variable (line : SpacedCommand)

theorem SpacedCommand.not_mem_text : 0 ∉ line.text := by
  have hword : ∀ w, IsWord w → 0 ∉ w := fun w hw h => (hw.2 0 h).1 rfl
  have hspaces : ∀ n, 0 ∉ spaces n := by
    intro n h
    exact absurd (List.eq_of_mem_replicate h) (by decide)
  rw [SpacedCommand.text, argsText, List.mem_append, List.mem_append, List.mem_flatMap]
  rintro (hname | ⟨arg, harg, hmem⟩ | htrailing)
  · exact hword _ line.name_word hname
  · rcases List.mem_append.mp hmem with hspace | hin
    · exact hspaces _ hspace
    · exact hword _ (line.args_word arg harg) hin
  · exact hspaces _ htrailing

/-- The text, with the first of the arguments apart. -/
theorem SpacedCommand.text_eq {extra : Nat} {word : List UInt8} {args : List (Nat × List UInt8)}
    (h : line.args = (extra, word) :: args) :
    line.text = line.name ++ 32 :: (spaces extra ++ (word ++ argsText args line.trailing)) := by
  rw [SpacedCommand.text, h, argsText_cons]

/-- The emulation gives the words joined by single spaces. -/
theorem emulatedString_eq (hlength : line.text.length ≤ 127) {nbytes : Int}
    (hroom : line.joined.length < nbytes) :
    emulatedString line.text nbytes = some line.joined := by
  obtain ⟨⟨extra, word⟩, args, hargs⟩ := List.exists_cons_of_ne_nil line.args_ne
  have hwords := line.args_word
  rw [hargs, List.forall_mem_cons] at hwords
  have hsep : ∀ c ∈ line.name, isSeparator c = false := fun c hc => (line.name_word.2 c hc).2
  have hcount := length_args_le line.args line.trailing
  have hexecute : ece391Execute line.text =
      some ((46 :: 47 :: line.name) :: line.args.map Prod.snd) := by
    have hname : token line.text = line.name := by
      rw [line.text_eq hargs, token_append hsep, token_cons_of_sep _ rfl, List.append_nil]
    have hturns : args.length < line.text.length + 1 := by
      rw [hargs] at hcount
      rw [SpacedCommand.text, hargs, List.length_append]
      rw [List.length_cons] at hcount
      omega
    rw [ece391Execute, strlen_of_not_mem line.not_mem_text, if_neg (by omega)]
    dsimp only
    rw [hname]
    have hdrop : line.text.drop line.name.length =
        32 :: (spaces extra ++ (word ++ argsText args line.trailing)) := by
      rw [line.text_eq hargs, List.drop_left]
    rw [hdrop]
    dsimp only
    rw [emulatedWords_eq hwords.1 hwords.2 line.trailing extra hturns, hargs, List.map_cons]
  rw [emulatedString, hexecute, Option.bind_some, ece391Getargs, List.tail_cons,
    ece391GetargsLoop_eq (by rw [hargs]; exact List.cons_ne_nil _ _) hroom, List.nil_append]
  rfl

/-- `execute` keeps the first word when one space is before it, and nothing otherwise. -/
theorem commandWord_text {extra : Nat} {word : List UInt8} {args : List (Nat × List UInt8)}
    (h : line.args = (extra, word) :: args) :
    commandWord line.text = if extra = 0 then word else [] := by
  have hsep : ∀ c ∈ line.name, isSeparator c = false := fun c hc => (line.name_word.2 c hc).2
  have hword := line.args_word (extra, word) (by rw [h]; exact List.mem_cons_self)
  have hspace : isSeparator 32 = true := rfl
  rw [line.text_eq h, (commandParts hsep hspace).2]
  cases extra with
  | zero =>
    rw [if_pos rfl]
    exact token_word hword args line.trailing
  | succ n =>
    rw [if_neg (Nat.succ_ne_zero n)]
    exact token_cons_of_sep _ rfl

/-- The joined words begin with the first, and are longer when there is another. -/
theorem SpacedCommand.joined_eq {extra : Nat} {word : List UInt8} {args : List (Nat × List UInt8)}
    (h : line.args = (extra, word) :: args) :
    ∃ rest, line.joined = word ++ rest ∧ (rest = [] ↔ args = []) := by
  rw [SpacedCommand.joined, h]
  cases args with
  | nil =>
    refine ⟨[], ?_, iff_of_true rfl rfl⟩
    rw [List.append_nil]
    exact List.intercalate_singleton
  | cons arg args =>
    refine ⟨[32] ++ [32].intercalate ((arg :: args).map Prod.snd), ?_, ?_⟩
    · rw [← List.append_assoc]
      exact List.intercalate_cons_cons
    · exact iff_of_false (List.cons_ne_nil _ _) (List.cons_ne_nil _ _)

/-- **Arguments on both systems.** For every command line of a name and argument words, with any
spaces, of at most 127 bytes, all contents of the memory and every buffer with room for the string:
the string from the kernel is the one from the emulation, the words joined by single spaces,
exactly when there is one word and one space before it. -/
theorem arguments_agree_iff (hlength : line.text.length ≤ 127) (kCommand args field : Nat → UInt8)
    {mem : Nat → UInt8} {esp buf : Nat} {nbytes : Int} (hesp : KernelStack esp)
    (hpcb : ∀ j < argsSize,
      mem (currentPCB esp + argsOffset + j) = pcbArgs kCommand args field line.text j)
    (hbuf : UserAddress buf) (hroom : line.joined.length < nbytes)
    (hnbytes : nbytes < 2147483648) :
    (kernelString mem esp buf nbytes = emulatedString line.text nbytes ∧
      emulatedString line.text nbytes = some line.joined) ↔ ∃ word, line.args = [(0, word)] := by
  have hemulated := emulatedString_eq line hlength hroom
  have hword : (commandWord line.text).length < argsSize := by
    have := length_commandWord_le line.text
    unfold argsSize
    omega
  have hargs : HasArguments mem esp (commandWord line.text) := by
    refine ⟨hesp, ?_⟩
    intro j hj
    have hheld := holdsAt_pcbArgs kCommand args field line.not_mem_text hword j hj
    rw [Nat.zero_add] at hheld
    rw [hpcb j (by omega), hheld]
  obtain ⟨⟨extra, word⟩, more, hline⟩ := List.exists_cons_of_ne_nil line.args_ne
  obtain ⟨rest, hjoined, hrest⟩ := line.joined_eq hline
  have hkept := commandWord_text line hline
  have hshort : (commandWord line.text).length < nbytes := by
    rw [hjoined, List.length_append] at hroom
    rw [hkept]
    split_ifs
    · omega
    · rw [List.length_nil]
      omega
  have h0 : 0 ∉ commandWord line.text := not_mem_commandWord line.not_mem_text
  rw [hemulated, kernelString_eq h0 hword hbuf hargs hshort hnbytes, hkept, hline]
  have hword_ne : word ≠ [] := (line.args_word (extra, word) (by rw [hline]; exact List.mem_cons_self)).1
  constructor
  · rintro ⟨hsame, -⟩
    by_cases hextra : extra = 0
    · rw [if_pos hextra, if_neg hword_ne, hjoined] at hsame
      have hnone : rest = [] := List.self_eq_append_right.mp (Option.some.inj hsame)
      rw [hextra, hrest.mp hnone]
      exact ⟨word, rfl⟩
    · rw [if_neg hextra, if_pos rfl] at hsame
      cases hsame
  · rintro ⟨word', hone⟩
    cases hone
    rw [if_pos rfl, if_neg hword_ne, hjoined, hrest.mpr rfl, List.append_nil]
    exact ⟨rfl, rfl⟩

end Lines

/-- The command `"cat f"` followed by a space, as a line. -/
def catLine : SpacedCommand where
  name := [99, 97, 116]
  args := [(0, [102])]
  trailing := 1
  name_word := ⟨by decide, by simp [isSeparator]⟩
  args_word := by
    intro arg harg
    rw [List.mem_singleton.mp harg]
    exact ⟨by decide, by simp [isSeparator]⟩
  args_ne := by decide

/-- The command `"grep a b"`. -/
def grepLine : SpacedCommand where
  name := [103, 114, 101, 112]
  args := [(0, [97]), (0, [98])]
  trailing := 0
  name_word := ⟨by decide, by simp [isSeparator]⟩
  args_word := by
    intro arg harg
    rcases List.mem_pair.mp harg with rfl | rfl
    · exact ⟨by decide, by simp [isSeparator]⟩
    · exact ⟨by decide, by simp [isSeparator]⟩
  args_ne := by decide

/-- A memory with the PCB of a process that was started with the command. -/
def startedMemory (command : List UInt8) : Nat → UInt8 := fun a =>
  pcbArgs (fun _ => 0) (fun _ => 0) (fun _ => 0) command (a - (currentPCB 0x7FF000 + argsOffset))

theorem startedMemory_args (command : List UInt8) (j : Nat) :
    startedMemory command (currentPCB 0x7FF000 + argsOffset + j) =
      pcbArgs (fun _ => 0) (fun _ => 0) (fun _ => 0) command j := by
  rw [startedMemory, Nat.add_sub_cancel_left]

/-- `"cat f "` gives both programs `"f"`. -/
theorem arguments_agree_cat :
    kernelString (startedMemory catLine.text) 0x7FF000 0x8048000 1024 =
        emulatedString catLine.text 1024 ∧
      emulatedString catLine.text 1024 = some [102] :=
  (arguments_agree_iff catLine (by decide) _ _ _ (by decide)
    (fun j _ => startedMemory_args catLine.text j) (by decide) (by decide) (by decide)).mpr
      ⟨[102], rfl⟩

/-- `"grep a b"` gives the program `"a"` on the kernel and `"a b"` on the emulation. -/
theorem arguments_differ_grep :
    grepLine.text.length ≤ 127 ∧
      kernelString (startedMemory grepLine.text) 0x7FF000 0x8048000 1024 = some [97] ∧
      emulatedString grepLine.text 1024 = some [97, 32, 98] ∧
      ¬ (kernelString (startedMemory grepLine.text) 0x7FF000 0x8048000 1024 =
          emulatedString grepLine.text 1024 ∧
        emulatedString grepLine.text 1024 = some grepLine.joined) := by
  have hword : commandWord grepLine.text = [97] := commandWord_text grepLine rfl
  have hargs : HasArguments (startedMemory grepLine.text) 0x7FF000 [97] := by
    refine ⟨by decide, ?_⟩
    intro j hj
    have hheld := holdsAt_pcbArgs (fun _ => 0) (fun _ => 0) (fun _ => 0) grepLine.not_mem_text
      (by rw [hword]; decide)
    rw [hword] at hheld
    have hat := hheld j hj
    rw [Nat.zero_add] at hat
    rw [startedMemory_args, hat]
  have hkernel : kernelString (startedMemory grepLine.text) 0x7FF000 0x8048000 1024 = some [97] :=
    kernelString_eq (by decide) (by decide) (by decide) hargs (by decide) (by decide)
  have hemulated : emulatedString grepLine.text 1024 = some [97, 32, 98] :=
    emulatedString_eq grepLine (by decide) (by decide)
  refine ⟨by decide, hkernel, hemulated, ?_⟩
  rintro ⟨hsame, -⟩
  rw [hkernel, hemulated] at hsame
  cases hsame

end LinuxBasedOS.Process
