import LinuxBasedOS.Base.Loops
import LinuxBasedOS.Files.ChunkedRead
import LinuxBasedOS.Files.Listing
import LinuxBasedOS.Process.Arguments
import LinuxBasedOS.Terminal.Output

/-!
# Programs and their system calls

A program runs on its own memory and its own file array. What it writes to its terminal and the
commands it hands over are kept in order; what will be typed and what the commands will return is
given in order. `Host` is everything else: the image, and for each call, by its number, the
terminals as the call finds them, the locals that the kernel does not set and the drivers of the
other devices. So whatever other processes and interrupts do between two calls is allowed for.

There is one rule for each use of a call that the programs make.
-/

namespace LinuxBasedOS.Programs

open Word Stores Lib Filesystem Files Process Terminal Loops

structure Host where
  img : Image
  esp : Nat
  pcbTerminal : Nat
  terminals : Nat → Terminals
  locals : Nat → ReadLocals
  others : Nat → Driver

structure World where
  memory : Nat → UInt8
  fileArray : FileArray
  /-- the bytes printed on the terminal -/
  written : List UInt8
  /-- how many system calls have been made -/
  calls : Nat
  /-- the texts that `keyboard_read` is going to find in its buffer -/
  typed : List (List UInt8)
  /-- what `execute` is going to return -/
  answers : List Int
  /-- the commands that `execute` has been called with -/
  commands : List (List UInt8)

abbrev Program (α : Type) := StateT World Option α

/-- The string at a pointer. -/
def stringAt (memory : Nat → UInt8) (ptr : Nat) : List UInt8 := stringFrom memory 4294967296 ptr

def ece391Close (fd : Int) : Program Int := fun w =>
  some ((sysClose fd w.fileArray).1,
    { w with fileArray := (sysClose fd w.fileArray).2, calls := w.calls + 1 })

/-- `ece391_execute` of a string. -/
def ece391Execute (command : List UInt8) : Program Int := fun w =>
  match w.answers with
  | [] => none
  | answer :: answers => some (answer,
      { w with answers := answers, commands := w.commands ++ [command], calls := w.calls + 1 })

namespace Host

variable (h : Host)

def ece391Getargs (buf : Nat) (nbytes : Int) : Program Int := fun w =>
  let r := getargs w.memory h.esp buf nbytes
  some (r.1, { w with memory := Stores.apply w.memory r.2, calls := w.calls + 1 })

/-- `ece391_open` of a string. -/
def ece391Open (filename : List UInt8) : Program Int := fun w =>
  (sysOpen h.img filename (h.locals w.calls).file w.fileArray).map fun r =>
    (r.1, { w with fileArray := r.2, calls := w.calls + 1 })

/-- The read routines behind the jump tables. `keyboard_read` comes back with what has been typed, as
far as it is asked for. -/
def readRoutine (w : World) : Driver
  | .keyboard, slot, nbytes => w.typed.head?.map fun text =>
    { retval := (text.take nbytes.toNat).length
      filePosition := slot.filePosition
      bytes := text.take nbytes.toNat }
  | table, slot, nbytes =>
    readDriver h.img (h.locals w.calls) (h.others w.calls) table slot nbytes

/-- `ece391_read` up to the store in the buffer: the value and the bytes. -/
def readBytes (fd : Int) (bufNull : Bool) (nbytes : Int) : Program (Int × List UInt8) := fun w =>
  (sysRead fd bufNull nbytes (h.readRoutine w) w.fileArray).map fun r =>
    ((r.retval, r.bytes),
      { w with
        fileArray := r.fileArray
        typed := if r.dispatched = some .keyboard then w.typed.tail else w.typed
        calls := w.calls + 1 })

def ece391Read (fd : Int) (buf : Nat) (nbytes : Int) : Program Int := do
  let r ← h.readBytes fd (buf = 0) nbytes
  modify fun w => { w with memory := place w.memory buf r.2 }
  pure r.1

/-- The write routines behind the jump tables, for a call with this buffer. -/
def writeDriver (buf : Option (Nat → UInt8)) (call : Nat) : Driver
  | .terminal, slot, nbytes => some
    { retval := (terminalWrite (h.terminals call) h.pcbTerminal buf nbytes).1
      filePosition := slot.filePosition
      bytes := [] }
  | table, slot, nbytes => h.others call table slot nbytes

/-- `ece391_write` of what is behind a pointer, which `terminal_write` puts on the screen. -/
def ece391Write (fd : Int) (buf : Option (Nat → UInt8)) (nbytes : Int) : Program Int := fun w =>
  (sysWrite fd buf.isNone nbytes (h.writeDriver buf w.calls) w.fileArray).map fun r =>
    (r.retval,
      { w with
        fileArray := r.fileArray
        written := w.written ++
          if r.dispatched = some .terminal then writtenBytes buf nbytes else []
        calls := w.calls + 1 })

/-- `ece391_fdputs` of a string. -/
def ece391Fdputs (fd : Int) (s : List UInt8) : Program PUnit := do
  let _ ← h.ece391Write fd (some (cstr s)) (strlen s)
  pure ()

end Host

/-- What `ece391_write` takes from the memory at `buf`. -/
def bufferOf (memory : Nat → UInt8) (buf : Nat) : Option (Nat → UInt8) :=
  if buf = 0 then none else some fun i => memory (buf + i)

/-- The bytes that `terminal_write` prints. -/
def visibleBytes (text : List UInt8) : List UInt8 := text.filter fun c => c != 0

theorem visibleBytes_append (text text' : List UInt8) :
    visibleBytes (text ++ text') = visibleBytes text ++ visibleBytes text' :=
  List.filter_append ..

theorem visibleBytes_of_not_mem {text : List UInt8} (h : 0 ∉ text) : visibleBytes text = text := by
  refine List.filter_eq_self.mpr fun c hc => ?_
  have hne : c ≠ 0 := fun heq => h (heq ▸ hc)
  simpa using hne

/-! ## What a program changes -/

namespace World

/-- The world after one more call. -/
def called (w : World) : World := { w with calls := w.calls + 1 }

/-- The world after a call that has printed something. -/
def print (w : World) (text : List UInt8) : World :=
  { w.called with written := w.written ++ text }

/-- The world after a call that has changed a descriptor. -/
def put (w : World) (fd : Nat) (descriptor : FileDescriptor) : World :=
  { w.called with fileArray := Function.update w.fileArray fd descriptor }

/-- The world after bytes have been stored in a buffer. -/
def fill (w : World) (buf : Nat) (bytes : List UInt8) : World :=
  { w with memory := place w.memory buf bytes }

end World

/-- The program has used no memory but a buffer of `n` bytes, and at most one descriptor. -/
structure Stays (w w' : World) (buf n : Nat) (used : Option Nat) : Prop where
  memory : ∀ a, a < buf ∨ buf + n ≤ a → w'.memory a = w.memory a
  fileArray : ∀ fd, used ≠ some fd → w'.fileArray fd = w.fileArray fd

section Stays

variable {w w' : World} {buf n fd : Nat} {used : Option Nat}

theorem Stays.refl (w : World) (buf n : Nat) (used : Option Nat) : Stays w w buf n used :=
  ⟨fun _ _ => rfl, fun _ _ => rfl⟩

theorem Stays.called (h : Stays w w' buf n used) : Stays w w'.called buf n used :=
  ⟨h.memory, h.fileArray⟩

theorem Stays.print (h : Stays w w' buf n used) (text : List UInt8) :
    Stays w (w'.print text) buf n used :=
  ⟨h.memory, h.fileArray⟩

theorem Stays.put (h : Stays w w' buf n (some fd)) (descriptor : FileDescriptor) :
    Stays w (w'.put fd descriptor) buf n (some fd) := by
  refine ⟨h.memory, fun fd' hne => ?_⟩
  exact (Function.update_of_ne (fun heq => hne (congrArg some heq.symm)) _ _).trans
    (h.fileArray fd' hne)

theorem Stays.fill (h : Stays w w' buf n used) {ptr : Nat} {bytes : List UInt8} (hptr : buf ≤ ptr)
    (hlength : ptr + bytes.length ≤ buf + n) : Stays w (w'.fill ptr bytes) buf n used := by
  refine ⟨fun a ha => ?_, h.fileArray⟩
  exact (place_outside w'.memory (by omega)).trans (h.memory a ha)

end Stays

/-! ## The screen -/

/-- The descriptors that `PCB_init` sets up are as it has left them. -/
structure Standard (fa : FileArray) : Prop where
  stdin : fa 0 = standardDescriptor .keyboard
  stdout : fa 1 = standardDescriptor .terminal

theorem Standard.update {fa : FileArray} {fd : Nat} (hstd : Standard fa) (hfd : minFd ≤ fd)
    (descriptor : FileDescriptor) : Standard (Function.update fa fd descriptor) := by
  unfold minFd at hfd
  refine ⟨?_, ?_⟩
  · rw [Function.update_of_ne (by omega)]
    exact hstd.stdin
  · rw [Function.update_of_ne (by omega)]
    exact hstd.stdout

theorem Stays.standard {w w' : World} {buf n fd : Nat} (h : Stays w w' buf n (some fd))
    (hfd : minFd ≤ fd) (hstd : Standard w.fileArray) : Standard w'.fileArray := by
  unfold minFd at hfd
  have hne : ∀ j < 2, some fd ≠ some j := by
    intro j hj heq
    cases heq
    omega
  exact ⟨(h.fileArray 0 (hne 0 (by decide))).trans hstd.stdin,
    (h.fileArray 1 (hne 1 (by decide))).trans hstd.stdout⟩

section Screen

variable {h : Host} {w : World}

theorem terminalWrite_fst (s : Terminals) (pcbTerminal : Nat) (bytes : Nat → UInt8) (n : Nat) :
    (terminalWrite s pcbTerminal (some bytes) n).1 = n := by
  unfold terminalWrite
  dsimp only
  rw [if_neg (by omega)]

/-- A write to the terminal. -/
theorem write_run (hstd : Standard w.fileArray) (bytes : Nat → UInt8) (n : Nat) :
    (h.ece391Write 1 (some bytes) n).run w =
      some ((n : Int), w.print (visibleBytes ((List.range n).map bytes))) := by
  have hserved : sysWrite 1 false n (h.writeDriver (some bytes) w.calls) w.fileArray =
      (h.writeDriver (some bytes) w.calls .terminal (w.fileArray 1) n).map
        (answered w.fileArray 1 .terminal) := by
    refine dispatch_served (by decide) (by decide) (by decide) ?_ ?_
    · rw [show (1 : Int).toNat = 1 from rfl, hstd.stdout]
      exact Int.one_ne_zero
    · rw [show (1 : Int).toNat = 1 from rfl, hstd.stdout]
      rfl
  have hsame : Function.update w.fileArray 1
      { w.fileArray 1 with filePosition := (w.fileArray 1).filePosition } = w.fileArray :=
    Function.update_eq_self 1 w.fileArray
  have hbytes : writtenBytes (some bytes) n = visibleBytes ((List.range n).map bytes) := by
    unfold writtenBytes
    dsimp only
    rw [if_neg (by omega), Int.toNat_natCast]
    rfl
  simp only [StateT.run, Host.ece391Write, Option.isNone_some, hserved, Host.writeDriver,
    terminalWrite_fst, Option.map_some, answered, hsame, if_true, hbytes]
  rfl

theorem map_cstr_range (s : List UInt8) : (List.range s.length).map (cstr s) = s := by
  refine List.ext_getElem ?_ ?_
  · rw [List.length_map, List.length_range]
  · intro j hj hj'
    rw [List.getElem_map, List.getElem_range, cstr_of_lt hj']

/-- A message. -/
theorem fdputs_run (hstd : Standard w.fileArray) {s : List UInt8} (hs : 0 ∉ s) :
    (h.ece391Fdputs 1 s).run w = some ((), w.print s) := by
  rw [Host.ece391Fdputs, StateT.run_bind, strlen_of_not_mem hs, write_run hstd, map_cstr_range,
    visibleBytes_of_not_mem hs]
  rfl

/-- A program that ends with a message. -/
theorem says_meets {α : Type} {r : α} {post : α → World → Prop} (hstd : Standard w.fileArray)
    {s : List UInt8} (hs : 0 ∉ s) (hpost : post r (w.print s)) :
    Meets (h.ece391Fdputs 1 s >>= fun _ => pure r) w post :=
  Meets.call (fdputs_run hstd hs) (Meets.pure hpost)

end Screen

/-! ## The arguments -/

/-- A buffer of `n` bytes in the page of the program. -/
def UserBuffer (buf n : Nat) : Prop := 0x8000000 ≤ buf ∧ buf + n ≤ 0x8400000

instance (buf n : Nat) : Decidable (UserBuffer buf n) := inferInstanceAs (Decidable (_ ∧ _))

section Arguments

variable {h : Host} {w : World} {name : List UInt8} {buf n : Nat}

theorem userAddress_of_buffer (hbuf : UserBuffer buf n) (hn : 0 < n) : UserAddress buf :=
  ⟨hbuf.1, by have := hbuf.2; omega⟩

/-- `getargs` copies as many bytes as it is asked for, from the arguments on. -/
theorem getargs_run (h0 : 0 ∉ name) (hne : name ≠ []) (hargs : HasArguments w.memory h.esp name)
    (hn : 0 < n) (hbuf : UserBuffer buf n) :
    (h.ece391Getargs buf n).run w =
      some (0, (w.fill buf (memBytes w.memory (currentPCB h.esp + argsOffset) n)).called) := by
  obtain ⟨hpos, hbelow⟩ := args_below hargs.1
  obtain ⟨hlow, hhigh⟩ := hbuf
  have hcopy := @getargsStores_add w.memory (currentPCB h.esp + argsOffset) buf n 0 hpos
    (by omega) (by omega)
  rw [Nat.add_zero, getargsStores, List.append_nil] at hcopy
  have hcall := @getargs_of_arguments name buf w.memory h.esp n h0 hne
    (userAddress_of_buffer ⟨hlow, hhigh⟩ hn) hargs
  rw [Int.toNat_natCast, hcopy] at hcall
  simp only [StateT.run, Host.ece391Getargs, hcall, apply_series]
  rfl

/-- The buffer then has the string. -/
theorem holdsAt_arguments (hargs : HasArguments w.memory h.esp name) (hn : name.length < n) :
    HoldsAt (place w.memory buf (memBytes w.memory (currentPCB h.esp + argsOffset) n)) buf name := by
  intro j hj
  have hlength := length_memBytes w.memory (currentPCB h.esp + argsOffset) n
  rw [place_inside _ _ (by rw [hlength]; omega), getElem_memBytes]
  exact hargs.2 j hj

theorem getargs_run_empty (hargs : HasArguments w.memory h.esp []) (hbuf : UserBuffer buf n) :
    (h.ece391Getargs buf n).run w = some (-1, w.called) := by
  have hfirst : w.memory (currentPCB h.esp + argsOffset) = 0 := holdsAt_nil.mp hargs.2
  have hne : buf ≠ 0 := by
    have := hbuf.1
    omega
  simp only [StateT.run, Host.ece391Getargs, getargs, if_neg hne, hfirst, if_true]
  rfl

theorem stringAt_of_holdsAt {memory : Nat → UInt8} {ptr : Nat} (h0 : 0 ∉ name)
    (hlength : name.length < 4294967296) (hholds : HoldsAt memory ptr name) :
    stringAt memory ptr = name :=
  stringFrom_of_holdsAt h0 hholds hlength

end Arguments

/-! ## The descriptors -/

section Descriptors

variable {h : Host} {w : World} {name : List UInt8} {fd slot : Nat}

theorem open_run {table : JumpTable} (h0 : 0 ∉ name) (hne : name ≠ [])
    (hslot : matchedSlot h.img (cstr name) = some slot)
    (hfree : freeDescriptor w.fileArray = some fd)
    (htable : fopTables (dentryAt h.img slot).filetype = some table) :
    (h.ece391Open name).run w =
      some ((fd : Int), w.put fd (openedDescriptor (dentryAt h.img slot) table)) := by
  have hlength : strlen name ≠ 0 := by
    rw [strlen_of_not_mem h0]
    exact Nat.pos_iff_ne_zero.mp (List.length_pos_of_ne_nil hne)
  simp only [StateT.run, Host.ece391Open, sysOpen_cases, if_neg hlength, hslot, hfree, htable,
    Option.map_some]
  rfl

theorem open_run_refused
    (hnone : matchedSlot h.img (cstr name) = none ∨ freeDescriptor w.fileArray = none) :
    (h.ece391Open name).run w = some (-1, w.called) := by
  have hopen : sysOpen h.img name (h.locals w.calls).file w.fileArray = some (-1, w.fileArray) := by
    rw [sysOpen_cases]
    split_ifs
    · rfl
    · rcases hnone with hslot | hfree
      · rw [hslot]
      · rw [hfree]
        cases matchedSlot h.img (cstr name) <;> rfl
  simp only [StateT.run, Host.ece391Open, hopen, Option.map_some]
  rfl

theorem close_run (hfd0 : minFd ≤ fd) (hfd1 : fd < maxFd)
    (hflags : (w.fileArray fd).flags ≠ notInUse) :
    (ece391Close fd).run w = some (0, w.put fd closedDescriptor) := by
  have hclose : sysClose fd w.fileArray =
      (0, Function.update w.fileArray fd closedDescriptor) := by
    rw [sysClose, if_neg (by omega), Int.toNat_natCast, if_neg hflags]
  simp only [StateT.run, ece391Close, hclose]
  rfl

/-- A read of an open regular file. -/
theorem readBytes_regular {p n : Nat} (hfile : RegularFile h.img slot) (hfd0 : minFd ≤ fd)
    (hfd1 : fd < maxFd)
    (hfd : w.fileArray fd = regularDescriptor (dentryAt h.img slot).idxInode p)
    (hp : p ≤ (entryBytes h.img slot).length) (hn : n < 65536) :
    (h.readBytes fd false n).run w =
      some ((((Cursor.chunk (entryBytes h.img slot) p n).length : Int),
          Cursor.chunk (entryBytes h.img slot) p n),
        w.put fd (regularDescriptor (dentryAt h.img slot).idxInode
          (p + (Cursor.chunk (entryBytes h.img slot) p n).length : Nat))) := by
  have hserved : sysRead fd false n (h.readRoutine w) w.fileArray =
      (readFs h.img (h.locals w.calls) (w.fileArray fd) n).map
        (answered w.fileArray fd .filesystemReg) := by
    refine dispatch_served (by omega) (by omega) (by unfold minFd at hfd0; omega) ?_ ?_
    · rw [Int.toNat_natCast, hfd]
      exact Int.one_ne_zero
    · rw [Int.toNat_natCast, hfd]
      rfl
  rw [hfd, readFs_chunk hfile _ hp hn, Option.map_some] at hserved
  simp only [StateT.run, Host.readBytes, hserved, Option.map_some, answered, hfd]
  rfl

/-- A read of 32 bytes of an open directory. -/
theorem readBytes_directory {k : Nat} (hlist : Listable h.img) (hfd0 : minFd ≤ fd)
    (hfd1 : fd < maxFd) (hfd : DirDescriptor (w.fileArray fd) k) (hk : k + 1 < 2147483648) :
    (h.readBytes fd false 32).run w =
      some (listReply h.img k,
        w.put fd { w.fileArray fd with filePosition := (k + 1 : Nat) }) := by
  have hserved : sysRead fd false 32 (h.readRoutine w) w.fileArray =
      (some (readFsDir h.img (h.locals w.calls).dirFile (w.fileArray fd) 32)).map
        (answered w.fileArray fd .filesystemDir) := by
    refine dispatch_served (by omega) (by omega) (by unfold minFd at hfd0; omega) ?_ hfd.table
    rw [Int.toNat_natCast, hfd.flags]
    exact Int.one_ne_zero
  have hreply := readFsDir_reply hlist hk hfd.filePosition (h.locals w.calls).dirFile
  rw [show (filenameLimit : Int) = 32 from rfl] at hreply
  rw [hreply, Option.map_some] at hserved
  simp only [StateT.run, Host.readBytes, hserved, Option.map_some, answered]
  rfl

/-- The bytes of a buffer that has been filled. -/
theorem map_range_place (memory : Nat → UInt8) (buf : Nat) (bytes : List UInt8) :
    ((List.range bytes.length).map fun i => place memory buf bytes (buf + i)) = bytes := by
  refine List.ext_getElem ?_ ?_
  · rw [List.length_map, List.length_range]
  · intro j hj hj'
    rw [List.getElem_map, List.getElem_range, place_inside memory buf hj']

/-- A read into the memory of the program. -/
theorem read_run {buf : Nat} {nbytes : Int} {reply : Int × List UInt8} {w' : World} (hbuf : buf ≠ 0)
    (hread : (h.readBytes fd false nbytes).run w = some (reply, w')) :
    (h.ece391Read fd buf nbytes).run w = some (reply.1, w'.fill buf reply.2) := by
  rw [Host.ece391Read, StateT.run_bind, decide_eq_false hbuf, hread]
  rfl

end Descriptors

/-! ## A host -/

/-- The small image, with a clock whose reads return at once. -/
def sampleHost : Host where
  img := sampleImage
  esp := 0x7FF000
  pcbTerminal := 0
  terminals := fun _ =>
    { flags := ⟨0, 0, 0, 0, 0, 0, 0⟩
      enterStatus := 0
      keyboardBuffer := fun _ => 0
      keyboardBufferIdx := fun _ => 0
      activeTerminal := 0
      console := homeConsole (fun _ => 0) 0 }
  locals := fun _ => sampleLocals
  others := fun _ table slot _ =>
    if table = .rtc then some { retval := 0, filePosition := slot.filePosition, bytes := [] } else none

/-- A program that has been started with an argument. -/
def startedWorld (name : List UInt8) : World where
  memory := leakMemory name 0
  fileArray := Function.update (Function.update (fun _ => closedDescriptor) 0
    (standardDescriptor .keyboard)) 1 (standardDescriptor .terminal)
  written := []
  calls := 0
  typed := []
  answers := []
  commands := []

theorem standard_startedWorld (name : List UInt8) : Standard (startedWorld name).fileArray :=
  ⟨rfl, rfl⟩

end LinuxBasedOS.Programs
