import LinuxBasedOS.Programs.GrepRuns
import LinuxBasedOS.Programs.Ls

/-!
# main of grep

`main` of `grep` reads the directory as `ls` does, leaves out the names that begin with a dot, and
calls `do_one_file` with every other name. Here `do_one_file` runs on the system calls themselves;
the lines of its buffer are searched as in `doOneFile`, and what that prints is carried over
(`grepReads_meets`). `stack` is what is in its `data` when it begins, for each call.
-/

namespace LinuxBasedOS.Programs

open Stores Lib Filesystem Files Process Loops Lines

/-! ## do_one_file -/

/-- The loop over the reads; `data` is its buffer. -/
def grepReads (h : Host) (s : Nat → UInt8) (sLen : Nat) (fname : List UInt8) (fd : Int) :
    Nat → (Nat → UInt8) → Nat → Program Int
  | 0, _, _ => fun _ => none
  | fuel + 1, data, last => do
    let reply ← h.readBytes fd false (1024 - last)
    if -1 = reply.1 then
      h.ece391Fdputs 1 (bytesOf "file read failed\n")
      pure (-1)
    else
      let scan ← StateT.lift (scanLines s sLen fname reply.1.toNat (last + reply.1.toNat) fuel
        (place data last reply.2) 0 [])
      scan.2.2.forM (h.ece391Fdputs 1)
      if 0 = reply.1 then
        let r ← ece391Close fd
        if -1 = r then
          h.ece391Fdputs 1 (bytesOf "file close failed\n")
          pure (-1)
        else pure 0
      else grepReads h s sLen fname fd fuel scan.1 scan.2.1

/-- `do_one_file`, with a number of turns for its loops. -/
def grepFile (h : Host) (fuel : Nat) (s fname : List UInt8) (data : Nat → UInt8) : Program Int := do
  let sLen ← StateT.lift (ece391StrlenFrom (cstr s) fuel 0 0)
  let fd ← h.ece391Open fname
  if -1 = fd then
    h.ece391Fdputs 1 (bytesOf "file open failed\n")
    pure (-1)
  else grepReads h (cstr s) sLen fname fd fuel data 0

/-! ## main -/

/-- A turn of the `while` loop of `main`. -/
def grepTurn (h : Host) (stack : Nat → Nat → UInt8) (fuel : Nat) (fd : Int) (search buf : Nat) :
    Program (Option Int) := do
  let cnt ← h.ece391Read fd buf 32
  if 0 ≠ cnt then
    if -1 = cnt then
      h.ece391Fdputs 1 (bytesOf "directory entry read failed\n")
      pure (some 3)
    else
      let w ← get
      if 46 = w.memory buf then pure none
      else
        modify fun w => w.fill (buf + cnt.toNat) [0]
        let w ← get
        let r ← grepFile h fuel (stringAt w.memory search) (stringAt w.memory buf) (stack w.calls)
        if 0 ≠ r then pure (some 3) else pure none
  else pure (some 0)

/-- `main` of `grep`, with its buffers at two addresses. -/
def grepMain (h : Host) (stack : Nat → Nat → UInt8) (search buf fuel : Nat) : Program Int := do
  let r ← h.ece391Getargs search 1024
  if 0 ≠ r then
    h.ece391Fdputs 1 (bytesOf "could not read argument\n")
    pure 3
  else
    let fd ← h.ece391Open (bytesOf ".")
    if -1 = fd then
      h.ece391Fdputs 1 (bytesOf "directory open failed\n")
      pure 2
    else loop (grepTurn h stack fuel fd search buf) fuel

/-! ## The output of the loops, piece by piece -/

section Output

variable {s : Nat → UInt8} {fname : List UInt8} {sLen cnt last : Nat}

theorem printLine_out (data : Nat → UInt8) (fuel n lineStart : Nat) (out : List (List UInt8)) :
    printLine s data sLen fname fuel n lineStart out =
      (printLine s data sLen fname fuel n lineStart []).map (out ++ ·) := by
  unfold printLine
  split
  · cases ece391Fdputs fuel data lineStart <;> rfl
  · rw [Option.map_some, List.append_nil]

/-- What has been written before does not matter to the lines that follow. -/
theorem scanLines_out (fuel : Nat) (data : Nat → UInt8) (lineStart : Nat) (out : List (List UInt8)) :
    scanLines s sLen fname cnt last fuel data lineStart out =
      (scanLines s sLen fname cnt last fuel data lineStart []).map
        fun r => (r.1, r.2.1, out ++ r.2.2) := by
  induction fuel generalizing data lineStart out with
  | zero => rfl
  | succ fuel ih =>
    rw [scanLines, scanLines]
    dsimp only
    split
    · cases ece391Strcpy fuel _ 0 lineStart with
      | none => rfl
      | some data' => simp
    · rw [printLine_out]
      cases printLine s _ sLen fname fuel _ lineStart [] with
      | none => rfl
      | some text =>
        simp only [Option.map_some, Option.bind_eq_bind, Option.bind_some]
        split
        · rfl
        · rw [ih _ _ (out ++ text), ih _ _ text]
          cases scanLines s sLen fname cnt last fuel _ _ [] with
          | none => rfl
          | some r => simp

/-- No more is kept in the buffer than was in it. -/
theorem scanLines_last_le {fuel : Nat} {data : Nat → UInt8} {lineStart : Nat}
    {out : List (List UInt8)} {r : (Nat → UInt8) × Nat × List (List UInt8)}
    (h : scanLines s sLen fname cnt last fuel data lineStart out = some r) : r.2.1 ≤ last := by
  induction fuel generalizing data lineStart out with
  | zero => cases h
  | succ fuel ih =>
    rw [scanLines] at h
    dsimp only at h
    split at h
    · obtain ⟨data', -, heq⟩ := Option.bind_eq_some_iff.mp h
      cases heq
      exact Nat.sub_le _ _
    · obtain ⟨text, -, hrest⟩ := Option.bind_eq_some_iff.mp h
      split at hrest
      · cases hrest
        exact Nat.zero_le _
      · exact ih hrest

theorem readLoop_out (calls : Calls) (fuel : Nat) (data : Nat → UInt8) (pos last : Nat)
    (out : List (List UInt8)) :
    readLoop calls s sLen fname fuel data pos last out =
      (readLoop calls s sLen fname fuel data pos last []).map
        fun o => { o with out := out ++ o.out } := by
  induction fuel generalizing data pos last out with
  | zero => rfl
  | succ fuel ih =>
    rw [readLoop, readLoop]
    split
    · rfl
    · next bytes hbytes =>
      rw [scanLines_out]
      cases scanLines s sLen fname bytes.length (last + bytes.length) fuel
        (place data last bytes) 0 [] with
      | none => rfl
      | some r =>
        obtain ⟨data', last', text⟩ := r
        simp only [Option.map_some, Option.bind_eq_bind, Option.bind_some]
        split
        · split
          · simp
          · rfl
        · rw [ih _ _ _ (out ++ text), ih _ _ _ text]
          cases readLoop calls s sLen fname fuel data' (pos + bytes.length) last' [] with
          | none => rfl
          | some o => simp

end Output

/-! ## do_one_file on a descriptor -/

/-- The world after several texts have been printed. -/
def World.printAll (w : World) (texts : List (List UInt8)) : World := texts.foldl World.print w

section PrintAll

variable {h : Host} {texts : List (List UInt8)}

theorem printAll_fileArray (w : World) (texts : List (List UInt8)) :
    (w.printAll texts).fileArray = w.fileArray := by
  induction texts generalizing w with
  | nil => rfl
  | cons text texts ih => exact ih _

theorem printAll_memory (w : World) (texts : List (List UInt8)) :
    (w.printAll texts).memory = w.memory := by
  induction texts generalizing w with
  | nil => rfl
  | cons text texts ih => exact ih _

theorem printAll_written (w : World) (texts : List (List UInt8)) :
    (w.printAll texts).written = w.written ++ texts.flatten := by
  induction texts generalizing w with
  | nil => exact (List.append_nil _).symm
  | cons text texts ih =>
    refine (ih (w.print text)).trans ?_
    rw [List.flatten_cons, ← List.append_assoc]
    rfl

theorem forM_fdputs_run (htexts : ∀ text ∈ texts, 0 ∉ text) {w : World}
    (hstd : Standard w.fileArray) :
    (texts.forM (h.ece391Fdputs 1)).run w = some ((), w.printAll texts) := by
  induction texts generalizing w with
  | nil => rfl
  | cons text texts ih =>
    rw [List.forall_mem_cons] at htexts
    have hcons : (text :: texts).forM (h.ece391Fdputs 1) =
        h.ece391Fdputs 1 text >>= fun _ => texts.forM (h.ece391Fdputs 1) := rfl
    rw [hcons, StateT.run_bind, fdputs_run hstd htexts.1]
    exact ih htexts.2 hstd

end PrintAll

/-- The reads on a descriptor deliver a file; `D` is the state of the descriptor at a position. -/
structure ReadsFile (h : Host) (fd : Nat) (file : List UInt8) (D : Nat → FileDescriptor → Prop) :
    Prop where
  inUse : ∀ pos descriptor, D pos descriptor → descriptor.flags ≠ notInUse
  read : ∀ (w : World) (pos n : Nat), D pos (w.fileArray fd) → pos ≤ file.length → n ≤ 1024 →
    ∃ descriptor, D (pos + (Cursor.chunk file pos n).length) descriptor ∧
      (h.readBytes fd false n).run w = some ((((Cursor.chunk file pos n).length : Int),
        Cursor.chunk file pos n), w.put fd descriptor)

/-- What is to hold when `do_one_file` ends. -/
def GrepFileEnds (w : World) (fd : Nat) (texts : List (List UInt8)) (r : Int) (w' : World) : Prop :=
  r = 0 ∧ w'.written = w.written ++ texts.flatten ∧ w'.memory = w.memory ∧
    w'.fileArray = Function.update w.fileArray fd closedDescriptor

section OneFile

variable {h : Host} {fd : Nat} {file fname : List UInt8} {D : Nat → FileDescriptor → Prop}
variable {s : Nat → UInt8} {sLen : Nat}

theorem readLoop_fileCalls (fuel : Nat) (data : Nat → UInt8) (pos last : Nat) :
    readLoop (fileCalls file) s sLen fname (fuel + 1) data pos last [] =
      (scanLines s sLen fname (Cursor.chunk file pos (1024 - last)).length
        (last + (Cursor.chunk file pos (1024 - last)).length) fuel
        (place data last (Cursor.chunk file pos (1024 - last))) 0 []).bind fun r =>
          if (Cursor.chunk file pos (1024 - last)).length = 0 then some ⟨r.2.2, 0⟩
          else readLoop (fileCalls file) s sLen fname fuel r.1
            (pos + (Cursor.chunk file pos (1024 - last)).length) r.2.1 r.2.2 := by
  rw [readLoop]
  rfl

/-- The loop on the system calls prints what the loop on the file gives. -/
theorem grepReads_meets (hreads : ReadsFile h fd file D) (hfd0 : minFd ≤ fd) (hfd1 : fd < maxFd)
    {fuel : Nat} {data : Nat → UInt8} {pos last : Nat} {texts : List (List UInt8)} {w : World}
    (hrun : readLoop (fileCalls file) s sLen fname fuel data pos last [] = some ⟨texts, 0⟩)
    (htexts : ∀ text ∈ texts, 0 ∉ text) (hlast : last ≤ 1024) (hpos : pos ≤ file.length)
    (hD : D pos (w.fileArray fd)) (hstd : Standard w.fileArray) :
    Meets (grepReads h s sLen fname fd fuel data last) w (GrepFileEnds w fd texts) := by
  induction fuel generalizing data pos last texts w with
  | zero => cases hrun
  | succ fuel ih =>
    obtain ⟨bytes, hbytes⟩ : ∃ bytes, bytes = Cursor.chunk file pos (1024 - last) := ⟨_, rfl⟩
    have hlength : bytes.length = min (1024 - last) (file.length - pos) := by
      rw [hbytes, Cursor.length_chunk]
    obtain ⟨descriptor, hD', hread⟩ := hreads.read w pos (1024 - last) hD hpos (Nat.sub_le _ _)
    rw [← hbytes] at hD' hread
    rw [Nat.cast_sub hlast, Nat.cast_ofNat] at hread
    rw [readLoop_fileCalls, ← hbytes] at hrun
    obtain ⟨⟨data', last', out⟩, hscan, hrest⟩ := Option.bind_eq_some_iff.mp hrun
    have hlast' : last' ≤ last + bytes.length := scanLines_last_le hscan
    dsimp only at hrest
    obtain ⟨w₁, hw₁⟩ : ∃ w₁, w₁ = w.put fd descriptor := ⟨_, rfl⟩
    have hself : w₁.fileArray fd = descriptor := by
      rw [hw₁]
      exact Function.update_self _ _ _
    have hstd₁ : Standard w₁.fileArray := by
      rw [hw₁]
      exact hstd.update hfd0 _
    have hlift : (StateT.lift (scanLines s sLen fname bytes.length (last + bytes.length) fuel
        (place data last bytes) 0 []) : Program _).run w₁ = some ((data', last', out), w₁) := by
      rw [hscan]
      rfl
    rw [← hw₁] at hread
    refine Meets.call hread ?_
    dsimp only
    rw [if_neg (by omega), Int.toNat_natCast]
    refine Meets.call hlift ?_
    dsimp only
    by_cases hend : bytes.length = 0
    · rw [if_pos hend] at hrest
      cases hrest
      refine Meets.call (forM_fdputs_run htexts hstd₁) ?_
      rw [if_pos (by omega)]
      have hflags : ((w₁.printAll texts).fileArray fd).flags ≠ notInUse := by
        rw [printAll_fileArray, hself]
        exact hreads.inUse _ _ hD'
      refine Meets.call (close_run hfd0 hfd1 hflags) ?_
      rw [if_neg (by decide)]
      refine Meets.pure ⟨rfl, ?_, ?_, ?_⟩
      · refine (printAll_written w₁ texts).trans ?_
        rw [hw₁]
        rfl
      · refine (printAll_memory w₁ texts).trans ?_
        rw [hw₁]
        rfl
      · have harray : ((w₁.printAll texts).put fd closedDescriptor).fileArray =
            Function.update (w₁.printAll texts).fileArray fd closedDescriptor := rfl
        rw [harray, printAll_fileArray, hw₁]
        exact Function.update_idem _ _ _
    · rw [if_neg hend, readLoop_out] at hrest
      obtain ⟨⟨more, r⟩, hmore, heq⟩ := Option.map_eq_some_iff.mp hrest
      cases heq
      rw [List.forall_mem_append] at htexts
      refine Meets.call (forM_fdputs_run htexts.1 hstd₁) ?_
      rw [if_neg (by omega)]
      have hafter := @ih data' (pos + bytes.length) last' more (w₁.printAll out) hmore htexts.2
        (by omega) (by omega) (by rw [printAll_fileArray, hself]; exact hD')
        (by rw [printAll_fileArray]; exact hstd₁)
      refine hafter.imp ?_
      rintro r w' ⟨hr, hwritten, hmemory, harray⟩
      refine ⟨hr, ?_, ?_, ?_⟩
      · rw [hwritten, printAll_written, hw₁, List.flatten_append, ← List.append_assoc]
        rfl
      · rw [hmemory, printAll_memory, hw₁]
        rfl
      · rw [harray, printAll_fileArray, hw₁]
        exact Function.update_idem _ _ _

end OneFile

/-! ## One entry of the directory -/

/-- What reads of an entry deliver: the bytes of a regular file, and nothing from the clock. -/
def fileOf (img : Image) (i : Nat) : List UInt8 :=
  if (dentryAt img i).filetype = regFile then entryBytes img i else []

/-- Reads of the clock come back with 0, and leave its position alone. -/
def ClockReturns (h : Host) : Prop :=
  ∀ call slot nbytes, h.others call .rtc slot nbytes =
    some { retval := 0, filePosition := slot.filePosition, bytes := [] }

/-- An entry that `grep` can search: a text with lines that fit its buffer, or the clock. -/
structure Searchable (img : Image) (i : Nat) : Prop where
  kind : RegularFile img i ∨ (dentryAt img i).filetype = 0
  text : 0 ∉ fileOf img i
  lines : ∀ l ∈ (fileOf img i).splitOn 10, l.length ≤ 1023

section Entry

variable {h : Host} {i : Nat} {w : World} {s : List UInt8}

/-- The descriptor of the entry at a position of its file. -/
def EntryAt (img : Image) (i pos : Nat) (descriptor : FileDescriptor) : Prop :=
  if (dentryAt img i).filetype = regFile then
    descriptor = regularDescriptor (dentryAt img i).idxInode pos
  else descriptor.fdJumptable = some .rtc ∧ descriptor.flags = inUse

theorem readsFile_regular {fd : Nat} (hfile : RegularFile h.img i) (hfd0 : minFd ≤ fd)
    (hfd1 : fd < maxFd) : ReadsFile h fd (fileOf h.img i) (EntryAt h.img i) := by
  have hbytes : fileOf h.img i = entryBytes h.img i := if_pos hfile.filetype
  have hat : ∀ pos descriptor, EntryAt h.img i pos descriptor ↔
      descriptor = regularDescriptor (dentryAt h.img i).idxInode pos := fun pos descriptor =>
    iff_of_eq (if_pos hfile.filetype)
  rw [hbytes]
  refine ⟨?_, ?_⟩
  · intro pos descriptor hD
    rw [(hat _ _).mp hD]
    exact Int.one_ne_zero
  · intro w pos n hD hpos hn
    exact ⟨_, (hat _ _).mpr rfl,
      readBytes_regular hfile hfd0 hfd1 ((hat _ _).mp hD) hpos (by omega)⟩

theorem readsFile_clock {fd : Nat} (hclock : ClockReturns h)
    (htype : (dentryAt h.img i).filetype = 0) (hfd0 : minFd ≤ fd) (hfd1 : fd < maxFd) :
    ReadsFile h fd (fileOf h.img i) (EntryAt h.img i) := by
  have hother : (dentryAt h.img i).filetype ≠ regFile := by
    rw [htype]
    decide
  have hbytes : fileOf h.img i = [] := if_neg hother
  have hat : ∀ pos descriptor, EntryAt h.img i pos descriptor ↔
      descriptor.fdJumptable = some .rtc ∧ descriptor.flags = inUse := fun pos descriptor =>
    iff_of_eq (if_neg hother)
  rw [hbytes]
  refine ⟨?_, ?_⟩
  · intro pos descriptor hD
    rw [((hat _ _).mp hD).2]
    exact Int.one_ne_zero
  · intro w pos n hD _ _
    obtain ⟨htable, hflags⟩ := (hat _ _).mp hD
    have hserved : sysRead fd false n (h.readRoutine w) w.fileArray =
        (h.others w.calls .rtc (w.fileArray fd) n).map (answered w.fileArray fd .rtc) := by
      refine dispatch_served (by omega) (by omega) (by unfold minFd at hfd0; omega) ?_ htable
      rw [Int.toNat_natCast, hflags]
      exact Int.one_ne_zero
    have hnone : Cursor.chunk ([] : List UInt8) pos n = [] :=
      Cursor.chunk_past_end (Nat.zero_le pos) n
    rw [hclock, Option.map_some] at hserved
    rw [hnone]
    refine ⟨w.fileArray fd, (hat _ _).mpr ⟨htable, hflags⟩, ?_⟩
    simp only [StateT.run, Host.readBytes, hserved, Option.map_some, answered]
    rfl

theorem readsFile_of_searchable {fd : Nat} (hclock : ClockReturns h)
    (hsearch : Searchable h.img i) (hfd0 : minFd ≤ fd) (hfd1 : fd < maxFd) :
    ReadsFile h fd (fileOf h.img i) (EntryAt h.img i) := by
  rcases hsearch.kind with hfile | htype
  · exact readsFile_regular hfile hfd0 hfd1
  · exact readsFile_clock hclock htype hfd0 hfd1

/-- The slot of the entry when it has been opened. -/
theorem entryAt_opened {img : Image} (hsearch : Searchable img i) :
    ∃ table, fopTables (dentryAt img i).filetype = some table ∧
      EntryAt img i 0 (openedDescriptor (dentryAt img i) table) := by
  rcases hsearch.kind with hfile | htype
  · obtain ⟨htable, hopened⟩ := openedDescriptor_regular hfile
    refine ⟨_, htable, ?_⟩
    rw [EntryAt, if_pos hfile.filetype]
    exact hopened
  · refine ⟨.rtc, ?_, ?_⟩
    · rw [htype]
      rfl
    · rw [EntryAt, if_neg (by rw [htype]; decide)]
      exact ⟨rfl, rfl⟩

/-- The name of an entry leads back to it. -/
theorem matchedSlot_dentryName (hlist : Listable h.img) (hi : i < numDir h.img) :
    matchedSlot h.img (cstr (dentryName h.img i)) = some i := by
  refine matchedSlot_listed hlist hi ?_
  intro k hk
  rw [length_paddedName] at hk
  simp [paddedName, filenameLimit, hk]

/-- What `grep` prints for an entry: its matching lines, each behind the name. -/
def entryReports (img : Image) (s : List UInt8) (i : Nat) : List (List UInt8) :=
  (((fileOf img i).splitOn 10).filter fun l => s <:+: l).flatMap (report (dentryName img i))

theorem zero_not_mem_entryReports {img : Image} (hsearch : Searchable img i) :
    ∀ text ∈ entryReports img s i, 0 ∉ text := by
  intro text htext
  obtain ⟨l, hl, hin⟩ := List.mem_flatMap.mp htext
  have hline : 0 ∉ l := fun hmem =>
    hsearch.text (mem_of_mem_splitOn (List.mem_filter.mp hl).1 hmem)
  have hname := zero_notMem_dentryName img i
  simp only [report, List.mem_cons, List.not_mem_nil, or_false] at hin
  rcases hin with rfl | rfl | rfl | rfl
  · exact hname
  · decide
  · exact hline
  · decide

/-- Turns enough for every file. -/
def grepTurns : Nat := 5000000

theorem length_fileOf_le {img : Image} (hsearch : Searchable img i) :
    (fileOf img i).length ≤ 4186112 := by
  rcases hsearch.kind with hfile | htype
  · rw [fileOf, if_pos hfile.filetype]
    exact length_entryBytes_le hfile
  · rw [fileOf, if_neg (by rw [htype]; decide)]
    exact Nat.zero_le _

/-- The loop of `do_one_file` on the file of an entry. -/
theorem readLoop_entry {img : Image} (hsearch : Searchable img i) (h0 : 0 ∉ s) (hne : s ≠ [])
    (hplain : Plain s) {data : Nat → UInt8} (hbyte : data 1024 ≠ 10) {fuel : Nat}
    (hfuel : grepTurns ≤ fuel) :
    readLoop (fileCalls (fileOf img i)) (cstr s) s.length (dentryName img i) fuel data 0 0 [] =
      some ⟨entryReports img s i, 0⟩ := by
  have hmax := length_fileOf_le hsearch
  have hturns : grepTurns = 5000000 := rfl
  have hbuffer : bufferTurns = 3000 := rfl
  have hstart := pending_start hsearch.text data
  have hmore : (fileOf img i).length + bufferTurns + 1 < fuel := by omega
  have hrun := @Pending.lines _ _ s (dentryName img i) _ _ _ _ fuel (fileCalls_delivers _) hne h0
    hstart hbyte hsearch.lines hmore []
  rw [List.nil_append, List.nil_append, reports_of_plain hplain] at hrun
  exact hrun

/-- `do_one_file` on an entry. -/
theorem grepFile_meets (hclock : ClockReturns h) (hlist : Listable h.img) (hi : i < numDir h.img)
    (hsearch : Searchable h.img i) (h0 : 0 ∉ s) (hne : s ≠ []) (hlength : s.length < argsSize)
    (hplain : Plain s) {fd : Nat} (hfree : freeDescriptor w.fileArray = some fd)
    (hstd : Standard w.fileArray) {data : Nat → UInt8} (hbyte : data 1024 ≠ 10) {fuel : Nat}
    (hfuel : grepTurns ≤ fuel) :
    Meets (grepFile h fuel s (dentryName h.img i) data) w
      (GrepFileEnds w fd (entryReports h.img s i)) := by
  have hargs : argsSize = 128 := rfl
  have hturns : grepTurns = 5000000 := rfl
  obtain ⟨hfd0, hfd1⟩ := freeDescriptor_bounds hfree
  obtain ⟨table, htable, hopened⟩ := entryAt_opened hsearch
  have hlift : (StateT.lift (ece391StrlenFrom (cstr s) fuel 0 0) : Program _).run w =
      some (s.length, w) := by
    have hstrlen := @ece391StrlenFrom_eq (cstr s) s 0 fuel h0 0 (holdsAt_cstr s) (by omega)
    rw [hstrlen, Nat.zero_add]
    rfl
  have hopen := open_run (w := w) (zero_notMem_dentryName h.img i) (hlist.nonempty i hi)
    (matchedSlot_dentryName hlist hi) hfree htable
  refine Meets.call hlift (Meets.call hopen ?_)
  rw [if_neg (by omega)]
  obtain ⟨w₁, hw₁⟩ : ∃ w₁, w₁ = w.put fd (openedDescriptor (dentryAt h.img i) table) := ⟨_, rfl⟩
  have hself : w₁.fileArray fd = openedDescriptor (dentryAt h.img i) table := by
    rw [hw₁]
    exact Function.update_self _ _ _
  have hstd₁ : Standard w₁.fileArray := by
    rw [hw₁]
    exact hstd.update hfd0 _
  rw [← hw₁]
  have hreads := grepReads_meets (readsFile_of_searchable hclock hsearch hfd0 hfd1) hfd0 hfd1
    (readLoop_entry hsearch h0 hne hplain hbyte hfuel) (zero_not_mem_entryReports hsearch)
    (Nat.zero_le _) (Nat.zero_le _) (hself ▸ hopened) hstd₁
  refine hreads.imp ?_
  rintro r w' ⟨hr, hwritten, hmemory, harray⟩
  rw [hw₁] at hwritten hmemory harray
  refine ⟨hr, hwritten, hmemory, harray.trans ?_⟩
  exact Function.update_idem _ _ _

end Entry

/-! ## The loop of main -/

/-- What `grep` prints for the first `k` entries. -/
def grepText (img : Image) (s : List UInt8) (k : Nat) : List UInt8 :=
  (List.range k).flatMap fun i =>
    if (dentryName img i).head? = some 46 then [] else (entryReports img s i).flatten

theorem grepText_succ (img : Image) (s : List UInt8) (k : Nat) :
    grepText img s (k + 1) = grepText img s k ++
      if (dentryName img k).head? = some 46 then [] else (entryReports img s k).flatten := by
  rw [grepText, List.range_succ, List.flatMap_append, List.flatMap_singleton]
  rfl

/-- The directory is open in descriptor 2, and the one behind it is free for the files. -/
structure OpenedDirectory (w₀ : World) (s : List UInt8) (search : Nat) : Prop where
  standard : Standard w₀.fileArray
  free : w₀.fileArray 3 = closedDescriptor
  string : HoldsAt w₀.memory search s

/-- The entries before `k` have been searched. -/
structure GreppedTo (h : Host) (w₀ : World) (s : List UInt8) (buf k : Nat) (w : World) : Prop where
  le : k ≤ numDir h.img
  written : w.written = w₀.written ++ grepText h.img s k
  descriptor : DirDescriptor (w.fileArray 2) k
  stays : Stays w₀ w buf 33 (some 2)

/-- What is to hold when the loop ends. -/
def Grepped (h : Host) (w₀ : World) (s : List UInt8) (buf : Nat) (r : Int) (w' : World) : Prop :=
  r = 0 ∧ w'.written = w₀.written ++ grepText h.img s (numDir h.img) ∧
    Stays w₀ w' buf 33 (some 2)

section Main

variable {h : Host} {w₀ w : World} {s : List UInt8} {search buf : Nat}
variable {stack : Nat → Nat → UInt8} {fuel : Nat}

/-- The first byte of a padded name is that of the name. -/
theorem head_paddedName (hlist : Listable h.img) {k : Nat} (hk : k < numDir h.img) :
    46 = (paddedName h.img k).headD 0 ↔ (dentryName h.img k).head? = some 46 := by
  obtain ⟨c, name, hname⟩ := List.exists_cons_of_ne_nil (hlist.nonempty k hk)
  rw [paddedName_eq, hname, List.cons_append, List.headD_cons, List.head?_cons, Option.some.injEq]
  exact eq_comm

/-- A padded name with a terminator is the name, for a C string. -/
theorem holdsAt_paddedName (memory : Nat → UInt8) (buf : Nat) (img : Image) (k : Nat) :
    HoldsAt (place memory buf (paddedName img k ++ [0])) buf (dentryName img k) := by
  have hle := length_dentryName_le img k
  have hlimit : filenameLimit = 32 := rfl
  have hlength := length_paddedName img k
  intro j hj
  have hj' : j < (paddedName img k ++ [0]).length := by
    rw [List.length_append, hlength, List.length_singleton]
    omega
  rw [place_inside memory buf hj']
  rcases Nat.lt_or_ge j 32 with hlt | hge
  · rw [List.getElem_append_left (by omega)]
    simp [paddedName]
  · have hend : j = (paddedName img k).length := by omega
    subst hend
    rw [List.getElem_concat_length rfl, cstr_of_le (by omega)]

/-- The first descriptor that is free is the one behind the directory. -/
theorem freeDescriptor_opened (hopened : OpenedDirectory w₀ s search) {p : Int}
    (hdir : DirDescriptor (w.fileArray 2) p) (hstays : Stays w₀ w buf 33 (some 2)) :
    freeDescriptor w.fileArray = some 3 := by
  refine freeDescriptor_eq_some (by decide) (by decide) ?_ ?_
  · rw [hstays.fileArray 3 (by decide), hopened.free]
    rfl
  · intro j hj0 hj1
    have hj : j = 2 := by
      unfold minFd at hj0
      omega
    rw [hj, hdir.flags]
    decide

/-- Turns that leave the buffer of the string alone keep the string. -/
theorem stringAt_search (hopened : OpenedDirectory w₀ s search) (h0 : 0 ∉ s)
    (hlength : s.length < argsSize) (hapart : search + 1024 ≤ buf ∨ buf + 33 ≤ search)
    (hstays : Stays w₀ w buf 33 (some 2)) : stringAt w.memory search = s := by
  have hargs : argsSize = 128 := rfl
  refine stringAt_of_holdsAt h0 (by omega) fun j hj => ?_
  rw [hstays.memory (search + j) (by omega)]
  exact hopened.string j hj

/-- The search of one entry that does not begin with a dot. -/
theorem grepEntry_keeps (hopened : OpenedDirectory w₀ s search) (hclock : ClockReturns h)
    (hlist : Listable h.img) (h0 : 0 ∉ s) (hne : s ≠ []) (hlength : s.length < argsSize)
    (hplain : Plain s) {data : Nat → UInt8} (hstack : data 1024 ≠ 10) (hfuel : grepTurns ≤ fuel)
    {k : Nat} (hk : k < numDir h.img) (hsearch : Searchable h.img k)
    (hdot : (dentryName h.img k).head? ≠ some 46)
    (hwritten : w.written = w₀.written ++ grepText h.img s k)
    (hdir : DirDescriptor (w.fileArray 2) (k + 1 : Nat)) (hstays : Stays w₀ w buf 33 (some 2)) :
    Meets (grepFile h fuel s (dentryName h.img k) data) w fun r w' =>
      r = 0 ∧ GreppedTo h w₀ s buf (k + 1) w' := by
  have hfile := grepFile_meets hclock hlist hk hsearch h0 hne hlength hplain
    (freeDescriptor_opened hopened hdir hstays) (hstays.standard (by decide) hopened.standard)
    hstack hfuel
  refine hfile.imp ?_
  rintro r w' ⟨hr, hprinted, hmemory, harray⟩
  refine ⟨hr, hk, ?_, ?_, ?_, ?_⟩
  · rw [hprinted, hwritten, grepText_succ, if_neg hdot, List.append_assoc]
  · rw [harray, Function.update_of_ne (by decide)]
    exact hdir
  · intro a ha
    rw [hmemory]
    exact hstays.memory a ha
  · intro fd hfd
    rw [harray]
    by_cases hthree : fd = 3
    · subst hthree
      rw [Function.update_self, hopened.free]
    · rw [Function.update_of_ne hthree]
      exact hstays.fileArray fd hfd

/-- One turn: the next entry has been searched, or all of them have been. -/
theorem grepTurn_keeps (hopened : OpenedDirectory w₀ s search) (hclock : ClockReturns h)
    (hlist : Listable h.img) (h0 : 0 ∉ s) (hne : s ≠ []) (hlength : s.length < argsSize)
    (hplain : Plain s) (hstack : ∀ call, stack call 1024 ≠ 10) (hfuel : grepTurns ≤ fuel)
    (hsearch : ∀ i < numDir h.img, (dentryName h.img i).head? ≠ some 46 → Searchable h.img i)
    (hbuf : buf ≠ 0) (hapart : search + 1024 ≤ buf ∨ buf + 33 ≤ search) {k : Nat}
    (hgrepped : GreppedTo h w₀ s buf k w) :
    Meets (grepTurn h stack fuel (2 : Nat) search buf) w
      (Keeps (fun w' => ∃ k', GreppedTo h w₀ s buf k' w') (entriesLeft h.img 2)
        (Grepped h w₀ s buf) w) := by
  have hmax : numDir h.img ≤ 63 := hlist.numDir_le
  have hle := hgrepped.le
  have hread := read_run hbuf
    (readBytes_directory hlist (by decide) (by decide) hgrepped.descriptor (by omega))
  obtain ⟨w₁, hw₁⟩ : ∃ w₁, w₁ = w.put 2 { w.fileArray 2 with filePosition := (k + 1 : Nat) } :=
    ⟨_, rfl⟩
  have hstays : Stays w₀ w₁ buf 33 (some 2) := by
    rw [hw₁]
    exact hgrepped.stays.put _
  have hwritten : w₁.written = w₀.written ++ grepText h.img s k := by
    rw [hw₁]
    exact hgrepped.written
  have hdescriptor : DirDescriptor (w₁.fileArray 2) (k + 1 : Nat) := by
    have hself : w₁.fileArray 2 = { w.fileArray 2 with filePosition := (k + 1 : Nat) } := by
      rw [hw₁]
      rfl
    rw [hself]
    exact ⟨hgrepped.descriptor.table, hgrepped.descriptor.flags, rfl⟩
  -- one entry less, whatever the turn does with it
  have hless : ∀ w' : World, DirDescriptor (w'.fileArray 2) (k + 1 : Nat) → k < numDir h.img →
      entriesLeft h.img 2 w' < entriesLeft h.img 2 w := by
    intro w' hdir hk
    unfold entriesLeft
    rw [hdir.filePosition, hgrepped.descriptor.filePosition, Int.toNat_natCast, Int.toNat_natCast]
    omega
  rw [← hw₁] at hread
  by_cases hend : k < numDir h.img
  · obtain ⟨name, hname⟩ : ∃ name, name = paddedName h.img k := ⟨_, rfl⟩
    have hlen : name.length = 32 := hname ▸ length_paddedName h.img k
    have hreply : listReply h.img k = (32, name) := by
      rw [hname, listReply, if_pos hend]
      rfl
    rw [hreply] at hread
    refine Meets.call hread ?_
    dsimp only
    rw [if_pos (by decide), if_neg (by decide)]
    refine Meets.call (StateT.run_get _) ?_
    have hstays₂ : Stays w₀ (w₁.fill buf name) buf 33 (some 2) :=
      hstays.fill (Nat.le_refl _) (by omega)
    have hfirst : (w₁.fill buf name).memory buf = name.headD 0 := by
      obtain ⟨c, rest, hcons⟩ := List.exists_cons_of_ne_nil
        (show name ≠ [] from fun hnil => by rw [hnil] at hlen; cases hlen)
      have hinside := place_inside w₁.memory buf (show 0 < name.length by omega)
      rw [Nat.add_zero] at hinside
      refine hinside.trans ?_
      simp only [hcons, List.getElem_cons_zero, List.headD_cons]
    rw [hfirst]
    by_cases hdot : (dentryName h.img k).head? = some 46
    · rw [if_pos (hname ▸ (head_paddedName hlist hend).mpr hdot)]
      refine Meets.pure ⟨⟨k + 1, hend, ?_, hdescriptor, hstays₂⟩, hless _ hdescriptor hend⟩
      rw [grepText_succ, if_pos hdot, List.append_nil]
      exact hwritten
    · rw [if_neg (fun heq => hdot ((head_paddedName hlist hend).mp (hname ▸ heq)))]
      refine Meets.call (StateT.run_modify _ _) ?_
      refine Meets.call (StateT.run_get _) ?_
      obtain ⟨w₂, hw₂⟩ : ∃ w₂, w₂ = (w₁.fill buf name).fill (buf + 32) [0] := ⟨_, rfl⟩
      have hw₂' : (w₁.fill buf name).fill (buf + (32 : Int).toNat) [0] = w₂ := hw₂.symm
      rw [hw₂']
      have hstays₃ : Stays w₀ w₂ buf 33 (some 2) := by
        rw [hw₂]
        exact hstays₂.fill (by omega) (by simp)
      have hplace : w₂.memory = place w₁.memory buf (paddedName h.img k ++ [0]) := by
        rw [hw₂, ← hname, ← place_place, hlen]
        rfl
      have hfname : stringAt w₂.memory buf = dentryName h.img k := by
        refine stringAt_of_holdsAt (zero_notMem_dentryName _ _) ?_ ?_
        · have hshort := hlist.short k hend
          omega
        · rw [hplace]
          exact holdsAt_paddedName _ _ _ _
      rw [stringAt_search hopened h0 hlength hapart hstays₃, hfname]
      have hentry := grepEntry_keeps (w := w₂) hopened hclock hlist h0 hne hlength hplain
        (hstack w₂.calls) hfuel hend (hsearch k hend hdot) hdot (by rw [hw₂]; exact hwritten)
        (by rw [hw₂]; exact hdescriptor) hstays₃
      refine Meets.bind (hentry.imp ?_)
      rintro r w' ⟨hr, hnext⟩
      rw [if_neg (by omega)]
      exact Meets.pure ⟨⟨k + 1, hnext⟩, hless w' hnext.descriptor hend⟩
  · have hreply : listReply h.img k = (0, []) := by
      rw [listReply, if_neg hend]
    rw [hreply] at hread
    refine Meets.call hread ?_
    rw [if_neg (by decide)]
    have hk : k = numDir h.img := by omega
    rw [hk] at hwritten
    exact Meets.pure ⟨rfl, hwritten, hstays.fill (Nat.le_refl _) (by simp)⟩

/-- The loop ends when the whole directory has been searched. -/
theorem grepLoop_meets (hopened : OpenedDirectory w₀ s search) (hclock : ClockReturns h)
    (hlist : Listable h.img) (h0 : 0 ∉ s) (hne : s ≠ []) (hlength : s.length < argsSize)
    (hplain : Plain s) (hstack : ∀ call, stack call 1024 ≠ 10) (hfuel : grepTurns ≤ fuel)
    (hsearch : ∀ i < numDir h.img, (dentryName h.img i).head? ≠ some 46 → Searchable h.img i)
    (hbuf : buf ≠ 0) (hapart : search + 1024 ≤ buf ∨ buf + 33 ≤ search)
    (hstart : GreppedTo h w₀ s buf 0 w) :
    Meets (loop (grepTurn h stack fuel (2 : Nat) search buf) fuel) w (Grepped h w₀ s buf) := by
  have hmeasure : entriesLeft h.img 2 w < fuel := by
    have hmax : numDir h.img ≤ 63 := hlist.numDir_le
    have hturns : grepTurns = 5000000 := rfl
    unfold entriesLeft
    omega
  refine Meets.loop (I := fun w' => ∃ k, GreppedTo h w₀ s buf k w') ?_ ⟨0, hstart⟩ hmeasure
  rintro w' ⟨k, hk⟩
  exact grepTurn_keeps hopened hclock hlist h0 hne hlength hplain hstack hfuel hsearch hbuf hapart hk

/-- **grep over the directory.** For every directory of texts and clocks and every string that
begins with a character below 128: `grep` ends, and it has printed, file by file in the order of the
directory and line by line, the name and the line for every line with the string and for no other;
names that begin with a dot are left out. What `data[1024]` holds must be no newline. -/
theorem grep_searches_directory (hclock : ClockReturns h) (hlist : Listable h.img) (h0 : 0 ∉ s)
    (hne : s ≠ []) (hlength : s.length < argsSize) (hplain : Plain s)
    (hstack : ∀ call, stack call 1024 ≠ 10)
    (hsearch : ∀ i < numDir h.img, (dentryName h.img i).head? ≠ some 46 → Searchable h.img i)
    {slot : Nat} (hslot : matchedSlot h.img (cstr (bytesOf ".")) = some slot)
    (hdir : (dentryAt h.img slot).filetype = dirFile) (hargs : HasArguments w.memory h.esp s)
    (hbuf₁ : UserBuffer search 1024) (hbuf₂ : UserBuffer buf 33)
    (hapart : search + 1024 ≤ buf ∨ buf + 33 ≤ search) (hstd : Standard w.fileArray)
    (hfresh : ∀ fd, minFd ≤ fd → fd < maxFd → w.fileArray fd = closedDescriptor) :
    ∀ fuel ≥ grepTurns, Meets (grepMain h stack search buf fuel) w fun r w' =>
      r = 0 ∧ w'.written = w.written ++ grepText h.img s (numDir h.img) ∧
        ∀ a, a < search ∨ search + 1024 ≤ a → a < buf ∨ buf + 33 ≤ a → w'.memory a = w.memory a := by
  intro fuel hfuel
  have hargsSize : argsSize = 128 := rfl
  have hbuf : buf ≠ 0 := by
    have := hbuf₂.1
    omega
  obtain ⟨bytes, hbytes⟩ : ∃ bytes,
      bytes = memBytes w.memory (currentPCB h.esp + argsOffset) 1024 := ⟨_, rfl⟩
  have hlen : bytes.length = 1024 := by rw [hbytes, length_memBytes]
  have hgetargs := getargs_run (n := 1024) h0 hne hargs (by decide) hbuf₁
  rw [← hbytes] at hgetargs
  have hfree : freeDescriptor (w.fill search bytes).called.fileArray = some 2 := by
    refine freeDescriptor_eq_some (by decide) (by decide) ?_ ?_
    · exact congrArg FileDescriptor.flags (hfresh 2 (by decide) (by decide))
    · intro j hj0 hj1
      unfold minFd at hj0
      omega
  obtain ⟨htable, hopen⟩ := dirDescriptor_opened hdir
  refine Meets.call hgetargs ?_
  rw [if_neg (by decide)]
  refine Meets.call (open_run (by decide) (by decide) hslot hfree htable) ?_
  rw [if_neg (by decide)]
  obtain ⟨w₁, hw₁⟩ : ∃ w₁, w₁ = (w.fill search bytes).called.put 2
    (openedDescriptor (dentryAt h.img slot) .filesystemDir) := ⟨_, rfl⟩
  have hopened : OpenedDirectory w₁ s search := by
    rw [hw₁]
    refine ⟨hstd.update (Nat.le_refl 2) _, hfresh 3 (by decide) (by decide), ?_⟩
    rw [hbytes]
    exact holdsAt_arguments hargs (by omega)
  have hstart : GreppedTo h w₁ s buf 0 w₁ := by
    refine ⟨Nat.zero_le _, (List.append_nil _).symm, ?_, Stays.refl _ _ _ _⟩
    rw [hw₁]
    exact hopen
  rw [← hw₁]
  have hloop := grepLoop_meets hopened hclock hlist h0 hne hlength hplain hstack hfuel hsearch hbuf
    hapart hstart
  refine hloop.imp ?_
  rintro r w' ⟨hr, hwritten, hstays⟩
  refine ⟨hr, ?_, ?_⟩
  · rw [hwritten, hw₁]
    rfl
  · intro a ha₁ ha₂
    rw [hstays.memory a ha₂, hw₁]
    exact place_outside w.memory (by omega)

theorem searchable_sampleImage : Searchable sampleImage 2 where
  kind := Or.inl regularFile_sampleImage
  text := by decide
  lines := by decide

theorem searchable_clock : Searchable sampleImage 1 where
  kind := Or.inr (by decide)
  text := by decide
  lines := by decide

/-- `grep ell` on the small image. -/
theorem grep_searches_directory_sample :
    Meets (grepMain sampleHost (fun _ _ => 0) 0x8000000 0x8000400 grepTurns)
      (startedWorld [101, 108, 108]) fun r w' => r = 0 ∧ w'.written = bytesOf "f:hello\n" := by
  have hsearch : ∀ i < numDir sampleHost.img, (dentryName sampleHost.img i).head? ≠ some 46 →
      Searchable sampleHost.img i := by
    intro i hi hdot
    have hcases : i = 0 ∨ i = 1 ∨ i = 2 := by
      have hthree : numDir sampleHost.img = 3 := by decide
      omega
    rcases hcases with rfl | rfl | rfl
    · exact absurd (by decide) hdot
    · exact searchable_clock
    · exact searchable_sampleImage
  have hfresh : ∀ fd, minFd ≤ fd → fd < maxFd →
      (startedWorld [101, 108, 108]).fileArray fd = closedDescriptor := by
    intro fd hfd _
    unfold minFd at hfd
    simp only [startedWorld]
    rw [Function.update_of_ne (by omega), Function.update_of_ne (by omega)]
  have hends := @grep_searches_directory sampleHost (startedWorld [101, 108, 108])
    [101, 108, 108] 0x8000000 0x8000400 (fun _ _ => 0) (fun _ _ _ => rfl) listable_sampleImage
    (by decide) (by decide) (by decide) (by decide) (fun _ => by decide) hsearch 0 (by decide)
    (by decide) (hasArguments_leakMemory _ 0) (by decide) (by decide) (by decide)
    (standard_startedWorld _) hfresh grepTurns (Nat.le_refl _)
  refine hends.imp fun r w' ⟨hr, hwritten, _⟩ => ⟨hr, ?_⟩
  have htext : grepText sampleHost.img [101, 108, 108] (numDir sampleHost.img) =
      bytesOf "f:hello\n" := by decide
  rw [htext] at hwritten
  exact hwritten

end Main

end LinuxBasedOS.Programs
