import LinuxBasedOS.Programs.Grep
import LinuxBasedOS.Programs.System

/-!
# cat

`main` of `cat` takes the name of a file from its arguments, opens it and copies it to the terminal
in pieces of 1024 bytes, through one buffer. `cat_prints` says what is on the screen when it ends,
for every file system, every name and every free descriptor; the descriptor is left open.
-/

namespace LinuxBasedOS.Programs

open Stores Lib Filesystem Files Process Loops

/-- A turn of the `while` loop of `main`. -/
def catTurn (h : Host) (fd : Int) (buf : Nat) : Program (Option Int) := do
  let cnt ← h.ece391Read fd buf 1024
  if 0 ≠ cnt then
    if -1 = cnt then
      h.ece391Fdputs 1 (bytesOf "file read failed\n")
      pure (some 3)
    else
      let w ← get
      let r ← h.ece391Write 1 (bufferOf w.memory buf) cnt
      if -1 = r then pure (some 3) else pure none
  else pure (some 0)

/-- `main` of `cat`, with `buf` at an address and a number of turns for its loop. -/
def catMain (h : Host) (buf fuel : Nat) : Program Int := do
  let r ← h.ece391Getargs buf 1024
  if 0 ≠ r then
    h.ece391Fdputs 1 (bytesOf "could not read arguments\n")
    pure 3
  else
    let w ← get
    let fd ← h.ece391Open (stringAt w.memory buf)
    if -1 = fd then
      h.ece391Fdputs 1 (bytesOf "file not found\n")
      pure 2
    else loop (catTurn h fd buf) fuel

/-- What `cat` returns, and what it prints. -/
def catResult (img : Image) (fa : FileArray) (name : List UInt8) : Int × List UInt8 :=
  if name = [] then (3, bytesOf "could not read arguments\n")
  else
    match matchedSlot img (cstr name), freeDescriptor fa with
    | some slot, some _ => (0, visibleBytes (entryBytes img slot))
    | _, _ => (2, bytesOf "file not found\n")

/-- What is to hold when `cat` ends. -/
structure CatEnds (h : Host) (w : World) (buf : Nat) (name : List UInt8) (r : Int) (w' : World) :
    Prop where
  result : r = (catResult h.img w.fileArray name).1
  written : w'.written = w.written ++ (catResult h.img w.fileArray name).2
  stays : Stays w w' buf 1024 (freeDescriptor w.fileArray)
  /-- the file is left open, at its end -/
  leftOpen : r = 0 → ∃ slot fd, matchedSlot h.img (cstr name) = some slot ∧
    freeDescriptor w.fileArray = some fd ∧ w'.fileArray fd =
      regularDescriptor (dentryAt h.img slot).idxInode (entryBytes h.img slot).length

section Loop

variable {h : Host} {w₀ w : World} {fd slot buf : Nat}

/-- The file has been copied up to a position. -/
structure CopiedTo (h : Host) (w₀ : World) (fd slot buf p : Nat) (w : World) : Prop where
  le : p ≤ (entryBytes h.img slot).length
  written : w.written = w₀.written ++ visibleBytes ((entryBytes h.img slot).take p)
  descriptor : w.fileArray fd = regularDescriptor (dentryAt h.img slot).idxInode p
  stays : Stays w₀ w buf 1024 (some fd)

/-- What is still to come, by the descriptor. -/
def remaining (file : List UInt8) (fd : Nat) (w : World) : Nat :=
  file.length - (w.fileArray fd).filePosition.toNat

/-- One turn: the next piece is printed, or the whole file has been. -/
theorem catTurn_keeps (hfile : RegularFile h.img slot) (hstd : Standard w₀.fileArray)
    (hfd0 : minFd ≤ fd) (hfd1 : fd < maxFd) (hbuf : buf ≠ 0) {p : Nat}
    (hcopied : CopiedTo h w₀ fd slot buf p w) :
    Meets (catTurn h fd buf) w
      (Keeps (fun w' => ∃ p', CopiedTo h w₀ fd slot buf p' w') (remaining (entryBytes h.img slot) fd)
        (fun r w' => r = 0 ∧ CopiedTo h w₀ fd slot buf (entryBytes h.img slot).length w') w) := by
  obtain ⟨bytes, hbytes⟩ : ∃ bytes, bytes = Cursor.chunk (entryBytes h.img slot) p 1024 := ⟨_, rfl⟩
  have hread := read_run hbuf (readBytes_regular (h := h) (n := 1024) hfile hfd0 hfd1
    hcopied.descriptor hcopied.le (by decide))
  rw [← hbytes] at hread
  dsimp only at hread
  have hlength : bytes.length = min 1024 ((entryBytes h.img slot).length - p) := by
    rw [hbytes, Cursor.length_chunk]
  have hle := hcopied.le
  obtain ⟨w₁, hw₁⟩ : ∃ w₁, w₁ = (w.put fd (regularDescriptor (dentryAt h.img slot).idxInode
    (p + bytes.length : Nat))).fill buf bytes := ⟨_, rfl⟩
  have hstays : Stays w₀ w₁ buf 1024 (some fd) := by
    rw [hw₁]
    exact (hcopied.stays.put _).fill (Nat.le_refl _) (by omega)
  have hdescriptor : w₁.fileArray fd =
      regularDescriptor (dentryAt h.img slot).idxInode (p + bytes.length : Nat) := by
    rw [hw₁]
    exact Function.update_self _ _ _
  have hwritten : w₁.written = w₀.written ++ visibleBytes ((entryBytes h.img slot).take p) := by
    rw [hw₁]
    exact hcopied.written
  rw [← hw₁] at hread
  refine Meets.call hread ?_
  by_cases hend : bytes.length = 0
  · -- the end of the file
    have hp : p + bytes.length = (entryBytes h.img slot).length := by omega
    have hp' : p = (entryBytes h.img slot).length := by omega
    rw [if_neg (by omega)]
    rw [hp] at hdescriptor
    rw [hp'] at hwritten
    exact Meets.pure ⟨rfl, Nat.le_refl _, hwritten, hdescriptor, hstays⟩
  · have hbytes' : ((List.range bytes.length).map fun i => w₁.memory (buf + i)) = bytes := by
      rw [hw₁]
      exact map_range_place _ buf bytes
    have hwrite := @write_run h w₁ (hstays.standard hfd0 hstd) (fun i => w₁.memory (buf + i))
      bytes.length
    rw [hbytes'] at hwrite
    have hbuffer : bufferOf w₁.memory buf = some fun i => w₁.memory (buf + i) := if_neg hbuf
    rw [if_pos (by omega), if_neg (by omega)]
    refine Meets.call (StateT.run_get w₁) ?_
    rw [hbuffer]
    refine Meets.call hwrite ?_
    rw [if_neg (by omega)]
    refine Meets.pure ⟨⟨p + bytes.length, by omega, ?_, hdescriptor, hstays.print _⟩, ?_⟩
    · have htake := Cursor.take_append_chunk (entryBytes h.img slot) p 1024
      rw [← hbytes] at htake
      rw [← htake, visibleBytes_append, ← List.append_assoc, ← hwritten]
      rfl
    · unfold remaining
      rw [hcopied.descriptor, show ((w₁.print (visibleBytes bytes)).fileArray fd) = _ from hdescriptor]
      simp only [regularDescriptor, Int.toNat_natCast]
      omega

/-- The loop ends with the whole file. -/
theorem catLoop_meets (hfile : RegularFile h.img slot) (hstd : Standard w₀.fileArray)
    (hfd0 : minFd ≤ fd) (hfd1 : fd < maxFd) (hbuf : buf ≠ 0)
    (hstart : CopiedTo h w₀ fd slot buf 0 w) {fuel : Nat}
    (hfuel : (entryBytes h.img slot).length < fuel) :
    Meets (loop (catTurn h fd buf) fuel) w fun r w' =>
      r = 0 ∧ CopiedTo h w₀ fd slot buf (entryBytes h.img slot).length w' := by
  have hmeasure : remaining (entryBytes h.img slot) fd w < fuel :=
    Nat.lt_of_le_of_lt (Nat.sub_le _ _) hfuel
  refine Meets.loop (I := fun w' => ∃ p, CopiedTo h w₀ fd slot buf p w') ?_ ⟨0, hstart⟩ hmeasure
  rintro w' ⟨p, hp⟩
  exact catTurn_keeps hfile hstd hfd0 hfd1 hbuf hp

end Loop

section Main

variable {h : Host} {w : World} {name : List UInt8} {buf : Nat}

theorem openedDescriptor_regular {img : Image} {slot : Nat} (hfile : RegularFile img slot) :
    fopTables (dentryAt img slot).filetype = some .filesystemReg ∧
      openedDescriptor (dentryAt img slot) .filesystemReg =
        regularDescriptor (dentryAt img slot).idxInode 0 := by
  have htype : (dentryAt img slot).filetype = 2 := hfile.filetype
  refine ⟨by rw [htype]; rfl, ?_⟩
  rw [openedDescriptor, if_pos htype]
  rfl

/-- The part of `main` behind `getargs`. -/
theorem cat_opens {fuel : Nat} (h0 : 0 ∉ name) (hne : name ≠ []) (hbuf : buf ≠ 0)
    (hstd : Standard w.fileArray)
    (hfile : ∀ slot, matchedSlot h.img (cstr name) = some slot → RegularFile h.img slot)
    (hfuel : ∀ slot, matchedSlot h.img (cstr name) = some slot →
      (entryBytes h.img slot).length < fuel) :
    Meets (do
      let fd ← h.ece391Open name
      if -1 = fd then
        h.ece391Fdputs 1 (bytesOf "file not found\n")
        pure 2
      else loop (catTurn h fd buf) fuel) w (CatEnds h w buf name) := by
  by_cases hfound : matchedSlot h.img (cstr name) = none ∨ freeDescriptor w.fileArray = none
  · have hresult : catResult h.img w.fileArray name = (2, bytesOf "file not found\n") := by
      unfold catResult
      rw [if_neg hne]
      rcases hfound with hslot | hfree
      · rw [hslot]
      · rw [hfree]
        cases matchedSlot h.img (cstr name) <;> rfl
    have hmessage : (0 : UInt8) ∉ bytesOf "file not found\n" := by decide
    refine Meets.call (open_run_refused hfound) ?_
    rw [if_pos rfl]
    refine says_meets (w := w.called) hstd hmessage ⟨?_, ?_, ?_, ?_⟩
    · rw [hresult]
    · rw [hresult]
      rfl
    · exact ((Stays.refl w buf 1024 _).called).print _
    · intro hzero
      cases hzero
  · rw [not_or] at hfound
    obtain ⟨slot, hslot⟩ := Option.ne_none_iff_exists'.mp hfound.1
    obtain ⟨fd, hfree⟩ := Option.ne_none_iff_exists'.mp hfound.2
    obtain ⟨hfd0, hfd1⟩ := freeDescriptor_bounds hfree
    have hregular := hfile slot hslot
    obtain ⟨htable, hopened⟩ := openedDescriptor_regular hregular
    have hopen := open_run (w := w) h0 hne hslot hfree htable
    rw [hopened] at hopen
    have hresult : catResult h.img w.fileArray name =
        (0, visibleBytes (entryBytes h.img slot)) := by
      unfold catResult
      rw [if_neg hne, hslot, hfree]
    refine Meets.call hopen ?_
    rw [if_neg (by omega)]
    obtain ⟨w₁, hw₁⟩ : ∃ w₁, w₁ = w.put fd (regularDescriptor (dentryAt h.img slot).idxInode 0) :=
      ⟨_, rfl⟩
    rw [← hw₁]
    have hdescriptor : w₁.fileArray fd = regularDescriptor (dentryAt h.img slot).idxInode (0 : Nat) := by
      rw [hw₁]
      exact Function.update_self _ _ _
    have hstart : CopiedTo h w fd slot buf 0 w₁ := by
      refine ⟨Nat.zero_le _, ?_, hdescriptor, ?_⟩
      · rw [hw₁]
        exact (List.append_nil _).symm
      · rw [hw₁]
        exact (Stays.refl w buf 1024 _).put _
    have hloop := catLoop_meets hregular hstd hfd0 hfd1 hbuf hstart (hfuel slot hslot)
    refine hloop.imp fun r w' ⟨hr, hcopied⟩ => ⟨?_, ?_, ?_, ?_⟩
    · rw [hresult, hr]
    · rw [hresult, hcopied.written, List.take_length]
    · rw [hfree]
      exact hcopied.stays
    · exact fun _ => ⟨slot, fd, hslot, hfree, hcopied.descriptor⟩

/-- **cat.** For every name of up to 127 characters, whatever the kernel leaves on its stack and
whatever happens between the calls: `cat` ends, and it has printed the whole file byte by byte, NULs
left out, or said that there is no such file, no free descriptor or no argument. -/
theorem cat_prints (h0 : 0 ∉ name) (hlength : name.length < argsSize)
    (hargs : HasArguments w.memory h.esp name) (hbuf : UserBuffer buf 1024)
    (hstd : Standard w.fileArray)
    (hfile : ∀ slot, matchedSlot h.img (cstr name) = some slot → RegularFile h.img slot) :
    ∃ turns, ∀ fuel ≥ turns, Meets (catMain h buf fuel) w (CatEnds h w buf name) := by
  have hbuf' : buf ≠ 0 := by
    have := hbuf.1
    omega
  by_cases hne : name = []
  · subst hne
    have hresult : catResult h.img w.fileArray [] = (3, bytesOf "could not read arguments\n") := rfl
    have hmessage : (0 : UInt8) ∉ bytesOf "could not read arguments\n" := by decide
    refine ⟨0, fun fuel _ => Meets.call (getargs_run_empty hargs hbuf) ?_⟩
    rw [if_pos (by decide)]
    refine says_meets (w := w.called) hstd hmessage ⟨?_, ?_, ?_, ?_⟩
    · rw [hresult]
    · rw [hresult]
      rfl
    · exact ((Stays.refl w buf 1024 _).called).print _
    · intro hzero
      cases hzero
  · obtain ⟨turns, hturns⟩ : ∃ turns, ∀ slot, matchedSlot h.img (cstr name) = some slot →
        (entryBytes h.img slot).length < turns := by
      cases hslot : matchedSlot h.img (cstr name) with
      | none => exact ⟨0, fun slot heq => nomatch heq⟩
      | some slot =>
        refine ⟨(entryBytes h.img slot).length + 1, fun slot' heq => ?_⟩
        cases heq
        exact Nat.lt_succ_self _
    refine ⟨turns, fun fuel hfuel => ?_⟩
    have hargsSize : argsSize = 128 := rfl
    refine Meets.call (getargs_run h0 hne hargs (by decide) hbuf) ?_
    rw [if_neg (by decide)]
    refine Meets.call (StateT.run_get _) ?_
    obtain ⟨bytes, hbytes⟩ : ∃ bytes,
        bytes = memBytes w.memory (currentPCB h.esp + argsOffset) 1024 := ⟨_, rfl⟩
    have hlen : bytes.length = 1024 := by rw [hbytes, length_memBytes]
    rw [← hbytes]
    have hstring : stringAt (w.fill buf bytes).called.memory buf = name := by
      refine stringAt_of_holdsAt h0 (by omega) ?_
      rw [hbytes]
      exact holdsAt_arguments hargs (by omega)
    rw [hstring]
    have hrest := @cat_opens h (w.fill buf bytes).called name buf fuel h0 hne hbuf' hstd hfile
      fun slot hslot => Nat.lt_of_lt_of_le (hturns slot hslot) hfuel
    refine hrest.imp fun r w' hends => ⟨hends.result, hends.written, ?_, hends.leftOpen⟩
    refine ⟨fun a ha => ?_, hends.stays.fileArray⟩
    exact (hends.stays.memory a ha).trans (place_outside w.memory (by omega))

end Main

/-- `cat f` on the small image. -/
theorem cat_prints_sample : ∃ turns, ∀ fuel ≥ turns,
    Meets (catMain sampleHost 0x8000000 fuel) (startedWorld [102]) fun r w' =>
      r = 0 ∧ w'.written = [104, 101, 108, 108, 111] := by
  have hslot : matchedSlot sampleHost.img (cstr [102]) = some 2 := by decide
  have hresult : catResult sampleHost.img (startedWorld [102]).fileArray [102] =
      (0, [104, 101, 108, 108, 111]) := by decide
  obtain ⟨turns, hturns⟩ := @cat_prints sampleHost (startedWorld [102]) [102] 0x8000000 (by decide)
    (by decide) (hasArguments_leakMemory [102] 0) (by decide) (standard_startedWorld _) (by
      intro slot heq
      rw [hslot] at heq
      cases heq
      exact regularFile_sampleImage)
  refine ⟨turns, fun fuel hfuel => (hturns fuel hfuel).imp fun r w' hends => ?_⟩
  have hwritten := hends.written
  rw [hresult] at hwritten
  exact ⟨hends.result.trans (congrArg Prod.fst hresult), hwritten⟩

end LinuxBasedOS.Programs
