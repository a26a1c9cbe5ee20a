import LinuxBasedOS.Programs.Cat

/-!
# ls

`main` of `ls` reads the directory through a buffer of 33 bytes, one entry of 32 bytes at a time,
puts a newline behind it and writes it to the terminal. The kernel fills a name up with NULs, and
`terminal_write` leaves NULs out, so that the names come one on each line (`ls_prints`).
-/

namespace LinuxBasedOS.Programs

open Stores Lib Filesystem Files Loops

/-- A turn of the `while` loop of `main`. -/
def lsTurn (h : Host) (fd : Int) (buf : Nat) : Program (Option Int) := do
  let cnt ← h.ece391Read fd buf 32
  if 0 ≠ cnt then
    if -1 = cnt then
      h.ece391Fdputs 1 (bytesOf "directory entry read failed\n")
      pure (some 3)
    else
      modify fun w => w.fill (buf + cnt.toNat) [10]
      let w ← get
      let r ← h.ece391Write 1 (bufferOf w.memory buf) (cnt + 1)
      if -1 = r then pure (some 3) else pure none
  else pure (some 0)

/-- `main` of `ls`, with `buf` at an address and a number of turns for its loop. -/
def lsMain (h : Host) (buf fuel : Nat) : Program Int := do
  let fd ← h.ece391Open (bytesOf ".")
  if -1 = fd then
    h.ece391Fdputs 1 (bytesOf "directory open failed\n")
    pure 2
  else loop (lsTurn h fd buf) fuel

/-- The names of the first `k` entries, each on a line. -/
def nameLines (img : Image) (k : Nat) : List UInt8 :=
  (List.range k).flatMap fun i => dentryName img i ++ [10]

/-- What `ls` returns, and what it prints. -/
def lsResult (img : Image) (fa : FileArray) : Int × List UInt8 :=
  match matchedSlot img (cstr (bytesOf ".")), freeDescriptor fa with
  | some _, some _ => (0, nameLines img (numDir img))
  | _, _ => (2, bytesOf "directory open failed\n")

/-- What is to hold when `ls` ends. -/
structure LsEnds (h : Host) (w : World) (buf : Nat) (r : Int) (w' : World) : Prop where
  result : r = (lsResult h.img w.fileArray).1
  written : w'.written = w.written ++ (lsResult h.img w.fileArray).2
  stays : Stays w w' buf 33 (freeDescriptor w.fileArray)

section Names

variable {img : Image}

theorem paddedName_eq (img : Image) (i : Nat) : paddedName img i =
    dentryName img i ++ List.replicate (filenameLimit - (dentryName img i).length) 0 := by
  have hle := length_dentryName_le img i
  refine List.ext_getElem ?_ ?_
  · rw [paddedName, List.length_map, List.length_range, List.length_append, List.length_replicate]
    omega
  · intro j hj hj'
    simp only [paddedName, List.getElem_map, List.getElem_range]
    rcases Nat.lt_or_ge j (dentryName img i).length with hlt | hge
    · rw [List.getElem_append_left hlt, cstr_of_lt hlt]
    · rw [List.getElem_append_right hge, List.getElem_replicate, cstr_of_le hge]

theorem length_paddedName (img : Image) (i : Nat) : (paddedName img i).length = 32 := by
  rw [paddedName, List.length_map, List.length_range]
  rfl

/-- The padding does not show. -/
theorem visibleBytes_paddedName (img : Image) (i : Nat) :
    visibleBytes (paddedName img i ++ [10]) = dentryName img i ++ [10] := by
  have hpadding : ∀ n, visibleBytes (List.replicate n 0) = [] := by
    intro n
    refine List.filter_eq_nil_iff.mpr fun c hc => ?_
    rw [List.eq_of_mem_replicate hc]
    decide
  rw [paddedName_eq, visibleBytes_append, visibleBytes_append, hpadding,
    visibleBytes_of_not_mem (zero_notMem_dentryName img i), List.append_nil]
  rfl

theorem nameLines_succ (img : Image) (k : Nat) :
    nameLines img (k + 1) = nameLines img k ++ (dentryName img k ++ [10]) := by
  rw [nameLines, List.range_succ, List.flatMap_append, List.flatMap_singleton]
  rfl

end Names

section Loop

variable {h : Host} {w₀ w : World} {fd buf : Nat}

/-- The names of the entries before `k` have been printed. -/
structure ListedTo (h : Host) (w₀ : World) (fd buf k : Nat) (w : World) : Prop where
  le : k ≤ numDir h.img
  written : w.written = w₀.written ++ nameLines h.img k
  descriptor : DirDescriptor (w.fileArray fd) k
  stays : Stays w₀ w buf 33 (some fd)

/-- How many entries are still to come, by the descriptor. -/
def entriesLeft (img : Image) (fd : Nat) (w : World) : Nat :=
  numDir img - (w.fileArray fd).filePosition.toNat

/-- What is to hold when the loop ends. -/
def Listed (h : Host) (w₀ : World) (fd buf : Nat) (r : Int) (w' : World) : Prop :=
  r = 0 ∧ w'.written = w₀.written ++ nameLines h.img (numDir h.img) ∧
    Stays w₀ w' buf 33 (some fd)

/-- One turn: the next name is on the screen, or all of them are. -/
theorem lsTurn_keeps (hlist : Listable h.img) (hstd : Standard w₀.fileArray)
    (hfd0 : minFd ≤ fd) (hfd1 : fd < maxFd) (hbuf : buf ≠ 0) {k : Nat}
    (hlisted : ListedTo h w₀ fd buf k w) :
    Meets (lsTurn h fd buf) w (Keeps (fun w' => ∃ k', ListedTo h w₀ fd buf k' w')
      (entriesLeft h.img fd) (Listed h w₀ fd buf) w) := by
  have hmax : numDir h.img ≤ 63 := hlist.numDir_le
  have hle := hlisted.le
  have hread := read_run hbuf
    (readBytes_directory hlist hfd0 hfd1 hlisted.descriptor (by omega))
  obtain ⟨w₁, hw₁⟩ : ∃ w₁, w₁ = w.put fd { w.fileArray fd with filePosition := (k + 1 : Nat) } :=
    ⟨_, rfl⟩
  have hstays : Stays w₀ w₁ buf 33 (some fd) := by
    rw [hw₁]
    exact hlisted.stays.put _
  have hwritten : w₁.written = w₀.written ++ nameLines h.img k := by
    rw [hw₁]
    exact hlisted.written
  have hdescriptor : DirDescriptor (w₁.fileArray fd) (k + 1 : Nat) := by
    have hself : w₁.fileArray fd = { w.fileArray fd with filePosition := (k + 1 : Nat) } := by
      rw [hw₁]
      exact Function.update_self _ _ _
    rw [hself]
    exact ⟨hlisted.descriptor.table, hlisted.descriptor.flags, rfl⟩
  rw [← hw₁] at hread
  by_cases hend : k < numDir h.img
  · obtain ⟨name, hname⟩ : ∃ name, name = paddedName h.img k := ⟨_, rfl⟩
    have hlength : name.length = 32 := hname ▸ length_paddedName h.img k
    have hreply : listReply h.img k = (32, name) := by
      rw [hname, listReply, if_pos hend]
      rfl
    rw [hreply] at hread
    refine Meets.call hread ?_
    dsimp only
    rw [if_pos (by decide), if_neg (by decide)]
    refine Meets.call (StateT.run_modify _ _) ?_
    refine Meets.call (StateT.run_get _) ?_
    obtain ⟨w₂, hw₂⟩ : ∃ w₂, w₂ = (w₁.fill buf name).fill (buf + 32) [10] := ⟨_, rfl⟩
    have hw₂' : (w₁.fill buf name).fill (buf + (32 : Int).toNat) [10] = w₂ := hw₂.symm
    rw [hw₂']
    have hstays₂ : Stays w₀ w₂ buf 33 (some fd) := by
      rw [hw₂]
      exact (hstays.fill (Nat.le_refl _) (by omega)).fill (by omega) (by simp)
    have hbytes : ((List.range 33).map fun i => w₂.memory (buf + i)) = name ++ [10] := by
      have hplace : w₂.memory = place w₁.memory buf (name ++ [10]) := by
        rw [hw₂, ← place_place, hlength]
        rfl
      have hall := map_range_place w₁.memory buf (name ++ [10])
      rw [List.length_append, hlength] at hall
      rw [hplace]
      exact hall
    have hwrite := @write_run h w₂ (hstays₂.standard hfd0 hstd) (fun i => w₂.memory (buf + i)) 33
    rw [hbytes, hname, visibleBytes_paddedName] at hwrite
    have hbuffer : bufferOf w₂.memory buf = some fun i => w₂.memory (buf + i) := if_neg hbuf
    rw [hbuffer]
    refine Meets.call hwrite ?_
    rw [if_neg (by decide)]
    refine Meets.pure ⟨⟨k + 1, by omega, ?_, ?_, hstays₂.print _⟩, ?_⟩
    · rw [nameLines_succ, ← List.append_assoc, ← hwritten, hw₂]
      rfl
    · rw [hw₂]
      exact hdescriptor
    · have hnext : ((w₂.print (dentryName h.img k ++ [10])).fileArray fd).filePosition =
          (k + 1 : Nat) := by
        rw [hw₂]
        exact hdescriptor.filePosition
      unfold entriesLeft
      rw [hnext, hlisted.descriptor.filePosition, Int.toNat_natCast, Int.toNat_natCast]
      omega
  · have hreply : listReply h.img k = (0, []) := by
      rw [listReply, if_neg hend]
    rw [hreply] at hread
    refine Meets.call hread ?_
    rw [if_neg (by decide)]
    have hk : k = numDir h.img := by omega
    rw [hk] at hwritten
    refine Meets.pure ⟨rfl, hwritten, hstays.fill (Nat.le_refl _) (by simp)⟩

/-- The loop ends with all names. -/
theorem lsLoop_meets (hlist : Listable h.img) (hstd : Standard w₀.fileArray)
    (hfd0 : minFd ≤ fd) (hfd1 : fd < maxFd) (hbuf : buf ≠ 0) (hstart : ListedTo h w₀ fd buf 0 w)
    {fuel : Nat} (hfuel : numDir h.img < fuel) :
    Meets (loop (lsTurn h fd buf) fuel) w (Listed h w₀ fd buf) := by
  have hmeasure : entriesLeft h.img fd w < fuel := Nat.lt_of_le_of_lt (Nat.sub_le _ _) hfuel
  refine Meets.loop (I := fun w' => ∃ k, ListedTo h w₀ fd buf k w') ?_ ⟨0, hstart⟩ hmeasure
  rintro w' ⟨k, hk⟩
  exact lsTurn_keeps hlist hstd hfd0 hfd1 hbuf hk

end Loop

section Main

variable {h : Host} {w : World} {buf : Nat}

/-- The slot of an open directory. -/
theorem dirDescriptor_opened {img : Image} {slot : Nat}
    (hdir : (dentryAt img slot).filetype = dirFile) :
    fopTables (dentryAt img slot).filetype = some .filesystemDir ∧
      DirDescriptor (openedDescriptor (dentryAt img slot) .filesystemDir) 0 := by
  refine ⟨?_, rfl, rfl, rfl⟩
  rw [hdir]
  rfl

/-- **ls.** For every directory of listable entries, whatever the kernel leaves on its stack and
whatever happens between the calls: `ls` ends, and it has printed the name of every entry, in the
order of the directory and each on a line, or said that the directory cannot be opened. -/
theorem ls_prints (hlist : Listable h.img) (hbuf : UserBuffer buf 33) (hstd : Standard w.fileArray)
    (hdir : ∀ slot, matchedSlot h.img (cstr (bytesOf ".")) = some slot →
      (dentryAt h.img slot).filetype = dirFile) :
    ∀ fuel > numDir h.img, Meets (lsMain h buf fuel) w (LsEnds h w buf) := by
  intro fuel hfuel
  have hbuf' : buf ≠ 0 := by
    have := hbuf.1
    omega
  by_cases hfound : matchedSlot h.img (cstr (bytesOf ".")) = none ∨
      freeDescriptor w.fileArray = none
  · have hresult : lsResult h.img w.fileArray = (2, bytesOf "directory open failed\n") := by
      unfold lsResult
      rcases hfound with hslot | hfree
      · rw [hslot]
      · rw [hfree]
        cases matchedSlot h.img (cstr (bytesOf ".")) <;> rfl
    have hmessage : (0 : UInt8) ∉ bytesOf "directory open failed\n" := by decide
    refine Meets.call (open_run_refused hfound) ?_
    rw [if_pos rfl]
    refine says_meets (w := w.called) hstd hmessage ⟨?_, ?_, ?_⟩
    · rw [hresult]
    · rw [hresult]
      rfl
    · exact ((Stays.refl w buf 33 _).called).print _
  · rw [not_or] at hfound
    obtain ⟨slot, hslot⟩ := Option.ne_none_iff_exists'.mp hfound.1
    obtain ⟨fd, hfree⟩ := Option.ne_none_iff_exists'.mp hfound.2
    obtain ⟨hfd0, hfd1⟩ := freeDescriptor_bounds hfree
    obtain ⟨htable, hopened⟩ := dirDescriptor_opened (hdir slot hslot)
    have hresult : lsResult h.img w.fileArray = (0, nameLines h.img (numDir h.img)) := by
      unfold lsResult
      rw [hslot, hfree]
    refine Meets.call (open_run (w := w) (by decide) (by decide) hslot hfree htable) ?_
    rw [if_neg (by omega)]
    obtain ⟨w₁, hw₁⟩ : ∃ w₁,
        w₁ = w.put fd (openedDescriptor (dentryAt h.img slot) .filesystemDir) := ⟨_, rfl⟩
    have hself : w₁.fileArray fd = openedDescriptor (dentryAt h.img slot) .filesystemDir := by
      rw [hw₁]
      exact Function.update_self _ _ _
    have hstart : ListedTo h w fd buf 0 w₁ := by
      refine ⟨Nat.zero_le _, ?_, hself ▸ hopened, ?_⟩
      · rw [hw₁]
        exact (List.append_nil _).symm
      · rw [hw₁]
        exact (Stays.refl w buf 33 _).put _
    rw [← hw₁]
    have hloop := lsLoop_meets hlist hstd hfd0 hfd1 hbuf' hstart hfuel
    refine hloop.imp fun r w' ⟨hr, hwritten, hstays⟩ => ⟨?_, ?_, ?_⟩
    · rw [hresult, hr]
    · rw [hresult, hwritten]
    · rw [hfree]
      exact hstays

/-- `ls` on the small image. -/
theorem ls_prints_sample : Meets (lsMain sampleHost 0x8000000 4) (startedWorld []) fun r w' =>
    r = 0 ∧ w'.written = bytesOf ".\nrtc\nf\n" := by
  have hslot : matchedSlot sampleHost.img (cstr (bytesOf ".")) = some 0 := by decide
  have hresult : lsResult sampleHost.img (startedWorld []).fileArray =
      (0, bytesOf ".\nrtc\nf\n") := by decide
  have hends := @ls_prints sampleHost (startedWorld []) 0x8000000 listable_sampleImage (by decide)
    (standard_startedWorld _) (by
      intro slot heq
      rw [hslot] at heq
      cases heq
      decide) 4 (by decide)
  refine hends.imp fun r w' hend => ?_
  have hwritten := hend.written
  rw [hresult] at hwritten
  exact ⟨hend.result.trans (congrArg Prod.fst hresult), hwritten⟩

end Main

end LinuxBasedOS.Programs
