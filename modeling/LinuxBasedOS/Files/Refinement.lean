import LinuxBasedOS.Base.PartialMap
import LinuxBasedOS.Base.Transition
import LinuxBasedOS.Process.Machine

/-!
# The descriptor array as a partial map

`Descriptors` says what the array of a process is for: a partial map from the descriptors
2 to 7 to open files, beside the two standard streams. `open` takes the least free
descriptor, `close` removes one, `read` and `write` reach the file a descriptor maps to.
`Represents` relates it to the array of `FileArray`; every call keeps the relation and
gives the same answer on both sides, so every sequence of calls does.
-/

namespace LinuxBasedOS.Files

open Lib Filesystem Transition

/-! ## The abstract descriptors -/

/-- What `open` can give: only a regular file has an inode. -/
inductive FileKind where
  | rtc
  | directory
  | regular (inode : Int)

def FileKind.table : FileKind → JumpTable
  | .rtc => .rtc
  | .directory => .filesystemDir
  | .regular _ => .filesystemReg

def FileKind.inode : FileKind → Int
  | .regular inode => inode
  | _ => 0

structure OpenFile where
  kind : FileKind
  position : Int

structure Descriptors where
  files : PartialMap minFd maxFd OpenFile
  stdinPosition : Int
  stdoutPosition : Int

/-- The descriptors of a new process. -/
def Descriptors.initial : Descriptors where
  files := .empty
  stdinPosition := 0
  stdoutPosition := 0

/-- The kind of file a directory entry stands for. -/
def fileKind (entry : Dentry) : Option FileKind :=
  if entry.filetype = 0 then some .rtc
  else if entry.filetype = 1 then some .directory
  else if entry.filetype = 2 then some (.regular entry.idxInode)
  else none

/-- The file a name resolves to; the empty name resolves to none. -/
def resolve (img : Image) (filename : List UInt8) : Option FileKind :=
  if strlen filename = 0 then none
  else (matchedSlot img (cstr filename)).bind fun i => fileKind (dentryAt img i)

/-- The array slot of a descriptor. -/
def Descriptors.slot (d : Descriptors) (fd : Nat) : FileDescriptor :=
  if fd = 0 then { standardDescriptor .keyboard with filePosition := d.stdinPosition }
  else if fd = 1 then { standardDescriptor .terminal with filePosition := d.stdoutPosition }
  else
    match d.files.get fd with
    | none => closedDescriptor
    | some file =>
      { fdJumptable := some file.kind.table
        inodeIndx := file.kind.inode
        filePosition := file.position
        flags := inUse }

/-- The descriptors with another position in the file of `fd`. -/
def Descriptors.seek (d : Descriptors) (fd : Nat) (position : Int) : Descriptors :=
  if fd = 0 then { d with stdinPosition := position }
  else if fd = 1 then { d with stdoutPosition := position }
  else { d with files := d.files.modify fd fun file => { file with position := position } }

/-! ## Calls on both sides -/

/-- A driver that comes back. -/
abbrev Routine := JumpTable → FileDescriptor → Int → Reply

def Routine.driver (routine : Routine) : Driver := fun table slot nbytes =>
  some (routine table slot nbytes)

inductive Call where
  | open (filename : List UInt8) (uninit : Dentry)
  | close (fd : Int)
  | read (fd : Int) (bufNull : Bool) (nbytes : Int) (routine : Routine)
  | write (fd : Int) (bufNull : Bool) (nbytes : Int) (routine : Routine)

structure Answer where
  retval : Int
  dispatched : Option JumpTable
  bytes : List UInt8

def Answer.plain (retval : Int) : Answer where
  retval := retval
  dispatched := none
  bytes := []

def CallResult.answer (r : CallResult) : Answer where
  retval := r.retval
  dispatched := r.dispatched
  bytes := r.bytes

/-- A call on the array. -/
def serve (img : Image) (fa : FileArray) : Call → Option (Answer × FileArray)
  | .open filename uninit => (sysOpen img filename uninit fa).map fun r => (.plain r.1, r.2)
  | .close fd => some (.plain (sysClose fd fa).1, (sysClose fd fa).2)
  | .read fd bufNull nbytes routine =>
    (sysRead fd bufNull nbytes routine.driver fa).map fun r => (r.answer, r.fileArray)
  | .write fd bufNull nbytes routine =>
    (sysWrite fd bufNull nbytes routine.driver fa).map fun r => (r.answer, r.fileArray)

/-- A call on the array, with the answers given so far. -/
def serveStep (img : Image) (s : FileArray × List Answer) (call : Call) :
    Option (FileArray × List Answer) :=
  (serve img s.1 call).map fun r => (r.2, s.2 ++ [r.1])

/-- Map the least free descriptor to the file. -/
def Descriptors.open (d : Descriptors) (file : Option FileKind) : Answer × Descriptors :=
  match file, d.files.leastFree with
  | some kind, some fd => (.plain fd, { d with files := d.files.put fd ⟨kind, 0⟩ })
  | _, _ => (.plain (-1), d)

def Descriptors.close (d : Descriptors) (fd : Int) : Answer × Descriptors :=
  if 0 ≤ fd ∧ (d.files.get fd.toNat).isSome then
    (.plain 0, { d with files := d.files.erase fd.toNat })
  else (.plain (-1), d)

/-- A transfer reaches the driver of the file that the descriptor maps to. -/
def Descriptors.transfer (d : Descriptors) (refused fd : Int) (bufNull : Bool) (nbytes : Int)
    (routine : Routine) : Answer × Descriptors :=
  if fd < 0 ∨ fd = refused ∨ bufNull then (.plain (-1), d)
  else
    match (d.slot fd.toNat).fdJumptable with
    | none => (.plain (-1), d)
    | some table =>
      let reply := routine table (d.slot fd.toNat) nbytes
      ({ retval := reply.retval, dispatched := some table, bytes := reply.bytes },
        d.seek fd.toNat reply.filePosition)

def Descriptors.serve (img : Image) (d : Descriptors) : Call → Answer × Descriptors
  | .open filename _ => d.open (resolve img filename)
  | .close fd => d.close fd
  | .read fd bufNull nbytes routine => d.transfer 1 fd bufNull nbytes routine
  | .write fd bufNull nbytes routine => d.transfer 0 fd bufNull nbytes routine

def Descriptors.serveStep (img : Image) (s : Descriptors × List Answer) (call : Call) :
    Descriptors × List Answer :=
  ((s.1.serve img call).2, s.2 ++ [(s.1.serve img call).1])

/-! ## The representation -/

/-- The array holds the descriptors. -/
def Represents (fa : FileArray) (d : Descriptors) : Prop := ∀ fd < maxFd, fa fd = d.slot fd

theorem slot_of_ge {d : Descriptors} {fd : Nat} (h : minFd ≤ fd) :
    d.slot fd =
      match d.files.get fd with
      | none => closedDescriptor
      | some file =>
        { fdJumptable := some file.kind.table
          inodeIndx := file.kind.inode
          filePosition := file.position
          flags := inUse } := by
  unfold minFd at h
  rw [Descriptors.slot, if_neg (by omega), if_neg (by omega)]

/-- The flag, the table and the partial map agree on which descriptors are in use. -/
theorem slot_flags {d : Descriptors} {fd : Nat} :
    (d.slot fd).flags = notInUse ↔ (d.slot fd).fdJumptable = none := by
  unfold Descriptors.slot
  split
  · simp [standardDescriptor, inUse, notInUse]
  · split
    · simp [standardDescriptor, inUse, notInUse]
    · cases d.files.get fd with
      | none => simp [closedDescriptor]
      | some file => simp [inUse, notInUse]

theorem slot_free {d : Descriptors} {fd : Nat} (h : minFd ≤ fd) :
    (d.slot fd).flags = notInUse ↔ d.files.get fd = none := by
  rw [slot_of_ge h]
  cases d.files.get fd with
  | none => simp [closedDescriptor]
  | some file => simp [inUse, notInUse]

/-- No descriptor past the array is mapped. -/
theorem slot_past {d : Descriptors} {fd : Nat} (h : maxFd ≤ fd) : d.files.get fd = none := by
  by_contra hne
  have := (d.files.bounded fd hne).2
  omega

/-- The search of `open` finds the least free descriptor. -/
theorem freeDescriptor_eq {fa : FileArray} {d : Descriptors} (h : Represents fa d) :
    freeDescriptor fa = d.files.leastFree := by
  apply PartialMap.find_eq_leastFree
  intro fd h0 h1
  rw [h fd h1, decide_eq_true_iff, slot_free h0]

theorem slot_put {d : Descriptors} {fd : Nat} (h0 : minFd ≤ fd) (h1 : fd < maxFd)
    (kind : FileKind) (j : Nat) :
    ({ d with files := d.files.put fd ⟨kind, 0⟩ } : Descriptors).slot j =
      if j = fd then
        { fdJumptable := some kind.table, inodeIndx := kind.inode, filePosition := 0
          flags := inUse }
      else d.slot j := by
  by_cases hj : j = fd
  · subst hj
    rw [slot_of_ge h0, if_pos rfl]
    simp only [PartialMap.get_put h0 h1, if_true]
  · rw [if_neg hj]
    simp only [Descriptors.slot, PartialMap.get_put h0 h1, if_neg hj]

theorem slot_erase {d : Descriptors} {fd : Nat} (h0 : minFd ≤ fd) (j : Nat) :
    ({ d with files := d.files.erase fd } : Descriptors).slot j =
      if j = fd then closedDescriptor else d.slot j := by
  by_cases hj : j = fd
  · subst hj
    rw [slot_of_ge h0, if_pos rfl]
    simp only [PartialMap.get_erase, if_true]
  · rw [if_neg hj]
    simp only [Descriptors.slot, PartialMap.get_erase, if_neg hj]

/-- A descriptor in use keeps its slot but for the position. -/
theorem slot_seek {d : Descriptors} {fd : Nat} {table : JumpTable} (position : Int)
    (h : (d.slot fd).fdJumptable = some table) (j : Nat) :
    (d.seek fd position).slot j =
      if j = fd then { d.slot fd with filePosition := position } else d.slot j := by
  by_cases h0 : fd = 0
  · subst h0
    by_cases hj : j = 0
    · simp [Descriptors.seek, Descriptors.slot, hj]
    · simp [Descriptors.seek, Descriptors.slot, hj]
  · by_cases h1 : fd = 1
    · subst h1
      by_cases hj : j = 1
      · simp [Descriptors.seek, Descriptors.slot, hj]
      · simp [Descriptors.seek, Descriptors.slot, hj]
    · have hge : minFd ≤ fd := by
        unfold minFd
        omega
      rw [Descriptors.seek, if_neg h0, if_neg h1]
      by_cases hj : j = fd
      · subst hj
        rw [if_pos rfl, slot_of_ge hge, slot_of_ge hge]
        rw [slot_of_ge hge] at h
        simp only [PartialMap.get_modify, if_true]
        cases hget : d.files.get j with
        | none =>
          rw [hget] at h
          cases h
        | some file => rfl
      · rw [if_neg hj]
        simp only [Descriptors.slot, PartialMap.get_modify, if_neg hj]

theorem represents_update {fa : FileArray} {d d' : Descriptors} (h : Represents fa d) {fd : Nat}
    {slot : FileDescriptor} (hslot : ∀ j, d'.slot j = if j = fd then slot else d.slot j) :
    Represents (Function.update fa fd slot) d' := by
  intro j hj
  rw [Function.update_apply, hslot, h j hj]

/-! ## Each call keeps the representation -/

/-- Every entry a lookup can match is of a type that `open` has a table for. -/
def TypesKnown (img : Image) : Prop :=
  ∀ name i, matchedSlot img (cstr name) = some i →
    (dentryAt img i).filetype = 0 ∨ (dentryAt img i).filetype = 1 ∨ (dentryAt img i).filetype = 2

/-- An entry of a known type is opened as its kind. -/
theorem openedDescriptor_kind {entry : Dentry}
    (h : entry.filetype = 0 ∨ entry.filetype = 1 ∨ entry.filetype = 2) :
    ∃ kind, fileKind entry = some kind ∧ fopTables entry.filetype = some kind.table ∧
      openedDescriptor entry kind.table =
        { fdJumptable := some kind.table, inodeIndx := kind.inode, filePosition := 0
          flags := inUse } := by
  rcases h with h | h | h
  · exact ⟨.rtc, by simp [fileKind, h], by simp [fopTables, h, FileKind.table],
      by simp [openedDescriptor, h, FileKind.inode]⟩
  · exact ⟨.directory, by simp [fileKind, h], by simp [fopTables, h, FileKind.table],
      by simp [openedDescriptor, h, FileKind.inode]⟩
  · exact ⟨.regular entry.idxInode, by simp [fileKind, h], by simp [fopTables, h, FileKind.table],
      by simp [openedDescriptor, h, FileKind.inode]⟩

theorem open_represents {img : Image} {fa : FileArray} {d : Descriptors} (htypes : TypesKnown img)
    (h : Represents fa d) (filename : List UInt8) (uninit : Dentry) :
    ∃ r fa', sysOpen img filename uninit fa = some (r, fa') ∧
      (d.open (resolve img filename)).1 = .plain r ∧
      Represents fa' (d.open (resolve img filename)).2 := by
  rw [sysOpen_cases, resolve]
  by_cases hempty : strlen filename = 0
  · rw [if_pos hempty, if_pos hempty]
    exact ⟨-1, fa, rfl, rfl, h⟩
  · rw [if_neg hempty, if_neg hempty, freeDescriptor_eq h]
    cases hslot : matchedSlot img (cstr filename) with
    | none => exact ⟨-1, fa, rfl, rfl, h⟩
    | some i =>
      obtain ⟨kind, hkind, htable, hopened⟩ := openedDescriptor_kind (htypes filename i hslot)
      simp only [Option.bind_some, hkind, Descriptors.open]
      cases hfree : d.files.leastFree with
      | none => exact ⟨-1, fa, rfl, rfl, h⟩
      | some fd =>
        obtain ⟨h0, h1⟩ := PartialMap.leastFree_bounds hfree
        simp only [htable, Option.map_some, hopened]
        exact ⟨fd, _, rfl, rfl, represents_update h (slot_put h0 h1 kind)⟩

theorem close_represents {fa : FileArray} {d : Descriptors} (h : Represents fa d) (fd : Int) :
    (d.close fd).1 = .plain (sysClose fd fa).1 ∧ Represents (sysClose fd fa).2 (d.close fd).2 := by
  unfold sysClose Descriptors.close
  by_cases hrange : (maxFd : Int) ≤ fd ∨ fd < minFd
  · have hout : ¬ (0 ≤ fd ∧ (d.files.get fd.toNat).isSome) := by
      rintro ⟨h0, hsome⟩
      have := d.files.bounded fd.toNat (Option.isSome_iff_ne_none.mp hsome)
      omega
    rw [if_pos hrange, if_neg hout]
    exact ⟨rfl, h⟩
  · have h0 : minFd ≤ fd.toNat := by omega
    rw [if_neg hrange, h fd.toNat (by omega)]
    by_cases hfree : d.files.get fd.toNat = none
    · rw [if_pos ((slot_free h0).mpr hfree), if_neg (by simp [hfree])]
      exact ⟨rfl, h⟩
    · have hsome : 0 ≤ fd ∧ (d.files.get fd.toNat).isSome :=
        ⟨by omega, Option.isSome_iff_ne_none.mpr hfree⟩
      rw [if_neg (fun hflags => hfree ((slot_free h0).mp hflags)), if_pos hsome]
      exact ⟨rfl, represents_update h (slot_erase h0)⟩

/-- A transfer is refused, or reaches the driver of the table of a slot in use. -/
theorem dispatch_represents {fa : FileArray} {d : Descriptors} (h : Represents fa d)
    (refused fd : Int) (bufNull : Bool) (nbytes : Int) (routine : Routine) :
    ∃ r, dispatch refused fd bufNull nbytes routine.driver fa = some r ∧
      (d.transfer refused fd bufNull nbytes routine).1 = r.answer ∧
      Represents r.fileArray (d.transfer refused fd bufNull nbytes routine).2 := by
  unfold dispatch Descriptors.transfer
  by_cases hrefuse : fd < 0 ∨ fd = refused ∨ bufNull = true
  · rw [if_pos hrefuse]
    refine ⟨refusal fa, ?_, rfl, h⟩
    split_ifs with h1 h2 h3 h4
    · rfl
    · rfl
    · rfl
    · rfl
    · rcases hrefuse with hneg | heq | hnull
      · exact absurd (Or.inr hneg) h1
      · exact absurd heq h2
      · exact absurd hnull h4
  · rw [if_neg hrefuse]
    obtain ⟨h0, hne, hnull⟩ : ¬ fd < 0 ∧ fd ≠ refused ∧ bufNull ≠ true := by
      simpa only [not_or] using hrefuse
    by_cases hbig : (maxFd : Int) ≤ fd
    · -- past the array nothing is mapped
      have hnone : (d.slot fd.toNat).fdJumptable = none := by
        have hpast := slot_past (d := d) (show maxFd ≤ fd.toNat by omega)
        rw [slot_of_ge (show minFd ≤ fd.toNat by unfold maxFd at hbig; unfold minFd; omega), hpast]
        rfl
      rw [if_pos (Or.inl hbig), hnone]
      exact ⟨refusal fa, rfl, rfl, h⟩
    · rw [if_neg (by omega), if_neg hne, h fd.toNat (by omega)]
      cases htable : (d.slot fd.toNat).fdJumptable with
      | none =>
        rw [if_pos (slot_flags.mpr htable)]
        exact ⟨refusal fa, rfl, rfl, h⟩
      | some table =>
        have hflags : (d.slot fd.toNat).flags ≠ notInUse := by
          intro hflags
          rw [slot_flags.mp hflags] at htable
          cases htable
        rw [if_neg hflags, if_neg hnull]
        refine ⟨_, rfl, rfl, ?_⟩
        unfold answered
        rw [h fd.toNat (by omega)]
        exact represents_update h (slot_seek _ htable)

/-- One call gives the same answer on the array and on the descriptors it represents. -/
theorem serve_represents {img : Image} {fa : FileArray} {d : Descriptors}
    (htypes : TypesKnown img) (h : Represents fa d) (call : Call) :
    ∃ fa', serve img fa call = some ((d.serve img call).1, fa') ∧
      Represents fa' (d.serve img call).2 := by
  cases call with
  | «open» filename uninit =>
    obtain ⟨r, fa', hopen, hanswer, hrep⟩ := open_represents htypes h filename uninit
    refine ⟨fa', ?_, hrep⟩
    simp only [serve, Descriptors.serve, hopen, hanswer, Option.map_some]
  | close fd =>
    obtain ⟨hanswer, hrep⟩ := close_represents h fd
    refine ⟨_, ?_, hrep⟩
    simp only [serve, Descriptors.serve, hanswer]
  | read fd bufNull nbytes routine =>
    obtain ⟨r, hcall, hanswer, hrep⟩ := dispatch_represents h 1 fd bufNull nbytes routine
    refine ⟨_, ?_, hrep⟩
    simp only [serve, sysRead, Descriptors.serve, hcall, hanswer, Option.map_some]
  | write fd bufNull nbytes routine =>
    obtain ⟨r, hcall, hanswer, hrep⟩ := dispatch_represents h 0 fd bufNull nbytes routine
    refine ⟨_, ?_, hrep⟩
    simp only [serve, sysWrite, Descriptors.serve, hcall, hanswer, Option.map_some]

/-- Every sequence of calls comes to its end, with the answers of the descriptors. -/
theorem run_represents {img : Image} {fa : FileArray} {d : Descriptors} (htypes : TypesKnown img)
    (h : Represents fa d) (calls : List Call) :
    ∃ fa', run (serveStep img) (fa, []) calls =
        some (fa', (calls.foldl (Descriptors.serveStep img) (d, [])).2) ∧
      Represents fa' (calls.foldl (Descriptors.serveStep img) (d, [])).1 := by
  have hsim : ∀ ⦃t : Descriptors × List Answer⦄ ⦃s : FileArray × List Answer⦄ ⦃call t'⦄,
      (Represents s.1 t.1 ∧ s.2 = t.2) → some (Descriptors.serveStep img t call) = some t' →
      ∃ s', serveStep img s call = some s' ∧ Represents s'.1 t'.1 ∧ s'.2 = t'.2 := by
    rintro t s call t' ⟨hrep, hout⟩ hstep
    cases hstep
    obtain ⟨fa', hserve, hrep'⟩ := serve_represents htypes hrep call
    refine ⟨(fa', s.2 ++ [(t.1.serve img call).1]), ?_, hrep', ?_⟩
    · simp only [serveStep, hserve, Option.map_some]
    · simp only [Descriptors.serveStep, hout]
  obtain ⟨⟨fa', answers⟩, hrun, hrep, hanswers⟩ :=
    run_simulation hsim (run_total (Descriptors.serveStep img) (d, []) calls)
      (show Represents (fa, ([] : List Answer)).1 d ∧ _ from ⟨h, rfl⟩)
  exact ⟨fa', by rw [hrun, ← hanswers], hrep⟩

/-! ## Every sequence of calls -/

/-- A transfer goes through the table of a slot in use that it serves, and is refused with
-1 everywhere else. -/
def Transfers (refused fd : Int) (bufNull : Bool) (nbytes : Int) (routine : Routine)
    (fa : FileArray) (result : Option CallResult) : Prop :=
  let served := 0 ≤ fd ∧ fd < maxFd ∧ fd ≠ refused ∧ (fa fd.toNat).flags ≠ notInUse ∧
    bufNull = false
  (served → ∃ table, (fa fd.toNat).fdJumptable = some table ∧
    result = some (answered fa fd.toNat table (routine table (fa fd.toNat) nbytes))) ∧
  (¬ served → result = some (refusal fa))

/-- What the four calls do on an array, in terms of its slots alone. -/
structure ServesAsPartialMap (img : Image) (fa : FileArray) : Prop where
  opens : ∀ filename uninit i fd, strlen filename ≠ 0 → matchedSlot img (cstr filename) = some i →
    minFd ≤ fd → fd < maxFd → (fa fd).flags = notInUse →
    (∀ j, minFd ≤ j → j < fd → (fa j).flags ≠ notInUse) →
    ∃ table, fopTables (dentryAt img i).filetype = some table ∧
      sysOpen img filename uninit fa =
        some ((fd : Int), Function.update fa fd (openedDescriptor (dentryAt img i) table))
  open_refused : ∀ filename uninit,
    (strlen filename = 0 ∨ matchedSlot img (cstr filename) = none ∨
      ∀ fd, minFd ≤ fd → fd < maxFd → (fa fd).flags ≠ notInUse) →
    sysOpen img filename uninit fa = some (-1, fa)
  closes : ∀ fd : Int, minFd ≤ fd → fd < maxFd → (fa fd.toNat).flags ≠ notInUse →
    sysClose fd fa = (0, Function.update fa fd.toNat closedDescriptor)
  close_refused : ∀ fd : Int,
    ¬ (minFd ≤ fd ∧ fd < maxFd ∧ (fa fd.toNat).flags ≠ notInUse) → sysClose fd fa = (-1, fa)
  stdin : (fa 0).flags = inUse ∧ (fa 0).fdJumptable = some .keyboard
  stdout : (fa 1).flags = inUse ∧ (fa 1).fdJumptable = some .terminal
  reads : ∀ fd bufNull nbytes routine,
    Transfers 1 fd bufNull nbytes routine fa (sysRead fd bufNull nbytes routine.driver fa)
  writes : ∀ fd bufNull nbytes routine,
    Transfers 0 fd bufNull nbytes routine fa (sysWrite fd bufNull nbytes routine.driver fa)

theorem dispatch_transfers {fa : FileArray} {d : Descriptors} (h : Represents fa d)
    (refused fd : Int) (bufNull : Bool) (nbytes : Int) (routine : Routine) :
    Transfers refused fd bufNull nbytes routine fa
      (dispatch refused fd bufNull nbytes routine.driver fa) := by
  constructor
  · rintro ⟨h0, h1, hne, hflags, hnull⟩
    have hslot := h fd.toNat (by omega)
    have htable : (fa fd.toNat).fdJumptable ≠ none := by
      rw [hslot] at hflags ⊢
      exact fun hnone => hflags (slot_flags.mpr hnone)
    obtain ⟨table, htable⟩ := Option.ne_none_iff_exists'.mp htable
    subst hnull
    exact ⟨table, htable, dispatch_served h0 h1 hne hflags htable⟩
  · intro hout
    unfold dispatch
    split_ifs with h1 h2 h3 h4
    · rfl
    · rfl
    · rfl
    · rfl
    · exact absurd ⟨by omega, by omega, h2, h3, by simpa using h4⟩ hout

theorem serves_of_represents {img : Image} {fa : FileArray} {d : Descriptors}
    (htypes : TypesKnown img) (h : Represents fa d) : ServesAsPartialMap img fa where
  opens filename uninit i fd hname hslot h0 h1 hfree hbefore := by
    obtain ⟨kind, -, htable, -⟩ := openedDescriptor_kind (htypes filename i hslot)
    refine ⟨kind.table, htable, ?_⟩
    rw [sysOpen_cases, if_neg hname, hslot, freeDescriptor_eq_some h0 h1 hfree hbefore]
    simp only [htable, Option.map_some]
  open_refused filename uninit hwhy := by
    rw [sysOpen_cases]
    split_ifs with hempty
    · rfl
    · rcases hwhy with hname | hslot | hfull
      · exact absurd hname hempty
      · rw [hslot]
      · rw [freeDescriptor_eq_none hfull]
        cases matchedSlot img (cstr filename) <;> rfl
  closes fd h0 h1 hflags := by
    rw [sysClose, if_neg (by omega), if_neg hflags]
  close_refused fd hout := by
    unfold sysClose
    split_ifs with hrange hflags
    · rfl
    · rfl
    · exact absurd ⟨by omega, by omega, hflags⟩ hout
  stdin := by
    rw [h 0 (by decide)]
    exact ⟨rfl, rfl⟩
  stdout := by
    rw [h 1 (by decide)]
    exact ⟨rfl, rfl⟩
  reads fd bufNull nbytes routine := dispatch_transfers h 1 fd bufNull nbytes routine
  writes fd bufNull nbytes routine := dispatch_transfers h 0 fd bufNull nbytes routine

/-- `PCB_init` leaves the array of a new process: the standard streams, and no file. -/
theorem pcbInit_represents {k : Process.Kernel} {esp pid : Nat} {newPCB : Process.PCB}
    {args : List UInt8} (h : (Process.pcbInit k esp newPCB pid args).result = 0) :
    Represents (Process.pcbInit k esp newPCB pid args).newPCB.fileArray .initial := by
  have hfinish : ∀ terminalId parentAddr slot, Represents (Process.pcbFinish k
      { Process.pcbStart k newPCB pid with terminalId := terminalId, parentAddr := parentAddr }
      pid slot args).newPCB.fileArray .initial := by
    intro terminalId parentAddr slot fd hfd
    unfold maxFd at hfd
    unfold Process.pcbFinish Process.pcbStart Descriptors.slot
    by_cases h1 : fd = 1
    · subst h1
      rfl
    · by_cases h0 : fd = 0
      · subst h0
        rfl
      · simp only [Function.update_apply, if_neg h1, if_neg h0]
        rw [if_pos (by omega)]
        rfl
  unfold Process.pcbInit at h ⊢
  dsimp only at h ⊢
  split
  · exact hfinish _ _ _
  · next hpid =>
    rw [if_neg hpid] at h
    split
    · next hnone =>
      rw [hnone] at h
      cases h
    · exact hfinish _ _ _

/-- From the array that `PCB_init` sets up, every sequence of `open`, `close`, `read` and
`write` is a sequence of calls on the partial map, with the same answers. -/
theorem descriptors_refine_partial_map {k : Process.Kernel} {esp pid : Nat}
    {newPCB : Process.PCB} {args : List UInt8} {img : Image}
    (hinit : (Process.pcbInit k esp newPCB pid args).result = 0) (htypes : TypesKnown img)
    (calls : List Call) :
    ∃ fa, run (serveStep img) ((Process.pcbInit k esp newPCB pid args).newPCB.fileArray, []) calls =
        some (fa, (calls.foldl (Descriptors.serveStep img) (.initial, [])).2) ∧
      Represents fa (calls.foldl (Descriptors.serveStep img) (.initial, [])).1 ∧
      ServesAsPartialMap img fa := by
  obtain ⟨fa, hrun, hrep⟩ := run_represents htypes (pcbInit_represents hinit) calls
  exact ⟨fa, hrun, hrep, serves_of_represents htypes hrep⟩

/-- Open `f` and `rtc`, read from `f`, refuse a read from `stdout` and a close of `stdin`,
close `f`, and open `.` in its place. -/
def sampleCalls : List Call :=
  let routine : Routine := fun _ slot nbytes =>
    { retval := nbytes, filePosition := slot.filePosition + nbytes, bytes := [] }
  [.open [102] (dentryAt sampleImage 0), .open [114, 116, 99] (dentryAt sampleImage 0),
    .read 2 false 5 routine, .read 1 false 5 routine, .close 0, .close 2,
    .open [46] (dentryAt sampleImage 0), .write 3 false 4 routine]

theorem typesKnown_sampleImage : TypesKnown sampleImage := by
  intro name i hi
  have hle : i ≤ numDir sampleImage := (matchedSlot_eq_some.mp hi).1
  have hall : ∀ i ≤ numDir sampleImage, (dentryAt sampleImage i).filetype = 0 ∨
      (dentryAt sampleImage i).filetype = 1 ∨ (dentryAt sampleImage i).filetype = 2 := by decide
  exact hall i hle

/-- The first base shell makes the sample calls. -/
theorem descriptors_refine_sample :
    (Process.pcbInit (Process.boot fun _ => Process.zeroPCB).kernel (Process.pcbAddr 0)
        Process.zeroPCB 1 []).result = 0 ∧
      TypesKnown sampleImage ∧
      (sampleCalls.foldl (Descriptors.serveStep sampleImage) (.initial, [])).2.map
        Answer.retval = [2, 3, 5, -1, -1, 0, 2, 4] ∧
      ∃ fa, run (serveStep sampleImage) ((Process.pcbInit
            (Process.boot fun _ => Process.zeroPCB).kernel (Process.pcbAddr 0)
            Process.zeroPCB 1 []).newPCB.fileArray, []) sampleCalls =
          some (fa, (sampleCalls.foldl (Descriptors.serveStep sampleImage) (.initial, [])).2) ∧
        Represents fa (sampleCalls.foldl (Descriptors.serveStep sampleImage) (.initial, [])).1 ∧
        ServesAsPartialMap sampleImage fa :=
  ⟨rfl, typesKnown_sampleImage, by decide +kernel,
    descriptors_refine_partial_map rfl typesKnown_sampleImage sampleCalls⟩

end LinuxBasedOS.Files
