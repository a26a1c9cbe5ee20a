import LinuxBasedOS.Base.Transition
import LinuxBasedOS.Files.ReadFs

/-!
# Reading files in chunks

A session is a sequence of `open`, `close` and `read` calls of one process, on any of its
descriptors. Beside the array it keeps, for each descriptor that `open` has set up, a log:
the directory slot that `open` found and every read since, with its request, the value it
returned and the bytes it delivered.

A descriptor of a regular file is a cursor over the bytes of the file. So the reads on it
deliver a prefix of the file that depends on the sum of the requests only, whatever happens
on the other descriptors in between.
-/

namespace LinuxBasedOS.Files

open Word Lib Filesystem Cursor Transition

/-! ## Sessions -/

structure ReadRecord where
  nbytes : Int
  retval : Int
  bytes : List UInt8
  deriving DecidableEq

structure FileLog where
  slot : Nat
  reads : List ReadRecord
  deriving DecidableEq

structure Session where
  fileArray : FileArray
  logs : Nat → Option FileLog

def Session.start (fa : FileArray) : Session where
  fileArray := fa
  logs _ := none

inductive SessionCall where
  | open (filename : List UInt8) (uninit : Dentry)
  | close (fd : Int)
  | read (fd nbytes : Int) (locals : ReadLocals) (others : Driver)

def FileLog.record (log : FileLog) (nbytes : Int) (r : CallResult) : FileLog :=
  { log with reads := log.reads ++ [{ nbytes := nbytes, retval := r.retval, bytes := r.bytes }] }

/-- A call of the session, with a buffer that is not null. -/
def sessionStep (img : Image) (s : Session) : SessionCall → Option Session
  | .open filename uninit =>
    (sysOpen img filename uninit s.fileArray).map fun r =>
      { fileArray := r.2
        logs :=
          if (0 : Int) ≤ r.1 then
            Function.update s.logs r.1.toNat
              ((matchedSlot img (cstr filename)).map fun i => { slot := i, reads := [] })
          else s.logs }
  | .close fd =>
    some
      { fileArray := (sysClose fd s.fileArray).2
        logs :=
          if (sysClose fd s.fileArray).1 = 0 then Function.update s.logs fd.toNat none else s.logs }
  | .read fd nbytes locals others =>
    (sysRead fd false nbytes (readDriver img locals others) s.fileArray).map fun r =>
      { fileArray := r.fileArray
        logs :=
          if 0 ≤ fd then
            Function.update s.logs fd.toNat ((s.logs fd.toNat).map fun log => log.record nbytes r)
          else s.logs }

/-! ## One descriptor -/

/-- The requests of a log and what each delivered. -/
def FileLog.history (log : FileLog) : List (Nat × List UInt8) :=
  log.reads.map fun r => (r.nbytes.toNat, r.bytes)

/-- Every request of the log fits the 16-bit counter of `read_data`. -/
def FileLog.Small (log : FileLog) : Prop := ∀ r ∈ log.reads, 0 ≤ r.nbytes ∧ r.nbytes < 65536

/-- The descriptor stands where its log says, and every read was served from there. -/
structure LogHolds (img : Image) (descriptor : FileDescriptor) (log : FileLog) : Prop where
  descriptor_eq : descriptor = regularDescriptor (dentryAt img log.slot).idxInode
    (min (entryBytes img log.slot).length (requested log.history) : Nat)
  delivers : Delivers (entryBytes img log.slot) log.history
  counted : ∀ r ∈ log.reads, r.retval = r.bytes.length

theorem FileLog.small_of_record {log : FileLog} {nbytes : Int} {r : CallResult}
    (h : (log.record nbytes r).Small) : log.Small ∧ 0 ≤ nbytes ∧ nbytes < 65536 := by
  constructor
  · intro r' hr'
    exact h r' (List.mem_append_left _ hr')
  · exact h _ (List.mem_append_right _ (List.mem_singleton_self _))

/-- `open` starts a log at the beginning of the file. -/
theorem logHolds_opened {img : Image} {slot : Nat} {table : JumpTable} (h : RegularFile img slot)
    (htable : fopTables (dentryAt img slot).filetype = some table) :
    LogHolds img (openedDescriptor (dentryAt img slot) table) { slot := slot, reads := [] } := by
  have htype : (dentryAt img slot).filetype = 2 := h.filetype
  refine ⟨?_, delivers_nil _, fun r hr => absurd hr List.not_mem_nil⟩
  rw [htype] at htable
  cases htable
  simp [openedDescriptor, regularDescriptor, htype, FileLog.history]

/-- A read on the descriptor comes back with the next chunk and keeps the log. -/
theorem readFs_logHolds {img : Image} {descriptor : FileDescriptor} {log : FileLog} {nbytes : Int}
    (hfile : RegularFile img log.slot) (h : LogHolds img descriptor log) (locals : ReadLocals)
    (h0 : 0 ≤ nbytes) (h1 : nbytes < 65536) :
    ∃ reply, readFs img locals descriptor nbytes = some reply ∧
      ∀ r : CallResult, r.retval = reply.retval → r.bytes = reply.bytes →
        LogHolds img { descriptor with filePosition := reply.filePosition }
          (log.record nbytes r) := by
  obtain ⟨n, rfl⟩ := Int.eq_ofNat_of_zero_le h0
  obtain ⟨p, hp⟩ : ∃ p, p = min (entryBytes img log.slot).length (requested log.history) :=
    ⟨_, rfl⟩
  have hdesc := h.descriptor_eq
  rw [← hp] at hdesc
  have hread := readFs_chunk hfile locals (show p ≤ _ by omega) (show n < 65536 by omega)
  rw [← hdesc] at hread
  refine ⟨_, hread, fun r hretval hbytes => ?_⟩
  have hhistory : (log.record n r).history = log.history ++ [(n, r.bytes)] := by
    simp [FileLog.history, FileLog.record]
  have hchunk : r.bytes = chunk (entryBytes img log.slot) (requested log.history) n := by
    rw [hbytes, hp, chunk_min]
  refine ⟨?_, ?_, ?_⟩
  · rw [hhistory, requested_append_singleton, hdesc, length_chunk]
    have hend : p + min n ((entryBytes img log.slot).length - p) =
        min (entryBytes img log.slot).length (requested log.history + n) := by omega
    simp only [regularDescriptor, FileLog.record, hend]
  · rw [hhistory]
    exact delivers_append_singleton.mpr ⟨h.delivers, hchunk⟩
  · intro r' hr'
    rcases List.mem_append.mp hr' with hold | hnew
    · exact h.counted r' hold
    · rw [List.mem_singleton.mp hnew]
      change r.retval = r.bytes.length
      rw [hretval, hbytes]

/-- `read` on the descriptor comes back and keeps the log. -/
theorem sysRead_logHolds {img : Image} {fa : FileArray} {fd : Nat} {log : FileLog} {nbytes : Int}
    (hfile : RegularFile img log.slot) (h : LogHolds img (fa fd) log) (hfd0 : minFd ≤ fd)
    (hfd1 : fd < maxFd) (h0 : 0 ≤ nbytes) (h1 : nbytes < 65536) (locals : ReadLocals)
    (others : Driver) :
    ∃ r, sysRead fd false nbytes (readDriver img locals others) fa = some r ∧
      LogHolds img (r.fileArray fd) (log.record nbytes r) := by
  obtain ⟨reply, hread, hkeep⟩ := readFs_logHolds hfile h locals h0 h1
  have hserved : sysRead fd false nbytes (readDriver img locals others) fa =
      (readFs img locals (fa fd) nbytes).map (answered fa fd .filesystemReg) := by
    refine dispatch_served (by omega) (by omega) (by unfold minFd at hfd0; omega) ?_ ?_
    · rw [Int.toNat_natCast, h.descriptor_eq]
      exact Int.one_ne_zero
    · rw [Int.toNat_natCast, h.descriptor_eq]
      rfl
  rw [hread, Option.map_some] at hserved
  refine ⟨_, hserved, ?_⟩
  have hself : (answered fa fd .filesystemReg reply).fileArray fd =
      { fa fd with filePosition := reply.filePosition } := Function.update_self _ _ _
  rw [hself]
  exact hkeep _ rfl rfl

/-! ## All descriptors -/

/-- Every log of a regular file read in small chunks holds of its descriptor. -/
def SessionHolds (img : Image) (s : Session) : Prop :=
  ∀ fd log, s.logs fd = some log → minFd ≤ fd ∧ fd < maxFd ∧
    (RegularFile img log.slot → log.Small → LogHolds img (s.fileArray fd) log)

theorem sessionHolds_start (img : Image) (fa : FileArray) : SessionHolds img (.start fa) := by
  intro fd log hlog
  cases hlog

/-- A call that changes one slot and one log keeps the others. -/
theorem sessionHolds_update {img : Image} {s s' : Session} {fd : Nat} {new : Option FileLog}
    (h : SessionHolds img s) (hlogs : s'.logs = Function.update s.logs fd new)
    (hframe : ∀ j ≠ fd, s'.fileArray j = s.fileArray j)
    (hnew : ∀ log, new = some log → minFd ≤ fd ∧ fd < maxFd ∧
      (RegularFile img log.slot → log.Small → LogHolds img (s'.fileArray fd) log)) :
    SessionHolds img s' := by
  intro j log hlog
  rw [hlogs] at hlog
  by_cases hj : j = fd
  · subst hj
    rw [Function.update_self] at hlog
    exact hnew log hlog
  · rw [Function.update_of_ne hj] at hlog
    rw [hframe j hj]
    exact h j log hlog

theorem sessionStep_open {img : Image} {s s' : Session} {filename : List UInt8} {uninit : Dentry}
    (h : SessionHolds img s) (hstep : sessionStep img s (.open filename uninit) = some s') :
    SessionHolds img s' := by
  obtain ⟨⟨r, fa'⟩, hopen, rfl⟩ := Option.map_eq_some_iff.mp hstep
  rcases sysOpen_inv hopen with ⟨rfl, rfl⟩ | ⟨i, fd, table, hslot, h0, h1, htable, rfl, rfl⟩
  · exact h
  · simp only [if_pos (Int.natCast_nonneg fd), Int.toNat_natCast]
    refine sessionHolds_update h rfl ?_ ?_
    · intro j hj
      exact Function.update_of_ne hj _ _
    · intro log hlog
      rw [hslot] at hlog
      cases hlog
      refine ⟨h0, h1, fun hfile _ => ?_⟩
      simp only [Function.update_self]
      exact logHolds_opened hfile htable

theorem sessionStep_close {img : Image} {s s' : Session} {fd : Int}
    (h : SessionHolds img s) (hstep : sessionStep img s (.close fd) = some s') :
    SessionHolds img s' := by
  cases hstep
  rcases sysClose_inv fd s.fileArray with hclose | hclose
  · simp only [hclose]
    exact h
  · simp only [hclose, if_true]
    refine sessionHolds_update h rfl ?_ ?_
    · intro j hj
      exact Function.update_of_ne hj _ _
    · intro log hlog
      cases hlog

theorem sessionStep_read {img : Image} {s s' : Session} {fd nbytes : Int} {locals : ReadLocals}
    {others : Driver} (h : SessionHolds img s)
    (hstep : sessionStep img s (.read fd nbytes locals others) = some s') :
    SessionHolds img s' := by
  obtain ⟨r, hread, rfl⟩ := Option.map_eq_some_iff.mp hstep
  by_cases h0 : 0 ≤ fd
  · refine sessionHolds_update h (if_pos h0) (fun j hj => dispatch_frame hread hj) ?_
    intro log' hlog'
    obtain ⟨log, hlog, rfl⟩ := Option.map_eq_some_iff.mp hlog'
    obtain ⟨hfd0, hfd1, hold⟩ := h _ log hlog
    refine ⟨hfd0, hfd1, fun hfile hsmall => ?_⟩
    -- the log before this read was small too, so it held
    obtain ⟨hsmall, hn0, hn1⟩ := FileLog.small_of_record hsmall
    obtain ⟨r', hread', hkeep⟩ :=
      sysRead_logHolds (show RegularFile img log.slot from hfile) (hold hfile hsmall) hfd0 hfd1
        hn0 hn1 locals others
    rw [Int.toNat_of_nonneg h0, hread] at hread'
    cases hread'
    exact hkeep
  · -- a negative descriptor is refused
    have hsame : r.fileArray = s.fileArray := by
      rw [sysRead, dispatch, if_pos (Or.inr (by omega))] at hread
      cases hread
      rfl
    simp only [hsame, if_neg h0]
    exact h

theorem sessionStep_holds {img : Image} {s s' : Session} {call : SessionCall}
    (h : SessionHolds img s) (hstep : sessionStep img s call = some s') : SessionHolds img s' := by
  cases call with
  | «open» filename uninit => exact sessionStep_open h hstep
  | close fd => exact sessionStep_close h hstep
  | read fd nbytes locals others => exact sessionStep_read h hstep

/-! ## The bytes of every descriptor -/

/-- The descriptor was opened on a regular file and read in small chunks since. -/
def Reading (img : Image) (s : Session) (fd : Nat) (log : FileLog) : Prop :=
  s.logs fd = some log ∧ RegularFile img log.slot ∧ log.Small

/-- A small read on such a descriptor. -/
def ReadsOn (img : Image) (s : Session) (call : SessionCall) : Prop :=
  ∃ (fd : Nat) (nbytes : Int) (locals : ReadLocals) (others : Driver) (log : FileLog),
    call = .read fd nbytes locals others ∧ 0 ≤ nbytes ∧ nbytes < 65536 ∧ Reading img s fd log

/-- What a sequence of reads has to say about a file. -/
structure ReadsPrefix (file : List UInt8) (reads : List ReadRecord) : Prop where
  delivered : (reads.map ReadRecord.bytes).flatten =
    file.take (min file.length (reads.map fun r => r.nbytes.toNat).sum)
  counted : ∀ r ∈ reads, r.retval = r.bytes.length
  ended : ∀ before r after, reads = before ++ r :: after →
    (before.map ReadRecord.bytes).flatten = file → r.retval = 0

theorem delivered_history (slot : Nat) (reads : List ReadRecord) :
    delivered (FileLog.history { slot := slot, reads := reads }) =
      (reads.map ReadRecord.bytes).flatten := by
  simp [delivered, FileLog.history, Function.comp_def]

theorem requested_history (log : FileLog) :
    requested log.history = (log.reads.map fun r => r.nbytes.toNat).sum := by
  simp [requested, FileLog.history, Function.comp_def]

theorem readsPrefix_of_logHolds {img : Image} {descriptor : FileDescriptor} {log : FileLog}
    (h : LogHolds img descriptor log) : ReadsPrefix (entryBytes img log.slot) log.reads where
  delivered := by
    rw [← delivered_history log.slot, ← requested_history, Nat.min_comm, ← List.take_eq_take_min]
    exact delivered_eq_take h.delivers
  counted := h.counted
  ended before r after hsplit hall := by
    have hhistory : log.history = FileLog.history { slot := log.slot, reads := before } ++
        (r.nbytes.toNat, r.bytes) :: after.map fun r => (r.nbytes.toNat, r.bytes) := by
      simp [FileLog.history, hsplit]
    have hnil : r.bytes = [] := by
      refine nil_of_delivered_all (hhistory ▸ h.delivers) ?_
      rw [delivered_history, hall]
    have hmem : r ∈ log.reads := by
      rw [hsplit]
      exact List.mem_append_right _ List.mem_cons_self
    rw [h.counted r hmem, hnil]
    rfl

/-- A small read leaves every descriptor on its file. -/
theorem reading_after_read {img : Image} {s s' : Session} {fd j : Nat} {nbytes : Int}
    {locals : ReadLocals} {others : Driver} {log : FileLog} (h : Reading img s j log)
    (h0 : 0 ≤ nbytes) (h1 : nbytes < 65536)
    (hstep : sessionStep img s (.read fd nbytes locals others) = some s') :
    ∃ log', Reading img s' j log' := by
  obtain ⟨hlog, hfile, hsmall⟩ := h
  obtain ⟨r, hread, rfl⟩ := Option.map_eq_some_iff.mp hstep
  simp only [Reading, if_pos (Int.natCast_nonneg fd), Int.toNat_natCast]
  by_cases hj : j = fd
  · subst hj
    refine ⟨log.record nbytes r, ?_, hfile, fun r' hr' => ?_⟩
    · rw [Function.update_self, hlog]
      rfl
    · rcases List.mem_append.mp hr' with hold | hnew
      · exact hsmall r' hold
      · rw [List.mem_singleton.mp hnew]
        exact ⟨h0, h1⟩
  · refine ⟨log, ?_, hfile, hsmall⟩
    rw [Function.update_of_ne hj, hlog]

/-- Small reads on open files are served, one after the other. -/
theorem run_of_readsOn {img : Image} {s : Session} {reads : List SessionCall}
    (h : SessionHolds img s) (hreads : ∀ call ∈ reads, ReadsOn img s call) :
    ∃ s', run (sessionStep img) s reads = some s' := by
  induction reads generalizing s with
  | nil => exact ⟨s, rfl⟩
  | cons call reads ih =>
    obtain ⟨fd, nbytes, locals, others, log, rfl, h0, h1, hlog, hfile, hsmall⟩ :=
      hreads _ List.mem_cons_self
    obtain ⟨hfd0, hfd1, hholds⟩ := h fd log hlog
    obtain ⟨r, hread, -⟩ :=
      sysRead_logHolds hfile (hholds hfile hsmall) hfd0 hfd1 h0 h1 locals others
    obtain ⟨t, hstep⟩ : ∃ t, sessionStep img s (.read fd nbytes locals others) = some t :=
      ⟨_, Option.map_eq_some_iff.mpr ⟨r, hread, rfl⟩⟩
    have hrest : ∀ call ∈ reads, ReadsOn img t call := by
      intro call hcall
      obtain ⟨fd', n', locals', others', log', rfl, h0', h1', hreading⟩ :=
        hreads call (List.mem_cons_of_mem _ hcall)
      obtain ⟨log'', hreading'⟩ := reading_after_read hreading h0 h1 hstep
      exact ⟨fd', n', locals', others', log'', rfl, h0', h1', hreading'⟩
    obtain ⟨s', hrun⟩ := ih (sessionStep_holds h hstep) hrest
    exact ⟨s', run_cons.mpr ⟨t, hstep, hrun⟩⟩

/-- **Chunked reading.** Whatever the calls of a session, the reads on a descriptor of a
regular file deliver the prefix of the file that their requests add up to, and every further
sequence of reads is served. -/
theorem chunked_reads_reproduce {img : Image} {fa : FileArray} {calls : List SessionCall}
    {s : Session} (hrun : run (sessionStep img) (.start fa) calls = some s) :
    (∀ fd log, Reading img s fd log → ReadsPrefix (entryBytes img log.slot) log.reads) ∧
      ∀ reads, (∀ call ∈ reads, ReadsOn img s call) →
        ∃ s', run (sessionStep img) s reads = some s' := by
  have hs : SessionHolds img s :=
    run_invariant (fun s e s' h _ hstep => sessionStep_holds h hstep) hrun
      (along_of_forall (fun _ _ => trivial) _ _) (sessionHolds_start img fa)
  refine ⟨?_, fun reads hreads => run_of_readsOn hs hreads⟩
  rintro fd log ⟨hlog, hfile, hsmall⟩
  exact readsPrefix_of_logHolds ((hs fd log hlog).2.2 hfile hsmall)

theorem sampleImage_blocks {addr : Nat} (h0 : 8192 < addr) (h1 : addr < 12288) :
    sampleImage addr = 0 := by
  simp (disch := omega) only [sampleImage, if_neg]

theorem inodeReadable_sampleImage : InodeReadable sampleImage 1 where
  inode_lt := by decide
  data_le := by decide
  blocks k hk := by
    have hzero : dblock sampleImage 1 k = 0 := by
      unfold dblock word inodeAddr fsBlock
      rw [sampleImage_blocks (by omega) (by omega), sampleImage_blocks (by omega) (by omega),
        sampleImage_blocks (by omega) (by omega), sampleImage_blocks (by omega) (by omega)]
      rfl
    rw [hzero]
    decide
  length_le := by decide

theorem regularFile_sampleImage : RegularFile sampleImage 2 where
  slot_lt := by decide
  filetype := by decide
  inode := inodeReadable_sampleImage
  regular := by decide

/-- The file `f` is opened twice and read on both descriptors in turn. -/
def sampleSession : List SessionCall :=
  let uninit := dentryAt sampleImage 0
  let locals : ReadLocals := { file := uninit, readBytes := 0, dirFile := uninit }
  let others : Driver := fun _ _ _ => none
  [.open [102] uninit, .open [102] uninit, .read 2 2 locals others, .read 3 4 locals others,
    .read 2 9 locals others, .read 3 0 locals others, .read 2 65535 locals others]

/-- The log of the first descriptor after the session: `he`, `llo`, and the end. -/
def sampleLog : FileLog where
  slot := 2
  reads := [{ nbytes := 2, retval := 2, bytes := [104, 101] },
    { nbytes := 9, retval := 3, bytes := [108, 108, 111] },
    { nbytes := 65535, retval := 0, bytes := [] }]

theorem chunked_reads_sample :
    ∃ s, run (sessionStep sampleImage) (.start fun _ => closedDescriptor) sampleSession = some s ∧
      Reading sampleImage s 2 sampleLog ∧
      ReadsPrefix (entryBytes sampleImage 2) sampleLog.reads ∧
      ∃ s', run (sessionStep sampleImage) s (sampleSession.drop 6) = some s' := by
  have hlog : (run (sessionStep sampleImage) (.start fun _ => closedDescriptor) sampleSession).map
      (fun s => s.logs 2) = some (some sampleLog) := by
    decide +kernel
  obtain ⟨s, hrun, hlog⟩ := Option.map_eq_some_iff.mp hlog
  have hreading : Reading sampleImage s 2 sampleLog :=
    ⟨hlog, regularFile_sampleImage, by unfold FileLog.Small; decide⟩
  obtain ⟨hreads, hserved⟩ := chunked_reads_reproduce hrun
  refine ⟨s, hrun, hreading, hreads 2 sampleLog hreading, hserved _ ?_⟩
  intro call hcall
  rw [List.mem_singleton.mp hcall]
  exact ⟨2, 65535, _, _, sampleLog, rfl, by decide, by decide, hreading⟩

end LinuxBasedOS.Files
