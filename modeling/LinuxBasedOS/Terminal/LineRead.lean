import LinuxBasedOS.Terminal.Reader

/-!
# A read delivers a line of its own terminal

When `keyboard_read` leaves its wait loop, the buffer of its terminal is to hold a line ended
by Enter, and this line is what it delivers. The flag and the active terminal do not say that
much: Enter may be pressed with no room for the newline, the terminal may be switched after
Enter on another one, a line may be edited after Enter, and two readers may see one Enter.
`KeepsLine` leaves these out step by step, and `LineInv` is the invariant of the runs that
remain.
-/

namespace LinuxBasedOS.Terminal

open Lib Transition

variable {n : Nat}

/-! ## Finished lines -/

/-- The line buffer ends in a newline, and Enter has been pressed on the terminal since its last
read. -/
def Finished (terminals : Terminals) (entered : Nat → Bool) (t : Nat) : Prop :=
  (bufferText terminals t).getLast? = some newline ∧ entered t = true

instance (terminals : Terminals) (entered : Nat → Bool) (t : Nat) :
    Decidable (Finished terminals entered t) :=
  inferInstanceAs (Decidable (_ ∧ _))

/-- A reader that leaves its wait loop finds a finished line, and a reader that returns has
delivered the first bytes of the line it found. -/
def ReadsLine (s : System n) : Event n → Prop
  | .advance r => 0 < (s.readers r).nbytes →
    ((s.readers r).pc = .testTerminal →
      (s.readers r).terminal = s.terminals.activeTerminal →
        Finished s.terminals s.entered (s.readers r).terminal) ∧
    ∀ i, (s.readers r).pc = .finish i →
      (s.readers r).text.getLast? = some newline ∧
        i = min (s.readers r).nbytes.toNat (s.readers r).text.length ∧
        ∀ bytes, (s.readers r).buf = some bytes → bytes = (s.readers r).text.take i
  | _ => True

/-- The terminal that is active when the key has been handled. -/
def nextTerminal (s : Terminals) (scancode : UInt8) : Nat :=
  (chord (newFlags s.flags scancode)).getD s.activeTerminal

/-- Enter puts a newline at the end of the line. -/
def EndsLine (s : Terminals) (scancode : UInt8) : Prop :=
  scancode = enterKey ∧ TypesChar (newFlags s.flags scancode) scancode ∧
    s.keyboardBufferIdx s.activeTerminal < bufferSize

instance (s : Terminals) (scancode : UInt8) : Decidable (EndsLine s scancode) :=
  inferInstanceAs (Decidable (_ ∧ _ ∧ _))

/-- Somebody goes by the flag when the key has been handled. -/
def Signalled (s : System n) (scancode : UInt8) : Prop :=
  scancode = enterKey ∨ s.terminals.enterStatus ≠ 0 ∨
    ∃ r, (s.readers r).pc = .testTerminal ∧
      (s.readers r).terminal = nextTerminal s.terminals scancode

instance (s : System n) (scancode : UInt8) : Decidable (Signalled s scancode) :=
  inferInstanceAs (Decidable (_ ∨ _ ∨ _))

/-- A key that raises the flag, or comes while it is up, ends the line or leaves a finished line
on the terminal that is then active; under a reader that takes a line it does nothing. One
reader at a time takes a line, and none has seen the flag of a line that another has taken. -/
def KeepsLine (s : System n) : Event n → Prop
  | .key scancode =>
    (Signalled s scancode → EndsLine s.terminals scancode ∨
      (Quiet s.terminals scancode ∧
        Finished s.terminals s.entered (nextTerminal s.terminals scancode))) ∧
    ((∃ r, (s.readers r).pc.Reading) → Quiet s.terminals scancode ∧ scancode ≠ enterKey ∧
      nextTerminal s.terminals scancode = s.terminals.activeTerminal)
  | .advance r =>
    ((s.readers r).pc = .testTerminal → (s.readers r).terminal = s.terminals.activeTerminal →
      ∀ q, ¬ (s.readers q).pc.Reading) ∧
    ((s.readers r).pc.isFinish = true → ∀ q, (s.readers q).pc = .testTerminal →
      (s.readers q).terminal ≠ s.terminals.activeTerminal)
  | .write _ _ _ | .call _ _ _ _ => True

instance (s : System n) : (e : Event n) → Decidable (KeepsLine s e)
  | .key _ => inferInstanceAs (Decidable (_ ∧ _))
  | .advance _ => inferInstanceAs (Decidable (_ ∧ _))
  | .write _ _ _ | .call _ _ _ _ => .isTrue trivial

/-! ## The invariant -/

/-- The line that the reader has found is still there. -/
structure Held (terminals : Terminals) (entered : Nat → Bool) (r : Reader) : Prop where
  terminal : r.terminal = terminals.activeTerminal
  text : bufferText terminals terminals.activeTerminal = r.text
  finished : Finished terminals entered terminals.activeTerminal

/-- The reader has copied the first `i` bytes of its line. -/
structure Copied (r : Reader) (i : Nat) : Prop where
  le_length : i ≤ r.text.length
  le_bytes : i = 0 ∨ (i : Int) ≤ r.nbytes
  bytes : ∀ bytes, r.buf = some bytes → bytes = r.text.take i

def ReaderInv (terminals : Terminals) (entered : Nat → Bool) (r : Reader) : Prop :=
  match r.pc with
  | .idle => True
  | .testEnter | .wait => ∀ bytes, r.buf = some bytes → bytes = []
  | .testTerminal =>
    (∀ bytes, r.buf = some bytes → bytes = []) ∧
      (r.terminal = terminals.activeTerminal → Finished terminals entered terminals.activeTerminal)
  | .leave => (∀ bytes, r.buf = some bytes → bytes = []) ∧ Held terminals entered r
  | .copy i => Held terminals entered r ∧ terminals.enterStatus = 0 ∧ Copied r i
  | .finish i => Held terminals entered r ∧ terminals.enterStatus = 0 ∧ Copied r i ∧
      ¬ (i < r.text.length ∧ (i : Int) < r.nbytes)

structure LineInv (s : System n) : Prop where
  flag : s.terminals.enterStatus ≠ 0 → Finished s.terminals s.entered s.terminals.activeTerminal
  readers : ∀ r, ReaderInv s.terminals s.entered (s.readers r)
  alone : ∀ r q, (s.readers r).pc.Reading → (s.readers q).pc.Reading → r = q

theorem lineInv_start (console : Console) (activeTerminal : Nat) :
    LineInv (startSystem n console activeTerminal) := by
  refine ⟨fun hflag => absurd rfl hflag, fun r => trivial, fun r q hr => hr.elim⟩

theorem ReaderInv.held {terminals : Terminals} {entered : Nat → Bool} {r : Reader}
    (h : ReaderInv terminals entered r) (hr : r.pc.Reading) : Held terminals entered r := by
  unfold ReaderInv at h
  cases hpc : r.pc with
  | leave =>
    rw [hpc] at h
    exact h.2
  | copy i =>
    rw [hpc] at h
    exact h.1
  | finish i =>
    rw [hpc] at h
    exact h.1
  | idle | testEnter | testTerminal | wait =>
    rw [hpc] at hr
    exact hr.elim

/-- What a reader knows survives a change that it cannot see. -/
theorem ReaderInv.congr {terminals terminals' : Terminals} {entered entered' : Nat → Bool}
    {r : Reader} (h : ReaderInv terminals entered r)
    (hheld : r.pc.Reading → Held terminals entered r → Held terminals' entered' r)
    (hflag : r.pc.Reading → terminals.enterStatus = 0 → terminals'.enterStatus = 0)
    (htest : r.pc = .testTerminal → r.terminal = terminals'.activeTerminal →
      Finished terminals' entered' terminals'.activeTerminal) :
    ReaderInv terminals' entered' r := by
  unfold ReaderInv at h ⊢
  cases hpc : r.pc with
  | idle => trivial
  | testEnter | wait =>
    rw [hpc] at h
    exact h
  | testTerminal =>
    rw [hpc] at h
    exact ⟨h.1, htest hpc⟩
  | leave =>
    rw [hpc] at h hheld
    exact ⟨h.1, hheld trivial h.2⟩
  | copy i =>
    rw [hpc] at h hheld hflag
    exact ⟨hheld trivial h.1, hflag trivial h.2.1, h.2.2⟩
  | finish i =>
    rw [hpc] at h hheld hflag
    exact ⟨hheld trivial h.1, hflag trivial h.2.1, h.2.2⟩

/-! ## Keys and writes -/

section Key

variable {s : System n} {scancode : UInt8}

theorem afterKey_of_true {entered : Nat → Bool} {active t : Nat} (h : entered t = true) :
    afterKey entered active scancode t = true := by
  unfold afterKey
  split
  · by_cases ht : t = active
    · rw [ht, Function.update_self]
    · rw [Function.update_of_ne ht]
      exact h
  · exact h

/-- After a key that the flag allows, the active terminal has a finished line. -/
theorem finished_after_key
    (h : EndsLine s.terminals scancode ∨
      (Quiet s.terminals scancode ∧
        Finished s.terminals s.entered (nextTerminal s.terminals scancode))) :
    Finished (keyboardHandler s.terminals scancode)
      (afterKey s.entered s.terminals.activeTerminal scancode)
      (keyboardHandler s.terminals scancode).activeTerminal := by
  rw [keyboardHandler_activeTerminal]
  rcases h with ⟨rfl, htypes, hroom⟩ | ⟨hquiet, hlast, hentered⟩
  · rw [htypes.chord, Option.getD_none]
    refine ⟨?_, ?_⟩
    · rw [keyboardHandler_text_enter htypes hroom, List.getLast?_concat]
    · rw [afterKey, if_pos rfl, Function.update_self]
  · refine ⟨?_, afterKey_of_true hentered⟩
    rw [keyboardHandler_text_quiet hquiet]
    exact hlast

theorem LineInv.key (h : LineInv s) (hkeeps : KeepsLine s (.key scancode)) :
    LineInv
      { s with
        terminals := keyboardHandler s.terminals scancode
        entered := afterKey s.entered s.terminals.activeTerminal scancode } := by
  obtain ⟨hsignal, hquiet⟩ := hkeeps
  have henter := keyboardHandler_enterStatus s.terminals scancode
  have hactive := keyboardHandler_activeTerminal s.terminals scancode
  refine ⟨fun hflag => ?_, fun r => (h.readers r).congr ?_ ?_ ?_, h.alone⟩
  · refine finished_after_key (hsignal ?_)
    change (keyboardHandler s.terminals scancode).enterStatus ≠ 0 at hflag
    rw [henter] at hflag
    by_cases hkey : scancode = enterKey
    · exact Or.inl hkey
    · rw [if_neg hkey] at hflag
      exact Or.inr (Or.inl hflag)
  · intro hr hheld
    obtain ⟨hq, hne, hsame⟩ := hquiet ⟨r, hr⟩
    have hactive' : (keyboardHandler s.terminals scancode).activeTerminal =
        s.terminals.activeTerminal := hactive.trans hsame
    refine ⟨?_, ?_, ?_, ?_⟩
    · rw [hactive']
      exact hheld.terminal
    · rw [hactive', keyboardHandler_text_quiet hq]
      exact hheld.text
    · rw [hactive', keyboardHandler_text_quiet hq]
      exact hheld.finished.1
    · rw [hactive']
      exact afterKey_of_true hheld.finished.2
  · intro hr hzero
    obtain ⟨_, hne, _⟩ := hquiet ⟨r, hr⟩
    show (keyboardHandler s.terminals scancode).enterStatus = 0
    rw [henter, if_neg hne]
    exact hzero
  · intro hpc hterminal
    refine finished_after_key (hsignal (Or.inr (Or.inr ⟨r, hpc, ?_⟩)))
    change (s.readers r).terminal = (keyboardHandler s.terminals scancode).activeTerminal at hterminal
    rw [hterminal]
    exact hactive

end Key

theorem LineInv.write {s : System n} {pcbTerminal : Nat} {buf : Option (Nat → UInt8)} {nbytes : Int}
    (h : LineInv s) :
    LineInv { s with terminals := (terminalWrite s.terminals pcbTerminal buf nbytes).2 } := by
  cases buf with
  | none => exact ⟨h.flag, h.readers, h.alone⟩
  | some bytes =>
    by_cases hneg : nbytes < 0
    · rw [terminalWrite, if_pos hneg]
      exact ⟨h.flag, h.readers, h.alone⟩
    · rw [terminalWrite, if_neg hneg]
      refine ⟨fun hflag => absurd rfl hflag, fun r => (h.readers r).congr ?_ ?_ ?_, h.alone⟩
      · exact fun _ hheld => ⟨hheld.terminal, hheld.text, hheld.finished⟩
      · exact fun _ _ => rfl
      · intro hpc hterminal
        have hr := h.readers r
        unfold ReaderInv at hr
        rw [hpc] at hr
        exact hr.2 hterminal

/-! ## Readers -/

theorem ReaderInv.fresh {terminals : Terminals} {entered : Nat → Bool} {r : Reader}
    (h : ReaderInv terminals entered r) (hr : ¬ r.pc.Reading) (hidle : r.pc ≠ .idle) :
    ∀ bytes, r.buf = some bytes → bytes = [] := by
  unfold ReaderInv at h
  cases hpc : r.pc with
  | idle => exact absurd hpc hidle
  | testEnter | wait =>
    rw [hpc] at h
    exact h
  | testTerminal =>
    rw [hpc] at h
    exact h.1
  | leave | copy i | finish i =>
    rw [hpc] at hr
    exact absurd trivial hr

theorem ReaderInv.armed {terminals : Terminals} {entered : Nat → Bool} {r : Reader}
    (h : ReaderInv terminals entered r) (hpc : r.pc = .testTerminal)
    (hterminal : r.terminal = terminals.activeTerminal) :
    Finished terminals entered terminals.activeTerminal := by
  unfold ReaderInv at h
  rw [hpc] at h
  exact h.2 hterminal

theorem take_bufferText_succ {s : Terminals} {t i : Nat} (hi : i < s.keyboardBufferIdx t) :
    (bufferText s t).take (i + 1) =
      (bufferText s t).take i ++ [s.keyboardBuffer (bufferAt t i)] := by
  have hlen : i < (bufferText s t).length := by
    rw [length_bufferText]
    exact hi
  have hget : (bufferText s t)[i] = s.keyboardBuffer (bufferAt t i) := by simp [bufferText]
  rw [← List.take_concat_get hlen, List.concat_eq_append, hget]

/-- One more byte is copied. -/
theorem Copied.succ {terminals : Terminals} {entered : Nat → Bool} {r : Reader} {i : Nat}
    (h : Copied r i) (hheld : Held terminals entered r)
    (hidx : i < terminals.keyboardBufferIdx terminals.activeTerminal) (hbytes : (i : Int) < r.nbytes) :
    Copied
      { r with
        pc := .copy (i + 1)
        buf := r.buf.map fun bytes =>
          bytes ++ [terminals.keyboardBuffer (bufferAt terminals.activeTerminal i)] }
      (i + 1) := by
  have hlen : r.text.length = terminals.keyboardBufferIdx terminals.activeTerminal := by
    rw [← hheld.text, length_bufferText]
  refine ⟨?_, Or.inr ?_, fun bytes hbuf => ?_⟩
  · show i + 1 ≤ r.text.length
    omega
  · show ((i + 1 : Nat) : Int) ≤ r.nbytes
    omega
  · obtain ⟨old, hold, rfl⟩ := Option.map_eq_some_iff.mp hbuf
    show _ = r.text.take (i + 1)
    rw [h.bytes old hold, ← hheld.text, take_bufferText_succ hidx]

theorem afterReturn_of_not_finish {entered : Nat → Bool} {r : Reader} (h : r.pc.isFinish = false) :
    afterReturn entered r = entered := by
  unfold afterReturn
  cases hpc : r.pc with
  | finish i =>
    rw [hpc] at h
    cases h
  | idle | testEnter | testTerminal | wait | leave | copy i => rfl

/-- A step of one reader that leaves the terminals and the record of Enter alone. -/
theorem LineInv.move {s : System n} {r : Fin n} {r' : Reader} (h : LineInv s)
    (hinv : ReaderInv s.terminals s.entered r')
    (halone : r'.pc.Reading → ∀ q ≠ r, ¬ (s.readers q).pc.Reading) :
    LineInv { s with readers := Function.update s.readers r r' } := by
  refine ⟨h.flag, fun q => ?_, fun q q' hq hq' => ?_⟩
  · show ReaderInv s.terminals s.entered (Function.update s.readers r r' q)
    by_cases hqr : q = r
    · rw [hqr, Function.update_self]
      exact hinv
    · rw [Function.update_of_ne hqr]
      exact h.readers q
  · change (Function.update s.readers r r' q).pc.Reading at hq
    change (Function.update s.readers r r' q').pc.Reading at hq'
    by_cases hqr : q = r
    · by_cases hqr' : q' = r
      · rw [hqr, hqr']
      · rw [hqr, Function.update_self] at hq
        rw [Function.update_of_ne hqr'] at hq'
        exact absurd hq' (halone hq q' hqr')
    · by_cases hqr' : q' = r
      · rw [hqr', Function.update_self] at hq'
        rw [Function.update_of_ne hqr] at hq
        exact absurd hq (halone hq' q hqr)
      · rw [Function.update_of_ne hqr] at hq
        rw [Function.update_of_ne hqr'] at hq'
        exact h.alone q q' hq hq'

/-- A change of the terminals that no reader but `r` sees, with a step of `r`. -/
theorem LineInv.change {s : System n} {r : Fin n} {r' : Reader} {terminals : Terminals}
    {entered : Nat → Bool} (h : LineInv s) (hr : (s.readers r).pc.Reading)
    (hzero : terminals.enterStatus = 0) (hinv : ReaderInv terminals entered r')
    (hothers : ∀ q ≠ r, (s.readers q).pc = .testTerminal →
      (s.readers q).terminal = terminals.activeTerminal →
        Finished terminals entered terminals.activeTerminal) :
    LineInv { terminals := terminals, readers := Function.update s.readers r r', entered := entered } := by
  have halone : ∀ q ≠ r, ¬ (s.readers q).pc.Reading := fun q hqr hq => hqr (h.alone q r hq hr)
  refine ⟨fun hflag => absurd hzero hflag, fun q => ?_, fun q q' hq hq' => ?_⟩
  · show ReaderInv terminals entered (Function.update s.readers r r' q)
    by_cases hqr : q = r
    · rw [hqr, Function.update_self]
      exact hinv
    · rw [Function.update_of_ne hqr]
      refine (h.readers q).congr ?_ ?_ (hothers q hqr)
      · exact fun hq => absurd hq (halone q hqr)
      · exact fun hq => absurd hq (halone q hqr)
  · have hself : ∀ p, (Function.update s.readers r r' p).pc.Reading → p = r := by
      intro p hp
      by_contra hpr
      rw [Function.update_of_ne hpr] at hp
      exact halone p hpr hp
    rw [hself q hq, hself q' hq']

/-- A reader that goes on waiting knows what it knew, or has just seen the flag. -/
theorem ReaderInv.wait {terminals : Terminals} {entered : Nat → Bool} {r r' : Reader}
    (h : ReaderInv terminals entered r) (hpc : ¬ r.pc.Reading) (hidle : r.pc ≠ .idle)
    (hpc' : ¬ r'.pc.Reading) (hbuf : r'.buf = r.buf)
    (hseen : r'.pc = .testTerminal → Finished terminals entered terminals.activeTerminal) :
    ReaderInv terminals entered r' := by
  have hfresh := h.fresh hpc hidle
  rw [← hbuf] at hfresh
  unfold ReaderInv
  cases hpc'' : r'.pc with
  | idle => trivial
  | testEnter | wait => exact hfresh
  | testTerminal => exact ⟨hfresh, fun _ => hseen hpc''⟩
  | leave | copy i | finish i =>
    rw [hpc''] at hpc'
    exact absurd trivial hpc'

theorem ReaderInv.of_copy {terminals : Terminals} {entered : Nat → Bool} {r : Reader} {i : Nat}
    (h : ReaderInv terminals entered r) (hpc : r.pc = .copy i) :
    Held terminals entered r ∧ terminals.enterStatus = 0 ∧ Copied r i := by
  unfold ReaderInv at h
  rw [hpc] at h
  exact h

theorem ReaderInv.copy {terminals : Terminals} {entered : Nat → Bool} {r : Reader} {i : Nat}
    (h : ReaderInv terminals entered r) (hpc : r.pc = .copy i)
    (hidx : i < terminals.keyboardBufferIdx terminals.activeTerminal)
    (hbytes : (i : Int) < r.nbytes) :
    ReaderInv terminals entered
      { r with
        pc := .copy (i + 1)
        buf := r.buf.map fun bytes =>
          bytes ++ [terminals.keyboardBuffer (bufferAt terminals.activeTerminal i)] } := by
  obtain ⟨hheld, hzero, hcopied⟩ := h.of_copy hpc
  exact ⟨⟨hheld.terminal, hheld.text, hheld.finished⟩, hzero, hcopied.succ hheld hidx hbytes⟩

/-- The copy loop stops with the line, or with the request, at its end. -/
theorem ReaderInv.stop {terminals : Terminals} {entered : Nat → Bool} {r : Reader} {i : Nat}
    (h : ReaderInv terminals entered r) (hpc : r.pc = .copy i)
    (hend : ¬ (i < terminals.keyboardBufferIdx terminals.activeTerminal ∧ (i : Int) < r.nbytes)) :
    ReaderInv terminals entered { r with pc := .finish i } := by
  obtain ⟨hheld, hzero, hcopied⟩ := h.of_copy hpc
  refine ⟨⟨hheld.terminal, hheld.text, hheld.finished⟩, hzero, ?_, ?_⟩
  · exact ⟨hcopied.le_length, hcopied.le_bytes, hcopied.bytes⟩
  · show ¬ (i < r.text.length ∧ (i : Int) < r.nbytes)
    rw [← hheld.text, length_bufferText]
    exact hend

theorem LineInv.advance {s : System n} {r : Fin n} {terminals : Terminals} {r' : Reader}
    (h : LineInv s) (hidle : (s.readers r).pc ≠ .idle) (hkeeps : KeepsLine s (.advance r))
    (hmove : ReaderMove s.terminals (s.readers r) terminals r') :
    LineInv
      { terminals := terminals
        readers := Function.update s.readers r r'
        entered := afterReturn s.entered (s.readers r) } := by
  have hinv := h.readers r
  have hnotReading : ¬ (s.readers r).pc.Reading → (s.readers r).pc.isFinish = false := by
    cases (s.readers r).pc with
    | finish i => exact fun hr => absurd trivial hr
    | idle | testEnter | testTerminal | wait | leave | copy i => exact fun _ => rfl
  cases hmove with
  | waits hpc hpc' htest hterminal hbytes hbuf =>
    rw [afterReturn_of_not_finish (hnotReading hpc)]
    refine h.move ?_ fun hr' => absurd hr' hpc'
    exact hinv.wait hpc hidle hpc' hbuf fun hpc'' => h.flag (htest hpc'')
  | enters hpc hterminal =>
    have hwaiting : ¬ (s.readers r).pc.Reading := by rw [hpc]; exact id
    rw [afterReturn_of_not_finish (hnotReading hwaiting)]
    refine h.move ⟨hinv.fresh hwaiting hidle, hterminal, rfl, hinv.armed hpc hterminal⟩ ?_
    exact fun _ q _ => hkeeps.1 hpc hterminal q
  | leaves hpc =>
    have hr : (s.readers r).pc.Reading := by rw [hpc]; trivial
    have hheld := hinv.held hr
    have hfresh : ∀ bytes, (s.readers r).buf = some bytes → bytes = [] := by
      unfold ReaderInv at hinv
      rw [hpc] at hinv
      exact hinv.1
    rw [afterReturn_of_not_finish (by rw [hpc]; rfl)]
    refine h.change hr rfl ⟨⟨hheld.terminal, hheld.text, hheld.finished⟩, rfl, ?_⟩ ?_
    · exact ⟨Nat.zero_le _, Or.inl rfl, hfresh⟩
    · exact fun q _ hq hterminal => (h.readers q).armed hq hterminal
  | copies hpc hidx hbytes =>
    have hr : (s.readers r).pc.Reading := by rw [hpc]; trivial
    rw [afterReturn_of_not_finish (by rw [hpc]; rfl)]
    exact h.move (hinv.copy hpc hidx hbytes) fun _ q hqr hq => hqr (h.alone q r hq hr)
  | stops hpc hend =>
    have hr : (s.readers r).pc.Reading := by rw [hpc]; trivial
    rw [afterReturn_of_not_finish (by rw [hpc]; rfl)]
    exact h.move (hinv.stop hpc hend) fun _ q hqr hq => hqr (h.alone q r hq hr)
  | returns hpc =>
    have hr : (s.readers r).pc.Reading := by rw [hpc]; trivial
    unfold ReaderInv at hinv
    rw [hpc] at hinv
    refine h.change hr hinv.2.1 trivial ?_
    intro q hqr hq hterminal
    exact absurd hterminal (hkeeps.2 (by rw [hpc]; rfl) q hq)

theorem LineInv.step {s s' : System n} {e : Event n} (h : LineInv s) (hkeeps : KeepsLine s e)
    (hs : step s e = some s') : LineInv s' := by
  cases e with
  | key scancode =>
    cases hs
    exact h.key hkeeps
  | write pcbTerminal buf nbytes =>
    cases hs
    exact h.write
  | call r terminal nbytes null =>
    simp only [Terminal.step] at hs
    split at hs
    · cases hs
      refine h.move ?_ fun hr' => hr'.elim
      show ∀ bytes, (if null then none else some []) = some bytes → bytes = []
      cases null with
      | true => exact fun bytes hbuf => nomatch hbuf
      | false => exact fun bytes hbuf => (Option.some.inj hbuf).symm
    · cases hs
  | advance r =>
    simp only [Terminal.step] at hs
    split at hs
    · cases hs
    · rename_i hidle
      cases hs
      exact h.advance hidle hkeeps (readerStep_move hidle)

/-! ## What a read delivers -/

theorem LineInv.readsLine {s : System n} {e : Event n} (h : LineInv s) : ReadsLine s e := by
  cases e with
  | advance r =>
    have hinv := h.readers r
    intro hpos
    refine ⟨fun hpc hterminal => ?_, fun i hpc => ?_⟩
    · rw [hterminal]
      exact hinv.armed hpc hterminal
    · unfold ReaderInv at hinv
      rw [hpc] at hinv
      obtain ⟨hheld, _, hcopied, hend⟩ := hinv
      refine ⟨?_, ?_, hcopied.bytes⟩
      · rw [← hheld.text]
        exact hheld.finished.1
      · have hle := hcopied.le_length
        rcases hcopied.le_bytes with hzero | hbytes
        · omega
        · omega
  | key scancode => trivial
  | write pcbTerminal buf nbytes => trivial
  | call r terminal nbytes null => trivial

/-- In a run that keeps to finished lines, every read delivers a line of its own terminal. -/
theorem reads_line_of_keeps {console : Console} {activeTerminal : Nat} {es : List (Event n)}
    (hkeeps : Along step KeepsLine (startSystem n console activeTerminal) es) :
    Along step ReadsLine (startSystem n console activeTerminal) es := by
  refine along_of_invariant (I := LineInv) ?_ ?_ hkeeps (lineInv_start console activeTerminal)
  · intro s e s' h hk hs
    exact h.step hk hs
  · intro s e h _
    exact h.readsLine

/-- A reader on terminal 0 waits, `l`, `s` and Enter are typed, and the read goes on to its
return. -/
def readLs : List (Event 1) :=
  [.call 0 0 8 false, .advance 0, .advance 0, .key 38, .key 31, .key enterKey, .advance 0,
    .advance 0, .advance 0, .advance 0, .advance 0, .advance 0, .advance 0, .advance 0]

theorem reads_line_ls : Along step ReadsLine (startSystem 1 blankConsole 0) readLs :=
  reads_line_of_keeps (by decide +kernel)

/-- A reader on terminal 0, Enter, and the whole of the read. -/
def readOneLine : List (Event 1) :=
  [.call 0 0 8 false, .key enterKey, .advance 0, .advance 0, .advance 0, .advance 0, .advance 0,
    .advance 0]

/-- Enter on terminal 0, then Alt+F2: a reader on terminal 1 sees the flag. -/
def enterThenSwitch : List (Event 1) :=
  [.key enterKey, .key alt, .key f2, .call 0 1 8 false, .advance 0]

/-- The reader leaves its wait loop with nothing typed on its terminal. -/
theorem switch_delivers_no_line :
    ¬ ∀ (n : Nat) (console : Console) (activeTerminal : Nat) (es : List (Event n)),
      activeTerminal < 3 → Along step ReadsLine (startSystem n console activeTerminal) es := by
  intro hall
  have hsome : ((run step (startSystem 1 blankConsole 0) enterThenSwitch).map fun s =>
      (decide (0 < (s.readers 0).nbytes ∧ (s.readers 0).pc = .testTerminal ∧
        (s.readers 0).terminal = s.terminals.activeTerminal),
        decide (Finished s.terminals s.entered (s.readers 0).terminal))) = some (true, false) := by
    decide +kernel
  obtain ⟨s, hs, hfacts⟩ := Option.map_eq_some_iff.mp hsome
  obtain ⟨hpos, hpc, hterminal⟩ := of_decide_eq_true (congrArg Prod.fst hfacts)
  have hempty := of_decide_eq_false (congrArg Prod.snd hfacts)
  have hreads := along_at (hall 1 blankConsole 0 (enterThenSwitch ++ [.advance 0]) (by omega)) hs
  exact hempty ((hreads hpos).1 hpc hterminal)

end LinuxBasedOS.Terminal
