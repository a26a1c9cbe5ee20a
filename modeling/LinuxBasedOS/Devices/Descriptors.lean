import LinuxBasedOS.Base.Bitfields
import Mathlib.Logic.Function.Basic

/-!
# Descriptor tables

The processor reads gates and segments from entries of 64 bits in which addresses are cut into
pieces. `idt_desc_t` and `seg_desc_t` are these entries field by field; `SET_IDT_ENTRY` and
`SET_TSS_PARAMS` cut an address and store the pieces.

`idt_gates` says what the processor finds for each vector after `idt_init`, and `segment_params`
that a segment is found where it was put.
-/

namespace LinuxBasedOS.Devices

open Bitfields

/-! ## Entries -/

/-- `idt_desc_t`. -/
structure IdtDesc where
  offset1500 : Nat
  segSelector : Nat
  reserved4 : Nat
  reserved3 : Nat
  reserved2 : Nat
  reserved1 : Nat
  size : Nat
  reserved0 : Nat
  dpl : Nat
  present : Nat
  offset3116 : Nat
  deriving DecidableEq, Repr

def IdtDesc.fields (d : IdtDesc) : List (Nat × Nat) :=
  [(16, d.offset1500), (16, d.segSelector), (8, d.reserved4), (1, d.reserved3), (1, d.reserved2),
    (1, d.reserved1), (1, d.size), (1, d.reserved0), (2, d.dpl), (1, d.present),
    (16, d.offset3116)]

/-- `seg_desc_t`. -/
structure SegDesc where
  segLim1500 : Nat
  base1500 : Nat
  base2316 : Nat
  type : Nat
  sys : Nat
  dpl : Nat
  present : Nat
  segLim1916 : Nat
  avail : Nat
  reserved : Nat
  opsize : Nat
  granularity : Nat
  base3124 : Nat
  deriving DecidableEq, Repr

def SegDesc.fields (d : SegDesc) : List (Nat × Nat) :=
  [(16, d.segLim1500), (16, d.base1500), (8, d.base2316), (4, d.type), (1, d.sys), (2, d.dpl),
    (1, d.present), (4, d.segLim1916), (1, d.avail), (1, d.reserved), (1, d.opsize),
    (1, d.granularity), (8, d.base3124)]

/-- `SET_IDT_ENTRY`. -/
def setIdtEntry (d : IdtDesc) (handler : Nat) : IdtDesc :=
  { d with
    offset3116 := (handler &&& 0xFFFF0000) >>> 16
    offset1500 := handler &&& 0xFFFF }

/-- `SET_TSS_PARAMS` and `SET_LDT_PARAMS`. -/
def setSegParams (d : SegDesc) (addr lim : Nat) : SegDesc :=
  { d with
    base3124 := (addr &&& 0xFF000000) >>> 24
    base2316 := (addr &&& 0x00FF0000) >>> 16
    base1500 := addr &&& 0x0000FFFF
    segLim1916 := (lim &&& 0x000F0000) >>> 16
    segLim1500 := lim &&& 0x0000FFFF }

/-! ## What the processor reads -/

/-- A gate: where it leads, and from which privilege level `int` may use it. A trap gate leaves the
interrupts on. -/
structure Gate where
  target : Nat
  selector : Nat
  dpl : Nat
  trap : Bool
  deriving DecidableEq, Repr

/-- A 32-bit interrupt or trap gate that is present. -/
def readGate (entry : Nat) : Option Gate :=
  if bits entry 47 1 = 1 ∧ bits entry 41 4 = 7 then
    some
      { target := bits entry 0 16 + 2 ^ 16 * bits entry 48 16
        selector := bits entry 16 16
        dpl := bits entry 45 2
        trap := bits entry 40 1 == 1 }
  else none

/-- A segment. The limit counts bytes, or pages of 4 KB if `granularity` is set. -/
structure Segment where
  base : Nat
  limit : Nat
  type : Nat
  sys : Nat
  dpl : Nat
  present : Nat
  avail : Nat
  reserved : Nat
  opsize : Nat
  granularity : Nat
  deriving DecidableEq, Repr

def readSegment (entry : Nat) : Segment where
  base := bits entry 16 16 + 2 ^ 16 * bits entry 32 8 + 2 ^ 24 * bits entry 56 8
  limit := bits entry 0 16 + 2 ^ 16 * bits entry 48 4
  type := bits entry 40 4
  sys := bits entry 44 1
  dpl := bits entry 45 2
  present := bits entry 47 1
  avail := bits entry 52 1
  reserved := bits entry 53 1
  opsize := bits entry 54 1
  granularity := bits entry 55 1

/-! ## idt_init -/

def kernelCS : Nat := 0x0010

def pitVector : Nat := 0x20

def kbVector : Nat := 0x21

def rtcVector : Nat := 0x28

def systemCallVector : Nat := 0x80

/-- The addresses of the handlers; `exceptionPtrTable` has 20 entries. -/
structure Handlers where
  exceptionPtrTable : Nat → Nat
  pageHandler : Nat
  exReserved : Nat
  handleRtcInterrupt : Nat
  handlePitInterrupt : Nat
  handleKeyboardInterrupt : Nat
  systemCallsLinkage : Nat

/-- `exception_vector`; its offset is never set. -/
def exceptionVector (uninit : IdtDesc) : IdtDesc :=
  { uninit with
    segSelector := kernelCS
    reserved4 := 0
    reserved3 := 1
    reserved2 := 1
    reserved1 := 1
    size := 1
    reserved0 := 0
    dpl := 0
    present := 1 }

def intVector (uninit : IdtDesc) : IdtDesc := { exceptionVector uninit with reserved3 := 0 }

def syscallVector (uninit : IdtDesc) : IdtDesc := { intVector uninit with dpl := 3 }

/-- The handler that the loop of `idt_init` gives to a vector. -/
def exceptionHandler (h : Handlers) (i : Nat) : Nat :=
  if i < 20 ∧ i ≠ 15 ∧ i ≠ 14 then h.exceptionPtrTable i
  else if i = 14 then h.pageHandler
  else h.exReserved

/-- `idt_init`, on the table as it is before. -/
def idtInit (h : Handlers) (uninit : IdtDesc) (idt : Nat → IdtDesc) : Nat → IdtDesc :=
  let exceptions := (List.range 0x20).foldl
    (fun t i => Function.update t i (setIdtEntry (exceptionVector uninit) (exceptionHandler h i)))
    idt
  let entry (t : Nat → IdtDesc) (vector : Nat) (d : IdtDesc) (handler : Nat) : Nat → IdtDesc :=
    Function.update t vector (setIdtEntry d handler)
  entry
    (entry
      (entry
        (entry exceptions rtcVector (intVector uninit) h.handleRtcInterrupt)
        pitVector (intVector uninit) h.handlePitInterrupt)
      kbVector (intVector uninit) h.handleKeyboardInterrupt)
    systemCallVector (syscallVector uninit) h.systemCallsLinkage

/-- The table of `x86_desc.S`. -/
def emptyIdt (_ : Nat) : IdtDesc where
  offset1500 := 0
  segSelector := 0
  reserved4 := 0
  reserved3 := 0
  reserved2 := 0
  reserved1 := 0
  size := 0
  reserved0 := 0
  dpl := 0
  present := 0
  offset3116 := 0

/-! ## Round trips -/

section RoundTrip

variable {x : Nat}

/-- Two halves of a word. -/
theorem join_halves (h : x < 2 ^ 32) : bits x 0 16 + 2 ^ 16 * bits x 16 16 = x :=
  (bits_add x 0 16 16).symm.trans (bits_of_lt h)

/-- The three pieces of the base of a segment. -/
theorem join_base (h : x < 2 ^ 32) :
    bits x 0 16 + 2 ^ 16 * bits x 16 8 + 2 ^ 24 * bits x 24 8 = x := by
  have hupper := bits_add x 16 8 8
  have hall := join_halves h
  rw [hupper, Nat.mul_add, ← Nat.mul_assoc, ← pow_add, ← Nat.add_assoc] at hall
  exact hall

theorem setIdtEntry_offsets (d : IdtDesc) (handler : Nat) :
    (setIdtEntry d handler).offset1500 = bits handler 0 16 ∧
      (setIdtEntry d handler).offset3116 = bits handler 16 16 :=
  ⟨mask_low handler 16, mask_shift rfl handler⟩

/-- What the processor reads of an entry, field by field. -/
theorem readGate_pack (d : IdtDesc) :
    readGate (pack d.fields) =
      if d.present % 2 = 1 ∧
          d.reserved2 % 2 + 2 * (d.reserved1 % 2 + 2 * (d.size % 2 + 2 * (d.reserved0 % 2))) = 7 then
        some
          { target := d.offset1500 % 2 ^ 16 + 2 ^ 16 * (d.offset3116 % 2 ^ 16)
            selector := d.segSelector % 2 ^ 16
            dpl := d.dpl % 4
            trap := d.reserved3 % 2 == 1 }
      else none := by
  have hfield : ∀ before w v after, d.fields = before ++ (w, v) :: after →
      bits (pack d.fields) (width before) w = v % 2 ^ w := by
    intro before w v after h
    rw [h]
    exact bits_pack before after w v
  have hpresent : bits (pack d.fields) 47 1 = d.present % 2 :=
    hfield (d.fields.take 9) 1 d.present _ rfl
  have htype : bits (pack d.fields) 41 4 = d.reserved2 % 2 + 2 * (d.reserved1 % 2 +
      2 * (d.size % 2 + 2 * (d.reserved0 % 2))) := by
    have h2 : bits (pack d.fields) 41 1 = d.reserved2 % 2 :=
      hfield (d.fields.take 4) 1 d.reserved2 _ rfl
    have h1 : bits (pack d.fields) 42 1 = d.reserved1 % 2 :=
      hfield (d.fields.take 5) 1 d.reserved1 _ rfl
    have hsize : bits (pack d.fields) 43 1 = d.size % 2 := hfield (d.fields.take 6) 1 d.size _ rfl
    have h0 : bits (pack d.fields) 44 1 = d.reserved0 % 2 :=
      hfield (d.fields.take 7) 1 d.reserved0 _ rfl
    rw [bits_add _ 41 1 3, bits_add _ 42 1 2, bits_add _ 43 1 1, h2, h1, hsize, h0,
      pow_one]
  have hlow : bits (pack d.fields) 0 16 = d.offset1500 % 2 ^ 16 := hfield [] 16 d.offset1500 _ rfl
  have hhigh : bits (pack d.fields) 48 16 = d.offset3116 % 2 ^ 16 :=
    hfield (d.fields.take 10) 16 d.offset3116 _ rfl
  have hselector : bits (pack d.fields) 16 16 = d.segSelector % 2 ^ 16 :=
    hfield (d.fields.take 1) 16 d.segSelector _ rfl
  have hdpl : bits (pack d.fields) 45 2 = d.dpl % 4 := hfield (d.fields.take 8) 2 d.dpl _ rfl
  have htrap : bits (pack d.fields) 40 1 = d.reserved3 % 2 :=
    hfield (d.fields.take 3) 1 d.reserved3 _ rfl
  rw [readGate, hpresent, htype, hlow, hhigh, hselector, hdpl, htrap]

end RoundTrip

/-! ## The gates -/

/-- What `idt_init` is for: the first 32 vectors are trap gates of the kernel, the three devices
interrupt gates of the kernel, and the system call an interrupt gate that programs may use. -/
def gateFor (h : Handlers) (vector : Nat) : Option Gate :=
  if vector < 32 then some ⟨exceptionHandler h vector, kernelCS, 0, true⟩
  else if vector = pitVector then some ⟨h.handlePitInterrupt, kernelCS, 0, false⟩
  else if vector = kbVector then some ⟨h.handleKeyboardInterrupt, kernelCS, 0, false⟩
  else if vector = rtcVector then some ⟨h.handleRtcInterrupt, kernelCS, 0, false⟩
  else if vector = systemCallVector then some ⟨h.systemCallsLinkage, kernelCS, 3, false⟩
  else none

/-- The handlers are addresses of 32 bits. -/
structure Handlers.Fit (h : Handlers) : Prop where
  exceptions : ∀ i, exceptionHandler h i < 2 ^ 32
  rtc : h.handleRtcInterrupt < 2 ^ 32
  pit : h.handlePitInterrupt < 2 ^ 32
  keyboard : h.handleKeyboardInterrupt < 2 ^ 32
  linkage : h.systemCallsLinkage < 2 ^ 32

section Gates

variable {h : Handlers} {uninit : IdtDesc} {vector : Nat}

/-- The loop of `idt_init`. -/
theorem exceptions_apply (h : Handlers) (uninit : IdtDesc) (idt : Nat → IdtDesc) (n vector : Nat) :
    (List.range n).foldl
        (fun t i => Function.update t i
          (setIdtEntry (exceptionVector uninit) (exceptionHandler h i))) idt vector =
      if vector < n then setIdtEntry (exceptionVector uninit) (exceptionHandler h vector)
      else idt vector := by
  induction n with
  | zero => rfl
  | succ n ih =>
    rw [List.range_succ, List.foldl_append, List.foldl_cons, List.foldl_nil, Function.update_apply,
      ih]
    by_cases hn : vector = n
    · rw [if_pos hn, if_pos (by omega), hn]
    · rw [if_neg hn]
      refine if_congr ?_ rfl rfl
      omega

/-- An entry with a selector and a level that fit, and a handler, is read as this gate. -/
theorem readGate_set {d : IdtDesc} {handler : Nat} (hd : d = exceptionVector uninit ∨
    d = intVector uninit ∨ d = syscallVector uninit) (hhandler : handler < 2 ^ 32) :
    readGate (pack (setIdtEntry d handler).fields) =
      some ⟨handler, kernelCS, d.dpl, d.reserved3 == 1⟩ := by
  obtain ⟨hlow, hhigh⟩ := setIdtEntry_offsets d handler
  have htarget : (setIdtEntry d handler).offset1500 % 2 ^ 16 +
      2 ^ 16 * ((setIdtEntry d handler).offset3116 % 2 ^ 16) = handler := by
    rw [hlow, hhigh, Nat.mod_eq_of_lt (bits_lt _ _ _), Nat.mod_eq_of_lt (bits_lt _ _ _),
      join_halves hhandler]
  rw [readGate_pack, htarget]
  rcases hd with rfl | rfl | rfl <;> rfl

/-- **The gates.** After `idt_init`, whatever the uninitialised offset was: the processor finds the
gate of `gateFor` under every vector, with the whole address of the handler, and `int` of a program
gets through the system call vector only. -/
theorem idt_gates (hfit : h.Fit) (uninit : IdtDesc) (vector : Nat) :
    readGate (pack (idtInit h uninit emptyIdt vector).fields) = gateFor h vector ∧
      ((∃ g, readGate (pack (idtInit h uninit emptyIdt vector).fields) = some g ∧ 3 ≤ g.dpl) ↔
        vector = systemCallVector) := by
  have hgate : readGate (pack (idtInit h uninit emptyIdt vector).fields) = gateFor h vector := by
    unfold idtInit
    dsimp only
    rw [Function.update_apply, Function.update_apply, Function.update_apply, Function.update_apply,
      exceptions_apply]
    unfold gateFor
    by_cases hsys : vector = systemCallVector
    · subst hsys
      rw [if_pos rfl]
      exact readGate_set (Or.inr (Or.inr rfl)) hfit.linkage
    · rw [if_neg hsys]
      by_cases hkb : vector = kbVector
      · subst hkb
        rw [if_pos rfl]
        exact readGate_set (Or.inr (Or.inl rfl)) hfit.keyboard
      · rw [if_neg hkb]
        by_cases hpit : vector = pitVector
        · subst hpit
          rw [if_pos rfl]
          exact readGate_set (Or.inr (Or.inl rfl)) hfit.pit
        · rw [if_neg hpit]
          by_cases hrtc : vector = rtcVector
          · subst hrtc
            rw [if_pos rfl]
            exact readGate_set (Or.inr (Or.inl rfl)) hfit.rtc
          · rw [if_neg hrtc]
            by_cases hexception : vector < 0x20
            · rw [if_pos hexception, if_pos hexception]
              exact readGate_set (Or.inl rfl) (hfit.exceptions vector)
            · rw [if_neg hexception, if_neg hexception, if_neg hpit, if_neg hkb, if_neg hrtc,
                if_neg hsys]
              show readGate (pack (emptyIdt 0).fields) = none
              decide
  refine ⟨hgate, ?_⟩
  rw [hgate]
  constructor
  · rintro ⟨g, hg, hdpl⟩
    unfold gateFor at hg
    split_ifs at hg with h1 h2 h3 h4 h5
    · cases hg
      exact absurd hdpl (show ¬ 3 ≤ 0 by decide)
    · cases hg
      exact absurd hdpl (show ¬ 3 ≤ 0 by decide)
    · cases hg
      exact absurd hdpl (show ¬ 3 ≤ 0 by decide)
    · cases hg
      exact absurd hdpl (show ¬ 3 ≤ 0 by decide)
    · exact h5
  · rintro rfl
    exact ⟨_, rfl, Nat.le_refl 3⟩

end Gates

/-- Handlers in the kernel page, each at an address of its own. -/
def sampleHandlers : Handlers where
  exceptionPtrTable i := 0x00401000 + 16 * (i % 20)
  pageHandler := 0x00402000
  exReserved := 0x00402010
  handleRtcInterrupt := 0x00402020
  handlePitInterrupt := 0x00402030
  handleKeyboardInterrupt := 0x00402040
  systemCallsLinkage := 0x00412345

theorem fit_sampleHandlers : sampleHandlers.Fit := by
  refine ⟨?_, by decide, by decide, by decide, by decide⟩
  intro i
  have hmod := Nat.mod_lt i (show 0 < 20 by decide)
  unfold exceptionHandler sampleHandlers
  dsimp only
  split_ifs <;> omega

theorem idt_gates_sample :
    readGate (pack (idtInit sampleHandlers (emptyIdt 0) emptyIdt 0x80).fields) =
      some ⟨0x00412345, kernelCS, 3, false⟩ :=
  (idt_gates fit_sampleHandlers (emptyIdt 0) 0x80).1

/-! ## Segments -/

def tssSize : Nat := 103

/-- The descriptor that `entry` makes for the TSS; the base is not set before `SET_TSS_PARAMS`. -/
def tssDesc (uninit : SegDesc) (tss : Nat) : SegDesc :=
  setSegParams
    { uninit with
      granularity := 0
      opsize := 0
      reserved := 0
      avail := 0
      segLim1916 := 104 &&& 0x000F0000
      present := 1
      dpl := 0
      sys := 0
      type := 9
      segLim1500 := 104 &&& 0x0000FFFF }
    tss tssSize

section Segments

variable {d : SegDesc} {addr lim : Nat}

theorem readSegment_pack (d : SegDesc) :
    readSegment (pack d.fields) =
      { base := d.base1500 % 2 ^ 16 + 2 ^ 16 * (d.base2316 % 2 ^ 8) +
          2 ^ 24 * (d.base3124 % 2 ^ 8)
        limit := d.segLim1500 % 2 ^ 16 + 2 ^ 16 * (d.segLim1916 % 2 ^ 4)
        type := d.type % 2 ^ 4
        sys := d.sys % 2 ^ 1
        dpl := d.dpl % 2 ^ 2
        present := d.present % 2 ^ 1
        avail := d.avail % 2 ^ 1
        reserved := d.reserved % 2 ^ 1
        opsize := d.opsize % 2 ^ 1
        granularity := d.granularity % 2 ^ 1 } := by
  have hfield : ∀ before w v after, d.fields = before ++ (w, v) :: after →
      bits (pack d.fields) (width before) w = v % 2 ^ w := by
    intro before w v after h
    rw [h]
    exact bits_pack before after w v
  have hlow : bits (pack d.fields) 16 16 = d.base1500 % 2 ^ 16 :=
    hfield (d.fields.take 1) 16 d.base1500 _ rfl
  have hmiddle : bits (pack d.fields) 32 8 = d.base2316 % 2 ^ 8 :=
    hfield (d.fields.take 2) 8 d.base2316 _ rfl
  have hhigh : bits (pack d.fields) 56 8 = d.base3124 % 2 ^ 8 :=
    hfield (d.fields.take 12) 8 d.base3124 _ rfl
  have hlim : bits (pack d.fields) 0 16 = d.segLim1500 % 2 ^ 16 := hfield [] 16 d.segLim1500 _ rfl
  have hlim' : bits (pack d.fields) 48 4 = d.segLim1916 % 2 ^ 4 :=
    hfield (d.fields.take 7) 4 d.segLim1916 _ rfl
  have htype : bits (pack d.fields) 40 4 = d.type % 2 ^ 4 :=
    hfield (d.fields.take 3) 4 d.type _ rfl
  have hsys : bits (pack d.fields) 44 1 = d.sys % 2 ^ 1 := hfield (d.fields.take 4) 1 d.sys _ rfl
  have hdpl : bits (pack d.fields) 45 2 = d.dpl % 2 ^ 2 := hfield (d.fields.take 5) 2 d.dpl _ rfl
  have hpresent : bits (pack d.fields) 47 1 = d.present % 2 ^ 1 :=
    hfield (d.fields.take 6) 1 d.present _ rfl
  have havail : bits (pack d.fields) 52 1 = d.avail % 2 ^ 1 :=
    hfield (d.fields.take 8) 1 d.avail _ rfl
  have hreserved : bits (pack d.fields) 53 1 = d.reserved % 2 ^ 1 :=
    hfield (d.fields.take 9) 1 d.reserved _ rfl
  have hopsize : bits (pack d.fields) 54 1 = d.opsize % 2 ^ 1 :=
    hfield (d.fields.take 10) 1 d.opsize _ rfl
  have hgranularity : bits (pack d.fields) 55 1 = d.granularity % 2 ^ 1 :=
    hfield (d.fields.take 11) 1 d.granularity _ rfl
  rw [readSegment, hlow, hmiddle, hhigh, hlim, hlim', htype, hsys, hdpl, hpresent, havail, hreserved,
    hopsize, hgranularity]

/-- **Segments.** The processor finds a segment at the address and with the limit that
`SET_TSS_PARAMS` or `SET_LDT_PARAMS` were given, and its other properties as they were. -/
theorem segment_params (d : SegDesc) (haddr : addr < 2 ^ 32) (hlim : lim < 2 ^ 20) :
    readSegment (pack (setSegParams d addr lim).fields) =
      { readSegment (pack d.fields) with base := addr, limit := lim } := by
  have hbase : (addr &&& 0x0000FFFF) % 2 ^ 16 +
      2 ^ 16 * (((addr &&& 0x00FF0000) >>> 16) % 2 ^ 8) +
        2 ^ 24 * (((addr &&& 0xFF000000) >>> 24) % 2 ^ 8) = addr := by
    have hlow : addr &&& 0x0000FFFF = bits addr 0 16 := mask_low addr 16
    have hmiddle : (addr &&& 0x00FF0000) >>> 16 = bits addr 16 8 := mask_shift rfl addr
    have hhigh : (addr &&& 0xFF000000) >>> 24 = bits addr 24 8 := mask_shift rfl addr
    rw [hlow, hmiddle, hhigh, Nat.mod_eq_of_lt (bits_lt _ _ _), Nat.mod_eq_of_lt (bits_lt _ _ _),
      Nat.mod_eq_of_lt (bits_lt _ _ _)]
    exact join_base haddr
  have hlimit : (lim &&& 0x0000FFFF) % 2 ^ 16 +
      2 ^ 16 * (((lim &&& 0x000F0000) >>> 16) % 2 ^ 4) = lim := by
    have hlow : lim &&& 0x0000FFFF = bits lim 0 16 := mask_low lim 16
    have hhigh : (lim &&& 0x000F0000) >>> 16 = bits lim 16 4 := mask_shift rfl lim
    rw [hlow, hhigh, Nat.mod_eq_of_lt (bits_lt _ _ _), Nat.mod_eq_of_lt (bits_lt _ _ _)]
    exact (bits_add lim 0 16 4).symm.trans (bits_of_lt hlim)
  rw [readSegment_pack, readSegment_pack]
  simp only [setSegParams, hbase, hlimit]

/-- A descriptor with nothing in it. -/
def zeroDesc : SegDesc := ⟨0, 0, 0, 0, 0, 0, 0, 0, 0, 0, 0, 0, 0⟩

/-- The processor finds the TSS where it is, from its first byte to its last. -/
theorem segment_params_tss :
    readSegment (pack (tssDesc zeroDesc 0x00408765).fields) =
      { base := 0x00408765, limit := 103, type := 9, sys := 0, dpl := 0, present := 1
        avail := 0, reserved := 0, opsize := 0, granularity := 0 } := by
  rw [tssDesc, segment_params _ (by decide) (by decide), readSegment_pack]
  rfl

end Segments

end LinuxBasedOS.Devices
