import LinuxBasedOS.Base.Transition
import LinuxBasedOS.Filesystem.ReadMemory

/-!
# memcpy, instruction by instruction

`memcpy` of `lib.c` is assembly: it copies bytes until the destination is aligned, then four bytes
at a time with `rep movsl`, then the bytes that are left. `Copier` has the registers it uses and
the memory; a step is one turn of one of its loops.

`memcpy_copies` says that from every pair of addresses it comes to an end, and that its effect is
that of `Filesystem.memcpy`, by which `read_data` is modelled: the invariant is that after `i` bytes
the memory is the one with the first `i` bytes copied.
-/

namespace LinuxBasedOS.Filesystem

open Word Stores Transition

/-! ## The machine -/

inductive CopyLabel where
  /-- `.memcpy_top` -/
  | top
  /-- `.memcpy_aligned` -/
  | aligned
  /-- `rep movsl` -/
  | rep
  /-- `.memcpy_bottom` -/
  | bottom
  /-- `.memcpy_done` -/
  | done
  deriving DecidableEq, Repr

structure Copier where
  label : CopyLabel
  edi : Nat
  esi : Nat
  ecx : Nat
  edx : Nat
  mem : Memory

/-- `movb (%esi), %al` and `movb %al, (%edi)`, and the two pointers one further. -/
def copyByte (s : Copier) : Copier :=
  { s with
    mem := Function.update s.mem s.edi (s.mem s.esi)
    edi := u32 (s.edi + 1)
    esi := u32 (s.esi + 1) }

/-- `movsl`: the four bytes are read before they are stored. -/
def copyDword (s : Copier) : Copier :=
  { s with
    mem := (List.range 4).foldl
      (fun mem (i : Nat) => Function.update mem (u32 (s.edi + i)) (s.mem (u32 (s.esi + i)))) s.mem
    edi := u32 (s.edi + 4)
    esi := u32 (s.esi + 4) }

/-- One turn. -/
def copyStep (s : Copier) : Copier :=
  match s.label with
  | .top =>
    if s.ecx = 0 then { s with label := .done }
    else if s.edi &&& 3 = 0 then { s with label := .aligned }
    else { copyByte s with ecx := u32 (s.ecx - 1) }
  | .aligned => { s with label := .rep, edx := s.ecx &&& 3, ecx := s.ecx >>> 2 }
  | .rep =>
    if s.ecx = 0 then { s with label := .bottom }
    else { copyDword s with ecx := u32 (s.ecx - 1) }
  | .bottom =>
    if s.edx = 0 then { s with label := .done }
    else { copyByte s with edx := u32 (s.edx - 1) }
  | .done => s

/-- The registers on entry; `edx` is whatever it is. -/
def startCopy (mem : Memory) (dest src n edx : Nat) : Copier where
  label := .top
  edi := dest
  esi := src
  ecx := n
  edx := edx
  mem := mem

/-! ## Bytes copied -/

/-- The first `i` bytes have been copied and the pointers are behind them. -/
structure Copied (mem : Memory) (dest src i : Nat) (s : Copier) : Prop where
  edi : s.edi = u32 (dest + i : Nat)
  esi : s.esi = u32 (src + i : Nat)
  mem_eq : s.mem = memcpy mem dest src i

/-- Source and destination are addresses of `n` bytes each, with no byte in common. -/
structure Apart (dest src n : Nat) : Prop where
  dest_lt : dest < 4294967296
  src_lt : src < 4294967296
  dest_le : dest + n ≤ 4294967296
  src_le : src + n ≤ 4294967296
  disjoint : dest + n ≤ src ∨ src + n ≤ dest

section Bytes

variable {mem : Memory} {dest src n i : Nat} {s : Copier}

/-- The source is not written. -/
theorem Apart.memcpy_read (h : Apart dest src n) (mem : Memory) (hi : i ≤ n) {j : Nat}
    (hj : j < n) : memcpy mem dest src i (src + j) = mem (src + j) := by
  have hdisjoint := h.disjoint
  have hlength := length_memBytes mem src i
  exact place_outside mem (by omega)

theorem memcpy_succ (mem : Memory) (dest src i : Nat) :
    Function.update (memcpy mem dest src i) (dest + i) (mem (src + i)) =
      memcpy mem dest src (i + 1) := by
  have hlength := length_memBytes mem src i
  rw [memcpy, memcpy, memBytes_succ, place_concat, hlength]

theorem Copied.start (h : Apart dest src n) (mem : Memory) (edx : Nat) :
    Copied mem dest src 0 (startCopy mem dest src n edx) where
  edi := (u32_natCast h.dest_lt).symm
  esi := (u32_natCast h.src_lt).symm
  mem_eq := (place_nil mem dest).symm

/-- Below the end the pointers have not wrapped. -/
theorem Copied.pointers (hcopied : Copied mem dest src i s) (h : Apart dest src n) (hi : i < n) :
    s.edi = dest + i ∧ s.esi = src + i := by
  have hdest := h.dest_le
  have hsrc := h.src_le
  exact ⟨hcopied.edi.trans (u32_natCast (by omega)), hcopied.esi.trans (u32_natCast (by omega))⟩

theorem Copied.byte (hcopied : Copied mem dest src i s) (h : Apart dest src n) (hi : i < n) :
    Copied mem dest src (i + 1) (copyByte s) := by
  obtain ⟨hedi, hesi⟩ := hcopied.pointers h hi
  unfold copyByte
  refine ⟨?_, ?_, ?_⟩
  · dsimp only
    rw [hedi]
    rfl
  · dsimp only
    rw [hesi]
    rfl
  · dsimp only
    rw [hedi, hesi, hcopied.mem_eq, h.memcpy_read mem (Nat.le_of_lt hi) hi]
    exact memcpy_succ mem dest src i

theorem Copied.dword (hcopied : Copied mem dest src i s) (h : Apart dest src n) (hi : i + 4 ≤ n) :
    Copied mem dest src (i + 4) (copyDword s) := by
  obtain ⟨hedi, hesi⟩ := hcopied.pointers h (by omega)
  have hdest := h.dest_le
  have hsrc := h.src_le
  -- the four addresses, and what is read there
  have hto : ∀ j < 4, u32 (s.edi + (j : Nat)) = dest + (i + j) := by
    intro j hj
    rw [hedi, u32_add (by omega), Nat.add_assoc]
  have hfrom : ∀ j < 4, s.mem (u32 (s.esi + (j : Nat))) = mem (src + (i + j)) := by
    intro j hj
    rw [hesi, u32_add (by omega), Nat.add_assoc, hcopied.mem_eq,
      h.memcpy_read mem (by omega) (by omega)]
  have hstores : (copyDword s).mem = memcpy mem dest src (i + 4) := by
    have hrange : List.range 4 = [0, 1, 2, 3] := rfl
    unfold copyDword
    dsimp only
    rw [hrange]
    simp only [List.foldl_cons, List.foldl_nil]
    rw [hto 0 (by decide), hto 1 (by decide), hto 2 (by decide), hto 3 (by decide),
      hfrom 0 (by decide), hfrom 1 (by decide), hfrom 2 (by decide), hfrom 3 (by decide),
      hcopied.mem_eq, Nat.add_zero, memcpy_succ, memcpy_succ, memcpy_succ, memcpy_succ]
  refine ⟨?_, ?_, hstores⟩
  · unfold copyDword
    dsimp only
    rw [hedi, ← Nat.add_assoc]
    rfl
  · unfold copyDword
    dsimp only
    rw [hesi, ← Nat.add_assoc]
    rfl

end Bytes

/-! ## The three phases -/

section Phases

variable {mem : Memory} {dest src n i : Nat} {s : Copier}

theorem u32_pred {r : Nat} (h : r + 1 < 4294967296) : u32 ((r + 1 : Nat) - 1) = r := by
  unfold u32
  omega

/-- The bytes before the destination is aligned, or all of them. -/
theorem top_comes (h : Apart dest src n) (hn : n < 4294967296) {r : Nat} (hlabel : s.label = .top)
    (hecx : s.ecx = r) (hcopied : Copied mem dest src i s) (hr : i + r = n) :
    ∃ s' j, Comes copyStep s s' ∧ Copied mem dest src j s' ∧
      (s'.label = .done ∧ j = n ∨ s'.label = .aligned ∧ j + s'.ecx = n) := by
  induction r generalizing s i with
  | zero =>
    have hstep : copyStep s = { s with label := .done } := by
      simp only [copyStep, hlabel, hecx, if_true]
    refine ⟨{ s with label := .done }, i, ?_, ⟨hcopied.edi, hcopied.esi, hcopied.mem_eq⟩, ?_⟩
    · exact Comes.head (hstep ▸ Comes.refl _)
    · exact Or.inl ⟨rfl, hr⟩
  | succ r ih =>
    by_cases haligned : s.edi &&& 3 = 0
    · have hstep : copyStep s = { s with label := .aligned } := by
        simp only [copyStep, hlabel, hecx, haligned, if_true, Nat.succ_ne_zero, if_false]
      refine ⟨{ s with label := .aligned }, i, ?_, ⟨hcopied.edi, hcopied.esi, hcopied.mem_eq⟩, ?_⟩
      · exact Comes.head (hstep ▸ Comes.refl _)
      · exact Or.inr ⟨rfl, hecx ▸ hr⟩
    · have hstep : copyStep s = { copyByte s with ecx := r } := by
        simp only [copyStep, hlabel, hecx, haligned, if_false, Nat.succ_ne_zero]
        rw [u32_pred (by omega)]
      have hlt : i < n := by omega
      have hbyte := hcopied.byte h hlt
      have hnext : Copied mem dest src (i + 1) { copyByte s with ecx := r } :=
        ⟨hbyte.edi, hbyte.esi, hbyte.mem_eq⟩
      have hr' : i + 1 + r = n := by omega
      obtain ⟨s', j, hcomes, hend⟩ :=
        ih (s := { copyByte s with ecx := r }) hlabel rfl hnext hr'
      exact ⟨s', j, Comes.head (hstep ▸ hcomes), hend⟩

/-- `rep movsl`. -/
theorem rep_comes (h : Apart dest src n) (hn : n < 4294967296) {q : Nat} (hlabel : s.label = .rep)
    (hecx : s.ecx = q) (hcopied : Copied mem dest src i s) (hq : i + 4 * q ≤ n) :
    ∃ s', Comes copyStep s s' ∧ s'.label = .bottom ∧ s'.edx = s.edx ∧
      Copied mem dest src (i + 4 * q) s' := by
  induction q generalizing s i with
  | zero =>
    have hstep : copyStep s = { s with label := .bottom } := by
      simp only [copyStep, hlabel, hecx, if_true]
    refine ⟨{ s with label := .bottom }, ?_, rfl, rfl, ⟨hcopied.edi, hcopied.esi, hcopied.mem_eq⟩⟩
    exact Comes.head (hstep ▸ Comes.refl _)
  | succ q ih =>
    have hstep : copyStep s = { copyDword s with ecx := q } := by
      simp only [copyStep, hlabel, hecx, if_false, Nat.succ_ne_zero]
      rw [u32_pred (by omega)]
    have hle : i + 4 ≤ n := by omega
    have hdword := hcopied.dword h hle
    have hnext : Copied mem dest src (i + 4) { copyDword s with ecx := q } :=
      ⟨hdword.edi, hdword.esi, hdword.mem_eq⟩
    have hq' : i + 4 + 4 * q ≤ n := by omega
    obtain ⟨s', hcomes, hbottom, hedx, hend⟩ :=
      ih (s := { copyDword s with ecx := q }) hlabel rfl hnext hq'
    have hcount : i + 4 + 4 * q = i + 4 * (q + 1) := by omega
    exact ⟨s', Comes.head (hstep ▸ hcomes), hbottom, hedx, hcount ▸ hend⟩

/-- The bytes that are left. -/
theorem bottom_comes (h : Apart dest src n) (hn : n < 4294967296) {r : Nat}
    (hlabel : s.label = .bottom) (hedx : s.edx = r) (hcopied : Copied mem dest src i s)
    (hr : i + r = n) :
    ∃ s', Comes copyStep s s' ∧ s'.label = .done ∧ Copied mem dest src n s' := by
  induction r generalizing s i with
  | zero =>
    have hstep : copyStep s = { s with label := .done } := by
      simp only [copyStep, hlabel, hedx, if_true]
    rw [Nat.add_zero] at hr
    refine ⟨{ s with label := .done }, ?_, rfl, ?_⟩
    · exact Comes.head (hstep ▸ Comes.refl _)
    · exact hr ▸ ⟨hcopied.edi, hcopied.esi, hcopied.mem_eq⟩
  | succ r ih =>
    have hstep : copyStep s = { copyByte s with edx := r } := by
      simp only [copyStep, hlabel, hedx, if_false, Nat.succ_ne_zero]
      rw [u32_pred (by omega)]
    have hlt : i < n := by omega
    have hbyte := hcopied.byte h hlt
    have hnext : Copied mem dest src (i + 1) { copyByte s with edx := r } :=
      ⟨hbyte.edi, hbyte.esi, hbyte.mem_eq⟩
    have hr' : i + 1 + r = n := by omega
    obtain ⟨s', hcomes, hend⟩ :=
      ih (s := { copyByte s with edx := r }) hlabel rfl hnext hr'
    exact ⟨s', Comes.head (hstep ▸ hcomes), hend⟩

/-- From the aligned address on. -/
theorem aligned_comes (h : Apart dest src n) (hn : n < 4294967296) (hlabel : s.label = .aligned)
    (hcopied : Copied mem dest src i s) (hr : i + s.ecx = n) :
    ∃ s', Comes copyStep s s' ∧ s'.label = .done ∧ Copied mem dest src n s' := by
  have hrest : s.ecx &&& 3 = s.ecx % 4 := Nat.and_two_pow_sub_one_eq_mod s.ecx 2
  have hdwords : s.ecx >>> 2 = s.ecx / 4 := Nat.shiftRight_eq_div_pow s.ecx 2
  have hstep : copyStep s = { s with label := .rep, edx := s.ecx % 4, ecx := s.ecx / 4 } := by
    simp only [copyStep, hlabel, hrest, hdwords]
  have hnext : Copied mem dest src i { s with label := .rep, edx := s.ecx % 4, ecx := s.ecx / 4 } :=
    ⟨hcopied.edi, hcopied.esi, hcopied.mem_eq⟩
  have hle : i + 4 * (s.ecx / 4) ≤ n := by omega
  have hleft : i + 4 * (s.ecx / 4) + s.ecx % 4 = n := by omega
  obtain ⟨s', hcomes, hbottom, hedx, hcopied'⟩ := rep_comes h hn rfl rfl hnext hle
  obtain ⟨s'', hcomes', hend⟩ := bottom_comes h hn hbottom hedx hcopied' hleft
  exact ⟨s'', Comes.head (hstep ▸ hcomes.trans hcomes'), hend⟩

end Phases

/-- **memcpy.** From all addresses, with regions that do not overlap or wrap around, and all
contents of the memory, the assembly comes to its end; then the memory is that of `memcpy`: the
bytes of the source are in the destination, and every other byte is as it was. -/
theorem memcpy_copies (mem : Memory) {dest src n : Nat} (h : Apart dest src n)
    (hn : n < 4294967296) (edx : Nat) :
    ∃ s, Comes copyStep (startCopy mem dest src n edx) s ∧ s.label = .done ∧
      s.mem = memcpy mem dest src n ∧ (∀ i < n, s.mem (dest + i) = mem (src + i)) ∧
      ∀ addr, addr < dest ∨ dest + n ≤ addr → s.mem addr = mem addr := by
  have hends : ∃ s, Comes copyStep (startCopy mem dest src n edx) s ∧ s.label = .done ∧
      Copied mem dest src n s := by
    obtain ⟨s, j, hcomes, hcopied, hcase⟩ :=
      top_comes h hn rfl rfl (Copied.start h mem edx) (Nat.zero_add n)
    rcases hcase with ⟨hdone, rfl⟩ | ⟨haligned, hrest⟩
    · exact ⟨s, hcomes, hdone, hcopied⟩
    · obtain ⟨s', hcomes', hend⟩ := aligned_comes h hn haligned hcopied hrest
      exact ⟨s', hcomes.trans hcomes', hend⟩
  obtain ⟨s, hcomes, hdone, hcopied⟩ := hends
  have hlength := length_memBytes mem src n
  refine ⟨s, hcomes, hdone, hcopied.mem_eq, ?_, ?_⟩
  · intro i hi
    rw [hcopied.mem_eq, memcpy, place_inside mem dest (hlength.symm ▸ hi), getElem_memBytes]
  · intro addr haddr
    rw [hcopied.mem_eq, memcpy]
    exact place_outside mem (by omega)

/-- Seven bytes to an address that is not aligned. -/
theorem memcpy_copies_seven :
    ∃ s, Comes copyStep (startCopy (fun a => UInt8.ofNat a) 1002 2001 7 0) s ∧
      s.mem 1008 = UInt8.ofNat 2007 := by
  obtain ⟨s, hcomes, -, -, hbytes, -⟩ := memcpy_copies (fun a => UInt8.ofNat a)
    (⟨by decide, by decide, by decide, by decide, Or.inl (by decide)⟩ : Apart 1002 2001 7)
    (by decide) 0
  exact ⟨s, hcomes, hbytes 6 (by decide)⟩

end LinuxBasedOS.Filesystem
