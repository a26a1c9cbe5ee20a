import LinuxBasedOS.Base.X86

/-!
# From a program to a system call and back

A program calls the stub of `ece391syscall.S` for a number; the stub loads three arguments from the
stack into registers and traps. `system_calls_linkage` saves the registers on the kernel stack, where
the three arguments become those of a C function, calls the function of the table and restores what
it has saved.

A C function may change its arguments where they lie on the stack, and the linkage restores `%ebx`,
`%ecx` and `%edx` from just these places. `system_call_path` says that the call comes to its
function, and that the program gets back the registers that are its own all the same when the
function returns: `%ecx` and `%edx` are not among them. `halt`, and `execute` when it starts a
program, do not return this way.
-/

namespace LinuxBasedOS.Process

open Word Transition X86

/-! ## The code -/

/-- The registers in the order in which `system_calls_linkage` saves them. -/
def savedRegisters : List Operand :=
  [.seg .fs, .seg .es, .seg .ds, .reg .eax, .reg .ebp, .reg .edi, .reg .esi, .reg .edx, .reg .ecx,
    .reg .ebx]

/-- The address of `system_error`. -/
def systemError (base : Nat) : Nat := base + 28

/-- `system_calls_linkage` up to the first `pushw`. -/
def checkNumber (base : Nat) : List Instr :=
  [.cmpImm 0 .eax, .jna (systemError base), .cmpImm 11 .eax, .jnb (systemError base), .dec .eax]

def restoredRegisters : List Operand :=
  [.reg .ebx, .reg .ecx, .reg .edx, .reg .esi, .reg .edi, .reg .ebp]

def restoredSegments : List Operand := [.seg .ds, .seg .es, .seg .fs]

/-- `system_calls_linkage` from the call on, with `system_error`. -/
def afterCall : List Instr :=
  restoredRegisters.map .pop ++ (.addImm 4 .esp :: (restoredSegments.map .pop ++
    [.iret, .movImm 0xFFFFFFFF .eax, .iret]))

/-- `system_calls_linkage`, at the address `base`. -/
def systemCallsLinkage (base : Nat) : List Instr :=
  checkNumber base ++ (savedRegisters.map .push ++ (.sti :: .callTable .eax :: afterCall))

/-- `DO_CALL(name,number)`. -/
def doCall (number : Nat) : List Instr :=
  [.push (.reg .ebx), .movImm number .eax, .movStack 8 .ebx, .movStack 12 .ecx, .movStack 16 .edx,
    .int 0x80, .pop (.reg .ebx), .ret]

/-! ## C functions -/

/-- A C function that has been called in `c` returns in `f`: the return address is off the stack, the
registers that belong to the caller are as before, and so is the memory in `kept`. -/
structure Cdecl (c f : Cpu) (kept : Nat → Prop) : Prop where
  eip : f.eip = load c.mem 4 (c.reg .esp)
  esp : f.reg .esp = c.reg .esp + 4
  saved : ∀ r ∈ [Reg.ebx, .esi, .edi, .ebp], f.reg r = c.reg r
  seg : f.seg = c.seg
  mem : ∀ b, kept b → f.mem b = c.mem b

section Linkage

variable {p : Platform} {base : Nat} {t : Cpu}

/-! ## The check of the number -/

/-- A number between 1 and 10 becomes the index of the table. -/
theorem check_comes (hcode : Placed p t.eip (checkNumber base)) (h1 : 1 ≤ t.reg .eax)
    (h10 : t.reg .eax ≤ 10) :
    ∃ t', Comes (step p) t t' ∧ t'.eip = t.eip + 5 ∧
      t'.reg = Function.update t.reg .eax (t.reg .eax - 1) ∧ t'.seg = t.seg ∧ t'.mem = t.mem := by
  have hzero := cmp_jna_comes hcode
  rw [if_neg (by omega)] at hzero
  obtain ⟨t₁, ht₁⟩ : ∃ t₁ : Cpu, t₁ = { t with eip := t.eip + 2, eflags := cmpFlags t 0 .eax } :=
    ⟨_, rfl⟩
  have hcode₁ : Placed p t₁.eip [.cmpImm 11 .eax, .jnb (systemError base), .dec .eax] := by
    rw [ht₁]
    exact hcode.tail.tail
  have heleven := cmp_jnb_comes hcode₁
  have heax : t₁.reg .eax = t.reg .eax := by rw [ht₁]
  rw [if_neg (by omega)] at heleven
  obtain ⟨t₂, ht₂⟩ : ∃ t₂ : Cpu,
      t₂ = { t₁ with eip := t₁.eip + 2, eflags := cmpFlags t₁ 11 .eax } := ⟨_, rfl⟩
  have hcode₂ : Placed p t₂.eip [.dec .eax] := by
    rw [ht₂]
    exact hcode₁.tail.tail
  have hpred : u32 ((t.reg .eax : Int) - 1) = t.reg .eax - 1 := by
    unfold u32
    omega
  refine ⟨t₂.next.setReg .eax (t.reg .eax - 1), ?_, ?_, ?_, ?_, ?_⟩
  · refine hzero.trans ?_
    rw [← ht₁]
    refine heleven.trans ?_
    rw [← ht₂]
    have hexec : exec p t₂ (.dec .eax) = t₂.next.setReg .eax (t.reg .eax - 1) := by
      rw [← hpred, ht₂, ht₁]
      rfl
    exact comes_head hcode₂ (hexec ▸ Comes.refl _)
  · rw [ht₂, ht₁]
    rfl
  · rw [ht₂, ht₁]
    rfl
  · rw [ht₂, ht₁]
    rfl
  · rw [ht₂, ht₁]
    rfl

/-- Every other number goes to `system_error`. -/
theorem refuse_comes (hcode : Placed p t.eip (checkNumber base))
    (h : t.reg .eax = 0 ∨ 11 ≤ t.reg .eax) :
    ∃ flags, Comes (step p) t { t with eip := systemError base, eflags := flags } := by
  have hzero := cmp_jna_comes hcode
  by_cases h0 : t.reg .eax ≤ 0
  · rw [if_pos h0] at hzero
    exact ⟨_, hzero⟩
  · rw [if_neg h0] at hzero
    obtain ⟨t₁, ht₁⟩ : ∃ t₁ : Cpu, t₁ = { t with eip := t.eip + 2, eflags := cmpFlags t 0 .eax } :=
      ⟨_, rfl⟩
    have hcode₁ : Placed p t₁.eip [.cmpImm 11 .eax, .jnb (systemError base), .dec .eax] := by
      rw [ht₁]
      exact hcode.tail.tail
    have heleven := cmp_jnb_comes hcode₁
    have heax : t₁.reg .eax = t.reg .eax := by rw [ht₁]
    rw [if_pos (by omega)] at heleven
    rw [← ht₁] at hzero
    have hsame : ({ t₁ with eip := systemError base, eflags := cmpFlags t₁ 11 .eax } : Cpu) =
        { t with eip := systemError base, eflags := cmpFlags t₁ 11 .eax } := by
      rw [ht₁]
    exact ⟨_, hzero.trans (hsame ▸ heleven)⟩

/-! ## Into the function -/

/-- The state in which the function is called, from the state in which the linkage begins. -/
structure Called (p : Platform) (t c : Cpu) : Prop where
  eip : c.eip = p.table (t.reg .eax - 1)
  esp : c.reg .esp = t.reg .esp - 38
  reg : ∀ r, r ≠ .esp → r ≠ .eax → c.reg r = t.reg r
  seg : c.seg = t.seg
  interrupts : c.eflags.testBit interrupt = true
  holds : ∀ vals, Holds t.mem (t.reg .esp) vals → Holds c.mem (c.reg .esp)
    ([(4, t.eip + 17), (4, t.reg .ebx), (4, t.reg .ecx), (4, t.reg .edx), (4, t.reg .esi),
      (4, t.reg .edi), (4, t.reg .ebp), (4, t.reg .eax - 1), (2, t.seg .ds), (2, t.seg .es),
      (2, t.seg .fs)] ++ vals)
  mem : ∀ b, b < c.reg .esp ∨ t.reg .esp ≤ b → c.mem b = t.mem b

theorem enter_comes (hcode : Placed p t.eip (systemCallsLinkage t.eip)) (h1 : 1 ≤ t.reg .eax)
    (h10 : t.reg .eax ≤ 10) (hreg : ∀ r, t.reg r < 256 ^ 4)
    (hseg : ∀ g, g ≠ .cs → g ≠ .ss → t.seg g < 256 ^ 2) (hroom : 38 ≤ t.reg .esp) (heip : t.eip + 17 < 256 ^ 4) :
    ∃ c, Comes (step p) t c ∧ Called p t c := by
  obtain ⟨t₁, hcheck, heip₁, hreg₁, hseg₁, hmem₁⟩ := check_comes hcode.left h1 h10
  have hesp₁ : t₁.reg .esp = t.reg .esp := by
    rw [hreg₁, Function.update_of_ne (by decide)]
  have hsaved : Placed p t₁.eip (savedRegisters.map .push ++ (.sti :: .callTable .eax :: afterCall)) := by
    rw [heip₁]
    exact hcode.right
  have hvalues : t₁.values savedRegisters =
      [(2, t.seg .fs), (2, t.seg .es), (2, t.seg .ds), (4, t.reg .eax - 1), (4, t.reg .ebp),
        (4, t.reg .edi), (4, t.reg .esi), (4, t.reg .edx), (4, t.reg .ecx), (4, t.reg .ebx)] := by
    simp [Cpu.values, savedRegisters, Cpu.get, Operand.size, hreg₁, hseg₁]
  have hextent : extent (t₁.values savedRegisters) = 34 := by
    rw [hvalues]
    rfl
  have hfits : ∀ o ∈ savedRegisters, t₁.get o < 256 ^ o.size := by
    intro o ho
    cases o with
    | reg r =>
      show t₁.reg r < _
      rw [hreg₁, Function.update_apply]
      split_ifs
      · exact Nat.lt_of_le_of_lt (Nat.sub_le _ _) (hreg .eax)
      · exact hreg r
    | seg g =>
      have hcs : g ≠ .cs := by rintro rfl; exact absurd ho (by decide)
      have hss : g ≠ .ss := by rintro rfl; exact absurd ho (by decide)
      show t₁.seg g < _
      rw [hseg₁]
      exact hseg g hcs hss
  have hesp : t.reg .esp < 4294967296 := hreg .esp
  obtain ⟨t₂, hsave, hsaved₂⟩ := save_comes hsaved.left (by decide) (by omega) (by omega) hfits
  have hesp₂ : t₂.reg .esp = t.reg .esp - 34 := by
    rw [hsaved₂.reg, Function.update_self, hextent, hesp₁]
  have hcall : Placed p t₂.eip (.sti :: .callTable .eax :: afterCall) := by
    rw [hsaved₂.eip]
    exact hsaved.right
  obtain ⟨t₃, ht₃⟩ : ∃ t₃, t₃ = exec p t₂ .sti := ⟨_, rfl⟩
  have hcall₃ : Placed p t₃.eip (.callTable .eax :: afterCall) := by
    rw [ht₃]
    exact hcall.tail
  have hreg₃ : t₃.reg = t₂.reg := by rw [ht₃]; rfl
  have hmem₃ : t₃.mem = t₂.mem := by rw [ht₃]; rfl
  have heip₃ : t₃.eip = t.eip + 16 := by
    rw [ht₃]
    show t₂.eip + 1 = _
    rw [hsaved₂.eip, heip₁]
    rfl
  have heax₃ : t₃.reg .eax = t.reg .eax - 1 := by
    rw [hreg₃, hsaved₂.reg, Function.update_of_ne (by decide), hreg₁, Function.update_self]
  have hpushed : Pushed t₃ (t₃.pushAll [(4, t₃.eip + 1)]) [(4, t₃.eip + 1)] := by
    refine pushAll_pushed ?_ ?_ ?_
    · rw [hreg₃, hesp₂]
      show 4 + 0 ≤ _
      omega
    · rw [hreg₃, hesp₂]
      omega
    · rw [List.forall_mem_singleton, heip₃]
      exact heip
  have hexec : exec p t₃ (.callTable .eax) =
      { t₃.pushAll [(4, t₃.eip + 1)] with eip := p.table (t.reg .eax - 1) } := by
    rw [← heax₃]
    rfl
  have hespc : (t₃.pushAll [(4, t₃.eip + 1)]).reg .esp = t.reg .esp - 38 := by
    rw [hpushed.reg, Function.update_self, hreg₃, hesp₂]
    show _ - (4 + 0) = _
    omega
  refine ⟨{ t₃.pushAll [(4, t₃.eip + 1)] with eip := p.table (t.reg .eax - 1) }, ?_, rfl, hespc, ?_,
    ?_, ?_, ?_, ?_⟩
  · rw [← hexec]
    refine hcheck.trans (hsave.trans (comes_head hcall ?_))
    rw [← ht₃]
    exact comes_head hcall₃ (Comes.refl _)
  · intro r hsp hax
    show (t₃.pushAll [(4, t₃.eip + 1)]).reg r = _
    rw [hpushed.reg, Function.update_of_ne hsp, hreg₃, hsaved₂.reg, Function.update_of_ne hsp, hreg₁,
      Function.update_of_ne hax]
  · show (t₃.pushAll [(4, t₃.eip + 1)]).seg = _
    rw [hpushed.seg, ht₃]
    exact hsaved₂.seg.trans hseg₁
  · have hflags : (t₃.pushAll [(4, t₃.eip + 1)]).eflags = setBit t₂.eflags interrupt true := by
      rw [ht₃]
      rfl
    show (t₃.pushAll [(4, t₃.eip + 1)]).eflags.testBit interrupt = true
    rw [hflags, testBit_setBit, if_pos rfl]
  · intro vals hvals
    rw [← hmem₁, ← hesp₁] at hvals
    have hregisters := hsaved₂.holds vals hvals
    rw [hvalues, ← hmem₃, ← hreg₃] at hregisters
    have hall := hpushed.holds _ hregisters
    rw [heip₃] at hall ⊢
    exact hall
  · intro b hb
    have hb' : b < t.reg .esp - 38 ∨ t.reg .esp ≤ b := hespc ▸ hb
    refine (hpushed.mem b ?_).trans ?_
    · rw [hreg₃, hesp₂]
      show b < _ - (4 + 0) ∨ _
      omega
    · rw [hmem₃, hsaved₂.mem b ?_, hmem₁]
      rw [hesp₂, hesp₁]
      omega

/-! ## Out of the function -/

/-- What the linkage leaves for the program. `%ecx` and `%edx` are what is in the places of the
second and the third argument. -/
structure Resumed (f s' : Cpu) (saved : Operand → Nat) (eip cs eflags esp ss : Nat) : Prop where
  eip : s'.eip = eip
  esp : s'.reg .esp = esp
  eflags : s'.eflags = eflags
  cs : s'.seg .cs = cs
  ss : s'.seg .ss = ss
  eax : s'.reg .eax = f.reg .eax
  ecx : s'.reg .ecx = load f.mem 4 (f.reg .esp + 4)
  edx : s'.reg .edx = load f.mem 4 (f.reg .esp + 8)
  reg : ∀ r ∈ [Reg.esi, .edi, .ebp], s'.reg r = saved (.reg r)
  seg : ∀ g ∈ [Seg.ds, .es, .fs], s'.seg g = saved (.seg g)
  mem : s'.mem = f.mem

/-- The three arguments have been on the stack of the function, so nothing is said of what is
there. -/
theorem leave_comes {f : Cpu} {saved : Operand → Nat} {n eip cs eflags esp ss : Nat}
    (hcode : Placed p f.eip afterCall) (hroom : f.reg .esp + 54 < 4294967296)
    (hholds : Holds f.mem (f.reg .esp + 12)
      [(4, saved (.reg .esi)), (4, saved (.reg .edi)), (4, saved (.reg .ebp)), (4, n),
        (2, saved (.seg .ds)), (2, saved (.seg .es)), (2, saved (.seg .fs)), (4, eip), (4, cs),
        (4, eflags), (4, esp), (4, ss)]) :
    ∃ s', Comes (step p) f s' ∧ Resumed f s' saved eip cs eflags esp ss := by
  -- whatever the function has made of its arguments
  obtain ⟨w, hw⟩ : ∃ w : Operand → Nat, w = fun o =>
      if o = .reg .ebx then load f.mem 4 (f.reg .esp)
      else if o = .reg .ecx then load f.mem 4 (f.reg .esp + 4)
      else if o = .reg .edx then load f.mem 4 (f.reg .esp + 8) else saved o := ⟨_, rfl⟩
  obtain ⟨hesi, hedi, hebp, hn, hrest⟩ := hholds
  have hregisters : Holds f.mem (f.reg .esp) (slots w restoredRegisters) := by
    rw [hw]
    exact ⟨rfl, rfl, rfl, hesi, hedi, hebp, trivial⟩
  have hextent : extent (slots w restoredRegisters) = 24 := rfl
  obtain ⟨f₁, hpop, hrestored⟩ := restore_comes hcode.left (by decide) (by decide) hregisters
    (by omega)
  have hcode₁ : Placed p f₁.eip (.addImm 4 .esp :: (restoredSegments.map .pop ++
      [.iret, .movImm 0xFFFFFFFF .eax, .iret])) := by
    rw [hrestored.eip]
    exact hcode.right
  have hesp₁ : f₁.reg .esp = f.reg .esp + 24 := by rw [hrestored.esp, hextent]
  obtain ⟨f₂, hf₂⟩ : ∃ f₂, f₂ = exec p f₁ (.addImm 4 .esp) := ⟨_, rfl⟩
  have hreg₂ : f₂.reg = Function.update f₁.reg .esp (f.reg .esp + 28) := by
    have hadd : u32 (f₁.reg .esp + 4 : Nat) = f.reg .esp + 28 := by
      rw [hesp₁]
      exact u32_natCast (by omega)
    rw [hf₂, ← hadd]
    rfl
  have hesp₂ : f₂.reg .esp = f.reg .esp + 28 := by rw [hreg₂, Function.update_self]
  have hmem₂ : f₂.mem = f.mem := by
    rw [hf₂]
    exact hrestored.mem
  have hcode₂ : Placed p f₂.eip (restoredSegments.map .pop ++
      [.iret, .movImm 0xFFFFFFFF .eax, .iret]) := by
    rw [hf₂]
    exact hcode₁.tail
  obtain ⟨hds, hes, hfs, hplace⟩ := hrest
  have hsegments : Holds f₂.mem (f₂.reg .esp) (slots w restoredSegments) := by
    rw [hmem₂, hesp₂, hw]
    exact ⟨hds, hes, hfs, trivial⟩
  have hextent₂ : extent (slots w restoredSegments) = 6 := rfl
  obtain ⟨f₃, hpop₂, hrestored₂⟩ := restore_comes hcode₂.left (by decide) (by decide) hsegments
    (by omega)
  have hesp₃ : f₃.reg .esp = f.reg .esp + 34 := by
    rw [hrestored₂.esp, hextent₂, hesp₂]
  have hmem₃ : f₃.mem = f.mem := hrestored₂.mem.trans hmem₂
  have hcode₃ : Placed p f₃.eip [.iret, .movImm 0xFFFFFFFF .eax, .iret] := by
    rw [hrestored₂.eip]
    exact hcode₂.right
  have hframe : Holds f₃.mem (f₃.reg .esp) [(4, eip), (4, cs), (4, eflags), (4, esp), (4, ss)] := by
    rw [hmem₃, hesp₃]
    exact hplace
  have hiret := iret_of_holds hframe
  -- the general registers are not touched by the second block, nor the segments by the first
  have hregs : ∀ r, r ≠ .esp → f₃.reg r = f₁.get (.reg r) := by
    intro r hr
    have hout : Operand.reg r ∉ restoredSegments := by simp [restoredSegments]
    refine (hrestored₂.outside (.reg r) hout (by simp [hr])).trans ?_
    show f₂.reg r = f₁.reg r
    rw [hreg₂, Function.update_of_ne hr]
  refine ⟨f₃.iret, ?_, ?_⟩
  · refine hpop.trans (comes_head hcode₁ ?_)
    rw [← hf₂]
    exact hpop₂.trans (comes_head hcode₃ (Comes.refl _))
  · have hreg : f₃.iret.reg = Function.update f₃.reg .esp esp := by rw [hiret]; rfl
    have hseg : f₃.iret.seg = Function.update (Function.update f₃.seg .ss ss) .cs cs := by
      rw [hiret]
      rfl
    refine ⟨by rw [hiret], ?_, by rw [hiret], ?_, ?_, ?_, ?_, ?_, ?_, ?_, ?_⟩
    · rw [hreg, Function.update_self]
    · rw [hseg, Function.update_self]
    · rw [hseg, Function.update_of_ne (by decide), Function.update_self]
    · rw [hreg, Function.update_of_ne (by decide), hregs .eax (by decide)]
      exact hrestored.outside (.reg .eax) (by decide) (by decide)
    · rw [hreg, Function.update_of_ne (by decide), hregs .ecx (by decide),
        hrestored.inside (.reg .ecx) (by decide), hw]
      simp
    · rw [hreg, Function.update_of_ne (by decide), hregs .edx (by decide),
        hrestored.inside (.reg .edx) (by decide), hw]
      simp
    · intro r hr
      have hne : r ≠ .esp := by rintro rfl; simp at hr
      have hin : Operand.reg r ∈ restoredRegisters := by
        revert hr
        cases r <;> decide
      rw [hreg, Function.update_of_ne hne, hregs r hne, hrestored.inside _ hin, hw]
      revert hr
      cases r <;> simp
    · intro g hg
      have hcs : g ≠ .cs := by rintro rfl; simp at hg
      have hss : g ≠ .ss := by rintro rfl; simp at hg
      have hin : Operand.seg g ∈ restoredSegments := by
        revert hg
        cases g <;> decide
      rw [hseg, Function.update_of_ne hcs, Function.update_of_ne hss]
      refine (hrestored₂.inside _ hin).trans ?_
      rw [hw]
      simp
    · rw [hiret]
      exact hmem₃

end Linkage

/-! ## The stub -/

/-- The stack of the program, from the saved `%ebx` to the third argument, and the kernel stack of
the call. -/
structure Stacks (p : Platform) (s : Cpu) : Prop where
  user_room : 4 ≤ s.reg .esp
  user_top : s.reg .esp + 16 < 4294967296
  kernel_room : 58 ≤ p.kernelEsp
  kernel_top : p.kernelEsp < 4294967296
  disjoint : s.reg .esp + 16 ≤ p.kernelEsp - 58 ∨ p.kernelEsp ≤ s.reg .esp - 4

/-- What a program hands to the function of a system call. -/
structure Serves (p : Platform) (s : Cpu) (number : Nat) (c : Cpu) : Prop where
  eip : c.eip = p.table (number - 1)
  esp : c.reg .esp = p.kernelEsp - 58
  arguments : ∀ i < 3,
    load c.mem 4 (c.reg .esp + 4 + 4 * i) = load s.mem 4 (s.reg .esp + 4 + 4 * i)
  interrupts : c.eflags.testBit interrupt = true
  mem : ∀ b, b < p.kernelEsp - 58 ∨ p.kernelEsp ≤ b → b < s.reg .esp - 4 ∨ s.reg .esp ≤ b →
    c.mem b = s.mem b

/-- What the function must leave alone: the kernel stack above its three arguments, and the saved
`%ebx` and the return address of the program. -/
def Kept (p : Platform) (s : Cpu) (b : Nat) : Prop :=
  (p.kernelEsp - 42 ≤ b ∧ b < p.kernelEsp) ∨ (s.reg .esp - 4 ≤ b ∧ b < s.reg .esp + 4)

/-- The program goes on behind its call: the result is that of the function, and the memory too.
`%ecx` and `%edx` are what the function has left in the places of its second and third argument. -/
structure Returns (s f s' : Cpu) : Prop where
  eip : s'.eip = load s.mem 4 (s.reg .esp)
  esp : s'.reg .esp = s.reg .esp + 4
  eax : s'.reg .eax = f.reg .eax
  ecx : s'.reg .ecx = load f.mem 4 (f.reg .esp + 4)
  edx : s'.reg .edx = load f.mem 4 (f.reg .esp + 8)
  saved : ∀ r ∈ [Reg.ebx, .esi, .edi, .ebp], s'.reg r = s.reg r
  seg : s'.seg = s.seg
  eflags : s'.eflags = s.eflags
  mem : s'.mem = f.mem

section Stub

variable {p : Platform} {number : Nat} {s : Cpu}

/-- The trap of a stub. -/
structure Requested (p : Platform) (s t : Cpu) (number : Nat) : Prop where
  eip : t.eip = p.gate 0x80
  esp : t.reg .esp = p.kernelEsp - 20
  eax : t.reg .eax = number
  ebx : t.reg .ebx = load s.mem 4 (s.reg .esp + 4)
  ecx : t.reg .ecx = load s.mem 4 (s.reg .esp + 8)
  edx : t.reg .edx = load s.mem 4 (s.reg .esp + 12)
  reg : ∀ r ∈ [Reg.esi, .edi, .ebp], t.reg r = s.reg r
  seg : ∀ g, g ≠ .cs → g ≠ .ss → t.seg g = s.seg g
  place : Holds t.mem (t.reg .esp)
    [(4, s.eip + 6), (4, s.seg .cs), (4, s.eflags), (4, s.reg .esp - 4), (4, s.seg .ss)]
  stack : Holds t.mem (s.reg .esp - 4) [(4, s.reg .ebx), (4, load s.mem 4 (s.reg .esp))]
  mem : ∀ b, b < p.kernelEsp - 20 ∨ p.kernelEsp ≤ b → b < s.reg .esp - 4 ∨ s.reg .esp ≤ b →
    t.mem b = s.mem b

theorem stub_comes (hcode : Placed p s.eip (doCall number)) (hsized : WellSized s)
    (heip : s.eip + 8 < 256 ^ 4) (hstacks : Stacks p s) (hnumber : number ≤ 10) :
    ∃ t, Comes (step p) s t ∧ Requested p s t number := by
  have huser := hstacks.user_room
  have htop := hstacks.user_top
  have hkernel := hstacks.kernel_room
  obtain ⟨s₁, hs₁⟩ : ∃ s₁, s₁ = exec p s (.push (.reg .ebx)) := ⟨_, rfl⟩
  have hsaved : Saved s s₁ [.reg .ebx] := by
    rw [hs₁]
    exact saved_push (o := .reg .ebx) huser (hsized.reg .esp) (hsized.reg .ebx)
  have hesp₁ : s₁.reg .esp = s.reg .esp - 4 := by
    rw [hsaved.reg, Function.update_self]
    rfl
  have hload : ∀ offset, load s₁.mem 4 (s₁.reg .esp + (offset + 4)) =
      load s.mem 4 (s.reg .esp + offset) := by
    intro offset
    have haddr : s₁.reg .esp + (offset + 4) = s.reg .esp + offset := by omega
    rw [haddr]
    exact load_congr fun b hb _ => hsaved.mem b (Or.inr (by omega))
  obtain ⟨s₂, hs₂⟩ : ∃ s₂ : Cpu, s₂ = { s₁ with
      eip := s.eip + 5
      reg := Function.update (Function.update (Function.update (Function.update s₁.reg .eax number)
        .ebx (load s.mem 4 (s.reg .esp + 4))) .ecx (load s.mem 4 (s.reg .esp + 8)))
        .edx (load s.mem 4 (s.reg .esp + 12)) } := ⟨_, rfl⟩
  have hcode₁ : Placed p s₁.eip [.movImm number .eax, .movStack 8 .ebx, .movStack 12 .ecx,
      .movStack 16 .edx, .int 0x80, .pop (.reg .ebx), .ret] := by
    rw [hsaved.eip]
    exact hcode.tail
  have hloaded : exec p (exec p (exec p (exec p s₁ (.movImm number .eax)) (.movStack 8 .ebx))
      (.movStack 12 .ecx)) (.movStack 16 .edx) = s₂ := by
    have h8 : load s₁.mem 4 (s₁.reg .esp + 8) = load s.mem 4 (s.reg .esp + 4) := hload 4
    have h12 : load s₁.mem 4 (s₁.reg .esp + 12) = load s.mem 4 (s.reg .esp + 8) := hload 8
    have h16 : load s₁.mem 4 (s₁.reg .esp + 16) = load s.mem 4 (s.reg .esp + 12) := hload 12
    rw [hs₂]
    simp [exec, Cpu.next, Cpu.setReg, h8, h12, h16, hsaved.eip]
  have heip₂ : s₂.eip = s.eip + 5 := by rw [hs₂]
  have hcode₂ : Placed p s₂.eip [.int 0x80, .pop (.reg .ebx), .ret] := by
    rw [heip₂]
    exact hcode.tail.tail.tail.tail.tail
  have hmem₂ : s₂.mem = s₁.mem := by rw [hs₂]
  have hseg₂ : s₂.seg = s.seg := by
    rw [hs₂]
    exact hsaved.seg
  have heflags₂ : s₂.eflags = s.eflags := by
    rw [hs₂]
    exact hsaved.eflags
  have hesp₂ : s₂.reg .esp = s.reg .esp - 4 := by
    rw [← hesp₁, hs₂]
    simp
  have hsized₂ : WellSized s₂ := by
    have hload_lt : ∀ a, load s.mem 4 a < 256 ^ 4 := fun a => load_lt s.mem 4 a
    refine ⟨?_, ?_, ?_, ?_⟩
    · intro r
      have hother : s₁.reg r < 256 ^ 4 := by
        rw [hsaved.reg, Function.update_apply]
        split_ifs
        · exact Nat.lt_of_le_of_lt (Nat.sub_le _ _) (hsized.reg .esp)
        · exact hsized.reg r
      rw [hs₂]
      simp only [Function.update_apply]
      split_ifs
      · exact hload_lt _
      · exact hload_lt _
      · exact hload_lt _
      · exact Nat.lt_of_le_of_lt hnumber (by decide)
      · exact hother
    · rw [hseg₂]
      exact hsized.seg
    · rw [heflags₂]
      exact hsized.eflags
    · rw [heip₂]
      omega
  have htrapped := trap_trapped (p := p) hsized₂ (by omega) hstacks.kernel_top 0x80
  refine ⟨s₂.trap p 0x80, ?_, ?_⟩
  · refine comes_head hcode ?_
    rw [← hs₁]
    refine comes_head hcode₁ (comes_head hcode₁.tail (comes_head hcode₁.tail.tail
      (comes_head hcode₁.tail.tail.tail ?_)))
    rw [hloaded]
    exact comes_head hcode₂ (Comes.refl _)
  · have hreg : ∀ r, r ≠ .esp → (s₂.trap p 0x80).reg r = s₂.reg r := by
      intro r hr
      rw [htrapped.reg, Function.update_of_ne hr]
    have hplace := htrapped.holds
    rw [heip₂, hseg₂, heflags₂, hesp₂] at hplace
    have hesp : (s₂.trap p 0x80).reg .esp = p.kernelEsp - 20 := by
      rw [htrapped.reg, Function.update_self]
    have hstack : Holds s₁.mem (s.reg .esp - 4) [(4, s.reg .ebx), (4, load s.mem 4 (s.reg .esp))] := by
      have hholds := hsaved.holds [(4, load s.mem 4 (s.reg .esp))] ⟨rfl, trivial⟩
      rwa [hesp₁] at hholds
    have hdisjoint := hstacks.disjoint
    refine ⟨htrapped.eip, hesp, ?_, ?_, ?_, ?_, ?_, ?_, ?_, ?_, ?_⟩
    · rw [hreg _ (by decide), hs₂]
      simp
    · rw [hreg _ (by decide), hs₂]
      simp
    · rw [hreg _ (by decide), hs₂]
      simp
    · rw [hreg _ (by decide), hs₂]
      simp
    · intro r hr
      have hne : r ≠ .esp := by rintro rfl; simp at hr
      have hsame : s₁.reg r = s.reg r := by rw [hsaved.reg, Function.update_of_ne hne]
      rw [hreg r hne, hs₂, ← hsame]
      revert hr
      cases r <;> simp
    · intro g hcs hss
      rw [htrapped.seg g hcs hss, hseg₂]
    · rw [hesp]
      exact hplace
    · refine hstack.congr fun b hb hb' => ?_
      have hextent : extent [(4, s.reg .ebx), (4, load s.mem 4 (s.reg .esp))] = 8 := rfl
      rw [htrapped.mem b (by omega), hmem₂]
    · intro b hb hb'
      rw [htrapped.mem b hb, hmem₂]
      exact hsaved.mem b (by omega)

/-- Everything in the registers has the size of a register when the trap of the stub comes to the
linkage. -/
theorem Requested.wellSized {t : Cpu} (h : Requested p s t number) (hsized : WellSized s)
    (hnumber : number ≤ 10) (htop : p.kernelEsp < 4294967296) :
    (∀ r, t.reg r < 256 ^ 4) ∧ ∀ g, g ≠ .cs → g ≠ .ss → t.seg g < 256 ^ 2 := by
  refine ⟨fun r => ?_, fun g hcs hss => ?_⟩
  · cases r with
    | eax => exact h.eax ▸ Nat.lt_of_le_of_lt hnumber (by decide)
    | ebx => exact h.ebx ▸ load_lt _ _ _
    | ecx => exact h.ecx ▸ load_lt _ _ _
    | edx => exact h.edx ▸ load_lt _ _ _
    | esi => exact h.reg .esi (by decide) ▸ hsized.reg .esi
    | edi => exact h.reg .edi (by decide) ▸ hsized.reg .edi
    | ebp => exact h.reg .ebp (by decide) ▸ hsized.reg .ebp
    | esp => exact h.esp ▸ Nat.lt_of_le_of_lt (Nat.sub_le _ _) htop
  · rw [h.seg g hcs hss]
    exact hsized.seg g

/-- The function that the linkage calls for a stub serves the program. -/
theorem Called.serves {t c : Cpu} (hcalled : Called p t c) (hreq : Requested p s t number)
    (hkernel : 58 ≤ p.kernelEsp) : Serves p s number c := by
  have hesp_t := hreq.esp
  have hesp_c := hcalled.esp
  obtain ⟨-, hebx, hecx, hedx, -⟩ := hcalled.holds _ hreq.place
  refine ⟨?_, by omega, ?_, hcalled.interrupts, ?_⟩
  · rw [hcalled.eip, hreq.eax]
  · intro i hi
    match i, hi with
    | 0, _ => exact hebx.trans hreq.ebx
    | 1, _ => exact hecx.trans hreq.ecx
    | 2, _ => exact hedx.trans hreq.edx
  · intro b hb hb'
    rw [hcalled.mem b (by omega)]
    exact hreq.mem b (by omega) hb'

/-- The end of a stub, with the saved `%ebx` and the return address on the stack. -/
theorem stub_end_comes {r : Cpu} {ebx eip : Nat} (hcode : Placed p r.eip [.pop (.reg .ebx), .ret])
    (hstack : Holds r.mem (r.reg .esp) [(4, ebx), (4, eip)])
    (hroom : r.reg .esp + 8 < 4294967296) :
    ∃ s', Comes (step p) r s' ∧ s'.eip = eip ∧
      s'.reg = Function.update (Function.update r.reg .ebx ebx) .esp (r.reg .esp + 8) ∧
      s'.seg = r.seg ∧ s'.eflags = r.eflags ∧ s'.mem = r.mem := by
  obtain ⟨hebx, heip, -⟩ := hstack
  have hpopped : u32 (r.reg .esp + 4 : Nat) = r.reg .esp + 4 := u32_natCast (by omega)
  obtain ⟨u, hu⟩ : ∃ u, u = exec p r (.pop (.reg .ebx)) := ⟨_, rfl⟩
  have hreg_u : u.reg = Function.update (Function.update r.reg .esp (r.reg .esp + 4)) .ebx ebx := by
    rw [hu, ← hebx, ← hpopped]
    rfl
  have hesp_u : u.reg .esp = r.reg .esp + 4 := by
    rw [hreg_u, Function.update_of_ne (by decide), Function.update_self]
  have hmem_u : u.mem = r.mem := by rw [hu]; rfl
  have hcode_u : Placed p u.eip [.ret] := by
    rw [hu]
    exact hcode.tail
  have hdropped : u32 (u.reg .esp + 4 : Nat) = r.reg .esp + 8 := by
    rw [hesp_u]
    exact u32_natCast (by omega)
  refine ⟨exec p u .ret, ?_, ?_, ?_, ?_, ?_, ?_⟩
  · refine comes_head hcode ?_
    rw [← hu]
    exact comes_head hcode_u (Comes.refl _)
  · show load u.mem 4 (u.reg .esp) = eip
    rw [hmem_u, hesp_u]
    exact heip
  · have hreg : (exec p u .ret).reg = Function.update u.reg .esp (r.reg .esp + 8) := by
      rw [← hdropped]
      rfl
    rw [hreg, hreg_u]
    funext q
    cases q <;> simp
  · rw [hu]
    rfl
  · rw [hu]
    rfl
  · exact hmem_u

/-- The linkage and the stub bring a function that returns back to the program. -/
theorem Called.returns {t c f : Cpu} (hcalled : Called p t c) (hreq : Requested p s t number)
    (hstacks : Stacks p s) (hlinkage : Placed p t.eip (systemCallsLinkage t.eip))
    (hcode : Placed p s.eip (doCall number)) (hfunction : Cdecl c f (Kept p s)) :
    ∃ s', Comes (step p) f s' ∧ Returns s f s' := by
  have huser := hstacks.user_room
  have htop := hstacks.user_top
  have hkernel := hstacks.kernel_room
  have hktop := hstacks.kernel_top
  have hdisjoint := hstacks.disjoint
  have hesp_t := hreq.esp
  have hesp_c := hcalled.esp
  have hesp_f := hfunction.esp
  have hkept := hfunction.mem
  obtain ⟨hret, -, -, -, hrest⟩ := hcalled.holds _ hreq.place
  have hcode_f : Placed p f.eip afterCall := by
    rw [hfunction.eip, hret]
    exact hlinkage.right.right.tail.tail
  -- the kernel stack above the arguments
  have hholds : Holds f.mem (f.reg .esp + 12)
      [(4, t.reg .esi), (4, t.reg .edi), (4, t.reg .ebp), (4, t.reg .eax - 1), (2, t.seg .ds),
        (2, t.seg .es), (2, t.seg .fs), (4, s.eip + 6), (4, s.seg .cs), (4, s.eflags),
        (4, s.reg .esp - 4), (4, s.seg .ss)] := by
    have haddr : f.reg .esp + 12 = c.reg .esp + 4 + 4 + 4 + 4 := by omega
    rw [haddr]
    refine Holds.congr hrest fun b hb hb' => hkept b (Or.inl ?_)
    have hextent : extent [(4, t.reg .esi), (4, t.reg .edi), (4, t.reg .ebp), (4, t.reg .eax - 1),
        (2, t.seg .ds), (2, t.seg .es), (2, t.seg .fs), (4, s.eip + 6), (4, s.seg .cs),
        (4, s.eflags), (4, s.reg .esp - 4), (4, s.seg .ss)] = 42 := rfl
    have hb'' : b < c.reg .esp + 4 + 4 + 4 + 4 + 42 := hb'
    omega
  obtain ⟨r, hleave, hresumed⟩ := @leave_comes p f t.get _ _ _ _ _ _ hcode_f (by omega) hholds
  have hcode_r : Placed p r.eip [.pop (.reg .ebx), .ret] := by
    rw [hresumed.eip]
    exact hcode.tail.tail.tail.tail.tail.tail
  have hesp_r := hresumed.esp
  -- the frame of the program
  have hstack : Holds r.mem (r.reg .esp) [(4, s.reg .ebx), (4, load s.mem 4 (s.reg .esp))] := by
    rw [hresumed.mem, hesp_r]
    refine hreq.stack.congr fun b hb hb' => ?_
    have hb'' : b < s.reg .esp - 4 + 8 := hb'
    rw [hkept b (Or.inr (by omega)), hcalled.mem b (by omega)]
  obtain ⟨s', hend, heip, hreg, hseg, heflags, hmem⟩ := stub_end_comes hcode_r hstack (by omega)
  have hother : ∀ q, q ≠ .esp → q ≠ .ebx → s'.reg q = r.reg q := by
    intro q hsp hbx
    rw [hreg, Function.update_of_ne hsp, Function.update_of_ne hbx]
  refine ⟨s', hleave.trans hend, heip, ?_, ?_, ?_, ?_, ?_, ?_, ?_, ?_⟩
  · rw [hreg, Function.update_self]
    omega
  · exact (hother .eax (by decide) (by decide)).trans hresumed.eax
  · exact (hother .ecx (by decide) (by decide)).trans hresumed.ecx
  · exact (hother .edx (by decide) (by decide)).trans hresumed.edx
  · intro q hq
    have hsp : q ≠ .esp := by rintro rfl; simp at hq
    by_cases hbx : q = .ebx
    · rw [hbx, hreg, Function.update_of_ne (by decide), Function.update_self]
    · have hq' : q ∈ [Reg.esi, .edi, .ebp] := by simpa [hbx] using hq
      rw [hother q hsp hbx, ← hreq.reg q hq']
      exact hresumed.reg q hq'
  · rw [hseg]
    funext g
    cases g with
    | cs => exact hresumed.cs
    | ss => exact hresumed.ss
    | ds => exact (hresumed.seg .ds (by decide)).trans (hreq.seg .ds (by decide) (by decide))
    | es => exact (hresumed.seg .es (by decide)).trans (hreq.seg .es (by decide) (by decide))
    | fs => exact (hresumed.seg .fs (by decide)).trans (hreq.seg .fs (by decide) (by decide))
  · exact heflags.trans hresumed.eflags
  · exact hmem.trans hresumed.mem

/-- **The path of a system call.** A program that calls the stub of a number between 1 and 10 gets
to the function of that number, on the kernel stack, with interrupts on and with its own three
arguments. Whenever the function, as a C function that may change its arguments, returns from there
and has left the rest of the kernel stack and the program's own frame alone, the program goes on
behind its call with the result of the function, with the registers that are its own and with its
flags. -/
theorem system_call_path {linkage : Nat} (hlinkage : Placed p linkage (systemCallsLinkage linkage))
    (hgate : p.gate 0x80 = linkage) (haddr : linkage + 17 < 256 ^ 4)
    (hcode : Placed p s.eip (doCall number)) (heip : s.eip + 8 < 256 ^ 4)
    (h1 : 1 ≤ number) (h10 : number ≤ 10) (hsized : WellSized s) (hstacks : Stacks p s) :
    ∃ c, Comes (step p) s c ∧ Serves p s number c ∧
      ∀ f, Comes (step p) c f → Cdecl c f (Kept p s) →
        ∃ s', Comes (step p) s s' ∧ Returns s f s' := by
  have hkernel := hstacks.kernel_room
  obtain ⟨t, hstub, hreq⟩ := stub_comes hcode hsized heip hstacks h10
  have heip_t : t.eip = linkage := hreq.eip.trans hgate
  have hlinkage_t : Placed p t.eip (systemCallsLinkage t.eip) := by rwa [heip_t]
  have heax := hreq.eax
  have hesp := hreq.esp
  obtain ⟨hreg, hseg⟩ := hreq.wellSized hsized h10 hstacks.kernel_top
  obtain ⟨c, henter, hcalled⟩ := enter_comes hlinkage_t (by omega) (by omega) hreg hseg (by omega)
    (by omega)
  refine ⟨c, hstub.trans henter, hcalled.serves hreq hkernel, fun f hruns hfunction => ?_⟩
  obtain ⟨s', hback, hreturns⟩ := hcalled.returns hreq hstacks hlinkage_t hcode hfunction
  exact ⟨s', hstub.trans (henter.trans (hruns.trans hback)), hreturns⟩

/-- A number outside the table goes to no function: the trap returns -1 at once. -/
theorem invalid_number_refused {linkage : Nat}
    (hlinkage : Placed p linkage (systemCallsLinkage linkage)) (hgate : p.gate 0x80 = linkage)
    (hcode : Placed p s.eip [.int 0x80]) (hnumber : s.reg .eax = 0 ∨ 11 ≤ s.reg .eax)
    (hsized : WellSized s) (hroom : 20 ≤ p.kernelEsp) (htop : p.kernelEsp < 4294967296) :
    ∃ s', Comes (step p) s s' ∧ s'.reg = Function.update s.reg .eax 0xFFFFFFFF ∧ s'.seg = s.seg ∧
      s'.eflags = s.eflags ∧ s'.eip = s.eip + 1 ∧
      ∀ b, b < p.kernelEsp - 20 ∨ p.kernelEsp ≤ b → s'.mem b = s.mem b := by
  have htrapped := trap_trapped (p := p) hsized hroom htop 0x80
  obtain ⟨t, ht⟩ : ∃ t, t = s.trap p 0x80 := ⟨_, rfl⟩
  rw [← ht] at htrapped
  have heip_t : t.eip = linkage := htrapped.eip.trans hgate
  have heax_t : t.reg .eax = s.reg .eax := by
    rw [htrapped.reg, Function.update_of_ne (by decide)]
  have hcheck : Placed p t.eip (checkNumber linkage) := by
    rw [heip_t]
    exact hlinkage.left
  obtain ⟨flags, hrefuse⟩ := refuse_comes hcheck (by rwa [heax_t])
  obtain ⟨t₁, ht₁⟩ : ∃ t₁ : Cpu, t₁ = { t with eip := systemError linkage, eflags := flags } :=
    ⟨_, rfl⟩
  have hcode₁ : Placed p t₁.eip [.movImm 0xFFFFFFFF .eax, .iret] := by
    rw [ht₁]
    exact hlinkage.right.right.tail.tail.right.tail.right.tail
  obtain ⟨t₂, ht₂⟩ : ∃ t₂ : Cpu, t₂ = t₁.next.setReg .eax 0xFFFFFFFF := ⟨_, rfl⟩
  have hcode₂ : Placed p t₂.eip [.iret] := by
    rw [ht₂]
    exact hcode₁.tail
  have hreg₂ : t₂.reg = Function.update t.reg .eax 0xFFFFFFFF := by
    rw [ht₂, ht₁]
    rfl
  have hseg₂ : t₂.seg = t.seg := by
    rw [ht₂, ht₁]
    rfl
  have hmem₂ : t₂.mem = t.mem := by
    rw [ht₂, ht₁]
    rfl
  have hesp₂ : t₂.reg .esp = p.kernelEsp - 20 := by
    rw [hreg₂, Function.update_of_ne (by decide), htrapped.reg, Function.update_self]
  have hiret := iret_of_holds (s := t₂) (by rw [hmem₂, hesp₂]; exact htrapped.holds)
  refine ⟨t₂.iret, ?_, ?_, ?_, ?_, ?_, ?_⟩
  · refine comes_head hcode ?_
    have hint : exec p s (.int 0x80) = t := ht.symm
    rw [hint]
    refine hrefuse.trans ?_
    rw [← ht₁]
    refine comes_head hcode₁ ?_
    have hmov : exec p t₁ (.movImm 0xFFFFFFFF .eax) = t₂ := ht₂.symm
    rw [hmov]
    exact comes_head hcode₂ (Comes.refl _)
  · have hreg : t₂.iret.reg = Function.update t₂.reg .esp (s.reg .esp) := by rw [hiret]; rfl
    rw [hreg, hreg₂, htrapped.reg]
    funext r
    cases r <;> simp
  · have hseg : t₂.iret.seg =
        Function.update (Function.update t₂.seg .ss (s.seg .ss)) .cs (s.seg .cs) := by
      rw [hiret]
      rfl
    rw [hseg, hseg₂]
    funext g
    cases g with
    | cs => simp
    | ss => simp
    | ds => simpa using htrapped.seg .ds (by decide) (by decide)
    | es => simpa using htrapped.seg .es (by decide) (by decide)
    | fs => simpa using htrapped.seg .fs (by decide) (by decide)
  · rw [hiret]
  · rw [hiret]
  · intro b hb
    rw [hiret]
    show t₂.mem b = s.mem b
    rw [hmem₂]
    exact htrapped.mem b hb

end Stub

/-! ## A call -/

/-- A function that returns the number of its table entry and clears its first argument; the functions
lie behind each other. -/
def clearingFunction (functions : Nat) (c : Cpu) : Cpu :=
  { (c.setReg .esp (c.reg .esp + 4)).setReg .eax (c.eip - functions) with
    eip := load c.mem 4 (c.reg .esp)
    mem := X86.store c.mem 4 (c.reg .esp + 4) 0 }

/-- The stub of `write` at 128 MB, and the linkage and the functions in the kernel page. -/
def samplePlatform : Platform where
  code a :=
    if 0x08000000 ≤ a then (doCall 4)[a - 0x08000000]?
    else (systemCallsLinkage 0x00400000)[a - 0x00400000]?
  other := clearingFunction 0x00500000
  table i := 0x00500000 + i
  kernelEsp := 0x007FE000
  kernelSs := 0x18
  kernelCs := 0x10
  gate _ := 0x00400000

/-- A program about to call the stub. -/
def sampleCaller : Cpu where
  reg r := if r = .esp then 0x08300000 else 5
  seg _ := 0x2B
  eflags := 0x202
  eip := 0x08000000
  mem a := UInt8.ofNat a

theorem clearingFunction_cdecl {c : Cpu} {number : Nat}
    (h : Serves samplePlatform sampleCaller number c) (functions : Nat) :
    Cdecl c (clearingFunction functions c) (Kept samplePlatform sampleCaller) := by
  have hesp : c.reg .esp = 0x007FDFC6 := h.esp
  refine ⟨rfl, ?_, ?_, rfl, ?_⟩
  · simp [clearingFunction]
  · intro r hr
    revert hr
    cases r <;> simp [clearingFunction]
  · rintro b (⟨hlo, hhi⟩ | ⟨hlo, hhi⟩)
    · have hlo' : 0x007FDFD6 ≤ b := hlo
      exact store_outside _ (by omega)
    · have hlo' : 0x082FFFFC ≤ b := hlo
      exact store_outside _ (by omega)

theorem placed_linkage : Placed samplePlatform 0x00400000 (systemCallsLinkage 0x00400000) := by
  intro i hi
  have hlength : i < 30 := hi
  show (if _ then _ else _) = _
  rw [if_neg (by omega), Nat.add_sub_cancel_left]
  exact List.getElem?_eq_getElem hi

theorem placed_stub : Placed samplePlatform 0x08000000 (doCall 4) := by
  intro i hi
  show (if _ then _ else _) = _
  rw [if_pos (Nat.le_add_right _ _), Nat.add_sub_cancel_left]
  exact List.getElem?_eq_getElem hi

theorem wellSized_sampleCaller : WellSized sampleCaller := by
  refine ⟨?_, fun _ => (by decide : 0x2B < 256 ^ 2), by decide, by decide⟩
  intro r
  cases r <;> decide

theorem system_call_path_write : ∃ s', Comes (step samplePlatform) sampleCaller s' ∧
    s'.reg .eax = 3 ∧ s'.reg .ebx = 5 := by
  obtain ⟨c, -, hserves, hreturn⟩ := system_call_path (s := sampleCaller) placed_linkage rfl
    (by decide) placed_stub (by decide) (by decide) (by decide) wellSized_sampleCaller
    ⟨by decide, by decide, by decide, by decide, Or.inr (by decide)⟩
  have heip : c.eip = 0x00500003 := hserves.eip
  have hcode : samplePlatform.code c.eip = none := by
    rw [heip]
    rfl
  have hruns : Comes (step samplePlatform) c (clearingFunction 0x00500000 c) := by
    refine Comes.head ?_
    rw [step, hcode]
    exact Comes.refl _
  obtain ⟨s', hcomes, hreturns⟩ := hreturn _ hruns (clearingFunction_cdecl hserves 0x00500000)
  refine ⟨s', hcomes, ?_, ?_⟩
  · rw [hreturns.eax]
    simp [clearingFunction, heip]
  · rw [hreturns.saved .ebx (by decide)]
    rfl

/-- A program that traps with the number 5000. -/
def strayCaller : Cpu := { sampleCaller.setReg .eax 5000 with eip := 0x08000005 }

theorem invalid_number_refused_stray : ∃ s', Comes (step samplePlatform) strayCaller s' ∧
    s'.reg = Function.update strayCaller.reg .eax 0xFFFFFFFF := by
  have hcode : Placed samplePlatform strayCaller.eip [.int 0x80] := by
    intro i hi
    obtain rfl : i = 0 := Nat.lt_one_iff.mp hi
    rfl
  have hsized : WellSized strayCaller := by
    refine ⟨?_, fun _ => (by decide : 0x2B < 256 ^ 2), by decide, by decide⟩
    intro r
    cases r <;> decide
  obtain ⟨s', hcomes, hreg, -⟩ := invalid_number_refused placed_linkage rfl hcode
    (Or.inr (by decide)) hsized (by decide) (by decide)
  exact ⟨s', hcomes, hreg⟩

end LinuxBasedOS.Process
