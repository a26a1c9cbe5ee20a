import LinuxBasedOS.Base.Stores
import LinuxBasedOS.Base.Transition
import LinuxBasedOS.Base.Word
import Mathlib.Tactic.Ring

/-!
# Calls, traps and the stack of an x86 processor

The instructions by which code saves registers, calls functions and goes to the kernel and back,
on registers of 32 bits and a memory of bytes. Of the flags only those exist that a jump reads, and
each instruction takes one address of the code.

`Holds` says what is on the stack from an address on, value by value. Saving registers puts their
values there, restoring them takes the values off, and what happens in between only has to leave
the bytes of the stack alone.
-/

namespace X86

open Word Transition

inductive Reg where
  | eax | ebx | ecx | edx | esi | edi | ebp | esp
  deriving DecidableEq, Repr

inductive Seg where
  | cs | ds | es | fs | ss
  deriving DecidableEq, Repr

inductive Operand where
  | reg (r : Reg)
  | seg (g : Seg)
  deriving DecidableEq, Repr

/-- `pushl` and `popl` move four bytes, `pushw` and `popw` two. -/
def Operand.size : Operand → Nat
  | .reg _ => 4
  | .seg _ => 2

structure Cpu where
  reg : Reg → Nat
  seg : Seg → Nat
  eflags : Nat
  eip : Nat
  mem : Nat → UInt8

/-! ## Memory -/

/-- The number in `n` bytes, the lowest first. -/
def load (mem : Nat → UInt8) : Nat → Nat → Nat
  | 0, _ => 0
  | n + 1, a => (mem a).toNat + 256 * load mem n (a + 1)

theorem load_lt (mem : Nat → UInt8) (n a : Nat) : load mem n a < 256 ^ n := by
  induction n generalizing a with
  | zero => exact Nat.one_pos
  | succ n ih =>
    have hbyte := (mem a).toNat_lt
    have hrest := ih (a + 1)
    have hpow : 256 ^ (n + 1) = 256 * 256 ^ n := by ring
    rw [load, hpow]
    omega

def bytes : Nat → Nat → List UInt8
  | 0, _ => []
  | n + 1, w => UInt8.ofNat w :: bytes n (w / 256)

def store (mem : Nat → UInt8) (n a w : Nat) : Nat → UInt8 := Stores.place mem a (bytes n w)

@[simp] theorem length_bytes (n w : Nat) : (bytes n w).length = n := by
  induction n generalizing w with
  | zero => rfl
  | succ n ih => rw [bytes, List.length_cons, ih]

theorem load_congr {mem mem' : Nat → UInt8} {n a : Nat} (h : ∀ b, a ≤ b → b < a + n → mem b = mem' b) :
    load mem n a = load mem' n a := by
  induction n generalizing a with
  | zero => rfl
  | succ n ih =>
    rw [load, load, h a (Nat.le_refl a) (by omega), ih fun b hb hb' => h b (by omega) (by omega)]

theorem store_outside (mem : Nat → UInt8) {n a w b : Nat} (h : b < a ∨ a + n ≤ b) :
    store mem n a w b = mem b := by
  refine Stores.place_outside mem ?_
  rwa [length_bytes]

theorem load_store (mem : Nat → UInt8) {n a w : Nat} (h : w < 256 ^ n) :
    load (store mem n a w) n a = w := by
  induction n generalizing mem a w with
  | zero => exact (Nat.lt_one_iff.mp h).symm
  | succ n ih =>
    have hrest : w / 256 < 256 ^ n := Nat.div_lt_of_lt_mul (by rwa [pow_succ, Nat.mul_comm] at h)
    have hcons : store mem (n + 1) a w =
        store (Function.update mem a (UInt8.ofNat w)) n (a + 1) (w / 256) :=
      Stores.place_cons mem a _ _
    have hfirst : (UInt8.ofNat w).toNat = w % 256 := UInt8.toNat_ofNat'
    rw [hcons, load, ih _ hrest, store_outside _ (Or.inl (Nat.lt_succ_self a)),
      Function.update_self, hfirst]
    exact Nat.mod_add_div w 256

/-! ## The stack -/

/-- The values on the stack from an address on, each with its size. -/
def Holds (mem : Nat → UInt8) : Nat → List (Nat × Nat) → Prop
  | _, [] => True
  | a, (n, w) :: vals => load mem n a = w ∧ Holds mem (a + n) vals

/-- The bytes that values take. -/
def extent : List (Nat × Nat) → Nat
  | [] => 0
  | (n, _) :: vals => n + extent vals

theorem extent_append (vals vals' : List (Nat × Nat)) :
    extent (vals ++ vals') = extent vals + extent vals' := by
  induction vals with
  | nil => exact (Nat.zero_add _).symm
  | cons v vals ih => rw [List.cons_append, extent, extent, ih, Nat.add_assoc]

theorem Holds.congr {mem mem' : Nat → UInt8} {a : Nat} {vals : List (Nat × Nat)}
    (h : Holds mem a vals) (hsame : ∀ b, a ≤ b → b < a + extent vals → mem' b = mem b) :
    Holds mem' a vals := by
  induction vals generalizing a with
  | nil => trivial
  | cons v vals ih =>
    obtain ⟨n, w⟩ := v
    have hextent : extent ((n, w) :: vals) = n + extent vals := rfl
    refine ⟨(load_congr fun b hb hb' => hsame b hb (by omega)).trans h.1, ih h.2 ?_⟩
    intro b hb hb'
    exact hsame b (by omega) (by omega)

theorem Holds.push {mem : Nat → UInt8} {a n w : Nat} {vals : List (Nat × Nat)}
    (h : Holds mem (a + n) vals) (hw : w < 256 ^ n) :
    Holds (store mem n a w) a ((n, w) :: vals) :=
  ⟨load_store mem hw, h.congr fun _ hb _ => store_outside mem (Or.inr hb)⟩

/-! ## Registers -/

def Cpu.setReg (s : Cpu) (r : Reg) (w : Nat) : Cpu := { s with reg := Function.update s.reg r w }

def Cpu.setSeg (s : Cpu) (g : Seg) (w : Nat) : Cpu := { s with seg := Function.update s.seg g w }

def Cpu.get (s : Cpu) : Operand → Nat
  | .reg r => s.reg r
  | .seg g => s.seg g

def Cpu.set (s : Cpu) (o : Operand) (w : Nat) : Cpu :=
  match o with
  | .reg r => s.setReg r w
  | .seg g => s.setSeg g w

@[simp] theorem setReg_reg (s : Cpu) (r : Reg) (w : Nat) :
    (s.setReg r w).reg = Function.update s.reg r w := rfl

@[simp] theorem setReg_seg (s : Cpu) (r : Reg) (w : Nat) : (s.setReg r w).seg = s.seg := rfl

@[simp] theorem setSeg_reg (s : Cpu) (g : Seg) (w : Nat) : (s.setSeg g w).reg = s.reg := rfl

@[simp] theorem setSeg_seg (s : Cpu) (g : Seg) (w : Nat) :
    (s.setSeg g w).seg = Function.update s.seg g w := rfl

def Cpu.next (s : Cpu) : Cpu := { s with eip := s.eip + 1 }

/-- `n` bytes on the stack. -/
def Cpu.push (s : Cpu) (n w : Nat) : Cpu :=
  { s.setReg .esp (u32 ((s.reg .esp : Int) - n)) with
    mem := store s.mem n (u32 ((s.reg .esp : Int) - n)) w }

@[simp] theorem push_reg (s : Cpu) (n w : Nat) :
    (s.push n w).reg = Function.update s.reg .esp (u32 ((s.reg .esp : Int) - n)) := rfl

/-- Values on the stack, in order, each with its size. -/
def Cpu.pushAll (s : Cpu) (vals : List (Nat × Nat)) : Cpu := vals.foldl (fun s v => s.push v.1 v.2) s

/-- `n` bytes off the stack. -/
def Cpu.drop (s : Cpu) (n : Nat) : Cpu := s.setReg .esp (u32 (s.reg .esp + n : Nat))

/-- The word with one bit set or cleared. -/
def setBit (w i : Nat) (b : Bool) : Nat := if w.testBit i = b then w else w ^^^ 2 ^ i

theorem testBit_setBit (w i j : Nat) (b : Bool) :
    (setBit w i b).testBit j = if i = j then b else w.testBit j := by
  unfold setBit
  by_cases hij : i = j
  · subst hij
    rw [if_pos rfl]
    split_ifs with hb
    · exact hb
    · rw [Nat.testBit_xor, Nat.testBit_two_pow_self, Bool.xor_true]
      cases b <;> simpa using hb
  · rw [if_neg hij]
    split_ifs with hb
    · rfl
    · rw [Nat.testBit_xor, Nat.testBit_two_pow_of_ne hij, Bool.xor_false]

/-! ## Instructions -/

inductive Instr where
  | push (o : Operand)
  | pop (o : Operand)
  /-- `movl $w, r` -/
  | movImm (w : Nat) (r : Reg)
  /-- `movl offset(%esp), r` -/
  | movStack (offset : Nat) (r : Reg)
  | addImm (w : Nat) (r : Reg)
  | dec (r : Reg)
  | cmpImm (w : Nat) (r : Reg)
  | jna (target : Nat)
  | jnb (target : Nat)
  | sti
  /-- `call *table(, r, 4)` -/
  | callTable (r : Reg)
  | int (vector : Nat)
  | iret
  | ret
  deriving DecidableEq, Repr

/-- The code as far as it is made of these instructions, what the processor does in other code, the
addresses in the table of functions, and where a trap from user code goes: the stack and the
gates. -/
structure Platform where
  code : Nat → Option Instr
  other : Cpu → Cpu
  table : Nat → Nat
  kernelEsp : Nat
  kernelSs : Nat
  kernelCs : Nat
  gate : Nat → Nat

def carry : Nat := 0

def zero : Nat := 6

def interrupt : Nat := 9

/-- A trap through an interrupt gate, from user code. -/
def Cpu.trap (p : Platform) (s : Cpu) (vector : Nat) : Cpu :=
  let saved := ((s.setReg .esp p.kernelEsp).setSeg .ss p.kernelSs).pushAll
    [(4, s.seg .ss), (4, s.reg .esp), (4, s.eflags), (4, s.seg .cs), (4, s.eip + 1)]
  { saved.setSeg .cs p.kernelCs with
    eflags := setBit s.eflags interrupt false
    eip := p.gate vector }

/-- `iret` to user code. -/
def Cpu.iret (s : Cpu) : Cpu :=
  let word (offset : Nat) : Nat := load s.mem 4 (s.reg .esp + offset)
  { ((s.setReg .esp (word 12)).setSeg .ss (word 16)).setSeg .cs (word 4) with
    eip := word 0
    eflags := word 8 }

def exec (p : Platform) (s : Cpu) : Instr → Cpu
  | .push o => s.next.push o.size (s.get o)
  | .pop o => (s.next.drop o.size).set o (load s.mem o.size (s.reg .esp))
  | .movImm w r => s.next.setReg r w
  | .movStack offset r => s.next.setReg r (load s.mem 4 (s.reg .esp + offset))
  | .addImm w r => s.next.setReg r (u32 (s.reg r + w : Nat))
  | .dec r => s.next.setReg r (u32 ((s.reg r : Int) - 1))
  | .cmpImm w r =>
    { s.next with eflags := setBit (setBit s.eflags carry (s.reg r < w)) zero (s.reg r == w) }
  | .jna target =>
    if s.eflags.testBit carry || s.eflags.testBit zero then { s with eip := target } else s.next
  | .jnb target => if s.eflags.testBit carry then s.next else { s with eip := target }
  | .sti => { s.next with eflags := setBit s.eflags interrupt true }
  | .callTable r => { s.push 4 (s.eip + 1) with eip := p.table (s.reg r) }
  | .int vector => s.trap p vector
  | .iret => s.iret
  | .ret => { s.drop 4 with eip := load s.mem 4 (s.reg .esp) }

def step (p : Platform) (s : Cpu) : Cpu :=
  match p.code s.eip with
  | none => p.other s
  | some i => exec p s i

/-! ## Code in place -/

/-- The instructions are at the address. -/
def Placed (p : Platform) (base : Nat) (instrs : List Instr) : Prop :=
  ∀ i (h : i < instrs.length), p.code (base + i) = some instrs[i]

section Run

variable {p : Platform} {base : Nat} {instrs instrs' : List Instr} {s s' : Cpu}

theorem Placed.left (h : Placed p base (instrs ++ instrs')) : Placed p base instrs := by
  intro i hi
  rw [h i (by rw [List.length_append]; omega), List.getElem_append_left hi]

theorem Placed.right (h : Placed p base (instrs ++ instrs')) :
    Placed p (base + instrs.length) instrs' := by
  intro i hi
  have hlt : instrs.length + i < (instrs ++ instrs').length := by
    rw [List.length_append]
    omega
  rw [Nat.add_assoc, h _ hlt, List.getElem_append_right (Nat.le_add_right _ _)]
  simp only [Nat.add_sub_cancel_left]

theorem step_head {instr : Instr} (h : Placed p s.eip (instr :: instrs)) :
    step p s = exec p s instr := by
  have hcode := h 0 (Nat.succ_pos _)
  rw [Nat.add_zero] at hcode
  rw [step, hcode]
  rfl

theorem comes_head {instr : Instr} (h : Placed p s.eip (instr :: instrs))
    (hrest : Comes (step p) (exec p s instr) s') : Comes (step p) s s' := by
  refine Comes.head ?_
  rwa [step_head h]

theorem Placed.tail {instr : Instr} (h : Placed p base (instr :: instrs)) :
    Placed p (base + 1) instrs := by
  have happend : Placed p base ([instr] ++ instrs) := h
  exact happend.right

end Run

/-! ## Comparisons -/

/-- The flags after `cmpl $w, r`. -/
def cmpFlags (s : Cpu) (w : Nat) (r : Reg) : Nat :=
  setBit (setBit s.eflags carry (s.reg r < w)) zero (s.reg r == w)

section Compare

variable {p : Platform} {s : Cpu} {w target : Nat} {r : Reg} {instrs : List Instr}

theorem cmpFlags_carry (s : Cpu) (w : Nat) (r : Reg) :
    (cmpFlags s w r).testBit carry = decide (s.reg r < w) := by
  rw [cmpFlags, testBit_setBit, testBit_setBit]
  rfl

theorem cmpFlags_zero (s : Cpu) (w : Nat) (r : Reg) :
    (cmpFlags s w r).testBit zero = (s.reg r == w) := by
  rw [cmpFlags, testBit_setBit]
  rfl

theorem cmp_jna_comes (h : Placed p s.eip (.cmpImm w r :: .jna target :: instrs)) :
    Comes (step p) s
      { s with eip := if s.reg r ≤ w then target else s.eip + 2, eflags := cmpFlags s w r } := by
  refine comes_head h ?_
  have hcmp : exec p s (.cmpImm w r) = { s.next with eflags := cmpFlags s w r } := rfl
  rw [hcmp]
  refine comes_head (s := { s.next with eflags := cmpFlags s w r }) h.tail ?_
  have hjna : exec p { s.next with eflags := cmpFlags s w r } (.jna target) =
      { s with
        eip := if s.reg r ≤ w then target else s.eip + 2, eflags := cmpFlags s w r } := by
    simp only [exec, cmpFlags_carry, cmpFlags_zero]
    by_cases hle : s.reg r ≤ w
    · rw [if_pos hle, if_pos]
      · rfl
      · simp only [Bool.or_eq_true, decide_eq_true_eq, beq_iff_eq]
        omega
    · rw [if_neg hle, if_neg]
      · rfl
      · simp only [Bool.or_eq_true, decide_eq_true_eq, beq_iff_eq]
        omega
  rw [hjna]
  exact Comes.refl _

theorem cmp_jnb_comes (h : Placed p s.eip (.cmpImm w r :: .jnb target :: instrs)) :
    Comes (step p) s
      { s with eip := if w ≤ s.reg r then target else s.eip + 2, eflags := cmpFlags s w r } := by
  refine comes_head h ?_
  have hcmp : exec p s (.cmpImm w r) = { s.next with eflags := cmpFlags s w r } := rfl
  rw [hcmp]
  refine comes_head (s := { s.next with eflags := cmpFlags s w r }) h.tail ?_
  have hjnb : exec p { s.next with eflags := cmpFlags s w r } (.jnb target) =
      { s with
        eip := if w ≤ s.reg r then target else s.eip + 2, eflags := cmpFlags s w r } := by
    simp only [exec, cmpFlags_carry, decide_eq_true_eq]
    by_cases hle : w ≤ s.reg r
    · rw [if_pos hle, if_neg (by omega)]
      rfl
    · rw [if_neg hle, if_pos (by omega)]
      rfl
  rw [hjnb]
  exact Comes.refl _

end Compare

/-! ## Saving and restoring -/

section Save

variable {p : Platform} {s : Cpu}

theorem get_ne_esp {s s' : Cpu} {w : Nat} (hreg : s'.reg = Function.update s.reg .esp w)
    (hseg : s'.seg = s.seg) {o : Operand} (ho : o ≠ .reg .esp) : s'.get o = s.get o := by
  cases o with
  | reg r =>
    have hr : r ≠ .esp := fun heq => ho (heq ▸ rfl)
    show s'.reg r = s.reg r
    rw [hreg, Function.update_of_ne hr]
  | seg g => exact congrFun hseg g

/-- The values that the operands have. -/
def Cpu.values (s : Cpu) (ops : List Operand) : List (Nat × Nat) :=
  ops.map fun o => (o.size, s.get o)

/-- What saving the operands does: their values are on the stack, the last one on top, below what
was there; no other register and no other byte has changed. -/
structure Saved (s s' : Cpu) (ops : List Operand) : Prop where
  eip : s'.eip = s.eip + ops.length
  eflags : s'.eflags = s.eflags
  seg : s'.seg = s.seg
  reg : s'.reg = Function.update s.reg .esp (s.reg .esp - extent (s.values ops))
  holds : ∀ vals, Holds s.mem (s.reg .esp) vals →
    Holds s'.mem (s'.reg .esp) ((s.values ops).reverse ++ vals)
  mem : ∀ b, b < s'.reg .esp ∨ s.reg .esp ≤ b → s'.mem b = s.mem b

theorem saved_nil (s : Cpu) : Saved s s [] where
  eip := rfl
  eflags := rfl
  seg := rfl
  reg := (Function.update_eq_self _ _).symm
  holds _ h := h
  mem _ _ := rfl

/-- One operand. -/
theorem saved_push {o : Operand} (hroom : o.size ≤ s.reg .esp) (hesp : s.reg .esp < 4294967296)
    (ho : s.get o < 256 ^ o.size) : Saved s (exec p s (.push o)) [o] := by
  have hsub : u32 ((s.reg .esp : Int) - o.size) = s.reg .esp - o.size := u32_sub hroom hesp
  have hreg : (exec p s (.push o)).reg = Function.update s.reg .esp (s.reg .esp - o.size) := by
    rw [← hsub]
    rfl
  have hmem : (exec p s (.push o)).mem =
      store s.mem o.size (s.reg .esp - o.size) (s.get o) := by
    rw [← hsub]
    rfl
  have hnew : (exec p s (.push o)).reg .esp = s.reg .esp - o.size := by
    rw [hreg, Function.update_self]
  refine ⟨rfl, rfl, rfl, hreg, ?_, ?_⟩
  · intro vals hvals
    rw [hnew, hmem]
    refine Holds.push ?_ ho
    rwa [Nat.sub_add_cancel hroom]
  · intro b hb
    rw [hmem]
    refine store_outside s.mem ?_
    omega

theorem Saved.trans {s' s'' : Cpu} {ops ops' : List Operand} (h : Saved s s' ops)
    (h' : Saved s' s'' ops') (hops : ∀ o ∈ ops', o ≠ .reg .esp)
    (hroom : extent (s.values ops) + extent (s.values ops') ≤ s.reg .esp) :
    Saved s s'' (ops ++ ops') := by
  have hvalues : s'.values ops' = s.values ops' := by
    refine List.map_congr_left fun o ho => ?_
    rw [get_ne_esp h.reg h.seg (hops o ho)]
  have hesp' : s'.reg .esp = s.reg .esp - extent (s.values ops) := by
    rw [h.reg, Function.update_self]
  have hesp'' : s''.reg .esp = s.reg .esp - extent (s.values ops) - extent (s.values ops') := by
    rw [h'.reg, Function.update_self, hesp', hvalues]
  have happend : s.values (ops ++ ops') = s.values ops ++ s.values ops' := List.map_append
  refine ⟨?_, h'.eflags.trans h.eflags, h'.seg.trans h.seg, ?_, ?_, ?_⟩
  · rw [h'.eip, h.eip, List.length_append, Nat.add_assoc]
  · rw [h'.reg, h.reg, Function.update_idem, Function.update_self, hvalues, happend, extent_append,
      Nat.sub_sub]
  · intro vals hvals
    have hholds := h'.holds _ (h.holds vals hvals)
    rw [hvalues, ← List.append_assoc, ← List.reverse_append, ← happend] at hholds
    exact hholds
  · intro b hb
    rw [h'.mem b (by omega), h.mem b (by omega)]

/-- A block of pushes saves its operands. -/
theorem save_comes {ops : List Operand} (hcode : Placed p s.eip (ops.map .push))
    (hops : ∀ o ∈ ops, o ≠ .reg .esp) (hesp : s.reg .esp < 4294967296)
    (hroom : extent (s.values ops) ≤ s.reg .esp) (hfits : ∀ o ∈ ops, s.get o < 256 ^ o.size) :
    ∃ s', Comes (step p) s s' ∧ Saved s s' ops := by
  induction ops generalizing s with
  | nil => exact ⟨s, Comes.refl s, saved_nil s⟩
  | cons o ops ih =>
    have hextent : extent (s.values (o :: ops)) = o.size + extent (s.values ops) := rfl
    have hfirst : Saved s (exec p s (.push o)) [o] :=
      saved_push (by omega) hesp (hfits o List.mem_cons_self)
    have hsame : ∀ o' ∈ ops, (exec p s (.push o)).get o' = s.get o' := by
      intro o' ho'
      exact get_ne_esp hfirst.reg hfirst.seg (hops o' (List.mem_cons_of_mem o ho'))
    have hvalues : (exec p s (.push o)).values ops = s.values ops := by
      refine List.map_congr_left fun o' ho' => ?_
      rw [hsame o' ho']
    have hone : extent (s.values [o]) = o.size := rfl
    have hesp' : (exec p s (.push o)).reg .esp = s.reg .esp - o.size := by
      rw [hfirst.reg, Function.update_self, hone]
    have hcode' : Placed p (exec p s (.push o)).eip (ops.map .push) := by
      rw [hfirst.eip]
      exact hcode.tail
    obtain ⟨s', hcomes, hrest⟩ := ih hcode' (fun o' ho' => hops o' (List.mem_cons_of_mem o ho'))
      (by omega) (by rw [hvalues, hesp']; omega)
      (fun o' ho' => by rw [hsame o' ho']; exact hfits o' (List.mem_cons_of_mem o ho'))
    refine ⟨s', comes_head hcode hcomes, ?_⟩
    refine hfirst.trans hrest (fun o' ho' => hops o' (List.mem_cons_of_mem o ho')) ?_
    rw [hone]
    omega

end Save

section Restore

variable {p : Platform} {s : Cpu}

theorem get_set (s : Cpu) (o o' : Operand) (w : Nat) :
    (s.set o w).get o' = if o' = o then w else s.get o' := by
  cases o with
  | reg r =>
    cases o' with
    | reg r' =>
      refine (Function.update_apply s.reg r w r').trans (if_congr ?_ rfl rfl)
      exact (Operand.reg.injEq r' r).to_iff.symm
    | seg g => exact (if_neg (by simp)).symm
  | seg g =>
    cases o' with
    | reg r => exact (if_neg (by simp)).symm
    | seg g' =>
      refine (Function.update_apply s.seg g w g').trans (if_congr ?_ rfl rfl)
      exact (Operand.seg.injEq g' g).to_iff.symm

/-- Values for operands, as they are on the stack. -/
def slots (w : Operand → Nat) (ops : List Operand) : List (Nat × Nat) :=
  ops.map fun o => (o.size, w o)

/-- What restoring the operands does: they have the values from the stack, which are off it; no
other register has changed, and no byte. -/
structure Restored (s s' : Cpu) (ops : List Operand) (w : Operand → Nat) : Prop where
  eip : s'.eip = s.eip + ops.length
  eflags : s'.eflags = s.eflags
  mem : s'.mem = s.mem
  esp : s'.reg .esp = s.reg .esp + extent (slots w ops)
  inside : ∀ o ∈ ops, s'.get o = w o
  outside : ∀ o, o ∉ ops → o ≠ .reg .esp → s'.get o = s.get o

/-- A block of pops of different operands restores them. -/
theorem restore_comes {ops : List Operand} {w : Operand → Nat}
    (hcode : Placed p s.eip (ops.map .pop)) (hops : ∀ o ∈ ops, o ≠ .reg .esp) (hnodup : ops.Nodup)
    (hholds : Holds s.mem (s.reg .esp) (slots w ops))
    (hroom : s.reg .esp + extent (slots w ops) < 4294967296) :
    ∃ s', Comes (step p) s s' ∧ Restored s s' ops w := by
  induction ops generalizing s with
  | nil =>
    exact ⟨s, Comes.refl s, rfl, rfl, rfl, rfl, fun o ho => absurd ho List.not_mem_nil,
      fun _ _ _ => rfl⟩
  | cons o ops ih =>
    have hextent : extent (slots w (o :: ops)) = o.size + extent (slots w ops) := rfl
    obtain ⟨hload, hrest⟩ : load s.mem o.size (s.reg .esp) = w o ∧
        Holds s.mem (s.reg .esp + o.size) (slots w ops) := hholds
    obtain ⟨hnotin, hnodup'⟩ := List.nodup_cons.mp hnodup
    have hexec : exec p s (.pop o) = (s.next.drop o.size).set o (w o) := by
      rw [← hload]
      rfl
    have hget : ∀ o', o' ≠ .reg .esp →
        (exec p s (.pop o)).get o' = if o' = o then w o else s.get o' := by
      intro o' ho'
      rw [hexec, get_set]
      refine if_congr Iff.rfl rfl ?_
      exact @get_ne_esp s (s.next.drop o.size) (u32 (s.reg .esp + o.size : Nat)) rfl rfl o' ho'
    have hesp : (exec p s (.pop o)).reg .esp = s.reg .esp + o.size := by
      have hstays : (exec p s (.pop o)).get (.reg .esp) = u32 (s.reg .esp + o.size : Nat) := by
        rw [hexec, get_set, if_neg (hops o List.mem_cons_self).symm]
        exact Function.update_self Reg.esp _ s.reg
      exact hstays.trans (u32_natCast (by omega))
    have hmem : (exec p s (.pop o)).mem = s.mem := by
      rw [hexec]
      cases o <;> rfl
    have heip : (exec p s (.pop o)).eip = s.eip + 1 := by
      rw [hexec]
      cases o <;> rfl
    have heflags : (exec p s (.pop o)).eflags = s.eflags := by
      rw [hexec]
      cases o <;> rfl
    obtain ⟨s', hcomes, hrestored⟩ := ih (s := exec p s (.pop o)) (by rw [heip]; exact hcode.tail)
      (fun o' ho' => hops o' (List.mem_cons_of_mem o ho')) hnodup' (by rw [hmem, hesp]; exact hrest)
      (by rw [hesp]; omega)
    refine ⟨s', comes_head hcode hcomes, ?_, hrestored.eflags.trans heflags,
      hrestored.mem.trans hmem, ?_, ?_, ?_⟩
    · rw [hrestored.eip, heip, List.length_cons]
      omega
    · rw [hrestored.esp, hesp, hextent, Nat.add_assoc]
    · intro o' ho'
      rcases List.mem_cons.mp ho' with rfl | hmem'
      · rw [hrestored.outside o' hnotin (hops o' ho'), hget o' (hops o' ho'), if_pos rfl]
      · exact hrestored.inside o' hmem'
    · intro o' ho' hne
      have hne' : o' ≠ o := fun heq => ho' (heq ▸ List.mem_cons_self)
      have hnotin' : o' ∉ ops := fun hmem' => ho' (List.mem_cons_of_mem o hmem')
      rw [hrestored.outside o' hnotin' hne, hget o' hne, if_neg hne']

end Restore

/-! ## To the kernel and back -/

section Trap

variable {p : Platform} {s : Cpu}

/-- What a trap from user code does: the place of the program is on the kernel stack. -/
structure Trapped (p : Platform) (s s' : Cpu) (vector : Nat) : Prop where
  eip : s'.eip = p.gate vector
  reg : s'.reg = Function.update s.reg .esp (p.kernelEsp - 20)
  seg : ∀ g, g ≠ .cs → g ≠ .ss → s'.seg g = s.seg g
  holds : Holds s'.mem (p.kernelEsp - 20)
    [(4, s.eip + 1), (4, s.seg .cs), (4, s.eflags), (4, s.reg .esp), (4, s.seg .ss)]
  mem : ∀ b, b < p.kernelEsp - 20 ∨ p.kernelEsp ≤ b → s'.mem b = s.mem b

/-- Every register of the processor has its size. -/
structure WellSized (s : Cpu) : Prop where
  reg : ∀ r, s.reg r < 256 ^ 4
  seg : ∀ g, s.seg g < 256 ^ 2
  eflags : s.eflags < 256 ^ 4
  eip : s.eip + 1 < 256 ^ 4

theorem WellSized.get (h : WellSized s) (o : Operand) : s.get o < 256 ^ o.size := by
  cases o with
  | reg r => exact h.reg r
  | seg g => exact h.seg g

/-- What pushing values does to the stack pointer and the memory. -/
structure Pushed (s s' : Cpu) (vals : List (Nat × Nat)) : Prop where
  reg : s'.reg = Function.update s.reg .esp (s.reg .esp - extent vals)
  seg : s'.seg = s.seg
  holds : ∀ rest, Holds s.mem (s.reg .esp) rest → Holds s'.mem (s'.reg .esp) (vals.reverse ++ rest)
  mem : ∀ b, b < s.reg .esp - extent vals ∨ s.reg .esp ≤ b → s'.mem b = s.mem b

theorem pushAll_pushed {vals : List (Nat × Nat)} (hroom : extent vals ≤ s.reg .esp)
    (hesp : s.reg .esp < 4294967296) (hfits : ∀ v ∈ vals, v.2 < 256 ^ v.1) :
    Pushed s (s.pushAll vals) vals := by
  induction vals generalizing s with
  | nil => exact ⟨(Function.update_eq_self _ _).symm, rfl, fun _ h => h, fun _ _ => rfl⟩
  | cons v vals ih =>
    obtain ⟨n, w⟩ := v
    have hextent : extent ((n, w) :: vals) = n + extent vals := rfl
    have hsub : u32 ((s.reg .esp : Int) - n) = s.reg .esp - n := u32_sub (by omega) hesp
    have hone : (s.push n w).reg .esp = s.reg .esp - n := by
      rw [push_reg, Function.update_self, hsub]
    have hmem : (s.push n w).mem = store s.mem n (s.reg .esp - n) w := by
      rw [← hsub]
      rfl
    obtain ⟨hreg, hseg, hholds, hsame⟩ := ih (s := s.push n w) (by omega) (by omega)
      fun v hv => hfits v (List.mem_cons_of_mem _ hv)
    refine ⟨?_, hseg, ?_, ?_⟩
    · show ((s.push n w).pushAll vals).reg = _
      rw [hreg, hone, hextent, Nat.sub_sub, push_reg, Function.update_idem]
    · intro rest hrest
      have hnew : Holds (s.push n w).mem ((s.push n w).reg .esp) ((n, w) :: rest) := by
        rw [hmem, hone]
        refine Holds.push ?_ (hfits (n, w) List.mem_cons_self)
        rwa [Nat.sub_add_cancel (by omega)]
      have hall := hholds _ hnew
      rw [List.reverse_cons, List.append_assoc]
      exact hall
    · intro b hb
      refine (hsame b (by omega)).trans ?_
      rw [hmem]
      exact store_outside s.mem (by omega)

/-- Five words below the top of the kernel stack. -/
theorem trap_trapped (h : WellSized s) (hroom : 20 ≤ p.kernelEsp) (hesp : p.kernelEsp < 4294967296)
    (vector : Nat) : Trapped p s (s.trap p vector) vector := by
  have hsegs : ∀ g, s.seg g < 256 ^ 4 := fun g => (h.seg g).trans (by decide)
  have htop : ((s.setReg .esp p.kernelEsp).setSeg .ss p.kernelSs).reg .esp = p.kernelEsp := by
    rw [setSeg_reg, setReg_reg, Function.update_self]
  have hfits : ∀ v ∈ [(4, s.seg .ss), (4, s.reg .esp), (4, s.eflags), (4, s.seg .cs),
      (4, s.eip + 1)], v.2 < 256 ^ v.1 := by
    simp only [List.forall_mem_cons]
    exact ⟨hsegs _, h.reg _, h.eflags, hsegs _, h.eip, fun _ hv => absurd hv List.not_mem_nil⟩
  have hpushed := pushAll_pushed (s := (s.setReg .esp p.kernelEsp).setSeg .ss p.kernelSs)
    (by rw [htop]; exact hroom) (by rw [htop]; exact hesp) hfits
  have hreg : (s.trap p vector).reg = Function.update s.reg .esp (p.kernelEsp - 20) := by
    refine hpushed.reg.trans ?_
    rw [htop, setSeg_reg, setReg_reg, Function.update_idem]
    rfl
  have hstack : (s.trap p vector).reg .esp = p.kernelEsp - 20 := by
    rw [hreg, Function.update_self]
  refine ⟨rfl, hreg, ?_, ?_, ?_⟩
  · intro g hcs hss
    refine (Function.update_of_ne hcs _ _).trans ?_
    rw [hpushed.seg]
    exact Function.update_of_ne hss _ _
  · rw [← hstack]
    exact hpushed.holds [] trivial
  · intro b hb
    refine hpushed.mem b ?_
    rw [htop]
    exact hb

/-- `iret` goes back to the place that is on the stack. -/
theorem iret_of_holds {eip cs eflags esp ss : Nat}
    (h : Holds s.mem (s.reg .esp) [(4, eip), (4, cs), (4, eflags), (4, esp), (4, ss)]) :
    s.iret = { ((s.setReg .esp esp).setSeg .ss ss).setSeg .cs cs with
      eip := eip, eflags := eflags } := by
  obtain ⟨h0, h1, h2, h3, h4, -⟩ := h
  unfold Cpu.iret
  dsimp only
  have h0' : load s.mem 4 (s.reg .esp + 0) = eip := h0
  have h8 : load s.mem 4 (s.reg .esp + 8) = eflags := h2
  have h12 : load s.mem 4 (s.reg .esp + 12) = esp := h3
  have h16 : load s.mem 4 (s.reg .esp + 16) = ss := h4
  rw [h0', h1, h8, h12, h16]

end Trap

end X86
