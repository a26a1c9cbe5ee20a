import LinuxBasedOS.Base.InterruptController
import LinuxBasedOS.Base.Transition
import LinuxBasedOS.Devices.Descriptors
import LinuxBasedOS.Devices.IrqMasks
import LinuxBasedOS.Devices.RtcRate

/-!
# From a device to its handler

`Machine` joins what `i8259.c` keeps in its variables with the two controllers that take its bytes,
and with the processor: the interrupt flag, and what the handler that has been entered last still
does with the controllers. Devices request their lines at any time, the processor takes an interrupt
through the gate that it finds under the vector whenever the flag is up, and the kernel changes masks
and the flag.

`interrupts_delivered` says for every order of these that each interrupt that is taken leads to the
handler of the device that has requested it, and that none is kept back while the flag is up: the
invariant is that something is in service only in the part of a handler up to its `send_eoi`.
-/

namespace LinuxBasedOS.Devices

open Bitfields InterruptController Transition

/-! ## The controllers and their driver -/

/-- A step of the kernel that has to do with interrupts. -/
inductive Op where
  | cli
  | sti
  | disableIrq (irqNum : Nat)
  | enableIrq (irqNum : Nat)
  | sendEoi (irqNum : Nat)
  deriving DecidableEq, Repr

structure Machine where
  pics : Pics
  controllers : Cascade
  interruptFlag : Bool
  /-- what the handler does that has been entered last -/
  handler : List Op
  /-- the addresses of the handlers that have been entered -/
  entered : List Nat

def endOfInterrupt : UInt8 := 0x60

def irqSlave : Nat := 2

/-- `outb(data, port)`, on both sides of the port. -/
def Machine.outb (m : Machine) (data : UInt8) (port : Nat) : Machine :=
  { m with pics := m.pics.outb data port, controllers := m.controllers.outb data port }

/-- `enable_irq`, with what the controller makes of the byte. -/
def Machine.enableIrq (m : Machine) (irqNum : Nat) : Machine :=
  let pics := Devices.enableIrq m.pics irqNum
  { m with
    pics := pics
    controllers :=
      if irqNum &&& slaveOffset ≠ 0 then m.controllers.outb pics.slaveMask slave8259Data
      else m.controllers.outb pics.masterMask master8259Data }

/-- `disable_irq`, with what the controller makes of the byte. -/
def Machine.disableIrq (m : Machine) (irqNum : Nat) : Machine :=
  let pics := Devices.disableIrq m.pics irqNum
  { m with
    pics := pics
    controllers :=
      if irqNum &&& slaveOffset ≠ 0 then m.controllers.outb pics.slaveMask slave8259Data
      else m.controllers.outb pics.masterMask master8259Data }

def Machine.sendEoi (m : Machine) (irqNum : Nat) : Machine :=
  if irqNum &&& slaveOffset ≠ 0 then
    let m := m.outb (endOfInterrupt ||| UInt8.ofNat (irqNum - slaveOffset)) slave8259Port
    m.outb (endOfInterrupt ||| UInt8.ofNat irqSlave) master8259Port
  else m.outb (endOfInterrupt ||| UInt8.ofNat irqNum) master8259Port

/-- `i8259_init`. -/
def Machine.i8259Init (m : Machine) : Machine :=
  let m := m.outb maskAllPorts master8259Data
  let m := m.outb maskAllPorts slave8259Data
  let m := m.outb icw1 master8259Port
  let m := m.outb icw2Master master8259Data
  let m := m.outb icw3Master master8259Data
  let m := m.outb icw4 master8259Data
  let m := m.outb icw1 slave8259Port
  let m := m.outb icw2Slave slave8259Data
  let m := m.outb icw3Slave slave8259Data
  let m := m.outb icw4 slave8259Data
  let m := m.outb m.pics.masterMask master8259Data
  let m := m.outb m.pics.slaveMask slave8259Data
  m.enableIrq cascadeIrq

def Machine.perform (m : Machine) : Op → Machine
  | .cli => { m with interruptFlag := false }
  | .sti => { m with interruptFlag := true }
  | .disableIrq irqNum => m.disableIrq irqNum
  | .enableIrq irqNum => m.enableIrq irqNum
  | .sendEoi irqNum => m.sendEoi irqNum

/-! ## The handlers -/

/-- `handle_pit_interrupt`: `schedule`, with the `send_eoi` of `switch_tasks`. -/
def handlePitInterrupt : List Op := [.cli, .sendEoi 0, .sti]

/-- `handle_keyboard_interrupt`: `keyboard_handler`. -/
def handleKeyboardInterrupt : List Op :=
  [.cli, .disableIrq 1, .sendEoi 1, .enableIrq 1, .sti]

/-- `handle_rtc_interrupt`: `rtc_interrupt`, which saves the flag and restores it. -/
def handleRtcInterrupt : List Op :=
  [.cli, .disableIrq rtcIrq, .sendEoi rtcIrq, .enableIrq rtcIrq]

/-- The lines with a device. -/
def deviceLines : List Nat := [0, 1, rtcIrq]

theorem mem_deviceLines {line : Nat} : line ∈ deviceLines ↔ line = 0 ∨ line = 1 ∨ line = 8 := by
  simp [deviceLines, rtcIrq]

/-- The handler of a device. -/
def deviceHandler (h : Handlers) (line : Nat) : Nat :=
  if line = 0 then h.handlePitInterrupt
  else if line = 1 then h.handleKeyboardInterrupt
  else h.handleRtcInterrupt

/-- What the code at an address does with the controllers. -/
structure Linked (h : Handlers) (code : Nat → List Op) : Prop where
  pit : code h.handlePitInterrupt = handlePitInterrupt
  keyboard : code h.handleKeyboardInterrupt = handleKeyboardInterrupt
  rtc : code h.handleRtcInterrupt = handleRtcInterrupt

/-! ## Runs -/

def Op.isEnd : Op → Bool
  | .sendEoi _ => true
  | _ => false

inductive IrqEvent where
  /-- a device requests its line -/
  | request (line : Nat)
  /-- the processor takes an interrupt -/
  | accept
  /-- the next step of the handler -/
  | handler
  /-- any other step of the kernel -/
  | kernel (op : Op)

/-- `gates` is what the processor finds under a vector. The kernel does other things than to go on
with a handler when the handler has ended its interrupt. -/
def irqStep (gates : Nat → Option Gate) (code : Nat → List Op) (m : Machine) :
    IrqEvent → Option Machine
  | .request line => some { m with controllers := m.controllers.request line }
  | .accept =>
    if m.interruptFlag = true then
      m.controllers.accept.bind fun taken =>
        (gates taken.2.1).map fun gate =>
          { m with
            controllers := taken.2.2
            interruptFlag := gate.trap
            handler := code gate.target
            entered := m.entered ++ [gate.target] }
    else none
  | .handler =>
    match m.handler with
    | [] => none
    | op :: ops => some { m.perform op with handler := ops }
  | .kernel op => if m.handler.any Op.isEnd then none else some (m.perform op)

/-- Devices request their own lines, and the kernel masks and unmasks these and ends no interrupt
outside of the handlers. -/
def Allowed (_ : Machine) : IrqEvent → Prop
  | .request line => line ∈ deviceLines
  | .kernel (.disableIrq irqNum) => irqNum ∈ deviceLines
  | .kernel (.enableIrq irqNum) => irqNum ∈ deviceLines
  | .kernel (.sendEoi _) => False
  | _ => True

instance (m : Machine) : (e : IrqEvent) → Decidable (Allowed m e)
  | .request line => inferInstanceAs (Decidable (line ∈ deviceLines))
  | .kernel (.disableIrq irqNum) => inferInstanceAs (Decidable (irqNum ∈ deviceLines))
  | .kernel (.enableIrq irqNum) => inferInstanceAs (Decidable (irqNum ∈ deviceLines))
  | .kernel (.sendEoi _) => .isFalse id
  | .kernel .cli | .kernel .sti | .accept | .handler => .isTrue trivial

/-! ## What the driver keeps of the controllers -/

/-- The controllers have been initialised, and have the masks that the driver thinks they have. -/
structure Programmed (pics : Pics) (p : Cascade) : Prop where
  wired : p.Wired
  masterStage : p.master.stage = .mask
  slaveStage : p.slave.stage = .mask
  masterBase : p.master.base = pitVector
  slaveBase : p.slave.base = rtcVector
  masterMask : p.master.mask = pics.masterMask
  slaveMask : p.slave.mask = pics.slaveMask

/-- Other masks in the controllers. -/
def withMasks (p : Cascade) (pics : Pics) : Cascade where
  master := { p.master with mask := pics.masterMask }
  slave := { p.slave with mask := pics.slaveMask }

section Programmed

variable {m : Machine} {line n : Nat}

theorem Programmed.outb_master (h : Programmed m.pics m.controllers) (mask : UInt8) :
    m.controllers.outb mask master8259Data =
      { m.controllers with master := { m.controllers.master with mask := mask } } := by
  rw [Cascade.outb, if_neg (by decide), if_pos (by decide),
    Controller.data_of_mask h.masterStage]

theorem Programmed.outb_slave (h : Programmed m.pics m.controllers) (mask : UInt8) :
    m.controllers.outb mask slave8259Data =
      { m.controllers with slave := { m.controllers.slave with mask := mask } } := by
  rw [Cascade.outb, if_neg (by decide), if_neg (by decide), if_neg (by decide),
    if_pos (by decide), Controller.data_of_mask h.slaveStage]

/-- A byte at a data port makes the masks of the controllers those of the driver. -/
theorem Programmed.outb_masks (h : Programmed m.pics m.controllers) (pics : Pics) (c : Prop) [Decidable c]
    (hslave : c → pics.masterMask = m.pics.masterMask) (hmaster : ¬ c → pics.slaveMask = m.pics.slaveMask) :
    (if c then m.controllers.outb pics.slaveMask slave8259Data
      else m.controllers.outb pics.masterMask master8259Data) = withMasks m.controllers pics := by
  unfold withMasks
  split_ifs with hc
  · rw [h.outb_slave, hslave hc, ← h.masterMask]
  · rw [h.outb_master, hmaster hc, ← h.slaveMask]

theorem Programmed.enableIrq (h : Programmed m.pics m.controllers) (irqNum : Nat) :
    m.enableIrq irqNum =
      { m with
        pics := Devices.enableIrq m.pics irqNum
        controllers := withMasks m.controllers (Devices.enableIrq m.pics irqNum) } := by
  have hmasks := h.outb_masks (Devices.enableIrq m.pics irqNum)
    (irqNum &&& slaveOffset ≠ 0) ?_ ?_
  · rw [Machine.enableIrq, hmasks]
  · intro hslave
    rw [Devices.enableIrq, if_pos hslave]
  · intro hmaster
    rw [Devices.enableIrq, if_neg hmaster]

theorem Programmed.disableIrq (h : Programmed m.pics m.controllers) (irqNum : Nat) :
    m.disableIrq irqNum =
      { m with
        pics := Devices.disableIrq m.pics irqNum
        controllers := withMasks m.controllers (Devices.disableIrq m.pics irqNum) } := by
  have hmasks := h.outb_masks (Devices.disableIrq m.pics irqNum)
    (irqNum &&& slaveOffset ≠ 0) ?_ ?_
  · rw [Machine.disableIrq, hmasks]
  · intro hslave
    rw [Devices.disableIrq, if_pos hslave]
  · intro hmaster
    rw [Devices.disableIrq, if_neg hmaster]

/-- The end of an interrupt, for the lines of the devices. -/
theorem sendEoi_eq (m : Machine) (hline : line ∈ deviceLines) :
    m.sendEoi line = { m with controllers := m.controllers.ended line } := by
  rcases mem_deviceLines.mp hline with rfl | rfl | rfl <;> rfl

/-- What the controllers mask is what the driver masks. -/
theorem Programmed.masked (h : Programmed m.pics m.controllers) (hline : line < 16) :
    m.controllers.masked line = false ↔
      m.pics.masked line = false ∧ (8 ≤ line → m.pics.masked cascadeIrq = false) := by
  have htwo : m.controllers.master.masked 2 = m.pics.masked cascadeIrq := by
    unfold Controller.masked
    rw [h.masterMask]
    rfl
  unfold Pics.masked
  by_cases hlow : line < 8
  · rw [Cascade.masked_of_lt hlow, if_pos hlow, Controller.masked, h.masterMask]
    exact ⟨fun hmask => ⟨hmask, fun hge => absurd hlow (by omega)⟩, fun hmask => hmask.1⟩
  · rw [Cascade.masked_of_ge (by omega), if_neg hlow, Bool.or_eq_false_iff, htwo,
      Controller.masked, h.slaveMask]
    exact ⟨fun hmask => ⟨hmask.1, fun _ => hmask.2⟩, fun hmask => ⟨hmask.1, hmask.2 (by omega)⟩⟩

end Programmed

/-! ## The invariant -/

/-- No interrupt is ended any more. -/
def Settled : List Op → Prop
  | [] => True
  | .sendEoi _ :: _ => False
  | .disableIrq irqNum :: ops | .enableIrq irqNum :: ops => irqNum ∈ deviceLines ∧ Settled ops
  | .cli :: ops | .sti :: ops => Settled ops

/-- Lines are masked and unmasked, with the interrupts off, until the interrupt of a line is
ended. -/
def Acknowledges (line : Nat) : List Op → Prop
  | [] | .sti :: _ => False
  | .cli :: ops => Acknowledges line ops
  | .disableIrq irqNum :: ops | .enableIrq irqNum :: ops =>
    irqNum ∈ deviceLines ∧ Acknowledges line ops
  | .sendEoi irqNum :: ops => irqNum = line ∧ Settled ops

/-- Only the lines of the devices and the one of the second controller are ever unmasked. -/
structure DeviceMasks (pics : Pics) : Prop where
  lines : ∀ n < 16, n ∉ deviceLines → n ≠ cascadeIrq → pics.masked n = true
  cascade : pics.masked cascadeIrq = false

/-- Something is in service only up to the `send_eoi` of its handler, with the interrupts off. -/
def ServiceInv (m : Machine) : Prop :=
  (m.controllers.Idle ∧ Settled m.handler) ∨
    (m.interruptFlag = false ∧
      ∃ line ∈ deviceLines, m.controllers.Serves line ∧ Acknowledges line m.handler)

structure IrqInv (m : Machine) : Prop where
  programmed : Programmed m.pics m.controllers
  masks : DeviceMasks m.pics
  service : ServiceInv m

section Invariant

variable {m m' : Machine} {line : Nat} {ops : List Op}

theorem Acknowledges.has_end (h : Acknowledges line ops) : ops.any Op.isEnd = true := by
  induction ops with
  | nil => exact h.elim
  | cons op ops ih =>
    cases op with
    | cli => exact ih h
    | sti => exact h.elim
    | disableIrq irqNum => exact ih h.2
    | enableIrq irqNum => exact ih h.2
    | sendEoi irqNum => rfl

theorem DeviceMasks.update {pics pics' : Pics} (h : DeviceMasks pics) (hline : line ∈ deviceLines)
    {b : Bool} (hmasked : pics'.masked = Function.update pics.masked line b) : DeviceMasks pics' := by
  refine ⟨fun n hn hdevice hcascade => ?_, ?_⟩
  · have hne : n ≠ line := fun heq => hdevice (heq ▸ hline)
    rw [hmasked, Function.update_of_ne hne]
    exact h.lines n hn hdevice hcascade
  · have hne : cascadeIrq ≠ line := by
      rcases mem_deviceLines.mp hline with rfl | rfl | rfl <;> decide
    rw [hmasked, Function.update_of_ne hne]
    exact h.cascade

theorem lt_of_mem (hline : line ∈ deviceLines) : line < 16 := by
  rcases mem_deviceLines.mp hline with rfl | rfl | rfl <;> decide

/-- Masks are changed: nothing else is. -/
theorem programmed_withMasks (h : Programmed m.pics m.controllers) (pics : Pics) :
    Programmed pics (withMasks m.controllers pics) :=
  ⟨⟨h.wired.master, h.wired.slave⟩, h.masterStage, h.slaveStage, h.masterBase, h.slaveBase, rfl, rfl⟩

/-- What a step of the kernel that ends no interrupt leaves. -/
structure Undisturbed (m m' : Machine) : Prop where
  programmed : Programmed m'.pics m'.controllers
  masks : DeviceMasks m'.pics
  requested : ∀ n, m'.controllers.requested n = m.controllers.requested n
  serves : ∀ n, m.controllers.Serves n → m'.controllers.Serves n
  idle : m.controllers.Idle → m'.controllers.Idle
  entered : m'.entered = m.entered

theorem undisturbed_disable (h : Programmed m.pics m.controllers) (hmasks : DeviceMasks m.pics)
    (hline : line ∈ deviceLines) : Undisturbed m (m.disableIrq line) := by
  rw [h.disableIrq]
  exact ⟨programmed_withMasks h _, hmasks.update hline (masked_disableIrq m.pics (lt_of_mem hline)),
    fun _ => rfl, fun _ hserves => hserves, fun hidle => ⟨hidle.master, hidle.slave⟩, rfl⟩

theorem undisturbed_enable (h : Programmed m.pics m.controllers) (hmasks : DeviceMasks m.pics)
    (hline : line ∈ deviceLines) : Undisturbed m (m.enableIrq line) := by
  rw [h.enableIrq]
  exact ⟨programmed_withMasks h _, hmasks.update hline (masked_enableIrq m.pics (lt_of_mem hline)),
    fun _ => rfl, fun _ hserves => hserves, fun hidle => ⟨hidle.master, hidle.slave⟩, rfl⟩

/-- One step of a handler. -/
theorem IrqInv.handler {op : Op} (h : IrqInv m) (hhandler : m.handler = op :: ops) :
    IrqInv { m.perform op with handler := ops } ∧
      ∀ n, (m.perform op).controllers.requested n = m.controllers.requested n := by
  obtain ⟨hprogrammed, hmasks, hservice⟩ := h
  unfold ServiceInv at hservice
  rw [hhandler] at hservice
  cases op with
  | cli =>
    refine ⟨⟨hprogrammed, hmasks, ?_⟩, fun _ => rfl⟩
    exact hservice.imp_right fun ⟨_, hserves⟩ => ⟨rfl, hserves⟩
  | sti =>
    refine ⟨⟨hprogrammed, hmasks, ?_⟩, fun _ => rfl⟩
    refine Or.inl (hservice.resolve_right ?_)
    rintro ⟨_, line, _, _, hfalse⟩
    exact hfalse
  | disableIrq irqNum =>
    have hdevice : irqNum ∈ deviceLines := by
      rcases hservice with hidle | ⟨_, line, _, _, hacknowledges⟩
      · exact hidle.2.1
      · exact hacknowledges.1
    have hkept := undisturbed_disable hprogrammed hmasks hdevice
    refine ⟨⟨hkept.programmed, hkept.masks, ?_⟩, hkept.requested⟩
    refine hservice.imp (fun hidle => ⟨hkept.idle hidle.1, hidle.2.2⟩) ?_
    rintro ⟨hflag, line, hline, hserves, hacknowledges⟩
    exact ⟨hflag, line, hline, hkept.serves line hserves, hacknowledges.2⟩
  | enableIrq irqNum =>
    have hdevice : irqNum ∈ deviceLines := by
      rcases hservice with hidle | ⟨_, line, _, _, hacknowledges⟩
      · exact hidle.2.1
      · exact hacknowledges.1
    have hkept := undisturbed_enable hprogrammed hmasks hdevice
    refine ⟨⟨hkept.programmed, hkept.masks, ?_⟩, hkept.requested⟩
    refine hservice.imp (fun hidle => ⟨hkept.idle hidle.1, hidle.2.2⟩) ?_
    rintro ⟨hflag, line, hline, hserves, hacknowledges⟩
    exact ⟨hflag, line, hline, hkept.serves line hserves, hacknowledges.2⟩
  | sendEoi irqNum =>
    obtain ⟨_, line, hline, hserves, hacknowledges⟩ := hservice.resolve_left fun hidle => hidle.2
    obtain ⟨rfl, hsettled⟩ := hacknowledges
    have hidle := hserves.ended (lt_of_mem hline)
    obtain ⟨inMaster, inSlave, hended⟩ := m.controllers.ended_eq (lt_of_mem hline)
    have hsend : m.perform (.sendEoi irqNum) = { m with controllers := m.controllers.ended irqNum } :=
      sendEoi_eq m hline
    rw [hsend]
    refine ⟨⟨?_, hmasks, Or.inl ⟨hidle, hsettled⟩⟩, fun n => ?_⟩
    · show Programmed m.pics (m.controllers.ended irqNum)
      rw [hended]
      obtain ⟨hwired, hmaster, hslave, hmasterBase, hslaveBase, hmasterMask, hslaveMask⟩ := hprogrammed
      exact ⟨⟨hwired.master, hwired.slave⟩, hmaster, hslave, hmasterBase, hslaveBase, hmasterMask,
        hslaveMask⟩
    · show (m.controllers.ended irqNum).requested n = _
      rw [hended]
      rfl

end Invariant

/-! ## Every run -/

section Runs

variable {h : Handlers} {gates : Nat → Option Gate} {code : Nat → List Op} {m m' : Machine}
variable {line : Nat} {es es' : List IrqEvent}

/-- The processor finds the gates of `idt_init`. -/
def Gated (h : Handlers) (gates : Nat → Option Gate) : Prop :=
  ∀ line ∈ deviceLines, gates (if line < 8 then pitVector + line else rtcVector + (line - 8)) =
    some ⟨deviceHandler h line, kernelCS, 0, false⟩

/-- What an interrupt leads to: a device that has requested it is served, the first in the order,
with the interrupts off, and no other request goes away. -/
def Taken (h : Handlers) (m m' : Machine) (line : Nat) : Prop :=
  line ∈ deviceLines ∧ m.controllers.Waits line ∧ (∀ k, m.controllers.Waits k → line ≤ k) ∧
    m'.entered = m.entered ++ [deviceHandler h line] ∧ m'.interruptFlag = false ∧
    ∀ k ∈ deviceLines, m'.controllers.requested k =
      if k = line then false else m.controllers.requested k

/-- A line that waits is the line of a device. -/
theorem IrqInv.device (hinv : IrqInv m) (hwaits : m.controllers.Waits line) : line ∈ deviceLines := by
  by_contra hdevice
  have hmask := hinv.masks.lines line hwaits.lt hdevice hwaits.ne
  have hunmasked := ((hinv.programmed.masked hwaits.lt).mp hwaits.unmasked).1
  rw [hmask] at hunmasked
  cases hunmasked

theorem rank_le_iff {k : Nat} (hline : line ∈ deviceLines) (hk : k ∈ deviceLines) :
    Cascade.rank line ≤ Cascade.rank k ↔ line ≤ k := by
  rcases mem_deviceLines.mp hline with rfl | rfl | rfl <;>
    rcases mem_deviceLines.mp hk with rfl | rfl | rfl <;> decide

theorem acknowledges_handler (hlinked : Linked h code) (hline : line ∈ deviceLines) :
    Acknowledges line (code (deviceHandler h line)) := by
  rcases mem_deviceLines.mp hline with rfl | rfl | rfl
  · rw [show deviceHandler h 0 = h.handlePitInterrupt from rfl, hlinked.pit]
    exact ⟨rfl, trivial⟩
  · rw [show deviceHandler h 1 = h.handleKeyboardInterrupt from rfl, hlinked.keyboard]
    exact ⟨by decide, rfl, by decide, trivial⟩
  · rw [show deviceHandler h 8 = h.handleRtcInterrupt from rfl, hlinked.rtc]
    exact ⟨by decide, rfl, by decide, trivial⟩

/-- While the interrupts are on nothing is in service. -/
theorem IrqInv.idle (hinv : IrqInv m) (hflag : m.interruptFlag = true) : m.controllers.Idle := by
  rcases hinv.service with hidle | ⟨hoff, _⟩
  · exact hidle.1
  · rw [hflag] at hoff
    cases hoff

/-- The processor takes an interrupt. -/
theorem IrqInv.accept (hinv : IrqInv m) (hgated : Gated h gates) (hlinked : Linked h code)
    (hstep : irqStep gates code m .accept = some m') :
    IrqInv m' ∧ ∃ line, Taken h m m' line := by
  unfold irqStep at hstep
  dsimp only at hstep
  split_ifs at hstep with hflag
  obtain ⟨⟨line, vector, p⟩, haccept, hmap⟩ := Option.bind_eq_some_iff.mp hstep
  obtain ⟨gate, hgate, rfl⟩ := Option.map_eq_some_iff.mp hmap
  have hidle := hinv.idle hflag
  have hprogrammed := hinv.programmed
  obtain ⟨hwaits, hfirst, hvector, rfl⟩ := Cascade.accept_spec hidle hprogrammed.wired haccept
  have hline := hinv.device hwaits
  have hfound : gate = ⟨deviceHandler h line, kernelCS, 0, false⟩ := by
    have hgate' := hgated line hline
    unfold Cascade.vector at hvector
    rw [hprogrammed.masterBase, hprogrammed.slaveBase] at hvector
    rw [← hvector] at hgate'
    exact Option.some.inj (hgate.symm.trans hgate')
  subst hfound
  refine ⟨⟨?_, hinv.masks, Or.inr ⟨rfl, line, hline, Cascade.taken_serves hidle line,
    acknowledges_handler hlinked hline⟩⟩, line, hline, hwaits, fun k hk => ?_, rfl, rfl, fun k hk => ?_⟩
  · show Programmed m.pics (m.controllers.taken line)
    unfold Cascade.taken
    split_ifs
    · exact ⟨⟨hprogrammed.wired.master, hprogrammed.wired.slave⟩, hprogrammed.masterStage,
        hprogrammed.slaveStage, hprogrammed.masterBase, hprogrammed.slaveBase,
        hprogrammed.masterMask, hprogrammed.slaveMask⟩
    · exact ⟨⟨hprogrammed.wired.master, hprogrammed.wired.slave⟩, hprogrammed.masterStage,
        hprogrammed.slaveStage, hprogrammed.masterBase, hprogrammed.slaveBase,
        hprogrammed.masterMask, hprogrammed.slaveMask⟩
  · exact (rank_le_iff hline (hinv.device hk)).mp (hfirst k hk)
  · have hne : k ≠ 2 := by
      rcases mem_deviceLines.mp hk with rfl | rfl | rfl <;> decide
    exact Cascade.requested_taken hne (lt_of_mem hk) hwaits.lt

/-- A device requests its line. -/
theorem requested_request (p : Cascade) {k : Nat} (hline : line ∈ deviceLines)
    (hk : k ∈ deviceLines) :
    (p.request line).requested k = if k = line then true else p.requested k := by
  unfold Cascade.request Cascade.requested Controller.request
  rcases mem_deviceLines.mp hline with rfl | rfl | rfl <;>
    rcases mem_deviceLines.mp hk with rfl | rfl | rfl <;> rfl

theorem IrqInv.request (hinv : IrqInv m) (line : Nat) :
    IrqInv { m with controllers := m.controllers.request line } := by
  obtain ⟨⟨hwired, hmaster, hslave, hmasterBase, hslaveBase, hmasterMask, hslaveMask⟩, hmasks,
    hservice⟩ := hinv
  unfold Cascade.request
  split_ifs
  · refine ⟨⟨⟨hwired.master, hwired.slave⟩, hmaster, hslave, hmasterBase, hslaveBase, hmasterMask,
      hslaveMask⟩, hmasks, ?_⟩
    exact hservice.imp_left fun hidle => ⟨⟨hidle.1.master, hidle.1.slave⟩, hidle.2⟩
  · refine ⟨⟨⟨hwired.master, hwired.slave⟩, hmaster, hslave, hmasterBase, hslaveBase, hmasterMask,
      hslaveMask⟩, hmasks, ?_⟩
    exact hservice.imp_left fun hidle => ⟨⟨hidle.1.master, hidle.1.slave⟩, hidle.2⟩

/-- A step of the kernel when nothing is in service. -/
theorem IrqInv.kernel {op : Op} (hinv : IrqInv m) (hallowed : Allowed m (.kernel op))
    (hended : m.handler.any Op.isEnd = false) :
    IrqInv (m.perform op) ∧ (m.perform op).entered = m.entered ∧
      ∀ n, (m.perform op).controllers.requested n = m.controllers.requested n := by
  obtain ⟨hprogrammed, hmasks, hservice⟩ := hinv
  have hidle : m.controllers.Idle ∧ Settled m.handler := by
    refine hservice.resolve_right ?_
    rintro ⟨_, line, _, _, hacknowledges⟩
    rw [hacknowledges.has_end] at hended
    cases hended
  cases op with
  | cli => exact ⟨⟨hprogrammed, hmasks, Or.inl hidle⟩, rfl, fun _ => rfl⟩
  | sti => exact ⟨⟨hprogrammed, hmasks, Or.inl hidle⟩, rfl, fun _ => rfl⟩
  | disableIrq irqNum =>
    have hkept := undisturbed_disable hprogrammed hmasks hallowed
    exact ⟨⟨hkept.programmed, hkept.masks, Or.inl ⟨hkept.idle hidle.1, hidle.2⟩⟩, hkept.entered,
      hkept.requested⟩
  | enableIrq irqNum =>
    have hkept := undisturbed_enable hprogrammed hmasks hallowed
    exact ⟨⟨hkept.programmed, hkept.masks, Or.inl ⟨hkept.idle hidle.1, hidle.2⟩⟩, hkept.entered,
      hkept.requested⟩
  | sendEoi irqNum => exact hallowed.elim

/-- What an event does to the requests of the devices and to the handlers that have been entered. -/
def Effect (h : Handlers) (m m' : Machine) : IrqEvent → Prop
  | .request line => line ∈ deviceLines ∧ m'.entered = m.entered ∧ ∀ k ∈ deviceLines,
      m'.controllers.requested k = if k = line then true else m.controllers.requested k
  | .accept => ∃ line, Taken h m m' line
  | .handler | .kernel _ => m'.entered = m.entered ∧ ∀ k ∈ deviceLines,
      m'.controllers.requested k = m.controllers.requested k

theorem entered_perform (m : Machine) (op : Op) : (m.perform op).entered = m.entered := by
  cases op with
  | sendEoi irqNum =>
    show (m.sendEoi irqNum).entered = m.entered
    unfold Machine.sendEoi
    split_ifs <;> rfl
  | cli => rfl
  | sti => rfl
  | disableIrq irqNum => rfl
  | enableIrq irqNum => rfl

/-- **One event.** -/
theorem IrqInv.next {e : IrqEvent} (hinv : IrqInv m) (hgated : Gated h gates)
    (hlinked : Linked h code) (hallowed : Allowed m e) (hstep : irqStep gates code m e = some m') :
    IrqInv m' ∧ Effect h m m' e := by
  cases e with
  | request line =>
    cases hstep
    exact ⟨hinv.request line, hallowed, rfl, fun k hk => requested_request _ hallowed hk⟩
  | accept => exact hinv.accept hgated hlinked hstep
  | handler =>
    unfold irqStep at hstep
    cases hhandler : m.handler with
    | nil =>
      rw [hhandler] at hstep
      cases hstep
    | cons op ops =>
      rw [hhandler] at hstep
      cases hstep
      obtain ⟨hinv', hrequested⟩ := hinv.handler hhandler
      exact ⟨hinv', entered_perform m op, fun k _ => hrequested k⟩
  | kernel op =>
    unfold irqStep at hstep
    dsimp only at hstep
    split_ifs at hstep with hended
    cases hstep
    obtain ⟨hinv', hentered, hrequested⟩ := hinv.kernel hallowed (eq_false_of_ne_true hended)
    exact ⟨hinv', hentered, fun k _ => hrequested k⟩

theorem outb_masterMask (s : Pics) (data : UInt8) (port : Nat) :
    (s.outb data port).masterMask = s.masterMask := by
  unfold Pics.outb
  split_ifs <;> rfl

theorem outb_slaveMask (s : Pics) (data : UInt8) (port : Nat) :
    (s.outb data port).slaveMask = s.slaveMask := by
  unfold Pics.outb
  split_ifs <;> rfl

/-- The machine when `i8259_init` is called: the controllers may be in any state. -/
def beforeInit (masterData slaveData : UInt8) (controllers : Cascade) : Machine where
  pics := Pics.start masterData slaveData
  controllers := controllers
  interruptFlag := false
  handler := []
  entered := []

/-- The controllers behind `i8259_init`. -/
theorem controllers_i8259Init (masterData slaveData : UInt8) (controllers : Cascade) :
    (beforeInit masterData slaveData controllers).i8259Init.controllers =
      { master := ⟨.mask, 0x20, 0x04, 0xFB, fun _ => false, fun _ => false⟩
        slave := ⟨.mask, 0x28, 0x02, 0xFF, fun _ => false, fun _ => false⟩ } := by
  have hports : master8259Data = 0x21 ∧ slave8259Data = 0xA1 ∧ master8259Port = 0x20 ∧
      slave8259Port = 0xA0 := by decide
  have hmaster := Controller.initialised (controllers.master.data 0xFF) 0x20 0x04 0x01 0xFF
  have hslave := Controller.initialised (controllers.slave.data 0xFF) 0x28 0x02 0x01 0xFF
  have hcascade : ¬ cascadeIrq &&& slaveOffset ≠ 0 := by decide
  unfold Machine.i8259Init Machine.enableIrq Devices.enableIrq
  simp only [Machine.outb, beforeInit, if_neg hcascade, hports.1, hports.2.1, hports.2.2.1,
    hports.2.2.2, Cascade.outb_masterData, Cascade.outb_slaveData, Cascade.outb_masterCommand,
    Cascade.outb_slaveCommand, outb_masterMask, outb_slaveMask, Pics.start, maskAllPorts, icw1,
    icw2Master, icw2Slave, icw3Master, icw3Slave, icw4, hmaster, hslave]
  have hmask : (0xFF : UInt8) &&& ~~~lineBit cascadeIrq = 0xFB := by decide
  rw [hmask]
  rfl

theorem masks_i8259Init (masterData slaveData : UInt8) :
    (i8259Init (Pics.start masterData slaveData)).masterMask = 0xFB ∧
      (i8259Init (Pics.start masterData slaveData)).slaveMask = 0xFF := by
  have hcascade : ¬ cascadeIrq &&& slaveOffset ≠ 0 := by decide
  unfold i8259Init Devices.enableIrq
  simp only [if_neg hcascade, outb_masterMask, outb_slaveMask, Pics.start]
  decide

theorem irqInv_i8259Init (masterData slaveData : UInt8) (controllers : Cascade) :
    IrqInv (beforeInit masterData slaveData controllers).i8259Init := by
  have hpics : (beforeInit masterData slaveData controllers).i8259Init.pics =
      i8259Init (Pics.start masterData slaveData) := rfl
  have hcontrollers := controllers_i8259Init masterData slaveData controllers
  obtain ⟨hmaster, hslave⟩ := masks_i8259Init masterData slaveData
  refine ⟨?_, ?_, Or.inl ⟨?_, ?_⟩⟩
  · rw [hcontrollers, hpics]
    exact ⟨⟨by decide, rfl⟩, rfl, rfl, rfl, rfl, hmaster.symm, hslave.symm⟩
  · rw [hpics]
    refine ⟨fun n hn _ hcascade => ?_, ?_⟩
    · rw [masked_i8259Init masterData slaveData hn, decide_eq_true hcascade]
    · rw [masked_i8259Init masterData slaveData (by decide)]
      rfl
  · rw [hcontrollers]
    exact ⟨fun _ _ => rfl, fun _ _ => rfl⟩
  · exact trivial

/-- The processor finds the gates of `idt_init` under the vectors of the devices. -/
theorem gated_idtInit (hfit : h.Fit) (uninit : IdtDesc) :
    Gated h fun vector => readGate (pack (idtInit h uninit emptyIdt vector).fields) := by
  intro line hline
  dsimp only
  rw [(idt_gates hfit uninit _).1]
  rcases mem_deviceLines.mp hline with rfl | rfl | rfl <;> rfl

/-- With the interrupts on, a request that is not masked is not kept back. -/
def Opens (gates : Nat → Option Gate) (code : Nat → List Op) (m : Machine) : Prop :=
  m.interruptFlag = true → ∀ line ∈ deviceLines, m.controllers.requested line = true →
    m.pics.masked line = false → (irqStep gates code m .accept).isSome

theorem IrqInv.opens (hinv : IrqInv m) (hgated : Gated h gates) : Opens gates code m := by
  intro hflag line hline hrequested hmasked
  have hidle := hinv.idle hflag
  have hne : line ≠ 2 := by
    rcases mem_deviceLines.mp hline with rfl | rfl | rfl <;> decide
  have hwaits : m.controllers.Waits line :=
    ⟨lt_of_mem hline, hne, hrequested, (hinv.programmed.masked (lt_of_mem hline)).mpr
      ⟨hmasked, fun _ => hinv.masks.cascade⟩⟩
  obtain ⟨⟨line', vector, p⟩, haccept⟩ :=
    Option.isSome_iff_exists.mp (Cascade.accept_isSome hidle hwaits)
  obtain ⟨hwaits', _, hvector, _⟩ := Cascade.accept_spec hidle hinv.programmed.wired haccept
  have hgate := hgated line' (hinv.device hwaits')
  unfold Cascade.vector at hvector
  rw [hinv.programmed.masterBase, hinv.programmed.slaveBase] at hvector
  rw [← hvector] at hgate
  unfold irqStep
  dsimp only
  rw [if_pos hflag, haccept, Option.bind_some, hgate]
  rfl

/-- What an interrupt that is taken leads to. -/
def LeadsToHandler (h : Handlers) (gates : Nat → Option Gate) (code : Nat → List Op) (m : Machine) :
    IrqEvent → Prop
  | .accept => Reaches (irqStep gates code) (fun m' => ∃ line, Taken h m m' line) m .accept
  | _ => True

/-- **From a device to its handler.** Whatever state the controllers are in when `i8259_init` is
called, and whatever the order of requests, interrupts and steps of the kernel then is: every
interrupt that is taken leads through its gate to the handler of a device that has requested it, the
first in the order of the lines, and takes no other request away; and whenever the interrupts are on
no request of a line that is not masked is kept back. -/
theorem interrupts_delivered (hfit : h.Fit) (hlinked : Linked h code) (uninit : IdtDesc)
    (masterData slaveData : UInt8) (controllers : Cascade) (es : List IrqEvent) :
    let gates := fun vector => readGate (pack (idtInit h uninit emptyIdt vector).fields)
    let m := (beforeInit masterData slaveData controllers).i8259Init
    Along (irqStep gates code) Allowed m es →
      Along (irqStep gates code) (fun m e => LeadsToHandler h gates code m e ∧ Opens gates code m) m es := by
  intro gates m hallowed
  have hgated : Gated h gates := gated_idtInit hfit uninit
  refine along_of_invariant (I := IrqInv) ?_ ?_ hallowed
    (irqInv_i8259Init masterData slaveData controllers)
  · intro m e m' hinv hp hstep
    exact (hinv.next hgated hlinked hp hstep).1
  · intro m e hinv hp
    refine ⟨?_, hinv.opens hgated⟩
    cases e with
    | accept => exact fun m' hstep => (hinv.accept hgated hlinked hstep).2
    | request line => trivial
    | handler => trivial
    | kernel op => trivial

/-- What the handlers of `sampleHandlers` do. -/
def sampleCode (addr : Nat) : List Op :=
  if addr = sampleHandlers.handlePitInterrupt then handlePitInterrupt
  else if addr = sampleHandlers.handleKeyboardInterrupt then handleKeyboardInterrupt
  else if addr = sampleHandlers.handleRtcInterrupt then handleRtcInterrupt
  else []

theorem linked_sampleCode : Linked sampleHandlers sampleCode := ⟨rfl, rfl, rfl⟩

/-- Controllers that have been left in the middle of an initialisation. -/
def sampleControllers : Cascade where
  master := ⟨.wiring true, 0x08, 0, 0, fun _ => true, fun _ => true⟩
  slave := ⟨.mask, 0x70, 0, 0, fun _ => false, fun _ => true⟩

/-- The clock ticks while a key is handled. -/
def keyThenTick : List IrqEvent :=
  [.request 1, .kernel (.enableIrq 1), .kernel (.enableIrq 0), .kernel .sti, .accept, .handler,
    .request 0, .handler, .handler, .handler, .handler, .accept]

theorem interrupts_delivered_sample :
    let gates := fun vector => readGate (pack (idtInit sampleHandlers (emptyIdt 0) emptyIdt vector).fields)
    Along (irqStep gates sampleCode) (fun m e => LeadsToHandler sampleHandlers gates sampleCode m e ∧
      Opens gates sampleCode m) (beforeInit 0 0 sampleControllers).i8259Init keyThenTick :=
  interrupts_delivered fit_sampleHandlers linked_sampleCode (emptyIdt 0) 0 0 sampleControllers
    keyThenTick (by decide +kernel)

/-! ## Requests and handlers -/

/-- The handlers are apart. -/
structure Handlers.Apart (h : Handlers) : Prop where
  pit_keyboard : h.handlePitInterrupt ≠ h.handleKeyboardInterrupt
  pit_rtc : h.handlePitInterrupt ≠ h.handleRtcInterrupt
  keyboard_rtc : h.handleKeyboardInterrupt ≠ h.handleRtcInterrupt

/-- How often a device requests its line. -/
def requestsOf (line : Nat) (es : List IrqEvent) : Nat :=
  es.countP fun e =>
    match e with
    | .request line' => line' = line
    | _ => false

/-- How often the handler of a device has been entered. -/
def entries (h : Handlers) (line : Nat) (m : Machine) : Nat :=
  m.entered.count (deviceHandler h line)

theorem deviceHandler_inj (hapart : h.Apart) {k : Nat} (hline : line ∈ deviceLines)
    (hk : k ∈ deviceLines) : deviceHandler h line = deviceHandler h k ↔ line = k := by
  obtain ⟨h1, h2, h3⟩ := hapart
  rcases mem_deviceLines.mp hline with rfl | rfl | rfl <;>
    rcases mem_deviceLines.mp hk with rfl | rfl | rfl <;>
      simp [deviceHandler, h1, h2, h3, h1.symm, h2.symm, h3.symm]

/-- What one event does to the account of a line. -/
theorem Effect.account {e : IrqEvent} (heffect : Effect h m m' e) (hapart : h.Apart)
    (hline : line ∈ deviceLines) :
    entries h line m' + (m'.controllers.requested line).toNat ≤
        entries h line m + (m.controllers.requested line).toNat + requestsOf line [e] ∧
      (m.controllers.requested line = true ∨ requestsOf line [e] ≠ 0 →
        m'.controllers.requested line = true ∨ entries h line m < entries h line m') ∧
      entries h line m ≤ entries h line m' := by
  unfold entries
  cases e with
  | request k =>
    obtain ⟨hk, hentered, hrequested⟩ := heffect
    have hcount : requestsOf line [.request k] = if k = line then 1 else 0 := by
      simp [requestsOf, List.countP_cons]
    rw [hentered, hrequested line hline, hcount]
    by_cases heq : line = k
    · subst heq
      have hle := Bool.toNat_le (m.controllers.requested line)
      rw [if_pos rfl, if_pos rfl]
      exact ⟨by simp, fun _ => Or.inl rfl, Nat.le_refl _⟩
    · rw [if_neg heq, if_neg (Ne.symm heq)]
      exact ⟨Nat.le_refl _, fun hreq => Or.inl (hreq.resolve_right fun hne => hne rfl), Nat.le_refl _⟩
  | accept =>
    obtain ⟨k, hk, hwaits, _, hentered, _, hrequested⟩ := heffect
    rw [hentered, hrequested line hline, List.count_append, List.count_singleton]
    by_cases heq : line = k
    · subst heq
      have hwas : m.controllers.requested line = true := hwaits.requested
      rw [if_pos rfl, hwas]
      simp [requestsOf]
    · have hne : ¬ (deviceHandler h k == deviceHandler h line) = true := by
        rw [beq_iff_eq, deviceHandler_inj hapart hk hline]
        exact Ne.symm heq
      rw [if_neg heq, if_neg hne]
      exact ⟨Nat.le_refl _, fun hreq => Or.inl (hreq.resolve_right fun hne => hne rfl), Nat.le_refl _⟩
  | handler =>
    obtain ⟨hentered, hrequested⟩ := heffect
    rw [hentered, hrequested line hline]
    exact ⟨Nat.le_refl _, fun hreq => Or.inl (hreq.resolve_right fun hne => hne rfl), Nat.le_refl _⟩
  | kernel op =>
    obtain ⟨hentered, hrequested⟩ := heffect
    rw [hentered, hrequested line hline]
    exact ⟨Nat.le_refl _, fun hreq => Or.inl (hreq.resolve_right fun hne => hne rfl), Nat.le_refl _⟩

theorem requestsOf_cons (line : Nat) (e : IrqEvent) (es : List IrqEvent) :
    requestsOf line (e :: es) = requestsOf line [e] + requestsOf line es :=
  @List.countP_append _ _ [e] es

/-- The account of a line over a run. -/
theorem IrqInv.account (hinv : IrqInv m) (hgated : Gated h gates) (hlinked : Linked h code)
    (hapart : h.Apart) (hline : line ∈ deviceLines)
    (hallowed : Along (irqStep gates code) Allowed m es)
    (hrun : run (irqStep gates code) m es = some m') :
    IrqInv m' ∧ entries h line m' + (m'.controllers.requested line).toNat ≤
        entries h line m + (m.controllers.requested line).toNat + requestsOf line es ∧
      (m.controllers.requested line = true ∨ requestsOf line es ≠ 0 →
        m'.controllers.requested line = true ∨ entries h line m < entries h line m') ∧
      entries h line m ≤ entries h line m' := by
  induction es generalizing m with
  | nil =>
    cases hrun
    exact ⟨hinv, Nat.le_refl _, fun hreq => Or.inl (hreq.resolve_right fun hne => hne rfl), Nat.le_refl _⟩
  | cons e es ih =>
    obtain ⟨u, hstep, hrest⟩ := run_cons.mp hrun
    obtain ⟨hp, hallowed'⟩ := along_cons hallowed hstep
    obtain ⟨hinv', heffect⟩ := hinv.next hgated hlinked hp hstep
    obtain ⟨hle, hkept, hmono⟩ := heffect.account hapart hline
    obtain ⟨hend, hle', hkept', hmono'⟩ := ih hinv' hallowed' hrest
    rw [requestsOf_cons]
    refine ⟨hend, by omega, fun hreq => ?_, Nat.le_trans hmono hmono'⟩
    by_cases hlater : requestsOf line es = 0
    · have hnow : m.controllers.requested line = true ∨ requestsOf line [e] ≠ 0 :=
        hreq.imp_right fun hne => by omega
      rcases hkept hnow with hrequested | hentered
      · exact (hkept' (Or.inl hrequested)).imp_right fun hlt => by omega
      · exact Or.inr (by omega)
    · exact (hkept' (Or.inr hlater)).imp_right fun hlt => by omega

/-- **No request is lost, and none is served twice.** In every run behind `i8259_init` the handler of
a device is entered at most as often as the device has requested its line, and behind each request
the handler is entered again, or the request still stands. -/
theorem requests_served (hfit : h.Fit) (hapart : h.Apart) (hlinked : Linked h code)
    (uninit : IdtDesc) (masterData slaveData : UInt8) (controllers : Cascade)
    (hline : line ∈ deviceLines) :
    let step := irqStep (fun vector => readGate (pack (idtInit h uninit emptyIdt vector).fields)) code
    let m₀ := (beforeInit masterData slaveData controllers).i8259Init
    Along step Allowed m₀ es → run step m₀ es = some m →
    Along step Allowed m (.request line :: es') → run step m (.request line :: es') = some m' →
      entries h line m' + (m'.controllers.requested line).toNat ≤
          requestsOf line (es ++ .request line :: es') ∧
        (m'.controllers.requested line = true ∨ entries h line m < entries h line m') := by
  intro step m₀ hallowed hrun hallowed' hrun'
  have hgated : Gated h fun vector => readGate (pack (idtInit h uninit emptyIdt vector).fields) :=
    gated_idtInit hfit uninit
  obtain ⟨hinv, hle, _, _⟩ := (irqInv_i8259Init masterData slaveData controllers).account hgated
    hlinked hapart hline hallowed hrun
  obtain ⟨_, hle', hkept, _⟩ := hinv.account hgated hlinked hapart hline hallowed' hrun'
  have hentries : entries h line (beforeInit masterData slaveData controllers).i8259Init = 0 := rfl
  have hrequested : (beforeInit masterData slaveData controllers).i8259Init.controllers.requested line =
      false := by
    rw [controllers_i8259Init]
    rcases mem_deviceLines.mp hline with rfl | rfl | rfl <;> rfl
  rw [hentries, hrequested, Bool.toNat_false] at hle
  have happend : requestsOf line (es ++ .request line :: es') =
      requestsOf line es + requestsOf line (.request line :: es') := List.countP_append
  refine ⟨by omega, hkept (Or.inr ?_)⟩
  rw [requestsOf_cons]
  simp [requestsOf]

theorem requests_served_sample : ∃ m',
    run (irqStep (fun vector => readGate (pack (idtInit sampleHandlers (emptyIdt 0) emptyIdt
      vector).fields)) sampleCode) (beforeInit 0 0 sampleControllers).i8259Init keyThenTick = some m' ∧
    entries sampleHandlers 1 m' + (m'.controllers.requested 1).toNat ≤ 1 := by
  have hapart : sampleHandlers.Apart := ⟨by decide, by decide, by decide⟩
  obtain ⟨m', hm'⟩ := Option.isSome_iff_exists.mp (show (run (irqStep (fun vector => readGate
    (pack (idtInit sampleHandlers (emptyIdt 0) emptyIdt vector).fields)) sampleCode)
    (beforeInit 0 0 sampleControllers).i8259Init keyThenTick).isSome = true by decide +kernel)
  refine ⟨m', hm', ?_⟩
  exact (@requests_served sampleHandlers sampleCode _ m' 1 [] _ fit_sampleHandlers hapart
    linked_sampleCode (emptyIdt 0) 0 0 sampleControllers (by decide) trivial rfl (by decide +kernel)
    hm').1

end Runs

end LinuxBasedOS.Devices
