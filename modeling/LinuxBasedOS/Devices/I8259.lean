import LinuxBasedOS.Base.Word

/-!
# The interrupt controllers

Two controllers have eight interrupt lines each; the second is behind line 2 of the first.
`i8259.c` keeps a copy of the mask of each in a variable, changes one bit of the copy and writes
it to the data port. `Pics` holds the copies and the bytes last written. `i8259_init` writes to the
command ports as well, and other bytes than masks to the data ports.
-/

namespace LinuxBasedOS.Devices

structure Pics where
  masterMask : UInt8
  slaveMask : UInt8
  masterData : UInt8
  slaveData : UInt8
  deriving DecidableEq

/-- `1 << line`, in a byte. -/
def lineBit (line : Nat) : UInt8 := UInt8.ofNat (1 <<< line)

def slaveOffset : Nat := 8

def enableIrq (s : Pics) (irqNum : Nat) : Pics :=
  if irqNum &&& slaveOffset ≠ 0 then
    let mask := s.slaveMask &&& ~~~ lineBit (irqNum - slaveOffset)
    { s with slaveMask := mask, slaveData := mask }
  else
    let mask := s.masterMask &&& ~~~ lineBit irqNum
    { s with masterMask := mask, masterData := mask }

def disableIrq (s : Pics) (irqNum : Nat) : Pics :=
  if irqNum &&& slaveOffset ≠ 0 then
    let mask := s.slaveMask ||| lineBit (irqNum - slaveOffset)
    { s with slaveMask := mask, slaveData := mask }
  else
    let mask := s.masterMask ||| lineBit irqNum
    { s with masterMask := mask, masterData := mask }

/-! ## i8259_init -/

def master8259Port : Nat := 0x20

def slave8259Port : Nat := 0xA0

def master8259Data : Nat := master8259Port ||| 0x1

def slave8259Data : Nat := slave8259Port ||| 0x1

def maskAllPorts : UInt8 := 0xFF

def icw1 : UInt8 := 0x11

def icw2Master : UInt8 := 0x20

def icw2Slave : UInt8 := 0x28

def icw3Master : UInt8 := 0x04

def icw3Slave : UInt8 := 0x02

def icw4 : UInt8 := 0x01

def cascadeIrq : Nat := 2

/-- `outb(data, port)`; nothing reads what the command ports have. -/
def Pics.outb (s : Pics) (data : UInt8) (port : Nat) : Pics :=
  if port = master8259Data then { s with masterData := data }
  else if port = slave8259Data then { s with slaveData := data }
  else s

def i8259Init (s : Pics) : Pics :=
  let s := s.outb maskAllPorts master8259Data
  let s := s.outb maskAllPorts slave8259Data
  let s := s.outb icw1 master8259Port
  let s := s.outb icw2Master master8259Data
  let s := s.outb icw3Master master8259Data
  let s := s.outb icw4 master8259Data
  let s := s.outb icw1 slave8259Port
  let s := s.outb icw2Slave slave8259Data
  let s := s.outb icw3Slave slave8259Data
  let s := s.outb icw4 slave8259Data
  let s := s.outb s.masterMask master8259Data
  let s := s.outb s.slaveMask slave8259Data
  enableIrq s cascadeIrq

/-- The initial values of the copies; the data ports have anything. -/
def Pics.start (masterData slaveData : UInt8) : Pics where
  masterMask := 0xFF
  slaveMask := 0xFF
  masterData := masterData
  slaveData := slaveData

/-! ## Copies and ports -/

/-- The data ports have the copies. -/
structure Pics.Written (s : Pics) : Prop where
  master : s.masterData = s.masterMask
  slave : s.slaveData = s.slaveMask

theorem Pics.Written.enableIrq {s : Pics} (h : s.Written) (irqNum : Nat) :
    (enableIrq s irqNum).Written := by
  unfold Devices.enableIrq
  split_ifs
  · exact ⟨h.master, rfl⟩
  · exact ⟨rfl, h.slave⟩

theorem Pics.Written.disableIrq {s : Pics} (h : s.Written) (irqNum : Nat) :
    (disableIrq s irqNum).Written := by
  unfold Devices.disableIrq
  split_ifs
  · exact ⟨h.master, rfl⟩
  · exact ⟨rfl, h.slave⟩

end LinuxBasedOS.Devices
