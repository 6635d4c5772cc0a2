import MiniVirt.Kvm.Vmx

/-!
# `device.c`: port I/O and the serial capture
-/

namespace MiniVirt.Kvm

def miniKvmSerialPort : BitVec 32 := 0x3f8

def newline : BitVec 8 := 10

/-- The search for the newline that ends the line before: below index `i`, from the top. -/
def lineStart (serial : List (BitVec 8)) : Nat → Nat
  | 0 => 0
  | i + 1 => if serial[i]? = some newline then i + 1 else lineStart serial i

/-- `mini_serial_out()`: the new capture buffer, and the copy of the line that goes to the log when the
byte is a newline. -/
def miniSerialOut (serial : List (BitVec 8)) (c : BitVec 8) : List (BitVec 8) × Option LineCopy :=
  let serial := if serial.length < miniKvmSerialSize - 1 then serial ++ [c] else serial
  if c ≠ newline then (serial, none)
  else
    let start : Int := lineStart serial (serial.length - 1)
    (serial, some ⟨start, serial.length - start⟩)

/-- `sizeof(line)`. -/
def lineSize : Nat := miniKvmSerialSize + 1

/-- The call of `mini_serial_out()` for the VM of the vCPU. -/
def serialOut (c : BitVec 8) : M Unit :=
  modify fun s =>
    let out := miniSerialOut s.kvm.serial c
    { s with kvm := { s.kvm with serial := out.1 }, lineCopies := s.lineCopies ++ out.2.toList }

/-- The `buf` of MINI_KVM_VM_GET_SERIAL. -/
def miniGetSerial (serial : List (BitVec 8)) : List (BitVec 8) :=
  let buf : List (BitVec 8) := List.replicate 256 0
  let n := min serial.length 255
  serial.take n ++ buf.drop n

/-- `mask` of an OUT of `size` bytes. -/
def ioMask (size : BitVec 32) : BitVec 32 := if size = 1 then 0xff else if size = 2 then 0xffff else 0xffffffff

/-- The access of an I/O exit with the qualification `qual`. -/
def ioAccess (qual : BitVec 64) : M Unit := do
  let size := (qual &&& 7).setWidth 32 + 1
  let isIn := qual &&& 8 ≠ 0
  let port : BitVec 32 := (qual >>> 16).setWidth 32 &&& 0xffff
  if isIn then
    -- every IN reads 0
    modifyVcpu fun v => { v with regs := Function.update v.regs 0 0 }
  else
    let val := ((← get).vcpu.regs 0).setWidth 32 &&& ioMask size
    recordOut ⟨port, val⟩
    if port = miniKvmSerialPort then
      serialOut (val.setWidth 8)

/-- The end of the handler, where RIP moves on. -/
def ioAdvance : M Int := do
  let len := (← miniVmread .vmExitInstructionLen).getD 0
  let rip := (← miniVmread .guestRip).getD 0
  let _ ← miniVmwrite .guestRip (rip + len)
  modifyVcpu fun v => { v with nIoExits := v.nIoExits + 1 }
  return 0

def miniHandleIoExit : M Int := do
  let qual := (← miniVmread .exitQualification).getD 0
  if qual &&& 0x10 ≠ 0 then
    return -eio
  else
    ioAccess qual
    ioAdvance

end MiniVirt.Kvm
