import MiniVirt.Kvm.Vmx

/-!
# `interrupt.c`: the event slot

`pending_intr_info` is the one slot of a vCPU.  It holds a request of
`MINI_KVM_VCPU_INJECT_IRQ`, an external interrupt whose delivery an exit cut short, or an NMI to be
injected again.
-/

namespace MiniVirt.Kvm

def intrInfoValidMask : BitVec 32 := 0x80000000
def intrTypeExtIntr : BitVec 32 := 0
def intrTypeNmiIntr : BitVec 32 := 0x200

def extIntrInfo (vector : BitVec 32) : BitVec 32 :=
  intrInfoValidMask ||| intrTypeExtIntr ||| vector

def nmiInfo : BitVec 32 := intrInfoValidMask ||| intrTypeNmiIntr ||| 2

def miniVcpuInjectIrq (vector : Int) : M Int := do
  if vector < 0 ∨ vector > 255 then
    return -einval
  if vector < 32 then
    return -einval
  if (← get).vcpu.pendingIntrInfo ≠ 0 then
    return -ebusy
  modifyVcpu fun v => { v with pendingIntrInfo := extIntrInfo (BitVec.ofInt 32 vector) }
  return 0

def miniVcpuTakeIntrInfo : M (BitVec 32) := do
  let info := (← get).vcpu.pendingIntrInfo
  modifyVcpu fun v => { v with pendingIntrInfo := 0 }
  return info

/-- What `mini_vcpu_complete_intr_info()` leaves in the slot for the IDT-vectoring information
`idtv`. -/
def redelivered (idtv : BitVec 64) : BitVec 32 :=
  if idtv &&& 0x80000000 = 0 then 0
  else if idtv >>> 8 &&& 7 = intrTypeExtIntr.setWidth 64 then
    extIntrInfo ((idtv &&& 0xff).setWidth 32)
  else 0

def miniVcpuCompleteIntrInfo : M Unit := do
  modifyVcpu fun v => { v with pendingIntrInfo := 0 }
  let idtv := (← miniVmread .idtVectoringInfoField).getD 0
  modifyVcpu fun v => { v with pendingIntrInfo := redelivered idtv }

def miniVcpuReinjectNmi : M Unit := do
  let ib := (← miniVmread .guestInterruptibilityInfo).getD 0
  if ib &&& 8 ≠ 0 then
    return ()
  if (← get).vcpu.pendingIntrInfo ≠ 0 then
    return ()
  modifyVcpu fun v => { v with pendingIntrInfo := nmiInfo }

end MiniVirt.Kvm
