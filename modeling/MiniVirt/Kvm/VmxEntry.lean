import MiniVirt.Lib.X86

/-!
# `vmx_entry.S`: the world switch

The code of `mini_vmx_enter` and `mini_vmx_vmexit`, instruction by instruction.
-/

namespace MiniVirt.Kvm.VmxEntry

open MiniVirt.X86

/-! ### The layout of `vcpu->regs[]` and of the stack -/

def REG_RAX : Word := 0
def REG_RCX : Word := 8
def REG_RDX : Word := 16
def REG_RBX : Word := 24
def REG_RBP : Word := 40
def REG_RSI : Word := 48
def REG_RDI : Word := 56
def REG_R8 : Word := 64
def REG_R9 : Word := 72
def REG_R10 : Word := 80
def REG_R11 : Word := 88
def REG_R12 : Word := 96
def REG_R13 : Word := 104
def REG_R14 : Word := 112
def REG_R15 : Word := 120

def STACK_LAUNCHED : Word := 0
def STACK_VCPU : Word := 8

def HOST_RSP_ENCODING : Word := 0x6c14

/-! ### The code -/

inductive Label where
  | vmresume
  | vmlaunch
  | mini_vmx_vmexit
  | restore_host
  | vmfail
  deriving DecidableEq

/-- The registers and the arguments go to the stack, and HOST_RSP points to them. -/
def saveHost : List X86.Op :=
  [.push .rbp,
    .mov .rsp .rbp,
    .push .r15,
    .push .r14,
    .push .r13,
    .push .r12,
    .push .rbx,
    .push .rdi,
    .push .rsi,
    .mov .rsp .rax,
    .movImm HOST_RSP_ENCODING .rcx,
    .vmwrite .rax .rcx]

/-- `launched` goes to the carry flag and the pointer to the vCPU to `rax`. -/
def fetchArgs : List X86.Op :=
  [.load32 STACK_LAUNCHED .rsp .rbx,
    .bt 0 .rbx,
    .load STACK_VCPU .rsp .rax]

def loadGuest : List X86.Op :=
  [.load REG_RCX .rax .rcx,
    .load REG_RDX .rax .rdx,
    .load REG_RBX .rax .rbx,
    .load REG_RBP .rax .rbp,
    .load REG_RSI .rax .rsi,
    .load REG_RDI .rax .rdi,
    .load REG_R8 .rax .r8,
    .load REG_R9 .rax .r9,
    .load REG_R10 .rax .r10,
    .load REG_R11 .rax .r11,
    .load REG_R12 .rax .r12,
    .load REG_R13 .rax .r13,
    .load REG_R14 .rax .r14,
    .load REG_R15 .rax .r15,
    .load REG_RAX .rax .rax]

def saveGuest : List X86.Op :=
  [.push .rax,
    .load (STACK_VCPU + 8) .rsp .rax,
    .popMem REG_RAX .rax,
    .store .rcx REG_RCX .rax,
    .store .rdx REG_RDX .rax,
    .store .rbx REG_RBX .rax,
    .store .rbp REG_RBP .rax,
    .store .rsi REG_RSI .rax,
    .store .rdi REG_RDI .rax,
    .store .r8 REG_R8 .rax,
    .store .r9 REG_R9 .rax,
    .store .r10 REG_R10 .rax,
    .store .r11 REG_R11 .rax,
    .store .r12 REG_R12 .rax,
    .store .r13 REG_R13 .rax,
    .store .r14 REG_R14 .rax,
    .store .r15 REG_R15 .rax,
    .xor32 .rbx .rbx]

def clearRegs : List X86.Op :=
  [.addImm 16 .rsp,
    .xor32 .rax .rax,
    .xor32 .rcx .rcx,
    .xor32 .rdx .rdx,
    .xor32 .rbp .rbp,
    .xor32 .rsi .rsi,
    .xor32 .rdi .rdi,
    .xor32 .r8 .r8,
    .xor32 .r9 .r9,
    .xor32 .r10 .r10,
    .xor32 .r11 .r11,
    .xor32 .r12 .r12,
    .xor32 .r13 .r13,
    .xor32 .r14 .r14,
    .xor32 .r15 .r15,
    .mov32 .rbx .rax]

def restoreHost : List X86.Op :=
  [.pop .rbx,
    .pop .r12,
    .pop .r13,
    .pop .r14,
    .pop .r15,
    .pop .rbp]

def mini_vmx_enter : List (Instr Label) :=
  saveHost.map .op ++ fetchArgs.map .op ++ loadGuest.map .op ++
    [.jnc .vmlaunch,
      .label .vmresume,
      .enter .vmresume,
      .jmp .vmfail,
      .label .vmlaunch,
      .enter .vmlaunch,
      .jmp .vmfail,
      .label .mini_vmx_vmexit] ++
    saveGuest.map .op ++
    [.jmp .restore_host,
      .label .restore_host] ++
    clearRegs.map .op ++ restoreHost.map .op ++
    [.ret,
      .label .vmfail,
      .op (.movImm32 1 .rbx),
      .jmp .restore_host]

end MiniVirt.Kvm.VmxEntry
