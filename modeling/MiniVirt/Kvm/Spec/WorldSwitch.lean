import MiniVirt.Kvm.VmxEntry

/-!
# The world switch

`mini_vmx_enter` enters the guest with the registers of `vcpu->regs[]`, `mini_vmx_vmexit` stores what the guest leaves
in them, and both ways of returning give the caller its registers back (`worldSwitch`).
-/

namespace MiniVirt.Kvm.VmxEntry

open MiniVirt.X86

/-! ### The law -/

/-- The index of a register in `vcpu->regs[]`. -/
def slot : Reg → Nat
  | .rax => 0
  | .rcx => 1
  | .rdx => 2
  | .rbx => 3
  | .rsp => 4
  | .rbp => 5
  | .rsi => 6
  | .rdi => 7
  | .r8 => 8
  | .r9 => 9
  | .r10 => 10
  | .r11 => 11
  | .r12 => 12
  | .r13 => 13
  | .r14 => 14
  | .r15 => 15

/-- What `vcpu->regs[]` holds for a register. -/
def guestReg (m : Mem) (vcpu : Word) (r : Reg) : Word := m.load64 (vcpu + .ofNat 64 (8 * slot r))

/-- A call `mini_vmx_enter(vcpu, launched)`: the arguments are in `rdi` and in the lower half of `rsi`, the return
address is on the stack, and the stack does not run into `vcpu->regs[]`. -/
structure Called (s : State) (vcpu : Word) (launched : Bool) : Prop where
  rdi : s.regs .rdi = vcpu
  rsi : (s.regs .rsi).toNat % 2 ^ 32 = launched.toNat
  disjoint : Mem.Disjoint (s.regs .rsp - 72) 80 vcpu 128

/-- What the call leaves when it returns to `ret` in the state `t`. -/
structure Switched (s : State) (vcpu : Word) (launched : Bool) (vm : GuestEntry) (t : State) (ret : Word) : Prop where
  entered : ∃ g, t.entered = s.entered ++ [(if launched then .vmresume else .vmlaunch, g)] ∧
    ∀ r, r ≠ .rsp → g r = guestReg s.mem vcpu r
  exits : ∀ guest, vm = .exits guest →
    (∀ r, r ≠ .rsp → guestReg t.mem vcpu r = guest r) ∧ guestReg t.mem vcpu .rsp = guestReg s.mem vcpu .rsp ∧
      t.regs .rax = 0
  fails : vm = .fails → (∀ r, guestReg t.mem vcpu r = guestReg s.mem vcpu r) ∧ t.regs .rax = 1
  /-- Nothing is written outside of `vcpu->regs[]` and of the stack below the return address. -/
  outside : ∀ x : Word, 72 ≤ (x - (s.regs .rsp - 72)).toNat → 128 ≤ (x - vcpu).toNat → t.mem x = s.mem x
  kept : ∀ r ∈ [.rbx, .rbp, .r12, .r13, .r14, .r15], t.regs r = s.regs r
  rsp : t.regs .rsp = s.regs .rsp + 8
  ret : ret = s.mem.load64 (s.regs .rsp)
  cleared : ∀ r ∈ [.rcx, .rdx, .rsi, .rdi, .r8, .r9, .r10, .r11], t.regs r = 0

/-! ### The registers of the guest in memory -/

variable {s : State} {vcpu : Word} {launched : Bool} {vm : GuestEntry}

theorem slot_lt (r : Reg) : slot r < 16 := by
  cases r <;> decide

theorem slot_injective : Function.Injective slot := by
  intro r r' h
  cases r <;> cases r' <;> first | rfl | exact absurd h (by decide)

/-- A store to another slot. -/
theorem guestReg_store (m : Mem) (vcpu v : Word) (q r : Reg) :
    guestReg (m.store64 (vcpu + .ofNat 64 (8 * slot q)) v) vcpu r = if r = q then v else guestReg m vcpu r := by
  unfold guestReg
  have hq := slot_lt q
  have hr := slot_lt r
  split
  · rename_i h
    rw [h, Mem.load64_store64_self]
  · rename_i h
    apply Mem.load64_store64_of_apart
    apply Mem.apart_offsets
    · omega
    · omega
    · exact fun hslot => h (slot_injective hslot.symm)

/-- The stack below the return address is no part of `vcpu->regs[]`. -/
theorem guestReg_congr {m m' : Mem} {a : Word} (hd : Mem.Disjoint a 80 vcpu 128)
    (h : ∀ x : Word, 72 ≤ (x - a).toNat → m' x = m x) (r : Reg) : guestReg m' vcpu r = guestReg m vcpu r := by
  apply Mem.load64_congr
  intro i hi
  apply h
  have hslot := slot_lt r
  by_contra hlt
  have hoff : vcpu + .ofNat 64 (8 * slot r) + .ofNat 64 i - vcpu = BitVec.ofNat 64 (8 * slot r + i) := by
    rw [BitVec.add_assoc, ← BitVec.ofNat_add, BitVec.add_comm, BitVec.add_sub_cancel]
  have hle := hd _ (by omega : (vcpu + .ofNat 64 (8 * slot r) + .ofNat 64 i - a).toNat < 80)
  rw [hoff, BitVec.toNat_ofNat, Nat.mod_eq_of_lt (by omega)] at hle
  omega

/-! ### The blocks -/

theorem xor32_self (v : Word) : ((v.setWidth 32 ^^^ v.setWidth 32).setWidth 64 : Word) = 0 := by
  rw [BitVec.xor_self]
  rfl

/-- The store of a register to its slot. -/
def storeSlot (r : Reg) : X86.Op := .store r (.ofNat 64 (8 * slot r)) .rax

theorem restoreHost_eq : restoreHost = [.rbx, .r12, .r13, .r14, .r15, .rbp].map X86.Op.pop := rfl

/-- What `mini_vmx_enter` has put on the stack, and the return address. -/
def frame (s : State) : List Word :=
  [s.regs .rsi, s.regs .rdi, s.regs .rbx, s.regs .r12, s.regs .r13, s.regs .r14, s.regs .r15, s.regs .rbp,
    s.mem.load64 (s.regs .rsp)]

/-- Nothing but the stack below the return address has changed. -/
def OnlyStack (s t : State) : Prop := ∀ x : Word, 72 ≤ (x - (s.regs .rsp - 72)).toNat → t.mem x = s.mem x

/-- The state once the arguments and the registers of the caller are on the stack. -/
structure Saved (s t : State) : Prop where
  rsp : t.regs .rsp = s.regs .rsp - 64
  words : t.mem.Words (t.regs .rsp) (frame s)
  hostRsp : t.vmcs hostRsp = t.regs .rsp
  entered : t.entered = s.entered
  onlyStack : OnlyStack s t

/-- Two blocks of pushes, with `mov %rsp, %rbp` in between. -/
theorem Saved.of_pushed {s t₁ t₂ : State} {ret : Word} (hret : ret = s.mem.load64 (s.regs .rsp))
    (h₁ : Pushed [.rbp] [ret] s t₁)
    (h₂ : Pushed [.r15, .r14, .r13, .r12, .rbx, .rdi, .rsi] [s.regs .rbp, ret] (t₁.setReg .rbp (t₁.regs .rsp)) t₂) :
    t₂.regs .rsp = s.regs .rsp - 64 ∧ t₂.mem.Words (t₂.regs .rsp) (frame s) ∧ t₂.entered = s.entered ∧
      OnlyStack s t₂ := by
  have hsp₁ : t₁.regs .rsp = s.regs .rsp - 8 := by
    rw [h₁.regs, Function.update_self]
    rfl
  have hsp₂ : t₂.regs .rsp = s.regs .rsp - 64 := by
    rw [h₂.regs, Function.update_self]
    show t₁.regs .rsp - 56 = _
    rw [hsp₁, ← sub_add_eq_sub_sub]
    rfl
  have hkeep : ∀ r, r ≠ .rsp → r ≠ .rbp → (t₁.setReg .rbp (t₁.regs .rsp)).regs r = s.regs r := by
    intro r hne hne'
    show Function.update t₁.regs .rbp _ r = _
    rw [Function.update_of_ne hne', h₁.regs, Function.update_of_ne hne]
  refine ⟨hsp₂, ?_, h₂.entered.trans h₁.entered, fun x hx => ?_⟩
  · have hwords := h₂.words
    simp only [List.map_cons, List.map_nil, List.reverse_cons, List.reverse_nil, List.nil_append,
      List.cons_append] at hwords
    rw [hkeep .r15 nofun nofun, hkeep .r14 nofun nofun, hkeep .r13 nofun nofun, hkeep .r12 nofun nofun,
      hkeep .rbx nofun nofun, hkeep .rdi nofun nofun, hkeep .rsi nofun nofun, hret] at hwords
    exact hwords
  · have hs := (s.regs .rsp).isLt
    have hxs := x.isLt
    have hcon : (72 : Word).toNat = 72 ∧ (64 : Word).toNat = 64 ∧ (8 : Word).toNat = 8 := ⟨rfl, rfl, rfl⟩
    rw [BitVec.toNat_sub, BitVec.toNat_sub, hcon.1] at hx
    rw [h₂.outside x, ← h₁.outside x]
    · rfl
    · rw [hsp₁, BitVec.toNat_sub, BitVec.toNat_sub, hcon.2.2]
      show 8 ≤ _
      omega
    · rw [hsp₂, BitVec.toNat_sub, BitVec.toNat_sub, hcon.2.1]
      show 56 ≤ _
      omega

theorem saveHost_spec (s : State) : Saved s (execs s saveHost) := by
  have hret : s.mem.Words (s.regs .rsp) [s.mem.load64 (s.regs .rsp)] := by
    intro i v hv
    cases i with
    | zero =>
      rw [Nat.mul_zero, BitVec.add_zero]
      exact Option.some.inj hv
    | succ i => exact absurd hv nofun
  have h₁ := @execs_pushes [.rbp] (by decide) s _ hret (by simp)
  have hexec : execs s saveHost = execs (execs ((execs s ([Reg.rbp].map .push)).setReg .rbp
      ((execs s ([Reg.rbp].map .push)).regs .rsp)) ([Reg.r15, .r14, .r13, .r12, .rbx, .rdi, .rsi].map .push))
      [.mov .rsp .rax, .movImm HOST_RSP_ENCODING .rcx, .vmwrite .rax .rcx] := rfl
  rw [hexec]
  generalize execs s ([Reg.rbp].map .push) = t₁ at h₁
  have h₂ := @execs_pushes [.r15, .r14, .r13, .r12, .rbx, .rdi, .rsi] (by decide) (t₁.setReg .rbp (t₁.regs .rsp)) _
    h₁.words (by simp)
  generalize execs (t₁.setReg .rbp (t₁.regs .rsp)) ([Reg.r15, .r14, .r13, .r12, .rbx, .rdi, .rsi].map .push) = t₂ at h₂
  obtain ⟨hsp, hwords, hentered, honly⟩ := Saved.of_pushed rfl h₁ h₂
  exact ⟨hsp, hwords, rfl, hentered, honly⟩

theorem Saved.congr {s t t' : State} (h : Saved s t) (hrsp : t'.regs .rsp = t.regs .rsp) (hmem : t'.mem = t.mem)
    (hvmcs : t'.vmcs = t.vmcs) (hentered : t'.entered = t.entered) : Saved s t' := by
  refine ⟨hrsp.trans h.rsp, ?_, ?_, hentered.trans h.entered, fun x hx => ?_⟩
  · rw [hrsp, hmem]
    exact h.words
  · rw [hvmcs, hrsp]
    exact h.hostRsp
  · rw [hmem]
    exact h.onlyStack x hx

theorem fetchArgs_spec (hcall : Called s vcpu launched) {t : State} (h : Saved s t) :
    Saved s (execs t fetchArgs) ∧ (execs t fetchArgs).regs .rax = vcpu ∧ (execs t fetchArgs).cf = launched := by
  have hrax : (execs t fetchArgs).regs .rax = t.mem.load64 (t.regs .rsp + 8) := rfl
  have hcf : (execs t fetchArgs).cf = (BitVec.ofNat 64 (t.mem.load (t.regs .rsp + 0#64) 4)).getLsbD 0 := rfl
  refine ⟨h.congr rfl rfl rfl rfl, ?_, ?_⟩
  · rw [hrax, ← hcall.rdi]
    exact h.words.tail.head
  · have hrsi := hcall.rsi
    have hlow := Mem.load_four h.words.head
    rw [hcf, BitVec.add_zero, hlow, hrsi]
    cases launched <;> rfl

/-- The registers of the guest are loaded, and the flag that chooses the instruction is kept. -/
theorem loadGuest_spec {t : State} :
    (execs t loadGuest).regs .rsp = t.regs .rsp ∧ (execs t loadGuest).cf = t.cf ∧ (execs t loadGuest).mem = t.mem ∧
      (execs t loadGuest).vmcs = t.vmcs ∧ (execs t loadGuest).entered = t.entered ∧
        ∀ r, r ≠ .rsp → (execs t loadGuest).regs r = guestReg t.mem (t.regs .rax) r := by
  refine ⟨rfl, rfl, rfl, rfl, rfl, fun r hr => ?_⟩
  cases r with
  | rsp => exact absurd rfl hr
  | _ => rfl

/-- The registers `rs` have been stored in their slots. -/
structure Stored (rs : List Reg) (vcpu : Word) (s t : State) : Prop where
  regs : t.regs = s.regs
  entered : t.entered = s.entered
  slots : ∀ r, guestReg t.mem vcpu r = if r ∈ rs then s.regs r else guestReg s.mem vcpu r
  outside : ∀ x : Word, 128 ≤ (x - vcpu).toNat → t.mem x = s.mem x

/-- A store to a slot writes nothing outside of `vcpu->regs[]`. -/
theorem store_slot_outside {m : Mem} {x : Word} (q : Reg) (v : Word) (hx : 128 ≤ (x - vcpu).toNat) :
    m.store64 (vcpu + .ofNat 64 (8 * slot q)) v x = m x := by
  apply Mem.store64_of_le
  have hq := slot_lt q
  have hv := vcpu.isLt
  have hxlt := x.isLt
  rw [BitVec.toNat_sub] at hx ⊢
  rw [BitVec.toNat_add, BitVec.toNat_ofNat]
  omega

theorem execs_storeSlots (rs : List Reg) {s : State} (hrax : s.regs .rax = vcpu) :
    Stored rs vcpu s (execs s (rs.map storeSlot)) := by
  induction rs generalizing s with
  | nil => exact ⟨rfl, rfl, fun _ => rfl, fun _ _ => rfl⟩
  | cons q rs ih =>
    have hmem : ((storeSlot q).exec s).mem = s.mem.store64 (vcpu + .ofNat 64 (8 * slot q)) (s.regs q) := by
      rw [← hrax]
      rfl
    have h := ih (show ((storeSlot q).exec s).regs .rax = vcpu from hrax)
    rw [List.map_cons]
    show Stored (q :: rs) vcpu s (execs ((storeSlot q).exec s) (rs.map storeSlot))
    refine ⟨h.regs, h.entered, fun r => ?_, fun x hx => ?_⟩
    · rw [h.slots r, hmem, guestReg_store]
      show (if r ∈ rs then s.regs r else if r = q then s.regs q else _) = _
      by_cases hr : r ∈ rs
      · rw [if_pos hr, if_pos (List.mem_cons_of_mem q hr)]
      · rw [if_neg hr]
        by_cases hq : r = q
        · rw [if_pos hq, hq, if_pos List.mem_cons_self]
        · rw [if_neg hq, if_neg]
          exact fun hmem => (List.mem_cons.1 hmem).elim hq hr
    · rw [h.outside x hx, hmem]
      exact store_slot_outside q _ hx

/-- The stack where the two ways of returning meet. -/
structure Stacked (s t : State) : Prop where
  rsp : t.regs .rsp = s.regs .rsp - 64
  words : t.mem.Words (t.regs .rsp) (frame s)

/-- A state that the guest has been left to. -/
structure Left (s : State) (vcpu : Word) (t u : State) : Prop where
  stacked : Stacked s u
  rbx : u.regs .rbx = 0
  entered : u.entered = t.entered
  slots : ∀ r, r ≠ .rsp → guestReg u.mem vcpu r = t.regs r
  rspSlot : guestReg u.mem vcpu .rsp = guestReg t.mem vcpu .rsp
  outside : ∀ x : Word, 72 ≤ (x - (s.regs .rsp - 72)).toNat → 128 ≤ (x - vcpu).toNat → u.mem x = t.mem x

theorem saveGuest_spec (hcall : Called s vcpu launched) {t : State} (h : Stacked s t) :
    Left s vcpu t (execs t saveGuest) := by
  have hd := hcall.disjoint
  have hp := @execs_pushes [.rax] (by decide) t _ h.words (by simp [frame])
  have hexec : execs t saveGuest =
      execs (execs (execs (execs t ([Reg.rax].map .push)) [.load 16 .rsp .rax, .popMem 0 .rax])
      ([Reg.rcx, .rdx, .rbx, .rbp, .rsi, .rdi, .r8, .r9, .r10, .r11, .r12, .r13, .r14, .r15].map storeSlot))
      [.xor32 .rbx .rbx] := rfl
  rw [hexec]
  generalize execs t ([Reg.rax].map .push) = p at hp
  have hwords : p.mem.Words (p.regs .rsp) (t.regs .rax :: frame s) := hp.words
  have hsp : p.regs .rsp = s.regs .rsp - 72 := by
    rw [hp.regs, Function.update_self, h.rsp, ← sub_add_eq_sub_sub]
    rfl
  have hsp₈ : p.regs .rsp + 8 = t.regs .rsp := by
    rw [hsp, h.rsp]
    bv_omega
  -- the pointer to the vCPU is two words above the `rax` of the guest
  have hvcpu : p.mem.load64 (p.regs .rsp + 16) = vcpu := by
    rw [← hcall.rdi]
    exact hwords 2 _ rfl
  have hq : ∃ q : State, execs p [.load 16 .rsp .rax, .popMem 0 .rax] = q ∧ q.entered = p.entered ∧
      q.mem = p.mem.store64 (vcpu + .ofNat 64 (8 * slot .rax)) (t.regs .rax) ∧
      q.regs = Function.update (Function.update p.regs .rax vcpu) .rsp (t.regs .rsp) := by
    refine ⟨_, rfl, rfl, ?_, ?_⟩
    · rw [← hwords.head, ← hvcpu]
      rfl
    · rw [← hvcpu, ← hsp₈]
      rfl
  obtain ⟨q, hq, hentered, hmem, hregs⟩ := hq
  rw [hq]
  have hst := execs_storeSlots [.rcx, .rdx, .rbx, .rbp, .rsi, .rdi, .r8, .r9, .r10, .r11, .r12, .r13, .r14, .r15]
    (show q.regs .rax = vcpu by rw [hregs]; rfl)
  generalize execs q (List.map storeSlot _) = u at hst
  have hkeep : ∀ r, r ≠ .rsp → r ≠ .rax → q.regs r = t.regs r := by
    intro r hrsp hrax
    rw [hregs, Function.update_of_ne hrsp, Function.update_of_ne hrax, hp.regs, Function.update_of_ne hrsp]
  -- the pushes do not reach `vcpu->regs[]`
  have hslots : ∀ r, guestReg p.mem vcpu r = guestReg t.mem vcpu r := by
    apply guestReg_congr hd
    intro x hx
    apply hp.outside x
    rw [hsp]
    show 8 ≤ _
    omega
  -- what is stored goes to `vcpu->regs[]` only
  have hout : ∀ x : Word, 128 ≤ (x - vcpu).toNat → u.mem x = p.mem x := by
    intro x hx
    rw [hst.outside x hx, hmem]
    exact store_slot_outside .rax _ hx
  have hrsp : u.regs .rsp = t.regs .rsp := by rw [hst.regs, hregs, Function.update_self]
  refine ⟨⟨hrsp.trans h.rsp, ?_⟩, xor32_self _, ?_, fun r hr => ?_, ?_, fun x hx hx' => ?_⟩
  · show u.mem.Words (u.regs .rsp) (frame s)
    rw [hrsp]
    have htail := hwords.tail
    rw [hsp₈] at htail
    apply htail.congr (by simp [frame])
    intro x hx
    apply hout
    apply hd
    rw [h.rsp] at hx
    have hs := (s.regs .rsp).isLt
    have hxlt := x.isLt
    have hcon : (72 : Word).toNat = 72 ∧ (64 : Word).toNat = 64 := ⟨rfl, rfl⟩
    have hlen : 8 * (frame s).length = 72 := rfl
    rw [hlen, BitVec.toNat_sub, BitVec.toNat_sub, hcon.2] at hx
    rw [BitVec.toNat_sub, BitVec.toNat_sub, hcon.1]
    omega
  · exact (hst.entered.trans hentered).trans hp.entered
  · show guestReg u.mem vcpu r = t.regs r
    rw [hst.slots r]
    by_cases hrax : r = .rax
    · rw [hrax, if_neg (by decide), hmem, guestReg_store, if_pos rfl]
    · rw [if_pos (by revert hr hrax; cases r <;> decide), hkeep r hr hrax]
  · show guestReg u.mem vcpu .rsp = _
    rw [hst.slots, if_neg (by decide), hmem, guestReg_store, if_neg nofun, hslots]
  · show u.mem x = _
    rw [hout x hx']
    apply hp.outside x
    rw [hsp]
    show 8 ≤ _
    omega

/-- The registers are cleared, apart from the stack pointer and the value to return. -/
theorem clearRegs_spec (t : State) :
    (execs t clearRegs).mem = t.mem ∧ (execs t clearRegs).entered = t.entered ∧
      (execs t clearRegs).regs .rsp = t.regs .rsp + 16 ∧
        (execs t clearRegs).regs .rax = ((t.regs .rbx).setWidth 32).setWidth 64 ∧
          ∀ r, r ≠ .rsp → r ≠ .rbx → r ≠ .rax → (execs t clearRegs).regs r = 0 := by
  refine ⟨rfl, rfl, rfl, rfl, fun r hrsp hrbx hrax => ?_⟩
  cases r with
  | rsp => exact absurd rfl hrsp
  | rbx => exact absurd rfl hrbx
  | rax => exact absurd rfl hrax
  | _ => exact xor32_self _

/-- The common end of the two ways of returning. -/
structure Restored (s t u : State) : Prop where
  mem : u.mem = t.mem
  entered : u.entered = t.entered
  rax : u.regs .rax = ((t.regs .rbx).setWidth 32).setWidth 64
  kept : ∀ r ∈ [.rbx, .rbp, .r12, .r13, .r14, .r15], u.regs r = s.regs r
  rsp : u.regs .rsp = s.regs .rsp + 8
  cleared : ∀ r ∈ [.rcx, .rdx, .rsi, .rdi, .r8, .r9, .r10, .r11], u.regs r = 0

theorem restore_returns {t : State} (h : Stacked s t) :
    ∃ u, Returns mini_vmx_enter .mini_vmx_vmexit vm (codeFrom .restore_host mini_vmx_enter) t
      (u, s.mem.load64 (s.regs .rsp)) ∧ Restored s t u := by
  have hcode : codeFrom .restore_host mini_vmx_enter = clearRegs.map .op ++ (restoreHost.map .op ++
      [.ret, .label .vmfail, .op (.movImm32 1 .rbx), .jmp .restore_host]) := rfl
  obtain ⟨hmem, hentered, hrsp, hrax, hzero⟩ := clearRegs_spec t
  rw [hcode]
  generalize hc : execs t clearRegs = c at hmem hentered hrsp hrax hzero
  -- the two words on top are the arguments, which are dropped
  have hwords : c.mem.Words (c.regs .rsp)
      ([Reg.rbx, .r12, .r13, .r14, .r15, .rbp].map s.regs ++ [s.mem.load64 (s.regs .rsp)]) := by
    rw [hmem, hrsp]
    have htail := h.words.tail.tail
    rwa [BitVec.add_assoc] at htail
  have hp := @execs_pops [.rbx, .r12, .r13, .r14, .r15, .rbp] (by decide) (by decide) c s.regs _ hwords
  rw [← restoreHost_eq] at hp
  generalize hu : execs c restoreHost = u at hp
  have hret : u.mem.load64 (u.regs .rsp) = s.mem.load64 (s.regs .rsp) := hp.words.head
  refine ⟨u.setReg .rsp (u.regs .rsp + 8), ?_, hp.mem.trans hmem, hp.entered.trans hentered, ?_, ?_, ?_, ?_⟩
  · apply Returns.ops
    rw [hc]
    apply Returns.ops
    rw [hu, ← hret]
    exact .ret
  · show Function.update u.regs .rsp (u.regs .rsp + 8) .rax = _
    rw [Function.update_of_ne (by decide), hp.others .rax (by decide) nofun, hrax]
  · intro r hr
    show Function.update u.regs .rsp _ r = _
    rw [Function.update_of_ne (by rintro rfl; revert hr; decide), hp.popped r (by revert hr; cases r <;> decide)]
  · show Function.update u.regs .rsp _ .rsp = _
    rw [Function.update_self, hp.rsp, hrsp, h.rsp]
    show s.regs .rsp - 64 + 16 + 48 + 8 = _
    bv_omega
  · intro r hr
    have hne : r ∉ [Reg.rbx, .r12, .r13, .r14, .r15, .rbp] ∧ r ≠ .rsp ∧ r ≠ .rbx ∧ r ≠ .rax := by
      revert hr
      cases r <;> decide
    show Function.update u.regs .rsp _ r = _
    rw [Function.update_of_ne hne.2.1, hp.others r hne.1 hne.2.1]
    exact hzero r hne.2.1 hne.2.2.1 hne.2.2.2

/-! ### The whole call -/

/-- The guest is entered with the registers of `vcpu->regs[]`. -/
theorem enter_reached (hcall : Called s vcpu launched) :
    ∃ t rest, Saved s t ∧ (∀ r, r ≠ .rsp → t.regs r = guestReg s.mem vcpu r) ∧
      ∀ r, Returns mini_vmx_enter .mini_vmx_vmexit vm
          (.enter (if launched then .vmresume else .vmlaunch) :: .jmp .vmfail :: rest) t r →
        Returns mini_vmx_enter .mini_vmx_vmexit vm mini_vmx_enter s r := by
  obtain ⟨rest, hcode⟩ : ∃ rest, mini_vmx_enter = saveHost.map .op ++ (fetchArgs.map .op ++ (loadGuest.map .op ++
      .jnc .vmlaunch :: .label .vmresume :: .enter .vmresume :: .jmp .vmfail :: rest)) := ⟨_, rfl⟩
  obtain ⟨rest', hlaunch⟩ : ∃ rest', codeFrom .vmlaunch mini_vmx_enter = .enter .vmlaunch :: .jmp .vmfail :: rest' :=
    ⟨_, rfl⟩
  obtain ⟨hsaved, hrax, hcf⟩ := fetchArgs_spec hcall (saveHost_spec s)
  generalize ht : execs (execs s saveHost) fetchArgs = t at hsaved hrax hcf
  obtain ⟨hrsp, hcf', hmem, hvmcs, hentered, hregs⟩ := @loadGuest_spec t
  generalize hu : execs t loadGuest = u at hrsp hcf' hmem hvmcs hentered hregs
  refine ⟨u, if launched then rest else rest', hsaved.congr hrsp hmem hvmcs hentered, fun r hr => ?_, fun r h => ?_⟩
  · rw [hregs r hr, hrax]
    exact guestReg_congr hcall.disjoint hsaved.onlyStack r
  · -- the carry flag is bit 0 of `launched`
    have hjnc : Returns mini_vmx_enter .mini_vmx_vmexit vm
        (.jnc .vmlaunch :: .label .vmresume :: .enter .vmresume :: .jmp .vmfail :: rest) u r := by
      apply Returns.jnc
      rw [hcf', hcf, hlaunch]
      cases launched with
      | false => exact h
      | true => exact h.label
    have hrun : Returns mini_vmx_enter .mini_vmx_vmexit vm (saveHost.map .op ++ (fetchArgs.map .op ++
        (loadGuest.map .op ++ .jnc .vmlaunch :: .label .vmresume :: .enter .vmresume ::
          .jmp .vmfail :: rest))) s r := by
      apply Returns.ops
      apply Returns.ops
      rw [ht]
      apply Returns.ops
      rw [hu]
      exact hjnc
    rwa [← hcode] at hrun

theorem returns_switched (hcall : Called s vcpu launched) :
    ∃ t ret, Returns mini_vmx_enter .mini_vmx_vmexit vm mini_vmx_enter s (t, ret) ∧
      Switched s vcpu launched vm t ret := by
  obtain ⟨t, rest, hsaved, hregs, hreach⟩ := @enter_reached s vcpu launched vm hcall
  generalize hi : (if launched then EntryInstr.vmresume else .vmlaunch) = i at hreach
  cases vm with
  | fails =>
    -- VMfail goes on with the next instruction
    have hfail : codeFrom .vmfail mini_vmx_enter = [.op (.movImm32 1 .rbx), .jmp .restore_host] := rfl
    obtain ⟨u, hret, hrest⟩ := @restore_returns s .fails ((t.logEntry i).setReg .rbx 1) ⟨hsaved.rsp, hsaved.words⟩
    have hslots := guestReg_congr hcall.disjoint hsaved.onlyStack
    refine ⟨u, _, hreach _ (.fails (.jmp ?_)), ⟨t.regs, ?_, hregs⟩, nofun, fun _ => ⟨fun r => ?_, hrest.rax⟩,
      fun x hx _ => ?_,
      hrest.kept, hrest.rsp, rfl, hrest.cleared⟩
    · rw [hfail]
      exact .op (.jmp hret)
    · rw [hrest.entered, hi, ← hsaved.entered]
      rfl
    · rw [hrest.mem]
      exact hslots r
    · rw [hrest.mem]
      exact hsaved.onlyStack x hx
  | exits guest =>
    -- a VM exit goes on at HOST_RIP
    obtain ⟨rest', hexit⟩ : ∃ rest', codeFrom .mini_vmx_vmexit mini_vmx_enter =
        saveGuest.map .op ++ .jmp .restore_host :: rest' := ⟨_, rfl⟩
    generalize he : (t.logEntry i).vmExit guest = e
    have hguest : e.regs = Function.update guest .rsp (t.regs .rsp) := by
      rw [← he, ← hsaved.hostRsp]
      rfl
    have hmem : e.mem = t.mem := by
      rw [← he]
      rfl
    have hentered : e.entered = t.entered ++ [(i, t.regs)] := by
      rw [← he]
      rfl
    have hstacked : Stacked s e := by
      have hrsp : e.regs .rsp = t.regs .rsp := by rw [hguest, Function.update_self]
      refine ⟨hrsp.trans hsaved.rsp, ?_⟩
      rw [hmem, hrsp]
      exact hsaved.words
    have hleft := saveGuest_spec hcall hstacked
    generalize hl : execs e saveGuest = l at hleft
    obtain ⟨u, hret, hrest⟩ := @restore_returns s (.exits guest) l hleft.stacked
    refine ⟨u, _, hreach _ (.exits ?_), ⟨t.regs, ?_, hregs⟩, fun g hg => ⟨fun r hr => ?_, ?_, ?_⟩, nofun,
      fun x hx hx' => ?_, hrest.kept, hrest.rsp, rfl, hrest.cleared⟩
    · rw [hexit, he]
      apply Returns.ops
      rw [hl]
      exact .jmp hret
    · rw [hrest.entered, hleft.entered, hentered, hi, hsaved.entered]
    · rw [hrest.mem, hleft.slots r hr, hguest, Function.update_of_ne hr, GuestEntry.exits.inj hg]
    · rw [hrest.mem, hleft.rspSlot, hmem]
      exact guestReg_congr hcall.disjoint hsaved.onlyStack .rsp
    · rw [hrest.rax, hleft.rbx]
      rfl
    · rw [hrest.mem, hleft.outside x hx hx', hmem]
      exact hsaved.onlyStack x hx

/-- For every content of `vcpu->regs[]`, of the registers and of the stack, the call returns: after an exit of the guest
with its registers stored, after a failure of the entry with `vcpu->regs[]` as it was. -/
theorem worldSwitch (hcall : Called s vcpu launched) (vm : GuestEntry) :
    (∃ r, Returns mini_vmx_enter .mini_vmx_vmexit vm mini_vmx_enter s r) ∧
      ∀ t ret, Returns mini_vmx_enter .mini_vmx_vmexit vm mini_vmx_enter s (t, ret) →
        Switched s vcpu launched vm t ret := by
  obtain ⟨t, ret, hret, hswitched⟩ := @returns_switched s vcpu launched vm hcall
  refine ⟨⟨_, hret⟩, fun t' ret' h => ?_⟩
  obtain ⟨rfl, rfl⟩ := Prod.mk.inj (h.unique hret)
  exact hswitched

/-- A call for a vCPU at 0x8000.  No two registers and no two words of `regs[]` and of the stack are the same, and the
upper half of `rsi` is not 0. -/
def calledAt (launched : Bool) : State where
  regs r := match r with
    | .rsp => 0x1000
    | .rdi => 0x8000
    | .rsi => 0x500000000 + .ofNat 64 launched.toNat
    | r => 0xaa00 + .ofNat 64 (slot r)
  mem x := x.setWidth 8 + (x >>> 8).setWidth 8
  cf := true
  vmcs _ := 0x77
  entered := [(.vmlaunch, fun _ => 0x99)]

theorem calledAt_called (launched : Bool) : Called (calledAt launched) 0x8000 launched := by
  refine ⟨rfl, by cases launched <;> rfl, fun x hx => ?_⟩
  have hxlt := x.isLt
  have hrsp : (calledAt launched).regs .rsp = 0x1000 := rfl
  have hcon : ((0x1000 : Word) - 72).toNat = 4024 ∧ (0x8000 : Word).toNat = 32768 := ⟨rfl, rfl⟩
  rw [hrsp, BitVec.toNat_sub, hcon.1] at hx
  rw [BitVec.toNat_sub, hcon.2]
  omega

/-- A VM entry that fails, and an exit of a guest that has changed all its registers. -/
theorem worldSwitch_calledAt :
    ((∃ r, Returns mini_vmx_enter .mini_vmx_vmexit .fails mini_vmx_enter (calledAt false) r) ∧
      ∀ t ret, Returns mini_vmx_enter .mini_vmx_vmexit .fails mini_vmx_enter (calledAt false) (t, ret) →
        Switched (calledAt false) 0x8000 false .fails t ret) ∧
    let vm : GuestEntry := .exits fun r => 0xbb00 + .ofNat 64 (slot r)
    (∃ r, Returns mini_vmx_enter .mini_vmx_vmexit vm mini_vmx_enter (calledAt true) r) ∧
      ∀ t ret, Returns mini_vmx_enter .mini_vmx_vmexit vm mini_vmx_enter (calledAt true) (t, ret) →
        Switched (calledAt true) 0x8000 true vm t ret :=
  ⟨worldSwitch (calledAt_called false) .fails, worldSwitch (calledAt_called true) _⟩

end MiniVirt.Kvm.VmxEntry
