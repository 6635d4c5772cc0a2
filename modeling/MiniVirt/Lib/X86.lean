import MiniVirt.Lib.ByteMem
import Mathlib.Logic.Function.Basic

/-!
# A subset of x86-64

Registers, a byte memory, the carry flag and the current VMCS, and the instructions of a VMX world switch.  A program is
a list of instructions with labels; operands stand in the order of the assembler, the destination last.
-/

namespace MiniVirt.X86

abbrev Word := BitVec 64

inductive Reg where
  | rax | rcx | rdx | rbx | rsp | rbp | rsi | rdi | r8 | r9 | r10 | r11 | r12 | r13 | r14 | r15
  deriving DecidableEq

/-! ### Memory -/

abbrev Mem := Word → BitVec 8

namespace Mem

/-- The little-endian number in the `n` bytes at `a`. -/
def load (m : Mem) (a : Word) (n : Nat) : Nat := leNat ((List.range n).map fun i => m (a + .ofNat 64 i))

def load64 (m : Mem) (a : Word) : Word := .ofNat 64 (m.load a 8)

def store64 (m : Mem) (a v : Word) : Mem := fun x =>
  if (x - a).toNat < 8 then .ofNat 8 (v.toNat / 256 ^ (x - a).toNat) else m x

end Mem

/-! ### Instructions -/

/-- The instructions that go on to the next one. -/
inductive Op where
  | push (src : Reg)
  | pop (dst : Reg)
  /-- `pop disp(base)` -/
  | popMem (disp : Word) (base : Reg)
  | mov (src dst : Reg)
  | movImm (v : Word) (dst : Reg)
  /-- The 32-bit forms clear the upper half of the destination. -/
  | movImm32 (v : BitVec 32) (dst : Reg)
  | mov32 (src dst : Reg)
  /-- `mov disp(base), dst` -/
  | load (disp : Word) (base dst : Reg)
  | load32 (disp : Word) (base dst : Reg)
  /-- `mov src, disp(base)` -/
  | store (src : Reg) (disp : Word) (base : Reg)
  | xor32 (src dst : Reg)
  | addImm (v : Word) (dst : Reg)
  | bt (bit : Nat) (src : Reg)
  /-- `vmwrite src, field` -/
  | vmwrite (src field : Reg)

/-- The two instructions that enter the guest. -/
inductive EntryInstr where
  | vmlaunch
  | vmresume
  deriving DecidableEq

inductive Instr (L : Type) where
  | op (o : Op)
  | label (l : L)
  | jmp (l : L)
  | jnc (l : L)
  | enter (i : EntryInstr)
  | ret

/-- The encoding of the field HOST_RSP. -/
def hostRsp : Word := 0x6c14

structure State where
  regs : Reg → Word
  mem : Mem
  cf : Bool
  /-- The fields of the current VMCS. -/
  vmcs : Word → Word
  /-- The entry instructions so far and the registers at them. -/
  entered : List (EntryInstr × (Reg → Word))

namespace State

def setReg (s : State) (r : Reg) (v : Word) : State := { s with regs := Function.update s.regs r v }

end State

def Op.exec (s : State) : Op → State
  | push src =>
    let a := s.regs .rsp - 8
    { s.setReg .rsp a with mem := s.mem.store64 a (s.regs src) }
  | pop dst => (s.setReg .rsp (s.regs .rsp + 8)).setReg dst (s.mem.load64 (s.regs .rsp))
  | popMem disp base =>
    let s' := s.setReg .rsp (s.regs .rsp + 8)
    { s' with mem := s.mem.store64 (s'.regs base + disp) (s.mem.load64 (s.regs .rsp)) }
  | mov src dst => s.setReg dst (s.regs src)
  | movImm v dst => s.setReg dst v
  | movImm32 v dst => s.setReg dst (v.setWidth 64)
  | mov32 src dst => s.setReg dst ((s.regs src).setWidth 32 |>.setWidth 64)
  | load disp base dst => s.setReg dst (s.mem.load64 (s.regs base + disp))
  | load32 disp base dst => s.setReg dst (.ofNat 64 (s.mem.load (s.regs base + disp) 4))
  | store src disp base => { s with mem := s.mem.store64 (s.regs base + disp) (s.regs src) }
  | xor32 src dst =>
    { s.setReg dst (((s.regs dst).setWidth 32 ^^^ (s.regs src).setWidth 32).setWidth 64) with cf := false }
  | addImm v dst => { s.setReg dst (s.regs dst + v) with cf := 2 ^ 64 ≤ (s.regs dst).toNat + v.toNat }
  | bt bit src => { s with cf := (s.regs src).getLsbD bit }
  | vmwrite src field => { s with vmcs := Function.update s.vmcs (s.regs field) (s.regs src) }

def execs (s : State) (ops : List Op) : State := ops.foldl Op.exec s

/-! ### Programs -/

/-- What VMLAUNCH or VMRESUME comes to. -/
inductive GuestEntry where
  /-- The next instruction follows. -/
  | fails
  /-- The guest runs, and leaves these registers at its exit. -/
  | exits (guest : Reg → Word)

namespace State

/-- The state after an exit of the guest. -/
def vmExit (s : State) (guest : Reg → Word) : State :=
  { s with regs := Function.update guest .rsp (s.vmcs hostRsp), cf := false }

def logEntry (s : State) (i : EntryInstr) : State := { s with entered := s.entered ++ [(i, s.regs)] }

end State

variable {L : Type} [DecidableEq L]

/-- The code from a label on. -/
def codeFrom (l : L) : List (Instr L) → List (Instr L)
  | [] => []
  | .label l' :: code => if l' = l then code else codeFrom l code
  | _ :: code => codeFrom l code

/-- The program from `code` on, up to the `ret` and with the address that it returns to.  Exits of the guest go to the
label `exit`. -/
def run (prog : List (Instr L)) (exit : L) (vm : GuestEntry) : Nat → List (Instr L) → State → Option (State × Word)
  | 0, _, _ => none
  | _ + 1, [], _ => none
  | n + 1, .op o :: code, s => run prog exit vm n code (o.exec s)
  | n + 1, .label _ :: code, s => run prog exit vm n code s
  | n + 1, .jmp l :: _, s => run prog exit vm n (codeFrom l prog) s
  | n + 1, .jnc l :: code, s => run prog exit vm n (if s.cf then code else codeFrom l prog) s
  | n + 1, .enter i :: code, s =>
    match vm with
    | .fails => run prog exit vm n code (s.logEntry i)
    | .exits guest => run prog exit vm n (codeFrom exit prog) ((s.logEntry i).vmExit guest)
  | _ + 1, .ret :: _, s => some (s.setReg .rsp (s.regs .rsp + 8), s.mem.load64 (s.regs .rsp))

/-! ### Words in memory -/

theorem leBytes_eq_map (n v : Nat) : leBytes n v = (List.range n).map fun i => BitVec.ofNat 8 (v / 256 ^ i) := by
  induction n generalizing v with
  | zero => rfl
  | succ n ih =>
    rw [leBytes, ih, List.range_succ_eq_map, List.map_cons, List.map_map, pow_zero, Nat.div_one]
    congr 1
    apply List.map_congr_left
    intro i _
    rw [Function.comp, Nat.div_div_eq_div_mul, ← pow_succ']

namespace Mem

/-- The two words have no byte in common. -/
def Apart (a b : Word) : Prop := 8 ≤ (b - a).toNat ∧ (b - a).toNat ≤ 2 ^ 64 - 8

theorem store64_of_le {m : Mem} {a v x : Word} (h : 8 ≤ (x - a).toNat) : m.store64 a v x = m x :=
  if_neg (by omega)

theorem load_store64_self (m : Mem) (a v : Word) {n : Nat} (hn : n ≤ 8) :
    (m.store64 a v).load a n = v.toNat % 256 ^ n := by
  have hbytes : (List.range n).map (fun i => m.store64 a v (a + .ofNat 64 i)) = leBytes n v.toNat := by
    rw [leBytes_eq_map]
    apply List.map_congr_left
    intro i hi
    have hlt := List.mem_range.1 hi
    have hoff : (a + BitVec.ofNat 64 i - a).toNat = i := by
      rw [BitVec.add_comm, BitVec.add_sub_cancel, BitVec.toNat_ofNat, Nat.mod_eq_of_lt (by omega)]
    unfold store64
    rw [hoff, if_pos (by omega)]
  rw [load, hbytes, leNat_leBytes]

@[simp]
theorem load64_store64_self (m : Mem) (a v : Word) : (m.store64 a v).load64 a = v := by
  unfold load64
  rw [load_store64_self m a v (Nat.le_refl 8)]
  have hlt : v.toNat < 256 ^ 8 := v.isLt
  rw [Nat.mod_eq_of_lt hlt, BitVec.ofNat_toNat, BitVec.setWidth_eq]

theorem load64_congr {m m' : Mem} {a : Word} (h : ∀ i < 8, m' (a + .ofNat 64 i) = m (a + .ofNat 64 i)) :
    m'.load64 a = m.load64 a := by
  have hbytes : (List.range 8).map (fun i => m' (a + .ofNat 64 i)) = (List.range 8).map fun i => m (a + .ofNat 64 i) :=
    List.map_congr_left fun i hi => h i (List.mem_range.1 hi)
  unfold load64 load
  rw [hbytes]

theorem load64_store64_of_apart {m : Mem} {a b v : Word} (h : Apart a b) : (m.store64 a v).load64 b = m.load64 b := by
  apply load64_congr
  intro i hi
  apply store64_of_le
  obtain ⟨hlo, hhi⟩ := h
  have hsub : b + BitVec.ofNat 64 i - a = (b - a) + BitVec.ofNat 64 i := by
    rw [BitVec.sub_eq_add_neg, BitVec.sub_eq_add_neg, BitVec.add_assoc, BitVec.add_assoc, BitVec.add_comm (.ofNat 64 i)]
  rw [hsub, BitVec.toNat_add, BitVec.toNat_ofNat]
  omega

/-- The lower half of a word. -/
theorem load_four {m : Mem} {a v : Word} (h : m.load64 a = v) : m.load a 4 = v.toNat % 2 ^ 32 := by
  have hsplit : m.load a 8 = m.load a 4 + 256 ^ 4 * m.load (a + 4) 4 := by
    have hrest : (List.range 4).map (fun i => m (a + .ofNat 64 (4 + i))) =
        (List.range 4).map fun i => m (a + 4 + .ofNat 64 i) := by
      apply List.map_congr_left
      intro i _
      rw [BitVec.ofNat_add, ← BitVec.add_assoc]
      rfl
    have hrange : List.range 8 = List.range 4 ++ (List.range 4).map (4 + ·) := by decide
    unfold load
    rw [hrange, List.map_append, List.map_map, leNat_append, List.length_map, List.length_range]
    exact congrArg (fun l => leNat _ + 256 ^ 4 * leNat l) hrest
  have hlt : m.load a 4 < 256 ^ 4 := by
    have hlen := leNat_lt ((List.range 4).map fun i => m (a + .ofNat 64 i))
    rwa [List.length_map, List.length_range] at hlen
  have hlt' : m.load (a + 4) 4 < 256 ^ 4 := by
    have hlen := leNat_lt ((List.range 4).map fun i => m (a + 4 + .ofNat 64 i))
    rwa [List.length_map, List.length_range] at hlen
  rw [← h, load64, BitVec.toNat_ofNat, hsplit]
  omega

/-- The words from `a` on are `vs`. -/
def Words (m : Mem) (a : Word) (vs : List Word) : Prop :=
  ∀ i v, vs[i]? = some v → m.load64 (a + .ofNat 64 (8 * i)) = v

theorem apart_offsets (a : Word) {i j : Nat} (hi : 8 * i + 8 ≤ 2 ^ 64) (hj : 8 * j + 8 ≤ 2 ^ 64) (hne : i ≠ j) :
    Apart (a + .ofNat 64 (8 * i)) (a + .ofNat 64 (8 * j)) := by
  have hlt := a.isLt
  unfold Apart
  rw [BitVec.toNat_sub, BitVec.toNat_add, BitVec.toNat_add, BitVec.toNat_ofNat, BitVec.toNat_ofNat]
  omega

theorem Words.head {m : Mem} {a v : Word} {vs : List Word} (h : m.Words a (v :: vs)) : m.load64 a = v := by
  have hv := h 0 v rfl
  rwa [Nat.mul_zero, BitVec.add_zero] at hv

theorem Words.tail {m : Mem} {a v : Word} {vs : List Word} (h : m.Words a (v :: vs)) : m.Words (a + 8) vs := by
  intro i w hw
  have hw' := h (i + 1) w hw
  rwa [Nat.mul_succ, Nat.add_comm, BitVec.ofNat_add, ← BitVec.add_assoc] at hw'

/-- The bytes of the words are all that counts. -/
theorem Words.congr {m m' : Mem} {a : Word} {vs : List Word} (h : m.Words a vs) (hlen : 8 * vs.length ≤ 2 ^ 64)
    (hsame : ∀ x : Word, (x - a).toNat < 8 * vs.length → m' x = m x) : m'.Words a vs := by
  intro i v hv
  have hi := (List.getElem?_eq_some_iff.1 hv).1
  rw [← h i v hv]
  apply load64_congr
  intro j hj
  apply hsame
  rw [BitVec.add_assoc, ← BitVec.ofNat_add, BitVec.add_comm, BitVec.add_sub_cancel, BitVec.toNat_ofNat,
    Nat.mod_eq_of_lt (by omega)]
  omega

/-- A word pushed in front of others. -/
theorem Words.push {m : Mem} {a : Word} {vs : List Word} (h : m.Words a vs) (hlen : 8 * vs.length + 8 ≤ 2 ^ 64)
    (v : Word) : (m.store64 (a - 8) v).Words (a - 8) (v :: vs) := by
  intro i w hw
  cases i with
  | zero =>
    rw [Nat.mul_zero, BitVec.add_zero, load64_store64_self]
    exact Option.some.inj hw
  | succ i =>
    rw [List.getElem?_cons_succ] at hw
    have hi : i < vs.length := (List.getElem?_eq_some_iff.1 hw).1
    have hlt := a.isLt
    have h8 : (8 : Word).toNat = 8 := rfl
    have hoff : a - 8 + BitVec.ofNat 64 (8 * (i + 1)) = a + .ofNat 64 (8 * i) := by
      apply BitVec.eq_of_toNat_eq
      rw [BitVec.toNat_add, BitVec.toNat_add, BitVec.toNat_sub, BitVec.toNat_ofNat, BitVec.toNat_ofNat, h8]
      omega
    have hapart : Apart (a - 8) (a + .ofNat 64 (8 * i)) := by
      unfold Apart
      rw [BitVec.toNat_sub, BitVec.toNat_add, BitVec.toNat_sub, BitVec.toNat_ofNat, h8]
      omega
    rw [hoff, load64_store64_of_apart hapart]
    exact h i w hw

/-- The bytes from `a` on and those from `b` on have no byte in common. -/
def Disjoint (a : Word) (n : Nat) (b : Word) (k : Nat) : Prop :=
  ∀ x : Word, (x - a).toNat < n → k ≤ (x - b).toNat

end Mem

/-! ### Blocks -/

/-- The registers `rs` have been pushed in front of `vs`, the last one to the top. -/
structure Pushed (rs : List Reg) (vs : List Word) (s t : State) : Prop where
  regs : t.regs = Function.update s.regs .rsp (s.regs .rsp - .ofNat 64 (8 * rs.length))
  cf : t.cf = s.cf
  vmcs : t.vmcs = s.vmcs
  entered : t.entered = s.entered
  words : t.mem.Words (t.regs .rsp) ((rs.map s.regs).reverse ++ vs)
  outside : ∀ x, 8 * rs.length ≤ (x - t.regs .rsp).toNat → t.mem x = s.mem x

theorem execs_pushes {rs : List Reg} (hrsp : Reg.rsp ∉ rs) {s : State} {vs : List Word}
    (hw : s.mem.Words (s.regs .rsp) vs) (hlen : 8 * (vs.length + rs.length) ≤ 2 ^ 64) :
    Pushed rs vs s (execs s (rs.map .push)) := by
  induction rs generalizing s vs with
  | nil =>
    refine ⟨?_, rfl, rfl, rfl, hw, fun _ _ => rfl⟩
    show s.regs = Function.update s.regs .rsp (s.regs .rsp - 0#64)
    rw [BitVec.sub_zero, Function.update_eq_self]
  | cons r rs ih =>
    rw [List.mem_cons, not_or] at hrsp
    rw [List.length_cons] at hlen
    have hregs : (Op.exec s (.push r)).regs = Function.update s.regs .rsp (s.regs .rsp - 8) := rfl
    have hmem : (Op.exec s (.push r)).mem = s.mem.store64 (s.regs .rsp - 8) (s.regs r) := rfl
    have hsp : (Op.exec s (.push r)).regs .rsp = s.regs .rsp - 8 := by rw [hregs, Function.update_self]
    have hw' : (Op.exec s (.push r)).mem.Words ((Op.exec s (.push r)).regs .rsp) (s.regs r :: vs) := by
      rw [hsp, hmem]
      exact hw.push (by omega) (s.regs r)
    have h := ih hrsp.2 hw' (by rw [List.length_cons]; omega)
    rw [List.map_cons]
    show Pushed (r :: rs) vs s (execs (Op.exec s (.push r)) (rs.map .push))
    -- the first push moves the stack pointer by 8, the others by the rest
    have hoff : s.regs .rsp - 8 - BitVec.ofNat 64 (8 * rs.length) = s.regs .rsp - .ofNat 64 (8 * (r :: rs).length) := by
      rw [List.length_cons, Nat.mul_succ, Nat.add_comm, BitVec.ofNat_add, sub_add_eq_sub_sub]
      rfl
    have hregs' := h.regs
    rw [hsp, hoff, hregs, Function.update_idem] at hregs'
    refine ⟨hregs', h.cf, h.vmcs, h.entered, ?_, fun x hx => ?_⟩
    · have hrest : rs.map (Op.exec s (.push r)).regs = rs.map s.regs := by
        apply List.map_congr_left
        intro q hq
        rw [hregs, Function.update_of_ne]
        rintro rfl
        exact hrsp.2 hq
      have hwords := h.words
      rw [hrest] at hwords
      rw [List.map_cons, List.reverse_cons, List.append_assoc]
      exact hwords
    · rw [List.length_cons] at hx
      have hxs := x.isLt
      rw [h.outside x (by omega), hmem]
      apply Mem.store64_of_le
      rw [hregs', Function.update_self, List.length_cons] at hx
      have hs := (s.regs .rsp).isLt
      have h8 : (8 : Word).toNat = 8 := rfl
      rw [BitVec.toNat_sub, BitVec.toNat_sub, BitVec.toNat_ofNat] at hx
      rw [BitVec.toNat_sub, BitVec.toNat_sub, h8]
      omega

/-- The registers `rs` have been popped, the first one from the top, with the values `f`; what is left is `vs`. -/
structure Popped (rs : List Reg) (f : Reg → Word) (vs : List Word) (s t : State) : Prop where
  mem : t.mem = s.mem
  entered : t.entered = s.entered
  popped : ∀ r ∈ rs, t.regs r = f r
  others : ∀ r, r ∉ rs → r ≠ .rsp → t.regs r = s.regs r
  rsp : t.regs .rsp = s.regs .rsp + .ofNat 64 (8 * rs.length)
  words : t.mem.Words (t.regs .rsp) vs

theorem execs_pops {rs : List Reg} (hrsp : Reg.rsp ∉ rs) (hnd : rs.Nodup) {s : State} {f : Reg → Word} {vs : List Word}
    (hw : s.mem.Words (s.regs .rsp) (rs.map f ++ vs)) : Popped rs f vs s (execs s (rs.map .pop)) := by
  induction rs generalizing s with
  | nil =>
    refine ⟨rfl, rfl, fun r hr => absurd hr List.not_mem_nil, fun _ _ _ => rfl, ?_, hw⟩
    show s.regs .rsp = s.regs .rsp + 0#64
    rw [BitVec.add_zero]
  | cons r rs ih =>
    rw [List.mem_cons, not_or] at hrsp
    rw [List.nodup_cons] at hnd
    rw [List.map_cons, List.cons_append] at hw
    have hregs : (Op.exec s (.pop r)).regs =
        Function.update (Function.update s.regs .rsp (s.regs .rsp + 8)) r (f r) := by
      rw [← hw.head]
      rfl
    have hsp : (Op.exec s (.pop r)).regs .rsp = s.regs .rsp + 8 := by
      rw [hregs, Function.update_of_ne hrsp.1, Function.update_self]
    have hw' : (Op.exec s (.pop r)).mem.Words ((Op.exec s (.pop r)).regs .rsp) (rs.map f ++ vs) := by
      rw [hsp]
      exact hw.tail
    have h := ih hrsp.2 hnd.2 hw'
    rw [List.map_cons]
    show Popped (r :: rs) f vs s (execs (Op.exec s (.pop r)) (rs.map .pop))
    refine ⟨h.mem, h.entered, fun q hq => ?_, fun q hq hne => ?_, ?_, h.words⟩
    · obtain rfl | hq := List.mem_cons.1 hq
      · rw [h.others q hnd.1 (Ne.symm hrsp.1), hregs, Function.update_self]
      · exact h.popped q hq
    · rw [List.mem_cons, not_or] at hq
      rw [h.others q hq.2 hne, hregs, Function.update_of_ne hq.1, Function.update_of_ne hne]
    · rw [h.rsp, hsp, List.length_cons, Nat.mul_succ, Nat.add_comm (8 * rs.length), BitVec.ofNat_add,
        ← BitVec.add_assoc]
      rfl

/-! ### Rules for programs -/

variable {prog : List (Instr L)} {exit : L} {vm : GuestEntry} {code : List (Instr L)} {s : State} {r : State × Word}

/-- The program returns from `code` with the result `r`. -/
def Returns (prog : List (Instr L)) (exit : L) (vm : GuestEntry) (code : List (Instr L)) (s : State)
    (r : State × Word) :
    Prop :=
  ∃ n, run prog exit vm n code s = some r

theorem Returns.op {o : Op} (h : Returns prog exit vm code (o.exec s) r) :
    Returns prog exit vm (.op o :: code) s r := by
  obtain ⟨n, h⟩ := h
  exact ⟨n + 1, h⟩

theorem Returns.ops {ops : List Op} (h : Returns prog exit vm code (execs s ops) r) :
    Returns prog exit vm (ops.map .op ++ code) s r := by
  induction ops generalizing s with
  | nil => exact h
  | cons o ops ih => exact .op (ih h)

theorem Returns.label {l : L} (h : Returns prog exit vm code s r) : Returns prog exit vm (.label l :: code) s r := by
  obtain ⟨n, h⟩ := h
  exact ⟨n + 1, h⟩

theorem Returns.jmp {l : L} (h : Returns prog exit vm (codeFrom l prog) s r) :
    Returns prog exit vm (.jmp l :: code) s r := by
  obtain ⟨n, h⟩ := h
  exact ⟨n + 1, h⟩

theorem Returns.jnc {l : L} (h : Returns prog exit vm (if s.cf then code else codeFrom l prog) s r) :
    Returns prog exit vm (.jnc l :: code) s r := by
  obtain ⟨n, h⟩ := h
  exact ⟨n + 1, h⟩

theorem Returns.fails {i : EntryInstr} (h : Returns prog exit .fails code (s.logEntry i) r) :
    Returns prog exit .fails (.enter i :: code) s r := by
  obtain ⟨n, h⟩ := h
  exact ⟨n + 1, h⟩

theorem Returns.exits {i : EntryInstr} {guest : Reg → Word}
    (h : Returns prog exit (.exits guest) (codeFrom exit prog) ((s.logEntry i).vmExit guest) r) :
    Returns prog exit (.exits guest) (.enter i :: code) s r := by
  obtain ⟨n, h⟩ := h
  exact ⟨n + 1, h⟩

theorem Returns.ret :
    Returns prog exit vm (.ret :: code) s (s.setReg .rsp (s.regs .rsp + 8), s.mem.load64 (s.regs .rsp)) :=
  ⟨1, rfl⟩

/-- More steps do not change the result. -/
theorem run_mono {n : Nat} (h : run prog exit vm n code s = some r) (k : Nat) :
    run prog exit vm (n + k) code s = some r := by
  induction n generalizing code s with
  | zero => exact absurd h nofun
  | succ n ih =>
    rw [Nat.succ_add]
    cases code with
    | nil => exact absurd h nofun
    | cons i code =>
      cases i with
      | op o => exact ih h
      | label l => exact ih h
      | jmp l => exact ih h
      | jnc l => exact ih h
      | ret => exact h
      | enter i =>
        cases vm with
        | fails => exact ih h
        | exits guest => exact ih h

theorem Returns.unique {r' : State × Word} (h : Returns prog exit vm code s r) (h' : Returns prog exit vm code s r') :
    r = r' := by
  obtain ⟨n, h⟩ := h
  obtain ⟨n', h'⟩ := h'
  have hr := run_mono h n'
  rw [Nat.add_comm, run_mono h' n] at hr
  exact (Option.some.inj hr).symm

end MiniVirt.X86
