import MiniVirt.Kvm.Spec.PortIo
import MiniVirt.Lib.Runs

/-!
# The serial capture

However the guest accesses its ports, the capture buffer holds the first 511 bytes it has sent to the serial port,
MINI_KVM_VM_GET_SERIAL returns the first 255 of them, and the copy of a finished line stays inside the buffer and
inside the local array (`captureLaw`).
-/

namespace MiniVirt.Kvm

/-! ### A sequence of exits -/

/-- The exit in the state `s`, if the capture buffer holds `serial`. -/
def captureExit (serial : List (BitVec 8)) (s : St) : St :=
  St.afterIo { s with kvm := { s.kvm with serial := serial } }

/-- The capture buffer of a new VM after the exits, each in an arbitrary state. -/
def captured (exits : List St) : List (BitVec 8) :=
  runSteps (fun serial s => (captureExit serial s).kvm.serial) [] exits

/-- The byte that a scalar OUT to the serial port sends. -/
def St.serialByte (s : St) : Option (BitVec 8) :=
  if s.ioQual.string = false ∧ s.ioQual.isIn = false ∧ s.ioQual.port = 0x3f8 then some (s.rax.setWidth 8)
  else none

/-- What the guest has sent to the serial port. -/
def serialBytes (exits : List St) : List (BitVec 8) := exits.filterMap St.serialByte

/-- The copy stays inside the first `n` bytes of the capture buffer and, with its NUL, inside `line`. -/
def LineCopy.Inside (k : LineCopy) (n : Nat) : Prop :=
  0 ≤ k.start ∧ 0 ≤ k.len ∧ k.start + k.len ≤ n ∧ n ≤ miniKvmSerialSize ∧ k.len + 1 ≤ lineSize

structure CaptureLaw (exits : List St) : Prop where
  serial : captured exits = (serialBytes exits).take 511
  getSerial : miniGetSerial (captured exits) =
    (serialBytes exits).take 255 ++ List.replicate (256 - min (serialBytes exits).length 255) 0
  /-- At the next exit, whatever it is. -/
  copy : ∀ s : St, ∃ copies, (captureExit (captured exits) s).lineCopies = s.lineCopies ++ copies ∧
    ∀ k ∈ copies, k.Inside (captured (exits ++ [s])).length

/-! ### One exit -/

theorem miniSerialOut_serial (serial : List (BitVec 8)) (c : BitVec 8) :
    (miniSerialOut serial c).1 = if serial.length < 511 then serial ++ [c] else serial := by
  unfold miniSerialOut
  show Prod.fst (ite _ _ _) = _
  split
  · rfl
  · rfl

/-- An exit sends its byte to `mini_serial_out()`, if it has one. -/
theorem afterIo_serialByte (s : St) :
    s.afterIo.kvm.serial = s.serialByte.elim s.kvm.serial (fun c => (miniSerialOut s.kvm.serial c).1) ∧
      s.afterIo.lineCopies =
        s.lineCopies ++ (s.serialByte.bind fun c => (miniSerialOut s.kvm.serial c).2).toList := by
  have hnone {v : IoView} (hio : s.afterIo.io = v) (hserial : v.serial = s.kvm.serial)
      (hcopies : v.lineCopies = s.lineCopies) (hbyte : s.serialByte = none) :
      s.afterIo.kvm.serial = s.serialByte.elim s.kvm.serial (fun c => (miniSerialOut s.kvm.serial c).1) ∧
        s.afterIo.lineCopies =
          s.lineCopies ++ (s.serialByte.bind fun c => (miniSerialOut s.kvm.serial c).2).toList := by
    rw [hbyte]
    refine ⟨(congrArg IoView.serial hio).trans hserial, (congrArg IoView.lineCopies hio).trans ?_⟩
    rw [hcopies, Option.bind_none, Option.toList_none, List.append_nil]
  by_cases hstring : s.ioQual.string = false
  · by_cases hin : s.ioQual.isIn = false
    · obtain ⟨x, hport, -, hio⟩ := afterIo_out hstring hin
      rw [s.io.out_of_port hport] at hio
      by_cases h : s.ioQual.port = 0x3f8
      · have hbyte : s.serialByte = some (s.rax.setWidth 8) := if_pos ⟨hstring, hin, h⟩
        rw [hbyte]
        dsimp only at hio
        rw [if_pos h] at hio
        exact ⟨congrArg IoView.serial hio, congrArg IoView.lineCopies hio⟩
      · dsimp only at hio
        rw [if_neg h] at hio
        exact hnone hio rfl rfl (if_neg fun hb => h hb.2.2)
    · exact hnone (afterIo_in hstring (Bool.eq_true_of_not_eq_false hin)) rfl rfl (if_neg fun hb => hin hb.2.1)
  · exact hnone (handleIoInstruction_string (Bool.eq_true_of_not_eq_false hstring)).2.2 rfl rfl
      (if_neg fun hb => hstring hb.1)

theorem captureExit_serial (serial : List (BitVec 8)) (s : St) :
    (captureExit serial s).kvm.serial = s.serialByte.elim serial fun c => (miniSerialOut serial c).1 :=
  (afterIo_serialByte { s with kvm := { s.kvm with serial := serial } }).1

theorem captureExit_copies (serial : List (BitVec 8)) (s : St) :
    (captureExit serial s).lineCopies =
      s.lineCopies ++ (s.serialByte.bind fun c => (miniSerialOut serial c).2).toList :=
  (afterIo_serialByte { s with kvm := { s.kvm with serial := serial } }).2

/-- The buffer stops at 511 bytes. -/
theorem miniSerialOut_take (bytes : List (BitVec 8)) (c : BitVec 8) :
    (miniSerialOut (bytes.take 511) c).1 = (bytes ++ [c]).take 511 := by
  rw [miniSerialOut_serial, List.length_take]
  by_cases hlen : bytes.length < 511
  · rw [if_pos (by omega), List.take_of_length_le (by omega), List.take_of_length_le]
    rw [List.length_append, List.length_singleton]
    omega
  · rw [if_neg (by omega), List.take_append_of_le_length (by omega)]

theorem captured_concat (exits : List St) (s : St) :
    captured (exits ++ [s]) = (captureExit (captured exits) s).kvm.serial := by
  unfold captured
  rw [runSteps_append]
  rfl

theorem captured_eq (exits : List St) : captured exits = (serialBytes exits).take 511 := by
  induction exits using List.reverseRecOn with
  | nil => rfl
  | append_singleton exits s ih =>
    rw [captured_concat, captureExit_serial, ih]
    unfold serialBytes
    rw [List.filterMap_append]
    cases hs : s.serialByte with
    | none => simp [hs]
    | some c =>
      rw [List.filterMap_cons_some hs, List.filterMap_nil]
      exact miniSerialOut_take _ c

/-! ### The copies -/

theorem lineStart_le (serial : List (BitVec 8)) (i : Nat) : lineStart serial i ≤ i := by
  induction i with
  | zero => exact Nat.le_refl 0
  | succ i ih =>
    unfold lineStart
    split
    · exact Nat.le_refl _
    · exact Nat.le_succ_of_le ih

/-- The copy is made of the buffer into which the newline may have gone. -/
theorem miniSerialOut_copy {serial : List (BitVec 8)} {c : BitVec 8} {k : LineCopy}
    (h : (miniSerialOut serial c).2 = some k) :
    let after := (miniSerialOut serial c).1
    k.start = lineStart after (after.length - 1) ∧ k.len = after.length - k.start := by
  rw [miniSerialOut_serial]
  unfold miniSerialOut at h
  extract_lets after start at h
  split at h
  · cases h
  · cases h
    exact ⟨rfl, rfl⟩

theorem miniSerialOut_inside {serial : List (BitVec 8)} {c : BitVec 8} {k : LineCopy} (hlen : serial.length ≤ 511)
    (h : (miniSerialOut serial c).2 = some k) : k.Inside (miniSerialOut serial c).1.length := by
  obtain ⟨hstart, hk⟩ := miniSerialOut_copy h
  have hafter : (miniSerialOut serial c).1.length ≤ 511 := by
    rw [miniSerialOut_serial]
    split
    · rw [List.length_append, List.length_singleton]
      omega
    · exact hlen
  generalize (miniSerialOut serial c).1 = after at hstart hk hafter ⊢
  have hle := lineStart_le after (after.length - 1)
  unfold LineCopy.Inside miniKvmSerialSize lineSize miniKvmSerialSize
  omega

/-! ### The law -/

theorem captureLaw (exits : List St) : CaptureLaw exits where
  serial := captured_eq exits
  getSerial := by
    unfold miniGetSerial
    dsimp only
    rw [captured_eq, List.length_take, List.take_take, List.drop_replicate]
    congr 1
    · rw [List.take_eq_take_iff]
      omega
    · congr 1
      omega
  copy s := by
    refine ⟨_, captureExit_copies (captured exits) s, fun k hk => ?_⟩
    obtain ⟨c, hc, hcopy⟩ := Option.bind_eq_some_iff.1 (Option.mem_toList.1 hk)
    rw [captured_concat, captureExit_serial, hc]
    refine miniSerialOut_inside ?_ hcopy
    rw [captured_eq, List.length_take]
    omega

end MiniVirt.Kvm
