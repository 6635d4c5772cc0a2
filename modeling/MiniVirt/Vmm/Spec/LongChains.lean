import MiniVirt.Vmm.Spec.Echo

/-!
# Chains of more than 64 descriptors

`gather_chain()` stores 64 segments and accepts chains of any length.  So the console sends what is in the first 64
descriptors, and the block device takes the 64th one for the last.
-/

namespace MiniVirt.Vmm

/-! ### What the handlers make of a chain -/

/-- The bytes of the buffers. -/
def descBytes (m : ByteMem) (ds : List Desc) : List (BitVec 8) :=
  ds.flatMap fun d => m.read d.addr.toNat d.len.toNat

/-- What has gone to stdout. -/
def stdoutBytes (trace : List Event) : List (BitVec 8) :=
  trace.flatMap fun
    | .stdout l => l
    | _ => []

/-- `gather_chain()` and the loop of `console_handle()` over the segments to transmit. -/
def gatherTransmit (vq : Vq) (head : BitVec 16) : V Unit := do
  match ← gatherChain vq head with
  | .ok segs => transmitSegs segs
  | _ => return ()

/-- The data segments and the status segment that `blk_handle()` takes. -/
def blkParts : List Seg → Option (List Seg × Seg)
  | _ :: second :: rest => some ((second :: rest).dropLast, (second :: rest).getLast (List.cons_ne_nil second rest))
  | _ => none

theorem blkHandle_eq (segs : List Seg) :
    blkHandle segs = (blkParts segs).elim (return some 0) fun parts => do
      let hdr ← chainRead segs 0 (← takeStale 16)
      return some (← blkRequest hdr parts.1 parts.2.hva) := by
  match segs with
  | [] => rfl
  | [_] => rfl
  | _ :: _ :: _ => rfl

/-! ### The law -/

/-- The chain `ds` at `head` is sent, and queued for the echo, as a whole. -/
structure SentWhole (s : St) (vq : Vq) (head : BitVec 16) (ds : List Desc) : Prop where
  stdout : stdoutBytes ((gatherTransmit vq head).run s).2.trace = stdoutBytes s.trace ++ descBytes s.mem ds
  echo : ((gatherTransmit vq head).run s).2.conIn.bytes = s.conIn.bytes ++ descBytes s.mem ds

/-- The last descriptor of the chain at `head` is the status, and all others but the first one are data. -/
def RequestWhole (s : St) (vq : Vq) (head : BitVec 16) (data : List Desc) (status : Desc) : Prop :=
  ∀ segs, ((gatherChain vq head).run s).1 = .ok segs → blkParts segs = some (data.map Desc.seg, status.seg)

/-- Neither device truncates the chain `ds` at `head`. -/
structure WholeLaw (s : St) (vq : Vq) (head : BitVec 16) (ds : List Desc) : Prop where
  console : SentWhole s vq head ds
  blk : ∀ first data status, ds = first :: (data ++ [status]) → RequestWhole s vq head data status

/-- `con_in` can hold the bytes, or those that are overwritten are overwritten with the same. -/
def EchoHolds (l : List (BitVec 8)) : Prop := l.length < 2 ^ 32 ∧ RingBuffer.Periodic conInSz l

/-! ### The console -/

/-- The walk changes nothing, and writes nothing to stdout. -/
def readsOnly : Guarantee St where
  rel s s' := s'.mem = s.mem ∧ s'.conIn = s.conIn ∧ stdoutBytes s'.trace = stdoutBytes s.trace
  refl _ := ⟨rfl, rfl, rfl⟩
  trans h h' := ⟨h'.1.trans h.1, h'.2.1.trans h.2.1, h'.2.2.trans h.2.2⟩

theorem stdoutBytes_append (l l' : List Event) : stdoutBytes (l ++ l') = stdoutBytes l ++ stdoutBytes l' :=
  List.flatMap_append

theorem gatherChain_readsOnly (vq : Vq) (head : BitVec 16) : Within readsOnly (gatherChain vq head) := by
  refine gatherChain_within (G := readsOnly) (fun s off len => ⟨rfl, rfl, ?_⟩) vq head
  show stdoutBytes (s.trace ++ [.read off len]) = _
  rw [stdoutBytes_append]
  exact List.append_nil _

theorem transmitSegs_stdout (segs : List Seg) (s : St) :
    stdoutBytes ((transmitSegs segs).run s).2.trace = stdoutBytes s.trace ++ segBytes s.mem segs := by
  induction segs generalizing s with
  | nil => exact (List.append_nil _).symm
  | cons seg segs ih =>
    have hcons : segBytes s.mem (seg :: segs) = s.mem.read seg.hva seg.len.toNat ++ segBytes s.mem segs := rfl
    refine (ih { ((s.log (.read seg.hva seg.len.toNat)).log (.stdout (s.mem.read seg.hva seg.len.toNat))).log
      (.read seg.hva seg.len.toNat) with conIn := s.conIn.push (s.mem.read seg.hva seg.len.toNat) }).trans ?_
    show stdoutBytes (((s.trace ++ [_]) ++ [_]) ++ [_]) ++ _ = _
    rw [stdoutBytes_append, stdoutBytes_append, stdoutBytes_append, hcons]
    simp [stdoutBytes]

theorem segBytes_map (m : ByteMem) (ds : List Desc) : segBytes m (ds.map Desc.seg) = descBytes m ds := by
  unfold segBytes descBytes
  rw [List.flatMap_map]
  rfl

theorem bytes_push_of_holds {c : ConIn} {l : List (BitVec 8)} (h : EchoHolds (c.bytes ++ l)) :
    (c.push l).bytes = c.bytes ++ l := by
  induction l generalizing c with
  | nil => exact (List.append_nil _).symm
  | cons b l ih =>
    have hsplit : c.bytes ++ b :: l = c.bytes ++ [b] ++ l := by rw [List.append_assoc, List.singleton_append]
    rw [hsplit] at h ⊢
    have hlength : (c.head - c.tail).toNat = c.bytes.length := RingBuffer.length_contents.symm
    have hlt := h.1
    rw [List.length_append, List.length_append, List.length_singleton] at hlt
    have hroom : (c.head - c.tail).toNat + 1 < 2 ^ 32 := by omega
    have hpush : (c.push1 b).bytes = c.bytes ++ [b] :=
      RingBuffer.contents_push_of_periodic (by decide) hroom h.2.of_append
    rw [← hpush] at h ⊢
    exact ih h

/-- The ring holds what it should exactly when nothing in it has been overwritten with something else. -/
theorem bytes_push_iff (c : ConIn) (l : List (BitVec 8)) :
    (c.push l).bytes = c.bytes ++ l ↔ EchoHolds (c.bytes ++ l) := by
  refine ⟨fun h => ?_, bytes_push_of_holds⟩
  rw [← h]
  unfold EchoHolds ConIn.bytes
  rw [RingBuffer.length_contents]
  exact ⟨BitVec.isLt _, RingBuffer.contents_periodic⟩

theorem gatherTransmit_spec {s : St} {vq : Vq} {head : BitVec 16} {ds : List Desc}
    (h : ChainAt s.mem s.memSize vq head ds) :
    stdoutBytes ((gatherTransmit vq head).run s).2.trace = stdoutBytes s.trace ++ descBytes s.mem (ds.take 64) ∧
      ((gatherTransmit vq head).run s).2.conIn = s.conIn.push (descBytes s.mem (ds.take 64)) := by
  have hok := gatherChain_ok_iff.2 ⟨ds, h, rfl⟩
  obtain ⟨hmem, hconIn, hstdout⟩ := gatherChain_readsOnly vq head s
  unfold gatherTransmit
  rw [run_bind]
  generalize (gatherChain vq head).run s = y at hok hmem hconIn hstdout ⊢
  obtain ⟨g, s'⟩ := y
  dsimp only at hok hmem hconIn hstdout ⊢
  subst hok
  have hsegs : segBytes s'.mem ((ds.map Desc.seg).take vqMaxSegs) = descBytes s.mem (ds.take 64) := by
    rw [← List.map_take, segBytes_map, hmem]
    rfl
  dsimp only
  rw [transmitSegs_stdout, transmitSegs_conIn, hsegs, hstdout, hconIn]
  exact ⟨rfl, rfl⟩

theorem descBytes_append (m : ByteMem) (ds ds' : List Desc) :
    descBytes m (ds ++ ds') = descBytes m ds ++ descBytes m ds' :=
  List.flatMap_append

theorem descBytes_eq_nil_iff (m : ByteMem) (ds : List Desc) : descBytes m ds = [] ↔ ∀ d ∈ ds, d.len = 0 := by
  unfold descBytes
  rw [List.flatMap_eq_nil_iff]
  refine forall₂_congr fun d _ => ?_
  rw [← List.length_eq_zero_iff, ByteMem.length_read]
  exact ⟨fun h => BitVec.eq_of_toNat_eq h, fun h => by rw [h]; rfl⟩

theorem sentWhole_iff {s : St} {vq : Vq} {head : BitVec 16} {ds : List Desc}
    (h : ChainAt s.mem s.memSize vq head ds) :
    SentWhole s vq head ds ↔
      (∀ d ∈ ds.drop 64, d.len = 0) ∧ EchoHolds (s.conIn.bytes ++ descBytes s.mem ds) := by
  obtain ⟨hstdout, hconIn⟩ := gatherTransmit_spec h
  have hsplit : descBytes s.mem ds = descBytes s.mem (ds.take 64) ++ descBytes s.mem (ds.drop 64) := by
    rw [← descBytes_append, List.take_append_drop]
  have hwhole : descBytes s.mem (ds.take 64) = descBytes s.mem ds ↔ ∀ d ∈ ds.drop 64, d.len = 0 := by
    rw [hsplit, ← descBytes_eq_nil_iff s.mem]
    exact List.self_eq_append_right
  constructor
  · rintro ⟨hout, hecho⟩
    rw [hstdout, List.append_cancel_left_eq] at hout
    rw [hconIn, hout, bytes_push_iff] at hecho
    exact ⟨hwhole.1 hout, hecho⟩
  · rintro ⟨hlen, hholds⟩
    rw [← hwhole] at hlen
    refine ⟨?_, ?_⟩
    · rw [hstdout, hlen]
    · rw [hconIn, hlen]
      exact bytes_push_of_holds hholds

/-! ### The block device -/

theorem blkParts_cons (first : Seg) {segs : List Seg} (h : segs ≠ []) :
    blkParts (first :: segs) = some (segs.dropLast, segs.getLast h) := by
  obtain ⟨second, rest, rfl⟩ := List.exists_cons_of_ne_nil h
  rfl

theorem requestWhole_iff {s : St} {vq : Vq} {head : BitVec 16} {first status : Desc} {data : List Desc}
    (h : ChainAt s.mem s.memSize vq head (first :: (data ++ [status]))) :
    RequestWhole s vq head data status ↔ (first :: (data ++ [status])).length ≤ 64 := by
  have hok := gatherChain_ok_iff.2 ⟨_, h, rfl⟩
  have hlen : (first :: (data ++ [status])).length = data.length + 2 := by simp
  have hsize : vqMaxSegs = 64 := rfl
  rw [hlen]
  constructor
  · intro hwhole
    have hparts := hwhole _ hok
    -- the data segments are those between the first stored segment and the last
    rw [hsize, List.map_cons, List.take_succ_cons, blkParts_cons _ (by simp)] at hparts
    have hdata := congrArg List.length (Prod.mk.inj (Option.some.inj hparts)).1
    simp at hdata
    omega
  · intro hle segs hsegs
    have htake : ((first :: (data ++ [status])).map Desc.seg).take vqMaxSegs =
        first.seg :: (data.map Desc.seg ++ [status.seg]) := by
      rw [List.take_of_length_le (by rw [List.length_map, hlen]; exact hle), List.map_cons, List.map_append]
      rfl
    rw [hok, htake] at hsegs
    rw [← Gathered.ok.inj hsegs, blkParts_cons _ (by simp), List.dropLast_concat, List.getLast_append_singleton]

/-! ### Both devices -/

theorem wholeChain_iff {s : St} {vq : Vq} {head : BitVec 16} {ds : List Desc} (h : ChainAt s.mem s.memSize vq head ds) :
    WholeLaw s vq head ds ↔ ds.length ≤ 64 ∧ EchoHolds (s.conIn.bytes ++ descBytes s.mem ds) := by
  constructor
  · rintro ⟨hconsole, hblk⟩
    refine ⟨?_, ((sentWhole_iff h).1 hconsole).2⟩
    match ds with
    | [] => exact Nat.zero_le _
    | [_] => exact Nat.le_add_left 1 63
    | first :: second :: rest =>
      have hsplit : first :: second :: rest = first :: ((second :: rest).dropLast ++
          [(second :: rest).getLast (List.cons_ne_nil second rest)]) := by rw [List.dropLast_append_getLast]
      rw [hsplit] at h ⊢
      exact (requestWhole_iff h).1 (hblk _ _ _ hsplit)
  · rintro ⟨hlen, hholds⟩
    refine ⟨(sentWhole_iff h).2 ⟨?_, hholds⟩, ?_⟩
    · rw [List.drop_eq_nil_of_le hlen]
      simp
    · rintro first data status rfl
      exact (requestWhole_iff h).2 hlen

/-- A table of 65 descriptors, one byte each, that form a chain. -/
def longMem : ByteMem := fun a =>
  let i := (a - 0x1000) / 16
  if a < 0x1000 ∨ 64 < i then 0
  else
    match a % 16 with
    | 8 => 1
    | 12 => if i < 64 then 1 else 0
    | 14 => .ofNat 8 (i + 1)
    | _ => 0

def longStart : St := .initial longMem 0x4000000 [] true fun _ => 0

def longVq : Vq := { Vq.zero with num := 256, desc := 0x1000 }

def longDesc (i : Nat) : Desc := ⟨0, 1, if i < 64 then 1 else 0, .ofNat 16 (i + 1)⟩

theorem longMem_desc : ∀ i < 65, Desc.ofMem longMem (0x1000 + 16 * i) = longDesc i := by decide +kernel

/-- The last `k + 1` of the descriptors. -/
theorem longChain_tail (k : Nat) (hk : k ≤ 64) :
    Chain longMem 0x4000000 256 0x1000 (.ofNat 16 (64 - k)) ((List.range' (64 - k) (k + 1)).map longDesc) := by
  have hdesc (i : Nat) (hi : i < 65) : Desc.ofMem longMem (0x1000 + 16 * (BitVec.ofNat 16 i).toNat) = longDesc i := by
    rw [BitVec.toNat_ofNat, Nat.mod_eq_of_lt (by omega)]
    exact longMem_desc i hi
  induction k with
  | zero =>
    show Chain _ _ _ _ _ [longDesc 64]
    rw [← hdesc 64 (by omega)]
    exact .last (by decide) (by decide +kernel) (by decide +kernel)
  | succ k ih =>
    obtain ⟨i, hi⟩ : ∃ i, 64 - k = i + 1 := ⟨63 - k, by omega⟩
    have hprev : 64 - (k + 1) = i := by omega
    have hrest := ih (by omega)
    rw [hi] at hrest
    rw [hprev, List.range'_succ, List.map_cons, ← hdesc i (by omega)]
    refine .next ?_ ?_ ?_ ?_
    · rw [BitVec.toNat_ofNat]
      omega
    · rw [hdesc i (by omega)]
      show 0 + 1 ≤ 0x4000000
      omega
    · rw [hdesc i (by omega)]
      unfold Desc.hasNext longDesc
      rw [if_pos (by omega)]
      show decide ((1 : BitVec 16) &&& vringDescFNext ≠ 0) = true
      decide
    · rw [hdesc i (by omega)]
      exact hrest

theorem longChain : ChainAt longStart.mem longStart.memSize longVq 0 ((List.range 65).map longDesc) := by
  have hall := longChain_tail 64 (Nat.le_refl 64)
  rw [← List.range_eq_range'] at hall
  exact ⟨by decide, hall⟩

theorem wholeChain_iff_long : WholeLaw longStart longVq 0 ((List.range 65).map longDesc) ↔
    ((List.range 65).map longDesc).length ≤ 64 ∧
      EchoHolds (longStart.conIn.bytes ++ descBytes longStart.mem ((List.range 65).map longDesc)) :=
  wholeChain_iff longChain

theorem not_wholeLaw : ¬∀ s vq head ds, vq.num.toNat ≤ 256 → ChainAt s.mem s.memSize vq head ds →
    WholeLaw s vq head ds := by
  intro h
  have hlaw := h longStart longVq 0 _ (by decide) longChain
  have hsplit : (List.range 65).map longDesc = longDesc 0 :: ((List.range' 1 63).map longDesc ++ [longDesc 64]) := by
    decide
  have hchain := longChain
  rw [hsplit] at hchain
  have hle := (requestWhole_iff hchain).1 (hlaw.blk _ _ _ hsplit)
  revert hle
  decide

end MiniVirt.Vmm
