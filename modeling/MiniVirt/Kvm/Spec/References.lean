import MiniVirt.Kvm.Spec.ObjectUse
import Mathlib.Data.Multiset.Count

/-!
# Who refers to a VM and to a vCPU

The calls in progress and the files hold `Token`s, and `RefInv` says what the tokens mean: the reference count of
a VM is the number of tokens that refer to it, and as long as any token is about an object, the object has not been
freed.  Each lemma of this module is one way in which a step moves tokens.
-/

namespace MiniVirt.Kvm

inductive Token where
  /-- The right to create this VM. -/
  | newKvm (k : KvmPtr)
  /-- The first reference to a VM that nobody else knows. -/
  | own (k : KvmPtr)
  | ref (k : KvmPtr)
  /-- The VM will be dereferenced once more, without a reference. -/
  | info (k : KvmPtr)
  | newVcpu (v : VcpuPtr)
  /-- A vCPU without a reference to its VM. -/
  | vcpu (v : VcpuPtr)
  /-- A vCPU with its reference. -/
  | pub (v : VcpuPtr)
  deriving DecidableEq

namespace Token

/-- The token is a reference to the VM `k`. -/
def refers (owner : VcpuPtr → KvmPtr) (k : KvmPtr) : Token → Bool
  | .own k' | .ref k' => k' = k
  | .pub v => owner v = k
  | _ => false

def about (owner : VcpuPtr → KvmPtr) (k : KvmPtr) : Token → Bool
  | .newKvm k' | .own k' | .ref k' | .info k' => k' = k
  | .pub v => owner v = k
  | _ => false

/-- Nobody else has a token about the VM. -/
def solo (k : KvmPtr) : Token → Bool
  | .newKvm k' | .own k' => k' = k
  | _ => false

def aboutVcpu (v : VcpuPtr) : Token → Bool
  | .newVcpu v' | .vcpu v' | .pub v' => v' = v
  | _ => false

end Token

/-- `vcpu->kvm` of every vCPU. -/
def Kernel.owner (s : Kernel) (v : VcpuPtr) : KvmPtr := (s.vcpu v).kvm

namespace Tokens

variable (owner : VcpuPtr → KvmPtr) (T : Multiset Token) (k : KvmPtr) (v : VcpuPtr) (t : Token)

/-- How many tokens are references to the VM. -/
def refs : Nat := T.countP (·.refers owner k)

def abouts : Nat := T.countP (·.about owner k)

def solos : Nat := T.countP (·.solo k)

def vcpus : Nat := T.countP (·.aboutVcpu v)

@[simp]
theorem refs_cons : refs owner (t ::ₘ T) k = refs owner T k + if t.refers owner k then 1 else 0 :=
  Multiset.countP_cons ..

@[simp]
theorem abouts_cons : abouts owner (t ::ₘ T) k = abouts owner T k + if t.about owner k then 1 else 0 :=
  Multiset.countP_cons ..

@[simp]
theorem solos_cons : solos (t ::ₘ T) k = solos T k + if t.solo k then 1 else 0 := Multiset.countP_cons ..

@[simp]
theorem vcpus_cons : vcpus (t ::ₘ T) v = vcpus T v + if t.aboutVcpu v then 1 else 0 := Multiset.countP_cons ..

theorem countP_mono {p q : Token → Bool} (h : ∀ t, p t → q t) : T.countP (p ·) ≤ T.countP (q ·) := by
  induction T using Quotient.inductionOn with
  | h l => exact List.countP_mono_left fun t _ ht => by simpa using h t (by simpa using ht)

theorem refs_le : refs owner T k ≤ abouts owner T k := by
  refine countP_mono T fun t ht => ?_
  cases t <;> first | exact ht | cases ht

theorem solos_le : solos T k ≤ abouts owner T k := by
  refine countP_mono T fun t ht => ?_
  cases t <;> first | exact ht | cases ht

variable {owner T k v t}

/-- A token about a VM is a reference, or its holder is alone, or it is for the message of the creation. -/
theorem abouts_eq_zero (hrefs : refs owner T k = 0) (hsolos : solos T k = 0) (hinfo : .info k ∉ T) :
    abouts owner T k = 0 := by
  refine Multiset.countP_eq_zero.2 fun t ht habout => ?_
  have hrefers := Multiset.countP_eq_zero.1 hrefs t ht
  have hsolo := Multiset.countP_eq_zero.1 hsolos t ht
  cases t with
  | info k' =>
    obtain rfl : k' = k := of_decide_eq_true habout
    exact hinfo ht
  | newKvm k' => exact hsolo habout
  | own k' | ref k' | pub v => exact hrefers habout
  | newVcpu v | vcpu v => cases habout

theorem abouts_pos (ht : t ∈ T) (hk : t.about owner k) : abouts owner T k ≠ 0 :=
  Nat.pos_iff_ne_zero.1 (Multiset.countP_pos.2 ⟨t, ht, hk⟩)

theorem refs_pos (ht : t ∈ T) (hk : t.refers owner k) : refs owner T k ≠ 0 :=
  Nat.pos_iff_ne_zero.1 (Multiset.countP_pos.2 ⟨t, ht, hk⟩)

theorem vcpus_pos (ht : t ∈ T) (hv : t.aboutVcpu v) : vcpus T v ≠ 0 :=
  Nat.pos_iff_ne_zero.1 (Multiset.countP_pos.2 ⟨t, ht, hv⟩)

/-- Where a vCPU without tokens belongs to is of no importance. -/
theorem counts_update (hv : vcpus T v = 0) (k' : KvmPtr) :
    refs (Function.update owner v k') T k = refs owner T k ∧
      abouts (Function.update owner v k') T k = abouts owner T k := by
  have hne : ∀ v', Token.pub v' ∈ T → Function.update owner v k' v' = owner v' := by
    intro v' hmem
    refine Function.update_of_ne (fun hv' => ?_) ..
    exact Multiset.countP_eq_zero.1 hv _ hmem (decide_eq_true hv')
  constructor
  · refine Multiset.countP_congr rfl fun t ht => ?_
    cases t <;> simp [Token.refers]
    rw [hne _ ht]
  · refine Multiset.countP_congr rfl fun t ht => ?_
    cases t <;> simp [Token.about]
    rw [hne _ ht]

end Tokens

open Tokens

/-- The tokens `T` of all calls and files agree with the VM `k`; VMs from `nk` on do not exist yet. -/
structure VmTokens (s : Kernel) (T : Multiset Token) (nk k : KvmPtr) : Prop where
  refcount : refs s.owner T k ≠ 0 → (s.kvm k).refcount = refs s.owner T k
  live : abouts s.owner T k ≠ 0 → .give (.kvm k) ∉ s.ledger
  alone : solos T k ≠ 0 → abouts s.owner T k = 1
  unborn : nk ≤ k → abouts s.owner T k = 0 ∧ .give (.kvm k) ∉ s.ledger

structure VcpuTokens (s : Kernel) (T : Multiset Token) (nv v : VcpuPtr) : Prop where
  once : vcpus T v ≤ 1
  live : vcpus T v ≠ 0 → .give (.vcpu v) ∉ s.ledger
  unborn : nv ≤ v → vcpus T v = 0 ∧ .give (.vcpu v) ∉ s.ledger

/-- No object has been dereferenced after it was freed, and the tokens agree with all of them. -/
structure RefInv (s : Kernel) (T : Multiset Token) (nk : KvmPtr) (nv : VcpuPtr) : Prop where
  safe : ObjectSafe s.ledger
  vm : ∀ k, VmTokens s T nk k
  vcpu : ∀ v, VcpuTokens s T nv v

section Congr

variable {s s' : Kernel} {T T' : Multiset Token} {nk : KvmPtr} {nv : VcpuPtr} {k : KvmPtr} {v : VcpuPtr}

theorem VmTokens.congr (h : VmTokens s T nk k) (hrefcount : (s'.kvm k).refcount = (s.kvm k).refcount)
    (hgive : .give (.kvm k) ∈ s'.ledger ↔ .give (.kvm k) ∈ s.ledger)
    (hrefs : refs s'.owner T' k = refs s.owner T k) (habouts : abouts s'.owner T' k = abouts s.owner T k)
    (hsolos : solos T' k = solos T k) : VmTokens s' T' nk k := by
  constructor
  · rw [hrefs, hrefcount]
    exact h.refcount
  · rw [habouts, hgive]
    exact h.live
  · rw [hsolos, habouts]
    exact h.alone
  · rw [habouts, hgive]
    exact h.unborn

/-- A VM without tokens. -/
theorem VmTokens.of_abouts_eq_zero (h : abouts s.owner T k = 0) (hk : nk ≤ k → .give (.kvm k) ∉ s.ledger) :
    VmTokens s T nk k := by
  have hrefs := refs_le s.owner T k
  have hsolos := solos_le s.owner T k
  exact ⟨fun h => absurd (by omega) h, fun h' => absurd h h', fun h => absurd (by omega) h,
    fun hnk => ⟨h, hk hnk⟩⟩

theorem VcpuTokens.congr (h : VcpuTokens s T nv v)
    (hgive : .give (.vcpu v) ∈ s'.ledger ↔ .give (.vcpu v) ∈ s.ledger) (hvcpus : vcpus T' v = vcpus T v) :
    VcpuTokens s' T' nv v := by
  constructor
  · rw [hvcpus]
    exact h.once
  · rw [hvcpus, hgive]
    exact h.live
  · rw [hvcpus, hgive]
    exact h.unborn

end Congr

/-! ### What a step does to the tokens -/

theorem ObjectSafe.give {l : List (LedgerEvent Resource)} (h : ObjectSafe l) (r : Resource) :
    ObjectSafe (l ++ [.give r]) := by
  refine List.pairwise_append.2 ⟨h, List.pairwise_singleton _ _, fun e _ e' he' r' _ _ => ?_⟩
  obtain rfl := List.mem_singleton.1 he'
  exact fun h => (by cases h)

namespace RefInv

variable {s s' : Kernel} {T O : Multiset Token} {nk : KvmPtr} {nv : VcpuPtr} {k : KvmPtr} {v : VcpuPtr}

theorem live_of_mem (h : RefInv s T nk nv) {t : Token} (ht : t ∈ T) (hk : t.about s.owner k) :
    .give (.kvm k) ∉ s.ledger :=
  (h.vm k).live (abouts_pos ht hk)

theorem vcpuLive_of_mem (h : RefInv s T nk nv) {t : Token} (ht : t ∈ T) (hv : t.aboutVcpu v) :
    .give (.vcpu v) ∉ s.ledger :=
  (h.vcpu v).live (vcpus_pos ht hv)

/-- Operations that dereference live objects and free nothing. -/
theorem touches (h : RefInv s T nk nv) {A : Resource → Prop} (ht : s.Touches A s')
    (hA : ∀ r, r.isObject → A r → .give r ∉ s.ledger) : RefInv s' T nk nv := by
  obtain ⟨l, hl, huses⟩ := ht.ledger
  have hgive : ∀ r : Resource, r.isObject → (.give r ∈ s'.ledger ↔ .give r ∈ s.ledger) := by
    intro r hr
    rw [hl, List.mem_append, or_iff_left (huses r hr).2]
  have howner : s'.owner = s.owner := funext ht.owner
  constructor
  · rw [hl]
    exact h.safe.append huses hA
  · exact fun k => (h.vm k).congr (ht.refcount k) (hgive _ rfl) (by rw [howner]) (by rw [howner]) rfl
  · exact fun v => (h.vcpu v).congr (hgive _ rfl) rfl

/-- A descriptor is installed or closed. -/
theorem files (h : RefInv s T nk nv) (files : List (Fd × File)) : RefInv { s with files := files } T nk nv :=
  ⟨h.safe, fun k => (h.vm k).congr rfl Iff.rfl rfl rfl rfl, fun v => (h.vcpu v).congr Iff.rfl rfl⟩

/-- A token that is no reference is dropped. -/
theorem drop {t : Token} (h : RefInv s (t ::ₘ O) nk nv) (ht : ∀ k, t.refers s.owner k = false) :
    RefInv s O nk nv := by
  refine ⟨h.safe, fun k => ?_, fun v => ?_⟩
  · obtain ⟨hrefcount, hlive, halone, hunborn⟩ := h.vm k
    have hsolos := solos_le s.owner O k
    simp only [refs_cons, abouts_cons, solos_cons, ht] at hrefcount hlive halone hunborn
    exact ⟨hrefcount, fun h => hlive (by omega), fun h => by have := halone (by omega); omega,
      fun h => ⟨by have := (hunborn h).1; omega, (hunborn h).2⟩⟩
  · obtain ⟨honce, hlive, hunborn⟩ := h.vcpu v
    simp only [vcpus_cons] at honce hlive hunborn
    exact ⟨by omega, fun h => hlive (by omega), fun h => ⟨by have := (hunborn h).1; omega, (hunborn h).2⟩⟩

theorem others_about {t : Token} (h : RefInv s (t ::ₘ O) nk nv) (ht : t.solo k) : abouts s.owner O k = 0 := by
  have hone := (h.vm k).alone
  have habout : t.about s.owner k := by
    cases t <;> first | exact ht | cases ht
  simp [ht, habout] at hone
  exact hone

/-- A VM that nobody knows may be created. -/
theorem newKvm (h : RefInv s T nk nv) : RefInv s (.newKvm nk ::ₘ T) (nk + 1) nv := by
  refine ⟨h.safe, fun k => ?_, fun v => (h.vcpu v).congr Iff.rfl (by simp [Token.aboutVcpu])⟩
  obtain ⟨hrefcount, hlive, halone, hunborn⟩ := h.vm k
  have hsolos := solos_le s.owner T k
  constructor <;> simp only [refs_cons, abouts_cons, solos_cons, Token.refers, Token.about, Token.solo] <;>
    grind

theorem newVcpu (h : RefInv s T nk nv) : RefInv s (.newVcpu nv ::ₘ T) nk (nv + 1) := by
  refine ⟨h.safe, fun k => (h.vm k).congr rfl Iff.rfl ?_ ?_ ?_, fun v => ?_⟩
  · simp [Token.refers]
  · simp [Token.about]
  · simp [Token.solo]
  obtain ⟨honce, hlive, hunborn⟩ := h.vcpu v
  constructor <;> simp only [vcpus_cons, Token.aboutVcpu] <;> grind

/-- `kzalloc()` and `kref_init()`. -/
theorem bornKvm (h : RefInv s (.newKvm k ::ₘ O) nk nv) {x : KvmObj} (hx : x.refcount = 1) :
    RefInv ((s.putKvm k x).log [.take (.kvm k)]) (.own k ::ₘ O) nk nv := by
  have hgive : ∀ r : Resource, .give r ∈ s.ledger ++ [.take (.kvm k)] ↔ .give r ∈ s.ledger := by simp
  refine ⟨?_, fun k' => ?_, fun v => (h.vcpu v).congr (hgive _) (by simp [Token.aboutVcpu])⟩
  · exact h.safe.append (onlyUses_take (fun _ => False) _) fun _ _ h => h.elim
  by_cases hk : k = k'
  · subst hk
    have hnone := h.others_about (k := k) (by simp [Token.solo])
    have hrefs := refs_le s.owner O k
    refine ⟨fun _ => ?_, fun _ => ?_, fun _ => ?_, fun hnk => ?_⟩
    · show ((s.putKvm k x).kvm k).refcount = refs s.owner _ k
      simp [Token.refers, hx]
      omega
    · show .give (.kvm k) ∉ s.ledger ++ _
      rw [hgive]
      exact h.live_of_mem (Multiset.mem_cons_self ..) (by simp [Token.about])
    · show abouts s.owner _ k = 1
      simp [Token.about, hnone]
    · have := ((h.vm k).unborn hnk).1
      simp [Token.about] at this
  · refine (h.vm k').congr ?_ (hgive _) ?_ ?_ ?_
    · exact congrArg KvmObj.refcount (Function.update_of_ne (Ne.symm hk) ..)
    · show refs s.owner _ k' = _
      simp [Token.refers, hk]
    · show abouts s.owner _ k' = _
      simp [Token.about]
    · simp [Token.solo]

/-- A VM that nobody else knows is freed. -/
theorem freeKvm (h : RefInv s (.own k ::ₘ O) nk nv) : RefInv (s.log [.give (.kvm k)]) O nk nv := by
  refine ⟨h.safe.give _, fun k' => ?_, fun v => (h.vcpu v).congr (by simp [Kernel.log]) (by simp [Token.aboutVcpu])⟩
  by_cases hk : k = k'
  · subst hk
    refine VmTokens.of_abouts_eq_zero (h.others_about (by simp [Token.solo])) fun hnk => ?_
    have := ((h.vm k).unborn hnk).1
    simp [Token.about] at this
  · refine (h.vm k').congr rfl ?_ ?_ ?_ ?_
    · simp [Kernel.log, Ne.symm hk]
    · show refs s.owner _ k' = _
      simp [Token.refers, hk]
    · show abouts s.owner _ k' = _
      simp [Token.about, hk]
    · simp [Token.solo, hk]

/-- The first reference becomes that of the file, and the creation goes on without one. -/
theorem publishVm (h : RefInv s (.own k ::ₘ O) nk nv) : RefInv s (.ref k ::ₘ .info k ::ₘ O) nk nv := by
  refine ⟨h.safe, fun k' => ?_, fun v => (h.vcpu v).congr Iff.rfl (by simp [Token.aboutVcpu])⟩
  by_cases hk : k = k'
  · subst hk
    have hnone := h.others_about (k := k) (by simp [Token.solo])
    have hsolos := solos_le s.owner O k
    have hrefcount := (h.vm k).refcount
    simp [Token.refers] at hrefcount
    refine ⟨fun _ => ?_, fun _ => ?_, fun hsolo => ?_, fun hnk => ?_⟩
    · simp [Token.refers, hrefcount]
    · exact h.live_of_mem (Multiset.mem_cons_self ..) (by simp [Token.about])
    · simp [Token.solo] at hsolo
      omega
    · have := ((h.vm k).unborn hnk).1
      simp [Token.about] at this
  · exact (h.vm k').congr rfl Iff.rfl (by simp [Token.refers]) (by simp [Token.about, hk])
      (by simp [Token.solo, hk])

/-! ### vCPUs -/

/-- `kzalloc()` and `vcpu->kvm = kvm`. -/
theorem bornVcpu (h : RefInv s (.newVcpu v ::ₘ O) nk nv) {x : VcpuObj} (hx : x.kvm = k) :
    RefInv ((s.putVcpu v x).log [.take (.vcpu v)]) (.vcpu v ::ₘ O) nk nv := by
  have hgive : ∀ r : Resource, .give r ∈ s.ledger ++ [.take (.vcpu v)] ↔ .give r ∈ s.ledger := by simp
  have howner : ((s.putVcpu v x).log [.take (.vcpu v)]).owner = Function.update s.owner v k := by
    funext v'
    show ((s.putVcpu v x).vcpu v').kvm = _
    by_cases hv : v' = v
    · rw [hv, Kernel.putVcpu_vcpu, hx, Function.update_self]
    · rw [Function.update_of_ne hv]
      exact congrArg VcpuObj.kvm (Function.update_of_ne hv ..)
  have hnone : vcpus O v = 0 := by
    have := (h.vcpu v).once
    simp [Token.aboutVcpu] at this
    exact this
  refine ⟨?_, fun k' => ?_, fun v' => (h.vcpu v').congr (hgive _) (by simp [Token.aboutVcpu])⟩
  · exact h.safe.append (onlyUses_take (fun _ => False) _) fun _ _ h => h.elim
  obtain ⟨hrefs, habouts⟩ := @counts_update s.owner _ k' v hnone k
  refine (h.vm k').congr rfl (hgive _) ?_ ?_ (by simp [Token.solo])
  · rw [howner]
    simp [Token.refers, hrefs]
  · rw [howner]
    simp [Token.about, habouts]

theorem freeVcpu (h : RefInv s (.vcpu v ::ₘ O) nk nv) : RefInv (s.log [.give (.vcpu v)]) O nk nv := by
  refine ⟨h.safe.give _, fun k => (h.vm k).congr rfl (by simp [Kernel.log]) ?_ ?_ (by simp [Token.solo]),
    fun v' => ?_⟩
  · show refs s.owner _ k = _
    simp [Token.refers]
  · show abouts s.owner _ k = _
    simp [Token.about]
  obtain ⟨honce, hlive, hunborn⟩ := h.vcpu v'
  by_cases hv : v = v'
  · subst hv
    simp [Token.aboutVcpu] at honce hunborn
    exact ⟨by omega, fun h => absurd honce h, fun hnv => absurd hnv (Nat.not_le.2 hunborn)⟩
  · exact (h.vcpu v').congr (by simp [Kernel.log, Ne.symm hv]) (by simp [Token.aboutVcpu, hv])

/-- A vCPU with its reference, taken apart. -/
theorem split (h : RefInv s (.pub v ::ₘ O) nk nv) (hk : s.owner v = k) :
    RefInv s (.vcpu v ::ₘ .ref k ::ₘ O) nk nv := by
  refine ⟨h.safe, fun k' => (h.vm k').congr rfl Iff.rfl ?_ ?_ (by simp [Token.solo]),
    fun v' => (h.vcpu v').congr Iff.rfl (by simp [Token.aboutVcpu])⟩
  · simp [Token.refers, hk]
  · simp [Token.about, hk]

/-- `mini_kvm_get()` for the vCPU by someone who knows that the VM has a reference. -/
theorem addRef (h : RefInv s (.vcpu v ::ₘ O) nk nv) (hk : s.owner v = k) (href : .ref k ∈ O) {x : KvmObj}
    (hx : x.refcount = (s.kvm k).refcount + 1) : RefInv (s.putKvm k x) (.pub v ::ₘ O) nk nv := by
  refine ⟨h.safe, fun k' => ?_, fun v' => (h.vcpu v').congr Iff.rfl (by simp [Token.aboutVcpu])⟩
  by_cases hkk : k = k'
  · subst hkk
    obtain ⟨O', rfl⟩ := Multiset.exists_cons_of_mem href
    have hsolos := solos_le s.owner O' k
    obtain ⟨hrefcount, hlive, halone, hunborn⟩ := h.vm k
    simp [Token.refers, Token.about, Token.solo] at hrefcount hlive halone hunborn
    refine ⟨fun _ => ?_, fun _ => hlive, fun hsolo => ?_, fun hnk => ?_⟩
    · show ((s.putKvm k x).kvm k).refcount = refs s.owner _ k
      simp [Token.refers, hx, hk]
      omega
    · simp [Token.solo] at hsolo
      have := halone hsolo
      omega
    · exact absurd hnk (Nat.not_le.2 hunborn)
  · refine (h.vm k').congr ?_ Iff.rfl ?_ ?_ ?_
    · exact congrArg KvmObj.refcount (Function.update_of_ne (Ne.symm hkk) ..)
    · show refs s.owner _ k' = _
      simp [Token.refers, hk, hkk]
    · show abouts s.owner _ k' = _
      simp [Token.about, hk, hkk]
    · simp [Token.solo]

/-! ### `mini_kvm_put()` -/

theorem putKept (h : RefInv s (.ref k ::ₘ O) nk nv) {x : KvmObj} (hx : x.refcount = (s.kvm k).refcount - 1) :
    RefInv (s.putKvm k x) O nk nv := by
  refine ⟨h.safe, fun k' => ?_, fun v => (h.vcpu v).congr Iff.rfl (by simp [Token.aboutVcpu])⟩
  by_cases hk : k = k'
  · subst hk
    have hsolos := solos_le s.owner O k
    obtain ⟨hrefcount, hlive, halone, hunborn⟩ := h.vm k
    simp [Token.refers, Token.about, Token.solo] at hrefcount hlive halone hunborn
    refine ⟨fun _ => ?_, fun _ => hlive, fun hsolo => ?_, fun hnk => ?_⟩
    · show ((s.putKvm k x).kvm k).refcount = refs s.owner O k
      rw [Kernel.putKvm_kvm, hx, hrefcount]
      omega
    · have := halone hsolo
      omega
    · exact absurd hnk (Nat.not_le.2 hunborn)
  · refine (h.vm k').congr ?_ Iff.rfl ?_ ?_ (by simp [Token.solo])
    · exact congrArg KvmObj.refcount (Function.update_of_ne (Ne.symm hk) ..)
    · show refs s.owner _ k' = _
      simp [Token.refers, hk]
    · show abouts s.owner _ k' = _
      simp [Token.about, hk]

/-- The VM goes with its last reference; nobody may dereference it any more. -/
theorem putLast (h : RefInv s (.ref k ::ₘ O) nk nv) (hcount : (s.kvm k).refcount - 1 = 0) (hinfo : .info k ∉ O)
    (x : KvmObj) {l : List (LedgerEvent Resource)} (hl : OnlyUses (· = .kvm k) l) :
    RefInv ((s.putKvm k x).log (l ++ [.give (.kvm k)])) O nk nv := by
  have hgive : ∀ r : Resource, r.isObject → r ≠ .kvm k →
      (.give r ∈ s.ledger ++ (l ++ [.give (.kvm k)]) ↔ .give r ∈ s.ledger) := by
    intro r hr hne
    simp [(hl r hr).2, hne]
  refine ⟨?_, fun k' => ?_, fun v => (h.vcpu v).congr (hgive _ rfl (by simp)) (by simp [Token.aboutVcpu])⟩
  · show ObjectSafe (s.ledger ++ (l ++ [.give (.kvm k)]))
    rw [← List.append_assoc]
    refine (h.safe.append hl ?_).give _
    rintro r - rfl
    exact h.live_of_mem (Multiset.mem_cons_self ..) (by simp [Token.about])
  by_cases hk : k = k'
  · subst hk
    have hsolos := solos_le s.owner O k
    obtain ⟨hrefcount, hlive, halone, hunborn⟩ := h.vm k
    simp [Token.refers, Token.about, Token.solo] at hrefcount hlive halone hunborn
    refine VmTokens.of_abouts_eq_zero (abouts_eq_zero ?_ ?_ hinfo) fun hnk => ?_
    · show refs s.owner O k = 0
      omega
    · by_contra hsolo
      have := halone hsolo
      omega
    · exact absurd hnk (Nat.not_le.2 hunborn)
  · refine (h.vm k').congr ?_ (hgive _ rfl ?_) ?_ ?_ (by simp [Token.solo])
    · exact congrArg KvmObj.refcount (Function.update_of_ne (Ne.symm hk) ..)
    · simp [Ne.symm hk]
    · show refs s.owner _ k' = _
      simp [Token.refers, hk]
    · show abouts s.owner _ k' = _
      simp [Token.about, hk]

theorem destroyLedger_eq (k : KvmPtr) (x : KvmObj) :
    ∃ l, x.destroyLedger k = l ++ [.give (.kvm k)] ∧ OnlyUses (· = .kvm k) l := by
  have huse : OnlyUses (· = .kvm k) [.use (.kvm k)] := onlyUses_use fun _ => rfl
  have hunpin : OnlyUses (· = .kvm k) x.unpinLedger := by
    unfold KvmObj.unpinLedger
    split
    · refine OnlyUses.append ?_ ((onlyUses_unpins _ _).append ?_)
      · refine onlyUses_map _ _ _ fun a r hr => ⟨fun h => ?_, fun h => (by cases h)⟩
        obtain rfl := LedgerEvent.use.inj h
        cases hr
      · refine onlyUses_map _ _ _ fun a r hr => ⟨fun h => (by cases h), fun h => ?_⟩
        obtain rfl := LedgerEvent.give.inj h
        cases hr
    · exact onlyUses_nil _
  refine ⟨.give (.vm k) :: .use (.kvm k) :: (x.unpinLedger ++
    .use (.kvm k) :: x.pages.map fun page => .give (.page page)), ?_, ?_⟩
  · unfold KvmObj.destroyLedger
    simp
  · exact (onlyUses_give rfl).append (huse.append (hunpin.append (huse.append (onlyUses_pages _ _))))

/-- A reference is dropped; if it is the last one, nobody is about to print the message of the creation. -/
theorem put (h : RefInv s (.ref k ::ₘ O) nk nv) (hcalm : (s.kvm k).refcount = 1 → .info k ∉ O) :
    RefInv ((miniKvmPut k).run s).2 O nk nv := by
  have hlive : ∀ r : Resource, r.isObject → r = .kvm k → .give r ∉ s.ledger := by
    rintro r - rfl
    exact h.live_of_mem (Multiset.mem_cons_self ..) (by simp [Token.about])
  rw [miniKvmPut_run]
  split
  · next hzero =>
    have hone : (s.kvm k).refcount = 1 := by
      have := (h.vm k).refcount
      simp [Token.refers] at this
      omega
    obtain ⟨l, hl, huses⟩ := destroyLedger_eq k (s.kvm k).dropped
    rw [hl]
    have huse : OnlyUses (· = .kvm k) [.use (.kvm k)] := onlyUses_use fun _ => rfl
    exact h.putLast hzero (hcalm hone) _ (huse.append huses)
  · refine (h.putKept rfl).touches (Kernel.touches_log (onlyUses_use (A := (· = .kvm k)) fun _ => rfl) _) ?_
    exact hlive

end RefInv

end MiniVirt.Kvm
