import MiniVirt.Kvm.Spec.References

/-!
# No call uses a freed VM or vCPU

Whatever threads do with the descriptors, every step dereferences live objects only, as long as the last reference
to a VM is not dropped while the thread that created it still has to print its `vm_id`
(`objectSafe_of_calm`).  `mini_kvm_create_vcpu()` has no such window: its caller is in an ioctl on the VM.
-/

namespace MiniVirt.Kvm

/-! ### What the calls hold -/

/-- What a thread at this point holds. -/
def PubPc.held : PubPc → Multiset Token
  | .createVm k _ => {.newKvm k}
  | .vmGetfd k _ => {.own k}
  | .vmInfo k _ => {.info k}
  | .createVcpu _ v _ => {.newVcpu v}
  | .vcpuGet _ v _ | .vcpuTeardown _ v _ _ => {.vcpu v}
  | .vcpuLock _ v _ | .vcpuGetfd _ v _ | .vcpuUnwind _ v _ _ | .releaseLock v _ _ | .releaseUnlock _ v _ _
  | .releaseFree _ v _ _ => {.pub v}
  | .put k => {.ref k}
  | _ => 0

def File.token : File → Token
  | .vm k => .ref k
  | .vcpu v => .pub v

/-- What the files hold. -/
def fileTokens (opened : List File) : Multiset Token := opened.map File.token

/-- The thread knows the VM of its vCPU. -/
def PubPc.Owned (owner : VcpuPtr → KvmPtr) : PubPc → Prop
  | .vcpuGet k v _ | .vcpuLock k v _ | .vcpuGetfd k v _ | .vcpuUnwind k v _ _ | .releaseUnlock k v _ _
  | .releaseFree k v _ _ => owner v = k
  | _ => True

/-! ### The law -/

/-- The VM whose reference the thread drops next; it has no file open on it. -/
def PubPc.putting : PubPc → Option KvmPtr
  | .put k => some k
  | _ => none

/-- The VM whose `vm_id` the thread prints next. -/
def PubPc.printing : PubPc → Option KvmPtr
  | .vmInfo k _ => some k
  | _ => none

/-- The last reference to a VM is not dropped while its creator still has to print the message. -/
def PubOp.Calm (x : PubRun) : PubOp → Prop
  | .step i => ∀ pc ∈ x.pool.threads[i]?, ∀ k ∈ pc.putting, (x.pool.shared.kernel.kvm k).refcount = 1 →
      ∀ t ∈ x.pool.threads, t.printing ≠ some k
  | _ => True

instance decidableCalm (x : PubRun) : (op : PubOp) → Decidable (op.Calm x)
  | .step i => inferInstanceAs (Decidable (∀ pc ∈ x.pool.threads[i]?, _))
  | .createVm _ => .isTrue trivial
  | .createVcpu _ _ => .isTrue trivial
  | .setMemregion _ _ => .isTrue trivial
  | .getSerial _ => .isTrue trivial
  | .vcpuIoctl _ _ => .isTrue trivial
  | .close _ => .isTrue trivial
  | .release _ _ _ => .isTrue trivial
  | .kill _ => .isTrue trivial

/-- The module is loaded, and no call has been made. -/
def PubRun.start (w : Kernel) : PubRun := ⟨⟨⟨w, fun _ => false, []⟩, []⟩, 0, 0⟩

/-! ### The operations -/

section Operations

variable {s : Kernel} {O : Multiset Token} {nk : KvmPtr} {nv : VcpuPtr} {k : KvmPtr} {v : VcpuPtr}

theorem RefInv.touchVm {s' : Kernel} {T : Multiset Token} (h : RefInv s T nk nv) {t : Token} (ht : t ∈ T)
    (hk : t.about s.owner k) (hs : s.Touches (· = .kvm k) s') : RefInv s' T nk nv := by
  refine h.touches hs ?_
  rintro r - rfl
  exact h.live_of_mem ht hk

theorem RefInv.touchVcpu {s' : Kernel} {T : Multiset Token} (h : RefInv s T nk nv) {t : Token} (ht : t ∈ T)
    (hv : t.aboutVcpu v) (hs : s.Touches (· = .vcpu v) s') : RefInv s' T nk nv := by
  refine h.touches hs ?_
  rintro r - rfl
  exact h.vcpuLive_of_mem ht hv

theorem createVmBefore_spec (h : RefInv s (.newKvm k ::ₘ O) nk nv) (pml4 : Option Pfn) :
    let r := ((createVmBefore k pml4).run s).1
    let s' := ((createVmBefore k pml4).run s).2
    RefInv s' (if r ≠ 0 then O else .own k ::ₘ O) nk nv ∧ s'.owner = s.owner ∧ s'.files = s.files := by
  have hborn := h.bornKvm (x := .fresh) rfl
  unfold createVmBefore
  rw [run_bind, take_run, run_bind, modifyKvm_run, run_bind]
  have hinit := Kernel.kvmEptInit_touches (A := (· = .kvm k)) rfl pml4 ((s.putKvm k .fresh).log [.take (.kvm k)])
  rw [Kernel.putKvm_log]
  generalize (kvmEptInit k pml4).run ((s.putKvm k .fresh).log [.take (.kvm k)]) = y at hinit ⊢
  obtain ⟨r, s₁⟩ := y
  have href := hborn.touchVm (Multiset.mem_cons_self ..) (decide_eq_true rfl) hinit
  have howner : s₁.owner = s.owner := funext hinit.owner
  dsimp only
  rw [run_ite]
  by_cases hr : r ≠ 0
  · rw [if_pos hr, run_bind, give_run, run_pure, if_pos hr]
    exact ⟨href.freeKvm, howner, hinit.files⟩
  · rw [if_neg hr, run_pure, if_neg hr]
    exact ⟨href, howner, hinit.files⟩

theorem freeVcpu_spec (h : RefInv s (.vcpu v ::ₘ O) nk nv) :
    RefInv ((freeVcpu v).run s).2 O nk nv ∧ ((freeVcpu v).run s).2.owner = s.owner ∧
      ((freeVcpu v).run s).2.files = s.files := by
  have huses : OnlyUses (· = .vcpu v)
      (.use (.vcpu v) :: (s.vcpu v).runPage.toList.map fun page => .give (.page page)) :=
    OnlyUses.append (l := [_]) (onlyUses_use fun _ => rfl) (onlyUses_pages _ _)
  have htouched := h.touchVcpu (Multiset.mem_cons_self ..) (decide_eq_true rfl) (Kernel.touches_log huses s)
  rw [freeVcpu_run]
  refine ⟨?_, rfl, rfl⟩
  have hfree := htouched.freeVcpu
  rw [Kernel.log_log] at hfree
  exact hfree

theorem removeVcpu_ref (h : RefInv s (.vcpu v ::ₘ O) nk nv) (cpu : CpuId) (ok : Bool) :
    let s' := ((do
      vcpuVmxTeardown v cpu ok
      freeVcpu v : K Unit).run s).2
    RefInv s' O nk nv ∧ s'.owner = s.owner ∧ s'.files = s.files := by
  have hteardown := Kernel.vcpuVmxTeardown_touches (A := (· = .vcpu v)) rfl cpu ok s
  rw [run_bind]
  generalize (vcpuVmxTeardown v cpu ok).run s = y at hteardown ⊢
  obtain ⟨_, s₁⟩ := y
  obtain ⟨href, howner, hfiles⟩ :=
      freeVcpu_spec (h.touchVcpu (Multiset.mem_cons_self ..) (decide_eq_true rfl) hteardown)
  exact ⟨href, howner.trans (funext hteardown.owner), hfiles.trans hteardown.files⟩

theorem owner_putVcpu (v : VcpuPtr) (x : VcpuObj) {v' : VcpuPtr} (hv : v' ≠ v) :
    (s.putVcpu v x).owner v' = s.owner v' := congrArg VcpuObj.kvm (Function.update_of_ne hv ..)

/-- The end of the part before `mini_kvm_get()`. -/
theorem createVcpuSetup_spec (h : RefInv s (.vcpu v ::ₘ O) nk nv) (hk : .ref (s.owner v) ∈ O) (cpu : CpuId)
    (o : SetupCall) :
    let y := (do
      let r ← vcpuVmxSetup v cpu o
      if r ≠ 0 then
        freeVcpu v
      return r : K Int).run s
    RefInv y.2 (if y.1 ≠ 0 then O else .vcpu v ::ₘ O) nk nv ∧ y.2.owner = s.owner ∧ y.2.files = s.files := by
  have hsetup := Kernel.vcpuVmxSetup_touches (A := fun r => r = .vcpu v ∨ r = .kvm (s.owner v)) (.inl rfl) (.inr rfl)
    cpu o
  rw [run_bind]
  generalize (vcpuVmxSetup v cpu o).run s = y at hsetup ⊢
  obtain ⟨r, s₁⟩ := y
  have href : RefInv s₁ (.vcpu v ::ₘ O) nk nv := by
    refine h.touches hsetup ?_
    rintro r - (rfl | rfl)
    · exact h.vcpuLive_of_mem (Multiset.mem_cons_self ..) (decide_eq_true rfl)
    · exact h.live_of_mem (Multiset.mem_cons_of_mem hk) (decide_eq_true rfl)
  have howner : s₁.owner = s.owner := funext hsetup.owner
  dsimp only
  rw [run_ite]
  by_cases hr : r ≠ 0
  · obtain ⟨hfree, howner', hfiles'⟩ := freeVcpu_spec href
    rw [if_pos hr, run_bind, run_pure, if_pos hr]
    exact ⟨hfree, howner'.trans howner, hfiles'.trans hsetup.files⟩
  · rw [if_neg hr, run_pure, if_neg hr]
    exact ⟨href, howner, hsetup.files⟩

/-- The part of the creation that only the caller knows of. -/
theorem createVcpuBefore_spec (h : RefInv s (.newVcpu v ::ₘ O) nk nv) (hk : .ref k ∈ O) (o : CreateVcpuCall) :
    let r := ((createVcpuBefore k v o).run s).1
    let s' := ((createVcpuBefore k v o).run s).2
    RefInv s' (if r ≠ 0 then O else .vcpu v ::ₘ O) nk nv ∧ (r = 0 → s'.owner v = k) ∧
      (∀ v', v' ≠ v → s'.owner v' = s.owner v') ∧ s'.files = s.files := by
  -- a call that is refused before the object is there
  have hrefused : ∀ (l : List (LedgerEvent Resource)) (r : Int), r ≠ 0 → RefInv (s.log l) (.newVcpu v ::ₘ O) nk nv →
      RefInv (s.log l) (if r ≠ 0 then O else .vcpu v ::ₘ O) nk nv ∧ (r = 0 → (s.log l).owner v = k) ∧
        (∀ v', v' ≠ v → (s.log l).owner v' = s.owner v') ∧ (s.log l).files = s.files := by
    intro l r hr href
    rw [if_pos hr]
    exact ⟨href.drop fun k => rfl, fun h => absurd h hr, fun _ _ => rfl, rfl⟩
  have htouch := h.touchVm (Multiset.mem_cons_of_mem hk) (decide_eq_true rfl)
    (Kernel.touches_log (onlyUses_use (A := (· = .kvm k)) fun _ => rfl) s)
  unfold createVcpuBefore
  rw [run_ite]
  by_cases hid : o.id ≠ 0
  · rw [if_pos hid, run_pure]
    have hnil := hrefused [] (-einval) (by decide)
    rw [s.log_nil] at hnil
    exact hnil h
  rw [if_neg hid, run_bind, touch_run, run_bind, run_get, run_ite]
  split
  · exact hrefused _ (-einval) (by decide) htouch
  rw [run_ite]
  split
  · exact hrefused _ (-enomem) (by decide) htouch
  rw [run_bind, take_run, run_bind, modifyVcpuObj_run]
  have hborn : ∀ page, RefInv ((s.putVcpu v ⟨.fresh, k, page⟩).log [.use (.kvm k), .take (.vcpu v)])
      (.vcpu v ::ₘ O) nk nv := by
    intro page
    have h' := htouch.bornVcpu (x := ⟨.fresh, k, page⟩) rfl
    rw [Kernel.putVcpu_log, Kernel.log_log] at h'
    exact h'
  rw [Kernel.log_log]
  cases hpage : o.runPage with
  | none =>
    have henomem : -enomem ≠ 0 := by decide
    dsimp only
    rw [run_bind, give_run, run_pure, if_pos henomem]
    exact ⟨(hborn none).freeVcpu, fun h => absurd h henomem, fun v' hv => owner_putVcpu v _ hv, rfl⟩
  | some page =>
    dsimp only
    rw [run_bind, take_run, run_bind, modifyVcpuObj_run]
    have hborn' := (hborn (some page)).touches
      (Kernel.touches_log (onlyUses_take (fun _ => False) (.page page)) _) fun _ _ h => h.elim
    have howner : (((s.putVcpu v ⟨.fresh, k, some page⟩).log [.use (.kvm k), .take (.vcpu v)]).log
        [.take (.page page)]).owner v = k := congrArg VcpuObj.kvm (Kernel.putVcpu_vcpu ..)
    have hsetup := createVcpuSetup_spec hborn' (by rw [howner]; exact hk) o.cpu o.setup
    simp only [Kernel.putVcpu_log, Kernel.putVcpu_putVcpu, Kernel.log_vcpu, Kernel.putVcpu_vcpu] at hsetup ⊢
    obtain ⟨href, howner', hfiles⟩ := hsetup
    refine ⟨href, fun _ => ?_, fun v' hv => ?_, hfiles⟩
    · exact (congrFun howner' v).trans howner
    · exact (congrFun howner' v').trans (owner_putVcpu v _ hv)

end Operations

/-! ### One step of a thread -/

theorem onKernel_run {α : Type} (m : K α) (S : Shared) :
    (onKernel m).run S = ((m.run S.kernel).1, { S with kernel := (m.run S.kernel).2 }) := rfl

theorem mutexLock_run (r : Resource) (S : Shared) :
    (mutexLock r).run S =
      (!S.locked r, ⟨S.kernel.log [.use r], Function.update S.locked r true, S.opened⟩) := by
  unfold mutexLock
  rw [run_bind, onKernel_run, run_bind, run_get, run_ite, touch_run]
  dsimp only
  by_cases hlocked : S.locked r = true
  · rw [if_pos hlocked, run_pure, hlocked]
    refine Prod.ext rfl (congrArg (fun l => Shared.mk _ l _) ?_)
    rw [← hlocked, Function.update_eq_self]
  · rw [if_neg hlocked, Bool.not_eq_true] at *
    rw [hlocked]
    rfl

theorem mutexUnlock_run (r : Resource) (S : Shared) :
    (mutexUnlock r).run S = ((), ⟨S.kernel.log [.use r], Function.update S.locked r false, S.opened⟩) := rfl

theorem installFile_run (fd : Fd) (f : File) (S : Shared) :
    (installFile fd f).run S =
      ((), ⟨{ S.kernel with files := (fd, f) :: S.kernel.files }, S.locked, f :: S.opened⟩) := rfl

/-- Before a step of a thread at `pc`, when the other threads hold `O`. -/
structure PubBefore (pc : PubPc) (S : Shared) (O : Multiset Token) (nk : KvmPtr) (nv : VcpuPtr) : Prop where
  ref : RefInv S.kernel (pc.held + (fileTokens S.opened + O)) nk nv
  owned : pc.Owned S.kernel.owner
  file : ∀ f, pc.file = some f → f ∈ S.opened
  calm : ∀ k, pc = .put k → (S.kernel.kvm k).refcount = 1 → .info k ∉ O

/-- After it, the thread being at `pc'`. -/
structure PubAfter (pc pc' : PubPc) (S S' : Shared) (O : Multiset Token) (nk : KvmPtr) (nv : VcpuPtr) : Prop where
  ref : RefInv S'.kernel (pc'.held + (fileTokens S'.opened + O)) nk nv
  owned : pc'.Owned S'.kernel.owner
  owner : ∀ v, .newVcpu v ∉ pc.held → S'.kernel.owner v = S.kernel.owner v
  file : ∀ f, pc'.file = some f → pc.file = some f
  opened : S.opened ⊆ S'.opened
  files : ∀ f ∈ S'.kernel.files.map Prod.snd, f ∈ S.kernel.files.map Prod.snd ∨ f ∈ S'.opened

section Step

variable {pc pc' : PubPc} {S S' : Shared} {O : Multiset Token} {nk : KvmPtr} {nv : VcpuPtr} {k : KvmPtr} {v : VcpuPtr}

/-- A step that installs no file and makes no vCPU. -/
theorem PubAfter.mk_of_kernel {kernel : Kernel} {locked : Resource → Bool}
    (href : RefInv kernel (pc'.held + (fileTokens S.opened + O)) nk nv) (howner : kernel.owner = S.kernel.owner)
    (hfiles : kernel.files = S.kernel.files) (howned : pc'.Owned S.kernel.owner)
    (hfile : ∀ f, pc'.file = some f → pc.file = some f) : PubAfter pc pc' S ⟨kernel, locked, S.opened⟩ O nk nv := by
  refine ⟨href, ?_, fun v _ => congrFun howner v, hfile, fun f hf => hf, fun f hf => .inl ?_⟩
  · rw [howner]
    exact howned
  · rw [← hfiles]
    exact hf

/-- The last step of a call. -/
theorem PubAfter.mk_returned {kernel : Kernel} {locked : Resource → Bool} {r : Int}
    (href : RefInv kernel (fileTokens S.opened + O) nk nv) (howner : kernel.owner = S.kernel.owner)
    (hfiles : kernel.files = S.kernel.files) : PubAfter pc (.returned r) S ⟨kernel, locked, S.opened⟩ O nk nv := by
  refine .mk_of_kernel ?_ howner hfiles trivial fun f hf => (by cases hf)
  show RefInv kernel (0 + (fileTokens S.opened + O)) nk nv
  rw [zero_add]
  exact href

/-- A step that only dereferences objects that the thread may dereference. -/
theorem PubAfter.mk_of_touches {kernel : Kernel} {locked : Resource → Bool} {A : Resource → Prop}
    (h : PubBefore pc S O nk nv) (ht : S.kernel.Touches A kernel)
    (hA : ∀ r, r.isObject → A r → .give r ∉ S.kernel.ledger) (hheld : pc'.held = pc.held)
    (howned : pc'.Owned S.kernel.owner) (hfile : ∀ f, pc'.file = some f → pc.file = some f) :
    PubAfter pc pc' S ⟨kernel, locked, S.opened⟩ O nk nv := by
  refine .mk_of_kernel ?_ (funext ht.owner) ht.files howned hfile
  rw [hheld]
  exact h.ref.touches ht hA

/-- An open VM has not been freed. -/
theorem PubBefore.live_of_vm (h : PubBefore pc S O nk nv) (hfile : pc.file = some (.vm k)) :
    ∀ r : Resource, r.isObject → r = .kvm k → .give r ∉ S.kernel.ledger := by
  rintro r - rfl
  refine h.ref.live_of_mem (t := .ref k) (Multiset.mem_add.2 (.inr (Multiset.mem_add.2 (.inl ?_)))) (decide_eq_true rfl)
  exact Multiset.mem_coe.2 (List.mem_map_of_mem (h.file _ hfile))

theorem PubBefore.live_of_vcpu (h : PubBefore pc S O nk nv) (hv : .pub v ∈ pc.held + (fileTokens S.opened + O)) :
    ∀ r : Resource, r.isObject → (r = .vcpu v ∨ r = .kvm (S.kernel.owner v)) → .give r ∉ S.kernel.ledger := by
  rintro r - (rfl | rfl)
  · exact h.ref.vcpuLive_of_mem hv (decide_eq_true rfl)
  · exact h.ref.live_of_mem hv (decide_eq_true rfl)

theorem PubBefore.mem_vcpu (h : PubBefore pc S O nk nv) (hfile : pc.file = some (.vcpu v)) :
    .pub v ∈ pc.held + (fileTokens S.opened + O) := by
  refine Multiset.mem_add.2 (.inr (Multiset.mem_add.2 (.inl ?_)))
  exact Multiset.mem_coe.2 (List.mem_map_of_mem (h.file _ hfile))

theorem createVm_step {o : CreateVmCall} (h : PubBefore (.createVm k o) S O nk nv) :
    PubAfter (.createVm k o) ((pubStep (.createVm k o)).run S).1 S ((pubStep (.createVm k o)).run S).2 O nk nv := by
  unfold pubStep
  rw [run_ite]
  by_cases hkvm : o.kvm.isNone = true
  · rw [if_pos hkvm, run_pure]
    exact .mk_returned (h.ref.drop (t := .newKvm k) fun k => rfl) rfl rfl
  obtain ⟨href, howner, hfiles⟩ := createVmBefore_spec h.ref o.pml4
  rw [if_neg hkvm, run_bind, onKernel_run, run_pure]
  dsimp only
  by_cases hr : ((createVmBefore k o.pml4).run S.kernel).1 ≠ 0
  · rw [if_pos hr] at href ⊢
    exact .mk_returned href howner hfiles
  · rw [if_neg hr] at href ⊢
    exact .mk_of_kernel href howner hfiles trivial fun f hf => (by cases hf)

theorem vmGetfd_step {fd : Except Int Fd} (h : PubBefore (.vmGetfd k fd) S O nk nv) :
    PubAfter (.vmGetfd k fd) ((pubStep (.vmGetfd k fd)).run S).1 S ((pubStep (.vmGetfd k fd)).run S).2 O nk nv := by
  have hown : Token.own k ∈ PubPc.held (.vmGetfd k fd) + (fileTokens S.opened + O) :=
    Multiset.mem_add.2 (.inl (Multiset.mem_singleton_self _))
  cases fd with
  | error r =>
    have htouches := Kernel.kvmEptDestroy_touches (A := (· = .kvm k)) rfl S.kernel
    have href := (h.ref.touchVm hown (decide_eq_true rfl) htouches).freeKvm
    unfold pubStep
    rw [run_bind, onKernel_run, run_bind, run_pure, give_run]
    exact .mk_returned href (funext htouches.owner) htouches.files
  | ok fd =>
    have href := RefInv.publishVm h.ref
    unfold pubStep
    rw [run_bind, installFile_run, run_pure]
    refine ⟨?_, trivial, fun _ _ => rfl, fun f hf => (by cases hf), fun f hf => .tail _ hf, fun f hf => ?_⟩
    · show RefInv _ ({.info k} + (fileTokens (.vm k :: S.opened) + O)) nk nv
      rw [fileTokens, List.map_cons, ← Multiset.cons_coe, Multiset.cons_add, Multiset.singleton_add,
        Multiset.cons_swap]
      exact href.files _
    · rcases List.mem_cons.1 hf with rfl | hf
      · exact .inr List.mem_cons_self
      · exact .inl hf

theorem vmInfo_step {fd : Fd} (h : PubBefore (.vmInfo k fd) S O nk nv) :
    PubAfter (.vmInfo k fd) ((pubStep (.vmInfo k fd)).run S).1 S ((pubStep (.vmInfo k fd)).run S).2 O nk nv := by
  have hinfo : Token.info k ∈ PubPc.held (.vmInfo k fd) + (fileTokens S.opened + O) :=
    Multiset.mem_add.2 (.inl (Multiset.mem_singleton_self _))
  have htouches := Kernel.touch_touches (A := (· = .kvm k)) (fun _ => rfl) S.kernel
  have href := (h.ref.touchVm hinfo (decide_eq_true rfl) htouches).drop (t := .info k) fun k => rfl
  unfold pubStep
  rw [run_bind, onKernel_run, run_pure]
  exact .mk_returned href rfl rfl

theorem createVcpu_step {o : CreateVcpuCall} (h : PubBefore (.createVcpu k v o) S O nk nv) :
    PubAfter (.createVcpu k v o) ((pubStep (.createVcpu k v o)).run S).1 S
      ((pubStep (.createVcpu k v o)).run S).2 O nk nv := by
  have hk : Token.ref k ∈ fileTokens S.opened + O :=
    Multiset.mem_add.2 (.inl (Multiset.mem_coe.2 (List.mem_map_of_mem (h.file (.vm k) rfl))))
  obtain ⟨href, howned, howner, hfiles⟩ := createVcpuBefore_spec h.ref hk o
  have hothers : ∀ v', .newVcpu v' ∉ PubPc.held (.createVcpu k v o) →
      ((createVcpuBefore k v o).run S.kernel).2.owner v' = S.kernel.owner v' := by
    intro v' hv'
    refine howner v' fun hvv => hv' ?_
    rw [hvv]
    exact Multiset.mem_singleton_self _
  have hfiles' : ∀ f ∈ ((createVcpuBefore k v o).run S.kernel).2.files.map Prod.snd,
      f ∈ S.kernel.files.map Prod.snd ∨ f ∈ S.opened := by
    intro f hf
    rw [hfiles] at hf
    exact .inl hf
  unfold pubStep
  rw [run_bind, onKernel_run, run_pure]
  dsimp only
  by_cases hr : ((createVcpuBefore k v o).run S.kernel).1 ≠ 0
  · rw [if_pos hr] at href ⊢
    refine ⟨?_, trivial, hothers, fun f hf => (by cases hf), fun f hf => hf, hfiles'⟩
    show RefInv _ (0 + (fileTokens S.opened + O)) nk nv
    rw [zero_add]
    exact href
  · rw [if_neg hr] at href ⊢
    exact ⟨href, howned (not_not.1 hr), hothers, fun f hf => hf, fun f hf => hf, hfiles'⟩

theorem touches_use (k : KvmPtr) (s : Kernel) : s.Touches (· = .kvm k) (s.log [.use (.kvm k)]) :=
  Kernel.touches_log (onlyUses_use (A := (· = .kvm k)) fun _ => rfl) s

/-- What a step does to `vcpu` of the VM. -/
theorem touches_use_putKvm (k : KvmPtr) (s : Kernel) (x : Option VcpuPtr) :
    s.Touches (· = .kvm k) ((s.log [.use (.kvm k)]).putKvm k { (s.log [.use (.kvm k)]).kvm k with vcpu := x }) :=
  (touches_use k s).trans (Kernel.touches_putKvm _ rfl)

/-- The reference of the file that the thread is in an ioctl on. -/
theorem PubBefore.mem_vm (h : PubBefore pc S O nk nv) (hfile : pc.file = some (.vm k)) :
    .ref k ∈ fileTokens S.opened + O :=
  Multiset.mem_add.2 (.inl (Multiset.mem_coe.2 (List.mem_map_of_mem (h.file _ hfile))))

theorem vcpuGet_step {o : CreateVcpuCall} (h : PubBefore (.vcpuGet k v o) S O nk nv) :
    PubAfter (.vcpuGet k v o) ((pubStep (.vcpuGet k v o)).run S).1 S ((pubStep (.vcpuGet k v o)).run S).2 O nk nv := by
  have hk := h.mem_vm rfl
  have hadded := RefInv.addRef h.ref h.owned hk
    (x := { S.kernel.kvm k with refcount := (S.kernel.kvm k).refcount + 1 }) rfl
  unfold pubStep
  rw [run_bind, onKernel_run, run_pure, miniKvmGet_run]
  refine .mk_of_kernel ?_ rfl rfl h.owned fun f hf => hf
  exact RefInv.touchVm hadded (Multiset.mem_cons_of_mem hk) (decide_eq_true rfl) (touches_use k _)

theorem vcpuLock_step {o : CreateVcpuCall} (h : PubBefore (.vcpuLock k v o) S O nk nv) :
    PubAfter (.vcpuLock k v o) ((pubStep (.vcpuLock k v o)).run S).1 S
      ((pubStep (.vcpuLock k v o)).run S).2 O nk nv := by
  have hlive := h.live_of_vm rfl
  unfold pubStep
  rw [run_bind, mutexLock_run, run_ite]
  split
  · exact .mk_of_touches h (touches_use k S.kernel) hlive rfl h.owned fun f hf => hf
  rw [run_bind, run_get, run_ite]
  split
  · exact .mk_of_touches h (touches_use k S.kernel) hlive rfl h.owned fun f hf => hf
  · rw [run_bind, onKernel_run, modifyKvm_run]
    exact .mk_of_touches h (touches_use_putKvm k S.kernel (some v)) hlive rfl h.owned fun f hf => hf

theorem vcpuGetfd_step {o : CreateVcpuCall} (h : PubBefore (.vcpuGetfd k v o) S O nk nv) :
    PubAfter (.vcpuGetfd k v o) ((pubStep (.vcpuGetfd k v o)).run S).1 S
      ((pubStep (.vcpuGetfd k v o)).run S).2 O nk nv := by
  unfold pubStep
  dsimp only
  cases hfd : o.fd with
  | error r =>
    dsimp only
    rw [run_bind, onKernel_run, run_bind, touch_run, modifyKvm_run]
    exact .mk_of_touches h (touches_use_putKvm k S.kernel none) (h.live_of_vm rfl) rfl h.owned fun f hf => hf
  | ok fd =>
    have href := h.ref.files ((fd, .vcpu v) :: S.kernel.files)
    dsimp only
    rw [run_bind, installFile_run, run_pure]
    refine ⟨?_, trivial, fun _ _ => rfl, fun f hf => hf, fun f hf => .tail _ hf, fun f hf => ?_⟩
    · show RefInv _ (0 + (fileTokens (.vcpu v :: S.opened) + O)) nk nv
      rw [fileTokens, List.map_cons, ← Multiset.cons_coe, Multiset.cons_add, zero_add]
      exact href
    · rcases List.mem_cons.1 hf with rfl | hf
      · exact .inr List.mem_cons_self
      · exact .inl hf

theorem miniKvmPut_frame (k : KvmPtr) (s : Kernel) :
    ((miniKvmPut k).run s).2.owner = s.owner ∧ ((miniKvmPut k).run s).2.files = s.files := by
  rw [miniKvmPut_run]
  split
  · exact ⟨rfl, rfl⟩
  · exact ⟨rfl, rfl⟩

/-- The file of the caller keeps the VM when the creation gives its reference back. -/
theorem vcpuUnwind_step {o : CreateVcpuCall} {r : Int} (h : PubBefore (.vcpuUnwind k v o r) S O nk nv) :
    PubAfter (.vcpuUnwind k v o r) ((pubStep (.vcpuUnwind k v o r)).run S).1 S
      ((pubStep (.vcpuUnwind k v o r)).run S).2 O nk nv := by
  have hk := h.mem_vm rfl
  have htouched := h.ref.touches (touches_use k S.kernel) (h.live_of_vm rfl)
  have hsplit := RefInv.split htouched h.owned
  rw [Multiset.cons_swap] at hsplit
  have hput := hsplit.put fun hone => absurd hone ?_
  · obtain ⟨howner, hfiles⟩ := miniKvmPut_frame k (S.kernel.log [.use (.kvm k)])
    unfold pubStep
    rw [run_bind, mutexUnlock_run, run_bind, onKernel_run, run_pure]
    exact .mk_of_kernel hput howner hfiles trivial fun f hf => hf
  · have hcount := (hsplit.vm k).refcount
    have hpos := @Tokens.refs_pos (S.kernel.log [.use (.kvm k)]).owner _ k _ hk (decide_eq_true rfl)
    simp [Token.refers] at hcount
    rw [Kernel.log_kvm, hcount]
    omega

theorem vcpuTeardown_step {o : CreateVcpuCall} {r : Int} (h : PubBefore (.vcpuTeardown k v o r) S O nk nv) :
    PubAfter (.vcpuTeardown k v o r) ((pubStep (.vcpuTeardown k v o r)).run S).1 S
      ((pubStep (.vcpuTeardown k v o r)).run S).2 O nk nv := by
  obtain ⟨href, howner, hfiles⟩ := removeVcpu_ref h.ref o.cpu o.teardownOk
  unfold pubStep
  rw [run_bind, onKernel_run, run_pure]
  exact .mk_returned href howner hfiles

theorem releaseFree_step {cpu : CpuId} {ok : Bool} (h : PubBefore (.releaseFree k v cpu ok) S O nk nv) :
    PubAfter (.releaseFree k v cpu ok) ((pubStep (.releaseFree k v cpu ok)).run S).1 S
      ((pubStep (.releaseFree k v cpu ok)).run S).2 O nk nv := by
  obtain ⟨href, howner, hfiles⟩ := removeVcpu_ref (RefInv.split h.ref h.owned) cpu ok
  unfold pubStep
  rw [run_bind, onKernel_run, run_pure]
  exact .mk_of_kernel href howner hfiles trivial fun f hf => (by cases hf)

theorem releaseLock_step {cpu : CpuId} {ok : Bool} (h : PubBefore (.releaseLock v cpu ok) S O nk nv) :
    PubAfter (.releaseLock v cpu ok) ((pubStep (.releaseLock v cpu ok)).run S).1 S
      ((pubStep (.releaseLock v cpu ok)).run S).2 O nk nv := by
  have hv : Token.pub v ∈ PubPc.held (.releaseLock v cpu ok) + (fileTokens S.opened + O) :=
    Multiset.mem_add.2 (.inl (Multiset.mem_singleton_self _))
  have hlive := h.live_of_vcpu hv
  have htouch : S.kernel.Touches (fun r => r = .vcpu v ∨ r = .kvm (S.kernel.owner v))
      ((S.kernel.log [.use (.vcpu v)]).log [.use (.kvm (S.kernel.owner v))]) :=
    (Kernel.touches_log (onlyUses_use fun _ => .inl rfl) _).trans
      (Kernel.touches_log (onlyUses_use fun _ => .inr rfl) _)
  unfold pubStep
  rw [run_bind, onKernel_run, touch_run, run_bind, run_get]
  dsimp only
  rw [run_bind, mutexLock_run, run_ite]
  split
  · exact .mk_of_touches h htouch hlive rfl trivial fun f hf => (by cases hf)
  · rw [run_bind, onKernel_run, modifyKvm_run]
    refine .mk_of_touches h (htouch.trans (Kernel.touches_putKvm _ ?_)) hlive rfl rfl fun f hf => (by cases hf)
    split <;> rfl

theorem put_step (h : PubBefore (.put k) S O nk nv) :
    PubAfter (.put k) ((pubStep (.put k)).run S).1 S ((pubStep (.put k)).run S).2 O nk nv := by
  have hput := RefInv.put h.ref
  unfold pubStep
  rw [run_bind, onKernel_run, run_pure]
  obtain ⟨howner, hfiles⟩ := miniKvmPut_frame k S.kernel
  refine .mk_returned (hput fun hone hinfo => ?_) howner hfiles
  rcases Multiset.mem_add.1 hinfo with hinfo | hinfo
  · obtain ⟨f, -, hf⟩ := List.mem_map.1 (Multiset.mem_coe.1 hinfo)
    cases f <;> cases hf
  · exact h.calm k rfl hone hinfo

/-- Every step keeps the tokens and the objects in agreement. -/
theorem pubStep_spec (h : PubBefore pc S O nk nv) :
    PubAfter pc ((pubStep pc).run S).1 S ((pubStep pc).run S).2 O nk nv := by
  cases pc with
  | createVm k o => exact createVm_step h
  | vmGetfd k fd => exact vmGetfd_step h
  | vmInfo k fd => exact vmInfo_step h
  | createVcpu k v o => exact createVcpu_step h
  | vcpuGet k v o => exact vcpuGet_step h
  | vcpuLock k v o => exact vcpuLock_step h
  | vcpuGetfd k v o => exact vcpuGetfd_step h
  | vcpuUnlock k fd =>
    exact .mk_of_touches h (touches_use k S.kernel) (h.live_of_vm rfl) rfl trivial fun f hf => (by cases hf)
  | vcpuUnwind k v o r => exact vcpuUnwind_step h
  | vcpuTeardown k v o r => exact vcpuTeardown_step h
  | memregion k o pc =>
    -- the steps of the call use the VM only, which its file keeps
    have htouches := Kernel.memregionPc_touches (A := (· = .kvm k)) rfl o pc S.kernel
    unfold pubStep
    rw [run_bind, onKernel_run]
    dsimp only
    split
    · exact .mk_of_touches h htouches (h.live_of_vm rfl) rfl trivial fun f hf => (by cases hf)
    · exact .mk_of_touches h htouches (h.live_of_vm rfl) rfl trivial fun f hf => hf
  | serialLock k =>
    unfold pubStep
    rw [run_bind, mutexLock_run, run_pure]
    dsimp only
    split
    · exact .mk_of_touches h (touches_use k S.kernel) (h.live_of_vm rfl) rfl trivial fun f hf => hf
    · exact .mk_of_touches h (touches_use k S.kernel) (h.live_of_vm rfl) rfl trivial fun f hf => hf
  | serialCopy k =>
    exact .mk_of_touches h ((touches_use k S.kernel).trans (touches_use k _)) (h.live_of_vm rfl) rfl trivial
      fun f hf => (by cases hf)
  | ioctlLock v body =>
    have htouch : S.kernel.Touches (fun r => r = .vcpu v ∨ r = .kvm (S.kernel.owner v))
      (S.kernel.log [.use (.vcpu v)]) := Kernel.touches_log (onlyUses_use fun _ => .inl rfl) _
    have hlive := h.live_of_vcpu (h.mem_vcpu rfl)
    unfold pubStep
    rw [run_bind, mutexLock_run, run_pure]
    dsimp only
    split
    · exact .mk_of_touches h htouch hlive rfl trivial fun f hf => hf
    · exact .mk_of_touches h htouch hlive rfl trivial fun f hf => hf
  | ioctlBody v body =>
    exact .mk_of_touches h (Kernel.ioctl_touches (.inl rfl) (.inr rfl) body)
      (h.live_of_vcpu (h.mem_vcpu rfl)) rfl trivial
      fun f hf => hf
  | ioctlUnlock v =>
    have htouch : S.kernel.Touches (fun r => r = .vcpu v ∨ r = .kvm (S.kernel.owner v))
      (S.kernel.log [.use (.vcpu v)]) := Kernel.touches_log (onlyUses_use fun _ => .inl rfl) _
    exact .mk_of_touches h htouch (h.live_of_vcpu (h.mem_vcpu rfl)) rfl trivial fun f hf => (by cases hf)
  | put k => exact put_step h
  | releaseLock v cpu ok => exact releaseLock_step h
  | releaseUnlock k v cpu ok =>
    have hv : Token.pub v ∈ PubPc.held (.releaseUnlock k v cpu ok) + (fileTokens S.opened + O) :=
      Multiset.mem_add.2 (.inl (Multiset.mem_singleton_self _))
    refine .mk_of_touches h (touches_use k S.kernel) ?_ rfl h.owned fun f hf => (by cases hf)
    rintro r hr rfl
    exact h.live_of_vcpu hv _ hr (.inr (congrArg Resource.kvm h.owned.symm))
  | releaseFree k v cpu ok => exact releaseFree_step h
  | returned r => exact .mk_of_touches h (.refl (fun _ => False) _) (fun _ _ h => h.elim) rfl trivial fun f hf => hf

end Step

/-! ### Runs -/

/-- What holds between the steps of the threads. -/
structure PubInv (x : PubRun) : Prop where
  ref : RefInv x.pool.shared.kernel (Pool.heldBy PubPc.held x.pool.threads + fileTokens x.pool.shared.opened)
    x.nextKvm x.nextVcpu
  owned : ∀ pc ∈ x.pool.threads, pc.Owned x.pool.shared.kernel.owner
  inUse : ∀ pc ∈ x.pool.threads, ∀ f, pc.file = some f → f ∈ x.pool.shared.opened
  files : ∀ f ∈ x.pool.shared.kernel.files.map Prod.snd, f ∈ x.pool.shared.opened

/-- A thread that knows the VM of its vCPU has a token about the vCPU. -/
theorem PubPc.Owned.congr {pc : PubPc} {owner owner' : VcpuPtr → KvmPtr} (h : pc.Owned owner)
    (howner : ∀ v, ∀ t ∈ pc.held, t.aboutVcpu v → owner' v = owner v) : pc.Owned owner' := by
  cases pc <;> first
    | trivial
    | exact (howner _ _ (Multiset.mem_singleton_self _) (decide_eq_true rfl)).trans h

namespace PubInv

variable {x : PubRun}

theorem start {w : Kernel} (hfiles : w.files = []) (hledger : w.ledger = []) : PubInv (.start w) := by
  have hnone : ∀ r : Resource, .give r ∉ w.ledger := fun r => by
    rw [hledger]
    exact List.not_mem_nil
  refine ⟨⟨?_, fun k => .of_abouts_eq_zero rfl fun _ => hnone _, fun v => ?_⟩, fun pc h => absurd h List.not_mem_nil,
    fun pc h => absurd h List.not_mem_nil, fun f hf => ?_⟩
  · show ObjectSafe w.ledger
    rw [hledger]
    exact List.Pairwise.nil
  · exact ⟨Nat.zero_le _, fun _ => hnone _, fun _ => ⟨rfl, hnone _⟩⟩
  · have hf : f ∈ w.files.map Prod.snd := hf
    rw [hfiles] at hf
    exact absurd hf List.not_mem_nil

/-- A call starts. -/
theorem spawn (h : PubInv x) {pc : PubPc} {nk : KvmPtr} {nv : VcpuPtr} (howned : ∀ owner, pc.Owned owner)
    (hfile : ∀ f, pc.file = some f → f ∈ x.pool.shared.opened)
    (href : RefInv x.pool.shared.kernel
      (pc.held + (Pool.heldBy PubPc.held x.pool.threads + fileTokens x.pool.shared.opened)) nk nv) :
    PubInv { x.spawn pc with nextKvm := nk, nextVcpu := nv } := by
  constructor
  · show RefInv _ (Pool.heldBy PubPc.held (x.pool.threads ++ [pc]) + _) nk nv
    rw [Pool.heldBy_append_singleton, add_comm (Pool.heldBy ..), add_assoc]
    exact href
  · intro u hu
    rcases List.mem_append.1 hu with hu | hu
    · exact h.owned u hu
    · obtain rfl := List.mem_singleton.1 hu
      exact howned _
  · intro u hu
    rcases List.mem_append.1 hu with hu | hu
    · exact h.inUse u hu
    · obtain rfl := List.mem_singleton.1 hu
      exact hfile
  · exact h.files

/-- A descriptor leads to an open file. -/
theorem mem_opened (h : PubInv x) {fd : Fd} {f : File} (hfd : x.file fd = some f) : f ∈ x.pool.shared.opened := by
  exact h.files f (List.mem_map_of_mem (mem_files_of_lookup hfd))

/-- A thread's step. -/
theorem exec (h : PubInv x) (i : Nat) (hcalm : PubOp.Calm x (.step i)) :
    PubInv { x with pool := x.pool.exec pubStep i } := by
  cases hpc : x.pool.threads[i]? with
  | none =>
    rw [Pool.exec_none hpc]
    exact h
  | some pc =>
    have hmem : pc ∈ x.pool.threads := List.mem_of_getElem? hpc
    have hheld := Pool.heldBy_eq_add PubPc.held hpc
    have hbefore : PubBefore pc x.pool.shared (Pool.heldBy PubPc.held (x.pool.threads.eraseIdx i)) x.nextKvm
        x.nextVcpu := by
      refine ⟨?_, h.owned pc hmem, h.inUse pc hmem, fun k hk hone hinfo => ?_⟩
      · have href := h.ref
        rw [hheld, add_assoc, add_comm (Pool.heldBy ..)] at href
        exact href
      · obtain ⟨t, ht, hinfo⟩ := (Pool.mem_heldBy PubPc.held).1 hinfo
        refine hcalm pc hpc k ?_ hone t (List.mem_of_mem_eraseIdx ht) ?_
        · rw [hk]
          rfl
        · cases t <;> simp_all [PubPc.held, PubPc.printing]
    obtain ⟨href, howned, howner, hfile, hopened, hfiles⟩ := pubStep_spec hbefore
    rw [Pool.exec_some hpc]
    constructor
    · show RefInv _ (Pool.heldBy PubPc.held (x.pool.threads.set i _) + _) x.nextKvm x.nextVcpu
      rw [Pool.heldBy_set_eq_add PubPc.held hpc, add_assoc, add_comm (Pool.heldBy ..)]
      exact href
    · intro u hu
      obtain ⟨j, hj⟩ := List.mem_iff_getElem?.1 hu
      rcases Pool.getElem?_set_cases hj with ⟨-, rfl⟩ | ⟨hji, hu⟩
      · exact howned
      -- A vCPU that is being created is unknown to all other threads.
      refine (h.owned u (List.mem_of_getElem? hu)).congr fun v t ht hv => howner v fun hnew => ?_
      have hothers : t ∈ Pool.heldBy PubPc.held (x.pool.threads.eraseIdx i) :=
        (Pool.mem_heldBy PubPc.held).2 ⟨u, List.mem_eraseIdx_iff_getElem?.2 ⟨j, hji, hu⟩, ht⟩
      have honce := (hbefore.ref.vcpu v).once
      have hpos := Tokens.vcpus_pos hnew (v := v) (decide_eq_true rfl)
      have hpos' := Tokens.vcpus_pos hothers hv
      unfold Tokens.vcpus at honce hpos hpos'
      rw [Multiset.countP_add, Multiset.countP_add] at honce
      omega
    · intro u hu f hf
      rcases List.mem_or_eq_of_mem_set hu with hu | rfl
      · exact hopened (h.inUse u hu f hf)
      · exact hopened (h.inUse pc hmem f (hfile f hf))
    · intro f hf
      exact (hfiles f hf).elim (fun hf => hopened (h.files f hf)) id

/-- A call on an open descriptor starts with nothing of its own. -/
theorem spawn_on (h : PubInv x) {fd : Fd} {f : File} (hfd : x.file fd = some f) {pc : PubPc}
    (hheld : pc.held = 0) (howned : ∀ owner, pc.Owned owner) (hfile : pc.file = some f) : PubInv (x.spawn pc) := by
  refine h.spawn howned (fun f' hf' => ?_) ?_
  · obtain rfl := Option.some.inj (hfile.symm.trans hf')
    exact h.mem_opened hfd
  · rw [hheld, zero_add]
    exact h.ref

/-- The token of a file that nobody uses goes to the thread that releases it. -/
theorem release (h : PubInv x) (f : File) (cpu : CpuId) (ok : Bool) : PubInv (x.step (.release f cpu ok)) := by
  unfold PubRun.step
  dsimp only
  by_cases hf : x.CanRelease f
  swap
  · rw [if_neg hf]
    exact h
  rw [if_pos hf]
  obtain ⟨hopened, hclosed, hidle⟩ := hf
  have hfiles : fileTokens x.pool.shared.opened = f.token ::ₘ fileTokens (x.pool.shared.opened.erase f) := by
    unfold fileTokens
    rw [Multiset.cons_coe]
    exact Multiset.coe_eq_coe.2 ((List.perm_cons_erase hopened).map File.token)
  -- the thread of the release starts with the reference of the file
  have hrelease : ∀ pc : PubPc, pc.held = {f.token} → pc.file = none → (∀ owner, pc.Owned owner) →
      PubInv { x with
        pool := ⟨{ x.pool.shared with opened := x.pool.shared.opened.erase f }, x.pool.threads ++ [pc]⟩ } := by
    intro pc hpc hfile howned
    constructor
    · have href := h.ref
      show RefInv _ (Pool.heldBy PubPc.held (x.pool.threads ++ [pc]) + _) _ _
      rw [hfiles, Multiset.add_cons] at href
      rw [Pool.heldBy_append_singleton, hpc, add_assoc, Multiset.singleton_add, Multiset.add_cons]
      exact href
    · intro u hu
      rcases List.mem_append.1 hu with hu | hu
      · exact h.owned u hu
      · obtain rfl := List.mem_singleton.1 hu
        exact howned _
    · intro u hu f' hf'
      rcases List.mem_append.1 hu with hthread | hu
      · have hne : f' ≠ f := by
          rintro rfl
          exact hidle ⟨u, hthread, hf'⟩
        exact (List.mem_erase_of_ne hne).2 (h.inUse u hthread f' hf')
      · obtain rfl := List.mem_singleton.1 hu
        rw [hfile] at hf'
        cases hf'
    · intro f' hf'
      have hne : f' ≠ f := by
        rintro rfl
        exact hclosed hf'
      exact (List.mem_erase_of_ne hne).2 (h.files f' hf')
  cases f with
  | vm k => exact hrelease (.put k) rfl rfl fun _ => trivial
  | vcpu v => exact hrelease (.releaseLock v cpu ok) rfl rfl fun _ => trivial

/-- A waiting thread gives up. -/
theorem kill (h : PubInv x) {i : Nat} {v : VcpuPtr} {body : VcpuIoctl}
    (hpc : x.pool.threads[i]? = some (.ioctlLock v body)) :
    PubInv { x with pool := { x.pool with threads := x.pool.threads.set i (.returned (-eintr)) } } := by
  constructor
  · show RefInv _ (Pool.heldBy PubPc.held (x.pool.threads.set i _) + _) _ _
    have href := h.ref
    rw [Pool.heldBy_eq_add PubPc.held hpc] at href
    rw [Pool.heldBy_set_eq_add PubPc.held hpc]
    exact href
  · intro u hu
    rcases List.mem_or_eq_of_mem_set hu with hu | rfl
    · exact h.owned u hu
    · trivial
  · intro u hu f hf
    rcases List.mem_or_eq_of_mem_set hu with hu | rfl
    · exact h.inUse u hu f hf
    · cases hf
  · exact h.files

theorem step (h : PubInv x) (op : PubOp) (hcalm : op.Calm x) : PubInv (x.step op) := by
  cases op with
  | createVm o => exact h.spawn (fun _ => trivial) (fun f hf => (by cases hf)) h.ref.newKvm
  | createVcpu fd o =>
    unfold PubRun.step
    dsimp only
    split
    · next k hfd =>
      refine h.spawn (fun _ => trivial) (fun f hf => ?_) h.ref.newVcpu
      obtain rfl := Option.some.inj hf
      exact h.mem_opened hfd
    · exact h
  | setMemregion fd o =>
    unfold PubRun.step
    dsimp only
    split
    · next k hfd => exact h.spawn_on hfd rfl (fun _ => trivial) rfl
    · exact h
  | getSerial fd =>
    unfold PubRun.step
    dsimp only
    split
    · next k hfd => exact h.spawn_on hfd rfl (fun _ => trivial) rfl
    · exact h
  | vcpuIoctl fd body =>
    unfold PubRun.step
    dsimp only
    split
    · next v hfd => exact h.spawn_on hfd rfl (fun _ => trivial) rfl
    · exact h
  | close fd =>
    refine ⟨h.ref.files _, h.owned, h.inUse, fun f hf => ?_⟩
    obtain ⟨e, he, rfl⟩ := List.mem_map.1 hf
    exact h.files _ (List.mem_map_of_mem (List.mem_of_mem_filter he))
  | release f cpu ok => exact h.release f cpu ok
  | step i => exact h.exec i hcalm
  | kill i =>
    unfold PubRun.step
    dsimp only
    split
    · next v body hpc => exact h.kill hpc
    · exact h

end PubInv

/-! ### The result -/

/-- In every run in which the last reference to a VM is never dropped while its creator still has to print the
message, no call dereferences a VM or a vCPU after it has been freed. -/
theorem objectSafe_of_calm (w : Kernel) (hfiles : w.files = []) (hledger : w.ledger = []) (ops : List PubOp)
    (hcalm : AllSteps PubRun.step (fun x op => op.Calm x) (.start w) ops) :
    ObjectSafe (runSteps PubRun.step (.start w) ops).pool.shared.kernel.ledger := by
  have hinv := AllSteps.inv (fun x op (h : PubInv x) hop => h.step op hop) (PubInv.start hfiles hledger) hcalm
  exact hinv.ref.safe

/-- A creation with everything it needs. -/
def vmCall : CreateVmCall := ⟨some 1, some 16, .ok 3⟩

/-- A VM with a vCPU runs a guest, and the descriptors are closed and the files released. -/
def quietRun : List PubOp :=
  [.createVm vmCall, .step 0, .step 0, .step 0,
    .setMemregion 3 ⟨some ⟨0, 0, 0, 0x1000, 0x7000⟩, some 7, 1, fun _ => 32⟩,
    .createVcpu 3 ⟨0, some 2, some 17, 0, World.setupCall 18, .ok 4, true⟩] ++
    (List.replicate 8 (.step 1) ++ (List.replicate 5 (.step 2) ++
      [.vcpuIoctl 4 (.run 0 [] World.haltRun), .step 3, .step 3, .step 3, .close 3, .close 4,
        .release (.vm 0) 0 true, .step 4, .release (.vcpu 0) 0 true, .step 5, .step 5, .step 5, .step 5]))

/-- The descriptor of a new VM is closed and its file released before the message is printed. -/
def closedEarly : List PubOp :=
  [.createVm vmCall, .step 0, .step 0, .close 3, .release (.vm 0) 0 true, .step 1, .step 0]

theorem objectSafe_of_calm_quietRun :
    ObjectSafe (runSteps PubRun.step (.start Kernel.loaded) quietRun).pool.shared.kernel.ledger := by
  exact objectSafe_of_calm Kernel.loaded rfl rfl quietRun (by decide +kernel)

theorem not_objectSafe :
    ¬ ObjectSafe (runSteps PubRun.step (.start Kernel.loaded) closedEarly).pool.shared.kernel.ledger := by
  intro h
  have hpair := List.pairwise_iff_getElem.1 h 8 9 (by decide +kernel) (by decide +kernel) (by decide)
  exact hpair (.kvm 0) rfl (by decide +kernel) (by decide +kernel)

end MiniVirt.Kvm
