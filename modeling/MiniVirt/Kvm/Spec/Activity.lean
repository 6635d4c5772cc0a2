import MiniVirt.Kvm.Spec.Holders
import MiniVirt.Lib.Runs

/-!
# Where VMCSs are active

With VMCLEARs that reach their CPU, `loaded_cpu` says exactly where a vCPU's VMCS is active between
calls, and within a call a VMCS is loaded and freed only while it is active nowhere
(`World.activity`).
-/

namespace MiniVirt.Kvm

/-! ### Activity along a call -/

namespace Vmx

theorem active_vmptrld {x : Vmx} {c d : CpuId} {p q : Phys} :
    (x.vmptrld c q).active d p = true ↔ x.active d p = true ∨ d = c ∧ p = q := by
  by_cases hd : d = c
  · subst hd
    by_cases hp : p = q <;> simp [vmptrld, hp, Function.update_of_ne]
  · simp [vmptrld, hd, Function.update_of_ne]

theorem active_vmclear {x : Vmx} {c d : CpuId} {p q : Phys} :
    (x.vmclear c q).active d p = true ↔ x.active d p = true ∧ ¬ (d = c ∧ p = q) := by
  by_cases hd : d = c
  · subst hd
    by_cases hp : p = q <;> simp [vmclear, hp, Function.update_of_ne]
  · simp [vmclear, hd, Function.update_of_ne]

/-- A VMCS is active on at most one CPU. -/
def Once (x : Vmx) : Prop := ∀ c d p, x.active c p = true → x.active d p = true → c = d

/-- The VMCS `p` is active nowhere. -/
def Inactive (x : Vmx) (p : Phys) : Prop := ∀ c, ¬ x.active c p = true

theorem Inactive.vmclear {x : Vmx} {p : Phys} (h : x.Inactive p) (c : CpuId) (q : Phys) :
    (x.vmclear c q).Inactive p :=
  fun d hd => h d (active_vmclear.1 hd).1

end Vmx

/-- `e` loads a VMCS, or gives its page back, only when the VMCS is active nowhere. -/
def Event.Safe (x : Vmx) : Event → Prop
  | .vmptrld _ p => x.Inactive p
  | .freeVmcs _ active => ∀ c, ¬ active c = true
  | _ => True

/-- All events of `l` are safe, from the VMX state `x` on. -/
def SafeEvents : Vmx → List Event → Prop
  | _, [] => True
  | x, e :: l => e.Safe x ∧ SafeEvents (x.replay e) l

theorem safeEvents_append {x : Vmx} {l₁ l₂ : List Event} :
    SafeEvents x (l₁ ++ l₂) ↔ SafeEvents x l₁ ∧ SafeEvents (l₁.foldl Vmx.replay x) l₂ := by
  induction l₁ generalizing x with
  | nil => exact (true_and _).symm.to_iff
  | cons e l₁ ih =>
    rw [List.cons_append, SafeEvents, SafeEvents, ih, and_assoc]
    rfl

theorem Vmx.Once.replay {x : Vmx} (h : x.Once) {e : Event} (he : e.Safe x) :
    (x.replay e).Once := by
  intro c d p hc hd
  cases e with
  | vmptrld b q =>
    have hq : x.Inactive q := he
    rcases Vmx.active_vmptrld.1 hc with hc₁ | ⟨hcb, hp⟩ <;>
      rcases Vmx.active_vmptrld.1 hd with hd₁ | ⟨hdb, hp'⟩
    · exact h c d p hc₁ hd₁
    · exact absurd (hp' ▸ hc₁) (hq c)
    · exact absurd (hp ▸ hd₁) (hq d)
    · rw [hcb, hdb]
  | vmclear b q => exact h c d p (Vmx.active_vmclear.1 hc).1 (Vmx.active_vmclear.1 hd).1
  | _ => exact h c d p hc hd

/-- Safe events keep every VMCS active at most once, all the time. -/
theorem SafeEvents.once {x : Vmx} {l : List Event} (h : SafeEvents x l) (hx : x.Once) (k : Nat) :
    ((l.take k).foldl Vmx.replay x).Once := by
  induction l generalizing x k with
  | nil =>
    rw [List.take_nil]
    exact hx
  | cons e l ih =>
    cases k with
    | zero => exact hx
    | succ k => exact ih h.2 (hx.replay h.1) k

theorem SafeEvents.freeVmcs {x : Vmx} {l : List Event} (h : SafeEvents x l) {page : Pfn}
    {active : CpuId → Bool} (hmem : .freeVmcs page active ∈ l) (c : CpuId) : active c = false := by
  induction l generalizing x with
  | nil => exact absurd hmem List.not_mem_nil
  | cons e l ih =>
    rcases List.mem_cons.1 hmem with rfl | hmem
    · exact Bool.eq_false_iff.2 (h.1 c)
    · exact ih h.2 hmem

theorem Event.IsLoop.safe {c : CpuId} {x y : Vmx} {w : VcpuVmx} {e : Event} (h : e.IsLoop c x w) :
    e.Safe y := by
  cases e <;> trivial

theorem safeEvents_of_isLoop {c : CpuId} {x y : Vmx} {w : VcpuVmx} {l : List Event}
    (h : ∀ e ∈ l, e.IsLoop c x w) : SafeEvents y l := by
  induction l with
  | nil => trivial
  | cons e l ih =>
    have he := h e List.mem_cons_self
    rw [SafeEvents, he.replay]
    exact ⟨he.safe, ih fun e he => h e (List.mem_cons_of_mem _ he)⟩

theorem safeEvents_unloadEvents (x : Vmx) (c : CpuId) (w : VcpuVmx) (ok : Bool) :
    SafeEvents x (x.unloadEvents c w ok) := by
  rw [Vmx.unloadEvents]
  split
  · trivial
  · split
    · exact ⟨trivial, trivial⟩
    · trivial

/-! ### The mirror -/

/-- `loaded_cpu` is the only CPU on which the VMCS may be active. -/
def VcpuVmx.Mirrors (w : VcpuVmx) (x : Vmx) : Prop :=
  ∀ c, x.active c w.vmcsPhys = true → w.loadedCpu = some c

/-- A VMCLEAR for the vCPU is executed, wherever the vCPU is loaded. -/
def VcpuVmx.Reachable (w : VcpuVmx) (x : Vmx) : Prop :=
  ∀ d, w.loadedCpu = some d → x.online d = true ∧ x.vmxonDone d = true

/-- Nothing is active that was not, and `p` is not. -/
structure Vmx.Released (x : Vmx) (p : Phys) (x' : Vmx) : Prop where
  own : x'.Inactive p
  others : ∀ {d q}, x'.active d q = true → x.active d q = true

/-- `mini_vmcs_clear()` leaves the VMCS active nowhere. -/
theorem Vmx.released_unload {x : Vmx} {c : CpuId} {w : VcpuVmx} (hm : w.Mirrors x)
    (hreach : w.Reachable x) : x.Released w.vmcsPhys (x.unload c w true) := by
  cases hd : w.loadedCpu with
  | none =>
    have hrun : x.unload c w true = x := by rw [Vmx.unload, hd]
    rw [hrun]
    exact ⟨fun b hb => absurd (hd.symm.trans (hm b hb)) (by simp), id⟩
  | some d =>
    have hrun : x.unload c w true = x.vmclear d w.vmcsPhys := by
      obtain ⟨honline, hvmxon⟩ := hreach d hd
      simp [Vmx.unload, hd, Vmx.reaches, honline, hvmxon]
    rw [hrun]
    refine ⟨fun b hb => ?_, fun h => (active_vmclear.1 h).1⟩
    obtain ⟨hb, hne⟩ := active_vmclear.1 hb
    exact hne ⟨Option.some.inj ((hm b hb).symm.trans hd), rfl⟩

/-! ### Calls -/

theorem SetupSteps.safe {c : CpuId} {x x' : Vmx} {o : SetupCall} {r : Int} {v : VcpuVmx}
    {l : List Event} (h : SetupSteps c x o r x' v l)
    (hfree : ∀ page, o.page = some page → x.Inactive (pageToPhys page)) (ho : o.unloadOk = true)
    (hc : x.online c = true ∧ x.vmxonDone c = true) :
    SafeEvents x l ∧ ∀ {d q}, x'.active d q = true → x.active d q = true := by
  -- the VMCS is loaded on this CPU only, so that unloading it there releases it
  have hload : ∀ {page}, x.Inactive (pageToPhys page) →
      SafeEvents x [Event.vmclear c (pageToPhys page), .vmptrld c (pageToPhys page)] ∧
        (x.setupLoad c page).Released (pageToPhys page)
          ((x.setupLoad c page).unload c (.inSetup c page) true) ∧
        ∀ {d q}, (x.setupLoad c page).active d q = true → x.active d q = true ∨
          q = pageToPhys page := by
    intro page hpage
    have hcleared := hpage.vmclear c (pageToPhys page)
    refine ⟨⟨trivial, hcleared, trivial⟩,
      Vmx.released_unload (w := .inSetup c page) ?_ ?_, ?_⟩
    · intro b hb
      rcases Vmx.active_vmptrld.1 hb with hb | ⟨rfl, -⟩
      · exact absurd hb (hcleared b)
      · rfl
    · intro d hd
      cases Option.some.inj hd
      exact hc
    · intro d q h
      rcases Vmx.active_vmptrld.1 h with h | ⟨-, hq⟩
      · exact .inl (Vmx.active_vmclear.1 h).1
      · exact .inr hq
  have hafter : ∀ {page}, x.Inactive (pageToPhys page) → ∀ {d q},
      ((x.setupLoad c page).unload c (.inSetup c page) true).active d q = true →
        x.active d q = true := by
    intro page hpage d q h
    obtain ⟨-, hrel, hold⟩ := hload hpage
    rcases hold (hrel.others h) with h' | rfl
    · exact h'
    · exact absurd h (hrel.own d)
  cases h with
  | noPage h => exact ⟨trivial, id⟩
  -- the page is freed before anything was loaded
  | clearFail h ho' => exact ⟨⟨hfree _ h, trivial⟩, id⟩
  | ptrldFail h hc' hp =>
    exact ⟨⟨trivial, (hfree _ h).vmclear _ _, trivial⟩, fun h => (Vmx.active_vmclear.1 h).1⟩
  | @rejected page h hc' hp =>
    obtain ⟨hsafe, hrel, -⟩ := hload (hfree _ h)
    rw [ho]
    refine ⟨?_, hafter (hfree _ h)⟩
    rw [safeEvents_append, safeEvents_append]
    exact ⟨⟨hsafe, safeEvents_unloadEvents ..⟩, hrel.own, trivial⟩
  -- between the load and the unload the set-up writes fields only
  | @ok page h hc' hp l hl =>
    obtain ⟨hsafe, -, -⟩ := hload (hfree _ h)
    have hl' : ∀ e ∈ l, e.IsLoop c (x.setupLoad c page) (.inSetup c page) :=
      fun e he => (hl e he).isLoop
    rw [ho]
    refine ⟨?_, hafter (hfree _ h)⟩
    rw [safeEvents_append, safeEvents_append, foldl_replay_of_isLoop hl']
    exact ⟨hsafe, safeEvents_of_isLoop hl', safeEvents_unloadEvents (x.setupLoad c page) ..⟩

theorem TeardownSteps.safe {c : CpuId} {x x' : Vmx} {w w' : VcpuVmx} {l : List Event}
    (h : TeardownSteps c x w true x' w' l) (hm : w.Mirrors x) (hreach : w.Reachable x)
    (hpage : ∃ page, w.vmcsPage = some page ∧ w.vmcsPhys = pageToPhys page) :
    SafeEvents x l ∧ x.Released w.vmcsPhys x' := by
  obtain ⟨page, hpage, hphys⟩ := hpage
  cases h with
  | noPage h => exact absurd (hpage.symm.trans h) (by simp)
  | @free page' h =>
    have hrel := Vmx.released_unload (c := c) hm hreach
    refine ⟨?_, hrel⟩
    have hown := hrel.own
    rw [safeEvents_append, foldl_replay_unloadEvents]
    cases Option.some.inj (hpage.symm.trans h)
    rw [hphys] at hown
    exact ⟨safeEvents_unloadEvents .., hown, trivial⟩

theorem RunSteps.safe {c : CpuId} {x x' : Vmx} {w w' : VcpuVmx} {o : RunCall} {l : List Event}
    (h : RunSteps c x w o x' w' l) (hm : w.Mirrors x) (hreach : w.Reachable x)
    (ho : o.clearOk = true) :
    SafeEvents x l ∧ w'.Mirrors x' ∧
      ∀ {d q}, q ≠ w.vmcsPhys → x'.active d q = true → x.active d q = true := by
  have hrel := Vmx.released_unload (c := c) hm hreach
  cases h with
  | notVmx hv => exact ⟨trivial, hm, fun _ => id⟩
  | ptrldFail hv hl ho' =>
    rw [ho]
    exact ⟨safeEvents_unloadEvents .., fun b hb => absurd hb (hrel.own b), fun _ => hrel.others⟩
  | @ran hv x₁ w₁ l₁ _ _ l hload hloop =>
    have hframe := hloop.loopFrame
    have h₁ : SafeEvents x l₁ ∧ w₁.Mirrors x₁ ∧
        ∀ {d q}, q ≠ w.vmcsPhys → x₁.active d q = true → x.active d q = true := by
      cases hload with
      -- already loaded on this CPU
      | shortcut hl => exact ⟨trivial, hm, fun _ => id⟩
      | @migrated hl ho' l h =>
        rw [ho]
        refine ⟨?_, fun b hb => ?_, fun hq hb => ?_⟩
        · rw [safeEvents_append, foldl_replay_unloadEvents]
          refine ⟨safeEvents_unloadEvents .., hrel.own, ?_⟩
          exact safeEvents_of_isLoop fun e he => (h e he).isLoop
        · -- released where it was, the VMCS is active only where it is loaded now
          rcases Vmx.active_vmptrld.1 hb with hb | ⟨rfl, -⟩
          · exact absurd hb (hrel.own b)
          · rfl
        · rcases Vmx.active_vmptrld.1 hb with hb | ⟨-, hq'⟩
          · exact hrel.others hb
          · exact absurd hq' hq
    refine ⟨?_, fun b hb => ?_, fun hq hb => h₁.2.2 hq ?_⟩
    · rw [safeEvents_append]
      exact ⟨h₁.1, safeEvents_of_isLoop hframe.events⟩
    · rw [hframe.vcpu] at hb ⊢
      rw [hframe.holders.active] at hb
      exact h₁.2.1 b hb
    · rwa [hframe.holders.active] at hb

/-! ### The invariant -/

/-- Every active VMCS belongs to a vCPU that is recorded as loaded there, and every vCPU is loaded
on an online CPU in VMX operation. -/
structure ActiveInv (x : Vmx) (ws : VcpuId → Option VcpuVmx) : Prop where
  pages : OwnPages ws
  owner : ∀ {c p}, x.active c p = true →
    ∃ u v, ws u = some v ∧ v.vmcsPhys = p ∧ v.loadedCpu = some c
  reachable : ∀ {u v}, ws u = some v → v.Reachable x

theorem ActiveInv.mirrors {x : Vmx} {ws : VcpuId → Option VcpuVmx} (h : ActiveInv x ws)
    {u : VcpuId} {v : VcpuVmx} (hv : ws u = some v) : v.Mirrors x := by
  intro c hc
  obtain ⟨u', v', hv', hphys, hl⟩ := h.owner hc
  cases h.pages.distinct hv' hv hphys
  cases Option.some.inj (hv'.symm.trans hv)
  exact hl

theorem ActiveInv.once {x : Vmx} {ws : VcpuId → Option VcpuVmx} (h : ActiveInv x ws) :
    x.Once := by
  intro c d p hc hd
  obtain ⟨u, v, hv, rfl, hl⟩ := h.owner hc
  exact Option.some.inj (hl.symm.trans (h.mirrors hv d hd))

theorem ActiveInv.inactive {x : Vmx} {ws : VcpuId → Option VcpuVmx} (h : ActiveInv x ws)
    {u : VcpuId} {m : VmId} {c : CpuId} {o : SetupCall}
    (hfresh : (Op.setup u m c o).FreshPage ws) {page : Pfn} (ho : o.page = some page) :
    x.Inactive (pageToPhys page) := by
  intro d hd
  obtain ⟨u', v, hv, hphys, -⟩ := h.owner hd
  exact hfresh.phys_ne h.pages ho hv hphys

theorem VStep.reachable {x x' : Vmx} {ws ws' : VcpuId → Option VcpuVmx} {op : Op} {l : List Event}
    (h : VStep x ws op x' ws' l) {v : VcpuVmx} (hv : v.Reachable x) : v.Reachable x' := by
  intro d hd
  rw [h.online.1, h.online.2]
  exact hv d hd

theorem RunSteps.loadedCpu {c d : CpuId} {x x' : Vmx} {w w' : VcpuVmx} {o : RunCall}
    {l : List Event} (h : RunSteps c x w o x' w' l) (hd : w'.loadedCpu = some d) :
    w.loadedCpu = some d ∨ d = c := by
  cases h with
  | notVmx hv => exact .inl hd
  | ptrldFail hv hl ho => exact absurd hd (by simp [VcpuVmx.unload])
  | ran hv hload hloop =>
    rw [hloop.vcpu] at hd
    cases hload with
    | shortcut hl => exact .inl hd
    | migrated hl ho h => exact .inr (Option.some.inj hd).symm

theorem VStep.activeInv {x x' : Vmx} {ws ws' : VcpuId → Option VcpuVmx} {op : Op}
    {l : List Event} (h : VStep x ws op x' ws' l) (hinv : ActiveInv x ws)
    (hc : x.online op.cpu = true ∧ x.vmxonDone op.cpu = true) (hfresh : op.FreshPage ws)
    (ho : op.UnloadOk) : ActiveInv x' ws' ∧ SafeEvents x l := by
  have hpages := h.ownPages hinv.pages hfresh
  have hreach : ∀ {v : VcpuVmx}, v.Reachable x → v.Reachable x' := h.reachable
  cases h with
  | setupIdle hu => exact ⟨hinv, trivial⟩
  | runIdle hu => exact ⟨hinv, trivial⟩
  | teardownIdle hu => exact ⟨hinv, trivial⟩
  | @setup u m c o r _ v _ hu h =>
    -- the set-up ends with an unload, so every active VMCS was active before
    obtain ⟨hsafe, hold⟩ := h.safe (fun page => hinv.inactive hfresh) ho hc
    refine ⟨⟨hpages, fun ha => ?_, fun {u' v'} hv' => ?_⟩, hsafe⟩
    · obtain ⟨u', v', hv', hphys, hl⟩ := hinv.owner (hold ha)
      have hne : u' ≠ u := fun heq => absurd (hu.symm.trans (heq ▸ hv')) (by simp)
      exact ⟨u', v', by rw [Function.update_of_ne hne]; exact hv', hphys, hl⟩
    · by_cases hne : u' = u
      · subst hne
        rw [Function.update_self] at hv'
        split at hv'
        · rename_i hr
          rw [hr] at h
          obtain ⟨page, -, hpage⟩ := h.page
          rw [← Option.some.inj hv', hpage]
          exact fun d hd => absurd hd (by simp)
        · exact absurd hv' (by simp)
      · rw [Function.update_of_ne hne] at hv'
        exact hreach (hinv.reachable hv')
  | @run u c allocs o v _ v₁ _ hu h =>
    obtain ⟨hsafe, hm, hold⟩ := h.safe (hinv.mirrors hu) (hinv.reachable hu) ho
    obtain ⟨-, hphys⟩ := h.page
    refine ⟨⟨hpages, fun {d q} ha => ?_, fun {u' v'} hv' => ?_⟩, hsafe⟩
    · -- the VMCS of this vCPU, or one of another owner
      by_cases hq : q = v.vmcsPhys
      · subst hq
        rw [← hphys] at ha
        exact ⟨u, v₁, Function.update_self .., hphys, hm d ha⟩
      · obtain ⟨u', v', hv', rfl, hl⟩ := hinv.owner (hold hq ha)
        -- the vCPU that is torn down owns nothing that is still active
        have hne : u' ≠ u := by
          rintro rfl
          cases Option.some.inj (hv'.symm.trans hu)
          exact hq rfl
        exact ⟨u', v', by rw [Function.update_of_ne hne]; exact hv', rfl, hl⟩
    · by_cases hne : u' = u
      · subst hne
        rw [Function.update_self] at hv'
        refine hreach fun d hd => ?_
        rw [← Option.some.inj hv'] at hd
        rcases h.loadedCpu hd with hd | rfl
        · exact hinv.reachable hu d hd
        · exact hc
      · rw [Function.update_of_ne hne] at hv'
        exact hreach (hinv.reachable hv')
  | @teardown u c ok v _ v₁ _ hu h =>
    have hok : ok = true := ho
    subst hok
    obtain ⟨hsafe, hrel⟩ := h.safe (hinv.mirrors hu) (hinv.reachable hu) (hinv.pages.page hu)
    refine ⟨⟨hpages, fun {d q} ha => ?_, fun {u' v'} hv' => ?_⟩, hsafe⟩
    · obtain ⟨u', v', hv', rfl, hl⟩ := hinv.owner (hrel.others ha)
      have hne : u' ≠ u := by
        rintro rfl
        cases Option.some.inj (hv'.symm.trans hu)
        exact hrel.own d ha
      exact ⟨u', v', by rw [Function.update_of_ne hne]; exact hv', rfl, hl⟩
    · by_cases hne : u' = u
      · subst hne
        rw [Function.update_self] at hv'
        exact absurd hv' (by simp)
      · rw [Function.update_of_ne hne] at hv'
        exact hreach (hinv.reachable hv')

/-! ### Runs -/

namespace World

/-- A call executes on an online CPU in VMX operation, is given a page that is free, and its
VMCLEARs of loaded VMCSs succeed. -/
structure ClearEnv (w : World) (op : Op) : Prop where
  online : (w.hw.cpu op.cpu).online = true
  vmxon : (w.hw.cpu op.cpu).vmxonDone = true
  page : op.FreshPage w.vcpuVmx
  unload : op.UnloadOk

/-- `loaded_cpu` says where VMCSs are active. -/
structure ActiveWhereLoaded (w : World) : Prop where
  once : ∀ c d p, (w.hw.cpu c).active p = true → (w.hw.cpu d).active p = true → c = d
  loaded : ∀ u v c, w.vcpu u = some v → (w.hw.cpu c).active v.vcpu.vmcsPhys = true →
    v.vcpu.loadedCpu = some c
  owner : ∀ c p, (w.hw.cpu c).active p = true → ∃ u v, w.vcpu u = some v ∧ v.vcpu.vmcsPhys = p

/-- During the call no VMCS is active twice, and none is freed while it is active. -/
structure FreesInactive (w : World) (op : Op) : Prop where
  once : ∀ k, (((w.events op).take k).foldl Vmx.replay w.hw.vmx).Once
  free : ∀ page active, .freeVmcs page active ∈ w.events op → ∀ c, active c = false

theorem activeWhereLoaded {w : World} (h : ActiveInv w.hw.vmx w.vcpuVmx) :
    w.ActiveWhereLoaded := by
  refine ⟨h.once, fun u v c hu hc => ?_, fun c p hc => ?_⟩
  · have hu' : w.vcpuVmx u = some v.vcpu.vmx := by rw [vcpuVmx, hu, Option.map_some]
    exact h.mirrors hu' c hc
  · obtain ⟨u, v, hu, hphys, -⟩ := h.owner hc
    obtain ⟨v', hv', rfl⟩ := Option.map_eq_some_iff.1 hu
    exact ⟨u, v', hv', hphys⟩

/-- In a run of setups, KVM_RUNs and teardowns, a VMCS is active on one CPU at most, the one in
`loaded_cpu`, and none is freed while it is active. -/
theorem activity {w : World} {ops : List Op} (h : w.Boot)
    (henv : AllSteps World.step World.ClearEnv w ops) :
    (runSteps World.step w ops).ActiveWhereLoaded ∧ AllSteps World.step FreesInactive w ops := by
  have hboot : ActiveInv w.hw.vmx w.vcpuVmx := by
    refine ⟨h.ownPages, fun {c p} hc => ?_, fun hv => absurd hv h.vcpuVmx⟩
    exact absurd ((h.active c p).symm.trans hc) Bool.false_ne_true
  have hstep : ∀ (w : World) (op : Op), ActiveInv w.hw.vmx w.vcpuVmx → w.ClearEnv op →
      ActiveInv (w.step op).hw.vmx (w.step op).vcpuVmx ∧ w.FreesInactive op := by
    intro w op hinv henv
    obtain ⟨hinv', hsafe⟩ := (w.exec_vstep op).activeInv hinv ⟨henv.online, henv.vmxon⟩ henv.page
      henv.unload
    exact ⟨hinv', hsafe.once hinv.once, fun _ _ hmem => hsafe.freeVmcs hmem⟩
  exact ⟨activeWhereLoaded (henv.inv (fun w op hw he => (hstep w op hw he).1) hboot),
    henv.mono hstep hboot⟩

/-- A vCPU is set up on one CPU, runs on another and is torn down on a third. -/
theorem activity_boot :
    let ops : List Op := [.setup 0 0 0 (setupCall 1), .run 0 1 [] haltRun, .teardown 0 2 true]
    (runSteps World.step boot ops).ActiveWhereLoaded ∧
      AllSteps World.step FreesInactive boot ops := by
  refine activity boot_boot ⟨⟨rfl, rfl, ?_, rfl⟩, ⟨?_, ?_, trivial, rfl⟩, ⟨?_, ?_, trivial, rfl⟩,
    trivial⟩
  · exact fun page u v _ hv => absurd hv boot_boot.vcpuVmx
  all_goals decide +kernel

end World

end MiniVirt.Kvm
