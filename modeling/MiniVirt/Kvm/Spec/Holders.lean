import MiniVirt.Kvm.Spec.Setup
import MiniVirt.Kvm.World

/-!
# Who holds which VMCS, call by call

`VStep` is one call on the VMX state of the machine and of all vCPUs, and `World.exec_vstep` says
that every call of the code is one.  Two facts about it serve all results: a call follows its
VMPTRLD and VMCLEAR events (`VStep.replay`), and these are about its own VMCS (`VStep.about`).
-/

namespace MiniVirt.Kvm

/-! ### Holders -/

/-- The same VMCSs are current and active on the same CPUs; launch states may differ. -/
structure Vmx.SameHolders (x y : Vmx) : Prop where
  online : y.online = x.online
  vmxonDone : y.vmxonDone = x.vmxonDone
  current : y.current = x.current
  active : y.active = x.active

theorem Vmx.SameHolders.refl (x : Vmx) : x.SameHolders x := ⟨rfl, rfl, rfl, rfl⟩

theorem Vmx.SameHolders.of_eq {x y : Vmx} (h : x = y) : x.SameHolders y := h ▸ .refl x

theorem Vmx.SameHolders.trans {x y z : Vmx} (h₁ : x.SameHolders y) (h₂ : y.SameHolders z) :
    x.SameHolders z :=
  ⟨h₂.online.trans h₁.online, h₂.vmxonDone.trans h₁.vmxonDone, h₂.current.trans h₁.current,
    h₂.active.trans h₁.active⟩

theorem Vmx.sameHolders_launch (x : Vmx) (c : CpuId) : x.SameHolders (x.launch c) := by
  rw [Vmx.launch]
  split <;> exact ⟨rfl, rfl, rfl, rfl⟩

/-- An event of the run loop on the CPU `c` for the vCPU `w`. -/
def Event.IsLoop (c : CpuId) (x : Vmx) (w : VcpuVmx) : Event → Prop
  | .vmread c' cur own _ => c' = c ∧ cur = x.current c ∧ own = w.vmcsPhys
  | .vmwrite c' cur own _ _ => c' = c ∧ cur = x.current c ∧ own = w.vmcsPhys
  | .enter c' cur own _ _ => c' = c ∧ cur = x.current c ∧ own = w.vmcsPhys
  | .entryFailure _ _ => True
  | _ => False

theorem Event.IsAccess.isLoop {c : CpuId} {x : Vmx} {w : VcpuVmx} {e : Event}
    (h : e.IsAccess c x w) : e.IsLoop c x w := by
  cases e <;> first | exact h | exact h.elim

theorem Event.IsLoop.congr {c : CpuId} {x x' : Vmx} {w w' : VcpuVmx} {e : Event}
    (hx : x'.current = x.current) (hw : w'.vmcsPhys = w.vmcsPhys) (h : e.IsLoop c x' w') :
    e.IsLoop c x w := by
  cases e <;> simp only [Event.IsLoop, hx, hw] at h ⊢ <;> exact h

/-- What an iteration leaves: the holders, and the vCPU but for its flag. -/
structure LoopFrame (c : CpuId) (x : Vmx) (w : VcpuVmx) (x' : Vmx) (w' : VcpuVmx)
    (l : List Event) : Prop where
  holders : x.SameHolders x'
  vcpu : w' = { w with launched := w'.launched }
  events : ∀ e ∈ l, e.IsLoop c x w
  entry : entryEvent c x w ∈ l

theorem LoopFrame.vmcsPhys {c : CpuId} {x x' : Vmx} {w w' : VcpuVmx} {l : List Event}
    (h : LoopFrame c x w x' w' l) : w'.vmcsPhys = w.vmcsPhys := by
  rw [h.vcpu]

theorem IterStep.loopFrame {c : CpuId} {x x' : Vmx} {w w' : VcpuVmx} {o : EntryOutcome}
    {r : Option Int} {l : List Event} (h : IterStep c x w o r x' w' l) :
    LoopFrame c x w x' w' l := by
  have hentry : (entryEvent c x w).IsLoop c x w := ⟨rfl, rfl, rfl⟩
  cases h with
  | vmFail h₁ h₂ reason =>
    refine ⟨.refl x, rfl, fun e he => ?_, List.mem_append_right _ List.mem_cons_self⟩
    rcases List.mem_append.1 he with h | h
    · exact (h₁ e h).isLoop
    · rcases List.mem_cons.1 h with rfl | h
      · exact hentry
      · exact (h₂ e h).isLoop
  | exit h₁ h₂ agree i r =>
    refine ⟨x.sameHolders_launch c, rfl, fun e he => ?_,
      List.mem_append_right _ List.mem_cons_self⟩
    rcases List.mem_append.1 he with h | h
    · exact (h₁ e h).isLoop
    · rcases List.mem_cons.1 h with rfl | h
      · exact hentry
      · exact (h₂ e h).isLoop
  | entryFailure h₁ h₂ agree hp reason qual =>
    refine ⟨.refl x, rfl, fun e he => ?_, List.mem_append_right _ List.mem_cons_self⟩
    rcases List.mem_append.1 he with h | h
    · exact (h₁ e h).isLoop
    · rcases List.mem_cons.1 h with rfl | h
      · exact hentry
      · rcases List.mem_cons.1 h with rfl | h
        · trivial
        · exact (h₂ e h).isLoop

theorem LoopSteps.loopFrame {c : CpuId} {x x' : Vmx} {w w' : VcpuVmx} {o : EntryOutcome}
    {os : List EntryOutcome} {l : List Event} (h : LoopSteps c x w o os x' w' l) :
    LoopFrame c x w x' w' l := by
  induction h with
  | last h _ => exact h.loopFrame
  | next h _ ih =>
    have h₁ := h.loopFrame
    refine ⟨h₁.holders.trans ih.holders, ?_, fun e he => ?_, List.mem_append_left _ h₁.entry⟩
    · rw [ih.vcpu, h₁.vcpu]
    · rcases List.mem_append.1 he with h | h
      · exact h₁.events e h
      · exact (ih.events e h).congr h₁.holders.current h₁.vmcsPhys

/-! ### Replay -/

/-- What an event does to the holders. -/
def Vmx.replay (x : Vmx) : Event → Vmx
  | .vmptrld c p => x.vmptrld c p
  | .vmclear c p => x.vmclear c p
  | _ => x

/-- `e` loads or clears no VMCS but `p`. -/
def Event.About (p : Phys) : Event → Prop
  | .vmptrld _ q => q = p
  | .vmclear _ q => q = p
  | _ => True

theorem Event.IsLoop.replay {c : CpuId} {x : Vmx} {w : VcpuVmx} {e : Event} (h : e.IsLoop c x w)
    (y : Vmx) : y.replay e = y := by
  cases e <;> first | rfl | exact h.elim

theorem Event.IsLoop.about {c : CpuId} {x : Vmx} {w : VcpuVmx} {e : Event} (h : e.IsLoop c x w)
    (p : Phys) : e.About p := by
  cases e <;> trivial

theorem foldl_replay_of_isLoop {c : CpuId} {x : Vmx} {w : VcpuVmx} {l : List Event}
    (h : ∀ e ∈ l, e.IsLoop c x w) (y : Vmx) : l.foldl Vmx.replay y = y := by
  induction l with
  | nil => rfl
  | cons e l ih =>
    rw [List.foldl_cons, (h e List.mem_cons_self).replay]
    exact ih fun e he => h e (List.mem_cons_of_mem _ he)

theorem foldl_replay_unloadEvents (x : Vmx) (c : CpuId) (w : VcpuVmx) (ok : Bool) :
    (x.unloadEvents c w ok).foldl Vmx.replay x = x.unload c w ok := by
  rw [Vmx.unloadEvents, Vmx.unload]
  split
  · rfl
  · split <;> rfl

theorem about_unloadEvents {x : Vmx} {c : CpuId} {w : VcpuVmx} {ok : Bool} {e : Event}
    (he : e ∈ x.unloadEvents c w ok) : e.About w.vmcsPhys := by
  rw [Vmx.unloadEvents] at he
  split at he
  · exact absurd he List.not_mem_nil
  · split at he
    · rw [List.mem_singleton.1 he]
      rfl
    · exact absurd he List.not_mem_nil

/-- A call follows its events, but for the launch states. -/
structure Follows (x : Vmx) (p : Phys) (x' : Vmx) (l : List Event) : Prop where
  holders : (l.foldl Vmx.replay x).SameHolders x'
  about : ∀ e ∈ l, e.About p

theorem SetupSteps.follows {c : CpuId} {x x' : Vmx} {o : SetupCall} {r : Int} {w : VcpuVmx}
    {l : List Event} (h : SetupSteps c x o r x' w l) : Follows x w.vmcsPhys x' l := by
  have hmem : ∀ {c p} {e : Event}, e ∈ [Event.vmclear c p, .vmptrld c p] → e.About p := by
    intro c p e he
    rcases List.mem_cons.1 he with rfl | he
    · rfl
    · rw [List.mem_singleton.1 he]
      rfl
  cases h with
  | noPage h => exact ⟨.refl x, fun e he => absurd he List.not_mem_nil⟩
  | clearFail h ho =>
    refine ⟨.refl x, fun e he => ?_⟩
    rw [List.mem_singleton.1 he]
    trivial
  | ptrldFail h hc hp =>
    refine ⟨.refl _, fun e he => ?_⟩
    rcases List.mem_cons.1 he with rfl | he
    · rfl
    · rw [List.mem_singleton.1 he]
      trivial
  | @rejected page h hc hp =>
    -- the failing set-up: load, unload, free
    have hfold : ([Event.vmclear c (pageToPhys page), .vmptrld c (pageToPhys page)] ++
        (x.setupLoad c page).unloadEvents c (.inSetup c page) o.unloadOk ++
        [freeEvent ((x.setupLoad c page).unload c (.inSetup c page) o.unloadOk) page]).foldl
          Vmx.replay x = (x.setupLoad c page).unload c (.inSetup c page) o.unloadOk := by
      rw [List.foldl_append, List.foldl_append]
      exact foldl_replay_unloadEvents _ _ _ _
    refine ⟨.of_eq hfold, fun e he => ?_⟩
    rcases List.mem_append.1 he with he | he
    · rcases List.mem_append.1 he with he | he
      · exact hmem he
      · exact about_unloadEvents (w := .inSetup c page) he
    · rw [List.mem_singleton.1 he]
      trivial
  | @ok page h hc hp l hl =>
    have hfold : ([Event.vmclear c (pageToPhys page), .vmptrld c (pageToPhys page)] ++
        (l ++ (x.setupLoad c page).unloadEvents c (.inSetup c page) o.unloadOk)).foldl
          Vmx.replay x = (x.setupLoad c page).unload c (.inSetup c page) o.unloadOk := by
      -- the field writes change nothing that the replay tracks
      have hl' : l.foldl Vmx.replay (x.setupLoad c page) = x.setupLoad c page :=
        foldl_replay_of_isLoop (fun e he => (hl e he).isLoop) _
      rw [List.foldl_append, List.foldl_append]
      exact (congrArg (fun y => List.foldl Vmx.replay y _) hl').trans
        (foldl_replay_unloadEvents _ _ _ _)
    refine ⟨.of_eq hfold, fun e he => ?_⟩
    rcases List.mem_append.1 he with he | he
    · exact hmem he
    · rcases List.mem_append.1 he with he | he
      · exact (hl e he).isLoop.about _
      · exact about_unloadEvents (w := .inSetup c page) he

theorem TeardownSteps.follows {c : CpuId} {x x' : Vmx} {w w' : VcpuVmx} {ok : Bool}
    {l : List Event} (h : TeardownSteps c x w ok x' w' l) : Follows x w.vmcsPhys x' l := by
  cases h with
  | noPage h => exact ⟨.refl x, fun e he => absurd he List.not_mem_nil⟩
  | @free page h =>
    have hfold : (x.unloadEvents c w ok ++ [freeEvent (x.unload c w ok) page]).foldl Vmx.replay x =
        x.unload c w ok := by
      rw [List.foldl_append]
      exact foldl_replay_unloadEvents x c w ok
    refine ⟨.of_eq hfold, fun e he => ?_⟩
    rcases List.mem_append.1 he with he | he
    · exact about_unloadEvents he
    · rw [List.mem_singleton.1 he]
      trivial

theorem Loaded.follows {c : CpuId} {x x' : Vmx} {w w' : VcpuVmx} {o : RunCall} {l : List Event}
    (h : Loaded c x w o x' w' l) : Follows x w.vmcsPhys x' l := by
  cases h with
  | shortcut hl => exact ⟨.refl x, fun e he => absurd he List.not_mem_nil⟩
  | @migrated hl ho l h =>
    have hfold : (x.unloadEvents c w o.clearOk ++ .vmptrld c w.vmcsPhys :: l).foldl Vmx.replay x =
        (x.unload c w o.clearOk).vmptrld c w.vmcsPhys := by
      rw [List.foldl_append, foldl_replay_unloadEvents, List.foldl_cons]
      exact foldl_replay_of_isLoop (fun e he => (h e he).isLoop) _
    refine ⟨.of_eq hfold, fun e he => ?_⟩
    rcases List.mem_append.1 he with he | he
    · exact about_unloadEvents he
    · rcases List.mem_cons.1 he with rfl | he
      · rfl
      · exact (h e he).isLoop.about _

theorem RunSteps.follows {c : CpuId} {x x' : Vmx} {w w' : VcpuVmx} {o : RunCall} {l : List Event}
    (h : RunSteps c x w o x' w' l) : Follows x w.vmcsPhys x' l := by
  cases h with
  | notVmx hv => exact ⟨.refl x, fun e he => absurd he List.not_mem_nil⟩
  | ptrldFail hv hl ho =>
    exact ⟨.of_eq (foldl_replay_unloadEvents x c w o.clearOk), fun e he => about_unloadEvents he⟩
  | @ran hv x₁ w₁ l₁ _ _ l hload hloop =>
    have h₁ := hload.follows
    have h₂ := hloop.loopFrame
    refine ⟨?_, fun e he => ?_⟩
    · rw [List.foldl_append, foldl_replay_of_isLoop h₂.events]
      exact h₁.holders.trans h₂.holders
    · exact (List.mem_append.1 he).elim (h₁.about e) fun h => (h₂.events e h).about _

/-! ### Calls -/

/-- One call on the VMX state of the machine and of the vCPUs. -/
inductive VStep (x : Vmx) (ws : VcpuId → Option VcpuVmx) :
    Op → Vmx → (VcpuId → Option VcpuVmx) → List Event → Prop where
  | setupIdle {u m cpu o v} (hu : ws u = some v) : VStep x ws (.setup u m cpu o) x ws []
  | runIdle {u cpu allocs o} (hu : ws u = none) : VStep x ws (.run u cpu allocs o) x ws []
  | teardownIdle {u cpu ok} (hu : ws u = none) : VStep x ws (.teardown u cpu ok) x ws []
  | setup {u m cpu o r x' v l} (hu : ws u = none) (h : SetupSteps cpu x o r x' v l) :
      VStep x ws (.setup u m cpu o) x' (Function.update ws u (if r = 0 then some v else none)) l
  | run {u cpu allocs o v x' v' l} (hu : ws u = some v) (h : RunSteps cpu x v o x' v' l) :
      VStep x ws (.run u cpu allocs o) x' (Function.update ws u (some v')) l
  | teardown {u cpu ok v x' v' l} (hu : ws u = some v) (h : TeardownSteps cpu x v ok x' v' l) :
      VStep x ws (.teardown u cpu ok) x' (Function.update ws u none) l

/-- The vCPU that a call is about. -/
def Op.vcpu : Op → VcpuId
  | .setup u _ _ _ => u
  | .run u _ _ _ => u
  | .teardown u _ _ => u

/-- The CPU that a call executes on. -/
def Op.cpu : Op → CpuId
  | .setup _ _ c _ => c
  | .run _ c _ _ => c
  | .teardown _ c _ => c

/-- The VMCLEARs of `mini_vmcs_clear()` succeed. -/
def Op.UnloadOk : Op → Prop
  | .setup _ _ _ o => o.unloadOk = true
  | .run _ _ _ o => o.clearOk = true
  | .teardown _ _ ok => ok = true

theorem VStep.others {x x' : Vmx} {ws ws' : VcpuId → Option VcpuVmx} {op : Op} {l : List Event}
    (h : VStep x ws op x' ws' l) {u : VcpuId} (hu : u ≠ op.vcpu) : ws' u = ws u := by
  cases h <;> first | rfl | exact Function.update_of_ne hu ..

/-! ### Pages -/

/-- Every vCPU has a VMCS page, and no two have the same. -/
structure OwnPages (ws : VcpuId → Option VcpuVmx) : Prop where
  page : ∀ {u v}, ws u = some v → ∃ page, v.vmcsPage = some page ∧ v.vmcsPhys = pageToPhys page
  distinct : ∀ {u u' v v'}, ws u = some v → ws u' = some v' → v.vmcsPhys = v'.vmcsPhys → u = u'

/-- The `alloc_page()` of a setup gives no page that a vCPU holds. -/
def Op.FreshPage (ws : VcpuId → Option VcpuVmx) : Op → Prop
  | .setup _ _ _ o => ∀ page u v, o.page = some page → ws u = some v → v.vmcsPage ≠ some page
  | _ => True

/-- `e` neither loads nor clears the VMCS `p`. -/
def Event.Avoids (p : Phys) : Event → Prop
  | .vmptrld _ q => q ≠ p
  | .vmclear _ q => q ≠ p
  | _ => True

theorem Event.About.avoids {p q : Phys} {e : Event} (h : e.About q) (hne : q ≠ p) :
    e.Avoids p := by
  cases e <;> first | exact h.symm ▸ hne | trivial

theorem pageToPhys_injective : Function.Injective pageToPhys := by
  intro a b h
  have hab : (pageToPhys a >>> 12).setWidth 40 = (pageToPhys b >>> 12).setWidth 40 := by rw [h]
  have hinv : ∀ a : Pfn, (pageToPhys a >>> 12).setWidth 40 = a := by
    intro a
    apply BitVec.eq_of_toNat_eq
    have ha := a.isLt
    simp only [pageToPhys, BitVec.toNat_setWidth, BitVec.toNat_ushiftRight, BitVec.toNat_shiftLeft,
      Nat.shiftLeft_eq, Nat.shiftRight_eq_div_pow]
    omega
  rwa [hinv, hinv] at hab

theorem SetupSteps.page {c : CpuId} {x x' : Vmx} {o : SetupCall} {v : VcpuVmx} {l : List Event}
    (h : SetupSteps c x o 0 x' v l) :
    ∃ page, o.page = some page ∧ v = ⟨some page, pageToPhys page, false, none⟩ := by
  generalize hr : (0 : Int) = r at h
  cases h with
  | noPage h => exact absurd hr (by decide)
  | clearFail h ho => exact absurd hr (by decide)
  | ptrldFail h hc hp => exact absurd hr (by decide)
  | rejected h hc hp => exact absurd hr (by decide)
  | ok h hc hp hl => exact ⟨_, h, rfl⟩

/-- A setup that gets a page is about that page's VMCS. -/
theorem SetupSteps.about {c : CpuId} {x x' : Vmx} {o : SetupCall} {r : Int} {v : VcpuVmx}
    {l : List Event} (h : SetupSteps c x o r x' v l) :
    l = [] ∨ ∃ page, o.page = some page ∧ ∀ e ∈ l, e.About (pageToPhys page) := by
  have habout := h.follows.about
  cases h with
  | noPage h => exact .inl rfl
  | clearFail h ho => exact .inr ⟨_, h, habout⟩
  | ptrldFail h hc hp => exact .inr ⟨_, h, habout⟩
  | rejected h hc hp => exact .inr ⟨_, h, habout⟩
  | ok h hc hp hl => exact .inr ⟨_, h, habout⟩

theorem LoopSteps.vcpu {c : CpuId} {x x' : Vmx} {w w' : VcpuVmx} {o : EntryOutcome}
    {os : List EntryOutcome} {l : List Event} (h : LoopSteps c x w o os x' w' l) :
    w' = { w with launched := w'.launched } :=
  h.loopFrame.vcpu

/-- KVM_RUN leaves the vCPU its page. -/
theorem RunSteps.page {c : CpuId} {x x' : Vmx} {w w' : VcpuVmx} {o : RunCall} {l : List Event}
    (h : RunSteps c x w o x' w' l) : w'.vmcsPage = w.vmcsPage ∧ w'.vmcsPhys = w.vmcsPhys := by
  cases h with
  | notVmx hv => exact ⟨rfl, rfl⟩
  | ptrldFail hv hl ho => exact ⟨rfl, rfl⟩
  | ran hv hload hloop =>
    rw [hloop.vcpu]
    cases hload with
    | shortcut hl => exact ⟨rfl, rfl⟩
    | migrated hl ho h => exact ⟨rfl, rfl⟩

theorem OwnPages.update_none {ws : VcpuId → Option VcpuVmx} (h : OwnPages ws) (u : VcpuId) :
    OwnPages (Function.update ws u none) := by
  have hold : ∀ {u' v}, Function.update ws u none u' = some v → ws u' = some v := by
    intro u' v hv
    by_cases hu : u' = u
    · rw [hu, Function.update_self] at hv
      exact absurd hv (by simp)
    · rwa [Function.update_of_ne hu] at hv
  exact ⟨fun hv => h.page (hold hv), fun hv hv' heq => h.distinct (hold hv) (hold hv') heq⟩

theorem OwnPages.update_some {ws : VcpuId → Option VcpuVmx} (h : OwnPages ws) {u : VcpuId}
    {v : VcpuVmx} (hpage : ∃ page, v.vmcsPage = some page ∧ v.vmcsPhys = pageToPhys page)
    (hne : ∀ {u' v'}, u' ≠ u → ws u' = some v' → v'.vmcsPhys ≠ v.vmcsPhys) :
    OwnPages (Function.update ws u (some v)) := by
  have hold : ∀ {u' v'}, Function.update ws u (some v) u' = some v' →
      u' = u ∧ v' = v ∨ u' ≠ u ∧ ws u' = some v' := by
    intro u' v' hv
    by_cases hu : u' = u
    · rw [hu, Function.update_self] at hv
      exact .inl ⟨hu, (Option.some.inj hv).symm⟩
    · rw [Function.update_of_ne hu] at hv
      exact .inr ⟨hu, hv⟩
  refine ⟨fun hv => ?_, fun {u₁ u₂ v₁ v₂} hv hv' heq => ?_⟩
  · rcases hold hv with ⟨-, rfl⟩ | ⟨-, hv⟩
    · exact hpage
    · exact h.page hv
  · rcases hold hv with ⟨hu₁, hv₁⟩ | ⟨hu₁, hv₁⟩ <;> rcases hold hv' with ⟨hu₂, hv₂⟩ | ⟨hu₂, hv₂⟩
    · rw [hu₁, hu₂]
    · exact absurd (hv₁ ▸ heq.symm) (hne hu₂ hv₂)
    · exact absurd (hv₂ ▸ heq) (hne hu₁ hv₁)
    · exact h.distinct hv₁ hv₂ heq

theorem Op.FreshPage.phys_ne {ws : VcpuId → Option VcpuVmx} {u u' : VcpuId} {m : VmId} {c : CpuId}
    {o : SetupCall} {page : Pfn} {v : VcpuVmx} (h : (Op.setup u m c o).FreshPage ws)
    (hown : OwnPages ws) (ho : o.page = some page) (hv : ws u' = some v) :
    v.vmcsPhys ≠ pageToPhys page := by
  obtain ⟨page', hpage, hphys⟩ := hown.page hv
  intro heq
  have := pageToPhys_injective (hphys.symm.trans heq)
  exact h page u' v ho hv (this ▸ hpage)

theorem VStep.ownPages {x x' : Vmx} {ws ws' : VcpuId → Option VcpuVmx} {op : Op} {l : List Event}
    (h : VStep x ws op x' ws' l) (hown : OwnPages ws) (hfresh : op.FreshPage ws) :
    OwnPages ws' := by
  cases h with
  | setupIdle hu => exact hown
  | runIdle hu => exact hown
  | teardownIdle hu => exact hown
  | @setup u m c o r _ v _ hu h =>
    split
    · rename_i hr
      rw [hr] at h
      obtain ⟨page, ho, hv⟩ := h.page
      refine hown.update_some ⟨page, by rw [hv], by rw [hv]⟩ fun {u' v'} _ hv' => ?_
      rw [hv]
      exact hfresh.phys_ne hown ho hv'
    · exact hown.update_none _
  | run hu h =>
    obtain ⟨hpage, hphys⟩ := h.page
    refine hown.update_some ?_ fun hne hv' heq => ?_
    · rw [hpage, hphys]
      exact hown.page hu
    · exact hne (hown.distinct hv' hu (heq.trans hphys))
  | teardown hu h => exact hown.update_none _

/-- A call neither loads nor clears the VMCS of another vCPU. -/
theorem VStep.avoids {x x' : Vmx} {ws ws' : VcpuId → Option VcpuVmx} {op : Op} {l : List Event}
    (h : VStep x ws op x' ws' l) (hown : OwnPages ws) (hfresh : op.FreshPage ws) {u : VcpuId}
    {v : VcpuVmx} (hu : u ≠ op.vcpu) (hv : ws u = some v) : ∀ e ∈ l, e.Avoids v.vmcsPhys := by
  have hown' : ∀ {v'}, ws op.vcpu = some v' → v'.vmcsPhys ≠ v.vmcsPhys :=
    fun hv' heq => hu (hown.distinct hv hv' heq.symm)
  cases h with
  | setupIdle hu => exact fun e he => absurd he List.not_mem_nil
  | runIdle hu => exact fun e he => absurd he List.not_mem_nil
  | teardownIdle hu => exact fun e he => absurd he List.not_mem_nil
  | setup hu' h =>
    obtain rfl | ⟨page, ho, habout⟩ := h.about
    · exact fun e he => absurd he List.not_mem_nil
    · exact fun e he => (habout e he).avoids (hfresh.phys_ne hown ho hv).symm
  | run hu' h => exact fun e he => (h.follows.about e he).avoids (hown' hu')
  | teardown hu' h => exact fun e he => (h.follows.about e he).avoids (hown' hu')

/-- The holders after a call, from its events. -/
theorem VStep.holders {x x' : Vmx} {ws ws' : VcpuId → Option VcpuVmx} {op : Op} {l : List Event}
    (h : VStep x ws op x' ws' l) : (l.foldl Vmx.replay x).SameHolders x' := by
  cases h with
  | setupIdle hu => exact .refl x
  | runIdle hu => exact .refl x
  | teardownIdle hu => exact .refl x
  | setup hu h => exact h.follows.holders
  | run hu h => exact h.follows.holders
  | teardown hu h => exact h.follows.holders

theorem foldl_replay_online (l : List Event) (x : Vmx) :
    (l.foldl Vmx.replay x).online = x.online ∧ (l.foldl Vmx.replay x).vmxonDone = x.vmxonDone := by
  induction l generalizing x with
  | nil => exact ⟨rfl, rfl⟩
  | cons e l ih =>
    have he : (x.replay e).online = x.online ∧ (x.replay e).vmxonDone = x.vmxonDone := by
      cases e <;> exact ⟨rfl, rfl⟩
    obtain ⟨honline, hvmxon⟩ := ih (x.replay e)
    exact ⟨honline.trans he.1, hvmxon.trans he.2⟩

/-- No CPU is taken offline or leaves VMX operation. -/
theorem VStep.online {x x' : Vmx} {ws ws' : VcpuId → Option VcpuVmx} {op : Op} {l : List Event}
    (h : VStep x ws op x' ws' l) : x'.online = x.online ∧ x'.vmxonDone = x.vmxonDone := by
  obtain ⟨honline, hvmxon⟩ := foldl_replay_online l x
  exact ⟨h.holders.online.trans honline, h.holders.vmxonDone.trans hvmxon⟩

/-! ### Worlds -/

/-- The VMX state of the vCPUs. -/
def World.vcpuVmx (w : World) (u : VcpuId) : Option VcpuVmx := (w.vcpu u).map fun v => v.vcpu.vmx

theorem World.vcpuVmx_finish (w : World) (u : VcpuId) (m : VmId) (s : St)
    (v : Option MiniKvmVcpu) :
    (w.finish u m s v).vcpuVmx = Function.update w.vcpuVmx u (v.map MiniKvmVcpu.vmx) := by
  funext u'
  by_cases hu : u' = u
  · subst hu
    cases v <;> simp [World.vcpuVmx, World.finish]
  · simp [World.vcpuVmx, World.finish, hu]

theorem World.exec_setup {w : World} {u : VcpuId} {m : VmId} {cpu : CpuId} {o : SetupCall}
    {r : Int} {s : St} (hu : w.vcpu u = none)
    (h : (miniVcpuVmxSetup o).run (w.call cpu m .fresh []) = (r, s)) :
    w.exec (.setup u m cpu o) =
      (w.finish u m s (if r = 0 then some s.vcpu else none), s.trace) := by
  simp only [exec, hu, h]

theorem World.exec_run {w : World} {u : VcpuId} {v : LiveVcpu} {cpu : CpuId}
    {allocs : List (Option Pfn)} {o : RunCall} {r : Option Int} {s : St} (hu : w.vcpu u = some v)
    (h : (miniVcpuRunLoop o).run (w.call cpu v.vm v.vcpu allocs) = (r, s)) :
    w.exec (.run u cpu allocs o) = (w.finish u v.vm s (some s.vcpu), s.trace) := by
  simp only [exec, hu, h]

theorem World.exec_teardown {w : World} {u : VcpuId} {v : LiveVcpu} {cpu : CpuId} {ok : Bool}
    {r : Unit} {s : St} (hu : w.vcpu u = some v)
    (h : (miniVcpuVmxTeardown ok).run (w.call cpu v.vm v.vcpu []) = (r, s)) :
    w.exec (.teardown u cpu ok) = (w.finish u v.vm s none, s.trace) := by
  simp only [exec, hu, h]

/-- Every call of the code is a `VStep`. -/
theorem World.exec_vstep (w : World) (op : Op) :
    VStep w.hw.vmx w.vcpuVmx op (w.step op).hw.vmx (w.step op).vcpuVmx (w.events op) := by
  cases op with
  | setup u m cpu o =>
    cases hu : w.vcpu u with
    | some v =>
      have hexec : w.exec (.setup u m cpu o) = (w, []) := by simp only [exec, hu]
      rw [step, events, hexec]
      exact .setupIdle (v := v.vcpu.vmx) (by rw [vcpuVmx, hu, Option.map_some])
    | none =>
      -- a new vCPU, which is kept if the set-up succeeds
      obtain ⟨x, v, l, hsteps, he⟩ := miniVcpuVmxSetup_steps (w.call cpu m .fresh []) o rfl
      generalize hrun : (miniVcpuVmxSetup o).run (w.call cpu m .fresh []) = y at hsteps he
      obtain ⟨r, s⟩ := y
      have hv : (if r = 0 then some s.vcpu else none).map MiniKvmVcpu.vmx =
          if r = 0 then some v else none := by
        split
        · rw [Option.map_some, he.vcpu]
        · rfl
      have htrace : s.trace = l := he.trace
      have hvmx : s.hw.vmx = x := he.vmx
      rw [step, events, exec_setup hu hrun]
      dsimp only
      rw [vcpuVmx_finish, hv, htrace, finish, hvmx]
      exact .setup (by rw [vcpuVmx, hu, Option.map_none]) hsteps
  | run u cpu allocs o =>
    cases hu : w.vcpu u with
    | none =>
      have hexec : w.exec (.run u cpu allocs o) = (w, []) := by simp only [exec, hu]
      rw [step, events, hexec]
      exact .runIdle (by rw [vcpuVmx, hu, Option.map_none])
    | some v =>
      obtain ⟨x, v', l, hsteps, he⟩ := miniVcpuRunLoop_steps (w.call cpu v.vm v.vcpu allocs) o
      generalize hrun : (miniVcpuRunLoop o).run (w.call cpu v.vm v.vcpu allocs) = y at he
      obtain ⟨r, s⟩ := y
      have htrace : s.trace = l := he.trace
      have hvmx : s.hw.vmx = x := he.vmx
      have hv : s.vcpu.vmx = v' := he.vcpu
      rw [step, events, exec_run hu hrun]
      dsimp only
      rw [vcpuVmx_finish, Option.map_some, hv, htrace, finish, hvmx]
      exact .run (by rw [vcpuVmx, hu, Option.map_some, call]) hsteps
  | teardown u cpu ok =>
    cases hu : w.vcpu u with
    | none =>
      have hexec : w.exec (.teardown u cpu ok) = (w, []) := by simp only [exec, hu]
      rw [step, events, hexec]
      exact .teardownIdle (by rw [vcpuVmx, hu, Option.map_none])
    | some v =>
      obtain ⟨x, v', l, hsteps, he⟩ := miniVcpuVmxTeardown_steps (w.call cpu v.vm v.vcpu []) ok
      generalize hrun : (miniVcpuVmxTeardown ok).run (w.call cpu v.vm v.vcpu []) = y at he
      obtain ⟨r, s⟩ := y
      have htrace : s.trace = l := he.trace
      have hvmx : s.hw.vmx = x := he.vmx
      rw [step, events, exec_teardown hu hrun]
      dsimp only
      rw [vcpuVmx_finish, Option.map_none, htrace, finish, hvmx]
      exact .teardown (by rw [vcpuVmx, hu, Option.map_some, call]) hsteps

namespace World

theorem trace_step (w : World) (op : Op) : (w.step op).trace = w.trace ++ w.events op := by
  cases op with
  | setup u m cpu o =>
    rw [step, events, exec]
    cases w.vcpu u with
    | some v => exact (List.append_nil _).symm
    | none => rfl
  | run u cpu allocs o =>
    rw [step, events, exec]
    cases w.vcpu u with
    | some v => rfl
    | none => exact (List.append_nil _).symm
  | teardown u cpu ok =>
    rw [step, events, exec]
    cases w.vcpu u with
    | some v => rfl
    | none => exact (List.append_nil _).symm

theorem vcpuVmx_step_of_ne {w : World} {op : Op} {u : VcpuId} (hu : u ≠ op.vcpu) :
    (w.step op).vcpuVmx u = w.vcpuVmx u :=
  (w.exec_vstep op).others hu

/-! ### The start -/

/-- The module has just been loaded. -/
structure Boot (w : World) : Prop where
  vcpu : ∀ u, w.vcpu u = none
  trace : w.trace = []
  current : ∀ c, (w.hw.cpu c).current = none
  active : ∀ c p, (w.hw.cpu c).active p = false

theorem Boot.vcpuVmx {w : World} (h : w.Boot) {u : VcpuId} {v : VcpuVmx} :
    w.vcpuVmx u ≠ some v := by
  rw [World.vcpuVmx, h.vcpu u]
  simp

theorem Boot.ownPages {w : World} (h : w.Boot) : OwnPages w.vcpuVmx :=
  ⟨fun hv => absurd hv h.vcpuVmx, fun hv => absurd hv h.vcpuVmx⟩

/-- A machine whose CPUs are all in VMX operation. -/
def bootHw : Hw where
  cpu _ := ⟨true, true, none, fun _ => false, 0, default⟩
  vmcs _ := ⟨0, fun _ => 0, false⟩
  mem _ _ := 0
  ia32Emulation := true
  vmcsRevisionId := 0x12
  trueCtls := true

def boot : World where
  hw := bootHw
  kvm _ := default
  vcpu _ := none
  trace := []

theorem boot_boot : boot.Boot := ⟨fun _ => rfl, rfl, fun _ => rfl, fun _ _ => rfl⟩

/-- A setup on a processor with EPT, for which everything succeeds. -/
def setupCall (page : Pfn) : SetupCall where
  page := some page
  vmclearOk := true
  vmptrldOk := true
  rdmsr
    | .pinbased | .truePinbased => 0x0000007f00000016
    | .procbased => 0xfff9fffe0401e172
    | .trueProcbased => 0xfff9fffe04006172
    | .procbased2 => 0x00553cfe00000000
    | .exit | .trueExit => 0x01ffffff00036dfb
    | .entry | .trueEntry => 0x0003ffff000011fb
  unloadOk := true

/-- A KVM_RUN in which the guest executes HLT at once. -/
def haltRun : RunCall where
  clearOk := true
  ptrldOk := true
  inveptOk := true
  first := .exit { reason := 12, field := fun _ => 0, regs := fun _ => 0, kernelGsBase := 0 }
  rest := []

end World

end MiniVirt.Kvm
