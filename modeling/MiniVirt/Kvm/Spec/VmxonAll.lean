import MiniVirt.Kvm.Vmxon

/-!
# VMXON is all or nothing

The callbacks of `on_each_cpu()` share the error word and a counter, and everything else belongs to one CPU.  So what a
callback does depends on its own CPU and on whether another one has failed, and the callback of the rollback takes back
exactly what has been done (`vmxonLaw`), in whatever order they run.  A schedule that gives every callback as many turns
as it has steps leads all of them to their end.
-/

namespace MiniVirt.Kvm

/-! ### The law -/

/-- The state before the module enters VMX operation.  Other users of VMX may be active. -/
structure VmxonIdle (env : VmxonEnv) (s : VmxonState) : Prop where
  /-- VMX operation needs CR4.VMXE. -/
  vmxe : ∀ c, (s.cpu c).region ≠ none → (s.cpu c).vmxe = true
  vmxonDone : ∀ c, (s.cpu c).vmxonDone = false
  page : ∀ c, s.page c = none
  vmxEnableCount : s.vmxEnableCount = 0
  vmxEnabled : s.vmxEnabled = false
  /-- A region that is in use is not allocated. -/
  fresh : ∀ c c' p, env.page c = some p → (s.cpu c').region ≠ some p

/-- The page that an event gives back. -/
def RegionEvent.freed? : RegionEvent → Option Pfn
  | .alloc _ => none
  | .free page _ => page

/-- All pages are given back, once each and after their CPU has left VMX operation. -/
structure RegionsFreed (l : List RegionEvent) : Prop where
  once : ∀ p, .alloc p ∈ l → (l.filterMap RegionEvent.freed?).count p = 1
  left : ∀ page regions, .free page regions ∈ l → ∃ p, page = some p ∧ .alloc p ∈ l ∧ ∀ c, regions c ≠ some p

/-- The CPUs and the variables of the module in `s'` are what they were in `s`. -/
structure RolledBack (s s' : VmxonState) : Prop where
  cpu : s'.cpu = s.cpu
  page : s'.page = s.page
  vmxEnableCount : s'.vmxEnableCount = s.vmxEnableCount
  vmxEnabled : s'.vmxEnabled = s.vmxEnabled
  events : ∃ l, s'.events = s.events ++ l ∧ RegionsFreed l

/-- The schedule gives every callback `n` turns. -/
def CpuMasks.Turns (masks : CpuMasks) (n : Nat) (sched : List Nat) : Prop :=
  ∀ i < masks.online.length, n ≤ sched.count i

instance turns_decidable (masks : CpuMasks) (n : Nat) (sched : List Nat) : Decidable (masks.Turns n sched) :=
  inferInstanceAs (Decidable (∀ i < masks.online.length, n ≤ sched.count i))

/-- Every online CPU is in VMX operation with a region that is no other's. -/
structure AllOn (masks : CpuMasks) (s : VmxonState) : Prop where
  cpu : ∀ c ∈ masks.online, ∃ p, s.page c = some p ∧ s.cpu c = ⟨true, some p, true⟩
  own : ∀ c ∈ masks.online, ∀ c', s.regions c' = s.regions c → c' = c

variable {env : VmxonEnv} {masks : CpuMasks} {s₀ s s' : VmxonState}

/-- When `on_each_cpu()` returns, all callbacks have come to their end. -/
theorem onEachCpu_parts {τ : Type} {f : τ → StateM VmxonState τ} {start : CpuId → τ} {finished : τ → Bool}
    {key : τ → CpuId}
    {At : VmxonState → τ → Prop} {G : VmxonState → Prop} {n : VmxonState → Int} {w : VmxonState → τ → Int} {c₀ : Int}
    {sched : List Nat} (hf : Pool.OwnParts f key At G n w) (hkey : ∀ c, key (start c) = c) (hG : G s)
    (hat : ∀ c ∈ masks.online, At s (start c)) (hn : n s = c₀ + (masks.online.map fun c => w s (start c)).sum)
    (h : onEachCpu f start finished masks sched s = some s') :
    ∃ threads, (∀ t ∈ threads, finished t = true) ∧ Pool.Parts key At G n w masks.online c₀ ⟨s', threads⟩ := by
  have hstart : Pool.Parts key At G n w masks.online c₀ ⟨s, masks.online.map start⟩ := by
    refine ⟨?_, hG, fun t ht => ?_, ?_⟩
    · rw [List.map_map]
      exact (List.map_congr_left fun c _ => hkey c).trans (List.map_id _)
    · obtain ⟨c, hc, rfl⟩ := List.mem_map.1 ht
      exact hat c hc
    · rw [List.map_map]
      exact hn
  have hend := hstart.run hf masks.online_nodup sched
  unfold onEachCpu at h
  dsimp only at h
  split at h
  · rename_i hall
    obtain rfl := Option.some.inj h
    exact ⟨_, List.all_eq_true.1 hall, hend⟩
  · exact absurd h nofun

/-- `on_each_cpu()` returns under every schedule that gives each callback its turns. -/
theorem onEachCpu_returns {τ : Type} {f : τ → StateM VmxonState τ} {start : CpuId → τ} {finished : τ → Bool} {n : Nat}
    {sched : List Nat} (left : τ → Nat) (hstep : ∀ t s, left ((f t).run s).1 ≤ left t - 1)
    (hstart : ∀ c, left (start c) ≤ n) (hfinished : ∀ t, left t = 0 → finished t = true) (h : masks.Turns n sched)
    (s : VmxonState) : ∃ s', onEachCpu f start finished masks sched s = some s' := by
  have hall : (sched.foldl (Pool.exec f) ⟨s, masks.online.map start⟩).threads.all finished = true := by
    refine List.all_eq_true.2 fun t ht => hfinished t ?_
    obtain ⟨i, hi⟩ := List.mem_iff_getElem?.1 ht
    obtain ⟨t₀, ht₀, hleft⟩ := Pool.left_foldl_exec hstep sched hi
    have hlt : i < masks.online.length := by
      have := (List.getElem?_eq_some_iff.1 ht₀).1
      rwa [List.length_map] at this
    obtain ⟨c, -, rfl⟩ := List.mem_map.1 (List.mem_of_getElem? ht₀)
    -- a thread has at most as many steps left as it has turns
    have hturns := h i hlt
    have hn := hstart c
    omega
  unfold onEachCpu
  exact ⟨_, if_pos hall⟩

/-! ### Entering VMX operation -/

/-- The most steps that `mini_vmx_enable_one()` still makes. -/
def EnablePc.left : EnablePc → Nat
  | .fetchPage => 8
  | .readErr => 7
  | .checkSupported => 6
  | .readCr4 => 5
  | .setVmxe => 4
  | .vmxon => 3
  | .clearVmxe | .setDone => 2
  | .setErr _ | .incCount => 1
  | .returned => 0

/-- The CPU of a callback that is at `pc`, where `x₀` is how it was before; `err` is the error word. -/
def EnableGoes (x₀ : CpuVmx) (page : Option Pfn) (err : Int) : EnablePc → CpuVmx → Prop
  | .fetchPage, x | .readErr, x | .checkSupported, x | .readCr4, x => x = x₀
  | .setVmxe, x => x = x₀ ∧ x₀.vmxe = false
  | .vmxon, x | .clearVmxe, x => x = { x₀ with vmxe := true } ∧ x₀.vmxe = false
  | .setDone, x => x = { x₀ with vmxe := true, region := page } ∧ x₀.vmxe = false
  | .incCount, x => x = ⟨true, page, true⟩ ∧ x₀.vmxe = false
  | .setErr r, x => x = x₀ ∧ r ≠ 0
  | .returned, x => x = x₀ ∧ err ≠ 0 ∨ x = ⟨true, page, true⟩ ∧ x₀.vmxe = false

theorem EnableGoes.err {x₀ x : CpuVmx} {page : Option Pfn} {err err' : Int} {pc : EnablePc}
    (h : EnableGoes x₀ page err pc x) (herr : err ≠ 0 → err' ≠ 0) : EnableGoes x₀ page err' pc x := by
  cases pc with
  | returned => exact h.imp_left fun hsame => ⟨hsame.1, herr hsame.2⟩
  | _ => exact h

/-- Where a callback is, with its CPU as it was in `s₀`. -/
structure EnableAt (masks : CpuMasks) (s₀ s : VmxonState) (t : EnableThread) : Prop where
  online : t.cpu ∈ masks.online
  page : t.pc ≠ .fetchPage → t.page = s₀.page t.cpu
  goes : EnableGoes (s₀.cpu t.cpu) (s₀.page t.cpu) s.enableErr t.pc (s.cpu t.cpu)

/-- What the callbacks have in common. -/
structure SameAround (masks : CpuMasks) (s₀ s : VmxonState) : Prop where
  page : s.page = s₀.page
  vmxEnabled : s.vmxEnabled = s₀.vmxEnabled
  events : s.events = s₀.events
  offline : ∀ c, c ∉ masks.online → s.cpu c = s₀.cpu c

/-- The callback has entered VMX operation, and has been counted. -/
def enableCounted (s : VmxonState) (t : EnableThread) : Int :=
  if t.pc = .returned ∧ (s.cpu t.cpu).vmxonDone = true then 1 else 0

/-- A step of a callback for `c` touches nothing but its CPU, the error word and the counter. -/
structure StepOn (c : CpuId) (s s' : VmxonState) : Prop where
  page : s'.page = s.page
  vmxEnabled : s'.vmxEnabled = s.vmxEnabled
  events : s'.events = s.events
  cpu : ∀ c', c' ≠ c → s'.cpu c' = s.cpu c'

theorem StepOn.around {c : CpuId} (h : StepOn c s s') (hs : SameAround masks s₀ s) (hc : c ∈ masks.online) :
    SameAround masks s₀ s' := by
  refine ⟨h.page.trans hs.page, h.vmxEnabled.trans hs.vmxEnabled, h.events.trans hs.events, fun c' hc' => ?_⟩
  rw [h.cpu c' (fun heq => hc' (heq ▸ hc)), hs.offline c' hc']

theorem stepOn_setCpu (s : VmxonState) (c : CpuId) (f : CpuVmx → CpuVmx) : StepOn c s (s.setCpu c f) :=
  ⟨rfl, rfl, rfl, fun _ hne => Function.update_of_ne hne _ _⟩

@[simp]
theorem setCpu_self (s : VmxonState) (c : CpuId) (f : CpuVmx → CpuVmx) : (s.setCpu c f).cpu c = f (s.cpu c) :=
  Function.update_self _ _ _

theorem miniVmxEnableOne_run (s : VmxonState) (t : EnableThread) :
    (miniVmxEnableOne env t).run s =
      match t.pc with
      | .fetchPage => ({ t with page := s.page t.cpu, pc := .readErr }, s)
      | .readErr => ({ t with pc := if s.enableErr ≠ 0 then .returned else .checkSupported }, s)
      | .checkSupported => ({ t with pc := if env.supported t.cpu then .readCr4 else .setErr (-enodev) }, s)
      | .readCr4 => ({ t with pc := if (s.cpu t.cpu).vmxe then .setErr (-ebusy) else .setVmxe }, s)
      | .setVmxe => ({ t with pc := .vmxon }, s.setCpu t.cpu fun x => { x with vmxe := true })
      | .vmxon =>
        if env.vmxon t.cpu then ({ t with pc := .setDone }, s.setCpu t.cpu fun x => { x with region := t.page })
        else ({ t with pc := .clearVmxe }, s)
      | .clearVmxe => ({ t with pc := .setErr (-eio) }, s.setCpu t.cpu fun x => { x with vmxe := false })
      | .setDone => ({ t with pc := .incCount }, s.setCpu t.cpu fun x => { x with vmxonDone := true })
      | .incCount => ({ t with pc := .returned }, { s with vmxEnableCount := s.vmxEnableCount + 1 })
      | .setErr r => ({ t with pc := .returned }, { s with enableErr := r })
      | .returned => (t, s) := by
  obtain ⟨c, page, pc⟩ := t
  cases pc with
  | vmxon =>
    unfold miniVmxEnableOne
    dsimp only
    split <;> rfl
  | _ => rfl

theorem miniVmxEnableOne_stepOn (s : VmxonState) (t : EnableThread) :
    ((miniVmxEnableOne env t).run s).1.cpu = t.cpu ∧ StepOn t.cpu s ((miniVmxEnableOne env t).run s).2 := by
  have hsame : StepOn t.cpu s s := ⟨rfl, rfl, rfl, fun _ _ => rfl⟩
  rw [miniVmxEnableOne_run]
  split
  case h_6 =>
    split
    · exact ⟨rfl, stepOn_setCpu s t.cpu fun x => { x with region := t.page }⟩
    · exact ⟨rfl, hsame⟩
  case h_5 => exact ⟨rfl, stepOn_setCpu s t.cpu fun x => { x with vmxe := true }⟩
  case h_7 => exact ⟨rfl, stepOn_setCpu s t.cpu fun x => { x with vmxe := false }⟩
  case h_8 => exact ⟨rfl, stepOn_setCpu s t.cpu fun x => { x with vmxonDone := true }⟩
  case h_9 => exact ⟨rfl, rfl, rfl, rfl, fun _ _ => rfl⟩
  case h_10 => exact ⟨rfl, rfl, rfl, rfl, fun _ _ => rfl⟩
  all_goals exact ⟨rfl, hsame⟩

/-- A callback goes on where it is. -/
theorem miniVmxEnableOne_at (hdone : ∀ c, (s₀.cpu c).vmxonDone = false) (hs : SameAround masks s₀ s) {t : EnableThread}
    (h : EnableAt masks s₀ s t) :
    EnableAt masks s₀ ((miniVmxEnableOne env t).run s).2 ((miniVmxEnableOne env t).run s).1 ∧
      ((miniVmxEnableOne env t).run s).2.vmxEnableCount - s.vmxEnableCount =
        enableCounted ((miniVmxEnableOne env t).run s).2 ((miniVmxEnableOne env t).run s).1 - enableCounted s t := by
  obtain ⟨c, page, pc⟩ := t
  obtain ⟨honline, hpage, hgoes⟩ := h
  rw [miniVmxEnableOne_run]
  have hd : (s₀.cpu c).vmxonDone = false := hdone c
  dsimp only at honline hpage hgoes ⊢
  -- until the flag of the CPU is set, there is nothing to count
  have hcount (s : VmxonState) (pc : EnablePc) (hpc : pc ≠ .returned ∨ (s.cpu c).vmxonDone = false) :
      enableCounted s ⟨c, page, pc⟩ = 0 := by
    unfold enableCounted
    apply if_neg
    rintro ⟨hret, hset⟩
    obtain hne | hfalse := hpc
    · exact hne hret
    · exact Bool.noConfusion (hset.symm.trans hfalse)
  have hstill (s' : VmxonState) (pc pc' : EnablePc) (hn : s'.vmxEnableCount = s.vmxEnableCount) (hpc : pc ≠ .returned)
      (hpc' : pc' ≠ .returned ∨ (s'.cpu c).vmxonDone = false) :
      s'.vmxEnableCount - s.vmxEnableCount = enableCounted s' ⟨c, page, pc'⟩ - enableCounted s ⟨c, page, pc⟩ := by
    rw [hcount s' pc' hpc', hcount s pc (.inl hpc), hn]
    omega
  cases pc with
  | fetchPage =>
    refine ⟨⟨honline, fun _ => congrFun hs.page c, hgoes⟩, ?_⟩
    simp [enableCounted]
  | readErr =>
    have hsame : s.cpu c = s₀.cpu c := hgoes
    by_cases herr : s.enableErr ≠ 0
    · rw [if_pos herr]
      refine ⟨⟨honline, fun _ => hpage nofun, Or.inl ⟨hsame, herr⟩⟩, ?_⟩
      exact hstill _ _ _ rfl nofun (.inr (by rw [hsame, hd]))
    · rw [if_neg herr]
      refine ⟨⟨honline, fun _ => hpage nofun, hgoes⟩, ?_⟩
      exact hstill _ _ _ rfl nofun (.inl nofun)
  | checkSupported =>
    have hsame : s.cpu c = s₀.cpu c := hgoes
    by_cases hsup : env.supported c = true
    · rw [if_pos hsup]
      refine ⟨⟨honline, fun _ => hpage nofun, hgoes⟩, ?_⟩
      exact hstill _ _ _ rfl nofun (.inl nofun)
    · rw [if_neg hsup]
      refine ⟨⟨honline, fun _ => hpage nofun, hsame, by decide⟩, ?_⟩
      exact hstill _ _ _ rfl nofun (.inl nofun)
  | readCr4 =>
    have hsame : s.cpu c = s₀.cpu c := hgoes
    by_cases hvmxe : (s.cpu c).vmxe = true
    · rw [if_pos hvmxe]
      refine ⟨⟨honline, fun _ => hpage nofun, hsame, by decide⟩, ?_⟩
      exact hstill _ _ _ rfl nofun (.inl nofun)
    · rw [if_neg hvmxe]
      refine ⟨⟨honline, fun _ => hpage nofun, hsame, ?_⟩, ?_⟩
      · rw [← hsame]
        exact Bool.eq_false_iff.2 hvmxe
      · exact hstill _ _ _ rfl nofun (.inl nofun)
  | setVmxe =>
    dsimp only
    obtain ⟨hsame, hvmxe⟩ := hgoes
    refine ⟨⟨honline, fun _ => hpage nofun, ?_, hvmxe⟩, ?_⟩
    · rw [setCpu_self, hsame]
    · exact hstill _ _ _ rfl nofun (.inl nofun)
  | vmxon =>
    dsimp only
    obtain ⟨hset, hvmxe⟩ := hgoes
    by_cases hon : env.vmxon c = true
    · rw [if_pos hon]
      refine ⟨⟨honline, fun _ => hpage nofun, ?_, hvmxe⟩, ?_⟩
      · rw [setCpu_self, hset, hpage nofun]
      · exact hstill _ _ _ rfl nofun (.inl nofun)
    · rw [if_neg hon]
      refine ⟨⟨honline, fun _ => hpage nofun, hset, hvmxe⟩, ?_⟩
      exact hstill _ _ _ rfl nofun (.inl nofun)
  | clearVmxe =>
    dsimp only
    obtain ⟨hset, hvmxe⟩ := hgoes
    refine ⟨⟨honline, fun _ => hpage nofun, ?_, by decide⟩, ?_⟩
    · rw [setCpu_self, hset, ← hvmxe]
    · exact hstill _ _ _ rfl nofun (.inl nofun)
  | setDone =>
    dsimp only
    obtain ⟨hset, hvmxe⟩ := hgoes
    refine ⟨⟨honline, fun _ => hpage nofun, ?_, hvmxe⟩, ?_⟩
    · rw [setCpu_self, hset]
    · exact hstill _ _ _ rfl nofun (.inl nofun)
  | incCount =>
    obtain ⟨hset, hvmxe⟩ := hgoes
    refine ⟨⟨honline, fun _ => hpage nofun, Or.inr ⟨hset, hvmxe⟩⟩, ?_⟩
    -- the flag is set, so the callback counts from here on
    have hone : enableCounted { s with vmxEnableCount := s.vmxEnableCount + 1 } ⟨c, page, .returned⟩ = 1 :=
      if_pos ⟨rfl, congrArg CpuVmx.vmxonDone hset⟩
    rw [hone, hcount s .incCount (.inl nofun)]
    show s.vmxEnableCount + 1 - s.vmxEnableCount = 1 - 0
    omega
  | setErr r =>
    obtain ⟨hsame, hr⟩ := hgoes
    refine ⟨⟨honline, fun _ => hpage nofun, Or.inl ⟨hsame, hr⟩⟩, ?_⟩
    exact hstill _ _ _ rfl nofun (.inr (by rw [← hd, ← hsame]))
  | returned =>
    refine ⟨⟨honline, fun _ => hpage nofun, hgoes⟩, ?_⟩
    exact (sub_self _).trans (sub_self _).symm

/-- Once the error word is set, it stays so. -/
theorem miniVmxEnableOne_err {t : EnableThread} (h : EnableAt masks s₀ s t) (herr : s.enableErr ≠ 0) :
    ((miniVmxEnableOne env t).run s).2.enableErr ≠ 0 := by
  obtain ⟨c, page, pc⟩ := t
  rw [miniVmxEnableOne_run]
  cases pc with
  | setErr r => exact h.goes.2
  | vmxon =>
    dsimp only
    split <;> exact herr
  | _ => exact herr

theorem ownParts_enable (hdone : ∀ c, (s₀.cpu c).vmxonDone = false) :
    Pool.OwnParts (miniVmxEnableOne env) EnableThread.cpu (EnableAt masks s₀) (SameAround masks s₀)
      VmxonState.vmxEnableCount enableCounted where
  key_step s t := (miniVmxEnableOne_stepOn s t).1
  own s t hs h := ⟨(miniVmxEnableOne_stepOn s t).2.around hs h.online, miniVmxEnableOne_at hdone hs h⟩
  others s t u hs h hne hu := by
    have hcpu : ((miniVmxEnableOne env t).run s).2.cpu u.cpu = s.cpu u.cpu := (miniVmxEnableOne_stepOn s t).2.cpu _ hne
    constructor
    · refine ⟨hu.online, hu.page, ?_⟩
      rw [hcpu]
      exact hu.goes.err (miniVmxEnableOne_err h)
    · unfold enableCounted
      rw [hcpu]

/-- The number of online CPUs whose flag is set. -/
def onCount (masks : CpuMasks) (s : VmxonState) : Int :=
  (masks.online.map fun c => if (s.cpu c).vmxonDone then (1 : Int) else 0).sum

/-- What the callbacks leave: either all CPUs have entered VMX operation, or one of them has failed and no other one
has. -/
structure EnableLeaves (masks : CpuMasks) (s₀ s : VmxonState) : Prop where
  around : SameAround masks s₀ s
  online : ∀ c ∈ masks.online, s.cpu c = s₀.cpu c ∧ s.enableErr ≠ 0 ∨
    s.cpu c = ⟨true, s₀.page c, true⟩ ∧ (s₀.cpu c).vmxe = false
  count : s.vmxEnableCount = onCount masks s

theorem enableOnEach_leaves (hdone : ∀ c, (s₀.cpu c).vmxonDone = false) (hcount : s₀.vmxEnableCount = 0)
    {sched : List Nat} (h : enableOnEach env masks sched s₀ = some s) : EnableLeaves masks s₀ s := by
  have hzero : s₀.vmxEnableCount = 0 + (masks.online.map fun c => enableCounted s₀ ⟨c, none, .fetchPage⟩).sum := by
    have hnone : (fun c => enableCounted s₀ ⟨c, none, .fetchPage⟩) = fun _ => 0 :=
        funext fun c => if_neg fun h => nomatch h.1
    rw [hnone, hcount]
    simp
  have hstart : ∀ c ∈ masks.online, EnableAt masks s₀ s₀ ⟨c, none, .fetchPage⟩ := fun c hc =>
    ⟨hc, fun hne => absurd rfl hne, rfl⟩
  obtain ⟨threads, hover, hkeys, haround, hat, hn⟩ := onEachCpu_parts (ownParts_enable hdone) (fun _ => rfl)
    ⟨rfl, rfl, rfl, fun _ _ => rfl⟩ hstart hzero h
  refine ⟨haround, fun c hc => ?_, ?_⟩
  · rw [← hkeys] at hc
    obtain ⟨t, ht, rfl⟩ := List.mem_map.1 hc
    have hgoes := (hat t ht).goes
    rw [of_decide_eq_true (hover t ht)] at hgoes
    exact hgoes
  · -- the callbacks that count are those of the CPUs with the flag
    have hsum : (masks.online.map fun c => if (s.cpu c).vmxonDone then (1 : Int) else 0) =
        threads.map (enableCounted s) := by
      have hkeys' : threads.map EnableThread.cpu = masks.online := hkeys
      rw [← hkeys', List.map_map]
      apply List.map_congr_left
      intro t ht
      simp [enableCounted, of_decide_eq_true (hover t ht)]
    unfold onCount
    rw [hsum]
    exact hn.trans (zero_add _)

theorem enableOnEach_returns {sched : List Nat} (h : masks.Turns 8 sched) (s : VmxonState) :
    ∃ s', enableOnEach env masks sched s = some s' := by
  have hstep : ∀ (t : EnableThread) s, ((miniVmxEnableOne env t).run s).1.pc.left ≤ t.pc.left - 1 := by
    intro t s
    rw [miniVmxEnableOne_run]
    obtain ⟨c, page, pc⟩ := t
    cases pc with
    -- the failing branches are shorter, so the steps left may drop by more than one
    | readErr =>
      dsimp only
      split
      · exact Nat.zero_le _
      · exact Nat.le_refl _
    | checkSupported =>
      dsimp only
      split
      · exact Nat.le_refl _
      · exact Nat.le_add_left _ _
    | readCr4 =>
      dsimp only
      split
      · exact Nat.le_add_left _ _
      · exact Nat.le_refl _
    | vmxon =>
      dsimp only
      split
      · exact Nat.le_refl _
      · exact Nat.le_refl _
    | _ => exact Nat.le_refl _
  refine onEachCpu_returns (fun t => t.pc.left) hstep (fun _ => Nat.le_refl 8) (fun t ht => ?_) h s
  obtain ⟨c, page, pc⟩ := t
  cases pc with
  | returned => rfl
  | _ => cases ht

/-! ### Leaving VMX operation -/

/-- The most steps that `mini_vmx_disable_one()` still makes. -/
def DisablePc.left : DisablePc → Nat
  | .readDone => 5
  | .vmxoff => 4
  | .clearVmxe => 3
  | .clearDone => 2
  | .decCount => 1
  | .returned => 0

/-- The CPU of a callback that is at `pc`, where `x₀` is how it was before. -/
def DisableGoes (x₀ : CpuVmx) : DisablePc → CpuVmx → Prop
  | .readDone, x => x = x₀
  | .vmxoff, x => x = x₀ ∧ x₀.vmxonDone = true
  | .clearVmxe, x => x = { x₀ with region := none } ∧ x₀.vmxonDone = true
  | .clearDone, x => x = ⟨false, none, x₀.vmxonDone⟩ ∧ x₀.vmxonDone = true
  | .decCount, x => x = ⟨false, none, false⟩ ∧ x₀.vmxonDone = true
  | .returned, x => x = if x₀.vmxonDone then ⟨false, none, false⟩ else x₀

structure DisableAt (masks : CpuMasks) (s₀ s : VmxonState) (t : DisableThread) : Prop where
  online : t.cpu ∈ masks.online
  goes : DisableGoes (s₀.cpu t.cpu) t.pc (s.cpu t.cpu)

/-- The callback still has to count its CPU off. -/
def disableCounted (s : VmxonState) (t : DisableThread) : Int :=
  match t.pc with
  | .decCount => 1
  | .returned => 0
  | _ => if (s.cpu t.cpu).vmxonDone then 1 else 0

theorem miniVmxDisableOne_run (s : VmxonState) (t : DisableThread) :
    (miniVmxDisableOne t).run s =
      match t.pc with
      | .readDone => ({ t with pc := if (s.cpu t.cpu).vmxonDone then .vmxoff else .returned }, s)
      | .vmxoff => ({ t with pc := .clearVmxe }, s.setCpu t.cpu fun x => { x with region := none })
      | .clearVmxe => ({ t with pc := .clearDone }, s.setCpu t.cpu fun x => { x with vmxe := false })
      | .clearDone => ({ t with pc := .decCount }, s.setCpu t.cpu fun x => { x with vmxonDone := false })
      | .decCount => ({ t with pc := .returned }, { s with vmxEnableCount := s.vmxEnableCount - 1 })
      | .returned => (t, s) := by
  obtain ⟨c, pc⟩ := t
  cases pc <;> rfl

theorem miniVmxDisableOne_stepOn (s : VmxonState) (t : DisableThread) :
    ((miniVmxDisableOne t).run s).1.cpu = t.cpu ∧ StepOn t.cpu s ((miniVmxDisableOne t).run s).2 := by
  have hsame : StepOn t.cpu s s := ⟨rfl, rfl, rfl, fun _ _ => rfl⟩
  rw [miniVmxDisableOne_run]
  split
  case h_2 => exact ⟨rfl, stepOn_setCpu s t.cpu fun x => { x with region := none }⟩
  case h_3 => exact ⟨rfl, stepOn_setCpu s t.cpu fun x => { x with vmxe := false }⟩
  case h_4 => exact ⟨rfl, stepOn_setCpu s t.cpu fun x => { x with vmxonDone := false }⟩
  case h_5 => exact ⟨rfl, rfl, rfl, rfl, fun _ _ => rfl⟩
  all_goals exact ⟨rfl, hsame⟩

theorem miniVmxDisableOne_at {t : DisableThread} (h : DisableAt masks s₀ s t) :
    DisableAt masks s₀ ((miniVmxDisableOne t).run s).2 ((miniVmxDisableOne t).run s).1 ∧
      ((miniVmxDisableOne t).run s).2.vmxEnableCount - s.vmxEnableCount =
        disableCounted ((miniVmxDisableOne t).run s).2 ((miniVmxDisableOne t).run s).1 - disableCounted s t := by
  obtain ⟨c, pc⟩ := t
  obtain ⟨honline, hgoes⟩ := h
  rw [miniVmxDisableOne_run]
  cases pc with
  | readDone =>
    have hsame : s.cpu c = s₀.cpu c := hgoes
    dsimp only
    by_cases hset : (s.cpu c).vmxonDone = true
    · rw [if_pos hset]
      refine ⟨⟨honline, hsame, ?_⟩, ?_⟩
      · rwa [← hsame]
      · exact (sub_self _).trans (sub_self _).symm
    · -- a CPU without the flag is left alone
      rw [if_neg hset]
      refine ⟨⟨honline, ?_⟩, ?_⟩
      · show s.cpu c = if (s₀.cpu c).vmxonDone then _ else _
        rw [← hsame, if_neg hset]
      · have hzero : disableCounted s ⟨c, .readDone⟩ = 0 := if_neg hset
        rw [hzero]
        exact sub_self _
  | vmxoff =>
    obtain ⟨hsame, hset⟩ := hgoes
    dsimp only at hsame hset ⊢
    refine ⟨⟨honline, ?_, hset⟩, ?_⟩
    · rw [setCpu_self, hsame]
    · simp [disableCounted, VmxonState.setCpu]
  | clearVmxe =>
    obtain ⟨hoff, hset⟩ := hgoes
    dsimp only at hoff hset ⊢
    refine ⟨⟨honline, ?_, hset⟩, ?_⟩
    · rw [setCpu_self, hoff]
    · simp [disableCounted, VmxonState.setCpu]
  | clearDone =>
    obtain ⟨hoff, hset⟩ := hgoes
    dsimp only at hoff hset ⊢
    refine ⟨⟨honline, ?_, hset⟩, ?_⟩
    · rw [setCpu_self, hoff]
    · simp [disableCounted, VmxonState.setCpu, hoff, hset]
  -- until here the callback counts for the CPU that it has just disabled
  | decCount =>
    obtain ⟨hoff, hset⟩ := hgoes
    dsimp only at hoff hset ⊢
    refine ⟨⟨honline, ?_⟩, ?_⟩
    · show s.cpu c = if (s₀.cpu c).vmxonDone then _ else _
      rw [if_pos hset, hoff]
    · show s.vmxEnableCount - 1 - s.vmxEnableCount = 0 - 1
      omega
  | returned =>
    refine ⟨⟨honline, hgoes⟩, ?_⟩
    exact (sub_self _).trans (sub_self _).symm

theorem ownParts_disable :
    Pool.OwnParts miniVmxDisableOne DisableThread.cpu (DisableAt masks s₀) (SameAround masks s₀)
      VmxonState.vmxEnableCount disableCounted where
  key_step s t := (miniVmxDisableOne_stepOn s t).1
  own s t hs h := ⟨(miniVmxDisableOne_stepOn s t).2.around hs h.online, miniVmxDisableOne_at h⟩
  others s t u hs h hne hu := by
    have hcpu : ((miniVmxDisableOne t).run s).2.cpu u.cpu = s.cpu u.cpu := (miniVmxDisableOne_stepOn s t).2.cpu _ hne
    constructor
    · refine ⟨hu.online, ?_⟩
      rw [hcpu]
      exact hu.goes
    · unfold disableCounted
      rw [hcpu]

/-- The online CPUs whose flag was set have left VMX operation, and nothing else has changed. -/
structure DisableLeaves (masks : CpuMasks) (s₀ s : VmxonState) : Prop where
  around : SameAround masks s₀ s
  online : ∀ c ∈ masks.online, s.cpu c = if (s₀.cpu c).vmxonDone then ⟨false, none, false⟩ else s₀.cpu c
  count : s.vmxEnableCount = s₀.vmxEnableCount - onCount masks s₀

theorem disableOnEach_leaves {sched : List Nat} (h : disableOnEach masks sched s₀ = some s) :
    DisableLeaves masks s₀ s := by
  have hstart : ∀ c ∈ masks.online, DisableAt masks s₀ s₀ ⟨c, .readDone⟩ := fun c hc => ⟨hc, rfl⟩
  have hcount : s₀.vmxEnableCount = (s₀.vmxEnableCount - onCount masks s₀) +
      (masks.online.map fun c => disableCounted s₀ ⟨c, .readDone⟩).sum := (sub_add_cancel _ _).symm
  obtain ⟨threads, hover, hkeys, haround, hat, hn⟩ := onEachCpu_parts ownParts_disable (fun _ => rfl)
    ⟨rfl, rfl, rfl, fun _ _ => rfl⟩ hstart hcount h
  refine ⟨haround, fun c hc => ?_, ?_⟩
  · rw [← hkeys] at hc
    obtain ⟨t, ht, rfl⟩ := List.mem_map.1 hc
    have hgoes := (hat t ht).goes
    rw [of_decide_eq_true (hover t ht)] at hgoes
    exact hgoes
  · have hzero : threads.map (disableCounted s) = threads.map fun _ => 0 := by
      apply List.map_congr_left
      intro t ht
      unfold disableCounted
      rw [of_decide_eq_true (hover t ht)]
    rw [hzero] at hn
    simpa using hn

theorem disableOnEach_returns {sched : List Nat} (h : masks.Turns 5 sched) (s : VmxonState) :
    ∃ s', disableOnEach masks sched s = some s' := by
  have hstep : ∀ (t : DisableThread) s, ((miniVmxDisableOne t).run s).1.pc.left ≤ t.pc.left - 1 := by
    intro t s
    rw [miniVmxDisableOne_run]
    obtain ⟨c, pc⟩ := t
    cases pc with
    | readDone =>
      dsimp only
      split
      · exact Nat.le_refl _
      · exact Nat.zero_le _
    | _ => exact Nat.le_refl _
  refine onEachCpu_returns (fun t => t.pc.left) hstep (fun _ => Nat.le_refl 5) (fun t ht => ?_) h s
  obtain ⟨c, pc⟩ := t
  cases pc with
  | returned => rfl
  | _ => cases ht

/-! ### The region pages -/

/-- The state with the pages of the CPUs `cs` allocated. -/
def allocated (env : VmxonEnv) (s : VmxonState) (cs : List CpuId) : VmxonState :=
  { s with
    page := fun c => if c ∈ cs then env.page c else s.page c
    events := s.events ++ cs.filterMap fun c => (env.page c).map .alloc }

theorem takeWhile_ne {pre rest : List CpuId} {c : CpuId} (h : c ∉ pre) :
    (pre ++ c :: rest).takeWhile (fun c' => decide (c' ≠ c)) = pre := by
  rw [List.takeWhile_append_of_pos, List.takeWhile_cons_of_neg, List.append_nil]
  · simp
  · intro c' hc'
    apply decide_eq_true
    rintro rfl
    exact h hc'

/-- The allocations: all of them, or those before the first one that fails, and then they have been given back. -/
theorem allocRegions_cases {pre cs : List CpuId} (hcs : masks.possible = pre ++ cs) (s : VmxonState) :
    (∀ c ∈ cs, (env.page c).isSome) ∧ allocRegions env masks cs s = (true, allocated env s cs) ∨
      ∃ got rest, cs = got ++ rest ∧ (∀ c ∈ got, (env.page c).isSome) ∧
        allocRegions env masks cs s = (false, (pre ++ got).foldl freeRegion (allocated env s got)) := by
  have hnodup := masks.possible_nodup
  rw [hcs] at hnodup
  induction cs generalizing pre s with
  | nil =>
    refine .inl ⟨fun _ h => absurd h List.not_mem_nil, ?_⟩
    simp [allocRegions, allocated]
  | cons c cs ih =>
    have hc : c ∉ pre := fun hmem => (List.nodup_append.1 hnodup).2.2 c hmem c List.mem_cons_self rfl
    cases hpage : env.page c with
    | none =>
      refine .inr ⟨[], c :: cs, rfl, fun _ h => absurd h List.not_mem_nil, ?_⟩
      unfold allocRegions
      rw [hpage]
      dsimp only
      rw [hcs, takeWhile_ne hc]
      simp [allocated]
    | some p =>
      have happend : pre ++ c :: cs = (pre ++ [c]) ++ cs := by rw [List.append_assoc, List.singleton_append]
      -- the page is in place before the allocation for the next CPU
      have hstep (cs : List CpuId) : allocated env { s with
          page := Function.update s.page c (some p), events := s.events ++ [.alloc p] } cs =
        allocated env s (c :: cs) := by
        unfold allocated
        dsimp only
        congr 1
        · funext c'
          by_cases heq : c' = c
          · subst heq
            by_cases hmem : c' ∈ cs
            · rw [if_pos hmem, if_pos (List.mem_cons_of_mem c' hmem)]
            · rw [if_neg hmem, if_pos List.mem_cons_self, Function.update_self, hpage]
          · rw [Function.update_of_ne heq]
            simp [heq]
        · rw [List.filterMap_cons, hpage, Option.map_some, List.append_assoc, List.singleton_append]
      have hrun : allocRegions env masks (c :: cs) s = allocRegions env masks cs { s with
          page := Function.update s.page c (some p), events := s.events ++ [.alloc p] } := by
        conv_lhs => unfold allocRegions
        rw [hpage]
      rw [happend] at hcs hnodup
      rw [hrun]
      obtain ⟨hall, hok⟩ | ⟨got, rest, rfl, hall, hfail⟩ := ih hcs _ hnodup
      · refine .inl ⟨fun c' hc' => ?_, hok.trans (by rw [hstep])⟩
        obtain rfl | hc' := List.mem_cons.1 hc'
        · rw [hpage]
          rfl
        · exact hall c' hc'
      · refine .inr ⟨c :: got, rest, rfl, fun c' hc' => ?_, ?_⟩
        · obtain rfl | hc' := List.mem_cons.1 hc'
          · rw [hpage]
            rfl
          · exact hall c' hc'
        · rw [hfail, hstep, List.append_assoc, List.singleton_append]

/-- The state after the pages of the CPUs `cs` have been given back. -/
theorem foldl_freeRegion {cs : List CpuId} (hnodup : cs.Nodup) (s : VmxonState) :
    cs.foldl freeRegion s = { s with
      page := fun c => if c ∈ cs then none else s.page c
      events := s.events ++ cs.map fun c => .free (s.page c) s.regions } := by
  induction cs generalizing s with
  | nil => simp
  | cons c cs ih =>
    rw [List.nodup_cons] at hnodup
    rw [List.foldl_cons, ih hnodup.2]
    unfold freeRegion
    dsimp only
    congr 1
    · funext c'
      by_cases heq : c' = c
      · simp [heq]
      · simp [heq]
    · rw [List.map_cons, List.append_assoc, List.singleton_append]
      congr 2
      apply List.map_congr_left
      intro c' hc'
      have hne : c' ≠ c := fun heq => hnodup.1 (heq ▸ hc')
      rw [Function.update_of_ne hne]
      rfl

/-- Every page that is allocated is given back if the CPUs are those of the allocations. -/
theorem regionsFreed_of {cs : List CpuId} {regions : CpuId → Option Pfn} (hnodup : cs.Nodup)
    (hall : ∀ c ∈ cs, (env.page c).isSome) (hfresh : ∀ c c' p, env.page c = some p → regions c' ≠ some p) :
    RegionsFreed (cs.filterMap (fun c => (env.page c).map .alloc) ++ cs.map fun c => .free (env.page c) regions) := by
  have hmem {p : Pfn} : RegionEvent.alloc p ∈ cs.filterMap (fun c => (env.page c).map .alloc) ++
      cs.map (fun c => .free (env.page c) regions) ↔ p ∈ cs.filterMap env.page := by
    simp
  have hfreed : (cs.filterMap (fun c => (env.page c).map RegionEvent.alloc) ++
      cs.map fun c => RegionEvent.free (env.page c) regions).filterMap RegionEvent.freed? = cs.filterMap env.page := by
    rw [List.filterMap_append, List.filterMap_filterMap, List.filterMap_map]
    have hnone : cs.filterMap (fun c => ((env.page c).map RegionEvent.alloc).bind RegionEvent.freed?) = [] := by
      rw [List.filterMap_eq_nil_iff]
      intro c _
      cases env.page c <;> rfl
    rw [hnone]
    rfl
  constructor
  · intro p hp
    rw [hfreed]
    have hnd : (cs.filterMap env.page).Nodup := hnodup.filterMap fun c c' p hc hc' => env.page_inj c c' p hc hc'
    exact List.count_eq_one_of_mem hnd (hmem.1 hp)
  · intro page regions' hfree
    obtain ⟨c, hc, heq⟩ : ∃ c ∈ cs, RegionEvent.free (env.page c) regions = .free page regions' := by
      simpa using hfree
    obtain ⟨rfl, rfl⟩ := RegionEvent.free.inj heq
    obtain ⟨p, hp⟩ := Option.isSome_iff_exists.1 (hall c hc)
    exact ⟨p, hp, hmem.2 (List.mem_filterMap.2 ⟨c, hc, hp⟩), fun c' => hfresh c c' p hp⟩

/-! ### The two functions -/

/-- The pages of all possible CPUs, given back at the end. -/
theorem foldl_freeRegion_isSome {cs : List CpuId} (hnodup : cs.Nodup) {s : VmxonState}
    (hall : ∀ c ∈ cs, (s.page c).isSome = true) :
    cs.foldl (fun s c => if (s.page c).isSome then freeRegion s c else s) s = cs.foldl freeRegion s := by
  induction cs generalizing s with
  | nil => rfl
  | cons c cs ih =>
    rw [List.nodup_cons] at hnodup
    rw [List.foldl_cons, List.foldl_cons, if_pos (hall c List.mem_cons_self)]
    apply ih hnodup.2
    intro c' hc'
    have hne : c' ≠ c := fun heq => hnodup.1 (heq ▸ hc')
    show (Function.update s.page c none c').isSome = true
    rw [Function.update_of_ne hne]
    exact hall c' (List.mem_cons_of_mem c hc')

/-- The state in which the callbacks start. -/
def enableStart (env : VmxonEnv) (masks : CpuMasks) (s : VmxonState) : VmxonState :=
  { allocated env s masks.possible with enableErr := 0, vmxEnableCount := 0 }

/-- After the callbacks of both kinds, every CPU is as it was. -/
theorem disabled_cpu {s₁ s₂ : VmxonState} (h : VmxonIdle env s) (hon : EnableLeaves masks (enableStart env masks s) s₁)
    (hcpu : s₂.cpu = s₁.cpu) (hoff : DisableLeaves masks s₂ s') : s'.cpu = s.cpu := by
  funext c
  by_cases hc : c ∈ masks.online
  · rw [hoff.online c hc, hcpu]
    obtain ⟨hsame, -⟩ | ⟨hset, hvmxe⟩ := hon.online c hc
    · have hsame' : s₁.cpu c = s.cpu c := hsame
      rw [hsame', if_neg (by rw [h.vmxonDone c]; decide)]
    · have hvmxe' : (s.cpu c).vmxe = false := hvmxe
      have hregion : (s.cpu c).region = none := by
        by_contra hne
        exact Bool.noConfusion ((h.vmxe c hne).symm.trans hvmxe')
      rw [hset, if_pos rfl]
      show (⟨false, none, false⟩ : CpuVmx) = ⟨(s.cpu c).vmxe, (s.cpu c).region, (s.cpu c).vmxonDone⟩
      rw [hvmxe', hregion, h.vmxonDone c]
  · rw [hoff.around.offline c hc, hcpu, hon.around.offline c hc]
    rfl

theorem disabled_rolledBack {s₁ s₂ : VmxonState} (h : VmxonIdle env s)
    (hall : ∀ c ∈ masks.possible, (env.page c).isSome)
    (hon : EnableLeaves masks (enableStart env masks s) s₁) (hcpu : s₂.cpu = s₁.cpu) (hpage : s₂.page = s₁.page)
    (hevents : s₂.events = s₁.events) (hcount : s₂.vmxEnableCount = s₁.vmxEnableCount)
    (hoff : DisableLeaves masks s₂ s') :
    RolledBack s { masks.possible.foldl freeRegion s' with vmxEnabled := false } := by
  have hsame := disabled_cpu h hon hcpu hoff
  have hpage' : s'.page = (allocated env s masks.possible).page := hoff.around.page.trans (hpage.trans hon.around.page)
  -- no CPU is in VMX operation with one of the pages when they are freed
  have hregions : s'.regions = s.regions := by
    funext c
    unfold VmxonState.regions
    rw [hsame]
  rw [foldl_freeRegion masks.possible_nodup]
  refine ⟨hsame, ?_, ?_, h.vmxEnabled.symm, _, ?_, regionsFreed_of masks.possible_nodup hall h.fresh⟩
  · funext c
    show (if c ∈ masks.possible then none else s'.page c) = s.page c
    rw [hpage']
    unfold allocated
    dsimp only
    split
    · exact (h.page c).symm
    · rfl
  · show s'.vmxEnableCount = s.vmxEnableCount
    have hdone : onCount masks s₂ = onCount masks s₁ := by
      unfold onCount
      rw [hcpu]
    rw [hoff.count, hcount, hon.count, hdone, sub_self, h.vmxEnableCount]
  · show s'.events ++ _ = _
    have hpages : masks.possible.map (fun c => RegionEvent.free (s'.page c) s'.regions) =
        masks.possible.map fun c => RegionEvent.free (env.page c) s.regions := by
      apply List.map_congr_left
      intro c hc
      rw [hpage', hregions]
      unfold allocated
      dsimp only
      rw [if_pos hc]
    rw [hpages, hoff.around.events, hevents, hon.around.events, ← List.append_assoc]
    rfl

theorem allOn_of_leaves {s₁ : VmxonState} (h : VmxonIdle env s) (hall : ∀ c ∈ masks.possible, (env.page c).isSome)
    (hon : EnableLeaves masks (enableStart env masks s) s₁) (herr : s₁.enableErr = 0) :
    AllOn masks { s₁ with vmxEnabled := true } := by
  have hpage : ∀ c ∈ masks.online, s₁.page c = env.page c := by
    intro c hc
    rw [hon.around.page]
    exact if_pos (masks.online_possible c hc)
  have hset : ∀ c ∈ masks.online, s₁.cpu c = ⟨true, env.page c, true⟩ := by
    intro c hc
    obtain ⟨-, hfail⟩ | ⟨hset, -⟩ := hon.online c hc
    · exact absurd herr hfail
    · rw [hset, ← hon.around.page, hpage c hc]
  constructor
  · intro c hc
    obtain ⟨p, hp⟩ := Option.isSome_iff_exists.1 (hall c (masks.online_possible c hc))
    exact ⟨p, (hpage c hc).trans hp, (hset c hc).trans (by rw [hp])⟩
  · intro c hc c' heq
    obtain ⟨p, hp⟩ := Option.isSome_iff_exists.1 (hall c (masks.online_possible c hc))
    have heq' : (s₁.cpu c').region = some p := by
      refine Eq.trans heq ?_
      show (s₁.cpu c).region = some p
      rw [hset c hc, hp]
    by_cases hc' : c' ∈ masks.online
    · rw [hset c' hc'] at heq'
      exact env.page_inj c' c p heq' hp
    · -- an offline CPU, in use by somebody else
      rw [hon.around.offline c' hc'] at heq'
      exact absurd heq' (h.fresh c c' p hp)

theorem miniVmxHardwareEnableAll_returns {sched schedOff : List Nat} (h : masks.Turns 8 sched)
    (hoff : masks.Turns 5 schedOff) (s : VmxonState) :
    ∃ r s', miniVmxHardwareEnableAll env masks sched schedOff s = some (r, s') := by
  unfold miniVmxHardwareEnableAll
  generalize allocRegions env masks masks.possible s = y
  obtain ⟨ok, s₁⟩ := y
  cases ok with
  | false => exact ⟨_, _, rfl⟩
  | true =>
    obtain ⟨s₂, hs₂⟩ := enableOnEach_returns h { s₁ with enableErr := 0, vmxEnableCount := 0 }
    obtain ⟨s₃, hs₃⟩ := disableOnEach_returns hoff s₂
    dsimp only
    rw [hs₂]
    dsimp only
    split
    · rw [hs₃]
      exact ⟨_, _, rfl⟩
    · exact ⟨_, _, rfl⟩

theorem miniVmxHardwareDisableAll_returns {sched : List Nat} (h : masks.Turns 5 sched) (s : VmxonState) :
    ∃ s', miniVmxHardwareDisableAll masks sched s = some s' := by
  unfold miniVmxHardwareDisableAll
  obtain ⟨s', hs'⟩ := disableOnEach_returns h s
  split
  · exact ⟨_, rfl⟩
  · rw [hs']
    exact ⟨_, rfl⟩

/-- What holds when `mini_vmx_hardware_enable_all()` has returned. -/
theorem miniVmxHardwareEnableAll_law (h : VmxonIdle env s) {sched schedOff : List Nat} {r : Int}
    (hrun : miniVmxHardwareEnableAll env masks sched schedOff s = some (r, s')) :
    (r ≠ 0 → RolledBack s s') ∧
      (r = 0 → AllOn masks s' ∧ ∀ schedOff' s'', miniVmxHardwareDisableAll masks schedOff' s' = some s'' →
        RolledBack s s'') := by
  unfold miniVmxHardwareEnableAll at hrun
  obtain ⟨hall, halloc⟩ | ⟨got, rest, hcs, hall, halloc⟩ :=
    @allocRegions_cases env masks [] masks.possible (List.nil_append masks.possible).symm s
  · rw [halloc] at hrun
    dsimp only at hrun
    split at hrun
    · exact absurd hrun nofun
    rename_i s₁ hsched
    have hon : EnableLeaves masks (enableStart env masks s) s₁ := enableOnEach_leaves h.vmxonDone rfl hsched
    split at hrun
    · -- one of the callbacks has failed
      rename_i herr
      split at hrun
      · exact absurd hrun nofun
      rename_i s₂ hschedOff
      obtain ⟨rfl, rfl⟩ := Prod.mk.inj (Option.some.inj hrun)
      refine ⟨fun _ => ?_, fun hr => absurd hr herr⟩
      have hoff := disableOnEach_leaves hschedOff
      obtain ⟨hcpu, hpage, hcount, -, hevents⟩ := disabled_rolledBack h hall hon rfl rfl rfl rfl hoff
      refine ⟨hcpu, hpage, hcount, ?_, hevents⟩
      rw [foldl_freeRegion masks.possible_nodup]
      exact hoff.around.vmxEnabled.trans hon.around.vmxEnabled
    · rename_i herr
      obtain ⟨rfl, rfl⟩ := Prod.mk.inj (Option.some.inj hrun)
      -- success, and a later call to disable
      refine ⟨fun hr => absurd rfl hr,
        fun _ => ⟨allOn_of_leaves h hall hon (not_not.1 herr), fun schedOff' s'' hdis => ?_⟩⟩
      unfold miniVmxHardwareDisableAll at hdis
      rw [if_neg (show ¬(!true) = true by decide)] at hdis
      split at hdis
      · exact absurd hdis nofun
      rename_i s₂ hschedOff
      have hoff := disableOnEach_leaves hschedOff
      have hpages : ∀ c ∈ masks.possible, (s₂.page c).isSome = true := by
        intro c hc
        rw [hoff.around.page]
        show (s₁.page c).isSome = true
        rw [hon.around.page]
        show (if c ∈ masks.possible then env.page c else s.page c).isSome = true
        rw [if_pos hc]
        exact hall c hc
      rw [foldl_freeRegion_isSome masks.possible_nodup hpages] at hdis
      obtain rfl := Option.some.inj hdis
      refine disabled_rolledBack h hall hon ?_ ?_ ?_ ?_ hoff <;> rfl
  · -- an allocation has failed
    rw [halloc] at hrun
    obtain ⟨rfl, rfl⟩ := Prod.mk.inj (Option.some.inj hrun)
    have hnodup : got.Nodup := by
      have hpossible := masks.possible_nodup
      rw [hcs] at hpossible
      exact (List.nodup_append.1 hpossible).1
    refine ⟨fun _ => ?_, fun hr => absurd hr (by decide)⟩
    rw [List.nil_append, foldl_freeRegion hnodup]
    refine ⟨rfl, ?_, rfl, rfl, _, ?_, regionsFreed_of hnodup hall h.fresh⟩
    · funext c
      show (if c ∈ got then none else if c ∈ got then env.page c else s.page c) = s.page c
      split
      · exact (h.page c).symm
      · rfl
    · show (s.events ++ _) ++
        got.map (fun c => RegionEvent.free (if c ∈ got then env.page c else s.page c) s.regions) = _
      have hpages : got.map (fun c => RegionEvent.free (if c ∈ got then env.page c else s.page c) s.regions) =
          got.map fun c => RegionEvent.free (env.page c) s.regions := by
        apply List.map_congr_left
        intro c hc
        rw [if_pos hc]
      rw [hpages, List.append_assoc]
      rfl

/-- Whatever the environment answers and in whatever order the callbacks run: an error leaves everything as it was, and
success can be taken back. -/
theorem vmxonLaw (h : VmxonIdle env s) (masks : CpuMasks) :
    (∀ sched schedOff, masks.Turns 8 sched → masks.Turns 5 schedOff →
      ∃ r s', miniVmxHardwareEnableAll env masks sched schedOff s = some (r, s')) ∧
    ∀ sched schedOff r s', miniVmxHardwareEnableAll env masks sched schedOff s = some (r, s') →
      (r ≠ 0 → RolledBack s s') ∧
        (r = 0 → AllOn masks s' ∧
          (∀ schedOff', masks.Turns 5 schedOff' → ∃ s'', miniVmxHardwareDisableAll masks schedOff' s' = some s'') ∧
            ∀ schedOff' s'', miniVmxHardwareDisableAll masks schedOff' s' = some s'' → RolledBack s s'') := by
  refine ⟨fun _ _ hsched hoff => miniVmxHardwareEnableAll_returns hsched hoff s, fun sched schedOff r s' hrun => ?_⟩
  obtain ⟨herror, hok⟩ := miniVmxHardwareEnableAll_law h hrun
  refine ⟨herror, fun hr => ?_⟩
  obtain ⟨hon, hback⟩ := hok hr
  exact ⟨hon, fun _ hoff => miniVmxHardwareDisableAll_returns hoff s', hback⟩

/-- Two CPUs, both online. -/
def twoCpus : CpuMasks where
  possible := [0, 1]
  online := [0, 1]
  possible_nodup := by decide
  online_nodup := by decide
  online_possible := fun _ h => h

/-- Everything succeeds on them, but for VMXON on the CPUs in `failing`. -/
def twoEnv (failing : List CpuId) : VmxonEnv where
  page
    | 0 => some 0x100
    | 1 => some 0x101
    | _ => none
  page_inj := by
    intro c c' p h h'
    match c, c' with
    | 0, 0 => rfl
    | 1, 1 => rfl
    | 0, 1 => cases h.trans h'.symm
    | 1, 0 => cases h.trans h'.symm
    | 0, _ + 2 => cases h'
    | 1, _ + 2 => cases h'
    | _ + 2, _ => cases h
  supported _ := true
  vmxon c := c ∉ failing

def vmxonOff : VmxonState where
  cpu _ := ⟨false, none, false⟩
  page _ := none
  enableErr := 0
  vmxEnableCount := 0
  vmxEnabled := false
  events := []

theorem vmxonOff_idle (failing : List CpuId) : VmxonIdle (twoEnv failing) vmxonOff where
  vmxe _ h := absurd rfl h
  vmxonDone _ := rfl
  page _ := rfl
  vmxEnableCount := rfl
  vmxEnabled := rfl
  fresh _ _ _ _ := nofun

/-- The callbacks take turns.  With success everywhere, VMX operation is left again; with a failure of VMXON on CPU 1
that CPU 0 does not see, CPU 0 leaves it. -/
theorem vmxonLaw_two :
    let sched := [0, 1, 0, 1, 0, 1, 0, 1, 0, 1, 0, 1, 0, 1, 0, 1]
    let schedOff := [1, 0, 0, 1, 1, 0, 1, 0, 0, 1]
    (∃ s' s'', miniVmxHardwareEnableAll (twoEnv []) twoCpus sched schedOff vmxonOff = some (0, s') ∧ AllOn twoCpus s' ∧
      miniVmxHardwareDisableAll twoCpus schedOff s' = some s'' ∧ RolledBack vmxonOff s'') ∧
    ∃ s', miniVmxHardwareEnableAll (twoEnv [1]) twoCpus sched schedOff vmxonOff = some (-eio, s') ∧
      RolledBack vmxonOff s' := by
  intro sched schedOff
  have hsched : twoCpus.Turns 8 sched := by decide
  have hoff : twoCpus.Turns 5 schedOff := by decide
  constructor
  · obtain ⟨hreturns, hlaw⟩ := vmxonLaw (vmxonOff_idle []) twoCpus
    obtain ⟨r, s', hrun⟩ := hreturns sched schedOff hsched hoff
    have hr : r = 0 := by
      have hfst : (miniVmxHardwareEnableAll (twoEnv []) twoCpus sched schedOff vmxonOff).map Prod.fst = some 0 := by
        decide
      rw [hrun] at hfst
      exact Option.some.inj hfst
    obtain ⟨hon, hleaves, hback⟩ := (hlaw sched schedOff r s' hrun).2 hr
    obtain ⟨s'', hdis⟩ := hleaves schedOff hoff
    exact ⟨s', s'', hr ▸ hrun, hon, hdis, hback schedOff s'' hdis⟩
  · obtain ⟨hreturns, hlaw⟩ := vmxonLaw (vmxonOff_idle [1]) twoCpus
    obtain ⟨r, s', hrun⟩ := hreturns sched schedOff hsched hoff
    have hr : r = -eio := by
      have hfst : (miniVmxHardwareEnableAll (twoEnv [1]) twoCpus sched schedOff vmxonOff).map Prod.fst =
          some (-eio) := by
        decide
      rw [hrun] at hfst
      exact Option.some.inj hfst
    refine ⟨s', hr ▸ hrun, (hlaw sched schedOff r s' hrun).1 ?_⟩
    rw [hr]
    decide

end MiniVirt.Kvm
