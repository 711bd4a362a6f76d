import Xhyve.Lib.Transition
import Xhyve.Vmm.LapicDest

/-!
# Starting the application processors

INIT and STARTUP as the boot processor writes them to its ICR, and the exit that makes the process start
a vCPU. `vlapic_icrlo_write_handler` takes any APIC id below `VM_MAXCPU`; `vmexit_spinup_ap` asserts that
the id is one of the configured vCPUs.
-/

namespace Xhyve.Vmm.ApStartup

open Xhyve.Lib
open Xhyve.Vmm.LapicDest (vmMaxcpu apicVectorMask apicDelmodeMask apicDelmodeFixed apicDelmodeNmi
  apicDelstatPend)

def apicDelmodeInit : BitVec 64 := 0x500
def apicDelmodeStartup : BitVec 64 := 0x600
def apicLevelMask : BitVec 64 := 0x4000
def apicLevelDeassert : BitVec 64 := 0x0000
def pageShift : Nat := 12
def bsp : Nat := 0

inductive BootState
  | init | sipi | running
deriving DecidableEq, Repr

/-- `VM_EXITCODE_SPINUP_AP`. -/
structure SpinupAp where
  vcpu : Nat
  rip : Nat
deriving DecidableEq, Repr

/-- What has happened: INIT IPIs by sender and destination field, and vCPUs that were started. -/
inductive Event
  | init (sender dest : Nat)
  | start (vcpu : Nat)
deriving DecidableEq, Repr

structure Machine where
  guestNcpus : Nat
  bootState : Nat → BootState
  activeCpus : Finset Nat
  cpumask : Finset Nat
  /-- The exit a vCPU has to handle before it runs again. -/
  exit : Nat → Option SpinupAp
  /-- Newest first. -/
  log : List Event

/-! ## The local APIC -/

def icrval (lo hi : BitVec 32) : BitVec 64 :=
  (hi.setWidth 64 <<< 32) ||| (lo &&& ~~~apicDelstatPend).setWidth 64

def icrDest (x2apic : Bool) (lo hi : BitVec 32) : Nat :=
  if x2apic then (icrval lo hi >>> 32).toNat else (icrval lo hi >>> (32 + 24)).toNat

def icrMode (lo hi : BitVec 32) : BitVec 64 := icrval lo hi &&& apicDelmodeMask 64

/-- `vlapic_icrlo_write_handler`; `none` is a return of 1, with which the process ends. Fixed and NMI
delivery touch nothing here. -/
def vlapicIcrloWriteHandler (m : Machine) (vcpuid : Nat) (x2apic : Bool) (lo hi : BitVec 32) :
    Option Machine :=
  let dest := icrDest x2apic lo hi
  let mode := icrMode lo hi
  let vec := (icrval lo hi &&& apicVectorMask 64).toNat
  if mode = apicDelmodeFixed 64 ∨ mode = apicDelmodeNmi 64 then some m
  else if mode = apicDelmodeInit then
    if icrval lo hi &&& apicLevelMask = apicLevelDeassert then some m
    else
      let m := { m with log := .init vcpuid dest :: m.log }
      if vcpuid = 0 ∧ dest ≠ 0 ∧ dest < vmMaxcpu then
        if m.bootState dest = .init then
          some { m with bootState := Function.update m.bootState dest .sipi }
        else some m
      else none
  else if mode = apicDelmodeStartup then
    if vcpuid = 0 ∧ dest ≠ 0 ∧ dest < vmMaxcpu then
      if m.bootState dest ≠ .sipi then some m
      else some { m with
        bootState := Function.update m.bootState dest .running
        exit := Function.update m.exit vcpuid (some ⟨dest, vec <<< pageShift⟩) }
    else none
  else none

/-! ## The process -/

def vmActivateCpu (m : Machine) (vcpuid : Nat) : Except String Machine :=
  if vmMaxcpu ≤ vcpuid then .error "EINVAL"
  else if vcpuid ∈ m.activeCpus then .error "EBUSY"
  else .ok { m with activeCpus := insert vcpuid m.activeCpus }

def vcpuAdd (m : Machine) (fromcpu newcpu : Nat) : Except String Machine :=
  if fromcpu ≠ bsp then .error "fromcpu == BSP"
  else
    match vmActivateCpu m newcpu with
    | .error _ => .error "error == 0"
    | .ok m => .ok { m with cpumask := insert newcpu m.cpumask }

/-- The assertion that fails, or the machine with the vCPU started. -/
def vmexitSpinupAp (m : Machine) (pvcpu : Nat) (vme : SpinupAp) : Except String Machine :=
  if vme.vcpu = 0 then .error "vme->u.spinup_ap.vcpu != 0"
  else if ¬ vme.vcpu < m.guestNcpus then .error "vme->u.spinup_ap.vcpu < guest_ncpus"
  else
    match vcpuAdd m pvcpu vme.vcpu with
    | .error e => .error e
    | .ok m => .ok { m with
        exit := Function.update m.exit pvcpu none, log := .start vme.vcpu :: m.log }

inductive Op
  /-- A running vCPU writes its ICR. -/
  | icr (vcpuid : Nat) (x2apic : Bool) (lo hi : BitVec 32)
  /-- A vCPU's thread handles the exit. -/
  | spinup (vcpu : Nat)
deriving DecidableEq, Repr

def next (m : Machine) : Op → Option Machine
  | .icr v x2apic lo hi =>
    if v ∈ m.activeCpus ∧ m.exit v = none then vlapicIcrloWriteHandler m v x2apic lo hi else none
  | .spinup v =>
    match m.exit v with
    | none => none
    | some vme => (vmexitSpinupAp m v vme).toOption

/-- `run_xhyve` has checked the number of vCPUs and added the boot processor. -/
structure Initial (m : Machine) : Prop where
  ncpus : 1 ≤ m.guestNcpus ∧ m.guestNcpus ≤ vmMaxcpu
  boot : ∀ i, m.bootState i = if i = 0 then .running else .init
  active : m.activeCpus = {bsp}
  cpumask : m.cpumask = {bsp}
  exit : ∀ v, m.exit v = none
  log : m.log = []

def system : System Machine Op := System.ofFn Initial next

/-! ## What is to hold -/

/-- The vCPUs that were started. -/
def started (log : List Event) : List Nat :=
  log.filterMap fun
    | .start c => some c
    | .init .. => none

/-- Every start has an INIT before it. -/
def InitFirst : List Event → Prop
  | [] => True
  | .init .. :: log => InitFirst log
  | .start c :: log => .init bsp c ∈ log ∧ InitFirst log

structure Proper (m : Machine) : Prop where
  once : (started m.log).Nodup
  initFirst : InitFirst m.log
  configured : ∀ c ∈ started m.log, 1 ≤ c ∧ c < m.guestNcpus
  assertions : ∀ v vme, m.exit v = some vme → ∃ m', vmexitSpinupAp m v vme = .ok m'

/-- A STARTUP that is not ignored is for a configured vCPU. -/
def StartsConfigured (m : Machine) : Op → Prop
  | .icr v x2apic lo hi => v = 0 → icrMode lo hi = apicDelmodeStartup →
      m.bootState (icrDest x2apic lo hi) = .sipi → icrDest x2apic lo hi < vmMaxcpu →
      icrDest x2apic lo hi < m.guestNcpus
  | .spinup _ => True

instance (m : Machine) (a : Op) : Decidable (StartsConfigured m a) :=
  match a with
  | .icr .. => inferInstanceAs (Decidable (_ → _))
  | .spinup _ => inferInstanceAs (Decidable True)

/-! ## The invariant -/

structure Inv (m : Machine) : Prop where
  ncpus : m.guestNcpus ≤ vmMaxcpu
  /-- Nobody waits for a STARTUP, or is past it, without an INIT. -/
  inited : ∀ c, c ≠ 0 → m.bootState c ≠ .init → .init bsp c ∈ m.log
  /-- A vCPU that is active was started, and does not start again. -/
  active : ∀ c ∈ m.activeCpus, c ≠ 0 → m.bootState c = .running
  /-- The exit is for a vCPU that has been taken out of the wait for its STARTUP. -/
  exit : ∀ v vme, m.exit v = some vme → v = bsp ∧ vme.vcpu ≠ 0 ∧ vme.vcpu < m.guestNcpus ∧
    vme.vcpu ∉ m.activeCpus ∧ m.bootState vme.vcpu = .running
  started : ∀ c ∈ started m.log, c ∈ m.activeCpus ∧ 1 ≤ c ∧ c < m.guestNcpus
  once : (ApStartup.started m.log).Nodup
  initFirst : InitFirst m.log

section Inv
variable {m m' : Machine} {v : Nat} {x2apic : Bool} {lo hi : BitVec 32}

theorem Initial.inv (h : Initial m) : Inv m where
  ncpus := h.ncpus.2
  inited c hc hboot := by
    rw [h.boot c, if_neg hc] at hboot
    exact absurd rfl hboot
  active c hc hne := by
    rw [h.active, Finset.mem_singleton] at hc
    exact absurd hc hne
  exit v vme hv := by
    rw [h.exit v] at hv
    cases hv
  started c hc := by
    rw [h.log] at hc
    cases hc
  once := by
    rw [h.log]
    exact List.nodup_nil
  initFirst := by
    rw [h.log]
    trivial

/-- An INIT is only noted. -/
theorem Inv.note (h : Inv m) (sender dest : Nat) : Inv { m with log := .init sender dest :: m.log } where
  ncpus := h.ncpus
  inited c hc hboot := List.mem_cons_of_mem _ (h.inited c hc hboot)
  active := h.active
  exit := h.exit
  started := h.started
  once := h.once
  initFirst := h.initFirst

/-- From INIT to the wait for a STARTUP. -/
theorem Inv.init (h : Inv m) {dest : Nat} (hdest : m.bootState dest = .init)
    (hlog : .init bsp dest ∈ m.log) :
    Inv { m with bootState := Function.update m.bootState dest .sipi } where
  ncpus := h.ncpus
  inited c hc hboot := by
    by_cases hcd : c = dest
    · exact hcd ▸ hlog
    · change Function.update m.bootState dest .sipi c ≠ .init at hboot
      rw [Function.update_of_ne hcd] at hboot
      exact h.inited c hc hboot
  active c hc hne := by
    have hrun := h.active c hc hne
    by_cases hcd : c = dest
    · rw [hcd, hdest] at hrun
      cases hrun
    · exact (Function.update_of_ne hcd ..).trans hrun
  exit v vme hv := by
    obtain ⟨hbsp, hne, hlt, hact, hrun⟩ := h.exit v vme hv
    refine ⟨hbsp, hne, hlt, hact, ?_⟩
    by_cases hcd : vme.vcpu = dest
    · rw [hcd, hdest] at hrun
      cases hrun
    · exact (Function.update_of_ne hcd ..).trans hrun
  started := h.started
  once := h.once
  initFirst := h.initFirst

/-- From the wait for a STARTUP to the exit. -/
theorem Inv.startup (h : Inv m) {dest rip : Nat} (hexit : m.exit bsp = none) (hne : dest ≠ 0)
    (hlt : dest < m.guestNcpus) (hdest : m.bootState dest = .sipi) :
    Inv { m with
      bootState := Function.update m.bootState dest .running
      exit := Function.update m.exit bsp (some ⟨dest, rip⟩) } where
  ncpus := h.ncpus
  inited c hc hboot := by
    by_cases hcd : c = dest
    · refine h.inited c hc ?_
      rw [hcd, hdest]
      simp
    · change Function.update m.bootState dest .running c ≠ .init at hboot
      rw [Function.update_of_ne hcd] at hboot
      exact h.inited c hc hboot
  active c hc hne' := by
    by_cases hcd : c = dest
    · rw [hcd]
      exact Function.update_self ..
    · exact (Function.update_of_ne hcd ..).trans (h.active c hc hne')
  exit v vme hv := by
    change Function.update m.exit bsp (some ⟨dest, rip⟩) v = some vme at hv
    by_cases hv0 : v = bsp
    · subst hv0
      rw [Function.update_self] at hv
      cases hv
      refine ⟨rfl, hne, hlt, fun hact => ?_, Function.update_self ..⟩
      have hrun := h.active dest hact hne
      rw [hdest] at hrun
      cases hrun
    · rw [Function.update_of_ne hv0] at hv
      exact absurd (h.exit v vme hv).1 hv0
  started := h.started
  once := h.once
  initFirst := h.initFirst

theorem Inv.icr (h : Inv m) (hexit : m.exit v = none) (hok : StartsConfigured m (.icr v x2apic lo hi))
    (hm : vlapicIcrloWriteHandler m v x2apic lo hi = some m') : Inv m' := by
  unfold vlapicIcrloWriteHandler at hm
  simp only at hm
  split_ifs at hm with hfixed hinit hdeassert hdest hboot hstartup hdest hboot
  · cases hm
    exact h
  · cases hm
    exact h
  · cases hm
    obtain ⟨rfl, -, -⟩ := hdest
    exact (h.note bsp _).init hboot List.mem_cons_self
  · cases hm
    exact h.note _ _
  · cases hm
    exact h
  · cases hm
    obtain ⟨rfl, hne, hlt⟩ := hdest
    have hsipi := not_not.mp hboot
    exact h.startup hexit hne (hok rfl hstartup hsipi hlt) hsipi

/-- The assertions hold, and what is left is the bookkeeping of the start. -/
theorem Inv.vmexitSpinupAp_eq (h : Inv m) {vme : SpinupAp} (hv : m.exit v = some vme) :
    vmexitSpinupAp m v vme = .ok { m with
      activeCpus := insert vme.vcpu m.activeCpus
      cpumask := insert vme.vcpu m.cpumask
      exit := Function.update m.exit v none
      log := .start vme.vcpu :: m.log } := by
  obtain ⟨hbsp, hne, hlt, hact, -⟩ := h.exit v vme hv
  have hmax : ¬ vmMaxcpu ≤ vme.vcpu := by
    have hn := h.ncpus
    omega
  unfold vmexitSpinupAp vcpuAdd vmActivateCpu
  rw [if_neg hne, if_neg (not_not.mpr hlt), if_neg (not_not.mpr hbsp), if_neg hmax, if_neg hact]

theorem Inv.spinup (h : Inv m) (hm : next m (.spinup v) = some m') : Inv m' := by
  cases hv : m.exit v with
  | none =>
    simp only [next, hv] at hm
    cases hm
  | some vme =>
    obtain ⟨hbsp, hne, hlt, hact, hrun⟩ := h.exit v vme hv
    simp only [next, hv, h.vmexitSpinupAp_eq hv, Except.toOption, Option.some.injEq] at hm
    subst hm
    have hfresh : vme.vcpu ∉ ApStartup.started m.log := fun hs => hact (h.started _ hs).1
    have hlog := h.inited vme.vcpu hne (by rw [hrun]; simp)
    refine ⟨h.ncpus, fun c hc hboot => List.mem_cons_of_mem _ (h.inited c hc hboot), ?_, ?_, ?_, ?_, ?_⟩
    · intro c hc hc0
      rcases Finset.mem_insert.mp hc with rfl | hc
      · exact hrun
      · exact h.active c hc hc0
    · intro w vme' hw
      change Function.update m.exit v none w = some vme' at hw
      by_cases hwv : w = v
      · rw [hwv] at hw
        simp at hw
      · rw [Function.update_of_ne hwv] at hw
        exact absurd ((h.exit w vme' hw).1.trans hbsp.symm) hwv
    · intro c hc
      rcases List.mem_cons.mp hc with rfl | hc
      · exact ⟨Finset.mem_insert_self .., Nat.one_le_iff_ne_zero.mpr hne, hlt⟩
      · obtain ⟨hin, hbounds⟩ := h.started c hc
        exact ⟨Finset.mem_insert_of_mem hin, hbounds⟩
    · exact List.nodup_cons.mpr ⟨hfresh, h.once⟩
    · exact ⟨hlog, h.initFirst⟩

theorem inv_inductive : (system.restrict StartsConfigured).Inductive Inv where
  init _ hs := hs.inv
  step m a m' h hstep := by
    obtain ⟨hok, hm⟩ := hstep
    cases a with
    | icr v x2apic lo hi =>
      simp only [system, System.ofFn, next] at hm
      split_ifs at hm with hrun
      exact h.icr hrun.2 hok hm
    | spinup v => exact h.spinup hm

theorem Inv.proper (h : Inv m) : Proper m where
  once := h.once
  initFirst := h.initFirst
  configured c hc := (h.started c hc).2
  assertions v vme hv := ⟨_, h.vmexitSpinupAp_eq hv⟩

end Inv

/-- In a run in which no STARTUP reaches a waiting APIC without a configured vCPU, every vCPU is started
at most once, after an INIT, and no assertion fails. -/
theorem startup_proper {m : Machine} (h : (system.restrict StartsConfigured).Reachable m) : Proper m :=
  (inv_inductive.reachable h).proper

def boot (ncpus : Nat) : Machine where
  guestNcpus := ncpus
  bootState i := if i = 0 then .running else .init
  activeCpus := {bsp}
  cpumask := {bsp}
  exit _ := none
  log := []

theorem boot_initial {ncpus : Nat} (h : 1 ≤ ncpus ∧ ncpus ≤ vmMaxcpu) : Initial (boot ncpus) :=
  ⟨h, fun _ => rfl, rfl, rfl, fun _ => rfl, rfl⟩

/-- INIT and two STARTUPs for vCPU 1 of two. -/
theorem startup_proper_two : ∃ m, (system.restrict StartsConfigured).Reachable m ∧
    started m.log = [1] ∧ Proper m := by
  have hrun : (System.exec (System.guarded StartsConfigured next) (boot 2)
      [.icr 0 false 0x4500 0x1000000, .icr 0 false 0x600 0x1000000, .spinup 0,
        .icr 0 false 0x600 0x1000000]).map (fun m => started m.log) = some [1] := by decide +kernel
  obtain ⟨m, hm, hstarted⟩ := Option.map_eq_some_iff.mp hrun
  have hr := System.exec_reachable_guarded (.init (boot_initial (by decide))) hm
  exact ⟨m, hr, hstarted, startup_proper hr⟩

/-- INIT and STARTUP for APIC id 1 on a machine with one vCPU. -/
theorem startup_not_configured : ∃ m, system.Reachable m ∧
    vmexitSpinupAp m bsp ⟨1, 0⟩ = .error "vme->u.spinup_ap.vcpu < guest_ncpus" ∧ ¬ Proper m := by
  have hrun : (System.exec next (boot 1) [.icr 0 false 0x4500 0x1000000, .icr 0 false 0x600 0x1000000]).map
      (fun m => (m.guestNcpus, m.exit bsp)) = some (1, some ⟨1, 0⟩) := by decide +kernel
  obtain ⟨m, hm, hexit⟩ := Option.map_eq_some_iff.mp hrun
  obtain ⟨hn, he⟩ := Prod.mk.inj hexit
  have hfails : vmexitSpinupAp m bsp ⟨1, 0⟩ = .error "vme->u.spinup_ap.vcpu < guest_ncpus" := by
    simp [vmexitSpinupAp, hn]
  refine ⟨m, System.exec_reachable (.init (boot_initial (by decide))) hm, hfails, fun hp => ?_⟩
  obtain ⟨m', hok⟩ := hp.assertions bsp ⟨1, 0⟩ he
  rw [hfails] at hok
  cases hok

end Xhyve.Vmm.ApStartup
