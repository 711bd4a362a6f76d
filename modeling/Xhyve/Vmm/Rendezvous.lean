import Xhyve.Lib.Transition
import Mathlib.Data.Finset.Basic
import Mathlib.Data.Finset.Card

/-!
# SMP rendezvous

`vm_smp_rendezvous` has a function run on a set of vCPUs, one rendezvous at a time. A caller that
finds another rendezvous in progress takes part in that one first and then starts over. Each turn
of the loop in `vm_handle_rendezvous` runs under `rendezvous_mtx`, and so does the set-up; the
turns of different threads come in any order, and a wait may end without a broadcast.

The history keeps for each rendezvous what it was asked for and where its function has run. The
notifications sent after the set-up only bring vCPUs to `vm_handle_rendezvous` sooner, and a
vCPU may come there at any time.
-/

namespace Xhyve.Vmm.Rendezvous

open Xhyve.Lib

universe u

/-- What follows a return from `vm_handle_rendezvous`. -/
inductive Next (φ : Type u)
  /-- Back in `vm_run` or `vm_handle_suspend`. -/
  | ret
  /-- `goto restart`. -/
  | again (dest : Finset Nat) (func : φ)
  /-- `vm_smp_rendezvous` returns; the ticket is that of its rendezvous. -/
  | finish (ticket : Nat)

/-- Where a thread stands. Threads that are no vCPU's pass `none` for -1. -/
inductive Pc (φ : Type u)
  | out
  /-- At `restart:`, without the mutex. -/
  | restart (vcpuid : Option Nat) (dest : Finset Nat) (func : φ)
  /-- Before the test of the loop in `vm_handle_rendezvous`. -/
  | loop (vcpuid : Option Nat) (after : Next φ)
  /-- In `pthread_cond_wait`. -/
  | wait (vcpuid : Option Nat) (after : Next φ)

/-- The history of one rendezvous. -/
structure Begun (φ : Type u) where
  dest : Finset Nat
  func : φ
  /-- `active_cpus` when it was set up. -/
  active : Finset Nat
  /-- The calls made, latest first. -/
  ran : List (Nat × φ)
  completed : Bool

structure State (φ : Type u) where
  activeCpus : Finset Nat
  rendezvousReqCpus : Finset Nat
  rendezvousDoneCpus : Finset Nat
  rendezvousFunc : Option φ
  pc : Nat → Pc φ
  /-- How many rendezvous have begun; their tickets are the numbers below it. -/
  count : Nat
  begun : Nat → Begun φ
  /-- The tickets whose `vm_smp_rendezvous` has returned. -/
  returned : Finset Nat

inductive Op (φ : Type u)
  | activateCpu (vcpuid : Nat)
  | smpRendezvous (t : Nat) (vcpuid : Option Nat) (dest : Finset Nat) (func : φ)
  | handleRendezvous (t : Nat) (vcpuid : Option Nat)
  /-- The section under the mutex at the top of `vm_smp_rendezvous`. -/
  | start (t : Nat)
  /-- One turn of the loop in `vm_handle_rendezvous`. -/
  | turn (t : Nat)
  /-- `pthread_cond_wait` returns. -/
  | wakeup (t : Nat)

section Steps
variable {φ : Type u}

def State.setPc (s : State φ) (t : Nat) (p : Pc φ) : State φ :=
  { s with pc := Function.update s.pc t p }

/-- Every thread in the wait is about to test again. -/
def broadcast (pc : Nat → Pc φ) (t : Nat) : Pc φ :=
  match pc t with
  | .wait vcpuid after => .loop vcpuid after
  | p => p

/-- `vm_handle_rendezvous` returns to thread `t`. -/
def handleReturn (s : State φ) (t : Nat) (vcpuid : Option Nat) : Next φ → State φ
  | .ret => s.setPc t .out
  | .again dest func => s.setPc t (.restart vcpuid dest func)
  | .finish ticket => { s.setPc t .out with returned := insert ticket s.returned }

/-- The rendezvous `restart:` sets up, for thread `t`. -/
def setup (s : State φ) (t : Nat) (vcpuid : Option Nat) (dest : Finset Nat) (func : φ) :
    State φ :=
  { s with
    rendezvousReqCpus := dest
    rendezvousDoneCpus := ∅
    rendezvousFunc := some func
    pc := Function.update s.pc t (.loop vcpuid (.finish s.count))
    count := s.count + 1
    begun := Function.update s.begun s.count ⟨dest, func, s.activeCpus, [], false⟩ }

/-- The history of the rendezvous in progress. -/
def State.record (s : State φ) (f : Begun φ → Begun φ) : State φ :=
  { s with begun := Function.update s.begun (s.count - 1) (f (s.begun (s.count - 1))) }

/-- The call of the rendezvous function, when the vCPU has to make it. -/
def callFunc (s : State φ) (func : φ) (vcpuid : Option Nat) : State φ :=
  match vcpuid with
  | none => s
  | some v =>
    if v ∈ s.rendezvousReqCpus ∧ v ∉ s.rendezvousDoneCpus then
      { s.record (fun b => { b with ran := (v, func) :: b.ran }) with
        rendezvousDoneCpus := insert v s.rendezvousDoneCpus }
    else s

/-- `CPU_AND` of the requested with the active vCPUs. -/
def maskReq (s : State φ) : State φ :=
  { s with rendezvousReqCpus := s.rendezvousReqCpus ∩ s.activeCpus }

def complete (s : State φ) : State φ :=
  { s.record (fun b => { b with completed := true }) with
    rendezvousFunc := none
    pc := broadcast s.pc }

/-- A turn of the loop that finds a rendezvous in progress. -/
def loopBody (s : State φ) (t : Nat) (func : φ) (vcpuid : Option Nat) (after : Next φ) :
    State φ :=
  let s := callFunc (maskReq s) func vcpuid
  if s.rendezvousReqCpus = s.rendezvousDoneCpus then handleReturn (complete s) t vcpuid after
  else s.setPc t (.wait vcpuid after)

def next (s : State φ) : Op φ → Option (State φ)
  | .activateCpu v =>
    if v ∈ s.activeCpus then none else some { s with activeCpus := insert v s.activeCpus }
  | .smpRendezvous t vcpuid dest func =>
    match s.pc t with
    | .out => some (s.setPc t (.restart vcpuid dest func))
    | _ => none
  | .handleRendezvous t vcpuid =>
    match s.pc t with
    | .out => some (s.setPc t (.loop vcpuid .ret))
    | _ => none
  | .start t =>
    match s.pc t with
    | .restart vcpuid dest func =>
      match s.rendezvousFunc with
      | some _ => some (s.setPc t (.loop vcpuid (.again dest func)))
      | none => some (setup s t vcpuid dest func)
    | _ => none
  | .turn t =>
    match s.pc t with
    | .loop vcpuid after =>
      match s.rendezvousFunc with
      | some func => some (loopBody s t func vcpuid after)
      | none => some (handleReturn s t vcpuid after)
    | _ => none
  | .wakeup t =>
    match s.pc t with
    | .wait vcpuid after => some (s.setPc t (.loop vcpuid after))
    | _ => none

/-- No rendezvous has begun, and no thread is in one. -/
structure Start (s : State φ) : Prop where
  func : s.rendezvousFunc = none
  pc : ∀ t, s.pc t = .out
  count : s.count = 0
  returned : s.returned = ∅

/-- Every interleaving of the threads. -/
def system (φ : Type u) : System (State φ) (Op φ) := System.ofFn Start next

end Steps

/-! ## What the history says -/

section Invariant
variable {φ : Type u} {s : State φ}

/-- The vCPUs the function has run on, latest first. -/
def Begun.vcpus (b : Begun φ) : List Nat := b.ran.map Prod.fst

/-- The calls made are calls of the function asked for, on vCPUs asked for, and none is made
twice. A completed rendezvous has run on every vCPU that was active from its start. -/
structure Sound (active : Finset Nat) (b : Begun φ) : Prop where
  func : ∀ c ∈ b.ran, c.2 = b.func
  dest : ∀ v ∈ b.vcpus, v ∈ b.dest ∧ v ∈ active
  once : b.vcpus.Nodup
  active : b.active ⊆ active
  covered : b.completed = true → ∀ v ∈ b.dest, v ∈ b.active → v ∈ b.vcpus

/-- How the two sets stand to the history of the rendezvous in progress. -/
structure Current (reqCpus doneCpus : Finset Nat) (b : Begun φ) : Prop where
  done : ∀ v, v ∈ doneCpus ↔ v ∈ b.vcpus
  req : ∀ v ∈ b.dest, v ∈ b.active → v ∈ reqCpus
  reqDest : reqCpus ⊆ b.dest
  doneReq : doneCpus ⊆ reqCpus

/-- The rendezvous in progress is the last one begun. -/
structure Busy (s : State φ) (func : φ) (k : Nat) : Prop where
  last : s.count = k + 1
  func : (s.begun k).func = func
  open_ : (s.begun k).completed = false
  current : Current s.rendezvousReqCpus s.rendezvousDoneCpus (s.begun k)
  past : ∀ j < k, (s.begun j).completed = true

structure History (s : State φ) : Prop where
  sound : ∀ k < s.count, Sound s.activeCpus (s.begun k)
  idle : s.rendezvousFunc = none → ∀ k < s.count, (s.begun k).completed = true
  busy : ∀ func, s.rendezvousFunc = some func → ∃ k, Busy s func k

/-- The rendezvous a thread began and has not returned from. -/
def Pc.ticket : Pc φ → Option Nat
  | .loop _ (.finish k) | .wait _ (.finish k) => some k
  | _ => none

structure Threads (s : State φ) : Prop where
  ticket : ∀ t k, (s.pc t).ticket = some k → k < s.count
  returned : ∀ k ∈ s.returned, k < s.count ∧ (s.begun k).completed = true
  spare : ∃ n, ∀ t ≥ n, s.pc t = .out

structure Inv (s : State φ) : Prop where
  history : History s
  threads : Threads s

theorem Busy.lt {func : φ} {k : Nat} (h : Busy s func k) : k < s.count := by
  have := h.last
  omega

theorem Sound.mono {active active' : Finset Nat} {b : Begun φ} (h : Sound active b)
    (hsub : active ⊆ active') : Sound active' b where
  func := h.func
  dest v hv := ⟨(h.dest v hv).1, hsub (h.dest v hv).2⟩
  once := h.once
  active := h.active.trans hsub
  covered := h.covered

/-- Nothing but the sets, the function and the history counts. -/
theorem History.setPc (h : History s) (t : Nat) (p : Pc φ) : History (s.setPc t p) where
  sound := h.sound
  idle := h.idle
  busy func hf := by
    obtain ⟨k, hk⟩ := h.busy func hf
    exact ⟨k, hk.last, hk.func, hk.open_, hk.current, hk.past⟩

theorem Threads.setPc (h : Threads s) (t : Nat) (p : Pc φ)
    (hp : ∀ k, p.ticket = some k → k < s.count) : Threads (s.setPc t p) where
  ticket u k hu := by
    by_cases htu : u = t
    · subst htu
      simp only [State.setPc, Function.update_self] at hu
      exact hp k hu
    · simp only [State.setPc, Function.update_of_ne htu] at hu
      exact h.ticket u k hu
  returned := h.returned
  spare := by
    obtain ⟨n, hn⟩ := h.spare
    refine ⟨max n (t + 1), fun u hu => ?_⟩
    have hut : u ≠ t := by omega
    simp only [State.setPc, Function.update_of_ne hut]
    exact hn u (by omega)

theorem Inv.setPc (h : Inv s) (t : Nat) (p : Pc φ) (hp : ∀ k, p.ticket = some k → k < s.count) :
    Inv (s.setPc t p) :=
  ⟨h.history.setPc t p, h.threads.setPc t p hp⟩

theorem Inv.activate (h : Inv s) (v : Nat) :
    Inv { s with activeCpus := insert v s.activeCpus } where
  history := {
    sound k hk := (h.history.sound k hk).mono (Finset.subset_insert ..)
    idle := h.history.idle
    busy func hf := by
      obtain ⟨k, hk⟩ := h.history.busy func hf
      exact ⟨k, hk.last, hk.func, hk.open_, hk.current, hk.past⟩ }
  threads := ⟨h.threads.ticket, h.threads.returned, h.threads.spare⟩

/-- A rendezvous begins only when none is in progress. -/
theorem Inv.setup (h : Inv s) (t : Nat) (vcpuid : Option Nat) (dest : Finset Nat) (func : φ)
    (hf : s.rendezvousFunc = none) : Inv (setup s t vcpuid dest func) := by
  have hold : ∀ k < s.count, (Rendezvous.setup s t vcpuid dest func).begun k = s.begun k := by
    intro k hk
    exact Function.update_of_ne (by omega) ..
  have hnew : (Rendezvous.setup s t vcpuid dest func).begun s.count =
      ⟨dest, func, s.activeCpus, [], false⟩ := Function.update_self ..
  have hthreads := h.threads.setPc t (.loop vcpuid .ret) (by simp [Pc.ticket])
  refine ⟨⟨fun k hk => ?_, fun hnone => ?_, fun f hsome => ?_⟩, ⟨fun u k hu => ?_, fun k hk => ?_,
    ?_⟩⟩
  · change k < s.count + 1 at hk
    by_cases hlast : k = s.count
    · subst hlast
      rw [hnew]
      exact ⟨by simp, by simp [Begun.vcpus], by simp [Begun.vcpus], Finset.Subset.refl _, by simp⟩
    · rw [hold k (by omega)]
      exact h.history.sound k (by omega)
  · cases hnone
  · cases hsome
    refine ⟨s.count, rfl, by rw [hnew], by rw [hnew], ?_, fun j hj => ?_⟩
    · rw [hnew]
      exact ⟨by simp [Rendezvous.setup, Begun.vcpus], fun v hv _ => hv, Finset.Subset.refl _,
        Finset.empty_subset _⟩
    · rw [hold j hj]
      exact h.history.idle hf j hj
  · change k < s.count + 1
    by_cases htu : u = t
    · subst htu
      simp only [Rendezvous.setup, Function.update_self, Pc.ticket, Option.some.injEq] at hu
      omega
    · simp only [Rendezvous.setup, Function.update_of_ne htu] at hu
      have := h.threads.ticket u k hu
      omega
  · obtain ⟨hlt, hdone⟩ := h.threads.returned k hk
    rw [hold k hlt]
    exact ⟨Nat.lt_succ_of_lt hlt, hdone⟩
  · obtain ⟨n, hn⟩ := hthreads.spare
    refine ⟨max n (t + 1), fun u hu => ?_⟩
    have hut : u ≠ t := by omega
    have := hn u (by omega)
    simp only [State.setPc, Function.update_of_ne hut] at this
    simp only [Rendezvous.setup, Function.update_of_ne hut, this]

/-! ## One turn of the loop -/

theorem Inv.maskReq (h : Inv s) : Inv (maskReq s) where
  history := {
    sound := h.history.sound
    idle := h.history.idle
    busy func hf := by
      obtain ⟨k, hk⟩ := h.history.busy func hf
      have hsound := h.history.sound k hk.lt
      refine ⟨k, hk.last, hk.func, hk.open_, ⟨hk.current.done, fun v hv hact => ?_, ?_,
        fun v hv => ?_⟩, hk.past⟩
      · exact Finset.mem_inter.mpr ⟨hk.current.req v hv hact, hsound.active hact⟩
      · exact Finset.inter_subset_left.trans hk.current.reqDest
      · have hran := (hk.current.done v).mp hv
        exact Finset.mem_inter.mpr ⟨hk.current.doneReq hv, (hsound.dest v hran).2⟩ }
  threads := ⟨h.threads.ticket, h.threads.returned, h.threads.spare⟩

theorem maskReq_active {v : Nat} (hv : v ∈ (maskReq s).rendezvousReqCpus) :
    v ∈ s.activeCpus := (Finset.mem_inter.mp hv).2

/-- The history of the rendezvous in progress is the one that is written. -/
theorem record_begun {k : Nat} (hk : s.count = k + 1) (f : Begun φ → Begun φ) (j : Nat) :
    (s.record f).begun j = if j = k then f (s.begun k) else s.begun j := by
  have hlast : s.count - 1 = k := by omega
  unfold State.record
  rw [hlast]
  by_cases hj : j = k
  · subst hj
    simp
  · simp [hj]

/-- The function runs on a vCPU that was asked for and on which it has not run. -/
theorem Inv.callFunc (h : Inv s) {func : φ} (hf : s.rendezvousFunc = some func)
    (vcpuid : Option Nat) (hact : ∀ v ∈ s.rendezvousReqCpus, v ∈ s.activeCpus) :
    Inv (callFunc s func vcpuid) := by
  cases vcpuid with
  | none => exact h
  | some v =>
    simp only [Rendezvous.callFunc]
    split
    · rename_i hv
      obtain ⟨hreq, hdone⟩ := hv
      obtain ⟨k, hk⟩ := h.history.busy func hf
      have hbegun := record_begun hk.last (fun b => { b with ran := (v, func) :: b.ran })
      have hsound := h.history.sound k hk.lt
      have hnew : v ∉ (s.begun k).vcpus := by
        rwa [← hk.current.done]
      refine ⟨⟨fun j hj => ?_, fun hnone => ?_, fun f hf' => ?_⟩, ⟨h.threads.ticket,
        fun j hj => ?_, h.threads.spare⟩⟩
      · rw [hbegun]
        by_cases hjk : j = k
        · subst hjk
          rw [if_pos rfl]
          refine ⟨fun c hc => ?_, fun w hw => ?_, ?_, hsound.active, fun hc => ?_⟩
          · rcases List.mem_cons.mp hc with rfl | hc
            · exact hk.func.symm
            · exact hsound.func c hc
          · rcases List.mem_cons.mp hw with rfl | hw
            · exact ⟨hk.current.reqDest hreq, hact w hreq⟩
            · exact hsound.dest w hw
          · exact List.nodup_cons.mpr ⟨hnew, hsound.once⟩
          · rw [hk.open_] at hc
            cases hc
        · rw [if_neg hjk]
          exact h.history.sound j hj
      · change s.rendezvousFunc = none at hnone
        rw [hf] at hnone
        cases hnone
      · change s.rendezvousFunc = some f at hf'
        obtain rfl : func = f := Option.some.inj (hf.symm.trans hf')
        refine ⟨k, hk.last, ?_, ?_, ⟨fun w => ?_, ?_, ?_, fun w hw => ?_⟩, fun j hj => ?_⟩
        · rw [hbegun, if_pos rfl]
          exact hk.func
        · rw [hbegun, if_pos rfl]
          exact hk.open_
        · rw [hbegun, if_pos rfl]
          simp only [Finset.mem_insert, Begun.vcpus, List.map_cons, List.mem_cons]
          rw [hk.current.done]
          rfl
        · rw [hbegun, if_pos rfl]
          exact hk.current.req
        · rw [hbegun, if_pos rfl]
          exact hk.current.reqDest
        · rcases Finset.mem_insert.mp hw with rfl | hw
          · exact hreq
          · exact hk.current.doneReq hw
        · rw [hbegun, if_neg (by omega)]
          exact hk.past j hj
      · obtain ⟨hjlt, hjdone⟩ := h.threads.returned j hj
        refine ⟨hjlt, ?_⟩
        rw [hbegun]
        split
        · rename_i hjk
          rw [hjk, hk.open_] at hjdone
          cases hjdone
        · exact hjdone
    · exact h

theorem broadcast_ticket (pc : Nat → Pc φ) (t : Nat) : (broadcast pc t).ticket = (pc t).ticket := by
  unfold broadcast
  split
  · rename_i vcpuid after hpc
    rw [hpc]
    cases after <;> rfl
  · rfl

theorem broadcast_out {pc : Nat → Pc φ} {t : Nat} (h : pc t = .out) : broadcast pc t = .out := by
  simp [broadcast, h]

/-- A rendezvous completes when the function has run on every vCPU left to ask. -/
theorem Inv.complete (h : Inv s) {func : φ} (hf : s.rendezvousFunc = some func)
    (hall : s.rendezvousReqCpus = s.rendezvousDoneCpus) : Inv (complete s) := by
  obtain ⟨k, hk⟩ := h.history.busy func hf
  have hbegun := record_begun hk.last (fun b => { b with completed := true })
  have hcompleted : ∀ j < s.count, ((Rendezvous.complete s).begun j).completed = true := by
    intro j hj
    change ((s.record fun b => { b with completed := true }).begun j).completed = true
    rw [hbegun]
    split
    · rfl
    · have := hk.last
      exact hk.past j (by omega)
  refine ⟨⟨fun j hj => ?_, fun _ => hcompleted, fun f hf' => ?_⟩, ⟨fun t j ht => ?_,
    fun j hj => ?_, ?_⟩⟩
  · change Sound s.activeCpus ((s.record fun b => { b with completed := true }).begun j)
    rw [hbegun]
    have hsound := h.history.sound j hj
    split
    · rename_i hjk
      subst hjk
      refine ⟨hsound.func, hsound.dest, hsound.once, hsound.active, fun _ v hv hact => ?_⟩
      have hreq := hk.current.req v hv hact
      rw [hall, hk.current.done] at hreq
      exact hreq
    · exact hsound
  · cases hf'
  · change (broadcast s.pc t).ticket = some j at ht
    rw [broadcast_ticket] at ht
    exact h.threads.ticket t j ht
  · have hlt := (h.threads.returned j hj).1
    exact ⟨hlt, hcompleted j hlt⟩
  · obtain ⟨n, hn⟩ := h.threads.spare
    exact ⟨n, fun t ht => broadcast_out (hn t ht)⟩

/-- `vm_handle_rendezvous` returns with no rendezvous in progress, so the one the caller began
is completed. -/
theorem Inv.handleReturn (h : Inv s) (hf : s.rendezvousFunc = none) (t : Nat)
    (vcpuid : Option Nat) {after : Next φ}
    (hticket : ∀ k, after = .finish k → k < s.count) : Inv (handleReturn s t vcpuid after) := by
  cases after with
  | ret => exact h.setPc t .out (by simp [Pc.ticket])
  | again dest func => exact h.setPc t (.restart vcpuid dest func) (by simp [Pc.ticket])
  | finish k =>
    have hpc := h.setPc t .out (by simp [Pc.ticket])
    refine ⟨⟨hpc.history.sound, hpc.history.idle, fun f hf' => ?_⟩,
      ⟨hpc.threads.ticket, fun j hj => ?_, hpc.threads.spare⟩⟩
    · change s.rendezvousFunc = some f at hf'
      rw [hf] at hf'
      cases hf'
    · rcases Finset.mem_insert.mp hj with rfl | hj
      · exact ⟨hticket j rfl, h.history.idle hf j (hticket j rfl)⟩
      · exact h.threads.returned j hj

theorem callFunc_func (s : State φ) (func : φ) (vcpuid : Option Nat) :
    (callFunc s func vcpuid).rendezvousFunc = s.rendezvousFunc := by
  unfold callFunc
  split
  · rfl
  · split <;> rfl

theorem callFunc_count (s : State φ) (func : φ) (vcpuid : Option Nat) :
    (callFunc s func vcpuid).count = s.count := by
  unfold callFunc
  split
  · rfl
  · split <;> rfl

theorem Inv.loopBody (h : Inv s) {func : φ} (hf : s.rendezvousFunc = some func) (t : Nat)
    (vcpuid : Option Nat) {after : Next φ}
    (hticket : ∀ k, after = .finish k → k < s.count) :
    Inv (loopBody s t func vcpuid after) := by
  have hcall : Inv (Rendezvous.callFunc (Rendezvous.maskReq s) func vcpuid) :=
    h.maskReq.callFunc hf vcpuid fun v hv => maskReq_active (s := s) hv
  have hfunc : (Rendezvous.callFunc (Rendezvous.maskReq s) func vcpuid).rendezvousFunc = some func := by
    rw [callFunc_func]
    exact hf
  have hcount : (Rendezvous.callFunc (Rendezvous.maskReq s) func vcpuid).count = s.count := by
    rw [callFunc_count]
    rfl
  unfold Rendezvous.loopBody
  simp only
  split
  · rename_i hall
    apply (hcall.complete hfunc hall).handleReturn rfl
    intro k hk
    change k < (Rendezvous.callFunc (Rendezvous.maskReq s) func vcpuid).count
    rw [hcount]
    exact hticket k hk
  · apply hcall.setPc
    intro k hk
    rw [hcount]
    cases after with
    | finish j =>
      obtain rfl : j = k := by simpa [Pc.ticket] using hk
      exact hticket j rfl
    | _ => simp [Pc.ticket] at hk

/-! ## Every run -/

theorem Start.inv (h : Start s) : Inv s where
  history := {
    sound k hk := by
      rw [h.count] at hk
      omega
    idle _ k hk := by
      rw [h.count] at hk
      omega
    busy func hf := by
      rw [h.func] at hf
      cases hf }
  threads := {
    ticket t k ht := by
      rw [h.pc t] at ht
      cases ht
    returned k hk := by
      rw [h.returned] at hk
      cases hk
    spare := ⟨0, fun t _ => h.pc t⟩ }

/-- The ticket of a thread in the loop is what it is to return from. -/
theorem Threads.after (h : Threads s) {t : Nat} {vcpuid : Option Nat} {after : Next φ}
    (hpc : s.pc t = .loop vcpuid after ∨ s.pc t = .wait vcpuid after) {k : Nat}
    (hk : after = .finish k) : k < s.count := by
  subst hk
  apply h.ticket t k
  rcases hpc with hpc | hpc <;> rw [hpc] <;> rfl

theorem inductive_inv : (system φ).Inductive Inv where
  init s h := h.inv
  step s op s' h hs := by
    change next s op = some s' at hs
    cases op with
    | activateCpu v =>
      simp only [next] at hs
      split at hs
      · cases hs
      · cases hs
        exact h.activate v
    | smpRendezvous t vcpuid dest func =>
      simp only [next] at hs
      split at hs
      · cases hs
        exact h.setPc t _ (by simp [Pc.ticket])
      · cases hs
    | handleRendezvous t vcpuid =>
      simp only [next] at hs
      split at hs
      · cases hs
        exact h.setPc t _ (by simp [Pc.ticket])
      · cases hs
    | start t =>
      simp only [next] at hs
      split at hs
      · split at hs
        · cases hs
          exact h.setPc t _ (by simp [Pc.ticket])
        · rename_i hf
          cases hs
          exact h.setup _ _ _ _ hf
      · cases hs
    | turn t =>
      simp only [next] at hs
      split at hs
      · rename_i vcpuid after hpc
        have hticket : ∀ k, after = .finish k → k < s.count :=
          fun k hk => h.threads.after (.inl hpc) hk
        split at hs
        · rename_i func hf
          cases hs
          exact h.loopBody hf t vcpuid hticket
        · rename_i hf
          cases hs
          exact h.handleReturn hf t vcpuid hticket
      · cases hs
    | wakeup t =>
      simp only [next] at hs
      split at hs
      · rename_i vcpuid after hpc
        cases hs
        apply h.setPc t
        intro k hk
        apply h.threads.after (.inr hpc)
        cases after with
        | finish j => simpa [Pc.ticket] using hk
        | _ => simp [Pc.ticket] at hk
      · cases hs

/-- A rendezvous that is not over is the last one begun. -/
theorem Inv.open_last (h : Inv s) {k : Nat} (hk : k < s.count)
    (hopen : (s.begun k).completed = false) : k = s.count - 1 := by
  cases hf : s.rendezvousFunc with
  | none =>
    rw [h.history.idle hf k hk] at hopen
    cases hopen
  | some func =>
    obtain ⟨last, hlast⟩ := h.history.busy func hf
    have hge : ¬ k < last := fun hlt => by
      rw [hlast.past k hlt] at hopen
      cases hopen
    have := hlast.last
    omega

/-! ## A rendezvous can be completed -/

/-- The vCPUs the function has still to run on. -/
def remaining (s : State φ) : Finset Nat :=
  (s.rendezvousReqCpus ∩ s.activeCpus) \ s.rendezvousDoneCpus

/-- The steps of a vCPU that comes to `vm_handle_rendezvous`. -/
def Op.isHandle : Op φ → Bool
  | .handleRendezvous .. | .turn _ => true
  | _ => false

/-- A vCPU comes to `vm_handle_rendezvous` and makes one turn of its loop. -/
def visit (t : Nat) (vcpuid : Option Nat) : List (Op φ) := [.handleRendezvous t vcpuid, .turn t]

theorem visit_isHandle (t : Nat) (vcpuid : Option Nat) :
    ∀ op ∈ visit t vcpuid, (op : Op φ).isHandle = true := by
  simp [visit, Op.isHandle]

theorem exec_visit {t : Nat} {func : φ} (vcpuid : Option Nat) (hpc : s.pc t = .out)
    (hf : s.rendezvousFunc = some func) :
    System.exec next s (visit t vcpuid) =
      some (loopBody (s.setPc t (.loop vcpuid .ret)) t func vcpuid .ret) := by
  have hcall : next s (.handleRendezvous t vcpuid) = some (s.setPc t (.loop vcpuid .ret)) := by
    simp only [next, hpc]
  have hloop : (s.setPc t (.loop vcpuid .ret)).pc t = .loop vcpuid .ret := Function.update_self ..
  have hf' : (s.setPc t (.loop vcpuid .ret)).rendezvousFunc = some func := hf
  have hturn : next (s.setPc t (.loop vcpuid .ret)) (.turn t) =
      some (loopBody (s.setPc t (.loop vcpuid .ret)) t func vcpuid .ret) := by
    simp only [next, hloop, hf']
  simp only [visit, System.exec, hcall, hturn, Option.bind_some]

/-- A turn ends the rendezvous, or leaves it to the vCPUs that remain. -/
theorem loopBody_cases (t : Nat) (func : φ) (vcpuid : Option Nat) :
    ((loopBody s t func vcpuid .ret).rendezvousFunc = none ∧
      (loopBody s t func vcpuid .ret).count = s.count) ∨
    ((callFunc (maskReq s) func vcpuid).rendezvousReqCpus ≠
        (callFunc (maskReq s) func vcpuid).rendezvousDoneCpus ∧
      loopBody s t func vcpuid .ret =
        (callFunc (maskReq s) func vcpuid).setPc t (.wait vcpuid .ret)) := by
  unfold loopBody
  by_cases h : (callFunc (maskReq s) func vcpuid).rendezvousReqCpus =
      (callFunc (maskReq s) func vcpuid).rendezvousDoneCpus
  · left
    simp only [if_pos h]
    exact ⟨rfl, callFunc_count _ func vcpuid⟩
  · exact .inr ⟨h, if_neg h⟩

/-- The vCPU that makes the call no longer remains. -/
theorem remaining_callFunc {v : Nat} (hv : v ∈ remaining s) (func : φ) :
    remaining (callFunc (maskReq s) func (some v)) = (remaining s).erase v := by
  simp only [remaining, Finset.mem_sdiff] at hv
  have hcall : v ∈ (maskReq s).rendezvousReqCpus ∧ v ∉ (maskReq s).rendezvousDoneCpus := hv
  have hdone : (callFunc (maskReq s) func (some v)).rendezvousDoneCpus =
      insert v s.rendezvousDoneCpus := congrArg State.rendezvousDoneCpus (if_pos hcall)
  have hreq : (callFunc (maskReq s) func (some v)).rendezvousReqCpus =
      s.rendezvousReqCpus ∩ s.activeCpus := congrArg State.rendezvousReqCpus (if_pos hcall)
  have hactive : (callFunc (maskReq s) func (some v)).activeCpus = s.activeCpus := by
    simp only [callFunc]
    split <;> rfl
  rw [remaining, remaining, hdone, hreq, hactive]
  ext w
  simp only [Finset.mem_sdiff, Finset.mem_inter, Finset.mem_insert, Finset.mem_erase]
  tauto

theorem Inv.remaining_empty (h : Inv s) {func : φ} (hf : s.rendezvousFunc = some func)
    (hnone : remaining s = ∅) : (Rendezvous.maskReq s).rendezvousReqCpus = s.rendezvousDoneCpus := by
  obtain ⟨k, hk⟩ := h.history.busy func hf
  apply Finset.Subset.antisymm
  · exact Finset.sdiff_eq_empty_iff_subset.mp hnone
  · intro v hv
    have hran := (hk.current.done v).mp hv
    exact Finset.mem_inter.mpr
      ⟨hk.current.doneReq hv, ((h.history.sound k hk.lt).dest v hran).2⟩

/-- Once each vCPU that remains has come to `vm_handle_rendezvous`, the rendezvous is over. -/
theorem Inv.completes (h : Inv s) {func : φ} (hf : s.rendezvousFunc = some func) :
    ∃ ops : List (Op φ), (∀ op ∈ ops, op.isHandle = true) ∧ ∃ s',
      System.exec next s ops = some s' ∧ s'.rendezvousFunc = none ∧ s'.count = s.count ∧
      Inv s' := by
  induction hn : (remaining s).card using Nat.strongRecOn generalizing s with
  | _ n ih =>
    obtain ⟨t₀, hspare⟩ := h.threads.spare
    have hpc := hspare t₀ (Nat.le_refl _)
    have hstep (vcpuid : Option Nat) := exec_visit vcpuid hpc hf
    have hloop (vcpuid : Option Nat) : Inv (s.setPc t₀ (.loop vcpuid .ret)) :=
      h.setPc t₀ _ (by simp [Pc.ticket])
    have hinv (vcpuid : Option Nat) : Inv (Rendezvous.loopBody (s.setPc t₀ (.loop vcpuid .ret)) t₀
        func vcpuid .ret) := (hloop vcpuid).loopBody hf t₀ vcpuid (by simp)
    rcases Finset.eq_empty_or_nonempty (remaining s) with hnone | ⟨v, hv⟩
    · -- nobody is left, so any turn sees the two sets equal
      rcases loopBody_cases (s := s.setPc t₀ (.loop none .ret)) t₀ func none with hdone | ⟨hne, -⟩
      · exact ⟨_, visit_isHandle _ _, _, hstep none, hdone.1, hdone.2, hinv none⟩
      · exact absurd (h.remaining_empty hf hnone) hne
    · rcases loopBody_cases (s := s.setPc t₀ (.loop (some v) .ret)) t₀ func (some v) with
        hdone | ⟨-, heq⟩
      · exact ⟨_, visit_isHandle _ _, _, hstep (some v), hdone.1, hdone.2, hinv (some v)⟩
      · have hnext := hinv (some v)
        have hrun := hstep (some v)
        rw [heq] at hnext hrun
        have hcard := remaining_callFunc (s := s.setPc t₀ (.loop (some v) .ret)) hv func
        have hlt : ((remaining s).erase v).card < n := by
          rw [← hn]
          exact Finset.card_erase_lt_of_mem hv
        obtain ⟨ops, hops, s', hexec, hfunc, hcount, hs'⟩ :=
          ih _ hlt hnext (by rw [← hf]; exact callFunc_func ..) (congrArg Finset.card hcard)
        refine ⟨visit t₀ (some v) ++ ops, fun op hop => ?_, s', ?_, hfunc, ?_, hs'⟩
        · rcases List.mem_append.mp hop with hop | hop
          · exact visit_isHandle _ _ op hop
          · exact hops op hop
        · rw [System.exec_append, hrun]
          exact hexec
        · rw [hcount]
          exact callFunc_count ..

end Invariant

/-- The calls of a rendezvous's function on one vCPU. -/
def Begun.callsOn {φ : Type u} (b : Begun φ) (v : Nat) : Nat := b.vcpus.count v

/-- Each rendezvous calls only the function it was given, at most once on a vCPU and only on
active vCPUs it was asked for; at most one is in progress; one that is over has called it on
every vCPU that was asked for and active, as has one whose initiator has returned; and one in
progress is over once the vCPUs that remain have come to it. -/
theorem rendezvous_exactly_once {φ : Type u} {s : State φ} (h : (system φ).Reachable s) :
    (∀ k < s.count, (∀ c ∈ (s.begun k).ran, c.2 = (s.begun k).func) ∧
      (∀ v, (s.begun k).callsOn v ≤ 1 ∧
        (v ∉ (s.begun k).dest ∩ s.activeCpus → (s.begun k).callsOn v = 0) ∧
        ((s.begun k).completed = true → v ∈ (s.begun k).dest ∩ (s.begun k).active →
          (s.begun k).callsOn v = 1))) ∧
    (∀ j k, j < s.count → k < s.count → (s.begun j).completed = false →
      (s.begun k).completed = false → j = k) ∧
    (∀ k ∈ s.returned, k < s.count ∧ (s.begun k).completed = true ∧
      ∀ v ∈ (s.begun k).dest ∩ (s.begun k).active, (s.begun k).callsOn v = 1) ∧
    (∀ k < s.count, (s.begun k).completed = false →
      ∃ ops : List (Op φ), (∀ op ∈ ops, op.isHandle = true) ∧ ∃ s',
        System.exec next s ops = some s' ∧ s'.count = s.count ∧
        (s'.begun k).completed = true) := by
  have hinv := inductive_inv.reachable h
  have honce : ∀ k < s.count, ∀ v, (s.begun k).callsOn v ≤ 1 := fun k hk v =>
    List.nodup_iff_count_le_one.mp (hinv.history.sound k hk).once v
  have hcovered : ∀ k < s.count, (s.begun k).completed = true →
      ∀ v ∈ (s.begun k).dest ∩ (s.begun k).active, (s.begun k).callsOn v = 1 := by
    intro k hk hc v hv
    obtain ⟨hdest, hactive⟩ := Finset.mem_inter.mp hv
    have hmem := (hinv.history.sound k hk).covered hc v hdest hactive
    have hpos : 0 < (s.begun k).callsOn v := List.count_pos_iff.mpr hmem
    have := honce k hk v
    omega
  refine ⟨fun k hk => ⟨(hinv.history.sound k hk).func, fun v => ⟨honce k hk v, fun hv => ?_,
    fun hc hv => hcovered k hk hc v hv⟩⟩, fun j k hj hk hjopen hkopen => ?_, fun k hk => ?_,
    fun k hk hopen => ?_⟩
  · apply List.count_eq_zero_of_not_mem
    intro hmem
    exact hv (Finset.mem_inter.mpr ((hinv.history.sound k hk).dest v hmem))
  · rw [hinv.open_last hj hjopen, hinv.open_last hk hkopen]
  · obtain ⟨hlt, hc⟩ := hinv.threads.returned k hk
    exact ⟨hlt, hc, hcovered k hlt hc⟩
  · obtain ⟨func, hf⟩ := Option.ne_none_iff_exists'.mp fun hnone => by
      rw [hinv.history.idle hnone k hk] at hopen
      cases hopen
    obtain ⟨ops, hops, s', hexec, hfunc, hcount, hs'⟩ := hinv.completes hf
    refine ⟨ops, hops, s', hexec, hcount, hs'.history.idle hfunc k ?_⟩
    rw [hcount]
    exact hk

/-- Two vCPUs race to begin: the one that loses takes part in the other's rendezvous. -/
def race : List (Op Nat) :=
  [.smpRendezvous 0 (some 0) {0, 1} 10, .smpRendezvous 1 (some 1) {0} 11, .start 0, .start 1,
    .turn 0, .turn 1, .turn 0]

theorem rendezvous_exactly_once_race :
    ∃ s : State Nat, (system Nat).Reachable s ∧ s.returned = {0} ∧ s.count = 1 ∧
      (s.begun 0).dest ∩ (s.begun 0).active = {0, 1} ∧
      ∀ v ∈ (s.begun 0).dest ∩ (s.begun 0).active, (s.begun 0).callsOn v = 1 := by
  have hrun : (System.exec next ⟨{0, 1}, ∅, ∅, none, fun _ => .out, 0,
      fun _ => ⟨∅, 0, ∅, [], false⟩, ∅⟩ race).map
      (fun s => (s.returned, s.count, (s.begun 0).dest ∩ (s.begun 0).active)) =
      some ({0}, 1, {0, 1}) := by decide +kernel
  obtain ⟨s, hs, he⟩ := Option.map_eq_some_iff.mp hrun
  simp only [Prod.mk.injEq] at he
  obtain ⟨hret, hcount, hdest⟩ := he
  have hr : (system Nat).Reachable s :=
    System.exec_reachable (.init ⟨rfl, fun _ => rfl, rfl, rfl⟩) hs
  obtain ⟨-, -, hreturned, -⟩ := rendezvous_exactly_once hr
  exact ⟨s, hr, hret, hcount, hdest, (hreturned 0 (by simp [hret])).2.2⟩

end Xhyve.Vmm.Rendezvous
