import Xhyve.Lib.Transition

/-!
# The transmit thread of the network device

`pci_vtnet_tx_thread` from its first wait on, and any number of `pci_vtnet_ping_txq` calls beside it. The
guest publishes chains and looks at `VRING_USED_F_NO_NOTIFY` without any lock; the flag and
`tx_in_progress` change only under `tx_mtx`. So whoever sets the flag while the thread is blocked also
finds `tx_in_progress` clear, and signals.
-/

namespace Xhyve.Emul.NetTx

open Xhyve.Lib

/-- Where the thread is. -/
inductive Pc
  /-- In `pthread_cond_wait`. -/
  | waiting
  /-- About to take the mutex. -/
  | lock
  /-- At the head of the inner loop. -/
  | head
  | clear
  | recheck
  | idle
  | wait
  | suppress
  | busy
  | unlock
  | proctx
  | more
  | endchains
deriving DecidableEq, Repr

/-- Where a ping that has the mutex is. -/
inductive PingPc
  | flag | signal | unlock
deriving DecidableEq, Repr

inductive Holder
  | none
  | thread
  | ping (pc : PingPc)
deriving DecidableEq, Repr

structure State where
  /-- `VQ_ALLOC`. -/
  ready : Bool
  lastAvail : BitVec 16
  availIdx : BitVec 16
  /-- `VRING_USED_F_NO_NOTIFY`. -/
  noNotify : Bool
  resetting : Bool
  txInProgress : Bool
  /-- Who has `tx_mtx`. -/
  holder : Holder
  pc : Pc
  /-- The waiting thread has been signalled. -/
  signal : Bool
  /-- Chains published whose publisher has not yet looked at the flag. -/
  owed : Nat
  /-- Pings that have not yet looked at the queue. -/
  entered : Nat
  /-- Pings that wait for the mutex. -/
  wanting : Nat
deriving DecidableEq, Repr

def State.vqHasDescs (s : State) : Bool := s.ready && s.lastAvail != s.availIdx

inductive Op
  /-- The guest writes `va_idx`. -/
  | publish (idx : BitVec 16)
  /-- The guest notifies unless it is told not to. -/
  | look
  /-- A notification nothing asks for. -/
  | kick
  | reset (resetting : Bool)
  | pingCheck
  | pingLock
  | ping
  /-- The wait ends, also without a signal. -/
  | wake
  | thread
deriving DecidableEq, Repr

/-- One step of the thread. -/
def threadStep (s : State) : Option State :=
  match s.pc with
  | .waiting => none
  | .lock => if s.holder = .none then some { s with holder := .thread, pc := .head } else none
  | .head => some { s with pc := if s.resetting || !s.vqHasDescs then .clear else .suppress }
  | .clear => some { s with noNotify := false, pc := .recheck }
  | .recheck => some { s with pc := if !s.resetting && s.vqHasDescs then .suppress else .idle }
  | .idle => some { s with txInProgress := false, pc := .wait }
  | .wait => some { s with holder := .none, signal := false, pc := .waiting }
  | .suppress => some { s with noNotify := true, pc := .busy }
  | .busy => some { s with txInProgress := true, pc := .unlock }
  | .unlock => some { s with holder := .none, pc := .proctx }
  | .proctx => some { s with lastAvail := s.lastAvail + 1, pc := .more }
  | .more => some { s with pc := if s.vqHasDescs then .proctx else .endchains }
  | .endchains => some { s with pc := .lock }

/-- One step of the ping that has the mutex. -/
def pingStep (s : State) : Option State :=
  match s.holder with
  | .ping .flag => some { s with noNotify := true, holder := .ping .signal }
  | .ping .signal =>
    some { s with signal := s.signal || (!s.txInProgress && s.pc = .waiting), holder := .ping .unlock }
  | .ping .unlock => some { s with holder := .none }
  | _ => none

def next (s : State) : Op → Option State
  | .publish idx => some { s with availIdx := idx, owed := s.owed + 1 }
  | .look =>
    if s.owed = 0 then none
    else some { s with owed := s.owed - 1, entered := if s.noNotify then s.entered else s.entered + 1 }
  | .kick => some { s with entered := s.entered + 1 }
  | .reset b => some { s with resetting := b }
  | .pingCheck =>
    if s.entered = 0 then none
    else some { s with
      entered := s.entered - 1, wanting := if s.vqHasDescs then s.wanting + 1 else s.wanting }
  | .pingLock =>
    if s.wanting = 0 ∨ s.holder ≠ .none then none
    else some { s with wanting := s.wanting - 1, holder := .ping .flag }
  | .ping => pingStep s
  | .wake => if s.pc = .waiting then some { s with signal := false, pc := .lock } else none
  | .thread => threadStep s

/-- The first wait, with no notification before it. -/
structure Initial (s : State) : Prop where
  pc : s.pc = .waiting
  signal : s.signal = false
  holder : s.holder = .none
  txInProgress : s.txInProgress = false
  noNotify : s.noNotify = false
  resetting : s.resetting = false
  empty : s.vqHasDescs = false

def system : System State Op := System.ofFn Initial next

/-! ## The flag while the thread is blocked -/

/-- The thread has the mutex. -/
def Pc.locked : Pc → Bool
  | .head | .clear | .recheck | .idle | .wait | .suppress | .busy | .unlock => true
  | .waiting | .lock | .proctx | .more | .endchains => false

/-- The thread has a signal, or a ping is just about to send one. -/
def State.signalled (s : State) : Prop := s.signal = true ∨ s.holder = .ping .signal

/-- In its wait, and nothing is there to end it. -/
def Blocked (s : State) : Prop := s.pc = .waiting ∧ ¬ s.signalled

structure Inv (s : State) : Prop where
  mutex : s.pc.locked = true ↔ s.holder = .thread
  idle : s.pc = .wait ∨ s.pc = .waiting → s.txInProgress = false
  clear : s.pc = .recheck ∨ s.pc = .idle ∨ s.pc = .wait → s.noNotify = false
  blocked : Blocked s → s.noNotify = false

section Inv
variable {s t : State}

/-- Not blocked, and neither at the wait nor on the way there. -/
theorem Inv.of_pc (hm : s.pc.locked = true ↔ s.holder = .thread)
    (hpc : s.pc ≠ .waiting ∧ s.pc ≠ .wait ∧ s.pc ≠ .idle ∧ s.pc ≠ .recheck) : Inv s where
  mutex := hm
  idle hi := by
    rcases hi with hi | hi
    · exact absurd hi hpc.2.1
    · exact absurd hi hpc.1
  clear hc := by
    rcases hc with hc | hc | hc
    · exact absurd hc hpc.2.2.2
    · exact absurd hc hpc.2.2.1
    · exact absurd hc hpc.2.1
  blocked hb := absurd hb.1 hpc.1

theorem Inv.threadStep (h : Inv s) (ht : threadStep s = some t) : Inv t := by
  have hm := h.mutex
  unfold NetTx.threadStep at ht
  cases hpc : s.pc <;> simp only [hpc, Option.some.injEq, reduceCtorEq] at ht hm
  case lock =>
    split at ht
    · cases ht
      exact .of_pc (by simp [Pc.locked]) (by simp)
    · cases ht
  case head =>
    subst ht
    split
    · exact .of_pc hm (by simp)
    · exact .of_pc hm (by simp)
  case clear =>
    subst ht
    exact ⟨hm, by simp, by simp, by simp [Blocked]⟩
  case recheck =>
    subst ht
    split
    · exact .of_pc hm (by simp)
    · exact ⟨hm, by simp, fun _ => h.clear (Or.inl hpc), by simp [Blocked]⟩
  case idle =>
    subst ht
    exact ⟨hm, by simp, fun _ => h.clear (Or.inr (Or.inl hpc)), by simp [Blocked]⟩
  case wait =>
    -- the mutex is given up with the flag clear
    subst ht
    have hclear := h.clear (Or.inr (Or.inr hpc))
    exact ⟨by simp [Pc.locked], fun _ => h.idle (Or.inl hpc), by simp, fun _ => hclear⟩
  case suppress | busy =>
    subst ht
    exact .of_pc hm (by simp)
  case unlock =>
    subst ht
    exact .of_pc (by simp [Pc.locked]) (by simp)
  case proctx | endchains =>
    subst ht
    exact .of_pc hm (by simp)
  case more =>
    subst ht
    split
    · exact .of_pc hm (by simp)
    · exact .of_pc hm (by simp)

/-- A ping has the mutex only while the thread has not. -/
theorem Inv.not_locked (h : Inv s) {pc : PingPc} (hp : s.holder = .ping pc) : s.pc.locked = false := by
  cases hl : s.pc.locked with
  | false => rfl
  | true =>
    have hthread := h.mutex.mp hl
    rw [hp] at hthread
    cases hthread

theorem Inv.pingStep (h : Inv s) (ht : pingStep s = some t) : Inv t := by
  unfold NetTx.pingStep at ht
  split at ht
  · -- from here to the signal the flag may be set under a blocked thread
    rename_i hp
    have hl := h.not_locked hp
    cases ht
    refine ⟨by simp [hl], h.idle, fun hc => ?_, fun hb => absurd (Or.inr rfl) hb.2⟩
    rcases hc with hc | hc | hc <;> rw [hc] at hl <;> cases hl
  · rename_i hp
    have hl := h.not_locked hp
    cases ht
    refine ⟨by simp [hl], h.idle, fun hc => ?_, fun hb => ?_⟩
    · rcases hc with hc | hc | hc <;> rw [hc] at hl <;> cases hl
    · -- a blocked thread has cleared `tx_in_progress`, so it gets the signal
      have hidle := h.idle (Or.inr hb.1)
      have hpc : s.pc = .waiting := hb.1
      exact absurd (Or.inl (by simp [hidle, hpc])) hb.2
  · rename_i hp
    have hl := h.not_locked hp
    cases ht
    refine ⟨by simp [hl], h.idle, h.clear, fun hb => h.blocked ⟨hb.1, fun hs => ?_⟩⟩
    rcases hs with hs | hs
    · exact hb.2 (Or.inl hs)
    · rw [hp] at hs
      cases hs
  · cases ht

/-- Steps that leave the flag, the mutex and the thread alone. -/
theorem Inv.frame (h : Inv s) (hpc : t.pc = s.pc) (hholder : t.holder = s.holder)
    (hflag : t.noNotify = s.noNotify) (htx : t.txInProgress = s.txInProgress)
    (hsignal : t.signal = s.signal) : Inv t := by
  have hblocked : Blocked t → Blocked s := by
    unfold Blocked State.signalled
    rw [hpc, hholder, hsignal]
    exact id
  refine ⟨?_, ?_, ?_, fun hb => ?_⟩
  · rw [hpc, hholder]
    exact h.mutex
  · rw [hpc, htx]
    exact h.idle
  · rw [hpc, hflag]
    exact h.clear
  · rw [hflag]
    exact h.blocked (hblocked hb)

theorem Inv.pingLock (h : Inv s) (ht : next s .pingLock = some t) : Inv t := by
  simp only [next] at ht
  split at ht
  · cases ht
  · rename_i hfree
    push Not at hfree
    have hl : s.pc.locked ≠ true := fun hl => by
      have hthread := h.mutex.mp hl
      rw [hfree.2] at hthread
      cases hthread
    cases ht
    refine ⟨by simp [hl], h.idle, h.clear, fun hb => h.blocked ⟨hb.1, fun hs => ?_⟩⟩
    rcases hs with hs | hs
    · exact hb.2 (Or.inl hs)
    · rw [hfree.2] at hs
      cases hs

theorem Inv.wake (h : Inv s) (ht : next s .wake = some t) : Inv t := by
  simp only [next] at ht
  split at ht
  · rename_i hpc
    have hm := h.mutex
    rw [hpc] at hm
    cases ht
    exact .of_pc hm (by simp)
  · cases ht

theorem Inv.next (h : Inv s) (a : Op) (ht : next s a = some t) : Inv t := by
  cases a with
  | publish idx | kick | reset b =>
    cases ht
    exact h.frame rfl rfl rfl rfl rfl
  | look | pingCheck =>
    simp only [NetTx.next] at ht
    split at ht
    · cases ht
    · cases ht
      exact h.frame rfl rfl rfl rfl rfl
  | pingLock => exact h.pingLock ht
  | ping => exact h.pingStep ht
  | wake => exact h.wake ht
  | thread => exact h.threadStep ht

theorem Initial.inv (h : Initial s) : Inv s where
  mutex := by simp [h.pc, h.holder, Pc.locked]
  idle _ := h.txInProgress
  clear _ := h.noNotify
  blocked _ := h.noNotify

theorem inv_inductive : system.Inductive Inv := ⟨fun _ hs => hs.inv, fun _ a _ h ht => h.next a ht⟩

end Inv

/-! ## Who sees to a published chain -/

/-- A notification is owed, under way or about to set the flag. -/
def Kicked (s : State) : Prop := 0 < s.owed ∨ 0 < s.entered ∨ 0 < s.wanting ∨ s.holder = .ping .flag

/-- No reset of the device. -/
def NoReset (_ : State) (a : Op) : Prop := ∀ b, a ≠ .reset b

/-- The thread has found the queue empty and has not been told otherwise. -/
def Resting (s : State) : Prop := s.pc = .idle ∨ s.pc = .wait ∨ Blocked s

structure Covered (s : State) : Prop where
  inv : Inv s
  resetting : s.resetting = false
  kicked : Resting s → s.vqHasDescs = true → Kicked s

section Covered
variable {s t : State}

theorem Resting.noNotify (hr : Resting s) (h : Inv s) : s.noNotify = false := by
  rcases hr with hr | hr | hr
  · exact h.clear (Or.inr (Or.inl hr))
  · exact h.clear (Or.inr (Or.inr hr))
  · exact h.blocked hr

theorem Covered.threadStep (h : Covered s) (ht : threadStep s = some t) : Covered t := by
  have hinv := h.inv.threadStep ht
  unfold NetTx.threadStep at ht
  cases hpc : s.pc <;> simp only [hpc, Option.some.injEq, reduceCtorEq] at ht
  case lock =>
    split at ht
    · cases ht
      exact ⟨hinv, h.resetting, by simp [Resting, Blocked]⟩
    · cases ht
  case recheck =>
    subst ht
    refine ⟨hinv, h.resetting, fun hr hd => ?_⟩
    have hdescs : s.vqHasDescs = true := hd
    simp [Resting, Blocked, h.resetting, hdescs] at hr
  case idle =>
    subst ht
    exact ⟨hinv, h.resetting, fun _ hd => h.kicked (Or.inl hpc) hd⟩
  case wait =>
    subst ht
    refine ⟨hinv, h.resetting, fun _ hd => ?_⟩
    have hthread := h.inv.mutex.mp (by simp [hpc, Pc.locked])
    rcases h.kicked (Or.inr (Or.inl hpc)) hd with hk | hk | hk | hk
    · exact Or.inl hk
    · exact Or.inr (Or.inl hk)
    · exact Or.inr (Or.inr (Or.inl hk))
    · rw [hthread] at hk
      cases hk
  case head | more =>
    subst ht
    exact ⟨hinv, h.resetting, fun hr => by split at hr <;> simp [Resting, Blocked] at hr⟩
  all_goals
    subst ht
    exact ⟨hinv, h.resetting, by simp [Resting, Blocked]⟩

theorem Covered.pingStep (h : Covered s) (ht : pingStep s = some t) : Covered t := by
  have hinv := h.inv.pingStep ht
  unfold NetTx.pingStep at ht
  split at ht
  · rename_i hp
    have hl := h.inv.not_locked hp
    cases ht
    refine ⟨hinv, h.resetting, fun hr _ => ?_⟩
    rcases hr with hr | hr | hr
    · simp [show s.pc = .idle from hr, Pc.locked] at hl
    · simp [show s.pc = .wait from hr, Pc.locked] at hl
    · exact absurd (Or.inr rfl) hr.2
  · rename_i hp
    have hl := h.inv.not_locked hp
    cases ht
    refine ⟨hinv, h.resetting, fun hr _ => ?_⟩
    rcases hr with hr | hr | hr
    · simp [show s.pc = .idle from hr, Pc.locked] at hl
    · simp [show s.pc = .wait from hr, Pc.locked] at hl
    · have hpc : s.pc = .waiting := hr.1
      exact absurd (Or.inl (by simp [h.inv.idle (Or.inr hpc), hpc])) hr.2
  · rename_i hp
    cases ht
    refine ⟨hinv, h.resetting, fun hr hd => ?_⟩
    have hresting : Resting s := by
      rcases hr with hr | hr | hr
      · exact Or.inl hr
      · exact Or.inr (Or.inl hr)
      · refine Or.inr (Or.inr ⟨hr.1, fun hs => ?_⟩)
        rcases hs with hs | hs
        · exact hr.2 (Or.inl hs)
        · rw [hp] at hs
          cases hs
    rcases h.kicked hresting hd with hk | hk | hk | hk
    · exact Or.inl hk
    · exact Or.inr (Or.inl hk)
    · exact Or.inr (Or.inr (Or.inl hk))
    · rw [hp] at hk
      cases hk
  · cases ht

theorem Covered.next (h : Covered s) {a : Op} (ha : NoReset s a) (ht : next s a = some t) :
    Covered t := by
  have hinv := h.inv.next a ht
  cases a with
  | publish idx =>
    cases ht
    exact ⟨hinv, h.resetting, fun _ _ => Or.inl (Nat.succ_pos _)⟩
  | look =>
    simp only [NetTx.next] at ht
    split at ht
    · cases ht
    · cases ht
      refine ⟨hinv, h.resetting, fun hr _ => Or.inr (Or.inl ?_)⟩
      -- the flag is clear, so the publisher notifies
      have hflag : s.noNotify = false := Resting.noNotify (s := s) hr h.inv
      simp [hflag]
  | kick =>
    cases ht
    exact ⟨hinv, h.resetting, fun _ _ => Or.inr (Or.inl (Nat.succ_pos _))⟩
  | reset b => exact absurd rfl (ha b)
  | pingCheck =>
    simp only [NetTx.next] at ht
    split at ht
    · cases ht
    · cases ht
      refine ⟨hinv, h.resetting, fun _ hd => Or.inr (Or.inr (Or.inl ?_))⟩
      have hdescs : s.vqHasDescs = true := hd
      simp [hdescs]
  | pingLock =>
    simp only [NetTx.next] at ht
    split at ht
    · cases ht
    · cases ht
      exact ⟨hinv, h.resetting, fun _ _ => Or.inr (Or.inr (Or.inr rfl))⟩
  | ping => exact h.pingStep ht
  | wake =>
    simp only [NetTx.next] at ht
    split at ht
    · cases ht
      exact ⟨hinv, h.resetting, by simp [Resting, Blocked]⟩
    · cases ht
  | thread => exact h.threadStep ht

theorem covered_inductive : (system.restrict NoReset).Inductive Covered where
  init s hs := ⟨hs.inv, hs.resetting, fun _ hd => by rw [hs.empty] at hd; cases hd⟩
  step _ _ _ h ht := h.next ht.1 ht.2

end Covered

/-- The thread is never blocked with chains on the queue and notifications suppressed; and as long as the
device is not reset, a blocked thread with chains on the queue will be notified. -/
theorem tx_thread_is_woken {s : State} (h : system.Reachable s) :
    ¬ (Blocked s ∧ s.vqHasDescs = true ∧ s.noNotify = true) ∧
    ((system.restrict NoReset).Reachable s → Blocked s → s.vqHasDescs = true → Kicked s) := by
  refine ⟨fun hbad => ?_, fun hr hb hd => ?_⟩
  · have hflag := (inv_inductive.reachable h).blocked hbad.1
    rw [hflag] at hbad
    cases hbad.2.2
  · exact (covered_inductive.reachable hr).kicked (Or.inr (Or.inr hb)) hd

def idleState : State where
  ready := true
  lastAvail := 0
  availIdx := 0
  noNotify := false
  resetting := false
  txInProgress := false
  holder := .none
  pc := .waiting
  signal := false
  owed := 0
  entered := 0
  wanting := 0

theorem idleState_initial : Initial idleState := ⟨rfl, rfl, rfl, rfl, rfl, rfl, rfl⟩

/-- A ping that comes for a chain the thread has already sent: it finds the thread back in its wait, and
has set the flag. -/
theorem tx_thread_is_woken_late : ∃ s, system.Reachable s ∧ s.pc = .waiting ∧ s.noNotify = true ∧
    ¬ (Blocked s ∧ s.vqHasDescs = true ∧ s.noNotify = true) := by
  let run : List Op := [.publish 1, .look, .pingCheck, .wake] ++ List.replicate 14 .thread ++ [.pingLock, .ping]
  let s := (System.exec next idleState run).getD idleState
  have hrun : System.exec next idleState run = some s := by decide +kernel
  have hr : system.Reachable s := System.exec_reachable (.init idleState_initial) hrun
  exact ⟨s, hr, by decide +kernel, by decide +kernel, (tx_thread_is_woken hr).1⟩

end Xhyve.Emul.NetTx
