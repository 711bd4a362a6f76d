import Xhyve.Lib.Locks

/-!
# The locks of the virtio devices

Guest accesses hold `vs_mtx`, completions of the block device take it, and `vq_interrupt` takes it once more where MSI-X is
not enabled. A reset of the network device waits for the transmit thread and the receive callback with `vs_mtx` held.
What else the functions do is left out: which descriptors there are and whether an interrupt is due is data that each step
finds.
-/

namespace Xhyve.Virtio.Locking

open Xhyve.Lib Xhyve.Lib.Locks

/-- The devices: `pci_virtio_block.c` and `pci_virtio_net_vmnet.c`. -/
inductive Device
  | block | net
deriving DecidableEq, Repr

inductive Thread
  | vcpu (n : Nat)
  /-- A thread of the block interface. -/
  | worker (n : Nat)
  /-- `pci_vtnet_tx_thread`. -/
  | tx
  /-- The receive callback. -/
  | rx
deriving DecidableEq, Repr

/-- `vs_mtx`, `tx_mtx` and `rx_mtx`. -/
inductive Mutex
  | vs | tx | rx
deriving DecidableEq, Repr

/-- What a guest does: notify a queue, write 0 to the status, or anything else. -/
inductive Access
  | plain | notify | reset
deriving DecidableEq, Repr

/-- Where a thread is. -/
inductive Pc
  | out
  /-- `vi_pci_read` and `vi_pci_write`: before the lock, in the switch, before the unlock. -/
  | access (a : Access) | body (a : Access) | leave
  /-- `pci_vtblk_done`. -/
  | doneLock | done | doneUnlock
  /-- `vq_interrupt` without MSI-X. -/
  | intrLock | intrUnlock
  /-- `pci_vtnet_ping_txq`. -/
  | pingLock | ping
  /-- `pci_vtnet_reset`. -/
  | txwaitLock | txwait | txSleep | rxwaitLock | rxwait | rxSleep | resetDev
  /-- `pci_vtnet_tx_thread`. -/
  | txStart | txWait | txCond | txRelock | txLoop | txBegin | txProc
  /-- `pci_vtnet_tap_callback` and `pci_vtnet_tap_rx`. -/
  | rxLock | rxBegin | tapRx | rxChains | rxFinish | rxUnlock
deriving DecidableEq, Repr

structure Shared where
  msix : Bool
  resetting : Bool
  txInProgress : Bool
  rxInProgress : Bool
deriving DecidableEq, Repr

/-- The data a step finds: what the guest does, whether there is something in the queue, whether the request is answered
at once, and whether `vq_endchains` has to interrupt. -/
structure Data where
  access : Access
  work : Bool
  inline : Bool
  intr : Bool
deriving DecidableEq, Repr

abbrev Code := Option (Instr Mutex Pc Shared)

/-- `vq_endchains`, and `vq_interrupt` up to its lock. -/
def vqEndchains (c : Data) (v : Shared) (next : Pc) : Code :=
  if c.intr ∧ v.msix = false then some (.jump v .intrLock) else some (.jump v next)

/-- `vi_pci_read` and `vi_pci_write`, with what they call. -/
def viPciAccess (dev : Device) (p : Pc) (c : Data) (v : Shared) : Code :=
  match p with
  | .out => some (.jump v (.access c.access))
  | .access a => some (.lock .vs (.body a))
  | .body .plain => some (.jump v .leave)
  | .body .notify =>
    match dev with
    | .block =>
      -- `pci_vtblk_notify`: one request after the other
      if c.work then
        if c.inline then vqEndchains c v (.body .notify) else some (.jump v (.body .notify))
      else some (.jump v .leave)
    | .net => some (.jump v (if c.work then .pingLock else .leave))
  | .body .reset =>
    match dev with
    | .block => some (.jump v .leave)
    | .net => some (.jump { v with resetting := true } .txwaitLock)
  | .leave => some (.unlock .vs .out)
  | .pingLock => some (.lock .tx .ping)
  | .ping => some (.unlock .tx .leave)
  | .txwaitLock => some (.lock .tx .txwait)
  | .txwait => some (.unlock .tx (if v.txInProgress then .txSleep else .rxwaitLock))
  | .txSleep => some (.jump v .txwaitLock)
  | .rxwaitLock => some (.lock .rx .rxwait)
  | .rxwait => some (.unlock .rx (if v.rxInProgress then .rxSleep else .resetDev))
  | .rxSleep => some (.jump v .rxwaitLock)
  | .resetDev => some (.jump { v with resetting := false } .leave)
  | .intrLock => some (.lock .vs .intrUnlock)
  | .intrUnlock => some (.unlock .vs (.body .notify))
  | _ => none

def pciVtblkDone (dev : Device) (p : Pc) (c : Data) (v : Shared) : Code :=
  match p with
  | .out => if dev = .block then some (.jump v .doneLock) else none
  | .doneLock => some (.lock .vs .done)
  | .done => vqEndchains c v .doneUnlock
  | .doneUnlock => some (.unlock .vs .out)
  | .intrLock => some (.lock .vs .intrUnlock)
  | .intrUnlock => some (.unlock .vs .doneUnlock)
  | _ => none

/-- A wait for the condition gives up the mutex and takes it again. -/
def pciVtnetTxThread (p : Pc) (c : Data) (v : Shared) : Code :=
  match p with
  | .txStart => some (.lock .tx .txWait)
  | .txWait => some (.unlock .tx .txCond)
  | .txCond => some (.jump v .txRelock)
  | .txRelock => some (.lock .tx .txLoop)
  | .txLoop =>
    if v.resetting ∨ c.work = false then some (.jump { v with txInProgress := false } .txWait)
    else some (.jump { v with txInProgress := true } .txBegin)
  | .txBegin => some (.unlock .tx .txProc)
  | .txProc => vqEndchains c v .txRelock
  | .intrLock => some (.lock .vs .intrUnlock)
  | .intrUnlock => some (.unlock .vs .txRelock)
  | _ => none

def pciVtnetTapCallback (dev : Device) (p : Pc) (c : Data) (v : Shared) : Code :=
  match p with
  | .out => if dev = .net then some (.jump v .rxLock) else none
  | .rxLock => some (.lock .rx .rxBegin)
  | .rxBegin => some (.jump { v with rxInProgress := true } .tapRx)
  | .tapRx => some (.jump v (if v.resetting ∨ c.work = false then .rxFinish else .rxChains))
  | .rxChains => vqEndchains c v .rxFinish
  | .rxFinish => some (.jump { v with rxInProgress := false } .rxUnlock)
  | .rxUnlock => some (.unlock .rx .out)
  | .intrLock => some (.lock .vs .intrUnlock)
  | .intrUnlock => some (.unlock .vs .rxFinish)
  | _ => none

def code (dev : Device) : Thread → Pc → Data → Shared → Code
  | .vcpu _ => viPciAccess dev
  | .worker _ => pciVtblkDone dev
  | .tx => pciVtnetTxThread
  | .rx => pciVtnetTapCallback dev

abbrev State := Machine Thread Mutex Pc Shared

abbrev Step := Act Thread Data Bool

/-- The threads of a device. From outside, the guest enables and disables MSI-X. -/
def program (dev : Device) : Program Thread Mutex Pc Shared Data Bool where
  code := code dev
  env b v := { v with msix := b }

/-- Nobody is in the device, and the transmit thread of a network device has been created. -/
def start (dev : Device) : State where
  pc i := if dev = .net ∧ i = .tx then .txStart else .out
  owner _ := none
  shared := ⟨false, false, false, false⟩

def system (dev : Device) : System State Step := .ofFn (· = start dev) (next (program dev))

/-! ## Which mutexes are held where -/

/-- A virtual CPU that has `vs_mtx`. -/
def inside : Pc → Bool
  | .body _ | .leave | .intrLock | .intrUnlock | .pingLock | .ping => true
  | .txwaitLock | .txwait | .txSleep | .rxwaitLock | .rxwait | .rxSleep | .resetDev => true
  | _ => false

def holds : Thread → Pc → Mutex → Bool
  | .vcpu _, p, .vs => inside p
  | .vcpu _, p, .tx => p = .ping ∨ p = .txwait
  | .vcpu _, p, .rx => p = .rxwait
  | .worker _, p, .vs => p = .done ∨ p = .doneUnlock ∨ p = .intrLock ∨ p = .intrUnlock
  | .worker _, _, _ => false
  | .tx, p, .vs => p = .intrUnlock
  | .tx, p, .tx => p = .txWait ∨ p = .txLoop ∨ p = .txBegin
  | .tx, _, .rx => false
  | .rx, p, .vs => p = .intrUnlock
  | .rx, _, .tx => false
  | .rx, p, .rx => p = .rxBegin ∨ p = .tapRx ∨ p = .rxChains ∨ p = .rxFinish ∨ p = .rxUnlock ∨ p = .intrLock ∨ p = .intrUnlock

/-- A thread that has `vs_mtx` does not come behind another lock of it. -/
def live : Thread → Pc → Prop
  | .vcpu _, p => p ≠ .intrUnlock
  | .worker _, p => p ≠ .intrUnlock
  | .tx, _ => True
  | .rx, _ => True

/-- The instruction keeps to what is said of its point and the next. -/
def Respects (i : Thread) (p : Pc) : Instr Mutex Pc Shared → Prop
  | .lock m q => holds i p m = false → live i q ∧ ∀ m', holds i q m' = (decide (m' = m) || holds i p m')
  | .unlock m q => live i q ∧ holds i p m = true ∧ ∀ m', holds i q m' = (decide (m' ≠ m) && holds i p m')
  | .jump _ q => live i q ∧ ∀ m', holds i q m' = holds i p m'

section Annotation
variable {dev : Device} {p : Pc} {c : Data} {v : Shared} {x : Instr Mutex Pc Shared} {n : Nat}

theorem endchains_cases {k : Pc} (h : vqEndchains c v k = some x) :
    c.intr = true ∧ v.msix = false ∧ x = .jump v .intrLock ∨ x = .jump v k := by
  unfold vqEndchains at h
  split at h
  · rename_i hintr
    exact Or.inl ⟨hintr.1, hintr.2, (Option.some.inj h).symm⟩
  · exact Or.inr (Option.some.inj h).symm

theorem vcpu_respects (hlive : live (.vcpu n) p) (h : viPciAccess dev p c v = some x) : Respects (.vcpu n) p x := by
  have hjump : ∀ q w, q ≠ .intrUnlock → (∀ m, holds (.vcpu n) q m = holds (.vcpu n) p m) →
      Respects (.vcpu n) p (.jump w q) := fun q w hq hsame => ⟨hq, hsame⟩
  unfold viPciAccess at h
  split at h
  · cases h
    exact hjump _ _ nofun fun m => by cases m <;> rfl
  · cases h
    exact fun _ => ⟨nofun, fun m => by cases m <;> rfl⟩
  · cases h
    exact hjump _ _ nofun fun m => by cases m <;> rfl
  · cases dev with
    | block =>
      dsimp only at h
      split at h
      · split at h
        · rcases endchains_cases h with ⟨-, -, rfl⟩ | rfl
          · exact hjump _ _ nofun fun m => by cases m <;> rfl
          · exact hjump _ _ nofun fun m => rfl
        · cases h
          exact hjump _ _ nofun fun m => rfl
      · cases h
        exact hjump _ _ nofun fun m => by cases m <;> rfl
    | net =>
      cases h
      split
      · exact hjump _ _ nofun fun m => by cases m <;> rfl
      · exact hjump _ _ nofun fun m => by cases m <;> rfl
  · cases dev with
    | block =>
      cases h
      exact hjump _ _ nofun fun m => by cases m <;> rfl
    | net =>
      cases h
      exact hjump _ _ nofun fun m => by cases m <;> rfl
  · cases h
    exact ⟨nofun, rfl, fun m => by cases m <;> rfl⟩
  · cases h
    exact fun _ => ⟨nofun, fun m => by cases m <;> rfl⟩
  · cases h
    exact ⟨nofun, rfl, fun m => by cases m <;> rfl⟩
  · cases h
    exact fun _ => ⟨nofun, fun m => by cases m <;> rfl⟩
  · cases h
    split
    · exact ⟨nofun, rfl, fun m => by cases m <;> rfl⟩
    · exact ⟨nofun, rfl, fun m => by cases m <;> rfl⟩
  · cases h
    exact hjump _ _ nofun fun m => by cases m <;> rfl
  · cases h
    exact fun _ => ⟨nofun, fun m => by cases m <;> rfl⟩
  · cases h
    split
    · exact ⟨nofun, rfl, fun m => by cases m <;> rfl⟩
    · exact ⟨nofun, rfl, fun m => by cases m <;> rfl⟩
  · cases h
    exact hjump _ _ nofun fun m => by cases m <;> rfl
  · cases h
    exact hjump _ _ nofun fun m => by cases m <;> rfl
  · cases h
    exact fun hfree => absurd hfree nofun
  · exact absurd rfl hlive
  · cases h

theorem worker_respects (hlive : live (.worker n) p) (h : pciVtblkDone dev p c v = some x) : Respects (.worker n) p x := by
  unfold pciVtblkDone at h
  split at h
  · split at h
    · cases h
      exact ⟨nofun, fun m => by cases m <;> rfl⟩
    · cases h
  · cases h
    exact fun _ => ⟨nofun, fun m => by cases m <;> rfl⟩
  · rcases endchains_cases h with ⟨-, -, rfl⟩ | rfl
    · exact ⟨nofun, fun m => by cases m <;> rfl⟩
    · exact ⟨nofun, fun m => by cases m <;> rfl⟩
  · cases h
    exact ⟨nofun, rfl, fun m => by cases m <;> rfl⟩
  · cases h
    exact fun hfree => absurd hfree nofun
  · exact absurd rfl hlive
  · cases h

theorem tx_respects (h : pciVtnetTxThread p c v = some x) : Respects .tx p x := by
  unfold pciVtnetTxThread at h
  split at h
  · cases h
    exact fun _ => ⟨trivial, fun m => by cases m <;> rfl⟩
  · cases h
    exact ⟨trivial, rfl, fun m => by cases m <;> rfl⟩
  · cases h
    exact ⟨trivial, fun m => by cases m <;> rfl⟩
  · cases h
    exact fun _ => ⟨trivial, fun m => by cases m <;> rfl⟩
  · split at h
    · cases h
      exact ⟨trivial, fun m => by cases m <;> rfl⟩
    · cases h
      exact ⟨trivial, fun m => by cases m <;> rfl⟩
  · cases h
    exact ⟨trivial, rfl, fun m => by cases m <;> rfl⟩
  · rcases endchains_cases h with ⟨-, -, rfl⟩ | rfl
    · exact ⟨trivial, fun m => by cases m <;> rfl⟩
    · exact ⟨trivial, fun m => by cases m <;> rfl⟩
  · cases h
    exact fun _ => ⟨trivial, fun m => by cases m <;> rfl⟩
  · cases h
    exact ⟨trivial, rfl, fun m => by cases m <;> rfl⟩
  · cases h

theorem rx_respects (h : pciVtnetTapCallback dev p c v = some x) : Respects .rx p x := by
  unfold pciVtnetTapCallback at h
  split at h
  · split at h
    · cases h
      exact ⟨trivial, fun m => by cases m <;> rfl⟩
    · cases h
  · cases h
    exact fun _ => ⟨trivial, fun m => by cases m <;> rfl⟩
  · cases h
    exact ⟨trivial, fun m => by cases m <;> rfl⟩
  · cases h
    split
    · exact ⟨trivial, fun m => by cases m <;> rfl⟩
    · exact ⟨trivial, fun m => by cases m <;> rfl⟩
  · rcases endchains_cases h with ⟨-, -, rfl⟩ | rfl
    · exact ⟨trivial, fun m => by cases m <;> rfl⟩
    · exact ⟨trivial, fun m => by cases m <;> rfl⟩
  · cases h
    exact ⟨trivial, fun m => by cases m <;> rfl⟩
  · cases h
    exact ⟨trivial, rfl, fun m => by cases m <;> rfl⟩
  · cases h
    exact fun _ => ⟨trivial, fun m => by cases m <;> rfl⟩
  · cases h
    exact ⟨trivial, rfl, fun m => by cases m <;> rfl⟩
  · cases h

theorem code_respects {i : Thread} (hlive : live i p) (h : code dev i p c v = some x) : Respects i p x := by
  cases i with
  | vcpu n => exact vcpu_respects hlive h
  | worker n => exact worker_respects hlive h
  | tx => exact tx_respects h
  | rx => exact rx_respects h

theorem annotated (dev : Device) : Annotated (program dev) live holds where
  lock hlive hcode := code_respects hlive hcode
  unlock hlive hcode := code_respects hlive hcode
  jump hlive hcode := code_respects hlive hcode

end Annotation

/-! ## Interrupts and resets -/

/-- The step ends with an interrupt. -/
def raises (dev : Device) : Thread → Pc → Data → Bool
  | .vcpu _, .body .notify, c => dev = .block ∧ c.work ∧ c.inline ∧ c.intr
  | .worker _, .done, c => c.intr
  | .tx, .txProc, c => c.intr
  | .rx, .rxChains, c => c.intr
  | _, _, _ => false

/-- A virtual CPU in a reset of the network device. -/
def inReset : Pc → Bool
  | .txwaitLock | .txwait | .txSleep | .rxwaitLock | .rxwait | .rxSleep | .resetDev => true
  | _ => false

section Code
variable {dev : Device} {i : Thread} {p : Pc} {c : Data} {v : Shared} {x : Instr Mutex Pc Shared}

/-- An `if` between two other places. -/
theorem ite_ne_intrLock {b : Bool} {q r : Pc} (hq : q ≠ .intrLock) (hr : r ≠ .intrLock) : (if b then q else r) ≠ .intrLock := by
  cases b with
  | true => exact hq
  | false => exact hr

theorem endchains_intrLock {k : Pc} (h : vqEndchains c v k = some x) (hk : k ≠ .intrLock) (hnext : x.next = .intrLock) :
    c.intr = true ∧ v.msix = false ∧ x = .jump v .intrLock := by
  rcases endchains_cases h with ⟨hintr, hmsix, rfl⟩ | rfl
  · exact ⟨hintr, hmsix, rfl⟩
  · exact absurd hnext hk

theorem vcpu_intrLock (h : viPciAccess dev p c v = some x) (hnext : x.next = .intrLock) :
    (p = .body .notify ∧ dev = .block ∧ c.work = true ∧ c.inline = true ∧ c.intr = true) ∧ v.msix = false ∧ x = .jump v .intrLock := by
  unfold viPciAccess at h
  split at h
  case h_4 =>
    cases dev with
    | block =>
      dsimp only at h
      split at h
      · rename_i hwork
        split at h
        · rename_i hinline
          obtain ⟨hintr, hmsix, hres⟩ := endchains_intrLock h nofun hnext
          exact ⟨⟨rfl, rfl, hwork, hinline, hintr⟩, hmsix, hres⟩
        · cases h
          cases hnext
      · cases h
        cases hnext
    | net =>
      cases h
      exact absurd hnext (ite_ne_intrLock nofun nofun)
  case h_5 =>
    cases dev with
    | block =>
      cases h
      cases hnext
    | net =>
      cases h
      cases hnext
  case h_10 =>
    cases h
    exact absurd hnext (ite_ne_intrLock nofun nofun)
  case h_13 =>
    cases h
    exact absurd hnext (ite_ne_intrLock nofun nofun)
  all_goals
    cases h
    try cases hnext

/-- The lock of `vq_interrupt` is come to only by an interrupt without MSI-X. -/
theorem code_intrLock (h : code dev i p c v = some x) (hnext : x.next = .intrLock) :
    raises dev i p c = true ∧ v.msix = false ∧ x = .jump v .intrLock := by
  cases i with
  | vcpu n =>
    obtain ⟨⟨rfl, rfl, hwork, hinline, hintr⟩, hmsix, hres⟩ := vcpu_intrLock h hnext
    exact ⟨decide_eq_true ⟨rfl, hwork, hinline, hintr⟩, hmsix, hres⟩
  | worker n =>
    have h' : pciVtblkDone dev p c v = some x := h
    unfold pciVtblkDone at h'
    split at h'
    case h_1 =>
      split at h'
      · cases h'
        cases hnext
      · cases h'
    case h_3 => exact endchains_intrLock h' nofun hnext
    all_goals
      cases h'
      try cases hnext
  | tx =>
    have h' : pciVtnetTxThread p c v = some x := h
    unfold pciVtnetTxThread at h'
    split at h'
    case h_5 =>
      split at h'
      · cases h'
        cases hnext
      · cases h'
        cases hnext
    case h_7 => exact endchains_intrLock h' nofun hnext
    all_goals
      cases h'
      try cases hnext
  | rx =>
    have h' : pciVtnetTapCallback dev p c v = some x := h
    unfold pciVtnetTapCallback at h'
    split at h'
    case h_1 =>
      split at h'
      · cases h'
        cases hnext
      · cases h'
    case h_4 =>
      cases h'
      have hnext' : (if v.resetting ∨ c.work = false then Pc.rxFinish else Pc.rxChains) = .intrLock := hnext
      split at hnext' <;> cases hnext'
    case h_5 => exact endchains_intrLock h' nofun hnext
    all_goals
      cases h'
      try cases hnext

/-- What the code does to `resetting`. -/
inductive Resets (dev : Device) (i : Thread) (p : Pc) (v : Shared) (x : Instr Mutex Pc Shared) : Prop
  | begins (hdev : dev = .net) (hi : ∃ n, i = .vcpu n) (hp : p = .body .reset) (hnext : x.next = .txwaitLock)
      (hv : (x.result v).resetting = true)
  | ends (hi : ∃ n, i = .vcpu n) (hp : p = .resetDev) (hnext : x.next = .leave) (hv : (x.result v).resetting = false)
  | keeps (hv : (x.result v).resetting = v.resetting) (hin : (∃ n, i = .vcpu n) → inReset x.next = inReset p)

theorem endchains_resets {k : Pc} (h : vqEndchains c v k = some x) (hk : (∃ n, i = .vcpu n) → inReset k = inReset p ∧ inReset p = false) :
    Resets dev i p v x := by
  rcases endchains_cases h with ⟨-, -, rfl⟩ | rfl
  · exact .keeps rfl fun hi => (hk hi).2.symm
  · exact .keeps rfl fun hi => (hk hi).1

theorem vcpu_resets {n : Nat} (h : viPciAccess dev p c v = some x) : Resets dev (.vcpu n) p v x := by
  unfold viPciAccess at h
  split at h
  case h_4 =>
    cases dev with
    | block =>
      dsimp only at h
      split at h
      · split at h
        · exact endchains_resets h fun _ => ⟨rfl, rfl⟩
        · cases h
          exact .keeps rfl fun _ => rfl
      · cases h
        exact .keeps rfl fun _ => rfl
    | net =>
      cases h
      refine .keeps rfl fun _ => ?_
      show inReset (if c.work then Pc.pingLock else Pc.leave) = false
      split <;> rfl
  case h_5 =>
    cases dev with
    | block =>
      cases h
      exact .keeps rfl fun _ => rfl
    | net =>
      cases h
      exact .begins rfl ⟨n, rfl⟩ rfl rfl rfl
  case h_10 =>
    cases h
    refine .keeps rfl fun _ => ?_
    show inReset (if v.txInProgress then Pc.txSleep else Pc.rxwaitLock) = true
    split <;> rfl
  case h_13 =>
    cases h
    refine .keeps rfl fun _ => ?_
    show inReset (if v.rxInProgress then Pc.rxSleep else Pc.resetDev) = true
    split <;> rfl
  case h_15 =>
    cases h
    exact .ends ⟨n, rfl⟩ rfl rfl rfl
  case h_18 => cases h
  all_goals
    cases h
    exact .keeps rfl fun _ => rfl

theorem code_resets (h : code dev i p c v = some x) : Resets dev i p v x := by
  have hno : ∀ {j : Thread}, (∀ n, j ≠ .vcpu n) → ¬ ∃ n, j = .vcpu n := fun hne ⟨n, hn⟩ => hne n hn
  cases i with
  | vcpu n => exact vcpu_resets h
  | worker n =>
    have hi := @hno (.worker n) nofun
    have h' : pciVtblkDone dev p c v = some x := h
    unfold pciVtblkDone at h'
    split at h'
    case h_1 =>
      split at h'
      · cases h'
        exact .keeps rfl fun hv => absurd hv hi
      · cases h'
    case h_3 => exact endchains_resets h' fun hv => absurd hv hi
    case h_7 => cases h'
    all_goals
      cases h'
      exact .keeps rfl fun hv => absurd hv hi
  | tx =>
    have hi := @hno .tx nofun
    have h' : pciVtnetTxThread p c v = some x := h
    unfold pciVtnetTxThread at h'
    split at h'
    case h_5 =>
      split at h'
      · cases h'
        exact .keeps rfl fun hv => absurd hv hi
      · cases h'
        exact .keeps rfl fun hv => absurd hv hi
    case h_7 => exact endchains_resets h' fun hv => absurd hv hi
    case h_10 => cases h'
    all_goals
      cases h'
      exact .keeps rfl fun hv => absurd hv hi
  | rx =>
    have hi := @hno .rx nofun
    have h' : pciVtnetTapCallback dev p c v = some x := h
    unfold pciVtnetTapCallback at h'
    split at h'
    case h_1 =>
      split at h'
      · cases h'
        exact .keeps rfl fun hv => absurd hv hi
      · cases h'
    case h_5 => exact endchains_resets h' fun hv => absurd hv hi
    case h_10 => cases h'
    all_goals
      cases h'
      exact .keeps rfl fun hv => absurd hv hi

end Code

/-! ## Deadlocks -/

/-- At a lock of `vs_mtx`. -/
def wantsVs : Pc → Bool
  | .access _ | .doneLock | .intrLock => true
  | _ => false

/-- A thread is about to lock `vs_mtx`, which it has. -/
def SelfLocked (s : State) : Prop := ∃ i, wantsVs (s.pc i) = true ∧ s.owner .vs = some i

/-- In `pci_vtnet_txwait` or `pci_vtnet_rxwait`. -/
def waits (p : Pc) : Bool := inReset p ∧ p ≠ .resetDev

/-- A virtual CPU waits in a reset, with `vs_mtx` held, and the transmit thread or the receive callback waits for
`vs_mtx`. -/
def ResetStuck (s : State) : Prop :=
  ∃ n, waits (s.pc (.vcpu n)) = true ∧ s.owner .vs = some (.vcpu n) ∧ (s.pc .tx = .intrLock ∨ s.pc .rx = .intrLock)

/-- An interrupt without MSI-X comes neither from a thread that has `vs_mtx`, as all of the block device do, nor while the
network device is resetting, and a reset does not begin during one. -/
def Fine (dev : Device) (s : State) : Step → Prop
  | .run i c =>
    (raises dev i (s.pc i) c = true → s.shared.msix = false →
      holds i (s.pc i) .vs = false ∧ s.shared.resetting = false) ∧
    (dev = .net → s.pc i = .body .reset → s.pc .tx ≠ .intrLock ∧ s.pc .rx ≠ .intrLock)
  | .env _ => True

instance (dev : Device) (s : State) (a : Step) : Decidable (Fine dev s a) := by
  unfold Fine
  cases a with
  | run i c => exact inferInstance
  | env e => exact inferInstance

structure Inv (s : State) : Prop where
  owned : Owned live holds s
  /-- Whoever is at the lock of `vq_interrupt` does not have `vs_mtx`, and nobody resets the device. -/
  apart : ∀ i, s.pc i = .intrLock → holds i .intrLock .vs = false ∧ s.shared.resetting = false
  resetting : ∀ n, inReset (s.pc (.vcpu n)) = true → s.shared.resetting = true

section Safety
variable {dev : Device} {s t : State} {a : Step}

theorem inv_start (dev : Device) : Inv (start dev) := by
  have hpc : ∀ i, (start dev).pc i = .txStart ∧ i = .tx ∨ (start dev).pc i = .out := by
    intro i
    show (if dev = .net ∧ i = .tx then Pc.txStart else .out) = .txStart ∧ i = .tx ∨ (if dev = .net ∧ i = .tx then Pc.txStart else .out) = .out
    split
    · rename_i hnet
      exact Or.inl ⟨rfl, hnet.2⟩
    · exact Or.inr rfl
  refine ⟨⟨fun i => ?_, fun m i => ?_⟩, fun i hi => ?_, fun n hn => ?_⟩
  · rcases hpc i with ⟨hi, rfl⟩ | hi
    · trivial
    · rw [hi]
      cases i with
      | vcpu n => exact (nofun : Pc.out ≠ .intrUnlock)
      | worker n => exact (nofun : Pc.out ≠ .intrUnlock)
      | tx => trivial
      | rx => trivial
  · have hnone : holds i ((start dev).pc i) m = false := by
      rcases hpc i with ⟨hi, rfl⟩ | hi
      · rw [hi]
        cases m <;> rfl
      · rw [hi]
        cases i <;> cases m <;> rfl
    rw [hnone]
    exact ⟨nofun, nofun⟩
  · rcases hpc i with ⟨hpc, -⟩ | hpc
    · rw [hpc] at hi
      cases hi
    · rw [hpc] at hi
      cases hi
  · rcases hpc (.vcpu n) with ⟨-, hi⟩ | hpc
    · cases hi
    · rw [hpc] at hn
      cases hn

/-- A virtual CPU in a reset has `vs_mtx`. -/
theorem inReset_holds {n : Nat} {p : Pc} (h : inReset p = true) : holds (.vcpu n) p .vs = true := by
  cases p <;> first | rfl | cases h

/-- Only the transmit thread and the receive callback can be at the lock without `vs_mtx`. -/
theorem intrLock_thread {i : Thread} (h : holds i .intrLock .vs = false) : i = .tx ∨ i = .rx := by
  cases i with
  | vcpu n => cases h
  | worker n => cases h
  | tx => exact Or.inl rfl
  | rx => exact Or.inr rfl

theorem inv_step (hi : Inv s) (hfine : Fine dev s a) (hnext : next (program dev) s a = some t) : Inv t := by
  have howned := hi.owned.step (annotated dev) (next_step hnext)
  cases a with
  | env b =>
    obtain rfl := Option.some.inj hnext
    exact ⟨howned, hi.apart, hi.resetting⟩
  | run i c =>
    obtain ⟨x, hcode, hpc, hshared⟩ := next_run hnext
    have hcode' : code dev i (s.pc i) c s.shared = some x := hcode
    obtain ⟨hquiet, hreset⟩ := hfine
    refine ⟨howned, fun j hj => ?_, fun n hn => ?_⟩
    · rw [hpc] at hj
      rw [hshared]
      by_cases hji : j = i
      · -- the thread itself comes to the lock
        subst hji
        rw [Function.update_self] at hj
        obtain ⟨hraises, hmsix, rfl⟩ := code_intrLock hcode' hj
        obtain ⟨hvs, hres⟩ := hquiet hraises hmsix
        have hkeeps := (code_respects (hi.owned.live j) hcode').2 .vs
        exact ⟨hkeeps.trans hvs, hres⟩
      · rw [Function.update_of_ne hji] at hj
        obtain ⟨hvs, hres⟩ := hi.apart j hj
        refine ⟨hvs, ?_⟩
        cases code_resets hcode' with
        | begins hdev _ hp =>
          obtain ⟨htx, hrx⟩ := hreset hdev hp
          rcases intrLock_thread hvs with rfl | rfl
          · exact absurd hj htx
          · exact absurd hj hrx
        | ends _ _ _ hv => exact hv
        | keeps hv _ => rw [hv, hres]
    · rw [hpc] at hn
      rw [hshared]
      by_cases hni : Thread.vcpu n = i
      · subst hni
        rw [Function.update_self] at hn
        cases code_resets hcode' with
        | begins _ _ _ _ hv => exact hv
        | ends _ _ hnext _ =>
          rw [hnext] at hn
          cases hn
        | keeps hv hin =>
          rw [hin ⟨n, rfl⟩] at hn
          rw [hv, hi.resetting n hn]
      · rw [Function.update_of_ne hni] at hn
        have hres := hi.resetting n hn
        cases code_resets hcode' with
        | begins _ _ _ _ hv => exact hv
        | ends hv hp _ _ =>
          -- both would have the mutex
          obtain ⟨k, rfl⟩ := hv
          have hk : holds (.vcpu k) (s.pc (.vcpu k)) .vs = true := by
            rw [hp]
            rfl
          exact absurd (hi.owned.unique (inReset_holds hn) hk) hni
        | keeps hv _ => rw [hv, hres]

theorem inv_reachable (hr : ((system dev).restrict (Fine dev)).Reachable s) : Inv s := by
  induction hr with
  | init hinit =>
    have hs : _ = start dev := hinit
    rw [hs]
    exact inv_start dev
  | step _ hstep ih => exact inv_step ih hstep.1 hstep.2

theorem Inv.not_selfLocked (hi : Inv s) : ¬ SelfLocked s := by
  rintro ⟨i, hwants, howner⟩
  have hheld := (hi.owned.owner .vs i).mp howner
  cases hp : s.pc i with
  | intrLock =>
    rw [hp, (hi.apart i hp).1] at hheld
    cases hheld
  | access a =>
    rw [hp] at hheld
    cases i <;> cases hheld
  | doneLock =>
    rw [hp] at hheld
    cases i <;> cases hheld
  | _ =>
    rw [hp] at hwants
    cases hwants

theorem Inv.not_resetStuck (hi : Inv s) : ¬ ResetStuck s := by
  rintro ⟨n, hwaits, -, hlock⟩
  have hres := hi.resetting n (of_decide_eq_true hwaits).1
  have hfree : s.shared.resetting = false := by
    rcases hlock with htx | hrx
    · exact (hi.apart _ htx).2
    · exact (hi.apart _ hrx).2
  rw [hres] at hfree
  cases hfree

end Safety

/-- Where every interrupt without MSI-X comes from a thread that does not have `vs_mtx` and does not overlap a reset of the
network device, no thread locks `vs_mtx` twice and no reset waits for a thread that waits for it. -/
theorem locks_sound (dev : Device) (s : State) (hr : ((system dev).restrict (Fine dev)).Reachable s) :
    ¬ SelfLocked s ∧ ¬ ResetStuck s :=
  ⟨(inv_reachable hr).not_selfLocked, (inv_reachable hr).not_resetStuck⟩

/-- A request that is answered at once, and interrupts. -/
def answered : Data := ⟨.notify, true, true, true⟩

/-- With MSI-X, a notification that is answered at once comes to its end. -/
theorem locks_sound_msix : ∃ s, ((system .block).restrict (Fine .block)).Reachable s ∧
    s.pc (.vcpu 0) = .out ∧ ¬ SelfLocked s ∧ ¬ ResetStuck s := by
  let acts : List Step := [.env true, .run (.vcpu 0) answered, .run (.vcpu 0) answered, .run (.vcpu 0) answered,
    .run (.vcpu 0) { answered with work := false }, .run (.vcpu 0) answered]
  have hrun : (System.exec (System.guarded (Fine .block) (next (program .block))) (start .block) acts).map
      (fun s => s.pc (.vcpu 0)) = some .out := by decide +kernel
  obtain ⟨s, hs, hpc⟩ := Option.map_eq_some_iff.mp hrun
  have hr : ((system .block).restrict (Fine .block)).Reachable s := System.exec_reachable_guarded (.init rfl) hs
  exact ⟨s, hr, hpc, locks_sound .block s hr⟩

/-- Without MSI-X, a notification of the block device that is answered at once locks `vs_mtx` twice, and a reset of the
network device waits for the transmit thread, which waits for `vs_mtx`. -/
theorem locks_unsound : (∃ s, (system .block).Reachable s ∧ SelfLocked s) ∧ ∃ s, (system .net).Reachable s ∧ ResetStuck s := by
  constructor
  · let acts : List Step := [.run (.vcpu 0) answered, .run (.vcpu 0) answered, .run (.vcpu 0) answered]
    have hrun : (System.exec (next (program .block)) (start .block) acts).map
        (fun s => (s.pc (.vcpu 0), s.owner .vs)) = some (.intrLock, some (.vcpu 0)) := by decide +kernel
    obtain ⟨s, hs, hboth⟩ := Option.map_eq_some_iff.mp hrun
    obtain ⟨hpc, howner⟩ := Prod.mk.inj hboth
    refine ⟨s, System.exec_reachable (.init rfl) hs, .vcpu 0, ?_, howner⟩
    rw [hpc]
    rfl
  · let reset : Data := ⟨.reset, false, false, false⟩
    let acts : List Step := [.run .tx answered, .run .tx answered, .run .tx answered, .run .tx answered, .run .tx answered,
      .run .tx answered, .run (.vcpu 0) reset, .run (.vcpu 0) reset, .run (.vcpu 0) reset, .run .tx answered]
    have hrun : (System.exec (next (program .net)) (start .net) acts).map
        (fun s => (s.pc (.vcpu 0), s.owner .vs, s.pc .tx)) = some (.txwaitLock, some (.vcpu 0), .intrLock) := by decide +kernel
    obtain ⟨s, hs, hall⟩ := Option.map_eq_some_iff.mp hrun
    obtain ⟨hpc, hrest⟩ := Prod.mk.inj hall
    obtain ⟨howner, htx⟩ := Prod.mk.inj hrest
    refine ⟨s, System.exec_reachable (.init rfl) hs, 0, ?_, howner, Or.inl htx⟩
    rw [hpc]
    rfl

end Xhyve.Virtio.Locking
