import Mathlib.Data.List.Nodup
import Mathlib.Logic.Function.Basic
import Xhyve.Lib.Transition

/-!
# The event loop's change list

`mevent_add`, `mevent_update` and `mevent_delete` leave what is asked of an event in its one state word
and put the event on the change list; the loop's `mevent_build` turns the list into changes for
`kevent`. The kernel is the kqueue as far as the changes tell it.
-/

namespace Xhyve.Emul.Mevent

open Xhyve.Lib

def meventMax : Nat := 64

inductive EvType
  | read | write | timer | signal
deriving DecidableEq, Repr

/-- `MEV_ADD` to `MEV_DEL_PENDING`. -/
inductive MevState
  | add | enable | disable | delPending
deriving DecidableEq, Repr

/-- A filter with an identifier, under which the kernel knows an event. -/
abbrev Key := EvType × Int

structure Mevent where
  /-- The descriptor or signal; of a timer, the milliseconds. -/
  fd : Int
  timid : Int
  type : EvType
  cq : Bool
  state : MevState
  closefd : Bool
deriving DecidableEq, Repr

inductive Flags
  | add | enable | disable | delete
deriving DecidableEq, Repr

structure Kevent where
  key : Key
  data : Int
  flags : Flags
  /-- `udata`. -/
  mevp : Nat
deriving DecidableEq, Repr

/-! ## The kernel -/

/-- The events the kernel knows, and whether each is enabled. -/
abbrev Kernel := Key → Option Bool

/-- One change; `none` where the kernel does not know the event. -/
def applyChange (k : Kernel) (c : Kevent) : Option Kernel :=
  match c.flags with
  | .add => some (Function.update k c.key (some true))
  | .enable => if (k c.key).isSome then some (Function.update k c.key (some true)) else none
  | .disable => if (k c.key).isSome then some (Function.update k c.key (some false)) else none
  | .delete => if (k c.key).isSome then some (Function.update k c.key none) else none

/-- `kevent` with a change list: the kernel after it, and the changes it did not come to, the one it
stopped at first. -/
def kevent (k : Kernel) : List Kevent → Kernel × List Kevent
  | [] => (k, [])
  | c :: cs =>
    match applyChange k c with
    | none => (k, c :: cs)
    | some k' => kevent k' cs

/-- A close takes the descriptor's events with it. -/
def closeFd (k : Kernel) (fd : Int) : Kernel := fun key =>
  if key.2 = fd ∧ (key.1 = .read ∨ key.1 = .write) then none else k key

/-! ## The lists -/

structure Loop where
  /-- What each handle points to; `none` before it is allocated and after it is freed. -/
  mevent : Nat → Option Mevent
  globalHead : List Nat
  changeHead : List Nat
  meventTimid : Int
  /-- The next handle `calloc` gives. -/
  fresh : Nat
  /-- Calls of `mevent_update` that have made their unlocked checks and wait for the lock. -/
  inflight : List (Nat × MevState)
  /-- The changes `mevent_build` returned, until the loop's call of `kevent`. -/
  changelist : List Kevent
  kernel : Kernel
  /-- Changes `kevent` stopped at or never came to. -/
  refused : List Kevent
  /-- What was last requested of an event: enabled or disabled, `none` before it is added and once
  it is deleted. -/
  asked : Nat → Option Bool

def kqFlags : MevState → Flags
  | .add => .add
  | .enable => .enable
  | .disable => .disable
  | .delPending => .delete

/-- The filter and identifier of the event's changes. -/
def Mevent.key (e : Mevent) : Key :=
  (e.type, if e.type = .timer then e.timid else e.fd)

def Mevent.change (e : Mevent) (mevp : Nat) : Kevent where
  key := e.key
  data := if e.type = .timer then e.fd else 0
  flags := kqFlags e.state
  mevp := mevp

/-- Whether an event on the list has this descriptor and type; timers never clash. -/
def clashes (m : Loop) (tfd : Int) (type : EvType) (id : Nat) : Bool :=
  match m.mevent id with
  | some lp => type ≠ .timer ∧ lp.fd = tfd ∧ lp.type = type
  | none => false

/-- The event `mevent_add` allocates. -/
def added (m : Loop) (tfd : Int) (type : EvType) : Mevent where
  fd := tfd
  timid := if type = .timer then m.meventTimid else 0
  type := type
  cq := true
  state := .add
  closefd := false

/-- `mevent_add` with a handler; `alloc` is whether `calloc` finds memory. Where it returns `NULL`
nothing has changed. -/
def meventAdd (m : Loop) (tfd : Int) (type : EvType) (alloc : Bool) : Loop :=
  if tfd < 0 then m
  else if m.globalHead.any (clashes m tfd type) ∨ m.changeHead.any (clashes m tfd type) then m
  else if ¬ alloc then m
  else
    { m with
      mevent := Function.update m.mevent m.fresh (some (added m tfd type))
      changeHead := m.fresh :: m.changeHead
      meventTimid := if type = .timer then m.meventTimid + 1 else m.meventTimid
      fresh := m.fresh + 1
      asked := Function.update m.asked m.fresh (some true) }

/-- An event goes from the global list to the change list, unless it is there already. -/
def enqueue (m : Loop) (id : Nat) (e : Mevent) : Loop :=
  if e.cq then { m with mevent := Function.update m.mevent id (some e) }
  else
    { m with
      mevent := Function.update m.mevent id (some { e with cq := true })
      globalHead := m.globalHead.erase id
      changeHead := id :: m.changeHead }

/-- A request for an event that was not deleted. -/
def request (m : Loop) (id : Nat) (newstate : MevState) : Loop :=
  { m with asked := Function.update m.asked id ((m.asked id).map fun _ => newstate = .enable) }

/-- `mevent_update` up to its lock. -/
def meventUpdateCheck (m : Loop) (id : Nat) (e : Mevent) (newstate : MevState) : Loop :=
  if e.state = .delPending then m
  else if e.state = newstate then request m id newstate
  else { m with inflight := (id, newstate) :: m.inflight }

/-- `mevent_update` under its lock. -/
def meventUpdateLocked (m : Loop) (id : Nat) (e : Mevent) (newstate : MevState) : Loop :=
  let m := { m with inflight := m.inflight.erase (id, newstate) }
  request (enqueue m id { e with state := newstate }) id newstate

def meventDeleteEvent (m : Loop) (id : Nat) (e : Mevent) (closefd : Bool) : Loop :=
  { enqueue m id { e with state := .delPending, closefd := closefd || e.closefd } with
    asked := Function.update m.asked id none }

/-- One turn of the loop in `mevent_build`; `none` is its failed assertion. -/
def buildOne (m : Loop) (id : Nat) : Option Loop :=
  match m.mevent id with
  | none => none
  | some e =>
    let m :=
      if e.closefd then { m with kernel := closeFd m.kernel e.fd }
      else { m with changelist := m.changelist ++ [e.change id] }
    let m := { m with changeHead := m.changeHead.erase id }
    let m :=
      if e.state = .delPending then { m with mevent := Function.update m.mevent id none }
      else
        { m with
          mevent := Function.update m.mevent id (some { e with cq := false })
          globalHead := id :: m.globalHead }
    if m.changelist.length < meventMax then some m else none

def meventBuild (m : Loop) : Option Loop :=
  m.changeHead.foldlM buildOne m

/-! ## Runs -/

inductive Op
  | add (tfd : Int) (type : EvType) (alloc : Bool)
  /-- `mevent_enable` or `mevent_disable`, called. -/
  | update (id : Nat) (enable : Bool)
  /-- A waiting `mevent_update` has the lock. -/
  | locked (id : Nat) (newstate : MevState)
  | delete (id : Nat)
  | build
  | kevent
deriving DecidableEq, Repr

/-- A handle is used until what it points to is freed; the loop takes turns between
`mevent_build` and `kevent`. -/
def next (m : Loop) : Op → Option Loop
  | .add tfd type alloc => some (meventAdd m tfd type alloc)
  | .update id enable =>
    (m.mevent id).map fun e => meventUpdateCheck m id e (if enable then .enable else .disable)
  | .locked id newstate =>
    if (id, newstate) ∈ m.inflight then
      (m.mevent id).map fun e => meventUpdateLocked m id e newstate
    else none
  | .delete id => (m.mevent id).map fun e => meventDeleteEvent m id e false
  | .build => if m.changelist = [] then meventBuild m else none
  | .kevent =>
    if m.changelist = [] then none
    else
      some { m with
        kernel := (kevent m.kernel m.changelist).1
        refused := m.refused ++ (kevent m.kernel m.changelist).2
        changelist := [] }

def start : Loop where
  mevent := fun _ => none
  globalHead := []
  changeHead := []
  meventTimid := 43
  fresh := 0
  inflight := []
  changelist := []
  kernel := fun _ => none
  refused := []
  asked := fun _ => none

def system : System Loop Op := System.ofFn (· = start) next

/-! ## What is to hold -/

/-- The kernel once it has the changes that were built. -/
def settled (m : Loop) : Kernel := (kevent m.kernel m.changelist).1

structure Registered (m : Loop) : Prop where
  /-- No change so far was for an event the kernel did not know. -/
  accepted : m.refused = []
  /-- None of those it is about to be given is. -/
  acceptable : (kevent m.kernel m.changelist).2 = []
  /-- An event that was added and not deleted is as last requested, unless a change of it is still to
  be built. -/
  kept : ∀ id b, m.asked id = some b →
    ∃ e, m.mevent id = some e ∧ (e.cq = false → settled m e.key = some b)
  /-- The next turn of the loop builds that change. -/
  built : ∀ t, next m .build = some t → ∀ id b, m.asked id = some b →
    ∃ e, t.mevent id = some e ∧ settled t e.key = some b

/-- The event's `EV_ADD` is still to be built. -/
def Unbuilt (m : Loop) (id : Nat) : Prop :=
  ∃ e, m.mevent id = some e ∧ e.state = .add ∧ e.cq = true

/-- No request overwrites an addition that is still to be built. -/
def AfterAdd (m : Loop) : Op → Prop
  | .locked id _ => ¬ Unbuilt m id
  | .delete id => ¬ Unbuilt m id
  | _ => True

/-! ## Changes and the kernel -/

theorem kevent_append {k : Kernel} {cs : List Kevent} {c : Kevent} {k' : Kernel} :
    (kevent k cs).2 = [] → applyChange (kevent k cs).1 c = some k' →
      kevent k (cs ++ [c]) = (k', []) := by
  induction cs generalizing k with
  | nil =>
    intro _ h
    simp only [kevent] at h
    simp only [List.nil_append, kevent, h]
  | cons d cs ih =>
    intro hall h
    cases hd : applyChange k d with
    | none =>
      simp only [kevent, hd] at hall
      cases hall
    | some k₁ =>
      simp only [kevent, hd] at hall h
      simp only [List.cons_append, kevent, hd]
      exact ih hall h

/-- What an event's change makes of it in the kernel. -/
def MevState.effect : MevState → Option Bool
  | .add => some true
  | .enable => some true
  | .disable => some false
  | .delPending => none

theorem applyChange_event {k : Kernel} {e : Mevent} (id : Nat)
    (h : e.state ≠ .add → (k e.key).isSome) :
    applyChange k (e.change id) = some (Function.update k e.key e.state.effect) := by
  cases hs : e.state with
  | add => simp [applyChange, Mevent.change, kqFlags, hs, MevState.effect]
  | enable => simp [applyChange, Mevent.change, kqFlags, hs, MevState.effect, h (by simp [hs])]
  | disable => simp [applyChange, Mevent.change, kqFlags, hs, MevState.effect, h (by simp [hs])]
  | delPending => simp [applyChange, Mevent.change, kqFlags, hs, MevState.effect, h (by simp [hs])]

/-! ## The invariant -/

/-- The state word never contradicts what was last requested. -/
structure Agrees (s : MevState) (cq : Bool) (asked : Option Bool) : Prop where
  add : s = .add → asked = some true
  enable : s = .enable → asked ≠ some false
  disable : s = .disable → asked ≠ some true
  delete : s = .delPending → asked = none ∧ cq = true

structure EventOk (m : Loop) (id : Nat) (e : Mevent) : Prop where
  closefd : e.closefd = false
  timid : e.type = .timer → e.timid < m.meventTimid
  agrees : Agrees e.state e.cq (m.asked id)
  known : e.state ≠ .add ∨ e.cq = false → (settled m e.key).isSome
  kept : e.cq = false → ∀ b, m.asked id = some b → settled m e.key = some b

structure Inv (m : Loop) : Prop where
  accepted : m.refused = []
  acceptable : (kevent m.kernel m.changelist).2 = []
  change_nodup : m.changeHead.Nodup
  global_nodup : m.globalHead.Nodup
  mem_change : ∀ id, id ∈ m.changeHead ↔ ∃ e, m.mevent id = some e ∧ e.cq = true
  mem_global : ∀ id, id ∈ m.globalHead ↔ ∃ e, m.mevent id = some e ∧ e.cq = false
  fresh : ∀ id e, m.mevent id = some e → id < m.fresh
  held : ∀ id b, m.asked id = some b → ∃ e, m.mevent id = some e
  keys : ∀ id e id' e', m.mevent id = some e → m.mevent id' = some e' → e.key = e'.key → id = id'
  waiting : ∀ p ∈ m.inflight, p.2 = .enable ∨ p.2 = .disable
  event : ∀ id e, m.mevent id = some e → EventOk m id e

theorem inv_start : Inv start where
  accepted := rfl
  acceptable := rfl
  change_nodup := List.nodup_nil
  global_nodup := List.nodup_nil
  mem_change := by simp [start]
  mem_global := by simp [start]
  fresh := by simp [start]
  held := by simp [start]
  keys := by simp [start]
  waiting := by simp [start]
  event := by simp [start]

/-- A handle is the one that was written, or it points to what it pointed to. -/
theorem update_eq_some {f : Nat → Option Mevent} {i j : Nat} {v : Option Mevent} {e : Mevent}
    (h : Function.update f i v j = some e) : (j = i ∧ v = some e) ∨ (j ≠ i ∧ f j = some e) := by
  by_cases hj : j = i
  · subst hj
    rw [Function.update_self] at h
    exact .inl ⟨rfl, h⟩
  · rw [Function.update_of_ne hj] at h
    exact .inr ⟨hj, h⟩

/-! ## Adding -/

theorem not_clashes {m : Loop} {tfd : Int} {type : EvType} (h : Inv m)
    (hg : ¬ m.globalHead.any (clashes m tfd type)) (hc : ¬ m.changeHead.any (clashes m tfd type))
    {id : Nat} {e : Mevent} (he : m.mevent id = some e) (ht : type ≠ .timer) (hty : e.type = type) :
    e.fd ≠ tfd := by
  intro hfd
  have hclash : clashes m tfd type id = true := by simp [clashes, he, ht, hfd, hty]
  cases hq : e.cq with
  | false =>
    exact hg (List.any_eq_true.mpr ⟨id, (h.mem_global id).mpr ⟨e, he, hq⟩, hclash⟩)
  | true =>
    exact hc (List.any_eq_true.mpr ⟨id, (h.mem_change id).mpr ⟨e, he, hq⟩, hclash⟩)

theorem added_key_ne {m : Loop} {tfd : Int} {type : EvType} (h : Inv m)
    (hg : ¬ m.globalHead.any (clashes m tfd type)) (hc : ¬ m.changeHead.any (clashes m tfd type))
    {id : Nat} {e : Mevent} (he : m.mevent id = some e) : e.key ≠ (added m tfd type).key := by
  intro hk
  obtain ⟨hty, hid⟩ := Prod.mk.inj hk
  have hty : e.type = type := hty
  by_cases ht : type = .timer
  · have hid : e.timid = m.meventTimid := by simpa [added, hty, ht] using hid
    have := (h.event id e he).timid (hty.trans ht)
    omega
  · have hid : e.fd = tfd := by simpa [added, hty, ht] using hid
    exact not_clashes h hg hc he ht hty hid

theorem Inv.unallocated {m : Loop} (h : Inv m) : m.mevent m.fresh = none := by
  cases he : m.mevent m.fresh with
  | none => rfl
  | some e => exact absurd (h.fresh _ e he) (Nat.lt_irrefl _)

theorem inv_add {m : Loop} (h : Inv m) (tfd : Int) (type : EvType) (alloc : Bool) :
    Inv (meventAdd m tfd type alloc) := by
  by_cases h1 : tfd < 0
  · rwa [meventAdd, if_pos h1]
  by_cases h2 : m.globalHead.any (clashes m tfd type) ∨ m.changeHead.any (clashes m tfd type)
  · rwa [meventAdd, if_neg h1, if_pos h2]
  by_cases h3 : ¬ alloc
  · rwa [meventAdd, if_neg h1, if_neg h2, if_pos h3]
  rw [meventAdd, if_neg h1, if_neg h2, if_neg h3]
  obtain ⟨hg, hc⟩ := not_or.mp h2
  have hnone := h.unallocated
  have hne : ∀ id e, m.mevent id = some e → id ≠ m.fresh := by
    intro id e he heq
    rw [heq, hnone] at he
    cases he
  have hlook := fun id e => update_eq_some (f := m.mevent) (i := m.fresh)
    (v := some (added m tfd type)) (j := id) (e := e)
  have hasked : ∀ id, id ≠ m.fresh →
      Function.update m.asked m.fresh (some true) id = m.asked id :=
    fun id hid => Function.update_of_ne hid ..
  have hold : ∀ id e, m.mevent id = some e →
      Function.update m.mevent m.fresh (some (added m tfd type)) id = some e := by
    intro id e he
    rw [Function.update_of_ne (hne id e he), he]
  refine
    { accepted := h.accepted, acceptable := h.acceptable, change_nodup := ?_,
      global_nodup := h.global_nodup, mem_change := ?_, mem_global := ?_, fresh := ?_, held := ?_,
      keys := ?_, waiting := h.waiting, event := ?_ }
  · refine List.nodup_cons.mpr ⟨?_, h.change_nodup⟩
    intro hmem
    obtain ⟨e, he, -⟩ := (h.mem_change _).mp hmem
    exact hne _ e he rfl
  · intro id
    constructor
    · intro hmem
      rcases List.mem_cons.mp hmem with rfl | hmem
      · exact ⟨added m tfd type, Function.update_self .., rfl⟩
      · obtain ⟨e, he, hq⟩ := (h.mem_change id).mp hmem
        exact ⟨e, hold id e he, hq⟩
    · rintro ⟨e, he, hq⟩
      rcases hlook id e he with ⟨rfl, -⟩ | ⟨-, he⟩
      · exact List.mem_cons_self
      · exact List.mem_cons_of_mem _ ((h.mem_change id).mpr ⟨e, he, hq⟩)
  · intro id
    constructor
    · intro hmem
      obtain ⟨e, he, hq⟩ := (h.mem_global id).mp hmem
      exact ⟨e, hold id e he, hq⟩
    · rintro ⟨e, he, hq⟩
      rcases hlook id e he with ⟨-, hv⟩ | ⟨-, he⟩
      · obtain rfl := Option.some.inj hv
        cases hq
      · exact (h.mem_global id).mpr ⟨e, he, hq⟩
  · intro id e he
    rcases hlook id e he with ⟨rfl, -⟩ | ⟨-, he⟩
    · exact Nat.lt_succ_self _
    · exact Nat.lt_succ_of_lt (h.fresh id e he)
  · intro id b hb
    by_cases hid : id = m.fresh
    · exact ⟨added m tfd type, by rw [hid]; exact Function.update_self ..⟩
    · obtain ⟨e, he⟩ := h.held id b ((hasked id hid).symm.trans hb)
      exact ⟨e, hold id e he⟩
  · intro id e id' e' he he' hk
    rcases hlook id e he with ⟨rfl, hv⟩ | ⟨-, he⟩ <;>
      rcases hlook id' e' he' with ⟨rfl, hv'⟩ | ⟨-, he'⟩
    · rfl
    · rw [← Option.some.inj hv] at hk
      exact absurd hk.symm (added_key_ne h hg hc he')
    · rw [← Option.some.inj hv'] at hk
      exact absurd hk (added_key_ne h hg hc he)
    · exact h.keys id e id' e' he he' hk
  · intro id e he
    rcases hlook id e he with ⟨rfl, hv⟩ | ⟨hid, he⟩
    · obtain rfl := Option.some.inj hv
      refine ⟨rfl, ?_, ⟨fun _ => Function.update_self .., by simp [added], by simp [added],
        by simp [added]⟩, by simp [added], by simp [added]⟩
      intro ht
      have ht' : type = .timer := ht
      simp only [added, if_pos ht']
      omega
    · obtain ⟨hcl, htim, hag, hkn, hk⟩ := h.event id e he
      refine ⟨hcl, ?_, ?_, hkn, ?_⟩
      · intro ht
        have := htim ht
        dsimp only
        split_ifs <;> omega
      · change Agrees _ _ (Function.update m.asked m.fresh _ id)
        rwa [Function.update_of_ne hid]
      · intro hq b hb
        exact hk hq b ((hasked id hid).symm.trans hb)

/-! ## Requests -/

section Enqueue

variable {m : Loop} {id : Nat} {e : Mevent}

@[simp] theorem enqueue_mevent : (enqueue m id e).mevent =
    Function.update m.mevent id (some { e with cq := true }) := by
  unfold enqueue
  split_ifs with hq
  · rw [← hq]
  · rfl

@[simp] theorem enqueue_changeHead : (enqueue m id e).changeHead =
    if e.cq then m.changeHead else id :: m.changeHead := by
  unfold enqueue
  split_ifs <;> rfl

@[simp] theorem enqueue_globalHead : (enqueue m id e).globalHead =
    if e.cq then m.globalHead else m.globalHead.erase id := by
  unfold enqueue
  split_ifs <;> rfl

@[simp] theorem enqueue_settled : settled (enqueue m id e) = settled m := by
  unfold enqueue
  split_ifs <;> rfl

theorem enqueue_frame : (enqueue m id e).refused = m.refused ∧ (enqueue m id e).kernel = m.kernel ∧
    (enqueue m id e).changelist = m.changelist ∧ (enqueue m id e).meventTimid = m.meventTimid ∧
    (enqueue m id e).fresh = m.fresh ∧ (enqueue m id e).asked = m.asked := by
  unfold enqueue
  split_ifs <;> exact ⟨rfl, rfl, rfl, rfl, rfl, rfl⟩

end Enqueue

/-- Any request that goes through the change list: the event known to the kernel, its new state in
agreement with what is now asked. -/
theorem inv_request {m : Loop} (h : Inv m) {id : Nat} {e : Mevent} (he : m.mevent id = some e)
    (hb : ¬ Unbuilt m id) {s : MevState} (hs : s ≠ .add) {a : Option Bool} (ha : Agrees s true a)
    {fl : List (Nat × MevState)} (hfl : ∀ p ∈ fl, p.2 = .enable ∨ p.2 = .disable) :
    Inv { enqueue m id { e with state := s } with
      asked := Function.update m.asked id a, inflight := fl } := by
  obtain ⟨hr, hk, hc, ht, hf, -⟩ := @enqueue_frame m id { e with state := s }
  obtain ⟨hcl, htim, -, hkn, -⟩ := h.event id e he
  have hknown : (settled m e.key).isSome := by
    refine hkn ?_
    by_cases hadd : e.state = .add
    · refine .inr ?_
      cases hq : e.cq with
      | false => rfl
      | true => exact absurd ⟨e, he, hadd, hq⟩ hb
    · exact .inl hadd
  have hmev := @enqueue_mevent m id { e with state := s }
  have hset : ∀ fl a, settled { enqueue m id { e with state := s } with
      asked := a, inflight := fl } = settled m := by
    intro fl a
    exact @enqueue_settled m id { e with state := s }
  refine
    { accepted := hr.trans h.accepted, acceptable := ?_, change_nodup := ?_, global_nodup := ?_,
      mem_change := ?_, mem_global := ?_, fresh := ?_, held := ?_, keys := ?_, waiting := hfl,
      event := ?_ }
  · change (kevent (enqueue m id _).kernel (enqueue m id _).changelist).2 = []
    rw [hk, hc]
    exact h.acceptable
  · rw [enqueue_changeHead]
    split_ifs with hq
    · exact h.change_nodup
    · refine List.nodup_cons.mpr ⟨?_, h.change_nodup⟩
      intro hmem
      obtain ⟨e', he', hq'⟩ := (h.mem_change id).mp hmem
      rw [he] at he'
      obtain rfl := Option.some.inj he'
      exact hq hq'
  · rw [enqueue_globalHead]
    split_ifs
    · exact h.global_nodup
    · exact h.global_nodup.erase id
  · intro j
    rw [enqueue_changeHead, hmev]
    constructor
    · intro hmem
      by_cases hj : j = id
      · exact ⟨_, by rw [hj]; exact Function.update_self .., rfl⟩
      · have hmem : j ∈ m.changeHead := by
          split_ifs at hmem
          · exact hmem
          · exact (List.mem_cons.mp hmem).resolve_left hj
        obtain ⟨e', he', hq'⟩ := (h.mem_change j).mp hmem
        exact ⟨e', by rw [Function.update_of_ne hj, he'], hq'⟩
    · rintro ⟨e', he', hq'⟩
      rcases update_eq_some he' with ⟨rfl, -⟩ | ⟨-, he'⟩
      · split_ifs with hq
        · exact (h.mem_change j).mpr ⟨e, he, hq⟩
        · exact List.mem_cons_self
      · have hmem := (h.mem_change j).mpr ⟨e', he', hq'⟩
        split_ifs
        · exact hmem
        · exact List.mem_cons_of_mem _ hmem
  · intro j
    rw [enqueue_globalHead, hmev]
    constructor
    · intro hmem
      have hj : j ≠ id ∧ j ∈ m.globalHead := by
        split_ifs at hmem with hq
        · refine ⟨?_, hmem⟩
          rintro rfl
          obtain ⟨e', he', hq'⟩ := (h.mem_global j).mp hmem
          rw [he] at he'
          obtain rfl := Option.some.inj he'
          exact Bool.false_ne_true (hq'.symm.trans hq)
        · exact (h.global_nodup.mem_erase_iff).mp hmem
      obtain ⟨e', he', hq'⟩ := (h.mem_global j).mp hj.2
      exact ⟨e', by rw [Function.update_of_ne hj.1, he'], hq'⟩
    · rintro ⟨e', he', hq'⟩
      rcases update_eq_some he' with ⟨-, hv⟩ | ⟨hj, he'⟩
      · obtain rfl := Option.some.inj hv
        cases hq'
      · have hmem := (h.mem_global j).mpr ⟨e', he', hq'⟩
        split_ifs
        · exact hmem
        · exact (h.global_nodup.mem_erase_iff).mpr ⟨hj, hmem⟩
  · intro j e' he'
    rw [hmev] at he'
    change j < (enqueue m id _).fresh
    rw [hf]
    rcases update_eq_some he' with ⟨rfl, -⟩ | ⟨-, he'⟩
    · exact h.fresh j e he
    · exact h.fresh j e' he'
  · intro j b hb'
    rw [hmev]
    by_cases hj : j = id
    · exact ⟨_, by rw [hj]; exact Function.update_self ..⟩
    · obtain ⟨e', he'⟩ := h.held j b ((Function.update_of_ne hj ..).symm.trans hb')
      exact ⟨e', by rw [Function.update_of_ne hj, he']⟩
  · intro j e₁ j' e₂ h₁ h₂ hkey
    -- The changed event has the key it had.
    have hsame : ∀ i e', (enqueue m id { e with state := s }).mevent i = some e' →
        ∃ e₀, m.mevent i = some e₀ ∧ e₀.key = e'.key := by
      intro i e' he'
      rw [hmev] at he'
      rcases update_eq_some he' with ⟨rfl, hv⟩ | ⟨-, he'⟩
      · obtain rfl := Option.some.inj hv
        exact ⟨e, he, rfl⟩
      · exact ⟨e', he', rfl⟩
    obtain ⟨e₁', h₁', hk₁⟩ := hsame j e₁ h₁
    obtain ⟨e₂', h₂', hk₂⟩ := hsame j' e₂ h₂
    exact h.keys j e₁' j' e₂' h₁' h₂' (hk₁.trans (hkey.trans hk₂.symm))
  · intro j e' he'
    rw [hmev] at he'
    rcases update_eq_some he' with ⟨rfl, hv⟩ | ⟨hj, he'⟩
    · obtain rfl := Option.some.inj hv
      refine ⟨hcl, ?_, ?_, ?_, by simp⟩
      · change e.type = .timer → e.timid < (enqueue m j _).meventTimid
        rw [ht]
        exact htim
      · change Agrees s true (Function.update m.asked j a j)
        rwa [Function.update_self]
      · intro _
        rw [hset]
        exact hknown
    · obtain ⟨hcl', htim', hag', hkn', hk'⟩ := h.event j e' he'
      refine ⟨hcl', ?_, ?_, ?_, ?_⟩
      · change e'.type = .timer → e'.timid < (enqueue m id _).meventTimid
        rw [ht]
        exact htim'
      · change Agrees _ _ (Function.update m.asked id a j)
        rwa [Function.update_of_ne hj]
      · rw [hset]
        exact hkn'
      · intro hq b hb'
        rw [hset]
        exact hk' hq b ((Function.update_of_ne hj ..).symm.trans hb')

theorem inv_delete {m : Loop} (h : Inv m) {id : Nat} {e : Mevent} (he : m.mevent id = some e)
    (hb : ¬ Unbuilt m id) : Inv (meventDeleteEvent m id e false) := by
  have ha : Agrees .delPending true none := ⟨by simp, by simp, by simp, by simp⟩
  have hcl : (false || e.closefd) = e.closefd := rfl
  have hfl : (enqueue m id { e with state := .delPending }).inflight = m.inflight := by
    unfold enqueue
    split_ifs <;> rfl
  have hinv := inv_request h he hb (by simp) ha h.waiting
  rw [← hfl] at hinv
  simpa only [meventDeleteEvent, hcl] using hinv

/-- What an update asks for: nothing more of an event that was deleted. -/
theorem agrees_update {newstate : MevState} (hn : newstate = .enable ∨ newstate = .disable)
    (a : Option Bool) (cq : Bool) :
    Agrees newstate cq (a.map fun _ => decide (newstate = .enable)) := by
  rcases hn with rfl | rfl <;> cases a <;> exact ⟨by simp, by simp, by simp, by simp⟩

theorem inv_updateCheck {m : Loop} (h : Inv m) {id : Nat} {e : Mevent} (he : m.mevent id = some e)
    {newstate : MevState} (hn : newstate = .enable ∨ newstate = .disable) :
    Inv (meventUpdateCheck m id e newstate) := by
  by_cases hd : e.state = .delPending
  · rwa [meventUpdateCheck, if_pos hd]
  by_cases hs : e.state = newstate
  · -- The state word already says so, and what was asked with it.
    have hag := (h.event id e he).agrees
    have hask : (m.asked id).map (fun _ => decide (newstate = .enable)) = m.asked id := by
      cases hb : m.asked id with
      | none => rfl
      | some b =>
        rcases hn with rfl | rfl
        · cases b with
          | false => exact absurd hb (hag.enable hs)
          | true => rfl
        · cases b with
          | false => rfl
          | true => exact absurd hb (hag.disable hs)
    rw [meventUpdateCheck, if_neg hd, if_pos hs, request, hask, Function.update_eq_self]
    exact h
  · rw [meventUpdateCheck, if_neg hd, if_neg hs]
    exact ⟨h.accepted, h.acceptable, h.change_nodup, h.global_nodup, h.mem_change, h.mem_global,
      h.fresh, h.held, h.keys, by simpa [hn] using h.waiting, fun i e' he' => ⟨(h.event i e' he').closefd, (h.event i e' he').timid,
        (h.event i e' he').agrees, (h.event i e' he').known, (h.event i e' he').kept⟩⟩

theorem inv_updateLocked {m : Loop} (h : Inv m) {id : Nat} {e : Mevent} (he : m.mevent id = some e)
    (hb : ¬ Unbuilt m id) {newstate : MevState} (hn : newstate = .enable ∨ newstate = .disable) :
    Inv (meventUpdateLocked m id e newstate) := by
  have hs : newstate ≠ .add := by rcases hn with rfl | rfl <;> simp
  have hfl : ∀ p ∈ m.inflight.erase (id, newstate), p.2 = .enable ∨ p.2 = .disable :=
    fun p hp => h.waiting p (List.mem_of_mem_erase hp)
  have hinv := inv_request h he hb hs (agrees_update hn (m.asked id) true) hfl
  have heq : meventUpdateLocked m id e newstate =
      { enqueue m id { e with state := newstate } with
        asked := Function.update m.asked id ((m.asked id).map fun _ => decide (newstate = .enable))
        inflight := m.inflight.erase (id, newstate) } := by
    unfold meventUpdateLocked request enqueue
    dsimp only
    split_ifs <;> rfl
  rw [heq]
  exact hinv

/-! ## The loop -/

/-- What `mevent_build` leaves of an event. -/
def built (e : Mevent) : Option Mevent :=
  if e.state = .delPending then none else some { e with cq := false }

theorem buildOne_cases {m t : Loop} {id : Nat} {e : Mevent} (he : m.mevent id = some e)
    (hcl : e.closefd = false) (h : buildOne m id = some t) :
    t = { m with
      mevent := Function.update m.mevent id (built e)
      changeHead := m.changeHead.erase id
      globalHead := if e.state = .delPending then m.globalHead else id :: m.globalHead
      changelist := m.changelist ++ [e.change id] } := by
  have hclf : ¬ e.closefd = true := by simp [hcl]
  simp only [buildOne, he, if_neg hclf] at h
  by_cases hd : e.state = .delPending
  · simp only [if_pos hd, Option.ite_none_right_eq_some, Option.some.injEq] at h
    rw [← h.2, built, if_pos hd, if_pos hd]
  · simp only [if_neg hd, Option.ite_none_right_eq_some, Option.some.injEq] at h
    rw [← h.2, built, if_neg hd, if_neg hd]

/-- The next change can be made, whatever was built before it. -/
theorem settled_change {m : Loop} (h : Inv m) {id : Nat} {e : Mevent} (he : m.mevent id = some e) :
    kevent m.kernel (m.changelist ++ [e.change id]) =
      (Function.update (settled m) e.key e.state.effect, []) :=
  kevent_append h.acceptable (applyChange_event id fun hs => (h.event id e he).known (.inl hs))

theorem effect_agrees {s : MevState} {cq : Bool} {a : Option Bool} (h : Agrees s cq a) {b : Bool}
    (ha : a = some b) : s.effect = some b := by
  subst ha
  cases s with
  | add => exact (h.add rfl).symm
  | enable =>
    cases b with
    | false => exact absurd rfl (h.enable rfl)
    | true => rfl
  | disable =>
    cases b with
    | false => rfl
    | true => exact absurd rfl (h.disable rfl)
  | delPending => cases (h.delete rfl).1

theorem inv_buildOne {m t : Loop} (h : Inv m) {id : Nat} {l : List Nat} (hl : m.changeHead = id :: l)
    (ht : buildOne m id = some t) : Inv t ∧ t.changeHead = l ∧ t.asked = m.asked := by
  obtain ⟨e, he, hq⟩ := (h.mem_change id).mp (by rw [hl]; exact List.mem_cons_self)
  obtain ⟨hcl, htim, hag, -, -⟩ := h.event id e he
  have hnd : id ∉ l ∧ l.Nodup := List.nodup_cons.mp (hl ▸ h.change_nodup)
  have hmem : ∀ j, j ∈ l ↔ j ≠ id ∧ j ∈ m.changeHead := by
    intro j
    rw [hl, List.mem_cons]
    constructor
    · intro hj
      exact ⟨fun heq => hnd.1 (heq ▸ hj), .inr hj⟩
    · rintro ⟨hne, hj⟩
      exact hj.resolve_left hne
  have hng : id ∉ m.globalHead := by
    intro hg
    obtain ⟨e', he', hq'⟩ := (h.mem_global id).mp hg
    rw [he] at he'
    obtain rfl := Option.some.inj he'
    exact Bool.false_ne_true (hq'.symm.trans hq)
  have hchange : m.changeHead.erase id = l := by rw [hl, List.erase_cons_head]
  have hset := settled_change h he
  obtain rfl := buildOne_cases he hcl ht
  -- Another event has another key, so the kernel's view of it stays.
  have hother : ∀ j e', j ≠ id → m.mevent j = some e' →
      Function.update (settled m) e.key e.state.effect e'.key = settled m e'.key := by
    intro j e' hj he'
    refine Function.update_of_ne (fun hk => hj ?_) ..
    exact h.keys j e' id e he' he hk
  have hbuilt : ∀ e', built e = some e' → e.state ≠ .delPending ∧ e' = { e with cq := false } := by
    intro e' hb
    unfold built at hb
    split_ifs at hb with hd
    exact ⟨hd, (Option.some.inj hb).symm⟩
  refine ⟨?_, hchange, rfl⟩
  refine
    { accepted := h.accepted, acceptable := congrArg Prod.snd hset, change_nodup := ?_,
      global_nodup := ?_, mem_change := ?_, mem_global := ?_, fresh := ?_, held := ?_,
      keys := ?_, waiting := h.waiting, event := ?_ }
  · rw [hchange]
    exact hnd.2
  · dsimp only
    split_ifs
    · exact h.global_nodup
    · exact List.nodup_cons.mpr ⟨hng, h.global_nodup⟩
  · intro j
    dsimp only
    rw [hchange, hmem]
    constructor
    · rintro ⟨hj, hjm⟩
      obtain ⟨e', he', hq'⟩ := (h.mem_change j).mp hjm
      exact ⟨e', by rw [Function.update_of_ne hj, he'], hq'⟩
    · rintro ⟨e', he', hq'⟩
      rcases update_eq_some he' with ⟨-, hv⟩ | ⟨hj, he'⟩
      · obtain ⟨-, rfl⟩ := hbuilt e' hv
        cases hq'
      · exact ⟨hj, (h.mem_change j).mpr ⟨e', he', hq'⟩⟩
  · intro j
    dsimp only
    by_cases hd : e.state = .delPending
    · rw [if_pos hd, built, if_pos hd, h.mem_global]
      constructor
      · rintro ⟨e', he', hq'⟩
        refine ⟨e', ?_, hq'⟩
        rw [Function.update_of_ne, he']
        rintro rfl
        exact hng ((h.mem_global j).mpr ⟨e', he', hq'⟩)
      · rintro ⟨e', he', hq'⟩
        rcases update_eq_some he' with ⟨-, hv⟩ | ⟨-, he'⟩
        · cases hv
        · exact ⟨e', he', hq'⟩
    · rw [if_neg hd, built, if_neg hd, List.mem_cons, h.mem_global]
      constructor
      · rintro (rfl | ⟨e', he', hq'⟩)
        · exact ⟨_, Function.update_self .., rfl⟩
        · refine ⟨e', ?_, hq'⟩
          rw [Function.update_of_ne, he']
          rintro rfl
          exact hng ((h.mem_global j).mpr ⟨e', he', hq'⟩)
      · rintro ⟨e', he', hq'⟩
        rcases update_eq_some he' with ⟨rfl, -⟩ | ⟨-, he'⟩
        · exact .inl rfl
        · exact .inr ⟨e', he', hq'⟩
  · intro j e' he'
    rcases update_eq_some he' with ⟨rfl, -⟩ | ⟨-, he'⟩
    · exact h.fresh j e he
    · exact h.fresh j e' he'
  · intro j b hb
    by_cases hj : j = id
    · subst hj
      have hd : e.state ≠ .delPending := by
        intro hd
        rw [(hag.delete hd).1] at hb
        cases hb
      exact ⟨{ e with cq := false }, (Function.update_self ..).trans (if_neg hd)⟩
    · obtain ⟨e', he'⟩ := h.held j b hb
      exact ⟨e', (Function.update_of_ne hj ..).trans he'⟩
  · intro j e₁ j' e₂ h₁ h₂ hkey
    have hsame : ∀ i e', Function.update m.mevent id (built e) i = some e' →
        ∃ e₀, m.mevent i = some e₀ ∧ e₀.key = e'.key := by
      intro i e' he'
      rcases update_eq_some he' with ⟨rfl, hv⟩ | ⟨-, he'⟩
      · obtain ⟨-, rfl⟩ := hbuilt e' hv
        exact ⟨e, he, rfl⟩
      · exact ⟨e', he', rfl⟩
    obtain ⟨e₁', h₁', hk₁⟩ := hsame j e₁ h₁
    obtain ⟨e₂', h₂', hk₂⟩ := hsame j' e₂ h₂
    exact h.keys j e₁' j' e₂' h₁' h₂' (hk₁.trans (hkey.trans hk₂.symm))
  · intro j e' he'
    rcases update_eq_some he' with ⟨rfl, hv⟩ | ⟨hj, he'⟩
    · obtain ⟨hd, rfl⟩ := hbuilt e' hv
      have hnow : ∀ b, m.asked j = some b → e.state.effect = some b := fun b => effect_agrees hag
      refine ⟨hcl, htim, ⟨hag.add, hag.enable, hag.disable, fun hd' => absurd hd' hd⟩, ?_, ?_⟩
      · intro _
        simp only [settled, hset]
        change (Function.update (settled m) e.key e.state.effect e.key).isSome
        rw [Function.update_self]
        cases hs : e.state with
        | delPending => exact absurd hs hd
        | _ => rfl
      · intro _ b hb
        simp only [settled, hset]
        exact (Function.update_self ..).trans (hnow b hb)
    · obtain ⟨hcl', htim', hag', hkn', hk'⟩ := h.event j e' he'
      refine ⟨hcl', htim', hag', ?_, ?_⟩
      · intro hs
        simp only [settled, hset]
        change (Function.update (settled m) e.key e.state.effect e'.key).isSome
        rw [hother j e' hj he']
        exact hkn' hs
      · intro hq' b hb
        simp only [settled, hset]
        exact (hother j e' hj he').trans (hk' hq' b hb)

theorem inv_foldlM : ∀ {l : List Nat} {m t : Loop}, Inv m → m.changeHead = l →
    l.foldlM buildOne m = some t → Inv t ∧ t.changeHead = [] ∧ t.asked = m.asked := by
  intro l
  induction l with
  | nil =>
    intro m t h hl ht
    obtain rfl := Option.some.inj ht
    exact ⟨h, hl, rfl⟩
  | cons id l ih =>
    intro m t h hl ht
    rw [List.foldlM_cons] at ht
    obtain ⟨m', hm', hrest⟩ := Option.bind_eq_some_iff.mp ht
    obtain ⟨hinv, hl', hask⟩ := inv_buildOne h hl hm'
    obtain ⟨hinv', hend, hask'⟩ := ih hinv hl' hrest
    exact ⟨hinv', hend, hask'.trans hask⟩

theorem inv_build {m t : Loop} (h : Inv m) (ht : next m .build = some t) :
    Inv t ∧ t.changeHead = [] ∧ t.asked = m.asked := by
  simp only [next, Option.ite_none_right_eq_some] at ht
  exact inv_foldlM h rfl ht.2

theorem inv_kevent {m t : Loop} (h : Inv m) (ht : next m .kevent = some t) : Inv t := by
  simp only [next, Option.ite_none_left_eq_some, Option.some.injEq] at ht
  obtain ⟨-, rfl⟩ := ht
  -- The changes were settled before the kernel got them.
  refine ⟨?_, rfl, h.change_nodup, h.global_nodup, h.mem_change, h.mem_global, h.fresh, h.held,
    h.keys, h.waiting, ?_⟩
  · dsimp only
    rw [h.accepted, h.acceptable, List.append_nil]
  · intro id e he
    obtain ⟨hcl, htim, hag, hkn, hk⟩ := h.event id e he
    exact ⟨hcl, htim, hag, hkn, hk⟩

theorem inv_next {m t : Loop} {o : Op} (h : Inv m) (ho : AfterAdd m o) (ht : next m o = some t) :
    Inv t := by
  cases o with
  | add tfd type alloc =>
    obtain rfl := Option.some.inj ht
    exact inv_add h tfd type alloc
  | update id enable =>
    obtain ⟨e, he, rfl⟩ := Option.map_eq_some_iff.mp ht
    refine inv_updateCheck h he ?_
    cases enable with
    | false => exact .inr rfl
    | true => exact .inl rfl
  | locked id newstate =>
    simp only [next, Option.ite_none_right_eq_some] at ht
    obtain ⟨hmem, ht⟩ := ht
    obtain ⟨e, he, rfl⟩ := Option.map_eq_some_iff.mp ht
    exact inv_updateLocked h he ho (h.waiting _ hmem)
  | delete id =>
    obtain ⟨e, he, rfl⟩ := Option.map_eq_some_iff.mp ht
    exact inv_delete h he ho
  | build => exact (inv_build h ht).1
  | kevent => exact inv_kevent h ht

theorem inductive_inv : (system.restrict AfterAdd).Inductive Inv where
  init m hm := by
    obtain rfl := hm
    exact inv_start
  step m o t h hs := inv_next h hs.1 hs.2

/-! ## Registrations are kept -/

theorem Inv.built {m t : Loop} (h : Inv m) (ht : next m .build = some t) {id : Nat} {b : Bool}
    (hb : m.asked id = some b) : ∃ e, t.mevent id = some e ∧ settled t e.key = some b := by
  obtain ⟨hinv, hl, hask⟩ := inv_build h ht
  rw [← hask] at hb
  obtain ⟨e, he⟩ := hinv.held id b hb
  refine ⟨e, he, (hinv.event id e he).kept ?_ b hb⟩
  cases hq : e.cq with
  | false => rfl
  | true =>
    have hmem := (hinv.mem_change id).mpr ⟨e, he, hq⟩
    rw [hl] at hmem
    cases hmem

/-- While no request overwrites an addition that is still to be built, the kernel takes every change,
and an event is in the kernel as it was last requested. -/
theorem registrations_kept {m : Loop} (h : (system.restrict AfterAdd).Reachable m) :
    Registered m := by
  have hinv := inductive_inv.reachable h
  refine ⟨hinv.accepted, hinv.acceptable, ?_, ?_⟩
  · intro id b hb
    obtain ⟨e, he⟩ := hinv.held id b hb
    exact ⟨e, he, fun hq => (hinv.event id e he).kept hq b hb⟩
  · intro t ht id b hb
    exact hinv.built ht hb

/-- Adds the serial port's input, waits for the loop, and turns it off. -/
def disableLater : List Op :=
  [.add 3 .read true, .build, .kevent, .update 0 false, .locked 0 .disable, .build]

instance (m : Loop) (id : Nat) : Decidable (Unbuilt m id) :=
  match he : m.mevent id with
  | none => .isFalse (by simp [Unbuilt, he])
  | some e => decidable_of_iff (e.state = .add ∧ e.cq = true) (by simp [Unbuilt, he])

instance : ∀ m o, Decidable (AfterAdd m o)
  | _, .add .. => .isTrue trivial
  | _, .update .. => .isTrue trivial
  | m, .locked id _ => inferInstanceAs (Decidable ¬ Unbuilt m id)
  | m, .delete id => inferInstanceAs (Decidable ¬ Unbuilt m id)
  | _, .build => .isTrue trivial
  | _, .kevent => .isTrue trivial

theorem registrations_kept_later :
    ∃ m, (system.restrict AfterAdd).Reachable m ∧ Registered m ∧
      settled m (.read, 3) = some false := by
  obtain ⟨m, hm, hk⟩ : ∃ m, System.exec (System.guarded AfterAdd next) start disableLater = some m ∧
      settled m (.read, 3) = some false := ⟨_, rfl, rfl⟩
  have hr : (system.restrict AfterAdd).Reachable m := System.exec_reachable_guarded (.init rfl) hm
  exact ⟨m, hr, registrations_kept hr, hk⟩

/-- Turns it off before the loop has built the addition. -/
def disableAtOnce : List Op :=
  [.add 3 .read true, .update 0 false, .locked 0 .disable, .build, .kevent]

/-- The addition is lost: the kernel is told to disable an event it was never told of. -/
theorem registration_lost : ∃ m, system.Reachable m ∧ ¬ Registered m ∧
    m.refused = [⟨(.read, 3), 0, .disable, 0⟩] ∧ m.asked 0 = some false ∧
    settled m (.read, 3) = none := by
  obtain ⟨m, hm, href, hask, hk⟩ : ∃ m, System.exec next start disableAtOnce = some m ∧
      m.refused = [⟨(.read, 3), 0, .disable, 0⟩] ∧ m.asked 0 = some false ∧
      settled m (.read, 3) = none := ⟨_, rfl, rfl, rfl, rfl⟩
  refine ⟨m, System.exec_reachable (.init rfl) hm, ?_, href, hask, hk⟩
  intro h
  rw [h.accepted] at href
  cases href

end Xhyve.Emul.Mevent
