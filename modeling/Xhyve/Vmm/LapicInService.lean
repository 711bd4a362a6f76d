import Xhyve.Vmm.Lapic

/-!
# The in-service stack mirrors the ISR registers

One invariant ties `isrvec_stk`, the eight ISR words, TPR and PPR together. It is
kept because `vlapic_pending_intr` offers only vectors of a priority class above
PPR, and PPR is never below the class of the top entry. The interrupt offered by
`vlapic_pending_intr` may be accepted after other processors raised further
requests, so the offer is part of the state.
-/

namespace Xhyve.Vmm.Lapic

open Xhyve.Lib

/-! ## The two consistency loops of `vlapic_update_ppr` -/

theorem prioIncreasing_iff (l : List Nat) (last : Int) :
    prioIncreasing last l = true ↔
      (∀ v ∈ l, last < prio v) ∧ l.Pairwise (prio · < prio ·) := by
  induction l generalizing last with
  | nil => simp [prioIncreasing]
  | cons v rest ih =>
    rw [prioIncreasing]
    by_cases h : (prio v : Int) ≤ last
    · simp [h, Int.not_lt.mpr h]
    · rw [if_neg h, ih, List.pairwise_cons]
      simp only [List.forall_mem_cons, Nat.cast_lt]
      constructor
      · rintro ⟨hall, hp⟩
        exact ⟨⟨by omega, fun u hu => by have := hall u hu; omega⟩, hall, hp⟩
      · rintro ⟨-, hall, hp⟩
        exact ⟨hall, hp⟩

theorem isrInSync_iff (isr : BitWords 32) (vs entries : List Nat) :
    isrInSync isr vs entries = true ↔ vs.filter isr.has <+: entries := by
  induction vs generalizing entries with
  | nil => simp [isrInSync]
  | cons v vs ih =>
    by_cases h : isr.has v = true
    · cases entries with
      | nil => simp [isrInSync, h]
      | cons e rest =>
        by_cases he : e = v
        · subst he
          simp [isrInSync, h, ih, List.cons_prefix_cons]
        · have hv : v ≠ e := fun hve => he hve.symm
          simp [isrInSync, h, he, hv, List.cons_prefix_cons]
    · simp [isrInSync, h, ih]

/-! ## The invariant -/

/-- The stack part: what `vlapic_update_ppr` checks, and that both directions agree. -/
structure StackOk (s : Vlapic) : Prop where
  placeholder : s.isrvecStk 0 = 0
  sync : s.stack = s.inService
  prios : s.stack.Pairwise (prio · < prio ·)
  legal : ∀ v ∈ s.stack, 16 ≤ v

structure Inv (s : Vlapic) : Prop extends StackOk s where
  requested : ∀ v, v < 256 → s.irr.has v = true → 16 ≤ v
  tprByte : s.tpr < 256
  pprEq : s.ppr = pprOf s.tpr (s.isrvecStk s.isrvecStkTop)

theorem StackOk.updatePpr {s : Vlapic} (h : StackOk s) :
    vlapicUpdatePpr s = .ok { s with ppr := pprOf s.tpr (s.isrvecStk s.isrvecStkTop) } := by
  have hzero : ¬ (s.isrvecStkTop = 0 ∧ s.isrvecStk s.isrvecStkTop ≠ 0) := by
    rintro ⟨ht, hne⟩
    rw [ht] at hne
    exact hne h.placeholder
  have hinc : prioIncreasing (-1) s.stack = true :=
    (prioIncreasing_iff _ _).mpr ⟨fun v _ => by omega, h.prios⟩
  have hsync : isrInSync s.isr (List.range 256) s.stack = true := by
    rw [isrInSync_iff, h.sync]
    exact List.prefix_refl _
  unfold vlapicUpdatePpr
  simp only [hzero, hinc, hsync, not_true_eq_false, ↓reduceIte]

/-- Sixteen priority classes, the lowest of which holds no legal vector. -/
theorem StackOk.top_lt {s : Vlapic} (h : StackOk s) : s.isrvecStkTop < isrvecStkSize := by
  have hlen : (s.stack.map prio).length = s.isrvecStkTop := by simp [Vlapic.stack]
  have hnd : (s.stack.map prio).Nodup :=
    (List.pairwise_map.mpr h.prios).imp Nat.ne_of_lt
  have hsub : ∀ p ∈ s.stack.map prio, p ∈ List.range 16 := by
    intro p hp
    obtain ⟨v, hv, rfl⟩ := List.mem_map.mp hp
    rw [h.sync] at hv
    have hlt : v < 256 := (BitWords.mem_elems.mp hv).1
    rw [List.mem_range, prio, Nat.shiftRight_eq_div_pow]
    omega
  have hle := (List.subperm_of_subset hnd hsub).length_le
  rw [hlen, List.length_range] at hle
  exact Nat.lt_succ_of_le hle

theorem prio_mono {u v : Nat} (h : u ≤ v) : prio u ≤ prio v := by
  simp only [prio, Nat.shiftRight_eq_div_pow]
  omega

theorem prio_and_f0 {v : Nat} (h : v < 256) : prio (v &&& 0xf0) = prio v := by
  have hlt : v >>> 4 < 2 ^ 4 := by
    rw [Nat.shiftRight_eq_div_pow]
    omega
  rw [prio, prio, Nat.shiftRight_and_distrib]
  exact Nat.and_two_pow_sub_one_of_lt_two_pow hlt

/-- PPR is never of a lower class than the top entry. -/
theorem prio_le_pprOf {tpr isrvec : Nat} (h : isrvec < 256) :
    prio isrvec ≤ prio (pprOf tpr isrvec) := by
  unfold pprOf
  split
  · assumption
  · rw [prio_and_f0 h]

/-! ## Handlers that only add requests -/

/-- `t` differs from `s` in pending requests and in registers the invariant does
not mention. -/
structure OnlyRequests (s t : Vlapic) : Prop where
  isr : t.isr = s.isr
  stk : t.isrvecStk = s.isrvecStk
  top : t.isrvecStkTop = s.isrvecStkTop
  tpr : t.tpr = s.tpr
  ppr : t.ppr = s.ppr
  keeps : ∀ v, s.irr.has v = true → t.irr.has v = true
  legal : ∀ v, t.irr.has v = true → s.irr.has v = true ∨ 16 ≤ v

namespace OnlyRequests

theorem of_irr_eq {s t : Vlapic} (hisr : t.isr = s.isr) (hstk : t.isrvecStk = s.isrvecStk)
    (htop : t.isrvecStkTop = s.isrvecStkTop) (htpr : t.tpr = s.tpr) (hppr : t.ppr = s.ppr)
    (hirr : t.irr = s.irr) : OnlyRequests s t :=
  ⟨hisr, hstk, htop, htpr, hppr, fun _ h => by rwa [hirr], fun _ h => Or.inl (by rwa [hirr] at h)⟩

theorem rfl' (s : Vlapic) : OnlyRequests s s := of_irr_eq rfl rfl rfl rfl rfl rfl

theorem trans {s t u : Vlapic} (h : OnlyRequests s t) (k : OnlyRequests t u) :
    OnlyRequests s u where
  isr := k.isr.trans h.isr
  stk := k.stk.trans h.stk
  top := k.top.trans h.top
  tpr := k.tpr.trans h.tpr
  ppr := k.ppr.trans h.ppr
  keeps v hv := k.keeps v (h.keeps v hv)
  legal v hv := (k.legal v hv).elim (h.legal v) Or.inr

theorem stack_eq {s t : Vlapic} (h : OnlyRequests s t) : t.stack = s.stack := by
  rw [Vlapic.stack, Vlapic.stack, h.stk, h.top]

theorem inv {s t : Vlapic} (h : OnlyRequests s t) (hi : Inv s) : Inv t where
  placeholder := by rw [h.stk]; exact hi.placeholder
  sync := by rw [h.stack_eq, hi.sync, Vlapic.inService, Vlapic.inService, h.isr]
  prios := by rw [h.stack_eq]; exact hi.prios
  legal := by rw [h.stack_eq]; exact hi.legal
  requested v hv hr := (h.legal v hr).elim (hi.requested v hv) id
  tprByte := by rw [h.tpr]; exact hi.tprByte
  pprEq := by rw [h.ppr, h.tpr, h.stk, h.top]; exact hi.pprEq

theorem emit (s : Vlapic) (e : Event) : OnlyRequests s (s.emit e) :=
  of_irr_eq rfl rfl rfl rfl rfl rfl

theorem setIrr {s : Vlapic} {v : Nat} (hv : 16 ≤ v) : OnlyRequests s (setIrr s v).1 := by
  unfold Lapic.setIrr
  split
  · exact rfl' s
  · refine ⟨rfl, rfl, rfl, rfl, rfl, fun u hu => ?_, fun u hu => ?_⟩
    · simp [BitWords.has_set, hu]
    · simp only [BitWords.has_set (show 0 < 32 by decide), Bool.or_eq_true,
        decide_eq_true_eq] at hu
      exact hu.elim (fun he => Or.inr (he ▸ hv)) Or.inl

theorem fireLvtWith {setError : Vlapic → Nat → Vlapic} (he : ∀ s m, OnlyRequests s (setError s m))
    (s : Vlapic) (lvt : Nat) : OnlyRequests s (fireLvtWith setError s lvt).1 := by
  unfold Lapic.fireLvtWith
  dsimp only
  split
  · exact rfl' s
  split
  · split
    · exact he _ _
    · rename_i hvec
      have hirr := setIrr (s := s) (Nat.le_of_not_lt hvec)
      split
      · exact hirr.trans (emit _ _)
      · exact hirr
  split
  · exact emit _ _
  split
  · exact emit _ _
  · exact rfl' s

theorem setError (s : Vlapic) (mask : Nat) : OnlyRequests s (vlapicSetError s mask) := by
  unfold vlapicSetError
  dsimp only
  split
  · exact of_irr_eq rfl rfl rfl rfl rfl rfl
  · have hnested : ∀ (s : Vlapic) (m : Nat),
        OnlyRequests s { s with esrPending := s.esrPending ||| m } :=
      fun s m => of_irr_eq rfl rfl rfl rfl rfl rfl
    have hset : OnlyRequests s
        { s with esrPending := s.esrPending ||| mask, esrFiring := true } :=
      of_irr_eq rfl rfl rfl rfl rfl rfl
    exact (hset.trans (fireLvtWith hnested _ _)).trans (of_irr_eq rfl rfl rfl rfl rfl rfl)

theorem fireLvt (s : Vlapic) (lvt : Nat) : OnlyRequests s (vlapicFireLvt s lvt).1 :=
  fireLvtWith setError s lvt

theorem setIntrReady (s : Vlapic) (v : Nat) (level : Bool) :
    OnlyRequests s (vlapicSetIntrReady s v level).1 := by
  unfold vlapicSetIntrReady
  split
  · exact rfl' s
  split
  · exact setError _ _
  · rename_i hv
    exact setIrr (Nat.le_of_not_lt hv)

theorem lvtWriteHandler (s : Vlapic) (i : Lvt) : OnlyRequests s (vlapicLvtWriteHandler s i) :=
  of_irr_eq rfl rfl rfl rfl rfl rfl

theorem maskLvt_foldl (l : List Lvt) (s : Vlapic) : OnlyRequests s (l.foldl maskLvt s) := by
  induction l generalizing s with
  | nil => exact rfl' s
  | cons i l ih =>
    have hi : OnlyRequests s (maskLvt s i) := of_irr_eq rfl rfl rfl rfl rfl rfl
    exact hi.trans (ih _)

theorem maskLvts (s : Vlapic) : OnlyRequests s (vlapicMaskLvts s) := maskLvt_foldl _ s

theorem svrWriteHandler (s : Vlapic) : OnlyRequests s (vlapicSvrWriteHandler s) := by
  have hlast : OnlyRequests s { s with svrLast := s.svr } := of_irr_eq rfl rfl rfl rfl rfl rfl
  unfold vlapicSvrWriteHandler
  dsimp only
  split
  · split
    · exact (hlast.trans (emit _ _)).trans (maskLvts _)
    · split
      · exact hlast.trans (emit _ _)
      · exact hlast
  · exact hlast

theorem setTmr (s : Vlapic) (v : Nat) (level : Bool) : OnlyRequests s (vlapicSetTmr s v level) :=
  of_irr_eq rfl rfl rfl rfl rfl rfl

end OnlyRequests

/-! ## Handlers that move the stack or the task priority -/

theorem stack_succ {s : Vlapic} {n : Nat} (h : s.isrvecStkTop = n + 1) :
    s.stack = ({ s with isrvecStkTop := n } : Vlapic).stack ++ [s.isrvecStk s.isrvecStkTop] := by
  simp [Vlapic.stack, h, List.range_succ]

/-- With a legal stack the entry at the top index is a byte, zero when the stack is empty. -/
theorem StackOk.top_entry_lt {s : Vlapic} (h : StackOk s) :
    s.isrvecStk s.isrvecStkTop < 256 := by
  cases ht : s.isrvecStkTop with
  | zero => rw [h.placeholder]; omega
  | succ n =>
    have hmem : s.isrvecStk s.isrvecStkTop ∈ s.inService := by
      rw [← h.sync, stack_succ ht]
      simp
    rw [← ht]
    exact (BitWords.mem_elems.mp hmem).1

theorem StackOk.inv_ppr {s : Vlapic} (h : StackOk s)
    (hreq : ∀ v, v < 256 → s.irr.has v = true → 16 ≤ v) (htpr : s.tpr < 256) :
    Inv { s with ppr := pprOf s.tpr (s.isrvecStk s.isrvecStkTop) } :=
  { placeholder := h.placeholder, sync := h.sync, prios := h.prios, legal := h.legal,
    requested := hreq, tprByte := htpr, pprEq := rfl }

theorem Inv.setTpr {s : Vlapic} (hi : Inv s) {val : Nat} (hv : val < 256) :
    ∃ t, vlapicSetTpr s val = .ok t ∧ Inv t := by
  unfold vlapicSetTpr
  by_cases h : s.tpr = val
  · exact ⟨s, by simp [h], hi⟩
  · have hok : StackOk { s with tpr := val } :=
      ⟨hi.placeholder, hi.sync, hi.prios, hi.legal⟩
    exact ⟨_, by rw [if_pos h]; exact hok.updatePpr, hok.inv_ppr hi.requested hv⟩

theorem Inv.setCr8 {s : Vlapic} (hi : Inv s) (val : Nat) :
    ∃ t, vlapicSetCr8 s val = .ok t ∧ Inv t := by
  unfold vlapicSetCr8
  split
  · exact ⟨_, rfl, (OnlyRequests.emit s .injectGp).inv hi⟩
  · exact hi.setTpr (Nat.mod_lt _ (by decide))

/-- The scan of the ISR words finds exactly the top entry. -/
theorem StackOk.highest {s : Vlapic} (h : StackOk s) : s.isr.highest 8 = s.stack.getLast? := by
  rw [BitWords.highest_eq_getLast? (by decide), h.sync]
  rfl

theorem Inv.processEoi {s : Vlapic} (hi : Inv s) :
    ∃ t, vlapicProcessEoi s = .ok t ∧ Inv t := by
  unfold vlapicProcessEoi
  rw [hi.highest]
  cases ht : s.isrvecStkTop with
  | zero =>
    have hnil : s.stack = [] := by simp [Vlapic.stack, ht]
    rw [hnil]
    exact ⟨_, rfl, (OnlyRequests.emit s .gratuitousEoi).inv hi⟩
  | succ n =>
    have hs := stack_succ ht
    have hclear : (s.isr.clear (s.isrvecStk s.isrvecStkTop)).elems 256 =
        ({ s with isrvecStkTop := n } : Vlapic).stack :=
      BitWords.elems_clear (by decide) (by rw [← hs, hi.sync]; rfl)
    have hok : StackOk { s with
        isr := s.isr.clear (s.isrvecStk s.isrvecStkTop), isrvecStkTop := n } := by
      have hp := hi.prios
      have hl := hi.legal
      rw [hs] at hp hl
      exact ⟨hi.placeholder, hclear.symm, (List.pairwise_append.mp hp).1,
        fun v hv => hl v (List.mem_append_left _ hv)⟩
    have hinv := hok.inv_ppr hi.requested hi.tprByte
    rw [hs, List.getLast?_concat]
    simp only [Nat.succ_ne_zero, ↓reduceIte, Nat.add_sub_cancel, hok.updatePpr, Except.map]
    refine ⟨_, rfl, ?_⟩
    split
    · exact (OnlyRequests.emit _ _).inv hinv
    · exact hinv

/-- Every in-service vector is of a class no higher than PPR's. -/
theorem Inv.prio_le_ppr {s : Vlapic} (hi : Inv s) {v : Nat} (hv : v ∈ s.stack) :
    prio v ≤ prio s.ppr := by
  have htop : prio (s.isrvecStk s.isrvecStkTop) ≤ prio s.ppr := by
    rw [hi.pprEq]
    exact prio_le_pprOf hi.top_entry_lt
  cases ht : s.isrvecStkTop with
  | zero => simp [Vlapic.stack, ht] at hv
  | succ n =>
    have hp := hi.prios
    rw [stack_succ ht] at hv hp
    rcases List.mem_append.mp hv with h | h
    · exact ((List.pairwise_append.mp hp).2.2 v h _ (by simp)).le.trans htop
    · rw [List.mem_singleton.mp h]
      exact htop

/-- The state `vlapic_intr_accepted` hands to `vlapic_update_ppr`. -/
def accepted (s : Vlapic) (vector : Nat) : Vlapic :=
  { s with
    irr := s.irr.clear vector
    isr := s.isr.set vector
    isrvecStkTop := s.isrvecStkTop + 1
    isrvecStk := Function.update s.isrvecStk (s.isrvecStkTop + 1) (vector % 256) }

theorem accepted_stack (s : Vlapic) {vector : Nat} (hv : vector < 256) :
    (accepted s vector).stack = s.stack ++ [vector] := by
  have hlow : ∀ i ∈ List.range s.isrvecStkTop,
      Function.update s.isrvecStk (s.isrvecStkTop + 1) vector (i + 1) = s.isrvecStk (i + 1) := by
    intro i hi
    have hlt := List.mem_range.mp hi
    exact Function.update_of_ne (by omega) _ _
  simp only [Vlapic.stack, accepted, Nat.mod_eq_of_lt hv, List.range_succ, List.map_append,
    List.map_cons, List.map_nil, Function.update_self]
  rw [List.map_congr_left hlow]

theorem Inv.accepted_ok {s : Vlapic} (hi : Inv s) {vector : Nat} (hv : vector < 256)
    (hlegal : 16 ≤ vector) (hprio : prio s.ppr < prio vector) : StackOk (accepted s vector) := by
  have hclass : ∀ u ∈ s.stack, prio u < prio vector :=
    fun u hu => (hi.prio_le_ppr hu).trans_lt hprio
  have hbelow : ∀ u ∈ s.inService, u < vector := by
    intro u hu
    rw [← hi.sync] at hu
    exact Nat.lt_of_not_le fun hle => (hclass u hu).not_ge (prio_mono hle)
  refine ⟨?_, ?_, ?_, ?_⟩
  · simpa [accepted, Function.update] using hi.placeholder
  · rw [accepted_stack s hv, hi.sync]
    exact (BitWords.elems_set (by decide) hv hbelow).symm
  · rw [accepted_stack s hv, List.pairwise_append]
    exact ⟨hi.prios, List.pairwise_singleton _ _, by simpa using hclass⟩
  · rw [accepted_stack s hv]
    intro u hu
    rcases List.mem_append.mp hu with h | h
    · exact hi.legal u h
    · rw [List.mem_singleton.mp h]
      exact hlegal

theorem Inv.intrAccepted_eq {s : Vlapic} (hi : Inv s) {vector : Nat} (hv : vector < 256)
    (hlegal : 16 ≤ vector) (hprio : prio s.ppr < prio vector) :
    vlapicIntrAccepted s vector = .ok { accepted s vector with ppr := pprOf s.tpr vector } := by
  have hok := hi.accepted_ok hv hlegal hprio
  have hroom : ¬ s.isrvecStkTop + 1 ≥ isrvecStkSize := Nat.not_le.mpr hok.top_lt
  have htop : (accepted s vector).isrvecStk (accepted s vector).isrvecStkTop = vector := by
    simp only [accepted, Function.update_self, Nat.mod_eq_of_lt hv]
  have hppr := hok.updatePpr
  rw [htop] at hppr
  rw [vlapicIntrAccepted, if_neg hroom]
  exact hppr

theorem Inv.intrAccepted {s : Vlapic} (hi : Inv s) {vector : Nat} (hv : vector < 256)
    (hlegal : 16 ≤ vector) (hprio : prio s.ppr < prio vector) :
    ∃ t, vlapicIntrAccepted s vector = .ok t ∧ Inv t := by
  have hok := hi.accepted_ok hv hlegal hprio
  have hroom : ¬ s.isrvecStkTop + 1 ≥ isrvecStkSize := Nat.not_le.mpr hok.top_lt
  refine ⟨_, ?_, hok.inv_ppr ?_ hi.tprByte⟩
  · rw [vlapicIntrAccepted, if_neg hroom]
    exact hok.updatePpr
  · intro u hu hr
    rw [accepted, BitWords.has_clear (by decide), Bool.and_eq_true] at hr
    exact hi.requested u hu hr.2

/-! ## Runs -/

/-- A processor's local APIC with the interrupt `vlapic_pending_intr` last offered it. -/
structure Vcpu where
  lapic : Vlapic
  offered : Option Nat

inductive Op
  /- Any processor or device, at any time. -/
  | setIntrReady (vector : Fin 256) (level : Bool)
  | fireLvt (i : Lvt)
  | setTmr (vector : Fin 256) (level : Bool)
  /- The processor's own exits and its VM entry. -/
  | pendingIntr
  | intrAccepted
  | eoi
  | setTpr (data : Nat)
  | setCr8 (val : Nat)
  | svrWrite (data : Nat)
  | lvtWrite (i : Lvt) (data : Nat)
  | esrWrite

/-- An accept without a standing offer is not a call the VM entry code makes. -/
def apply (c : Vcpu) : Op → Except String Vcpu
  | .setIntrReady v level => .ok { c with lapic := (vlapicSetIntrReady c.lapic v level).1 }
  | .fireLvt i => .ok { c with lapic := (vlapicFireLvt c.lapic (triggerLvt c.lapic i)).1 }
  | .setTmr v level => .ok { c with lapic := vlapicSetTmr c.lapic v level }
  | .pendingIntr => .ok { c with offered := vlapicPendingIntr c.lapic }
  | .intrAccepted =>
    match c.offered with
    | none => .ok c
    | some v => (vlapicIntrAccepted c.lapic v).map (⟨·, none⟩)
  | .eoi => (vlapicProcessEoi c.lapic).map (⟨·, none⟩)
  | .setTpr data => (vlapicSetTpr c.lapic (data % 256)).map (⟨·, none⟩)
  | .setCr8 val => (vlapicSetCr8 c.lapic val).map (⟨·, none⟩)
  | .svrWrite data => .ok ⟨vlapicSvrWriteHandler { c.lapic with svr := data % 2 ^ 32 }, none⟩
  | .lvtWrite i data =>
    .ok ⟨vlapicLvtWriteHandler
      { c.lapic with lvt := Function.update c.lapic.lvt i (data % 2 ^ 32) } i, none⟩
  | .esrWrite => .ok ⟨vlapicEsrWriteHandler c.lapic, none⟩

def next (c : Vcpu) (op : Op) : Option Vcpu := (apply c op).toOption

def system : System Vcpu Op := .ofFn (· = ⟨vlapicInit, none⟩) next

/-- The offer stays acceptable: requests are never withdrawn by other processors
and PPR does not move between the offer and its acceptance. -/
structure Good (c : Vcpu) : Prop where
  inv : Inv c.lapic
  offer : ∀ v, c.offered = some v →
    v < 256 ∧ c.lapic.irr.has v = true ∧ prio c.lapic.ppr < prio v

theorem Good.onlyRequests {c : Vcpu} (h : Good c) {t : Vlapic} (hr : OnlyRequests c.lapic t) :
    Good { c with lapic := t } where
  inv := hr.inv h.inv
  offer v hv := by
    obtain ⟨hlt, hhas, hp⟩ := h.offer v hv
    exact ⟨hlt, hr.keeps v hhas, by rw [hr.ppr]; exact hp⟩

theorem Good.withdrawn {t : Vlapic} (h : Inv t) : Good ⟨t, none⟩ := ⟨h, fun _ hv => by simp at hv⟩

theorem pendingIntr_spec {s : Vlapic} {v : Nat} (h : vlapicPendingIntr s = some v) :
    v < 256 ∧ s.irr.has v = true ∧ prio s.ppr < prio v := by
  unfold vlapicPendingIntr at h
  rw [BitWords.highest_eq_getLast? (by decide)] at h
  cases hl : (s.irr.elems (8 * 32)).getLast? with
  | none => simp [hl] at h
  | some u =>
    rw [hl] at h
    dsimp only at h
    split at h
    · rename_i hp
      obtain rfl := Option.some.inj h
      have hmem := BitWords.mem_elems.mp (List.mem_of_getLast? hl)
      exact ⟨hmem.1, hmem.2, hp⟩
    · simp at h

theorem pendingIntr_max {s : Vlapic} {v : Nat} (h : vlapicPendingIntr s = some v) {u : Nat}
    (hu : u < 256) (hr : s.irr.has u = true) : u ≤ v := by
  have hmem : u ∈ s.irr.elems (8 * 32) := BitWords.mem_elems.mpr ⟨hu, hr⟩
  have hp := BitWords.elems_pairwise s.irr (8 * 32)
  have hlast : (s.irr.elems (8 * 32)).getLast? = some v := by
    rw [← BitWords.highest_eq_getLast? (by decide)]
    unfold vlapicPendingIntr at h
    split at h
    · split at h
      · rwa [← h]
      · cases h
    · cases h
  obtain ⟨below, heq⟩ := List.getLast?_eq_some_iff.mp hlast
  rw [heq] at hmem hp
  rcases List.mem_append.mp hmem with hb | hb
  · exact ((List.pairwise_append.mp hp).2.2 u hb v (by simp)).le
  · exact (List.mem_singleton.mp hb).le

/-- Once the highest request is in service, no other one is of a class above it. -/
theorem Inv.pendingIntr_accepted {s t : Vlapic} (hi : Inv s) {v : Nat}
    (h : vlapicPendingIntr s = some v) (ht : vlapicIntrAccepted s v = .ok t) :
    vlapicPendingIntr t = none := by
  obtain ⟨hv, hhas, hp⟩ := pendingIntr_spec h
  rw [hi.intrAccepted_eq hv (hi.requested v hv hhas) hp] at ht
  obtain rfl := Except.ok.inj ht
  rw [Option.eq_none_iff_forall_ne_some]
  intro u hu
  obtain ⟨hu256, hur, hup⟩ := pendingIntr_spec hu
  change (s.irr.clear v).has u = true at hur
  rw [BitWords.has_clear (by decide), Bool.and_eq_true] at hur
  have hle : prio u ≤ prio v := prio_mono (pendingIntr_max h hu256 hur.2)
  have hppr : prio v ≤ prio (pprOf s.tpr v) := prio_le_pprOf hv
  have hlt : prio (pprOf s.tpr v) < prio u := hup
  omega

/-- Every operation returns, and keeps the invariant. -/
theorem Good.apply {c : Vcpu} (h : Good c) (op : Op) : ∃ d, apply c op = .ok d ∧ Good d := by
  have hmap : ∀ {x : Except String Vlapic}, (∃ t, x = .ok t ∧ Inv t) →
      ∃ d, x.map (⟨·, none⟩ : Vlapic → Vcpu) = .ok d ∧ Good d := by
    rintro _ ⟨t, rfl, ht⟩
    exact ⟨_, rfl, .withdrawn ht⟩
  cases op with
  | setIntrReady v level => exact ⟨_, rfl, h.onlyRequests (.setIntrReady _ _ _)⟩
  | fireLvt i => exact ⟨_, rfl, h.onlyRequests (.fireLvt _ _)⟩
  | setTmr v level => exact ⟨_, rfl, h.onlyRequests (.setTmr _ _ _)⟩
  | pendingIntr => exact ⟨_, rfl, h.inv, fun v hv => pendingIntr_spec hv⟩
  | intrAccepted =>
    cases ho : c.offered with
    | none => exact ⟨c, by simp [Lapic.apply, ho], h⟩
    | some v =>
      obtain ⟨hlt, hhas, hp⟩ := h.offer v ho
      simp only [Lapic.apply, ho]
      exact hmap (h.inv.intrAccepted hlt (h.inv.requested v hlt hhas) hp)
  | eoi => exact hmap h.inv.processEoi
  | setTpr data => exact hmap (h.inv.setTpr (Nat.mod_lt _ (by decide)))
  | setCr8 val => exact hmap (h.inv.setCr8 val)
  | svrWrite data =>
    have hw : OnlyRequests c.lapic { c.lapic with svr := data % 2 ^ 32 } :=
      .of_irr_eq rfl rfl rfl rfl rfl rfl
    exact ⟨_, rfl, .withdrawn ((hw.trans (.svrWriteHandler _)).inv h.inv)⟩
  | lvtWrite i data =>
    have hw : OnlyRequests c.lapic
        { c.lapic with lvt := Function.update c.lapic.lvt i (data % 2 ^ 32) } :=
      .of_irr_eq rfl rfl rfl rfl rfl rfl
    exact ⟨_, rfl, .withdrawn ((hw.trans (.lvtWriteHandler _ _)).inv h.inv)⟩
  | esrWrite =>
    have hw : OnlyRequests c.lapic (vlapicEsrWriteHandler c.lapic) :=
      .of_irr_eq rfl rfl rfl rfl rfl rfl
    exact ⟨_, rfl, .withdrawn (hw.inv h.inv)⟩

theorem bzero_inv : Inv bzero where
  placeholder := rfl
  sync := by simp [Vlapic.stack, Vlapic.inService, bzero, BitWords.elems, BitWords.has]
  prios := List.Pairwise.nil
  legal := by simp [Vlapic.stack, bzero]
  requested v _ h := by simp [bzero, BitWords.has] at h
  tprByte := by decide
  pprEq := rfl

theorem setTmr_foldl (l : List Nat) (s : Vlapic) :
    OnlyRequests s (l.foldl (fun s v => vlapicSetTmr s v false) s) := by
  induction l generalizing s with
  | nil => exact .rfl' s
  | cons v l ih => exact (OnlyRequests.setTmr s v false).trans (ih _)

theorem resetTmr (s : Vlapic) : OnlyRequests s (vlapicResetTmr s) := setTmr_foldl _ s

theorem storeSvrLast (s : Vlapic) (x : Nat) : OnlyRequests s { s with svrLast := x } :=
  .of_irr_eq rfl rfl rfl rfl rfl rfl

theorem vlapicInit_inv : Inv vlapicInit := by
  have hsvr : OnlyRequests bzero { bzero with svr := svrVector } :=
    .of_irr_eq rfl rfl rfl rfl rfl rfl
  exact (((hsvr.trans (.maskLvts _)).trans (resetTmr _)).trans (storeSvrLast _ _)).inv bzero_inv

theorem good_inductive : system.Inductive Good where
  init c hc := by
    rw [show c = _ from hc]
    exact .withdrawn vlapicInit_inv
  step c op d h hs := by
    obtain ⟨e, he, hg⟩ := h.apply op
    have hde : some e = some d := by
      rw [← show next c op = some d from hs, next, he]
      rfl
    exact Option.some.inj hde ▸ hg

theorem stack_getLast (s : Vlapic) (h : s.isrvecStk 0 = 0) :
    s.stack.getLastD 0 = s.isrvecStk s.isrvecStkTop := by
  cases ht : s.isrvecStkTop with
  | zero => simp [Vlapic.stack, ht, h]
  | succ n => rw [stack_succ ht, List.getLastD_concat, ht]

/-- In every state any sequence of operations reaches, the stack lists the set ISR
bits in ascending order and by strictly increasing class, PPR is the architectural
combination of TPR and the highest in-service vector, and no operation aborts. -/
theorem isrvec_stk_in_service {c : Vcpu} (hr : system.Reachable c) :
    c.lapic.stack = c.lapic.inService ∧
    c.lapic.stack.Pairwise (prio · < prio ·) ∧
    c.lapic.isrvecStkTop < isrvecStkSize ∧
    (c.lapic.ppr = if prio c.lapic.tpr ≥ prio (c.lapic.inService.getLastD 0) then c.lapic.tpr
      else c.lapic.inService.getLastD 0 &&& 0xf0) ∧
    ∀ op, ∃ d, apply c op = .ok d := by
  have hg := good_inductive.reachable hr
  refine ⟨hg.inv.sync, hg.inv.prios, hg.inv.top_lt, ?_, fun op => ?_⟩
  · rw [← hg.inv.sync, stack_getLast _ hg.inv.placeholder]
    exact hg.inv.pprEq
  · obtain ⟨d, hd, -⟩ := hg.apply op
    exact ⟨d, hd⟩

/-- Enable the APIC, nest vector 0x52 over 0x31, and ask for both acknowledgements. -/
def nestedRun : List Op :=
  [.svrWrite 0x1ff, .setIntrReady 0x31 false, .pendingIntr, .setIntrReady 0x52 true, .intrAccepted,
    .pendingIntr, .intrAccepted, .setTpr 0x40]

theorem isrvec_stk_in_service_nested : ∃ c, system.Reachable c ∧ c.lapic.stack = [0x31, 0x52] ∧
    c.lapic.ppr = 0x50 ∧ c.lapic.stack = c.lapic.inService ∧ ∀ op, ∃ d, apply c op = .ok d := by
  have hrun : (System.exec next ⟨vlapicInit, none⟩ nestedRun).map
      (fun c => (c.lapic.stack, c.lapic.ppr)) = some ([0x31, 0x52], 0x50) := by decide +kernel
  obtain ⟨c, hc, he⟩ := Option.map_eq_some_iff.mp hrun
  have hr : system.Reachable c := System.exec_reachable (.init rfl) hc
  have h := isrvec_stk_in_service hr
  exact ⟨c, hr, congrArg Prod.fst he, congrArg Prod.snd he, h.1, h.2.2.2.2⟩

end Xhyve.Vmm.Lapic
