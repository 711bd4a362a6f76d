import Mathlib.Data.List.Induction

/-!
# The features of the network device

The guest writes the feature register, and the device keeps the length of the receive header by it. The length is taken two
bytes off at each negotiation without merged buffers and put back by a reset alone.
-/

namespace Xhyve.Emul.NetFeatures

def virtioNetFMac : BitVec 64 := 1 <<< 5
def virtioNetFMrgRxbuf : BitVec 64 := 1 <<< 15
def virtioNetFStatus : BitVec 64 := 1 <<< 16
def virtioFNotifyOnEmpty : BitVec 64 := 1 <<< 24

/-- `VTNET_S_HOSTCAPS`. -/
def vcHvCaps : BitVec 64 := virtioNetFMac ||| virtioNetFMrgRxbuf ||| virtioNetFStatus ||| virtioFNotifyOnEmpty

/-- `sizeof(struct virtio_net_rxhdr)`. -/
def sizeofRxhdr : Int := 12

structure Softc where
  vsStatus : BitVec 8
  vsNegotiatedCaps : BitVec 32
  vscFeatures : BitVec 64
  vscRxReady : Bool
  rxMerge : Bool
  rxVhdrlen : Int
deriving DecidableEq, Repr

def pciVtnetInit : Softc := ⟨0, 0, 0, false, true, sizeofRxhdr⟩

/-- Of `vi_reset_dev` only the negotiated capabilities matter here. -/
def pciVtnetReset (sc : Softc) : Softc :=
  { sc with vscRxReady := false, rxMerge := true, rxVhdrlen := sizeofRxhdr, vsNegotiatedCaps := 0 }

def pciVtnetNegFeatures (sc : Softc) (negotiatedFeatures : BitVec 64) : Softc :=
  let sc := { sc with vscFeatures := negotiatedFeatures }
  if sc.vscFeatures &&& virtioNetFMrgRxbuf = 0 then { sc with rxMerge := false, rxVhdrlen := sc.rxVhdrlen - 2 } else sc

/-- What the guest writes. -/
inductive Op
  | guestcap (value : BitVec 64)
  | status (value : BitVec 64)
deriving DecidableEq, Repr

/-- `vi_pci_write`. -/
def step (sc : Softc) : Op → Softc
  | .guestcap value =>
    let caps := (value &&& vcHvCaps).setWidth 32
    pciVtnetNegFeatures { sc with vsNegotiatedCaps := caps } (caps.setWidth 64)
  | .status value =>
    let sc := { sc with vsStatus := value.setWidth 8 }
    if value = 0 then pciVtnetReset sc else sc

def run (ops : List Op) : Softc := ops.foldl step pciVtnetInit

/-! ## The header -/

/-- The header is as the negotiated features have it. -/
def Follows (sc : Softc) : Prop :=
  if sc.vsNegotiatedCaps &&& virtioNetFMrgRxbuf.setWidth 32 ≠ 0 then sc.rxMerge = true ∧ sc.rxVhdrlen = sizeofRxhdr
  else sc.rxMerge = false ∧ sc.rxVhdrlen = sizeofRxhdr - 2

instance (sc : Softc) : Decidable (Follows sc) := by
  unfold Follows
  infer_instance

def Merges (value : BitVec 64) : Prop := value &&& virtioNetFMrgRxbuf ≠ 0

instance (value : BitVec 64) : Decidable (Merges value) := inferInstanceAs (Decidable (_ ≠ _))

def Op.IsReset (op : Op) : Prop := op = .status 0

/-- No features are written after features without merged buffers, but behind a reset. -/
def Settled (ops : List Op) : Prop :=
  ∀ pre a mid b post, ops = pre ++ .guestcap a :: mid ++ .guestcap b :: post → (∀ op ∈ mid, ¬ op.IsReset) → Merges a

section Header

variable {sc : Softc} {ops pre mid : List Op} {op x : Op} {value : BitVec 64}

/-- The header is whole, as it is at first and after a reset. -/
def Fresh (sc : Softc) : Prop := sc.rxMerge = true ∧ sc.rxVhdrlen = sizeofRxhdr

/-- The header is whole, or has been cut at least once. -/
def Cut (sc : Softc) : Prop := sc.rxMerge = false ∧ sc.rxVhdrlen ≤ sizeofRxhdr - 2

theorem run_append (ops : List Op) (op : Op) : run (ops ++ [op]) = step (run ops) op := by
  unfold run
  rw [List.foldl_append]
  rfl

/-- The capability is one of those offered, and in the low half. -/
theorem caps_mrg (value : BitVec 64) :
    (((value &&& vcHvCaps).setWidth 32).setWidth 64 &&& virtioNetFMrgRxbuf = 0 ↔ ¬ Merges value) ∧
      ((value &&& vcHvCaps).setWidth 32 &&& virtioNetFMrgRxbuf.setWidth 32 = 0 ↔ ¬ Merges value) := by
  have hbit : virtioNetFMrgRxbuf = BitVec.twoPow 64 15 := by decide
  have hbit32 : virtioNetFMrgRxbuf.setWidth 32 = BitVec.twoPow 32 15 := by decide
  have hoffered : vcHvCaps.getLsbD 15 = true := by decide
  have hzero : BitVec.twoPow 64 15 ≠ 0 ∧ BitVec.twoPow 32 15 ≠ 0 := by decide
  have hcap : ((value &&& vcHvCaps).setWidth 32).getLsbD 15 = value.getLsbD 15 := by
    rw [BitVec.getLsbD_setWidth, BitVec.getLsbD_and, hoffered, Bool.and_true]
    rfl
  have hcap64 : (((value &&& vcHvCaps).setWidth 32).setWidth 64).getLsbD 15 = value.getLsbD 15 := by
    rw [BitVec.getLsbD_setWidth, hcap]
    rfl
  unfold Merges
  rw [hbit32, hbit, BitVec.and_twoPow, BitVec.and_twoPow, BitVec.and_twoPow, hcap, hcap64]
  cases value.getLsbD 15 with
  | false => decide
  | true => decide

theorem Fresh.of_reset (sc : Softc) : Fresh (step sc (.status 0)) := ⟨rfl, rfl⟩

theorem step_status (hvalue : value ≠ 0) : Fresh (step sc (.status value)) ↔ Fresh sc := by
  unfold step
  dsimp only
  rw [if_neg hvalue]
  exact Iff.rfl

theorem step_merges (h : Merges value) :
    (step sc (.guestcap value)).rxMerge = sc.rxMerge ∧ (step sc (.guestcap value)).rxVhdrlen = sc.rxVhdrlen := by
  unfold step pciVtnetNegFeatures
  dsimp only
  rw [if_neg fun h0 => (caps_mrg value).1.mp h0 h]
  exact ⟨rfl, rfl⟩

theorem step_plain (h : ¬ Merges value) :
    (step sc (.guestcap value)).rxMerge = false ∧ (step sc (.guestcap value)).rxVhdrlen = sc.rxVhdrlen - 2 := by
  unfold step pciVtnetNegFeatures
  dsimp only
  rw [if_pos ((caps_mrg value).1.mpr h)]
  exact ⟨rfl, rfl⟩

theorem caps_guestcap (sc : Softc) (value : BitVec 64) :
    (step sc (.guestcap value)).vsNegotiatedCaps = (value &&& vcHvCaps).setWidth 32 := by
  unfold step pciVtnetNegFeatures
  dsimp only
  split
  · rfl
  · rfl

/-- One of the two always holds. -/
theorem fresh_or_cut (ops : List Op) : Fresh (run ops) ∨ Cut (run ops) := by
  induction ops using List.reverseRecOn with
  | nil => exact .inl ⟨rfl, rfl⟩
  | append_singleton ops op ih =>
    rw [run_append]
    cases op with
    | guestcap value =>
      by_cases hm : Merges value
      · obtain ⟨hmerge, hlen⟩ := @step_merges (run ops) _ hm
        unfold Fresh Cut
        rw [hmerge, hlen]
        exact ih
      · obtain ⟨hmerge, hlen⟩ := @step_plain (run ops) _ hm
        refine .inr ⟨hmerge, ?_⟩
        rw [hlen]
        rcases ih with ⟨-, h⟩ | ⟨-, h⟩ <;> omega
    | status value =>
      by_cases h0 : value = 0
      · rw [h0]
        exact .inl (Fresh.of_reset _)
      · unfold step
        dsimp only
        rw [if_neg h0]
        exact ih

/-- A write leaves the header as it should be exactly when it was whole. -/
theorem follows_iff (ops : List Op) (value : BitVec 64) : Follows (step (run ops) (.guestcap value)) ↔ Fresh (run ops) := by
  unfold Follows
  rw [caps_guestcap]
  by_cases hm : Merges value
  · obtain ⟨hmerge, hlen⟩ := @step_merges (run ops) _ hm
    rw [if_pos fun h0 => (caps_mrg value).2.mp h0 hm, hmerge, hlen]
    exact Iff.rfl
  · obtain ⟨hmerge, hlen⟩ := @step_plain (run ops) _ hm
    rw [if_neg (not_not.mpr ((caps_mrg value).2.mpr hm)), hmerge, hlen]
    rcases fresh_or_cut ops with hfresh | ⟨hcut, hshort⟩
    · exact iff_of_true ⟨rfl, by rw [hfresh.2]⟩ hfresh
    · refine iff_of_false (fun h => ?_) fun h => ?_
      · have hlen := h.2
        omega
      · rw [h.1] at hcut
        exact Bool.noConfusion hcut

theorem fresh_guestcap (ops : List Op) (value : BitVec 64) :
    Fresh (step (run ops) (.guestcap value)) ↔ Fresh (run ops) ∧ Merges value := by
  by_cases hm : Merges value
  · obtain ⟨hmerge, hlen⟩ := @step_merges (run ops) _ hm
    unfold Fresh
    rw [hmerge, hlen]
    exact (and_iff_left hm).symm
  · obtain ⟨hmerge, -⟩ := @step_plain (run ops) _ hm
    refine iff_of_false (fun h => ?_) fun h => hm h.2
    rw [h.1] at hmerge
    exact Bool.noConfusion hmerge

/-- An operation before the last, or the last. -/
theorem append_singleton_eq_iff : ops ++ [op] = pre ++ x :: mid ↔
    (mid = [] ∧ ops = pre ∧ op = x) ∨ ∃ mid', mid = mid' ++ [op] ∧ ops = pre ++ x :: mid' := by
  rcases List.eq_nil_or_concat mid with rfl | ⟨mid', last, hmid⟩
  · constructor
    · intro h
      obtain ⟨hops, hop⟩ := List.append_inj' h rfl
      exact .inl ⟨rfl, hops, List.singleton_inj.mp hop⟩
    · rintro (⟨-, rfl, rfl⟩ | ⟨mid', h, -⟩)
      · rfl
      · exact absurd h.symm (List.append_ne_nil_of_right_ne_nil _ (List.cons_ne_nil _ _))
  · obtain rfl : mid = mid' ++ [last] := by rw [hmid, List.concat_eq_append]
    have happend : pre ++ x :: (mid' ++ [last]) = (pre ++ x :: mid') ++ [last] := by
      rw [List.append_assoc, List.cons_append]
    constructor
    · intro h
      obtain ⟨hops, hop⟩ := List.append_inj' (h.trans happend) rfl
      exact .inr ⟨mid', by rw [List.singleton_inj.mp hop], hops⟩
    · rintro (⟨h, -⟩ | ⟨mid'', h, rfl⟩)
      · exact absurd h (List.append_ne_nil_of_right_ne_nil _ (List.cons_ne_nil _ _))
      · obtain ⟨rfl, hlast⟩ := List.append_inj' h rfl
        rw [happend, List.singleton_inj.mp hlast]

/-- The header is whole exactly when all features since the last reset had merged buffers. -/
theorem fresh_iff (ops : List Op) :
    Fresh (run ops) ↔ ∀ pre a mid, ops = pre ++ .guestcap a :: mid → (∀ op ∈ mid, ¬ op.IsReset) → Merges a := by
  induction ops using List.reverseRecOn with
  | nil => exact iff_of_true ⟨rfl, rfl⟩ fun pre a mid h => absurd h (by simp)
  | append_singleton ops op ih =>
    rw [run_append]
    cases op with
    | guestcap value =>
      rw [fresh_guestcap, ih]
      constructor
      · rintro ⟨hops, hm⟩ pre a mid h hno
        rcases append_singleton_eq_iff.mp h with ⟨-, -, he⟩ | ⟨mid', rfl, h'⟩
        · obtain rfl := Op.guestcap.inj he
          exact hm
        · exact hops pre a mid' h' fun op hop => hno op (List.mem_append_left _ hop)
      · intro h
        refine ⟨fun pre a mid h' hno => h pre a (mid ++ [.guestcap value]) (by rw [h']; simp) fun op hop => ?_, ?_⟩
        · rcases List.mem_append.mp hop with hop | hop
          · exact hno op hop
          · rw [List.mem_singleton.mp hop]
            exact fun he => nomatch he
        · exact h ops value [] rfl fun op hop => nomatch hop
    | status value =>
      by_cases h0 : value = 0
      · rw [h0]
        refine iff_of_true (Fresh.of_reset _) fun pre a mid h hno => ?_
        rcases append_singleton_eq_iff.mp h with ⟨-, -, he⟩ | ⟨mid', rfl, -⟩
        · cases he
        · exact absurd rfl (hno (.status 0) (List.mem_append_right _ (List.mem_cons_self ..)))
      · rw [step_status h0, ih]
        constructor
        · intro hops pre a mid h hno
          rcases append_singleton_eq_iff.mp h with ⟨-, -, he⟩ | ⟨mid', rfl, h'⟩
          · cases he
          · exact hops pre a mid' h' fun op hop => hno op (List.mem_append_left _ hop)
        · intro h pre a mid h' hno
          refine h pre a (mid ++ [.status value]) (by rw [h']; simp) fun op hop => ?_
          rcases List.mem_append.mp hop with hop | hop
          · exact hno op hop
          · rw [List.mem_singleton.mp hop]
            exact fun he => h0 (Op.status.inj he)

/-- In every run the header follows the features after each write, exactly when no features are written after features
without merged buffers with no reset between. -/
theorem header_follows_iff (ops : List Op) :
    (∀ pre value post, ops = pre ++ .guestcap value :: post → Follows (run (pre ++ [.guestcap value]))) ↔ Settled ops := by
  constructor
  · intro h pre a mid b post hops hno
    have hfollows := h (pre ++ .guestcap a :: mid) b post hops
    rw [run_append, follows_iff, fresh_iff] at hfollows
    exact hfollows pre a mid rfl hno
  · intro h pre value post hops
    rw [run_append, follows_iff, fresh_iff]
    intro pre' a mid hpre hno
    exact h pre' a mid value post (by rw [hops, hpre]) hno

/-- Features written twice, the second time for merged buffers. -/
theorem header_stays_cut :
    ¬ ∀ pre value post, [Op.guestcap 0, .guestcap virtioNetFMrgRxbuf] = pre ++ .guestcap value :: post →
      Follows (run (pre ++ [.guestcap value])) := by
  intro h
  exact absurd (h [.guestcap 0] virtioNetFMrgRxbuf [] rfl) (by decide)

end Header

end Xhyve.Emul.NetFeatures
