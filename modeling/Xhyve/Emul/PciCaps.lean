import Xhyve.Emul.PciRanges
import Mathlib.Tactic

/-!
# The capability list

`pci_emul_add_capability` lays the capabilities out one behind the other from `CAP_START_OFFSET`, each
rounded up to dwords, and links them through the second byte of each. A capability that does not fit
is refused and leaves no trace.
-/

namespace Xhyve.Emul.Pci

open Xhyve.Lib Xhyve.Lib.Mem

def pcirCapPtr : Nat := 0x34

/-- A function while its capabilities are added. -/
structure CapDev where
  dev : Devinst
  piPrevcap : Nat

/-- `roundup2(caplen, 4)`. -/
def reallen (caplen : Nat) : Nat := (caplen + 3) / 4 * 4

/-- The copy loop, one byte a turn. -/
def copyCap : Mem → Nat → List UInt8 → Mem
  | cfg, _, [] => cfg
  | cfg, off, b :: bs => copyCap (store 1 cfg off b.toNat) (off + 1) bs

/-- `none` is -1. -/
def pciEmulAddCapability (d : CapDev) (capdata : List UInt8) : Option CapDev :=
  let cfg := d.dev.cfgdata
  let sts := load 2 cfg pcirStatus
  let capoff := if sts &&& pcimStatusCappresent = 0 then capStartOffset else d.dev.piCapend + 1
  if capoff + reallen capdata.length > pciRegmax + 1 then none
  else
    let cfg :=
      if sts &&& pcimStatusCappresent = 0 then
        store 2 (store 1 cfg pcirCapPtr capoff) pcirStatus (sts ||| pcimStatusCappresent)
      else store 1 cfg (d.piPrevcap + 1) capoff
    let cfg := copyCap cfg capoff capdata
    let cfg := store 1 cfg (capoff + 1) 0
    some
      { dev := { d.dev with cfgdata := cfg, piCapend := capoff + reallen capdata.length - 1 }
        piPrevcap := capoff }

/-- The calls one after the other; a refused one is passed over. -/
def addCapabilities (d : CapDev) (caps : List (List UInt8)) : CapDev :=
  caps.foldl (fun d capdata => (pciEmulAddCapability d capdata).getD d) d

/-! ## Where the capabilities lie -/

/-- A capability: the bytes it has for itself and its identifier. -/
structure Block where
  off : Nat
  len : Nat
  id : UInt8
deriving DecidableEq, Repr

/-- The capabilities that fit, from an offset on. -/
def layout : Nat → List (List UInt8) → List Block
  | _, [] => []
  | off, capdata :: caps =>
    if off + reallen capdata.length > pciRegmax + 1 then layout off caps
    else ⟨off, reallen capdata.length, capdata.headD 0⟩ :: layout (off + reallen capdata.length) caps

/-- One behind the other from `off` to `e`, in dwords. -/
def Laid : Nat → List Block → Nat → Prop
  | off, [], e => e = off
  | off, b :: bs, e => b.off = off ∧ 4 ∣ b.len ∧ 0 < b.len ∧ Laid (off + b.len) bs e

/-- The offset a link to the rest of the list holds. -/
def firstOff : List Block → Nat
  | [] => 0
  | b :: _ => b.off

/-- Identifiers and links, ending in 0. -/
def Chain (cfg : Mem) : List Block → Prop
  | [] => True
  | b :: bs => cfg b.off = b.id ∧ (cfg (b.off + 1)).toNat = firstOff bs ∧ Chain cfg bs

/-! ## Bytes -/

section Bytes
variable {cfg cfg' : Mem} {a x v n : Nat}

theorem load_one (cfg : Mem) (a : Nat) : load 1 cfg a = (cfg a).toNat := by
  simp [load, LittleEndian.toNat]

theorem store_outside (h : x < a ∨ a + n ≤ x) : store n cfg a v x = cfg x := by
  unfold store
  rw [if_neg]
  omega

theorem store_one_same (hv : v < 256) : (store 1 cfg a v a).toNat = v := by
  have hload := load_store (n := 1) (m := cfg) (a := a) (v := v) (by simpa using hv)
  rw [load_one] at hload
  exact hload

theorem store_one_byte (b : UInt8) : store 1 cfg a b.toNat a = b :=
  UInt8.toNat_inj.mp (store_one_same b.toNat_lt)

theorem copyCap_outside {bs : List UInt8} (h : x < a ∨ a + bs.length ≤ x) :
    copyCap cfg a bs x = cfg x := by
  induction bs generalizing cfg a with
  | nil => rfl
  | cons b bs ih =>
    rw [List.length_cons] at h
    rw [copyCap, ih (by omega), store_outside (by omega)]

theorem copyCap_head {b : UInt8} {bs : List UInt8} : copyCap cfg a (b :: bs) a = b := by
  rw [copyCap, copyCap_outside (by omega), store_one_byte]

end Bytes

/-! ## Chains -/

section Chains
variable {cfg cfg' : Mem} {off e : Nat} {bs : List Block} {b : Block}

theorem Laid.le (h : Laid off bs e) : off ≤ e := by
  induction bs generalizing off with
  | nil => exact Nat.le_of_eq h.symm
  | cons b bs ih =>
    have := ih h.2.2.2
    omega

/-- Every capability lies between, and keeps the alignment of the first. -/
theorem Laid.bounds (h : Laid off bs e) (hoff : 4 ∣ off) (hb : b ∈ bs) :
    off ≤ b.off ∧ b.off + b.len ≤ e ∧ 4 ∣ b.off ∧ 4 ∣ b.len ∧ 4 ≤ b.len := by
  induction bs generalizing off with
  | nil => cases hb
  | cons c bs ih =>
    obtain ⟨hc, hdvd, hpos, hrest⟩ := h
    rcases List.mem_cons.mp hb with rfl | hb
    · have hle := hrest.le
      refine ⟨by omega, by omega, by rw [hc]; exact hoff, hdvd, Nat.le_of_dvd hpos hdvd⟩
    · obtain ⟨hlo, hhi, hrest⟩ := ih hrest (Nat.dvd_add hoff hdvd) hb
      exact ⟨by omega, hhi, hrest⟩

theorem Laid.pairwise (h : Laid off bs e) (hoff : 4 ∣ off) :
    bs.Pairwise fun b c => b.off + b.len ≤ c.off := by
  induction bs generalizing off with
  | nil => exact List.Pairwise.nil
  | cons b bs ih =>
    obtain ⟨hb, hdvd, _, hrest⟩ := h
    refine List.Pairwise.cons (fun c hc => ?_) (ih hrest (Nat.dvd_add hoff hdvd))
    have := (hrest.bounds (Nat.dvd_add hoff hdvd) hc).1
    omega

theorem Laid.snoc (h : Laid off bs e) (hb : b.off = e) (hdvd : 4 ∣ b.len) (hpos : 0 < b.len) :
    Laid off (bs ++ [b]) (e + b.len) := by
  induction bs generalizing off with
  | nil =>
    obtain rfl : e = off := h
    exact ⟨hb, hdvd, hpos, rfl⟩
  | cons c bs ih => exact ⟨h.1, h.2.1, h.2.2.1, ih h.2.2.2⟩

/-- A chain reads the two header bytes of each capability. -/
theorem Chain.congr (h : Chain cfg bs)
    (hsame : ∀ b ∈ bs, cfg' b.off = cfg b.off ∧ cfg' (b.off + 1) = cfg (b.off + 1)) :
    Chain cfg' bs := by
  induction bs with
  | nil => trivial
  | cons b bs ih =>
    obtain ⟨hid, hnext⟩ := hsame b List.mem_cons_self
    refine ⟨by rw [hid]; exact h.1, by rw [hnext]; exact h.2.1, ih h.2.2 fun c hc => ?_⟩
    exact hsame c (List.mem_cons_of_mem _ hc)

/-- The link of the last capability is turned to a new one. -/
theorem Chain.snoc {last : Block} (h : Chain cfg (bs ++ [last]))
    (hsame : ∀ c ∈ bs, cfg' c.off = cfg c.off ∧ cfg' (c.off + 1) = cfg (c.off + 1))
    (hid : cfg' last.off = cfg last.off) (hlink : (cfg' (last.off + 1)).toNat = b.off)
    (hb : cfg' b.off = b.id) (hend : (cfg' (b.off + 1)).toNat = 0) :
    Chain cfg' (bs ++ [last] ++ [b]) := by
  induction bs with
  | nil => exact ⟨by rw [hid]; exact h.1, hlink, hb, hend, trivial⟩
  | cons c bs ih =>
    obtain ⟨hcid, hcnext⟩ := hsame c List.mem_cons_self
    have hrest := ih h.2.2 fun d hd => hsame d (List.mem_cons_of_mem _ hd)
    refine ⟨by rw [hcid]; exact h.1, ?_, hrest⟩
    have hfirst : firstOff (bs ++ [last] ++ [b]) = firstOff (bs ++ [last]) := by
      cases bs with
      | nil => rfl
      | cons d bs => rfl
    show (cfg' (c.off + 1)).toNat = firstOff (bs ++ [last] ++ [b])
    rw [hcnext, hfirst]
    exact h.2.1

/-- The walk finds the capability that holds the offset. -/
theorem capFind_chain {offset fuel : Nat} (hl : Laid off bs e) (hc : Chain cfg bs) (hoff : 0 < off)
    (hlo : off ≤ offset) (hhi : offset < e) (hfuel : bs.length ≤ fuel) :
    ∃ b ∈ bs, b.off ≤ offset ∧ offset < b.off + b.len ∧ capFind cfg offset fuel off = some b.off := by
  induction bs generalizing off fuel with
  | nil =>
    obtain rfl : e = off := hl
    omega
  | cons b bs ih =>
    obtain ⟨hboff, hdvd, hpos, hrest⟩ := hl
    obtain ⟨fuel, rfl⟩ : ∃ n, fuel = n + 1 := ⟨fuel - 1, by rw [List.length_cons] at hfuel; omega⟩
    subst hboff
    cases bs with
    | nil =>
      have hnext : (cfg (b.off + 1)).toNat = 0 := hc.2.1
      obtain rfl : e = b.off + b.len := hrest
      rw [capFind, load_one, hnext]
      exact ⟨b, List.mem_cons_self, hlo, hhi, rfl⟩
    | cons c bs =>
      have hnext : (cfg (b.off + 1)).toNat = c.off := hc.2.1
      have hcoff : c.off = b.off + b.len := hrest.1
      rw [capFind, load_one, hnext, if_neg (by omega)]
      by_cases hin : offset < c.off
      · rw [if_pos ⟨hlo, hin⟩]
        exact ⟨b, List.mem_cons_self, hlo, by omega, rfl⟩
      · rw [if_neg fun h => hin h.2, hcoff]
        obtain ⟨d, hd, hdlo, hdhi, hfind⟩ := ih hrest hc.2.2 (by omega) (by omega)
          (Nat.le_of_succ_le_succ hfuel)
        exact ⟨d, List.mem_cons_of_mem _ hd, hdlo, hdhi, hfind⟩

end Chains

/-! ## Adding capabilities -/

/-- The function's capabilities are these, up to offset `e`. -/
structure CapsOk (pi : Devinst) (bs : List Block) (e : Nat) : Prop where
  present : load 2 pi.cfgdata pcirStatus &&& pcimStatusCappresent = 0 ↔ bs = []
  laid : Laid capStartOffset bs e
  inside : e ≤ pciRegmax + 1
  capend : bs ≠ [] → pi.piCapend + 1 = e
  chain : Chain pi.cfgdata bs

theorem reallen_spec {n : Nat} (hn : 0 < n) : n ≤ reallen n ∧ 4 ∣ reallen n ∧ 0 < reallen n := by
  refine ⟨?_, Nat.dvd_mul_left _ _, ?_⟩
  · unfold reallen
    omega
  · unfold reallen
    omega

/-- The place of the next capability. -/
theorem CapsOk.capoff {pi : Devinst} {bs : List Block} {e : Nat} (h : CapsOk pi bs e) :
    (if load 2 pi.cfgdata pcirStatus &&& pcimStatusCappresent = 0 then capStartOffset
      else pi.piCapend + 1) = e := by
  by_cases hbs : bs = []
  · rw [if_pos (h.present.mpr hbs)]
    have hlaid := h.laid
    rw [hbs] at hlaid
    exact hlaid.symm
  · rw [if_neg fun hno => hbs (h.present.mp hno)]
    exact h.capend hbs

theorem present_or (sts : Nat) :
    (sts ||| pcimStatusCappresent) &&& pcimStatusCappresent ≠ 0 := by
  intro h
  have hbit := congrArg (fun x => Nat.testBit x 4) h
  simp only [pcimStatusCappresent, Nat.testBit_and, Nat.testBit_or, Nat.zero_testBit] at hbit
  have hfour : Nat.testBit 0x10 4 = true := by decide
  rw [hfour, Bool.or_true, Bool.and_true] at hbit
  cases hbit

/-- The data of a new capability is behind everything else. -/
theorem newCap_outside {cfg : Mem} {capoff x : Nat} {capdata : List UInt8} (h : x < capoff) :
    store 1 (copyCap cfg capoff capdata) (capoff + 1) 0 x = cfg x := by
  rw [store_outside (Or.inl (by omega)), copyCap_outside (Or.inl h)]

theorem newCap_load {cfg : Mem} {capoff a : Nat} {capdata : List UInt8} (h : a + 2 ≤ capoff) :
    load 2 (store 1 (copyCap cfg capoff capdata) (capoff + 1) 0) a = load 2 cfg a :=
  load_congr fun _ hi => newCap_outside (by omega)

theorem newCap_header (cfg : Mem) (capoff : Nat) (b : UInt8) (bs : List UInt8) :
    store 1 (copyCap cfg capoff (b :: bs)) (capoff + 1) 0 capoff = b ∧
      (store 1 (copyCap cfg capoff (b :: bs)) (capoff + 1) 0 (capoff + 1)).toNat = 0 := by
  refine ⟨?_, store_one_same (by decide)⟩
  rw [store_outside (Or.inl (by omega)), copyCap_head]

section Add
variable {d : CapDev} {bs : List Block} {e : Nat}

theorem addCapability_refused {capdata : List UInt8} (h : CapsOk d.dev bs e)
    (hfit : e + reallen capdata.length > pciRegmax + 1) : pciEmulAddCapability d capdata = none := by
  unfold pciEmulAddCapability
  simp only
  rw [h.capoff, if_pos hfit]

/-- The first capability. -/
theorem addCapability_first {b : UInt8} {rest : List UInt8} (h : CapsOk d.dev [] e)
    (hfit : ¬ e + reallen (b :: rest).length > pciRegmax + 1) :
    ∃ d', pciEmulAddCapability d (b :: rest) = some d' ∧
      CapsOk d'.dev [⟨e, reallen (b :: rest).length, b⟩] (e + reallen (b :: rest).length) ∧
      d'.piPrevcap = e ∧ d'.dev.peCfgwrite = d.dev.peCfgwrite := by
  have hclear := h.present.mpr rfl
  have he : e = capStartOffset := h.laid
  obtain ⟨_, hdvd, hpos⟩ := reallen_spec (List.length_pos_iff.mpr (List.cons_ne_nil b rest))
  unfold pciEmulAddCapability
  simp only
  rw [h.capoff, if_neg hfit, if_pos hclear]
  refine ⟨_, rfl, ⟨?_, ?_, by omega, fun _ => ?_, ?_⟩, rfl, rfl⟩
  · refine iff_of_false ?_ (List.cons_ne_nil _ _)
    simp only
    have hsts : load 2 d.dev.cfgdata pcirStatus ||| pcimStatusCappresent < 256 ^ 2 := by
      have hlt := load_lt 2 d.dev.cfgdata pcirStatus
      exact Nat.or_lt_two_pow (n := 16) hlt (by decide)
    rw [newCap_load (by rw [he]; decide), load_store hsts]
    exact present_or _
  · exact ⟨he, hdvd, hpos, by rw [he]; rfl⟩
  · simp only
    omega
  · obtain ⟨hid, hend⟩ := newCap_header
      (store 2 (store 1 d.dev.cfgdata pcirCapPtr e) pcirStatus
        (load 2 d.dev.cfgdata pcirStatus ||| pcimStatusCappresent)) e b rest
    exact ⟨hid, hend, trivial⟩

/-- A further capability, linked from the one before. -/
theorem addCapability_next {last : Block} {b : UInt8} {rest : List UInt8}
    (h : CapsOk d.dev (bs ++ [last]) e) (hprev : d.piPrevcap = last.off)
    (hfit : ¬ e + reallen (b :: rest).length > pciRegmax + 1) :
    ∃ d', pciEmulAddCapability d (b :: rest) = some d' ∧
      CapsOk d'.dev (bs ++ [last] ++ [⟨e, reallen (b :: rest).length, b⟩])
        (e + reallen (b :: rest).length) ∧
      d'.piPrevcap = e ∧ d'.dev.peCfgwrite = d.dev.peCfgwrite := by
  have hne : bs ++ [last] ≠ [] := by simp
  have hset : ¬ load 2 d.dev.cfgdata pcirStatus &&& pcimStatusCappresent = 0 :=
    fun hno => hne (h.present.mp hno)
  obtain ⟨_, hdvd, hpos⟩ := reallen_spec (List.length_pos_iff.mpr (List.cons_ne_nil b rest))
  have hlast : last ∈ bs ++ [last] := by simp
  obtain ⟨hlo, hhi, _, _, hlen⟩ := h.laid.bounds (by decide) hlast
  have hstart : capStartOffset = 0x40 := rfl
  have hregmax : pciRegmax = 255 := rfl
  unfold pciEmulAddCapability
  simp only
  rw [h.capoff, if_neg hfit, if_neg hset, hprev]
  refine ⟨_, rfl, ⟨?_, h.laid.snoc rfl hdvd hpos, by omega, fun _ => ?_, ?_⟩, rfl, rfl⟩
  · refine iff_of_false ?_ (by simp)
    simp only
    rw [newCap_load (by simp only [pcirStatus]; omega),
      load_store_of_disjoint (Or.inl (by simp only [pcirStatus]; omega))]
    exact hset
  · simp only
    omega
  · simp only
    obtain ⟨hid, hend⟩ := newCap_header (store 1 d.dev.cfgdata (last.off + 1) e) e b rest
    refine h.chain.snoc (fun c hc => ?_) ?_ ?_ hid hend
    · -- the link that is turned is the last one's alone
      obtain ⟨_, hchi, _, _, hclen⟩ := h.laid.bounds (by decide) (List.mem_append_left _ hc)
      have hbefore : c.off + c.len ≤ last.off :=
        (List.pairwise_append.mp (h.laid.pairwise (by decide))).2.2 c hc last (by simp)
      rw [newCap_outside (by omega), newCap_outside (by omega), store_outside (by omega),
        store_outside (by omega)]
      exact ⟨rfl, rfl⟩
    · rw [newCap_outside (by omega), store_outside (by omega)]
    · rw [newCap_outside (by omega)]
      exact store_one_same (by omega)

end Add

/-- A capability that fits goes behind the others. -/
theorem addCapability_added {d : CapDev} {bs : List Block} {e : Nat} {b : UInt8} {rest : List UInt8}
    (h : CapsOk d.dev bs e) (hprev : ∀ last, bs.getLast? = some last → d.piPrevcap = last.off)
    (hfit : ¬ e + reallen (b :: rest).length > pciRegmax + 1) :
    ∃ d', pciEmulAddCapability d (b :: rest) = some d' ∧
      CapsOk d'.dev (bs ++ [⟨e, reallen (b :: rest).length, b⟩]) (e + reallen (b :: rest).length) ∧
      (∀ last, (bs ++ [Block.mk e (reallen (b :: rest).length) b]).getLast? = some last →
        d'.piPrevcap = last.off) ∧
      d'.dev.peCfgwrite = d.dev.peCfgwrite := by
  have hadd : ∃ d', pciEmulAddCapability d (b :: rest) = some d' ∧
      CapsOk d'.dev (bs ++ [⟨e, reallen (b :: rest).length, b⟩])
        (e + reallen (b :: rest).length) ∧
      d'.piPrevcap = e ∧ d'.dev.peCfgwrite = d.dev.peCfgwrite := by
    rcases List.eq_nil_or_concat bs with rfl | ⟨init, last, rfl⟩
    · exact addCapability_first h hfit
    · rw [List.concat_eq_append] at h hprev ⊢
      exact addCapability_next h (hprev last (by simp)) hfit
  obtain ⟨d', hsome, hok, hprev', hown⟩ := hadd
  refine ⟨d', hsome, hok, fun last hl => ?_, hown⟩
  rw [List.getLast?_concat] at hl
  rw [← Option.some.inj hl]
  exact hprev'

/-- What the calls leave: the capabilities that fit, one behind the other. -/
theorem addCapabilities_ok {caps : List (List UInt8)} (hcaps : ∀ c ∈ caps, c ≠ []) {d : CapDev}
    {bs : List Block} {e : Nat} (h : CapsOk d.dev bs e)
    (hprev : ∀ last, bs.getLast? = some last → d.piPrevcap = last.off) :
    ∃ e', CapsOk (addCapabilities d caps).dev (bs ++ layout e caps) e' ∧
      (addCapabilities d caps).dev.peCfgwrite = d.dev.peCfgwrite := by
  induction caps generalizing d bs e with
  | nil => exact ⟨e, by simpa [addCapabilities, layout] using h, rfl⟩
  | cons c caps ih =>
    have hrest : ∀ x ∈ caps, x ≠ [] := fun x hx => hcaps x (List.mem_cons_of_mem _ hx)
    by_cases hfit : e + reallen c.length > pciRegmax + 1
    · have hnone := addCapability_refused h hfit
      rw [layout, if_pos hfit]
      simp only [addCapabilities, List.foldl_cons, hnone, Option.getD_none]
      exact ih hrest h hprev
    · obtain ⟨b, rest, rfl⟩ := List.exists_cons_of_ne_nil (hcaps c List.mem_cons_self)
      obtain ⟨d', hsome, hok, hlast, hown⟩ := addCapability_added h hprev hfit
      rw [layout, if_neg hfit]
      simp only [addCapabilities, List.foldl_cons, hsome, Option.getD_some, List.headD_cons]
      obtain ⟨e', hfinal, hown'⟩ := ih hrest hok hlast
      refine ⟨e', ?_, hown'.trans hown⟩
      rw [List.append_assoc] at hfinal
      exact hfinal

/-! ## What the capabilities hold -/

/-- Behind the link, the data one of the calls was given. -/
def Copied (cfg : Mem) (caps : List (List UInt8)) (b : Block) : Prop :=
  ∃ c ∈ caps, b.id = c.headD 0 ∧ b.len = reallen c.length ∧
    ∀ i, 2 ≤ i → i < c.length → cfg (b.off + i) = c.getD i 0

theorem copyCap_getD {cfg : Mem} {a i : Nat} {bs : List UInt8} (hi : i < bs.length) :
    copyCap cfg a bs (a + i) = bs.getD i 0 := by
  induction bs generalizing cfg a i with
  | nil => cases hi
  | cons b bs ih =>
    cases i with
    | zero => exact copyCap_head
    | succ i =>
      have hi' : i < bs.length := Nat.lt_of_succ_lt_succ hi
      rw [copyCap, List.getD_cons_succ, ← ih (a := a + 1) hi']
      congr 1
      omega

/-- Two capabilities are the same or lie apart. -/
theorem Laid.apart {off e : Nat} {bs : List Block} {b c : Block} (h : Laid off bs e) (hoff : 4 ∣ off)
    (hb : b ∈ bs) (hc : c ∈ bs) : c = b ∨ b.off + b.len ≤ c.off ∨ c.off + c.len ≤ b.off := by
  induction bs generalizing off with
  | nil => cases hb
  | cons d bs ih =>
    obtain ⟨hd, hdvd, _, hrest⟩ := h
    have hbehind : ∀ x ∈ bs, d.off + d.len ≤ x.off := by
      intro x hx
      have := (hrest.bounds (Nat.dvd_add hoff hdvd) hx).1
      omega
    rcases List.mem_cons.mp hb with rfl | hb'
    · rcases List.mem_cons.mp hc with rfl | hc'
      · exact Or.inl rfl
      · exact Or.inr (Or.inl (hbehind c hc'))
    · rcases List.mem_cons.mp hc with rfl | hc'
      · exact Or.inr (Or.inr (hbehind b hb'))
      · exact ih hrest (Nat.dvd_add hoff hdvd) hb' hc'

section Data
variable {d d' : CapDev} {bs : List Block} {e : Nat} {capdata : List UInt8}

/-- One call writes its own data, and in front of it the link that leads there. -/
theorem addCapability_bytes (h : CapsOk d.dev bs e) (hsome : pciEmulAddCapability d capdata = some d') :
    (∀ i, 2 ≤ i → i < capdata.length → d'.dev.cfgdata (e + i) = capdata.getD i 0) ∧
      ∀ x, capStartOffset ≤ x → x < e → x ≠ d.piPrevcap + 1 → d'.dev.cfgdata x = d.dev.cfgdata x := by
  have hstart : capStartOffset = 0x40 := rfl
  unfold pciEmulAddCapability at hsome
  simp only at hsome
  rw [h.capoff] at hsome
  split at hsome
  · cases hsome
  · obtain rfl := Option.some.inj hsome
    simp only
    refine ⟨fun i hi hlen => ?_, fun x hlo hhi hne => ?_⟩
    · rw [store_outside (by omega), copyCap_getD hlen]
    · rw [newCap_outside hhi]
      split
      · rw [store_outside (by simp only [pcirStatus]; omega),
          store_outside (by simp only [pcirCapPtr]; omega)]
      · exact store_outside (by omega)

theorem addCapability_copied {caps : List (List UInt8)} {b : Block} (h : CapsOk d.dev bs e)
    (hprev : ∀ last, bs.getLast? = some last → d.piPrevcap = last.off) (hb : b ∈ bs)
    (hold : Copied d.dev.cfgdata caps b) (hsome : pciEmulAddCapability d capdata = some d') :
    Copied d'.dev.cfgdata caps b := by
  obtain ⟨c, hc, hid, hlen, hdata⟩ := hold
  refine ⟨c, hc, hid, hlen, fun i hi hi' => ?_⟩
  obtain ⟨hlo, hhi, -⟩ := h.laid.bounds (by decide) hb
  have hle : c.length ≤ reallen c.length := by
    unfold reallen
    omega
  obtain ⟨last, hlast⟩ : ∃ last, bs.getLast? = some last :=
    ⟨_, List.getLast?_eq_getLast_of_ne_nil (List.ne_nil_of_mem hb)⟩
  have hmem : last ∈ bs := List.mem_of_getLast? hlast
  have hlastLen := (h.laid.bounds (by decide) hmem).2.2.2.2
  have hne : b.off + i ≠ d.piPrevcap + 1 := by
    rw [hprev last hlast]
    rcases h.laid.apart (by decide) hb hmem with rfl | hap | hap
    · omega
    · omega
    · omega
  rw [(addCapability_bytes h hsome).2 _ (by omega) (by omega) hne]
  exact hdata i hi hi'

end Data

/-- Every capability on the list holds what one of the calls was given. -/
theorem addCapabilities_copied {all caps : List (List UInt8)} (hcaps : ∀ c ∈ caps, c ≠ [])
    (hall : ∀ c ∈ caps, c ∈ all) {d : CapDev} {bs : List Block} {e : Nat} (h : CapsOk d.dev bs e)
    (hprev : ∀ last, bs.getLast? = some last → d.piPrevcap = last.off)
    (hold : ∀ b ∈ bs, Copied d.dev.cfgdata all b) :
    ∀ b ∈ bs ++ layout e caps, Copied (addCapabilities d caps).dev.cfgdata all b := by
  induction caps generalizing d bs e with
  | nil => simpa [addCapabilities, layout] using hold
  | cons c caps ih =>
    have hcaps' : ∀ x ∈ caps, x ≠ [] := fun x hx => hcaps x (List.mem_cons_of_mem _ hx)
    have hall' : ∀ x ∈ caps, x ∈ all := fun x hx => hall x (List.mem_cons_of_mem _ hx)
    by_cases hfit : e + reallen c.length > pciRegmax + 1
    · have hnone := addCapability_refused h hfit
      rw [layout, if_pos hfit]
      simp only [addCapabilities, List.foldl_cons, hnone, Option.getD_none]
      exact ih hcaps' hall' h hprev hold
    · obtain ⟨b, rest, rfl⟩ := List.exists_cons_of_ne_nil (hcaps c List.mem_cons_self)
      obtain ⟨d', hsome, hok, hlast, -⟩ := addCapability_added h hprev hfit
      rw [layout, if_neg hfit]
      simp only [addCapabilities, List.foldl_cons, hsome, Option.getD_some, List.headD_cons]
      have hnext : ∀ x ∈ bs ++ [Block.mk e (reallen (b :: rest).length) b],
          Copied d'.dev.cfgdata all x := by
        intro x hx
        rcases List.mem_append.mp hx with hx | hx
        · exact addCapability_copied h hprev hx (hold x hx) hsome
        · obtain rfl := List.mem_singleton.mp hx
          exact ⟨b :: rest, hall _ List.mem_cons_self, rfl, rfl, (addCapability_bytes h hsome).1⟩
      have hfinal := ih hcaps' hall' hok hlast hnext
      rw [List.append_assoc] at hfinal
      exact hfinal

/-- The identifiers on the list are those of the calls, in their order. -/
theorem layout_ids (off : Nat) (caps : List (List UInt8)) :
    ((layout off caps).map Block.id).Sublist (caps.map fun c => c.headD 0) := by
  induction caps generalizing off with
  | nil => exact List.Sublist.refl _
  | cons c caps ih =>
    rw [layout, List.map_cons]
    split
    · exact (ih off).cons _
    · rw [List.map_cons]
      exact (ih _).cons_cons _

end Xhyve.Emul.Pci
