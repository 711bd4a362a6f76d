import Xhyve.Vmm.PitProgram

/-!
# The latch of the 8254 timer

A latched count stays in the output latch until both bytes of it are read, whatever else the guest does with the channel
short of a control word, and a latched status comes out first and once.
-/

namespace Xhyve.Vmm.Pit

open Xhyve.Lib

/-! ## What is latched and what is read -/

/-- A command, to either latch, that takes the count of a channel. -/
def latchesCount (n : Fin 3) (val : BitVec 8) : Prop :=
  if val &&& timerSelMask = timerSelReadback then val &&& timerRbCtr n ≠ 0 ∧ val &&& timerRbLctr = 0
  else val &&& timerRwMask = timerLatch ∧ channelOf val = n

def latchesStatus (n : Fin 3) (val : BitVec 8) : Prop :=
  val &&& timerSelMask = timerSelReadback ∧ val &&& timerRbCtr n ≠ 0 ∧ val &&& timerRbLstatus = 0

/-- A new control word for the channel. -/
def Reprograms (n : Fin 3) (op : Op) : Prop := ∃ eax, op = .io false .mode 1 eax ∧ Word16 n (eax.setWidth 8)

def LatchesStatus (n : Fin 3) (op : Op) : Prop := ∃ eax, op = .io false .mode 1 eax ∧ latchesStatus n (eax.setWidth 8)

/-- A read of the channel's data port. -/
def ReadsPort (n : Fin 3) (op : Op) : Prop := ∃ eax, op = .io true (.cntr n) 1 eax

/-- What a read of a data port got. -/
structure Read where
  status : Bool
  data : BitVec 32

section Reads
variable (up : Uptime) (n : Fin 3)

def readOf (s : Vatpit) : Op → List Read
  | .io true (.cntr m) 1 _ => if m = n then [⟨(s.channel n).slatched, (readCntr up s n).1⟩] else []
  | _ => []

/-- The reads of a channel over a run. -/
def reads : Vatpit → List Op → List Read
  | _, [] => []
  | s, op :: ops => readOf up n s op ++ reads (step up s op) ops

def counts (rs : List Read) : List (BitVec 32) := (rs.filter (!·.status)).map (·.data)

end Reads

def lowByte (v : BitVec 16) : BitVec 8 := v.setWidth 8
def highByte (v : BitVec 16) : BitVec 8 := (v >>> 8).setWidth 8

/-- A channel that is looked at, set up or not. -/
def Channel.setUp (c : Channel) (now : Int) : Channel := if c.initial = 0 then c.defaulted now else c

/-- The count of a channel at a moment between two readings of the uptime. -/
def CountAt (up : Uptime) (c : Channel) (since upto : Nat) (v : BitVec 16) : Prop :=
  ∃ j k, since ≤ j ∧ j ≤ k ∧ k < upto ∧ v = (c.setUp (up.read j)).count (up.read k)

/-- A status, or what it is once a new count is there. -/
def Settled (a b : BitVec 8) : Prop := b = a ∨ b = a &&& ~~~timerStsNullcnt

/-- What the latches of a timer promise. -/
structure LatchStable (up : Uptime) (s : Vatpit) : Prop where
  indices : ∀ n, (s.channel n).crbyte < 2 ∧ (s.channel n).olbyte ≤ 2
  range : ∀ n j k, s.ups ≤ j → j ≤ k →
    1 ≤ (((s.channel n).setUp (up.read j)).count (up.read k)).toNat ∧
      (((s.channel n).setUp (up.read j)).count (up.read k)).toNat ≤ ((s.channel n).setUp (up.read j)).initial.toNat
  /-- The count that is latched is read first, however long that takes. -/
  latched : ∀ n val ops, latchesCount n val → (s.channel n).olbyte = 0 → (∀ op ∈ ops, ¬ Reprograms n op) →
    ∃ v, CountAt up (s.channel n) s.ups (step up s (outb .mode val)).ups v ∧
      (counts (reads up n (step up s (outb .mode val)) ops)).take 2 <+:
        [(lowByte v).setWidth 32, (highByte v).setWidth 32]
  /-- A status that is latched is read before anything else, and once. -/
  status : ∀ n ops, (s.channel n).slatched = true → (∀ op ∈ ops, ¬ LatchesStatus n op) →
    reads up n s ops = [] ∨ ∃ st rest, reads up n s ops = ⟨true, st.setWidth 32⟩ :: rest ∧
      (∀ r ∈ rest, r.status = false) ∧ ((∀ op ∈ ops, ¬ Reprograms n op) → Settled (s.channel n).status st)

/-! ## The range of a count -/

section Range

variable {up : Uptime} {c : Channel} {now : Int}

theorem freqSbt_pos : 0 < freqSbt := by decide

theorem count_range (hi : c.initial ≠ 0) (hpast : c.nowSbt ≤ now) :
    1 ≤ (c.count now).toNat ∧ (c.count now).toNat ≤ c.initial.toNat := by
  have hpos : 0 < c.initial.toNat := by
    have : c.initial.toNat ≠ 0 := fun h => hi (BitVec.eq_of_toNat_eq h)
    omega
  have hlt := c.initial.isLt
  have hticks : 0 ≤ c.ticks now := Int.tdiv_nonneg (by omega) freqSbt_pos.le
  have h0 := Int.tmod_nonneg (c.initial.toNat : Int) hticks
  have hmod := Int.tmod_lt_of_pos (c.ticks now) (Int.natCast_pos.mpr hpos)
  have hv : (c.count now).toNat = ((c.initial.toNat : Int) - (c.ticks now).tmod c.initial.toNat).toNat := by
    unfold Channel.count
    rw [BitVec.toNat_ofInt, Int.emod_eq_of_lt (by omega) (by omega)]
  omega

theorem setUp_initial (c : Channel) (now : Int) : (c.setUp now).initial ≠ 0 := by
  unfold Channel.setUp
  split
  · exact (by decide : BitVec.ofNat 16 (timerDiv pit8254Freq 100) ≠ 0)
  · assumption

theorem ChannelInv.range {ups j k : Nat} (h : ChannelInv up ups c) (hj : ups ≤ j) (hk : j ≤ k) :
    1 ≤ ((c.setUp (up.read j)).count (up.read k)).toNat ∧
      ((c.setUp (up.read j)).count (up.read k)).toNat ≤ (c.setUp (up.read j)).initial.toNat := by
  refine count_range (setUp_initial c _) ?_
  unfold Channel.setUp
  split
  · exact up.mono hk
  · exact le_trans h.past (up.mono (hj.trans hk))

end Range

/-! ## What an operation leaves latched -/

/-- A channel keeps what is latched, unless it is programmed anew; it is the status commands that latch a status. -/
structure Stays (reprograms latches : Prop) (c d : Channel) : Prop where
  held : ¬ reprograms → c.olbyte ≠ 0 → d.ol = c.ol ∧ d.olbyte = c.olbyte
  sheld : c.slatched = true → d.slatched = true
  status : ¬ reprograms → c.slatched = true → Settled c.status d.status
  quiet : ¬ latches → c.slatched = false → d.slatched = false

section Stays

variable {p q : Prop} {c d e : Channel}

theorem Settled.trans {x y z : BitVec 8} (h : Settled x y) (h' : Settled y z) : Settled x z := by
  rcases h with rfl | rfl
  · exact h'
  · rcases h' with rfl | rfl
    · exact .inr rfl
    · exact .inr (by rw [BitVec.and_assoc, BitVec.and_self])

theorem Stays.of_eq (hol : d.ol = c.ol) (holbyte : d.olbyte = c.olbyte) (hs : d.slatched = c.slatched)
    (hst : Settled c.status d.status) : Stays p q c d where
  held _ _ := ⟨hol, holbyte⟩
  sheld h := hs.trans h
  status _ _ := hst
  quiet _ h := hs.trans h

theorem Stays.refl (c : Channel) : Stays p q c c := .of_eq rfl rfl rfl (.inl rfl)

theorem Stays.trans (h : Stays p q c d) (h' : Stays p q d e) : Stays p q c e where
  held hp h0 := by
    obtain ⟨hol, hb⟩ := h.held hp h0
    obtain ⟨hol', hb'⟩ := h'.held hp (hb.trans_ne h0)
    exact ⟨hol'.trans hol, hb'.trans hb⟩
  sheld hs := h'.sheld (h.sheld hs)
  status hp hs := (h.status hp hs).trans (h'.status hp (h.sheld hs))
  quiet hq hs := h'.quiet hq (h.quiet hq hs)

/-- Only one channel is written. -/
theorem Stays.set {s : Vatpit} {m n : Fin 3} {d : Channel} (h : m = n → Stays p q (s.channel n) d) :
    Stays p q (s.channel n) ((s.set m d).channel n) := by
  by_cases hm : m = n
  · rw [hm, Vatpit.set_self]
    exact h hm
  · rw [Vatpit.set_ne s d (Ne.symm hm)]
    exact .refl _

end Stays

section Operations

variable {up : Uptime} {s : Vatpit} {p q : Prop} (m n : Fin 3)

theorem setUp_stays : Stays p q (s.channel n) ((setUp up s m).channel n) := by
  unfold setUp
  split
  · exact .set fun hm => hm ▸ .of_eq rfl rfl rfl (.inr rfl)
  · exact .refl _

theorem setUp_channel : (setUp up s m).channel m = (s.channel m).setUp (sbinuptime up s) := by
  unfold setUp Channel.setUp
  split
  · exact Vatpit.set_self ..
  · rfl

theorem Channel.setUp_olbyte (c : Channel) (now : Int) : (c.setUp now).olbyte = c.olbyte := by
  unfold Channel.setUp
  split <;> rfl

theorem pitUpdateCounter_stays (latch : Bool) :
    Stays p q (s.channel n) ((pitUpdateCounter up s m latch).2.channel n) := by
  have hup : Stays p q (s.channel n) ((setUp up s m).channel n) := setUp_stays m n
  unfold pitUpdateCounter
  split
  · exact .refl _
  · rename_i h
    cases latch with
    | false => exact hup
    | true =>
      refine hup.trans (Stays.set (s := (setUp up s m).tick) fun hm => ?_)
      have h0 : ((setUp up s m).channel n).olbyte = 0 := by
        rw [← hm, setUp_channel, Channel.setUp_olbyte]
        simpa using h
      exact { held := fun _ hne => absurd h0 hne, sheld := fun hs => hm ▸ hs
              status := fun _ _ => .inl (hm ▸ rfl), quiet := fun _ hs => hm ▸ hs }

theorem latchStatus_stays (h : m = n → (s.channel n).slatched = false ∧ q) :
    Stays p q (s.channel n) ((latchStatus up s m).channel n) := by
  have hch := vatpitGetOut_channel up s m
  unfold latchStatus
  dsimp only
  have hset := Stays.set (p := p) (q := q) (s := (vatpitGetOut up s m).2) (m := m) (n := n)
    (d := { s.channel m with slatched := true, status := if (vatpitGetOut up s m).1 then (s.channel m).status ||| timerStsOut else (s.channel m).status &&& ~~~timerStsOut })
  rw [hch] at hset
  refine hset fun hm => ?_
  obtain ⟨hs, hq⟩ := h hm
  subst hm
  exact { held := fun _ _ => ⟨rfl, rfl⟩, sheld := fun hs' => absurd (hs.symm.trans hs') (by decide)
          status := fun _ hs' => absurd (hs.symm.trans hs') (by decide), quiet := fun hnq => absurd hq hnq }

theorem pitReadback1_stays {cmd : BitVec 8} (h : m = n → cmd &&& timerRbLstatus = 0 → q) :
    Stays p q (s.channel n) ((pitReadback1 up s m cmd).channel n) := by
  have hcount : Stays p q (s.channel n)
      ((if cmd &&& timerRbLctr = 0 ∧ (s.channel m).olbyte = 0 then (pitUpdateCounter up s m true).2 else s).channel n) := by
    split
    · exact pitUpdateCounter_stays m n true
    · exact .refl _
  unfold pitReadback1
  dsimp only
  generalize (if cmd &&& timerRbLctr = 0 ∧ (s.channel m).olbyte = 0 then (pitUpdateCounter up s m true).2 else s) = t
    at hcount ⊢
  split
  · rename_i hst
    refine hcount.trans (latchStatus_stays m n fun hm => ?_)
    subst hm
    exact ⟨hst.2, h rfl hst.1⟩
  · exact hcount

theorem foldl_stays {f : Vatpit → Fin 3 → Vatpit} (hf : ∀ s m, Stays p q (s.channel n) ((f s m).channel n))
    (ms : List (Fin 3)) (s : Vatpit) : Stays p q (s.channel n) ((ms.foldl f s).channel n) := by
  induction ms generalizing s with
  | nil => exact .refl _
  | cons m ms ih => exact (hf s m).trans (ih _)

theorem pitReadback_stays {cmd : BitVec 8} (h : cmd &&& timerRbCtr n ≠ 0 → cmd &&& timerRbLstatus = 0 → q) :
    Stays p q (s.channel n) ((pitReadback up s cmd).channel n) := by
  refine foldl_stays n (fun s m => ?_) _ s
  split
  · rename_i hm
    exact pitReadback1_stays m n fun hmn => h (hmn ▸ hm)
  · exact .refl _

theorem pitTimerStartCntr0_stays : Stays p q (s.channel n) ((pitTimerStartCntr0 up s).channel n) := by
  unfold pitTimerStartCntr0
  split
  · dsimp only [calloutResetSbt]
    have h1 : Stays p q (s.channel n)
        ((s.tick.set 0 { s.channel 0 with calloutSbt := (s.channel 0).target (sbinuptime up s) }).channel n) :=
      Stays.set (s := s.tick) fun h0 => h0 ▸ .of_eq rfl rfl rfl (.inl rfl)
    exact h1.trans (.set fun h0 => h0 ▸ .of_eq rfl rfl rfl (.inl rfl))
  · exact .refl _

theorem startCount_stays {c : Channel} (h : m = n → Stays p q (s.channel n) (c.loaded (sbinuptime up s))) :
    Stays p q (s.channel n) ((startCount up s m c).channel n) := by
  unfold startCount
  dsimp only
  split
  · refine (Stays.set (s := s.tick) (m := m) fun hm => (h hm).trans ?_).trans (pitTimerStartCntr0_stays n)
    exact .of_eq rfl rfl rfl (.inl rfl)
  · exact Stays.set (s := s.tick) h

theorem writeCntr_stays (val : BitVec 8) : Stays p q (s.channel n) ((writeCntr up s m val).channel n) := by
  unfold writeCntr
  dsimp only
  split
  · unfold load
    dsimp only
    have hs : Stays p q (s.channel n) ((startCount up s m { s.channel m with
        cr := Function.update (s.channel m).cr (s.channel m).crbyte val
        crbyte := (s.channel m).crbyte + 1 }).channel n) := by
      refine startCount_stays m n fun hm => ?_
      subst hm
      exact .of_eq rfl rfl rfl (.inr rfl)
    split
    · exact hs.trans (.set fun hm => hm ▸ .of_eq rfl rfl rfl (.inl rfl))
    · exact hs
  · exact .set fun hm => hm ▸ .of_eq rfl rfl rfl (.inl rfl)

theorem vatpitCalloutHandler_stays : Stays p q (s.channel n) ((vatpitCalloutHandler up s m).channel n) := by
  have hset : Stays p q (s.channel n)
      ((s.set m { s.channel m with callout := { (s.channel m).callout with active := false } }).channel n) :=
    .set fun hm => hm ▸ .of_eq rfl rfl rfl (.inl rfl)
  unfold vatpitCalloutHandler
  dsimp only
  split_ifs
  · exact .refl _
  · exact .refl _
  · exact hset.trans (pitTimerStartCntr0_stays n)
  · exact hset

theorem shift_lt_three (val : BitVec 8) (h : val &&& timerSelMask ≠ timerSelReadback) : (val >>> 6).toNat < 3 := by
  revert val
  decide +kernel

theorem vatpitUpdateMode_stays {val : BitVec 8} (hp : Word16 n val → p) (hq : latchesStatus n val → q) :
    Stays p q (s.channel n) ((vatpitUpdateMode up s val).2.channel n) := by
  unfold vatpitUpdateMode
  dsimp only
  split_ifs with hsel hrw hmode hlatch
  · exact pitReadback_stays n fun hn hst => hq ⟨hsel, hn, hst⟩
  · exact .refl _
  · exact .refl _
  · exact pitUpdateCounter_stays _ n true
  · refine .set fun hn => ?_
    have hword : Word16 n val := by
      refine ⟨?_, by tauto⟩
      rw [← hn]
      exact (Nat.mod_eq_of_lt (shift_lt_three val hsel)).symm
    rw [hn]
    exact { held := fun hnp => absurd (hp hword) hnp, sheld := fun hs => hs
            status := fun hnp => absurd (hp hword) hnp, quiet := fun _ hs => hs }

theorem readCntr_stays (h : m ≠ n) : Stays p q (s.channel n) ((readCntr up s m).2.channel n) := by
  unfold readCntr
  dsimp only
  split
  · exact .set fun hm => absurd hm h
  split
  · exact (pitUpdateCounter_stays m n false).trans (.set fun hm => absurd hm h)
  · exact .set fun hm => absurd hm h

theorem step_stays {op : Op} (h : ¬ ReadsPort n op) :
    Stays (Reprograms n op) (LatchesStatus n op) (s.channel n) ((step up s op).channel n) := by
  cases op with
  | io inp port bytes eax =>
    simp only [step]
    unfold vatpitHandler
    split
    · exact .refl _
    · rename_i hb
      have hb : bytes = 1 := not_not.mp hb
      subst hb
      cases port with
      | mode =>
        cases inp with
        | false => exact vatpitUpdateMode_stays n (fun hw => ⟨eax, rfl, hw⟩) fun hl => ⟨eax, rfl, hl⟩
        | true => exact .refl _
      | cntr m =>
        cases inp with
        | false => exact writeCntr_stays m n _
        | true => exact readCntr_stays m n fun hm => h ⟨eax, hm ▸ rfl⟩
  | nmisc inp eax =>
    cases inp with
    | false => exact .refl _
    | true =>
      have hch : (step up s (.nmisc true eax)).channel = s.channel := vatpitGetOut_channel up s 2
      rw [hch]
      exact .refl _
  | dispatch m => exact .set fun hm => hm ▸ .of_eq rfl rfl rfl (.inl rfl)
  | fire m => exact vatpitCalloutHandler_stays m n

end Operations

/-! ## Reads -/

/-- The bytes in the output latch, in the order they are read. -/
def pending (c : Channel) : List (BitVec 8) := ((List.range c.olbyte).map c.ol).reverse

section ReadLemmas

variable {up : Uptime} {s : Vatpit} {n : Fin 3}

theorem readOf_port (eax : BitVec 32) :
    readOf up n s (.io true (.cntr n) 1 eax) = [⟨(s.channel n).slatched, (readCntr up s n).1⟩] :=
  if_pos rfl

theorem readOf_other {op : Op} (h : ¬ ReadsPort n op) : readOf up n s op = [] := by
  unfold readOf
  split
  · rw [if_neg]
    rintro rfl
    exact h ⟨_, rfl⟩
  · rfl

theorem step_port (eax : BitVec 32) : step up s (.io true (.cntr n) 1 eax) = (readCntr up s n).2 := rfl

/-- The latched status first. -/
theorem readCntr_slatched (h : (s.channel n).slatched = true) :
    readCntr up s n = ((s.channel n).status.setWidth 32,
      s.set n { s.channel n with slatched := false, status := 0 }) := by
  unfold readCntr
  dsimp only
  rw [if_pos h]

/-- Then the latched count. -/
theorem readCntr_held (h : (s.channel n).slatched = false) (h0 : (s.channel n).olbyte ≠ 0) :
    readCntr up s n = (((s.channel n).ol ((s.channel n).olbyte - 1)).setWidth 32,
      s.set n { s.channel n with olbyte := (s.channel n).olbyte - 1 }) := by
  unfold readCntr
  dsimp only
  rw [if_neg (by rw [h]; decide), if_neg h0]

theorem pending_succ {c : Channel} {b : Nat} (h : c.olbyte = b + 1) :
    pending c = c.ol b :: pending { c with olbyte := b } := by
  unfold pending
  rw [h, List.range_succ, List.map_append, List.reverse_append]
  rfl

theorem pending_zero {c : Channel} (h : c.olbyte = 0) : pending c = [] := by
  unfold pending
  rw [h]
  rfl

/-- What is in the output latch comes out, byte for byte, before anything else. -/
theorem counts_pending (ops : List Op) (s : Vatpit) (h : ∀ op ∈ ops, ¬ Reprograms n op) :
    counts (reads up n s ops) <+: (pending (s.channel n)).map (·.setWidth 32) ∨
      (pending (s.channel n)).map (·.setWidth 32) <+: counts (reads up n s ops) := by
  induction ops generalizing s with
  | nil => exact .inl (List.nil_prefix ..)
  | cons op ops ih =>
    have hop := h op (List.mem_cons_self ..)
    have ih := ih (step up s op) fun o ho => h o (List.mem_cons_of_mem _ ho)
    by_cases h0 : (s.channel n).olbyte = 0
    · rw [pending_zero h0]
      exact .inr (List.nil_prefix ..)
    by_cases hr : ReadsPort n op
    · obtain ⟨eax, rfl⟩ := hr
      rw [reads, readOf_port]
      rw [step_port] at ih ⊢
      cases hs : (s.channel n).slatched with
      | true =>
        have hp : pending ((readCntr up s n).2.channel n) = pending (s.channel n) := by
          rw [readCntr_slatched hs, Vatpit.set_self]
          rfl
        rw [hp] at ih
        exact ih
      | false =>
        obtain ⟨b, hb⟩ := Nat.exists_eq_succ_of_ne_zero h0
        have hp : pending (s.channel n) = (s.channel n).ol b :: pending ((readCntr up s n).2.channel n) := by
          rw [readCntr_held hs h0, Vatpit.set_self, pending_succ hb, hb]
          rfl
        have hd : (readCntr up s n).1 = ((s.channel n).ol b).setWidth 32 := by
          rw [readCntr_held hs h0, hb]
          rfl
        rw [hp, hd, List.map_cons]
        exact ih.imp (List.cons_prefix_cons.mpr ⟨rfl, ·⟩) (List.cons_prefix_cons.mpr ⟨rfl, ·⟩)
    · have hst : Stays (Reprograms n op) (LatchesStatus n op) (s.channel n) ((step up s op).channel n) := step_stays n hr
      obtain ⟨hol, hb⟩ := hst.held hop h0
      have hp : pending ((step up s op).channel n) = pending (s.channel n) := by
        unfold pending
        rw [hol, hb]
      rw [reads, readOf_other hr, List.nil_append, ← hp]
      exact ih

theorem readCntr_quiet (h : (s.channel n).slatched = false) : ((readCntr up s n).2.channel n).slatched = false := by
  by_cases h0 : (s.channel n).olbyte = 0
  · have hst : Stays False False (s.channel n) ((pitUpdateCounter up s n false).2.channel n) :=
      pitUpdateCounter_stays n n false
    have hq := hst.quiet id h
    unfold readCntr
    dsimp only
    rw [if_neg (by rw [h]; decide), if_pos h0, Vatpit.set_self]
    exact hq
  · rw [readCntr_held h h0, Vatpit.set_self]
    exact h

/-- Once a status has been read, it takes a new command to have another. -/
theorem reads_counts (ops : List Op) (s : Vatpit) (hs : (s.channel n).slatched = false)
    (h : ∀ op ∈ ops, ¬ LatchesStatus n op) : ∀ r ∈ reads up n s ops, r.status = false := by
  induction ops generalizing s with
  | nil => exact fun r hr => nomatch hr
  | cons op ops ih =>
    have hop := h op (List.mem_cons_self ..)
    have hrest := fun o ho => h o (List.mem_cons_of_mem op ho)
    by_cases hr : ReadsPort n op
    · obtain ⟨eax, rfl⟩ := hr
      intro r hmem
      rw [reads, readOf_port, step_port, List.singleton_append, List.mem_cons] at hmem
      rcases hmem with rfl | hmem
      · exact hs
      · exact ih _ (readCntr_quiet hs) hrest r hmem
    · rw [reads, readOf_other hr, List.nil_append]
      exact ih _ ((step_stays n hr).quiet hop hs) hrest

theorem reads_status (ops : List Op) (s : Vatpit) (hs : (s.channel n).slatched = true)
    (h : ∀ op ∈ ops, ¬ LatchesStatus n op) :
    reads up n s ops = [] ∨ ∃ st rest, reads up n s ops = ⟨true, st.setWidth 32⟩ :: rest ∧
      (∀ r ∈ rest, r.status = false) ∧ ((∀ op ∈ ops, ¬ Reprograms n op) → Settled (s.channel n).status st) := by
  induction ops generalizing s with
  | nil => exact .inl rfl
  | cons op ops ih =>
    have hrest := fun o ho => h o (List.mem_cons_of_mem op ho)
    by_cases hr : ReadsPort n op
    · obtain ⟨eax, rfl⟩ := hr
      have hfree : ((readCntr up s n).2.channel n).slatched = false := by
        rw [readCntr_slatched hs, Vatpit.set_self]
      refine .inr ⟨(s.channel n).status, reads up n (readCntr up s n).2 ops, ?_, ?_, fun _ => .inl rfl⟩
      · rw [reads, readOf_port, step_port, hs, readCntr_slatched hs]
        rfl
      · exact reads_counts ops _ hfree hrest
    · have hst : Stays (Reprograms n op) (LatchesStatus n op) (s.channel n) ((step up s op).channel n) := step_stays n hr
      rw [reads, readOf_other hr, List.nil_append]
      rcases ih _ (hst.sheld hs) hrest with h0 | ⟨st, rest, he, hc, hv⟩
      · exact .inl h0
      · refine .inr ⟨st, rest, he, hc, fun hp => ?_⟩
        have hp' := hv fun o ho => hp o (List.mem_cons_of_mem op ho)
        exact (hst.status (hp op (List.mem_cons_self ..)) hs).trans hp'

end ReadLemmas

/-! ## The count that is latched -/

/-- The output latch holds a count the channel had at some moment. -/
def HoldsCount (up : Uptime) (c : Channel) (since : Nat) (t : Vatpit) (n : Fin 3) : Prop :=
  ∃ v, CountAt up c since t.ups v ∧ (t.channel n).olbyte = 2 ∧ (t.channel n).ol 1 = lowByte v ∧
    (t.channel n).ol 0 = highByte v

section Holds

variable {up : Uptime} {s t : Vatpit} {n m : Fin 3} {c : Channel} {origin : Nat}

theorem HoldsCount.later (h : HoldsCount up c origin s n) (hst : Stays False True (s.channel n) (t.channel n))
    (hups : s.ups ≤ t.ups) : HoldsCount up c origin t n := by
  obtain ⟨v, ⟨j, k, hj, hk, hlt, hv⟩, hb, hl, hh⟩ := h
  obtain ⟨hol, hb'⟩ := hst.held id (by rw [hb]; decide)
  exact ⟨v, ⟨j, k, hj, hk, hlt.trans_le hups, hv⟩, hb'.trans hb, hol ▸ hl, hol ▸ hh⟩

theorem HoldsCount.since (h : HoldsCount up c origin t n) {earlier : Nat} (hle : earlier ≤ origin) :
    HoldsCount up c earlier t n := by
  obtain ⟨v, ⟨j, k, hj, hrest⟩, hol⟩ := h
  exact ⟨v, ⟨j, k, hle.trans hj, hrest⟩, hol⟩

theorem setUp_ups (s : Vatpit) (n : Fin 3) : s.ups ≤ (setUp up s n).ups := by
  unfold setUp
  split
  · exact Nat.le_succ s.ups
  · exact le_rfl

theorem pitUpdateCounter_ups (s : Vatpit) (n : Fin 3) (latch : Bool) : s.ups ≤ (pitUpdateCounter up s n latch).2.ups := by
  unfold pitUpdateCounter
  split
  · exact le_rfl
  · cases latch
    · exact (setUp_ups s n).trans (Nat.le_succ _)
    · exact (setUp_ups s n).trans (Nat.le_succ _)

theorem pitUpdateCounter_holds (h0 : (s.channel n).olbyte = 0) :
    HoldsCount up (s.channel n) s.ups (pitUpdateCounter up s n true).2 n := by
  have hself : (pitUpdateCounter up s n true).2 = (setUp up s n).tick.set n
      (((setUp up s n).channel n).latched (((setUp up s n).channel n).count (sbinuptime up (setUp up s n)))) := by
    unfold pitUpdateCounter
    rw [if_neg (by rw [h0]; decide)]
    rfl
  rw [hself]
  refine ⟨((setUp up s n).channel n).count (sbinuptime up (setUp up s n)), ⟨s.ups, (setUp up s n).ups, le_rfl, setUp_ups s n, Nat.lt_succ_self _, ?_⟩, ?_⟩
  · rw [setUp_channel]
    rfl
  · rw [Vatpit.set_self]
    exact ⟨rfl, rfl, rfl⟩

theorem pitReadback1_ups (s : Vatpit) (m : Fin 3) (cmd : BitVec 8) : s.ups ≤ (pitReadback1 up s m cmd).ups := by
  have hcount : s.ups ≤
      (if cmd &&& timerRbLctr = 0 ∧ (s.channel m).olbyte = 0 then (pitUpdateCounter up s m true).2 else s).ups := by
    split
    · exact pitUpdateCounter_ups s m true
    · exact le_rfl
  unfold pitReadback1
  dsimp only
  generalize (if cmd &&& timerRbLctr = 0 ∧ (s.channel m).olbyte = 0 then (pitUpdateCounter up s m true).2 else s) = t
    at hcount ⊢
  split
  · exact hcount.trans (vatpitGetOut_ups up t m)
  · exact hcount

theorem pitReadback1_holds {cmd : BitVec 8} (hc : cmd &&& timerRbLctr = 0) (h0 : (s.channel n).olbyte = 0) :
    HoldsCount up (s.channel n) s.ups (pitReadback1 up s n cmd) n := by
  have hcount : HoldsCount up (s.channel n) s.ups (pitUpdateCounter up s n true).2 n := pitUpdateCounter_holds h0
  unfold pitReadback1
  dsimp only
  rw [if_pos (show cmd &&& timerRbLctr = 0 ∧ (s.channel n).olbyte = 0 from ⟨hc, h0⟩)]
  generalize (pitUpdateCounter up s n true).2 = t at hcount ⊢
  split
  · rename_i hst
    exact hcount.later (latchStatus_stays n n fun _ => ⟨hst.2, trivial⟩) (vatpitGetOut_ups up t n)
  · exact hcount

theorem pitUpdateCounter_ne (latch : Bool) (h : n ≠ m) :
    (pitUpdateCounter up s m latch).2.channel n = s.channel n := by
  have hup : (setUp up s m).channel n = s.channel n := by
    unfold setUp
    split
    · exact Vatpit.set_ne _ _ h
    · rfl
  unfold pitUpdateCounter
  split
  · rfl
  · cases latch with
    | false => exact hup
    | true => exact (Vatpit.set_ne _ _ h).trans hup

/-- Each channel is on its own. -/
theorem pitReadback1_ne (cmd : BitVec 8) (h : n ≠ m) : (pitReadback1 up s m cmd).channel n = s.channel n := by
  have hcount :
      (if cmd &&& timerRbLctr = 0 ∧ (s.channel m).olbyte = 0 then (pitUpdateCounter up s m true).2 else s).channel n =
        s.channel n := by
    split
    · exact pitUpdateCounter_ne true h
    · rfl
  unfold pitReadback1
  dsimp only
  generalize (if cmd &&& timerRbLctr = 0 ∧ (s.channel m).olbyte = 0 then (pitUpdateCounter up s m true).2 else s) = t
    at hcount ⊢
  split
  · exact ((Vatpit.set_ne _ _ h).trans (congrFun (vatpitGetOut_channel up t m) n)).trans hcount
  · exact hcount

/-- A read-back latches the counts of the channels it selects one after the other. -/
theorem foldl_holds {cmd : BitVec 8} (hc : cmd &&& timerRbLctr = 0) (hn : cmd &&& timerRbCtr n ≠ 0) (ms : List (Fin 3))
    (s : Vatpit) (hmem : n ∈ ms) (h0 : (s.channel n).olbyte = 0) :
    HoldsCount up (s.channel n) s.ups
      (ms.foldl (fun s m => if cmd &&& timerRbCtr m ≠ 0 then pitReadback1 up s m cmd else s) s) n := by
  have hstays : ∀ s m, Stays False True (s.channel n)
      ((if cmd &&& timerRbCtr m ≠ 0 then pitReadback1 up s m cmd else s).channel n) := by
    intro s m
    split
    · exact pitReadback1_stays m n fun _ _ => trivial
    · exact .refl _
  have hups : ∀ s m, s.ups ≤ (if cmd &&& timerRbCtr m ≠ 0 then pitReadback1 up s m cmd else s).ups := by
    intro s m
    split
    · exact pitReadback1_ups s m cmd
    · exact le_rfl
  have hfold : ∀ (ms : List (Fin 3)) (s : Vatpit), s.ups ≤
      (ms.foldl (fun s m => if cmd &&& timerRbCtr m ≠ 0 then pitReadback1 up s m cmd else s) s).ups := by
    intro ms
    induction ms with
    | nil => exact fun _ => le_rfl
    | cons m ms ih => exact fun s => (hups s m).trans (ih _)
  induction ms generalizing s with
  | nil => cases hmem
  | cons m ms ih =>
    rw [List.foldl_cons]
    by_cases hm : n = m
    · subst hm
      rw [if_pos hn]
      exact (pitReadback1_holds hc h0).later (foldl_stays n hstays ms _) (hfold ms _)
    · have hch : (if cmd &&& timerRbCtr m ≠ 0 then pitReadback1 up s m cmd else s).channel n = s.channel n := by
        split
        · exact pitReadback1_ne cmd hm
        · rfl
      have hrest := ih _ ((List.mem_cons.mp hmem).resolve_left hm) ((congrArg Channel.olbyte hch).trans h0)
      rw [hch] at hrest
      exact hrest.since (hups s m)

theorem step_holds {val : BitVec 8} (hl : latchesCount n val) (h0 : (s.channel n).olbyte = 0) :
    HoldsCount up (s.channel n) s.ups (step up s (outb .mode val)) n := by
  have hval : (val.setWidth 32).setWidth 8 = val := by simp
  change HoldsCount up _ _ (vatpitUpdateMode up s ((val.setWidth 32).setWidth 8)).2 n
  rw [hval]
  unfold vatpitUpdateMode
  dsimp only
  unfold latchesCount at hl
  split at hl
  · rename_i hsel
    rw [if_pos hsel]
    exact foldl_holds hl.2 hl.1 _ s (List.mem_finRange n) h0
  · rename_i hsel
    rw [if_neg hsel, if_neg (fun hrw => hrw.1 hl.1), if_neg (fun hmode => hmode.1 hl.1), if_pos hl.1, hl.2]
    exact pitUpdateCounter_holds h0

end Holds

/-- The latches keep what they promise in every state of the timer. -/
theorem latch_stable {up : Uptime} {s : Vatpit} (h : (system up).Reachable s) : LatchStable up s where
  indices n := ⟨(inv_reachable h n).crbyte, (inv_reachable h n).olbyte⟩
  range n j k hj hk := (inv_reachable h n).range hj hk
  latched n val ops hl h0 hops := by
    have hholds : HoldsCount up (s.channel n) s.ups (step up s (outb .mode val)) n := step_holds hl h0
    obtain ⟨v, hv, hb, hlo, hhi⟩ := hholds
    have hp : pending ((step up s (outb .mode val)).channel n) = [lowByte v, highByte v] := by
      rw [pending_succ hb, pending_succ rfl, pending_zero rfl]
      exact congrArg₂ (fun x y => [x, y]) hlo hhi
    refine ⟨v, hv, ?_⟩
    have hcounts : counts (reads up n (step up s (outb .mode val)) ops) <+:
          (pending ((step up s (outb .mode val)).channel n)).map (·.setWidth 32) ∨
        (pending ((step up s (outb .mode val)).channel n)).map (·.setWidth 32) <+:
          counts (reads up n (step up s (outb .mode val)) ops) := counts_pending ops _ hops
    rw [hp] at hcounts
    rcases hcounts with hc | hc
    · exact (List.take_prefix ..).trans hc
    · obtain ⟨rest, hrest⟩ := hc
      rw [← hrest]
      exact List.prefix_refl _
  status n ops hs hops := reads_status ops s hs hops

/-- The three channels latched by one read-back on a timer nobody has programmed. -/
theorem latch_stable_readback : LatchStable noTime (step noTime vatpitInit (outb .mode 0xce)) :=
  latch_stable (.step (.init rfl) rfl)

end Xhyve.Vmm.Pit
