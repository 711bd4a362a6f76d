import Xhyve.Emul.AhciPorts

/-!
# What the commands of the AHCI controller do

A handler that answers a command at once writes to the guest's memory and to a few fields of its port that
nothing else depends on, and ends with the one FIS that answers the command. Here are the rules for such
programs; every handler then comes down to two facts: whether the command is refused, and that up to the FIS
nothing else has changed.
-/

namespace Xhyve.Emul.Ahci

open Xhyve.Lib Xhyve.Lib.Fallible

/-! ## What a handler may change on the way -/

/-- The guest's memory and the fields of a port that a handler writes as it goes. -/
structure Scratch where
  mem : Mem
  tfd : BitVec 32
  senseKey : UInt8
  asc : UInt8
  xfermode : UInt8
  multSectors : UInt8

def State.scratch (s : State) (p : PortNo) : Scratch :=
  ⟨s.mem, (s.port p).tfd, (s.port p).senseKey, (s.port p).asc, (s.port p).xfermode, (s.port p).multSectors⟩

def Port.scribble (pr : Port) (x : Scratch) : Port :=
  { pr with
    tfd := x.tfd, senseKey := x.senseKey, asc := x.asc, xfermode := x.xfermode, multSectors := x.multSectors }

def State.scribble (s : State) (p : PortNo) (x : Scratch) : State :=
  { s.setPort p ((s.port p).scribble x) with mem := x.mem }

/-- Nothing else has changed. -/
def Calm (p : PortNo) (s t : State) : Prop := ∃ x, t = s.scribble p x

section Calm
variable {p q : PortNo} {s t u : State}

@[simp] theorem setPort_same (pr : Port) : (s.setPort p pr).port p = pr := Function.update_self ..

theorem setPort_ne (pr : Port) (hq : q ≠ p) : (s.setPort p pr).port q = s.port q :=
  Function.update_of_ne hq ..

@[simp] theorem setPort_setPort (a b : Port) : (s.setPort p a).setPort p b = s.setPort p b := by
  simp [State.setPort]

@[simp] theorem setPort_self : s.setPort p (s.port p) = s := by simp [State.setPort]

@[simp] theorem scribble_same (x : Scratch) : (s.scribble p x).port p = (s.port p).scribble x :=
  setPort_same ..

theorem scribble_ne (x : Scratch) (hq : q ≠ p) : (s.scribble p x).port q = s.port q := setPort_ne _ hq

@[simp] theorem scribble_mem (x : Scratch) : (s.scribble p x).mem = x.mem := rfl

theorem Calm.refl (p : PortNo) (s : State) : Calm p s s := by
  refine ⟨s.scratch p, ?_⟩
  unfold State.scribble
  have hport : (s.port p).scribble (s.scratch p) = s.port p := rfl
  rw [hport, setPort_self]
  rfl

theorem Calm.trans (h : Calm p s t) (h' : Calm p t u) : Calm p s u := by
  obtain ⟨x, rfl⟩ := h
  obtain ⟨y, rfl⟩ := h'
  refine ⟨y, ?_⟩
  simp only [State.scribble, State.setPort, Function.update_self, Function.update_idem, Port.scribble]

/-- A change of the fields of the port that do not matter. -/
theorem Calm.of_port {f : Port → Port} {mem : Mem} {x : Scratch} (hf : f (s.port p) = (s.port p).scribble x)
    (hm : x.mem = mem) : Calm p s { s.setPort p (f (s.port p)) with mem := mem } :=
  ⟨x, by rw [State.scribble, hf, hm]⟩

end Calm

/-- The ways a handler can stop on the way: at an address that is not mapped, or on a port that was never
initialised. -/
def Harmless (pr : Port) (e : Stop) : Prop := e = .null ∨ e = .uninit ∧ pr.backed = false

/-- A program that changes nothing that matters. -/
structure Quiet {α : Type} (p : PortNo) (x : AhciM α) : Prop where
  ok : ∀ s a t, x s = .ok a t → Calm p s t
  stop : ∀ s e t, x s = .error e t → Harmless (s.port p) e

section Quiet
variable {α β : Type} {p : PortNo} {x : AhciM α} {f : α → AhciM β}

theorem Calm.backed {s t : State} (h : Calm p s t) : (t.port p).backed = (s.port p).backed := by
  obtain ⟨x, rfl⟩ := h
  rw [scribble_same]
  rfl

theorem Calm.harmless {s t : State} (h : Calm p s t) {e : Stop} (he : Harmless (t.port p) e) :
    Harmless (s.port p) e := by
  unfold Harmless at he ⊢
  rwa [h.backed] at he

theorem Quiet.bind (hx : Quiet p x) (hf : ∀ a, Quiet p (f a)) : Quiet p (x >>= f) := by
  refine ⟨fun s b u h => ?_, fun s e u h => ?_⟩
  · obtain ⟨a, t, hxa, hfa⟩ := bind_ok_iff.mp h
    exact (hx.ok s a t hxa).trans ((hf a).ok t b u hfa)
  · rcases bind_error_iff.mp h with hxe | ⟨a, t, hxa, hfe⟩
    · exact hx.stop s e u hxe
    · exact (hx.ok s a t hxa).harmless ((hf a).stop t e u hfe)

theorem quiet_pure (a : α) : Quiet p (pure a : AhciM α) := by
  refine ⟨fun s b t h => ?_, fun s e t h => by cases h⟩
  cases h
  exact Calm.refl p s

theorem quiet_getMem : Quiet p getMem := by
  refine ⟨fun s b t h => ?_, fun s e t h => by cases h⟩
  cases h
  exact Calm.refl p s

theorem quiet_getPort (q : PortNo) : Quiet p (getPort q) := by
  refine ⟨fun s b t h => ?_, fun s e t h => by cases h⟩
  cases h
  exact Calm.refl p s

theorem quiet_null : Quiet p (throw .null : AhciM α) := by
  refine ⟨fun s b t h => (by cases h), fun s e t h => ?_⟩
  cases h
  exact .inl rfl

theorem quiet_modifyMem (f : Mem → Mem) : Quiet p (modifyMem f) := by
  refine ⟨fun s b t h => ?_, fun s e t h => by cases h⟩
  cases h
  refine ⟨{ s.scratch p with mem := f s.mem }, ?_⟩
  have hport : (s.port p).scribble { s.scratch p with mem := f s.mem } = s.port p := rfl
  rw [State.scribble, hport, setPort_self]

/-- A write to the fields that do not matter. -/
theorem quiet_modifyPort {g : Port → Port} (sc : Port → Scratch)
    (hg : ∀ pr, g pr = pr.scribble (sc pr)) : Quiet p (modifyPort p g) := by
  refine ⟨fun s b t h => ?_, fun s e t h => by cases h⟩
  cases h
  refine ⟨{ sc (s.port p) with mem := s.mem }, ?_⟩
  show s.setPort p (g (s.port p)) = _
  rw [hg]
  rfl

theorem quiet_ite {c : Prop} [Decidable c] {y : AhciM α} (hx : c → Quiet p x) (hy : ¬ c → Quiet p y) :
    Quiet p (if c then x else y) := by
  split
  · exact hx ‹_›
  · exact hy ‹_›

theorem quiet_withBctx : Quiet p (withBctx p) := by
  refine ⟨fun s b t h => ?_, fun s e t h => ?_⟩
  · unfold withBctx at h
    obtain ⟨pr, t', hpr, hrest⟩ := bind_ok_iff.mp h
    cases hpr
    cases hb : (s.port p).backed with
    | true =>
      rw [hb] at hrest
      cases hrest
      exact Calm.refl p s
    | false =>
      rw [hb] at hrest
      cases hrest
  · unfold withBctx at h
    rcases bind_error_iff.mp h with hpr | ⟨pr, t', hpr, hrest⟩
    · cases hpr
    · cases hpr
      cases hb : (s.port p).backed with
      | true =>
        rw [hb] at hrest
        cases hrest
      | false =>
        rw [hb] at hrest
        cases hrest
        exact .inr ⟨rfl, hb⟩

theorem quiet_cmdHdr (slot : Slot) : Quiet p (cmdHdr p slot) := by
  refine Quiet.bind (quiet_getPort p) fun pr => ?_
  cases pr.cmdLst with
  | none => exact quiet_null
  | some a => exact quiet_pure _

theorem quiet_setIreason (cfis : Nat) : Quiet p (setIreason cfis) := quiet_modifyMem _

theorem quiet_readPrdtLoop (h : Host) (hdr fuel i prdt : Nat) (buf : Nat → UInt8) (left : Nat) :
    Quiet p (readPrdtLoop h hdr fuel i prdt buf left) := by
  induction fuel generalizing i prdt buf left with
  | zero => exact quiet_pure _
  | succ fuel ih =>
    refine Quiet.bind quiet_getMem fun m => quiet_ite (fun _ => ?_) fun _ => quiet_pure _
    dsimp only
    split
    · exact quiet_null
    · exact ih ..

theorem quiet_readPrdt (h : Host) (slot : Slot) (cfis : Nat) (buf : Nat → UInt8) :
    Quiet p (readPrdt h p slot cfis buf) :=
  (quiet_cmdHdr slot).bind fun _ => quiet_readPrdtLoop ..

theorem quiet_writePrdtLoop (h : Host) (hdr : Nat) (buf : Nat → UInt8) (fuel i prdt start left : Nat) :
    Quiet p (writePrdtLoop h hdr buf fuel i prdt start left) := by
  induction fuel generalizing i prdt start left with
  | zero => exact quiet_pure _
  | succ fuel ih =>
    refine Quiet.bind quiet_getMem fun m => quiet_ite (fun _ => ?_) fun _ => quiet_pure _
    dsimp only
    split
    · exact quiet_null
    · exact (quiet_modifyMem _).bind fun _ => ih ..

theorem quiet_writePrdt (h : Host) (slot : Slot) (cfis : Nat) (buf : Nat → UInt8) (size : Nat) :
    Quiet p (writePrdt h p slot cfis buf size) :=
  (quiet_cmdHdr slot).bind fun _ => (quiet_writePrdtLoop ..).bind fun _ => quiet_modifyMem _

end Quiet

/-! ## Interrupts and FISes -/

/-- What becomes of a FIS: there is no place for it, it is written, or it is written and interrupts. -/
theorem ahciWriteFis_eq (h : Host) (p : PortNo) (ft : FisType) (fis : Nat → UInt8) (s : State) :
    ahciWriteFis h p ft fis s =
      match (s.port p).fisArea, fisPlace ft with
      | some rfis, some (offset, len, ix) =>
        let t := s.putFis p (rfis + offset) len fis (fisIrq ix fis)
        if fisIrq ix fis = 0 then .ok () t
        else if (s.port p).backed then .ok () (t.evalIntr h)
        else .error .uninit t
      | _, _ => .ok () s := by
  show (match (s.port p).fisArea, fisPlace ft with
    | some rfis, some (offset, len, ix) => _
    | _, _ => _ : AhciM Unit) s = _
  cases (s.port p).fisArea with
  | none => rfl
  | some rfis =>
    cases fisPlace ft with
    | none => rfl
    | some place =>
      obtain ⟨offset, len, ix⟩ := place
      show (if fisIrq ix fis = 0 then _ else _ : AhciM Unit)
        (s.putFis p (rfis + offset) len fis (fisIrq ix fis)) = _
      dsimp only
      split
      · rfl
      · split <;> rfl

/-- What the interrupt line depends on is as before. -/
structure SameLine (s t : State) : Prop where
  ghc : t.ghc = s.ghc
  is : t.is = s.is
  lintr : t.lintr = s.lintr
  pins : t.pins = s.pins
  asked : t.asked = s.asked

/-- The interrupt line changes only where it is evaluated. -/
def Relined (h : Host) : State → State → Prop :=
  Relation.ReflTransGen fun s t => SameLine s t ∨ t = s.evalIntr h

/-- Only one port, the memory, the block interface and the interrupt line have changed; of the port, neither
what it is nor whether it is started. Its commands may have to be gone through. -/
structure Touch (h : Host) (p : PortNo) (s t : State) : Prop where
  others : ∀ q, q ≠ p → t.port q = s.port q
  backed : (t.port p).backed = (s.port p).backed
  atapi : (t.port p).atapi = (s.port p).atapi
  started : (t.port p).cmd &&& ahciPCmdSt = (s.port p).cmd &&& ahciPCmdSt
  finishing : t.finishing = s.finishing
  handling : t.handling = s.handling ∨ t.handling = some p ∧ (t.port p).cmd &&& ahciPCmdSt ≠ 0
  misused : t.misused = s.misused
  stack : t.stack = s.stack
  cancels : t.cancels = s.cancels
  line : Relined h s t

section Touch
variable {h : Host} {p : PortNo} {s t u : State}

theorem SameLine.refl (s : State) : SameLine s s := ⟨rfl, rfl, rfl, rfl, rfl⟩

theorem SameLine.relined (hl : SameLine s t) : Relined h s t := .single (.inl hl)

theorem Touch.refl (h : Host) (p : PortNo) (s : State) : Touch h p s s :=
  ⟨fun _ _ => rfl, rfl, rfl, rfl, rfl, .inl rfl, rfl, rfl, rfl, .refl⟩

theorem Touch.trans (h₁ : Touch h p s t) (h₂ : Touch h p t u) : Touch h p s u where
  others q hq := (h₂.others q hq).trans (h₁.others q hq)
  backed := h₂.backed.trans h₁.backed
  atapi := h₂.atapi.trans h₁.atapi
  started := h₂.started.trans h₁.started
  finishing := h₂.finishing.trans h₁.finishing
  handling := by
    rcases h₂.handling with hu | hu
    · rcases h₁.handling with ht | ⟨ht, hst⟩
      · exact .inl (hu.trans ht)
      · exact .inr ⟨hu.trans ht, by rwa [h₂.started]⟩
    · exact .inr hu
  misused := h₂.misused.trans h₁.misused
  stack := h₂.stack.trans h₁.stack
  cancels := h₂.cancels.trans h₁.cancels
  line := h₁.line.trans h₂.line

/-- A change of a port that leaves alone what it is and whether it is started. -/
theorem touch_setPort (s : State) (pr : Port) (hback : pr.backed = (s.port p).backed)
    (hatapi : pr.atapi = (s.port p).atapi)
    (hst : pr.cmd &&& ahciPCmdSt = (s.port p).cmd &&& ahciPCmdSt) : Touch h p s (s.setPort p pr) where
  others _ hq := setPort_ne pr hq
  backed := by rw [setPort_same, hback]
  atapi := by rw [setPort_same, hatapi]
  started := by rw [setPort_same, hst]
  finishing := rfl
  handling := .inl rfl
  misused := rfl
  stack := rfl
  cancels := rfl
  line := SameLine.relined ⟨rfl, rfl, rfl, rfl, rfl⟩

/-- A change of the memory and of the elements in use. -/
theorem touch_mem (mem : Mem) (used : Nat) : Touch h p s { s with mem := mem, used := used } :=
  ⟨fun _ _ => rfl, rfl, rfl, rfl, rfl, .inl rfl, rfl, rfl, rfl, SameLine.relined ⟨rfl, rfl, rfl, rfl, rfl⟩⟩

theorem Calm.touch (hc : Calm p s t) : Touch h p s t := by
  obtain ⟨x, rfl⟩ := hc
  exact (touch_setPort s ((s.port p).scribble x) rfl rfl rfl).trans (touch_mem x.mem s.used)

theorem Calm.used (hc : Calm p s t) : t.used = s.used := by
  obtain ⟨x, rfl⟩ := hc
  rfl

theorem Calm.handling (hc : Calm p s t) : t.handling = s.handling := by
  obtain ⟨x, rfl⟩ := hc
  rfl

end Touch

/-- An interrupt is looked for: only the pin and the global status can change. -/
structure Lined (s t : State) : Prop where
  port : t.port = s.port
  mem : t.mem = s.mem
  used : t.used = s.used
  finishing : t.finishing = s.finishing
  handling : t.handling = s.handling
  misused : t.misused = s.misused
  stack : t.stack = s.stack
  cancels : t.cancels = s.cancels
  ghc : t.ghc = s.ghc

theorem lined_setLine (s : State) (h : Host) : Lined s (s.setLine h) := by
  unfold State.setLine
  split
  · split
    · exact ⟨rfl, rfl, rfl, rfl, rfl, rfl, rfl, rfl, rfl⟩
    · exact ⟨rfl, rfl, rfl, rfl, rfl, rfl, rfl, rfl, rfl⟩
  · split
    · exact ⟨rfl, rfl, rfl, rfl, rfl, rfl, rfl, rfl, rfl⟩
    · exact ⟨rfl, rfl, rfl, rfl, rfl, rfl, rfl, rfl, rfl⟩

theorem lined_evalIntr (s : State) (h : Host) : Lined s (s.evalIntr h) := by
  have hl := lined_setLine s.gather h
  exact ⟨hl.port, hl.mem, hl.used, hl.finishing, hl.handling, hl.misused, hl.stack, hl.cancels, hl.ghc⟩

theorem touch_evalIntr (h : Host) (p : PortNo) (s : State) : Touch h p s (s.evalIntr h) := by
  have hl := lined_evalIntr s h
  exact ⟨fun q _ => by rw [hl.port], by rw [hl.port], by rw [hl.port], by rw [hl.port], hl.finishing,
    .inl hl.handling, hl.misused, hl.stack, hl.cancels, .single (.inr rfl)⟩

/-- A FIS of a supported kind has been written, or there is no place for it. -/
structure Posted (h : Host) (p : PortNo) (error : Bool) (s t : State) : Prop where
  touch : Touch h p s t
  used : t.used = s.used
  port : ∃ is, t.port p = { s.port p with
    waitforclear := (s.port p).waitforclear || (error && (s.port p).fisArea.isSome)
    is := is }

section Posted
variable {h : Host} {p : PortNo} {ft : FisType} {fis : Nat → UInt8} {s t : State}

theorem posted_putFis {rfis area len : Nat} {irq : BitVec 32} (harea : (s.port p).fisArea = some rfis) :
    Posted h p (fisError fis) s (s.putFis p area len fis irq) := by
  refine ⟨?_, rfl, (s.port p).is ||| irq, ?_⟩
  · exact (touch_setPort s { s.port p with
      waitforclear := (s.port p).waitforclear || fisError fis
      is := (s.port p).is ||| irq } rfl rfl rfl).trans (touch_mem (Mem.copy s.mem area fis 0 len) s.used)
  · show (s.setPort p _).port p = _
    rw [setPort_same, harea, Option.isSome_some, Bool.and_true]

theorem Posted.evalIntr {error : Bool} (hp : Posted h p error s t) : Posted h p error s (t.evalIntr h) := by
  have hl := lined_evalIntr t h
  obtain ⟨is, hport⟩ := hp.port
  exact ⟨hp.touch.trans (touch_evalIntr h p t), hl.used.trans hp.used, is, by rw [hl.port, hport]⟩

theorem ahciWriteFis_posted (hft : fisPlace ft ≠ none) (hok : ahciWriteFis h p ft fis s = .ok () t) :
    Posted h p (fisError fis) s t := by
  rw [ahciWriteFis_eq] at hok
  cases harea : (s.port p).fisArea with
  | none =>
    rw [harea] at hok
    cases hok
    refine ⟨Touch.refl h p s, rfl, (s.port p).is, ?_⟩
    rw [harea, Option.isSome_none, Bool.and_false, Bool.or_false]
  | some rfis =>
    cases hplace : fisPlace ft with
    | none => exact absurd hplace hft
    | some place =>
      obtain ⟨offset, len, ix⟩ := place
      rw [harea, hplace] at hok
      dsimp only at hok
      split at hok
      · cases hok
        exact posted_putFis harea
      · split at hok
        · cases hok
          exact (posted_putFis harea).evalIntr
        · cases hok

/-- Writing a FIS stops only where it interrupts for a port that has no controller. -/
theorem ahciWriteFis_stop {e : Stop} (herr : ahciWriteFis h p ft fis s = .error e t) :
    Harmless (s.port p) e := by
  rw [ahciWriteFis_eq] at herr
  split at herr
  · dsimp only at herr
    split at herr
    · cases herr
    · split at herr
      · cases herr
      · rename_i hback
        cases herr
        exact .inr ⟨rfl, by simpa using hback⟩
  · cases herr

theorem fisIrq_quiet (h1 : fis 1 &&& 0x40 = 0) (h2 : fis 2 &&& 0x01 = 0) (ix : BitVec 32) : fisIrq ix fis = 0 := by
  simp [fisIrq, fisError, h1, h2]

/-- A FIS without an interrupt and without an error is only memory. -/
theorem quiet_writeFis (h1 : fis 1 &&& 0x40 = 0) (h2 : fis 2 &&& 0x01 = 0) :
    Quiet p (ahciWriteFis h p ft fis) := by
  have herror : fisError fis = false := by simp [fisError, h2]
  have hirq := fisIrq_quiet h1 h2
  refine ⟨fun s a t hok => ?_, fun s e t herr => ahciWriteFis_stop herr⟩
  rw [ahciWriteFis_eq] at hok
  split at hok
  · dsimp only at hok
    rw [hirq, if_pos rfl] at hok
    cases hok
    rename_i rfis offset len ix _ _
    refine ⟨{ s.scratch p with mem := Mem.copy s.mem (rfis + offset) fis 0 len }, ?_⟩
    have hport : { s.port p with
        waitforclear := (s.port p).waitforclear || fisError fis
        is := (s.port p).is ||| 0 } = s.port p := by
      simp [herror]
    rw [State.putFis, hport]
    rfl
  · cases hok
    exact Calm.refl p s

theorem quiet_piosetup : Quiet p (ahciWriteFisPiosetup h p) := quiet_writeFis (by decide) (by decide)

theorem quiet_resetFis : Quiet p (ahciWriteResetFisD2h h p) := by
  refine (quiet_getPort p).bind fun pr => ?_
  refine quiet_writeFis ?_ ?_
  · cases pr.atapi <;> decide
  · cases pr.atapi <;> decide

end Posted

/-! ## Answers -/

/-- The error bit of a task file is the one its FIS carries. -/
theorem byteOf_error (tfd : BitVec 32) : byteOf tfd 0 &&& 0x01 ≠ 0 ↔ tfd &&& ataSError ≠ 0 := by
  have hbyte : (byteOf tfd 0 &&& 0x01).toNat = tfd.toNat % 2 := by
    show (tfd.toNat >>> 0 % 2 ^ 8 &&& 1) = _
    rw [Nat.and_one_is_mod, Nat.shiftRight_zero]
    omega
  have hword : (tfd &&& ataSError).toNat = tfd.toNat % 2 := by
    show (tfd.toNat &&& 1) = _
    rw [Nat.and_one_is_mod]
  rw [not_iff_not, ← UInt8.toNat_inj, ← BitVec.toNat_inj, hbyte, hword]
  rfl

/-- The port after the one FIS that answers a command: what matters of it, whatever else was written. -/
structure Answered (h : Host) (p : PortNo) (slot : Slot) (failed : Bool) (s t : State) : Prop where
  touch : Touch h p s t
  used : t.used = s.used
  port : ∃ (x : Scratch) (errCfis : Nat → UInt8) (is : BitVec 32),
    x.tfd &&& (ataSBusy ||| ataSDrq) = 0 ∧
    t.port p = { (s.port p).scribble x with
      errCfis := errCfis
      is := is
      ci := if failed then (s.port p).ci else WordSet.clr slot.val (s.port p).ci
      waitforclear := (s.port p).waitforclear || (failed && (s.port p).fisArea.isSome)
      reports := (s.port p).reports ++ [.d2h slot failed] }

/-- The handler answers the command, or stops on the way. -/
structure Answers (h : Host) (p : PortNo) (slot : Slot) (failed : Bool) (x : AhciM Unit) (s : State) : Prop where
  ok : ∀ u t, x s = .ok u t → Answered h p slot failed s t
  stop : ∀ e t, x s = .error e t → Harmless (s.port p) e

section Answers
variable {h : Host} {p : PortNo} {slot : Slot} {cfis : Nat} {failed : Bool} {s t u : State}

theorem Answered.of_calm (hc : Calm p s t) (ha : Answered h p slot failed t u) :
    Answered h p slot failed s u := by
  refine ⟨hc.touch.trans ha.touch, ha.used.trans hc.used, ?_⟩
  obtain ⟨y, rfl⟩ := hc
  obtain ⟨x, errCfis, is, htfd, hport⟩ := ha.port
  refine ⟨x, errCfis, is, htfd, ?_⟩
  rw [hport, scribble_same]
  rfl

theorem answers_after {α : Type} {x : AhciM α} {f : α → AhciM Unit} (hx : Quiet p x)
    (hf : ∀ a t, x s = .ok a t → Answers h p slot failed (f a) t) :
    Answers h p slot failed (x >>= f) s := by
  refine ⟨fun v u hok => ?_, fun e u herr => ?_⟩
  · obtain ⟨a, t, hxa, hfa⟩ := bind_ok_iff.mp hok
    exact ((hf a t hxa).ok v u hfa).of_calm (hx.ok s a t hxa)
  · rcases bind_error_iff.mp herr with hxe | ⟨a, t, hxa, hfe⟩
    · exact hx.stop s e u hxe
    · exact (hx.ok s a t hxa).harmless ((hf a t hxa).stop e u hfe)

theorem answers_getPort {q : PortNo} {f : Port → AhciM Unit} (hf : Answers h p slot failed (f (s.port q)) s) :
    Answers h p slot failed (getPort q >>= f) s := ⟨hf.ok, hf.stop⟩

theorem answers_getMem {f : Mem → AhciM Unit} (hf : Answers h p slot failed (f s.mem) s) :
    Answers h p slot failed (getMem >>= f) s := ⟨hf.ok, hf.stop⟩

theorem answers_ite {c : Prop} [Decidable c] {x y : AhciM Unit} (hx : c → Answers h p slot failed x s)
    (hy : ¬ c → Answers h p slot failed y s) : Answers h p slot failed (if c then x else y) s := by
  split
  · exact hx ‹_›
  · exact hy ‹_›

theorem answers_cond {c : Prop} [Decidable c] {x y : AhciM Unit} {failed' : Bool}
    (hx : c → Answers h p slot failed x s) (hy : ¬ c → Answers h p slot failed' y s) :
    Answers h p slot (if c then failed else failed') (if c then x else y) s := by
  split
  · exact hx ‹_›
  · exact hy ‹_›

/-- A command refused exactly if a condition holds. -/
theorem answers_refuse_if {c : Prop} [Decidable c] {x y : AhciM Unit} (hx : c → Answers h p slot true x s)
    (hy : ¬ c → Answers h p slot false y s) : Answers h p slot (decide c) (if c then x else y) s := by
  by_cases hc : c
  · rw [if_pos hc, decide_eq_true hc]
    exact hx hc
  · rw [if_neg hc, decide_eq_false hc]
    exact hy hc

theorem answers_d2h (tfd : BitVec 32) (hfailed : (tfd &&& ataSError ≠ 0 : Bool) = failed)
    (hidle : tfd &&& (ataSBusy ||| ataSDrq) = 0) :
    Answers h p slot failed (ahciWriteFisD2h h p slot cfis tfd) s := by
  have hrun : ahciWriteFisD2h h p slot cfis tfd s = ahciWriteFis h p .regd2h (d2hFis (bytesAt s.mem cfis) tfd)
      (s.setPort p ((s.port p).answered slot (bytesAt s.mem cfis) tfd)) := rfl
  have herror : fisError (d2hFis (bytesAt s.mem cfis) tfd) = failed := by
    rw [← hfailed]
    exact decide_eq_decide.mpr (byteOf_error tfd)
  refine ⟨fun v t hok => ?_, fun e t herr => ?_⟩
  · rw [hrun] at hok
    have hpost := ahciWriteFis_posted (by decide) hok
    rw [herror] at hpost
    obtain ⟨is, hport⟩ := hpost.port
    rw [setPort_same] at hport
    refine ⟨.trans (touch_setPort s (.answered _ slot _ tfd) rfl rfl rfl) hpost.touch, hpost.used, ?_⟩
    refine ⟨{ s.scratch p with tfd := tfd }, ((s.port p).answered slot (bytesAt s.mem cfis) tfd).errCfis, is,
      hidle, ?_⟩
    rw [hport, ← hfailed]
    rfl
  · rw [hrun] at herr
    have hstop := ahciWriteFis_stop herr
    rwa [setPort_same] at hstop

theorem okTfd_ok : (okTfd &&& ataSError ≠ 0 : Bool) = false ∧ okTfd &&& (ataSBusy ||| ataSDrq) = 0 := by decide

theorem abortTfd_failed : (abortTfd &&& ataSError ≠ 0 : Bool) = true ∧ abortTfd &&& (ataSBusy ||| ataSDrq) = 0 := by
  decide

theorem answers_okTfd : Answers h p slot false (ahciWriteFisD2h h p slot cfis okTfd) s :=
  answers_d2h okTfd okTfd_ok.1 okTfd_ok.2

theorem answers_abortTfd : Answers h p slot true (ahciWriteFisD2h h p slot cfis abortTfd) s :=
  answers_d2h abortTfd abortTfd_failed.1 abortTfd_failed.2

end Answers

end Xhyve.Emul.Ahci
