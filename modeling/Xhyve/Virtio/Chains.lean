import Xhyve.Virtio.Vqueue
import Mathlib.Tactic.Common

/-!
# Descriptor chains

A chain is what one gets by following the `NEXT` flags from its head, with every indirect table in the
place of the descriptor that names it. It may be cyclic, and it may run into something invalid;
`vq_getchain` finds out which with a bounded number of looks.
-/

namespace Xhyve.Virtio

/-- Where a chain is being followed: at an index of the queue's table, at one of an indirect table, with where
it goes on after that, or at its end. -/
inductive Pos
  | direct (next : Nat)
  | indirect (table size next : Nat) (resume : Pos)
  | done

/-- Where the chain goes on after a direct descriptor. -/
def VirtioDesc.after (vd : VirtioDesc) : Pos :=
  if vd.vdFlags &&& vringDescFNext = 0 then .done else .direct vd.vdNext.toNat

/-- Where it goes on after one of an indirect table. -/
def VirtioDesc.within (vd : VirtioDesc) (table size : Nat) (resume : Pos) : Pos :=
  if vd.vdFlags &&& vringDescFNext = 0 then resume else .indirect table size vd.vdNext.toNat resume

def VirtioDesc.isIndirect (vd : VirtioDesc) : Bool := vd.vdFlags &&& vringDescFIndirect ≠ 0

section Semantics
variable (g : GuestMem) (a : ChainArgs) (vq : VqueueInfo)

/-- The direct descriptor with an index. -/
def VqueueInfo.desc (next : Nat) : VirtioDesc := g.descAt (descSlot vq.vqDesc next)

/-- The chain is invalid here. -/
inductive Bad : Pos → Prop
  | index {next : Nat} (hout : vq.vqQsize.toNat ≤ next) : Bad (.direct next)
  | forbidden {next : Nat} (hin : next < vq.vqQsize.toNat) (hind : (vq.desc g next).isIndirect = true)
    (hcap : a.indirectDesc = false) : Bad (.direct next)
  | length {next : Nat} (hin : next < vq.vqQsize.toNat) (hind : (vq.desc g next).isIndirect = true)
    (hlen : (vq.desc g next).vdLen.toNat = 0 ∨ (vq.desc g next).vdLen.toNat % 16 ≠ 0) : Bad (.direct next)
  | indirectIndex {table size next : Nat} {resume : Pos} (hout : size ≤ next) : Bad (.indirect table size next resume)
  | nested {table size next : Nat} {resume : Pos} (hin : next < size)
    (hind : (g.descAt (descSlot table next)).isIndirect = true) : Bad (.indirect table size next resume)

/-- From one place the chain leads to another, by way of the real descriptors in the list. -/
inductive Walk : Pos → List VirtioDesc → Pos → Prop
  | here (p : Pos) : Walk p [] p
  | direct {next : Nat} {l : List VirtioDesc} {q : Pos} (hin : next < vq.vqQsize.toNat)
    (hplain : (vq.desc g next).isIndirect = false) (hrest : Walk (vq.desc g next).after l q) :
    Walk (.direct next) (vq.desc g next :: l) q
  | enter {next table : Nat} {l : List VirtioDesc} {q : Pos} (hin : next < vq.vqQsize.toNat)
    (hind : (vq.desc g next).isIndirect = true) (hcap : a.indirectDesc = true)
    (hlen : (vq.desc g next).vdLen.toNat ≠ 0 ∧ (vq.desc g next).vdLen.toNat % 16 = 0)
    (hmap : g.paddrGuest2host (vq.desc g next).vdAddr (vq.desc g next).vdLen = some table)
    (hrest : Walk (.indirect table ((vq.desc g next).vdLen.toNat / 16) 0 (vq.desc g next).after) l q) :
    Walk (.direct next) l q
  | indirect {table size next : Nat} {resume : Pos} {l : List VirtioDesc} {q : Pos} (hin : next < size)
    (hplain : (g.descAt (descSlot table next)).isIndirect = false)
    (hrest : Walk ((g.descAt (descSlot table next)).within table size resume) l q) :
    Walk (.indirect table size next resume) (g.descAt (descSlot table next) :: l) q

/-- The chain from a place is invalid: it runs into something invalid, or has too many real descriptors. -/
def Invalid (p : Pos) : Prop := ∃ l q, Walk g a vq p l q ∧ (Bad g a vq q ∨ vqMaxDescriptors < l.length)

end Semantics

section Walks
variable {g : GuestMem} {a : ChainArgs} {vq : VqueueInfo} {p q r : Pos} {l m : List VirtioDesc}

theorem Walk.trans (h₁ : Walk g a vq p l q) (h₂ : Walk g a vq q m r) : Walk g a vq p (l ++ m) r := by
  induction h₁ with
  | here => exact h₂
  | direct hin hplain _ ih => exact .direct hin hplain (ih h₂)
  | enter hin hind hcap hlen hmap _ ih => exact .enter hin hind hcap hlen hmap (ih h₂)
  | indirect hin hplain _ ih => exact .indirect hin hplain (ih h₂)

/-- Only one way leads to the end of a chain. -/
theorem Walk.toward_done (h₁ : Walk g a vq p l q) (h₂ : Walk g a vq p m .done) :
    ∃ rest, m = l ++ rest ∧ Walk g a vq q rest .done := by
  induction h₁ generalizing m with
  | here => exact ⟨m, rfl, h₂⟩
  | direct hin hplain _ ih =>
    cases h₂ with
    | direct _ _ hrest =>
      obtain ⟨rest, rfl, hwalk⟩ := ih hrest
      exact ⟨rest, rfl, hwalk⟩
    | enter _ hind _ _ _ _ => exact absurd (hplain.symm.trans hind) nofun
  | enter hin hind hcap hlen hmap _ ih =>
    cases h₂ with
    | direct _ hplain _ => exact absurd (hplain.symm.trans hind) nofun
    | enter _ _ _ _ hmap' hrest =>
      obtain rfl := Option.some.inj (hmap.symm.trans hmap')
      exact ih hrest
  | indirect hin hplain _ ih =>
    cases h₂ with
    | indirect _ _ hrest =>
      obtain ⟨rest, rfl, hwalk⟩ := ih hrest
      exact ⟨rest, rfl, hwalk⟩

/-- Nothing leads on from where a chain is invalid. -/
theorem Bad.stuck (hbad : Bad g a vq p) : ¬ Walk g a vq p l .done := by
  intro hwalk
  cases hbad with
  | index hout =>
    cases hwalk with
    | direct hin _ _ => omega
    | enter hin _ _ _ _ _ => omega
  | forbidden _ hind hcap =>
    cases hwalk with
    | direct _ hplain _ => exact absurd (hplain.symm.trans hind) nofun
    | enter _ _ hcap' _ _ _ => exact absurd (hcap.symm.trans hcap') nofun
  | length _ hind hlen =>
    cases hwalk with
    | direct _ hplain _ => exact absurd (hplain.symm.trans hind) nofun
    | enter _ _ _ hlen' _ _ => omega
  | indirectIndex hout =>
    cases hwalk with
    | indirect hin _ _ => omega
  | nested _ hind =>
    cases hwalk with
    | indirect _ hplain _ => exact absurd (hplain.symm.trans hind) nofun

/-- A chain that gets to its end soon enough is not invalid. -/
theorem Walk.not_invalid (h : Walk g a vq p l .done) (hlen : l.length ≤ vqMaxDescriptors) : ¬ Invalid g a vq p := by
  rintro ⟨m, q, hwalk, hbad⟩
  obtain ⟨rest, rfl, hrest⟩ := hwalk.toward_done h
  rcases hbad with hbad | hlong
  · exact hbad.stuck hrest
  · rw [List.length_append] at hlen
    omega

theorem Walk.unique (h₁ : Walk g a vq p l .done) (h₂ : Walk g a vq p m .done) : l = m := by
  obtain ⟨rest, rfl, hrest⟩ := h₁.toward_done h₂
  cases hrest
  exact (List.append_nil l).symm

end Walks

/-! ## What `vq_getchain` follows -/

section Record
variable (g : GuestMem) (a : ChainArgs)

/-- The entry for a descriptor. -/
def iovOf (vd : VirtioDesc) : Iovec := ⟨g.paddrGuest2host vd.vdAddr vd.vdLen, vd.vdLen⟩

/-- The arrays after the real descriptors of a list, the first of which has the index `i`. -/
def recordAll : Nat → List VirtioDesc → ChainOut → ChainOut
  | _, [], out => out
  | i, vd :: l, out => recordAll (i + 1) l (vqRecord g a i vd out)

theorem recordAll_append (i : Nat) (l m : List VirtioDesc) (out : ChainOut) :
    recordAll g a i (l ++ m) out = recordAll g a (i + l.length) m (recordAll g a i l out) := by
  induction l generalizing i out with
  | nil => rfl
  | cons vd l ih =>
    show recordAll g a (i + 1) (l ++ m) _ = _
    rw [ih, List.length_cons, Nat.add_assoc, Nat.add_comm 1]
    rfl

/-- The arrays hold as many entries of the list as have room. -/
theorem recordAll_eq (i : Nat) (l : List VirtioDesc) (out : ChainOut) :
    recordAll g a i l out =
      ⟨out.iov ++ (l.take (a.nIov - i)).map (iovOf g),
        out.flags ++ if a.wantFlags then (l.take (a.nIov - i)).map (·.vdFlags) else []⟩ := by
  induction l generalizing i out with
  | nil => simp [recordAll]
  | cons vd l ih =>
    show recordAll g a (i + 1) l (vqRecord g a i vd out) = _
    rw [ih]
    unfold vqRecord
    split
    · rename_i hfull
      have hroom : a.nIov - i = 0 ∧ a.nIov - (i + 1) = 0 := by omega
      rw [hroom.1, hroom.2]
      rfl
    · rename_i hfull
      obtain ⟨room, hroom⟩ : ∃ room, a.nIov - i = room + 1 := ⟨a.nIov - i - 1, by omega⟩
      have hrest : a.nIov - (i + 1) = room := by omega
      rw [hroom, hrest, List.take_succ_cons]
      cases a.wantFlags with
      | true => simp [iovOf]
      | false => simp [iovOf]

end Record

section Loops
variable (g : GuestMem) (a : ChainArgs) (vq : VqueueInfo)

/-- What a loop comes back with that has counted `i` descriptors before a place of the chain and is to follow it to
another one. -/
def Outcome (i : Nat) (p q : Pos) (out : ChainOut) : ChainOut × Except Stop Nat → Prop
  | (out', .ok n) => ∃ l, Walk g a vq p l q ∧ n = i + l.length ∧ i < n ∧ n ≤ vqMaxDescriptors ∧
    out' = recordAll g a i l out
  | (out', .error (.error _)) => (∃ l r, Walk g a vq p l r ∧ (Bad g a vq r ∨ vqMaxDescriptors < i + l.length)) ∧
    ∃ l, out' = recordAll g a i l out
  | (_, .error .fault) => False

end Loops

section Outcomes
variable {g : GuestMem} {a : ChainArgs} {vq : VqueueInfo} {p p' q : Pos} {i : Nat} {l : List VirtioDesc}
  {out : ChainOut} {res : ChainOut × Except Stop Nat}

theorem outcome_bad {d : Diag} (hbad : Bad g a vq p) : Outcome g a vq i p q out (out, .error (.error d)) :=
  ⟨⟨[], p, .here p, .inl hbad⟩, [], rfl⟩

theorem outcome_long {d : Diag} (hw : Walk g a vq p l p') (hlong : vqMaxDescriptors < i + l.length) :
    Outcome g a vq i p q out (recordAll g a i l out, .error (.error d)) :=
  ⟨⟨l, p', hw, .inr hlong⟩, l, rfl⟩

theorem outcome_end (hw : Walk g a vq p l q) (hpos : 0 < l.length) (hle : i + l.length ≤ vqMaxDescriptors) :
    Outcome g a vq i p q out (recordAll g a i l out, .ok (i + l.length)) :=
  ⟨l, hw, rfl, by omega, hle, rfl⟩

/-- The loop goes on from where it has got to. -/
theorem Outcome.after (hw : Walk g a vq p l p')
    (ho : Outcome g a vq (i + l.length) p' q (recordAll g a i l out) res) : Outcome g a vq i p q out res := by
  obtain ⟨out', ret⟩ := res
  cases ret with
  | ok n =>
    obtain ⟨m, hm, hn, hlt, hle, hout⟩ := ho
    refine ⟨l ++ m, hw.trans hm, ?_, by omega, hle, ?_⟩
    · rw [List.length_append]
      omega
    · rw [recordAll_append]
      exact hout
  | error e =>
    cases e with
    | fault => exact ho
    | error d =>
      obtain ⟨⟨m, r, hm, hwrong⟩, m', hout⟩ := ho
      refine ⟨⟨l ++ m, r, hw.trans hm, ?_⟩, l ++ m', ?_⟩
      · rw [List.length_append, ← Nat.add_assoc]
        exact hwrong
      · rw [recordAll_append]
        exact hout

theorem indirectChain_outcome {table size next fuel : Nat} (hin : next < size) (hi : i ≤ vqMaxDescriptors)
    (hfuel : vqMaxDescriptors + 1 ≤ fuel + i) :
    Outcome g a vq i (.indirect table size next q) q out (indirectChain g a table size fuel i next out) := by
  induction fuel generalizing i next out with
  | zero => omega
  | succ fuel ih =>
    unfold indirectChain
    dsimp only
    split
    · rename_i hind
      exact outcome_bad (.nested hin (decide_eq_true hind))
    · rename_i hind
      have hplain : (g.descAt (descSlot table next)).isIndirect = false := decide_eq_false hind
      have hwalk : Walk g a vq (.indirect table size next q) [g.descAt (descSlot table next)]
          ((g.descAt (descSlot table next)).within table size q) := .indirect hin hplain (.here _)
      split
      · rename_i hmax
        exact outcome_long hwalk hmax
      · rename_i hmax
        split
        · rename_i hlast
          have hnext : (g.descAt (descSlot table next)).within table size q = q := if_pos hlast
          rw [hnext] at hwalk
          exact outcome_end hwalk Nat.one_pos (by simpa using hmax)
        · rename_i hlast
          have hnext : (g.descAt (descSlot table next)).within table size q =
            .indirect table size (g.descAt (descSlot table next)).vdNext.toNat q := if_neg hlast
          rw [hnext] at hwalk
          refine Outcome.after hwalk ?_
          split
          · rename_i hout
            exact outcome_bad (.indirectIndex hout)
          · rename_i hout
            exact ih (by omega) (by simpa using hmax) (by simp only [List.length_singleton]; omega)

variable (hmap : ∀ addr len, (g.paddrGuest2host addr len).isSome)

include hmap in
theorem directDesc_outcome {next : Nat} (hin : next < vq.vqQsize.toNat) (hi : i < vqMaxDescriptors) :
    Outcome g a vq i (.direct next) (vq.desc g next).after out (directDesc g a (vq.desc g next) i out) := by
  unfold directDesc
  split
  · rename_i hflag
    have hplain : (vq.desc g next).isIndirect = false := decide_eq_false (not_not.mpr hflag)
    exact outcome_end (.direct hin hplain (.here _)) Nat.one_pos hi
  · rename_i hflag
    have hind : (vq.desc g next).isIndirect = true := decide_eq_true hflag
    split
    · rename_i hcap
      exact outcome_bad (.forbidden hin hind hcap)
    · rename_i hcap
      dsimp only
      have hlow : (vq.desc g next).vdLen &&& 0xf = 0 ↔ (vq.desc g next).vdLen.toNat % 16 = 0 := by
        rw [← UInt32.toNat_inj, UInt32.toNat_and]
        show _ &&& 2 ^ 4 - 1 = 0 ↔ _
        rw [Nat.and_two_pow_sub_one_eq_mod]
      split
      · rename_i hlen
        refine outcome_bad (.length hin hind ?_)
        rw [ne_eq, hlow] at hlen
        omega
      · rename_i hlen
        rw [ne_eq, hlow] at hlen
        obtain ⟨table, htable⟩ := Option.isSome_iff_exists.mp (hmap (vq.desc g next).vdAddr (vq.desc g next).vdLen)
        rw [htable]
        refine Outcome.after (l := []) (.enter hin hind (by simpa using hcap) (by omega) htable (.here _)) ?_
        exact indirectChain_outcome (by omega) (by simp only [List.length_nil]; omega)
          (by simp only [List.length_nil]; omega)

include hmap in
/-- A chain that is not at its end has one more descriptor, or is invalid. -/
theorem direct_more (next : Nat) : ∃ l r, Walk g a vq (.direct next) l r ∧ (Bad g a vq r ∨ 0 < l.length) := by
  by_cases hin : next < vq.vqQsize.toNat
  · have hone : Outcome g a vq 0 (.direct next) (vq.desc g next).after ⟨[], []⟩
        (directDesc g a (vq.desc g next) 0 ⟨[], []⟩) := directDesc_outcome hmap hin (by decide)
    generalize directDesc g a (vq.desc g next) 0 ⟨[], []⟩ = res at hone
    obtain ⟨out', ret⟩ := res
    cases ret with
    | ok n =>
      obtain ⟨l, hw, hn, hlt, -⟩ := hone
      exact ⟨l, _, hw, .inr (by omega)⟩
    | error e =>
      cases e with
      | fault => exact absurd hone id
      | error d =>
        obtain ⟨⟨l, r, hw, hwrong⟩, -⟩ := hone
        refine ⟨l, r, hw, hwrong.imp_right fun hlong => ?_⟩
        omega
  · exact ⟨[], _, .here _, .inl (.index (Nat.le_of_not_lt hin))⟩

include hmap in
theorem directChain_outcome {next fuel : Nat} (hi : i ≤ vqMaxDescriptors) (hfuel : vqMaxDescriptors ≤ fuel + i) :
    Outcome g a vq i (.direct next) .done out (directChain g a vq fuel i next out) := by
  have hfull : ∀ {d out next i}, vqMaxDescriptors ≤ i →
      Outcome g a vq i (.direct next) .done out (out, .error (.error d)) := by
    intro d out next i hle
    obtain ⟨l, r, hw, hwrong⟩ : ∃ l r, Walk g a vq (.direct next) l r ∧ (Bad g a vq r ∨ 0 < l.length) :=
      direct_more hmap next
    exact ⟨⟨l, r, hw, hwrong.imp_right fun hpos => by omega⟩, [], rfl⟩
  induction fuel generalizing i next out with
  | zero => exact hfull (by omega)
  | succ fuel ih =>
    unfold directChain
    split
    · rename_i hlt
      split
      · rename_i hout
        exact outcome_bad (.index hout)
      · rename_i hout
        have hone : Outcome g a vq i (.direct next) (vq.desc g next).after out (directDesc g a (vq.desc g next) i out) :=
          directDesc_outcome hmap (Nat.lt_of_not_le hout) hlt
        have hdesc : g.descAt (descSlot vq.vqDesc next) = vq.desc g next := rfl
        dsimp only
        rw [hdesc]
        generalize directDesc g a (vq.desc g next) i out = res at hone
        obtain ⟨out', ret⟩ := res
        cases ret with
        | error e =>
          cases e with
          | fault => exact hone
          | error d => exact hone
        | ok n =>
          obtain ⟨l, hw, rfl, hgt, hle, rfl⟩ := hone
          dsimp only
          split
          · rename_i hlast
            have hafter : (vq.desc g next).after = .done := if_pos hlast
            exact outcome_end (hafter ▸ hw) (by omega) hle
          · rename_i hlast
            have hafter : (vq.desc g next).after = .direct (vq.desc g next).vdNext.toNat := if_neg hlast
            exact Outcome.after (hafter ▸ hw) (ih hle (by omega))
    · rename_i hlt
      exact hfull (by omega)

/-- The bound on the turns of the loop over an indirect table is never met. -/
theorem indirectChain_turns {table size next fuel : Nat} (hi : i ≤ vqMaxDescriptors)
    (hfuel : vqMaxDescriptors + 1 ≤ fuel + i) (k : Nat) :
    indirectChain g a table size (fuel + k) i next out = indirectChain g a table size fuel i next out := by
  induction fuel generalizing i next out with
  | zero => omega
  | succ fuel ih =>
    rw [Nat.add_right_comm]
    unfold indirectChain
    dsimp only
    split
    · rfl
    · split
      · rfl
      · split
        · rfl
        · split
          · rfl
          · exact ih (by omega) (by omega)

include hmap in
theorem directChain_turns {next fuel : Nat} (hi : i ≤ vqMaxDescriptors) (hfuel : vqMaxDescriptors ≤ fuel + i) (k : Nat) :
    directChain g a vq (fuel + k) i next out = directChain g a vq fuel i next out := by
  induction fuel generalizing i next out with
  | zero =>
    cases k with
    | zero => rfl
    | succ k =>
      rw [Nat.zero_add]
      unfold directChain
      rw [if_neg (by omega)]
  | succ fuel ih =>
    rw [Nat.add_right_comm]
    unfold directChain
    split
    · rename_i hlt
      split
      · rfl
      · rename_i hout
        have hone : Outcome g a vq i (.direct next) (vq.desc g next).after out (directDesc g a (vq.desc g next) i out) :=
          directDesc_outcome hmap (Nat.lt_of_not_le hout) hlt
        unfold VqueueInfo.desc at hone
        dsimp only
        generalize directDesc g a (g.descAt (descSlot vq.vqDesc next)) i out = res at hone
        obtain ⟨out', ret⟩ := res
        cases ret with
        | error e => rfl
        | ok n =>
          obtain ⟨l, -, -, hgt, hle, -⟩ := hone
          dsimp only
          split
          · rfl
          · exact ih hle (by omega)
    · rfl

end Outcomes

/-! ## Every chain is taken as it is -/

/-- The number of heads the driver claims to have added. -/
def VqueueInfo.newHeads (vq : VqueueInfo) : Nat := (vq.vqAvail.vaIdx - vq.vqLastAvail).toNat

/-- The head of the next chain. -/
def VqueueInfo.head (vq : VqueueInfo) : Pos :=
  .direct (vq.vqAvail.vaRing (vq.vqLastAvail &&& (vq.vqQsize - 1)).toNat).toNat

/-- The entries are those of a chain, as far as there is room. -/
structure Holds (g : GuestMem) (a : ChainArgs) (out : ChainOut) (l : List VirtioDesc) : Prop where
  iov : out.iov = (l.take a.nIov).map (iovOf g)
  flags : out.flags = if a.wantFlags then (l.take a.nIov).map (·.vdFlags) else []

structure GetchainExact (g : GuestMem) (a : ChainArgs) (vq : VqueueInfo) : Prop where
  none_iff : (vqGetchain g a vq).ret = .ok 0 ↔ vq.newHeads = 0
  refused_iff : (∃ d, (vqGetchain g a vq).ret = .error d) ↔
    vq.vqQsize.toNat < vq.newHeads ∨ vq.newHeads ≠ 0 ∧ Invalid g a vq vq.head
  chain : vq.newHeads ≠ 0 → vq.newHeads ≤ vq.vqQsize.toNat → ¬ Invalid g a vq vq.head →
    ∃ l, Walk g a vq vq.head l .done ∧ (∀ m, Walk g a vq vq.head m .done → m = l) ∧
      (vqGetchain g a vq).ret = .ok l.length ∧ 1 ≤ l.length ∧ l.length ≤ vqMaxDescriptors ∧
      Holds g a (vqGetchain g a vq).out l
  room : (vqGetchain g a vq).out.iov.length ≤ a.nIov ∧ (vqGetchain g a vq).out.flags.length ≤ a.nIov
  /- Neither loop is cut short: the first bound is that of the loop over the queue's table, the second that of
  the loop over an indirect one. -/
  turns : (∀ k next out, directChain g a vq (vqMaxDescriptors + k) 0 next out =
      directChain g a vq vqMaxDescriptors 0 next out) ∧
    ∀ k table size i next out, i ≤ vqMaxDescriptors →
      indirectChain g a table size (vqMaxDescriptors + 1 - i + k) i next out =
        indirectChain g a table size (vqMaxDescriptors + 1 - i) i next out

section Exact
variable {g : GuestMem} {a : ChainArgs} {vq : VqueueInfo}

theorem holds_recordAll (l : List VirtioDesc) : Holds g a (recordAll g a 0 l ⟨[], []⟩) l := by
  rw [recordAll_eq]
  exact ⟨by simp, by simp⟩

theorem Holds.room {out : ChainOut} {l : List VirtioDesc} (h : Holds g a out l) :
    out.iov.length ≤ a.nIov ∧ out.flags.length ≤ a.nIov := by
  have htake : (l.take a.nIov).length ≤ a.nIov := List.length_take_le _ _
  rw [h.iov, h.flags, List.length_map]
  refine ⟨htake, ?_⟩
  split
  · rw [List.length_map]
    exact htake
  · exact Nat.zero_le _

/-- What is returned where the ring is neither empty nor overrun. -/
theorem getchain_taken (hne : vq.newHeads ≠ 0) (hle : vq.newHeads ≤ vq.vqQsize.toNat) :
    ((vqGetchain g a vq).out, (vqGetchain g a vq).ret) =
      directChain g a vq vqMaxDescriptors 0
        (vq.vqAvail.vaRing (vq.vqLastAvail &&& (vq.vqQsize - 1)).toNat).toNat ⟨[], []⟩ := by
  have hnew : vq.vqAvail.vaIdx - vq.vqLastAvail ≠ 0 := by
    intro hzero
    unfold VqueueInfo.newHeads at hne
    rw [hzero] at hne
    exact hne rfl
  have hfew : ¬ vq.vqAvail.vaIdx - vq.vqLastAvail > vq.vqQsize := fun hmany => absurd (UInt16.lt_iff_toNat_lt.mp hmany)
    (Nat.not_lt.mpr hle)
  unfold vqGetchain
  dsimp only
  rw [if_neg hnew, if_neg hfew]

theorem getchain_none (hzero : vq.newHeads = 0) :
    (vqGetchain g a vq).ret = .ok 0 ∧ (vqGetchain g a vq).out = ⟨[], []⟩ := by
  have hnew : vq.vqAvail.vaIdx - vq.vqLastAvail = 0 := UInt16.toNat_inj.mp hzero
  unfold vqGetchain
  dsimp only
  rw [if_pos hnew]
  exact ⟨rfl, rfl⟩

theorem getchain_many (hmany : vq.vqQsize.toNat < vq.newHeads) :
    (∃ d, (vqGetchain g a vq).ret = .error d) ∧ (vqGetchain g a vq).out = ⟨[], []⟩ := by
  have hnew : vq.vqAvail.vaIdx - vq.vqLastAvail ≠ 0 := by
    intro hzero
    unfold VqueueInfo.newHeads at hmany
    rw [hzero] at hmany
    exact absurd hmany (Nat.not_lt_zero _)
  have hover : vq.vqAvail.vaIdx - vq.vqLastAvail > vq.vqQsize := UInt16.lt_iff_toNat_lt.mpr hmany
  unfold vqGetchain
  dsimp only
  rw [if_neg hnew, if_pos hover]
  exact ⟨⟨_, rfl⟩, rfl⟩

end Exact

/-- With every indirect table mapped, `vq_getchain` finds a chain exactly if there is a valid one, and takes it
as it is. -/
theorem getchain_exact {g : GuestMem} (hmap : ∀ addr len, (g.paddrGuest2host addr len).isSome) (a : ChainArgs)
    (vq : VqueueInfo) : GetchainExact g a vq := by
  have hturns : ∀ k next out, directChain g a vq (vqMaxDescriptors + k) 0 next out =
      directChain g a vq vqMaxDescriptors 0 next out :=
    fun k next out => directChain_turns hmap (Nat.zero_le _) (Nat.le_refl vqMaxDescriptors) k
  have hinner : ∀ k table size i next out, i ≤ vqMaxDescriptors →
      indirectChain g a table size (vqMaxDescriptors + 1 - i + k) i next out =
        indirectChain g a table size (vqMaxDescriptors + 1 - i) i next out :=
    fun k table size i next out hi => indirectChain_turns hi (by omega) k
  by_cases hzero : vq.newHeads = 0
  · obtain ⟨hret, hout⟩ := getchain_none (g := g) (a := a) hzero
    refine ⟨by simp [hret, hzero], ?_, fun hne => absurd hzero hne, by simp [hout], hturns, hinner⟩
    simp [hret, hzero]
  by_cases hmany : vq.vqQsize.toNat < vq.newHeads
  · obtain ⟨⟨d, hret⟩, hout⟩ := getchain_many (g := g) (a := a) hmany
    refine ⟨by simp [hret, hzero], ?_, fun _ hle => absurd hmany (Nat.not_lt.mpr hle), by simp [hout], hturns, hinner⟩
    simp [hret, hmany]
  have htaken := getchain_taken (g := g) (a := a) hzero (Nat.le_of_not_lt hmany)
  have hoc : Outcome g a vq 0 (.direct (vq.vqAvail.vaRing (vq.vqLastAvail &&& (vq.vqQsize - 1)).toNat).toNat) .done
      ⟨[], []⟩ (directChain g a vq vqMaxDescriptors 0
        (vq.vqAvail.vaRing (vq.vqLastAvail &&& (vq.vqQsize - 1)).toNat).toNat ⟨[], []⟩) :=
    directChain_outcome hmap (Nat.zero_le _) (Nat.le_refl _)
  rw [← htaken] at hoc
  rcases hret : (vqGetchain g a vq).ret with e | n
  · rw [hret] at hoc
    obtain d | _ := e
    · obtain ⟨⟨l, r, hw, hwrong⟩, m, hout⟩ := hoc
      have hinv : Invalid g a vq vq.head := ⟨l, r, hw, hwrong.imp_right fun hlong => by omega⟩
      refine ⟨by simp [hret, hzero], ?_, fun _ _ hvalid => absurd hinv hvalid, ?_, hturns, hinner⟩
      · simp [hret, hzero, hinv]
      · rw [hout]
        exact (holds_recordAll m).room
    · exact absurd hoc id
  · rw [hret] at hoc
    obtain ⟨l, hw, rfl, hpos, hle, hout⟩ := hoc
    rw [Nat.zero_add] at hret hpos hle
    have hvalid : ¬ Invalid g a vq vq.head := Walk.not_invalid hw hle
    have hholds : Holds g a (vqGetchain g a vq).out l := hout ▸ holds_recordAll l
    refine ⟨?_, ?_, fun _ _ _ => ⟨l, hw, fun m hm => hm.unique hw, hret, hpos, hle, hholds⟩, hholds.room, hturns, hinner⟩
    · rw [hret]
      simp only [Except.ok.injEq, hzero, iff_false]
      omega
    · simp [hret, hmany, hvalid]

/-- A queue of four with one chain: a descriptor, and one that names a table of two. -/
def tabledQueue : VqueueInfo where
  vqQsize := 4
  vqFlags := vqAlloc
  vqLastAvail := 0xffff
  vqDesc := 0x1000
  vqAvail := ⟨0, fun _ => 2⟩
  vqUsed := ⟨0, fun _ => ⟨0, 0⟩⟩

/-- Memory where the host address is the guest's. -/
def tabledMem : GuestMem where
  paddrGuest2host addr _ := some addr.toNat
  descAt p :=
    if p = 0x1020 then ⟨0x5000, 100, vringDescFNext, 1⟩
    else if p = 0x1010 then ⟨0x2000, 32, vringDescFIndirect, 0⟩
    else if p = 0x2000 then ⟨0x6000, 10, vringDescFNext, 1⟩
    else ⟨0x7000, 20, 2, 0⟩

def twoEntries : ChainArgs := ⟨"vtnet", true, 2, true⟩

/-- Its three real descriptors are counted, and the first two recorded. -/
theorem getchain_exact_tabled : ∃ l, Walk tabledMem twoEntries tabledQueue tabledQueue.head l .done ∧ l.length = 3 ∧
    (vqGetchain tabledMem twoEntries tabledQueue).ret.toOption = some 3 ∧
    Holds tabledMem twoEntries (vqGetchain tabledMem twoEntries tabledQueue).out l := by
  have hexact : GetchainExact tabledMem twoEntries tabledQueue := getchain_exact (fun _ _ => rfl) _ _
  have hret : (vqGetchain tabledMem twoEntries tabledQueue).ret.toOption = some 3 := by decide
  have hvalid : ¬ Invalid tabledMem twoEntries tabledQueue tabledQueue.head := by
    intro hinv
    obtain ⟨d, hd⟩ := hexact.refused_iff.mpr (.inr ⟨by decide, hinv⟩)
    rw [hd] at hret
    cases hret
  obtain ⟨l, hw, -, hl, -, -, hholds⟩ := hexact.chain (by decide) (by decide) hvalid
  refine ⟨l, hw, ?_, hret, hholds⟩
  rw [hl] at hret
  exact Option.some.inj hret

end Xhyve.Virtio
