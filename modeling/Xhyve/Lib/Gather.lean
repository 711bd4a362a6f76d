import Mathlib

/-!
# Gathering part of a scattered buffer

A buffer is a list of segments of an address space. A transfer gathers its next part: it skips what is done, cuts the
first and the last segment, and stops when the part is complete or no more segments fit in a request. A request is then
trimmed from behind to a multiple of the block size.
-/

namespace Xhyve.Lib.Gather

/-- A segment of addresses of `w` bits, which may wrap. -/
structure Seg (w : Nat) where
  base : BitVec w
  size : Nat
deriving DecidableEq, Repr

variable {w : Nat}

/-- The addresses of a segment. -/
def Seg.bytes (s : Seg w) : List (BitVec w) := (List.range s.size).map fun i => s.base + BitVec.ofNat w i

/-- The addresses of a buffer, in order. -/
def bytes (segs : List (Seg w)) : List (BitVec w) := segs.flatMap Seg.bytes

def total (segs : List (Seg w)) : Nat := (segs.map Seg.size).sum

/-- The next `left` bytes behind `skip`, in at most `room` segments, and the segments that were not looked at. -/
def gather : Nat → Nat → Nat → List (Seg w) → List (Seg w) × List (Seg w)
  | _, _, _, [] => ([], [])
  | room, skip, left, seg :: segs =>
    if 0 < room ∧ 0 < left then
      if seg.size ≤ skip then gather room (skip - seg.size) left segs
      else
        let size := min (seg.size - skip) left
        let out := gather (room - 1) 0 (left - size) segs
        (⟨seg.base + BitVec.ofNat w skip, size⟩ :: out.1, out.2)
    else ([], seg :: segs)

/-- The segments, last first, without the last `extra` bytes. -/
def trim : List (Seg w) → Nat → List (Seg w)
  | [], _ => []
  | seg :: segs, extra =>
    if extra = 0 then seg :: segs
    else if extra < seg.size then { seg with size := seg.size - extra } :: segs
    else trim segs (extra - seg.size)

section Bytes
variable {s seg : Seg w} {segs cs : List (Seg w)} {n k : Nat}

@[simp] theorem Seg.bytes_length (s : Seg w) : s.bytes.length = s.size := by
  simp [Seg.bytes]

@[simp] theorem bytes_nil : bytes ([] : List (Seg w)) = [] := rfl

@[simp] theorem bytes_cons : bytes (seg :: segs) = seg.bytes ++ bytes segs := rfl

@[simp] theorem bytes_append : bytes (segs ++ cs) = bytes segs ++ bytes cs := List.flatMap_append

@[simp] theorem total_nil : total ([] : List (Seg w)) = 0 := rfl

@[simp] theorem total_cons : total (seg :: segs) = seg.size + total segs := rfl

@[simp] theorem bytes_length (segs : List (Seg w)) : (bytes segs).length = total segs := by
  induction segs with
  | nil => rfl
  | cons seg segs ih => rw [bytes_cons, List.length_append, Seg.bytes_length, ih, total_cons]

theorem total_append : total (segs ++ cs) = total segs + total cs := by
  rw [← bytes_length, bytes_append, List.length_append, bytes_length, bytes_length]

/-- A part of a segment. -/
theorem Seg.bytes_part (h : k + n ≤ s.size) : Seg.bytes ⟨s.base + BitVec.ofNat w k, n⟩ = (s.bytes.drop k).take n := by
  apply List.ext_getElem
  · have hn : n ≤ s.size - k := by omega
    rw [Seg.bytes_length, List.length_take, List.length_drop, Seg.bytes_length, Nat.min_eq_left hn]
  · intro i h₁ h₂
    simp only [Seg.bytes, List.getElem_map, List.getElem_range, List.getElem_take, List.getElem_drop]
    rw [BitVec.add_assoc, BitVec.ofNat_add]

theorem total_take_mono {i j : Nat} (h : i ≤ j) : total (segs.take i) ≤ total (segs.take j) := by
  have hsplit : segs.take j = segs.take i ++ (segs.drop i).take (j - i) := by
    rw [← List.take_add, Nat.add_sub_cancel' h]
  rw [hsplit, total_append]
  omega

theorem total_take_le (i : Nat) : total (segs.take i) ≤ total segs := by
  have hsplit := @total_append w (segs.take i) (segs.drop i)
  rw [List.take_append_drop] at hsplit
  omega

theorem total_drop (i : Nat) : total (segs.drop i) = total segs - total (segs.take i) := by
  have hsplit := @total_append w (segs.take i) (segs.drop i)
  rw [List.take_append_drop] at hsplit
  omega

end Bytes

/-! ## What is gathered -/

section Gathered
variable {room skip left : Nat} {segs : List (Seg w)}

@[simp] theorem gather_nil : gather room skip left ([] : List (Seg w)) = ([], []) := rfl

theorem gather_cons {seg : Seg w} : gather room skip left (seg :: segs) =
    if 0 < room ∧ 0 < left then
      if seg.size ≤ skip then gather room (skip - seg.size) left segs
      else
        let size := min (seg.size - skip) left
        let out := gather (room - 1) 0 (left - size) segs
        (⟨seg.base + BitVec.ofNat w skip, size⟩ :: out.1, out.2)
    else ([], seg :: segs) := rfl

theorem gather_done (h : ¬ (0 < room ∧ 0 < left)) : gather room skip left segs = ([], segs) := by
  cases segs with
  | nil => rfl
  | cons seg segs => rw [gather_cons, if_neg h]

theorem gather_length_le : (gather room skip left segs).1.length ≤ room := by
  induction segs generalizing room skip left with
  | nil => exact Nat.zero_le _
  | cons seg segs ih =>
    rw [gather_cons]
    split
    · rename_i hroom
      split
      · exact ih
      · have hle := @ih (room - 1) 0 (left - min (seg.size - skip) left)
        simp only [List.length_cons]
        omega
    · exact Nat.zero_le _

/-- What is gathered are the bytes behind those that are skipped, -/
theorem gather_bytes : bytes (gather room skip left segs).1 =
    ((bytes segs).drop skip).take (total (gather room skip left segs).1) := by
  induction segs generalizing room skip left with
  | nil => simp
  | cons seg segs ih =>
    rw [gather_cons]
    split
    · split
      · rename_i hskip
        have hnone : seg.bytes.drop skip = [] := List.drop_eq_nil_of_le (by rwa [Seg.bytes_length])
        rw [ih, bytes_cons, List.drop_append, hnone, List.nil_append, Seg.bytes_length]
      · rename_i hskip
        have hlt : skip < seg.size := by omega
        set size := min (seg.size - skip) left with hsize
        have hpart : Seg.bytes ⟨seg.base + BitVec.ofNat w skip, size⟩ = (seg.bytes.drop skip).take size :=
          Seg.bytes_part (by omega)
        simp only [bytes_cons, total_cons]
        rw [ih, List.drop_zero, hpart, List.drop_append_of_le_length (by simpa using Nat.le_of_lt hlt)]
        by_cases hall : size = seg.size - skip
        · have hlen : (seg.bytes.drop skip).length = size := by rw [List.length_drop, Seg.bytes_length, hall]
          rw [← hlen, List.take_length, List.take_length_add_append]
        · -- the part ends inside the segment, and nothing is gathered behind it
          have hzero : left - size = 0 := by omega
          rw [hzero, gather_done (by omega)]
          simp only [total_nil, List.take_zero, List.append_nil, Nat.add_zero]
          rw [List.take_append_of_le_length (by simp; omega)]
    · simp

/-- no more than is asked for, -/
theorem gather_total_le : total (gather room skip left segs).1 ≤ left := by
  induction segs generalizing room skip left with
  | nil => exact Nat.zero_le _
  | cons seg segs ih =>
    rw [gather_cons]
    split
    · split
      · exact ih
      · have hle := @ih (room - 1) 0 (left - min (seg.size - skip) left)
        simp only [total_cons]
        omega
    · exact Nat.zero_le _

/-- and all of it or all there is, where there is room for more. -/
theorem gather_complete (h : (gather room skip left segs).1.length < room) :
    (gather room skip left segs).2 = [] ∨ total (gather room skip left segs).1 = left := by
  induction segs generalizing room skip left with
  | nil => exact Or.inl rfl
  | cons seg segs ih =>
    rw [gather_cons] at h ⊢
    split at h
    · rename_i hroom
      rw [if_pos hroom]
      split at h
      · rename_i hskip
        rw [if_pos hskip]
        exact ih h
      · rename_i hskip
        rw [if_neg hskip]
        simp only [List.length_cons] at h
        rcases @ih (room - 1) 0 (left - min (seg.size - skip) left) (by omega) with hnil | hleft
        · exact Or.inl hnil
        · simp only [total_cons]
          exact Or.inr (by omega)
    · rename_i hroom
      have hzero : left = 0 := by simp at h; omega
      rw [if_neg hroom]
      exact Or.inr hzero.symm

/-- Where all segments were looked at, all there is was gathered. -/
theorem gather_all (h : (gather room skip left segs).2 = []) :
    total (gather room skip left segs).1 = min left (total segs - skip) := by
  induction segs generalizing room skip left with
  | nil => simp
  | cons seg segs ih =>
    rw [gather_cons] at h ⊢
    split at h
    · rename_i hroom
      rw [if_pos hroom]
      split at h
      · rename_i hskip
        rw [if_pos hskip, ih h, total_cons]
        congr 1
        omega
      · rename_i hskip
        rw [if_neg hskip]
        simp only [total_cons]
        rw [ih h]
        omega
    · cases h

/-- Whole segments that are skipped do not matter. -/
theorem gather_skip {e : Nat} (he : e ≤ segs.length) (hskip : total (segs.take e) ≤ skip) (hroom : 0 < room) (hleft : 0 < left) :
    gather room skip left segs = gather room (skip - total (segs.take e)) left (segs.drop e) := by
  induction e generalizing segs skip with
  | zero => simp
  | succ e ih =>
    cases segs with
    | nil => simp at he
    | cons seg segs =>
      simp only [List.length_cons, List.take_succ_cons, total_cons] at he hskip
      rw [gather_cons, if_pos ⟨hroom, hleft⟩, if_pos (by omega), ih (by omega) (by omega)]
      simp only [List.take_succ_cons, total_cons, List.drop_succ_cons]
      congr 1
      omega

/-- From the beginning of a segment, the bytes of as many segments as there is room for; -/
theorem gather_total_front (hpos : ∀ seg ∈ segs, 0 < seg.size) :
    total (gather room 0 left segs).1 = min left (total (segs.take room)) := by
  induction segs generalizing room left with
  | nil => simp
  | cons seg segs ih =>
    have hseg : 0 < seg.size := hpos seg (List.mem_cons_self ..)
    have hsegs : ∀ s ∈ segs, 0 < s.size := fun s hs => hpos s (List.mem_cons_of_mem _ hs)
    cases room with
    | zero => simp [gather_cons]
    | succ room =>
      rw [gather_cons]
      by_cases hleft : 0 < left
      · rw [if_pos ⟨Nat.succ_pos room, hleft⟩, if_neg (by omega)]
        simp only [total_cons, Nat.add_sub_cancel, ih hsegs, List.take_succ_cons]
        omega
      · rw [if_neg fun h => hleft h.2, total_nil]
        omega

/-- there is room for no more where the last of them begins before the end. -/
theorem gather_full_front (hpos : ∀ seg ∈ segs, 0 < seg.size) :
    (gather (room + 1) 0 left segs).1.length = room + 1 ↔ room + 1 ≤ segs.length ∧ total (segs.take room) < left := by
  induction segs generalizing room left with
  | nil => simp
  | cons seg segs ih =>
    have hseg : 0 < seg.size := hpos seg (List.mem_cons_self ..)
    have hsegs : ∀ s ∈ segs, 0 < s.size := fun s hs => hpos s (List.mem_cons_of_mem _ hs)
    rw [gather_cons]
    by_cases hleft : 0 < left
    · rw [if_pos ⟨Nat.succ_pos room, hleft⟩, if_neg (by omega)]
      simp only [List.length_cons, Nat.add_sub_cancel, Nat.add_right_cancel_iff, Nat.add_le_add_iff_right]
      cases room with
      | zero =>
        have hnone : (gather 0 0 (left - min (seg.size - 0) left) segs).1.length ≤ 0 := gather_length_le
        simp only [List.take_zero, total_nil, Nat.zero_le, hleft, and_self, iff_true]
        omega
      | succ room =>
        rw [ih hsegs, List.take_succ_cons, total_cons]
        have hle := @total_take_mono w segs 0 room (Nat.zero_le room)
        constructor
        · rintro ⟨hlen, hlt⟩
          exact ⟨hlen, by omega⟩
        · rintro ⟨hlen, hlt⟩
          exact ⟨hlen, by omega⟩
    · rw [if_neg fun h => hleft h.2]
      simp only [List.length_nil]
      omega

section Inside
variable {e : Nat} (hpos : ∀ seg ∈ segs, 0 < seg.size) (hbegin : total (segs.take e) ≤ skip)
  (hend : skip < total (segs.take (e + 1))) (hleft : 0 < left)
include hpos hbegin hend hleft

/-- From inside the segment at `e`, one segment is cut and the others are whole. -/
theorem gather_inside : ∃ seg rest, segs.drop e = seg :: rest ∧ total (segs.take e) + seg.size = total (segs.take (e + 1)) ∧
    rest = segs.drop (e + 1) ∧
    gather (room + 1) skip left segs =
      let size := min (total (segs.take (e + 1)) - skip) left
      let out := gather room 0 (left - size) rest
      (⟨seg.base + BitVec.ofNat w (skip - total (segs.take e)), size⟩ :: out.1, out.2) := by
  have he : e < segs.length := by
    by_contra hge
    rw [List.take_of_length_le (by omega)] at hend
    rw [List.take_of_length_le (by omega)] at hbegin
    omega
  have hdrop : segs.drop e = segs[e] :: segs.drop (e + 1) := List.drop_eq_getElem_cons he
  have hsize : total (segs.take e) + segs[e].size = total (segs.take (e + 1)) := by
    rw [List.take_succ_eq_append_getElem he, total_append]
    rfl
  refine ⟨segs[e], segs.drop (e + 1), hdrop, hsize, rfl, ?_⟩
  rw [gather_skip (Nat.le_of_lt he) hbegin (Nat.succ_pos room) hleft, hdrop, gather_cons, if_pos ⟨Nat.succ_pos room, hleft⟩,
    if_neg (by omega)]
  have hcut : segs[e].size - (skip - total (segs.take e)) = total (segs.take (e + 1)) - skip := by omega
  simp only [hcut, Nat.succ_eq_add_one, Nat.add_sub_cancel]

/-- What is gathered from inside the segment at `e`, -/
theorem gather_total : total (gather (room + 1) skip left segs).1 = min left (total (segs.take (e + (room + 1))) - skip) := by
  obtain ⟨seg, rest, -, -, hrest, hout⟩ := @gather_inside w room skip left segs e hpos hbegin hend hleft
  have hpos' : ∀ s ∈ rest, 0 < s.size := by
    intro s hs
    rw [hrest] at hs
    exact hpos s (List.mem_of_mem_drop hs)
  have hsplit : segs.take (e + (room + 1)) = segs.take (e + 1) ++ rest.take room := by
    rw [hrest, ← List.take_add]
    congr 1
    omega
  rw [hout, hsplit, total_append]
  simp only [total_cons]
  rw [gather_total_front hpos']
  omega

/-- and when there is room for no more. -/
theorem gather_full : (gather (room + 1) skip left segs).1.length = room + 1 ↔
    e + (room + 1) ≤ segs.length ∧ total (segs.take (e + room)) < skip + left := by
  obtain ⟨seg, rest, hdrop, -, hrest, hout⟩ := @gather_inside w room skip left segs e hpos hbegin hend hleft
  have hpos' : ∀ s ∈ rest, 0 < s.size := by
    intro s hs
    rw [hrest] at hs
    exact hpos s (List.mem_of_mem_drop hs)
  have hlen : e + 1 + rest.length = segs.length := by
    have hdropLen := congrArg List.length hdrop
    simp only [List.length_drop, List.length_cons] at hdropLen
    omega
  rw [hout]
  simp only [List.length_cons, Nat.add_right_cancel_iff]
  cases room with
  | zero =>
    have hnone : (gather 0 0 (left - min (total (segs.take (e + 1)) - skip) left) rest).1.length ≤ 0 := gather_length_le
    constructor
    · intro _
      exact ⟨by omega, by rw [Nat.add_zero]; omega⟩
    · intro _
      omega
  | succ room =>
    have hsplit : segs.take (e + (room + 1)) = segs.take (e + 1) ++ rest.take room := by
      rw [hrest, ← List.take_add]
      congr 1
      omega
    rw [gather_full_front hpos', hsplit, total_append]
    omega

end Inside

end Gathered

/-! ## Trimming -/

section Trim
variable {extra : Nat}

theorem trim_nil : trim ([] : List (Seg w)) extra = [] := rfl

theorem trim_cons {seg : Seg w} {segs : List (Seg w)} : trim (seg :: segs) extra =
    if extra = 0 then seg :: segs
    else if extra < seg.size then { seg with size := seg.size - extra } :: segs
    else trim segs (extra - seg.size) := rfl

theorem total_reverse (segs : List (Seg w)) : total segs.reverse = total segs := by
  unfold total
  rw [List.map_reverse, List.sum_reverse]

theorem trim_bytes (segs : List (Seg w)) (h : extra ≤ total segs) :
    bytes (trim segs extra).reverse = (bytes segs.reverse).take (total segs - extra) := by
  induction segs generalizing extra with
  | nil => simp [trim_nil]
  | cons seg segs ih =>
    rw [total_cons] at h ⊢
    rw [trim_cons, List.reverse_cons, bytes_append]
    have hlen : (bytes segs.reverse).length = total segs := by rw [bytes_length, total_reverse]
    split
    · rename_i hzero
      rw [hzero, List.take_of_length_le, List.reverse_cons, bytes_append]
      simp only [List.length_append, hlen, bytes_length, total_cons, total_nil]
      omega
    · split
      · rename_i hlt
        have hpart : Seg.bytes ⟨seg.base, seg.size - extra⟩ = seg.bytes.take (seg.size - extra) := by
          have hfront := @Seg.bytes_part w seg (seg.size - extra) 0 (by omega)
          rwa [List.drop_zero, BitVec.add_zero] at hfront
        have hsum : seg.size + total segs - extra = (bytes segs.reverse).length + (seg.size - extra) := by omega
        rw [List.reverse_cons, bytes_append, hsum, List.take_length_add_append]
        simp only [bytes_cons, bytes_nil, List.append_nil]
        rw [hpart]
      · have hle : seg.size + total segs - extra ≤ (bytes segs.reverse).length := by omega
        rw [ih (by omega), List.take_append_of_le_length hle]
        congr 1
        omega

end Trim

end Xhyve.Lib.Gather
