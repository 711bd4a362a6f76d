import Xhyve.Lib.ByteMemory

/-!
# Tables of records in memory

A table is built at a moving pointer: each record is put behind the one before it. Where every record
says how long it is, a reader that steps over them meets exactly the records that were put there.
-/

namespace Xhyve.Lib

open Mem

namespace Mem

variable {m m' m'' : Mem} {a b n k : Nat} {bs cs : List UInt8}

/-- The bytes from `a` on. -/
def slice (m : Mem) (a n : Nat) : List UInt8 := (List.range n).map fun i => m (a + i)

def put (m : Mem) (a : Nat) (bs : List UInt8) : Mem := fun x =>
  if a ≤ x ∧ x < a + bs.length then bs.getD (x - a) 0 else m x

@[simp] theorem length_slice (m : Mem) (a n : Nat) : (m.slice a n).length = n := by simp [slice]

theorem slice_add (m : Mem) (a n k : Nat) : m.slice a (n + k) = m.slice a n ++ m.slice (a + n) k := by
  rw [slice, List.range_add, List.map_append, List.map_map]
  refine congrArg (m.slice a n ++ ·) (List.map_congr_left fun i _ => ?_)
  rw [Function.comp_apply, Nat.add_assoc]

theorem slice_congr (h : ∀ x, a ≤ x → x < a + n → m' x = m x) : m'.slice a n = m.slice a n := by
  refine List.map_congr_left fun i hi => h _ (Nat.le_add_right _ _) ?_
  have := List.mem_range.mp hi
  omega

theorem slice_put (m : Mem) (a : Nat) (bs : List UInt8) : (m.put a bs).slice a bs.length = bs := by
  refine List.ext_getElem (length_slice ..) fun i hi hi' => ?_
  have hin : a ≤ a + i ∧ a + i < a + bs.length := by omega
  have hsub : a + i - a = i := by omega
  simp only [slice, List.getElem_map, List.getElem_range]
  rw [put, if_pos hin, hsub, ← List.getElem_eq_getD (h := hi') 0]

theorem put_of_outside {x : Nat} (h : x < a ∨ a + bs.length ≤ x) : m.put a bs x = m x := by
  refine if_neg ?_
  omega

theorem put_at {i : Nat} (h : i < bs.length) : m.put a bs (a + i) = bs.getD i 0 := by
  rw [put, if_pos (by omega), Nat.add_sub_cancel_left]

theorem put_singleton (m : Mem) (a : Nat) (v : UInt8) : m.put a [v] = Function.update m a v := by
  funext x
  by_cases hx : x = a
  · subst hx
    rw [Function.update_self, put, if_pos ⟨Nat.le_refl _, by simp⟩, Nat.sub_self]
    rfl
  · rw [Function.update_of_ne hx, put_of_outside]
    simp only [List.length_singleton]
    omega

theorem store_eq_put (m : Mem) (n a v : Nat) : m.store n a v = m.put a (LittleEndian.bytes n v) := by
  funext x
  rw [store, put, LittleEndian.length_bytes]

theorem load_eq_slice (m : Mem) (n a : Nat) : m.load n a = LittleEndian.toNat (m.slice a n) := rfl

/-! ## Writing at a moving pointer -/

/-- The bytes are at `a` now, and nothing else has changed. -/
structure Emits (m m' : Mem) (a : Nat) (bs : List UInt8) : Prop where
  written : m'.slice a bs.length = bs
  frame : ∀ x, x < a ∨ a + bs.length ≤ x → m' x = m x

theorem Emits.put (m : Mem) (a : Nat) (bs : List UInt8) : Emits m (m.put a bs) a bs :=
  ⟨slice_put m a bs, fun _ => put_of_outside⟩

theorem Emits.nil (m : Mem) (a : Nat) : Emits m m a [] := ⟨rfl, fun _ _ => rfl⟩

theorem Emits.append (h : Emits m m' a bs) (h' : Emits m' m'' (a + bs.length) cs) :
    Emits m m'' a (bs ++ cs) := by
  constructor
  · rw [List.length_append, slice_add, h'.written]
    refine congrArg (· ++ cs) ((slice_congr fun x _ hx => h'.frame x (Or.inl hx)).trans h.written)
  · intro x hx
    rw [List.length_append] at hx
    rw [h'.frame x (by omega), h.frame x (by omega)]

/-- What lies beside the bytes is as it was. -/
theorem Emits.slice_of_disjoint (h : Emits m m' a bs) (hb : b + n ≤ a ∨ a + bs.length ≤ b) :
    m'.slice b n = m.slice b n :=
  slice_congr fun x _ _ => h.frame x (by omega)

/-- What is written behind takes the place of the end. -/
theorem Emits.overwrite {ds : List UInt8} (h : Emits m m' a (bs ++ ds))
    (h' : Emits m' m'' (a + bs.length) cs) (hlen : ds.length ≤ cs.length) :
    Emits m m'' a (bs ++ cs) := by
  constructor
  · have hwritten := h.written
    rw [List.length_append, slice_add] at hwritten
    have hfront := (List.append_inj hwritten (length_slice ..)).1
    rw [List.length_append, slice_add, h'.written, h'.slice_of_disjoint (by omega), hfront]
  · intro x hx
    rw [List.length_append] at hx
    rw [h'.frame x (by omega), h.frame x (by rw [List.length_append]; omega)]

/-- `cs` in the place of what is at `k`. -/
def patch (k : Nat) (cs bs : List UInt8) : List UInt8 := bs.take k ++ cs ++ bs.drop (k + cs.length)

theorem length_patch (h : k + cs.length ≤ bs.length) : (patch k cs bs).length = bs.length := by
  simp only [patch, List.length_append, List.length_take, List.length_drop]
  omega

theorem getElem?_patch {j : Nat} (hj : j < k ∨ k + cs.length ≤ j) (h : k + cs.length ≤ bs.length) :
    (patch k cs bs)[j]? = bs[j]? := by
  have htake : (bs.take k).length = k := List.length_take_of_le (by omega)
  rw [patch]
  rcases hj with hj | hj
  · rw [List.append_assoc, List.getElem?_append_left (by omega), List.getElem?_take_of_lt hj]
  · rw [List.getElem?_append_right (by rw [List.length_append]; omega), List.length_append, htake,
      List.getElem?_drop, Nat.add_sub_cancel' hj]

theorem getD_patch {j : Nat} (hj : j < k ∨ k + cs.length ≤ j) (h : k + cs.length ≤ bs.length) :
    (patch k cs bs).getD j 0 = bs.getD j 0 := by
  rw [List.getD_eq_getElem?_getD, getElem?_patch hj h, List.getD_eq_getElem?_getD]

theorem take_drop_patch (h : k + cs.length ≤ bs.length) :
    ((patch k cs bs).drop k).take cs.length = cs := by
  rw [patch, List.append_assoc, List.drop_left' (List.length_take_of_le (by omega)), List.take_left]

theorem take_drop_patch_of_outside {j : Nat} (hj : j + n ≤ k ∨ k + cs.length ≤ j)
    (h : k + cs.length ≤ bs.length) :
    ((patch k cs bs).drop j).take n = (bs.drop j).take n := by
  refine List.ext_getElem? fun i => ?_
  rw [List.getElem?_take, List.getElem?_take, List.getElem?_drop, List.getElem?_drop]
  split
  · rw [getElem?_patch (by omega) h]
  · rfl

theorem patch_append (h : k + cs.length ≤ bs.length) (rest : List UInt8) :
    patch k cs (bs ++ rest) = patch k cs bs ++ rest := by
  rw [patch, patch, List.take_append_of_le_length (by omega), List.drop_append_of_le_length h,
    List.append_assoc, List.append_assoc, List.append_assoc]

theorem Emits.patch (h : Emits m m' a bs) (hk : k + cs.length ≤ bs.length) :
    Emits m (m'.put (a + k) cs) a (patch k cs bs) := by
  have hput := Emits.put m' (a + k) cs
  obtain ⟨rest, hrest⟩ : ∃ rest, bs.length = k + (cs.length + rest) :=
    ⟨bs.length - k - cs.length, by omega⟩
  have hwritten := h.written
  rw [hrest, slice_add, slice_add] at hwritten
  have htake : bs.take k = m'.slice a k := by
    rw [← hwritten, List.take_left' (length_slice ..)]
  have hdrop : bs.drop (k + cs.length) = m'.slice (a + k + cs.length) rest := by
    rw [← hwritten, ← List.append_assoc,
      List.drop_left' (by rw [List.length_append, length_slice, length_slice])]
  constructor
  · rw [length_patch hk, hrest, slice_add, slice_add, hput.written,
      hput.slice_of_disjoint (by omega), hput.slice_of_disjoint (by omega), Mem.patch, htake, hdrop,
      List.append_assoc]
  · intro x hx
    rw [length_patch hk] at hx
    rw [hput.frame x (by omega), h.frame x hx]

/-- A step of a loop that writes one record after the other. -/
theorem Emits.foldl {ι : Type*} (step : Mem × Nat → ι → Mem × Nat) (rec : ι → List UInt8)
    (P : Mem → Nat → Prop)
    (hstep : ∀ m a i, P m a → Emits m (step (m, a) i).1 a (rec i) ∧
      (step (m, a) i).2 = a + (rec i).length ∧ P (step (m, a) i).1 (step (m, a) i).2) :
    ∀ (is : List ι) {m : Mem} {a : Nat}, P m a →
      Emits m (is.foldl step (m, a)).1 a (is.flatMap rec) ∧
        (is.foldl step (m, a)).2 = a + (is.flatMap rec).length ∧
        P (is.foldl step (m, a)).1 (is.foldl step (m, a)).2 := by
  intro is
  induction is with
  | nil => exact fun h => ⟨.nil _ _, rfl, h⟩
  | cons i is ih =>
    intro m a h
    obtain ⟨hone, hnext, hp⟩ := hstep m a i h
    obtain ⟨hrest, hend, hlast⟩ := ih hp
    have hpair : step (m, a) i = ((step (m, a) i).1, (step (m, a) i).2) := rfl
    rw [List.foldl_cons, List.flatMap_cons, hpair]
    rw [hend] at hlast ⊢
    rw [hnext] at hrest
    refine ⟨hone.append ?_, ?_, hlast⟩
    · rw [hnext]
      exact hrest
    · rw [hnext, List.length_append, Nat.add_assoc]

end Mem

/-! ## Reading records that say how long they are -/

namespace Records

variable {size : List UInt8 → Nat} {r rest : List UInt8} {rs : List (List UInt8)}

/-- Steps over `n` records; `size` tells from the bytes at hand how long the record at their head
is. -/
def read (size : List UInt8 → Nat) : Nat → List UInt8 → List (List UInt8) × List UInt8
  | 0, bs => ([], bs)
  | n + 1, bs =>
    let r := read size n (bs.drop (size bs))
    (bs.take (size bs) :: r.1, r.2)

/-- Whatever comes behind it, the record tells its own length. -/
def Delimited (size : List UInt8 → Nat) (r : List UInt8) : Prop := ∀ rest, size (r ++ rest) = r.length

theorem read_flatten (h : ∀ r ∈ rs, Delimited size r) (rest : List UInt8) :
    read size rs.length (rs.flatten ++ rest) = (rs, rest) := by
  induction rs with
  | nil => rfl
  | cons r rs ih =>
    have hr := h r (List.mem_cons_self ..) (rs.flatten ++ rest)
    have hrest := ih fun r' hr' => h r' (List.mem_cons_of_mem _ hr')
    simp only [List.length_cons, read, List.flatten_cons, List.append_assoc, hr]
    rw [List.drop_left, List.take_left, hrest]

theorem length_flatten_of_eq {k : Nat} (h : ∀ r ∈ rs, r.length = k) :
    rs.flatten.length = k * rs.length := by
  induction rs with
  | nil => rfl
  | cons r rs ih =>
    have hr := h r (List.mem_cons_self ..)
    rw [List.flatten_cons, List.length_append, hr, ih fun r' hr' => h r' (List.mem_cons_of_mem _ hr'),
      List.length_cons, Nat.mul_succ, Nat.add_comm]

theorem length_flatten_le {k : Nat} (h : ∀ r ∈ rs, r.length ≤ k) : rs.flatten.length ≤ k * rs.length := by
  rw [List.length_flatten, Nat.mul_comm, ← List.length_map List.length]
  refine List.sum_le_card_nsmul _ k fun n hn => ?_
  obtain ⟨r, hr, rfl⟩ := List.mem_map.mp hn
  exact h r hr

end Records

/-! ## Strings that end in NUL -/

namespace NulStrings

variable {s rest : List UInt8} {ss : List (List UInt8)}

/-- Strings such a list of them can hold. -/
def Plain (ss : List (List UInt8)) : Prop := ∀ s ∈ ss, s ≠ [] ∧ 0 ∉ s

instance : Decidable (Plain ss) := inferInstanceAs (Decidable (∀ s ∈ ss, s ≠ [] ∧ 0 ∉ s))

/-- Each string with its NUL, and one more behind the last; without any string there are two. -/
def encode (ss : List (List UInt8)) : List UInt8 :=
  ss.flatMap (· ++ [0]) ++ 0 :: if ss = [] then [0] else []

/-- How many bytes there are up to the first two NULs in a row, with them. -/
def size : List UInt8 → Nat
  | b :: b' :: bs => if b = 0 ∧ b' = 0 then 2 else size (b' :: bs) + 1
  | bs => bs.length

/-- The string of this number; the first is number 1. -/
def get : Nat → List UInt8 → Option (List UInt8)
  | 0, _ => none
  | v + 1, bs =>
    let s := bs.takeWhile (· ≠ 0)
    if s = [] then none else if v = 0 then some s else get v (bs.drop (s.length + 1))

theorem Plain.tail (h : Plain (s :: ss)) : Plain ss := fun t ht => h t (List.mem_cons_of_mem _ ht)

theorem size_string (h : 0 ∉ s) (rest : List UInt8) :
    size (s ++ 0 :: rest) = s.length + size (0 :: rest) := by
  induction s with
  | nil => exact (Nat.zero_add _).symm
  | cons b s ih =>
    have hb : b ≠ 0 := fun hzero => h (hzero ▸ List.mem_cons_self ..)
    have hs : 0 ∉ s := fun hmem => h (List.mem_cons_of_mem _ hmem)
    have hnext : size (b :: (s ++ 0 :: rest)) = size (s ++ 0 :: rest) + 1 := by
      cases s with
      | nil => exact if_neg fun hall => hb hall.1
      | cons c s => exact if_neg fun hall => hb hall.1
    rw [List.cons_append, hnext, ih hs, List.length_cons]
    omega

/-- From the NUL of one string on. -/
theorem size_behind (h : Plain ss) (rest : List UInt8) :
    size (0 :: (ss.flatMap (· ++ [0]) ++ 0 :: rest)) = (ss.flatMap (· ++ [0])).length + 2 := by
  induction ss with
  | nil => exact if_pos ⟨rfl, rfl⟩
  | cons s ss ih =>
    obtain ⟨hne, hnul⟩ := h s (List.mem_cons_self ..)
    obtain ⟨b, s, rfl⟩ := List.exists_cons_of_ne_nil hne
    have hb : b ≠ 0 := fun hzero => hnul (hzero ▸ List.mem_cons_self ..)
    have hstep := size_string hnul (ss.flatMap (· ++ [0]) ++ 0 :: rest)
    rw [List.flatMap_cons, List.append_assoc, List.append_assoc, List.singleton_append, List.cons_append]
    rw [List.cons_append] at hstep
    refine (if_neg fun hall => hb hall.2).trans ?_
    rw [hstep, ih h.tail, List.length_append, List.length_append]
    simp only [List.length_cons, List.length_nil]
    omega

theorem size_encode (h : Plain ss) (rest : List UInt8) :
    size (encode ss ++ rest) = (encode ss).length := by
  cases ss with
  | nil => exact if_pos ⟨rfl, rfl⟩
  | cons s ss =>
    obtain ⟨hne, hnul⟩ := h s (List.mem_cons_self ..)
    have hcode : encode (s :: ss) = s ++ 0 :: (ss.flatMap (· ++ [0]) ++ [0]) := by
      simp [encode]
    rw [hcode, List.append_assoc, List.cons_append, List.append_assoc, List.singleton_append,
      size_string hnul, size_behind h.tail]
    simp

theorem get_strings (h : Plain ss) (v : Nat) (rest : List UInt8) :
    get (v + 1) (ss.flatMap (· ++ [0]) ++ 0 :: rest) = ss[v]? := by
  induction ss generalizing v with
  | nil => rfl
  | cons s ss ih =>
    obtain ⟨hne, hnul⟩ := h s (List.mem_cons_self ..)
    rw [List.flatMap_cons, List.append_assoc, List.append_assoc, List.singleton_append]
    have htake : (s ++ 0 :: (ss.flatMap (· ++ [0]) ++ 0 :: rest)).takeWhile (· ≠ 0) = s := by
      have hpos : ∀ b ∈ s, decide (b ≠ 0) = true :=
        fun b hb => decide_eq_true fun hzero => hnul (hzero ▸ hb)
      rw [List.takeWhile_append_of_pos hpos]
      simp
    rw [get, htake]
    refine (if_neg hne).trans ?_
    cases v with
    | zero => rfl
    | succ v =>
      have hdrop : (s ++ 0 :: (ss.flatMap (· ++ [0]) ++ 0 :: rest)).drop (s.length + 1) =
          ss.flatMap (· ++ [0]) ++ 0 :: rest := by
        rw [← List.singleton_append, ← List.append_assoc, List.drop_left' (by simp)]
      rw [if_neg (Nat.succ_ne_zero v), hdrop, ih h.tail]
      rfl

theorem get_encode (h : Plain ss) (v : Nat) : get (v + 1) (encode ss) = ss[v]? :=
  get_strings h v _

end NulStrings

/-! ## Checksums -/

/-- The sum of the bytes. -/
def byteSum (bs : List UInt8) : Nat := (bs.map UInt8.toNat).sum

theorem byteSum_append (bs cs : List UInt8) : byteSum (bs ++ cs) = byteSum bs + byteSum cs := by
  simp [byteSum]

theorem foldl_add_toNat (bs : List UInt8) (v : UInt8) :
    (bs.foldl (· + ·) v).toNat = (v.toNat + byteSum bs) % 256 := by
  induction bs generalizing v with
  | nil =>
    have := v.toNat_lt
    simp only [List.foldl_nil, byteSum, List.map_nil, List.sum_nil, Nat.add_zero]
    omega
  | cons b bs ih =>
    have hadd : (v + b).toNat = (v.toNat + b.toNat) % 256 := UInt8.toNat_add v b
    have hsum : byteSum (b :: bs) = b.toNat + byteSum bs := by simp [byteSum]
    rw [List.foldl_cons, ih, hadd, hsum]
    omega

/-- A byte that was zero makes up for the rest. -/
theorem byteSum_update {m : Mem} {a n c : Nat} {v : UInt8} (hlo : a ≤ c) (hhi : c < a + n)
    (hzero : m c = 0) (hv : (byteSum (m.slice a n) + v.toNat) % 256 = 0) :
    byteSum (Mem.slice (Function.update m c v) a n) % 256 = 0 := by
  obtain ⟨i, rfl⟩ := Nat.exists_eq_add_of_le hlo
  obtain ⟨k, rfl⟩ : ∃ k, n = i + (1 + k) := ⟨n - i - 1, by omega⟩
  have hcut : ∀ m' : Mem, byteSum (m'.slice a (i + (1 + k))) =
      byteSum (m'.slice a i) + ((m' (a + i)).toNat + byteSum (m'.slice (a + i + 1) k)) := by
    intro m'
    rw [slice_add, slice_add, byteSum_append, byteSum_append]
    simp [slice, byteSum]
  have hbefore : Mem.slice (Function.update m (a + i) v) a i = m.slice a i :=
    slice_congr fun x _ hx => Function.update_of_ne (by omega) ..
  have hbehind : Mem.slice (Function.update m (a + i) v) (a + i + 1) k = m.slice (a + i + 1) k :=
    slice_congr fun x hx _ => Function.update_of_ne (by omega) ..
  rw [hcut, hbefore, hbehind, Function.update_self]
  rw [hcut, hzero] at hv
  simp only [UInt8.toNat_zero] at hv
  omega

theorem foldl_sub_toNat (bs : List UInt8) (v : UInt8) :
    ((bs.foldl (· - ·) v).toNat + byteSum bs) % 256 = v.toNat := by
  induction bs generalizing v with
  | nil =>
    have := v.toNat_lt
    simp only [List.foldl_nil, byteSum, List.map_nil, List.sum_nil, Nat.add_zero]
    omega
  | cons b bs ih =>
    have hsub : (v - b).toNat = (2 ^ 8 - b.toNat + v.toNat) % 2 ^ 8 := UInt8.toNat_sub v b
    have hsum : byteSum (b :: bs) = b.toNat + byteSum bs := by simp [byteSum]
    have hrest := ih (v - b)
    have hv := v.toNat_lt
    have hb := b.toNat_lt
    rw [List.foldl_cons, hsum]
    omega

/-- The byte that is the sum taken from zero. -/
theorem byteSum_negate {m : Mem} {a n c : Nat} (hlo : a ≤ c) (hhi : c < a + n) (hzero : m c = 0) :
    byteSum ((m.put c [(m.slice a n).foldl (· - ·) 0]).slice a n) % 256 = 0 := by
  rw [Mem.put_singleton]
  refine byteSum_update hlo hhi hzero ?_
  rw [Nat.add_comm]
  exact foldl_sub_toNat _ 0

end Xhyve.Lib
