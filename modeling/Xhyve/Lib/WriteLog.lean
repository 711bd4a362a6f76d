import Xhyve.Lib.ByteMemory

/-!
# A memory and what has been written to it

A memory along with the ranges written so far: a range that is written holds what was written until another write
touches it, and where all writes have gone can be told in the end.
-/

namespace Xhyve.Lib

/-- The first byte and the length of each write. -/
structure WriteLog where
  mem : Mem
  writes : List (Nat × Nat)

namespace WriteLog

variable {s : WriteLog} {P : Nat → Prop} {a b n v : Nat} {bs : List UInt8}

def put (s : WriteLog) (a : Nat) (bs : List UInt8) : WriteLog where
  mem := fun x => if a ≤ x ∧ x < a + bs.length then bs.getD (x - a) 0 else s.mem x
  writes := s.writes ++ [(a, bs.length)]

def store (s : WriteLog) (n a v : Nat) : WriteLog := s.put a (LittleEndian.bytes n v)

/-- All writes so far are at addresses with `P`. -/
def Within (s : WriteLog) (P : Nat → Prop) : Prop := ∀ w ∈ s.writes, ∀ x, w.1 ≤ x → x < w.1 + w.2 → P x

theorem Within.put (h : s.Within P) (hbs : ∀ x, a ≤ x → x < a + bs.length → P x) : (s.put a bs).Within P := by
  intro w hw
  rcases List.mem_append.mp hw with hw | hw
  · exact h w hw
  · obtain rfl := List.mem_singleton.mp hw
    exact hbs

theorem Within.store (h : s.Within P) (hn : ∀ x, a ≤ x → x < a + n → P x) : (s.store n a v).Within P := by
  refine h.put fun x hlo hhi => hn x hlo ?_
  rw [LittleEndian.length_bytes] at hhi
  exact hhi

/-- Every address that has another byte than before is in a write. -/
def Tracked (m : Mem) (s : WriteLog) : Prop :=
  ∀ x, (∀ w ∈ s.writes, ¬ (w.1 ≤ x ∧ x < w.1 + w.2)) → s.mem x = m x

theorem Tracked.put {m : Mem} (h : Tracked m s) (a : Nat) (bs : List UInt8) : Tracked m (s.put a bs) := by
  intro x hx
  have hlast := hx (a, bs.length) (List.mem_append_right _ List.mem_cons_self)
  exact (if_neg hlast).trans (h x fun w hw => hx w (List.mem_append_left _ hw))

/-- What no write may reach is as it was. -/
theorem Tracked.outside {m : Mem} (h : Tracked m s) (hwithin : s.Within P) {x : Nat} (hx : ¬ P x) : s.mem x = m x :=
  h x fun w hw hin => hx (hwithin w hw x hin.1 hin.2)

/-- What is beside a write stays. -/
theorem load_put_of_disjoint (h : a + n ≤ b ∨ b + bs.length ≤ a) : (s.put b bs).mem.load n a = s.mem.load n a := by
  refine Mem.load_congr fun i hi => if_neg ?_
  omega

theorem load_store_of_disjoint {k : Nat} (h : a + n ≤ b ∨ b + k ≤ a) :
    (s.store k b v).mem.load n a = s.mem.load n a := by
  refine load_put_of_disjoint ?_
  rw [LittleEndian.length_bytes]
  exact h

theorem mem_store : (s.store n a v).mem = s.mem.store n a v := by
  funext x
  change (if a ≤ x ∧ x < a + (LittleEndian.bytes n v).length then _ else _) = _
  rw [LittleEndian.length_bytes]
  rfl

theorem load_store (hv : v < 256 ^ n) : (s.store n a v).mem.load n a = v := by
  rw [mem_store, Mem.load_store hv]

/-- A word of what was written. -/
theorem load_put {i : Nat} (h : i + n ≤ bs.length) :
    (s.put a bs).mem.load n (a + i) = LittleEndian.toNat ((bs.drop i).take n) := by
  have hlen : ((bs.drop i).take n).length = n := by
    rw [List.length_take, List.length_drop]
    omega
  refine congrArg LittleEndian.toNat (List.ext_getElem ?_ fun j hj hj' => ?_)
  · rw [List.length_map, List.length_range, hlen]
  · rw [List.length_map, List.length_range] at hj
    have hin : a ≤ a + i + j ∧ a + i + j < a + bs.length := by omega
    have hsub : a + i + j - a = i + j := by omega
    have hget : i + j < bs.length := by omega
    rw [List.getElem_map, List.getElem_range, List.getElem_take, List.getElem_drop]
    exact (if_pos hin).trans (by rw [hsub, ← List.getElem_eq_getD (h := hget) 0])

/-! ## Words one after the other -/

/-- A word at an offset. -/
structure Field where
  offset : Nat
  width : Nat

def Field.Apart (f g : Field) : Prop := f.offset + f.width ≤ g.offset ∨ g.offset + g.width ≤ f.offset

instance (f g : Field) : Decidable (f.Apart g) := inferInstanceAs (Decidable (_ ∨ _))

variable {f : Field} {base : Nat} {fields fields' : List (Field × Nat)}

def get (s : WriteLog) (base : Nat) (f : Field) : Nat := s.mem.load f.width (base + f.offset)

/-- Stores the values of fields in turn. -/
def fill (s : WriteLog) (base : Nat) (fields : List (Field × Nat)) : WriteLog :=
  fields.foldl (fun s e => s.store e.1.width (base + e.1.offset) e.2) s

theorem Within.fill (h : s.Within P) (hf : ∀ e ∈ fields, ∀ x, base + e.1.offset ≤ x → x < base + e.1.offset + e.1.width → P x) :
    (s.fill base fields).Within P := by
  induction fields generalizing s with
  | nil => exact h
  | cons e fields ih =>
    exact ih (h.store (hf e (List.mem_cons_self ..))) fun e' he' => hf e' (List.mem_cons_of_mem _ he')

theorem Tracked.fill {m : Mem} (h : Tracked m s) (base : Nat) (fields : List (Field × Nat)) :
    Tracked m (s.fill base fields) := by
  induction fields generalizing s with
  | nil => exact h
  | cons e fields ih => exact ih (h.put _ _)

theorem get_fill_of_disjoint {other : Nat}
    (h : ∀ e ∈ fields, base + f.offset + f.width ≤ other + e.1.offset ∨ other + e.1.offset + e.1.width ≤ base + f.offset) :
    (s.fill other fields).get base f = s.get base f := by
  induction fields generalizing s with
  | nil => rfl
  | cons e fields ih =>
    have hbeside := h e (List.mem_cons_self ..)
    exact (ih fun e' he' => h e' (List.mem_cons_of_mem _ he')).trans (load_store_of_disjoint hbeside)

theorem get_fill_of_apart (h : ∀ e ∈ fields, f.Apart e.1) : (s.fill base fields).get base f = s.get base f := by
  refine get_fill_of_disjoint fun e he => ?_
  have hapart := h e he
  unfold Field.Apart at hapart
  omega

/-- The last value stored in a field is the one it has. -/
theorem get_fill (hv : v < 256 ^ f.width) (h : ∀ e ∈ fields', f.Apart e.1) :
    (s.fill base (fields ++ (f, v) :: fields')).get base f = v := by
  unfold fill
  rw [List.foldl_append, List.foldl_cons]
  exact (get_fill_of_apart h).trans (load_store hv)

theorem get_put_of_disjoint (h : base + f.offset + f.width ≤ a ∨ a + bs.length ≤ base + f.offset) :
    (s.put a bs).get base f = s.get base f :=
  load_put_of_disjoint h

end WriteLog
end Xhyve.Lib
