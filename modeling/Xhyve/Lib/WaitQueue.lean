import Mathlib.Data.List.Basic

/-!
# Queues whose entries wait for one another

An entry of a queue may be held back because some entry that is still outstanding carries the
key it waits for. An outstanding entry has been started, or stands earlier in the queue. So the
entry at the front waits for a started one, and where none is started it is not held back.
-/

namespace Xhyve.Lib

universe u v

section WaitQueue
variable {α : Type u} {κ : Type v} (key wait : α → κ) (blocked : α → Prop)

/-- Every entry of the queue that is held back waits for a key of a started entry or of one
before it. -/
def Waits : List α → List α → Prop
  | _, [] => True
  | started, x :: queue =>
    (blocked x → ∃ y ∈ started, key y = wait x) ∧ Waits (x :: started) queue

variable {key wait : α → κ} {blocked blocked' : α → Prop} {started started' queue : List α} {x : α}

theorem Waits.mono (h : Waits key wait blocked started queue)
    (hsub : ∀ y ∈ started, y ∈ started') : Waits key wait blocked started' queue := by
  induction queue generalizing started started' with
  | nil => trivial
  | cons x queue ih =>
    obtain ⟨hx, hrest⟩ := h
    refine ⟨fun hb => ?_, ih hrest fun y hy => ?_⟩
    · obtain ⟨y, hy, hkey⟩ := hx hb
      exact ⟨y, hsub y hy, hkey⟩
    · rcases List.mem_cons.mp hy with rfl | hy
      · exact List.mem_cons_self ..
      · exact List.mem_cons_of_mem _ (hsub y hy)

/-- Nothing depends on entries that are neither queued nor started. -/
theorem Waits.congr {key' wait' : α → κ} (h : Waits key wait blocked started queue)
    (hstart : ∀ y ∈ started, key' y = key y)
    (hqueue : ∀ y ∈ queue, key' y = key y ∧ wait' y = wait y ∧ (blocked' y → blocked y)) :
    Waits key' wait' blocked' started queue := by
  induction queue generalizing started with
  | nil => trivial
  | cons x queue ih =>
    obtain ⟨hx, hrest⟩ := h
    obtain ⟨hkx, hwx, hbx⟩ := hqueue x (List.mem_cons_self ..)
    refine ⟨fun hb => ?_, ih hrest (fun y hy => ?_) fun y hy =>
      hqueue y (List.mem_cons_of_mem _ hy)⟩
    · obtain ⟨y, hy, hkey⟩ := hx (hbx hb)
      exact ⟨y, hy, by rw [hstart y hy, hwx, hkey]⟩
    · rcases List.mem_cons.mp hy with rfl | hy
      · exact hkx
      · exact hstart y hy

/-- A new entry waits for one that is outstanding. -/
theorem Waits.append (h : Waits key wait blocked started queue)
    (hx : blocked x → ∃ y, (y ∈ started ∨ y ∈ queue) ∧ key y = wait x) :
    Waits key wait blocked started (queue ++ [x]) := by
  induction queue generalizing started with
  | nil =>
    refine ⟨fun hb => ?_, trivial⟩
    obtain ⟨y, hy | hy, hkey⟩ := hx hb
    · exact ⟨y, hy, hkey⟩
    · cases hy
  | cons z queue ih =>
    refine ⟨h.1, ih h.2 fun hb => ?_⟩
    obtain ⟨y, hy, hkey⟩ := hx hb
    refine ⟨y, ?_, hkey⟩
    rcases hy with hy | hy
    · exact .inl (List.mem_cons_of_mem _ hy)
    · rcases List.mem_cons.mp hy with rfl | hy
      · exact .inl (List.mem_cons_self ..)
      · exact .inr hy

/-- An entry that is started stays outstanding. -/
theorem Waits.start {before after : List α}
    (h : Waits key wait blocked started (before ++ x :: after)) :
    Waits key wait blocked (x :: started) (before ++ after) := by
  induction before generalizing started with
  | nil => exact h.2
  | cons z before ih =>
    refine ⟨fun hb => ?_, (ih h.2).mono fun y hy => ?_⟩
    · obtain ⟨y, hy, hkey⟩ := h.1 hb
      exact ⟨y, List.mem_cons_of_mem _ hy, hkey⟩
    · simp only [List.mem_cons] at hy ⊢
      tauto

/-- A started entry is done, and whatever waited for its key is let go. -/
theorem Waits.finish (h : Waits key wait blocked started queue)
    (hsub : ∀ y ∈ started, y ∈ started' ∨ y = x)
    (hwake : ∀ y ∈ queue, blocked' y → blocked y ∧ wait y ≠ key x) :
    Waits key wait blocked' started' queue := by
  induction queue generalizing started started' with
  | nil => trivial
  | cons z queue ih =>
    obtain ⟨hz, hrest⟩ := h
    refine ⟨fun hb => ?_, ih hrest (fun y hy => ?_) fun y hy =>
      hwake y (List.mem_cons_of_mem _ hy)⟩
    · obtain ⟨hb, hne⟩ := hwake z (List.mem_cons_self ..) hb
      obtain ⟨y, hy, hkey⟩ := hz hb
      rcases hsub y hy with hy | rfl
      · exact ⟨y, hy, hkey⟩
      · exact absurd hkey.symm hne
    · rcases List.mem_cons.mp hy with rfl | hy
      · exact .inl (List.mem_cons_self ..)
      · exact (hsub y hy).imp_left (List.mem_cons_of_mem _)

/-- Every entry that is held back has something to wait for. -/
theorem Waits.outstanding {before after : List α}
    (h : Waits key wait blocked started (before ++ x :: after)) (hb : blocked x) :
    ∃ y, (y ∈ started ∨ y ∈ before) ∧ key y = wait x := by
  induction before generalizing started with
  | nil =>
    obtain ⟨y, hy, hkey⟩ := h.1 hb
    exact ⟨y, .inl hy, hkey⟩
  | cons z before ih =>
    obtain ⟨y, hy, hkey⟩ := ih h.2
    refine ⟨y, ?_, hkey⟩
    rcases hy with hy | hy
    · rcases List.mem_cons.mp hy with rfl | hy
      · exact .inr (List.mem_cons_self ..)
      · exact .inl hy
    · exact .inr (List.mem_cons_of_mem _ hy)

/-- With nothing started, the front of the queue is not held back. -/
theorem Waits.front (h : Waits key wait blocked [] (x :: queue)) : ¬ blocked x := by
  intro hb
  obtain ⟨y, hy, -⟩ := h.1 hb
  cases hy

end WaitQueue

end Xhyve.Lib
