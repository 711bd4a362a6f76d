import Mathlib.Data.List.Basic

/-!
# Reading lines into a buffer of bounded length

A reader hands out a text line by line, each line with its terminator, and cuts a line that does not
fit its buffer: the rest of it comes as if it were a line of its own.
-/

namespace Xhyve.Lib.BoundedLines

variable {α : Type} {sep : α} {n : Nat}

/-- What the reader makes of one line of the text: the pieces it is cut into. -/
def pieces (sep : α) (n : Nat) (l : List α) : List (List α) :=
  if _h : l.length < n ∨ n = 0 then [l ++ [sep]] else l.take n :: pieces sep n (l.drop n)
termination_by l.length
decreasing_by
  push Not at _h
  rw [List.length_drop]
  omega

theorem pieces_fits {l : List α} (hfit : l.length < n) : pieces sep n l = [l ++ [sep]] := by
  rw [pieces, dif_pos (Or.inl hfit)]

theorem pieces_full (hn : 0 < n) {l : List α} (hfull : n ≤ l.length) :
    pieces sep n l = l.take n :: pieces sep n (l.drop n) := by
  rw [pieces, dif_neg]
  rintro (h | h) <;> omega

theorem length_le_of_mem_pieces {l p : List α} (hp : p ∈ pieces sep n l) :
    p.length ≤ l.length + 1 := by
  fun_induction pieces sep n l with
  | case1 l hfit =>
    obtain rfl := List.mem_singleton.1 hp
    simp
  | case2 l hfull ih =>
    rcases List.mem_cons.1 hp with rfl | hp
    · rw [List.length_take]
      omega
    · have := ih hp
      rw [List.length_drop] at this
      omega

variable [DecidableEq α]

/-- At most `n` characters, up to and including the first terminator, and what is left. -/
def readLine (sep : α) : Nat → List α → List α × List α
  | 0, s => ([], s)
  | _ + 1, [] => ([], [])
  | n + 1, c :: s =>
    if c = sep then ([c], s) else (c :: (readLine sep n s).1, (readLine sep n s).2)

theorem readLine_append (sep : α) (n : Nat) (s : List α) :
    (readLine sep n s).1 ++ (readLine sep n s).2 = s := by
  induction n generalizing s with
  | zero => rfl
  | succ n ih =>
    cases s with
    | nil => rfl
    | cons c s =>
      rw [readLine]
      split_ifs with hc
      · rfl
      · rw [List.cons_append, ih s]

theorem readLine_length (sep : α) (n : Nat) (s : List α) : (readLine sep n s).1.length ≤ n := by
  induction n generalizing s with
  | zero => exact Nat.le_refl 0
  | succ n ih =>
    cases s with
    | nil => exact Nat.zero_le _
    | cons c s =>
      rw [readLine]
      split_ifs with hc
      · simp
      · exact Nat.succ_le_succ (ih s)

theorem readLine_advances (hn : 0 < n) {s : List α} (hs : s ≠ []) :
    (readLine sep n s).2.length < s.length := by
  obtain ⟨n, rfl⟩ := Nat.exists_eq_succ_of_ne_zero (Nat.ne_of_gt hn)
  obtain ⟨c, s, rfl⟩ := List.exists_cons_of_ne_nil hs
  have happ := congrArg List.length (readLine_append sep n s)
  rw [List.length_append] at happ
  rw [readLine]
  split_ifs with hc
  · simp
  · simp only [List.length_cons]
    omega

/-- A line that fits together with its terminator is read whole. -/
theorem readLine_fits {l : List α} (hl : sep ∉ l) (hfit : l.length < n) (s : List α) :
    readLine sep n (l ++ sep :: s) = (l ++ [sep], s) := by
  induction l generalizing n with
  | nil =>
    obtain ⟨n, rfl⟩ := Nat.exists_eq_succ_of_ne_zero (Nat.ne_of_gt hfit)
    simp [readLine]
  | cons c l ih =>
    obtain ⟨n, rfl⟩ := Nat.exists_eq_succ_of_ne_zero (Nat.ne_of_gt (Nat.zero_lt_of_lt hfit))
    have hc : c ≠ sep := fun h => hl (h ▸ List.mem_cons_self)
    have hrest := ih (fun h => hl (List.mem_cons_of_mem c h)) (Nat.lt_of_succ_lt_succ hfit)
    rw [List.cons_append, readLine, if_neg hc, hrest]
    rfl

/-- A line that fills the buffer is cut there. -/
theorem readLine_full {l : List α} (hl : sep ∉ l) (hfull : n ≤ l.length) (s : List α) :
    readLine sep n (l ++ s) = (l.take n, l.drop n ++ s) := by
  induction n generalizing l with
  | zero => simp [readLine]
  | succ n ih =>
    cases l with
    | nil => simp at hfull
    | cons c l =>
      have hc : c ≠ sep := fun h => hl (h ▸ List.mem_cons_self)
      have hrest := ih (fun h => hl (List.mem_cons_of_mem c h)) (Nat.le_of_succ_le_succ hfull)
      rw [List.cons_append, readLine, if_neg hc, hrest]
      rfl

/-- Every line of the text, in the order the reader hands them out. -/
def lines (sep : α) (n : Nat) (s : List α) : List (List α) :=
  if _h : s = [] ∨ n = 0 then []
  else (readLine sep n s).1 :: lines sep n (readLine sep n s).2
termination_by s.length
decreasing_by
  push Not at _h
  exact readLine_advances (Nat.pos_of_ne_zero _h.2) _h.1

theorem lines_nil : lines sep n [] = [] := by
  rw [lines, dif_pos (Or.inl rfl)]

theorem lines_step (hn : 0 < n) {s : List α} (hs : s ≠ []) :
    lines sep n s = (readLine sep n s).1 :: lines sep n (readLine sep n s).2 := by
  rw [lines, dif_neg]
  rintro (h | h)
  · exact hs h
  · omega

theorem length_le_of_mem_lines {s l : List α} (hl : l ∈ lines sep n s) : l.length ≤ n := by
  fun_induction lines sep n s with
  | case1 s hs => cases hl
  | case2 s hs ih =>
    rcases List.mem_cons.1 hl with rfl | hl
    · exact readLine_length sep n s
    · exact ih hl

theorem lines_line (hn : 0 < n) {l : List α} (hl : sep ∉ l) (s : List α) :
    lines sep n (l ++ sep :: s) = pieces sep n l ++ lines sep n s := by
  fun_induction pieces sep n l with
  | case1 l hfit =>
    have hfit' : l.length < n := by omega
    rw [lines_step hn (by simp), readLine_fits hl hfit']
    rfl
  | case2 l hfull ih =>
    have hfull' : n ≤ l.length := by omega
    rw [lines_step hn (by simp), readLine_full hl hfull', ih fun h => hl (List.mem_of_mem_drop h)]
    rfl

end Xhyve.Lib.BoundedLines
