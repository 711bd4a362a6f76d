import Mathlib.Data.List.DropRight
import Xhyve.Lib.BoundedLines

/-!
# The INI parser

`ini_parse_stream` with the options `ini.h` sets: continuation lines, a byte order mark, inline
comments after `;`, no stop at the first error, lines of 200 bytes. A string is the list of its
bytes without the terminating zero, a byte being written as a character.
-/

namespace Xhyve.Manager.Ini

open Xhyve.Lib

abbrev Str := List Char

def maxSection : Nat := 50
def maxName : Nat := 50
def iniMaxLine : Nat := 200
def iniInlineCommentPrefixes : Str := [';']

/-- `isspace` of the C locale. -/
def isspace (c : Char) : Bool := c ∈ [' ', '\t', '\n', '\x0b', '\x0c', '\r']

def rstrip (s : Str) : Str := s.rdropWhile isspace

def lskip (s : Str) : Str := s.dropWhile isspace

/-- The text before the place `find_chars_or_comment` points to, and the text from there on. -/
def findCharsOrComment (chars : Str) : Bool → Str → Str × Str
  | _, [] => ([], [])
  | wasSpace, c :: s =>
    if c ∈ chars ∨ wasSpace ∧ c ∈ iniInlineCommentPrefixes then ([], c :: s)
    else
      let r := findCharsOrComment chars (isspace c) s
      (c :: r.1, r.2)

def strncpy0 (src : Str) (size : Nat) : Str := src.take (size - 1)

/-- A stream's next line, as `fgets` puts it into a buffer of `num` bytes. -/
def fgets (num : Nat) (stream : Str) : Option (Str × Str) :=
  if stream = [] then none else some (BoundedLines.readLine '\n' (num - 1) stream)

/-- The locals of `ini_parse_stream` that outlive a line, and what its handler is given. -/
structure Parser (σ : Type) where
  sect : Str
  prevName : Str
  lineno : Nat
  error : Nat
  user : σ

/-- The user's data, with the section, name and value found; true when the handler took them. -/
abbrev Handler (σ : Type) := σ → Str → Str → Str → σ × Bool

section Parse

variable {σ : Type} (handler : Handler σ)

def noteError (st : Parser σ) : Parser σ :=
  if st.error = 0 then { st with error := st.lineno } else st

def callHandler (st : Parser σ) (name value : Str) : Parser σ :=
  let r := handler st.user st.sect name value
  if r.2 then { st with user := r.1 } else noteError { st with user := r.1 }

/-- What is left of the text after `=` or `:`. -/
def pairValue (s : Str) : Str := rstrip (findCharsOrComment [] false (lskip s)).1

def sectionLine (st : Parser σ) (s : Str) : Parser σ :=
  let r := findCharsOrComment [']'] false s
  if r.2.head? = some ']' then { st with sect := strncpy0 r.1 maxSection, prevName := [] }
  else noteError st

def pairLine (st : Parser σ) (start : Str) : Parser σ :=
  let r := findCharsOrComment ['=', ':'] false start
  if r.2.head? = some '=' ∨ r.2.head? = some ':' then
    let name := rstrip r.1
    callHandler handler { st with prevName := strncpy0 name maxName } name (pairValue r.2.tail)
  else noteError st

def byteOrderMark : Str := [Char.ofNat 0xef, Char.ofNat 0xbb, Char.ofNat 0xbf]

/-- The line as a string, without a byte order mark and without blanks at its end. -/
def lineText (lineno : Nat) (line : Str) : Str :=
  let line := line.takeWhile (· ≠ '\x00')
  rstrip (if lineno = 1 ∧ line.take 3 = byteOrderMark then line.drop 3 else line)

/-- Whether the text after the leading blanks starts behind the first byte of the line. -/
def indented (lineno : Nat) (line : Str) : Bool :=
  lineno = 1 ∧ (line.takeWhile (· ≠ '\x00')).take 3 = byteOrderMark ∨
    (lskip (lineText lineno line)).length < (lineText lineno line).length

/-- The body of the loop over the lines. -/
def parseLine (st : Parser σ) (line : Str) : Parser σ :=
  let st := { st with lineno := st.lineno + 1 }
  let start := lskip (lineText st.lineno line)
  match start with
  | [] => st
  | c :: s =>
    if c = ';' ∨ c = '#' then st
    else if st.prevName ≠ [] ∧ indented st.lineno line then
      callHandler handler st st.prevName start
    else if c = '[' then sectionLine st s
    else pairLine handler st start

/-- The lines `fgets` hands to the loop until it returns `NULL`. -/
def streamLines (stream : Str) : List Str := BoundedLines.lines '\n' (iniMaxLine - 1) stream

def iniParseStream (stream : Str) (user : σ) : Parser σ :=
  (streamLines stream).foldl (parseLine handler)
    { sect := [], prevName := [], lineno := 0, error := 0, user := user }

/-- The user's data and the result of `ini_parse`; no file could be opened when it is `none`. -/
def iniParse (file : Option Str) (user : σ) : σ × Int :=
  match file with
  | none => (user, -1)
  | some stream =>
    let st := iniParseStream handler stream user
    (st.user, st.error)

end Parse

/-- The loop's lines are those that repeated calls of `fgets` return. -/
theorem streamLines_fgets (stream : Str) :
    streamLines stream =
      match fgets iniMaxLine stream with
      | none => []
      | some r => r.1 :: streamLines r.2 := by
  by_cases hs : stream = []
  · rw [fgets, if_pos hs, hs]
    exact BoundedLines.lines_nil
  · rw [fgets, if_neg hs]
    exact BoundedLines.lines_step (by decide) hs

/-! ## Stripping and searching -/

theorem rstrip_length (s : Str) : (rstrip s).length ≤ s.length :=
  (List.rdropWhile_prefix isspace s).length_le

theorem lskip_length (s : Str) : (lskip s).length ≤ s.length :=
  (List.dropWhile_suffix isspace).length_le

theorem rstrip_append_space {t : Str} (ht : ∀ c ∈ t, isspace c) (s : Str) :
    rstrip (s ++ t) = rstrip s := by
  induction t using List.reverseRecOn with
  | nil => rw [List.append_nil]
  | append_singleton t c ih =>
    have hc : isspace c = true := ht c (by simp)
    rw [← List.append_assoc, rstrip, List.rdropWhile_concat_pos isspace _ _ hc]
    exact ih fun d hd => ht d (by simp [hd])

theorem lskip_of_head {c : Char} (hc : isspace c = false) (s : Str) : lskip (c :: s) = c :: s := by
  rw [lskip, List.dropWhile_cons, if_neg (by simp [hc])]

theorem find_append (chars : Str) (w : Bool) (s : Str) :
    (findCharsOrComment chars w s).1 ++ (findCharsOrComment chars w s).2 = s := by
  induction s generalizing w with
  | nil => rfl
  | cons c s ih =>
    rw [findCharsOrComment]
    split_ifs
    · rfl
    · rw [List.cons_append, ih]

theorem find_length (chars : Str) (w : Bool) (s : Str) :
    (findCharsOrComment chars w s).1.length + (findCharsOrComment chars w s).2.length =
      s.length := by
  rw [← List.length_append, find_append]

/-- Text that holds none of the characters and no blank is passed over. -/
theorem find_over {chars l : Str} (hl : ∀ c ∈ l, c ∉ chars ∧ isspace c = false) (s : Str) :
    findCharsOrComment chars false (l ++ s) =
      (l ++ (findCharsOrComment chars false s).1, (findCharsOrComment chars false s).2) := by
  induction l with
  | nil => rfl
  | cons c l ih =>
    obtain ⟨hc, hspace⟩ := hl c List.mem_cons_self
    rw [List.cons_append, findCharsOrComment, if_neg (by simp [hc]), hspace,
      ih fun d hd => hl d (List.mem_cons_of_mem c hd)]
    rfl

theorem find_hit {chars : Str} {c : Char} (hc : c ∈ chars) (w : Bool) (s : Str) :
    findCharsOrComment chars w (c :: s) = ([], c :: s) := by
  rw [findCharsOrComment, if_pos (Or.inl hc)]

theorem pairValue_length (s : Str) : (pairValue s).length ≤ s.length := by
  have hfind := find_length [] false (lskip s)
  have hstrip := rstrip_length (findCharsOrComment [] false (lskip s)).1
  have hskip := lskip_length s
  rw [pairValue]
  omega

/-- No comment starts in the text: no blank stands right before a `;`. -/
def Uncommented (v : Str) : Prop := v.IsChain fun a b => isspace a → b ∉ iniInlineCommentPrefixes

instance (v : Str) : Decidable (Uncommented v) :=
  inferInstanceAs (Decidable (v.IsChain fun a b => isspace a → b ∉ iniInlineCommentPrefixes))

theorem find_comment_iff (w : Bool) (v : Str) :
    (findCharsOrComment [] w v).1 = v ↔
      (w → ∀ c ∈ v.head?, c ∉ iniInlineCommentPrefixes) ∧ Uncommented v := by
  induction v generalizing w with
  | nil => simp [findCharsOrComment, Uncommented]
  | cons c v ih =>
    rw [findCharsOrComment]
    have hnext : Uncommented (c :: v) ↔
        (isspace c → ∀ d ∈ v.head?, d ∉ iniInlineCommentPrefixes) ∧ Uncommented v := by
      cases v with
      | nil => simp [Uncommented]
      | cons d v => simp [Uncommented]
    by_cases hcut : w ∧ c ∈ iniInlineCommentPrefixes
    · rw [if_pos (Or.inr hcut)]
      constructor
      · intro h
        cases h
      · intro h
        exact absurd hcut.2 (h.1 hcut.1 c rfl)
    · rw [if_neg (by simpa using hcut), hnext, ← ih (isspace c)]
      constructor
      · intro h
        refine ⟨?_, (List.cons.inj h).2⟩
        rintro hw d ⟨⟩ hd
        exact hcut ⟨hw, hd⟩
      · intro h
        exact congrArg (c :: ·) h.2

/-- A value that comes through the parser as it is. -/
structure Kept (v : Str) : Prop where
  head : ∀ c ∈ v.head?, isspace c = false
  last : ∀ c ∈ v.getLast?, isspace c = false
  uncommented : Uncommented v

instance (v : Str) : Decidable (Kept v) :=
  decidable_of_iff (v.head?.all (fun c => !isspace c) = true ∧
      v.getLast?.all (fun c => !isspace c) = true ∧ Uncommented v) (by
    simp only [Option.all_eq_true, Bool.not_eq_true']
    exact ⟨fun h => ⟨h.1, h.2.1, h.2.2⟩, fun h => ⟨h.head, h.last, h.uncommented⟩⟩)

/-- The value the parser finds on a line that was written with `v`. -/
def survivor (v : Str) : Str := pairValue (rstrip v)

theorem rstrip_eq_self_iff (v : Str) : rstrip v = v ↔ ∀ c ∈ v.getLast?, isspace c = false := by
  rw [rstrip, List.rdropWhile_eq_self_iff]
  rcases List.eq_nil_or_concat v with rfl | ⟨l, c, rfl⟩
  · simp
  · simp

theorem lskip_eq_self_iff (v : Str) : lskip v = v ↔ ∀ c ∈ v.head?, isspace c = false := by
  rw [lskip, List.dropWhile_eq_self_iff]
  cases v with
  | nil => simp
  | cons c v => simp

theorem survivor_eq_iff (v : Str) : survivor v = v ↔ Kept v := by
  constructor
  · intro h
    -- no step of the way gives back what it took, so each of them left the value alone
    have hlen := congrArg List.length h
    have h1 := rstrip_length v
    have h2 := lskip_length (rstrip v)
    have h3 := find_length [] false (lskip (rstrip v))
    have h4 := rstrip_length (findCharsOrComment [] false (lskip (rstrip v))).1
    rw [survivor, pairValue] at hlen
    have hr : rstrip v = v := (List.rdropWhile_prefix isspace v).eq_of_length (by
      change (rstrip v).length = _
      omega)
    rw [hr] at h2 h3 h4 hlen
    have hs : lskip v = v := (List.dropWhile_suffix isspace).eq_of_length (by
      change (lskip v).length = _
      omega)
    rw [hs] at h3 h4 hlen
    have hc : (findCharsOrComment [] false v).1 = v :=
      List.IsPrefix.eq_of_length ⟨_, find_append [] false v⟩ (by omega)
    exact ⟨(lskip_eq_self_iff v).1 hs, (rstrip_eq_self_iff v).1 hr,
      ((find_comment_iff false v).1 hc).2⟩
  · intro h
    have hr := (rstrip_eq_self_iff v).2 h.last
    have hc : (findCharsOrComment [] false v).1 = v :=
      (find_comment_iff false v).2 ⟨fun hw => absurd hw Bool.false_ne_true, h.uncommented⟩
    rw [survivor, pairValue, hr, (lskip_eq_self_iff v).2 h.head, hc, hr]

theorem rstrip_cons (c : Char) (v : Str) :
    rstrip (c :: v) = if rstrip v = [] then rstrip [c] else c :: rstrip v := by
  induction v using List.reverseRecOn with
  | nil => exact (if_pos rfl).symm
  | append_singleton v d ih =>
    by_cases hd : isspace d = true
    · have hall : ∀ e ∈ [d], isspace e = true := by simpa using hd
      rw [← List.cons_append, rstrip_append_space hall, rstrip_append_space hall, ih]
    · have hv : rstrip (v ++ [d]) = v ++ [d] := List.rdropWhile_concat_neg isspace v d hd
      have hcv : rstrip (c :: v ++ [d]) = c :: v ++ [d] := List.rdropWhile_concat_neg isspace _ d hd
      rw [hv, if_neg (by simp), ← List.cons_append, hcv]

theorem rstrip_append {c : Char} (hc : isspace c = false) (l s : Str) :
    rstrip (l ++ c :: s) = l ++ c :: rstrip s := by
  induction l with
  | nil =>
    have hone : rstrip [c] = [c] := (rstrip_eq_self_iff [c]).2 (by simpa using hc)
    rw [List.nil_append, List.nil_append, rstrip_cons]
    split_ifs with hs
    · rw [hone, hs]
    · rfl
  | cons d l ih => rw [List.cons_append, rstrip_cons, ih, if_neg (by simp), List.cons_append]

/-- The blank the writer puts after `=` is not part of the value. -/
theorem pairValue_blank (v : Str) : pairValue (rstrip (' ' :: v)) = survivor v := by
  rw [rstrip_cons, survivor]
  split_ifs with hv
  · rw [hv]
    rfl
  · rfl

/-! ## The lines a writer emits -/

/-- Letters, digits and `_`: what section and field names are made of. -/
def wordChar (c : Char) : Bool := c.isAlphanum || c = '_'

def Word (w : Str) : Prop := ∀ c ∈ w, wordChar c

instance (w : Str) : Decidable (Word w) := List.decidableBAll (fun c => wordChar c) w

theorem word_ne {c d : Char} (hc : wordChar c) (hd : wordChar d = false) : c ≠ d := by
  rintro rfl
  rw [hd] at hc
  cases hc

theorem word_not_space {c : Char} (hc : wordChar c) : isspace c = false := by
  rw [Bool.eq_false_iff]
  intro h
  have hmem : c ∈ [' ', '\t', '\n', '\x0b', '\x0c', '\r'] := by simpa [isspace] using h
  have hnone : [' ', '\t', '\n', '\x0b', '\x0c', '\r'].all (fun d => !wordChar d) = true := by decide
  exact word_ne hc (by simpa using List.all_eq_true.1 hnone c hmem) rfl

theorem Word.not_mem {w : Str} (hw : Word w) {d : Char} (hd : wordChar d = false) : d ∉ w :=
  fun h => word_ne (hw d h) hd rfl

theorem rstrip_word {w : Str} (hw : Word w) : rstrip w = w := by
  rw [rstrip_eq_self_iff]
  intro c hc
  exact word_not_space (hw c (List.mem_of_getLast? hc))

theorem takeWhile_nul {l : Str} (hnul : '\x00' ∉ l) : l.takeWhile (· ≠ '\x00') = l := by
  rw [List.takeWhile_eq_self_iff]
  intro c hc
  have : c ≠ '\x00' := fun h => hnul (h ▸ hc)
  simpa using this

theorem not_marked {c : Char} (hc : c ≠ Char.ofNat 0xef) (l : Str) :
    (c :: l).take 3 ≠ byteOrderMark := by
  intro h
  exact hc (List.cons.inj h).1

section Lines

variable {σ : Type} {handler : Handler σ} {st : Parser σ}

/-- A line that starts with neither a blank nor a byte order mark is no continuation. -/
theorem parseLine_plain {c : Char} {l : Str} (hspace : isspace c = false)
    (hmark : c ≠ Char.ofNat 0xef) (hnul : '\x00' ∉ c :: l) (hcomment : c ≠ ';' ∧ c ≠ '#') :
    parseLine handler st (c :: l) =
      if c = '[' then sectionLine { st with lineno := st.lineno + 1 } (rstrip l)
      else pairLine handler { st with lineno := st.lineno + 1 } (c :: rstrip l) := by
  have htext : ∀ n, lineText n (c :: l) = c :: rstrip l := by
    intro n
    rw [lineText, takeWhile_nul hnul, if_neg fun h => not_marked hmark l h.2]
    exact rstrip_append hspace [] l
  have hflush : ∀ n, indented n (c :: l) = false := by
    intro n
    rw [indented, takeWhile_nul hnul, htext, lskip_of_head hspace]
    simpa using fun _ => not_marked hmark l
  simp only [parseLine, htext, lskip_of_head hspace, hflush]
  rw [if_neg (by simp [hcomment]), if_neg (by simp)]

theorem parseLine_blank : parseLine handler st ['\n'] = { st with lineno := st.lineno + 1 } := by
  have htext : ∀ n, lineText n ['\n'] = [] := by
    intro n
    rw [lineText, takeWhile_nul (by decide), if_neg fun h => not_marked (by decide) [] h.2]
    rfl
  simp only [parseLine, htext]
  rfl

theorem parseLine_section {sec : Str} (hw : Word sec) (hlen : sec.length < maxSection) :
    parseLine handler st ('[' :: (sec ++ [']']) ++ ['\n']) =
      { st with lineno := st.lineno + 1, sect := sec, prevName := [] } := by
  have hnul : '\x00' ∉ '[' :: (sec ++ [']', '\n']) := by
    have := hw.not_mem (d := '\x00') (by decide)
    simpa using this
  have hfind : findCharsOrComment [']'] false (sec ++ [']']) = (sec, [']']) := by
    rw [find_over, find_hit (by decide), List.append_nil]
    intro c hc
    exact ⟨by simpa using word_ne (hw c hc) (by decide), word_not_space (hw c hc)⟩
  have hstrip : rstrip (sec ++ [']', '\n']) = sec ++ [']'] := by
    rw [rstrip_append (by decide)]
    rfl
  rw [List.cons_append, List.append_assoc, List.singleton_append,
    parseLine_plain (by decide) (by decide) hnul (by decide), if_pos rfl, hstrip,
    sectionLine, hfind]
  have hcopy : strncpy0 sec maxSection = sec := List.take_of_length_le (by omega)
  simp [hcopy]

/-- A written pair reaches the handler with what the parser leaves of its value, whether or not the
line's terminator is still in the buffer. -/
theorem parseLine_pair {name v t : Str} (hw : Word name) (hne : name ≠ []) (hv : '\x00' ∉ v)
    (ht : t = [] ∨ t = ['\n']) :
    parseLine handler st (name ++ (' ' :: '=' :: ' ' :: v) ++ t) =
      callHandler handler
        { st with lineno := st.lineno + 1, prevName := strncpy0 name maxName } name
        (survivor v) := by
  obtain ⟨c, w, rfl⟩ := List.exists_cons_of_ne_nil hne
  have hc : wordChar c := hw c List.mem_cons_self
  have hspaces : ∀ d ∈ t, isspace d = true := by
    rcases ht with rfl | rfl <;> simp [isspace]
  have hnul : '\x00' ∉ c :: (w ++ (' ' :: '=' :: ' ' :: v) ++ t) := by
    have hname := hw.not_mem (d := '\x00') (by decide)
    have htail : '\x00' ∉ t := by rcases ht with rfl | rfl <;> decide
    simp only [List.mem_cons, List.mem_append, not_or] at hname ⊢
    exact ⟨hname.1, ⟨hname.2, by decide, by decide, by decide, hv⟩, htail⟩
  have hstrip : rstrip (w ++ (' ' :: '=' :: ' ' :: v) ++ t) =
      w ++ [' '] ++ '=' :: rstrip (' ' :: v) := by
    rw [rstrip_append_space hspaces]
    have := rstrip_append (c := '=') (by decide) (w ++ [' ']) (' ' :: v)
    simpa using this
  have hfind : findCharsOrComment ['=', ':'] false (c :: w ++ ([' '] ++ '=' :: rstrip (' ' :: v))) =
      (c :: w ++ [' '], '=' :: rstrip (' ' :: v)) := by
    rw [find_over]
    · simp [findCharsOrComment]
    · intro d hd
      refine ⟨?_, word_not_space (hw d hd)⟩
      simp only [List.mem_cons, List.not_mem_nil, or_false, not_or]
      exact ⟨word_ne (hw d hd) (by decide), word_ne (hw d hd) (by decide)⟩
  have hname : rstrip (c :: w ++ [' ']) = c :: w := by
    rw [rstrip_append_space (List.forall_mem_singleton.2 rfl), rstrip_word hw]
  rw [List.cons_append, List.cons_append,
    parseLine_plain (word_not_space hc) (word_ne hc (by decide)) hnul
      ⟨word_ne hc (by decide), word_ne hc (by decide)⟩,
    if_neg (word_ne hc (by decide)), hstrip, pairLine]
  rw [List.append_assoc, ← List.cons_append, hfind]
  simp only [hname, List.head?_cons, true_or, if_true, List.tail_cons, pairValue_blank]

theorem callHandler_user (st : Parser σ) (name value : Str) :
    (callHandler handler st name value).user = (handler st.user st.sect name value).1 := by
  simp only [callHandler, noteError]
  split_ifs <;> rfl

theorem callHandler_sect (st : Parser σ) (name value : Str) :
    (callHandler handler st name value).sect = st.sect := by
  simp only [callHandler, noteError]
  split_ifs <;> rfl

theorem noteError_user (st : Parser σ) : (noteError st).user = st.user := by
  rw [noteError]
  split_ifs <;> rfl

theorem lineText_length (n : Nat) (line : Str) : (lineText n line).length ≤ line.length := by
  have htake := (List.takeWhile_prefix (l := line) (· ≠ '\x00')).length_le
  refine (rstrip_length _).trans ?_
  split_ifs
  · rw [List.length_drop]
    omega
  · exact htake

/-- The text of a continuation is shorter than its line. -/
theorem start_length_of_indented {n : Nat} {line : Str} (h : indented n line) :
    (lskip (lineText n line)).length < line.length := by
  rw [indented, decide_eq_true_iff] at h
  rcases h with hmark | hlt
  · have htake := (List.takeWhile_prefix (l := line) (· ≠ '\x00')).length_le
    have hthree : 3 ≤ (line.takeWhile (· ≠ '\x00')).length := by
      have := congrArg List.length hmark.2
      rw [List.length_take] at this
      change _ = 3 at this
      omega
    refine (lskip_length _).trans_lt ((rstrip_length _).trans_lt ?_)
    rw [if_pos hmark, List.length_drop]
    omega
  · exact hlt.trans_le (lineText_length n line)

theorem pairLine_user (st : Parser σ) (start : Str) :
    (pairLine handler st start).user = st.user ∨
      ∃ name value, (pairLine handler st start).user = (handler st.user st.sect name value).1 ∧
        value.length < start.length := by
  have hfind := find_length ['=', ':'] false start
  simp only [pairLine]
  split_ifs with hend
  · refine Or.inr ⟨_, _, callHandler_user _ _ _, ?_⟩
    refine (pairValue_length _).trans_lt ?_
    have hpos : 0 < (findCharsOrComment ['=', ':'] false start).2.length := by
      rw [List.length_pos_iff]
      rintro hnil
      rw [hnil] at hend
      simp at hend
    rw [List.length_tail]
    omega
  · exact Or.inl (noteError_user st)

/-- A line hands at most one value to the handler, and that one is shorter than the line. -/
theorem parseLine_user (st : Parser σ) (line : Str) :
    (parseLine handler st line).user = st.user ∨
      ∃ name value, (parseLine handler st line).user = (handler st.user st.sect name value).1 ∧
        value.length < line.length := by
  have hlen := (lskip_length (lineText (st.lineno + 1) line)).trans (lineText_length _ line)
  simp only [parseLine]
  split
  · exact Or.inl rfl
  · rename_i c s hstart
    split_ifs with hcomment hcont hsect
    · exact Or.inl rfl
    · exact Or.inr ⟨_, _, callHandler_user _ _ _, start_length_of_indented hcont.2⟩
    · refine Or.inl ?_
      simp only [sectionLine]
      split_ifs
      · rfl
      · exact noteError_user _
    · refine (pairLine_user _ _).imp id ?_
      rintro ⟨name, value, h, hlt⟩
      exact ⟨name, value, h, hlt.trans_le hlen⟩

end Lines

end Xhyve.Manager.Ini
