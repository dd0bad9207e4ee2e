import Mathlib.Data.List.Basic
import Mathlib.Data.List.Induction
import Mathlib.Tactic.SplitIfs

/-! # The arguments of a macro

What stands behind the name of a macro is read as its arguments.  Spaces separate them; an argument
that begins with a double quote goes on to the next double quote, spaces and all, and two of them in
a row stand for one.  A double quote within an argument is a character like any other.  (The escapes
of roff are not looked at here.)

* `readAll_bare`, `readAll_quoted`: what is read of texts that hold no end of an argument.
* `isWord_or_size_lt`: of every text but a word, reading loses a character.
* `arguments_eq_iff`: so a text in front of a word and a quoted argument is read as one argument and
  leaves the others what they are exactly if it is a word. -/

namespace ManualPages.Roff

-- Sums begin with the zero of the core library, whatever else is imported beside it.
attribute [local instance (2000)] Zero.ofOfNat0

/-- Where the reading of arguments has come to. -/
inductive Phase where
  | between
  | bare (text : List Char)
  | quoted (text : List Char)
  /-- Behind a double quote in a quoted argument, which is over unless another one follows. -/
  | closing (text : List Char)
deriving DecidableEq, Repr

/-- The argument that is being read. -/
def Phase.text? : Phase → Option (List Char)
  | between => none
  | bare text => some text
  | quoted text => some text
  | closing text => some text

/-- The arguments that have been read, and where the reading has come to. -/
structure Reading where
  complete : List (List Char)
  phase : Phase
deriving DecidableEq, Repr

namespace Reading

/-- Nothing has been read. -/
def initial : Reading := ⟨[], .between⟩

/-- A character that belongs to no argument yet. -/
def start (complete : List (List Char)) (c : Char) : Reading :=
  if c = ' ' then ⟨complete, .between⟩
  else if c = '"' then ⟨complete, .quoted []⟩
  else ⟨complete, .bare [c]⟩

def read (r : Reading) (c : Char) : Reading :=
  match r.phase with
  | .between => start r.complete c
  | .bare text =>
    if c = ' ' then ⟨r.complete ++ [text], .between⟩ else ⟨r.complete, .bare (text ++ [c])⟩
  | .quoted text =>
    if c = '"' then ⟨r.complete, .closing text⟩ else ⟨r.complete, .quoted (text ++ [c])⟩
  | .closing text =>
    if c = '"' then ⟨r.complete, .quoted (text ++ [c])⟩ else start (r.complete ++ [text]) c

def readAll (r : Reading) (s : List Char) : Reading := s.foldl read r

/-- All arguments, if the line ends here. -/
def arguments (r : Reading) : List (List Char) := r.complete ++ r.phase.text?.toList

/-- How many characters the arguments have. -/
def size (r : Reading) : Nat := (r.arguments.map List.length).sum

end Reading

/-- The arguments that are read from what stands behind the name of a macro. -/
def arguments (s : List Char) : List (List Char) := (Reading.initial.readAll s).arguments

/-- The text is read as one argument as it stands. -/
structure IsWord (s : List Char) : Prop where
  ne_nil : s ≠ []
  noSpace : ' ' ∉ s
  noQuote : s.head? ≠ some '"'

namespace IsWord

variable {s : List Char}

theorem exists_cons (h : IsWord s) :
    ∃ c rest, s = c :: rest ∧ c ≠ ' ' ∧ c ≠ '"' ∧ ' ' ∉ rest := by
  obtain ⟨c, rest, rfl⟩ := List.exists_cons_of_ne_nil h.ne_nil
  have space := h.noSpace
  simp only [List.mem_cons, not_or] at space
  exact ⟨c, rest, rfl, Ne.symm space.1, fun e => h.noQuote (by rw [e]; rfl), space.2⟩

theorem concat {c : Char} (h : IsWord s) (hc : c ≠ ' ') : IsWord (s ++ [c]) where
  ne_nil := by simp
  noSpace := by
    simp only [List.mem_append, List.mem_singleton, not_or]
    exact ⟨h.noSpace, Ne.symm hc⟩
  noQuote := by
    rw [List.head?_append_of_ne_nil s h.ne_nil]
    exact h.noQuote

end IsWord

namespace Reading

variable {complete : List (List Char)} {s t : List Char} {c : Char}

theorem readAll_append (r : Reading) (s t : List Char) :
    r.readAll (s ++ t) = (r.readAll s).readAll t := List.foldl_append

theorem readAll_concat (r : Reading) (s : List Char) (c : Char) :
    r.readAll (s ++ [c]) = (r.readAll s).read c := readAll_append r s [c]

theorem readAll_bare (h : ' ' ∉ s) (t : List Char) :
    readAll ⟨complete, .bare t⟩ s = ⟨complete, .bare (t ++ s)⟩ := by
  induction s using List.reverseRecOn with
  | nil => rw [List.append_nil]; rfl
  | append_singleton s c ih =>
      simp only [List.mem_append, List.mem_singleton, not_or] at h
      rw [readAll_concat, ih h.1, ← List.append_assoc]
      exact if_neg (Ne.symm h.2)

theorem readAll_quoted (h : '"' ∉ s) (t : List Char) :
    readAll ⟨complete, .quoted t⟩ s = ⟨complete, .quoted (t ++ s)⟩ := by
  induction s using List.reverseRecOn with
  | nil => rw [List.append_nil]; rfl
  | append_singleton s c ih =>
      simp only [List.mem_append, List.mem_singleton, not_or] at h
      rw [readAll_concat, ih h.1, ← List.append_assoc]
      exact if_neg (Ne.symm h.2)

theorem start_eq_bare (hs : c ≠ ' ') (hq : c ≠ '"') : start complete c = ⟨complete, .bare [c]⟩ := by
  rw [start, if_neg hs, if_neg hq]

theorem readAll_word (h : IsWord s) : readAll ⟨complete, .between⟩ s = ⟨complete, .bare s⟩ := by
  obtain ⟨c, rest, rfl, space, quote, others⟩ := h.exists_cons
  calc readAll ⟨complete, .between⟩ (c :: rest)
      = readAll (start complete c) rest := rfl
    _ = ⟨complete, .bare (c :: rest)⟩ := by
        rw [start_eq_bare space quote, readAll_bare others]
        rfl

theorem readAll_closing (h : IsWord s) (t : List Char) :
    readAll ⟨complete, .closing t⟩ s = ⟨complete ++ [t], .bare s⟩ := by
  obtain ⟨c, rest, rfl, -, quote, -⟩ := h.exists_cons
  rw [← readAll_word h]
  exact congrArg (readAll · rest) (if_neg quote)

/-! ### Characters that are lost -/

theorem size_read_le (r : Reading) (c : Char) : (r.read c).size ≤ r.size + 1 := by
  obtain ⟨complete, phase⟩ := r
  cases phase <;> simp only [read, start] <;> split_ifs <;>
    simp [size, arguments, Phase.text?] <;> omega

/-- A text that is no word has a space or a double quote that is no part of an argument. -/
theorem isWord_or_size_lt (s : List Char) :
    s = [] ∨ IsWord s ∨ (initial.readAll s).size < s.length := by
  -- from the end: what is read of the text in front of a character decides what that one is
  induction s using List.reverseRecOn with
  | nil => exact .inl rfl
  | append_singleton s c ih =>
      rw [readAll_concat, List.length_append, List.length_singleton]
      right
      rcases ih with rfl | word | less
      · by_cases hs : c = ' '
        · subst hs
          exact .inr (by decide)
        · by_cases hq : c = '"'
          · subst hq
            exact .inr (by decide)
          · refine .inl ⟨by simp, by simpa using Ne.symm hs, ?_⟩
            simpa using hq
      · by_cases hs : c = ' '
        · subst hs
          have ended : (initial.readAll s).read ' ' = ⟨[s], .between⟩ := by
            rw [initial, readAll_word word]
            rfl
          rw [ended]
          exact .inr (by simp [size, Reading.arguments, Phase.text?])
        · exact .inl (word.concat hs)
      · have step := size_read_le (initial.readAll s) c
        exact .inr (by omega)

/-! ### A title in front of the section and the date -/

variable {number date month year : List Char}

theorem read_space {r : Reading} (h : ∀ text, r.phase ≠ .quoted text) :
    r.read ' ' = ⟨r.arguments, .between⟩ := by
  obtain ⟨complete, phase⟩ := r
  cases phase with
  | between => simp [read, start, arguments, Phase.text?]
  | bare text => rfl
  | quoted text => exact absurd rfl (h text)
  | closing text => rfl

/-- A word and a quoted argument, behind a space. -/
theorem arguments_behind {r : Reading} (h : ∀ text, r.phase ≠ .quoted text) (word : IsWord number)
    (unquoted : '"' ∉ date) :
    (r.readAll (' ' :: number ++ [' ', '"'] ++ date ++ ['"'])).arguments =
      r.arguments ++ [number, date] := by
  have first : r.readAll (' ' :: number) = ⟨r.arguments, .bare number⟩ := by
    rw [← readAll_word word, ← read_space h]
    rfl
  have second : readAll ⟨r.arguments, .bare number⟩ [' ', '"'] =
      ⟨r.arguments ++ [number], .quoted []⟩ := rfl
  rw [readAll_append, readAll_append, readAll_append, first, second, readAll_quoted unquoted]
  simp [readAll, read, arguments, Phase.text?]

/-- The same within a quoted argument: it goes on to the double quote in front of the date. -/
theorem arguments_behind_quoted (text : List Char) (plain : '"' ∉ number) (hm : IsWord month)
    (hy : IsWord year) : (readAll ⟨complete, .quoted text⟩
      (' ' :: number ++ [' ', '"'] ++ (month ++ ' ' :: year) ++ ['"'])).arguments =
        complete ++ [text ++ ' ' :: number ++ [' '], month, year ++ ['"']] := by
  have inside : '"' ∉ ' ' :: number ++ [' '] := by simpa using plain
  have last : IsWord (year ++ ['"']) := hy.concat (by decide)
  have cut : ' ' :: number ++ [' ', '"'] ++ (month ++ ' ' :: year) ++ ['"'] =
      (' ' :: number ++ [' ']) ++ (['"'] ++ (month ++ ([' '] ++ (year ++ ['"'])))) := by simp
  have closed : readAll ⟨complete, .quoted (text ++ (' ' :: number ++ [' ']))⟩ ['"'] =
      ⟨complete, .closing (text ++ (' ' :: number ++ [' ']))⟩ := rfl
  have ended : ∀ complete : List (List Char), readAll ⟨complete, .bare month⟩ [' '] =
      ⟨complete ++ [month], .between⟩ := fun _ => rfl
  rw [cut, readAll_append, readAll_quoted inside, readAll_append, closed, readAll_append,
    readAll_closing hm, readAll_append, ended, readAll_word last]
  simp [arguments, Phase.text?]

end Reading

/-- **Titles that are one argument.**  A text in front of a word and a quoted date of two words is
read as an argument of its own, the others being what they are, exactly if it is a word. -/
theorem arguments_eq_iff {title number month year : List Char} (hn : IsWord number)
    (hm : IsWord month) (hy : IsWord year) (plain : '"' ∉ number ∧ '"' ∉ month ∧ '"' ∉ year) :
    arguments (title ++ (' ' :: number ++ [' ', '"'] ++ (month ++ ' ' :: year) ++ ['"'])) =
      [title, number, month ++ ' ' :: year] ↔ IsWord title := by
  have unquoted : '"' ∉ month ++ ' ' :: year := by simp [plain]
  rw [arguments, Reading.readAll_append]
  constructor
  · intro h
    by_cases quoted : ∃ text, (Reading.initial.readAll title).phase = .quoted text
    · obtain ⟨text, phase⟩ := quoted
      have read : Reading.initial.readAll title =
          ⟨(Reading.initial.readAll title).complete, .quoted text⟩ := by rw [← phase]
      rw [read, Reading.arguments_behind_quoted text plain.1 hm hy] at h
      -- the last argument ends with the double quote behind the date
      have last := congrArg List.getLast? h
      rw [List.getLast?_append_of_ne_nil _ (by simp)] at last
      have e : year ++ ['"'] = month ++ ' ' :: year := by simpa using last
      exact absurd (e ▸ List.mem_append_right year List.mem_cons_self) unquoted
    · rw [Reading.arguments_behind (not_exists.mp quoted) hn unquoted] at h
      have alone : (Reading.initial.readAll title).arguments = [title] :=
        List.append_cancel_right (h.trans (List.singleton_append).symm)
      rcases Reading.isWord_or_size_lt title with rfl | word | less
      · cases alone
      · exact word
      · simp [Reading.size, alone] at less
  · intro word
    have read : Reading.initial.readAll title = ⟨[], .bare title⟩ := Reading.readAll_word word
    rw [read, Reading.arguments_behind (by simp) hn unquoted]
    rfl

end ManualPages.Roff
