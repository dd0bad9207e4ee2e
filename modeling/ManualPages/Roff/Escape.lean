/-! # Escaping text for roff

In roff a backslash begins an escape, a bare hyphen may be broken at or turned into another glyph,
and a line that begins with a point or an apostrophe is a control line.  `escape` puts a backslash
before every backslash and hyphen, and the mark `\&`, which prints nothing, before a point or an
apostrophe that begins a line.  Before a text is written anew it is scanned for a character that
needs this (`needsEscape`); the scan ends at the first one, and a text without any is returned as it
is.  Scan and rewriting judge the characters each for itself, with the same result
(`guard_eq_nil_iff`), so `escape` always gives what the rewriting gives (`escape_eq_guardAll`). -/

namespace ManualPages.Roff

/-- The escape that prints nothing. -/
def zeroWidth : List Char := ['\\', '&']

/-- Does a line that begins with this character count as a control line? -/
def isControl (c : Char) : Bool := c == '.' || c == '\''

/-- What is put before a character, at the start of a line or not. -/
def guard (atStart : Bool) (c : Char) : List Char :=
  if c = '\\' ∨ c = '-' then ['\\']
  else if atStart ∧ isControl c then zeroWidth
  else []

/-- Guard every character; the first stands at the start of a line if `atStart` says so. -/
def guardAll (atStart : Bool) : List Char → List Char
  | [] => []
  | c :: s => guard atStart c ++ c :: guardAll (c == '\n') s

/-- Does the scan end at this character, at the start of a line or not? -/
def needsGuard (atStart : Bool) (c : Char) : Bool :=
  c == '\\' || c == '-' || atStart && (c == '.' || c == '\'')

/-- Is there a character that needs a guard?  Behind the first one nothing is read. -/
def needsEscapeFrom (atStart : Bool) : List Char → Bool
  | [] => false
  | c :: s => needsGuard atStart c || needsEscapeFrom (c == '\n') s

def needsEscape (s : List Char) : Bool := needsEscapeFrom true s

/-- The text as roff source that prints it. -/
def escape (s : List Char) : List Char := if needsEscape s then guardAll true s else s

theorem length_le_guardAll (b : Bool) (s : List Char) :
    s.length ≤ (guardAll b s).length := by
  induction s generalizing b with
  | nil => simp
  | cons c s ih =>
    have h := ih (c == '\n')
    simp only [guardAll, List.length_append, List.length_cons]
    omega

/-- The rewriting puts nothing before a character exactly if the scan passes over it. -/
theorem guard_eq_nil_iff (b : Bool) (c : Char) : guard b c = [] ↔ needsGuard b c = false := by
  unfold guard
  split
  · next h => rcases h with rfl | rfl <;> simp [needsGuard]
  · next plain =>
    obtain ⟨backslash, hyphen⟩ := not_or.mp plain
    have control : needsGuard b c = (b && isControl c) := by
      simp [needsGuard, isControl, backslash, hyphen]
    rw [control]
    split
    · next h => simp [h, zeroWidth]
    · next h => simpa using h

/-- Guarding leaves a text as it is exactly if nothing in it needs an escape. -/
theorem guardAll_eq_self_iff (b : Bool) (s : List Char) :
    guardAll b s = s ↔ needsEscapeFrom b s = false := by
  induction s generalizing b with
  | nil => simp [guardAll, needsEscapeFrom]
  | cons c s ih =>
    by_cases h : guard b c = []
    · have passed := (guard_eq_nil_iff b c).mp h
      simp [guardAll, needsEscapeFrom, h, passed, ih]
    · have found : needsGuard b c = true := by simpa using mt (guard_eq_nil_iff b c).mpr h
      have hl := length_le_guardAll (c == '\n') s
      have hg : 0 < (guard b c).length := List.length_pos_iff.mpr h
      constructor
      · intro he
        have := congrArg List.length he
        simp only [guardAll, List.length_append, List.length_cons] at this
        omega
      · simp [needsEscapeFrom, found]

theorem escape_eq_guardAll (s : List Char) : escape s = guardAll true s := by
  rw [escape]
  split
  · rfl
  · next h => exact ((guardAll_eq_self_iff true s).mpr (by simpa [needsEscape] using h)).symm

theorem guardAll_append (b : Bool) (s t : List Char) :
    guardAll b (s ++ t) =
      guardAll b s ++ guardAll (s.getLast?.elim b (· == '\n')) t := by
  induction s generalizing b with
  | nil => simp [guardAll]
  | cons c s ih =>
    have hl : (c :: s).getLast?.elim b (· == '\n') =
        s.getLast?.elim (c == '\n') (· == '\n') := by
      rw [List.getLast?_cons]
      cases s.getLast? <;> rfl
    rw [List.cons_append, guardAll, guardAll, ih, hl]
    simp

end ManualPages.Roff
