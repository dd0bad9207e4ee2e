import ManualPages.Roff.Escape
import ManualPages.Roff.Line
import Mathlib.Data.List.Forall2

/-! # Lines and control lines

A roff reader takes its input line by line; a line that begins with a point or an apostrophe is a
control line and is not shown.  `lines` cuts a text at its newlines and `controls` keeps the control
lines.

* `hasControl` finds a control line in one pass over the characters, knowing at each of them whether
  a line begins there (`lineStart`); `exists_controlLine_iff` ties it to the lines.
* Escaped text has no control line (`hasControl_escape`).
* A text that ends its last line can be followed by anything: `controls_append`.
* The editing of line ends (`endLine`, `closeFirstGap`, `chomp`) loses no control line. -/

namespace ManualPages.Roff

/-- The lines of a text, without the newlines between them. -/
def lines (s : List Char) : List (List Char) := s.splitOn '\n'

def isControlLine (l : List Char) : Bool := l.head?.any isControl

/-- The control lines of a text, in order. -/
def controls (s : List Char) : List (List Char) := (lines s).filter isControlLine

theorem isControl_iff {c : Char} : isControl c = true ↔ c = '.' ∨ c = '\'' := by
  simp [isControl]

/-- The text is empty or ends with a newline, so that a line begins behind it. -/
def EndsLine (s : List Char) : Prop := s = [] ∨ s.getLast? = some '\n'

/-- Does a line begin behind the text, if `b` says whether one begins in front of it? -/
def lineStart (b : Bool) : List Char → Bool
  | [] => b
  | c :: s => lineStart (c == '\n') s

/-- Is there a control line, if `b` says whether a line begins in front of the text? -/
def hasControl (b : Bool) : List Char → Bool
  | [] => false
  | c :: s => b && isControl c || hasControl (c == '\n') s

/-! ### Where lines begin -/

theorem lineStart_append (b : Bool) (s t : List Char) :
    lineStart b (s ++ t) = lineStart (lineStart b s) t := by
  induction s generalizing b with
  | nil => rfl
  | cons c s ih => exact ih (c == '\n')

theorem lineStart_true {b : Bool} {s : List Char} (h : lineStart b s = true) :
    lineStart true s = true := by
  cases s with
  | nil => rfl
  | cons c s => exact h

theorem lineStart_of_getLast? {b : Bool} {s : List Char} {c : Char} (h : s.getLast? = some c) :
    lineStart b s = (c == '\n') := by
  obtain ⟨t, rfl⟩ := List.getLast?_eq_some_iff.mp h
  rw [lineStart_append]
  rfl

theorem lineStart_eq_elim (b : Bool) (s : List Char) :
    lineStart b s = s.getLast?.elim b (· == '\n') := by
  cases h : s.getLast? with
  | none =>
      rw [List.getLast?_eq_none_iff.mp h]
      rfl
  | some c => exact lineStart_of_getLast? h

theorem endsLine_iff {s : List Char} : EndsLine s ↔ lineStart true s = true := by
  unfold EndsLine
  rcases List.eq_nil_or_concat s with rfl | ⟨t, c, rfl⟩
  · simp [lineStart]
  · rw [lineStart_of_getLast? (c := c) (by simp)]
    simp

theorem EndsLine.append {s t : List Char} (hs : EndsLine s) (ht : EndsLine t) :
    EndsLine (s ++ t) := by
  rw [endsLine_iff] at hs ht ⊢
  rw [lineStart_append, hs, ht]

theorem endsLine_newline (s : List Char) : EndsLine (s ++ ['\n']) := .inr (by simp)

theorem endsLine_endLine (s : List Char) : EndsLine (endLine s) := .inr (getLast?_endLine s)

theorem lineStart_of_not_mem {b : Bool} {s : List Char} (hne : s ≠ []) (h : '\n' ∉ s) :
    lineStart b s = false := by
  obtain ⟨t, c, rfl⟩ := (List.eq_nil_or_concat s).resolve_left hne
  rw [lineStart_of_getLast? (c := c) (by simp)]
  simp only [beq_eq_false_iff_ne]
  rintro rfl
  exact h (by simp)

/-! ### Control characters at the start of a line -/

theorem hasControl_append (b : Bool) (s t : List Char) :
    hasControl b (s ++ t) = (hasControl b s || hasControl (lineStart b s) t) := by
  induction s generalizing b with
  | nil => simp [hasControl, lineStart]
  | cons c s ih => simp [hasControl, lineStart, ih, Bool.or_assoc]

theorem hasControl_iff {b : Bool} {s : List Char} : hasControl b s = true ↔
    ∃ u c v, s = u ++ c :: v ∧ lineStart b u = true ∧ isControl c = true := by
  constructor
  · intro h
    induction s generalizing b with
    | nil => simp [hasControl] at h
    | cons x s ih =>
        rw [hasControl, Bool.or_eq_true, Bool.and_eq_true] at h
        rcases h with ⟨hb, hx⟩ | h
        · exact ⟨[], x, s, rfl, hb, hx⟩
        · obtain ⟨u, c, v, rfl, hu, hc⟩ := ih h
          exact ⟨x :: u, c, v, rfl, hu, hc⟩
  · rintro ⟨u, c, v, rfl, hu, hc⟩
    rw [hasControl_append, hasControl, hu, hc]
    simp

theorem hasControl_true {b : Bool} {s : List Char} (h : hasControl true s = false) :
    hasControl b s = false := by
  rw [← Bool.not_eq_true, hasControl_iff] at h ⊢
  rintro ⟨u, c, v, rfl, hu, hc⟩
  exact h ⟨u, c, v, rfl, lineStart_true hu, hc⟩

theorem hasControl_of_any {b : Bool} {s : List Char} (h : s.any isControl = false) :
    hasControl b s = false := by
  rw [← Bool.not_eq_true, hasControl_iff]
  rintro ⟨u, c, v, rfl, -, hc⟩
  exact List.any_eq_false.mp h c (by simp) hc

theorem lines_cons (c : Char) (s : List Char) :
    lines (c :: s) = if c = '\n' then [] :: lines s else (lines s).modifyHead (c :: ·) := by
  unfold lines
  rw [List.splitOn_cons_eq_if_modifyHead]
  simp

theorem lines_newline (s t : List Char) : lines (s ++ '\n' :: t) = lines s ++ lines t :=
  List.splitOn_append_cons_self s t

theorem lines_append_of_not_mem {s : List Char} (h : '\n' ∉ s) (t : List Char) :
    lines (s ++ t) = (lines t).modifyHead (s ++ ·) := by
  induction s with
  | nil =>
      rw [List.nil_append]
      cases lines t <;> rfl
  | cons c s ih =>
      simp only [List.mem_cons, not_or] at h
      rw [List.cons_append, lines_cons, if_neg (Ne.symm h.1), ih h.2, List.modifyHead_modifyHead]
      rfl

theorem exists_lines_eq_cons (s : List Char) : ∃ l ls, lines s = l :: ls :=
  List.exists_cons_of_ne_nil (List.splitOn_ne_nil '\n' s)

/-- All lines, and all but the first: a control character begins one of them. -/
theorem any_lines (s : List Char) : (lines s).any isControlLine = hasControl true s ∧
    (lines s).tail.any isControlLine = hasControl false s := by
  induction s with
  | nil => exact ⟨rfl, rfl⟩
  | cons c s ih =>
      rw [lines_cons]
      by_cases h : c = '\n'
      · subst h
        simp [hasControl, isControlLine, isControl, ih.1]
      · obtain ⟨l, ls, e⟩ := exists_lines_eq_cons s
        rw [e] at ih ⊢
        have hc : (c == '\n') = false := by simp [h]
        simp only [List.tail_cons] at ih
        simp [hasControl, isControlLine, h, hc, ih.2]

/-- A text has a control line exactly if a control character begins one of its lines. -/
theorem exists_controlLine_iff (s : List Char) :
    (∃ l ∈ lines s, isControlLine l = true) ↔ hasControl true s = true := by
  rw [← (any_lines s).1, List.any_eq_true]

theorem controls_eq_nil_iff (s : List Char) : controls s = [] ↔ hasControl true s = false := by
  unfold controls
  rw [← (any_lines s).1, List.filter_eq_nil_iff, List.any_eq_false]

theorem eq_append_of_lineStart {p s u v : List Char} {c : Char} {b : Bool} (hne : p ≠ [])
    (hn : '\n' ∉ p) (hp : p.any isControl = false) (h : p ++ s = u ++ c :: v)
    (hu : lineStart b u = true) (hc : isControl c = true) :
    ∃ u', u = p ++ u' ∧ s = u' ++ c :: v ∧ lineStart false u' = true := by
  rcases List.append_eq_append_iff.mp h with ⟨u', rfl, e⟩ | ⟨q, rfl, e⟩
  · rw [lineStart_append, lineStart_of_not_mem hne hn] at hu
    exact ⟨u', rfl, e, hu⟩
  · rcases q with _ | ⟨x, q⟩
    · rw [List.append_nil] at hne hn
      rw [lineStart_of_not_mem hne hn] at hu
      exact absurd hu (by decide)
    · obtain ⟨rfl, -⟩ := List.cons.inj e
      exact absurd hc (List.any_eq_false.mp hp c (by simp))

theorem eq_append_of_isControl {s q u v : List Char} {c : Char}
    (hq : q.any isControl = false) (h : s ++ q = u ++ c :: v) (hc : isControl c = true) :
    ∃ v', s = u ++ c :: v' := by
  rcases List.append_eq_append_iff.mp h with ⟨r, rfl, e⟩ | ⟨r, rfl, e⟩
  · have hm : c ∈ q := by
      rw [e]
      simp
    exact absurd hc (List.any_eq_false.mp hq c hm)
  · rcases r with _ | ⟨x, r⟩
    · have hm : c ∈ q := by
        rw [← List.nil_append q, ← e]
        simp
      exact absurd hc (List.any_eq_false.mp hq c hm)
    · obtain ⟨rfl, -⟩ := List.cons.inj e
      exact ⟨r, rfl⟩

/-! ### Escaped text -/

theorem guardAll_append_lineStart (b : Bool) (s t : List Char) :
    guardAll b (s ++ t) = guardAll b s ++ guardAll (lineStart b s) t := by
  rw [guardAll_append, lineStart_eq_elim]

theorem hasControl_guard (b : Bool) (c : Char) : hasControl b (guard b c) = false ∧
    (lineStart b (guard b c) && isControl c) = false := by
  unfold guard
  split
  · next h => rcases h with rfl | rfl <;> cases b <;> exact ⟨rfl, rfl⟩
  · split
    · cases b <;> exact ⟨rfl, rfl⟩
    · next h => exact ⟨rfl, by simpa [lineStart] using h⟩

theorem hasControl_guardAll (b : Bool) (s : List Char) : hasControl b (guardAll b s) = false := by
  induction s generalizing b with
  | nil => rfl
  | cons c s ih =>
      rw [guardAll, hasControl_append, hasControl, ih, (hasControl_guard b c).1,
        (hasControl_guard b c).2]
      rfl

theorem hasControl_escape (s : List Char) : hasControl true (escape s) = false := by
  rw [escape_eq_guardAll]
  exact hasControl_guardAll true s

/-! ### Texts one after the other -/

theorem controls_nil : controls [] = [] := rfl

theorem controls_newline (s t : List Char) :
    controls (s ++ '\n' :: t) = controls s ++ controls t := by
  unfold controls
  rw [lines_newline, List.filter_append]

theorem controls_append_newline (s : List Char) : controls (s ++ ['\n']) = controls s := by
  rw [controls_newline, controls_nil, List.append_nil]

theorem controls_append {s : List Char} (h : EndsLine s) (t : List Char) :
    controls (s ++ t) = controls s ++ controls t := by
  rcases h with rfl | h
  · rfl
  · obtain ⟨r, rfl⟩ := List.getLast?_eq_some_iff.mp h
    rw [List.append_assoc, List.singleton_append, controls_newline, controls_append_newline]

/-- A control line begun, and continued by a text without control lines. -/
theorem controls_append_of_isControlLine {s t : List Char} (hs : isControlLine s = true)
    (hn : '\n' ∉ s) (ht : hasControl true t = false) : ∃ l, controls (s ++ t) = [s ++ l] := by
  obtain ⟨l, ls, e⟩ := exists_lines_eq_cons t
  have hls : ls.filter isControlLine = [] := by
    rw [← controls_eq_nil_iff, controls, e, List.filter_eq_nil_iff] at ht
    rw [List.filter_eq_nil_iff]
    exact fun l' hl' => ht l' (by simp [hl'])
  have hsl : isControlLine (s ++ l) = true := by
    cases s with
    | nil => simp [isControlLine] at hs
    | cons c s => exact hs
  refine ⟨l, ?_⟩
  rw [controls, lines_append_of_not_mem hn, e, List.modifyHead_cons, List.filter_cons, if_pos hsl,
    hls]

/-! ### Editing line ends -/

theorem exists_rel_of_mem {α β : Type} {R : α → β → Prop} {xs : List α} {ys : List β} {y : β}
    (h : List.Forall₂ R xs ys) (hy : y ∈ ys) : ∃ x, R x y := by
  induction h with
  | nil => cases hy
  | cons hr _ ih =>
      rcases List.mem_cons.mp hy with rfl | hy
      · exact ⟨_, hr⟩
      · exact ih hy

theorem controls_endLine (s : List Char) : controls (endLine s) = controls s := by
  unfold endLine
  split
  · rfl
  · exact controls_append_newline s

theorem closeFirstGap_cases (s : List Char) : closeFirstGap s = s ∨
    ∃ a b, s = a ++ '\n' :: '\n' :: b ∧ closeFirstGap s = a ++ '\n' :: b := by
  unfold closeFirstGap Text.replaceFirst
  cases h : Text.splitFirst ['\n', '\n'] s with
  | none => exact .inl rfl
  | some p =>
      obtain ⟨a, b⟩ := p
      exact .inr ⟨a, b, by simpa using Text.append_of_splitFirst h, by simp⟩

theorem controls_closeFirstGap (s : List Char) : controls (closeFirstGap s) = controls s := by
  rcases closeFirstGap_cases s with h | ⟨a, b, hs, h⟩
  · rw [h]
  · rw [h, hs, controls_newline, controls_newline, ← List.nil_append ('\n' :: b),
      controls_newline, controls_nil, List.nil_append]

theorem EndsLine.closeFirstGap {s : List Char} (hs : EndsLine s) :
    EndsLine (closeFirstGap s) := by
  rcases closeFirstGap_cases s with h | ⟨a, b, e, h⟩
  · rwa [h]
  · rw [endsLine_iff, e, lineStart_append] at hs
    rw [h, endsLine_iff, lineStart_append]
    exact hs

/-- What may become of a line when a terminator is taken away: a carriage return at its end may
be lost. -/
def LosesReturn (l l' : List Char) : Prop := l = l' ∨ l = l' ++ ['\r']

theorem isControlLine_congr {l l' : List Char} (h : LosesReturn l l') :
    isControlLine l = true ↔ isControlLine l' = true := by
  rcases h with rfl | rfl
  · rfl
  · cases l' <;> simp [isControlLine, isControl]

theorem lines_append_return (s : List Char) :
    List.Forall₂ LosesReturn (lines (s ++ ['\r'])) (lines s) := by
  induction s with
  | nil => exact .cons (.inr rfl) .nil
  | cons c s ih =>
      rw [List.cons_append, lines_cons, lines_cons]
      split
      · exact .cons (.inl rfl) ih
      · generalize lines (s ++ ['\r']) = xs at ih ⊢
        generalize lines s = ys at ih ⊢
        cases ih with
        | nil => exact .nil
        | cons hl hls =>
            refine .cons ?_ hls
            rcases hl with rfl | rfl
            · exact .inl rfl
            · exact .inr rfl

theorem controls_append_return (s : List Char) :
    List.Forall₂ LosesReturn (controls (s ++ ['\r'])) (controls s) :=
  List.rel_filter (fun _ _ h => isControlLine_congr h) (lines_append_return s)

theorem controls_chomp {s : List Char} (h : s.getLast? = some '\n') :
    List.Forall₂ LosesReturn (controls s) (controls (chomp s)) := by
  obtain ⟨t, rfl⟩ := List.getLast?_eq_some_iff.mp h
  rw [controls_append_newline]
  unfold chomp
  simp only [List.getLast?_append, List.getLast?_singleton, Option.some_or, List.dropLast_concat,
    if_true]
  split
  · next hr =>
    obtain ⟨r, rfl⟩ := List.getLast?_eq_some_iff.mp hr
    rw [List.dropLast_concat]
    exact controls_append_return r
  · exact List.forall₂_same.mpr fun _ _ => .inl rfl

end ManualPages.Roff
