import ManualPages.Proofs.Roff.Token

/-! # Reading roff source

What roff makes of the source of a page: the text that it prints, and the fonts in which it stands.

* `printed`: the text.  `Prints s v e` says of source `s` that it prints `v`, and whether its first
  point is an escape; bold source prints what it holds exactly if that point was bare
  (`PrintsUnless.bold`).
* `Fonts.after`: the font in use, and the one before it.  Roff knows no more than one font to go
  back to, so what stands in a font of its own leaves the font as it was (`Steady`) unless something
  in it stands in a font of its own again: then the font is lost (`Settled`).  `FontsNest s depth`
  counts the fonts that are selected one within another. -/

namespace ManualPages.Roff

/-! ### Printed text -/

/-- The text that source prints.  Marks print nothing, and an escaped backslash, hyphen or point
prints the character. -/
def printed : List Char → List Char
  | [] => []
  | '\\' :: '&' :: s => printed s
  | '\\' :: 'f' :: 'I' :: s => printed s
  | '\\' :: 'f' :: 'B' :: s => printed s
  | '\\' :: 'f' :: 'P' :: s => printed s
  | '\\' :: '\\' :: s => '\\' :: printed s
  | '\\' :: '-' :: s => '-' :: printed s
  | '\\' :: '.' :: s => '.' :: printed s
  | c :: s => c :: printed s

namespace Token

theorem point_mem_printed_iff (t : Token) : '.' ∈ t.printed ↔ '.' ∈ t.text := by
  cases t with
  | font m => cases m <;> decide
  | plain c _ => rfl
  | _ => decide

end Token

theorem printed_text_append (t : Token) (s : List Char) :
    printed (t.text ++ s) = t.printed ++ printed s := by
  cases t with
  | plain c h => simp [Token.text, Token.printed, printed, h.1]
  | font m => cases m <;> rfl
  | _ => rfl

theorem printed_spell (ts : List Token) : printed (spell ts) = ts.flatMap Token.printed := by
  induction ts with
  | nil => rfl
  | cons t ts ih => rw [spell_cons, printed_text_append, ih, List.flatMap_cons]

theorem point_mem_printed_spell_iff (ts : List Token) :
    '.' ∈ ts.flatMap Token.printed ↔ '.' ∈ spell ts := by
  simp only [spell, List.mem_flatMap, Token.point_mem_printed_iff]

/-! ### The first point -/

theorem pointEscaped_cons {t : Token} (h : '.' ∉ t.text) (ts : List Token) :
    pointEscaped (t :: ts) = pointEscaped ts := by
  cases t with
  | point => exact absurd h (by decide)
  | _ => simp only [pointEscaped, if_neg h]

theorem pointEscaped_append (ts us : List Token) : pointEscaped (ts ++ us) =
    if '.' ∈ spell ts then pointEscaped ts else pointEscaped us := by
  induction ts with
  | nil => rfl
  | cons t ts ih =>
      rw [List.cons_append, spell_cons]
      by_cases hp : '.' ∈ t.text
      · rw [if_pos (List.mem_append_left _ hp)]
        rcases eq_of_point_mem_text hp with ⟨_, rfl⟩ | rfl <;> rfl
      · simp only [pointEscaped_cons hp, ih, List.mem_append, hp, false_or]

theorem pointEscaped_of_not_mem {ts : List Token} (h : '.' ∉ spell ts) :
    pointEscaped ts = false := by
  have alone := pointEscaped_append ts []
  rwa [List.append_nil, if_neg h] at alone

/-- The first point is escaped afterwards if it was bare, and bare if it was escaped. -/
theorem pointEscaped_guardPoint {ts : List Token} (h : '.' ∈ spell ts) :
    pointEscaped (guardPoint ts) = !pointEscaped ts := by
  induction ts with
  | nil => cases h
  | cons t ts ih =>
      by_cases hp : '.' ∈ t.text
      · rcases eq_of_point_mem_text hp with ⟨_, rfl⟩ | rfl <;> rfl
      · rw [spell_cons, List.mem_append, or_iff_right hp] at h
        rw [guardPoint_cons hp, pointEscaped_cons hp, pointEscaped_cons hp, ih h]

theorem guardPoint_of_not_mem {ts : List Token} (h : '.' ∉ spell ts) : guardPoint ts = ts := by
  induction ts with
  | nil => rfl
  | cons t ts ih =>
      rw [spell_cons, List.mem_append, not_or] at h
      rw [guardPoint_cons h.1, ih h.2]

theorem printed_guardPoint {ts : List Token} (h : pointEscaped ts = false) :
    (guardPoint ts).flatMap Token.printed = ts.flatMap Token.printed := by
  induction ts with
  | nil => rfl
  | cons t ts ih =>
      by_cases hp : '.' ∈ t.text
      · rcases eq_of_point_mem_text hp with ⟨_, rfl⟩ | rfl
        · rfl
        · cases h
      · rw [pointEscaped_cons hp] at h
        rw [guardPoint_cons hp, List.flatMap_cons, List.flatMap_cons, ih h]

/-- A point that is escaped already is printed with a backslash when it is escaped again. -/
theorem length_printed_guardPoint {ts : List Token} (h : pointEscaped ts = true) :
    ((guardPoint ts).flatMap Token.printed).length = (ts.flatMap Token.printed).length + 1 := by
  induction ts with
  | nil => cases h
  | cons t ts ih =>
      by_cases hp : '.' ∈ t.text
      · rcases eq_of_point_mem_text hp with ⟨_, rfl⟩ | rfl
        · cases h
        · rfl
      · rw [pointEscaped_cons hp] at h
        rw [guardPoint_cons hp, List.flatMap_cons, List.flatMap_cons, List.length_append,
          List.length_append, ih h, Nat.add_assoc]

/-! ### What source prints -/

/-- The source can be read and prints `text`; `escaped` says whether its first point is an
escape. -/
def Prints (s text : List Char) (escaped : Bool) : Prop :=
  ∃ ts, s = spell ts ∧ ts.flatMap Token.printed = text ∧ pointEscaped ts = escaped

theorem Prints.printed_eq {s v : List Char} {e : Bool} (h : Prints s v e) : printed s = v := by
  obtain ⟨ts, rfl, rfl, -⟩ := h
  exact printed_spell ts

theorem prints_nil : Prints [] [] false := ⟨[], rfl, rfl, rfl⟩

/-- The first point of two sources is that of the first one, if it has one. -/
theorem Prints.append {s t v w : List Char} {e f : Bool} (hs : Prints s v e) (ht : Prints t w f) :
    Prints (s ++ t) (v ++ w) (if '.' ∈ v then e else f) := by
  obtain ⟨ts, rfl, rfl, rfl⟩ := hs
  obtain ⟨us, rfl, rfl, rfl⟩ := ht
  refine ⟨ts ++ us, (spell_append ts us).symm, List.flatMap_append, ?_⟩
  simp only [pointEscaped_append, point_mem_printed_spell_iff]

theorem prints_escape (s : List Char) : Prints (escape s) s false := by
  obtain ⟨ts, e, kinds, text⟩ := exists_spell_escape s
  exact ⟨ts, e, text, pointEscaped_eq_false kinds⟩

theorem Prints.between {s v : List Char} {e : Bool} (h : Prints s v e) (m : Mark) :
    Prints ((Token.font m).text ++ (s ++ (Token.font .previous).text)) v e := by
  have opening : Prints (Token.font m).text [] false :=
    ⟨[.font m], (List.append_nil _).symm, rfl, pointEscaped_cons (by cases m <;> decide) []⟩
  have closing : Prints (Token.font .previous).text [] false := ⟨[.font .previous], rfl, rfl, rfl⟩
  have all := opening.append (h.append closing)
  rw [List.append_nil, List.nil_append, if_neg List.not_mem_nil] at all
  split at all
  · exact all
  · next hp =>
    obtain ⟨ts, rfl, rfl, rfl⟩ := h
    rw [point_mem_printed_spell_iff] at hp
    rwa [pointEscaped_of_not_mem hp]

theorem Prints.italic {s v : List Char} {e : Bool} (h : Prints s v e) : Prints (italic s) v e := by
  unfold Roff.italic
  rw [List.append_assoc]
  exact h.between .italic

theorem Prints.bold_of_escapePoint {s v : List Char} {e : Bool} (h : Prints (escapePoint s) v e) :
    Prints (bold s) v e := by
  have mark : Prints zeroWidth [] false := ⟨[.zeroWidth], rfl, rfl, rfl⟩
  rw [bold_eq, List.append_assoc]
  have all := mark.append (h.between .bold)
  rwa [List.nil_append, if_neg List.not_mem_nil] at all

/-- Bold source whose first point is bare prints what it holds, and the point is an escape then. -/
theorem Prints.bold {s v : List Char} (h : Prints s v false) :
    Prints (bold s) v (decide ('.' ∈ v)) := by
  refine Prints.bold_of_escapePoint ?_
  obtain ⟨ts, rfl, rfl, bare⟩ := h
  refine ⟨guardPoint ts, escapePoint_spell ts, printed_guardPoint bare, ?_⟩
  rw [Bool.eq_iff_iff, decide_eq_true_eq, point_mem_printed_spell_iff]
  by_cases hp : '.' ∈ spell ts
  · rw [pointEscaped_guardPoint hp, bare]
    exact iff_of_true rfl hp
  · rw [guardPoint_of_not_mem hp, bare]
    exact iff_of_false Bool.false_ne_true hp

/-- Bold source whose first point is escaped already prints a backslash more. -/
theorem Prints.bold_of_escaped {s v : List Char} (h : Prints s v true) :
    ∃ w e, Prints (Roff.bold s) w e ∧ w.length = v.length + 1 := by
  obtain ⟨ts, rfl, rfl, escaped⟩ := h
  exact ⟨_, _, Prints.bold_of_escapePoint ⟨guardPoint ts, escapePoint_spell ts, rfl, rfl⟩,
    length_printed_guardPoint escaped⟩

theorem Prints.exists_bold {s v : List Char} {e : Bool} (h : Prints s v e) :
    ∃ w f, Prints (Roff.bold s) w f ∧ v.length ≤ w.length := by
  cases e with
  | false => exact ⟨v, _, h.bold, Nat.le_refl _⟩
  | true =>
      obtain ⟨w, f, hw, length⟩ := h.bold_of_escaped
      exact ⟨w, f, hw, by omega⟩

/-- The source prints `text`, unless `longer` holds: then it prints more characters than that. -/
def PrintsUnless (longer : Prop) (s text : List Char) (escaped : Bool) : Prop :=
  (¬ longer → Prints s text escaped) ∧
    (longer → ∃ w e, Prints s w e ∧ text.length < w.length)

theorem Prints.unless {s v : List Char} {e : Bool} (h : Prints s v e) {longer : Prop}
    (never : ¬ longer) : PrintsUnless longer s v e :=
  ⟨fun _ => h, fun l => absurd l never⟩

theorem PrintsUnless.exists_prints {longer : Prop} {s v : List Char} {e : Bool}
    (h : PrintsUnless longer s v e) : ∃ w f, Prints s w f ∧ v.length ≤ w.length := by
  by_cases l : longer
  · obtain ⟨w, f, hw, more⟩ := h.2 l
    exact ⟨w, f, hw, by omega⟩
  · exact ⟨v, e, h.1 l, Nat.le_refl _⟩

theorem PrintsUnless.append {longer longer' : Prop} {s t v w : List Char} {e f : Bool}
    (hs : PrintsUnless longer s v e) (ht : PrintsUnless longer' t w f) :
    PrintsUnless (longer ∨ longer') (s ++ t) (v ++ w) (if '.' ∈ v then e else f) := by
  constructor
  · intro never
    obtain ⟨l, l'⟩ := not_or.mp never
    exact (hs.1 l).append (ht.1 l')
  · rintro (l | l')
    · obtain ⟨x, _, hx, more⟩ := hs.2 l
      obtain ⟨y, _, hy, least⟩ := ht.exists_prints
      refine ⟨x ++ y, _, hx.append hy, ?_⟩
      rw [List.length_append, List.length_append]
      omega
    · obtain ⟨x, _, hx, least⟩ := hs.exists_prints
      obtain ⟨y, _, hy, more⟩ := ht.2 l'
      refine ⟨x ++ y, _, hx.append hy, ?_⟩
      rw [List.length_append, List.length_append]
      omega

theorem PrintsUnless.italic {longer : Prop} {s v : List Char} {e : Bool}
    (h : PrintsUnless longer s v e) : PrintsUnless longer (Roff.italic s) v e := by
  refine ⟨fun never => (h.1 never).italic, fun l => ?_⟩
  obtain ⟨w, f, hw, more⟩ := h.2 l
  exact ⟨w, f, hw.italic, more⟩

/-- Bold source prints more if what it holds does, or if the first point is escaped already. -/
theorem PrintsUnless.bold {longer : Prop} {s v : List Char} {e : Bool}
    (h : PrintsUnless longer s v e) :
    PrintsUnless (longer ∨ e = true) (Roff.bold s) v (decide ('.' ∈ v)) := by
  constructor
  · intro never
    obtain ⟨l, bare⟩ := not_or.mp never
    have inside := h.1 l
    rw [Bool.not_eq_true] at bare
    rw [bare] at inside
    exact inside.bold
  · intro some
    by_cases l : longer
    · obtain ⟨w, f, hw, more⟩ := h.2 l
      obtain ⟨x, g, hx, least⟩ := hw.exists_bold
      exact ⟨x, g, hx, by omega⟩
    · have inside := h.1 l
      rw [some.resolve_left l] at inside
      obtain ⟨w, f, hw, length⟩ := inside.bold_of_escaped
      exact ⟨w, f, hw, by omega⟩

/-! ### Fonts -/

/-- A font: the two that a page selects, or another one by its name. -/
inductive Font where
  | italic
  | bold
  | other (name : String)
deriving DecidableEq, Repr

/-- The font in use, and the one before it. -/
structure Fonts where
  current : Font
  previous : Font
deriving DecidableEq, Repr

namespace Fonts

def select (f : Fonts) (font : Font) : Fonts := ⟨font, f.current⟩

/-- Go back to the font before; the one in use is the font before then. -/
def back (f : Fonts) : Fonts := ⟨f.previous, f.current⟩

/-- The fonts when source has been read.  What stands behind any other backslash is no mark. -/
def after (f : Fonts) : List Char → Fonts
  | [] => f
  | '\\' :: 'f' :: 'I' :: s => (f.select .italic).after s
  | '\\' :: 'f' :: 'B' :: s => (f.select .bold).after s
  | '\\' :: 'f' :: 'P' :: s => f.back.after s
  | '\\' :: _ :: s => f.after s
  | _ :: s => f.after s

def apply (f : Fonts) : Mark → Fonts
  | .italic => f.select .italic
  | .bold => f.select .bold
  | .previous => f.back

theorem after_spell (ts : List Token) (f : Fonts) :
    f.after (spell ts) = (fonts ts).foldl apply f := by
  induction ts generalizing f with
  | nil => rfl
  | cons t ts ih =>
      cases t with
      | plain c h =>
          have skip : f.after (c :: spell ts) = f.after (spell ts) := by simp [after, h.1]
          exact skip.trans (ih f)
      | font m => cases m <;> exact ih _
      | _ => exact ih f

end Fonts

/-- The marks leave the font in use as it was. -/
def Steady (marks : List Mark) : Prop :=
  ∀ f : Fonts, (marks.foldl Fonts.apply f).current = f.current

/-- After the marks the fonts are the same, whatever they were before. -/
def Settled (marks : List Mark) : Prop :=
  ∃ g, ∀ f : Fonts, marks.foldl Fonts.apply f = g

theorem steady_nil : Steady [] := fun _ => rfl

theorem Steady.append {u w : List Mark} (hu : Steady u) (hw : Steady w) : Steady (u ++ w) := by
  intro f
  rw [List.foldl_append, hw, hu]

theorem Settled.append_left {u : List Mark} (hu : Settled u) (w : List Mark) :
    Settled (u ++ w) := by
  obtain ⟨g, hg⟩ := hu
  exact ⟨w.foldl Fonts.apply g, fun f => by rw [List.foldl_append, hg]⟩

theorem Settled.append_right {w : List Mark} (u : List Mark) (hw : Settled w) :
    Settled (u ++ w) := by
  obtain ⟨g, hg⟩ := hw
  exact ⟨g, fun f => by rw [List.foldl_append, hg]⟩

theorem steady_pair {m : Mark} (hm : m ≠ .previous) : Steady [m, .previous] := by
  intro f
  cases m with
  | previous => exact absurd rfl hm
  | _ => rfl

/-- When two fonts have been selected one after the other, both that were known are forgotten. -/
theorem settled_pair {m n : Mark} (hm : m ≠ .previous) (hn : n ≠ .previous) : Settled [m, n] := by
  cases m with
  | previous => exact absurd rfl hm
  | italic =>
      cases n with
      | previous => exact absurd rfl hn
      | italic => exact ⟨⟨.italic, .italic⟩, fun _ => rfl⟩
      | bold => exact ⟨⟨.bold, .italic⟩, fun _ => rfl⟩
  | bold =>
      cases n with
      | previous => exact absurd rfl hn
      | italic => exact ⟨⟨.italic, .bold⟩, fun _ => rfl⟩
      | bold => exact ⟨⟨.bold, .bold⟩, fun _ => rfl⟩

/-- Where the fonts are the same in the end, the font in use was lost for some font. -/
theorem Settled.not_steady {w : List Mark} (h : Settled w) : ¬ Steady w := by
  obtain ⟨g, hg⟩ := h
  intro steady
  have italic := steady ⟨.italic, .italic⟩
  have bold := steady ⟨.bold, .bold⟩
  rw [hg] at italic bold
  rw [italic] at bold
  cases bold

theorem Balanced.exists_cons {w : List Mark} (h : Balanced w) (hw : w ≠ []) :
    ∃ m rest, w = m :: rest ∧ m ≠ .previous := by
  cases h with
  | nil => exact absurd rfl hw
  | span selects _ _ => exact ⟨_, _, rfl, selects⟩

/-- Marks that are balanced and select fonts one within another, `depth` of them at most. -/
structure Nested (w : List Mark) (depth : ℕ) : Prop where
  balanced : Balanced w
  depth_eq_zero_iff : depth = 0 ↔ w = []
  steady : depth ≤ 1 → Steady w
  settled : 1 < depth → Settled w

theorem nested_nil : Nested [] 0 := ⟨.nil, by simp, fun _ => steady_nil, fun h => by omega⟩

theorem Nested.append {u w : List Mark} {d e : ℕ} (hu : Nested u d) (hw : Nested w e) :
    Nested (u ++ w) (max d e) where
  balanced := hu.balanced.append hw.balanced
  depth_eq_zero_iff := by
    rw [List.append_eq_nil_iff, ← hu.depth_eq_zero_iff, ← hw.depth_eq_zero_iff]
    omega
  steady h := (hu.steady (by omega)).append (hw.steady (by omega))
  settled h := by
    rcases Nat.lt_or_ge 1 d with hd | hd
    · exact (hu.settled hd).append_left w
    · exact (hw.settled (by omega)).append_right u

/-- Marks within a font of their own: the font around them is lost if there are any. -/
theorem Nested.within {w : List Mark} {d : ℕ} (h : Nested w d) {m : Mark} (hm : m ≠ .previous) :
    Nested (m :: (w ++ [.previous])) (d + 1) where
  balanced := .span hm h.balanced .nil
  depth_eq_zero_iff := by simp
  steady flat := by
    have empty : w = [] := h.depth_eq_zero_iff.mp (by omega)
    rw [empty]
    exact steady_pair hm
  settled deep := by
    have marks : w ≠ [] := by
      rw [Ne, ← h.depth_eq_zero_iff]
      omega
    obtain ⟨n, rest, rfl, hn⟩ := h.balanced.exists_cons marks
    exact (settled_pair hm hn).append_left (rest ++ [.previous])

/-- The source can be read; it selects fonts one within another, `depth` of them at most. -/
def FontsNest (s : List Char) (depth : ℕ) : Prop := ∃ ts, s = spell ts ∧ Nested (fonts ts) depth

theorem fontsNest_nil : FontsNest [] 0 := ⟨[], rfl, nested_nil⟩

theorem fontsNest_escape (s : List Char) : FontsNest (escape s) 0 := by
  obtain ⟨ts, e, kinds, -⟩ := exists_spell_escape s
  refine ⟨ts, e, ?_⟩
  rw [fonts_eq_nil kinds]
  exact nested_nil

theorem FontsNest.append {s t : List Char} {d e : ℕ} (hs : FontsNest s d) (ht : FontsNest t e) :
    FontsNest (s ++ t) (max d e) := by
  obtain ⟨ts, rfl, nestedS⟩ := hs
  obtain ⟨us, rfl, nestedT⟩ := ht
  refine ⟨ts ++ us, (spell_append ts us).symm, ?_⟩
  rw [fonts_append]
  exact nestedS.append nestedT

theorem FontsNest.of_append {p s : List Char} {d : ℕ} (hp : '\\' ∉ p) (h : FontsNest (p ++ s) d) :
    FontsNest s d := by
  obtain ⟨ts, e, nested⟩ := h
  obtain ⟨us, rfl, same⟩ := exists_spell_of_append hp e.symm
  refine ⟨us, rfl, ?_⟩
  rwa [same]

theorem FontsNest.between {s : List Char} {d : ℕ} (h : FontsNest s d) {m : Mark}
    (hm : m ≠ .previous) :
    FontsNest ((Token.font m).text ++ (s ++ (Token.font .previous).text)) (d + 1) := by
  obtain ⟨ts, rfl, nested⟩ := h
  refine ⟨.font m :: (ts ++ [.font .previous]), ?_, ?_⟩
  · rw [spell_cons, spell_append]
    rfl
  · rw [fonts_cons, fonts_append]
    exact nested.within hm

theorem FontsNest.italic {s : List Char} {d : ℕ} (h : FontsNest s d) :
    FontsNest (italic s) (d + 1) := by
  unfold Roff.italic
  rw [List.append_assoc]
  exact h.between (m := .italic) (by decide)

theorem FontsNest.bold {s : List Char} {d : ℕ} (h : FontsNest s d) :
    FontsNest (bold s) (d + 1) := by
  obtain ⟨ts, rfl, nested⟩ := h
  have guarded : FontsNest (escapePoint (spell ts)) d := by
    refine ⟨guardPoint ts, escapePoint_spell ts, ?_⟩
    rwa [fonts_guardPoint]
  have mark : FontsNest zeroWidth 0 := ⟨[.zeroWidth], rfl, nested_nil⟩
  have all := mark.append (guarded.between (m := .bold) (by decide))
  rw [Nat.zero_max] at all
  rw [bold_eq, List.append_assoc]
  exact all

/-- The font in use is kept, from all fonts, exactly if none is selected within another. -/
theorem FontsNest.current_after_iff {s : List Char} {d : ℕ} (h : FontsNest s d) :
    (∀ f : Fonts, (f.after s).current = f.current) ↔ d ≤ 1 := by
  obtain ⟨ts, rfl, nested⟩ := h
  simp only [Fonts.after_spell]
  constructor
  · intro steady
    by_contra deep
    exact (nested.settled (by omega)).not_steady steady
  · exact nested.steady

theorem FontsNest.exists_after_eq {s : List Char} {d : ℕ} (h : FontsNest s d) (deep : 1 < d) :
    ∃ g, ∀ f : Fonts, f.after s = g := by
  obtain ⟨ts, rfl, nested⟩ := h
  simp only [Fonts.after_spell]
  exact nested.settled deep

end ManualPages.Roff
