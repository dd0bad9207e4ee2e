import ManualPages.Proofs.Roff.Font
import ManualPages.Proofs.Roff.Lines

/-! # Tokens of roff source

The source of a page consists of plain characters and eight escapes.  `read?` reads it from left to
right and fails where a backslash begins anything else or a hyphen stands unescaped; the tokens that
it reads spell the source again (`read?_eq_some_iff`).

* `Balanced`: every mark that selects a font is closed by a mark of its own.
* `WellFormed`: the source can be read, and its font marks are balanced.
* Source is edited after it was made.  `escapePoint`, the loss of a prefix, `closeFirstGap` and
  `chomp` cut between tokens and touch no font mark, so the result is well-formed again. -/

namespace ManualPages.Roff

/-- A mark that sets the font: italic or bold, or the one before. -/
inductive Mark where
  | italic
  | bold
  | previous
deriving DecidableEq, Repr

/-- A character that stands for itself, or an escape. -/
inductive Token where
  | plain (c : Char) (ordinary : c ≠ '\\' ∧ c ≠ '-')
  | backslash
  | hyphen
  | zeroWidth
  | point
  | bullet
  | font (m : Mark)

namespace Token

def text : Token → List Char
  | plain c _ => [c]
  | backslash => ['\\', '\\']
  | hyphen => ['\\', '-']
  | zeroWidth => ['\\', '&']
  | point => ['\\', '.']
  | bullet => ['\\', '(', 'b', 'u']
  | font .italic => ['\\', 'f', 'I']
  | font .bold => ['\\', 'f', 'B']
  | font .previous => ['\\', 'f', 'P']

def mark? : Token → Option Mark
  | font m => some m
  | _ => none

/-- The text that a token prints.  The name of a glyph stays as it is written. -/
def printed : Token → List Char
  | plain c _ => [c]
  | backslash => ['\\']
  | hyphen => ['-']
  | point => ['.']
  | bullet => bullet.text
  | zeroWidth => []
  | font _ => []

/-- Is the token of a kind that escaped text is made of? -/
def ofText : Token → Bool
  | plain _ _ => true
  | backslash => true
  | hyphen => true
  | zeroWidth => true
  | _ => false

end Token

/-- The source that tokens stand for. -/
def spell (ts : List Token) : List Char := ts.flatMap Token.text

/-- The font marks among tokens, in order. -/
def fonts (ts : List Token) : List Mark := ts.filterMap Token.mark?

/-- Is the first point among the tokens an escape? -/
def pointEscaped : List Token → Bool
  | [] => false
  | .point :: _ => true
  | t :: ts => if '.' ∈ t.text then false else pointEscaped ts

/-- Read source from left to right. -/
def read? : List Char → Option (List Token)
  | [] => some []
  | '\\' :: '\\' :: s => (read? s).map (.backslash :: ·)
  | '\\' :: '-' :: s => (read? s).map (.hyphen :: ·)
  | '\\' :: '&' :: s => (read? s).map (.zeroWidth :: ·)
  | '\\' :: '.' :: s => (read? s).map (.point :: ·)
  | '\\' :: '(' :: 'b' :: 'u' :: s => (read? s).map (.bullet :: ·)
  | '\\' :: 'f' :: 'I' :: s => (read? s).map (.font .italic :: ·)
  | '\\' :: 'f' :: 'B' :: s => (read? s).map (.font .bold :: ·)
  | '\\' :: 'f' :: 'P' :: s => (read? s).map (.font .previous :: ·)
  | c :: s => if h : c ≠ '\\' ∧ c ≠ '-' then (read? s).map (.plain c h :: ·) else none

/-- Every mark that selects a font is closed by a mark of its own. -/
inductive Balanced : List Mark → Prop
  | nil : Balanced []
  | span {m : Mark} {u w : List Mark} (selects : m ≠ .previous) (inside : Balanced u)
      (behind : Balanced w) : Balanced (m :: (u ++ .previous :: w))

/-- The source can be read, and its font marks are balanced. -/
def WellFormed (s : List Char) : Prop := ∃ ts, read? s = some ts ∧ Balanced (fonts ts)

/-! ### Reading what tokens spell -/

theorem spell_cons (t : Token) (ts : List Token) : spell (t :: ts) = t.text ++ spell ts := rfl

theorem spell_append (ts us : List Token) : spell (ts ++ us) = spell ts ++ spell us :=
  List.flatMap_append

theorem read?_text_append (t : Token) (s : List Char) :
    read? (t.text ++ s) = (read? s).map (t :: ·) := by
  cases t with
  | plain c h => simp [Token.text, read?, h]
  | font m => cases m <;> rfl
  | _ => rfl

theorem read?_spell (ts : List Token) : read? (spell ts) = some ts := by
  induction ts with
  | nil => rfl
  | cons t ts ih =>
      rw [spell_cons, read?_text_append, ih]
      rfl

/-- What is read spells the source. -/
theorem read?_eq_some_iff {s : List Char} {ts : List Token} :
    read? s = some ts ↔ s = spell ts := by
  constructor
  · intro h
    induction s using read?.induct generalizing ts with
    | case1 =>
        cases h
        rfl
    | case10 c s _ _ _ _ _ _ _ _ hc ih =>
        simp only [read?, dif_pos hc] at h
        obtain ⟨us, hu, rfl⟩ := Option.map_eq_some_iff.mp h
        rw [ih hu]
        rfl
    | case11 c s _ _ _ _ _ _ _ _ hc => simp [read?, hc] at h
    | _ s ih =>
        simp only [read?] at h
        obtain ⟨us, hu, rfl⟩ := Option.map_eq_some_iff.mp h
        rw [ih hu]
        rfl
  · rintro rfl
    exact read?_spell ts

theorem wellFormed_iff {s : List Char} :
    WellFormed s ↔ ∃ ts, s = spell ts ∧ Balanced (fonts ts) := by
  unfold WellFormed
  simp only [read?_eq_some_iff]

/-! ### Making well-formed source -/

theorem fonts_append (ts us : List Token) : fonts (ts ++ us) = fonts ts ++ fonts us :=
  List.filterMap_append

theorem fonts_cons (t : Token) (ts : List Token) : fonts (t :: ts) = fonts [t] ++ fonts ts :=
  fonts_append [t] ts

theorem Balanced.append {u w : List Mark} (hu : Balanced u) (hw : Balanced w) :
    Balanced (u ++ w) := by
  induction hu with
  | nil => exact hw
  | span selects inside _ _ ih =>
      rw [List.cons_append, List.append_assoc, List.cons_append]
      exact .span selects inside ih

theorem wellFormed_nil : WellFormed [] := ⟨[], rfl, .nil⟩

theorem WellFormed.append {s t : List Char} (hs : WellFormed s) (ht : WellFormed t) :
    WellFormed (s ++ t) := by
  rw [wellFormed_iff] at hs ht ⊢
  obtain ⟨ts, rfl, bs⟩ := hs
  obtain ⟨us, rfl, bt⟩ := ht
  refine ⟨ts ++ us, (spell_append ts us).symm, ?_⟩
  rw [fonts_append]
  exact bs.append bt

theorem WellFormed.flatten {texts : List (List Char)} (h : ∀ t ∈ texts, WellFormed t) :
    WellFormed texts.flatten := by
  induction texts with
  | nil => exact wellFormed_nil
  | cons t ts ih => exact (h t (by simp)).append (ih fun u hu => h u (by simp [hu]))

theorem WellFormed.join {sep : List Char} {texts : List (List Char)} (hsep : WellFormed sep)
    (h : ∀ t ∈ texts, WellFormed t) : WellFormed (Text.join sep texts) := by
  induction texts with
  | nil => exact wellFormed_nil
  | cons t ts ih =>
      have ih' := ih fun u hu => h u (by simp [hu])
      cases ts with
      | nil => exact h t (by simp)
      | cons t' r =>
          rw [Text.join_cons_cons]
          exact ((h t (by simp)).append hsep).append ih'

theorem wellFormed_text {t : Token} (h : t.mark? = none) : WellFormed t.text := by
  rw [wellFormed_iff]
  refine ⟨[t], (List.append_nil _).symm, ?_⟩
  rw [fonts, List.filterMap_cons_none h]
  exact .nil

theorem wellFormed_of_ordinary {s : List Char} (h : '\\' ∉ s ∧ '-' ∉ s) : WellFormed s := by
  induction s with
  | nil => exact wellFormed_nil
  | cons c s ih =>
      simp only [List.mem_cons, not_or] at h
      have ordinary : c ≠ '\\' ∧ c ≠ '-' := ⟨Ne.symm h.1.1, Ne.symm h.2.1⟩
      have hc : WellFormed [c] := wellFormed_text (t := .plain c ordinary) rfl
      exact hc.append (ih ⟨h.1.2, h.2.2⟩)

theorem fonts_eq_nil {ts : List Token} (h : ∀ t ∈ ts, t.ofText = true) : fonts ts = [] := by
  refine List.filterMap_eq_nil_iff.mpr fun t ht => ?_
  have kind := h t ht
  cases t with
  | font m => cases kind
  | _ => rfl

theorem pointEscaped_eq_false {ts : List Token} (h : ∀ t ∈ ts, t.ofText = true) :
    pointEscaped ts = false := by
  induction ts with
  | nil => rfl
  | cons t ts ih =>
      have rest := ih fun u hu => h u (List.mem_cons_of_mem t hu)
      have kind := h t (List.mem_cons_self ..)
      cases t with
      | point => cases kind
      | _ => simp [pointEscaped, rest]

/-- Guarded text is made of ordinary characters and three escapes, which print the text. -/
theorem exists_spell_guardAll (b : Bool) (s : List Char) : ∃ ts, guardAll b s = spell ts ∧
    (∀ t ∈ ts, t.ofText = true) ∧ ts.flatMap Token.printed = s := by
  induction s generalizing b with
  | nil => exact ⟨[], rfl, by simp, rfl⟩
  | cons c s ih =>
      obtain ⟨us, hu, kinds, text⟩ := ih (c == '\n')
      have kinds_cons : ∀ t : Token, t.ofText = true → ∀ u ∈ t :: us, u.ofText = true :=
        fun t ht => List.forall_mem_cons.mpr ⟨ht, kinds⟩
      rw [guardAll, hu]
      unfold guard
      split
      · next h =>
        rcases h with rfl | rfl
        · exact ⟨.backslash :: us, rfl, kinds_cons _ rfl, congrArg ('\\' :: ·) text⟩
        · exact ⟨.hyphen :: us, rfl, kinds_cons _ rfl, congrArg ('-' :: ·) text⟩
      · next h =>
        have plain := kinds_cons (.plain c (not_or.mp h)) rfl
        split
        · exact ⟨.zeroWidth :: .plain c (not_or.mp h) :: us, rfl,
            List.forall_mem_cons.mpr ⟨rfl, plain⟩, congrArg (c :: ·) text⟩
        · exact ⟨.plain c (not_or.mp h) :: us, rfl, plain, congrArg (c :: ·) text⟩

theorem exists_spell_escape (s : List Char) : ∃ ts, escape s = spell ts ∧
    (∀ t ∈ ts, t.ofText = true) ∧ ts.flatMap Token.printed = s := by
  rw [escape_eq_guardAll]
  exact exists_spell_guardAll true s

theorem wellFormed_escape (s : List Char) : WellFormed (escape s) := by
  rw [wellFormed_iff]
  obtain ⟨ts, e, kinds, -⟩ := exists_spell_escape s
  refine ⟨ts, e, ?_⟩
  rw [fonts_eq_nil kinds]
  exact .nil

theorem WellFormed.set_font {s : List Char} (hs : WellFormed s) {m : Mark} (hm : m ≠ .previous) :
    WellFormed ((Token.font m).text ++ (s ++ (Token.font .previous).text)) := by
  rw [wellFormed_iff] at hs ⊢
  obtain ⟨ts, rfl, bs⟩ := hs
  refine ⟨.font m :: (ts ++ [.font .previous]), ?_, ?_⟩
  · rw [spell_cons, spell_append]
    rfl
  · rw [fonts_cons, fonts_append]
    exact .span hm bs .nil

/-! ### Editing well-formed source -/

/-- Tokens with the first point escaped.  The point is a token, or the end of one that is an escape
already: then the new backslash and that of the escape are read together, and the point is bare. -/
def guardPoint : List Token → List Token
  | [] => []
  | .point :: ts => .backslash :: .plain '.' (by decide) :: ts
  | .plain c h :: ts => if c = '.' then .point :: ts else .plain c h :: guardPoint ts
  | t :: ts => t :: guardPoint ts

theorem guardPoint_cons {t : Token} (h : '.' ∉ t.text) (ts : List Token) :
    guardPoint (t :: ts) = t :: guardPoint ts := by
  cases t with
  | plain c _ =>
      have other : c ≠ '.' := by
        rintro rfl
        exact h (by simp [Token.text])
      rw [guardPoint, if_neg other]
  | point => exact absurd h (by decide)
  | _ => rfl

theorem eq_of_point_mem_text {t : Token} (h : '.' ∈ t.text) :
    (∃ ordinary, t = .plain '.' ordinary) ∨ t = .point := by
  cases t with
  | plain c ordinary =>
      obtain rfl : '.' = c := by simpa [Token.text] using h
      exact .inl ⟨ordinary, rfl⟩
  | point => exact .inr rfl
  | font m => cases m <;> exact absurd h (by decide)
  | _ => exact absurd h (by decide)

theorem escapePoint_spell (ts : List Token) : escapePoint (spell ts) = spell (guardPoint ts) := by
  induction ts with
  | nil => rfl
  | cons t ts ih =>
      by_cases hp : '.' ∈ t.text
      · rcases eq_of_point_mem_text hp with ⟨_, rfl⟩ | rfl <;> rfl
      · rw [guardPoint_cons hp, spell_cons, escapePoint_append_of_not_mem hp, ih, spell_cons]

theorem fonts_guardPoint (ts : List Token) : fonts (guardPoint ts) = fonts ts := by
  induction ts with
  | nil => rfl
  | cons t ts ih =>
      by_cases hp : '.' ∈ t.text
      · rcases eq_of_point_mem_text hp with ⟨_, rfl⟩ | rfl <;> rfl
      · rw [guardPoint_cons hp, fonts_cons, ih, ← fonts_cons]

theorem WellFormed.escapePoint {s : List Char} (hs : WellFormed s) :
    WellFormed (escapePoint s) := by
  rw [wellFormed_iff] at hs ⊢
  obtain ⟨ts, rfl, bs⟩ := hs
  exact ⟨guardPoint ts, escapePoint_spell ts, by rwa [fonts_guardPoint]⟩

theorem WellFormed.italic {s : List Char} (hs : WellFormed s) : WellFormed (italic s) := by
  unfold Roff.italic
  rw [List.append_assoc]
  exact hs.set_font (m := .italic) (by decide)

theorem WellFormed.bold {s : List Char} (hs : WellFormed s) : WellFormed (bold s) := by
  rw [bold_eq, List.append_assoc]
  exact (wellFormed_text (t := .zeroWidth) rfl).append
    (hs.escapePoint.set_font (m := .bold) (by decide))

/-- Characters at the front that are no backslashes are tokens that set no font. -/
theorem exists_spell_of_append {p s : List Char} (hp : '\\' ∉ p) {ts : List Token}
    (h : spell ts = p ++ s) : ∃ us, spell us = s ∧ fonts us = fonts ts := by
  induction p generalizing ts with
  | nil => exact ⟨ts, h, rfl⟩
  | cons c p ih =>
      simp only [List.mem_cons, not_or] at hp
      cases ts with
      | nil => cases h
      | cons t ts =>
          cases t with
          | plain x _ =>
              have rest : spell ts = p ++ s := (List.cons.inj h).2
              obtain ⟨us, hu, hf⟩ := ih hp.2 rest
              exact ⟨us, hu, hf⟩
          | font m => cases m <;> exact absurd (List.cons.inj h).1 hp.1
          | _ => exact absurd (List.cons.inj h).1 hp.1

theorem WellFormed.of_append {p s : List Char} (hp : '\\' ∉ p) (h : WellFormed (p ++ s)) :
    WellFormed s := by
  rw [wellFormed_iff] at h ⊢
  obtain ⟨ts, e, bs⟩ := h
  obtain ⟨us, hu, hf⟩ := exists_spell_of_append hp e.symm
  exact ⟨us, hu.symm, by rwa [hf]⟩

/-- The characters that the escapes are written with. -/
def escapeAlphabet : List Char := "\\-&.(bufIBP".toList

theorem text_eq_of_mem {t : Token} {c : Char} (hc : c ∉ escapeAlphabet) (h : c ∈ t.text) :
    t.text = [c] := by
  have within : ∀ s : List Char, s ⊆ escapeAlphabet → c ∉ s := fun s hs hm => hc (hs hm)
  cases t with
  | plain x _ =>
      rw [List.mem_singleton.mp h]
      rfl
  | font m => cases m <;> exact absurd h (within _ (by decide))
  | _ => exact absurd h (within _ (by decide))

theorem fonts_of_text_eq_singleton {t : Token} {c : Char} (h : t.text = [c]) (ts : List Token) :
    fonts (t :: ts) = fonts ts := by
  cases t with
  | font m => cases m <;> cases h
  | _ => rfl

theorem exists_token_of_spell {ts : List Token} {u v : List Char} {c : Char}
    (h : spell ts = u ++ c :: v) : ∃ before t after p q, ts = before ++ t :: after ∧
      u = spell before ++ p ∧ t.text = p ++ c :: q ∧ v = q ++ spell after := by
  induction ts generalizing u with
  | nil => simp [spell] at h
  | cons t ts ih =>
      rw [spell_cons] at h
      rcases List.append_eq_append_iff.mp h with ⟨u', rfl, e⟩ | ⟨q, e, e'⟩
      · obtain ⟨before, t', after, p, q, rfl, rfl, et, rfl⟩ := ih e
        exact ⟨t :: before, t', after, p, q, rfl, (List.append_assoc _ _ _).symm, et, rfl⟩
      · rcases q with _ | ⟨x, q⟩
        · obtain ⟨before, t', after, p, q, rfl, hp, et, rfl⟩ := ih (u := []) e'.symm
          refine ⟨t :: before, t', after, p, q, rfl, ?_, et, rfl⟩
          rw [spell_cons, List.append_assoc, ← hp, e, List.append_nil, List.append_nil]
        · obtain ⟨rfl, rfl⟩ := List.cons.inj e'
          exact ⟨[], t, ts, u, q, rfl, rfl, e, rfl⟩

/-- A character that occurs in no escape is a token wherever it stands. -/
theorem exists_split_of_spell {c : Char} (hc : c ∉ escapeAlphabet)
    {ts : List Token} {a b : List Char} (h : spell ts = a ++ c :: b) :
    ∃ us vs, spell us = a ∧ spell vs = b ∧ fonts ts = fonts us ++ fonts vs := by
  obtain ⟨us, t, vs, p, q, rfl, rfl, e, rfl⟩ := exists_token_of_spell h
  have ht : t.text = [c] := text_eq_of_mem hc (by rw [e]; simp)
  rw [ht] at e
  obtain ⟨rfl, rfl⟩ : p = [] ∧ q = [] := by
    simpa using List.append_eq_singleton_iff.mp e.symm
  refine ⟨us, vs, (List.append_nil _).symm, rfl, ?_⟩
  rw [fonts_append, fonts_of_text_eq_singleton ht]

theorem WellFormed.remove {c : Char} (hc : c ∉ escapeAlphabet)
    {a b : List Char} (h : WellFormed (a ++ c :: b)) : WellFormed (a ++ b) := by
  rw [wellFormed_iff] at h ⊢
  obtain ⟨ts, e, bs⟩ := h
  obtain ⟨us, vs, rfl, rfl, hf⟩ := exists_split_of_spell hc e.symm
  refine ⟨us ++ vs, (spell_append us vs).symm, ?_⟩
  rwa [fonts_append, ← hf]

theorem WellFormed.closeFirstGap {s : List Char} (hs : WellFormed s) :
    WellFormed (closeFirstGap s) := by
  rcases closeFirstGap_cases s with h | ⟨a, b, rfl, h⟩
  · rwa [h]
  · rw [h]
    exact hs.remove (by decide)

theorem WellFormed.endLine {s : List Char} (hs : WellFormed s) : WellFormed (endLine s) := by
  unfold Roff.endLine
  split
  · exact hs
  · exact hs.append (wellFormed_of_ordinary (by decide))

theorem WellFormed.dropLast {c : Char} (hc : c ∉ escapeAlphabet)
    {s : List Char} (hs : WellFormed s) (h : s.getLast? = some c) : WellFormed s.dropLast := by
  obtain ⟨t, rfl⟩ := List.getLast?_eq_some_iff.mp h
  rw [List.dropLast_concat, ← List.append_nil t]
  exact hs.remove hc

theorem WellFormed.chomp {s : List Char} (hs : WellFormed s) : WellFormed (chomp s) := by
  have ht : WellFormed (if s.getLast? = some '\n' then s.dropLast else s) := by
    split
    · next h => exact hs.dropLast (by decide) h
    · exact hs
  unfold Roff.chomp
  generalize (if s.getLast? = some '\n' then s.dropLast else s) = t at ht ⊢
  simp only
  split
  · next h => exact ht.dropLast (by decide) h
  · exact ht

end ManualPages.Roff
