import ManualPages.Proofs.Roff.Token
import ManualPages.Proofs.Roff.Unescape

/-! # What escaped text consists of

Escaped text can be read from left to right, and every backslash and hyphen in it belongs to one of
three escapes: the mark that prints nothing, the escaped backslash, and the escaped hyphen.

* `LiesIn s u t p`: the place behind `u` in the source `s` is in the token `t`, behind its part `p`.
* `exists_liesIn_escape`: the tokens of escaped text are ordinary characters and the three escapes.
* `unescape_escape_and_liesIn`: escaping loses nothing, begins no line with a control character, and
  leaves no backslash and no hyphen alone. -/

namespace ManualPages.Roff

/-- Read from left to right, the source `s` has a token `t` around the place behind `u`, and `p` is
the part of it in front of that place. -/
def LiesIn (s u : List Char) (t : Token) (p : List Char) : Prop :=
  ∃ before after q, read? s = some (before ++ t :: after) ∧ u = spell before ++ p ∧
    t.text = p ++ q ∧ q ≠ []

/-- A character of escaped text stands in a token of a kind that escaped text is made of. -/
theorem exists_liesIn_escape {s u v : List Char} {c : Char} (h : escape s = u ++ c :: v) :
    ∃ t p q, LiesIn (escape s) u t p ∧ t.text = p ++ c :: q ∧ t.ofText = true := by
  obtain ⟨ts, e, kinds, -⟩ := exists_spell_escape s
  obtain ⟨before, t, after, p, q, rfl, hu, ht, -⟩ := exists_token_of_spell (e ▸ h)
  have tokens : read? (escape s) = some (before ++ t :: after) := read?_eq_some_iff.mpr e
  exact ⟨t, p, q, ⟨before, after, c :: q, tokens, hu, ht, by simp⟩, ht, kinds t (by simp)⟩

theorem eq_of_backslash_mem_text {t : Token} (kind : t.ofText = true) (h : '\\' ∈ t.text) :
    t = .zeroWidth ∨ t = .backslash ∨ t = .hyphen := by
  cases t with
  | plain c ordinary => exact absurd (List.mem_singleton.mp h).symm ordinary.1
  | zeroWidth => exact .inl rfl
  | backslash => exact .inr (.inl rfl)
  | hyphen => exact .inr (.inr rfl)
  | _ => cases kind

theorem eq_of_hyphen_mem_text {t : Token} {p q : List Char} (kind : t.ofText = true)
    (h : t.text = p ++ '-' :: q) : t = .hyphen ∧ p = ['\\'] := by
  have mem : '-' ∈ t.text := by
    rw [h]
    simp
  cases t with
  | plain c ordinary => exact absurd (List.mem_singleton.mp mem).symm ordinary.2
  | zeroWidth => exact absurd mem (by decide)
  | backslash => exact absurd mem (by decide)
  | hyphen =>
      refine ⟨rfl, ?_⟩
      rcases p with _ | ⟨x, _ | ⟨y, p⟩⟩
      · cases h
      · obtain ⟨rfl, -⟩ := List.cons.inj h
        rfl
      · simp [Token.text] at h
  | _ => cases kind

/-- **What escaped text is.**  Reading it back gives the text, so no other text is escaped alike.
None of its lines begins with a control character.  Every backslash in it belongs to the mark that
prints nothing or to an escaped backslash or hyphen, and every hyphen is the second character of an
escaped hyphen. -/
theorem unescape_escape_and_liesIn (s : List Char) :
    unescape (escape s) = s ∧ (∀ s', escape s' = escape s → s' = s) ∧
    (∀ l ∈ lines (escape s), isControlLine l = false) ∧
    (∀ u v, escape s = u ++ '\\' :: v → ∃ t p, LiesIn (escape s) u t p ∧
      (t = .zeroWidth ∨ t = .backslash ∨ t = .hyphen)) ∧
    ∀ u v, escape s = u ++ '-' :: v → LiesIn (escape s) u .hyphen ['\\'] := by
  refine ⟨unescape_escape s, fun s' same => escape_injective same, ?_, ?_, ?_⟩
  · intro l hl
    have none := hasControl_escape s
    rw [← Bool.not_eq_true, ← exists_controlLine_iff] at none
    rw [← Bool.not_eq_true]
    exact fun control => none ⟨l, hl, control⟩
  · intro u v h
    obtain ⟨t, p, q, lies, ht, kind⟩ := exists_liesIn_escape h
    exact ⟨t, p, lies, eq_of_backslash_mem_text kind (by simp [ht])⟩
  · intro u v h
    obtain ⟨t, p, q, lies, ht, kind⟩ := exists_liesIn_escape h
    obtain ⟨rfl, rfl⟩ := eq_of_hyphen_mem_text kind ht
    exact lies

/-- A text that spells an escape itself, with a hyphen behind it and an apostrophe on a line of its
own. -/
theorem unescape_escape_spelled :
    escape ".\\&-\n'".toList = "\\&.\\\\&\\-\n\\&'".toList ∧
    unescape "\\&.\\\\&\\-\n\\&'".toList = ".\\&-\n'".toList ∧
    (∀ l ∈ lines "\\&.\\\\&\\-\n\\&'".toList, isControlLine l = false) ∧
    (∃ t p, LiesIn "\\&.\\\\&\\-\n\\&'".toList "\\&.\\".toList t p ∧
      (t = .zeroWidth ∨ t = .backslash ∨ t = .hyphen)) ∧
    LiesIn "\\&.\\\\&\\-\n\\&'".toList "\\&.\\\\&\\".toList .hyphen ['\\'] := by
  have escaped : escape ".\\&-\n'".toList = "\\&.\\\\&\\-\n\\&'".toList := by decide
  obtain ⟨back, -, guarded, backslash, hyphen⟩ := unescape_escape_and_liesIn ".\\&-\n'".toList
  rw [escaped] at back guarded backslash hyphen
  exact ⟨escaped, back, guarded, backslash "\\&.\\".toList "&\\-\n\\&'".toList rfl,
    hyphen "\\&.\\\\&\\".toList "\n\\&'".toList rfl⟩

end ManualPages.Roff
