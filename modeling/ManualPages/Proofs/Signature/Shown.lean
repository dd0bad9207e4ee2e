import ManualPages.Proofs.Signature.Parts

/-! # Signatures as they are shown

Except for subscripts, a signature is shown with its parts in the order in which they stand in the
descriptor; a module and its function are always separated by a point.

* `splitOwner_append`: at this point the head is cut again, whatever separators the module has.
* `Divides.show?_eq`, `parse_parts`: what is shown, and what it is the descriptor of.
* `parse_shown`: what is shown is the descriptor of the same signature, so showing it again changes
  nothing. -/

namespace ManualPages

/-- A text without blanks at its ends stays so if what stands between the ends is exchanged. -/
theorem Text.trim_exchange {a b s t : List Char} (ha : a ≠ []) (hb : b ≠ [])
    (h : Text.trim (a ++ s ++ b) = a ++ s ++ b) : Text.trim (a ++ t ++ b) = a ++ t ++ b := by
  have first := Text.head?_trim (a ++ s ++ b)
  have last := Text.getLast?_trim (a ++ s ++ b)
  rw [h] at first last
  apply Text.trim_eq_self
  · rwa [List.append_assoc, List.head?_append_of_ne_nil a ha] at first ⊢
  · rwa [List.getLast?_append_of_ne_nil _ hb] at last ⊢

namespace Signature

theorem ownerText_eq {s : Signature} (h : s.owner = [] ↔ s.relation = .function) :
    s.ownerText = s.owner ++ s.relation.separator := by
  unfold ownerText
  cases hr : s.relation with
  | function => rw [h.mpr hr]; rfl
  | _ => rfl

/-- A head is cut at a point behind which there is no separator. -/
theorem splitOwner_append {owner name : List Char} (hasOwner : owner ≠ []) (hasName : name ≠ [])
    (noHash : '#' ∉ owner ++ '.' :: name) (last : Undivided name) :
    splitOwner (owner ++ '.' :: name) = (owner, .ofModule, name) := by
  unfold splitOwner attach
  rw [Text.splitFirst_singleton_eq_none_iff.mpr noHash, splitModule_append last]
  simp [hasOwner, hasName]

/-- The parts of a module function with a point between module and name are the parts of a
descriptor. -/
theorem Divides.parse_point {s : Signature} {text sep : List Char} (h : s.Divides text sep)
    (trimmed : Text.trim text = text) (module : s.relation = .ofModule) :
    parse (s.owner ++ '.' :: s.name ++ s.args) = s := by
  obtain ⟨-, hasOwner, hasName, noHash, last⟩ := h.ofModule module
  simp only [List.mem_append, not_or] at noHash
  have noHash' : '#' ∉ s.owner ++ '.' :: s.name := by simp [noHash]
  have within : ∀ c ∈ s.owner ++ '.' :: s.name, endsHead c = false := by
    intro c hc
    rcases List.mem_append.mp hc with ho | hn
    · exact h.head c (by simp [ho])
    · rcases List.mem_cons.mp hn with rfl | hn
      · decide
      · exact h.head c (by simp [hn])
  have trimmed' : Text.trim (s.owner ++ '.' :: s.name ++ s.args) =
      s.owner ++ '.' :: s.name ++ s.args := by
    have behind : s.name ++ s.args ≠ [] := List.append_ne_nil_of_left_ne_nil hasName _
    have exchanged := Text.trim_exchange (s := sep) (t := ['.']) hasOwner behind
      (by rw [← List.append_assoc, ← h.eq_append, trimmed])
    simpa using exchanged
  rw [parse_append within h.args trimmed', splitOwner_append hasOwner hasName noHash' last,
    ← module]

/-- A signature that is no subscript is shown with its parts as they are. -/
theorem Divides.show?_eq {s : Signature} {text sep : List Char} (h : s.Divides text sep)
    (ordinary : s.name ≠ ['[', ']'] ∧ s.name ≠ ['[', ']', '=']) :
    s.show? = some (s.owner ++ s.relation.separator ++ s.name ++ s.args) := by
  unfold show?
  rw [if_neg ordinary.1, if_neg ordinary.2, ownerText_eq h.owner_eq_nil_iff]

/-- The parts of a signature with the separator that is shown are a descriptor of it, unless a
separator in front of the name has been lost. -/
theorem parse_parts {d : List Char} (kept : (parse d).relation ≠ .function ∨
      ∀ sep, sep = ['#'] ∨ IsModuleSeparator sep → ¬ sep <+: Text.trim d) :
    parse ((parse d).owner ++ (parse d).relation.separator ++ (parse d).name ++ (parse d).args) =
      parse d := by
  obtain ⟨sep, division⟩ := exists_divides d
  -- with its own separator, the parts are the descriptor itself
  have same : (parse d).relation.separator = sep → parse ((parse d).owner ++
      (parse d).relation.separator ++ (parse d).name ++ (parse d).args) = parse d := by
    intro e
    rw [e, ← division.eq_append, parse_trim]
  cases relation : (parse d).relation with
  | ofInstance =>
      rw [relation] at same
      exact same (division.ofInstance relation).1.symm
  | function =>
      rw [relation] at same
      refine same (division.separator.resolve_right fun lost => ?_).symm
      refine kept.resolve_left (not_not_intro relation) sep lost ?_
      rw [division.eq_append, division.owner_eq_nil_iff.mpr relation, List.nil_append,
        List.append_assoc]
      exact List.prefix_append _ _
  | ofModule =>
      have point := division.parse_point (Text.trim_trim d) relation
      simpa [Relation.separator] using point

/-- **What is shown reads back.**  A signature that is no subscript, and in whose descriptor no
separator is lost in front of the name, is shown with its parts as they are, a point standing for
`::`.  What is shown is a descriptor of the same signature, and it is shown as it is. -/
theorem parse_shown {d : List Char}
    (ordinary : (parse d).name ≠ ['[', ']'] ∧ (parse d).name ≠ ['[', ']', '='])
    (kept : (parse d).relation ≠ .function ∨
      ∀ sep, sep = ['#'] ∨ IsModuleSeparator sep → ¬ sep <+: Text.trim d) :
    ∃ shown, (parse d).show? = some shown ∧ shown = (parse d).owner ++
        (parse d).relation.separator ++ (parse d).name ++ (parse d).args ∧
      parse shown = parse d ∧ (parse shown).show? = some shown := by
  obtain ⟨sep, division⟩ := exists_divides d
  have shown := division.show?_eq ordinary
  have back := parse_parts kept
  exact ⟨_, shown, rfl, back, by rw [back, shown]⟩

/-- Between module and name the two colons become a point; the colon and the point of the module
and the separators in the arguments stay. -/
theorem parse_shown_colons :
    (parse " A.B:::c(x::y) ".toList).name ≠ ['[', ']'] ∧
    (parse " A.B:::c(x::y) ".toList).relation ≠ .function ∧
    (parse " A.B:::c(x::y) ".toList).show? = some "A.B:.c(x::y)".toList ∧
    parse "A.B:.c(x::y)".toList = parse " A.B:::c(x::y) ".toList ∧
    (parse "A.B:.c(x::y)".toList).show? = some "A.B:.c(x::y)".toList := by
  have ordinary : (parse " A.B:::c(x::y) ".toList).name ≠ ['[', ']'] ∧
      (parse " A.B:::c(x::y) ".toList).name ≠ ['[', ']', '='] := by decide +kernel
  have module : (parse " A.B:::c(x::y) ".toList).relation ≠ .function := by decide +kernel
  have shown : (parse " A.B:::c(x::y) ".toList).show? = some "A.B:.c(x::y)".toList := by
    decide +kernel
  obtain ⟨_, h, -, back, again⟩ := parse_shown ordinary (.inl module)
  rw [shown] at h
  cases h
  exact ⟨ordinary.1, module, shown, back, again⟩

end Signature

end ManualPages
