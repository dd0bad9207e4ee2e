import ManualPages.Proofs.Path.FileName
import ManualPages.Proofs.Text.Split

/-! # Names in one directory

A path that does not ask for a directory and has a file name ends with it (`parts?_eq_some`), and an
extension put there changes the name only (`withExtension_eq`).  Names behind the same text differ
in their last piece, so they lead into one directory: `exists_pieces_append`.

What follows the file name is lost when the path gets another extension (`withExtension_of_stem`),
unless the stem is a point and nothing follows: then it gets none (`renamed_of_point`). -/

namespace ManualPages.Path

/-! ### Paths to files -/

/-- The last piece is empty or a point, so the path can only lead to a directory. -/
def AsksDirectory (path : List Char) : Prop :=
  ∃ leading last, pieces path = leading ++ [last] ∧ (last = [] ∨ last = ['.'])

/-- A path that does not ask for a directory ends with its file name. -/
theorem parts?_eq_some {path : List Char} {p : Parts} (h : parts? path = some p)
    (hd : ¬ AsksDirectory path) : path = p.front ++ p.name ∧ p.back = [] ∧ EndsPiece p.front ∧
      '/' ∉ p.name ∧ IsName p.name := by
  obtain ⟨whole, ends, single, name, silent⟩ := parts?_spec h
  have nothing : p.back = [] := by
    rcases silent with e | ⟨t, e, ht⟩
    · exact e
    · obtain ⟨leading, last, el⟩ := (List.eq_nil_or_concat (pieces t)).resolve_left (pieces_ne_nil t)
      refine absurd ⟨pieces (p.front ++ p.name) ++ leading, last, ?_, ?_⟩ hd
      · rw [whole, e, pieces_append_slash, el, List.concat_eq_append, List.append_assoc]
      · exact component?_eq_none_iff.mp (ht last (by simp [el]))
  exact ⟨by rw [whole, nothing, List.append_nil], nothing, ends, single, name⟩

theorem not_asksDirectory_append {front name : List Char} (h : EndsPiece front) (hn : '/' ∉ name)
    (named : IsName name) : ¬ AsksDirectory (front ++ name) := by
  rintro ⟨leading, last, e, short⟩
  obtain ⟨leading', same⟩ := exists_pieces_append h
  rw [same name hn] at e
  obtain ⟨-, e⟩ := List.append_inj' e rfl
  obtain rfl := (List.cons.inj e).1
  rcases short with rfl | rfl
  · exact named.1 rfl
  · exact named.2.1 rfl

theorem isName_of_length {name : List Char} (h : 3 ≤ name.length) : IsName name := by
  refine ⟨?_, ?_, ?_⟩ <;> rintro rfl <;> simp at h

/-! ### Extensions -/

theorem mem_of_mem_splitName {name : List Char} {c : Char} (h : c ∈ (splitName name).1) :
    c ∈ name := by
  unfold splitName at h
  split at h
  · exact h
  · exact h
  · next stem extension _ e =>
    rw [Text.append_of_splitLast e]
    exact List.mem_append_left _ (List.mem_append_left _ h)

/-- A name has an extension exactly if a point stands in it behind something; the last one counts. -/
theorem splitName_eq_some_iff {name stem extension : List Char} :
    splitName name = (stem, some extension) ↔
      name = stem ++ '.' :: extension ∧ stem ≠ [] ∧ '.' ∉ extension := by
  constructor
  · intro h
    unfold splitName at h
    split at h
    · cases h
    · cases h
    · next stem' _ other e =>
      cases h
      obtain ⟨whole, last⟩ := Text.splitLast_singleton_eq_some_iff.mp e
      refine ⟨whole, ?_, last⟩
      rintro rfl
      exact other rfl
  · rintro ⟨rfl, written, last⟩
    have cut : Text.splitLast ['.'] (stem ++ '.' :: extension) = some (stem, extension) :=
      Text.splitLast_singleton_eq_some_iff.mpr ⟨rfl, last⟩
    rw [splitName, cut]
    cases stem with
    | nil => exact absurd rfl written
    | cons _ _ => rfl

theorem splitName_eq_none {name stem : List Char} (h : splitName name = (stem, none)) :
    stem = name := by
  unfold splitName at h
  split at h <;> cases h <;> rfl

theorem stem_ne_nil {name : List Char} (h : IsName name) : (splitName name).1 ≠ [] := by
  rcases e : splitName name with ⟨stem, _ | extension⟩
  · obtain rfl := splitName_eq_none e
    exact h.1
  · exact (splitName_eq_some_iff.mp e).2.1

/-- A file name with another extension. -/
def renamed (extension name : List Char) : List Char :=
  match splitName name with
  | (['.'], some _) => ['.', '.']
  | (stem, _) => stem ++ '.' :: extension

theorem not_mem_renamed {extension name : List Char} (he : '/' ∉ extension) (hn : '/' ∉ name) :
    '/' ∉ renamed extension name := by
  have stem : '/' ∉ (splitName name).1 := fun h => hn (mem_of_mem_splitName h)
  unfold renamed
  split
  · decide
  · next stem' _ _ e =>
    rw [e] at stem
    simp [stem, he]

theorem renamed_of_stem {extension name : List Char} (h : (splitName name).1 ≠ ['.']) :
    renamed extension name = (splitName name).1 ++ '.' :: extension := by
  unfold renamed
  split
  · next old e => exact absurd (congrArg Prod.fst e) h
  · next stem old _ e => rw [e]

theorem exists_extension_of_point {name : List Char} (named : IsName name)
    (h : (splitName name).1 = ['.']) : ∃ old, splitName name = (['.'], some old) := by
  rcases e : splitName name with ⟨stem, _ | old⟩
  · rw [e, splitName_eq_none e] at h
    exact absurd h named.2.1
  · rw [e] at h
    exact ⟨old, congrArg (·, some old) h⟩

/-- Such a name cannot take another extension. -/
theorem renamed_of_point {extension name : List Char} (named : IsName name)
    (h : (splitName name).1 = ['.']) : renamed extension name = ['.', '.'] := by
  obtain ⟨old, e⟩ := exists_extension_of_point named h
  simp [renamed, e]

/-- An extension is put behind the stem of the file name, and what follows the name is lost. -/
theorem withExtension_of_stem {path : List Char} {p : Parts} (h : parts? path = some p)
    (hp : (splitName p.name).1 ≠ ['.'] ∨ p.back ≠ []) (extension : List Char) :
    withExtension extension path = p.front ++ ((splitName p.name).1 ++ '.' :: extension) := by
  rw [withExtension, h]
  simp only
  split
  · next old e =>
    rw [e] at hp ⊢
    rw [if_neg (hp.resolve_left (by simp)), List.append_assoc]
    rfl
  · next stem old _ e => rw [e, List.append_assoc]

/-- An extension changes the file name only. -/
theorem withExtension_eq {path : List Char} {p : Parts} (h : parts? path = some p)
    (hb : p.back = []) (extension : List Char) :
    withExtension extension path = p.front ++ renamed extension p.name := by
  by_cases point : (splitName p.name).1 = ['.']
  · obtain ⟨-, -, -, named, -⟩ := parts?_spec h
    obtain ⟨old, e⟩ := exists_extension_of_point named point
    rw [renamed_of_point named point, withExtension, h]
    simp only [e]
    exact if_pos hb
  · rw [withExtension_of_stem h (.inl point), renamed_of_stem point]

/-! ### Parent, stem and extension -/

/-- The components of the directory that a path leads into; the empty path and the root have no
parent. -/
def parent? (path : List Char) : Option (List Component) :=
  match (components path).getLast? with
  | none => none
  | some .root => none
  | some _ => some (components path).dropLast

/-- The file name without its extension. -/
def fileStem? (path : List Char) : Option (List Char) :=
  (fileName? path).map fun name => (splitName name).1

def extension? (path : List Char) : Option (List Char) :=
  (fileName? path).bind fun name => (splitName name).2

section named

variable {path front name : List Char}

theorem components_append_name (h : EndsPiece front) (hn : '/' ∉ name) (named : IsName name) :
    components (front ++ name) = components front ++ [.normal name] :=
  components_append h hn (component?_of_isName named)

theorem parent?_eq {cs : List Component} (h : components path = cs ++ [.normal name]) :
    parent? path = some cs := by
  unfold parent?
  rw [h]
  simp

theorem fileName?_eq {cs : List Component} (h : components path = cs ++ [.normal name]) :
    fileName? path = some name := by
  rw [fileName?_eq_some_iff, h]
  simp

end named

end ManualPages.Path
