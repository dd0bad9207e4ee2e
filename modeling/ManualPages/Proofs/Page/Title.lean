import ManualPages.Page.Title
import ManualPages.Proofs.Path.FileName
import ManualPages.Proofs.Text.Utf8

/-! # Titles

An ending `.rd` is looked for by cutting off as many bytes as it has.

* `dropSourceEnding_append`, `dropSourceEnding_eq_self`: that finds the ending of every name that
  has one, and of no other, whatever characters the name consists of.
* `title_of_base`: the title is the name that was asked for, the name of the source or `Untitled`,
  reduced to its last component and without the ending. -/

namespace ManualPages.Page

/-! ### Upper and lower case -/

theorem toLower_cases (c : Char) :
    c.toLower = c ∨ 65 ≤ c.toNat ∧ c.toLower.toNat = c.toNat + 32 := by
  unfold Char.toLower
  split
  · next upper =>
    have low : 65 ≤ c.toNat := upper.1
    have high : c.val.toNat ≤ 90 := upper.2
    have shift : (32 : UInt32).toNat = 32 := rfl
    refine .inr ⟨low, ?_⟩
    change (c.val + 32).toNat = c.val.toNat + 32
    rw [UInt32.toNat_add, Nat.mod_eq_of_lt (by omega), shift]
  · exact .inl rfl

theorem eq_or_eq_of_toLower_eq {c lower upper : Char} (h : c.toLower = lower)
    (shifted : upper.toNat + 32 = lower.toNat) : c = lower ∨ c = upper := by
  rcases toLower_cases c with same | ⟨-, e⟩
  · exact .inl (same.symm.trans h)
  · rw [h] at e
    exact .inr (Char.toNat_inj.mp (by omega))

theorem eq_of_toLower_eq {c mark : Char} (h : c.toLower = mark) (below : mark.toNat < 97) :
    c = mark := by
  rcases toLower_cases c with same | ⟨upper, e⟩
  · exact same.symm.trans h
  · rw [h] at e
    omega

/-! ### The ending of a name -/

/-- The text `.rd`, each of the letters in upper or lower case. -/
def IsSourceEnding (s : List Char) : Prop :=
  ∃ r d, s = ['.', r, d] ∧ (r = 'r' ∨ r = 'R') ∧ (d = 'd' ∨ d = 'D')

theorem isSourceEnding_iff {s : List Char} : isSourceEnding s = true ↔ IsSourceEnding s := by
  rw [isSourceEnding, beq_iff_eq, sourceEnding]
  constructor
  · intro h
    simp only [List.map_eq_cons_iff, List.map_eq_nil_iff] at h
    obtain ⟨point, _, rfl, hp, r, _, rfl, hr, d, _, rfl, hd, rfl⟩ := h
    obtain rfl := eq_of_toLower_eq hp (by decide)
    exact ⟨r, d, rfl, eq_or_eq_of_toLower_eq hr rfl, eq_or_eq_of_toLower_eq hd rfl⟩
  · rintro ⟨r, d, rfl, rfl | rfl, rfl | rfl⟩ <;> rfl

theorem IsSourceEnding.size_eq {s : List Char} (h : IsSourceEnding s) :
    Utf8.size s = Utf8.size sourceEnding := by
  obtain ⟨r, d, rfl, hr, hd⟩ := h
  have second : r.utf8Size = 'r'.utf8Size := by rcases hr with rfl | rfl <;> rfl
  have third : d.utf8Size = 'd'.utf8Size := by rcases hd with rfl | rfl <;> rfl
  rw [sourceEnding]
  simp only [Utf8.size_cons, second, third]

/-- An ending is found. -/
theorem dropSourceEnding_append (stem : List Char) {ending : List Char}
    (h : IsSourceEnding ending) : dropSourceEnding (stem ++ ending) = stem := by
  have offset : Utf8.size (stem ++ ending) - Utf8.size sourceEnding = Utf8.size stem := by
    rw [Utf8.size_append, h.size_eq, Nat.add_sub_cancel]
  have enough : ¬ Utf8.size (stem ++ ending) < Utf8.size sourceEnding := by
    rw [Utf8.size_append, h.size_eq]
    omega
  rw [dropSourceEnding, if_neg enough, offset, Utf8.splitAt?_append]
  exact if_pos (isSourceEnding_iff.mpr h)

/-- A name without an ending stays as it is, wherever its last bytes begin. -/
theorem dropSourceEnding_eq_self {name : List Char}
    (h : ∀ stem ending, IsSourceEnding ending → name ≠ stem ++ ending) :
    dropSourceEnding name = name := by
  unfold dropSourceEnding
  split
  · rfl
  · split
    · next stem ending cut =>
      obtain ⟨whole, -⟩ := Utf8.append_of_splitAt? cut
      rw [if_neg fun found => h stem ending (isSourceEnding_iff.mp found) whole]
    · rfl

theorem dropSourceEnding_subset (name : List Char) : dropSourceEnding name ⊆ name := by
  by_cases h : ∃ stem ending, IsSourceEnding ending ∧ name = stem ++ ending
  · obtain ⟨stem, ending, found, rfl⟩ := h
    rw [dropSourceEnding_append stem found]
    exact List.subset_append_left stem ending
  · rw [dropSourceEnding_eq_self fun stem ending found whole => h ⟨stem, ending, found, whole⟩]
    exact List.Subset.refl name

/-! ### The title -/

theorem baseName_cases (s : List Char) :
    (Path.components s).getLast? = some (.normal (baseName s)) ∨ baseName s = s ∧
      ∀ name, (Path.components s).getLast? ≠ some (.normal name) := by
  unfold baseName
  cases h : Path.fileName? s with
  | some name => exact .inl (Path.fileName?_eq_some_iff.mp h)
  | none =>
      refine .inr ⟨rfl, fun name last => ?_⟩
      rw [← Path.fileName?_eq_some_iff, h] at last
      cases last

/-- **Titles.**  The name asked for, else the name of the source, else `Untitled`, is reduced to its
last component if that is a name.  An ending `.rd` of it, in upper or lower case, is left out, and
everything else stays.  The cut at a byte offset cuts no character, and there is one at every offset
where a character ends.  The title of a path with a file name has no slash. -/
theorem title_of_base (asked? source? : Option String) : ∃ (t : String) (base : List Char),
    (asked? = some t ∨ asked? = none ∧ (source? = some t ∨ source? = none ∧ t = "Untitled")) ∧
    ((Path.components t.toList).getLast? = some (.normal base) ∨ base = t.toList ∧
      ∀ name, (Path.components t.toList).getLast? ≠ some (.normal name)) ∧
    (∀ stem ending, base = stem ++ ending → IsSourceEnding ending →
      title asked? source? = stem) ∧
    ((∀ stem ending, IsSourceEnding ending → base ≠ stem ++ ending) →
      title asked? source? = base) ∧
    (∀ n front back, Utf8.splitAt? n base = some (front, back) ↔
      base = front ++ back ∧ (Utf8.encode (String.ofList front)).length = n) ∧
    ((Path.components t.toList).getLast? = some (.normal base) → '/' ∉ title asked? source?) := by
  refine ⟨(asked? <|> source?).getD untitled, baseName ((asked? <|> source?).getD untitled).toList,
    ?_, baseName_cases _, ?_, ?_, ?_, ?_⟩
  · cases asked? with
    | some asked => exact .inl rfl
    | none =>
        cases source? with
        | some source => exact .inr ⟨rfl, .inl rfl⟩
        | none => exact .inr ⟨rfl, .inr ⟨rfl, rfl⟩⟩
  · intro stem ending whole found
    rw [title, whole, dropSourceEnding_append stem found]
  · intro other
    rw [title, dropSourceEnding_eq_self other]
  · intro n front back
    exact Utf8.splitAt?_eq_some_iff
  · intro last slash
    rw [← Path.fileName?_eq_some_iff] at last
    exact Path.slash_not_mem_fileName last (dropSourceEnding_subset _ slash)

/-- A path with a slash behind its file name, which has the ending twice and characters of three
bytes. -/
theorem title_of_base_twice :
    title none (some "man/文書.rd.RD/") = "文書.rd".toList ∧
      '/' ∉ title none (some "man/文書.rd.RD/") := by
  have name : (Path.components "man/文書.rd.RD/".toList).getLast? =
      some (.normal "文書.rd.RD".toList) := by decide
  obtain ⟨t, base, chosen, reduced, ended, -, -, single⟩ :=
    title_of_base none (some "man/文書.rd.RD/")
  obtain rfl : t = "man/文書.rd.RD/" := by simpa [eq_comm] using chosen
  rw [name] at reduced
  obtain rfl : "文書.rd.RD".toList = base := by simpa using reduced
  exact ⟨ended "文書.rd".toList ".RD".toList (by decide) ⟨'R', 'D', rfl, .inr rfl, .inr rfl⟩,
    single name⟩

end ManualPages.Page
