import ManualPages.Page.Render
import ManualPages.Proofs.Page.Setting
import ManualPages.Proofs.Roff.Arguments
import ManualPages.Proofs.Text.Split

/-! # The header of a page

A page begins with a comment and the `.TH` line, whose arguments are title, section and date.  The
date is put in double quotes; the title and the name of the generator are written as they are.

* `isPlainWord_month`, `isPlainWord_year`: a date is two words without double quotes.
* `HasHeader`: the two lines of the header, as they are read.
* `render_eq_ok_iff`: what a page is made of.
* `hasHeader_iff`: the header of a page is intact exactly if the title is a word and neither the
  title nor the name of the generator has a newline. -/

namespace ManualPages

/-! ### The date -/

/-- A word that is a word between double quotes, too, and on one line. -/
structure IsPlainWord (s : List Char) : Prop where
  word : Roff.IsWord s
  unquoted : '"' ∉ s
  line : '\n' ∉ s

namespace Date

theorem isPlainWord_month (month : Nat) : IsPlainWord (monthName month).toList := by
  unfold monthName
  split <;> exact ⟨⟨by decide, by decide, by decide⟩, by decide, by decide⟩

theorem mem_yearText {year : Int} {c : Char} (h : c ∈ (yearText year).toList) :
    c.isDigit = true ∨ c = '-' ∨ c = '+' := by
  simp only [yearText, String.toList_append, String.toList_ofList, List.mem_append] at h
  rcases h with sign | zero | number
  · split at sign
    · exact .inr (.inl (by simpa using sign))
    · split at sign
      · exact .inr (.inr (by simpa using sign))
      · cases sign
  · rw [List.eq_of_mem_replicate zero]
    decide
  · exact .inl (Page.isDigit_of_mem_toString number)

theorem isPlainWord_year (year : Int) : IsPlainWord (yearText year).toList := by
  have number : (toString year.natAbs).toList ≠ [] := by
    rw [Nat.toString_eq_repr, Nat.toList_repr]
    exact Nat.toDigits_ne_nil
  have written : (yearText year).toList ≠ [] := by
    simp only [yearText, String.toList_append]
    exact List.append_ne_nil_of_right_ne_nil _ (List.append_ne_nil_of_right_ne_nil _ number)
  have absent : ∀ c : Char, ¬ (c.isDigit = true ∨ c = '-' ∨ c = '+') →
      c ∉ (yearText year).toList := fun _ other hm => other (mem_yearText hm)
  have space := absent ' ' (by decide)
  have quote := absent '"' (by decide)
  exact ⟨⟨written, space, fun e => quote (List.mem_of_mem_head? e)⟩, quote, absent '\n' (by decide)⟩

theorem toList_text (d : Date) :
    d.text.toList = (monthName d.month).toList ++ ' ' :: (yearText d.year).toList := by
  simp [text]

end Date

namespace Page

open Setting

/-! ### The two lines -/

/-- The page is a comment, a call of `.TH` with these arguments, each in a line of its own, then the
body and the end of a line. -/
def HasHeader (page title number date body : List Char) : Prop :=
  ∃ comment args, page = comment ++ '\n' :: (".TH ".toList ++ args) ++ '\n' :: body ++ ['\n'] ∧
    ".\\\"".toList <+: comment ∧ '\n' ∉ comment ∧ '\n' ∉ args ∧
    Roff.arguments args = [title, number, date]

theorem exists_comment_eq (style : Style) : ∃ mark, comment style = mark ++ style.generator.toList ∧
    ".\\\"".toList <+: mark ∧ '\n' ∉ mark :=
  ⟨_, rfl, by decide +kernel, by decide +kernel⟩

/-- What stands behind `.TH`. -/
def titleArguments (style : Style) (d : Document) : List Char :=
  title style.options.title? d.sourceName? ++ (' ' :: manualSection.toList ++ " \"".toList ++
    style.date.text.toList ++ ['"'])

theorem titleLine_eq (style : Style) (d : Document) :
    titleLine style d = ".TH ".toList ++ titleArguments style d := by
  unfold titleLine titleArguments
  simp only [List.append_assoc, List.cons_append]

/-- A page is rendered exactly if its body is set; then it is the header, the body and a newline. -/
theorem render_eq_ok_iff {style : Style} {d : Document} {text : String} :
    render style d = .ok text ↔ ∃ source σ, (body d.blocks).Yields .initial source σ ∧
      text.toList = comment style ++ '\n' :: titleLine style d ++ '\n' :: source ++ ['\n'] := by
  have page_iff : ∀ whole σ, (fresh style d).runFrom .initial = (.ok whole, σ) ↔
      ∃ source, (body d.blocks).Yields .initial source σ ∧
        whole = comment style ++ '\n' :: titleLine style d ++ '\n' :: source ++ ['\n'] := by
    intro whole σ
    change (page style d).Yields .initial whole σ ↔ _
    unfold page
    simp only [yields_bind, yields_pure]
    constructor
    · rintro ⟨source, σ', inside, rfl, rfl⟩
      exact ⟨source, inside, rfl⟩
    · rintro ⟨source, inside, rfl⟩
      exact ⟨source, σ, inside, rfl, rfl⟩
  unfold render
  constructor
  · intro h
    split at h
    · next whole σ run =>
      cases h
      obtain ⟨source, inside, rfl⟩ := (page_iff whole σ).mp run
      exact ⟨source, σ, inside, String.toList_ofList⟩
    · cases h
  · rintro ⟨source, σ, inside, parts⟩
    rw [(page_iff _ σ).mpr ⟨source, inside, rfl⟩, ← parts]
    exact congrArg Except.ok String.ofList_toList

/-- A line and what follows it are known from the whole, if neither has a newline. -/
theorem append_newline_inj {a b c d : List Char} (h : a ++ '\n' :: b = c ++ '\n' :: d)
    (ha : '\n' ∉ a) (hb : '\n' ∉ b) : a = c ∧ b = d := by
  rcases List.append_eq_append_iff.mp h with ⟨_ | ⟨x, between⟩, e, e'⟩ | ⟨_ | ⟨x, between⟩, e, e'⟩
  · exact ⟨by simpa using e.symm, by simpa using e'⟩
  · have inside : b = between ++ '\n' :: d := (List.cons.inj e').2
    exact absurd (by simp [inside]) hb
  · exact ⟨by simpa using e, by simpa using e'.symm⟩
  · obtain rfl : '\n' = x := (List.cons.inj e').1
    exact absurd (by simp [e]) ha

/-- **When the header is intact.**  A page that is rendered has its header, with the derived title,
the section and the date for arguments, exactly if the title is a word and neither the title nor the
name of the generator has a newline. -/
theorem hasHeader_iff {style : Style} {d : Document} {text : String}
    (h : render style d = .ok text) : ∃ source σ, (body d.blocks).Yields .initial source σ ∧
      (HasHeader text.toList (title style.options.title? d.sourceName?) manualSection.toList
          style.date.text.toList source ↔
        Roff.IsWord (title style.options.title? d.sourceName?) ∧
          '\n' ∉ title style.options.title? d.sourceName? ∧ '\n' ∉ style.generator.toList) := by
  obtain ⟨source, σ, inside, parts⟩ := render_eq_ok_iff.mp h
  refine ⟨source, σ, inside, ?_⟩
  have month := Date.isPlainWord_month style.date.month
  have year := Date.isPlainWord_year style.date.year
  have words : Roff.arguments (titleArguments style d) =
      [title style.options.title? d.sourceName?, manualSection.toList, style.date.text.toList] ↔
        Roff.IsWord (title style.options.title? d.sourceName?) := by
    rw [titleArguments, Date.toList_text]
    exact Roff.arguments_eq_iff ⟨by decide, by decide, by decide⟩ month.word year.word
      ⟨by decide, month.unquoted, year.unquoted⟩
  obtain ⟨mark, named, begins, line⟩ := exists_comment_eq style
  have generator : '\n' ∉ comment style ↔ '\n' ∉ style.generator.toList := by
    rw [named, List.mem_append, not_or]
    exact and_iff_right line
  have newline : '\n' ∉ titleArguments style d ↔
      '\n' ∉ title style.options.title? d.sourceName? := by
    simp [titleArguments, Date.toList_text, month.line, year.line, manualSection]
  rw [parts, titleLine_eq]
  constructor
  · rintro ⟨comment', args, whole, -, line, line', read⟩
    have lines := List.append_cancel_right (List.append_cancel_right whole)
    obtain ⟨rfl, e⟩ := append_newline_inj lines.symm line (by simpa using line')
    obtain rfl := List.append_cancel_left e
    exact ⟨words.mp read, newline.mp line', generator.mp line⟩
  · rintro ⟨word, line', line⟩
    exact ⟨comment style, titleArguments style d, rfl,
      named ▸ begins.trans (List.prefix_append _ _), generator.mpr line,
      newline.mpr line', words.mpr word⟩

/-- A title of two words is asked for. -/
def twoWords : Style :=
  ⟨Options.default.withTitle "my page", ⟨2024, 5, 1, by decide, by decide⟩⟩

/-- The page of an empty document under this title. -/
def twoWordsPage : String :=
  ".\\\" DO NOT MODIFY THIS FILE! it was generated by rd2man\n.TH my page 1 \"May 2024\"\n\n"

/-- The second word of the title is read as the section, and the section as the date. -/
theorem not_hasHeader_twoWords : render twoWords ⟨none, []⟩ = .ok twoWordsPage ∧
    ¬ HasHeader twoWordsPage.toList "my page".toList manualSection.toList "May 2024".toList [] ∧
    Roff.arguments "my page 1 \"May 2024\"".toList =
      ["my".toList, "page".toList, "1".toList, "May 2024".toList] := by
  have empty : (body []).Yields .initial [] .initial := rfl
  have rendered : render twoWords ⟨none, []⟩ = .ok twoWordsPage :=
    render_eq_ok_iff.mpr ⟨[], .initial, empty, by decide +kernel⟩
  have derived : title twoWords.options.title? none = "my page".toList := by decide +kernel
  have date : twoWords.date.text = "May 2024" := by decide +kernel
  obtain ⟨source, σ, inside, intact⟩ := hasHeader_iff rendered
  obtain rfl := (inside.unique empty).1
  rw [derived, date] at intact
  refine ⟨rendered, fun header => ?_, by decide +kernel⟩
  exact (intact.mp header).1.noSpace (by decide)

end Page

end ManualPages
