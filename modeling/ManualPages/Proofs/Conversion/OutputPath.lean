import ManualPages.Proofs.Conversion.Writing

/-! # Where a page goes

The output path is made by putting the section in the place of the extension.

* `exists_output`: that gives a path beside the input, under the same stem.
* `exists_output_of_point`: a file name such as `..x` is the exception.  Its stem is a point, and
  the path that is left when the extension has been taken off ends with `..`, which takes no
  extension.
* `wellPlaced_iff`: everything that is asked of the output path holds outside of this exception. -/

namespace ManualPages.Conversion

open ManualPages.Path

variable {input : String}

/-- What is asked of an output path.  An input that has no file name, or the extension of a page, is
refused.  For every other there is an output path: in the same directory, with the same stem and the
extension of a page.  It is not the path of the input, and as an input it is refused. -/
structure WellPlaced (input : String) : Prop where
  refused : fileName? input.toList = none ∨ extension? input.toList = some ['1'] →
    outputPath input = .error (.samePath input)
  placed : fileName? input.toList ≠ none → extension? input.toList ≠ some ['1'] →
    ∃ output, outputPath input = .ok output ∧
      parent? output.toList = parent? input.toList ∧
      fileStem? output.toList = fileStem? input.toList ∧
      extension? output.toList = some ['1'] ∧
      components output.toList ≠ components input.toList ∧
      outputPath output = .error (.samePath output)

/-! ### Putting the section in the place of the extension -/

theorem outputPath_of_eq (same : components (withExtension ['1'] input.toList) =
    components input.toList) : outputPath input = .error (.samePath input) :=
  outputPath_eq_error_iff.mpr ⟨rfl, same⟩

theorem outputPath_of_ne {path : List Char} (made : withExtension ['1'] input.toList = path)
    (other : components path ≠ components input.toList) :
    outputPath input = .ok (String.ofList path) := by
  subst made
  unfold outputPath
  exact if_neg other

theorem outputPath_of_no_name (h : fileName? input.toList = none) :
    outputPath input = .error (.samePath input) := by
  apply outputPath_of_eq
  rw [withExtension_of_no_name h]

theorem fileStem?_eq {p : Parts} {path : List Char} (h : parts? path = some p) :
    fileStem? path = some (splitName p.name).1 := by
  simp [fileStem?, fileName?, h]

theorem extension?_eq {p : Parts} {path : List Char} (h : parts? path = some p) :
    extension? path = (splitName p.name).2 := by
  simp [extension?, fileName?, h]

/-- The stem is not a point, or something else than the extension is cut off at the end. -/
def TakesExtension (path : List Char) : Prop := fileStem? path ≠ some ['.'] ∨ AsksDirectory path

theorem exists_renamed {p : Parts} (h : parts? input.toList = some p)
    (takes : TakesExtension input.toList) : ∃ name, IsName name ∧ '/' ∉ name ∧
      splitName name = ((splitName p.name).1, some ['1']) ∧
      withExtension ['1'] input.toList = p.front ++ name ∧
      (name = p.name ↔ (splitName p.name).2 = some ['1']) := by
  obtain ⟨whole, ends, single, named, -⟩ := parts?_spec h
  have written : (splitName p.name).1 ≠ [] := stem_ne_nil named
  have cutOff : (splitName p.name).1 ≠ ['.'] ∨ p.back ≠ [] := by
    refine takes.imp (fun h' e => ?_) fun asks e => ?_
    · exact h' (by rw [fileStem?_eq h, e])
    · rw [whole, e, List.append_nil] at asks
      exact not_asksDirectory_append ends single named asks
  refine ⟨(splitName p.name).1 ++ ['.', '1'], ?_, ?_, ?_, withExtension_of_stem h cutOff ['1'], ?_⟩
  · have stem := List.length_pos_iff.mpr written
    apply isName_of_length
    rw [List.length_append]
    exact Nat.add_le_add_right stem 2
  · have stem : '/' ∉ (splitName p.name).1 := fun slash => single (mem_of_mem_splitName slash)
    simp [stem]
  · exact splitName_eq_some_iff.mpr ⟨rfl, written, by decide⟩
  · rcases e : splitName p.name with ⟨stem, _ | old⟩
    · obtain rfl := splitName_eq_none e
      simp
    · obtain ⟨e', -, -⟩ := splitName_eq_some_iff.mp e
      simp [e', eq_comm]

theorem outputPath_of_extension (page : extension? input.toList = some ['1'])
    (takes : TakesExtension input.toList) : outputPath input = .error (.samePath input) := by
  cases h : parts? input.toList with
  | none => simp [extension?, fileName?, h] at page
  | some p =>
      obtain ⟨name, named, single, -, made, same⟩ := exists_renamed h takes
      obtain ⟨-, ends, -, -, -⟩ := parts?_spec h
      apply outputPath_of_eq
      rw [made, components_append_name ends single named, components_of_parts? h]
      rw [extension?_eq h] at page
      rw [same.mpr page]

/-- For every other input the page goes beside it, under the same stem. -/
theorem exists_output (hasName : fileName? input.toList ≠ none)
    (other : extension? input.toList ≠ some ['1']) (takes : TakesExtension input.toList) :
    ∃ output, outputPath input = .ok output ∧ parent? output.toList = parent? input.toList ∧
      fileStem? output.toList = fileStem? input.toList ∧ extension? output.toList = some ['1'] ∧
      components output.toList ≠ components input.toList ∧ ¬ AsksDirectory output.toList := by
  cases h : parts? input.toList with
  | none => simp [fileName?, h] at hasName
  | some p =>
      obtain ⟨name, named, single, cut, made, same⟩ := exists_renamed h takes
      obtain ⟨-, ends, -, -, -⟩ := parts?_spec h
      have output := components_append_name ends single named
      have input' := components_of_parts? h
      have differs : components (p.front ++ name) ≠ components input.toList := by
        rw [output, input']
        intro e
        rw [extension?_eq h] at other
        exact other (same.mp (by simpa using e))
      refine ⟨_, outputPath_of_ne made differs, ?_⟩
      rw [String.toList_ofList]
      refine ⟨?_, ?_, ?_, differs, not_asksDirectory_append ends single named⟩
      · rw [parent?_eq output, parent?_eq input']
      · rw [fileStem?_eq h, fileStem?, fileName?_eq output, Option.map_some, cut]
      · rw [extension?, fileName?_eq output, Option.bind_some, cut]

/-- Of a name that is a point and an extension the directory above is left. -/
theorem exists_output_of_point (point : fileStem? input.toList = some ['.'])
    (ends : ¬ AsksDirectory input.toList) :
    ∃ output, outputPath input = .ok output ∧ fileName? output.toList = none := by
  cases h : parts? input.toList with
  | none => simp [fileStem?, fileName?, h] at point
  | some p =>
      obtain ⟨-, back, front, -, named⟩ := parts?_eq_some h ends
      have input' := components_of_parts? h
      rw [fileStem?_eq h] at point
      have left : withExtension ['1'] input.toList = p.front ++ ['.', '.'] := by
        rw [withExtension_eq h back, renamed_of_point named (Option.some.inj point)]
      have above : components (p.front ++ ['.', '.']) = components p.front ++ [.parent] :=
        components_append front (by decide) rfl
      refine ⟨_, outputPath_of_ne left ?_, ?_⟩
      · rw [above, input']
        simp
      · rw [String.toList_ofList, Option.eq_none_iff_forall_ne_some]
        intro name
        rw [Ne, fileName?_eq_some_iff, above]
        simp

/-! ### Well placed output paths -/

theorem hasName_of_point (point : fileStem? input.toList = some ['.']) :
    fileName? input.toList ≠ none := by
  intro nameless
  simp [fileStem?, nameless] at point

theorem not_wellPlaced_of_point (point : fileStem? input.toList = some ['.'])
    (ends : ¬ AsksDirectory input.toList) : ¬ WellPlaced input := by
  rintro ⟨refused, placed⟩
  obtain ⟨above, made, nameless⟩ := exists_output_of_point point ends
  by_cases paged : extension? input.toList = some ['1']
  · rw [refused (.inr paged)] at made
    cases made
  · obtain ⟨output, made', -, stem, -⟩ := placed (hasName_of_point point) paged
    obtain rfl := Except.ok.inj (made.symm.trans made')
    rw [point, fileStem?, nameless] at stem
    cases stem

/-- Behind such a name a slash is cut off with the extension, so there is a page; its own name is
one that ends with it. -/
theorem not_wellPlaced_of_point_asks (point : fileStem? input.toList = some ['.'])
    (asks : AsksDirectory input.toList) (other : extension? input.toList ≠ some ['1']) :
    ¬ WellPlaced input := by
  rintro ⟨-, placed⟩
  have hasName := hasName_of_point point
  obtain ⟨output, made, -, stem, paged, -, ends⟩ := exists_output hasName other (.inr asks)
  obtain ⟨output', made', -, -, -, -, again⟩ := placed hasName other
  obtain rfl := Except.ok.inj (made.symm.trans made')
  obtain ⟨above, accepted, -⟩ := exists_output_of_point (stem.trans point) ends
  rw [accepted] at again
  cases again

/-- **Output paths.**  All that is asked of the output path holds, unless the stem of the input is a
point; then it holds only for an input that is refused, because it has the extension of a page and
asks for a directory. -/
theorem wellPlaced_iff (input : String) : WellPlaced input ↔
    fileStem? input.toList ≠ some ['.'] ∨
      extension? input.toList = some ['1'] ∧ AsksDirectory input.toList := by
  constructor
  · intro placed
    by_contra h
    rw [not_or, not_not, not_and'] at h
    obtain ⟨point, unpaged⟩ := h
    by_cases asks : AsksDirectory input.toList
    · exact not_wellPlaced_of_point_asks point asks (unpaged asks) placed
    · exact not_wellPlaced_of_point point asks placed
  · intro h
    have takes : TakesExtension input.toList := h.imp id And.right
    refine ⟨fun refused => ?_, fun hasName other => ?_⟩
    · rcases refused with nameless | paged
      · exact outputPath_of_no_name nameless
      · exact outputPath_of_extension paged takes
    · obtain ⟨output, made, parent, stem, paged, differs, -⟩ := exists_output hasName other takes
      have point := h.resolve_right fun page => other page.1
      exact ⟨output, made, parent, stem, paged, differs,
        outputPath_of_extension paged (.inl (stem ▸ point))⟩

/-- The page of a file `..x` would go into the directory above, with neither stem nor extension. -/
theorem not_wellPlaced_point : fileStem? "..x".toList = some ['.'] ∧
    extension? "..x".toList = some ['x'] ∧ outputPath "..x" = .ok ".." ∧ ¬ WellPlaced "..x" := by
  have point : fileStem? "..x".toList = some ['.'] := by decide
  have other : extension? "..x".toList = some ['x'] := by decide
  refine ⟨point, other, rfl, fun placed => ?_⟩
  rcases (wellPlaced_iff "..x").mp placed with h | ⟨h, -⟩
  · exact h point
  · rw [other] at h
    exact absurd h (by decide)

end ManualPages.Conversion
