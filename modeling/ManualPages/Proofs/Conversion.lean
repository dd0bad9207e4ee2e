import ManualPages.Proofs.Conversion.Writing

/-! # Conversion and the file system

A page goes into a file in the directory of its input, under another name
(`exists_beside_of_outputPath`).  The input has been opened there, so files that are written in the
meantime change neither the place of the page nor the error if it cannot be written (`toFile_eq`),
and no input is the place of its own page (`delivery_ne`). -/

namespace ManualPages.Conversion

variable {style : Page.Style} {fs now : FileSystem} {file : String}

/-- The output file has another name than the input, in the same directory. -/
theorem exists_beside_of_outputPath {input output : String} (h : outputPath input = .ok output)
    (hd : ¬ Path.AsksDirectory input.toList) : ∃ front old new, input.toList = front ++ old ∧
      output.toList = front ++ new ∧ Path.EndsPiece front ∧ '/' ∉ old ∧ '/' ∉ new ∧
      Path.IsName old ∧ new ≠ old := by
  unfold outputPath at h
  simp only at h
  split at h
  · cases h
  · next other =>
    cases h
    cases hp : Path.parts? input.toList with
    | none =>
        have noName : Path.fileName? input.toList = none := by
          rw [Path.fileName?, hp]
          rfl
        rw [Path.withExtension_of_no_name noName] at other
        exact absurd rfl other
    | some p =>
        obtain ⟨whole, back, front, piece, name⟩ := Path.parts?_eq_some hp hd
        have output := Path.withExtension_eq hp back Page.manualSection.toList
        refine ⟨p.front, p.name, Path.renamed Page.manualSection.toList p.name, whole, ?_, front,
          piece, Path.not_mem_renamed (by decide) piece, name, fun same => ?_⟩
        · rw [String.toList_ofList, output]
        · rw [output, same, ← whole] at other
          exact other rfl

theorem exists_openFile_of_load {d : Document} (h : load fs file = .ok d) :
    ∃ bytes, fs.openFile file.toList = .ok (.file bytes) := by
  unfold load loadOpened at h
  cases e : fs.openFile file.toList with
  | error _ =>
      rw [e] at h
      cases h
  | ok entry =>
      rw [e] at h
      cases entry with
      | directory => cases h
      | file bytes => exact ⟨bytes, rfl⟩

/-- An input that can be loaded is a file, and its output file has another name beside it. -/
theorem exists_beside_of_load {d : Document} {output : String} (loaded : load fs file = .ok d)
    (h : outputPath file = .ok output) : ∃ front old new, file.toList = front ++ old ∧
      output.toList = front ++ new ∧ Path.EndsPiece front ∧ '/' ∉ old ∧ '/' ∉ new ∧
      Path.IsName old ∧ new ≠ old ∧ ∃ loc, fs.locate (front ++ old) = .ok loc := by
  obtain ⟨bytes, opened⟩ := exists_openFile_of_load loaded
  obtain ⟨loc, located, -⟩ := FileSystem.locate_of_openFile_eq_ok opened
  obtain ⟨front, old, new, input, output, ends, piece, piece', name, other⟩ :=
    exists_beside_of_outputPath h (FileSystem.not_asksDirectory_of_openFile opened)
  rw [input] at located
  exact ⟨front, old, new, input, output, ends, piece, piece', name, other, loc, located⟩

/-- The page of an input has the same place before and after files are written. -/
theorem place_output_eq {d : Document} {output : String} (same : fs.SameDirectories now)
    (loaded : load fs file = .ok d) (h : outputPath file = .ok output) :
    now.place output.toList = fs.place output.toList := by
  obtain ⟨front, old, new, -, output, ends, piece, piece', -, -, loc, located⟩ :=
    exists_beside_of_load loaded h
  rw [output]
  exact same.place_eq (same.locate_beside ends piece piece' located)

/-- Where the page of an input goes, and the page. -/
def delivery (style : Page.Style) (fs : FileSystem) (file : String) :
    Except ConversionError (Location × String) := do
  let d ← load fs file
  let (output, text) ← prepare style d file
  match fs.place output.toList with
  | .ok loc => pure (loc, text)
  | .error e => throw (.output (.cannotOpen e))

/-- The page of an input, wherever it goes. -/
def pageFrom (style : Page.Style) (fs : FileSystem) (file : String) :
    Except ConversionError String := (load fs file).bind (page style)

theorem pageFrom_eq_ok_iff {text : String} : pageFrom style fs file = .ok text ↔
    ∃ d, load fs file = .ok d ∧ page style d = .ok text := bind_eq_ok

theorem delivery_eq_ok_iff {loc : Location} {text : String} :
    delivery style fs file = .ok (loc, text) ↔ ∃ output, outputPath file = .ok output ∧
      pageFrom style fs file = .ok text ∧ fs.place output.toList = .ok loc := by
  have placing : ∀ put : String × String, (match fs.place put.1.toList with
      | .ok there => pure (there, put.2)
      | .error e => throw (.output (.cannotOpen e)) : Except ConversionError _) = .ok (loc, text) ↔
        fs.place put.1.toList = .ok loc ∧ put.2 = text := by
    intro put
    cases fs.place put.1.toList with
    | error e => simp [throw_ne_ok]
    | ok there => simp [pure_eq_ok]
  simp only [pageFrom_eq_ok_iff]
  constructor
  · intro h
    obtain ⟨d, loaded, h⟩ := bind_eq_ok.mp h
    obtain ⟨⟨output, page⟩, prepared, h⟩ := bind_eq_ok.mp h
    obtain ⟨placed, rfl⟩ := (placing (output, page)).mp h
    obtain ⟨named, made⟩ := prepare_eq_ok_iff.mp prepared
    exact ⟨output, named, ⟨d, loaded, made⟩, placed⟩
  · rintro ⟨output, named, ⟨d, loaded, made⟩, placed⟩
    have prepared := prepare_eq_ok_iff.mpr ⟨named, made⟩
    have put := (placing (output, text)).mpr ⟨placed, rfl⟩
    exact bind_eq_ok.mpr ⟨d, loaded, bind_eq_ok.mpr ⟨(output, text), prepared, put⟩⟩

theorem lookup_ne_directory_of_delivery {loc : Location} {text : String}
    (h : delivery style fs file = .ok (loc, text)) : fs.lookup loc ≠ some .directory := by
  obtain ⟨output, -, -, placed⟩ := delivery_eq_ok_iff.mp h
  exact (FileSystem.place_eq_ok_iff.mp placed).2

/-- No page goes into its own input. -/
theorem delivery_ne {loc : Location} (h : fs.locate file.toList = .ok loc) (text : String) :
    delivery style fs file ≠ .ok (loc, text) := by
  intro delivered
  obtain ⟨output, named, made, placed⟩ := delivery_eq_ok_iff.mp delivered
  obtain ⟨d, loaded, -⟩ := pageFrom_eq_ok_iff.mp made
  obtain ⟨front, old, new, input, output, ends, piece, piece', name, other, -⟩ :=
    exists_beside_of_load loaded named
  rw [input] at h
  rw [output] at placed
  have located := (FileSystem.place_eq_ok_iff.mp placed).1
  exact FileSystem.locate_beside_ne ends piece piece' name other h located

/-- What a conversion does while files are written: it puts the page in the place where it goes,
or fails as it would have before. -/
theorem toFile_eq (same : fs.SameDirectories now) (file : String) :
    ((load fs file).bind fun d => toFile style d file now) =
      (delivery style fs file).map fun put => now.set put.1 (.file (Utf8.encode put.2)) := by
  unfold delivery
  cases loaded : load fs file with
  | error e => rfl
  | ok d =>
      cases prepared : prepare style d file with
      | error e => simp [toFile_eq_match, prepared, bind, Except.bind, Except.map]
      | ok put =>
          obtain ⟨output, text⟩ := put
          obtain ⟨named, -⟩ := prepare_eq_ok_iff.mp prepared
          have there : now.place output.toList = fs.place output.toList :=
            place_output_eq same loaded named
          simp only [toFile_eq_match, prepared, there, bind, Except.bind]
          cases fs.place output.toList <;> rfl

end ManualPages.Conversion
