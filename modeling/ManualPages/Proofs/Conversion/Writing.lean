import ManualPages.Conversion
import ManualPages.Proofs.FileSystem
import ManualPages.Proofs.Sequence

/-! # All or nothing

A page is complete before its file is opened, so whatever fails up to there leaves the files as they
are.  When the file has been opened nothing is left of what it held, and the storage may still stop
before it has taken the whole page.

* `runFrom_convert`: what a conversion comes to and the files behind it, as one equation.
* `Converts`: the ways in which a conversion may end; each one ends so (`converts`).
* `CutOff`: the storage stops within the page.
* `allOrNothing_iff`: all or nothing holds exactly if no page is cut off, or one only where the file
  held the beginning of the page that was taken. -/

namespace ManualPages

namespace Storage

theorem place_eq_ok_iff {storage : Storage} {fs : FileSystem} {name : List Char}
    {loc : Location} : storage.place fs name = .ok loc ↔
      fs.place name = .ok loc ∧ storage.refusal? fs loc = none := by
  unfold place
  cases fs.place name with
  | error e => simp
  | ok there =>
      cases refused : storage.refusal? fs there with
      | some e =>
          simp only [refused, reduceCtorEq, Except.ok.injEq, false_iff, not_and]
          rintro rfl
          simp [refused]
      | none =>
          simp only [refused, Except.ok.injEq]
          constructor
          · rintro rfl
            exact ⟨rfl, refused⟩
          · exact And.left

theorem place_reliable (fs : FileSystem) (name : List Char) :
    reliable.place fs name = fs.place name := by
  unfold place
  cases fs.place name <;> rfl

end Storage

namespace Writing

variable {α β : Type}

theorem runFrom_bind (step : Writing α) (f : α → Writing β) (fs : FileSystem) :
    (step >>= f).runFrom fs = match step.runFrom fs with
      | (.ok a, after) => (f a).runFrom after
      | (.error e, after) => (.error e, after) := by
  unfold runFrom
  have e : (step >>= f).run fs =
      (ExceptT.bindCont f (step.run fs).1 : StateM FileSystem (Except ConversionError β))
        (step.run fs).2 := rfl
  rw [e]
  rcases step.run fs with ⟨_ | _, _⟩ <;> rfl

theorem runFrom_lift (result : Except ConversionError α) (fs : FileSystem) :
    (lift result).runFrom fs = (result, fs) := rfl

theorem runFrom_openEmpty (storage : Storage) (name : String) (fs : FileSystem) :
    (openEmpty storage name).runFrom fs = match storage.place fs name.toList with
      | .ok loc => (.ok loc, fs.set loc (.file []))
      | .error e => (.error (.output (.cannotOpen e)), fs) := rfl

theorem runFrom_append (storage : Storage) (loc : Location) (bytes : List UInt8)
    (fs : FileSystem) : (append storage loc bytes).runFrom fs =
      match storage.fault? fs loc bytes with
      | none => (.ok (), fs.append loc bytes)
      | some fault => (.error (.output (.cannotWrite fault.reason)),
          fs.append loc (bytes.take fault.taken)) := by
  cases stops : storage.fault? fs loc bytes <;> simp [append, runFrom, stops]

theorem runFrom_append_set (storage : Storage) {loc : Location} (h : loc ≠ []) (fs : FileSystem)
    (bytes : List UInt8) : (append storage loc bytes).runFrom (fs.set loc (.file [])) =
      match storage.fault? (fs.set loc (.file [])) loc bytes with
      | none => (.ok (), fs.set loc (.file bytes))
      | some fault => (.error (.output (.cannotWrite fault.reason)),
          fs.set loc (.file (bytes.take fault.taken))) := by
  rw [runFrom_append]
  simp only [FileSystem.append_set h, List.nil_append]

end Writing

namespace Conversion

open Writing

variable {storage : Storage} {style : Page.Style} {d : Document} {input : String}
  {fs : FileSystem}

theorem runFrom_convert (storage : Storage) (style : Page.Style) (d : Document) (input : String)
    (fs : FileSystem) : (convert storage style d input).runFrom fs =
      match prepare style d input with
      | .error e => (.error e, fs)
      | .ok (output, text) =>
        match storage.place fs output.toList with
        | .error e => (.error (.output (.cannotOpen e)), fs)
        | .ok loc =>
          match storage.fault? (fs.set loc (.file [])) loc (Utf8.encode text) with
          | none => (.ok (), fs.set loc (.file (Utf8.encode text)))
          | some fault => (.error (.output (.cannotWrite fault.reason)),
              fs.set loc (.file ((Utf8.encode text).take fault.taken))) := by
  rw [convert, runFrom_bind, runFrom_lift]
  cases prepare style d input with
  | error e => rfl
  | ok put =>
      -- only from here on can the files change
      simp only [runFrom_bind, runFrom_openEmpty]
      cases placed : storage.place fs put.1.toList with
      | error e => rfl
      | ok loc =>
          have root := FileSystem.ne_nil_of_place (Storage.place_eq_ok_iff.mp placed).1
          exact runFrom_append_set storage root fs _

/-- Where all bytes are taken, a conversion that has a page and a place for it succeeds. -/
theorem toFile_eq_match (style : Page.Style) (d : Document) (input : String) (fs : FileSystem) :
    toFile style d input fs = match prepare style d input with
      | .error e => .error e
      | .ok (output, text) =>
        match fs.place output.toList with
        | .error e => .error (.output (.cannotOpen e))
        | .ok loc => .ok (fs.set loc (.file (Utf8.encode text))) := by
  rw [toFile, runFrom_convert]
  cases prepare style d input with
  | error e => rfl
  | ok put =>
      simp only [Storage.place_reliable]
      cases fs.place put.1.toList <;> rfl

/-! ### Why there is nothing to be written -/

theorem outputPath_eq_error_iff {e : ConversionError} : outputPath input = .error e ↔
    e = .samePath input ∧ Path.components (Path.withExtension Page.manualSection.toList
      input.toList) = Path.components input.toList := by
  unfold outputPath
  simp only
  split
  · next same => simp [same, eq_comm]
  · next other => simp [other]

theorem page_eq_ok_iff {text : String} :
    page style d = .ok text ↔ Page.render style d = .ok text := by
  unfold page
  cases Page.render style d <;> simp

theorem page_eq_error_iff {e : ConversionError} :
    page style d = .error e ↔ ∃ fault, Page.render style d = .error fault ∧ e = .page fault := by
  unfold page
  cases Page.render style d <;> simp [eq_comm]

theorem prepare_eq_ok_iff {output text : String} : prepare style d input = .ok (output, text) ↔
    outputPath input = .ok output ∧ page style d = .ok text := by
  simp only [prepare, bind_eq_ok, pure_eq_ok, Prod.mk.injEq]
  constructor
  · rintro ⟨_, named, _, made, rfl, rfl⟩
    exact ⟨named, made⟩
  · rintro ⟨named, made⟩
    exact ⟨output, named, text, made, rfl, rfl⟩

/-- The path is looked at before the page is made. -/
theorem prepare_eq_error_iff {e : ConversionError} : prepare style d input = .error e ↔
    outputPath input = .error e ∨
      ∃ output, outputPath input = .ok output ∧ page style d = .error e := by
  simp only [prepare, bind_eq_error, pure_ne_error, and_false, exists_false, or_false]

/-! ### How a conversion ends -/

/-- A conversion has come to write its page `text` to a file at `loc`, and the storage stops. -/
structure CutOff (storage : Storage) (style : Page.Style) (d : Document) (input : String)
    (fs : FileSystem) (loc : Location) (text : String) (fault : WriteFault) : Prop where
  placed : ∃ output, outputPath input = .ok output ∧ storage.place fs output.toList = .ok loc
  made : Page.render style d = .ok text
  stops : storage.fault? (fs.set loc (.file [])) loc (Utf8.encode text) = some fault

/-- What a conversion comes to, and the files behind it. -/
inductive Converts (storage : Storage) (style : Page.Style) (d : Document) (input : String)
    (fs : FileSystem) : Except ConversionError Unit → FileSystem → Prop
  /-- The page would go where the document is. -/
  | samePath (same : Path.components (Path.withExtension Page.manualSection.toList
      input.toList) = Path.components input.toList) :
      Converts storage style d input fs (.error (.samePath input)) fs
  /-- There is no page. -/
  | faulty {output : String} {fault : Page.Fault} (named : outputPath input = .ok output)
      (faulty : Page.render style d = .error fault) :
      Converts storage style d input fs (.error (.page fault)) fs
  /-- The file for the page cannot be opened. -/
  | refused {output text : String} {e : FileError} (named : outputPath input = .ok output)
      (made : Page.render style d = .ok text)
      (refused : storage.place fs output.toList = .error e) :
      Converts storage style d input fs (.error (.output (.cannotOpen e))) fs
  /-- The page is put there, and nowhere else. -/
  | written {output text : String} {loc : Location} {after : FileSystem}
      (named : outputPath input = .ok output) (made : Page.render style d = .ok text)
      (located : fs.locate output.toList = .ok loc)
      (taken : storage.fault? (fs.set loc (.file [])) loc (Utf8.encode text) = none)
      (holds : after.lookup loc = some (.file (Utf8.encode text)))
      (opens : after.openFile output.toList = .ok (.file (Utf8.encode text)))
      (others : fs.UnchangedBut loc after) :
      Converts storage style d input fs (.ok ()) after
  /-- What was taken of the page is there, and nothing of what was there before. -/
  | cutOff {loc : Location} {text : String} {fault : WriteFault} {after : FileSystem}
      (cut : CutOff storage style d input fs loc text fault)
      (holds : after.lookup loc = some (.file ((Utf8.encode text).take fault.taken)))
      (others : fs.UnchangedBut loc after) :
      Converts storage style d input fs (.error (.output (.cannotWrite fault.reason))) after

theorem Converts.of_place {output text : String} {loc : Location}
    (named : outputPath input = .ok output) (made : Page.render style d = .ok text)
    (placed : fs.place output.toList = .ok loc)
    (taken : storage.fault? (fs.set loc (.file [])) loc (Utf8.encode text) = none) :
    Converts storage style d input fs (.ok ()) (fs.set loc (.file (Utf8.encode text))) := by
  obtain ⟨located, free⟩ := FileSystem.place_eq_ok_iff.mp placed
  have holds : (fs.set loc (.file (Utf8.encode text))).lookup loc =
      some (.file (Utf8.encode text)) :=
    FileSystem.lookup_set_self (FileSystem.ne_nil_of_place placed) _
  have there := (FileSystem.SameDirectories.set free (Utf8.encode text)).locate located
  have opens : (fs.set loc (.file (Utf8.encode text))).openFile output.toList =
      .ok (.file (Utf8.encode text)) := by
    rw [FileSystem.openFile_eq_lookup there, holds]
  exact .written named made located taken holds opens (FileSystem.unchangedBut_set loc fs _)

theorem CutOff.ne_nil {loc : Location} {text : String} {fault : WriteFault}
    (cut : CutOff storage style d input fs loc text fault) : loc ≠ [] := by
  obtain ⟨output, -, placed⟩ := cut.placed
  exact FileSystem.ne_nil_of_place (Storage.place_eq_ok_iff.mp placed).1

theorem CutOff.runFrom_eq {loc : Location} {text : String} {fault : WriteFault}
    (cut : CutOff storage style d input fs loc text fault) :
    (convert storage style d input).runFrom fs =
      (.error (.output (.cannotWrite fault.reason)),
        fs.set loc (.file ((Utf8.encode text).take fault.taken))) := by
  obtain ⟨output, named, placed⟩ := cut.placed
  have prepared := prepare_eq_ok_iff.mpr ⟨named, page_eq_ok_iff.mpr cut.made⟩
  simp only [runFrom_convert, prepared, placed, cut.stops]

theorem converts (storage : Storage) (style : Page.Style) (d : Document) (input : String)
    (fs : FileSystem) : Converts storage style d input fs
      ((convert storage style d input).runFrom fs).1
      ((convert storage style d input).runFrom fs).2 := by
  cases prepared : prepare style d input with
  | error e =>
      simp only [runFrom_convert, prepared]
      rcases prepare_eq_error_iff.mp prepared with refused | ⟨output, named, faulty⟩
      · obtain ⟨rfl, same⟩ := outputPath_eq_error_iff.mp refused
        exact .samePath same
      · obtain ⟨fault, unmade, rfl⟩ := page_eq_error_iff.mp faulty
        exact .faulty named unmade
  | ok put =>
      obtain ⟨output, text⟩ := put
      obtain ⟨named, made⟩ := prepare_eq_ok_iff.mp prepared
      have made := page_eq_ok_iff.mp made
      cases placed : storage.place fs output.toList with
      | error e =>
          simp only [runFrom_convert, prepared, placed]
          exact .refused named made placed
      | ok loc =>
          cases stops : storage.fault? (fs.set loc (.file [])) loc (Utf8.encode text) with
          | none =>
              simp only [runFrom_convert, prepared, placed, stops]
              exact .of_place named made (Storage.place_eq_ok_iff.mp placed).1 stops
          | some fault =>
              have cut : CutOff storage style d input fs loc text fault :=
                ⟨⟨output, named, placed⟩, made, stops⟩
              rw [cut.runFrom_eq]
              exact .cutOff cut (FileSystem.lookup_set_self cut.ne_nil _)
                (FileSystem.unchangedBut_set loc fs _)

/-! ### All or nothing -/

/-- Behind a success the page is in its file and all else is as it was; behind a failure everything
is as it was. -/
def AllOrNothing (style : Page.Style) (d : Document) (input : String) (fs : FileSystem)
    (result : Except ConversionError Unit) (after : FileSystem) : Prop :=
  match result with
  | .ok () => ∃ output text loc, outputPath input = .ok output ∧
      Page.render style d = .ok text ∧ fs.locate output.toList = .ok loc ∧
      after.lookup loc = some (.file (Utf8.encode text)) ∧ fs.UnchangedBut loc after
  | .error _ => fs.Unchanged after

theorem Converts.allOrNothing {result : Except ConversionError Unit} {after : FileSystem}
    (ends : Converts storage style d input fs result after)
    (kept : ∀ loc text fault, CutOff storage style d input fs loc text fault →
      fs.lookup loc = some (.file ((Utf8.encode text).take fault.taken))) :
    AllOrNothing style d input fs result after := by
  cases ends with
  | samePath same => exact .refl fs
  | faulty named faulty => exact .refl fs
  | refused named made refused => exact .refl fs
  | written named made located taken holds opens others =>
      exact ⟨_, _, _, named, made, located, holds, others⟩
  | cutOff cut holds others =>
      exact others.unchanged (holds.trans (kept _ _ _ cut).symm)

/-- **A conversion is all or nothing unless its page is cut off.**  It ends in one of the ways of
`Converts`, and all of them but the last are all or nothing.  Where the storage stops within the
page, the file holds what was taken of it, so that nothing has changed only if the file had held
just that before. -/
theorem allOrNothing_iff (storage : Storage) (style : Page.Style) (d : Document) (input : String)
    (fs : FileSystem) :
    Converts storage style d input fs ((convert storage style d input).runFrom fs).1
      ((convert storage style d input).runFrom fs).2 ∧
    (AllOrNothing style d input fs ((convert storage style d input).runFrom fs).1
        ((convert storage style d input).runFrom fs).2 ↔
      ∀ loc text fault, CutOff storage style d input fs loc text fault →
        fs.lookup loc = some (.file ((Utf8.encode text).take fault.taken))) := by
  have ends := converts storage style d input fs
  refine ⟨ends, fun whole loc text fault cut => ?_, ends.allOrNothing⟩
  rw [cut.runFrom_eq] at whole
  rw [← whole.lookup loc, FileSystem.lookup_set_self cut.ne_nil]

/-- A document, and an older page in the file that its page goes into. -/
def withOldPage : FileSystem :=
  ⟨[(["a.json".toList], .file [123, 125]), (["a.1".toList], .file [111, 108, 100])], []⟩

/-- No title, no generator and some date. -/
def plainStyle : Page.Style := ⟨.default, ⟨1970, 1, 1, by decide, by decide⟩⟩

/-- On a full disk a conversion fails, and the old page is lost to the beginning of the new one. -/
theorem not_allOrNothing_fullDisk :
    withOldPage.size = 5 ∧
    (∃ text, CutOff (.disk 5) plainStyle ⟨none, []⟩ "a.json" withOldPage ["a.1".toList] text
      ⟨3, .noSpace⟩) ∧
    withOldPage.lookup ["a.1".toList] = some (.file [111, 108, 100]) ∧
    ((convert (.disk 5) plainStyle ⟨none, []⟩ "a.json").runFrom withOldPage).2.lookup
      ["a.1".toList] = some (.file [46, 92, 34]) ∧
    ¬ AllOrNothing plainStyle ⟨none, []⟩ "a.json" withOldPage
      ((convert (.disk 5) plainStyle ⟨none, []⟩ "a.json").runFrom withOldPage).1
      ((convert (.disk 5) plainStyle ⟨none, []⟩ "a.json").runFrom withOldPage).2 := by
  have page : (Page.render plainStyle ⟨none, []⟩).toOption.any (fun text =>
      decide ((Utf8.encode text).take 3 = [46, 92, 34] ∧ 3 < (Utf8.encode text).length)) =
        true := by
    decide +kernel
  cases made : Page.render plainStyle ⟨none, []⟩ with
  | error fault =>
      rw [made] at page
      cases page
  | ok text =>
      rw [made] at page
      obtain ⟨beginning, long⟩ := of_decide_eq_true page
      have room : (withOldPage.set ["a.1".toList] (.file [])).size = 2 := by decide
      have cut : CutOff (.disk 5) plainStyle ⟨none, []⟩ "a.json" withOldPage ["a.1".toList] text
          ⟨3, .noSpace⟩ := by
        refine ⟨⟨"a.1", rfl, rfl⟩, made, ?_⟩
        simp only [Storage.disk, room]
        exact if_neg (Nat.not_le.mpr long)
      have before : withOldPage.lookup ["a.1".toList] = some (.file [111, 108, 100]) := by decide
      refine ⟨by decide, ⟨text, cut⟩, before, ?_, fun whole => ?_⟩
      · rw [cut.runFrom_eq, FileSystem.lookup_set_self (by decide), beginning]
      · have kept := (allOrNothing_iff (.disk 5) plainStyle ⟨none, []⟩ "a.json"
          withOldPage).2.mp whole ["a.1".toList] text ⟨3, .noSpace⟩ cut
        rw [before, beginning] at kept
        cases kept

end Conversion

end ManualPages
