import ManualPages.Proofs.Command.Run
import ManualPages.Proofs.Text.Utf8

/-! # What a run leaves behind

After a run a place holds the page of one of the inputs whose pages go there, or what it held
before if there is no such input: `lookup_runToFiles`.  Pages of different inputs may have one
place, and an input may be the place of another one's page.

* `delivered_iff_of_shared`: a run that succeeds has delivered all pages exactly if inputs with one
  output file have the same page.
* `input_after_run`: a file stays as it is unless the page of another input goes there. -/

namespace ManualPages.Command

open Conversion (delivery pageFrom outputPath)

variable {style : Page.Style} {fs : FileSystem} {order : List Nat}

theorem mem_writes_iff {files : List String} {loc : Location} {entry : Entry} :
    (loc, entry) ∈ writes style fs files ↔ ∃ file ∈ files, ∃ page,
      delivery style fs file = .ok (loc, page) ∧ entry = .file (Utf8.encode page) := by
  rw [writes, List.mem_filterMap]
  constructor
  · rintro ⟨file, hf, h⟩
    cases e : delivery style fs file with
    | error _ =>
        rw [e] at h
        cases h
    | ok put =>
        rw [e] at h
        cases h
        exact ⟨file, hf, put.2, e, rfl⟩
  · rintro ⟨file, hf, page, e, rfl⟩
    exact ⟨file, hf, by rw [e]⟩

/-- A place holds the page of an input that goes there, or what it held before. -/
theorem lookup_setAll_writes (style : Page.Style) (fs : FileSystem) (files : List String)
    (loc : Location) :
    (∃ file ∈ files, ∃ page, delivery style fs file = .ok (loc, page) ∧
      (fs.setAll (writes style fs files)).lookup loc = some (.file (Utf8.encode page))) ∨
    ((∀ file ∈ files, ∀ page, delivery style fs file ≠ .ok (loc, page)) ∧
      (fs.setAll (writes style fs files)).lookup loc = fs.lookup loc) := by
  by_cases root : loc = []
  · -- the root stays a directory, and no page goes there
    subst root
    right
    refine ⟨?_, rfl⟩
    intro file _ page h
    exact Conversion.lookup_ne_directory_of_delivery h rfl
  · rw [FileSystem.lookup_setAll fs root]
    cases last : (writes style fs files).reverse.lookup loc with
    | none =>
        right
        refine ⟨?_, rfl⟩
        intro file hf page h
        have absent := List.lookup_eq_none_iff.mp last
        have put := mem_writes_iff.mpr ⟨file, hf, page, h, rfl⟩
        simpa using absent _ (List.mem_reverse.mpr put)
    | some entry =>
        obtain ⟨after, before, split, -⟩ := List.lookup_eq_some_iff.mp last
        have put : (loc, entry) ∈ writes style fs files := by
          rw [← List.mem_reverse, split]
          simp
        obtain ⟨file, hf, page, h, rfl⟩ := mem_writes_iff.mp put
        left
        exact ⟨file, hf, page, h, rfl⟩

theorem files_runToFiles (i : Invocation) (date : Date) (fs : FileSystem)
    (h : order.Perm (List.range i.files.length)) :
    (runToFiles i date order fs).files =
      fs.setAll (writes (styleOf i date) fs (inOrder i.files order)) := by
  rw [runToFiles_eq i date fs h]
  rfl

theorem sameDirectories_runToFiles (i : Invocation) (date : Date) (fs : FileSystem)
    (h : order.Perm (List.range i.files.length)) :
    fs.SameDirectories (runToFiles i date order fs).files := by
  rw [files_runToFiles i date fs h]
  exact (convertInOrder_eq (styleOf i date) (.refl fs) i.files order).2

/-- After a run, whatever its order is, a place holds the page of an input that goes there, or what
it held before. -/
theorem lookup_runToFiles (i : Invocation) (date : Date) (fs : FileSystem)
    (h : order.Perm (List.range i.files.length)) (loc : Location) :
    (∃ file ∈ i.files, ∃ page, delivery (styleOf i date) fs file = .ok (loc, page) ∧
      (runToFiles i date order fs).files.lookup loc = some (.file (Utf8.encode page))) ∨
    ((∀ file ∈ i.files, ∀ page, delivery (styleOf i date) fs file ≠ .ok (loc, page)) ∧
      (runToFiles i date order fs).files.lookup loc = fs.lookup loc) := by
  have all := lookup_setAll_writes (styleOf i date) fs (inOrder i.files order) loc
  rw [files_runToFiles i date fs h]
  simpa only [(inOrder_perm i.files h).mem_iff] using all

/-! ### Delivery -/

/-- The output file of an input holds its page. -/
def Delivered (style : Page.Style) (before after : FileSystem) (file : String) : Prop :=
  ∃ output page, outputPath file = .ok output ∧ pageFrom style before file = .ok page ∧
    after.openFile output.toList = .ok (.file (Utf8.encode page))

/-- The two inputs have one output file. -/
def ShareOutput (fs : FileSystem) (file other : String) : Prop :=
  ∃ output output' loc, outputPath file = .ok output ∧ outputPath other = .ok output' ∧
    fs.place output.toList = .ok loc ∧ fs.place output'.toList = .ok loc

theorem delivered_iff_lookup {after : FileSystem} {file page : String} {loc : Location}
    (same : fs.SameDirectories after) (h : delivery style fs file = .ok (loc, page)) :
    Delivered style fs after file ↔ after.lookup loc = some (.file (Utf8.encode page)) := by
  obtain ⟨output, named, made, placed⟩ := Conversion.delivery_eq_ok_iff.mp h
  have located := same.locate (FileSystem.place_eq_ok_iff.mp placed).1
  have opened : after.openFile output.toList = .ok (.file (Utf8.encode page)) ↔
      after.lookup loc = some (.file (Utf8.encode page)) := by
    rw [FileSystem.openFile_eq_lookup located]
    cases after.lookup loc <;> simp
  rw [← opened]
  constructor
  · rintro ⟨output', page', named', made', held⟩
    rw [named] at named'
    rw [made] at made'
    cases named'
    cases made'
    exact held
  · intro held
    exact ⟨output, page, named, made, held⟩

theorem shareOutput_of_delivery {file other page page' : String} {loc : Location}
    (h : delivery style fs file = .ok (loc, page))
    (h' : delivery style fs other = .ok (loc, page')) : ShareOutput fs file other := by
  obtain ⟨output, named, -, placed⟩ := Conversion.delivery_eq_ok_iff.mp h
  obtain ⟨output', named', -, placed'⟩ := Conversion.delivery_eq_ok_iff.mp h'
  exact ⟨output, output', loc, named, named', placed, placed'⟩

/-- If no conversion fails, every page goes somewhere. -/
theorem exists_delivery_of_exitCode (i : Invocation) (date : Date) (fs : FileSystem)
    (h : order.Perm (List.range i.files.length))
    (done : (runToFiles i date order fs).exitCode = 0) {file : String} (hf : file ∈ i.files) :
    ∃ loc page, delivery (styleOf i date) fs file = .ok (loc, page) := by
  have tells : (runToFiles i date order fs).CodeTells := codeTells_conclude ..
  rcases tells with ⟨none, _⟩ | ⟨_, one⟩
  · rw [failures_runToFiles i date fs h, List.flatMap_eq_nil_iff] at none
    have alone := none file hf
    cases e : delivery (styleOf i date) fs file with
    | error _ =>
        rw [resultOf, e] at alone
        cases alone
    | ok put => exact ⟨put.1, put.2, rfl⟩
  · rw [one] at done
    cases done

/-- **A run that succeeds delivers what has a place of its own.**  The page of an input is in its
output file if every input with the same output file has the same page; and all pages are delivered
only if that is so for all inputs, whatever the order of the conversions is. -/
theorem delivered_iff_of_shared (i : Invocation) (date : Date) (fs : FileSystem)
    (h : order.Perm (List.range i.files.length))
    (done : (runToFiles i date order fs).exitCode = 0) :
    (∀ file ∈ i.files, (∀ other ∈ i.files, ShareOutput fs file other →
        pageFrom (styleOf i date) fs other = pageFrom (styleOf i date) fs file) →
      Delivered (styleOf i date) fs (runToFiles i date order fs).files file) ∧
    ((∀ file ∈ i.files, Delivered (styleOf i date) fs (runToFiles i date order fs).files file) ↔
      ∀ file ∈ i.files, ∀ other ∈ i.files, ShareOutput fs file other →
        pageFrom (styleOf i date) fs other = pageFrom (styleOf i date) fs file) := by
  have same : fs.SameDirectories (runToFiles i date order fs).files :=
    sameDirectories_runToFiles i date fs h
  have alone : ∀ file ∈ i.files, (∀ other ∈ i.files, ShareOutput fs file other →
      pageFrom (styleOf i date) fs other = pageFrom (styleOf i date) fs file) →
        Delivered (styleOf i date) fs (runToFiles i date order fs).files file := by
    intro file hf unrivalled
    -- whichever page was put there last, it is that of an input with the same output file
    obtain ⟨loc, page, put⟩ := exists_delivery_of_exitCode i date fs h done hf
    rw [delivered_iff_lookup same put]
    rcases lookup_runToFiles i date fs h loc with
      ⟨other, ho, page', put', held⟩ | ⟨none, _⟩
    · have equal := unrivalled other ho (shareOutput_of_delivery put put')
      obtain ⟨-, -, made, -⟩ := Conversion.delivery_eq_ok_iff.mp put
      obtain ⟨-, -, made', -⟩ := Conversion.delivery_eq_ok_iff.mp put'
      rw [made, made'] at equal
      cases equal
      exact held
    · exact absurd put (none file hf page)
  refine ⟨alone, ?_, ?_⟩
  · intro all file hf other ho shared
    obtain ⟨output, output', loc, named, named', placed, placed'⟩ := shared
    have made : ∀ input ∈ i.files, ∃ page, pageFrom (styleOf i date) fs input = .ok page := by
      intro input hi
      obtain ⟨_, page, _, made, _⟩ := all input hi
      exact ⟨page, made⟩
    obtain ⟨page, first⟩ := made file hf
    obtain ⟨page', second⟩ := made other ho
    have put := Conversion.delivery_eq_ok_iff.mpr ⟨output, named, first, placed⟩
    have put' := Conversion.delivery_eq_ok_iff.mpr ⟨output', named', second, placed'⟩
    have held := (delivered_iff_lookup same put).mp (all file hf)
    have held' := (delivered_iff_lookup same put').mp (all other ho)
    rw [held] at held'
    have bytes : Utf8.encode page = Utf8.encode page' := by simpa using held'
    rw [first, second, Utf8.encode_injective bytes]
  · intro equal file hf
    exact alone file hf (equal file hf)

/-- Two inputs that differ in their extensions only. -/
def sameStem : FileSystem :=
  ⟨[(["a.json".toList], .file [123, 125]), (["a.txt".toList], .file [123, 125])], []⟩

/-- One of the two pages is lost, and nothing fails. -/
theorem lost_page_sameStem :
    (runToFiles (.onFiles ["a.json", "a.txt"]) someDate [0, 1] sameStem).exitCode = 0 ∧
    ¬ ∀ file ∈ ["a.json", "a.txt"], Delivered (styleOf (.onFiles ["a.json", "a.txt"]) someDate)
      sameStem (runToFiles (.onFiles ["a.json", "a.txt"]) someDate [0, 1] sameStem).files file := by
  have done :
      (runToFiles (.onFiles ["a.json", "a.txt"]) someDate [0, 1] sameStem).exitCode = 0 := by
    decide +kernel
  refine ⟨done, ?_⟩
  intro all
  have equal := (delivered_iff_of_shared _ _ _ (by decide) done).2.mp all
  have shared : ShareOutput sameStem "a.json" "a.txt" :=
    ⟨"a.1", "a.1", ["a.1".toList], rfl, rfl, rfl, rfl⟩
  have pages := equal "a.json" (by decide) "a.txt" (by decide) shared
  have differ : (pageFrom (styleOf (.onFiles ["a.json", "a.txt"]) someDate) sameStem
      "a.txt").toOption ≠ (pageFrom (styleOf (.onFiles ["a.json", "a.txt"]) someDate) sameStem
        "a.json").toOption := by
    decide +kernel
  exact differ (congrArg Except.toOption pages)

/-! ### Inputs -/

/-- **An input stays as it is unless another page goes there.**  Its own page never does; if the
page of another input does, the input holds such a page after the run, whatever the order of the
conversions is and whether they fail or not. -/
theorem input_after_run (i : Invocation) (date : Date) (fs : FileSystem)
    (h : order.Perm (List.range i.files.length)) {file : String}
    {loc : Location} (located : fs.locate file.toList = .ok loc) :
    (∀ page, delivery (styleOf i date) fs file ≠ .ok (loc, page)) ∧
    ((∀ other ∈ i.files, other ≠ file → ∀ page,
        delivery (styleOf i date) fs other ≠ .ok (loc, page)) →
      (runToFiles i date order fs).files.openFile file.toList = fs.openFile file.toList) ∧
    ((∃ other ∈ i.files, ∃ page, delivery (styleOf i date) fs other = .ok (loc, page)) →
      ∃ other ∈ i.files, other ≠ file ∧ ∃ page,
        delivery (styleOf i date) fs other = .ok (loc, page) ∧
        (runToFiles i date order fs).files.openFile file.toList =
          .ok (.file (Utf8.encode page))) := by
  have own : ∀ page, delivery (styleOf i date) fs file ≠ .ok (loc, page) :=
    Conversion.delivery_ne located
  have located' := (sameDirectories_runToFiles i date fs h).locate located
  have opened := FileSystem.openFile_eq_lookup located'
  refine ⟨own, ?_, ?_⟩
  · intro free
    rw [opened, FileSystem.openFile_eq_lookup located]
    rcases lookup_runToFiles i date fs h loc with
      ⟨other, ho, page, put, _⟩ | ⟨_, kept⟩
    · by_cases e : other = file
      · subst e
        exact absurd put (own page)
      · exact absurd put (free other ho e page)
    · rw [kept]
  · rintro ⟨rival, hr, page', put'⟩
    rcases lookup_runToFiles i date fs h loc with
      ⟨other, ho, page, put, held⟩ | ⟨none, _⟩
    · refine ⟨other, ho, ?_, page, put, ?_⟩
      · rintro rfl
        exact own page put
      · rw [opened, held]
    · exact absurd put' (none rival hr page')

/-- Two inputs; the second one is named like the page of the first. -/
def namedLikePage : FileSystem :=
  ⟨[(["a.json".toList], .file [123, 125]), (["a.1".toList], .file [123, 125])], []⟩

/-- The second input is gone after the run. -/
theorem overwritten_namedLikePage : [0, 1].Perm (List.range 2) ∧
    namedLikePage.openFile "a.1".toList = .ok (.file [123, 125]) ∧
    (runToFiles (.onFiles ["a.json", "a.1"]) someDate [0, 1] namedLikePage).files.openFile
      "a.1".toList ≠ .ok (.file [123, 125]) := by
  have order : [0, 1].Perm (List.range 2) := by decide
  have located : namedLikePage.locate "a.1".toList = .ok ["a.1".toList] := rfl
  have goes : ∃ put, delivery (styleOf (.onFiles ["a.json", "a.1"]) someDate) namedLikePage
      "a.json" = .ok put ∧ put.1 = ["a.1".toList] ∧ Utf8.encode put.2 ≠ [123, 125] := by
    have run : (delivery (styleOf (.onFiles ["a.json", "a.1"]) someDate) namedLikePage
        "a.json").toOption.any (fun put =>
          put.1 == ["a.1".toList] && Utf8.encode put.2 != [123, 125]) = true := by
      decide +kernel
    cases e : delivery (styleOf (.onFiles ["a.json", "a.1"]) someDate) namedLikePage "a.json" with
    | error _ =>
        rw [e] at run
        cases run
    | ok put =>
        rw [e] at run
        exact ⟨put, rfl, by simpa [Except.toOption] using run⟩
  obtain ⟨⟨loc, page⟩, put, rfl, other⟩ := goes
  obtain ⟨-, -, replaced⟩ := input_after_run (.onFiles ["a.json", "a.1"]) someDate
    namedLikePage order located
  obtain ⟨writer, named, ne, page', put', held⟩ := replaced ⟨"a.json", by decide, page, put⟩
  have same : writer = "a.json" := by
    have either : writer = "a.json" ∨ writer = "a.1" := by simpa [Invocation.onFiles] using named
    exact either.resolve_right ne
  rw [same, put] at put'
  cases put'
  refine ⟨order, rfl, ?_⟩
  intro unchanged
  apply other
  rw [held] at unchanged
  simpa using unchanged

end ManualPages.Command
