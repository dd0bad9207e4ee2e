import ManualPages.Command.Run
import ManualPages.Proofs.Conversion
import Mathlib.Data.List.Basic

/-! # Runs over files

All inputs are loaded before anything is written, and a conversion writes into a place that was
already reached from its input.  So what a conversion does in a run is what it would have done at
the beginning: `convertOne_eq` for one of them, `convertInOrder_eq` for many in any order.  An input
fails exactly if it fails alone, and the failures are listed in the order of the arguments:
`reportsAsAlone`. -/

namespace ManualPages.Command

open Conversion (delivery pageFrom)

variable {style : Page.Style} {fs now : FileSystem} {file : String}

/-! ### The conversions one after the other -/

/-- What the conversion of an input comes to. -/
def resultOf (style : Page.Style) (fs : FileSystem) (file : String) :
    Except ConversionError Unit := (delivery style fs file).map fun _ => ()

/-- What is put where when inputs are converted in this order. -/
def writes (style : Page.Style) (fs : FileSystem) (files : List String) :
    List (Location × Entry) :=
  files.filterMap fun file =>
    match delivery style fs file with
    | .ok put => some (put.1, .file (Utf8.encode put.2))
    | .error _ => none

theorem convertOne_eq (same : fs.SameDirectories now) (file : String) :
    convertOne style ⟨file, Conversion.load fs file⟩ now =
      (resultOf style fs file, now.setAll (writes style fs [file])) := by
  unfold convertOne
  rw [Conversion.toFile_eq same, resultOf, writes, List.filterMap_cons, List.filterMap_nil]
  cases delivery style fs file <;> rfl

theorem sameDirectories_setAll_writes (style : Page.Style) (same : fs.SameDirectories now)
    (file : String) :
    fs.SameDirectories (now.setAll (writes style fs [file])) := by
  rw [writes, List.filterMap_cons, List.filterMap_nil]
  cases h : delivery style fs file with
  | error e => exact same
  | ok put =>
      have free : now.lookup put.1 ≠ some .directory := by
        intro e
        exact Conversion.lookup_ne_directory_of_delivery h ((same.directory put.1).mpr e)
      exact same.trans (.set free _)

/-- The inputs with these numbers, in this order. -/
def inOrder {α : Type} (inputs : List α) (order : List Nat) : List α :=
  order.filterMap fun i => inputs[i]?

theorem getElem?_loadAll (fs : FileSystem) (files : List String) (i : Nat) :
    (loadAll fs files)[i]? = files[i]?.map fun file => ⟨file, Conversion.load fs file⟩ :=
  List.getElem?_map

/-- What a conversion does is not changed by what the earlier ones have written. -/
theorem convertInOrder_eq (style : Page.Style) (same : fs.SameDirectories now)
    (files : List String) (order : List Nat) :
    convertInOrder style (loadAll fs files) order now =
      (order.filterMap fun i => files[i]?.map fun file => (i, resultOf style fs file),
        now.setAll (writes style fs (inOrder files order))) ∧
      fs.SameDirectories (now.setAll (writes style fs (inOrder files order))) := by
  -- The files change from step to step; that the directories do not is what carries the induction.
  induction order generalizing now with
  | nil => exact ⟨rfl, same⟩
  | cons i order ih =>
      unfold convertInOrder
      rw [getElem?_loadAll]
      cases h : files[i]? with
      | none => simpa [inOrder, h] using ih same
      | some file =>
          obtain ⟨run, same'⟩ := ih (sameDirectories_setAll_writes style same file)
          have first : writes style fs (inOrder files (i :: order)) =
              writes style fs [file] ++ writes style fs (inOrder files order) := by
            rw [writes, writes, writes, ← List.filterMap_append, inOrder, List.filterMap_cons, h]
            rfl
          rw [first, FileSystem.setAll_append]
          refine ⟨?_, same'⟩
          simp only [Option.map_some, convertOne_eq same file, run, List.filterMap_cons, h]

/-! ### The results in the order of the arguments -/

/-- The result of an input, if each input has one result however often it was converted. -/
theorem lookup_filterMap_of_mem {α β : Type} {f : α → β} {inputs : List α} {order : List Nat}
    {i : Nat} {a : α} (h : i ∈ order) (ha : inputs[i]? = some a) :
    (order.filterMap fun j => inputs[j]?.map fun b => (j, f b)).lookup i = some (f a) := by
  induction order with
  | nil => cases h
  | cons j order ih =>
      by_cases e : i = j
      · subst e
        rw [List.filterMap_cons, ha]
        exact List.lookup_cons_self
      · have rest := ih ((List.mem_cons.mp h).resolve_left e)
        rw [List.filterMap_cons]
        cases inputs[j]? with
        | none => exact rest
        | some b =>
            have other : (i == j) = false := by simpa using e
            rw [← rest]
            simp [List.lookup_cons, other]

theorem inOrder_range {α : Type} (inputs : List α) :
    inOrder inputs (List.range inputs.length) = inputs := by
  have all : (List.range inputs.length).map (fun i => inputs[i]?) = inputs.map some := by
    apply List.ext_getElem
    · simp
    · intro i h _
      simp
  calc inOrder inputs (List.range inputs.length)
      = ((List.range inputs.length).map fun i => inputs[i]?).filterMap id := by
        rw [List.filterMap_map]
        rfl
    _ = inputs := by
        rw [all]
        simp

theorem inOrder_perm {α : Type} (inputs : List α) {order : List Nat}
    (h : order.Perm (List.range inputs.length)) : (inOrder inputs order).Perm inputs := by
  have all : (inOrder inputs order).Perm (inOrder inputs (List.range inputs.length)) :=
    h.filterMap _
  rwa [inOrder_range] at all

/-- The results stand at their inputs again. -/
theorem inArgumentOrder_eq (files : List String) {order : List Nat}
    (h : order.Perm (List.range files.length)) :
    inArgumentOrder (loadAll fs files)
      (order.filterMap fun i => files[i]?.map fun file => (i, resultOf style fs file)) =
        files.map fun file => (file, resultOf style fs file) := by
  have each : ∀ p ∈ (loadAll fs files).zipIdx,
      ((order.filterMap fun i => files[i]?.map fun file => (i, resultOf style fs file)).lookup
        p.2).map (fun result => (p.1.file, result)) =
        some (p.1.file, resultOf style fs p.1.file) := by
    rintro ⟨input, i⟩ hp
    have hi := List.mk_mem_zipIdx_iff_getElem?.mp hp
    rw [getElem?_loadAll, Option.map_eq_some_iff] at hi
    obtain ⟨file, hf, rfl⟩ := hi
    have bound : i ∈ order := by
      rw [h.mem_iff, List.mem_range]
      exact (List.getElem?_eq_some_iff.mp hf).1
    rw [lookup_filterMap_of_mem bound hf]
    rfl
  calc inArgumentOrder (loadAll fs files) _
      = (loadAll fs files).zipIdx.map fun p => (p.1.file, resultOf style fs p.1.file) :=
        List.filterMap_eq_map_iff_forall_eq_some.mpr each
    _ = ((loadAll fs files).zipIdx.map Prod.fst).map fun input =>
          (input.file, resultOf style fs input.file) := by
        rw [List.map_map]
        rfl
    _ = files.map fun file => (file, resultOf style fs file) := by
        rw [List.zipIdx_map_fst, loadAll, List.map_map]
        rfl

theorem runToFiles_eq (i : Invocation) (date : Date) (fs : FileSystem) {order : List Nat}
    (h : order.Perm (List.range i.files.length)) : runToFiles i date order fs =
      conclude i (loadAll fs i.files)
        (i.files.map fun file => (file, resultOf (styleOf i date) fs file)) ""
        (fs.setAll (writes (styleOf i date) fs (inOrder i.files order))) := by
  have run := (convertInOrder_eq (styleOf i date) (.refl fs) i.files order).1
  simp only [runToFiles, run, inArgumentOrder_eq i.files h]

theorem runToStdout_eq (i : Invocation) (date : Date) (fs : FileSystem) :
    runToStdout i date fs = conclude i (loadAll fs i.files)
      (i.files.map fun file => (file, pageFrom (styleOf i date) fs file))
      (String.join (i.files.filterMap fun file => (pageFrom (styleOf i date) fs file).toOption))
      fs := by
  have results : (loadAll fs i.files).map
      (fun input => (input.file, pageOf (styleOf i date) input)) =
        i.files.map fun file => (file, pageFrom (styleOf i date) fs file) := by
    rw [loadAll, List.map_map]
    rfl
  simp only [runToStdout, results, List.filterMap_map]
  rfl

/-! ### Inputs alone -/

/-- The same invocation for one input. -/
def Invocation.alone (i : Invocation) (toStdout : Bool) (file : String) : Invocation :=
  { i with files := [file], fromStdin := false, toStdout := toStdout }

/-- The failure that a result is. -/
def failureOf {α : Type} (file : String) :
    Except ConversionError α → List (String × ConversionError)
  | .ok _ => []
  | .error e => [(file, e)]

theorem failures_map {α : Type} (files : List String) (f : String → Except ConversionError α) :
    failures (files.map fun file => (file, f file)) =
      files.flatMap fun file => failureOf file (f file) := by
  induction files with
  | nil => rfl
  | cons file files ih =>
      rw [List.flatMap_cons, ← ih, List.map_cons, failures, List.filterMap_cons]
      cases f file <;> rfl

theorem failures_runToFiles (i : Invocation) (date : Date) (fs : FileSystem) {order : List Nat}
    (h : order.Perm (List.range i.files.length)) : (runToFiles i date order fs).failures =
      i.files.flatMap fun file => failureOf file (resultOf (styleOf i date) fs file) := by
  rw [runToFiles_eq i date fs h]
  exact failures_map ..

theorem failures_runToStdout (i : Invocation) (date : Date) (fs : FileSystem) :
    (runToStdout i date fs).failures =
      i.files.flatMap fun file => failureOf file (pageFrom (styleOf i date) fs file) := by
  rw [runToStdout_eq]
  exact failures_map ..

theorem failures_alone_toFiles (i : Invocation) (date : Date) (stdin : String) (fs : FileSystem)
    (file : String) : (runInvocation (i.alone false file) date stdin fs).failures =
      failureOf file (resultOf (styleOf i date) fs file) := by
  have one := failures_runToFiles (i.alone false file) date fs (.refl _)
  change _ = [file].flatMap _ at one
  rw [List.flatMap_singleton] at one
  exact one

theorem failures_alone_toStdout (i : Invocation) (date : Date) (stdin : String) (fs : FileSystem)
    (file : String) : (runInvocation (i.alone true file) date stdin fs).failures =
      failureOf file (pageFrom (styleOf i date) fs file) := by
  have one := failures_runToStdout (i.alone true file) date fs
  change _ = [file].flatMap _ at one
  rw [List.flatMap_singleton] at one
  exact one

/-- The exit code tells whether something failed. -/
def Outcome.CodeTells (o : Outcome) : Prop :=
  (o.failures = [] ∧ o.exitCode = 0) ∨ (o.failures ≠ [] ∧ o.exitCode = 1)

theorem codeTells_conclude {α : Type} (i : Invocation) (inputs : List Loaded)
    (results : List (String × Except ConversionError α)) (output : String) (fs : FileSystem) :
    (conclude i inputs results output fs).CodeTells := by
  unfold Outcome.CodeTells conclude
  cases failures results with
  | nil => exact .inl ⟨rfl, rfl⟩
  | cons f rest => exact .inr ⟨List.cons_ne_nil f rest, rfl⟩

/-- Of each input, the run reports what a run on that input alone does. -/
def ReportsAsAlone (i : Invocation) (toStdout : Bool) (date : Date) (stdin : String)
    (fs : FileSystem) (o : Outcome) : Prop :=
  o.failures = i.files.flatMap fun file =>
    (runInvocation (i.alone toStdout file) date stdin fs).failures

/-- A run on one input reports that input or nothing. -/
theorem alone_cases (i : Invocation) (toStdout : Bool) (date : Date) (stdin : String)
    (fs : FileSystem) (file : String) :
    (runInvocation (i.alone toStdout file) date stdin fs).failures = [] ∨
      ∃ e, (runInvocation (i.alone toStdout file) date stdin fs).failures = [(file, e)] := by
  have one : ∀ {α : Type} (r : Except ConversionError α),
      failureOf file r = [] ∨ ∃ e, failureOf file r = [(file, e)] := by
    intro α r
    cases r with
    | ok a => exact .inl rfl
    | error e => exact .inr ⟨e, rfl⟩
  cases toStdout with
  | false =>
      rw [failures_alone_toFiles]
      exact one _
  | true =>
      rw [failures_alone_toStdout]
      exact one _

theorem codeTells_alone (i : Invocation) (toStdout : Bool) (date : Date) (stdin : String)
    (fs : FileSystem) (file : String) :
    (runInvocation (i.alone toStdout file) date stdin fs).CodeTells := by
  cases toStdout
  · exact codeTells_conclude ..
  · exact codeTells_conclude ..

/-- **Inputs do not disturb each other.**  The inputs that fail are those that fail alone, with the
errors they have alone, and they are reported in the order of the arguments; so it is for pages
that go into files, in whatever order the conversions run, and on standard output, where the pages
of the others come one after the other and no file changes.  The exit code is 1 if an input fails
and 0 otherwise. -/
theorem reportsAsAlone (i : Invocation) (date : Date) (stdin : String) (fs : FileSystem) :
    (∀ order : List Nat, order.Perm (List.range i.files.length) →
      ReportsAsAlone i false date stdin fs (runToFiles i date order fs) ∧
        (runToFiles i date order fs).CodeTells) ∧
    (ReportsAsAlone i true date stdin fs (runToStdout i date fs) ∧
      (runToStdout i date fs).CodeTells ∧ (runToStdout i date fs).files = fs ∧
      (runToStdout i date fs).output = String.join
        (i.files.filterMap fun file => (pageFrom (styleOf i date) fs file).toOption)) ∧
    ∀ toStdout file, (runInvocation (i.alone toStdout file) date stdin fs).CodeTells ∧
      ((runInvocation (i.alone toStdout file) date stdin fs).failures = [] ∨
        ∃ e, (runInvocation (i.alone toStdout file) date stdin fs).failures = [(file, e)]) := by
  have toFiles : ∀ order : List Nat, order.Perm (List.range i.files.length) →
      ReportsAsAlone i false date stdin fs (runToFiles i date order fs) := by
    intro order h
    unfold ReportsAsAlone
    rw [failures_runToFiles i date fs h]
    simp only [failures_alone_toFiles]
  have toStdout : ReportsAsAlone i true date stdin fs (runToStdout i date fs) := by
    unfold ReportsAsAlone
    rw [failures_runToStdout]
    simp only [failures_alone_toStdout]
  have printed : (runToStdout i date fs).output = String.join
      (i.files.filterMap fun file => (pageFrom (styleOf i date) fs file).toOption) := by
    rw [runToStdout_eq]
    rfl
  refine ⟨?_, ⟨toStdout, codeTells_conclude .., rfl, printed⟩, ?_⟩
  · intro order h
    exact ⟨toFiles order h, codeTells_conclude ..⟩
  · intro toStdout file
    exact ⟨codeTells_alone .., alone_cases ..⟩

/-- Nothing but files is asked for. -/
def Invocation.onFiles (files : List String) : Invocation := { Invocation.none with files := files }

def someDate : Date := ⟨2024, 3, 1, by decide, by decide⟩

/-- Two inputs, and the first is no document. -/
def brokenFirst : FileSystem :=
  ⟨[(["a.json".toList], .file [123]), (["b.json".toList], .file [123, 125])], []⟩

/-- The second input is converted first. -/
theorem reportsAsAlone_brokenFirst : [1, 0].Perm (List.range 2) ∧
    (runToFiles (.onFiles ["a.json", "b.json"]) someDate [1, 0] brokenFirst).failures.map
      Prod.fst = ["a.json"] ∧
    (runToFiles (.onFiles ["a.json", "b.json"]) someDate [1, 0] brokenFirst).exitCode = 1 := by
  have order : [1, 0].Perm (List.range 2) := by decide
  obtain ⟨reported, tells⟩ :=
    (reportsAsAlone (.onFiles ["a.json", "b.json"]) someDate "" brokenFirst).1 [1, 0] order
  have names : (runToFiles (.onFiles ["a.json", "b.json"]) someDate [1, 0]
      brokenFirst).failures.map Prod.fst = ["a.json"] := by
    rw [reported]
    decide +kernel
  refine ⟨order, names, ?_⟩
  rcases tells with ⟨none, _⟩ | ⟨_, code⟩
  · rw [none] at names
    cases names
  · exact code

end ManualPages.Command
