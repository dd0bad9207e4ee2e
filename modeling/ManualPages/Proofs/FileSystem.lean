import ManualPages.FileSystem
import ManualPages.Proofs.Path

/-! # Writing files

Writing a file changes one place, and never a directory.  So names lead to the same places before
and after (`SameDirectories.locate`), and whether a file can be put where another one is found does
not change either (`SameDirectories.place_eq`).

`setAll` puts entries in their places one after the other; the last one stays: `lookup_setAll`. -/

namespace ManualPages.FileSystem

/-! ### Following a name -/

/-- Where a piece leads from a directory. -/
def enter (loc : Location) (piece : List Char) : Except FileError Location :=
  if piece = [] ∨ piece = ['.'] then .ok loc
  else if piece = ['.', '.'] then .ok loc.dropLast
  else if maxPiece < byteLength piece then .error .nameTooLong
  else .ok (loc ++ [piece])

theorem follow_eq_enter {fs : FileSystem} {loc : Location} (h : fs.lookup loc = some .directory)
    (piece : List Char) : fs.follow loc piece = enter loc piece := by
  rw [follow, h]
  rfl

theorem lookup_of_follow_eq_ok {fs : FileSystem} {loc next : Location} {piece : List Char}
    (h : fs.follow loc piece = .ok next) : fs.lookup loc = some .directory := by
  unfold follow at h
  split at h
  · cases h
  · cases h
  · assumption

theorem followAll_append (fs : FileSystem) (loc : Location) (a b : List (List Char)) :
    fs.followAll loc (a ++ b) = (fs.followAll loc a).bind fun next => fs.followAll next b := by
  induction a generalizing loc with
  | nil => rfl
  | cons piece a ih =>
      simp only [List.cons_append, followAll, bind, Except.bind]
      cases fs.follow loc piece with
      | error e => rfl
      | ok next => exact ih next

/-- What is wrong with a name wherever it is followed from. -/
def nameFault? (name : List Char) : Option FileError :=
  if '\x00' ∈ name then some .nulInName
  else if name = [] then some .notFound
  else if maxName < byteLength name then some .nameTooLong
  else none

/-- Where a name is followed from. -/
def start (fs : FileSystem) (name : List Char) : Location :=
  if name.head? = some '/' then [] else fs.working

theorem locate_eq (fs : FileSystem) (name : List Char) : fs.locate name =
    match nameFault? name with
    | some e => .error e
    | none => fs.followAll (fs.start name) (Path.pieces name) := by
  unfold locate nameFault?
  split
  · rfl
  · split
    · rfl
    · split
      · rfl
      · rfl

/-! ### What stays -/

/-- The two have the same directories. -/
structure SameDirectories (a b : FileSystem) : Prop where
  working : a.working = b.working
  directory : ∀ loc, a.lookup loc = some .directory ↔ b.lookup loc = some .directory

/-- The second has the same files and directories as the first. -/
structure Unchanged (a b : FileSystem) : Prop where
  working : b.working = a.working
  lookup : ∀ loc, b.lookup loc = a.lookup loc

/-- The second has the same files and directories as the first, but for one place. -/
structure UnchangedBut (loc : Location) (a b : FileSystem) : Prop where
  working : b.working = a.working
  lookup : ∀ other, other ≠ loc → b.lookup other = a.lookup other

theorem Unchanged.refl (fs : FileSystem) : Unchanged fs fs := ⟨rfl, fun _ => rfl⟩

theorem unchangedBut_set (loc : Location) (fs : FileSystem) (entry : Entry) :
    UnchangedBut loc fs (fs.set loc entry) :=
  ⟨rfl, fun _ ne => lookup_set_ne ne entry⟩

theorem UnchangedBut.unchanged {loc : Location} {a b : FileSystem} (h : UnchangedBut loc a b)
    (same : b.lookup loc = a.lookup loc) : Unchanged a b := by
  refine ⟨h.working, fun other => ?_⟩
  by_cases e : other = loc
  · rw [e, same]
  · exact h.lookup other e

namespace SameDirectories

variable {a b c : FileSystem} {loc next : Location} {name : List Char}

theorem refl (a : FileSystem) : SameDirectories a a := ⟨rfl, fun _ => Iff.rfl⟩

theorem trans (h : SameDirectories a b) (h' : SameDirectories b c) : SameDirectories a c :=
  ⟨h.working.trans h'.working, fun loc => (h.directory loc).trans (h'.directory loc)⟩

theorem set (h : a.lookup loc ≠ some .directory) (bytes : List UInt8) :
    SameDirectories a (a.set loc (.file bytes)) := by
  have root : loc ≠ [] := by
    rintro rfl
    exact h rfl
  refine ⟨rfl, fun other => ?_⟩
  by_cases e : other = loc
  · subst e
    rw [lookup_set_self root]
    simp [h]
  · rw [lookup_set_ne e]

theorem followAll (same : SameDirectories a b) {pieces : List (List Char)}
    (h : a.followAll loc pieces = .ok next) : b.followAll loc pieces = .ok next := by
  induction pieces generalizing loc with
  | nil => exact h
  | cons piece rest ih =>
      simp only [FileSystem.followAll, bind, Except.bind] at h ⊢
      cases e : a.follow loc piece with
      | error _ =>
          rw [e] at h
          cases h
      | ok there =>
          rw [e] at h
          have here : a.lookup loc = some .directory := lookup_of_follow_eq_ok e
          have here' : b.lookup loc = some .directory := (same.directory loc).mp here
          rw [follow_eq_enter here] at e
          rw [follow_eq_enter here', e]
          exact ih h

theorem start (same : SameDirectories a b) (name : List Char) : a.start name = b.start name := by
  unfold FileSystem.start
  rw [same.working]

theorem locate (same : SameDirectories a b) (h : a.locate name = .ok loc) :
    b.locate name = .ok loc := by
  rw [locate_eq] at h ⊢
  cases e : nameFault? name with
  | some _ =>
      rw [e] at h
      cases h
  | none =>
      rw [e] at h
      rw [← same.start]
      exact same.followAll h

end SameDirectories

/-! ### Names in one directory -/

section beside

variable {fs : FileSystem} {front old new : List Char} {loc : Location}

theorem start_append (hf : Path.EndsPiece front) (hn : '/' ∉ new) : fs.start (front ++ new) =
    if front.head? = some '/' then [] else fs.working := by
  unfold start
  rcases hf with rfl | ⟨d, rfl⟩
  · have other : new.head? ≠ some '/' := by
      intro h
      exact hn (List.mem_of_mem_head? h)
    rw [List.nil_append, if_neg other, if_neg (by simp)]
  · cases d <;> rfl

theorem followAll_concat_eq_ok {origin : Location} {leading : List (List Char)} {piece : List Char}
    (h : fs.followAll origin (leading ++ [piece]) = .ok loc) : ∃ directory,
      fs.followAll origin leading = .ok directory ∧ fs.lookup directory = some .directory ∧
        enter directory piece = .ok loc := by
  rw [followAll_append] at h
  cases reached : fs.followAll origin leading with
  | error e =>
      rw [reached] at h
      cases h
  | ok directory =>
      rw [reached] at h
      have last : fs.follow directory piece = .ok loc := by
        rw [← h]
        change _ = (fs.follow directory piece).bind fun next => .ok next
        cases fs.follow directory piece <;> rfl
      have here : fs.lookup directory = some .directory := lookup_of_follow_eq_ok last
      exact ⟨directory, rfl, here, by rw [← follow_eq_enter here, last]⟩

theorem followAll_concat {origin directory : Location} {leading : List (List Char)}
    (h : fs.followAll origin leading = .ok directory) (here : fs.lookup directory = some .directory)
    (piece : List Char) : fs.followAll origin (leading ++ [piece]) = enter directory piece := by
  rw [followAll_append, h, ← follow_eq_enter here]
  change (fs.follow directory piece).bind (fun next => .ok next) = _
  cases fs.follow directory piece <;> rfl

/-- Where something is found there is a directory, and every name behind the same text is a name
in it. -/
theorem exists_directory (hf : Path.EndsPiece front) (ho : '/' ∉ old)
    (h : fs.locate (front ++ old) = .ok loc) : ∃ directory, enter directory old = .ok loc ∧
      ∀ other, SameDirectories fs other → ∀ new, '/' ∉ new → other.locate (front ++ new) =
        match nameFault? (front ++ new) with
        | some e => .error e
        | none => enter directory new := by
  obtain ⟨leading, split⟩ := Path.exists_pieces_append hf
  rw [locate_eq, split old ho, start_append hf ho] at h
  cases fault : nameFault? (front ++ old) with
  | some e =>
      rw [fault] at h
      cases h
  | none =>
      rw [fault] at h
      obtain ⟨directory, reached, here, last⟩ := followAll_concat_eq_ok h
      refine ⟨directory, last, fun other same new hn => ?_⟩
      have reached' := same.followAll reached
      have here' := (same.directory directory).mp here
      rw [locate_eq, split new hn, start_append hf hn, ← same.working,
        followAll_concat reached' here']

theorem SameDirectories.locate_beside {other : FileSystem} (same : SameDirectories fs other)
    (hf : Path.EndsPiece front) (ho : '/' ∉ old) (hn : '/' ∉ new)
    (h : fs.locate (front ++ old) = .ok loc) :
    other.locate (front ++ new) = fs.locate (front ++ new) := by
  obtain ⟨directory, -, names⟩ := exists_directory hf ho h
  rw [names other same new hn, names fs (.refl fs) new hn]

theorem enter_name {directory : Location} {piece : List Char} (hp : Path.IsName piece)
    (h : enter directory piece = .ok loc) : loc = directory ++ [piece] := by
  unfold enter at h
  rw [if_neg (by simp [hp.1, hp.2.1]), if_neg hp.2.2] at h
  split at h
  · cases h
  · exact (Except.ok.inj h).symm

theorem enter_ne {directory : Location} {piece other : List Char} (hp : other ≠ piece) :
    enter directory other ≠ .ok (directory ++ [piece]) := by
  intro h
  unfold enter at h
  split at h
  · simpa using congrArg List.length (Except.ok.inj h)
  · split at h
    · have length := congrArg List.length (Except.ok.inj h)
      rw [List.length_dropLast, List.length_append] at length
      simp only [List.length_cons, List.length_nil] at length
      omega
    · split at h
      · cases h
      · exact hp (by simpa using Except.ok.inj h)

theorem locate_beside_ne (hf : Path.EndsPiece front) (ho : '/' ∉ old) (hn : '/' ∉ new)
    (name : Path.IsName old) (ne : new ≠ old) (h : fs.locate (front ++ old) = .ok loc) :
    fs.locate (front ++ new) ≠ .ok loc := by
  obtain ⟨directory, last, names⟩ := exists_directory hf ho h
  rw [enter_name name last, names fs (.refl fs) new hn]
  split
  · simp
  · exact enter_ne ne

end beside

/-! ### Reading and writing -/

theorem place_eq_ok_iff {fs : FileSystem} {name : List Char} {loc : Location} :
    fs.place name = .ok loc ↔ fs.locate name = .ok loc ∧ fs.lookup loc ≠ some .directory := by
  unfold place
  cases fs.locate name with
  | error e => simp
  | ok there =>
      by_cases h : fs.lookup there = some .directory
      · simp only [if_pos h, reduceCtorEq, Except.ok.injEq, false_iff, not_and, not_not]
        rintro rfl
        exact h
      · simp only [if_neg h, Except.ok.injEq]
        constructor
        · rintro rfl
          exact ⟨rfl, h⟩
        · exact And.left

theorem ne_nil_of_place {fs : FileSystem} {name : List Char} {loc : Location}
    (h : fs.place name = .ok loc) : loc ≠ [] := by
  rintro rfl
  exact (place_eq_ok_iff.mp h).2 rfl

theorem set_set (fs : FileSystem) (loc : Location) (a b : Entry) :
    (fs.set loc a).set loc b = fs.set loc b := by
  simp [set, List.filter_filter]

theorem append_set {loc : Location} (h : loc ≠ []) (fs : FileSystem) (before bytes : List UInt8) :
    (fs.set loc (.file before)).append loc bytes = fs.set loc (.file (before ++ bytes)) := by
  rw [append, lookup_set_self h]
  exact set_set fs loc _ _

/-- Whether a file can be put beside one that is found does not depend on the files. -/
theorem SameDirectories.place_eq {a b : FileSystem} (same : SameDirectories a b)
    {name : List Char} (h : b.locate name = a.locate name) : b.place name = a.place name := by
  unfold place
  rw [h]
  cases a.locate name with
  | error e => rfl
  | ok loc => simp only [same.directory loc]

theorem openFile_eq_lookup {fs : FileSystem} {name : List Char} {loc : Location}
    (h : fs.locate name = .ok loc) : fs.openFile name =
      match fs.lookup loc with
      | some entry => .ok entry
      | none => .error .notFound := by
  unfold openFile
  rw [h]
  rfl

theorem locate_of_openFile_eq_ok {fs : FileSystem} {name : List Char} {entry : Entry}
    (h : fs.openFile name = .ok entry) : ∃ loc, fs.locate name = .ok loc ∧
      fs.lookup loc = some entry := by
  cases e : fs.locate name with
  | error _ =>
      unfold openFile at h
      rw [e] at h
      cases h
  | ok loc =>
      rw [openFile_eq_lookup e] at h
      split at h
      · next found =>
        cases h
        exact ⟨loc, rfl, found⟩
      · cases h

theorem not_asksDirectory_of_openFile {fs : FileSystem} {name : List Char} {bytes : List UInt8}
    (h : fs.openFile name = .ok (.file bytes)) : ¬ Path.AsksDirectory name := by
  rintro ⟨leading, last, split, empty⟩
  obtain ⟨loc, located, found⟩ := locate_of_openFile_eq_ok h
  rw [locate_eq, split] at located
  split at located
  · cases located
  · obtain ⟨directory, -, here, entered⟩ := followAll_concat_eq_ok located
    have stays : enter directory last = .ok directory := if_pos empty
    rw [stays] at entered
    cases entered
    rw [here] at found
    cases found

/-! ### Many writes -/

/-- Put entries in their places one after the other. -/
def setAll (fs : FileSystem) (writes : List (Location × Entry)) : FileSystem :=
  writes.foldl (fun fs write => fs.set write.1 write.2) fs

theorem setAll_append (fs : FileSystem) (a b : List (Location × Entry)) :
    fs.setAll (a ++ b) = (fs.setAll a).setAll b := List.foldl_append

/-- What is found is what was put there last, or what was there before. -/
theorem lookup_setAll (fs : FileSystem) {loc : Location} (h : loc ≠ [])
    (writes : List (Location × Entry)) :
    (fs.setAll writes).lookup loc = (writes.reverse.lookup loc).or (fs.lookup loc) := by
  induction writes generalizing fs with
  | nil => rfl
  | cons write rest ih =>
      obtain ⟨there, entry⟩ := write
      have first : (fs.set there entry).lookup loc =
          (List.lookup loc [(there, entry)]).or (fs.lookup loc) := by
        by_cases e : loc = there
        · subst e
          rw [lookup_set_self h, List.lookup_cons_self, Option.some_or]
        · have other : (loc == there) = false := by simpa using e
          rw [lookup_set_ne e, List.lookup_cons, other, List.lookup_nil, Option.none_or]
      rw [List.reverse_cons, List.lookup_append, Option.or_assoc, ← first]
      exact ih (fs.set there entry)

end ManualPages.FileSystem
