import ManualPages.Page.Body
import ManualPages.Proofs.Page.Setting
import ManualPages.Proofs.Signature
import ManualPages.Proofs.Signature.Parts
import ManualPages.Proofs.Text.Blank

/-! # Subscripts

A subscript is described like every other method, as `Owner#[](i)` or `Owner#[]=(i, v)`, and shown
as it is called, as `Owner#[i]` or `Owner#[i] = v`.

* `parse_call`: the parts of a descriptor with parentheses behind the name.
* `Unwraps args inner`: what is left of arguments without the parentheses around them.  The
  arguments that are shown are this, trimmed (`withoutParens_eq`), and they have the same commas.
* `splitLast_trim`: the comma in front of a value without commas is where index and value are cut.
* `signature_subscript`: how subscripts are shown, and which signatures cannot be shown. -/

namespace ManualPages.Signature

variable {owner name args inner : List Char}

/-! ### Owner and name -/

/-- The text is an owner in every descriptor that begins with it and a `#`. -/
structure IsOwner (owner : List Char) : Prop where
  ne_nil : owner ≠ []
  plain : ∀ c ∈ owner, c ≠ '(' ∧ c ≠ '{' ∧ c ≠ '#' ∧ Text.isBlank c = false

theorem IsOwner.endsHead_eq_false (h : IsOwner owner) : ∀ c ∈ owner, endsHead c = false := by
  intro c hc
  obtain ⟨paren, brace, -, blank⟩ := h.plain c hc
  simp [endsHead, paren, brace, blank]

theorem splitOwner_hash (h : IsOwner owner) (hasName : name ≠ []) :
    splitOwner (owner ++ '#' :: name) = (owner, .ofInstance, name) := by
  have noHash : '#' ∉ owner := fun hm => (h.plain '#' hm).2.2.1 rfl
  unfold splitOwner attach
  rw [Text.splitFirst_append noHash]
  simp [h.ne_nil, hasName]

/-- The arguments of a method in parentheses. -/
theorem parse_call (h : IsOwner owner) (hasName : name ≠ [])
    (within : ∀ c ∈ name, endsHead c = false) (inner : List Char) :
    parse (owner ++ '#' :: name ++ ('(' :: inner ++ [')'])) =
      ⟨owner, .ofInstance, name, '(' :: inner ++ [')']⟩ := by
  have head : ∀ c ∈ owner ++ '#' :: name, endsHead c = false := by
    intro c hc
    rcases List.mem_append.mp hc with ho | hn
    · exact h.endsHead_eq_false c ho
    · rcases List.mem_cons.mp hn with rfl | hn
      · decide
      · exact within c hn
  have begins : ∀ c ∈ ('(' :: inner ++ [')']).head?, endsHead c = true := by simp [endsHead]
  have trimmed : Text.trim (owner ++ '#' :: name ++ ('(' :: inner ++ [')'])) =
      owner ++ '#' :: name ++ ('(' :: inner ++ [')']) := by
    apply Text.trim_eq_self
    · intro c hc
      obtain ⟨first, rest, rfl⟩ := List.exists_cons_of_ne_nil h.ne_nil
      obtain rfl : first = c := by simpa using hc
      exact (h.plain first List.mem_cons_self).2.2.2
    · intro c hc
      rw [List.getLast?_append_of_ne_nil _ (by simp), List.getLast?_concat] at hc
      obtain rfl : ')' = c := by simpa using hc
      decide
  rw [parse_append head begins trimmed, splitOwner_hash h hasName]

/-! ### Arguments in parentheses -/

/-- The arguments, trimmed, are `inner` in parentheses; or they are `inner` itself, which does not
begin and end with a pair. -/
inductive Unwraps (args : List Char) : List Char → Prop
  | pair {inner : List Char} (h : Text.trim args = '(' :: inner ++ [')']) : Unwraps args inner
  | bare (h : ∀ inner, Text.trim args ≠ '(' :: inner ++ [')']) : Unwraps args (Text.trim args)

theorem exists_unwraps (args : List Char) : ∃ inner, Unwraps args inner := by
  by_cases h : ∃ inner, Text.trim args = '(' :: inner ++ [')']
  · obtain ⟨inner, h⟩ := h
    exact ⟨inner, .pair h⟩
  · exact ⟨_, .bare (not_exists.mp h)⟩

theorem stripParens_eq_some_iff {s : List Char} :
    (Text.stripFront ['('] s).bind (Text.stripBack [')']) = some inner ↔
      s = '(' :: inner ++ [')'] := by
  simp only [Option.bind_eq_some_iff, Text.stripFront_eq_some, Text.stripBack_eq_some]
  constructor
  · rintro ⟨_, rfl, rfl⟩
    simp
  · rintro rfl
    exact ⟨inner ++ [')'], by simp, rfl⟩

theorem withoutParens_eq (h : Unwraps args inner) : withoutParens args = Text.trim inner := by
  unfold withoutParens
  cases h with
  | pair h =>
      simp only
      rw [stripParens_eq_some_iff.mpr h]
  | bare h =>
      have none : (Text.stripFront ['('] (Text.trim args)).bind (Text.stripBack [')']) = none := by
        rw [Option.eq_none_iff_forall_ne_some]
        exact fun inner e => h inner (stripParens_eq_some_iff.mp e)
      simp only
      rw [none]

theorem withoutParens_parens (inner : List Char) :
    withoutParens ('(' :: inner ++ [')']) = Text.trim inner := by
  refine withoutParens_eq (.pair (Text.trim_eq_self ?_ ?_))
  · simp [Text.isBlank]
  · intro c hc
    rw [List.getLast?_concat] at hc
    obtain rfl : ')' = c := by simpa using hc
    decide

/-- A value without commas is cut off at the comma in front of it, blanks around both aside. -/
theorem splitLast_trim {index value : List Char} (h : ',' ∉ value) :
    Text.splitLast [','] (Text.trim (index ++ ',' :: value)) =
      some (Text.trimStart index, Text.trimEnd value) := by
  have visible : Text.isBlank ',' = false := by decide
  rw [Text.trim_append_cons visible, Text.splitLast_singleton_eq_some_iff]
  refine ⟨rfl, fun hm => h ?_⟩
  obtain ⟨rest, whole⟩ := Text.trimEnd_append_self value
  rw [whole]
  exact List.mem_append_left rest hm

/-! ### Subscripts as they are called -/

theorem show?_element (h : IsOwner owner) (index : List Char) :
    (parse (owner ++ "#[](".toList ++ index ++ [')'])).show? =
      some (owner ++ "#[".toList ++ Text.trim index ++ [']']) := by
  have within : ∀ c ∈ ['[', ']'], endsHead c = false := by
    simp only [List.mem_cons, List.not_mem_nil, or_false, forall_eq_or_imp, forall_eq]
    decide
  have parts := parse_call h (List.cons_ne_nil _ _) within index
  have text : owner ++ "#[](".toList ++ index ++ [')'] =
      owner ++ '#' :: ['[', ']'] ++ ('(' :: index ++ [')']) := by simp
  rw [text, parts, show?, if_pos rfl, withoutParens_parens]
  simp [ownerText, Relation.separator]

theorem show?_assignment (h : IsOwner owner) {index value : List Char} (hv : ',' ∉ value) :
    (parse (owner ++ "#[]=(".toList ++ index ++ ',' :: value ++ [')'])).show? =
      some (owner ++ "#[".toList ++ Text.trim index ++ "] = ".toList ++ Text.trim value) := by
  have within : ∀ c ∈ ['[', ']', '='], endsHead c = false := by
    simp only [List.mem_cons, List.not_mem_nil, or_false, forall_eq_or_imp, forall_eq]
    decide
  have parts := parse_call h (List.cons_ne_nil _ _) within (index ++ ',' :: value)
  have text : owner ++ "#[]=(".toList ++ index ++ ',' :: value ++ [')'] =
      owner ++ '#' :: ['[', ']', '='] ++ ('(' :: (index ++ ',' :: value) ++ [')']) := by simp
  have other : ['[', ']', '='] ≠ ['[', ']'] := by decide
  rw [text, parts, show?, if_neg other, if_pos rfl, withoutParens_parens, splitLast_trim hv]
  simp [ownerText, Relation.separator, Text.trim_trimStart, Text.trim_trimEnd]

/-- A signature cannot be shown exactly if it assigns to a subscript and there is no comma in its
arguments, the parentheses around them taken away. -/
theorem show?_eq_none_iff_unwraps {s : Signature} : s.show? = none ↔
    s.name = ['[', ']', '='] ∧ ∃ inner, Unwraps s.args inner ∧ ',' ∉ inner := by
  have visible : Text.isBlank ',' = false := by decide
  rw [show?_eq_none_iff]
  refine and_congr_right fun _ => ?_
  constructor
  · intro h
    obtain ⟨inner, unwraps⟩ := exists_unwraps s.args
    rw [withoutParens_eq unwraps, Text.mem_trim_iff visible] at h
    exact ⟨inner, unwraps, h⟩
  · rintro ⟨inner, unwraps, h⟩
    rw [withoutParens_eq unwraps, Text.mem_trim_iff visible]
    exact h

theorem runFrom_signature (descriptor : String) (σ : Page.State) :
    (Page.signature descriptor).runFrom σ = match (parse descriptor.toList).show? with
      | some shown => (.ok shown, σ)
      | none => (.error (.malformedSignature descriptor), σ) := by
  unfold Page.signature
  cases (parse descriptor.toList).show? <;> rfl

/-- **Subscripts are shown as they are called.**  Whatever stands in the parentheses of a subscript
is its index; of an assignment, the value is what stands behind the last comma.  Every descriptor
can be shown but for an assignment without a comma in its arguments, and then the error quotes the
descriptor as it is. -/
theorem signature_subscript :
    (∀ owner index value : List Char, IsOwner owner → ',' ∉ value → ∀ σ,
      (Page.signature (String.ofList (owner ++ "#[]=(".toList ++ index ++ ',' :: value ++
        [')']))).runFrom σ =
        (.ok (owner ++ "#[".toList ++ Text.trim index ++ "] = ".toList ++ Text.trim value), σ)) ∧
    (∀ owner index : List Char, IsOwner owner → ∀ σ,
      (Page.signature (String.ofList (owner ++ "#[](".toList ++ index ++ [')']))).runFrom σ =
        (.ok (owner ++ "#[".toList ++ Text.trim index ++ [']']), σ)) ∧
    ∀ descriptor σ e, ((Page.signature descriptor).runFrom σ).1 = .error e ↔
      e = .malformedSignature descriptor ∧ (parse descriptor.toList).name = ['[', ']', '='] ∧
        ∃ inner, Unwraps (parse descriptor.toList).args inner ∧ ',' ∉ inner := by
  refine ⟨?_, ?_, ?_⟩
  · intro owner index value h hv σ
    rw [runFrom_signature, String.toList_ofList, show?_assignment h hv]
  · intro owner index h σ
    rw [runFrom_signature, String.toList_ofList, show?_element h]
  · intro descriptor σ e
    rw [runFrom_signature, ← show?_eq_none_iff_unwraps]
    cases (parse descriptor.toList).show? with
    | some shown => simp
    | none => simp [eq_comm]

/-- The index holds a comma and a parenthesis, and there are blanks around all parts. -/
theorem signature_subscript_padded : IsOwner "A.b".toList ∧ ',' ∉ " v) ".toList ∧
    (Page.signature "A.b#[]=( i, (j) , v) )").runFrom .initial =
      (.ok "A.b#[i, (j)] = v)".toList, .initial) := by
  have letters : "A.b".toList = ['A', '.', 'b'] := rfl
  have isOwner : IsOwner "A.b".toList := by
    refine ⟨by decide, ?_⟩
    simp only [letters, List.mem_cons, List.not_mem_nil, or_false, forall_eq_or_imp, forall_eq]
    decide
  have noComma : ',' ∉ " v) ".toList := by decide
  have shown := signature_subscript.1 "A.b".toList " i, (j) ".toList " v) ".toList isOwner noComma
    .initial
  have index : Text.trim " i, (j) ".toList = "i, (j)".toList := by decide +kernel
  have value : Text.trim " v) ".toList = "v)".toList := by decide +kernel
  rw [index, value] at shown
  exact ⟨isOwner, noComma, shown⟩

end ManualPages.Signature
