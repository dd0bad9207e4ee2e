/-! # Cutting a text at a separator

`splitFirst` cuts before the first occurrence of a separator, `splitLast` before the last one, and
`replaceFirst` puts another text in the place of the first occurrence.  What a cut returns is the
text without the separator: `append_of_splitFirst`, `append_of_splitLast`. -/

namespace ManualPages.Text

/-- `s` without the text `sep` in front of it, or `none` if it begins otherwise. -/
def stripFront : (sep s : List Char) → Option (List Char)
  | [], s => some s
  | _ :: _, [] => none
  | a :: sep, c :: s => if a = c then stripFront sep s else none

theorem stripFront_eq_some {sep s r : List Char} : stripFront sep s = some r ↔ s = sep ++ r := by
  induction sep generalizing s with
  | nil => simp [stripFront, eq_comm]
  | cons a sep ih =>
    cases s with
    | nil => simp [stripFront]
    | cons c s =>
      by_cases h : a = c
      · simp [stripFront, h, ih]
      · simp [stripFront, h, Ne.symm h]

/-- `s` without the text `sep` at its end, or `none` if it ends otherwise. -/
def stripBack (sep s : List Char) : Option (List Char) :=
  (stripFront sep.reverse s.reverse).map List.reverse

theorem stripBack_eq_some {sep s r : List Char} : stripBack sep s = some r ↔ s = r ++ sep := by
  simp only [stripBack, Option.map_eq_some_iff, stripFront_eq_some]
  constructor
  · rintro ⟨a, h, rfl⟩
    rw [← List.reverse_reverse s, h]
    simp
  · rintro rfl
    exact ⟨r.reverse, by simp, by simp⟩

/-- The texts before and after the first occurrence of `sep`. -/
def splitFirst (sep : List Char) : List Char → Option (List Char × List Char)
  | [] => (stripFront sep []).map fun r => ([], r)
  | c :: s =>
    match stripFront sep (c :: s) with
    | some r => some ([], r)
    | none => (splitFirst sep s).map fun p => (c :: p.1, p.2)

/-- The texts before and after the last occurrence of `sep`. -/
def splitLast (sep : List Char) : List Char → Option (List Char × List Char)
  | [] => (stripFront sep []).map fun r => ([], r)
  | c :: s =>
    match splitLast sep s with
    | some p => some (c :: p.1, p.2)
    | none => (stripFront sep (c :: s)).map fun r => ([], r)

theorem append_of_splitFirst {sep s a b : List Char} (h : splitFirst sep s = some (a, b)) :
    s = a ++ sep ++ b := by
  induction s generalizing a b with
  | nil =>
    simp only [splitFirst, Option.map_eq_some_iff, stripFront_eq_some, Prod.mk.injEq] at h
    obtain ⟨r, hr, rfl, rfl⟩ := h
    simpa using hr
  | cons c s ih =>
    rw [splitFirst] at h
    split at h
    · next r hr =>
      simp only [Option.some.injEq, Prod.mk.injEq] at h
      obtain ⟨rfl, rfl⟩ := h
      simpa using stripFront_eq_some.mp hr
    · obtain ⟨⟨x, y⟩, hp, hxy⟩ := Option.map_eq_some_iff.mp h
      simp only [Prod.mk.injEq] at hxy
      obtain ⟨rfl, rfl⟩ := hxy
      simp [ih hp]

theorem append_of_splitLast {sep s a b : List Char} (h : splitLast sep s = some (a, b)) :
    s = a ++ sep ++ b := by
  induction s generalizing a b with
  | nil =>
    simp only [splitLast, Option.map_eq_some_iff, stripFront_eq_some, Prod.mk.injEq] at h
    obtain ⟨r, hr, rfl, rfl⟩ := h
    simpa using hr
  | cons c s ih =>
    rw [splitLast] at h
    split at h
    · next p hp =>
      simp only [Option.some.injEq, Prod.mk.injEq] at h
      obtain ⟨rfl, rfl⟩ := h
      simp [ih hp]
    · obtain ⟨r, hr, hab⟩ := Option.map_eq_some_iff.mp h
      simp only [Prod.mk.injEq] at hab
      obtain ⟨rfl, rfl⟩ := hab
      simpa using stripFront_eq_some.mp hr

/-- Put `new` in the place of the first occurrence of `old`. -/
def replaceFirst (old new s : List Char) : List Char :=
  match splitFirst old s with
  | some (a, b) => a ++ new ++ b
  | none => s

/-- Put `sep` between the texts. -/
def join (sep : List Char) : List (List Char) → List Char
  | [] => []
  | [s] => s
  | s :: t :: r => s ++ sep ++ join sep (t :: r)

@[simp] theorem join_nil (sep : List Char) : join sep [] = [] := rfl

@[simp] theorem join_singleton (sep s : List Char) : join sep [s] = s := rfl

theorem join_cons_cons (sep s t : List Char) (r : List (List Char)) :
    join sep (s :: t :: r) = s ++ sep ++ join sep (t :: r) := rfl

end ManualPages.Text
