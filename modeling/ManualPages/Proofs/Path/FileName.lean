import ManualPages.Path
import Mathlib.Data.List.TakeWhile

/-! # File names

The file name is read off a path from its end; here it is found among the components, which are read
from the beginning.

* `components_append`: a piece behind a slash is one more component.
* `Silent`: what may stand behind a last component without being one.
* `parts?_spec`: the parts of a path that has a file name.
* `fileName?_eq_some_iff`: the file name of a path is its last component, if that is a name. -/

namespace ManualPages.Path

/-! ### Pieces -/

theorem pieces_eq_splitOn (s : List Char) : pieces s = s.splitOn '/' := by
  induction s with
  | nil => rfl
  | cons c s ih =>
      rw [pieces, List.splitOn_cons_eq_if_modifyHead, ← ih]
      by_cases h : c = '/'
      · simp [h]
      · have hc : (c == '/') = false := by simpa using h
        rw [if_neg h, hc]
        cases e : pieces s with
        | nil => exact absurd e (pieces_ne_nil s)
        | cons piece rest => rfl

theorem pieces_append_slash (s t : List Char) :
    pieces (s ++ '/' :: t) = pieces s ++ pieces t := by
  rw [pieces_eq_splitOn, pieces_eq_splitOn, pieces_eq_splitOn, List.splitOn_append_cons_self]

theorem pieces_of_not_mem {s : List Char} (h : '/' ∉ s) : pieces s = [s] := by
  induction s with
  | nil => rfl
  | cons c s ih =>
      simp only [List.mem_cons, not_or] at h
      rw [pieces, if_neg (Ne.symm h.1), ih h.2]

/-- The text is empty or ends with a slash, so that a piece begins behind it. -/
def EndsPiece (s : List Char) : Prop := s = [] ∨ ∃ d, s = d ++ ['/']

theorem exists_pieces_append {front : List Char} (h : EndsPiece front) :
    ∃ leading, ∀ name, '/' ∉ name → pieces (front ++ name) = leading ++ [name] := by
  rcases h with rfl | ⟨d, rfl⟩
  · exact ⟨[], fun name hn => by rw [List.nil_append, pieces_of_not_mem hn, List.nil_append]⟩
  · refine ⟨pieces d, fun name hn => ?_⟩
    rw [List.append_assoc, List.singleton_append, pieces_append_slash, pieces_of_not_mem hn]

variable {front piece back path : List Char}

/-! ### Components, from the beginning -/

/-- The piece is a name: neither empty, nor a point, nor the directory above. -/
def IsName (piece : List Char) : Prop := piece ≠ [] ∧ piece ≠ ['.'] ∧ piece ≠ ['.', '.']

theorem component?_eq_none_iff : component? piece = none ↔ piece = [] ∨ piece = ['.'] := by
  unfold component?
  split
  · next h => simp [h]
  · next h =>
    split
    · simpa using h
    · simpa using h

theorem component?_of_isName (h : IsName piece) : component? piece = some (.normal piece) := by
  obtain ⟨written, noPoint, noPoints⟩ := h
  rw [component?, if_neg (by simp [written, noPoint]), if_neg noPoints]

/-- The component that the beginning of a path stands for. -/
def lead : List (List Char) → List Component
  | ['.'] :: _ => [.current]
  | [] :: _ :: _ => [.root]
  | _ => []

theorem components_eq (path : List Char) :
    components path = lead (pieces path) ++ (pieces path).filterMap component? := rfl

/-- A first piece that is not empty stands for the same whatever follows; behind an empty one it
counts whether there are other pieces. -/
theorem lead_cons_congr {ps qs : List (List Char)} (h : piece = [] → (ps = [] ↔ qs = [])) :
    lead (piece :: ps) = lead (piece :: qs) := by
  rcases piece with _ | ⟨c, _ | ⟨d, piece⟩⟩
  · cases ps with
    | nil => rw [(h rfl).mp rfl]
    | cons _ _ =>
        cases qs with
        | nil => cases (h rfl).mpr rfl
        | cons _ _ => rfl
  · by_cases point : c = '.'
    · subst point
      rfl
    · simp [lead, point]
  · simp [lead]

theorem pieces_eq_nil_singleton_iff : pieces path = [[]] ↔ path = [] := by
  constructor
  · intro h
    cases path with
    | nil => rfl
    | cons c s =>
        rw [pieces] at h
        split at h
        · exact absurd (List.cons.inj h).2 (pieces_ne_nil s)
        · split at h
          · cases h
          · cases h
  · rintro rfl
    rfl

theorem lead_singleton (h : piece ≠ ['.']) : lead [piece] = [] := by
  rcases piece with _ | ⟨c, _ | ⟨d, piece⟩⟩
  · rfl
  · have other : c ≠ '.' := fun e => h (congrArg ([·]) e)
    simp [lead, other]
  · simp [lead]

/-- A piece behind a slash, or alone, is one more component. -/
theorem components_append {c : Component} (h : EndsPiece front) (hp : '/' ∉ piece)
    (hc : component? piece = some c) : components (front ++ piece) = components front ++ [c] := by
  have said : [piece].filterMap component? = [c] := by simp [hc]
  rw [components_eq, components_eq]
  rcases h with rfl | ⟨d, rfl⟩
  · have noPoint : piece ≠ ['.'] := by
      rintro rfl
      cases hc
    rw [List.nil_append, pieces_of_not_mem hp, said, lead_singleton noPoint]
    rfl
  · obtain ⟨p, ps, e⟩ := List.exists_cons_of_ne_nil (pieces_ne_nil d)
    have same : lead (pieces d ++ [piece]) = lead (pieces d ++ [[]]) := by
      rw [e]
      exact lead_cons_congr (by simp)
    rw [List.append_assoc, List.singleton_append, pieces_append_slash, pieces_append_slash,
      pieces_of_not_mem hp, same, List.filterMap_append, said]
    simp [pieces, component?]

/-! ### What follows the last component -/

/-- Nothing, or slashes and points that stand alone between them. -/
def Silent (back : List Char) : Prop :=
  back = [] ∨ ∃ t, back = '/' :: t ∧ ∀ piece ∈ pieces t, component? piece = none

theorem Silent.append (h : Silent back) (hp : '/' ∉ piece) (hc : component? piece = none) :
    Silent (back ++ '/' :: piece) := by
  have single : pieces piece = [piece] := pieces_of_not_mem hp
  rcases h with rfl | ⟨t, rfl, ht⟩
  · refine .inr ⟨piece, rfl, fun p hm => ?_⟩
    rw [single] at hm
    rwa [List.mem_singleton.mp hm]
  · refine .inr ⟨t ++ '/' :: piece, rfl, fun p hm => ?_⟩
    rw [pieces_append_slash, single, List.mem_append] at hm
    rcases hm with hm | hm
    · exact ht p hm
    · rwa [List.mem_singleton.mp hm]

theorem components_append_silent (hne : front ≠ []) (h : Silent back) :
    components (front ++ back) = components front := by
  rcases h with rfl | ⟨t, rfl, ht⟩
  · rw [List.append_nil]
  · have said : (pieces t).filterMap component? = [] := by
      rw [List.filterMap_eq_nil_iff]
      exact ht
    obtain ⟨p, ps, e⟩ := List.exists_cons_of_ne_nil (pieces_ne_nil front)
    have same : lead (pieces front ++ pieces t) = lead (pieces front) := by
      rw [e]
      refine lead_cons_congr ?_
      rintro rfl
      have more : ps ≠ [] := by
        rintro rfl
        exact hne (pieces_eq_nil_singleton_iff.mp e)
      simp [more]
    rw [components_eq, components_eq, pieces_append_slash, List.filterMap_append, said, same,
      List.append_nil]

theorem dropBack_spec (s : List Char) : (∃ r, s = r ++ dropBack s ∧ Silent r.reverse) ∧
    (∀ t, dropBack s ≠ '/' :: t) ∧ ∀ t, dropBack s ≠ '.' :: '/' :: t := by
  fun_induction dropBack s with
  | case1 s ih =>
      obtain ⟨⟨r, e, silent⟩, ended⟩ := ih
      refine ⟨⟨'/' :: r, congrArg ('/' :: ·) e, ?_⟩, ended⟩
      rw [List.reverse_cons]
      exact silent.append (by simp) rfl
  | case2 s ih =>
      obtain ⟨⟨r, e, silent⟩, ended⟩ := ih
      refine ⟨⟨'.' :: '/' :: r, congrArg ('.' :: '/' :: ·) e, ?_⟩, ended⟩
      rw [List.reverse_cons, List.reverse_cons, List.append_assoc]
      exact silent.append (by decide) rfl
  | case3 s slash point =>
      exact ⟨⟨[], rfl, .inl rfl⟩, fun t e => slash t e, fun t e => point t e⟩

/-! ### Parts -/

theorem exists_cut_at_slash (q : List Char) : ∃ front piece,
    (q.dropWhile (· ≠ '/')).reverse = front ∧ (q.takeWhile (· ≠ '/')).reverse = piece ∧
      q = piece.reverse ++ front.reverse ∧ EndsPiece front ∧ '/' ∉ piece := by
  refine ⟨_, _, rfl, rfl, ?_, ?_, ?_⟩
  · rw [List.reverse_reverse, List.reverse_reverse, List.takeWhile_append_dropWhile]
  · cases e : q.dropWhile (· ≠ '/') with
    | nil => exact .inl rfl
    | cons c s =>
        have slash := List.head?_dropWhile_not (· ≠ '/') q
        rw [e] at slash
        have hc : c = '/' := by simpa using slash
        exact .inr ⟨s.reverse, by simp [hc]⟩
  · intro hm
    have other := List.mem_takeWhile_imp (List.mem_reverse.mp hm)
    simp at other

/-- A path is cut before and behind its last piece that says something; that piece is the file name
if it is a name. -/
theorem exists_cut (path : List Char) : ∃ front piece back, path = front ++ piece ++ back ∧
    EndsPiece front ∧ '/' ∉ piece ∧ Silent back ∧ (piece = [] ∨ piece = ['.'] → front = []) ∧
    parts? path = if piece = [] ∨ piece = ['.'] ∨ piece = ['.', '.'] then none
      else some ⟨front, piece, back⟩ := by
  obtain ⟨⟨r, whole, silent⟩, noSlash, noPoint⟩ := dropBack_spec path.reverse
  have written : path = (dropBack path.reverse).reverse ++ r.reverse := by
    rw [← List.reverse_append, ← whole, List.reverse_reverse]
  have behind : path.drop (dropBack path.reverse).length = r.reverse := by
    have cutOff : (_ ++ r.reverse).drop (dropBack path.reverse).reverse.length = _ := List.drop_left
    rwa [← written, List.length_reverse] at cutOff
  obtain ⟨front, piece, hf, hp, cut, ends, single⟩ := exists_cut_at_slash (dropBack path.reverse)
  refine ⟨front, piece, r.reverse, ?_, ends, single, silent, ?_, ?_⟩
  · rw [cut] at written
    simpa using written
  · intro short
    rcases ends with rfl | ⟨d, rfl⟩
    · rfl
    · rcases short with rfl | rfl
      · exact absurd (by simpa using cut) (noSlash d.reverse)
      · exact absurd (by simpa using cut) (noPoint d.reverse)
  · unfold parts?
    simp only [behind, hf, hp]

/-- The parts of a path that has a file name. -/
theorem parts?_spec {p : Parts} (h : parts? path = some p) :
    path = p.front ++ p.name ++ p.back ∧ EndsPiece p.front ∧ '/' ∉ p.name ∧ IsName p.name ∧
      Silent p.back := by
  obtain ⟨front, piece, back, whole, ends, single, silent, -, e⟩ := exists_cut path
  rw [e] at h
  split at h
  · cases h
  · next name =>
    cases h
    simp only [not_or] at name
    exact ⟨whole, ends, single, name, silent⟩

theorem components_of_parts? {p : Parts} (h : parts? path = some p) :
    components path = components p.front ++ [.normal p.name] := by
  obtain ⟨whole, ends, single, name, silent⟩ := parts?_spec h
  have written : p.front ++ p.name ≠ [] := List.append_ne_nil_of_right_ne_nil _ name.1
  rw [whole, components_append_silent written silent,
    components_append ends single (component?_of_isName name)]

theorem getLast?_components_ne (h : parts? path = none) (name : List Char) :
    (components path).getLast? ≠ some (.normal name) := by
  obtain ⟨front, piece, back, rfl, ends, single, silent, short, e⟩ := exists_cut path
  rw [e] at h
  split at h
  · next other =>
    rcases other with rfl | rfl | rfl
    · obtain rfl := short (.inl rfl)
      rcases silent with rfl | ⟨t, rfl, ht⟩
      · simp [components_eq, pieces, lead, component?]
      · have root : components ('/' :: t) = [.root] := by
          rw [components_eq, ← List.nil_append ('/' :: t), pieces_append_slash,
            List.filterMap_append, List.filterMap_eq_nil_iff.mpr ht]
          obtain ⟨p, ps, e⟩ := List.exists_cons_of_ne_nil (pieces_ne_nil t)
          rw [e]
          rfl
        simp [root]
    · obtain rfl := short (.inr rfl)
      rw [List.nil_append, components_append_silent (by simp) silent]
      simp [components_eq, pieces, lead, component?]
    · have parent : component? ['.', '.'] = some .parent := rfl
      rw [components_append_silent (by simp) silent, components_append ends single parent]
      simp
  · cases h

/-- **File names.**  The file name of a path is its last component, if that is a name. -/
theorem fileName?_eq_some_iff {name : List Char} :
    fileName? path = some name ↔ (components path).getLast? = some (.normal name) := by
  cases h : parts? path with
  | none =>
      have other := getLast?_components_ne h name
      simp [fileName?, h, other]
  | some p =>
      rw [components_of_parts? h]
      simp [fileName?, h]

theorem slash_not_mem_fileName {name : List Char} (h : fileName? path = some name) :
    '/' ∉ name := by
  obtain ⟨p, parts, rfl⟩ := Option.map_eq_some_iff.mp h
  exact (parts?_spec parts).2.2.1

end ManualPages.Path
