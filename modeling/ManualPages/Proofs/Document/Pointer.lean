import ManualPages.Page.Body
import ManualPages.Proofs.Document.UnknownKind
import ManualPages.Proofs.Path

/-! # Paths that are read back

An offence is reported with the way to it as a text.  A reader of that text takes it apart at the
slashes and goes from the root by what stands between them: to a member by its key, to an element by
its index.  A key may have slashes itself, and they are written as they are.

* `steps`: what stands between the slashes of a path.
* `follow?`: where a reader comes to, a step at a time (`part?`).
* `Plain`: the ways whose texts are taken apart as they were put together (`steps_pathText`).
* `eq_or_precedes_of_steps`: another way with the same steps comes before, so the reported offence,
  the first of all, has none (`identified_iff`). -/

namespace ManualPages.Pointer

open Json (Value Members)
open Slot

/-! ### Taking a path apart -/

/-- What stands behind each slash of a path; a slash alone is the root. -/
def steps (path : String) : List (List Char) :=
  if path = "/" then [] else (Path.pieces path.toList).tail

/-- The steps of a way as they are written. -/
def texts (way : List Step) : List (List Char) := way.map fun s => s.text.toList

theorem texts_cons (s : Step) (way : List Step) :
    texts (s :: way) = s.text.toList :: texts way := rfl

theorem text_key (key : String) : (Step.key key).text = key := rfl

/-- No key of the way has a slash, and the way is not that to the member of the root with the empty
key, which is written like the root. -/
structure Plain (way : List Step) : Prop where
  keys : ∀ key, .key key ∈ way → '/' ∉ key.toList
  root : way ≠ [.key ""]

theorem slash_not_mem_index (i : ℕ) : '/' ∉ (Step.index i).text.toList := fun h =>
  absurd (Page.isDigit_of_mem_toString h) (by decide)

theorem forall_keys_iff {way : List Step} :
    (∀ key, .key key ∈ way → '/' ∉ key.toList) ↔ ∀ text ∈ texts way, '/' ∉ text := by
  constructor
  · intro h text ht
    obtain ⟨s, hs, rfl⟩ := List.mem_map.mp ht
    cases s with
    | key key => exact h key hs
    | index i => exact slash_not_mem_index i
  · exact fun h key hk => h _ (List.mem_map.mpr ⟨_, hk, rfl⟩)

theorem slash_not_mem_of_mem_pieces {s piece : List Char} (h : piece ∈ Path.pieces s) :
    '/' ∉ piece := by
  induction s generalizing piece with
  | nil =>
      rw [List.mem_singleton.mp h]
      exact List.not_mem_nil
  | cons c s ih =>
      rw [Path.pieces] at h
      split at h
      · rcases List.mem_cons.mp h with rfl | h
        · exact List.not_mem_nil
        · exact ih h
      · next other =>
        obtain ⟨first, others, cut⟩ := List.exists_cons_of_ne_nil (Path.pieces_ne_nil s)
        rw [cut] at h ih
        rcases List.mem_cons.mp h with rfl | h
        · exact List.not_mem_cons_of_ne_of_not_mem (Ne.symm other) (ih List.mem_cons_self)
        · exact ih (List.mem_cons_of_mem _ h)

theorem pieces_append_flatMap (text : List Char) (others : List (List Char)) :
    Path.pieces (text ++ others.flatMap fun t => '/' :: t) =
      Path.pieces text ++ others.flatMap Path.pieces := by
  induction others generalizing text with
  | nil => simp
  | cons other others ih =>
      rw [List.flatMap_cons, List.flatMap_cons, List.cons_append, Path.pieces_append_slash, ih other]

theorem flatMap_pieces_of_not_mem {others : List (List Char)} (h : ∀ text ∈ others, '/' ∉ text) :
    others.flatMap Path.pieces = others := by
  induction others with
  | nil => rfl
  | cons other others ih =>
      obtain ⟨first, rest⟩ := List.forall_mem_cons.mp h
      rw [List.flatMap_cons, Path.pieces_of_not_mem first, ih rest, List.singleton_append]

theorem toList_pathText_of_ne_nil {o : Offence} (h : o.path ≠ []) :
    o.pathText.toList = (texts o.path).flatMap fun t => '/' :: t := by
  rw [toList_pathText, if_neg h, texts, List.flatMap_map]

theorem eq_key_empty_of_text {s : Step} (h : s.text = "") : s = .key "" := by
  cases s with
  | key key => exact congrArg Step.key h
  | index i => exact absurd h Nat.repr_ne_empty

/-- A slash alone is the path of the root, and of its member with the empty key. -/
theorem pathText_eq_slash_iff {o : Offence} :
    o.pathText = "/" ↔ o.path = [] ∨ o.path = [.key ""] := by
  obtain ⟨kind, path⟩ := o
  cases path with
  | nil => exact iff_of_true rfl (.inl rfl)
  | cons s rest =>
      have written := toList_pathText_of_ne_nil (o := ⟨kind, s :: rest⟩) (List.cons_ne_nil s rest)
      constructor
      · intro h
        rw [h, texts_cons, List.flatMap_cons, List.cons_append] at written
        obtain ⟨text, others⟩ := List.append_eq_nil_iff.mp (List.cons.inj written).2.symm
        cases rest with
        | nil => exact .inr (by rw [eq_key_empty_of_text (String.toList_eq_nil_iff.mp text)])
        | cons s' rest => cases others
      · rintro (h | h)
        · cases h
        · cases h
          rfl

theorem steps_eq_flatMap {o : Offence} (h : o.path ≠ [.key ""]) :
    steps o.pathText = (texts o.path).flatMap Path.pieces := by
  unfold steps
  split
  · next slash =>
    rcases pathText_eq_slash_iff.mp slash with root | empty
    · rw [root]
      rfl
    · exact absurd empty h
  · next other =>
    have ne : o.path ≠ [] := fun root => other (pathText_eq_slash_iff.mpr (.inl root))
    rw [toList_pathText_of_ne_nil ne]
    exact congrArg List.tail (pieces_append_flatMap [] (texts o.path))

/-- The path of a plain way is taken apart into its steps. -/
theorem steps_pathText {o : Offence} (h : Plain o.path) : steps o.pathText = texts o.path := by
  rw [steps_eq_flatMap h.root, flatMap_pieces_of_not_mem (forall_keys_iff.mp h.keys)]

/-! ### Following a path -/

/-- The index that is written so. -/
def index? (text : List Char) : Option ℕ :=
  let i := Nat.ofDigitChars 10 text 0
  if (toString i).toList = text then some i else none

/-- The member of an object with that key, or the element of an array with that index. -/
def part? (v : Value) (text : List Char) : Option Value :=
  match v with
  | .object members => Members.get? members (String.ofList text)
  | .array items => (index? text).bind fun i => items[i]?
  | _ => none

/-- Where the steps lead from a value. -/
def follow? : Value → List (List Char) → Option Value
  | v, [] => some v
  | v, text :: rest => (part? v text).bind fun w => follow? w rest

theorem index?_text (i : ℕ) : index? (Step.index i).text.toList = some i := by
  have read : Nat.ofDigitChars 10 (toString i).toList 0 = i := by
    rw [Nat.toString_eq_ofList_toDigits, String.toList_ofList, Nat.ofDigitChars_ten_toDigits]
  unfold index?
  simp only [Step.text, read, if_true]

theorem index_text_inj {i j : ℕ} (h : (Step.index i).text.toList = (Step.index j).text.toList) :
    i = j := by
  have read := index?_text i
  rw [h, index?_text j] at read
  exact (Option.some.inj read).symm

theorem get?_eq_some_iff {members : Members} (h : members.Ordered) {key : String} {v : Value} :
    members.get? key = some v ↔ (key, v) ∈ members := by
  refine ⟨mem_of_get?_eq_some, fun mem => ?_⟩
  induction members with
  | nil => cases mem
  | cons m rest ih =>
      obtain ⟨first, others⟩ := List.pairwise_cons.mp h
      rw [Members.get?_cons]
      rcases List.mem_cons.mp mem with rfl | mem
      · exact if_pos rfl
      · rw [if_neg (ne_of_lt (first _ mem)), ih others mem]

/-- A way leads where its steps, as they are written, are followed to. -/
theorem follow?_texts {v w : Value} (hv : v.Ordered) {way : List Step} (h : Way v way w) :
    follow? v (texts way) = some w := by
  induction h with
  | here => rfl
  | @element items i v w path found rest ih =>
      cases hv with
      | array each =>
      have here : part? (.array items) (Step.index i).text.toList = some v := by
        rw [part?, index?_text, Option.bind_some, found]
      rw [texts_cons, follow?, here, Option.bind_some]
      exact ih (each v (List.mem_of_getElem? found))
  | @member members key v w path mem rest ih =>
      cases hv with
      | object keys each =>
      have here : part? (.object members) key.toList = some v := by
        rw [part?, String.ofList_toList, (get?_eq_some_iff keys).mpr mem]
      rw [texts_cons, text_key, follow?, here, Option.bind_some]
      exact ih (each _ mem)

/-! ### Ways with the same steps -/

theorem lt_of_toList_eq_append {a b : String} {c : Char} {s : List Char}
    (h : b.toList = a.toList ++ c :: s) : a < b := by
  have shorter : a.toList ++ [] < a.toList ++ c :: s := List.append_left_lt (List.nil_lt_cons c s)
  rwa [List.append_nil, ← h, ← String.lt_iff_toList_lt] at shorter

theorem pieces_eq_cons_cases {a b : String} {others : List (List Char)}
    (h : Path.pieces b.toList = a.toList :: others) : (a = b ∧ others = []) ∨ a < b := by
  by_cases slash : '/' ∈ b.toList
  · obtain ⟨front, back, whole, first⟩ := List.eq_append_cons_of_mem slash
    rw [whole, Path.pieces_append_slash, Path.pieces_of_not_mem first] at h
    obtain ⟨rfl, -⟩ := List.cons.inj h
    exact .inr (lt_of_toList_eq_append whole)
  · rw [Path.pieces_of_not_mem slash] at h
    obtain ⟨whole, rfl⟩ := List.cons.inj h
    exact .inl ⟨String.toList_inj.mp whole.symm, rfl⟩

theorem eq_or_precedes_cons {p q : List Step} (s : Step) (h : q = p ∨ Precedes q p) :
    s :: q = s :: p ∨ Precedes (s :: q) (s :: p) := by
  rcases h with rfl | before
  · exact .inl rfl
  · exact .inr (.later before)

/-- A way whose texts are those of another, taken apart at slashes, is the other or comes before. -/
theorem eq_or_precedes_of_texts {v w x : Value} (hv : v.Ordered) {p q : List Step}
    (hp : Way v p w) (hq : Way v q x) (h : texts q = (texts p).flatMap Path.pieces) :
    q = p ∨ Precedes q p := by
  -- along `p`: up to the first key of it that has a slash `q` takes the same steps, and there it
  -- takes the lesser key that stands before the slash
  induction hp generalizing q with
  | here =>
      cases hq with
      | here => exact .inl rfl
      | element _ _ => cases h
      | member _ _ => cases h
  | @element items i v w path found rest ih =>
      cases hv with
      | array each =>
      rw [texts_cons, List.flatMap_cons, Path.pieces_of_not_mem (slash_not_mem_index i)] at h
      cases hq with
      | here => cases h
      | @element _ j v' _ path' found' rest' =>
          obtain ⟨same, later⟩ := List.cons.inj h
          obtain rfl := index_text_inj same
          rw [found] at found'
          obtain rfl := Option.some.inj found'
          exact eq_or_precedes_cons _ (ih (each v (List.mem_of_getElem? found)) rest' later)
  | @member members key v w path mem rest ih =>
      cases hv with
      | object keys each =>
      obtain ⟨piece, others, cut⟩ := List.exists_cons_of_ne_nil (Path.pieces_ne_nil key.toList)
      rw [texts_cons, text_key, List.flatMap_cons, cut, List.cons_append] at h
      cases hq with
      | here => cases h
      | @member _ key' v' _ path' mem' rest' =>
          rw [texts_cons, text_key] at h
          obtain ⟨rfl, later⟩ := List.cons.inj h
          rcases pieces_eq_cons_cases cut with ⟨rfl, rfl⟩ | lt
          · have same := (get?_eq_some_iff keys).mpr mem
            rw [(get?_eq_some_iff keys).mpr mem'] at same
            obtain rfl := Option.some.inj same
            exact eq_or_precedes_cons _ (ih (each _ mem) rest' later)
          · exact .inr (.key lt)

/-- The steps of a path are those of no way to an offence with that kind but the one that is
reported, and of this one only if it is plain. -/
theorem eq_and_plain_of_steps {v : Value} (hv : v.Ordered) {slot : Slot} {o : Offence}
    (h : IsFirst slot v o) {way : List Step} (offends : Offends slot v ⟨o.kind, way⟩)
    (same : texts way = steps o.pathText) : way = o.path ∧ Plain o.path := by
  -- the reported offence is the first, so that another way with its steps would come too early
  have notBefore : ¬ Precedes way o.path := by
    intro before
    rcases h.2 _ offends with eq | after
    · have whole : way = o.path := congrArg Offence.path eq
      rw [whole] at before
      exact before.asymm before
    · exact after.asymm before
  have root : o.path ≠ [.key ""] := by
    intro empty
    rw [pathText_eq_slash_iff.mpr (.inr empty)] at same
    obtain rfl : way = [] := List.map_eq_nil_iff.mp same
    rw [empty] at notBefore
    exact notBefore .whole
  rw [steps_eq_flatMap root] at same
  obtain ⟨s, members, leads, -⟩ := h.1
  obtain ⟨s', members', leads', -⟩ := offends
  rcases eq_or_precedes_of_texts hv (.of_leads leads) (.of_leads leads') same with whole | before
  · refine ⟨whole, forall_keys_iff.mpr fun text ht => ?_, root⟩
    rw [← whole, same] at ht
    obtain ⟨_, -, piece⟩ := List.mem_flatMap.mp ht
    exact slash_not_mem_of_mem_pieces piece
  · exact absurd before notBefore

/-- **Paths of offences.**  A value that is refused for a misplaced kind has the node of that kind
where the reported path leads, if no key on the way to it has a slash, and if it is not the member
of the root with the empty key.  Otherwise no node that offends with that kind is named so. -/
theorem identified_iff {v : Value} (hv : v.Ordered) {o : Offence}
    (h : Document.ofValue v = .error (.misplaced o)) :
    (Plain o.path → ∃ members, follow? v (steps o.pathText) = some (.object members) ∧
      typeName? members = some o.kind) ∧
    ∀ way, Offends .root v ⟨o.kind, way⟩ →
      (texts way = steps o.pathText ↔ way = o.path ∧ Plain o.path) := by
  have first : IsFirst .root v o := (offence?_eq_some_iff hv).mp (ofValue_eq_misplaced_iff.mp h)
  refine ⟨fun plain => ?_, fun way offends => ⟨eq_and_plain_of_steps hv first offends, ?_⟩⟩
  · obtain ⟨s, members, leads, typed, -⟩ := first.1
    rw [steps_pathText plain]
    exact ⟨members, follow?_texts hv (.of_leads leads), typed⟩
  · rintro ⟨rfl, plain⟩
    exact (steps_pathText plain).symm

/-- A text with a node of no kind under a key with a slash. -/
def slashKey : List UInt8 :=
  ("\x7b\"a/b\":\x7b\"type\":\"Nope\"\x7d\x7d".toList).map fun c => c.toNat.toUInt8

/-- The node is reported at `/a/b`, which leads nowhere: the root has no member `a`. -/
theorem not_identified_slashKey : ∃ v, Json.parse .text slashKey = .ok v ∧ v.Ordered ∧
    ∃ o, Document.ofValue v = .error (.misplaced o) ∧ o.kind = "Nope" ∧ o.pathText = "/a/b" ∧
      follow? v (steps o.pathText) = none ∧
      ∀ way, Offends .root v ⟨o.kind, way⟩ → texts way ≠ steps o.pathText := by
  have read : Json.parse .text slashKey = .ok (.object [
      ("a/b", .object [("type", .string "Nope")])]) := by
    with_unfolding_all rfl
  have ordered := Json.ordered_of_parse read
  have slash : ¬ Plain [.key "a/b"] := fun h => h.keys "a/b" List.mem_cons_self (by decide)
  refine ⟨_, read, ordered, ⟨"Nope", [.key "a/b"]⟩, rfl, rfl, by decide, rfl, ?_⟩
  intro way offends same
  exact slash (((identified_iff ordered rfl).2 way offends).mp same).2

/-- The member of the root with the empty key is reported where the root is. -/
example : Document.ofValue (.object [("", .object [("type", .string "Nope")])]) =
      .error (.misplaced ⟨"Nope", [.key ""]⟩) ∧
    (Offence.mk "Nope" [.key ""]).pathText = "/" := ⟨rfl, by decide⟩

end ManualPages.Pointer
