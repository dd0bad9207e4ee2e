import ManualPages.Document.Load
import ManualPages.Proofs.Document.Slot
import ManualPages.Proofs.Json.Order

/-! # The first offence

Where a part of a value stands, and whether its kind may stand there, is said here without the walk:

* `Under`: the slot of a member, by its key and the kind of its object.
* `Leads`: the way from a value to a part of it, and the slot in which the part stands.
* `Offends`: the object at the end of a way names a kind that its slot does not admit.
* `Precedes`: the order of the ways, values before their parts, keys and indices in their order.

The walk returns an offence exactly if something offends (`exists_offence?_iff`), and then the first
one (`offence?_eq_some_iff`).  For loading this is `misplaced_iff_isFirst`. -/

namespace ManualPages

namespace Slot

open Json (Value Members)

/-! ### Slots -/

/-- The kind of a list and the kind of its items. -/
inductive ItemOf : (list item : Kind) → Prop
  | bullet : ItemOf .bulletList .bulletItem
  | numbered : ItemOf .numberedList .numberedItem
  | description : ItemOf .descriptionList .descriptionItem
  | method : ItemOf .methodList .methodItem

/-- The slot of what stands under a key in an object whose `type` is `parent`. -/
inductive Under (parent : Option String) : String → Slot → Prop
  | blocks : Under parent "blocks" .block
  | description : Under parent "description" .block
  | content : Under parent "content" .inline
  | term : Under parent "term" .inline
  | items {list item : Kind} (pair : ItemOf list item) (named : parent = some list.name) :
      Under parent "items" (.item item)
  | loose (unnamed : ∀ list item, ItemOf list item → parent ≠ some list.name) :
      Under parent "items" .other
  | elsewhere {key : String}
      (unknown : key ∉ ["blocks", "description", "content", "term", "items"]) :
      Under parent key .other

theorem itemKind?_eq_some_iff {list : String} {item : Kind} :
    itemKind? list = some item ↔ ∃ kind, ItemOf kind item ∧ list = kind.name := by
  constructor
  · intro h
    unfold itemKind? at h
    split at h
    case h_5 => cases h
    all_goals
      next hf =>
        cases h
        exact ⟨_, by constructor, (Kind.find?_eq_some.mp hf).2.symm⟩
  · rintro ⟨kind, pair, rfl⟩
    cases pair <;> rfl

theorem under_iff {parent : Option String} {key : String} {slot : Slot} :
    Under parent key slot ↔ child parent key = slot := by
  constructor
  · intro h
    cases h with
    | blocks | description | content | term => rfl
    | items pair named =>
        have he := itemKind?_eq_some_iff.mpr ⟨_, pair, rfl⟩
        rw [child, named, Option.bind_some, he]
        rfl
    | loose unnamed =>
        have he : parent.bind itemKind? = none := by
          rw [Option.bind_eq_none_iff]
          intro list hl
          rw [Option.eq_none_iff_forall_ne_some]
          intro item hi
          obtain ⟨kind, pair, rfl⟩ := itemKind?_eq_some_iff.mp hi
          exact unnamed kind item pair hl
        rw [child, he]
        rfl
    | elsewhere unknown =>
        simp only [List.mem_cons, not_or] at unknown
        obtain ⟨h₁, h₂, h₃, h₄, h₅, -⟩ := unknown
        unfold child
        split
        case h_6 => rfl
        all_goals contradiction
  · rintro rfl
    unfold child
    split
    · exact .blocks
    · exact .description
    · exact .content
    · exact .term
    · cases h : parent.bind itemKind? with
      | none =>
          refine .loose fun list item pair named => ?_
          have he := itemKind?_eq_some_iff.mpr ⟨list, pair, rfl⟩
          rw [named, Option.bind_some, he] at h
          cases h
      | some item =>
          obtain ⟨list, hl, hi⟩ := Option.bind_eq_some_iff.mp h
          obtain ⟨kind, pair, rfl⟩ := itemKind?_eq_some_iff.mp hi
          exact .items pair hl
    · refine .elsewhere ?_
      simp_all

/-! ### The parts of a value -/

/-- `Leads slot v path s w`: in the value `v`, which stands in `slot`, the way `path` leads to `w`,
which stands in the slot `s`. -/
inductive Leads : Slot → Value → List Step → Slot → Value → Prop
  | here {slot : Slot} {v : Value} : Leads slot v [] slot v
  | element {slot s : Slot} {items : List Value} {i : ℕ} {v w : Value} {path : List Step}
      (found : items[i]? = some v) (rest : Leads slot v path s w) :
      Leads slot (.array items) (.index i :: path) s w
  | member {slot sub s : Slot} {members : Members} {key : String} {v w : Value} {path : List Step}
      (mem : (key, v) ∈ members) (under : Under (typeName? members) key sub)
      (rest : Leads sub v path s w) : Leads slot (.object members) (.key key :: path) s w

/-- In the value `v`, which stands in `slot`, there is an object at the offence's place whose `type`
is the text that the offence names, and its slot admits no kind of that name. -/
def Offends (slot : Slot) (v : Value) (o : Offence) : Prop :=
  ∃ s members, Leads slot v o.path s (.object members) ∧ typeName? members = some o.kind ∧
    ∀ k ∈ s.kinds, k.name ≠ o.kind

theorem allows_eq_false_iff {slot : Slot} {name : String} :
    slot.allows name = false ↔ ∀ k ∈ slot.kinds, k.name ≠ name := by
  unfold allows
  rw [Option.isSome_eq_false_iff, Option.isNone_iff_eq_none, Option.eq_none_iff_forall_ne_some]
  constructor
  · intro h k hk e
    exact h k (Kind.find?_eq_some.mpr ⟨hk, e⟩)
  · intro h k hk
    obtain ⟨mem, e⟩ := Kind.find?_eq_some.mp hk
    exact h k mem e

theorem offends_array_iff {slot : Slot} {items : List Value} {o : Offence} :
    Offends slot (.array items) o ↔
      ∃ i v o', items[i]? = some v ∧ Offends slot v o' ∧ o = o'.under (.index i) := by
  constructor
  · rintro ⟨s, members, h, ht, hk⟩
    obtain ⟨kind, path⟩ := o
    cases h with
    | @element _ _ _ i v _ path found rest =>
        exact ⟨i, v, ⟨kind, path⟩, found, ⟨s, members, rest, ht, hk⟩, rfl⟩
  · rintro ⟨i, v, o', found, ⟨s, members, h, ht, hk⟩, rfl⟩
    exact ⟨s, members, .element found h, ht, hk⟩

theorem offends_object_iff {slot : Slot} {members : Members} {o : Offence} :
    Offends slot (.object members) o ↔
      (o.path = [] ∧ typeName? members = some o.kind ∧ slot.allows o.kind = false) ∨
      ∃ m ∈ members, ∃ o', Offends (child (typeName? members) m.1) m.2 o' ∧
        o = o'.under (.key m.1) := by
  constructor
  · rintro ⟨s, members', h, ht, hk⟩
    obtain ⟨kind, path⟩ := o
    cases h with
    | here => exact .inl ⟨rfl, ht, allows_eq_false_iff.mpr hk⟩
    | @member _ sub _ _ key v _ path mem under rest =>
        refine .inr ⟨(key, v), mem, ⟨kind, path⟩, ⟨s, members', ?_, ht, hk⟩, rfl⟩
        rw [under_iff.mp under]
        exact rest
  · rintro (⟨hp, ht, hk⟩ | ⟨⟨key, v⟩, mem, o', ⟨s, members', h, ht, hk⟩, rfl⟩)
    · refine ⟨slot, members, ?_, ht, allows_eq_false_iff.mp hk⟩
      rw [hp]
      exact .here
    · exact ⟨s, members', .member mem (under_iff.mpr rfl) h, ht, hk⟩

theorem not_offends_scalar {slot : Slot} {v : Value} {o : Offence} (ha : ∀ items, v ≠ .array items)
    (ho : ∀ members, v ≠ .object members) : ¬ Offends slot v o := by
  rintro ⟨s, members, h, -, -⟩
  generalize o.path = path at h
  cases h with
  | here => exact ho _ rfl
  | element _ _ => exact ha _ rfl
  | member _ _ _ => exact ho _ rfl

/-! ### The walk -/

theorem exists_of_inItems?_eq_some {slot : Slot} {i : ℕ} {items : List Value} {o : Offence}
    (h : inItems? slot i items = some o) : ∃ before v after o', items = before ++ v :: after ∧
      (∀ x ∈ before, offence? slot x = none) ∧ offence? slot v = some o' ∧
      o = o'.under (.index (i + before.length)) := by
  induction items generalizing i with
  | nil => cases h
  | cons x rest ih =>
      rw [inItems?] at h
      split at h
      · next o₁ hx =>
          cases h
          exact ⟨[], x, rest, o₁, rfl, by simp, hx, rfl⟩
      · next hx =>
          obtain ⟨before, v, after, o', rfl, clean, hv, rfl⟩ := ih h
          refine ⟨x :: before, v, after, o', rfl, ?_, hv, ?_⟩
          · exact List.forall_mem_cons.mpr ⟨hx, clean⟩
          · rw [List.length_cons, Nat.add_assoc, Nat.add_comm 1]

theorem exists_of_inMembers?_eq_some {parent : Option String} {members : Members} {o : Offence}
    (h : inMembers? parent members = some o) : ∃ before m after o',
      members = before ++ m :: after ∧ (∀ x ∈ before, offence? (child parent x.1) x.2 = none) ∧
      offence? (child parent m.1) m.2 = some o' ∧ o = o'.under (.key m.1) := by
  induction members with
  | nil => cases h
  | cons m rest ih =>
      obtain ⟨key, v⟩ := m
      rw [inMembers?] at h
      split at h
      · next o₁ hv =>
          cases h
          exact ⟨[], (key, v), rest, o₁, rfl, by simp, hv, rfl⟩
      · next hv =>
          obtain ⟨before, m, after, o', rfl, clean, hm, rfl⟩ := ih h
          exact ⟨(key, v) :: before, m, after, o', rfl, List.forall_mem_cons.mpr ⟨hv, clean⟩, hm,
            rfl⟩

/-- An object is refused for its own kind, or else for its first member that has an offence. -/
theorem offence?_object_cases {slot : Slot} {members : Members} {o : Offence}
    (h : offence? slot (.object members) = some o) :
    (typeName? members = some o.kind ∧ slot.allows o.kind = false ∧ o.path = []) ∨
    ((∀ name, typeName? members = some name → slot.allows name = true) ∧
      inMembers? (typeName? members) members = some o) := by
  rw [offence?] at h
  split at h
  · next name ht =>
      split at h
      · next ha =>
          refine .inr ⟨fun name' e => ?_, by rw [ht]; exact h⟩
          rw [ht] at e
          cases e
          exact ha
      · next ha =>
          cases h
          exact .inl ⟨ht, by simpa using ha, rfl⟩
  · next ht =>
      refine .inr ⟨fun name' e => ?_, by rw [ht]; exact h⟩
      rw [ht] at e
      cases e

theorem offends_of_offence?_eq_some {v : Value} {slot : Slot} {o : Offence}
    (h : offence? slot v = some o) : Offends slot v o := by
  induction v using Value.induction generalizing slot o with
  | null | bool | number | string => cases h
  | array items ih =>
      rw [offence?] at h
      obtain ⟨before, v, after, o', rfl, -, hv, rfl⟩ := exists_of_inItems?_eq_some h
      refine offends_array_iff.mpr ⟨before.length, v, o', by simp, ih v (by simp) hv, ?_⟩
      rw [Nat.zero_add]
  | object members ih =>
      rw [offends_object_iff]
      rcases offence?_object_cases h with ⟨ht, ha, hp⟩ | ⟨-, h⟩
      · exact .inl ⟨hp, ht, ha⟩
      · obtain ⟨before, m, after, o', hm, -, hv, rfl⟩ := exists_of_inMembers?_eq_some h
        have mem : m ∈ members := by
          rw [hm]
          simp
        exact .inr ⟨m, mem, o', ih m mem hv, rfl⟩

theorem not_offends_of_offence?_eq_none {v : Value} {slot : Slot} (h : offence? slot v = none)
    (o : Offence) : ¬ Offends slot v o := by
  induction v using Value.induction generalizing slot o with
  | null | bool | number | string => exact not_offends_scalar (by simp) (by simp)
  | array items ih =>
      rw [offends_array_iff]
      rintro ⟨i, v, o', found, hv, -⟩
      have mem := List.mem_of_getElem? found
      exact ih v mem (offence?_array_eq_none_iff.mp h v mem) o' hv
  | object members ih =>
      obtain ⟨allowed, clean⟩ := offence?_object_eq_none_iff.mp h
      rw [offends_object_iff]
      rintro (⟨-, ht, ha⟩ | ⟨m, mem, o', hv, -⟩)
      · rw [allowed _ ht] at ha
        cases ha
      · exact ih m mem (clean m mem) o' hv

/-! ### The order of the walk -/

/-- One way comes before another: to a value before the ways to its parts, and to a member or an
element before those that follow it. -/
inductive Precedes : List Step → List Step → Prop
  | whole {step : Step} {path : List Step} : Precedes [] (step :: path)
  | key {a b : String} {p q : List Step} (lt : a < b) : Precedes (.key a :: p) (.key b :: q)
  | index {i j : ℕ} {p q : List Step} (lt : i < j) : Precedes (.index i :: p) (.index j :: q)
  | later {step : Step} {p q : List Step} (rest : Precedes p q) : Precedes (step :: p) (step :: q)

theorem Precedes.asymm {p q : List Step} (h : Precedes p q) : ¬ Precedes q p := by
  induction h with
  | whole => rintro ⟨⟩
  | key lt =>
      intro h
      cases h with
      | key lt' => exact lt_asymm lt lt'
      | later _ => exact lt_irrefl _ lt
  | index lt =>
      intro h
      cases h with
      | index lt' => exact lt_asymm lt lt'
      | later _ => exact lt_irrefl _ lt
  | later _ ih =>
      intro h
      cases h with
      | key lt => exact lt_irrefl _ lt
      | index lt => exact lt_irrefl _ lt
      | later h => exact ih h

/-- The offence comes before every other in the value. -/
def IsFirst (slot : Slot) (v : Value) (o : Offence) : Prop :=
  Offends slot v o ∧ ∀ o', Offends slot v o' → o' = o ∨ Precedes o.path o'.path

theorem eq_or_precedes_under {step : Step} {o o' : Offence}
    (h : o' = o ∨ Precedes o.path o'.path) :
    o'.under step = o.under step ∨ Precedes (o.under step).path (o'.under step).path := by
  rcases h with rfl | h
  · exact .inl rfl
  · exact .inr (.later h)

/-- What the walk returns comes before all that offends. -/
theorem precedes_of_offence?_eq_some {v : Value} (hv : v.Ordered) {slot : Slot} {o o' : Offence}
    (h : offence? slot v = some o) (h' : Offends slot v o') :
    o' = o ∨ Precedes o.path o'.path := by
  induction v using Value.induction generalizing slot o o' with
  | null | bool | number | string => cases h
  | array items ih =>
      rw [offence?] at h
      obtain ⟨before, v, after, o₁, e, clean, hv₁, rfl⟩ := exists_of_inItems?_eq_some h
      obtain ⟨j, w, o₂, found, hw, rfl⟩ := offends_array_iff.mp h'
      have each : ∀ x ∈ items, x.Ordered := by cases hv; assumption
      rw [Nat.zero_add]
      rcases Nat.lt_trichotomy j before.length with lt | rfl | lt
      · have mem : w ∈ before := by
          rw [e, List.getElem?_append_left lt] at found
          exact List.mem_of_getElem? found
        exact absurd hw (not_offends_of_offence?_eq_none (clean w mem) o₂)
      · have hvw : v = w := by simpa [e] using found
        subst hvw
        have mem : v ∈ items := List.mem_of_getElem? found
        exact eq_or_precedes_under (ih v mem (each v mem) hv₁ hw)
      · exact .inr (.index lt)
  | object members ih =>
      rcases offence?_object_cases h with ⟨ht, ha, hp⟩ | ⟨allowed, h⟩
      · obtain ⟨kind, path⟩ := o
        cases hp
        rcases offends_object_iff.mp h' with ⟨hp', ht', -⟩ | ⟨m, -, o₂, -, rfl⟩
        · refine .inl ?_
          obtain ⟨kind', path'⟩ := o'
          cases hp'
          rw [ht] at ht'
          cases ht'
          rfl
        · exact .inr .whole
      · obtain ⟨before, m, after, o₁, e, clean, hm, rfl⟩ := exists_of_inMembers?_eq_some h
        cases hv with
        | object keys each =>
        rcases offends_object_iff.mp h' with ⟨-, ht', ha'⟩ | ⟨m', mem', o₂, hm', rfl⟩
        · rw [allowed _ ht'] at ha'
          cases ha'
        · have mem : m ∈ members := by
            rw [e]
            simp
          rw [Members.Ordered, e] at keys
          rw [e, List.mem_append, List.mem_cons] at mem'
          rcases mem' with mem' | rfl | mem'
          · exact absurd hm' (not_offends_of_offence?_eq_none (clean m' mem') o₂)
          · exact eq_or_precedes_under (ih m' mem (each m' mem) hm hm')
          · have lt := (List.pairwise_cons.mp (List.pairwise_append.mp keys).2.1).1 m' mem'
            exact .inr (.key lt)

/-- The walk returns the first offence. -/
theorem offence?_eq_some_iff {v : Value} (hv : v.Ordered) {slot : Slot} {o : Offence} :
    offence? slot v = some o ↔ IsFirst slot v o := by
  constructor
  · intro h
    exact ⟨offends_of_offence?_eq_some h, fun _ h' => precedes_of_offence?_eq_some hv h h'⟩
  · rintro ⟨ho, first⟩
    cases h : offence? slot v with
    | none => exact absurd ho (not_offends_of_offence?_eq_none h o)
    | some o₁ =>
        have before := precedes_of_offence?_eq_some hv h ho
        have after := first o₁ (offends_of_offence?_eq_some h)
        rcases before with rfl | before
        · rfl
        · rcases after with rfl | after
          · rfl
          · exact absurd after before.asymm

theorem exists_offence?_iff {v : Value} {slot : Slot} :
    (∃ o, offence? slot v = some o) ↔ ∃ o, Offends slot v o := by
  constructor
  · rintro ⟨o, h⟩
    exact ⟨o, offends_of_offence?_eq_some h⟩
  · rintro ⟨o, ho⟩
    rw [← Option.ne_none_iff_exists']
    exact fun h => not_offends_of_offence?_eq_none h o ho

end Slot

open Json (Value)
open Slot

theorem ofValue_eq_misplaced_iff {v : Value} {o : Offence} :
    Document.ofValue v = .error (.misplaced o) ↔ offence? .root v = some o := by
  unfold Document.ofValue
  cases offence? .root v with
  | some o' => simp
  | none => cases Decode.document v <;> simp

theorem toList_pathText (o : Offence) : o.pathText.toList =
    if o.path = [] then ['/'] else o.path.flatMap fun s => '/' :: s.text.toList := by
  unfold Offence.pathText
  cases o.path with
  | nil => rfl
  | cons step rest =>
      simp only [List.isEmpty_cons, Bool.false_eq_true, if_false, reduceCtorEq]
      rw [String.toList_join, List.flatMap_map]
      simp

/-- **Misplaced kinds.**  Loading a value refuses it for a misplaced kind exactly if something in it
offends, whatever else is wrong with it.  What is reported is the first offence, for values with
their members in order, as all have that are read from a text. -/
theorem misplaced_iff_isFirst :
    (∀ v, (∃ o, Document.ofValue v = .error (.misplaced o)) ↔ ∃ o, Offends .root v o) ∧
    (∀ v, v.Ordered → ∀ o, Document.ofValue v = .error (.misplaced o) ↔ IsFirst .root v o) ∧
    (∀ source bytes v, Json.parse source bytes = .ok v → v.Ordered) ∧
    (∀ o : Offence, o.pathText.toList =
      if o.path = [] then ['/'] else o.path.flatMap fun s => '/' :: s.text.toList) := by
  refine ⟨fun v => ?_, fun v hv o => ?_, fun _ _ _ => Json.ordered_of_parse, toList_pathText⟩
  · simp only [ofValue_eq_misplaced_iff]
    exact exists_offence?_iff
  · rw [ofValue_eq_misplaced_iff]
    exact offence?_eq_some_iff hv

/-- A text with three blocks: a number, a node of running text, and a node of no kind. -/
def misplacedBlocks : List UInt8 :=
  ("\x7b\"blocks\":[7,\x7b\"type\":\"Verb\"\x7d,\x7b\"type\":\"?\"\x7d]\x7d".toList).map
    fun c => c.toNat.toUInt8

/-- The running text is reported: the number is no matter of kinds, and the other node comes
later. -/
theorem isFirst_misplacedBlocks : ∃ v, Json.parse .text misplacedBlocks = .ok v ∧ v.Ordered ∧
    IsFirst .root v ⟨"Verb", [.key "blocks", .index 1]⟩ := by
  have read : Json.parse .text misplacedBlocks = .ok (.object [
      ("blocks", .array [.number (.integer 7), .object [("type", .string "Verb")],
        .object [("type", .string "?")]])]) := by
    with_unfolding_all rfl
  have ordered := misplaced_iff_isFirst.2.2.1 _ _ _ read
  exact ⟨_, read, ordered, (misplaced_iff_isFirst.2.1 _ ordered _).mp rfl⟩

end ManualPages
