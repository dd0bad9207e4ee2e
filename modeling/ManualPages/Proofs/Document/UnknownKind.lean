import ManualPages.Proofs.Document.Offence
import ManualPages.Proofs.Sequence

/-! # Kinds that the reader does not know

The kinds of a tree are checked before it is read, so that the reader of documents has no kind left
to refuse.  The check looks at the `type` of objects only; a node may be stored as an array as well,
and then its kind is read without having been checked, as are the kinds of what it holds, which the
check takes to stand in the slot of the array.

* `Blames`: what is known of the name when a reader refuses it as the name of a kind.  The readers
  that read no node blame nothing, and `Blames.bind` joins those that follow one another.
* `Found`: the name offends against its slot, or stands in an array within an array.
* `located`: every name that is blamed is found, by the reader and by the value.
* `unknownKind_cases`: a document that is refused by the reader for an unknown kind has been refused
  by the check, or the name stands in a node that is stored as an array. -/

namespace ManualPages

open Json (Value Members)
open Slot

/-! ### Ways -/

/-- The way `path` leads from a value to the part `w` of it. -/
inductive Way : Value → List Step → Value → Prop
  | here {v : Value} : Way v [] v
  | element {items : List Value} {i : ℕ} {v w : Value} {path : List Step}
      (found : items[i]? = some v) (rest : Way v path w) : Way (.array items) (.index i :: path) w
  | member {members : Members} {key : String} {v w : Value} {path : List Step}
      (mem : (key, v) ∈ members) (rest : Way v path w) : Way (.object members) (.key key :: path) w

theorem Way.exists_leads {v w : Value} {path : List Step} (h : Way v path w) (slot : Slot) :
    ∃ s, Leads slot v path s w := by
  induction h generalizing slot with
  | here => exact ⟨slot, .here⟩
  | element found _ ih =>
      obtain ⟨s, hs⟩ := ih slot
      exact ⟨s, .element found hs⟩
  | @member members key _ _ _ mem _ ih =>
      obtain ⟨s, hs⟩ := ih (child (typeName? members) key)
      exact ⟨s, .member mem (under_iff.mpr rfl) hs⟩

theorem Way.of_leads {slot s : Slot} {v w : Value} {path : List Step}
    (h : Leads slot v path s w) : Way v path w := by
  induction h with
  | here => exact .here
  | element found _ ih => exact .element found ih
  | member mem _ _ ih => exact .member mem ih

theorem Way.trans {v w x : Value} {p q : List Step} (h : Way v p w) (h' : Way w q x) :
    Way v (p ++ q) x := by
  induction h with
  | here => exact h'
  | element found _ ih => exact .element found (ih h')
  | member mem _ ih => exact .member mem (ih h')

theorem mem_of_get?_eq_some {members : Members} {key : String} {v : Value}
    (h : members.get? key = some v) : (key, v) ∈ members := by
  induction members with
  | nil => cases h
  | cons m rest ih =>
      obtain ⟨k, w⟩ := m
      rw [Members.get?_cons] at h
      split at h
      · next hk =>
          cases h
          rw [hk]
          exact List.mem_cons_self
      · exact List.mem_cons_of_mem _ (ih h)

theorem typeName?_eq_some_iff {members : Members} {name : String} :
    typeName? members = some name ↔ members.get? "type" = some (.string name) := by
  unfold typeName?
  rw [Option.bind_eq_some_iff]
  constructor
  · rintro ⟨v, hv, ht⟩
    cases v with
    | string s =>
        cases ht
        exact hv
    | _ => cases ht
  · exact fun h => ⟨_, h, rfl⟩

theorem exists_way_of_offends {slot : Slot} {v : Value} {name : String} {path : List Step}
    (h : Offends slot v ⟨name, path⟩) : ∃ p, Way v p (.string name) := by
  obtain ⟨s, members, leads, typed, -⟩ := h
  have mem := mem_of_get?_eq_some (typeName?_eq_some_iff.mp typed)
  exact ⟨_, (Way.of_leads leads).trans (.member mem .here)⟩

/-- The way enters an array that stands in an array. -/
def NestsArrays (path : List Step) : Prop :=
  ∃ front i j rest, path = front ++ .index i :: .index j :: rest

/-- The way enters a node that is stored as an array: the whole value, or an element of an array. -/
def EntersArrayNode (path : List Step) : Prop :=
  (∃ i rest, path = .index i :: rest) ∨ NestsArrays path

theorem NestsArrays.cons {path : List Step} (h : NestsArrays path) (step : Step) :
    NestsArrays (step :: path) := by
  obtain ⟨front, i, j, rest, rfl⟩ := h
  exact ⟨step :: front, i, j, rest, rfl⟩

/-! ### Names in a value -/

/-- In `v`, which stands in `slot`, `name` offends against its slot, or is a text in an array within
an array. -/
def Found (slot : Slot) (v : Value) (name : String) : Prop :=
  (∃ path, Offends slot v ⟨name, path⟩) ∨ ∃ path, Way v path (.string name) ∧ NestsArrays path

/-- The same of an element of an array, which may be an array with that text in it. -/
def FoundInElement (slot : Slot) (v : Value) (name : String) : Prop :=
  Found slot v name ∨ ∃ i path, Way v (.index i :: path) (.string name)

theorem Found.exists_way {slot : Slot} {v : Value} {name : String} (h : Found slot v name) :
    ∃ path, Way v path (.string name) := by
  rcases h with ⟨_, offends⟩ | ⟨path, way, -⟩
  · exact exists_way_of_offends offends
  · exact ⟨path, way⟩

theorem Found.member {slot sub : Slot} {members : Members} {key : String} {v : Value}
    {name : String} (h : Found sub v name) (mem : (key, v) ∈ members)
    (under : child (typeName? members) key = sub) : Found slot (.object members) name := by
  subst under
  rcases h with ⟨path, offends⟩ | ⟨path, way, nests⟩
  · refine .inl ⟨.key key :: path, offends_object_iff.mpr (.inr ?_)⟩
    exact ⟨(key, v), mem, ⟨name, path⟩, offends, rfl⟩
  · exact .inr ⟨_, .member mem way, nests.cons _⟩

theorem FoundInElement.found {slot : Slot} {items : List Value} {v : Value} {name : String}
    (h : FoundInElement slot v name) (mem : v ∈ items) : Found slot (.array items) name := by
  obtain ⟨i, at_i⟩ := List.mem_iff_getElem?.mp mem
  rcases h with (⟨path, offends⟩ | ⟨path, way, nests⟩) | ⟨j, path, way⟩
  · refine .inl ⟨.index i :: path, offends_array_iff.mpr ?_⟩
    exact ⟨i, v, ⟨name, path⟩, at_i, offends, rfl⟩
  · exact .inr ⟨_, .element at_i way, nests.cons _⟩
  · exact .inr ⟨_, .element at_i way, [], i, j, path, rfl⟩

theorem foundInElement_of_mem {slot : Slot} {items : List Value} {v : Value} {name : String}
    (mem : v ∈ items) (h : ∃ path, Way v path (.string name)) :
    FoundInElement slot (.array items) name := by
  obtain ⟨i, at_i⟩ := List.mem_iff_getElem?.mp mem
  obtain ⟨path, way⟩ := h
  exact .inr ⟨i, path, .element at_i way⟩

namespace Decode

/-! ### Names that are blamed -/

section closure

variable {α β : Type} {P Q : String → Prop}

/-- If the reader refuses a name as that of no kind, the name has the property. -/
def Blames (r : Result α) (P : String → Prop) : Prop :=
  ∀ name known, r = .error (.unknownKind name known) → P name

theorem Blames.ok {a : α} : Blames (.ok a) P := by
  rintro _ _ ⟨⟩

theorem Blames.mono {r : Result α} (h : Blames r P) (hpq : ∀ name, P name → Q name) :
    Blames r Q :=
  fun name known e => hpq name (h name known e)

theorem Blames.bind {r : Result α} {f : α → Result β} (h : Blames r P)
    (hf : ∀ a, Blames (f a) P) : Blames (r >>= f) P := by
  intro name known e
  rcases bind_eq_error.mp e with first | ⟨a, -, second⟩
  · exact h name known first
  · exact hf a name known second

theorem blames_string {v : Value} : Blames (string v) P := by
  intro name known h
  cases v <;> cases h

theorem blames_optionalString {v : Value} : Blames (optionalString v) P := by
  unfold optionalString
  split
  · exact .ok
  · exact blames_string.bind fun _ => .ok

theorem blames_level {v : Value} : Blames (level v) P := by
  intro name known h
  unfold level at h
  split at h
  · split at h <;> cases h
  · cases h

theorem blames_strings {items : List Value} : Blames (strings items) P := by
  induction items with
  | nil => exact .ok
  | cons v rest ih => exact blames_string.bind fun _ => ih.bind fun _ => .ok

theorem blames_lines {v : Value} : Blames (lines v) P := by
  unfold lines
  split
  · exact blames_strings
  · rintro _ _ ⟨⟩

theorem blames_noMore {place : Place} {count : ℕ} {extra : List Value} :
    Blames (noMore place count extra) P := by
  intro name known h
  unfold noMore at h
  split at h <;> cases h

theorem blames_required {key : String} {o : Option α} : Blames (required key o) P := by
  intro name known h
  cases o <;> cases h

theorem blames_targetSort {place : Place} {v : Value} : Blames (targetSort place v) P := by
  intro name known h
  unfold targetSort at h
  split at h
  case h_4 => split at h <;> cases h
  all_goals cases h

theorem blames_optional {members : Members} {key : String} {read : Value → Result α}
    (h : ∀ v, (key, v) ∈ members → Blames (read v) P) : Blames (optional members key read) P := by
  unfold optional
  split
  · next v hv => exact (h v (mem_of_get?_eq_some hv)).bind fun _ => .ok
  · exact .ok

theorem Blames.andNoMore {r : Result α} (h : Blames r P) {place : Place} {count : ℕ}
    {extra : List Value} (f : α → β) :
    Blames (do let a ← r; noMore place count extra; pure (f a)) P :=
  h.bind fun _ => blames_noMore.bind fun _ => .ok

theorem blames_all (read : Value → Result α) (readAll : List Value → Result (List α))
    (nil : readAll [] = .ok [])
    (cons : ∀ v rest, readAll (v :: rest) = (do
      let a ← read v
      pure (a :: (← readAll rest))))
    {items : List Value} (h : ∀ v ∈ items, Blames (read v) P) : Blames (readAll items) P := by
  induction items with
  | nil =>
      rw [nil]
      exact .ok
  | cons v rest ih =>
      rw [cons]
      have others := ih fun w hw => h w (List.mem_cons_of_mem v hw)
      exact (h v List.mem_cons_self).bind fun _ => others.bind fun _ => .ok

theorem blames_at (key : String) (read : Value → Result (List α))
    (readAt : List (String × Value) → Result (List α)) (nil : readAt [] = .ok [])
    (cons : ∀ k v rest, readAt ((k, v) :: rest) = if k = key then read v else readAt rest)
    {members : Members} (h : ∀ v, (key, v) ∈ members → Blames (read v) P) :
    Blames (readAt members) P := by
  induction members with
  | nil =>
      rw [nil]
      exact .ok
  | cons m rest ih =>
      obtain ⟨k, v⟩ := m
      rw [cons]
      split
      · next hk =>
          subst hk
          exact h v List.mem_cons_self
      · exact ih fun w hw => h w (List.mem_cons_of_mem _ hw)

/-- A tag that is refused is a text that names none of the kinds. -/
theorem blames_tag {place : Place} {kinds : List Kind} {v : Value} :
    Blames (tag place kinds v) fun name => v = .string name ∧ ∀ k ∈ kinds, k.name ≠ name := by
  intro name known h
  unfold tag at h
  split at h
  · next s =>
      split at h
      · cases h
      · next none =>
          cases h
          refine ⟨rfl, fun k hk e => ?_⟩
          rw [Kind.find?_eq_some.mpr ⟨hk, e⟩] at none
          cases none
  · split at h
    · split at h <;> cases h
    · cases h
  · cases h

theorem blames_tagOf {place : Place} {kinds : List Kind} {members : Members} :
    Blames (tagOf place kinds members) fun name =>
      typeName? members = some name ∧ ∀ k ∈ kinds, k.name ≠ name := by
  unfold tagOf
  split
  · next v hv =>
      refine blames_tag.mono fun name h => ⟨typeName?_eq_some_iff.mpr ?_, h.2⟩
      rw [hv, h.1]
  · rintro _ _ ⟨⟩

theorem blames_target {place : Place} {v : Value} : Blames (target place v) P := by
  unfold target
  split
  · split
    · refine blames_targetSort.bind fun sort => ?_
      cases sort with
      | url =>
          refine (blames_optional fun _ _ => blames_string).bind fun url => ?_
          exact blames_required.bind fun _ => .ok
      | label =>
          refine (blames_optional fun _ _ => blames_optionalString).bind fun file => ?_
          refine (blames_optional fun _ _ => blames_string).bind fun name => ?_
          exact blames_required.bind fun _ => .ok
      | unsupported => exact .ok
    · rintro _ _ ⟨⟩
  · rintro _ _ ⟨⟩
  · refine blames_targetSort.bind fun sort => ?_
    split
    · rintro _ _ ⟨⟩
    · exact blames_string.andNoMore _
    · rintro _ _ ⟨⟩
    · exact blames_string.bind fun _ => .ok
    · exact blames_string.bind fun _ => blames_optionalString.andNoMore _
    · exact blames_noMore.bind fun _ => .ok
  · rintro _ _ ⟨⟩

end closure

/-! ### Readers of nodes -/

/-- Whatever a reader of nodes blames in `v`, it is found there, if `v` stands in the slot that the
reader is for.  The items of lists are checked for their own kind only, so their slot is open. -/
structure Located (v : Value) : Prop where
  inline : ∀ place, Blames (Decode.inline place v) (FoundInElement .inline v)
  inlines : ∀ place, Blames (Decode.inlines place v) (Found .inline v)
  block : ∀ place, Blames (Decode.block place v) (FoundInElement .block v)
  blocks : ∀ place, Blames (Decode.blocks place v) (Found .block v)
  item : ∀ place kind slot, Blames (Decode.item place kind v) (FoundInElement slot v)
  items : ∀ kind slot, Blames (Decode.items kind v) (Found slot v)
  description : ∀ place slot, Blames (Decode.description place v) (FoundInElement slot v)
  descriptions : ∀ slot, Blames (Decode.descriptions v) (Found slot v)
  method : ∀ place slot, Blames (Decode.method place v) (FoundInElement slot v)
  methods : ∀ slot, Blames (Decode.methods v) (Found slot v)

theorem located_scalar {v : Value} (ha : ∀ items, v ≠ .array items)
    (ho : ∀ members, v ≠ .object members) : Located v := by
  cases v with
  | array items => exact absurd rfl (ha items)
  | object members => exact absurd rfl (ho members)
  | _ =>
      constructor
      all_goals
        intros
        intro name known h
        cases h

/-- What is blamed in a member is found in the object, if the member stands in its slot. -/
theorem Blames.inObject {α : Type} {r : Result α} {slot sub : Slot} {members : Members}
    {key : String} {v : Value} (h : Blames r (Found sub v)) (mem : (key, v) ∈ members)
    (under : child (typeName? members) key = sub) : Blames r (Found slot (.object members)) :=
  h.mono fun _ found => found.member mem under

/-- What is blamed in an element is found in the array, whatever its slot. -/
theorem Blames.inArray {α : Type} {r : Result α} {slot sub : Slot} {items : List Value} {v : Value}
    (h : Blames r (Found sub v)) (mem : v ∈ items) :
    Blames r (FoundInElement slot (.array items)) :=
  h.mono fun _ found => foundInElement_of_mem mem found.exists_way

/-- The tag of an object is what the check looks at. -/
theorem blames_tagOf_of_kinds {slot : Slot} {place : Place} {kinds : List Kind}
    {members : Members} (same : slot.kinds = kinds) :
    Blames (tagOf place kinds members) (Found slot (.object members)) := by
  refine blames_tagOf.mono fun name h => .inl ⟨[], slot, members, .here, h.1, ?_⟩
  rw [same]
  exact h.2

section object

variable {members : Members} (ih : ∀ m ∈ members, Located m.2)
include ih

theorem blames_inlinesAt_content {slot : Slot} {place : Place} :
    Blames (inlinesAt place "content" members) (Found slot (.object members)) :=
  blames_at "content" (inlines place) (inlinesAt place "content") rfl (fun _ _ _ => rfl)
    fun _ mem => ((ih _ mem).inlines place).inObject mem rfl

theorem blames_blocksAt {slot : Slot} {place : Place} {key : String}
    (under : child (typeName? members) key = .block) :
    Blames (blocksAt place key members) (Found slot (.object members)) :=
  blames_at key (blocks place) (blocksAt place key) rfl (fun _ _ _ => rfl) fun _ mem =>
    ((ih _ mem).blocks place).inObject mem under

theorem blames_itemsAt {slot : Slot} {kind : Kind} :
    Blames (itemsAt kind members) (Found slot (.object members)) :=
  blames_at "items" (items kind) (itemsAt kind) rfl (fun _ _ _ => rfl) fun _ mem =>
    ((ih _ mem).items kind _).inObject mem rfl

theorem blames_descriptionsAt {slot : Slot} :
    Blames (descriptionsAt members) (Found slot (.object members)) :=
  blames_at "items" descriptions descriptionsAt rfl (fun _ _ _ => rfl) fun _ mem =>
    ((ih _ mem).descriptions _).inObject mem rfl

theorem blames_methodsAt {slot : Slot} :
    Blames (methodsAt members) (Found slot (.object members)) :=
  blames_at "items" methods methodsAt rfl (fun _ _ _ => rfl) fun _ mem =>
    ((ih _ mem).methods _).inObject mem rfl

theorem blames_inline_object {place : Place} :
    Blames (inline place (.object members)) (Found .inline (.object members)) := by
  refine Blames.bind (blames_tagOf_of_kinds rfl) fun kind => ?_
  cases kind with
  | text | verb =>
      refine (blames_optional fun _ _ => blames_string).bind fun content => ?_
      exact blames_required.bind fun _ => .ok
  | reference =>
      refine (blames_inlinesAt_content ih).bind fun content => ?_
      refine (blames_optional fun _ _ => blames_target).bind fun label => ?_
      exact blames_required.bind fun _ => .ok
  | _ => exact (blames_inlinesAt_content ih).bind fun _ => .ok

theorem blames_block_object {place : Place} :
    Blames (block place (.object members)) (Found .block (.object members)) := by
  have content : Blames (optional members "content" (inlines .inside))
      (Found .block (.object members)) :=
    blames_optional fun _ mem => ((ih _ mem).inlines _).inObject mem rfl
  refine Blames.bind (blames_tagOf_of_kinds rfl) fun kind => ?_
  cases kind with
  | headline =>
      refine content.bind fun title => ?_
      refine (blames_optional fun _ _ => blames_level).bind fun n => ?_
      exact blames_required.bind fun _ => .ok
  | verbatim => exact (blames_optional fun _ _ => blames_lines).bind fun _ => .ok
  | bulletList | numberedList => exact (blames_itemsAt ih).bind fun _ => .ok
  | descriptionList => exact (blames_descriptionsAt ih).bind fun _ => .ok
  | methodList => exact (blames_methodsAt ih).bind fun _ => .ok
  | _ => exact content.bind fun _ => .ok

theorem located_object : Located (.object members) where
  inline _ := (blames_inline_object ih).mono fun _ h => .inl h
  inlines _ := by rintro _ _ ⟨⟩
  block _ := (blames_block_object ih).mono fun _ h => .inl h
  blocks _ := by rintro _ _ ⟨⟩
  item _ _ _ := by
    refine Blames.mono ?_ fun _ h => Or.inl h
    exact (blames_blocksAt ih rfl).bind fun _ => .ok
  items _ _ := by rintro _ _ ⟨⟩
  description _ _ := by
    refine Blames.mono ?_ fun _ h => Or.inl h
    refine (blames_blocksAt ih rfl).bind fun body => ?_
    refine (blames_optional fun v mem => ?_).bind fun term => .ok
    exact ((ih _ mem).inlines _).inObject mem rfl
  descriptions _ := by rintro _ _ ⟨⟩
  method _ _ := by
    refine Blames.mono ?_ fun _ h => Or.inl h
    refine (blames_blocksAt ih rfl).bind fun body => ?_
    refine (blames_optional fun _ _ => blames_string).bind fun term => ?_
    exact blames_required.bind fun _ => .ok
  methods _ := by rintro _ _ ⟨⟩

end object

/-- The first element of an array is read as a tag, and not checked. -/
theorem blames_tag_mem {slot : Slot} {place : Place} {kinds : List Kind} {items : List Value}
    {v : Value} (mem : v ∈ items) :
    Blames (tag place kinds v) (FoundInElement slot (.array items)) := by
  refine blames_tag.mono fun name h => foundInElement_of_mem mem ⟨[], ?_⟩
  rw [h.1]
  exact .here

section array

variable {items : List Value} (ih : ∀ v ∈ items, Located v)
include ih

theorem blames_inline_array {slot : Slot} {place : Place} :
    Blames (inline place (.array items)) (FoundInElement slot (.array items)) := by
  rcases items with _ | ⟨tag, fields⟩
  · rintro _ _ ⟨⟩
  refine Blames.bind (blames_tag_mem List.mem_cons_self) fun kind => ?_
  cases kind with
  | text | verb =>
      rcases fields with _ | ⟨content, extra⟩
      · rintro _ _ ⟨⟩
      · exact blames_string.andNoMore _
  | reference =>
      rcases fields with _ | ⟨label, _ | ⟨content, extra⟩⟩
      · rintro _ _ ⟨⟩
      · exact blames_target.bind fun _ => .ok
      · have mem : content ∈ tag :: label :: content :: extra := by simp
        have inside := (ih content mem).inlines .inside
        exact blames_target.bind fun _ => (inside.inArray mem).andNoMore _
  | _ =>
      rcases fields with _ | ⟨content, extra⟩
      · exact .ok
      · have mem : content ∈ tag :: content :: extra := by simp
        exact (((ih content mem).inlines .inside).inArray mem).andNoMore _

theorem blames_block_array {slot : Slot} {place : Place} :
    Blames (block place (.array items)) (FoundInElement slot (.array items)) := by
  rcases items with _ | ⟨tag, fields⟩
  · rintro _ _ ⟨⟩
  refine Blames.bind (blames_tag_mem List.mem_cons_self) fun kind => ?_
  cases kind with
  | headline =>
      rcases fields with _ | ⟨n, _ | ⟨title, extra⟩⟩
      · rintro _ _ ⟨⟩
      · exact blames_level.bind fun _ => .ok
      · have mem : title ∈ tag :: n :: title :: extra := by simp
        have inside := (ih title mem).inlines .inside
        exact blames_level.bind fun _ => (inside.inArray mem).andNoMore _
  | verbatim =>
      rcases fields with _ | ⟨texts, extra⟩
      · exact .ok
      · exact blames_lines.andNoMore _
  | bulletList | numberedList =>
      rcases fields with _ | ⟨list, extra⟩
      · exact .ok
      · have mem : list ∈ tag :: list :: extra := by simp
        exact (((ih list mem).items _ slot).inArray mem).andNoMore _
  | descriptionList =>
      rcases fields with _ | ⟨list, extra⟩
      · exact .ok
      · have mem : list ∈ tag :: list :: extra := by simp
        exact (((ih list mem).descriptions slot).inArray mem).andNoMore _
  | methodList =>
      rcases fields with _ | ⟨list, extra⟩
      · exact .ok
      · have mem : list ∈ tag :: list :: extra := by simp
        exact (((ih list mem).methods slot).inArray mem).andNoMore _
  | _ =>
      rcases fields with _ | ⟨content, extra⟩
      · exact .ok
      · have mem : content ∈ tag :: content :: extra := by simp
        exact (((ih content mem).inlines .inside).inArray mem).andNoMore _

theorem blames_item_array {slot : Slot} {place : Place} {kind : Kind} :
    Blames (item place kind (.array items)) (FoundInElement slot (.array items)) := by
  cases items with
  | nil => exact .ok
  | cons content extra =>
      have mem : content ∈ content :: extra := List.mem_cons_self
      exact (((ih content mem).blocks place).inArray mem).andNoMore _

theorem blames_description_array {slot : Slot} {place : Place} :
    Blames (description place (.array items)) (FoundInElement slot (.array items)) := by
  rcases items with _ | ⟨term, _ | ⟨body, extra⟩⟩
  · exact .ok
  · have mem : term ∈ [term] := List.mem_cons_self
    exact (((ih term mem).inlines place).inArray mem).bind fun _ => .ok
  · have memTerm : term ∈ term :: body :: extra := by simp
    have memBody : body ∈ term :: body :: extra := by simp
    have inside := (ih body memBody).blocks place
    refine (((ih term memTerm).inlines place).inArray memTerm).bind fun term => ?_
    exact (inside.inArray memBody).andNoMore _

theorem blames_method_array {slot : Slot} {place : Place} :
    Blames (method place (.array items)) (FoundInElement slot (.array items)) := by
  rcases items with _ | ⟨term, _ | ⟨body, extra⟩⟩
  · rintro _ _ ⟨⟩
  · exact blames_string.bind fun _ => .ok
  · have mem : body ∈ term :: body :: extra := by simp
    have inside := (ih body mem).blocks place
    exact blames_string.bind fun _ => (inside.inArray mem).andNoMore _

theorem located_array : Located (.array items) where
  inline _ := blames_inline_array ih
  inlines place := blames_all (inline place) (inlineItems place) rfl (fun _ _ => rfl) fun v mem =>
    ((ih v mem).inline place).mono fun _ h => h.found mem
  block _ := blames_block_array ih
  blocks place := blames_all (block place) (blockItems place) rfl (fun _ _ => rfl) fun v mem =>
    ((ih v mem).block place).mono fun _ h => h.found mem
  item _ _ _ := blames_item_array ih
  items kind slot := blames_all (item .inside kind) (itemItems kind) rfl (fun _ _ => rfl)
    fun v mem => ((ih v mem).item .inside kind slot).mono fun _ h => h.found mem
  description _ _ := blames_description_array ih
  descriptions slot := blames_all (description .inside) descriptionItems rfl (fun _ _ => rfl)
    fun v mem => ((ih v mem).description .inside slot).mono fun _ h => h.found mem
  method _ _ := blames_method_array ih
  methods slot := blames_all (method .inside) methodItems rfl (fun _ _ => rfl) fun v mem =>
    ((ih v mem).method .inside slot).mono fun _ h => h.found mem

end array

theorem located (v : Value) : Located v := by
  induction v using Value.induction with
  | array items ih => exact located_array ih
  | object members ih => exact located_object ih
  | _ => exact located_scalar (by simp) (by simp)

/-- What a reader of documents blames is found, as in an element: the document may be stored as an
array itself. -/
theorem blames_document (v : Value) : Blames (document v) (FoundInElement .root v) := by
  unfold document
  split
  · next members =>
      refine Blames.mono ?_ fun _ h => Or.inl h
      refine (blames_optional fun w mem => ?_).bind fun content => ?_
      · exact ((located w).blocks .outside).inObject mem rfl
      · exact (blames_optional fun _ _ => blames_optionalString).bind fun source => .ok
  · exact .ok
  · exact blames_optionalString.bind fun _ => .ok
  · next source content extra =>
      have mem : content ∈ source :: content :: extra := by simp
      have inside := (located content).blocks .outside
      exact blames_optionalString.bind fun _ => (inside.inArray mem).andNoMore _
  · rintro _ _ ⟨⟩

theorem document_blocks_array {name : String} (unknown : ∀ k ∈ Kind.blocks, k.name ≠ name) :
    document (.object [("blocks", .array [.array [.string name]])]) =
      .error (.unknownKind name Kind.blocks) := by
  have none : Kind.find? Kind.blocks name = none := by
    rw [Option.eq_none_iff_forall_ne_some]
    intro k hk
    obtain ⟨mem, e⟩ := Kind.find?_eq_some.mp hk
    exact unknown k mem e
  have block : block .outside (.array [.string name]) = .error (.unknownKind name Kind.blocks) := by
    rw [Decode.block, tag, none]
    rfl
  have blocks : blocks .outside (.array [.array [.string name]]) =
      .error (.unknownKind name Kind.blocks) := by
    rw [Decode.blocks, blockItems, block]
    rfl
  have member : optional [("blocks", .array [.array [.string name]])] "blocks"
      (Decode.blocks .outside) = .error (.unknownKind name Kind.blocks) := by
    rw [optional, Members.get?_cons, if_pos rfl]
    dsimp only
    rw [blocks]
    rfl
  rw [document, member]
  rfl

end Decode

/-! ### Loading -/

/-- Whatever text is the kind of a block that is stored as an array, it passes the check. -/
theorem ofValue_blocks_array {name : String} (unknown : ∀ k ∈ Kind.blocks, k.name ≠ name) :
    Document.ofValue (.object [("blocks", .array [.array [.string name]])]) =
      .error (.notDocument (.unknownKind name Kind.blocks)) := by
  have refused := Decode.document_blocks_array unknown
  rw [Document.ofValue, refused]
  rfl

/-- **Unknown kinds.**  A value that the reader refuses for the name of no known kind has been
refused by the check of kinds; or the name is a text on a way that enters a node stored as an array,
and what is reported is the error of the reader. -/
theorem unknownKind_cases {v : Value} {name : String} {known : List Kind}
    (refused : Decode.document v = .error (.unknownKind name known)) :
    (∃ o, Document.ofValue v = .error (.misplaced o)) ∨
      Document.ofValue v = .error (.notDocument (.unknownKind name known)) ∧
        ∃ path slot, Leads .root v path slot (.string name) ∧ EntersArrayNode path := by
  cases checked : offence? .root v with
  | some o => exact .inl ⟨o, ofValue_eq_misplaced_iff.mpr checked⟩
  | none =>
      refine .inr ⟨by rw [Document.ofValue, checked, refused], ?_⟩
      rcases Decode.blames_document v name known refused with found | ⟨i, path, way⟩
      · rcases found with ⟨path, offends⟩ | ⟨path, way, nests⟩
        · exact absurd offends (not_offends_of_offence?_eq_none checked _)
        · obtain ⟨slot, leads⟩ := way.exists_leads .root
          exact ⟨path, slot, leads, .inr nests⟩
      · obtain ⟨slot, leads⟩ := way.exists_leads .root
        exact ⟨_, slot, leads, .inl ⟨i, path, rfl⟩⟩

/-- A block of no known kind, stored as an array, passes the check. -/
theorem unknownKind_stored_as_array :
    Decode.document (.object [("blocks", .array [.array [.string "Nope"]])]) =
      .error (.unknownKind "Nope" Kind.blocks) ∧
    Document.ofValue (.object [("blocks", .array [.array [.string "Nope"]])]) =
      .error (.notDocument (.unknownKind "Nope" Kind.blocks)) ∧
    ∃ path slot, Leads .root (.object [("blocks", .array [.array [.string "Nope"]])]) path slot
      (.string "Nope") ∧ EntersArrayNode path := by
  have refused : Decode.document (.object [("blocks", .array [.array [.string "Nope"]])]) =
      .error (.unknownKind "Nope" Kind.blocks) := rfl
  have generic := ofValue_blocks_array (show ∀ k ∈ Kind.blocks, k.name ≠ "Nope" by decide)
  refine ⟨refused, generic, ?_⟩
  rcases unknownKind_cases refused with ⟨o, misplaced⟩ | ⟨-, way⟩
  · rw [generic] at misplaced
    cases misplaced
  · exact way

/-- A headline among the inline nodes of a paragraph that is stored as an array: the check takes it
for a block. -/
example : Document.ofValue (.object [("blocks", .array [.array [.string "TextBlock",
    .array [.object [("type", .string "Headline")]]]])]) =
      .error (.notDocument (.unknownKind "Headline" Kind.inlines)) := rfl

end ManualPages
