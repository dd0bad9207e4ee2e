import ManualPages.Document.Slot

/-! # Trees without offence

`Slot.offence?` walks a tree and stops at the first misplaced kind.  A tree has none exactly if the
kind that it names is admitted and its parts have none, each in its own slot. -/

namespace ManualPages.Slot

open Json (Value Members)

theorem allows_iff {slot : Slot} {kind : Kind} :
    slot.allows kind.name = true ↔ kind ∈ slot.kinds := by
  unfold allows
  rw [Option.isSome_iff_exists]
  constructor
  · rintro ⟨k, h⟩
    obtain ⟨hk, e⟩ := Kind.find?_eq_some.mp h
    rwa [← Kind.name_injective e]
  · exact fun hk => ⟨kind, Kind.find?_eq_some.mpr ⟨hk, rfl⟩⟩

theorem inItems?_eq_none_iff {slot : Slot} {i : Nat} {items : List Value} :
    inItems? slot i items = none ↔ ∀ v ∈ items, offence? slot v = none := by
  induction items generalizing i with
  | nil => simp [inItems?]
  | cons v rest ih =>
      rw [inItems?, List.forall_mem_cons, ← ih (i := i + 1)]
      cases offence? slot v with
      | none => simp
      | some o => simp

theorem inMembers?_eq_none_iff {parent : Option String} {members : Members} :
    inMembers? parent members = none ↔ ∀ m ∈ members, offence? (child parent m.1) m.2 = none := by
  induction members with
  | nil => simp [inMembers?]
  | cons m rest ih =>
      obtain ⟨key, v⟩ := m
      rw [inMembers?, List.forall_mem_cons, ← ih]
      cases offence? (child parent key) v with
      | none => simp
      | some o => simp

theorem offence?_array_eq_none_iff {slot : Slot} {items : List Value} :
    offence? slot (.array items) = none ↔ ∀ v ∈ items, offence? slot v = none :=
  inItems?_eq_none_iff

theorem offence?_object_eq_none_iff {slot : Slot} {members : Members} :
    offence? slot (.object members) = none ↔
      (∀ name, typeName? members = some name → slot.allows name = true) ∧
        ∀ m ∈ members, offence? (child (typeName? members) m.1) m.2 = none := by
  rw [offence?, ← inMembers?_eq_none_iff]
  cases typeName? members with
  | none => simp
  | some name => by_cases h : slot.allows name = true <;> simp [h]

end ManualPages.Slot
