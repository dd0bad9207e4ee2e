import ManualPages.Json.Parser
import ManualPages.Proofs.Sequence
import Mathlib.Data.String.Basic

/-! # The order of members

`Members.insert` keeps the members of an object in the order of their keys, so every value that is
read has them in that order, in each object at any depth: `ordered_of_parse`.  The readers of values
call one another with less fuel each time; the induction is on the fuel, with one lemma for each
reader. -/

namespace ManualPages.Json

/-! ### Values -/

namespace Value

/-- In every object of the value the keys are in increasing order, each once. -/
inductive Ordered : Value → Prop
  | null : Ordered .null
  | bool (b : Bool) : Ordered (.bool b)
  | number (n : Number) : Ordered (.number n)
  | string (s : String) : Ordered (.string s)
  | array {items : List Value} (each : ∀ v ∈ items, Ordered v) : Ordered (.array items)
  | object {members : Members} (keys : members.Ordered) (each : ∀ m ∈ members, Ordered m.2) :
      Ordered (.object members)

/-- What every value gets from its parts, all values have. -/
theorem induction {P : Value → Prop} (null : P .null) (bool : ∀ b, P (.bool b))
    (number : ∀ n, P (.number n)) (string : ∀ s, P (.string s))
    (array : ∀ items, (∀ v ∈ items, P v) → P (.array items))
    (object : ∀ members : Members, (∀ m ∈ members, P m.2) → P (.object members)) :
    ∀ v, P v
  | .null => null
  | .bool b => bool b
  | .number n => number n
  | .string s => string s
  | .array items => array items fun v _ => induction null bool number string array object v
  | .object members =>
      object members fun m _ => induction null bool number string array object m.2
termination_by v => sizeOf v
decreasing_by
  · rename_i h
    have := List.sizeOf_lt_of_mem h
    simp only [Value.array.sizeOf_spec]
    omega
  · rename_i h
    have hm := List.sizeOf_lt_of_mem h
    have hv : sizeOf m.2 < sizeOf m := by
      cases m
      simp
    simp only [Value.object.sizeOf_spec]
    omega

end Value

/-! ### Writing a member -/

namespace Members

theorem mem_insert {key : String} {value : Value} {members : Members} {m : String × Value}
    (h : m ∈ members.insert key value) : m = (key, value) ∨ m ∈ members := by
  induction members with
  | nil => exact .inl (List.mem_singleton.mp h)
  | cons head rest ih =>
      obtain ⟨k, v⟩ := head
      rw [insert] at h
      split at h
      · rcases List.mem_cons.mp h with rfl | h
        · exact .inl rfl
        · exact .inr (List.mem_cons_of_mem _ h)
      · split at h
        · exact List.mem_cons.mp h
        · rcases List.mem_cons.mp h with rfl | h
          · exact .inr (by simp)
          · exact (ih h).imp_right (List.mem_cons_of_mem _)

theorem Ordered.insert {members : Members} (h : members.Ordered) (key : String) (value : Value) :
    (members.insert key value).Ordered := by
  unfold Members.Ordered at h ⊢
  induction members with
  | nil => exact List.pairwise_singleton _ _
  | cons head rest ih =>
      obtain ⟨k, v⟩ := head
      obtain ⟨first, others⟩ := List.pairwise_cons.mp h
      rw [Members.insert]
      split
      · next e =>
          subst e
          exact List.pairwise_cons.mpr ⟨first, others⟩
      · next hne =>
          split
          · next hlt =>
              refine List.pairwise_cons.mpr ⟨fun m hm => ?_, h⟩
              rcases List.mem_cons.mp hm with rfl | hm
              · exact hlt
              · exact lt_trans hlt (first m hm)
          · next hge =>
              refine List.pairwise_cons.mpr ⟨fun m hm => ?_, ih others⟩
              rcases mem_insert hm with rfl | hm
              · exact lt_of_le_of_ne (not_lt.mp hge) (Ne.symm hne)
              · exact first m hm

end Members

theorem Value.Ordered.insert {members : Members} {v : Value} (h : Value.Ordered (.object members))
    (key : String) (hv : v.Ordered) : Value.Ordered (.object (members.insert key v)) := by
  cases h with
  | object keys each =>
      refine .object (keys.insert key v) fun m hm => ?_
      rcases Members.mem_insert hm with rfl | hm
      · exact hv
      · exact each m hm

/-! ### Reading -/

namespace Parser

theorem fail_ne_ok {α : Type} {cause : Cause} {rest : List UInt8} {a : α} :
    fail cause rest ≠ .ok a := by
  simp [fail]

/-- What the readers of values return has its members in order, if what they add to has. -/
def ReadsOrdered (source : Source) (fuel : ℕ) : Prop :=
  (∀ depth s v rest, value source fuel depth s = .ok (v, rest) → v.Ordered) ∧
  (∀ depth acc s v rest, (∀ x ∈ acc, Value.Ordered x) →
    elements source fuel depth acc s = .ok (v, rest) → v.Ordered) ∧
  (∀ depth first acc s v rest, Value.Ordered (.object acc) →
    members source fuel depth first acc s = .ok (v, rest) → v.Ordered) ∧
  (∀ depth acc s v rest, Value.Ordered (.object acc) →
    member source fuel depth acc s = .ok (v, rest) → v.Ordered)

variable {source : Source} {fuel : ℕ}

theorem ordered_value (ih : ReadsOrdered source fuel) {depth : ℕ} {s rest : List UInt8} {v : Value}
    (h : value source (fuel + 1) depth s = .ok (v, rest)) : v.Ordered := by
  obtain ⟨-, ihElements, ihMembers, -⟩ := ih
  rw [value] at h
  split at h
  · exact absurd h fail_ne_ok
  · split at h
    case h_6 =>
      split at h
      · exact absurd h fail_ne_ok
      · exact ihElements _ _ _ _ _ (by simp) h
    case h_7 =>
      split at h
      · exact absurd h fail_ne_ok
      · exact ihMembers _ _ _ _ _ _ (.object .nil (by simp)) h
    case h_8 =>
      split at h
      · simp only [bind_eq_ok, pure_eq_ok] at h
        obtain ⟨_, _, h⟩ := h
        cases h
        exact .number _
      · exact absurd h fail_ne_ok
    -- the others are scalars
    all_goals
      simp only [bind_eq_ok, pure_eq_ok] at h
      obtain ⟨_, _, h⟩ := h
      cases h
      constructor

theorem ordered_elements (ih : ReadsOrdered source fuel) {depth : ℕ} {acc : List Value}
    {s rest : List UInt8} {v : Value} (hacc : ∀ x ∈ acc, Value.Ordered x)
    (h : elements source (fuel + 1) depth acc s = .ok (v, rest)) : v.Ordered := by
  obtain ⟨ihValue, ihElements, -, -⟩ := ih
  -- one more element, and those that follow it
  have next : ∀ s', (value source fuel depth s' >>= fun p =>
      elements source fuel depth (p.1 :: acc) p.2) = .ok (v, rest) → v.Ordered := by
    intro s' h'
    obtain ⟨⟨x, s''⟩, hx, h'⟩ := bind_eq_ok.mp h'
    refine ihElements _ _ _ _ _ ?_ h'
    exact List.forall_mem_cons.mpr ⟨ihValue _ _ _ _ hx, hacc⟩
  rw [elements] at h
  split at h
  · exact absurd h fail_ne_ok
  · split at h
    · cases h
      exact .array fun x hx => hacc x (List.mem_reverse.mp hx)
    · split at h
      · exact next _ h
      · split at h
        · split at h
          · exact absurd h fail_ne_ok
          · split at h
            · exact absurd h fail_ne_ok
            · exact next _ h
        · exact absurd h fail_ne_ok

theorem ordered_members (ih : ReadsOrdered source fuel) {depth : ℕ} {first : Bool} {acc : Members}
    {s rest : List UInt8} {v : Value} (hacc : Value.Ordered (.object acc))
    (h : members source (fuel + 1) depth first acc s = .ok (v, rest)) : v.Ordered := by
  obtain ⟨-, -, -, ihMember⟩ := ih
  rw [members] at h
  split at h
  · exact absurd h fail_ne_ok
  · split at h
    · cases h
      exact hacc
    · split at h
      · split at h
        · exact ihMember _ _ _ _ _ hacc h
        · exact absurd h fail_ne_ok
      · split at h
        · split at h
          · exact absurd h fail_ne_ok
          · split at h
            · exact ihMember _ _ _ _ _ hacc h
            · split at h
              · exact absurd h fail_ne_ok
              · exact absurd h fail_ne_ok
        · exact absurd h fail_ne_ok

theorem ordered_member (ih : ReadsOrdered source fuel) {depth : ℕ} {acc : Members}
    {s rest : List UInt8} {v : Value} (hacc : Value.Ordered (.object acc))
    (h : member source (fuel + 1) depth acc s = .ok (v, rest)) : v.Ordered := by
  obtain ⟨ihValue, -, ihMembers, -⟩ := ih
  rw [member] at h
  obtain ⟨⟨key, s'⟩, -, h⟩ := bind_eq_ok.mp h
  dsimp only at h
  split at h
  · exact absurd h fail_ne_ok
  · split at h
    · obtain ⟨⟨x, s''⟩, hx, h⟩ := bind_eq_ok.mp h
      refine ihMembers _ _ _ _ _ _ ?_ h
      exact hacc.insert key (ihValue _ _ _ _ hx)
    · exact absurd h fail_ne_ok

theorem readsOrdered (source : Source) (fuel : ℕ) : ReadsOrdered source fuel := by
  induction fuel with
  | zero =>
      refine ⟨?_, ?_, ?_, ?_⟩
      · intro depth s v rest h
        rw [value] at h
        exact absurd h fail_ne_ok
      · intro depth acc s v rest _ h
        rw [elements] at h
        exact absurd h fail_ne_ok
      · intro depth first acc s v rest _ h
        rw [members] at h
        exact absurd h fail_ne_ok
      · intro depth acc s v rest _ h
        rw [member] at h
        exact absurd h fail_ne_ok
  | succ fuel ih =>
      exact ⟨fun _ _ _ _ => ordered_value ih, fun _ _ _ _ _ => ordered_elements ih,
        fun _ _ _ _ _ _ => ordered_members ih, fun _ _ _ _ _ => ordered_member ih⟩

end Parser

/-- **Values that are read.**  A value that is read from a text has its members in order. -/
theorem ordered_of_parse {source : Source} {bytes : List UInt8} {v : Value}
    (h : parse source bytes = .ok v) : v.Ordered := by
  unfold parse at h
  split at h
  · next v' h' =>
      cases h
      unfold Parser.document at h'
      obtain ⟨⟨x, rest⟩, hx, h'⟩ := bind_eq_ok.mp h'
      dsimp only at h'
      split at h'
      · cases h'
        exact (Parser.readsOrdered source _).1 _ _ _ _ hx
      · exact absurd h' Parser.fail_ne_ok
  · cases h

end ManualPages.Json
