import ManualPages.Text.Utf8
import Mathlib.Data.Nat.Notation
import Mathlib.Logic.Function.Basic

/-! # The bytes of a text

A text is known from its bytes: `encode_injective`.  It can be cut at the byte offsets between its
characters and at no others: `splitAt?_eq_some_iff`. -/

namespace ManualPages.Utf8

/-- The bytes from the place `i` on are put behind those that have been taken. -/
theorem toList_loop (b : ByteArray) (i : ℕ) (taken : List UInt8) :
    ByteArray.toList.loop b i taken = taken.reverse ++ b.data.toList.drop i := by
  have size : b.data.toList.length = b.size := by simp
  induction h : b.size - i generalizing i taken with
  | zero =>
      rw [ByteArray.toList.loop, if_neg (by omega), List.drop_eq_nil_of_le (by omega),
        List.append_nil]
  | succ k ih =>
      have inside : i < b.data.toList.length := by omega
      have byte : b.get! i = b.data.toList[i] := getElem!_pos b.data i (by simpa using inside)
      rw [ByteArray.toList.loop, if_pos (by omega), ih (i + 1) _ (by omega), byte,
        List.drop_eq_getElem_cons inside]
      simp

theorem toList_eq (b : ByteArray) : b.toList = b.data.toList := by
  rw [ByteArray.toList, toList_loop, List.reverse_nil, List.nil_append, List.drop_zero]

theorem encode_injective : Function.Injective encode := by
  intro a b h
  have bytes : a.toUTF8.data.toList = b.toUTF8.data.toList := by
    rw [← toList_eq, ← toList_eq]
    exact h
  have arrays : a.toUTF8 = b.toUTF8 := ByteArray.ext (Array.toList_inj.mp bytes)
  exact String.toByteArray_inj.mp arrays

/-! ### Byte offsets -/

theorem size_eq (s : List Char) : size s = (String.ofList s).utf8ByteSize := by
  rw [size, encode, toList_eq]
  exact Array.length_toList

@[simp] theorem size_nil : size [] = 0 := size_eq []

@[simp] theorem size_append (s t : List Char) : size (s ++ t) = size s + size t := by
  rw [size_eq, size_eq, size_eq, String.ofList_append, String.utf8ByteSize_append]

@[simp] theorem size_cons (c : Char) (s : List Char) : size (c :: s) = c.utf8Size + size s := by
  rw [size_eq, size_eq, String.ofList_cons, String.utf8ByteSize_append,
    String.utf8ByteSize_singleton]

theorem append_of_splitAt? {n : ℕ} {s a b : List Char} (h : splitAt? n s = some (a, b)) :
    s = a ++ b ∧ size a = n := by
  induction s generalizing n a with
  | nil =>
      cases n with
      | zero =>
          cases h
          exact ⟨rfl, size_nil⟩
      | succ n => cases h
  | cons c s ih =>
      cases n with
      | zero =>
          cases h
          exact ⟨rfl, size_nil⟩
      | succ n =>
          rw [splitAt?] at h
          split at h
          · next fits =>
            obtain ⟨⟨front, back⟩, rest, e⟩ := Option.map_eq_some_iff.mp h
            cases e
            obtain ⟨rfl, width⟩ := ih rest
            rw [size_cons, width]
            exact ⟨rfl, by omega⟩
          · cases h

theorem splitAt?_append (a b : List Char) : splitAt? (size a) (a ++ b) = some (a, b) := by
  induction a with
  | nil => simp [splitAt?]
  | cons c a ih =>
      obtain ⟨n, width⟩ := Nat.exists_eq_succ_of_ne_zero (Nat.ne_of_gt c.utf8Size_pos)
      have whole : size (c :: a) = n + size a + 1 := by
        rw [size_cons]
        omega
      have rest : n + size a + 1 - c.utf8Size = size a := by omega
      rw [whole, List.cons_append, splitAt?, if_pos (by omega), rest, ih]
      rfl

theorem splitAt?_eq_some_iff {n : ℕ} {s a b : List Char} :
    splitAt? n s = some (a, b) ↔ s = a ++ b ∧ size a = n := by
  constructor
  · exact append_of_splitAt?
  · rintro ⟨rfl, rfl⟩
    exact splitAt?_append a b

end ManualPages.Utf8
