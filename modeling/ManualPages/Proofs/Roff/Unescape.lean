import ManualPages.Roff.Escape
import Mathlib.Logic.Function.Basic

/-! # Reading escaped text back

`unescape` reads a text from left to right, drops every mark that prints nothing, and takes an
escaped backslash or hyphen for the character itself.  It reads what `escape` writes
(`unescape_escape`), so texts that are escaped alike are the same (`escape_injective`). -/

namespace ManualPages.Roff

def unescape : List Char → List Char
  | [] => []
  | '\\' :: '&' :: s => unescape s
  | '\\' :: '\\' :: s => '\\' :: unescape s
  | '\\' :: '-' :: s => '-' :: unescape s
  | c :: s => c :: unescape s

theorem unescape_cons {c : Char} (h : c ≠ '\\') (s : List Char) :
    unescape (c :: s) = c :: unescape s := by
  simp [unescape, h]

theorem unescape_zeroWidth_append (s : List Char) : unescape (zeroWidth ++ s) = unescape s := rfl

theorem unescape_guardAll (b : Bool) (s : List Char) : unescape (guardAll b s) = s := by
  induction s generalizing b with
  | nil => rfl
  | cons c s ih =>
      have rest : unescape (guardAll (c == '\n') s) = s := ih _
      rw [guardAll, guard]
      split
      · next h =>
        rcases h with rfl | rfl
        · exact congrArg ('\\' :: ·) rest
        · exact congrArg ('-' :: ·) rest
      · next h =>
        have ordinary : c ≠ '\\' := fun e => h (.inl e)
        split
        · rw [unescape_zeroWidth_append, unescape_cons ordinary, rest]
        · rw [List.nil_append, unescape_cons ordinary, rest]

theorem unescape_escape (s : List Char) : unescape (escape s) = s := by
  rw [escape_eq_guardAll, unescape_guardAll]

theorem escape_injective : Function.Injective escape :=
  Function.LeftInverse.injective unescape_escape

end ManualPages.Roff
