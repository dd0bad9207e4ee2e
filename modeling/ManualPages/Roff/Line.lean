import ManualPages.Text.Split

/-! # Line ends

Blocks are put together line by line, so their last line end is completed or taken away where they
meet. -/

namespace ManualPages.Roff

/-- End the text with a newline if it does not already. -/
def endLine (s : List Char) : List Char := if s.getLast? = some '\n' then s else s ++ ['\n']

/-- Take away one line terminator: a newline, a carriage return, or both in that order. -/
def chomp (s : List Char) : List Char :=
  let t := if s.getLast? = some '\n' then s.dropLast else s
  if t.getLast? = some '\r' then t.dropLast else t

/-- Close up the first empty line. -/
def closeFirstGap (s : List Char) : List Char := Text.replaceFirst ['\n', '\n'] ['\n'] s

/-- Take away all newlines and carriage returns at the end. -/
def trimLineEnd (s : List Char) : List Char :=
  (s.reverse.dropWhile fun c => c == '\n' || c == '\r').reverse

theorem getLast?_endLine (s : List Char) : (endLine s).getLast? = some '\n' := by
  rw [endLine]
  split
  · assumption
  · simp

end ManualPages.Roff
