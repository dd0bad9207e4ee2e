import ManualPages.Roff.Escape
import ManualPages.Text.Split

/-! # Fonts

Text is set in another font between an escape that selects the font and `\fP`, which goes back to
the one before. -/

namespace ManualPages.Roff

/-- The escape that selects a font. -/
def font (letter : Char) : List Char := ['\\', 'f', letter]

/-- Roff source in the italic font. -/
def italic (source : List Char) : List Char := font 'I' ++ source ++ font 'P'

/-- Roff source in the bold font.  The mark in front keeps the line from being a control line if it
begins here, and the first point is escaped for the same reason. -/
def bold (source : List Char) : List Char :=
  zeroWidth ++ font 'B' ++ Text.replaceFirst ['.'] ['\\', '.'] source ++ font 'P'

end ManualPages.Roff
