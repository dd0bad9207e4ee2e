/-! # Options of a conversion -/

namespace ManualPages

/-- The tool that a page was made with. -/
structure Generator where
  name : String
  version : String
deriving DecidableEq, Repr

namespace Generator

def text (g : Generator) : String := s!"{g.name} v{g.version}"

end Generator

/-- The generator, a title to be used instead of the source's, and whether times are shown. -/
structure Options where
  generator : Generator
  title? : Option String
  timings : Bool
deriving DecidableEq, Repr

namespace Options

/-- No name, no title, no times. -/
def default : Options := ⟨⟨"", ""⟩, none, false⟩

def withGenerator (o : Options) (g : Generator) : Options := { o with generator := g }

def withTitle (o : Options) (title : String) : Options := { o with title? := some title }

/-- Set or clear the title. -/
def withTitle? (o : Options) (title? : Option String) : Options := { o with title? := title? }

def withTimings (o : Options) (timings : Bool) : Options := { o with timings := timings }

end Options

end ManualPages
