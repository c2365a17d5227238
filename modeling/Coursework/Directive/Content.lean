import Coursework.Directive.Basic
import Coursework.Roots

namespace Coursework

structure Conversion where
  roots : Roots
  marks : Directive.Marks := {}
  extensions : List Text := []
  deriving Repr

namespace Conversion

def covers (c : Conversion) (extension : Text) : Bool :=
  (c.extensions.map Text.lower).contains (Text.lower extension)

def assemble (c : Conversion) (ls : List Text) : Text :=
  c.roots.redirect (Text.trim (Text.join ['\n'] ls) ++ ['\n'])

/-- The practice version of a text. There is none when the indentation unit is empty and the
text has lines to indent. -/
def practiceText (c : Conversion) (s : Text) : Option Text :=
  (c.marks.practiceLines (Text.lines s)).map c.assemble

def result (c : Conversion) (extension s : Text) : Option Text :=
  if c.covers extension then c.practiceText s else none

end Conversion

end Coursework
