import Extraction.Text.Octets

/-! # Scalars

The text of a scalar, how it is written, and its tag.
-/

namespace Extraction.Yaml

/-- How a scalar is written. -/
inductive Style
  | plain
  | single
  | double
  | literal
  | folded
deriving DecidableEq, Repr

/-- A scalar; the octets of a tag need not form a text. -/
structure Scalar where
  text : List Char
  style : Style
  tag : Option Octets := none
deriving DecidableEq, Repr

end Extraction.Yaml
