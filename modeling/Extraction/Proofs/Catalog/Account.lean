import Extraction.Proofs.Catalog.Registration
import Mathlib.Algebra.GroupWithZero.Nat

/-!
# What is told of a configuration

The events of a build come in blocks, one for each extractor in the order of
the configuration. A block announces its extractor. Then it tells either why
the extractor is left out, or of each of its methods in order why the method is
left out, if it is. So every method that is listed is registered, or is told
of, or is listed by an extractor that is told of, and only one of these.
-/

namespace Extraction.Catalog

namespace Event

end Event

variable {α : Type} {host : Host} {config : Config}

end Extraction.Catalog
