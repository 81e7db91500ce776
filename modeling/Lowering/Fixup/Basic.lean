import Lowering.Fixup.Kind

/-!
# Lowering — fixups

A fixup asks for a value to be patched into a word of encoded code. It remembers the place in the
source that it comes from, for what may have to be said about it.
-/

namespace Lowering

/-- A place in a source text. -/
structure SourceLoc where
  line : Nat
  column : Nat
deriving DecidableEq

namespace SourceLoc

/-- The place of what comes from nowhere in particular. -/
def unknown : SourceLoc :=
  ⟨0, 0⟩

/-- The written form, line and column with a colon between them, as it stands before a message. -/
def text (l : SourceLoc) : String :=
  l.line.repr ++ ":" ++ l.column.repr

end SourceLoc

/-- A value that is to be patched into the code. The kind says where in the word the bits go and how
they are made from the value; the offset says where the word is. -/
structure Fixup where
  kind : FixupKind
  /-- Where the word starts in the code, in bytes. -/
  offset : Nat
  value : Int64
  loc : SourceLoc := .unknown
deriving DecidableEq

end Lowering
