/-!
# Source positions

A position names a byte of the source text by its offset from the start and by its line. Both numbers
are kept within 32 bits: what lies beyond is shown at the largest representable value.
-/

namespace GoFront

/-- A place in a source text, with the name of the file when there is one. -/
structure Position where
  offset : Nat
  line : Nat
  filename : Option String
  deriving DecidableEq, Repr

namespace Position

/-- The largest offset and the largest line that a position can hold. -/
def largest : Nat := 4294967295

/-- The position of a byte, with offset and line cut down to the largest representable value. -/
def clamped
    (offset line : Nat)
    (filename : Option String) : Position :=
  ⟨min offset largest, min line largest, filename⟩

/-- Line and offset, without the name of the file. -/
def place (position : Position) : String :=
  s!"{position.line}:{position.offset}"

/-- Line and offset, after the name of the file when there is one. -/
def text (position : Position) : String :=
  match position.filename with
  | some name => s!"{name}:{position.place}"
  | none => position.place

end Position
end GoFront
