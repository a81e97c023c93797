/-!
# Positions and spans

A position is a byte offset into a named source; a span reaches from one
position to another.  Offsets are words of 32 bits.  Nothing forces a span to
run forwards or to stay in one source: tokens are accepted with any span.
-/

namespace ScriptSyntax

/-- A byte offset into a named source. -/
structure Position where
  offset : UInt32
  file : String
  deriving DecidableEq

/-- The source text between two positions. -/
structure Span where
  start : Position
  stop : Position
  deriving DecidableEq

namespace Position

/-- The position of the byte with the given index; the index is kept modulo
the size of a word. -/
def ofByte (file : String) (byte : Nat) : Position :=
  ⟨byte.toUInt32, file⟩

/-- A position in no source. -/
def null : Position :=
  ⟨0, "<null>"⟩

theorem ofByte_offset_toNat (file : String) {byte : Nat} (hbyte : byte < UInt32.size) :
    (ofByte file byte).offset.toNat = byte :=
  Nat.mod_eq_of_lt hbyte

end Position

namespace Span

/-- A span in no source. -/
def null : Span :=
  ⟨.null, .null⟩

/-- From the start of one span to the end of another. -/
def between (first last : Span) : Span :=
  ⟨first.start, last.stop⟩

/-- The offsets of the inner span lie within those of the outer one.  The
sources of the two are not compared. -/
def contains (outer inner : Span) : Bool :=
  outer.start.offset ≤ inner.start.offset && inner.stop.offset ≤ outer.stop.offset

/-- The empty span at the end of another. -/
def atEnd (span : Span) : Span :=
  ⟨span.stop, span.stop⟩

@[simp]
theorem between_self (span : Span) : between span span = span := rfl

end Span

end ScriptSyntax
