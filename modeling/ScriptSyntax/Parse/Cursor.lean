import ScriptSyntax.Token.Basic

/-!
# Cursors

A cursor stands on a token of a list that ends in an end token.  It moves
forwards only and never past the last token, which is kept apart from the
tokens that can be passed.
-/

namespace ScriptSyntax

/-- The tokens that can still be passed, and the end token behind them. -/
structure Cursor where
  pending : List Token
  last : Token
  last_kind : last.kind = .eof
  deriving DecidableEq

namespace Cursor

/-- The cursor on the first token of a list.  A list that does not end in an end
token is given one, at the end of its last token. -/
def ofTokens (tokens : List Token) : Cursor :=
  match tokens.getLast? with
  | none => ⟨[], .endOfInput .null false, rfl⟩
  | some last =>
      if hlast : last.kind = .eof then
        ⟨tokens.dropLast, last, hlast⟩
      else
        ⟨tokens, .endOfInput last.span.atEnd false, rfl⟩

/-- The token under the cursor. -/
def current (cursor : Cursor) : Token :=
  cursor.pending.headD cursor.last

/-- The token after the one under the cursor. -/
def next (cursor : Cursor) : Token :=
  cursor.pending.tail.headD cursor.last

/-- The cursor one token further on. -/
def advance (cursor : Cursor) : Cursor :=
  { cursor with pending := cursor.pending.tail }

/-- With nothing left to pass the cursor stands on an end token. -/
theorem current_kind_of_pending_nil {cursor : Cursor} (hpending : cursor.pending = []) :
    cursor.current.kind = .eof := by
  rw [current, hpending]
  exact cursor.last_kind

/-- The last of the comments that start at the cursor. -/
def comment? (cursor : Cursor) : Option Token :=
  (cursor.pending.takeWhile Token.isComment).getLast?

/-- The cursor behind the comments that start at it. -/
def skipComments (cursor : Cursor) : Cursor :=
  { cursor with pending := cursor.pending.dropWhile Token.isComment }

/-- The cursor behind the block comments that start at it. -/
def skipBlockComments (cursor : Cursor) : Cursor :=
  { cursor with
    pending := cursor.pending.dropWhile fun token => token.kind == .blockComment }

/-- The first token of a list that is no block comment, unless a line break, a
line comment or an end token comes first. -/
def firstOnLine? : List Token → Option Token
  | [] => none
  | token :: tokens =>
      if token.newlineBefore || token.isEnd || token.kind == .lineComment then
        none
      else if token.kind == .blockComment then
        firstOnLine? tokens
      else
        some token

/-- A semicolon is the next thing on the line. -/
def atSemicolon (cursor : Cursor) : Bool :=
  (firstOnLine? cursor.pending).any fun token => token.isPunctuation ";"

/-- Nothing, or a closing brace, is the next thing on the line. -/
def atLineEnd (cursor : Cursor) : Bool :=
  (firstOnLine? cursor.pending).all fun token => token.isPunctuation "\x7d"

end Cursor

end ScriptSyntax
