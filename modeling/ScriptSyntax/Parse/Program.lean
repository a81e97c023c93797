import ScriptSyntax.Parse.Statement

/-!
# Reading programs

The productions tied together.  Unfolding them once more than there are tokens
left is enough to read any construct, because every reference to the grammar
comes after a token has been passed.
-/

namespace ScriptSyntax

namespace Grammar

/-- The grammar whose constructs are read by the productions over another. -/
def unfold (grammar : Grammar) : Grammar where
  semicolons := grammar.semicolons
  statement := Production.statement grammar
  statements := Production.statements grammar
  parameters := Production.parameters grammar
  declarations := Production.declarations grammar
  expression := Production.expression grammar
  assignment := Production.assignment grammar
  operand := Production.operand grammar
  operations := Production.operations grammar
  suffixes := Production.suffixes grammar
  items := Production.items grammar
  properties := Production.properties grammar

/-- The productions unfolded a number of times. -/
def upTo (semicolons : Semicolons) : Nat → Grammar
  | 0 => exhausted semicolons
  | depth + 1 => (upTo semicolons depth).unfold

end Grammar

/-- Reads a construct by its production, over as deep a grammar as the tokens
can need. -/
def Parse.reading {Result : Type} (semicolons : Semicolons)
    (production : Grammar → Parse Result) : Parse Result := do
  production (.upTo semicolons ((← Parse.cursor).pending.length + 1))

/-- The tree of a list of tokens. -/
def parse (semicolons : Semicolons) (tokens : List Token) : Except Diagnostic Tree :=
  match (Parse.reading semicolons Production.program).run (.start tokens) with
  | .ok _ session => .ok session.tree
  | .error diagnostic _ => .error diagnostic

end ScriptSyntax
