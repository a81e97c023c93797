import ScriptSyntax.Proofs.RoundTrip.Neighbours
import ScriptSyntax.Proofs.Trace.Statement

/-!
# What is retold of each construct

For every construct that a grammar reads, what its canonical words begin with and
what may follow them.  A grammar is retold if this holds of all its readers; the
productions over such a grammar are read one by one in the modules that follow.
-/

namespace ScriptSyntax

open Parse

/-- Words that continue a statement. -/
def Token.continuations : List String :=
  ["else", "catch", "finally"]

/-- The token begins a statement, as far as other statements can tell. -/
structure Token.Begins (token : Token) : Prop where
  not_isEnd : token.isEnd = false
  not_closing : token.isPunctuation "\x7d" = false
  not_continuation : ∀ word ∈ continuations, token.isKeyword word = false

theorem Token.Begins.not_closedBy {token : Token} (htoken : token.Begins)
    (enclosure : Enclosure) :
    enclosure.closedBy token = false := by
  cases enclosure with
  | program => exact htoken.not_isEnd
  | block => exact htoken.not_closing
  | switch => exact htoken.not_closing

/-- The end of an enclosure continues no statement. -/
theorem Enclosure.not_isKeyword {enclosure : Enclosure} {token : Token}
    (htoken : enclosure.closedBy token = true) (word : String) :
    token.isKeyword word = false := by
  cases enclosure with
  | program =>
      have hkind : token.kind = .eof := beq_iff_eq.mp htoken
      simp [Token.isKeyword, Token.is, hkind]
  | block =>
      simp [Token.isKeyword, Token.is, ((token.is_iff _ _).mp htoken).1]
  | switch =>
      simp [Token.isKeyword, Token.is, ((token.is_iff _ _).mp htoken).1]

namespace Account

/-- An expression. -/
def expression : Account NodeId where
  parts id := [.below id]
  again id := id
  follow after tail := after.cursor.current.Follows tail.current
  edge start _ words after := start.Leads words after

/-- The continuation of an expression. -/
def continuation : Account NodeId where
  parts id := [.below id]
  again id := id
  follow after tail := after.cursor.current.Follows tail.current
  edge start _ words after := start.Prolongs words after

/-- A construct with a first and a last token of its own. -/
def bracketed : Account NodeId where
  parts id := [.below id]
  again id := id
  follow _ _ := True
  edge start _ words _ := ∃ others, words = start.cursor.current.bare :: others ∧ others ≠ []

/-- An item of a list. -/
def item : Account NodeId where
  parts id := [.below id]
  again id := id
  follow after tail := after.cursor.current.Follows tail.current
  edge _ _ words _ := ∃ first others, words = first :: others ∧ first.Proper

/-- Things with commas between them, up to a closing mark. -/
def list {Item : Type} (part : Item → Part NodeId) (again : List Item → List Item)
    (closing : String) : Account (List Item) where
  parts items := Part.separated (items.map part)
  again
  follow _ tail := tail.current = .plain .punctuation closing
  edge start items words after :=
    after.cursor.current.isPunctuation closing = true ∧ (items = [] → words = []) ∧
      (start.cursor.current.isPunctuation closing = true → items = [])

/-- A declaration.  It does not look like the header of a loop over names. -/
def declaration : Account NodeId where
  parts id := [.below id]
  again id := id
  follow after tail := after.cursor.current.Follows tail.current
  edge _ _ words _ := ∃ first others, words = first :: others ∧ first.kind = .identifier ∧
    ∀ second ∈ others.head?, second.isOperator "in" = false

/-- Declarations with commas between them. -/
def declarations : Account (List NodeId) where
  parts ids := Part.separated (ids.map .below)
  again ids := ids
  follow after tail := after.cursor.current.Follows tail.current
  edge _ ids words _ := ids ≠ [] ∧ ∃ first others, words = first :: others ∧
    first.kind = .identifier ∧ ∀ second ∈ others.head?, second.isOperator "in" = false

/-- A statement, behind which no branch of it comes up. -/
def statement : Account NodeId where
  parts id := [.below id]
  again id := id
  follow after tail := ∀ word ∈ Token.continuations,
    after.cursor.current.isKeyword word = false → tail.current.isKeyword word = false
  edge _ _ words _ := ∃ first others, words = first :: others ∧ first.Begins

/-- The name and the body of a handler. -/
def handler : Account (Token × NodeId) where
  parts clause := [Part.mark "(", .own clause.1, Part.mark ")", .below clause.2]
  again clause := (clause.1.bare, clause.2)
  follow after := statement.follow after
  edge _ _ _ _ := True

/-- A statement that begins with a token of its own. -/
def headed : Account NodeId where
  parts id := [.below id]
  again id := id
  follow := statement.follow
  edge start _ words _ := ∃ others, words = start.cursor.current.bare :: others

/-- A statement whose first words open what its first tokens opened. -/
def opened (labels : Bool) (opening : Production.Opening) : Account NodeId where
  parts id := [.below id]
  again id := id
  follow := statement.follow
  edge _ _ words _ := words ≠ [] ∧ ∀ tail : Cursor,
    Production.Opening.of labels (tail.before words).current (tail.before words).next = opening

/-- Statements up to the end of their enclosure. -/
def statements (enclosure : Enclosure) : Account (List NodeId) where
  parts ids := ids.map .below
  again ids := ids
  follow _ tail := enclosure.closedBy tail.current = true
  edge _ _ words after := enclosure.closedBy after.cursor.current = true ∧
    ∀ first ∈ words.head?, first.Begins

end Account

/-- What follows a statement in both runs. -/
theorem Account.follow_bare (after : Session) (tail : Cursor) (others : List Token) :
    statement.follow after (tail.before (after.cursor.current.bare :: others)) :=
  fun _ _ hword => hword

/-- The readers of a grammar are retold by the productions. -/
structure Grammar.Retold (semicolons : Semicolons) (grammar : Grammar) : Prop where
  statement (labels : Bool) (start : Session) :
    Task.Retells ⟨semicolons, start, (Production.statement · labels), []⟩
      (grammar.statement labels) .statement
  statements (enclosure : Enclosure) (start : Session) :
    Task.Retells ⟨semicolons, start, (Production.statements · enclosure), []⟩
      (grammar.statements enclosure) (.statements enclosure)
  parameters (start : Session) :
    Task.Retells ⟨semicolons, start, Production.parameters, []⟩
      grammar.parameters (.list .own (List.map Token.bare) ")")
  declarations (start : Session) :
    Task.Retells ⟨semicolons, start, Production.declarations, []⟩
      grammar.declarations .declarations
  expression (commas : Bool) (start : Session) :
    Task.Retells ⟨semicolons, start, (Production.expression · commas), []⟩
      (grammar.expression commas) .expression
  assignment (start : Session) :
    Task.Retells ⟨semicolons, start, Production.assignment, []⟩
      grammar.assignment .expression
  operand (calls : Bool) (start : Session) :
    Task.Retells ⟨semicolons, start, (Production.operand · calls), []⟩
      (grammar.operand calls) .expression
  operations (left : NodeId) (floor : Token.Binding) (start : Session) :
    Task.Retells ⟨semicolons, start, (Production.operations · left floor), [.below left]⟩
      (grammar.operations left floor) .continuation
  suffixes (target : NodeId) (calls : Bool) (start : Session) :
    Task.Retells ⟨semicolons, start, (Production.suffixes · target calls), [.below target]⟩
      (grammar.suffixes target calls) .continuation
  items (closing : String) (hclosing : closing ∈ Token.closingMarks) (start : Session) :
    Task.Retells ⟨semicolons, start, (Production.items · closing), []⟩
      (grammar.items closing) (.list .below id closing)
  properties (start : Session) :
    Task.Retells ⟨semicolons, start, Production.properties, []⟩
      grammar.properties (.list .below id "\x7d")

theorem Grammar.exhausted_retold (semicolons other : Semicolons) :
    (Grammar.exhausted other).Retold semicolons where
  statement _ _ _ := trivial
  statements _ _ _ := trivial
  parameters _ _ := trivial
  declarations _ _ := trivial
  expression _ _ _ := trivial
  assignment _ _ := trivial
  operand _ _ _ := trivial
  operations _ _ _ _ := trivial
  suffixes _ _ _ _ := trivial
  items _ _ _ _ := trivial
  properties _ _ := trivial

/-- A reader in the last place goes on with a node that has been made. -/
theorem Task.Reaches.goOn {task : Task NodeId} {reader : Parse NodeId}
    {field production : Grammar → Parse NodeId} {target : NodeId} {words : List Token}
    {follow : Cursor → Prop} {read : Session} {success : NodeId → Session → Prop}
    (hread : task.Reaches [.below target] words follow read field)
    (hreader : Task.Retells ⟨task.semicolons, read, production, [.below target]⟩ reader
      .continuation)
    (hfield : ∀ depth, field (.upTo task.semicolons (depth + 1)) =
      production (.upTo task.semicolons depth))
    (hwords : words ≠ [])
    (hfollow : ∀ tail : Cursor, read.cursor.current.Follows tail.current → follow tail)
    (hquiet : task.start.Quiet)
    (hsuccess : ∀ id after more,
      task.Reaches [.below id] (words ++ more)
        (fun tail => after.cursor.current.Follows tail.current) after (fun _ => pure id) →
      read.Prolongs more after → success id after) :
    reader.Meets read success Unasked := by
  apply (hreader (hread.quiet hquiet)).mono _ fun _ _ => trivial
  rintro id after ⟨more, hmore, hprolongs⟩
  have hafter := hread.last.resume hmore (List.nil_append _).symm hfield hwords fun tail htail =>
    hfollow _ (hprolongs.follows htail)
  exact hsuccess id after more hafter hprolongs

end ScriptSyntax
