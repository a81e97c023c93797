import ScriptSyntax.Proofs.Arena

/-!
# The text of a tree

A shape is laid out as a row of parts: tokens of its own, kept in the shape or
fixed by it, and the nodes below it in source order.  Reading the parts of a
node from left to right, and those of the nodes below it in their places, gives
the words of the node.  The words of a program, without spans and line breaks,
are its canonical form: every statement that can end in a semicolon does, and
commas stand between the items of a list and never after the last.
-/

namespace ScriptSyntax

namespace Token

/-- A token with nothing but its kind and value. -/
def plain (kind : Kind) (value : String) : Token :=
  { kind, value, span := .null }

/-- The token without its place in the source. -/
def bare (token : Token) : Token :=
  plain token.kind token.value

/-- A name as it is written: the names of fixed values are keywords. -/
def asWritten (token : Token) : Token :=
  if token.kind = .identifier ∧ token.value ∈ valueKeywords then
    { token with kind := .keyword }
  else
    token

/-- Semicolons and commas can be left out of a text or added to it in places,
without a change to the rest. -/
def isSeparator (token : Token) : Bool :=
  token.isPunctuation ";" || token.isPunctuation ","

@[simp]
theorem bare_kind (token : Token) : token.bare.kind = token.kind := rfl

@[simp]
theorem bare_value (token : Token) : token.bare.value = token.value := rfl

@[simp]
theorem bare_bare (token : Token) : token.bare.bare = token.bare := rfl

@[simp]
theorem bare_plain (kind : Kind) (value : String) :
    (plain kind value).bare = plain kind value :=
  rfl

@[simp]
theorem asWritten_value (token : Token) : token.asWritten.value = token.value := by
  unfold asWritten
  split <;> rfl

end Token

/-- A piece of the text of a node: a token of its own, or a node below it. -/
inductive Part (Ref : Type)
  | own (token : Token)
  | below (ref : Ref)
  deriving DecidableEq

variable {Ref : Type}

namespace Part

def mark (value : String) : Part Ref :=
  .own (.plain .punctuation value)

def word (value : String) : Part Ref :=
  .own (.plain .keyword value)

def operator (value : String) : Part Ref :=
  .own (.plain .operator value)

/-- Parts with commas between them. -/
def separated (parts : List (Part Ref)) : List (Part Ref) :=
  parts.intersperse (mark ",")

/-- The words of a part, given those of the nodes. -/
def words (wordsOf : Ref → List Token) : Part Ref → List Token
  | .own token => [token]
  | .below ref => wordsOf ref

/-- The node of a part. -/
def ref? : Part Ref → Option Ref
  | .own _ => none
  | .below ref => some ref

/-- The nodes among some parts. -/
def refs (parts : List (Part Ref)) : List Ref :=
  parts.filterMap ref?

/-- What counts of a part: the value of a token that is no separator, or the
node. -/
def gist? : Part Ref → Option (String ⊕ Ref)
  | .own token => if token.isSeparator then none else some (.inl token.value)
  | .below ref => some (.inr ref)

/-- What counts of some parts. -/
def gists (parts : List (Part Ref)) : List (String ⊕ Ref) :=
  parts.filterMap gist?

@[simp]
theorem refs_nil : refs ([] : List (Part Ref)) = [] := rfl

@[simp]
theorem refs_cons_own (token : Token) (parts : List (Part Ref)) :
    refs (.own token :: parts) = refs parts := rfl

@[simp]
theorem refs_cons_below (ref : Ref) (parts : List (Part Ref)) :
    refs (.below ref :: parts) = ref :: refs parts := rfl

@[simp]
theorem refs_append (left right : List (Part Ref)) :
    refs (left ++ right) = refs left ++ refs right :=
  List.filterMap_append

@[simp]
theorem refs_map_own (tokens : List Token) :
    refs (tokens.map own : List (Part Ref)) = [] := by
  induction tokens with
  | nil => rfl
  | cons token tokens ih => exact ih

@[simp]
theorem refs_map_below (ids : List Ref) : refs (ids.map below) = ids := by
  induction ids with
  | nil => rfl
  | cons id ids ih => exact congrArg (id :: ·) ih

@[simp]
theorem refs_separated (parts : List (Part Ref)) : refs (separated parts) = refs parts := by
  induction parts with
  | nil => rfl
  | cons part parts ih =>
      cases parts with
      | nil => rfl
      | cons next others =>
          have hsplit : refs (separated (part :: next :: others)) =
              refs [part] ++ refs (separated (next :: others)) := by
            rw [← refs_append]
            rfl
          rw [hsplit, ih, ← refs_append, List.singleton_append]

@[simp]
theorem gists_nil : gists ([] : List (Part Ref)) = [] := rfl

theorem gists_cons_own (token : Token) (parts : List (Part Ref)) :
    gists (.own token :: parts) =
      if token.isSeparator then gists parts else .inl token.value :: gists parts := by
  cases hseparator : token.isSeparator <;> simp [gists, gist?, hseparator]

@[simp]
theorem gists_cons_below (ref : Ref) (parts : List (Part Ref)) :
    gists (.below ref :: parts) = .inr ref :: gists parts := rfl

@[simp]
theorem gists_append (left right : List (Part Ref)) :
    gists (left ++ right) = gists left ++ gists right :=
  List.filterMap_append

@[simp]
theorem gists_separated (parts : List (Part Ref)) :
    gists (separated parts) = gists parts := by
  induction parts with
  | nil => rfl
  | cons part parts ih =>
      cases parts with
      | nil => rfl
      | cons next others =>
          have hsplit : gists (separated (part :: next :: others)) =
              gists [part] ++ gists (separated (next :: others)) := by
            rw [← gists_append]
            rfl
          rw [hsplit, ih, ← gists_append, List.singleton_append]

/-- Parts that agree in what counts have the same nodes. -/
theorem refs_eq_of_gists_eq {left right : List (Part Ref)}
    (hgists : gists left = gists right) : refs left = refs right := by
  have hrefs : ∀ parts : List (Part Ref),
      refs parts = (gists parts).filterMap Sum.getRight? := by
    intro parts
    induction parts with
    | nil => rfl
    | cons part parts ih =>
        cases part with
        | own token =>
            rw [refs_cons_own, gists_cons_own, ih]
            split <;> rfl
        | below ref => rw [refs_cons_below, gists_cons_below, ih]; rfl
  rw [hrefs, hrefs, hgists]

end Part

open ScriptSyntax.Part in
/-- The parts of the start of a loop. -/
def LoopInit.layout : LoopInit Ref → List (Part Ref)
  | .declarations entries => separated (entries.map .below)
  | .expression value => [.below value]

open ScriptSyntax.Part in
/-- The parts of a shape in source order.  Comments are not part of the text. -/
def Shape.layout : Shape Ref → List (Part Ref)
  | .root statements => statements.map .below
  | .block statements => mark "\x7b" :: statements.map .below ++ [mark "\x7d"]
  | .leaf .comment _ => []
  | .leaf .name token => [.own token.asWritten]
  | .leaf .number token => [.own token]
  | .leaf .string token => [.own token]
  | .leaf .regex token => [.own token]
  | .labelled label statement => [.own label, mark ":", .below statement]
  | .debugger => [word "debugger", mark ";"]
  | .doWhile body condition =>
      [word "do", .below body, word "while", .below condition, mark ";"]
  | .returns value => word "return" :: value.toList.map .below ++ [mark ";"]
  | .throws value => [word "throw", .below value, mark ";"]
  | .varStatement declarations =>
      word "var" :: separated (declarations.map .below) ++ [mark ";"]
  | .whileLoop condition body => [word "while", .below condition, .below body]
  | .withScope scope body => [word "with", .below scope, .below body]
  | .expression value => value.toList.map .below ++ [mark ";"]
  | .jump .breaks label => word "break" :: label.toList.map .own ++ [mark ";"]
  | .jump .continues label => word "continue" :: label.toList.map .own ++ [mark ";"]
  | .forIn varToken name source body =>
      [word "for", mark "("] ++ varToken.toList.map .own ++
        [.own name, operator "in", .below source, mark ")", .below body]
  | .forLoop varToken init test step body =>
      [word "for", mark "("] ++ varToken.toList.map .own ++
        (init.map LoopInit.layout).getD [] ++ [mark ";"] ++ test.toList.map .below ++
        [mark ";"] ++ step.toList.map .below ++ [mark ")", .below body]
  | .function _ name parameters body =>
      word "function" :: name.toList.map .own ++ [mark "("] ++
        separated (parameters.map .own) ++ [mark ")", .below body]
  | .ifElse condition thenBranch elseBranch =>
      [word "if", .below condition, .below thenBranch] ++
        (elseBranch.map fun branch => [word "else", .below branch]).getD []
  | .switch discriminant cases =>
      [word "switch", .below discriminant, mark "\x7b"] ++ cases.map .below ++ [mark "\x7d"]
  | .caseLabel test => [word "case", .below test, mark ":"]
  | .defaultLabel => [word "default", mark ":"]
  | .tryCatch body handler finalizer =>
      [word "try", .below body] ++
        (handler.map fun clause =>
          [word "catch", mark "(", .own clause.1, mark ")", .below clause.2]).getD [] ++
        (finalizer.map fun block => [word "finally", .below block]).getD []
  | .parenthesized inner => [mark "(", .below inner, mark ")"]
  | .conditional test consequent alternate =>
      [.below test, operator "?", .below consequent, mark ":", .below alternate]
  | .newObject callee arguments =>
      operator "new" :: .below callee :: arguments.toList.map .below
  | .unary .before operator operand => [.own operator, .below operand]
  | .unary .after operator operand => [.below operand, .own operator]
  | .binary left operator right => [.below left, .own operator, .below right]
  | .exprList expressions =>
      mark "(" :: separated (expressions.map .below) ++ [mark ")"]
  | .application callee arguments =>
      .below callee :: mark "(" :: separated (arguments.map .below) ++ [mark ")"]
  | .subscript target index => [.below target, mark "[", .below index, mark "]"]
  | .array elements => mark "[" :: separated (elements.map .below) ++ [mark "]"]
  | .object _ properties =>
      mark "\x7b" :: separated (properties.map .below) ++ [mark "\x7d"]
  | .declaration name initializer =>
      .own name ::
        (initializer.map fun value => [operator "=", .below value]).getD []
  | .property name value => [.own name, mark ":", .below value]

theorem LoopInit.layout_refs (init : LoopInit Ref) :
    Part.refs init.layout = init.children := by
  cases init <;> simp [layout, children]

/-- The nodes among the parts of a shape are its slots. -/
theorem Shape.layout_refs (shape : Shape Ref) :
    Part.refs shape.layout = shape.children := by
  cases shape with
  | leaf kind token => cases kind <;> rfl
  | jump kind label => cases kind <;> cases label <;> rfl
  | forLoop varToken init test step body =>
      cases init <;>
        simp [layout, children, initChildren, Part.mark, Part.word, LoopInit.layout_refs]
  | ifElse condition thenBranch elseBranch => cases elseBranch <;> rfl
  | tryCatch body handler finalizer => cases handler <;> cases finalizer <;> rfl
  | unary side operator operand => cases side <;> rfl
  | declaration name initializer => cases initializer <;> rfl
  | _ => simp [layout, children, Part.mark, Part.word, Part.operator]

theorem Part.flatMap_words_congr {parts : List (Part Ref)} {first second : Ref → List Token}
    (heq : ∀ ref ∈ refs parts, first ref = second ref) :
    parts.flatMap (words first) = parts.flatMap (words second) := by
  induction parts with
  | nil => rfl
  | cons part parts ih =>
      cases part with
      | own token =>
          rw [List.flatMap_cons, List.flatMap_cons, ih heq]
          rfl
      | below ref =>
          rw [refs_cons_below] at heq
          have hfirst : first ref = second ref := heq ref List.mem_cons_self
          rw [List.flatMap_cons, List.flatMap_cons, words, words, hfirst,
            ih fun other hother => heq other (List.mem_cons_of_mem ref hother)]

namespace Tree

/-- The words of a node; an unknown node has none. -/
def words (tree : Tree) (id : NodeId) : List Token :=
  tree.fold [] (fun _ shape wordsOf => shape.layout.flatMap (Part.words wordsOf)) id

theorem words_eq {tree : Tree} (hordered : tree.Ordered) {id : Nat} {shape : Shape NodeId}
    (hshape : tree.shape? id = some shape) :
    tree.words id = shape.layout.flatMap (Part.words tree.words) := by
  apply fold_eq hordered _ hshape
  intro id shape first second heq
  apply Part.flatMap_words_congr
  rw [Shape.layout_refs]
  exact heq

/-- The canonical form of a program. -/
def print (tree : Tree) : List Token :=
  (tree.words tree.rootId).map Token.bare

end Tree

/-- The shape without the places of its tokens. -/
def Shape.bare : Shape Ref → Shape Ref
  | .leaf kind token => .leaf kind token.bare
  | .labelled label statement => .labelled label.bare statement
  | .jump kind label => .jump kind (label.map Token.bare)
  | .forIn varToken name source body =>
      .forIn (varToken.map Token.bare) name.bare source body
  | .forLoop varToken init test step body =>
      .forLoop (varToken.map Token.bare) init test step body
  | .function role name parameters body =>
      .function role (name.map Token.bare) (parameters.map Token.bare) body
  | .tryCatch body handler finalizer =>
      .tryCatch body (handler.map fun clause => (clause.1.bare, clause.2)) finalizer
  | .unary side operator operand => .unary side operator.bare operand
  | .binary left operator right => .binary left operator.bare right
  | .object comment properties => .object (comment.map Token.bare) properties
  | .declaration name initializer => .declaration name.bare initializer
  | .property name value => .property name.bare value
  | shape => shape

/-- The node without its place in the source. -/
def Node.bare (node : Node) : Node :=
  { span := .null, parent := node.parent, shape := node.shape.bare }

/-- The tree without the places of its nodes and tokens in the source.  Numbers,
links, kinds and the kinds and values of tokens stay. -/
def Tree.bare (tree : Tree) : Tree :=
  { nodes := tree.nodes.map Node.bare, root := tree.root }

end ScriptSyntax
