import ScriptSyntax.Proofs.Endings
import ScriptSyntax.Proofs.Thinning.Program
import ScriptSyntax.Proofs.Trace.Shown

/-!
# Programs without their comments

Comments in the line of what they stand before can be left out of a program.  What is left is
the same program, unless one of the comments is all that a statement has as its body: that
comment is a statement, and without it the next statement takes its place.  Such comments are
told from the others by their tokens; in a scanned source no two tokens are the same.
-/

namespace ScriptSyntax

open Parse Text Thinning

/-- A comment that no line break stands before or behind, up to the next token. -/
def Token.isWithinLine (token follower : Token) : Bool :=
  token.kind == .blockComment && !token.newlineBefore && !follower.newlineBefore

/-- The tokens without the comments within lines, save for those to be kept. -/
def Token.thinned (kept : List Token) : List Token → List Token
  | comment :: follower :: tokens =>
      if comment.isWithinLine follower && !kept.contains comment then
        thinned kept (follower :: tokens)
      else comment :: thinned kept (follower :: tokens)
  | tokens => tokens

theorem Token.thins_thinned (kept tokens : List Token) :
    Token.Thins kept tokens (thinned kept tokens) := by
  induction tokens using thinned.induct kept with
  | case1 comment follower tokens hdropped ih =>
      rw [thinned, if_pos hdropped]
      simp only [isWithinLine, Bool.and_eq_true, beq_iff_eq, Bool.not_eq_true',
        List.contains_eq_mem, decide_eq_false_iff_not] at hdropped
      obtain ⟨⟨⟨hkind, hbefore⟩, hfollower⟩, hspare⟩ := hdropped
      exact .drop hkind hbefore hfollower hspare ih
  | case2 comment follower tokens hkept ih =>
      rw [thinned, if_neg hkept]
      exact ih.keep comment
  | case3 tokens hshort =>
      match tokens with
      | [] => exact .nil
      | [token] => exact .keep token .nil
      | comment :: follower :: others => exact (hshort comment follower others rfl).elim

/-- What is read as a comment is a comment among the tokens. -/
theorem Tree.mem_of_mem_bodyComments {tree : Tree} {tokens : List Token}
    (hshows : tree.ShowsOnly tokens) {comment : Token} (hcomment : comment ∈ tree.bodyComments) :
    comment ∈ tokens ∧ comment.isComment = true := by
  obtain ⟨holder, -, hslots⟩ := List.mem_flatMap.mp hcomment
  obtain ⟨id, -, hleaf⟩ := List.mem_filterMap.mp hslots
  unfold comment? at hleaf
  split at hleaf
  · rename_i token hshape
    cases hleaf
    obtain ⟨hpart, htoken⟩ := hshows id _ hshape
    obtain ⟨_, hmem, hsame⟩ := List.mem_map.mp hpart
    cases hsame
    exact ⟨hmem, htoken⟩
  · cases hleaf

/-- A program is a root with its statements. -/
theorem exists_statements {semicolons : Semicolons} {tokens : List Token} {tree : Tree}
    (hparse : parse semicolons tokens = .ok tree) :
    ∃ body after, Production.statements
        (.upTo semicolons ((Cursor.ofTokens tokens).pending.length + 1)) .program
        (.start tokens) = .ok body after ∧ after.tree.StandsIn tree ∧ tree.Ordered ∧
      tree.program =
        .node none (.root ((body.map tree.term).filter fun term => !term.isComment)) := by
  obtain ⟨hgrown, -⟩ := grown_of_parse hparse
  obtain ⟨id, final, rfl, hrun⟩ := run_of_parse hparse
  obtain ⟨body, after, hbody, hadd⟩ := exists_of_bind hrun
  have hfinal : final = after.grown (.root body after.cursor.current) := by
    cases hadd
    rfl
  subst hfinal
  have hordered := hgrown.ordered Tree.empty_ordered
  have hshape := Tree.shape?_insert_self after.tree (.root body)
    ((Draft.root body after.cursor.current).span after.tree)
  refine ⟨body, after, hbody, Tree.standsIn_insert _ _ _, hordered, ?_⟩
  have hroot : (after.grown (.root body after.cursor.current)).tree.rootId = after.tree.size + 1 :=
    rfl
  have hterm := Tree.term_eq hordered hshape
  rw [Tree.program, hroot]
  refine hterm.trans ?_
  simp [Shape.isRoot, Shape.map, Shape.mapIdx, Shape.mapIdx_eq_map, Shape.uncommented]

/-- The programs are the same if one has the tokens of the other, thinned. -/
theorem program_eq_of_thins {semicolons : Semicolons} {tokens others : List Token}
    {tree other : Tree} (hparse : parse semicolons tokens = .ok tree)
    (hother : parse semicolons others = .ok other)
    (hthins : Token.Thins tree.bodyComments tokens others) : tree.program = other.program := by
  obtain ⟨body, after, hbody, hafter, hordered, hprogram⟩ := exists_statements hparse
  obtain ⟨body', after', hbody', hafter', hordered', hprogram'⟩ := exists_statements hother
  let thinning : Thinning := ⟨tree, other, hordered, hordered'⟩
  have hstart : thinning.Beside (.start tokens) (.start others) := by
    rw [Thinning.Beside, Cursor.Thinned, Session.start, Session.start, Cursor.upcoming_ofTokens,
      Cursor.upcoming_ofTokens]
    exact hthins.terminated
  have hgrammar := Grammar.upTo_agrees thinning semicolons
    ((Cursor.ofTokens tokens).pending.length + 1)
  have hagrees := hgrammar _ (Nat.le_refl _) ((Cursor.ofTokens others).pending.length + 1)
  have hahead := hgrammar _ (Nat.le_refl _) ((Cursor.ofTokens others).pending.length + 2)
  have hstatements := Production.statements_agrees hagrees (Grammar.upTo_meshes hgrammar _)
    .program (hahead.statements .program)
  rcases hstatements.run trivial hstart hbody hbody' hafter hafter' with hnever | ⟨hsame, -⟩
  · exact hnever.elim
  · have hterms : (body.map tree.term).filter (fun term => !term.isComment) =
        (body'.map other.term).filter fun term => !term.isComment := hsame
    rw [hprogram, hprogram', hterms]

/-- Comments within lines can be left out, if none of them is the body of a statement. -/
theorem program_thinned {semicolons : Semicolons} {tokens : List Token} {tree other : Tree}
    (hparse : parse semicolons tokens = .ok tree)
    (hother : parse semicolons (Token.thinned tree.bodyComments tokens) = .ok other) :
    tree.program = other.program :=
  program_eq_of_thins hparse hother (Token.thins_thinned _ _)

/-- In a scanned source a comment that stays is one by its place: no other token equals it. -/
theorem bodyComments_stand_once {semicolons : Semicolons} {source file : String}
    {tokens : List Token} {tree : Tree} (hsource : byteLength source.toList < UInt32.size)
    (htokens : tokenize source file = .ok tokens) (hparse : parse semicolons tokens = .ok tree)
    {comment : Token} (hcomment : comment ∈ tree.bodyComments) :
    ∃ before behind, tokens = before ++ comment :: behind ∧ comment ∉ before ++ behind := by
  obtain ⟨hmem, hkind⟩ := Tree.mem_of_mem_bodyComments (showsOnly_of_parse hparse) hcomment
  obtain ⟨before, behind, rfl⟩ := List.append_of_mem hmem
  have hstarts := start_ne_of_tokenize hsource htokens (Token.isEnd_of_isComment hkind)
  exact ⟨before, behind, rfl, fun hother => hstarts comment hother rfl⟩

/-- Comments among statements, before an operand and before a semicolon are left out.  The one
that is a branch stays. -/
theorem program_thinned_conditional :
    let tokens := [Token.plain .blockComment "/* 1 */", .plain .identifier "a",
      .plain .operator "=", .plain .blockComment "/* 2 */", .plain .identifier "b",
      .plain .blockComment "/* 3 */", .plain .punctuation ";", .plain .keyword "if",
      .plain .punctuation "(", .plain .identifier "c", .plain .punctuation ")",
      .plain .blockComment "/* 4 */", .plain .identifier "d", .plain .punctuation ";"]
    ∃ tree other, parse .inserted tokens = .ok tree ∧
      parse .inserted (Token.thinned tree.bodyComments tokens) = .ok other ∧
      (tree.size, other.size) = (12, 11) ∧ tree.program = other.program := by
  intro tokens
  have hread : (parse .inserted tokens).toOption.map (fun tree => (tree.bodyComments, tree.size)) =
      some ([.plain .blockComment "/* 4 */"], 12) := by
    decide +kernel
  have hreadOther : (parse .inserted
      (Token.thinned [.plain .blockComment "/* 4 */"] tokens)).toOption.map Tree.size =
        some 11 := by
    decide +kernel
  obtain ⟨tree, hparse, htree⟩ := exists_parse_eq hread
  obtain ⟨other, hother, hsize⟩ := exists_parse_eq hreadOther
  obtain ⟨hcomments, htreeSize⟩ := Prod.mk.inj htree
  rw [← hcomments] at hother
  exact ⟨tree, other, hparse, hother, by rw [htreeSize, hsize], program_thinned hparse hother⟩

def Term.statements : Term → List Term
  | .node _ (.root statements) => statements
  | _ => []

/-- Without the comment that is its branch a conditional takes the next statement.  Without
the comment that it begins with a program begins elsewhere. -/
theorem thinned_programs_differ :
    let branch := [Token.plain .keyword "if", .plain .punctuation "(", .plain .identifier "a",
      .plain .punctuation ")", .plain .blockComment "/* c */", .plain .identifier "b",
      .plain .punctuation ";"]
    let opening := [Token.mk .blockComment "/* c */" ⟨.ofByte "a.js" 0, .ofByte "a.js" 7⟩ false,
      .mk .identifier "a" ⟨.ofByte "a.js" 8, .ofByte "a.js" 9⟩ false,
      .mk .punctuation ";" ⟨.ofByte "a.js" 9, .ofByte "a.js" 10⟩ false]
    (∃ tree other, parse .required branch = .ok tree ∧
      parse .required (Token.thinned [] branch) = .ok other ∧ tree.program ≠ other.program) ∧
    ∃ tree other, parse .required opening = .ok tree ∧
      parse .required (Token.thinned [] opening) = .ok other ∧
      tree.span tree.rootId ≠ other.span other.rootId := by
  intro branch opening
  constructor
  · have hread : (parse .required branch).toOption.map
        (fun tree => tree.program.statements.length) = some 2 := by
      decide +kernel
    have hreadOther : (parse .required (Token.thinned [] branch)).toOption.map
        (fun tree => tree.program.statements.length) = some 1 := by
      decide +kernel
    obtain ⟨tree, hparse, hlength⟩ := exists_parse_eq hread
    obtain ⟨other, hother, hlengthOther⟩ := exists_parse_eq hreadOther
    refine ⟨tree, other, hparse, hother, ?_⟩
    intro heq
    rw [heq, hlengthOther] at hlength
    cases hlength
  · have hread : (parse .required opening).toOption.map
        (fun tree => (tree.span tree.rootId).start.offset) = some 0 := by
      decide +kernel
    have hreadOther : (parse .required (Token.thinned [] opening)).toOption.map
        (fun tree => (tree.span tree.rootId).start.offset) = some 8 := by
      decide +kernel
    obtain ⟨tree, hparse, hoffset⟩ := exists_parse_eq hread
    obtain ⟨other, hother, hoffsetOther⟩ := exists_parse_eq hreadOther
    refine ⟨tree, other, hparse, hother, ?_⟩
    intro heq
    rw [heq, hoffsetOther] at hoffset
    cases hoffset

end ScriptSyntax
