import ScriptSyntax.Proofs.Semicolons

/-!
# Tokens that a tree shows

The tokens of leaves and operations come from the source: along a trace the tokens of all
parts left over have been passed, and what a new node shows is among the parts that it takes
up.  So a tree shows tokens of its program only, and in each node one of the right kind.
-/

namespace ScriptSyntax

/-- What is shown is among other parts, too, if these have the same tokens and more. -/
theorem Shape.ShownIn.mono {parts others : List (Part NodeId)} {shape : Shape NodeId}
    (hshown : shape.ShownIn parts)
    (hothers : ∀ token, .own token ∈ parts → .own token ∈ others) : shape.ShownIn others := by
  cases shape with
  | leaf kind token =>
      cases kind with
      | name =>
          obtain ⟨word, hword, hname⟩ := hshown
          exact ⟨word, hothers word hword, hname⟩
      | _ => exact ⟨hothers token hshown.1, hshown.2⟩
  | unary side operator operand => exact ⟨hothers operator hshown.1, hshown.2⟩
  | binary left operator right => exact ⟨hothers operator hshown.1, hshown.2⟩
  | _ => trivial

/-- The leaves and operations of a tree show tokens of a list. -/
def Tree.ShowsOnly (tree : Tree) (tokens : List Token) : Prop :=
  ∀ id shape, tree.shape? id = some shape → shape.ShownIn (tokens.map .own)

theorem Tree.showsOnly_empty (tokens : List Token) : Tree.empty.ShowsOnly tokens := by
  intro id shape hshape
  cases id <;> cases hshape

theorem Tree.ShowsOnly.insert {tree : Tree} {tokens : List Token} (hshows : tree.ShowsOnly tokens)
    {shape : Shape NodeId} (hshape : shape.ShownIn (tokens.map .own)) (span : Span) :
    (tree.insert shape span).2.ShowsOnly tokens := by
  intro id found hfound
  rcases shape?_insert_cases hfound with hold | ⟨-, rfl⟩
  · exact hshows id found hold
  · exact hshape

/-- The session has passed and shows tokens of a list only, and has only such before it. -/
structure Session.Among (tokens : List Token) (parts : List (Part NodeId)) (session : Session) :
    Prop where
  pending : session.cursor.pending ⊆ tokens
  passed : ∀ token, .own token ∈ parts → token ∈ tokens
  shows : session.tree.ShowsOnly tokens

namespace Session.Among

variable {tokens : List Token} {parts : List (Part NodeId)} {session : Session}

theorem advance (hsession : session.Among tokens parts) : session.passed.Among tokens parts :=
  ⟨fun _ htoken => hsession.pending (List.mem_of_mem_tail htoken), hsession.passed, hsession.shows⟩

/-- A token that can be passed is one of those before the session. -/
theorem current_mem (hsession : session.Among tokens parts)
    (hcurrent : session.cursor.current.isEnd = false) : session.cursor.current ∈ tokens := by
  apply hsession.pending
  rw [Cursor.pending_eq_cons hcurrent]
  exact List.mem_cons_self

/-- A node is added that shows tokens of the list. -/
theorem grown {draft : Draft} (hsession : session.Among tokens parts)
    (hshown : draft.shape.ShownIn (tokens.map .own)) :
    (session.grown draft).Among tokens (parts ++ [.below (session.tree.size + 1)]) where
  pending := hsession.pending
  passed token htoken := by
    apply hsession.passed
    simpa using htoken
  shows := hsession.shows.insert hshown _

/-- A node takes up parts and shows some of their tokens. -/
theorem reduced {taken : List (Part NodeId)} {draft : Draft}
    (hsession : session.Among tokens (parts ++ taken)) (hshown : draft.shape.ShownIn taken) :
    (session.grown draft).Among tokens (parts ++ [.below (session.tree.size + 1)]) := by
  have hfront : session.Among tokens parts :=
    ⟨hsession.pending, fun token htoken => hsession.passed token (List.mem_append_left taken htoken),
      hsession.shows⟩
  apply hfront.grown (hshown.mono ?_)
  intro token htoken
  exact List.mem_map_of_mem (hsession.passed token (List.mem_append_right parts htoken))

end Session.Among

/-- Along a trace no other tokens come up than those before its start. -/
theorem Trace.among {tokens : List Token} {start session : Session} {parts : List (Part NodeId)}
    (htrace : Trace start parts session) (hstart : start.Among tokens []) :
    session.Among tokens parts := by
  induction htrace with
  | start => exact hstart
  | shift _ hword ih =>
      have hcurrent := ih.current_mem (Token.isEnd_of_isWord hword)
      refine ⟨ih.advance.pending, ?_, ih.shows⟩
      intro token htoken
      rcases List.mem_append.mp htoken with hearlier | hlast
      · exact ih.passed token hearlier
      · obtain rfl := Part.own.inj (List.mem_singleton.mp hlast)
        exact hcurrent
  | skip _ _ ih => exact ih.advance
  | comment _ hcomment ih =>
      have hcurrent := ih.current_mem (Token.isEnd_of_isComment hcomment)
      exact ih.advance.grown ⟨List.mem_map_of_mem hcurrent, hcomment⟩
  | reduce _ hcovers ih => exact ih.reduced hcovers.shown

/-- The tree of a program shows tokens of the program. -/
theorem showsOnly_of_parse {semicolons : Semicolons} {tokens : List Token} {tree : Tree}
    (hparse : parse semicolons tokens = .ok tree) : tree.ShowsOnly tokens := by
  obtain ⟨body, after, htrace, -, rfl⟩ := trace_of_parse hparse
  have hstart : (Session.start tokens).Among tokens [] := by
    obtain ⟨behind, hbehind⟩ := Cursor.pending_ofTokens_prefix tokens
    refine ⟨fun token htoken => ?_, nofun, Tree.showsOnly_empty tokens⟩
    rw [← hbehind]
    exact List.mem_append_left behind htoken
  have hroot : (Shape.root body).ShownIn (tokens.map .own) := trivial
  exact (htrace.among hstart).shows.insert hroot _

end ScriptSyntax
