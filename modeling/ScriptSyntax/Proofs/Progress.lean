import ScriptSyntax.Proofs.Accord.Statement
import ScriptSyntax.Proofs.Postorder

/-!
# Progress

A session runs over a list that ends in an end token.  Whatever is asked of it, it
moves forwards inside this list and looks up only nodes that are in the tree.  A
construct that is read has passed a token.

Reading a construct comes to an end.  A grammar that is unfolded once more than there
are tokens to come is never exhausted, so unfolding it further changes nothing, and a
failure always has its cause in the tokens.
-/

namespace ScriptSyntax

open Parse

/-- The list that a session runs over: an end token is put behind a list that does not
end in one. -/
def Token.terminated (tokens : List Token) : List Token :=
  match tokens.getLast? with
  | none => [.endOfInput .null false]
  | some last =>
      if last.isEnd then tokens else tokens ++ [.endOfInput last.span.atEnd false]

/-- The tokens from the one under the cursor to the end token. -/
def Cursor.upcoming (cursor : Cursor) : List Token :=
  cursor.pending ++ [cursor.last]

/-- The place of the cursor in the list that a session runs over. -/
def Session.index (session : Session) (tokens : List Token) : Nat :=
  (Token.terminated tokens).length - session.cursor.upcoming.length

/-- The search for the next thing on a line passes over the token. -/
def Token.isPassedOver (token : Token) : Bool :=
  token.kind == .blockComment && !token.newlineBefore

/-- The search for the next thing on a line runs from one place in a list to another,
where it ends with what it has found. -/
structure Token.Searched (tokens : List Token) (start stop : Nat) (found : Option Token) :
    Prop where
  start_le : start ≤ stop
  passed : ∀ index, start ≤ index → index < stop →
    ∃ token, tokens[index]? = some token ∧ token.isPassedOver = true
  ends : ∃ token, tokens[stop]? = some token ∧ token.isPassedOver = false ∧
    found =
      if token.newlineBefore || token.isEnd || token.kind == .lineComment then none
      else some token

/-- The nodes at an edge. -/
def Edge.nodes : Edge → List NodeId
  | .piece _ => []
  | .node id => [id]

/-- The numbers that are looked up when a drafted node is added: those in its slots and
those at its edges. -/
def Draft.lookups (draft : Draft) : List NodeId :=
  draft.shape.children ++ draft.first.nodes ++ draft.last.nodes

/-- A session leads to another by passing tokens, and by adding nodes for which every
number that is looked up is in the tree. -/
inductive Session.LeadsTo (session : Session) : Session → Prop
  | refl : LeadsTo session session
  | pass {later : Session} : LeadsTo session later → LeadsTo session later.passed
  | add {later : Session} {draft : Draft} : LeadsTo session later →
      (∀ id : Nat, id ∈ draft.lookups → ∃ node, later.tree.find? id = some node) →
      LeadsTo session (later.grown draft)

theorem Session.LeadsTo.trans {first second third : Session} (hfirst : first.LeadsTo second)
    (hsecond : second.LeadsTo third) : first.LeadsTo third := by
  induction hsecond with
  | refl => exact hfirst
  | pass _ ih => exact ih.pass
  | add _ hlookups ih => exact ih.add hlookups

section Terminated

theorem Cursor.upcoming_ofTokens (tokens : List Token) :
    (Cursor.ofTokens tokens).upcoming = Token.terminated tokens := by
  unfold ofTokens Token.terminated
  cases hlast : tokens.getLast? with
  | none => rfl
  | some last =>
      obtain ⟨others, rfl⟩ := List.getLast?_eq_some_iff.mp hlast
      by_cases hend : last.kind = .eof
      · simp [upcoming, Token.isEnd, hend]
      · simp [upcoming, Token.isEnd, hend]

theorem Token.exists_last_terminated (tokens : List Token) :
    ∃ last, (Token.terminated tokens).getLast? = some last ∧ last.isEnd = true := by
  rw [← Cursor.upcoming_ofTokens]
  refine ⟨(Cursor.ofTokens tokens).last, by simp [Cursor.upcoming], ?_⟩
  rw [Token.isEnd, (Cursor.ofTokens tokens).last_kind]
  rfl

theorem Cursor.length_upcoming (cursor : Cursor) :
    cursor.upcoming.length = cursor.pending.length + 1 := by
  simp [upcoming]

/-- The token under the cursor is the first of those to come. -/
theorem Cursor.current_cons_upcoming (cursor : Cursor) :
    ∃ others, cursor.upcoming = cursor.current :: others := by
  rw [upcoming, current]
  cases cursor.pending with
  | nil => exact ⟨[], rfl⟩
  | cons token tokens => exact ⟨tokens ++ [cursor.last], rfl⟩

theorem Token.isEnd_of_kind {token : Token} (hkind : token.kind = .eof) : token.isEnd = true := by
  rw [isEnd, hkind]
  rfl

theorem Token.isComment_of_eof (token : Token) (hkind : token.kind = .eof) :
    token.isComment = false := by
  rw [isComment, hkind]
  rfl

/-- A search that no end token satisfies is a search in all the tokens to come. -/
theorem Cursor.dropWhile_upcoming {test : Token → Bool}
    (htest : ∀ token : Token, token.kind = .eof → test token = false) (cursor : Cursor) :
    cursor.upcoming.dropWhile test = cursor.pending.dropWhile test ++ [cursor.last] := by
  have hlast : [cursor.last].dropWhile test = [cursor.last] :=
    List.dropWhile_cons_of_neg (by simp [htest _ cursor.last_kind])
  rw [upcoming, List.dropWhile_append, hlast]
  split
  · rename_i hnone
    rw [List.isEmpty_iff.mp hnone, List.nil_append]
  · rfl

theorem Cursor.takeWhile_upcoming {test : Token → Bool}
    (htest : ∀ token : Token, token.kind = .eof → test token = false) (cursor : Cursor) :
    cursor.upcoming.takeWhile test = cursor.pending.takeWhile test := by
  have hlast : [cursor.last].takeWhile test = [] :=
    List.takeWhile_cons_of_neg (by simp [htest _ cursor.last_kind])
  rw [upcoming, List.takeWhile_append, hlast]
  split
  · rename_i hall
    rw [List.append_nil]
    exact ((List.takeWhile_prefix test).eq_of_length hall).symm
  · rfl

theorem Cursor.firstOnLine?_upcoming (cursor : Cursor) :
    Cursor.firstOnLine? cursor.upcoming = Cursor.firstOnLine? cursor.pending := by
  rw [upcoming]
  induction cursor.pending with
  | nil =>
      change firstOnLine? [cursor.last] = none
      rw [firstOnLine?, Token.isEnd_of_kind cursor.last_kind, Bool.or_true, Bool.true_or,
        if_pos rfl]
  | cons token tokens ih => rw [List.cons_append, firstOnLine?, firstOnLine?, ih]

/-- Steps lead forwards only. -/
theorem Session.LeadsTo.upcoming_suffix {session later : Session} (hleads : session.LeadsTo later) :
    later.cursor.upcoming <:+ session.cursor.upcoming := by
  induction hleads with
  | refl => exact List.suffix_rfl
  | @pass later _ ih =>
      apply List.IsSuffix.trans _ ih
      change later.cursor.pending.tail ++ [later.cursor.last] <:+ _
      obtain ⟨passed, hpassed⟩ := List.tail_suffix later.cursor.pending
      refine ⟨passed, ?_⟩
      rw [← List.append_assoc, hpassed]
      rfl
  | add _ _ ih => exact ih

variable {tokens : List Token} {session : Session}

/-- A session that its start leads to stands inside the list. -/
theorem Session.LeadsTo.inside (hleads : (Session.start tokens).LeadsTo session) :
    session.index tokens < (Token.terminated tokens).length ∧
      session.cursor.upcoming = (Token.terminated tokens).drop (session.index tokens) := by
  have hsuffix := hleads.upcoming_suffix
  rw [Session.start, Cursor.upcoming_ofTokens] at hsuffix
  have hlength := hsuffix.length_le
  rw [Cursor.length_upcoming] at hlength
  refine ⟨?_, List.suffix_iff_eq_drop.mp hsuffix⟩
  rw [Session.index, Cursor.length_upcoming]
  omega

theorem Session.LeadsTo.index_le {later : Session} (hleads : session.LeadsTo later) :
    session.index tokens ≤ later.index tokens := by
  have hlength := hleads.upcoming_suffix.length_le
  unfold Session.index
  omega

/-- With fewer tokens to come the cursor stands further on. -/
theorem Session.index_lt {later : Session} (hleads : (Session.start tokens).LeadsTo session)
    (hlength : later.cursor.pending.length < session.cursor.pending.length) :
    session.index tokens < later.index tokens := by
  have hsuffix := hleads.upcoming_suffix.length_le
  rw [Session.start, Cursor.upcoming_ofTokens, Cursor.length_upcoming] at hsuffix
  rw [Session.index, Session.index, Cursor.length_upcoming, Cursor.length_upcoming]
  omega

end Terminated

/-- The search for the next thing on a line ends at the first token that it does not pass
over, which the end token is at the latest. -/
theorem Cursor.searched_upcoming (cursor : Cursor) :
    ∃ stop, Token.Searched cursor.upcoming 0 stop (firstOnLine? cursor.pending) := by
  obtain ⟨pending, last, hlast⟩ := cursor
  change ∃ stop, Token.Searched (pending ++ [last]) 0 stop (firstOnLine? pending)
  induction pending with
  | nil =>
      refine ⟨0, Nat.le_refl 0, fun _ _ hindex => absurd hindex (Nat.not_lt_zero _), last, rfl,
        ?_, ?_⟩
      · simp [Token.isPassedOver, hlast]
      · simp [firstOnLine?, Token.isEnd, hlast]
  | cons token pending ih =>
      obtain ⟨stop, _, hpassed, hends⟩ := ih
      rw [firstOnLine?]
      by_cases hover : token.isPassedOver = true
      · obtain ⟨hkind, hnewline⟩ := Bool.and_eq_true_iff.mp hover
        have hkind : token.kind = .blockComment := beq_iff_eq.mp hkind
        have hnewline : token.newlineBefore = false := by simpa using hnewline
        rw [if_neg (by simp [hkind, hnewline, Token.isEnd]), if_pos (by simp [hkind])]
        refine ⟨stop + 1, Nat.zero_le _, ?_, hends⟩
        intro index _ hindex
        cases index with
        | zero => exact ⟨token, rfl, hover⟩
        | succ index => exact hpassed index (Nat.zero_le _) (Nat.lt_of_succ_lt_succ hindex)
      · refine ⟨0, Nat.le_refl 0, fun _ _ hindex => absurd hindex (Nat.not_lt_zero _), token, rfl,
          ?_, ?_⟩
        · simpa using hover
        · split
          · rfl
          · rename_i hstop
            have hblock : ¬(token.kind == .blockComment) = true := by
              intro hblock
              simp_all [Token.isPassedOver]
            rw [if_neg hblock]

/-- A search in what is left of a list is one in the list. -/
theorem Token.Searched.of_drop {tokens : List Token} {count stop : Nat} {found : Option Token}
    (hsearched : Token.Searched (tokens.drop count) 0 stop found) :
    Token.Searched tokens count (count + stop) found := by
  obtain ⟨_, hpassed, hends⟩ := hsearched
  refine ⟨Nat.le_add_right .., ?_, ?_⟩
  · intro index hcount hindex
    have hplace := hpassed (index - count) (Nat.zero_le _) (by omega)
    rwa [List.getElem?_drop, Nat.add_sub_cancel' hcount] at hplace
  · rwa [List.getElem?_drop] at hends

section Steps

variable {session : Session}

/-- The nodes that a drafted node is made of are among the parts that it takes up. -/
theorem Draft.Covers.mem_refs {draft : Draft} {parts : List (Part NodeId)}
    (hcovers : draft.Covers parts) {id : Nat} (hid : id ∈ draft.lookups) :
    id ∈ Part.refs parts := by
  have hedge : ∀ part ∈ parts, id ∈ part.edge.nodes → id ∈ Part.refs parts := by
    intro part hpart hnodes
    cases part with
    | own token => cases hnodes
    | below other =>
        obtain rfl := List.mem_singleton.mp hnodes
        exact List.mem_filterMap.mpr ⟨.below id, hpart, rfl⟩
  rcases List.mem_append.mp hid with hid | hid
  · rcases List.mem_append.mp hid with hid | hid
    · rwa [hcovers.children_eq] at hid
    · obtain ⟨part, hpart, hfirst⟩ := Option.map_eq_some_iff.mp hcovers.first
      rw [← hfirst] at hid
      exact hedge part (List.mem_of_head? hpart) hid
  · obtain ⟨part, hpart, hlast⟩ := Option.map_eq_some_iff.mp hcovers.last
    rw [← hlast] at hid
    exact hedge part (List.mem_of_getLast? hpart) hid

theorem Trace.leadsTo {start : Session} {parts : List (Part NodeId)}
    (htrace : Trace start parts session) : start.LeadsTo session := by
  induction htrace with
  | start => exact .refl
  | shift _ _ ih => exact ih.pass
  | skip _ _ ih => exact ih.pass
  | comment _ _ ih => exact ih.pass.add fun id hid => nomatch hid
  | @reduce parts taken session draft htrace hcovers ih =>
      apply ih.add
      intro id hid
      have hmem : id ∈ Part.refs (parts ++ taken) := by
        rw [Part.refs_append]
        exact List.mem_append_right _ (hcovers.mem_refs hid)
      obtain ⟨hpos, hle⟩ := htrace.mem_ids id hmem
      exact Tree.exists_find? session.tree hpos hle

theorem Parse.Stuck.leadsTo {after : Session} (hstuck : Stuck session after) :
    session.LeadsTo after := by
  obtain ⟨parts, htrace⟩ := hstuck
  exact htrace.leadsTo

/-- A reader leads from a session to the one that it leaves, whether it succeeds or
fails. -/
def Parse.Leads {Result : Type} (reader : Parse Result) (session : Session) : Prop :=
  reader.Meets session (fun _ after => session.LeadsTo after) session.LeadsTo

theorem Parse.Pushes.leads {Result : Type} {reader : Parse Result}
    {parts : Result → List (Part NodeId)} (hreader : reader.Pushes session parts) :
    reader.Leads session := by
  apply Meets.mono hreader
  · intro result after hafter
    exact hafter.leadsTo
  · intro after hafter
    exact hafter.leadsTo

/-- A function may start with any token. -/
theorem Production.function_leads {grammar : Grammar} (hgrammar : grammar.Traced)
    (role : FunctionRole) : (function grammar role).Leads session := by
  have hpassed : session.LeadsTo session.passed := Session.LeadsTo.refl.pass
  have hreader : (function grammar role).Meets session
      (fun _ after => session.LeadsTo after) (Stuck session.passed) := by
    apply function_meets hgrammar Trace.start
    intro name opening parameters closing body after hafter _ _
    apply (hpassed.trans hafter.leadsTo).add
    intro id hid
    have hbody : id = body := by simpa [Draft.lookups, Draft.function, Shape.children,
      Edge.token, Edge.nodes] using hid
    obtain ⟨hpos, hle⟩ := hafter.mem_ids body (by simp [Part.refs_append])
    rw [hbody]
    exact Tree.exists_find? after.tree hpos hle
  apply Meets.mono hreader
  · intro id after hafter
    exact hafter
  · intro after hafter
    exact hpassed.trans hafter.leadsTo

variable {semicolons : Semicolons}

theorem Construct.read_leads (construct : Construct) :
    (construct.read semicolons).Leads session := by
  have hgrammar := Grammar.upTo_traced semicolons (session.cursor.pending.length + 1)
  unfold Leads read Parse.reading
  rw [meets_bind_cursor]
  cases construct with
  | statement labels => exact (Production.statement_pushes hgrammar labels).leads
  | expressionStatement => exact (Production.expressionStatement_pushes hgrammar).leads
  | block => exact (Production.block_pushes hgrammar).leads
  | function role => exact Production.function_leads hgrammar role
  | expression commas => exact (Production.expression_pushes hgrammar commas).leads
  | operand calls => exact (Production.operand_pushes hgrammar calls).leads
  | parenthesized => exact (Production.parenthesized_pushes hgrammar).leads

theorem Parse.expect_leads (test : Token → Bool) (reason : Reason) :
    (expect test reason).Leads session := by
  unfold Leads
  rw [meets_expect]
  split
  · exact Session.LeadsTo.refl.pass
  · exact .refl

theorem Parse.endStatement_leads : (endStatement semicolons).Leads session := by
  have hreader : (endStatement semicolons >>= pure).Meets session
      (fun _ after => session.LeadsTo after) (Stuck session) := by
    apply meets_bind_endStatement Trace.start
    intro semicolon after hafter _
    exact hafter.leadsTo
  rw [bind_pure] at hreader
  apply Meets.mono hreader
  · intro semicolon after hafter
    exact hafter
  · intro after hafter
    exact hafter.leadsTo

/-- Every request leads onwards. -/
theorem Session.leadsTo_answer (session : Session) (semicolons : Semicolons)
    (request : Session.Request) : session.LeadsTo (session.answer semicolons request) := by
  cases request with
  | look => exact .refl
  | advance => exact Session.LeadsTo.refl.pass
  | expectPunctuation mark => exact after_of_meets session.LeadsTo (expect_leads _ _)
  | expectKeyword word => exact after_of_meets session.LeadsTo (expect_leads _ _)
  | expectIdentifier reason => exact after_of_meets session.LeadsTo (expect_leads _ _)
  | endStatement => exact after_of_meets session.LeadsTo endStatement_leads
  | eatComments => exact Trace.start.uncommented.leadsTo
  | read construct => exact after_of_meets session.LeadsTo construct.read_leads

theorem Session.Reachable.leadsTo {tokens : List Token}
    (hreachable : session.Reachable semicolons tokens) :
    (Session.start tokens).LeadsTo session := by
  induction hreachable with
  | start => exact .refl
  | answer request _ ih => exact ih.trans (leadsTo_answer _ semicolons request)

end Steps

/-- A production starts with at most a number of tokens to come, and the grammar is asked
with fewer. -/
def depthPact (limit : Nat) : Pact where
  outer tokens := tokens.length ≤ limit
  inner tokens := tokens.length < limit
  lenient := False
  inner_of_outer htokens := htokens
  outer_of_inner htokens := Nat.le_of_lt htokens
  outer_suffix hsuffix htokens := Nat.le_trans hsuffix.length_le htokens
  inner_suffix hsuffix htokens := Nat.lt_of_le_of_lt hsuffix.length_le htokens

/-- Nothing is asked of grammars where no token may be to come. -/
theorem Grammar.accords_depthPact_zero {first second : Grammar} (htraced : first.Traced) :
    first.Accords (depthPact 0) second := by
  have hsteady : ∀ {Result : Type} {reader other : Parse Result},
      Steady (depthPact 0) reader other :=
    fun _ hsession => absurd hsession (Nat.not_lt_zero _)
  exact ⟨htraced, hsteady, fun _ => hsteady, fun _ => hsteady, hsteady, hsteady,
    fun _ => hsteady, hsteady, fun _ => hsteady, fun _ _ => hsteady, fun _ _ => hsteady,
    fun _ => hsteady, hsteady⟩

/-- With fewer tokens to come than a grammar is unfolded times, unfolding it further
changes nothing. -/
theorem Grammar.upTo_accords (semicolons : Semicolons) {limit depth deeper : Nat}
    (hlimit : limit ≤ depth) (hdepth : depth ≤ deeper) :
    (Grammar.upTo semicolons depth).Accords (depthPact limit)
      (Grammar.upTo semicolons deeper) := by
  induction depth generalizing limit deeper with
  | zero =>
      obtain rfl := Nat.le_zero.mp hlimit
      exact accords_depthPact_zero (upTo_traced semicolons 0)
  | succ depth ih =>
      cases limit with
      | zero => exact accords_depthPact_zero (upTo_traced semicolons (depth + 1))
      | succ limit =>
          cases deeper with
          | zero => cases hdepth
          | succ deeper =>
              have hgrammar := ih (Nat.le_of_succ_le_succ hlimit)
                (Nat.le_of_succ_le_succ hdepth)
              have hsemicolons : (upTo semicolons deeper).semicolons =
                  (upTo semicolons depth).semicolons := by
                rw [upTo_semicolons, upTo_semicolons]
              apply hgrammar.unfold (hgrammar.jumpsAlike hsemicolons)
              · intro tokens
                exact Nat.lt_succ_iff
              · exact Iff.rfl
              · rw [hsemicolons]
                exact steady_endStatement _

theorem Construct.production_enters {pact : Pact} {first second : Grammar}
    (construct : Construct) (hgrammar : first.Accords pact second)
    (hjumps : first.JumpsAlike pact second) :
    Enters pact (construct.production first) (construct.production second) := by
  cases construct with
  | statement labels => exact Production.statement_enters hgrammar hjumps labels
  | expressionStatement => exact Production.expressionStatement_enters hgrammar
  | block => exact Production.block_enters hgrammar
  | function role => exact Production.function_enters hgrammar role
  | expression commas => exact Production.expression_enters hgrammar commas
  | operand calls => exact Production.operand_enters hgrammar calls
  | parenthesized => exact Production.parenthesized_enters hgrammar

/-- Reading a construct does what any deep enough grammar does; it passes a token, or
fails because of the tokens. -/
theorem Construct.read_accords (construct : Construct) (semicolons : Semicolons)
    (session : Session) {depth : Nat} (hdepth : session.cursor.pending.length < depth) :
    Parse.Accords (depthPact session.cursor.pending.length)
      (fun tokens => tokens.length < session.cursor.pending.length)
      (construct.read semicolons) (construct.production (.upTo semicolons depth)) session := by
  have hgrammar := Grammar.upTo_accords semicolons
    (Nat.le_succ session.cursor.pending.length) hdepth
  have hjumps := hgrammar.jumpsAlike <| by
    rw [Grammar.upTo_semicolons, Grammar.upTo_semicolons]
  exact construct.production_enters hgrammar hjumps session (Nat.le_refl _)

theorem program_accords (semicolons : Semicolons) (tokens : List Token) {depth : Nat}
    (hdepth : (Cursor.ofTokens tokens).pending.length < depth) :
    Parse.Accords (depthPact (Cursor.ofTokens tokens).pending.length)
      (fun _ => True) (Parse.reading semicolons Production.program)
      (Production.program (.upTo semicolons depth)) (.start tokens) := by
  have hgrammar := Grammar.upTo_accords semicolons
    (Nat.le_succ (Cursor.ofTokens tokens).pending.length) hdepth
  have hjumps := hgrammar.jumpsAlike <| by
    rw [Grammar.upTo_semicolons, Grammar.upTo_semicolons]
  have hstays := Production.program_stays hgrammar hjumps (.start tokens) (Nat.le_refl _)
  exact hstays.mono fun _ _ => trivial

/-- Two readers in accord without leniency do the same. -/
theorem Parse.Accords.eq {Result : Type} {limit : Nat} {kept : List Token → Prop}
    {first second : Parse Result} {session : Session}
    (haccords : Parse.Accords (depthPact limit) kept first second session) :
    second session = first session := by
  unfold Parse.Accords at haccords
  cases houtcome : first session with
  | ok result after =>
      rw [houtcome] at haccords
      exact haccords.1
  | error diagnostic after =>
      rw [houtcome] at haccords
      exact (haccords.resolve_left id).1

/-- A construct that is read has moved the session on and is in its tree; one that is not
read has the tokens to blame.  A request for the construct leaves the session where reading
it does. -/
theorem Construct.read_progresses (construct : Construct) {semicolons : Semicolons}
    {tokens : List Token} {session : Session} (hreachable : session.Reachable semicolons tokens) :
    match construct.read semicolons session with
    | .ok id after =>
        session.answer semicolons (.read construct) = after ∧
          session.index tokens < after.index tokens ∧ ∃ node, after.tree.find? id = some node
    | .error diagnostic after =>
        session.answer semicolons (.read construct) = after ∧ diagnostic.isDefect = false := by
  have haccords := construct.read_accords semicolons session (Nat.lt_succ_self _)
  have hgrows : (construct.read semicolons).Grows session :=
    construct.read_grows hreachable.ordered
  unfold Parse.Accords at haccords
  cases houtcome : construct.read semicolons session with
  | ok id after =>
      rw [houtcome] at haccords
      obtain ⟨hpos, hle⟩ := (hgrows.of_ok houtcome).new id List.mem_cons_self
      refine ⟨?_, Session.index_lt hreachable.leadsTo haccords.2,
        Tree.exists_find? after.tree (Nat.zero_lt_of_lt hpos) hle⟩
      simp only [Session.answer, Session.after, houtcome]
  | error diagnostic after =>
      rw [houtcome] at haccords
      refine ⟨?_, (haccords.resolve_left id).2⟩
      simp only [Session.answer, Session.after, houtcome]

/-- A program is read as a tree with a root, or the tokens are to blame. -/
theorem parse_settles (semicolons : Semicolons) (tokens : List Token) :
    match parse semicolons tokens with
    | .ok tree => ∃ node, tree.find? tree.rootId = some node
    | .error diagnostic => diagnostic.isDefect = false := by
  have haccords := program_accords semicolons tokens (Nat.lt_succ_self _)
  unfold Parse.Accords at haccords
  cases hparse : parse semicolons tokens with
  | ok tree =>
      obtain ⟨hgrown, hroot⟩ := grown_of_parse hparse
      obtain ⟨hpos, hle⟩ := hgrown.new tree.size List.mem_cons_self
      change ∃ node, tree.find? tree.rootId = some node
      rw [hroot]
      exact Tree.exists_find? tree hpos hle
  | error diagnostic =>
      unfold parse EStateM.run at hparse
      split at hparse
      · cases hparse
      · rename_i failure after hrun
        cases hparse
        rw [hrun] at haccords
        exact (haccords.resolve_left id).2

/-- Sessions stay inside their list, which ends in an end token, and so does every search
on a line.  A request never leads back, and every number it looks up is in the tree.
Reading a construct, and so a program, ends at a depth that the tokens to come bound: it
has passed a token, or there is a diagnostic and the tokens are to blame for it.  A request
for the construct leaves the session there. -/
theorem sessions_make_progress (semicolons : Semicolons) (tokens : List Token) :
    (∃ last, (Token.terminated tokens).getLast? = some last ∧ last.isEnd = true) ∧
    (∀ session : Session, session.Reachable semicolons tokens →
      session.index tokens < (Token.terminated tokens).length ∧
      session.cursor.upcoming = (Token.terminated tokens).drop (session.index tokens) ∧
      (∃ stop, Token.Searched (Token.terminated tokens) (session.index tokens) stop
        (Cursor.firstOnLine? session.cursor.pending)) ∧
      (∀ request : Session.Request,
        session.LeadsTo (session.answer semicolons request) ∧
        session.index tokens ≤ (session.answer semicolons request).index tokens) ∧
      ∀ construct : Construct,
        (match construct.read semicolons session with
          | .ok id after =>
              session.answer semicolons (.read construct) = after ∧
                session.index tokens < after.index tokens ∧
                ∃ node, after.tree.find? id = some node
          | .error diagnostic after =>
              session.answer semicolons (.read construct) = after ∧
                diagnostic.isDefect = false) ∧
        ∀ depth, session.cursor.pending.length < depth →
          construct.production (.upTo semicolons depth) session =
            construct.read semicolons session) ∧
    (match parse semicolons tokens with
      | .ok tree => ∃ node, tree.find? tree.rootId = some node
      | .error diagnostic => diagnostic.isDefect = false) ∧
    ∀ depth, (Cursor.ofTokens tokens).pending.length < depth →
      Production.program (.upTo semicolons depth) (.start tokens) =
        Parse.reading semicolons Production.program (.start tokens) := by
  refine ⟨Token.exists_last_terminated tokens, ?_, parse_settles semicolons tokens, ?_⟩
  · intro session hreachable
    obtain ⟨hindex, hupcoming⟩ := hreachable.leadsTo.inside
    refine ⟨hindex, hupcoming, ?_, ?_, ?_⟩
    · obtain ⟨stop, hsearched⟩ := session.cursor.searched_upcoming
      rw [hupcoming] at hsearched
      exact ⟨_, hsearched.of_drop⟩
    · intro request
      have hanswer := session.leadsTo_answer semicolons request
      exact ⟨hanswer, hanswer.index_le⟩
    · intro construct
      refine ⟨construct.read_progresses hreachable, fun depth hdepth => ?_⟩
      exact (construct.read_accords semicolons session hdepth).eq
  · intro depth hdepth
    exact (program_accords semicolons tokens hdepth).eq

/-- After a failed request for a semicolon a session still reads the statement before it. -/
theorem sessions_make_progress_call :
    let tokens := [Token.plain .identifier "f", Token.plain .punctuation "(",
      Token.plain .identifier "x", Token.plain .punctuation ")"]
    let session := (Session.start tokens).answer .inserted (.expectPunctuation ";")
    session.Reachable .inserted tokens ∧ session.index tokens < (Token.terminated tokens).length ∧
      ∃ after, (Construct.statement false).read .inserted session = .ok 4 after ∧
        session.answer .inserted (.read (.statement false)) = after ∧
        session.index tokens < after.index tokens := by
  intro tokens session
  have hreachable : session.Reachable .inserted tokens := .answer _ .start
  obtain ⟨hindex, -, -, -, hread⟩ :=
    (sessions_make_progress .inserted tokens).2.1 session hreachable
  refine ⟨hreachable, hindex, ?_⟩
  have hprogress := (hread (.statement false)).1
  have hid : ((Construct.statement false).read .inserted).run' session = some 4 := by
    decide +kernel
  unfold EStateM.run' EStateM.run at hid
  cases houtcome : (Construct.statement false).read .inserted session with
  | ok id after =>
      rw [houtcome] at hid hprogress
      cases hid
      obtain ⟨hanswer, hmoved, -⟩ := hprogress
      exact ⟨after, rfl, hanswer, hmoved⟩
  | error diagnostic after =>
      rw [houtcome] at hid
      cases hid

end ScriptSyntax
