import ScriptSyntax.Proofs.RoundTrip.Function

/-!
# Retelling expressions

The productions of expressions, run on the canonical words of what they read.  An
operand is retold up to its first suffix, an operation up to the next, and what
reads on from there is known to take the words that follow.
-/

namespace ScriptSyntax

open Parse

namespace Token

variable {token : Token}

/-- A name can be read as a name of a member however it is written. -/
theorem isMemberName_asWritten (token : Token) :
    token.asName.asWritten.bare.isMemberName = true := by
  unfold asWritten
  split <;> rfl

theorem kind_ne_of_isPrefix {token : Token} (htoken : token.isPrefix = true) :
    token.kind ≠ .identifier := by
  intro hkind
  simp [isPrefix, hkind] at htoken

theorem kind_ne_of_isValueKeyword {token : Token} (htoken : token.isValueKeyword = true) :
    token.kind ≠ .identifier := by
  intro hkind
  simp [isValueKeyword, hkind] at htoken

/-- The name of a fixed value is written as it was read. -/
theorem asWritten_asName {token : Token} (htoken : token.isValueKeyword = true) :
    token.asName.asWritten.bare = token.bare := by
  simp only [isValueKeyword, Bool.and_eq_true, beq_iff_eq, List.contains_iff_mem] at htoken
  simp [asWritten, asName, bare, htoken]

end Token

/-- A name that was written down is made again. -/
theorem Draft.name_retraces {token : Token} (htoken : token.kind = .identifier) :
    (Draft.leaf .name token.asWritten.bare.asName).Retraces (.leaf .name token) where
  shape := by
    rw [leaf, Token.asName_bare, Token.asName_asWritten htoken]
    rfl
  first := rfl
  last := rfl

namespace Production

variable {semicolons : Semicolons} {grammar : Grammar} {start : Session} {closing : String}

theorem parenthesized_retells (hgrammar : grammar.Retold semicolons) :
    Task.Retells ⟨semicolons, start, parenthesized, []⟩ (parenthesized grammar) .bracketed := by
  intro hquiet
  apply meets_bind_expect_of_true
  intro hfirst
  have hopened := (Task.start_reaches ⟨semicolons, start, parenthesized, []⟩).expect
    start.cursor.current hfirst fun _ => trivial
  apply hopened.called (hgrammar.expression true _) (fun _ => rfl)
    (List.cons_ne_nil _ _) hquiet
  intro inner read more hread _
  apply meets_bind_eatComments_of_quiet (hread.quiet hquiet)
  apply meets_bind_expect_of_true
  intro hlast
  have hclosed := hread.eatComments.expect read.cursor.current hlast fun tail =>
    ⟨Token.follows_bare (Token.onLine_of_isPunctuation hlast), (hread.quiet hquiet).current⟩
  have hadded := hclosed.last.addAll
    (.parenthesized start.cursor.current inner read.cursor.current) ⟨rfl, rfl, rfl⟩ (by
      simp [Draft.parenthesized, Shape.layout, Part.mark, Account.expression,
        Token.bare_of_isPunctuation hfirst, Token.bare_of_isPunctuation hlast])
  exact ⟨_, hadded, _, rfl, by simp⟩

theorem array_retells (hgrammar : grammar.Retold semicolons)
    (hfirst : start.cursor.current.isPunctuation "[" = true) :
    Task.Retells ⟨semicolons, start, array, []⟩ (array grammar) .bracketed := by
  apply enclosed_retells (hgrammar.items "]" (by decide)) (fun _ => rfl)
  · intro first items last
    exact ⟨rfl, rfl, rfl⟩
  · intro items last hlast
    simp [Draft.array, Shape.layout, Part.mark, Token.bare_of_isPunctuation hfirst,
      Token.bare_of_isPunctuation hlast]

theorem arguments_retells (hgrammar : grammar.Retold semicolons)
    (hfirst : start.cursor.current.isPunctuation "(" = true) :
    Task.Retells ⟨semicolons, start, arguments, []⟩ (arguments grammar) .bracketed := by
  apply enclosed_retells (hgrammar.items ")" (by decide)) (fun _ => rfl)
  · intro first items last
    exact ⟨rfl, rfl, rfl⟩
  · intro items last hlast
    simp [Draft.exprList, Shape.layout, Part.mark, Token.bare_of_isPunctuation hfirst,
      Token.bare_of_isPunctuation hlast]

theorem object_retells (hgrammar : grammar.Retold semicolons)
    (hfirst : start.cursor.current.isPunctuation "\x7b" = true) :
    Task.Retells ⟨semicolons, start, (object · none), []⟩ (object grammar none) .bracketed := by
  apply enclosed_retells hgrammar.properties (fun _ => rfl)
  · intro first items last
    exact ⟨rfl, rfl, rfl⟩
  · intro items last hlast
    simp [Draft.object, Shape.layout, Part.mark, Token.bare_of_isPunctuation hfirst,
      Token.bare_of_isPunctuation hlast]

theorem property_retells (hgrammar : grammar.Retold semicolons) :
    Task.Retells ⟨semicolons, start, property, []⟩ (property grammar) .item := by
  intro hquiet
  apply meets_bind_expect_of_true
  intro hname
  have hnamed := (Task.start_reaches ⟨semicolons, start, property, []⟩).expect
    start.cursor.current.asName rfl fun _ => trivial
  apply meets_bind_expect_of_true
  intro hcolon
  have hmarked := hnamed.expect start.passed.cursor.current hcolon fun _ => trivial
  apply hmarked.called (hgrammar.expression false _) (fun _ => rfl)
    (List.cons_ne_nil _ _) hquiet
  intro value read more hread _
  have hadded := hread.last.addAll (.property start.cursor.current.asName value)
    ⟨rfl, rfl, trivial⟩ (by
      simp [Draft.property, Shape.layout, Part.mark, Account.expression,
        Token.bare_of_isPunctuation hcolon])
  exact ⟨_, hadded, _, _, rfl, rfl, rfl, rfl, fun _ _ => rfl⟩

theorem properties_retells (hgrammar : grammar.Retold semicolons) :
    Task.Retells ⟨semicolons, start, properties, []⟩ (properties grammar)
      (.list .below id "\x7d") :=
  listed_retells (by decide) (fun _ => property_retells hgrammar) hgrammar.properties
    fun _ => rfl

theorem suffixes_retells (hgrammar : grammar.Retold semicolons) (target : NodeId)
    (calls : Bool) :
    Task.Retells ⟨semicolons, start, (suffixes · target calls), [.below target]⟩
      (suffixes grammar target calls) .continuation := by
  intro hquiet
  have hstart := Task.start_reaches
    ⟨semicolons, start, (suffixes · target calls), [.below target]⟩
  unfold suffixes
  rw [meets_bind_current]
  split
  · rename_i hdot
    rw [meets_bind_advance]
    apply meets_bind_expect_of_true
    intro hname
    have hdotted := (hstart.ifTrue.look start.cursor.current.bare).advance start.cursor.current
      fun _ => ⟨⟨trivial, hdot⟩, rfl⟩
    have hnamed := hdotted.expect start.passed.cursor.current.asName.asWritten
      (Token.isMemberName_asWritten _) fun _ => trivial
    rw [meets_bind_add, meets_bind_add]
    have hmember := hnamed.add (.leaf .name start.passed.cursor.current.asName)
      (Draft.name_retraces rfl) rfl
    have hjoined := hmember.addAll (.binary target start.cursor.current _)
      ⟨rfl, trivial, trivial⟩
      rfl
    apply hjoined.goOn (hgrammar.suffixes _ calls _) (fun _ => rfl) (List.cons_ne_nil _ _)
      (fun _ _ => trivial) hquiet
    intro id after more hafter _
    exact ⟨_, hafter, Session.prolongs_cons (Token.onLine_of_isPunctuation hdot) _⟩
  rename_i hdot
  rw [Bool.not_eq_true] at hdot
  split
  · rename_i hopening
    rw [meets_bind_advance]
    have hopened := (hstart.ifFalse.ifTrue.look start.cursor.current.bare).advance
      start.cursor.current fun _ => ⟨⟨⟨trivial, hdot⟩, hopening⟩, rfl⟩
    apply hopened.called (hgrammar.expression true _) (fun _ => rfl)
      (List.cons_ne_nil _ _) hquiet
    intro index read more hread _
    apply meets_bind_expect_of_true
    intro hlast
    have hclosed := hread.expect read.cursor.current hlast fun _ =>
      Token.follows_bare (Token.onLine_of_isPunctuation hlast)
    rw [meets_bind_add]
    have hadded := hclosed.addAll (.subscript target index read.cursor.current)
      ⟨rfl, trivial, rfl⟩ (by
        simp [Draft.subscript, Shape.layout, Part.mark, Account.expression,
          Token.bare_of_isPunctuation hopening, Token.bare_of_isPunctuation hlast])
    apply hadded.goOn (hgrammar.suffixes _ calls _) (fun _ => rfl) (List.cons_ne_nil _ _)
      (fun _ _ => trivial) hquiet
    intro id after more hafter _
    exact ⟨_, hafter, Session.prolongs_cons (Token.onLine_of_isPunctuation hopening) _⟩
  rename_i hsubscript
  rw [Bool.not_eq_true] at hsubscript
  split
  · rename_i hcall
    obtain ⟨-, hopening⟩ := Bool.and_eq_true_iff.mp hcall
    rw [meets_bind_advance]
    have hopened := (hstart.ifFalse.ifFalse.ifTrue.look start.cursor.current.bare).advance
      start.cursor.current fun _ => ⟨⟨⟨⟨trivial, hdot⟩, hsubscript⟩, hcall⟩, rfl⟩
    apply hopened.called (hgrammar.items ")" (by decide) _) (fun _ => rfl)
      (List.cons_ne_nil _ _) hquiet
    rintro items read more hread ⟨hlast, -⟩
    rw [meets_bind_advance, meets_bind_add]
    have hclosed := hread.advance read.cursor.current fun _ => Token.bare_of_isPunctuation hlast
    have hadded := hclosed.addAll (.application target items read.cursor.current)
      ⟨rfl, trivial, rfl⟩ (by
        simp [Draft.application, Shape.layout, Part.mark, Account.list,
          Token.bare_of_isPunctuation hopening, Token.bare_of_isPunctuation hlast])
    apply hadded.goOn (hgrammar.suffixes _ calls _) (fun _ => rfl) (List.cons_ne_nil _ _)
      (fun _ _ => trivial) hquiet
    intro id after more hafter _
    exact ⟨_, hafter, Session.prolongs_cons (Token.onLine_of_isPunctuation hopening) _⟩
  rename_i hcall
  rw [Bool.not_eq_true] at hcall
  split
  · rename_i hsuffix
    have honLine : start.cursor.current.OnLine := by
      intro _
      simp only [Bool.and_eq_true, Bool.not_eq_true'] at hsuffix
      exact hsuffix.2
    have htaken : (calls && start.cursor.current.isPostfix && !false) = true := by
      simp only [Bool.and_eq_true] at hsuffix ⊢
      exact ⟨hsuffix.1, rfl⟩
    rw [meets_bind_advance, meets_add]
    have hlooked := hstart.ifFalse.ifFalse.ifFalse.ifTrue.look start.cursor.current.bare
    have hpassed := hlooked.advance
      start.cursor.current fun _ => ⟨⟨⟨⟨⟨trivial, hdot⟩, hsubscript⟩, hcall⟩, htaken⟩, rfl⟩
    have hadded := hpassed.last.addAll (.unaryAfter target start.cursor.current)
      ⟨rfl, trivial, rfl⟩ rfl
    exact ⟨_, hadded.strengthen fun _ _ => trivial, Session.prolongs_cons honLine _⟩
  · rename_i hsuffix
    refine ⟨[], hstart.ifFalse.ifFalse.ifFalse.ifFalse.overlook.strengthen ?_,
      Session.prolongs_nil rfl⟩
    rintro tail (htail : start.cursor.current.Follows tail.current)
    refine ⟨⟨⟨⟨trivial, ?_⟩, ?_⟩, ?_⟩, ?_⟩
    · exact htail.isPunctuation_eq_false hdot (by decide)
    · exact htail.isPunctuation_eq_false hsubscript (by decide)
    · cases calls with
      | false => rfl
      | true => exact htail.isPunctuation_eq_false hcall (by decide)
    · cases calls with
      | false => rfl
      | true =>
          have hnone := htail.isPostfix_eq_false (by simpa using hsuffix)
          simp [hnone]

theorem newObject_retells (hgrammar : grammar.Retold semicolons)
    (hfirst : start.cursor.current.isOperator "new" = true)
    (hopens : OperandStart.of start.cursor.current ≠ .refused) :
    Task.Retells ⟨semicolons, start, newObject, []⟩ (newObject grammar) .expression := by
  intro hquiet
  have hkind : start.cursor.current.kind ≠ .identifier := by
    rw [((start.cursor.current.is_iff _ _).mp hfirst).1]
    decide
  have hpassed := (Task.start_reaches ⟨semicolons, start, newObject, []⟩).advance
    start.cursor.current fun _ => trivial
  unfold newObject
  rw [meets_bind_advance]
  apply (hgrammar.operand false start.passed hquiet.passed).bind
  rintro callee read ⟨more, hcallee, hleads⟩
  have hmore : more ≠ [] := hleads.ne_nil
  have hread := hpassed.call hcallee (fun _ => rfl) (List.cons_ne_nil _ _) fun _ _ => trivial
  rw [meets_bind_current]
  dsimp only
  split
  · rename_i hopening
    apply (arguments_retells hgrammar hopening (hread.quiet hquiet)).bind
    rintro arguments listed ⟨last, harguments, others, hlast, -⟩
    have hlisted := hread.ifTrue.overlook.inline harguments fun tail _ => by
      rw [hlast]
      exact ⟨Token.follows_bare (Token.onLine_of_isPunctuation hopening), hopening⟩
    rw [pure_bind, meets_bind_add]
    have hadded := hlisted.known.addAll (.newObject start.cursor.current callee (some arguments))
      ⟨rfl, rfl, trivial⟩ (by
        simp [Draft.newObject, Shape.layout, Part.operator, Account.expression,
          Account.bracketed, Token.bare_of_isOperator hfirst])
    apply hadded.goOn (hgrammar.suffixes _ true _) (fun _ => rfl) (List.cons_ne_nil _ _)
      (fun _ _ => trivial) hquiet
    intro id after more hafter _
    exact ⟨_, hafter, Session.leads_cons hopens hkind (by simp [hlast])⟩
  · rename_i hopening
    rw [pure_bind, meets_bind_add]
    have hadded := hread.ifFalse.overlook.known.addAll
      (.newObject start.cursor.current callee none) ⟨rfl, rfl, trivial⟩ (by
        simp [Draft.newObject, Shape.layout, Part.operator, Account.expression,
          Token.bare_of_isOperator hfirst])
    apply hadded.goOn (hgrammar.suffixes _ true _) (fun _ => rfl) (List.cons_ne_nil _ _)
      (fun _ htail => ⟨htail,
        htail.isPunctuation_eq_false ((Bool.not_eq_true _).mp hopening) (by decide)⟩)
      hquiet
    intro id after more' hafter _
    exact ⟨_, hafter, Session.leads_cons hopens hkind (by simp [hmore])⟩

/-- The name of a fixed value is read as the value. -/
theorem OperandStart.of_asWritten {token : Token} (htoken : token.kind = .identifier)
    (hvalue : token.value ∈ Token.valueKeywords) : of token.asWritten.bare = .valueKeyword := by
  have hwritten : token.asWritten.kind = .keyword := by
    rw [Token.asWritten, if_pos ⟨htoken, hvalue⟩]
  have hfunction : token.value ≠ "function" := by
    intro heq
    rw [heq] at hvalue
    revert hvalue
    decide
  simp [of, hwritten, hfunction, Token.isValueKeyword, hvalue]

/-- An operand that begins with a bracketed construct. -/
theorem atom_retells (hgrammar : grammar.Retold semicolons) {calls : Bool}
    {production atom : Grammar → Parse NodeId} {follow : Cursor → Prop}
    (hatom : Task.Retells ⟨semicolons, start, atom, []⟩ (atom grammar) .bracketed)
    (hlooked : Task.Reaches ⟨semicolons, start, production, []⟩ [] [] follow start fun grammar =>
      atom grammar >>= fun id => grammar.suffixes id calls)
    (hfollow : ∀ (tail : Cursor) (others : List Token),
      follow (tail.before (start.cursor.current.bare :: others)))
    (hopens : OperandStart.of start.cursor.current ≠ .refused)
    (hkind : start.cursor.current.kind ≠ .identifier) :
    Task.Retells ⟨semicolons, start, production, []⟩
      (atom grammar >>= fun id => grammar.suffixes id calls) .expression := by
  intro hquiet
  apply (hatom hquiet).bind
  rintro id read ⟨words, hwords, others, rfl, hothers⟩
  have hread := hlooked.inline hwords fun tail _ => hfollow tail others
  apply hread.goOn (hgrammar.suffixes id calls read) (fun _ => rfl) (List.cons_ne_nil _ _)
    (fun _ _ => trivial) hquiet
  intro id after more hafter _
  refine ⟨_, hafter, Session.leads_cons hopens hkind ?_⟩
  exact List.append_ne_nil_of_left_ne_nil hothers more

/-- An operand that begins with a leaf. -/
theorem leaf_retells (hgrammar : grammar.Retold semicolons) {calls : Bool}
    {production : Grammar → Parse NodeId} {written : Token} {draft original : Draft}
    (hpassed : Task.Reaches ⟨semicolons, start, production, []⟩ [.own written] [written.bare]
      (fun _ => True) start.passed fun grammar =>
        add draft >>= fun id => grammar.suffixes id calls)
    (hretraces : draft.Retraces original)
    (hlayout : [.own written.bare] = original.shape.layout.map Part.bare)
    (hwritten : written.bare = start.cursor.current.asWritten.bare)
    (hopens : OperandStart.of start.cursor.current ≠ .refused) (hquiet : start.Quiet) :
    (add original >>= fun id => grammar.suffixes id calls).Meets start.passed
      (Task.Ends ⟨semicolons, start, production, []⟩ .expression) Unasked := by
  have hadded := hpassed.addAll original hretraces hlayout
  rw [meets_bind_add]
  apply hadded.goOn (hgrammar.suffixes _ calls _) (fun _ => rfl) (List.cons_ne_nil _ _)
    (fun _ _ => trivial) hquiet
  intro id after more hafter hmore
  rw [hwritten] at hafter
  exact ⟨_, hafter, (Session.leads_token hopens rfl).prolong hmore⟩

theorem operand_retells (hgrammar : grammar.Retold semicolons) (calls : Bool) :
    Task.Retells ⟨semicolons, start, (operand · calls), []⟩ (operand grammar calls)
      .expression := by
  intro hquiet
  have hstart := (Task.start_reaches ⟨semicolons, start, (operand · calls), []⟩).eatComments
  have hlooked := hstart.look start.cursor.current.bare
  have hfollow : ∀ (tail : Cursor) (others : List Token),
      (True ∧ (tail.before (start.cursor.current.bare :: others)).current.isComment = false) ∧
        (tail.before (start.cursor.current.bare :: others)).current =
          start.cursor.current.bare :=
    fun _ _ => ⟨⟨trivial, hquiet.current⟩, rfl⟩
  have hof :
      OperandStart.of start.cursor.current.bare = OperandStart.of start.cursor.current := rfl
  have hopens := OperandStart.of_opens start.cursor.current
  rw [hof] at hlooked
  apply meets_bind_eatComments_of_quiet hquiet
  rw [meets_bind_current]
  generalize hopening : OperandStart.of start.cursor.current = opening at hlooked hopens ⊢
  have hadmits : opening ≠ .refused → OperandStart.of start.cursor.current ≠ .refused := by
    intro hne
    rwa [hopening]
  cases opening with
  | newObject =>
      have hnew := newObject_retells hgrammar hopens (hadmits nofun)
      apply (hnew hquiet).mono _ fun _ _ => trivial
      rintro id after ⟨words, hwords, hleads⟩
      have hkind : start.cursor.current.kind ≠ .identifier := Token.kind_ne_of_is hopens nofun
      obtain ⟨others, heq, -⟩ := hleads.words_eq
      rw [Token.asWritten_of_kind hkind] at heq
      refine ⟨words, hlooked.last.inline hwords fun tail _ => ?_, hleads⟩
      rw [heq]
      exact hfollow tail others
  | unary =>
      rw [meets_bind_advance]
      have hpassed := hlooked.advance start.cursor.current fun tail => hfollow tail []
      apply hpassed.called (hgrammar.operand calls _) (fun _ => rfl)
        (List.cons_ne_nil _ _) hquiet
      intro inner read more hread hleads
      have hadded := hread.last.addAll (.unaryBefore start.cursor.current inner)
        ⟨rfl, rfl, trivial⟩ rfl
      refine ⟨_, hadded, Session.leads_cons (hadmits nofun) ?_ hleads.ne_nil⟩
      exact Token.kind_ne_of_isPrefix hopens
  | function =>
      exact atom_retells hgrammar (function_retells hgrammar .literal hopens) hlooked hfollow
        (hadmits nofun) (Token.kind_ne_of_is hopens nofun) hquiet
  | valueKeyword =>
      rw [meets_bind_advance]
      have hpassed := hlooked.advance start.cursor.current fun tail => hfollow tail []
      apply leaf_retells hgrammar hpassed ⟨rfl, rfl, rfl⟩ _ _ (hadmits nofun) hquiet
      · rw [← Token.asWritten_asName hopens]
        rfl
      · rw [Token.asWritten_of_kind (Token.kind_ne_of_isValueKeyword hopens)]
  | leaf kind =>
      rw [meets_bind_advance]
      have hpassed := hlooked.advance start.cursor.current fun tail => hfollow tail []
      have hplain : start.cursor.current.kind ≠ .identifier →
          start.cursor.current.bare = start.cursor.current.asWritten.bare := by
        intro hkind
        rw [Token.asWritten_of_kind hkind]
      cases kind with
      | comment => cases hopens
      | number =>
          exact leaf_retells hgrammar hpassed ⟨rfl, rfl, rfl⟩ rfl
            (hplain (hopens ▸ nofun)) (hadmits nofun) hquiet
      | string =>
          exact leaf_retells hgrammar hpassed ⟨rfl, rfl, rfl⟩ rfl
            (hplain (hopens ▸ nofun)) (hadmits nofun) hquiet
      | regex =>
          exact leaf_retells hgrammar hpassed ⟨rfl, rfl, rfl⟩ rfl
            (hplain (hopens ▸ nofun)) (hadmits nofun) hquiet
      | name =>
          by_cases hvalue : start.cursor.current.value ∈ Token.valueKeywords
          · have hwritten := hstart.look start.cursor.current.asWritten.bare
            rw [OperandStart.of_asWritten hopens hvalue] at hwritten
            have hnamed := hwritten.advance start.cursor.current.asWritten fun _ =>
              ⟨⟨trivial, (Token.asWritten_proper hopens).not_isComment⟩, rfl⟩
            exact leaf_retells hgrammar hnamed (Draft.name_retraces hopens) rfl rfl
              (hadmits nofun) hquiet
          · have hsame := Token.asWritten_of_value hvalue
            refine leaf_retells hgrammar hpassed ⟨rfl, rfl, rfl⟩ ?_ ?_ (hadmits nofun) hquiet
            · change [Part.own start.cursor.current.bare] =
                [Part.own start.cursor.current.asWritten.bare]
              rw [hsame]
            · rw [hsame]
  | parenthesis =>
      exact atom_retells hgrammar (parenthesized_retells hgrammar) hlooked hfollow
        (hadmits nofun) (Token.kind_ne_of_is hopens nofun) hquiet
  | bracket =>
      exact atom_retells hgrammar (array_retells hgrammar hopens) hlooked hfollow
        (hadmits nofun) (Token.kind_ne_of_is hopens nofun) hquiet
  | brace =>
      exact atom_retells hgrammar (object_retells hgrammar hopens) hlooked hfollow
        (hadmits nofun) (Token.kind_ne_of_is hopens nofun) hquiet
  | refused => trivial

theorem operations_retells (hgrammar : grammar.Retold semicolons) (left : NodeId)
    (floor : Token.Binding) :
    Task.Retells ⟨semicolons, start, (operations · left floor), [.below left]⟩
      (operations grammar left floor) .continuation := by
  intro hquiet
  have hstart := Task.start_reaches
    ⟨semicolons, start, (operations · left floor), [.below left]⟩
  unfold operations
  rw [meets_bind_current]
  dsimp only
  split
  · rename_i hlevel
    refine ⟨[], hstart.turn fun tail htail => ⟨trivial, fun _ => ?_⟩, Session.prolongs_nil rfl⟩
    have hcopy : tail.current.binding ≤ floor := Token.Follows.binding_le htail hlevel
    exact congrFun (if_pos hcopy) _
  · rename_i hlevel
    have honLine := Token.onLine_of_not_binding_le hlevel
    have hlooked := (hstart.look start.cursor.current.bare).notTaken hlevel
    rw [meets_bind_advance]
    have hpassed := hlooked.advance start.cursor.current fun _ => ⟨trivial, rfl⟩
    apply hpassed.called (hgrammar.operand true _) (fun _ => rfl)
      (List.cons_ne_nil _ _) hquiet
    intro first read more hread _
    apply (hgrammar.operations first _ read (hread.quiet hquiet)).bind
    rintro right joined ⟨others, hright, hprolongs⟩
    have hjoined := hread.resume hright rfl (fun _ => rfl) (List.cons_ne_nil _ _)
      fun _ htail => hprolongs.follows htail
    rw [meets_bind_add]
    have hadded := hjoined.addAll (.binary left start.cursor.current right)
      ⟨rfl, trivial, trivial⟩ rfl
    apply hadded.goOn (hgrammar.operations _ floor _) (fun _ => rfl) (List.cons_ne_nil _ _)
      (fun _ htail => htail) hquiet
    intro id after last hafter _
    exact ⟨_, hafter, Session.prolongs_cons honLine _⟩

theorem conditional_retells (hgrammar : grammar.Retold semicolons) :
    Task.Retells ⟨semicolons, start, conditional, []⟩ (conditional grammar) .expression := by
  intro hquiet
  have hstart := Task.start_reaches ⟨semicolons, start, conditional, []⟩
  apply hstart.inlined (operand_retells hgrammar true) hquiet
  intro first read words hread hleads
  apply (hgrammar.operations first .lowest read (hread.quiet hquiet)).bind
  rintro test tested ⟨more, htest, hmore⟩
  have htested := hread.resume htest rfl (fun _ => rfl) hleads.ne_nil
    fun _ htail => hmore.follows htail
  have hleads := hleads.prolong hmore
  rw [meets_bind_current]
  split
  · rename_i hmark
    rw [meets_bind_advance]
    have honLine := Token.onLine_of_isOperator hmark (by decide)
    have hpassed := htested.ifTrue.overlook.advance tested.cursor.current fun _ =>
      ⟨Token.follows_bare honLine, hmark⟩
    apply hpassed.called (hgrammar.assignment _) (fun _ => rfl) (by simp) hquiet
    intro consequent chosen middle hchosen _
    apply meets_bind_expect_of_true
    intro hcolon
    have hmarked := hchosen.expect chosen.cursor.current hcolon fun _ =>
      Token.follows_bare (Token.onLine_of_isPunctuation hcolon)
    apply hmarked.called (hgrammar.assignment _) (fun _ => rfl) (by simp) hquiet
    intro alternate after last hafter _
    have hadded := hafter.last.addAll (.conditional test consequent alternate)
      ⟨rfl, trivial, trivial⟩ (by
        simp [Draft.conditional, Shape.layout, Part.mark, Part.operator, Account.expression,
          Account.continuation, Token.bare_of_isOperator hmark,
          Token.bare_of_isPunctuation hcolon])
    refine ⟨_, hadded, ?_⟩
    change start.Leads _ _
    rw [List.append_assoc, List.append_assoc]
    exact hleads.shift honLine _
  · rename_i hmark
    refine ⟨_, htested.ifFalse.overlook.strengthen fun tail htail => ⟨htail, ?_⟩, hleads⟩
    exact Token.Follows.isOperator_eq_false htail ((Bool.not_eq_true _).mp hmark)

theorem assignment_retells (hgrammar : grammar.Retold semicolons) :
    Task.Retells ⟨semicolons, start, assignment, []⟩ (assignment grammar) .expression := by
  intro hquiet
  have hstart := Task.start_reaches ⟨semicolons, start, assignment, []⟩
  apply hstart.inlined (conditional_retells hgrammar) hquiet
  intro left read words hread hleads
  rw [meets_bind_current]
  split
  · rename_i hoperator
    refine ⟨_, hread.ifTrue.overlook.strengthen fun tail htail => ⟨htail, ?_⟩, hleads⟩
    have hcopy := Token.Follows.isAssignment_eq_false htail (by simpa using hoperator)
    rw [hcopy]
    rfl
  · rename_i hoperator
    have hassignment : read.cursor.current.isAssignment = true := by simpa using hoperator
    have honLine := Token.onLine_of_isAssignment hassignment
    rw [meets_bind_node]
    split
    · rename_i node hnode
      split
      · rename_i hassignable
        have hbare : read.tree.bare.find? left = some node.bare := by
          rw [Tree.find?_bare, hnode]
          rfl
        have hadmitted := hread.ifFalse.overlook.ifNode hbare
          (node.shape.isAssignable_bare.trans hassignable)
        rw [meets_bind_advance]
        have hpassed := hadmitted.advance read.cursor.current fun _ =>
          ⟨Token.follows_bare honLine, by simpa using hassignment⟩
        apply hpassed.called (hgrammar.assignment _) (fun _ => rfl) (by simp) hquiet
        intro right after more hafter _
        have hadded := hafter.last.addAll (.binary left read.cursor.current right)
          ⟨rfl, trivial, trivial⟩ rfl
        exact ⟨_, hadded, hleads.shift honLine more⟩
      · trivial
    · trivial

theorem expression_retells (hgrammar : grammar.Retold semicolons) (commas : Bool) :
    Task.Retells ⟨semicolons, start, (expression · commas), []⟩ (expression grammar commas)
      .expression := by
  intro hquiet
  have hstart := Task.start_reaches ⟨semicolons, start, (expression · commas), []⟩
  apply hstart.inlined (assignment_retells hgrammar) hquiet
  intro first read words hread hleads
  rw [meets_bind_current]
  split
  · rename_i hcomma
    obtain ⟨-, hmark⟩ := Bool.and_eq_true_iff.mp hcomma
    have honLine := Token.onLine_of_isPunctuation hmark
    rw [meets_bind_advance]
    have hpassed := hread.ifTrue.overlook.advance read.cursor.current fun _ =>
      ⟨Token.follows_bare honLine, hcomma⟩
    apply hpassed.called (hgrammar.expression true _) (fun _ => rfl) (by simp) hquiet
    intro rest after more hafter _
    have hadded := hafter.last.addAll (.binary first read.cursor.current rest)
      ⟨rfl, trivial, trivial⟩ rfl
    exact ⟨_, hadded, hleads.shift honLine more⟩
  · rename_i hcomma
    refine ⟨_, hread.ifFalse.overlook.strengthen fun tail htail => ⟨htail, ?_⟩, hleads⟩
    cases commas with
    | false => rfl
    | true =>
        exact Token.Follows.isPunctuation_eq_false htail ((Bool.not_eq_true _).mp hcomma)
          (by decide)

theorem items_retells (hgrammar : grammar.Retold semicolons)
    (hclosing : closing ∈ Token.closingMarks) :
    Task.Retells ⟨semicolons, start, (items · closing), []⟩ (items grammar closing)
      (.list .below id closing) := by
  apply listed_retells hclosing _ (hgrammar.items closing hclosing) (fun _ => rfl)
  intro start hquiet
  apply (expression_retells hgrammar false hquiet).mono _ fun _ _ => trivial
  rintro id after ⟨words, hwords, hleads⟩
  exact ⟨words, hwords, hleads.proper⟩

end Production

end ScriptSyntax
