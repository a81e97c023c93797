import ScriptSyntax.Proofs.RoundTrip.Accounts

/-!
# Retelling lists and functions

Lists are read up to a closing mark.  A comma may stand behind the last item, where
the canonical words have none, so the second run goes on to the closing mark at once
if nothing came behind the comma in the first.
-/

namespace ScriptSyntax

open Parse

theorem Part.separated_cons {Ref : Type} (first : Part Ref) {others : List (Part Ref)}
    (hothers : others ≠ []) :
    separated (first :: others) = first :: mark "," :: separated others := by
  cases others with
  | nil => exact absurd rfl hothers
  | cons next others => rfl

namespace Task.Reaches

variable {Result : Type} {task : Task Result} {parts : List (Part NodeId)}
variable {words : List Token} {follow : Cursor → Prop} {session : Session}
variable {closing : String}

/-- A comma is passed in the second run only. -/
theorem separatorComma {next : Grammar → Unit → Parse Result}
    (hreaches : task.Reaches parts words follow session fun grammar =>
      Production.separator closing >>= next grammar)
    (hfollow : ∀ tail : Cursor, follow (tail.before [.plain .punctuation ","])) :
    task.Reaches (parts ++ [Part.mark ","]) (words ++ [.plain .punctuation ","])
      (fun _ => True) session fun grammar => next grammar () := by
  have hpass : task.Reaches parts words
      (fun tail => follow tail ∧
        ∃ others : Cursor, tail = others.before [.plain .punctuation ","]) session
      fun grammar => Parse.advance >>= fun _ => next grammar () := by
    apply hreaches.turn
    rintro tail ⟨hbefore, others, rfl⟩
    exact ⟨hbefore, fun grammar => rfl⟩
  exact hpass.write (.plain .punctuation ",") fun tail _ => ⟨hfollow tail, tail, rfl⟩

/-- The list goes on to its end in the second run. -/
theorem separatorClosing {next : Grammar → Unit → Parse Result}
    (hreaches : task.Reaches parts words follow session fun grammar =>
      Production.separator closing >>= next grammar)
    (hclosing : closing ∈ Token.closingMarks) :
    task.Reaches parts words
      (fun tail => follow tail ∧ tail.current = .plain .punctuation closing) session
      fun grammar => next grammar () := by
  apply hreaches.turn
  rintro tail ⟨hfollow, hclosed⟩
  refine ⟨hfollow, fun grammar => ?_⟩
  have hcommas : ∀ mark ∈ Token.closingMarks,
      (Token.plain .punctuation mark).isPunctuation "," = false := by decide
  have hseparator : Production.separator closing (session.canonical tail) =
      .ok () (session.canonical tail) := by
    change (if tail.current.isPunctuation "," = true then _ else
      if (!tail.current.isPunctuation closing) = true then _ else _ : Parse Unit) _ = _
    rw [hclosed, hcommas closing hclosing, Token.isPunctuation_plain]
    rfl
  exact bind_of_ok hseparator

end Task.Reaches

namespace Production

variable {semicolons : Semicolons} {grammar : Grammar} {start : Session} {closing : String}

/-- The first run behind an item. -/
theorem separator_meets {session : Session} (closing : String) :
    (separator closing).Meets session
      (fun _ after => (after = session ∧ session.cursor.current.isPunctuation closing = true) ∨
        (after = session.passed ∧ session.cursor.current.isPunctuation "," = true))
      Unasked := by
  unfold separator
  rw [meets_bind_current]
  split
  · rename_i hcomma
    exact .inr ⟨rfl, hcomma⟩
  · split
    · trivial
    · rename_i hclosed
      exact .inl ⟨rfl, by simpa using hclosed⟩

/-- A list from behind an item on. -/
theorem rest_retells {Item : Type} {task : Task (List Item)} {part : Item → Part NodeId}
    (again : List Item → List Item) {reader : Parse (List Item)}
    {field production : Grammar → Parse (List Item)} {first copy : Item} {words : List Token}
    {follow : Cursor → Prop} {read : Session} (hclosing : closing ∈ Token.closingMarks)
    (hothers : ∀ start, Task.Retells ⟨task.semicolons, start, production, []⟩ reader
      (.list part again closing))
    (hfield : ∀ depth, field (.upTo task.semicolons (depth + 1)) =
      production (.upTo task.semicolons depth))
    (hagain : ∀ others, again (first :: others) = copy :: again others)
    (hread : task.Reaches [part first] words follow read fun grammar =>
      separator closing >>= fun _ => field grammar >>= fun others => pure (copy :: others))
    (hwords : words ≠ [])
    (hcomma : read.cursor.current.isPunctuation "," = true →
      ∀ tail : Cursor, follow (tail.before [.plain .punctuation ","]))
    (hclosed : ∀ tail : Cursor, tail.current = .plain .punctuation closing → follow tail)
    (hopen : ¬task.start.cursor.current.isPunctuation closing = true)
    (hquiet : task.start.Quiet) :
    (separator closing >>= fun _ => reader >>= fun others => pure (first :: others)).Meets read
      (task.Ends (.list part again closing)) Unasked := by
  apply (separator_meets closing).bind
  intro _ between hbetween
  have hevolves : read.Evolves between := by
    obtain ⟨rfl, -⟩ | ⟨rfl, -⟩ := hbetween
    · exact .refl _
    · exact Session.evolves_passed read
  have htree : between.tree = read.tree := by
    obtain ⟨rfl, -⟩ | ⟨rfl, -⟩ := hbetween <;> rfl
  apply (hothers between (hevolves.quiet (hread.quiet hquiet))).bind
  rintro others after ⟨more, hmore, hend, hnone, hstop⟩
  have hdone : ∀ (parts : List (Part NodeId)) (words : List Token),
      Part.separated ((first :: others).map part) = parts →
      task.Reaches parts words (fun tail => tail.current = .plain .punctuation closing) after
        (fun _ => pure (copy :: again others)) →
      task.Ends (.list part again closing) (first :: others) after := by
    rintro parts words rfl hlist
    rw [← hagain] at hlist
    refine ⟨words, hlist, hend, ?_, fun hstart => absurd hstart hopen⟩
    intro hnil
    cases hnil
  cases others with
  | nil =>
      obtain rfl := hnone rfl
      have hlist := ((hread.separatorClosing hclosing).reseat hevolves htree).call hmore hfield
        hwords fun tail htail => ⟨hclosed tail htail, htail⟩
      exact hdone _ _ rfl hlist
  | cons second others =>
      -- The first run cannot have stopped at the closing mark, since items came behind.
      have hpassed : read.cursor.current.isPunctuation "," = true := by
        obtain ⟨rfl, hclosing⟩ | ⟨-, hcomma⟩ := hbetween
        · cases hstop hclosing
        · exact hcomma
      have hlist := ((hread.separatorComma (hcomma hpassed)).reseat hevolves htree).call hmore
        hfield (List.append_ne_nil_of_left_ne_nil hwords _) fun _ _ => trivial
      exact hdone _ _ (Part.separated_cons (part first) (List.cons_ne_nil _ _)) hlist

/-- Items up to a closing mark, as lists of expressions and of properties are read. -/
def listed (element : Grammar → Parse NodeId) (others : Grammar → Parse (List NodeId))
    (closing : String) (grammar : Grammar) : Parse (List NodeId) := do
  let _ ← eatComments
  if (← current).isPunctuation closing then
    return []
  else
    let first ← element grammar
    let _ ← eatComments
    separator closing
    return first :: (← others grammar)

theorem listed_retells {element : Grammar → Parse NodeId}
    {field production : Grammar → Parse (List NodeId)} (hclosing : closing ∈ Token.closingMarks)
    (helement : ∀ start, Task.Retells ⟨semicolons, start, element, []⟩ (element grammar) .item)
    (hothers : ∀ start, Task.Retells ⟨semicolons, start, production, []⟩ (field grammar)
      (.list .below id closing))
    (hfield : ∀ depth, field (.upTo semicolons (depth + 1)) =
      production (.upTo semicolons depth)) :
    Task.Retells ⟨semicolons, start, listed element field closing, []⟩
      (listed element field closing grammar) (.list .below id closing) := by
  intro hquiet
  have hstart := (Task.start_reaches
    ⟨semicolons, start, listed element field closing, []⟩).eatComments
  apply meets_bind_eatComments_of_quiet hquiet
  rw [meets_bind_current]
  split
  · rename_i hclosed
    refine ⟨[], hstart.ifTrue.overlook.strengthen ?_, hclosed, fun _ => rfl, fun _ => rfl⟩
    rintro tail (htail : tail.current = _)
    rw [htail]
    exact ⟨⟨trivial, rfl⟩, Token.isPunctuation_plain closing⟩
  · rename_i hopen
    apply (helement start hquiet).bind
    rintro first read ⟨words, hfirst, head, others, rfl, hhead⟩
    have hread := hstart.ifFalse.overlook.inline hfirst fun tail _ =>
      ⟨⟨trivial, hhead.not_isComment⟩, hhead.not_closing closing hclosing⟩
    apply meets_bind_eatComments_of_quiet (hread.quiet hquiet)
    apply rest_retells id hclosing hothers hfield (fun _ => rfl) hread.eatComments
      (List.cons_ne_nil _ _) _ _ hopen hquiet
    · intro hcomma tail
      exact ⟨Token.follows_of_isPunctuation hcomma, rfl⟩
    · intro tail htail
      have hfollows : read.cursor.current.Follows tail.current :=
        htail ▸ Token.follows_mark hclosing
      exact ⟨hfollows, htail ▸ rfl⟩

/-- A list between two marks. -/
def enclosed (list : Grammar → Parse (List NodeId))
    (draft : Token → List NodeId → Token → Draft) (grammar : Grammar) : Parse NodeId := do
  let first ← advance
  let items ← list grammar
  let last ← advance
  add (draft first items last)

theorem enclosed_retells {field production : Grammar → Parse (List NodeId)}
    {draft : Token → List NodeId → Token → Draft}
    (hitems : ∀ start, Task.Retells ⟨semicolons, start, production, []⟩ (field grammar)
      (.list .below id closing))
    (hfield : ∀ depth, field (.upTo semicolons (depth + 1)) =
      production (.upTo semicolons depth))
    (hdraft : ∀ first items last, (draft first.bare items last.bare).Retraces
      (draft first items last))
    (hlayout : ∀ items last, last.isPunctuation closing = true →
      (draft start.cursor.current items last).shape.layout.map Part.bare =
        .own start.cursor.current.bare :: (Part.separated (items.map .below)).map Part.bare ++
          [.own last.bare]) :
    Task.Retells ⟨semicolons, start, enclosed field draft, []⟩
      (enclosed field draft grammar) .bracketed := by
  intro hquiet
  have hopened := (Task.start_reaches ⟨semicolons, start, enclosed field draft, []⟩).advance
    start.cursor.current fun _ => trivial
  unfold enclosed
  rw [meets_bind_advance]
  apply (hitems start.passed hquiet.passed).bind
  rintro items read ⟨more, hmore, hlast, -⟩
  have hread := hopened.call hmore hfield (List.cons_ne_nil _ _) fun _ _ => trivial
  rw [meets_bind_advance, meets_add]
  have hclosed := hread.advance read.cursor.current fun tail =>
    Token.bare_of_isPunctuation hlast
  have hadded := hclosed.last.addAll (draft start.cursor.current items read.cursor.current)
    (hdraft _ _ _) (by
      rw [hlayout items _ hlast]
      simp [Account.list])
  exact ⟨_, hadded, _, rfl, by simp⟩

theorem block_retells (hgrammar : grammar.Retold semicolons) :
    Task.Retells ⟨semicolons, start, block, []⟩ (block grammar) .bracketed := by
  intro hquiet
  apply meets_bind_expect_of_true
  intro hfirst
  have hopened := (Task.start_reaches ⟨semicolons, start, block, []⟩).expect
    start.cursor.current hfirst fun _ => trivial
  apply hopened.called (hgrammar.statements .block _) (fun _ => rfl)
    (List.cons_ne_nil _ _) hquiet
  rintro statements read more hread ⟨hlast, -⟩
  rw [meets_bind_advance, meets_add]
  have hclosed := hread.advance read.cursor.current fun _ => hlast
  have hadded := hclosed.last.addAll
    (.block start.cursor.current statements read.cursor.current) ⟨rfl, rfl, rfl⟩ (by
      simp [Draft.block, Shape.layout, Part.mark, Account.statements,
        Token.bare_of_isPunctuation hfirst, Token.bare_of_isPunctuation hlast])
  exact ⟨_, hadded, _, rfl, by simp⟩

theorem parameters_retells (hgrammar : grammar.Retold semicolons) :
    Task.Retells ⟨semicolons, start, parameters, []⟩ (parameters grammar)
      (.list .own (List.map Token.bare) ")") := by
  intro hquiet
  have hstart := Task.start_reaches ⟨semicolons, start, parameters, []⟩
  unfold parameters
  rw [meets_bind_current]
  split
  · rename_i hclosed
    refine ⟨[], hstart.ifTrue.overlook.strengthen ?_, hclosed, fun _ => rfl, fun _ => rfl⟩
    rintro tail (htail : tail.current = _)
    rw [htail]
    exact ⟨trivial, rfl⟩
  rename_i hopen
  split
  · trivial
  · apply meets_bind_expect_of_true
    intro hname
    have hnamed := hstart.ifFalse.ifFalse.overlook.expect start.cursor.current hname fun _ =>
      ⟨⟨trivial, by simpa using hopen⟩, by simp_all [Token.isEnd]⟩
    apply rest_retells (List.map Token.bare) (by decide) hgrammar.parameters (fun _ => rfl)
      (fun _ => rfl) hnamed (List.cons_ne_nil _ _) _ _ hopen hquiet
    · intro _ _
      trivial
    · intro _ _
      trivial

theorem function_retells (hgrammar : grammar.Retold semicolons) (role : FunctionRole)
    (hfirst : start.cursor.current.isKeyword "function" = true) :
    Task.Retells ⟨semicolons, start, (function · role), []⟩ (function grammar role)
      .bracketed := by
  intro hquiet
  have hpassed := (Task.start_reaches ⟨semicolons, start, (function · role), []⟩).advance
    start.cursor.current fun _ => trivial
  unfold function
  rw [meets_bind_advance]
  apply hpassed.accept fun _ _ htoken => htoken
  intro name named hnamed _
  apply meets_bind_expect_of_true
  intro hopening
  have hopened := hnamed.expect named.cursor.current hopening fun _ _ _ => by
    simp [Cursor.current_before_cons, ((named.cursor.current.is_iff _ _).mp hopening).1]
  apply hopened.called (hgrammar.parameters _) (fun _ => rfl) (by simp) hquiet
  rintro parameters listed more hlisted ⟨hclosing, -⟩
  rw [meets_bind_advance]
  have hclosed := hlisted.advance listed.cursor.current fun _ =>
    Token.bare_of_isPunctuation hclosing
  apply hclosed.inlined (block_retells hgrammar) hquiet
  intro body after last hread _
  split
  · trivial
  · rename_i hrole
    have hcopy : ¬(role = .definition ∧ name.map Token.bare = none) := by
      rwa [Option.map_eq_none_iff]
    have hadded := (hread.notTaken hcopy).last.addAll
      (.function role start.cursor.current name parameters body) ⟨rfl, rfl, trivial⟩ (by
        simp [Draft.function, Shape.layout, Part.mark, Part.word, Account.list,
          Account.bracketed, Token.bare_of_isKeyword hfirst,
          Token.bare_of_isPunctuation hopening, Token.bare_of_isPunctuation hclosing])
    exact ⟨_, hadded, _, by simp; rfl, by simp⟩

end Production

end ScriptSyntax
