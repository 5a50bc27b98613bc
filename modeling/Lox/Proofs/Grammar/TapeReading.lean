import Lox.Proofs.Grammar.Tape

namespace Lox

open Grammar

def Grammar.Reading.parsed {c : Cursor} {gain : Nat} {α : Type} : Reading c gain α → Parsed (Except Misreading α)
  | .read value last _ => ⟨.ok value, last.misreadings.reverse, last.nextId⟩
  | .failed misreading last _ => ⟨.error misreading, last.misreadings.reverse, last.nextId⟩

theorem parseExpression_eq (tokens : List Token) (nextId : NodeId) :
    parseExpression tokens nextId = (wholeExpression (.ofTokens tokens nextId)).parsed := by
  unfold parseExpression
  cases wholeExpression (.ofTokens tokens nextId) <;> rfl

namespace Head

variable {s : EndedTokens} {h : Head} {c : Cursor} {α : Type} {gain : Nat}

theorem tracks_assignTo (target : Expr) (equals : Token) (value : Expr) (c : Cursor) :
    Tracks s (Reader.assignTo target equals value) (assignTo target equals value c) := by
  intro h shown
  cases target with
  | variable_ id name => exact ⟨h.numbered, shown.fresh_then _, shown.numbered⟩
  | get object name => exact ⟨h, rfl, shown⟩
  | _ => exact ⟨h.record ⟨equals, .assignmentTarget⟩, rfl, shown.record equals _⟩

mutual

theorem tracks_expression (c : Cursor) : Tracks s s.tape.expression (expression c) := by
  rw [Tape.expression, expression]
  refine (tracks_level .or c).andThen fun target c₁ progress => ?_
  refine .accept (.done target) fun equals => .previous ?_
  have shorter := equals.shorter
  refine (tracks_expression equals.next).andThen fun value c₂ _ => ?_
  exact tracks_assignTo target equals.token value c₂
termination_by 32 * c.size + 15
decreasing_by
  · simp [Level.rank]
  · omega

theorem tracks_level (level : Level) (c : Cursor) : Tracks s (s.tape.infix_ level) (infix_ level c) := by
  rw [Tape.infix_, infix_]
  exact (tracks_operand level c).andThen fun left c₁ progress => tracks_infixRest level left c₁
termination_by 32 * c.size + 2 * level.rank + 4

theorem tracks_operand (level : Level) (c : Cursor) : Tracks s (s.tape.operand level) (operand level c) := by
  rw [Tape.operand, operand]
  cases tighter : level.tighter? with
  | none => exact tracks_unary c
  | some next =>
    have lower := Level.rank_tighter tighter
    exact tracks_level next c
termination_by 32 * c.size + 2 * level.rank + 3

theorem tracks_infixRest (level : Level) (left : Expr) (c : Cursor) :
    Tracks s (s.tape.infixRest level left) (infixRest level left c) := by
  intro h shown
  rw [Tape.infixRest, infixRest, shown.acceptAny_then]
  cases c.accept? level.operators with
  | none => exact Tracks.done left shown
  | some operator =>
    have shorter := operator.shorter
    have ranked := level.rank_le
    apply Follows.after
    apply TracksBehind.previous _ (shown.forward operator) (shown.previous?_forward operator)
    exact (tracks_operand level operator.next).andThen fun right c₁ progress => tracks_infixRest level _ c₁
termination_by 32 * c.size

theorem tracks_unary (c : Cursor) : Tracks s s.tape.unary (unary c) := by
  intro h shown
  rw [Tape.unary, unary, shown.acceptAny_then]
  cases c.accept? [.bang, .minus] with
  | none => exact (tracks_primary c).andThen (fun callee c₁ progress => tracks_callRest callee c₁) shown
  | some operator =>
    have shorter := operator.shorter
    apply Follows.after
    apply TracksBehind.previous _ (shown.forward operator) (shown.previous?_forward operator)
    exact (tracks_unary operator.next).map _
termination_by 32 * c.size + 2

theorem tracks_callRest (callee : Expr) (c : Cursor) : Tracks s (s.tape.callRest callee) (callRest callee c) := by
  intro h shown
  rw [Tape.callRest, callRest, shown.accept_then, shown.accept_then]
  cases found : c.accept? [.leftParen, .dot] with
  | none =>
    rw [Cursor.sees_of_accept?_none found (by decide), Cursor.sees_of_accept?_none found (by decide)]
    exact Tracks.done callee shown
  | some sign =>
    have shorter := sign.shorter
    have next := shown.forward sign
    have kind := Cursor.accept?_eq_some.mp found
    simp only [List.mem_cons, List.not_mem_nil, or_false] at kind
    rcases kind with kind | kind
    · simp only [sign.sees, kind, decide_true, reduceCtorEq, ↓reduceIte]
      refine .after (Tracks.andThen (tracks_arguments sign.next) (fun entries c₁ progress => ?_) next)
      exact (Tracks.consume ..).andThen fun paren c₂ progress₂ => tracks_callRest _ c₂
    · simp only [sign.sees, kind, decide_true, decide_false, reduceCtorEq, Bool.false_eq_true, ↓reduceIte]
      exact .after (Tracks.andThen (.consume ..) (fun name c₁ progress => tracks_callRest _ c₁) next)
termination_by 32 * c.size

theorem tracks_arguments (c : Cursor) : Tracks s s.tape.arguments (arguments c) := by
  rw [Tape.arguments, arguments]
  exact .check (.done []) (tracks_argumentsFrom 0 c).weaken
termination_by 32 * c.size + 17

theorem tracks_argumentsFrom (count : Nat) (c : Cursor) : Tracks s (s.tape.argumentsFrom count) (argumentsFrom count c) := by
  have same := size_limit c count .tooManyArguments
  rw [Tape.argumentsFrom, argumentsFrom]
  refine .limit ((tracks_expression _).andThen fun first c₁ progress => ?_)
  refine .accept (.done [first]) fun comma => .onward ?_
  have shorter := comma.shorter
  exact (tracks_argumentsFrom (count + 1) comma.next).map _
termination_by 32 * c.size + 16

theorem tracks_primary (c : Cursor) : Tracks s s.tape.primary (primary c) := by
  intro h shown
  rw [Tape.primary, primary]
  simp only [shown.accept_then, shown.acceptAny_then, Cursor.isSome_accept?_cons, Cursor.accept?_nil, Option.isSome_none,
    Bool.or_false]
  cases found : c.take? with
  | none =>
    simp only [Cursor.sees_of_none found]
    exact Tracks.fail _ shown
  | some front =>
    have shorter := front.shorter
    have next := shown.forward front
    have seen : s.tape.previous? h.forward = some front.token := shown.previous?_forward front
    have seen' : s.tape.previous? h.forward.numbered = some front.token := seen
    have constant (value : Constant) : Follows s ((pure (.constant value) : Reader Expr) h.forward)
        (Reading.after front (.done (.constant value)) : Reading c 1 Expr) := .after (Tracks.done _ next)
    have valued : Follows s
        ((s.tape.previous >>= fun token => match token.literal with
          | some literal => pure (.constant (.ofLiteral literal))
          | none => throw ⟨token, .literalValue⟩ : Reader Expr) h.forward)
        (match front.token.literal with
          | some literal => .after front (.done (.constant (.ofLiteral literal)))
          | none => .after front (.failed ⟨front.token, .literalValue⟩ front.next (Nat.le_refl _) : Reading _ 0 _) :
          Reading c 1 Expr) := by
      rw [Reader.previous_then seen]
      cases front.token.literal with
      | none => exact ⟨h.forward, rfl, next⟩
      | some literal => exact constant _
    simp only [front.sees]
    cases kind : front.token.kind with
    | number => exact valued
    | string => exact valued
    | identifier =>
      refine .after ⟨h.forward.numbered, ?_, next.numbered⟩
      exact (Reader.previous_then seen _).trans (next.fresh_then _)
    | leftParen =>
      refine .after (Tracks.andThen (tracks_expression front.next) (fun expr c₁ _ => ?_) next)
      exact (Tracks.consume ..).andThen fun _ _ _ => .done _
    | keyword word =>
      cases word with
      | false_ => exact constant _
      | true_ => exact constant _
      | nil_ => exact constant _
      | this_ =>
        refine .after ⟨h.forward.numbered, ?_, next.numbered⟩
        exact (next.fresh_then _).trans (Reader.previous_then seen' _)
      | super_ =>
        refine .after (TracksBehind.previous (Tracks.andThen (.consume ..) fun _ c₁ _ => ?_) next seen)
        refine (Tracks.consume ..).andThen fun method c₂ _ => ?_
        exact fun _ shown₂ => ⟨_, shown₂.fresh_then _, shown₂.numbered⟩
      | _ => exact Tracks.fail _ shown
    | _ => exact Tracks.fail _ shown
termination_by 32 * c.size + 1

end

theorem tracks_wholeExpression (c : Cursor) : Tracks s s.tape.wholeExpression (wholeExpression c) := by
  refine (tracks_expression c).andThen fun expr c₁ _ => ?_
  intro h₁ shown₁
  rw [shown₁.atEnd_then]
  split
  · exact Tracks.done expr shown₁
  · exact Tracks.fail _ shown₁

theorem tracks_expressionUnless (kind : Kind) (c : Cursor) :
    Tracks s (s.tape.expressionUnless kind) (expressionUnless kind c) :=
  .check (.done none) ((tracks_expression c).map some).weaken

theorem tracks_initializer (c : Cursor) : Tracks s s.tape.initializer (initializer c) :=
  .accept (.done none) fun equals => .onward ((tracks_expression equals.next).map some)

theorem tracks_varDeclaration (c : Cursor) : Tracks s s.tape.varDeclaration (varDeclaration c) := by
  rw [varDeclaration_eq]
  refine (Tracks.consume ..).andThen fun name c₁ _ => ?_
  refine (tracks_initializer c₁).andThen fun value c₂ _ => ?_
  exact (Tracks.consume ..).andThen fun _ _ _ => .done _

theorem tracks_expressionStatement (c : Cursor) : Tracks s s.tape.expressionStatement (expressionStatement c) :=
  (tracks_expression c).andThen fun _ _ _ => (Tracks.consume ..).andThen fun _ _ _ => .done _

theorem tracks_printStatement (c : Cursor) : Tracks s s.tape.printStatement (printStatement c) :=
  (tracks_expression c).andThen fun _ _ _ => (Tracks.consume ..).andThen fun _ _ _ => .done _

theorem tracks_returnStatement {taken : c.Taken} :
    TracksBehind s taken s.tape.returnStatement (returnStatement taken.token taken.next) :=
  .previous ((tracks_expressionUnless .semicolon taken.next).andThen fun _ _ _ =>
    (Tracks.consume ..).andThen fun _ _ _ => .done _)

theorem tracks_parametersFrom (count : Nat) (c : Cursor) :
    Tracks s (s.tape.parametersFrom count) (parametersFrom count c) := by
  have same := size_limit c count .tooManyParameters
  rw [Tape.parametersFrom, parametersFrom]
  refine .limit ((Tracks.consume ..).andThen fun first c₁ progress => ?_)
  refine .accept (.done [first]) fun comma => .onward ?_
  have shorter := comma.shorter
  exact (tracks_parametersFrom (count + 1) comma.next).map _
termination_by c.size

theorem tracks_parameters (c : Cursor) : Tracks s s.tape.parameters (parameters c) :=
  .check (.done []) (tracks_parametersFrom 0 c).weaken

theorem tracks_forInitializer (c : Cursor) : Tracks s s.tape.forInitializer (forInitializer c) := by
  intro h shown
  rw [Tape.forInitializer, forInitializer, shown.accept_then, shown.accept_then]
  cases found : c.accept? [.semicolon, .keyword .var_] with
  | none =>
    rw [Cursor.sees_of_accept?_none found (by decide), Cursor.sees_of_accept?_none found (by decide)]
    exact (tracks_expressionStatement c).map some shown
  | some front =>
    have next := shown.forward front
    have kind := Cursor.accept?_eq_some.mp found
    simp only [List.mem_cons, List.not_mem_nil, or_false] at kind
    rcases kind with kind | kind
    · simp only [front.sees, kind, decide_true, ↓reduceIte]
      exact .after (Tracks.done none next)
    · simp only [front.sees, kind, decide_true, decide_false, reduceCtorEq, Bool.false_eq_true, ↓reduceIte]
      exact .after ((tracks_varDeclaration front.next).map some next)

theorem tracks_forClauses (c : Cursor) : Tracks s s.tape.forClauses (forClauses c) := by
  rw [forClauses_eq]
  refine (Tracks.consume ..).andThen fun _ c₁ _ => ?_
  refine (tracks_forInitializer c₁).andThen fun first c₂ _ => ?_
  refine (tracks_expressionUnless .semicolon c₂).andThen fun condition c₃ _ => ?_
  refine (Tracks.consume ..).andThen fun _ c₄ _ => ?_
  refine (tracks_expressionUnless .rightParen c₄).andThen fun increment c₅ _ => ?_
  exact (Tracks.consume ..).andThen fun _ _ _ => .done _

theorem tracks_superclass (c : Cursor) : Tracks s s.tape.superclass (superclass c) := by
  refine .accept (.done none) fun less => .onward ?_
  refine (Tracks.consume ..).andThen fun name c₁ _ => ?_
  exact fun _ shown₁ => ⟨_, shown₁.fresh_then _, shown₁.numbered⟩

theorem Shows.atClosing_then (shown : h.Shows s c) (rest other : Reader α) :
    (s.tape.atClosing >>= fun closing => if closing = true then rest else other) h =
      if c.sees .rightBrace || c.atEnd then rest h else other h := by
  have closing : s.tape.atClosing h = some (.ok (c.sees .rightBrace || c.atEnd), h) := by
    rw [Tape.atClosing, shown.check_then]
    cases c.sees .rightBrace with
    | true => rfl
    | false => exact shown.atEnd
  exact Reader.branch rest other closing

mutual

theorem tracks_declarationReading (c : Cursor) : Tracks s s.tape.declarationReading (declarationReading c) := by
  intro h shown
  rw [Tape.declarationReading, declarationReading]
  simp only [shown.accept_then]
  cases found : c.accept? [.keyword .class_, .keyword .fun_, .keyword .var_] with
  | none =>
    rw [Cursor.sees_of_accept?_none found (by decide), Cursor.sees_of_accept?_none found (by decide),
      Cursor.sees_of_accept?_none found (by decide)]
    exact tracks_statement c shown
  | some front =>
    have shorter := front.shorter
    have next := shown.forward front
    have kind := Cursor.accept?_eq_some.mp found
    simp only [List.mem_cons, List.not_mem_nil, or_false] at kind
    simp only [front.sees]
    rcases kind with kind | kind | kind
    · rw [kind]
      exact .after (tracks_classDeclaration front.next next)
    · rw [kind]
      exact .after ((tracks_function .function front.next).map Stmt.function next)
    · rw [kind]
      exact .after (tracks_varDeclaration front.next next)
termination_by 8 * c.size + 2

/-- A declaration is read as along the cursor, and the head is further on behind it. -/
theorem tracks_declaration {c : Cursor} {h : Head} (pending : 0 < c.size) (shown : h.Shows s c) :
    ∃ h', s.tape.declaration h = some (.ok (declaration c pending).statement?, h') ∧
      h'.Shows s (declaration c pending).next := by
  have reading : Follows s _ (declarationReading c) := tracks_declarationReading c shown
  have further {next : Cursor} {h' : Head} (shown' : h'.Shows s next) (shorter : next.size < c.size) :
      h.current < h'.current := by
    have before := shown.stands.size
    have behind := shown'.stands.size
    omega
  have place : Reader.place h = some (.ok h.current, h) := rfl
  rw [Tape.declaration, Reader.bind_ok _ place, declaration_eq]
  generalize declarationReading c = declared at reading ⊢
  cases declared with
  | read statement next progress =>
    obtain ⟨h', ends, shown'⟩ := reading
    rw [Reader.bind_ok _ (Reader.attempt_eq ends)]
    exact ⟨h'.close h.current, rfl, shown'.close (further shown' progress)⟩
  | failed misreading next progress =>
    obtain ⟨h', ends, shown'⟩ := reading
    have shorter := (Declared.ofReading pending (.failed misreading next progress)).shorter
    obtain ⟨h'', moves, shown''⟩ := (shown'.record misreading.token misreading.fault).synchronize
    rw [Reader.bind_ok _ (Reader.attempt_eq ends)]
    exact ⟨h''.close h.current, Reader.bind_ok _ moves, shown''.close (further shown'' shorter)⟩
termination_by 8 * c.size + 3

theorem tracks_classDeclaration (c : Cursor) : Tracks s s.tape.classDeclaration (classDeclaration c) := by
  rw [Tape.classDeclaration, classDeclaration_eq]
  refine (Tracks.consume ..).andThen fun name c₁ progress => ?_
  refine (tracks_superclass c₁).andThen fun extended c₂ progress₂ => ?_
  refine (Tracks.consume ..).andThen fun _ c₃ progress₃ => ?_
  refine (tracks_methods c₃).andThen fun declared c₄ _ => ?_
  exact (Tracks.consume ..).andThen fun _ _ _ => .done _
termination_by 8 * c.size

theorem tracks_methods (c : Cursor) : Tracks s s.tape.methods (methods c) := by
  intro h shown
  rw [Tape.methods, methods, shown.atClosing_then]
  split
  · exact Tracks.done [] shown
  · refine Tracks.weaken ((tracks_function .method c).andThen fun method c₁ progress => ?_) shown
    exact (tracks_methods c₁).map _
termination_by 8 * c.size + 1

theorem tracks_function (role : FunctionRole) (c : Cursor) : Tracks s (s.tape.function role) (function role c) := by
  rw [Tape.function, function]
  refine (Tracks.consume ..).andThen fun name c₁ progress => ?_
  refine (Tracks.consume ..).andThen fun _ c₂ progress₂ => ?_
  refine (tracks_parameters c₂).andThen fun entries c₃ progress₃ => ?_
  refine (Tracks.consume ..).andThen fun _ c₄ progress₄ => ?_
  refine (Tracks.consume ..).andThen fun _ c₅ progress₅ => ?_
  exact (tracks_block c₅).map _
termination_by 8 * c.size

theorem tracks_statement (c : Cursor) : Tracks s s.tape.statement (statement c) := by
  intro h shown
  rw [Tape.statement, statement]
  simp only [shown.accept_then]
  cases found : c.accept? [.keyword .for_, .keyword .if_, .keyword .print_, .keyword .return_, .keyword .while_,
    .leftBrace] with
  | none =>
    simp only [Cursor.sees_of_accept?_none found, List.mem_cons, true_or, or_true]
    exact tracks_expressionStatement c shown
  | some front =>
    have shorter := front.shorter
    have next := shown.forward front
    have kind := Cursor.accept?_eq_some.mp found
    simp only [List.mem_cons, List.not_mem_nil, or_false] at kind
    simp only [front.sees]
    rcases kind with kind | kind | kind | kind | kind | kind
    · rw [kind]
      refine .after (Tracks.andThen (tracks_forClauses front.next) (fun clauses c₁ progress => ?_) next)
      exact (tracks_statement c₁).map _
    · rw [kind]
      change Follows s (s.tape.ifStatement h.forward) _
      rw [Tape.ifStatement]
      refine .after (Tracks.andThen (.consume ..) (fun _ c₁ progress => ?_) next)
      refine (tracks_expression c₁).andThen fun condition c₂ progress₂ => ?_
      refine (Tracks.consume ..).andThen fun _ c₃ progress₃ => ?_
      refine (tracks_statement c₃).andThen fun thenBranch c₄ progress₄ => ?_
      refine .accept (.done _) fun else_ => .onward ?_
      have shorter₄ := else_.shorter
      exact (tracks_statement else_.next).map _
    · rw [kind]
      exact .after (tracks_printStatement front.next next)
    · rw [kind]
      exact .after (tracks_returnStatement next (shown.previous?_forward front))
    · rw [kind]
      refine .after (Tracks.andThen (.consume ..) (fun _ c₁ progress => ?_) next)
      refine (tracks_expression c₁).andThen fun condition c₂ progress₂ => ?_
      refine (Tracks.consume ..).andThen fun _ c₃ progress₃ => ?_
      exact (tracks_statement c₃).map _
    · rw [kind]
      exact .after ((tracks_block front.next).map Stmt.block next)
termination_by 8 * c.size + 1

theorem tracks_block (c : Cursor) : Tracks s s.tape.block (block c) := by
  intro h shown
  rw [Tape.block, block, shown.atClosing_then, Cursor.sees]
  cases found : c.accept? [.rightBrace] with
  | some brace =>
    have closes : s.tape.consume .rightBrace .blockClosing h = some (.ok brace.token, h.forward) := by
      rw [Tape.consume, shown.check_then, Cursor.sees, found]
      exact shown.advance brace
    exact .after ⟨h.forward, Reader.bind_ok _ closes, shown.forward brace⟩
  | none =>
    dsimp only
    by_cases ended : c.atEnd = true
    · have fails : s.tape.consume .rightBrace .blockClosing h = some (.error ⟨c.peek, .blockClosing⟩, h) := by
        rw [Tape.consume, shown.check_then, Cursor.sees, found]
        exact Reader.bind_ok _ shown.peek
      rw [dif_pos ended, ended]
      exact ⟨h, Reader.bind_error _ fails, shown⟩
    · rw [dif_neg ended, Bool.eq_false_iff.mpr ended]
      obtain ⟨h₁, declared, shown₁⟩ := tracks_declaration (Cursor.size_pos ended) shown
      generalize declaration c (Cursor.size_pos ended) = first at declared shown₁ ⊢
      obtain ⟨statement?, next, shorter⟩ := first
      have others : Follows s _ (block next) := tracks_block next shown₁
      change Follows s ((s.tape.declaration >>= _ : Reader (List Stmt)) h) _
      rw [Reader.bind_ok _ declared]
      dsimp only
      generalize block next = reading at others ⊢
      cases reading with
      | read rest last progress =>
        obtain ⟨h₂, ends, shown₂⟩ := others
        exact ⟨h₂, Reader.bind_ok _ ends, shown₂⟩
      | failed misreading last progress =>
        obtain ⟨h₂, ends, shown₂⟩ := others
        exact ⟨h₂, Reader.bind_error _ ends, shown₂⟩
termination_by 8 * c.size + 4

end

/-- From wherever the head may stand before the end, a declaration moves it on, whether or not it is misread. -/
theorem declaration_advances (s : EndedTokens) {h : Head} (kept : h.Keeps s.body.length)
    (inside : h.current < s.body.length) : ∃ statement? h', s.tape.declaration h = some (.ok statement?, h') ∧
      h'.Keeps s.body.length ∧ h.current < h'.current := by
  let c : Cursor := ⟨s.body.drop h.current, s.stop, h.nextId, h.misreadings⟩
  have shown : h.Shows s c := ⟨kept, ⟨Nat.le_of_lt inside, rfl, rfl⟩, rfl, rfl⟩
  have before := shown.stands.size
  have pending : 0 < c.size := by omega
  obtain ⟨h', declared, shown'⟩ := tracks_declaration pending shown
  have behind := shown'.stands.size
  have shorter := (declaration c pending).shorter
  exact ⟨_, h', declared, shown'.toKeeps, by omega⟩

theorem reads_program (shown : h.Shows s c) :
    ∃ h', s.tape.program h = some (.ok (declarations c).1, h') ∧ h'.Shows s (declarations c).2 := by
  induction size : c.size using Nat.strongRecOn generalizing c h with
  | ind n ih =>
    rw [Tape.program, declarations, shown.atEnd_then]
    by_cases ended : c.atEnd = true
    · rw [if_pos ended, dif_pos ended]
      exact ⟨h, rfl, shown⟩
    · rw [if_neg ended, dif_neg ended]
      obtain ⟨h₁, declared, shown₁⟩ := tracks_declaration (Cursor.size_pos ended) shown
      rw [Reader.bind_ok _ declared]
      generalize declaration c (Cursor.size_pos ended) = first at shown₁ ⊢
      have shorter := first.shorter
      obtain ⟨h₂, others, shown₂⟩ := ih first.next.size (by omega) shown₁ rfl
      exact ⟨h₂, Reader.bind_ok _ others, shown₂⟩

theorem start_shows (s : EndedTokens) (nextId : NodeId) :
    (start nextId).Shows s (Cursor.ofTokens s.all nextId) := by
  rw [s.ofTokens_all]
  exact ⟨⟨by simp [start], by simp [start]⟩, ⟨Nat.zero_le _, rfl, rfl⟩, rfl, rfl⟩

theorem Shows.read {reader : Tape → Reader α} {value : Except Misreading α} {last : Head} {nextId : NodeId}
    (shown : last.Shows s c) (ends : reader s.tape (start nextId) = some (value, last)) :
    ∃ last, Tape.read reader s.all nextId = some (⟨value, c.misreadings.reverse, c.nextId⟩, last) ∧
      last.Keeps s.body.length := by
  refine ⟨last, ?_, shown.toKeeps⟩
  rw [Tape.read, ← EndedTokens.tape, ends, ← shown.misreadings, ← shown.nextId]
  rfl

theorem Follows.read {reader : Tape → Reader α} {reading : Reading c gain α} {nextId : NodeId}
    (follows : Follows s (reader s.tape (start nextId)) reading) :
    ∃ last, Tape.read reader s.all nextId = some (reading.parsed, last) ∧ last.Keeps s.body.length := by
  cases reading with
  | read | failed =>
    obtain ⟨last, ends, shown⟩ := follows
    exact shown.read ends

end Head

namespace Tape

theorem read_program (s : EndedTokens) (nextId : NodeId) :
    let parsed := parseProgram s.all nextId
    ∃ last, read program s.all nextId = some (⟨.ok parsed.value, parsed.misreadings, parsed.nextId⟩, last) ∧
      last.Keeps s.body.length := by
  obtain ⟨last, ends, shown⟩ := Head.reads_program (Head.start_shows s nextId)
  exact shown.read ends

theorem read_expression (s : EndedTokens) (nextId : NodeId) :
    ∃ last, read wholeExpression s.all nextId = some (parseExpression s.all nextId, last) ∧
      last.Keeps s.body.length := by
  rw [parseExpression_eq]
  exact (Head.tracks_wholeExpression _ (Head.start_shows s nextId)).read

/-- Reading a list of tokens that is closed by an end token comes to an end, and it looks at no place without a token.
    The head stays within the tokens up to the first end token, and each declaration moves it on, wherever it begins.
    No token behind that end has a part in what is read. -/
theorem read_within (tokens : List Token) (nextId : NodeId) (closed : ∃ token ∈ tokens.getLast?, token.isEof = true) :
    let stop := tokens.findIdx Token.isEof
    let parsed := parseProgram tokens nextId
    (∃ last, read program tokens nextId = some (⟨.ok parsed.value, parsed.misreadings, parsed.nextId⟩, last) ∧
      last.Keeps stop) ∧
    (∃ last, read wholeExpression tokens nextId = some (parseExpression tokens nextId, last) ∧ last.Keeps stop) ∧
    (∀ h : Head, h.Keeps stop → h.current < stop → ∃ statement? h', declaration ⟨tokens⟩ h = some (.ok statement?, h') ∧
      h'.Keeps stop ∧ h.current < h'.current) ∧
    ∀ others : List Token, others.take (stop + 1) = tokens.take (stop + 1) →
      (read program others nextId).map Prod.fst = (read program tokens nextId).map Prod.fst ∧
      (read wholeExpression others nextId).map Prod.fst = (read wholeExpression tokens nextId).map Prod.fst := by
  obtain ⟨final, last, ended⟩ := closed
  obtain ⟨s, rfl⟩ := EndedTokens.exists_of_mem ⟨final, List.mem_of_getLast? last, ended⟩
  dsimp only
  rw [s.findIdx_all]
  refine ⟨read_program s nextId, read_expression s nextId, fun _ => Head.declaration_advances s, fun others same => ?_⟩
  obtain ⟨after, rfl⟩ := s.exists_after same
  have cursors : Cursor.ofTokens { s with after := after }.all nextId = Cursor.ofTokens s.all nextId := by
    rw [EndedTokens.ofTokens_all, EndedTokens.ofTokens_all]
  constructor
  · obtain ⟨_, program, -⟩ := read_program s nextId
    obtain ⟨_, program', -⟩ := read_program { s with after := after } nextId
    rw [program, program', parseProgram, parseProgram, cursors]
    rfl
  · obtain ⟨_, expression, -⟩ := read_expression s nextId
    obtain ⟨_, expression', -⟩ := read_expression { s with after := after } nextId
    rw [expression, expression', parseExpression_eq, parseExpression_eq, cursors]
    rfl

/-- A declaration that is misread in a block, and more tokens behind the end. -/
def misreadBlock : List Token := Lexer.tokensOf "\x7b ) ; \x7d" ++ Lexer.tokensOf "print"

theorem read_within_misreadBlock :
    (∃ token ∈ misreadBlock.getLast?, token.isEof = true) ∧
      ∃ last, read program misreadBlock 0 =
        some (⟨.ok [.block []], [⟨⟨.rightParen, ")", none, 1⟩, .expression⟩], 0⟩, last) ∧ last.Keeps 4 := by
  have closed : ∃ token ∈ misreadBlock.getLast?, token.isEof = true := by
    refine ⟨⟨.eof, "", none, 1⟩, ?_, rfl⟩
    cbv
  have stop : misreadBlock.findIdx Token.isEof = 4 := by cbv
  have parsed : parseProgram misreadBlock 0 = ⟨[.block []], [⟨⟨.rightParen, ")", none, 1⟩, .expression⟩], 0⟩ := by cbv
  obtain ⟨program, -, -⟩ := read_within misreadBlock 0 closed
  rw [stop, parsed] at program
  exact ⟨closed, program⟩

end Tape
end Lox
