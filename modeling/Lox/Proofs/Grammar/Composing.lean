import Lox.Proofs.Grammar.Joining
import Lox.Proofs.Session.Renumbering
import Lox.Proofs.Tree.RoundTrip

namespace Lox

mutual

def Expr.shifted (shift : Nat) : Expr → Expr
  | .assign id name value => .assign (id + shift) name (value.shifted shift)
  | .binary left operator right => .binary (left.shifted shift) operator (right.shifted shift)
  | .call callee paren arguments => .call (callee.shifted shift) paren (Expr.shiftedAll shift arguments)
  | .get object name => .get (object.shifted shift) name
  | .grouping inner => .grouping (inner.shifted shift)
  | .constant value => .constant value
  | .logical left operator right => .logical (left.shifted shift) operator (right.shifted shift)
  | .set object name value => .set (object.shifted shift) name (value.shifted shift)
  | .super_ id keyword method => .super_ (id + shift) keyword method
  | .this_ id keyword => .this_ (id + shift) keyword
  | .unary operator right => .unary operator (right.shifted shift)
  | .variable_ id name => .variable_ (id + shift) name

def Expr.shiftedAll (shift : Nat) : List Expr → List Expr
  | [] => []
  | expr :: rest => expr.shifted shift :: Expr.shiftedAll shift rest

end

mutual

def Stmt.shifted (shift : Nat) : Stmt → Stmt
  | .block body => .block (Stmt.shiftedAll shift body)
  | .class_ name superclass methods =>
    .class_ name (superclass.map (Expr.shifted shift)) (FunctionDecl.shiftedAll shift methods)
  | .expression expr => .expression (expr.shifted shift)
  | .function declaration => .function (declaration.shifted shift)
  | .ifThen condition thenBranch => .ifThen (condition.shifted shift) (thenBranch.shifted shift)
  | .ifThenElse condition thenBranch elseBranch =>
    .ifThenElse (condition.shifted shift) (thenBranch.shifted shift) (elseBranch.shifted shift)
  | .print_ expr => .print_ (expr.shifted shift)
  | .return_ keyword value => .return_ keyword (value.map (Expr.shifted shift))
  | .var_ name initializer => .var_ name (initializer.map (Expr.shifted shift))
  | .while_ condition body => .while_ (condition.shifted shift) (body.shifted shift)

def Stmt.shiftedAll (shift : Nat) : List Stmt → List Stmt
  | [] => []
  | stmt :: rest => stmt.shifted shift :: Stmt.shiftedAll shift rest

def FunctionDecl.shifted (shift : Nat) : FunctionDecl → FunctionDecl
  | .mk name params body => .mk name params (Stmt.shiftedAll shift body)

def FunctionDecl.shiftedAll (shift : Nat) : List FunctionDecl → List FunctionDecl
  | [] => []
  | method :: rest => method.shifted shift :: FunctionDecl.shiftedAll shift rest

end

section

variable {shift : Nat}

open Pairing (renumbering)

theorem renumber_zero (shift id : Nat) : renumber 0 shift id = id + shift := by
  simp [renumber]

mutual

theorem Expr.Alike.eq_shifted {rs : List Naming} :
    ∀ {e e' : Expr}, e.Alike (renumbering 0 shift) rs e' → e' = e.shifted shift
  | _, _, .assign reference assigned => by
    obtain ⟨-, rfl, rfl⟩ := reference
    rw [Expr.shifted, renumber_zero, assigned.eq_shifted]
  | _, _, .binary first sign second => by
    cases sign
    rw [Expr.shifted, first.eq_shifted, second.eq_shifted]
  | _, _, .call called closing given => by
    cases closing
    rw [Expr.shifted, called.eq_shifted, given.eq_shiftedAll]
  | _, _, .get owner named => by
    cases named
    rw [Expr.shifted, owner.eq_shifted]
  | _, _, .grouping grouped => by rw [Expr.shifted, grouped.eq_shifted]
  | _, _, .constant => by rw [Expr.shifted]
  | _, _, .logical first word second => by
    cases word
    rw [Expr.shifted, first.eq_shifted, second.eq_shifted]
  | _, _, .set owner named assigned => by
    cases named
    rw [Expr.shifted, owner.eq_shifted, assigned.eq_shifted]
  | _, _, .super_ reference named => by
    obtain ⟨-, rfl, rfl⟩ := reference
    cases named
    rw [Expr.shifted, renumber_zero]
  | _, _, .this_ reference | _, _, .variable_ reference => by
    obtain ⟨-, rfl, rfl⟩ := reference
    rw [Expr.shifted, renumber_zero]
  | _, _, .unary sign operand => by
    cases sign
    rw [Expr.shifted, operand.eq_shifted]

theorem Expr.AllAlike.eq_shiftedAll {rs : List Naming} :
    ∀ {es es' : List Expr}, Expr.AllAlike (renumbering 0 shift) rs es es' → es' = Expr.shiftedAll shift es
  | _, _, .nil => by rw [Expr.shiftedAll]
  | _, _, .cons first others => by rw [Expr.shiftedAll, first.eq_shifted, others.eq_shiftedAll]

end

theorem Expr.optional_eq_shifted {rs : List Naming} {e e' : Option Expr}
    (alike : Option.Rel (Expr.Alike (renumbering 0 shift) rs) e e') : e' = e.map (Expr.shifted shift) := by
  cases alike with
  | none => rfl
  | some alike => rw [Option.map_some, alike.eq_shifted]

theorem eq_of_declares {rs : List Naming} {params params' : List Token}
    (entries : List.Forall₂ ((renumbering 0 shift).Declares rs) params params') : params' = params := by
  induction entries with
  | nil => rfl
  | cons first _ others => rw [show _ = _ from first.names, others]

mutual

theorem Stmt.Alike.eq_shifted :
    ∀ {rs : List Naming} {s s' : Stmt}, s.Alike (renumbering 0 shift) rs s' → s' = s.shifted shift
  | _, _, _, .block _ stated => by rw [Stmt.shifted, stated.eq_shiftedAll]
  | _, _, _, .base named declared => by
    cases named.tokens
    rw [Stmt.shifted, Option.map_none, declared.eq_shiftedAll]
  | _, _, _, .derived named extended declared => by
    cases named.tokens
    rw [Stmt.shifted, Option.map_some, extended.eq_shifted, declared.eq_shiftedAll]
  | _, _, _, .expression stated | _, _, _, .print_ stated => by rw [Stmt.shifted, stated.eq_shifted]
  | _, _, _, .function _ declared => by rw [Stmt.shifted, declared.eq_shifted]
  | _, _, _, .ifThen head first => by rw [Stmt.shifted, head.eq_shifted, first.eq_shifted]
  | _, _, _, .ifThenElse head first second => by
    rw [Stmt.shifted, head.eq_shifted, first.eq_shifted, second.eq_shifted]
  | _, _, _, .return_ word returned => by
    cases word
    rw [Stmt.shifted, Expr.optional_eq_shifted returned]
  | _, _, _, .var_ named initial => by
    cases named.names
    rw [Stmt.shifted, Expr.optional_eq_shifted initial]
  | _, _, _, .while_ head repeated => by rw [Stmt.shifted, head.eq_shifted, repeated.eq_shifted]

theorem Stmt.AllAlike.eq_shiftedAll :
    ∀ {rs : List Naming} {ss ss' : List Stmt}, Stmt.AllAlike (renumbering 0 shift) rs ss ss' →
      ss' = Stmt.shiftedAll shift ss
  | _, _, _, .nil => by rw [Stmt.shiftedAll]
  | _, _, _, .cons first others => by rw [Stmt.shiftedAll, first.eq_shifted, others.eq_shiftedAll]

theorem FunctionDecl.Alike.eq_shifted :
    ∀ {rs : List Naming} {d d' : FunctionDecl}, d.Alike (renumbering 0 shift) rs d' → d' = d.shifted shift
  | _, _, _, .mk _ named entries stated => by
    cases named
    rw [FunctionDecl.shifted, eq_of_declares entries, stated.eq_shiftedAll]

theorem FunctionDecl.AllAlike.eq_shiftedAll :
    ∀ {rs : List Naming} {ds ds' : List FunctionDecl}, FunctionDecl.AllAlike (renumbering 0 shift) rs ds ds' →
      ds' = FunctionDecl.shiftedAll shift ds
  | _, _, _, .nil => by rw [FunctionDecl.shiftedAll]
  | _, _, _, .cons first others => by rw [FunctionDecl.shiftedAll, first.eq_shifted, others.eq_shiftedAll]

end

theorem Misreading.eq_of_allAlike {misreadings misreadings' : List Misreading}
    (alike : List.Forall₂ (Misreading.Alike (renumbering 0 shift)) misreadings misreadings') :
    misreadings' = misreadings := by
  induction alike with
  | nil => rfl
  | @cons first first' _ _ here _ others =>
    obtain ⟨token, fault⟩ := here
    obtain ⟨_, _⟩ := first
    obtain ⟨_, _⟩ := first'
    cases token
    cases fault
    rw [others]

end

def Parsed.shifted (shift : Nat) (parsed : Parsed (List Stmt)) : Parsed (List Stmt) :=
  ⟨Stmt.shiftedAll shift parsed.value, parsed.misreadings, parsed.nextId + shift⟩

theorem parseProgram_add (tokens : List Token) (nextId shift : NodeId) :
    parseProgram tokens (nextId + shift) = (parseProgram tokens nextId).shifted shift := by
  have same : List.Forall₂ (Pairing.renumbering 0 shift).tokens tokens tokens := List.forall₂_same.mpr fun _ _ => rfl
  obtain ⟨stated, misread, last⟩ :=
    parseProgram_alike (Pairing.shifts_renumbering (Nat.zero_le nextId)) same rfl
  unfold Parsed.shifted
  rw [← (stated [] .nil).eq_shiftedAll, ← Misreading.eq_of_allAlike misread, ← last]

open Grammar

theorem parseProgram_behind {front tokens : List Token} {stop : Token} {nextId id : NodeId} {program : List Stmt}
    (inside : ∀ t ∈ front, t.isEof = false) (ended : stop.isEof = true)
    (read : parseProgram (front ++ [stop]) nextId = ⟨program, [], id⟩) (apart : Apart [.keyword .else_] tokens) :
    parseProgram (front ++ tokens) nextId =
      { parseProgram tokens id with value := program ++ (parseProgram tokens id).value } := by
  obtain ⟨_, reads⟩ := parseProgram_eq_iff.mp read
  rw [Cursor.ofTokens_append nextId inside, List.takeWhile_cons_of_neg (by simp [ended]), List.append_nil] at reads
  have front' : Apart [.keyword .else_] (tokens.takeWhile (!·.isEof)) := by
    intro token front
    rw [List.head?_takeWhile] at front
    exact apart token (Option.mem_filter_iff.mp front).1
  have joined : ReadsStmt (.declarations (program ++ (declarations (.ofTokens tokens id)).1))
      (.ofTokens (front ++ tokens) nextId) (declarations (.ofTokens tokens id)).2 := by
    rw [Cursor.ofTokens_append nextId inside]
    exact reads.declarations_append rfl front' (reads_declarations (.ofTokens tokens id))
  unfold parseProgram
  rw [declarations_eq_iff.mpr joined]

/-- Reading is compositional, and later complaints do no harm to earlier statements. -/
theorem parseProgram_compositional {front tokens : List Token} {stop : Token} {nextId id : NodeId}
    {program : List Stmt} (inside : ∀ t ∈ front, t.isEof = false) (ended : stop.isEof = true)
    (read : parseProgram (front ++ [stop]) nextId = ⟨program, [], id⟩)
    (apart : ∀ token ∈ tokens.head?, token.kind ≠ .keyword .else_) :
    parseProgram (front ++ tokens) nextId =
      ⟨program ++ Stmt.shiftedAll (id - nextId) (parseProgram tokens nextId).value,
        (parseProgram tokens nextId).misreadings, (parseProgram tokens nextId).nextId + (id - nextId)⟩ := by
  have above : nextId ≤ id := by
    have le := parseProgram_nextId_le (front ++ [stop]) nextId
    rwa [read] at le
  -- Read alone, the tokens begin with `nextId`; behind the program, with `id`.
  have renumbered := parseProgram_add tokens nextId (id - nextId)
  rw [Nat.add_sub_cancel' above] at renumbered
  rw [parseProgram_behind inside ended read (by simpa [Apart] using apart), renumbered]
  rfl

theorem parseProgram_compositional_misread :
    parseProgram (Lexer.tokensOf "if (a) b;") 0 =
        ⟨[.ifThen (.variable_ 0 ⟨.identifier, "a", none, 1⟩) (.expression (.variable_ 1 ⟨.identifier, "b", none, 1⟩))],
          [], 2⟩ ∧
      parseProgram (Lexer.tokensOf "; c;") 0 =
        ⟨[.expression (.variable_ 0 ⟨.identifier, "c", none, 1⟩)], [⟨⟨.semicolon, ";", none, 1⟩, .expression⟩], 1⟩ ∧
      parseProgram ((Lexer.tokensOf "if (a) b;").dropLast ++ Lexer.tokensOf "; c;") 0 =
        ⟨[.ifThen (.variable_ 0 ⟨.identifier, "a", none, 1⟩) (.expression (.variable_ 1 ⟨.identifier, "b", none, 1⟩)),
            .expression (.variable_ 2 ⟨.identifier, "c", none, 1⟩)],
          [⟨⟨.semicolon, ";", none, 1⟩, .expression⟩], 3⟩ := by
  have read : parseProgram (Lexer.tokensOf "if (a) b;") 0 =
      ⟨[.ifThen (.variable_ 0 ⟨.identifier, "a", none, 1⟩) (.expression (.variable_ 1 ⟨.identifier, "b", none, 1⟩))],
        [], 2⟩ := by cbv
  have behind : parseProgram (Lexer.tokensOf "; c;") 0 =
      ⟨[.expression (.variable_ 0 ⟨.identifier, "c", none, 1⟩)], [⟨⟨.semicolon, ";", none, 1⟩, .expression⟩], 1⟩ := by cbv
  have parts : (Lexer.tokensOf "if (a) b;").dropLast ++ [⟨.eof, "", none, 1⟩] = Lexer.tokensOf "if (a) b;" := by cbv
  have inside : (Lexer.tokensOf "if (a) b;").dropLast.all (!·.isEof) = true := by cbv
  have front : (Lexer.tokensOf "; c;").head? = some ⟨.semicolon, ";", none, 1⟩ := by cbv
  refine ⟨read, behind, ?_⟩
  rw [parseProgram_compositional (by simpa using inside) rfl (parts ▸ read) (by simp [front]), behind]
  rfl

end Lox
