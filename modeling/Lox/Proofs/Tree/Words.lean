import Lox.Proofs.Number.ReadBack
import Lox.Proofs.Token.Lexing
import Lox.Proofs.Tree.Legal
import Lox.Tree.Source

namespace Lox

def Kind.token : Kind → Token
  | .keyword word => ⟨.keyword word, word.spelling, none, 0⟩
  | kind => ⟨kind, kind.sign?.getD "", none, 0⟩

def Constant.word : Constant → Token
  | number value => ⟨.number, value.display, some (.number value), 0⟩
  | text value => ⟨.string, "\"" ++ value ++ "\"", some (.text value), 0⟩
  | bool true => Kind.token (.keyword .true_)
  | bool false => Kind.token (.keyword .false_)
  | nil => Kind.token (.keyword .nil_)

def commaJoined : List (List Token) → List Token
  | [] => []
  | [last] => last
  | first :: rest => first ++ Kind.token .comma :: commaJoined rest

mutual

def Expr.words : Expr → List Token
  | .assign _ name value => name.bare :: Kind.token .equal :: value.words
  | .binary left operator right => left.words ++ operator.bare :: right.words
  | .call callee paren arguments =>
    callee.words ++ Kind.token .leftParen :: (commaJoined (Expr.argumentsWords arguments) ++ [paren.bare])
  | .get object name => object.words ++ [Kind.token .dot, name.bare]
  | .grouping inner => Kind.token .leftParen :: (inner.words ++ [Kind.token .rightParen])
  | .constant value => [value.word]
  | .logical left operator right => left.words ++ operator.bare :: right.words
  | .set object name value => object.words ++ Kind.token .dot :: name.bare :: Kind.token .equal :: value.words
  | .super_ _ keyword method => [keyword.bare, Kind.token .dot, method.bare]
  | .this_ _ keyword => [keyword.bare]
  | .unary operator right => operator.bare :: right.words
  | .variable_ _ name => [name.bare]

def Expr.argumentsWords : List Expr → List (List Token)
  | [] => []
  | first :: rest => first.words :: Expr.argumentsWords rest

end

mutual

def Stmt.words : Stmt → List Token
  | .block body => Kind.token .leftBrace :: (Stmt.wordsAll body ++ [Kind.token .rightBrace])
  | .class_ name superclass methods =>
    Kind.token (.keyword .class_) :: name.bare :: (superclass.elim [] (Kind.token .less :: ·.words) ++
      Kind.token .leftBrace :: (FunctionDecl.wordsAll methods ++ [Kind.token .rightBrace]))
  | .expression expr => expr.words ++ [Kind.token .semicolon]
  | .function declaration => Kind.token (.keyword .fun_) :: declaration.words
  | .ifThen condition thenBranch =>
    Kind.token (.keyword .if_) :: Kind.token .leftParen :: (condition.words ++ Kind.token .rightParen :: thenBranch.words)
  | .ifThenElse condition thenBranch elseBranch =>
    Kind.token (.keyword .if_) :: Kind.token .leftParen :: (condition.words ++ Kind.token .rightParen ::
      (thenBranch.words ++ Kind.token (.keyword .else_) :: elseBranch.words))
  | .print_ expr => Kind.token (.keyword .print_) :: (expr.words ++ [Kind.token .semicolon])
  | .return_ keyword value => keyword.bare :: (value.elim [] Expr.words ++ [Kind.token .semicolon])
  | .var_ name initializer =>
    Kind.token (.keyword .var_) :: name.bare ::
      (initializer.elim [] (Kind.token .equal :: ·.words) ++ [Kind.token .semicolon])
  | .while_ condition body =>
    Kind.token (.keyword .while_) :: Kind.token .leftParen :: (condition.words ++ Kind.token .rightParen :: body.words)

def Stmt.wordsAll : List Stmt → List Token
  | [] => []
  | stmt :: rest => stmt.words ++ Stmt.wordsAll rest

def FunctionDecl.words : FunctionDecl → List Token
  | .mk name params body =>
    name.bare :: Kind.token .leftParen :: (commaJoined (params.map fun param => [param.bare]) ++
      Kind.token .rightParen :: Kind.token .leftBrace :: (Stmt.wordsAll body ++ [Kind.token .rightBrace]))

def FunctionDecl.wordsAll : List FunctionDecl → List Token
  | [] => []
  | method :: rest => method.words ++ FunctionDecl.wordsAll rest

end

def Constant.numbers : Constant → List Number
  | number value => [value]
  | _ => []

mutual

def Expr.numbers : Expr → List Number
  | .assign _ _ value => value.numbers
  | .binary left _ right => left.numbers ++ right.numbers
  | .call callee _ arguments => callee.numbers ++ Expr.numbersAll arguments
  | .get object _ => object.numbers
  | .grouping inner => inner.numbers
  | .constant value => value.numbers
  | .logical left _ right => left.numbers ++ right.numbers
  | .set object _ value => object.numbers ++ value.numbers
  | .super_ .. => []
  | .this_ .. => []
  | .unary _ right => right.numbers
  | .variable_ .. => []

def Expr.numbersAll : List Expr → List Number
  | [] => []
  | expr :: rest => expr.numbers ++ Expr.numbersAll rest

end

mutual

def Stmt.numbers : Stmt → List Number
  | .block body => Stmt.numbersAll body
  | .class_ _ superclass methods => superclass.elim [] Expr.numbers ++ FunctionDecl.numbersAll methods
  | .expression expr => expr.numbers
  | .function declaration => declaration.numbers
  | .ifThen condition thenBranch => condition.numbers ++ thenBranch.numbers
  | .ifThenElse condition thenBranch elseBranch => condition.numbers ++ thenBranch.numbers ++ elseBranch.numbers
  | .print_ expr => expr.numbers
  | .return_ _ value => value.elim [] Expr.numbers
  | .var_ _ initializer => initializer.elim [] Expr.numbers
  | .while_ condition body => condition.numbers ++ body.numbers

def Stmt.numbersAll : List Stmt → List Number
  | [] => []
  | stmt :: rest => stmt.numbers ++ Stmt.numbersAll rest

def FunctionDecl.numbers : FunctionDecl → List Number
  | .mk _ _ body => Stmt.numbersAll body

def FunctionDecl.numbersAll : List FunctionDecl → List Number
  | [] => []
  | method :: rest => method.numbers ++ FunctionDecl.numbersAll rest

end

def Number.IsFinite (n : Number) : Prop := n.magnitude < Number.infinityBits

theorem Number.ofDigits_bits (whole fraction : List Char) : (ofDigits whole fraction).bits.toNat ≤ infinityBits := by
  unfold ofDigits ofDecimal ofRatio
  split
  · decide
  · dsimp only
    generalize (_ : Nat) + _ = bits
    have small : min infinityBits bits ≤ infinityBits := Nat.min_le_left _ _
    have top : infinityBits < 2 ^ 64 := by decide
    rw [Nat.toUInt64, UInt64.toNat_ofNat', Nat.mod_eq_of_lt (by omega)]
    exact small

theorem Number.ofDigits_written {whole fraction : List Char} (finite : (ofDigits whole fraction).IsFinite) :
    Kind.Written .number (some (.number (ofDigits whole fraction))) (ofDigits whole fraction).display.toList := by
  have bits := ofDigits_bits whole fraction
  have signed : infinityBits < signBit := by decide
  have same : (ofDigits whole fraction).magnitude = (ofDigits whole fraction).bits.toNat := Nat.mod_eq_of_lt (by omega)
  unfold IsFinite at finite
  rw [same] at finite
  exact display_written finite

theorem Constant.Legal.word_genuine {value : Constant} (legal : value.Legal)
    (finite : ∀ n ∈ value.numbers, n.IsFinite) : value.word.Genuine := by
  obtain ⟨token, genuine, stands⟩ := legal
  unfold Token.Genuine at genuine
  unfold Grammar.constantOf? at stands
  generalize token.lexeme.toList = text at genuine
  split at stands
  case h_1 => cases stands; exact .keyword .false_
  case h_2 => cases stands; exact .keyword .true_
  case h_3 => cases stands; exact .keyword .nil_
  case h_4 kind =>
    rw [kind] at genuine
    generalize token.literal = literal at genuine stands
    cases genuine with
    | sign spelled => cases spelled
    | whole | decimal =>
      cases stands
      exact Number.ofDigits_written (finite _ (List.mem_singleton.mpr rfl))
  case h_5 kind =>
    rw [kind] at genuine
    generalize token.literal = literal at genuine stands
    cases genuine with
    | sign spelled => cases spelled
    | string unquoted =>
      cases stands
      have written := Kind.Written.string unquoted
      simpa [Constant.word, Constant.ofLiteral, Token.Genuine] using written
  case h_6 => cases stands

namespace Lexer

variable {rest : List Char} {ts : List Token}

theorem Lexes.space (others : Lexes rest ts) : Lexes (' ' :: rest) ts := .blank (by decide) others

theorem Lexes.newline (others : Lexes rest ts) : Lexes ('\n' :: rest) ts := .blank (by decide) others

theorem Lexes.mark (c : Char) {kind : Kind} (spelled : sign? c = some kind) (others : Lexes rest ts) :
    Lexes (c :: rest) (kind.token :: ts) := by
  unfold sign? at spelled
  split at spelled <;> cases spelled <;> exact .token rfl others

theorem Lexes.equals (others : Lexes rest ts) : Lexes ('=' :: ' ' :: rest) (Kind.token .equal :: ts) :=
  .token rfl others.space

theorem Lexes.less (others : Lexes rest ts) : Lexes ('<' :: ' ' :: rest) (Kind.token .less :: ts) :=
  .token rfl others.space

theorem Lexes.keyword (word : Keyword) (others : Lexes rest ts) (separate : Separate rest) :
    Lexes (word.spelling.toList ++ rest) (Kind.token (.keyword word) :: ts) := by
  have lexes := Lexes.written (.keyword word) separate others
  rw [String.ofList_toList] at lexes
  exact lexes

theorem Lexes.genuine {token : Token} (others : Lexes rest ts) (genuine : token.Genuine) (separate : Separate rest) :
    Lexes (token.lexeme.toList ++ rest) (token.bare :: ts) := by
  have lexes := Lexes.written genuine separate others
  rw [String.ofList_toList] at lexes
  exact lexes

end Lexer

open Lexer

variable {rest : List Char} {ts : List Token}

theorem Token.Is.bare_eq {token : Token} {kind : Kind} (is : token.Is [kind])
    (fixed : kind ≠ .identifier ∧ kind ≠ .number ∧ kind ≠ .string) : token.bare = kind.token := by
  obtain ⟨among, genuine⟩ := is
  have same := List.mem_singleton.mp among
  obtain ⟨kind', lexeme, literal, line⟩ := token
  subst same
  unfold Token.Genuine at genuine
  dsimp only at genuine fixed
  generalize text : lexeme.toList = chars at genuine
  cases genuine with
  | sign spelled =>
    have same := String.toList_inj.mp text
    subst same
    cases kind' <;> cases spelled <;> rfl
  | keyword word =>
    rw [String.toList_inj.mp text]
    rfl
  | name => exact absurd rfl fixed.1
  | whole | decimal => exact absurd rfl fixed.2.1
  | string => exact absurd rfl fixed.2.2

theorem Token.Is.separate {name : Token} (is : name.Is [.identifier]) (rest : List Char) :
    Separate ('.' :: (name.lexeme.toList ++ rest)) := by
  obtain ⟨c, cs, text, start, -⟩ := (is.genuine.isName (List.mem_singleton.mp is.kind)).word
  rw [text]
  exact .point_cons _ (isWordStart_not_digit start)

theorem Kind.Written.head_ne_equal {kind : Kind} {literal : Option Literal} {text : List Char}
    (written : Kind.Written kind literal text) (other : kind ≠ .equal ∧ kind ≠ .equalEqual) (rest : List Char) :
    ∀ c ∈ (text ++ rest).head?, c ≠ '=' := by
  have word {c : Char} (start : isWordStart c = true) : c ≠ '=' := by
    rintro rfl
    cases start
  have digit {digits : List Char} (number : IsDigits digits) (behind : List Char) :
      ∀ c ∈ (digits ++ behind).head?, c ≠ '=' := by
    intro c front
    cases digits with
    | nil => exact absurd rfl number.1
    | cons d ds =>
      cases front
      rintro rfl
      exact absurd (number.2 _ List.mem_cons_self) (by decide)
  intro c front
  cases written with
  | sign spelled =>
    cases kind <;> cases spelled
    case sign.equal.refl => exact absurd rfl other.1
    case sign.equalEqual.refl => exact absurd rfl other.2
    all_goals
      cases front
      decide
  | keyword name =>
    obtain ⟨d, ds, spelling, start, -⟩ := keyword_isWord name
    rw [spelling] at front
    cases front
    exact word start
  | name named =>
    obtain ⟨d, ds, rfl, start, -⟩ := named.word
    cases front
    exact word start
  | whole number => exact digit number rest c front
  | decimal number point =>
    rw [List.append_assoc] at front
    exact digit number _ c front
  | string unquoted =>
    cases front
    decide

theorem Constant.word_bare (value : Constant) : value.word.bare = value.word := by
  cases value with
  | bool value => cases value <;> rfl
  | _ => rfl

theorem Constant.word_lexeme (value : Constant) : value.word.lexeme = value.source := by
  cases value with
  | bool value => cases value <;> rfl
  | _ => rfl

def Lexer.Writes (text : String) (words : List Token) : Prop :=
  ∀ rest ts, Lexes rest ts → Separate rest → Lexes (text.toList ++ rest) (words ++ ts)

theorem writes_commaSeparated {texts : List String} {wordss : List (List Token)} (each : List.Forall₂ Writes texts wordss) :
    Writes (commaSeparated texts) (commaJoined wordss) := by
  induction each with
  | nil => exact fun rest ts others _ => others
  | cons first others ih =>
    intro rest ts behind separate
    cases others with
    | nil => exact first rest ts behind separate
    | cons second others =>
      have more := ih rest ts behind separate
      have whole := first _ _ (Lexes.mark ',' rfl more.space) (.cons _ (by decide))
      simpa [commaSeparated, commaJoined] using whole

theorem Expr.numbers_subset {exprs : List Expr} {expr : Expr} (among : expr ∈ exprs) :
    expr.numbers ⊆ Expr.numbersAll exprs := by
  induction exprs with
  | nil => cases among
  | cons first others ih =>
    rw [Expr.numbersAll]
    rcases List.mem_cons.mp among with rfl | among
    · exact List.subset_append_left _ _
    · exact List.subset_append_of_subset_right _ (ih among)

theorem Token.Is.head_ne_equal {token : Token} {kinds : List Kind} (is : token.Is kinds)
    (other : .equal ∉ kinds ∧ .equalEqual ∉ kinds) (rest : List Char) :
    ∀ c ∈ (token.lexeme.toList ++ rest).head?, c ≠ '=' := by
  refine is.genuine.head_ne_equal ⟨?_, ?_⟩ rest
  · intro same
    exact other.1 (same ▸ is.kind)
  · intro same
    exact other.2 (same ▸ is.kind)

theorem Expr.Legal.head_ne_equal {expr : Expr} (legal : expr.Legal) (finite : ∀ n ∈ expr.numbers, n.IsFinite)
    (rest : List Char) : ∀ c ∈ (expr.source.toList ++ rest).head?, c ≠ '=' := by
  induction legal generalizing rest with
  | assign named | variable_ named =>
    simp only [Expr.source, String.toList_append, List.append_assoc]
    exact named.head_ne_equal (by decide) _
  | unary sign =>
    simp only [Expr.source, String.toList_append, List.append_assoc]
    exact sign.head_ne_equal (by decide) _
  | binary _ _ _ ih₁ | logical _ _ _ ih₁ | call _ _ _ ih₁ | set _ _ _ ih₁ =>
    simp only [Expr.source, String.toList_append, List.append_assoc]
    exact ih₁ (fun n among => finite n (List.mem_append_left _ among)) _
  | get _ _ ih =>
    simp only [Expr.source, String.toList_append, List.append_assoc]
    exact ih finite _
  | constant stands =>
    have genuine := stands.word_genuine finite
    have head := genuine.head_ne_equal ?_ rest
    · rw [Constant.word_lexeme] at head
      exact head
    · rename_i value
      cases value with
      | bool value => cases value <;> decide
      | _ => exact ⟨nofun, nofun⟩
  | grouping | super_ | this_ =>
    simp [Expr.source]

theorem writes_arguments {arguments : List Expr} (each : ∀ argument ∈ arguments, Writes argument.source argument.words) :
    List.Forall₂ Writes (Expr.argumentsSource arguments) (Expr.argumentsWords arguments) := by
  induction arguments with
  | nil => exact .nil
  | cons first others ih =>
    exact .cons (each first List.mem_cons_self) (ih fun argument among => each argument (List.mem_cons_of_mem _ among))

theorem Expr.Legal.writes {expr : Expr} (legal : expr.Legal) (finite : ∀ n ∈ expr.numbers, n.IsFinite) :
    Writes expr.source expr.words := by
  induction legal with
  | assign named _ ih =>
    intro rest ts others separate
    have value := ih finite rest ts others separate
    have target := value.equals.space.genuine named.genuine (.cons _ (by decide))
    simpa [Expr.source, Expr.words] using target
  | binary sign _ _ ih₁ ih₂ | logical sign _ _ ih₁ ih₂ =>
    intro rest ts others separate
    have right := ih₂ (fun n among => finite n (List.mem_append_right _ among)) rest ts others separate
    have operator := right.space.genuine sign.genuine (.cons _ (by decide))
    have left := ih₁ (fun n among => finite n (List.mem_append_left _ among)) _ _ operator.space (.cons _ (by decide))
    simpa [Expr.source, Expr.words] using left
  | @call callee paren arguments closing _ _ ih₁ ih₂ =>
    intro rest ts others separate
    have each := writes_arguments fun argument among => ih₂ argument among fun n inside =>
      finite n (List.mem_append_right _ (Expr.numbers_subset among inside))
    have closed := Lexes.mark ')' rfl others
    have given := writes_commaSeparated each _ _ closed (.cons _ (by decide))
    have called :=
      ih₁ (fun n among => finite n (List.mem_append_left _ among)) _ _ (given.mark '(' rfl) (.cons _ (by decide))
    simpa [Expr.source, Expr.words, closing.bare_eq] using called
  | get named _ ih =>
    intro rest ts others separate
    have property := (others.genuine named.genuine separate).mark '.' rfl
    have object := ih finite _ _ property (named.separate rest)
    simpa [Expr.source, Expr.words] using object
  | grouping _ ih =>
    intro rest ts others separate
    have inner := ih finite _ _ (Lexes.mark ')' rfl others) (.cons _ (by decide))
    simpa [Expr.source, Expr.words] using inner.mark '(' rfl
  | constant stands =>
    intro rest ts others separate
    have word := others.genuine (stands.word_genuine finite) separate
    rw [Constant.word_lexeme, Constant.word_bare] at word
    exact word
  | set named _ _ ih₁ ih₂ =>
    intro rest ts others separate
    have value := ih₂ (fun n among => finite n (List.mem_append_right _ among)) rest ts others separate
    have property := (value.equals.space.genuine named.genuine (.cons _ (by decide))).mark '.' rfl
    have object := ih₁ (fun n among => finite n (List.mem_append_left _ among)) _ _ property (named.separate _)
    simpa [Expr.source, Expr.words] using object
  | super_ word named =>
    intro rest ts others separate
    have method := (others.genuine named.genuine separate).mark '.' rfl
    have keyword := method.keyword .super_ (named.separate rest)
    simpa [Expr.source, Expr.words, word.bare_eq, Keyword.spelling] using keyword
  | this_ word =>
    intro rest ts others separate
    have keyword := others.keyword .this_ separate
    simpa [Expr.source, Expr.words, word.bare_eq, Keyword.spelling] using keyword
  | @unary operator right sign operand ih =>
    intro rest ts others separate
    have behind := ih finite rest ts others separate
    rcases List.mem_pair.mp sign.kind with kind | kind
    · have bang : Token.Is _ [.bang] := ⟨List.mem_singleton.mpr kind, sign.genuine⟩
      have word := bang.bare_eq (by decide)
      have lexeme : operator.lexeme = "!" := congrArg Token.lexeme word
      have whole : Lexes _ (Kind.token .bang :: _) := behind.bang (operand.head_ne_equal finite rest)
      simpa [Expr.source, Expr.words, word, lexeme] using whole
    · have minus : Token.Is _ [.minus] := ⟨List.mem_singleton.mpr kind, sign.genuine⟩
      have word := minus.bare_eq (by decide)
      have lexeme : operator.lexeme = "-" := congrArg Token.lexeme word
      have whole := behind.mark '-' rfl
      simpa [Expr.source, Expr.words, word, lexeme] using whole
  | variable_ named =>
    intro rest ts others separate
    exact others.genuine named.genuine separate

def Lexer.Opens (text : String) (words : List Token) : Prop :=
  ∀ rest ts, Lexes rest ts → Lexes (text.toList ++ rest) (words ++ ts)

theorem Lexer.Lexes.indented (depth : Nat) (others : Lexes rest ts) : Lexes ((indent depth).toList ++ rest) ts := by
  rw [indent, String.toList_ofList]
  exact others.blanks _

theorem Lexer.Lexes.closed (depth : Nat) (others : Lexes rest ts) :
    Lexes ((indent depth).toList ++ '\x7d' :: rest) (Kind.token .rightBrace :: ts) :=
  (others.mark '\x7d' rfl).indented depth

theorem opens_lines {depth : Nat} {body : List Stmt} (each : ∀ stmt ∈ body, Opens (stmt.source depth) stmt.words) :
    Opens (Stmt.linesSource depth body) (Stmt.wordsAll body) := by
  induction body with
  | nil => exact fun rest ts others => others
  | cons first rest ih =>
    intro tail ts others
    have more := ih (fun stmt among => each stmt (List.mem_cons_of_mem _ among)) tail ts others
    have line := each first List.mem_cons_self _ _ more.newline
    simpa [Stmt.linesSource, Stmt.wordsAll] using line.indented depth

theorem writes_names {params : List Token} (named : ∀ param ∈ params, param.Is [.identifier]) :
    List.Forall₂ Writes (params.map Token.lexeme) (params.map fun param => [param.bare]) := by
  induction params with
  | nil => exact .nil
  | cons first others ih =>
    refine .cons ?_ (ih fun param among => named param (List.mem_cons_of_mem _ among))
    intro rest ts behind separate
    exact behind.genuine (named first List.mem_cons_self).genuine separate

theorem opens_function (depth : Nat) {declaration : FunctionDecl} (named : declaration.name.Is [.identifier])
    (params : ∀ param ∈ declaration.params, param.Is [.identifier])
    (each : ∀ stmt ∈ declaration.body, Opens (stmt.source (depth + 1)) stmt.words) :
    Opens (Stmt.functionSource depth declaration) declaration.words := by
  obtain ⟨name, parameters, body⟩ := declaration
  intro rest ts others
  have lines := opens_lines each _ _ (others.closed depth)
  have brace := (lines.newline.mark '\x7b' rfl).space.mark ')' rfl
  have list := writes_commaSeparated (writes_names params) _ _ brace (.cons _ (by decide))
  have whole := (list.mark '(' rfl).genuine named.genuine (.cons _ (by decide))
  simpa [Stmt.functionSource, FunctionDecl.words, FunctionDecl.name, FunctionDecl.params, FunctionDecl.body] using whole

theorem opens_methods {depth : Nat} {methods : List FunctionDecl}
    (each : ∀ method ∈ methods, Opens (Stmt.functionSource depth method) method.words) :
    Opens (Stmt.methodsSource depth methods) (FunctionDecl.wordsAll methods) := by
  induction methods with
  | nil => exact fun rest ts others => others
  | cons first rest ih =>
    intro tail ts others
    have more := ih (fun method among => each method (List.mem_cons_of_mem _ among)) tail ts others
    have line := each first List.mem_cons_self _ _ more.newline
    simpa [Stmt.methodsSource, FunctionDecl.wordsAll] using line.indented depth

theorem Stmt.numbers_subset {body : List Stmt} {stmt : Stmt} (among : stmt ∈ body) :
    stmt.numbers ⊆ Stmt.numbersAll body := by
  induction body with
  | nil => cases among
  | cons first others ih =>
    rw [Stmt.numbersAll]
    rcases List.mem_cons.mp among with rfl | among
    · exact List.subset_append_left _ _
    · exact List.subset_append_of_subset_right _ (ih among)

theorem FunctionDecl.numbers_subset {methods : List FunctionDecl} {method : FunctionDecl} (among : method ∈ methods) :
    Stmt.numbersAll method.body ⊆ FunctionDecl.numbersAll methods := by
  induction methods with
  | nil => cases among
  | cons first others ih =>
    rw [FunctionDecl.numbersAll]
    rcases List.mem_cons.mp among with rfl | among
    · obtain ⟨name, params, body⟩ := method
      exact List.subset_append_left _ _
    · exact List.subset_append_of_subset_right _ (ih among)

theorem Expr.Legal.condition {condition : Expr} (legal : condition.Legal) (finite : ∀ n ∈ condition.numbers, n.IsFinite)
    (others : Lexes rest ts) : Lexes (' ' :: '(' :: (condition.source.toList ++ ')' :: ' ' :: rest))
      (Kind.token .leftParen :: (condition.words ++ Kind.token .rightParen :: ts)) := by
  have inner := legal.writes finite _ _ (others.space.mark ')' rfl) (.cons _ (by decide))
  exact (inner.mark '(' rfl).space

theorem Stmt.Legal.opens {stmt : Stmt} (legal : stmt.Legal) (finite : ∀ n ∈ stmt.numbers, n.IsFinite) (depth : Nat) :
    Opens (stmt.source depth) stmt.words := by
  induction legal generalizing depth with
  | block _ ih =>
    intro rest ts others
    have each := opens_lines fun stmt among =>
      ih stmt among (fun n inside => finite n (Stmt.numbers_subset among inside)) (depth + 1)
    have lines := each _ _ (others.closed depth)
    simpa [Stmt.source, Stmt.words] using lines.newline.mark '\x7b' rfl
  | @class_ name superclass methods named extended names params bodies ih =>
    intro rest ts others
    have each := opens_methods fun method among => opens_function (depth + 1) (names method among) (params method among)
      fun stmt inside => ih method among stmt inside (fun n further => finite n (List.mem_append_right _
        (FunctionDecl.numbers_subset among (Stmt.numbers_subset inside further)))) (depth + 2)
    have brace := ((each _ _ (others.closed depth)).newline.mark '\x7b' rfl).space
    cases superclass with
    | none =>
      have whole := (brace.genuine named.genuine (.cons _ (by decide))).space.keyword .class_ (.cons _ (by decide))
      simpa [Stmt.source, Stmt.words, Keyword.spelling] using whole
    | some expr =>
      obtain ⟨id, superName, rfl, is⟩ := extended expr rfl
      have parent := (brace.genuine is.genuine (.cons _ (by decide))).less.space
      have whole := (parent.genuine named.genuine (.cons _ (by decide))).space.keyword .class_ (.cons _ (by decide))
      simpa [Stmt.source, Stmt.words, Expr.source, Expr.words, Keyword.spelling] using whole
  | expression stated =>
    intro rest ts others
    have whole := stated.writes finite _ _ (others.mark ';' rfl) (.cons _ (by decide))
    simpa [Stmt.source, Stmt.words] using whole
  | @function declaration named params stated ih =>
    intro rest ts others
    obtain ⟨name, parameters, body⟩ := declaration
    have whole := opens_function depth named params
      (fun stmt among => ih stmt among (fun n inside => finite n (Stmt.numbers_subset among inside)) (depth + 1)) _ _ others
    simpa [Stmt.source, Stmt.words, Keyword.spelling] using whole.space.keyword .fun_ (.cons _ (by decide))
  | ifThen head _ _ ih =>
    intro rest ts others
    have branch := ih (fun n among => finite n (List.mem_append_right _ among)) depth rest ts others
    have guarded := head.condition (fun n among => finite n (List.mem_append_left _ among)) branch
    simpa [Stmt.source, Stmt.words, Keyword.spelling] using guarded.keyword .if_ (.cons _ (by decide))
  | ifThenElse head _ _ _ _ ih₁ ih₂ =>
    intro rest ts others
    have second := ih₂ (fun n among => finite n (List.mem_append_right _ among)) depth rest ts others
    have other := (second.space.keyword .else_ (.cons _ (by decide))).space
    have first := ih₁ (fun n among => finite n (List.mem_append_left _ (List.mem_append_right _ among))) depth _ _ other
    have guarded := head.condition (fun n among => finite n (List.mem_append_left _ (List.mem_append_left _ among))) first
    simpa [Stmt.source, Stmt.words, Keyword.spelling] using guarded.keyword .if_ (.cons _ (by decide))
  | print_ stated =>
    intro rest ts others
    have value := stated.writes finite _ _ (others.mark ';' rfl) (.cons _ (by decide))
    simpa [Stmt.source, Stmt.words, Keyword.spelling] using value.space.keyword .print_ (.cons _ (by decide))
  | @return_ keyword value word returned =>
    intro rest ts others
    have ended := others.mark ';' rfl
    cases value with
    | none =>
      have whole := ended.keyword .return_ (.cons _ (by decide))
      simpa [Stmt.source, Stmt.words, word.bare_eq, Keyword.spelling] using whole
    | some expr =>
      have value := (returned expr rfl).writes finite _ _ ended (.cons _ (by decide))
      have whole := value.space.keyword .return_ (.cons _ (by decide))
      simpa [Stmt.source, Stmt.words, word.bare_eq, Keyword.spelling] using whole
  | @var_ name initializer named initial =>
    intro rest ts others
    have ended := others.mark ';' rfl
    cases initializer with
    | none =>
      have whole := (ended.genuine named.genuine (.cons _ (by decide))).space.keyword .var_ (.cons _ (by decide))
      simpa [Stmt.source, Stmt.words, Keyword.spelling] using whole
    | some expr =>
      have value := ((initial expr rfl).writes finite _ _ ended (.cons _ (by decide))).equals.space
      have whole := (value.genuine named.genuine (.cons _ (by decide))).space.keyword .var_ (.cons _ (by decide))
      simpa [Stmt.source, Stmt.words, Keyword.spelling] using whole
  | while_ head _ _ ih =>
    intro rest ts others
    have body := ih (fun n among => finite n (List.mem_append_right _ among)) depth rest ts others
    have guarded := head.condition (fun n among => finite n (List.mem_append_left _ among)) body
    simpa [Stmt.source, Stmt.words, Keyword.spelling] using guarded.keyword .while_ (.cons _ (by decide))

theorem programSource_lexes {program : List Stmt} (legal : ∀ stmt ∈ program, stmt.Legal)
    (finite : ∀ n ∈ Stmt.numbersAll program, n.IsFinite) :
    Lexes (programSource program).toList (Stmt.wordsAll program) := by
  have lines := opens_lines fun stmt among =>
    (legal stmt among).opens (fun n inside => finite n (Stmt.numbers_subset among inside)) 0
  simpa [programSource] using lines _ _ Lexes.nil

end Lox
