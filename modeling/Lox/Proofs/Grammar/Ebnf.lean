import Lox.Grammar.Expression

namespace Lox.Grammar

inductive Nonterminal where
  | program | declaration | classDecl | funDecl | function | varDecl
  | statement | exprStmt | forStmt | ifStmt | printStmt | returnStmt | whileStmt | block | parameters
  | expression | assignment | logicOr | logicAnd | equality | comparison | term | factor | unary | call | arguments
  | primary
deriving DecidableEq

/-- The right side of a rule. -/
inductive Ebnf where
  | terminal (kind : Kind)
  | rule (name : Nonterminal)
  | seq (first second : Ebnf)
  | alt (first second : Ebnf)
  | optional (inner : Ebnf)
  | many (inner : Ebnf)
  | times (n : Nat) (inner : Ebnf)

namespace Ebnf

def word (keyword : Keyword) : Ebnf := terminal (.keyword keyword)

def chain (first : Ebnf) : List Ebnf → Ebnf
  | [] => first
  | second :: rest => seq first (chain second rest)

def choice (first : Ebnf) : List Ebnf → Ebnf
  | [] => first
  | second :: rest => alt first (choice second rest)

def operation (operand : Nonterminal) (operator : Kind) (others : List Kind) : Ebnf :=
  chain (choice (terminal operator) (others.map terminal)) [rule operand]

def operands (operand : Nonterminal) (operator : Kind) (others : List Kind) : Ebnf :=
  chain (rule operand) [many (operation operand operator others)]

def another (entry : Ebnf) : Ebnf := chain (terminal .comma) [entry]

def entries (entry : Ebnf) : Ebnf := chain entry [many (another entry)]

/-- What can stand behind a callee or an object. -/
def access : Ebnf :=
  choice (chain (terminal .leftParen) [optional (rule .arguments), terminal .rightParen])
    [chain (terminal .dot) [terminal .identifier]]

end Ebnf

open Ebnf in
def grammar : Nonterminal → Ebnf
  | .program => chain (many (rule .declaration)) [terminal .eof]
  | .declaration => choice (rule .classDecl) [rule .funDecl, rule .varDecl, rule .statement]
  | .classDecl =>
    chain (word .class_) [terminal .identifier, optional (chain (terminal .less) [terminal .identifier]),
      terminal .leftBrace, many (rule .function), terminal .rightBrace]
  | .funDecl => chain (word .fun_) [rule .function]
  | .function =>
    chain (terminal .identifier) [terminal .leftParen, optional (rule .parameters), terminal .rightParen, rule .block]
  | .varDecl =>
    chain (word .var_) [terminal .identifier, optional (chain (terminal .equal) [rule .expression]),
      terminal .semicolon]
  | .statement =>
    choice (rule .exprStmt) [rule .forStmt, rule .ifStmt, rule .printStmt, rule .returnStmt, rule .whileStmt,
      rule .block]
  | .exprStmt => chain (rule .expression) [terminal .semicolon]
  | .forStmt =>
    chain (word .for_) [terminal .leftParen, choice (rule .varDecl) [rule .exprStmt, terminal .semicolon],
      optional (rule .expression), terminal .semicolon, optional (rule .expression), terminal .rightParen,
      rule .statement]
  | .ifStmt =>
    chain (word .if_) [terminal .leftParen, rule .expression, terminal .rightParen, rule .statement,
      optional (chain (word .else_) [rule .statement])]
  | .printStmt => chain (word .print_) [rule .expression, terminal .semicolon]
  | .returnStmt => chain (word .return_) [optional (rule .expression), terminal .semicolon]
  | .whileStmt =>
    chain (word .while_) [terminal .leftParen, rule .expression, terminal .rightParen, rule .statement]
  | .block => chain (terminal .leftBrace) [many (rule .declaration), terminal .rightBrace]
  | .parameters => entries (terminal .identifier)
  | .expression => rule .assignment
  | .assignment =>
    choice
      (chain (optional (chain (rule .call) [terminal .dot]))
        [terminal .identifier, terminal .equal, rule .assignment])
      [rule .logicOr]
  | .logicOr => operands .logicAnd (.keyword .or_) []
  | .logicAnd => operands .equality (.keyword .and_) []
  | .equality => operands .comparison .bangEqual [.equalEqual]
  | .comparison => operands .term .greater [.greaterEqual, .less, .lessEqual]
  | .term => operands .factor .minus [.plus]
  | .factor => operands .unary .slash [.star]
  | .unary => choice (chain (choice (terminal .bang) [terminal .minus]) [rule .unary]) [rule .call]
  | .call => chain (rule .primary) [many access]
  | .arguments => entries (rule .expression)
  | .primary =>
    choice (terminal .number) [terminal .string, word .true_, word .false_, word .nil_, word .this_,
      terminal .identifier, chain (terminal .leftParen) [rule .expression, terminal .rightParen],
      chain (word .super_) [terminal .dot, terminal .identifier]]

/-- A list of parameters or of arguments has at most as many entries as are not complained of: one, and those that its
    rule repeats. -/
def Nonterminal.MayRepeat (name : Nonterminal) (n : Nat) : Prop :=
  name = .parameters ∨ name = .arguments → n + 1 ≤ maxArity

/-- The kinds can be derived from a part of the right side of a rule. -/
inductive Derives : Nonterminal → Ebnf → List Kind → Prop where
  | terminal {name : Nonterminal} {kind : Kind} : Derives name (.terminal kind) [kind]
  | rule {name other : Nonterminal} {ks : List Kind} (expanded : Derives other (grammar other) ks) :
      Derives name (.rule other) ks
  | seq {name : Nonterminal} {first second : Ebnf} {ks ls : List Kind} (one : Derives name first ks)
      (two : Derives name second ls) : Derives name (.seq first second) (ks ++ ls)
  | left {name : Nonterminal} {first second : Ebnf} {ks : List Kind} (chosen : Derives name first ks) :
      Derives name (.alt first second) ks
  | right {name : Nonterminal} {first second : Ebnf} {ks : List Kind} (chosen : Derives name second ks) :
      Derives name (.alt first second) ks
  | absent {name : Nonterminal} {inner : Ebnf} : Derives name (.optional inner) []
  | present {name : Nonterminal} {inner : Ebnf} {ks : List Kind} (chosen : Derives name inner ks) :
      Derives name (.optional inner) ks
  | many {name : Nonterminal} {inner : Ebnf} {n : Nat} {ks : List Kind} (allowed : name.MayRepeat n)
      (repeated : Derives name (.times n inner) ks) : Derives name (.many inner) ks
  | never {name : Nonterminal} {inner : Ebnf} : Derives name (.times 0 inner) []
  | again {name : Nonterminal} {inner : Ebnf} {n : Nat} {ks ls : List Kind} (once : Derives name inner ks)
      (repeated : Derives name (.times n inner) ls) : Derives name (.times (n + 1) inner) (ks ++ ls)

def Derivable (name : Nonterminal) (ks : List Kind) : Prop := Derives name (grammar name) ks

namespace Derives

variable {name : Nonterminal} {first second inner : Ebnf} {kind : Kind} {ks ls : List Kind} {n : Nat}

theorem next (two : Derives name second ls) : Derives name (.seq (.terminal kind) second) (kind :: ls) :=
  .seq .terminal two

theorem last (one : Derives name first ks) : Derives name (.seq first (.terminal kind)) (ks ++ [kind]) :=
  .seq one .terminal

theorem alone (one : Derives name first ks) : Derives name (.seq first (.optional second)) ks := by
  have whole : Derives name (.seq first (.optional second)) (ks ++ []) := .seq one .absent
  rw [List.append_nil] at whole
  exact whole

theorem times_snoc (repeated : Derives name (.times n inner) ks) (once : Derives name inner ls) :
    Derives name (.times (n + 1) inner) (ks ++ ls) := by
  induction n generalizing ks with
  | zero =>
    cases repeated
    have one := again once .never
    rw [List.append_nil] at one
    exact one
  | succ n ih =>
    cases repeated with
    | again first rest =>
      rw [List.append_assoc]
      exact .again first (ih rest)

end Derives
end Lox.Grammar
