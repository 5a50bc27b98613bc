import Mathlib.Logic.Equiv.Basic
import Mathlib.Data.List.Forall2
import Lox.Proofs.Scope.Shape

namespace Lox

theorem rel_imp {α β : Type} {R S : α → β → Prop} (implies : ∀ a b, R a b → S a b) {a : Option α} {b : Option β}
    (related : Option.Rel R a b) : Option.Rel S a b := by
  cases related with
  | none => exact .none
  | some related => exact .some (implies _ _ related)

theorem rel_isSome {α β : Type} {R : α → β → Prop} {a : Option α} {b : Option β} (related : Option.Rel R a b) :
    b.isSome = a.isSome := by
  cases related <;> rfl

theorem rel_flip {α β : Type} {R : α → β → Prop} {S : β → α → Prop} (implies : ∀ a b, R a b → S b a) {a : Option α}
    {b : Option β} (related : Option.Rel R a b) : Option.Rel S b a := by
  cases related with
  | none => exact .none
  | some related => exact .some (implies _ _ related)

/-- A one-to-one change of names that leaves the reserved ones alone. -/
structure Naming where
  rename : Equiv.Perm String
  reserved : ∀ name ∈ Scope.reserved, rename name = name

namespace Naming

instance : CoeFun Naming fun _ => String → String := ⟨fun r => r.rename⟩

protected def id : Naming := ⟨.refl String, fun _ _ => rfl⟩

def symm (r : Naming) : Naming :=
  ⟨r.rename.symm, fun name member => r.rename.symm_apply_eq.mpr (r.reserved name member).symm⟩

@[simp] theorem id_apply (name : String) : Naming.id name = name := rfl

@[simp] theorem symm_id : Naming.id.symm = .id := rfl

theorem apply_eq_iff (r : Naming) {name other : String} : r name = r other ↔ name = other := r.rename.apply_eq_iff_eq

theorem symm_apply_eq (r : Naming) {name other : String} : r.symm name = other ↔ name = r other :=
  r.rename.symm_apply_eq

/-- The naming of the scope so far out. Behind the local scopes are the globals, whose names are the same. -/
def out (rs : List Naming) (distance : Nat) : Naming := rs.getD distance .id

/-- The naming of the scope that a reference is bound in; without a distance it is that of the globals. -/
def found (rs : List Naming) : Option Nat → Naming
  | some distance => out rs distance
  | none => .id

theorem out_map_symm (rs : List Naming) (distance : Nat) : out (rs.map symm) distance = (out rs distance).symm := by
  simp only [out, List.getD_eq_getElem?_getD, List.getElem?_map]
  cases rs[distance]? <;> rfl

theorem found_map_symm (rs : List Naming) (distance? : Option Nat) :
    found (rs.map symm) distance? = (found rs distance?).symm := by
  cases distance? with
  | none => rfl
  | some distance => exact out_map_symm rs distance

def Plain (rs : List Naming) : Prop := ∀ r ∈ rs, r = .id

theorem Plain.nil : Plain [] := by simp [Plain]

theorem Plain.cons {rs : List Naming} (plain : Plain rs) : Plain (.id :: rs) := List.forall_mem_cons.mpr ⟨rfl, plain⟩

theorem Plain.out {rs : List Naming} (plain : Plain rs) (distance : Nat) : out rs distance = .id := by
  rw [Naming.out, List.getD_eq_getElem?_getD]
  cases here : rs[distance]? with
  | none => rfl
  | some r => exact plain r (List.mem_of_getElem? here)

theorem Plain.found {rs : List Naming} (plain : Plain rs) (distance? : Option Nat) : found rs distance? = .id := by
  cases distance? with
  | none => rfl
  | some distance => exact plain.out distance

end Naming

/-- How two programs may differ. -/
structure Pairing where
  /-- Tokens that say the same. -/
  tokens : Token → Token → Prop
  /-- Tokens that may stand for names of one variable. -/
  names : Token → Token → Prop
  /-- References that may be bound alike, inside scopes with these namings. -/
  refers : List Naming → NodeId → Token → NodeId → Token → Prop
  kind : ∀ {t t' : Token}, tokens t t' → t'.kind = t.kind
  lexeme : ∀ {t t' : Token}, tokens t t' → t'.lexeme = t.lexeme
  tokens_names : ∀ {t t' : Token}, tokens t t' → names t t'
  refers_names : ∀ {rs : List Naming} {id id' : NodeId} {t t' : Token}, refers rs id t id' t' → names t t'

namespace Pairing

variable (p : Pairing)

structure Declares (rs : List Naming) (name name' : Token) : Prop where
  names : p.names name name'
  lexeme : name'.lexeme = Naming.out rs 0 name.lexeme

structure Fixes (rs : List Naming) (name name' : Token) : Prop where
  tokens : p.tokens name name'
  fixed : Naming.out rs 0 name.lexeme = name.lexeme

/-- References are bound as far out in the one program as in the other, and to what goes by their names there. -/
def Agrees (distances distances' : Std.TreeMap NodeId Nat) : Prop :=
  ∀ (rs : List Naming) (id id' : NodeId) (t t' : Token), p.refers rs id t id' t' →
    distances'[id']? = distances[id]? ∧ t'.lexeme = Naming.found rs distances[id]? t.lexeme

def symm : Pairing where
  tokens t' t := p.tokens t t'
  names t' t := p.names t t'
  refers rs id' t' id t := p.refers (rs.map Naming.symm) id t id' t'
  kind said := (p.kind said).symm
  lexeme said := (p.lexeme said).symm
  tokens_names := p.tokens_names
  refers_names := p.refers_names

variable {p}

theorem Agrees.symm {distances distances' : Std.TreeMap NodeId Nat} (agrees : p.Agrees distances distances') :
    p.symm.Agrees distances' distances := by
  intro rs id' id t' t reference
  obtain ⟨same, name⟩ := agrees _ _ _ _ _ reference
  refine ⟨same.symm, ?_⟩
  rw [Naming.found_map_symm, eq_comm, Naming.symm_apply_eq] at name
  rw [same]
  exact name

theorem symm_refers {rs : List Naming} {id id' : NodeId} {t t' : Token} (reference : p.refers rs id t id' t') :
    p.symm.refers (rs.map Naming.symm) id' t' id t := by
  have back : (rs.map Naming.symm).map Naming.symm = rs := by
    rw [List.map_map]
    exact List.map_id rs
  show p.refers ((rs.map Naming.symm).map Naming.symm) id t id' t'
  rw [back]
  exact reference

theorem Declares.symm {rs : List Naming} {name name' : Token} (declares : p.Declares rs name name') :
    p.symm.Declares (rs.map Naming.symm) name' name := by
  refine ⟨declares.names, ?_⟩
  rw [Naming.out_map_symm, eq_comm, Naming.symm_apply_eq]
  exact declares.lexeme

theorem Fixes.symm {rs : List Naming} {name name' : Token} (fixes : p.Fixes rs name name') :
    p.symm.Fixes (rs.map Naming.symm) name' name := by
  refine ⟨fixes.tokens, ?_⟩
  rw [Naming.out_map_symm, Naming.symm_apply_eq, p.lexeme fixes.tokens]
  exact fixes.fixed.symm

theorem fixes_of_plain {rs : List Naming} {name name' : Token} (plain : Naming.Plain rs) (said : p.tokens name name') :
    p.Fixes rs name name' := ⟨said, by rw [plain.out, Naming.id_apply]⟩

theorem declares_of_plain {rs : List Naming} {name name' : Token} (plain : Naming.Plain rs)
    (said : p.tokens name name') : p.Declares rs name name' :=
  ⟨p.tokens_names said, by rw [plain.out, Naming.id_apply, p.lexeme said]⟩

theorem Fixes.lexeme {rs : List Naming} {name name' : Token} (fixes : p.Fixes rs name name') :
    name'.lexeme = Naming.out rs 0 name.lexeme := by
  rw [p.lexeme fixes.tokens, fixes.fixed]

end Pairing

mutual

inductive Expr.Alike (p : Pairing) (rs : List Naming) : Expr → Expr → Prop where
  | assign {id id' : NodeId} {name name' : Token} {value value' : Expr} (reference : p.refers rs id name id' name')
      (assigned : Expr.Alike p rs value value') : Expr.Alike p rs (.assign id name value) (.assign id' name' value')
  | binary {left left' right right' : Expr} {operator operator' : Token} (first : Expr.Alike p rs left left')
      (sign : p.tokens operator operator') (second : Expr.Alike p rs right right') :
      Expr.Alike p rs (.binary left operator right) (.binary left' operator' right')
  | call {callee callee' : Expr} {paren paren' : Token} {arguments arguments' : List Expr}
      (called : Expr.Alike p rs callee callee') (closing : p.tokens paren paren')
      (given : Expr.AllAlike p rs arguments arguments') :
      Expr.Alike p rs (.call callee paren arguments) (.call callee' paren' arguments')
  | get {object object' : Expr} {name name' : Token} (owner : Expr.Alike p rs object object')
      (named : p.tokens name name') : Expr.Alike p rs (.get object name) (.get object' name')
  | grouping {inner inner' : Expr} (grouped : Expr.Alike p rs inner inner') :
      Expr.Alike p rs (.grouping inner) (.grouping inner')
  | constant {value : Constant} : Expr.Alike p rs (.constant value) (.constant value)
  | logical {left left' right right' : Expr} {operator operator' : Token} (first : Expr.Alike p rs left left')
      (word : p.tokens operator operator') (second : Expr.Alike p rs right right') :
      Expr.Alike p rs (.logical left operator right) (.logical left' operator' right')
  | set {object object' value value' : Expr} {name name' : Token} (owner : Expr.Alike p rs object object')
      (named : p.tokens name name') (assigned : Expr.Alike p rs value value') :
      Expr.Alike p rs (.set object name value) (.set object' name' value')
  | super_ {id id' : NodeId} {keyword keyword' method method' : Token}
      (reference : p.refers rs id keyword id' keyword') (named : p.tokens method method') :
      Expr.Alike p rs (.super_ id keyword method) (.super_ id' keyword' method')
  | this_ {id id' : NodeId} {keyword keyword' : Token} (reference : p.refers rs id keyword id' keyword') :
      Expr.Alike p rs (.this_ id keyword) (.this_ id' keyword')
  | unary {operator operator' : Token} {right right' : Expr} (sign : p.tokens operator operator')
      (operand : Expr.Alike p rs right right') : Expr.Alike p rs (.unary operator right) (.unary operator' right')
  | variable_ {id id' : NodeId} {name name' : Token} (reference : p.refers rs id name id' name') :
      Expr.Alike p rs (.variable_ id name) (.variable_ id' name')

inductive Expr.AllAlike (p : Pairing) (rs : List Naming) : List Expr → List Expr → Prop where
  | nil : Expr.AllAlike p rs [] []
  | cons {expr expr' : Expr} {rest rest' : List Expr} (first : Expr.Alike p rs expr expr')
      (others : Expr.AllAlike p rs rest rest') : Expr.AllAlike p rs (expr :: rest) (expr' :: rest')

end

mutual

inductive Stmt.Alike (p : Pairing) : List Naming → Stmt → Stmt → Prop where
  | block {rs : List Naming} (r : Naming) {body body' : List Stmt} (stated : Stmt.AllAlike p (r :: rs) body body') :
      Stmt.Alike p rs (.block body) (.block body')
  | base {rs : List Naming} {name name' : Token} {methods methods' : List FunctionDecl} (named : p.Fixes rs name name')
      (declared : FunctionDecl.AllAlike p (.id :: rs) methods methods') :
      Stmt.Alike p rs (.class_ name none methods) (.class_ name' none methods')
  | derived {rs : List Naming} {name name' : Token} {superclass superclass' : Expr} {methods methods' : List FunctionDecl}
      (named : p.Fixes rs name name') (extended : superclass.Alike p rs superclass')
      (declared : FunctionDecl.AllAlike p (.id :: .id :: rs) methods methods') :
      Stmt.Alike p rs (.class_ name (some superclass) methods) (.class_ name' (some superclass') methods')
  | expression {rs : List Naming} {expr expr' : Expr} (stated : expr.Alike p rs expr') :
      Stmt.Alike p rs (.expression expr) (.expression expr')
  | function {rs : List Naming} {d d' : FunctionDecl} (named : p.Fixes rs d.name d'.name)
      (declared : FunctionDecl.Alike p rs d d') : Stmt.Alike p rs (.function d) (.function d')
  | ifThen {rs : List Naming} {condition condition' : Expr} {thenBranch thenBranch' : Stmt}
      (head : condition.Alike p rs condition') (first : Stmt.Alike p rs thenBranch thenBranch') :
      Stmt.Alike p rs (.ifThen condition thenBranch) (.ifThen condition' thenBranch')
  | ifThenElse {rs : List Naming} {condition condition' : Expr} {thenBranch thenBranch' elseBranch elseBranch' : Stmt}
      (head : condition.Alike p rs condition') (first : Stmt.Alike p rs thenBranch thenBranch')
      (second : Stmt.Alike p rs elseBranch elseBranch') :
      Stmt.Alike p rs (.ifThenElse condition thenBranch elseBranch) (.ifThenElse condition' thenBranch' elseBranch')
  | print_ {rs : List Naming} {expr expr' : Expr} (stated : expr.Alike p rs expr') :
      Stmt.Alike p rs (.print_ expr) (.print_ expr')
  | return_ {rs : List Naming} {keyword keyword' : Token} {value value' : Option Expr} (word : p.tokens keyword keyword')
      (returned : Option.Rel (Expr.Alike p rs) value value') :
      Stmt.Alike p rs (.return_ keyword value) (.return_ keyword' value')
  | var_ {rs : List Naming} {name name' : Token} {initializer initializer' : Option Expr}
      (named : p.Declares rs name name') (initial : Option.Rel (Expr.Alike p rs) initializer initializer') :
      Stmt.Alike p rs (.var_ name initializer) (.var_ name' initializer')
  | while_ {rs : List Naming} {condition condition' : Expr} {body body' : Stmt} (head : condition.Alike p rs condition')
      (repeated : Stmt.Alike p rs body body') : Stmt.Alike p rs (.while_ condition body) (.while_ condition' body')

inductive Stmt.AllAlike (p : Pairing) : List Naming → List Stmt → List Stmt → Prop where
  | nil {rs : List Naming} : Stmt.AllAlike p rs [] []
  | cons {rs : List Naming} {stmt stmt' : Stmt} {rest rest' : List Stmt} (first : Stmt.Alike p rs stmt stmt')
      (others : Stmt.AllAlike p rs rest rest') : Stmt.AllAlike p rs (stmt :: rest) (stmt' :: rest')

inductive FunctionDecl.Alike (p : Pairing) : List Naming → FunctionDecl → FunctionDecl → Prop where
  | mk {rs : List Naming} (r : Naming) {name name' : Token} {params params' : List Token} {body body' : List Stmt}
      (named : p.tokens name name') (entries : List.Forall₂ (p.Declares (r :: rs)) params params')
      (stated : Stmt.AllAlike p (r :: rs) body body') :
      FunctionDecl.Alike p rs (.mk name params body) (.mk name' params' body')

inductive FunctionDecl.AllAlike (p : Pairing) : List Naming → List FunctionDecl → List FunctionDecl → Prop where
  | nil {rs : List Naming} : FunctionDecl.AllAlike p rs [] []
  | cons {rs : List Naming} {d d' : FunctionDecl} {rest rest' : List FunctionDecl} (first : FunctionDecl.Alike p rs d d')
      (others : FunctionDecl.AllAlike p rs rest rest') : FunctionDecl.AllAlike p rs (d :: rest) (d' :: rest')

end

section

variable {p : Pairing}

theorem FunctionDecl.Alike.arity {rs : List Naming} {d d' : FunctionDecl} (alike : d.Alike p rs d') :
    d'.params.length = d.params.length := by
  cases alike with
  | mk r named entries stated => exact entries.length_eq.symm

theorem FunctionDecl.Alike.named {rs : List Naming} {d d' : FunctionDecl} (alike : d.Alike p rs d') :
    p.tokens d.name d'.name := by
  cases alike with
  | mk r named entries stated => exact named

theorem FunctionDecl.Alike.isInitializer {rs : List Naming} {d d' : FunctionDecl} (alike : d.Alike p rs d') :
    d'.isInitializer = d.isInitializer := by
  rw [FunctionDecl.isInitializer, FunctionDecl.isInitializer, p.lexeme alike.named]

mutual

theorem Expr.Alike.symm {rs : List Naming} : ∀ {e e' : Expr}, e.Alike p rs e' → e'.Alike p.symm (rs.map Naming.symm) e
  | _, _, .assign reference assigned => .assign (p.symm_refers reference) assigned.symm
  | _, _, .binary first sign second => .binary first.symm sign second.symm
  | _, _, .call called closing given => .call called.symm closing given.symm
  | _, _, .get owner named => .get owner.symm named
  | _, _, .grouping grouped => .grouping grouped.symm
  | _, _, .constant => .constant
  | _, _, .logical first word second => .logical first.symm word second.symm
  | _, _, .set owner named assigned => .set owner.symm named assigned.symm
  | _, _, .super_ reference named => .super_ (p.symm_refers reference) named
  | _, _, .this_ reference => .this_ (p.symm_refers reference)
  | _, _, .unary sign operand => .unary sign operand.symm
  | _, _, .variable_ reference => .variable_ (p.symm_refers reference)

theorem Expr.AllAlike.symm {rs : List Naming} :
    ∀ {es es' : List Expr}, Expr.AllAlike p rs es es' → Expr.AllAlike p.symm (rs.map Naming.symm) es' es
  | _, _, .nil => .nil
  | _, _, .cons first others => .cons first.symm others.symm

end

theorem Expr.optional_symm {rs : List Naming} {e e' : Option Expr} (alike : Option.Rel (Expr.Alike p rs) e e') :
    Option.Rel (Expr.Alike p.symm (rs.map Naming.symm)) e' e := rel_flip (fun _ _ alike => alike.symm) alike

mutual

theorem Stmt.Alike.symm : ∀ {rs : List Naming} {s s' : Stmt},
    s.Alike p rs s' → s'.Alike p.symm (rs.map Naming.symm) s
  | _, _, _, .block r stated => .block r.symm stated.symm
  | _, _, _, .base named declared => .base named.symm declared.symm
  | _, _, _, .derived named extended declared => .derived named.symm extended.symm declared.symm
  | _, _, _, .expression stated => .expression stated.symm
  | _, _, _, .function named declared => .function named.symm declared.symm
  | _, _, _, .ifThen head first => .ifThen head.symm first.symm
  | _, _, _, .ifThenElse head first second => .ifThenElse head.symm first.symm second.symm
  | _, _, _, .print_ stated => .print_ stated.symm
  | _, _, _, .return_ word returned => .return_ word (Expr.optional_symm returned)
  | _, _, _, .var_ named initial => .var_ named.symm (Expr.optional_symm initial)
  | _, _, _, .while_ head repeated => .while_ head.symm repeated.symm

theorem Stmt.AllAlike.symm : ∀ {rs : List Naming} {ss ss' : List Stmt},
    Stmt.AllAlike p rs ss ss' → Stmt.AllAlike p.symm (rs.map Naming.symm) ss' ss
  | _, _, _, .nil => .nil
  | _, _, _, .cons first others => .cons first.symm others.symm

theorem FunctionDecl.Alike.symm : ∀ {rs : List Naming} {d d' : FunctionDecl},
    d.Alike p rs d' → d'.Alike p.symm (rs.map Naming.symm) d
  | _, _, _, .mk r named entries stated => .mk r.symm named (entries.flip.imp fun _ _ declares => declares.symm) stated.symm

theorem FunctionDecl.AllAlike.symm : ∀ {rs : List Naming} {ds ds' : List FunctionDecl},
    FunctionDecl.AllAlike p rs ds ds' → FunctionDecl.AllAlike p.symm (rs.map Naming.symm) ds' ds
  | _, _, _, .nil => .nil
  | _, _, _, .cons first others => .cons first.symm others.symm

end

structure Pairing.Within (p q : Pairing) : Prop where
  tokens : ∀ {t t' : Token}, p.tokens t t' → q.tokens t t'
  names : ∀ {t t' : Token}, p.names t t' → q.names t t'
  refers : ∀ {rs : List Naming} {id id' : NodeId} {t t' : Token}, p.refers rs id t id' t' → q.refers rs id t id' t'

section

variable {q : Pairing}

mutual

theorem Expr.Alike.mono (within : p.Within q) {rs : List Naming} : ∀ {e e' : Expr}, e.Alike p rs e' → e.Alike q rs e'
  | _, _, .assign reference assigned => .assign (within.refers reference) (assigned.mono within)
  | _, _, .binary first sign second => .binary (first.mono within) (within.tokens sign) (second.mono within)
  | _, _, .call called closing given => .call (called.mono within) (within.tokens closing) (given.mono within)
  | _, _, .get owner named => .get (owner.mono within) (within.tokens named)
  | _, _, .grouping grouped => .grouping (grouped.mono within)
  | _, _, .constant => .constant
  | _, _, .logical first word second => .logical (first.mono within) (within.tokens word) (second.mono within)
  | _, _, .set owner named assigned => .set (owner.mono within) (within.tokens named) (assigned.mono within)
  | _, _, .super_ reference named => .super_ (within.refers reference) (within.tokens named)
  | _, _, .this_ reference => .this_ (within.refers reference)
  | _, _, .unary sign operand => .unary (within.tokens sign) (operand.mono within)
  | _, _, .variable_ reference => .variable_ (within.refers reference)

theorem Expr.AllAlike.mono (within : p.Within q) {rs : List Naming} :
    ∀ {es es' : List Expr}, Expr.AllAlike p rs es es' → Expr.AllAlike q rs es es'
  | _, _, .nil => .nil
  | _, _, .cons first others => .cons (first.mono within) (others.mono within)

end

theorem Pairing.Declares.mono (within : p.Within q) {rs : List Naming} {name name' : Token}
    (declares : p.Declares rs name name') : q.Declares rs name name' := ⟨within.names declares.names, declares.lexeme⟩

theorem Pairing.Fixes.mono (within : p.Within q) {rs : List Naming} {name name' : Token}
    (fixes : p.Fixes rs name name') : q.Fixes rs name name' := ⟨within.tokens fixes.tokens, fixes.fixed⟩

mutual

theorem Stmt.Alike.mono (within : p.Within q) : ∀ {rs : List Naming} {s s' : Stmt}, s.Alike p rs s' → s.Alike q rs s'
  | _, _, _, .block r stated => .block r (stated.mono within)
  | _, _, _, .base named declared => .base (named.mono within) (declared.mono within)
  | _, _, _, .derived named extended declared =>
    .derived (named.mono within) (extended.mono within) (declared.mono within)
  | _, _, _, .expression stated => .expression (stated.mono within)
  | _, _, _, .function named declared => .function (named.mono within) (declared.mono within)
  | _, _, _, .ifThen head first => .ifThen (head.mono within) (first.mono within)
  | _, _, _, .ifThenElse head first second => .ifThenElse (head.mono within) (first.mono within) (second.mono within)
  | _, _, _, .print_ stated => .print_ (stated.mono within)
  | _, _, _, .return_ word returned =>
    .return_ (within.tokens word) (rel_imp (fun _ _ alike => Expr.Alike.mono within alike) returned)
  | _, _, _, .var_ named initial =>
    .var_ (named.mono within) (rel_imp (fun _ _ alike => Expr.Alike.mono within alike) initial)
  | _, _, _, .while_ head repeated => .while_ (head.mono within) (repeated.mono within)

theorem Stmt.AllAlike.mono (within : p.Within q) :
    ∀ {rs : List Naming} {ss ss' : List Stmt}, Stmt.AllAlike p rs ss ss' → Stmt.AllAlike q rs ss ss'
  | _, _, _, .nil => .nil
  | _, _, _, .cons first others => .cons (first.mono within) (others.mono within)

theorem FunctionDecl.Alike.mono (within : p.Within q) :
    ∀ {rs : List Naming} {d d' : FunctionDecl}, d.Alike p rs d' → d.Alike q rs d'
  | _, _, _, .mk r named entries stated =>
    .mk r (within.tokens named) (entries.imp fun _ _ declares => declares.mono within) (stated.mono within)

theorem FunctionDecl.AllAlike.mono (within : p.Within q) :
    ∀ {rs : List Naming} {ds ds' : List FunctionDecl}, FunctionDecl.AllAlike p rs ds ds' → FunctionDecl.AllAlike q rs ds ds'
  | _, _, _, .nil => .nil
  | _, _, _, .cons first others => .cons (first.mono within) (others.mono within)

end

end

structure Pairing.Keeps (p : Pairing) (known : NodeId → Prop) : Prop where
  tokens : ∀ t, p.tokens t t
  refers : ∀ {rs : List Naming} {id : NodeId} (t : Token), Naming.Plain rs → known id → p.refers rs id t id t

variable {known : NodeId → Prop}

mutual

theorem Expr.alike_self (keeps : p.Keeps known) {rs : List Naming} (plain : Naming.Plain rs) :
    ∀ e : Expr, (∀ id ∈ e.ids, known id) → e.Alike p rs e
  | .assign id name value, numbered => by
    simp only [Expr.ids, List.forall_mem_append, List.forall_mem_singleton] at numbered
    exact .assign (keeps.refers name plain numbered.2) (value.alike_self keeps plain numbered.1)
  | .binary left operator right, numbered => by
    simp only [Expr.ids, List.forall_mem_append] at numbered
    exact .binary (left.alike_self keeps plain numbered.1) (keeps.tokens _) (right.alike_self keeps plain numbered.2)
  | .call callee paren arguments, numbered => by
    simp only [Expr.ids, List.forall_mem_append] at numbered
    exact .call (callee.alike_self keeps plain numbered.1) (keeps.tokens _)
      (Expr.allAlike_self keeps plain arguments numbered.2)
  | .get object name, numbered => .get (object.alike_self keeps plain numbered) (keeps.tokens _)
  | .grouping inner, numbered => .grouping (inner.alike_self keeps plain numbered)
  | .constant value, _ => .constant
  | .logical left operator right, numbered => by
    simp only [Expr.ids, List.forall_mem_append] at numbered
    exact .logical (left.alike_self keeps plain numbered.1) (keeps.tokens _) (right.alike_self keeps plain numbered.2)
  | .set object name value, numbered => by
    simp only [Expr.ids, List.forall_mem_append] at numbered
    exact .set (object.alike_self keeps plain numbered.1) (keeps.tokens _) (value.alike_self keeps plain numbered.2)
  | .super_ id keyword method, numbered =>
    .super_ (keeps.refers keyword plain (numbered id (List.mem_singleton.mpr rfl))) (keeps.tokens _)
  | .this_ id keyword, numbered => .this_ (keeps.refers keyword plain (numbered id (List.mem_singleton.mpr rfl)))
  | .unary operator right, numbered => .unary (keeps.tokens _) (right.alike_self keeps plain numbered)
  | .variable_ id name, numbered => .variable_ (keeps.refers name plain (numbered id (List.mem_singleton.mpr rfl)))

theorem Expr.allAlike_self (keeps : p.Keeps known) {rs : List Naming} (plain : Naming.Plain rs) :
    ∀ es : List Expr, (∀ id ∈ Expr.idsAll es, known id) → Expr.AllAlike p rs es es
  | [], _ => .nil
  | expr :: rest, numbered => by
    simp only [Expr.idsAll, List.forall_mem_append] at numbered
    exact .cons (expr.alike_self keeps plain numbered.1) (Expr.allAlike_self keeps plain rest numbered.2)

end

theorem Expr.optional_self (keeps : p.Keeps known) {rs : List Naming} (plain : Naming.Plain rs) (e? : Option Expr)
    (numbered : ∀ id ∈ Expr.idsOptional e?, known id) : Option.Rel (Expr.Alike p rs) e? e? := by
  cases e? with
  | none => exact .none
  | some e => exact .some (e.alike_self keeps plain numbered)

mutual

theorem Stmt.alike_self (keeps : p.Keeps known) :
    ∀ {rs : List Naming}, Naming.Plain rs → ∀ s : Stmt, (∀ id ∈ s.ids, known id) → s.Alike p rs s
  | _, plain, .block body, numbered => .block .id (Stmt.allAlike_self keeps plain.cons body numbered)
  | _, plain, .class_ name none methods, numbered =>
    .base (Pairing.fixes_of_plain plain (keeps.tokens _)) (FunctionDecl.allAlike_self keeps plain.cons methods numbered)
  | _, plain, .class_ name (some superclass) methods, numbered => by
    simp only [Stmt.ids, List.forall_mem_append] at numbered
    exact .derived (Pairing.fixes_of_plain plain (keeps.tokens _)) (superclass.alike_self keeps plain numbered.1)
      (FunctionDecl.allAlike_self keeps plain.cons.cons methods numbered.2)
  | _, plain, .expression expr, numbered => .expression (expr.alike_self keeps plain numbered)
  | _, plain, .function d, numbered =>
    .function (Pairing.fixes_of_plain plain (keeps.tokens _)) (d.alike_self keeps plain numbered)
  | _, plain, .ifThen condition thenBranch, numbered => by
    simp only [Stmt.ids, List.forall_mem_append] at numbered
    exact .ifThen (condition.alike_self keeps plain numbered.1) (thenBranch.alike_self keeps plain numbered.2)
  | _, plain, .ifThenElse condition thenBranch elseBranch, numbered => by
    simp only [Stmt.ids, List.forall_mem_append] at numbered
    exact .ifThenElse (condition.alike_self keeps plain numbered.1) (thenBranch.alike_self keeps plain numbered.2.1)
      (elseBranch.alike_self keeps plain numbered.2.2)
  | _, plain, .print_ expr, numbered => .print_ (expr.alike_self keeps plain numbered)
  | _, plain, .return_ keyword value, numbered => .return_ (keeps.tokens _) (Expr.optional_self keeps plain value numbered)
  | _, plain, .var_ name initializer, numbered =>
    .var_ (Pairing.declares_of_plain plain (keeps.tokens _)) (Expr.optional_self keeps plain initializer numbered)
  | _, plain, .while_ condition body, numbered => by
    simp only [Stmt.ids, List.forall_mem_append] at numbered
    exact .while_ (condition.alike_self keeps plain numbered.1) (body.alike_self keeps plain numbered.2)

theorem Stmt.allAlike_self (keeps : p.Keeps known) :
    ∀ {rs : List Naming}, Naming.Plain rs → ∀ ss : List Stmt, (∀ id ∈ Stmt.idsAll ss, known id) → Stmt.AllAlike p rs ss ss
  | _, _, [], _ => .nil
  | _, plain, stmt :: rest, numbered => by
    simp only [Stmt.idsAll, List.forall_mem_append] at numbered
    exact .cons (stmt.alike_self keeps plain numbered.1) (Stmt.allAlike_self keeps plain rest numbered.2)

theorem FunctionDecl.alike_self (keeps : p.Keeps known) :
    ∀ {rs : List Naming}, Naming.Plain rs → ∀ d : FunctionDecl, (∀ id ∈ d.ids, known id) → d.Alike p rs d
  | _, plain, .mk name params body, numbered => by
    refine .mk .id (keeps.tokens _) ?_ (Stmt.allAlike_self keeps plain.cons body numbered)
    exact List.forall₂_same.mpr fun name _ => Pairing.declares_of_plain plain.cons (keeps.tokens name)

theorem FunctionDecl.allAlike_self (keeps : p.Keeps known) :
    ∀ {rs : List Naming}, Naming.Plain rs → ∀ ds : List FunctionDecl, (∀ id ∈ FunctionDecl.idsAll ds, known id) →
    FunctionDecl.AllAlike p rs ds ds
  | _, _, [], _ => .nil
  | _, plain, method :: rest, numbered => by
    simp only [FunctionDecl.idsAll, List.forall_mem_append] at numbered
    exact .cons (method.alike_self keeps plain numbered.1) (FunctionDecl.allAlike_self keeps plain rest numbered.2)

end

end
end Lox
