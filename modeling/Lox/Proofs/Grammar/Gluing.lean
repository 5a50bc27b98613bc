import Lox.Proofs.Grammar.Ladder

namespace Lox.Grammar

variable {fits : Nat → Prop} {ts us zs : List Token}

def Begins (kinds : List Kind) (ts : List Token) : Prop := ∃ token ∈ ts.head?, token.kind ∈ kinds

theorem Begins.of_append {kinds : List Kind} (begins : Begins kinds (ts ++ us)) (some : ts ≠ []) : Begins kinds ts := by
  rwa [Begins, List.head?_append_of_ne_nil _ some] at begins

theorem SpellsExpr.ne_nil {form : ExprForm} (spelled : SpellsExpr fits form ts) (some : form ≠ .arguments []) : ts ≠ [] := by
  obtain ⟨token, us, rfl, -⟩ := spelled.starts some
  exact List.cons_ne_nil _ _

theorem SpellsExpr.at_operand (level : Level) {expr : Expr} (spelled : SpellsExpr fits (.unary expr) ts) :
    SpellsExpr fits (level.operandForm expr) ts := by
  unfold Level.operandForm
  cases level.tighter? with
  | none => exact spelled
  | some tighter =>
    have height : (Rung.infix_ tighter).height ≤ Rung.unary.height := Nat.le_succ_of_le (Nat.sub_le 6 _)
    exact descend (.infix_ tighter) height spelled

theorem SpellsExpr.at_or {expr : Expr} (spelled : SpellsExpr fits (.call expr) ts) :
    SpellsExpr fits (.infix_ .or expr) ts := by
  have height : (Rung.infix_ .or).height ≤ Rung.call.height := by decide
  exact descend (.infix_ .or) height spelled

theorem SpellsExpr.snoc {low level : Level} (order : level.rank ≤ low.rank) {left right : Expr} {sign : Token}
    {ts us : List Token} (first : SpellsExpr fits (.infix_ low left) ts) (between : sign.kind ∈ level.operators)
    (second : SpellsExpr fits (.unary right) us) : ∃ expr, SpellsExpr fits (.infix_ low expr) (ts ++ sign :: us) := by
  by_cases same : level = low
  · subst same
    exact ⟨_, .infix_ first (.self between) (second.at_operand level)⟩
  · cases next : low.tighter? with
    | none =>
      exfalso
      cases low <;> cases next
      cases level <;> first | exact same rfl | exact absurd order (by decide)
    | some tighter =>
      have below := Level.rank_tighter next
      have order' : level.rank ≤ tighter.rank := by
        cases low <;> cases next <;> cases level <;> first | exact absurd rfl same | (revert order; decide)
      have form (expr : Expr) : low.operandForm expr = .infix_ tighter expr := by
        unfold Level.operandForm
        rw [next]
      cases first with
      | operand alone =>
        rw [form] at alone
        obtain ⟨expr, spelled⟩ := snoc order' alone between second
        exact ⟨expr, .operand (form expr ▸ spelled)⟩
      | infix_ first between' last =>
        rw [form] at last
        obtain ⟨expr, spelled⟩ := snoc order' last between second
        rw [List.append_assoc, List.cons_append]
        exact ⟨_, .infix_ first between' (form expr ▸ spelled)⟩
termination_by low.rank

def Continues (fits : Nat → Prop) (us : List Token) : Prop :=
  ∀ {ts : List Token} {left : Expr} {sign : Token} {level : Level}, SpellsExpr fits (.infix_ .or left) ts →
    sign.kind ∈ level.operators → ∃ expr, SpellsExpr fits (.infix_ .or expr) (ts ++ sign :: us)

/-- The form, if it is one of an operand, with the given property of its tokens. -/
def ExprForm.Operand (holds : Prop) : ExprForm → Prop
  | .infix_ .. | .unary _ => holds
  | _ => True

theorem ExprForm.operand_operandForm {holds : Prop} {level : Level} {expr : Expr}
    (operand : (level.operandForm expr).Operand holds) : holds := by
  cases level <;> exact operand

theorem SpellsExpr.continues {form : ExprForm} (spelled : SpellsExpr fits form us) : form.Operand (Continues fits us) := by
  induction spelled with
  | @operand level _ _ _ ih => cases level <;> exact ih
  | infix_ _ between _ ih₁ ih₂ =>
    intro ts left sign level before operator
    obtain ⟨expr, spelled⟩ := ih₁ before operator
    obtain ⟨expr', spelled'⟩ := ExprForm.operand_operandForm ih₂ spelled between.kind
    exact ⟨expr', by simpa using spelled'⟩
  | prefixed before operand =>
    intro ts left sign level first between
    exact first.snoc level.rank_le between (.prefixed before operand)
  | called call =>
    intro ts left sign level first between
    exact first.snoc level.rank_le between (.called call)
  | _ => trivial

/-- The form, spelled with more tokens. -/
def ExprForm.Extended (fits : Nat → Prop) (ts : List Token) : ExprForm → Prop
  | .infix_ level _ => ∃ expr, SpellsExpr fits (.infix_ level expr) ts
  | .unary _ => ∃ expr, SpellsExpr fits (.unary expr) ts
  | .call _ => ∃ expr, SpellsExpr fits (.call expr) ts
  | _ => True

theorem SpellsExpr.extended (grows : ∀ {ts : List Token} {callee : Expr}, SpellsExpr fits (.call callee) ts →
      ∃ expr, SpellsExpr fits (.call expr) (ts ++ zs))
    {form : ExprForm} (spelled : SpellsExpr fits form ts) : form.Extended fits (ts ++ zs) := by
  induction spelled with
  | @operand level _ _ _ ih =>
    obtain ⟨expr, spelled⟩ : ∃ expr, SpellsExpr fits (level.operandForm expr) _ := by cases level <;> exact ih
    exact ⟨expr, .operand spelled⟩
  | @infix_ level _ _ _ _ _ _ first between _ _ ih =>
    obtain ⟨expr, spelled⟩ : ∃ expr, SpellsExpr fits (level.operandForm expr) _ := by cases level <;> exact ih
    rw [List.append_assoc, List.cons_append]
    exact ⟨_, .infix_ first between spelled⟩
  | prefixed before _ ih =>
    obtain ⟨expr, spelled⟩ := ih
    exact ⟨_, .prefixed before spelled⟩
  | called _ ih =>
    obtain ⟨expr, spelled⟩ := ih
    exact ⟨expr, .called spelled⟩
  | primary first => exact grows (.primary first)
  | get owner point property => exact grows (.get owner point property)
  | call first opened given closed => exact grows (.call first opened given closed)
  | _ => trivial

/-- The signs that can begin an expression and can stand behind one. -/
def glues : List Kind := [.leftParen, .minus]

/-- The tokens, if they begin so, continue every expression that is no assignment; those of a call continue every call. -/
def ExprForm.Glues (fits : Nat → Prop) (us : List Token) : ExprForm → Prop
  | .infix_ .. | .unary _ =>
    Begins glues us → ∀ {ts : List Token} {left : Expr}, SpellsExpr fits (.infix_ .or left) ts →
      ∃ expr, SpellsExpr fits (.infix_ .or expr) (ts ++ us)
  | .call _ | .primary _ =>
    Begins glues us → ∀ {ts : List Token} {callee : Expr}, SpellsExpr fits (.call callee) ts →
      ∃ expr, SpellsExpr fits (.call expr) (ts ++ us)
  | _ => True

theorem SpellsExpr.glues (one : fits 1) {form : ExprForm} (spelled : SpellsExpr fits form us) : form.Glues fits us := by
  induction spelled with
  | @operand level _ _ _ ih => cases level <;> exact ih
  | infix_ first between second ih =>
    intro begins ts left before
    obtain ⟨expr, spelled⟩ := ih (begins.of_append (first.ne_nil (by simp))) before
    obtain ⟨expr', spelled'⟩ := ExprForm.operand_operandForm second.continues spelled between.kind
    exact ⟨expr', by simpa using spelled'⟩
  | @prefixed _ sign _ _ before operand =>
    rintro ⟨token, front, kind⟩ ts left first
    cases front
    have minus : sign.kind = .minus := by
      have either := before.kind
      simp only [Grammar.glues, List.mem_cons, List.not_mem_nil, or_false] at kind either
      rcases kind with kind | kind
      · rw [kind] at either
        simp at either
      · exact kind
    exact first.snoc (Level.rank_le .term) (by rw [minus]; decide) operand
  | called _ ih =>
    intro begins ts left first
    exact first.extended (ih begins)
  | primary _ ih => exact ih
  | get owner point property ih =>
    intro begins ts callee first
    obtain ⟨expr, spelled⟩ := ih (begins.of_append (owner.ne_nil (by simp))) first
    rw [← List.append_assoc]
    exact ⟨_, .get spelled point property⟩
  | call callee opened given closed ih =>
    intro begins ts callee' first
    obtain ⟨expr, spelled⟩ := ih (begins.of_append (callee.ne_nil (by simp))) first
    rw [← List.append_assoc]
    exact ⟨_, .call spelled opened given closed⟩
  | grouping opened inner closed =>
    -- The parentheses are read as those of a call with one argument.
    intro _ ts callee first
    have given := SpellsExpr.someArguments (show fits [_].length from one) (.lastEntry inner)
    exact ⟨_, .call first opened given (.self (List.mem_singleton.mpr closed))⟩
  | constant stands =>
    rintro ⟨token, front, kind⟩
    cases front
    exfalso
    unfold constantOf? at stands
    simp only [Grammar.glues, List.mem_cons, List.not_mem_nil, or_false] at kind
    rcases kind with kind | kind <;> rw [kind] at stands <;> cases stands
  | super_ front | this_ front | variable_ front =>
    rintro ⟨token, same, kind⟩
    cases same
    rw [front.is] at kind
    exact absurd kind (by decide)
  | _ => trivial

/-- Nothing, or one refused target. -/
def OneRefusal (misreadings : List Misreading) : Prop :=
  misreadings = [] ∨ ∃ equals, misreadings = [⟨equals, .assignmentTarget⟩]

structure Cursor.Arrives (c next : Cursor) (rest : List Token) (new : List Misreading) : Prop where
  pending : next.pending = rest
  stop : next.stop = c.stop
  misreadings : next.misreadings = new ++ c.misreadings

namespace Cursor.Arrives

variable {c d e : Cursor} {rest rest' : List Token} {new new' : List Misreading}

theorem of_reaches {quiet : Prop} (reached : c.Reaches quiet d rest) (known : quiet) (led : c.Leads d) :
    c.Arrives d rest [] :=
  ⟨reached.1, led.stop, reached.2 known⟩

theorem trans (first : c.Arrives d rest new) (second : d.Arrives e rest' new') : c.Arrives e rest' (new' ++ new) := by
  refine ⟨second.pending, second.stop.trans first.stop, ?_⟩
  rw [second.misreadings, first.misreadings, List.append_assoc]

theorem after (second : d.Arrives e rest' new) (first : c.Arrives d rest []) : c.Arrives e rest' new := by
  simpa using first.trans second

end Cursor.Arrives

variable {c : Cursor} {rest : List Token}

theorem isTarget_bare (expr : Expr) : isTarget expr.bare = isTarget expr := by cases expr <;> rfl

theorem isTarget_of_bare {expr expr' : Expr} (same : expr'.bare = expr.bare) : isTarget expr' = isTarget expr := by
  rw [← isTarget_bare, same, isTarget_bare]

theorem SpellsExpr.reads_assignment (limits : Limits fits) {target : Expr} {equals : Token}
    (first : SpellsExpr fits (.infix_ .or target) ts) (sign : equals.kind = .equal)
    (front : c.pending = ts ++ equals :: rest) :
    ∃ c₁, c.Arrives c₁ rest [] ∧ ∀ value c₂, ReadsExpr (.expression value) c₁ c₂ →
      ∃ expr c₃, ReadsExpr (.expression expr) c c₃ ∧
        c₂.Arrives c₃ c₂.pending (if isTarget target then [] else [⟨equals, .assignmentTarget⟩]) := by
  obtain ⟨target', c₀, read, same, reached₀⟩ := first.reread.infix_ front (.cons _ (by rw [sign]; decide))
  obtain ⟨c₁, taken, reached₁⟩ := reached₀.take sign
  refine ⟨c₁, .of_reaches reached₁ limits (read.leads.trans taken.leads), fun value c₂ assigned => ?_⟩
  rw [← isTarget_of_bare same]
  cases accepted : isTarget target' with
  | false => exact ⟨_, _, .misassignment read taken assigned accepted, rfl, rfl, rfl⟩
  | true =>
    cases target' with
    | variable_ => exact ⟨_, _, .assignment read taken assigned, rfl, rfl, rfl⟩
    | get => exact ⟨_, _, .setting read taken assigned, rfl, rfl, rfl⟩
    | _ => cases accepted

theorem SpellsExpr.reads_glued (limits : Limits fits) (one : fits 1) {left right : Expr} {c : Cursor}
    {ts us rest : List Token} (first : SpellsExpr fits (.expression left) ts)
    (second : SpellsExpr fits (.expression right) us) (begins : Begins Grammar.glues us)
    (front : c.pending = ts ++ (us ++ rest)) (ends : Ends 8 rest) :
    ∃ expr c' new, ReadsExpr (.expression expr) c c' ∧ OneRefusal new ∧ c.Arrives c' rest new := by
  cases first with
  | unassigned value =>
    cases second with
    | unassigned value' =>
      obtain ⟨whole, spelled⟩ := value'.glues one begins value
      obtain ⟨expr, c', read, -, reached⟩ := (SpellsExpr.unassigned spelled).reread c rest (by simpa using front) ends
      exact ⟨expr, c', [], read, .inl rfl, .of_reaches reached limits read.leads⟩
    | assign target =>
      obtain ⟨token, same, kind⟩ := begins
      cases same
      rw [target.is] at kind
      exact absurd kind (by decide)
    | @set _ _ dot name equals _ os _ owner point target sign assigned =>
      -- The whole left side is now one expression, which may be no target.
      have grows {ts : List Token} {callee : Expr} (call : SpellsExpr fits (.call callee) ts) :
          ∃ expr, SpellsExpr fits (.call expr) (ts ++ (os ++ [dot, name])) := by
        obtain ⟨expr, spelled⟩ := owner.glues one (begins.of_append (owner.ne_nil (by simp))) call
        rw [← List.append_assoc]
        exact ⟨_, .get spelled point target⟩
      obtain ⟨whole, spelled⟩ := value.extended grows
      obtain ⟨c₁, arrived, reads⟩ := spelled.reads_assignment limits sign (by simpa using front)
      obtain ⟨value', c₂, read, -, reached⟩ := assigned.reread c₁ rest arrived.pending ends
      obtain ⟨expr, c', read', last⟩ := reads _ _ read
      have onward := (arrived.trans (.of_reaches reached limits read.leads)).trans last
      rw [reached.1] at onward
      refine ⟨expr, c', _, read', ?_, onward⟩
      split
      · exact .inl rfl
      · exact .inr ⟨equals, rfl⟩
  | @assign _ name equals named _ ts target sign assigned =>
    have variable_ : SpellsExpr fits (.infix_ .or (.variable_ 0 named)) [name] :=
      (SpellsExpr.primary (.variable_ target)).at_or
    obtain ⟨c₁, arrived, reads⟩ := variable_.reads_assignment limits sign front
    obtain ⟨value', c₂, new, read, refused, last⟩ := reads_glued limits one assigned second begins arrived.pending ends
    obtain ⟨expr, c', read', same⟩ := reads _ _ read
    have onward := (last.after arrived).trans same
    rw [last.pending] at onward
    exact ⟨expr, c', new, read', refused, onward⟩
  | @set object _ dot name equals named os ts owner point target sign assigned =>
    have property : SpellsExpr fits (.infix_ .or (.get object named)) (os ++ [dot, name]) :=
      (SpellsExpr.get owner point target).at_or
    obtain ⟨c₁, arrived, reads⟩ := property.reads_assignment limits sign (by simpa using front)
    obtain ⟨value', c₂, new, read, refused, last⟩ := reads_glued limits one assigned second begins arrived.pending ends
    obtain ⟨expr, c', read', same⟩ := reads _ _ read
    have onward := (last.after arrived).trans same
    rw [last.pending] at onward
    exact ⟨expr, c', new, read', refused, onward⟩
termination_by ts.length

end Lox.Grammar
