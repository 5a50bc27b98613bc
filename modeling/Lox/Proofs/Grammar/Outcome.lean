import Lox.Grammar.Expression

namespace Lox.Grammar

namespace Cursor

def Takes (c : Cursor) (kinds : List Kind) (token : Token) (next : Cursor) : Prop :=
  token.kind ∈ kinds ∧ c.pending = token :: next.pending ∧ next = { c with pending := next.pending }

def Lacks (c : Cursor) (kinds : List Kind) : Prop :=
  ∀ token ∈ c.pending.head?, token.kind ∉ kinds

structure Leads (c next : Cursor) : Prop where
  pending : next.pending <:+ c.pending
  stop : next.stop = c.stop
  nextId : c.nextId ≤ next.nextId
  misreadings : c.misreadings <:+ next.misreadings

theorem Leads.refl (c : Cursor) : c.Leads c :=
  ⟨List.suffix_refl _, rfl, Nat.le_refl _, List.suffix_refl _⟩

theorem Leads.trans {c d e : Cursor} (first : c.Leads d) (second : d.Leads e) : c.Leads e :=
  ⟨second.pending.trans first.pending, second.stop.trans first.stop,
    Nat.le_trans first.nextId second.nextId, first.misreadings.trans second.misreadings⟩

theorem Leads.numbered (c : Cursor) : c.Leads c.numbered :=
  ⟨List.suffix_refl _, rfl, Nat.le_succ _, List.suffix_refl _⟩

theorem Leads.record (c : Cursor) (token : Token) (fault : SyntaxFault) :
    c.Leads (c.record token fault) :=
  ⟨List.suffix_refl _, rfl, Nat.le_refl _, List.suffix_cons _ _⟩

theorem Leads.limit (c : Cursor) (count : Nat) (fault : SyntaxFault) :
    c.Leads (Grammar.limit c count fault) := by
  unfold Grammar.limit
  split
  · exact .record ..
  · exact .refl c

theorem Takes.leads {c next : Cursor} {kinds : List Kind} {token : Token}
    (taken : c.Takes kinds token next) : c.Leads next := by
  obtain ⟨-, front, rest⟩ := taken
  rw [rest]
  refine ⟨?_, rfl, Nat.le_refl _, List.suffix_refl _⟩
  rw [front]
  exact List.suffix_cons _ _

theorem Takes.pending_ne {c next : Cursor} {kinds : List Kind} {token : Token}
    (taken : c.Takes kinds token next) : c.pending ≠ [] := by
  rw [taken.2.1]
  exact List.cons_ne_nil _ _

theorem take?_eq_none {c : Cursor} : c.take? = none ↔ c.pending = [] := by
  unfold take?
  split <;> simp_all

theorem take?_eq_some {c : Cursor} (taken : Taken c) : c.take? = some taken := by
  obtain ⟨token, rest, front⟩ := taken
  unfold take?
  split
  · rename_i none
    rw [front] at none
    cases none
  · rename_i token' rest' front'
    rw [front] at front'
    cases front'
    rfl

theorem Taken.takes {c : Cursor} {kinds : List Kind} (taken : Taken c)
    (kind : taken.token.kind ∈ kinds) : c.Takes kinds taken.token taken.next :=
  ⟨kind, taken.front, rfl⟩

theorem accept?_eq_some {c : Cursor} {kinds : List Kind} {taken : Taken c} :
    c.accept? kinds = some taken ↔ taken.token.kind ∈ kinds := by
  unfold accept?
  rw [take?_eq_some taken]
  simp [Option.filter]

theorem accept?_eq_none {c : Cursor} {kinds : List Kind} :
    c.accept? kinds = none ↔ c.Lacks kinds := by
  unfold accept? Lacks
  cases front : c.pending with
  | nil => simp [take?_eq_none.mpr front]
  | cons token rest => simp [take?_eq_some ⟨token, rest, front⟩, Option.filter]

theorem Takes.taken {c next : Cursor} {kinds : List Kind} {token : Token}
    (takes : c.Takes kinds token next) :
    ∃ taken : Taken c, c.accept? kinds = some taken ∧ taken.token = token ∧ taken.next = next := by
  obtain ⟨kind, front, rest⟩ := takes
  exact ⟨⟨token, next.pending, front⟩, accept?_eq_some.mpr kind, rfl, rest.symm⟩

theorem sees_eq_true {c : Cursor} {kind : Kind} :
    c.sees kind = true ↔ ∃ token next, c.Takes [kind] token next := by
  unfold sees
  constructor
  · intro seen
    obtain ⟨taken, found⟩ := Option.isSome_iff_exists.mp seen
    exact ⟨_, _, taken.takes (accept?_eq_some.mp found)⟩
  · rintro ⟨token, next, takes⟩
    obtain ⟨taken, found, -⟩ := takes.taken
    simp [found]

theorem sees_eq_false {c : Cursor} {kind : Kind} : c.sees kind = false ↔ c.Lacks [kind] := by
  rw [← accept?_eq_none]
  simp [sees]

theorem atEnd_iff {c : Cursor} : c.atEnd = true ↔ c.pending = [] := by
  simp [atEnd]

end Cursor

namespace Reading

variable {start : Cursor} {gain : Nat} {α β : Type}

def Yields (reading : Reading start gain α) (value : α) (next : Cursor) : Prop :=
  ∃ progress, reading = .read value next progress

/-- If the reading ends with a value, `Post` holds of it and of the cursor; in any case it only reads on. -/
def Obeys (reading : Reading start gain α) (Post : α → Cursor → Prop) : Prop :=
  match reading with
  | .read value next _ => Post value next
  | .failed _ next _ => start.Leads next

theorem Obeys.of_yields {reading : Reading start gain α} {Post : α → Cursor → Prop} {value : α}
    {next : Cursor} (obeys : reading.Obeys Post) (yields : reading.Yields value next) :
    Post value next := by
  obtain ⟨progress, rfl⟩ := yields
  exact obeys

theorem Obeys.mono {reading : Reading start gain α} {Post Post' : α → Cursor → Prop}
    (obeys : reading.Obeys Post) (weaker : ∀ value next, Post value next → Post' value next) :
    reading.Obeys Post' := by
  cases reading with
  | read value next progress => exact weaker _ _ obeys
  | failed misreading next progress => exact obeys

theorem Obeys.andThen {gain' : Nat} {reading : Reading start gain α} {Post : α → Cursor → Prop}
    {Post' : β → Cursor → Prop}
    {continuation : α → (next : Cursor) → next.size + gain ≤ start.size → Reading next gain' β}
    (obeys : reading.Obeys Post) (leads : ∀ value next, Post value next → start.Leads next)
    (continues : ∀ value next progress, Post value next → (continuation value next progress).Obeys Post') :
    (reading.andThen continuation).Obeys Post' := by
  cases reading with
  | failed misreading next progress => exact obeys
  | read value next progress =>
    have rest := continues value next progress obeys
    have led := leads value next obeys
    unfold Reading.andThen
    dsimp only
    generalize continuation value next progress = reading at rest ⊢
    cases reading with
    | read value last progress' => exact rest
    | failed misreading last progress' => exact led.trans rest

theorem Obeys.map {reading : Reading start gain α} {f : α → β} {Post : β → Cursor → Prop}
    (obeys : reading.Obeys fun value next => Post (f value) next) : (reading.map f).Obeys Post := by
  cases reading with
  | read value next progress => exact obeys
  | failed misreading next progress => exact obeys

theorem Obeys.weaken {reading : Reading start gain α} {Post : α → Cursor → Prop}
    (obeys : reading.Obeys Post) : reading.weaken.Obeys Post := by
  cases reading with
  | read value next progress => exact obeys
  | failed misreading next progress => exact obeys

theorem Obeys.after {total : Nat} [AtMostOne total] {taken : Cursor.Taken start} {reading : Reading taken.next gain α}
    {Post : α → Cursor → Prop} (obeys : reading.Obeys Post) :
    (Reading.after taken reading : Reading start total α).Obeys Post := by
  have led : start.Leads taken.next :=
    (taken.takes (List.mem_singleton.mpr rfl) : start.Takes [taken.token.kind] _ _).leads
  cases reading with
  | read value next progress => exact obeys
  | failed misreading next progress => exact led.trans obeys

theorem Obeys.ofSameSize {other : Cursor} {same : other.size = start.size}
    {reading : Reading other gain α} {Post : α → Cursor → Prop} (led : start.Leads other)
    (obeys : reading.Obeys Post) : (Reading.ofSameSize same reading).Obeys Post := by
  cases reading with
  | read value next progress => exact obeys
  | failed misreading next progress => exact led.trans obeys

theorem obeys_fail {fault : SyntaxFault} {Post : α → Cursor → Prop} :
    (start.fail gain fault : Reading start gain α).Obeys Post := Cursor.Leads.refl start

theorem obeys_expect (kind : Kind) (fault : SyntaxFault) :
    (start.expect kind fault).Obeys fun token next => start.Takes [kind] token next := by
  unfold Cursor.expect
  cases found : start.accept? [kind] with
  | none => exact obeys_fail
  | some taken => exact taken.takes (Cursor.accept?_eq_some.mp found)

theorem obeys_expect_then {kind : Kind} {fault : SyntaxFault} {Post : α → Cursor → Prop}
    {continuation : Token → (next : Cursor) → next.size + 1 ≤ start.size → Reading next gain α}
    (continues : ∀ token next progress, start.Takes [kind] token next → (continuation token next progress).Obeys Post) :
    ((start.expect kind fault).andThen continuation).Obeys Post :=
  (obeys_expect kind fault).andThen (fun _ _ taken => taken.leads) continues

theorem yields_done {value : α} : (done value : Reading start 0 α).Yields value start := ⟨_, rfl⟩

theorem Yields.andThen {gain' : Nat} {reading : Reading start gain α} {value : α} {result : β}
    {next last : Cursor}
    {continuation : α → (next : Cursor) → next.size + gain ≤ start.size → Reading next gain' β}
    (yields : reading.Yields value next)
    (continues : ∀ progress, (continuation value next progress).Yields result last) :
    (reading.andThen continuation).Yields result last := by
  obtain ⟨progress, rfl⟩ := yields
  obtain ⟨progress', rest⟩ := continues progress
  unfold Reading.andThen
  dsimp only
  rw [rest]
  exact ⟨_, rfl⟩

theorem Yields.map {reading : Reading start gain α} {value : α} {next : Cursor} (f : α → β)
    (yields : reading.Yields value next) : (reading.map f).Yields (f value) next := by
  obtain ⟨progress, rfl⟩ := yields
  exact ⟨_, rfl⟩

theorem Yields.weaken {reading : Reading start gain α} {value : α} {next : Cursor}
    (yields : reading.Yields value next) : reading.weaken.Yields value next := by
  obtain ⟨progress, rfl⟩ := yields
  exact ⟨_, rfl⟩

theorem Yields.after {total : Nat} [AtMostOne total] {taken : Cursor.Taken start} {reading : Reading taken.next gain α}
    {value : α} {next : Cursor} (yields : reading.Yields value next) :
    (Reading.after taken reading : Reading start total α).Yields value next := by
  obtain ⟨progress, rfl⟩ := yields
  exact ⟨_, rfl⟩

theorem Yields.ofSameSize {other : Cursor} {same : other.size = start.size}
    {reading : Reading other gain α} {value : α} {next : Cursor} (yields : reading.Yields value next) :
    (Reading.ofSameSize same reading).Yields value next := by
  obtain ⟨progress, rfl⟩ := yields
  exact ⟨_, rfl⟩

theorem yields_expect {kind : Kind} {fault : SyntaxFault} {token : Token} {next : Cursor}
    (takes : start.Takes [kind] token next) : (start.expect kind fault).Yields token next := by
  obtain ⟨taken, found, rfl, rfl⟩ := takes.taken
  unfold Cursor.expect
  rw [found]
  exact ⟨_, rfl⟩

end Reading
end Lox.Grammar
