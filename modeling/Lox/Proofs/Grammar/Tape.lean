import Lox.Grammar.Tape
import Lox.Proofs.Grammar.ComplaintOrder

namespace Lox

open Grammar

/-- A list of tokens, cut at its first end token. -/
structure EndedTokens where
  body : List Token
  stop : Token
  after : List Token
  plain : ∀ token ∈ body, token.isEof = false
  ended : stop.isEof = true

def EndedTokens.all (s : EndedTokens) : List Token := s.body ++ s.stop :: s.after

def EndedTokens.tape (s : EndedTokens) : Tape := ⟨s.all⟩

namespace EndedTokens

theorem exists_of_mem {tokens : List Token} (closed : ∃ token ∈ tokens, token.isEof = true) :
    ∃ s : EndedTokens, s.all = tokens := by
  obtain ⟨stop, found⟩ := Option.isSome_iff_exists.mp (List.find?_isSome.mpr closed)
  obtain ⟨ended, body, after, rfl, plain⟩ := List.find?_eq_some_iff_append.mp found
  exact ⟨⟨body, stop, after, fun token among => by simpa using plain token among, ended⟩, rfl⟩

variable (s : EndedTokens)

theorem findIdx_all : s.all.findIdx Token.isEof = s.body.length := by
  rw [all, List.findIdx_append, List.findIdx_eq_length.mpr s.plain, if_neg (Nat.lt_irrefl _), List.findIdx_cons, s.ended]
  exact Nat.zero_add _

theorem exists_after {others : List Token} (same : others.take (s.body.length + 1) = s.all.take (s.body.length + 1)) :
    ∃ after, { s with after := after }.all = others := by
  refine ⟨others.drop (s.body.length + 1), ?_⟩
  have front : others.take (s.body.length + 1) = s.body ++ [s.stop] := by
    rw [same, all, List.take_append]
    simp
  rw [all, ← List.singleton_append, ← List.append_assoc, ← front, List.take_append_drop]

theorem ofTokens_all (nextId : NodeId) : Cursor.ofTokens s.all nextId = ⟨s.body, s.stop, nextId, []⟩ := by
  rw [all, Cursor.ofTokens_append nextId s.plain, List.takeWhile_cons_of_neg (by simp [s.ended]), List.append_nil,
    Cursor.ofTokens, List.find?_cons_of_pos s.ended]
  rfl

end EndedTokens

namespace Grammar.Cursor

variable {c : Cursor}

theorem accept?_nil : c.accept? [] = none := accept?_eq_none.mpr fun _ _ => List.not_mem_nil

theorem isSome_accept?_cons (kind : Kind) (kinds : List Kind) :
    (c.accept? (kind :: kinds)).isSome = (c.sees kind || (c.accept? kinds).isSome) := by
  unfold sees accept?
  cases c.take? with
  | none => rfl
  | some front => by_cases same : front.token.kind = kind <;> simp [Option.filter, same]

theorem sees_of_accept?_none {kinds : List Kind} (none : c.accept? kinds = none) {kind : Kind} (among : kind ∈ kinds) :
    c.sees kind = false := by
  refine sees_eq_false.mpr fun token front same => ?_
  rw [← List.mem_singleton.mp same] at among
  exact accept?_eq_none.mp none token front among

theorem Taken.sees (front : c.Taken) (kind : Kind) : c.sees kind = decide (front.token.kind = kind) := by
  rw [Cursor.sees, accept?, take?_eq_some front]
  by_cases same : front.token.kind = kind <;> simp [Option.filter, same]

theorem sees_of_none (none : c.take? = none) (kind : Kind) : c.sees kind = false := by
  rw [sees, accept?, none]
  rfl

end Grammar.Cursor

namespace Head

/-- The head has never been behind the place, and each declaration has moved it on. -/
structure Keeps (stop : Nat) (h : Head) : Prop where
  trail : ∀ place ∈ h.trail, place ≤ stop
  spans : ∀ span ∈ h.spans, span.first < span.last

/-- What is on the tape from the head on is what the cursor holds, and the head has been kept before the end so far. -/
structure Shows (s : EndedTokens) (h : Head) (c : Cursor) : Prop extends Keeps s.body.length h where
  stands : c.At s.body s.stop h.current
  nextId : h.nextId = c.nextId
  misreadings : h.misreadings = c.misreadings

namespace Shows

variable {s : EndedTokens} {h : Head} {c : Cursor}

theorem peek? (shown : h.Shows s c) : s.tape.peek? h = some c.peek := by
  have inside := shown.stands.inside
  rw [Tape.peek?, EndedTokens.tape, EndedTokens.all, List.length_append, List.length_cons, Nat.min_eq_left (by omega),
    Cursor.peek, shown.stands.pending, shown.stands.stop]
  rcases Nat.lt_or_eq_of_le inside with inside | last
  · rw [List.getElem?_append_left inside, List.getElem?_eq_getElem inside, List.drop_eq_getElem_cons inside,
      List.headD_cons]
  · rw [last, List.getElem?_append_right (Nat.le_refl _), Nat.sub_self, List.drop_length]
    rfl

theorem isEof_peek (shown : h.Shows s c) : c.peek.isEof = c.atEnd := by
  rw [Cursor.peek, Cursor.atEnd, shown.stands.stop]
  cases front : c.pending with
  | nil => exact s.ended
  | cons token rest =>
    have among : token ∈ s.body := by
      apply List.mem_of_mem_drop (i := h.current)
      rw [← shown.stands.pending, front]
      exact List.mem_cons_self
    exact s.plain token among

theorem numbered (shown : h.Shows s c) : h.numbered.Shows s c.numbered where
  toKeeps := ⟨shown.trail, shown.spans⟩
  stands := ⟨shown.stands.inside, shown.stands.pending, shown.stands.stop⟩
  nextId := congrArg (· + 1) shown.nextId
  misreadings := shown.misreadings

theorem record (shown : h.Shows s c) (token : Token) (fault : SyntaxFault) :
    (h.record ⟨token, fault⟩).Shows s (c.record token fault) where
  toKeeps := ⟨shown.trail, shown.spans⟩
  stands := shown.stands.record token fault
  nextId := shown.nextId
  misreadings := congrArg (_ :: ·) shown.misreadings

theorem close (shown : h.Shows s c) {first : Nat} (before : first < h.current) : (h.close first).Shows s c where
  toKeeps := ⟨shown.trail, List.forall_mem_cons.mpr ⟨before, shown.spans⟩⟩
  stands := shown.stands
  nextId := shown.nextId
  misreadings := shown.misreadings

theorem place_lt (shown : h.Shows s c) (taken : c.Taken) : h.current < s.body.length := by
  have size := shown.stands.size
  have shorter := taken.shorter
  omega

theorem forward (shown : h.Shows s c) (taken : c.Taken) : h.forward.Shows s taken.next where
  toKeeps := ⟨List.forall_mem_cons.mpr ⟨shown.place_lt taken, shown.trail⟩, shown.spans⟩
  stands := by
    have inside := shown.place_lt taken
    have front := taken.front
    rw [shown.stands.pending, List.drop_eq_getElem_cons inside] at front
    exact ⟨inside, (List.cons.inj front).2.symm, shown.stands.stop⟩
  nextId := shown.nextId
  misreadings := shown.misreadings

theorem previous?_forward (shown : h.Shows s c) (taken : c.Taken) : s.tape.previous? h.forward = some taken.token := by
  have inside := shown.place_lt taken
  have front := taken.front
  rw [shown.stands.pending, List.drop_eq_getElem_cons inside] at front
  change s.all[h.current]? = _
  rw [EndedTokens.all, List.getElem?_append_left inside, List.getElem?_eq_getElem inside,
    (List.cons.inj front).1]

end Shows

namespace Reader

variable {α β : Type} {h h' : Head}

theorem bind_ok {reader : Reader α} {value : α} (rest : α → Reader β) (ends : reader h = some (.ok value, h')) :
    (reader >>= rest) h = rest value h' := by
  change (reader h).bind _ = _
  rw [ends]
  rfl

theorem bind_error {reader : Reader α} {misreading : Misreading} (rest : α → Reader β)
    (ends : reader h = some (.error misreading, h')) : (reader >>= rest) h = some (.error misreading, h') := by
  change (reader h).bind _ = _
  rw [ends]
  rfl

theorem branch {reader : Reader Bool} {choice : Bool} (rest other : Reader α) (ends : reader h = some (.ok choice, h')) :
    (reader >>= fun choice => if choice = true then rest else other) h = if choice then rest h' else other h' := by
  rw [bind_ok _ ends]
  cases choice <;> rfl

theorem attempt_eq {reader : Reader α} {ending : Except Misreading α} (ends : reader h = some (ending, h')) :
    attempt reader h = some (.ok ending, h') := by
  change (reader h).bind _ = _
  rw [ends]
  rfl

theorem look_eq {view : Head → Option α} {value : α} (seen : view h = some value) : look view h = some (.ok value, h) := by
  rw [look, seen]
  rfl

theorem previous_then {tape : Tape} {token : Token} (seen : tape.previous? h = some token) (rest : Token → Reader α) :
    (tape.previous >>= rest) h = rest token h := bind_ok rest (look_eq seen)

end Reader

namespace Shows

open Reader

variable {s : EndedTokens} {h : Head} {c : Cursor}

theorem peek (shown : h.Shows s c) : s.tape.peek h = some (.ok c.peek, h) := look_eq shown.peek?

theorem atEnd (shown : h.Shows s c) : s.tape.atEnd h = some (.ok c.atEnd, h) := by
  rw [Tape.atEnd, bind_ok _ shown.peek, shown.isEof_peek]
  rfl

theorem check (shown : h.Shows s c) (kind : Kind) : s.tape.check kind h = some (.ok (c.sees kind), h) := by
  rw [Tape.check, bind_ok _ shown.atEnd]
  cases front : c.pending with
  | nil =>
    have ended : c.atEnd = true := Cursor.atEnd_iff.mpr front
    have unseen : c.sees kind = false := Cursor.sees_eq_false.mpr (by simp [Cursor.Lacks, front])
    rw [ended, unseen]
    rfl
  | cons token rest =>
    have more : c.atEnd = false := by simp [Cursor.atEnd, front]
    have seen : c.sees kind = (c.peek.kind == kind) := by
      rw [Cursor.Taken.sees ⟨token, rest, front⟩, Cursor.peek, front]
      rfl
    rw [more, seen]
    exact bind_ok _ shown.peek

theorem advance (shown : h.Shows s c) (taken : c.Taken) : s.tape.advance h = some (.ok taken.token, h.forward) := by
  have more : c.atEnd = false := by simp [Cursor.atEnd, taken.front]
  rw [Tape.advance, bind_ok _ shown.atEnd, more]
  exact look_eq (shown.previous?_forward taken)

theorem accept (shown : h.Shows s c) (kind : Kind) :
    s.tape.accept kind h = some (.ok (c.sees kind), if c.sees kind then h.forward else h) := by
  rw [Tape.accept, bind_ok _ (shown.check kind)]
  cases seen : c.sees kind with
  | false => rfl
  | true =>
    obtain ⟨token, next, takes⟩ := Cursor.sees_eq_true.mp seen
    obtain ⟨taken, -⟩ := takes.taken
    exact bind_ok _ (shown.advance taken)

theorem acceptAny (shown : h.Shows s c) (kinds : List Kind) :
    s.tape.acceptAny kinds h =
      some (.ok (c.accept? kinds).isSome, if (c.accept? kinds).isSome then h.forward else h) := by
  induction kinds with
  | nil =>
    rw [Cursor.accept?_nil]
    rfl
  | cons kind kinds ih =>
    rw [Tape.acceptAny, bind_ok _ (shown.accept kind), Cursor.isSome_accept?_cons]
    cases c.sees kind with
    | true => rfl
    | false => exact ih

theorem accept_then {α : Type} (shown : h.Shows s c) (kind : Kind) (rest other : Reader α) :
    (s.tape.accept kind >>= fun accepted => if accepted = true then rest else other) h =
      if c.sees kind then rest h.forward else other h := by
  rw [branch rest other (shown.accept kind)]
  cases c.sees kind <;> rfl

theorem acceptAny_then {α : Type} (shown : h.Shows s c) (kinds : List Kind) (rest other : Reader α) :
    (s.tape.acceptAny kinds >>= fun accepted => if accepted = true then rest else other) h =
      if (c.accept? kinds).isSome then rest h.forward else other h := by
  rw [branch rest other (shown.acceptAny kinds)]
  cases (c.accept? kinds).isSome <;> rfl

theorem check_then {α : Type} (shown : h.Shows s c) (kind : Kind) (rest other : Reader α) :
    (s.tape.check kind >>= fun seen => if seen = true then rest else other) h =
      if c.sees kind then rest h else other h :=
  branch rest other (shown.check kind)

theorem atEnd_then {α : Type} (shown : h.Shows s c) (rest other : Reader α) :
    (s.tape.atEnd >>= fun ended => if ended = true then rest else other) h = if c.atEnd then rest h else other h :=
  branch rest other shown.atEnd

theorem fresh_then {α : Type} (shown : h.Shows s c) (rest : NodeId → Reader α) :
    (Reader.fresh >>= rest) h = rest c.nextId h.numbered := by
  apply bind_ok
  rw [← shown.nextId]
  rfl

theorem limit (shown : h.Shows s c) (count : Nat) (fault : SyntaxFault) :
    ∃ h', s.tape.limit count fault h = some (.ok (), h') ∧ h'.Shows s (limit c count fault) := by
  unfold Tape.limit Grammar.limit
  split
  · exact ⟨h.record ⟨c.peek, fault⟩, bind_ok _ shown.peek, shown.record c.peek fault⟩
  · exact ⟨h, rfl, shown⟩

end Shows

section

variable {s : EndedTokens} {h : Head} {c : Cursor} {α β : Type} {gain more : Nat}

/-- How a reader of the tape ended, beside a reading along the cursor. -/
def Follows (s : EndedTokens) (ending : Option (Except Misreading α × Head)) : Reading c gain α → Prop
  | .read value next _ => ∃ h, ending = some (.ok value, h) ∧ h.Shows s next
  | .failed misreading next _ => ∃ h, ending = some (.error misreading, h) ∧ h.Shows s next

/-- Wherever the head shows the cursor, the reader does what the reading says. -/
def Tracks (s : EndedTokens) (reader : Reader α) (reading : Reading c gain α) : Prop :=
  ∀ ⦃h : Head⦄, h.Shows s c → Follows s (reader h) reading

/-- The same behind a token, which the reader may look back at. -/
def TracksBehind (s : EndedTokens) (taken : c.Taken) (reader : Reader α) (reading : Reading taken.next gain α) : Prop :=
  ∀ ⦃h : Head⦄, h.Shows s taken.next → s.tape.previous? h = some taken.token → Follows s (reader h) reading

theorem Follows.after {total : Nat} [Reading.AtMostOne total] {taken : c.Taken}
    {ending : Option (Except Misreading α × Head)}
    {reading : Reading taken.next gain α} (follows : Follows s ending reading) :
    Follows s ending (Reading.after taken reading : Reading c total α) := by
  cases reading with
  | read | failed => exact follows

theorem TracksBehind.onward {taken : c.Taken} {reader : Reader α} {reading : Reading taken.next gain α}
    (tracks : Tracks s reader reading) : TracksBehind s taken reader reading := fun _ shown _ => tracks shown

theorem TracksBehind.previous {taken : c.Taken} {rest : Token → Reader α} {reading : Reading taken.next gain α}
    (tracks : Tracks s (rest taken.token) reading) : TracksBehind s taken (s.tape.previous >>= rest) reading := by
  intro h shown seen
  rw [Reader.previous_then seen]
  exact tracks shown

namespace Tracks

theorem done (value : α) : Tracks s (pure value) (Reading.done value : Reading c 0 α) := fun _ shown => ⟨_, rfl, shown⟩

theorem fail (fault : SyntaxFault) : Tracks s (s.tape.fail fault) (c.fail gain fault : Reading c gain α) :=
  fun _ shown => ⟨_, Reader.bind_ok _ shown.peek, shown⟩

variable {reader : Reader α} {reading : Reading c gain α}

theorem andThen {rest : α → Reader β} {onward : α → (next : Cursor) → next.size + gain ≤ c.size → Reading next more β}
    (first : Tracks s reader reading)
    (continues : ∀ value next progress, Tracks s (rest value) (onward value next progress)) :
    Tracks s (reader >>= rest) (reading.andThen onward) := by
  intro h shown
  have first := first shown
  cases reading with
  | failed misreading next progress =>
    obtain ⟨h', ends, shown'⟩ := first
    exact ⟨h', Reader.bind_error rest ends, shown'⟩
  | read value next progress =>
    obtain ⟨h', ends, shown'⟩ := first
    have last := continues value next progress shown'
    rw [← Reader.bind_ok rest ends] at last
    unfold Reading.andThen
    dsimp only
    generalize onward value next progress = reading at last ⊢
    cases reading with
    | read => exact last
    | failed => exact last

theorem map (f : α → β) (first : Tracks s reader reading) :
    Tracks s (reader >>= fun value => pure (f value)) (reading.map f) := by
  intro h shown
  have first := first shown
  cases reading with
  | failed misreading next progress =>
    obtain ⟨h', ends, shown'⟩ := first
    exact ⟨h', Reader.bind_error _ ends, shown'⟩
  | read value next progress =>
    obtain ⟨h', ends, shown'⟩ := first
    exact ⟨h', Reader.bind_ok _ ends, shown'⟩

theorem weaken (tracks : Tracks s reader reading) : Tracks s reader reading.weaken := by
  intro h shown
  have follows := tracks shown
  cases reading with
  | read | failed => exact follows

theorem limit {count : Nat} {fault : SyntaxFault} {rest : Reader α} {reading : Reading (limit c count fault) gain α}
    (tracks : Tracks s rest reading) :
    Tracks s (s.tape.limit count fault >>= fun _ => rest) (Reading.ofSameSize (size_limit c count fault) reading) := by
  intro h shown
  obtain ⟨h', limits, shown'⟩ := shown.limit count fault
  rw [Reader.bind_ok _ limits]
  have follows := tracks shown'
  cases reading with
  | read | failed => exact follows

theorem consume (kind : Kind) (fault : SyntaxFault) : Tracks s (s.tape.consume kind fault) (c.expect kind fault) := by
  intro h shown
  rw [Tape.consume, shown.check_then, Cursor.expect, Cursor.sees]
  cases found : c.accept? [kind] with
  | none => exact Tracks.fail fault shown
  | some taken => exact ⟨h.forward, shown.advance taken, shown.forward taken⟩

variable {rest other : Reader α} {no : Reading c gain α}

theorem check {kind : Kind} {yes : Reading c gain α} (seen : Tracks s rest yes) (unseen : Tracks s other no) :
    Tracks s (s.tape.check kind >>= fun seen => if seen = true then rest else other) (if c.sees kind then yes else no) := by
  intro h shown
  rw [shown.check_then]
  split
  · exact seen shown
  · exact unseen shown

variable [Reading.AtMostOne gain] {yes : (taken : c.Taken) → Reading taken.next more α}

theorem accept {kind : Kind} (absent : Tracks s other no) (present : ∀ taken, TracksBehind s taken rest (yes taken)) :
    Tracks s (s.tape.accept kind >>= fun accepted => if accepted = true then rest else other)
      (match c.accept? [kind] with | none => no | some taken => .after taken (yes taken)) := by
  intro h shown
  rw [shown.accept_then, Cursor.sees]
  cases c.accept? [kind] with
  | none => exact absent shown
  | some taken => exact .after (present taken (shown.forward taken) (shown.previous?_forward taken))

end Tracks

theorem Shows.previous? (shown : h.Shows s c) : ∃ token, s.tape.previous? h = some token := by
  have inside := shown.stands.inside
  have present : h.current - 1 < s.all.length := by
    rw [EndedTokens.all, List.length_append, List.length_cons]
    omega
  exact ⟨_, List.getElem?_eq_getElem present⟩

theorem Shows.seek (shown : h.Shows s c) {last : Token} (seen : s.tape.previous? h = some last) :
    ∃ h', s.tape.seek h = some (.ok (), h') ∧ h'.Shows s { c with pending := skipFrom last c.pending } := by
  induction front : c.pending generalizing h c last with
  | nil =>
    rw [Tape.seek, shown.atEnd_then, Cursor.atEnd_iff.mpr front]
    refine ⟨h, rfl, ?_⟩
    rw [skipFrom, ← front]
    exact shown
  | cons token rest ih =>
    have more : c.atEnd = false := by simp [Cursor.atEnd, front]
    have peek : c.peek = token := by rw [Cursor.peek, front, List.headD_cons]
    have stays : h.Shows s { c with pending := token :: rest } := by
      rw [← front]
      exact shown
    rw [Tape.seek, shown.atEnd_then, more, if_neg Bool.false_ne_true, Reader.previous_then seen, skipFrom]
    by_cases closed : last.kind = .semicolon
    · rw [if_pos (beq_iff_eq.mpr closed), if_pos (.inl closed)]
      exact ⟨h, rfl, stays⟩
    rw [if_neg (mt beq_iff_eq.mp closed), Reader.bind_ok _ shown.peek, peek]
    by_cases starts : startsStatement token.kind = true
    · rw [if_pos starts, if_pos (.inr starts)]
      exact ⟨h, rfl, stays⟩
    rw [if_neg starts, if_neg (not_or.mpr ⟨closed, starts⟩)]
    obtain ⟨h', seeks, shown'⟩ := ih (shown.forward ⟨token, rest, front⟩) (shown.previous?_forward ⟨token, rest, front⟩) rfl
    exact ⟨h', (Reader.bind_ok _ (shown.advance ⟨token, rest, front⟩)).trans seeks, shown'⟩

theorem Shows.synchronize (shown : h.Shows s c) :
    ∃ h', s.tape.synchronize h = some (.ok (), h') ∧ h'.Shows s { c with pending := skip c.pending } := by
  cases front : c.pending with
  | nil =>
    obtain ⟨last, seen⟩ := shown.previous?
    obtain ⟨h', seeks, shown'⟩ := shown.seek seen
    have stays : s.tape.advance h = some (.ok last, h) := by
      rw [Tape.advance, shown.atEnd_then, Cursor.atEnd_iff.mpr front]
      exact Reader.look_eq seen
    rw [front] at shown'
    exact ⟨h', (Reader.bind_ok _ stays).trans seeks, shown'⟩
  | cons token rest =>
    obtain ⟨h', seeks, shown'⟩ :=
      (shown.forward ⟨token, rest, front⟩).seek (shown.previous?_forward ⟨token, rest, front⟩)
    exact ⟨h', (Reader.bind_ok _ (shown.advance ⟨token, rest, front⟩)).trans seeks, shown'⟩

end

end Head
end Lox
