import Lox.Token.Stream

namespace Lox.Scanner

/-- The bytes of characters, each as the character of its code. -/
def bytes (cs : List Char) : List Char := (cs.flatMap String.utf8EncodeChar).map Char.ofUInt8

theorem bytes_append (cs ds : List Char) : bytes (cs ++ ds) = bytes cs ++ bytes ds := by
  simp [bytes]

theorem bytes_cons (c : Char) (cs : List Char) : bytes (c :: cs) = bytes [c] ++ bytes cs :=
  bytes_append [c] cs

theorem length_bytes (cs : List Char) : (bytes cs).length = cs.utf8Encode.size := by
  simp [bytes, List.utf8Encode]

theorem utf8ByteSize_eq (text : String) : text.utf8ByteSize = (bytes text.toList).length := by
  rw [length_bytes, String.utf8Encode_toList, String.size_toByteArray]

theorem byteAt?_eq (text : String) (index : Nat) : byteAt? text index = (bytes text.toList)[index]? := by
  unfold byteAt?
  split
  · rename_i inside
    have bound : index < text.utf8ByteSize := inside
    rw [utf8ByteSize_eq] at bound
    rw [List.getElem?_eq_getElem bound]
    simp only [bytes, List.getElem_map, String.getUTF8Byte_eq_getElem, ← String.utf8Encode_toList, List.utf8Encode,
      List.getElem_toByteArray]
  · rename_i outside
    have bound : ¬ index < text.utf8ByteSize := outside
    rw [utf8ByteSize_eq] at bound
    rw [List.getElem?_eq_none (Nat.not_lt.mp bound)]

theorem isValid_bytes {text : String} {front rest : List Char} (split : text.toList = front ++ rest) :
    (⟨(bytes front).length⟩ : String.Pos.Raw).IsValid text := by
  rw [String.Pos.Raw.isValid_iff_exists_append]
  refine ⟨String.ofList front, String.ofList rest, ?_, ?_⟩
  · rw [← String.ofList_append, ← split, String.ofList_toList]
  · rw [String.rawEndPos, utf8ByteSize_eq, String.toList_ofList]

theorem extract_append_middle (front middle rest : ByteArray) :
    (front ++ (middle ++ rest)).extract front.size (front.size + middle.size) = middle := by
  rw [← ByteArray.append_assoc, ByteArray.extract_append, ByteArray.extract_append_eq_right rfl rfl]
  simp

theorem between?_eq {text : String} {front middle rest : List Char} (split : text.toList = front ++ (middle ++ rest)) :
    between? text (bytes front).length ((bytes front).length + (bytes middle).length) = some (String.ofList middle) := by
  have behind : (⟨(bytes front).length + (bytes middle).length⟩ : String.Pos.Raw).IsValid text := by
    have valid := isValid_bytes (split.trans (List.append_assoc ..).symm)
    rw [bytes_append, List.length_append] at valid
    exact valid
  rw [between?, dif_pos ⟨Nat.le_add_right _ _, isValid_bytes split, behind⟩, Option.some.injEq, ← String.toByteArray_inj,
    String.toByteArray_extract, String.toByteArray_ofList]
  dsimp only
  rw [length_bytes, length_bytes, ← String.utf8Encode_toList, split, List.utf8Encode_append, List.utf8Encode_append]
  exact extract_append_middle ..

theorem toNat_ofUInt8 (b : UInt8) : (Char.ofUInt8 b).toNat = b.toNat := UInt8.toNat_toUInt32 b

theorem bytes_ascii {c : Char} (ascii : c.toNat < 128) : bytes [c] = [c] := by
  have size : c.utf8Size = 1 := Char.utf8Size_eq_one_iff.mpr (UInt32.le_iff_toNat_le.mpr (Nat.le_of_lt_succ ascii))
  have same : Char.ofUInt8 c.val.toUInt8 = c := by
    apply Char.ext
    apply UInt32.toNat_inj.mp
    have code : (Char.ofUInt8 c.val.toUInt8).toNat = c.toNat % 256 := toNat_ofUInt8 _
    exact code.trans (Nat.mod_eq_of_lt (by omega))
  simp only [bytes, List.flatMap_cons, List.flatMap_nil, List.append_nil, String.utf8EncodeChar_eq_singleton size,
    List.map_cons, List.map_nil, same]

theorem le_toNat_or (b mark : UInt8) : mark.toNat ≤ (b ||| mark).toNat := by
  rw [UInt8.toNat_or]
  exact Nat.right_le_or

theorem marked (b : UInt8) : 128 ≤ (b &&& 0x3f ||| 0x80).toNat ∧ (b &&& 0x3f ||| 0x80).toNat < 192 := by
  refine ⟨le_toNat_or _ 0x80, ?_⟩
  have small : b.toNat &&& 63 < 64 := Nat.and_lt_two_pow _ (by decide : 63 < 2 ^ 6)
  have sum : ∀ n < 64, n ||| 128 < 192 := by decide
  rw [UInt8.toNat_or, UInt8.toNat_and]
  exact sum _ small

theorem encode_wide {c : Char} (wide : 128 ≤ c.toNat) :
    ∃ b bs, String.utf8EncodeChar c = b :: bs ∧ 192 ≤ b.toNat ∧ ∀ d ∈ bs, 128 ≤ d.toNat ∧ d.toNat < 192 := by
  have several : c.utf8Size ≠ 1 := by
    intro one
    have small := UInt32.le_iff_toNat_le.mp (Char.utf8Size_eq_one_iff.mp one)
    exact absurd small (Nat.not_le.mpr wide)
  have least := c.utf8Size_pos
  have most := c.utf8Size_le_four
  have sizes : c.utf8Size = 2 ∨ c.utf8Size = 3 ∨ c.utf8Size = 4 := by omega
  rcases sizes with size | size | size
  · refine ⟨_, _, String.utf8EncodeChar_eq_cons_cons size, le_toNat_or _ 0xc0, ?_⟩
    exact List.forall_mem_singleton.mpr (marked _)
  · refine ⟨_, _, String.utf8EncodeChar_eq_cons_cons_cons size, Nat.le_trans (by decide) (le_toNat_or _ 0xe0), ?_⟩
    simp only [List.forall_mem_cons]
    exact ⟨marked _, marked _, nofun⟩
  · refine ⟨_, _, String.utf8EncodeChar_eq_cons_cons_cons_cons size, Nat.le_trans (by decide) (le_toNat_or _ 0xf0), ?_⟩
    simp only [List.forall_mem_cons]
    exact ⟨marked _, marked _, marked _, nofun⟩

theorem bytes_wide {c : Char} (wide : 128 ≤ c.toNat) :
    ∃ b bs, bytes [c] = b :: bs ∧ 192 ≤ b.toNat ∧ ∀ d ∈ bs, 128 ≤ d.toNat ∧ d.toNat < 192 := by
  obtain ⟨b, bs, encoded, first, others⟩ := encode_wide wide
  refine ⟨.ofUInt8 b, bs.map .ofUInt8, ?_, ?_, ?_⟩
  · simp [bytes, encoded]
  · rw [toNat_ofUInt8]
    exact first
  · intro d among
    obtain ⟨byte, listed, rfl⟩ := List.mem_map.mp among
    rw [toNat_ofUInt8]
    exact others byte listed

theorem lt_of_mem_bytes {b : Char} {cs : List Char} (among : b ∈ bytes cs) : b.toNat < 256 := by
  obtain ⟨byte, -, rfl⟩ := List.mem_map.mp among
  rw [toNat_ofUInt8]
  exact byte.toNat_lt

theorem exists_bytes_eq_cons (c : Char) : ∃ b bs, bytes [c] = b :: bs := by
  by_cases small : c.toNat < 128
  · exact ⟨c, [], bytes_ascii small⟩
  · obtain ⟨b, bs, encoded, -⟩ := bytes_wide (by omega : 128 ≤ c.toNat)
    exact ⟨b, bs, encoded⟩

def isContinuation (b : Char) : Bool := Utf8.continuation.contains b.toUInt8

theorem isContinuation_iff {b : Char} (byte : b.toNat < 256) :
    isContinuation b = true ↔ 128 ≤ b.toNat ∧ b.toNat < 192 := by
  have code : b.toUInt8.toNat = b.toNat := Nat.mod_eq_of_lt byte
  simp only [isContinuation, Utf8.continuation, Utf8.Range.contains, Bool.and_eq_true, decide_eq_true_eq,
    UInt8.le_iff_toNat_le, code]
  exact and_congr_right fun _ => Nat.lt_succ_iff.symm

theorem takeWhile_isContinuation {c b : Char} {bs : List Char} (encoded : bytes [c] = b :: bs) (cs : List Char) :
    (bs ++ bytes cs).takeWhile isContinuation = bs := by
  have others : ∀ d ∈ bs, isContinuation d = true := by
    intro d among
    rw [isContinuation_iff (lt_of_mem_bytes (encoded ▸ List.mem_cons_of_mem b among : d ∈ bytes [c]))]
    by_cases small : c.toNat < 128
    · rw [bytes_ascii small] at encoded
      cases encoded
      cases among
    · obtain ⟨b', bs', same, -, continued⟩ := bytes_wide (by omega : 128 ≤ c.toNat)
      rw [encoded] at same
      cases same
      exact continued d among
  have begins (d : Char) : ∃ b bs, bytes [d] = b :: bs ∧ ¬ isContinuation b = true := by
    by_cases small : d.toNat < 128
    · refine ⟨d, [], bytes_ascii small, ?_⟩
      rw [isContinuation_iff (by omega)]
      omega
    · obtain ⟨b, bs, encoded, first, -⟩ := bytes_wide (by omega : 128 ≤ d.toNat)
      refine ⟨b, bs, encoded, ?_⟩
      rw [isContinuation_iff (lt_of_mem_bytes (encoded ▸ List.mem_cons_self : b ∈ bytes [d]))]
      omega
  rw [List.takeWhile_append_of_pos others]
  cases cs with
  | nil => exact List.append_nil bs
  | cons d ds =>
    obtain ⟨b, bs', encoded, stops⟩ := begins d
    rw [bytes_cons, encoded, List.cons_append, List.takeWhile_cons_of_neg stops, List.append_nil]

/-- The test does not tell characters outside the ASCII range apart. -/
def AsciiTest (test : Char → Bool) : Prop := ∀ c d : Char, 128 ≤ c.toNat → 128 ≤ d.toNat → test c = test d

theorem AsciiTest.bytes {test : Char → Bool} (ascii : AsciiTest test) (c : Char) : ∀ b ∈ bytes [c], test b = test c := by
  intro b among
  by_cases small : c.toNat < 128
  · rw [bytes_ascii small] at among
    rw [List.mem_singleton.mp among]
  · have wide : 128 ≤ c.toNat := by omega
    obtain ⟨first, others, encoded, high, continued⟩ := bytes_wide wide
    rw [encoded] at among
    refine ascii b c ?_ wide
    rcases List.mem_cons.mp among with rfl | later
    · omega
    · exact (continued b later).1

theorem takeWhile_bytes {test : Char → Bool} (ascii : AsciiTest test) (cs : List Char) :
    (bytes cs).takeWhile test = bytes (cs.takeWhile test) := by
  induction cs with
  | nil => rfl
  | cons c cs ih =>
    have same := ascii.bytes c
    rw [bytes_cons, List.takeWhile_cons]
    cases passes : test c with
    | true =>
      rw [List.takeWhile_append_of_pos fun b among => (same b among).trans passes, ih, if_pos rfl]
      exact (bytes_cons c _).symm
    | false =>
      obtain ⟨b, bs, encoded⟩ := exists_bytes_eq_cons c
      have stops : test b = false := by
        rw [same b (by simp [encoded]), passes]
      rw [encoded, List.cons_append, List.takeWhile_cons_of_neg (by simp [stops]), if_neg (by simp)]
      rfl

theorem mem_bytes_of_ascii {b : Char} (ascii : b.toNat < 128) {c : Char} (among : b ∈ bytes [c]) : b = c := by
  by_cases small : c.toNat < 128
  · rw [bytes_ascii small] at among
    exact List.mem_singleton.mp among
  · obtain ⟨first, others, encoded, high, continued⟩ := bytes_wide (by omega : 128 ≤ c.toNat)
    rw [encoded] at among
    rcases List.mem_cons.mp among with rfl | later
    · omega
    · have := (continued b later).1
      omega

theorem count_bytes {b : Char} (ascii : b.toNat < 128) (cs : List Char) : (bytes cs).count b = cs.count b := by
  induction cs with
  | nil => rfl
  | cons c cs ih =>
    rw [bytes_cons, List.count_append, ih, List.count_cons]
    by_cases same : c = b
    · rw [same, bytes_ascii ascii, List.count_singleton_self, if_pos (beq_self_eq_true b), Nat.add_comm]
    · have absent : b ∉ bytes [c] := fun among => same (mem_bytes_of_ascii ascii among).symm
      rw [List.count_eq_zero.mpr absent, if_neg (by simpa using same), Nat.zero_add, Nat.add_zero]

theorem head?_bytes_any {test : Char → Bool} (ascii : AsciiTest test) (cs : List Char) :
    (bytes cs).head?.any test = cs.head?.any test := by
  cases cs with
  | nil => rfl
  | cons c cs =>
    obtain ⟨b, bs, encoded⟩ := exists_bytes_eq_cons c
    rw [bytes_cons, encoded]
    exact ascii.bytes c b (by simp [encoded])

theorem AsciiTest.of_ascii {test : Char → Bool} (ascii : ∀ c, test c = true → c.toNat < 128) : AsciiTest test := by
  have wide (c : Char) (high : 128 ≤ c.toNat) : test c = false := by
    rw [← Bool.not_eq_true]
    intro passes
    have := ascii c passes
    omega
  intro c d high high'
  rw [wide c high, wide d high']

theorem AsciiTest.ne {d : Char} (ascii : d.toNat < 128) : AsciiTest (· != d) := by
  have wide (c : Char) (high : 128 ≤ c.toNat) : (c != d) = true := by
    rw [bne_iff_ne]
    rintro rfl
    omega
  intro c c' high high'
  exact (wide c high).trans (wide c' high').symm

theorem isDigit_ascii {c : Char} (digit : c.isDigit = true) : c.toNat < 128 := by
  unfold Char.isDigit at digit
  simp only [ge_iff_le, Bool.and_eq_true, decide_eq_true_eq, UInt32.le_iff_toNat_le] at digit
  exact Nat.lt_of_le_of_lt digit.2 (by decide)

theorem isAlpha_ascii {c : Char} (letter : c.isAlpha = true) : c.toNat < 128 := by
  unfold Char.isAlpha Char.isUpper Char.isLower at letter
  simp only [ge_iff_le, Bool.or_eq_true, Bool.and_eq_true, decide_eq_true_eq, UInt32.le_iff_toNat_le] at letter
  rcases letter with upper | lower
  · exact Nat.lt_of_le_of_lt upper.2 (by decide)
  · exact Nat.lt_of_le_of_lt lower.2 (by decide)

theorem isWordStart_ascii {c : Char} (start : Lexer.isWordStart c = true) : c.toNat < 128 := by
  rcases Bool.or_eq_true_iff.mp start with letter | line
  · exact isAlpha_ascii letter
  · rw [eq_of_beq line]
    decide

theorem isWordRest_ascii {c : Char} (rest : Lexer.isWordRest c = true) : c.toNat < 128 := by
  rcases Bool.or_eq_true_iff.mp rest with alphanumeric | line
  · rcases Bool.or_eq_true_iff.mp alphanumeric with letter | digit
    · exact isAlpha_ascii letter
    · exact isDigit_ascii digit
  · rw [eq_of_beq line]
    decide

theorem isBlank_ascii {c : Char} (blank : Lexer.isBlank c = true) : c.toNat < 128 := by
  simp only [Lexer.isBlank, Bool.or_eq_true, beq_iff_eq] at blank
  rcases blank with ((rfl | rfl) | rfl) | rfl <;> decide

theorem sign?_ascii {c : Char} {kind : Kind} (sign : Lexer.sign? c = some kind) : c.toNat < 128 := by
  unfold Lexer.sign? at sign
  split at sign <;> first | decide | cases sign

theorem signBeforeEqual?_ascii {c : Char} {kinds : Kind × Kind} (sign : Lexer.signBeforeEqual? c = some kinds) :
    c.toNat < 128 := by
  unfold Lexer.signBeforeEqual? at sign
  split at sign <;> first | decide | cases sign

end Lox.Scanner
