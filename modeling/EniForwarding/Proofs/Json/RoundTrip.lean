import EniForwarding.Proofs.Json.Scalars

/-! Reading back written values.

Whatever blanks a layout puts between the parts of a text, the text is read back as the value
that it was written from, unless some part of that is unreadable. The reader takes the value
off the front of the text, so the theorem is about a text with anything behind it that does not
go on with a numeral. Each step of the reader that takes no character is followed by one that
does, so twice the length of the text is fuel enough.
-/

set_option autoImplicit false

namespace EniForwarding.Json

/-- A layout puts nothing but blanks between the parts of a text. -/
structure Layout.Plain (layout : Layout) : Prop where
  lineBreak : ∀ depth, ∀ c ∈ layout.lineBreak depth, isBlank c = true
  afterName : ∃ blanks, layout.afterName = ':' :: blanks ∧ ∀ c ∈ blanks, isBlank c = true

theorem Layout.compact_plain : Layout.compact.Plain where
  lineBreak _ c member := by cases member
  afterName := ⟨[], rfl, fun c member => by cases member⟩

theorem Layout.pretty_plain : Layout.pretty.Plain where
  lineBreak depth c member := by
    rcases List.mem_cons.1 member with rfl | spaces
    · rfl
    · rw [(List.mem_replicate.1 spaces).2]
      rfl
  afterName := ⟨[' '], rfl, fun c member => by rw [List.mem_singleton.1 member]; rfl⟩

mutual

def Readable : Json → Prop
  | .unreadable => False
  | .array items => ReadableItems items
  | .object members => ReadableMembers members
  | _ => True

def ReadableItems : List Json → Prop
  | [] => True
  | item :: rest => item.Readable ∧ ReadableItems rest

def ReadableMembers : List (String × Json) → Prop
  | [] => True
  | member :: rest => ReadableMember member ∧ ReadableMembers rest

def ReadableMember : String × Json → Prop
  | (_, value) => value.Readable

end

section blanks

variable {blanks : List Char} (blank : ∀ c ∈ blanks, isBlank c = true) (cs : List Char)

include blank

theorem skipBlanks_append : skipBlanks (blanks ++ cs) = skipBlanks cs :=
  List.dropWhile_append_of_pos blank

theorem readValue_blanks (fuel : Nat) : readValue fuel (blanks ++ cs) = readValue fuel cs := by
  cases fuel with
  | zero => rfl
  | succ fuel => rw [readValue, readValue, skipBlanks_append blank]

/-- What may stand behind a value: the end, a comma, a bracket, a brace or a blank. -/
theorem stops_blanks {c : Char} (other : isNumeric c = false) :
    Stops isNumeric (blanks ++ c :: cs) := by
  cases blanks with
  | nil => exact .cons other
  | cons d blanks =>
    refine .cons ?_
    have space : isBlank d = true := blank d List.mem_cons_self
    simp only [isBlank, Bool.or_eq_true, beq_iff_eq] at space
    rcases space with ((rfl | rfl) | rfl) | rfl <;> rfl

end blanks

theorem skipBlanks_cons {c : Char} (cs : List Char) (solid : isBlank c = false) :
    skipBlanks (c :: cs) = c :: cs := by
  simp [skipBlanks, solid]

theorem readItems_blanks {blanks : List Char} (blank : ∀ c ∈ blanks, isBlank c = true)
    (cs : List Char) (fuel : Nat) : readItems fuel (blanks ++ cs) = readItems fuel cs := by
  cases fuel with
  | zero => rfl
  | succ fuel => rw [readItems, readItems, readValue_blanks blank]

theorem readMembers_blanks {blanks : List Char} (blank : ∀ c ∈ blanks, isBlank c = true)
    (cs : List Char) (fuel : Nat) : readMembers fuel (blanks ++ cs) = readMembers fuel cs := by
  cases fuel with
  | zero => rfl
  | succ fuel => rw [readMembers, readMembers, skipBlanks_append blank]

/-- What begins with an opening bracket is an array, with items unless it ends at once. -/
theorem readValue_bracket (fuel : Nat) {cs : List Char} (goesOn : (skipBlanks cs).head? ≠ some ']') :
    readValue (fuel + 1) ('[' :: cs) =
      (readItems fuel (skipBlanks cs)).map fun items => (.array items.1, items.2) := by
  have here := skipBlanks_cons cs (show isBlank '[' = false from rfl)
  simp only [readValue, here]
  split
  next same => exact absurd (congrArg List.head? same) goesOn
  next => rfl

theorem readValue_brace (fuel : Nat) {cs : List Char} (goesOn : (skipBlanks cs).head? ≠ some '\x7d') :
    readValue (fuel + 1) ('\x7b' :: cs) =
      (readMembers fuel (skipBlanks cs)).map fun members =>
        (members.1.elim .unreadable .object, members.2) := by
  have here := skipBlanks_cons cs (show isBlank '\x7b' = false from rfl)
  simp only [readValue, here]
  split
  next same => exact absurd (congrArg List.head? same) goesOn
  next => rfl

/-! ### How a written value begins -/

theorem head_writeNumeral (n : Numeral) :
    ∃ c cs, writeNumeral n = c :: cs ∧ ∀ other, isNumeric other = false → other ≠ '-' → c ≠ other := by
  unfold writeNumeral
  cases n.negative with
  | true => exact ⟨'-', _, rfl, fun _ _ sign => sign.symm⟩
  | false =>
    cases digits : Nat.toDigits 10 n.whole with
    | nil => exact absurd digits Nat.toDigits_ne_nil
    | cons c cs =>
      refine ⟨c, _, rfl, ?_⟩
      rintro other quiet - rfl
      have digit := isDigit_of_mem_toDigits (digits ▸ List.mem_cons_self)
      simp [isNumeric, digit] at quiet

/-- A written value begins with no blank, and not as the end of an array. -/
theorem head_write (layout : Layout) (depth : Nat) (j : Json) :
    ∃ c cs, write layout depth j = c :: cs ∧ isBlank c = false ∧ c ≠ ']' := by
  cases j with
  | null | unreadable | string => exact ⟨_, _, rfl, rfl, by decide⟩
  | bool value => cases value <;> exact ⟨_, _, rfl, rfl, by decide⟩
  | array items => cases items <;> exact ⟨_, _, rfl, rfl, by decide⟩
  | object members => cases members <;> exact ⟨_, _, rfl, rfl, by decide⟩
  | number n =>
    obtain ⟨c, cs, written, other⟩ := head_writeNumeral n
    refine ⟨c, cs, written, ?_, other _ rfl (by decide)⟩
    simp [isBlank, other ' ' rfl (by decide), other '\n' rfl (by decide),
      other '\r' rfl (by decide), other '\t' rfl (by decide)]

/-! ### Values and containers -/

section values

variable (layout : Layout)

/-- The text of a value is read back, whatever stands behind it. -/
def Returns (j : Json) : Prop :=
  ∀ depth fuel rest, 2 * (write layout depth j).length ≤ fuel → Stops isNumeric rest →
    readValue fuel (write layout depth j ++ rest) = some (j, rest)

def ReturnsItems (item : Json) (items : List Json) : Prop :=
  ∀ depth fuel outer rest,
    2 * ((write layout depth item).length + (writeItems layout depth items).length) < fuel →
      readItems fuel (write layout depth item ++ (writeItems layout depth items ++
        (layout.lineBreak outer ++ ']' :: rest))) = some (item :: items, rest)

def ReturnsMembers (member : String × Json) (members : List (String × Json)) : Prop :=
  ∀ depth fuel outer rest,
    2 * ((writeMember layout depth member).length + (writeMembers layout depth members).length) < fuel →
      readMembers fuel (writeMember layout depth member ++ (writeMembers layout depth members ++
        (layout.lineBreak outer ++ '\x7d' :: rest))) = some (some (member :: members), rest)

variable {layout}

theorem exists_fuel {depth fuel : Nat} {j : Json}
    (enough : 2 * (write layout depth j).length ≤ fuel) : ∃ less, fuel = less + 1 := by
  obtain ⟨c, cs, written, -⟩ := head_write layout depth j
  rw [written, List.length_cons] at enough
  exact ⟨fuel - 1, by omega⟩

/-- What is read back whatever stands behind it needs to stop nowhere. -/
theorem returns_of_read {j : Json} (read : ∀ depth fuel rest,
    readValue (fuel + 1) (write layout depth j ++ rest) = some (j, rest)) : Returns layout j := by
  intro depth fuel rest enough _
  obtain ⟨fuel, rfl⟩ := exists_fuel enough
  exact read depth fuel rest

theorem returns_number (n : Numeral) : Returns layout (.number n) := by
  intro depth fuel rest enough stops
  obtain ⟨fuel, rfl⟩ := exists_fuel enough
  obtain ⟨c, cs, written, solid, -⟩ := head_write layout depth (.number n)
  have written : writeNumeral n = c :: cs := written
  obtain ⟨c', cs', written', other⟩ := head_writeNumeral n
  cases written.symm.trans written'
  have read := readNumeral_written n stops
  show readValue (fuel + 1) (writeNumeral n ++ rest) = some (.number n, rest)
  rw [written, List.cons_append] at read ⊢
  rw [readValue, skipBlanks_cons _ solid]
  split
  next same => exact absurd (List.cons.inj same).1 (other 'n' rfl (by decide))
  next same => exact absurd (List.cons.inj same).1 (other 't' rfl (by decide))
  next same => exact absurd (List.cons.inj same).1 (other 'f' rfl (by decide))
  next same => exact absurd (List.cons.inj same).1 (other '"' rfl (by decide))
  next same => exact absurd (List.cons.inj same).1 (other '[' rfl (by decide))
  next same => exact absurd (List.cons.inj same).1 (other '\x7b' rfl (by decide))
  next => rw [read, Option.map_some]

theorem returns_string (s : String) : Returns layout (.string s) := by
  apply returns_of_read
  intro depth fuel rest
  have text : write layout depth (.string s) ++ rest =
      '"' :: (s.toList.flatMap escapeChar ++ '"' :: rest) := by
    simp [write, writeString]
  rw [text, readValue, skipBlanks_cons _ rfl]
  simp [readString_written s rest]

theorem writeMember_append {depth : Nat} {name : String} {value : Json} {blanks tail : List Char}
    (colon : layout.afterName = ':' :: blanks) :
    writeMember layout depth (name, value) ++ tail = '"' :: (name.toList.flatMap escapeChar ++
      '"' :: ':' :: (blanks ++ (write layout depth value ++ tail))) := by
  simp [writeMember, writeString, colon]

variable (layout) in
theorem length_write_le (depth : Nat) (name : String) (value : Json) :
    (write layout depth value).length ≤ (writeMember layout depth (name, value)).length := by
  simp only [writeMember, List.length_append]
  omega

section plain

variable (plain : layout.Plain)

include plain

theorem skipBlanks_end (outer : Nat) (rest : List Char) :
    skipBlanks (layout.lineBreak outer ++ ']' :: rest) = ']' :: rest ∧
      skipBlanks (layout.lineBreak outer ++ '\x7d' :: rest) = '\x7d' :: rest := by
  rw [skipBlanks_append (plain.lineBreak outer), skipBlanks_append (plain.lineBreak outer)]
  exact ⟨skipBlanks_cons rest rfl, skipBlanks_cons rest rfl⟩

theorem returnsItems_single {item : Json} (returns : Returns layout item) :
    ReturnsItems layout item [] := by
  intro depth fuel outer rest enough
  obtain ⟨fuel, rfl⟩ : ∃ less, fuel = less + 1 := ⟨fuel - 1, by omega⟩
  have stops := stops_blanks (plain.lineBreak outer) rest (show isNumeric ']' = false from rfl)
  rw [writeItems, List.nil_append, readItems, returns depth fuel _ (by omega) stops]
  simp only [Option.bind_eq_bind, Option.bind_some, skipBlanks_end plain outer rest]
  rfl

theorem returnsItems_cons {item next : Json} {items : List Json} (returns : Returns layout item)
    (later : ReturnsItems layout next items) : ReturnsItems layout item (next :: items) := by
  intro depth fuel outer rest enough
  obtain ⟨fuel, rfl⟩ : ∃ less, fuel = less + 1 := ⟨fuel - 1, by omega⟩
  have written : writeItems layout depth (next :: items) ++ (layout.lineBreak outer ++ ']' :: rest) =
      ',' :: (layout.lineBreak depth ++ (write layout depth next ++
        (writeItems layout depth items ++ (layout.lineBreak outer ++ ']' :: rest)))) := by
    simp [writeItems]
  have length : (writeItems layout depth (next :: items)).length = 1 + (layout.lineBreak depth).length +
      (write layout depth next).length + (writeItems layout depth items).length := by
    simp only [writeItems, List.length_append, List.length_singleton]
  have others := later depth fuel outer rest (by omega)
  have comma := fun cs => skipBlanks_cons cs (show isBlank ',' = false from rfl)
  rw [written, readItems, returns depth fuel _ (by omega) (.cons rfl)]
  simp only [Option.bind_eq_bind, Option.bind_some, comma, readItems_blanks (plain.lineBreak depth),
    others]
  rfl

theorem returns_array {item : Json} {items : List Json} (returns : ReturnsItems layout item items) :
    Returns layout (.array (item :: items)) := by
  intro depth fuel rest enough stops
  obtain ⟨fuel, rfl⟩ := exists_fuel enough
  have written : write layout depth (.array (item :: items)) ++ rest =
      '[' :: (layout.lineBreak (depth + 1) ++ (write layout (depth + 1) item ++
        (writeItems layout (depth + 1) items ++ (layout.lineBreak depth ++ ']' :: rest)))) := by
    simp [write, writeItems]
  have length : (write layout (depth + 1) item).length + (writeItems layout (depth + 1) items).length + 2 ≤
      (write layout depth (.array (item :: items))).length := by
    simp only [write, writeItems, List.cons_append, List.nil_append, List.drop_succ_cons, List.drop_zero,
      List.length_append, List.length_cons, List.length_nil]
    omega
  have inside := returns (depth + 1) fuel depth rest (by omega)
  obtain ⟨c, cs, head, solid, goesOn⟩ := head_write layout (depth + 1) item
  rw [head, List.cons_append] at written inside
  have skipped := skipBlanks_append (plain.lineBreak (depth + 1))
    (c :: (cs ++ (writeItems layout (depth + 1) items ++ (layout.lineBreak depth ++ ']' :: rest))))
  rw [skipBlanks_cons _ solid] at skipped
  rw [written, readValue_bracket fuel (by simpa [skipped] using goesOn), skipped, inside, Option.map_some]

theorem returnsMembers_single {name : String} {value : Json} (returns : Returns layout value) :
    ReturnsMembers layout (name, value) [] := by
  intro depth fuel outer rest enough
  obtain ⟨fuel, rfl⟩ : ∃ less, fuel = less + 1 := ⟨fuel - 1, by omega⟩
  obtain ⟨blanks, colon, blank⟩ := plain.afterName
  have shorter := length_write_le layout depth name value
  have stops := stops_blanks (plain.lineBreak outer) rest (show isNumeric '\x7d' = false from rfl)
  have afterName := fun cs => skipBlanks_cons cs (show isBlank ':' = false from rfl)
  rw [writeMembers, List.nil_append, writeMember_append colon, readMembers, skipBlanks_cons _ rfl]
  simp only [Option.bind_eq_bind, Option.bind_some, readString_written, afterName,
    readValue_blanks blank, returns depth fuel _ (by omega) stops, skipBlanks_end plain outer rest]
  rfl

theorem returnsMembers_cons {name : String} {value : Json} {next : String × Json}
    {members : List (String × Json)} (returns : Returns layout value)
    (later : ReturnsMembers layout next members) :
    ReturnsMembers layout (name, value) (next :: members) := by
  intro depth fuel outer rest enough
  obtain ⟨fuel, rfl⟩ : ∃ less, fuel = less + 1 := ⟨fuel - 1, by omega⟩
  obtain ⟨blanks, colon, blank⟩ := plain.afterName
  have shorter := length_write_le layout depth name value
  have written : writeMembers layout depth (next :: members) ++
      (layout.lineBreak outer ++ '\x7d' :: rest) = ',' :: (layout.lineBreak depth ++
        (writeMember layout depth next ++ (writeMembers layout depth members ++
          (layout.lineBreak outer ++ '\x7d' :: rest)))) := by
    simp [writeMembers]
  have length : (writeMembers layout depth (next :: members)).length = 1 +
      (layout.lineBreak depth).length + (writeMember layout depth next).length +
        (writeMembers layout depth members).length := by
    simp only [writeMembers, List.length_append, List.length_singleton]
  have others := later depth fuel outer rest (by omega)
  have afterName := fun cs => skipBlanks_cons cs (show isBlank ':' = false from rfl)
  have comma := fun cs => skipBlanks_cons cs (show isBlank ',' = false from rfl)
  have stops : ∀ cs, Stops isNumeric (',' :: cs) := fun cs => .cons rfl
  rw [written, writeMember_append colon, readMembers, skipBlanks_cons _ rfl]
  simp only [Option.bind_eq_bind, Option.bind_some, readString_written, afterName,
    readValue_blanks blank, returns depth fuel _ (by omega) (stops _), comma,
    readMembers_blanks (plain.lineBreak depth), others]
  rfl

theorem returns_object {member : String × Json} {members : List (String × Json)}
    (returns : ReturnsMembers layout member members) :
    Returns layout (.object (member :: members)) := by
  intro depth fuel rest enough stops
  obtain ⟨fuel, rfl⟩ := exists_fuel enough
  have written : write layout depth (.object (member :: members)) ++ rest =
      '\x7b' :: (layout.lineBreak (depth + 1) ++ (writeMember layout (depth + 1) member ++
        (writeMembers layout (depth + 1) members ++ (layout.lineBreak depth ++ '\x7d' :: rest)))) := by
    simp [write, writeMembers]
  have length : (writeMember layout (depth + 1) member).length +
      (writeMembers layout (depth + 1) members).length + 2 ≤
        (write layout depth (.object (member :: members))).length := by
    simp only [write, writeMembers, List.cons_append, List.nil_append, List.drop_succ_cons,
      List.drop_zero, List.length_append, List.length_cons, List.length_nil]
    omega
  have inside := returns (depth + 1) fuel depth rest (by omega)
  obtain ⟨cs, quoted⟩ : ∃ cs, writeMember layout (depth + 1) member = '"' :: cs := by
    obtain ⟨name, value⟩ := member
    exact ⟨_, rfl⟩
  rw [quoted, List.cons_append] at written inside
  have skipped := skipBlanks_append (plain.lineBreak (depth + 1)) ('"' :: (cs ++
    (writeMembers layout (depth + 1) members ++ (layout.lineBreak depth ++ '\x7d' :: rest))))
  rw [skipBlanks_cons _ rfl] at skipped
  rw [written, readValue_brace fuel (by simp [skipped]), skipped, inside, Option.map_some]
  rfl

mutual

theorem readValue_write : ∀ j : Json, j.Readable → Returns layout j
  | .null, _ => returns_of_read fun _ _ _ => rfl
  | .bool true, _ => returns_of_read fun _ _ _ => rfl
  | .bool false, _ => returns_of_read fun _ _ _ => rfl
  | .number n, _ => returns_number n
  | .string s, _ => returns_string s
  | .array [], _ => returns_of_read fun _ _ _ => rfl
  | .array (item :: items), readable =>
    returns_array plain (readItems_write (item :: items) readable item items rfl)
  | .object [], _ => returns_of_read fun _ _ _ => rfl
  | .object (member :: members), readable =>
    returns_object plain (readMembers_write (member :: members) readable member members rfl)
  | .unreadable, readable => readable.elim

theorem readItems_write : ∀ all : List Json, ReadableItems all →
    ∀ item items, all = item :: items → ReturnsItems layout item items
  | [], _, _, _, same => by cases same
  | item :: rest, readable, item', items, same => by
    have first := readValue_write item readable.1
    have later := readItems_write rest readable.2
    cases same
    cases rest with
    | nil => exact returnsItems_single plain first
    | cons next items => exact returnsItems_cons plain first (later next items rfl)

theorem readMembers_write : ∀ all : List (String × Json), ReadableMembers all →
    ∀ member members, all = member :: members → ReturnsMembers layout member members
  | [], _, _, _, same => by cases same
  | (name, value) :: rest, readable, member, members, same => by
    have first := readValue_write value readable.1
    have later := readMembers_write rest readable.2
    cases same
    cases rest with
    | nil => exact returnsMembers_single plain first
    | cons next members => exact returnsMembers_cons plain first (later next members rfl)

end

end plain

end values

/-- A written text is read back as a whole. -/
theorem parse?_write {layout : Layout} (plain : layout.Plain) {j : Json} (readable : j.Readable) :
    parse? (.ofList (write layout 0 j)) = some j := by
  have read := readValue_write plain j readable 0 (2 * (write layout 0 j).length + 2) [] (by omega)
    fun c head => by cases head
  rw [List.append_nil] at read
  simp [parse?, read, skipBlanks]

end EniForwarding.Json
