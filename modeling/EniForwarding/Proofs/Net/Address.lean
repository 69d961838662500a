import EniForwarding.Net.Address
import EniForwarding.Proofs.Text.Blank

/-! Reading back a written address.

The reader takes many forms of an address and the writer makes one. What the writer
makes is read back as the address it was made from, so no two addresses are written
alike. The groups of an IPv6 address are read one by one; they end where the text
ends or where the gap for the run of zeros begins.
-/

set_option autoImplicit false

namespace EniForwarding

namespace Text

theorem takeWhile_run {p : Char → Bool} {run rest : List Char} (all : ∀ c ∈ run, p c)
    (stop : ∀ c, rest.head? = some c → p c = false) : (run ++ rest).takeWhile p = run := by
  rw [List.takeWhile_append_of_pos all]
  cases rest with
  | nil => simp
  | cons c rest => simp [stop c rfl]

theorem dropWhile_run {p : Char → Bool} {run rest : List Char} (all : ∀ c ∈ run, p c)
    (stop : ∀ c, rest.head? = some c → p c = false) : (run ++ rest).dropWhile p = rest := by
  rw [List.dropWhile_append_of_pos all]
  cases rest with
  | nil => simp
  | cons c rest => simp [stop c rfl]

end Text

namespace Net

namespace Ipv4

theorem octet?_toDigits (o : UInt8) (rest : List Char)
    (stop : ∀ c, rest.head? = some c → c.isDigit = false) :
    octet? (Nat.toDigits 10 o.toNat ++ rest) = some (o, rest) := by
  have digits : ∀ c ∈ Nat.toDigits 10 o.toNat, c.isDigit = true :=
    fun c member => Nat.isDigit_of_mem_toDigits (by decide) (by decide) member
  have short : (Nat.toDigits 10 o.toNat).length ≤ 3 :=
    (Nat.length_toDigits_le_iff (by decide) (by decide)).2 (by have := o.toNat_lt; omega)
  have plain : ∀ n < 256, (Nat.toDigits 10 n).length = 1 ∨ (Nat.toDigits 10 n).head? ≠ some '0' := by
    decide +kernel
  have read := Text.someDigits?_toDigits 10 (by decide) (by decide) o.toNat
  have below : o.toNat < 256 := o.toNat_lt
  have kept : (some o.toNat).filter (· < 256) = some o.toNat :=
    Option.filter_some_pos (decide_eq_true below)
  have guard : ((Nat.toDigits 10 o.toNat).length ≤ 3 && ((Nat.toDigits 10 o.toNat).length == 1 ||
      (Nat.toDigits 10 o.toNat).head? != some '0')) = true := by
    rcases plain o.toNat below with one | head
    · simp [one]
    · simp [short, head]
  simp only [octet?, Text.takeWhile_run digits stop, Text.dropWhile_run digits stop, read, kept]
  rw [if_pos guard, Option.map_some, UInt8.ofNat_toNat]

theorem read?_render (ip : Ipv4) (rest : List Char)
    (stop : ∀ c, rest.head? = some c → c.isDigit = false) :
    read? (ip.render.toList ++ rest) = some (ip, rest) := by
  have dot : ∀ cs : List Char, ∀ c, ('.' :: cs).head? = some c → c.isDigit = false := by
    intro cs c head
    cases head
    rfl
  have text : ip.render.toList ++ rest = Nat.toDigits 10 ip.a.toNat ++ ('.' ::
      (Nat.toDigits 10 ip.b.toNat ++ ('.' :: (Nat.toDigits 10 ip.c.toNat ++ ('.' ::
        (Nat.toDigits 10 ip.d.toNat ++ rest)))))) := by
    simp [render, octets, Text.renderRadix]
  rw [text, read?]
  simp [octet?_toDigits _ _ (dot _), octet?_toDigits ip.d rest stop, dot?]

theorem octet?_rest {cs rest : List Char} {o : UInt8} (read : octet? cs = some (o, rest)) :
    rest = cs.dropWhile Char.isDigit := by
  simp only [octet?] at read
  split at read
  · simp only [Option.map_eq_some_iff] at read
    obtain ⟨n, -, same⟩ := read
    exact (congrArg Prod.snd same).symm
  · simp at read

theorem read?_eq_none {cs : List Char} (plain : '.' ∉ cs) : read? cs = none := by
  rw [read?]
  cases first : octet? cs with
  | none => rfl
  | some pair =>
    obtain ⟨o, rest⟩ := pair
    have plain' : '.' ∉ rest := by
      rw [octet?_rest first]
      exact fun member => plain (List.dropWhile_subset _ member)
    cases rest with
    | nil => rfl
    | cons c rest =>
      have other : c ≠ '.' := fun same => plain' (by simp [same])
      simp [dot?, other]

end Ipv4

namespace Ipv6

theorem group?_toDigits (g : UInt16) (rest : List Char)
    (stop : ∀ c, rest.head? = some c → Text.digit? 16 c = none) :
    group? (Nat.toDigits 16 g.toNat ++ rest) = some (g, rest) := by
  have digits : ∀ c ∈ Nat.toDigits 16 g.toNat, (Text.digit? 16 c).isSome = true :=
    fun c member => Text.isSome_digit?_of_mem_toDigits 16 (by decide) (by decide) member
  have stop' : ∀ c, rest.head? = some c → (Text.digit? 16 c).isSome = false :=
    fun c head => by simp [stop c head]
  have short : (Nat.toDigits 16 g.toNat).length ≤ 4 :=
    (Nat.length_toDigits_le_iff (by decide) (by decide)).2 (by have := g.toNat_lt; omega)
  have read := Text.someDigits?_toDigits 16 (by decide) (by decide) g.toNat
  simp [group?, Text.takeWhile_run digits stop', Text.dropWhile_run digits stop', read, short]

/-- The groups of a part between colons, with a colon in front unless it is the first part. -/
def written (first : Bool) : List UInt16 → List Char
  | [] => []
  | g :: rest =>
    (if first then [] else [':']) ++ Nat.toDigits 16 g.toNat ++ written false rest

theorem toList_renderGroups (groups : List UInt16) :
    (renderGroups groups).toList = written true groups := by
  have later : ∀ rest : List UInt16, ∀ first : List Char,
      [':'].intercalate (first :: rest.map fun g => Nat.toDigits 16 g.toNat) =
        first ++ written false rest := by
    intro rest
    induction rest with
    | nil => simp [written, List.intercalate]
    | cons g rest ih =>
      intro first
      have step := ih (Nat.toDigits 16 g.toNat)
      simp only [List.intercalate, List.map_cons, List.intersperse_cons_cons, List.flatten_cons] at step ⊢
      simp [written, step]
  cases groups with
  | nil => simp [renderGroups, written]
  | cons g rest =>
    have joined := later rest (Nat.toDigits 16 g.toNat)
    simpa [renderGroups, written, Text.renderRadix, Function.comp_def] using joined

theorem mem_written {first : Bool} {groups : List UInt16} {c : Char}
    (member : c ∈ written first groups) : c = ':' ∨ (Text.digit? 16 c).isSome := by
  induction groups generalizing first with
  | nil => simp [written] at member
  | cons g rest ih =>
    simp only [written, List.mem_append] at member
    rcases member with (colon | digit) | later
    · split at colon
      · simp at colon
      · exact .inl (List.mem_singleton.1 colon)
    · exact .inr (Text.isSome_digit?_of_mem_toDigits 16 (by decide) (by decide) digit)
    · exact ih later

theorem dot_not_mem_written (first : Bool) (groups : List UInt16) : '.' ∉ written first groups := by
  intro member
  rcases mem_written member with same | digit
  · exact absurd same (by decide)
  · exact absurd digit (by decide)

/-- What may stand behind the groups of a part: nothing, or the gap for the zeros. -/
def EndsPart (rest : List Char) : Prop := rest = [] ∨ ∃ tail, rest = ':' :: ':' :: tail

theorem readGroups_nothing (room : Nat) (first : Bool) {rest : List Char} (ends : EndsPart rest) :
    readGroups room first rest = ([], false, rest) := by
  cases room with
  | zero => rfl
  | succ room =>
    have noAddress : ∀ tail, Ipv4.read? (':' :: tail) = none := fun tail => rfl
    have noGroup : ∀ tail, group? (':' :: tail) = none := fun tail => rfl
    rcases ends with rfl | ⟨tail, rfl⟩ <;> cases first
    · rfl
    · simp [readGroups, afterColon?, Ipv4.read?_eq_none, group?, Text.someDigits?]
    · simp [readGroups, afterColon?, noAddress, noGroup]
    · simp [readGroups, afterColon?, noAddress, noGroup]

theorem readGroups_written (groups : List UInt16) (room : Nat) (first : Bool) (rest : List Char)
    (fits : groups.length ≤ room) (ends : EndsPart rest) (plain : '.' ∉ rest) :
    readGroups room first (written first groups ++ rest) = (groups, false, rest) := by
  induction groups generalizing room first with
  | nil => exact readGroups_nothing room first ends
  | cons g groups ih =>
    obtain ⟨room, rfl⟩ : ∃ r, room = r + 1 := ⟨room - 1, by simp at fits; omega⟩
    -- the digits of the group end at a colon or with the text
    have behind : ∀ c, (written false groups ++ rest).head? = some c → Text.digit? 16 c = none := by
      intro c head
      have colon : c = ':' := by
        cases groups with
        | nil =>
          rcases ends with rfl | ⟨tail, rfl⟩
          · simp [written] at head
          · simpa [written, eq_comm] using head
        | cons => simpa [written, eq_comm] using head
      rw [colon]
      decide
    have front : afterColon? first (written first (g :: groups) ++ rest) =
        some (Nat.toDigits 16 g.toNat ++ (written false groups ++ rest)) := by
      cases first with
      | false => simp [written, afterColon?]
      | true =>
        cases digits : Nat.toDigits 16 g.toNat with
        | nil => exact absurd digits Nat.toDigits_ne_nil
        | cons c cs =>
          have apart : c ≠ ':' := by
            rintro rfl
            have digit := Text.isSome_digit?_of_mem_toDigits 16 (n := g.toNat) (c := ':')
              (by decide) (by decide) (by simp [digits])
            exact absurd digit (by decide)
          simp [written, digits, afterColon?, apart]
    -- a dotted address would be read in preference to a group
    have noAddress : Ipv4.read? (Nat.toDigits 16 g.toNat ++ (written false groups ++ rest)) = none := by
      apply Ipv4.read?_eq_none
      have whole := dot_not_mem_written true (g :: groups)
      simp only [written, ↓reduceIte, List.nil_append, List.mem_append, not_or] at whole ⊢
      exact ⟨whole.1, whole.2, plain⟩
    have tail := ih room false (by simpa using fits)
    simp [readGroups, front, noAddress, group?_toDigits g _ behind, tail]

theorem takeWhile_zeros (groups : List UInt16) :
    List.replicate (groups.takeWhile (· == 0)).length 0 = groups.takeWhile (· == 0) := by
  symm
  apply List.eq_replicate_iff.2
  refine ⟨rfl, fun g member => ?_⟩
  have all := List.all_eq_true.1 (List.all_takeWhile (p := (· == (0 : UInt16))) (l := groups))
  simpa using all g member

theorem longestZeros_run (groups : List UInt16) :
    (longestZeros groups).1 + (longestZeros groups).2 ≤ groups.length ∧
      groups.take (longestZeros groups).1 ++ (List.replicate (longestZeros groups).2 0 ++
        groups.drop ((longestZeros groups).1 + (longestZeros groups).2)) = groups := by
  induction groups with
  | nil => simp [longestZeros]
  | cons g rest ih =>
    simp only [longestZeros]
    split
    next here =>
      have front := List.takeWhile_prefix (l := g :: rest) (· == (0 : UInt16))
      refine ⟨by simpa using front.length_le, ?_⟩
      rw [List.take_zero, List.nil_append, takeWhile_zeros, Nat.zero_add]
      exact (congrArg (· ++ _) (List.prefix_iff_eq_take.1 front)).trans (List.take_append_drop _ _)
    next =>
      obtain ⟨inside, whole⟩ := ih
      refine ⟨by simp only [List.length_cons]; omega, ?_⟩
      rw [Nat.add_right_comm, List.take_succ_cons, List.drop_succ_cons, List.cons_append, whole]

theorem le_length_takeWhile_zeros {groups : List UInt16} {length : Nat}
    (zeros : ∀ i < length, groups[i]? = some 0) :
    length ≤ (groups.takeWhile (· == 0)).length := by
  induction length generalizing groups with
  | zero => exact Nat.zero_le _
  | succ length ih =>
    cases groups with
    | nil => cases zeros 0 (Nat.succ_pos _)
    | cons g rest =>
      obtain rfl : g = 0 := by simpa using zeros 0 (Nat.succ_pos _)
      have tail : length ≤ (rest.takeWhile (· == 0)).length :=
        ih fun i below => by simpa using zeros (i + 1) (Nat.succ_lt_succ below)
      simpa using tail

/-- No run of zeros is longer than the chosen one, and none that is as long starts before it. -/
theorem longestZeros_longest {groups : List UInt16} {start length : Nat}
    (inside : start + length ≤ groups.length)
    (zeros : ∀ i < length, groups[start + i]? = some 0) :
    length ≤ (longestZeros groups).2 ∧
      (length = (longestZeros groups).2 → 0 < length → (longestZeros groups).1 ≤ start) := by
  induction groups generalizing start with
  | nil =>
    simp only [List.length_nil] at inside
    exact ⟨by omega, by omega⟩
  | cons g rest ih =>
    simp only [longestZeros]
    cases start with
    | zero =>
      have front : length ≤ ((g :: rest).takeWhile (· == 0)).length :=
        le_length_takeWhile_zeros fun i below => by simpa using zeros i below
      split
      · exact ⟨front, fun _ _ => Nat.zero_le _⟩
      · exact ⟨by simp only; omega, fun same _ => by simp only at same; omega⟩
    | succ start =>
      have inside' : start + length ≤ rest.length := by
        simp only [List.length_cons] at inside
        omega
      obtain ⟨shorter, later⟩ :=
        ih inside' fun i below => by simpa [Nat.add_right_comm] using zeros i below
      split
      next here => exact ⟨Nat.le_trans shorter here, fun _ _ => Nat.zero_le _⟩
      next => exact ⟨shorter, fun same some_ => Nat.succ_le_succ (later same some_)⟩

theorem groupsOf_mapped {high low : UInt16} :
    groupsOf ⟨(high >>> 8).toUInt8, high.toUInt8, (low >>> 8).toUInt8, low.toUInt8⟩ =
      [high, low] := by
  have halves : ∀ g : UInt16, (g >>> 8).toUInt8.toUInt16 * 256 + g.toUInt8.toUInt16 = g := by
    intro g
    apply UInt16.toNat_inj.1
    have bound := g.toNat_lt
    simp [UInt16.toNat_add, UInt16.toNat_mul, Nat.shiftRight_eq_div_pow]
    omega
  simp only [groupsOf, halves]

theorem mapped?_eq_some {ip : Ipv6} {v4 : Ipv4} (mapped : ip.mapped? = some v4) :
    ip.groups = [0, 0, 0, 0, 0, 0xffff] ++ groupsOf v4 := by
  simp only [mapped?] at mapped
  split at mapped
  next high low groups =>
    cases mapped
    rw [groupsOf_mapped, groups]
    rfl
  next => cases mapped

theorem ofGroups?_groups (ip : Ipv6) : ofGroups? ip.groups = some ip := by
  simp [ofGroups?, ip.length_groups]

theorem read?_mapped (v4 : Ipv4) :
    read? ("::ffff:" ++ v4.render).toList =
      (ofGroups? ([0, 0, 0, 0, 0, 0xffff] ++ groupsOf v4)).map (·, []) := by
  have text : ("::ffff:" ++ v4.render).toList =
      ':' :: ':' :: 'f' :: 'f' :: 'f' :: 'f' :: ':' :: v4.render.toList := by simp
  have front := readGroups_nothing 8 true (.inr ⟨_, text⟩)
  have dotted : readGroups 6 false (':' :: v4.render.toList) = (groupsOf v4, true, []) := by
    have address := v4.read?_render [] (by simp)
    rw [List.append_nil] at address
    simp [readGroups, afterColon?, address]
  have tail : readGroups 7 true ('f' :: 'f' :: 'f' :: 'f' :: ':' :: v4.render.toList) =
      (0xffff :: groupsOf v4, true, []) := by
    have group := group?_toDigits 0xffff (':' :: v4.render.toList) (by
      intro c head
      cases head
      decide)
    have digits : Nat.toDigits 16 (0xffff : UInt16).toNat = ['f', 'f', 'f', 'f'] := by decide
    have noAddress : ∀ cs, Ipv4.read? ('f' :: cs) = none := fun cs => rfl
    rw [digits] at group
    simp only [List.cons_append, List.nil_append] at group
    rw [readGroups]
    simp [afterColon?, noAddress, group, dotted]
  rw [text] at front ⊢
  simp [read?, front, tail, groupsOf]

theorem read?_render (ip : Ipv6) : read? ip.render.toList = some (ip, []) := by
  rw [render]
  split
  next v4 mapped =>
    rw [read?_mapped, ← mapped?_eq_some mapped, ofGroups?_groups]
    rfl
  next =>
    -- what is left out between the two parts are zeros, and as many as the parts lack
    obtain ⟨inside, whole⟩ := longestZeros_run ip.groups
    rw [ip.length_groups] at inside
    simp only
    split
    next long =>
      have front : ((ip.groups.take (longestZeros ip.groups).1).length) = (longestZeros ip.groups).1 := by
        rw [List.length_take, ip.length_groups]
        omega
      have back : (ip.groups.drop ((longestZeros ip.groups).1 + (longestZeros ip.groups).2)).length =
          8 - ((longestZeros ip.groups).1 + (longestZeros ip.groups).2) := by
        rw [List.length_drop, ip.length_groups]
      generalize ip.groups.take (longestZeros ip.groups).1 = before at front whole ⊢
      generalize ip.groups.drop ((longestZeros ip.groups).1 + (longestZeros ip.groups).2) = after
        at back whole ⊢
      have text : (renderGroups before ++ "::" ++ renderGroups after).toList =
          written true before ++ (':' :: ':' :: written true after) := by
        simp [toList_renderGroups]
      have head := readGroups_written before 8 true (':' :: ':' :: written true after) (by omega) (.inr ⟨_, rfl⟩)
        (by simpa using dot_not_mem_written true after)
      have tail := readGroups_written after (7 - before.length) true []
        (by omega) (.inl rfl) (by simp)
      rw [List.append_nil] at tail
      have zeros : 8 - before.length - after.length = (longestZeros ip.groups).2 := by omega
      have short : before.length ≠ 8 := by omega
      rw [text]
      simp only [read?, head, tail, short, zeros, ↓reduceIte, Bool.false_eq_true, List.append_assoc, whole]
      rw [ofGroups?_groups]
      rfl
    next =>
      have head := readGroups_written ip.groups 8 true []
        (Nat.le_of_eq ip.length_groups) (.inl rfl) (by simp)
      rw [List.append_nil] at head
      simp [read?, toList_renderGroups, head, ip.length_groups, ofGroups?_groups]

theorem mem_render {ip : Ipv6} (plain : ip.mapped? = none) {c : Char} (member : c ∈ ip.render.toList) :
    c = ':' ∨ (Text.digit? 16 c).isSome := by
  simp only [render, plain] at member
  split at member
  · simp only [String.toList_append, toList_renderGroups, List.mem_append] at member
    rcases member with (before | gap) | after
    · exact mem_written before
    · exact .inl (by simpa using gap)
    · exact mem_written after
  · rw [toList_renderGroups] at member
    exact mem_written member

/-- No written IPv6 address begins with an IPv4 address. -/
theorem ipv4_read?_render (ip : Ipv6) : Ipv4.read? ip.render.toList = none := by
  cases mapped : ip.mapped? with
  | none =>
    apply Ipv4.read?_eq_none
    intro member
    rcases mem_render mapped member with same | digit
    · exact absurd same (by decide)
    · exact absurd digit (by decide)
  | some v4 =>
    have text : ip.render.toList = ':' :: (":ffff:" ++ v4.render).toList := by
      simp [render, mapped]
    rw [text]
    rfl

end Ipv6

theorem Ipv4.mem_render {ip : Ipv4} {c : Char} (member : c ∈ ip.render.toList) :
    c = '.' ∨ c.isDigit := by
  have octet : ∀ o : UInt8, c ∈ Nat.toDigits 10 o.toNat → c.isDigit = true :=
    fun o digit => Nat.isDigit_of_mem_toDigits (by decide) (by decide) digit
  simp [render, octets, Text.renderRadix] at member
  grind

namespace Address

theorem ofChars?_render (ip : Address) : ofChars? ip.render.toList = some ip := by
  cases ip with
  | v4 ip =>
    have read := ip.read?_render [] (by simp)
    rw [List.append_nil] at read
    simp [ofChars?, render, read]
  | v6 ip => simp [ofChars?, render, ip.ipv4_read?_render, ip.read?_render]

theorem render_injective : Function.Injective render := by
  intro first second same
  have read := first.ofChars?_render
  rw [same, second.ofChars?_render] at read
  exact (Option.some.inj read).symm

theorem mem_render {ip : Address} {c : Char} (member : c ∈ ip.render.toList) :
    c = ':' ∨ c = '.' ∨ (Text.digit? 16 c).isSome := by
  have dotted : ∀ v4 : Ipv4, c ∈ v4.render.toList → c = ':' ∨ c = '.' ∨ (Text.digit? 16 c).isSome :=
    fun v4 member => .inr ((Ipv4.mem_render member).imp id Text.isSome_digit?_of_isDigit)
  cases ip with
  | v4 ip => exact dotted ip member
  | v6 ip =>
    cases mapped : ip.mapped? with
    | none => exact (Ipv6.mem_render mapped member).imp id .inr
    | some v4 =>
      have tail : c = ':' ∨ c ∈ [':', 'f'] ∨ c ∈ v4.render.toList := by
        simp [render, Ipv6.render, mapped] at member
        grind
      rcases tail with colon | prefixed | later
      · exact .inl colon
      · rcases List.mem_cons.1 prefixed with colon | last
        · exact .inl colon
        · rw [List.mem_singleton.1 last]
          exact .inr (.inr rfl)
      · exact dotted v4 later

/-- No written address holds the sign that sets off the name of a tunnel. -/
theorem at_not_mem_render (ip : Address) : '@' ∉ ip.render.toList := by
  intro member
  rcases mem_render member with colon | dot | digit
  · exact absurd colon (by decide)
  · exact absurd dot (by decide)
  · exact absurd digit (by decide)

theorem isBlank_of_mem_render {ip : Address} {c : Char} (member : c ∈ ip.render.toList) :
    Text.isBlank c = false := by
  rcases mem_render member with rfl | rfl | digit
  · rfl
  · rfl
  · exact Text.isBlank_of_digit digit

theorem ofText?_padded {ip : Address} {s : String} (padded : Text.Padded ip.render.toList s) :
    ofText? s = some ip := by
  rw [ofText?, padded.trimChars fun _ => isBlank_of_mem_render, ofChars?_render]

theorem ofText?_render (ip : Address) : ofText? ip.render = some ip :=
  ofText?_padded (Text.padded_self _)

theorem ofText?_trim (s : String) : ofText? (Text.trim s) = ofText? s := by
  rw [ofText?, ofText?, Text.trim, String.toList_ofList, Text.trimChars_trimChars]

theorem ne_empty_of_ofText? {s : String} {ip : Address} (valid : ofText? s = some ip) : s ≠ "" := by
  rintro rfl
  cases valid

end Address

end Net
end EniForwarding
