import KeyScan.Json.Parser
import KeyScan.Json.Printer
import KeyScan.Proofs.Lists

/-! # JSON text is read back

The text of a value without doubles is read as that value, whatever texts it holds and however deeply
it nests. Such values with one text are therefore one value. -/

namespace KeyScan.Json

/-- Values whose text determines them: no double is among them, every string is a text, and every
number fits 64 bits. -/
inductive Exact : Json → Prop
  | null : Exact null
  | bool (value : Bool) : Exact (bool value)
  | int {n : Int} (low : Int64.minValue.toInt ≤ n) (high : n < UInt64.size) : Exact (int n)
  | text (value : String) : Exact (text value)
  | array {items : List Json} (h : ∀ item ∈ items, Exact item) : Exact (array items)
  | object {members : List (String × Json)} (h : ∀ m ∈ members, Exact m.2) :
      Exact (object members)

/-! ### Strings -/

section Strings

variable {rest tail : List Char} {body : Quoted}

theorem stringBody_short {c : Char} {unit : Nat} (hc : c ≠ 'u') (hunit : shortEscape? c = some unit)
    (h : stringBody rest = some (body, tail)) :
    stringBody ('\\' :: c :: rest) = some (⟨unit :: body.units, body.strict⟩, tail) := by
  rw [stringBody, hunit, h]
  · rfl
  · intro _ _ _ _ _ hu
    exact absurd hu hc

theorem stringBody_unit {a b c d : Char} {unit : Nat} (hunit : codeUnit? a b c d = some unit)
    (h : stringBody rest = some (body, tail)) :
    stringBody ('\\' :: 'u' :: a :: b :: c :: d :: rest) =
      some (⟨unit :: body.units, body.strict⟩, tail) := by
  rw [stringBody, hunit, h]
  rfl

theorem stringBody_plain {c : Char} (hquote : c ≠ '"') (hbackslash : c ≠ '\\')
    (hcontrol : 0x20 ≤ c.toNat) (h : stringBody rest = some (body, tail)) :
    stringBody (c :: rest) = some (⟨c.toNat :: body.units, body.strict⟩, tail) := by
  rw [stringBody, if_neg hbackslash, h]
  · simp [hcontrol]
  · exact hquote
  · intro _ _ _ _ _ hc
    exact absurd hc hbackslash
  · intro _ _ hc
    exact absurd hc hbackslash

theorem hexDigit?_toDigits {d : Nat} (h : d < 16) :
    ∃ c, Nat.toDigits 16 d = [c] ∧ hexDigit? c = some d := by
  refine ⟨d.digitChar, Nat.toDigits_of_lt_base h, ?_⟩
  revert d
  decide

/-- A character is read as its number, escaped or not. -/
theorem stringBody_escapeChar (c : Char) (h : stringBody rest = some (body, tail)) :
    stringBody (escapeChar c ++ rest) = some (⟨c.toNat :: body.units, body.strict⟩, tail) := by
  unfold escapeChar
  split
  case h_8 hquote hbackslash _ _ _ _ _ =>
    split
    · rename_i hcontrol
      obtain ⟨high, hhigh, hhigh'⟩ := hexDigit?_toDigits (show c.toNat / 16 < 16 by omega)
      obtain ⟨low, hlow, hlow'⟩ := hexDigit?_toDigits (show c.toNat % 16 < 16 by omega)
      have hzero : hexDigit? '0' = some 0 := rfl
      have hunit : codeUnit? '0' '0' high low = some c.toNat := by
        simp only [codeUnit?, hzero, hhigh', hlow', Option.bind_eq_bind, Option.bind_some,
          Option.pure_def]
        congr 1
        omega
      rw [hhigh, hlow]
      exact stringBody_unit hunit h
    · rename_i hplain
      exact stringBody_plain hquote hbackslash (by omega) h
  all_goals exact stringBody_short (by decide) rfl h

theorem stringBody_quoted (cs rest : List Char) :
    stringBody (cs.flatMap escapeChar ++ '"' :: rest) =
      some (⟨cs.map Char.toNat, true⟩, rest) := by
  induction cs with
  | nil => rfl
  | cons c cs ih =>
      rw [List.flatMap_cons, List.append_assoc, stringBody_escapeChar c ih]
      rfl

end Strings

/-- The number of a character is no half of a pair. -/
theorem not_surrogate (c : Char) :
    isHighSurrogate c.toNat = false ∧ isLowSurrogate c.toNat = false := by
  have hvalid : c.toNat < 0xD800 ∨ 0xDFFF < c.toNat ∧ c.toNat < 0x110000 := c.valid
  simp only [isHighSurrogate, isLowSurrogate, Bool.and_eq_false_iff, decide_eq_false_iff_not]
  omega

theorem joinPairs_map_toNat (cs : List Char) :
    joinPairs (cs.map Char.toNat) = cs.map Char.toNat := by
  induction cs with
  | nil => rfl
  | cons c cs ih =>
      cases cs with
      | nil => rfl
      | cons next rest =>
          rw [List.map_cons, List.map_cons, joinPairs, (not_surrogate c).1, ← List.map_cons, ih]
          rfl

theorem ofQuoted_chars (value : String) :
    ofQuoted ⟨value.toList.map Char.toNat, true⟩ = text value := by
  have hwhole : (value.toList.map Char.toNat).any
      (fun n => isHighSurrogate n || isLowSurrogate n) = false := by
    rw [List.any_map, List.any_eq_false]
    intro c _
    simp [not_surrogate c]
  have hchars : (value.toList.map Char.toNat).map Char.ofNat = value.toList := by
    simp [Function.comp_def]
  simp only [ofQuoted, joinPairs_map_toNat, hwhole, hchars]
  simp

/-! ### Numbers -/

/-- What may come after an item of an array or a member of an object, or after the value as a
whole. -/
def Ends (rest : List Char) : Prop :=
  ∀ c ∈ rest.head?, c = ',' ∨ c = ']' ∨ c = '\x7d'

section Numbers

variable {rest : List Char}

theorem takeWhile_isDigit_append {digits : List Char} (hdigits : ∀ c ∈ digits, c.isDigit = true)
    (h : Ends rest) : (digits ++ rest).takeWhile Char.isDigit = digits := by
  rw [List.takeWhile_append_of_pos hdigits]
  cases rest with
  | nil => simp
  | cons c rest =>
      rcases h c rfl with rfl | rfl | rfl <;> simp

theorem dropWhile_isDigit_append {digits : List Char} (hdigits : ∀ c ∈ digits, c.isDigit = true)
    (h : Ends rest) : (digits ++ rest).dropWhile Char.isDigit = rest := by
  rw [List.dropWhile_append_of_pos hdigits]
  cases rest with
  | nil => rfl
  | cons c rest =>
      rcases h c rfl with rfl | rfl | rfl <;> rfl

/-- Only zero starts with a zero. -/
theorem head?_toDigits {n : Nat} (h : n ≠ 0) : (Nat.toDigits 10 n).head? ≠ some '0' := by
  induction n using Nat.strongRecOn with
  | _ n ih =>
      rw [Nat.toDigits_eq_if (by decide)]
      split
      · simpa using h
      · rw [List.head?_append_of_ne_nil _ Nat.toDigits_ne_nil]
        exact ih (n / 10) (by omega) (by omega)

theorem number?_toDigits (negative : Bool) (n : Nat) (h : Ends rest) :
    number? negative (Nat.toDigits 10 n ++ rest) =
      some (ofInteger negative (Nat.toDigits 10 n), rest) := by
  have hdigits : ∀ c ∈ Nat.toDigits 10 n, c.isDigit = true :=
    fun c hc => Nat.isDigit_of_mem_toDigits (by decide) (by decide) hc
  have hread : digits? (Nat.toDigits 10 n ++ rest) = some (Nat.toDigits 10 n, rest) := by
    rw [digits?, takeWhile_isDigit_append hdigits h, dropWhile_isDigit_append hdigits h]
    split
    · rename_i hnil
      exact absurd hnil Nat.toDigits_ne_nil
    · rfl
  have hzero : ¬ ((Nat.toDigits 10 n).head? = some '0' && (Nat.toDigits 10 n).length ≠ 1) := by
    by_cases hn : n = 0
    · subst hn
      decide
    · simp [head?_toDigits hn]
  have hends : fraction? rest = some ([], rest) ∧ exponent? rest = some (none, rest) := by
    cases rest with
    | nil => exact ⟨rfl, rfl⟩
    | cons c rest => rcases h c rfl with rfl | rfl | rfl <;> exact ⟨rfl, rfl⟩
  simp only [number?, hread, hends.1, hends.2, Option.bind_eq_bind, Option.bind_some, if_neg hzero]
  rfl

theorem ofInteger_toDigits {n : Nat} (h : n < UInt64.size) :
    ofInteger false (Nat.toDigits 10 n) = int n := by
  have hvalue : (Nat.toDigits 10 n).foldl (fun acc c => 10 * acc + (c.toNat - 48)) 0 = n :=
    Nat.ofDigitChars_ten_toDigits
  simp only [ofInteger, hvalue, h]
  rfl

theorem ofInteger_neg_toDigits {n : Nat} (hpos : 0 < n)
    (h : n ≤ Int64.minValue.toInt.natAbs) : ofInteger true (Nat.toDigits 10 n) = int (-n) := by
  have hvalue : (Nat.toDigits 10 n).foldl (fun acc c => 10 * acc + (c.toNat - 48)) 0 = n :=
    Nat.ofDigitChars_ten_toDigits
  simp only [ofInteger, hvalue, h, hpos]
  rfl

end Numbers

/-! ### Values -/

section Values

variable {item : Json} {rest : List Char}

theorem value?_digit {c : Char} (hc : c.isDigit = true) (fuel : Nat) (cs : List Char) :
    value? (fuel + 1) (c :: cs) = number? false (c :: cs) := by
  rw [value?.eq_def]
  simp only
  split <;> simp_all

/-- The text of a natural number is not empty, and begins with a digit. -/
theorem exists_toDigits_eq_cons (n : Nat) :
    ∃ c cs, Nat.toDigits 10 n = c :: cs ∧ c.isDigit = true := by
  obtain ⟨c, cs, hcons⟩ := List.exists_cons_of_ne_nil (Nat.toDigits_ne_nil (n := n) (b := 10))
  exact ⟨c, cs, hcons, Nat.isDigit_of_mem_toDigits (by decide) (by decide)
    (hcons ▸ List.mem_cons_self)⟩

theorem value?_int {n : Int} (low : Int64.minValue.toInt ≤ n) (high : n < UInt64.size)
    (fuel : Nat) (h : Ends rest) :
    value? (fuel + 1) (Text.integerChars n ++ rest) = some (int n, rest) := by
  have hmin : Int64.minValue.toInt = -9223372036854775808 := by decide
  rw [Text.integerChars]
  split
  · rename_i hnegative
    have hpos : 0 < n.natAbs := by omega
    have hbound : n.natAbs ≤ Int64.minValue.toInt.natAbs := by omega
    rw [List.cons_append]
    change number? true (Nat.toDigits 10 n.natAbs ++ rest) = _
    rw [number?_toDigits true n.natAbs h, ofInteger_neg_toDigits hpos hbound]
    congr
    omega
  · rename_i hnatural
    have hbound : n.natAbs < UInt64.size := by omega
    obtain ⟨c, cs, hcons, hdigit⟩ := exists_toDigits_eq_cons n.natAbs
    rw [hcons, List.cons_append, value?_digit hdigit, ← List.cons_append, ← hcons,
      number?_toDigits false n.natAbs h, ofInteger_toDigits hbound]
    congr
    omega

/-- The text of a value is not empty, and begins neither with a blank nor with what closes an array.
-/
theorem exists_chars_eq_cons (h : Exact item) :
    ∃ c cs, item.chars = c :: cs ∧ isSpace c = false ∧ c ≠ ']' := by
  cases h with
  | null => exact ⟨_, _, rfl, by decide, by decide⟩
  | bool value => cases value <;> exact ⟨_, _, rfl, by decide, by decide⟩
  | @int n =>
      rw [chars, Text.integerChars]
      split
      · exact ⟨_, _, rfl, by decide, by decide⟩
      · obtain ⟨c, cs, hcons, hdigit⟩ := exists_toDigits_eq_cons n.natAbs
        refine ⟨c, cs, hcons, ?_, ?_⟩
        · rw [isSpace]
          simp only [Bool.or_eq_false_iff, decide_eq_false_iff_not]
          refine ⟨⟨⟨?_, ?_⟩, ?_⟩, ?_⟩ <;> (rintro rfl; simp at hdigit)
        · rintro rfl
          simp at hdigit
  | text value => exact ⟨_, _, rfl, by decide, by decide⟩
  | @array items => cases items <;> exact ⟨_, _, rfl, by decide, by decide⟩
  | @object members => cases members <;> exact ⟨_, _, rfl, by decide, by decide⟩

theorem skipSpace_chars (h : Exact item) (rest : List Char) :
    skipSpace (item.chars ++ rest) = item.chars ++ rest := by
  obtain ⟨c, cs, hcons, hspace, _⟩ := exists_chars_eq_cons h
  rw [hcons, List.cons_append, skipSpace, List.dropWhile_cons, hspace]
  rfl

/-- The value is read from its text, with as much fuel as that has characters. -/
def Reads (item : Json) : Prop :=
  ∀ fuel rest, item.chars.length ≤ fuel → Ends rest →
    value? fuel (item.chars ++ rest) = some (item, rest)

theorem skipSpace_cons {c : Char} (h : isSpace c = false) (rest : List Char) :
    skipSpace (c :: rest) = c :: rest := by
  rw [skipSpace, List.dropWhile_cons, h]
  rfl

theorem ends_itemsChars (items : List Json) (rest : List Char) : Ends (itemsChars items ++ rest) := by
  cases items <;> (rintro _ ⟨⟩; simp)

theorem ends_membersChars (members : List (String × Json)) (rest : List Char) :
    Ends (membersChars members ++ rest) := by
  cases members <;> (rintro _ ⟨⟩; simp)

theorem items?_chars {items : List Json} (hitem : Exact item ∧ Reads item)
    (hitems : ∀ other ∈ items, Exact other ∧ Reads other) {fuel : Nat}
    (hfuel : (item.chars ++ itemsChars items).length ≤ fuel) (rest : List Char) :
    items? fuel (item.chars ++ itemsChars items ++ rest) = some (item :: items, rest) := by
  induction items generalizing item fuel with
  | nil =>
      obtain _ | fuel := fuel
      · simp [itemsChars] at hfuel
      · simp only [itemsChars, List.length_append, List.length_cons] at hfuel
        rw [List.append_assoc, items?, hitem.2 fuel _ (by omega) (ends_itemsChars [] rest)]
        rfl
  | cons next items ih =>
      obtain _ | fuel := fuel
      · simp [itemsChars] at hfuel
      · simp only [itemsChars, List.length_append, List.length_cons] at hfuel
        have hnext := hitems next List.mem_cons_self
        have hskip : skipSpace (next.chars ++ itemsChars items ++ rest) =
            next.chars ++ itemsChars items ++ rest := by
          rw [List.append_assoc, skipSpace_chars hnext.1]
        have hrest : items? fuel (next.chars ++ itemsChars items ++ rest) =
            some (next :: items, rest) :=
          ih hnext (fun other hother => hitems other (List.mem_cons_of_mem next hother))
            (by rw [List.length_append]; omega)
        have hcomma : skipSpace (itemsChars (next :: items) ++ rest) =
            ',' :: (next.chars ++ itemsChars items ++ rest) := rfl
        rw [List.append_assoc, items?,
          hitem.2 fuel _ (by omega) (ends_itemsChars (next :: items) rest)]
        simp only [hcomma, hskip, hrest, Option.bind_eq_bind, Option.bind_some]
        rfl

theorem name?_chars (name : String) :
    name? ⟨name.toList.map Char.toNat, true⟩ = some (some name) := by
  rw [name?, ofQuoted_chars]

/-- One member is read, and what comes after it is left. -/
theorem members?_quoted (name : String) (hitem : Exact item ∧ Reads item) {fuel : Nat}
    (hfuel : item.chars.length ≤ fuel) (hends : Ends rest) :
    members? (fuel + 1) (quoted name ++ ':' :: item.chars ++ rest) =
      match skipSpace rest with
      | '\x7d' :: rest => some ([(some name, item)], rest)
      | ',' :: rest => do
          let (members, rest) ← members? fuel (skipSpace rest)
          return ((some name, item) :: members, rest)
      | _ => none := by
  have hcolon : skipSpace (':' :: (item.chars ++ rest)) = ':' :: (item.chars ++ rest) :=
    skipSpace_cons (by decide) _
  simp only [quoted, List.cons_append, List.append_assoc, List.nil_append]
  rw [members?, stringBody_quoted]
  simp only [name?_chars, hcolon, skipSpace_chars hitem.1, hitem.2 fuel rest hfuel hends,
    Option.bind_eq_bind, Option.bind_some]
  rfl

theorem members?_chars {members : List (String × Json)} (name : String)
    (hitem : Exact item ∧ Reads item) (hmembers : ∀ m ∈ members, Exact m.2 ∧ Reads m.2)
    {fuel : Nat} (hfuel : (quoted name ++ ':' :: item.chars ++ membersChars members).length ≤ fuel)
    (rest : List Char) :
    members? fuel (quoted name ++ ':' :: item.chars ++ membersChars members ++ rest) =
      some (((name, item) :: members).map fun m => (some m.1, m.2), rest) := by
  induction members generalizing name item fuel with
  | nil =>
      obtain _ | fuel := fuel
      · simp [quoted] at hfuel
      · simp only [membersChars, List.length_append, List.length_cons] at hfuel
        rw [List.append_assoc, members?_quoted name hitem (by omega) (ends_membersChars [] rest)]
        rfl
  | cons next members ih =>
      obtain _ | fuel := fuel
      · simp [quoted] at hfuel
      · simp only [membersChars, List.length_append, List.length_cons] at hfuel
        have hrest : members? fuel
            (quoted next.1 ++ ':' :: next.2.chars ++ membersChars members ++ rest) =
              some ((next :: members).map fun m => (some m.1, m.2), rest) :=
          ih next.1 (hmembers next List.mem_cons_self)
            (fun m hm => hmembers m (List.mem_cons_of_mem next hm))
            (by simp only [List.length_append, List.length_cons]; omega)
        have hcomma : skipSpace (membersChars (next :: members) ++ rest) =
            ',' :: (quoted next.1 ++ ':' :: next.2.chars ++ membersChars members ++ rest) := rfl
        have hquote : skipSpace (quoted next.1 ++ ':' :: next.2.chars ++ membersChars members ++
            rest) = quoted next.1 ++ ':' :: next.2.chars ++ membersChars members ++ rest := rfl
        rw [List.append_assoc,
          members?_quoted name hitem (by omega) (ends_membersChars (next :: members) rest)]
        simp only [hcomma, hquote, hrest, Option.bind_eq_bind, Option.bind_some]
        rfl

theorem ofMembers_map_some (members : List (String × Json)) :
    ofMembers (members.map fun m => (some m.1, m.2)) = object members := by
  have hnamed : (members.map fun m => (some m.1, m.2)).mapM (fun m =>
      m.1.map fun name => (name, m.2)) = some members := by
    rw [mapM_eq_some_iff, List.map_map]
    rfl
  rw [ofMembers, hnamed]

/-- Past its opening bracket an array that is not empty is read item by item. -/
theorem value?_array (h : Exact item) (fuel : Nat) (rest : List Char) :
    value? (fuel + 1) ('[' :: (item.chars ++ rest)) =
      (items? fuel (item.chars ++ rest)).map fun (items, rest) => (array items, rest) := by
  obtain ⟨c, cs, hcons, hspace, hbracket⟩ := exists_chars_eq_cons h
  rw [hcons, List.cons_append, value?, skipSpace_cons hspace]
  split
  · rename_i hclose
    exact absurd (List.cons.inj hclose).1 hbracket
  · rfl

/-- The text of a value has a first character, so there is fuel for a step. -/
theorem Reads.of_step (h : Exact item)
    (hread : ∀ fuel rest, item.chars.length ≤ fuel + 1 → Ends rest →
      value? (fuel + 1) (item.chars ++ rest) = some (item, rest)) :
    Reads item := by
  intro fuel rest hfuel hends
  obtain ⟨c, cs, hcons, _⟩ := exists_chars_eq_cons h
  obtain _ | fuel := fuel
  · simp [hcons] at hfuel
  · exact hread fuel rest hfuel hends

theorem reads_array {items : List Json} (hitems : ∀ item ∈ items, Exact item ∧ Reads item) :
    Reads (array items) := by
  refine .of_step (.array fun item hitem => (hitems item hitem).1) fun fuel rest hfuel _ => ?_
  cases items with
  | nil => rfl
  | cons item items =>
      obtain ⟨hitem, hothers⟩ := List.forall_mem_cons.mp hitems
      simp only [chars, List.length_cons, List.length_append, List.cons_append] at hfuel ⊢
      have hread : items? fuel (item.chars ++ itemsChars items ++ rest) =
          some (item :: items, rest) :=
        items?_chars hitem hothers (by rw [List.length_append]; omega) rest
      rw [List.append_assoc] at hread ⊢
      rw [value?_array hitem.1, hread, Option.map_some]

theorem reads_object {members : List (String × Json)}
    (hmembers : ∀ m ∈ members, Exact m.2 ∧ Reads m.2) : Reads (object members) := by
  refine .of_step (.object fun m hm => (hmembers m hm).1) fun fuel rest hfuel _ => ?_
  cases members with
  | nil => rfl
  | cons m members =>
      obtain ⟨hmember, hothers⟩ := List.forall_mem_cons.mp hmembers
      simp only [chars, List.length_cons, List.length_append, List.cons_append] at hfuel ⊢
      have hread : members? fuel
          (quoted m.1 ++ ':' :: m.2.chars ++ membersChars members ++ rest) =
            some ((m :: members).map fun m => (some m.1, m.2), rest) :=
        members?_chars m.1 hmember hothers
          (by simp only [List.length_append, List.length_cons]; omega) rest
      change (members? fuel
        (quoted m.1 ++ ':' :: m.2.chars ++ membersChars members ++ rest)).map
          (fun (members, rest) => (ofMembers members, rest)) = _
      rw [hread, Option.map_some]
      simp only [ofMembers_map_some]

/-- Of an array or an object the items are read one by one, each with less fuel. -/
theorem Exact.reads (h : Exact item) : Reads item := by
  induction h with
  | null => exact .of_step .null fun _ _ _ _ => rfl
  | bool value => cases value <;> exact .of_step (.bool _) fun _ _ _ _ => rfl
  | int low high =>
      refine .of_step (.int low high) fun fuel rest _ hends => ?_
      rw [chars]
      exact value?_int low high fuel hends
  | text value =>
      refine .of_step (.text value) fun fuel rest _ _ => ?_
      simp only [chars, quoted, List.cons_append, List.append_assoc, List.nil_append]
      rw [value?, stringBody_quoted, Option.map_some]
      simp only [ofQuoted_chars]
  | array h ih => exact reads_array fun item hitem => ⟨h item hitem, ih item hitem⟩
  | object h ih => exact reads_object fun m hm => ⟨h m hm, ih m hm⟩

theorem parse?_render (h : Exact item) : parse? item.render = some item := by
  have hread := h.reads (item.chars.length + 1) [] (by omega) (by simp [Ends])
  rw [List.append_nil] at hread
  have hskip := skipSpace_chars h []
  rw [List.append_nil] at hskip
  rw [parse?, render]
  simp only [String.toList_ofList, hskip, hread]
  rfl

theorem eq_of_render_eq {a b : Json} (ha : Exact a) (hb : Exact b) (h : a.render = b.render) :
    a = b := by
  have hparse := parse?_render ha
  rw [h, parse?_render hb] at hparse
  exact (Option.some.inj hparse).symm

end Values

end KeyScan.Json
