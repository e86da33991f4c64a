import Spintax.Json.Parser
import Spintax.Json.Printer
import Spintax.Proofs.DocumentInput

/-!
# Written tables and marker sets

A table and a marker set are written as an object of texts, and the text is read as JSON. The reader
takes the characters of a string one by one, so it is enough that each character, as it is written, is
read as the character: it stands for itself, or it is written as an escape of its own. Around the
strings nothing is written but braces, colons and commas, none of which begins a string.

An object is collected member by member, and a repeated name would keep its place and take the later
value. No name of a table comes twice, so its entries come back as they were, in their order.
-/

namespace Spintax

namespace Json

open Text (Reading)

variable {α : Type} {cs rest read : List Char} {c : Char}

/-- What is read is the value, and the rest is left. -/
def Leaves (reading : Option (Reading α cs)) (value : α) (rest : List Char) : Prop :=
  ∃ shorter, reading = some ⟨value, rest, shorter⟩

/-- What a reading leaves does not depend on the bound that it is read under. -/
theorem Leaves.widen {longer : List Char} {reading : Option (Reading α cs)} {value : α}
    (hleaves : Leaves reading value rest) (fits : cs.length ≤ longer.length) :
    Leaves (reading.map (·.widen fits)) value rest := by
  obtain ⟨shorter, rfl⟩ := hleaves
  exact ⟨_, rfl⟩

/-- The number of a control character is read back from its four hexadecimal digits. -/
theorem numberOf?_control : ∀ n < 0x20,
    Text.numberOf? 16 ['0', '0', hexDigit (n / 16), hexDigit (n % 16)] = some n := by
  decide

/-- The four digits of a control character are read as the character. -/
theorem escape?_control (hc : c.toNat < 0x20) (cs : List Char) :
    Leaves (escape? ('u' :: '0' :: '0' :: hexDigit (c.toNat / 16) :: hexDigit (c.toNat % 16) :: cs))
      c cs := by
  have hsurrogate : (0xD800 ≤ c.toNat && c.toNat ≤ 0xDFFF) = false := by
    rw [Bool.and_eq_false_iff]
    exact .inl (decide_eq_false (by omega))
  simp only [escape?, unit?, numberOf?_control _ hc, Option.map_some, Option.bind_eq_bind,
    Option.bind_some, hsurrogate, Char.ofNat_toNat]
  exact ⟨_, rfl⟩

/-- A character is written as it is, or as a backslash and an escape that is read as the
character. -/
theorem escape_cases (c : Char) :
    (escape c = [c] ∧ c ≠ '"' ∧ c ≠ '\\' ∧ 0x20 ≤ c.toNat) ∨
      ∃ code, escape c = '\\' :: code ∧ ∀ cs, Leaves (escape? (code ++ cs)) c cs := by
  unfold escape
  split
  · exact .inr ⟨['"'], rfl, fun cs => ⟨_, rfl⟩⟩
  · exact .inr ⟨['\\'], rfl, fun cs => ⟨_, rfl⟩⟩
  · exact .inr ⟨['b'], rfl, fun cs => ⟨_, rfl⟩⟩
  · exact .inr ⟨['f'], rfl, fun cs => ⟨_, rfl⟩⟩
  · exact .inr ⟨['n'], rfl, fun cs => ⟨_, rfl⟩⟩
  · exact .inr ⟨['r'], rfl, fun cs => ⟨_, rfl⟩⟩
  · exact .inr ⟨['t'], rfl, fun cs => ⟨_, rfl⟩⟩
  · next hquote hbackslash _ _ _ _ _ =>
    by_cases hcontrol : c.toNat < 0x20
    · rw [if_pos hcontrol]
      exact .inr ⟨_, rfl, escape?_control hcontrol⟩
    · rw [if_neg hcontrol]
      exact .inl ⟨rfl, hquote, hbackslash, Nat.le_of_not_lt hcontrol⟩

/-- A written character is read as the character. -/
theorem stringChars?_escape (c : Char) {value : String}
    (hrest : Leaves (stringChars? (c :: read) cs) value rest) :
    Leaves (stringChars? read (escape c ++ cs)) value rest := by
  rcases escape_cases c with ⟨hescape, hquote, hbackslash, hvisible⟩ | ⟨code, hescape, hcode⟩
  · rw [hescape, List.singleton_append, stringChars?, if_neg (Nat.not_lt.mpr hvisible)]
    · exact hrest.widen _
    · exact hquote
    · exact hbackslash
  · obtain ⟨shorter, hread⟩ := hcode cs
    rw [hescape, List.cons_append, stringChars?, hread]
    exact hrest.widen _

/-- Written characters are read up to the quote. -/
theorem stringChars?_flatMap_escape (chars rest : List Char) (read : List Char) :
    Leaves (stringChars? read (chars.flatMap escape ++ '"' :: rest))
      (String.ofList (read.reverse ++ chars)) rest := by
  induction chars generalizing read with
  | nil =>
    rw [List.flatMap_nil, List.nil_append, stringChars?, List.append_nil]
    exact ⟨_, rfl⟩
  | cons c chars ih =>
    rw [List.flatMap_cons, List.append_assoc]
    refine stringChars?_escape c ?_
    simpa using ih (c :: read)

/-- A quoted text is the escaped characters between quotes. -/
theorem toList_quote (text : String) :
    (quote text).toList = '"' :: (text.toList.flatMap escape ++ ['"']) :=
  String.toList_ofList

/-- Where there is no blank, none is skipped. -/
theorem skipBlanks_cons (hc : isBlank c = false) (cs : List Char) : skipBlanks (c :: cs) = c :: cs :=
  List.dropWhile_cons_of_neg (by simp [hc])

/-- A text in quotes is read as the text. -/
theorem value?_quote (depth : Nat) (text : String) (rest : List Char) :
    Leaves (value? depth ((quote text).toList ++ rest)) (.string text) rest := by
  obtain ⟨shorter, hread⟩ := stringChars?_flatMap_escape text.toList rest []
  have hscalar : Leaves (scalar? ((quote text).toList ++ rest)) (.string text) rest := by
    rw [toList_quote, List.cons_append, List.append_assoc, List.singleton_append, scalar?, hread,
      List.reverse_nil, List.nil_append, String.ofList_toList]
    exact ⟨_, rfl⟩
  cases depth with
  | zero => exact hscalar
  | succ depth =>
    rw [toList_quote] at hscalar ⊢
    exact hscalar

/-- A name in quotes with its colon is read as the name. -/
theorem memberName?_quote (name : String) (rest : List Char) :
    Leaves (memberName? ((quote name).toList ++ ':' :: rest)) name rest := by
  obtain ⟨shorter, hread⟩ := stringChars?_flatMap_escape name.toList (':' :: rest) []
  have hstart : skipBlanks ((quote name).toList ++ ':' :: rest) =
      '"' :: (name.toList.flatMap escape ++ '"' :: ':' :: rest) := by
    rw [toList_quote, List.cons_append, List.append_assoc, List.singleton_append,
      skipBlanks_cons rfl]
  rw [memberName?]
  split
  · next inner hinner =>
    obtain rfl := (List.cons.inj (hinner.symm.trans hstart)).2
    simp only [hread, List.reverse_nil, List.nil_append, String.ofList_toList]
    have hcolon := skipBlanks_cons (show isBlank ':' = false from rfl) rest
    split
    · next more hmore =>
      obtain rfl := (List.cons.inj (hmore.symm.trans hcolon)).2
      exact ⟨_, rfl⟩
    · next hother => exact absurd hcolon (hother _)
  · next hother => exact absurd hstart (hother _)

/-- The characters of a member: its name, a colon and its text. -/
def memberChars (pair : String × String) : List Char :=
  (quote pair.1).toList ++ ':' :: (quote pair.2).toList

/-- What stands behind a member: the brace that ends the object, or a comma and more members. -/
inductive Behind (depth : Nat) (read : Entries Json) : List Char → Entries Json → List Char → Prop
  | brace (rest : List Char) : Behind depth read ('}' :: rest) read rest
  | comma {more rest : List Char} {result : Entries Json}
      (hmore : Leaves (members? (value? depth) read more) result rest) :
      Behind depth read (',' :: more) result rest

/-- A written member is entered, and what stands behind it is read. -/
theorem members?_memberChars {depth : Nat} {pair : String × String} {read result : Entries Json}
    {behind : List Char}
    (hbehind : Behind depth (read.insert pair.1 (.string pair.2)) behind result rest) :
    Leaves (members? (value? depth) read (memberChars pair ++ behind)) result rest := by
  obtain ⟨shorterName, hname⟩ := memberName?_quote pair.1 ((quote pair.2).toList ++ behind)
  have hquote : skipBlanks ((quote pair.2).toList ++ behind) = (quote pair.2).toList ++ behind := by
    rw [toList_quote]
    exact skipBlanks_cons rfl _
  have hvalue : Leaves (value? depth (skipBlanks ((quote pair.2).toList ++ behind)))
      (.string pair.2) behind := by
    rw [hquote]
    exact value?_quote depth pair.2 behind
  obtain ⟨shorter, hvalue⟩ := hvalue
  rw [memberChars, List.append_assoc, List.cons_append, members?, hname]
  simp only [hvalue]
  -- the reader passes over blanks before it looks at what stands behind, and none are written
  cases hbehind with
  | brace =>
    have hblanks : skipBlanks ('}' :: rest) = '}' :: rest := skipBlanks_cons rfl rest
    split
    · next hcomma => exact absurd (hcomma.symm.trans hblanks) (by simp)
    · next more hmore =>
      obtain rfl := (List.cons.inj (hmore.symm.trans hblanks)).2
      exact ⟨_, rfl⟩
    · next hother => exact absurd hblanks (hother _)
  | @comma more _ _ hmore =>
    have hblanks : skipBlanks (',' :: more) = ',' :: more := skipBlanks_cons rfl more
    split
    · next other hother =>
      obtain rfl := (List.cons.inj (hother.symm.trans hblanks)).2
      exact hmore.widen _
    · next hbrace => exact absurd (hbrace.symm.trans hblanks) (by simp)
    · next hother _ => exact absurd hblanks (hother _)

/-- The members of an object, written one after another with commas between them. -/
def membersChars (pairs : List (String × String)) : List Char :=
  [','].intercalate (pairs.map memberChars)

/-- The first of several members is followed by a comma. -/
theorem membersChars_cons_cons (pair next : String × String) (pairs : List (String × String)) :
    membersChars (pair :: next :: pairs) = memberChars pair ++ ',' :: membersChars (next :: pairs) := by
  rw [membersChars, List.map_cons, List.map_cons, List.intercalate_cons_cons, ← List.map_cons,
    ← membersChars, List.append_assoc, List.singleton_append]

/-- Written members begin with the quote of the first name. -/
theorem exists_membersChars_cons (pair : String × String) (pairs : List (String × String)) :
    ∃ cs, membersChars (pair :: pairs) = '"' :: cs := by
  have hfirst : ∃ cs, memberChars pair = '"' :: cs := by
    rw [memberChars, toList_quote]
    exact ⟨_, rfl⟩
  obtain ⟨cs, hcs⟩ := hfirst
  cases pairs with
  | nil => exact ⟨cs, by rw [membersChars, List.map_cons, List.map_nil, List.intercalate_singleton, hcs]⟩
  | cons next pairs => exact ⟨_, by rw [membersChars_cons_cons, hcs, List.cons_append]⟩

/-- Written members are entered in their order. -/
theorem members?_membersChars (depth : Nat) (rest : List Char) (pair : String × String)
    (pairs : List (String × String)) (read : Entries Json) :
    Leaves (members? (value? depth) read (membersChars (pair :: pairs) ++ '}' :: rest))
      (read.insertAll (textMembers (pair :: pairs))) rest := by
  induction pairs generalizing pair read with
  | nil =>
    rw [membersChars, List.map_cons, List.map_nil, List.intercalate_singleton]
    exact members?_memberChars (.brace rest)
  | cons next pairs ih =>
    rw [membersChars_cons_cons, List.append_assoc, List.cons_append]
    exact members?_memberChars (.comma (ih next _))

/-- The characters of a written object of texts. -/
theorem toList_compact_textMembers (pairs : List (String × String)) :
    (compact (.object (textMembers pairs))).toList = '{' :: (membersChars pairs ++ ['}']) := by
  have hmembers : (compactMembers (textMembers pairs)).map String.toList = pairs.map memberChars := by
    induction pairs with
    | nil => rfl
    | cons pair pairs ih =>
      change (quote pair.1 ++ ":" ++ quote pair.2).toList ::
        (compactMembers (textMembers pairs)).map String.toList = memberChars pair :: pairs.map memberChars
      rw [ih, String.toList_append, String.toList_append, List.append_assoc]
      rfl
  rw [compact, String.toList_append, String.toList_append, String.toList_intercalate, hmembers]
  rfl

/-- A written object of texts is read as the object of its members, collected in their order. -/
theorem value?_object (depth : Nat) (pairs : List (String × String)) (rest : List Char) :
    Leaves (value? (depth + 1) ('{' :: (membersChars pairs ++ '}' :: rest)))
      (.object (Entries.ofList (textMembers pairs))) rest := by
  cases pairs with
  | nil =>
    have hbrace := skipBlanks_cons (show isBlank '}' = false from rfl) rest
    rw [value?]
    split
    · next more hmore =>
      obtain rfl := (List.cons.inj (hmore.symm.trans hbrace)).2
      exact ⟨_, rfl⟩
    · next hother => exact absurd hbrace (hother _)
  | cons pair pairs =>
    obtain ⟨shorter, hread⟩ := members?_membersChars depth rest pair pairs []
    obtain ⟨cs, hcs⟩ := exists_membersChars_cons pair pairs
    have hquote : skipBlanks (membersChars (pair :: pairs) ++ '}' :: rest) =
        '"' :: (cs ++ '}' :: rest) := by
      rw [hcs, List.cons_append]
      exact skipBlanks_cons rfl _
    rw [value?]
    split
    · next more hmore => exact absurd (hmore.symm.trans hquote) (by simp)
    · rw [hread]
      exact ⟨_, rfl⟩

/-- A written object of texts in which no name comes twice is read as the same object. -/
theorem parse?_compact_textMembers {pairs : List (String × String)}
    (hnodup : (pairs.map Prod.fst).Nodup) :
    parse? (compact (.object (textMembers pairs))) = some (.object (textMembers pairs)) := by
  have hstart : skipBlanks (compact (.object (textMembers pairs))).toList =
      '{' :: (membersChars pairs ++ ['}']) := by
    rw [toList_compact_textMembers]
    exact skipBlanks_cons rfl _
  have hmembers : Entries.ofList (textMembers pairs) = textMembers pairs :=
    Entries.ofList_eq_self (by rwa [map_fst_textMembers])
  have hread : Leaves (value? depthLimit (skipBlanks (compact (.object (textMembers pairs))).toList))
      (.object (textMembers pairs)) [] := by
    rw [hstart, ← hmembers]
    exact value?_object 126 pairs []
  obtain ⟨shorter, hread⟩ := hread
  rw [parse?, hread]
  rfl

end Json

namespace Table

/-- The texts of members are taken as they are. -/
theorem decodeMembers_textMembers (pairs : List (String × String)) :
    decodeMembers (Json.textMembers pairs) = .ok pairs := by
  induction pairs with
  | nil => rfl
  | cons pair pairs ih =>
    change (do return (pair.1, pair.2) :: (← decodeMembers (Json.textMembers pairs))) = _
    rw [ih]
    rfl

/-- A table is written as an object of its texts. -/
theorem toJson_eq (table : Table) : table.toJson = .object (Json.textMembers table.entries) := rfl

/-- The object of a table is read loosely as the table. -/
theorem ofJson_toJson (table : Table) : ofJson table.toJson = .ok table :=
  (ofJson_eq_ok_iff (Json.distinct_textMembers table.nodup)).mpr table.toJson_eq

/-- The object of a table is read strictly as the table. -/
theorem decode_toJson (table : Table) : decode table.toJson = .ok table := by
  rw [toJson_eq, decode, decodeMembers_textMembers]
  exact congrArg Except.ok table.ofPairs_entries

end Table

namespace Markers

/-- Markers are written as an object of their texts. -/
theorem toJson_eq (markers : Markers) :
    markers.toJson = .object (Json.textMembers markers.texts.entries) := rfl

/-- Written markers are an object of the four texts. -/
theorem isObject_toJson (markers : Markers) : markers.texts.IsObject markers.toJson :=
  ⟨markers.texts.entries, .refl _, rfl⟩

/-- Written markers are a distinct object. -/
theorem distinct_toJson (markers : Markers) : markers.toJson.Distinct :=
  Json.distinct_textMembers markers.texts.nodup_entries

end Markers

/-- What is written of a table or a marker set reads back unchanged. The text is JSON, it holds the
object of the table, with its entries in their order, or that of the markers, and both ways to read the
object, the loose one and the strict one, give the table or the marker set that was written. -/
theorem written_reads_back :
    (∀ table : Table, Json.parse? table.toJson.compact = some table.toJson ∧
      Table.ofJson table.toJson = .ok table ∧ Table.decode table.toJson = .ok table) ∧
    ∀ markers : Markers, Json.parse? markers.toJson.compact = some markers.toJson ∧
      Markers.ofJson markers.toJson = .ok markers ∧ Markers.decode markers.toJson = .ok markers := by
  refine ⟨fun table => ⟨?_, table.ofJson_toJson, table.decode_toJson⟩, fun markers => ⟨?_, ?_, ?_⟩⟩
  · rw [table.toJson_eq]
    exact Json.parse?_compact_textMembers table.nodup
  · rw [markers.toJson_eq]
    exact Json.parse?_compact_textMembers markers.texts.nodup_entries
  · exact (Markers.ofJson_eq_ok_iff markers.distinct_toJson).mpr markers.isObject_toJson
  · exact (Markers.decode_eq_ok_iff markers.distinct_toJson).mpr (.inl markers.isObject_toJson)

end Spintax
