import Mathlib.Data.List.Infix
import Mathlib.Data.String.Basic
import Spintax.Proofs.Tiling

/-!
# Slices of a text

Places in a text are byte offsets. A text is cut at a boundary between two characters into what stands
in front of it and what stands behind it, and the offset determines both. So a slice can be read off
the characters, and whether a pattern begins at an offset is a question about the characters behind
it.
-/

namespace Spintax

/-- The byte length of characters is that of their text. -/
theorem byteLength_eq_utf8Len (cs : List Char) : byteLength cs = String.utf8Len cs := by
  induction cs with
  | nil => rfl
  | cons c cs ih => rw [byteLength_cons, String.utf8Len_cons, ih, Nat.add_comm]

/-- The bytes of a text are those of its characters. -/
theorem utf8ByteSize_eq_byteLength (text : String) : text.utf8ByteSize = byteLength text.toList := by
  rw [byteLength_eq_utf8Len, ← String.utf8ByteSize_ofList, String.ofList_toList]

/-- What adds no byte has no character. -/
theorem eq_nil_of_byteLength_append_le {left more : List Char}
    (hle : byteLength (left ++ more) ≤ byteLength left) : more = [] := by
  by_contra hne
  have := byteLength_pos hne
  rw [byteLength_append] at hle
  omega

/-- Two beginnings of a text with the same number of bytes are one. -/
theorem append_inj_of_byteLength {left right first rest : List Char}
    (heq : left ++ first = right ++ rest) (hlength : byteLength left = byteLength right) :
    left = right ∧ first = rest := by
  rcases List.append_eq_append_iff.mp heq with ⟨more, rfl, rfl⟩ | ⟨more, rfl, rfl⟩
  · obtain rfl := eq_nil_of_byteLength_append_le (Nat.le_of_eq hlength.symm)
    simp
  · obtain rfl := eq_nil_of_byteLength_append_le (Nat.le_of_eq hlength)
    simp

namespace Text

/-- The part of a text between two byte offsets. -/
def slice (text : String) (start stop : Nat) : String :=
  String.Pos.Raw.extract text ⟨start⟩ ⟨stop⟩

/-- A byte offset that no character of the text lies across. -/
def IsBoundary (text : String) (position : Nat) : Prop :=
  String.Pos.Raw.IsValid text ⟨position⟩

/-- The pattern begins at a byte offset of the text. -/
def BeginsAt (pattern text : String) (position : Nat) : Prop :=
  ∃ before after : String, text = before ++ pattern ++ after ∧ before.utf8ByteSize = position

variable {text pattern : String} {position : Nat} {before part after rest : List Char}

/-- A boundary is where a text is cut in two. -/
theorem isBoundary_iff :
    IsBoundary text position ↔
      ∃ before after, text.toList = before ++ after ∧ byteLength before = position := by
  rw [IsBoundary, String.Pos.Raw.isValid_iff_exists_append]
  constructor
  · rintro ⟨before, after, rfl, hposition⟩
    refine ⟨before.toList, after.toList, String.toList_append, ?_⟩
    rw [← utf8ByteSize_eq_byteLength]
    exact (congrArg String.Pos.Raw.byteIdx hposition).symm
  · rintro ⟨before, after, htext, rfl⟩
    refine ⟨String.ofList before, String.ofList after, ?_, ?_⟩
    · rw [← String.ofList_append, ← htext, String.ofList_toList]
    · ext
      rw [String.byteIdx_rawEndPos, utf8ByteSize_eq_byteLength, String.toList_ofList]

/-- The slice between two boundaries holds the characters between them. -/
theorem slice_byteLength (htext : text.toList = before ++ (part ++ after)) :
    slice text (byteLength before) (byteLength before + byteLength part) = String.ofList part := by
  have htext' : text = String.ofList (before ++ part ++ after) := by
    rw [List.append_assoc, ← htext, String.ofList_toList]
  rw [slice, htext', byteLength_eq_utf8Len, byteLength_eq_utf8Len, String.extract_of_valid]

/-- A pattern begins at a boundary when the characters behind it begin with the pattern. -/
theorem beginsAt_byteLength_iff (htext : text.toList = before ++ rest) :
    BeginsAt pattern text (byteLength before) ↔ pattern.toList <+: rest := by
  constructor
  · rintro ⟨front, back, rfl, hposition⟩
    rw [String.toList_append, String.toList_append, List.append_assoc] at htext
    rw [utf8ByteSize_eq_byteLength] at hposition
    exact ⟨back.toList, (append_inj_of_byteLength htext hposition).2⟩
  · rintro ⟨back, hback⟩
    refine ⟨String.ofList before, String.ofList back, ?_, ?_⟩
    · apply String.toList_injective
      rw [String.toList_append, String.toList_append, String.toList_ofList, String.toList_ofList,
        List.append_assoc, hback, htext]
    · rw [utf8ByteSize_eq_byteLength, String.toList_ofList]

/-- Wherever a pattern begins, the text is cut in two. -/
theorem BeginsAt.isBoundary (hbegins : BeginsAt pattern text position) :
    IsBoundary text position := by
  obtain ⟨front, back, rfl, rfl⟩ := hbegins
  rw [isBoundary_iff]
  refine ⟨front.toList, pattern.toList ++ back.toList, ?_, (utf8ByteSize_eq_byteLength front).symm⟩
  rw [String.toList_append, String.toList_append, List.append_assoc]

/-- Behind a boundary, a later one cuts the rest in two. -/
theorem exists_split_of_isBoundary (htext : text.toList = before ++ rest)
    (hboundary : IsBoundary text position) (hle : byteLength before ≤ position) :
    ∃ part after, rest = part ++ after ∧ position = byteLength before + byteLength part := by
  obtain ⟨front, back, hcut, rfl⟩ := isBoundary_iff.mp hboundary
  rcases List.append_eq_append_iff.mp (htext.symm.trans hcut) with
    ⟨part, rfl, rfl⟩ | ⟨part, rfl, rfl⟩
  · exact ⟨part, back, rfl, byteLength_append before part⟩
  · obtain rfl := eq_nil_of_byteLength_append_le hle
    exact ⟨[], rest, rfl, by simp⟩

end Text

end Spintax
