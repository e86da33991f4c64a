import Spintax.Proofs.Reading
import Spintax.Proofs.Residue
import Spintax.Proofs.Signs

/-!
# What an audit covers

Resolving deletes parts of a text and joins what is left, so delimiters could come to enclose what
they did not enclose before. But it keeps or deletes whole runs of text, and a run of text is followed
by a mark. A reference that is begun in a run and not ended there would have the sign of this mark in
its name. If no name that is read has a sign in it, then either each run ends outside every reference,
or there is no delimiter behind it. In both cases the references of what is left can be told run by
run, and they are among those of the text. So an audit without complaints holds for every output.
-/

namespace Spintax

/-- Pieces of a text whose references can be told piece by piece: each of them ends outside every
reference, or there is no delimiter behind it. -/
def Separable (p : Char) : List (List Char) → Prop
  | [] => True
  | piece :: later =>
    (piece.foldl (readStep p) none = none ∨ p ∉ later.flatten) ∧ Separable p later

section

variable {p : Char} {piece : List Char} {kept pieces later : List (List Char)}

/-- Names behind a piece are read as at the beginning of a text. -/
theorem namesFrom_append_flatten
    (hpiece : piece.foldl (readStep p) none = none ∨ p ∉ later.flatten) :
    namesFrom p none (piece ++ later.flatten) =
      namesFrom p none piece ++ namesFrom p none later.flatten := by
  rw [namesFrom_append]
  rcases hpiece with houtside | hnone
  · rw [houtside]
  · rw [namesFrom_of_not_mem hnone, namesFrom_of_not_mem hnone]

/-- Deleting pieces creates no reference. -/
theorem namesFrom_sublist (hkept : kept.Sublist pieces) (hseparable : Separable p pieces) :
    (namesFrom p none kept.flatten).Sublist (namesFrom p none pieces.flatten) := by
  induction hkept with
  | slnil => exact List.Sublist.refl _
  | cons piece hkept ih =>
    obtain ⟨hpiece, hlater⟩ := hseparable
    rw [List.flatten_cons, namesFrom_append_flatten hpiece]
    exact (ih hlater).trans (List.sublist_append_right _ _)
  | cons_cons piece hkept ih =>
    obtain ⟨hpiece, hlater⟩ := hseparable
    have hpiece' : piece.foldl (readStep p) none = none ∨ p ∉ _ :=
      hpiece.imp_right (mt fun hmem => hkept.flatten.subset hmem)
    rw [List.flatten_cons, List.flatten_cons, namesFrom_append_flatten hpiece,
      namesFrom_append_flatten hpiece']
    exact (List.Sublist.refl _).append (ih hlater)

/-- A reference that is begun in front of a sign has the sign in its name, if it is ended at all. -/
theorem exists_mem_namesFrom_cons (begun : List Char) {sign : Char} (hsign : sign ≠ p)
    {cs : List Char} (hends : p ∈ cs) :
    ∃ name ∈ namesFrom p (some begun) (sign :: cs), sign ∈ name := by
  obtain ⟨run, rest, rfl, hfree⟩ := List.eq_append_cons_of_mem hends
  have hrun : p ∉ sign :: run := by
    rw [List.mem_cons, not_or]
    exact ⟨hsign.symm, hfree⟩
  have hread : namesFrom p (some begun) (sign :: run ++ p :: rest) =
      (begun ++ sign :: run) :: namesFrom p none rest :=
    namesFrom_some_append hrun (by simp) rest
  refine ⟨begun ++ sign :: run, ?_, List.mem_append_right _ List.mem_cons_self⟩
  rw [← List.cons_append, hread]
  exact List.mem_cons_self

end

namespace Delimiters

variable {delimiters : Delimiters} {signs : Signs} {p : Char}

/-- A run of text that can be read back leaves no reference begun, or there is no delimiter behind
it, if no name that is read on behind it has a sign in it. -/
theorem outside_or_not_mem_of_text (hspelled : delimiters.SpelledBy signs) (hp : signs.IsPlain p)
    {state : Option (List Char)} {later : List Token}
    (hhead : ∀ chunk, later.head? ≠ some (.text chunk))
    (hnames : ∀ name ∈ namesFrom p state (later.map delimiters.written).flatten,
      ∀ c ∈ name, signs.IsPlain c) :
    state = none ∨ p ∉ (later.map delimiters.written).flatten := by
  cases state with
  | none => exact .inl rfl
  | some begun =>
    right
    intro hends
    rcases later with _ | ⟨chunk | kind, later⟩
    · simp at hends
    · exact hhead chunk rfl
    · have hsign := hp.char_ne kind
      have hwritten : ((Token.mark kind :: later).map delimiters.written).flatten =
          signs.char kind :: (later.map delimiters.written).flatten := by
        simp [written, hspelled kind]
      rw [hwritten] at hends hnames
      have hbehind := List.mem_of_ne_of_mem hsign.symm hends
      obtain ⟨name, hname, hmem⟩ := exists_mem_namesFrom_cons begun hsign hbehind
      exact (hnames name hname _ hmem).char_ne kind rfl

/-- Tokens that can be read back are separable, if no name that is read from them has a sign in it. -/
theorem separable_map_written (hspelled : delimiters.SpelledBy signs) (hp : signs.IsPlain p)
    {tokens : List Token} (hlegible : delimiters.Legible tokens)
    (hnames : ∀ name ∈ namesFrom p none (tokens.map delimiters.written).flatten,
      ∀ c ∈ name, signs.IsPlain c) :
    Separable p (tokens.map delimiters.written) := by
  induction tokens with
  | nil => trivial
  | cons token later ih =>
    have hlater : delimiters.Legible later := by
      cases token with
      | mark kind => exact hlegible
      | text chunk => exact hlegible.2.2
    rw [List.map_cons, List.flatten_cons] at hnames
    have hpiece : (delimiters.written token).foldl (readStep p) none = none ∨
        p ∉ (later.map delimiters.written).flatten := by
      cases token with
      | mark kind =>
        left
        rw [written, hspelled kind]
        simp [readStep, hp.char_ne kind]
      | text chunk =>
        apply outside_or_not_mem_of_text hspelled hp hlegible.2.1
        intro name hname
        apply hnames name
        rw [namesFrom_append]
        exact List.mem_append_right _ hname
    refine ⟨hpiece, ih hlater fun name hname => hnames name ?_⟩
    rw [namesFrom_append_flatten hpiece]
    exact List.mem_append_right _ hname

end Delimiters

namespace Markers

variable {markers : Markers} {signs : Signs} {p : Char} {table : Table} {text : String}

/-- If no name that a text refers to has a sign in it, what is left of its tokens refers to some of
these names, in their order. -/
theorem references_sublist_of_leaves (hspelled : markers.delimiters.SpelledBy signs)
    (hplaceholder : (markers.get .placeholder).toList = [p]) (hp : signs.IsPlain p)
    (hnames : ∀ name ∈ markers.references text, ∀ c ∈ name.toList, signs.IsPlain c)
    {output : String} (hleaves : markers.delimiters.Leaves (markers.tokens text) output) :
    (markers.references output).Sublist (markers.references text) := by
  obtain ⟨kept, hkept, -, houtput⟩ := hleaves
  obtain ⟨-, hwritten, -, hlegible, -⟩ := markers.lexemes_tile text
  rw [List.flatMap_def] at hwritten houtput
  have hplain : ∀ name ∈ namesFrom p none
      ((markers.tokens text).map markers.delimiters.written).flatten, ∀ c ∈ name, signs.IsPlain c := by
    intro name hname c hmem
    rw [hwritten] at hname
    apply hnames (String.ofList name) _ c (by rwa [String.toList_ofList])
    rw [references_eq_map hplaceholder]
    exact List.mem_map_of_mem hname
  have hseparable := Delimiters.separable_map_written hspelled hp hlegible hplain
  have hsublist := namesFrom_sublist (hkept.map markers.delimiters.written) hseparable
  rw [hwritten, ← houtput] at hsublist
  rw [references_eq_map hplaceholder, references_eq_map hplaceholder]
  exact hsublist.map String.ofList

/-- The names that a text refers to are names of the table, if the audit finds no fault. -/
theorem mem_names_of_audit (haudit : markers.audit table text = []) {name : String}
    (hname : name ∈ markers.references text) : name ∈ table.entries.names := by
  obtain ⟨value, hvalue, -⟩ := exists_value_of_usable (audit_eq_nil_iff.mp haudit name hname)
  exact Entries.mem_names_of_find? hvalue

/-- An audit without complaints holds for every output.

Outputs refer to some of the names that the text refers to, in their order. This needs markers of one
character that no name of the table has, and another placeholder marker than the rest. -/
theorem audit_covers_resolve (hspelled : markers.delimiters.SpelledBy signs)
    (hplaceholder : (markers.get .placeholder).toList = [p]) (hp : signs.IsPlain p)
    (hsound : markers.checkPairing text = .ok ())
    (htable : ∀ name ∈ table.entries.names, ∀ c ∈ name.toList, signs.IsPlain c)
    (haudit : markers.audit table text = []) (tape : Tape) :
    match tape.source.chooseAll? ((markers.calls text).map Call.count) with
    | some _ => ∃ output last, markers.resolve text tape = .ok output last ∧
        (markers.references output).Sublist (markers.references text) ∧
        markers.audit table output = []
    | none => ∃ stuck, markers.resolve text tape = .error .stalled stuck := by
  cases hchosen : tape.source.chooseAll? ((markers.calls text).map Call.count) with
  | none => exact markers.resolve_of_none text hchosen
  | some chosen =>
    obtain ⟨indices, after⟩ := chosen
    obtain ⟨output, houtcome⟩ := exists_outcome_eq_ok hsound indices
    have hresolve := markers.resolve_of_some text hchosen
    rw [houtcome] at hresolve
    have hnames : ∀ name ∈ markers.references text, ∀ c ∈ name.toList, signs.IsPlain c :=
      fun name hname => htable name (mem_names_of_audit haudit hname)
    have hsublist := references_sublist_of_leaves hspelled hplaceholder hp hnames
      (leaves_of_resolve hresolve)
    refine ⟨output, _, hresolve, hsublist, ?_⟩
    rw [audit_eq_nil_iff] at haudit ⊢
    intro name hname
    exact haudit name (hsublist.subset hname)

/-- References in a group and behind it, and a stray delimiter in another group. -/
theorem audit_covers_resolve_stray :
    ∃ output last, Markers.default.resolve "\x7b~a~|x\x7d~b~\x7b~|y\x7d"
        { source := .ofList [.ofNat 0, .ofNat 0] } = .ok output last ∧
      Markers.default.audit (.ofPairs [("a", "1"), ("b", "2")]) output = [] := by
  have hchosen : (Source.ofList [.ofNat 0, .ofNat 0]).chooseAll? [2, 2] =
      some ([0, 0], { Source.ofList [.ofNat 0, .ofNat 0] with position := 2 }) :=
    Source.chooseAll?_ofList (.cons rfl (.cons rfl .nil))
  have hcounts : (Markers.default.calls "\x7b~a~|x\x7d~b~\x7b~|y\x7d").map Call.count = [2, 2] := by
    decide +kernel
  have hplain : Signs.IsPlain ⟨'\x7b', '\x7d', '|'⟩ '~' := ⟨by decide, by decide, by decide⟩
  have htable : ∀ name ∈ (Table.ofPairs [("a", "1"), ("b", "2")]).entries.names,
      ∀ c ∈ name.toList, Signs.IsPlain ⟨'\x7b', '\x7d', '|'⟩ c := by
    have hnames : (Table.ofPairs [("a", "1"), ("b", "2")]).entries.names = ["a", "b"] := by decide +kernel
    simp [hnames, Signs.IsPlain]
  have hsound : Markers.default.checkPairing "\x7b~a~|x\x7d~b~\x7b~|y\x7d" = .ok () := by decide +kernel
  have haudit : Markers.default.audit (.ofPairs [("a", "1"), ("b", "2")])
      "\x7b~a~|x\x7d~b~\x7b~|y\x7d" = [] := by decide +kernel
  have hcovers := audit_covers_resolve spelledBy_default rfl hplain hsound htable haudit
  generalize Source.ofList [.ofNat 0, .ofNat 0] = source at hchosen ⊢
  have hlast := hcovers { source := source }
  rw [hcounts] at hlast
  simp only [hchosen] at hlast
  obtain ⟨output, last, hresolve, -, haudit⟩ := hlast
  exact ⟨output, last, hresolve, haudit⟩

end Markers

end Spintax
