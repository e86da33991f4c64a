import Spintax.Proofs.Filling
import Spintax.Proofs.Reading
import Spintax.Proofs.Residue

/-!
# Substitution in cleanly delimited text

Delimiters come in pairs when they are read from left to right, but a search for a delimited name
does not read from left to right: it could begin at the delimiter that ends one reference and end at
the one that begins the next. In cleanly delimited text there is a character in each of these gaps
that no name of the table has. A gap keeps this character whatever is put in beside it, and nothing
that is put in has a delimiter. So no search ever matches across a gap, and substitution replaces all
references at once.
-/

namespace Spintax

/-- The references of a text are cleanly delimited: no piece of the text has the delimiter in it, and
the character `c` stands between any two references. -/
structure Form.CleanlyDelimited (form : Form) (p c : Char) : Prop where
  head : p ∉ form.head.toList
  names : ∀ name ∈ form.names, p ∉ name.toList
  behind : ∀ blank ∈ form.blanks, p ∉ blank.2.toList
  gaps : ∀ blank ∈ form.blanks.dropLast, c ∈ blank.2.toList

/-- All members but the last are the first one, if there is a second, and those of the rest. -/
theorem forall_mem_dropLast_cons {α : Type} {holds : α → Prop} {first : α} {rest : List α} :
    (∀ item ∈ (first :: rest).dropLast, holds item) ↔
      (rest ≠ [] → holds first) ∧ ∀ item ∈ rest.dropLast, holds item := by
  by_cases hne : rest = []
  · simp [hne]
  · rw [List.dropLast_cons_of_ne_nil hne, List.forall_mem_cons]
    simp [hne]

namespace Text

variable {p c : Char} {name before : List Char} {more next : Prop}

/-- The name cannot be read in the text. If there is a delimiter in it, the last one ends a reference
and has the character `c` behind it when more references follow. -/
def Unread (p c : Char) (name : List Char) (more : Prop) (before : List Char) : Prop :=
  p ∉ before ∨ ∃ front gap, before = front ++ p :: gap ∧ p ∉ gap ∧ (more → c ∈ gap) ∧
    ¬ delimited p name <:+: front ++ [p]

namespace Unread

/-- A name that cannot be read in the text has no reference there. -/
theorem not_isInfix (hunread : Unread p c name more before) :
    ¬ delimited p name <:+: before := by
  intro hoccurs
  rcases hunread with hfree | ⟨front, gap, rfl, hgap, -, hfront⟩
  · exact hfree (hoccurs.subset List.mem_cons_self)
  · rw [List.append_cons] at hoccurs
    exact hfront (delimited_infix_of_append hgap hoccurs)

/-- The delimiter that begins the next reference completes no occurrence of the name. -/
theorem not_isInfix_delimiter (hunread : Unread p c name more before) (hmore : more)
    (hname : p ∉ name) (hc : c ∉ name) : ¬ delimited p name <:+: before ++ [p] := by
  intro hoccurs
  rcases hunread with hfree | ⟨front, gap, rfl, hgap, hmem, hfront⟩
  · exact not_delimited_infix_of_not_mem hfree hoccurs
  · have heq : front ++ p :: gap ++ [p] = front ++ delimited p gap := by simp [delimited]
    rw [heq] at hoccurs
    rcases delimited_infix_of_enclosed hname hgap hoccurs with hinside | rfl
    · exact hfront hinside
    · exact hc (hmem hmore)

/-- Text without a delimiter can be added. -/
theorem append (hunread : Unread p c name more before) {run : List Char} (hrun : p ∉ run)
    (hmore : next → more) : Unread p c name next (before ++ run) := by
  rcases hunread with hfree | ⟨front, gap, rfl, hgap, hmem, hfront⟩
  · left
    rw [List.mem_append, not_or]
    exact ⟨hfree, hrun⟩
  · right
    refine ⟨front, gap ++ run, by simp, ?_, fun hnext => ?_, hfront⟩
    · rw [List.mem_append, not_or]
      exact ⟨hgap, hrun⟩
    · exact List.mem_append_left run (hmem (hmore hnext))

/-- A reference to another name can be added, and what stands behind it. -/
theorem append_delimited (hunread : Unread p c name more before) (hmore : more) (hname : p ∉ name)
    (hc : c ∉ name) {other behind : List Char} (hother : p ∉ other) (hne : name ≠ other)
    (hbehind : p ∉ behind) (hgap : next → c ∈ behind) :
    Unread p c name next (before ++ delimited p other ++ behind) := by
  right
  refine ⟨before ++ p :: other, behind, by simp [delimited], hbehind, hgap, ?_⟩
  intro hoccurs
  have heq : before ++ p :: other ++ [p] = before ++ delimited p other := by simp [delimited]
  rw [heq] at hoccurs
  rcases delimited_infix_of_enclosed hname hother hoccurs with hinside | hsame
  · exact hunread.not_isInfix_delimiter hmore hname hc hinside
  · exact hne hsame

end Unread

end Text

namespace Markers

variable {markers : Markers} {form : Form} {table : Table} {p c : Char}

/-- In the stretches between its blanks a name is not read, when samples have no delimiter. -/
theorem occursIn_stretchesFrom (hplaceholder : (markers.get .placeholder).toList = [p])
    {name : String} (hname : p ∉ name.toList) (hc : c ∉ name.toList)
    {value : String → Option String}
    (hvalue : ∀ other sample, value other = some sample → p ∉ sample.toList)
    {blanks : List (String × String)} (hnames : ∀ blank ∈ blanks, p ∉ blank.1.toList)
    (hbehind : ∀ blank ∈ blanks, p ∉ blank.2.toList)
    (hgaps : ∀ blank ∈ blanks.dropLast, c ∈ blank.2.toList) {before : String}
    (hunread : Text.Unread p c name.toList (blanks ≠ []) before.toList) :
    ∀ stretch ∈ Form.stretchesFrom (markers.get .placeholder) (markers.slot value) name before blanks,
      occursIn (markers.reference name) stretch = false := by
  have hclear {stretch : String} (hnone : ¬ Text.delimited p name.toList <:+: stretch.toList) :
      occursIn (markers.reference name) stretch = false := by
    rw [← Bool.not_eq_true, occursIn_iff_isInfix, toList_reference hplaceholder]
    exact hnone
  -- Each blank keeps what has been read unread: its own name closes a stretch, a sample only adds
  -- text, and a reference to another name moves the last delimiter.
  induction blanks generalizing before with
  | nil =>
    rw [Form.stretchesFrom, List.forall_mem_singleton]
    exact hclear hunread.not_isInfix
  | cons blank rest ih =>
    obtain ⟨other, behind⟩ := blank
    obtain ⟨hother, hnames⟩ := List.forall_mem_cons.mp hnames
    obtain ⟨hfree, hbehind⟩ := List.forall_mem_cons.mp hbehind
    have hmore : (other, behind) :: rest ≠ [] := List.cons_ne_nil _ _
    obtain ⟨hgap, hlater⟩ := forall_mem_dropLast_cons.mp hgaps
    rw [Form.stretchesFrom]
    by_cases hsame : other = name
    · rw [if_pos hsame, List.forall_mem_cons]
      refine ⟨hclear ?_, ih hnames hbehind hlater (.inl hfree)⟩
      rw [String.toList_append, hplaceholder]
      exact hunread.not_isInfix_delimiter hmore hname hc
    · rw [if_neg hsame]
      apply ih hnames hbehind hlater
      rw [String.toList_append, String.toList_append, slot]
      cases hsample : value other with
      | none =>
        have hne : name.toList ≠ other.toList := fun heq => hsame (String.toList_injective heq).symm
        rw [Option.getD_none, toList_reference hplaceholder]
        exact hunread.append_delimited hmore hname hc hother hne hfree hgap
      | some sample =>
        rw [Option.getD_some]
        have hadded : Text.Unread p c name.toList (rest ≠ []) (before.toList ++ sample.toList) :=
          hunread.append (hvalue other sample hsample) fun _ => hmore
        exact hadded.append hfree id

/-- In a cleanly delimited form a name without the character of the gaps is read only in its own
blanks, when samples have no delimiter. -/
theorem readsOnlyBlanks_of_cleanlyDelimited (hplaceholder : (markers.get .placeholder).toList = [p])
    (hclean : form.CleanlyDelimited p c) {name : String} (hname : p ∉ name.toList)
    (hc : c ∉ name.toList) :
    markers.ReadsOnlyBlanks (fun _ sample => p ∉ sample.toList) form name := by
  intro value hnone hvalue
  have hnames : ∀ blank ∈ form.blanks, p ∉ blank.1.toList :=
    fun blank hblank => hclean.names _ (List.mem_map_of_mem hblank)
  exact occursIn_stretchesFrom hplaceholder hname hc hvalue hnames hclean.behind hclean.gaps
    (.inl hclean.head)

/-- The references that are read from cleanly delimited text are those that it has. -/
theorem references_fill (hplaceholder : (markers.get .placeholder).toList = [p])
    (hclean : form.CleanlyDelimited p c) (hnonempty : ∀ name ∈ form.names, name ≠ "") :
    markers.references (form.fill markers.reference) = form.names := by
  obtain ⟨head, blanks⟩ := form
  obtain ⟨hhead, hnames, hbehind, -⟩ := hclean
  rw [references_eq_map hplaceholder]
  induction blanks generalizing head with
  | nil =>
    rw [Form.fill_nil, namesFrom_of_not_mem hhead]
    rfl
  | cons blank rest ih =>
    obtain ⟨name, behind⟩ := blank
    obtain ⟨hname, hnames⟩ := List.forall_mem_cons.mp hnames
    obtain ⟨hne, hnonempty⟩ := List.forall_mem_cons.mp hnonempty
    obtain ⟨hfree, hbehind⟩ := List.forall_mem_cons.mp hbehind
    have hread : name.toList ≠ [] := by simpa using hne
    rw [Form.fill_cons, Form.fill_append, String.toList_append, String.toList_append,
      List.append_assoc, toList_reference hplaceholder, namesFrom_none_append hhead,
      namesFrom_delimited hread hname, List.map_cons, String.ofList_toList,
      ih behind hnonempty hfree hnames hbehind]
    rfl

/-- A text filled with samples that have no delimiter has none. -/
theorem not_mem_fill {slot : String → String} (hhead : p ∉ form.head.toList)
    (hblanks : ∀ blank ∈ form.blanks, p ∉ (slot blank.1).toList ∧ p ∉ blank.2.toList) :
    p ∉ (form.fill slot).toList := by
  obtain ⟨head, blanks⟩ := form
  induction blanks generalizing head with
  | nil => exact hhead
  | cons blank rest ih =>
    obtain ⟨name, behind⟩ := blank
    obtain ⟨⟨hslot, hbehind⟩, hrest⟩ := List.forall_mem_cons.mp hblanks
    rw [Form.fill_cons]
    apply ih _ _ hrest
    rw [String.toList_append, String.toList_append, List.mem_append, List.mem_append, not_or, not_or]
    exact ⟨⟨hhead, hslot⟩, hbehind⟩

/-- A sample of a value without a delimiter has none. -/
theorem exists_sample_of_mem_names {entries samples : Entries String} {tape last : Tape}
    (hsamples : markers.sampleEntries entries tape = .ok samples last)
    (hvalues : ∀ entry ∈ entries, p ∉ entry.2.toList) {name : String}
    (hname : name ∈ entries.names) :
    ∃ sample, samples.find? name = some sample ∧ p ∉ sample.toList := by
  have hpairs := forall₂_of_sampleEntries hsamples
  clear hsamples
  induction hpairs with
  | nil => cases hname
  | @cons entry pair rest others hpair hrest ih =>
    obtain ⟨hvalue, hvalues⟩ := List.forall_mem_cons.mp hvalues
    obtain ⟨hkey, first, after, hresolve⟩ := hpair
    rw [Entries.find?]
    by_cases hhere : pair.1 = name
    · rw [if_pos hhere]
      exact ⟨pair.2, rfl, fun hmem => hvalue (mem_of_resolve hresolve hmem)⟩
    · rw [if_neg hhere]
      have hne : name ≠ entry.1 := fun heq => hhere (hkey.trans heq.symm)
      exact ih hvalues (List.mem_of_ne_of_mem hne hname)

/-- In cleanly delimited text substitution replaces all references at once.

The values of the names that occur are sampled once each, in table order, and other names stay as they are.
No placeholder marker is left if the audit finds no fault and no reference is empty. -/
theorem substitute_fills_clean_text (hplaceholder : (markers.get .placeholder).toList = [p])
    (hclean : form.CleanlyDelimited p c)
    (htable : ∀ entry ∈ table.entries,
      p ∉ entry.1.toList ∧ p ∉ entry.2.toList ∧ c ∉ entry.1.toList) :
    markers.substitute table (form.fill markers.reference) = (do
      let samples ← markers.sampleEntries (table.entries.filter fun entry => entry.1 ∈ form.names)
      pure (form.fill (markers.slot samples.find?))) ∧
    ∀ tape output last,
      markers.substitute table (form.fill markers.reference) tape = .ok output last →
      (∃ samples : Entries String, output = form.fill (markers.slot samples.find?) ∧
        List.Forall₂ (fun entry pair => pair.1 = entry.1 ∧
            ∃ tape after, markers.resolve entry.2 tape = .ok pair.2 after)
          (table.entries.filter fun entry => entry.1 ∈ form.names) samples) ∧
      ((∀ name ∈ form.names, name ≠ "") →
        markers.audit table (form.fill markers.reference) = [] → p ∉ output.toList) := by
  have hmay : ∀ entry ∈ table.entries, ∀ tape sample last,
      markers.resolve entry.2 tape = .ok sample last → p ∉ sample.toList := by
    intro entry hentry tape sample last hresolve hmem
    exact (htable entry hentry).2.1 (mem_of_resolve hresolve hmem)
  have hreads : ∀ name ∈ table.entries.names,
      markers.ReadsOnlyBlanks (fun _ sample => p ∉ sample.toList) form name := by
    intro name hname
    obtain ⟨entry, hentry, rfl⟩ := List.mem_map.mp hname
    obtain ⟨hfree, -, hc⟩ := htable entry hentry
    exact readsOnlyBlanks_of_cleanlyDelimited hplaceholder hclean hfree hc
  have hrun := substitute_fill hplaceholder hclean.names hmay hreads
  refine ⟨hrun, fun tape output last houtput => ?_⟩
  rw [hrun] at houtput
  obtain ⟨samples, after, hsamples, hpure⟩ := Sampling.exists_of_bind houtput
  cases hpure
  refine ⟨⟨samples, rfl, forall₂_of_sampleEntries hsamples⟩, fun hnonempty haudit => ?_⟩
  apply not_mem_fill hclean.head
  intro blank hblank
  refine ⟨?_, hclean.behind blank hblank⟩
  have hname : blank.1 ∈ form.names := List.mem_map_of_mem hblank
  rw [audit_eq_nil_iff, references_fill hplaceholder hclean hnonempty] at haudit
  obtain ⟨value, hvalue, -⟩ := exists_value_of_usable (haudit blank.1 hname)
  have hentry : (blank.1, value) ∈ table.entries.filter fun entry => entry.1 ∈ form.names :=
    List.mem_filter.mpr ⟨Entries.mem_of_find? hvalue, by simpa using hname⟩
  have hvalues : ∀ entry ∈ table.entries.filter fun entry => entry.1 ∈ form.names,
      p ∉ entry.2.toList := by
    intro entry hmem
    exact (htable entry (List.mem_of_mem_filter hmem)).2.1
  obtain ⟨sample, hsample, hfree⟩ := exists_sample_of_mem_names hsamples hvalues
    (List.mem_map_of_mem hentry)
  rw [slot, hsample]
  exact hfree

/-- Two references to one name and one to another; the second name of the table is not referred to,
and so its value is not resolved. -/
theorem substitute_fills_clean_text_twice :
    ∃ last, Markers.default.substitute
        (.ofPairs [("b", "\x7bx|y\x7d"), ("z", "\x7b"), ("a", "1")]) "Hi ~a~, ~b~; ~a~!"
        { source := .ofList [.ofNat 0] } = .ok "Hi 1, x; 1!" last ∧ '~' ∉ "Hi 1, x; 1!".toList := by
  let form : Form := ⟨"Hi ", [("a", ", "), ("b", "; "), ("a", "!")]⟩
  let table : Table := .ofPairs [("b", "\x7bx|y\x7d"), ("z", "\x7b"), ("a", "1")]
  have hclean : form.CleanlyDelimited '~' ' ' := by
    constructor <;> simp [form, Form.names]
  have hentries : table.entries = [("b", "\x7bx|y\x7d"), ("z", "\x7b"), ("a", "1")] := by decide +kernel
  have htable : ∀ entry ∈ table.entries,
      '~' ∉ entry.1.toList ∧ '~' ∉ entry.2.toList ∧ ' ' ∉ entry.1.toList := by
    simp [hentries]
  have hplaceholder : (Markers.default.get .placeholder).toList = ['~'] := rfl
  obtain ⟨hrun, hlast⟩ := substitute_fills_clean_text hplaceholder hclean htable
  have htext : form.fill Markers.default.reference = "Hi ~a~, ~b~; ~a~!" := by decide +kernel
  have hkept : (table.entries.filter fun entry => entry.1 ∈ form.names) =
      [("b", "\x7bx|y\x7d"), ("a", "1")] := by
    rw [hentries]
    rfl
  have haudit : Markers.default.audit table (form.fill Markers.default.reference) = [] := by decide +kernel
  have hchosen : (Source.ofList [.ofNat 0]).chooseAll? [2] =
      some ([0], { Source.ofList [.ofNat 0] with position := 1 }) :=
    Source.chooseAll?_ofList (.cons rfl .nil)
  have houtcome : Markers.default.outcome "\x7bx|y\x7d" [0] = .ok "x" := by decide +kernel
  obtain ⟨after, hresolve⟩ := exists_resolve_of_outcome (by decide +kernel) hchosen houtcome
  have hplain : Markers.default.resolve "1" = pure "1" :=
    resolve_eq_pure fun mark _ => by cases mark <;> decide
  have hsubstitute : ∃ last, Markers.default.substitute table
      (form.fill Markers.default.reference) { source := .ofList [.ofNat 0] } =
        .ok "Hi 1, x; 1!" last := by
    rw [hrun, hkept, sampleEntries, List.mapM_cons, List.mapM_cons, List.mapM_nil]
    simp only [sampleEntry, hplain, bind_assoc, pure_bind]
    rw [Sampling.bind_of_ok hresolve]
    exact ⟨_, rfl⟩
  obtain ⟨last, houtput⟩ := hsubstitute
  have hnone := (hlast _ _ _ houtput).2 (by decide) haudit
  rw [htext] at houtput
  exact ⟨last, houtput, hnone⟩

end Markers

end Spintax
