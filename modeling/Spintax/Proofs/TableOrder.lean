import Spintax.Proofs.CleanReferences

/-!
# The order of a table

The auditor reads a text from left to right, and so it cuts it into references and what stands
between them. Substitution searches the whole text for one name after another, in table order. Both
agree as long as no name of the table can be read anywhere but where the auditor reads it; then
substitution gives every reference its value, and two tables with the same entries give the same text.

Without this condition they need not agree, though the audit finds no fault: where two references
share a delimiter, the auditor reads the first of them, and substitution replaces the one whose name
comes first in the table. A value that is put in can also complete a name between two delimiters that
the auditor passed over, so the condition speaks of the text with values put in.
-/

namespace Spintax

/-- A form with a character in front. -/
def Form.prepend (c : Char) (form : Form) : Form :=
  ⟨String.singleton c ++ form.head, form.blanks⟩

/-- The form that reading references from left to right finds in the characters. -/
def formOf (delimiter : List Char) : List Char → Form
  | [] => ⟨"", []⟩
  | c :: cs =>
    match _found : referenceAt? delimiter (c :: cs) with
    | some (name, rest) =>
      let later := formOf delimiter rest
      ⟨"", (String.ofList name, later.head) :: later.blanks⟩
    | none => (formOf delimiter cs).prepend c
termination_by cs => cs.length
decreasing_by
  · exact length_of_referenceAt? _found
  · simp

section

variable {delimiter cs : List Char}

/-- Where a reference is found, the form has a blank. -/
theorem formOf_of_some {name rest : List Char}
    (hfound : referenceAt? delimiter cs = some (name, rest)) :
    formOf delimiter cs = ⟨"", (String.ofList name, (formOf delimiter rest).head) ::
      (formOf delimiter rest).blanks⟩ := by
  cases cs with
  | nil => simp [referenceAt?] at hfound
  | cons c cs =>
    rw [formOf]
    split
    · rename_i name' rest' hfound'
      obtain ⟨rfl, rfl⟩ := Prod.mk.inj (Option.some.inj (hfound.symm.trans hfound'))
      rfl
    · rename_i hnone
      rw [hfound] at hnone
      cases hnone

/-- Where no reference is found, the character belongs to the text in front of the form. -/
theorem formOf_of_none {c : Char} (hnone : referenceAt? delimiter (c :: cs) = none) :
    formOf delimiter (c :: cs) = (formOf delimiter cs).prepend c := by
  rw [formOf]
  split
  · rename_i name rest hfound
    rw [hfound] at hnone
    cases hnone
  · rfl

/-- The form has the names that are read as its blanks. -/
theorem referenceNames_eq_names (found : List String) (cs : List Char) :
    referenceNames delimiter found cs = found.reverse ++ (formOf delimiter cs).names := by
  induction found, cs using referenceNames.induct delimiter with
  | case1 found => rw [referenceNames, formOf, Form.names, List.map_nil, List.append_nil]
  | case2 found c cs name rest hfound ih =>
    rw [referenceNames_of_some hfound, formOf_of_some hfound, ih, List.reverse_cons,
      List.append_assoc]
    rfl
  | case3 found c cs hnone ih =>
    rw [referenceNames_of_none hnone, formOf_of_none hnone, ih]
    rfl

/-- Filled with the references that were read, the form is the text. -/
theorem fill_formOf (hne : delimiter ≠ []) {slot : String → String}
    (hslot : ∀ name, (slot name).toList = delimiter ++ (name.toList ++ delimiter)) (cs : List Char) :
    ((formOf delimiter cs).fill slot).toList = cs := by
  induction cs using formOf.induct delimiter with
  | case1 => rw [formOf, Form.fill_nil]; rfl
  | case2 c cs name rest hfound ih =>
    obtain ⟨-, -, heq⟩ := (referenceAt?_eq_some_iff hne).mp hfound
    rw [formOf_of_some hfound, Form.fill_cons, Form.fill_append, String.empty_append,
      String.toList_append, hslot, String.toList_ofList, heq]
    simp [ih]
  | case3 c cs hnone ih =>
    rw [formOf_of_none hnone, Form.prepend, Form.fill_append, String.toList_append, ih,
      String.toList_singleton, List.singleton_append]

/-- No name of a blank has a character of the delimiter. -/
theorem not_mem_of_mem_names_formOf (hne : delimiter ≠ []) (cs : List Char) :
    ∀ name ∈ (formOf delimiter cs).names, ∀ c ∈ name.toList, c ∉ delimiter := by
  induction cs using formOf.induct delimiter with
  | case1 => simp [formOf, Form.names]
  | case2 c cs name rest hfound ih =>
    obtain ⟨-, houtside, -⟩ := (referenceAt?_eq_some_iff hne).mp hfound
    rw [formOf_of_some hfound, Form.names, List.map_cons, List.forall_mem_cons]
    refine ⟨?_, ih⟩
    rwa [String.toList_ofList]
  | case3 c cs hnone ih =>
    rw [formOf_of_none hnone]
    exact ih

end

namespace Markers

variable {markers : Markers} {first second : Table} {text : String} {p : Char}

/-- The form of a text: what stands before, between and behind the references that are read in it. -/
def form (markers : Markers) (text : String) : Form :=
  formOf (markers.get .placeholder).toList text.toList

/-- The blanks of a text's form are named as its references. -/
theorem names_form (markers : Markers) (text : String) :
    (markers.form text).names = markers.references text := by
  rw [references, referenceNames_eq_names]
  rfl

/-- A form that is filled with the references is the text again. -/
theorem fill_form (markers : Markers) (text : String) :
    (markers.form text).fill markers.reference = text := by
  apply String.toList_injective
  apply fill_formOf
  · simpa using markers.get_ne_empty .placeholder
  · intro name
    simp [reference]

/-- Values in which no group begins or ends are sampled as they are and without a draw. -/
theorem sampleEntries_of_unmarked {entries : Entries String}
    (hunmarked : ∀ entry ∈ entries, ∀ mark : Mark, mark ≠ .separator →
      occursIn (markers.get mark.role) entry.2 = false) (tape : Tape) :
    markers.sampleEntries entries tape = .ok entries
      ⟨tape.source, (entries.map fun entry => .substituting entry.1).reverse ++ tape.events⟩ := by
  induction entries generalizing tape with
  | nil => rfl
  | cons entry rest ih =>
    obtain ⟨hentry, hrest⟩ := List.forall_mem_cons.mp hunmarked
    let reported : Tape := ⟨tape.source, .substituting entry.1 :: tape.events⟩
    have hfirst : markers.sampleEntry entry tape = .ok entry reported := by
      rw [sampleEntry, resolve_eq_pure hentry]
      rfl
    have hlater : rest.mapM markers.sampleEntry reported = _ := ih hrest reported
    rw [sampleEntries, List.mapM_cons, Sampling.bind_of_ok hfirst, Sampling.bind_of_ok hlater,
      List.map_cons, List.reverse_cons, List.append_assoc, List.singleton_append]
    rfl

/-- Tables with the same entries give each name the same value. -/
theorem get?_eq_of_perm (hperm : first.entries.Perm second.entries) (name : String) :
    first.get? name = second.get? name := by
  apply Option.ext
  intro value
  rw [Table.get?, Table.get?, Entries.find?_eq_some_iff first.nodup,
    Entries.find?_eq_some_iff second.nodup, hperm.mem_iff]

/-- If no name of a table is read but where the auditor reads it, and no value of the table has a
group in it, substitution gives each reference its value. -/
theorem substitute_form {table : Table} {value : String → Option String}
    (hplaceholder : (markers.get .placeholder).toList = [p])
    (hvalue : ∀ name, table.get? name = value name)
    (hunmarked : ∀ entry ∈ table.entries, ∀ mark : Mark, mark ≠ .separator →
      occursIn (markers.get mark.role) entry.2 = false)
    (hreads : ∀ name ∈ table.entries.names, markers.ReadsOnlyBlanks
      (fun other sample => value other = some sample) (markers.form text) name) (tape : Tape) :
    ∃ events, markers.substitute table text tape =
      .ok ((markers.form text).fill (markers.slot value)) ⟨tape.source, events⟩ := by
  have hnames : ∀ name ∈ (markers.form text).names, p ∉ name.toList := by
    intro name hname hmem
    have hne : (markers.get .placeholder).toList ≠ [] := by simp [hplaceholder]
    have houtside := not_mem_of_mem_names_formOf hne text.toList name hname p hmem
    rw [hplaceholder] at houtside
    exact houtside List.mem_cons_self
  have hmay : ∀ entry ∈ table.entries, ∀ tape sample last,
      markers.resolve entry.2 tape = .ok sample last → value entry.1 = some sample := by
    intro entry hentry tape sample last hresolve
    rw [resolve_eq_pure (hunmarked entry hentry)] at hresolve
    cases hresolve
    rw [← hvalue, Table.get?, Entries.find?_eq_some_iff table.nodup]
    exact hentry
  have hrun := substitute_fill hplaceholder hnames hmay hreads
  rw [fill_form] at hrun
  let kept := table.entries.filter fun entry => entry.1 ∈ (markers.form text).names
  have hkept : ∀ entry ∈ kept, ∀ mark : Mark, mark ≠ .separator →
      occursIn (markers.get mark.role) entry.2 = false :=
    fun entry hmem => hunmarked entry (List.mem_of_mem_filter hmem)
  have hfill : (markers.form text).fill (markers.slot (Entries.find? · kept)) =
      (markers.form text).fill (markers.slot value) := by
    apply Form.fill_congr
    intro name hname
    rw [slot, slot, ← hvalue, Entries.find?_filter hname]
    rfl
  rw [hrun, Sampling.bind_of_ok (sampleEntries_of_unmarked hkept tape), ← hfill]
  exact ⟨_, rfl⟩

/-- The order of a table does not matter if no name is read but where the auditor reads it.

Then no draw is made, and both tables give the text in which each reference that the auditor reads is
replaced by its value. -/
theorem substitute_eq_of_perm (hplaceholder : (markers.get .placeholder).toList = [p])
    (hperm : first.entries.Perm second.entries)
    (hunmarked : ∀ entry ∈ first.entries, ∀ mark : Mark, mark ≠ .separator →
      occursIn (markers.get mark.role) entry.2 = false)
    (haudit : markers.audit first text = [])
    (hreads : ∀ name ∈ first.entries.names, markers.ReadsOnlyBlanks
      (fun other value => first.get? other = some value) (markers.form text) name) :
    (markers.form text).fill markers.reference = text ∧
    (markers.form text).names = markers.references text ∧
    (∀ name ∈ (markers.form text).names, ∃ value, first.get? name = some value) ∧
    ∀ tape, ∃ events events',
      markers.substitute first text tape =
        .ok ((markers.form text).fill (markers.slot first.get?)) ⟨tape.source, events⟩ ∧
      markers.substitute second text tape =
        .ok ((markers.form text).fill (markers.slot first.get?)) ⟨tape.source, events'⟩ := by
  refine ⟨markers.fill_form text, markers.names_form text, ?_, fun tape => ?_⟩
  · intro name hname
    rw [names_form] at hname
    obtain ⟨value, hvalue, -⟩ := exists_value_of_usable (audit_eq_nil_iff.mp haudit name hname)
    exact ⟨value, hvalue⟩
  · have hunmarked' : ∀ entry ∈ second.entries, ∀ mark : Mark, mark ≠ .separator →
        occursIn (markers.get mark.role) entry.2 = false :=
      fun entry hentry => hunmarked entry (hperm.mem_iff.mpr hentry)
    have hreads' : ∀ name ∈ second.entries.names, markers.ReadsOnlyBlanks
        (fun other value => first.get? other = some value) (markers.form text) name :=
      fun name hname => hreads name ((hperm.map Prod.fst).mem_iff.mpr hname)
    obtain ⟨events, hfirst⟩ := substitute_form hplaceholder (fun _ => rfl) hunmarked hreads tape
    obtain ⟨events', hsecond⟩ := substitute_form hplaceholder
      (fun name => (get?_eq_of_perm hperm name).symm) hunmarked' hreads' tape
    exact ⟨events, events', hfirst, hsecond⟩

/-- Two references with a character between them. -/
theorem substitute_eq_of_perm_apart :
    ∃ first second : Table, first.entries = [("a", "1"), ("b", "2")] ∧
      second.entries = [("b", "2"), ("a", "1")] ∧
      ∀ tape, ∃ events events',
        Markers.default.substitute first "~a~-~b~" tape = .ok "1-2" ⟨tape.source, events⟩ ∧
        Markers.default.substitute second "~a~-~b~" tape = .ok "1-2" ⟨tape.source, events'⟩ := by
  let first : Table := ⟨[("a", "1"), ("b", "2")], by decide⟩
  let second : Table := ⟨[("b", "2"), ("a", "1")], by decide⟩
  have hplaceholder : (Markers.default.get .placeholder).toList = ['~'] := rfl
  have hperm : first.entries.Perm second.entries := List.Perm.swap _ _ _
  have hunmarked : ∀ entry ∈ first.entries, ∀ mark : Mark, mark ≠ .separator →
      occursIn (Markers.default.get mark.role) entry.2 = false := by
    refine List.forall_mem_cons.mpr ⟨fun mark _ => ?_, List.forall_mem_singleton.mpr fun mark _ => ?_⟩
    · cases mark <;> decide
    · cases mark <;> decide
  have haudit : Markers.default.audit first "~a~-~b~" = [] := by decide +kernel
  have hform : Markers.default.form "~a~-~b~" = ⟨"", [("a", "-"), ("b", "")]⟩ := by decide +kernel
  have hclean : (Markers.default.form "~a~-~b~").CleanlyDelimited '~' '-' := by
    rw [hform]
    constructor <;> simp [Form.names]
  have hreads : ∀ name ∈ first.entries.names, Markers.default.ReadsOnlyBlanks
      (fun other value => first.get? other = some value) (Markers.default.form "~a~-~b~") name := by
    intro name hname
    have hclear : '~' ∉ name.toList ∧ '-' ∉ name.toList := by
      rcases List.mem_cons.mp hname with rfl | hname
      · decide
      · obtain rfl := List.mem_singleton.mp hname
        decide
    apply (readsOnlyBlanks_of_cleanlyDelimited hplaceholder hclean hclear.1 hclear.2).mono
    intro other sample hsample
    rcases List.mem_cons.mp (Entries.mem_of_find? hsample) with heq | hlater
    · obtain ⟨rfl, rfl⟩ := Prod.mk.inj heq
      decide
    · obtain ⟨rfl, rfl⟩ := Prod.mk.inj (List.mem_singleton.mp hlater)
      decide
  obtain ⟨-, -, -, hrun⟩ := substitute_eq_of_perm hplaceholder hperm hunmarked haudit hreads
  have hfill : (Markers.default.form "~a~-~b~").fill (Markers.default.slot first.get?) = "1-2" := by
    decide +kernel
  rw [hfill] at hrun
  exact ⟨first, second, rfl, rfl, hrun⟩

/-- Two references that share a delimiter. The auditor reads the first of them and finds no fault,
but substitution in table order replaces the one whose name comes first. -/
theorem substitute_depends_on_order :
    ∃ (first second : Table) (text : String), first.entries.Perm second.entries ∧
      (∀ entry ∈ first.entries, ∀ role : Role, occursIn (Markers.default.get role) entry.2 = false) ∧
      Markers.default.audit first text = [] ∧ Markers.default.audit second text = [] ∧
      ∀ tape, ∃ events events',
        Markers.default.substitute first text tape = .ok "1b~" ⟨tape.source, events⟩ ∧
        Markers.default.substitute second text tape = .ok "~a2" ⟨tape.source, events'⟩ := by
  let first : Table := ⟨[("a", "1"), ("b", "2")], by decide⟩
  let second : Table := ⟨[("b", "2"), ("a", "1")], by decide⟩
  have hunmarked : ∀ entry ∈ first.entries, ∀ role : Role,
      occursIn (Markers.default.get role) entry.2 = false := by
    refine List.forall_mem_cons.mpr ⟨fun role => ?_, List.forall_mem_singleton.mpr fun role => ?_⟩
    · cases role <;> decide
    · cases role <;> decide
  have hone : Markers.default.resolve "1" = pure "1" :=
    resolve_eq_pure fun mark _ => hunmarked ("a", "1") (by simp [first]) mark.role
  have htwo : Markers.default.resolve "2" = pure "2" :=
    resolve_eq_pure fun mark _ => hunmarked ("b", "2") (by simp [first]) mark.role
  have hfindA : occursIn (Markers.default.reference "a") "~a~b~" = true := by decide
  have hputA : replaceAll (Markers.default.reference "a") "1" "~a~b~" = "1b~" := by decide +kernel
  have hmissB : occursIn (Markers.default.reference "b") "1b~" = false := by decide
  have hfindB : occursIn (Markers.default.reference "b") "~a~b~" = true := by decide
  have hputB : replaceAll (Markers.default.reference "b") "2" "~a~b~" = "~a2" := by decide +kernel
  have hmissA : occursIn (Markers.default.reference "a") "~a2" = false := by decide
  refine ⟨first, second, "~a~b~", List.Perm.swap _ _ _, hunmarked, by decide +kernel, by decide +kernel, fun tape => ?_⟩
  refine ⟨.substituting "a" :: tape.events, .substituting "b" :: tape.events, ?_, ?_⟩
  · simp only [substitute, first, List.foldlM_cons, List.foldlM_nil, substituteEntry, hfindA, hone,
      hputA, hmissB, if_true, Bool.false_eq_true, if_false, bind_assoc, pure_bind]
    rfl
  · simp only [substitute, second, List.foldlM_cons, List.foldlM_nil, substituteEntry, hfindB, htwo,
      hputB, hmissA, if_true, Bool.false_eq_true, if_false, bind_assoc, pure_bind]
    rfl

end Markers

end Spintax
