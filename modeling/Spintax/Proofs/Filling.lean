import Mathlib.Logic.Function.Basic
import Spintax.Proofs.Choices
import Spintax.Proofs.Occurrences
import Spintax.Substitution

/-!
# Substitution as filling in blanks

A text with references in it is a form: what stands in front of the first reference, and for each
reference its name and what stands behind it. Filled with the references themselves the form is the
text; filled with values it is what one would expect of a substitution.

The substitution does not know the form. It searches the whole text, with all values that have been
put in so far, for a delimited name. It finds the blanks of this name and nothing else as long as the
name cannot be read in the stretches of text before, between and behind them. If this is so for each
name in its turn, substitution is filling in: it samples the values of those names that the form has
blanks of, each once and in the order of the entries, and it fills in the samples.
-/

namespace Spintax

/-- A text with blanks: what stands in front of the first blank, and for each blank its name and what
stands behind it. -/
structure Form where
  head : String
  blanks : List (String × String)
deriving DecidableEq, Repr

namespace Form

/-- The names of the blanks, from left to right, with repetitions. -/
def names (form : Form) : List String :=
  form.blanks.map Prod.fst

/-- The text with something put in each blank. -/
def fill (form : Form) (slot : String → String) : String :=
  form.blanks.foldl (fun before blank => before ++ slot blank.1 ++ blank.2) form.head

/-- The stretches of text before, between and behind the blanks of a name, with something put in the
blanks of other names. All but the last end in the delimiter that begins the next blank. -/
def stretchesFrom (delimiter : String) (slot : String → String) (name before : String) :
    List (String × String) → List String
  | [] => [before]
  | (other, behind) :: rest =>
    if other = name then
      (before ++ delimiter) :: stretchesFrom delimiter slot name behind rest
    else
      stretchesFrom delimiter slot name (before ++ slot other ++ behind) rest

variable {slot : String → String}

/-- Without blanks, a form is filled with its text. -/
theorem fill_nil (before : String) : fill ⟨before, []⟩ slot = before := rfl

/-- The first blank of a form is filled, and then the others. -/
theorem fill_cons (before name behind : String) (rest : List (String × String)) :
    fill ⟨before, (name, behind) :: rest⟩ slot = fill ⟨before ++ slot name ++ behind, rest⟩ slot :=
  rfl

/-- What stands in front stays there. -/
theorem fill_append (before head : String) (blanks : List (String × String)) :
    fill ⟨before ++ head, blanks⟩ slot = before ++ fill ⟨head, blanks⟩ slot := by
  induction blanks generalizing head with
  | nil => rfl
  | cons blank rest ih =>
    obtain ⟨name, behind⟩ := blank
    have hassoc : before ++ head ++ slot name ++ behind =
        before ++ (head ++ slot name ++ behind) := by
      simp only [String.append_assoc]
    rw [fill_cons, fill_cons, hassoc, ih]

/-- It matters only what is put in the blanks that there are. -/
theorem fill_congr {form : Form} {other : String → String}
    (hslots : ∀ name ∈ form.names, slot name = other name) : form.fill slot = form.fill other := by
  obtain ⟨head, blanks⟩ := form
  induction blanks generalizing head with
  | nil => rfl
  | cons blank rest ih =>
    obtain ⟨name, behind⟩ := blank
    obtain ⟨hslot, hrest⟩ := List.forall_mem_cons.mp hslots
    rw [fill_cons, fill_cons, ← hslot]
    exact ih _ hrest

/-- What is put in a blank is a part of the text. -/
theorem exists_fill_eq (slot : String → String) {form : Form} {name : String}
    (hname : name ∈ form.names) : ∃ left right, form.fill slot = left ++ slot name ++ right := by
  obtain ⟨⟨name, behind⟩, hblank, rfl⟩ := List.mem_map.mp hname
  obtain ⟨before, rest, hsplit⟩ := List.append_of_mem hblank
  refine ⟨fill ⟨form.head, before⟩ slot, fill ⟨behind, rest⟩ slot, ?_⟩
  rw [← fill_append, fill, hsplit, List.foldl_append]
  rfl

/-- Without a blank of the name there is one stretch, the whole text. -/
theorem stretchesFrom_of_not_mem (delimiter : String) {name : String} (before : String)
    {blanks : List (String × String)} (hname : name ∉ blanks.map Prod.fst) :
    stretchesFrom delimiter slot name before blanks = [fill ⟨before, blanks⟩ slot] := by
  induction blanks generalizing before with
  | nil => rfl
  | cons blank rest ih =>
    obtain ⟨other, behind⟩ := blank
    rw [List.map_cons, List.mem_cons, not_or] at hname
    rw [stretchesFrom, if_neg (Ne.symm hname.1), ih _ hname.2, fill_cons]

end Form

namespace Markers

variable (markers : Markers)

/-- What stands in a blank: a value for the name, or else a reference to it. -/
def slot (value : String → Option String) (name : String) : String :=
  (value name).getD (markers.reference name)

/-- A name without a value keeps its reference. -/
theorem slot_of_none {value : String → Option String} {name : String} (hnone : value name = none) :
    markers.slot value name = markers.reference name := by
  rw [slot, hnone, Option.getD_none]

/-- Put a value for a name where there was a reference. -/
theorem slot_update (value : String → Option String) (name sample : String) :
    markers.slot (Function.update value name (some sample)) =
      Function.update (markers.slot value) name sample := by
  funext other
  by_cases hother : other = name
  · subst hother
    simp [slot]
  · simp [slot, hother]

/-- The name cannot be read but in its own blanks, whatever values other names have been given among
those that they may have. -/
def ReadsOnlyBlanks (may : String → String → Prop) (form : Form) (name : String) : Prop :=
  ∀ value : String → Option String, value name = none →
    (∀ other sample, value other = some sample → may other sample) →
    ∀ stretch ∈ Form.stretchesFrom (markers.get .placeholder) (markers.slot value) name form.head
      form.blanks, occursIn (markers.reference name) stretch = false

/-- A name is read nowhere else if fewer values are allowed. -/
theorem ReadsOnlyBlanks.mono {markers : Markers} {may less : String → String → Prop} {form : Form}
    {name : String} (hreads : markers.ReadsOnlyBlanks may form name)
    (hless : ∀ other sample, less other sample → may other sample) :
    markers.ReadsOnlyBlanks less form name := by
  intro value hnone hvalue
  apply hreads value hnone
  intro other sample hsample
  exact hless other sample (hvalue other sample hsample)

section

variable {markers} {p : Char} {name : String}

/-- A reference is a name between two placeholder markers. -/
theorem toList_reference (hplaceholder : (markers.get .placeholder).toList = [p]) :
    (markers.reference name).toList = Text.delimited p name.toList := by
  simp [reference, Text.delimited, hplaceholder]

section

variable {slot : String → String} {before : String} {blanks : List (String × String)}
  (hslot : slot name = markers.reference name)
  (hclear : ∀ stretch ∈ Form.stretchesFrom (markers.get .placeholder) slot name before blanks,
    occursIn (markers.reference name) stretch = false)

include hslot hclear

/-- If a name cannot be read but in its own blanks, it is found just when it has a blank. -/
theorem occursIn_fill_iff :
    occursIn (markers.reference name) (Form.fill ⟨before, blanks⟩ slot) = true ↔
      name ∈ blanks.map Prod.fst := by
  constructor
  · intro hoccurs
    by_contra hname
    rw [Form.stretchesFrom_of_not_mem _ before hname, List.forall_mem_singleton, hoccurs] at hclear
    cases hclear
  · intro hname
    have hblank : name ∈ Form.names ⟨before, blanks⟩ := hname
    obtain ⟨left, right, heq⟩ := Form.exists_fill_eq slot hblank
    rw [heq, hslot, occursIn_iff_isInfix, String.toList_append, String.toList_append]
    exact ⟨left.toList, right.toList, rfl⟩

/-- If a name cannot be read but in its own blanks, a replacement is put in these and nowhere else. -/
theorem replaceFrom_fill (hplaceholder : (markers.get .placeholder).toList = [p])
    (hname : p ∉ name.toList) (sample written : String) :
    Text.replaceFrom (Text.delimited p name.toList) sample written
        (Form.fill ⟨before, blanks⟩ slot).toList =
      written ++ Form.fill ⟨before, blanks⟩ (Function.update slot name sample) := by
  -- What stands before the next blank of the name grows while blanks of other names are passed.
  induction blanks generalizing before written with
  | nil =>
    have hnone := hclear before (List.mem_singleton.mpr rfl)
    rw [← Bool.not_eq_true, occursIn_iff_isInfix, toList_reference hplaceholder] at hnone
    rw [Form.fill_nil, Text.replaceFrom_of_not_isInfix _ _ hnone, String.ofList_toList, Form.fill_nil]
  | cons blank rest ih =>
    obtain ⟨other, behind⟩ := blank
    rw [Form.stretchesFrom] at hclear
    by_cases hother : other = name
    · subst hother
      rw [if_pos rfl, List.forall_mem_cons] at hclear
      obtain ⟨hstretch, hrest⟩ := hclear
      rw [← Bool.not_eq_true, occursIn_iff_isInfix, toList_reference hplaceholder,
        String.toList_append, hplaceholder] at hstretch
      rw [Form.fill_cons, Form.fill_append, hslot, String.toList_append, String.toList_append,
        toList_reference hplaceholder, List.append_assoc,
        Text.replaceFrom_append hname hstretch, ih hrest, Form.fill_cons, Form.fill_append,
        Function.update_self, String.ofList_toList]
      simp only [String.append_assoc]
    · rw [if_neg hother] at hclear
      rw [Form.fill_cons, ih hclear, Form.fill_cons, Function.update_of_ne hother]

end

end

/-- Resolve the value of an entry and report it. -/
def sampleEntry (entry : String × String) : Sampling (String × String) := do
  let sample ← markers.resolve entry.2
  Sampling.report (.substituting entry.1)
  pure (entry.1, sample)

/-- A sample for each entry, in the order of the entries. -/
def sampleEntries (entries : Entries String) : Sampling (Entries String) :=
  entries.mapM markers.sampleEntry

section

variable {markers} {p : Char} {form : Form} {name : String} {value : String → Option String}
  {may : String → String → Prop}

/-- The result of sampling an entry is its name with a result of resolving its value. -/
theorem exists_of_sampleEntry {entry pair : String × String} {tape last : Tape}
    (hsample : markers.sampleEntry entry tape = .ok pair last) :
    pair.1 = entry.1 ∧ ∃ after, markers.resolve entry.2 tape = .ok pair.2 after := by
  obtain ⟨sample, after, hresolve, hreport⟩ := Sampling.exists_of_bind hsample
  cases hreport
  exact ⟨rfl, after, hresolve⟩

/-- The results of sampling entries are their names, each with a result of resolving its value. -/
theorem forall₂_of_sampleEntries {entries samples : Entries String} {tape last : Tape}
    (hsamples : markers.sampleEntries entries tape = .ok samples last) :
    List.Forall₂ (fun entry pair => pair.1 = entry.1 ∧
      ∃ tape after, markers.resolve entry.2 tape = .ok pair.2 after) entries samples := by
  apply (Sampling.forall₂_of_mapM hsamples).imp
  rintro entry pair ⟨first, after, hsample⟩
  obtain ⟨hpair, hresolve⟩ := exists_of_sampleEntry hsample
  exact ⟨hpair, first, hresolve⟩

/-- Names whose samples are known and names whose samples come next. -/
theorem update_or_find? {sample : String} (hnone : value name = none) (samples : Entries String) :
    (fun other => (Function.update value name (some sample) other).or (samples.find? other)) =
      fun other => (value other).or (Entries.find? other ((name, sample) :: samples)) := by
  funext other
  by_cases hother : other = name
  · subst hother
    rw [Function.update_self, hnone, Entries.find?, if_pos rfl]
    rfl
  · rw [Function.update_of_ne hother, Entries.find?, if_neg (Ne.symm hother)]

/-- A name is given a sample that it may have. -/
theorem may_of_update {sample : String} (hsample : may name sample)
    (hvalue : ∀ other sample, value other = some sample → may other sample) (other : String)
    (given : String) (hgiven : Function.update value name (some sample) other = some given) :
    may other given := by
  by_cases hother : other = name
  · subst hother
    rw [Function.update_self] at hgiven
    exact Option.some.inj hgiven ▸ hsample
  · rw [Function.update_of_ne hother] at hgiven
    exact hvalue other given hgiven

/-- Apply an entry whose name has a blank. -/
theorem substituteEntry_fill (hplaceholder : (markers.get .placeholder).toList = [p])
    (hname : p ∉ name.toList) (hblank : name ∈ form.names) (hnone : value name = none)
    (hvalue : ∀ other sample, value other = some sample → may other sample)
    (hreads : markers.ReadsOnlyBlanks may form name) (text : String) :
    markers.substituteEntry (form.fill (markers.slot value)) (name, text) = (do
      let pair ← markers.sampleEntry (name, text)
      pure (form.fill (markers.slot (Function.update value name (some pair.2))))) := by
  have hslot := markers.slot_of_none hnone
  have hclear := hreads value hnone hvalue
  have hoccurs : occursIn (markers.reference name) (form.fill (markers.slot value)) = true :=
    (occursIn_fill_iff hslot hclear).mpr hblank
  have hreplace (sample : String) : replaceAll (markers.reference name) sample
      (form.fill (markers.slot value)) =
        form.fill (markers.slot (Function.update value name (some sample))) := by
    rw [replaceAll, toList_reference hplaceholder, slot_update]
    exact (replaceFrom_fill hslot hclear hplaceholder hname sample "").trans String.empty_append
  simp only [substituteEntry, if_pos hoccurs, hreplace, sampleEntry, bind_assoc, pure_bind]

/-- Apply an entry whose name has no blank. -/
theorem substituteEntry_fill_of_not_mem (hblank : name ∉ form.names) (hnone : value name = none)
    (hvalue : ∀ other sample, value other = some sample → may other sample)
    (hreads : markers.ReadsOnlyBlanks may form name) (text : String) :
    markers.substituteEntry (form.fill (markers.slot value)) (name, text) =
      pure (form.fill (markers.slot value)) := by
  have hslot := markers.slot_of_none hnone
  have hoccurs : ¬ occursIn (markers.reference name) (form.fill (markers.slot value)) = true :=
    mt (occursIn_fill_iff hslot (hreads value hnone hvalue)).mp hblank
  rw [substituteEntry, if_neg hoccurs]

/-- Substitution fills the form. The values of the names that it has blanks of are sampled once each,
in the order of the entries, and no others. -/
theorem foldlM_substituteEntry (hplaceholder : (markers.get .placeholder).toList = [p])
    (hnames : ∀ name ∈ form.names, p ∉ name.toList) {entries : Entries String}
    (hdistinct : entries.names.Nodup)
    (hmay : ∀ entry ∈ entries, ∀ tape sample last,
      markers.resolve entry.2 tape = .ok sample last → may entry.1 sample)
    (hreads : ∀ name ∈ entries.names, markers.ReadsOnlyBlanks may form name)
    (hnone : ∀ name ∈ entries.names, value name = none)
    (hvalue : ∀ other sample, value other = some sample → may other sample) :
    entries.foldlM markers.substituteEntry (form.fill (markers.slot value)) = (do
      let samples ← markers.sampleEntries (entries.filter fun entry => entry.1 ∈ form.names)
      pure (form.fill (markers.slot fun name => (value name).or (samples.find? name)))) := by
  induction entries generalizing value with
  | nil => simp [sampleEntries, Entries.find?]
  | cons entry rest ih =>
    obtain ⟨name, text⟩ := entry
    obtain ⟨hfresh, hothers⟩ := List.nodup_cons.mp hdistinct
    obtain ⟨hmayFirst, hmayRest⟩ := List.forall_mem_cons.mp hmay
    obtain ⟨hreadsFirst, hreadsRest⟩ := List.forall_mem_cons.mp hreads
    obtain ⟨hnoneFirst, hnoneRest⟩ := List.forall_mem_cons.mp hnone
    rw [List.foldlM_cons]
    by_cases hblank : name ∈ form.names
    · have hname := hnames name hblank
      have hkept : ((name, text) :: rest).filter (fun entry => entry.1 ∈ form.names) =
          (name, text) :: rest.filter (fun entry => entry.1 ∈ form.names) :=
        List.filter_cons_of_pos (by simpa using hblank)
      rw [substituteEntry_fill hplaceholder hname hblank hnoneFirst hvalue hreadsFirst, hkept,
        sampleEntries, List.mapM_cons]
      simp only [bind_assoc, pure_bind]
      apply Sampling.bind_congr
      rintro tape ⟨other, sample⟩ last hsample
      obtain ⟨hother, after, hresolve⟩ := exists_of_sampleEntry hsample
      obtain rfl : other = name := hother
      -- The name has its sample now; no later entry is for the same name.
      have hnoneNext : ∀ later ∈ Entries.names rest,
          Function.update value other (some sample) later = none := by
        intro later hlater
        have hne : later ≠ other := fun heq => hfresh (heq ▸ hlater)
        rw [Function.update_of_ne hne, hnoneRest later hlater]
      have hvalueNext := may_of_update (hmayFirst tape sample after hresolve) hvalue
      rw [ih hothers hmayRest hreadsRest hnoneNext hvalueNext]
      simp only [update_or_find? hnoneFirst]
      rfl
    · have hkept : ((name, text) :: rest).filter (fun entry => entry.1 ∈ form.names) =
          rest.filter (fun entry => entry.1 ∈ form.names) :=
        List.filter_cons_of_neg (by simpa using hblank)
      rw [substituteEntry_fill_of_not_mem hblank hnoneFirst hvalue hreadsFirst, hkept, pure_bind]
      exact ih hothers hmayRest hreadsRest hnoneRest hvalue

/-- Substitution in a text with references is filling the form of the text. -/
theorem substitute_fill (hplaceholder : (markers.get .placeholder).toList = [p])
    (hnames : ∀ name ∈ form.names, p ∉ name.toList) {table : Table}
    (hmay : ∀ entry ∈ table.entries, ∀ tape sample last,
      markers.resolve entry.2 tape = .ok sample last → may entry.1 sample)
    (hreads : ∀ name ∈ table.entries.names, markers.ReadsOnlyBlanks may form name) :
    markers.substitute table (form.fill markers.reference) = (do
      let samples ← markers.sampleEntries (table.entries.filter fun entry => entry.1 ∈ form.names)
      pure (form.fill (markers.slot samples.find?))) := by
  let unknown : String → Option String := fun _ => none
  have hslot : markers.slot unknown = markers.reference := rfl
  have hvalue : ∀ other sample, unknown other = some sample → may other sample := by
    intro other sample hother
    cases hother
  have hrun := foldlM_substituteEntry hplaceholder hnames table.nodup hmay hreads (fun _ _ => rfl)
    hvalue
  simp only [Option.none_or] at hrun
  rw [← hslot]
  exact hrun

end

end Markers

end Spintax
