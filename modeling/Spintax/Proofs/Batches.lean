import Spintax.Proofs.Accounting

/-!
# Batches of samples

A batch makes its samples one after another, each from the tape that the one before it leaves. So a
batch can be cut anywhere: the first samples are a batch, and the others are a batch from where this
one ends. A sample that fails ends the batch, and nothing is drawn after it.

How many draws a sample takes depends on what is chosen in it, so a row of samples carries for each
of them the number of its draws, and the source stands behind their sum.
-/

namespace Spintax

/-- A sample that has been made, and the number of draws it took. -/
structure Sample where
  output : String
  draws : Nat

namespace Spinner

/-- Samples of a spinner one after another, each from the tape that the one before it leaves. -/
inductive Samples (spinner : Spinner) (substitute : Bool) : Tape → List Sample → Tape → Prop
  | nil (tape : Tape) : Samples spinner substitute tape [] tape
  | cons {tape between last : Tape} {sample : Sample} {samples : List Sample}
      (hspin : spinner.spin substitute tape = .ok sample.output between)
      (hdraws : between.source = tape.source.skip sample.draws)
      (hrest : Samples spinner substitute between samples last) :
      Samples spinner substitute tape (sample :: samples) last

variable {spinner : Spinner} {substitute : Bool} {tape between last stuck : Tape}
  {outputs : List String} {error : SpinError}

/-- Spinning moves the source on by some draws, whether it succeeds or fails. -/
theorem exists_skip_of_spin (spinner : Spinner) (substitute : Bool) (tape : Tape) :
    ∃ draws, ((spinner.spin substitute).tapeAfter tape).source = tape.source.skip draws := by
  obtain ⟨log, hlogged⟩ := spinner.exists_spin_log substitute tape
  exact hlogged.exists_skip

/-- The source stands behind the draws of all samples. -/
theorem Samples.source_eq {samples : List Sample}
    (hsamples : spinner.Samples substitute tape samples last) :
    last.source = tape.source.skip (samples.map Sample.draws).sum := by
  induction hsamples with
  | nil tape => rfl
  | cons hspin hdraws hrest ih => rw [ih, hdraws, Source.skip_skip, List.map_cons, List.sum_cons]

/-- What was made before stands behind what is added to it. -/
theorem spinOnto_append (spinner : Spinner) (substitute : Bool) (count : Nat)
    (made before : List String) :
    spinner.spinOnto substitute count (made ++ before) = (do
      let outputs ← spinner.spinOnto substitute count made
      pure (outputs ++ before)) := by
  induction count generalizing made with
  | zero => simp only [spinOnto, pure_bind]
  | succ count ih => simp only [spinOnto, ← List.cons_append, ih, bind_assoc]

/-- An empty batch does nothing. -/
theorem spinBatch_zero (spinner : Spinner) (substitute : Bool) :
    spinner.spinBatch 0 substitute = pure [] := rfl

/-- A batch is its first sample and then a batch of the others. -/
theorem spinBatch_succ (spinner : Spinner) (count : Nat) (substitute : Bool) :
    spinner.spinBatch (count + 1) substitute = (do
      let output ← spinner.spin substitute
      let outputs ← spinner.spinBatch count substitute
      pure (output :: outputs)) := by
  have honto (output : String) := spinner.spinOnto_append substitute count [] [output]
  simp only [List.nil_append] at honto
  simp only [spinBatch, spinOnto, honto, bind_assoc, pure_bind, List.reverse_append,
    List.reverse_singleton, List.singleton_append]

/-- A batch is a first batch and then a second one. -/
theorem spinBatch_add (spinner : Spinner) (first second : Nat) (substitute : Bool) :
    spinner.spinBatch (first + second) substitute = (do
      let front ← spinner.spinBatch first substitute
      let back ← spinner.spinBatch second substitute
      pure (front ++ back)) := by
  induction first with
  | zero => simp only [Nat.zero_add, spinBatch_zero, pure_bind, List.nil_append, bind_pure]
  | succ first ih =>
    simp only [Nat.succ_add, spinBatch_succ, ih, bind_assoc, pure_bind, List.cons_append]

/-- A batch succeeds when all its samples do, one after another. -/
theorem spinBatch_eq_ok_iff {count : Nat} :
    spinner.spinBatch count substitute tape = .ok outputs last ↔
      ∃ samples, spinner.Samples substitute tape samples last ∧ samples.length = count ∧
        outputs = samples.map Sample.output := by
  induction count generalizing tape outputs with
  | zero =>
    rw [spinBatch_zero]
    constructor
    · intro hrun
      cases hrun
      exact ⟨[], .nil last, rfl, rfl⟩
    · rintro ⟨samples, hsamples, hlength, rfl⟩
      obtain rfl := List.eq_nil_of_length_eq_zero hlength
      cases hsamples
      rfl
  | succ count ih =>
    rw [spinBatch_succ]
    constructor
    · intro hrun
      obtain ⟨output, between, hspin, hrun⟩ := Sampling.exists_of_bind hrun
      obtain ⟨others, behind, hothers, hrun⟩ := Sampling.exists_of_bind hrun
      cases hrun
      obtain ⟨samples, hsamples, hlength, rfl⟩ := ih.mp hothers
      obtain ⟨draws, hdraws⟩ := spinner.exists_skip_of_spin substitute tape
      rw [Sampling.tapeAfter_of_ok hspin] at hdraws
      exact ⟨⟨output, draws⟩ :: samples, .cons hspin hdraws hsamples, congrArg Nat.succ hlength, rfl⟩
    · rintro ⟨samples, hsamples, hlength, rfl⟩
      cases hsamples with
      | nil => cases hlength
      | @cons _ between _ sample samples hspin hdraws hrest =>
        have hothers := ih.mpr ⟨samples, hrest, Nat.succ.inj hlength, rfl⟩
        rw [Sampling.bind_of_ok hspin, Sampling.bind_of_ok hothers]
        rfl

/-- A batch fails when one of its samples does, behind samples that succeed. -/
theorem spinBatch_eq_error_iff {count : Nat} :
    spinner.spinBatch count substitute tape = .error error stuck ↔
      ∃ samples between, spinner.Samples substitute tape samples between ∧ samples.length < count ∧
        spinner.spin substitute between = .error error stuck := by
  induction count generalizing tape with
  | zero =>
    constructor
    · intro hrun
      cases hrun
    · rintro ⟨samples, between, -, hlength, -⟩
      exact absurd hlength (Nat.not_lt_zero _)
  | succ count ih =>
    have hsucc : spinner.spinBatch (count + 1) substitute tape = .error error stuck ↔
        spinner.spin substitute tape = .error error stuck ∨
          ∃ output between, spinner.spin substitute tape = .ok output between ∧
            spinner.spinBatch count substitute between = .error error stuck := by
      rw [spinBatch_succ, Sampling.bind_eq_error_iff]
      refine or_congr_right (exists_congr fun output => exists_congr fun between =>
        and_congr_right fun _ => ?_)
      exact Sampling.bind_eq_error_iff_of_ok fun _ _ => ⟨_, _, rfl⟩
    rw [hsucc]
    constructor
    · rintro (hspin | ⟨output, between, hspin, hrest⟩)
      · exact ⟨[], tape, .nil tape, Nat.succ_pos _, hspin⟩
      · obtain ⟨samples, behind, hsamples, hlength, hfails⟩ := ih.mp hrest
        obtain ⟨draws, hdraws⟩ := spinner.exists_skip_of_spin substitute tape
        rw [Sampling.tapeAfter_of_ok hspin] at hdraws
        exact ⟨⟨output, draws⟩ :: samples, behind, .cons hspin hdraws hsamples,
          Nat.succ_lt_succ hlength, hfails⟩
    · rintro ⟨samples, between, hsamples, hlength, hfails⟩
      cases hsamples with
      | nil => exact .inl hfails
      | cons hspin hdraws hrest =>
        exact .inr ⟨_, _, hspin,
          ih.mpr ⟨_, between, hrest, Nat.lt_of_succ_lt_succ hlength, hfails⟩⟩

/-- The first outputs of a batch are those of a smaller batch. -/
theorem exists_spinBatch_take {first count : Nat} (hle : first ≤ count)
    (hbatch : spinner.spinBatch count substitute tape = .ok outputs last) :
    ∃ between, spinner.spinBatch first substitute tape = .ok (outputs.take first) between := by
  obtain ⟨others, rfl⟩ := Nat.exists_eq_add_of_le hle
  rw [spinBatch_add] at hbatch
  obtain ⟨front, between, hfront, hbatch⟩ := Sampling.exists_of_bind hbatch
  obtain ⟨back, behind, -, hbatch⟩ := Sampling.exists_of_bind hbatch
  cases hbatch
  obtain ⟨samples, -, rfl, rfl⟩ := spinBatch_eq_ok_iff.mp hfront
  refine ⟨between, ?_⟩
  rwa [List.take_left' (List.length_map _)]

/-- Batches add up: a batch is a first batch and a second one from where the first ends.

The outputs are those of samples that are spun one after another, and the first sample that fails is the
fault of the batch. So smaller batches from one source are first parts of larger ones. -/
theorem spinBatch_adds_up (spinner : Spinner) (substitute : Bool) (tape : Tape) :
    (∀ first second outputs last,
      spinner.spinBatch (first + second) substitute tape = .ok outputs last ↔
        ∃ front between back, spinner.spinBatch first substitute tape = .ok front between ∧
          spinner.spinBatch second substitute between = .ok back last ∧ outputs = front ++ back) ∧
    (∀ count outputs last, spinner.spinBatch count substitute tape = .ok outputs last ↔
      ∃ samples, spinner.Samples substitute tape samples last ∧ samples.length = count ∧
        outputs = samples.map Sample.output ∧
        last.source = tape.source.skip (samples.map Sample.draws).sum) ∧
    (∀ count error stuck, spinner.spinBatch count substitute tape = .error error stuck ↔
      ∃ samples between draws, spinner.Samples substitute tape samples between ∧
        samples.length < count ∧ spinner.spin substitute between = .error error stuck ∧
        stuck.source = between.source.skip draws ∧
        stuck.source = tape.source.skip ((samples.map Sample.draws).sum + draws)) ∧
    ∀ first count outputs last, first ≤ count →
      spinner.spinBatch count substitute tape = .ok outputs last →
      ∃ between, spinner.spinBatch first substitute tape = .ok (outputs.take first) between := by
  refine ⟨fun first second outputs last => ?_, fun count outputs last => ?_,
    fun count error stuck => ?_, fun first count outputs last => exists_spinBatch_take⟩
  · rw [spinBatch_add]
    constructor
    · intro hrun
      obtain ⟨front, between, hfront, hrun⟩ := Sampling.exists_of_bind hrun
      obtain ⟨back, behind, hback, hrun⟩ := Sampling.exists_of_bind hrun
      cases hrun
      exact ⟨front, between, back, hfront, hback, rfl⟩
    · rintro ⟨front, between, back, hfront, hback, rfl⟩
      rw [Sampling.bind_of_ok hfront, Sampling.bind_of_ok hback]
      rfl
  · rw [spinBatch_eq_ok_iff]
    constructor
    · rintro ⟨samples, hsamples, hlength, houtputs⟩
      exact ⟨samples, hsamples, hlength, houtputs, hsamples.source_eq⟩
    · rintro ⟨samples, hsamples, hlength, houtputs, -⟩
      exact ⟨samples, hsamples, hlength, houtputs⟩
  · rw [spinBatch_eq_error_iff]
    constructor
    · rintro ⟨samples, between, hsamples, hlength, hfails⟩
      obtain ⟨draws, hdraws⟩ := spinner.exists_skip_of_spin substitute between
      rw [Sampling.tapeAfter_of_error hfails] at hdraws
      refine ⟨samples, between, draws, hsamples, hlength, hfails, hdraws, ?_⟩
      rw [hdraws, hsamples.source_eq, Source.skip_skip]
    · rintro ⟨samples, between, draws, hsamples, hlength, hfails, -, -⟩
      exact ⟨samples, between, hsamples, hlength, hfails⟩

end Spinner

end Spintax
