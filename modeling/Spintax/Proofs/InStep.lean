import Spintax.Proofs.Choices

/-!
# Runs in step

Two computations run in step when they make the same draws wherever they start from the same source:
they end alike, in results or in errors that correspond, and leave the same source. What they report
may differ. Computations in step can be followed by computations in step, and so can the steps of
two loops over lists whose items correspond.
-/

namespace Spintax

namespace Sampling

variable {α β : Type}

/-- Two ends of a run that correspond, with the same source behind them. -/
inductive EndInStep (values : α → β → Prop) (errors : SpinError → SpinError → Prop) :
    EStateM.Result SpinError Tape α → EStateM.Result SpinError Tape β → Prop where
  | ok {value : α} {other : β} {last behind : Tape} (hvalue : values value other)
      (hsource : last.source = behind.source) :
      EndInStep values errors (.ok value last) (.ok other behind)
  | error {error other : SpinError} {last behind : Tape} (herror : errors error other)
      (hsource : last.source = behind.source) :
      EndInStep values errors (.error error last) (.error other behind)

/-- Two computations that make the same draws and whose ends correspond. -/
def InStep (values : α → β → Prop) (errors : SpinError → SpinError → Prop) (first : Sampling α)
    (second : Sampling β) : Prop :=
  ∀ tape other : Tape, tape.source = other.source →
    EndInStep values errors (first tape) (second other)

namespace InStep

variable {γ δ : Type} {values : α → β → Prop} {results : γ → δ → Prop}
  {errors : SpinError → SpinError → Prop} {first : Sampling α} {second : Sampling β}

/-- Values that are related are returned in step. -/
theorem pure {value : α} {other : β} (hvalue : values value other) :
    InStep values errors (Pure.pure value) (Pure.pure other) :=
  fun _ _ hsource => .ok hvalue hsource

/-- Errors that are related are thrown in step. -/
theorem throw {error other : SpinError} (herror : errors error other) :
    InStep values errors (MonadExcept.throw error) (MonadExcept.throw other) :=
  fun _ _ hsource => .error herror hsource

/-- Reports may differ. -/
theorem report (event other : Event) :
    InStep (fun _ _ => True) errors (Sampling.report event) (Sampling.report other) :=
  fun _ _ hsource => .ok trivial hsource

/-- The same choice from the same source has the same answer. -/
theorem choose (hstalled : errors .stalled .stalled) (count : Nat) :
    InStep Eq errors (Sampling.choose count) (Sampling.choose count) := by
  intro tape other hsource
  cases hchosen : tape.source.choose? count with
  | none =>
    have hother : other.source.choose? count = none := hsource ▸ hchosen
    rw [choose_of_none hchosen, choose_of_none hother]
    exact .error hstalled hsource
  | some chosen =>
    obtain ⟨index, after⟩ := chosen
    have hother : other.source.choose? count = some (index, after) := hsource ▸ hchosen
    rw [choose_of_some hchosen, choose_of_some hother]
    exact .ok rfl rfl

/-- Computations in step can be followed by computations in step. -/
theorem bind {next : α → Sampling γ} {following : β → Sampling δ}
    (hfirst : InStep values errors first second)
    (hnext : ∀ value other, values value other →
      InStep results errors (next value) (following other)) :
    InStep results errors (first >>= next) (second >>= following) := by
  intro tape other hsource
  have hends := hfirst tape other hsource
  generalize hrun : first tape = ended at hends
  generalize hrun' : second other = ended' at hends
  cases hends with
  | ok hvalue hlast =>
    rw [bind_of_ok hrun, bind_of_ok hrun']
    exact hnext _ _ hvalue _ _ hlast
  | error herror hlast =>
    rw [bind_of_error hrun, bind_of_error hrun']
    exact .error herror hlast

/-- Loops over lists run in step when their steps at items that correspond do. -/
theorem foldlM {ι κ : Type} {related : ι → κ → Prop} {step : α → ι → Sampling α}
    {other : β → κ → Sampling β} {items : List ι} {others : List κ} {start : α} {begin : β}
    (hitems : List.Forall₂ related items others)
    (hstep : ∀ value result item entry, values value result → related item entry →
      InStep values errors (step value item) (other result entry))
    (hstart : values start begin) :
    InStep values errors (items.foldlM step start) (others.foldlM other begin) := by
  induction hitems generalizing start begin with
  | nil => exact pure hstart
  | cons hitem hrest ih =>
    rw [List.foldlM_cons, List.foldlM_cons]
    exact bind (hstep _ _ _ _ hstart hitem) fun _ _ hvalue => ih hvalue

/-- Runs in step stay so when more errors correspond. -/
theorem mono {more : SpinError → SpinError → Prop} (hstep : InStep values errors first second)
    (hmore : ∀ error other, errors error other → more error other) :
    InStep values more first second := by
  intro tape other hsource
  have hends := hstep tape other hsource
  generalize first tape = ended at hends ⊢
  generalize second other = ended' at hends ⊢
  cases hends with
  | ok hvalue hlast => exact .ok hvalue hlast
  | error herror hlast => exact .error (hmore _ _ herror) hlast

variable {tape other last : Tape}

/-- When one of two runs in step has a result, so has the other. -/
theorem exists_ok (hstep : InStep values errors first second) (hsource : tape.source = other.source)
    {value : α} (hrun : first tape = .ok value last) :
    ∃ result behind, second other = .ok result behind ∧ values value result ∧
      last.source = behind.source := by
  have hends := hstep tape other hsource
  rw [hrun] at hends
  generalize second other = ended at hends ⊢
  cases hends with
  | ok hvalue hlast => exact ⟨_, _, rfl, hvalue, hlast⟩

/-- When one of two runs in step fails, so does the other. -/
theorem exists_error (hstep : InStep values errors first second)
    (hsource : tape.source = other.source) {error : SpinError}
    (hrun : first tape = .error error last) :
    ∃ fault behind, second other = .error fault behind ∧ errors error fault ∧
      last.source = behind.source := by
  have hends := hstep tape other hsource
  rw [hrun] at hends
  generalize second other = ended at hends ⊢
  cases hends with
  | error herror hlast => exact ⟨_, _, rfl, herror, hlast⟩

end InStep

end Sampling

end Spintax
