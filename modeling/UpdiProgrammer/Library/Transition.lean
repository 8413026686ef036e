import Mathlib.Tactic.Common

namespace UpdiProgrammer.Library.Transition

variable {L M S T α : Type}

/-- What a system lets be seen on a run from `s`, and the state the run has come
to. A step that is not possible is `none`. -/
inductive Run (step : L → S → Option (List α × S)) (s : S) : List α → S → Prop
  | start : Run step s [] s
  | next {l : L} {seen out : List α} {s' s'' : S} (h : Run step s seen s')
      (hstep : step l s' = some (out, s'')) :
      Run step s (seen ++ out) s''

variable {step : L → S → Option (List α × S)} {step' : M → T → Option (List α × T)}

namespace Run

variable {s s' s'' : S} {seen seen' : List α}

theorem single {l : L} {out : List α} (h : step l s = some (out, s')) : Run step s out s' :=
  .next .start h

theorem trans (h : Run step s seen s') (h' : Run step s' seen' s'') :
    Run step s (seen ++ seen') s'' := by
  induction h' with
  | start => simpa only [List.append_nil] using h
  | next h' hstep ih => simpa only [List.append_assoc] using ih.next hstep

/-- What one step preserves a run preserves. -/
theorem invariant {I : S → Prop} (h : Run step s seen s') (hs : I s)
    (hstep : ∀ l s out s', I s → step l s = some (out, s') → I s') : I s' := by
  induction h with
  | start => exact hs
  | next h hnext ih => exact hstep _ _ _ _ ih hnext

end Run

/-- The run of a system that is told every step. -/
def follow (step : L → S → Option (List α × S)) : List L → S → Option (List α × S)
  | [], s => some ([], s)
  | l :: ls, s => do
    let (out, s') ← step l s
    let (seen, s'') ← follow step ls s'
    some (out ++ seen, s'')

theorem Run.of_follow {ls : List L} {s s' : S} {seen : List α}
    (h : follow step ls s = some (seen, s')) :
    Run step s seen s' := by
  induction ls generalizing s seen with
  | nil =>
    cases h
    exact .start
  | cons l ls ih =>
    obtain ⟨⟨out, s₁⟩, hstep, h⟩ := Option.bind_eq_some_iff.mp h
    obtain ⟨⟨rest, s₂⟩, hrest, h⟩ := Option.bind_eq_some_iff.mp h
    cases h
    exact (Run.single hstep).trans (ih hrest)

/-- Every step of the left system is matched by a run of the right one on which
the same is seen, between states related by `R`. -/
def Matches (R : S → T → Prop) (step : L → S → Option (List α × S))
    (step' : M → T → Option (List α × T)) : Prop :=
  ∀ l s out s' t, R s t → step l s = some (out, s') → ∃ t', Run step' t out t' ∧ R s' t'

theorem Matches.run {R : S → T → Prop} (hmatch : Matches R step step') {s s' : S} {t : T}
    {seen : List α} (hR : R s t) (h : Run step s seen s') :
    ∃ t', Run step' t seen t' ∧ R s' t' := by
  induction h with
  | start => exact ⟨t, .start, hR⟩
  | next h hstep ih =>
    obtain ⟨u, hu, hRu⟩ := ih
    obtain ⟨t', ht', hR'⟩ := hmatch _ _ _ _ _ hRu hstep
    exact ⟨t', hu.trans ht', hR'⟩

end UpdiProgrammer.Library.Transition
