import Mathlib.Tactic.Common

namespace UpdiProgrammer.Library.Simulation

variable {ι S T U β : Type}

def answers (step : ι → S → β × S) : List ι → S → List β × S
  | [], s => ([], s)
  | op :: ops, s =>
    ((step op s).1 :: (answers step ops (step op s).2).1, (answers step ops (step op s).2).2)

/-- Two systems in states related by `R` give the same answer to every
operation in `P`, and come to related states. -/
def Simulates (P : ι → Prop) (R : S → T → Prop) (step : ι → S → β × S) (step' : ι → T → β × T) :
    Prop :=
  ∀ op s t, P op → R s t → (step op s).1 = (step' op t).1 ∧ R (step op s).2 (step' op t).2

namespace Simulates

variable {P : ι → Prop} {R : S → T → Prop} {R' : T → U → Prop} {step : ι → S → β × S}
  {step' : ι → T → β × T} {step'' : ι → U → β × U}

/-- From one operation to all of them: related systems cannot be told apart. -/
theorem run (h : Simulates P R step step') {s : S} {t : T} (hR : R s t) {ops : List ι}
    (hops : ∀ op ∈ ops, P op) :
    (answers step ops s).1 = (answers step' ops t).1 ∧
      R (answers step ops s).2 (answers step' ops t).2 := by
  induction ops generalizing s t with
  | nil => exact ⟨rfl, hR⟩
  | cons op ops ih =>
    obtain ⟨hsame, hnext⟩ := h op s t (hops op List.mem_cons_self) hR
    obtain ⟨hrest, hend⟩ := ih hnext fun op' hop' ↦ hops op' (List.mem_cons_of_mem op hop')
    refine ⟨?_, hend⟩
    simp only [answers, hsame, hrest]

theorem symm (h : Simulates P R step step') : Simulates P (fun t s ↦ R s t) step' step := by
  intro op t s hop hR
  obtain ⟨hsame, hnext⟩ := h op s t hop hR
  exact ⟨hsame.symm, hnext⟩

theorem trans (h : Simulates P R step step') (h' : Simulates P R' step' step'') :
    Simulates P (fun s u ↦ ∃ t, R s t ∧ R' t u) step step'' := by
  rintro op s u hop ⟨t, hst, htu⟩
  obtain ⟨hsame, hnext⟩ := h op s t hop hst
  obtain ⟨hsame', hnext'⟩ := h' op t u hop htu
  exact ⟨hsame.trans hsame', _, hnext, hnext'⟩

end Simulates

end UpdiProgrammer.Library.Simulation
