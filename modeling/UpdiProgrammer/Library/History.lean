import Mathlib.Tactic.Common

namespace UpdiProgrammer.Library.History

variable {α : Type} {p : List α → α → Prop} {history before : List α} {x y : α}

/-- Some entry of a history meets `p`, which may look at the entries before it. -/
def Somewhere (p : List α → α → Prop) (history : List α) : Prop :=
  ∃ before x after, history = before ++ x :: after ∧ p before x

/-- The last entry of a history that meets `p`, with the entries before it. -/
def Last (p : List α → α → Prop) (history before : List α) (x : α) : Prop :=
  ∃ after, history = before ++ x :: after ∧ p before x ∧
    ∀ mid y rest, after = mid ++ y :: rest → ¬p (before ++ x :: mid) y

theorem concat_eq_iff {after : List α} : history ++ [y] = before ++ x :: after ↔
    (before = history ∧ x = y ∧ after = []) ∨ ∃ rest, after = rest ++ [y] ∧
      history = before ++ x :: rest := by
  constructor
  · intro h
    rcases List.eq_nil_or_concat after with rfl | ⟨rest, z, rfl⟩
    · obtain ⟨rfl, hxy⟩ := List.append_inj' h rfl
      exact .inl ⟨rfl, (List.cons.inj hxy).1.symm, rfl⟩
    · rw [List.concat_eq_append, ← List.cons_append, ← List.append_assoc] at h
      obtain ⟨hcat, hyz⟩ := List.append_inj' h rfl
      rw [List.concat_eq_append, (List.cons.inj hyz).1]
      exact .inr ⟨rest, rfl, hcat⟩
  · rintro (⟨rfl, rfl, rfl⟩ | ⟨rest, rfl, rfl⟩)
    · rfl
    · simp

theorem not_somewhere_nil : ¬Somewhere p [] := by
  rintro ⟨before, x, after, h, -⟩
  exact List.append_ne_nil_of_right_ne_nil before (List.cons_ne_nil x after) h.symm

theorem somewhere_concat : Somewhere p (history ++ [y]) ↔ Somewhere p history ∨ p history y := by
  constructor
  · rintro ⟨before, x, after, h, hp⟩
    rcases concat_eq_iff.mp h with ⟨rfl, rfl, -⟩ | ⟨rest, -, rfl⟩
    · exact .inr hp
    · exact .inl ⟨before, x, rest, rfl, hp⟩
  · rintro (⟨before, x, after, rfl, hp⟩ | hp)
    · exact ⟨before, x, after ++ [y], by simp, hp⟩
    · exact ⟨history, y, [], rfl, hp⟩

theorem forall_entry_nil {q : List α → α → Prop} :
    ∀ before x after, [] = before ++ x :: after → q before x := by
  intro before x after h
  exact absurd h.symm (List.append_ne_nil_of_right_ne_nil before (List.cons_ne_nil x after))

theorem forall_entry_cons {q : List α → α → Prop} :
    (∀ before x after, y :: history = before ++ x :: after → q before x) ↔
      q [] y ∧ ∀ before x after, history = before ++ x :: after → q (y :: before) x := by
  constructor
  · intro h
    refine ⟨h [] y history rfl, fun before x after hcat ↦ ?_⟩
    exact h (y :: before) x after (congrArg (y :: ·) hcat)
  · rintro ⟨hfirst, hrest⟩ before x after hcat
    cases before with
    | nil =>
      obtain ⟨rfl, -⟩ := List.cons.inj hcat
      exact hfirst
    | cons z before =>
      obtain ⟨rfl, htail⟩ := List.cons.inj hcat
      exact hrest before x after htail

theorem last_concat_of (h : p history y) : Last p (history ++ [y]) history y := by
  refine ⟨[], rfl, h, fun mid z rest hnil ↦ ?_⟩
  exact absurd hnil.symm (List.append_ne_nil_of_right_ne_nil mid (List.cons_ne_nil z rest))

theorem Last.concat (h : Last p history before x) (hy : ¬p history y) :
    Last p (history ++ [y]) before x := by
  obtain ⟨after, rfl, hp, hlast⟩ := h
  refine ⟨after ++ [y], by simp, hp, fun mid z rest hcat ↦ ?_⟩
  rcases concat_eq_iff.mp hcat with ⟨rfl, rfl, -⟩ | ⟨rest', -, hafter⟩
  · exact hy
  · exact hlast mid z rest' hafter

end UpdiProgrammer.Library.History
