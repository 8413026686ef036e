import Mathlib.Order.Bounds.Basic
import Mathlib.Order.Interval.Set.Defs

namespace UpdiProgrammer.Library.Tracked

variable {S : Set ℕ} {any : Bool} {lo hi a n : ℕ}

/-- A flag and a half-open range that keep track of a set of numbers: whether
there are any, the least one, and one above the greatest. -/
structure Tracks (S : Set ℕ) (any : Bool) (lo hi : ℕ) : Prop where
  nonempty : any = true ↔ S.Nonempty
  least : any = true → IsLeast S lo
  greatest : any = true → ∃ last, IsGreatest S last ∧ hi = last + 1

theorem Tracks.union (h : Tracks S any lo hi) (hn : 0 < n) : Tracks (S ∪ Set.Ico a (a + n)) true
    (if any then min a lo else a) (if any then max (a + n) hi else a + n) := by
  have hfirst : a ∈ Set.Ico a (a + n) := ⟨Nat.le_refl a, by omega⟩
  have hlast : a + n - 1 ∈ Set.Ico a (a + n) := ⟨by omega, by omega⟩
  cases any with
  | false =>
    have hempty : S = ∅ := Set.not_nonempty_iff_eq_empty.mp (mt h.nonempty.mpr Bool.false_ne_true)
    rw [hempty, Set.empty_union]
    refine ⟨iff_of_true rfl ⟨a, hfirst⟩, fun _ ↦ ⟨hfirst, fun i hi ↦ hi.1⟩,
      fun _ ↦ ⟨a + n - 1, ⟨hlast, ?_⟩, ?_⟩⟩
    · intro i hi
      exact Nat.le_sub_one_of_lt hi.2
    · change a + n = _
      omega
  | true =>
    obtain ⟨hlo, hleast⟩ := h.least rfl
    obtain ⟨last, ⟨hmem, hgreatest⟩, rfl⟩ := h.greatest rfl
    simp only [if_true]
    refine ⟨iff_of_true rfl ⟨a, .inr hfirst⟩, fun _ ↦ ⟨?_, ?_⟩,
      fun _ ↦ ⟨max (a + n - 1) last, ⟨?_, ?_⟩, ?_⟩⟩
    · rcases Nat.le_total a lo with hle | hle
      · rw [Nat.min_eq_left hle]
        exact .inr hfirst
      · rw [Nat.min_eq_right hle]
        exact .inl hlo
    · rintro i (hi | hi)
      · exact Nat.le_trans (Nat.min_le_right a lo) (hleast hi)
      · exact Nat.le_trans (Nat.min_le_left a lo) hi.1
    · rcases Nat.le_total last (a + n - 1) with hle | hle
      · rw [Nat.max_eq_left hle]
        exact .inr hlast
      · rw [Nat.max_eq_right hle]
        exact .inl hmem
    · rintro i (hi | hi)
      · exact Nat.le_trans (hgreatest hi) (Nat.le_max_right _ last)
      · exact Nat.le_trans (Nat.le_sub_one_of_lt hi.2) (Nat.le_max_left _ last)
    · omega

theorem Tracks.stretch_iff (h : Tracks S any lo hi) :
    Tracks S true (if any then min a lo else a) (if any then max a hi else a) ↔
      any = true ∧ lo ≤ a ∧ a ≤ hi := by
  constructor
  · intro h'
    have hany := h.nonempty.mpr (h'.nonempty.mp rfl)
    obtain ⟨last, hlast, hend⟩ := h.greatest hany
    obtain ⟨last', hlast', hend'⟩ := h'.greatest rfl
    have hleast := (h'.least rfl).unique (h.least hany)
    have hsame := hlast.unique hlast'
    rw [if_pos hany] at hleast hend'
    refine ⟨hany, ?_, ?_⟩
    · omega
    · omega
  · rintro ⟨rfl, hlo, hhi⟩
    rw [if_pos rfl, if_pos rfl, Nat.min_eq_right hlo, Nat.max_eq_right hhi]
    exact h

end UpdiProgrammer.Library.Tracked
