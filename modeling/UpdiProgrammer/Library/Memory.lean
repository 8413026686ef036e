import Mathlib.Tactic.Common
import Mathlib.Logic.Function.Basic

namespace UpdiProgrammer.Library.Memory

variable {C β : Type}

/-- An address map that sends no two addresses to the same cell. -/
def OneToOne (cell : ℕ → Option C) : Prop :=
  ∀ a a' c, cell a = some c → cell a' = some c → a = a'

/-- The contents `f'` are `f` with `data` stored from `address` on, and
nothing else changed. -/
structure Stored (cell : ℕ → Option C) (address : ℕ) (data : List β) (f f' : C → β) : Prop where
  inside : ∀ i (hi : i < data.length) c, cell (address + i) = some c → f' c = data[i]
  outside : ∀ c, (∀ i < data.length, cell (address + i) ≠ some c) → f' c = f c

/-- The contents `f` hold `data` from `address` on. -/
def Holds (cell : ℕ → Option C) (address : ℕ) (data : List β) (f : C → β) : Prop :=
  ∀ i (hi : i < data.length) c, cell (address + i) = some c → f c = data[i]

variable {cell : ℕ → Option C} {address : ℕ} {data data' : List β} {f f' f'' : C → β}

namespace Stored

theorem nil : Stored cell address [] f f :=
  ⟨fun _ hi ↦ absurd hi (Nat.not_lt_zero _), fun _ _ ↦ rfl⟩

theorem cons [DecidableEq C] (hcell : OneToOne cell) {c : C} {b : β} (hc : cell address = some c)
    (h : Stored cell (address + 1) data (Function.update f c b) f') :
    Stored cell address (b :: data) f f' := by
  constructor
  · intro i hi c' hc'
    cases i with
    | zero =>
      obtain rfl : c = c' := Option.some_inj.mp (hc.symm.trans hc')
      have hout : ∀ i < data.length, cell (address + 1 + i) ≠ some c := by
        intro i _ hi'
        have ha := hcell _ _ c hi' hc
        omega
      rw [h.outside c hout, Function.update_self, List.getElem_cons_zero]
    | succ i =>
      rw [List.length_cons, Nat.add_lt_add_iff_right] at hi
      rw [List.getElem_cons_succ]
      exact h.inside i hi c' (by rwa [Nat.add_assoc, Nat.add_comm 1])
  · intro c' hc'
    have hne : c' ≠ c := by
      rintro rfl
      exact hc' 0 (Nat.zero_lt_succ _) hc
    have hout : ∀ i < data.length, cell (address + 1 + i) ≠ some c' := by
      intro i hi
      rw [Nat.add_assoc, Nat.add_comm 1]
      exact hc' (i + 1) (Nat.add_lt_add_right hi 1)
    rw [h.outside c' hout, Function.update_of_ne hne]

/-- Storing is a function of the old contents, whatever way it is done. -/
theorem unique (h : Stored cell address data f f') (h' : Stored cell address data f f'') :
    f' = f'' := by
  funext c
  by_cases hc : ∃ i < data.length, cell (address + i) = some c
  · obtain ⟨i, hi, hci⟩ := hc
    rw [h.inside i hi c hci, h'.inside i hi c hci]
  · have hout : ∀ i < data.length, cell (address + i) ≠ some c :=
      fun i hi hci ↦ hc ⟨i, hi, hci⟩
    rw [h.outside c hout, h'.outside c hout]

end Stored

theorem Holds.unique (hdef : ∀ i < data.length, (cell (address + i)).isSome)
    (hlen : data.length = data'.length) (h : Holds cell address data f)
    (h' : Holds cell address data' f) : data = data' := by
  refine List.ext_getElem hlen fun i hi hi' ↦ ?_
  obtain ⟨c, hc⟩ := Option.isSome_iff_exists.mp (hdef i hi)
  rw [← h i hi c hc, ← h' i hi' c hc]

/-- The contents of a flat memory after storing `data` at `address`. -/
def overwrite (f : ℕ → β) (address : ℕ) (data : List β) : ℕ → β := fun i ↦
  if h : address ≤ i ∧ i - address < data.length then data.get ⟨i - address, h.2⟩ else f i

section Overwrite

variable {f : ℕ → β} {i : ℕ}

theorem overwrite_of_lt (h : i < data.length) :
    overwrite f address data (address + i) = data[i] := by
  have hi : address ≤ address + i ∧ address + i - address < data.length := by omega
  rw [overwrite, dif_pos hi]
  simp only [List.get_eq_getElem, Nat.add_sub_cancel_left]

theorem overwrite_of_not (h : ¬(address ≤ i ∧ i - address < data.length)) :
    overwrite f address data i = f i := dif_neg h

@[simp] theorem overwrite_nil : overwrite f address [] = f :=
  funext fun _ ↦ overwrite_of_not fun h ↦ Nat.not_lt_zero _ h.2

theorem overwrite_append (a b : List β) :
    overwrite f address (a ++ b) = overwrite (overwrite f address a) (address + a.length) b := by
  funext i
  by_cases ha : address ≤ i ∧ i - address < a.length
  · obtain ⟨k, rfl⟩ := Nat.exists_eq_add_of_le ha.1
    have hk : k < a.length := by omega
    have hout : ¬(address + a.length ≤ address + k ∧ address + k - (address + a.length) <
        b.length) := by
      omega
    rw [overwrite_of_not hout, overwrite_of_lt hk,
      overwrite_of_lt (by rw [List.length_append]; omega), List.getElem_append_left]
  · by_cases hb : address + a.length ≤ i ∧ i - (address + a.length) < b.length
    · obtain ⟨k, rfl⟩ := Nat.exists_eq_add_of_le hb.1
      have hk : k < b.length := by omega
      rw [overwrite_of_lt hk, Nat.add_assoc, overwrite_of_lt (by rw [List.length_append]; omega),
        List.getElem_append_right (Nat.le_add_right _ _)]
      simp only [Nat.add_sub_cancel_left]
    · have hab : ¬(address ≤ i ∧ i - address < (a ++ b).length) := by
        rw [List.length_append]
        omega
      rw [overwrite_of_not hab, overwrite_of_not hb, overwrite_of_not ha]

theorem overwrite_cons (b : β) (l : List β) :
    overwrite f address (b :: l) = overwrite (Function.update f address b) (address + 1) l := by
  have hb : overwrite f address [b] = Function.update f address b := by
    funext i
    by_cases hi : i = address
    · subst hi
      have h0 : overwrite f i [b] (i + 0) = [b][0] := overwrite_of_lt Nat.zero_lt_one
      rw [Function.update_self]
      exact h0
    · rw [Function.update_of_ne hi, overwrite_of_not]
      simp only [List.length_singleton]
      omega
  rw [← hb, ← List.singleton_append, overwrite_append]
  rfl

theorem overwrite_eq_self (h : ∀ i (hi : i < data.length), f (address + i) = data[i]) :
    overwrite f address data = f := by
  funext i
  by_cases hi : address ≤ i ∧ i - address < data.length
  · obtain ⟨k, rfl⟩ := Nat.exists_eq_add_of_le hi.1
    have hk : k < data.length := by omega
    rw [overwrite_of_lt hk, h k hk]
  · exact overwrite_of_not hi

end Overwrite

end UpdiProgrammer.Library.Memory
