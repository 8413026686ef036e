import UpdiProgrammer.Library.Program

namespace UpdiProgrammer.Library.Program

open Prog

variable {S T S' T' E F α β : Type}

/-- From related states two programs come to related states, and end alike. -/
def Agrees (R : S → T → Prop) (m : Prog S E α) (p : Prog T E α) : Prop :=
  ∀ s t, R s t → (m s).1 = (p t).1 ∧ R (m s).2 (p t).2

namespace Agrees

variable {R : S → T → Prop} {m : Prog S E α} {p : Prog T E α}

theorem pure {a : α} : Agrees R (Pure.pure a : Prog S E α) (Pure.pure a : Prog T E α) :=
  fun _ _ h ↦ ⟨rfl, h⟩

theorem fail {e : E} : Agrees R (Prog.fail e : Prog S E α) (Prog.fail e : Prog T E α) :=
  fun _ _ h ↦ ⟨rfl, h⟩

theorem ofStatus {r : Except E α} :
    Agrees R (Prog.ofStatus r : Prog S E α) (Prog.ofStatus r : Prog T E α) :=
  fun _ _ h ↦ ⟨rfl, h⟩

theorem read {f : S → α} {g : T → α} (h : ∀ s t, R s t → f s = g t) :
    Agrees R (Prog.read f : Prog S E α) (Prog.read g : Prog T E α) := by
  intro s t hR
  exact ⟨congrArg Except.ok (h s t hR), hR⟩

theorem modify {f : S → S} {g : T → T} (h : ∀ s t, R s t → R (f s) (g t)) :
    Agrees R (Prog.modify f : Prog S E Unit) (Prog.modify g : Prog T E Unit) :=
  fun s t hR ↦ ⟨rfl, h s t hR⟩

theorem bind {k : α → Prog S E β} {j : α → Prog T E β} (hm : Agrees R m p)
    (hk : ∀ a, Agrees R (k a) (j a)) :
    Agrees R (m >>= k) (p >>= j) := by
  intro s t hR
  obtain ⟨hsame, hR'⟩ := hm s t hR
  rw [bind_run, bind_run]
  rcases hr : m s with ⟨r, s'⟩
  rcases hr' : p t with ⟨r', t'⟩
  rw [hr, hr'] at hsame hR'
  cases hsame
  cases r with
  | error e => exact ⟨rfl, hR'⟩
  | ok a => exact hk a s' t' hR'

theorem ite {c : Prop} [Decidable c] {m' : Prog S E α} {p' : Prog T E α} (h : c → Agrees R m p)
    (h' : ¬c → Agrees R m' p') : Agrees R (if c then m else m') (if c then p else p') := by
  split_ifs with hc
  · exact h hc
  · exact h' hc

theorem attempt (h : Agrees R m p) : Agrees R (Prog.attempt m) (Prog.attempt p) := by
  intro s t hR
  obtain ⟨hsame, hR'⟩ := h s t hR
  exact ⟨congrArg Except.ok hsame, hR'⟩

theorem zoom {R' : S' → T' → Prop} {get : S' → S} {set : S → S' → S'} {get' : T' → T}
    {set' : T → T' → T'} {lift : E → F} (h : Agrees R m p)
    (hget : ∀ s t, R' s t → R (get s) (get' t))
    (hset : ∀ s t u v, R' s t → R u v → R' (set u s) (set' v t)) :
    Agrees R' (Prog.zoom get set lift m) (Prog.zoom get' set' lift p) := by
  intro s t hR
  obtain ⟨hsame, hR'⟩ := h _ _ (hget s t hR)
  rw [zoom_run, zoom_run, hsame]
  exact ⟨rfl, hset _ _ _ _ hR hR'⟩

theorem silent {q : Prog T E β} {j : β → Prog T E α}
    (hq : ∀ s t, R s t → ∃ b t', q t = (.ok b, t') ∧ R s t' ∧ Agrees R m (j b)) :
    Agrees R m (q >>= j) := by
  intro s t hR
  obtain ⟨b, t', hrun, hR', hj⟩ := hq s t hR
  rw [bind_ok hrun]
  exact hj s t' hR'

end Agrees

theorem Triple.of_fact {c : Prop} {P : S → Prop} {m : Prog S E α} {Q : α → S → Prop}
    {R : E → S → Prop} (h : c → Triple P m Q R) : Triple (fun s ↦ P s ∧ c) m Q R :=
  fun s hs ↦ h hs.2 s hs.1

theorem Fixes.triple {f : S → β} {m : Prog S E α} (h : Fixes f m) (P : β → Prop) :
    Triple (fun s ↦ P (f s)) m (fun _ s ↦ P (f s)) (fun _ s ↦ P (f s)) := by
  intro s hs
  have hkeep : P (f (m s).2) := by
    rw [h s]
    exact hs
  rcases hrun : m s with ⟨e | a, s'⟩ <;> rw [hrun] at hkeep <;> exact hkeep

end UpdiProgrammer.Library.Program
