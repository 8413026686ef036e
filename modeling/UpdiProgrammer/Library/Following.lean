import UpdiProgrammer.Library.Agreement

namespace UpdiProgrammer.Library.Program

open Prog

variable {S T S' T' E F α β : Type}

/-- Started from `s` and `t` the two programs return the same, in states related by
`R`, the left one's with `Q`. -/
def Together (R : S → T → Prop) (m : Prog S E α) (p : Prog T E α) (s : S) (t : T) (a : α)
    (Q : S → Prop) : Prop :=
  ∃ s' t', m s = (.ok a, s') ∧ p t = (.ok a, t') ∧ R s' t' ∧ Q s'

/-- Where the left program returns, the right one returns the same, in a related state. -/
def Follows (R : S → T → Prop) (m : Prog S E α) (p : Prog T E α) : Prop :=
  ∀ s t, R s t → ∀ a s', m s = (.ok a, s') → ∃ t', p t = (.ok a, t') ∧ R s' t'

namespace Together

variable {R R' : S → T → Prop} {m : Prog S E α} {p : Prog T E α} {s : S} {t : T} {a b : α}
  {Q Q' : S → Prop}

theorem pure (hR : R s t) (hQ : Q s) :
    Together R (Pure.pure a : Prog S E α) (Pure.pure a : Prog T E α) s t a Q :=
  ⟨s, t, rfl, rfl, hR, hQ⟩

theorem bind {k : α → Prog S E β} {j : α → Prog T E β} {b : β} (hm : Together R m p s t a Q)
    (hk : ∀ s t, R s t → Q s → Together R (k a) (j a) s t b Q') :
    Together R (m >>= k) (p >>= j) s t b Q' := by
  obtain ⟨s', t', hrun, hrun', hR, hQ⟩ := hm
  obtain ⟨s'', t'', hrest, hrest', hend⟩ := hk s' t' hR hQ
  exact ⟨s'', t'', (bind_ok hrun k).trans hrest, (bind_ok hrun' j).trans hrest', hend⟩

theorem mono (hm : Together R m p s t a Q) (hR : ∀ s t, R s t → Q s → R' s t) :
    Together R' m p s t a Q := by
  obtain ⟨s', t', hrun, hrun', hrel, hQ⟩ := hm
  exact ⟨s', t', hrun, hrun', hR s' t' hrel hQ, hQ⟩

theorem attempt (hm : Together R m p s t a Q) :
    Together R (Prog.attempt m) (Prog.attempt p) s t (.ok a) Q := by
  obtain ⟨s', t', hrun, hrun', hrel, hQ⟩ := hm
  refine ⟨s', t', ?_, ?_, hrel, hQ⟩
  · rw [attempt_run, hrun]
  · rw [attempt_run, hrun']

theorem follows (hm : Together R m p s t a Q) {s' : S} (hrun : m s = (.ok b, s')) :
    ∃ t', p t = (.ok b, t') ∧ R s' t' := by
  obtain ⟨s'', t', hrun', hp, hrel, -⟩ := hm
  rw [hrun] at hrun'
  cases hrun'
  exact ⟨t', hp, hrel⟩

theorem agrees (h : ∀ s t, R s t → ∃ a Q, Together R m p s t a Q) : Agrees R m p := by
  intro s t hR
  obtain ⟨a, Q, s', t', hm, hp, hR', -⟩ := h s t hR
  rw [hm, hp]
  exact ⟨rfl, hR'⟩

end Together

namespace Follows

variable {R : S → T → Prop} {m : Prog S E α} {p : Prog T E α}

theorem of_agrees (h : Agrees R m p) : Follows R m p := by
  intro s t hR a s' hrun
  obtain ⟨hsame, hR'⟩ := h s t hR
  rw [hrun] at hsame hR'
  exact ⟨(p t).2, Prod.ext hsame.symm rfl, hR'⟩

theorem agrees {K : S → Prop} (h : Follows R m p) (hreturns : ∀ s, K s → ∃ a, Returns m s a K) :
    Agrees (fun s t ↦ R s t ∧ K s) m p := by
  rintro s t ⟨hR, hK⟩
  obtain ⟨a, s', hm, hK'⟩ := hreturns s hK
  obtain ⟨t', hp, hR'⟩ := h s t hR a s' hm
  rw [hm, hp]
  exact ⟨rfl, hR', hK'⟩

theorem pure {a : α} : Follows R (Pure.pure a : Prog S E α) (Pure.pure a : Prog T E α) :=
  of_agrees .pure

theorem bind {k : α → Prog S E β} {j : α → Prog T E β} (hm : Follows R m p)
    (hk : ∀ a, Follows R (k a) (j a)) :
    Follows R (m >>= k) (p >>= j) := by
  intro s t hR b s'' hrun
  obtain ⟨a, s', hfirst, hrest⟩ := bind_eq_ok.mp hrun
  obtain ⟨t', hp, hR'⟩ := hm s t hR a s' hfirst
  obtain ⟨t'', hj, hend⟩ := hk a s' t' hR' b s'' hrest
  exact ⟨t'', (bind_ok hp j).trans hj, hend⟩

theorem attempt_bind {k : Except E α → Prog S E β} {j : Except E α → Prog T E β} (h : Follows R m p)
    (hfail : ∀ e s b s', k (.error e) s ≠ (.ok b, s'))
    (hk : ∀ a, Follows R (k (.ok a)) (j (.ok a))) :
    Follows R (Prog.attempt m >>= k) (Prog.attempt p >>= j) := by
  intro s t hR b s'' hrun
  rw [attempt_bind_run] at hrun
  rcases hm : m s with ⟨e | a, s'⟩
  · rw [hm] at hrun
    exact absurd hrun (hfail e s' b s'')
  · rw [hm] at hrun
    obtain ⟨t', hp, hR'⟩ := h s t hR a s' hm
    obtain ⟨t'', hj, hend⟩ := hk a s' t' hR' b s'' hrun
    refine ⟨t'', ?_, hend⟩
    rw [attempt_bind_run, hp]
    exact hj

theorem zoom {R' : S' → T' → Prop} {get : S' → S} {set : S → S' → S'} {get' : T' → T}
    {set' : T → T' → T'} {lift : E → F} (h : Follows R m p)
    (hget : ∀ s t, R' s t → R (get s) (get' t))
    (hset : ∀ s t u v, R' s t → R u v → R' (set u s) (set' v t)) :
    Follows R' (Prog.zoom get set lift m) (Prog.zoom get' set' lift p) := by
  intro s t hR a s' hrun
  rw [zoom_run] at hrun
  rcases hm : m (get s) with ⟨e | b, u⟩
  · rw [hm] at hrun
    cases hrun
  · rw [hm] at hrun
    cases hrun
    obtain ⟨v, hp, hR'⟩ := h _ _ (hget s t hR) a u hm
    refine ⟨set' v t, ?_, hset s t u v hR hR'⟩
    rw [zoom_run, hp]
    rfl

end Follows

/-- A way to compare two programs, which carries over from their parts to the whole. -/
structure Comparison
    (K : ∀ {S T E α : Type}, (S → T → Prop) → Prog S E α → Prog T E α → Prop) : Prop where
  of_agrees : ∀ {S T E α : Type} {R : S → T → Prop} {m : Prog S E α} {p : Prog T E α},
    Agrees R m p → K R m p
  bind : ∀ {S T E α β : Type} {R : S → T → Prop} {m : Prog S E α} {p : Prog T E α}
    {k : α → Prog S E β} {j : α → Prog T E β},
    K R m p → (∀ a, K R (k a) (j a)) → K R (m >>= k) (p >>= j)
  zoom : ∀ {S T S' T' E F α : Type} {R : S → T → Prop} {R' : S' → T' → Prop} {m : Prog S E α}
    {p : Prog T E α} {get : S' → S} {set : S → S' → S'} {get' : T' → T} {set' : T → T' → T'}
    {lift : E → F}, K R m p → (∀ s t, R' s t → R (get s) (get' t)) →
    (∀ s t u v, R' s t → R u v → R' (set u s) (set' v t)) →
    K R' (Prog.zoom get set lift m) (Prog.zoom get' set' lift p)

theorem Agrees.comparison : Comparison @Agrees where
  of_agrees h := h
  bind hm hk := hm.bind hk
  zoom h hget hset := h.zoom hget hset

theorem Follows.comparison : Comparison @Follows where
  of_agrees h := .of_agrees h
  bind hm hk := hm.bind hk
  zoom h hget hset := h.zoom hget hset

namespace Comparison

variable {K : ∀ {S T E α : Type}, (S → T → Prop) → Prog S E α → Prog T E α → Prop}
  {R : S → T → Prop}

theorem pure (h : Comparison @K) {a : α} :
    K R (Pure.pure a : Prog S E α) (Pure.pure a : Prog T E α) :=
  h.of_agrees .pure

theorem fail (h : Comparison @K) {e : E} :
    K R (Prog.fail e : Prog S E α) (Prog.fail e : Prog T E α) :=
  h.of_agrees .fail

theorem ite (_ : Comparison @K) {c : Prop} [Decidable c] {m m' : Prog S E α} {p p' : Prog T E α}
    (hc : c → K R m p) (hn : ¬c → K R m' p') :
    K R (if c then m else m') (if c then p else p') := by
  split_ifs with h
  · exact hc h
  · exact hn h

end Comparison

end UpdiProgrammer.Library.Program
