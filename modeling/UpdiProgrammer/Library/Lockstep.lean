import UpdiProgrammer.Library.Program

namespace UpdiProgrammer.Library.Program

open Prog

variable {S T E F α β γ δ : Type}

/-- One program after the other, up to the first that fails, with all that they return. -/
def each (f : γ → Prog S E α) : List γ → Prog S E (List α)
  | [] => Pure.pure []
  | i :: l => do
    let x ← f i
    let xs ← each f l
    Pure.pure (x :: xs)

/-- What excuses two runs from keeping in step: something the left one has come
to, or a status that either ends with. -/
structure Excuse (S E F : Type) where
  state : S → Prop
  left : E → Prop
  right : F → Prop

namespace Excuse

variable {X : Excuse S E F}

def Holds (X : Excuse S E F) (r : Except E α × S) (r' : Except F β × T) : Prop :=
  X.state r.2 ∨ (∃ e, r.1 = .error e ∧ X.left e) ∨ ∃ f, r'.1 = .error f ∧ X.right f

theorem not_holds {r : Except E α × S} {r' : Except F β × T} (hstate : ¬X.state r.2)
    (hleft : ∀ e, r.1 = .error e → ¬X.left e) (hright : ∀ f, r'.1 = .error f → ¬X.right f) :
    ¬X.Holds r r' := by
  rintro (hs | ⟨e, he, hx⟩ | ⟨f, hf, hx⟩)
  · exact hstate hs
  · exact hleft e he hx
  · exact hright f hf hx

/-- A run that comes to an excuse does not lose it. -/
def KeptBy (X : Excuse S E F) (m : Prog S E α) : Prop := ∀ s, X.state s → X.state (m s).2

theorem KeptBy.bind {m : Prog S E α} {k : α → Prog S E β} (hm : X.KeptBy m)
    (hk : ∀ x, X.KeptBy (k x)) :
    X.KeptBy (m >>= k) := by
  intro s hs
  have hs' := hm s hs
  rw [bind_run]
  rcases hr : m s with ⟨e | x, s'⟩
  · rwa [hr] at hs'
  · rw [hr] at hs'
    exact hk x s' hs'

theorem keptBy_each {f : γ → Prog S E α} (h : ∀ i, X.KeptBy (f i)) (l : List γ) :
    X.KeptBy (each f l) := by
  induction l with
  | nil => exact fun _ hs ↦ hs
  | cons i l ih => exact (h i).bind fun _ ↦ ih.bind fun _ _ hs ↦ hs

/-- An excuse that is a status only. -/
def ofStatus (left : E → Prop) (right : F → Prop) : Excuse S E F := ⟨fun _ ↦ False, left, right⟩

theorem keptBy_ofStatus {left : E → Prop} {right : F → Prop} {m : Prog S E α} :
    (ofStatus left right : Excuse S E F).KeptBy m := fun _ h ↦ h.elim

end Excuse

/-- Both return, and with results related by `M`, or both fail, with statuses
related by `N`. -/
inductive Alike (M : α → β → Prop) (N : E → F → Prop) : Except E α → Except F β → Prop
  | ok {x : α} {y : β} (h : M x y) : Alike M N (.ok x) (.ok y)
  | error {e : E} {f : F} (h : N e f) : Alike M N (.error e) (.error f)

def Return (M : α → β → Prop) : Except E α → Except F β → Prop := Alike M fun _ _ ↦ False

theorem Alike.mono {M M' : α → β → Prop} {N N' : E → F → Prop} {r : Except E α} {r' : Except F β}
    (h : Alike M N r r') (hM : ∀ x y, M x y → M' x y) (hN : ∀ e f, N e f → N' e f) :
    Alike M' N' r r' := by
  cases h with
  | ok h => exact .ok (hM _ _ h)
  | error h => exact .error (hN _ _ h)

theorem Alike.toOption {N : E → F → Prop} {r : Except E α} {r' : Except F α}
    (h : Alike (· = ·) N r r') :
    r.toOption = r'.toOption := by
  cases h with
  | ok h => exact congrArg some h
  | error _ => rfl

/-- From related states two programs come to related states, with statuses
related by `Q`, unless they are excused. -/
def Lockstep (R : S → T → Prop) (X : Excuse S E F) (m : Prog S E α) (p : Prog T F β)
    (Q : Except E α → Except F β → Prop) : Prop :=
  ∀ s t, R s t → X.Holds (m s) (p t) ∨ R (m s).2 (p t).2 ∧ Q (m s).1 (p t).1

namespace Lockstep

variable {R : S → T → Prop} {X : Excuse S E F} {m : Prog S E α} {p : Prog T F β}
  {Q Q' : Except E α → Except F β → Prop}

theorem mono (h : Lockstep R X m p Q) (hQ : ∀ r r', Q r r' → Q' r r') : Lockstep R X m p Q' :=
  fun s t hR ↦
  (h s t hR).imp_right fun ⟨hR', hq⟩ ↦ ⟨hR', hQ _ _ hq⟩

theorem weaken {X' : Excuse S E F} (h : Lockstep R X m p Q) (hstate : ∀ s, X.state s → X'.state s)
    (hleft : ∀ e, X.left e → X'.left e) (hright : ∀ f, X.right f → X'.right f) :
    Lockstep R X' m p Q := by
  intro s t hR
  rcases h s t hR with (hs | ⟨e, he, hx⟩ | ⟨f, hf, hx⟩) | hboth
  · exact .inl (.inl (hstate _ hs))
  · exact .inl (.inr (.inl ⟨e, he, hleft e hx⟩))
  · exact .inl (.inr (.inr ⟨f, hf, hright f hx⟩))
  · exact .inr hboth

theorem pure {x : α} {y : β} (h : Q (.ok x) (.ok y)) : Lockstep R X (Pure.pure x) (Pure.pure y) Q :=
  fun _ _ hR ↦ .inr ⟨hR, h⟩

theorem fail {e : E} {f : F} (h : Q (.error e) (.error f)) :
    Lockstep R X (Prog.fail e : Prog S E α) (Prog.fail f : Prog T F β) Q :=
  fun _ _ hR ↦ .inr ⟨hR, h⟩

theorem excused_left {e : E} (h : X.left e) : Lockstep R X (Prog.fail e : Prog S E α) p Q :=
  fun _ _ _ ↦ .inl (.inr (.inl ⟨e, rfl, h⟩))

theorem excused_right {f : F} (h : X.right f) : Lockstep R X m (Prog.fail f : Prog T F β) Q :=
  fun _ _ _ ↦ .inl (.inr (.inr ⟨f, rfl, h⟩))

theorem bind {M : α → β → Prop} {N : E → F → Prop} {k : α → Prog S E γ} {j : β → Prog T F δ}
    {Q : Except E γ → Except F δ → Prop} (hm : Lockstep R X m p (Alike M N))
    (hkept : ∀ x, X.KeptBy (k x)) (herr : ∀ e f, N e f → Q (.error e) (.error f))
    (hk : ∀ x y, M x y → Lockstep R X (k x) (j y) Q) : Lockstep R X (m >>= k) (p >>= j) Q := by
  intro s t hR
  have h := hm s t hR
  rw [bind_run, bind_run]
  rcases hr : m s with ⟨r, s'⟩
  rcases hr' : p t with ⟨r', t'⟩
  rw [hr, hr'] at h
  rcases h with (hs | ⟨e, rfl, he⟩ | ⟨f, rfl, hf⟩) | ⟨hR', hM⟩
  · cases r with
    | ok x => exact .inl (.inl (hkept x s' hs))
    | error e => exact .inl (.inl hs)
  · exact .inl (.inr (.inl ⟨e, rfl, he⟩))
  · exact .inl (.inr (.inr ⟨f, rfl, hf⟩))
  · cases hM with
    | ok hxy => exact hk _ _ hxy s' t' hR'
    | error h => exact .inr ⟨hR', herr _ _ h⟩

theorem seq {exL : E → Prop} {exR : F → Prop} {M : α → β → Prop} {N : E → F → Prop}
    {k : α → Prog S E γ} {j : β → Prog T F δ} {Q : Except E γ → Except F δ → Prop}
    (hm : Lockstep R (.ofStatus exL exR) m p (Alike M N)) (herr : ∀ e f, Q (.error e) (.error f))
    (hk : ∀ x y, M x y → Lockstep R (.ofStatus exL exR) (k x) (j y) Q) :
    Lockstep R (.ofStatus exL exR) (m >>= k) (p >>= j) Q :=
  hm.bind (fun _ ↦ Excuse.keptBy_ofStatus) (fun e f _ ↦ herr e f) hk

theorem zoom {V G : Type} {R' : V → T → Prop} {get : V → S} {set : S → V → V} {lift : E → G}
    {exL : E → Prop} {exL' : G → Prop} {exR : F → Prop} {M : α → β → Prop} {N : E → F → Prop}
    (hget : ∀ v t, R' v t → R (get v) t) (hset : ∀ v t s t', R' v t → R s t' → R' (set s v) t')
    (hlift : ∀ e, exL e → exL' (lift e)) (h : Lockstep R (.ofStatus exL exR) m p (Alike M N)) :
    Lockstep R' (.ofStatus exL' exR) (Prog.zoom get set lift m) p (Alike M fun _ _ ↦ True) := by
  intro v t hv
  have hstep := h (get v) t (hget v t hv)
  rw [zoom_run]
  rcases hr : m (get v) with ⟨r, s'⟩
  rcases hr' : p t with ⟨r', t'⟩
  rw [hr, hr'] at hstep
  rcases hstep with (hs | ⟨e, rfl, he⟩ | ⟨f, rfl, hf⟩) | ⟨hR, hM⟩
  · exact hs.elim
  · exact .inl (.inr (.inl ⟨lift e, rfl, hlift e he⟩))
  · exact .inl (.inr (.inr ⟨f, rfl, hf⟩))
  · cases hM with
    | ok hxy => exact .inr ⟨hset v t s' t' hv hR, .ok hxy⟩
    | error _ => exact .inr ⟨hset v t s' t' hv hR, .error trivial⟩

theorem each {N : E → F → Prop} {f : γ → Prog S E α} {f' : γ → Prog T F α} {l : List γ}
    (hkept : ∀ i, X.KeptBy (f i)) (h : ∀ i ∈ l, Lockstep R X (f i) (f' i) (Alike (· = ·) N)) :
    Lockstep R X (Program.each f l) (Program.each f' l) (Alike (· = ·) N) := by
  induction l with
  | nil => exact .pure (.ok rfl)
  | cons i l ih =>
    have hrest := ih fun j hj ↦ h j (List.mem_cons_of_mem i hj)
    have hlast (x : α) : X.KeptBy (Program.each f l >>= fun xs ↦ Pure.pure (x :: xs)) :=
      (Excuse.keptBy_each hkept l).bind fun xs _ hs ↦ hs
    refine (h i List.mem_cons_self).bind hlast (fun _ _ ↦ .error) fun x _ hx ↦ ?_
    subst hx
    refine hrest.bind (fun _ _ hs ↦ hs) (fun _ _ ↦ .error) fun xs _ hxs ↦ ?_
    subst hxs
    exact .pure (.ok rfl)

theorem left {P : α → Prop} {k : α → Prog S E γ} {Q : Except E γ → Except F β → Prop}
    (hm : ∀ s t, R s t → ∃ x s', m s = (.ok x, s') ∧ P x ∧ R s' t)
    (hk : ∀ x, P x → Lockstep R X (k x) p Q) : Lockstep R X (m >>= k) p Q := by
  intro s t hR
  obtain ⟨x, s', hm, hx, hR'⟩ := hm s t hR
  rw [bind_ok hm]
  exact hk x hx s' t hR'

theorem right {P : β → Prop} {j : β → Prog T F δ} {Q : Except E α → Except F δ → Prop}
    (hp : ∀ s t, R s t → ∃ y t', p t = (.ok y, t') ∧ P y ∧ R s t')
    (hj : ∀ y, P y → Lockstep R X m (j y) Q) : Lockstep R X m (p >>= j) Q := by
  intro s t hR
  obtain ⟨y, t', hp, hy, hR'⟩ := hp s t hR
  rw [bind_ok hp]
  exact hj y hy s t' hR'

theorem ite {c c' : Prop} [Decidable c] [Decidable c'] {m' : Prog S E α} {p' : Prog T F β}
    (hc : c ↔ c') (h : c → Lockstep R X m p Q) (h' : ¬c → Lockstep R X m' p' Q) :
    Lockstep R X (if c then m else m') (if c' then p else p') Q := by
  by_cases hcond : c
  · rw [if_pos hcond, if_pos (hc.mp hcond)]
    exact h hcond
  · rw [if_neg hcond, if_neg fun h ↦ hcond (hc.mpr h)]
    exact h' hcond

end Lockstep

end UpdiProgrammer.Library.Program
