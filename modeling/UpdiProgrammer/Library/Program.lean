import Mathlib.Tactic.Common

namespace UpdiProgrammer.Library.Program

/-- A computation on a state that keeps the state it reached when it
fails, as a C function with a status result does. -/
def Prog (S E α : Type) : Type := S → Except E α × S

namespace Prog

variable {S T E F α β γ : Type}

instance : Monad (Prog S E) where
  pure a := fun s ↦ (.ok a, s)
  bind m k := fun s ↦ match m s with
    | (.ok a, s') => k a s'
    | (.error e, s') => (.error e, s')

def fail (e : E) : Prog S E α := fun s ↦ (.error e, s)

def read (f : S → α) : Prog S E α := fun s ↦ (.ok (f s), s)

def modify (f : S → S) : Prog S E Unit := fun s ↦ (.ok (), f s)

/-- Run a computation for its status, which the caller inspects or drops. -/
def attempt (m : Prog S E α) : Prog S E (Except E α) := fun s ↦ (.ok (m s).1, (m s).2)

def ofStatus (r : Except E α) : Prog S E α := fun s ↦ (r, s)

/-- Fail where a computation returns false. -/
def orFail (m : Prog S E Bool) (e : E) : Prog S E Unit := do
  if ← m then pure () else fail e

/-- Run a computation on a component of a larger state. -/
def zoom (get : S → T) (set : T → S → S) (lift : E → F) (m : Prog T E α) : Prog S F α :=
  fun s ↦ ((m (get s)).1.mapError lift, set (m (get s)).2 s)

@[simp] theorem pure_run (a : α) (s : S) : (pure a : Prog S E α) s = (.ok a, s) := rfl

@[simp] theorem fail_run (e : E) (s : S) : (fail e : Prog S E α) s = (.error e, s) := rfl

@[simp] theorem read_run (f : S → α) (s : S) : (read f : Prog S E α) s = (.ok (f s), s) := rfl

@[simp] theorem modify_run (f : S → S) (s : S) : (modify f : Prog S E Unit) s = (.ok (), f s) := rfl

@[simp] theorem attempt_run (m : Prog S E α) (s : S) : attempt m s = (.ok (m s).1, (m s).2) := rfl

@[simp] theorem ofStatus_run (r : Except E α) (s : S) : ofStatus r s = (r, s) := rfl

theorem zoom_run (get : S → T) (set : T → S → S) (lift : E → F) (m : Prog T E α) (s : S) :
    zoom get set lift m s = ((m (get s)).1.mapError lift, set (m (get s)).2 s) := rfl

theorem bind_run (m : Prog S E α) (k : α → Prog S E β) (s : S) :
    (m >>= k) s = match m s with
      | (.ok a, s') => k a s'
      | (.error e, s') => (.error e, s') := rfl

theorem bind_ok {m : Prog S E α} {s s' : S} {a : α} (h : m s = (.ok a, s')) (k : α → Prog S E β) :
    (m >>= k) s = k a s' := by rw [bind_run, h]

theorem bind_error {m : Prog S E α} {s s' : S} {e : E} (h : m s = (.error e, s'))
    (k : α → Prog S E β) : (m >>= k) s = (.error e, s') := by rw [bind_run, h]

theorem bind_congr {m : Prog S E α} {s s' : S} (h : m s = m s') (k : α → Prog S E β) :
    (m >>= k) s = (m >>= k) s' := by rw [bind_run, bind_run, h]

theorem bind_assoc (m : Prog S E α) (k : α → Prog S E β) (j : β → Prog S E γ) :
    m >>= k >>= j = m >>= fun a ↦ k a >>= j := by
  funext s
  simp only [bind_run]
  rcases m s with ⟨e | a, t⟩ <;> rfl

theorem bind_pure (m : Prog S E α) : m >>= Pure.pure = m := by
  funext s
  rw [bind_run]
  rcases m s with ⟨e | a, t⟩ <;> rfl

theorem fail_bind (e : E) (k : α → Prog S E β) : (fail e : Prog S E α) >>= k = fail e := rfl

theorem pure_bind (a : α) (k : α → Prog S E β) : (Pure.pure a : Prog S E α) >>= k = k a := rfl

theorem ofStatus_ite {c : Prop} [Decidable c] (a : α) (e : E) :
    (ofStatus (if c then .ok a else .error e) : Prog S E α) = if c then
      Pure.pure a else fail e := by
  split_ifs <;> rfl

theorem orFail_bind (m : Prog S E α) (k : α → Prog S E Bool) (e : E) :
    orFail (m >>= k) e = m >>= fun a ↦ orFail (k a) e := bind_assoc m k _

theorem orFail_fail (e e' : E) : orFail (fail e : Prog S E Bool) e' = fail e := rfl

theorem orFail_true (e : E) : orFail (Pure.pure true : Prog S E Bool) e = Pure.pure () := rfl

theorem orFail_false (e : E) : orFail (Pure.pure false : Prog S E Bool) e = fail e := rfl

theorem orFail_ite {c : Prop} [Decidable c] (m m' : Prog S E Bool) (e : E) :
    orFail (if c then m else m') e = if c then orFail m e else orFail m' e :=
  apply_ite (orFail · e) c m m'

theorem bind_ite_fail (m : Prog S E Bool) (k : Prog S E α) (e : E) :
    (m >>= fun b ↦ if b then k else fail e) = orFail m e >>= fun _ ↦ k := by
  funext s
  rw [orFail, bind_assoc, bind_run, bind_run]
  rcases m s with ⟨r | b, t⟩
  · rfl
  · cases b <;> rfl

theorem ite_bind {c : Prop} [Decidable c] (m m' : Prog S E α) (k : α → Prog S E β) :
    (if c then m else m') >>= k = if c then m >>= k else m' >>= k := apply_ite (· >>= k) c m m'

theorem zoom_bind {get : S → T} {set : T → S → S} (hget : ∀ t s, get (set t s) = t)
    (hset : ∀ t t' s, set t' (set t s) = set t' s) (lift : E → F) (m : Prog T E α)
    (k : α → Prog T E β) :
    zoom get set lift (m >>= k) = zoom get set lift m >>= fun a ↦ zoom get set lift (k a) := by
  funext s
  simp only [bind_run, zoom_run]
  rcases m (get s) with ⟨e | a, t⟩
  · rfl
  · simp only [Except.mapError, hget, hset]

@[simp] theorem pure_bind_run (a : α) (k : α → Prog S E β) (s : S) :
    (pure a >>= k : Prog S E β) s = k a s := rfl

@[simp] theorem fail_bind_run (e : E) (k : α → Prog S E β) (s : S) :
    (fail e >>= k : Prog S E β) s = (.error e, s) := rfl

@[simp] theorem read_bind_run (f : S → α) (k : α → Prog S E β) (s : S) :
    (read f >>= k : Prog S E β) s = k (f s) s := rfl

@[simp] theorem modify_bind_run (f : S → S) (k : Unit → Prog S E β) (s : S) :
    (modify f >>= k : Prog S E β) s = k () (f s) := rfl

@[simp] theorem attempt_bind_run (m : Prog S E α) (k : Except E α → Prog S E β) (s : S) :
    (attempt m >>= k : Prog S E β) s = k (m s).1 (m s).2 := rfl

theorem drop_run (m : Prog S E α) (s : S) : ((do let _ ← m : Prog S E Unit) s).2 = (m s).2 := by
  rw [bind_run]
  rcases m s with ⟨e | a, t⟩ <;> rfl

theorem bind_eq_ok {m : Prog S E α} {k : α → Prog S E β} {s s' : S} {b : β} :
    (m >>= k) s = (.ok b, s') ↔ ∃ a t, m s = (.ok a, t) ∧ k a t = (.ok b, s') := by
  rw [bind_run]
  rcases h : m s with ⟨r | a, t⟩ <;> simp

end Prog

open Prog

variable {S T E F α β : Type}

/-- From a state in `P`, a normal return ends in `Q` and a failure in `R`. -/
def Triple (P : S → Prop) (m : Prog S E α) (Q : α → S → Prop) (R : E → S → Prop) : Prop :=
  ∀ s, P s → match m s with
    | (.ok a, s') => Q a s'
    | (.error e, s') => R e s'

namespace Triple

variable {P P' : S → Prop} {m : Prog S E α} {Q Q' : α → S → Prop} {R R' : E → S → Prop}

theorem ok (h : Triple P m Q R) {s s' : S} {a : α} (hs : P s) (hm : m s = (.ok a, s')) :
    Q a s' := by
  have h' := h s hs
  rwa [hm] at h'

theorem error (h : Triple P m Q R) {s s' : S} {e : E} (hs : P s) (hm : m s = (.error e, s')) :
    R e s' := by
  have h' := h s hs
  rwa [hm] at h'

theorem conseq (h : Triple P m Q R) (hP : ∀ s, P' s → P s) (hQ : ∀ a s, Q a s → Q' a s)
    (hR : ∀ e s, R e s → R' e s) : Triple P' m Q' R' := by
  intro s hs
  have h' := h s (hP s hs)
  rcases hm : m s with ⟨e | a, s'⟩ <;> rw [hm] at h'
  · exact hR e s' h'
  · exact hQ a s' h'

theorem pure {a : α} (h : ∀ s, P s → Q a s) : Triple P (Pure.pure a : Prog S E α) Q R := h

theorem fail {e : E} (h : ∀ s, P s → R e s) : Triple P (Prog.fail e : Prog S E α) Q R := h

theorem modify {f : S → S} {Q : Unit → S → Prop} (h : ∀ s, P s → Q () (f s)) :
    Triple P (Prog.modify f : Prog S E Unit) Q R := h

/-- The sequencing rule: a failure of either part is a failure of the whole. -/
theorem bind {k : α → Prog S E β} {M : α → S → Prop} {Q : β → S → Prop}
    (hm : Triple P m M R) (hk : ∀ a, Triple (M a) (k a) Q R) : Triple P (m >>= k) Q R := by
  intro s hs
  have h := hm s hs
  rw [bind_run]
  rcases he : m s with ⟨e | a, s'⟩ <;> rw [he] at h
  · exact h
  · exact hk a s' h

theorem ite {c : Prop} [Decidable c] {m' : Prog S E α}
    (h : c → Triple P m Q R) (h' : ¬c → Triple P m' Q R) : Triple P (if c then m else m') Q R := by
  by_cases hc : c
  · simpa only [if_pos hc] using h hc
  · simpa only [if_neg hc] using h' hc

theorem attempt {Q : Except E α → S → Prop}
    (h : Triple P m (fun a ↦ Q (.ok a)) (fun e ↦ Q (.error e))) :
    Triple P (Prog.attempt m) Q R := by
  intro s hs
  have h' := h s hs
  rcases hm : m s with ⟨e | a, s'⟩ <;> rw [hm] at h' <;>
    simpa only [attempt_run, hm] using h'

theorem zoom {get : S → T} {set : T → S → S} {lift : E → F} {m : Prog T E α} {R : F → S → Prop}
    (h : ∀ s, P s → Triple (fun t ↦ t = get s) m (fun a t ↦ Q a (set t s))
      (fun e t ↦ R (lift e) (set t s))) : Triple P (Prog.zoom get set lift m) Q R := by
  intro s hs
  have h' := h s hs (get s) rfl
  rw [zoom_run]
  rcases hm : m (get s) with ⟨e | a, t⟩ <;> rw [hm] at h' <;> exact h'

end Triple

/-- No run of `m` fails with `e`. -/
def Never (e : E) (m : Prog S E α) : Prop :=
  Triple (fun _ ↦ True) m (fun _ _ ↦ True) fun e' _ ↦ e' ≠ e

namespace Never

variable {e : E} {m : Prog S E α}

theorem run_ne (h : Never e m) (s : S) : (m s).1 ≠ .error e := by
  intro he
  have h' := h s trivial
  rcases hm : m s with ⟨r | a, s'⟩ <;> rw [hm] at h' he
  · exact h' (Except.error.inj he)
  · cases he

theorem pure {a : α} : Never e (Pure.pure a : Prog S E α) := fun _ _ ↦ trivial

theorem fail {e' : E} (h : e' ≠ e) : Never e (Prog.fail e' : Prog S E α) := fun _ _ ↦ h

theorem read {f : S → α} : Never e (Prog.read f : Prog S E α) := fun _ _ ↦ trivial

theorem modify {f : S → S} : Never e (Prog.modify f : Prog S E Unit) := fun _ _ ↦ trivial

theorem attempt : Never e (Prog.attempt m) := fun _ _ ↦ trivial

theorem ofStatus {r : Except E α} (h : r ≠ .error e) : Never e (Prog.ofStatus r : Prog S E α) := by
  intro s _
  cases r with
  | ok a => trivial
  | error e' => exact fun he ↦ h (congrArg Except.error he)

theorem zoom {get : S → T} {set : T → S → S} {lift : E → F} {m : Prog T E α} {e : F}
    (h : ∀ e', lift e' = e → Never e' m) : Never e (Prog.zoom get set lift m) := by
  refine Triple.zoom fun s _ t _ ↦ ?_
  rcases hm : m t with ⟨e' | a, t'⟩
  · exact fun he ↦ (h e' he).run_ne t (congrArg Prod.fst hm)
  · trivial

theorem bind {k : α → Prog S E β} (hm : Never e m) (hk : ∀ a, Never e (k a)) : Never e (m >>= k) :=
  Triple.bind hm hk

theorem ite {c : Prop} [Decidable c] {m' : Prog S E α} (h : c → Never e m) (h' : ¬c → Never e m') :
    Never e (if c then m else m') := Triple.ite h h'

theorem attempt_bind {k : Except E α → Prog S E β} (hm : Never e m)
    (hok : ∀ a, Never e (k (.ok a))) (herr : ∀ e', e' ≠ e → Never e (k (.error e'))) :
    Never e (Prog.attempt m >>= k) := by
  intro s _
  have h := hm s trivial
  rw [attempt_bind_run]
  rcases hr : m s with ⟨r | a, s'⟩ <;> rw [hr] at h
  · exact herr r h s' trivial
  · exact hok a s' trivial

end Never

/-- From a state in `P`, a run of `m` does not fail with `e` and, if it returns, ends
in a state in `P`. -/
def NeverFrom (P : S → Prop) (e : E) (m : Prog S E α) : Prop :=
  Triple P m (fun _ ↦ P) fun e' _ ↦ e' ≠ e

namespace NeverFrom

variable {P : S → Prop} {e : E} {m : Prog S E α}

theorem fail {e' : E} (h : e' ≠ e) : NeverFrom P e (Prog.fail e' : Prog S E α) := fun _ _ ↦ h

theorem read {f : S → α} : NeverFrom P e (Prog.read f : Prog S E α) := fun _ hs ↦ hs

theorem bind {k : α → Prog S E β} (hm : NeverFrom P e m) (hk : ∀ a, NeverFrom P e (k a)) :
    NeverFrom P e (m >>= k) := Triple.bind hm hk

theorem ite {c : Prop} [Decidable c] {m' : Prog S E α} (h : c → NeverFrom P e m)
    (h' : ¬c → NeverFrom P e m') :
    NeverFrom P e (if c then m else m') := Triple.ite h h'

end NeverFrom

/-- The run of `m` from `s` returns `a` in a state that satisfies `Q`. -/
def Returns (m : Prog S E α) (s : S) (a : α) (Q : S → Prop) : Prop :=
  ∃ s', m s = (.ok a, s') ∧ Q s'

namespace Returns

variable {m : Prog S E α} {s : S} {a : α} {Q Q' : S → Prop}

theorem mono (h : Returns m s a Q) (hQ : ∀ s, Q s → Q' s) : Returns m s a Q' := by
  obtain ⟨s', hm, hq⟩ := h
  exact ⟨s', hm, hQ s' hq⟩

theorem pure (h : Q s) : Returns (Pure.pure a : Prog S E α) s a Q := ⟨s, rfl, h⟩

theorem read {f : S → α} (h : Q s) : Returns (Prog.read f : Prog S E α) s (f s) Q := ⟨s, rfl, h⟩

theorem modify {f : S → S} (h : Q (f s)) : Returns (Prog.modify f : Prog S E Unit) s () Q :=
  ⟨f s, rfl, h⟩

theorem bind {k : α → Prog S E β} {b : β} {Q' : S → Prop} (h : Returns m s a Q)
    (hk : ∀ s, Q s → Returns (k a) s b Q') : Returns (m >>= k) s b Q' := by
  obtain ⟨s', hm, hq⟩ := h
  obtain ⟨s'', hk', hq'⟩ := hk s' hq
  exact ⟨s'', by rw [bind_ok hm, hk'], hq'⟩

theorem attempt (h : Returns m s a Q) : Returns (Prog.attempt m) s (.ok a) Q := by
  obtain ⟨s', hm, hq⟩ := h
  exact ⟨s', by rw [attempt_run, hm], hq⟩

theorem eq_of_run {s' : S} {r : Except E α} (h : Returns m s a Q) (hm : m s = (r, s')) :
    r = .ok a ∧ Q s' := by
  obtain ⟨t, ht, hq⟩ := h
  rw [hm, Prod.mk.injEq] at ht
  exact ⟨ht.1, ht.2 ▸ hq⟩

end Returns

/-- The run of `m` from `s` ends with the status `r`, in a state that satisfies `Q`. -/
def Ends (m : Prog S E α) (s : S) (r : Except E α) (Q : S → Prop) : Prop :=
  ∃ s', m s = (r, s') ∧ Q s'

namespace Ends

variable {m : Prog S E α} {s : S} {a : α} {r : Except E β} {Q Q' : S → Prop}

theorem fail {e : E} (h : Q s) : Ends (Prog.fail e : Prog S E α) s (.error e) Q := ⟨s, rfl, h⟩

theorem ofStatus (h : Q s) : Ends (Prog.ofStatus r) s r Q := ⟨s, rfl, h⟩

theorem bind {k : α → Prog S E β} (h : Returns m s a Q) (hk : ∀ s, Q s → Ends (k a) s r Q') :
    Ends (m >>= k) s r Q' := by
  obtain ⟨s', hm, hq⟩ := h
  obtain ⟨s'', hk', hq'⟩ := hk s' hq
  exact ⟨s'', by rw [bind_ok hm, hk'], hq'⟩

theorem bind_error {k : α → Prog S E β} {e : E} (h : Ends m s (.error e) Q) :
    Ends (m >>= k) s (.error e) Q := by
  obtain ⟨s', hm, hq⟩ := h
  exact ⟨s', Prog.bind_error hm k, hq⟩

theorem attempt {r : Except E α} (h : Ends m s r Q) : Returns (Prog.attempt m) s r Q := by
  obtain ⟨s', hm, hq⟩ := h
  exact ⟨s', by rw [attempt_run, hm], hq⟩

end Ends

variable {ε E' : Type}

/-- Every run of `m` appends some events to the log, and these events and
its status are related by `Q`. -/
def Emits (log : S → List ε) (m : Prog S E α) (Q : List ε → Except E α → Prop) : Prop :=
  ∀ s, ∃ l, log (m s).2 = log s ++ l ∧ Q l (m s).1

namespace Emits

variable {log : S → List ε} {m : Prog S E α} {Q Q' : List ε → Except E α → Prop}

theorem mono (h : Emits log m Q) (hQ : ∀ l r, Q l r → Q' l r) : Emits log m Q' := by
  intro s
  obtain ⟨l, hl, hq⟩ := h s
  exact ⟨l, hl, hQ l _ hq⟩

theorem pure {a : α} (h : Q [] (.ok a)) : Emits log (Pure.pure a : Prog S E α) Q :=
  fun _ ↦ ⟨[], (List.append_nil _).symm, h⟩

theorem fail {e : E} (h : Q [] (.error e)) : Emits log (Prog.fail e : Prog S E α) Q :=
  fun _ ↦ ⟨[], (List.append_nil _).symm, h⟩

theorem ofStatus {r : Except E α} (h : Q [] r) : Emits log (Prog.ofStatus r : Prog S E α) Q :=
  fun _ ↦ ⟨[], (List.append_nil _).symm, h⟩

theorem read {f : S → α} (h : ∀ a, Q [] (.ok a)) : Emits log (Prog.read f : Prog S E α) Q :=
  fun s ↦ ⟨[], (List.append_nil _).symm, h (f s)⟩

theorem modify {f : S → S} {Q : List ε → Except E Unit → Prop} (hf : ∀ s, log (f s) = log s)
    (h : Q [] (.ok ())) : Emits log (Prog.modify f : Prog S E Unit) Q :=
  fun s ↦ ⟨[], (hf s).trans (List.append_nil _).symm, h⟩

/-- The sequencing rule: the log of the whole is that of the first part,
followed by that of the second when the first returned normally. -/
theorem bind {k : α → Prog S E β} {K : α → List ε → Except E β → Prop}
    {Q' : List ε → Except E β → Prop} (hm : Emits log m Q) (hk : ∀ a, Emits log (k a) (K a))
    (herr : ∀ l e, Q l (.error e) → Q' l (.error e))
    (hok : ∀ l l' a r, Q l (.ok a) → K a l' r → Q' (l ++ l') r) : Emits log (m >>= k) Q' := by
  intro s
  obtain ⟨l, hl, hq⟩ := hm s
  rw [bind_run]
  rcases he : m s with ⟨e | a, s'⟩ <;> rw [he] at hl hq
  · exact ⟨l, hl, herr l e hq⟩
  · obtain ⟨l', hl', hk'⟩ := hk a s'
    exact ⟨l ++ l', by rw [hl', hl, List.append_assoc], hok l l' a _ hq hk'⟩

theorem bind_before {Q : List ε → Prop} {F : ε → Prop} {k : α → Prog S E β}
    (hm : Emits log m fun l _ ↦ Q l) (hk : ∀ a, Emits log (k a) fun l _ ↦ ∀ e ∈ l, F e)
    (hext : ∀ l l', Q l → Q (l ++ l')) : Emits log (m >>= k) fun l _ ↦ Q l :=
  hm.bind hk (fun _ _ h ↦ h) fun l l' _ _ h _ ↦ hext l l' h

theorem bind_after {F : ε → Prop} {k : α → Prog S E β} {Q' : List ε → Except E β → Prop}
    (hm : Emits log m fun l _ ↦ ∀ e ∈ l, F e) (hk : ∀ a, Emits log (k a) Q')
    (herr : ∀ l e, Q' l (.error e)) (hext : ∀ l l' r, Q' l' r → Q' (l ++ l') r) :
    Emits log (m >>= k) Q' :=
  hm.bind hk (fun l e _ ↦ herr l e) fun l l' _ r _ hr ↦ hext l l' r hr

theorem ite {c : Prop} [Decidable c] {m' : Prog S E α}
    (h : c → Emits log m Q) (h' : ¬c → Emits log m' Q) : Emits log (if c then m else m') Q := by
  by_cases hc : c
  · simpa only [if_pos hc] using h hc
  · simpa only [if_neg hc] using h' hc

theorem attempt {Q : List ε → Except E (Except E α) → Prop}
    (h : Emits log m (fun l r ↦ Q l (.ok r))) :
    Emits log (Prog.attempt m) Q := h

theorem zoom {get : S → T} {set : T → S → S} {lift : E → F} {m : Prog T E α} {log' : T → List ε}
    {Q : List ε → Except F α → Prop} (hget : ∀ s, log s = log' (get s))
    (hset : ∀ t s, log (set t s) = log' t) (h : Emits log' m (fun l r ↦ Q l (r.mapError lift))) :
    Emits log (Prog.zoom get set lift m) Q := by
  intro s
  obtain ⟨l, hl, hq⟩ := h (get s)
  exact ⟨l, by rw [zoom_run, hset, hl, hget], hq⟩

end Emits

/-- What a run of `m` returns normally is related to the events it appends. -/
def Yields (log : S → List ε) (m : Prog S E α) (Q : α → List ε → Prop) : Prop :=
  Emits log m fun l r ↦ ∀ a, r = .ok a → Q a l

namespace Yields

variable {log : S → List ε} {m : Prog S E α} {P Q : α → List ε → Prop}

theorem of_emits {R : List ε → Except E α → Prop} (h : Emits log m R)
    (hQ : ∀ l a, R l (.ok a) → Q a l) : Yields log m Q := by
  refine h.mono fun l r hr a ha ↦ hQ l a ?_
  rwa [← ha]

theorem mono (h : Yields log m P) (hQ : ∀ a l, P a l → Q a l) : Yields log m Q :=
  Emits.mono h fun l _ hl a ha ↦ hQ a l (hl a ha)

theorem pure {a : α} (h : Q a []) : Yields log (Pure.pure a : Prog S E α) Q := by
  refine Emits.pure fun b hb ↦ ?_
  rwa [← Except.ok.inj hb]

theorem fail {e : E} : Yields log (Prog.fail e : Prog S E α) Q := Emits.fail fun _ h ↦ (by cases h)

theorem bind {k : α → Prog S E β} {K : β → List ε → Prop} {J : α → β → List ε → Prop}
    (hm : Yields log m P) (hk : ∀ a, Yields log (k a) (J a))
    (hK : ∀ a b l l', P a l → J a b l' → K b (l ++ l')) : Yields log (m >>= k) K := by
  refine Emits.bind hm hk (fun _ _ _ _ h ↦ (by cases h)) fun l l' a r hl hl' b hb ↦ ?_
  exact hK a b l l' (hl a rfl) (hl' b hb)

theorem ite {c : Prop} [Decidable c] {m' : Prog S E α} (h : c → Yields log m Q)
    (h' : ¬c → Yields log m' Q) : Yields log (if c then m else m') Q := Emits.ite h h'

theorem attempt {Q : Except E α → List ε → Prop} (h : Emits log m fun l r ↦ Q r l) :
    Yields log (Prog.attempt m) Q := by
  refine Emits.attempt (Emits.mono h fun l r hr a ha ↦ ?_)
  rwa [← Except.ok.inj ha]

theorem of_run (h : Yields log m Q) {s s' : S} {a : α} (hm : m s = (.ok a, s')) :
    ∃ l, log s' = log s ++ l ∧ Q a l := by
  obtain ⟨l, hl, hq⟩ := h s
  rw [hm] at hl hq
  exact ⟨l, hl, hq a rfl⟩

end Yields

/-- Every run of `m` from a state in `I`, which it does not leave, appends
events that are related to its status by `Q`. -/
def EmitsWhile (I : S → Prop) (log : S → List ε) (m : Prog S E α)
    (Q : List ε → Except E α → Prop) : Prop :=
  ∀ s, I s → ∃ l, log (m s).2 = log s ++ l ∧ I (m s).2 ∧ Q l (m s).1

namespace EmitsWhile

variable {I : S → Prop} {log : S → List ε} {m : Prog S E α} {Q Q' : List ε → Except E α → Prop}

theorem mono (h : EmitsWhile I log m Q) (hQ : ∀ l r, Q l r → Q' l r) : EmitsWhile I log m Q' := by
  intro s hs
  obtain ⟨l, hl, hi, hq⟩ := h s hs
  exact ⟨l, hl, hi, hQ l _ hq⟩

theorem pure {a : α} (h : Q [] (.ok a)) : EmitsWhile I log (Pure.pure a : Prog S E α) Q :=
  fun _ hs ↦ ⟨[], (List.append_nil _).symm, hs, h⟩

theorem fail {e : E} (h : Q [] (.error e)) : EmitsWhile I log (Prog.fail e : Prog S E α) Q :=
  fun _ hs ↦ ⟨[], (List.append_nil _).symm, hs, h⟩

theorem ofStatus {r : Except E α} (h : Q [] r) :
    EmitsWhile I log (Prog.ofStatus r : Prog S E α) Q :=
  fun _ hs ↦ ⟨[], (List.append_nil _).symm, hs, h⟩

theorem bind {k : α → Prog S E β} {K : α → List ε → Except E β → Prop}
    {Q' : List ε → Except E β → Prop} (hm : EmitsWhile I log m Q)
    (hk : ∀ a, EmitsWhile I log (k a) (K a)) (herr : ∀ l e, Q l (.error e) → Q' l (.error e))
    (hok : ∀ l l' a r, Q l (.ok a) → K a l' r → Q' (l ++ l') r) :
    EmitsWhile I log (m >>= k) Q' := by
  intro s hs
  obtain ⟨l, hl, hi, hq⟩ := hm s hs
  rw [bind_run]
  rcases he : m s with ⟨e | a, s'⟩ <;> rw [he] at hl hi hq
  · exact ⟨l, hl, hi, herr l e hq⟩
  · obtain ⟨l', hl', hi', hk'⟩ := hk a s' hi
    exact ⟨l ++ l', by rw [hl', hl, List.append_assoc], hi', hok l l' a _ hq hk'⟩

theorem ite {c : Prop} [Decidable c] {m' : Prog S E α} (h : c → EmitsWhile I log m Q)
    (h' : ¬c → EmitsWhile I log m' Q) : EmitsWhile I log (if c then m else m') Q := by
  by_cases hc : c
  · simpa only [if_pos hc] using h hc
  · simpa only [if_neg hc] using h' hc

theorem of_emits (h : Emits log m Q) (hI : ∀ s, I s → I (m s).2) : EmitsWhile I log m Q := by
  intro s hs
  obtain ⟨l, hl, hq⟩ := h s
  exact ⟨l, hl, hI s hs, hq⟩

theorem attempt {Q : List ε → Except E (Except E α) → Prop}
    (h : EmitsWhile I log m (fun l r ↦ Q l (.ok r))) : EmitsWhile I log (Prog.attempt m) Q := h

end EmitsWhile

/-- Every event that a run of `m` appends to the log satisfies `F`. -/
def Only (log : S → List ε) (F : ε → Prop) (m : Prog S E α) : Prop :=
  Emits log m fun l _ ↦ ∀ e ∈ l, F e

namespace Only

variable {log : S → List ε} {F G : ε → Prop} {m : Prog S E α}

theorem mono (h : Only log F m) (hF : ∀ e, F e → G e) : Only log G m :=
  Emits.mono h fun _ _ hl e he ↦ hF e (hl e he)

theorem pure {a : α} : Only log F (Pure.pure a : Prog S E α) := Emits.pure (List.forall_mem_nil _)

theorem fail {e : E} : Only log F (Prog.fail e : Prog S E α) := Emits.fail (List.forall_mem_nil _)

theorem ofStatus {r : Except E α} : Only log F (Prog.ofStatus r : Prog S E α) :=
  Emits.ofStatus (List.forall_mem_nil _)

theorem read {f : S → α} : Only log F (Prog.read f : Prog S E α) :=
  Emits.read fun _ ↦ List.forall_mem_nil _

theorem modify {f : S → S} (hf : ∀ s, log (f s) = log s) :
    Only log F (Prog.modify f : Prog S E Unit) := Emits.modify hf (List.forall_mem_nil _)

theorem bind {k : α → Prog S E β} (hm : Only log F m) (hk : ∀ a, Only log F (k a)) :
    Only log F (m >>= k) := by
  refine Emits.bind hm hk (fun _ _ h ↦ h) fun l l' a r hl hl' e he ↦ ?_
  rcases List.mem_append.mp he with he | he
  · exact hl e he
  · exact hl' e he

theorem ite {c : Prop} [Decidable c] {m' : Prog S E α} (h : c → Only log F m)
    (h' : ¬c → Only log F m') : Only log F (if c then m else m') := Emits.ite h h'

theorem attempt (h : Only log F m) : Only log F (Prog.attempt m) := Emits.attempt h

end Only

/-- What `f` reads off the state is the same after any run of `m`. -/
def Fixes (f : S → β) (m : Prog S E α) : Prop := ∀ s, f (m s).2 = f s

namespace Fixes

variable {f : S → β} {m : Prog S E α} {γ : Type}

theorem pure {a : α} : Fixes f (Pure.pure a : Prog S E α) := fun _ ↦ rfl

theorem fail {e : E} : Fixes f (Prog.fail e : Prog S E α) := fun _ ↦ rfl

theorem ofStatus {r : Except E α} : Fixes f (Prog.ofStatus r : Prog S E α) := fun _ ↦ rfl

theorem read {g : S → α} : Fixes f (Prog.read g : Prog S E α) := fun _ ↦ rfl

theorem modify {g : S → S} (h : ∀ s, f (g s) = f s) : Fixes f (Prog.modify g : Prog S E Unit) := h

theorem bind {k : α → Prog S E γ} (hm : Fixes f m) (hk : ∀ a, Fixes f (k a)) :
    Fixes f (m >>= k) := by
  intro s
  have h := hm s
  rw [bind_run]
  rcases hr : m s with ⟨e | a, s'⟩ <;> rw [hr] at h
  · exact h
  · exact (hk a s').trans h

theorem ite {c : Prop} [Decidable c] {m' : Prog S E α} (h : c → Fixes f m) (h' : ¬c → Fixes f m') :
    Fixes f (if c then m else m') := by
  by_cases hc : c
  · simpa only [if_pos hc] using h hc
  · simpa only [if_neg hc] using h' hc

theorem attempt (h : Fixes f m) : Fixes f (Prog.attempt m) := h

end Fixes

section After

variable {ι : Type} {step : ι → Prog S E α} {s : S}

/-- The state after a sequence of calls, whatever they return. -/
def after (step : ι → Prog S E α) (ops : List ι) (s : S) : S :=
  ops.foldl (fun s op ↦ (step op s).2) s

theorem after_append (ops ops' : List ι) :
    after step (ops ++ ops') s = after step ops' (after step ops s) :=
  List.foldl_append

theorem after_concat (ops : List ι) (op : ι) :
    after step (ops ++ [op]) s = (step op (after step ops s)).2 :=
  after_append ops [op]

/-- What holds at the start and is kept by every call holds after any sequence. -/
theorem after_invariant {I : S → Prop} (hs : I s) (hstep : ∀ op s, I s → I (step op s).2)
    (ops : List ι) :
    I (after step ops s) := by
  induction ops generalizing s with
  | nil => exact hs
  | cons op ops ih => exact ih (hstep op s hs)

end After

end UpdiProgrammer.Library.Program
