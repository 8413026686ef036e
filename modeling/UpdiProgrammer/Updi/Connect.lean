import UpdiProgrammer.Updi.Trace

namespace UpdiProgrammer.Updi

open Library.Program Prog UpdiLink UpdiNvm UpdiSession
open UpdiTransport (Event)

namespace Connect

variable {σ α β : Type} (t : UpdiTransport σ)

/-- `updi_session_connect` up to the first look at the system status, which
tells whether the target is in programming mode already. -/
def probe : SessionM σ Bool := do
  update fun s ↦ { s with connected := false, device := none }
  onLink (activate t)
  let sib ← onLink (readSibInfo t)
  update fun s ↦ { s with sib := sib }
  update fun s ↦ { s with link := s.link.setAddressSize (if s.sib.nvmVersion = 0 then 2 else 3) }
  update fun s ↦ { s with nvmDevice := none }
  onLink (inProgmode t)

/-- Whether the unlock is to be polled, because the key had to be handed over. -/
def handOver (inMode : Bool) : LinkM σ Bool :=
  if inMode then pure false
  else do
    applyNvmprogKey t
    pure true

def awaitUnlock (asked : Bool) : LinkM σ Unit :=
  if asked then do
    if ← waitUnlocked t 100 then
      if ← inProgmode t then pure () else fail .protocol
    else fail .locked
  else pure ()

/-- `updi_session_connect` up to the unlock poll. -/
def approach : SessionM σ Bool := do
  let inMode ← probe t
  onLink (handOver t inMode)

/-- `updi_session_connect` from the signature read on. -/
def identify : SessionM σ Unit := do
  let sig ← onLink (readSignature t none)
  update fun s ↦ { s with sig := sig }
  match UpdiDevice.findById (UpdiDevice.idFromSig sig) with
  | none => fail (.status .unsupported)
  | some d => update fun s ↦ { s with nvmDevice := some d, device := some d, connected := true }

variable {t}

theorem onLink_bind (m : LinkM σ α) (k : α → LinkM σ β) :
    onLink (m >>= k) = onLink m >>= fun a ↦ onLink (k a) := by
  unfold onLink
  apply zoom_bind
  · exact fun _ _ ↦ rfl
  · exact fun _ _ _ ↦ rfl

theorem enterProgmode_eq :
    enterProgmode t = inProgmode t >>= fun inMode ↦ handOver t inMode >>= awaitUnlock t := by
  unfold enterProgmode
  congr 1
  funext inMode
  cases inMode with
  | true => rfl
  | false =>
    unfold handOver
    simp only [Bool.false_eq_true, if_false, Prog.bind_assoc]
    rfl

theorem connect_eq :
    connect t = approach t >>= fun asked ↦ onLink (awaitUnlock t asked) >>= fun _ ↦ identify t := by
  unfold connect approach probe
  simp only [Prog.bind_assoc, enterProgmode_eq, onLink_bind]
  rfl

theorem onLink_eq_ok {m : LinkM σ α} {a : α} {s s' : SessionState σ} :
    onLink m s = (.ok a, s') ↔ ∃ l, m ⟨s.session.link, s.ctx⟩ = (.ok a, l) ∧
      s' = ⟨{ s.session with link := l.link }, l.ctx⟩ := by
  constructor
  · intro h
    rw [onLink, zoom_run] at h
    rcases hm : m ⟨s.session.link, s.ctx⟩ with ⟨e | b, l⟩ <;> rw [hm] at h <;> cases h
    exact ⟨l, rfl, rfl⟩
  · rintro ⟨l, hm, rfl⟩
    exact onLink_ok hm

/-- The end of a connect, whatever way the row is looked up. -/
theorem lookUp_eq_ok {find : List UInt8 → Option UpdiDevice} {s s' : SessionState σ} : (do
      let sig ← onLink (readSignature t none)
      update fun s ↦ { s with sig := sig }
      match find sig with
      | none => fail (.status .unsupported)
      | some d => update fun s ↦
        { s with nvmDevice := some d, device := some d, connected := true }) s = (.ok (), s') ↔
    ∃ sig l d, readSignature t none ⟨s.session.link, s.ctx⟩ = (.ok sig, l) ∧ find sig = some d ∧
      s' = ⟨⟨l.link, some d, some d, s.session.sib, sig, true⟩, l.ctx⟩ := by
  constructor
  · intro h
    obtain ⟨sig, _, h₁, h⟩ := bind_eq_ok.mp h
    obtain ⟨l, hl, rfl⟩ := onLink_eq_ok.mp h₁
    rw [update_bind_run] at h
    dsimp only at h
    cases hd : find sig with
    | none =>
      rw [hd] at h
      cases h
    | some d =>
      rw [hd] at h
      cases h
      exact ⟨sig, l, d, hl, hd, rfl⟩
  · rintro ⟨sig, l, d, hl, hd, rfl⟩
    refine bind_eq_ok.mpr ⟨sig, _, onLink_ok hl, ?_⟩
    rw [update_bind_run, hd]
    rfl

theorem identify_eq_ok {s s' : SessionState σ} : identify t s = (.ok (), s') ↔
    ∃ sig l d, readSignature t none ⟨s.session.link, s.ctx⟩ = (.ok sig, l) ∧
      UpdiDevice.findById (UpdiDevice.idFromSig sig) = some d ∧
      s' = ⟨⟨l.link, some d, some d, s.session.sib, sig, true⟩, l.ctx⟩ := by
  unfold identify
  exact lookUp_eq_ok

theorem connect_eq_ok {s s' : SessionState σ} : connect t s = (.ok (), s') ↔
    ∃ l₁ i l₂ l₃ sig l₄ d, activate t ⟨s.session.link, s.ctx⟩ = (.ok (), l₁) ∧
      readSibInfo t l₁ = (.ok i, l₂) ∧
      enterProgmode t ⟨l₂.link.setAddressSize (if i.nvmVersion = 0 then 2 else 3), l₂.ctx⟩ =
        (.ok (), l₃) ∧
      readSignature t none l₃ = (.ok sig, l₄) ∧
      UpdiDevice.findById (UpdiDevice.idFromSig sig) = some d ∧
      s' = ⟨⟨l₄.link, some d, some d, i, sig, true⟩, l₄.ctx⟩ := by
  constructor
  · intro h
    rw [connect, update_bind_run] at h
    obtain ⟨_, _, h₁, h⟩ := bind_eq_ok.mp h
    obtain ⟨l₁, hl₁, rfl⟩ := onLink_eq_ok.mp h₁
    obtain ⟨i, _, h₂, h⟩ := bind_eq_ok.mp h
    obtain ⟨l₂, hl₂, rfl⟩ := onLink_eq_ok.mp h₂
    rw [update_bind_run, update_bind_run, update_bind_run] at h
    obtain ⟨_, _, h₃, h⟩ := bind_eq_ok.mp h
    obtain ⟨l₃, hl₃, rfl⟩ := onLink_eq_ok.mp h₃
    obtain ⟨sig, l₄, d, hl₄, hd, rfl⟩ := identify_eq_ok.mp h
    exact ⟨l₁, i, l₂, l₃, sig, l₄, d, hl₁, hl₂, hl₃, hl₄, hd, rfl⟩
  · rintro ⟨l₁, i, l₂, l₃, sig, l₄, d, h₁, h₂, h₃, h₄, hd, rfl⟩
    rw [connect, update_bind_run]
    refine bind_eq_ok.mpr ⟨(), _, onLink_ok h₁, ?_⟩
    refine bind_eq_ok.mpr ⟨i, _, onLink_ok h₂, ?_⟩
    rw [update_bind_run, update_bind_run, update_bind_run]
    refine bind_eq_ok.mpr ⟨(), _, onLink_ok h₃, ?_⟩
    exact identify_eq_ok.mpr ⟨sig, l₄, d, h₄, hd, rfl⟩

theorem sends_probe : SessionSends ReadFrame (probe t.recorded) := by
  refine (sends_update _).bind fun _ ↦ (sends_onLink sends_activate).bind fun _ ↦ ?_
  refine (sends_onLink sends_readSibInfo).bind fun _ ↦ (sends_update _).bind fun _ ↦ ?_
  exact (sends_update _).bind fun _ ↦ (sends_update _).bind fun _ ↦ sends_onLink sends_inProgmode

theorem sends_awaitUnlock (asked : Bool) : LinkSends ReadFrame (awaitUnlock t.recorded asked) := by
  refine .ite (fun _ ↦ ?_) fun _ ↦ .pure
  refine (sends_waitUnlocked 100).bind fun _ ↦ .ite (fun _ ↦ ?_) fun _ ↦ .fail
  exact sends_inProgmode.bind fun _ ↦ .ite (fun _ ↦ .pure) fun _ ↦ .fail

theorem sends_identify : SessionSends ReadFrame (identify t.recorded) := by
  refine (sends_onLink (sends_readSignature none)).bind fun sig ↦ (sends_update _).bind fun _ ↦ ?_
  cases UpdiDevice.findById (UpdiDevice.idFromSig sig) with
  | none => exact .fail
  | some d => exact sends_update _

end Connect

end UpdiProgrammer.Updi
