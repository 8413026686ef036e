import UpdiProgrammer.Updi.Calls
import Mathlib.Data.List.Induction

namespace UpdiProgrammer.Updi

open Library.Program Prog UpdiLink UpdiNvm UpdiSession
open UpdiTransport (Event)

variable {σ α β : Type} {t : UpdiTransport σ} {s : SessionState σ}

/-- What a connect finds out about the target and sets up for it. -/
def found (s : SessionState σ) :
    Option UpdiDevice × Option UpdiDevice × UpdiSibInfo × List UInt8 × ℕ :=
  (s.session.device, s.session.nvmDevice, s.session.sib, s.session.sig, s.session.link.addressBytes)

def connected (s : SessionState σ) : Bool := s.session.connected

theorem found_onLink {m : LinkM σ α} (h : Fixes width m) : Fixes found (onLink m) := by
  intro s
  have hw : (m ⟨s.session.link, s.ctx⟩).2.link.addressBytes = s.session.link.addressBytes := h _
  rw [onLink, zoom_run, found, found, ← hw]

theorem connected_onLink (m : LinkM σ α) : Fixes connected (onLink m) := fun _ ↦ rfl

theorem fixes_connectedDevice {f : SessionState σ → β} : Fixes f connectedDevice := by
  intro s
  unfold connectedDevice
  cases s.session.connected with
  | false => rfl
  | true =>
    cases s.session.device with
    | none => rfl
    | some d => rfl

theorem fixes_boundDevice {f : SessionState σ → β} : Fixes f boundDevice := by
  intro s
  unfold boundDevice
  cases s.session.nvmDevice with
  | none => rfl
  | some d => rfl

theorem fixes_run {f : SessionState σ → β}
    (h : ∀ {α : Type} {m : LinkM σ α}, Fixes width m → Fixes f (onLink m)) {op : SessionOp}
    (hc : op ≠ .connect) (hd : op ≠ .disconnect) : Fixes f (op.run t) := by
  cases op with
  | connect => exact absurd rfl hc
  | unlock => exact h (width_unlock t)
  | disconnect => exact absurd rfl hd
  | chipErase =>
    exact Fixes.read.bind fun _ ↦ .ite (fun _ ↦ .fail) fun _ ↦
      fixes_boundDevice.bind fun d ↦ h (width_chipErase t d)
  | writeFlash image =>
    exact fixes_connectedDevice.bind fun _ ↦ .ite (fun _ ↦ .fail) fun _ ↦
      fixes_boundDevice.bind fun d ↦ h (width_writePages t d _ _ _ _)
  | verifyFlash image =>
    exact (fixes_connectedDevice.bind fun _ ↦ h (width_verifyChunks t _ _ _ _)).bind fun _ ↦ .pure
  | readFlash len =>
    exact (fixes_connectedDevice.bind fun _ ↦ h (width_readFlashChunks t _ _ _)).bind fun _ ↦ .pure
  | readFuses count =>
    exact (fixes_connectedDevice.bind fun _ ↦ fixes_boundDevice.bind fun d ↦
      h (width_readFuseLoop t d _ _)).bind fun _ ↦ .pure
  | writeFuse index value =>
    exact fixes_connectedDevice.bind fun _ ↦ fixes_boundDevice.bind fun d ↦
      h (width_writeFuse t d _ _)

theorem found_disconnect : Fixes found (disconnect t) :=
  (found_onLink (width_leaveProgmode t)).attempt.bind fun _ ↦ .modify fun _ ↦ rfl

theorem found_run {op : SessionOp} (hc : op ≠ .connect) : Fixes found (op.run t) := by
  by_cases hd : op = .disconnect
  · subst hd
    exact found_disconnect
  · exact fixes_run found_onLink hc hd

theorem connected_run {op : SessionOp} (hc : op ≠ .connect) (s : SessionState σ)
    (h : (op.run t s).2.session.connected = true) : s.session.connected = true := by
  by_cases hd : op = .disconnect
  · subst hd
    cases h
  · have hfix : connected (op.run t s).2 = connected s :=
      fixes_run (fun _ ↦ connected_onLink _) hc hd s
    exact hfix.symm.trans h

/-- The state of a session that has not identified a target since it last started to connect. -/
def Blank (s : SessionState σ) : Prop := s.session.connected = false ∧ s.session.device = none

theorem blank_onLink (m : LinkM σ α) : Triple Blank (onLink m) (fun _ ↦ Blank) fun _ ↦ Blank := by
  intro s hs
  rw [onLink, zoom_run]
  rcases m ⟨s.session.link, s.ctx⟩ with ⟨e | a, l⟩
  · exact hs
  · exact hs

/-- A connect that fails leaves no device behind, whatever step it fails at. -/
theorem connect_binds : Triple (fun _ ↦ True) (connect t)
    (fun _ s ↦ ∃ d, s.session.device = some d ∧ s.session.nvmDevice = some d) (fun _ ↦ Blank) := by
  refine Triple.bind (M := fun _ ↦ Blank) (Triple.modify fun _ _ ↦ ⟨rfl, rfl⟩) fun _ ↦ ?_
  refine Triple.bind (blank_onLink _) fun _ ↦ Triple.bind (blank_onLink _) fun i ↦ ?_
  refine Triple.bind (M := fun _ ↦ Blank) (Triple.modify fun _ h ↦ h) fun _ ↦ ?_
  refine Triple.bind (M := fun _ ↦ Blank) (Triple.modify fun _ h ↦ h) fun _ ↦ ?_
  refine Triple.bind (M := fun _ ↦ Blank) (Triple.modify fun _ h ↦ h) fun _ ↦ ?_
  refine Triple.bind (blank_onLink _) fun _ ↦ Triple.bind (blank_onLink _) fun sig ↦ ?_
  refine Triple.bind (M := fun _ ↦ Blank) (Triple.modify fun _ h ↦ h) fun _ ↦ ?_
  cases UpdiDevice.findById (UpdiDevice.idFromSig sig) with
  | none => exact Triple.fail fun _ h ↦ h
  | some d => exact Triple.modify fun _ _ ↦ ⟨d, rfl, rfl⟩

def Bound (s : SessionState σ) : Prop :=
  ∀ d, s.session.device = some d → s.session.nvmDevice = some d

theorem bound_run (op : SessionOp) (s : SessionState σ) (h : Bound s) : Bound (op.run t s).2 := by
  by_cases hc : op = .connect
  · subst hc
    intro d hd
    have hbinds := connect_binds (t := t) s trivial
    rw [SessionOp.run] at hd ⊢
    rcases hr : connect t s with ⟨e | a, s'⟩ <;> rw [hr] at hbinds hd
    · rw [hbinds.2] at hd
      cases hd
    · obtain ⟨d', hd', hn⟩ := hbinds
      rw [hd'] at hd
      exact hn.trans hd
  · have hfound := found_run (t := t) hc s
    simp only [found, Prod.mk.injEq] at hfound
    intro d hd
    rw [hfound.2.1]
    exact h d (hfound.1.symm.trans hd)

theorem bound_runCalls (c : σ) (ops : List SessionOp) :
    Bound (runCalls t ops ⟨UpdiSession.init, c⟩) := by
  apply after_invariant
  · exact fun d h ↦ (by cases h)
  · exact bound_run

/-- The calls that need a connected target. -/
def SessionOp.NeedsTarget : SessionOp → Prop
  | connect => False
  | unlock => False
  | disconnect => False
  | _ => True

theorem connectedDevice_of_not (h : s.session.connected = false) :
    connectedDevice s = (.error (.status .param), s) := by
  unfold connectedDevice
  rw [h]

theorem guarded_of_not (h : s.session.connected = false) (k : UpdiDevice → SessionM σ α) :
    (connectedDevice >>= k) s = (.error (.status .param), s) :=
  bind_error (connectedDevice_of_not h) k

theorem run_of_not_connected {op : SessionOp} (hop : op.NeedsTarget) (he : op ≠ .chipErase)
    (h : s.session.connected = false) : op.run t s = (.error (.status .param), s) := by
  cases op with
  | connect => exact hop.elim
  | unlock => exact hop.elim
  | disconnect => exact hop.elim
  | chipErase => exact absurd rfl he
  | writeFlash image => exact guarded_of_not h _
  | verifyFlash image => exact bind_error (guarded_of_not h _) _
  | readFlash len => exact bind_error (guarded_of_not h _) _
  | readFuses count => exact bind_error (guarded_of_not h _) _
  | writeFuse index value => exact guarded_of_not h _

theorem chipErase_of_none (h : s.session.device = none) :
    UpdiSession.chipErase t s = (.error (.status .param), s) := by
  rw [UpdiSession.chipErase, read_bind_run, h]
  rfl

theorem chipErase_of_bound {d : UpdiDevice} (hd : s.session.device = some d)
    (hn : s.session.nvmDevice = some d) :
    UpdiSession.chipErase t s = onLink (UpdiNvm.chipErase t d) s := by
  have hb : boundDevice s = (.ok d, s) := by
    unfold boundDevice
    rw [hn]
  rw [UpdiSession.chipErase, read_bind_run, hd]
  exact bind_ok hb _

/-- A chip erase goes to the wire whenever a device is known, connected or not. -/
theorem chipErase_inert_iff (h : Bound s) :
    UpdiSession.chipErase t s = (.error (.status .param), s) ↔ s.session.device = none := by
  constructor
  · intro hrun
    cases hd : s.session.device with
    | none => rfl
    | some d =>
      rw [chipErase_of_bound hd (h d hd), onLink, zoom_run, Prod.mk.injEq] at hrun
      have hne := (neverParam_chipErase t d).run_ne ⟨s.session.link, s.ctx⟩
      rcases hm : (UpdiNvm.chipErase t d ⟨s.session.link, s.ctx⟩).1 with e | a <;>
        rw [hm] at hrun hne
      · cases hrun.1
        exact absurd rfl hne
      · cases hrun.1
  · exact chipErase_of_none

/-- Whatever was called before, a call that needs a target is refused without a
trace in a session that is not connected, but for a chip erase of a device that
is still known. -/
theorem refused_iff (t : UpdiTransport σ) (c : σ) (ops : List SessionOp) (op : SessionOp)
    (hop : op.NeedsTarget) (hs : (runCalls t ops ⟨UpdiSession.init, c⟩).session.connected = false) :
    op.run t (runCalls t ops ⟨UpdiSession.init, c⟩) =
        (.error (.status .param), runCalls t ops ⟨UpdiSession.init, c⟩) ↔
      (op = .chipErase → (runCalls t ops ⟨UpdiSession.init, c⟩).session.device = none) := by
  by_cases he : op = .chipErase
  · subst he
    refine (chipErase_inert_iff (bound_runCalls c ops)).trans ?_
    exact ⟨fun h _ ↦ h, fun h ↦ h rfl⟩
  · exact ⟨fun _ h ↦ absurd h he, fun _ ↦ run_of_not_connected hop he hs⟩

/-- A target in programming mode that identifies itself by `sib` and `sig`,
acknowledges every store and reads back zeros. It remembers the instruction it
was sent last. -/
def answering (sib sig : List UInt8) : UpdiTransport UInt8 where
  send data c := (true, data.getD 1 c)
  recv len _ c :=
    let answer :=
      if c &&& 0xE0 = updiLdcs then [sysStatusNvmprog]
      else if c &&& 0xE0 = updiKey then sib
      else if c &&& 0xE0 = updiLd then sig
      else if c &&& 0xE0 = updiLds then [0]
      else [phyAck]
    (answer.take len, c)
  recv_length len _ _ := List.length_take_le len _
  doubleBreak := none
  millis := none

def sibOf (v : UInt8) : List UInt8 :=
  [0x74, 0x69, 0x6E, 0x79, 0x41, 0x56, 0x52, 0x20, 0x50, 0x3A, v, 0x44, 0x3A, 0x30, 0x2D, 0x31]

/-- An ATtiny412 whose SIB has the NVM digit `v`. -/
def answeringAttiny412 (v : UInt8) : UpdiTransport UInt8 := answering (sibOf v) [0x1E, 0x92, 0x23]

theorem read_refused_after_disconnect :
    (SessionOp.readFlash 16).run (answeringAttiny412 0x30)
        (runCalls (answeringAttiny412 0x30) [.connect, .disconnect] ⟨UpdiSession.init, 0⟩) =
      (.error (.status .param),
        runCalls (answeringAttiny412 0x30) [.connect, .disconnect] ⟨UpdiSession.init, 0⟩) :=
  (refused_iff _ 0 [.connect, .disconnect] (.readFlash 16) trivial rfl).mpr fun h ↦ (by cases h)

/-- After a disconnect a chip erase still goes out to the target and succeeds. -/
theorem erased_after_disconnect :
    (runCalls (answeringAttiny412 0x30).recorded [.connect, .disconnect]
        ⟨UpdiSession.init, 0, []⟩).session.connected = false ∧
      (SessionOp.chipErase.run (answeringAttiny412 0x30).recorded
        (runCalls (answeringAttiny412 0x30).recorded [.connect, .disconnect]
          ⟨UpdiSession.init, 0, []⟩)).1 = .ok () ∧
      (runCalls (answeringAttiny412 0x30).recorded [.connect, .disconnect, .chipErase]
        ⟨UpdiSession.init, 0, []⟩).ctx.2.contains (.sent [nvmDescP0.cmdChipErase] true) =
          true := ⟨rfl, rfl, rfl⟩

section Evidence

variable (t)

theorem yields_recvRaw (len : ℕ) :
    Yields linkLog (recvRaw t.recorded len) fun buf l ↦ l = [.received len buf] := by
  refine .of_emits (emits_recvRaw t len) fun l buf ↦ ?_
  rintro ⟨_, -, rfl, h⟩
  cases h
  rfl

theorem yields_send (data : List UInt8) :
    Yields linkLog (UpdiLink.send t.recorded data) fun _ l ↦ l = [.sent data true] := by
  refine .of_emits (emits_send t data) fun l _ ↦ ?_
  rintro (⟨rfl, -⟩ | ⟨-, h⟩)
  · rfl
  · cases h

theorem yields_ldcs (a : UInt8) : Yields linkLog (ldcs t.recorded a) fun b l ↦
    l = [.sent (ldcsFrame a) true, .received 1 [b]] := by
  refine Yields.bind (J := fun _ b l ↦ l = [.received 1 [b]]) (yields_send t _) (fun _ ↦ ?_) ?_
  · refine .of_emits (emits_recvByte t) fun l b ↦ ?_
    rintro (⟨_, rfl, h⟩ | ⟨-, h⟩)
    · cases h
      rfl
    · cases h
  · rintro _ b l l' rfl rfl
    rfl

/-- The answer of a target in programming mode to a look at its status. -/
def SeesProgmode (l : List Event) : Prop :=
  ∃ b, [.sent (ldcsFrame asiSysStatus) true, .received 1 [b]] <:+: l ∧ b &&& sysStatusNvmprog ≠ 0

theorem SeesProgmode.append_left {l : List Event} (h : SeesProgmode l) (l' : List Event) :
    SeesProgmode (l' ++ l) := by
  obtain ⟨b, hl, hb⟩ := h
  exact ⟨b, hl.trans (List.suffix_append l' l).isInfix, hb⟩

theorem SeesProgmode.append_right {l : List Event} (h : SeesProgmode l) (l' : List Event) :
    SeesProgmode (l ++ l') := by
  obtain ⟨b, hl, hb⟩ := h
  exact ⟨b, hl.trans (List.prefix_append l l').isInfix, hb⟩

theorem yields_inProgmode :
    Yields linkLog (inProgmode t.recorded) fun a l ↦ a = true → SeesProgmode l := by
  have hread : Emits linkLog (ldcs t.recorded asiSysStatus) fun l r ↦
      ∀ b, r = .ok b → l = [.sent (ldcsFrame asiSysStatus) true, .received 1 [b]] :=
        yields_ldcs t asiSysStatus
  refine Yields.bind (J := fun r a l ↦ l = [] ∧
    (a = true → ∃ b, r = .ok b ∧ b &&& sysStatusNvmprog ≠ 0))
    (.attempt hread) (fun r ↦ ?_) ?_
  · cases r with
    | ok b => exact .pure ⟨rfl, fun h ↦ ⟨b, rfl, bne_iff_ne.mp h⟩⟩
    | error e => exact .pure ⟨rfl, fun h ↦ (by cases h)⟩
  · rintro r a l l' hl ⟨rfl, ha⟩ h
    obtain ⟨b, rfl, hb⟩ := ha h
    rw [List.append_nil]
    exact ⟨b, (hl b rfl).symm ▸ List.infix_rfl, hb⟩

theorem yields_enterProgmode :
    Yields linkLog (enterProgmode t.recorded) fun _ l ↦ SeesProgmode l := by
  have hany {β : Type} (m : LinkM (σ × List Event) β) (F : List UInt8 → Prop) (h : LinkSends F m) :
      Yields linkLog m fun _ _ ↦ True := .of_emits h fun _ _ _ ↦ trivial
  have hagain : Yields linkLog (do
      if ← inProgmode t.recorded then pure () else fail .protocol : LinkM (σ × List Event) Unit)
      fun _ l ↦ SeesProgmode l := by
    refine Yields.bind (J := fun a _ l ↦ a = true ∧ l = []) (yields_inProgmode t) (fun a ↦ ?_) ?_
    · exact .ite (fun ha ↦ .pure ⟨ha, rfl⟩) fun _ ↦ .fail
    · rintro a _ l l' hl ⟨ha, rfl⟩
      rw [List.append_nil]
      exact hl ha
  have hkey : Yields linkLog (applyNvmprogKey t.recorded) fun _ _ ↦ True :=
    hany _ (fun _ ↦ True)
      (sends_applyNvmprogKey (fun _ ↦ trivial) (fun _ _ ↦ trivial) trivial trivial)
  refine Yields.bind (J := fun a _ l ↦ a = true ∧ l = [] ∨ SeesProgmode l) (yields_inProgmode t)
    (fun a ↦ ?_) ?_
  · refine .ite (fun ha ↦ .pure (.inl ⟨ha, rfl⟩)) fun _ ↦ ?_
    refine Yields.mono (P := fun _ l ↦ SeesProgmode l) ?_ fun _ _ h ↦ .inr h
    refine hkey.bind (J := fun _ _ l ↦ SeesProgmode l) (fun _ ↦ ?_) fun _ _ l l' _ h ↦
      h.append_left l
    refine (hany _ _ (sends_waitUnlocked 100)).bind (J := fun _ _ l ↦ SeesProgmode l) (fun _ ↦ ?_)
      fun _ _ l l' _ h ↦ h.append_left l
    exact .ite (fun _ ↦ hagain) fun _ ↦ .fail
  · rintro a _ l l' hl (⟨ha, rfl⟩ | h)
    · rw [List.append_nil]
      exact hl ha
    · exact h.append_left l

abbrev sibFrame : List UInt8 := [phySync, updiKey ||| keySib ||| sibSelector 16]

theorem yields_readSibInfo : Yields linkLog (readSibInfo t.recorded) fun i l ↦
    ∃ buf, l = [.sent sibFrame true, .received 16 buf] ∧ 11 ≤ buf.length ∧ i = sibInfo buf := by
  have hsib : Yields linkLog (readSib t.recorded 16) fun buf l ↦
      l = [.sent sibFrame true, .received 16 buf] := by
    refine Yields.bind (J := fun _ buf l ↦ l = [.received 16 buf]) (yields_send t _) (fun _ ↦ ?_) ?_
    · refine Yields.bind (J := fun buf buf' l ↦ buf' = buf ∧ l = []) (yields_recvRaw t 16)
        (fun buf ↦ ?_) ?_
      · exact .ite (fun _ ↦ .pure ⟨rfl, rfl⟩) fun _ ↦ .fail
      · rintro _ buf l l' rfl ⟨rfl, rfl⟩
        rfl
    · rintro _ buf l l' rfl rfl
      rfl
  refine hsib.bind (J := fun buf i l ↦ 11 ≤ buf.length ∧ i = sibInfo buf ∧ l = []) (fun buf ↦ ?_) ?_
  · exact .ite (fun _ ↦ .fail) fun h ↦ .pure ⟨Nat.le_of_not_lt h, rfl, rfl⟩
  · rintro buf i l l' rfl ⟨hlen, rfl, rfl⟩
    exact ⟨buf, rfl, hlen, rfl⟩

theorem yields_readSignature : Yields linkLog (readSignature t.recorded none) fun sig l ↦
    sig.length = 3 ∧ .received 3 sig ∈ l := by
  have hany {β : Type} (m : LinkM (σ × List Event) β) (h : LinkSends ReadFrame m) :
      Yields linkLog m fun _ _ ↦ True := .of_emits h fun _ _ _ ↦ trivial
  have hload : Yields linkLog (ldPtrInc t.recorded 3) fun sig l ↦ sig.length = 3 ∧
      .received 3 sig ∈ l := by
    refine (yields_send t _).bind (J := fun _ sig l ↦ sig.length = 3 ∧ .received 3 sig ∈ l)
      (fun _ ↦ ?_) ?_
    · refine Yields.bind (J := fun buf sig l ↦ buf.length = 3 ∧ sig = buf ∧ l = [])
        (yields_recvRaw t 3) (fun buf ↦ ?_) ?_
      · exact .ite (fun h ↦ .pure ⟨h, rfl, rfl⟩) fun _ ↦ .fail
      · rintro buf _ l l' rfl ⟨hlen, rfl, rfl⟩
        exact ⟨hlen, List.mem_singleton_self _⟩
    · rintro _ sig l l' - ⟨hlen, hmem⟩
      exact ⟨hlen, List.mem_append_right l hmem⟩
  refine (hany _ (sends_stPtr _)).bind (J := fun _ sig l ↦ sig.length = 3 ∧ .received 3 sig ∈ l)
    (fun _ ↦ ?_) ?_
  · refine (hany _ (sends_repeatCount 3)).bind (J := fun _ sig l ↦ sig.length = 3 ∧
      .received 3 sig ∈ l) (fun _ ↦ hload) ?_
    rintro _ sig l l' - ⟨hlen, hmem⟩
    exact ⟨hlen, List.mem_append_right l hmem⟩
  · rintro _ sig l l' - ⟨hlen, hmem⟩
    exact ⟨hlen, List.mem_append_right l hmem⟩

end Evidence

theorem sibInfo_version (sib : List UInt8) :
    (sibInfo sib).nvmVersion = 0 ↔ sib.getD 10 0 = 0x30 := by
  unfold sibInfo
  grind

/-- What a session knows of a target that its last connect, with the log `l`,
identified as `d` from the SIB `sib`. -/
structure Identified (l : List Event) (sib : List UInt8) (d : UpdiDevice) (u : UpdiSession) :
    Prop where
  progmode : SeesProgmode l
  sib_read : [.sent sibFrame true, .received 16 sib] <:+: l ∧ 11 ≤ sib.length
  decoded : u.sib = sibInfo sib
  signature_read : .received 3 u.sig ∈ l ∧ u.sig.length = 3
  row : d ∈ deviceTable ∧ d.deviceId = UpdiDevice.idFromSig u.sig
  device : u.device = some d ∧ u.nvmDevice = some d
  addressBytes : u.link.addressBytes = if sib.getD 10 0 = 0x30 then 2 else 3

theorem Identified.of_found {l : List Event} {sib : List UInt8} {d : UpdiDevice}
    {s s' : SessionState σ} (h : Identified l sib d s.session) (hf : found s' = found s) :
    Identified l sib d s'.session := by
  simp only [found, Prod.mk.injEq] at hf
  obtain ⟨hdev, hnvm, hsib, hsig, haddr⟩ := hf
  exact ⟨h.progmode, h.sib_read, hsib.trans h.decoded, hsig.symm ▸ h.signature_read,
    hsig.symm ▸ h.row, ⟨hdev.trans h.device.1, hnvm.trans h.device.2⟩, haddr.trans h.addressBytes⟩

theorem connect_identifies {s s' : SessionState (σ × List Event)}
    (h : connect t.recorded s = (.ok (), s')) :
    ∃ l sib d, sessionLog s' = sessionLog s ++ l ∧ Identified l sib d s'.session := by
  obtain ⟨l₁, i, l₂, l₃, sig, l₄, d, h₁, h₂, h₃, h₄, hd, rfl⟩ := Connect.connect_eq_ok.mp h
  have hactivate : Yields linkLog (activate t.recorded) fun _ _ ↦ True :=
    .of_emits sends_activate fun _ _ _ ↦ trivial
  obtain ⟨e₁, he₁, -⟩ := hactivate.of_run h₁
  obtain ⟨e₂, he₂, sib, rfl, hlen, rfl⟩ := (yields_readSibInfo t).of_run h₂
  obtain ⟨e₃, he₃, hprog⟩ := (yields_enterProgmode t).of_run h₃
  obtain ⟨e₄, he₄, hsiglen, hsig⟩ := (yields_readSignature t).of_run h₄
  have hlog : l₄.ctx.2 = s.ctx.2 ++
      (e₁ ++ [.sent sibFrame true, .received 16 sib] ++ e₃ ++ e₄) := by
    simp only [linkLog] at he₁ he₂ he₃ he₄
    rw [he₄, he₃, he₂, he₁]
    simp only [List.append_assoc]
  refine ⟨_, sib, d, hlog, ?_, ⟨?_, hlen⟩, rfl, ⟨List.mem_append_right _ hsig, hsiglen⟩,
    ⟨UpdiDevice.findById_mem hd, ?_⟩, ⟨rfl, rfl⟩, ?_⟩
  · exact (hprog.append_left _).append_right _
  · exact ⟨e₁, e₃ ++ e₄, by simp only [List.append_assoc]⟩
  · exact beq_iff_eq.mp
      (List.find?_some (p := fun d : UpdiDevice ↦ d.deviceId == UpdiDevice.idFromSig sig) hd)
  · have hw₃ := width_enterProgmode t.recorded
      ⟨l₂.link.setAddressSize (if (sibInfo sib).nvmVersion = 0 then 2 else 3), l₂.ctx⟩
    have hw₄ : width (readSignature t.recorded none l₃).2 = width l₃ :=
      width_readData t.recorded _ 3 l₃
    rw [h₃] at hw₃
    rw [h₄, hw₃] at hw₄
    refine hw₄.trans ?_
    simp only [width, setAddressSize, sibInfo_version]
    by_cases hv : sib.getD 10 0 = 0x30
    · rw [if_pos hv]
      rfl
    · rw [if_neg hv]
      rfl

theorem connect_connected {s : SessionState σ} (h : (connect t s).2.session.connected = true) :
    (connect t s).1 = .ok () := by
  have hbinds := connect_binds (t := t) s trivial
  cases hr : (connect t s).1 with
  | ok a => rfl
  | error e =>
    have hblank : Blank (connect t s).2 := by
      have hrun : connect t s = (.error e, (connect t s).2) := Prod.ext hr rfl
      rw [hrun] at hbinds
      exact hbinds
    rw [hblank.1] at h
    cases h

theorem Identified.agrees {l : List Event} {sib : List UInt8} {d : UpdiDevice} {u : UpdiSession}
    (h : Identified l sib d u) :
    u.link.addressBytes = d.addressBytes ↔ (sib.getD 10 0 = 0x30 ↔ d.nvmVariant = .p0) := by
  rw [h.addressBytes, (UpdiDevice.wellFormed_of_mem h.row.1).addressBytes]
  by_cases h : d.nvmVariant = .p0 <;> simp [h]

/-- Every connected session knows the target that its last connect identified,
by the SIB for the address size and by the signature for everything else. -/
theorem connected_identified (t : UpdiTransport σ) (c : σ) (ops : List SessionOp)
    (hs : (runCalls t.recorded ops ⟨UpdiSession.init, c, []⟩).session.connected = true) :
    ∃ before after l sib d, ops = before ++ .connect :: after ∧ SessionOp.connect ∉ after ∧
      (connect t.recorded (runCalls t.recorded before ⟨UpdiSession.init, c, []⟩)).1 = .ok () ∧
      sessionLog (runCalls t.recorded (before ++ [.connect]) ⟨UpdiSession.init, c, []⟩) =
        sessionLog (runCalls t.recorded before ⟨UpdiSession.init, c, []⟩) ++ l ∧
      Identified l sib d (runCalls t.recorded ops ⟨UpdiSession.init, c, []⟩).session ∧
      ((runCalls t.recorded ops ⟨UpdiSession.init, c, []⟩).session.link.addressBytes =
        d.addressBytes ↔
        (sib.getD 10 0 = 0x30 ↔ d.nvmVariant = .p0)) := by
  induction ops using List.reverseRecOn with
  | nil => cases hs
  | append_singleton ops op ih =>
    have hlast : runCalls t.recorded (ops ++ [op]) ⟨UpdiSession.init, c, []⟩ =
        (op.run t.recorded (runCalls t.recorded ops ⟨UpdiSession.init, c, []⟩)).2 :=
          after_concat ops op
    rw [hlast] at hs ⊢
    by_cases hc : op = .connect
    · subst hc
      have hok := connect_connected hs
      obtain ⟨l, sib, d, hl, hid⟩ := connect_identifies (Prod.ext hok rfl)
      refine ⟨ops, [], l, sib, d, rfl, List.not_mem_nil, hok, ?_, hid, hid.agrees⟩
      rw [hlast]
      exact hl
    · obtain ⟨before, after, l, sib, d, rfl, hafter, hok, hl, hid, -⟩ := ih (connected_run hc _ hs)
      have hid' := hid.of_found (found_run (t := t.recorded) hc _)
      refine ⟨before, after ++ [op], l, sib, d, by simp only [List.append_assoc, List.cons_append],
        ?_, hok, hl, hid', hid'.agrees⟩
      intro hmem
      rcases List.mem_append.mp hmem with h | h
      · exact hafter h
      · exact hc (List.mem_singleton.mp h).symm

theorem answering_identified :
    ∃ before after l sib d, [SessionOp.connect, .readFlash 3] = before ++ .connect :: after ∧
      SessionOp.connect ∉ after ∧
      (connect (answeringAttiny412 0x30).recorded
        (runCalls (answeringAttiny412 0x30).recorded before ⟨UpdiSession.init, 0, []⟩)).1 = .ok () ∧
      sessionLog (runCalls (answeringAttiny412 0x30).recorded (before ++ [.connect])
        ⟨UpdiSession.init, 0, []⟩) =
        sessionLog (runCalls (answeringAttiny412 0x30).recorded before ⟨UpdiSession.init, 0, []⟩) ++
          l ∧
      Identified l sib d (runCalls (answeringAttiny412 0x30).recorded [.connect, .readFlash 3]
        ⟨UpdiSession.init, 0, []⟩).session ∧
      ((runCalls (answeringAttiny412 0x30).recorded [.connect, .readFlash 3]
        ⟨UpdiSession.init, 0, []⟩).session.link.addressBytes = d.addressBytes ↔
        (sib.getD 10 0 = 0x30 ↔ d.nvmVariant = .p0)) :=
  connected_identified _ 0 [.connect, .readFlash 3] rfl

/-- An AVR64EA48 whose SIB reads `P:0` is connected with 16-bit addressing,
which cuts the addresses of its flash. -/
theorem avr64ea48_connected_narrow :
    (runCalls (answering (sibOf 0x30) [0x1E, 0x96, 0x1E]) [.connect]
      ⟨UpdiSession.init, 0⟩).session.connected = true ∧
      ((runCalls (answering (sibOf 0x30) [0x1E, 0x96, 0x1E]) [.connect]
        ⟨UpdiSession.init, 0⟩).session.device.map
        fun d ↦ (d.nvmVariant, d.addressBytes, d.flashAddress)) = some (.p3, 3, 0x800000) ∧
      (runCalls (answering (sibOf 0x30) [0x1E, 0x96, 0x1E]) [.connect]
        ⟨UpdiSession.init, 0⟩).session.link.addressBytes = 2 ∧
      putAddress false 0x800000 = [0x00, 0x00] := ⟨rfl, rfl, rfl, rfl⟩

end UpdiProgrammer.Updi
