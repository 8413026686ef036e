import UpdiProgrammer.Updi.Session

namespace UpdiProgrammer.Updi

open Library.Program Prog UpdiLink UpdiNvm UpdiSession
open UpdiTransport (Event)

variable {σ α β : Type}

def linkLog (s : LinkState (σ × List Event)) : List Event := s.ctx.2

def sessionLog (s : SessionState (σ × List Event)) : List Event := s.ctx.2

def Sends (F : List UInt8 → Prop) : Event → Prop
  | .sent data _ => F data
  | _ => True

/-- A link function over a recorded transport that sends frames in `F` only. -/
abbrev LinkSends (F : List UInt8 → Prop) (m : LinkM (σ × List Event) α) : Prop :=
  Only linkLog (Sends F) m

abbrev SessionSends (F : List UInt8 → Prop) (m : SessionM (σ × List Event) α) : Prop :=
  Only sessionLog (Sends F) m

theorem Sends.mono {F G : List UInt8 → Prop} (h : ∀ data, F data → G data) (e : Event)
    (he : Sends F e) : Sends G e := by
  cases e with
  | sent data ok => exact h data he
  | received len data => trivial
  | broke => trivial
  | clock now => trivial

abbrev ldcsFrame (a : UInt8) : List UInt8 := [phySync, updiLdcs ||| (a &&& 0x0F)]

abbrev stcsFrame (a v : UInt8) : List UInt8 := [phySync, updiStcs ||| (a &&& 0x0F), v]

/-- The frames of the functions that only look at the target. -/
inductive ReadFrame : List UInt8 → Prop
  | wake : ReadFrame [updiBreak]
  | ldcs (a : UInt8) : ReadFrame (ldcsFrame a)
  | ctrla (v : UInt8) : ReadFrame (stcsFrame csCtrla v)
  | ctrlb : ReadFrame (stcsFrame csCtrlb ctrlbCcdetdis)
  | sib (size : ℕ) : ReadFrame [phySync, updiKey ||| keySib ||| sibSelector size]
  | lds (a24 : Bool) (address : ℕ) : ReadFrame
      ([phySync, updiLds ||| (if a24 then address24 else address16) ||| data8] ++
        putAddress a24 address)
  | stPtr (a24 : Bool) (address : ℕ) : ReadFrame
      ([phySync, updiSt ||| ptrAddress ||| (if a24 then data24 else data16)] ++
        putAddress a24 address)
  | repeatCount (n : UInt8) : ReadFrame [phySync, updiRepeat ||| repeatByte, n]
  | load : ReadFrame [phySync, updiLd ||| ptrInc ||| data8]

theorem putAddress_ne_singleton (a24 : Bool) (address : ℕ) (b : UInt8) :
    putAddress a24 address ≠ [b] := by
  cases a24 <;> simp [putAddress]

theorem ReadFrame.ne_reset {data : List UInt8} (h : ReadFrame data) (v : UInt8) :
    data ≠ stcsFrame asiResetReq v := by
  intro heq
  cases h with
  | wake => cases heq
  | ldcs a => cases congrArg List.length heq
  | ctrla w => exact absurd (List.cons.inj (List.cons.inj heq).2).1 (by decide)
  | ctrlb => exact absurd (List.cons.inj (List.cons.inj heq).2).1 (by decide)
  | sib size => cases congrArg List.length heq
  | lds a24 address =>
    exact putAddress_ne_singleton a24 address v (List.cons.inj (List.cons.inj heq).2).2
  | stPtr a24 address =>
    exact putAddress_ne_singleton a24 address v (List.cons.inj (List.cons.inj heq).2).2
  | repeatCount n => exact absurd (List.cons.inj (List.cons.inj heq).2).1 (by decide)
  | load => cases congrArg List.length heq

theorem ReadFrame.ne_disable {data : List UInt8} (h : ReadFrame data) :
    data ≠ stcsFrame csCtrlb (ctrlbUpdidis ||| ctrlbCcdetdis) := by
  intro heq
  cases h with
  | wake => cases heq
  | ldcs a => cases congrArg List.length heq
  | ctrla w => exact absurd (List.cons.inj (List.cons.inj heq).2).1 (by decide)
  | ctrlb => exact absurd heq (by decide)
  | sib size => cases congrArg List.length heq
  | lds a24 address =>
    exact putAddress_ne_singleton a24 address _ (List.cons.inj (List.cons.inj heq).2).2
  | stPtr a24 address =>
    exact putAddress_ne_singleton a24 address _ (List.cons.inj (List.cons.inj heq).2).2
  | repeatCount n => exact absurd (List.cons.inj (List.cons.inj heq).2).1 (by decide)
  | load => cases congrArg List.length heq

section Primitives

variable (t : UpdiTransport σ)

theorem emits_sendRaw (data : List UInt8) :
    Emits linkLog (sendRaw t.recorded data) fun l r ↦ ∃ ok, l = [.sent data ok] ∧ r = .ok ok :=
  fun _ ↦ ⟨_, rfl, _, rfl, rfl⟩

theorem emits_send (data : List UInt8) :
    Emits linkLog (UpdiLink.send t.recorded data) fun l r ↦
      l = [.sent data true] ∧ r = .ok () ∨ l = [.sent data false] ∧ r = .error .transport := by
  refine Emits.bind (emits_sendRaw t data) (K := fun ok l r ↦ l = [] ∧
    r = if ok then .ok () else .error .transport) (fun ok ↦ ?_) ?_ ?_
  · cases ok with
    | true => exact .pure ⟨rfl, rfl⟩
    | false => exact .fail ⟨rfl, rfl⟩
  · rintro l e ⟨ok, -, h⟩
    cases h
  · rintro l l' ok r ⟨_, rfl, h⟩ ⟨rfl, rfl⟩
    cases h
    cases ok with
    | true => exact .inl ⟨rfl, rfl⟩
    | false => exact .inr ⟨rfl, rfl⟩

theorem emits_recvRaw (len : ℕ) :
    Emits linkLog (recvRaw t.recorded len) fun l r ↦
      ∃ buf, buf.length ≤ len ∧ l = [.received len buf] ∧ r = .ok buf :=
  fun s ↦ ⟨_, rfl, _, t.recv_length len s.link.timeoutMs s.ctx.1, rfl, rfl⟩

theorem emits_recvByte :
    Emits linkLog (recvByte t.recorded) fun l r ↦
      (∃ b, l = [.received 1 [b]] ∧ r = .ok b) ∨ l = [.received 1 []] ∧ r = .error .timeout := by
  refine Emits.bind (emits_recvRaw t 1) (K := fun buf l r ↦ l = [] ∧
    ((∃ b, buf = [b] ∧ r = .ok b) ∨ (∀ b, buf ≠ [b]) ∧ r = .error .timeout)) (fun buf ↦ ?_) ?_ ?_
  · split
    · exact .pure ⟨rfl, .inl ⟨_, rfl, rfl⟩⟩
    · exact .fail ⟨rfl, .inr ⟨by assumption, rfl⟩⟩
  · rintro l e ⟨buf, -, -, h⟩
    cases h
  · rintro l l' buf r ⟨_, hlen, rfl, h⟩ ⟨rfl, hr⟩
    cases h
    rcases hr with ⟨b, rfl, rfl⟩ | ⟨hb, rfl⟩
    · exact .inl ⟨b, rfl, rfl⟩
    · cases buf with
      | nil => exact .inr ⟨rfl, rfl⟩
      | cons b rest =>
        obtain rfl : rest = [] := List.length_eq_zero_iff.mp (by simpa using hlen)
        exact absurd rfl (hb b)

theorem emits_doubleBreak :
    Emits linkLog (doubleBreak t.recorded) fun l _ ↦ l = [] ∨ l = [.broke] := by
  intro s
  cases h : t.doubleBreak with
  | none => exact ⟨[], by simp [doubleBreak, UpdiTransport.recorded, h, linkLog], .inl rfl⟩
  | some f => exact ⟨[.broke], by simp [doubleBreak, UpdiTransport.recorded, h, linkLog], .inr rfl⟩

theorem emits_millis :
    Emits linkLog (millis t.recorded) fun l r ↦
      (l = [] ∨ ∃ now, l = [.clock now]) ∧ ∃ now, r = .ok now := by
  intro s
  cases h : t.millis with
  | none => exact ⟨[], by simp [millis, UpdiTransport.recorded, h, linkLog], .inl rfl,
    0, by simp [millis, UpdiTransport.recorded, h]⟩
  | some f =>
    refine ⟨[.clock (f s.ctx.1).1], ?_, .inr ⟨_, rfl⟩, (f s.ctx.1).1, ?_⟩
    · simp [millis, UpdiTransport.recorded, h, linkLog]
    · simp [millis, UpdiTransport.recorded, h]

theorem emits_sendKey {k : List UInt8} (hk : k.length = 8) :
    Emits linkLog (sendKey t.recorded key64 k) fun l r ↦
      l = [.sent [phySync, updiKey ||| keyKey ||| key64] true, .sent k.reverse true] ∧ r = .ok () ∨
      (l = [.sent [phySync, updiKey ||| keyKey ||| key64] false] ∨
        l = [.sent [phySync, updiKey ||| keyKey ||| key64] true, .sent k.reverse false]) ∧
      r = .error .transport := by
  have hn : ¬k.length ≠ 8 <<< key64.toNat := not_not.mpr hk
  rw [sendKey, if_neg hn, if_neg (by omega)]
  refine Emits.bind (emits_send t _) (fun _ ↦ emits_send t _) ?_ ?_
  · rintro l e (⟨-, h⟩ | ⟨rfl, h⟩)
    · cases h
    · exact .inr ⟨.inl rfl, h⟩
  · rintro l l' _ r (⟨rfl, -⟩ | ⟨-, h⟩) (⟨rfl, rfl⟩ | ⟨rfl, rfl⟩)
    · exact .inl ⟨rfl, rfl⟩
    · exact .inr ⟨.inr rfl, rfl⟩
    · cases h
    · cases h

variable {t} {F : List UInt8 → Prop}

theorem sends_sendRaw {data : List UInt8} (h : F data) : LinkSends F (sendRaw t.recorded data) := by
  refine (emits_sendRaw t data).mono fun l r ↦ ?_
  rintro ⟨ok, rfl, -⟩
  exact List.forall_mem_singleton.mpr h

theorem sends_send {data : List UInt8} (h : F data) :
    LinkSends F (UpdiLink.send t.recorded data) := by
  refine Only.bind (sends_sendRaw h) fun ok ↦ ?_
  cases ok with
  | true => exact .pure
  | false => exact .fail

theorem sends_recvRaw (len : ℕ) : LinkSends F (recvRaw t.recorded len) := by
  refine (emits_recvRaw t len).mono fun l r ↦ ?_
  rintro ⟨buf, -, rfl, -⟩
  exact List.forall_mem_singleton.mpr trivial

theorem sends_recvByte : LinkSends F (recvByte t.recorded) := by
  refine (sends_recvRaw 1).bind fun buf ↦ ?_
  split
  · exact .pure
  · exact .fail

theorem sends_recvAck : LinkSends F (recvAck t.recorded) :=
  (sends_recvRaw 1).bind fun _ ↦ .ite (fun _ ↦ .pure) fun _ ↦ .fail

theorem sends_recvAll (len : ℕ) : LinkSends F (recvAll t.recorded len) :=
  (sends_recvRaw len).bind fun _ ↦ .ite (fun _ ↦ .pure) fun _ ↦ .fail

theorem sends_addr24 : LinkSends F (addr24 : LinkM (σ × List Event) Bool) := .read

theorem sends_setAckEnabled (b : Bool) :
    LinkSends F (setAckEnabled b : LinkM (σ × List Event) Unit) := .modify fun _ ↦ rfl

theorem sends_doubleBreak : LinkSends F (doubleBreak t.recorded) := by
  refine (emits_doubleBreak t).mono fun l r ↦ ?_
  rintro (rfl | rfl)
  · exact List.forall_mem_nil _
  · exact List.forall_mem_singleton.mpr trivial

theorem sends_millis : LinkSends F (millis t.recorded) := by
  refine (emits_millis t).mono fun l r ↦ ?_
  rintro ⟨rfl | ⟨now, rfl⟩, -⟩
  · exact List.forall_mem_nil _
  · exact List.forall_mem_singleton.mpr trivial

theorem sends_ldcs {a : UInt8} (h : F (ldcsFrame a)) : LinkSends F (ldcs t.recorded a) :=
  (sends_send h).bind fun _ ↦ sends_recvByte

theorem sends_stcs {a v : UInt8} (h : F (stcsFrame a v)) : LinkSends F (stcs t.recorded a v) :=
  sends_send h

theorem sends_sendKey {k : List UInt8} (ho : F [phySync, updiKey ||| keyKey ||| key64])
    (hk : F k.reverse) : LinkSends F (sendKey t.recorded key64 k) :=
  .ite (fun _ ↦ .fail) fun _ ↦ .ite (fun _ ↦ .fail) fun _ ↦
    (sends_send ho).bind fun _ ↦ sends_send hk

end Primitives

section Reads

variable {t : UpdiTransport σ}

theorem sends_enableAck : LinkSends ReadFrame (enableAck t.recorded) :=
  (sends_stcs (.ctrla _)).bind fun _ ↦ sends_setAckEnabled true

theorem sends_disableAck : LinkSends ReadFrame (disableAck t.recorded) :=
  (sends_stcs (.ctrla _)).bind fun _ ↦ sends_setAckEnabled false

theorem sends_initSessionParams : LinkSends ReadFrame (initSessionParams t.recorded) :=
  (sends_stcs .ctrlb).bind fun _ ↦ sends_enableAck

theorem sends_checkDatalink : LinkSends ReadFrame (checkDatalink t.recorded) := by
  refine (Only.attempt (sends_ldcs (.ldcs _))).bind fun r ↦ ?_
  cases r with
  | ok statusa => exact .pure
  | error e => exact .pure

theorem sends_activate : LinkSends ReadFrame (activate t.recorded) := by
  refine (sends_sendRaw .wake).bind fun _ ↦ (Only.attempt sends_initSessionParams).bind fun _ ↦ ?_
  refine sends_checkDatalink.bind fun up ↦ .ite (fun _ ↦ .pure) fun _ ↦ ?_
  refine sends_doubleBreak.bind fun _ ↦ (Only.attempt sends_initSessionParams).bind fun _ ↦ ?_
  exact sends_checkDatalink.bind fun up ↦ .ite (fun _ ↦ .pure) fun _ ↦ .fail

theorem sends_ldByte (address : ℕ) : LinkSends ReadFrame (ldByte t.recorded address) :=
  sends_addr24.bind fun a24 ↦ (sends_send (.lds a24 address)).bind fun _ ↦ sends_recvByte

theorem sends_stPtr (address : ℕ) : LinkSends ReadFrame (stPtr t.recorded address) :=
  sends_addr24.bind fun a24 ↦ (sends_send (.stPtr a24 address)).bind fun _ ↦ sends_recvAck

theorem sends_repeatCount (count : ℕ) : LinkSends ReadFrame (repeatCount t.recorded count) :=
  .ite (fun _ ↦ .fail) fun _ ↦ sends_send (.repeatCount _)

theorem sends_ldPtrInc (size : ℕ) : LinkSends ReadFrame (ldPtrInc t.recorded size) :=
  (sends_send .load).bind fun _ ↦ sends_recvAll size

theorem sends_readSib (size : ℕ) : LinkSends ReadFrame (readSib t.recorded size) :=
  (sends_send (.sib size)).bind fun _ ↦ (sends_recvRaw size).bind fun _ ↦
    .ite (fun _ ↦ .pure) fun _ ↦ .fail

theorem sends_readData (address size : ℕ) :
    LinkSends ReadFrame (readData t.recorded address size) := by
  refine .ite (fun _ ↦ .fail) fun _ ↦ (sends_stPtr address).bind fun _ ↦ ?_
  by_cases h : 1 < size
  · simp only [if_pos h]
    exact (sends_repeatCount size).bind fun _ ↦ sends_ldPtrInc size
  · simp only [if_neg h]
    exact sends_ldPtrInc size

theorem sends_readSibInfo : LinkSends ReadFrame (readSibInfo t.recorded) :=
  (sends_readSib 16).bind fun _ ↦ .ite (fun _ ↦ .fail) fun _ ↦ .pure

theorem sends_inProgmode : LinkSends ReadFrame (inProgmode t.recorded) := by
  refine (Only.attempt (sends_ldcs (.ldcs _))).bind fun r ↦ ?_
  cases r with
  | ok s => exact .pure
  | error e => exact .pure

theorem sends_waitUnlockedLoop (timeoutMs start : UInt32) (iters : ℕ) :
    LinkSends ReadFrame (waitUnlockedLoop t.recorded timeoutMs start iters) := by
  induction iters with
  | zero => exact .pure
  | succ iters ih =>
    refine (Only.attempt (sends_ldcs (.ldcs _))).bind fun r ↦ .ite (fun _ ↦ .pure) fun _ ↦ ?_
    exact sends_millis.bind fun now ↦ .ite (fun _ ↦ .pure) fun _ ↦ ih

theorem sends_waitUnlocked (timeoutMs : UInt32) :
    LinkSends ReadFrame (waitUnlocked t.recorded timeoutMs) :=
  sends_millis.bind fun start ↦ sends_waitUnlockedLoop timeoutMs start nvmMaxPollIters

theorem sends_readSignature (device : Option UpdiDevice) :
    LinkSends ReadFrame (readSignature t.recorded device) := sends_readData _ 3

theorem sends_readChunks (fuel address size : ℕ) :
    LinkSends ReadFrame (readChunks t.recorded fuel address size) := by
  induction fuel generalizing address size with
  | zero => exact .pure
  | succ fuel ih =>
    refine .ite (fun _ ↦ .pure) fun _ ↦ (sends_readData address _).bind fun bytes ↦ ?_
    exact (ih _ _).bind fun rest ↦ .pure

theorem sends_readFlashChunks (fuel address len : ℕ) :
    LinkSends ReadFrame (readFlashChunks t.recorded fuel address len) := by
  induction fuel generalizing address len with
  | zero => exact .pure
  | succ fuel ih =>
    refine .ite (fun _ ↦ .pure) fun _ ↦ (sends_readChunks _ address _).bind fun bytes ↦ ?_
    exact (ih _ _).bind fun rest ↦ .pure

theorem sends_verifyChunks (flashAddress fuel off : ℕ) (data : List UInt8) :
    LinkSends ReadFrame (verifyChunks t.recorded flashAddress fuel off data) := by
  induction fuel generalizing off data with
  | zero => exact .pure
  | succ fuel ih =>
    refine .ite (fun _ ↦ .pure) fun _ ↦ (sends_readChunks _ _ _).bind fun rb ↦ ?_
    cases firstDifference off data rb with
    | some m => exact .pure
    | none => exact ih _ _

theorem sends_readFuseLoop (d : UpdiDevice) (n i : ℕ) :
    LinkSends ReadFrame (readFuseLoop t.recorded d n i) := by
  induction n generalizing i with
  | zero => exact .pure
  | succ n ih =>
    have hfuse : LinkSends ReadFrame (UpdiNvm.readFuse t.recorded d (UInt8.ofNat i)) :=
      .ite (fun _ ↦ .fail) fun _ ↦ sends_ldByte _
    exact hfuse.bind fun b ↦ (ih _).bind fun rest ↦ .pure

end Reads

/-- Every frame but a store to a control register that is not a link parameter. -/
def Ordinary (data : List UInt8) : Prop := ReadFrame data ∨ data.length ≠ 3

section Writes

variable {t : UpdiTransport σ}

theorem ReadFrame.ordinary {data : List UInt8} (h : ReadFrame data) : Ordinary data := .inl h

theorem ordinary_of_length {data : List UInt8} (h : data.length ≠ 3) : Ordinary data := .inr h

theorem sends_ordinary {m : LinkM (σ × List Event) α} (h : LinkSends ReadFrame m) :
    LinkSends Ordinary m := h.mono (Sends.mono fun _ ↦ ReadFrame.ordinary)

theorem ordinary_addressed (op : UInt8) (a24 : Bool) (address : ℕ) :
    Ordinary ([phySync, op] ++ putAddress a24 address) := by
  apply ordinary_of_length
  cases a24 <;> simp [putAddress]

theorem sends_stDataPhase {values : List UInt8} (h : values.length ≠ 3) :
    LinkSends Ordinary (stDataPhase t.recorded values) :=
  sends_recvAck.bind fun _ ↦ (sends_send (ordinary_of_length h)).bind fun _ ↦ sends_recvAck

theorem sends_stByte (address : ℕ) (value : UInt8) :
    LinkSends Ordinary (stByte t.recorded address value) :=
  sends_addr24.bind fun a24 ↦ (sends_send (ordinary_addressed _ a24 address)).bind fun _ ↦
    sends_stDataPhase (by decide : 1 ≠ 3)

theorem sends_st16 (address : ℕ) (value : UInt16) :
    LinkSends Ordinary (st16 t.recorded address value) :=
  sends_addr24.bind fun a24 ↦ (sends_send (ordinary_addressed _ a24 address)).bind fun _ ↦
    sends_stDataPhase (by decide : 2 ≠ 3)

theorem sends_stPtrInc16Block {data : List UInt8} (h : data.length ≠ 3) :
    LinkSends Ordinary (stPtrInc16Block t.recorded data) := by
  refine (sends_ordinary sends_disableAck).bind fun _ ↦ ?_
  refine (sends_send (ordinary_of_length (by simp))).bind fun _ ↦ ?_
  exact (sends_send (ordinary_of_length h)).bind fun _ ↦ sends_ordinary sends_enableAck

theorem sends_writeDataWords (address : ℕ) (data : List UInt8) :
    LinkSends Ordinary (writeDataWords t.recorded address data) := by
  refine .ite (fun _ ↦ .fail) fun h ↦ ?_
  have hlen : data.length ≠ 3 := by omega
  split
  · exact sends_st16 address _
  · refine .ite (fun _ ↦ .fail) fun _ ↦ (sends_ordinary (sends_stPtr address)).bind fun _ ↦ ?_
    refine (sends_ordinary (sends_repeatCount _)).bind fun _ ↦ ?_
    exact sends_stPtrInc16Block hlen

variable (d : UpdiDevice)

theorem sends_waitNvmReadyLoop (timeoutMs start : UInt32) (iters : ℕ) :
    LinkSends ReadFrame (waitNvmReadyLoop t.recorded d timeoutMs start iters) := by
  induction iters with
  | zero => exact .fail
  | succ iters ih =>
    refine (sends_ldByte _).bind fun status ↦ .ite (fun _ ↦ .fail) fun _ ↦
      .ite (fun _ ↦ .pure) fun _ ↦ ?_
    exact sends_millis.bind fun now ↦ .ite (fun _ ↦ .fail) fun _ ↦ ih

theorem sends_waitNvmReady (timeoutMs : UInt32) :
    LinkSends ReadFrame (waitNvmReady t.recorded d timeoutMs) :=
  sends_millis.bind fun start ↦ sends_waitNvmReadyLoop d timeoutMs start nvmMaxPollIters

theorem sends_finishCommand (timeoutMs : UInt32) (clear : Bool) :
    LinkSends Ordinary (finishCommand t.recorded d timeoutMs clear) := by
  refine (Only.attempt (sends_ordinary (sends_waitNvmReady d timeoutMs))).bind fun ready ↦ ?_
  cases clear with
  | true => exact (Only.attempt (sends_stByte _ _)).bind fun _ ↦ .ofStatus
  | false => exact .ofStatus

theorem sends_nvmChipErase : LinkSends Ordinary (UpdiNvm.chipErase t.recorded d) :=
  (sends_ordinary (sends_waitNvmReady d 100)).bind fun _ ↦ (sends_stByte _ _).bind fun _ ↦
    sends_finishCommand d 500 _

theorem sends_writeFlashPage (address : ℕ) (data : List UInt8) :
    LinkSends Ordinary (writeFlashPage t.recorded d address data) := by
  refine .ite (fun _ ↦ .fail) fun _ ↦ .ite (fun _ ↦ .fail) fun _ ↦ ?_
  refine (sends_ordinary (sends_waitNvmReady d 100)).bind fun _ ↦ (sends_stByte _ _).bind fun _ ↦ ?_
  refine (sends_ordinary (sends_waitNvmReady d 100)).bind fun _ ↦ ?_
  refine (sends_writeDataWords address data).bind fun _ ↦ (sends_stByte _ _).bind fun _ ↦ ?_
  exact sends_finishCommand d 100 _

theorem sends_writePages (page fuel address : ℕ) (data : List UInt8) :
    LinkSends Ordinary (writePages t.recorded d page fuel address data) := by
  induction fuel generalizing address data with
  | zero => exact .pure
  | succ fuel ih =>
    refine .ite (fun _ ↦ .pure) fun _ ↦ ?_
    by_cases h : (!allFf (padPage page (data.take page))) = true
    · simp only [if_pos h]
      exact (sends_writeFlashPage d address _).bind fun _ ↦ ih _ _
    · simp only [if_neg h]
      exact ih _ _

end Writes

section Sessions

variable {t : UpdiTransport σ} {F : List UInt8 → Prop}

theorem emits_onLink {m : LinkM (σ × List Event) α} {Q : List Event → Except Halt α → Prop}
    (h : Emits linkLog m fun l r ↦ Q l (r.mapError .status)) : Emits sessionLog (onLink m) Q :=
  Emits.zoom (fun _ ↦ rfl) (fun _ _ ↦ rfl) h

theorem sends_onLink {m : LinkM (σ × List Event) α} (h : LinkSends F m) :
    SessionSends F (onLink m) := emits_onLink h

theorem sends_update (f : UpdiSession → UpdiSession) :
    SessionSends F (update f : SessionM (σ × List Event) Unit) := .modify fun _ ↦ rfl

theorem emits_silent {m : SessionM (σ × List Event) α} (h : ∀ s, (m s).2 = s) : SessionSends F m :=
  fun s ↦ ⟨[], by rw [h, List.append_nil], List.forall_mem_nil _⟩

theorem sends_connectedDevice :
    SessionSends F (connectedDevice : SessionM (σ × List Event) UpdiDevice) := by
  refine emits_silent fun s ↦ ?_
  unfold connectedDevice
  cases s.session.connected with
  | false => rfl
  | true =>
    cases s.session.device with
    | none => rfl
    | some d => rfl

theorem sends_boundDevice :
    SessionSends F (boundDevice : SessionM (σ × List Event) UpdiDevice) := by
  refine emits_silent fun s ↦ ?_
  unfold boundDevice
  cases s.session.nvmDevice with
  | none => rfl
  | some d => rfl

theorem sends_verifyFlash (data : List UInt8) :
    SessionSends ReadFrame (verifyFlash t.recorded data) :=
  sends_connectedDevice.bind fun _ ↦ sends_onLink (sends_verifyChunks _ _ _ _)

theorem sends_readFlash (len : ℕ) : SessionSends ReadFrame (readFlash t.recorded len) :=
  sends_connectedDevice.bind fun _ ↦ sends_onLink (sends_readFlashChunks _ _ _)

theorem sends_readFuses (count : ℕ) : SessionSends ReadFrame (readFuses t.recorded count) :=
  sends_connectedDevice.bind fun _ ↦ sends_boundDevice.bind fun _ ↦
    sends_onLink (sends_readFuseLoop _ _ _)

theorem sends_chipErase : SessionSends Ordinary (UpdiSession.chipErase t.recorded) :=
  Only.bind .read fun _ ↦ .ite (fun _ ↦ .fail) fun _ ↦
    sends_boundDevice.bind fun d ↦ sends_onLink (sends_nvmChipErase d)

theorem sends_writeFlash (data : List UInt8) : SessionSends Ordinary (writeFlash t.recorded data) :=
  sends_connectedDevice.bind fun _ ↦ .ite (fun _ ↦ .fail) fun _ ↦
    sends_boundDevice.bind fun d ↦ sends_onLink (sends_writePages d _ _ _ _)

section Keys

variable (hreset : ∀ v, F (stcsFrame asiResetReq v))
include hreset

theorem sends_toggleReset : LinkSends F (do
    let _ ← attempt (nvmReset t.recorded true)
    let _ ← attempt (nvmReset t.recorded false)) :=
  (Only.attempt (sends_stcs (hreset _))).bind fun _ ↦
    (Only.attempt (sends_stcs (hreset _))).bind fun _ ↦ .pure

theorem sends_leaveProgmode (hdisable : F (stcsFrame csCtrlb (ctrlbUpdidis ||| ctrlbCcdetdis))) :
    LinkSends F (leaveProgmode t.recorded) :=
  (Only.attempt (sends_stcs (hreset _))).bind fun _ ↦
    (Only.attempt (sends_stcs (hreset _))).bind fun _ ↦ sends_stcs hdisable

variable (hread : ∀ data, ReadFrame data → F data)
  (hkey : F [phySync, updiKey ||| keyKey ||| key64])
include hread hkey

theorem sends_unlock (herase : F keyChiperase.reverse) :
    LinkSends F (UpdiNvm.unlock t.recorded) := by
  refine (sends_sendKey hkey herase).bind fun _ ↦ ?_
  refine (sends_ldcs (hread _ (.ldcs _))).bind fun keyStatus ↦ .ite (fun _ ↦ .fail) fun _ ↦ ?_
  refine (Only.attempt (sends_stcs (hreset _))).bind fun _ ↦ ?_
  refine (Only.attempt (sends_stcs (hreset _))).bind fun _ ↦ ?_
  exact ((sends_waitUnlocked 500).mono (Sends.mono hread)).bind fun open_ ↦
    .ite (fun _ ↦ .pure) fun _ ↦ .fail

variable (hnvm : F keyNvm.reverse)
include hnvm

theorem sends_applyNvmprogKey : LinkSends F (applyNvmprogKey t.recorded) := by
  refine (sends_stcs (hreset _)).bind fun _ ↦ (sends_sendKey hkey hnvm).bind fun _ ↦ ?_
  refine (sends_ldcs (hread _ (.ldcs _))).bind fun keyStatus ↦ .ite (fun _ ↦ .fail) fun _ ↦ ?_
  exact sends_toggleReset hreset

theorem sends_enterProgmode : LinkSends F (enterProgmode t.recorded) := by
  have hmode : LinkSends F (inProgmode t.recorded) := sends_inProgmode.mono (Sends.mono hread)
  refine hmode.bind fun _ ↦ .ite (fun _ ↦ .pure) fun _ ↦ ?_
  refine (sends_applyNvmprogKey hreset hread hkey hnvm).bind fun _ ↦ ?_
  refine ((sends_waitUnlocked 100).mono (Sends.mono hread)).bind fun _ ↦
    .ite (fun _ ↦ ?_) fun _ ↦ .fail
  exact hmode.bind fun _ ↦ .ite (fun _ ↦ .pure) fun _ ↦ .fail

theorem sends_connect : SessionSends F (connect t.recorded) := by
  have hlift {γ : Type} {m : LinkM (σ × List Event) γ} (h : LinkSends ReadFrame m) :
      SessionSends F (onLink m) := sends_onLink (h.mono (Sends.mono hread))
  refine (sends_update _).bind fun _ ↦ (hlift sends_activate).bind fun _ ↦ ?_
  refine (hlift sends_readSibInfo).bind fun _ ↦ (sends_update _).bind fun _ ↦ ?_
  refine (sends_update _).bind fun _ ↦ (sends_update _).bind fun _ ↦ ?_
  refine (sends_onLink (sends_enterProgmode hreset hread hkey hnvm)).bind fun _ ↦ ?_
  refine (hlift (sends_readSignature none)).bind fun sig ↦ (sends_update _).bind fun _ ↦ ?_
  cases UpdiDevice.findById (UpdiDevice.idFromSig sig) with
  | none => exact .fail
  | some d => exact sends_update _

end Keys

end Sessions

end UpdiProgrammer.Updi
