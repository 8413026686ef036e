import UpdiProgrammer.Library.Following
import UpdiProgrammer.Updi.Calls

namespace UpdiProgrammer.Updi

open Library.Program Prog

variable {σ τ α : Type}

namespace UpdiTransport

def broken (t : UpdiTransport σ) (c : σ) : σ :=
  match t.doubleBreak with
  | some f => f c
  | none => c

def clocked (t : UpdiTransport σ) (c : σ) : UInt32 × σ :=
  match t.millis with
  | some f => f c
  | none => (0, c)

/-- On contexts related by `R` two transports answer every call alike. -/
structure Alike (R : σ → τ → Prop) (t : UpdiTransport σ) (t' : UpdiTransport τ) : Prop where
  send : ∀ data c c', R c c' → (t.send data c).1 = (t'.send data c').1 ∧
    R (t.send data c).2 (t'.send data c').2
  recv : ∀ len timeoutMs c c', R c c' → (t.recv len timeoutMs c).1 = (t'.recv len timeoutMs c').1 ∧
    R (t.recv len timeoutMs c).2 (t'.recv len timeoutMs c').2
  broken : ∀ c c', R c c' → R (t.broken c) (t'.broken c')
  clocked : ∀ c c', R c c' → (t.clocked c).1 = (t'.clocked c').1 ∧
    R (t.clocked c).2 (t'.clocked c').2

end UpdiTransport

/-- The calls of the link layer that the layers above make come to the same over two
transports, between links related by `L`. -/
structure AlikeLink (L : LinkState σ → LinkState τ → Prop) (t : UpdiTransport σ)
    (t' : UpdiTransport τ) : Prop where
  link : ∀ s u, L s u → s.link = u.link
  relink : ∀ s u l, L s u → l.timeoutMs = s.link.timeoutMs → L ⟨l, s.ctx⟩ ⟨l, u.ctx⟩
  sendBreak : Agrees L (UpdiLink.sendRaw t [updiBreak]) (UpdiLink.sendRaw t' [updiBreak])
  doubleBreak : Agrees L (UpdiLink.doubleBreak t) (UpdiLink.doubleBreak t')
  enableAck : Agrees L (UpdiLink.enableAck t) (UpdiLink.enableAck t')
  ldcs : ∀ address, Agrees L (UpdiLink.ldcs t address) (UpdiLink.ldcs t' address)
  stcs : ∀ address value,
    Agrees L (UpdiLink.stcs t address value) (UpdiLink.stcs t' address value)
  ldByte : ∀ address, Agrees L (UpdiLink.ldByte t address) (UpdiLink.ldByte t' address)
  stByte : ∀ address value,
    Agrees L (UpdiLink.stByte t address value) (UpdiLink.stByte t' address value)
  sendKey : ∀ k, k.length = 8 →
    Agrees L (UpdiLink.sendKey t key64 k) (UpdiLink.sendKey t' key64 k)
  readSib : Agrees L (UpdiLink.readSib t 16) (UpdiLink.readSib t' 16)
  readData : ∀ address size, 1 ≤ size → size ≤ maxRepeatSize →
    Agrees L (UpdiLink.readData t address size) (UpdiLink.readData t' address size)
  writeDataWords : ∀ address data,
    Agrees L (UpdiLink.writeDataWords t address data) (UpdiLink.writeDataWords t' address data)

/-- Over two transports that answer these calls alike the waits of the NVM layer
compare, which look at the clock as well. -/
structure Compared
    (K : ∀ {S T E α : Type}, (S → T → Prop) → Prog S E α → Prog T E α → Prop)
    (L : LinkState σ → LinkState τ → Prop) (t : UpdiTransport σ) (t' : UpdiTransport τ) : Prop
    extends AlikeLink L t t' where
  comparison : Comparison @K
  waitUnlocked : ∀ timeoutMs e, K L (orFail (UpdiNvm.waitUnlocked t timeoutMs) e)
    (orFail (UpdiNvm.waitUnlocked t' timeoutMs) e)
  waitNvmReady : ∀ d timeoutMs,
    K L (UpdiNvm.waitNvmReady t d timeoutMs) (UpdiNvm.waitNvmReady t' d timeoutMs)
  finishCommand : ∀ d timeoutMs clear, K L (UpdiNvm.finishCommand t d timeoutMs clear)
    (UpdiNvm.finishCommand t' d timeoutMs clear)

/-- Two sessions in the same state, over related lines. -/
structure OverSession (L : LinkState σ → LinkState τ → Prop) (s : SessionState σ)
    (u : SessionState τ) : Prop where
  session : s.session = u.session
  line : L ⟨s.session.link, s.ctx⟩ ⟨u.session.link, u.ctx⟩

section General

open UpdiLink UpdiNvm UpdiSession

variable {L : LinkState σ → LinkState τ → Prop} {t : UpdiTransport σ} {t' : UpdiTransport τ}

theorem connectedDevice_congr {s : SessionState σ} {u : SessionState τ} (h : s.session = u.session)
    {r : Except Halt UpdiDevice} (hs : connectedDevice s = (r, s)) :
    connectedDevice u = (r, u) := by
  unfold connectedDevice at hs ⊢
  rw [← h]
  split at hs <;> cases hs <;> rfl

theorem boundDevice_congr {s : SessionState σ} {u : SessionState τ} (h : s.session = u.session)
    {r : Except Halt UpdiDevice} (hs : boundDevice s = (r, s)) : boundDevice u = (r, u) := by
  unfold boundDevice at hs ⊢
  rw [← h]
  split at hs <;> cases hs <;> rfl

theorem agrees_boundDevice : Agrees (OverSession L) boundDevice boundDevice := by
  intro s u h
  rw [boundDevice, boundDevice, h.session]
  cases u.session.nvmDevice with
  | none => exact ⟨rfl, h⟩
  | some d => exact ⟨rfl, h⟩

theorem agrees_connectedDevice : Agrees (OverSession L) connectedDevice connectedDevice := by
  intro s u h
  rw [connectedDevice, connectedDevice, h.session]
  split
  · exact ⟨rfl, h⟩
  · exact ⟨rfl, h⟩

theorem agrees_readDevice :
    Agrees (OverSession L) (Prog.read fun s : SessionState σ ↦ s.session.device : SessionM σ _)
      (Prog.read fun s : SessionState τ ↦ s.session.device) := by
  apply Agrees.read
  intro s u h
  rw [h.session]

section Link

variable (h : AlikeLink L t t')
include h

theorem agrees_initSessionParams : Agrees L (initSessionParams t) (initSessionParams t') :=
  (h.stcs _ _).bind fun _ ↦ h.enableAck

theorem agrees_checkDatalink : Agrees L (checkDatalink t) (checkDatalink t') := by
  apply (h.ldcs csStatusa).attempt.bind
  intro r
  cases r with
  | error e => exact .pure
  | ok statusa => exact .pure

theorem agrees_activate : Agrees L (activate t) (activate t') := by
  refine h.sendBreak.bind fun _ ↦ (agrees_initSessionParams h).attempt.bind fun _ ↦ ?_
  refine (agrees_checkDatalink h).bind fun _ ↦ .ite (fun _ ↦ .pure) fun _ ↦ ?_
  refine h.doubleBreak.bind fun _ ↦ (agrees_initSessionParams h).attempt.bind fun _ ↦ ?_
  exact (agrees_checkDatalink h).bind fun _ ↦ .ite (fun _ ↦ .pure) fun _ ↦ .fail

theorem agrees_readSibInfo : Agrees L (readSibInfo t) (readSibInfo t') :=
  h.readSib.bind fun _ ↦ .ite (fun _ ↦ .fail) fun _ ↦ .pure

theorem agrees_readSignature (device : Option UpdiDevice) :
    Agrees L (readSignature t device) (readSignature t' device) :=
  h.readData _ 3 (by decide) (by decide)

theorem agrees_inProgmode : Agrees L (inProgmode t) (inProgmode t') := by
  apply (h.ldcs asiSysStatus).attempt.bind
  intro r
  cases r with
  | error e => exact .pure
  | ok s => exact .pure

theorem agrees_nvmReset (apply : Bool) : Agrees L (nvmReset t apply) (nvmReset t' apply) :=
  h.stcs _ _

theorem agrees_applyNvmprogKey : Agrees L (applyNvmprogKey t) (applyNvmprogKey t') := by
  refine (h.stcs _ _).bind fun _ ↦ (h.sendKey _ rfl).bind fun _ ↦ ?_
  refine (h.ldcs asiKeyStatus).bind fun _ ↦ .ite (fun _ ↦ .fail) fun _ ↦ ?_
  refine (agrees_nvmReset h true).attempt.bind fun _ ↦ ?_
  exact (agrees_nvmReset h false).attempt.bind fun _ ↦ .pure

theorem agrees_leaveProgmode : Agrees L (leaveProgmode t) (leaveProgmode t') := by
  refine (agrees_nvmReset h true).attempt.bind fun _ ↦ ?_
  exact (agrees_nvmReset h false).attempt.bind fun _ ↦ h.stcs _ _

theorem agrees_readChunks (fuel address size : ℕ) :
    Agrees L (readChunks t fuel address size) (readChunks t' fuel address size) := by
  induction fuel generalizing address size with
  | zero => exact .pure
  | succ fuel ih =>
    refine .ite (fun _ ↦ .pure) fun hsize ↦ ?_
    have h1 : 1 ≤ min size maxRepeatSize := by
      unfold maxRepeatSize
      omega
    exact (h.readData address _ h1 (Nat.min_le_right _ _)).bind fun _ ↦
      (ih _ _).bind fun _ ↦ .pure

theorem agrees_readFuse (d : UpdiDevice) (index : UInt8) :
    Agrees L (readFuse t d index) (readFuse t' d index) :=
  .ite (fun _ ↦ .fail) fun _ ↦ h.ldByte _

theorem agrees_verifyChunks (flashAddress fuel off : ℕ) (data : List UInt8) :
    Agrees L (verifyChunks t flashAddress fuel off data)
      (verifyChunks t' flashAddress fuel off data) := by
  induction fuel generalizing off data with
  | zero => exact .pure
  | succ fuel ih =>
    refine .ite (fun _ ↦ .pure) fun _ ↦ (agrees_readChunks h _ _ _).bind fun rb ↦ ?_
    cases firstDifference off data rb with
    | some m => exact .pure
    | none => exact ih _ _

theorem agrees_readFlashChunks (fuel address len : ℕ) :
    Agrees L (readFlashChunks t fuel address len) (readFlashChunks t' fuel address len) := by
  induction fuel generalizing address len with
  | zero => exact .pure
  | succ fuel ih =>
    refine .ite (fun _ ↦ .pure) fun _ ↦ (agrees_readChunks h _ _ _).bind fun _ ↦ ?_
    exact (ih _ _).bind fun _ ↦ .pure

theorem agrees_readFuseLoop (d : UpdiDevice) (n i : ℕ) :
    Agrees L (readFuseLoop t d n i) (readFuseLoop t' d n i) := by
  induction n generalizing i with
  | zero => exact .pure
  | succ n ih => exact (agrees_readFuse h d _).bind fun _ ↦ (ih _).bind fun _ ↦ .pure

/-- What a call to the link comes to in the session around it. -/
theorem compares_onLink
    {K : ∀ {S T E α : Type}, (S → T → Prop) → Prog S E α → Prog T E α → Prop}
    (c : Comparison @K) {m : LinkM σ α} {p : LinkM τ α} (hm : K L m p) :
    K (OverSession L) (onLink m) (onLink p) := by
  apply c.zoom hm
  · intro s u hR
    exact hR.line
  · intro s u l l' hR hl
    exact ⟨by rw [hR.session, h.link _ _ hl], hl⟩

theorem agrees_onLink {m : LinkM σ α} {p : LinkM τ α} (hm : Agrees L m p) :
    Agrees (OverSession L) (onLink m) (onLink p) :=
  compares_onLink h Agrees.comparison hm

theorem agrees_update {f : UpdiSession → UpdiSession}
    (hf : ∀ s, (f s).link.timeoutMs = s.link.timeoutMs) :
    Agrees (OverSession L) (update f) (update f) := by
  apply Agrees.modify
  rintro ⟨s, c⟩ ⟨_, c'⟩ ⟨rfl, hline⟩
  exact ⟨rfl, h.relink _ _ _ hline (hf s)⟩

theorem agrees_disconnect : Agrees (OverSession L) (disconnect t) (disconnect t') :=
  (agrees_onLink h (agrees_leaveProgmode h)).attempt.bind fun _ ↦ agrees_update h fun _ ↦ rfl

theorem agrees_verifyFlash (data : List UInt8) :
    Agrees (OverSession L) (verifyFlash t data) (verifyFlash t' data) :=
  agrees_connectedDevice.bind fun _ ↦ agrees_onLink h (agrees_verifyChunks h _ _ _ data)

theorem agrees_readFlash (len : ℕ) : Agrees (OverSession L) (readFlash t len) (readFlash t' len) :=
  agrees_connectedDevice.bind fun _ ↦ agrees_onLink h (agrees_readFlashChunks h _ _ len)

theorem agrees_readFuses (count : ℕ) :
    Agrees (OverSession L) (readFuses t count) (readFuses t' count) :=
  agrees_connectedDevice.bind fun _ ↦ agrees_boundDevice.bind fun d ↦
    agrees_onLink h (agrees_readFuseLoop h d _ 0)

end Link

section Nvm

variable {K : ∀ {S T E α : Type}, (S → T → Prop) → Prog S E α → Prog T E α → Prop}
  (h : Compared @K L t t')
include h

theorem compares_enterProgmode : K L (enterProgmode t) (enterProgmode t') := by
  have c := h.comparison
  have hmode := c.of_agrees (agrees_inProgmode h.toAlikeLink)
  refine c.bind hmode fun _ ↦ c.ite (fun _ ↦ c.pure) fun _ ↦ ?_
  refine c.bind (c.of_agrees (agrees_applyNvmprogKey h.toAlikeLink)) fun _ ↦ ?_
  rw [bind_ite_fail (waitUnlocked t 100), bind_ite_fail (waitUnlocked t' 100)]
  refine c.bind (h.waitUnlocked 100 .locked) fun _ ↦ ?_
  exact c.bind hmode fun _ ↦ c.ite (fun _ ↦ c.pure) fun _ ↦ c.fail

theorem compares_unlock : K L (UpdiNvm.unlock t) (UpdiNvm.unlock t') := by
  have c := h.comparison
  have hreset (apply : Bool) := c.of_agrees (agrees_nvmReset h.toAlikeLink apply).attempt
  refine c.bind (c.of_agrees (h.sendKey _ rfl)) fun _ ↦ ?_
  refine c.bind (c.of_agrees (h.ldcs asiKeyStatus)) fun _ ↦ c.ite (fun _ ↦ c.fail) fun _ ↦ ?_
  exact c.bind (hreset true) fun _ ↦ c.bind (hreset false) fun _ ↦ h.waitUnlocked 500 .nvm

variable (d : UpdiDevice)

theorem compares_executeNvmCommand (command : UInt8) :
    K L (executeNvmCommand t d command) (executeNvmCommand t' d command) :=
  h.comparison.of_agrees (h.stByte _ command)

theorem compares_chipErase : K L (UpdiNvm.chipErase t d) (UpdiNvm.chipErase t' d) := by
  have c := h.comparison
  refine c.bind (h.waitNvmReady d 100) fun _ ↦ ?_
  exact c.bind (compares_executeNvmCommand h d _) fun _ ↦ h.finishCommand d 500 _

theorem compares_writeFlashPage (address : ℕ) (data : List UInt8) :
    K L (writeFlashPage t d address data) (writeFlashPage t' d address data) := by
  have c := h.comparison
  refine c.ite (fun _ ↦ c.fail) fun _ ↦ c.ite (fun _ ↦ c.fail) fun _ ↦ ?_
  refine c.bind (h.waitNvmReady d 100) fun _ ↦ c.bind (compares_executeNvmCommand h d _) fun _ ↦ ?_
  refine c.bind (h.waitNvmReady d 100) fun _ ↦ ?_
  refine c.bind (c.of_agrees (h.writeDataWords address data)) fun _ ↦ ?_
  exact c.bind (compares_executeNvmCommand h d _) fun _ ↦ h.finishCommand d 100 _

theorem compares_writeFuse (index value : UInt8) :
    K L (UpdiNvm.writeFuse t d index value) (UpdiNvm.writeFuse t' d index value) := by
  have c := h.comparison
  have hstore (address : ℕ) (v : UInt8) := c.of_agrees (h.stByte address v)
  refine c.ite (fun _ ↦ c.fail) fun _ ↦ c.ite (fun _ ↦ ?_) fun _ ↦ ?_
  · refine c.bind (h.waitNvmReady d 100) fun _ ↦
      c.bind (compares_executeNvmCommand h d _) fun _ ↦ ?_
    refine c.bind (h.waitNvmReady d 100) fun _ ↦ c.bind (hstore _ value) fun _ ↦ ?_
    exact c.bind (compares_executeNvmCommand h d _) fun _ ↦ h.finishCommand d 100 true
  · refine c.bind (h.waitNvmReady d 100) fun _ ↦ c.bind (hstore _ _) fun _ ↦ ?_
    refine c.bind (hstore _ _) fun _ ↦ c.bind (hstore _ value) fun _ ↦ ?_
    exact c.bind (compares_executeNvmCommand h d _) fun _ ↦ h.waitNvmReady d 100

theorem compares_writePages (page fuel address : ℕ) (data : List UInt8) :
    K L (writePages t d page fuel address data) (writePages t' d page fuel address data) := by
  have c := h.comparison
  induction fuel generalizing address data with
  | zero => exact c.pure
  | succ fuel ih =>
    refine c.ite (fun _ ↦ c.pure) fun _ ↦ c.ite (fun _ ↦ ?_) fun _ ↦ ih _ _
    exact c.bind (compares_writeFlashPage h d address _) fun _ ↦ ih _ _

end Nvm

section Session

variable {K : ∀ {S T E α : Type}, (S → T → Prop) → Prog S E α → Prog T E α → Prop}
  (h : Compared @K L t t')
include h

theorem compares_unlockSession :
    K (OverSession L) (UpdiSession.unlock t) (UpdiSession.unlock t') :=
  compares_onLink h.toAlikeLink h.comparison (compares_unlock h)

theorem compares_connect : K (OverSession L) (connect t) (connect t') := by
  have c := h.comparison
  have l := h.toAlikeLink
  refine c.bind (c.of_agrees (agrees_update l fun _ ↦ rfl)) fun _ ↦ ?_
  refine c.bind (c.of_agrees (agrees_onLink l (agrees_activate l))) fun _ ↦ ?_
  refine c.bind (c.of_agrees (agrees_onLink l (agrees_readSibInfo l))) fun _ ↦ ?_
  refine c.bind (c.of_agrees (agrees_update l fun _ ↦ rfl)) fun _ ↦ ?_
  refine c.bind (c.of_agrees (agrees_update l fun _ ↦ rfl)) fun _ ↦ ?_
  refine c.bind (c.of_agrees (agrees_update l fun _ ↦ rfl)) fun _ ↦ ?_
  refine c.bind (compares_onLink l c (compares_enterProgmode h)) fun _ ↦ ?_
  refine c.bind (c.of_agrees (agrees_onLink l (agrees_readSignature l none))) fun sig ↦ ?_
  refine c.bind (c.of_agrees (agrees_update l fun _ ↦ rfl)) fun _ ↦ ?_
  cases UpdiDevice.findById (UpdiDevice.idFromSig sig) with
  | none => exact c.fail
  | some d => exact c.of_agrees (agrees_update l fun _ ↦ rfl)

theorem compares_eraseChip : K (OverSession L) (chipErase t) (chipErase t') := by
  have c := h.comparison
  refine c.bind (c.of_agrees agrees_readDevice) fun _ ↦ c.ite (fun _ ↦ c.fail) fun _ ↦ ?_
  refine c.bind (c.of_agrees agrees_boundDevice) fun d ↦ ?_
  exact compares_onLink h.toAlikeLink c (compares_chipErase h d)

theorem compares_writeFlash (data : List UInt8) :
    K (OverSession L) (writeFlash t data) (writeFlash t' data) := by
  have c := h.comparison
  refine c.bind (c.of_agrees agrees_connectedDevice) fun dev ↦ c.ite (fun _ ↦ c.fail) fun _ ↦ ?_
  refine c.bind (c.of_agrees agrees_boundDevice) fun d ↦ ?_
  exact compares_onLink h.toAlikeLink c (compares_writePages h d _ _ _ data)

theorem compares_sessionWriteFuse (index value : UInt8) :
    K (OverSession L) (writeFuse t index value) (writeFuse t' index value) := by
  have c := h.comparison
  refine c.bind (c.of_agrees agrees_connectedDevice) fun _ ↦ ?_
  refine c.bind (c.of_agrees agrees_boundDevice) fun d ↦ ?_
  exact compares_onLink h.toAlikeLink c (compares_writeFuse h d index value)

end Session

end General

/-- Two links in the same state, over related contexts. -/
def OverLine (R : σ → τ → Prop) (s : LinkState σ) (u : LinkState τ) : Prop :=
  s.link = u.link ∧ R s.ctx u.ctx

section OverLine

open UpdiLink UpdiNvm

variable {R : σ → τ → Prop} {t : UpdiTransport σ} {t' : UpdiTransport τ} (h : t.Alike R t')

theorem millis_clocked (t : UpdiTransport σ) (s : LinkState σ) :
    millis t s = (.ok (t.clocked s.ctx).1, ⟨s.link, (t.clocked s.ctx).2⟩) := by
  unfold millis UpdiTransport.clocked
  cases t.millis <;> rfl

include h

theorem agrees_sendRaw (data : List UInt8) :
    Agrees (OverLine R) (sendRaw t data) (sendRaw t' data) := by
  intro s u hR
  obtain ⟨hsame, hnext⟩ := h.send data s.ctx u.ctx hR.2
  exact ⟨congrArg Except.ok hsame, hR.1, hnext⟩

theorem agrees_recvRaw (len : ℕ) : Agrees (OverLine R) (recvRaw t len) (recvRaw t' len) := by
  intro s u hR
  obtain ⟨hsame, hnext⟩ := h.recv len s.link.timeoutMs s.ctx u.ctx hR.2
  rw [hR.1] at hsame hnext
  refine ⟨?_, hR.1, ?_⟩
  · simp only [recvRaw, hR.1, hsame]
  · simpa only [recvRaw, hR.1] using hnext

theorem agrees_doubleBreak : Agrees (OverLine R) (doubleBreak t) (doubleBreak t') := by
  intro s u hR
  have hbroken := h.broken s.ctx u.ctx hR.2
  exact ⟨rfl, by rw [doubleBreak, doubleBreak, hR.1], hbroken⟩

theorem agrees_millis : Agrees (OverLine R) (millis t) (millis t') := by
  intro s u hR
  obtain ⟨hsame, hnext⟩ := h.clocked s.ctx u.ctx hR.2
  rw [millis_clocked, millis_clocked, hsame]
  exact ⟨rfl, hR.1, hnext⟩

theorem agrees_send (data : List UInt8) :
    Agrees (OverLine R) (UpdiLink.send t data) (UpdiLink.send t' data) := by
  apply (agrees_sendRaw h data).bind
  intro ok
  exact .ite (fun _ ↦ .pure) fun _ ↦ .fail

theorem agrees_recvByte : Agrees (OverLine R) (recvByte t) (recvByte t') := by
  apply (agrees_recvRaw h 1).bind
  intro buf
  split
  · exact .pure
  · exact .fail

theorem agrees_recvAck : Agrees (OverLine R) (recvAck t) (recvAck t') := by
  apply (agrees_recvRaw h 1).bind
  intro buf
  exact .ite (fun _ ↦ .pure) fun _ ↦ .fail

theorem agrees_recvAll (len : ℕ) : Agrees (OverLine R) (recvAll t len) (recvAll t' len) := by
  apply (agrees_recvRaw h len).bind
  intro buf
  exact .ite (fun _ ↦ .pure) fun _ ↦ .fail

omit h in
theorem agrees_addr24 : Agrees (OverLine R) addr24 addr24 := by
  apply Agrees.read
  intro s u hR
  rw [hR.1]

omit h in
theorem agrees_setAckEnabled (b : Bool) :
    Agrees (OverLine R) (setAckEnabled b) (setAckEnabled b) := by
  apply Agrees.modify
  intro s u hR
  exact ⟨by rw [hR.1], hR.2⟩

theorem agrees_ldcs (address : UInt8) : Agrees (OverLine R) (ldcs t address) (ldcs t' address) :=
  (agrees_send h _).bind fun _ ↦ agrees_recvByte h

theorem agrees_stcs (address value : UInt8) :
    Agrees (OverLine R) (stcs t address value) (stcs t' address value) :=
  agrees_send h _

theorem agrees_enableAck : Agrees (OverLine R) (enableAck t) (enableAck t') :=
  (agrees_stcs h _ _).bind fun _ ↦ agrees_setAckEnabled true

theorem agrees_disableAck : Agrees (OverLine R) (disableAck t) (disableAck t') :=
  (agrees_stcs h _ _).bind fun _ ↦ agrees_setAckEnabled false

theorem agrees_ldByte (address : ℕ) : Agrees (OverLine R) (ldByte t address) (ldByte t' address) :=
  agrees_addr24.bind fun _ ↦ (agrees_send h _).bind fun _ ↦ agrees_recvByte h

theorem agrees_stDataPhase (values : List UInt8) :
    Agrees (OverLine R) (stDataPhase t values) (stDataPhase t' values) :=
  (agrees_recvAck h).bind fun _ ↦ (agrees_send h values).bind fun _ ↦ agrees_recvAck h

theorem agrees_stByte (address : ℕ) (value : UInt8) :
    Agrees (OverLine R) (stByte t address value) (stByte t' address value) :=
  agrees_addr24.bind fun _ ↦ (agrees_send h _).bind fun _ ↦ agrees_stDataPhase h _

theorem agrees_st16 (address : ℕ) (value : UInt16) :
    Agrees (OverLine R) (st16 t address value) (st16 t' address value) :=
  agrees_addr24.bind fun _ ↦ (agrees_send h _).bind fun _ ↦ agrees_stDataPhase h _

theorem agrees_stPtr (address : ℕ) : Agrees (OverLine R) (stPtr t address) (stPtr t' address) :=
  agrees_addr24.bind fun _ ↦ (agrees_send h _).bind fun _ ↦ agrees_recvAck h

theorem agrees_ldPtrInc (size : ℕ) : Agrees (OverLine R) (ldPtrInc t size) (ldPtrInc t' size) :=
  (agrees_send h _).bind fun _ ↦ agrees_recvAll h size

theorem agrees_stPtrInc16Block (data : List UInt8) :
    Agrees (OverLine R) (stPtrInc16Block t data) (stPtrInc16Block t' data) := by
  refine (agrees_disableAck h).bind fun _ ↦ (agrees_send h _).bind fun _ ↦ ?_
  exact (agrees_send h data).bind fun _ ↦ agrees_enableAck h

theorem agrees_repeatCount (count : ℕ) :
    Agrees (OverLine R) (repeatCount t count) (repeatCount t' count) :=
  .ite (fun _ ↦ .fail) fun _ ↦ agrees_send h _

theorem agrees_sendKey (sizeIdx : UInt8) (k : List UInt8) :
    Agrees (OverLine R) (sendKey t sizeIdx k) (sendKey t' sizeIdx k) := by
  refine .ite (fun _ ↦ .fail) fun _ ↦ .ite (fun _ ↦ .fail) fun _ ↦ ?_
  exact (agrees_send h _).bind fun _ ↦ agrees_send h _

theorem agrees_readSib (size : ℕ) : Agrees (OverLine R) (readSib t size) (readSib t' size) :=
  (agrees_send h _).bind fun _ ↦ (agrees_recvRaw h size).bind fun _ ↦
    .ite (fun _ ↦ .pure) fun _ ↦ .fail

theorem agrees_readData (address size : ℕ) :
    Agrees (OverLine R) (readData t address size) (readData t' address size) := by
  refine .ite (fun _ ↦ .fail) fun _ ↦ (agrees_stPtr h address).bind fun _ ↦ ?_
  exact .ite (fun _ ↦ (agrees_repeatCount h size).bind fun _ ↦ agrees_ldPtrInc h size) fun _ ↦
    agrees_ldPtrInc h size

theorem agrees_writeDataWords (address : ℕ) (data : List UInt8) :
    Agrees (OverLine R) (writeDataWords t address data) (writeDataWords t' address data) := by
  refine .ite (fun _ ↦ .fail) fun _ ↦ ?_
  have hblock : Agrees (OverLine R) (if maxRepeatSize * 2 < data.length then fail .param else do
        stPtr t address
        repeatCount t (data.length / 2)
        stPtrInc16Block t data)
      (if maxRepeatSize * 2 < data.length then fail .param else do
        stPtr t' address
        repeatCount t' (data.length / 2)
        stPtrInc16Block t' data) := by
    refine .ite (fun _ ↦ .fail) fun _ ↦ (agrees_stPtr h address).bind fun _ ↦ ?_
    exact (agrees_repeatCount h _).bind fun _ ↦ agrees_stPtrInc16Block h data
  split
  · exact agrees_st16 h address _
  · exact hblock

theorem agrees_waitUnlockedLoop (timeoutMs start : UInt32) (iters : ℕ) :
    Agrees (OverLine R) (waitUnlockedLoop t timeoutMs start iters)
      (waitUnlockedLoop t' timeoutMs start iters) := by
  induction iters with
  | zero => exact .pure
  | succ iters ih =>
    apply (agrees_ldcs h asiSysStatus).attempt.bind
    intro r
    apply Agrees.ite (fun _ ↦ .pure)
    intro _
    exact (agrees_millis h).bind fun _ ↦ .ite (fun _ ↦ .pure) fun _ ↦ ih

theorem agrees_waitUnlocked (timeoutMs : UInt32) :
    Agrees (OverLine R) (waitUnlocked t timeoutMs) (waitUnlocked t' timeoutMs) :=
  (agrees_millis h).bind fun _ ↦ agrees_waitUnlockedLoop h timeoutMs _ _

variable (d : UpdiDevice)

theorem agrees_waitNvmReadyLoop (timeoutMs start : UInt32) (iters : ℕ) : Agrees (OverLine R)
    (waitNvmReadyLoop t d timeoutMs start iters) (waitNvmReadyLoop t' d timeoutMs start iters) := by
  induction iters with
  | zero => exact .fail
  | succ iters ih =>
    apply (agrees_ldByte h _).bind
    intro status
    refine .ite (fun _ ↦ .fail) fun _ ↦ .ite (fun _ ↦ .pure) fun _ ↦ ?_
    exact (agrees_millis h).bind fun _ ↦ .ite (fun _ ↦ .fail) fun _ ↦ ih

theorem agrees_waitNvmReady (timeoutMs : UInt32) :
    Agrees (OverLine R) (waitNvmReady t d timeoutMs) (waitNvmReady t' d timeoutMs) :=
  (agrees_millis h).bind fun _ ↦ agrees_waitNvmReadyLoop h d timeoutMs _ _

theorem agrees_finishCommand (timeoutMs : UInt32) (clear : Bool) :
    Agrees (OverLine R) (finishCommand t d timeoutMs clear)
      (finishCommand t' d timeoutMs clear) := by
  refine (agrees_waitNvmReady h d timeoutMs).attempt.bind fun _ ↦ ?_
  exact .ite (fun _ ↦ (agrees_stByte h _ _).attempt.bind fun _ ↦ .ofStatus) fun _ ↦ .ofStatus

omit d in
theorem UpdiTransport.Alike.link : AlikeLink (OverLine R) t t' where
  link _ _ hR := hR.1
  relink _ _ _ hR _ := ⟨rfl, hR.2⟩
  sendBreak := agrees_sendRaw h _
  doubleBreak := agrees_doubleBreak h
  enableAck := agrees_enableAck h
  ldcs := agrees_ldcs h
  stcs := agrees_stcs h
  ldByte := agrees_ldByte h
  stByte := agrees_stByte h
  sendKey k _ := agrees_sendKey h key64 k
  readSib := agrees_readSib h 16
  readData address size _ _ := agrees_readData h address size
  writeDataWords := agrees_writeDataWords h

omit d in
theorem UpdiTransport.Alike.compared : Compared @Agrees (OverLine R) t t' where
  toAlikeLink := h.link
  comparison := Agrees.comparison
  waitUnlocked timeoutMs _ :=
    (agrees_waitUnlocked h timeoutMs).bind fun _ ↦ .ite (fun _ ↦ .pure) fun _ ↦ .fail
  waitNvmReady := agrees_waitNvmReady h
  finishCommand := agrees_finishCommand h

end OverLine

end UpdiProgrammer.Updi
