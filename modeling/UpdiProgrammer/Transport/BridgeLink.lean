import UpdiProgrammer.HostTest.NvmRun
import UpdiProgrammer.Library.Following
import UpdiProgrammer.Transport.Bridge

namespace UpdiProgrammer.Transport

open Updi HostTest UpdiLink UpdiEmu Library.Program TransportFuri Prog

/-- A transport over the bridge whose line keeps time. -/
structure InTime (t : UpdiTransport Bridge) : Prop where
  send : ∀ e c data, Carries e c → e.rx = [] → data ≠ [] → AnswersLast .emulator e data →
    data.length + (e.feed .emulator data).rx.length ≤ updiRxStreamSize →
    (t.send data c).1 = true ∧ Carries (e.feed .emulator data) (t.send data c).2
  recv : ∀ e c len, Carries e c → (t.recv len UpdiLink.init.timeoutMs c).1 = e.rx.take len ∧
    Carries { e with rx := e.rx.drop len } (t.recv len UpdiLink.init.timeoutMs c).2
  millis : ∃ f, t.millis = some f ∧ ∀ e c, Carries e c →
    Carries { e with nowMs := e.nowMs + 1 } (f c).2
  doubleBreak : ∃ f, t.doubleBreak = some f ∧ ∀ e c, Carries e c → e.rx = [] →
    Carries { e with state := .idle } (f c)

theorem inTime_iface {msToTicks : ℕ → UInt32} {freq : UInt32} {paces : Paces}
    (h : paces.Timely msToTicks) :
    InTime (Bridge.iface .emulator msToTicks freq paces) where
  send _ _ _ hc hrx hne hlast hfits := hc.send h hrx hne hlast hfits
  recv _ _ len hc := hc.recv h len
  millis := ⟨_, rfl, fun _ _ hc ↦ hc.millis⟩
  doubleBreak := ⟨_, rfl, fun _ _ hc hrx ↦ hc.doubleBreak h hrx⟩

/-- Two links in the same state, the one over the bridge and the other over the
emulator by itself. -/
structure OnBridge (s : LinkState UpdiEmu) (u : LinkState Bridge) : Prop where
  link : s.link = u.link
  timeout : s.link.timeoutMs = UpdiLink.init.timeoutMs
  carries : Carries s.ctx u.ctx

/-- From `T` the target answers the frame at its end, if at all, and comes to `T'`.
Within an instruction it is not at ease, so there it is followed from frame to frame. -/
def Hears (T : UpdiEmu → Prop) (data : List UInt8) (T' : UpdiEmu → Prop) : Prop :=
  ∀ e, T e → e.rx = [] ∧ AnswersLast .emulator e data ∧
    data.length + (e.feed .emulator data).rx.length ≤ updiRxStreamSize ∧ T' (e.feed .emulator data)

section Hearing

variable {m : EmuMem} {r p n addr : ℕ} {T T' : UpdiEmu → Prop} {data : List UInt8}

theorem hears_of {q : List UInt8} (hrx : ∀ e, T e → e.rx = [])
    (hlast : ∀ e, T e → AnswersLast .emulator e data) (hT : ∀ e, T e → T' (e.feed .emulator data))
    (hrx' : ∀ e, T' e → e.rx = q) (hfits : data.length + q.length ≤ updiRxStreamSize) :
    Hears T data T' := by
  intro e he
  refine ⟨hrx e he, hlast e he, ?_, hT e he⟩
  rw [hrx' _ (hT e he)]
  exact hfits

theorem hears_silent (hrx : ∀ e, T e → e.rx = []) (hT : ∀ e, T e → T' (e.feed .emulator data))
    (hrx' : ∀ e, T' e → e.rx = []) (hfits : data.length ≤ updiRxStreamSize) : Hears T data T' :=
  hears_of hrx (fun e he ↦ answersLast_of_silent (hrx' _ (hT e he))) hT hrx' hfits

theorem hears_break : Hears (At m [] r) [updiBreak] (At m [] r) :=
  hears_silent (fun _ he ↦ he.rx) (fun _ he ↦ he.send_break) (fun _ he ↦ he.rx) (by decide)

theorem hears_stcs (a v : UInt8) :
    Hears (At m [] r) [phySync, updiStcs ||| (a &&& 0x0F), v]
      (At (m.applyStcs (a &&& 0x0F) v) [] r) :=
  hears_silent (fun _ he ↦ he.rx) (fun _ he ↦ he.stcs a v) (fun _ he ↦ he.rx)
    (by simp [updiRxStreamSize])

theorem hears_aimed_stcs (a v : UInt8) :
    Hears (Aimed m [] r p) [phySync, updiStcs ||| (a &&& 0x0F), v]
      (Aimed (m.applyStcs (a &&& 0x0F) v) [] r p) :=
  hears_silent (fun _ he ↦ he.rx) (fun _ he ↦ he.stcs a v) (fun _ he ↦ he.rx)
    (by simp [updiRxStreamSize])

theorem hears_ldcs (a : UInt8) :
    Hears (At m [] r) [phySync, updiLdcs ||| (a &&& 0x0F)] (At m [m.cs (a &&& 0x0F)] r) :=
  hears_of (fun _ he ↦ he.rx) (fun _ he ↦ answersLast_opcode he.state he.rx _)
    (fun _ he ↦ he.ldcs a) (fun _ he ↦ he.rx) (by simp [updiRxStreamSize])

theorem putAddress_length_le (a24 : Bool) (address : ℕ) : (putAddress a24 address).length ≤ 3 := by
  rw [putAddress_length]
  split_ifs <;> omega

theorem hears_lds (a24 : Bool) (address : ℕ) :
    Hears (At m [] r) ([phySync, updiLds ||| (if a24 then address24 else address16) ||| data8] ++
      putAddress a24 address) (At m [m.memRead (wireAddress a24 address)] r) := by
  have hlen := putAddress_length_le a24 address
  refine hears_of (fun _ he ↦ he.rx) (fun e he ↦ ?_) (fun _ he ↦ he.lds a24 address)
    (fun _ he ↦ he.rx) ?_
  · exact answersLast_frame he.state he.rx (feedOpcode_lds _ a24)
      (answersLast_operand he.rx (.inl rfl) (addressed a24 address))
  · simp [updiRxStreamSize]
    omega

theorem hears_sts (a24 : Bool) (address : ℕ) (d16 : Bool) :
    Hears (At m [] r)
      ([phySync, updiSts ||| (if a24 then address24 else address16) |||
        (if d16 then data16 else data8)] ++ putAddress a24 address)
      (Storing m [phyAck] r (wireAddress a24 address) (if d16 then 2 else 1)) := by
  have hlen := putAddress_length_le a24 address
  refine hears_of (fun _ he ↦ he.rx) (fun e he ↦ ?_)
    (fun _ he ↦ he.sts (P := .emulator) a24 address d16) (fun _ he ↦ he.rx) ?_
  · exact answersLast_frame he.state he.rx (feedOpcode_sts _ a24 d16)
      (answersLast_operand he.rx (.inr (.inl rfl)) (addressed a24 address))
  · simp [updiRxStreamSize]
    omega

theorem hears_data {l : List UInt8} (hl : l.length = n) (hne : l ≠ [])
    (hfits : n < updiRxStreamSize) :
    Hears (Storing m [] r addr n) l (At (m.writeAll addr l) [phyAck] r) := by
  refine hears_of (fun _ he ↦ he.rx) (fun e he ↦ ?_) (fun _ he ↦ he.data (P := .emulator) hl hne)
    (fun _ he ↦ he.rx) ?_
  · apply answersLast_operand he.rx (.inr (.inr (.inl he.state)))
    rw [he.acc, he.need, hl, List.length_nil, Nat.zero_add]
  · rw [hl]
    exact hfits

theorem hears_stPtr (a24 : Bool) (address : ℕ) :
    Hears (At m [] r) ([phySync, updiSt ||| ptrAddress ||| (if a24 then data24 else data16)] ++
      putAddress a24 address) (Aimed m [phyAck] r (wireAddress a24 address)) := by
  have hlen := putAddress_length_le a24 address
  refine hears_of (fun _ he ↦ he.rx) (fun e he ↦ ?_)
    (fun _ he ↦ he.stPtr (P := .emulator) a24 address) (fun _ he ↦ he.rx) ?_
  · exact answersLast_frame he.state he.rx (feedOpcode_stPtr _ a24)
      (answersLast_operand he.rx (.inr (.inr (.inr (.inl rfl)))) (addressed a24 address))
  · simp [updiRxStreamSize]
    omega

theorem hears_repeat (n : UInt8) :
    Hears (Aimed m [] r p) [phySync, updiRepeat ||| repeatByte, n] (Aimed m [] n.toNat p) :=
  hears_silent (fun _ he ↦ he.rx) (fun _ he ↦ he.send_repeat n) (fun _ he ↦ he.rx)
    (by simp [updiRxStreamSize])

theorem hears_load (hp : p + (r + 1) < 2 ^ 32) (hr : r + 1 ≤ 256) :
    Hears (Aimed m [] r p) [phySync, updiLd ||| ptrInc ||| data8] (At m (cells m p (r + 1)) 0) := by
  refine hears_of (fun _ he ↦ he.rx) (fun e he ↦ answersLast_opcode he.state he.rx _)
    (fun e he ↦ ?_) (fun _ he ↦ he.rx) ?_
  · have hload := he.load (P := .emulator) false (by simpa using hp)
    rw [enqueueAll_of_lt (by simp [emuRxCap]; omega)] at hload
    simpa using hload
  · rw [cells_length]
    simp [updiRxStreamSize]
    omega

theorem hears_sib (size : ℕ) :
    Hears (At m [] r) [phySync, updiKey ||| keySib ||| sibSelector size]
      (At m (sibBytes m (sibLength size)) r) := by
  have hlen : sibLength size ≤ 32 := by
    unfold sibLength
    split_ifs <;> omega
  refine hears_of (fun _ he ↦ he.rx) (fun e he ↦ answersLast_opcode he.state he.rx _)
    (fun e he ↦ ?_) (fun _ he ↦ he.rx) ?_
  · have hsib := he.sib (P := .emulator) size
    rwa [enqueueAll_of_lt (by simp [emuRxCap, sibBytes_length]; omega)] at hsib
  · rw [sibBytes_length]
    simp [updiRxStreamSize]
    omega

theorem hears_two {l l' : List UInt8} (hrx : ∀ e, T e → e.rx = []) (hrx' : ∀ e, T' e → e.rx = [])
    (hT : ∀ e, T e → T' ((e.feed .emulator l).feed .emulator l')) (hl : l.length ≤ updiRxStreamSize)
    (hl' : l'.length ≤ updiRxStreamSize) : ∃ T'', Hears T l T'' ∧ Hears T'' l' T' := by
  have hsilent (e : UpdiEmu) (he : T e) : (e.feed .emulator l).rx = [] := by
    have hgrow := feed_rx (P := .emulator) (e.feed .emulator l) l'
    rw [hrx' _ (hT e he)] at hgrow
    exact List.length_eq_zero_iff.mp (Nat.le_zero.mp hgrow)
  refine ⟨fun e' ↦ ∃ e, T e ∧ e' = e.feed .emulator l, ?_, ?_⟩
  · apply hears_silent hrx (fun e he ↦ ⟨e, he, rfl⟩) ?_ hl
    rintro e' ⟨e, he, rfl⟩
    exact hsilent e he
  · apply hears_silent ?_ ?_ hrx' hl'
    · rintro e' ⟨e, he, rfl⟩
      exact hsilent e he
    · rintro e' ⟨e, he, rfl⟩
      exact hT e he

end Hearing

section Link

variable {t : UpdiTransport Bridge} (ht : InTime t) {a24 : Bool} {m : EmuMem} {r p n addr : ℕ}
  {T T' : UpdiEmu → Prop} {data : List UInt8} {s : LinkState UpdiEmu} {u : LinkState Bridge}

section Calls

include ht

theorem together_sendRaw (hne : data ≠ []) (hhear : Hears T data T') (h : OnBridge s u)
    (hs : Linked a24 T s) :
    Together OnBridge (sendRaw (emuTransport .emulator) data) (sendRaw t data) s u true
      (Linked a24 T') := by
  obtain ⟨hrx, hlast, hfits, hT⟩ := hhear s.ctx hs.target
  obtain ⟨hok, hcarries⟩ := ht.send s.ctx u.ctx data h.carries hrx hne hlast hfits
  refine ⟨⟨s.link, s.ctx.feed .emulator data⟩, ⟨u.link, (t.send data u.ctx).2⟩, rfl, ?_,
    ⟨h.link, h.timeout, hcarries⟩, hs.addr24, hT⟩
  unfold sendRaw
  rw [hok]

theorem together_send (hne : data ≠ []) (hhear : Hears T data T') (h : OnBridge s u)
    (hs : Linked a24 T s) :
    Together OnBridge (UpdiLink.send (emuTransport .emulator) data) (UpdiLink.send t data) s u ()
      (Linked a24 T') :=
  (together_sendRaw ht hne hhear h hs).bind fun _ _ h hs ↦ .pure h hs

theorem together_recvRaw {T : List UInt8 → UpdiEmu → Prop} (hd : Drains T) {q : List UInt8}
    (len : ℕ) (h : OnBridge s u) (hs : Linked a24 (T q) s) :
    Together OnBridge (recvRaw (emuTransport .emulator) len)
      (recvRaw t len) s u (q.take len) (Linked a24 (T (q.drop len))) := by
  obtain ⟨hq, hT⟩ := hd q s.ctx hs.target
  obtain ⟨hsame, hcarries⟩ := ht.recv s.ctx u.ctx len h.carries
  rw [hq] at hsame hcarries
  refine ⟨⟨s.link, { s.ctx with rx := q.drop len }⟩,
    ⟨u.link, (t.recv len UpdiLink.init.timeoutMs u.ctx).2⟩, ?_, ?_,
    ⟨h.link, h.timeout, hcarries⟩, hs.addr24, hT len⟩
  · simp only [recvRaw, emuTransport, hq]
  · rw [recvRaw, ← h.link, h.timeout, hsame]

theorem together_recvByte {T : List UInt8 → UpdiEmu → Prop} (hd : Drains T) {b : UInt8}
    {q : List UInt8} (h : OnBridge s u) (hs : Linked a24 (T (b :: q)) s) :
    Together OnBridge (recvByte (emuTransport .emulator)) (recvByte t) s u b (Linked a24 (T q)) :=
  (together_recvRaw ht hd 1 h hs).bind fun _ _ h hs ↦ .pure h hs

theorem together_recvAck {T : List UInt8 → UpdiEmu → Prop} (hd : Drains T) {q : List UInt8}
    (h : OnBridge s u) (hs : Linked a24 (T (phyAck :: q)) s) :
    Together OnBridge (recvAck (emuTransport .emulator)) (recvAck t) s u () (Linked a24 (T q)) :=
  (together_recvRaw ht hd 1 h hs).bind fun _ _ h hs ↦ .pure h hs

theorem together_recvAll {T : List UInt8 → UpdiEmu → Prop} (hd : Drains T) {q : List UInt8}
    {len : ℕ} (hlen : q.length = len) (h : OnBridge s u) (hs : Linked a24 (T q) s) :
    Together OnBridge (recvAll (emuTransport .emulator) len) (recvAll t len) s u q
      (Linked a24 (T [])) := by
  subst hlen
  refine (together_recvRaw ht hd q.length h hs).bind fun s u h hs ↦ ?_
  rw [List.take_length, List.drop_length] at *
  rw [if_pos rfl, if_pos rfl]
  exact .pure h hs

end Calls

theorem together_setAckEnabled (b : Bool) (h : OnBridge s u) (hs : Linked a24 T s) :
    Together OnBridge (setAckEnabled b) (setAckEnabled b) s u () (Linked a24 T) := by
  have hlink : { s.link with ackEnabled := b } = { u.link with ackEnabled := b } := by rw [h.link]
  exact ⟨_, _, rfl, rfl, ⟨hlink, h.timeout, h.carries⟩, hs.addr24, hs.target⟩

theorem together_addr24 (h : OnBridge s u) (hs : Linked a24 T s) :
    Together OnBridge addr24 addr24 s u a24 (Linked a24 T) := by
  obtain rfl := hs.addr24
  refine ⟨s, u, rfl, ?_, h, rfl, hs.target⟩
  rw [addr24, read_run, h.link]

include ht

theorem together_ldcs (a : UInt8) (h : OnBridge s u) (hs : Linked a24 (At m [] r) s) :
    Together OnBridge (ldcs (emuTransport .emulator) a) (ldcs t a) s u (m.cs (a &&& 0x0F))
      (Linked a24 (At m [] r)) :=
  (together_send ht (List.cons_ne_nil _ _) (hears_ldcs a) h hs).bind fun _ _ h hs ↦
    together_recvByte ht drains_at h hs

theorem together_stcs (a v : UInt8) (h : OnBridge s u) (hs : Linked a24 (At m [] r) s) :
    Together OnBridge (stcs (emuTransport .emulator) a v) (stcs t a v) s u ()
      (Linked a24 (At (m.applyStcs (a &&& 0x0F) v) [] r)) :=
  together_send ht (List.cons_ne_nil _ _) (hears_stcs a v) h hs

theorem together_enableAck (h : OnBridge s u) (hs : InStep a24 m s) :
    Together OnBridge (enableAck (emuTransport .emulator))
    (enableAck t) s u () (InStep a24 (m.applyStcs (csCtrla &&& 0x0F) ctrlaIbdly)) :=
  (together_stcs ht csCtrla ctrlaIbdly h hs).bind fun _ _ h hs ↦ together_setAckEnabled true h hs

theorem together_ldByte (address : ℕ) (h : OnBridge s u) (hs : InStep a24 m s) :
    Together OnBridge (ldByte (emuTransport .emulator) address) (ldByte t address) s u
      (m.memRead (wireAddress a24 address)) (InStep a24 m) := by
  refine (together_addr24 h hs).bind fun s u h hs ↦ ?_
  refine (together_send ht (List.cons_ne_nil _ _) (hears_lds a24 address) h hs).bind
    fun s u h hs ↦ ?_
  exact together_recvByte ht drains_at h hs

theorem together_stDataPhase {l : List UInt8} (hl : l.length = n) (hne : l ≠ [])
    (hfits : n < updiRxStreamSize) (h : OnBridge s u)
    (hs : Linked a24 (Storing m [phyAck] 0 addr n) s) :
    Together OnBridge (stDataPhase (emuTransport .emulator) l) (stDataPhase t l) s u ()
      (InStep a24 (m.writeAll addr l)) := by
  refine (together_recvAck ht drains_storing h hs).bind fun s u h hs ↦ ?_
  refine (together_send ht hne (hears_data hl hne hfits) h hs).bind fun s u h hs ↦ ?_
  exact together_recvAck ht drains_at h hs

theorem together_stByte (address : ℕ) (value : UInt8) (h : OnBridge s u) (hs : InStep a24 m s) :
    Together OnBridge (stByte (emuTransport .emulator) address value)
      (stByte t address value) s u ()
      (InStep a24 (m.memWrite (wireAddress a24 address) value)) := by
  refine (together_addr24 h hs).bind fun s u h hs ↦ ?_
  refine (together_send ht (List.cons_ne_nil _ _) (hears_sts a24 address false) h hs).bind
    fun s u h hs ↦ ?_
  exact together_stDataPhase ht rfl (List.cons_ne_nil _ _) (by simp [updiRxStreamSize]) h hs

theorem together_st16 (address : ℕ) (value : UInt16) (h : OnBridge s u) (hs : InStep a24 m s) :
    Together OnBridge (st16 (emuTransport .emulator) address value) (st16 t address value) s u ()
      (InStep a24 (m.writeAll (wireAddress a24 address) [value.toUInt8,
        (value >>> 8).toUInt8])) := by
  refine (together_addr24 h hs).bind fun s u h hs ↦ ?_
  refine (together_send ht (List.cons_ne_nil _ _) (hears_sts a24 address true) h hs).bind
    fun s u h hs ↦ ?_
  exact together_stDataPhase ht rfl (List.cons_ne_nil _ _) (by simp [updiRxStreamSize]) h hs

theorem together_stPtr (address : ℕ) (h : OnBridge s u) (hs : InStep a24 m s) :
    Together OnBridge (stPtr (emuTransport .emulator) address) (stPtr t address) s u ()
      (Linked a24 (Aimed m [] 0 (wireAddress a24 address))) := by
  refine (together_addr24 h hs).bind fun s u h hs ↦ ?_
  refine (together_send ht (List.cons_ne_nil _ _) (hears_stPtr a24 address) h hs).bind
    fun s u h hs ↦ ?_
  exact together_recvAck ht drains_aimed h hs

theorem together_repeatCount {count : ℕ} (h1 : 1 ≤ count) (hc : count ≤ maxRepeatSize)
    (h : OnBridge s u) (hs : Linked a24 (Aimed m [] r p) s) :
    Together OnBridge (repeatCount (emuTransport .emulator) count)
      (repeatCount t count) s u () (Linked a24 (Aimed m [] (count - 1) p)) := by
  have hmax : count ≤ 256 := hc
  have hn : (UInt8.ofNat (count - 1)).toNat = count - 1 := by
    rw [UInt8.toNat_ofNat']
    omega
  have hhear := @hears_repeat m r p (UInt8.ofNat (count - 1))
  rw [hn] at hhear
  rw [repeatCount, repeatCount, if_neg (by omega), if_neg (by omega)]
  exact together_send ht (List.cons_ne_nil _ _) hhear h hs

theorem together_ldPtrInc {size : ℕ} (hr : r + 1 = size) (hsize : size ≤ 256)
    (hp : p + size < 2 ^ 32) (h : OnBridge s u) (hs : Linked a24 (Aimed m [] r p) s) :
    Together OnBridge
      (ldPtrInc (emuTransport .emulator) size) (ldPtrInc t size) s u (cells m p size)
        (InStep a24 m) := by
  subst hr
  refine (together_send ht (List.cons_ne_nil _ _) (hears_load hp hsize) h hs).bind fun s u h hs ↦ ?_
  exact together_recvAll ht drains_at (cells_length m p (r + 1)) h hs

theorem together_readData (address : ℕ) {size : ℕ} (h1 : 1 ≤ size) (hmax : size ≤ maxRepeatSize)
    (h : OnBridge s u) (hs : InStep a24 m s) :
    Together OnBridge (readData (emuTransport .emulator) address size)
      (readData t address size) s u (cells m (wireAddress a24 address) size) (InStep a24 m) := by
  have hsize : size ≤ 256 := hmax
  have hw := wireAddress_lt a24 address
  have hnot : ¬maxRepeatSize < size := Nat.not_lt.mpr hmax
  rw [readData, readData, if_neg hnot, if_neg hnot]
  refine (together_stPtr ht address h hs).bind fun s u h hs ↦ ?_
  by_cases h2 : 1 < size
  · simp only [if_pos h2]
    refine (together_repeatCount ht h1 hmax h hs).bind fun s u h hs ↦ ?_
    exact together_ldPtrInc ht (by omega) hsize (by omega) h hs
  · obtain rfl : size = 1 := by omega
    exact together_ldPtrInc ht rfl hsize (by omega) h hs

theorem together_readSib (h : OnBridge s u) (hs : InStep a24 m s) :
    Together OnBridge (readSib (emuTransport .emulator) 16) (readSib t 16) s u (sibBytes m 16)
      (InStep a24 m) := by
  refine (together_send ht (List.cons_ne_nil _ _) (hears_sib 16) h hs).bind fun s u h hs ↦ ?_
  have hrecv := together_recvRaw ht drains_at 16 h hs
  rw [show sibLength 16 = 16 from rfl, List.take_of_length_le (Nat.le_of_eq (sibBytes_length m 16)),
    List.drop_of_length_le (Nat.le_of_eq (sibBytes_length m 16))] at hrecv
  refine hrecv.bind fun s u h hs ↦ ?_
  rw [if_pos (by rw [sibBytes_length]; decide), if_pos (by rw [sibBytes_length]; decide)]
  exact .pure h hs

theorem together_sendKey {k : List UInt8} (hk : k.length = 8) (h : OnBridge s u)
    (hs : InStep a24 m s) :
    Together OnBridge (sendKey (emuTransport .emulator) key64 k) (sendKey t key64 k) s u ()
      (InStep a24 (m.applyKey k)) := by
  have hn : ¬k.length ≠ 8 <<< key64.toNat := not_not.mpr hk
  have hne : k.reverse ≠ [] := by
    apply List.ne_nil_of_length_pos
    rw [List.length_reverse, hk]
    decide
  obtain ⟨T, hopcode, hbytes⟩ := @hears_two (At m [] 0) (At (m.applyKey k) [] 0)
    [phySync, updiKey ||| keyKey ||| key64] k.reverse (fun e he ↦ he.rx) (fun e he ↦ he.rx)
      (fun e he ↦ he.key hk)
    (by decide) (by rw [List.length_reverse, hk]; decide)
  rw [sendKey, sendKey, if_neg hn, if_neg hn, if_neg (by omega), if_neg (by omega)]
  refine (together_send ht (List.cons_ne_nil _ _) hopcode h hs).bind fun s u h hs ↦ ?_
  exact together_send ht hne hbytes h hs

theorem together_stPtrInc16Block {l : List UInt8} (hl : l.length = (r + 1) * 2)
    (hp : p + l.length < 2 ^ 32) (hfits : l.length ≤ updiRxStreamSize) (h : OnBridge s u)
    (hs : Linked a24 (Aimed m [] r p) s) :
    ∃ m', Together OnBridge (stPtrInc16Block (emuTransport .emulator) l) (stPtrInc16Block t l) s u
      () (InStep a24 m') := by
  have hne : l ≠ [] := by
    apply List.ne_nil_of_length_pos
    omega
  let m₁ := m.applyStcs (csCtrla &&& 0x0F) (ctrlaIbdly ||| ctrlaRsd)
  obtain ⟨T, hopcode, hbytes⟩ := @hears_two (Aimed m₁ [] r p) (At (m₁.writeAll p l) [] 0)
    [phySync, updiSt ||| ptrInc ||| data16] l (fun e he ↦ he.rx) (fun e he ↦ he.rx)
      (fun e he ↦ he.block rfl hl hp)
    (by decide) hfits
  refine ⟨(m₁.writeAll p l).applyStcs (csCtrla &&& 0x0F) ctrlaIbdly, ?_⟩
  refine ((together_send ht (List.cons_ne_nil _ _) (hears_aimed_stcs csCtrla _) h hs).bind
    fun s u h hs ↦
    together_setAckEnabled false h hs).bind fun s u h hs ↦ ?_
  refine (together_send ht (List.cons_ne_nil _ _) hopcode h hs).bind fun s u h hs ↦ ?_
  refine (together_send ht hne hbytes h hs).bind fun s u h hs ↦ ?_
  exact together_enableAck ht h hs

end Link

end UpdiProgrammer.Transport
