import UpdiProgrammer.HostTest.Backlog
import UpdiProgrammer.Updi.Trace

namespace UpdiProgrammer.HostTest

open Updi UpdiLink UpdiNvm UpdiSession Library.Program UpdiEmu

/-- The double BREAK of the Flipper transport: it puts the target between
instructions and drops what is left to read. -/
def furiDoubleBreak (e : UpdiEmu) : UpdiEmu := { e with state := .idle, rx := [] }

/-- The emulator behind a transport with that double BREAK. -/
def furiTransport : UpdiTransport UpdiEmu :=
  (emuTransport .emulator).withBreak (some furiDoubleBreak)

/-- What `updi_link_activate` sends up to its first look at STATUSA. -/
def preamble : List UInt8 :=
  updiBreak :: stcsFrame csCtrlb ctrlbCcdetdis ++ stcsFrame csCtrla ctrlaIbdly ++
    ldcsFrame csStatusa

def probed (e : UpdiEmu) : UpdiEmu := e.feed .emulator preamble

/-- The first answer that waits then is missing or zero, so that the host goes
on to the double BREAK, or it stands before answers that read like those of a
connect. -/
def Recoverable (e : UpdiEmu) : Prop :=
  match (probed e).rx with
  | [] => True
  | b :: q => b = 0 ∨ Replays (probed e).mem q

variable {m : EmuMem} {q : List UInt8} {e : UpdiEmu} {s : LinkState UpdiEmu}

theorem replays_nil (m : EmuMem) : Replays m [] := by
  by_cases hp : m.cs asiSysStatus &&& sysStatusNvmprog = 0
  · obtain ⟨hlock, hprog⟩ := m.unlocked_sysStatus
    have he : Entering m (m.cs asiSysStatus :: m.keyed.cs asiKeyStatus ::
        ([] ++ [m.unlocked.cs asiSysStatus, m.unlocked.cs asiSysStatus])) _ m.unlocked :=
      .keyed hp m.keyed_keyStatus (List.forall_mem_nil _) (by decide) hlock hprog
    exact ⟨_, _, ⟨sibBytes_length m 16, rfl, he⟩, List.prefix_rfl⟩
  · exact ⟨_, _, ⟨sibBytes_length m 16, rfl, .already hp⟩, List.prefix_rfl⟩

/-- The look at STATUSA takes the first answer that waits, whatever it is an
answer to. -/
theorem checkDatalink_run (s : LinkState UpdiEmu) : checkDatalink furiTransport s =
    (.ok ((s.ctx.feed .emulator (ldcsFrame csStatusa)).rx.headD 0 != 0),
      ⟨s.link, { s.ctx.feed .emulator (ldcsFrame csStatusa) with
        rx := (s.ctx.feed .emulator (ldcsFrame csStatusa)).rx.drop 1 }⟩) := by
  have hsend : UpdiLink.send furiTransport (ldcsFrame csStatusa) s =
      (.ok (), ⟨s.link, s.ctx.feed .emulator (ldcsFrame csStatusa)⟩) := rfl
  unfold checkDatalink ldcs
  rw [Prog.attempt_bind_run, Prog.bind_ok hsend]
  dsimp only [recvByte, recvRaw, Prog.bind_run, furiTransport,
    UpdiTransport.withBreak, emuTransport]
  cases hrx : (s.ctx.feed .emulator (ldcsFrame csStatusa)).rx with
  | nil => rfl
  | cons b q => rfl

theorem initSessionParams_run (s : LinkState UpdiEmu) :
    Prog.attempt (initSessionParams furiTransport) s =
      (.ok (.ok ()), ⟨{ s.link with ackEnabled := true },
      s.ctx.feed .emulator (stcsFrame csCtrlb ctrlbCcdetdis ++ stcsFrame csCtrla ctrlaIbdly)⟩) := by
  rw [feed_append]
  rfl

theorem probed_eq (e : UpdiEmu) : ((e.feed .emulator [updiBreak]).feed .emulator
    (stcsFrame csCtrlb ctrlbCcdetdis ++ stcsFrame csCtrla ctrlaIbdly)).feed .emulator
      (ldcsFrame csStatusa) = probed e := by
  rw [← feed_append, ← feed_append]
  rfl

theorem activate_run (s : LinkState UpdiEmu) : activate furiTransport s =
    (if (probed s.ctx).rx.headD 0 != 0 then pure () else do
      doubleBreak furiTransport
      let _ ← Prog.attempt (initSessionParams furiTransport)
      if ← checkDatalink furiTransport then pure () else Prog.fail .timeout : LinkM UpdiEmu Unit)
      ⟨{ s.link with ackEnabled := true },
        { probed s.ctx with rx := (probed s.ctx).rx.drop 1 }⟩ := by
  have hbreak : sendRaw furiTransport [updiBreak] s =
      (.ok true, ⟨s.link, s.ctx.feed .emulator [updiBreak]⟩) := rfl
  rw [activate, Prog.bind_ok hbreak, Prog.bind_ok (initSessionParams_run _),
    Prog.bind_ok (checkDatalink_run _), probed_eq]

theorem activate_answered {b : UInt8} (hrx : (probed s.ctx).rx = b :: q) (hb : b ≠ 0)
    (hidle : (probed s.ctx).state = .idle) :
    Returns (activate furiTransport) s () (Linked (s.link.addressBytes == 3)
      (At (probed s.ctx).mem q (probed s.ctx).repeatNext)) := by
  have hhead : ((probed s.ctx).rx.headD 0 != 0) = true := by
    rw [hrx]
    exact bne_iff_ne.mpr hb
  refine ⟨⟨{ s.link with ackEnabled := true }, { probed s.ctx with rx := q }⟩, ?_, rfl, rfl,
    hidle, rfl, rfl⟩
  rw [activate_run, if_pos hhead, hrx]
  rfl

/-- Otherwise the double BREAK brings host and target back in step. -/
theorem activate_escalates (hhead : (probed s.ctx).rx.headD 0 = 0)
    (hlive : (probed s.ctx).mem.cs csStatusa ≠ 0) :
    Returns (activate furiTransport) s () (Linked (s.link.addressBytes == 3)
      (At (((probed s.ctx).mem.setCs csCtrlb ctrlbCcdetdis).setCs csCtrla ctrlaIbdly) []
        (probed s.ctx).repeatNext)) := by
  have hinit : initSessionParams furiTransport = initSessionParams (emuTransport .emulator) := rfl
  have hcheck : checkDatalink furiTransport = checkDatalink (emuTransport .emulator) := rfl
  have hbroken : Returns (doubleBreak furiTransport)
      ⟨{ s.link with ackEnabled := true }, { probed s.ctx with rx := (probed s.ctx).rx.drop 1 }⟩ ()
      (Linked (s.link.addressBytes == 3) (At (probed s.ctx).mem [] (probed s.ctx).repeatNext)) :=
    ⟨_, rfl, rfl, rfl, rfl, rfl, rfl⟩
  unfold Returns
  rw [activate_run, hhead, if_neg (by decide), hinit, hcheck]
  refine hbroken.bind fun s' h ↦ ?_
  refine (initSessionParams_returns h).attempt.bind fun s' h ↦ ?_
  have hsame :
      (((probed s.ctx).mem.setCs csCtrlb ctrlbCcdetdis).setCs csCtrla ctrlaIbdly).cs csStatusa =
      (probed s.ctx).mem.cs csStatusa := rfl
  refine (checkDatalink_returns h).bind fun s' h ↦ ?_
  rw [hsame, if_pos (bne_iff_ne.mpr hlive)]
  exact .pure h

/-- The part behind the link: its row, its SIB and a live STATUSA. -/
structure Ident (d : UpdiDevice) (sib : List UInt8) (m : EmuMem) : Prop where
  target : TargetOf d m
  sib : m.sib = sib
  live : m.cs csStatusa ≠ 0

theorem Ident.of_sameStore {d : UpdiDevice} {sib : List UInt8} {m' : EmuMem} (h : Ident d sib m)
    (hs : m.SameStore m') (hlive : m'.cs csStatusa ≠ 0) : Ident d sib m' := by
  refine ⟨h.target.of_sameStore hs, ?_, hlive⟩
  rw [hs]
  exact h.sib

/-- The connect succeeds and finds out the SIB, the signature and the row of the target. -/
def Recovers (d : UpdiDevice) (sib : List UInt8) (s : SessionState UpdiEmu) : Prop :=
  Returns (connect furiTransport) s () fun s' ↦
    s'.session.sib = sibInfo ((List.range 16).map fun i ↦ sib.getD i 0) ∧
      s'.session.sig = d.signature ∧ s'.session.device = some d

variable {d : UpdiDevice} {sib : List UInt8}

theorem Ident.recovers_iff (hd : d.WellFormed) (h : Ident d sib m) {s : SessionState UpdiEmu} :
    Recovers d sib s ↔ Identifies (some furiDoubleBreak) d m s := by
  unfold Recovers Identifies sibBytes
  rw [h.sib, h.target.cells_sigrow hd]
  rfl

theorem recovers_iff_recoverable (hd : d.WellFormed) {s : SessionState UpdiEmu}
    (h : Ident d sib (probed s.ctx).mem)
    (hidle : (probed s.ctx).rx = [] ∨ (probed s.ctx).state = .idle)
    (hcap : (probed s.ctx).rx.length + 16 ≤ emuRxCap) : Recovers d sib s ↔ Recoverable s.ctx := by
  unfold Recoverable
  by_cases hhead : (probed s.ctx).rx.headD 0 = 0
  · have hsame : (probed s.ctx).mem.SameStore
        (((probed s.ctx).mem.setCs csCtrlb ctrlbCcdetdis).setCs csCtrla ctrlaIbdly) :=
      (EmuMem.SameStore.setCs _ _ _).trans (.setCs _ _ _)
    have h' := h.of_sameStore hsame h.live
    have hact := activate_escalates (s := ⟨s.session.link, s.ctx⟩) hhead h.live
    rw [h'.recovers_iff hd, identifies_iff_replays hact (by decide) (h'.target.findById hd)]
    refine iff_of_true (replays_nil _) ?_
    cases hrx : (probed s.ctx).rx with
    | nil => trivial
    | cons b q =>
      rw [hrx] at hhead
      exact .inl hhead
  · cases hrx : (probed s.ctx).rx with
    | nil =>
      rw [hrx] at hhead
      exact absurd rfl hhead
    | cons b q =>
      rw [hrx] at hhead hidle hcap
      have hact := activate_answered (s := ⟨s.session.link, s.ctx⟩) hrx hhead
        (hidle.resolve_left (List.cons_ne_nil b q))
      rw [List.length_cons] at hcap
      rw [h.recovers_iff hd, identifies_iff_replays hact (by omega) (h.target.findById hd)]
      exact (or_iff_right hhead).symm

def Spares (addr : ℕ) : Prop := addr < sigrowDefaultAddress ∨ sigrowDefaultAddress + 3 ≤ addr

theorem Ident.withFlash (h : Ident d sib m) (f : ℕ → UInt8) : Ident d sib { m with flash := f } :=
  have hc := h.target.configured
  ⟨⟨⟨hc.1, hc.2, hc.3, hc.4, hc.5, hc.6, hc.7, hc.8⟩, h.target.sibDigit, h.target.signature⟩,
    h.sib, h.live⟩

theorem Ident.setIo (hd : d.WellFormed) (h : Ident d sib m) {addr : ℕ} (haddr : Spares addr)
    (val : UInt8) :
    Ident d sib (m.setIo addr val) := by
  unfold EmuMem.setIo
  split_ifs with hin
  · have hc := h.target.configured
    refine ⟨⟨⟨hc.1, hc.2, hc.3, hc.4, hc.5, hc.6, hc.7, hc.8⟩, h.target.sibDigit, fun i hi ↦ ?_⟩,
      h.sib, h.live⟩
    have hne : d.sigrowAddress - emuIoBase + i ≠ addr - emuIoBase := by
      have hsig := hd.sigrowAddress
      have hlow := hin.1
      unfold Spares sigrowDefaultAddress at haddr
      unfold emuIoBase at hlow ⊢
      omega
    have hio : Function.update m.io (addr - emuIoBase) val (d.sigrowAddress - emuIoBase + i) =
        d.signature.getD i 0 := by
      rw [Function.update_of_ne hne]
      exact h.target.signature i hi
    exact hio
  · exact h

theorem Ident.eraseEffect (h : Ident d sib m) (val : UInt8) : Ident d sib (m.eraseEffect val) := by
  unfold EmuMem.eraseEffect
  split_ifs
  · exact h.withFlash _
  · exact h

theorem Ident.memWrite (hd : d.WellFormed) (h : Ident d sib m) {addr : ℕ} (haddr : Spares addr)
    {val : UInt8} (hval : val ≠ d.nvmDesc.cmdWriteFuse) : Ident d sib (m.memWrite addr val) := by
  have hfuse : ∀ {m : EmuMem}, Ident d sib m → m.fuseEffect val = m := by
    intro m h
    refine if_neg fun hc ↦ hval ?_
    rw [← h.target.configured.cmdWriteFuse]
    exact hc.2
  unfold EmuMem.memWrite
  split_ifs
  · exact h.withFlash _
  · rw [hfuse (h.eraseEffect val)]
    exact (h.eraseEffect val).setIo hd haddr val
  · exact h.setIo hd haddr val

theorem Ident.applyStcs (h : Ident d sib m) {a : UInt8} (ha : a &&& 0x0F ≠ csStatusa) (v : UInt8) :
    Ident d sib (m.applyStcs a v) := by
  refine h.of_sameStore (.applyStcs m a v) ?_
  have hcs : (m.applyStcs a v).cs csStatusa = m.cs csStatusa := by
    have hsys : csStatusa ≠ asiSysStatus := by decide
    unfold EmuMem.applyStcs EmuMem.setCs
    dsimp only
    split_ifs <;> simp only [Function.update_of_ne hsys, Function.update_of_ne ha.symm]
  rw [hcs]
  exact h.live

theorem Ident.applyKey (h : Ident d sib m) (k : List UInt8) : Ident d sib (m.applyKey k) := by
  refine h.of_sameStore (.applyKey m k) ?_
  have hcs : (m.applyKey k).cs csStatusa = m.cs csStatusa := by
    have hkey : csStatusa ≠ asiKeyStatus := by decide
    unfold EmuMem.applyKey EmuMem.setCs
    split_ifs <;> simp only [Function.update_of_ne hkey]
  rw [hcs]
  exact h.live

/-- Between instructions the decoder passes over everything but a SYNCH byte. -/
theorem UpdiEmu.At.skip {r : ℕ} {b : UInt8} (h : At m q r e) (hb : b ≠ phySync) :
    At m q r (e.feedByte .emulator b) := by
  have hskip : e.feedByte .emulator b = e := by
    unfold feedByte
    rw [h.state]
    exact if_neg hb
  rwa [hskip]

/-- From byte `k` on the preamble reaches a decoder between instructions in
time for the LDCS. -/
def Resyncs (d : UpdiDevice) (sib : List UInt8) (k : ℕ) : Prop :=
  ∀ (m : EmuMem) (q : List UInt8) (r : ℕ) (e : UpdiEmu), Ident d sib m → At m q r e →
    ∃ m', Ident d sib m' ∧
      At m' (enqueue q (m'.cs csStatusa)) r (e.feed .emulator (preamble.drop k))

theorem Resyncs.skip {k : ℕ} {b : UInt8} (h : Resyncs d sib (k + 1))
    (hk : preamble.drop k = b :: preamble.drop (k + 1)) (hb : b ≠ phySync) : Resyncs d sib k := by
  intro m q r e hi he
  rw [hk, feed_cons]
  exact h m q r _ hi (he.skip hb)

theorem Resyncs.stcs {k : ℕ} {a v : UInt8} (h : Resyncs d sib (k + 3))
    (hk : preamble.drop k = stcsFrame a v ++ preamble.drop (k + 3))
    (ha : (a &&& 0x0F) &&& 0x0F ≠ csStatusa) : Resyncs d sib k := by
  intro m q r e hi he
  rw [hk, feed_append]
  exact h _ q r _ (hi.applyStcs ha v) (he.stcs a v)

theorem resyncs {k : ℕ} (hk : k ≤ 7) : Resyncs d sib k := by
  have h7 : Resyncs d sib 7 := fun m q r e hi he ↦ ⟨m, hi, he.ldcs csStatusa⟩
  have h6 : Resyncs d sib 6 := h7.skip rfl (by decide)
  have h5 : Resyncs d sib 5 := h6.skip rfl (by decide)
  have h4 : Resyncs d sib 4 := h7.stcs rfl (by decide)
  have h3 : Resyncs d sib 3 := h4.skip rfl (by decide)
  have h2 : Resyncs d sib 2 := h3.skip rfl (by decide)
  have h1 : Resyncs d sib 1 := h4.stcs rfl (by decide)
  have h0 : Resyncs d sib 0 := h1.skip rfl (by decide)
  match k, hk with
  | 0, _ => exact h0
  | 1, _ => exact h1
  | 2, _ => exact h2
  | 3, _ => exact h3
  | 4, _ => exact h4
  | 5, _ => exact h5
  | 6, _ => exact h6
  | 7, _ => exact h7

/-- What the probe finds can be told apart: the part is the same, and either
nothing waits to be read or the decoder is between instructions. -/
structure Settled (d : UpdiDevice) (sib : List UInt8) (e : UpdiEmu) : Prop where
  ident : Ident d sib e.mem
  idle : e.rx = [] ∨ e.state = .idle
  capacity : e.rx.length + 16 ≤ emuRxCap

theorem settled_of_at {r k : ℕ} (hk : k ≤ 8) (h : At m q r (e.feed .emulator (preamble.take k)))
    (hi : Ident d sib m) (hq : q.length ≤ 512) : Settled d sib (probed e) := by
  have hsplit :
      probed e = (e.feed .emulator (preamble.take k)).feed .emulator (preamble.drop k) := by
    rw [← feed_append, List.take_append_drop]
    rfl
  have hcap : emuRxCap = 2048 := rfl
  rw [hsplit]
  rcases Nat.lt_or_eq_of_le hk with hk | rfl
  · obtain ⟨m', hi', h'⟩ := resyncs (Nat.le_of_lt_succ hk) m q r _ hi h
    refine ⟨h'.mem.symm ▸ hi', .inr h'.state, ?_⟩
    rw [h'.rx, enqueue, if_neg (by omega), List.length_append, List.length_singleton]
    omega
  · have h' : At m q r ((e.feed .emulator (preamble.take 8)).feed .emulator (preamble.drop 8)) :=
      h.skip (b := 0x80) (by decide)
    refine ⟨h'.mem.symm ▸ hi, .inr h'.state, ?_⟩
    rw [h'.rx]
    omega

/-- Where an aborted operation can leave the decoder, and what can be left to
read then. -/
inductive LeftBehind (e : UpdiEmu) : Prop
  | idle (hs : e.state = .idle) (hq : e.rx.length ≤ 256)
  | opcode (hs : e.state = .opcode) (hq : e.rx = [])
  | stcsVal (hs : e.state = .stcsVal) (hq : e.rx = []) (ha : e.pendingCsAddr &&& 0x0F ≠ csStatusa)
  | repeatVal (hs : e.state = .repeatVal) (hq : e.rx = [])
  | ldsAddr (hs : e.state = .ldsAddr) (hq : e.rx = []) (hacc : e.acc.length < e.need)
      (hneed : e.need ≤ 3) (hsize : e.dataSize = 1)
  | stsAddr (hs : e.state = .stsAddr) (hq : e.rx = []) (hacc : e.acc.length < e.need)
      (hneed : e.need ≤ 3) (hsize : e.dataSize = 1)
        (haddr : e.acc.length = 2 → Spares (leValue e.acc))
  | stsData (hs : e.state = .stsData) (hq : e.rx.length ≤ 1) (hacc : e.acc = [])
      (hneed : e.need = 1) (haddr : Spares e.curAddr)
  | stptrAddr (hs : e.state = .stptrAddr) (hq : e.rx = []) (hacc : e.acc.length < e.need)
      (hneed : e.need ≤ 3)
  | stinc16 (hs : e.state = .stinc16) (hq : e.rx = []) (hr : e.repeatNext = 0)
      (hleft : 0 < e.incLeft)
      (hlow : e.mem.flashBase ≤ e.ptr) (hhigh : e.ptr + e.incLeft ≤ e.mem.flashBase + emuFlashSize)
  | key (hs : e.state = .key) (hq : e.rx = []) (hneed : e.need = 8) (hacc : e.acc.length < 8)

theorem settled_opcode (hs : e.state = .opcode) (hq : e.rx = []) (hi : Ident d sib e.mem) :
    Settled d sib (probed e) := by
  have hop : e.feed .emulator (preamble.take 3) =
      ({ e with dataSize := 1, need := 2, acc := [], state := .ldsAddr } : UpdiEmu).feed .emulator
        [0x55, 0xC3] := by
    have htake : preamble.take 3 = updiBreak :: [0x55, 0xC3] := rfl
    have hbyte : e.feedByte .emulator updiBreak =
        { e with dataSize := 1, need := 2, acc := [], state := .ldsAddr } := by
      unfold feedByte
      rw [hs]
      rfl
    rw [htake, feed_cons, hbyte]
  have hat : At e.mem (enqueueAll e.rx ((List.range 1).map fun i ↦
      e.mem.memRead (leValue [0x55, 0xC3] + i))) e.repeatNext
        (e.feed .emulator (preamble.take 3)) := by
    rw [hop, feed_ldsAddr rfl rfl (List.cons_ne_nil _ _), rxPushAll_eq]
    exact ⟨rfl, rfl, rfl, rfl⟩
  refine settled_of_at (by decide) hat hi ?_
  rw [hq, enqueueAll_of_lt (by simp [emuRxCap])]
  simp

theorem preamble_take_length {k : ℕ} (hk : k ≤ 9) : (preamble.take k).length = k := by
  rw [List.length_take]
  exact Nat.min_eq_left hk

theorem preamble_take_ne_nil {k : ℕ} (hk : k ≤ 9) (hpos : 0 < k) : preamble.take k ≠ [] := by
  intro hnil
  have hlen := preamble_take_length hk
  rw [hnil, List.length_nil] at hlen
  omega

theorem ack_emulator (m : EmuMem) : ackBytes .emulator m = [phyAck] := rfl

theorem enqueueAll_ack (q : List UInt8) (h : q.length < 512) :
    enqueueAll q [phyAck] = q ++ [phyAck] :=
  enqueueAll_of_lt (by
    have hcap : emuRxCap = 2048 := rfl
    rw [List.length_singleton]
    omega)

theorem settled_ldsAddr (hs : e.state = .ldsAddr) (hq : e.rx = []) (hacc : e.acc.length < e.need)
    (hneed : e.need ≤ 3) (hsize : e.dataSize = 1) (hi : Ident d sib e.mem) :
    Settled d sib (probed e) := by
  have hlen : (preamble.take (e.need - e.acc.length)).length = e.need - e.acc.length :=
    preamble_take_length (by omega)
  have hat : At e.mem (enqueueAll e.rx ((List.range e.dataSize).map fun i ↦
      e.mem.memRead (leValue (e.acc ++ preamble.take (e.need - e.acc.length)) + i))) e.repeatNext
      (e.feed .emulator (preamble.take (e.need - e.acc.length))) := by
    rw [feed_ldsAddr hs (by omega) (preamble_take_ne_nil (by omega) (by omega)), rxPushAll_eq]
    exact ⟨rfl, rfl, rfl, rfl⟩
  refine settled_of_at (by omega) hat hi ?_
  rw [hq, hsize, enqueueAll_of_lt (by simp [emuRxCap])]
  simp

theorem settled_stptrAddr (hs : e.state = .stptrAddr) (hq : e.rx = [])
    (hacc : e.acc.length < e.need) (hneed : e.need ≤ 3) (hi : Ident d sib e.mem) :
    Settled d sib (probed e) := by
  have hlen : (preamble.take (e.need - e.acc.length)).length = e.need - e.acc.length :=
    preamble_take_length (by omega)
  have hat : At e.mem (enqueueAll e.rx (ackBytes .emulator e.mem)) e.repeatNext
      (e.feed .emulator (preamble.take (e.need - e.acc.length))) := by
    rw [feed_stptrAddr hs (by omega) (preamble_take_ne_nil (by omega) (by omega)), pushAck_eq]
    exact ⟨rfl, rfl, rfl, rfl⟩
  refine settled_of_at (by omega) hat hi ?_
  rw [hq, ack_emulator, enqueueAll_ack _ (by simp)]
  simp

/-- Within the preamble the decoder gets back between instructions, with `q` to read. -/
def Resumes (d : UpdiDevice) (sib : List UInt8) (q : List UInt8) (e : UpdiEmu) : Prop :=
  ∃ m r k, k ≤ 8 ∧ Ident d sib m ∧ At m q r (e.feed .emulator (preamble.take k))

theorem Resumes.settled (h : Resumes d sib q e) (hq : q.length ≤ 512) :
    Settled d sib (probed e) := by
  obtain ⟨m, r, k, hk, hi, hat⟩ := h
  exact settled_of_at hk hat hi hq

theorem resumes_idle (hs : e.state = .idle) (hi : Ident d sib e.mem) : Resumes d sib e.rx e :=
  ⟨e.mem, e.repeatNext, 0, by decide, hi, rfl, hs, rfl, rfl⟩

theorem resumes_key (hs : e.state = .key) (hq : e.rx = []) (hneed : e.need = 8)
    (hacc : e.acc.length < 8) (hi : Ident d sib e.mem) : Resumes d sib [] e := by
  have hlen : (preamble.take (8 - e.acc.length)).length = 8 - e.acc.length :=
    preamble_take_length (by omega)
  have hat : At (e.mem.applyKey (e.acc ++ preamble.take (8 - e.acc.length)).reverse) [] e.repeatNext
      (e.feed .emulator (preamble.take (8 - e.acc.length))) := by
    rw [feed_key hs (by omega) hneed (preamble_take_ne_nil (by omega) (by omega))]
    exact ⟨rfl, rfl, hq, rfl⟩
  exact ⟨_, _, _, by omega, hi.applyKey _, hat⟩

theorem resumes_stcsVal (hs : e.state = .stcsVal) (hq : e.rx = [])
    (ha : e.pendingCsAddr &&& 0x0F ≠ csStatusa) (hi : Ident d sib e.mem) : Resumes d sib [] e := by
  have hat : At (e.mem.applyStcs e.pendingCsAddr updiBreak) [] e.repeatNext
      (e.feed .emulator (preamble.take 1)) := by
    have hbyte : e.feed .emulator (preamble.take 1) =
        { e with mem := e.mem.applyStcs e.pendingCsAddr updiBreak, state := .idle } := by
      have htake : preamble.take 1 = [updiBreak] := rfl
      rw [htake, feed_cons, feed_nil]
      unfold feedByte
      rw [hs]
    rw [hbyte]
    exact ⟨rfl, rfl, hq, rfl⟩
  exact ⟨_, _, 1, by decide, hi.applyStcs ha _, hat⟩

theorem resumes_repeatVal (hs : e.state = .repeatVal) (hq : e.rx = []) (hi : Ident d sib e.mem) :
    Resumes d sib [] e := by
  have hat : At e.mem [] 0 (e.feed .emulator (preamble.take 1)) := by
    have hbyte :
        e.feed .emulator (preamble.take 1) = { e with repeatNext := 0, state := .idle } := by
      have htake : preamble.take 1 = [updiBreak] := rfl
      rw [htake, feed_cons, feed_nil]
      unfold feedByte
      rw [hs]
      rfl
    rw [hbyte]
    exact ⟨rfl, rfl, hq, rfl⟩
  exact ⟨_, _, 1, by decide, hi, hat⟩

theorem Ident.writeBlock (h : Ident d sib m) {addr : ℕ} {data : List UInt8}
    (hlow : m.flashBase ≤ addr) (hhigh : addr + data.length ≤ m.flashBase + emuFlashSize) :
    Ident d sib (m.writeAll addr data) := by
  obtain ⟨off, rfl⟩ := Nat.exists_eq_add_of_le hlow
  rw [writeAll_flash (by omega)]
  exact h.withFlash _

/-- A word block swallows the whole preamble, or its end is within it. -/
theorem block_or_resumes (hd : d.WellFormed) (hs : e.state = .stinc16) (hq : e.rx = [])
    (hr : e.repeatNext = 0) (hleft : 0 < e.incLeft) (hlow : e.mem.flashBase ≤ e.ptr)
    (hhigh : e.ptr + e.incLeft ≤ e.mem.flashBase + emuFlashSize) (hi : Ident d sib e.mem) :
    Ident d sib (probed e).mem ∧ (probed e).rx = [] ∨ Resumes d sib [] e := by
  have hbase : e.mem.flashBase + emuFlashSize < 2 ^ 32 := by
    have hfits := hd.flash_fits
    have hsize : emuFlashSize = 0x10000 := rfl
    rw [hi.target.configured.flashBase, hsize]
    split_ifs at hfits <;> omega
  have hnine : preamble.length = 9 := rfl
  by_cases hlong : 9 < e.incLeft
  · have hblock := feed_inBlock (P := .emulator) preamble e hs rfl (by omega) (by omega)
    have hi' : Ident d sib (e.mem.writeAll e.ptr preamble) := hi.writeBlock hlow (by omega)
    have hmem : (probed e).mem = e.mem.writeAll e.ptr preamble := by rw [probed, hblock]
    have hrx : (probed e).rx = e.rx := by rw [probed, hblock]
    refine .inl ⟨?_, hrx.trans hq⟩
    rwa [hmem]
  · have hlen : (preamble.take e.incLeft).length = e.incLeft := preamble_take_length (by omega)
    have hat := feed_stinc16 (P := .emulator) (preamble.take e.incLeft) e hs rfl hlen.symm
      (preamble_take_ne_nil (by omega) hleft) (by omega) hr
    have hi' : Ident d sib (e.mem.writeAll e.ptr (preamble.take e.incLeft)) :=
      hi.writeBlock hlow (by omega)
    rw [hq] at hat
    rcases Nat.lt_or_eq_of_le (Nat.le_of_not_lt hlong) with hshort | hall
    · exact .inr ⟨_, _, _, Nat.le_of_lt_succ hshort, hi', hat⟩
    · rw [hall] at hat hi'
      have hat' : At _ [] 0 (probed e) := hat
      exact .inl ⟨hat'.mem.symm ▸ hi', hat'.rx⟩

theorem preamble_ne_writeFuse (d : UpdiDevice) : ∀ b ∈ preamble, b ≠ d.nvmDesc.cmdWriteFuse := by
  have hp0 : preamble.contains nvmDescP0.cmdWriteFuse = false := rfl
  have hp3 : preamble.contains nvmDescP3.cmdWriteFuse = false := rfl
  intro b hb heq
  have hmem := List.contains_iff_mem.mpr hb
  rcases nvmDesc_eq d with h | h
  · rw [heq, h, hp0] at hmem
    cases hmem
  · rw [heq, h, hp3] at hmem
    cases hmem

theorem settled_storing {r addr k : ℕ} (hd : d.WellFormed) (hk : k < 8)
    (h : Storing m q r addr 1 (e.feed .emulator (preamble.take k))) (hi : Ident d sib m)
    (haddr : Spares addr) (hq : q.length ≤ 2) : Settled d sib (probed e) := by
  obtain ⟨b, hb⟩ : ∃ b, preamble.take (k + 1) = preamble.take k ++ [b] := by
    have hlt : k < preamble.length := Nat.lt_trans hk (by decide)
    exact ⟨preamble[k], List.take_succ_eq_append_getElem hlt⟩
  have hmem : b ∈ preamble := by
    refine List.mem_of_mem_take (i := k + 1) ?_
    rw [hb]
    exact List.mem_append_right _ (List.mem_singleton.mpr rfl)
  have hat := h.data (P := .emulator) (l := [b]) rfl (List.cons_ne_nil _ _)
  rw [← feed_append, ← hb, ack_emulator, enqueueAll_ack _ (by omega)] at hat
  have hi' := hi.memWrite hd haddr (preamble_ne_writeFuse d b hmem)
  refine settled_of_at (by omega) hat hi' ?_
  rw [List.length_append, List.length_singleton]
  omega

/-- An address that the preamble completes is no address of a signature byte,
unless it was one already. -/
theorem spares_completed {acc : List UInt8} {k : ℕ} (hk : 0 < k) (hlen : acc.length + k ≤ 3)
    (h : acc.length = 2 → Spares (leValue acc)) : Spares (leValue (acc ++ preamble.take k)) := by
  have htake : preamble.take 1 = [0x00] ∧ preamble.take 2 = [0x00, 0x55] ∧
      preamble.take 3 = [0x00, 0x55, 0xC3] := ⟨rfl, rfl, rfl⟩
  obtain ⟨h₁, h₂, h₃⟩ := htake
  match acc, k, hk, hlen with
  | [], 1, _, _ => exact .inl (by decide)
  | [], 2, _, _ => exact .inr (by decide)
  | [], 3, _, _ => exact .inr (by decide)
  | [x], 1, _, _ =>
    have hx := x.toNat_lt
    rw [h₁]
    simp only [List.cons_append, List.nil_append, leValue, Spares, sigrowDefaultAddress,
      UInt8.toNat_zero]
    omega
  | [x], 2, _, _ =>
    have hx := x.toNat_lt
    have h55 : (0x55 : UInt8).toNat = 85 := rfl
    rw [h₂]
    simp only [List.cons_append, List.nil_append, leValue, Spares, sigrowDefaultAddress,
      UInt8.toNat_zero, h55]
    omega
  | [x, y], 1, _, _ =>
    have hsame : leValue [x, y, 0x00] = leValue [x, y] := rfl
    rw [h₁]
    exact hsame ▸ h rfl
  | [x], k + 3, _, hlen =>
    rw [List.length_singleton] at hlen
    omega
  | [x, y], k + 2, _, hlen =>
    rw [List.length_cons, List.length_singleton] at hlen
    omega
  | x :: y :: z :: acc, k, _, hlen =>
    simp only [List.length_cons] at hlen
    omega

theorem settled_stsAddr (hd : d.WellFormed) (hs : e.state = .stsAddr) (hq : e.rx = [])
    (hacc : e.acc.length < e.need) (hneed : e.need ≤ 3) (hsize : e.dataSize = 1)
    (haddr : e.acc.length = 2 → Spares (leValue e.acc)) (hi : Ident d sib e.mem) :
    Settled d sib (probed e) := by
  have hlen : (preamble.take (e.need - e.acc.length)).length = e.need - e.acc.length :=
    preamble_take_length (by omega)
  have hstoring : Storing e.mem (enqueueAll e.rx (ackBytes .emulator e.mem)) e.repeatNext
      (leValue (e.acc ++ preamble.take (e.need - e.acc.length))) 1
      (e.feed .emulator (preamble.take (e.need - e.acc.length))) := by
    rw [feed_stsAddr hs (by omega) (preamble_take_ne_nil (by omega) (by omega)), pushAck_eq]
    exact ⟨rfl, rfl, rfl, rfl, rfl, rfl, hsize⟩
  refine settled_storing hd (by omega) hstoring hi (spares_completed (by omega) (by omega) haddr) ?_
  rw [hq, ack_emulator, enqueueAll_ack _ (by simp)]
  simp

/-- Whatever an aborted operation leaves behind, the probe settles it. -/
theorem LeftBehind.settled (hd : d.WellFormed) (h : LeftBehind e) (hi : Ident d sib e.mem) :
    Settled d sib (probed e) := by
  cases h with
  | idle hs hq => exact (resumes_idle hs hi).settled (by omega)
  | opcode hs hq => exact settled_opcode hs hq hi
  | stcsVal hs hq ha => exact (resumes_stcsVal hs hq ha hi).settled (by simp)
  | repeatVal hs hq => exact (resumes_repeatVal hs hq hi).settled (by simp)
  | ldsAddr hs hq hacc hneed hsize => exact settled_ldsAddr hs hq hacc hneed hsize hi
  | stsAddr hs hq hacc hneed hsize haddr => exact settled_stsAddr hd hs hq hacc hneed hsize haddr hi
  | stsData hs hq hacc hneed haddr =>
    have hstoring :
        Storing e.mem e.rx e.repeatNext e.curAddr 1 (e.feed .emulator (preamble.take 0)) :=
      ⟨rfl, hs, rfl, rfl, rfl, hacc, hneed⟩
    exact settled_storing hd (by decide) hstoring hi haddr (by omega)
  | stptrAddr hs hq hacc hneed => exact settled_stptrAddr hs hq hacc hneed hi
  | stinc16 hs hq hr hleft hlow hhigh =>
    rcases block_or_resumes hd hs hq hr hleft hlow hhigh hi with ⟨hi', hrx⟩ | h
    · exact ⟨hi', .inl hrx, by rw [hrx]; decide⟩
    · exact h.settled (by simp)
  | key hs hq hneed hacc => exact (resumes_key hs hq hneed hacc hi).settled (by simp)

/-- After an operation that was aborted, a reconnect finds the target again
exactly when what was left behind is recoverable. -/
theorem LeftBehind.recovers_iff (hd : d.WellFormed) {s : SessionState UpdiEmu}
    (h : LeftBehind s.ctx) (hi : Ident d sib s.ctx.mem) :
    Recovers d sib s ↔ Recoverable s.ctx := by
  have hsettled := h.settled hd hi
  exact recovers_iff_recoverable hd hsettled.ident hsettled.idle hsettled.capacity

/-- With nothing else to read, the first answer to the probe is that to the look at STATUSA. -/
theorem Resumes.recoverable (h : Resumes d sib [] e) : Recoverable e := by
  obtain ⟨m, r, k, hk, hi, hat⟩ := h
  have hsplit :
      probed e = (e.feed .emulator (preamble.take k)).feed .emulator (preamble.drop k) := by
    rw [← feed_append, List.take_append_drop]
    rfl
  unfold Recoverable
  rcases Nat.lt_or_eq_of_le hk with hk | rfl
  · obtain ⟨m', hi', h'⟩ := resyncs (Nat.le_of_lt_succ hk) m [] r _ hi hat
    have hrx : (probed e).rx = [m'.cs csStatusa] := by
      rw [hsplit]
      exact h'.rx
    rw [hrx]
    exact .inr (replays_nil _)
  · have h' : At m [] r ((e.feed .emulator (preamble.take 8)).feed .emulator (preamble.drop 8)) :=
      hat.skip (b := 0x80) (by decide)
    have hrx : (probed e).rx = [] := by
      rw [hsplit]
      exact h'.rx
    rw [hrx]
    trivial

theorem LeftBehind.recoverable (hd : d.WellFormed) (h : LeftBehind e) (hi : Ident d sib e.mem)
    (hq : e.rx = []) (hs : e.state = .idle ∨ e.state = .stcsVal ∨ e.state = .repeatVal ∨
      e.state = .stinc16 ∨ e.state = .key) : Recoverable e := by
  cases h with
  | idle hidle _ => exact Resumes.recoverable (hq ▸ resumes_idle hidle hi)
  | stcsVal hstate _ ha => exact (resumes_stcsVal hstate hq ha hi).recoverable
  | repeatVal hstate _ => exact (resumes_repeatVal hstate hq hi).recoverable
  | stinc16 hstate _ hr hleft hlow hhigh =>
    rcases block_or_resumes hd hstate hq hr hleft hlow hhigh hi with ⟨-, hrx⟩ | h
    · unfold Recoverable
      rw [hrx]
      trivial
    · exact h.recoverable
  | key hstate _ hneed hacc => exact (resumes_key hstate hq hneed hacc hi).recoverable
  | opcode hstate => simp [hstate] at hs
  | ldsAddr hstate => simp [hstate] at hs
  | stsAddr hstate => simp [hstate] at hs
  | stsData hstate => simp [hstate] at hs
  | stptrAddr hstate => simp [hstate] at hs

end UpdiProgrammer.HostTest
