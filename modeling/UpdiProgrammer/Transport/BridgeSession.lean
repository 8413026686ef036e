import UpdiProgrammer.HostTest.PartRun
import UpdiProgrammer.Transport.BridgeNvm

namespace UpdiProgrammer.Transport

open Updi HostTest UpdiLink UpdiSession UpdiEmu TransportFuri
open Library.Program Library.Simulation Prog

/-- Two sessions in the same state, over links at ease. -/
abbrev SessionAtEase : SessionState UpdiEmu → SessionState Bridge → Prop := OverSession AtEase

variable {α : Type} {t : UpdiTransport Bridge}

/-- Two sessions at ease, the one with the emulated part embodying a bench. -/
def Bridged (d : UpdiDevice) (m₀ : EmuMem) (s : SessionState UpdiEmu) (u : SessionState Bridge) :
    Prop :=
  SessionAtEase s u ∧ ∃ b, Embodies d m₀ b s

variable {d : UpdiDevice} {m₀ : EmuMem}

theorem Bridged.session {s : SessionState UpdiEmu} {u : SessionState Bridge}
    (h : Bridged d m₀ s u) :
    s.session = u.session := h.1.session

theorem bridged_of_returns {x : SessionM UpdiEmu α} {y : SessionM Bridge α}
    (h : Follows SessionAtEase x y)
    (hreturns : ∀ s b, Embodies d m₀ b s → ∃ a b', Returns x s a (Embodies d m₀ b')) :
    Agrees (Bridged d m₀) x y := by
  apply h.agrees
  rintro s ⟨b, hb⟩
  obtain ⟨a, b', hrun⟩ := hreturns s b hb
  exact ⟨a, hrun.mono fun _ hb' ↦ ⟨b', hb'⟩⟩

theorem bridged_connected {k : UpdiDevice → SessionM UpdiEmu α} {j : UpdiDevice → SessionM Bridge α}
    (h : Follows SessionAtEase (connectedDevice >>= k) (connectedDevice >>= j))
    (hreturns : ∀ s b, b.contact = .connected → Embodies d m₀ b s →
      ∃ a b', Returns (connectedDevice >>= k) s a (Embodies d m₀ b')) :
    Agrees (Bridged d m₀) (connectedDevice >>= k) (connectedDevice >>= j) := by
  rintro s u ⟨hR, b, hb⟩
  by_cases hc : b.contact = .connected
  · obtain ⟨a, b', s', hx, hb'⟩ := hreturns s b hc hb
    obtain ⟨u', hy, hR'⟩ := h s u hR a s' hx
    rw [hx, hy]
    exact ⟨rfl, hR', b', hb'⟩
  · have hrefused := hb.connectedDevice_refuses hc
    rw [bind_error hrefused, bind_error (connectedDevice_congr hR.session hrefused)]
    exact ⟨rfl, hR, b, hb⟩

section Bridged

variable (ht : InTime t) (hmem : d ∈ deviceTable)
include ht

theorem bridged_disconnect :
    Agrees (Bridged d m₀) (UpdiSession.disconnect (emuTransport .emulator))
      (UpdiSession.disconnect t) :=
  bridged_of_returns (.of_agrees (agrees_disconnect ht.link)) fun _ _ hb ↦
    ⟨(), _, embodies_disconnect hb⟩

theorem bridged_unlock :
    Agrees (Bridged d m₀) (UpdiSession.unlock (emuTransport .emulator)) (UpdiSession.unlock t) :=
  bridged_of_returns (compares_unlockSession ht.compared) fun _ _ hb ↦
    ⟨(), _, hb.onLink rfl (held_unlock hb.line)⟩

include hmem

theorem bridged_connect :
    Agrees (Bridged d m₀) (UpdiSession.connect (emuTransport .emulator)) (UpdiSession.connect t) :=
  bridged_of_returns (compares_connect ht.compared) fun _ _ hb ↦ ⟨(), _, embodies_connect hmem hb⟩

theorem bridged_chipErase :
    Agrees (Bridged d m₀) (UpdiSession.chipErase (emuTransport .emulator))
      (UpdiSession.chipErase t) := by
  rintro s u ⟨hR, b, hb⟩
  by_cases hc : b.contact = .unknown
  · have hnone : s.session.device = none := hb.unknown hc
    have hrun {σ : Type} (t : UpdiTransport σ) (s : SessionState σ) (h : s.session.device = none) :
        UpdiSession.chipErase t s = (.error (.status .param), s) := by
      rw [UpdiSession.chipErase, Prog.read_bind_run, h]
      rfl
    rw [hrun _ s hnone, hrun _ u (hR.session ▸ hnone)]
    exact ⟨rfl, hR, b, hb⟩
  · obtain ⟨s', hx, hb'⟩ := embodies_chipErase hmem hb hc
    obtain ⟨u', hy, hR'⟩ := compares_eraseChip ht.compared s u hR () s' hx
    rw [hx, hy]
    exact ⟨rfl, hR', _, hb'⟩

theorem bridged_writeFlash {image : List UInt8} (hlen : image.length ≤ d.flashSize) :
    Agrees (Bridged d m₀) (writeFlash (emuTransport .emulator) image) (writeFlash t image) :=
  bridged_connected (compares_writeFlash ht.compared image) fun _ _ hc hb ↦
    ⟨(), _, embodies_writeFlash hmem hb hc hlen⟩

theorem bridged_verifyFlash {image : List UInt8} (hlen : image.length ≤ d.flashSize) :
    Agrees (Bridged d m₀) (verifyFlash (emuTransport .emulator) image) (verifyFlash t image) :=
  bridged_connected (.of_agrees (agrees_verifyFlash ht.link image)) fun _ _ hc hb ↦
    ⟨_, _, embodies_verifyFlash hmem hb hc hlen⟩

theorem bridged_readFlash {len : ℕ} (hlen : len ≤ d.flashSize) :
    Agrees (Bridged d m₀) (readFlash (emuTransport .emulator) len) (readFlash t len) :=
  bridged_connected (.of_agrees (agrees_readFlash ht.link len)) fun _ _ hc hb ↦
    ⟨_, _, embodies_readFlash hmem hb hc hlen⟩

theorem bridged_readFuses (count : ℕ) :
    Agrees (Bridged d m₀) (readFuses (emuTransport .emulator) count) (readFuses t count) :=
  bridged_connected (.of_agrees (agrees_readFuses ht.link count)) fun _ _ hc hb ↦
    ⟨_, _, embodies_readFuses hmem hb hc count⟩

theorem bridged_writeFuse (index value : UInt8) :
    Agrees (Bridged d m₀) (writeFuse (emuTransport .emulator) index value)
      (writeFuse t index value) := by
  by_cases hindex : index.toNat < d.fusesSize
  · exact bridged_connected (compares_sessionWriteFuse ht.compared index value) fun _ _ hc hb ↦
      ⟨(), _, embodies_writeFuse hmem hb hc hindex value⟩
  · rintro s u ⟨hR, b, hb⟩
    by_cases hc : b.contact = .connected
    · -- the index is refused before anything is sent
      have hdevice := hb.connectedDevice_run hc
      have hbound := hb.boundDevice_run (known_of_connected hc)
      rw [writeFuse_refused _ hdevice hbound (Nat.le_of_not_lt hindex),
        writeFuse_refused _ (connectedDevice_congr hR.session hdevice)
          (boundDevice_congr hR.session hbound) (Nat.le_of_not_lt hindex)]
      exact ⟨rfl, hR, b, hb⟩
    · have hrefused := hb.connectedDevice_refuses hc
      rw [writeFuse, writeFuse, bind_error hrefused,
        bind_error (connectedDevice_congr hR.session hrefused)]
      exact ⟨rfl, hR, b, hb⟩

/-- One call: over the bridge it is answered as over the emulator by itself. -/
theorem ask_bridged :
    Simulates (SessionOp.InFlash d) (Bridged d m₀) (SessionOp.ask (emuTransport .emulator))
    (SessionOp.ask t) := by
  intro op s u hop h
  cases op with
  | connect => exact (bridged_connect ht hmem).bind (fun _ ↦ .pure) s u h
  | unlock => exact (bridged_unlock ht).bind (fun _ ↦ .pure) s u h
  | disconnect => exact (bridged_disconnect ht).bind (fun _ ↦ .pure) s u h
  | chipErase => exact (bridged_chipErase ht hmem).bind (fun _ ↦ .pure) s u h
  | writeFlash image => exact (bridged_writeFlash ht hmem hop).bind (fun _ ↦ .pure) s u h
  | verifyFlash image => exact (bridged_verifyFlash ht hmem hop).bind (fun _ ↦ .pure) s u h
  | readFlash len => exact (bridged_readFlash ht hmem hop).bind (fun _ ↦ .pure) s u h
  | readFuses count => exact (bridged_readFuses ht hmem count).bind (fun _ ↦ .pure) s u h
  | writeFuse index value =>
    exact (bridged_writeFuse ht hmem index value).bind (fun _ ↦ .pure) s u h

end Bridged

/-- A transport as it is allocated, with a part on its line. -/
def Bridge.attached (e : UpdiEmu) : Bridge := ⟨TransportFuri.alloc, e, 0⟩

theorem carries_attached {e : UpdiEmu} (hrx : e.rx = []) : Carries e (Bridge.attached e) := by
  refine ⟨⟨e.nowMs, ?_⟩, hrx.symm, rfl, Nat.zero_le _⟩
  rw [← hrx]
  rfl

theorem bridged_fresh {e : UpdiEmu} (he : Fresh e) (ht : TargetOf d e.mem) :
    Bridged d e.mem ⟨UpdiSession.init, e⟩ ⟨UpdiSession.init, Bridge.attached e⟩ :=
  ⟨⟨rfl, ⟨rfl, rfl, carries_attached he.rx⟩, rfl, he.state, he.rx, he.repeatNext⟩, _,
    embodies_fresh he ht⟩

/-- What a session over the bridge leaves behind: a part with the memories of the
bench, and nothing on the line or in the stream buffer, which has dropped nothing. -/
structure Bridge.Settled (d : UpdiDevice) (m₀ : EmuMem) (b : Bench) (c : Bridge) : Prop where
  part : Resembles d m₀ b c.target.mem
  whole : c.tr.overflowed = false
  quiet : c.tr.fifo = []

theorem Bridged.settled {b : Bench} {s : SessionState UpdiEmu} {u : SessionState Bridge}
    (h : SessionAtEase s u) (hm : Resembles d m₀ b s.ctx.mem) : u.ctx.Settled d m₀ b := by
  obtain ⟨n, hn⟩ := h.line.1.carries.target
  refine ⟨?_, h.line.1.carries.roomy.1, ?_⟩
  · rw [hn]
    exact hm
  · exact List.map_eq_nil_iff.mp (h.line.1.carries.fifo.trans h.line.2.rx)

/-- However the line keeps time, as long as it keeps it: the session over the
transport gives the bench's answers to every sequence of calls, leaves the part as
the bench is left, and its line as it found it. -/
theorem bridge_refines_bench (hmem : d ∈ deviceTable) {msToTicks : ℕ → UInt32} {paces : Paces}
    (htimely : paces.Timely msToTicks) (freq : UInt32) {e : UpdiEmu} (he : Fresh e)
    (ht : TargetOf d e.mem) {ops : List SessionOp} (hops : ∀ op ∈ ops, op.InFlash d) :
    (answers (SessionOp.ask (Bridge.iface .emulator msToTicks freq paces)) ops
        ⟨UpdiSession.init, Bridge.attached e⟩).1 =
          (answers (Bench.step d) ops (Bench.fresh d e.mem)).1 ∧
      (answers (SessionOp.ask (Bridge.iface .emulator msToTicks freq paces)) ops
        ⟨UpdiSession.init, Bridge.attached e⟩).2.ctx.Settled d e.mem
          (answers (Bench.step d) ops (Bench.fresh d e.mem)).2 := by
  have hbridge := @ask_bridged _ d e.mem (@inTime_iface msToTicks freq paces htimely) hmem
  have hstart := embodies_fresh he ht
  obtain ⟨hsame, s, hend, hheld⟩ :=
    (hbridge.symm.trans (ask_simulates hmem)).run
      ⟨⟨UpdiSession.init, e⟩, bridged_fresh he ht, hstart⟩ hops
  refine ⟨hsame, Bridged.settled hend.1 ?_⟩
  obtain ⟨m, hm, hstep⟩ := hheld.line
  rw [hstep.target.mem]
  exact hm

/-- Every byte comes in when it is waited for, and one at a time. -/
def oneByOne : Paces :=
  let pace : Pace := ⟨fun _ ↦ 0, fun _ ↦ 0, fun _ ↦ true⟩
  ⟨fun _ ↦ pace, fun _ ↦ pace, fun _ ↦ pace⟩

theorem oneByOne_timely : oneByOne.Timely UInt32.ofNat := by
  have htimeout : (0 : UInt32) < 0 + UInt32.ofNat UpdiLink.init.timeoutMs := by decide
  exact ⟨fun _ _ ↦ rfl, fun _ _ ↦ rfl, fun _ _ ↦ rfl, fun _ _ ↦ htimeout⟩

def calls412 : List SessionOp :=
  [.readFlash 2, .connect, .writeFlash [1, 2], .writeFuse 7 0x5A, .readFuses 16,
    .disconnect, .chipErase]

theorem attiny412_bridge_refines_bench :
    (answers (SessionOp.ask (Bridge.iface .emulator UInt32.ofNat 1000 oneByOne)) calls412
        ⟨UpdiSession.init, Bridge.attached freshAttiny412⟩).1 =
      (answers (Bench.step attiny412) calls412 (Bench.fresh attiny412 freshAttiny412.mem)).1 ∧
      (answers (SessionOp.ask (Bridge.iface .emulator UInt32.ofNat 1000 oneByOne)) calls412
        ⟨UpdiSession.init, Bridge.attached freshAttiny412⟩).2.ctx.Settled attiny412
          freshAttiny412.mem
          (answers (Bench.step attiny412) calls412 (Bench.fresh attiny412 freshAttiny412.mem)).2 :=
  bridge_refines_bench (by decide) oneByOne_timely 1000 ⟨rfl, rfl, rfl, by decide⟩
    ⟨⟨rfl, rfl, rfl, rfl, rfl, rfl, rfl, rfl⟩, rfl, by decide⟩
      (by simp [calls412, SessionOp.InFlash, attiny412])

end UpdiProgrammer.Transport
