import UpdiProgrammer.Ui.VerifyFile
import UpdiProgrammer.HostTest.FlashTrace

namespace UpdiProgrammer.HostTest

open Updi UpdiLink UpdiNvm UpdiSession Library.Program Prog UpdiEmu Ui
open UpdiTransport (Event)

section Transcript

variable {σ α β : Type} {a24 : Bool}

/-- From a link of this width, a normal return is related to the events that it leaves behind. -/
def Shows (a24 : Bool) (m : LinkM (σ × List Event) α) (Q : α → List Event → Prop) : Prop :=
  EmitsWhile (Width a24) linkLog m fun l r ↦ ∀ a, r = .ok a → Q a l

theorem Shows.bind {m : LinkM (σ × List Event) α} {k : α → LinkM (σ × List Event) β}
    {P : α → List Event → Prop} {J : α → β → List Event → Prop} {K : β → List Event → Prop}
    (hm : Shows a24 m P) (hk : ∀ a, Shows a24 (k a) (J a))
    (hK : ∀ a b' l l', P a l → J a b' l' → K b' (l ++ l')) : Shows a24 (m >>= k) K := by
  refine EmitsWhile.bind hm hk (fun _ _ _ _ h ↦ (by cases h)) fun l l' a r hl hl' b' hb ↦ ?_
  exact hK a b' l l' (hl a rfl) (hl' b' hb)

theorem shows_pure {a : α} {Q : α → List Event → Prop} (h : Q a []) :
    Shows a24 (pure a : LinkM (σ × List Event) α) Q := .pure fun _ hb ↦ Except.ok.inj hb ▸ h

theorem shows_fail {e : UpdiErr} {Q : α → List Event → Prop} :
    Shows a24 (fail e : LinkM (σ × List Event) α) Q :=
  .fail fun _ h ↦ (by cases h)

variable (t : UpdiTransport σ)

theorem shows_send (data : List UInt8) :
    Shows a24 (UpdiLink.send t.recorded data) fun _ l ↦ l = [.sent data true] := by
  refine EmitsWhile.mono (.of_emits (emits_send t data) fun s hs ↦ ?_) fun l r hl a ha ↦ ?_
  · unfold Width at hs ⊢
    rwa [send_link]
  · rcases hl with ⟨rfl, -⟩ | ⟨-, rfl⟩
    · rfl
    · cases ha

theorem shows_recvRaw (len : ℕ) :
    Shows a24 (recvRaw t.recorded len) fun buf l ↦ l = [.received len buf] := by
  refine EmitsWhile.mono (.of_emits (emits_recvRaw t len) fun s hs ↦ hs) fun l r hl a ha ↦ ?_
  obtain ⟨buf, -, rfl, rfl⟩ := hl
  rw [Except.ok.inj ha]

theorem shows_recvAck : Shows a24 (recvAck t.recorded) fun _ l ↦ l = [.received 1 [phyAck]] := by
  have hjudge (buf : List UInt8) : Shows a24 (if buf = [phyAck] then pure () else fail .nack)
      fun _ l ↦ buf = [phyAck] ∧ l = ([] : List Event) :=
    .ite (fun hack ↦ shows_pure (σ := σ) ⟨hack, rfl⟩) fun _ ↦ shows_fail
  refine (shows_recvRaw t 1).bind hjudge ?_
  rintro buf _ l l' rfl ⟨rfl, rfl⟩
  rfl

theorem shows_recvAll (len : ℕ) :
    Shows a24 (recvAll t.recorded len) fun buf l ↦ buf.length = len ∧ l = [.received len buf] := by
  have hjudge (buf : List UInt8) : Shows a24 (if buf.length = len then pure buf else fail .timeout)
      fun buf' l ↦ buf' = buf ∧ buf.length = len ∧ l = ([] : List Event) :=
    .ite (fun hlen ↦ shows_pure (σ := σ) ⟨rfl, hlen, rfl⟩) fun _ ↦ shows_fail
  refine (shows_recvRaw t len).bind hjudge ?_
  rintro buf _ l l' rfl ⟨rfl, hlen, rfl⟩
  exact ⟨hlen, rfl⟩

/-- What a block read of these bytes leaves in the record: the pointer set and
acknowledged, the count of bytes, and all of them in answer to one load. -/
def readEvents (a24 : Bool) (address : ℕ) (bytes : List UInt8) : List Event :=
  [.sent ([phySync, updiSt ||| ptrAddress ||| (if a24 then data24 else data16)] ++
    putAddress a24 address) true, .received 1 [phyAck]] ++
  (if 1 < bytes.length then
    [.sent [phySync, updiRepeat ||| repeatByte, UInt8.ofNat (bytes.length - 1)] true] else []) ++
  [.sent [phySync, updiLd ||| ptrInc ||| data8] true, .received bytes.length bytes]

theorem shows_stPtr (address : ℕ) : Shows a24 (stPtr t.recorded address) fun _ l ↦ l =
    [.sent ([phySync, updiSt ||| ptrAddress ||| (if a24 then data24 else data16)] ++
      putAddress a24 address) true, .received 1 [phyAck]] := by
  refine while_addr24 ((shows_send t _).bind (fun _ ↦ shows_recvAck t) ?_)
  rintro _ _ l l' rfl rfl
  rfl

theorem shows_ldPtrInc (size : ℕ) : Shows a24 (ldPtrInc t.recorded size) fun buf l ↦
    buf.length = size ∧
      l = [.sent [phySync, updiLd ||| ptrInc ||| data8] true, .received size buf] := by
  refine (shows_send t _).bind (fun _ ↦ shows_recvAll t size) ?_
  rintro _ buf l l' rfl ⟨hlen, rfl⟩
  exact ⟨hlen, rfl⟩

theorem shows_repeatCount (count : ℕ) : Shows a24 (repeatCount t.recorded count) fun _ l ↦
    l = [.sent [phySync, updiRepeat ||| repeatByte, UInt8.ofNat (count - 1)] true] :=
  .ite (fun _ ↦ shows_fail) fun _ ↦ shows_send t _

theorem shows_readData (address size : ℕ) :
    Shows a24 (readData t.recorded address size) fun bytes l ↦
    bytes.length = size ∧ l = readEvents a24 address bytes := by
  have hload : Shows a24 (do
        if 1 < size then repeatCount t.recorded size
        ldPtrInc t.recorded size) fun bytes l ↦
      bytes.length = size ∧
        l = (if 1 < size then
          [.sent [phySync, updiRepeat ||| repeatByte, UInt8.ofNat (size - 1)] true] else []) ++
          [.sent [phySync, updiLd ||| ptrInc ||| data8] true, .received size bytes] := by
    by_cases hsize : 1 < size
    · simp only [if_pos hsize]
      refine (shows_repeatCount t size).bind (fun _ ↦ shows_ldPtrInc t size) ?_
      rintro _ bytes l l' rfl ⟨hlen, rfl⟩
      exact ⟨hlen, rfl⟩
    · simp only [if_neg hsize]
      exact shows_ldPtrInc t size
  refine .ite (fun _ ↦ shows_fail) fun _ ↦ (shows_stPtr t address).bind (fun _ ↦ hload) ?_
  rintro _ bytes l l' rfl ⟨rfl, rfl⟩
  refine ⟨rfl, ?_⟩
  rw [readEvents, List.append_assoc]

theorem shows_read (address : ℕ) {size : ℕ} (hpos : 0 < size) (hmax : size ≤ maxRepeatSize) :
    Shows a24 (UpdiNvm.read t.recorded address size) fun bytes l ↦
      bytes.length = size ∧ l = readEvents a24 address bytes := by
  obtain ⟨n, rfl⟩ := Nat.exists_eq_succ_of_ne_zero (Nat.ne_of_gt hpos)
  have hend : ∀ fuel address, readChunks t.recorded fuel address 0 =
      (pure [] : LinkM (σ × List Event) (List UInt8)) := by
    intro fuel address
    cases fuel <;> rfl
  rw [UpdiNvm.read, readChunks, if_neg (Nat.succ_ne_zero n), Nat.min_eq_left hmax]
  dsimp only
  rw [Nat.sub_self, hend]
  have hlast (bytes : List UInt8) :
      Shows a24 (do let rest ← pure []; pure (bytes ++ rest) : LinkM (σ × List Event) _)
      fun bytes' l ↦ bytes' = bytes ∧ l = [] := shows_pure (σ := σ) ⟨List.append_nil bytes, rfl⟩
  refine (shows_readData t address (n + 1)).bind hlast ?_
  rintro bytes _ l l' ⟨hlen, rfl⟩ ⟨rfl, rfl⟩
  exact ⟨hlen, List.append_nil _⟩

/-- The block reads of a verify that every byte of `data` passes. -/
def verifyEvents (a24 : Bool) (flashAddress : ℕ) : (fuel off : ℕ) → (data : List UInt8) → List Event
  | 0, _, _ => []
  | fuel + 1, off, data =>
    if data.length = 0 then []
    else
      let chunk := min data.length readChunk
      readEvents a24 (flashAddress + off) (data.take chunk) ++
        verifyEvents a24 flashAddress fuel (off + chunk) (data.drop chunk)

theorem take_of_no_difference {off : ℕ} {data rb : List UInt8} (hlen : rb.length ≤ data.length)
    (h : firstDifference off data rb = none) : rb = data.take rb.length := by
  induction rb generalizing off data with
  | nil => rfl
  | cons actual rb ih =>
    cases data with
    | nil => cases hlen
    | cons expected data =>
      rw [firstDifference] at h
      split_ifs at h with hne
      obtain rfl := not_not.mp hne
      rw [List.length_cons, List.take_succ_cons, ← ih (Nat.le_of_succ_le_succ hlen) h]

theorem shows_verifyChunks (flashAddress fuel off : ℕ) (data : List UInt8)
    (hfuel : data.length ≤ fuel) :
    Shows a24 (verifyChunks t.recorded flashAddress fuel off data) fun r l ↦
      r = none → l = verifyEvents a24 flashAddress fuel off data := by
  induction fuel generalizing off data with
  | zero => exact shows_pure fun _ ↦ rfl
  | succ fuel ih =>
    rw [verifyChunks, verifyEvents]
    by_cases h0 : data.length = 0
    · rw [if_pos h0, if_pos h0]
      exact shows_pure fun _ ↦ rfl
    rw [if_neg h0, if_neg h0]
    have hmax : readChunk = maxRepeatSize := rfl
    have hpos : 0 < maxRepeatSize := by decide
    dsimp only
    generalize hchunk : min data.length readChunk = chunk
    refine (shows_read t (flashAddress + off) (by omega) (by omega)).bind
      (J := fun rb r l ↦ r = none →
      firstDifference off data rb = none ∧
        l = verifyEvents a24 flashAddress fuel (off + chunk) (data.drop chunk))
      (fun rb ↦ ?_) ?_
    · cases firstDifference off data rb with
      | some m => exact shows_pure fun h ↦ (by cases h)
      | none =>
        refine EmitsWhile.mono (ih (off + chunk) (data.drop chunk) ?_) fun l r hl a ha hnone ↦
          ⟨rfl, hl a ha hnone⟩
        rw [List.length_drop]
        omega
    · rintro rb r l l' ⟨hlen, rfl⟩ hrest hnone
      obtain ⟨hsame, rfl⟩ := hrest hnone
      have htake := take_of_no_difference (by omega) hsame
      rw [hlen] at htake
      rw [← htake]

end Transcript

/-- The status of a verify, and what the caller's mismatch holds after it. -/
def verifyOutcome (r : Except Halt (Option UpdiVerifyMismatch)) (mismatch : UpdiVerifyMismatch) :
    Except Halt Unit × UpdiVerifyMismatch :=
  match r with
  | .ok none => (.ok (), mismatch)
  | .ok (some found) => (.error (.status .verify), found)
  | .error e => (.error e, mismatch)

/-- The outcome says whether `flash` starts with `data`, and where it first does not. -/
structure Compares (flash : ℕ → UInt8) (data : List UInt8) (mismatch : UpdiVerifyMismatch)
    (outcome : Except Halt Unit × UpdiVerifyMismatch) : Prop where
  pass : outcome.1 = .ok () ↔ ∀ i b, data[i]? = some b → flash i = b
  fail : (∃ i b, data[i]? = some b ∧ flash i ≠ b) → outcome.1 = .error (.status .verify) ∧
    data[outcome.2.offset]? = some outcome.2.expected ∧ flash outcome.2.offset = outcome.2.actual ∧
    outcome.2.actual ≠ outcome.2.expected ∧ ∀ i < outcome.2.offset, ∀ b, data[i]? = some b →
      flash i = b
  untouched : outcome.1 ≠ .error (.status .verify) → outcome.2 = mismatch

theorem map_getD_range (data : List UInt8) :
    (List.range' 0 data.length).map (data.getD · 0) = data := by
  refine List.ext_getElem (by simp) fun i h h' ↦ ?_
  simp [List.getD_eq_getElem?_getD, h']

theorem compares_firstMismatch (flash : ℕ → UInt8) (data : List UInt8)
    (mismatch : UpdiVerifyMismatch) :
    Compares flash data mismatch
      (verifyOutcome (.ok (firstMismatch (data.getD · 0) flash 0 data.length)) mismatch) := by
  have hat {i : ℕ} {b : UInt8} (h : data[i]? = some b) : i < data.length ∧ data.getD i 0 = b :=
    ⟨(List.getElem?_eq_some_iff.mp h).1, by rw [List.getD_eq_getElem?_getD, h]; rfl⟩
  cases hm : firstMismatch (data.getD · 0) flash 0 data.length with
  | none =>
    have hsame : ∀ i b, data[i]? = some b → flash i = b := by
      intro i b h
      obtain ⟨hi, rfl⟩ := hat h
      exact firstMismatch_eq_none hm i (Nat.zero_le i) (by omega)
    refine ⟨⟨fun _ ↦ hsame, fun _ ↦ rfl⟩, ?_, fun _ ↦ rfl⟩
    rintro ⟨i, b, h, hne⟩
    exact absurd (hsame i b h) hne
  | some found =>
    obtain ⟨k, -, hrange, rfl, hdiffer, hfirst⟩ := firstMismatch_eq_some hm
    have hlt : k < data.length := by omega
    have hdata : data[k]? = some (data.getD k 0) := by
      rw [List.getD_eq_getElem?_getD, List.getElem?_eq_getElem hlt]
      rfl
    refine ⟨⟨fun h ↦ (by cases h), fun hall ↦ absurd (hall k _ hdata) hdiffer⟩, fun _ ↦ ?_,
      fun h ↦ absurd rfl h⟩
    refine ⟨rfl, hdata, rfl, hdiffer, fun i hi b hb ↦ ?_⟩
    obtain ⟨-, rfl⟩ := hat hb
    exact hfirst i (Nat.zero_le i) hi

variable {d : UpdiDevice}

/-- A link in step with a part reads its flash, and leaves its memory as it is. -/
theorem inStep_readsFaithfully {a24 : Bool} {m : EmuMem} (hd : d.WellFormed) (hc : Configured d m)
    (hfit : d.flashAddress + d.flashSize ≤ addressSpace a24) :
    ReadsFaithfully (emuTransport .emulator) d m.flash (InStep a24 m) := by
  intro s off len hs hlen
  exact Ui.Worker.read_programmed hd hfit ⟨hc, rfl, fun _ _ ↦ rfl⟩ hs hlen

theorem flash_addressable (hd : d.WellFormed) :
    d.flashAddress + d.flashSize ≤ addressSpace (d.addressBytes == 3) := by
  have hfits := hd.flash_fits
  rw [hd.addressBytes]
  by_cases hv : d.nvmVariant = .p0
  · rw [if_pos hv] at hfits ⊢
    exact hfits
  · rw [if_neg hv] at hfits ⊢
    exact hfits

theorem verifyFlash_connected {σ : Type} (t : UpdiTransport σ) {s : SessionState σ}
    (hs : s.session.connected = true) (hdev : s.session.device = some d) (data : List UInt8) :
    verifyFlash t data s =
      onLink (verifyChunks t d.flashAddress data.length 0 data) s := by
  have hcd : connectedDevice s = (.ok d, s) := by
    unfold connectedDevice
    rw [hs, hdev]
  exact bind_ok hcd _

/-- Over a part that serves its flash a verify is exact and leaves the part as it
is. Over any target it passes only after block reads that were answered with all
the bytes of the image. -/
theorem verify_exact (hmem : d ∈ deviceTable) {data : List UInt8} (hlen : data.length ≤ d.flashSize)
    (mismatch : UpdiVerifyMismatch) :
    (∀ s : SessionState UpdiEmu, s.session.connected = true → s.session.device = some d →
      s.session.link.addressBytes = d.addressBytes → Configured d s.ctx.mem →
        At s.ctx.mem [] 0 s.ctx →
      Compares s.ctx.mem.flash data mismatch
          (verifyOutcome (verifyFlash (emuTransport .emulator) data s).1 mismatch) ∧
        (verifyFlash (emuTransport .emulator) data s).2.ctx.mem = s.ctx.mem) ∧
    ∀ (σ : Type) (t : UpdiTransport σ) (s : SessionState (σ × List Event)),
      s.session.connected = true → s.session.device = some d →
      ((verifyOutcome (verifyFlash t.recorded data s).1 mismatch).1 ≠ .error (.status .verify) →
        (verifyOutcome (verifyFlash t.recorded data s).1 mismatch).2 = mismatch) ∧
      ((verifyOutcome (verifyFlash t.recorded data s).1 mismatch).1 = .ok () →
        sessionLog (verifyFlash t.recorded data s).2 = sessionLog s ++
          verifyEvents (s.session.link.addressBytes == 3) d.flashAddress data.length 0 data) := by
  have hd := UpdiDevice.wellFormed_of_mem hmem
  constructor
  · intro s hs hdev hwidth hc hat
    have hstep : InStep (d.addressBytes == 3) s.ctx.mem ⟨s.session.link, s.ctx⟩ :=
      ⟨by rw [hwidth], hat⟩
    obtain ⟨l, hverify, hl⟩ :=
      verifyChunks_faithful (inStep_readsFaithfully hd hc (flash_addressable hd))
      (data.getD · 0) data.length 0 data.length (Nat.le_refl _) (by omega) hstep
    rw [map_getD_range] at hverify
    rw [verifyFlash_connected _ hs hdev, onLink_ok hverify]
    exact ⟨compares_firstMismatch _ _ _, hl.target.mem⟩
  · intro σ t s hs hdev
    constructor
    · intro hne
      generalize (verifyFlash t.recorded data s).1 = r at hne ⊢
      rcases r with e | found
      · rfl
      · cases found with
        | none => rfl
        | some found => exact absurd rfl hne
    · intro hok
      obtain ⟨l, hlog, -, hl⟩ :=
        shows_verifyChunks t d.flashAddress data.length 0 data (Nat.le_refl _)
        ⟨s.session.link, s.ctx⟩ rfl
      rw [verifyFlash_connected _ hs hdev] at hok ⊢
      unfold onLink at hok ⊢
      rw [zoom_run] at hok ⊢
      generalize verifyChunks t.recorded d.flashAddress data.length 0 data ⟨s.session.link, s.ctx⟩ =
        run at hok hlog hl ⊢
      rcases run with ⟨e | found, s'⟩
      · cases hok
      · cases found with
        | none => exact hlog.trans (congrArg _ (hl none rfl rfl))
        | some found => cases hok

def attiny412Session {σ : Type} (ctx : σ) : SessionState σ :=
  ⟨{ UpdiSession.init with device := some attiny412, connected := true }, ctx⟩

theorem verify_exact_attiny412 :
    (Compares freshAttiny412.mem.flash [0x0C, 0x94] ⟨0, 0, 0⟩
        (verifyOutcome (verifyFlash (emuTransport .emulator) [0x0C, 0x94]
          (attiny412Session freshAttiny412)).1 ⟨0, 0, 0⟩) ∧
      (verifyFlash (emuTransport .emulator) [0x0C, 0x94]
        (attiny412Session freshAttiny412)).2.ctx.mem =
        freshAttiny412.mem) ∧
    ((verifyOutcome (verifyFlash UpdiTransport.silent.recorded [0x0C] (attiny412Session ((), []))).1
      ⟨0, 0, 0⟩).1 = .ok () →
      sessionLog (verifyFlash UpdiTransport.silent.recorded [0x0C] (attiny412Session ((), []))).2 =
        [] ++ verifyEvents false 0x8000 1 0 [0x0C]) :=
  ⟨(verify_exact (d := attiny412) (by decide) (by decide) ⟨0, 0, 0⟩).1
      (attiny412Session freshAttiny412) rfl rfl rfl
      ⟨rfl, rfl, rfl, rfl, rfl, rfl, rfl, rfl⟩ ⟨rfl, rfl, rfl, rfl⟩,
    ((verify_exact (d := attiny412) (by decide) (by decide) ⟨0, 0, 0⟩).2 Unit .silent
      (attiny412Session ((), [])) rfl rfl).2⟩

end UpdiProgrammer.HostTest
