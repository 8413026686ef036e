import UpdiProgrammer.HostTest.Abort
import UpdiProgrammer.HostTest.FlashTrace
import UpdiProgrammer.Updi.Calls

namespace UpdiProgrammer.HostTest

open Updi UpdiLink UpdiNvm UpdiSession Library.Program UpdiEmu

/-- An operation that can be cut short anywhere: it starts and ends between
instructions, with nothing to read, or leaves a target that can be told apart. -/
abbrev Abortable (d : UpdiDevice) (sib : List UInt8) (a24 : Bool) {α : Type} (m : LinkM Line α) :
    Prop :=
  Keeps d sib a24 (Waiting (Ident d sib) 0) m (Waiting (Ident d sib) 0)

variable {d : UpdiDevice} {sib : List UInt8} {f : Fault} {a24 : Bool} {α : Type} {m : EmuMem}

theorem abortable_fail {err : UpdiErr} : Abortable d sib a24 (Prog.fail err : LinkM Line α) :=
  Keeps.fail fun _ h ↦ h

theorem abortable_ofStatus (r : Except UpdiErr α) :
    Abortable d sib a24 (Prog.ofStatus r : LinkM Line α) := by
  cases r with
  | ok a => exact .pure
  | error err => exact abortable_fail

theorem abortable_nvmReset (apply : Bool) :
    Abortable d sib a24 (nvmReset (abortTransport f) apply) :=
  keeps_stcs_waiting (by decide) _

theorem abortable_initSessionParams : Abortable d sib a24 (initSessionParams (abortTransport f)) :=
  (keeps_stcs_waiting (by decide) _).bind fun _ ↦ keeps_enableAck

theorem abortable_checkDatalink : Abortable d sib a24 (checkDatalink (abortTransport f)) := by
  refine (keeps_ldcs csStatusa).attempt.bind fun r ↦ ?_
  cases r with
  | ok statusa => exact .pure
  | error err => exact .pure

theorem abortable_activate : Abortable d sib a24 (activate (abortTransport f)) := by
  refine keeps_break.bind fun _ ↦ abortable_initSessionParams.attempt.bind fun _ ↦ ?_
  refine abortable_checkDatalink.bind fun live ↦ .ite (fun _ ↦ .pure) fun _ ↦ ?_
  refine keeps_doubleBreak.bind fun _ ↦ abortable_initSessionParams.attempt.bind fun _ ↦ ?_
  exact abortable_checkDatalink.bind fun live ↦ .ite (fun _ ↦ .pure) fun _ ↦ abortable_fail

theorem abortable_readSibInfo : Abortable d sib a24 (readSibInfo (abortTransport f)) :=
  keeps_readSib.bind fun _ ↦ .ite (fun _ ↦ abortable_fail) fun _ ↦ .pure

theorem abortable_inProgmode : Abortable d sib a24 (inProgmode (abortTransport f)) := by
  refine (keeps_ldcs asiSysStatus).attempt.bind fun r ↦ ?_
  cases r with
  | ok status => exact .pure
  | error err => exact .pure

theorem abortable_waitUnlockedLoop (timeoutMs start : UInt32) (iters : ℕ) :
    Abortable d sib a24 (waitUnlockedLoop (abortTransport f) timeoutMs start iters) := by
  induction iters with
  | zero => exact .pure
  | succ iters ih =>
    rw [waitUnlockedLoop]
    refine (keeps_ldcs asiSysStatus).attempt.bind fun r ↦ .ite (fun _ ↦ .pure) fun _ ↦ ?_
    exact keeps_millis.bind fun now ↦ .ite (fun _ ↦ .pure) fun _ ↦ ih

theorem abortable_waitUnlocked (timeoutMs : UInt32) :
    Abortable d sib a24 (waitUnlocked (abortTransport f) timeoutMs) :=
  keeps_millis.bind fun start ↦ abortable_waitUnlockedLoop timeoutMs start _

theorem abortable_applyNvmprogKey : Abortable d sib a24 (applyNvmprogKey (abortTransport f)) := by
  refine (abortable_nvmReset true).bind fun _ ↦ keeps_sendKey.bind fun _ ↦ ?_
  refine (keeps_ldcs asiKeyStatus).bind fun keyStatus ↦ .ite (fun _ ↦ abortable_fail) fun _ ↦ ?_
  exact (abortable_nvmReset true).attempt.bind fun _ ↦
    (abortable_nvmReset false).attempt.bind fun _ ↦ .pure

theorem abortable_enterProgmode : Abortable d sib a24 (enterProgmode (abortTransport f)) := by
  refine abortable_inProgmode.bind fun inMode ↦ .ite (fun _ ↦ .pure) fun _ ↦ ?_
  refine abortable_applyNvmprogKey.bind fun _ ↦ (abortable_waitUnlocked 100).bind fun unlocked ↦ ?_
  refine .ite (fun _ ↦ ?_) fun _ ↦ abortable_fail
  exact abortable_inProgmode.bind fun inMode ↦ .ite (fun _ ↦ .pure) fun _ ↦ abortable_fail

theorem abortable_leaveProgmode : Abortable d sib a24 (leaveProgmode (abortTransport f)) :=
  (abortable_nvmReset true).attempt.bind fun _ ↦ (abortable_nvmReset false).attempt.bind fun _ ↦
    keeps_stcs_waiting (by decide) _

theorem abortable_unlock : Abortable d sib a24 (UpdiNvm.unlock (abortTransport f)) := by
  refine keeps_sendKey.bind fun _ ↦ ?_
  refine (keeps_ldcs asiKeyStatus).bind fun keyStatus ↦ .ite (fun _ ↦ abortable_fail) fun _ ↦ ?_
  refine (abortable_nvmReset true).attempt.bind fun _ ↦
    (abortable_nvmReset false).attempt.bind fun _ ↦ ?_
  exact (abortable_waitUnlocked 500).bind fun unlocked ↦ .ite (fun _ ↦ .pure) fun _ ↦ abortable_fail

theorem abortable_readSignature (device : Option UpdiDevice) :
    Abortable d sib a24 (readSignature (abortTransport f) device) := keeps_readData _ (by decide)

theorem abortable_readChunks (fuel address size : ℕ) :
    Abortable d sib a24 (readChunks (abortTransport f) fuel address size) := by
  induction fuel generalizing address size with
  | zero => exact .pure
  | succ fuel ih =>
    rw [readChunks]
    refine .ite (fun _ ↦ .pure) fun h0 ↦ ?_
    have h1 : 1 ≤ min size maxRepeatSize := Nat.le_min.mpr ⟨by omega, by decide⟩
    exact (keeps_readData address h1).bind fun bytes ↦ (ih _ _).bind fun rest ↦ .pure

theorem abortable_waitNvmReadyLoop (timeoutMs start : UInt32) (iters : ℕ) :
    Abortable d sib a24 (waitNvmReadyLoop (abortTransport f) d timeoutMs start iters) := by
  induction iters with
  | zero => exact abortable_fail
  | succ iters ih =>
    rw [waitNvmReadyLoop]
    refine (keeps_ldByte _).bind fun status ↦ .ite (fun _ ↦ abortable_fail) fun _ ↦
      .ite (fun _ ↦ .pure) fun _ ↦ ?_
    exact keeps_millis.bind fun now ↦ .ite (fun _ ↦ abortable_fail) fun _ ↦ ih

theorem abortable_waitNvmReady (timeoutMs : UInt32) :
    Abortable d sib a24 (waitNvmReady (abortTransport f) d timeoutMs) :=
  keeps_millis.bind fun start ↦ abortable_waitNvmReadyLoop timeoutMs start _

theorem commands_ne_writeFuse (d : UpdiDevice) : d.nvmDesc.cmdChipErase ≠ d.nvmDesc.cmdWriteFuse ∧
    d.nvmDesc.cmdPageBufferClear ≠ d.nvmDesc.cmdWriteFuse ∧
    d.nvmDesc.cmdWritePage ≠ d.nvmDesc.cmdWriteFuse ∧
    d.nvmDesc.cmdEepromBufferClear ≠ d.nvmDesc.cmdWriteFuse ∧
    d.nvmDesc.cmdEepromEraseWrite ≠ d.nvmDesc.cmdWriteFuse ∧
    d.nvmDesc.cmdNocmd ≠ d.nvmDesc.cmdWriteFuse := by
  rcases nvmDesc_eq d with h | h <;> rw [h] <;> decide

section Stores

variable (hd : d.WellFormed)
include hd

theorem spares_ctrla : Spares (d.nvmctrlBase + d.nvmDesc.regCtrla) := by
  rw [hd.nvmctrlBase]
  rcases nvmDesc_eq d with h | h <;> rw [h] <;> exact .inl (by decide)

theorem ctrla_lt : d.nvmctrlBase + d.nvmDesc.regCtrla < 2 ^ 16 := by
  rw [hd.nvmctrlBase]
  rcases nvmDesc_eq d with h | h <;> rw [h] <;> decide

theorem abortable_executeNvmCommand {c : UInt8} (hc : c ≠ d.nvmDesc.cmdWriteFuse) :
    Abortable d sib a24 (executeNvmCommand (abortTransport f) d c) :=
  keeps_stByte ident_self ident_self (spares_ctrla hd) (ctrla_lt hd) fun _ h ↦
    h.memWrite hd (spares_ctrla hd) hc

theorem abortable_finishCommand (timeoutMs : UInt32) (clear : Bool) :
    Abortable d sib a24 (finishCommand (abortTransport f) d timeoutMs clear) := by
  obtain ⟨-, -, -, -, -, hnocmd⟩ := commands_ne_writeFuse d
  refine (abortable_waitNvmReady timeoutMs).attempt.bind fun ready ↦ ?_
  cases clear with
  | false => exact abortable_ofStatus ready
  | true => exact (abortable_executeNvmCommand hd hnocmd).attempt.bind fun _ ↦
    abortable_ofStatus ready

theorem abortable_chipErase : Abortable d sib a24 (UpdiNvm.chipErase (abortTransport f) d) := by
  obtain ⟨herase, -, -, -, -, -⟩ := commands_ne_writeFuse d
  refine (abortable_waitNvmReady 100).bind fun _ ↦
    (abortable_executeNvmCommand hd herase).bind fun _ ↦ ?_
  exact abortable_finishCommand hd 500 _

theorem abortable_writeFlashPage {address : ℕ} {data : List UInt8} (h2 : 2 < data.length)
    (hwire : wireAddress a24 address = address) (hlow : d.flashAddress ≤ address)
    (hhigh : address + data.length ≤ d.flashAddress + emuFlashSize) :
    Abortable d sib a24 (writeFlashPage (abortTransport f) d address data) := by
  obtain ⟨-, hclear, hwrite, -, -, -⟩ := commands_ne_writeFuse d
  refine .ite (fun _ ↦ abortable_fail) fun _ ↦ .ite (fun _ ↦ abortable_fail) fun _ ↦ ?_
  refine (abortable_waitNvmReady 100).bind fun _ ↦
    (abortable_executeNvmCommand hd hclear).bind fun _ ↦ ?_
  refine (abortable_waitNvmReady 100).bind fun _ ↦
    (keeps_writeDataWords hd h2 hwire hlow hhigh).bind fun _ ↦ ?_
  exact (abortable_executeNvmCommand hd hwrite).bind fun _ ↦ abortable_finishCommand hd 100 _

theorem abortable_writePages (hpage : 2 < d.flashPageSize)
    (hfit : d.flashAddress + d.flashSize ≤ addressSpace a24) (fuel off : ℕ) (data : List UInt8)
    (hoff : off % d.flashPageSize = 0) (hlen : data.length ≠ 0 → off + data.length ≤ d.flashSize) :
    Abortable d sib a24
      (writePages (abortTransport f) d d.flashPageSize fuel (d.flashAddress + off) data) := by
  induction fuel generalizing off data with
  | zero => exact .pure
  | succ fuel ih =>
    rw [writePages]
    refine .ite (fun _ ↦ .pure) fun h0 ↦ ?_
    have hend := hlen h0
    have hin := UpdiDevice.page_fits hoff hd.page_dvd (by omega : off < d.flashSize)
    have hsize : d.flashSize ≤ emuFlashSize := hd.flashSize_le
    have hrest := ih (off + d.flashPageSize) (data.drop d.flashPageSize)
      (by rw [Nat.add_mod_right, hoff]) (by rw [List.length_drop]; omega)
    rw [← Nat.add_assoc] at hrest
    have hpad : (padPage d.flashPageSize (data.take d.flashPageSize)).length = d.flashPageSize :=
      padPage_length (List.length_take_le _ _)
    have hwire : wireAddress a24 (d.flashAddress + off) = d.flashAddress + off :=
      wireAddress_of_lt (by omega)
    by_cases hall : allFf (padPage d.flashPageSize (data.take d.flashPageSize)) = true
    · simp only [hall, Bool.not_true, Bool.false_eq_true, if_false]
      exact hrest
    · simp only [Bool.eq_false_iff.mpr hall, Bool.not_false, if_true]
      refine (abortable_writeFlashPage hd ?_ hwire (Nat.le_add_right _ _) ?_).bind fun _ ↦ hrest
      · rwa [hpad]
      · rw [hpad]
        omega

theorem Ident.memWrite_data (h : Ident d sib m) {addr : ℕ} (haddr : Spares addr)
    (habove : emuIoBase ≤ addr) (hbelow : addr < 0x1600)
    (hne : addr ≠ d.nvmctrlBase + d.nvmDesc.regCtrla) (val : UInt8) :
    Ident d sib (m.memWrite addr val) := by
  have hio := h.setIo hd haddr val
  rw [EmuMem.setIo, if_pos ⟨habove, hbelow⟩] at hio
  rwa [HostTest.memWrite_data hd h.target.configured habove hbelow hne]

end Stores

structure Told (d : UpdiDevice) (sib : List UInt8) (l : List UInt8) (m : EmuMem) : Prop where
  ident : Ident d sib m
  address : ∀ i (h : i < l.length), m.io (d.nvmDesc.regAddr + i) = l[i]

variable {l : List UInt8}

theorem told_nil : Told d sib [] m ↔ Ident d sib m :=
  ⟨Told.ident, fun h ↦ ⟨h, fun i hi ↦ absurd hi (Nat.not_lt_zero i)⟩⟩

theorem told_ident (m : EmuMem) (h : Told d sib l m) : Ident d sib m := h.ident

section Fuses

variable (hd : d.WellFormed)
include hd

theorem Told.store (h : Told d sib l m) {addr : ℕ} (habove : emuIoBase ≤ addr)
    (hbelow : addr < sigrowDefaultAddress) (hne : addr ≠ d.nvmctrlBase + d.nvmDesc.regCtrla)
    (hout : ∀ i < l.length, addr - emuIoBase ≠ d.nvmDesc.regAddr + i) (val : UInt8) :
    Told d sib l (m.memWrite addr val) := by
  have hsig : sigrowDefaultAddress = 0x1100 := rfl
  have hlow : addr < 0x1600 := by omega
  refine ⟨h.ident.memWrite_data hd (.inl hbelow) habove hlow hne val, fun i hi ↦ ?_⟩
  rw [memWrite_data hd h.ident.target.configured habove hlow hne]
  have hother : Function.update m.io (addr - emuIoBase) val (d.nvmDesc.regAddr + i) =
      m.io (d.nvmDesc.regAddr + i) := Function.update_of_ne (hout i hi).symm ..
  exact hother.trans (h.address i hi)

theorem Told.append (h : Told d sib l m) (hlow : d.nvmDesc.regAddr + l.length < 0x100)
    (hne : d.nvmDesc.regAddr + l.length ≠ d.nvmDesc.regCtrla) (val : UInt8) :
    Told d sib (l ++ [val]) (m.memWrite (d.nvmctrlBase + d.nvmDesc.regAddr + l.length) val) := by
  have hbase : d.nvmctrlBase = emuIoBase := hd.nvmctrlBase
  have hsig : sigrowDefaultAddress = emuIoBase + 0x100 := rfl
  have hctrla : d.nvmctrlBase + d.nvmDesc.regAddr + l.length ≠
      d.nvmctrlBase + d.nvmDesc.regCtrla := by
    omega
  have hbelow : d.nvmctrlBase + d.nvmDesc.regAddr + l.length < sigrowDefaultAddress := by omega
  have hkept := h.store hd (by omega) hbelow hctrla (fun i hi ↦ by omega) val
  refine ⟨hkept.ident, fun i hi ↦ ?_⟩
  by_cases hlast : i < l.length
  · rw [List.getElem_append_left hlast]
    exact hkept.address i hlast
  · rw [List.length_append, List.length_singleton] at hi
    obtain rfl : i = l.length := by omega
    have hoff : d.nvmctrlBase + d.nvmDesc.regAddr + l.length - emuIoBase = d.nvmDesc.regAddr +
        l.length := by
      omega
    have hio : emuIoBase = 0x1000 := rfl
    rw [memWrite_data hd h.ident.target.configured (by omega) (by omega) hctrla, hoff,
      List.getElem_concat_length rfl]
    exact Function.update_self ..

theorem Told.writeFuse {lo hi : UInt8} (h : Told d sib [lo, hi] m)
    (haddr : Spares (lo.toNat + 0x100 * hi.toNat)) (val : UInt8) :
    Ident d sib (m.memWrite (d.nvmctrlBase + d.nvmDesc.regCtrla) val) := by
  have hc := h.ident.target.configured
  have hctrla : d.nvmctrlBase + d.nvmDesc.regCtrla = m.nvmctrlBase + m.ctrlaOffset := by
    rw [hc.nvmctrlBase, hc.ctrlaOffset]
  have herase := h.ident.eraseEffect val
  have hio : (m.eraseEffect val).io = m.io := by
    unfold EmuMem.eraseEffect
    split_ifs <;> rfl
  have hfuse : Ident d sib ((m.eraseEffect val).fuseEffect val) := by
    have hlo : m.io d.nvmDesc.regAddr = lo := h.address 0 (by simp)
    have hhi : m.io (d.nvmDesc.regAddr + 1) = hi := h.address 1 (by simp)
    unfold EmuMem.fuseEffect
    split_ifs
    · rw [hio, herase.target.configured.fuseAddrOffset, hlo, hhi]
      exact herase.setIo hd haddr _
    · exact herase
  rw [EmuMem.memWrite, if_neg (not_inFlash_ctrla hd hc), if_pos hctrla]
  exact hfuse.setIo hd (spares_ctrla hd) val

end Fuses

theorem fuses_of_mem (hd : d ∈ deviceTable) {i : ℕ} (hi : i < d.fusesSize) :
    Spares (d.fusesAddress + i) ∧ 0x1010 ≤ d.fusesAddress + i ∧ d.fusesAddress + i < 0x1600 := by
  have hall : ∀ d ∈ deviceTable, 0x1010 ≤ d.fusesAddress ∧ d.fusesAddress + d.fusesSize ≤ 0x1600 ∧
      (d.fusesAddress + d.fusesSize ≤ sigrowDefaultAddress ∨
        sigrowDefaultAddress + 3 ≤ d.fusesAddress) := by
    decide
  obtain ⟨hlow, hhigh, hsig⟩ := hall d hd
  unfold Spares
  omega

theorem abortable_writeFuse (hmem : d ∈ deviceTable) (index value : UInt8) :
    Abortable d sib a24 (UpdiNvm.writeFuse (abortTransport f) d index value) := by
  have hd := UpdiDevice.wellFormed_of_mem hmem
  have hbase : d.nvmctrlBase = emuIoBase := hd.nvmctrlBase
  have hio : emuIoBase = 0x1000 := rfl
  have hsig : sigrowDefaultAddress = 0x1100 := rfl
  refine .ite (fun _ ↦ abortable_fail) fun hindex ↦ ?_
  obtain ⟨hspares, habove, hbelow⟩ := fuses_of_mem hmem (Nat.lt_of_not_le hindex)
  obtain ⟨-, -, -, hclear, hwrite, -⟩ := commands_ne_writeFuse d
  rcases nvmDesc_eq d with h | h
  · have hvia : d.nvmDesc.fuseViaEeprom = false := by rw [h]; rfl
    have haddr : d.nvmDesc.regAddr = 0x08 ∧ d.nvmDesc.regData = 0x06 ∧
        d.nvmDesc.regCtrla = 0x00 := by
      rw [h]
      exact ⟨rfl, rfl, rfl⟩
    obtain ⟨hreg, hdata, hctrla⟩ := haddr
    have hlow : (UInt8.ofNat (d.fusesAddress + index.toNat)).toNat +
        0x100 * (UInt8.ofNat ((d.fusesAddress + index.toNat) / 0x100)).toNat =
        d.fusesAddress + index.toNat := by
      simp only [UInt8.toNat_ofNat']
      omega
    simp only [hvia, Bool.false_eq_true, if_false]
    generalize UInt8.ofNat (d.fusesAddress + index.toNat) = lo at hlow ⊢
    generalize UInt8.ofNat ((d.fusesAddress + index.toNat) / 0x100) = hi at hlow ⊢
    refine (abortable_waitNvmReady 100).bind fun _ ↦ ?_
    refine (keeps_stByte ident_self (L := Told d sib [lo]) told_ident (.inl ?_) ?_
      fun m h ↦ ?_).bind fun _ ↦ ?_
    · omega
    · omega
    · exact (told_nil.mpr h).append hd (by rw [hreg]; decide) (by rw [hreg, hctrla]; decide) _
    refine (keeps_stByte told_ident (L := Told d sib [lo, hi]) told_ident (.inl ?_) ?_
      fun m h ↦ ?_).bind fun _ ↦ ?_
    · omega
    · omega
    · exact h.append hd (by rw [hreg, List.length_singleton]; decide)
        (by rw [hreg, hctrla, List.length_singleton]; decide) _
    refine (keeps_stByte told_ident (L := Told d sib [lo, hi]) told_ident (.inl ?_) ?_
      fun m h ↦ ?_).bind fun _ ↦ ?_
    · omega
    · omega
    · refine h.store hd (by omega) (by omega) (by omega) (fun i hi ↦ ?_) value
      rw [List.length_cons, List.length_singleton] at hi
      omega
    refine (keeps_stByte told_ident ident_self (spares_ctrla hd) (ctrla_lt hd) fun m h ↦ ?_).bind
      fun _ ↦ abortable_waitNvmReady 100
    exact h.writeFuse hd (hlow.symm ▸ hspares) _
  · have hvia : d.nvmDesc.fuseViaEeprom = true := by rw [h]; rfl
    have hctrla : d.fusesAddress + index.toNat ≠ d.nvmctrlBase + d.nvmDesc.regCtrla := by
      have hreg : d.nvmDesc.regCtrla = 0 := by rw [h]; rfl
      omega
    simp only [hvia, if_true]
    refine (abortable_waitNvmReady 100).bind fun _ ↦
      (abortable_executeNvmCommand hd hclear).bind fun _ ↦ ?_
    refine (abortable_waitNvmReady 100).bind fun _ ↦ ?_
    refine (keeps_stByte ident_self ident_self hspares (by omega) fun m hi ↦
      hi.memWrite_data hd hspares (by omega) hbelow hctrla value).bind fun _ ↦ ?_
    exact (abortable_executeNvmCommand hd hwrite).bind fun _ ↦ abortable_finishCommand hd 100 true

theorem abortable_verifyChunks (flashAddress fuel off : ℕ) (data : List UInt8) :
    Abortable d sib a24 (verifyChunks (abortTransport f) flashAddress fuel off data) := by
  induction fuel generalizing off data with
  | zero => exact .pure
  | succ fuel ih =>
    rw [verifyChunks]
    refine .ite (fun _ ↦ .pure) fun _ ↦ (abortable_readChunks _ _ _).bind fun rb ↦ ?_
    cases firstDifference off data rb with
    | none => exact ih _ _
    | some mismatch => exact .pure

theorem abortable_readFlashChunks (fuel address len : ℕ) :
    Abortable d sib a24 (readFlashChunks (abortTransport f) fuel address len) := by
  induction fuel generalizing address len with
  | zero => exact .pure
  | succ fuel ih =>
    rw [readFlashChunks]
    refine .ite (fun _ ↦ .pure) fun _ ↦ (abortable_readChunks _ _ _).bind fun bytes ↦ ?_
    exact (ih _ _).bind fun rest ↦ .pure

theorem abortable_readFuseLoop (n i : ℕ) :
    Abortable d sib a24 (readFuseLoop (abortTransport f) d n i) := by
  induction n generalizing i with
  | zero => exact .pure
  | succ n ih =>
    rw [readFuseLoop]
    have hfuse : Abortable d sib a24 (readFuse (abortTransport f) d (UInt8.ofNat i)) :=
      .ite (fun _ ↦ abortable_fail) fun _ ↦ keeps_ldByte _
    exact hfuse.bind fun b ↦ (ih _).bind fun rest ↦ .pure

section Operations

variable (d : UpdiDevice) (sib : List UInt8)

/-- The line of a session is steady with the target between instructions. -/
def Steadied (a24 : Bool) (s : SessionState Line) : Prop :=
  Steady d sib a24 (Waiting (Ident d sib) 0) ⟨s.session.link, s.ctx⟩

/-- A session that has found out no other part than the one behind its line. -/
structure Engaged (s : SessionState Line) : Prop where
  device : s.session.device = none ∨ s.session.device = some d
  nvmDevice : s.session.device = some d → s.session.nvmDevice = some d
  addressBytes : s.session.device = some d → s.session.link.addressBytes = d.addressBytes
  line : ∃ a24, Steadied d sib a24 s

/-- A session whose calls address the part behind its line. -/
structure Holding (s : SessionState Line) : Prop where
  nvmDevice : s.session.nvmDevice = some d
  line : Steadied d sib (d.addressBytes == 3) s

/-- Run from `P`, the call leaves a target that can be told apart. -/
def Leaves (P : SessionState Line → Prop) (m : SessionM Line α) : Prop :=
  Triple P m (fun _ s ↦ Left d sib s.ctx.emu) fun _ s ↦ Left d sib s.ctx.emu

end Operations

theorem Steadied.left {s : SessionState Line} (h : Steadied d sib a24 s) : Left d sib s.ctx.emu :=
  h.elim (fun h ↦ .waiting ident_self (Nat.zero_le _) h.target) Down.left

theorem Engaged.left {s : SessionState Line} (h : Engaged d sib s) : Left d sib s.ctx.emu :=
  have ⟨_, hline⟩ := h.line
  hline.left

theorem Engaged.holding {s : SessionState Line} (h : Engaged d sib s)
    (hd : s.session.device = some d) :
    Holding d sib s := by
  refine ⟨h.nvmDevice hd, ?_⟩
  obtain ⟨a24, hline⟩ := h.line
  have haddr : (s.session.link.addressBytes == 3) = a24 := hline.elim Up.addr24 Down.addr24
  rw [h.addressBytes hd] at haddr
  rwa [haddr]

theorem steadied_onLink {m : LinkM Line α} (h : Abortable d sib a24 m) :
    Triple (Steadied d sib a24) (onLink m) (fun _ ↦ Steadied d sib a24) fun _ s ↦
      Left d sib s.ctx.emu := by
  refine Triple.zoom fun s hs ↦ Triple.conseq h (fun t ht ↦ ?_) (fun _ _ ht ↦ ht) fun _ t ht ↦ ?_
  · rw [ht]
    exact hs
  · exact Steadied.left (s := ⟨{ s.session with link := t.link }, t.ctx⟩) ht

theorem leaves_onLink {m : LinkM Line α} (h : Abortable d sib a24 m) :
    Leaves d sib (Steadied d sib a24) (onLink m) :=
  (steadied_onLink h).conseq (fun _ hs ↦ hs) (fun _ _ hs ↦ hs.left) fun _ _ hs ↦ hs

theorem somewhere_onLink {m : LinkM Line α} (h : ∀ a24, Abortable d sib a24 m) :
    Triple (fun s ↦ ∃ a24, Steadied d sib a24 s) (onLink m) (fun _ s ↦ ∃ a24, Steadied d sib a24 s)
      fun _ s ↦ Left d sib s.ctx.emu := by
  rintro s ⟨a24, hs⟩
  exact (steadied_onLink (h a24)).conseq (fun _ hs ↦ hs) (fun _ _ hs ↦ ⟨a24, hs⟩)
    (fun _ _ hs ↦ hs) s hs

theorem Steadied.addressSize {s : SessionState Line} (h : Steadied d sib a24 s) (n : ℕ) :
    Steadied d sib ((s.session.link.setAddressSize n).addressBytes == 3)
      { s with session := { s.session with link := s.session.link.setAddressSize n } } :=
  h.imp (fun h ↦ ⟨h.works, rfl, h.target⟩) fun h ↦ ⟨h.cut, rfl, h.left⟩

theorem leaves_connect : Leaves d sib (Engaged d sib) (connect (abortTransport f)) := by
  refine Triple.bind (M := fun _ s ↦ ∃ a24, Steadied d sib a24 s) (Triple.modify fun s h ↦
    h.line) fun _ ↦ ?_
  refine Triple.bind (somewhere_onLink fun _ ↦ abortable_activate) fun _ ↦ ?_
  refine Triple.bind (somewhere_onLink fun _ ↦ abortable_readSibInfo) fun i ↦ ?_
  refine Triple.bind (M := fun _ s ↦ ∃ a24, Steadied d sib a24 s)
    (Triple.modify fun s h ↦ h) fun _ ↦ ?_
  refine Triple.bind (M := fun _ s ↦ ∃ a24, Steadied d sib a24 s) (Triple.modify fun s h ↦
    ?_) fun _ ↦ ?_
  · obtain ⟨a24, h⟩ := h
    exact ⟨_, h.addressSize _⟩
  refine Triple.bind (M := fun _ s ↦ ∃ a24, Steadied d sib a24 s)
    (Triple.modify fun s h ↦ h) fun _ ↦ ?_
  refine Triple.bind (somewhere_onLink fun _ ↦ abortable_enterProgmode) fun _ ↦ ?_
  refine Triple.bind (somewhere_onLink fun _ ↦ abortable_readSignature none) fun sig ↦ ?_
  refine Triple.bind (M := fun _ s ↦ ∃ a24, Steadied d sib a24 s)
    (Triple.modify fun s h ↦ h) fun _ ↦ ?_
  cases UpdiDevice.findById (UpdiDevice.idFromSig sig) with
  | none =>
    refine Triple.fail fun s h ↦ ?_
    obtain ⟨a24, h⟩ := h
    exact h.left
  | some part =>
    refine Triple.modify fun s h ↦ ?_
    obtain ⟨a24, h⟩ := h
    exact h.left

theorem leaves_somewhere {m : LinkM Line α} (h : ∀ a24, Abortable d sib a24 m) :
    Leaves d sib (Engaged d sib) (onLink m) := by
  refine (somewhere_onLink h).conseq (fun s hs ↦ hs.line) (fun _ s hs ↦ ?_) fun _ _ hs ↦ hs
  obtain ⟨a24, hs⟩ := hs
  exact hs.left

theorem leaves_disconnect : Leaves d sib (Engaged d sib) (disconnect (abortTransport f)) := by
  refine Triple.bind (M := fun _ s ↦ Left d sib s.ctx.emu) (Triple.attempt ?_) fun _ ↦
    Triple.modify fun _ h ↦ h
  exact leaves_somewhere fun _ ↦ abortable_leaveProgmode

theorem leaves_connected {k : UpdiDevice → SessionM Line α}
    (h : Leaves d sib (Holding d sib) (k d)) :
    Leaves d sib (Engaged d sib) (connectedDevice >>= k) := by
  intro s hs
  rcases hs.device with hnone | hsome
  · have hrun : (connectedDevice : SessionM Line UpdiDevice) s = (.error (.status .param), s) := by
      unfold connectedDevice
      rw [hnone]
      rcases s.session.connected <;> rfl
    rw [Prog.bind_error hrun]
    exact hs.left
  · cases hconn : s.session.connected with
    | false =>
      have hrun : (connectedDevice : SessionM Line UpdiDevice) s =
          (.error (.status .param), s) := by
        unfold connectedDevice
        rw [hconn]
      rw [Prog.bind_error hrun]
      exact hs.left
    | true =>
      have hrun : (connectedDevice : SessionM Line UpdiDevice) s = (.ok d, s) := by
        unfold connectedDevice
        rw [hconn, hsome]
      rw [Prog.bind_ok hrun]
      exact h s (hs.holding hsome)

theorem leaves_bound {k : UpdiDevice → SessionM Line α}
    (h : Leaves d sib (Steadied d sib (d.addressBytes == 3)) (k d)) :
    Leaves d sib (Holding d sib) (boundDevice >>= k) := by
  intro s hs
  have hrun : (boundDevice : SessionM Line UpdiDevice) s = (.ok d, s) := by
    unfold boundDevice
    rw [hs.nvmDevice]
  rw [Prog.bind_ok hrun]
  exact h s hs.line

theorem leaves_chipErase (hd : d.WellFormed) :
    Leaves d sib (Engaged d sib) (UpdiSession.chipErase (abortTransport f)) := by
  intro s hs
  rcases hs.device with hnone | hsome
  · have hrun : UpdiSession.chipErase (abortTransport f) s = (.error (.status .param), s) := by
      rw [UpdiSession.chipErase, Prog.read_bind_run, hnone]
      rfl
    rw [hrun]
    exact hs.left
  · have hrun : UpdiSession.chipErase (abortTransport f) s =
        (boundDevice >>= fun d ↦ onLink (UpdiNvm.chipErase (abortTransport f) d)) s := by
      rw [UpdiSession.chipErase, Prog.read_bind_run, hsome]
      rfl
    rw [hrun]
    exact leaves_bound (leaves_onLink (abortable_chipErase hd)) s (hs.holding hsome)

theorem Leaves.drop {P : SessionState Line → Prop} {m : SessionM Line α} (h : Leaves d sib P m) :
    Leaves d sib P (do let _ ← m) :=
  Triple.bind h fun _ ↦ Triple.pure fun _ h ↦ h

/-- Every call of the session interface that is cut short anywhere leaves a
target that can be told apart. -/
theorem leaves_run (hmem : d ∈ deviceTable) (op : SessionOp) (hop : op.Fits d) :
    Leaves d sib (Engaged d sib) (op.run (abortTransport f)) := by
  have hd := UpdiDevice.wellFormed_of_mem hmem
  obtain ⟨-, hfit⟩ := addresses_fit hd
  cases op with
  | connect => exact leaves_connect
  | unlock => exact leaves_somewhere fun _ ↦ abortable_unlock
  | disconnect => exact leaves_disconnect
  | chipErase => exact leaves_chipErase hd
  | writeFlash image =>
    have hpage := UpdiDevice.page_ge_of_mem hmem
    have hpages : Abortable d sib (d.addressBytes == 3)
        (writePages (abortTransport f) d d.flashPageSize image.length d.flashAddress image) := by
      have hlen : 0 + image.length ≤ d.flashSize := (Nat.zero_add _).symm ▸ hop
      exact abortable_writePages hd (by omega) hfit image.length 0 image (Nat.zero_mod _) fun _ ↦
        hlen
    refine leaves_connected (Triple.ite (fun _ ↦ Triple.fail fun s h ↦ h.line.left) fun _ ↦ ?_)
    exact leaves_bound (leaves_onLink hpages)
  | verifyFlash image =>
    refine Leaves.drop (leaves_connected ?_)
    exact (leaves_onLink (abortable_verifyChunks _ _ _ _)).conseq (fun _ h ↦ h.line)
      (fun _ _ h ↦ h) fun _ _ h ↦ h
  | readFlash len =>
    refine Leaves.drop (leaves_connected ?_)
    exact (leaves_onLink (abortable_readFlashChunks _ _ _)).conseq (fun _ h ↦ h.line)
      (fun _ _ h ↦ h) fun _ _ h ↦ h
  | readFuses count =>
    exact Leaves.drop (leaves_connected (leaves_bound (leaves_onLink (abortable_readFuseLoop _ _))))
  | writeFuse index value =>
    exact leaves_connected (leaves_bound (leaves_onLink (abortable_writeFuse hmem index value)))

/-- The session and its target between two calls: nothing is under way, and
the session has found out no other part. -/
structure Poised (d : UpdiDevice) (sib : List UInt8) (s : SessionState UpdiEmu) : Prop where
  device : s.session.device = none ∨ s.session.device = some d
  nvmDevice : s.session.device = some d → s.session.nvmDevice = some d
  addressBytes : s.session.device = some d → s.session.link.addressBytes = d.addressBytes
  ident : Ident d sib s.ctx.mem
  state : s.ctx.state = .idle
  rx : s.ctx.rx = []
  repeatNext : s.ctx.repeatNext = 0

/-- The session and its target after a call whose `n`th send or receive,
counted from zero, was the last that did anything, and went wrong. -/
def cutShort (f : Fault) (n : ℕ) (op : SessionOp) (s : SessionState UpdiEmu) :
    SessionState UpdiEmu :=
  let s' := (op.run (abortTransport f) ⟨s.session, s.ctx, some n⟩).2
  ⟨s'.session, s'.ctx.emu⟩

theorem Poised.left_cutShort {s : SessionState UpdiEmu} (hmem : d ∈ deviceTable)
    (h : Poised d sib s) {op : SessionOp} (hop : op.Fits d) (f : Fault) (n : ℕ) :
    Left d sib (cutShort f n op s).ctx := by
  have hat : At s.ctx.mem [] 0 s.ctx := ⟨rfl, h.state, h.rx, h.repeatNext⟩
  have hengaged : Engaged d sib ⟨s.session, ⟨s.ctx, some n⟩⟩ :=
    ⟨h.device, h.nvmDevice, h.addressBytes, _,
      .inl ⟨fun h ↦ (by cases h), rfl, waiting_at h.ident hat⟩⟩
  have hleaves := leaves_run (f := f) hmem op hop _ hengaged
  unfold cutShort
  rcases hrun : op.run (abortTransport f) ⟨s.session, ⟨s.ctx, some n⟩⟩ with ⟨r | a, s'⟩
  · rw [hrun] at hleaves
    exact hleaves
  · rw [hrun] at hleaves
    exact hleaves

/-- After a call that was cut short at any send or receive, a reconnect over a
line that works again finds the target exactly when what was left behind is
recoverable. -/
theorem reconnect_recovers_iff {s : SessionState UpdiEmu} (hmem : d ∈ deviceTable)
    (hs : Poised d sib s) (op : SessionOp) (hop : op.Fits d) (f : Fault) (n : ℕ) :
    Recovers d sib (cutShort f n op s) ↔ Recoverable (cutShort f n op s).ctx := by
  have hleft := hs.left_cutShort hmem hop f n
  exact hleft.behind.recovers_iff (UpdiDevice.wellFormed_of_mem hmem) hleft.ident

theorem attiny412_poised :
    Poised attiny412 freshAttiny412.mem.sib ⟨connectedAttiny412, freshAttiny412⟩ := by
  refine ⟨.inr rfl, fun _ ↦ rfl, fun _ ↦ rfl,
    ⟨⟨⟨rfl, rfl, rfl, rfl, rfl, rfl, rfl, rfl⟩, rfl, ?_⟩, rfl, ?_⟩,
    rfl, rfl, rfl⟩
  · decide
  · decide

/-- A chip erase whose first status byte gets lost leaves nothing behind. -/
theorem attiny412_found_after_lost_status :
    Recovers attiny412 freshAttiny412.mem.sib
      (cutShort ⟨0, [], 1⟩ 1 .chipErase ⟨connectedAttiny412, freshAttiny412⟩) :=
  (reconnect_recovers_iff (by decide) attiny412_poised .chipErase trivial ⟨0, [], 1⟩ 1).mpr
    (.inr (replays_nil _))

/-- A chip erase whose store address was acknowledged, with the acknowledgement
left unread, takes the data byte of the store from the BREAK and answers the
look at STATUSA with the old acknowledgement. -/
theorem attiny412_lost_after_unread_ack :
    Poised attiny412 freshAttiny412.mem.sib ⟨connectedAttiny412, freshAttiny412⟩ ∧
      ¬Recovers attiny412 freshAttiny412.mem.sib
        (cutShort ⟨0, [], 0⟩ 3 .chipErase ⟨connectedAttiny412, freshAttiny412⟩) := by
  refine ⟨attiny412_poised, fun ⟨s', h, _⟩ ↦ ?_⟩
  have hrun : (connect furiTransport
      (cutShort ⟨0, [], 0⟩ 3 .chipErase ⟨connectedAttiny412, freshAttiny412⟩)).1 =
        .error (.status .protocol) := rfl
  rw [h] at hrun
  cases hrun

end UpdiProgrammer.HostTest
