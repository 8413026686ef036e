import UpdiProgrammer.HostTest.LinkRun
import UpdiProgrammer.Library.Memory

namespace UpdiProgrammer.HostTest

open Updi UpdiLink UpdiNvm Library.Program Library.Memory UpdiEmu

namespace EmuMem

def SameStore (m m' : EmuMem) : Prop :=
  m' = { m with cs := m'.cs, nvmKey := m'.nvmKey, eraseKey := m'.eraseKey }

namespace SameStore

variable {m m' m'' : EmuMem}

theorem refl (m : EmuMem) : SameStore m m := rfl

theorem trans (h : SameStore m m') (h' : SameStore m' m'') : SameStore m m'' := by
  unfold SameStore at h h' ⊢
  rw [h] at h'
  exact h'

theorem memRead (h : SameStore m m') (addr : ℕ) : m'.memRead addr = m.memRead addr := by
  rw [h]
  rfl

theorem setCs (m : EmuMem) (a v : UInt8) : SameStore m (m.setCs a v) := rfl

theorem applyStcs (m : EmuMem) (a v : UInt8) : SameStore m (m.applyStcs a v) := by
  unfold EmuMem.applyStcs
  dsimp only
  split_ifs <;> rfl

theorem applyKey (m : EmuMem) (k : List UInt8) : SameStore m (m.applyKey k) := by
  unfold EmuMem.applyKey
  split_ifs <;> rfl

end SameStore

theorem applyKey_keyNvm (m : EmuMem) : m.applyKey keyNvm =
    { m.setCs asiKeyStatus (m.cs asiKeyStatus ||| keyStatusNvmprog) with nvmKey := true } :=
  if_pos rfl

@[simp] theorem applyStcs_nvmKey (m : EmuMem) (a v : UInt8) :
    (m.applyStcs a v).nvmKey = m.nvmKey := by
  unfold applyStcs
  dsimp only
  split_ifs <;> rfl

theorem released_bits (x : UInt8) :
    ((x ||| sysStatusNvmprog) &&& ~~~sysStatusLockstatus) &&& sysStatusLockstatus = 0 ∧
      ((x ||| sysStatusNvmprog) &&& ~~~sysStatusLockstatus) &&& sysStatusNvmprog =
        sysStatusNvmprog ∧
      ((x ||| sysStatusNvmprog) &&& ~~~sysStatusLockstatus) &&& ~~~sysStatusLockstatus =
        (x ||| sysStatusNvmprog) &&& ~~~sysStatusLockstatus := by
  refine ⟨?_, ?_, ?_⟩ <;>
  · apply UInt8.toBitVec_inj.mp
    simp
    generalize x.toBitVec = y
    revert y
    decide

/-- Releasing reset with the NVMPROG key armed enters programming mode. -/
theorem applyStcs_release (m : EmuMem) (hk : m.nvmKey = true) :
    (m.applyStcs asiResetReq 0x00).cs asiSysStatus &&& sysStatusLockstatus = 0 ∧
      (m.applyStcs asiResetReq 0x00).cs asiSysStatus &&& sysStatusNvmprog ≠ 0 := by
  obtain ⟨hlock, hprog, hagain⟩ := released_bits (m.cs asiSysStatus)
  have hne : asiSysStatus ≠ asiResetReq &&& 0x0F := by decide
  have hcs : (m.applyStcs asiResetReq 0x00).cs asiSysStatus =
      (m.cs asiSysStatus ||| sysStatusNvmprog) &&& ~~~sysStatusLockstatus := by
    unfold applyStcs setCs
    simp only [hk, and_self, if_true, Function.update_self, Function.update_of_ne hne]
    split_ifs
    · simp only [Function.update_self, hagain]
    · simp only [Function.update_self]
  rw [hcs]
  refine ⟨hlock, ?_⟩
  rw [hprog]
  decide

theorem keyStatus_bit (x : UInt8) : (x ||| keyStatusNvmprog) &&& keyStatusNvmprog ≠ 0 := by
  have h : (x ||| keyStatusNvmprog) &&& keyStatusNvmprog = keyStatusNvmprog := by
    apply UInt8.toBitVec_inj.mp
    simp
    generalize x.toBitVec = y
    revert y
    decide
  rw [h]
  decide

/-- The memory after the NVMPROG key was handed over in reset. -/
def keyed (m : EmuMem) : EmuMem := (m.applyStcs asiResetReq resetReqValue).applyKey keyNvm

/-- The memory after the NVMPROG key was applied by toggling reset. -/
def unlocked (m : EmuMem) : EmuMem :=
  (m.keyed.applyStcs asiResetReq resetReqValue).applyStcs asiResetReq 0x00

theorem keyed_keyStatus (m : EmuMem) : m.keyed.cs asiKeyStatus &&& keyStatusNvmprog ≠ 0 := by
  have hcs : m.keyed.cs asiKeyStatus =
      (m.applyStcs asiResetReq resetReqValue).cs asiKeyStatus ||| keyStatusNvmprog := by
    rw [keyed, applyKey_keyNvm]
    simp only [setCs, Function.update_self]
  rw [hcs]
  exact keyStatus_bit _

theorem keyed_nvmKey (m : EmuMem) : m.keyed.nvmKey = true := by
  rw [keyed, applyKey_keyNvm]

theorem sameStore_unlocked (m : EmuMem) : m.SameStore m.unlocked :=
  (((SameStore.applyStcs m _ _).trans (.applyKey _ _)).trans (.applyStcs m.keyed _ _)).trans
    (.applyStcs _ _ _)

theorem unlocked_sysStatus (m : EmuMem) :
    m.unlocked.cs asiSysStatus &&& sysStatusLockstatus = 0 ∧
      m.unlocked.cs asiSysStatus &&& sysStatusNvmprog ≠ 0 :=
  applyStcs_release _ ((applyStcs_nvmKey ..).trans m.keyed_nvmKey)

end EmuMem

variable {P : AckPolicy} {a24 : Bool} {m : EmuMem} {s : LinkState UpdiEmu}

theorem initSessionParams_returns {q : List UInt8} {r : ℕ} (h : Linked a24 (At m q r) s) :
    Returns (initSessionParams (emuTransport P)) s ()
      (Linked a24 (At ((m.setCs csCtrlb ctrlbCcdetdis).setCs csCtrla ctrlaIbdly) q r)) := by
  have hb : csCtrlb &&& 0x0F ≠ asiResetReq := by decide
  have ha : csCtrla &&& 0x0F ≠ asiResetReq := by decide
  refine (stcs_returns h csCtrlb ctrlbCcdetdis).bind fun s h ↦ ?_
  refine (stcs_returns h csCtrla ctrlaIbdly).bind fun s h ↦ ?_
  rw [applyStcs_of_ne _ ha, applyStcs_of_ne _ hb] at h
  exact setAckEnabled_returns h true

theorem checkDatalink_returns {r : ℕ} (h : Linked a24 (At m [] r) s) :
    Returns (checkDatalink (emuTransport P)) s (m.cs csStatusa != 0) (Linked a24 (At m [] r)) :=
  (ldcs_returns h csStatusa).attempt.bind fun _ h ↦ .pure h

theorem sendRaw_returns {T T' : UpdiEmu → Prop} {data : List UInt8}
    (hT : ∀ e, T e → T' (e.feed P data)) (h : Linked a24 T s) :
    Returns (sendRaw (emuTransport P) data) s true (Linked a24 T') :=
  ⟨⟨s.link, s.ctx.feed P data⟩, rfl, h.addr24, hT _ h.target⟩

theorem activate_returns (h : InStep a24 m s) (hs : m.cs csStatusa ≠ 0) :
    Returns (activate (emuTransport P)) s ()
      (InStep a24 ((m.setCs csCtrlb ctrlbCcdetdis).setCs csCtrla ctrlaIbdly)) := by
  have hs' : ((m.setCs csCtrlb ctrlbCcdetdis).setCs csCtrla ctrlaIbdly).cs csStatusa =
      m.cs csStatusa := rfl
  refine (sendRaw_returns (fun e he ↦ he.send_break) h).bind fun s h ↦ ?_
  refine (initSessionParams_returns h).attempt.bind fun s h ↦ ?_
  refine (checkDatalink_returns h).bind fun s h ↦ ?_
  rw [hs', if_pos (bne_iff_ne.mpr hs)]
  exact .pure h

theorem inProgmode_returns (h : InStep a24 m s) :
    Returns (inProgmode (emuTransport P)) s (m.cs asiSysStatus &&& sysStatusNvmprog != 0)
      (InStep a24 m) :=
  (ldcs_returns h asiSysStatus).attempt.bind fun _ h ↦ .pure h

theorem nvmReset_returns {q : List UInt8} {r : ℕ} (h : Linked a24 (At m q r) s) (apply : Bool) :
    Returns (nvmReset (emuTransport P) apply) s ()
      (Linked a24 (At (m.applyStcs asiResetReq (if apply then resetReqValue else 0x00)) q r)) :=
  stcs_returns h asiResetReq _

theorem millis_returns {T : UpdiEmu → Prop} (hT : ∀ e n, T e → T { e with nowMs := n })
    (h : Linked a24 T s) :
    Returns (millis (emuTransport P)) s (s.ctx.nowMs + 1) (Linked a24 T) :=
  ⟨⟨s.link, { s.ctx with nowMs := s.ctx.nowMs + 1 }⟩, rfl, h.addr24, hT _ _ h.target⟩

theorem at_nowMs {q : List UInt8} {r : ℕ} (e : UpdiEmu) (n : UInt32) (h : At m q r e) :
    At m q r { e with nowMs := n } := ⟨h.mem, h.state, h.rx, h.repeatNext⟩

theorem waitUnlocked_returns (h : InStep a24 m s)
    (hl : m.cs asiSysStatus &&& sysStatusLockstatus = 0) (timeoutMs : UInt32) :
    Returns (waitUnlocked (emuTransport P) timeoutMs) s true (InStep a24 m) := by
  refine (millis_returns at_nowMs h).bind fun s' h ↦ ?_
  have hn : nvmMaxPollIters = 199999 + 1 := rfl
  rw [hn, waitUnlockedLoop]
  refine (ldcs_returns h asiSysStatus).attempt.bind fun s h ↦ ?_
  have hl' : m.cs (asiSysStatus &&& 0x0F) &&& sysStatusLockstatus = 0 := hl
  simp only [hl', beq_self_eq_true, if_true]
  exact .pure h

theorem applyNvmprogKey_returns (h : InStep a24 m s) :
    Returns (applyNvmprogKey (emuTransport P)) s () (InStep a24 m.unlocked) := by
  refine (nvmReset_returns h true).bind fun s h ↦ ?_
  refine (sendKey_returns h rfl).bind fun s h ↦ ?_
  have hks : Returns (ldcs (emuTransport P) asiKeyStatus) s (m.keyed.cs asiKeyStatus)
      (InStep a24 m.keyed) := ldcs_returns h asiKeyStatus
  refine hks.bind fun s h ↦ ?_
  rw [if_neg m.keyed_keyStatus]
  refine (nvmReset_returns h true).attempt.bind fun s h ↦ ?_
  exact (nvmReset_returns h false).attempt.bind fun s h ↦ .pure h

theorem enterProgmode_returns (h : InStep a24 m s) :
    ∃ m', m.SameStore m' ∧ Returns (enterProgmode (emuTransport P)) s () (InStep a24 m') := by
  by_cases hp : m.cs asiSysStatus &&& sysStatusNvmprog = 0
  · obtain ⟨hlock, hprog⟩ := m.unlocked_sysStatus
    refine ⟨m.unlocked, m.sameStore_unlocked, ?_⟩
    refine (inProgmode_returns h).bind fun s h ↦ ?_
    rw [if_neg (by simpa using hp)]
    refine (applyNvmprogKey_returns h).bind fun s h ↦ ?_
    refine (waitUnlocked_returns h hlock 100).bind fun s h ↦ ?_
    rw [if_pos rfl]
    refine (inProgmode_returns h).bind fun s h ↦ ?_
    rw [if_pos (bne_iff_ne.mpr hprog)]
    exact .pure h
  · refine ⟨m, .refl m, ?_⟩
    refine (inProgmode_returns h).bind fun s h ↦ ?_
    rw [if_pos (bne_iff_ne.mpr hp)]
    exact .pure h

theorem readSibInfo_returns (h : InStep a24 m s) :
    Returns (readSibInfo (emuTransport P)) s (sibInfo (sibBytes m 16)) (InStep a24 m) := by
  have hlen := sibBytes_length m 16
  have hr := readSib_returns (P := P) h (by decide : 1 ≤ 16)
  have h16 : sibLength 16 = 16 := rfl
  rw [h16, List.take_of_length_le (le_of_eq hlen), List.drop_eq_nil_of_le (le_of_eq hlen)] at hr
  refine hr.bind fun s h ↦ ?_
  rw [if_neg (by omega)]
  exact .pure h

theorem readSignature_returns (hP : P.store (m.cs csCtrla) = true) (h : InStep a24 m s) :
    Returns (readSignature (emuTransport P) none) s (cells m sigrowDefaultAddress 3)
      (InStep a24 m) := by
  have hw : wireAddress a24 sigrowDefaultAddress = sigrowDefaultAddress := by cases a24 <;> rfl
  have hr := readData_returns hP h sigrowDefaultAddress (by decide : 1 ≤ 3) (by decide)
  rwa [hw] at hr

/-- The target is set up as a part of the given row. -/
structure Configured (d : UpdiDevice) (m : EmuMem) : Prop where
  flashBase : m.flashBase = d.flashAddress
  nvmctrlBase : m.nvmctrlBase = d.nvmctrlBase
  statusOffset : m.statusOffset = d.nvmDesc.regStatus
  ctrlaOffset : m.ctrlaOffset = d.nvmDesc.regCtrla
  fuseDataOffset : m.fuseDataOffset = d.nvmDesc.regData
  fuseAddrOffset : m.fuseAddrOffset = d.nvmDesc.regAddr
  cmdWriteFuse : m.cmdWriteFuse = d.nvmDesc.cmdWriteFuse
  cmdChipErase : m.cmdChipErase = d.nvmDesc.cmdChipErase

theorem Configured.of_sameStore {d : UpdiDevice} {m' : EmuMem} (h : Configured d m)
    (hs : m.SameStore m') : Configured d m' := by
  rw [hs]
  exact ⟨h.1, h.2, h.3, h.4, h.5, h.6, h.7, h.8⟩

theorem nvmDesc_eq (d : UpdiDevice) : d.nvmDesc = nvmDescP0 ∨ d.nvmDesc = nvmDescP3 := by
  unfold UpdiDevice.nvmDesc
  cases d.nvmVariant
  · exact .inl rfl
  · exact .inr rfl

theorem memRead_status {d : UpdiDevice} (hc : Configured d m) :
    m.memRead (d.nvmctrlBase + d.nvmDesc.regStatus) = 0x00 := by
  unfold EmuMem.memRead
  rw [hc.nvmctrlBase, hc.statusOffset, if_pos rfl]

theorem wireAddress_status {d : UpdiDevice} (hd : d.WellFormed) :
    wireAddress a24 (d.nvmctrlBase + d.nvmDesc.regStatus) =
      d.nvmctrlBase + d.nvmDesc.regStatus := by
  rw [hd.nvmctrlBase]
  rcases nvmDesc_eq d with h | h <;> rw [h] <;> cases a24 <;> rfl

theorem wireAddress_ctrla {d : UpdiDevice} (hd : d.WellFormed) :
    wireAddress a24 (d.nvmctrlBase + d.nvmDesc.regCtrla) = d.nvmctrlBase + d.nvmDesc.regCtrla := by
  rw [hd.nvmctrlBase]
  rcases nvmDesc_eq d with h | h <;> rw [h] <;> cases a24 <;> rfl

section Commands

variable {d : UpdiDevice} (hd : d.WellFormed) (hc : Configured d m)
include hd hc

theorem waitNvmReady_returns (h : InStep a24 m s) (timeoutMs : UInt32) :
    Returns (waitNvmReady (emuTransport P) d timeoutMs) s () (InStep a24 m) := by
  refine (millis_returns at_nowMs h).bind fun s' h ↦ ?_
  have hn : nvmMaxPollIters = 199999 + 1 := rfl
  rw [hn, waitNvmReadyLoop]
  refine (ldByte_returns h _).bind fun s h ↦ ?_
  rw [wireAddress_status hd, memRead_status hc, if_neg (by simp), if_pos (by simp)]
  exact .pure h

theorem not_inFlash_ctrla : ¬m.InFlash (d.nvmctrlBase + d.nvmDesc.regCtrla) := by
  have hlow : d.nvmctrlBase + d.nvmDesc.regCtrla < 0x1600 := by
    rw [hd.nvmctrlBase]
    rcases nvmDesc_eq d with h | h <;> rw [h] <;> decide
  have hflash := hd.flash_above_io
  rintro ⟨hlow', -⟩
  rw [hc.flashBase] at hlow'
  omega

theorem memWrite_command {c : UInt8} (he : c ≠ d.nvmDesc.cmdChipErase)
    (hf : d.nvmDesc.cmdWriteFuse = 0xFF ∨ c ≠ d.nvmDesc.cmdWriteFuse) :
    m.memWrite (d.nvmctrlBase + d.nvmDesc.regCtrla) c =
      m.setIo (d.nvmctrlBase + d.nvmDesc.regCtrla) c := by
  have he' : ¬(m.cmdChipErase ≠ 0x00 ∧ c = m.cmdChipErase) := fun h ↦ he (h.2.trans hc.cmdChipErase)
  have hf' : ¬(m.cmdWriteFuse ≠ 0xFF ∧ c = m.cmdWriteFuse) := by
    rw [hc.cmdWriteFuse]
    rintro ⟨h, h'⟩
    exact hf.elim h fun hne ↦ hne h'
  have haddr : d.nvmctrlBase + d.nvmDesc.regCtrla = m.nvmctrlBase + m.ctrlaOffset := by
    rw [hc.nvmctrlBase, hc.ctrlaOffset]
  rw [EmuMem.memWrite, if_neg (not_inFlash_ctrla hd hc), if_pos haddr, EmuMem.eraseEffect,
    if_neg he', EmuMem.fuseEffect, if_neg hf']

theorem memWrite_chipErase :
    m.memWrite (d.nvmctrlBase + d.nvmDesc.regCtrla) d.nvmDesc.cmdChipErase =
      { m with flash := fun _ ↦ 0xFF }.setIo (d.nvmctrlBase + d.nvmDesc.regCtrla)
        d.nvmDesc.cmdChipErase := by
  have he : m.cmdChipErase ≠ 0x00 ∧ d.nvmDesc.cmdChipErase = m.cmdChipErase := by
    refine ⟨?_, hc.cmdChipErase.symm⟩
    rw [hc.cmdChipErase]
    rcases nvmDesc_eq d with h | h <;> rw [h] <;> decide
  have hf : ¬(m.cmdWriteFuse ≠ 0xFF ∧ d.nvmDesc.cmdChipErase = m.cmdWriteFuse) := by
    rw [hc.cmdWriteFuse]
    rcases nvmDesc_eq d with h | h <;> rw [h] <;> decide
  have haddr : d.nvmctrlBase + d.nvmDesc.regCtrla = m.nvmctrlBase + m.ctrlaOffset := by
    rw [hc.nvmctrlBase, hc.ctrlaOffset]
  rw [EmuMem.memWrite, if_neg (not_inFlash_ctrla hd hc), if_pos haddr, EmuMem.eraseEffect,
    if_pos he, EmuMem.fuseEffect, if_neg hf]

theorem memWrite_data {addr : ℕ} (habove : emuIoBase ≤ addr) (hbelow : addr < 0x1600)
    (hne : addr ≠ d.nvmctrlBase + d.nvmDesc.regCtrla) (val : UInt8) :
    m.memWrite addr val = { m with io := Function.update m.io (addr - emuIoBase) val } := by
  have hflash : ¬m.InFlash addr := by
    rintro ⟨hlow, -⟩
    have hbase := hd.flash_above_io
    rw [hc.flashBase] at hlow
    omega
  have hctrla : addr ≠ m.nvmctrlBase + m.ctrlaOffset := by
    rwa [hc.nvmctrlBase, hc.ctrlaOffset]
  rw [EmuMem.memWrite, if_neg hflash, if_neg hctrla]
  exact if_pos ⟨habove, hbelow⟩

end Commands

theorem writeAll_flash {off : ℕ} {data : List UInt8} (h : off + data.length ≤ emuFlashSize) :
    m.writeAll (m.flashBase + off) data = { m with flash := overwrite m.flash off data } := by
  induction data generalizing m off with
  | nil => rw [overwrite_nil]; rfl
  | cons b data ih =>
    rw [List.length_cons] at h
    have hin : m.InFlash (m.flashBase + off) := ⟨Nat.le_add_right _ _, by omega⟩
    have hb : m.memWrite (m.flashBase + off) b =
        { m with flash := Function.update m.flash off b } := by
      rw [EmuMem.memWrite, if_pos hin, EmuMem.setFlash, Nat.add_sub_cancel_left]
    rw [EmuMem.writeAll, hb, overwrite_cons, Nat.add_assoc]
    exact @ih { m with flash := Function.update m.flash off b } (off + 1) (by omega)

end UpdiProgrammer.HostTest
