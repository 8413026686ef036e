import UpdiProgrammer.HostTest.Programming

namespace UpdiProgrammer.HostTest

open Updi UpdiLink UpdiNvm Library.Program Prog UpdiEmu EmuMem

variable {a24 : Bool} {d : UpdiDevice} {m m' m'' : EmuMem} {s : LinkState UpdiEmu} {A : ℕ → Prop}

/-- Two memories are the same but for IO addresses in `A`. -/
structure AgreeOutside (A : ℕ → Prop) (m m' : EmuMem) : Prop where
  rest : m' = { m with io := m'.io }
  io : ∀ i, ¬A (emuIoBase + i) → m'.io i = m.io i

theorem AgreeOutside.trans (h : AgreeOutside A m m') (h' : AgreeOutside A m' m'') :
    AgreeOutside A m m'' := by
  refine ⟨?_, fun i hi ↦ (h'.io i hi).trans (h.io i hi)⟩
  rw [h'.rest, h.rest]

theorem io_setIo_self {addr i : ℕ} (h : InIo addr) (hi : emuIoBase + i = addr) (m : EmuMem)
    (v : UInt8) :
    (m.setIo addr v).io i = v := by
  have hi' : addr - emuIoBase = i := by omega
  unfold setIo
  rw [if_pos h, hi']
  simp only [Function.update_self]

theorem io_setIo_ne {addr i : ℕ} (h : emuIoBase + i ≠ addr) (m : EmuMem) (v : UInt8) :
    (m.setIo addr v).io i = m.io i := by
  unfold setIo
  split_ifs with hin
  · have hne : i ≠ addr - emuIoBase := by
      have hlow := hin.1
      omega
    simp only [Function.update_of_ne hne]
  · rfl

theorem AgreeOutside.mono {B : ℕ → Prop} (h : AgreeOutside A m m') (hAB : ∀ a, A a → B a) :
    AgreeOutside B m m' :=
  ⟨h.rest, fun i hi ↦ h.io i fun ha ↦ hi (hAB _ ha)⟩

/-- The IO cell at `addr` holds `v`, and nothing else but the addresses in `A` has changed. -/
structure CellStored (A : ℕ → Prop) (addr : ℕ) (v : UInt8) (m m' : EmuMem) : Prop where
  cell : m'.io (addr - emuIoBase) = v
  others : AgreeOutside A m m'

theorem stored_setIo {addr : ℕ} (h : InIo addr) (m : EmuMem) (v : UInt8) :
    CellStored (fun a ↦ a = addr) addr v m (m.setIo addr v) := by
  have hlow := h.1
  refine ⟨io_setIo_self h (by omega) m v, ?_, fun i hi ↦ io_setIo_ne hi m v⟩
  rw [setIo, if_pos h]

theorem Configured.of_agree (hc : Configured d m) (h : AgreeOutside A m m') : Configured d m' := by
  rw [h.rest]
  exact ⟨hc.1, hc.2, hc.3, hc.4, hc.5, hc.6, hc.7, hc.8⟩

def InNvmctrl (d : UpdiDevice) (address : ℕ) : Prop :=
  d.nvmctrlBase ≤ address ∧ address < d.nvmctrlBase + 0x10

theorem fuses_in_io (h : d ∈ deviceTable) :
    d.nvmctrlBase + 0x10 ≤ d.fusesAddress ∧
      d.fusesAddress + d.fusesSize ≤ emuIoBase + emuIoSize := by
  have hall : ∀ d ∈ deviceTable, d.nvmctrlBase + 0x10 ≤ d.fusesAddress ∧
      d.fusesAddress + d.fusesSize ≤ emuIoBase + emuIoSize := by decide
  exact hall d h

theorem ctrla_inNvmctrl (hd : d.WellFormed) :
    InIo (d.nvmctrlBase + d.nvmDesc.regCtrla) ∧
      InNvmctrl d (d.nvmctrlBase + d.nvmDesc.regCtrla) := by
  have hbase : d.nvmctrlBase = emuIoBase := hd.nvmctrlBase
  have hsize : 0x10 ≤ emuIoSize := by decide
  have hctrla : d.nvmDesc.regCtrla = 0 := by
    rcases nvmDesc_eq d with h | h <;> rw [h] <;> rfl
  unfold InIo InNvmctrl
  omega

section Registers

variable (hd : d.WellFormed) (hc : Configured d m)
include hd hc

theorem memWrite_io {addr : ℕ} (h : InIo addr) (hne : addr ≠ d.nvmctrlBase + d.nvmDesc.regCtrla)
    (v : UInt8) :
    m.memWrite addr v = m.setIo addr v := by
  rw [memWrite_data hd hc h.1 h.2 hne, setIo, if_pos h]

theorem storeIo_returns {addr : ℕ} (hin : InIo addr)
    (hne : addr ≠ d.nvmctrlBase + d.nvmDesc.regCtrla) (v : UInt8) (h : InStep a24 m s) :
    Returns (stByte (emuTransport .emulator) addr v) s ()
      fun s ↦ ∃ m', InStep a24 m' s ∧ Configured d m' ∧
        CellStored (fun a ↦ a = addr) addr v m m' := by
  have haddr : wireAddress a24 addr = addr := by
    have hhigh := hin.2
    simp only [emuIoBase, emuIoSize] at hhigh
    unfold wireAddress addressSpace
    split_ifs <;> exact Nat.mod_eq_of_lt (by omega)
  have hr := stByte_returns (P := .emulator) rfl h addr v
  rw [haddr, memWrite_io hd hc hin hne] at hr
  have hs := stored_setIo hin m v
  exact hr.mono fun s h ↦ ⟨_, h, hc.of_agree hs.others, hs⟩

theorem storeCommand_returns {c : UInt8} (he : c ≠ d.nvmDesc.cmdChipErase)
    (hf : d.nvmDesc.cmdWriteFuse = 0xFF ∨ c ≠ d.nvmDesc.cmdWriteFuse) (h : InStep a24 m s) :
    Returns (executeNvmCommand (emuTransport .emulator) d c) s ()
      fun s ↦ ∃ m', InStep a24 m' s ∧ Configured d m' ∧ AgreeOutside (InNvmctrl d) m m' := by
  have hin := ctrla_inNvmctrl hd
  have hs := stored_setIo hin.1 m c
  have hr := stByte_returns (P := .emulator) rfl h (d.nvmctrlBase + d.nvmDesc.regCtrla) c
  rw [wireAddress_ctrla hd, memWrite_command hd hc he hf] at hr
  refine hr.mono fun s h ↦ ⟨_, h, hc.of_agree hs.others, hs.others.mono fun a ha ↦ ?_⟩
  rw [ha]
  exact hin.2

end Registers

theorem memWrite_writeFuse (hd : d.WellFormed) (hc : Configured d m) (hv : d.nvmDesc = nvmDescP0)
    {addr : ℕ} (hlo : m.io 0x08 = UInt8.ofNat addr) (hhi : m.io 0x09 = UInt8.ofNat (addr / 0x100))
    (hlt : addr < 2 ^ 16) :
    m.memWrite (d.nvmctrlBase + d.nvmDesc.regCtrla) d.nvmDesc.cmdWriteFuse =
      (m.setIo addr (m.io 0x06)).setIo (d.nvmctrlBase + d.nvmDesc.regCtrla)
        d.nvmDesc.cmdWriteFuse := by
  have hctrla : d.nvmctrlBase + d.nvmDesc.regCtrla = m.nvmctrlBase + m.ctrlaOffset := by
    rw [hc.nvmctrlBase, hc.ctrlaOffset]
  have he : ¬(m.cmdChipErase ≠ 0x00 ∧ d.nvmDesc.cmdWriteFuse = m.cmdChipErase) := by
    rw [hc.cmdChipErase, hv]
    decide
  have hf : m.cmdWriteFuse ≠ 0xFF ∧ d.nvmDesc.cmdWriteFuse = m.cmdWriteFuse := by
    rw [hc.cmdWriteFuse, hv]
    decide
  have hreg : m.fuseAddrOffset = 0x08 ∧ m.fuseDataOffset = 0x06 := by
    rw [hc.fuseAddrOffset, hc.fuseDataOffset, hv]
    exact ⟨rfl, rfl⟩
  have hjoin : (UInt8.ofNat addr).toNat + 0x100 * (UInt8.ofNat (addr / 0x100)).toNat = addr := by
    rw [UInt8.toNat_ofNat', UInt8.toNat_ofNat']
    omega
  rw [memWrite, if_neg (not_inFlash_ctrla hd hc), if_pos hctrla, eraseEffect, if_neg he, fuseEffect,
    if_pos hf, hreg.1, hreg.2, hlo, hhi, hjoin]

/-- What the write of a fuse may change. -/
def FuseCells (d : UpdiDevice) (address a : ℕ) : Prop := InNvmctrl d a ∨ a = address

section Writes

variable (hd : d.WellFormed) (hc : Configured d m) {address : ℕ} (hio : InIo address)
  (habove : d.nvmctrlBase + 0x10 ≤ address) (value : UInt8) (h : InStep a24 m s)
include hd hc hio habove h

theorem storeFuse_returns (hv : d.nvmDesc = nvmDescP0) (hlo : m.io 0x08 = UInt8.ofNat address)
    (hhi : m.io 0x09 = UInt8.ofNat (address / 0x100)) (hval : m.io 0x06 = value) :
    Returns (executeNvmCommand (emuTransport .emulator) d d.nvmDesc.cmdWriteFuse) s ()
      fun s ↦ ∃ m', InStep a24 m' s ∧ Configured d m' ∧
        CellStored (FuseCells d address) address value m m' := by
  have hin := ctrla_inNvmctrl hd
  have hlt : address < 2 ^ 16 := by
    have hhigh := hio.2
    simp only [emuIoBase, emuIoSize] at hhigh
    omega
  have hs := stored_setIo hio m value
  have hs' := stored_setIo hin.1 (m.setIo address value) d.nvmDesc.cmdWriteFuse
  have hall : AgreeOutside (FuseCells d address) m
      ((m.setIo address value).setIo (d.nvmctrlBase + d.nvmDesc.regCtrla)
        d.nvmDesc.cmdWriteFuse) := by
    refine (hs.others.mono fun a ha ↦ .inr ha).trans (hs'.others.mono fun a ha ↦ .inl ?_)
    rw [ha]
    exact hin.2
  have hr := stByte_returns (P := .emulator) rfl h (d.nvmctrlBase + d.nvmDesc.regCtrla)
    d.nvmDesc.cmdWriteFuse
  rw [wireAddress_ctrla hd, memWrite_writeFuse hd hc hv hlo hhi hlt, hval] at hr
  refine hr.mono fun s h ↦ ⟨_, h, hc.of_agree hall, ?_, hall⟩
  rw [hs'.others.io _ ?_, hs.cell]
  have hlow := hio.1
  have hctrla := hin.2.2
  omega

/-- The indirect way of P:0, over the address and data registers. -/
theorem writeFuse_registers (hv : d.nvmDesc = nvmDescP0) :
    Returns (do
      waitNvmReady (emuTransport .emulator) d 100
      stByte (emuTransport .emulator) (d.nvmctrlBase + d.nvmDesc.regAddr) (UInt8.ofNat address)
      stByte (emuTransport .emulator) (d.nvmctrlBase + d.nvmDesc.regAddr + 1)
        (UInt8.ofNat (address / 0x100))
      stByte (emuTransport .emulator) (d.nvmctrlBase + d.nvmDesc.regData) value
      executeNvmCommand (emuTransport .emulator) d d.nvmDesc.cmdWriteFuse
      waitNvmReady (emuTransport .emulator) d 100) s ()
      fun s ↦ ∃ m', InStep a24 m' s ∧ Configured d m' ∧
        CellStored (FuseCells d address) address value m m' := by
  have hbase : d.nvmctrlBase = emuIoBase := hd.nvmctrlBase
  have hsize : 0x10 ≤ emuIoSize := by decide
  have hregs : d.nvmDesc.regAddr = 0x08 ∧ d.nvmDesc.regData = 0x06 ∧ d.nvmDesc.regCtrla = 0x00 := by
    rw [hv]
    exact ⟨rfl, rfl, rfl⟩
  obtain ⟨hreg, hdata, hctrla⟩ := hregs
  have hin (k : ℕ) (hk : k < 0x10) : InIo (d.nvmctrlBase + k) := by
    unfold InIo
    omega
  have hcell (k : ℕ) (hk : k < 0x10) (a : ℕ) (ha : a = d.nvmctrlBase + k) :
      FuseCells d address a := by
    refine .inl ⟨?_, ?_⟩ <;> omega
  have hne (k : ℕ) (hk : 0 < k) : d.nvmctrlBase + k ≠ d.nvmctrlBase + d.nvmDesc.regCtrla := by
    omega
  have hidx (k : ℕ) : d.nvmctrlBase + k - emuIoBase = k := by
    omega
  rw [hreg, hdata]
  refine (waitNvmReady_returns hd hc h 100).bind fun s h ↦ ?_
  refine (storeIo_returns hd hc (hin 0x08 (by omega)) (hne 0x08 (by omega)) _ h).bind fun s hs ↦ ?_
  obtain ⟨m₁, h, hc₁, hlo⟩ := hs
  refine (storeIo_returns hd hc₁ (hin 0x09 (by omega)) (hne 0x09 (by omega)) _ h).bind fun s hs ↦ ?_
  obtain ⟨m₂, h, hc₂, hhi⟩ := hs
  refine (storeIo_returns hd hc₂ (hin 0x06 (by omega)) (hne 0x06 (by omega)) _ h).bind fun s hs ↦ ?_
  obtain ⟨m₃, h, hc₃, hval⟩ := hs
  have hlo₁ := hlo.cell
  have hhi₁ := hhi.cell
  have hval₁ := hval.cell
  rw [hidx] at hlo₁ hval₁
  rw [hidx 0x09] at hhi₁
  have hlo₃ : m₃.io 0x08 = UInt8.ofNat address := by
    rw [hval.others.io _ (by omega), hhi.others.io _ (by omega), hlo₁]
  have hhi₃ : m₃.io 0x09 = UInt8.ofNat (address / 0x100) := by
    rw [hval.others.io _ (by omega), hhi₁]
  refine (storeFuse_returns hd hc₃ hio habove value h hv hlo₃ hhi₃ hval₁).bind fun s hs ↦ ?_
  obtain ⟨m₄, h, hc₄, hfuse⟩ := hs
  refine (waitNvmReady_returns hd hc₄ h 100).mono fun s h ↦ ⟨m₄, h, hc₄, hfuse.cell, ?_⟩
  have ha₁ := hlo.others.mono (hcell 0x08 (by omega))
  have ha₂ := hhi.others.mono (hcell 0x09 (by omega))
  have ha₃ := hval.others.mono (hcell 0x06 (by omega))
  exact ((ha₁.trans ha₂).trans ha₃).trans hfuse.others

/-- The direct way of P:3, between two commands to the EEPROM. -/
theorem writeFuse_eeprom (hv : d.nvmDesc = nvmDescP3) :
    Returns (do
      waitNvmReady (emuTransport .emulator) d 100
      executeNvmCommand (emuTransport .emulator) d d.nvmDesc.cmdEepromBufferClear
      waitNvmReady (emuTransport .emulator) d 100
      writeData (emuTransport .emulator) address [value]
      executeNvmCommand (emuTransport .emulator) d d.nvmDesc.cmdEepromEraseWrite
      finishCommand (emuTransport .emulator) d 100 true) s ()
      fun s ↦ ∃ m', InStep a24 m' s ∧ Configured d m' ∧
        CellStored (FuseCells d address) address value m m' := by
  have hctrla : d.nvmDesc.regCtrla = 0x00 := by rw [hv]; rfl
  have hne : address ≠ d.nvmctrlBase + d.nvmDesc.regCtrla := by omega
  have hcmd : (d.nvmDesc.cmdEepromBufferClear ≠ d.nvmDesc.cmdChipErase ∧
      d.nvmDesc.cmdEepromEraseWrite ≠ d.nvmDesc.cmdChipErase ∧
        d.nvmDesc.cmdNocmd ≠ d.nvmDesc.cmdChipErase) ∧
      d.nvmDesc.cmdWriteFuse = 0xFF := by
    rw [hv]
    decide
  obtain ⟨⟨hclear, hwrite, hnocmd⟩, hf⟩ := hcmd
  refine (waitNvmReady_returns hd hc h 100).bind fun s h ↦ ?_
  refine (storeCommand_returns hd hc hclear (.inl hf) h).bind fun s hs ↦ ?_
  obtain ⟨m₁, h, hc₁, ha₁⟩ := hs
  refine (waitNvmReady_returns hd hc₁ h 100).bind fun s h ↦ ?_
  refine (storeIo_returns hd hc₁ hio hne value h).bind fun s hs ↦ ?_
  obtain ⟨m₂, h, hc₂, hfuse⟩ := hs
  refine (storeCommand_returns hd hc₂ hwrite (.inl hf) h).bind fun s hs ↦ ?_
  obtain ⟨m₃, h, hc₃, ha₃⟩ := hs
  refine (waitNvmReady_returns hd hc₃ h 100).attempt.bind fun s h ↦ ?_
  refine (storeCommand_returns hd hc₃ hnocmd (.inl hf) h).attempt.bind fun s hs ↦ ?_
  obtain ⟨m₄, h, hc₄, ha₄⟩ := hs
  have ha := ha₃.trans ha₄
  refine .pure ⟨m₄, h, hc₄, ?_, ?_⟩
  · rw [ha.io _ ?_, hfuse.cell]
    rintro ⟨-, hbelow⟩
    have hlow := hio.1
    omega
  · exact ((ha₁.mono fun _ ↦ .inl).trans (hfuse.others.mono fun _ ↦ .inr)).trans
      (ha.mono fun _ ↦ .inl)

end Writes

section Table

variable (hmem : d ∈ deviceTable) (hc : Configured d m)
include hmem hc

theorem memRead_fuse {index : ℕ} (hindex : index < d.fusesSize) :
    m.memRead (d.fusesAddress + index) = m.io (d.fusesAddress + index - emuIoBase) := by
  have hd := UpdiDevice.wellFormed_of_mem hmem
  have hbase : d.nvmctrlBase = emuIoBase := hd.nvmctrlBase
  obtain ⟨habove, hbelow⟩ := fuses_in_io hmem
  have hstatus : d.nvmDesc.regStatus < 0x10 := by
    rcases nvmDesc_eq d with h | h <;> rw [h] <;> decide
  have hne : ¬d.fusesAddress + index = m.nvmctrlBase + m.statusOffset := by
    rw [hc.nvmctrlBase, hc.statusOffset]
    omega
  have hflash : ¬m.InFlash (d.fusesAddress + index) := by
    rintro ⟨hlow, -⟩
    have hfloor := hd.flash_above_io
    simp only [emuIoBase, emuIoSize] at hbelow
    rw [hc.flashBase] at hlow
    omega
  rw [memRead, if_neg hne, if_neg hflash, if_pos]
  unfold InIo
  omega

theorem readFuse_returns {index : UInt8} (hindex : index.toNat < d.fusesSize) (h : InStep a24 m s) :
    Returns (readFuse (emuTransport .emulator) d index) s
      (m.io (d.fusesAddress + index.toNat - emuIoBase))
      (InStep a24 m) := by
  have haddr : wireAddress a24 (d.fusesAddress + index.toNat) = d.fusesAddress + index.toNat := by
    have hbelow := (fuses_in_io hmem).2
    simp only [emuIoBase, emuIoSize] at hbelow
    unfold wireAddress addressSpace
    split_ifs <;> exact Nat.mod_eq_of_lt (by omega)
  have hr := ldByte_returns (P := .emulator) h (d.fusesAddress + index.toNat)
  rw [haddr, memRead_fuse hmem hc hindex] at hr
  rwa [readFuse, if_neg (by omega)]

theorem writeFuse_returns {index : UInt8} (hindex : index.toNat < d.fusesSize) (value : UInt8)
    (h : InStep a24 m s) :
    Returns (writeFuse (emuTransport .emulator) d index value) s () fun s ↦ ∃ m', InStep a24 m' s ∧
      Configured d m' ∧
      CellStored (FuseCells d (d.fusesAddress + index.toNat)) (d.fusesAddress + index.toNat)
        value m m' := by
  have hd := UpdiDevice.wellFormed_of_mem hmem
  have hbase : d.nvmctrlBase = emuIoBase := hd.nvmctrlBase
  obtain ⟨habove, hbelow⟩ := fuses_in_io hmem
  have habove' : d.nvmctrlBase + 0x10 ≤ d.fusesAddress + index.toNat := by omega
  have hio : InIo (d.fusesAddress + index.toNat) := by
    unfold InIo
    omega
  rw [writeFuse, if_neg (by omega)]
  rcases nvmDesc_eq d with hv | hv
  · have hvia : ¬d.nvmDesc.fuseViaEeprom := by simp [hv, nvmDescP0]
    rw [if_neg hvia]
    exact writeFuse_registers hd hc hio habove' value h hv
  · have hvia : d.nvmDesc.fuseViaEeprom := by simp [hv, nvmDescP3]
    rw [if_pos hvia]
    exact writeFuse_eeprom hd hc hio habove' value h hv

end Table

/-- From `s` to `s'` the fuse `index` took `value`, and nothing else but the
registers of NVMCTRL has changed. -/
structure FuseHit (d : UpdiDevice) (index value : UInt8) (s s' : LinkState UpdiEmu) : Prop where
  hit : (readFuse (emuTransport .emulator) d index s').1 = .ok value
  others : ∀ j, j ≠ index → (readFuse (emuTransport .emulator) d j s').1 =
    (readFuse (emuTransport .emulator) d j s).1
  rest : AgreeOutside (FuseCells d (d.fusesAddress + index.toNat)) s.ctx.mem s'.ctx.mem

theorem writeFuse_hits (hmem : d ∈ deviceTable) (index value : UInt8) :
    (∀ s : LinkState UpdiEmu, s.link.addressBytes = d.addressBytes → Configured d s.ctx.mem →
      At s.ctx.mem [] 0 s.ctx → index.toNat < d.fusesSize →
      (writeFuse (emuTransport .emulator) d index value s).1 = .ok () ∧
        FuseHit d index value s (writeFuse (emuTransport .emulator) d index value s).2) ∧
    ∀ (σ : Type) (t : UpdiTransport σ) (s : LinkState σ), d.fusesSize ≤ index.toNat →
      writeFuse t d index value s = (.error .param, s) := by
  constructor
  · intro s hwidth hc hat hindex
    have h : InStep (d.addressBytes == 3) s.ctx.mem s := ⟨by rw [hwidth], hat⟩
    obtain ⟨s', hrun, m', h', hc', hs⟩ := writeFuse_returns hmem hc hindex value h
    rw [hrun]
    refine ⟨rfl, ?_, fun j hj ↦ ?_, ?_⟩
    · obtain ⟨_, hread, -⟩ := readFuse_returns hmem hc' hindex h'
      rw [hread, hs.cell]
    · by_cases hsize : j.toNat < d.fusesSize
      · obtain ⟨_, hread, -⟩ := readFuse_returns hmem hc hsize h
        obtain ⟨_, hread', -⟩ := readFuse_returns hmem hc' hsize h'
        have hne : j.toNat ≠ index.toNat := fun heq ↦ hj (UInt8.toNat_inj.mp heq)
        have hbase : d.nvmctrlBase = emuIoBase := (UpdiDevice.wellFormed_of_mem hmem).nvmctrlBase
        have habove := (fuses_in_io hmem).1
        rw [hread, hread', hs.others.io]
        rintro (⟨-, hreg⟩ | hfuse) <;> omega
      · rw [readFuse, if_pos (by omega)]
        rfl
    · rw [h'.target.mem]
      exact hs.others
  · intro σ t s hindex
    rw [writeFuse, if_pos hindex]
    rfl

def avr64ea28 : UpdiDevice :=
  ⟨0x1E9620, "avr64ea28", 0x800000, 0x10000, 0x80, 0x1050, 0x9, 0x1100, 0x1000, 3, .p3⟩

def freshAvr64ea28 : UpdiEmu :=
  UpdiEmu.init.configP3 avr64ea28.signature [0x20, 0x20, 0x20, 0x20, 0x41, 0x56, 0x52]

def avr64ea28Link : LinkState UpdiEmu := ⟨UpdiLink.setAddressSize 3 UpdiLink.init, freshAvr64ea28⟩

/-- Fuse 7 of either variant, and a fuse that neither has. -/
theorem writeFuse_hits_either_variant :
    ((writeFuse (emuTransport .emulator) attiny412 7 0x5A ⟨UpdiLink.init, freshAttiny412⟩).1 =
      .ok () ∧
      FuseHit attiny412 7 0x5A ⟨UpdiLink.init, freshAttiny412⟩
        (writeFuse (emuTransport .emulator) attiny412 7 0x5A ⟨UpdiLink.init, freshAttiny412⟩).2) ∧
    ((writeFuse (emuTransport .emulator) avr64ea28 7 0x5A avr64ea28Link).1 = .ok () ∧
      FuseHit avr64ea28 7 0x5A avr64ea28Link
        (writeFuse (emuTransport .emulator) avr64ea28 7 0x5A avr64ea28Link).2) ∧
    writeFuse UpdiTransport.silent attiny412 9 0x5A ⟨UpdiLink.init, ()⟩ =
      (.error .param, ⟨UpdiLink.init, ()⟩) :=
  ⟨(writeFuse_hits (d := attiny412) (by decide) 7 0x5A).1 ⟨UpdiLink.init, freshAttiny412⟩ rfl
      ⟨rfl, rfl, rfl, rfl, rfl, rfl, rfl, rfl⟩ ⟨rfl, rfl, rfl, rfl⟩ (by decide),
    (writeFuse_hits (d := avr64ea28) (by decide) 7 0x5A).1 avr64ea28Link rfl
      ⟨rfl, rfl, rfl, rfl, rfl, rfl, rfl, rfl⟩ ⟨rfl, rfl, rfl, rfl⟩ (by decide),
    (writeFuse_hits (d := attiny412) (by decide) 9 0x5A).2 Unit .silent
      ⟨UpdiLink.init, ()⟩ (by decide)⟩

end UpdiProgrammer.HostTest
