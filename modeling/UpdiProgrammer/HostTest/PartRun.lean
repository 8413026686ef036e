import UpdiProgrammer.HostTest.Part
import UpdiProgrammer.HostTest.VerifyRun
import UpdiProgrammer.Library.Simulation

namespace UpdiProgrammer.HostTest

open Updi UpdiLink UpdiNvm UpdiSession Library.Program Library.Memory Library.Simulation UpdiEmu Ui

/-- A link in step with a part that resembles the one on the bench. -/
def Held (a24 : Bool) (d : UpdiDevice) (m₀ : EmuMem) (b : Bench) (s : LinkState UpdiEmu) : Prop :=
  ∃ m, Resembles d m₀ b m ∧ InStep a24 m s

variable {a24 : Bool} {d : UpdiDevice} {m₀ m : EmuMem} {b : Bench} {s : LinkState UpdiEmu}
  {α : Type}

theorem Resembles.held (hm : Resembles d m₀ b m) {x : LinkM UpdiEmu α} {a : α}
    (h : Returns x s a (InStep a24 m)) :
    Returns x s a (Held a24 d m₀ b) := h.mono fun _ h ↦ ⟨m, hm, h⟩

theorem held_stcs {a : UInt8} (ha : (a &&& 0x0F) &&& 0x0F ≠ csStatusa) (v : UInt8)
    (h : Held a24 d m₀ b s) :
    Returns (stcs (emuTransport .emulator) a v) s () (Held a24 d m₀ b) := by
  obtain ⟨m, hm, h⟩ := h
  exact (hm.applyStcs ha v).held (stcs_returns h a v)

theorem held_nvmReset (apply : Bool) (h : Held a24 d m₀ b s) :
    Returns (nvmReset (emuTransport .emulator) apply) s () (Held a24 d m₀ b) :=
  held_stcs (by decide) _ h

theorem held_leaveProgmode (h : Held a24 d m₀ b s) :
    Returns (leaveProgmode (emuTransport .emulator)) s () (Held a24 d m₀ b) := by
  refine (held_nvmReset true h).attempt.bind fun s h ↦ ?_
  refine (held_nvmReset false h).attempt.bind fun s h ↦ ?_
  exact held_stcs (by decide) _ h

theorem held_activate (h : Held a24 d m₀ b s) :
    Returns (activate (emuTransport .emulator)) s () (Held a24 d m₀ b) := by
  obtain ⟨m, hm, h⟩ := h
  have hsame : m.SameStore ((m.setCs csCtrlb ctrlbCcdetdis).setCs csCtrla ctrlaIbdly) :=
    (EmuMem.SameStore.setCs m _ _).trans (.setCs _ _ _)
  exact (hm.of_sameStore hsame hm.ident.live).held (activate_returns h hm.ident.live)

theorem Resembles.keyed (h : Resembles d m₀ b m) : Resembles d m₀ b m.keyed :=
  (h.applyStcs (by decide) _).applyKey _

theorem Resembles.unlocked (h : Resembles d m₀ b m) : Resembles d m₀ b m.unlocked :=
  (h.keyed.applyStcs (by decide) _).applyStcs (by decide) _

theorem held_enterProgmode (h : Held a24 d m₀ b s) :
    Returns (enterProgmode (emuTransport .emulator)) s () (Held a24 d m₀ b) := by
  obtain ⟨m, hm, h⟩ := h
  refine (inProgmode_returns h).bind fun s h ↦ ?_
  by_cases hp : m.cs asiSysStatus &&& sysStatusNvmprog = 0
  · obtain ⟨hlock, hprog⟩ := m.unlocked_sysStatus
    rw [if_neg (by simpa using hp)]
    refine (applyNvmprogKey_returns h).bind fun s h ↦ ?_
    refine (waitUnlocked_returns h hlock 100).bind fun s h ↦ ?_
    rw [if_pos rfl]
    refine (inProgmode_returns h).bind fun s h ↦ ?_
    rw [if_pos (bne_iff_ne.mpr hprog)]
    exact .pure ⟨_, hm.unlocked, h⟩
  · rw [if_pos (bne_iff_ne.mpr hp)]
    exact .pure ⟨m, hm, h⟩

theorem keyStatus_chiperase (m : EmuMem) :
    (m.applyKey keyChiperase).cs asiKeyStatus &&& keyStatusChiperase ≠ 0 ∧
    (m.applyKey keyChiperase).eraseKey = true := by
  have hkey : m.applyKey keyChiperase =
      { m.setCs asiKeyStatus
        (m.cs asiKeyStatus ||| keyStatusChiperase) with eraseKey := true } := by
    rw [EmuMem.applyKey, if_neg (by decide), if_pos rfl]
  have hbit (x : UInt8) : (x ||| keyStatusChiperase) &&& keyStatusChiperase =
      keyStatusChiperase := by
    apply UInt8.toBitVec_inj.mp
    simp
    generalize x.toBitVec = y
    revert y
    decide
  rw [hkey]
  refine ⟨?_, rfl⟩
  have hcs : (m.setCs asiKeyStatus (m.cs asiKeyStatus ||| keyStatusChiperase)).cs asiKeyStatus =
      m.cs asiKeyStatus ||| keyStatusChiperase := by
    simp only [EmuMem.setCs, Function.update_self]
  rw [hcs, hbit]
  decide

@[simp] theorem applyStcs_eraseKey (m : EmuMem) (a v : UInt8) :
    (m.applyStcs a v).eraseKey = m.eraseKey := by
  unfold EmuMem.applyStcs
  dsimp only
  split_ifs <;> rfl

theorem applyStcs_eraseRelease (m : EmuMem) (hk : m.eraseKey = true) :
    (m.applyStcs asiResetReq 0x00).cs asiSysStatus &&& sysStatusLockstatus = 0 := by
  have hbit (x : UInt8) : (x &&& ~~~sysStatusLockstatus) &&& sysStatusLockstatus = 0 := by
    apply UInt8.toBitVec_inj.mp
    simp
    generalize x.toBitVec = y
    revert y
    decide
  unfold EmuMem.applyStcs EmuMem.setCs
  cases m.nvmKey with
  | false =>
    simp [hk]
    apply hbit
  | true =>
    simp [hk]
    apply hbit

theorem held_unlock (h : Held a24 d m₀ b s) :
    Returns (UpdiNvm.unlock (emuTransport .emulator)) s () (Held a24 d m₀ b) := by
  obtain ⟨m, hm, h⟩ := h
  have hkey := keyStatus_chiperase m
  have hlock :=
    applyStcs_eraseRelease ((m.applyKey keyChiperase).applyStcs asiResetReq resetReqValue)
    ((applyStcs_eraseKey ..).trans hkey.2)
  have hm' : Resembles d m₀ b
      (((m.applyKey keyChiperase).applyStcs asiResetReq resetReqValue).applyStcs
      asiResetReq 0x00) := ((hm.applyKey _).applyStcs (by decide) _).applyStcs (by decide) _
  refine (sendKey_returns h rfl).bind fun s h ↦ ?_
  have hks : Returns (ldcs (emuTransport .emulator) asiKeyStatus) s
      ((m.applyKey keyChiperase).cs asiKeyStatus)
      (InStep a24 (m.applyKey keyChiperase)) := ldcs_returns h asiKeyStatus
  refine hks.bind fun s h ↦ ?_
  rw [if_neg hkey.1]
  refine (nvmReset_returns h true).attempt.bind fun s h ↦ ?_
  refine (nvmReset_returns h false).attempt.bind fun s h ↦ ?_
  refine (waitUnlocked_returns h hlock 500).bind fun s h ↦ ?_
  rw [if_pos rfl]
  exact .pure ⟨_, hm', h⟩

section Commands

variable (hmem : d ∈ deviceTable)
include hmem

theorem held_waitNvmReady (timeoutMs : UInt32) (h : Held a24 d m₀ b s) :
    Returns (waitNvmReady (emuTransport .emulator) d timeoutMs) s () (Held a24 d m₀ b) := by
  obtain ⟨m, hm, h⟩ := h
  exact hm.held (waitNvmReady_returns (UpdiDevice.wellFormed_of_mem hmem) hm.configured h timeoutMs)

theorem held_executeNvmCommand {c : UInt8} (he : c ≠ d.nvmDesc.cmdChipErase)
    (hf : d.nvmDesc.cmdWriteFuse = 0xFF ∨ c ≠ d.nvmDesc.cmdWriteFuse) (h : Held a24 d m₀ b s) :
    Returns (executeNvmCommand (emuTransport .emulator) d c) s () (Held a24 d m₀ b) := by
  have hd := UpdiDevice.wellFormed_of_mem hmem
  obtain ⟨m, hm, h⟩ := h
  have hr := stByte_returns (P := .emulator) rfl h (d.nvmctrlBase + d.nvmDesc.regCtrla) c
  rw [wireAddress_ctrla hd, memWrite_command hd hm.configured he hf] at hr
  exact (hm.setIo_ctrla hmem c).held hr

theorem held_finishCommand (timeoutMs : UInt32) (clear : Bool) (h : Held a24 d m₀ b s) :
    Returns (finishCommand (emuTransport .emulator) d timeoutMs clear) s () (Held a24 d m₀ b) := by
  refine (held_waitNvmReady hmem timeoutMs h).attempt.bind fun s h ↦ ?_
  cases clear with
  | false => exact .pure h
  | true =>
    have hn : d.nvmDesc.cmdNocmd ≠ d.nvmDesc.cmdChipErase ∧
        (d.nvmDesc.cmdWriteFuse = 0xFF ∨ d.nvmDesc.cmdNocmd ≠ d.nvmDesc.cmdWriteFuse) := by
      rcases nvmDesc_eq d with h | h <;> rw [h] <;> decide
    exact (held_executeNvmCommand hmem hn.1 hn.2 h).attempt.bind fun s h ↦ .pure h

theorem held_chipErase (h : Held a24 d m₀ b s) :
    Returns (UpdiNvm.chipErase (emuTransport .emulator) d) s ()
      (Held a24 d m₀ { b with flash := fun _ ↦ 0xFF }) := by
  have hd := UpdiDevice.wellFormed_of_mem hmem
  refine (held_waitNvmReady hmem 100 h).bind fun s h ↦ ?_
  obtain ⟨m, hm, h⟩ := h
  have hr := stByte_returns (P := .emulator) rfl h (d.nvmctrlBase + d.nvmDesc.regCtrla)
    d.nvmDesc.cmdChipErase
  rw [wireAddress_ctrla hd, memWrite_chipErase hd hm.configured] at hr
  refine (((hm.withFlash _).setIo_ctrla hmem _).held hr).bind fun s h ↦ ?_
  exact held_finishCommand hmem 500 _ h

theorem held_writeDataWords {off : ℕ} {data : List UInt8} (hlen : data.length = d.flashPageSize)
    (hoff : off + d.flashPageSize ≤ d.flashSize)
    (hfit : d.flashAddress + d.flashSize ≤ addressSpace a24) (h : Held a24 d m₀ b s) :
    Returns (writeDataWords (emuTransport .emulator) (d.flashAddress + off) data) s ()
      (Held a24 d m₀ { b with flash := overwrite b.flash off data }) := by
  have hd := UpdiDevice.wellFormed_of_mem hmem
  obtain ⟨m, hm, h⟩ := h
  have hpos := hd.page_pos
  have hle := hd.page_le
  have heven := hd.page_even
  have hsize := hd.flashSize_le
  have hmax : maxRepeatSize = 256 := rfl
  have hflash : emuFlashSize = 0x10000 := rfl
  obtain ⟨m', hm', hr⟩ := writeDataWords_returns (P := .emulator) rfl h (d.flashAddress + off)
    (by omega : data.length ≠ 0) (by omega) (by omega)
  have hstore : m.writeAll (wireAddress a24 (d.flashAddress + off)) data =
      { m with flash := overwrite m.flash off data } := by
    rw [wireAddress_of_lt (by omega), ← hm.configured.flashBase]
    exact writeAll_flash (by omega)
  have hnew := hm.withFlash (overwrite m.flash off data)
  rw [← hstore, hm.flash] at hnew
  refine Resembles.held ?_ hr
  rcases hm' with rfl | rfl
  · exact hnew
  · exact hnew.of_sameStore (.setCs _ _ _) hnew.ident.live

theorem held_writeFlashPage {off : ℕ} {data : List UInt8} (hlen : data.length = d.flashPageSize)
    (hoff : off + d.flashPageSize ≤ d.flashSize)
    (hfit : d.flashAddress + d.flashSize ≤ addressSpace a24) (h : Held a24 d m₀ b s) :
    Returns (writeFlashPage (emuTransport .emulator) d (d.flashAddress + off) data) s ()
      (Held a24 d m₀ { b with flash := overwrite b.flash off data }) := by
  have hd := UpdiDevice.wellFormed_of_mem hmem
  have hpos := hd.page_pos
  have heven := hd.page_even
  have hclear : d.nvmDesc.cmdPageBufferClear ≠ d.nvmDesc.cmdChipErase ∧
      (d.nvmDesc.cmdWriteFuse = 0xFF ∨ d.nvmDesc.cmdPageBufferClear ≠ d.nvmDesc.cmdWriteFuse) := by
    rcases nvmDesc_eq d with h | h <;> rw [h] <;> decide
  have hwrite : d.nvmDesc.cmdWritePage ≠ d.nvmDesc.cmdChipErase ∧
      (d.nvmDesc.cmdWriteFuse = 0xFF ∨ d.nvmDesc.cmdWritePage ≠ d.nvmDesc.cmdWriteFuse) := by
    rcases nvmDesc_eq d with h | h <;> rw [h] <;> decide
  rw [writeFlashPage, if_neg (by omega), if_neg (by omega)]
  refine (held_waitNvmReady hmem 100 h).bind fun s h ↦ ?_
  refine (held_executeNvmCommand hmem hclear.1 hclear.2 h).bind fun s h ↦ ?_
  refine (held_waitNvmReady hmem 100 h).bind fun s h ↦ ?_
  refine (held_writeDataWords hmem hlen hoff hfit h).bind fun s h ↦ ?_
  refine (held_executeNvmCommand hmem hwrite.1 hwrite.2 h).bind fun s h ↦ ?_
  exact held_finishCommand hmem 100 _ h

end Commands

/-- The flash after the pages of `data` were written to it from offset `off` on. -/
def writtenFrom (page off : ℕ) (data : List UInt8) (flash : ℕ → UInt8) : ℕ → UInt8 := fun i ↦
  if i < off then flash i
  else if allFf ((data.drop ((i - off) / page * page)).take page) then flash i
  else data.getD (i - off) 0xFF

theorem writtenFrom_zero (page : ℕ) (data : List UInt8) (flash : ℕ → UInt8) :
    writtenFrom page 0 data flash = Bench.writePages page data flash := by
  funext i
  rw [writtenFrom, if_neg (Nat.not_lt_zero i)]
  rfl

theorem writtenFrom_nil (page off : ℕ) (flash : ℕ → UInt8) :
    writtenFrom page off [] flash = flash := by
  funext i
  have hall : allFf (([].drop ((i - off) / page * page)).take page) = true := by
    rw [List.drop_nil, List.take_nil]
    rfl
  rw [writtenFrom, if_pos hall, ite_self]

theorem allFf_padPage (page : ℕ) (chunk : List UInt8) :
    allFf (padPage page chunk) = allFf chunk := by
  have hpad : allFf (List.replicate (page - chunk.length) 0xFF) = true := by
    refine List.all_eq_true.mpr fun x hx ↦ ?_
    rw [List.eq_of_mem_replicate hx]
    rfl
  unfold allFf at hpad ⊢
  rw [padPage, List.all_append, hpad, Bool.and_true]

theorem getD_padPage {page i : ℕ} (chunk : List UInt8) :
    (padPage page chunk).getD i 0xFF = chunk.getD i 0xFF := by
  by_cases hi : i < chunk.length
  · rw [padPage, List.getD_append _ _ _ _ hi]
  · rw [padPage, List.getD_append_right _ _ _ _ (by omega), List.getD_eq_getElem?_getD,
      List.getElem?_getD_replicate_default_eq, List.getD_eq_default _ _ (by omega)]

theorem writtenFrom_page {page off : ℕ} (hpage : 0 < page) (data : List UInt8) (flash : ℕ → UInt8) :
    writtenFrom page (off + page) (data.drop page)
      (if allFf (padPage page (data.take page)) then flash
        else overwrite flash off (padPage page (data.take page))) =
          writtenFrom page off data flash := by
  funext i
  unfold writtenFrom
  rw [allFf_padPage]
  have hlen : (padPage page (data.take page)).length = page :=
    padPage_length (List.length_take_le _ _)
  rcases Nat.lt_or_ge i off with hlow | hlow
  · rw [if_pos (by omega), if_pos hlow]
    split_ifs
    · rfl
    · exact overwrite_of_not (by omega)
  rw [if_neg (by omega : ¬i < off)]
  obtain ⟨k, rfl⟩ := Nat.exists_eq_add_of_le hlow
  rw [Nat.add_sub_cancel_left]
  rcases Nat.lt_or_ge k page with hin | hout
  · rw [if_pos (by omega), Nat.div_eq_of_lt hin, Nat.zero_mul, List.drop_zero]
    split_ifs
    · rfl
    · rw [overwrite_of_lt (by omega), ← List.getD_eq_getElem _ 0xFF, getD_padPage]
      simp only [List.getD_eq_getElem?_getD, List.getElem?_take, if_pos hin]
  · obtain ⟨j, rfl⟩ := Nat.exists_eq_add_of_le hout
    have hsub : off + (page + j) - (off + page) = j := by omega
    have hdiv : (page + j) / page * page = page + j / page * page := by
      rw [Nat.add_div_left _ hpage, Nat.succ_mul, Nat.add_comm]
    have hold : (if allFf (data.take page) then flash else
        overwrite flash off (padPage page (data.take page)))
        (off + (page + j)) = flash (off + (page + j)) := by
      split_ifs
      · rfl
      · exact overwrite_of_not (by omega)
    rw [if_neg (by omega), hsub, hold, List.drop_drop, hdiv]
    simp only [List.getD_eq_getElem?_getD, List.getElem?_drop]

theorem held_writePages (hmem : d ∈ deviceTable)
    (hfit : d.flashAddress + d.flashSize ≤ addressSpace a24) (fuel off : ℕ) (data : List UInt8)
    (hfuel : data.length ≤ fuel) (hoff : off % d.flashPageSize = 0)
    (hlen : data.length ≠ 0 → off + data.length ≤ d.flashSize) (h : Held a24 d m₀ b s) :
    Returns (writePages (emuTransport .emulator) d d.flashPageSize fuel (d.flashAddress + off) data)
      s () (Held a24 d m₀ { b with flash := writtenFrom d.flashPageSize off data b.flash }) := by
  have hd := UpdiDevice.wellFormed_of_mem hmem
  induction fuel generalizing off data b s with
  | zero =>
    obtain rfl : data = [] := List.length_eq_zero_iff.mp (by omega)
    rw [writtenFrom_nil]
    exact .pure h
  | succ fuel ih =>
    rw [UpdiSession.writePages]
    by_cases h0 : data.length = 0
    · obtain rfl : data = [] := List.length_eq_zero_iff.mp h0
      rw [writtenFrom_nil]
      exact .pure h
    have hpos := hd.page_pos
    have hend := hlen h0
    have hpage := UpdiDevice.page_fits hoff hd.page_dvd (by omega : off < d.flashSize)
    have hstep := @writtenFrom_page _ off hpos data b.flash
    have hrest (flash : ℕ → UInt8) (s : LinkState UpdiEmu)
        (h : Held a24 d m₀ { b with flash := flash } s) :=
      ih (off + d.flashPageSize) (data.drop d.flashPageSize) (by rw [List.length_drop]; omega)
        (by rw [Nat.add_mod_right, hoff]) (by rw [List.length_drop]; omega) h
    rw [if_neg h0, Nat.add_assoc]
    by_cases hall : allFf (padPage d.flashPageSize (data.take d.flashPageSize)) = true
    · simp only [hall, Bool.not_true, Bool.false_eq_true, if_false]
      rw [if_pos hall] at hstep
      rw [← hstep]
      exact hrest _ s h
    · simp only [Bool.eq_false_iff.mpr hall, Bool.not_false, if_true]
      rw [if_neg hall] at hstep
      rw [← hstep]
      refine (held_writeFlashPage hmem (padPage_length (List.length_take_le _ _)) hpage hfit h).bind
        fun s h ↦ ?_
      exact hrest _ s h

section Reads

variable (hmem : d ∈ deviceTable) (hfit : d.flashAddress + d.flashSize ≤ addressSpace a24)
include hmem hfit

theorem held_readsFaithfully :
    ReadsFaithfully (emuTransport .emulator) d b.flash (Held a24 d m₀ b) := by
  rintro s off len ⟨m, hm, h⟩ hlen
  have hd := UpdiDevice.wellFormed_of_mem hmem
  have hp : Programmed d m b.flash m := ⟨hm.configured, hm.flash, fun _ _ ↦ rfl⟩
  obtain ⟨s', hread, h'⟩ := Worker.read_programmed hd hfit hp h hlen
  exact ⟨s', hread, m, hm, h'⟩

theorem held_readFlashChunks {len : ℕ} (hlen : len ≤ d.flashSize) (h : Held a24 d m₀ b s) :
    Returns (readFlashChunks (emuTransport .emulator) len d.flashAddress len) s
      ((List.range len).map b.flash) (Held a24 d m₀ b) := by
  have hd := UpdiDevice.wellFormed_of_mem hmem
  obtain ⟨m, hm, h⟩ := h
  have hp : Programmed d m b.flash m := ⟨hm.configured, hm.flash, fun _ _ ↦ rfl⟩
  have hcells := hp.cells_flash hd (by omega : 0 + len ≤ d.flashSize)
  simp only [Nat.zero_add, Nat.add_zero] at hcells
  rw [← hcells]
  exact hm.held (readFlashChunks_returns _ d.flashAddress _ le_rfl (by omega) h)

theorem held_verifyChunks (data : List UInt8) (hlen : data.length ≤ d.flashSize)
    (h : Held a24 d m₀ b s) :
    Returns (verifyChunks (emuTransport .emulator) d.flashAddress data.length 0 data) s
      (firstMismatch (data.getD · 0) b.flash 0 data.length) (Held a24 d m₀ b) := by
  have hr := verifyChunks_faithful (held_readsFaithfully hmem hfit)
    (data.getD · 0) data.length 0 data.length (Nat.le_refl _) (by omega) h
  rwa [map_getD_range] at hr

end Reads

theorem held_readFuseLoop (hmem : d ∈ deviceTable) (n i : ℕ) (hn : i + n ≤ d.fusesSize)
    (h : Held a24 d m₀ b s) :
    Returns (readFuseLoop (emuTransport .emulator) d n i) s ((List.range' i n).map b.fuses)
      (Held a24 d m₀ b) := by
  have hsize : d.fusesSize < 256 := by
    have hall : ∀ d ∈ deviceTable, d.fusesSize < 256 := by decide
    exact hall d hmem
  induction n generalizing i s with
  | zero => exact .pure h
  | succ n ih =>
    rw [readFuseLoop, List.range'_succ, List.map_cons]
    have hindex : (UInt8.ofNat i).toNat = i := by
      rw [UInt8.toNat_ofNat']
      omega
    obtain ⟨m, hm, h⟩ := h
    have hlt : (UInt8.ofNat i).toNat < d.fusesSize := by omega
    have hr := readFuse_returns hmem hm.configured hlt h
    rw [hindex, hm.fuses i (by omega)] at hr
    refine (hm.held hr).bind fun s h ↦ ?_
    exact (ih (i + 1) (by omega) h).bind fun s h ↦ .pure h

theorem held_writeFuse (hmem : d ∈ deviceTable) {index : UInt8} (hindex : index.toNat < d.fusesSize)
    (value : UInt8) (h : Held a24 d m₀ b s) :
    Returns (UpdiNvm.writeFuse (emuTransport .emulator) d index value) s ()
      (Held a24 d m₀ { b with fuses := Function.update b.fuses index.toNat value }) := by
  obtain ⟨m, hm, h⟩ := h
  refine (writeFuse_returns hmem hm.configured hindex value h).mono fun s hs ↦ ?_
  obtain ⟨m', h', -, hcell⟩ := hs
  exact ⟨m', hm.storeFuse hmem hindex hcell, h'⟩

theorem known_of_connected (hc : b.contact = .connected) : b.contact ≠ .unknown := by
  rw [hc]
  decide

/-- A session over a link in step with such a part, of which it knows what the bench says. -/
structure Embodies (d : UpdiDevice) (m₀ : EmuMem) (b : Bench) (s : SessionState UpdiEmu) :
    Prop where
  connected : s.session.connected = decide (b.contact = .connected)
  unknown : b.contact = .unknown → s.session.device = none
  found : b.contact ≠ .unknown → s.session.device = some d ∧ s.session.nvmDevice = some d ∧
    (s.session.link.addressBytes == 3) = (d.addressBytes == 3)
  told : b.contact ≠ .unknown → s.session.sib = sibInfo (sibBytes m₀ 16) ∧
    s.session.sig = d.signature
  line : Held (s.session.link.addressBytes == 3) d m₀ b ⟨s.session.link, s.ctx⟩

namespace Embodies

variable {s : SessionState UpdiEmu} {b' : Bench}

theorem onLink {x : LinkM UpdiEmu α} {a : α} (h : Embodies d m₀ b s) (hc : b'.contact = b.contact)
    (hx : Returns x ⟨s.session.link, s.ctx⟩ a (Held (s.session.link.addressBytes == 3) d m₀ b')) :
    Returns (UpdiSession.onLink x) s a (Embodies d m₀ b') := by
  obtain ⟨l, hl, m, hm, hstep⟩ := hx
  refine ⟨_, onLink_ok hl, ?_, ?_, ?_, ?_, ?_⟩
  · rw [hc]
    exact h.connected
  · rw [hc]
    exact h.unknown
  · rw [hc]
    intro hne
    obtain ⟨hdev, hnvm, hwidth⟩ := h.found hne
    exact ⟨hdev, hnvm, hstep.addr24.trans hwidth⟩
  · rw [hc]
    exact h.told
  · exact ⟨m, hm, rfl, hstep.target⟩

theorem connectedDevice_run (h : Embodies d m₀ b s) (hc : b.contact = .connected) :
    connectedDevice s = (.ok d, s) := by
  obtain ⟨hdev, -, -⟩ := h.found (known_of_connected hc)
  have hconn := h.connected
  rw [decide_eq_true hc] at hconn
  simp only [connectedDevice, hconn, hdev]

theorem connectedDevice_refuses (h : Embodies d m₀ b s) (hc : b.contact ≠ .connected) :
    connectedDevice s = (.error (.status .param), s) := by
  have hconn := h.connected
  rw [decide_eq_false hc] at hconn
  simp only [connectedDevice, hconn]

theorem boundDevice_run (h : Embodies d m₀ b s) (hc : b.contact ≠ .unknown) :
    boundDevice s = (.ok d, s) := by
  obtain ⟨-, hnvm, -⟩ := h.found hc
  simp only [boundDevice, hnvm]

theorem fits (hd : d.WellFormed) (h : Embodies d m₀ b s) (hc : b.contact ≠ .unknown) :
    d.flashAddress + d.flashSize ≤ addressSpace (s.session.link.addressBytes == 3) := by
  obtain ⟨-, -, hwidth⟩ := h.found hc
  rw [hwidth]
  exact flash_addressable hd

end Embodies

theorem nvmVersion_width (hd : d.WellFormed) (ht : TargetOf d m) :
    ((sibInfo (sibBytes m 16)).nvmVersion != 0) = (d.addressBytes == 3) := by
  rw [ht.nvmVersion, hd.addressBytes]
  cases d.nvmVariant <;> rfl

section Calls

variable (hmem : d ∈ deviceTable) {s : SessionState UpdiEmu} (h : Embodies d m₀ b s)
include hmem h

theorem embodies_connect : Returns (UpdiSession.connect (emuTransport .emulator)) s ()
    (Embodies d m₀ { b with contact := .connected }) := by
  have hd := UpdiDevice.wellFormed_of_mem hmem
  obtain ⟨l₁, hl₁, m₁, hm₁, hstep₁⟩ := held_activate h.line
  obtain ⟨l₂, hl₂, hstep₂⟩ := readSibInfo_returns (P := .emulator) hstep₁
  have hwidth := nvmVersion_width hd hm₁.ident.target
  have hheld : Held (d.addressBytes == 3) d m₀ b
      ⟨l₂.link.setAddressSize (if (sibInfo (sibBytes m₁ 16)).nvmVersion = 0 then 2 else 3),
        l₂.ctx⟩ := by
    refine ⟨m₁, hm₁, ?_, hstep₂.target⟩
    rw [← hwidth]
    by_cases h0 : (sibInfo (sibBytes m₁ 16)).nvmVersion = 0
    · rw [if_pos h0, h0]
      rfl
    · rw [if_neg h0, bne_iff_ne.mpr h0]
      rfl
  obtain ⟨l₃, hl₃, m₃, hm₃, hstep₃⟩ := held_enterProgmode hheld
  obtain ⟨l₄, hl₄, hstep₄⟩ := readSignature_returns (P := .emulator) rfl hstep₃
  have hid := hm₃.ident.target.findById hd
  have hsib : sibBytes m₁ 16 = sibBytes m₀ 16 := by rw [sibBytes, sibBytes, hm₁.ident.sib]
  have hsig := hm₃.ident.target.cells_sigrow hd
  refine ⟨_, Connect.connect_eq_ok.mpr ⟨l₁, _, l₂, l₃, _, l₄, d, hl₁, hl₂, hl₃, hl₄, hid, rfl⟩, ?_⟩
  refine ⟨rfl, fun hc ↦ (by cases hc), fun _ ↦ ⟨rfl, rfl, hstep₄.addr24⟩, fun _ ↦ ⟨?_, hsig⟩, m₃,
    hm₃.withContact _, rfl, hstep₄.target⟩
  rw [← hsib]

omit hmem in
theorem embodies_disconnect : Returns (UpdiSession.disconnect (emuTransport .emulator)) s ()
    (Embodies d m₀ { b with contact := if b.contact = .connected then .found else b.contact }) := by
  refine ((h.onLink rfl (held_leaveProgmode h.line)).attempt).bind fun s h ↦ ?_
  have hknown (hc : (if b.contact = .connected then .found else b.contact) ≠ Contact.unknown) :
      b.contact ≠ .unknown := by
    by_cases hc' : b.contact = .connected
    · simp [hc']
    · simpa [hc'] using hc
  refine ⟨_, update_run _ s, ?_, fun hc ↦ h.unknown ?_, fun hc ↦ h.found (hknown hc),
    fun hc ↦ h.told (hknown hc), ?_⟩
  · by_cases hc : b.contact = .connected
    · simp [hc]
    · simp [hc]
  · by_cases hc' : b.contact = .connected
    · simp [hc'] at hc
    · simpa [hc'] using hc
  · obtain ⟨m, hm, hstep⟩ := h.line
    exact ⟨m, hm.withContact _, hstep⟩

theorem embodies_chipErase (hc : b.contact ≠ .unknown) :
    Returns (UpdiSession.chipErase (emuTransport .emulator)) s ()
      (Embodies d m₀ { b with flash := fun _ ↦ 0xFF }) := by
  obtain ⟨hdev, -, -⟩ := h.found hc
  have hread :
      Returns (Prog.read (·.session.device) : SessionM UpdiEmu (Option UpdiDevice)) s (some d)
      (Embodies d m₀ b) := ⟨s, by rw [Prog.read_run, hdev], h⟩
  refine hread.bind fun s h ↦ Returns.bind ⟨s, h.boundDevice_run hc, h⟩ fun s h ↦ ?_
  exact h.onLink rfl (held_chipErase hmem h.line)

variable (hc : b.contact = .connected)
include hc

theorem embodies_writeFlash {image : List UInt8} (hlen : image.length ≤ d.flashSize) :
    Returns (UpdiSession.writeFlash (emuTransport .emulator) image) s ()
      (Embodies d m₀ { b with flash := Bench.writePages d.flashPageSize image b.flash }) := by
  have hd := UpdiDevice.wellFormed_of_mem hmem
  have hknown := known_of_connected hc
  have hpos := hd.page_pos
  have hle : d.flashPageSize ≤ maxPage := hd.page_le
  refine Returns.bind ⟨s, h.connectedDevice_run hc, h⟩ fun s h ↦ ?_
  rw [if_neg (by omega)]
  refine Returns.bind ⟨s, h.boundDevice_run hknown, h⟩ fun s h ↦ ?_
  have hr := held_writePages hmem (h.fits hd hknown) image.length 0 image (Nat.le_refl _)
    (Nat.zero_mod _) (fun _ ↦ by omega) h.line
  rw [writtenFrom_zero] at hr
  exact h.onLink rfl hr

theorem embodies_verifyFlash {image : List UInt8} (hlen : image.length ≤ d.flashSize) :
    Returns (UpdiSession.verifyFlash (emuTransport .emulator) image) s
      (firstMismatch (image.getD · 0) b.flash 0 image.length) (Embodies d m₀ b) := by
  have hd := UpdiDevice.wellFormed_of_mem hmem
  have hknown := known_of_connected hc
  refine Returns.bind ⟨s, h.connectedDevice_run hc, h⟩ fun s h ↦ ?_
  exact h.onLink rfl (held_verifyChunks hmem (h.fits hd hknown) image hlen h.line)

theorem embodies_readFlash {len : ℕ} (hlen : len ≤ d.flashSize) :
    Returns (UpdiSession.readFlash (emuTransport .emulator) len) s ((List.range len).map b.flash)
      (Embodies d m₀ b) := by
  have hd := UpdiDevice.wellFormed_of_mem hmem
  have hknown := known_of_connected hc
  refine Returns.bind ⟨s, h.connectedDevice_run hc, h⟩ fun s h ↦ ?_
  exact h.onLink rfl (held_readFlashChunks hmem (h.fits hd hknown) hlen h.line)

theorem embodies_readFuses (count : ℕ) :
    Returns (UpdiSession.readFuses (emuTransport .emulator) count) s
      ((List.range (min count d.fusesSize)).map b.fuses)
      (Embodies d m₀ b) := by
  have hknown := known_of_connected hc
  refine Returns.bind ⟨s, h.connectedDevice_run hc, h⟩ fun s h ↦ ?_
  refine Returns.bind ⟨s, h.boundDevice_run hknown, h⟩ fun s h ↦ ?_
  have hcount : (if d.fusesSize < count then d.fusesSize else count) = min count d.fusesSize := by
    split_ifs <;> omega
  rw [hcount, List.range_eq_range']
  exact h.onLink rfl (held_readFuseLoop hmem _ 0 (by omega) h.line)

theorem embodies_writeFuse {index : UInt8} (hindex : index.toNat < d.fusesSize) (value : UInt8) :
    Returns (UpdiSession.writeFuse (emuTransport .emulator) index value) s ()
      (Embodies d m₀ { b with fuses := Function.update b.fuses index.toNat value }) := by
  have hknown := known_of_connected hc
  refine Returns.bind ⟨s, h.connectedDevice_run hc, h⟩ fun s h ↦ ?_
  refine Returns.bind ⟨s, h.boundDevice_run hknown, h⟩ fun s h ↦ ?_
  exact h.onLink rfl (held_writeFuse hmem hindex value h.line)

end Calls

section Step

variable {σ : Type} {x : SessionM σ α} {reply : α → Reply} {s : SessionState σ}

theorem reply_of_returns {a : α} {Q : SessionState σ → Prop} (h : Returns x s a Q) :
    ((x >>= fun a ↦ pure (reply a)) s).1 = .ok (reply a) ∧
      Q ((x >>= fun a ↦ pure (reply a)) s).2 := by
  obtain ⟨s', hx, hq⟩ := h
  rw [Prog.bind_ok hx]
  exact ⟨rfl, hq⟩

theorem reply_of_error {e : Halt} {Q : SessionState σ → Prop} (h : x s = (.error e, s)) (hs : Q s) :
    ((x >>= fun a ↦ pure (reply a)) s).1 = .error e ∧ Q ((x >>= fun a ↦ pure (reply a)) s).2 := by
  rw [Prog.bind_error h]
  exact ⟨rfl, hs⟩

end Step

theorem onConnected_embodies {k : UpdiDevice → SessionM UpdiEmu α} {reply : α → Reply}
    {s : SessionState UpdiEmu} {r : Except Halt Reply × Bench} (h : Embodies d m₀ b s)
    (hstep : b.contact = .connected →
      (((connectedDevice >>= k) >>= fun a ↦ pure (reply a)) s).1 = r.1 ∧
      Embodies d m₀ r.2 (((connectedDevice >>= k) >>= fun a ↦ pure (reply a)) s).2) :
    (((connectedDevice >>= k) >>= fun a ↦ pure (reply a)) s).1 = (b.onConnected r).1 ∧
      Embodies d m₀ (b.onConnected r).2
        (((connectedDevice >>= k) >>= fun a ↦ pure (reply a)) s).2 := by
  unfold Bench.onConnected
  by_cases hc : b.contact = .connected
  · rw [if_pos hc]
    exact hstep hc
  · rw [if_neg hc]
    exact reply_of_error (Prog.bind_error (h.connectedDevice_refuses hc) k) h

theorem writeFuse_refused {σ : Type} (t : UpdiTransport σ) {s : SessionState σ}
    (hdevice : connectedDevice s = (.ok d, s)) (hbound : boundDevice s = (.ok d, s)) {index : UInt8}
    (hindex : d.fusesSize ≤ index.toNat) (value : UInt8) :
    UpdiSession.writeFuse t index value s = (.error (.status .param), s) := by
  rw [UpdiSession.writeFuse, Prog.bind_ok hdevice, Prog.bind_ok hbound, UpdiNvm.writeFuse,
    if_pos hindex]
  rfl

/-- One call: the session answers what the bench answers, and goes on embodying it. -/
theorem ask_simulates (hmem : d ∈ deviceTable) :
    Simulates (SessionOp.InFlash d) (fun s b ↦ Embodies d m₀ b s)
      (SessionOp.ask (emuTransport .emulator)) (Bench.step d) := by
  intro op s b hop h
  cases op with
  | connect => exact reply_of_returns (embodies_connect hmem h)
  | unlock => exact reply_of_returns (h.onLink rfl (held_unlock h.line))
  | disconnect => exact reply_of_returns (embodies_disconnect h)
  | chipErase =>
    have hstep : Bench.step d .chipErase b = if b.contact = .unknown then
        (.error (.status .param), b)
        else (.ok .done, { b with flash := fun _ ↦ 0xFF }) := rfl
    rw [hstep]
    by_cases hc : b.contact = .unknown
    · have hrun : UpdiSession.chipErase (emuTransport .emulator) s =
          (.error (.status .param), s) := by
        rw [UpdiSession.chipErase, Prog.read_bind_run, h.unknown hc]
        rfl
      rw [if_pos hc]
      exact reply_of_error hrun h
    · rw [if_neg hc]
      exact reply_of_returns (embodies_chipErase hmem h hc)
  | writeFlash image =>
    exact onConnected_embodies h fun hc ↦ reply_of_returns (embodies_writeFlash hmem h hc hop)
  | verifyFlash image =>
    exact onConnected_embodies h fun hc ↦ reply_of_returns (embodies_verifyFlash hmem h hc hop)
  | readFlash len =>
    exact onConnected_embodies h fun hc ↦ reply_of_returns (embodies_readFlash hmem h hc hop)
  | readFuses count =>
    exact onConnected_embodies h fun hc ↦ reply_of_returns (embodies_readFuses hmem h hc count)
  | writeFuse index value =>
    refine onConnected_embodies h fun hc ↦ ?_
    by_cases hindex : index.toNat < d.fusesSize
    · rw [if_pos hindex]
      exact reply_of_returns (embodies_writeFuse hmem h hc hindex value)
    · rw [if_neg hindex]
      have hrefused := writeFuse_refused (emuTransport .emulator) (h.connectedDevice_run hc)
        (h.boundDevice_run (known_of_connected hc)) (Nat.le_of_not_lt hindex) value
      exact reply_of_error hrefused h

def Bench.fresh (d : UpdiDevice) (m : EmuMem) : Bench :=
  ⟨.unknown, m.flash, fun i ↦ m.io (d.fusesAddress + i - emuIoBase)⟩

theorem embodies_fresh {e : UpdiEmu} (he : Fresh e) (ht : TargetOf d e.mem) :
    Embodies d e.mem (Bench.fresh d e.mem) ⟨UpdiSession.init, e⟩ :=
  ⟨rfl, fun _ ↦ rfl, fun h ↦ absurd rfl h, fun h ↦ absurd rfl h, e.mem,
    ⟨⟨ht, rfl, he.statusa⟩, rfl, fun _ _ ↦ rfl, fun _ _ ↦ rfl⟩, rfl,
    rfl, he.state, he.rx, he.repeatNext⟩

/-- No sequence of calls tells the session with an emulated part from the bench:
it gives the same answers, and leaves the part as the bench is left. -/
theorem session_refines_bench (hmem : d ∈ deviceTable) {e : UpdiEmu} (he : Fresh e)
    (ht : TargetOf d e.mem) {ops : List SessionOp} (hops : ∀ op ∈ ops, op.InFlash d) :
    (answers (SessionOp.ask (emuTransport .emulator)) ops ⟨UpdiSession.init, e⟩).1 =
        (answers (Bench.step d) ops (Bench.fresh d e.mem)).1 ∧
      Resembles d e.mem (answers (Bench.step d) ops (Bench.fresh d e.mem)).2
        (answers (SessionOp.ask (emuTransport .emulator)) ops ⟨UpdiSession.init, e⟩).2.ctx.mem := by
  obtain ⟨hsame, hend⟩ := (ask_simulates hmem).run (embodies_fresh he ht) hops
  refine ⟨hsame, ?_⟩
  obtain ⟨m, hm, hstep⟩ := hend.line
  rw [hstep.target.mem]
  exact hm

/-- A write over old content, an erase after the disconnect, and a fuse. -/
theorem attiny412_session_refines_bench :
    (answers (SessionOp.ask (emuTransport .emulator))
        [.readFlash 2, .connect, .writeFlash [1, 2], .disconnect, .chipErase, .connect,
          .writeFuse 7 0x5A, .readFuses 16]
        ⟨UpdiSession.init, freshAttiny412⟩).1 =
      (answers (Bench.step attiny412)
        [.readFlash 2, .connect, .writeFlash [1, 2], .disconnect, .chipErase, .connect,
          .writeFuse 7 0x5A, .readFuses 16]
        (Bench.fresh attiny412 freshAttiny412.mem)).1 ∧
      Resembles attiny412 freshAttiny412.mem
        (answers (Bench.step attiny412)
          [.readFlash 2, .connect, .writeFlash [1, 2], .disconnect, .chipErase, .connect,
            .writeFuse 7 0x5A, .readFuses 16]
          (Bench.fresh attiny412 freshAttiny412.mem)).2
        (answers (SessionOp.ask (emuTransport .emulator))
          [.readFlash 2, .connect, .writeFlash [1, 2], .disconnect, .chipErase, .connect,
            .writeFuse 7 0x5A, .readFuses 16]
          ⟨UpdiSession.init, freshAttiny412⟩).2.ctx.mem :=
  session_refines_bench (by decide) ⟨rfl, rfl, rfl, by decide⟩
    ⟨⟨rfl, rfl, rfl, rfl, rfl, rfl, rfl, rfl⟩, rfl, by decide⟩
      (by simp [SessionOp.InFlash, attiny412])

/-- The page of an image that offset `i` lies in, as far as the image goes. -/
def pageOf (page : ℕ) (image : List UInt8) (i : ℕ) : List UInt8 :=
  (image.drop (i / page * page)).take page

theorem mem_pageOf {page : ℕ} (hpage : 0 < page) {image : List UInt8} {i : ℕ}
    (hi : i < image.length) :
    image[i] ∈ pageOf page image i := by
  have hsplit : i / page * page + i % page = i := Nat.div_add_mod' i page
  have hmod := Nat.mod_lt i hpage
  refine List.mem_iff_getElem?.mpr ⟨i % page, ?_⟩
  rw [pageOf, List.getElem?_take, if_pos hmod, List.getElem?_drop, hsplit,
    List.getElem?_eq_getElem hi]

theorem firstMismatch_eq_none_iff {g f : ℕ → UInt8} {n : ℕ} :
    firstMismatch g f 0 n = none ↔ ∀ i < n, f i = g i := by
  constructor
  · intro h i hi
    exact firstMismatch_eq_none h i (Nat.zero_le i) (by omega)
  · intro h
    cases hm : firstMismatch g f 0 n with
    | none => rfl
    | some m =>
      obtain ⟨k, -, hk, -, hne, -⟩ := firstMismatch_eq_some hm
      exact absurd (h k (by omega)) hne

/-- An image written over any content is there if and only if the pages that
the write passes over were erased as far as the image goes. -/
theorem Bench.written_iff {page : ℕ} (hpage : 0 < page) (image : List UInt8) (flash : ℕ → UInt8) :
    firstMismatch (image.getD · 0) (Bench.writePages page image flash) 0 image.length = none ↔
      ∀ i < image.length, allFf (pageOf page image i) = true → flash i = 0xFF := by
  rw [firstMismatch_eq_none_iff]
  refine forall_congr' fun i ↦ forall_congr' fun hi ↦ ?_
  rw [List.getD_eq_getElem _ _ hi]
  have hmem := mem_pageOf hpage hi
  unfold pageOf at hmem ⊢
  unfold Bench.writePages
  by_cases hall : allFf ((image.drop (i / page * page)).take page) = true
  · have hff : image[i] = 0xFF := beq_iff_eq.mp (List.all_eq_true.mp hall _ hmem)
    simp [hall, hff]
  · simp [hall, hi]

/-- After any calls a write without an erase and a verify of the same image
both succeed if and only if the flash reads 0xFF wherever the image has a page
of nothing else. -/
theorem blind_write_verifies_iff (hmem : d ∈ deviceTable) {e : UpdiEmu} (he : Fresh e)
    (ht : TargetOf d e.mem) {ops : List SessionOp} (hops : ∀ op ∈ ops, op.InFlash d)
    {s : SessionState UpdiEmu}
    (hs : s = (answers (SessionOp.ask (emuTransport .emulator)) ops ⟨UpdiSession.init, e⟩).2)
    (hconn : s.session.connected = true) {image : List UInt8} (hlen : image.length ≤ d.flashSize) :
    (answers (SessionOp.ask (emuTransport .emulator)) [.writeFlash image, .verifyFlash image] s).1 =
        [.ok .done, .ok (.compared none)] ↔
      ∀ i < image.length, allFf (pageOf d.flashPageSize image i) = true →
        s.ctx.mem.flash i = 0xFF := by
  have hd := UpdiDevice.wellFormed_of_mem hmem
  obtain ⟨-, hend⟩ := (ask_simulates hmem).run (embodies_fresh he ht) hops
  rw [← hs] at hend
  generalize (answers (Bench.step d) ops (Bench.fresh d e.mem)).2 = b at hend
  have hcontact : b.contact = .connected := by
    have h := hend.connected
    rw [hconn] at h
    exact of_decide_eq_true h.symm
  have hflash : s.ctx.mem.flash = b.flash := by
    obtain ⟨m, hm, hstep⟩ := hend.line
    rw [hstep.target.mem]
    exact hm.flash
  have hboth : ∀ op ∈ [SessionOp.writeFlash image, .verifyFlash image], op.InFlash d := by
    simp [SessionOp.InFlash, hlen]
  rw [((ask_simulates hmem).run hend hboth).1, hflash, ← Bench.written_iff hd.page_pos]
  simp [answers, Bench.step, Bench.onConnected, hcontact]

/-- Two bytes over the three of an old program. -/
theorem attiny412_blind_write_verifies :
    (answers (SessionOp.ask (emuTransport .emulator)) [.writeFlash [1, 2], .verifyFlash [1, 2]]
        (answers (SessionOp.ask (emuTransport .emulator)) [.connect, .writeFlash [7, 8, 9]]
          ⟨UpdiSession.init, freshAttiny412⟩).2).1 = [.ok .done, .ok (.compared none)] ↔
      ∀ i < 2, allFf (pageOf 0x40 [1, 2] i) = true →
        (answers (SessionOp.ask (emuTransport .emulator)) [.connect, .writeFlash [7, 8, 9]]
          ⟨UpdiSession.init, freshAttiny412⟩).2.ctx.mem.flash i = 0xFF :=
  blind_write_verifies_iff (d := attiny412) (by decide) ⟨rfl, rfl, rfl, by decide⟩
    ⟨⟨rfl, rfl, rfl, rfl, rfl, rfl, rfl, rfl⟩, rfl, by decide⟩
      (by simp [SessionOp.InFlash, attiny412]) rfl
    (by decide +kernel) (by decide)

end UpdiProgrammer.HostTest
