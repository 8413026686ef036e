import UpdiProgrammer.HostTest.NvmRun
import UpdiProgrammer.Updi.Connect
import Mathlib.Data.List.GetD

namespace UpdiProgrammer.HostTest

open Updi UpdiLink UpdiNvm UpdiSession Library.Program Library.Memory UpdiEmu

/-- The target is a part of the row `d` whose flash holds `f`, and its
other memory is that of `m₀` but for the command register. -/
structure Programmed (d : UpdiDevice) (m₀ : EmuMem) (f : ℕ → UInt8) (m : EmuMem) : Prop where
  configured : Configured d m
  flash : m.flash = f
  io : ∀ i, emuIoBase + i ≠ d.nvmctrlBase + d.nvmDesc.regCtrla → m.io i = m₀.io i

def Target (a24 : Bool) (d : UpdiDevice) (m₀ : EmuMem) (f : ℕ → UInt8) (s : LinkState UpdiEmu) :
    Prop := ∃ m, Programmed d m₀ f m ∧ InStep a24 m s

variable {a24 : Bool} {d : UpdiDevice} {m₀ m : EmuMem} {f : ℕ → UInt8} {s : LinkState UpdiEmu}

theorem Programmed.setIo_ctrla (h : Programmed d m₀ f m) (c : UInt8) :
    Programmed d m₀ f (m.setIo (d.nvmctrlBase + d.nvmDesc.regCtrla) c) := by
  have hc := h.configured
  unfold EmuMem.setIo
  split_ifs with hin
  · refine ⟨⟨hc.1, hc.2, hc.3, hc.4, hc.5, hc.6, hc.7, hc.8⟩, h.flash, fun i hi ↦ ?_⟩
    have hne : i ≠ d.nvmctrlBase + d.nvmDesc.regCtrla - emuIoBase := by
      have hlow := hin.1
      omega
    simp only [Function.update_of_ne hne]
    exact h.io i hi
  · exact h

section Commands

variable (hd : d.WellFormed)
include hd

theorem executeNvmCommand_returns {c : UInt8} (he : c ≠ d.nvmDesc.cmdChipErase)
    (hf : d.nvmDesc.cmdWriteFuse = 0xFF ∨ c ≠ d.nvmDesc.cmdWriteFuse) (h : Target a24 d m₀ f s) :
    Returns (executeNvmCommand (emuTransport .emulator) d c) s () (Target a24 d m₀ f) := by
  obtain ⟨m, hp, h⟩ := h
  have hr := stByte_returns (P := .emulator) rfl h (d.nvmctrlBase + d.nvmDesc.regCtrla) c
  rw [wireAddress_ctrla hd, memWrite_command hd hp.configured he hf] at hr
  exact hr.mono fun s h ↦ ⟨_, hp.setIo_ctrla c, h⟩

theorem waitReady_returns (h : Target a24 d m₀ f s) (timeoutMs : UInt32) :
    Returns (waitNvmReady (emuTransport .emulator) d timeoutMs) s () (Target a24 d m₀ f) := by
  obtain ⟨m, hp, h⟩ := h
  exact (waitNvmReady_returns hd hp.configured h timeoutMs).mono fun s h ↦ ⟨m, hp, h⟩

theorem finishCommand_returns (h : Target a24 d m₀ f s) (timeoutMs : UInt32) (clear : Bool) :
    Returns (finishCommand (emuTransport .emulator) d timeoutMs clear) s ()
      (Target a24 d m₀ f) := by
  refine (waitReady_returns hd h timeoutMs).attempt.bind fun s h ↦ ?_
  cases clear with
  | false => exact .pure h
  | true =>
    have hn : d.nvmDesc.cmdNocmd ≠ d.nvmDesc.cmdChipErase ∧
        (d.nvmDesc.cmdWriteFuse = 0xFF ∨ d.nvmDesc.cmdNocmd ≠ d.nvmDesc.cmdWriteFuse) := by
      rcases nvmDesc_eq d with h | h <;> rw [h] <;> decide
    exact (executeNvmCommand_returns hd hn.1 hn.2 h).attempt.bind fun s h ↦ .pure h

theorem nvmChipErase_returns (h : Target a24 d m₀ f s) :
    Returns (UpdiNvm.chipErase (emuTransport .emulator) d) s () (Target a24 d m₀ fun _ ↦ 0xFF) := by
  refine (waitReady_returns hd h 100).bind fun s h ↦ ?_
  obtain ⟨m, hp, h⟩ := h
  have hr := stByte_returns (P := .emulator) rfl h (d.nvmctrlBase + d.nvmDesc.regCtrla)
    d.nvmDesc.cmdChipErase
  rw [wireAddress_ctrla hd, memWrite_chipErase hd hp.configured] at hr
  have hc := hp.configured
  have he : Programmed d m₀ (fun _ ↦ 0xFF) { m with flash := fun _ ↦ 0xFF } :=
    ⟨⟨hc.1, hc.2, hc.3, hc.4, hc.5, hc.6, hc.7, hc.8⟩, rfl, hp.io⟩
  refine hr.bind fun s h ↦ ?_
  exact finishCommand_returns hd ⟨_, he.setIo_ctrla _, h⟩ 500 _

theorem writeWords_returns {off : ℕ} {data : List UInt8} (hlen : data.length = d.flashPageSize)
    (hoff : off + d.flashPageSize ≤ d.flashSize)
    (hfit : d.flashAddress + d.flashSize ≤ addressSpace a24) (h : Target a24 d m₀ f s) :
    Returns (writeDataWords (emuTransport .emulator) (d.flashAddress + off) data) s ()
      (Target a24 d m₀ (overwrite f off data)) := by
  obtain ⟨m, hp, h⟩ := h
  have hpos := hd.page_pos
  have hle := hd.page_le
  have heven := hd.page_even
  have hsize := hd.flashSize_le
  have hmax : maxRepeatSize = 256 := rfl
  have hflash : emuFlashSize = 0x10000 := rfl
  obtain ⟨m', hm', hr⟩ := writeDataWords_returns (P := .emulator) rfl h (d.flashAddress + off)
    (by omega : data.length ≠ 0) (by omega) (by omega)
  have hstore : m.writeAll (wireAddress a24 (d.flashAddress + off)) data =
      { m with flash := overwrite m.flash off data } := by
    rw [wireAddress_of_lt (by omega), ← hp.configured.flashBase]
    exact writeAll_flash (by omega)
  have hc := hp.configured
  rw [hstore] at hm'
  refine hr.mono fun s h ↦ ⟨m', ?_, h⟩
  rcases hm' with rfl | rfl
  · exact ⟨⟨hc.1, hc.2, hc.3, hc.4, hc.5, hc.6, hc.7, hc.8⟩,
      congrArg (overwrite · off data) hp.flash, hp.io⟩
  · exact ⟨⟨hc.1, hc.2, hc.3, hc.4, hc.5, hc.6, hc.7, hc.8⟩,
      congrArg (overwrite · off data) hp.flash, hp.io⟩

theorem writeFlashPage_returns {off : ℕ} {data : List UInt8} (hlen : data.length = d.flashPageSize)
    (hoff : off + d.flashPageSize ≤ d.flashSize)
    (hfit : d.flashAddress + d.flashSize ≤ addressSpace a24) (h : Target a24 d m₀ f s) :
    Returns (writeFlashPage (emuTransport .emulator) d (d.flashAddress + off) data) s ()
      (Target a24 d m₀ (overwrite f off data)) := by
  have hpos := hd.page_pos
  have heven := hd.page_even
  have hclear : d.nvmDesc.cmdPageBufferClear ≠ d.nvmDesc.cmdChipErase ∧
      (d.nvmDesc.cmdWriteFuse = 0xFF ∨
        d.nvmDesc.cmdPageBufferClear ≠ d.nvmDesc.cmdWriteFuse) := by
    rcases nvmDesc_eq d with h | h <;> rw [h] <;> decide
  have hwrite : d.nvmDesc.cmdWritePage ≠ d.nvmDesc.cmdChipErase ∧
      (d.nvmDesc.cmdWriteFuse = 0xFF ∨ d.nvmDesc.cmdWritePage ≠ d.nvmDesc.cmdWriteFuse) := by
    rcases nvmDesc_eq d with h | h <;> rw [h] <;> decide
  rw [writeFlashPage, if_neg (by omega), if_neg (by omega)]
  refine (waitReady_returns hd h 100).bind fun s h ↦ ?_
  refine (executeNvmCommand_returns hd hclear.1 hclear.2 h).bind fun s h ↦ ?_
  refine (waitReady_returns hd h 100).bind fun s h ↦ ?_
  refine (writeWords_returns hd hlen hoff hfit h).bind fun s h ↦ ?_
  refine (executeNvmCommand_returns hd hwrite.1 hwrite.2 h).bind fun s h ↦ ?_
  exact finishCommand_returns hd h 100 _

end Commands

/-- Padding a page with 0xFF makes no difference to erased flash. -/
theorem overwrite_padPage {off page : ℕ} {chunk : List UInt8} (hf : ∀ i, off ≤ i → f i = 0xFF) :
    overwrite f off (padPage page chunk) = overwrite f off chunk := by
  rw [padPage, overwrite_append]
  refine overwrite_eq_self fun i hi ↦ ?_
  rw [overwrite_of_not (by omega), hf _ (by omega), List.getElem_replicate]

theorem overwrite_allFf {off page : ℕ} {chunk : List UInt8} (hf : ∀ i, off ≤ i → f i = 0xFF)
    (h : allFf (padPage page chunk) = true) : overwrite f off chunk = f := by
  refine overwrite_eq_self fun i hi ↦ ?_
  have hb := List.all_eq_true.mp h chunk[i] (List.mem_append_left _ (List.getElem_mem hi))
  rw [hf _ (Nat.le_add_right _ _), beq_iff_eq.mp hb]

theorem padPage_length {page : ℕ} {chunk : List UInt8} (h : chunk.length ≤ page) :
    (padPage page chunk).length = page := by
  rw [padPage, List.length_append, List.length_replicate]
  omega

/-- The page loop leaves the image in erased flash, as if it had written
every byte: the invariant is that flash is erased from the offset on. -/
theorem writePages_returns (hd : d.WellFormed)
    (hfit : d.flashAddress + d.flashSize ≤ addressSpace a24) (fuel off : ℕ) (data : List UInt8)
    (hfuel : data.length ≤ fuel) (hoff : off % d.flashPageSize = 0)
    (hlen : data.length ≠ 0 → off + data.length ≤ d.flashSize) (hf : ∀ i, off ≤ i → f i = 0xFF)
    (h : Target a24 d m₀ f s) :
    Returns (writePages (emuTransport .emulator) d d.flashPageSize fuel (d.flashAddress + off) data)
      s () (Target a24 d m₀ (overwrite f off data)) := by
  induction fuel generalizing off data f s with
  | zero =>
    obtain rfl : data = [] := List.length_eq_zero_iff.mp (by omega)
    rw [overwrite_nil]
    exact .pure h
  | succ fuel ih =>
    rw [writePages]
    by_cases h0 : data.length = 0
    · obtain rfl : data = [] := List.length_eq_zero_iff.mp h0
      rw [overwrite_nil]
      exact .pure h
    have hpos := hd.page_pos
    have hend := hlen h0
    have hpage := UpdiDevice.page_fits hoff hd.page_dvd (by omega : off < d.flashSize)
    have hchunk : (data.take d.flashPageSize).length ≤ d.flashPageSize := List.length_take_le _ _
    have hstep : overwrite (overwrite f off (data.take d.flashPageSize)) (off + d.flashPageSize)
        (data.drop d.flashPageSize) = overwrite f off data := by
      by_cases hshort : data.length ≤ d.flashPageSize
      · rw [List.take_of_length_le hshort, List.drop_eq_nil_of_le hshort, overwrite_nil]
      · have hfull : (data.take d.flashPageSize).length = d.flashPageSize := by
          rw [List.length_take]
          omega
        have happ := @overwrite_append _ off f (data.take d.flashPageSize)
          (data.drop d.flashPageSize)
        rw [List.take_append_drop, hfull] at happ
        exact happ.symm
    have hrest : ∀ s, Target a24 d m₀ (overwrite f off (data.take d.flashPageSize)) s →
        Returns (writePages (emuTransport .emulator) d d.flashPageSize fuel
          (d.flashAddress + off + d.flashPageSize) (data.drop d.flashPageSize)) s ()
          (Target a24 d m₀ (overwrite f off data)) := by
      intro s h
      have hr := ih (off + d.flashPageSize) (data.drop d.flashPageSize)
        (by rw [List.length_drop]; omega)
        (by rw [Nat.add_mod_right, hoff])
        (by rw [List.length_drop]; omega)
        (fun i hi ↦ by rw [overwrite_of_not (by omega), hf i (by omega)]) h
      rwa [hstep, ← Nat.add_assoc] at hr
    rw [if_neg h0]
    by_cases hall : allFf (padPage d.flashPageSize (data.take d.flashPageSize)) = true
    · simp only [hall, Bool.not_true, Bool.false_eq_true, if_false]
      rw [overwrite_allFf hf hall] at hrest
      exact hrest s h
    · simp only [Bool.eq_false_iff.mpr hall, Bool.not_false, if_true]
      refine (writeFlashPage_returns hd (padPage_length hchunk) hpage hfit h).bind fun s h ↦ ?_
      rw [overwrite_padPage hf] at h
      exact hrest s h

theorem cells_append (m : EmuMem) (p a b : ℕ) :
    cells m p (a + b) = cells m p a ++ cells m (p + a) b := by
  simp only [cells, List.range_add, List.map_append, List.map_map, Function.comp_def, Nat.add_assoc]

theorem readChunks_returns (fuel address size : ℕ) (hfuel : size ≤ fuel)
    (hfit : address + size ≤ addressSpace a24) (h : InStep a24 m s) :
    Returns (readChunks (emuTransport .emulator) fuel address size) s (cells m address size)
      (InStep a24 m) := by
  induction fuel generalizing address size s with
  | zero =>
    obtain rfl : size = 0 := by omega
    exact .pure h
  | succ fuel ih =>
    rw [readChunks]
    split_ifs with h0
    · subst h0
      exact .pure h
    · have hmax : maxRepeatSize = 256 := rfl
      have hsplit := cells_append m address (min size maxRepeatSize) (size - min size maxRepeatSize)
      rw [Nat.add_sub_cancel' (Nat.min_le_left _ _)] at hsplit
      have hr := readData_returns (P := .emulator) rfl h address
        (by omega : 1 ≤ min size maxRepeatSize) (Nat.min_le_right _ _)
      rw [wireAddress_of_lt (by omega)] at hr
      rw [hsplit]
      refine hr.bind fun s h ↦ ?_
      refine (ih _ _ (by omega) (by omega) h).bind fun s h ↦ ?_
      exact .pure h

theorem readFlashChunks_returns (fuel address len : ℕ) (hfuel : len ≤ fuel)
    (hfit : address + len ≤ addressSpace a24) (h : InStep a24 m s) :
    Returns (readFlashChunks (emuTransport .emulator) fuel address len) s (cells m address len)
      (InStep a24 m) := by
  induction fuel generalizing address len s with
  | zero =>
    obtain rfl : len = 0 := by omega
    exact .pure h
  | succ fuel ih =>
    rw [readFlashChunks]
    split_ifs with h0
    · subst h0
      exact .pure h
    · have hmax : readChunk = 256 := rfl
      have hsplit := cells_append m address (min len readChunk) (len - min len readChunk)
      rw [Nat.add_sub_cancel' (Nat.min_le_left _ _)] at hsplit
      rw [hsplit]
      refine (readChunks_returns _ address _ le_rfl (by omega) h).bind fun s h ↦ ?_
      refine (ih _ _ (by omega) (by omega) h).bind fun s h ↦ ?_
      exact .pure h

theorem firstDifference_eq_none {data l l' : List UInt8} (off : ℕ) (h : data = l ++ l') :
    firstDifference off data l = none := by
  subst h
  induction l generalizing off with
  | nil => cases l' <;> rfl
  | cons b l ih =>
    rw [List.cons_append, firstDifference, if_neg (not_not.mpr rfl)]
    exact ih (off + 1)

theorem verifyChunks_returns (fuel flashAddress off : ℕ) (data : List UInt8)
    (hfuel : data.length ≤ fuel) (hfit : flashAddress + off + data.length ≤ addressSpace a24)
    (hdata : cells m (flashAddress + off) data.length = data) (h : InStep a24 m s) :
    Returns (verifyChunks (emuTransport .emulator) flashAddress fuel off data) s none
      (InStep a24 m) := by
  induction fuel generalizing off data s with
  | zero => exact .pure h
  | succ fuel ih =>
    rw [verifyChunks]
    split_ifs with h0
    · exact .pure h
    · have hmax : readChunk = 256 := rfl
      have hsplit := cells_append m (flashAddress + off) (min data.length readChunk)
        (data.length - min data.length readChunk)
      rw [Nat.add_sub_cancel' (Nat.min_le_left _ _), hdata] at hsplit
      have hlen : (cells m (flashAddress + off) (min data.length readChunk)).length =
          min data.length readChunk := cells_length ..
      have hdrop : data.drop (min data.length readChunk) =
          cells m (flashAddress + (off + min data.length readChunk))
            (data.drop (min data.length readChunk)).length := by
        refine (congrArg (List.drop (min data.length readChunk)) hsplit).trans ?_
        rw [List.drop_append_of_le_length (le_of_eq hlen.symm),
          List.drop_eq_nil_of_le (le_of_eq hlen), List.nil_append, List.length_drop, Nat.add_assoc]
      refine (readChunks_returns _ _ _ le_rfl (by omega) h).bind fun s h ↦ ?_
      rw [firstDifference_eq_none off hsplit]
      exact ih _ _ (by rw [List.length_drop]; omega) (by rw [List.length_drop]; omega) hdrop.symm h

theorem Programmed.cells_flash (hd : d.WellFormed) (h : Programmed d m₀ f m) {off n : ℕ}
    (hn : off + n ≤ d.flashSize) :
    cells m (d.flashAddress + off) n = (List.range n).map fun i ↦ f (off + i) := by
  have habove := hd.flash_above_io
  have hsize := hd.flashSize_le
  have hflash : emuFlashSize = 0x10000 := rfl
  have hstatus : d.nvmctrlBase + d.nvmDesc.regStatus < 0x1600 := by
    rw [hd.nvmctrlBase]
    rcases nvmDesc_eq d with h | h <;> rw [h] <;> decide
  refine List.map_congr_left fun i hi ↦ ?_
  rw [List.mem_range] at hi
  have hin : m.InFlash (d.flashAddress + off + i) := by
    unfold EmuMem.InFlash
    rw [h.configured.flashBase]
    omega
  have hne : d.flashAddress + off + i ≠ m.nvmctrlBase + m.statusOffset := by
    rw [h.configured.nvmctrlBase, h.configured.statusOffset]
    omega
  rw [EmuMem.memRead, if_neg hne, if_pos hin, h.configured.flashBase, h.flash, Nat.add_assoc,
    Nat.add_sub_cancel_left]

/-- A session bound to the row `d`, over a link in step with its target. -/
structure Bound (a24 : Bool) (d : UpdiDevice) (m₀ : EmuMem) (f : ℕ → UInt8)
    (s : SessionState UpdiEmu) : Prop where
  connected : s.session.connected = true
  device : s.session.device = some d
  nvmDevice : s.session.nvmDevice = some d
  target : Target a24 d m₀ f ⟨s.session.link, s.ctx⟩

theorem onLink_returns {α : Type} {x : LinkM UpdiEmu α} {a : α} {f' : ℕ → UInt8}
    {s : SessionState UpdiEmu} (h : Bound a24 d m₀ f s)
    (hx : Returns x ⟨s.session.link, s.ctx⟩ a (Target a24 d m₀ f')) :
    Returns (onLink x) s a (Bound a24 d m₀ f') := by
  obtain ⟨l, hl, ht⟩ := hx
  exact ⟨_, onLink_ok hl, h.connected, h.device, h.nvmDevice, ht⟩

theorem connectedDevice_returns {s : SessionState UpdiEmu} (h : Bound a24 d m₀ f s) :
    Returns connectedDevice s d (Bound a24 d m₀ f) :=
  ⟨s, by simp only [connectedDevice, h.connected, h.device], h⟩

theorem boundDevice_returns {s : SessionState UpdiEmu} (h : Bound a24 d m₀ f s) :
    Returns boundDevice s d (Bound a24 d m₀ f) :=
  ⟨s, by simp only [boundDevice, h.nvmDevice], h⟩

section Sessions

variable (hd : d.WellFormed) {s : SessionState UpdiEmu} (h : Bound a24 d m₀ f s)
include hd h

theorem chipErase_returns : Returns (UpdiSession.chipErase (emuTransport .emulator)) s ()
    (Bound a24 d m₀ fun _ ↦ 0xFF) := by
  have hread : Returns (Prog.read (·.session.device) : SessionM UpdiEmu (Option UpdiDevice)) s
      (some d) (Bound a24 d m₀ f) := ⟨s, by rw [Prog.read_run, h.device], h⟩
  refine hread.bind fun s h ↦ ?_
  refine (boundDevice_returns h).bind fun s h ↦ ?_
  exact onLink_returns h (nvmChipErase_returns hd h.target)

variable (hfit : d.flashAddress + d.flashSize ≤ addressSpace a24) {image : List UInt8}
  (hlen : image.length ≤ d.flashSize)
include hfit hlen

theorem writeFlash_returns (hf : ∀ i, f i = 0xFF) :
    Returns (writeFlash (emuTransport .emulator) image) s ()
      (Bound a24 d m₀ (overwrite f 0 image)) := by
  have hpos := hd.page_pos
  have hle : d.flashPageSize ≤ maxPage := hd.page_le
  refine (connectedDevice_returns h).bind fun s h ↦ ?_
  rw [if_neg (by omega)]
  refine (boundDevice_returns h).bind fun s h ↦ ?_
  exact onLink_returns h (writePages_returns hd hfit _ 0 image le_rfl (Nat.zero_mod _)
    (fun _ ↦ by omega) (fun i _ ↦ hf i) h.target)

theorem readFlash_returns :
    Returns (readFlash (emuTransport .emulator) image.length) s
      ((List.range image.length).map f) (Bound a24 d m₀ f) := by
  refine (connectedDevice_returns h).bind fun s h ↦ ?_
  refine onLink_returns h ?_
  obtain ⟨m, hp, hs⟩ := h.target
  have hcells := hp.cells_flash hd (by omega : 0 + image.length ≤ d.flashSize)
  simp only [Nat.zero_add, Nat.add_zero] at hcells
  rw [← hcells]
  exact (readFlashChunks_returns _ d.flashAddress _ le_rfl (by omega) hs).mono
    fun s hs ↦ ⟨m, hp, hs⟩

theorem verifyFlash_returns (hf : (List.range image.length).map f = image) :
    Returns (verifyFlash (emuTransport .emulator) image) s none (Bound a24 d m₀ f) := by
  refine (connectedDevice_returns h).bind fun s h ↦ ?_
  refine onLink_returns h ?_
  obtain ⟨m, hp, hs⟩ := h.target
  have hcells := hp.cells_flash hd (by omega : 0 + image.length ≤ d.flashSize)
  simp only [Nat.zero_add, Nat.add_zero] at hcells
  exact (verifyChunks_returns _ d.flashAddress 0 image le_rfl (by omega)
    (by rw [Nat.add_zero, hcells, hf]) hs).mono fun s hs ↦ ⟨m, hp, hs⟩

end Sessions

/-- What a successful connect leaves behind: the identity of the target and
a link of the address size its SIB calls for. -/
structure Connected (d : UpdiDevice) (m : EmuMem) (s : SessionState UpdiEmu) : Prop where
  connected : s.session.connected = true
  device : s.session.device = some d
  nvmDevice : s.session.nvmDevice = some d
  sib : s.session.sib = sibInfo (sibBytes m 16)
  sig : s.session.sig = cells m sigrowDefaultAddress 3
  target : ∃ m', m.SameStore m' ∧
    InStep ((sibInfo (sibBytes m 16)).nvmVersion != 0) m' ⟨s.session.link, s.ctx⟩

section Break

variable {σ : Type} (t : UpdiTransport σ) (br : Option (σ → σ))

theorem waitUnlockedLoop_break (timeoutMs start : UInt32) (iters : ℕ) :
    waitUnlockedLoop (t.withBreak br) timeoutMs start iters =
      waitUnlockedLoop t timeoutMs start iters := by
  induction iters with
  | zero => rfl
  | succ iters ih =>
    unfold waitUnlockedLoop
    rw [ih]
    rfl

/-- Only the activation of the link ever uses the BREAK of the transport. -/
theorem enterProgmode_break :
    enterProgmode (t.withBreak br) = enterProgmode t := by
  have hwait : waitUnlocked (t.withBreak br) = waitUnlocked t := by
    funext timeoutMs
    unfold waitUnlocked
    simp only [waitUnlockedLoop_break]
    rfl
  unfold enterProgmode
  rw [hwait]
  rfl

end Break

/-- Once the link is up, nothing stands between the host and the identity
of the target, whatever a double BREAK would do. -/
theorem connect_of_activate {m : EmuMem} {s : SessionState UpdiEmu}
    (br : Option (UpdiEmu → UpdiEmu))
    (hact : Returns (activate ((emuTransport .emulator).withBreak br)) ⟨s.session.link, s.ctx⟩ ()
      (InStep a24 m))
    (hid : UpdiDevice.findById (UpdiDevice.idFromSig (cells m sigrowDefaultAddress 3)) = some d) :
    Returns (connect ((emuTransport .emulator).withBreak br)) s () (Connected d m) := by
  have hsibrun : readSibInfo ((emuTransport .emulator).withBreak br) =
      readSibInfo (emuTransport .emulator) := rfl
  have henter : enterProgmode ((emuTransport .emulator).withBreak br) =
      enterProgmode (emuTransport .emulator) := enterProgmode_break _ br
  have hsigrun : readSignature ((emuTransport .emulator).withBreak br) =
      readSignature (emuTransport .emulator) := rfl
  obtain ⟨l₁, hl₁, h₁⟩ := hact
  obtain ⟨l₂, hl₂, h₂⟩ := readSibInfo_returns (P := .emulator) h₁
  have hwidth : InStep ((sibInfo (sibBytes m 16)).nvmVersion != 0) m
      ⟨l₂.link.setAddressSize (if (sibInfo (sibBytes m 16)).nvmVersion = 0 then 2 else 3),
        l₂.ctx⟩ := by
    refine ⟨?_, h₂.target⟩
    by_cases h0 : (sibInfo (sibBytes m 16)).nvmVersion = 0
    · rw [if_pos h0, h0]
      rfl
    · rw [if_neg h0, bne_iff_ne.mpr h0]
      rfl
  obtain ⟨m', hsame, l₃, hl₃, h₃⟩ := enterProgmode_returns (P := .emulator) hwidth
  obtain ⟨l₄, hl₄, h₄⟩ := readSignature_returns (P := .emulator) rfl h₃
  have hcells : cells m' sigrowDefaultAddress 3 = cells m sigrowDefaultAddress 3 :=
    List.map_congr_left fun i _ ↦ hsame.memRead _
  rw [hcells] at hl₄
  rw [← hsibrun] at hl₂
  rw [← henter] at hl₃
  rw [← hsigrun] at hl₄
  have hrun := Connect.connect_eq_ok.mpr ⟨l₁, _, l₂, l₃, _, l₄, d, hl₁, hl₂, hl₃, hl₄, hid, rfl⟩
  exact ⟨_, hrun, rfl, rfl, rfl, rfl, rfl, m', hsame, h₄⟩

/-- A target of the given row: its layout, its SIB digit and its signature. -/
structure TargetOf (d : UpdiDevice) (m : EmuMem) : Prop where
  configured : Configured d m
  sibDigit : m.sib.getD 10 0 = match d.nvmVariant with
    | .p0 => 0x30
    | .p3 => 0x33
  signature : ∀ i < 3, m.io (d.sigrowAddress - emuIoBase + i) = d.signature.getD i 0

theorem TargetOf.cells_sigrow (hd : d.WellFormed) (h : TargetOf d m) :
    cells m sigrowDefaultAddress 3 = d.signature := by
  have hc := h.configured
  have habove := hd.flash_above_io
  have hcell : ∀ i < 3, m.memRead (sigrowDefaultAddress + i) = d.signature.getD i 0 := by
    intro i hi
    have hs : sigrowDefaultAddress = 0x1100 := rfl
    have hb : emuIoBase = 0x1000 := rfl
    have hn : emuIoSize = 0x0600 := rfl
    have hstatus : m.nvmctrlBase + m.statusOffset < 0x1100 := by
      rw [hc.nvmctrlBase, hc.statusOffset, hd.nvmctrlBase]
      rcases nvmDesc_eq d with h | h <;> rw [h] <;> decide
    have hflash : ¬m.InFlash (sigrowDefaultAddress + i) := by
      unfold EmuMem.InFlash
      rw [hc.flashBase]
      omega
    have hio : EmuMem.InIo (sigrowDefaultAddress + i) := by
      unfold EmuMem.InIo
      omega
    have hi' := h.signature i hi
    rw [hd.sigrowAddress] at hi'
    rw [EmuMem.memRead, if_neg (by omega), if_neg hflash, if_pos hio, ← hi']
    exact congrArg m.io (by omega)
  have h3 : cells m sigrowDefaultAddress 3 = [m.memRead (sigrowDefaultAddress + 0),
      m.memRead (sigrowDefaultAddress + 1), m.memRead (sigrowDefaultAddress + 2)] := rfl
  rw [h3, hcell 0 (by decide), hcell 1 (by decide), hcell 2 (by decide)]
  rfl

theorem TargetOf.findById (hd : d.WellFormed) (h : TargetOf d m) :
    UpdiDevice.findById (UpdiDevice.idFromSig (cells m sigrowDefaultAddress 3)) = some d := by
  rw [h.cells_sigrow hd, UpdiDevice.idFromSig_signature hd.deviceId_lt, hd.findById]

theorem TargetOf.of_sameStore {m' : EmuMem} (h : TargetOf d m) (hs : m.SameStore m') :
    TargetOf d m' := by
  refine ⟨h.configured.of_sameStore hs, ?_, ?_⟩
  · rw [hs]
    exact h.sibDigit
  · rw [hs]
    exact h.signature

theorem TargetOf.nvmVersion (h : TargetOf d m) :
    (sibInfo (sibBytes m 16)).nvmVersion = match d.nvmVariant with
      | .p0 => 0
      | .p3 => 3 := by
  have hb : (sibBytes m 16).getD 10 0 = m.sib.getD 10 0 := rfl
  rw [sibInfo, hb, h.sibDigit]
  cases d.nvmVariant <;> rfl

theorem TargetOf.flash_fits (hd : d.WellFormed) (h : TargetOf d m) :
    d.flashAddress + d.flashSize ≤ addressSpace ((sibInfo (sibBytes m 16)).nvmVersion != 0) := by
  have hfits := hd.flash_fits
  rw [h.nvmVersion]
  cases hv : d.nvmVariant <;> rw [hv] at hfits <;> exact hfits

/-- A target as after power-up: between instructions, with no answer left
to read, no repeat pending and a live STATUSA. -/
structure Fresh (e : UpdiEmu) : Prop where
  state : e.state = .idle
  rx : e.rx = []
  repeatNext : e.repeatNext = 0
  statusa : e.mem.cs csStatusa ≠ 0

theorem connect_returns (hd : d.WellFormed) {e : UpdiEmu} (he : Fresh e) (ht : TargetOf d e.mem) :
    Returns (connect (emuTransport .emulator)) ⟨UpdiSession.init, e⟩ ()
      (Bound ((sibInfo (sibBytes e.mem 16)).nvmVersion != 0) d e.mem e.mem.flash) := by
  have hstep : InStep false e.mem ⟨UpdiLink.init, e⟩ := ⟨rfl, rfl, he.state, he.rx, he.repeatNext⟩
  have hact := activate_returns (P := .emulator) hstep he.statusa
  have hsame : e.mem.SameStore ((e.mem.setCs csCtrlb ctrlbCcdetdis).setCs csCtrla ctrlaIbdly) :=
    (EmuMem.SameStore.setCs e.mem _ _).trans (.setCs _ _ _)
  have hid := (ht.of_sameStore hsame).findById hd
  rw [← (emuTransport .emulator).withBreak_self] at hact
  have hr := connect_of_activate (s := ⟨UpdiSession.init, e⟩)
    (emuTransport .emulator).doubleBreak hact hid
  rw [UpdiTransport.withBreak_self] at hr
  refine hr.mono fun s hs ↦ ?_
  obtain ⟨m', hsame₂, hstep'⟩ := hs.target
  have hsame' : e.mem.SameStore m' := hsame.trans hsame₂
  refine ⟨hs.connected, hs.device, hs.nvmDevice, m',
    ⟨ht.configured.of_sameStore hsame', ?_, ?_⟩, hstep'⟩
  · rw [hsame']
  · intro i _
    rw [hsame']

/-- Programming is exact: after a chip erase and a write the flash of every
supported part holds the image followed by 0xFF, no other cell but the
command register has changed, and the image reads back and verifies. -/
theorem programming_exact (hmem : d ∈ deviceTable) {e : UpdiEmu} (he : Fresh e)
    (ht : TargetOf d e.mem) {image : List UInt8} (hlen : image.length ≤ d.flashSize) :
    Returns (connect (emuTransport .emulator)) ⟨UpdiSession.init, e⟩ () fun s₁ ↦
      Returns (UpdiSession.chipErase (emuTransport .emulator)) s₁ () fun s₂ ↦
        Returns (writeFlash (emuTransport .emulator) image) s₂ () fun s₃ ↦
          (∀ i < d.flashSize, s₃.ctx.mem.flash i = image.getD i 0xFF) ∧
          (∀ i, emuIoBase + i ≠ d.nvmctrlBase + d.nvmDesc.regCtrla →
            s₃.ctx.mem.io i = e.mem.io i) ∧
          Returns (readFlash (emuTransport .emulator) image.length) s₃ image fun s₄ ↦
            Returns (verifyFlash (emuTransport .emulator) image) s₄ none fun _ ↦ True := by
  have hd := UpdiDevice.wellFormed_of_mem hmem
  have hfit := ht.flash_fits hd
  have hget : ∀ i, overwrite (fun _ ↦ (0xFF : UInt8)) 0 image i = image.getD i 0xFF := by
    intro i
    by_cases hi : i < image.length
    · have hi' : overwrite (fun _ ↦ (0xFF : UInt8)) 0 image (0 + i) = image[i] := overwrite_of_lt hi
      rw [Nat.zero_add] at hi'
      rw [hi', List.getD_eq_getElem _ _ hi]
    · rw [overwrite_of_not (by omega), List.getD_eq_default _ _ (by omega)]
  have himage :
      (List.range image.length).map (overwrite (fun _ ↦ (0xFF : UInt8)) 0 image) = image := by
    refine List.ext_getElem (by simp) fun i hi hi' ↦ ?_
    rw [List.getElem_map, List.getElem_range, hget, List.getD_eq_getElem _ _ hi']
  refine (connect_returns hd he ht).mono fun s₁ h₁ ↦ ?_
  refine (chipErase_returns hd h₁).mono fun s₂ h₂ ↦ ?_
  refine (writeFlash_returns hd h₂ hfit hlen fun _ ↦ rfl).mono fun s₃ h₃ ↦ ?_
  obtain ⟨m, hp, hs⟩ := h₃.target
  refine ⟨fun i _ ↦ ?_, fun i hi ↦ ?_, ?_⟩
  · rw [hs.target.mem, hp.flash, hget]
  · rw [hs.target.mem, hp.io i hi]
  · have hr := readFlash_returns hd h₃ hfit hlen
    rw [himage] at hr
    exact hr.mono fun s₄ h₄ ↦ (verifyFlash_returns hd h₄ hfit hlen himage).mono fun _ _ ↦ trivial

def attiny412 : UpdiDevice :=
  ⟨0x1E9223, "attiny412", 0x8000, 0x1000, 0x40, 0x1280, 0x9, 0x1100, 0x1000, 2, .p0⟩

def freshAttiny412 : UpdiEmu :=
  UpdiEmu.init.configP0 attiny412.signature [0x74, 0x69, 0x6E, 0x79, 0x41, 0x56, 0x52]

theorem attiny412_programmed_with_three_bytes :
    Returns (connect (emuTransport .emulator)) ⟨UpdiSession.init, freshAttiny412⟩ () fun s₁ ↦
      Returns (UpdiSession.chipErase (emuTransport .emulator)) s₁ () fun s₂ ↦
        Returns (writeFlash (emuTransport .emulator) [1, 2, 3]) s₂ () fun s₃ ↦
          (∀ i < 0x1000, s₃.ctx.mem.flash i = [1, 2, 3].getD i 0xFF) ∧
          (∀ i, emuIoBase + i ≠ 0x1000 → s₃.ctx.mem.io i = freshAttiny412.mem.io i) ∧
          Returns (readFlash (emuTransport .emulator) 3) s₃ [1, 2, 3] fun s₄ ↦
            Returns (verifyFlash (emuTransport .emulator) [1, 2, 3]) s₄ none fun _ ↦ True :=
  programming_exact (d := attiny412) (by decide) ⟨rfl, rfl, rfl, by decide⟩
    ⟨⟨rfl, rfl, rfl, rfl, rfl, rfl, rfl, rfl⟩, rfl, by decide⟩ (by decide)

end UpdiProgrammer.HostTest
