import UpdiProgrammer.HostTest.FlashTrace
import UpdiProgrammer.Reference.Conversation

namespace UpdiProgrammer.Reference

open Library.Program Prog
open Updi (UpdiErr UpdiLink LinkState LinkM UpdiTransport UpdiDevice UpdiSession SessionState
  SessionM Halt linkLog)
open Updi.UpdiTransport (Event)
open HostTest (attiny412 connectedAttiny412 delivered pageData pagesFrom padPage_length)

/-- Of whole units of the write size on a page boundary `utils.pagealign` makes
nothing else. -/
def KeepsAligned (pagealign : List UInt8 → (offset pageSize writeSize : ℕ) → List UInt8 × ℕ) :
    Prop :=
  ∀ data offset pageSize writeSize, offset % pageSize = 0 → data.length % writeSize = 0 →
    pagealign data offset pageSize writeSize = (data, offset)

variable {σ : Type}

section Memories

variable (d : UpdiDevice)

def flashMemory : MemoryInfo := ⟨.flash, d.flashAddress, d.flashPageSize, d.flashPageSize⟩

def fusesMemory : MemoryInfo := ⟨.fuses, d.fusesAddress, 1, 1⟩

def nvmDriver (port : SerialPort σ) (dl : UpdiDatalink) (turns : ℕ) : NvmDriver σ :=
  match d.nvmVariant with
  | .p0 => NvmUpdiP0.driver port dl turns ⟨d.nvmctrlBase⟩
  | .p3 => NvmUpdiP3.driver port dl turns ⟨d.nvmctrlBase⟩

end Memories

namespace NvmAccessProviderSerial

variable {d : UpdiDevice} (nvm : NvmDriver σ)
  {pagealign : List UInt8 → (offset pageSize writeSize : ℕ) → List UInt8 × ℕ}
  (hkeep : KeepsAligned pagealign)

theorem writeLoop_nil (name : MemoryName) (turns offset chunkSize : ℕ) :
    writeLoop nvm name (turns + 1) offset chunkSize [] = pure () := rfl

theorem writeLoop_chunk (name : MemoryName) (turns offset : ℕ) {chunkSize : ℕ} {data : List UInt8}
    (hdata : data ≠ []) (hle : chunkSize ≤ data.length) :
    writeLoop nvm name (turns + 1) offset chunkSize data = (do
      writeChunk nvm name offset (data.take chunkSize)
      writeLoop nvm name turns (offset + chunkSize) chunkSize (data.drop chunkSize)) := by
  have hchunk : (if data.length < chunkSize then data.length else chunkSize) = chunkSize :=
    if_neg (Nat.not_lt.mpr hle)
  rw [writeLoop, if_neg hdata]
  simp only [hchunk]

include hkeep

theorem write_single {memory : MemoryInfo}
    (hname : memory.name ∈ [.flash, .eeprom, .fuses, .lockbits]) {offset : ℕ} {data : List UInt8}
    (hoffset : offset % memory.pageSize = 0) (hunits : data.length % memory.writeSize = 0)
    (hlen : data.length = memory.pageSize) (hpos : 0 < memory.pageSize) :
    write nvm pagealign memory offset data = writeChunk nvm memory.name
      (offset + memory.address) data := by
  obtain ⟨n, hn⟩ : ∃ n, data.length = n + 1 := ⟨data.length - 1, by omega⟩
  have hdata : data ≠ [] := List.ne_nil_of_length_pos (by omega)
  have htake : data.take memory.pageSize = data := List.take_of_length_le hlen.le
  have hdrop : data.drop memory.pageSize = [] := List.drop_of_length_le hlen.le
  rw [write, hkeep data offset _ _ hoffset hunits]
  simp only [if_pos hname]
  rw [writeLoop_chunk nvm _ _ _ hdata hlen.ge, htake, hdrop, hn, writeLoop_nil]
  exact bind_pure _

theorem write_page (k : ℕ) {page : List UInt8} (hlen : page.length = d.flashPageSize)
    (hpos : 0 < d.flashPageSize) :
    write nvm pagealign (flashMemory d) (k * d.flashPageSize) page =
      nvm.writeFlash (k * d.flashPageSize + d.flashAddress) page :=
  write_single nvm hkeep List.mem_cons_self (Nat.mul_mod_left _ _)
    (by rw [hlen]; exact Nat.mod_self _) hlen hpos

theorem write_fuse (index : ℕ) (value : UInt8) :
    write nvm pagealign (fusesMemory d) index [value] =
      nvm.writeFuse (index + d.fusesAddress) [value] :=
  write_single nvm hkeep (by simp [fusesMemory]) (Nat.mod_one _) (Nat.mod_one _) rfl Nat.one_pos

omit hkeep

theorem writeLoop_pages {image : List UInt8} (hpos : 0 < d.flashPageSize)
    (hwhole : image.length % d.flashPageSize = 0)
    (hblank : ∀ k, k * d.flashPageSize < image.length →
      Updi.UpdiSession.allFf (pageData d image k) = false)
    (turns fuel k : ℕ) (hturns : (image.drop (k * d.flashPageSize)).length < turns)
    (hfuel : (image.drop (k * d.flashPageSize)).length ≤ fuel) :
    writeLoop nvm .flash turns (k * d.flashPageSize + d.flashAddress) d.flashPageSize
        (image.drop (k * d.flashPageSize)) =
      (each (fun k ↦ nvm.writeFlash (k * d.flashPageSize + d.flashAddress) (pageData d image k))
        (pagesFrom d image fuel k) >>= fun _ ↦ pure ()) := by
  induction turns generalizing fuel k with
  | zero => omega
  | succ turns ih =>
    by_cases hend : image.length ≤ k * d.flashPageSize
    · have hnil : pagesFrom d image fuel k = [] := by
        cases fuel with
        | zero => rfl
        | succ fuel => rw [pagesFrom, if_pos hend]
      rw [List.drop_of_length_le hend, hnil]
      rfl
    · rw [List.length_drop] at hturns hfuel
      obtain ⟨fuel, rfl⟩ : ∃ n, fuel = n + 1 := ⟨fuel - 1, by omega⟩
      obtain ⟨q, hq⟩ := Nat.dvd_of_mod_eq_zero hwhole
      have hpage : k * d.flashPageSize + d.flashPageSize ≤ image.length := by
        rw [hq, Nat.mul_comm d.flashPageSize q] at hend ⊢
        rw [← Nat.succ_mul]
        exact Nat.mul_le_mul_right _ (Nat.lt_of_mul_lt_mul_right (Nat.lt_of_not_le hend))
      have hlen : (image.drop (k * d.flashPageSize)).length = image.length - k * d.flashPageSize :=
        List.length_drop
      have hdata : image.drop (k * d.flashPageSize) ≠ [] := List.ne_nil_of_length_pos (by omega)
      have htake : (image.drop (k * d.flashPageSize)).take d.flashPageSize =
          pageData d image k := by
        have hfull : ((image.drop (k * d.flashPageSize)).take d.flashPageSize).length =
            d.flashPageSize :=
          List.length_take_of_le (by omega)
        rw [pageData, Updi.UpdiSession.padPage, hfull, Nat.sub_self]
        exact (List.append_nil _).symm
      have hrest := ih fuel (k + 1) (by rw [List.length_drop, Nat.succ_mul]; omega)
        (by rw [List.length_drop, Nat.succ_mul]; omega)
      rw [Nat.succ_mul, ← List.drop_drop] at hrest
      rw [writeLoop_chunk nvm _ _ _ hdata (by omega), htake, Nat.add_right_comm, hrest,
        pagesFrom, if_neg hend, hblank k (by omega)]
      simp only [Bool.false_eq_true, if_false, each, bind_assoc]
      rfl

def writePages (pagealign : List UInt8 → (offset pageSize writeSize : ℕ) → List UInt8 × ℕ)
    (d : UpdiDevice) (image : List UInt8) : PyM σ Unit := do
  let _ ← each (fun k ↦ write nvm pagealign (flashMemory d) (k * d.flashPageSize)
    (pageData d image k)) (pagesFrom d image image.length 0)

include hkeep

theorem writePages_eq_each (hpos : 0 < d.flashPageSize) (image : List UInt8) :
    writePages nvm pagealign d image =
      (each (fun k ↦ nvm.writeFlash (k * d.flashPageSize + d.flashAddress) (pageData d image k))
        (pagesFrom d image image.length 0) >>= fun _ ↦ pure ()) := by
  have hpage (k : ℕ) :
      write nvm pagealign (flashMemory d) (k * d.flashPageSize) (pageData d image k) =
      nvm.writeFlash (k * d.flashPageSize + d.flashAddress) (pageData d image k) :=
    write_page nvm hkeep k (padPage_length (List.length_take_le _ _)) hpos
  simp only [writePages, hpage]

theorem write_whole {image : List UInt8} (hpos : 0 < d.flashPageSize)
    (hwhole : image.length % d.flashPageSize = 0)
    (hblank : ∀ k, k * d.flashPageSize < image.length →
      Updi.UpdiSession.allFf (pageData d image k) = false) :
    write nvm pagealign (flashMemory d) 0 image = writePages nvm pagealign d image := by
  have hloop := writeLoop_pages nvm hpos hwhole hblank (image.length + 1) image.length 0
  simp only [Nat.zero_mul, List.drop_zero] at hloop
  have halign : pagealign image 0 (flashMemory d).pageSize (flashMemory d).writeSize = (image, 0) :=
    hkeep image 0 _ _ (Nat.zero_mod _) hwhole
  rw [writePages_eq_each nvm hkeep hpos, ← hloop (Nat.lt_succ_self _) (Nat.le_refl _),
    write, halign]
  rfl

end NvmAccessProviderSerial

section Port

variable (t : UpdiTransport σ) (d : UpdiDevice)

theorem session_writePages_eq_each (image : List UInt8) (fuel k : ℕ) :
    Updi.UpdiSession.writePages t d d.flashPageSize fuel (d.flashAddress + k * d.flashPageSize)
        (image.drop (k * d.flashPageSize)) =
      (each (fun k ↦ Updi.UpdiNvm.writeFlashPage t d (d.flashAddress + k * d.flashPageSize)
        (pageData d image k)) (pagesFrom d image fuel k) >>= fun _ ↦ pure ()) := by
  induction fuel generalizing k with
  | zero => rfl
  | succ fuel ih =>
    have hnext := ih (k + 1)
    rw [Nat.succ_mul, ← Nat.add_assoc, ← List.drop_drop] at hnext
    rw [Updi.UpdiSession.writePages, pagesFrom]
    by_cases hend : image.length ≤ k * d.flashPageSize
    · rw [if_pos hend, if_pos (by rw [List.length_drop]; omega)]
      rfl
    rw [if_neg hend, if_neg (by rw [List.length_drop]; omega)]
    have hdata :
        Updi.UpdiSession.padPage d.flashPageSize
          ((image.drop (k * d.flashPageSize)).take d.flashPageSize) =
        pageData d image k := rfl
    cases hblank : Updi.UpdiSession.allFf (pageData d image k) with
    | true => simp only [hdata, hblank, hnext, Bool.not_true, Bool.false_eq_true, if_false, if_true]
    | false =>
      simp only [hdata, hblank, hnext, Bool.not_false, Bool.false_eq_true, if_false, if_true,
        each, bind_assoc]
      rfl

theorem nvm_read_of_le {size : ℕ} (address : ℕ) (hpos : 0 < size)
    (hle : size ≤ Updi.maxRepeatSize) :
    Updi.UpdiNvm.read t address size = UpdiLink.readData t address size := by
  obtain ⟨n, rfl⟩ : ∃ n, size = n + 1 := ⟨size - 1, by omega⟩
  have hrest (address : ℕ) : Updi.UpdiNvm.readChunks t n address 0 = pure [] := by
    cases n <;> rfl
  rw [Updi.UpdiNvm.read, Updi.UpdiNvm.readChunks, if_neg (Nat.succ_ne_zero n)]
  simp only [Nat.min_eq_left hle, Nat.sub_self, hrest, pure_bind, List.append_nil]
  exact bind_pure _

theorem readFlashChunks_eq (fuel address len : ℕ) :
    Updi.UpdiSession.readFlashChunks t fuel address len =
      Updi.UpdiNvm.readChunks t fuel address len := by
  induction fuel generalizing address len with
  | zero => rfl
  | succ fuel ih =>
    rw [Updi.UpdiSession.readFlashChunks, Updi.UpdiNvm.readChunks]
    by_cases hlen : len = 0
    · rw [if_pos hlen, if_pos hlen]
    · have hpos : 0 < min len Updi.UpdiSession.readChunk :=
        Nat.lt_min.mpr ⟨Nat.pos_of_ne_zero hlen, by decide⟩
      rw [if_neg hlen, if_neg hlen]
      simp only [nvm_read_of_le t address hpos (Nat.min_le_right _ _), ih]
      rfl

end Port

inductive Job
  | chipErase
  | writeFlash (image : List UInt8)
  | readFlash (len : ℕ)
  | writeFuse (index value : UInt8)
  deriving DecidableEq, Repr

namespace Job

def run (t : UpdiTransport σ) : Job → SessionM σ (List UInt8)
  | chipErase => do
    UpdiSession.chipErase t
    pure []
  | writeFlash image => do
    UpdiSession.writeFlash t image
    pure []
  | readFlash len => UpdiSession.readFlash t len
  | writeFuse index value => do
    UpdiSession.writeFuse t index value
    pure []

def reference (pagealign : List UInt8 → (offset pageSize writeSize : ℕ) → List UInt8 × ℕ)
    (d : UpdiDevice) (port : SerialPort σ) (dl : UpdiDatalink) (turns : ℕ) :
    Job → PyM σ (List UInt8)
  | chipErase => do
    (nvmDriver d port dl turns).chipErase
    pure []
  | writeFlash image => do
    NvmAccessProviderSerial.writePages (nvmDriver d port dl turns) pagealign d image
    pure []
  | readFlash len => NvmAccessProviderSerial.read port dl (flashMemory d).address 0 len
  | writeFuse index value => do
    NvmAccessProviderSerial.write (nvmDriver d port dl turns) pagealign
      (fusesMemory d) index.toNat [value]
    pure []

def InRange (d : UpdiDevice) : Job → Prop
  | writeFuse index _ => index.toNat < d.fusesSize
  | _ => True

end Job

section Session

variable {τ κ κ' : Type}

/-- A session connected to the device, with its link in step. -/
structure SessionInStep (dl : UpdiDatalink) (d : UpdiDevice)
    (s : SessionState ((τ × κ) × List Event)) (w : Wire τ κ') : Prop where
  connected : s.session.connected = true
  device : s.session.device = some d
  nvmDevice : s.session.nvmDevice = some d
  link : InStep dl ⟨s.session.link, s.ctx⟩ w

/-- A status poll that did not end ready, or a read that fell short. -/
def SessionMissed (h : Halt) : Prop := ∃ e, h = .status e ∧ (e = .timeout ∨ e = .nvm)

abbrev jobExcuse : Excuse (SessionState ((τ × κ) × List Event)) Halt PymcuprogError :=
  .ofStatus SessionMissed PymcuprogError.Missed

variable {g : Target τ} (hg : g.Streams) (clock : Option (κ → UInt32 × κ)) (time : κ' → ℚ × κ')
  (dl : UpdiDatalink) {d : UpdiDevice} {turns : ℕ} (hturns : Updi.nvmMaxPollIters ≤ turns)
  {pagealign : List UInt8 → (offset pageSize writeSize : ℕ) → List UInt8 × ℕ}
    (hkeep : KeepsAligned pagealign)

theorem lockstep_onLink {α β : Type} {m : LinkM ((τ × κ) × List Event) α} {p : PyM (Wire τ κ') β}
    {M : α → β → Prop} {N : UpdiErr → PymcuprogError → Prop}
    (h : Lockstep (InStep dl) nvmExcuse m p (Alike M N)) :
    Lockstep (SessionInStep dl d) jobExcuse (UpdiSession.onLink m) p (Alike M fun _ _ ↦ True) :=
  .zoom (fun _ _ hv ↦ hv.link) (fun _ _ _ _ hv hl ↦ ⟨hv.connected, hv.device, hv.nvmDevice, hl⟩)
    (fun e he ↦ ⟨e, rfl, he⟩) h

theorem connectedDevice_run {s : SessionState ((τ × κ) × List Event)} {w : Wire τ κ'}
    (h : SessionInStep dl d s w) :
    ∃ dev s', UpdiSession.connectedDevice s = (.ok dev, s') ∧ dev = d ∧
      SessionInStep dl d s' w := by
  refine ⟨d, s, ?_, rfl, h⟩
  rw [UpdiSession.connectedDevice, h.connected, h.device]

theorem boundDevice_run {s : SessionState ((τ × κ) × List Event)} {w : Wire τ κ'}
    (h : SessionInStep dl d s w) :
    ∃ dev s', UpdiSession.boundDevice s = (.ok dev, s') ∧ dev = d ∧ SessionInStep dl d s' w := by
  refine ⟨d, s, ?_, rfl, h⟩
  rw [UpdiSession.boundDevice, h.nvmDevice]

theorem lockstep_connected {α β : Type} {k : UpdiDevice → SessionM ((τ × κ) × List Event) α}
    {p : PyM (Wire τ κ') β} {Q : Except Halt α → Except PymcuprogError β → Prop}
    (h : Lockstep (SessionInStep dl d) jobExcuse (k d) p Q) :
    Lockstep (SessionInStep dl d) jobExcuse (UpdiSession.connectedDevice >>= k) p Q :=
  .left (fun _ _ hs ↦ connectedDevice_run dl hs) fun _ hdev ↦ hdev ▸ h

theorem lockstep_bound {α β : Type} {k : UpdiDevice → SessionM ((τ × κ) × List Event) α}
    {p : PyM (Wire τ κ') β} {Q : Except Halt α → Except PymcuprogError β → Prop}
    (h : Lockstep (SessionInStep dl d) jobExcuse (k d) p Q) :
    Lockstep (SessionInStep dl d) jobExcuse (UpdiSession.boundDevice >>= k) p Q :=
  .left (fun _ _ hs ↦ boundDevice_run dl hs) fun _ hdev ↦ hdev ▸ h

theorem lockstep_quiet {m : SessionM ((τ × κ) × List Event) Unit} {p : PyM (Wire τ κ') Unit}
    (h : Lockstep (SessionInStep dl d) jobExcuse m p (Alike (fun _ _ ↦ True) fun _ _ ↦ True)) :
    Lockstep (SessionInStep dl d) jobExcuse (m >>= fun _ ↦ pure ([] : List UInt8))
      (p >>= fun _ ↦ pure []) (Alike (· = ·) fun _ _ ↦ True) :=
  h.seq (fun _ _ ↦ .error trivial) fun _ _ _ ↦ .pure (.ok rfl)

section Drivers

include hturns

theorem lockstep_driver_chipErase : Lockstep (InStep dl) nvmExcuse
    (Updi.UpdiNvm.chipErase (g.transport clock).recorded d)
      (nvmDriver d (g.port time) dl turns).chipErase Same := by
  cases hv : d.nvmVariant with
  | p0 =>
    simp only [nvmDriver, hv]
    exact lockstep_chipErase_p0 g clock time dl hturns hv
  | p3 =>
    simp only [nvmDriver, hv]
    exact lockstep_chipErase_p3 g clock time dl hturns hv

theorem lockstep_driver_writeFlash (address : ℕ) {data : List UInt8}
    (hlen : data.length ≠ 0 ∧ data.length % 2 = 0) (hpage : data.length ≤ d.flashPageSize) :
    Lockstep (InStep dl) nvmExcuse
      (Updi.UpdiNvm.writeFlashPage (g.transport clock).recorded d address data)
      ((nvmDriver d (g.port time) dl turns).writeFlash address data) Same := by
  cases hv : d.nvmVariant with
  | p0 =>
    simp only [nvmDriver, hv]
    exact lockstep_writeFlashPage_p0 g clock time dl hturns hv address hlen hpage
  | p3 =>
    simp only [nvmDriver, hv]
    exact lockstep_writeFlashPage_p3 g clock time dl hturns hv address hlen hpage

theorem lockstep_driver_writeFuse {index : UInt8} (hindex : index.toNat < d.fusesSize)
    (value : UInt8) :
    Lockstep (InStep dl) nvmExcuse
      (Updi.UpdiNvm.writeFuse (g.transport clock).recorded d index value)
      ((nvmDriver d (g.port time) dl turns).writeFuse (d.fusesAddress + index.toNat) [value])
        Same := by
  cases hv : d.nvmVariant with
  | p0 =>
    simp only [nvmDriver, hv]
    exact lockstep_writeFuse_p0 g clock time dl hturns hv hindex value
  | p3 =>
    simp only [nvmDriver, hv]
    exact lockstep_writeFuse_p3 g clock time dl hturns hv hindex value

include hkeep

theorem lockstep_image (hd : d.WellFormed) (image : List UInt8) : Lockstep (InStep dl) nvmExcuse
    (Updi.UpdiSession.writePages (g.transport clock).recorded d d.flashPageSize image.length
      d.flashAddress image)
    (NvmAccessProviderSerial.writePages (nvmDriver d (g.port time) dl turns) pagealign d image)
      Same := by
  have hlen (k : ℕ) : (pageData d image k).length = d.flashPageSize :=
    padPage_length (List.length_take_le _ _)
  have hpos := hd.page_pos
  have hpages := session_writePages_eq_each (g.transport clock).recorded d image image.length 0
  simp only [Nat.zero_mul, Nat.add_zero, List.drop_zero] at hpages
  rw [hpages, NvmAccessProviderSerial.writePages_eq_each _ hkeep hpos]
  have heach : Lockstep (InStep dl) nvmExcuse
      (each (fun k ↦ Updi.UpdiNvm.writeFlashPage (g.transport clock).recorded d
        (d.flashAddress + k * d.flashPageSize)
        (pageData d image k)) (pagesFrom d image image.length 0))
      (each (fun k ↦ (nvmDriver d (g.port time) dl turns).writeFlash
        (k * d.flashPageSize + d.flashAddress)
        (pageData d image k)) (pagesFrom d image image.length 0))
          (Alike (· = ·) fun _ _ ↦ True) := by
    refine .each (fun _ ↦ Excuse.keptBy_ofStatus) fun k _ ↦ ?_
    have hwhole : (pageData d image k).length ≠ 0 ∧ (pageData d image k).length % 2 = 0 := by
      rw [hlen]
      exact ⟨by omega, hd.page_even⟩
    rw [Nat.add_comm (k * d.flashPageSize)]
    have hpage := lockstep_driver_writeFlash clock time dl hturns (g := g)
      (d.flashAddress + k * d.flashPageSize) hwhole (hlen k).le
    exact hpage.mono fun _ _ h ↦ h.mono (fun _ _ _ ↦ rfl) fun _ _ ↦ id
  exact heach.seq same_error fun _ _ _ ↦ .pure (.ok trivial)

end Drivers

include hg hturns hkeep

theorem lockstep_job (hd : d.WellFormed) {job : Job} (hjob : job.InRange d) :
    Lockstep (SessionInStep dl d) jobExcuse (job.run (g.transport clock).recorded)
      (job.reference pagealign d (g.port time) dl turns) (Alike (· = ·) fun _ _ ↦ True) := by
  cases job with
  | chipErase =>
    have herase := lockstep_driver_chipErase (d := d) clock time dl hturns (g := g)
    refine lockstep_quiet dl
      (.left (P := (· = some d)) (fun s w hs ↦ ⟨_, s, rfl, hs.device, hs⟩) ?_)
    rintro _ rfl
    exact lockstep_bound dl (lockstep_onLink dl herase)
  | writeFlash image =>
    have hpage : ¬(d.flashPageSize = 0 ∨ UpdiSession.maxPage < d.flashPageSize) := by
      have hpos := hd.page_pos
      have hle : d.flashPageSize ≤ UpdiSession.maxPage := hd.page_le
      omega
    refine lockstep_quiet dl (lockstep_connected dl ?_)
    simp only [if_neg hpage]
    exact lockstep_bound dl
      (lockstep_onLink dl (lockstep_image clock time dl hturns hkeep hd image))
  | readFlash len =>
    have hread : Lockstep (InStep dl) nvmExcuse
        (Updi.UpdiNvm.readChunks (g.transport clock).recorded len d.flashAddress len)
        (NvmAccessProviderSerial.readLoop (g.port time) dl len d.flashAddress len
          NvmAccessProviderSerial.readChunkSize)
        SameData := lockstep_readChunks hg clock time (.inl rfl) len _ len _ (.inr rfl)
    refine lockstep_connected dl ?_
    rw [readFlashChunks_eq]
    simp only [Job.reference, NvmAccessProviderSerial.read, flashMemory, Nat.zero_add]
    exact lockstep_onLink dl hread
  | writeFuse index value =>
    have hfuse := lockstep_driver_writeFuse clock time dl hturns (g := g) hjob value
    rw [Nat.add_comm] at hfuse
    simp only [Job.reference, NvmAccessProviderSerial.write_fuse _ hkeep]
    exact lockstep_quiet dl (lockstep_connected dl (lockstep_bound dl (lockstep_onLink dl hfuse)))

omit hg hturns hkeep

/-- Jobs one after the other, up to the first that fails, with what they read. -/
def portJobs (t : UpdiTransport σ) (jobs : List Job) : SessionM σ (List (List UInt8)) :=
  each (·.run t) jobs

def backendJobs (pagealign : List UInt8 → (offset pageSize writeSize : ℕ) → List UInt8 × ℕ)
    (d : UpdiDevice) (port : SerialPort σ) (dl : UpdiDatalink) (turns : ℕ) (jobs : List Job) :
    PyM σ (List (List UInt8)) :=
  each (·.reference pagealign d port dl turns) jobs

include hg hturns hkeep

/-- A connected session sends the bytes that the backend of pymcuprog sends for
the same jobs, reads the same data and leaves the target in the same state, if no
status poll or read of the port fails and pymcuprog misses nothing. Of an image
the backend is given the pages that are not blank, padded with 0xFF; for whole
pages of which none is blank that is one call of its `write`. -/
theorem session_follows_backend (hd : d ∈ Updi.deviceTable) (jobs : List Job)
    (hjobs : ∀ job ∈ jobs, job.InRange d)
    (session : UpdiSession) (hconnected : session.connected = true)
    (hdevice : session.device = some d)
    (hnvmDevice : session.nvmDevice = some d) (x : τ) (k : κ) (k' : κ')
    (hport : ∀ h, (portJobs (g.transport clock).recorded jobs ⟨session, (x, k), []⟩).1 = .error h →
      ¬SessionMissed h)
    (hbackend : ∀ e,
      (backendJobs pagealign d (g.port time) (.ofWidth session.link.addressBytes) turns jobs
      ⟨x, [], [], k'⟩).1 = .error e → ¬e.Missed) :
    let port := portJobs (g.transport clock).recorded jobs ⟨session, (x, k), []⟩
    let backend := backendJobs pagealign d (g.port time) (.ofWidth session.link.addressBytes) turns
      jobs ⟨x, [], [], k'⟩
    (delivered port.2.ctx.2 = backend.2.written ∧ port.1.toOption = backend.1.toOption ∧
      port.2.ctx.1.1 = backend.2.target) ∧
    ∀ image, image.length % d.flashPageSize = 0 →
      (∀ k, k * d.flashPageSize < image.length →
        Updi.UpdiSession.allFf (pageData d image k) = false) →
      (Job.writeFlash image).reference pagealign d (g.port time)
        (.ofWidth session.link.addressBytes) turns = (do
        NvmAccessProviderSerial.write
          (nvmDriver d (g.port time) (.ofWidth session.link.addressBytes) turns)
          pagealign (flashMemory d) 0 image
        pure []) := by
  have hstart : SessionInStep (.ofWidth session.link.addressBytes) d
      (⟨session, (x, k), []⟩ : SessionState ((τ × κ) × List Event)) (⟨x, [], [], k'⟩ : Wire τ κ') :=
    ⟨hconnected, hdevice, hnvmDevice, rfl, rfl, rfl, rfl⟩
  have hrun : Lockstep (SessionInStep (.ofWidth session.link.addressBytes) d) jobExcuse
      (portJobs (g.transport clock).recorded jobs)
      (backendJobs pagealign d (g.port time) (.ofWidth session.link.addressBytes) turns jobs)
      (Alike (· = ·) fun _ _ ↦ True) :=
    .each (fun _ ↦ Excuse.keptBy_ofStatus) fun job hjob ↦
      lockstep_job hg clock time _ hturns hkeep (UpdiDevice.wellFormed_of_mem hd) (hjobs job hjob)
  obtain ⟨hend, hdata⟩ := (hrun _ _ hstart).resolve_left (Excuse.not_holds id hport hbackend)
  refine ⟨⟨hend.link.bytes, hdata.toOption, hend.link.target⟩, fun image hwhole hblank ↦ ?_⟩
  have hpos := (UpdiDevice.wellFormed_of_mem hd).page_pos
  rw [Job.reference, NvmAccessProviderSerial.write_whole _ hkeep hpos hwhole hblank]

end Session

/-- Data put on a page boundary and filled up to whole units with 0xFF. -/
def padToUnits (data : List UInt8) (offset pageSize writeSize : ℕ) : List UInt8 × ℕ :=
  let front := List.replicate (offset % pageSize) 0xFF ++ data
  (front ++ List.replicate ((writeSize - front.length % writeSize) % writeSize) 0xFF,
    offset - offset % pageSize)

theorem padToUnits_keepsAligned : KeepsAligned padToUnits := by
  intro data offset pageSize writeSize hoffset hunits
  simp [padToUnits, hoffset, hunits]

def imageJobs : List Job := [.chipErase, .writeFlash [1, 2, 3], .readFlash 3, .writeFuse 5 0xC4]

def imageJobsAnswers : List UInt8 :=
  [0x00, 0x40, 0x40, 0x00] ++ [0x03, 0x00, 0x40, 0x40, 0x00, 0x40, 0x40, 0x40, 0x00] ++
    [0x40, 1, 2, 3] ++ [0x00, 0x40, 0x40, 0x40, 0x40, 0x40, 0x40, 0x40, 0x40, 0x00]

abbrev portImage :=
  portJobs (queued.transport (none : Option (Unit → UInt32 × Unit))).recorded imageJobs
  ⟨connectedAttiny412, (imageJobsAnswers, ()), []⟩

abbrev backendImage := backendJobs padToUnits attiny412 (queued.port fun k : Unit ↦ (0, k))
  (.ofWidth connectedAttiny412.link.addressBytes) Updi.nvmMaxPollIters imageJobs
    ⟨imageJobsAnswers, [], [], ()⟩

def zeroPage : List UInt8 := List.replicate 0x40 0

theorem zeroPage_not_blank {k : ℕ} (h : k * attiny412.flashPageSize < zeroPage.length) :
    Updi.UpdiSession.allFf (pageData attiny412 zeroPage k) = false := by
  have hlen : zeroPage.length = 0x40 := List.length_replicate
  have hpage : attiny412.flashPageSize = 0x40 := rfl
  obtain rfl : k = 0 := by
    rw [hlen, hpage] at h
    omega
  decide

theorem imageJobs_follow_backend :
    ((delivered portImage.2.ctx.2 = backendImage.2.written ∧
      portImage.1.toOption = backendImage.1.toOption ∧
      portImage.2.ctx.1.1 = backendImage.2.target) ∧ portImage.1 = .ok [[], [], [1, 2, 3], []]) ∧
    (Job.writeFlash zeroPage).reference padToUnits attiny412 (queued.port fun k : Unit ↦ (0, k))
        (.ofWidth connectedAttiny412.link.addressBytes) Updi.nvmMaxPollIters = (do
      NvmAccessProviderSerial.write (nvmDriver attiny412 (queued.port fun k : Unit ↦ (0, k))
        (.ofWidth connectedAttiny412.link.addressBytes) Updi.nvmMaxPollIters) padToUnits
          (flashMemory attiny412) 0
        zeroPage
      pure []) := by
  have hport : portImage.1 = .ok [[], [], [1, 2, 3], []] := by decide +kernel
  have hbackend : backendImage.1 = .ok [[], [], [1, 2, 3], []] := by decide +kernel
  have hrange : ∀ job ∈ imageJobs, job.InRange attiny412 := by
    simp [imageJobs, Job.InRange, attiny412]
  have hstep := session_follows_backend queued_streams (none : Option (Unit → UInt32 × Unit))
    (fun k : Unit ↦ (0, k))
    (Nat.le_refl _) padToUnits_keepsAligned
      (by decide : attiny412 ∈ Updi.deviceTable) imageJobs hrange
    connectedAttiny412 rfl rfl rfl imageJobsAnswers () ()
  have hnotMissed (h : Halt) (hh : portImage.1 = .error h) : ¬SessionMissed h := by
    rw [hport] at hh
    exact nomatch hh
  have hnotMissed' (e : PymcuprogError) (he : backendImage.1 = .error e) : ¬e.Missed := by
    rw [hbackend] at he
    exact nomatch he
  with_reducible have hfollow := hstep hnotMissed hnotMissed'
  with_reducible exact ⟨⟨hfollow.1, hport⟩, hfollow.2 zeroPage (by decide) fun k hk ↦
    zeroPage_not_blank hk⟩

end UpdiProgrammer.Reference
