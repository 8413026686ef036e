import UpdiProgrammer.HostTest.Recovery
import UpdiProgrammer.HostTest.FuseRun
import UpdiProgrammer.Ui.VerifyFile

namespace UpdiProgrammer.Updi

open Library.Program UpdiSession

inductive Reply
  | done
  | bytes (l : List UInt8)
  | compared (mismatch : Option UpdiVerifyMismatch)
  deriving DecidableEq

def SessionOp.ask {σ : Type} (t : UpdiTransport σ) : SessionOp → SessionM σ Reply
  | connect => do
    UpdiSession.connect t
    pure .done
  | unlock => do
    UpdiSession.unlock t
    pure .done
  | disconnect => do
    UpdiSession.disconnect t
    pure .done
  | chipErase => do
    UpdiSession.chipErase t
    pure .done
  | writeFlash image => do
    UpdiSession.writeFlash t image
    pure .done
  | verifyFlash image => do
    let mismatch ← UpdiSession.verifyFlash t image
    pure (.compared mismatch)
  | readFlash len => do
    let l ← UpdiSession.readFlash t len
    pure (.bytes l)
  | readFuses count => do
    let l ← UpdiSession.readFuses t count
    pure (.bytes l)
  | writeFuse index value => do
    UpdiSession.writeFuse t index value
    pure .done

def SessionOp.InFlash (d : UpdiDevice) : SessionOp → Prop
  | writeFlash image => image.length ≤ d.flashSize
  | verifyFlash image => image.length ≤ d.flashSize
  | readFlash len => len ≤ d.flashSize
  | _ => True

end UpdiProgrammer.Updi

namespace UpdiProgrammer.HostTest

open Updi UpdiSession Ui Library.Memory

inductive Contact
  | unknown
  | found
  | connected
  deriving DecidableEq

/-- A programmer with a part on it, as its user sees the two: how far they have
come to know each other, and the two memories of the part. -/
structure Bench where
  contact : Contact
  flash : ℕ → UInt8
  fuses : ℕ → UInt8

namespace Bench

/-- The flash after an image was written to it from offset zero on: pages for
which the image has nothing but 0xFF stay as they are, and each of the others
takes its bytes of the image and 0xFF after the end of the image. -/
def writePages (page : ℕ) (image : List UInt8) (flash : ℕ → UInt8) : ℕ → UInt8 := fun i ↦
  if allFf ((image.drop (i / page * page)).take page) then flash i else image.getD i 0xFF

def onConnected (b : Bench) (r : Except Halt Reply × Bench) : Except Halt Reply × Bench :=
  if b.contact = .connected then r else (.error (.status .param), b)

/-- What every call of the session interface means for the two. An erase only
asks for a part that was found, which it still is after a disconnect. -/
def step (d : UpdiDevice) : SessionOp → Bench → Except Halt Reply × Bench
  | .connect, b => (.ok .done, { b with contact := .connected })
  | .unlock, b => (.ok .done, b)
  | .disconnect, b =>
    (.ok .done, { b with contact := if b.contact = .connected then .found else b.contact })
  | .chipErase, b =>
    if b.contact = .unknown then (.error (.status .param), b)
    else (.ok .done, { b with flash := fun _ ↦ 0xFF })
  | .writeFlash image, b =>
    b.onConnected (.ok .done, { b with flash := writePages d.flashPageSize image b.flash })
  | .verifyFlash image, b =>
    b.onConnected (.ok (.compared (firstMismatch (image.getD · 0) b.flash 0 image.length)), b)
  | .readFlash len, b => b.onConnected (.ok (.bytes ((List.range len).map b.flash)), b)
  | .readFuses count, b =>
    b.onConnected (.ok (.bytes ((List.range (min count d.fusesSize)).map b.fuses)), b)
  | .writeFuse index value, b =>
    b.onConnected (if index.toNat < d.fusesSize then
      (.ok .done, { b with fuses := Function.update b.fuses index.toNat value })
    else (.error (.status .param), b))

end Bench

def OtherIo (d : UpdiDevice) (i : ℕ) : Prop :=
  ¬InNvmctrl d (emuIoBase + i) ∧
    ¬(d.fusesAddress ≤ emuIoBase + i ∧ emuIoBase + i < d.fusesAddress + d.fusesSize)

/-- The part is of the row `d`, its memories are those of the bench, and the
rest of its IO space is as in `m₀`. -/
structure Resembles (d : UpdiDevice) (m₀ : EmuMem) (b : Bench) (m : EmuMem) : Prop where
  ident : Ident d m₀.sib m
  flash : m.flash = b.flash
  fuses : ∀ i < d.fusesSize, m.io (d.fusesAddress + i - emuIoBase) = b.fuses i
  io : ∀ i, OtherIo d i → m.io i = m₀.io i

variable {d : UpdiDevice} {m₀ m m' : EmuMem} {b : Bench}

namespace Resembles

theorem configured (h : Resembles d m₀ b m) : Configured d m := h.ident.target.configured

theorem of_sameStore (h : Resembles d m₀ b m) (hs : m.SameStore m') (hlive : m'.cs csStatusa ≠ 0) :
    Resembles d m₀ b m' := by
  refine ⟨h.ident.of_sameStore hs hlive, ?_, ?_, ?_⟩
  · rw [hs]
    exact h.flash
  · rw [hs]
    exact h.fuses
  · rw [hs]
    exact h.io

theorem applyStcs (h : Resembles d m₀ b m) {a : UInt8} (ha : a &&& 0x0F ≠ csStatusa) (v : UInt8) :
    Resembles d m₀ b (m.applyStcs a v) :=
  h.of_sameStore (.applyStcs m a v) (h.ident.applyStcs ha v).live

theorem applyKey (h : Resembles d m₀ b m) (k : List UInt8) : Resembles d m₀ b (m.applyKey k) :=
  h.of_sameStore (.applyKey m k) (h.ident.applyKey k).live

theorem withFlash (h : Resembles d m₀ b m) (f : ℕ → UInt8) :
    Resembles d m₀ { b with flash := f } { m with flash := f } :=
  ⟨h.ident.withFlash f, rfl, h.fuses, h.io⟩

theorem withContact (h : Resembles d m₀ b m) (c : Contact) :
    Resembles d m₀ { b with contact := c } m :=
  ⟨h.ident, h.flash, h.fuses, h.io⟩

theorem setIo_ctrla (hmem : d ∈ deviceTable) (h : Resembles d m₀ b m) (c : UInt8) :
    Resembles d m₀ b (m.setIo (d.nvmctrlBase + d.nvmDesc.regCtrla) c) := by
  have hd := UpdiDevice.wellFormed_of_mem hmem
  obtain ⟨hin, hctrla⟩ := ctrla_inNvmctrl hd
  have hbase : d.nvmctrlBase = emuIoBase := hd.nvmctrlBase
  obtain ⟨habove, -⟩ := fuses_in_io hmem
  have hlow := hctrla.2
  refine ⟨h.ident.setIo hd (spares_ctrla hd) c, ?_, fun i hi ↦ ?_, fun i hi ↦ ?_⟩
  · rw [EmuMem.setIo, if_pos hin]
    exact h.flash
  · rw [io_setIo_ne (by omega), h.fuses i hi]
  · rw [io_setIo_ne ?_, h.io i hi]
    intro heq
    exact hi.1 (heq ▸ hctrla)

theorem storeFuse (hmem : d ∈ deviceTable) (h : Resembles d m₀ b m) {i : ℕ} (hi : i < d.fusesSize)
    {v : UInt8} (hs : CellStored (FuseCells d (d.fusesAddress + i)) (d.fusesAddress + i) v m m') :
    Resembles d m₀ { b with fuses := Function.update b.fuses i v } m' := by
  have hd := UpdiDevice.wellFormed_of_mem hmem
  have hbase : d.nvmctrlBase = emuIoBase := hd.nvmctrlBase
  have hnum : emuIoBase = 0x1000 := rfl
  have hsig : sigrowDefaultAddress = 0x1100 := rfl
  obtain ⟨habove, -⟩ := fuses_in_io hmem
  have hrest := hs.others.rest
  refine ⟨⟨⟨h.configured.of_agree hs.others, ?_, fun j hj ↦ ?_⟩, ?_, ?_⟩, ?_, fun j hj ↦ ?_,
    fun j hj ↦ ?_⟩
  · rw [hrest]
    exact h.ident.target.sibDigit
  · have haddr := hd.sigrowAddress
    obtain ⟨hfree, -, -⟩ := fuses_of_mem hmem hi
    rw [hs.others.io, h.ident.target.signature j hj]
    unfold Spares at hfree
    rintro (⟨-, hreg⟩ | hfuse) <;> omega
  · rw [hrest]
    exact h.ident.sib
  · rw [hrest]
    exact h.ident.live
  · rw [hrest]
    exact h.flash
  · by_cases hij : j = i
    · have hat : Function.update b.fuses i v j = v := by rw [hij, Function.update_self]
      rw [hij] at hat ⊢
      exact hs.cell.trans hat.symm
    · have hat : Function.update b.fuses i v j = b.fuses j := Function.update_of_ne hij ..
      refine Eq.trans (hs.others.io _ ?_) ((h.fuses j hj).trans hat.symm)
      rintro (⟨-, hreg⟩ | hfuse) <;> omega
  · rw [hs.others.io, h.io j hj]
    rintro (hreg | hfuse)
    · exact hj.1 hreg
    · exact hj.2 ⟨by omega, by omega⟩

end Resembles

end UpdiProgrammer.HostTest
