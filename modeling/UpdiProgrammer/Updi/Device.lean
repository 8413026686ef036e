import Mathlib.Algebra.Group.Nat.Defs
import Mathlib.Tactic.Common

namespace UpdiProgrammer.Updi

inductive UpdiNvmVariant
  | p0
  | p3
  deriving DecidableEq, Repr

/-- A row of the device table, less its SYSCFG, EEPROM and user-row columns, which
no operation reads. -/
structure UpdiDevice where
  deviceId : ℕ
  name : String
  flashAddress : ℕ
  flashSize : ℕ
  flashPageSize : ℕ
  fusesAddress : ℕ
  fusesSize : ℕ
  sigrowAddress : ℕ
  nvmctrlBase : ℕ
  addressBytes : ℕ
  nvmVariant : UpdiNvmVariant
  deriving DecidableEq, Repr

def deviceTable : List UpdiDevice :=
  [⟨0x1E9620, "avr64ea28", 0x800000, 0x10000, 0x80, 0x1050, 0x9, 0x1100, 0x1000, 3, .p3⟩,
   ⟨0x1E961F, "avr64ea32", 0x800000, 0x10000, 0x80, 0x1050, 0x9, 0x1100, 0x1000, 3, .p3⟩,
   ⟨0x1E961E, "avr64ea48", 0x800000, 0x10000, 0x80, 0x1050, 0x9, 0x1100, 0x1000, 3, .p3⟩,
   ⟨0x1E9223, "attiny412", 0x8000, 0x1000, 0x40, 0x1280, 0x9, 0x1100, 0x1000, 2, .p0⟩,
   ⟨0x1E9221, "attiny416", 0x8000, 0x1000, 0x40, 0x1280, 0x9, 0x1100, 0x1000, 2, .p0⟩,
   ⟨0x1E9322, "attiny814", 0x8000, 0x2000, 0x40, 0x1280, 0x9, 0x1100, 0x1000, 2, .p0⟩,
   ⟨0x1E9321, "attiny816", 0x8000, 0x2000, 0x40, 0x1280, 0x9, 0x1100, 0x1000, 2, .p0⟩,
   ⟨0x1E9422, "attiny1614", 0x8000, 0x4000, 0x40, 0x1280, 0x9, 0x1100, 0x1000, 2, .p0⟩,
   ⟨0x1E9421, "attiny1616", 0x8000, 0x4000, 0x40, 0x1280, 0x9, 0x1100, 0x1000, 2, .p0⟩,
   ⟨0x1E9521, "attiny3216", 0x8000, 0x8000, 0x80, 0x1280, 0x9, 0x1100, 0x1000, 2, .p0⟩,
   ⟨0x1E9527, "attiny3226", 0x8000, 0x8000, 0x80, 0x1280, 0x9, 0x1100, 0x1000, 2, .p0⟩,
   ⟨0x1E9327, "attiny827", 0x8000, 0x2000, 0x40, 0x1280, 0x9, 0x1100, 0x1000, 2, .p0⟩,
   ⟨0x1E9428, "attiny1627", 0x8000, 0x4000, 0x40, 0x1280, 0x9, 0x1100, 0x1000, 2, .p0⟩,
   ⟨0x1E9326, "atmega808", 0x4000, 0x2000, 0x40, 0x1280, 0x9, 0x1100, 0x1000, 2, .p0⟩,
   ⟨0x1E932A, "atmega809", 0x4000, 0x2000, 0x40, 0x1280, 0x9, 0x1100, 0x1000, 2, .p0⟩,
   ⟨0x1E9427, "atmega1608", 0x4000, 0x4000, 0x40, 0x1280, 0x9, 0x1100, 0x1000, 2, .p0⟩,
   ⟨0x1E9426, "atmega1609", 0x4000, 0x4000, 0x40, 0x1280, 0x9, 0x1100, 0x1000, 2, .p0⟩,
   ⟨0x1E9530, "atmega3208", 0x4000, 0x8000, 0x80, 0x1280, 0x9, 0x1100, 0x1000, 2, .p0⟩,
   ⟨0x1E9531, "atmega3209", 0x4000, 0x8000, 0x80, 0x1280, 0x9, 0x1100, 0x1000, 2, .p0⟩,
   ⟨0x1E9650, "atmega4808", 0x4000, 0xC000, 0x80, 0x1280, 0x9, 0x1100, 0x1000, 2, .p0⟩,
   ⟨0x1E9651, "atmega4809", 0x4000, 0xC000, 0x80, 0x1280, 0x9, 0x1100, 0x1000, 2, .p0⟩]

namespace UpdiDevice

def findById (deviceId : ℕ) : Option UpdiDevice := deviceTable.find? fun d ↦ d.deviceId == deviceId

def idFromSig (sig : List UInt8) : ℕ :=
  (sig.getD 0 0).toNat * 0x10000 + (sig.getD 1 0).toNat * 0x100 + (sig.getD 2 0).toNat

def signature (d : UpdiDevice) : List UInt8 :=
  [UInt8.ofNat (d.deviceId / 0x10000), UInt8.ofNat (d.deviceId / 0x100), UInt8.ofNat d.deviceId]

theorem idFromSig_signature {d : UpdiDevice} (h : d.deviceId < 2 ^ 24) :
    idFromSig d.signature = d.deviceId := by
  simp only [idFromSig, signature, List.getD_cons_zero, List.getD_cons_succ, UInt8.toNat_ofNat']
  omega

/-- What the rows of the table have in common. -/
structure WellFormed (d : UpdiDevice) : Prop where
  findById : findById d.deviceId = some d
  deviceId_lt : d.deviceId < 2 ^ 24
  nvmctrlBase : d.nvmctrlBase = 0x1000
  sigrowAddress : d.sigrowAddress = 0x1100
  flash_above_io : 0x1600 ≤ d.flashAddress
  flashSize_le : d.flashSize ≤ 0x10000
  page_pos : 0 < d.flashPageSize
  page_le : d.flashPageSize ≤ 256
  page_even : d.flashPageSize % 2 = 0
  page_dvd : d.flashSize % d.flashPageSize = 0
  page_aligned : d.flashAddress % d.flashPageSize = 0
  addressBytes : d.addressBytes = if d.nvmVariant = .p0 then 2 else 3
  flash_fits : d.flashAddress + d.flashSize ≤ if d.nvmVariant = .p0 then 2 ^ 16 else 2 ^ 24

theorem wellFormed_of_mem {d : UpdiDevice} (h : d ∈ deviceTable) : d.WellFormed := by
  have hall : ∀ d ∈ deviceTable, findById d.deviceId = some d ∧ d.deviceId < 2 ^ 24 ∧
      d.nvmctrlBase = 0x1000 ∧ d.sigrowAddress = 0x1100 ∧ 0x1600 ≤ d.flashAddress ∧
      d.flashSize ≤ 0x10000 ∧ 0 < d.flashPageSize ∧ d.flashPageSize ≤ 256 ∧
      d.flashPageSize % 2 = 0 ∧ d.flashSize % d.flashPageSize = 0 ∧
      d.flashAddress % d.flashPageSize = 0 ∧
      d.addressBytes = (if d.nvmVariant = .p0 then 2 else 3) ∧
      d.flashAddress + d.flashSize ≤ (if d.nvmVariant = .p0 then 2 ^ 16 else 2 ^ 24) := by
    decide
  obtain ⟨h₁, h₂, h₃, h₄, h₅, h₆, h₇, h₈, h₉, h₁₀, h₁₁, h₁₂, h₁₃⟩ := hall d h
  exact ⟨h₁, h₂, h₃, h₄, h₅, h₆, h₇, h₈, h₉, h₁₀, h₁₁, h₁₂, h₁₃⟩

theorem page_fits {off page size : ℕ} (hoff : off % page = 0) (hsize : size % page = 0)
    (h : off < size) : off + page ≤ size := by
  obtain ⟨k, rfl⟩ := Nat.dvd_of_mod_eq_zero hoff
  obtain ⟨n, rfl⟩ := Nat.dvd_of_mod_eq_zero hsize
  have hk : k < n := Nat.lt_of_mul_lt_mul_left h
  calc page * k + page = page * (k + 1) := (Nat.mul_succ page k).symm
    _ ≤ page * n := Nat.mul_le_mul_left page hk

theorem page_ge_of_mem {d : UpdiDevice} (h : d ∈ deviceTable) : 0x40 ≤ d.flashPageSize := by
  have hall : ∀ d ∈ deviceTable, 0x40 ≤ d.flashPageSize := by decide
  exact hall d h

theorem findById_mem {id : ℕ} {d : UpdiDevice} (h : findById id = some d) : d ∈ deviceTable :=
  List.mem_of_find?_eq_some h

end UpdiDevice

end UpdiProgrammer.Updi
