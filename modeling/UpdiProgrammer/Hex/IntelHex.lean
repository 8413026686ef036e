import Mathlib.Algebra.GroupWithZero.Nat
import UpdiProgrammer.Library.Memory

namespace UpdiProgrammer.Hex

open Library.Memory

inductive IntelHexStatus
  | ok
  | errFormat
  | errChecksum
  | errOverflow
  | errUnsupported
  deriving DecidableEq, Repr

/-- An image over a buffer. `data` also covers the memory behind the
buffer's `capacity` bytes, which the pointer reaches just as well. -/
structure IntelHexImage where
  data : ℕ → UInt8
  capacity : ℕ
  baseOffset : UInt32
  extBase : UInt32
  minOffset : ℕ
  maxOffset : ℕ
  any : Bool
  eofSeen : Bool

abbrev ihexTypeData : UInt8 := 0x00
abbrev ihexTypeEof : UInt8 := 0x01
abbrev ihexTypeExtSegment : UInt8 := 0x02
abbrev ihexTypeExtLinear : UInt8 := 0x04

/-- A character of a C string, which ends in a NUL. -/
def charAt (line : List UInt8) (i : ℕ) : UInt8 := line.getD i 0

def hexNibble (c : UInt8) : Option UInt8 :=
  if 0x30 ≤ c ∧ c ≤ 0x39 then some (c - 0x30)
  else if 0x61 ≤ c ∧ c ≤ 0x66 then some (c - 0x61 + 10)
  else if 0x41 ≤ c ∧ c ≤ 0x46 then some (c - 0x41 + 10)
  else none

def hexByte (line : List UInt8) (p : ℕ) : Option UInt8 :=
  match hexNibble (charAt line p), hexNibble (charAt line (p + 1)) with
  | some hi, some lo => some ((hi <<< 4) ||| lo)
  | _, _ => none

def hexBytes (line : List UInt8) : (p n : ℕ) → Option (List UInt8)
  | _, 0 => some []
  | p, n + 1 =>
    match hexByte line p with
    | some b => (hexBytes line (p + 2) n).map (b :: ·)
    | none => none

structure Record where
  byteCount : UInt8
  recordAddr : UInt16
  type : UInt8
  data : List UInt8
  deriving DecidableEq, Repr

def isSpace (c : UInt8) : Bool := c == 0x20 || c == 0x09 || c == 0x0D || c == 0x0A

/-- The part of `intel_hex_parse_line` before its switch: the record of a
line, or `none` for a blank one. -/
def parseRecord (line : List UInt8) : Except IntelHexStatus (Option Record) :=
  let line := line.dropWhile isSpace
  if charAt line 0 = 0x00 then .ok none
  else if charAt line 0 ≠ 0x3A then .error .errFormat
  else
    let line := line.drop 1
    match hexByte line 0, hexByte line 2, hexByte line 4, hexByte line 6 with
    | some byteCount, some addrHi, some addrLo, some type =>
      match hexBytes line 8 byteCount.toNat with
      | some data =>
        match hexByte line (8 + byteCount.toNat * 2) with
        | some checksum =>
          let sum := data.foldl (· + ·) (byteCount + addrHi + addrLo + type)
          if sum + checksum ≠ 0 then .error .errChecksum
          else .ok (some ⟨byteCount, (addrHi.toUInt16 <<< 8) ||| addrLo.toUInt16, type, data⟩)
        | none => .error .errFormat
      | none => .error .errFormat
    | _, _, _, _ => .error .errFormat

namespace IntelHexImage

def init (buf : ℕ → UInt8) (capacity : ℕ) (baseOffset : UInt32) (fill : UInt8) : IntelHexImage where
  data := fun i ↦ if i < capacity then fill else buf i
  capacity := capacity
  baseOffset := baseOffset
  extBase := 0
  minOffset := 0
  maxOffset := 0
  any := false
  eofSeen := false

-- `w` is the width of `size_t`
variable (w : ℕ) (img : IntelHexImage)

def absAddr (r : Record) : UInt32 := img.extBase + r.recordAddr.toUInt32

def offset (r : Record) : ℕ := (img.absAddr r - img.baseOffset).toNat

def endOffset (r : Record) : ℕ := (img.offset r + r.byteCount.toNat) % 2 ^ w

def InRange (r : Record) : Prop :=
  ¬img.absAddr r < img.baseOffset ∧ ¬img.capacity < img.endOffset w r

instance (r : Record) : Decidable (img.InRange w r) := by unfold InRange; infer_instance

def storeRecord (r : Record) : IntelHexImage :=
  { img with
    data := overwrite img.data (img.offset r) r.data
    minOffset :=
      if img.any then if img.offset r < img.minOffset then img.offset r else img.minOffset
      else img.offset r
    maxOffset :=
      if img.any then if img.maxOffset < img.endOffset w r then img.endOffset w r else img.maxOffset
      else img.endOffset w r
    any := true }

def extWord (r : Record) : UInt32 :=
  ((r.data.getD 0 0).toUInt32 <<< 8) ||| (r.data.getD 1 0).toUInt32

def applyRecord (r : Record) : IntelHexStatus × IntelHexImage :=
  if r.type = ihexTypeData then
    if img.InRange w r then (.ok, img.storeRecord w r) else (.errOverflow, img)
  else if r.type = ihexTypeEof then (.ok, { img with eofSeen := true })
  else if r.type = ihexTypeExtLinear then
    if r.byteCount ≠ 2 then (.errFormat, img) else (.ok, { img with extBase := extWord r <<< 16 })
  else if r.type = ihexTypeExtSegment then
    if r.byteCount ≠ 2 then (.errFormat, img) else (.ok, { img with extBase := extWord r <<< 4 })
  else if r.type = 0x03 ∨ r.type = 0x05 then (.ok, img)
  else (.errUnsupported, img)

def parseLine (line : List UInt8) : IntelHexStatus × IntelHexImage :=
  match parseRecord line with
  | .error e => (e, img)
  | .ok none => (.ok, img)
  | .ok (some r) => img.applyRecord w r

def parseLines (lines : List (List UInt8)) : IntelHexImage :=
  lines.foldl (fun img line ↦ (img.parseLine w line).2) img

end IntelHexImage

def nib (v : UInt8) : UInt8 :=
  let v := v &&& 0x0F
  if v < 10 then 0x30 + v else 0x41 + v - 10

def putByte (v : UInt8) : List UInt8 := [nib (v >>> 4), nib v]

/-- The line of a record, without the sink call. -/
def recordLine (count : UInt8) (addr : UInt16) (type : UInt8) (data : List UInt8) : List UInt8 :=
  let bytes := [count, (addr >>> 8).toUInt8, addr.toUInt8, type] ++ data.take count.toNat
  [0x3A] ++ bytes.flatMap putByte ++ putByte (0 - bytes.foldl (· + ·) 0) ++ [0x0D, 0x0A]

/-- A sink takes a line and says whether it was written. -/
abbrev IntelHexWriteFn (σ : Type) := List UInt8 → σ → Bool × σ

def emitRecord {σ : Type} (sink : IntelHexWriteFn σ) (count : UInt8) (addr : UInt16) (type : UInt8)
    (data : List UInt8) : σ → Bool × σ :=
  sink (recordLine count addr type data)

/-- The record loop of `intel_hex_write` from the offset where `data`
starts. A record takes at least one byte, so `fuel = data.length` turns
are enough. -/
def writeRecords {σ : Type} (sink : IntelHexWriteFn σ) (bytesPerLine : ℕ) :
    (fuel : ℕ) → (absAddr : UInt32) → (curUpper : UInt16) → List UInt8 → σ → Bool × σ
  | 0, _, _, _, c => (true, c)
  | fuel + 1, absAddr, curUpper, data, c =>
    if data.length = 0 then (true, c)
    else
      let upper := (absAddr >>> 16).toUInt16
      let (ok, c) :=
        if upper ≠ curUpper then
          emitRecord sink 2 0 ihexTypeExtLinear [(upper >>> 8).toUInt8, upper.toUInt8] c
        else (true, c)
      if !ok then (false, c)
      else
        let chunk := if bytesPerLine < data.length then bytesPerLine else data.length
        let lo := absAddr.toUInt16
        let chunk := if 0x10000 < lo.toNat + chunk then 0x10000 - lo.toNat else chunk
        let (ok, c) := emitRecord sink (UInt8.ofNat chunk) lo ihexTypeData data c
        if !ok then (false, c)
        else writeRecords sink bytesPerLine fuel (absAddr + UInt32.ofNat chunk) upper
          (data.drop chunk) c

def write {σ : Type} (data : List UInt8) (startAddress : UInt32) (bytesPerLine : ℕ)
    (sink : IntelHexWriteFn σ) (c : σ) : IntelHexStatus × σ :=
  let bytesPerLine := if bytesPerLine = 0 ∨ 255 < bytesPerLine then 16 else bytesPerLine
  let (ok, c) := writeRecords sink bytesPerLine data.length startAddress 0xFFFF data c
  if !ok then (.errFormat, c)
  else
    let (ok, c) := emitRecord sink 0 0 ihexTypeEof [] c
    if !ok then (.errFormat, c) else (.ok, c)

end UpdiProgrammer.Hex
