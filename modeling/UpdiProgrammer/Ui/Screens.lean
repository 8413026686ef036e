import UpdiProgrammer.Ui.Progress

namespace UpdiProgrammer.Ui

open Updi

def updiDumpDir : String := "/ext/updi"

def updiStatusStr : UpdiStatus → String
  | .ok _ => "OK"
  | .error .timeout => "No response (timeout)"
  | .error .nack => "Target NACK"
  | .error .protocol => "Protocol error"
  | .error .param => "Bad parameter"
  | .error .verify => "Verify mismatch"
  | .error .nvm => "NVM write error"
  | .error .locked => "Device locked"
  | .error .unsupported => "Unknown signature"
  | .error .transport => "Serial busy/failed"

def opName : Option UpdiOp → String
  | some .connect => "Connect"
  | some .chipErase => "Chip erase"
  | some .flash => "Flash"
  | some .verify => "Verify"
  | some .dump => "Dump"
  | some .readFuses => "Read fuses"
  | none => "Operation"

/-- `%0wX` -/
def hexText (w n : ℕ) : String :=
  String.ofList (List.leftpad w '0' ((Nat.toDigits 16 n).map Char.toUpper))

/-- `%s` of the bytes up to the first zero. -/
def bytesText (l : List UInt8) : String :=
  String.ofList ((l.takeWhile (· ≠ 0)).map fun b ↦ Char.ofNat b.toNat)

def eepromSizes : List (ℕ × ℕ) :=
  [(0x1E9620, 0x200), (0x1E961F, 0x200), (0x1E961E, 0x200), (0x1E9223, 0x80), (0x1E9221, 0x80),
    (0x1E9322, 0x80),
    (0x1E9321, 0x80), (0x1E9422, 0x100), (0x1E9421, 0x100), (0x1E9521, 0x100), (0x1E9527, 0x100),
      (0x1E9327, 0x80),
    (0x1E9428, 0x100), (0x1E9326, 0x100), (0x1E932A, 0x100), (0x1E9427, 0x100), (0x1E9426, 0x100),
      (0x1E9530, 0x100),
    (0x1E9531, 0x100), (0x1E9650, 0x100), (0x1E9651, 0x100)]

def eepromSize (d : UpdiDevice) : ℕ := (eepromSizes.lookup d.deviceId).getD 0

def deviceInfoText (s : UpdiSession) : String :=
  match s.device with
  | some d =>
    "Device: " ++ d.name ++
      "\nSignature: " ++ hexText 2 (s.sig.getD 0 0).toNat ++ " " ++
        hexText 2 (s.sig.getD 1 0).toNat ++ " " ++ hexText 2 (s.sig.getD 2 0).toNat ++
      "\nFamily: " ++ bytesText s.sib.family ++ "  (NVM P:" ++
        toString s.sib.nvmVersion.toNat ++ ")" ++
      "\nFlash: " ++ toString d.flashSize ++ " B, page " ++ toString d.flashPageSize ++
      "\nEEPROM: " ++ toString (eepromSize d) ++ " B" ++
      "\nFuses: " ++ toString d.fusesSize ++
      "\nAddressing: " ++ toString (d.addressBytes * 8) ++ "-bit"
  | none => "No device identified."

/-- The lines of `updi_scene_fuses_on_enter` from fuse `i` on. -/
def fuseLines : (i : ℕ) → List UInt8 → String
  | _, [] => ""
  | i, b :: rest =>
    "F" ++ toString i ++ ": 0x" ++ hexText 2 b.toNat ++ "\n" ++ fuseLines (i + 1) rest

def fusesText (app : UpdiApp) : String :=
  (app.session.device.elim "" UpdiDevice.name) ++ " fuses:\n" ++ fuseLines 0 app.fuses

def resultHeader : UpdiStatus → String
  | .ok _ => "Success"
  | .error _ => "Error"

def resultText (op : Option UpdiOp) (result : UpdiStatus) (mismatch : Option UpdiVerifyMismatch)
    (filePath : String) : String :=
  match result with
  | .ok _ =>
    match op with
    | some .flash => "Write + read-back verify passed."
    | some .verify => "Verify passed.\nDevice matches HEX."
    | some .chipErase => "Chip erased."
    | some .dump => "Saved:\n" ++ filePath
    | op => opName op ++ " OK"
  | .error e =>
    opName op ++ " failed:\n" ++ updiStatusStr (.error e) ++
      match e with
      | .verify =>
        -- the mismatch is all zero until a verify has found one
        let m := mismatch.getD ⟨0, 0, 0⟩
        "\nFirst diff at 0x" ++ hexText 4 m.offset ++ ":\nHEX 0x" ++ hexText 2 m.expected.toNat ++
          " vs chip 0x" ++ hexText 2 m.actual.toNat
      | .locked => "\nUse Chip Erase to unlock (erases all)."
      | .timeout => "\nCheck wiring and 3.3 V power."
      | .unsupported => "\nSignature not in device table."
      | .transport => "\nUSART busy? Close other GPIO apps."
      | _ => ""

/-- The view on the screen, with what it shows. -/
inductive Screen
  | submenu
  | popup (text : String)
  | widget (header text : String)
  | varItemList (baudIndex : ℕ)
  deriving DecidableEq, Repr

def deviceInfoScreen (s : UpdiSession) : Screen := .widget "Device Info" (deviceInfoText s)

def fusesScreen (app : UpdiApp) : Screen := .widget "Fuses" (fusesText app)

def resultScreen (op : Option UpdiOp) (result : UpdiStatus) (mismatch : Option UpdiVerifyMismatch)
    (filePath : String) : Screen :=
  .widget (resultHeader result) (resultText op result mismatch filePath)

end UpdiProgrammer.Ui
