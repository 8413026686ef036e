import Mathlib.Tactic.Common

namespace UpdiProgrammer.Updi

abbrev updiBreak : UInt8 := 0x00
abbrev updiLds : UInt8 := 0x00
abbrev updiSts : UInt8 := 0x40
abbrev updiLd : UInt8 := 0x20
abbrev updiSt : UInt8 := 0x60
abbrev updiLdcs : UInt8 := 0x80
abbrev updiStcs : UInt8 := 0xC0
abbrev updiRepeat : UInt8 := 0xA0
abbrev updiKey : UInt8 := 0xE0

abbrev ptrInc : UInt8 := 0x04
abbrev ptrAddress : UInt8 := 0x08
abbrev address16 : UInt8 := 0x04
abbrev address24 : UInt8 := 0x08
abbrev data8 : UInt8 := 0x00
abbrev data16 : UInt8 := 0x01
abbrev data24 : UInt8 := 0x02
abbrev keySib : UInt8 := 0x04
abbrev keyKey : UInt8 := 0x00
abbrev key64 : UInt8 := 0x00
abbrev sib8Bytes : UInt8 := 0x00
abbrev sib16Bytes : UInt8 := 0x01
abbrev sib32Bytes : UInt8 := 0x02
abbrev repeatByte : UInt8 := 0x00

abbrev phySync : UInt8 := 0x55
abbrev phyAck : UInt8 := 0x40

abbrev maxRepeatSize : ℕ := 0xFF + 1

abbrev csStatusa : UInt8 := 0x00
abbrev csCtrla : UInt8 := 0x02
abbrev csCtrlb : UInt8 := 0x03
abbrev asiKeyStatus : UInt8 := 0x07
abbrev asiResetReq : UInt8 := 0x08
abbrev asiSysStatus : UInt8 := 0x0B

abbrev ctrlaIbdly : UInt8 := (1 : UInt8) <<< 7
abbrev ctrlaRsd : UInt8 := (1 : UInt8) <<< 3
abbrev ctrlbCcdetdis : UInt8 := (1 : UInt8) <<< 3
abbrev ctrlbUpdidis : UInt8 := (1 : UInt8) <<< 2

abbrev keyStatusChiperase : UInt8 := (1 : UInt8) <<< 3
abbrev keyStatusNvmprog : UInt8 := (1 : UInt8) <<< 4
abbrev sysStatusNvmprog : UInt8 := (1 : UInt8) <<< 3
abbrev sysStatusLockstatus : UInt8 := (1 : UInt8) <<< 0

abbrev resetReqValue : UInt8 := 0x59

/-- The keys `"NVMProg "` and `"NVMErase"`, which are sent in reverse. -/
def keyNvm : List UInt8 := [0x4E, 0x56, 0x4D, 0x50, 0x72, 0x6F, 0x67, 0x20]

def keyChiperase : List UInt8 := [0x4E, 0x56, 0x4D, 0x45, 0x72, 0x61, 0x73, 0x65]

end UpdiProgrammer.Updi
