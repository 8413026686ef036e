import Mathlib.Tactic.Common

namespace UpdiProgrammer.Updi

/-- The seam to the hardware: the function pointers of a transport over a
context of type `σ`, which holds the line and the target behind it. A
receive never yields more bytes than it was asked for. -/
structure UpdiTransport (σ : Type) where
  send : List UInt8 → σ → Bool × σ
  recv : (len timeoutMs : ℕ) → σ → List UInt8 × σ
  recv_length : ∀ len timeoutMs c, (recv len timeoutMs c).1.length ≤ len
  doubleBreak : Option (σ → σ)
  millis : Option (σ → UInt32 × σ)

namespace UpdiTransport

variable {σ : Type}

def Reliable (t : UpdiTransport σ) : Prop := ∀ data c, (t.send data c).1 = true

def silent : UpdiTransport Unit where
  send _ c := (true, c)
  recv _ _ c := ([], c)
  recv_length _ _ _ := Nat.zero_le _
  doubleBreak := none
  millis := none

def withBreak (t : UpdiTransport σ) (br : Option (σ → σ)) : UpdiTransport σ :=
  { t with doubleBreak := br }

theorem withBreak_self (t : UpdiTransport σ) : t.withBreak t.doubleBreak = t := rfl

/-- One call through the seam, with what it delivered or returned. -/
inductive Event
  | sent (data : List UInt8) (ok : Bool)
  | received (len : ℕ) (data : List UInt8)
  | broke
  | clock (now : UInt32)
  deriving DecidableEq, Repr

/-- The same transport, keeping a record of the calls made through it. -/
def recorded (t : UpdiTransport σ) : UpdiTransport (σ × List Event) where
  send data c := ((t.send data c.1).1,
    ((t.send data c.1).2, c.2 ++ [.sent data (t.send data c.1).1]))
  recv len timeoutMs c := ((t.recv len timeoutMs c.1).1,
    ((t.recv len timeoutMs c.1).2, c.2 ++ [.received len (t.recv len timeoutMs c.1).1]))
  recv_length len timeoutMs c := t.recv_length len timeoutMs c.1
  doubleBreak := t.doubleBreak.map fun f c ↦ (f c.1, c.2 ++ [.broke])
  millis := t.millis.map fun f c ↦ ((f c.1).1, ((f c.1).2, c.2 ++ [.clock (f c.1).1]))

end UpdiTransport

end UpdiProgrammer.Updi
