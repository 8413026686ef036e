import UpdiProgrammer.Updi.Transport

namespace UpdiProgrammer.Transport

open Updi

/-- Where a byte on the receive line comes from: it is the echo of a frame or
the target's answer to one. -/
inductive Source
  | echo (frame : ℕ)
  | answer (frame : ℕ)
  deriving DecidableEq, Repr

structure LineByte where
  value : UInt8
  source : Source
  deriving DecidableEq, Repr

/-- A byte that the target sends in answer to a frame. -/
structure Answer where
  frame : ℕ
  value : UInt8
  deriving DecidableEq, Repr

def Answer.onLine (a : Answer) : LineByte := ⟨a.value, .answer a.frame⟩

/-- What the line does until a receive from the stream buffer returns: the tick
that is read before it, what the target sends, how many of the bytes in flight
come in, and whether the next one does before the receive gives up. -/
structure Visit where
  now : UInt32
  answers : List Answer
  arrive : ℕ
  prompt : Bool
  deriving DecidableEq, Repr

/-- The line during one call: what the target sends ahead of the `i`-th byte
that is transmitted, and the visits to the stream buffer. -/
structure Timing where
  gaps : ℕ → List Answer
  visits : ℕ → Visit

/-- The receiving half of the transport, with the bytes in flight behind the
stream buffer, the number of frames sent, and whether the buffer had to drop a byte. -/
structure TransportFuri where
  rxStream : List LineByte
  line : List LineByte
  frames : ℕ
  overflowed : Bool
  deriving DecidableEq, Repr

def updiRxStreamSize : ℕ := 512

def updiEchoTimeoutMs : ℕ := 120

namespace TransportFuri

def alloc : TransportFuri := ⟨[], [], 0, false⟩

def rxCallback (tr : TransportFuri) (data : LineByte) : TransportFuri :=
  if tr.rxStream.length < updiRxStreamSize then { tr with rxStream := tr.rxStream ++ [data] }
  else { tr with overflowed := true }

def comeIn (n : ℕ) (tr : TransportFuri) : TransportFuri :=
  (tr.line.take n).foldl rxCallback { tr with line := tr.line.drop n }

theorem foldl_rxCallback_fits {l : List LineByte} {tr : TransportFuri}
    (h : tr.rxStream.length + l.length ≤ updiRxStreamSize) :
    l.foldl rxCallback tr = { tr with rxStream := tr.rxStream ++ l } := by
  induction l generalizing tr with
  | nil => exact congrArg (fun rx ↦ { tr with rxStream := rx }) (List.append_nil _).symm
  | cons x l ih =>
    rw [List.length_cons] at h
    have hpush : rxCallback tr x = { tr with rxStream := tr.rxStream ++ [x] } := if_pos (by omega)
    rw [List.foldl_cons, hpush,
      ih (by simp only [List.length_append, List.length_singleton]; omega),
      List.append_assoc]
    rfl

theorem comeIn_fits {n : ℕ} {tr : TransportFuri}
    (h : tr.rxStream.length + (tr.line.take n).length ≤ updiRxStreamSize) :
    tr.comeIn n = { tr with rxStream := tr.rxStream ++ tr.line.take n, line := tr.line.drop n } :=
  @foldl_rxCallback_fits _ { tr with line := tr.line.drop n } h

/-- The line goes on for the length of a visit, in which `atLeast` bytes come in if it is prompt. -/
def advance (v : Visit) (atLeast : ℕ) (tr : TransportFuri) : TransportFuri :=
  comeIn (if v.prompt then max atLeast v.arrive else v.arrive)
    { tr with line := tr.line ++ v.answers.map Answer.onLine }

/-- A receive blocks on an empty buffer, and takes what is there when it returns. -/
def streamReceive (v : Visit) (want : ℕ) (tr : TransportFuri) : List LineByte × TransportFuri :=
  let tr := tr.advance v (if tr.rxStream = [] then 1 else 0)
  (tr.rxStream.take want, { tr with rxStream := tr.rxStream.drop want })

def streamReset (tr : TransportFuri) : TransportFuri := { tr with rxStream := [] }

/-- What transmitted bytes put on the line, from the `i`-th on. -/
def wire (gaps : ℕ → List Answer) (frame : ℕ) : (i : ℕ) → List UInt8 → List LineByte
  | _, [] => []
  | i, b :: rest => (gaps i).map Answer.onLine ++ ⟨b, .echo frame⟩ :: wire gaps frame (i + 1) rest

def serialTx (gaps : ℕ → List Answer) (i : ℕ) (data : List UInt8) (tr : TransportFuri) :
    TransportFuri :=
  { tr with line := tr.line ++ wire gaps tr.frames i data }

section Calls

variable (msToTicks : ℕ → UInt32) (visits : ℕ → Visit)

def recvLoop (deadline : UInt32) :
    (fuel i want : ℕ) → TransportFuri → List LineByte × ℕ × TransportFuri
  | 0, i, _, tr => ([], i, tr)
  | fuel + 1, i, want, tr =>
    if want = 0 then ([], i, tr)
    else
      let (bytes, tr) := tr.streamReceive (visits i) want
      -- past the deadline this was the final drain
      if deadline ≤ (visits i).now ∨ bytes = [] then (bytes, i + 1, tr)
      else
        let (rest, i, tr) := recvLoop deadline fuel (i + 1) (want - bytes.length) tr
        (bytes ++ rest, i, tr)

/-- Of visit `i` only the tick counts, which the deadline is computed from. -/
def furiRecvImpl (i len timeoutMs : ℕ) (tr : TransportFuri) : List LineByte × ℕ × TransportFuri :=
  recvLoop visits ((visits i).now + msToTicks timeoutMs) len (i + 1) len tr

def discardLoop : (fuel i left : ℕ) → TransportFuri → Bool × TransportFuri
  | 0, _, _, tr => (true, tr)
  | fuel + 1, i, left, tr =>
    if left = 0 then (true, tr)
    else
      let (scratch, i, tr) := furiRecvImpl msToTicks visits i (min left 64) updiEchoTimeoutMs tr
      if scratch = [] then (false, tr) else discardLoop fuel i (left - scratch.length) tr

end Calls

variable (msToTicks : ℕ → UInt32) (tm : Timing)

def furiSendImpl (data : List UInt8) (tr : TransportFuri) : Bool × TransportFuri :=
  discardLoop msToTicks tm.visits data.length 0 data.length
    ({ tr with frames := tr.frames + 1 }.serialTx tm.gaps 0 data)

/-- All that is transmitted has come in by the end of a delay, if that is prompt. -/
def delay (v : Visit) (tr : TransportFuri) : TransportFuri := tr.advance v tr.line.length

def furiDoubleBreakImpl (tr : TransportFuri) : TransportFuri :=
  let tr := (tr.advance (tm.visits 0) 0).streamReset
  let tr := (tr.serialTx tm.gaps 0 [0x00]).delay (tm.visits 1)
  let tr := (tr.serialTx tm.gaps 1 [0x00]).delay (tm.visits 2)
  tr.streamReset

/-- The clock of the seam; `furi_get_tick` counts `freq` ticks a second. -/
def furiMillisImpl (freq now : UInt32) : UInt32 :=
  if freq = 0 then now else UInt32.ofNat (now.toNat * 1000 / freq.toNat)

theorem recvLoop_length {visits : ℕ → Visit} {deadline : UInt32} {fuel i want : ℕ}
    {tr : TransportFuri} :
    (recvLoop visits deadline fuel i want tr).1.length ≤ want := by
  induction fuel generalizing i want tr with
  | zero => exact Nat.zero_le _
  | succ fuel ih =>
    rw [recvLoop]
    split_ifs with hwant
    · exact Nat.zero_le _
    · have htake : (tr.streamReceive (visits i) want).1.length ≤ want := List.length_take_le _ _
      dsimp only
      split_ifs with hlast
      · exact htake
      · have hrest := @ih (i + 1) (want - (tr.streamReceive (visits i) want).1.length)
          (tr.streamReceive (visits i) want).2
        rw [List.length_append]
        omega

def iface (freq : UInt32) (timings : ℕ → Timing) : UpdiTransport (TransportFuri × ℕ) where
  send data c :=
    let r := furiSendImpl msToTicks (timings c.2) data c.1
    (r.1, (r.2, c.2 + 1))
  recv len timeoutMs c :=
    let r := furiRecvImpl msToTicks (timings c.2).visits 0 len timeoutMs c.1
    (r.1.map LineByte.value, (r.2.2, c.2 + 1))
  recv_length _ _ _ := Nat.le_trans (Nat.le_of_eq (List.length_map _)) recvLoop_length
  doubleBreak := some fun c ↦ (furiDoubleBreakImpl (timings c.2) c.1, c.2 + 1)
  millis := some fun c ↦ (furiMillisImpl freq ((timings c.2).visits 0).now, (c.1, c.2 + 1))

end TransportFuri

end UpdiProgrammer.Transport
