import Mathlib.Tactic.IntervalCases
import UpdiProgrammer.HostTest.Frames

namespace UpdiProgrammer.HostTest

open Updi UpdiEmu

/-- What a target replies to the bytes that reach it, one after the other. -/
def hear (P : AckPolicy) : UpdiEmu → List UInt8 → List (List UInt8) × UpdiEmu
  | e, [] => ([], e)
  | e, b :: rest =>
    let (replies, target) := hear P { e.feedByte P b with rx := [] } rest
    ((e.feedByte P b).rx :: replies, target)

variable {P : AckPolicy} {e : UpdiEmu} {data : List UInt8}

/-- The target answers a frame after its last byte, if at all. -/
def AnswersLast (P : AckPolicy) (e : UpdiEmu) (data : List UInt8) : Prop :=
  ∀ l, l <+: data → l ≠ data → (e.feed P l).rx = []

theorem hear_eq (hne : data ≠ []) (h : AnswersLast P e data) :
    hear P e data =
      (List.replicate (data.length - 1) [] ++ [(e.feed P data).rx],
        { e.feed P data with rx := [] }) := by
  induction data generalizing e with
  | nil => exact absurd rfl hne
  | cons b rest ih =>
    cases rest with
    | nil => rfl
    | cons b' rest =>
      have hfirst : (e.feedByte P b).rx = [] := h [b] ⟨b' :: rest, rfl⟩ nofun
      have hkeep : { e.feedByte P b with rx := [] } = e.feedByte P b := by rw [← hfirst]
      have hrest : AnswersLast P (e.feedByte P b) (b' :: rest) := by
        intro l hl hproper
        apply h (b :: l)
        · exact (List.prefix_cons_inj b).mpr hl
        · intro heq
          exact hproper (List.cons_inj_right b |>.mp heq)
      rw [hear, hkeep, ih (List.cons_ne_nil _ _) hrest, hfirst]
      rfl

theorem length_le_enqueue (q : List UInt8) (b : UInt8) : q.length ≤ (enqueue q b).length := by
  unfold enqueue
  split_ifs
  · exact Nat.le_refl _
  · rw [List.length_append]
    exact Nat.le_add_right _ _

theorem length_le_enqueueAll (q l : List UInt8) : q.length ≤ (enqueueAll q l).length := by
  induction l generalizing q with
  | nil => exact Nat.le_refl _
  | cons b l ih => exact Nat.le_trans (length_le_enqueue q b) (ih _)

theorem ldLoop_rx (k : ℕ) (e : UpdiEmu) : e.rx.length ≤ (ldLoop k e).rx.length := by
  induction k generalizing e with
  | zero => exact Nat.le_refl _
  | succ k ih =>
    refine Nat.le_trans ?_ (ih _)
    rw [rxPush_eq]
    exact length_le_enqueue _ _

theorem opcode_group_lt (op : UInt8) : (op >>> 5).toNat < 8 := by
  have hall : ∀ x : BitVec 8, (x >>> 5).toNat < 8 := by decide
  simpa using hall op.toBitVec

theorem feedOpcode_rx (e : UpdiEmu) (op : UInt8) : e.rx.length ≤ (e.feedOpcode op).rx.length := by
  have hlt := opcode_group_lt op
  unfold feedOpcode
  generalize (op >>> 5).toNat = g at hlt
  interval_cases g
  · exact Nat.le_refl _
  · by_cases hinc : op &&& 0x0C = ptrInc
    · simp only [if_pos hinc]
      exact ldLoop_rx _ { e with repeatNext := 0 }
    · simp only [if_neg hinc]
      exact Nat.le_refl _
  · exact Nat.le_refl _
  · simp only
    split_ifs <;> exact Nat.le_refl _
  · simp only [rxPush_eq]
    exact length_le_enqueue _ _
  · exact Nat.le_refl _
  · exact Nat.le_refl _
  · by_cases hsib : op &&& keySib ≠ 0
    · simp only [if_pos hsib, rxPushAll_eq]
      exact length_le_enqueueAll _ _
    · simp only [if_neg hsib]
      exact Nat.le_refl _

theorem feedByte_rx (e : UpdiEmu) (b : UInt8) : e.rx.length ≤ (e.feedByte P b).rx.length := by
  unfold feedByte
  simp only [pushAck_eq, rxPush_eq, rxPushAll_eq]
  split
  all_goals try split_ifs
  all_goals
    first
    | exact Nat.le_refl _
    | exact length_le_enqueue _ _
    | exact length_le_enqueueAll _ _
    | exact feedOpcode_rx e b

theorem feed_rx (e : UpdiEmu) (l : List UInt8) : e.rx.length ≤ (e.feed P l).rx.length := by
  induction l generalizing e with
  | nil => exact Nat.le_refl _
  | cons b l ih => exact Nat.le_trans (feedByte_rx e b) (ih _)

theorem answersLast_of_silent (h : (e.feed P data).rx = []) : AnswersLast P e data := by
  rintro l ⟨rest, rfl⟩ -
  have hgrow := feed_rx (P := P) (e.feed P l) rest
  rw [← feed_append, h] at hgrow
  exact List.length_eq_zero_iff.mp (Nat.le_zero.mp hgrow)

theorem answersLast_operand (hrx : e.rx = [])
    (hs : e.state = .ldsAddr ∨ e.state = .stsAddr ∨ e.state = .stsData ∨ e.state = .stptrAddr ∨
      e.state = .key)
    (hl : e.acc.length + data.length = e.need) :
    AnswersLast P e data := by
  intro l hpre hproper
  have hlt : l.length < data.length := by
    apply Nat.lt_of_le_of_ne hpre.length_le
    intro hlen
    exact hproper (hpre.eq_of_length hlen)
  rw [feed_accumulate l e hs (by omega)]
  exact hrx

/-- After the SYNCH byte and an opcode that is not answered it is up to the rest of the frame. -/
theorem answersLast_frame (hs : e.state = .idle) (hrx : e.rx = []) {op : UInt8} {e' : UpdiEmu}
    (ho : ({ e with state := .opcode } : UpdiEmu).feedOpcode op = e')
    (hrest : AnswersLast P e' data) :
    AnswersLast P e (phySync :: op :: data) := by
  intro l hl hproper
  rcases List.prefix_cons_iff.mp hl with rfl | ⟨l', rfl, hl'⟩
  · exact hrx
  rcases List.prefix_cons_iff.mp hl' with rfl | ⟨l, rfl, hoperand⟩
  · rw [feed_cons, feed_nil]
    unfold feedByte
    rw [hs]
    exact hrx
  · rw [feed_frame hs, ho]
    apply hrest l hoperand
    rintro rfl
    exact hproper rfl

theorem answersLast_opcode (hs : e.state = .idle) (hrx : e.rx = []) (op : UInt8) :
    AnswersLast P e [phySync, op] := by
  intro l hl hproper
  rcases List.prefix_cons_iff.mp hl with rfl | ⟨l', rfl, hl'⟩
  · exact hrx
  rcases List.prefix_cons_iff.mp hl' with rfl | ⟨l, rfl, hoperand⟩
  · rw [feed_cons, feed_nil]
    unfold feedByte
    rw [hs]
    exact hrx
  · obtain rfl := List.prefix_nil.mp hoperand
    exact absurd rfl hproper

/-- The same target at another time. -/
def atTime (n : UInt32) (e : UpdiEmu) : UpdiEmu := { e with nowMs := n }

theorem rxPush_atTime (n : UInt32) (e : UpdiEmu) (b : UInt8) :
    (atTime n e).rxPush b = atTime n (e.rxPush b) := by
  rw [rxPush_eq, rxPush_eq]
  rfl

theorem rxPushAll_atTime (n : UInt32) (e : UpdiEmu) (l : List UInt8) :
    (atTime n e).rxPushAll l = atTime n (e.rxPushAll l) := by
  rw [rxPushAll_eq, rxPushAll_eq]
  rfl

theorem ldLoop_atTime (n : UInt32) (k : ℕ) (e : UpdiEmu) :
    ldLoop k (atTime n e) = atTime n (ldLoop k e) := by
  induction k generalizing e with
  | zero => rfl
  | succ k ih =>
    rw [ldLoop, ldLoop, rxPush_atTime, ← ih]
    rfl

theorem feedOpcode_atTime (n : UInt32) (e : UpdiEmu) (op : UInt8) :
    (atTime n e).feedOpcode op = atTime n (e.feedOpcode op) := by
  have hlt := opcode_group_lt op
  unfold feedOpcode
  generalize (op >>> 5).toNat = g at hlt
  interval_cases g
  · rfl
  · by_cases hinc : op &&& 0x0C = ptrInc
    · simp only [if_pos hinc]
      exact congrArg
        (fun e : UpdiEmu ↦ { e with state := .idle }) (ldLoop_atTime n _ { e with repeatNext := 0 })
    · simp only [if_neg hinc]
      rfl
  · rfl
  · simp only
    split_ifs <;> rfl
  · exact congrArg (fun e : UpdiEmu ↦ { e with state := .idle }) (rxPush_atTime n e _)
  · rfl
  · rfl
  · by_cases hsib : op &&& keySib ≠ 0
    · simp only [if_pos hsib]
      exact congrArg (fun e : UpdiEmu ↦ { e with state := .idle }) (rxPushAll_atTime n e _)
    · simp only [if_neg hsib]
      rfl

theorem feedByte_atTime (n : UInt32) (e : UpdiEmu) (b : UInt8) :
    (atTime n e).feedByte P b = atTime n (e.feedByte P b) := by
  have hstate : (atTime n e).state = e.state := rfl
  unfold feedByte
  rw [hstate]
  cases e.state with
  | idle => dsimp only; split_ifs <;> rfl
  | opcode => exact feedOpcode_atTime n e b
  | stcsVal => rfl
  | repeatVal => rfl
  | ldsAddr =>
    simp only [atTime, rxPushAll_eq]
    split_ifs <;> rfl
  | stsAddr =>
    simp only [atTime, pushAck_eq]
    split_ifs <;> rfl
  | stsData =>
    simp only [atTime, pushAck_eq]
    split_ifs <;> rfl
  | stptrAddr =>
    simp only [atTime, pushAck_eq]
    split_ifs <;> rfl
  | stinc8 =>
    simp only [atTime, pushAck_eq]
    split_ifs <;> rfl
  | stinc16 =>
    simp only [atTime, rxPush_eq]
    split_ifs <;> rfl
  | key =>
    by_cases hneed : e.need ≤ (e.acc ++ [b]).length
    · simp only [atTime, if_pos hneed]
      exact if_pos hneed
    · simp only [atTime, if_neg hneed]
      exact if_neg hneed

theorem feed_atTime (n : UInt32) (e : UpdiEmu) (l : List UInt8) :
    (atTime n e).feed P l = atTime n (e.feed P l) := by
  induction l generalizing e with
  | nil => rfl
  | cons b l ih => rw [feed_cons, feed_cons, feedByte_atTime, ih]


end UpdiProgrammer.HostTest
