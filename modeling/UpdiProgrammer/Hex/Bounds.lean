import UpdiProgrammer.Hex.Grammar
import UpdiProgrammer.Library.History

namespace UpdiProgrammer.Hex

open Library.History Library.Memory

namespace IntelHexImage

variable {w : ℕ} {img : IntelHexImage} {line : List UInt8} {r : Record}

/-- A line stores to an index: there is a content of the memory that it changes there. -/
def Stores (w : ℕ) (img : IntelHexImage) (line : List UInt8) (i : ℕ) : Prop :=
  ∃ data, ({ img with data := data }.parseLine w line).2.data i ≠ data i

def Inside (img : IntelHexImage) (r : Record) : Prop :=
  img.baseOffset.toNat ≤ img.dataAddr r ∧
    img.dataAddr r - img.baseOffset.toNat + r.byteCount.toNat ≤ img.capacity

/-- A line stores inside the buffer only, and a data record is accepted
exactly when it lies inside. `size_t` is 32 bits wide. -/
structure Bounded (img : IntelHexImage) (line : List UInt8) : Prop where
  stores : ∀ i, img.Stores 32 line i → i < img.capacity
  accepts : ∀ r tail, RecordIn line r tail → r.type = ihexTypeData → img.Inside r →
    (img.parseLine 32 line).1 = .ok
  rejects : ∀ r tail, RecordIn line r tail → r.type = ihexTypeData → ¬img.Inside r →
    img.parseLine 32 line = (.errOverflow, img)

/-- The line holds a data record whose end, taken modulo 2^32, falls back into the buffer. -/
def Wraps (img : IntelHexImage) (line : List UInt8) : Prop :=
  ∃ r tail, RecordIn line r tail ∧ r.type = ihexTypeData ∧
    img.baseOffset.toNat ≤ img.dataAddr r ∧
    2 ^ 32 ≤ img.dataAddr r - img.baseOffset.toNat + r.byteCount.toNat ∧
    img.dataAddr r - img.baseOffset.toNat + r.byteCount.toNat - 2 ^ 32 ≤ img.capacity

theorem wraps_iff : img.Wraps line ↔ ∃ r ∈ (parseRecord line).toOption.join, r.type = ihexTypeData ∧
    img.baseOffset.toNat ≤ img.dataAddr r ∧
    2 ^ 32 ≤ img.dataAddr r - img.baseOffset.toNat + r.byteCount.toNat ∧
    img.dataAddr r - img.baseOffset.toNat + r.byteCount.toNat - 2 ^ 32 ≤ img.capacity := by
  unfold Wraps
  simp only [← exists_and_right, ← lineRecord_eq, Option.mem_def, lineRecord_eq_some_iff]

instance : Decidable (img.Wraps line) := decidable_of_iff _ wraps_iff.symm

theorem Stores.of_record {i : ℕ} (h : img.Stores w line i) : ∃ r, parseRecord line = .ok (some r) ∧
    r.type = ihexTypeData ∧ img.InRange w r ∧ img.offset r ≤ i ∧
      i < img.offset r + r.data.length := by
  obtain ⟨data, hchanged⟩ := h
  unfold parseLine at hchanged
  cases hp : parseRecord line with
  | error e =>
    rw [hp] at hchanged
    exact absurd rfl hchanged
  | ok r =>
    rw [hp] at hchanged
    cases r with
    | none => exact absurd rfl hchanged
    | some r =>
      dsimp only at hchanged
      unfold applyRecord at hchanged
      split_ifs at hchanged with ht hin
      · have hstored : img.offset r ≤ i ∧ i < img.offset r + r.data.length := by
          by_contra hnot
          exact hchanged
            (overwrite_of_not
              (show ¬(img.offset r ≤ i ∧ i - img.offset r < r.data.length) by omega))
        exact ⟨r, rfl, ht, hin, hstored⟩
      all_goals exact absurd rfl hchanged

theorem inRange_of_not_wraps (h : img.BaseFits) (hc : img.capacity < 2 ^ 32)
    (hw : ¬img.Wraps line) {tail : List UInt8} (hin : RecordIn line r tail)
    (ht : r.type = ihexTypeData) : img.InRange 32 r ↔ img.Inside r := by
  have hext := h
  have hr := r.recordAddr.toNat_lt
  have hn := r.byteCount.toNat_lt
  unfold BaseFits at hext
  rw [inRange_iff h]
  refine and_congr_right fun hb ↦ ?_
  by_cases hlt : img.dataAddr r - img.baseOffset.toNat + r.byteCount.toNat < 2 ^ 32
  · rw [Nat.mod_eq_of_lt hlt]
  · have hback : ¬img.dataAddr r - img.baseOffset.toNat + r.byteCount.toNat - 2 ^ 32 ≤
        img.capacity :=
      fun hle ↦ hw ⟨r, tail, hin, ht, hb, by omega, hle⟩
    unfold dataAddr at *
    omega

theorem bounded_iff (h : img.BaseFits) (hc : img.capacity < 2 ^ 32) :
    img.Bounded line ↔ ¬img.Wraps line := by
  constructor
  · rintro hs ⟨r, tail, hin, ht, hb, hge, hle⟩
    have hext := h
    have hr := r.recordAddr.toNat_lt
    have hn := r.byteCount.toNat_lt
    have hrange : img.InRange 32 r := by
      rw [inRange_iff h]
      unfold BaseFits at hext
      unfold dataAddr at *
      omega
    have hout : ¬img.Inside r := by
      rintro ⟨-, hend⟩
      omega
    have hrej := hs.rejects r tail hin ht hout
    rw [parseLine_data_record (parseRecord_recordIn.mpr ⟨tail, hin⟩) ht, if_pos hrange] at hrej
    exact absurd (congrArg Prod.fst hrej) (by simp)
  · intro hw
    constructor
    · intro i hi
      obtain ⟨r, hp, ht, hrange, hlow, hhigh⟩ := hi.of_record
      obtain ⟨tail, hin⟩ := parseRecord_recordIn.mp hp
      obtain ⟨hb, hend⟩ := (inRange_of_not_wraps h hc hw hin ht).mp hrange
      rw [offset_eq h hb, parseRecord_length hp] at hhigh
      omega
    · intro r tail hin ht hinside
      rw [parseLine_data_record (parseRecord_recordIn.mpr ⟨tail, hin⟩) ht,
        if_pos ((inRange_of_not_wraps h hc hw hin ht).mpr hinside)]
    · intro r tail hin ht hout
      rw [parseLine_data_record (parseRecord_recordIn.mpr ⟨tail, hin⟩) ht,
        if_neg fun hrange ↦ hout ((inRange_of_not_wraps h hc hw hin ht).mp hrange)]

/-- Over every sequence of lines and every next line: the parser stays in
its buffer and judges every data record rightly exactly in the runs none of
whose lines wraps. -/
theorem run_bounded_iff (buf : ℕ → UInt8) {capacity : ℕ} (hc : capacity < 2 ^ 32)
    (baseOffset : UInt32) (fill : UInt8) (lines : List (List UInt8)) :
    (∀ before line after, lines = before ++ line :: after →
      ((init buf capacity baseOffset fill).parseLines 32 before).Bounded line) ↔
    ∀ before line after, lines = before ++ line :: after →
      ¬((init buf capacity baseOffset fill).parseLines 32 before).Wraps line := by
  have hinit : (init buf capacity baseOffset fill).BaseFits :=
    (by decide : (0 : UInt32).toNat + 0xFFFF < 2 ^ 32)
  have hstep : ∀ before line,
      ((init buf capacity baseOffset fill).parseLines 32 before).Bounded line ↔
        ¬((init buf capacity baseOffset fill).parseLines 32 before).Wraps line := by
    intro before line
    obtain ⟨hb, hcap⟩ := parseLines_keeps (w := 32) hinit before
    exact bounded_iff hb (by rw [hcap]; exact hc)
  constructor
  · intro h before line after hl
    exact (hstep before line).mp (h before line after hl)
  · intro h before line after hl
    exact (hstep before line).mpr (h before line after hl)

/-- `:02000004FFFFFC`: the last 64 KiB of the address space. -/
def lastSegmentLine : List UInt8 :=
  [0x3A, 0x30, 0x32, 0x30, 0x30, 0x30, 0x30, 0x30, 0x34, 0x46, 0x46, 0x46, 0x46, 0x46, 0x43]

/-- `:01FFFF000001`: one byte at the last address of a segment. -/
def lastByteLine : List UInt8 :=
  [0x3A, 0x30, 0x31, 0x46, 0x46, 0x46, 0x46, 0x30, 0x30, 0x30, 0x30, 0x30, 0x31]

def farLines : List (List UInt8) :=
  [recordText 2 0 ihexTypeExtLinear [0, 1], recordText 1 0x10 ihexTypeData [0x34], lastSegmentLine,
    recordText 1 0 ihexTypeData [0x0C], eofLine]

/-- A run that stays in its buffer, and one that does not. -/
theorem farLines_run_bounded :
    (∀ before line after, farLines = before ++ line :: after →
      ((init (fun _ ↦ 0) 0x11000 0 0xFF).parseLines 32 before).Bounded line) ∧
    ¬∀ before line after, [lastSegmentLine, lastByteLine] = before ++ line :: after →
      ((init (fun _ ↦ 0) 0x1000 0 0xFF).parseLines 32 before).Bounded line := by
  constructor
  · apply (run_bounded_iff (fun _ ↦ 0) (by decide) 0 0xFF farLines).mpr
    unfold farLines
    simp only [forall_entry_cons]
    exact ⟨by decide, by decide, by decide, by decide, by decide, forall_entry_nil⟩
  · apply (run_bounded_iff (fun _ ↦ 0) (by decide) 0 0xFF [lastSegmentLine, lastByteLine]).not.mpr
    intro hnone
    exact hnone [lastSegmentLine] lastByteLine [] rfl (by decide)

/-- A one-byte record at 0xFFFFFFFF is accepted into a buffer of 4 KiB, and
stored 4 GiB behind its start. -/
theorem lastByteLine_not_bounded :
    ¬((init (fun _ ↦ 0) 0x1000 0 0xFF).parseLines 32 [lastSegmentLine]).Bounded lastByteLine := by
  intro h
  have hi := h.stores 0xFFFFFFFF ⟨fun _ ↦ 0xFF, by decide⟩
  exact absurd hi (by decide)

end IntelHexImage

end UpdiProgrammer.Hex
