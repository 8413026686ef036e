import UpdiProgrammer.Hex.IntelHex

namespace UpdiProgrammer.Hex

theorem hexBytes_length {line : List UInt8} {p n : ℕ} {data : List UInt8}
    (h : hexBytes line p n = some data) : data.length = n := by
  induction n generalizing p data with
  | zero =>
    obtain rfl : [] = data := Option.some_inj.mp h
    rfl
  | succ n ih =>
    rw [hexBytes] at h
    cases hb : hexByte line p with
    | none => rw [hb] at h; exact absurd h (by simp)
    | some b =>
      rw [hb] at h
      obtain ⟨rest, hr, rfl⟩ := Option.map_eq_some_iff.mp h
      rw [List.length_cons, ih hr]

theorem parseRecord_length {line : List UInt8} {r : Record}
    (h : parseRecord line = .ok (some r)) : r.data.length = r.byteCount.toNat := by
  unfold parseRecord at h
  dsimp only at h
  split_ifs at h
  · exact absurd h (by simp)
  split at h
  · split at h
    · rename_i hdata
      split at h
      · split_ifs at h
        simp only [Except.ok.injEq, Option.some.injEq] at h
        subst h
        exact hexBytes_length hdata
      · exact absurd h (by simp)
    · exact absurd h (by simp)
  · exact absurd h (by simp)

namespace IntelHexImage

variable {w : ℕ} {img : IntelHexImage} {line : List UInt8}

/-- The extended base leaves room for a record address. -/
def BaseFits (img : IntelHexImage) : Prop := img.extBase.toNat + 0xFFFF < 2 ^ 32

theorem extWord_lt (r : Record) : (extWord r).toNat < 2 ^ 16 := by
  unfold extWord
  generalize r.data.getD 0 0 = a
  generalize r.data.getD 1 0 = b
  have ha := a.toNat_lt
  have hb := b.toNat_lt
  rw [UInt32.toNat_or]
  refine Nat.or_lt_two_pow ?_ ?_
  · have h8 : (8 : UInt32).toNat % 32 = 8 := rfl
    rw [UInt32.toNat_shiftLeft, h8, Nat.shiftLeft_eq, UInt8.toNat_toUInt32]
    omega
  · rw [UInt8.toNat_toUInt32]
    omega

theorem shiftLeft_fits {x : UInt32} (h : x.toNat < 2 ^ 16) :
    (x <<< 16).toNat + 0xFFFF < 2 ^ 32 ∧ (x <<< 4).toNat + 0xFFFF < 2 ^ 32 := by
  have h16 : (16 : UInt32).toNat % 32 = 16 := rfl
  have h4 : (4 : UInt32).toNat % 32 = 4 := rfl
  rw [UInt32.toNat_shiftLeft, UInt32.toNat_shiftLeft, h16, h4, Nat.shiftLeft_eq, Nat.shiftLeft_eq]
  omega

theorem baseFits_applyRecord (h : img.BaseFits) (r : Record) :
    (img.applyRecord w r).2.BaseFits := by
  obtain ⟨h16, h4⟩ := shiftLeft_fits (extWord_lt r)
  unfold applyRecord
  split_ifs
  · exact h
  · exact h
  · exact h
  · exact h
  · exact h16
  · exact h
  · exact h4
  · exact h
  · exact h

def dataAddr (img : IntelHexImage) (r : Record) : ℕ := img.extBase.toNat + r.recordAddr.toNat

theorem absAddr_toNat (h : img.BaseFits) (r : Record) : (img.absAddr r).toNat = img.dataAddr r := by
  have hr := r.recordAddr.toNat_lt
  unfold BaseFits at h
  rw [absAddr, UInt32.toNat_add, UInt16.toNat_toUInt32, dataAddr]
  omega

theorem offset_eq (h : img.BaseFits) {r : Record} (hb : img.baseOffset.toNat ≤ img.dataAddr r) :
    img.offset r = img.dataAddr r - img.baseOffset.toNat := by
  have ha := absAddr_toNat h r
  have hle : img.baseOffset ≤ img.absAddr r := by
    rw [UInt32.le_iff_toNat_le, ha]
    exact hb
  rw [offset, UInt32.toNat_sub_of_le _ _ hle, ha]

theorem inRange_iff (h : img.BaseFits) (r : Record) : img.InRange w r ↔
    img.baseOffset.toNat ≤ img.dataAddr r ∧
      (img.dataAddr r - img.baseOffset.toNat + r.byteCount.toNat) % 2 ^ w ≤ img.capacity := by
  have ha := absAddr_toNat h r
  unfold InRange endOffset
  rw [Nat.not_lt, UInt32.not_lt, UInt32.le_iff_toNat_le, ha]
  refine and_congr_right fun hb ↦ ?_
  rw [offset_eq h hb]

theorem parseLine_data_record {r : Record} (hp : parseRecord line = .ok (some r))
    (ht : r.type = ihexTypeData) : img.parseLine w line =
      if img.InRange w r then (.ok, img.storeRecord w r) else (.errOverflow, img) := by
  rw [parseLine, hp]
  exact if_pos ht

/-- What every line keeps: the room above the base, and the buffer. -/
theorem parseLine_keeps (h : img.BaseFits) : (img.parseLine w line).2.BaseFits ∧
    (img.parseLine w line).2.capacity = img.capacity := by
  unfold parseLine
  cases parseRecord line with
  | error e => exact ⟨h, rfl⟩
  | ok r =>
    cases r with
    | none => exact ⟨h, rfl⟩
    | some r =>
      refine ⟨baseFits_applyRecord h r, ?_⟩
      dsimp only
      unfold applyRecord
      split_ifs <;> rfl

theorem parseLines_keeps (h : img.BaseFits) (lines : List (List UInt8)) :
    (img.parseLines w lines).BaseFits ∧ (img.parseLines w lines).capacity = img.capacity := by
  induction lines generalizing img with
  | nil => exact ⟨h, rfl⟩
  | cons line lines ih =>
    obtain ⟨hb, hc⟩ := @parseLine_keeps w img line h
    obtain ⟨hb', hc'⟩ := ih hb
    exact ⟨hb', hc'.trans hc⟩

end IntelHexImage

end UpdiProgrammer.Hex
