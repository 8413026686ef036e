import Mathlib.Data.List.Induction
import UpdiProgrammer.Hex.Bounds

namespace UpdiProgrammer.Hex

open Library.History Library.Memory

abbrev Record.SetsBase (r : Record) : Prop :=
  r.type = ihexTypeExtSegment ∨ r.type = ihexTypeExtLinear

/-- The base that an extended address record sets: its word counts paragraphs
or pages of 64 KiB. -/
def Record.base (r : Record) : ℕ :=
  ((r.data.getD 0 0).toNat * 0x100 + (r.data.getD 1 0).toNat) * if r.type = ihexTypeExtLinear then
    0x10000 else 0x10

def baseAfter (records : List Record) : ℕ :=
  match records.reverse.find? fun r ↦ r.SetsBase with
  | some r => r.base
  | none => 0

/-- A data record has a byte for an offset, under the base in force at it. -/
def Covers (baseOffset i : ℕ) (before : List Record) (r : Record) : Prop :=
  r.type = ihexTypeData ∧ baseAfter before + r.recordAddr.toNat ≤ baseOffset + i ∧
    baseOffset + i < baseAfter before + r.recordAddr.toNat + r.data.length

/-- The byte that records give for an offset: the one of the last data record
that covers it, or the fill if there is none. -/
def Gives (fill : UInt8) (baseOffset : ℕ) (records : List Record) (i : ℕ) (b : UInt8) : Prop :=
  (∃ before r, Last (Covers baseOffset i) records before r ∧
      r.data[baseOffset + i - (baseAfter before + r.recordAddr.toNat)]? = some b) ∨
    ¬Somewhere (Covers baseOffset i) records ∧ b = fill

theorem baseAfter_concat (records : List Record) (r : Record) :
    baseAfter (records ++ [r]) = if r.SetsBase then r.base else baseAfter records := by
  unfold baseAfter
  rw [List.reverse_concat, List.find?_cons]
  by_cases h : r.SetsBase <;> simp [h]

theorem gives_concat {fill b : UInt8} {baseOffset i : ℕ} {records : List Record} {r : Record}
    (hcover : Covers baseOffset i records r →
      r.data[baseOffset + i - (baseAfter records + r.recordAddr.toNat)]? = some b)
    (hother : ¬Covers baseOffset i records r → Gives fill baseOffset records i b) :
    Gives fill baseOffset (records ++ [r]) i b := by
  by_cases h : Covers baseOffset i records r
  · exact .inl ⟨records, r, last_concat_of h, hcover h⟩
  rcases hother h with ⟨before, r', hlast, hb⟩ | ⟨hnone, hb⟩
  · exact .inl ⟨before, r', hlast.concat h, hb⟩
  · exact .inr ⟨fun hsome ↦ (somewhere_concat.mp hsome).elim hnone h, hb⟩

/-- What an image holds after these records. -/
structure Meaning (fill : UInt8) (records : List Record) (img : IntelHexImage) : Prop where
  bytes : ∀ i < img.capacity, Gives fill img.baseOffset.toNat records i (img.data i)
  extBase : img.extBase.toNat = baseAfter records
  eofSeen : img.eofSeen = true ↔ ∃ r ∈ records, r.type = ihexTypeEof

namespace IntelHexImage

variable {w : ℕ} {img : IntelHexImage} {line : List UInt8} {lines : List (List UInt8)}
  {records : List Record} {r : Record} {fill : UInt8}

/-- The record that a line holds, if the line is accepted. -/
noncomputable def acceptedRecord (w : ℕ) (img : IntelHexImage) (line : List UInt8) : List Record :=
  if (img.parseLine w line).1 = .ok then (lineRecord line).toList else []

noncomputable def accepted (w : ℕ) (img : IntelHexImage) : List (List UInt8) → List Record
  | [] => []
  | line :: lines => img.acceptedRecord w line ++ (img.parseLine w line).2.accepted w lines

theorem accepted_concat (img : IntelHexImage) (lines : List (List UInt8)) (line : List UInt8) :
    img.accepted w (lines ++ [line]) = img.accepted w lines ++
      (img.parseLines w lines).acceptedRecord w line := by
  induction lines generalizing img with
  | nil => simp [accepted, parseLines]
  | cons first lines ih =>
    rw [List.cons_append, accepted, accepted, ih, List.append_assoc]
    rfl

theorem parseLines_concat (img : IntelHexImage) (lines : List (List UInt8)) (line : List UInt8) :
    img.parseLines w (lines ++ [line]) = ((img.parseLines w lines).parseLine w line).2 :=
  parseLines_append _ _

theorem parseLine_cases (w : ℕ) (img : IntelHexImage) (line : List UInt8) :
    (img.acceptedRecord w line = [] ∧ (img.parseLine w line).2 = img) ∨
      ∃ r tail, RecordIn line r tail ∧ r.Taken (img.InRange w r) ∧ img.acceptedRecord w line = [r] ∧
        (img.parseLine w line).2 = (img.applyRecord w r).2 := by
  unfold acceptedRecord parseLine
  rw [lineRecord_eq]
  cases hr : parseRecord line with
  | error e => exact .inl ⟨if_neg (parseRecord_error_ne_ok hr), rfl⟩
  | ok r =>
    cases r with
    | none => exact .inl ⟨rfl, rfl⟩
    | some r =>
      by_cases hok : (img.applyRecord w r).1 = .ok
      · obtain ⟨tail, hin⟩ := parseRecord_recordIn.mp hr
        exact .inr ⟨r, tail, hin, applyRecord_ok_iff.mp hok, if_pos hok, rfl⟩
      · exact .inl ⟨if_neg hok, applyRecord_rejected hok⟩

theorem parseLines_baseOffset (img : IntelHexImage) (lines : List (List UInt8)) :
    (img.parseLines w lines).baseOffset = img.baseOffset := by
  induction lines generalizing img with
  | nil => rfl
  | cons line lines ih =>
    change ((img.parseLine w line).2.parseLines w lines).baseOffset = _
    rw [ih]
    rcases parseLine_cases w img line with ⟨-, himg⟩ | ⟨r, -, -, -, -, himg⟩
    · rw [himg]
    · rw [himg]
      unfold applyRecord
      split_ifs <;> rfl

/-- The end of the record in a line is a number that `size_t` holds. -/
def EndFits (w : ℕ) (img : IntelHexImage) (line : List UInt8) : Prop :=
  ∀ r tail, RecordIn line r tail → img.offset r + r.byteCount.toNat < 2 ^ w

theorem endFits_iff : img.EndFits w line ↔
    ∀ r ∈ (parseRecord line).toOption.join, img.offset r + r.byteCount.toNat < 2 ^ w := by
  simp only [EndFits, ← lineRecord_eq, Option.mem_def, lineRecord_eq_some_iff, forall_exists_index]

instance : Decidable (img.EndFits w line) := decidable_of_iff _ endFits_iff.symm

theorem extWord_toNat (r : Record) :
    (extWord r).toNat = (r.data.getD 0 0).toNat * 0x100 + (r.data.getD 1 0).toNat := by
  unfold extWord
  generalize r.data.getD 0 0 = a
  generalize r.data.getD 1 0 = b
  have ha := a.toNat_lt
  have hb : b.toNat < 2 ^ 8 := b.toNat_lt
  have h8 : (8 : UInt32).toNat % 32 = 8 := rfl
  have hfit : a.toNat <<< 8 % 2 ^ 32 = a.toNat <<< 8 := by
    rw [Nat.shiftLeft_eq]
    omega
  rw [UInt32.toNat_or, UInt32.toNat_shiftLeft, h8, UInt8.toNat_toUInt32, UInt8.toNat_toUInt32, hfit,
    ← Nat.shiftLeft_add_eq_or_of_lt hb, Nat.shiftLeft_eq]

theorem base_toNat (r : Record) : (extWord r <<< 16).toNat = (extWord r).toNat * 0x10000 ∧
    (extWord r <<< 4).toNat = (extWord r).toNat * 0x10 := by
  have h := extWord_lt r
  have h16 : (16 : UInt32).toNat % 32 = 16 := rfl
  have h4 : (4 : UInt32).toNat % 32 = 4 := rfl
  rw [UInt32.toNat_shiftLeft, UInt32.toNat_shiftLeft, h16, h4, Nat.shiftLeft_eq, Nat.shiftLeft_eq]
  omega

theorem applyRecord_cases (h : r.Taken (img.InRange w r)) :
    (r.type = ihexTypeData ∧ img.InRange w r ∧ (img.applyRecord w r).2 = img.storeRecord w r) ∨
      r.type ≠ ihexTypeData ∧
        ((¬r.SetsBase ∧ r.type = ihexTypeEof ∧
          (img.applyRecord w r).2 = { img with eofSeen := true }) ∨
          (¬r.SetsBase ∧ r.type ≠ ihexTypeEof ∧ (img.applyRecord w r).2 = img) ∨
          ∃ b : UInt32, b.toNat = r.base ∧ r.SetsBase ∧ r.type ≠ ihexTypeEof ∧
            (img.applyRecord w r).2 = { img with extBase := b }) := by
  unfold applyRecord Record.SetsBase Record.base
  rw [← extWord_toNat]
  rcases h with ⟨ht, hin⟩ | ht | ht | ht | ⟨ht | ht, hcount⟩
  · exact .inl ⟨ht, hin, by rw [if_pos ht, if_pos hin]⟩
  all_goals
    simp only [ht, ihexTypeData, ihexTypeEof, ihexTypeExtSegment, ihexTypeExtLinear]
    refine .inr ⟨by decide, ?_⟩
  · exact .inl ⟨by decide, trivial, rfl⟩
  · exact .inr (.inl ⟨by decide, by decide, rfl⟩)
  · exact .inr (.inl ⟨by decide, by decide, rfl⟩)
  · refine .inr (.inr ⟨extWord r <<< 4, (base_toNat r).2, by decide, by decide, ?_⟩)
    simp [hcount]
  · refine .inr (.inr ⟨extWord r <<< 16, (base_toNat r).1, by decide, by decide, ?_⟩)
    simp [hcount]

theorem covers_iff (hbase : img.extBase.toNat = baseAfter records) (hfits : img.BaseFits)
    (hin : img.FitsIn r) (ht : r.type = ihexTypeData) (i : ℕ) :
    Covers img.baseOffset.toNat i records r ↔
      img.offset r ≤ i ∧ i - img.offset r < r.data.length := by
  have haddr := absAddr_toNat hfits r
  have hlow := hin.1
  have hoff : img.offset r = (img.absAddr r).toNat - img.baseOffset.toNat :=
    UInt32.toNat_sub_of_le _ _ (UInt32.le_iff_toNat_le.mpr hlow)
  unfold Covers
  unfold dataAddr at haddr
  rw [hoff, haddr, hbase, and_iff_right ht]
  rw [haddr, hbase] at hlow
  omega

end IntelHexImage

namespace Meaning

open IntelHexImage

variable {w : ℕ} {img img' : IntelHexImage} {records : List Record} {r : Record} {fill : UInt8}

theorem eof_concat : (∃ x ∈ records ++ [r], x.type = ihexTypeEof) ↔
    (∃ x ∈ records, x.type = ihexTypeEof) ∨ r.type = ihexTypeEof := by
  simp only [List.mem_append, List.mem_singleton, or_and_right, exists_or, exists_eq_left]

theorem other (h : Meaning fill records img) (ht : r.type ≠ ihexTypeData)
    (hdata : img'.data = img.data) (hcap : img'.capacity = img.capacity)
    (hbase : img'.baseOffset = img.baseOffset)
    (hext : img'.extBase.toNat = if r.SetsBase then r.base else img.extBase.toNat)
    (heof : img'.eofSeen = true ↔ img.eofSeen = true ∨ r.type = ihexTypeEof) :
    Meaning fill (records ++ [r]) img' := by
  constructor
  · intro i hi
    rw [hcap] at hi
    rw [hdata, hbase]
    exact gives_concat (fun hcover ↦ absurd hcover.1 ht) fun _ ↦ h.bytes i hi
  · rw [hext, h.extBase, baseAfter_concat]
  · rw [heof, h.eofSeen, eof_concat]

theorem data (h : Meaning fill records img) (hfits : img.BaseFits) (hin : img.FitsIn r)
    (ht : r.type = ihexTypeData) :
    Meaning fill (records ++ [r]) (img.storeRecord w r) := by
  have hcovers := covers_iff h.extBase hfits hin ht
  have hset : ¬r.SetsBase := by
    rw [Record.SetsBase, ht]
    decide
  constructor
  · intro i hi
    refine gives_concat (fun hcover ↦ ?_) fun hcover ↦ ?_
    · obtain ⟨hle, hlt⟩ := (hcovers i).mp hcover
      have hpos : img.baseOffset.toNat + i - (baseAfter records + r.recordAddr.toNat) =
          i - img.offset r := by
        have haddr := absAddr_toNat hfits r
        have hoff : img.offset r = (img.absAddr r).toNat - img.baseOffset.toNat :=
          UInt32.toNat_sub_of_le _ _ (UInt32.le_iff_toNat_le.mpr hin.1)
        have hlow := hin.1
        unfold dataAddr at haddr
        rw [← h.extBase]
        omega
      obtain ⟨k, rfl⟩ := Nat.exists_eq_add_of_le hle
      have hk : k < r.data.length := by omega
      change r.data[img.baseOffset.toNat + _ - _]? =
        some (overwrite img.data (img.offset r) r.data _)
      rw [hpos, Nat.add_sub_cancel_left, overwrite_of_lt hk, List.getElem?_eq_getElem hk]
    · change Gives _ _ _ _ (overwrite img.data (img.offset r) r.data i)
      rw [overwrite_of_not (mt (hcovers i).mpr hcover)]
      exact h.bytes i hi
  · rw [baseAfter_concat, if_neg hset]
    exact h.extBase
  · have heof : r.type ≠ ihexTypeEof := by
      rw [ht]
      decide
    rw [eof_concat, or_iff_left heof]
    exact h.eofSeen

theorem record (h : Meaning fill records img) (hfits : img.BaseFits)
    (htaken : r.Taken (img.InRange w r)) (hend : img.offset r + r.byteCount.toNat < 2 ^ w) :
    Meaning fill (records ++ [r]) (img.applyRecord w r).2 := by
  rcases applyRecord_cases htaken with ⟨ht, hin, himg⟩ | ⟨ht,
    ⟨hset, heof, himg⟩ | ⟨hset, heof, himg⟩ | ⟨b, hb, hset, heof, himg⟩⟩ <;> rw [himg]
  · exact h.data hfits ((inRange_iff_fitsIn hend).mp hin) ht
  · exact h.other ht rfl rfl rfl (if_neg hset).symm (by simp [heof])
  · exact h.other ht rfl rfl rfl (if_neg hset).symm (by simp [heof])
  · exact h.other ht rfl rfl rfl (by rw [if_pos hset, hb]) (by simp [heof])

theorem line (h : Meaning fill records img) (hfits : img.BaseFits) {line : List UInt8}
    (hend : img.EndFits w line) :
    Meaning fill (records ++ img.acceptedRecord w line) (img.parseLine w line).2 := by
  rcases parseLine_cases w img line with ⟨hnone, himg⟩ | ⟨r, tail, hin, htaken, hone, himg⟩
  · rw [hnone, himg, List.append_nil]
    exact h
  · rw [hone, himg]
    exact h.record hfits htaken (hend r tail hin)

end Meaning

namespace IntelHexImage

theorem init_baseFits (buf : ℕ → UInt8) (capacity : ℕ) (baseOffset : UInt32) (fill : UInt8) :
    (init buf capacity baseOffset fill).BaseFits :=
  (by decide : (0 : UInt32).toNat + 0xFFFF < 2 ^ 32)

theorem init_meaning (buf : ℕ → UInt8) (capacity : ℕ) (baseOffset : UInt32) (fill : UInt8) :
    Meaning fill [] (init buf capacity baseOffset fill) := by
  constructor
  · intro i hi
    exact .inr ⟨not_somewhere_nil, if_pos hi⟩
  · rfl
  · simp [init]

variable {w : ℕ} {img : IntelHexImage} {lines : List (List UInt8)} {fill : UInt8}

theorem parseLines_meaning (h : Meaning fill [] img) (hfits : img.BaseFits)
    (hend : ∀ before line after, lines = before ++ line :: after →
      (img.parseLines w before).EndFits w line) :
    Meaning fill (img.accepted w lines) (img.parseLines w lines) := by
  induction lines using List.reverseRecOn with
  | nil => exact h
  | append_singleton lines line ih =>
    have hinit :=
      ih fun before line' after hcat ↦ hend before line' (after ++ [line]) (by simp [hcat])
    rw [accepted_concat, parseLines_concat]
    exact hinit.line (parseLines_keeps hfits lines).1 (hend lines line [] rfl)

/-- The image is what the accepted records mean. A record is accepted just in
case the image takes it, and no line that is refused changes anything. -/
theorem image_meaning (hw : 33 ≤ w) (buf : ℕ → UInt8) (capacity : ℕ) (baseOffset : UInt32)
    (fill : UInt8) (lines : List (List UInt8)) :
    Meaning fill ((init buf capacity baseOffset fill).accepted w lines)
        ((init buf capacity baseOffset fill).parseLines w lines) ∧
      ∀ before line after, lines = before ++ line :: after →
        (∀ r tail, RecordIn line r tail →
          ((((init buf capacity baseOffset fill).parseLines w before).parseLine w line).1 = .ok ↔
            ((init buf capacity baseOffset fill).parseLines w before).Takes r)) ∧
        ((((init buf capacity baseOffset fill).parseLines w before).parseLine w line).1 ≠ .ok →
          (((init buf capacity baseOffset fill).parseLines w before).parseLine w line).2 =
            (init buf capacity baseOffset fill).parseLines w before) := by
  constructor
  · refine parseLines_meaning (init_meaning buf capacity baseOffset fill)
      (init_baseFits buf capacity baseOffset fill) ?_
    intro before line after _ r _ _
    exact end_fits hw r
  · intro before line after _
    refine ⟨fun r tail hin ↦ ?_, parseLine_rejected⟩
    rw [parseLine_record_ok_iff (parseRecord_recordIn.mpr ⟨tail, hin⟩),
      taken_iff_takes (end_fits hw r)]

theorem farLines_accepted : (init (fun _ ↦ 0) 0x11000 0 0xFF).accepted 64 farLines =
    [⟨2, 0, ihexTypeExtLinear, [0, 1]⟩, ⟨1, 0x10, ihexTypeData, [0x34]⟩,
      ⟨2, 0, ihexTypeExtLinear, [0xFF, 0xFF]⟩, ⟨0, 0, ihexTypeEof, []⟩] := by
  unfold farLines
  simp only [accepted, acceptedRecord, lineRecord_eq]
  decide

/-- Of these lines the one whose byte lies behind the buffer is not accepted. -/
theorem farLines_meaning : Meaning 0xFF
    [⟨2, 0, ihexTypeExtLinear, [0, 1]⟩, ⟨1, 0x10, ihexTypeData, [0x34]⟩,
      ⟨2, 0, ihexTypeExtLinear, [0xFF, 0xFF]⟩,
      ⟨0, 0, ihexTypeEof, []⟩] ((init (fun _ ↦ 0) 0x11000 0 0xFF).parseLines 64 farLines) := by
  rw [← farLines_accepted]
  exact (image_meaning (by decide) (fun _ ↦ 0) 0x11000 0 0xFF farLines).1

end IntelHexImage

end UpdiProgrammer.Hex
