import UpdiProgrammer.Hex.Meaning
import UpdiProgrammer.Library.Tracked

namespace UpdiProgrammer.Hex

open Library.History Library.Tracked IntelHexImage

/-- The offsets that records have stored a byte to. -/
def stored (baseOffset : ℕ) (records : List Record) : Set ℕ :=
  {i | Somewhere (Covers baseOffset i) records}

/-- The range of an image runs from the lowest to the highest byte that was stored. -/
structure RangeExact (records : List Record) (img : IntelHexImage) : Prop where
  tracks : Tracks (stored img.baseOffset.toNat records) img.any img.minOffset img.maxOffset
  inside : img.any = true → img.maxOffset ≤ img.capacity

namespace IntelHexImage

variable {w : ℕ} {img img' : IntelHexImage} {line : List UInt8} {lines : List (List UInt8)}
  {records : List Record} {r : Record}

/-- A data record without a byte is accepted at an offset outside the range. -/
def Stretches (img : IntelHexImage) (line : List UInt8) : Prop :=
  ∃ r tail, RecordIn line r tail ∧ r.type = ihexTypeData ∧ r.byteCount = 0 ∧ img.FitsIn r ∧
    (img.any = true → img.offset r < img.minOffset ∨ img.maxOffset < img.offset r)

theorem stretches_iff :
    img.Stretches line ↔ ∃ r ∈ (parseRecord line).toOption.join, r.type = ihexTypeData ∧
    r.byteCount = 0 ∧ img.FitsIn r ∧
      (img.any = true → img.offset r < img.minOffset ∨ img.maxOffset < img.offset r) := by
  unfold Stretches
  simp only [← exists_and_right, ← lineRecord_eq, Option.mem_def, lineRecord_eq_some_iff]

instance : Decidable (img.Stretches line) := decidable_of_iff _ stretches_iff.symm

theorem stored_other {baseOffset : ℕ} (ht : r.type ≠ ihexTypeData) :
    stored baseOffset (records ++ [r]) = stored baseOffset records := by
  ext i
  exact somewhere_concat.trans (or_iff_left fun hcover ↦ ht hcover.1)

theorem stored_data (hbase : img.extBase.toNat = baseAfter records) (hfits : img.BaseFits)
    (hin : img.FitsIn r) (ht : r.type = ihexTypeData) (hlen : r.data.length = r.byteCount.toNat) :
    stored img.baseOffset.toNat (records ++ [r]) = stored img.baseOffset.toNat records ∪
      Set.Ico (img.offset r) (img.offset r + r.byteCount.toNat) := by
  ext i
  refine somewhere_concat.trans (or_congr_right ?_)
  rw [covers_iff hbase hfits hin ht i, hlen, Set.mem_Ico]
  omega

theorem storeRecord_range (hend : img.offset r + r.byteCount.toNat < 2 ^ w) :
    (img.storeRecord w r).any = true ∧
      (img.storeRecord w r).minOffset = (if img.any then min (img.offset r) img.minOffset else
        img.offset r) ∧
      (img.storeRecord w r).maxOffset =
        if img.any then max (img.offset r + r.byteCount.toNat) img.maxOffset
        else img.offset r + r.byteCount.toNat := by
  have hmod : img.endOffset w r = img.offset r + r.byteCount.toNat := Nat.mod_eq_of_lt hend
  refine ⟨rfl, ?_, ?_⟩
  · simp only [storeRecord]
    split_ifs <;> omega
  · simp only [storeRecord, hmod]
    split_ifs <;> omega

theorem rangeExact_line_iff (h : RangeExact records img)
    (hbase : img.extBase.toNat = baseAfter records) (hfits : img.BaseFits)
    (hend : img.EndFits w line) :
    RangeExact (records ++ img.acceptedRecord w line) (img.parseLine w line).2 ↔
      ¬img.Stretches line := by
  rcases parseLine_cases w img line with ⟨hnone, himg⟩ | ⟨r, tail, hr, htaken, hone, himg⟩
  · rw [hnone, himg, List.append_nil]
    refine iff_of_true h ?_
    rintro ⟨r, tail, hr, ht, -, hin, -⟩
    have hok : (img.parseLine w line).1 = .ok :=
      (parseLine_record_ok_iff (parseRecord_recordIn.mpr ⟨tail, hr⟩)).mpr
      (.inl ⟨ht, (inRange_iff_fitsIn (hend r tail hr)).mpr hin⟩)
    rw [acceptedRecord, if_pos hok, lineRecord_eq_some_iff.mpr ⟨tail, hr⟩] at hnone
    cases hnone
  rw [hone, himg]
  have hlen := parseRecord_length (parseRecord_recordIn.mpr ⟨tail, hr⟩)
  rcases applyRecord_cases htaken with ⟨ht, hin, himg⟩ | ⟨ht, hother⟩
  · rw [himg]
    have hin' := (inRange_iff_fitsIn (hend r tail hr)).mp hin
    obtain ⟨hany, hmin, hmax⟩ := storeRecord_range (hend r tail hr)
    have hroom : (img.storeRecord w r).any = true →
        (img.storeRecord w r).maxOffset ≤ (img.storeRecord w r).capacity := by
      intro _
      have hoff : img.offset r = (img.absAddr r).toNat - img.baseOffset.toNat :=
        UInt32.toNat_sub_of_le _ _ (UInt32.le_iff_toNat_le.mpr hin'.1)
      have hcap := hin'.2
      change _ ≤ img.capacity
      rw [hmax]
      split_ifs with hold
      · have hle := h.inside hold
        omega
      · omega
    have htracks : RangeExact (records ++ [r]) (img.storeRecord w r) ↔
        Tracks (stored img.baseOffset.toNat records ∪ Set.Ico (img.offset r)
          (img.offset r + r.byteCount.toNat)) true
          (if img.any then min (img.offset r) img.minOffset else img.offset r)
          (if img.any then max (img.offset r + r.byteCount.toNat) img.maxOffset
            else img.offset r + r.byteCount.toNat) := by
      rw [← stored_data hbase hfits hin' ht hlen, ← hmin, ← hmax]
      exact ⟨fun hexact ↦ hexact.tracks, fun htr ↦ ⟨htr, hroom⟩⟩
    rw [htracks]
    by_cases hzero : r.byteCount = 0
    · have hcount : r.byteCount.toNat = 0 := congrArg UInt8.toNat hzero
      rw [hcount, Nat.add_zero, Set.Ico_self, Set.union_empty, h.tracks.stretch_iff]
      constructor
      · rintro ⟨hold, hlo, hhi⟩ ⟨r', tail', hr', -, -, -, hout⟩
        obtain ⟨rfl, -⟩ := hr.unique hr'
        have hout' := hout hold
        omega
      · intro hnot
        have hold : img.any = true := by
          by_contra hnone
          exact hnot ⟨r, tail, hr, ht, hzero, hin', fun hold ↦ absurd hold hnone⟩
        have hmid : ¬(img.offset r < img.minOffset ∨ img.maxOffset < img.offset r) :=
          fun hout ↦ hnot ⟨r, tail, hr, ht, hzero, hin', fun _ ↦ hout⟩
        exact ⟨hold, by omega, by omega⟩
    · have hpos : 0 < r.byteCount.toNat :=
        Nat.pos_of_ne_zero fun hcount ↦ hzero (UInt8.toNat_inj.mp hcount)
      refine iff_of_true (h.tracks.union hpos) ?_
      rintro ⟨r', tail', hr', -, hcount, -⟩
      exact hzero ((hr.unique hr').1 ▸ hcount)
  · have hsame : RangeExact (records ++ [r]) (img.applyRecord w r).2 := by
      rcases hother with ⟨-, -, himg⟩ | ⟨-, -, himg⟩ | ⟨b, -, -, -, himg⟩ <;> rw [himg]
      all_goals exact ⟨(stored_other ht).symm ▸ h.tracks, h.inside⟩
    refine iff_of_true hsame ?_
    rintro ⟨r', tail', hr', ht', -⟩
    exact ht ((hr.unique hr').1 ▸ ht')

section Run

variable (buf : ℕ → UInt8) (capacity : ℕ) (baseOffset : UInt32) (fill : UInt8)

theorem init_rangeExact : RangeExact [] (init buf capacity baseOffset fill) := by
  have hempty : ¬(stored baseOffset.toNat []).Nonempty := fun ⟨_, hi⟩ ↦ not_somewhere_nil hi
  exact ⟨⟨iff_of_false Bool.false_ne_true hempty, fun h ↦ absurd h Bool.false_ne_true,
    fun h ↦ absurd h Bool.false_ne_true⟩, fun h ↦ absurd h Bool.false_ne_true⟩

theorem rangeExact_run_iff (hend : ∀ before line after, lines = before ++ line :: after →
      ((init buf capacity baseOffset fill).parseLines w before).EndFits w line) :
    (∀ before after, lines = before ++ after →
        RangeExact ((init buf capacity baseOffset fill).accepted w before)
        ((init buf capacity baseOffset fill).parseLines w before)) ↔
      ∀ before line after, lines = before ++ line :: after →
        ¬((init buf capacity baseOffset fill).parseLines w before).Stretches line := by
  have hfits := init_baseFits buf capacity baseOffset fill
  have hstep {before after : List (List UInt8)} {line : List UInt8}
      (hcat : lines = before ++ line :: after)
      (h : RangeExact ((init buf capacity baseOffset fill).accepted w before)
        ((init buf capacity baseOffset fill).parseLines w before)) :
      RangeExact ((init buf capacity baseOffset fill).accepted w (before ++ [line]))
          ((init buf capacity baseOffset fill).parseLines w (before ++ [line])) ↔
        ¬((init buf capacity baseOffset fill).parseLines w before).Stretches line := by
    have hbefore : ∀ before' line' after', before = before' ++ line' :: after' →
        ((init buf capacity baseOffset fill).parseLines w before').EndFits w line' := by
      intro before' line' after' hcat'
      exact hend before' line' (after' ++ line :: after)
        (by rw [hcat, hcat', List.append_assoc]; rfl)
    have hmeans := parseLines_meaning (init_meaning buf capacity baseOffset fill) hfits hbefore
    rw [accepted_concat, parseLines_concat]
    exact rangeExact_line_iff h hmeans.extBase (parseLines_keeps hfits before).1
      (hend before line after hcat)
  constructor
  · intro h before line after hcat
    have hnext := h (before ++ [line]) after (by rw [hcat, List.append_assoc]; rfl)
    exact (hstep hcat (h before (line :: after) hcat)).mp hnext
  · intro h before
    induction before using List.reverseRecOn with
    | nil =>
      intro after _
      exact init_rangeExact buf capacity baseOffset fill
    | append_singleton before line ih =>
      intro after hcat
      rw [List.append_assoc] at hcat
      exact (hstep hcat (ih (line :: after) hcat)).mpr (h before line after hcat)

end Run

end IntelHexImage

end UpdiProgrammer.Hex
