import Mathlib.Data.List.TakeWhile
import UpdiProgrammer.Hex.RoundTrip

namespace UpdiProgrammer.Hex

def DigitOf (c : UInt8) (v : ℕ) : Prop :=
  (v < 10 ∧ c.toNat = 0x30 + v) ∨
    10 ≤ v ∧ v < 16 ∧ (c.toNat = 0x41 + (v - 10) ∨ c.toNat = 0x61 + (v - 10))

/-- A text spells bytes, with two hex digits for each of them. -/
inductive Spells : List UInt8 → List UInt8 → Prop
  | nil : Spells [] []
  | cons {hi lo b : UInt8} {h l : ℕ} {text bytes : List UInt8} (hhi : DigitOf hi h)
      (hlo : DigitOf lo l)
      (hb : b.toNat = 16 * h + l) (rest : Spells text bytes) :
        Spells (hi :: lo :: text) (b :: bytes)

theorem DigitOf.lt {c : UInt8} {v : ℕ} (h : DigitOf c v) : v < 16 := by
  unfold DigitOf at h
  omega

theorem DigitOf.unique {c : UInt8} {v v' : ℕ} (h : DigitOf c v) (h' : DigitOf c v') : v = v' := by
  unfold DigitOf at h h'
  omega

theorem hexNibble_iff {c v : UInt8} : hexNibble c = some v ↔ DigitOf c v.toNat := by
  have hconst : (0x30 : UInt8).toNat = 48 ∧ (0x39 : UInt8).toNat = 57 ∧ (0x61 : UInt8).toNat = 97 ∧
      (0x66 : UInt8).toNat = 102 ∧ (0x41 : UInt8).toNat = 65 ∧ (0x46 : UInt8).toNat = 70 ∧
      (10 : UInt8).toNat = 10 := by decide
  have hsub (k : UInt8) (hk : k.toNat ≤ c.toNat) : (c - k).toNat = c.toNat - k.toNat :=
    UInt8.toNat_sub_of_le _ _ (UInt8.le_iff_toNat_le.mpr hk)
  have hc := c.toNat_lt
  have hv := v.toNat_lt
  unfold hexNibble DigitOf
  simp only [UInt8.le_iff_toNat_le, hconst]
  split_ifs with h₁ h₂ h₃
  · rw [Option.some_inj, ← UInt8.toNat_inj, hsub 0x30 h₁.1, hconst.1]
    omega
  · rw [Option.some_inj, ← UInt8.toNat_inj, UInt8.toNat_add, hsub 0x61 h₂.1]
    simp only [hconst]
    omega
  · rw [Option.some_inj, ← UInt8.toNat_inj, UInt8.toNat_add, hsub 0x41 h₃.1]
    simp only [hconst]
    omega
  · simp only [false_iff]
    omega

theorem nibbles_toNat {h l : UInt8} (hh : h.toNat < 16) (hl : l.toNat < 16) :
    ((h <<< 4) ||| l).toNat = 16 * h.toNat + l.toNat := by
  have h4 : (4 : UInt8).toNat % 8 = 4 := rfl
  have hfit : h.toNat <<< 4 % 2 ^ 8 = h.toNat <<< 4 := by
    rw [Nat.shiftLeft_eq]
    omega
  have hl' : l.toNat < 2 ^ 4 := hl
  rw [UInt8.toNat_or, UInt8.toNat_shiftLeft, h4, hfit, ← Nat.shiftLeft_add_eq_or_of_lt hl',
    Nat.shiftLeft_eq]
  omega

/-- Two digits are read off the front of a text, or there are none. -/
theorem hexByte_zero_iff {text : List UInt8} {b : UInt8} : hexByte text 0 = some b ↔
    ∃ hi lo rest h l, text = hi :: lo :: rest ∧ DigitOf hi h ∧ DigitOf lo l ∧
      b.toNat = 16 * h + l := by
  have hend : hexNibble 0 = none := rfl
  constructor
  · intro hb
    unfold hexByte at hb
    split at hb
    · rename_i h l hhi hlo
      obtain rfl := Option.some_inj.mp hb
      cases text with
      | nil => cases hhi
      | cons hi text =>
        cases text with
        | nil => cases hlo
        | cons lo rest =>
          have h₁ := hexNibble_iff.mp hhi
          have h₂ := hexNibble_iff.mp hlo
          exact ⟨hi, lo, rest, h.toNat, l.toNat, rfl, h₁, h₂, nibbles_toNat h₁.lt h₂.lt⟩
    · cases hb
  · rintro ⟨hi, lo, rest, h, l, rfl, hhi, hlo, hb⟩
    have h16 := hhi.lt
    have l16 := hlo.lt
    have hh : (UInt8.ofNat h).toNat = h := by
      rw [UInt8.toNat_ofNat']
      omega
    have hl : (UInt8.ofNat l).toNat = l := by
      rw [UInt8.toNat_ofNat']
      omega
    have h₁ : hexNibble (charAt (hi :: lo :: rest) 0) = some (UInt8.ofNat h) :=
      hexNibble_iff.mpr (hh.symm ▸ hhi)
    have h₂ : hexNibble (charAt (hi :: lo :: rest) 1) = some (UInt8.ofNat l) :=
      hexNibble_iff.mpr (hl.symm ▸ hlo)
    have hcat : ((UInt8.ofNat h) <<< 4) ||| UInt8.ofNat l = b := by
      rw [← UInt8.toNat_inj, nibbles_toNat (by omega) (by omega), hh, hl, hb]
    unfold hexByte
    simp only [h₁, h₂, hcat, Nat.zero_add]

namespace Spells

theorem length {text bytes : List UInt8} (h : Spells text bytes) :
    text.length = 2 * bytes.length := by
  induction h with
  | nil => rfl
  | cons _ _ _ _ ih =>
    simp only [List.length_cons, ih]
    omega

theorem isHex {text bytes : List UInt8} (h : Spells text bytes) : ∀ c ∈ text, ∃ v, DigitOf c v := by
  induction h with
  | nil => exact List.forall_mem_nil _
  | cons hhi hlo _ _ ih =>
    intro c hc
    rcases List.mem_cons.mp hc with rfl | hc
    · exact ⟨_, hhi⟩
    rcases List.mem_cons.mp hc with rfl | hc
    · exact ⟨_, hlo⟩
    · exact ih c hc

end Spells

theorem hexBytes_iff {line bytes : List UInt8} {p n : ℕ} : hexBytes line p n = some bytes ↔
    bytes.length = n ∧ ∃ text rest, line.drop p = text ++ rest ∧ Spells text bytes := by
  induction n generalizing p bytes with
  | zero =>
    rw [hexBytes, Option.some_inj]
    constructor
    · rintro rfl
      exact ⟨rfl, [], line.drop p, rfl, .nil⟩
    · rintro ⟨hlen, -⟩
      exact (List.length_eq_zero_iff.mp hlen).symm
  | succ n ih =>
    have hbyte : hexByte line p = hexByte (line.drop p) 0 := by rw [hexByte_drop, Nat.add_zero]
    rw [hexBytes, hbyte]
    constructor
    · intro h
      cases hb : hexByte (line.drop p) 0 with
      | none => rw [hb] at h; cases h
      | some b =>
        rw [hb] at h
        obtain ⟨rest, hrest, rfl⟩ := Option.map_eq_some_iff.mp h
        obtain ⟨hlen, text, tail, hdrop, hspells⟩ := ih.mp hrest
        obtain ⟨hi, lo, after, _, _, hcat, hhi, hlo, hval⟩ := hexByte_zero_iff.mp hb
        have hafter : line.drop (p + 2) = after := by rw [← List.drop_drop, hcat]; rfl
        refine ⟨by rw [List.length_cons, hlen], hi :: lo :: text, tail, ?_,
          .cons hhi hlo hval hspells⟩
        rw [hcat, ← hafter, hdrop]
        rfl
    · rintro ⟨hlen, text, rest, hdrop, hspells⟩
      cases hspells with
      | nil => cases hlen
      | @cons hi lo b _ _ text bytes hhi hlo hb hspells =>
        have hread : hexByte (line.drop p) 0 = some b :=
          hexByte_zero_iff.mpr ⟨hi, lo, text ++ rest, _, _, hdrop, hhi, hlo, hb⟩
        have hafter : line.drop (p + 2) = text ++ rest := by rw [← List.drop_drop, hdrop]; rfl
        have htail := ih.mpr ⟨Nat.succ.inj hlen, text, rest, hafter, hspells⟩
        simp only [hread, htail, Option.map_some]

theorem hexBytes_cons {line bytes : List UInt8} {b : UInt8} {p n : ℕ} :
    hexBytes line p (n + 1) = some (b :: bytes) ↔ hexByte line p = some b ∧
      hexBytes line (p + 2) n = some bytes := by
  rw [hexBytes]
  cases hexByte line p with
  | none => simp
  | some b' => simp [and_comm]

theorem hexBytes_concat {line bytes : List UInt8} {b : UInt8} {p : ℕ} :
    hexBytes line p (bytes.length + 1) = some (bytes ++ [b]) ↔
      hexBytes line p bytes.length = some bytes ∧ hexByte line (p + bytes.length * 2) = some b := by
  induction bytes generalizing p with
  | nil =>
    rw [List.nil_append, List.length_nil, hexBytes_cons, Nat.zero_mul]
    simp [hexBytes]
  | cons b' bytes ih =>
    have hpos : p + 2 + bytes.length * 2 = p + (bytes.length + 1) * 2 := by omega
    rw [List.cons_append, List.length_cons, hexBytes_cons, hexBytes_cons, ih, and_assoc, hpos]

def Record.bytes (r : Record) : List UInt8 :=
  [r.byteCount, (r.recordAddr >>> 8).toUInt8, r.recordAddr.toUInt8, r.type] ++ r.data

/-- The digits of a record: count, address, type, as many bytes of data as the
count says, and a checksum that brings the sum of all bytes to 0 modulo 256. -/
def Record.SpeltBy (r : Record) (text : List UInt8) : Prop :=
  r.data.length = r.byteCount.toNat ∧ ∃ checksum, Spells text (r.bytes ++ [checksum]) ∧
    ((r.bytes ++ [checksum]).map UInt8.toNat).sum % 256 = 0

theorem foldl_add_toNat (a : UInt8) (l : List UInt8) :
    (l.foldl (· + ·) a).toNat = (a.toNat + (l.map UInt8.toNat).sum) % 256 := by
  have ha := a.toNat_lt
  induction l generalizing a with
  | nil =>
    simp only [List.foldl_nil, List.map_nil, List.sum_nil]
    omega
  | cons b l ih =>
    rw [List.foldl_cons, ih (a + b) (UInt8.toNat_lt _), UInt8.toNat_add, List.map_cons,
      List.sum_cons]
    omega

theorem addr_of_bytes {hi lo : UInt8} : (((hi.toUInt16 <<< 8) ||| lo.toUInt16) >>> 8).toUInt8 = hi ∧
    ((hi.toUInt16 <<< 8) ||| lo.toUInt16).toUInt8 = lo := by
  have h := hi.toNat_lt
  have l := lo.toNat_lt
  have h8 : (8 : UInt16).toNat % 16 = 8 := rfl
  have hfit : hi.toNat <<< 8 % 2 ^ 16 = hi.toNat <<< 8 := by
    rw [Nat.shiftLeft_eq]
    omega
  have hcat : ((hi.toUInt16 <<< 8) ||| lo.toUInt16).toNat = hi.toNat * 256 + lo.toNat := by
    have l8 : lo.toNat < 2 ^ 8 := l
    rw [UInt16.toNat_or, UInt16.toNat_shiftLeft, h8, UInt8.toNat_toUInt16,
      UInt8.toNat_toUInt16, hfit, ← Nat.shiftLeft_add_eq_or_of_lt l8, Nat.shiftLeft_eq]
  constructor
  · rw [← UInt8.toNat_inj, UInt16.toNat_toUInt8, UInt16.toNat_shiftRight, h8, hcat,
      Nat.shiftRight_eq_div_pow]
    omega
  · rw [← UInt8.toNat_inj, UInt16.toNat_toUInt8, hcat]
    omega

theorem checksum_iff {r : Record} {checksum : UInt8} :
    r.data.foldl (· + ·) (r.byteCount + (r.recordAddr >>> 8).toUInt8 + r.recordAddr.toUInt8 +
      r.type) + checksum = 0 ↔
      ((r.bytes ++ [checksum]).map UInt8.toNat).sum % 256 = 0 := by
  have hsum : r.data.foldl (· + ·)
      (r.byteCount + (r.recordAddr >>> 8).toUInt8 + r.recordAddr.toUInt8 + r.type) +
      checksum = (r.bytes ++ [checksum]).foldl (· + ·) 0 := by
    rw [List.foldl_append]
    unfold Record.bytes
    rw [List.foldl_append]
    simp only [List.foldl_cons, List.foldl_nil, UInt8.zero_add]
  rw [hsum, ← UInt8.toNat_inj, foldl_add_toNat]
  simp only [UInt8.toNat_zero, Nat.zero_add]

/-- What the parser takes for a record: after white space and a colon, the
digits of the record. What comes behind them does not matter. -/
theorem parseRecord_some_iff {line : List UInt8} {r : Record} : parseRecord line = .ok (some r) ↔
    ∃ text tail, line.dropWhile isSpace = 0x3A :: (text ++ tail) ∧ r.SpeltBy text := by
  constructor
  · intro h
    have hlen := parseRecord_length h
    unfold parseRecord at h
    dsimp only at h
    split_ifs at h with hend hcolon
    · cases h
    obtain ⟨rest, hrest⟩ : ∃ rest, line.dropWhile isSpace = 0x3A :: rest := by
      cases hline : line.dropWhile isSpace with
      | nil =>
        rw [hline] at hend
        exact absurd rfl hend
      | cons c rest =>
        rw [hline] at hcolon
        exact ⟨rest, congrArg (· :: rest) (not_not.mp hcolon)⟩
    rw [hrest] at h ⊢
    rw [List.drop_succ_cons, List.drop_zero] at h
    split at h
    · rename_i byteCount addrHi addrLo type h₀ h₂ h₄ h₆
      split at h
      · rename_i data hdata
        split at h
        · rename_i checksum hchk
          split_ifs at h with hsum
          obtain rfl := Option.some_inj.mp (Except.ok.inj h)
          obtain ⟨hhi, hlo⟩ := @addr_of_bytes addrHi addrLo
          have hchk' := not_not.mp hsum
          rw [← hlen] at hdata hchk
          have hall :=
            hexBytes_cons.mpr ⟨h₀, hexBytes_cons.mpr ⟨h₂, hexBytes_cons.mpr ⟨h₄, hexBytes_cons.mpr
            ⟨h₆, hexBytes_concat.mpr ⟨hdata, hchk⟩⟩⟩⟩⟩
          obtain ⟨-, text, tail, hcat, hspells⟩ := hexBytes_iff.mp hall
          refine ⟨text, tail, by rw [← hcat, List.drop_zero], hlen, checksum, ?_, ?_⟩
          · simp only [Record.bytes, hhi, hlo]
            exact hspells
          · rw [← checksum_iff]
            simp only [hhi, hlo]
            exact hchk'
        · cases h
      · cases h
    · cases h
  · rintro ⟨text, tail, hline, hlen, checksum, hspells, hsum⟩
    have hbytes : r.bytes ++ [checksum] = r.byteCount :: (r.recordAddr >>> 8).toUInt8 ::
        r.recordAddr.toUInt8 ::
        r.type :: (r.data ++ [checksum]) := rfl
    have hcount : (r.data ++ [checksum]).length = r.data.length + 1 := List.length_append
    rw [hbytes] at hspells
    have hread := hexBytes_iff.mpr ⟨rfl, text, tail, List.drop_zero (l := text ++ tail), hspells⟩
    simp only [List.length_cons, hcount] at hread
    obtain ⟨h₀, hread⟩ := hexBytes_cons.mp hread
    obtain ⟨h₂, hread⟩ := hexBytes_cons.mp hread
    obtain ⟨h₄, hread⟩ := hexBytes_cons.mp hread
    obtain ⟨h₆, hread⟩ := hexBytes_cons.mp hread
    obtain ⟨hdata, hchk⟩ := hexBytes_concat.mp hread
    rw [hlen] at hdata hchk
    have hsum' := checksum_iff.mpr hsum
    have hnul : charAt (0x3A :: (text ++ tail)) 0 = 0x3A := rfl
    unfold parseRecord
    simp only [hline, hnul, List.drop_succ_cons, List.drop_zero, h₀, h₂, h₄, h₆, hdata, hchk,
      hsum', addr_bytes]
    simp

theorem parseRecord_error_ne_ok {line : List UInt8} {e : IntelHexStatus}
    (h : parseRecord line = .error e) :
    e ≠ .ok := by
  unfold parseRecord at h
  dsimp only at h
  split_ifs at h
  · cases h
    exact IntelHexStatus.noConfusion
  split at h
  · split at h
    · split at h
      · split_ifs at h
        cases h
        exact IntelHexStatus.noConfusion
      · cases h
        exact IntelHexStatus.noConfusion
    · cases h
      exact IntelHexStatus.noConfusion
  · cases h
    exact IntelHexStatus.noConfusion

/-- A line is white space, a colon, the digits of a record, and a rest. -/
def RecordIn (line : List UInt8) (r : Record) (tail : List UInt8) : Prop :=
  ∃ space text, line = space ++ 0x3A :: (text ++ tail) ∧ (∀ c ∈ space, isSpace c = true) ∧
    r.SpeltBy text

theorem dropWhile_space {space rest : List UInt8} {c : UInt8}
    (hspace : ∀ b ∈ space, isSpace b = true) (hc : isSpace c = false) :
    (space ++ c :: rest).dropWhile isSpace = c :: rest := by
  rw [List.dropWhile_append_of_pos hspace,
    List.dropWhile_cons_of_neg (by rw [hc]; exact Bool.false_ne_true)]

theorem parseRecord_recordIn {line : List UInt8} {r : Record} :
    parseRecord line = .ok (some r) ↔ ∃ tail, RecordIn line r tail := by
  rw [parseRecord_some_iff]
  constructor
  · rintro ⟨text, tail, hline, hr⟩
    refine ⟨tail, line.takeWhile isSpace, text, ?_, fun c hc ↦ List.mem_takeWhile_imp hc, hr⟩
    rw [← hline, List.takeWhile_append_dropWhile]
  · rintro ⟨tail, space, text, rfl, hspace, hr⟩
    exact ⟨text, tail, dropWhile_space hspace rfl, hr⟩

theorem Record.SpeltBy.length {r : Record} {text : List UInt8} (h : r.SpeltBy text) :
    text.length = 2 * (r.byteCount.toNat + 5) := by
  obtain ⟨hlen, checksum, hspells, -⟩ := h
  rw [hspells.length]
  simp only [Record.bytes, List.length_append, List.length_cons, List.length_nil, hlen]
  omega

theorem RecordIn.unique {line tail tail' : List UInt8} {r r' : Record} (h : RecordIn line r tail)
    (h' : RecordIn line r' tail') : r = r' ∧ tail = tail' := by
  have hr := parseRecord_recordIn.mpr ⟨tail, h⟩
  rw [parseRecord_recordIn.mpr ⟨tail', h'⟩] at hr
  obtain rfl := Option.some_inj.mp (Except.ok.inj hr)
  obtain ⟨space, text, hline, hspace, ht⟩ := h
  obtain ⟨space', text', hline', hspace', ht'⟩ := h'
  have hcat : (space ++ 0x3A :: (text ++ tail)).dropWhile isSpace = 0x3A :: (text ++ tail) :=
    dropWhile_space hspace rfl
  rw [← hline, hline', dropWhile_space hspace' rfl, List.cons.injEq] at hcat
  exact ⟨rfl, (List.append_inj hcat.2 (ht'.length.trans ht.length.symm)).2.symm⟩

open Classical in
/-- The record that the text of a line holds, if it holds one. -/
noncomputable def lineRecord (line : List UInt8) : Option Record :=
  if h : ∃ r tail, RecordIn line r tail then some h.choose else none

theorem lineRecord_eq_some_iff {line : List UInt8} {r : Record} :
    lineRecord line = some r ↔ ∃ tail, RecordIn line r tail := by
  unfold lineRecord
  constructor
  · intro h
    split_ifs at h with hrecord
    obtain rfl := Option.some_inj.mp h
    exact hrecord.choose_spec
  · rintro ⟨tail, hin⟩
    have hrecord : ∃ r tail, RecordIn line r tail := ⟨r, tail, hin⟩
    obtain ⟨tail', hin'⟩ := hrecord.choose_spec
    rw [dif_pos hrecord, (hin'.unique hin).1]

theorem parseRecord_some_iff_lineRecord {line : List UInt8} {r : Record} :
    parseRecord line = .ok (some r) ↔ lineRecord line = some r :=
  parseRecord_recordIn.trans lineRecord_eq_some_iff.symm

theorem lineRecord_eq (line : List UInt8) : lineRecord line = (parseRecord line).toOption.join := by
  cases h : lineRecord line with
  | some r =>
    rw [parseRecord_some_iff_lineRecord.mpr h]
    rfl
  | none =>
    cases hp : parseRecord line with
    | error e => rfl
    | ok r =>
      cases r with
      | none => rfl
      | some r =>
        rw [parseRecord_some_iff_lineRecord.mp hp] at h
        cases h

@[simp] theorem record_of_ok (r : Option Record) :
    (Except.ok r : Except IntelHexStatus _).toOption.join = r := rfl

@[simp] theorem record_of_error (e : IntelHexStatus) :
    (Except.error e : Except _ (Option Record)).toOption.join = none :=
  rfl

theorem spells_putBytes (bytes : List UInt8) : Spells (bytes.flatMap putByte) bytes := by
  have h : hexBytes (bytes.flatMap putByte) 0 bytes.length = some bytes :=
    hexBytes_putBytes bytes (by rw [List.drop_zero, List.append_nil])
  obtain ⟨-, text, rest, hcat, hspells⟩ := hexBytes_iff.mp h
  have hlen := congrArg List.length hcat
  rw [List.drop_zero, List.length_append, hspells.length, putBytes_length] at hlen
  obtain rfl := List.length_eq_zero_iff.mp (show rest.length = 0 by omega)
  rw [List.drop_zero, List.append_nil] at hcat
  exact hcat ▸ hspells

theorem recordText_spelt {count : UInt8} {data : List UInt8} (h : count.toNat ≤ data.length)
    (addr : UInt16) (type : UInt8) : ∃ text, recordText count addr type data = 0x3A :: text ∧
      Record.SpeltBy ⟨count, addr, type, data.take count.toNat⟩ text := by
  have hlen : (data.take count.toNat).length = count.toNat := by
    rw [List.length_take, Nat.min_eq_left h]
  obtain ⟨bytes, hbytes⟩ :
      ∃ bytes, bytes = Record.bytes ⟨count, addr, type, data.take count.toNat⟩ := ⟨_, rfl⟩
  have hcat : recordText count addr type data = 0x3A ::
      (bytes ++ [0 - bytes.foldl (· + ·) 0]).flatMap putByte := by
    rw [List.flatMap_append, List.flatMap_singleton, hbytes]
    rfl
  refine ⟨_, hcat, hlen, 0 - bytes.foldl (· + ·) 0, ?_, ?_⟩
  · rw [← hbytes]
    exact spells_putBytes _
  · have hsum := foldl_add_toNat 0 (bytes ++ [0 - bytes.foldl (· + ·) 0])
    rw [List.foldl_append, List.foldl_cons, List.foldl_nil, UInt8.zero_sub,
      UInt8.add_right_neg] at hsum
    rw [← hbytes, UInt8.zero_sub]
    simpa only [UInt8.toNat_zero, Nat.zero_add] using hsum.symm

theorem recordIn_recordText {count : UInt8} {data : List UInt8} (h : count.toNat ≤ data.length)
    (addr : UInt16) (type : UInt8) (tail : List UInt8) :
    RecordIn (recordText count addr type data ++ tail)
      ⟨count, addr, type, data.take count.toNat⟩ tail := by
  obtain ⟨text, hcat, hspelt⟩ := recordText_spelt h addr type
  exact ⟨[], text, by rw [hcat]; rfl, List.forall_mem_nil _, hspelt⟩

/-- The records that are taken: data inside the buffer, the end of the file, a
start address, and a base of two bytes. -/
def Record.Taken (r : Record) (inside : Prop) : Prop :=
  (r.type = ihexTypeData ∧ inside) ∨ r.type = ihexTypeEof ∨ r.type = 0x03 ∨ r.type = 0x05 ∨
    (r.type = ihexTypeExtSegment ∨ r.type = ihexTypeExtLinear) ∧ r.byteCount = 2

namespace IntelHexImage

variable {w : ℕ} {img : IntelHexImage} {line : List UInt8}

def FitsIn (img : IntelHexImage) (r : Record) : Prop :=
  img.baseOffset.toNat ≤ (img.absAddr r).toNat ∧
    (img.absAddr r).toNat - img.baseOffset.toNat + r.byteCount.toNat ≤ img.capacity

instance (r : Record) : Decidable (img.FitsIn r) := inferInstanceAs (Decidable (_ ∧ _))

def Takes (img : IntelHexImage) (r : Record) : Prop := r.Taken (img.FitsIn r)

theorem inRange_iff_fitsIn {r : Record} (h : img.offset r + r.byteCount.toNat < 2 ^ w) :
    img.InRange w r ↔ img.FitsIn r := by
  unfold InRange FitsIn endOffset
  rw [Nat.mod_eq_of_lt h, Nat.not_lt, UInt32.not_lt, UInt32.le_iff_toNat_le]
  refine and_congr_right fun hb ↦ ?_
  rw [offset, UInt32.toNat_sub_of_le _ _ (UInt32.le_iff_toNat_le.mpr hb)]

theorem end_fits (hw : 33 ≤ w) (r : Record) : img.offset r + r.byteCount.toNat < 2 ^ w := by
  have hoff := (img.absAddr r - img.baseOffset).toNat_lt
  have hcount := r.byteCount.toNat_lt
  have hpow : 2 ^ 33 ≤ 2 ^ w := Nat.pow_le_pow_right (by decide) hw
  unfold offset
  omega

theorem applyRecord_ok_iff {r : Record} :
    (img.applyRecord w r).1 = .ok ↔ r.Taken (img.InRange w r) := by
  unfold applyRecord Record.Taken
  split_ifs with hdata hin heof hlin hcount hseg hcount hstart
  · simp [hdata, hin]
  · simp [hdata, hin, ihexTypeData, ihexTypeEof, ihexTypeExtSegment, ihexTypeExtLinear]
  · simp [heof]
  · simp [hlin, hcount, ihexTypeData, ihexTypeEof, ihexTypeExtLinear]
  · simp [hlin, not_not.mp hcount]
  · simp [hseg, hcount, ihexTypeData, ihexTypeEof, ihexTypeExtSegment]
  · simp [hseg, not_not.mp hcount]
  · rcases hstart with hstart | hstart <;> simp [hstart]
  · obtain ⟨h₃, h₅⟩ := not_or.mp hstart
    simp [hdata, heof, hlin, hseg, h₃, h₅]

theorem taken_iff_takes {r : Record} (h : img.offset r + r.byteCount.toNat < 2 ^ w) :
    r.Taken (img.InRange w r) ↔ img.Takes r := by
  rw [inRange_iff_fitsIn h]
  exact Iff.rfl

theorem applyRecord_rejected {r : Record} (h : (img.applyRecord w r).1 ≠ .ok) :
    (img.applyRecord w r).2 = img := by
  unfold applyRecord at h ⊢
  split_ifs at h ⊢ <;> first | exact absurd rfl h | rfl

theorem parseLine_rejected (h : (img.parseLine w line).1 ≠ .ok) :
    (img.parseLine w line).2 = img := by
  unfold parseLine at h ⊢
  cases hr : parseRecord line with
  | error e => rfl
  | ok r =>
    cases r with
    | none => rfl
    | some r =>
      rw [hr] at h
      exact applyRecord_rejected h

theorem parseRecord_none_iff {line : List UInt8} :
    parseRecord line = .ok none ↔ charAt (line.dropWhile isSpace) 0 = 0 := by
  constructor
  · intro h
    by_contra hne
    unfold parseRecord at h
    dsimp only at h
    rw [if_neg hne] at h
    split_ifs at h
    split at h
    · split at h
      · split at h
        · split_ifs at h
          cases h
        · cases h
      · cases h
    · cases h
  · intro h
    unfold parseRecord
    dsimp only
    rw [if_pos h]

theorem parseRecord_blank_iff {line : List UInt8} (h : 0 ∉ line) :
    parseRecord line = .ok none ↔ ∀ c ∈ line, isSpace c = true := by
  rw [← List.dropWhile_eq_nil_iff, parseRecord_none_iff]
  cases hrest : line.dropWhile isSpace with
  | nil => simp [charAt]
  | cons c rest =>
    have hmem : c ∈ line := (List.dropWhile_sublist isSpace).subset (hrest ▸ List.mem_cons_self)
    have hc : c ≠ 0 := fun hzero ↦ h (hzero ▸ hmem)
    simp [charAt, hc]

theorem parseLine_ok_iff : (img.parseLine w line).1 = .ok ↔
    parseRecord line = .ok none ∨ ∃ r, parseRecord line = .ok (some r) ∧
      r.Taken (img.InRange w r) := by
  unfold parseLine
  cases hr : parseRecord line with
  | error e =>
    have he : e ≠ .ok := parseRecord_error_ne_ok hr
    simp [he]
  | ok r =>
    cases r with
    | none => simp
    | some r => simp [applyRecord_ok_iff]

theorem parseLine_record_ok_iff {r : Record} (hr : parseRecord line = .ok (some r)) :
    (img.parseLine w line).1 = .ok ↔ r.Taken (img.InRange w r) := by
  rw [parseLine, hr]
  exact applyRecord_ok_iff

/-- A line of the format that goes into an image: blank, or a record that the
image takes with nothing but white space around it. -/
def Grammar (img : IntelHexImage) (line : List UInt8) : Prop :=
  (∀ c ∈ line, isSpace c = true) ∨
    ∃ r tail, RecordIn line r tail ∧ img.Takes r ∧ ∀ c ∈ tail, isSpace c = true

/-- The line has text behind a record that the image takes. -/
def RunsOn (img : IntelHexImage) (line : List UInt8) : Prop :=
  ∃ r tail, RecordIn line r tail ∧ img.Takes r ∧ ¬∀ c ∈ tail, isSpace c = true

theorem parseLine_ok_or (hw : 33 ≤ w) (h : 0 ∉ line) :
    (img.parseLine w line).1 = .ok ↔ img.Grammar line ∨ img.RunsOn line := by
  rw [parseLine_ok_iff, parseRecord_blank_iff h, Grammar, or_assoc]
  refine or_congr_right ?_
  constructor
  · rintro ⟨r, hr, htaken⟩
    have htakes := (taken_iff_takes (end_fits hw r)).mp htaken
    obtain ⟨tail, hin⟩ := parseRecord_recordIn.mp hr
    by_cases htail : ∀ c ∈ tail, isSpace c = true
    · exact .inl ⟨r, tail, hin, htakes, htail⟩
    · exact .inr ⟨r, tail, hin, htakes, htail⟩
  · rintro (⟨r, tail, hin, htakes, -⟩ | ⟨r, tail, hin, htakes, -⟩)
    · exact ⟨r, parseRecord_recordIn.mpr ⟨tail, hin⟩, (taken_iff_takes (end_fits hw r)).mpr htakes⟩
    · exact ⟨r, parseRecord_recordIn.mpr ⟨tail, hin⟩, (taken_iff_takes (end_fits hw r)).mpr htakes⟩

theorem RunsOn.not_grammar (h : img.RunsOn line) : ¬img.Grammar line := by
  obtain ⟨r, tail, hin, -, hrest⟩ := h
  rintro (hblank | ⟨r', tail', hin', -, hspace⟩)
  · obtain ⟨space, text, rfl, -, -⟩ := hin
    have hcolon := hblank 0x3A (List.mem_append_right space List.mem_cons_self)
    cases hcolon
  · obtain ⟨-, rfl⟩ := hin.unique hin'
    exact hrest hspace

/-- The parser accepts the lines of the grammar and no others, except that it
takes a record whatever follows it on the line. -/
theorem accepts_grammar_iff (hw : 33 ≤ w) (img : IntelHexImage) (h : 0 ∉ line) :
    ((img.parseLine w line).1 = .ok ↔ img.Grammar line) ↔ ¬img.RunsOn line := by
  rw [parseLine_ok_or hw h]
  constructor
  · intro hiff hruns
    exact hruns.not_grammar (hiff.mp (.inr hruns))
  · intro hruns
    exact or_iff_left hruns

def spacedLine : List UInt8 := [0x20, 0x09] ++ recordText 1 0x10 ihexTypeData [0x34] ++ [0x0D, 0x0A]

theorem spacedLine_recordIn : RecordIn spacedLine ⟨1, 0x10, ihexTypeData, [0x34]⟩ [0x0D, 0x0A] := by
  have hlen : (1 : UInt8).toNat ≤ [(0x34 : UInt8)].length := Nat.le_refl 1
  obtain ⟨text, hcat, hspelt⟩ := recordText_spelt hlen 0x10 ihexTypeData
  refine ⟨[0x20, 0x09], text, ?_, by simp [isSpace], hspelt⟩
  rw [spacedLine, hcat]
  rfl

theorem spacedLine_accepted : ((init (fun _ ↦ 0) 0x1000 0 0xFF).parseLine 64 spacedLine).1 = .ok ∧
    (init (fun _ ↦ 0) 0x1000 0 0xFF).Grammar spacedLine := by
  have hends : ¬(init (fun _ ↦ 0) 0x1000 0 0xFF).RunsOn spacedLine := by
    rintro ⟨r, tail, hin, -, hrest⟩
    obtain ⟨-, rfl⟩ := hin.unique spacedLine_recordIn
    exact hrest (by simp [isSpace])
  have hok : ((init (fun _ ↦ 0) 0x1000 0 0xFF).parseLine 64 spacedLine).1 = .ok := by decide
  exact ⟨hok, ((accepts_grammar_iff (by decide) _ (by decide)).mpr hends).mp hok⟩

/-- Two EOF records on one line, `:00000001FF:00000001FF`. -/
def twoRecordsLine : List UInt8 := recordText 0 0 ihexTypeEof [] ++ recordText 0 0 ihexTypeEof []

/-- Two records that run together are accepted as one. -/
theorem two_records_accepted :
    ((init (fun _ ↦ 0) 0x1000 0 0xFF).parseLine 64 twoRecordsLine).1 = .ok ∧
      ¬(init (fun _ ↦ 0) 0x1000 0 0xFF).Grammar twoRecordsLine := by
  have hlen : (0 : UInt8).toNat ≤ ([] : List UInt8).length := Nat.le_refl 0
  have hin := recordIn_recordText hlen 0 ihexTypeEof (recordText 0 0 ihexTypeEof [])
  refine ⟨by decide, RunsOn.not_grammar ⟨_, _, hin, .inr (.inl rfl), ?_⟩⟩
  exact fun hspace ↦ absurd (hspace 0x3A List.mem_cons_self) (by decide)

end IntelHexImage

end UpdiProgrammer.Hex
