import UpdiProgrammer.Hex.Record
import UpdiProgrammer.Library.History

namespace UpdiProgrammer.Hex

open Library.History Library.Memory

theorem hexNibble_nib (v : UInt8) : hexNibble (nib v) = some (v &&& 0x0F) := by
  have hall : ∀ n < 16, hexNibble (nib (UInt8.ofNat n)) = some (UInt8.ofNat n) := by decide
  have hnib : nib v = nib (v &&& 0x0F) := by
    unfold nib
    rw [UInt8.and_assoc, UInt8.and_self]
  have hlt : (v &&& 0x0F).toNat < 16 := by
    rw [UInt8.toNat_and]
    exact Nat.lt_succ_of_le Nat.and_le_right
  have h := hall _ hlt
  rwa [UInt8.ofNat_toNat, ← hnib] at h

theorem low_nibble (v : UInt8) : (v &&& 0x0F).toNat = v.toNat % 2 ^ 4 := by
  rw [UInt8.toNat_and]
  exact Nat.and_two_pow_sub_one_eq_mod v.toNat 4

theorem nibbles (v : UInt8) : ((v >>> 4 &&& 0x0F) <<< 4) ||| (v &&& 0x0F) = v := by
  apply UInt8.toNat_inj.mp
  have h := v.toNat_lt
  have h4 : (4 : UInt8).toNat % 8 = 4 := rfl
  have hlow : v.toNat % 2 ^ 4 < 2 ^ 4 := Nat.mod_lt _ (by decide)
  rw [UInt8.toNat_or, UInt8.toNat_shiftLeft, low_nibble, low_nibble, UInt8.toNat_shiftRight, h4,
    Nat.shiftRight_eq_div_pow]
  have hfit : (v.toNat / 2 ^ 4 % 2 ^ 4) <<< 4 % 2 ^ 8 = (v.toNat / 2 ^ 4) <<< 4 := by
    rw [Nat.shiftLeft_eq, Nat.shiftLeft_eq]
    omega
  rw [hfit, ← Nat.shiftLeft_add_eq_or_of_lt hlow, Nat.shiftLeft_eq]
  omega

theorem charAt_drop (line : List UInt8) (p i : ℕ) :
    charAt (line.drop p) i = charAt line (p + i) := by
  unfold charAt
  rw [List.getD_eq_getElem?_getD, List.getD_eq_getElem?_getD, List.getElem?_drop]

theorem hexByte_drop (line : List UInt8) (p i : ℕ) :
    hexByte (line.drop p) i = hexByte line (p + i) := by
  unfold hexByte
  rw [charAt_drop, charAt_drop, Nat.add_assoc]

theorem hexByte_putByte {line rest : List UInt8} {p : ℕ} {v : UInt8}
    (h : line.drop p = putByte v ++ rest) :
    hexByte line p = some v := by
  have h' := hexByte_drop line p 0
  rw [h, Nat.add_zero] at h'
  rw [← h']
  unfold hexByte putByte charAt
  simp only [List.cons_append, List.nil_append, List.getD_cons_zero, List.getD_cons_succ,
    hexNibble_nib, nibbles]

theorem hexBytes_putBytes {line rest : List UInt8} {p : ℕ} (data : List UInt8)
    (h : line.drop p = data.flatMap putByte ++ rest) : hexBytes line p data.length = some data := by
  induction data generalizing p with
  | nil => rfl
  | cons b data ih =>
    rw [List.flatMap_cons, List.append_assoc] at h
    have hdrop : line.drop (p + 2) = data.flatMap putByte ++ rest := by
      rw [← List.drop_drop, h]
      rfl
    rw [List.length_cons, hexBytes, hexByte_putByte h]
    simp only [ih hdrop, Option.map_some]

theorem putBytes_length (data : List UInt8) : (data.flatMap putByte).length = data.length * 2 := by
  induction data with
  | nil => rfl
  | cons b data ih =>
    rw [List.flatMap_cons, List.length_append, ih, List.length_cons, Nat.succ_mul, Nat.add_comm]
    rfl

def recordText (count : UInt8) (addr : UInt16) (type : UInt8) (data : List UInt8) : List UInt8 :=
  let bytes := [count, (addr >>> 8).toUInt8, addr.toUInt8, type] ++ data.take count.toNat
  [0x3A] ++ bytes.flatMap putByte ++ putByte (0 - bytes.foldl (· + ·) 0)

theorem recordLine_eq (count : UInt8) (addr : UInt16) (type : UInt8) (data : List UInt8) :
    recordLine count addr type data = recordText count addr type data ++ [0x0D, 0x0A] := rfl

theorem addr_bytes (addr : UInt16) :
    ((addr >>> 8).toUInt8.toUInt16 <<< 8) ||| addr.toUInt8.toUInt16 = addr := by
  apply UInt16.toNat_inj.mp
  have h := addr.toNat_lt
  have h8 : (8 : UInt16).toNat % 16 = 8 := rfl
  rw [UInt16.toNat_or, UInt16.toNat_shiftLeft, UInt8.toNat_toUInt16, UInt8.toNat_toUInt16,
    UInt16.toNat_toUInt8,
    UInt16.toNat_toUInt8, UInt16.toNat_shiftRight, h8, Nat.shiftRight_eq_div_pow]
  have hlow : addr.toNat % 2 ^ 8 < 2 ^ 8 := Nat.mod_lt _ (by decide)
  have hfit : (addr.toNat / 2 ^ 8 % 2 ^ 8) <<< 8 % 2 ^ 16 = (addr.toNat / 2 ^ 8) <<< 8 := by
    rw [Nat.shiftLeft_eq, Nat.shiftLeft_eq]
    omega
  rw [hfit, ← Nat.shiftLeft_add_eq_or_of_lt hlow, Nat.shiftLeft_eq]
  omega

theorem parseRecord_recordText {count : UInt8} {data : List UInt8} (h : count.toNat ≤ data.length)
    (addr : UInt16) (type : UInt8) (rest : List UInt8) :
    parseRecord (recordText count addr type data ++ rest) =
      .ok (some ⟨count, addr, type, data.take count.toNat⟩) := by
  have hlen : (data.take count.toNat).length = count.toNat := by
    rw [List.length_take, Nat.min_eq_left h]
  obtain ⟨body, hbody⟩ : ∃ body, body = data.take count.toNat := ⟨_, rfl⟩
  obtain ⟨sum, hs⟩ : ∃ sum,
      sum = body.foldl (· + ·) (count + (addr >>> 8).toUInt8 + addr.toUInt8 + type) := ⟨_, rfl⟩
  obtain ⟨text, hhead⟩ :
      ∃ text, text = putByte count ++ (putByte (addr >>> 8).toUInt8 ++ (putByte addr.toUInt8 ++
      (putByte type ++ (body.flatMap putByte ++ (putByte (0 - sum) ++ rest))))) := ⟨_, rfl⟩
  rw [← hbody] at hlen ⊢
  have hline : recordText count addr type data ++ rest = 0x3A :: text := by
    have hsum : (count :: (addr >>> 8).toUInt8 :: addr.toUInt8 :: type :: body).foldl
        (· + ·) 0 = sum := by
      simp only [List.foldl_cons, UInt8.zero_add, hs]
    unfold recordText
    rw [← hbody, hhead]
    simp only [List.cons_append, List.nil_append, hsum, List.flatMap_cons, List.append_assoc]
  have h₀ : hexByte text 0 = some count := hexByte_putByte hhead
  have h₂ : hexByte text 2 = some (addr >>> 8).toUInt8 := by
    apply hexByte_putByte
    rw [hhead]
    rfl
  have h₄ : hexByte text 4 = some addr.toUInt8 := by
    apply hexByte_putByte
    rw [hhead]
    rfl
  have h₆ : hexByte text 6 = some type := by
    apply hexByte_putByte
    rw [hhead]
    rfl
  have h₈ : text.drop 8 = body.flatMap putByte ++ (putByte (0 - sum) ++ rest) := by
    rw [hhead]
    rfl
  have hdata : hexBytes text 8 count.toNat = some body := hlen ▸ hexBytes_putBytes body h₈
  have hchk : hexByte text (8 + count.toNat * 2) = some (0 - sum) := by
    apply hexByte_putByte
    rw [← List.drop_drop, h₈, List.drop_left' (putBytes_length body |>.trans (by rw [hlen]))]
  have hskip : (0x3A :: text).dropWhile isSpace = 0x3A :: text :=
    List.dropWhile_cons_of_neg (by decide)
  have hcancel : sum + (0 - sum) = 0 := by rw [UInt8.zero_sub, UInt8.add_right_neg]
  rw [hline, parseRecord, hskip]
  simp only [List.drop_succ_cons, List.drop_zero, h₀, h₂, h₄, h₆, hdata, hchk, ← hs,
    hcancel, addr_bytes]
  rfl

theorem parseRecord_recordLine {count : UInt8} {data : List UInt8} (h : count.toNat ≤ data.length)
    (addr : UInt16) (type : UInt8) :
    parseRecord (recordLine count addr type data) =
      .ok (some ⟨count, addr, type, data.take count.toNat⟩) := by
  rw [recordLine_eq]
  exact parseRecord_recordText h addr type _

section Lines

/-- How many of the `len` bytes that are left go into the record at `absAddr`. -/
def chunkLength (bytesPerLine : ℕ) (absAddr : UInt32) (len : ℕ) : ℕ :=
  let chunk := if bytesPerLine < len then bytesPerLine else len
  if 0x10000 < absAddr.toUInt16.toNat + chunk then 0x10000 - absAddr.toUInt16.toNat else chunk

def upperOf (absAddr : UInt32) : UInt16 := (absAddr >>> 16).toUInt16

def baseLine (upper : UInt16) : List UInt8 :=
  recordLine 2 0 ihexTypeExtLinear [(upper >>> 8).toUInt8, upper.toUInt8]

def dataLine (bytesPerLine : ℕ) (absAddr : UInt32) (data : List UInt8) : List UInt8 :=
  recordLine (UInt8.ofNat (chunkLength bytesPerLine absAddr data.length)) absAddr.toUInt16
    ihexTypeData data

def eofLine : List UInt8 := recordLine 0 0 ihexTypeEof []

/-- The lines that the record loop hands to a sink that takes them all. -/
def recordLines (bytesPerLine : ℕ) : (fuel : ℕ) → (absAddr : UInt32) → (curUpper : UInt16) →
    List UInt8 → List (List UInt8)
  | 0, _, _, _ => []
  | fuel + 1, absAddr, curUpper, data =>
    if data.length = 0 then []
    else
      let chunk := chunkLength bytesPerLine absAddr data.length
      (if upperOf absAddr ≠ curUpper then [baseLine (upperOf absAddr)] else []) ++
        dataLine bytesPerLine absAddr data ::
          recordLines bytesPerLine fuel (absAddr + UInt32.ofNat chunk) (upperOf absAddr)
            (data.drop chunk)

def lineWidth (bytesPerLine : ℕ) : ℕ :=
  if bytesPerLine = 0 ∨ 255 < bytesPerLine then 16 else bytesPerLine

def hexLines (data : List UInt8) (startAddress : UInt32) (bytesPerLine : ℕ) : List (List UInt8) :=
  recordLines (lineWidth bytesPerLine) data.length startAddress 0xFFFF data ++ [eofLine]

theorem lineWidth_bounds (bytesPerLine : ℕ) :
    0 < lineWidth bytesPerLine ∧ lineWidth bytesPerLine ≤ 255 := by
  unfold lineWidth
  split_ifs <;> omega

variable {σ : Type} (sink : IntelHexWriteFn σ)

/-- Hand lines to a sink up to the first one that it does not take. -/
def sinkLines : List (List UInt8) → σ → Bool × σ
  | [], c => (true, c)
  | line :: lines, c =>
    if (sink line c).1 then sinkLines lines (sink line c).2 else (false, (sink line c).2)

theorem sinkLines_append (lines lines' : List (List UInt8)) (c : σ) :
    sinkLines sink (lines ++ lines') c =
    if (sinkLines sink lines c).1 then sinkLines sink lines' (sinkLines sink lines c).2
    else (false, (sinkLines sink lines c).2) := by
  induction lines generalizing c with
  | nil => rfl
  | cons line lines ih =>
    rw [List.cons_append, sinkLines, sinkLines]
    by_cases h : (sink line c).1 = true
    · rw [if_pos h, if_pos h]
      exact ih _
    · rw [if_neg h, if_neg h]
      rfl

theorem sink_baseLine (absAddr : UInt32) (curUpper : UInt16) (c : σ) :
    (if (absAddr >>> 16).toUInt16 ≠ curUpper then
        emitRecord sink 2 0 ihexTypeExtLinear
          [((absAddr >>> 16).toUInt16 >>> 8).toUInt8, (absAddr >>> 16).toUInt16.toUInt8] c
      else (true, c)) =
      sinkLines sink (if upperOf absAddr ≠ curUpper then
        [baseLine (upperOf absAddr)] else []) c := by
  unfold upperOf
  by_cases hu : (absAddr >>> 16).toUInt16 ≠ curUpper
  · rw [if_pos hu, if_pos hu, sinkLines, sinkLines]
    unfold emitRecord baseLine
    cases h : (sink (recordLine 2 0 ihexTypeExtLinear
      [((absAddr >>> 16).toUInt16 >>> 8).toUInt8, (absAddr >>> 16).toUInt16.toUInt8]) c).1 with
    | true => exact Prod.ext h rfl
    | false => exact Prod.ext h rfl
  · rw [if_neg hu, if_neg hu]
    rfl

theorem writeRecords_eq (bytesPerLine fuel : ℕ) (absAddr : UInt32) (curUpper : UInt16)
    (data : List UInt8) (c : σ) :
    writeRecords sink bytesPerLine fuel absAddr curUpper data c =
      sinkLines sink (recordLines bytesPerLine fuel absAddr curUpper data) c := by
  induction fuel generalizing absAddr curUpper data c with
  | zero => rfl
  | succ fuel ih =>
    rw [writeRecords, recordLines]
    by_cases hlen : data.length = 0
    · rw [if_pos hlen, if_pos hlen]
      rfl
    · rw [if_neg hlen, if_neg hlen, sinkLines_append]
      dsimp only
      rw [sink_baseLine]
      rcases sinkLines sink (if upperOf absAddr ≠ curUpper then [baseLine (upperOf absAddr)] else
        []) c with ⟨ok, c'⟩
      cases ok with
      | false => rfl
      | true =>
        rw [sinkLines]
        unfold dataLine chunkLength upperOf emitRecord
        dsimp only
        cases h : (sink
          (recordLine (UInt8.ofNat (chunkLength bytesPerLine absAddr data.length)) absAddr.toUInt16
          ihexTypeData data) c').1 with
        | false =>
          unfold chunkLength at h
          dsimp only at h
          rw [h]
          rfl
        | true =>
          unfold chunkLength at h
          dsimp only at h
          rw [h]
          exact ih _ _ _ _

theorem write_eq (data : List UInt8) (startAddress : UInt32) (bytesPerLine : ℕ) (c : σ) :
    write data startAddress bytesPerLine sink c =
      (if (sinkLines sink (hexLines data startAddress bytesPerLine) c).1 then .ok else .errFormat,
        (sinkLines sink (hexLines data startAddress bytesPerLine) c).2) := by
  rw [hexLines, sinkLines_append]
  unfold write lineWidth
  dsimp only
  rw [writeRecords_eq]
  rcases sinkLines sink
    (recordLines (if bytesPerLine = 0 ∨ 255 < bytesPerLine then 16 else bytesPerLine)
    data.length startAddress 0xFFFF data) c with ⟨ok, c'⟩
  cases ok with
  | false => rfl
  | true =>
    unfold emitRecord eofLine
    rw [if_pos rfl, sinkLines, sinkLines]
    cases h : (sink (recordLine 0 0 ihexTypeEof []) c').1 with
    | false => simp
    | true => simp

end Lines

namespace IntelHexImage

variable {w : ℕ} {img img₀ : IntelHexImage}

/-- Every line is parsed without an error, one after the other. -/
def Accepts (w : ℕ) (img : IntelHexImage) (lines : List (List UInt8)) : Prop :=
  ∀ before line after, lines = before ++ line :: after →
    ((img.parseLines w before).parseLine w line).1 = .ok

theorem accepts_nil : img.Accepts w [] := forall_entry_nil

theorem accepts_cons {line : List UInt8} {lines : List (List UInt8)} :
    img.Accepts w (line :: lines) ↔
    (img.parseLine w line).1 = .ok ∧ (img.parseLine w line).2.Accepts w lines := forall_entry_cons

theorem parseLines_append (before after : List (List UInt8)) :
    img.parseLines w (before ++ after) = (img.parseLines w before).parseLines w after :=
  List.foldl_append

theorem accepts_append {before after : List (List UInt8)} : img.Accepts w (before ++ after) ↔
    img.Accepts w before ∧ (img.parseLines w before).Accepts w after := by
  induction before generalizing img with
  | nil => exact ⟨fun h ↦ ⟨accepts_nil, h⟩, fun h ↦ h.2⟩
  | cons line before ih =>
    rw [List.cons_append, accepts_cons, accepts_cons, ih, and_assoc]
    rfl

/-- The image after `done` was stored at `start` of what was the image `img₀`. -/
structure Progress (w : ℕ) (img₀ : IntelHexImage) (start : ℕ) (done : List UInt8)
    (img : IntelHexImage) : Prop where
  data : img.data = overwrite img₀.data start done
  capacity : img.capacity = img₀.capacity
  baseOffset : img.baseOffset = img₀.baseOffset
  eofSeen : img.eofSeen = img₀.eofSeen
  untouched : done = [] → img.any = false
  range : done ≠ [] → img.any = true ∧ img.minOffset = start ∧ img.maxOffset = start + done.length

theorem upperOf_toNat (a : UInt32) : (upperOf a).toNat = a.toNat / 0x10000 := by
  have h := a.toNat_lt
  have h16 : (16 : UInt32).toNat % 32 = 16 := rfl
  rw [upperOf, UInt32.toNat_toUInt16, UInt32.toNat_shiftRight, h16, Nat.shiftRight_eq_div_pow]
  omega

theorem upper_shift (u : UInt16) : (u.toUInt32 <<< 16).toNat = u.toNat * 0x10000 := by
  have h := u.toNat_lt
  have h16 : (16 : UInt32).toNat % 32 = 16 := rfl
  rw [UInt32.toNat_shiftLeft, UInt16.toNat_toUInt32, h16, Nat.shiftLeft_eq]
  omega

section Chunk

variable {bytesPerLine len : ℕ} (absAddr : UInt32) (hpos : 0 < bytesPerLine)
  (hmax : bytesPerLine ≤ 255) (hlen : 0 < len)
include hpos hmax hlen

theorem chunkLength_bounds : 0 < chunkLength bytesPerLine absAddr len ∧
    chunkLength bytesPerLine absAddr len ≤ len ∧ chunkLength bytesPerLine absAddr len ≤ 255 ∧
    absAddr.toNat % 0x10000 + chunkLength bytesPerLine absAddr len ≤ 0x10000 := by
  have hlo : absAddr.toUInt16.toNat = absAddr.toNat % 0x10000 := UInt32.toNat_toUInt16 _
  unfold chunkLength
  rw [hlo]
  dsimp only
  split_ifs <;> omega

end Chunk

theorem word_bytes (upper : UInt16) :
    ((upper >>> 8).toUInt8.toUInt32 <<< 8) ||| upper.toUInt8.toUInt32 = upper.toUInt32 := by
  apply UInt32.toNat_inj.mp
  have h := upper.toNat_lt
  have h8 : (8 : UInt32).toNat % 32 = 8 := rfl
  have h8' : (8 : UInt16).toNat % 16 = 8 := rfl
  rw [UInt32.toNat_or, UInt32.toNat_shiftLeft, UInt8.toNat_toUInt32, UInt8.toNat_toUInt32,
    UInt16.toNat_toUInt8,
    UInt16.toNat_toUInt8, UInt16.toNat_shiftRight, UInt16.toNat_toUInt32, h8, h8',
      Nat.shiftRight_eq_div_pow]
  have hlow : upper.toNat % 2 ^ 8 < 2 ^ 8 := Nat.mod_lt _ (by decide)
  have hfit : (upper.toNat / 2 ^ 8 % 2 ^ 8) <<< 8 % 2 ^ 32 = (upper.toNat / 2 ^ 8) <<< 8 := by
    rw [Nat.shiftLeft_eq, Nat.shiftLeft_eq]
    omega
  rw [hfit, ← Nat.shiftLeft_add_eq_or_of_lt hlow, Nat.shiftLeft_eq]
  omega

theorem parseLine_baseLine (img : IntelHexImage) (upper : UInt16) :
    img.parseLine w (baseLine upper) = (.ok, { img with extBase := upper.toUInt32 <<< 16 }) := by
  have hword : extWord ⟨2, 0, ihexTypeExtLinear, [(upper >>> 8).toUInt8, upper.toUInt8]⟩ =
      upper.toUInt32 :=
    word_bytes upper
  have hcount : (2 : UInt8).toNat ≤ [(upper >>> 8).toUInt8, upper.toUInt8].length := Nat.le_refl 2
  have hparse : parseRecord (baseLine upper) =
      .ok (some ⟨2, 0, ihexTypeExtLinear, [(upper >>> 8).toUInt8, upper.toUInt8]⟩) :=
    parseRecord_recordLine hcount 0 ihexTypeExtLinear
  rw [parseLine, hparse, ← hword]
  rfl

theorem parseLine_eofLine : img.parseLine w eofLine = (.ok, { img with eofSeen := true }) := by
  have hcount : (0 : UInt8).toNat ≤ ([] : List UInt8).length := Nat.le_refl 0
  have hparse : parseRecord eofLine = .ok (some ⟨0, 0, ihexTypeEof, []⟩) :=
    parseRecord_recordLine hcount 0 ihexTypeEof
  rw [parseLine, hparse]
  rfl

theorem parseLine_dataLine (img : IntelHexImage) {bytesPerLine : ℕ} (hpos : 0 < bytesPerLine)
    (hmax : bytesPerLine ≤ 255) (absAddr : UInt32) {data : List UInt8} (hdata : data ≠ []) :
    ∃ r : Record, r.type = ihexTypeData ∧ r.recordAddr.toNat = absAddr.toNat % 0x10000 ∧
      r.byteCount.toNat = chunkLength bytesPerLine absAddr data.length ∧
      r.data = data.take (chunkLength bytesPerLine absAddr data.length) ∧
      img.parseLine w (dataLine bytesPerLine absAddr data) =
        if img.InRange w r then (.ok, img.storeRecord w r) else (.errOverflow, img) := by
  obtain ⟨-, hle, h255, -⟩ := chunkLength_bounds absAddr hpos hmax (List.length_pos_iff.mpr hdata)
  have hcount : (UInt8.ofNat (chunkLength bytesPerLine absAddr data.length)).toNat =
      chunkLength bytesPerLine absAddr data.length := by
    rw [UInt8.toNat_ofNat']
    exact Nat.mod_eq_of_lt (by omega)
  have hparse := parseRecord_recordLine (hcount.symm ▸ hle) absAddr.toUInt16 ihexTypeData
  refine ⟨⟨_, _, _, _⟩, rfl, UInt32.toNat_toUInt16 _, hcount, congrArg (data.take ·) hcount, ?_⟩
  exact parseLine_data_record hparse rfl

theorem Progress.store {start : ℕ} {done chunk : List UInt8} (h : Progress w img₀ start done img)
    (hne : chunk ≠ []) {r : Record} (hoff : img.offset r = start + done.length)
    (hend : img.endOffset w r = start + done.length + chunk.length) (hdata : r.data = chunk) :
    Progress w img₀ start (done ++ chunk) (img.storeRecord w r) := by
  have hlen : 0 < chunk.length := List.length_pos_iff.mpr hne
  refine ⟨?_, h.capacity, h.baseOffset, h.eofSeen, fun hnil ↦ ?_, fun _ ↦ ⟨rfl, ?_, ?_⟩⟩
  · rw [overwrite_append, ← h.data, ← hoff, ← hdata]
    rfl
  · exact absurd (List.append_eq_nil_iff.mp hnil).2 hne
  · unfold storeRecord
    by_cases hd : done = []
    · simp only [h.untouched hd, hoff, hd, List.length_nil, Nat.add_zero,
        Bool.false_eq_true, if_false]
    · obtain ⟨hany, hmin, -⟩ := h.range hd
      simp only [hany, hmin, hoff, if_true]
      exact if_neg (by omega)
  · unfold storeRecord
    rw [List.length_append, ← Nat.add_assoc, ← hend]
    by_cases hd : done = []
    · simp only [h.untouched hd, Bool.false_eq_true, if_false]
    · obtain ⟨hany, -, hmax⟩ := h.range hd
      simp only [hany, hmax, hend, if_true]
      exact if_pos (by omega)

theorem Progress.setBase {start : ℕ} {done : List UInt8} (h : Progress w img₀ start done img)
    (b : UInt32) :
    Progress w img₀ start done { img with extBase := b } :=
  ⟨h.data, h.capacity, h.baseOffset, h.eofSeen, h.untouched, h.range⟩

section Loop

variable {bytesPerLine : ℕ} (hpos : 0 < bytesPerLine) (hmax : bytesPerLine ≤ 255) {start : ℕ}
  (hcap : img₀.capacity < 2 ^ w)
include hpos hmax hcap

theorem Progress.dataLine {done data : List UInt8} (h : Progress w img₀ start done img)
    (hdata : data ≠ []) {absAddr : UInt32}
    (habs : absAddr.toNat = img₀.baseOffset.toNat + start + done.length)
    (hfit : start + done.length + data.length ≤ img₀.capacity)
    (hbase : img.extBase = (upperOf absAddr).toUInt32 <<< 16) :
    (img.parseLine w (dataLine bytesPerLine absAddr data)).1 = .ok ∧
      Progress w img₀ start (done ++ data.take (chunkLength bytesPerLine absAddr data.length))
        (img.parseLine w (dataLine bytesPerLine absAddr data)).2 ∧
      (img.parseLine w (dataLine bytesPerLine absAddr data)).2.extBase = img.extBase := by
  obtain ⟨hchunk, hle, -, -⟩ := chunkLength_bounds absAddr hpos hmax (List.length_pos_iff.mpr hdata)
  obtain ⟨r, -, haddr, hcount, hbytes, hparse⟩ :=
    parseLine_dataLine (w := w) img hpos hmax absAddr hdata
  have hlt := absAddr.toNat_lt
  have hext : img.extBase.toNat = absAddr.toNat / 0x10000 * 0x10000 := by rw [hbase, upper_shift,
    upperOf_toNat]
  have hfits : img.BaseFits := by
    unfold BaseFits
    omega
  have hdaddr : img.dataAddr r = absAddr.toNat := by
    unfold dataAddr
    omega
  have hoff : img.offset r = start + done.length := by
    rw [offset_eq hfits (by rw [hdaddr, h.baseOffset]; omega), hdaddr, h.baseOffset]
    omega
  have hend : img.endOffset w r = start + done.length +
      chunkLength bytesPerLine absAddr data.length := by
    rw [endOffset, hoff, hcount]
    exact Nat.mod_eq_of_lt (by omega)
  have hin : img.InRange w r := by
    rw [inRange_iff hfits, ← offset_eq hfits (by rw [hdaddr, h.baseOffset]; omega), h.baseOffset,
      h.capacity, hdaddr]
    refine ⟨by omega, ?_⟩
    change img.endOffset w r ≤ _
    rw [hend]
    omega
  have hlen : (data.take (chunkLength bytesPerLine absAddr data.length)).length =
      chunkLength bytesPerLine absAddr data.length := by rw [List.length_take, Nat.min_eq_left hle]
  rw [hparse, if_pos hin]
  refine ⟨rfl, h.store (List.length_pos_iff.mp (by omega)) hoff (by rw [hend, hlen]) hbytes, rfl⟩

/-- The record lines of `data` extend what was done before by `data`. The base
that the image has is the one of the next address whenever no base line comes. -/
theorem recordLines_progress (fuel : ℕ) {absAddr : UInt32} {curUpper : UInt16}
    {done data : List UInt8} (hfuel : data.length ≤ fuel) (h : Progress w img₀ start done img)
    (habs : data ≠ [] → absAddr.toNat = img₀.baseOffset.toNat + start + done.length)
    (hspace : img₀.baseOffset.toNat + start + done.length + data.length ≤ 2 ^ 32)
    (hfit : start + done.length + data.length ≤ img₀.capacity)
    (hbase : data ≠ [] → upperOf absAddr = curUpper → img.extBase = curUpper.toUInt32 <<< 16) :
    img.Accepts w (recordLines bytesPerLine fuel absAddr curUpper data) ∧
      Progress w img₀ start (done ++ data)
        (img.parseLines w (recordLines bytesPerLine fuel absAddr curUpper data)) := by
  induction fuel generalizing absAddr curUpper done data img with
  | zero =>
    obtain rfl := List.length_eq_zero_iff.mp (Nat.le_zero.mp hfuel)
    rw [List.append_nil]
    exact ⟨accepts_nil, h⟩
  | succ fuel ih =>
    rw [recordLines]
    by_cases hdata : data = []
    · rw [if_pos (List.length_eq_zero_iff.mpr hdata), hdata, List.append_nil]
      exact ⟨accepts_nil, h⟩
    rw [if_neg (mt List.length_eq_zero_iff.mp hdata)]
    dsimp only
    -- the base line, if there is one, leaves the image with the base of this address
    have hset : ∃ img₁,
        img.Accepts w (if upperOf absAddr ≠ curUpper then [baseLine (upperOf absAddr)] else []) ∧
        img.parseLines w (if upperOf absAddr ≠ curUpper then [baseLine (upperOf absAddr)] else []) =
          img₁ ∧
        Progress w img₀ start done img₁ ∧ img₁.extBase = (upperOf absAddr).toUInt32 <<< 16 := by
      by_cases hu : upperOf absAddr = curUpper
      · rw [if_neg (not_not.mpr hu)]
        exact ⟨img, accepts_nil, rfl, h, hu ▸ hbase hdata hu⟩
      · rw [if_pos hu]
        have hline := parseLine_baseLine (w := w) img (upperOf absAddr)
        refine ⟨_, accepts_cons.mpr ⟨by rw [hline], accepts_nil⟩, rfl, ?_, ?_⟩
        · change Progress w img₀ start done (img.parseLine w _).2
          rw [hline]
          exact h.setBase _
        · change (img.parseLine w _).2.extBase = _
          rw [hline]
    obtain ⟨img₁, hacc, himg₁, h₁, hext⟩ := hset
    have hlt := absAddr.toNat_lt
    obtain ⟨hchunk, hle, h255, hcross⟩ :=
      chunkLength_bounds absAddr hpos hmax (List.length_pos_iff.mpr hdata)
    obtain ⟨hok, h₂, hext₂⟩ := h₁.dataLine hpos hmax hcap hdata (habs hdata) hfit hext
    have hlen : (data.take (chunkLength bytesPerLine absAddr data.length)).length =
        chunkLength bytesPerLine absAddr data.length := by
          rw [List.length_take, Nat.min_eq_left hle]
    have hdrop : (data.drop (chunkLength bytesPerLine absAddr data.length)).length =
        data.length - chunkLength bytesPerLine absAddr data.length := List.length_drop
    generalize chunkLength bytesPerLine absAddr data.length = chunk at *
    have habs' := habs hdata
    have hdone : (done ++ data.take chunk).length = done.length + chunk := by
      rw [List.length_append, hlen]
    have hnext : data.drop chunk ≠ [] → (absAddr + UInt32.ofNat chunk).toNat =
        img₀.baseOffset.toNat + start + (done ++ data.take chunk).length := by
      intro hne
      have hpos' := List.length_pos_iff.mpr hne
      rw [UInt32.toNat_add, UInt32.toNat_ofNat', hdone]
      omega
    have hrest := ih (by omega) h₂ hnext (by omega) (by omega) fun _ _ ↦ hext₂.trans hext
    rw [List.append_assoc, List.take_append_drop] at hrest
    rw [accepts_append, accepts_cons, parseLines_append, himg₁]
    exact ⟨⟨hacc, hok, hrest.1⟩, hrest.2⟩

end Loop

theorem parseLine_monotone (img : IntelHexImage) (line : List UInt8) :
    (img.eofSeen = true → (img.parseLine w line).2.eofSeen = true) ∧
      (img.any = true → (img.parseLine w line).2.any = true ∧
        (img.parseLine w line).2.minOffset ≤ img.minOffset) := by
  unfold parseLine
  cases parseRecord line with
  | error e => exact ⟨id, fun h ↦ ⟨h, Nat.le_refl _⟩⟩
  | ok r =>
    cases r with
    | none => exact ⟨id, fun h ↦ ⟨h, Nat.le_refl _⟩⟩
    | some r =>
      dsimp only
      unfold applyRecord
      split_ifs
      · refine ⟨id, fun h ↦ ⟨rfl, ?_⟩⟩
        simp only [storeRecord, h, if_true]
        split_ifs with hlt
        · exact Nat.le_of_lt hlt
        · exact Nat.le_refl _
      · exact ⟨id, fun h ↦ ⟨h, Nat.le_refl _⟩⟩
      · exact ⟨fun _ ↦ rfl, fun h ↦ ⟨h, Nat.le_refl _⟩⟩
      all_goals exact ⟨id, fun h ↦ ⟨h, Nat.le_refl _⟩⟩

theorem parseLines_monotone (img : IntelHexImage) (lines : List (List UInt8)) :
    (img.eofSeen = true → (img.parseLines w lines).eofSeen = true) ∧
      (img.any = true → (img.parseLines w lines).any = true ∧
        (img.parseLines w lines).minOffset ≤ img.minOffset) := by
  induction lines generalizing img with
  | nil => exact ⟨id, fun h ↦ ⟨h, Nat.le_refl _⟩⟩
  | cons line lines ih =>
    obtain ⟨heof, hany⟩ := @parseLine_monotone w img line
    obtain ⟨heof', hany'⟩ := ih (img.parseLine w line).2
    refine ⟨fun h ↦ heof' (heof h), fun h ↦ ?_⟩
    obtain ⟨ha, hmin⟩ := hany h
    obtain ⟨ha', hmin'⟩ := hany' ha
    exact ⟨ha', Nat.le_trans hmin' hmin⟩

end IntelHexImage

open IntelHexImage

section RoundTrip

def collect : IntelHexWriteFn (List (List UInt8)) := fun line lines ↦ (true, lines ++ [line])

theorem sinkLines_collect (lines c : List (List UInt8)) :
    sinkLines collect lines c = (true, c ++ lines) := by
  induction lines generalizing c with
  | nil => rw [List.append_nil]; rfl
  | cons line lines ih =>
    have hstep : sinkLines collect (line :: lines) c = sinkLines collect lines (c ++ [line]) := rfl
    rw [hstep, ih, List.append_assoc, List.singleton_append]

theorem write_collect (data : List UInt8) (startAddress : UInt32) (bytesPerLine : ℕ) :
    write data startAddress bytesPerLine collect [] =
      (.ok, hexLines data startAddress bytesPerLine) := by
  rw [write_eq, sinkLines_collect]
  rfl

/-- The lines that `data` is written as are parsed back one by one, into an
image that has `data` from the index `start` on. -/
structure RoundTrips (w : ℕ) (img : IntelHexImage) (fill : UInt8) (data : List UInt8)
    (lines : List (List UInt8)) (start : ℕ) : Prop where
  accepted : img.Accepts w lines
  eofSeen : ∀ before after, lines = before ++ after →
    ((img.parseLines w before).eofSeen = true ↔ after = [])
  bytes : ∀ i (hi : i < data.length), (img.parseLines w lines).data (start + i) = data[i]
  fills : ∀ i < img.capacity, ¬(start ≤ i ∧ i < start + data.length) →
    (img.parseLines w lines).data i = fill
  range : data ≠ [] → (img.parseLines w lines).any = true ∧
    (img.parseLines w lines).minOffset = start ∧
    (img.parseLines w lines).maxOffset = start + data.length

theorem parseLines_hexLines {w : ℕ} (img : IntelHexImage) (data : List UInt8)
    (startAddress : UInt32) (bytesPerLine : ℕ) :
    img.parseLines w (hexLines data startAddress bytesPerLine) =
      { img.parseLines w
        (recordLines (lineWidth bytesPerLine) data.length startAddress 0xFFFF data) with
        eofSeen := true } := by
  rw [hexLines, parseLines_append]
  change (IntelHexImage.parseLine w _ eofLine).2 = _
  rw [parseLine_eofLine]

variable {w capacity : ℕ} {baseOffset startAddress : UInt32} {data : List UInt8} (buf : ℕ → UInt8)
  (fill : UInt8) (bytesPerLine : ℕ) (hcap : capacity < 2 ^ w) (hbase : baseOffset ≤ startAddress)
  (hspace : startAddress.toNat + data.length ≤ 2 ^ 32)
  (hfit : startAddress.toNat - baseOffset.toNat + data.length ≤ capacity)
include hcap hbase hspace hfit

/-- Below the last segment of the address space the first line sets the base. -/
theorem recordLines_init (h : data = [] ∨ startAddress.toNat < 0xFFFF0000) :
    (init buf capacity baseOffset fill).Accepts w
        (recordLines (lineWidth bytesPerLine) data.length startAddress 0xFFFF data) ∧
      Progress w (init buf capacity baseOffset fill) (startAddress.toNat - baseOffset.toNat) data
        ((init buf capacity baseOffset fill).parseLines w
          (recordLines (lineWidth bytesPerLine) data.length startAddress 0xFFFF data)) := by
  obtain ⟨hpos, hmax⟩ := lineWidth_bounds bytesPerLine
  have hle := UInt32.le_iff_toNat_le.mp hbase
  have hprog :
      Progress w (init buf capacity baseOffset fill) (startAddress.toNat - baseOffset.toNat) []
      (init buf capacity baseOffset fill) :=
    ⟨overwrite_nil.symm, rfl, rfl, rfl, fun _ ↦ rfl, fun h ↦ absurd rfl h⟩
  have hupper : data ≠ [] → upperOf startAddress = 0xFFFF →
      (init buf capacity baseOffset fill).extBase = (0xFFFF : UInt16).toUInt32 <<< 16 := by
    intro hne hu
    have hlt := h.resolve_left hne
    have hnat : startAddress.toNat / 0x10000 = 0xFFFF := by rw [← upperOf_toNat, hu]; rfl
    omega
  have hstart : (init buf capacity baseOffset fill).baseOffset.toNat +
      (startAddress.toNat - baseOffset.toNat) + ([] : List UInt8).length = startAddress.toNat := by
    change baseOffset.toNat + _ + 0 = _
    omega
  exact recordLines_progress hpos hmax hcap data.length (Nat.le_refl _) hprog (fun _ ↦ hstart.symm)
    (hstart.symm ▸ hspace) hfit hupper

theorem roundTrips_of_lt (h : data = [] ∨ startAddress.toNat < 0xFFFF0000) :
    RoundTrips w (init buf capacity baseOffset fill) fill data
      (hexLines data startAddress bytesPerLine) (startAddress.toNat - baseOffset.toNat) := by
  obtain ⟨hacc, hprog⟩ := recordLines_init buf fill bytesPerLine hcap hbase hspace hfit h
  have hdata : ((init buf capacity baseOffset fill).parseLines w
      (hexLines data startAddress bytesPerLine)).data =
        overwrite (init buf capacity baseOffset fill).data
          (startAddress.toNat - baseOffset.toNat) data := by
    rw [parseLines_hexLines]
    exact hprog.data
  constructor
  · exact accepts_append.mpr ⟨hacc, accepts_cons.mpr ⟨by rw [parseLine_eofLine], accepts_nil⟩⟩
  · intro before after hl
    constructor
    · intro heof
      by_contra hne
      obtain ⟨after, last, rfl⟩ := (List.eq_nil_or_concat after).resolve_left hne
      rw [List.concat_eq_append, ← List.append_assoc] at hl
      obtain ⟨hrec, -⟩ := List.append_inj' hl rfl
      have hlast := (parseLines_monotone (w := w) _ after).1 heof
      rw [← parseLines_append, ← hrec, hprog.eofSeen] at hlast
      cases hlast
    · rintro rfl
      rw [List.append_nil] at hl
      rw [← hl, parseLines_hexLines]
  · intro i hi
    rw [hdata]
    exact overwrite_of_lt hi
  · intro i hi hout
    rw [hdata, overwrite_of_not fun h ↦ hout ⟨h.1, by omega⟩]
    exact if_pos hi
  · intro hne
    rw [parseLines_hexLines]
    exact hprog.range hne

omit hcap hbase hspace hfit in
/-- In the last segment the line of the base is left out, so the first record
lands 0xFFFF0000 too low or nowhere. -/
theorem not_roundTrips_of_ge (hne : data ≠ []) (hge : 0xFFFF0000 ≤ startAddress.toNat) :
    ¬RoundTrips w (init buf capacity baseOffset fill) fill data
      (hexLines data startAddress bytesPerLine) (startAddress.toNat - baseOffset.toNat) := by
  intro h
  obtain ⟨hpos, hmax⟩ := lineWidth_bounds bytesPerLine
  have hlt := startAddress.toNat_lt
  have hupper : upperOf startAddress = 0xFFFF := by
    apply UInt16.toNat_inj.mp
    have hconst : (0xFFFF : UInt16).toNat = 0xFFFF := rfl
    rw [upperOf_toNat, hconst]
    omega
  obtain ⟨n, hn⟩ := Nat.exists_eq_succ_of_ne_zero (mt List.length_eq_zero_iff.mp hne)
  obtain ⟨rest, hlines⟩ : ∃ rest, hexLines data startAddress bytesPerLine =
      dataLine (lineWidth bytesPerLine) startAddress data :: rest := by
    rw [hexLines, hn, recordLines, if_neg (by omega), if_neg (not_not.mpr hupper)]
    exact ⟨_, rfl⟩
  rw [hlines] at h
  obtain ⟨r, -, haddr, -, -, hparse⟩ :=
    parseLine_dataLine (w := w) (init buf capacity baseOffset fill) hpos hmax startAddress hne
  have hok := (accepts_cons.mp h.accepted).1
  have hbase : (init buf capacity baseOffset fill).BaseFits :=
    (by decide : (0 : UInt32).toNat + 0xFFFF < 2 ^ 32)
  by_cases hin : (init buf capacity baseOffset fill).InRange w r
  · rw [if_pos hin] at hparse
    have hlow := ((inRange_iff hbase r).mp hin).1
    have hoff := offset_eq hbase hlow
    have hmin := ((parseLines_monotone (w := w)
      ((init buf capacity baseOffset fill).storeRecord w r) rest).2 rfl).2
    have hrange := (h.range hne).2.1
    have hrun : (init buf capacity baseOffset fill).parseLines w
        (dataLine (lineWidth bytesPerLine) startAddress data :: rest) =
          ((init buf capacity baseOffset fill).storeRecord w r).parseLines w rest := by
      change ((init buf capacity baseOffset fill).parseLine w _).2.parseLines w rest = _
      rw [hparse]
    have hfirst : ((init buf capacity baseOffset fill).storeRecord w r).minOffset =
        (init buf capacity baseOffset fill).offset r := rfl
    have hzero : (init buf capacity baseOffset fill).dataAddr r = r.recordAddr.toNat :=
      Nat.zero_add _
    rw [hrun] at hrange
    rw [hrange, hfirst, hoff, hzero] at hmin
    rw [hzero] at hlow
    change baseOffset.toNat ≤ _ at hlow
    change _ ≤ _ - baseOffset.toNat at hmin
    omega
  · rw [hparse, if_neg hin] at hok
    cases hok

/-- The HEX text of `data` is parsed back to `data` exactly when it does not
start in the last segment of the address space. -/
theorem roundTrips_iff : (write data startAddress bytesPerLine collect []).1 = .ok ∧
    RoundTrips w (init buf capacity baseOffset fill) fill data
      (write data startAddress bytesPerLine collect []).2
      (startAddress.toNat - baseOffset.toNat) ↔ data = [] ∨ startAddress.toNat < 0xFFFF0000 := by
  rw [write_collect]
  constructor
  · rintro ⟨-, h⟩
    by_contra hout
    obtain ⟨hne, hge⟩ := not_or.mp hout
    exact not_roundTrips_of_ge buf fill bytesPerLine hne (Nat.le_of_not_lt hge) h
  · intro h
    exact ⟨rfl, roundTrips_of_lt buf fill bytesPerLine hcap hbase hspace hfit h⟩

end RoundTrip

theorem roundTrips_across_segments :
    (write [0xA1, 0xB2, 0xC3] 0xFFFF 0 collect []).1 = .ok ∧
      RoundTrips 32 (init (fun _ ↦ 0) 0x8010 0x8000 0xFF) 0xFF [0xA1, 0xB2, 0xC3]
        (write [0xA1, 0xB2, 0xC3] 0xFFFF 0 collect []).2
          ((0xFFFF : UInt32).toNat - (0x8000 : UInt32).toNat) ↔
    [0xA1, 0xB2, 0xC3] = ([] : List UInt8) ∨ (0xFFFF : UInt32).toNat < 0xFFFF0000 :=
  roundTrips_iff (fun _ ↦ 0) 0xFF 0 (by decide) (by decide) (by decide) (by decide)

/-- A byte at 0xFFFF0000 is written without the line of its base, and refused by
an image that starts there. -/
theorem last_segment_refused :
    ((init (fun _ ↦ 0) 16 0xFFFF0000 0xFF).parseLine 32
        ((write [0xA1] 0xFFFF0000 16 collect []).2.headD [])).1 = .errOverflow ∧
      ¬((write [0xA1] 0xFFFF0000 16 collect []).1 = .ok ∧
        RoundTrips 32 (init (fun _ ↦ 0) 16 0xFFFF0000 0xFF) 0xFF [0xA1]
          (write [0xA1] 0xFFFF0000 16 collect []).2
          ((0xFFFF0000 : UInt32).toNat - (0xFFFF0000 : UInt32).toNat)) := by
  refine ⟨by decide, fun ⟨_, h⟩ ↦ ?_⟩
  rw [write_collect] at h
  exact not_roundTrips_of_ge (fun _ ↦ 0) 0xFF 16 (List.cons_ne_nil _ _) (by decide) h

end UpdiProgrammer.Hex
