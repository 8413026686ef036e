import UpdiProgrammer.Ui.Worker
import UpdiProgrammer.Hex.Grammar
import UpdiProgrammer.Updi.Identity

namespace UpdiProgrammer.Ui

open Updi Hex IntelHexImage Library.Memory

/-- The bytes that the reader gets, of a file that the storage layer hands out
in these reads. An empty read ends the file. -/
def readBytes (chunks : List (List UInt8)) : List UInt8 :=
  (chunks.takeWhile fun c ↦ !c.isEmpty).flatten

/-- The lines that the reader makes of the bytes `text`, with the first bytes of
a line read already. -/
def splitLines : (line : List UInt8) → (text : List UInt8) → List (List UInt8)
  | line, [] => if line.length = 0 then [] else [line]
  | line, c :: text =>
    if c = 0x0A then if line.length = 0 then splitLines [] text else line :: splitLines [] text
    else if c ≠ 0x0D ∧ line.length < hexLineMax - 1 then splitLines (line ++ [c]) text
    else splitLines line text

def feedLines (img : IntelHexImage) : List (List UInt8) → Bool × IntelHexImage
  | [] => (false, img)
  | line :: lines =>
    if (img.parseLine 32 line).1 ≠ .ok then (true, (img.parseLine 32 line).2)
    else feedLines (img.parseLine 32 line).2 lines

theorem feedLines_iff (img : IntelHexImage) (lines : List (List UInt8)) :
    (feedLines img lines).1 = false ↔ img.Accepts 32 lines := by
  induction lines generalizing img with
  | nil => exact ⟨fun _ ↦ accepts_nil, fun _ ↦ rfl⟩
  | cons line lines ih =>
    rw [feedLines, accepts_cons]
    by_cases h : (img.parseLine 32 line).1 = .ok
    · rw [if_neg (not_not.mpr h), ih]
      exact ⟨fun hrest ↦ ⟨h, hrest⟩, fun hall ↦ hall.2⟩
    · rw [if_pos h]
      exact ⟨fun hfalse ↦ (by cases hfalse), fun hall ↦ absurd hall.1 h⟩

theorem feedLines_image {img : IntelHexImage} {lines : List (List UInt8)}
    (h : img.Accepts 32 lines) :
    (feedLines img lines).2 = img.parseLines 32 lines := by
  induction lines generalizing img with
  | nil => rfl
  | cons line lines ih =>
    obtain ⟨hline, hrest⟩ := accepts_cons.mp h
    rw [feedLines, if_neg (not_not.mpr hline), ih hrest]
    rfl

namespace HexReader

/-- The end of the file, which ends the last line. -/
def finish (r : HexReader) : HexReader := if r.parseError then r else r.endLine

theorem char_error {r : HexReader} (h : r.parseError = true) (c : UInt8) : r.char c = r := by
  rw [char, h]
  rfl

theorem foldl_error {r : HexReader} (h : r.parseError = true) (text : List UInt8) :
    text.foldl char r = r := by
  induction text with
  | nil => rfl
  | cons c text ih => rw [List.foldl_cons, char_error h, ih]

theorem chunks_eq (cs : List (List UInt8)) (r : HexReader) :
    chunks cs r = (readBytes cs).foldl char r := by
  induction cs generalizing r with
  | nil => rfl
  | cons c cs ih =>
    rw [chunks, readBytes]
    by_cases hc : c.length = 0
    · obtain rfl := List.length_eq_zero_iff.mp hc
      rfl
    · have hne : c.isEmpty = false := by
        cases c with
        | nil => exact absurd rfl hc
        | cons b rest => rfl
      rw [if_neg hc, List.takeWhile_cons_of_pos (by rw [hne]; rfl), List.flatten_cons,
        List.foldl_append]
      by_cases he : (c.foldl char r).parseError = true
      · rw [foldl_error he, if_pos he]
      · rw [if_neg he]
        exact ih _

theorem endLine_cons {line : List UInt8} (h : line.length ≠ 0) (img : IntelHexImage) :
    endLine ⟨img, line, false⟩ = if (img.parseLine 32 line).1 ≠ .ok then
      ⟨(img.parseLine 32 line).2, line, true⟩
      else ⟨(img.parseLine 32 line).2, [], false⟩ := if_neg h

theorem finish_foldl (img : IntelHexImage) (line text : List UInt8) :
    let r := finish (text.foldl char ⟨img, line, false⟩)
    (r.parseError, r.img) = feedLines img (splitLines line text) := by
  induction text generalizing img line with
  | nil =>
    rw [List.foldl_nil, splitLines]
    by_cases hl : line.length = 0
    · obtain rfl := List.length_eq_zero_iff.mp hl
      rfl
    · have hfin : finish ⟨img, line, false⟩ = endLine ⟨img, line, false⟩ := rfl
      rw [if_neg hl, feedLines, hfin, endLine_cons hl]
      split_ifs <;> rfl
  | cons c text ih =>
    rw [List.foldl_cons, splitLines]
    by_cases hc : c = 0x0A
    · have hchar : char ⟨img, line, false⟩ c = endLine ⟨img, line, false⟩ := if_pos hc
      rw [if_pos hc, hchar]
      by_cases hl : line.length = 0
      · obtain rfl := List.length_eq_zero_iff.mp hl
        exact ih img []
      · rw [if_neg hl, feedLines, endLine_cons hl]
        by_cases hok : (img.parseLine 32 line).1 = .ok
        · rw [if_neg (not_not.mpr hok), if_neg (not_not.mpr hok)]
          exact ih _ []
        · rw [if_pos hok, if_pos hok, foldl_error rfl]
          rfl
    · rw [if_neg hc]
      by_cases hkeep : c ≠ 0x0D ∧ line.length < hexLineMax - 1
      · have hchar : char ⟨img, line, false⟩ c = ⟨img, line ++ [c], false⟩ :=
          (if_neg hc).trans (if_pos hkeep)
        rw [if_pos hkeep, hchar]
        exact ih img (line ++ [c])
      · have hchar : char ⟨img, line, false⟩ c = ⟨img, line, false⟩ :=
          (if_neg hc).trans (if_neg hkeep)
        rw [if_neg hkeep, hchar]
        exact ih img line

end HexReader

def fileLines (chunks : List (List UInt8)) : List (List UInt8) := splitLines [] (readBytes chunks)

theorem parseHexFile_eq (chunks : List (List UInt8)) (img : IntelHexImage) :
    parseHexFile (some chunks) img =
      if (feedLines img (fileLines chunks)).1 ∨ !(feedLines img (fileLines chunks)).2.any then
        (.error .param, (feedLines img (fileLines chunks)).2)
      else (.ok (), (feedLines img (fileLines chunks)).2) := by
  have h := HexReader.finish_foldl img [] (readBytes chunks)
  rw [← HexReader.chunks_eq] at h
  obtain ⟨herr, himg⟩ := Prod.mk.inj h
  unfold fileLines
  rw [← herr, ← himg]
  rfl

theorem parseHexFile_ok_iff {chunks : List (List UInt8)} {img img' : IntelHexImage} :
    parseHexFile (some chunks) img = (.ok (), img') ↔ img.Accepts 32 (fileLines chunks) ∧
      img' = img.parseLines 32 (fileLines chunks) ∧ img'.any = true := by
  rw [parseHexFile_eq]
  constructor
  · intro h
    split_ifs at h with hbad
    · cases h
    · obtain ⟨herr, hany⟩ := not_or.mp hbad
      have hacc := (feedLines_iff img _).mp (Bool.eq_false_iff.mpr herr)
      obtain ⟨-, himg⟩ := Prod.mk.inj h
      rw [feedLines_image hacc] at himg hany
      refine ⟨hacc, himg.symm, ?_⟩
      rw [← himg]
      simpa using hany
  · rintro ⟨hacc, rfl, hany⟩
    rw [(feedLines_iff img _).mpr hacc, feedLines_image hacc, hany]
    rfl

section Written

/-- A line of the writer that fits into the line buffer of the reader. -/
def Written (line : List UInt8) : Prop :=
  ∃ count addr type data, line = recordLine count addr type data ∧ count.toNat ≤ data.length ∧
    count.toNat ≤ 144

def dropEnd (line : List UInt8) : List UInt8 := line.dropLast.dropLast

theorem nib_ne_end (v : UInt8) : nib v ≠ 0x0A ∧ nib v ≠ 0x0D := by
  have hall : ∀ n < 16, nib (UInt8.ofNat n) ≠ 0x0A ∧ nib (UInt8.ofNat n) ≠ 0x0D := by decide
  have hlt : (v &&& 0x0F).toNat < 16 := by
    rw [low_nibble]
    exact Nat.mod_lt _ (by decide)
  have hnib : nib v = nib (v &&& 0x0F) := by
    unfold nib
    rw [UInt8.and_assoc, UInt8.and_self]
  have h := hall _ hlt
  rwa [UInt8.ofNat_toNat, ← hnib] at h

theorem recordText_ne_end (count : UInt8) (addr : UInt16) (type : UInt8) (data : List UInt8) :
    ∀ c ∈ recordText count addr type data, c ≠ 0x0A ∧ c ≠ 0x0D := by
  have hbyte : ∀ v : UInt8, ∀ c ∈ putByte v, c ≠ 0x0A ∧ c ≠ 0x0D := by
    intro v c hc
    rcases List.mem_cons.mp hc with rfl | hc
    · exact nib_ne_end _
    · rw [List.mem_singleton.mp hc]
      exact nib_ne_end _
  intro c hc
  unfold recordText at hc
  rcases List.mem_append.mp hc with hc | hc
  · rcases List.mem_append.mp hc with hc | hc
    · rw [List.mem_singleton.mp hc]
      decide
    · obtain ⟨v, -, hv⟩ := List.mem_flatMap.mp hc
      exact hbyte v c hv
  · exact hbyte _ c hc

theorem recordText_length {count : UInt8} {data : List UInt8} (h : count.toNat ≤ data.length)
    (addr : UInt16) (type : UInt8) :
    (recordText count addr type data).length = 2 * count.toNat + 11 := by
  have hputs :
      ([count, (addr >>> 8).toUInt8, addr.toUInt8, type] ++ data.take count.toNat).flatMap putByte =
      putByte count ++ (putByte (addr >>> 8).toUInt8 ++ (putByte addr.toUInt8 ++ (putByte type ++
        (data.take count.toNat).flatMap putByte))) := rfl
  unfold recordText
  simp only [hputs, List.length_append, putBytes_length, List.length_take, Nat.min_eq_left h]
  simp only [List.length_cons, List.length_nil, putByte]
  omega

/-- The reader cuts the text at the end of a line, and drops the CR before it. -/
theorem splitLines_text {text : List UInt8} (h : ∀ c ∈ text, c ≠ 0x0A ∧ c ≠ 0x0D)
    (rest line : List UInt8) (hlen : line.length + text.length ≤ hexLineMax - 1)
    (hpos : 0 < line.length + text.length) :
    splitLines line (text ++ [0x0D, 0x0A] ++ rest) = (line ++ text) :: splitLines [] rest := by
  induction text generalizing line with
  | nil =>
    have hline : line.length ≠ 0 := Nat.ne_of_gt hpos
    rw [List.append_nil]
    change splitLines line (0x0D :: 0x0A :: rest) = _
    rw [splitLines, if_neg (by decide), if_neg fun h ↦ absurd rfl h.1, splitLines,
      if_pos rfl, if_neg hline]
  | cons c text ih =>
    obtain ⟨hlf, hcr⟩ := h c List.mem_cons_self
    rw [List.length_cons] at hlen
    have hstep : splitLines line (c :: text ++ [0x0D, 0x0A] ++ rest) =
        splitLines (line ++ [c]) (text ++ [0x0D, 0x0A] ++ rest) := by
      change splitLines line (c :: (text ++ [0x0D, 0x0A] ++ rest)) = _
      rw [splitLines, if_neg hlf, if_pos ⟨hcr, by omega⟩]
    have hcat : (line ++ [c]).length = line.length + 1 := by rw [List.length_append,
      List.length_singleton]
    rw [hstep, ih (fun b hb ↦ h b (List.mem_cons_of_mem c hb)) (line ++ [c]) (by omega) (by omega),
      List.append_assoc, List.singleton_append]

theorem Written.dropEnd_eq {line : List UInt8} (h : Written line) :
    line = dropEnd line ++ [0x0D, 0x0A] ∧ (∀ c ∈ dropEnd line, c ≠ 0x0A ∧ c ≠ 0x0D) ∧
      0 < (dropEnd line).length ∧ (dropEnd line).length ≤ hexLineMax - 1 ∧
      parseRecord (dropEnd line) = parseRecord line := by
  obtain ⟨count, addr, type, data, rfl, hdata, hmax⟩ := h
  have hdrop : dropEnd (recordLine count addr type data) = recordText count addr type data := by
    have hcat : recordLine count addr type data = recordText count addr type data ++
        [0x0D] ++ [0x0A] := by
      rw [recordLine_eq, List.append_assoc]
      rfl
    rw [dropEnd, hcat, List.dropLast_concat, List.dropLast_concat]
  have hlen := recordText_length hdata addr type
  have hlimit : hexLineMax - 1 = 299 := rfl
  have hparse := parseRecord_recordText hdata addr type []
  rw [List.append_nil] at hparse
  rw [hdrop, hparse, parseRecord_recordLine hdata]
  refine ⟨recordLine_eq _ _ _ _, recordText_ne_end _ _ _ _, by omega, by omega, rfl⟩

theorem splitLines_written {lines : List (List UInt8)} (h : ∀ line ∈ lines, Written line) :
    splitLines [] lines.flatten = lines.map dropEnd := by
  induction lines with
  | nil => rfl
  | cons line lines ih =>
    obtain ⟨hcat, hne, hpos, hmax, -⟩ := (h line List.mem_cons_self).dropEnd_eq
    have hsplit := splitLines_text hne lines.flatten [] (by simpa using hmax) (by simpa using hpos)
    rw [← hcat, List.nil_append] at hsplit
    rw [List.flatten_cons, hsplit, ih fun l hl ↦ h l (List.mem_cons_of_mem line hl), List.map_cons]

theorem readBytes_of_ne_nil {chunks : List (List UInt8)} (h : ∀ c ∈ chunks, c ≠ []) :
    readBytes chunks = chunks.flatten := by
  have htake : chunks.takeWhile (fun c ↦ !c.isEmpty) = chunks := by
    refine List.takeWhile_eq_self_iff.mpr fun c hc ↦ ?_
    cases c with
    | nil => exact absurd rfl (h [] hc)
    | cons b rest => rfl
  rw [readBytes, htake]

theorem parseLine_dropEnd {line : List UInt8} (h : Written line) (w : ℕ) (img : IntelHexImage) :
    img.parseLine w (dropEnd line) = img.parseLine w line := by
  unfold parseLine
  rw [h.dropEnd_eq.2.2.2.2]

theorem parseLines_dropEnd {lines : List (List UInt8)} (h : ∀ line ∈ lines, Written line) (w : ℕ)
    (img : IntelHexImage) : img.parseLines w (lines.map dropEnd) = img.parseLines w lines ∧
      (img.Accepts w (lines.map dropEnd) ↔ img.Accepts w lines) := by
  induction lines generalizing img with
  | nil => exact ⟨rfl, Iff.rfl⟩
  | cons line lines ih =>
    have hline := parseLine_dropEnd (h line List.mem_cons_self) w img
    obtain ⟨hparse, hacc⟩ :=
      ih (fun l hl ↦ h l (List.mem_cons_of_mem line hl)) (img.parseLine w line).2
    rw [List.map_cons, accepts_cons, accepts_cons, hline]
    refine ⟨?_, and_congr_right fun _ ↦ hacc⟩
    change (img.parseLine w (dropEnd line)).2.parseLines w (lines.map dropEnd) = _
    rw [hline, hparse]
    rfl

theorem written_recordLines {bytesPerLine : ℕ} (hpos : 0 < bytesPerLine) (hmax : bytesPerLine ≤ 144)
    (fuel : ℕ) (absAddr : UInt32) (curUpper : UInt16) (data : List UInt8) :
    ∀ line ∈ recordLines bytesPerLine fuel absAddr curUpper data, Written line := by
  induction fuel generalizing absAddr curUpper data with
  | zero => exact List.forall_mem_nil _
  | succ fuel ih =>
    rw [recordLines]
    by_cases hlen : data.length = 0
    · rw [if_pos hlen]
      exact List.forall_mem_nil _
    rw [if_neg hlen]
    intro line hline
    rcases List.mem_append.mp hline with hline | hline
    · by_cases hu : upperOf absAddr ≠ curUpper
      · rw [if_pos hu, List.mem_singleton] at hline
        exact ⟨2, 0, _, _, hline, Nat.le_refl 2, by decide⟩
      · rw [if_neg hu] at hline
        exact absurd hline List.not_mem_nil
    · rcases List.mem_cons.mp hline with hline | hline
      · obtain ⟨-, hle, -, -⟩ :=
          chunkLength_bounds absAddr hpos (by omega) (Nat.pos_of_ne_zero hlen)
        have hwidth : chunkLength bytesPerLine absAddr data.length ≤ bytesPerLine := by
          unfold chunkLength
          dsimp only
          split_ifs <;> omega
        have hcount : (UInt8.ofNat (chunkLength bytesPerLine absAddr data.length)).toNat =
            chunkLength bytesPerLine absAddr data.length := by
          rw [UInt8.toNat_ofNat']
          exact Nat.mod_eq_of_lt (by omega)
        exact ⟨_, _, _, _, hline, by rw [hcount]; exact hle, by rw [hcount]; omega⟩
      · exact ih _ _ _ line hline

theorem written_hexLines {bytesPerLine : ℕ} (hmax : lineWidth bytesPerLine ≤ 144)
    (data : List UInt8) (startAddress : UInt32) :
    ∀ line ∈ hexLines data startAddress bytesPerLine, Written line := by
  intro line hline
  rcases List.mem_append.mp hline with hline | hline
  · exact written_recordLines (lineWidth_bounds bytesPerLine).1 hmax _ _ _ _ line hline
  · exact ⟨0, 0, _, _, List.mem_singleton.mp hline, Nat.le_refl 0, by decide⟩

end Written

section Complete

noncomputable def recordType (line : List UInt8) : Option UInt8 := (lineRecord line).map Record.type

theorem recordType_eq (line : List UInt8) :
    recordType line = (parseRecord line).toOption.join.map Record.type := by
  rw [recordType, lineRecord_eq]

theorem recordType_iff {line : List UInt8} {type : UInt8} :
    recordType line = some type ↔ ∃ r tail, RecordIn line r tail ∧ r.type = type := by
  rw [recordType, Option.map_eq_some_iff]
  simp only [lineRecord_eq_some_iff, exists_and_right]

/-- An EOF record was parsed and no data record after it changed the image. -/
def Complete (img : IntelHexImage) (lines : List (List UInt8)) : Prop :=
  ∃ before eof after, lines = before ++ eof :: after ∧ recordType eof = some ihexTypeEof ∧
    ∀ mid line rest, after = mid ++ line :: rest → recordType line = some ihexTypeData →
      ((img.parseLines 32 (before ++ eof :: mid)).parseLine 32 line).2 =
        img.parseLines 32 (before ++ eof :: mid)

theorem parseLine_any {w : ℕ} {img : IntelHexImage} {line : List UInt8}
    (h : (img.parseLine w line).1 = .ok) :
    (img.parseLine w line).2.any = true ↔ img.any = true ∨ recordType line = some ihexTypeData := by
  unfold parseLine at h ⊢
  rw [recordType_eq]
  cases hp : parseRecord line with
  | error e => simp
  | ok r =>
    cases r with
    | none => simp
    | some r =>
      rw [hp] at h
      dsimp only at h ⊢
      unfold applyRecord at h ⊢
      split_ifs at h ⊢ with htype hin
      · exact ⟨fun _ ↦ .inr (congrArg some htype), fun _ ↦ rfl⟩
      all_goals simp [htype]

theorem parseLines_any {w : ℕ} {img : IntelHexImage} {lines : List (List UInt8)}
    (h : img.Accepts w lines) :
    (img.parseLines w lines).any = true ↔
      img.any = true ∨ ∃ line ∈ lines, recordType line = some ihexTypeData := by
  induction lines generalizing img with
  | nil => simp [parseLines]
  | cons line lines ih =>
    obtain ⟨hline, hrest⟩ := accepts_cons.mp h
    have hstep : img.parseLines w (line :: lines) = (img.parseLine w line).2.parseLines w lines :=
      rfl
    rw [hstep, ih hrest, parseLine_any hline, or_assoc, List.exists_mem_cons_iff]

theorem parseHexFile_accepted_iff {chunks : List (List UInt8)} {img : IntelHexImage}
    (hany : img.any = false) :
    (parseHexFile (some chunks) img).1 = .ok () ↔ img.Accepts 32 (fileLines chunks) ∧
      ∃ line ∈ fileLines chunks, recordType line = some ihexTypeData := by
  have hiff : (parseHexFile (some chunks) img).1 = .ok () ↔
      ∃ img', parseHexFile (some chunks) img = (.ok (), img') :=
    ⟨fun h ↦ ⟨_, Prod.ext h rfl⟩, fun ⟨_, h⟩ ↦ congrArg Prod.fst h⟩
  rw [hiff]
  constructor
  · rintro ⟨img', h⟩
    obtain ⟨hacc, rfl, hsome⟩ := parseHexFile_ok_iff.mp h
    refine ⟨hacc, ((parseLines_any hacc).mp hsome).resolve_left ?_⟩
    rw [hany]
    exact Bool.false_ne_true
  · rintro ⟨hacc, hdata⟩
    exact ⟨_, parseHexFile_ok_iff.mpr ⟨hacc, rfl, (parseLines_any hacc).mpr (.inr hdata)⟩⟩

theorem fileLines_written {chunks lines : List (List UInt8)} (hchunks : ∀ c ∈ chunks, c ≠ [])
    (hfile : chunks.flatten = lines.flatten) (h : ∀ line ∈ lines, Written line) :
    fileLines chunks = lines.map dropEnd := by
  rw [fileLines, readBytes_of_ne_nil hchunks, hfile, splitLines_written h]

theorem recordType_dropEnd {line : List UInt8} (h : Written line) :
    recordType (dropEnd line) = recordType line := by
  rw [recordType_eq, recordType_eq, h.dropEnd_eq.2.2.2.2]

/-- The first lines of what was written for an image in the buffer, less the EOF
record, are taken as soon as there is a data record among them. -/
theorem prefix_accepted_iff (buf : ℕ → UInt8) {capacity : ℕ} (hcap : capacity < 2 ^ 32)
    (fill : UInt8) {data : List UInt8} {startAddress : UInt32} {bytesPerLine : ℕ}
    (hwidth : lineWidth bytesPerLine ≤ 144) (hstart : startAddress.toNat < 0xFFFF0000)
    (hfit : startAddress.toNat + data.length ≤ capacity) {lines rest : List (List UInt8)}
    (hlines : hexLines data startAddress bytesPerLine = lines ++ rest) (hrest : rest ≠ [])
    {chunks : List (List UInt8)} (hchunks : ∀ c ∈ chunks, c ≠ [])
    (hfile : chunks.flatten = lines.flatten) :
    (parseHexFile (some chunks) (init buf capacity 0 fill)).1 = .ok () ↔
      ∃ line ∈ lines, recordType line = some ihexTypeData := by
  have hwritten : ∀ line ∈ lines, Written line := by
    intro line hline
    refine written_hexLines hwidth data startAddress line ?_
    rw [hlines]
    exact List.mem_append_left rest hline
  have hle : (0 : UInt32) ≤ startAddress := UInt32.le_iff_toNat_le.mpr (Nat.zero_le _)
  obtain ⟨hacc, -⟩ := recordLines_init buf fill bytesPerLine hcap hle (by omega) hfit (.inr hstart)
  have hprefix : (init buf capacity 0 fill).Accepts 32 lines := by
    obtain ⟨rest, last, rfl⟩ := (List.eq_nil_or_concat rest).resolve_left hrest
    rw [List.concat_eq_append, ← List.append_assoc] at hlines
    obtain ⟨hrec, -⟩ := List.append_inj' hlines rfl
    rw [hrec] at hacc
    exact (accepts_append.mp hacc).1
  rw [parseHexFile_accepted_iff rfl, fileLines_written hchunks hfile hwritten]
  obtain ⟨-, haccept⟩ := parseLines_dropEnd hwritten 32 (init buf capacity 0 fill)
  constructor
  · rintro ⟨-, text, htext, htype⟩
    obtain ⟨line, hline, rfl⟩ := List.mem_map.mp htext
    exact ⟨line, hline, (recordType_dropEnd (hwritten line hline)).symm.trans htype⟩
  · rintro ⟨line, hline, htype⟩
    refine ⟨haccept.mpr hprefix, dropEnd line, List.mem_map_of_mem hline, ?_⟩
    exact (recordType_dropEnd (hwritten line hline)).trans htype

/-- What the parser takes of a line: white space, or a record whose data is in range. -/
def TakesLine (img : IntelHexImage) (line : List UInt8) : Prop :=
  charAt (line.dropWhile isSpace) 0 = 0 ∨ ∃ r tail, RecordIn line r tail ∧
    r.Taken (img.InRange 32 r)

theorem takesLine_iff {img : IntelHexImage} {line : List UInt8} :
    TakesLine img line ↔ (img.parseLine 32 line).1 = .ok := by
  rw [parseLine_ok_iff, parseRecord_none_iff]
  simp only [TakesLine, parseRecord_recordIn, exists_and_right]

/-- The image has the bytes of a data record already, in the range that it tracks. -/
def Repeats (img : IntelHexImage) (r : Record) : Prop :=
  img.any = true ∧ img.minOffset ≤ img.offset r ∧ img.endOffset 32 r ≤ img.maxOffset ∧
    ∀ k (h : k < r.data.length), img.data (img.offset r + k) = r.data[k]

theorem storeRecord_eq_self_iff {img : IntelHexImage} {r : Record} :
    img.storeRecord 32 r = img ↔ Repeats img r := by
  constructor
  · intro h
    have hany : img.any = true := (congrArg IntelHexImage.any h).symm
    have hmin := congrArg minOffset h
    have hmax := congrArg maxOffset h
    simp only [storeRecord, hany, if_true] at hmin hmax
    refine ⟨hany, ?_, ?_, fun k hk ↦ ?_⟩
    · split_ifs at hmin <;> omega
    · split_ifs at hmax <;> omega
    · have hdata := congrFun (congrArg data h) (img.offset r + k)
      rw [← hdata]
      exact overwrite_of_lt hk
  · rintro ⟨hany, hmin, hmax, hdata⟩
    have hstored : overwrite img.data (img.offset r) r.data = img.data := by
      funext i
      by_cases hi : img.offset r ≤ i ∧ i - img.offset r < r.data.length
      · obtain ⟨k, rfl⟩ := Nat.exists_eq_add_of_le hi.1
        have hk : k < r.data.length := by omega
        rw [overwrite_of_lt hk, hdata k hk]
      · exact overwrite_of_not hi
    unfold storeRecord
    rw [hstored, hany, if_pos rfl, if_pos rfl, if_neg (Nat.not_lt.mpr hmin),
      if_neg (Nat.not_lt.mpr hmax), ← hany]

/-- An EOF record stands in a line, and behind it only data that the image has already. -/
def Finished (img : IntelHexImage) (lines : List (List UInt8)) : Prop :=
  ∃ before eof after, lines = before ++ eof :: after ∧
    (∃ r tail, RecordIn eof r tail ∧ r.type = ihexTypeEof) ∧
    ∀ mid line rest, after = mid ++ line :: rest → ∀ r tail, RecordIn line r tail →
      r.type = ihexTypeData →
      Repeats (img.parseLines 32 (before ++ eof :: mid)) r

theorem complete_iff_finished {img : IntelHexImage} {lines : List (List UInt8)}
    (h : img.Accepts 32 lines) :
    Complete img lines ↔ Finished img lines := by
  unfold Complete Finished
  simp only [recordType_iff]
  refine exists_congr fun before ↦ exists_congr fun eof ↦ exists_congr fun after ↦
    and_congr_right fun hlines ↦
    and_congr_right fun _ ↦ forall_congr' fun mid ↦ forall_congr' fun line ↦
      forall_congr' fun rest ↦
      forall_congr' fun hafter ↦ ?_
  have hok := h (before ++ eof :: mid) line rest
    (by rw [hlines, hafter, List.append_assoc, List.cons_append])
  have hkept {r : Record} {tail : List UInt8} (hin : RecordIn line r tail)
      (ht : r.type = ihexTypeData) :
      ((img.parseLines 32 (before ++ eof :: mid)).parseLine 32 line).2 =
        img.parseLines 32 (before ++ eof :: mid) ↔
        Repeats (img.parseLines 32 (before ++ eof :: mid)) r := by
    rw [parseLine_data_record (parseRecord_recordIn.mpr ⟨tail, hin⟩) ht] at hok ⊢
    split_ifs at hok ⊢
    exact storeRecord_eq_self_iff
  constructor
  · intro hsame r tail hin ht
    exact (hkept hin ht).mp (hsame ⟨r, tail, hin, ht⟩)
  · rintro hsame ⟨r, tail, hin, ht⟩
    exact (hkept hin ht).mpr (hsame r tail hin ht)

/-- The reader takes no unfinished file just in case a line of the file is not
taken, or none holds data, or the file is finished: it does not look for the EOF
record. So what is cut off behind a line of a written file is refused only if no
data record is left. -/
theorem taken_complete_iff (buf : ℕ → UInt8) {capacity : ℕ} (hcap : capacity < 2 ^ 32)
    (fill : UInt8) :
    (∀ chunks, ((parseHexFile (some chunks) (init buf capacity 0 fill)).1 = .ok () →
        Complete (init buf capacity 0 fill) (fileLines chunks)) ↔
      (∃ before line after, fileLines chunks = before ++ line :: after ∧
          ¬TakesLine ((init buf capacity 0 fill).parseLines 32 before) line) ∨
        (∀ line ∈ fileLines chunks, recordType line ≠ some ihexTypeData) ∨
        Finished (init buf capacity 0 fill) (fileLines chunks)) ∧
    ∀ data startAddress bytesPerLine, lineWidth bytesPerLine ≤ 144 →
      startAddress.toNat < 0xFFFF0000 →
      startAddress.toNat + data.length ≤ capacity → ∀ lines rest,
      (write data startAddress bytesPerLine collect []).2 = lines ++ rest → rest ≠ [] →
      ∀ chunks, (∀ c ∈ chunks, c ≠ []) → chunks.flatten = lines.flatten →
        ((parseHexFile (some chunks) (init buf capacity 0 fill)).1 ≠ .ok () ↔
          ∀ line ∈ lines, recordType line ≠ some ihexTypeData) := by
  constructor
  · intro chunks
    have hrefused : (∃ before line after, fileLines chunks = before ++ line :: after ∧
        ¬TakesLine ((init buf capacity 0 fill).parseLines 32 before) line) ↔
        ¬(init buf capacity 0 fill).Accepts 32 (fileLines chunks) := by
      simp only [Accepts, takesLine_iff, not_forall, exists_prop]
    rw [parseHexFile_accepted_iff rfl, hrefused]
    constructor
    · intro h
      by_cases hacc : (init buf capacity 0 fill).Accepts 32 (fileLines chunks)
      · by_cases hdata : ∃ line ∈ fileLines chunks, recordType line = some ihexTypeData
        · exact .inr (.inr ((complete_iff_finished hacc).mp (h ⟨hacc, hdata⟩)))
        · exact .inr (.inl fun line hline htype ↦ hdata ⟨line, hline, htype⟩)
      · exact .inl hacc
    · rintro (hrej | hnone | hfinished) ⟨hacc, line, hline, htype⟩
      · exact absurd hacc hrej
      · exact absurd htype (hnone line hline)
      · exact (complete_iff_finished hacc).mpr hfinished
  · intro data startAddress bytesPerLine hwidth hstart hfit lines rest hlines hrest
      chunks hchunks hfile
    rw [write_collect] at hlines
    rw [Ne, prefix_accepted_iff buf hcap fill hwidth hstart hfit hlines hrest hchunks hfile]
    exact ⟨fun h line hline htype ↦ h ⟨line, hline, htype⟩, fun h ⟨line, hline, htype⟩ ↦
      h line hline htype⟩

/-- The written file of one byte without its last line, the EOF record. -/
def halfFile : List (List UInt8) := [((hexLines [0x1E] 0 32).take 2).flatten]

/-- The written file of one byte, and the same without its last line. -/
theorem written_byte_taken :
    ((parseHexFile (some [(hexLines [0x1E] 0 32).flatten]) (init (fun _ ↦ 0xFF) 0x1000 0 0xFF)).1 =
      .ok () →
      Complete (init (fun _ ↦ 0xFF) 0x1000 0 0xFF) (fileLines [(hexLines [0x1E] 0 32).flatten])) ∧
    ((parseHexFile (some halfFile) (init (fun _ ↦ 0xFF) 0x1000 0 0xFF)).1 ≠ .ok () ↔
      ∀ line ∈ (hexLines [0x1E] 0 32).take 2, recordType line ≠ some ihexTypeData) := by
  obtain ⟨hcomplete, hprefix⟩ := @taken_complete_iff (fun _ ↦ 0xFF) 0x1000 (by decide) 0xFF
  have hlines :
      fileLines [(hexLines [0x1E] 0 32).flatten] = (hexLines [0x1E] 0 32).map dropEnd := by
    decide +kernel
  constructor
  · refine (hcomplete _).mpr
      (.inr (.inr ⟨((hexLines [0x1E] 0 32).map dropEnd).take 2, dropEnd eofLine, [], ?_, ?_, ?_⟩))
    · rw [hlines]
      decide +kernel
    · rw [← recordType_iff, recordType_eq]
      decide
    · intro mid line rest hnil
      exact absurd hnil.symm (List.append_ne_nil_of_right_ne_nil mid (List.cons_ne_nil line rest))
  · exact hprefix [0x1E] 0 32 (by decide) (by decide) (by decide) _ ((hexLines [0x1E] 0 32).drop 2)
      (by rw [write_collect, List.take_append_drop]) (by decide +kernel) halfFile
        (by decide +kernel) (List.append_nil _)

/-- A file that was cut off is flashed, with a chip erase, and reported as a success. -/
theorem half_file_flashed :
    (parseHexFile (some halfFile) (init (fun _ ↦ 0xFF) 0x1000 0 0xFF)).1 = .ok () ∧
      ¬Complete (init (fun _ ↦ 0xFF) 0x1000 0 0xFF) (fileLines halfFile) ∧
      (Worker.opFlash (answeringAttiny412 0x30).recorded ⟨true, true, some halfFile, true,
        fun _ l ↦ l.length⟩ ⟨UpdiApp.alloc, 0, []⟩).1 = .ok () ∧
      (Worker.opFlash (answeringAttiny412 0x30).recorded ⟨true, true, some halfFile, true,
        fun _ l ↦ l.length⟩
        ⟨UpdiApp.alloc, 0, []⟩).2.ctx.2.contains (.sent [nvmDescP0.cmdChipErase] true) = true := by
  refine ⟨by decide +kernel, ?_, by decide +kernel, by decide +kernel⟩
  rintro ⟨before, eof, after, hlines, heof, -⟩
  have hall : (fileLines halfFile).all fun line ↦
      (parseRecord line).toOption.join.map Record.type != some ihexTypeEof := by
    decide +kernel
  have hmem : eof ∈ fileLines halfFile := by
    rw [hlines]
    exact List.mem_append_right before List.mem_cons_self
  rw [recordType_eq] at heof
  exact absurd heof (bne_iff_ne.mp (List.all_eq_true.mp hall eof hmem))

end Complete

end UpdiProgrammer.Ui
