import UpdiProgrammer.Ui.HexFile
import UpdiProgrammer.Ui.WorkerTrace

namespace UpdiProgrammer.Ui

open Updi UpdiLink UpdiNvm UpdiSession Hex IntelHexImage Library.Program Prog Library.Memory

variable {σ : Type} {t : UpdiTransport σ}

theorem recvAll_length {len : ℕ} {s s' : LinkState σ} {buf : List UInt8}
    (h : recvAll t len s = (.ok buf, s')) :
    buf.length = len := by
  obtain ⟨buf', s₁, -, h⟩ := bind_eq_ok.mp h
  split_ifs at h with hlen
  · cases h
    exact hlen
  · cases h

theorem readData_length {address size : ℕ} {s s' : LinkState σ} {buf : List UInt8}
    (h : readData t address size s = (.ok buf, s')) : buf.length = size := by
  have hload {s : LinkState σ} (h : ldPtrInc t size s = (.ok buf, s')) : buf.length = size := by
    obtain ⟨-, s₁, -, h⟩ := bind_eq_ok.mp h
    exact recvAll_length h
  unfold readData at h
  by_cases hmax : maxRepeatSize < size
  · rw [if_pos hmax] at h
    cases h
  · rw [if_neg hmax] at h
    obtain ⟨-, s₁, -, h⟩ := bind_eq_ok.mp h
    by_cases hone : 1 < size
    · simp only [if_pos hone] at h
      obtain ⟨-, s₂, -, h⟩ := bind_eq_ok.mp h
      exact hload h
    · simp only [if_neg hone] at h
      exact hload h

theorem readChunks_length {fuel address size : ℕ} (hfuel : size ≤ fuel) {s s' : LinkState σ}
    {buf : List UInt8} (h : readChunks t fuel address size s = (.ok buf, s')) :
    buf.length = size := by
  induction fuel generalizing address size s buf with
  | zero =>
    cases h
    exact (Nat.le_zero.mp hfuel).symm
  | succ fuel ih =>
    rw [readChunks] at h
    split_ifs at h with hsize
    · cases h
      exact hsize.symm
    · obtain ⟨bytes, s₁, hbytes, h⟩ := bind_eq_ok.mp h
      obtain ⟨rest, s₂, hrest, h⟩ := bind_eq_ok.mp h
      cases h
      have hmax : 0 < maxRepeatSize := by decide
      have hlen := readData_length hbytes
      have hlen' : rest.length = size - min size maxRepeatSize := ih (by omega) hrest
      rw [List.length_append, hlen, hlen']
      omega

theorem firstDifference_self (off : ℕ) (rb rest : List UInt8) :
    firstDifference off (rb ++ rest) rb = none := by
  induction rb generalizing off with
  | nil => cases rest <;> rfl
  | cons b rb ih =>
    rw [List.cons_append, firstDifference, if_neg (not_not.mpr rfl)]
    exact ih _

theorem verifyChunks_of_read {flashAddress fuel off len : ℕ} {s s' : LinkState σ}
    {data : List UInt8} (h : readFlashChunks t fuel (flashAddress + off) len s = (.ok data, s'))
    (hfuel : len ≤ fuel) :
    data.length = len ∧ verifyChunks t flashAddress fuel off data s = (.ok none, s') := by
  induction fuel generalizing off len s data with
  | zero =>
    cases h
    exact ⟨(Nat.le_zero.mp hfuel).symm, rfl⟩
  | succ fuel ih =>
    rw [readFlashChunks] at h
    split_ifs at h with hlen
    · cases h
      exact ⟨hlen.symm, rfl⟩
    · obtain ⟨bytes, s₁, hbytes, h⟩ := bind_eq_ok.mp h
      obtain ⟨rest, s₂, hrest, h⟩ := bind_eq_ok.mp h
      cases h
      have hchunk : bytes.length = min len readChunk := readChunks_length (Nat.le_refl _) hbytes
      have hpos : 0 < readChunk := by decide
      rw [Nat.add_assoc] at hrest
      obtain ⟨hrestlen, hverify⟩ := ih hrest (by omega)
      have hdata : (bytes ++ rest).length = len := by
        rw [List.length_append, hchunk, hrestlen]
        omega
      have hdrop :
          (bytes ++ rest).drop (min len readChunk) = rest := by rw [← hchunk, List.drop_left]
      refine ⟨hdata, ?_⟩
      rw [verifyChunks, hdata, if_neg hlen, bind_ok hbytes, firstDifference_self, hdrop]
      exact hverify

theorem verifyFlash_of_read {len : ℕ} {s s' : SessionState σ} {data : List UInt8}
    (h : readFlash t len s = (.ok data, s')) : verifyFlash t data s = (.ok none, s') := by
  obtain ⟨dev, s₁, hdev, h⟩ := bind_eq_ok.mp h
  obtain ⟨l, hread, rfl⟩ := Connect.onLink_eq_ok.mp h
  have hread' : readFlashChunks t len (dev.flashAddress + 0) len ⟨s₁.session.link, s₁.ctx⟩ =
      (.ok data, l) := hread
  obtain ⟨rfl, hverify⟩ := verifyChunks_of_read hread' (Nat.le_refl _)
  rw [verifyFlash, bind_ok hdev]
  exact onLink_ok hverify

section Dump

variable {storageWrite : ℕ → List UInt8 → ℕ}

theorem hexFileSink_ok {line : List UInt8} {s : HexFileSink}
    (h : (hexFileSink storageWrite line s).1 = true) :
    (hexFileSink storageWrite line s).2.file = s.file ++ line := by
  unfold hexFileSink at h ⊢
  by_cases hok : s.ok = true
  · have hnot : ¬(!s.ok) = true := by rw [hok]; exact Bool.false_ne_true
    rw [if_neg hnot] at h ⊢
    have hall : min (storageWrite s.calls line) line.length = line.length := beq_iff_eq.mp h
    change s.file ++ line.take (min (storageWrite s.calls line) line.length) = _
    rw [hall, List.take_length]
  · have hnot : (!s.ok) = true := by rw [Bool.eq_false_iff.mpr hok]; rfl
    rw [if_pos hnot] at h
    cases h

theorem sinkLines_hexFile {lines : List (List UInt8)} {s : HexFileSink}
    (h : (sinkLines (hexFileSink storageWrite) lines s).1 = true) :
    (sinkLines (hexFileSink storageWrite) lines s).2.file = s.file ++ lines.flatten := by
  induction lines generalizing s with
  | nil => exact (List.append_nil _).symm
  | cons line lines ih =>
    rw [sinkLines] at h ⊢
    by_cases hline : (hexFileSink storageWrite line s).1 = true
    · rw [if_pos hline] at h ⊢
      rw [ih h, hexFileSink_ok hline, List.append_assoc, List.flatten_cons]
    · rw [if_neg hline] at h
      cases h

theorem dumpFile_eq {data : List UInt8} {sink : HexFileSink}
    (h : Hex.write data 0 32 (hexFileSink storageWrite) ⟨[], 0, true⟩ = (.ok, sink)) :
    sink.file = (hexLines data 0 32).flatten := by
  rw [write_eq] at h
  obtain ⟨hstatus, rfl⟩ := Prod.mk.inj h
  split_ifs at hstatus with hok
  exact sinkLines_hexFile hok

theorem parseHexFile_dump {data : List UInt8} (hne : data ≠ []) (hlen : data.length < 2 ^ 32)
    {sink : HexFileSink}
    (hdump : Hex.write data 0 32 (hexFileSink storageWrite) ⟨[], 0, true⟩ = (.ok, sink))
    (buf : ℕ → UInt8) {chunks : List (List UInt8)} (hchunks : ∀ c ∈ chunks, c ≠ [])
    (hfile : chunks.flatten = sink.file) :
    ∃ img, parseHexFile (some chunks) (init buf data.length 0 0xFF) = (.ok (), img) ∧
      (List.range data.length).map img.data = data ∧ img.minOffset = 0 ∧
        img.maxOffset = data.length ∧
      img.eofSeen = true := by
  have hwritten := written_hexLines (by decide : lineWidth 32 ≤ 144) data 0
  have hzero : (0 : UInt32).toNat = 0 := rfl
  have hround : RoundTrips 32 (init buf data.length 0 0xFF) 0xFF data (hexLines data 0 32) 0 :=
    roundTrips_of_lt buf 0xFF 32 hlen (by decide) (by rw [hzero]; omega) (by rw [hzero]; omega)
      (.inr (by decide))
  obtain ⟨hparse, hacc⟩ := parseLines_dropEnd hwritten 32 (init buf data.length 0 0xFF)
  have hlines : fileLines chunks = (hexLines data 0 32).map dropEnd :=
    fileLines_written hchunks (hfile.trans (dumpFile_eq hdump)) hwritten
  obtain ⟨hany, hmin, hmax⟩ := hround.range hne
  refine ⟨_, parseHexFile_ok_iff.mpr ⟨?_, rfl, ?_⟩, ?_, ?_, ?_, ?_⟩
  · rw [hlines]
    exact hacc.mpr hround.accepted
  all_goals rw [hlines, hparse]
  · exact hany
  · refine List.ext_getElem (by rw [List.length_map, List.length_range]) fun i hi hi' ↦ ?_
    rw [List.getElem_map, List.getElem_range]
    have hbyte := hround.bytes i hi'
    rwa [Nat.zero_add] at hbyte
  · exact hmin
  · rw [hmax, Nat.zero_add]
  · exact (hround.eofSeen _ [] (List.append_nil _).symm).mpr rfl

end Dump

namespace Worker

variable {env : Env}

theorem verifyImage_of_read {s : WorkerState σ} {len : ℕ} {data : List UInt8}
    (h : (onSession (readFlash t len) s).1 = .ok data) :
    verifyImage t data s = (.ok (), (onSession (readFlash t len) s).2) := by
  have hlink := linkTransport_of_ok h
  rw [onSession_run hlink] at h ⊢
  have hread : readFlash t len ⟨s.app.session, s.ctx⟩ =
      (.ok data, (readFlash t len ⟨s.app.session, s.ctx⟩).2) :=
    Prod.ext h rfl
  have hverify : onSession (verifyFlash t data) s =
      (.ok none, afterCall s (readFlash t len ⟨s.app.session, s.ctx⟩).2) := by
    rw [onSession_run hlink, verifyFlash_of_read hread]
  rw [verifyImage, bind_ok hverify]
  rfl

theorem disconnect_ok {s : WorkerState σ} (h : s.app.linkTransport = true) :
    (onSession (disconnect t) s).1 = .ok () := by
  rw [onSession_run h]
  rfl

/-- A dump that was written is read back as it was dumped, and a verify of a
target that still reads back the same passes against it. -/
theorem dump_reads_back {data : List UInt8} (hne : data ≠ []) (hlen : data.length < 2 ^ 32)
    {storageWrite : ℕ → List UInt8 → ℕ} {sink : HexFileSink}
    (hdump : Hex.write data 0 32 (hexFileSink storageWrite) ⟨[], 0, true⟩ = (.ok, sink))
    {chunks : List (List UInt8)} (hchunks : ∀ c ∈ chunks, c ≠ [] ∧ c.length ≤ 256)
    (hfile : chunks.flatten = sink.file) (buf : ℕ → UInt8) :
    (∃ img, parseHexFile (some chunks) (init buf data.length 0 0xFF) = (.ok (), img) ∧
      (List.range data.length).map img.data = data ∧ img.minOffset = 0 ∧
        img.maxOffset = data.length ∧
      img.eofSeen = true) ∧
    ∀ {σ : Type} (t : UpdiTransport σ) (env : Env) (s s₁ : WorkerState σ) (d : UpdiDevice),
      env.malloc = true → env.hexFile = some chunks → doConnect t env false s = (.ok (), s₁) →
      s₁.app.session.device = some d → d.flashSize = data.length →
      (onSession (readFlash t d.flashSize) s₁).1 = .ok data → (opVerify t env s).1 = .ok () := by
  have hfull : ∀ c ∈ chunks, c ≠ [] := fun c hc ↦ (hchunks c hc).1
  refine ⟨parseHexFile_dump hne hlen hdump buf hfull hfile, ?_⟩
  intro σ t env s s₁ d hmalloc hhex hconn hdev hsize hread
  obtain ⟨img, hparse, hbytes, -, hmax, -⟩ :=
    parseHexFile_dump hne hlen hdump (fun _ ↦ 0xFF) hfull hfile
  have hdevice : sessionDevice s₁ = (.ok d, s₁) := by
    unfold sessionDevice
    rw [hdev]
  have himage : readImage env d s₁ = (.ok data, s₁) := by
    unfold readImage
    rw [hmalloc, hhex, hsize, hparse]
    simp only [Bool.not_true, Bool.false_eq_true, if_false, hmax, hbytes]
    rfl
  have hlink₁ := linkTransport_of_ok hread
  have hlink : (onSession (readFlash t d.flashSize) s₁).2.app.linkTransport = true := by
    rw [onSession_run hlink₁]
    exact hlink₁
  rw [opVerify, bind_ok hconn, bind_ok hdevice, bind_ok himage, attempt_bind_run,
    verifyImage_of_read hread]
  rcases hdisc : onSession (disconnect t) (onSession (readFlash t d.flashSize) s₁).2 with ⟨r, s₂⟩
  have hok := disconnect_ok (t := t) hlink
  rw [hdisc] at hok
  cases hok
  rw [bind_ok hdisc]
  rfl

/-- A dump of three bytes that is read in two parts, cut between a CR and its LF. -/
theorem small_dump_reads_back :
    ∃ img, parseHexFile (some [(hexLines [0x0C, 0x94, 0x34] 0 32).flatten.take 16,
        (hexLines [0x0C, 0x94, 0x34] 0 32).flatten.drop 16]) (init (fun _ ↦ 0) 3 0 0xFF) =
          (.ok (), img) ∧
      (List.range 3).map img.data = [0x0C, 0x94, 0x34] ∧ img.minOffset = 0 ∧ img.maxOffset = 3 ∧
      img.eofSeen = true := by
  have hdump : Hex.write [0x0C, 0x94, 0x34] 0 32 (hexFileSink fun _ l ↦ l.length) ⟨[], 0, true⟩ =
      (.ok, ⟨(hexLines [0x0C, 0x94, 0x34] 0 32).flatten, 3, true⟩) := rfl
  refine (dump_reads_back (List.cons_ne_nil _ _) (by decide) hdump ?_ ?_ fun _ ↦ 0).1
  · decide +kernel
  · simp

end Worker

end UpdiProgrammer.Ui
