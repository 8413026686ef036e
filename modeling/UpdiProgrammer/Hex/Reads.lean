import UpdiProgrammer.Hex.Grammar
import UpdiProgrammer.Library.Program

namespace UpdiProgrammer.Hex

open Library.Program Prog

/-- The parser with the indices of the characters that it has read. -/
abbrev ReadM := Prog (List ℕ) IntelHexStatus

namespace Reads

-- a line ends in a NUL, and `behind` is the memory after it
variable (line : List UInt8) (behind : ℕ → UInt8)

def readChar (i : ℕ) : ReadM UInt8 := fun indices ↦
  (.ok (if i ≤ line.length then charAt line i else behind i), indices ++ [i])

/-- `hex_byte`, which reads both characters before it looks at either of them. -/
def hexByte (p : ℕ) : ReadM (Option UInt8) := do
  let hi ← readChar line behind p
  let lo ← readChar line behind (p + 1)
  match hexNibble hi, hexNibble lo with
  | some hi, some lo => pure (some ((hi <<< 4) ||| lo))
  | _, _ => pure none

/-- `if(!hex_byte(p, &b)) return IntelHexErrFormat;` -/
def hexByteOrReturn (p : ℕ) : ReadM UInt8 := do
  match ← hexByte line behind p with
  | some b => pure b
  | none => fail .errFormat

/-- The loop over the white space in front, which ends at the terminator at the latest. -/
def skipSpace : (fuel i : ℕ) → ReadM ℕ
  | 0, i => pure i
  | fuel + 1, i => do
    if isSpace (← readChar line behind i) then skipSpace fuel (i + 1) else pure i

def readData : (p n : ℕ) → ReadM (List UInt8)
  | _, 0 => pure []
  | p, n + 1 => do
    let b ← hexByteOrReturn line behind p
    let rest ← readData (p + 2) n
    pure (b :: rest)

/-- The part of `intel_hex_parse_line` before its switch, once more. -/
def parseRecord : ReadM (Option Record) := do
  let i ← skipSpace line behind (line.length + 1) 0
  if (← readChar line behind i) = 0x00 then pure none
  else if (← readChar line behind i) ≠ 0x3A then fail .errFormat
  else
    let byteCount ← hexByteOrReturn line behind (i + 1)
    let addrHi ← hexByteOrReturn line behind (i + 1 + 2)
    let addrLo ← hexByteOrReturn line behind (i + 1 + 4)
    let type ← hexByteOrReturn line behind (i + 1 + 6)
    let data ← readData line behind (i + 1 + 8) byteCount.toNat
    let checksum ← hexByteOrReturn line behind (i + 1 + 8 + byteCount.toNat * 2)
    let sum := data.foldl (· + ·) (byteCount + addrHi + addrLo + type)
    if sum + checksum ≠ 0 then fail .errChecksum
    else pure (some ⟨byteCount, (addrHi.toUInt16 <<< 8) ||| addrLo.toUInt16, type, data⟩)

/-- After reads up to the terminator a program returns `result`, and its own
reads stay there just in case `ok` holds. -/
def Judged {α : Type} (m : ReadM α) (result : Except IntelHexStatus α) (ok : Prop) : Prop :=
  ∀ indices, (∀ i ∈ indices, i ≤ line.length) →
    (m indices).1 = result ∧ ((∀ i ∈ (m indices).2, i ≤ line.length) ↔ ok)

namespace Judged

variable {line behind} {α β : Type} {i p n : ℕ} {result : Except IntelHexStatus α} {ok : Prop}

theorem pure (a : α) : Judged line (Pure.pure a) (.ok a) True := fun _ h ↦ ⟨rfl, iff_true_intro h⟩

theorem fail (e : IntelHexStatus) : Judged line (Prog.fail e : ReadM α) (.error e) True :=
  fun _ h ↦ ⟨rfl, iff_true_intro h⟩

theorem congr {m : ReadM α} {result' : Except IntelHexStatus α} {ok' : Prop}
    (h : Judged line m result ok) (hresult : result = result') (hok : ok ↔ ok') :
    Judged line m result' ok' := by
  intro indices hin
  obtain ⟨hrun, hreads⟩ := h indices hin
  exact ⟨hrun.trans hresult, hreads.trans hok⟩

theorem ite {c : Prop} [Decidable c] {m m' : ReadM α} {result' : Except IntelHexStatus α}
    {ok' : Prop} (h : c → Judged line m result ok) (h' : ¬c → Judged line m' result' ok') :
    Judged line (if c then m else m') (if c then result else result') (if c then ok else ok') := by
  by_cases hc : c
  · simpa only [if_pos hc] using h hc
  · simpa only [if_neg hc] using h' hc

theorem readChar (hi : i ≤ line.length) {k : UInt8 → ReadM α}
    (h : Judged line (k (charAt line i)) result ok) :
    Judged line (Reads.readChar line behind i >>= k) result ok := by
  intro indices hin
  have hrun : (Reads.readChar line behind i >>= k) indices =
      k (charAt line i) (indices ++ [i]) := by
    rw [bind_run, Reads.readChar, if_pos hi]
  rw [hrun]
  refine h _ fun j hj ↦ ?_
  rcases List.mem_append.mp hj with hj | hj
  · exact hin j hj
  · rwa [List.mem_singleton.mp hj]

theorem hexByteOrReturn (hp : p ≤ line.length) {k : UInt8 → ReadM α}
    {result : UInt8 → Except IntelHexStatus α}
    {ok : UInt8 → Prop} (h : ∀ b, Hex.hexByte line p = some b → p + 2 ≤ line.length →
      Judged line (k b) (result b) (ok b)) :
    Judged line (Reads.hexByteOrReturn line behind p >>= k)
      (match Hex.hexByte line p with
        | some b => result b
        | none => .error .errFormat)
      (p ≠ line.length ∧ ∀ b, Hex.hexByte line p = some b → ok b) := by
  intro indices hin
  have hend : charAt line line.length = 0 := by simp [charAt]
  rcases Nat.eq_or_lt_of_le hp with rfl | hlt
  · have hnone : Hex.hexByte line line.length = none := by
      unfold Hex.hexByte
      rw [hend]
      rfl
    have hrun : (Reads.hexByteOrReturn line behind line.length >>= k) indices =
        (.error .errFormat, indices ++ [line.length] ++ [line.length + 1]) := by
      unfold Reads.hexByteOrReturn Reads.hexByte
      simp only [bind_run, Reads.readChar, Nat.le_refl, if_true, hend]
      rfl
    rw [hrun, hnone]
    refine ⟨rfl, iff_of_false (fun hall ↦ ?_) fun hne ↦ hne.1 rfl⟩
    have hlast := hall (line.length + 1) (List.mem_append_right _ List.mem_cons_self)
    omega
  · have hin' : ∀ j ∈ indices ++ [p] ++ [p + 1], j ≤ line.length := by
      intro j hj
      rcases List.mem_append.mp hj with hj | hj
      · rcases List.mem_append.mp hj with hj | hj
        · exact hin j hj
        · rw [List.mem_singleton.mp hj]
          exact hp
      · rw [List.mem_singleton.mp hj]
        exact hlt
    have hrun : (Reads.hexByteOrReturn line behind p >>= k) indices = (match Hex.hexByte line p with
        | some b => k b (indices ++ [p] ++ [p + 1])
        | none => (.error .errFormat, indices ++ [p] ++ [p + 1])) := by
      unfold Reads.hexByteOrReturn Reads.hexByte Hex.hexByte
      have hnext : p + 1 ≤ line.length := hlt
      simp only [bind_run, Reads.readChar, hp, hnext, if_true]
      cases hexNibble (charAt line p) with
      | none => rfl
      | some hi =>
        cases hexNibble (charAt line (p + 1)) with
        | none => rfl
        | some lo => rfl
    rw [hrun]
    cases hb : Hex.hexByte line p with
    | none => exact ⟨rfl, iff_of_true hin' ⟨Nat.ne_of_lt hlt, fun b hb' ↦ (by cases hb')⟩⟩
    | some b =>
      have hnext : p + 2 ≤ line.length := by
        by_contra hshort
        have hlast : p + 1 = line.length := by omega
        have hnone : hexNibble (charAt line (p + 1)) = none := by rw [hlast, hend]; rfl
        unfold Hex.hexByte at hb
        rw [hnone] at hb
        split at hb
        · rename_i heq
          cases heq
        · cases hb
      obtain ⟨hres, hreads⟩ := h b hb hnext _ hin'
      refine ⟨hres, hreads.trans ?_⟩
      constructor
      · intro hok
        refine ⟨Nat.ne_of_lt hlt, fun b' hb' ↦ ?_⟩
        obtain rfl := Option.some_inj.mp hb'
        exact hok
      · rintro ⟨-, hok⟩
        exact hok b rfl

end Judged

/-- None of `n` bytes from `p` on is missing behind those that the line has. -/
def Stays (p n : ℕ) : Prop :=
  ∀ j < n, ∀ bytes, hexBytes line p j = some bytes → p + 2 * j ≠ line.length

theorem hexBytes_succ_iff {line bytes : List UInt8} {p n : ℕ} :
    hexBytes line p (n + 1) = some bytes ↔
    ∃ b rest, Hex.hexByte line p = some b ∧ hexBytes line (p + 2) n = some rest ∧
      bytes = b :: rest := by
  constructor
  · intro h
    obtain ⟨b, rest, rfl⟩ := List.exists_cons_of_length_eq_add_one (hexBytes_length h)
    exact ⟨b, rest, (hexBytes_cons.mp h).1, (hexBytes_cons.mp h).2, rfl⟩
  · rintro ⟨b, rest, hb, hrest, rfl⟩
    exact hexBytes_cons.mpr ⟨hb, hrest⟩

theorem stays_zero (p : ℕ) : Stays line p 0 := fun _ hj ↦ absurd hj (Nat.not_lt_zero _)

theorem stays_succ_iff {p n : ℕ} : Stays line p (n + 1) ↔
    p ≠ line.length ∧ ∀ b, Hex.hexByte line p = some b → Stays line (p + 2) n := by
  constructor
  · intro h
    refine ⟨h 0 (Nat.succ_pos n) [] rfl, fun b hb j hj bytes hbytes ↦ ?_⟩
    have hne := h (j + 1) (by omega) (b :: bytes) (hexBytes_cons.mpr ⟨hb, hbytes⟩)
    omega
  · rintro ⟨hp, hrest⟩ j hj bytes hbytes
    cases j with
    | zero => exact hp
    | succ j =>
      obtain ⟨b, rest, hb, hrest', -⟩ := hexBytes_succ_iff.mp hbytes
      have hne := hrest b hb j (by omega) rest hrest'
      omega

theorem stays_last_iff {p n : ℕ} : Stays line p (n + 1) ↔
    Stays line p n ∧ ∀ bytes, hexBytes line p n = some bytes → p + 2 * n ≠ line.length := by
  constructor
  · intro h
    exact ⟨fun j hj ↦ h j (by omega), h n (Nat.lt_succ_self n)⟩
  · rintro ⟨hfirst, hlast⟩ j hj
    rcases Nat.lt_succ_iff_lt_or_eq.mp hj with hj | rfl
    · exact hfirst j hj
    · exact hlast

namespace Judged

variable {line behind} {α : Type}

theorem readData {p n : ℕ} (hp : p ≤ line.length) {k : List UInt8 → ReadM α}
    {result : List UInt8 → Except IntelHexStatus α} {ok : List UInt8 → Prop}
    (h : ∀ data, hexBytes line p n = some data → p + 2 * n ≤ line.length →
      Judged line (k data) (result data) (ok data)) :
    Judged line (Reads.readData line behind p n >>= k)
      (match hexBytes line p n with
        | some data => result data
        | none => .error .errFormat)
      (Stays line p n ∧ ∀ data, hexBytes line p n = some data → ok data) := by
  induction n generalizing p k result ok with
  | zero =>
    refine (h [] rfl hp).congr rfl ?_
    constructor
    · intro hok
      refine ⟨stays_zero line p, fun data hdata ↦ ?_⟩
      obtain rfl := Option.some_inj.mp hdata
      exact hok
    · rintro ⟨-, hok⟩
      exact hok [] rfl
  | succ n ih =>
    have hbyte (b : UInt8) (hb : Hex.hexByte line p = some b) (hnext : p + 2 ≤ line.length) :
        Judged line ((do let rest ← Reads.readData line behind (p + 2) n; Pure.pure (b :: rest)) >>=
          k) (match hexBytes line (p + 2) n with
            | some rest => result (b :: rest)
            | none => .error .errFormat)
          (Stays line (p + 2) n ∧ ∀ rest, hexBytes line (p + 2) n = some rest →
            ok (b :: rest)) := by
      rw [bind_assoc]
      refine ih hnext fun rest hrest hend ↦ ?_
      rw [pure_bind]
      exact h (b :: rest) (hexBytes_cons.mpr ⟨hb, hrest⟩) (by omega)
    rw [Reads.readData, bind_assoc]
    refine (hexByteOrReturn hp hbyte).congr ?_ ?_
    · rw [hexBytes]
      cases Hex.hexByte line p with
      | none => rfl
      | some b => cases hexBytes line (p + 2) n <;> rfl
    · rw [stays_succ_iff]
      constructor
      · rintro ⟨hne, hrest⟩
        refine ⟨⟨hne, fun b hb ↦ (hrest b hb).1⟩, fun data hdata ↦ ?_⟩
        obtain ⟨b, rest, hb, hbytes, rfl⟩ := hexBytes_succ_iff.mp hdata
        exact (hrest b hb).2 rest hbytes
      · rintro ⟨⟨hne, hstays⟩, hok⟩
        refine ⟨hne, fun b hb ↦ ⟨hstays b hb, fun rest hrest ↦ ?_⟩⟩
        exact hok (b :: rest) (hexBytes_cons.mpr ⟨hb, hrest⟩)

theorem skipSpace {m fuel i : ℕ} (hm : m ≤ line.length)
    (hspace : ∀ j < m, isSpace (charAt line j) = true) (hstop : isSpace (charAt line m) = false)
    (hi : i ≤ m) (hfuel : m < i + fuel) {k : ℕ → ReadM α} {result : Except IntelHexStatus α}
    {ok : Prop} (h : Judged line (k m) result ok) :
    Judged line (Reads.skipSpace line behind fuel i >>= k) result ok := by
  induction fuel generalizing i with
  | zero => omega
  | succ fuel ih =>
    rw [Reads.skipSpace, bind_assoc]
    refine readChar (hi.trans hm) ?_
    rcases Nat.eq_or_lt_of_le hi with rfl | hlt
    · rw [if_neg (by rw [hstop]; exact Bool.false_ne_true), pure_bind]
      exact h
    · rw [if_pos (hspace i hlt)]
      exact ih hlt (by omega)

end Judged

theorem skipped_length_le : (line.takeWhile isSpace).length ≤ line.length :=
  (List.takeWhile_prefix isSpace).length_le

theorem dropWhile_eq_drop : line.dropWhile isSpace = line.drop (line.takeWhile isSpace).length := by
  have h : (line.takeWhile isSpace ++ line.dropWhile isSpace).drop (line.takeWhile isSpace).length =
    line.dropWhile isSpace := List.drop_left
  rw [List.takeWhile_append_dropWhile] at h
  exact h.symm

theorem charAt_skipped {j : ℕ} (h : j < (line.takeWhile isSpace).length) :
    isSpace (charAt line j) = true := by
  have hat : charAt line j = (line.takeWhile isSpace)[j] := by
    have hlt := h.trans_le (skipped_length_le line)
    rw [charAt, List.getD_eq_getElem?_getD, List.getElem?_eq_getElem hlt,
      (List.takeWhile_prefix isSpace).getElem h]
    rfl
  rw [hat]
  exact List.mem_takeWhile_imp (List.getElem_mem h)

theorem charAt_dropWhile : isSpace (charAt (line.dropWhile isSpace) 0) = false := by
  have h := List.head?_dropWhile_not isSpace line
  cases hrest : line.dropWhile isSpace with
  | nil => rfl
  | cons c rest =>
    rw [hrest] at h
    exact h

theorem hexBytes_drop (p i n : ℕ) : hexBytes (line.drop p) i n = hexBytes line (p + i) n := by
  induction n generalizing i with
  | zero => rfl
  | succ n ih => rw [hexBytes, hexBytes, hexByte_drop, ih, Nat.add_assoc]

/-- After white space and a colon stand digits of a record, which end before it is complete. -/
def StopsShort : Prop :=
  ∃ space digits bytes, line = space ++ 0x3A :: digits ∧ (∀ c ∈ space, isSpace c = true) ∧
    Spells digits bytes ∧
    ∀ count, bytes.head? = some count → bytes.length < count.toNat + 5

variable {line}

theorem dropWhile_of_stopsShort (h : StopsShort line) :
    ∃ digits bytes, line.dropWhile isSpace = 0x3A :: digits ∧
    Spells digits bytes ∧ ∀ count, bytes.head? = some count → bytes.length < count.toNat + 5 := by
  obtain ⟨space, digits, bytes, rfl, hspace, hspells, hshort⟩ := h
  exact ⟨digits, bytes, dropWhile_space hspace rfl, hspells, hshort⟩

theorem not_stopsShort_iff {p : ℕ} (hp : p = (line.takeWhile isSpace).length + 1)
    (hcolon : line.dropWhile isSpace = 0x3A :: line.drop p) : ¬StopsShort line ↔
      p ≠ line.length ∧ ∀ count, Hex.hexByte line p = some count →
        Stays line (p + 2) (count.toNat + 4) := by
  have hsplit : line = line.takeWhile isSpace ++ 0x3A :: line.drop p := by
    rw [← hcolon, List.takeWhile_append_dropWhile]
  have hspace : ∀ c ∈ line.takeWhile isSpace, isSpace c = true :=
    fun _ hc ↦ List.mem_takeWhile_imp hc
  have hdrop : (line.drop p).length = line.length - p := List.length_drop
  constructor
  · intro h
    refine ⟨fun hend ↦ h ?_, fun count hcount j hj bytes hbytes hend ↦ h ?_⟩
    · refine ⟨_, _, [], hsplit, hspace, ?_, fun _ hhead ↦ nomatch hhead⟩
      rw [hend, List.drop_length]
      exact .nil
    · obtain ⟨hlen, text, rest, hcat, hspells⟩ :=
        hexBytes_iff.mp (hexBytes_cons.mpr ⟨hcount, hbytes⟩)
      have htext := hspells.length
      rw [hcat, List.length_append] at hdrop
      obtain rfl : rest = [] := List.eq_nil_of_length_eq_zero (by omega)
      rw [List.append_nil] at hcat
      refine ⟨_, _, count :: bytes, hsplit, hspace, hcat ▸ hspells, fun count' hhead ↦ ?_⟩
      obtain rfl := Option.some_inj.mp hhead
      omega
  · rintro ⟨hne, hstays⟩ hstops
    obtain ⟨digits, bytes, hcolon', hspells, hshort⟩ := dropWhile_of_stopsShort hstops
    rw [hcolon, List.cons.injEq] at hcolon'
    obtain rfl := hcolon'.2
    have htext := hspells.length
    have hle : p ≤ line.length := by
      have hlen := congrArg List.length hsplit
      rw [List.length_append, List.length_cons] at hlen
      omega
    cases bytes with
    | nil =>
      rw [List.length_nil] at htext
      omega
    | cons count bytes =>
      have hread :=
        hexBytes_iff.mpr ⟨List.length_cons, _, [], (List.append_nil (line.drop p)).symm, hspells⟩
      obtain ⟨hcount, hbytes⟩ := hexBytes_cons.mp hread
      have hlt := hshort count rfl
      rw [List.length_cons] at htext hlt
      have hend := hstays count hcount bytes.length (by omega) bytes hbytes
      omega

variable (line)

theorem parseRecord_judged :
    Judged line (parseRecord line behind) (Hex.parseRecord line) (¬StopsShort line) := by
  obtain ⟨m, hm⟩ : ∃ m, m = (line.takeWhile isSpace).length := ⟨_, rfl⟩
  have hle : m ≤ line.length := hm ▸ skipped_length_le line
  have hfirst : charAt (line.dropWhile isSpace) 0 = charAt line m := by
    rw [dropWhile_eq_drop, charAt_drop, hm, Nat.add_zero]
  unfold parseRecord
  refine Judged.skipSpace hle (fun j hj ↦ charAt_skipped line (hm ▸ hj)) ?_
    (Nat.zero_le m) (by omega) ?_
  · rw [← hfirst]
    exact charAt_dropWhile line
  refine Judged.readChar hle ?_
  have hstart (h : StopsShort line) : charAt line m = 0x3A := by
    obtain ⟨digits, bytes, hcolon, -⟩ := dropWhile_of_stopsShort h
    rw [← hfirst, hcolon]
    rfl
  unfold Hex.parseRecord
  simp only [hfirst]
  by_cases hend : charAt line m = 0x00
  · simp only [if_pos hend]
    exact (Judged.pure none).congr rfl ⟨fun _ h ↦ absurd (hstart h) (by rw [hend]; decide),
      fun _ ↦ trivial⟩
  rw [if_neg hend, if_neg hend]
  refine Judged.readChar hle ?_
  by_cases hcolon : charAt line m ≠ 0x3A
  · rw [if_pos hcolon, if_pos hcolon]
    exact (Judged.fail _).congr rfl ⟨fun _ h ↦ hcolon (hstart h), fun _ ↦ trivial⟩
  rw [if_neg hcolon, if_neg hcolon]
  have hlt : m + 1 ≤ line.length := by
    by_contra hge
    obtain rfl : m = line.length := by omega
    exact hend (by simp [charAt])
  have hcolon' : line.dropWhile isSpace = 0x3A :: line.drop (m + 1) := by
    have hat : charAt line m = (line)[m] := by
      rw [charAt, List.getD_eq_getElem?_getD, List.getElem?_eq_getElem hlt]
      rfl
    rw [dropWhile_eq_drop, ← hm, List.drop_eq_getElem_cons hlt, ← hat, not_not.mp hcolon]
  simp only [dropWhile_eq_drop, ← hm, List.drop_drop, hexByte_drop, hexBytes_drop]
  refine (Judged.hexByteOrReturn hlt fun byteCount _ h₂ ↦ Judged.hexByteOrReturn h₂
    fun addrHi _ h₄ ↦
    Judged.hexByteOrReturn h₄ fun addrLo _ h₆ ↦ Judged.hexByteOrReturn h₆ fun type _ h₈ ↦
    Judged.readData h₈ fun data _ hdata ↦ Judged.hexByteOrReturn (by omega) fun checksum _ _ ↦
    Judged.ite (fun _ ↦ Judged.fail _) fun _ ↦ Judged.pure _).congr ?_ ?_
  · simp only [← Nat.add_assoc]
    cases Hex.hexByte line (m + 1) with
    | none => rfl
    | some byteCount =>
      cases Hex.hexByte line (m + 1 + 2) with
      | none => rfl
      | some addrHi =>
        cases Hex.hexByte line (m + 1 + 4) with
        | none => rfl
        | some addrLo =>
          cases Hex.hexByte line (m + 1 + 6) with
          | none => rfl
          | some type =>
            rfl
  · rw [not_stopsShort_iff (congrArg (· + 1) hm) hcolon']
    refine and_congr_right fun _ ↦ forall₂_congr fun count _ ↦ ?_
    rw [stays_succ_iff]
    refine and_congr_right fun _ ↦ forall₂_congr fun addrHi _ ↦ ?_
    rw [stays_succ_iff]
    refine and_congr_right fun _ ↦ forall₂_congr fun addrLo _ ↦ ?_
    rw [stays_succ_iff]
    refine and_congr_right fun _ ↦ forall₂_congr fun type _ ↦ ?_
    rw [stays_last_iff]
    refine and_congr_right fun _ ↦ forall₂_congr fun data _ ↦ ?_
    simp only [ite_self, implies_true, and_true]
    omega

variable (w : ℕ) (img : IntelHexImage)

/-- `intel_hex_parse_line`, with the indices that it reads. -/
def parseLine : (IntelHexStatus × IntelHexImage) × List ℕ :=
  match parseRecord line behind [] with
  | (.error e, indices) => ((e, img), indices)
  | (.ok none, indices) => ((.ok, img), indices)
  | (.ok (some r), indices) => (img.applyRecord w r, indices)

variable {line behind w img}

theorem parseLine_reads : (parseLine line behind w img).2 = (parseRecord line behind []).2 := by
  unfold parseLine
  rcases parseRecord line behind [] with ⟨e | _ | r, indices⟩ <;> rfl

variable (line behind w img)

/-- What lies behind the terminator does not matter to the parser, and it
looks there just in case the line stops short. -/
theorem reads_stay_iff : (parseLine line behind w img).1 = img.parseLine w line ∧
    ((∀ i ∈ (parseLine line behind w img).2, i ≤ line.length) ↔ ¬StopsShort line) := by
  obtain ⟨hrun, hreads⟩ := parseRecord_judged line behind [] (List.forall_mem_nil _)
  rw [parseLine_reads]
  refine ⟨?_, hreads⟩
  unfold parseLine IntelHexImage.parseLine
  rw [← hrun]
  rcases parseRecord line behind [] with ⟨e | _ | r, indices⟩ <;> rfl

theorem spells_replicate {c b : UInt8} {v : ℕ} (hc : DigitOf c v) (hb : b.toNat = 16 * v + v)
    (n : ℕ) :
    Spells (List.replicate (2 * n) c) (List.replicate n b) := by
  induction n with
  | zero => exact .nil
  | succ n ih => exact .cons hc hc hb ih

/-- A colon and digits that fill the line buffer up to its last character. -/
theorem full_buffer_overread :
    ¬∀ (line : List UInt8) (behind : ℕ → UInt8) (w : ℕ) (img : IntelHexImage), 0 ∉ line →
    ∀ i ∈ (parseLine line behind w img).2, i ≤ line.length := by
  intro h
  have hnul : (0 : UInt8) ∉ 0x3A :: List.replicate (2 * 149) 0x46 := by
    simp only [List.mem_cons, List.mem_replicate, not_or, not_and]
    exact ⟨by decide, fun _ ↦ by decide⟩
  have hdigit : DigitOf 0x46 15 := .inr ⟨by decide, by decide, .inl rfl⟩
  have hreads :=
    h (0x3A :: List.replicate (2 * 149) 0x46) (fun _ ↦ 0) 32 (.init (fun _ ↦ 0) 0 0 0) hnul
  rw [parseLine_reads] at hreads
  refine (parseRecord_judged _ _ [] (List.forall_mem_nil _)).2.mp hreads
    ⟨[], List.replicate (2 * 149) 0x46,
    List.replicate 149 0xFF, rfl, List.forall_mem_nil _, spells_replicate hdigit rfl 149, ?_⟩
  intro count hcount
  obtain rfl : 0xFF = count := Option.some.inj hcount
  rw [List.length_replicate]
  decide

end Reads

end UpdiProgrammer.Hex
