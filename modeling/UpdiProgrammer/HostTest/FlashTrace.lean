import UpdiProgrammer.HostTest.Programming
import UpdiProgrammer.Updi.Trace

namespace UpdiProgrammer.HostTest

open Updi UpdiLink UpdiNvm UpdiSession Library.Program Prog
open UpdiTransport (Event)
open UpdiEmu (addressSpace wireAddress leValue_putAddress)

/-- A store with the address that its frames carry: directly, or through
the pointer. -/
inductive Store
  | direct (address : ℕ) (data : List UInt8)
  | block (address : ℕ) (data : List UInt8)
  deriving DecidableEq, Repr

/-- What the next frame is, after an instruction that goes on in it. -/
inductive Operand
  | instruction
  | direct (address size : ℕ)
  | block
  | stream
  deriving DecidableEq, Repr

/-- A reader of the frames that the host builds, in which a block has as many bytes as
its REPEAT and its width announce. -/
structure FrameReader where
  ptr : ℕ
  next : Operand
  deriving DecidableEq, Repr

namespace FrameReader

def instruction (r : FrameReader) : List UInt8 → FrameReader × List Store
  | _ :: op :: operands =>
    match (op >>> 5).toNat with
    | 2 => ({ r with next := .direct (leValue operands) (if op &&& 0x01 ≠ 0 then 2 else 1) }, [])
    | 3 =>
      if op &&& 0x0C = ptrAddress then (⟨leValue operands, .instruction⟩, [])
      -- Every other store through the pointer counts, whether or not it moves the pointer.
      else if operands = [] then ({ r with next := .block }, [])
      else (⟨r.ptr + operands.length, .stream⟩, [.block r.ptr operands])
    | _ => ({ r with next := .instruction }, [])
  | _ => ({ r with next := .instruction }, [])

/-- The frame after the address of a direct store is its data if it has the
right size. When the address was not acknowledged another instruction follows. -/
def frame (r : FrameReader) (data : List UInt8) : FrameReader × List Store :=
  match r.next with
  | .instruction => r.instruction data
  | .direct address size =>
    if data.length = size then ({ r with next := .instruction }, [.direct address data])
    else r.instruction data
  | .block => (⟨r.ptr + data.length, .instruction⟩, [.block r.ptr data])
  | .stream =>
    if data.length = 1 then ({ r with ptr := r.ptr + 1 }, [.block r.ptr data]) else
      r.instruction data

/-- The stores among the frames that go out. -/
def scan : FrameReader → List Event → FrameReader × List Store
  | r, [] => (r, [])
  | r, .sent data _ :: es =>
    ((scan (r.frame data).1 es).1, (r.frame data).2 ++ (scan (r.frame data).1 es).2)
  | r, .received _ _ :: es => scan r es
  | r, .broke :: es => scan r es
  | r, .clock _ :: es => scan r es

def start : FrameReader := ⟨0, .instruction⟩

theorem scan_append (r : FrameReader) (l l' : List Event) :
    scan r (l ++ l') = ((scan (scan r l).1 l').1, (scan r l).2 ++ (scan (scan r l).1 l').2) := by
  induction l generalizing r with
  | nil => rfl
  | cons e l ih =>
    cases e with
    | sent data ok => simp only [List.cons_append, scan, ih, List.append_assoc]
    | received len data => exact ih r
    | broke => exact ih r
    | clock now => exact ih r

def Ready (r : FrameReader) : Prop := r.next = .instruction ∨ ∃ address, r.next = .direct address 1

def ReadyAt (p : ℕ) (r : FrameReader) : Prop := r.Ready ∧ r.ptr = p

theorem Ready.frame {r : FrameReader} (h : r.Ready) {data : List UInt8} (hl : 2 ≤ data.length) :
    r.frame data = r.instruction data := by
  unfold FrameReader.frame
  rcases h with h | ⟨address, h⟩ <;> rw [h]
  exact if_neg (by omega)

/-- From a reader in `A` the log shows the stores `S` and ends with a reader in `B`. -/
def Scans (A B : FrameReader → Prop) (S : List Store) (l : List Event) : Prop :=
  ∀ r, A r → B (scan r l).1 ∧ (scan r l).2 = S

variable {A B C : FrameReader → Prop} {S S' : List Store} {l l' : List Event}

theorem Scans.append (h : Scans A B S l) (h' : Scans B C S' l') :
    Scans A C (S ++ S') (l ++ l') := by
  intro r hr
  obtain ⟨hB, hS⟩ := h r hr
  obtain ⟨hC, hS'⟩ := h' _ hB
  rw [scan_append]
  exact ⟨hC, by rw [hS, hS']⟩

theorem Scans.mono (h : Scans A B S l) (hB : ∀ r, B r → C r) : Scans A C S l :=
  fun r hr ↦ ⟨hB _ (h r hr).1, (h r hr).2⟩

def Silent (data : List UInt8) : Prop :=
  ∀ r, Ready r → r.frame data = ({ r with next := .instruction }, [])

end FrameReader

open FrameReader

variable {σ α β : Type}

/-- A link that uses addresses of the given size. -/
def Width (a24 : Bool) (s : LinkState (σ × List Event)) : Prop := (s.link.addressBytes == 3) = a24

/-- No frame of a run is part of a store, nor moves the pointer. -/
def Quiet (a24 : Bool) (m : LinkM (σ × List Event) α) : Prop :=
  EmitsWhile (Width a24) linkLog m fun l _ ↦ ∀ p, Scans (ReadyAt p) (ReadyAt p) [] l

/-- From a reader in `A`, a normal return has shown the stores `S` and ends
in `B`; a failure has shown some of them and ends in `E`. -/
def Prints (a24 : Bool) (A B E : FrameReader → Prop) (S : List Store)
    (m : LinkM (σ × List Event) α) : Prop :=
  EmitsWhile (Width a24) linkLog m fun l r ↦ (∀ a, r = .ok a → Scans A B S l) ∧
    ∀ e, r = .error e → ∃ S', S' <+: S ∧ Scans A E S' l

section Rules

variable {a24 : Bool} {A B C E E' : FrameReader → Prop} {S T : List Store}

theorem Quiet.bind {m : LinkM (σ × List Event) α} {k : α → LinkM (σ × List Event) β}
    (hm : Quiet a24 m) (hk : ∀ a, Quiet a24 (k a)) : Quiet a24 (m >>= k) :=
  EmitsWhile.bind hm hk (fun _ _ h ↦ h) fun _ _ _ _ h h' p ↦ (h p).append (h' p)

theorem Quiet.attempt {m : LinkM (σ × List Event) α} (h : Quiet a24 m) : Quiet a24 (attempt m) :=
  EmitsWhile.attempt h

theorem Prints.bind {m : LinkM (σ × List Event) α} {k : α → LinkM (σ × List Event) β}
    (hm : Prints a24 A B E S m) (hk : ∀ a, Prints a24 B C E T (k a)) :
    Prints a24 A C E (S ++ T) (m >>= k) := by
  refine EmitsWhile.bind hm hk ?_ ?_
  · rintro l e ⟨-, herr⟩
    refine ⟨fun a h ↦ (by cases h), fun _ _ ↦ ?_⟩
    obtain ⟨S₁, hpre, hscan⟩ := herr e rfl
    exact ⟨S₁, hpre.trans (List.prefix_append S T), hscan⟩
  · rintro l l' a r ⟨hok, -⟩ ⟨hok', herr'⟩
    refine ⟨fun b h ↦ (hok a rfl).append (hok' b h), fun e h ↦ ?_⟩
    obtain ⟨S₁, hpre, hscan⟩ := herr' e h
    exact ⟨S ++ S₁, (List.prefix_append_right_inj S).mpr hpre, (hok a rfl).append hscan⟩

theorem Prints.weaken {m : LinkM (σ × List Event) α} (h : Prints a24 A B E S m)
    (hE : ∀ r, E r → E' r) : Prints a24 A B E' S m := by
  refine EmitsWhile.mono h ?_
  rintro l r ⟨hok, herr⟩
  refine ⟨hok, fun e he ↦ ?_⟩
  obtain ⟨S₁, hpre, hscan⟩ := herr e he
  exact ⟨S₁, hpre, hscan.mono hE⟩

end Rules

section Links

variable {a24 : Bool} {t : UpdiTransport σ} {A B E : FrameReader → Prop} {S : List Store}

theorem send_link (data : List UInt8) (s : LinkState σ) :
    (UpdiLink.send t data s).2.link = s.link := by
  unfold UpdiLink.send
  rw [bind_run]
  dsimp only [sendRaw]
  split_ifs <;> rfl

theorem while_addr24 {Q : List Event → Except UpdiErr α → Prop}
    {k : Bool → LinkM (σ × List Event) α} (h : EmitsWhile (Width a24) linkLog (k a24) Q) :
    EmitsWhile (Width a24) linkLog (addr24 >>= k) Q := by
  intro s hs
  have hrun : (addr24 >>= k) s = k a24 s := by
    rw [addr24, read_bind_run]
    exact congrArg (k · s) hs
  rw [hrun]
  exact h s hs

end Links

section Pages

variable {a24 : Bool} {t : UpdiTransport σ} {d : UpdiDevice}

def commandStore (d : UpdiDevice) (command : UInt8) : Store :=
  .direct (d.nvmctrlBase + d.nvmDesc.regCtrla) [command]

/-- The stores that follow a command: NOCMD on the variants that need it,
and not even that one for certain. -/
def Cleared (d : UpdiDevice) (N : List Store) : Prop :=
  N = [] ∨ d.nvmDesc.clearCmdAfter = true ∧ N = [commandStore d d.nvmDesc.cmdNocmd]

/-- The bytes of page `k` of an image, padded with 0xFF. -/
def pageData (d : UpdiDevice) (image : List UInt8) (k : ℕ) : List UInt8 :=
  padPage d.flashPageSize ((image.drop (k * d.flashPageSize)).take d.flashPageSize)

def pageStore (d : UpdiDevice) (image : List UInt8) (k : ℕ) : Store :=
  .block (d.flashAddress + k * d.flashPageSize) (pageData d image k)

/-- The stores that program a page: clear the page buffer, fill it, and write it. -/
def programStores (d : UpdiDevice) (image : List UInt8) (k : ℕ) : List Store :=
  [commandStore d d.nvmDesc.cmdPageBufferClear, pageStore d image k,
    commandStore d d.nvmDesc.cmdWritePage]

/-- The stores of a page that was cut short by a failure. -/
def Cut (d : UpdiDevice) (image : List UInt8) (k : ℕ) (S : List Store) : Prop :=
  S <+: programStores d image k ∨ ∃ N, Cleared d N ∧ S = programStores d image k ++ N

variable {image : List UInt8} {k : ℕ}

/-- The stores that program the given pages, one after the other. -/
inductive Written (d : UpdiDevice) (image : List UInt8) : List ℕ → List Store → Prop
  | nil : Written d image [] []
  | page {k : ℕ} {ks : List ℕ} {N S : List Store} (hN : Cleared d N) (h : Written d image ks S) :
      Written d image (k :: ks) (programStores d image k ++ N ++ S)

def pagesFrom (d : UpdiDevice) (image : List UInt8) : (fuel k : ℕ) → List ℕ
  | 0, _ => []
  | fuel + 1, k =>
    if image.length ≤ k * d.flashPageSize then []
    else if allFf (pageData d image k) then pagesFrom d image fuel (k + 1)
    else k :: pagesFrom d image fuel (k + 1)

def Store.blockAddress : Store → Option ℕ
  | .block address _ => some address
  | .direct _ _ => none

def blockAddresses (S : List Store) : List ℕ := S.filterMap Store.blockAddress

theorem blockAddresses_append (S S' : List Store) :
    blockAddresses (S ++ S') = blockAddresses S ++ blockAddresses S' := List.filterMap_append

theorem Cleared.blockAddresses {N : List Store} (h : Cleared d N) : blockAddresses N = [] := by
  rcases h with rfl | ⟨-, rfl⟩ <;> rfl

theorem Written.blockAddresses {ks : List ℕ} {S : List Store} (h : Written d image ks S) :
    blockAddresses S = ks.map fun k ↦ d.flashAddress + k * d.flashPageSize := by
  induction h with
  | nil => rfl
  | page hN h ih =>
    rw [blockAddresses_append, blockAddresses_append, hN.blockAddresses, ih]
    rfl

theorem Cut.blockAddresses {S : List Store} (h : Cut d image k S) :
    blockAddresses S <+: [d.flashAddress + k * d.flashPageSize] := by
  rcases h with hpre | ⟨N, hN, rfl⟩
  · exact hpre.filterMap _
  · rw [blockAddresses_append, hN.blockAddresses, List.append_nil]
    exact List.prefix_rfl

/-- The store of a page that is not blank, within the flash. -/
def IsPage (d : UpdiDevice) (image : List UInt8) (s : Store) : Prop :=
  ∃ k, s = pageStore d image k ∧ (pageData d image k).length = d.flashPageSize ∧
    k * d.flashPageSize < image.length ∧ k * d.flashPageSize + d.flashPageSize ≤ d.flashSize ∧
    allFf (pageData d image k) = false

/-- A command that programming a page stores to NVMCTRL.CTRLA. -/
def IsCommand (d : UpdiDevice) (s : Store) : Prop :=
  s = commandStore d d.nvmDesc.cmdPageBufferClear ∨ s = commandStore d d.nvmDesc.cmdWritePage ∨
    d.nvmVariant = .p3 ∧ s = commandStore d d.nvmDesc.cmdNocmd

/-- Every page-write command comes right after one page, which comes right
after the clearing of the page buffer. -/
def WritesFollowPages (d : UpdiDevice) (image : List UInt8) (S : List Store) : Prop :=
  ∀ before after, S = before ++ commandStore d d.nvmDesc.cmdWritePage :: after →
    ∃ before' k, before = before' ++
      [commandStore d d.nvmDesc.cmdPageBufferClear, pageStore d image k]

theorem WritesFollowPages.append {S S' : List Store} (h : WritesFollowPages d image S)
    (h' : WritesFollowPages d image S') : WritesFollowPages d image (S ++ S') := by
  intro before after heq
  rcases List.append_eq_append_iff.mp heq with ⟨mid, rfl, hmid⟩ | ⟨mid, rfl, hmid⟩
  · obtain ⟨before', k, rfl⟩ := h' mid after hmid
    exact ⟨S ++ before', k, (List.append_assoc _ _ _).symm⟩
  · cases mid with
    | nil =>
      obtain ⟨before', k, hk⟩ := h' [] after hmid.symm
      cases before' <;> cases hk
    | cons s mid =>
      obtain ⟨rfl, -⟩ := List.cons.inj hmid
      exact h before mid rfl

theorem writesFollowPages_of_notMem {S : List Store}
    (h : commandStore d d.nvmDesc.cmdWritePage ∉ S) : WritesFollowPages d image S := by
  rintro before after rfl
  exact absurd (List.mem_append_right _ List.mem_cons_self) h

theorem commands_ne (d : UpdiDevice) : d.nvmDesc.cmdPageBufferClear ≠ d.nvmDesc.cmdWritePage ∧
    d.nvmDesc.cmdNocmd ≠ d.nvmDesc.cmdWritePage := by
  unfold UpdiDevice.nvmDesc
  cases d.nvmVariant <;> decide

theorem commandStore_inj {a b : UInt8} (h : commandStore d a = commandStore d b) : a = b :=
  (List.cons.inj (Store.direct.inj h).2).1

theorem Cleared.writesFollowPages {N : List Store} (h : Cleared d N) :
    WritesFollowPages d image N := by
  refine writesFollowPages_of_notMem fun hmem ↦ ?_
  rcases h with rfl | ⟨-, rfl⟩
  · cases hmem
  · exact (commands_ne d).2 (commandStore_inj (List.mem_singleton.mp hmem)).symm

theorem writesFollowPages_cut {S : List Store} (h : S <+: programStores d image k) :
    WritesFollowPages d image S := by
  intro before after heq
  obtain ⟨rest, hrest⟩ := h
  rw [heq, List.append_assoc] at hrest
  match before, hrest with
  | [], hrest => exact absurd (commandStore_inj (List.cons.inj hrest).1).symm (commands_ne d).1
  | [x], hrest => cases (List.cons.inj (List.cons.inj hrest).2).1
  | [x, y], hrest =>
    obtain ⟨hx, htail⟩ := List.cons.inj hrest
    obtain ⟨hy, -⟩ := List.cons.inj htail
    exact ⟨[], k, by rw [hx, hy]; rfl⟩
  | x :: y :: z :: before, hrest =>
    have hlen := congrArg List.length hrest
    simp [programStores] at hlen

theorem Written.writesFollowPages {ks : List ℕ} {S : List Store} (h : Written d image ks S) :
    WritesFollowPages d image S := by
  induction h with
  | nil => exact writesFollowPages_of_notMem List.not_mem_nil
  | page hN h ih =>
    exact ((writesFollowPages_cut List.prefix_rfl).append hN.writesFollowPages).append ih

theorem Cut.writesFollowPages {S : List Store} (h : Cut d image k S) :
    WritesFollowPages d image S := by
  rcases h with hpre | ⟨N, hN, rfl⟩
  · exact writesFollowPages_cut hpre
  · exact (writesFollowPages_cut List.prefix_rfl).append hN.writesFollowPages

theorem Cleared.isCommand {N : List Store} (h : Cleared d N) : ∀ s ∈ N, IsCommand d s := by
  rcases h with rfl | ⟨hclear, rfl⟩
  · exact List.forall_mem_nil _
  · refine List.forall_mem_singleton.mpr (.inr (.inr ⟨?_, rfl⟩))
    unfold UpdiDevice.nvmDesc at hclear
    cases hv : d.nvmVariant with
    | p0 => rw [hv] at hclear; cases hclear
    | p3 => rfl

theorem stores_of_program (hpage : IsPage d image (pageStore d image k)) :
    ∀ s ∈ programStores d image k, IsCommand d s ∨ IsPage d image s := by
  intro s hs
  simp only [programStores, List.mem_cons, List.not_mem_nil, or_false] at hs
  rcases hs with rfl | rfl | rfl
  · exact .inl (.inl rfl)
  · exact .inr hpage
  · exact .inl (.inr (.inl rfl))

theorem Written.stores {ks : List ℕ} {S : List Store} (h : Written d image ks S)
    (hpages : ∀ k ∈ ks, IsPage d image (pageStore d image k)) :
    ∀ s ∈ S, IsCommand d s ∨ IsPage d image s := by
  induction h with
  | nil => exact List.forall_mem_nil _
  | page hN h ih =>
    obtain ⟨hk, hks⟩ := List.forall_mem_cons.mp hpages
    intro s hs
    rcases List.mem_append.mp hs with hs | hs
    · rcases List.mem_append.mp hs with hs | hs
      · exact stores_of_program hk s hs
      · exact .inl (hN.isCommand s hs)
    · exact ih hks s hs

theorem Cut.stores {S : List Store} (h : Cut d image k S)
    (hpage : IsPage d image (pageStore d image k)) :
    ∀ s ∈ S, IsCommand d s ∨ IsPage d image s := by
  rcases h with hpre | ⟨N, hN, rfl⟩
  · exact fun s hs ↦ stores_of_program hpage s (hpre.subset hs)
  · intro s hs
    rcases List.mem_append.mp hs with hs | hs
    · exact stores_of_program hpage s hs
    · exact .inl (hN.isCommand s hs)

theorem addresses_fit (hd : d.WellFormed) :
    d.nvmctrlBase + d.nvmDesc.regCtrla < addressSpace (d.addressBytes == 3) ∧
      d.flashAddress + d.flashSize ≤ addressSpace (d.addressBytes == 3) := by
  have hfit := hd.flash_fits
  rw [hd.nvmctrlBase, hd.addressBytes, UpdiDevice.nvmDesc]
  cases hv : d.nvmVariant with
  | p0 =>
    rw [hv] at hfit
    exact ⟨by decide, hfit⟩
  | p3 =>
    rw [hv] at hfit
    exact ⟨by decide, hfit⟩

def connectedAttiny412 : UpdiSession :=
  { UpdiSession.init with device := some attiny412, nvmDevice := some attiny412, connected := true }

end Pages

end UpdiProgrammer.HostTest
