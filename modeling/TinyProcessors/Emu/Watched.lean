import TinyProcessors.Emu.Dma
import TinyProcessors.Emu.Notify

namespace TinyProcessors

structure Touch where
  disk : Bool
  start : Nat
  count : Nat

def Touch.Within (size : Word) (t : Touch) : Prop :=
  if t.disk then t.start + t.count ≤ size.toNat else t.start + t.count ≤ ramSize

abbrev Watched := EStateM Unit (Blk × List Touch)

namespace Watched

def note (t : Touch) : Watched PUnit := modify fun s => (s.1, s.2 ++ [t])

def change (f : Blk → Blk) : Watched PUnit := modify fun s => (f s.1, s.2)

def ramWord (address : Word) : Touch := ⟨false, (address &&& ~~~3).toNat - ramBase, 4⟩

def diskAt (sector : Word) (i : Nat) : Nat := (sector * 512 + 4 * BitVec.ofNat 32 i).toNat

def diskWord (sector : Word) (i : Nat) : Touch := ⟨true, diskAt sector i, 4⟩

def dmaRead (address : Word) : Watched Word := do
  if dmaWord address then
    note (ramWord address)
    let s ← get
    return s.1.mem.ram.word (address &&& ~~~3).toNat
  else throw ()

def dmaRead16 (address : Word) : Watched (BitVec 16) := do
  let word ← dmaRead address
  return if address &&& 2 ≠ 0 then (word >>> 16).setWidth 16 else word.setWidth 16

def stored (address value strobe : Word) (s : Blk) : Blk :=
  let mem := s.mem.snoopDeviceWrite address
  { s with mem := { mem with ram := mem.ram.strobe (address &&& ~~~3).toNat value strobe } }

def dmaWrite (address value strobe : Word) : Watched PUnit := do
  if dmaWord address then
    note (ramWord address)
    change (stored address value strobe)
  else throw ()

def diskWritten (start count : Nat) : Watched PUnit := do
  let s ← get
  if s.1.v.file.isSome then note ⟨true, start, count⟩
  change fun s => { s with v := s.v.diskWritten }

def readDescriptor (index : Word) : Watched Descriptor := do
  let base := (← get).1.v.descLo + 16 * index
  let address ← dmaRead base
  let high ← dmaRead (base + 4)
  if high = 0 then
    let length ← dmaRead (base + 8)
    let flags ← dmaRead (base + 12)
    return ⟨address, length, flags &&& 1 ≠ 0, flags &&& 2 ≠ 0, flags >>> 16⟩
  else throw ()

def chainDescriptor (which : Nat) (index : Word) : Watched Descriptor := do
  let d ← readDescriptor index
  let v := (← get).1.v
  if d.hasNext = (which ≠ 2 : Bool) ∧ (which = 0 → ¬ d.write) ∧ (which = 2 → d.write) ∧
      (which ≠ 2 → d.next < v.queueNum) then
    return d
  else throw ()

def readChain : Watched Chain := do
  let v := (← get).1.v
  let slot := v.lastAvail.setWidth 32 &&& (v.queueNum - 1)
  let head ← dmaRead16 (v.driverLo + 4 + 2 * slot)
  let head := head.setWidth 32
  if head < v.queueNum then
    let header ← chainDescriptor 0 head
    let data ← chainDescriptor 1 header.next
    let status ← chainDescriptor 2 data.next
    return ⟨head, header, data, status⟩
  else throw ()

def readHeader (address : Word) : Watched Header := do
  let type ← dmaRead address
  let sector ← dmaRead (address + 8)
  let sectorHi ← dmaRead (address + 12)
  return ⟨type, sector, sectorHi⟩

def moveIn (sector buffer : Word) (i : Nat) : Watched PUnit := do
  note (diskWord sector i)
  let s ← get
  dmaWrite (buffer + 4 * BitVec.ofNat 32 i) (s.1.v.drive.bytes.word (diskAt sector i)) 0xf

def kept (start : Nat) (address : Word) (s : Blk) : Blk :=
  let drive := s.v.drive
  { s with v := { s.v with drive := { drive with
    bytes := drive.bytes.write start 4 (s.mem.ram.word (address &&& ~~~3).toNat) } } }

def moveOut (sector buffer : Word) (i : Nat) : Watched PUnit := do
  let address := buffer + 4 * BitVec.ofNat 32 i
  if dmaWord address then
    note (ramWord address)
    note (diskWord sector i)
    change (kept (diskAt sector i) address)
  else
    diskWritten (diskAt sector 0) (4 * i)
    throw ()

def moveData (h : Header) (data : Descriptor) : Watched PUnit :=
  let words := List.range (data.length.toNat / 4)
  if h.type = 0 then words.forM (moveIn h.sector data.address)
  else do
    words.forM (moveOut h.sector data.address)
    diskWritten (diskAt h.sector 0) data.length.toNat

def answer (h : Header) (data : Descriptor) : Watched Word := do
  let s ← get
  if 1 < h.type then return 2
  else if !h.fits s.1.v.drive data then return 1
  else
    moveData h data
    let s ← get
    return if s.1.v.writeError then 1 else 0

def writeUsed (c : Chain) (written result : Word) : Watched PUnit := do
  let v := (← get).1.v
  let used := v.deviceLo + 4 + 8 * (v.usedIdx.setWidth 32 &&& (v.queueNum - 1))
  dmaWrite c.status.address (result * 0x01010101) (1 <<< (c.status.address &&& 3).toNat)
  dmaWrite used c.head 0xf
  dmaWrite (used + 4) written 0xf
  dmaWrite (v.deviceLo + 2) ((v.usedIdx + 1).setWidth 32 * 0x10001)
    (if v.deviceLo &&& 2 ≠ 0 then 0x3 else 0xc)

def virtioRequest : Watched PUnit := do
  let c ← readChain
  let h ← readHeader c.header.address
  let result ← answer h c.data
  writeUsed c (if result = 0 ∧ h.type = 0 then c.data.length + 1 else 1) result
  change Blk.served

def serveLoop : (fuel : Nat) → Blk × List Touch → Bool × Blk × List Touch
  | 0, s => (false, s)
  | fuel + 1, s =>
    match dmaRead16 (s.1.v.driverLo + 2) s with
    | .error _ s => (true, s.1.needReset, s.2)
    | .ok available s =>
      if available = s.1.v.lastAvail then (true, s)
      else match virtioRequest s with
        | .ok _ s' => serveLoop fuel s'
        | .error _ s' => (true, s'.1.needReset, s'.2)

def virtioServe (fuel : Nat) (s : Blk × List Touch) : Bool × Blk × List Touch :=
  let v := s.1.v
  if v.descHi ≠ 0 ∨ v.driverHi ≠ 0 ∨ v.deviceHi ≠ 0 ∨ v.queueNum = 0 then (true, s.1.needReset, s.2)
  else serveLoop fuel s

def virtioStore (fuel : Nat) (s : Blk) (offset width : Nat) (value : Word) :
    Bool × (MemAccess × Blk) × List Touch :=
  if width ≠ 4 then (true, (.fault, s), [])
  else if offset = 0x050 then
    if s.v.serves value then
      let r := virtioServe fuel (s, [])
      (r.1, (.ok, r.2.1), r.2.2)
    else (true, (.ok, s), [])
  else match s.v.write offset value with
    | none => (true, (.fault, s), [])
    | some v => (true, (.ok, { s with v }), [])

end Watched

structure Seen (size : Word) (σ : Blk × List Touch) (s : Blk) : Prop where
  blk : σ.1 = s
  drive : s.v.drive.size = size
  within : ∀ t ∈ σ.2, t.Within size

theorem Seen.note (h : Seen size σ s) (ht : t.Within size) : Seen size (σ.1, σ.2 ++ [t]) s := by
  refine ⟨h.blk, h.drive, ?_⟩
  simp only [List.forall_mem_append, List.forall_mem_singleton]
  exact ⟨h.within, ht⟩

theorem Seen.change (h : Seen size σ s) (f : Blk → Blk) (hf : (f s).v.drive.size = s.v.drive.size) :
    Seen size (f σ.1, σ.2) (f s) :=
  ⟨congrArg f h.blk, hf.trans h.drive, h.within⟩

theorem ramWord_within (h : dmaWord address = true) (size : Word) :
    (Watched.ramWord address).Within size := by
  unfold dmaWord at h
  simp only [Bool.and_eq_true, decide_eq_true_eq] at h
  change (address &&& ~~~3).toNat - ramBase + 4 ≤ ramSize
  rw [wordStart]
  unfold ramBase ramSize at *
  omega

def Reading (size : Word) (s₀ : Blk) (σ : Blk × List Touch) (s : Blk) : Prop :=
  s = s₀ ∧ Seen size σ s

section Read

variable {size : Word} {s₀ s : Blk} {σ : Blk × List Touch}

theorem expect_bind (o : Option α) (f : α → Option β) :
    expect (o >>= f) = (expect o >>= fun a => expect (f a) : Service β) := by
  cases o with
  | none => rfl
  | some a => rfl

theorem expect_map (o : Option α) (f : α → β) :
    expect (o.map f) = (expect o >>= fun a => pure (f a) : Service β) := by
  cases o with
  | none => rfl
  | some a => rfl

theorem expect_guard (p : Prop) [Decidable p] (k : Unit → Service β) :
    (expect (guard p) >>= k : Service β) = if p then k () else throw () := by
  by_cases h : p
  · simp only [guard, h, if_true]
    rfl
  · simp only [guard, h, if_false]
    rfl

theorem expect_pure (a : α) : (expect (Pure.pure a : Option α) : Service α) = Pure.pure a := rfl

theorem dmaRead_agree (h : Reading size s₀ σ s) (address : Word) :
    Agree (Reading size s₀) (Watched.dmaRead address) (expect (dmaRead s₀.mem.ram address)) σ s := by
  unfold Watched.dmaRead dmaRead
  obtain ⟨rfl, hseen⟩ := h
  by_cases hd : dmaWord address = true
  · rw [if_pos hd, if_pos hd]
    refine ⟨?_, rfl, hseen.note (ramWord_within hd size)⟩
    rw [← hseen.blk]
  · rw [if_neg hd, if_neg hd]
    exact .throw ⟨rfl, hseen⟩

theorem dmaRead16_agree (h : Reading size s₀ σ s) (address : Word) :
    Agree (Reading size s₀) (Watched.dmaRead16 address) (expect (dmaRead16 s₀.mem.ram address)) σ s := by
  unfold Watched.dmaRead16 dmaRead16
  rw [expect_map]
  exact .bind (dmaRead_agree h address) fun _ _ _ h' => .pure h'

theorem readDescriptor_agree (h : Reading size s₀ σ s) (index : Word) :
    Agree (Reading size s₀) (Watched.readDescriptor index)
      (expect (readDescriptor s₀.mem.ram s₀.v index)) σ s := by
  have hblk : σ.1 = s₀ := h.2.blk.trans h.1
  unfold readDescriptor
  simp only [expect_bind, expect_guard, expect_pure]
  refine .read ?_
  rw [hblk]
  refine .bind (dmaRead_agree h _) fun address σ₁ s₁ h₁ => ?_
  refine .bind (dmaRead_agree h₁ _) fun high σ₂ s₂ h₂ => ?_
  refine .ite Iff.rfl (fun _ => ?_) fun _ => .throw h₂
  refine .bind (dmaRead_agree h₂ _) fun length σ₃ s₃ h₃ => ?_
  exact .bind (dmaRead_agree h₃ _) fun flags σ₄ s₄ h₄ => .pure h₄

theorem chainDescriptor_agree (h : Reading size s₀ σ s) (which : Nat) (index : Word) :
    Agree (Reading size s₀) (Watched.chainDescriptor which index)
      (expect (chainDescriptor s₀.mem.ram s₀.v which index)) σ s := by
  unfold chainDescriptor
  simp only [expect_bind, expect_guard, expect_pure]
  refine .bind (readDescriptor_agree h index) fun d σ₁ s₁ h₁ => ?_
  have hblk : σ₁.1 = s₀ := h₁.2.blk.trans h₁.1
  refine .read ?_
  rw [hblk]
  exact .ite Iff.rfl (fun _ => .pure h₁) fun _ => .throw h₁

theorem readChain_agree (h : Reading size s₀ σ s) :
    Agree (Reading size s₀) Watched.readChain (expect (readChain s₀.mem.ram s₀.v)) σ s := by
  have hblk : σ.1 = s₀ := h.2.blk.trans h.1
  unfold readChain
  simp only [expect_bind, expect_guard, expect_pure]
  refine .read ?_
  rw [hblk]
  refine .bind (dmaRead16_agree h _) fun head σ₁ s₁ h₁ => ?_
  refine .ite Iff.rfl (fun _ => ?_) fun _ => .throw h₁
  refine .bind (chainDescriptor_agree h₁ 0 _) fun header σ₂ s₂ h₂ => ?_
  refine .bind (chainDescriptor_agree h₂ 1 _) fun data σ₃ s₃ h₃ => ?_
  exact .bind (chainDescriptor_agree h₃ 2 _) fun status σ₄ s₄ h₄ => .pure h₄

theorem readHeader_agree (h : Reading size s₀ σ s) (address : Word) :
    Agree (Reading size s₀) (Watched.readHeader address)
      (expect (readHeader s₀.mem.ram address)) σ s := by
  unfold readHeader
  simp only [expect_bind, expect_pure]
  refine .bind (dmaRead_agree h _) fun type σ₁ s₁ h₁ => ?_
  refine .bind (dmaRead_agree h₁ _) fun sector σ₂ s₂ h₂ => ?_
  exact .bind (dmaRead_agree h₂ _) fun sectorHi σ₃ s₃ h₃ => .pure h₃

end Read

section Write

variable {size : Word} {s : Blk} {σ : Blk × List Touch}

theorem dmaWrite_agree (h : Seen size σ s) (address value strobe : Word) :
    Agree (Seen size) (Watched.dmaWrite address value strobe) (dmaWrite address value strobe)
      σ s := by
  unfold Watched.dmaWrite dmaWrite Memory.dmaWrite
  by_cases hd : dmaWord address = true
  · rw [if_pos hd]
    simp only [if_pos hd]
    exact ⟨rfl, (h.note (ramWord_within hd size)).change (Watched.stored address value strobe) rfl⟩
  · rw [if_neg hd]
    simp only [if_neg hd]
    exact .throw h

theorem Header.fits_bytes {h : Header} {drive : Drive} {data : Descriptor}
    (hf : h.fits drive data = true) :
    h.sector.toNat * 512 + data.length.toNat / 4 * 4 ≤ drive.size.toNat ∧
      data.length.toNat % 4 = 0 := by
  unfold Header.fits at hf
  simp only [Bool.and_eq_true, decide_eq_true_eq] at hf
  obtain ⟨⟨⟨⟨⟨-, -⟩, hl⟩, -⟩, hs⟩, -⟩ := hf
  have hlen : data.length.toNat % 4 = 0 := by
    have := congrArg BitVec.toNat hl
    simpa [BitVec.toNat_and, Nat.and_two_pow_sub_one_eq_mod _ 2] using this
  exact ⟨by omega, hlen⟩

theorem diskAt_eq {sector : Word} {i : Nat} (h : sector.toNat * 512 + 4 * i < 2 ^ 32) :
    Watched.diskAt sector i = sector.toNat * 512 + 4 * i := by
  unfold Watched.diskAt
  have h512 : (512 : Word).toNat = 512 := rfl
  have h4 : (4 : Word).toNat = 4 := rfl
  rw [BitVec.toNat_add, BitVec.toNat_mul, BitVec.toNat_mul, BitVec.toNat_ofNat, h512, h4]
  omega

theorem diskAt_zero {sector : Word} (h : sector.toNat * 512 < 2 ^ 32) :
    Watched.diskAt sector 0 = sector.toNat * 512 := by
  have hat : sector.toNat * 512 + 4 * 0 < 2 ^ 32 →
      Watched.diskAt sector 0 = sector.toNat * 512 + 4 * 0 := diskAt_eq
  rw [Nat.mul_zero, Nat.add_zero] at hat
  exact hat h

theorem diskWritten_agree (h : Seen size σ s) (hw : start + count ≤ size.toNat) :
    Agree (Seen size) (Watched.diskWritten start count)
      (modify fun s => { s with v := s.v.diskWritten }) σ s := by
  have hsize : ∀ s : Blk, s.v.diskWritten.drive.size = s.v.drive.size := fun s =>
    congrArg Drive.size s.v.diskWritten_drive
  refine .read ?_
  split
  · have hseen : Seen size (σ.1, σ.2 ++ [⟨true, start, count⟩]) s := h.note hw
    exact ⟨rfl, hseen.change (fun s => { s with v := s.v.diskWritten }) (hsize s)⟩
  · exact ⟨rfl, h.change (fun s => { s with v := s.v.diskWritten }) (hsize s)⟩

theorem moveIn_agree (h : Seen size σ s) (hw : sector.toNat * 512 + 4 * i + 4 ≤ size.toNat)
    (buffer : Word) :
    Agree (Seen size) (Watched.moveIn sector buffer i) (moveIn sector buffer i) σ s := by
  have hat : Watched.diskAt sector i = sector.toNat * 512 + 4 * i :=
    diskAt_eq (by have := size.isLt; omega)
  have hseen : Seen size (σ.1, σ.2 ++ [Watched.diskWord sector i]) s := by
    refine h.note ?_
    change Watched.diskAt sector i + 4 ≤ size.toNat
    rw [hat]
    exact hw
  unfold Watched.moveIn moveIn
  rw [hat]
  have hwrite := dmaWrite_agree hseen (buffer + 4 * BitVec.ofNat 32 i)
    (s.v.drive.bytes.word (sector.toNat * 512 + 4 * i)) 0xf
  rw [← h.blk] at hwrite ⊢
  exact hwrite

theorem moveOut_agree (h : Seen size σ s) (hw : sector.toNat * 512 + 4 * i + 4 ≤ size.toNat)
    (buffer : Word) :
    Agree (Seen size) (Watched.moveOut sector buffer i) (moveOut sector buffer i) σ s := by
  have hat : Watched.diskAt sector i = sector.toNat * 512 + 4 * i :=
    diskAt_eq (by have := size.isLt; omega)
  have hat₀ : Watched.diskAt sector 0 = sector.toNat * 512 :=
    diskAt_zero (by have := size.isLt; omega)
  have hdisk : (Watched.diskWord sector i).Within size := by
    change Watched.diskAt sector i + 4 ≤ size.toNat
    rw [hat]
    exact hw
  unfold Watched.moveOut moveOut
  rw [hat, hat₀]
  unfold dmaRead
  by_cases hd : dmaWord (buffer + 4 * BitVec.ofNat 32 i) = true
  · simp only [if_pos hd]
    have hseen := (h.note (ramWord_within hd size)).note hdisk
    exact ⟨rfl, hseen.change
      (Watched.kept (sector.toNat * 512 + 4 * i) (buffer + 4 * BitVec.ofNat 32 i)) rfl⟩
  · simp only [if_neg hd]
    have hbefore : sector.toNat * 512 + 4 * i ≤ size.toNat := Nat.le_of_add_right_le hw
    exact .bind (diskWritten_agree h hbefore) fun _ _ _ h' => .throw h'

theorem moveData_agree (h : Seen size σ s) (hf : header.fits s.v.drive data = true) :
    Agree (Seen size) (Watched.moveData header data) (moveData header data) σ s := by
  obtain ⟨hbytes, hlen⟩ := header.fits_bytes hf
  rw [h.drive] at hbytes
  have hword : ∀ i ∈ List.range (data.length.toNat / 4),
      header.sector.toNat * 512 + 4 * i + 4 ≤ size.toNat := by
    intro i hi
    have hi' : 4 * i + 4 ≤ data.length.toNat / 4 * 4 := by
      have := List.mem_range.mp hi
      omega
    rw [Nat.add_assoc]
    exact (Nat.add_le_add_left hi' _).trans hbytes
  unfold Watched.moveData moveData
  refine .ite Iff.rfl (fun _ => ?_) fun _ => ?_
  · exact .forM _ (fun i hi _ _ h => moveIn_agree h (hword i hi) _) σ s h
  · refine .bind (.forM _ (fun i hi _ _ h => moveOut_agree h (hword i hi) _) σ s h) ?_
    intro _ σ' s' h'
    refine diskWritten_agree h' ?_
    have hat : Watched.diskAt header.sector 0 = header.sector.toNat * 512 :=
      diskAt_zero (by have := size.isLt; omega)
    omega

theorem answer_agree (h : Seen size σ s) (header : Header) (data : Descriptor) :
    Agree (Seen size) (Watched.answer header data) (answer header data) σ s := by
  unfold Watched.answer answer
  refine .read (.read_right ?_)
  rw [h.blk]
  refine .ite Iff.rfl (fun _ => .pure h) fun _ => ?_
  refine .ite Iff.rfl (fun _ => .pure h) fun hf => ?_
  refine .bind (moveData_agree h (by simpa using hf)) fun _ σ' s' h' => .read (.read_right ?_)
  rw [h'.blk]
  exact .pure h'

theorem writeUsed_agree (h : Seen size σ s) (c : Chain) (written result : Word) :
    Agree (Seen size) (Watched.writeUsed c written result) (writeUsed c written result) σ s := by
  unfold Watched.writeUsed writeUsed
  refine .read (.read_right ?_)
  rw [h.blk]
  refine .bind (dmaWrite_agree h _ _ _) fun _ _ _ h => ?_
  refine .bind (dmaWrite_agree h _ _ _) fun _ _ _ h => ?_
  refine .bind (dmaWrite_agree h _ _ _) fun _ _ _ h => ?_
  exact dmaWrite_agree h _ _ _

theorem virtioRequest_agree (h : Seen size σ s) :
    Agree (Seen size) Watched.virtioRequest Blk.virtioRequest σ s := by
  have hread : Reading size s σ s := ⟨rfl, h⟩
  unfold Watched.virtioRequest Blk.virtioRequest performRequest
  simp only [bind_assoc]
  refine .read_right ?_
  refine (readChain_agree hread).seq (fun _ _ h => h.2) fun c σ₁ s₁ h₁ => ?_
  refine (readHeader_agree h₁ _).seq (fun _ _ h => h.2) fun header σ₂ s₂ h₂ => ?_
  refine .bind (answer_agree h₂.2 _ _) fun result _ _ h => ?_
  refine .bind (writeUsed_agree h _ _ _) fun _ _ s₃ h => ?_
  exact ⟨rfl, h.change Blk.served rfl⟩

def Watched.outcome (r : Bool × α × List Touch) : Option α := if r.1 then some r.2.1 else none

structure Shows (size : Word) (r : Bool × α × List Touch) (o : Option α) : Prop where
  outcome : o = Watched.outcome r
  within : ∀ t ∈ r.2.2, t.Within size

theorem Seen.stop (h : Seen size σ s) : Shows size (true, σ.1.needReset, σ.2) (some s.needReset) :=
  ⟨congrArg some (congrArg Blk.needReset h.blk.symm), h.within⟩

theorem Seen.done (h : Seen size σ s) : Shows size (true, σ) (some s) :=
  ⟨congrArg some h.blk.symm, h.within⟩

theorem serveLoop_shows (fuel : Nat) (h : Seen size σ s) :
    Shows size (Watched.serveLoop fuel σ) (serveLoop fuel s) := by
  induction fuel generalizing σ s with
  | zero => exact ⟨rfl, h.within⟩
  | succ fuel ih =>
    have hread : Reading size s σ s := ⟨rfl, h⟩
    have hav := dmaRead16_agree hread (s.v.driverLo + 2)
    unfold Agree at hav
    unfold serveLoop Watched.serveLoop
    rw [h.blk]
    cases ho : dmaRead16 s.mem.ram (s.v.driverLo + 2) with
    | none =>
      rw [ho] at hav
      cases hw : Watched.dmaRead16 (s.v.driverLo + 2) σ with
      | ok available σ₁ =>
        rw [hw] at hav
        exact hav.elim
      | error e σ₁ =>
        rw [hw] at hav
        exact hav.2.2.stop
    | some n =>
      rw [ho] at hav
      cases hw : Watched.dmaRead16 (s.v.driverLo + 2) σ with
      | error e σ₁ =>
        rw [hw] at hav
        exact hav.elim
      | ok available σ₁ =>
        rw [hw] at hav
        obtain ⟨rfl, -, h₁⟩ := hav
        dsimp only
        rw [h₁.blk]
        by_cases hdone : available = s.v.lastAvail
        · rw [if_pos hdone, if_pos hdone]
          exact h₁.done
        · rw [if_neg hdone, if_neg hdone]
          have hreq := virtioRequest_agree h₁
          unfold Agree at hreq
          cases hs : Blk.virtioRequest s with
          | ok u s₂ =>
            rw [hs] at hreq
            cases hσ : Watched.virtioRequest σ₁ with
            | error e σ₂ =>
              rw [hσ] at hreq
              exact hreq.elim
            | ok u' σ₂ =>
              rw [hσ] at hreq
              exact ih hreq.2
          | error e s₂ =>
            rw [hs] at hreq
            cases hσ : Watched.virtioRequest σ₁ with
            | ok u' σ₂ =>
              rw [hσ] at hreq
              exact hreq.elim
            | error e' σ₂ =>
              rw [hσ] at hreq
              exact hreq.2.stop

theorem virtioServe_shows (fuel : Nat) (h : Seen size σ s) :
    Shows size (Watched.virtioServe fuel σ) (virtioServe fuel s) := by
  unfold virtioServe Watched.virtioServe
  dsimp only
  rw [h.blk]
  split
  · exact ⟨rfl, h.within⟩
  · exact serveLoop_shows fuel h

end Write

theorem virtioStore_shows (fuel : Nat) (s : Blk) (offset width : Nat) (value : Word) :
    Shows s.v.drive.size (Watched.virtioStore fuel s offset width value)
      (virtioStore fuel s offset width value) := by
  have hstart : Seen s.v.drive.size (s, []) s := ⟨rfl, rfl, by simp⟩
  have hnone : ∀ a : MemAccess × Blk, Shows s.v.drive.size (true, a, []) (some a) :=
    fun _ => ⟨rfl, by simp⟩
  unfold virtioStore Watched.virtioStore
  split
  · exact hnone _
  · split
    · split
      · obtain ⟨hend, hin⟩ := virtioServe_shows fuel hstart
        refine ⟨?_, hin⟩
        rw [hend]
        unfold Watched.outcome
        split
        · rfl
        · rfl
      · exact hnone _
    · cases s.v.write offset value with
      | none | some v => exact hnone _

/-- A state in which a notify can go no further. -/
def Blk.Refuses (s : Blk) : Prop :=
  (s.v.descHi ≠ 0 ∨ s.v.driverHi ≠ 0 ∨ s.v.deviceHi ≠ 0 ∨ s.v.queueNum = 0) ∨
    dmaRead16 s.mem.ram (s.v.driverLo + 2) = none ∨ ∃ s', Blk.virtioRequest s = .error () s'

structure Blk.Stopped (s s' : Blk) : Prop where
  status : s'.v.status = s.v.status ||| virtioNeedsReset
  usedIdx : s'.v.usedIdx = s.v.usedIdx
  lastAvail : s'.v.lastAvail = s.v.lastAvail

theorem Blk.needReset_stopped (s : Blk) : s.Stopped s.needReset := ⟨rfl, rfl, rfl⟩

theorem virtioRequest_stopped (h : Blk.virtioRequest s = .error e s') :
    s.Stopped s'.needReset := by
  have hq := virtioRequest_failed h
  refine ⟨?_, ?_, ?_⟩
  · change s'.v.status ||| _ = _
    rw [hq]
  · change s'.v.usedIdx = _
    rw [hq]
  · change s'.v.lastAvail = _
    rw [hq]

theorem serveLoop_cases {s : Blk} (h : serveLoop fuel s = some s') :
    ∃ s₁, Relation.ReflTransGen Blk.Round s s₁ ∧
      (dmaRead16 s₁.mem.ram (s₁.v.driverLo + 2) = some s₁.v.lastAvail ∧ s' = s₁ ∨
        s₁.Refuses ∧ s₁.Stopped s') := by
  induction fuel generalizing s with
  | zero => cases h
  | succ fuel ih =>
    unfold serveLoop at h
    cases hread : dmaRead16 s.mem.ram (s.v.driverLo + 2) with
    | none =>
      rw [hread] at h
      cases h
      exact ⟨s, .refl, .inr ⟨.inr (.inl hread), s.needReset_stopped⟩⟩
    | some available =>
      rw [hread] at h
      dsimp only at h
      split at h
      next heq =>
        cases h
        exact ⟨_, .refl, .inl ⟨heq ▸ hread, rfl⟩⟩
      next hne =>
        cases hreq : Blk.virtioRequest s with
        | ok u s₁ =>
          rw [hreq] at h
          obtain ⟨s₂, hs, hend⟩ := ih h
          exact ⟨s₂, .head ⟨⟨available, hread, hne⟩, hreq⟩ hs, hend⟩
        | error e s₁ =>
          rw [hreq] at h
          cases h
          exact ⟨s, .refl, .inr ⟨.inr (.inr ⟨s₁, hreq⟩), virtioRequest_stopped hreq⟩⟩

theorem notify_cases {s : Blk} (hserves : s.v.serves value = true)
    (h : virtioStore fuel s 0x050 4 value = some (.ok, s')) :
    ∃ s₁, Relation.ReflTransGen Blk.Round s s₁ ∧
      (dmaRead16 s₁.mem.ram (s₁.v.driverLo + 2) = some s₁.v.lastAvail ∧ s' = s₁ ∨
        s₁.Refuses ∧ s₁.Stopped s') := by
  simp only [virtioStore, hserves, if_true, ne_eq, not_true, if_false, Option.map_eq_some_iff] at h
  obtain ⟨s₁, hserve, heq⟩ := h
  cases heq
  unfold virtioServe at hserve
  split at hserve
  next hbad =>
    cases hserve
    exact ⟨s, .refl, .inr ⟨.inl hbad, s.needReset_stopped⟩⟩
  next => exact serveLoop_cases hserve

theorem or_needsReset (status : BitVec 8) :
    (status ||| virtioNeedsReset) &&& virtioNeedsReset ≠ 0 := by
  revert status
  decide

/-- A step of the machine that does not write the status register. -/
inductive Blk.Passes : Blk → Blk → Prop
  | store {s s' : Blk} {fuel offset width : Nat} {value : Word} {r : MemAccess}
      (other : offset ≠ 0x070 ∨ width ≠ 4)
      (h : virtioStore fuel s offset width value = some (r, s')) : Passes s s'
  | memory (s : Blk) (m : Memory) : Passes s { s with mem := m }

theorem VirtioBlk.serves_of_needsReset {v : VirtioBlk} (h : v.status &&& virtioNeedsReset ≠ 0)
    (value : Word) : v.serves value = false := by
  unfold VirtioBlk.serves
  rw [decide_eq_false h, Bool.and_false]

theorem VirtioBlk.write_status {v v' : VirtioBlk} (h : v.write offset value = some v')
    (ho : offset ≠ 0x070) : v'.status = v.status := by
  have hqueue : ∀ f : VirtioBlk → VirtioBlk, (∀ v, (f v).status = v.status) →
      (v.ofQueue f).status = v.status := by
    intro f hf
    unfold VirtioBlk.ofQueue
    split
    · exact hf v
    · rfl
  unfold VirtioBlk.write at h
  split at h
  all_goals cases h
  all_goals first
    | rfl
    | exact hqueue _ fun _ => rfl
    | exact absurd rfl ho
    | skip
  split
  · rfl
  · rfl

theorem virtioStore_ignored {s : Blk} (h : s.v.status &&& virtioNeedsReset ≠ 0) (fuel : Nat)
    (value : Word) : virtioStore fuel s 0x050 4 value = some (.ok, s) := by
  simp [virtioStore, VirtioBlk.serves_of_needsReset h]

theorem Blk.Passes.status {s s' : Blk} (h : s.Passes s')
    (hs : s.v.status &&& virtioNeedsReset ≠ 0) : s'.v.status = s.v.status := by
  cases h with
  | memory m => rfl
  | store other h =>
    unfold virtioStore at h
    split at h
    next =>
      cases h
      rfl
    next hw =>
      split at h
      next =>
        rw [VirtioBlk.serves_of_needsReset hs] at h
        cases h
        rfl
      next =>
        split at h
        next =>
          cases h
          rfl
        next v hv =>
          cases h
          exact VirtioBlk.write_status hv (other.resolve_right hw)

theorem Blk.Passes.all {s s' : Blk} (h : Relation.ReflTransGen Blk.Passes s s')
    (hs : s.v.status &&& virtioNeedsReset ≠ 0) : s'.v.status &&& virtioNeedsReset ≠ 0 := by
  induction h with
  | refl => exact hs
  | tail _ hstep ih =>
    rw [hstep.status ih]
    exact ih

/-- A store touches only the disk and RAM; a refused request waits for a reset. -/
theorem virtio_confined (s : Blk) (fuel : Nat) :
    (∀ offset width value,
      virtioStore fuel s offset width value =
        Watched.outcome (Watched.virtioStore fuel s offset width value) ∧
      ∀ t ∈ (Watched.virtioStore fuel s offset width value).2.2, t.Within s.v.drive.size) ∧
    ∀ value s', s.v.serves value = true →
      virtioStore fuel s 0x050 4 value = some (.ok, s') →
      ∃ s₁, Relation.ReflTransGen Blk.Round s s₁ ∧
        (dmaRead16 s₁.mem.ram (s₁.v.driverLo + 2) = some s₁.v.lastAvail ∧ s' = s₁ ∨
          s₁.Refuses ∧ s₁.Stopped s' ∧
            ∀ s₂, Relation.ReflTransGen Blk.Passes s' s₂ →
              ∀ fuel value, virtioStore fuel s₂ 0x050 4 value = some (.ok, s₂)) := by
  refine ⟨fun offset width value => ?_, fun value s' hserves h => ?_⟩
  · obtain ⟨hend, hin⟩ := virtioStore_shows fuel s offset width value
    exact ⟨hend, hin⟩
  · obtain ⟨s₁, hround, hend⟩ := notify_cases hserves h
    refine ⟨s₁, hround, hend.imp id ?_⟩
    rintro ⟨hrefuses, hstopped⟩
    refine ⟨hrefuses, hstopped, fun s₂ hs₂ fuel value => ?_⟩
    have hneeds : s'.v.status &&& virtioNeedsReset ≠ 0 := by
      rw [hstopped.status]
      exact or_needsReset _
    exact virtioStore_ignored (Blk.Passes.all hs₂ hneeds) fuel value

def astray : Blk :=
  { spinner with mem := { spinner.mem with ram := spinnerRam.withWords 0x80000020 [0] } }

theorem virtio_confined_astray : ∃ s', virtioStore 1 astray 0x050 4 0 = some (.ok, s') ∧
    astray.Stopped s' ∧ virtioStore 0 s' 0x050 4 0 = some (.ok, s') := by
  have hend : ((virtioStore 1 astray 0x050 4 0).map fun r => decide (r.1 = .ok)) = some true := by
    decide
  have hfails : endsIn Blk.virtioRequest astray (fun _ => True) = false := by decide
  have hav : dmaRead16 astray.mem.ram (astray.v.driverLo + 2) = some 1 := by decide
  have hnone : ∀ s, ¬astray.Round s := by
    intro s hs
    rw [endsIn, hs.2] at hfails
    cases hfails
  obtain ⟨⟨r, s'⟩, hstore, hr⟩ := Option.map_eq_some_iff.mp hend
  obtain rfl : r = .ok := of_decide_eq_true hr
  obtain ⟨s₁, hround, hcases⟩ := (virtio_confined astray 1).2 0 s' (by decide) hstore
  obtain rfl | ⟨s, hs, -⟩ := hround.cases_head
  · obtain ⟨hdone, -⟩ | ⟨-, hstopped, hignored⟩ := hcases
    · rw [hav] at hdone
      exact absurd (Option.some.inj hdone) (by decide)
    · exact ⟨s', hstore, hstopped, hignored s' .refl 0 0⟩
  · exact absurd hs (hnone s)

end TinyProcessors
