import TinyProcessors.Os.Machine
import TinyProcessors.Lib.Logic

namespace TinyProcessors

def State.stringAt (s : State) (p : Fin 8) : Word → (max : Nat) → Option (List UInt8)
  | _, 0 => none
  | address, max + 1 =>
    if s.userRange p address 1 then
      if s.io.mem address.toNat = 0 then some []
      else (s.stringAt p (address + 1) max).map (s.io.mem address.toNat :: ·)
    else none

def Entry.file (e : Entry) : Option Entry := if e.name 0 = 0 then none else some e

/-- The files of two states, with their sizes and contents. -/
structure FilesKept (io io' : Io) : Prop where
  memory : ∀ i, (io'.fs.directory i).file = (io.fs.directory i).file
  disk : ∀ i : Fin 16, (Entry.decode io'.disk.image (512 + 32 * i.val)).file =
    (Entry.decode io.disk.image (512 + 32 * i.val)).file
  contents : ∀ a, 1024 ≤ a → io'.disk.image a = io.disk.image a

def openMode (a1 : Word) : Word := a1 &&& (oRead ||| oWrite)

def openCreates (a1 : Word) : Bool := a1 &&& oCreate ≠ 0 && openMode a1 = oWrite

/-- The slot and the entry of the file that an `open` is to create. -/
def State.newFile (s : State) (p : Fin 8) (a0 a1 : Word) : Option (Fin 16 × Entry) :=
  if a1 &&& ~~~(oRead ||| oWrite ||| oCreate) = 0 ∧ openCreates a1 = true ∧
      ∃ k, ((s.procs p).files k).mode = 0 then
    match s.stringAt p a0 20 with
    | none => none
    | some name =>
      match openScan s.io.fs name (List.finRange 16) none 2 with
      | .inl _ => none
      | .inr (free, next) =>
        if s.io.fs.mounted = true ∧ name ≠ [] ∧ name.length < 20 ∧ ¬next + 8 > s.io.fs.sectors then
          free.map fun i => (i, newEntry name next)
        else none
  else none

/-- The driver writes the directory back. -/
def Disk.TakesDirectory (d : Disk) : Prop :=
  d.failure = none ∧ 2 ≤ d.capacity.toNat ∧ d.outcome d.served = .done

def State.OpenSafe (s : State) (p : Fin 8) (a0 a1 : Word) : Prop :=
  ∀ i e, s.newFile p a0 a1 = some (i, e) → s.io.disk.TakesDirectory ∧ s.mayOpen i oWrite = true

section Served

def DevicesMove (s s' : State) : Prop := ∃ d, s' = { s with dev := d }

instance : IsPreorder State DevicesMove where
  refl s := ⟨s.dev, rfl⟩
  trans := by
    rintro s _ _ ⟨d, rfl⟩ ⟨d', rfl⟩
    exact ⟨d', rfl⟩

abbrev Accesses (m : Kernel α) (s : State) (R : α → State → Prop := fun _ _ => True) : Prop :=
  Does DevicesMove (fun _ _ _ => True) m s R

theorem bus_accesses (b : Board) (a : Access) (s : State) :
    Accesses (bus b a) s := by
  have ht : DevicesMove s (s.touch a) := ⟨_, rfl⟩
  unfold Accesses Does Ensures bus
  split
  next h =>
    split at h
    · cases h
      exact ⟨ht, trivial⟩
    · cases h
  next h =>
    split at h
    · cases h
    · cases h
      exact ⟨_, ht, trivial⟩

theorem busRange_accesses (b : Board) (kind : Kind) (n address : Nat) (s : State) :
    Accesses (busRange b kind address n) s := by
  induction n generalizing address s with
  | zero => exact .pure trivial
  | succ n ih => exact (bus_accesses b _ s).seq fun _ s₁ _ => ih _ s₁

theorem busRanges_accesses (b : Board) (kind : Kind) (ranges : List (Nat × Nat)) (s : State) :
    Accesses (busRanges b kind ranges) s := by
  induction ranges generalizing s with
  | nil => exact .pure trivial
  | cons r ranges ih => exact (busRange_accesses b kind r.2 r.1 s).seq fun _ s₁ _ => ih s₁

theorem virtioRequests_accesses (b : Board) (n : Nat) (s : State) :
    Accesses (virtioRequests b n) s := by
  induction n generalizing s with
  | zero => exact .pure trivial
  | succ n ih =>
    refine .seq (P := fun _ _ => True) ?_ fun _ s₁ _ => ih s₁
    refine (bus_accesses b _ s).seq fun _ s₁ _ => (bus_accesses b _ s₁).seq fun _ s₂ _ => ?_
    exact (bus_accesses b _ s₂).seq fun _ s₃ _ => bus_accesses b _ s₃

theorem fsAccesses_accesses (b : Board) (served : Nat) (io : Io) (s : State) :
    Accesses (fsAccesses b served io) s := by
  refine (virtioRequests_accesses b _ s).seq fun _ s₁ _ => ?_
  exact (busRanges_accesses b _ _ s₁).seq fun _ s₂ _ => busRanges_accesses b _ _ s₂

theorem State.stringAt_dev (s : State) (d : Devices) (p : Fin 8) (max : Nat) (address : Word) :
    ({ s with dev := d } : State).stringAt p address max = s.stringAt p address max := by
  induction max generalizing address with
  | zero => rfl
  | succ max ih =>
    unfold State.stringAt
    rw [ih]
    rfl

theorem userString_accesses (b : Board) (p : Fin 8) (max : Nat) (address : Word) (s : State) :
    Accesses (userString b p address max) s fun r _ => r = s.stringAt p address max := by
  induction max generalizing address s with
  | zero => exact .pure rfl
  | succ max ih =>
    refine .read ?_
    unfold State.stringAt
    split
    next hin =>
      refine .bind (P := fun c _ => c = s.io.mem address.toNat) ?_ ?_
      · refine (bus_accesses b _ s).seq fun _ s₁ h₁ => ?_
        obtain ⟨d, rfl⟩ := h₁
        exact .read (.pure rfl)
      · rintro c s₁ ⟨d, rfl⟩ rfl
        split
        next => exact .pure rfl
        next =>
          refine (ih (address + 1) _).bind fun r s₂ _ hr => ?_
          rw [hr, s.stringAt_dev]
          exact .pure rfl
    next => exact .pure rfl

theorem fsCall_serves (b : Board) (f : Io → α × Io) (s : State) :
    Ensures (fsCall b f) s (fun a s' => a = (f s.io.clean).1 ∧
      ∃ d, s' = { s with io := (f s.io.clean).2, dev := d }) fun _ _ => True := by
  have haccess := fsAccesses_accesses b s.io.disk.served (f s.io.clean).2
    { s with io := (f s.io.clean).2 }
  change Ensures (fsAccesses b s.io.disk.served (f s.io.clean).2 >>= fun _ => pure (f s.io.clean).1)
    { s with io := (f s.io.clean).2 } _ _
  refine Ensures.bind (Ensures.mono haccess ?_ fun _ _ _ => trivial)
  rintro _ _ ⟨⟨d, rfl⟩, -⟩
  exact ⟨rfl, d, rfl⟩

end Served

theorem openScan_free (fs : Fs) (name : List UInt8) (l : List (Fin 16)) (free : Option (Fin 16))
    (next : Word) (hfree : ∀ i ∈ free, (fs.directory i).name 0 = 0)
    (h : openScan fs name l free next = .inr (some i, next')) : (fs.directory i).name 0 = 0 := by
  induction l generalizing free next with
  | nil =>
    unfold openScan at h
    injection h with h
    injection h with h
    exact hfree i h
  | cons j l ih =>
    unfold openScan at h
    split_ifs at h with hname hcorrupt hsame
    · refine ih _ _ ?_ h
      intro k hk
      cases free with
      | none =>
        cases hk
        exact hname
      | some f =>
        cases hk
        exact hfree _ rfl
    · exact ih _ _ hfree h
    · exact ih _ _ hfree h

theorem virtioTransfer_takes (d : Disk) :
    (virtioTransfer d 1 1).2.1 = true ↔ d.TakesDirectory := by
  unfold virtioTransfer Disk.TakesDirectory
  cases hf : d.failure with
  | some f => simp
  | none =>
    by_cases hc : d.capacity.toNat < 2
    · simp [hc]
    · cases ho : d.outcome d.served with
      | done => simp [hc, Nat.le_of_not_lt hc]
      | ioError moved => simp [hc]
      | gaveUp f moved => simp [hc]

theorem FilesKept.of_eq {io io' : Io} (hfs : io'.fs = io.fs) (hdisk : io'.disk = io.disk) :
    FilesKept io io' := by
  refine ⟨fun i => ?_, fun i => ?_, fun a _ => ?_⟩
  · rw [hfs]
  · rw [hdisk]
  · rw [hdisk]

structure Creating (io : Io) (name : List UInt8) (create : Bool) (i : Fin 16) (next : Word) :
    Prop where
  mounted : io.fs.mounted = true
  asked : create = true
  named : name ≠ []
  short : name.length < 20
  scan : openScan io.fs name (List.finRange 16) none 2 = .inr (some i, next)
  room : ¬next + 8 > io.fs.sectors

theorem fsOpen_creating (h : Creating io name create i next) :
    fsOpen io name create =
      (if (fsFlush (io.setEntry i (newEntry name next))).1 then some i else none,
        (fsFlush (io.setEntry i (newEntry name next))).2) := by
  have hshort := h.short
  have hroom := h.room
  simp only [fsOpen, h.mounted, h.named, h.scan, h.asked, Bool.not_true, decide_false, Bool.or_false,
    Nat.not_le.mpr hshort, hroom]
  rfl

theorem fsOpen_unless (h : ∀ i next, ¬Creating io name create i next) :
    (fsOpen io name create).2 = io := by
  unfold fsOpen
  split
  next => rfl
  next hm =>
    split
    next => rfl
    next free next hscan =>
      split
      next => rfl
      next i =>
        split
        next => rfl
        next hno =>
          simp only [Bool.or_eq_true, Bool.not_eq_true', decide_eq_true_eq, not_or,
            Bool.not_eq_false] at hm hno
          exact absurd ⟨hm.1, hno.1.1, hm.2, by omega, hscan, hno.2⟩ (h i next)

theorem State.newFile_iff (s : State) (hflags : a1 &&& ~~~(oRead ||| oWrite ||| oCreate) = 0)
    (hname : s.stringAt p a0 20 = some name) (hk : ((s.procs p).files k).mode = 0) :
    s.newFile p a0 a1 = some (i, e) ↔
      ∃ next, Creating s.io name (openCreates a1) i next ∧ e = newEntry name next := by
  unfold State.newFile
  rw [hname]
  constructor
  · intro h
    split_ifs at h with hif
    dsimp only at h
    split at h
    next => cases h
    next free next hscan =>
      split_ifs at h with hroom
      obtain ⟨hm, hn, hs, hr⟩ := hroom
      obtain ⟨j, rfl, hj⟩ := Option.map_eq_some_iff.mp h
      injection hj with hj he
      subst hj
      exact ⟨next, ⟨hm, hif.2.1, hn, hs, hscan, hr⟩, he.symm⟩
  · rintro ⟨next, hc, rfl⟩
    rw [if_pos ⟨hflags, hc.asked, k, hk⟩]
    dsimp only
    rw [hc.scan]
    dsimp only
    rw [if_pos ⟨hc.mounted, hc.named, hc.short, hc.room⟩]
    rfl

theorem State.newFile_none (s : State) (h : ¬(openMode a1 = oRead ∨ openMode a1 = oWrite) ∨
    a1 &&& ~~~(oRead ||| oWrite ||| oCreate) ≠ 0 ∨ s.stringAt p a0 20 = none ∨
    ∀ k, ((s.procs p).files k).mode ≠ 0) : s.newFile p a0 a1 = none := by
  unfold State.newFile
  split_ifs with hif
  · obtain ⟨hflags, hcreates, k, hk⟩ := hif
    rcases h with hmode | hf | hname | hnone
    · unfold openCreates at hcreates
      rw [Bool.and_eq_true, decide_eq_true_eq, decide_eq_true_eq] at hcreates
      exact absurd (.inr hcreates.2) hmode
    · exact absurd hflags hf
    · rw [hname]
    · exact absurd hk (hnone k)
  · rfl

theorem State.openSafe_of_none {s : State} {r : Answer} (h : s.newFile p a0 a1 = none)
    (hkept : r = .result sysError → FilesKept s.io io') :
    (r = .result sysError → FilesKept s.io io') ↔ s.OpenSafe p a0 a1 := by
  refine ⟨fun _ i e he => ?_, fun _ => hkept⟩
  rw [h] at he
  cases he

theorem descriptor_ne_error (k : Fin 4) :
    Answer.result (BitVec.ofNat 32 (3 + k.val)) ≠ .result sysError := by
  intro h
  injection h with h
  revert k
  decide

theorem takeFile_serves (p : Fin 8) (k : Fin 4) (mode : Word) (file : Fin 16) (s : State) :
    Ensures (takeFile p k mode file) s (fun r s' =>
      (s.mayOpen file mode = true ∧ r ≠ .result sysError) ∨
        (s.mayOpen file mode = false ∧ r = .result sysError ∧ s' = s)) fun _ _ => True := by
  unfold takeFile
  change Ensures (if s.mayOpen file mode then _ else _) s _ _
  split
  next h => exact .inl ⟨h, descriptor_ne_error k⟩
  next h => exact .inr ⟨eq_false_of_ne_true h, rfl, rfl⟩

theorem State.stringAt_head (s : State) (p : Fin 8) (address : Word) (max : Nat)
    (next : Word) (h : s.stringAt p address max = some name) (hn : name ≠ []) :
    (newEntry name next).name 0 ≠ 0 := by
  cases max with
  | zero => cases h
  | succ max =>
    unfold State.stringAt at h
    split_ifs at h with hrange hzero
    · cases h
      exact absurd rfl hn
    · obtain ⟨rest, -, rfl⟩ := Option.map_eq_some_iff.mp h
      exact hzero

theorem Creating.not_kept (h : Creating io name create i next)
    (hhead : (newEntry name next).name 0 ≠ 0) (hnew : io'.fs.directory i = newEntry name next) :
    ¬FilesKept io io' := by
  intro hkept
  have hfree := openScan_free io.fs name _ none 2 (by rintro j ⟨⟩) h.scan
  have hsame := hkept.memory i
  rw [hnew, Entry.file, Entry.file, if_pos hfree, if_neg hhead] at hsame
  cases hsame

theorem fsFlush_eq (io : Io) (h : io.fs.mounted = true) :
    (fsFlush io).1 = (virtioTransfer io.disk 1 1).2.1 ∧ (fsFlush io).2.fs = io.fs := by
  simp only [fsFlush, h, if_true, Disk.transferOut, and_self]

section Opened

/-- What the rest of `open` does once the name and a free slot are found. -/
abbrev Opened (b : Board) (p : Fin 8) (k : Fin 4) (s : State) (d : Devices) (a0 a1 : Word)
    (name : List UInt8) : Prop :=
  Ensures (fsCall b (fun io => fsOpen io name (openCreates a1)) >>= fun file =>
    match file with
    | none => pure (.result sysError)
    | some file => takeFile p k (openMode a1) file) { s with dev := d } (fun r s' =>
    (r = .result sysError → FilesKept s.io s'.io) ↔ s.OpenSafe p a0 a1) fun _ _ => True

variable (b : Board) (d : Devices) {s : State} (hname : s.stringAt p a0 20 = some name)
  (hflags : a1 &&& ~~~(oRead ||| oWrite ||| oCreate) = 0) (hk : ((s.procs p).files k).mode = 0)

include hname hflags hk

theorem opened_creating (hc : Creating s.io name (openCreates a1) i next) :
    Opened b p k s d a0 a1 name := by
  have hhead := s.stringAt_head p a0 20 next hname hc.named
  have hnew := (s.newFile_iff hflags hname hk).mpr ⟨next, hc, rfl⟩
  have hclean : Creating s.io.clean name (openCreates a1) i next :=
    ⟨hc.mounted, hc.asked, hc.named, hc.short, hc.scan, hc.room⟩
  have hwrites : openMode a1 = oWrite := by
    have hasked := hc.asked
    unfold openCreates at hasked
    rw [Bool.and_eq_true, decide_eq_true_eq, decide_eq_true_eq] at hasked
    exact hasked.2
  obtain ⟨hflush, hfs⟩ := fsFlush_eq (s.io.clean.setEntry i (newEntry name next)) hc.mounted
  change _ = (virtioTransfer s.io.disk 1 1).2.1 at hflush
  have hentry : (fsOpen s.io.clean name (openCreates a1)).2.fs.directory i = newEntry name next := by
    rw [fsOpen_creating hclean, hfs]
    exact Function.update_self _ _ _
  have hkept : ¬FilesKept s.io (fsOpen s.io.clean name (openCreates a1)).2 :=
    hc.not_kept hhead hentry
  refine Ensures.bind (Ensures.mono (fsCall_serves b _ _) ?_ fun _ _ _ => trivial)
  rintro file s₂ ⟨hfile, d', hs₂⟩
  change file = (fsOpen s.io.clean name (openCreates a1)).1 at hfile
  rw [fsOpen_creating hclean, hflush] at hfile
  have hio : s₂.io = (fsOpen s.io.clean name (openCreates a1)).2 := by rw [hs₂]
  have hmay : s₂.mayOpen i oWrite = s.mayOpen i oWrite := by
    rw [hs₂]
    rfl
  clear hs₂
  rw [← hio] at hkept
  have hsafe : s.OpenSafe p a0 a1 ↔ s.io.disk.TakesDirectory ∧ s.mayOpen i oWrite = true := by
    refine ⟨fun h => h i _ hnew, fun h j e he => ?_⟩
    rw [hnew] at he
    cases he
    exact h
  rw [hsafe]
  by_cases htakes : s.io.disk.TakesDirectory
  · rw [if_pos ((virtioTransfer_takes _).mpr htakes)] at hfile
    rw [hfile, hwrites]
    refine Ensures.mono (takeFile_serves p k oWrite i s₂) ?_ fun _ _ _ => trivial
    rw [hmay]
    rintro r s' (⟨hopen, hr⟩ | ⟨hopen, hr, rfl⟩)
    · exact ⟨fun _ => ⟨htakes, hopen⟩, fun _ h => absurd h hr⟩
    · refine ⟨fun h => absurd (h hr) hkept, fun h => ?_⟩
      rw [hopen] at h
      cases h.2
  · rw [if_neg (mt (virtioTransfer_takes _).mp htakes)] at hfile
    rw [hfile]
    exact ⟨fun h => absurd (h rfl) hkept, fun h => absurd h.1 htakes⟩

theorem opened_otherwise (hc : ∀ i next, ¬Creating s.io name (openCreates a1) i next) :
    Opened b p k s d a0 a1 name := by
  have hnone : s.newFile p a0 a1 = none := by
    rw [Option.eq_none_iff_forall_not_mem]
    rintro ⟨i, e⟩ he
    obtain ⟨next, h, -⟩ := (s.newFile_iff hflags hname hk).mp he
    exact hc i next h
  have hsame : (fsOpen s.io.clean name (openCreates a1)).2 = s.io.clean :=
    fsOpen_unless fun i next h =>
      hc i next ⟨h.mounted, h.asked, h.named, h.short, h.scan, h.room⟩
  refine Ensures.bind (Ensures.mono (fsCall_serves b _ _) ?_ fun _ _ _ => trivial)
  rintro file s₂ ⟨-, d', hs₂⟩
  have hio : s₂.io = s.io.clean := by
    rw [hs₂]
    exact hsame
  have hkept : FilesKept s.io s₂.io := by
    rw [hio]
    exact .of_eq rfl rfl
  clear hs₂
  cases file with
  | none => exact State.openSafe_of_none hnone fun _ => hkept
  | some file =>
    refine Ensures.mono (takeFile_serves p k (openMode a1) file s₂) ?_ fun _ _ _ => trivial
    rintro r s' (⟨-, hr⟩ | ⟨-, -, rfl⟩)
    · exact State.openSafe_of_none hnone fun h => absurd h hr
    · exact State.openSafe_of_none hnone fun _ => hkept

end Opened

theorem sysOpen_serves (b : Board) (p : Fin 8) (a0 a1 : Word) (s : State) :
    Ensures (sysOpen b p a0 a1) s (fun r s' =>
      (r = .result sysError → FilesKept s.io s'.io) ↔ s.OpenSafe p a0 a1) fun _ _ => True := by
  unfold sysOpen
  dsimp only
  split
  next hmode =>
    refine Ensures.bind (Ensures.mono (userString_accesses b p 20 a0 s) ?_ fun _ _ _ => trivial)
    rintro name _ ⟨⟨d, rfl⟩, hname⟩
    cases name with
    | none =>
      exact State.openSafe_of_none (s.newFile_none (.inr (.inr (.inl hname.symm))))
        fun _ => .of_eq rfl rfl
    | some name =>
      refine .read ?_
      split
      next hfind =>
        refine State.openSafe_of_none (s.newFile_none (.inr (.inr (.inr fun k => ?_))))
          fun _ => .of_eq rfl rfl
        simpa using List.find?_eq_none.mp hfind k (List.mem_finRange k)
      next k hfind =>
        have hk : ((s.procs p).files k).mode = 0 := by simpa using List.find?_some hfind
        by_cases hc : ∃ i next, Creating s.io name (openCreates a1) i next
        · obtain ⟨i, next, hc⟩ := hc
          exact opened_creating b d hname.symm hmode.2 hk hc
        · push Not at hc
          exact opened_otherwise b d hname.symm hmode.2 hk hc
  next hmode =>
    refine State.openSafe_of_none (s.newFile_none ?_) fun _ => .of_eq rfl rfl
    rcases not_and_or.mp hmode with h | h
    · exact .inl h
    · exact .inr (.inl h)

/-- When an `open` that answers with an error leaves the files alone. -/
theorem open_error_keeps_files (h : sysOpen b p a0 a1 s = .ok r s') :
    (r = .result sysError → FilesKept s.io s'.io) ↔ s.OpenSafe p a0 a1 :=
  (sysOpen_serves b p a0 a1 s).ok h

def refusedWith (accept : State → Bool) : EStateM.Result Halt State Answer → Bool
  | .ok (.result r) s' => r = sysError && accept s'
  | _ => false

theorem refusedWith_iff {r : EStateM.Result Halt State Answer} : refusedWith accept r = true ↔
    ∃ s', r = .ok (.result sysError) s' ∧ accept s' = true := by
  constructor
  · intro h
    unfold refusedWith at h
    split at h
    next e s' =>
      rw [Bool.and_eq_true, decide_eq_true_eq] at h
      exact ⟨s', by rw [h.1], h.2⟩
    next => cases h
  · rintro ⟨s', rfl, h⟩
    simpa [refusedWith] using h

/-- An open for writing, without creation, of a file that is not there. -/
theorem open_error_keeps_files_missing : ∃ s s',
    Reached (diskBoardOf [⟨"sh", 0, 0⟩]) quietDisk [.store 0x80100100 1 97] s ∧
    sysOpen (diskBoardOf [⟨"sh", 0, 0⟩]) 0 0x80100100 2 s.enter = .ok (.result sysError) s' ∧
    FilesKept s.enter.io s'.io := by
  have h : reaches (diskBoardOf [⟨"sh", 0, 0⟩]) quietDisk [.store 0x80100100 1 97]
      (fun s => refusedWith (fun _ => true)
        (sysOpen (diskBoardOf [⟨"sh", 0, 0⟩]) 0 0x80100100 2 s.enter)) = true := by
    decide +kernel
  obtain ⟨s, hs, ht⟩ := reaches_iff.1 h
  obtain ⟨s', hopen, -⟩ := refusedWith_iff.mp ht
  refine ⟨s, s', hs, hopen, (open_error_keeps_files hopen).mpr ?_ rfl⟩
  intro i e he
  unfold State.newFile at he
  rw [if_neg fun hif => absurd hif.2.1 (by decide)] at he
  cases he

def failingDisk : Machine :=
  { quietDisk with outcome := fun n => if n < 2 then .done else .ioError 0 }

/-- The device refuses the directory, and the file stays. -/
theorem open_error_leaves_file : ∃ s s',
    Reached (diskBoardOf [⟨"sh", 0, 0⟩]) failingDisk [.store 0x80100100 1 97] s ∧
    sysOpen (diskBoardOf [⟨"sh", 0, 0⟩]) 0 0x80100100 6 s.enter = .ok (.result sysError) s' ∧
    ¬FilesKept s.enter.io s'.io := by
  have h : reaches (diskBoardOf [⟨"sh", 0, 0⟩]) failingDisk [.store 0x80100100 1 97]
      (fun s => refusedWith (fun s' => (s.enter.io.fs.directory 0).file.isNone &&
          (s'.io.fs.directory 0).file.isSome)
        (sysOpen (diskBoardOf [⟨"sh", 0, 0⟩]) 0 0x80100100 6 s.enter)) = true := by
    decide +kernel
  obtain ⟨s, hs, ht⟩ := reaches_iff.1 h
  obtain ⟨s', hopen, hfiles⟩ := refusedWith_iff.mp ht
  obtain ⟨hbefore, hafter⟩ := Bool.and_eq_true_iff.mp hfiles
  refine ⟨s, s', hs, hopen, fun hkept => ?_⟩
  rw [hkept.memory 0, Option.isSome_iff_ne_none] at hafter
  exact hafter (Option.isNone_iff_eq_none.mp hbefore)

end TinyProcessors
