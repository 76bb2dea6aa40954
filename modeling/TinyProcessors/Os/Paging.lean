import TinyProcessors.Os.Bus

namespace TinyProcessors

/-- A process's page tables as `map` works on them. -/
structure Paging where
  count : Nat
  words : Nat → Word

/-- `page_tables[entry][k]`. -/
def Board.tableAt (b : Board) (entry : Fin 8) (k : Nat) : Nat :=
  b.pageTables.toNat + (entry.val * 7 + k) * 4096

def clearTable (words : Nat → Word) (table : Nat) : Nat → Word := fun a =>
  if table ≤ a ∧ a < table + 4096 then 0 else words a

def leafAt (pointer page : Word) : Nat :=
  (pointer >>> 10 <<< 12).toNat + 4 * (page >>> 12 &&& 1023).toNat

def leafWord (page rights : Word) : Word :=
  if rights = 0 then 0 else page >>> 12 <<< 10 ||| rights ||| pteV ||| pteU ||| pteA ||| pteD

def writeLeaf (t : Paging) (pointer page rights : Word) : Paging :=
  { t with words := Function.update t.words (leafAt pointer page) (leafWord page rights) }

/-- One round of `map`'s loop. -/
def mapPage (b : Board) (entry : Fin 8) (rights : Word) (t : Paging) (page : Word) :
    Except String Paging :=
  let pointerAt := b.tableAt entry 0 + 4 * (page >>> 22).toNat
  let pointer := t.words pointerAt
  if pointer &&& pteV = 0 then
    if rights = 0 then .ok t
    else if t.count = 7 then .error "page tables full"
    else
      let table := b.tableAt entry t.count
      let pointer := BitVec.ofNat 32 table >>> 12 <<< 10 ||| pteV
      let words := Function.update (clearTable t.words table) pointerAt pointer
      .ok (writeLeaf ⟨t.count + 1, words⟩ pointer page rights)
  else .ok (writeLeaf t pointer page rights)

/-- The pages from the one that holds `start` up to `stop`. -/
def pages (start stop : Word) : List Word :=
  let first := start.toNat / 4096
  (List.range' first ((stop.toNat + 4095) / 4096 - first)).map fun k => BitVec.ofNat 32 (k * 4096)

def map (b : Board) (entry : Fin 8) (start stop rights : Word) (t : Paging) :
    Except String Paging :=
  if t.count = 0 then .error "map before the root"
  else (pages start stop).foldlM (mapPage b entry rights) t

def mapDisplay (b : Board) (entry : Fin 8) (rights : Word) (t : Paging) : Except String Paging :=
  if b.framebuffer = 0 then .ok t
  else map b entry b.framebuffer (b.framebuffer + b.framebufferSize) rights t

def mapEngines (b : Board) (entry : Fin 8) (space : Space) (rights : Word) (t : Paging) :
    Except String Paging :=
  if space.drivesEngines then
    b.engineWindows.foldlM (fun t w => map b entry w.1 (w.1 + w.2) rights t) t
  else .ok t

/-- The ranges of addresses a space is laid out in, with their rights. -/
def layOut (b : Board) (entry : Fin 8) (space : Space) (rights : Word) (t : Paging) :
    Except String Paging := do
  let data := rights &&& ~~~pteX
  let t ← map b entry space.base space.guard rights t
  let t ← map b entry (space.guard + 0x1000) (space.base + space.span) rights t
  let t ← mapDisplay b entry data t
  mapEngines b entry space data t

/-- The tables of an entry before it is laid out again. -/
def vacate (b : Board) (entry : Fin 8) (old : Space) (words : Nat → Word) : Except String Paging :=
  if old.tables = 0 then .ok ⟨1, clearTable words (b.tableAt entry 0)⟩
  else layOut b entry old 0 ⟨old.tables, words⟩

/-- The space of a process about to start, and its page tables. -/
def mapProcess (b : Board) (entry : Fin 8) (program : Program) (old : Space)
    (words : Nat → Word) : Except String (Space × (Nat → Word)) := do
  let t ← vacate b entry old words
  let space : Space := { old with
    base := program.load
    span := program.span
    guard := program.load + program.span - program.stack
    drivesEngines := program.flags &&& programAccelerators ≠ 0 }
  let t ← layOut b entry space (pteR ||| pteW ||| pteX) t
  return ({ space with tables := t.count }, t.words)

def addRegions (regions : List Nat) (start stop : Word) : Except String (List Nat) :=
  (List.range' (start >>> 22).toNat
    (((stop - 1) >>> 22).toNat + 1 - (start >>> 22).toNat)).foldlM (fun regions region =>
      if regions.contains region then .ok regions
      else if regions.length = 6 then
        .error "page tables: more 4 MiB regions than an entry has tables"
      else .ok (regions ++ [region])) regions

def addDisplay (b : Board) (regions : List Nat) : Except String (List Nat) :=
  if b.framebuffer = 0 then .ok regions
  else addRegions regions b.framebuffer (b.framebuffer + b.framebufferSize)

/-- What a process could touch at most. -/
def checkPageTableBudget (b : Board) : Except String (List Nat) := do
  let regions ← addRegions [] (BitVec.ofNat 32 slotBase) (BitVec.ofNat 32 slotsEnd)
  let regions ← addDisplay b regions
  b.engineWindows.foldlM (fun regions w => addRegions regions w.1 (w.1 + w.2)) regions

end TinyProcessors
