import TinyProcessors.Fs.Refinement

namespace TinyProcessors

/-- A call on files in use; unlike `Legal`, a write may start past the end. -/
def Call.Usable (fs : Fs) : Call → Prop
  | .fsOpen name _ => 0 ∉ name
  | .fsTruncate file | .fsRead file _ _ _ | .fsSize file | .fsWrite file _ _ _ =>
    inUse fs file = true
  | .fsName _ | .fsFlush => True

theorem Call.Legal.usable {io : Io} {c : Call} (hl : c.Legal s) (hr : Represents io s) :
    c.Usable io.fs := by
  cases c with
  | fsOpen name create => exact hl
  | fsTruncate file => exact (hr.slots file).file_iff.1 hl
  | fsWrite file position src length =>
    obtain ⟨f, hf, -⟩ := hl
    exact (hr.slots file).file_iff.1 ⟨f, hf⟩
  | fsRead file position dst length | fsSize file => exact (hr.slots file).file_iff.1 hl
  | fsName index => trivial
  | fsFlush => trivial

inductive Effect (io : Io) : Call → Io → Prop
  | none (hw : io.With m io.disk.image io') : Effect io c io'
  | created (hc : Created io name i first io') (h0 : 0 ∉ name) (hne : name ≠ []) :
      Effect io (.fsOpen name true) io'
  | truncated (hu : inUse io.fs file = true) : Effect io (.fsTruncate file) (fsTruncate io file)
  | written (hu : inUse io.fs file = true)
      (hw : (io.setEntry file ((io.fs.directory file).grown position.toNat
        (writeCount (io.fs.directory file) position.toNat length.toNat))).With io.mem
        (io.disk.image.overwrite ((io.fs.directory file).first.toNat * 512 + position.toNat)
          (writeCount (io.fs.directory file) position.toNat length.toNat) (io.mem.window src)) io') :
      Effect io (.fsWrite file position src length) io'
  | flushed (hw : io.With io.mem io.flushed io') : Effect io .fsFlush io'

theorem Io.call_effect (io : Io) (hm : io.Mounted) (hs : io.disk.Sound) (hu : c.Usable io.fs) :
    Effect io c (io.call c).2 := by
  cases c with
  | fsOpen name create =>
    by_cases hne : name = []
    · have hopen : (fsOpen io name create).2 = io := by
        simp only [fsOpen, hne, decide_true, Bool.or_true, if_true]
      rw [Io.call, hopen]
      exact .none (.refl io)
    · rcases fsOpen_spec io hm hs name create hne with
        ⟨i, -, hopen⟩ | ⟨-, -, hopen⟩ | ⟨i, first, io', -, rfl, hc, hopen⟩
      · rw [Io.call, hopen]
        exact .none (.refl io)
      · rw [Io.call, hopen]
        exact .none (.refl io)
      · rw [Io.call, hopen]
        exact .created hc hu hne
  | fsTruncate file => exact .truncated hu
  | fsWrite file position src length =>
    obtain ⟨io', hrun, hw⟩ := fsWrite_spec io src hm hs hu position length
    rw [Io.call, hrun]
    exact .written hu hw
  | fsRead file position dst length =>
    obtain ⟨io', hrun, hw⟩ := fsRead_spec io dst hm hs hu position length
    rw [Io.call, hrun]
    exact .none hw
  | fsSize file | fsName index => exact .none (.refl io)
  | fsFlush =>
    obtain ⟨io', hrun, hw⟩ := fsFlush_spec io hm hs
    rw [Io.call, hrun]
    exact .flushed hw

theorem writeCount_le (e : Entry) (position length : Nat) :
    writeCount e position length = 0 ∨
      position + writeCount e position length ≤ e.capacity.toNat * 512 := by
  rw [writeCount]
  omega

theorem Entry.Bounded.written {e : Entry} (hb : e.Bounded sectors) (position length : Nat) :
    (e.grown position (writeCount e position length)).Bounded sectors := by
  rcases writeCount_le e position length with h | h
  · rw [h, Entry.grown_zero]
    exact hb
  · exact hb.grown h

theorem Effect.isMounted {io io' : Io} (h : Effect io c io') (hm : io.Mounted) : io'.Mounted := by
  cases h with
  | none hw => exact hw.isMounted hm
  | created hc h0 hne => exact hc.isMounted hm
  | truncated hu =>
    have hb := hm.bounded hu
    exact hm.setEntry (inUse_iff.1 hu).2 ⟨hb.data, hb.extent, Nat.zero_le _, hb.limit, hb.name⟩
  | written hu hw =>
    exact hw.isMounted (hm.setEntry (inUse_iff.1 hu).2 ((hm.bounded hu).written _ _))
  | flushed hw => exact hw.isMounted hm

theorem Effect.sound {io io' : Io} (h : Effect io c io') (hs : io.disk.Sound) : io'.disk.Sound := by
  cases h with
  | none hw => exact hw.sound hs
  | created hc h0 hne => exact hc.after.sound hs
  | truncated hu => exact hs
  | written hu hw | flushed hw => exact hw.sound hs

theorem Effect.healthy {io io' : Io} (h : Effect io c io') (hh : io.Healthy) : io'.Healthy := by
  cases h with
  | none hw => exact hw.healthy hh
  | created hc h0 hne => exact hc.healthy hh
  | @truncated file hu =>
    have hb := hh.mounted.bounded hu
    have hs : (io.fs.directory file).SameFile { io.fs.directory file with size := 0 } :=
      ⟨rfl, rfl, rfl⟩
    exact hh.resize hs (.refl (fsTruncate io file)) hu
      ⟨hb.data, hb.extent, Nat.zero_le _, hb.limit, hb.name⟩
  | written hu hw =>
    exact hh.resize (Entry.grown_sameFile _ _ _) hw hu ((hh.mounted.bounded hu).written _ _)
  | flushed hw => exact hw.healthy hh

theorem Effect.superblock {io io' : Io} (h : Effect io c io') (hm : io.Mounted) (ha : a < 512) :
    io'.disk.image a = io.disk.image a := by
  cases h with
  | none hw => rw [hw.image]
  | created hc h0 hne =>
    rw [hc.after.image]
    exact overwrite_of_not_mem (.inl ha)
  | truncated hu => rfl
  | written hu hw =>
    have hdata := (hm.bounded hu).data
    rw [hw.image]
    exact overwrite_of_not_mem (by omega)
  | flushed hw =>
    rw [hw.image]
    exact overwrite_of_not_mem (.inl ha)

theorem Effect.fixed {io io' : Io} (h : Effect io c io') : io'.disk.size = io.disk.size ∧
    io'.fs.sectors = io.fs.sectors ∧ io'.fs.corrupt = io.fs.corrupt := by
  cases h with
  | none hw => exact ⟨hw.size, hw.sectors, hw.corrupt⟩
  | created hc h0 hne => exact ⟨hc.after.size, hc.after.sectors, hc.after.corrupt⟩
  | truncated hu => exact ⟨rfl, rfl, rfl⟩
  | written hu hw | flushed hw => exact ⟨hw.size, hw.sectors, hw.corrupt⟩

end TinyProcessors
