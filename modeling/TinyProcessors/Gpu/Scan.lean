import TinyProcessors.Gpu.Reference
import TinyProcessors.Lib.Stall

namespace TinyProcessors

def Canvas.draw (color : Point → Bytes → UInt8) (qs : List Point) (c : Canvas) : Canvas :=
  qs.foldl (fun c q => c.store (pixelAt q) (color q c.fb)) c

theorem Canvas.draw_append (color : Point → Bytes → UInt8) (qs qs' : List Point) (c : Canvas) :
    c.draw color (qs ++ qs') = (c.draw color qs).draw color qs' := List.foldl_append

theorem Canvas.draw_drawn (color : Point → Bytes → UInt8) (qs : List Point) (c : Canvas) :
    (c.draw color qs).drawn = c.drawn ++ qs.map pixelAt := by
  induction qs generalizing c with
  | nil => exact (List.append_nil _).symm
  | cons q qs ih =>
    refine (ih _).trans ?_
    rw [List.map_cons]
    exact List.append_assoc _ _ _

theorem Canvas.draw_congr (h : ∀ q ∈ qs, color q = color' q) (c : Canvas) :
    c.draw color qs = c.draw color' qs := by
  induction qs generalizing c with
  | nil => rfl
  | cons q qs ih =>
    change Canvas.draw color qs (c.store _ _) = Canvas.draw color' qs (c.store _ _)
    rw [h q List.mem_cons_self]
    exact ih (fun q hq => h q (List.mem_cons_of_mem _ hq)) _

namespace Plot

def color (p : Gp → Word) (d : Plot) (ram : Bytes) (q : Point) (fb : Bytes) : UInt8 :=
  if p .op = gpuBlit then d.sourcePixel p ram q fb else UInt8.ofNat (p .color).toNat

inductive Visits (p : Gp → Word) : Plot → List Point → Prop
  | last (h : d.last p = true) : Visits p d [d.cursor]
  | next (h : d.last p = false) (hv : Visits p (d.next p) qs) : Visits p d (d.cursor :: qs)

@[simp] theorem lineNext_corners (d : Plot) :
    d.lineNext.a = d.a ∧ d.lineNext.b = d.b ∧ d.lineNext.c = d.c := ⟨rfl, rfl, rfl⟩

theorem next_corners (p : Gp → Word) (d : Plot) :
    (d.next p).a = d.a ∧ (d.next p).b = d.b ∧ (d.next p).c = d.c := by
  unfold next
  split
  · exact d.lineNext_corners
  · unfold boxNext
    split
    · exact ⟨rfl, rfl, rfl⟩
    · exact ⟨rfl, rfl, rfl⟩

theorem next_covers (p : Gp → Word) (d : Plot) : (d.next p).covers p = d.covers p := by
  obtain ⟨ha, hb, hc⟩ := next_corners p d
  funext q
  unfold covers
  rw [ha, hb, hc]

theorem next_color (p : Gp → Word) (d : Plot) (ram : Bytes) :
    (d.next p).color p ram = d.color p ram := by
  funext q fb
  unfold color sourcePixel sourceAt
  rw [(next_corners p d).1]

end Plot

namespace Screen

def forget (s : Screen) : Screen := { s with gpu := { s.gpu with cycles := 0, stalls := 0 } }

def pulse (ram : Bytes) (window : Window) (granted : Bool) (s : Screen) : Screen :=
  (s.tick ram window !granted).forget

theorem tick_forget (ram : Bytes) (window : Window) (granted : Bool) (s : Screen) :
    (s.tick ram window !granted).forget = s.forget.pulse ram window granted := by
  obtain ⟨⟨p, status, error, cycles, stalls, reads, writes, plot, phase, pixel, commandTick⟩, fb⟩ := s
  cases commandTick with
  | true => rfl
  | false =>
    cases status with
    | busy =>
      cases phase with
      | setup =>
        unfold pulse tick Screen.phase Gpu.setup
        simp only [forget, Gpu.toG1]
        cases G1.valid _ window with
        | false => rfl
        | true =>
          rcases Plot.setup p plot with ⟨d, more⟩
          cases more with
          | false => rfl
          | true => rfl
      | read | write =>
        cases granted with
        | false => rfl
        | true => rfl
      | _ => rfl
    | _ => rfl

def ended (s : Screen) : Bool := s.gpu.status ≠ .busy

def scans (s : Screen) : List Point :=
  if !s.gpu.commandTick && s.gpu.status = .busy && s.gpu.phase = .scan then [s.gpu.plot.cursor]
  else []

end Screen

def Gpu.working (p : Gp → Word) (plot : Plot) (pixel : UInt8) (reads writes : Word)
    (status : EngineStatus) (phase : GpuPhase) : Gpu :=
  ⟨p, status, .none, 0, 0, reads, writes, plot, phase, pixel, false⟩

section Scan

variable {ram : Bytes} {window : Window} {p : Gp → Word}

abbrev Scans (ram : Bytes) (window : Window) : Screen → List Point → Screen → Prop :=
  Traces (Screen.pulse ram window) Screen.ended Screen.scans

theorem traces_tick (he : s.ended = false)
    (h : ∀ granted, Screen.pulse ram window granted s = s') :
    Scans ram window s s.scans s' := by
  have hs : Screen.pulse ram window false s = Screen.pulse ram window true s :=
    (h false).trans (h true).symm
  rw [← List.append_nil s.scans]
  refine .head (.inr hs) he ?_
  rw [h true]
  exact .refl

theorem traces_transfer (he : s.ended = false) (hwait : Screen.pulse ram window false s = s)
    (hscan : s.scans = []) (h : Screen.pulse ram window true s = s') :
    Scans ram window s [] s' := by
  have hhead : Scans ram window s (s.scans ++ []) s' := by
    refine .head (.inl ⟨hwait, hscan⟩) he ?_
    rw [h]
    exact .refl
  rwa [hscan] at hhead

theorem pixel_traces (d : Plot) (pixel : UInt8) (reads writes : Word) (c : Canvas) :
    ∃ pixel' reads', Scans ram window
      ⟨.working p d pixel reads writes .busy .scan, c.fb⟩ [d.cursor]
      ⟨.working p (d.next p) pixel' reads'
        (writes + BitVec.ofNat 32 ([d.cursor].filter (d.covers p)).length)
        (if d.last p then .done else .busy) (if d.last p then .idle else .scan),
        (c.draw (d.color p ram) ([d.cursor].filter (d.covers p))).fb⟩ := by
  have hadvance (pixel reads writes fb) : Scans ram window
      ⟨.working p d pixel reads writes .busy .advance, fb⟩ []
      ⟨.working p (d.next p) pixel reads writes (if d.last p then .done else .busy)
        (if d.last p then .idle else .scan), fb⟩ := traces_tick rfl fun _ => rfl
  have hscan : Scans ram window
      ⟨.working p d pixel reads writes .busy .scan, c.fb⟩ [d.cursor]
      ⟨.working p d (UInt8.ofNat (p .color).toNat) reads writes .busy
        (if d.covers p d.cursor then if p .op = gpuBlit then .read else .write else .advance),
        c.fb⟩ := traces_tick rfl fun _ => rfl
  have hwrite (pixel reads) : Scans ram window
      ⟨.working p d pixel reads writes .busy .write, c.fb⟩ []
      ⟨.working p d pixel reads (writes + 1) .busy .advance,
        Function.update c.fb (pixelAt d.cursor) pixel⟩ := traces_transfer rfl rfl rfl rfl
  cases hc : d.covers p d.cursor with
  | false =>
    rw [hc] at hscan
    rw [List.filter_cons_of_neg (by simp [hc])]
    refine ⟨UInt8.ofNat (p .color).toNat, reads, hscan.trans ?_⟩
    rw [List.filter_nil, show writes + BitVec.ofNat 32 ([] : List Point).length = writes from BitVec.add_zero _]
    exact hadvance _ _ _ _
  | true =>
    rw [hc] at hscan
    rw [List.filter_cons_of_pos hc]
    by_cases hb : p .op = gpuBlit
    · rw [if_pos rfl, if_pos hb] at hscan
      have hread : Scans ram window
          ⟨.working p d (UInt8.ofNat (p .color).toNat) reads writes .busy .read, c.fb⟩ []
          ⟨.working p d (d.sourcePixel p ram d.cursor c.fb) (reads + 1) writes .busy .write, c.fb⟩ :=
        traces_transfer rfl rfl rfl rfl
      refine ⟨d.sourcePixel p ram d.cursor c.fb, reads + 1,
        (hscan.trans (hread.trans (hwrite _ _))).trans ?_⟩
      have hcolor : d.sourcePixel p ram d.cursor c.fb = d.color p ram d.cursor c.fb :=
        (if_pos hb).symm
      rw [hcolor]
      exact hadvance _ _ _ _
    · rw [if_pos rfl, if_neg hb] at hscan
      refine ⟨UInt8.ofNat (p .color).toNat, reads, (hscan.trans (hwrite _ _)).trans ?_⟩
      have hcolor : UInt8.ofNat (p .color).toNat = d.color p ram d.cursor c.fb := (if_neg hb).symm
      rw [hcolor]
      exact hadvance _ _ _ _

theorem Plot.Visits.traces (hv : Plot.Visits p d qs) (pixel : UInt8) (reads writes : Word)
    (c : Canvas) :
    ∃ d' pixel' reads', Scans ram window
      ⟨.working p d pixel reads writes .busy .scan, c.fb⟩ qs
      ⟨.working p d' pixel' reads' (writes + BitVec.ofNat 32 (qs.filter (d.covers p)).length)
        .done .idle, (c.draw (d.color p ram) (qs.filter (d.covers p))).fb⟩ := by
  induction hv generalizing pixel reads writes c with
  | @last d h =>
    obtain ⟨pixel', reads', hp⟩ := pixel_traces d pixel reads writes c
    rw [h] at hp
    exact ⟨_, _, _, hp⟩
  | @next qs d h hv ih =>
    obtain ⟨pixel', reads', hp⟩ := pixel_traces d pixel reads writes c
    rw [h] at hp
    have hfilter : (d.cursor :: qs).filter (d.covers p) =
        [d.cursor].filter (d.covers p) ++ qs.filter (d.covers p) :=
      List.filter_append [d.cursor] qs
    obtain ⟨d', pixel'', reads'', hrest⟩ := ih pixel' reads'
      (writes + BitVec.ofNat 32 ([d.cursor].filter (d.covers p)).length)
      (c.draw (d.color p ram) ([d.cursor].filter (d.covers p)))
    refine ⟨d', pixel'', reads'', hp.trans ?_⟩
    rw [hfilter, Canvas.draw_append, List.length_append, BitVec.ofNat_add, ← BitVec.add_assoc]
    rw [next_covers, next_color] at hrest
    exact hrest

end Scan

section Abstraction

variable {ram : Bytes} {window : Window} {hold : Bool}

theorem Gpu.store_toG1 (g : Gpu) (offset : Nat) (value : Word) :
    (g.store offset value).map toG1 = g.toG1.store offset value := by
  unfold store G1.store
  have hbusy : g.toG1.busy = decide (g.status = .busy) := rfl
  simp only [hbusy, decide_eq_true_eq]
  split_ifs
  · rfl
  · rfl
  · rw [Option.map_map]
    rfl
  · rfl
  · rfl
  · rfl
  · rfl

def Gpu.Sound (g : Gpu) : Prop := g.status = .busy → g.phase ≠ .idle

theorem Gpu.goes_toG1 {g g' : Gpu} (hbusy : g.status = .busy) (hc : g.commandTick = false)
    (hv : g.phase = .setup → g.toG1.valid window = true) (hp : g'.p = g.p)
    (hc' : g'.commandTick = false)
    (hgo : g'.status = .busy ∧ g'.phase ≠ .setup ∧ g'.phase ≠ .idle ∨
      g'.status = .done ∧ g'.phase = .idle) :
    g'.Sound ∧ ∃ ends, g'.toG1 = g.toG1.tick window ends := by
  have hvalid : (g.toG1.setup && !g.toG1.valid window) = false := by
    by_cases hs : g.phase = .setup
    · rw [hv hs]
      exact Bool.and_false _
    · exact Bool.and_eq_false_iff.mpr (.inl (decide_eq_false hs))
  have htick (ends : Bool) : g.toG1.tick window ends =
      if ends then ⟨g.p, .done, false, false⟩ else ⟨g.p, .busy, false, false⟩ := by
    unfold G1.tick
    rw [hvalid]
    simp only [toG1, hc, hbusy]
    rfl
  rcases hgo with ⟨hb, hs, hi⟩ | ⟨hd, hi⟩
  · refine ⟨fun _ => hi, false, ?_⟩
    rw [htick]
    simp only [toG1, hp, hb, hc', hs]
    rfl
  · refine ⟨fun hb => absurd (hd.symm.trans hb) nofun, true, ?_⟩
    rw [htick]
    simp only [toG1, hp, hd, hc', hi]
    rfl

/-- A tick does the same, where the model leaves the end of a scan open. -/
theorem Screen.tick_toG1 {s : Screen} (h : s.gpu.Sound) :
    (s.tick ram window hold).gpu.Sound ∧
      ∃ ends, (s.tick ram window hold).gpu.toG1 = s.gpu.toG1.tick window ends := by
  obtain ⟨⟨p, status, error, cycles, stalls, reads, writes, plot, phase, pixel, commandTick⟩, fb⟩ := s
  cases commandTick with
  | true => exact ⟨h, false, rfl⟩
  | false =>
    cases status with
    | busy =>
      cases phase with
      | idle => exact absurd rfl (h rfl)
      | setup =>
        let g : Gpu := ⟨p, .busy, error, cycles + 1, stalls, reads, writes, plot, .setup, pixel, false⟩
        change (g.setup window).Sound ∧ ∃ ends, (g.setup window).toG1 = g.toG1.tick window ends
        unfold Gpu.setup
        split_ifs with hv
        · cases hplot : g.plot.setup g.p with
          | mk d more =>
            apply Gpu.goes_toG1 rfl rfl (fun _ => hv)
            · cases more with
              | true => rfl
              | false => rfl
            · cases more with
              | true => rfl
              | false => rfl
            · cases more with
              | true => exact .inl ⟨rfl, nofun, nofun⟩
              | false => exact .inr ⟨rfl, rfl⟩
        · refine ⟨nofun, false, ?_⟩
          have hv' : g.toG1.valid window = false := Bool.eq_false_iff.mpr hv
          unfold G1.tick
          rw [hv']
          rfl
      | scan =>
        refine Gpu.goes_toG1 rfl rfl nofun rfl rfl (.inl ⟨rfl, ?_⟩)
        change (if _ then if _ then GpuPhase.read else .write else .advance) ≠ _ ∧
          (if _ then if _ then GpuPhase.read else .write else .advance) ≠ _
        split_ifs
        · exact ⟨nofun, nofun⟩
        · exact ⟨nofun, nofun⟩
        · exact ⟨nofun, nofun⟩
      | read | write =>
        cases hold with
        | false | true => exact ⟨fun _ => nofun, false, rfl⟩
      | advance =>
        refine Gpu.goes_toG1 rfl rfl nofun rfl rfl ?_
        change (if plot.last p then EngineStatus.done else .busy) = _ ∧
            (if plot.last p then GpuPhase.idle else .scan) ≠ _ ∧
            (if plot.last p then GpuPhase.idle else .scan) ≠ _ ∨
          (if plot.last p then EngineStatus.done else .busy) = _ ∧
            (if plot.last p then GpuPhase.idle else .scan) = _
        cases plot.last p with
        | true => exact .inr ⟨rfl, rfl⟩
        | false => exact .inl ⟨rfl, nofun, nofun⟩
    | _ => exact ⟨h, false, rfl⟩

/-- What the bus and the clock bring to the device. -/
inductive GpuInput
  | store (offset : Nat) (value : Word)
  | tick (ram : Bytes) (window : Window) (hold : Bool)

def Screen.input (s : Screen) : GpuInput → Screen
  | .store offset value => { s with gpu := (s.gpu.store offset value).getD s.gpu }
  | .tick ram window hold => s.tick ram window hold

def G1.input (g : G1) (ends : Bool) : GpuInput → G1
  | .store offset value => (g.store offset value).getD g
  | .tick _ window _ => g.tick window ends

theorem Gpu.Sound.store {g : Gpu} (h : g.Sound) (hs : g.store offset value = some g') :
    g'.Sound := by
  unfold Gpu.store at hs
  split_ifs at hs
  · obtain ⟨_, -, rfl⟩ := Option.map_eq_some_iff.1 hs
    exact h
  · cases hs
    exact nofun
  · cases hs
    exact fun _ => nofun

theorem Screen.input_toG1 {s : Screen} (h : s.gpu.Sound) (i : GpuInput) :
    (s.input i).gpu.Sound ∧ ∃ ends, (s.input i).gpu.toG1 = s.gpu.toG1.input ends i := by
  cases i with
  | tick ram window hold => exact tick_toG1 h
  | store offset value =>
    change ((s.gpu.store offset value).getD s.gpu).Sound ∧ ∃ _,
      ((s.gpu.store offset value).getD s.gpu).toG1 = (s.gpu.toG1.store offset value).getD s.gpu.toG1
    rw [← Gpu.store_toG1]
    cases hs : s.gpu.store offset value with
    | none => exact ⟨h, false, rfl⟩
    | some g => exact ⟨h.store hs, false, rfl⟩

/-- Along every run the device is the engine without its pixels, for some ends of the scans. -/
theorem gpu_simulated (fb : Bytes) (run : List GpuInput) :
    ∃ ends : List Bool, ends.length = run.length ∧
      (run.foldl Screen.input ⟨.reset, fb⟩).gpu.toG1 =
        (run.zip ends).foldl (fun g i => g.input i.2 i.1) G1.reset := by
  have hrun (s : Screen) (h : s.gpu.Sound) : ∃ ends : List Bool, ends.length = run.length ∧
      (run.foldl Screen.input s).gpu.toG1 =
        (run.zip ends).foldl (fun g i => g.input i.2 i.1) s.gpu.toG1 := by
    induction run generalizing s with
    | nil => exact ⟨[], rfl, rfl⟩
    | cons i run ih =>
      obtain ⟨hi, e, he⟩ := Screen.input_toG1 h i
      obtain ⟨ends, hlen, hends⟩ := ih _ hi
      rw [he] at hends
      exact ⟨e :: ends, congrArg (· + 1) hlen, hends⟩
  exact hrun ⟨.reset, fb⟩ nofun

end Abstraction

end TinyProcessors
