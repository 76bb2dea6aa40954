import TinyProcessors.Gpu.Copies

namespace TinyProcessors

def Gpu.runs (g : Gpu) : Bool := !g.commandTick && g.status = .busy

def Gpu.ramTouched (g : Gpu) (hold : Bool) : List Int :=
  if g.runs && g.phase = .read && !hold && g.p .src ≠ fbAddress then
    [wrap32 ((g.p .src).toNat - 0x80000000 + g.plot.sourceAt g.p g.plot.cursor)]
  else []

def Gpu.fbTouched (g : Gpu) (hold : Bool) : List Int :=
  if g.runs && !hold then
    match g.phase with
    | .read => if g.p .src = fbAddress then [g.plot.sourceAt g.p g.plot.cursor] else []
    | .write => [g.plot.cursor.y * 320 + g.plot.cursor.x]
    | _ => []
  else []

structure Plot.Blitting (p : Gp → Word) (d : Plot) : Prop where
  corner : d.a = ⟨Gp.x0.int p, Gp.y0.int p⟩
  inside : ∀ q ∈ d.box, inBlit p q = true
  step : d.step = 1 ∨ d.step = -1
  cursor : d.cursor ∈ d.box

section Box

variable {p : Gp → Word} {d : Plot}

theorem Plot.boxNext_mem (hs : d.step = 1 ∨ d.step = -1) (hc : d.cursor ∈ d.box)
    (hl : ¬(d.cursor.x = d.lastX ∧ d.cursor.y = d.lastY)) :
    d.boxNext.cursor ∈ d.box := by
  rw [mem_box] at hc ⊢
  unfold lastX lastY at hl
  unfold boxNext lastX firstX
  rcases hs with hs | hs
  · rw [hs] at hl ⊢
    simp only [zero_lt_one, if_true] at hl ⊢
    split_ifs with hx
    · dsimp only
      omega
    · dsimp only
      omega
  · rw [hs] at hl ⊢
    have hneg : ¬(0 : Int) < -1 := by decide
    simp only [hneg, if_false] at hl ⊢
    split_ifs with hx
    · dsimp only
      omega
    · dsimp only
      omega

theorem Plot.boxNext_box (d : Plot) : d.boxNext.box = d.box ∧ d.boxNext.a = d.a ∧
    d.boxNext.step = d.step := by
  unfold boxNext
  split
  · exact ⟨rfl, rfl, rfl⟩
  · exact ⟨rfl, rfl, rfl⟩

theorem Plot.Blitting.next (hop : p .op = gpuBlit) (h : d.Blitting p) (hl : d.last p = false) :
    (d.next p).Blitting p := by
  have hne : ¬p .op = gpuLine := by
    rw [hop]
    decide
  have hnext : d.next p = d.boxNext := if_neg hne
  have hlast : ¬(d.cursor.x = d.lastX ∧ d.cursor.y = d.lastY) := by
    have hend := (if_neg hne).symm.trans hl
    simpa using hend
  obtain ⟨hbox, ha, hstep⟩ := d.boxNext_box
  rw [hnext]
  exact ⟨ha.trans h.corner, hbox.symm ▸ h.inside, hstep.symm ▸ h.step,
    hbox.symm ▸ boxNext_mem h.step h.cursor hlast⟩

theorem Plot.setup_blitting (hop : p .op = gpuBlit) (h : d.setup p = (d', true)) :
    d'.Blitting p := by
  let d₁ := d.blitBox p
  have hsetup : d.setup p = if d₁.empty then (d₁, false)
      else (d₁.goto ⟨d₁.firstX, d₁.firstY⟩, true) := by
    unfold Plot.setup
    dsimp only
    rw [hop]
    exact (if_neg (by decide)).trans (if_neg fun h => absurd h.1 (by decide))
  have hstep : d₁.step = 1 ∨ d₁.step = -1 := by
    change (if _ then -1 else 1 : Int) = 1 ∨ (if _ then -1 else 1 : Int) = -1
    split_ifs
    · exact .inr rfl
    · exact .inl rfl
  rw [hsetup] at h
  cases he : d₁.empty with
  | true =>
    rw [he] at h
    exact absurd (Prod.mk.inj h).2 Bool.false_ne_true
  | false =>
    rw [he] at h
    obtain rfl : d₁.goto ⟨d₁.firstX, d₁.firstY⟩ = d' := (Prod.mk.inj h).1
    have hmem : (⟨d₁.firstX, d₁.firstY⟩ : Point) ∈ d₁.box := by
      unfold empty at he
      simp only [Bool.or_eq_false_iff, decide_eq_false_iff_not, not_le] at he
      rw [mem_box]
      unfold firstX firstY
      dsimp only
      split_ifs
      · omega
      · omega
    refine ⟨rfl, fun q hq => ?_, hstep, hmem⟩
    have hq' : q ∈ d₁.box := hq
    rw [d.blitBox_box] at hq'
    exact (List.mem_filter.mp hq').2

end Box

structure Gpu.InBounds (w : Window) (g : Gpu) : Prop where
  valid : g.toG1.valid w = true
  blitting : g.p .op = gpuBlit → g.plot.Blitting g.p
  drawn : g.phase = .read ∨ g.phase = .write → onScreen g.plot.cursor = true
  read : g.phase = .read → g.p .op = gpuBlit

section Tick

variable {g : Gpu} {w window : Window}

theorem Gpu.setup_inBounds (hb : (g.setup window).status = .busy) :
    (g.setup window).InBounds window := by
  unfold setup at hb ⊢
  split at hb
  next hv =>
    rw [if_pos hv]
    split at hb
    next d hs =>
      refine ⟨hv, fun hop => Plot.setup_blitting hop hs, ?_, ?_⟩
      · rintro (h | h)
        · cases h
        · cases h
      · rintro ⟨⟩
    next => cases hb
  next => cases hb

theorem Gpu.InBounds.scan (h : g.InBounds w) : g.scan.InBounds w := by
  have hphase : g.scan.phase = if g.plot.covers g.p g.plot.cursor then
    if g.p .op = gpuBlit then .read else .write else .advance := rfl
  refine ⟨h.valid, h.blitting, fun hp => ?_, fun hp => ?_⟩
  · rw [hphase] at hp
    split at hp
    next hc => exact (Bool.and_eq_true_iff.mp hc).1
    next =>
      rcases hp with hp | hp
      · cases hp
      · cases hp
  · rw [hphase] at hp
    split_ifs at hp with _ hop
    exact hop

theorem Gpu.InBounds.advance (h : g.InBounds w) (hb : g.advance.status = .busy) :
    g.advance.InBounds w := by
  have hstatus : g.advance.status = if g.plot.last g.p then .done else .busy := rfl
  cases hl : g.plot.last g.p with
  | true =>
    rw [hstatus, hl] at hb
    cases hb
  | false =>
    have hphase : g.advance.phase = .scan := if_neg (by simp [hl])
    refine ⟨h.valid, fun hop => (h.blitting hop).next hop hl, fun hp => ?_, fun hp => ?_⟩
    · rw [hphase] at hp
      rcases hp with hp | hp
      · cases hp
      · cases hp
    · rw [hphase] at hp
      cases hp

def Gpu.checkedWith (g : Gpu) (w window : Window) : Window :=
  if g.runs && g.phase = .setup then window else w

def Gpu.Safe (w : Window) (g : Gpu) : Prop :=
  g.status = .busy → g.phase = .setup ∨ g.InBounds w

theorem Screen.phase_safe {s : Screen} (ram : Bytes) (hold : Bool) (hc : s.gpu.commandTick = false)
    (hs : s.gpu.status = .busy) (h : s.gpu.phase = .setup ∨ s.gpu.InBounds w) :
    (s.phase ram window hold).gpu.Safe (s.gpu.checkedWith w window) := by
  have hchecked : s.gpu.checkedWith w window = if s.gpu.phase = .setup then window else w := by
    unfold Gpu.checkedWith Gpu.runs
    simp [hc, hs]
  intro hb
  unfold phase at hb ⊢
  rw [hchecked]
  dsimp only at hb ⊢
  cases hp : s.gpu.phase with
  | setup =>
    rw [hp] at hb
    exact .inr (Gpu.setup_inBounds hb)
  | scan =>
    rw [hp] at h hb
    exact .inr (h.resolve_left (by rintro ⟨⟩)).scan
  | advance =>
    rw [hp] at h hb
    exact .inr ((h.resolve_left (by rintro ⟨⟩)).advance hb)
  | idle =>
    rw [hp] at hb
    cases hb
  | read =>
    have hin : s.gpu.InBounds w := h.resolve_left (by rw [hp]; rintro ⟨⟩)
    have hw : (if GpuPhase.read = .setup then window else w) = w := if_neg (by rintro ⟨⟩)
    rw [hw]
    dsimp only
    split
    next => exact .inr ⟨hin.valid, hin.blitting, fun _ => hin.drawn (.inl hp), fun _ => hin.read hp⟩
    next =>
      refine .inr ⟨hin.valid, hin.blitting, fun _ => hin.drawn (.inl hp), ?_⟩
      rintro ⟨⟩
  | write =>
    have hin : s.gpu.InBounds w := h.resolve_left (by rw [hp]; rintro ⟨⟩)
    have hw : (if GpuPhase.write = .setup then window else w) = w := if_neg (by rintro ⟨⟩)
    rw [hw]
    dsimp only
    split
    next => exact .inr ⟨hin.valid, hin.blitting, fun _ => hin.drawn (.inr hp), (by rintro ⟨⟩)⟩
    next =>
      refine .inr ⟨hin.valid, hin.blitting, ?_, ?_⟩
      · rintro (h | h)
        · cases h
        · cases h
      · rintro ⟨⟩

theorem Screen.tick_safe {s : Screen} (h : s.gpu.Safe w) (ram : Bytes) (window : Window)
    (hold : Bool) : (s.tick ram window hold).gpu.Safe (s.gpu.checkedWith w window) := by
  unfold tick
  split
  next hc =>
    have hw : s.gpu.checkedWith w window = w := by
      unfold Gpu.checkedWith Gpu.runs
      simp [hc]
    rw [hw]
    intro hb
    exact (h hb).imp id fun hin => ⟨hin.valid, hin.blitting, hin.drawn, hin.read⟩
  next hc =>
    split
    next hn => exact fun hb => absurd hb hn
    next hn =>
      have hbusy : s.gpu.status = .busy := not_not.mp hn
      have hcommand : s.gpu.commandTick = false := by simpa using hc
      exact phase_safe (s := { s with gpu := { s.gpu with cycles := s.gpu.cycles + 1 } }) ram hold
        hcommand hbusy ((h hbusy).imp id fun hin => ⟨hin.valid, hin.blitting, hin.drawn, hin.read⟩)

theorem Gpu.store_safe (hs : g.store offset value = some g') (w : Window) : g'.Safe w := by
  unfold store at hs
  split_ifs at hs
  · obtain ⟨k, _, rfl⟩ := Option.map_eq_some_iff.mp hs
    exact fun hb => absurd hb ‹_›
  · cases hs
    rintro ⟨⟩
  · cases hs
    exact fun _ => .inl rfl

end Tick

section Touched

variable {g : Gpu} {w : Window} {hold : Bool}

structure Gpu.Reach (w : Window) (hold : Bool) (g : Gpu) : Prop where
  ram : ∀ i ∈ g.ramTouched hold, (0 ≤ i ∧ i < 0x1000000) ∧
    (w.start.toNat ≤ 0x80000000 + i ∧ 0x80000000 + i < w.stop.toNat) ∧
    g.toG1.sourceLocked (0x80000000 + i.toNat) 1 = true
  fb : ∀ i ∈ g.fbTouched hold, 0 ≤ i ∧ i < 320 * 240

theorem G1.valid_window {g : G1} (h : g.valid window = true) (hop : g.p .op = gpuBlit)
    (hsrc : g.p .src ≠ fbAddress) :
    window.start.toNat ≤ (g.p .src).toNat ∧ g.sourceEnd ≤ window.stop.toNat := by
  unfold valid at h
  simp only [hop, Bool.and_eq_true, Bool.or_eq_true] at h
  obtain ⟨_, hblit⟩ := h
  obtain ⟨_, hsource⟩ := hblit.resolve_left (by simp)
  rw [if_neg hsrc] at hsource
  simp only [Bool.and_eq_true, decide_eq_true_eq] at hsource
  exact ⟨hsource.1.2, hsource.2⟩

theorem G1.valid_rows {g : G1} (h : g.valid window = true) (hop : g.p .op = gpuBlit) :
    g.p .sh ≠ 0 := by
  unfold valid at h
  simp only [hop, Bool.and_eq_true, Bool.or_eq_true] at h
  obtain ⟨_, hblit⟩ := h
  obtain ⟨⟨⟨⟨⟨⟨⟨⟨_, _⟩, _⟩, _⟩, hsh⟩, _⟩, _⟩, _⟩, _⟩ := hblit.resolve_left (by simp)
  have hpos : 0 < g.p .sh := of_decide_eq_true hsh
  intro hz
  rw [hz] at hpos
  exact absurd hpos (by decide)

theorem Gpu.InBounds.source (h : g.InBounds w) (hop : g.p .op = gpuBlit) :
    (g.p .src).toNat + g.plot.sourceAt g.p g.plot.cursor < g.toG1.sourceEnd := by
  have hb := h.blitting hop
  obtain ⟨i, hi, hlt⟩ := G1.blit_offset h.valid hop (hb.inside _ hb.cursor)
  have hat : g.plot.sourceAt g.p g.plot.cursor = i := by
    unfold Plot.sourceAt
    rw [hb.corner]
    exact hi
  rw [hat]
  exact hlt

theorem Gpu.InBounds.fb_reach (h : g.InBounds w) (hi : i ∈ g.fbTouched hold) :
    0 ≤ i ∧ i < 320 * 240 := by
  unfold fbTouched at hi
  split at hi
  next =>
    split at hi
    next hp =>
      split at hi
      next hsrc =>
        have hop := h.read hp
        have hlt := h.source hop
        obtain ⟨hsw, hsh, hstride⟩ := G1.valid_framebuffer h.valid hop hsrc
        have hend : g.toG1.sourceEnd = 0x12000000 + 76800 := by
          unfold G1.sourceEnd
          rw [hsw, hsh, hstride, show g.toG1.p .src = fbAddress from hsrc]
          rfl
        have hstart : (g.p .src).toNat = 0x12000000 := by
          rw [hsrc]
          rfl
        obtain rfl := List.mem_singleton.mp hi
        omega
      next => cases hi
    next hp =>
      obtain ⟨⟨_, _⟩, _, _⟩ := onScreen_iff.mp (h.drawn (.inr hp))
      obtain rfl := List.mem_singleton.mp hi
      omega
    next => cases hi
  next => cases hi

theorem Gpu.InBounds.ram_reach (h : g.InBounds w) (hi : i ∈ g.ramTouched hold) :
    (0 ≤ i ∧ i < 0x1000000) ∧
      (w.start.toNat ≤ 0x80000000 + i ∧ 0x80000000 + i < w.stop.toNat) ∧
      g.toG1.sourceLocked (0x80000000 + i.toNat) 1 = true := by
  unfold ramTouched at hi
  split at hi
  next hif =>
    simp only [Bool.and_eq_true, decide_eq_true_eq] at hif
    obtain ⟨⟨⟨hruns, hp⟩, _⟩, hsrc⟩ := hif
    have hop := h.read hp
    have hlt := h.source hop
    obtain ⟨hlow, hend⟩ := (G1.valid_blit h.valid hop).2.resolve_left hsrc
    obtain ⟨hstart, hstop⟩ := G1.valid_window h.valid hop hsrc
    have hbusy : g.status = .busy := by
      unfold runs at hruns
      simp only [Bool.and_eq_true, decide_eq_true_eq] at hruns
      exact hruns.2
    have hindex : i = (g.p .src).toNat - 0x80000000 + g.plot.sourceAt g.p g.plot.cursor := by
      obtain rfl := List.mem_singleton.mp hi
      unfold wrap32
      change 0x80000000 ≤ (g.p .src).toNat at hlow
      omega
    have hlow : 0x80000000 ≤ (g.p .src).toNat := hlow
    have hstart : w.start.toNat ≤ (g.p .src).toNat := hstart
    refine ⟨by omega, by omega, ?_⟩
    unfold G1.sourceLocked
    simp only [Bool.and_eq_true, decide_eq_true_eq]
    refine ⟨⟨⟨⟨⟨⟨hbusy, hop⟩, hlow⟩, ?_⟩, by omega⟩, ?_⟩, by omega⟩
    · simpa using G1.valid_rows h.valid hop
    · change (g.p .src).toNat < _
      omega
  next => cases hi

theorem Gpu.Safe.reach (h : g.Safe w) (hold : Bool) : g.Reach w hold := by
  have htouch {i : Int} (hi : i ∈ g.ramTouched hold ∨ i ∈ g.fbTouched hold) : g.InBounds w := by
    have hruns : g.runs = true ∧ g.phase ≠ .setup := by
      unfold ramTouched fbTouched at hi
      cases hr : g.runs with
      | false =>
        rw [hr] at hi
        simp at hi
      | true =>
        refine ⟨rfl, fun hp => ?_⟩
        rw [hr, hp] at hi
        simp at hi
    obtain ⟨hruns, hp⟩ := hruns
    unfold runs at hruns
    simp only [Bool.and_eq_true, decide_eq_true_eq] at hruns
    exact (h hruns.2).resolve_left hp
  exact ⟨fun i hi => (htouch (.inl hi)).ram_reach hi, fun i hi => (htouch (.inr hi)).fb_reach hi⟩

def Gpu.Confined (hold : Bool) (g : Gpu) : Prop :=
  ∀ (ram ram' fb fb' : Bytes) (window : Window),
    (∀ i ∈ g.ramTouched hold, ram i.toNat = ram' i.toNat) →
    (∀ i ∈ g.fbTouched hold, fb i.toNat = fb' i.toNat) →
    (Screen.tick ram window hold ⟨g, fb⟩).gpu = (Screen.tick ram' window hold ⟨g, fb'⟩).gpu ∧
      ∀ i : Nat, (i : Int) ∉ g.fbTouched hold → (Screen.tick ram window hold ⟨g, fb⟩).fb i = fb i

theorem Gpu.Reach.confined (h : g.Reach w hold) : g.Confined hold := by
  intro ram ram' fb fb' window hram hfb
  have hreach := h.fb
  unfold Screen.tick
  dsimp only
  split
  next => exact ⟨rfl, fun _ _ => rfl⟩
  next hc =>
    split
    next => exact ⟨rfl, fun _ _ => rfl⟩
    next hn =>
      have hruns : g.runs = true := by
        unfold runs
        simp only [Bool.and_eq_true, decide_eq_true_eq]
        exact ⟨by simpa using hc, not_not.mp hn⟩
      unfold ramTouched at hram
      unfold fbTouched at hfb hreach ⊢
      rw [hruns] at hram hfb hreach ⊢
      unfold Screen.phase
      dsimp only
      cases hp : g.phase with
      | setup | scan | advance | idle => exact ⟨rfl, fun _ _ => rfl⟩
      | read =>
        rw [hp] at hram hfb
        cases hold with
        | true => exact ⟨rfl, fun _ _ => rfl⟩
        | false =>
          refine ⟨?_, fun _ _ => rfl⟩
          have hpixel : g.plot.sourcePixel g.p ram g.plot.cursor fb =
              g.plot.sourcePixel g.p ram' g.plot.cursor fb' := by
            unfold Plot.sourcePixel
            split
            next hsrc => exact hfb (g.plot.sourceAt g.p g.plot.cursor : Nat) (by simp [hsrc])
            next hsrc =>
              exact hram (wrap32 ((g.p .src).toNat - 0x80000000 +
                g.plot.sourceAt g.p g.plot.cursor) : Nat) (by simpa using hsrc)
          dsimp only
          rw [hpixel]
          rfl
      | write =>
        rw [hp] at hreach
        cases hold with
        | true => exact ⟨rfl, fun _ _ => rfl⟩
        | false =>
          refine ⟨rfl, fun i hi => Function.update_of_ne (fun he => hi ?_) _ _⟩
          have hpos := hreach (g.plot.cursor.y * 320 + g.plot.cursor.x) (by simp)
          have hat : (pixelAt g.plot.cursor : Int) = _ := Int.toNat_of_nonneg hpos.1
          rw [he]
          simp [hat]

end Touched

end TinyProcessors
