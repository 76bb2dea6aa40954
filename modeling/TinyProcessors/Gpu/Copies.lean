import TinyProcessors.Gpu.Agrees

namespace TinyProcessors

def blitSource (p : Gp → Word) (q : Point) : Point :=
  ⟨Gp.sx.int p + q.x - Gp.x0.int p, Gp.sy.int p + q.y - Gp.y0.int p⟩

def BlitTarget (p : Gp → Word) (q : Point) : Prop :=
  (Gp.x0.int p ≤ q.x ∧ q.x < Gp.x0.int p + Gp.w.int p) ∧
    (Gp.y0.int p ≤ q.y ∧ q.y < Gp.y0.int p + Gp.h.int p) ∧
    onScreen q = true ∧ onScreen (blitSource p q) = true

instance (p : Gp → Word) (q : Point) : Decidable (BlitTarget p q) :=
  inferInstanceAs (Decidable (_ ∧ _))

def pixelOf (i : Nat) : Point := ⟨(i % 320 : Nat), (i / 320 : Nat)⟩

def snapshotBlit (p : Gp → Word) (fb : Bytes) : Bytes := fun i =>
  if BlitTarget p (pixelOf i) then fb (pixelAt (blitSource p (pixelOf i))) else fb i

theorem onScreen_iff : onScreen q = true ↔ (0 ≤ q.x ∧ q.x < 320) ∧ 0 ≤ q.y ∧ q.y < 240 := by
  unfold onScreen
  simp only [Bool.and_eq_true, decide_eq_true_eq]
  omega

theorem pixelAt_pixelOf (i : Nat) : pixelAt (pixelOf i) = i := by
  unfold pixelAt pixelOf
  dsimp only
  omega

theorem pixelOf_pixelAt (h : onScreen q = true) : pixelOf (pixelAt q) = q := by
  obtain ⟨⟨hx, hx'⟩, hy, hy'⟩ := onScreen_iff.mp h
  unfold pixelAt pixelOf
  ext
  · dsimp only
    omega
  · dsimp only
    omega

section Snapshot

variable {p : Gp → Word}

theorem mem_blit (hsw : Gp.sw.int p = 320) (hsh : Gp.sh.int p = 240) :
    q ∈ (blitPoints p).filter (inBlit p) ↔ BlitTarget p q := by
  have hpoints : q ∈ blitPoints p ↔ q ∈ raster
      (interval (Gp.x0.int p) (Gp.x0.int p + Gp.w.int p))
      (interval (Gp.y0.int p) (Gp.y0.int p + Gp.h.int p)) := by
    unfold blitPoints
    dsimp only
    split
    · exact List.mem_reverse
    · exact Iff.rfl
  rw [List.mem_filter, hpoints, mem_raster, mem_interval, mem_interval]
  unfold BlitTarget
  rw [onScreen_iff, onScreen_iff]
  unfold inBlit blitRange blitSource
  rw [hsw, hsh]
  simp only [Bool.and_eq_true, decide_eq_true_eq]
  omega

def blitDistance (p : Gp → Word) : Int :=
  Gp.sy.int p * 320 + Gp.sx.int p - (Gp.y0.int p * 320 + Gp.x0.int p)

theorem pixelAt_blitSource (h : BlitTarget p q) :
    (pixelAt (blitSource p q) : Int) = pixelAt q + blitDistance p := by
  obtain ⟨_, _, hq, hs⟩ := h
  rw [onScreen_iff] at hq hs
  unfold pixelAt blitDistance
  unfold blitSource at hs ⊢
  dsimp only at hs ⊢
  omega

theorem pixelAt_before (hq : onScreen q = true) (hq' : onScreen q' = true) (h : q.Before q') :
    pixelAt q < pixelAt q' := by
  rw [onScreen_iff] at hq hq'
  unfold pixelAt
  unfold Point.Before at h
  omega

theorem blit_pairwise (hsrc : p .src = fbAddress) (hsw : Gp.sw.int p = 320)
    (hsh : Gp.sh.int p = 240) :
    ((blitPoints p).filter (inBlit p)).Pairwise fun q q' =>
      pixelAt q ≠ pixelAt (blitSource p q') ∧ pixelAt q ≠ pixelAt q' := by
  have horder := raster_pairwise
    (interval_pairwise (Gp.x0.int p) (Gp.x0.int p + Gp.w.int p))
    (interval_pairwise (Gp.y0.int p) (Gp.y0.int p + Gp.h.int p))
  by_cases hback : Gp.sy.int p * 320 + Gp.sx.int p < Gp.y0.int p * 320 + Gp.x0.int p
  · have hpoints : (blitPoints p).Pairwise fun q q' => q'.Before q := by
      unfold blitPoints
      dsimp only
      rw [if_pos ⟨hsrc, hback⟩]
      exact List.pairwise_reverse.mpr horder
    refine (hpoints.filter (inBlit p)).imp_of_mem fun {q q'} hq hq' hb => ?_
    rw [mem_blit hsw hsh] at hq hq'
    have hlt := pixelAt_before hq'.2.2.1 hq.2.2.1 hb
    have hsource := pixelAt_blitSource hq'
    unfold blitDistance at hsource
    omega
  · have hpoints : (blitPoints p).Pairwise Point.Before := by
      unfold blitPoints
      dsimp only
      rw [if_neg fun h => hback h.2]
      exact horder
    refine (hpoints.filter (inBlit p)).imp_of_mem fun {q q'} hq hq' hb => ?_
    rw [mem_blit hsw hsh] at hq hq'
    have hlt := pixelAt_before hq.2.2.1 hq'.2.2.1 hb
    have hsource := pixelAt_blitSource hq'
    unfold blitDistance at hsource
    omega

theorem blitColor_framebuffer (hstride : p .stride = 320) (h : BlitTarget p q) (fb : Bytes) :
    blitColor .framebuffer p q fb = fb (pixelAt (blitSource p q)) := by
  obtain ⟨_, _, _, hs⟩ := h
  rw [onScreen_iff] at hs
  unfold blitSource at hs
  dsimp only at hs
  unfold blitColor Source.read pixelAt blitSource
  rw [hstride]
  dsimp only
  congr 1
  unfold wrap32
  generalize Gp.sx.int p + q.x - Gp.x0.int p = u at hs ⊢
  generalize Gp.sy.int p + q.y - Gp.y0.int p = v at hs ⊢
  change ((v * 320 + u) % 2 ^ 32).toNat = _
  omega

theorem Canvas.draw_copies (source : Point → Point) (qs : List Point) (c : Canvas) :
    (c.draw (fun q fb => fb (pixelAt (source q))) qs).fb =
      copies pixelAt (fun q => pixelAt (source q)) qs c.fb := by
  induction qs generalizing c with
  | nil => rfl
  | cons q qs ih => exact ih _

theorem Canvas.blit_snapshot (hop : p .op = gpuBlit) (hsrc : p .src = fbAddress)
    (hsw : Gp.sw.int p = 320) (hsh : Gp.sh.int p = 240) (hstride : p .stride = 320)
    (color : UInt8) (c : Canvas) :
    (c.blit .framebuffer p color).fb = snapshotBlit p c.fb := by
  let qs := (blitPoints p).filter (inBlit p)
  have hcolor : c.draw (blitColor .framebuffer p) qs =
      c.draw (fun q fb => fb (pixelAt (blitSource p q))) qs :=
    draw_congr (fun q hq => funext (blitColor_framebuffer hstride ((mem_blit hsw hsh).mp hq))) c
  have horder := blit_pairwise hsrc hsw hsh
  rw [blit_eq hop, hcolor, draw_copies]
  funext i
  unfold snapshotBlit
  split
  next h =>
    have hi := copies_snapshot c.fb (horder.imp And.left) (horder.imp And.right)
      ((mem_blit hsw hsh).mpr h)
    rwa [pixelAt_pixelOf] at hi
  next h =>
    refine copies_of_ne c.fb fun q hq hi => h ?_
    have ht := (mem_blit hsw hsh).mp hq
    rwa [← hi, pixelOf_pixelAt ht.2.2.1]

end Snapshot

/-- A blit of the framebuffer to itself is a copy from a snapshot. -/
theorem gpu_blit_snapshot (ram : Bytes) (window : Window) (base : Nat) (hold : Nat → Bool)
    (hhold : ∀ t, ∃ k, hold (t + k) = false) (g g' : Gpu) (fb : Bytes)
    (hop : g.p .op = gpuBlit) (hsrc : g.p .src = fbAddress) (hv : g.toG1.valid window = true)
    (hstart : g.store 0 gpuStart = some g') :
    (∃ n, ∀ m, n ≤ m → (Screen.run ram window hold m ⟨g', fb⟩).gpu.status = .done ∧
      (Screen.run ram window hold m ⟨g', fb⟩).fb = snapshotBlit g.p fb) ∧
    (gpuReference base .framebuffer g.p fb).map Canvas.fb = some (snapshotBlit g.p fb) := by
  obtain rfl := Gpu.store_start hstart
  obtain ⟨hsw, hsh, hstride⟩ := G1.valid_framebuffer hv hop hsrc
  have hsource : gpuSource ram g.toG1.p = .framebuffer := if_pos hsrc
  have hblit : (Canvas.blit .framebuffer g.p (UInt8.ofNat (g.p .color).toNat) ⟨fb, []⟩).fb =
      snapshotBlit g.p fb :=
    Canvas.blit_snapshot hop hsrc (congrArg BitVec.toInt hsw) (congrArg BitVec.toInt hsh) hstride _ _
  have hd := blit_draws hv hop ram g.plot (UInt8.ofNat (g.p .color).toNat) ⟨fb, []⟩
  rw [hsource] at hd
  obtain ⟨d, pixel, reads, writes, qs, hscans, _⟩ := draws_scans hv hd
  obtain ⟨n, hn⟩ := Screen.run_scans hhold ((command_scans ram window g fb).trans hscans)
    (by simp [Gpu.working]) rfl
  refine ⟨⟨n, fun m hm => ?_⟩, ?_⟩
  · have hend := (hn m hm).1
    exact ⟨congrArg (·.gpu.status) hend, (congrArg (·.fb) hend).trans hblit⟩
  · have href : gpuReference base .framebuffer g.p fb =
        some (Canvas.blit .framebuffer g.p (UInt8.ofNat (g.p .color).toNat) ⟨fb, []⟩) := by
      unfold gpuReference
      rw [hop]
      rfl
    rw [href, Option.map_some, hblit]

def scrollRight : Gpu :=
  { Gpu.reset with
    p := fun
      | .op => gpuBlit
      | .src => fbAddress
      | .sw => 320
      | .sh => 240
      | .stride => 320
      | .sx => 315
      | .x0 => 317
      | .w => 4
      | .h => 1
      | _ => 0 }

theorem gpu_blit_snapshot_scroll :
    scrollRight.toG1.valid ⟨0, 0⟩ = true ∧
      snapshotBlit scrollRight.p (fun i => UInt8.ofNat i) 318 = UInt8.ofNat 316 ∧
      ∃ n, ∀ m, n ≤ m →
        (Screen.run (fun _ => 0) ⟨0, 0⟩ (fun t => decide (t % 2 = 0)) m
          ⟨scrollRight.command, fun i => UInt8.ofNat i⟩).fb =
          snapshotBlit scrollRight.p fun i => UInt8.ofNat i := by
  have hhold (t : Nat) : ∃ k, decide ((t + k) % 2 = 0) = false := by
    rcases Nat.mod_two_eq_zero_or_one t with h | h
    · exact ⟨1, by simp; omega⟩
    · exact ⟨0, by simp [h]⟩
  obtain ⟨⟨n, hn⟩, _⟩ := gpu_blit_snapshot (fun _ => 0) ⟨0, 0⟩ 0 (fun t => decide (t % 2 = 0)) hhold
    scrollRight scrollRight.command (fun i => UInt8.ofNat i) rfl rfl (by decide) rfl
  exact ⟨by decide, by decide, n, fun m hm => (hn m hm).2⟩

end TinyProcessors
