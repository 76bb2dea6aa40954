import TinyProcessors.Gpu.Bounds
import TinyProcessors.G3d.Bounds

namespace TinyProcessors.Emu

/-- What happens to G1: a tick, or a store to its registers. -/
inductive GpuEvent
  | tick (ram fb : Bytes) (window : Window) (hold : Bool)
  | store (offset : Nat) (value : Word)

def GpuEvent.step (s : Gpu × Window) : GpuEvent → Gpu × Window
  | .tick ram fb window hold =>
    ((Screen.tick ram window hold ⟨s.1, fb⟩).gpu, s.1.checkedWith s.2 window)
  | .store offset value => ((s.1.store offset value).getD s.1, s.2)

def gpuAfter (w : Window) (es : List GpuEvent) : Gpu × Window := es.foldl GpuEvent.step (Gpu.reset, w)

theorem GpuEvent.step_safe (h : s.1.Safe s.2) (e : GpuEvent) : (step s e).1.Safe (step s e).2 := by
  cases e with
  | tick ram fb window hold => exact Screen.tick_safe (s := ⟨s.1, fb⟩) h ram window hold
  | store offset value =>
    change ((s.1.store offset value).getD s.1).Safe s.2
    cases hs : s.1.store offset value with
    | none => exact h
    | some g => exact Gpu.store_safe hs s.2

theorem gpuAfter_safe (w : Window) (es : List GpuEvent) :
    (gpuAfter w es).1.Safe (gpuAfter w es).2 := by
  have hrun (s : Gpu × Window) (h : s.1.Safe s.2) :
      (es.foldl GpuEvent.step s).1.Safe (es.foldl GpuEvent.step s).2 := by
    induction es generalizing s with
    | nil => exact h
    | cons e es ih => exact ih _ (GpuEvent.step_safe h e)
  exact hrun (Gpu.reset, w) (by rintro ⟨⟩)

inductive G3dEvent
  | tick (ram fb : Bytes) (window : Window) (hold : Bool)
  | store (offset : Nat) (value : Word) (otherBusy : Bool)

def G3dEvent.step (s : G3d.Device × Window) : G3dEvent → G3d.Device × Window
  | .tick ram fb window hold =>
    ((G3d.Board.tick window hold ⟨s.1, ram, fb⟩).dev, s.1.checkedWith s.2 window)
  | .store offset value otherBusy => ((s.1.store offset value otherBusy).getD s.1, s.2)

def g3dAfter (d : G3d.Device) (w : Window) (es : List G3dEvent) : G3d.Device × Window :=
  es.foldl G3dEvent.step (d.reset, w)

theorem G3dEvent.step_inBounds (h : s.1.status = .busy → s.1.InBounds s.2) (e : G3dEvent)
    (hb : (step s e).1.status = .busy) : (step s e).1.InBounds (step s e).2 := by
  cases e with
  | tick ram fb window hold =>
    exact G3d.Board.tick_inBounds (s := ⟨s.1, ram, fb⟩) h window hold hb
  | store offset value otherBusy =>
    change ((s.1.store offset value otherBusy).getD s.1).status = .busy at hb
    change ((s.1.store offset value otherBusy).getD s.1).InBounds s.2
    cases hs : s.1.store offset value otherBusy with
    | none =>
      rw [hs] at hb
      exact h hb
    | some d =>
      rw [hs] at hb
      exact G3d.Device.store_inBounds hs hb s.2

theorem g3dAfter_inBounds (d : G3d.Device) (w : Window) (es : List G3dEvent) :
    (g3dAfter d w es).1.status = .busy → (g3dAfter d w es).1.InBounds (g3dAfter d w es).2 := by
  have hrun (s : G3d.Device × Window) (h : s.1.status = .busy → s.1.InBounds s.2) :
      (es.foldl G3dEvent.step s).1.status = .busy →
        (es.foldl G3dEvent.step s).1.InBounds (es.foldl G3dEvent.step s).2 := by
    induction es generalizing s with
    | nil => exact h
    | cons e es ih => exact ih _ (G3dEvent.step_inBounds h e)
  exact hrun (d.reset, w) (by rintro ⟨⟩)

/-- What a tick of an engine reads and writes stays in the window of its job. -/
theorem engines_in_bounds :
    (∀ (w : Window) (es : List GpuEvent) (hold : Bool),
      (gpuAfter w es).1.Reach (gpuAfter w es).2 hold ∧ (gpuAfter w es).1.Confined hold) ∧
    ∀ (d : G3d.Device) (w : Window) (es : List G3dEvent) (hold : Bool),
      (g3dAfter d w es).1.Reach (g3dAfter d w es).2 hold ∧ (g3dAfter d w es).1.Confined hold := by
  refine ⟨fun w es hold => ?_, fun d w es hold => ?_⟩
  · have hreach := (gpuAfter_safe w es).reach hold
    exact ⟨hreach, hreach.confined⟩
  · exact ⟨G3d.Device.reach (g3dAfter_inBounds d w es) hold,
      G3d.Device.confined (g3dAfter_inBounds d w es) hold⟩

/-- A blit from RAM comes to its first byte. -/
example :
    let reg (k : Nat) (v : Word) : GpuEvent := .store (0x40 + 4 * k) v
    let window : Window := ⟨0x80000000, 0x80001000⟩
    let tick : GpuEvent := .tick (fun _ => 0) (fun _ => 0) window false
    (gpuAfter ⟨0, 0⟩ [reg 0 2, reg 8 4, reg 9 4, reg 10 0x80000100, reg 11 8, reg 12 8, reg 13 8,
      .store 0 1, tick, tick, tick]).1.ramTouched false = [0x100] := by
  decide

end TinyProcessors.Emu
