import Mathlib

namespace TinyProcessors

/-- Whether a user may use what is shared, and has changed it. -/
inductive Use
  | off
  | clean
  | dirty
  deriving DecidableEq

/-- A state that one user at a time holds, saved when another one claims it. -/
@[ext] structure Lazy (ι σ : Type) where
  held : σ
  owner : Option ι
  saved : ι → σ
  use : ι → Use

variable {ι σ : Type} [DecidableEq ι]

def Lazy.view (l : Lazy ι σ) (i : ι) : σ := if l.owner = some i then l.held else l.saved i

/-- The owner gives it up: saved if it is dirty, for a clean one's copy is still good. -/
def Lazy.giveUp (l : Lazy ι σ) : Lazy ι σ :=
  match l.owner with
  | none => l
  | some o => { l with
      saved := if l.use o = .dirty then Function.update l.saved o l.held else l.saved
      use := Function.update l.use o .off }

def Lazy.claim (l : Lazy ι σ) (p : ι) : Lazy ι σ :=
  { l.giveUp with
    held := l.giveUp.saved p
    owner := some p
    use := Function.update l.giveUp.use p .clean }

def Lazy.write (l : Lazy ι σ) (p : ι) (v : σ) : Lazy ι σ :=
  { l with held := v, use := Function.update l.use p .dirty }

def Lazy.release (l : Lazy ι σ) (p : ι) : Lazy ι σ :=
  { l with
    owner := if l.owner = some p then none else l.owner
    use := Function.update l.use p .off }

/-- A new user starts with `v`. -/
def Lazy.start (l : Lazy ι σ) (p : ι) (v : σ) : Lazy ι σ :=
  { l with saved := Function.update l.saved p v }

/-- Only the owner's use is on, and a clean owner's saved copy is what is held. -/
structure Lazy.Sound (l : Lazy ι σ) : Prop where
  on : l.use i ≠ .off ↔ l.owner = some i
  clean : l.owner = some i → l.use i = .clean → l.saved i = l.held

theorem Lazy.Sound.giveUp_view {l : Lazy ι σ} (h : l.Sound) (i : ι) :
    l.giveUp.saved i = l.view i := by
  unfold giveUp view
  cases ho : l.owner with
  | none => rfl
  | some o =>
    dsimp only
    by_cases hi : o = i
    · subst hi
      rw [if_pos rfl]
      split
      next => exact Function.update_self _ _ _
      next hd =>
        -- on and not dirty: its copy is still good
        refine h.clean ho ?_
        have hon := h.on.2 ho
        cases hu : l.use o with
        | off => exact absurd hu hon
        | clean => rfl
        | dirty => exact absurd hu hd
    · rw [if_neg fun he => hi (Option.some.inj he)]
      split
      next => exact Function.update_of_ne (Ne.symm hi) _ _
      next => rfl

theorem Lazy.Sound.giveUp_use {l : Lazy ι σ} (h : l.Sound) (i : ι) : l.giveUp.use i = .off := by
  unfold giveUp
  cases ho : l.owner with
  | none =>
    by_contra hn
    cases (h.on.1 hn).symm.trans ho
  | some o =>
    dsimp only
    by_cases hi : i = o
    · rw [hi, Function.update_self]
    · rw [Function.update_of_ne hi]
      by_contra hn
      exact hi (Option.some.inj ((h.on.1 hn).symm.trans ho))

theorem Lazy.Sound.claim {l : Lazy ι σ} (h : l.Sound) (p : ι) : (l.claim p).Sound := by
  have hself : (l.claim p).use p = .clean := Function.update_self _ _ _
  have hother {i : ι} (hi : i ≠ p) : (l.claim p).use i = .off :=
    (Function.update_of_ne hi _ _).trans (h.giveUp_use i)
  constructor
  · intro i
    by_cases hi : i = p
    · rw [hi, hself]
      exact ⟨fun _ => rfl, fun _ => by rintro ⟨⟩⟩
    · rw [hother hi]
      exact ⟨fun hn => absurd rfl hn, fun ho => absurd (Option.some.inj ho).symm hi⟩
  · intro i ho _
    have hi : p = i := Option.some.inj ho
    rw [← hi]
    rfl

theorem Lazy.Sound.claim_view {l : Lazy ι σ} (h : l.Sound) (p i : ι) :
    (l.claim p).view i = l.view i := by
  rw [← h.giveUp_view i]
  change (if some p = some i then l.giveUp.saved p else l.giveUp.saved i) = l.giveUp.saved i
  split
  next hi => rw [Option.some.inj hi]
  next => rfl

theorem Lazy.Sound.write {l : Lazy ι σ} (h : l.Sound) (ho : l.owner = some p) (v : σ) :
    (l.write p v).Sound := by
  have hself : (l.write p v).use p = .dirty := Function.update_self _ _ _
  have hother {i : ι} (hi : i ≠ p) : (l.write p v).use i = l.use i := Function.update_of_ne hi _ _
  constructor
  · intro i
    by_cases hi : i = p
    · rw [hi, hself]
      exact ⟨fun _ => ho, fun _ => by rintro ⟨⟩⟩
    · rw [hother hi]
      exact h.on
  · intro i hi hc
    have hip : i = p := Option.some.inj (hi.symm.trans ho)
    rw [hip, hself] at hc
    cases hc

theorem Lazy.write_view {l : Lazy ι σ} (ho : l.owner = some p) (v : σ) (i : ι) :
    (l.write p v).view i = if i = p then v else l.view i := by
  unfold view
  change (if l.owner = some i then v else l.saved i) = _
  rw [ho]
  by_cases hi : i = p
  · rw [if_pos hi, if_pos (by rw [hi])]
  · have hne : some p ≠ some i := fun he => hi (Option.some.inj he).symm
    rw [if_neg hi, if_neg hne, if_neg hne]

theorem Lazy.Sound.release {l : Lazy ι σ} (h : l.Sound) (p : ι) : (l.release p).Sound := by
  have howner {i : ι} : (l.release p).owner = some i ↔ i ≠ p ∧ l.owner = some i := by
    change (if l.owner = some p then none else l.owner) = some i ↔ _
    split
    next ho =>
      refine ⟨by rintro ⟨⟩, fun ⟨hi, hoi⟩ => ?_⟩
      exact absurd (Option.some.inj (hoi.symm.trans ho)) hi
    next ho =>
      refine ⟨fun hi => ⟨?_, hi⟩, fun hi => hi.2⟩
      rintro rfl
      exact ho hi
  constructor
  · intro i
    rw [howner]
    by_cases hi : i = p
    · have hoff : (l.release p).use i = .off := by rw [hi]; exact Function.update_self _ _ _
      exact ⟨fun hn => absurd hoff hn, fun hn => absurd hi hn.1⟩
    · have hsame : (l.release p).use i = l.use i := Function.update_of_ne hi _ _
      rw [hsame, h.on]
      exact ⟨fun ho => ⟨hi, ho⟩, fun ho => ho.2⟩
  · intro i ho hc
    obtain ⟨hi, ho⟩ := howner.1 ho
    have hsame : (l.release p).use i = l.use i := Function.update_of_ne hi _ _
    exact h.clean ho (hsame.symm.trans hc)

theorem Lazy.release_view (l : Lazy ι σ) (hi : i ≠ p) : (l.release p).view i = l.view i := by
  unfold view
  change (if (if l.owner = some p then none else l.owner) = some i then l.held else l.saved i) = _
  by_cases ho : l.owner = some p
  · have hne : some p ≠ some i := fun he => hi (Option.some.inj he).symm
    rw [if_pos ho, if_neg (by rintro ⟨⟩), ho, if_neg hne]
  · rw [if_neg ho]

theorem Lazy.Sound.start {l : Lazy ι σ} (h : l.Sound) (hp : l.use p = .off) (v : σ) :
    (l.start p v).Sound := by
  refine ⟨h.on, fun {i} ho hc => ?_⟩
  have hi : i ≠ p := by
    rintro rfl
    exact h.on.2 ho hp
  exact (Function.update_of_ne hi _ _).trans (h.clean ho hc)

theorem Lazy.Sound.start_view {l : Lazy ι σ} (h : l.Sound) (hp : l.use p = .off) (v : σ) (i : ι) :
    (l.start p v).view i = if i = p then v else l.view i := by
  unfold view
  change (if l.owner = some i then l.held else Function.update l.saved p v i) = _
  by_cases hi : i = p
  · rw [if_pos hi, hi, Function.update_self, if_neg fun ho => h.on.2 ho hp]
  · rw [if_neg hi, Function.update_of_ne hi]

end TinyProcessors
