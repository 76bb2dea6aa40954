import TinyProcessors.Dt.Fdt

namespace TinyProcessors
open FdtM

def ReadsBelow (total : Nat) (log log' : List FdtEvent) : Prop :=
  ∃ es, log' = es ++ log ∧ ∀ e ∈ es, ∃ pos < total, e = .read pos

instance : IsPreorder (List FdtEvent) (ReadsBelow total) where
  refl log := ⟨[], rfl, by simp⟩
  trans := by
    rintro a b c ⟨es, rfl, hes⟩ ⟨fs, rfl, hfs⟩
    refine ⟨fs ++ es, (List.append_assoc fs es a).symm, ?_⟩
    intro e he
    rcases List.mem_append.mp he with h | h
    · exact hfs e h
    · exact hes e h

def Halted (e : FdtHalt) (log log' : List FdtEvent) : Prop :=
  ∃ s ws, e = .status s ∧ log' = ws ++ log ∧ (∀ w ∈ ws, w = .wrap) ∧ (ws ≠ [] → s = .badLayout)

def Safe (total : Nat) (m : FdtM α) (R : α → Prop) : Prop :=
  ∀ log, Does (ReadsBelow total) Halted m log fun a _ => R a

theorem Safe.mono (h : Safe total m P) (hr : ∀ a, P a → R a) : Safe total m R :=
  fun log => (h log).mono fun a _ _ => hr a

theorem Safe.pure {R : α → Prop} (h : R a) : Safe total (pure a : FdtM α) R := fun _ => .pure h

theorem Safe.bind {m : FdtM α} {k : α → FdtM β} (hm : Safe total m P)
    (hk : ∀ a, P a → Safe total (k a) R) : Safe total (m >>= k) R :=
  fun log => (hm log).bind fun a log' _ hp => hk a hp log'

theorem Safe.fail {R : α → Prop} : Safe total (fail s : FdtM α) R :=
  fun log => .throw ⟨s, [], rfl, rfl, by simp, by simp⟩

theorem fit_eq (h : n < 2 ^ 32) (log : List FdtEvent) : fit n log = .ok n log := by
  change EStateM.Result.ok (n % 2 ^ 32) (if n < 2 ^ 32 then log else .wrap :: log) = _
  rw [if_pos h, Nat.mod_eq_of_lt h]

theorem Safe.fit {k : Nat → FdtM β} (h : n < 2 ^ 32) (hk : Safe total (k n) R) :
    Safe total (fit n >>= k) R := by
  intro log
  refine .jump ?_ (refl log) (hk log)
  change EStateM.bind (FdtM.fit n) k log = k n log
  unfold EStateM.bind
  rw [fit_eq h]

theorem Safe.minus {k : Nat → FdtM β} (ha : a < 2 ^ 32) (h : b ≤ a)
    (hk : Safe total (k (a - b)) R) : Safe total (minus a b >>= k) R := by
  have he : (a + 2 ^ 32 - b) % 2 ^ 32 = a - b := by omega
  intro log
  refine .jump ?_ (refl log) (hk log)
  change k ((a + 2 ^ 32 - b) % 2 ^ 32) (if b ≤ a then log else .wrap :: log) = k (a - b) log
  rw [he, if_pos h]

theorem Safe.byteAt {k : UInt8 → FdtM β} (h : pos < total) (hk : Safe total (k (blob pos)) R) :
    Safe total (byteAt blob pos >>= k) R := by
  intro log
  refine .jump ?_ ⟨[.read pos], rfl, ?_⟩ (hk (.read pos :: log))
  · rfl
  · intro e he
    exact ⟨pos, h, List.mem_singleton.mp he⟩

theorem Safe.be32 (h : pos + 4 ≤ total) : Safe total (be32 blob pos) (· < 2 ^ 32) := by
  refine .byteAt (by omega) (.byteAt (by omega) (.byteAt (by omega) (.byteAt (by omega) ?_)))
  apply Safe.pure
  have ha := (blob pos).toNat_lt
  have hb := (blob (pos + 1)).toNat_lt
  have hc := (blob (pos + 2)).toNat_lt
  have hd := (blob (pos + 3)).toNat_lt
  omega

def wrapsOf (n : Nat) : List FdtEvent := if n < 2 ^ 32 then [] else [.wrap]

theorem fit_wraps (n : Nat) (log : List FdtEvent) :
    fit n log = .ok (n % 2 ^ 32) (wrapsOf n ++ log) := by
  change EStateM.Result.ok (n % 2 ^ 32) (if n < 2 ^ 32 then log else .wrap :: log) = _
  unfold wrapsOf
  split
  · rfl
  · rfl

theorem wrapsOf_wrap (h : e ∈ wrapsOf n) : e = .wrap := by
  unfold wrapsOf at h
  split at h
  · cases h
  · exact List.mem_singleton.mp h

theorem checked_safe {p : Nat → Nat → Prop} [∀ x y, Decidable (p x y)]
    {k : Nat → Nat → FdtM β} (h : p (a % 2 ^ 32) (b % 2 ^ 32)) :
    Safe total (do
      let x ← fit a
      let y ← fit b
      if p x y then fail .badLayout else k x y) R := by
  intro log
  have he : (do
      let x ← fit a
      let y ← fit b
      if p x y then fail .badLayout else k x y : FdtM β) log =
      .error (.status .badLayout) (wrapsOf b ++ (wrapsOf a ++ log)) := by
    change EStateM.bind (fit a) _ log = _
    unfold EStateM.bind
    rw [fit_wraps]
    change EStateM.bind (fit b) _ _ = _
    unfold EStateM.bind
    rw [fit_wraps]
    change (if p (a % 2 ^ 32) (b % 2 ^ 32) then (fail .badLayout : FdtM β) else _) _ = _
    rw [if_pos h]
    rfl
  unfold Does Ensures
  rw [he]
  refine ⟨log, refl log, .badLayout, wrapsOf b ++ wrapsOf a, rfl, ?_, ?_, fun _ => rfl⟩
  · rw [List.append_assoc]
  · intro w hw
    rcases List.mem_append.mp hw with hw | hw
    · exact wrapsOf_wrap hw
    · exact wrapsOf_wrap hw

def Terminated (blob : Bytes) (pos stop : Nat) : Prop := ∃ k, pos ≤ k ∧ k < stop ∧ blob k = 0

theorem Terminated.next (h : Terminated blob pos stop) (hx : blob pos ≠ 0) :
    Terminated blob (pos + 1) stop := by
  obtain ⟨k, hk, hs, hz⟩ := h
  refine ⟨k, ?_, hs, hz⟩
  have hne : k ≠ pos := by
    rintro rfl
    exact hx hz
  omega

theorem Terminated.mono (h : Terminated blob pos stop) (hs : stop ≤ stop') :
    Terminated blob pos stop' := by
  obtain ⟨k, hk, hlt, hz⟩ := h
  exact ⟨k, hk, by omega, hz⟩

theorem Terminated.pos_lt (h : Terminated blob pos stop) : pos < stop := by
  obtain ⟨k, hk, hlt, _⟩ := h
  omega

theorem fdtSameAt_safe (want : CString) (h : Terminated blob pos total) :
    Safe total (fdtSameAt blob pos want) fun _ => True := by
  induction want generalizing pos with
  | nil => exact .byteAt h.pos_lt (.pure trivial)
  | cons y want ih =>
    apply Safe.byteAt h.pos_lt
    split
    next hx => exact ih (h.next hx.1)
    next => exact .pure trivial

namespace Fdt

structure Sound (t : Fdt) : Prop where
  small : t.total < 2 ^ 31
  structs_le : t.structs ≤ t.structsEnd
  structs_end : t.structsEnd ≤ t.total
  strings_le : t.strings ≤ t.stringsEnd
  strings_end : t.stringsEnd ≤ t.total
  header : 40 ≤ t.structs

variable {t : Fdt}

theorem terminatedFor_safe (ht : t.total < 2 ^ 31) (n pos : Nat) (h : pos + n ≤ t.total) :
    Safe t.total (t.terminatedFor n pos) fun b => b = true → Terminated t.blob pos (pos + n) := by
  induction n generalizing pos with
  | zero =>
    apply Safe.pure
    intro hb
    cases hb
  | succ n ih =>
    apply Safe.byteAt (by omega)
    split
    next hx => exact .pure fun _ => ⟨pos, le_refl pos, by omega, hx⟩
    next hx =>
      apply Safe.fit (by omega)
      refine (ih (pos + 1) (by omega)).mono fun b hb htrue => ?_
      obtain ⟨k, hk, hs, hz⟩ := hb htrue
      exact ⟨k, by omega, by omega, hz⟩

theorem terminated_safe (ht : t.total < 2 ^ 31) (h : stop ≤ t.total) :
    Safe t.total (t.terminated pos stop) fun b => b = true → Terminated t.blob pos stop := by
  unfold terminated
  by_cases hp : pos ≤ stop
  · have h' := terminatedFor_safe ht (stop - pos) pos (by omega)
    rwa [Nat.add_sub_cancel' hp] at h'
  · rw [Nat.sub_eq_zero_of_le (by omega)]
    apply Safe.pure
    intro hb
    cases hb

theorem lengthFrom_safe (ht : t.total < 2 ^ 31) (hs : stop ≤ t.total) (fuel n : Nat)
    (hn : pos + n ≤ stop) (hf : stop ≤ pos + n + fuel) :
    Safe t.total (t.lengthFrom pos stop fuel n) fun k =>
      pos + k ≤ stop ∧ (pos + k ≠ stop → Terminated t.blob (pos + n) stop) := by
  induction fuel generalizing n with
  | zero =>
    unfold lengthFrom
    apply Safe.fit (by omega)
    rw [if_pos (by omega)]
    exact .pure ⟨hn, fun h => absurd (by omega) h⟩
  | succ fuel ih =>
    unfold lengthFrom
    apply Safe.fit (by omega)
    split
    next h => exact .pure ⟨hn, fun hne => absurd (by omega) hne⟩
    next h =>
      apply Safe.byteAt (by omega)
      split
      next hx => exact .pure ⟨hn, fun _ => ⟨pos + n, le_refl _, by omega, hx⟩⟩
      next hx =>
        apply Safe.fit (by omega)
        refine (ih (n + 1) (by omega) (by omega)).mono ?_
        rintro k ⟨hk, hterm⟩
        refine ⟨hk, fun hne => ?_⟩
        obtain ⟨j, hj, hjs, hz⟩ := hterm hne
        exact ⟨j, by omega, hjs, hz⟩

theorem matchesFrom_safe (ht : t.total < 2 ^ 31) (hs : stop ≤ t.total) (fuel pos : Nat)
    (hf : stop ≤ pos + fuel) :
    Safe t.total (t.matchesFrom list want stop fuel pos) fun _ => True := by
  induction fuel generalizing pos with
  | zero =>
    unfold matchesFrom
    rw [if_pos (by omega)]
    exact .pure trivial
  | succ fuel ih =>
    unfold matchesFrom
    split
    next => exact .pure trivial
    next hp =>
      apply (lengthFrom_safe ht hs t.total 0 (by omega) (by omega)).bind
      rintro n ⟨hn, hterm⟩
      apply Safe.fit (by omega)
      split
      next => exact .pure trivial
      next hne =>
        apply (fdtSameAt_safe want ((hterm hne).mono hs)).bind
        intro same _
        split
        next => exact .pure trivial
        next =>
          split
          next => exact .pure trivial
          next =>
            apply Safe.fit (by omega)
            apply Safe.fit (by omega)
            exact ih (pos + (n + 1)) (by omega)

def Span.Inside (v : Span) (t : Fdt) : Prop := v.offset + v.length ≤ t.total

theorem matches_safe (ht : t.total < 2 ^ 31) (h : v.Inside t) :
    Safe t.total (t.matches v list want) fun _ => True := by
  have h' : v.offset + v.length ≤ t.total := h
  apply Safe.fit (by omega)
  exact matchesFrom_safe ht h t.total v.offset (by omega)

theorem number_safe (ht : t.total < 2 ^ 31) (hc : cells ≤ 2) (h : pos + 4 * cells ≤ t.total) :
    Safe t.total (t.number pos cells) fun _ => True := by
  unfold number
  split
  next => exact .pure trivial
  next h0 =>
    split
    next h2 =>
      apply (Safe.be32 (by omega)).bind
      intro high _
      split
      next => exact .fail
      next =>
        apply Safe.fit (by omega)
        exact (Safe.be32 (by omega)).mono fun _ _ => trivial
    next h2 => exact (Safe.be32 (by omega)).mono fun _ _ => trivial

theorem entry_inside (hm : length % entry = 0) (hi : ¬length / entry ≤ index) :
    entry * index + entry ≤ length := by
  have hd : entry * (length / entry) = length := Nat.mul_div_cancel' (Nat.dvd_of_mod_eq_zero hm)
  have hle : entry * (index + 1) ≤ entry * (length / entry) := Nat.mul_le_mul_left entry (by omega)
  rw [hd, Nat.mul_succ] at hle
  exact hle

theorem regEntry_safe (ht : t.total < 2 ^ 31) (h : reg.Inside t) :
    Safe t.total (t.regEntry reg ac sc index) fun _ => True := by
  have h' : reg.offset + reg.length ≤ t.total := h
  unfold regEntry
  split
  next => exact .fail
  next hw =>
    apply Safe.fit (by omega)
    apply Safe.fit (by omega)
    split
    next => exact .fail
    next hz =>
      split
      next => exact .fail
      next hi =>
        have hin := entry_inside (by omega : reg.length % (4 * (ac + sc)) = 0) hi
        apply Safe.fit (by omega)
        apply Safe.fit (by omega)
        apply (number_safe ht (by omega) (by omega)).bind
        intro base _
        apply Safe.fit (by omega)
        apply Safe.fit (by omega)
        apply (number_safe ht (by omega) (by omega)).bind
        intro size _
        exact .pure trivial

structure Property.Sound (t : Fdt) (pos : Nat) (p : Property) : Prop where
  inside : p.value.Inside t
  ends : Terminated t.blob p.key t.total
  advances : pos + 8 ≤ p.next
  next_le : p.next ≤ t.structsEnd + 3

theorem readProp_safe (hs : t.Sound) (hp : pos + 8 < 2 ^ 32) :
    Safe t.total (t.readProp pos) (Property.Sound t pos) := by
  have ht := hs.small
  have hse := hs.structs_end
  have hst := hs.strings_end
  apply Safe.fit hp
  split
  next => exact .fail
  next hin =>
    apply (Safe.be32 (by omega)).bind
    intro length hl
    apply (Safe.be32 (by omega)).bind
    intro nameOff hn
    by_cases hw : t.strings + nameOff < 2 ^ 32 ∧ pos + 8 + length < 2 ^ 32
    · apply Safe.fit hw.1
      apply Safe.fit hw.2
      split
      next => exact .fail
      next hok =>
        apply (terminated_safe ht hst).bind
        intro ends hends
        split
        next => exact .fail
        next hb =>
          apply Safe.fit (by omega)
          apply Safe.pure
          have hterm := hends (by simpa using hb)
          exact ⟨show pos + 8 + length ≤ t.total by omega, hterm.mono hst,
            show pos + 8 ≤ (pos + 8 + length + 3) / 4 * 4 by omega,
            show (pos + 8 + length + 3) / 4 * 4 ≤ t.structsEnd + 3 by omega⟩
    · apply checked_safe
      have hle := hs.strings_le
      omega

theorem nameEnd_safe (hs : t.Sound) (n pos : Nat) (h : pos + n ≤ t.structsEnd) :
    Safe t.total (t.nameEnd n pos) fun p => pos ≤ p ∧ p ≤ pos + n := by
  have ht := hs.small
  have hse := hs.structs_end
  induction n generalizing pos with
  | zero => exact .pure ⟨le_refl pos, le_refl pos⟩
  | succ n ih =>
    apply Safe.byteAt (by omega)
    split
    next => exact .pure ⟨le_refl pos, by omega⟩
    next =>
      apply Safe.fit (by omega)
      refine (ih (pos + 1) (by omega)).mono ?_
      rintro p ⟨hl, hr⟩
      exact ⟨by omega, by omega⟩

theorem skipName_safe (hs : t.Sound) (h : pos ≤ t.structsEnd) :
    Safe t.total (t.skipName pos) fun p => pos < p ∧ p ≤ t.structsEnd + 4 := by
  have ht := hs.small
  have hse := hs.structs_end
  apply (nameEnd_safe hs (t.structsEnd - pos) pos (by omega)).bind
  rintro p ⟨hl, hr⟩
  apply Safe.fit (by omega)
  apply Safe.pure
  exact ⟨by omega, by omega⟩

structure Walk.Sound (t : Fdt) (w : Walk) : Prop where
  pos_le : w.pos ≤ t.structsEnd + 4
  reg_inside : w.reg.Inside t
  named_inside : w.named.Inside t

def Kept (t : Fdt) (pos : Nat) (w : Walk) : Prop := w.Sound t ∧ pos ≤ w.pos

def Round.Kept (t : Fdt) (pos : Nat) : Round → Prop
  | .more w => Fdt.Kept t pos w
  | .found _ _ => True

theorem answerAt_safe (hs : t.Sound) (hw : w.Sound t) :
    Safe t.total (t.answerAt q w) fun r => ∃ base size, r = .found base size := by
  have ht := hs.small
  have hn : w.named.offset + w.named.length ≤ t.total := hw.named_inside
  unfold answerAt
  split
  next =>
    split
    next => exact .fail
    next hok =>
      split
      next => exact .fail
      next hi =>
        have hin := entry_inside (by omega : w.named.length % 4 = 0) hi
        apply Safe.fit (by omega)
        apply (Safe.be32 (by omega)).bind
        intro cell _
        exact .pure ⟨cell, 0, rfl⟩
  next =>
    split
    next => exact .fail
    next =>
      apply (regEntry_safe ht hw.reg_inside).bind
      rintro ⟨base, size⟩ _
      exact .pure ⟨base, size, rfl⟩

theorem settle_safe (hs : t.Sound) (hw : w.Sound t) :
    Safe t.total (t.settle q w) fun r => ∀ w', r = .more w' → w'.Sound t ∧ w'.pos = w.pos := by
  unfold settle
  split
  next =>
    split
    next =>
      apply Safe.pure
      rintro w' ⟨⟩
      exact ⟨⟨hw.pos_le, hw.reg_inside, hw.named_inside⟩, rfl⟩
    next =>
      refine (answerAt_safe hs hw).mono ?_
      rintro r ⟨base, size, rfl⟩ w' hw'
      cases hw'
  next =>
    apply Safe.pure
    rintro w' ⟨⟩
    exact ⟨⟨hw.pos_le, hw.reg_inside, hw.named_inside⟩, rfl⟩

theorem settleBefore_safe (hs : t.Sound) (hw : w.Sound t) :
    Safe t.total (t.settleBefore q w tok) fun r =>
      ∀ w', r = .more w' → w'.Sound t ∧ w'.pos = w.pos := by
  unfold settleBefore
  split
  next => exact settle_safe hs hw
  next =>
    apply Safe.pure
    rintro w' ⟨⟩
    exact ⟨hw, rfl⟩

theorem nameHit_safe (hs : t.Sound) : Safe t.total (t.nameHit q name stop) fun _ => True := by
  have hse := hs.structs_end
  unfold nameHit
  split
  next h =>
    apply (terminated_safe hs.small (by omega)).bind
    intro ends hends
    split
    next hb => exact fdtSameAt_safe _ ((hends hb).mono (by omega))
    next => exact .pure trivial
  next => exact .pure trivial

theorem beginNode_safe (hs : t.Sound) (hw : Kept t pos w) (hp : w.pos ≤ t.structsEnd) :
    Safe t.total (t.beginNode q w) (Round.Kept t pos) := by
  obtain ⟨⟨_, hr, hn⟩, hle⟩ := hw
  have hse := hs.structs_end
  have hreg : w.reg.offset + w.reg.length ≤ t.total := hr
  apply (skipName_safe hs hp).bind
  rintro stop ⟨hlt, hstop⟩
  split
  next => exact .fail
  next =>
    apply (nameHit_safe hs).bind
    intro hit _
    apply Safe.pure
    exact ⟨⟨hstop, show w.reg.offset + 0 ≤ t.total by omega, hn⟩, show pos ≤ stop by omega⟩

theorem endNode_safe (hw : Kept t pos w) : Safe t.total (endNode w) (Round.Kept t pos) := by
  unfold endNode
  split
  next => exact .fail
  next => exact .pure ⟨⟨hw.1.pos_le, hw.1.reg_inside, hw.1.named_inside⟩, hw.2⟩

theorem cellProp_safe (hw : Kept t pos w) (hp : p.Sound t pos') :
    Safe t.total (t.cellProp w p) (Kept t pos) := by
  obtain ⟨⟨hpos, hr, hn⟩, hle⟩ := hw
  have hv : p.value.offset + p.value.length ≤ t.total := hp.inside
  apply (fdtSameAt_safe _ hp.ends).bind
  intro addressKey _
  apply (fdtSameAt_safe _ hp.ends).bind
  intro sizeKey _
  split
  next => exact .fail
  next hlen =>
    split
    next ha =>
      have hfour : p.value.length = 4 := by simpa [ha] using hlen
      apply (Safe.be32 (by omega)).bind
      intro cells _
      exact .pure ⟨⟨hpos, hr, hn⟩, hle⟩
    next =>
      split
      next hsz =>
        have hfour : p.value.length = 4 := by simpa [hsz] using hlen
        apply (Safe.be32 (by omega)).bind
        intro cells _
        exact .pure ⟨⟨hpos, hr, hn⟩, hle⟩
      next =>
        apply (fdtSameAt_safe _ hp.ends).bind
        intro isReg _
        apply Safe.pure
        split
        next => exact ⟨⟨hpos, hp.inside, hn⟩, hle⟩
        next => exact ⟨⟨hpos, hr, hn⟩, hle⟩

theorem namedProp_safe (hw : Kept t pos w) (hp : p.Sound t pos') :
    Safe t.total (t.namedProp q w p) (Kept t pos) := by
  obtain ⟨⟨hpos, hr, hn⟩, hle⟩ := hw
  unfold namedProp
  split
  next => exact .pure ⟨⟨hpos, hr, hn⟩, hle⟩
  next =>
    apply (fdtSameAt_safe _ hp.ends).bind
    intro same _
    apply Safe.pure
    split
    next => exact ⟨⟨hpos, hr, hp.inside⟩, hle⟩
    next => exact ⟨⟨hpos, hr, hn⟩, hle⟩

theorem keyProp_safe (hs : t.Sound) (hw : Kept t pos w) (hp : p.Sound t pos') :
    Safe t.total (t.keyProp q w p) (Kept t pos) := by
  obtain ⟨⟨hpos, hr, hn⟩, hle⟩ := hw
  apply (fdtSameAt_safe _ hp.ends).bind
  intro same _
  split
  next =>
    apply (matches_safe hs.small hp.inside).bind
    intro hit _
    apply Safe.pure
    split
    next => exact ⟨⟨hpos, hr, hn⟩, hle⟩
    next => exact ⟨⟨hpos, hr, hn⟩, hle⟩
  next => exact .pure ⟨⟨hpos, hr, hn⟩, hle⟩

theorem prop_safe (hs : t.Sound) (hw : Kept t pos w) :
    Safe t.total (t.prop q w) (Round.Kept t pos) := by
  obtain ⟨⟨hpos, hr, hn⟩, hle⟩ := hw
  have ht := hs.small
  have hse := hs.structs_end
  unfold prop
  split
  next => exact .fail
  next =>
    apply (readProp_safe hs (by omega)).bind
    intro p hp
    have hadv := hp.advances
    have hnext := hp.next_le
    have hkept : Kept t pos { w with pos := p.next } :=
      ⟨⟨show p.next ≤ t.structsEnd + 4 by omega, hr, hn⟩, show pos ≤ p.next by omega⟩
    apply (cellProp_safe hkept hp).bind
    intro w₁ h₁
    apply (namedProp_safe h₁ hp).bind
    intro w₂ h₂
    apply (keyProp_safe hs h₂ hp).bind
    intro w₃ h₃
    exact .pure h₃

theorem token_safe (hs : t.Sound) (hw : Kept t pos w) (hp : w.pos ≤ t.structsEnd) :
    Safe t.total (t.token q w tok) (Round.Kept t pos) := by
  unfold Fdt.token
  split
  next => exact beginNode_safe hs hw hp
  next =>
    split
    next => exact endNode_safe hw
    next =>
      split
      next => exact prop_safe hs hw
      next =>
        split
        next => exact .fail
        next =>
          split
          next => exact .pure hw
          next => exact .fail

theorem round_safe (hs : t.Sound) (hw : w.Sound t) :
    Safe t.total (t.round q w) (Round.Kept t (w.pos + 4)) := by
  obtain ⟨hp, hr, hn⟩ := hw
  have ht := hs.small
  have hse := hs.structs_end
  apply Safe.fit (by omega)
  split
  next => exact .fail
  next hin =>
    apply (Safe.be32 (by omega)).bind
    intro tok _
    have hw' : Walk.Sound t { w with pos := w.pos + 4 } :=
      ⟨show w.pos + 4 ≤ t.structsEnd + 4 by omega, hr, hn⟩
    apply (settleBefore_safe hs hw').bind
    intro r hr
    cases r with
    | found base size => exact .pure trivial
    | more w₁ =>
      obtain ⟨h₁, hpos⟩ := hr w₁ rfl
      change w₁.pos = w.pos + 4 at hpos
      exact token_safe hs ⟨h₁, by omega⟩ (by omega)

theorem walk_safe (hs : t.Sound) (fuel : Nat) (hw : w.Sound t)
    (hf : t.structsEnd + 4 < w.pos + fuel) : Safe t.total (t.walk q fuel w) fun _ => True := by
  induction fuel generalizing w with
  | zero =>
    have hp := hw.pos_le
    omega
  | succ fuel ih =>
    apply (round_safe hs hw).bind
    intro r hr
    cases r with
    | found base size => exact .pure trivial
    | more w₁ =>
      have hle : w.pos + 4 ≤ w₁.pos := hr.2
      exact ih hr.1 (by omega)

theorem find_safe (hs : t.Sound) : Safe t.total (t.find q) fun _ => True := by
  have hle := hs.structs_le
  have hse := hs.structs_end
  have hh := hs.header
  apply walk_safe hs t.total ⟨?_, ?_, ?_⟩
  · change t.structsEnd + 4 < t.structs + t.total
    omega
  · change t.structs ≤ t.structsEnd + 4
    omega
  · exact Nat.zero_le t.total
  · exact Nat.zero_le t.total

theorem rootValue_safe (hs : t.Sound) (hv : v.Inside t) :
    Safe t.total (t.rootValue v) fun _ => True := by
  have ht := hs.small
  have hv' : v.offset + v.length ≤ t.total := hv
  unfold rootValue
  split
  next => exact .fail
  next h0 =>
    apply Safe.fit (by omega)
    apply Safe.minus (by omega) (by omega)
    apply Safe.byteAt (by omega)
    split
    next => exact .fail
    next => exact .pure trivial

theorem rootStringFrom_safe (hs : t.Sound) (fuel pos : Nat) (hp : pos ≤ t.structsEnd + 4)
    (hf : t.structsEnd + 4 < pos + fuel) :
    Safe t.total (t.rootStringFrom property fuel pos) fun _ => True := by
  have ht := hs.small
  have hse := hs.structs_end
  induction fuel generalizing pos with
  | zero => omega
  | succ fuel ih =>
    apply Safe.fit (by omega)
    split
    next => exact .fail
    next hin =>
      apply (Safe.be32 (by omega)).bind
      intro tok _
      split
      next =>
        apply (readProp_safe hs (by omega)).bind
        intro p hp
        have hadv := hp.advances
        have hnext := hp.next_le
        apply (fdtSameAt_safe _ hp.ends).bind
        intro same _
        split
        next => exact rootValue_safe hs hp.inside
        next => exact ih p.next (by omega) (by omega)
      next =>
        split
        next => exact .fail
        next =>
          split
          next => exact ih (pos + 4) (by omega) (by omega)
          next => exact .fail

theorem fdtRootString_safe (hs : t.Sound) :
    Safe t.total (t.fdtRootString property) fun _ => True := by
  have ht := hs.small
  have hse := hs.structs_end
  have hle := hs.structs_le
  have hh := hs.header
  apply Safe.fit (by omega)
  split
  next => exact .fail
  next hin =>
    apply (Safe.be32 (by omega)).bind
    intro tok _
    split
    next => exact .fail
    next =>
      apply (skipName_safe hs (by omega)).bind
      rintro pos ⟨hlt, hpos⟩
      exact rootStringFrom_safe hs t.total pos hpos (by omega)

end Fdt

inductive FdtQuery
  | find (property value : CString) (index : Nat)
  | findNth (property value : CString) (node index : Nat)
  | cell (property value name : CString) (index : Nat)
  | rootString (property : CString)

inductive FdtAnswer
  | reg (base size : Nat)
  | cell (value : Nat)
  | text (pos : Nat)
  deriving DecidableEq

def FdtQuery.run (t : Fdt) : FdtQuery → FdtM FdtAnswer
  | .find property value index => do
    let (base, size) ← t.fdtFind property value index
    return .reg base size
  | .findNth property value node index => do
    let (base, size) ← t.fdtFindNth property value node index
    return .reg base size
  | .cell property value name index => do
    let cell ← t.fdtCell property value name index
    return .cell cell
  | .rootString property => do
    let pos ← t.fdtRootString property
    return .text pos

theorem FdtQuery.run_safe {t : Fdt} (hs : t.Sound) (q : FdtQuery) :
    Safe t.total (q.run t) fun _ => True := by
  cases q with
  | find property value index => exact (Fdt.find_safe hs).bind fun _ _ => .pure trivial
  | findNth property value node index => exact (Fdt.find_safe hs).bind fun _ _ => .pure trivial
  | cell property value name index =>
    have hc : Safe t.total (t.fdtCell property value name index) fun _ => True :=
      (Fdt.find_safe hs).bind fun _ _ => .pure trivial
    exact hc.bind fun _ _ => .pure trivial
  | rootString property => exact (Fdt.fdtRootString_safe hs).bind fun _ _ => .pure trivial

theorem check_ensures {m : FdtM α} [Decidable p] (h : ¬p → Ensures m log Q fun _ _ => True) :
    Ensures (if p then fail s else m) log Q fun _ _ => True := by
  split
  next => exact trivial
  next hp => exact h hp

theorem fdtOpen_ensures (blob : Bytes) (log : List FdtEvent) :
    Ensures (fdtOpen blob) log (fun t _ => t.total < 2 ^ 31 → t.Sound) fun _ _ => True := by
  unfold fdtOpen
  refine .any fun magic log => check_ensures fun _ => ?_
  refine .any fun ok log => check_ensures fun _ => ?_
  refine .any fun total log => .any fun structs log => .any fun strings log => ?_
  refine .any fun structsSize log => .any fun structsEnd log => ?_
  refine .any fun stringsSize log => .any fun stringsEnd log => check_ensures fun hok ht => ?_
  simp only [not_or, not_lt] at hok
  obtain ⟨_, hs, hse, het, _, hle, hlt, _⟩ := hok
  exact ⟨ht, hse, het, hle, hlt, hs⟩

theorem fdtOpen_sound (h : fdtOpen blob log = .ok t log') (ht : t.total < 2 ^ 31) : t.Sound :=
  (fdtOpen_ensures blob log).ok h ht

/-- How a query may end: only reads behind it, and a status if it has no answer. -/
def EndsSafely (total : Nat) (log : List FdtEvent) : EStateM.Result FdtHalt (List FdtEvent) α → Prop
  | .ok _ log' => ReadsBelow total log log'
  | .error e log' => ∃ log₁, ReadsBelow total log log₁ ∧ Halted e log₁ log'

theorem query_ends_safely (hopen : fdtOpen blob log₀ = .ok t log) (ht : t.total < 2 ^ 31)
    (q : FdtQuery) : EndsSafely t.total log (q.run t log) := by
  have hsafe := q.run_safe (fdtOpen_sound hopen ht) log
  unfold Does Ensures at hsafe
  unfold EndsSafely
  split
  next he =>
    rw [he] at hsafe
    exact hsafe.1
  next he =>
    rw [he] at hsafe
    exact hsafe

def logAfter : EStateM.Result FdtHalt (List FdtEvent) α → List FdtEvent
  | .ok _ log => log
  | .error _ log => log

def hostileBlob : Bytes := Bytes.ofList
  [0xd0, 0x0d, 0xfe, 0xed, 0, 0, 0, 64, 0, 0, 0, 40, 0, 0, 0, 60, 0, 0, 0, 40, 0, 0, 0, 17,
    0, 0, 0, 16, 0, 0, 0, 0, 0, 0, 0, 4, 0, 0, 0, 20,
    0, 0, 0, 1, 0, 0, 0, 0, 0, 0, 0, 3, 0xff, 0xff, 0xff, 0xff, 0, 0, 0, 0,
    0, 0, 0, 0]

theorem query_ends_safely_hostile : Runs (fdtOpen hostileBlob) [] fun t log =>
    t.total < 2 ^ 31 ∧
      EndsSafely t.total log ((FdtQuery.rootString (cText "model")).run t log) := by
  obtain ⟨t, log, he, ht⟩ : Runs (fdtOpen hostileBlob) [] fun t _ => t.total < 2 ^ 31 :=
    .of_check (by decide)
  exact ⟨t, log, he, ht, query_ends_safely he ht (.rootString (cText "model"))⟩

theorem hostile_length_wraps : Runs (fdtOpen hostileBlob) [] fun t log =>
    t.total < 2 ^ 31 ∧
      FdtEvent.wrap ∈ logAfter ((FdtQuery.rootString (cText "model")).run t log) :=
  .of_check (by decide)

end TinyProcessors
