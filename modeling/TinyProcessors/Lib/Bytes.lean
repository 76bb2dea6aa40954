import Mathlib

namespace TinyProcessors

/-- A 32-bit machine word, with C's wrapping arithmetic and unsigned order. -/
abbrev Word := BitVec 32

abbrev Bytes := Nat → UInt8

-- the sizes of the tables and register files, each nonzero by an instance of its own
instance twoNeZero : NeZero 2 := ⟨by decide⟩
instance threeNeZero : NeZero 3 := ⟨by decide⟩
instance fourNeZero : NeZero 4 := ⟨by decide⟩
instance eightNeZero : NeZero 8 := ⟨by decide⟩
instance sixteenNeZero : NeZero 16 := ⟨by decide⟩
instance twentyNeZero : NeZero 20 := ⟨by decide⟩
instance thirtyTwoNeZero : NeZero 32 := ⟨by decide⟩

/-- The bytes from `start` on, counted from zero. -/
def Bytes.window (m : Bytes) (start : Nat) : Bytes := fun i => m (start + i)

/-- `m` with `[start, start + n)` replaced by the first `n` bytes of `src`. -/
def Bytes.overwrite (m : Bytes) (start n : Nat) (src : Bytes) : Bytes :=
  fun a => if start ≤ a ∧ a < start + n then src (a - start) else m a

/-- The `n` bytes from `start` on, as a list. -/
def Bytes.slice (m : Bytes) (start n : Nat) : List UInt8 :=
  (List.range n).map (m.window start)

def Bytes.ofList (l : List UInt8) : Bytes := fun i => l.getD i 0

/-- The little-endian word at `start`. -/
def Bytes.word (m : Bytes) (start : Nat) : Word :=
  BitVec.ofNat 32 ((m start).toNat + 256 * (m (start + 1)).toNat +
    65536 * (m (start + 2)).toNat + 16777216 * (m (start + 3)).toNat)

/-- Byte `k` of a word, lowest first. -/
def wordByte (w : Word) (k : Nat) : UInt8 := UInt8.ofNat (w.toNat / 256 ^ k)

def wrap32 (n : Int) : Nat := (n % 2 ^ 32).toNat

theorem wrap32_of_lt {n : Nat} (h : n < 2 ^ 32) : wrap32 n = n := by
  unfold wrap32
  omega

@[simp] theorem window_apply (m : Bytes) (start i : Nat) : m.window start i = m (start + i) := rfl

@[simp] theorem window_window (m : Bytes) (a b : Nat) :
    Bytes.window (m.window a) b = m.window (a + b) := by
  funext i
  simp only [window_apply, Nat.add_assoc]

theorem overwrite_of_mem {m src : Bytes} (hl : start ≤ a) (hr : a < start + n) :
    m.overwrite start n src a = src (a - start) := if_pos ⟨hl, hr⟩

theorem overwrite_of_not_mem {m src : Bytes} (h : a < start ∨ start + n ≤ a) :
    m.overwrite start n src a = m a := by
  apply if_neg
  omega

@[simp] theorem overwrite_zero (m src : Bytes) (start : Nat) :
    m.overwrite start 0 src = m := by
  funext a
  exact overwrite_of_not_mem (by omega)

theorem overwrite_congr {m src src' : Bytes} (h : ∀ i < n, src i = src' i) :
    m.overwrite start n src = m.overwrite start n src' := by
  funext a
  by_cases ha : start ≤ a ∧ a < start + n
  · rw [overwrite_of_mem ha.1 ha.2, overwrite_of_mem ha.1 ha.2]
    exact h _ (by omega)
  · rw [overwrite_of_not_mem (by omega), overwrite_of_not_mem (by omega)]

theorem overwrite_append (m src : Bytes) (start n k : Nat) :
    (m.overwrite start n src).overwrite (start + n) k (src.window n) =
      m.overwrite start (n + k) src := by
  funext a
  by_cases hk : start + n ≤ a ∧ a < start + n + k
  · rw [overwrite_of_mem hk.1 hk.2, overwrite_of_mem (by omega) (by omega), window_apply]
    congr 1
    omega
  · rw [overwrite_of_not_mem (by omega)]
    by_cases hn : start ≤ a ∧ a < start + n
    · rw [overwrite_of_mem hn.1 hn.2, overwrite_of_mem (by omega) (by omega)]
    · rw [overwrite_of_not_mem (by omega), overwrite_of_not_mem (by omega)]

theorem overwrite_block (m src buffer : Bytes) (base size at_ n : Nat) (h : at_ + n ≤ size) :
    m.overwrite base size
        (Bytes.overwrite (buffer.overwrite 0 size (m.window base)) at_ n src) =
      m.overwrite (base + at_) n src := by
  funext a
  by_cases hb : base ≤ a ∧ a < base + size
  · rw [overwrite_of_mem hb.1 hb.2]
    by_cases hn : base + at_ ≤ a ∧ a < base + at_ + n
    · rw [overwrite_of_mem (by omega) (by omega), overwrite_of_mem hn.1 hn.2]
      exact congrArg src (by omega)
    · rw [overwrite_of_not_mem (by omega), overwrite_of_mem (Nat.zero_le _) (by omega),
        overwrite_of_not_mem (by omega), window_apply]
      exact congrArg m (by omega)
  · rw [overwrite_of_not_mem (by omega), overwrite_of_not_mem (by omega)]

@[simp] theorem slice_length (m : Bytes) (start n : Nat) : (m.slice start n).length = n := by
  simp only [Bytes.slice, List.length_map, List.length_range]

theorem slice_getElem (m : Bytes) (start n i : Nat) (h : i < (m.slice start n).length) :
    (m.slice start n)[i] = m (start + i) := by
  simp only [Bytes.slice, List.getElem_map, List.getElem_range, window_apply]

theorem slice_congr {m m' : Bytes} (h : ∀ i < n, m (start + i) = m' (start' + i)) :
    m.slice start n = m'.slice start' n := by
  apply List.ext_getElem
  · rw [slice_length, slice_length]
  · intro i hi hi'
    rw [slice_getElem, slice_getElem]
    rw [slice_length] at hi
    exact h i hi

theorem slice_drop_take (m : Bytes) (start n pos len : Nat) :
    ((m.slice start n).drop pos).take len = m.slice (start + pos) (min len (n - pos)) := by
  apply List.ext_getElem
  · simp only [List.length_take, List.length_drop, slice_length]
  · intro i hi hi'
    rw [List.getElem_take, List.getElem_drop, slice_getElem, slice_getElem, Nat.add_assoc]

theorem ofList_getElem (l : List UInt8) (i : Nat) (h : i < l.length) :
    Bytes.ofList l i = l[i] := by
  simp only [Bytes.ofList, List.getD_eq_getElem?_getD, List.getElem?_eq_getElem h, Option.getD_some]

theorem ofList_of_le (l : List UInt8) (i : Nat) (h : l.length ≤ i) : Bytes.ofList l i = 0 := by
  simp only [Bytes.ofList, List.getD_eq_getElem?_getD, List.getElem?_eq_none h, Option.getD_none]

@[simp] theorem ofList_slice (m : Bytes) (start n i : Nat) (h : i < n) :
    Bytes.ofList (m.slice start n) i = m (start + i) := by
  rw [ofList_getElem _ _ (by rwa [slice_length]), slice_getElem]

theorem slice_ofList (l : List UInt8) : Bytes.slice (Bytes.ofList l) 0 l.length = l := by
  apply List.ext_getElem
  · rw [slice_length]
  · intro i hi hi'
    rw [slice_getElem, Nat.zero_add, ofList_getElem _ _ hi']

theorem slice_overwrite (m src : Bytes) (start size pos n : Nat) (h : pos ≤ size) :
    (m.overwrite (start + pos) n src).slice start (max size (pos + n)) =
      (m.slice start size).take pos ++ src.slice 0 n ++ (m.slice start size).drop (pos + n) := by
  have hl : ((m.slice start size).take pos).length = pos := by
    rw [List.length_take, slice_length]
    omega
  apply List.ext_getElem
  · simp only [slice_length, List.length_append, List.length_take, List.length_drop]
    omega
  · intro i hi hi'
    rw [slice_getElem]
    rw [slice_length] at hi
    by_cases hp : i < pos
    · rw [overwrite_of_not_mem (by omega), List.getElem_append_left
        (by rw [List.length_append, hl]; omega), List.getElem_append_left (by omega),
        List.getElem_take, slice_getElem]
    · by_cases hn : i < pos + n
      · rw [overwrite_of_mem (by omega) (by omega), List.getElem_append_left
          (by rw [List.length_append, hl, slice_length]; omega),
          List.getElem_append_right (by omega), slice_getElem]
        congr 1
        omega
      · rw [overwrite_of_not_mem (by omega), List.getElem_append_right
          (by rw [List.length_append, hl, slice_length]; omega), List.getElem_drop, slice_getElem]
        congr 1
        simp only [List.length_append, hl, slice_length]
        omega

@[simp] theorem wordByte_toNat (w : Word) (k : Nat) :
    (wordByte w k).toNat = w.toNat / 256 ^ k % 256 := by
  simp only [wordByte, UInt8.toNat_ofNat']

theorem word_toNat (m : Bytes) (start : Nat) :
    (m.word start).toNat = (m start).toNat + 256 * (m (start + 1)).toNat +
      65536 * (m (start + 2)).toNat + 16777216 * (m (start + 3)).toNat := by
  have h0 := (m start).toNat_lt
  have h1 := (m (start + 1)).toNat_lt
  have h2 := (m (start + 2)).toNat_lt
  have h3 := (m (start + 3)).toNat_lt
  simp only [Bytes.word, BitVec.toNat_ofNat]
  omega

/-- The four bytes of the word read at `start` are the bytes that stood there. -/
theorem wordByte_word (m : Bytes) (start k : Nat) (h : k < 4) :
    wordByte (m.word start) k = m (start + k) := by
  have h0 := (m start).toNat_lt
  have h1 := (m (start + 1)).toNat_lt
  have h2 := (m (start + 2)).toNat_lt
  have h3 := (m (start + 3)).toNat_lt
  apply UInt8.toNat_inj.1
  rw [wordByte_toNat, word_toNat]
  obtain rfl | rfl | rfl | rfl : k = 0 ∨ k = 1 ∨ k = 2 ∨ k = 3 := by omega
  all_goals norm_num
  all_goals omega

theorem word_eq {m : Bytes} {w : Word} (h : ∀ k < 4, m (start + k) = wordByte w k) :
    m.word start = w := by
  apply BitVec.eq_of_toNat_eq
  have h0 := h 0 (by omega)
  rw [Nat.add_zero] at h0
  rw [word_toNat, h0, h 1 (by omega), h 2 (by omega), h 3 (by omega)]
  simp only [wordByte_toNat]
  have hw := w.isLt
  norm_num
  omega

theorem word_congr {m m' : Bytes} (h : ∀ k < 4, m (start + k) = m' (start' + k)) :
    m.word start = m'.word start' := by
  have h0 := h 0 (by omega)
  simp only [Nat.add_zero] at h0
  simp only [Bytes.word, h0, h 1 (by omega), h 2 (by omega), h 3 (by omega)]

/-- The little-endian halfword at `start`. -/
def Bytes.half (m : Bytes) (start : Nat) : BitVec 16 :=
  BitVec.ofNat 16 ((m start).toNat + 256 * (m (start + 1)).toNat)

theorem half_toNat (m : Bytes) (start : Nat) :
    (m.half start).toNat = (m start).toNat + 256 * (m (start + 1)).toNat := by
  have h0 := (m start).toNat_lt
  have h1 := (m (start + 1)).toNat_lt
  simp only [Bytes.half, BitVec.toNat_ofNat]
  omega

theorem half_congr {m m' : Bytes} (h : ∀ k < 2, m (start + k) = m' (start + k)) :
    m.half start = m'.half start := by
  have h0 := h 0 (by omega)
  simp only [Nat.add_zero] at h0
  simp only [Bytes.half, h0, h 1 (by omega)]

theorem word_low (m : Bytes) (start : Nat) : (m.word start).setWidth 16 = m.half start := by
  have h0 := (m start).toNat_lt
  have h1 := (m (start + 1)).toNat_lt
  apply BitVec.eq_of_toNat_eq
  rw [BitVec.toNat_setWidth, word_toNat, half_toNat]
  omega

theorem word_high (m : Bytes) (start : Nat) :
    (m.word start >>> 16).setWidth 16 = m.half (start + 2) := by
  have h0 := (m start).toNat_lt
  have h1 := (m (start + 1)).toNat_lt
  have h2 := (m (start + 2)).toNat_lt
  have h3 := (m (start + 3)).toNat_lt
  apply BitVec.eq_of_toNat_eq
  rw [BitVec.toNat_setWidth, BitVec.toNat_ushiftRight, word_toNat, half_toNat,
    Nat.shiftRight_eq_div_pow]
  change _ = (m (start + 2)).toNat + 256 * (m (start + 3)).toNat
  omega

/-- `m` with the words of `l` from `base` on. -/
def Bytes.withWords (m : Bytes) (base : Nat) (l : List Word) : Bytes :=
  m.overwrite base (4 * l.length) fun i => wordByte (l.getD (i / 4) 0) (i % 4)

theorem withWords_of_not_mem (m : Bytes) (l : List Word)
    (h : a < base ∨ base + 4 * l.length ≤ a) : m.withWords base l a = m a :=
  overwrite_of_not_mem h

theorem withWords_word (m : Bytes) (base : Nat) (l : List Word) (h : k < l.length) :
    (m.withWords base l).word (base + 4 * k) = l.getD k 0 := by
  apply word_eq
  intro j hj
  unfold Bytes.withWords
  rw [overwrite_of_mem (by omega) (by omega)]
  have hi : base + 4 * k + j - base = 4 * k + j := by omega
  rw [hi]
  have hd : (4 * k + j) / 4 = k := by omega
  have hm : (4 * k + j) % 4 = j := by omega
  rw [hd, hm]

theorem word_of_disjoint {m m' : Bytes} (h : ∀ a, start ≤ a → a < start + 4 → m' a = m a) :
    m'.word start = m.word start := by
  apply word_congr
  intro k hk
  exact h _ (by omega) (by omega)

end TinyProcessors
