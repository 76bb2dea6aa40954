import TinyProcessors.Fs.Tfs

namespace TinyProcessors

theorem encode_name (e : Entry) (k : Fin 20) : e.encode k = e.name k := by
  simp only [Entry.encode, k.isLt, dif_pos]

theorem encode_first (e : Entry) (h : k < 4) : e.encode (20 + k) = wordByte e.first k := by
  have h1 : ¬ 20 + k < 20 := by omega
  have h2 : 20 + k < 24 := by omega
  simp only [Entry.encode, h1, h2, dif_neg, not_false_eq_true, if_true, Nat.add_sub_cancel_left]

theorem encode_capacity (e : Entry) (h : k < 4) : e.encode (24 + k) = wordByte e.capacity k := by
  have h1 : ¬ 24 + k < 20 := by omega
  have h2 : ¬ 24 + k < 24 := by omega
  have h3 : 24 + k < 28 := by omega
  simp only [Entry.encode, h1, h2, h3, dif_neg, not_false_eq_true, if_true, if_false,
    Nat.add_sub_cancel_left]

theorem encode_size (e : Entry) (h : k < 4) : e.encode (28 + k) = wordByte e.size k := by
  have h1 : ¬ 28 + k < 20 := by omega
  have h2 : ¬ 28 + k < 24 := by omega
  have h3 : ¬ 28 + k < 28 := by omega
  have h4 : 28 + k < 32 := by omega
  simp only [Entry.encode, h1, h2, h3, h4, dif_neg, not_false_eq_true, if_true, if_false,
    Nat.add_sub_cancel_left]

theorem decode_of_encode {b : Bytes} (e : Entry) (h : ∀ k < 32, b (at_ + k) = e.encode k) :
    Entry.decode b at_ = e := by
  apply Entry.ext
  · funext k
    exact (h k (by omega)).trans (encode_name e k)
  · apply word_eq
    intro k hk
    rw [Nat.add_assoc, h _ (by omega), encode_first e hk]
  · apply word_eq
    intro k hk
    rw [Nat.add_assoc, h _ (by omega), encode_capacity e hk]
  · apply word_eq
    intro k hk
    rw [Nat.add_assoc, h _ (by omega), encode_size e hk]

theorem encode_decode (b : Bytes) (at_ : Nat) (h : k < 32) :
    (Entry.decode b at_).encode k = b (at_ + k) := by
  by_cases h1 : k < 20
  · exact encode_name (Entry.decode b at_) ⟨k, h1⟩
  · obtain ⟨j, hj, rfl | rfl | rfl⟩ : ∃ j < 4, k = 20 + j ∨ k = 24 + j ∨ k = 28 + j :=
      ⟨(k - 20) % 4, by omega, by omega⟩
    · rw [encode_first _ hj, ← Nat.add_assoc]
      exact wordByte_word b _ j hj
    · rw [encode_capacity _ hj, ← Nat.add_assoc]
      exact wordByte_word b _ j hj
    · rw [encode_size _ hj, ← Nat.add_assoc]
      exact wordByte_word b _ j hj

theorem directoryBytes_entry (directory : Fin 16 → Entry) (i : Fin 16) (h : k < 32) :
    directoryBytes directory (32 * i + k) = (directory i).encode k := by
  have hlt : 32 * (i : Nat) + k < 512 := by omega
  have hd : (32 * (i : Nat) + k) / 32 = i := by omega
  have hm : (32 * (i : Nat) + k) % 32 = k := by omega
  simp only [directoryBytes, hlt, dif_pos, hm]
  congr 2
  exact Fin.ext hd

theorem decodeDirectory_eq {b : Bytes} (directory : Fin 16 → Entry)
    (h : ∀ k < 512, b k = directoryBytes directory k) : decodeDirectory b = directory := by
  funext i
  apply decode_of_encode
  intro k hk
  rw [h _ (by omega), directoryBytes_entry directory i hk]

theorem directoryBytes_decode (b : Bytes) (h : k < 512) :
    directoryBytes (decodeDirectory b) k = b k := by
  simp only [directoryBytes, h, dif_pos, decodeDirectory]
  rw [encode_decode b _ (by omega)]
  congr 1
  omega

theorem cstring_cons_zero (l : List UInt8) : cstring (0 :: l) = [] := by
  simp only [cstring, List.takeWhile_cons, ne_eq, not_true_eq_false, decide_false,
    Bool.false_eq_true, if_false]

theorem cstring_cons (l : List UInt8) (h : x ≠ 0) : cstring (x :: l) = x :: cstring l := by
  simp only [cstring, List.takeWhile_cons, ne_eq, h, not_false_eq_true, decide_true, if_true]

theorem cstring_append (l tail : List UInt8) (h : 0 ∉ l) : cstring (l ++ 0 :: tail) = l := by
  induction l with
  | nil => exact cstring_cons_zero tail
  | cons x l ih =>
    have hx : x ≠ 0 := fun he => h (he ▸ List.mem_cons_self)
    rw [List.cons_append, cstring_cons _ hx, ih fun he => h (List.mem_cons_of_mem _ he)]

theorem ofFn_ofList (l : List UInt8) (hl : l.length ≤ n) :
    (List.ofFn fun k : Fin n => Bytes.ofList l k) = l ++ List.replicate (n - l.length) 0 := by
  apply List.ext_getElem
  · simp only [List.length_ofFn, List.length_append, List.length_replicate]
    omega
  · intro i hi hi'
    rw [List.getElem_ofFn]
    by_cases hlt : i < l.length
    · rw [List.getElem_append_left hlt]
      exact ofList_getElem l i hlt
    · rw [List.getElem_append_right (Nat.not_lt.1 hlt), List.getElem_replicate]
      exact ofList_of_le l i (Nat.not_lt.1 hlt)

theorem cstring_ofFn_ofList (l : List UInt8) (hl : l.length < n) (h : 0 ∉ l) :
    cstring (List.ofFn fun k : Fin n => Bytes.ofList l k) = l := by
  obtain ⟨m, hm⟩ : ∃ m, n - l.length = m + 1 := ⟨n - l.length - 1, by omega⟩
  rw [ofFn_ofList l (Nat.le_of_lt hl), hm, List.replicate_succ, cstring_append _ _ h]

theorem same_iff (a b : List UInt8) (ha : 0 ∈ a) (hb : 0 ∉ b) : same a b = true ↔ cstring a = b := by
  induction a generalizing b with
  | nil => simp at ha
  | cons x a ih =>
    by_cases hx : x = 0
    · subst x
      rw [cstring_cons_zero]
      cases b with
      | nil => simp [same]
      | cons y b =>
        have hy : (0 : UInt8) ≠ y := fun he => hb (he ▸ List.mem_cons_self)
        simp [same, hy]
    · rw [cstring_cons a hx]
      have ha' : 0 ∈ a := by
        rcases List.mem_cons.1 ha with he | he
        · exact absurd he.symm hx
        · exact he
      cases b with
      | nil => simp [same, hx]
      | cons y b =>
        have hb' : 0 ∉ b := fun he => hb (List.mem_cons_of_mem _ he)
        have hs := ih b ha' hb'
        by_cases hy : x = y
        · subst y
          simp [same, hx, hs]
        · simp [same, hy]

theorem entryCorrupt_eq_false (hn : e.name 0 ≠ 0) (h : entryCorrupt sectors e = false) :
    2 ≤ e.first.toNat ∧ e.capacity.toNat ≤ sectors.toNat ∧
      e.first.toNat + e.capacity.toNat ≤ sectors.toNat ∧
      e.size.toNat ≤ (e.capacity * 512).toNat ∧ e.name 19 = 0 := by
  simp only [entryCorrupt, hn, ne_eq, not_false_eq_true, decide_true, Bool.true_and,
    Bool.or_eq_false_iff, decide_eq_false_iff_not, not_not] at h
  obtain ⟨⟨⟨⟨h1, h2⟩, h3⟩, h4⟩, h5⟩ := h
  simp only [BitVec.lt_def, gt_iff_lt, Nat.not_lt] at h1 h2 h3 h4
  have he := BitVec.toNat_sub_of_le (BitVec.le_def.2 h2)
  refine ⟨h1, h2, ?_, h4, h5⟩
  omega

end TinyProcessors
