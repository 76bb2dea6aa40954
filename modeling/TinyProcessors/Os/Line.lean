import TinyProcessors.Lib.Bytes

namespace TinyProcessors.Line

inductive Escape
  | text | afterEsc | sequence
  deriving DecidableEq

/-- What a `sys_read` of one byte leaves: the byte, nothing, or SYS_ERROR. -/
inductive Got
  | byte (c : UInt8) | nothing | error

inductive Result
  | ok | tooLong | atEnd | error
  deriving DecidableEq

/-- `line_edit` between two reads. -/
structure Editor where
  escape : Escape
  n : Nat
  fits : Bool
  line : Bytes
  echoed : List UInt8

namespace Editor

def start (line : Bytes) : Editor := ⟨.text, 0, true, line, []⟩

def echo (e : Editor) (s : List UInt8) : Editor := { e with echoed := e.echoed ++ s }

def rubOut : (count : Nat) → Editor → Editor
  | 0, e => e
  | count + 1, e => rubOut count (e.echo [8, 32, 8])

/-- A key of the text. -/
def key (room : Nat) (e : Editor) (c : UInt8) : Editor :=
  if c = 0x7f ∨ c = 8 then if e.n ≠ 0 then rubOut 1 { e with n := e.n - 1 } else e
  else if c = 0x15 then { rubOut e.n e with n := 0, fits := true }
  else if c = 0x1b then { e with escape := .afterEsc }
  else if c < 0x20 ∨ 0x7e < c then e.echo [7]
  else if e.n < room then
    { e with line := Function.update e.line e.n c, n := e.n + 1 }.echo [c]
  else { e with fits := false }.echo [7]

/-- A byte that is not the rest of an Enter. -/
def press (room : Nat) (eof : Bool) (e : Editor) (c : UInt8) : Editor × Option Result :=
  if c = 13 ∨ c = 10 then (e.echo [10], some (if e.fits then .ok else .tooLong))
  else match e.escape with
    | .afterEsc =>
      ({ e with escape := if c = 91 ∨ c = 79 then .sequence else if c = 0x1b then .afterEsc
        else .text }, none)
    | .sequence =>
      (if 0x40 ≤ c ∧ c ≤ 0x7e ∧ c ≠ 91 then { e with escape := .text } else e, none)
    | .text =>
      let c := if c = 9 then 32 else c
      if c = 4 ∧ eof ∧ e.n = 0 ∧ e.fits then (e, some .atEnd) else (e.key room c, none)

/-- A read, with the last byte that was read before it and the one after it. -/
def read (room : Nat) (eof : Bool) (previous : UInt8) (e : Editor) :
    Got → UInt8 × Editor × Option Result
  | .error => (previous, e, some .error)
  | .nothing => (previous, e, none)
  | .byte c => (c, if c = 10 ∧ previous = 13 then (e, none) else e.press room eof c)

/-- `*length`. -/
def length (e : Editor) : Nat := if e.fits then e.n else 0

def text (e : Editor) : List UInt8 := e.line.slice 0 e.n

end Editor

/-- `line_edit` on what it can read so far; with no result it waits. -/
def lineEdit (room : Nat) (eof : Bool) :
    UInt8 → Editor → List Got → UInt8 × Editor × Option Result × List Got
  | p, e, [] => (p, e, none, [])
  | p, e, g :: input =>
    match e.read room eof p g with
    | (p', e', none) => lineEdit room eof p' e' input
    | (p', e', some r) => (p', e', some r, input)

/-- Successive calls of `line_edit`; the caller leaves `next` in memory after each. -/
def calls (room : Nat) (eof : Bool) (next : Result → Bytes → Nat → Bytes) :
    UInt8 → Editor → List Got → List (Result × List UInt8)
  | _, _, [] => []
  | p, e, g :: input =>
    match e.read room eof p g with
    | (p', e', none) => calls room eof next p' e' input
    | (p', e', some r) => (r, e'.line.slice 0 e'.length) ::
      calls room eof next p' (.start (next r e'.line e'.length)) input

/-- A terminal's current line; backspace, space, backspace erases a character. -/
def display : (shown : List UInt8) → List UInt8 → List UInt8
  | shown, [] => shown
  | _, 10 :: rest => display [] rest
  | shown, 7 :: rest => display shown rest
  | shown, 8 :: 32 :: 8 :: rest => display shown.dropLast rest
  | shown, c :: rest => display (shown ++ [c]) rest

/-- What a read can do: nothing to the line, an Enter, or a key of the text. -/
inductive Reads (room : Nat) (e : Editor) (g : Got) : Editor × Option Result → Prop
  | quiet (h : ¬(r = some .ok ∨ r = some .tooLong)) : Reads room e g ({ e with escape }, r)
  | enter : Reads room e g (e.echo [10], some (if e.fits then .ok else .tooLong))
  | key (h : g = .byte c) (ht : e.escape = .text) :
    Reads room e g (e.key room (if c = 9 then 32 else c), none)

theorem Editor.reads (room : Nat) (eof : Bool) (p : UInt8) (e : Editor) (g : Got) :
    Reads room e g (e.read room eof p g).2 := by
  cases g with
  | error | nothing => exact .quiet (by decide)
  | byte c =>
    unfold read
    dsimp only
    split
    next => exact .quiet (by decide)
    unfold press
    split
    next => exact .enter
    split
    next => exact .quiet (by decide)
    next =>
      split
      next => exact .quiet (by decide)
      next => exact .quiet (by decide)
    next ht =>
      have hkey : Reads room e (.byte c) _ := .key rfl ht
      dsimp only
      generalize (if c = 9 then 32 else c) = k at hkey ⊢
      split
      next => exact .quiet (by decide)
      next => exact hkey

section Shows

theorem slice_succ (m : Bytes) (n : Nat) : m.slice 0 (n + 1) = m.slice 0 n ++ [m n] := by
  unfold Bytes.slice
  rw [List.range_succ, List.map_append]
  simp [window_apply]

theorem slice_update (m : Bytes) (n : Nat) (c : UInt8) :
    Bytes.slice (Function.update m n c) 0 (n + 1) = m.slice 0 n ++ [c] := by
  rw [slice_succ, Function.update_self]
  congr 1
  apply slice_congr
  intro i hi
  exact Function.update_of_ne (by omega) _ _

theorem display_char (h : ¬c < 0x20) (shown rest : List UInt8) :
    display shown (c :: rest) = display (shown ++ [c]) rest := by
  rw [display]
  · rintro rfl
    exact h (by decide)
  · rintro rfl
    exact h (by decide)
  · rintro _ rfl
    exact absurd (by decide) h

theorem display_erase (m : Bytes) (h : k ≤ n) (rest : List UInt8) :
    display (m.slice 0 n) ((List.replicate k [8, 32, 8]).flatten ++ rest) =
      display (m.slice 0 (n - k)) rest := by
  induction k generalizing n with
  | zero => rfl
  | succ k ih =>
    obtain ⟨n, rfl⟩ : ∃ j, n = j + 1 := ⟨n - 1, by omega⟩
    rw [List.replicate_succ, List.flatten_cons, slice_succ, List.append_assoc,
      Nat.add_sub_add_right]
    change display (List.dropLast _) _ = _
    rw [List.dropLast_concat]
    exact ih (by omega)

theorem Editor.rubOut_eq (k : Nat) (e : Editor) :
    rubOut k e = e.echo (List.replicate k [8, 32, 8]).flatten := by
  induction k generalizing e with
  | zero =>
    unfold rubOut echo
    rw [List.replicate_zero, List.flatten_nil, List.append_nil]
  | succ k ih =>
    unfold rubOut
    rw [ih, List.replicate_succ, List.flatten_cons]
    unfold echo
    rw [List.append_assoc]

/-- The editor with its screen, whatever is echoed next. -/
structure Shows (room : Nat) (line : Bytes) (e : Editor) : Prop where
  le : e.n ≤ room
  kept : ∀ k, room ≤ k → e.line k = line k
  shown : ∀ rest, display [] (e.echoed ++ rest) = display e.text rest

theorem Shows.start (room : Nat) (line : Bytes) : Shows room line (.start line) :=
  ⟨Nat.zero_le _, fun _ _ => rfl, fun _ => rfl⟩

theorem Shows.displayed (h : Shows room line e) : display [] e.echoed = e.text := by
  have hshown := h.shown []
  rwa [List.append_nil, display] at hshown

theorem Shows.echo (h : Shows room line e) (s : List UInt8) (hle : n ≤ room)
    (hkept : ∀ k, room ≤ k → m k = e.line k)
    (hs : ∀ rest, display e.text (s ++ rest) = display (Bytes.slice m 0 n) rest) :
    Shows room line { e.echo s with line := m, n, fits } := by
  refine ⟨hle, fun k hk => (hkept k hk).trans (h.kept k hk), fun rest => ?_⟩
  change display [] (e.echoed ++ s ++ rest) = display (Bytes.slice m 0 n) rest
  rw [List.append_assoc, h.shown, hs]

theorem Shows.rubOut (h : Shows room line e) (fits : Bool) (hk : k ≤ e.n) :
    Shows room line { Editor.rubOut k e with n := e.n - k, fits } := by
  have hle := h.le
  rw [Editor.rubOut_eq]
  exact h.echo _ (by omega) (fun _ _ => rfl) (display_erase _ hk)

theorem Shows.key (h : Shows room line e) (c : UInt8) : Shows room line (e.key room c) := by
  unfold Editor.key
  split
  next =>
    split
    next hn => exact h.rubOut e.fits (k := 1) (by omega)
    next => exact h
  next =>
    split
    next =>
      have hall := h.rubOut true (Nat.le_refl e.n)
      rwa [Nat.sub_self] at hall
    next =>
      split
      next => exact ⟨h.le, h.kept, h.shown⟩
      next =>
        split
        next => exact h.echo [7] h.le (fun _ _ => rfl) fun _ => rfl
        next hprint =>
          split
          next hn =>
            refine h.echo [c] hn (fun k hk => Function.update_of_ne (by omega) _ _) fun rest => ?_
            dsimp only
            rw [slice_update]
            exact display_char (fun hlt => hprint (.inl hlt)) _ _
          next => exact h.echo [7] h.le (fun _ _ => rfl) fun _ => rfl

/-- What a call leaves of the screen: the line, and a line feed after an Enter. -/
def Left (room : Nat) (line : Bytes) (e : Editor) (r : Option Result) : Prop :=
  if r = some .ok ∨ r = some .tooLong then ∃ e', Shows room line e' ∧ e = e'.echo [10]
  else Shows room line e

theorem Shows.read (h : Shows room line e) (hr : Reads room e g (e', r)) : Left room line e' r := by
  unfold Left
  cases hr with
  | quiet hq =>
    rw [if_neg hq]
    exact ⟨h.le, h.kept, h.shown⟩
  | enter =>
    rw [if_pos (by cases e.fits <;> decide)]
    exact ⟨e, h, rfl⟩
  | key =>
    rw [if_neg (by decide)]
    exact h.key _

theorem Shows.lineEdit (h : Shows room line e) (hl : lineEdit room eof p e input = (p', e', r, rest)) :
    Left room line e' r := by
  induction input generalizing p e with
  | nil =>
    cases hl
    exact h
  | cons g input ih =>
    have hread := e.reads room eof p g
    unfold Line.lineEdit at hl
    generalize e.read room eof p g = s at hread hl
    obtain ⟨p₁, e₁, r₁⟩ := s
    cases r₁ with
    | none => exact ih (h.read hread) hl
    | some r₁ =>
      cases hl
      exact h.read hread

end Shows

section Enter

/-- The input with every Enter, of one byte or of two, as one line feed. -/
def enters : (previous : UInt8) → List Got → List Got
  | _, [] => []
  | previous, .byte c :: input =>
    if c = 10 ∧ previous = 13 then enters c input
    else .byte (if c = 13 then 10 else c) :: enters c input
  | previous, g :: input => g :: enters previous input

theorem Editor.press_enter (e : Editor) (c : UInt8) :
    press room eof e (if c = 13 then 10 else c) = press room eof e c := by
  have hline (h : c = 13 ∨ c = 10) :
      press room eof e c = (e.echo [10], some (if e.fits then .ok else .tooLong)) := if_pos h
  split
  next h => exact (hline (.inl h)).symm
  next => rfl

theorem calls_enters (p : UInt8) (hq : q ≠ 13) (e : Editor) (input : List Got) :
    calls room eof next q e (enters p input) = calls room eof next p e input := by
  induction input generalizing p q e with
  | nil => rfl
  | cons g input ih =>
    cases g with
    | error => exact congrArg _ (ih p hq _)
    | nothing => exact ih p hq e
    | byte c =>
      unfold enters
      split
      next hlf =>
        rw [calls, Editor.read, if_pos hlf]
        exact ih c hq e
      next hlf =>
        have hne : (if c = 13 then 10 else c) ≠ 13 := by
          split
          next => decide
          next h => exact h
        have hone : ¬((if c = 13 then 10 else c) = 10 ∧ q = 13) := fun h => hq h.2
        rw [calls, calls, Editor.read, Editor.read, if_neg hone, if_neg hlf, Editor.press_enter]
        generalize e.press room eof c = s
        obtain ⟨e', r⟩ := s
        cases r with
        | none => exact ih c hne e'
        | some r => exact congrArg _ (ih c hne _)

end Enter

section Lost

theorem Editor.key_fits (hf : e.fits = false) (h : (key room e c).fits = true) : c = 0x15 := by
  by_contra hc
  unfold key at h
  rw [if_neg hc] at h
  simp only [rubOut_eq, echo] at h
  split_ifs at h <;> simp_all

/-- A read after a key was lost: only Ctrl-U makes the line fit again. -/
theorem Reads.fits (hr : Reads room e g (e', r)) (hf : e.fits = false) :
    e'.fits = false ∧ r ≠ some .ok ∨ g = .byte 0x15 ∧ e.escape = .text := by
  cases hr with
  | quiet hq => exact .inl ⟨hf, fun h => hq (.inl h)⟩
  | enter =>
    refine .inl ⟨hf, ?_⟩
    rw [hf]
    decide
  | key hg ht =>
    cases hk : (e.key room _).fits with
    | false => exact .inl ⟨rfl, by decide⟩
    | true =>
      have hc := Editor.key_fits hf hk
      split at hc
      next => cases hc
      next => exact .inr ⟨hg.trans (congrArg _ hc), ht⟩

/-- A printable key with no room. -/
theorem Editor.read_lost (eof : Bool) (p : UInt8) (ht : e.escape = .text)
    (hc : c = 9 ∨ ¬c < 0x20 ∧ ¬0x7e < c) (hroom : room ≤ e.n) :
    ∃ e', read room eof p e (.byte c) = (c, e', none) ∧ e'.fits = false := by
  obtain ⟨k, hck, hlow, hhigh⟩ :
      ∃ k : UInt8, (if c = 9 then 32 else c) = k ∧ ¬k < 0x20 ∧ ¬0x7e < k := by
    rcases hc with rfl | hc
    · exact ⟨32, rfl, by decide, by decide⟩
    · refine ⟨c, if_neg ?_, hc⟩
      rintro rfl
      exact hc.1 (by decide)
  have hnot (j : UInt8) (hj : j < 0x20 ∨ 0x7e < j) : k ≠ j := by
    rintro rfl
    exact hj.elim hlow hhigh
  have hne (j : UInt8) (hj : j < 0x20) (h : j ≠ 9) : c ≠ j := by
    rintro rfl
    exact hnot c (.inl hj) (hck.symm.trans (if_neg h))
  unfold read press
  dsimp only
  rw [if_neg fun h => hne 10 (by decide) (by decide) h.1,
    if_neg (not_or.2 ⟨hne 13 (by decide) (by decide), hne 10 (by decide) (by decide)⟩), ht]
  dsimp only
  rw [hck, if_neg fun h => hnot 4 (by decide) h.1]
  unfold key
  rw [if_neg (not_or.2 ⟨hnot 0x7f (by decide), hnot 8 (by decide)⟩), if_neg (hnot 0x15 (by decide)),
    if_neg (hnot 0x1b (by decide)), if_neg (not_or.2 ⟨hlow, hhigh⟩), if_neg (Nat.not_lt.2 hroom)]
  exact ⟨_, rfl, rfl⟩

theorem lost_until_cleared (hf : e.fits = false)
    (h : lineEdit room eof p e input = (p', e', some .ok, rest)) :
    ∃ before after p₁ e₁, input = before ++ .byte 0x15 :: after ∧
      lineEdit room eof p e before = (p₁, e₁, none, []) ∧ e₁.escape = .text := by
  induction input generalizing p e with
  | nil => cases h
  | cons g input ih =>
    have hread := e.reads room eof p g
    unfold lineEdit at h
    generalize hr : e.read room eof p g = s at hread h
    obtain ⟨p₁, e₁, r⟩ := s
    rcases hread.fits hf with ⟨hkeep, hok⟩ | ⟨rfl, ht⟩
    · cases r with
      | none =>
        obtain ⟨before, after, p₂, e₂, rfl, hb, ht⟩ := ih hkeep h
        refine ⟨g :: before, after, p₂, e₂, rfl, ?_, ht⟩
        unfold lineEdit
        rw [hr]
        exact hb
      | some r =>
        cases h
        exact absurd rfl hok
    · exact ⟨[], input, p, e, rfl, rfl, ht⟩

end Lost

/-- `tty.c`'s variables, and what was written to the console. -/
structure Tty where
  line : Bytes
  length : Nat
  taken : Nat
  previous : UInt8
  written : List UInt8

/-- The loop that copies to the caller's buffer. -/
def Tty.copy : (len : Nat) → Tty → List UInt8 × Tty
  | 0, t => ([], t)
  | len + 1, t =>
    if t.taken < t.length then
      let s := copy len { t with taken := t.taken + 1 }
      (t.line t.taken :: s.1, s.2)
    else ([], t)

/-- Before the first read. -/
def Tty.start : Tty := ⟨fun _ => 0, 0, 0, 0, []⟩

/-- The answer: bytes, or -1 with `errno` EIO. -/
inductive Answer
  | bytes (l : List UInt8) | failed

def tooLongMessage : List UInt8 := "libc: line too long, dropped\n".toUTF8.data.toList

/-- The line with its newline, which `__tty_read` adds. -/
def handed : Result → Bytes → Nat → Bytes
  | .ok, line, n | .tooLong, line, n => Function.update line n 10
  | _, line, _ => line

/-- `__tty_read`; without an answer it waits for input. -/
def ttyRead (t : Tty) (len : Nat) (input : List Got) : Option (Answer × Tty × List Got) :=
  let copied (t : Tty) (input : List Got) := some (.bytes (t.copy len).1, (t.copy len).2, input)
  if len = 0 then some (.bytes [], t, input)
  else if t.taken = t.length then
    match lineEdit 254 true t.previous (.start t.line) input with
    | (_, _, none, _) => none
    | (previous, e, some r, rest) =>
      let t := { t with
        line := handed r e.line e.length
        previous
        written := t.written ++ e.echoed ++ if r = .tooLong then tooLongMessage else [] }
      match r with
      | .atEnd => some (.bytes [], t, rest)
      | .error => some (.failed, t, rest)
      | .ok | .tooLong => copied { t with length := e.length + 1, taken := 0 } rest
  else copied t input

def ttyReads : Tty → List Got → List Nat → List Answer × Tty × List Got
  | t, input, [] => ([], t, input)
  | t, input, len :: sizes =>
    match ttyRead t len input with
    | none => ([], t, input)
    | some (a, t', rest) => (a :: (ttyReads t' rest sizes).1, (ttyReads t' rest sizes).2)

section Reads

def Answer.data : Answer → List UInt8
  | .bytes l => l
  | .failed => []

/-- What a program reads of a call; a refused line is an empty one. -/
def lineBytes : Result × List UInt8 → List UInt8
  | (.ok, l) => l ++ [10]
  | (.tooLong, _) => [10]
  | _ => []

/-- What is still to be read: the rest of the line, and the lines of the input. -/
def Tty.ahead (t : Tty) (input : List Got) : List UInt8 :=
  t.line.slice t.taken (t.length - t.taken) ++
    (calls 254 true handed t.previous (.start t.line) input).flatMap lineBytes

theorem slice_cons (m : Bytes) (start n : Nat) :
    m.slice start (n + 1) = m start :: m.slice (start + 1) n := by
  unfold Bytes.slice
  rw [List.range_succ_eq_map, List.map_cons, List.map_map]
  congr 1
  apply List.map_congr_left
  intro k _
  simp only [Function.comp_apply, window_apply]
  congr 1
  omega

theorem Tty.copy_ahead (len : Nat) (t : Tty) (input : List Got) :
    (t.copy len).1 ++ (t.copy len).2.ahead input = t.ahead input := by
  induction len generalizing t with
  | zero => rfl
  | succ len ih =>
    unfold copy
    split
    next h =>
      dsimp only
      rw [List.cons_append, ih]
      unfold ahead
      rw [show t.length - t.taken = t.length - (t.taken + 1) + 1 by omega, slice_cons]
      rfl
    next => rfl

theorem calls_of_lineEdit (h : lineEdit room eof p e input = (p', e', some r, rest)) :
    calls room eof next p e input = (r, e'.line.slice 0 e'.length) ::
      calls room eof next p' (.start (next r e'.line e'.length)) rest := by
  induction input generalizing p e with
  | nil => cases h
  | cons g input ih =>
    unfold lineEdit at h
    rw [calls]
    generalize e.read room eof p g = s at h ⊢
    obtain ⟨p₁, e₁, r₁⟩ := s
    cases r₁ with
    | none => exact ih h
    | some r₁ =>
      cases h
      rfl

theorem calls_waiting (h : lineEdit room eof p e input = (p', e', none, rest)) :
    calls room eof next p e input = [] := by
  induction input generalizing p e with
  | nil => rfl
  | cons g input ih =>
    unfold lineEdit at h
    rw [calls]
    generalize e.read room eof p g = s at h ⊢
    obtain ⟨p₁, e₁, r⟩ := s
    cases r with
    | none => exact ih h
    | some r => cases h

/-- A refused line hands nothing over. -/
theorem lineEdit_tooLong (h : lineEdit room eof p e input = (p', e', some .tooLong, rest)) :
    e'.length = 0 := by
  induction input generalizing p e with
  | nil => cases h
  | cons g input ih =>
    have hread := e.reads room eof p g
    unfold lineEdit at h
    generalize e.read room eof p g = s at h hread
    obtain ⟨p₁, e₁, r⟩ := s
    cases r with
    | none => exact ih h
    | some r =>
      cases h
      generalize hr : some Result.tooLong = r at hread
      cases hread with
      | quiet hq => exact absurd (.inr hr.symm) hq
      | enter =>
        cases hf : e.fits with
        | false => exact if_neg (Bool.eq_false_iff.1 hf)
        | true =>
          rw [hf] at hr
          cases hr
      | key => cases hr

/-- A read hands over the front of what is ahead. -/
theorem ttyRead_ahead (h : ttyRead t len input = some (a, t', rest)) :
    a.data ++ t'.ahead rest = t.ahead input := by
  unfold ttyRead at h
  dsimp only at h
  split at h
  next =>
    cases h
    rfl
  next =>
    split at h
    next hall =>
      have hnone (m : Bytes) : m.slice t.taken (t.length - t.taken) = [] := by
        rw [hall, Nat.sub_self]
        rfl
      generalize hl : lineEdit 254 true t.previous (.start t.line) input = s at h
      obtain ⟨previous, e, r, rest'⟩ := s
      cases r with
      | none => cases h
      | some r =>
        have hahead : t.ahead input = lineBytes (r, e.line.slice 0 e.length) ++ (calls 254 true
            handed previous (.start (handed r e.line e.length)) rest').flatMap lineBytes := by
          unfold Tty.ahead
          rw [hnone, calls_of_lineEdit hl, List.nil_append, List.flatMap_cons]
        rw [hahead]
        cases r with
        | atEnd | error =>
          cases h
          exact congrArg (· ++ _) (hnone _)
        | tooLong =>
          cases h
          refine (Tty.copy_ahead _ _ _).trans (congrArg (· ++ _) ?_)
          dsimp only [handed]
          rw [Nat.sub_zero, slice_update, lineEdit_tooLong hl]
          rfl
        | ok =>
          cases h
          refine (Tty.copy_ahead _ _ _).trans (congrArg (· ++ _) ?_)
          exact slice_update _ _ _
    next =>
      cases h
      exact t.copy_ahead len input

theorem Tty.copy_le {t : Tty} (h : t.taken ≤ t.length) (len : Nat) :
    (t.copy len).2.taken ≤ (t.copy len).2.length := by
  induction len generalizing t with
  | zero => exact h
  | succ len ih =>
    unfold copy
    split
    next hlt => exact ih hlt
    next => exact h

theorem ttyRead_le (ht : t.taken ≤ t.length) (h : ttyRead t len input = some (a, t', rest)) :
    t'.taken ≤ t'.length := by
  unfold ttyRead at h
  dsimp only at h
  split at h
  next =>
    cases h
    exact ht
  next =>
    split at h
    next =>
      generalize lineEdit 254 true t.previous (.start t.line) input = s at h
      obtain ⟨previous, e, r, rest'⟩ := s
      cases r with
      | none => cases h
      | some r =>
        cases r with
        | atEnd | error =>
          cases h
          exact ht
        | tooLong | ok =>
          cases h
          exact Tty.copy_le (Nat.zero_le _) _
    next =>
      cases h
      exact Tty.copy_le ht _

/-- A read waits with nothing ahead, and only the end of input gives no bytes. -/
def Answers (t : Tty) (input : List Got) : Option (Answer × Tty × List Got) → Prop
  | none => t.ahead input = []
  | some (.bytes [], _, _) =>
    (lineEdit 254 true t.previous (.start t.line) input).2.2.1 = some .atEnd
  | _ => True

theorem Answers.copied {t : Tty} (h : t.taken < t.length) (hlen : len ≠ 0) :
    Answers t₀ input (some (.bytes (t.copy len).1, t', rest)) := by
  obtain ⟨len, rfl⟩ := Nat.exists_eq_succ_of_ne_zero hlen
  rw [Tty.copy, if_pos h]
  exact trivial

theorem ttyRead_answers (ht : t.taken ≤ t.length) (hlen : len ≠ 0) (input : List Got) :
    Answers t input (ttyRead t len input) := by
  unfold ttyRead
  dsimp only
  rw [if_neg hlen]
  split
  next hall =>
    generalize hl : lineEdit 254 true t.previous (.start t.line) input = s
    obtain ⟨previous, e, r, rest⟩ := s
    cases r with
    | none =>
      change _ ++ _ = []
      rw [hall, Nat.sub_self, calls_waiting hl]
      rfl
    | some r =>
      cases r with
      | atEnd => exact congrArg (·.2.2.1) hl
      | error => exact trivial
      | tooLong | ok => exact .copied (Nat.succ_pos _) hlen
  next hall => exact .copied (Nat.lt_of_le_of_ne ht hall) hlen

theorem ttyReads_ahead (ht : t.taken ≤ t.length) (input : List Got) (sizes : List Nat) :
    let s := ttyReads t input sizes
    s.1.flatMap Answer.data ++ s.2.1.ahead s.2.2 = t.ahead input ∧ s.2.1.taken ≤ s.2.1.length := by
  induction sizes generalizing t input with
  | nil => exact ⟨rfl, ht⟩
  | cons len sizes ih =>
    unfold ttyReads
    cases hr : ttyRead t len input with
    | none => exact ⟨rfl, ht⟩
    | some s =>
      obtain ⟨a, t', rest⟩ := s
      obtain ⟨hahead, hle⟩ := ih (ttyRead_le ht hr) rest
      refine ⟨?_, hle⟩
      rw [← ttyRead_ahead hr, ← hahead, List.flatMap_cons, List.append_assoc]

end Reads

end TinyProcessors.Line
