import Wasm.Proofs.Framing.Carries
import Wasm.Proofs.Recording.Decoding

/-!
# What a scan spends

The marks of a scan that begin and end the reading of an element nest like brackets, and what is
left open at the end are the reads that a failure has cut off (`openAfter`).  So as many reads have
begun as have ended or are open, and it is enough to count those that have ended.

`Scans r c P` says this of the record of `r`, that `r` is `c` apart from the record, and what a run
spends: `P a n k` holds if it gives `a` after `n` ended reads and `k` bytes.  The number of ended
reads is at most that of the bytes, and for a failure at most that of the bytes that there are.  A
reader of elements has to promise more, that a byte is left over, and this byte pays for the read
itself (`Scans.noted`).
-/

namespace Wasm.Binary

/-! ### Places -/

/-- `k` bytes lie between two cursors. -/
def Cursor.Reaches (c : Cursor) (k : Nat) (c' : Cursor) : Prop :=
  k ≤ c.rest.length ∧ c' = ⟨c.offset + k, c.rest.drop k⟩

namespace Cursor.Reaches

variable {c c' c'' : Cursor} {k k' : Nat}

theorem refl (c : Cursor) : c.Reaches 0 c :=
  ⟨Nat.zero_le _, rfl⟩

theorem of_append {bytes : List UInt8} (hrest : c.rest = bytes ++ c'.rest)
    (hoffset : c'.offset = c.offset + bytes.length) : c.Reaches bytes.length c' := by
  refine ⟨?_, ?_⟩
  · rw [hrest, List.length_append]
    exact Nat.le_add_right ..
  · rw [hrest, List.drop_left, ← hoffset]

theorem length (h : c.Reaches k c') : c'.rest.length + k = c.rest.length := by
  obtain ⟨hle, rfl⟩ := h
  rw [List.length_drop]
  omega

theorem trans (h : c.Reaches k c') (h' : c'.Reaches k' c'') : c.Reaches (k + k') c'' := by
  have hlength := h.length
  have hle := h'.1
  obtain ⟨-, rfl⟩ := h
  obtain ⟨-, rfl⟩ := h'
  refine ⟨by omega, ?_⟩
  rw [List.drop_drop, Nat.add_assoc]

end Cursor.Reaches

/-- Everything in a mark lies at or after a cursor, and what has been read takes a byte at least. -/
def Mark.Within (c : Cursor) : Mark → Prop
  | .passed c' => ∃ k, c.Reaches k c'
  | .began c' => ∃ k, c.Reaches k c'
  | .ended start stop => ∃ k k', c.Reaches k start ∧ start.Reaches k' stop ∧ 0 < k'

theorem Mark.Within.after {c c' : Cursor} {k : Nat} {t : Mark} (h : t.Within c')
    (hc : c.Reaches k c') : t.Within c := by
  cases t with
  | passed c'' =>
    obtain ⟨k', h⟩ := h
    exact ⟨k + k', hc.trans h⟩
  | began c'' =>
    obtain ⟨k', h⟩ := h
    exact ⟨k + k', hc.trans h⟩
  | ended start stop =>
    obtain ⟨k', k'', h, hstop⟩ := h
    exact ⟨k + k', k'', hc.trans h, hstop⟩

/-! ### Brackets -/

/-- Whether a read begins. -/
def Mark.begins : Mark → Bool
  | began _ => true
  | _ => false

/-- Whether a read has ended. -/
def Mark.ends : Mark → Bool
  | ended .. => true
  | _ => false

/-- How many reads have begun. -/
def begun (record : List Mark) : Nat :=
  record.countP Mark.begins

/-- How many reads have ended. -/
def ended (record : List Mark) : Nat :=
  record.countP Mark.ends

/-- Where the reads that are open after some marks have begun, the innermost first, if those in the
list are open before.  A read can only end if it is the innermost. -/
def openAfter : List Cursor → List Mark → Option (List Cursor)
  | outer, [] => some outer
  | outer, .passed _ :: rest => openAfter outer rest
  | outer, .began c :: rest => openAfter (c :: outer) rest
  | [], .ended .. :: _ => none
  | c :: outer, .ended start _ :: rest => if c = start then openAfter outer rest else none

theorem openAfter_append {outer : List Cursor} {record record' : List Mark} :
    openAfter outer (record ++ record') =
      (openAfter outer record).bind fun outer => openAfter outer record' := by
  fun_induction openAfter outer record with
  | case1 => rfl
  | case2 outer c rest ih => rw [List.cons_append, openAfter, ih]
  | case3 outer c rest ih => rw [List.cons_append, openAfter, ih]
  | case4 start stop rest => rw [List.cons_append, openAfter, Option.bind_none]
  | case5 outer start stop rest ih => rw [List.cons_append, openAfter, if_pos rfl, ih]
  | case6 c outer start stop rest hne =>
    rw [List.cons_append, openAfter, if_neg hne, Option.bind_none]

/-- What has begun has ended or is open. -/
theorem begun_of_openAfter {outer levels : List Cursor} {record : List Mark}
    (h : openAfter outer record = some levels) :
    outer.length + begun record = levels.length + ended record := by
  fun_induction openAfter outer record with
  | case1 =>
    cases h
    rfl
  | case2 outer c rest ih => exact ih h
  | case3 outer c rest ih =>
    have hrest := ih h
    rw [List.length_cons] at hrest
    have hbegun : begun (.began c :: rest) = begun rest + 1 := List.countP_cons_of_pos rfl
    have hended : ended (.began c :: rest) = ended rest :=
      List.countP_cons_of_neg Bool.false_ne_true
    omega
  | case4 => cases h
  | case5 outer start stop rest ih =>
    have hrest := ih h
    have hbegun : begun (.ended start stop :: rest) = begun rest :=
      List.countP_cons_of_neg Bool.false_ne_true
    have hended : ended (.ended start stop :: rest) = ended rest + 1 := List.countP_cons_of_pos rfl
    rw [List.length_cons]
    omega
  | case6 => cases h

/-- The reads that a record leaves open, whatever has been open before. -/
def Opens (record : List Mark) (levels : List Cursor) : Prop :=
  ∀ outer, openAfter outer record = some (levels ++ outer)

theorem Opens.append {record record' : List Mark} {levels levels' : List Cursor}
    (h : Opens record levels) (h' : Opens record' levels') :
    Opens (record ++ record') (levels' ++ levels) := by
  intro outer
  rw [openAfter_append, h, Option.bind_some, h', List.append_assoc]

theorem ended_append (record record' : List Mark) :
    ended (record ++ record') = ended record + ended record' :=
  List.countP_append

/-! ### Scans -/

open Recorded (Records)

/-- A reader with a record, the reader without it, and what a run spends: `n` ended reads and `k`
bytes. -/
structure Scans {α : Type} (r : Scan α) (c : Reader α) (P : α → (n k : Nat) → Prop) : Prop where
  records : Records r c
  marks : ∀ {s : Cursor} {t : Mark}, t ∈ r.record s → t.Within s
  succeeds : ∀ {s s' : Cursor} {a : α}, c s = .ok (a, s') → Opens (r.record s) [] ∧
    ∃ k, s.Reaches k s' ∧ ended (r.record s) ≤ k ∧ P a (ended (r.record s)) k
  fails : ∀ {s : Cursor} {e : Error}, c s = .error e → (∃ levels, Opens (r.record s) levels) ∧
    ended (r.record s) ≤ s.rest.length

variable {α β : Type} {r : Scan α} {c : Reader α} {P Q : α → Nat → Nat → Prop} {e : Error}

theorem Scans.mono (hr : Scans r c P) (h : ∀ a n k, n ≤ k → P a n k → Q a n k) : Scans r c Q where
  records := hr.records
  marks := hr.marks
  succeeds hs := by
    obtain ⟨hopens, k, hreaches, hle, hp⟩ := hr.succeeds hs
    exact ⟨hopens, k, hreaches, hle, h _ _ _ hle hp⟩
  fails := hr.fails

/-- The second part starts with what the first has spent. -/
theorem Scans.bind {f : α → Scan β} {g : α → Reader β} {R : β → Nat → Nat → Prop}
    (hr : Scans r c P) (hf : ∀ a n k, n ≤ k → P a n k →
      Scans (f a) (g a) fun b n' k' => R b (n + n') (k + k')) :
    Scans (r >>= f) (c >>= g) R := by
  have hok {s s' : Cursor} {a : α} (h : c s = .ok (a, s')) : r.result s = .ok (a, s') :=
    (congrFun hr.records s).trans h
  have herror {s : Cursor} {e : Error} (h : c s = .error e) : r.result s = .error e :=
    (congrFun hr.records s).trans h
  refine ⟨?_, ?_, ?_, ?_⟩
  · funext s
    rw [Recorded.result_bind]
    show (r.result s).bind _ = (c s).bind _
    cases h : c s with
    | error e =>
      rw [herror h]
      rfl
    | ok p =>
      obtain ⟨-, k, -, hle, hp⟩ := hr.succeeds h
      rw [hok h]
      exact congrFun (hf _ _ _ hle hp).records p.2
  · intro s t ht
    rcases Recorded.mem_record_bind.mp ht with ht | ⟨a, s', h, ht⟩
    · exact hr.marks ht
    · obtain ⟨-, k, hreaches, hle, hp⟩ := hr.succeeds ((congrFun hr.records s).symm.trans h)
      exact ((hf _ _ _ hle hp).marks ht).after hreaches
  · intro s s'' b h
    obtain ⟨a, s', h, h'⟩ := bind_eq_ok h
    obtain ⟨hopens, k, hreaches, hle, hp⟩ := hr.succeeds h
    obtain ⟨hopens', k', hreaches', hle', hq⟩ := (hf _ _ _ hle hp).succeeds h'
    rw [Recorded.record_bind_of_ok (hok h), ended_append]
    exact ⟨hopens.append hopens', k + k', hreaches.trans hreaches', Nat.add_le_add hle hle', hq⟩
  · intro s e h
    rcases bind_eq_error h with h | ⟨a, s', h, h'⟩
    · rw [Recorded.record_bind_of_error (herror h)]
      exact hr.fails h
    · obtain ⟨hopens, k, hreaches, hle, hp⟩ := hr.succeeds h
      obtain ⟨⟨levels, hopens'⟩, hle'⟩ := (hf _ _ _ hle hp).fails h'
      rw [Recorded.record_bind_of_ok (hok h), ended_append]
      have hlength := hreaches.length
      exact ⟨⟨levels ++ [], hopens.append hopens'⟩, by omega⟩

/-- A run that records nothing and stays where it is. -/
theorem scans_pure {a : α} (h : P a 0 0) : Scans (pure a) (pure a) P where
  records := Recorded.records_pure a
  marks ht := absurd ht List.not_mem_nil
  succeeds {s} {s'} {a'} hs := by
    cases hs
    exact ⟨fun outer => rfl, 0, .refl s, Nat.le_refl _, h⟩
  fails h := by cases h

theorem scans_throw (e : Error) : Scans (throw e) (throw e) P where
  records := Recorded.records_throw e
  marks ht := absurd ht List.not_mem_nil
  succeeds h := by cases h
  fails _ := ⟨⟨[], fun outer => rfl⟩, Nat.zero_le _⟩

theorem Scans.map {f : α → β} {R : β → Nat → Nat → Prop} (hr : Scans r c P)
    (h : ∀ a n k, n ≤ k → P a n k → R (f a) n k) : Scans (f <$> r) (f <$> c) R := by
  rw [map_eq_pure_bind f c]
  exact hr.bind fun a n k hle hp => scans_pure (h a n k hle hp)

theorem Scans.within (hr : Scans r c P) (outer : Unit → String) :
    Scans (Recorded.within outer r) (Recorder.within outer c) P where
  records := hr.records.within outer
  marks := hr.marks
  succeeds h := hr.succeeds (within_eq_ok h)
  fails h := by
    obtain ⟨e', h', -⟩ := within_eq_error h
    exact hr.fails h'

theorem scans_ite {p : Prop} [Decidable p] {r' : Scan α} {c' : Reader α}
    (h : p → Scans r c P) (h' : ¬ p → Scans r' c' P) :
    Scans (if p then r else r') (if p then c else c') P := by
  by_cases hp : p
  · rw [if_pos hp, if_pos hp]
    exact h hp
  · rw [if_neg hp, if_neg hp]
    exact h' hp

/-- A reader that is a single step reads no elements. -/
theorem scans_step {P : α → Nat → Prop}
    (h : ∀ {s s' : Cursor} {a : α}, c s = .ok (a, s') → ∃ k, s.Reaches k s' ∧ P a k) :
    Scans (Recorded.step Mark.passed c) c fun a n k => n = 0 ∧ P a k where
  records := Recorded.records_step Mark.passed c
  marks {s} {t} ht := by
    obtain ⟨a, s', hs, rfl⟩ := Recorded.mem_record_step.mp ht
    obtain ⟨k, hreaches, -⟩ := h hs
    exact ⟨k, hreaches⟩
  succeeds {s} {s'} {a} hs := by
    obtain ⟨k, hreaches, hp⟩ := h hs
    have hrecord : (Recorded.step Mark.passed c).record s = [.passed s'] := by
      rw [Recorded.record, Recorded.step, hs]
    rw [hrecord]
    exact ⟨fun outer => rfl, k, hreaches, Nat.zero_le k, rfl, hp⟩
  fails {s} {e} hs := by
    have hrecord : (Recorded.step Mark.passed c).record s = [] := by
      rw [Recorded.record, Recorded.step, hs]
    rw [hrecord]
    exact ⟨⟨[], fun outer => rfl⟩, Nat.zero_le _⟩

theorem Scans.noted_of_ok {s s' : Cursor} {a : α} (hr : Scans r c P) (h : c s = .ok (a, s')) :
    Scan.noted r s = (.began s :: (r.record s ++ [.ended s s']), .ok (a, s')) := by
  have hrun : r s = (r.record s, .ok (a, s')) :=
    Prod.ext rfl ((congrFun hr.records s).trans h)
  rw [Scan.noted, hrun]

theorem Scans.noted_of_error {s : Cursor} (hr : Scans r c P) (h : c s = .error e) :
    Scan.noted r s = (.began s :: r.record s, .error e) := by
  have hrun : r s = (r.record s, .error e) :=
    Prod.ext rfl ((congrFun hr.records s).trans h)
  rw [Scan.noted, hrun]

/-- A read that ends has a byte of its own to pay for it. -/
theorem Scans.noted (hr : Scans r c P) (hp : ∀ a n k, P a n k → n < k) :
    Scans (Scan.noted r) c fun a n k => ∃ m, n = m + 1 ∧ P a m k := by
  refine ⟨?_, ?_, ?_, ?_⟩
  · funext s
    cases h : c s with
    | error e => rw [Recorded.result, hr.noted_of_error h]
    | ok p => rw [Recorded.result, hr.noted_of_ok h]
  · intro s t ht
    cases h : c s with
    | error e =>
      rw [Recorded.record, hr.noted_of_error h, List.mem_cons] at ht
      obtain rfl | ht := ht
      · exact ⟨0, .refl s⟩
      · exact hr.marks ht
    | ok p =>
      rw [Recorded.record, hr.noted_of_ok h, List.mem_cons, List.mem_append,
        List.mem_singleton] at ht
      obtain rfl | ht | rfl := ht
      · exact ⟨0, .refl s⟩
      · exact hr.marks ht
      · obtain ⟨-, k, hreaches, -, hspent⟩ := hr.succeeds h
        exact ⟨0, k, .refl s, hreaches, Nat.zero_lt_of_lt (hp _ _ _ hspent)⟩
  · intro s s' a h
    obtain ⟨hopens, k, hreaches, hle, hspent⟩ := hr.succeeds h
    have hended : ended ((Scan.noted r).record s) = ended (r.record s) + 1 := by
      rw [Recorded.record, hr.noted_of_ok h]
      show ended (r.record s ++ [.ended s s']) = _
      rw [ended_append]
      rfl
    rw [hended]
    refine ⟨fun outer => ?_, k, hreaches, hp _ _ _ hspent, _, rfl, hspent⟩
    rw [Recorded.record, hr.noted_of_ok h, openAfter, openAfter_append, hopens, Option.bind_some,
      List.nil_append, openAfter, if_pos rfl, openAfter, List.nil_append]
  · intro s e h
    obtain ⟨⟨levels, hopens⟩, hle⟩ := hr.fails h
    rw [Recorded.record, hr.noted_of_error h]
    refine ⟨⟨levels ++ [s], fun outer => ?_⟩, hle⟩
    rw [openAfter, hopens, List.append_assoc, List.singleton_append]

end Wasm.Binary
