import Wasm.Proofs.Encoding.Instructions
import Wasm.Proofs.Errors.Categories
import Wasm.Proofs.Varint.Acceptance

/-!
# Readers do not look ahead

What a reader accepts it accepts wherever it stands and whatever follows, so a successful read is
about the bytes that it consumes and no others.  Readers look at offsets, but only to report them,
and the reader of instructions takes its fuel from what is left of the input, but the bytes that it
consumes are fuel enough.  `Carries` allows for both: it compares one reader with a family of
readers that stand elsewhere or have other fuel.  It follows the grammar, and says on the way that
every failure is a failure of the format.
-/

namespace Wasm.Binary

/-- What the reader `r` accepts each of the readers `s` reads, wherever it stands and whatever
follows, if it has more fuel than there are bytes; and `r` fails because of the format only. -/
structure Carries {ι α : Type} (fuel : ι → Nat) (r : Reader α) (s : ι → Reader α) : Prop where
  reads : ∀ {c c' : Cursor} {a : α}, r c = .ok (a, c') → ∃ bytes, c.rest = bytes ++ c'.rest ∧
    c'.offset = c.offset + bytes.length ∧ ∀ j, bytes.length < fuel j → Reads (s j) bytes a
  errors : ∀ {c : Cursor} {e : Error}, r c = .error e → e.Belongs .parse

variable {ι α β : Type} {fuel : ι → Nat} {r : Reader α} {s : ι → Reader α} {f : α → Reader β}
  {g : ι → α → Reader β} {e : Error}

/-- A reader that carries itself reads the bytes that it consumes. -/
theorem Carries.consumes {c c' : Cursor} {a : α} (hr : Carries id r fun _ => r)
    (h : r c = .ok (a, c')) :
    ∃ bytes, c.rest = bytes ++ c'.rest ∧ c'.offset = c.offset + bytes.length ∧ Reads r bytes a := by
  obtain ⟨bytes, hrest, hoffset, hreads⟩ := hr.reads h
  exact ⟨bytes, hrest, hoffset, hreads _ (Nat.lt_succ_self _)⟩

/-- A reader that carries itself fails because of the format only. -/
theorem Carries.parse {c : Cursor} (hr : Carries id r fun _ => r) (h : r c = .error e) :
    e.Belongs .parse :=
  hr.errors h

/-! ### Composition -/

theorem Carries.bind (hr : Carries fuel r s) (hf : ∀ a, Carries fuel (f a) fun j => g j a) :
    Carries fuel (r >>= f) fun j => s j >>= g j := by
  constructor
  · intro c c' b h
    obtain ⟨a, c₁, hfirst, hsecond⟩ := bind_eq_ok h
    obtain ⟨first, hrest, hoffset, hreads⟩ := hr.reads hfirst
    obtain ⟨second, hrest', hoffset', hreads'⟩ := (hf a).reads hsecond
    refine ⟨first ++ second, ?_, ?_, fun j hj => ?_⟩
    · rw [hrest, hrest', List.append_assoc]
    · rw [hoffset', hoffset, List.length_append, Nat.add_assoc]
    · rw [List.length_append] at hj
      exact (hreads j (by omega)).bind (hreads' j (by omega))
  · intro c e h
    rcases bind_eq_error h with h | ⟨a, c₁, -, h⟩
    · exact hr.errors h
    · exact (hf a).errors h

theorem carries_pure (a : α) : Carries fuel (pure a) fun _ => pure a := by
  constructor
  · intro c c' a' h
    cases h
    exact ⟨[], rfl, rfl, fun _ _ => reads_pure a⟩
  · intro c e h
    cases h

/-- A reader that only fails is followed by any. -/
theorem carries_throw (he : e.Belongs .parse) : Carries fuel (throw e) s := by
  constructor
  · intro c c' a h
    cases h
  · intro c e' h
    cases h
    exact he

theorem Carries.map (hr : Carries fuel r s) (f : α → β) :
    Carries fuel (f <$> r) fun j => f <$> s j := by
  simp only [map_eq_pure_bind]
  exact hr.bind fun a => carries_pure (f a)

theorem within_eq_ok {outer : Unit → String} {c : Cursor} {p : α × Cursor}
    (h : Recorder.within outer r c = .ok p) : r c = .ok p := by
  replace h : withContext outer (r c) = .ok p := h
  cases hrun : r c with
  | error e =>
    rw [hrun] at h
    cases h
  | ok p' =>
    rw [hrun] at h
    exact h

theorem within_eq_error {outer : Unit → String} {c : Cursor}
    (h : Recorder.within outer r c = .error e) :
    ∃ e', r c = .error e' ∧ e = e'.context (outer ()) := by
  replace h : withContext outer (r c) = .error e := h
  cases hrun : r c with
  | error e' =>
    rw [hrun] at h
    cases h
    exact ⟨e', rfl, rfl⟩
  | ok p =>
    rw [hrun] at h
    cases h

theorem Carries.within (hr : Carries fuel r s) (outer : Unit → String)
    (outer' : ι → Unit → String) :
    Carries fuel (Recorder.within outer r) fun j => Recorder.within (outer' j) (s j) := by
  constructor
  · intro c c' a h
    obtain ⟨bytes, hrest, hoffset, hreads⟩ := hr.reads (within_eq_ok h)
    exact ⟨bytes, hrest, hoffset, fun j hj => (hreads j hj).within _⟩
  · intro c e h
    obtain ⟨e', he, rfl⟩ := within_eq_error h
    exact (hr.errors he).context _

/-- A family may be numbered otherwise. -/
theorem Carries.reindex {κ : Type} (hr : Carries fuel r s) (k : κ → ι) :
    Carries (fun j => fuel (k j)) r fun j => s (k j) := by
  constructor
  · intro c c' a h
    obtain ⟨bytes, hrest, hoffset, hreads⟩ := hr.reads h
    exact ⟨bytes, hrest, hoffset, fun j hj => hreads (k j) hj⟩
  · exact hr.errors

/-- A reader may depend on where it stands, as long as what it accepts does not. -/
theorem carries_offset {f : Nat → Reader β} {g : ι → Nat → Reader β}
    (h : ∀ n, Carries (fun p : ι × Nat => fuel p.1) (f n) fun p => g p.1 p.2) :
    Carries fuel (Reader.offset >>= f) fun j => Reader.offset >>= g j := by
  constructor
  · intro c c' b hrun
    obtain ⟨bytes, hrest, hoffset, hreads⟩ := (h c.offset).reads hrun
    exact ⟨bytes, hrest, hoffset, fun j hj => reads_offset fun n => hreads (j, n) hj⟩
  · intro c e hrun
    exact (h c.offset).errors hrun

theorem carries_ite {c : Prop} [Decidable c] {r' : Reader α} {s' : ι → Reader α}
    (h : c → Carries fuel r s) (h' : ¬ c → Carries fuel r' s') :
    Carries fuel (if c then r else r') fun j => if c then s j else s' j := by
  by_cases hc : c
  · simp only [if_pos hc]
    exact h hc
  · simp only [if_neg hc]
    exact h' hc

/-- A check that ends the reading. -/
theorem carries_guard {c : Prop} [Decidable c] {next : Unit → Reader α}
    {next' : ι → Unit → Reader α} {e' : ι → Error} (he : e.Belongs .parse)
    (h : ¬ c → Carries fuel (next ()) fun j => next' j ()) :
    Carries fuel (if c then throw e >>= next else next ())
      fun j => if c then throw (e' j) >>= next' j else next' j () := by
  refine carries_ite (fun _ => ⟨fun h => ?_, fun h => ?_⟩) h
  · cases h
  · cases h
    exact he

/-- A reader that fails more often, but because of the format. -/
theorem Carries.strict {r' : Reader α} {s' : ι → Reader α} (hr : Carries fuel r s)
    (hr' : ∀ c, r' c = r c ∨ ∃ e, r' c = .error e ∧ e.Belongs .parse)
    (hs' : ∀ {j : ι} {c : Cursor} {p : α × Cursor}, s j c = .ok p → s' j c = .ok p) :
    Carries fuel r' s' := by
  constructor
  · intro c c' a h
    rcases hr' c with hc | ⟨e, hc, -⟩
    · obtain ⟨bytes, hrest, hoffset, hreads⟩ := hr.reads (hc.symm.trans h)
      exact ⟨bytes, hrest, hoffset, fun j hj offset rest => hs' (hreads j hj offset rest)⟩
    · cases hc.symm.trans h
  · intro c e h
    rcases hr' c with hc | ⟨e', hc, he'⟩
    · exact hr.errors (hc.symm.trans h)
    · cases hc.symm.trans h
      exact he'

/-! ### Bytes and numbers -/

theorem parse_unexpectedEnd (what : String) (offset : Nat) :
    (unexpectedEnd what offset).Belongs .parse :=
  Error.belongs_parse (by decide)

theorem parse_varintError (fault : Varint.Fault) (kind letter : String) (bits offset : Nat) :
    (Reader.varintError fault kind letter bits offset).Belongs .parse := by
  cases fault with
  | ended => exact parse_unexpectedEnd ..
  | tooLong => exact Error.belongs_parse (by decide)

theorem carries_byte : Carries fuel Reader.byte fun _ => Reader.byte := by
  constructor
  · rintro ⟨offset, _ | ⟨b, rest⟩⟩ c' a h
    · cases h
    · cases h
      exact ⟨[b], rfl, rfl, fun _ _ => reads_byte b⟩
  · rintro ⟨offset, _ | ⟨b, rest⟩⟩ e h
    · cases h
      exact parse_unexpectedEnd ..
    · cases h

/-- After a byte there may be less fuel. -/
theorem carries_byte_bind {f : UInt8 → Reader β} {g : ι → UInt8 → Reader β}
    (h : ∀ b, Carries fuel (f b) fun j => g j b) :
    Carries (fun j => fuel j + 1) (Reader.byte >>= f) fun j => Reader.byte >>= g j := by
  constructor
  · rintro ⟨offset, _ | ⟨b, rest⟩⟩ c' a hrun
    · cases hrun
    · obtain ⟨bytes, hrest, hoffset, hreads⟩ := (h b).reads hrun
      refine ⟨b :: bytes, ?_, ?_, fun j hj => ?_⟩
      · exact congrArg (b :: ·) hrest
      · rw [hoffset, List.length_cons, Nat.add_right_comm, Nat.add_assoc]
      · rw [List.length_cons] at hj
        exact (reads_byte b).bind (hreads j (Nat.lt_of_succ_lt_succ hj))
  · rintro ⟨offset, _ | ⟨b, rest⟩⟩ e hrun
    · cases hrun
      exact parse_unexpectedEnd ..
    · exact (h b).errors hrun

theorem bytesOf_eq_ok {what : String} {n : Nat} {c c' : Cursor} {bs : List UInt8}
    (h : Reader.bytesOf what n c = .ok (bs, c')) :
    c.rest = bs ++ c'.rest ∧ c'.offset = c.offset + bs.length ∧ bs.length = n := by
  unfold Reader.bytesOf at h
  split at h
  · next hle =>
    cases h
    have hlength : (c.rest.take n).length = n := List.length_take_of_le hle
    exact ⟨(List.take_append_drop ..).symm, by rw [hlength], hlength⟩
  · cases h

theorem carries_bytesOf (what : String) (n : Nat) :
    Carries fuel (Reader.bytesOf what n) fun _ => Reader.bytesOf what n := by
  constructor
  · intro c c' bs h
    obtain ⟨hrest, hoffset, rfl⟩ := bytesOf_eq_ok h
    exact ⟨bs, hrest, hoffset, fun _ _ => reads_bytesOf what bs⟩
  · intro c e h
    unfold Reader.bytesOf at h
    split at h
    · cases h
    · cases h
      exact parse_unexpectedEnd ..

/-- A number is read from its own bytes. -/
theorem carries_number {value : List UInt8 → α} {range : Set α} {most : Nat}
    (hr : ∀ c, ReadsNumber r value range most c)
    (herror : ∀ {c : Cursor} {e : Error}, r c = .error e → e.Belongs .parse) :
    Carries fuel r fun _ => r := by
  refine ⟨?_, herror⟩
  · intro c c' a h
    obtain ⟨size, hstarts, rfl⟩ := ((hr c).ok_iff a c').mp h
    obtain ⟨hle, htake⟩ := hstarts.take
    have hlength : (c.rest.take size).length = size := List.length_take_of_le hle
    refine ⟨c.rest.take size, (List.take_append_drop ..).symm, by rw [hlength],
      fun _ _ offset rest => ?_⟩
    rw [hlength]
    refine ((hr _).ok_iff a _).mpr ⟨size, htake rest, ?_⟩
    dsimp only
    rw [List.drop_left' hlength]

theorem carries_unsigned (bits : Nat) (h : 0 < bits) :
    Carries fuel (Reader.unsigned bits) fun _ => Reader.unsigned bits := by
  refine carries_number (readsNumber_unsigned h) fun {c e} herror => ?_
  unfold Reader.unsigned at herror
  split at herror
  · cases herror
  · cases herror
    exact parse_varintError ..

theorem carries_signed (bits : Nat) (h : 0 < bits) :
    Carries fuel (Reader.signed bits) fun _ => Reader.signed bits := by
  refine carries_number (readsNumber_signed h) fun {c e} herror => ?_
  unfold Reader.signed at herror
  split at herror
  · cases herror
  · cases herror
    exact parse_varintError ..

theorem carries_u32 : Carries fuel Reader.u32 fun _ => Reader.u32 :=
  (carries_unsigned 32 (Nat.succ_pos _)).map _

theorem carries_i32 : Carries fuel Reader.i32 fun _ => Reader.i32 :=
  (carries_signed 32 (Nat.succ_pos _)).map _

theorem carries_i64 : Carries fuel Reader.i64 fun _ => Reader.i64 :=
  (carries_signed 64 (Nat.succ_pos _)).map _

theorem carries_u32Fixed : Carries fuel Reader.u32Fixed fun _ => Reader.u32Fixed :=
  (carries_bytesOf "u32" 4).map _

theorem carries_f32 : Carries fuel Reader.f32 fun _ => Reader.f32 :=
  (carries_bytesOf "f32" 4).map _

theorem carries_f64 : Carries fuel Reader.f64 fun _ => Reader.f64 :=
  (carries_bytesOf "f64" 8).map _

/-! ### Names, types and lists -/

/-- A number of bytes that are looked for before they are read. -/
theorem carries_checked {n : Nat} {what : String} {short : Error} {short' : ι → Error}
    {f : List UInt8 → Reader β} {g : ι → List UInt8 → Reader β} (hshort : short.Belongs .parse)
    (hf : ∀ bs, Carries fuel (f bs) fun j => g j bs) :
    Carries fuel (Reader.remaining >>= fun left =>
        if left < n then throw short >>= fun _ : Unit => Reader.bytesOf what n >>= f
        else Reader.bytesOf what n >>= f)
      fun j => Reader.remaining >>= fun left =>
        if left < n then throw (short' j) >>= fun _ : Unit => Reader.bytesOf what n >>= g j
        else Reader.bytesOf what n >>= g j := by
  refine ((carries_bytesOf what n).bind hf).strict (fun c => ?_) fun {j c p} h => ?_
  · rw [bind_ok (r := Reader.remaining) rfl]
    by_cases hleft : c.rest.length < n
    · rw [if_pos hleft]
      exact .inr ⟨short, rfl, hshort⟩
    · rw [if_neg hleft]
      exact .inl rfl
  · rw [bind_ok (r := Reader.remaining) rfl, if_neg]
    · exact h
    · replace h : (Reader.bytesOf what n >>= g j) c = .ok (p.1, p.2) := h
      obtain ⟨bs, c₁, hbs, -⟩ := bind_eq_ok h
      obtain ⟨hrest, -, hlength⟩ := bytesOf_eq_ok hbs
      rw [hrest, List.length_append, hlength]
      exact Nat.not_lt.mpr (Nat.le_add_right ..)

theorem carries_name : Carries fuel Reader.name fun _ => Reader.name := by
  refine carries_offset fun start => carries_u32.bind fun length =>
    carries_checked (parse_unexpectedEnd ..) fun bs => ?_
  cases Utf8.decode bs with
  | ok s => exact carries_pure s
  | error fault => exact carries_throw (Error.belongs_parse (by decide))

theorem carries_valueType : Carries fuel Reader.valueType fun _ => Reader.valueType := by
  refine carries_offset fun start => carries_byte.bind fun b => ?_
  refine Carries.within (s := fun _ => Reader.asValueType b) ?_ _ _
  unfold Reader.asValueType ValueType.ofByte
  cases ValueType.ofByte? b with
  | some t => exact carries_pure t
  | none => exact carries_throw (Error.belongs_parse (by decide))

theorem carries_items {read : Nat → Reader α}
    (h : ∀ index, Carries fuel (read index) fun _ => read index) (count index : Nat) :
    Carries fuel (Reader.items read count index) fun _ => Reader.items read count index := by
  induction count generalizing index with
  | zero => exact carries_pure []
  | succ count ih =>
    exact (h index).bind fun a => (ih (index + 1)).bind fun l => carries_pure (a :: l)

theorem carries_numberedList {read : Nat → Reader α}
    (h : ∀ index, Carries fuel (read index) fun _ => read index) :
    Carries fuel (Reader.numberedList read) fun _ => Reader.numberedList read :=
  carries_u32.bind fun count => carries_items h count.toNat 0

theorem carries_list {read : Reader α} (h : Carries fuel read fun _ => read) :
    Carries fuel (Reader.list read) fun _ => Reader.list read :=
  carries_numberedList fun _ => h

end Wasm.Binary
