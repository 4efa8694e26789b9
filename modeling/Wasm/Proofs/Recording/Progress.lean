import Wasm.Proofs.Recording.Readers

/-!
# The decoder ends, after no more reads than there are bytes

The loops of the decoder count down from the number of bytes that are left.  This never ends them: a
round takes a byte, and a section takes two, so with more fuel they do the same (`sameUpTo_instrs`,
`sections_of_fuel`).  What ends them is the input, and it also bounds what they do on the way, for
success and failure alike (`Progress`): no more reads end than there are bytes, and of those that do
not there is one for each level of nesting.  The number of elements that a list declares does not
matter.
-/

namespace Wasm.Binary

variable {α β : Type} {r r' : Scan α} {c : Reader α} {P : α → Nat → Nat → Prop} {n : Nat}

/-! ### Fuel -/

/-- Two scans do the same where at most `n` bytes are left. -/
def SameUpTo (n : Nat) (r r' : Scan α) : Prop :=
  ∀ s : Cursor, s.rest.length ≤ n → r s = r' s

theorem SameUpTo.refl (n : Nat) (r : Scan α) : SameUpTo n r r := fun _ _ => rfl

theorem SameUpTo.mono {m : Nat} (h : SameUpTo n r r') (hle : m ≤ n) : SameUpTo m r r' :=
  fun s hs => h s (hs.trans hle)

/-- After `l` bytes there are so many less. -/
theorem SameUpTo.bind {f f' : α → Scan β} {l : Nat} (h : SameUpTo n r r') (hr : Scans r c P)
    (hl : ∀ a n k, P a n k → l ≤ k) (hf : ∀ a m, m + l ≤ n → SameUpTo m (f a) (f' a)) :
    SameUpTo n (r >>= f) (r' >>= f') := by
  intro s hs
  show Recorded.andThen r f s = Recorded.andThen r' f' s
  rw [Recorded.andThen, Recorded.andThen, ← h s hs]
  cases hrun : r s with
  | mk record result =>
    cases result with
    | error e => rfl
    | ok p =>
      have hok : c s = .ok (p.1, p.2) :=
        (congrFun hr.records s).symm.trans (congrArg Prod.snd hrun)
      obtain ⟨-, k, hreaches, -, hp⟩ := hr.succeeds hok
      have hlength := hreaches.length
      have hk := hl _ _ _ hp
      have hnext := hf p.1 (n - l) (by omega) p.2 (by omega)
      dsimp only
      rw [Recorded.record, Recorded.record, Recorded.result, Recorded.result, hnext]

theorem SameUpTo.andThen {f f' : α → Scan β} (h : SameUpTo n r r') (hr : Scans r c P)
    (hf : ∀ a, SameUpTo n (f a) (f' a)) : SameUpTo n (r >>= f) (r' >>= f') :=
  h.bind hr (fun _ _ _ _ => Nat.zero_le _) fun a _ hm => (hf a).mono hm

theorem sameUpTo_offset {f f' : Nat → Scan β} (hf : ∀ a, SameUpTo n (f a) (f' a)) :
    SameUpTo n (liftM Reader.offset >>= f) (liftM Reader.offset >>= f') :=
  (SameUpTo.refl n _).andThen (scans_stay fun hs => by cases hs; rfl) hf

theorem SameUpTo.noted (h : SameUpTo n r r') : SameUpTo n (Scan.noted r) (Scan.noted r') := by
  intro s hs
  rw [Scan.noted, Scan.noted, h s hs]

variable {fuel : Nat} {seq seq' : Scan (Expr × Terminator)} {plain : Reader (Expr × Terminator)}

theorem SameUpTo.closedBy (h : SameUpTo n seq seq') (hseq : Scans seq plain Closes) :
    SameUpTo n (Reader.closedBy seq) (Reader.closedBy seq') :=
  sameUpTo_offset fun _ => h.andThen hseq fun _ => .refl n _

theorem SameUpTo.instrAfter (h : SameUpTo n seq seq') (hseq : Scans seq plain Closes)
    (op : Opcode) : SameUpTo n (Reader.instrAfter seq op) (Reader.instrAfter seq' op) := by
  cases op with
  | block | loop =>
    refine (SameUpTo.refl n _).andThen scans_blockType fun type => ?_
    exact (h.closedBy hseq).andThen hseq.closedBy fun body => .refl n _
  | ifElse =>
    refine (SameUpTo.refl n _).andThen scans_blockType fun type => ?_
    refine h.andThen hseq fun p => ?_
    rcases p with ⟨thenBody, _ | _⟩
    · exact .refl n _
    · exact (h.closedBy hseq).andThen hseq.closedBy fun elseBody => .refl n _
  | _ => exact .refl n _

/-- A round has its first byte for itself. -/
theorem SameUpTo.round (h : ∀ m, m + 1 ≤ n → SameUpTo m seq seq')
    (hseq : Scans seq plain Closes) : SameUpTo n (Reader.round seq) (Reader.round seq') := by
  refine sameUpTo_offset fun start => ?_
  refine (SameUpTo.refl n _).bind scans_byte (fun _ _ _ hp => hp.2) fun b m hm => ?_
  by_cases hend : b = Opcode.endByte
  · rw [if_pos hend, if_pos hend]
    exact .refl m _
  by_cases helse : b = Opcode.elseByte
  · rw [if_neg hend, if_neg hend, if_pos helse, if_pos helse]
    exact .refl m _
  rw [if_neg hend, if_neg hend, if_neg helse, if_neg helse]
  cases Opcode.ofByte? b with
  | none => exact .refl m _
  | some op =>
    exact ((h m hm).instrAfter hseq op).andThen (scans_instrAfter hseq op) fun _ => .refl m _

/-- Fuel for more rounds than there are bytes is never used up. -/
theorem sameUpTo_instrs {fuel' : Nat} (h : n < fuel) (h' : n < fuel') :
    SameUpTo n (Scan.instrs fuel) (Scan.instrs fuel') := by
  induction fuel generalizing fuel' n with
  | zero => exact absurd h (Nat.not_lt_zero n)
  | succ fuel ih =>
    cases fuel' with
    | zero => exact absurd h' (Nat.not_lt_zero n)
    | succ fuel' =>
      -- a byte less and a round less: bodies of instructions and what comes after them are the same
      have hless {m : Nat} (hm : m + 1 ≤ n) : SameUpTo m (Scan.instrs fuel) (Scan.instrs fuel') :=
        ih (by omega) (by omega)
      have hscans := scans_instrs fuel
      refine SameUpTo.bind (l := 1) (SameUpTo.round (fun m => hless) hscans).noted
        ((scans_round hscans).noted fun a n k hp => hp.2) (fun a n k hp => ?_) fun x m hm => ?_
      · obtain ⟨m, -, -, hlt⟩ := hp
        exact Nat.one_le_of_lt hlt
      · cases x with
        | inl t => exact .refl m _
        | inr i => exact (hless hm).andThen hscans fun p => .refl m _

/-- The same for sections, which take two bytes, so that fuel for as many as there are bytes is
enough.  Without any the loop ends before it has looked whether there is an input. -/
theorem sameUpTo_sections {fuel' : Nat} (h : n ≤ fuel) (h' : n ≤ fuel') (hpos : 0 < fuel)
    (hpos' : 0 < fuel') (last : UInt8) (m : Module) :
    SameUpTo n (Reader.sections fuel last m) (Reader.sections fuel' last m) := by
  induction fuel generalizing fuel' n last m with
  | zero => exact absurd hpos (Nat.lt_irrefl 0)
  | succ fuel ih =>
    cases fuel' with
    | zero => exact absurd hpos' (Nat.lt_irrefl 0)
    | succ fuel' =>
      refine (SameUpTo.refl n _).andThen (scans_stay fun hs => by cases hs; rfl) fun rest => ?_
      by_cases hrest : rest = 0
      · rw [if_pos hrest, if_pos hrest]
        exact .refl n _
      · rw [if_neg hrest, if_neg hrest]
        exact (SameUpTo.refl n _).bind (scans_oneSection last m) (fun _ _ _ hp => hp.1)
          fun p l hl => ih (by omega) (by omega) (by omega) (by omega) p.1 p.2

theorem sections_of_fuel {s : Cursor} (h : s.rest.length ≤ fuel) (last : UInt8) (m : Module) :
    Reader.sections (M := Reader) fuel last m s =
      Reader.sections (M := Reader) s.rest.length last m s := by
  rcases Nat.eq_zero_or_pos s.rest.length with hnone | hpos
  · cases fuel with
    | zero => rw [hnone]
    | succ fuel =>
      show (Reader.remaining >>= _) s = _
      rw [bind_ok (r := Reader.remaining) rfl, if_pos hnone, hnone]
      rfl
  · have hsame := sameUpTo_sections h (Nat.le_refl _) (by omega) hpos last m s (Nat.le_refl _)
    rw [← (scans_sections fuel last m).records, ← (scans_sections _ last m).records]
    exact congrArg Prod.snd hsame

/-! ### Progress -/

/-- A run of a reader from a place in an input, and the record that a scan keeps of it. -/
structure Progress (r : Scan α) (c : Reader α) (reads items : α → Nat) (s : Cursor) : Prop where
  /-- The scan does what the reader does. -/
  result_eq : r.result s = c s
  /-- It stays within the input, and every read that ends has taken a byte. -/
  within : ∀ t ∈ r.record s, t.Within s
  /-- No more reads have begun than there are bytes, apart from those that are open at the end. -/
  begun_le : ∃ levels, openAfter [] (r.record s) = some levels ∧
    begun (r.record s) ≤ s.rest.length + levels.length
  /-- On success none is open, and what has been decoded was read, and takes its bytes. -/
  items_le : ∀ {a s'}, c s = .ok (a, s') → openAfter [] (r.record s) = some [] ∧
    ∃ k, s.Reaches k s' ∧ reads a ≤ begun (r.record s) ∧ begun (r.record s) ≤ k ∧ items a ≤ k

theorem Scans.progress {reads items : α → Nat} (h : Scans r c P)
    (hp : ∀ a n k, n ≤ k → P a n k → reads a ≤ n ∧ items a ≤ k) (s : Cursor) :
    Progress r c reads items s := by
  have hbegun {levels : List Cursor} (hopens : Opens (r.record s) levels) :
      openAfter [] (r.record s) = some levels ∧
        begun (r.record s) = levels.length + ended (r.record s) := by
    have hopen := hopens []
    rw [List.append_nil] at hopen
    have hcount := begun_of_openAfter hopen
    rw [List.length_nil, Nat.zero_add] at hcount
    exact ⟨hopen, hcount⟩
  refine ⟨congrFun h.records s, fun t ht => h.marks ht, ?_, fun {a s'} hs => ?_⟩
  · cases hs : c s with
    | error e =>
      obtain ⟨⟨levels, hopens⟩, hle⟩ := h.fails hs
      obtain ⟨hopen, hcount⟩ := hbegun hopens
      exact ⟨levels, hopen, by omega⟩
    | ok p =>
      obtain ⟨hopens, k, hreaches, hle, -⟩ := h.succeeds hs
      obtain ⟨hopen, hcount⟩ := hbegun hopens
      have hlength := hreaches.1
      exact ⟨[], hopen, by omega⟩
  · obtain ⟨hopens, k, hreaches, hle, hspent⟩ := h.succeeds hs
    obtain ⟨hopen, hcount⟩ := hbegun hopens
    obtain ⟨hreads, hitems⟩ := hp _ _ _ hle hspent
    rw [List.length_nil, Nat.zero_add] at hcount
    exact ⟨hopen, k, hreaches, by omega, by omega, hitems⟩

/-- **The decoder makes progress.**  From every place of every input, the cursor stays within the
input, each element and each instruction that is read takes a byte at least, and there are not more
of these reads than bytes, apart from one for each level that is open when the decoder fails.  On
success all that the module holds, or the sequence, is paid for by the bytes consumed.  With more
fuel the loops do the same. -/
theorem decoder_progresses (s : Cursor) :
    Progress Scan.module Reader.module Module.reads Module.items s ∧
      Progress Scan.expr Reader.expr Expr.reads Expr.reads s ∧
      (∀ fuel, s.rest.length < fuel →
        Scan.instrs fuel s = Scan.instrs (s.rest.length + 1) s) ∧
      ∀ fuel last m, s.rest.length ≤ fuel →
        Reader.sections (M := Reader) fuel last m s =
          Reader.sections (M := Reader) s.rest.length last m s := by
  refine ⟨scans_module.progress (fun m n k _ hm => ⟨hm.1, ?_⟩) s,
    scans_closedSequence.progress (fun e n k hle he => ⟨Nat.le_of_lt he, by omega⟩) s,
    fun fuel h => ?_, fun fuel last m h => sections_of_fuel h last m⟩
  · obtain ⟨hreads, hpayload⟩ := hm
    rw [Module.items]
    omega
  · exact sameUpTo_instrs h (Nat.lt_succ_self _) s (Nat.le_refl _)

/-- A module with one type, a block with a byte behind it, and fuel to spare. -/
theorem short_inputs_progress :
    (∃ k, (Cursor.start [0x00, 0x61, 0x73, 0x6d, 1, 0, 0, 0, 1, 4, 1, 0x60, 0, 0]).Reaches k
        ⟨14, []⟩ ∧ Module.reads { types := [⟨[], []⟩] } ≤ begun (Scan.module.record
        (Cursor.start [0x00, 0x61, 0x73, 0x6d, 1, 0, 0, 0, 1, 4, 1, 0x60, 0, 0])) ∧
      begun (Scan.module.record
        (Cursor.start [0x00, 0x61, 0x73, 0x6d, 1, 0, 0, 0, 1, 4, 1, 0x60, 0, 0])) ≤ k ∧
      Module.items { types := [⟨[], []⟩] } ≤ k) ∧
    (∃ k, (Cursor.start [0x02, 0x40, 0x0b, 0x0b, 0x00]).Reaches k ⟨4, [0x00]⟩ ∧
      Expr.reads [.block .block .empty []] ≤
        begun (Scan.expr.record (Cursor.start [0x02, 0x40, 0x0b, 0x0b, 0x00])) ∧
      begun (Scan.expr.record (Cursor.start [0x02, 0x40, 0x0b, 0x0b, 0x00])) ≤ k ∧
      Expr.reads [.block .block .empty []] ≤ k) ∧
    Scan.instrs 7 (Cursor.start [0x0b]) = Scan.instrs 2 (Cursor.start [0x0b]) ∧
    Reader.sections (M := Reader) 7 customId {} (Cursor.start [0, 1, 0]) =
      Reader.sections (M := Reader) 3 customId {} (Cursor.start [0, 1, 0]) :=
  ⟨((decoder_progresses _).1.items_le rfl).2, ((decoder_progresses _).2.1.items_le rfl).2,
    (decoder_progresses _).2.2.1 7 (by decide), (decoder_progresses _).2.2.2 7 _ _ (by decide)⟩

/-- A table declares the most labels that a count can say, and has one: the second label and the
instruction stay open. -/
example : openAfter []
    (Scan.expr.record (Cursor.start [0x0e, 0xff, 0xff, 0xff, 0xff, 0x0f, 0x00])) =
      some [⟨7, []⟩, Cursor.start [0x0e, 0xff, 0xff, 0xff, 0xff, 0x0f, 0x00]] := by decide

end Wasm.Binary
