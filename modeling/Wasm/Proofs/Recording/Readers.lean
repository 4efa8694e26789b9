import Wasm.Proofs.Recording.Scans
import Wasm.Proofs.Recording.Sizes
import Wasm.Proofs.Framing.Sections

/-!
# What the readers of modules spend

Each reader of the decoder and its scan, in the order of the grammar.  Every read is paid for by one
byte of its own, and every byte of a name, a data segment or a custom section by itself, so elements
add up over lists (`scans_items`), instructions over sequences (`scans_instrs`), and both over the
fields of a module (`Gains`).
-/

namespace Wasm.Binary

variable {α β : Type}

/-! ### Looking -/

/-- A reader that stays where it is. -/
theorem scans_stay {c : Reader α} (hc : ∀ {s s' : Cursor} {a : α}, c s = .ok (a, s') → s' = s) :
    Scans (Recorded.step Mark.passed c) c fun _ n k => n = 0 ∧ k = 0 := by
  refine scans_step (P := fun _ k => k = 0) fun {s s' a} hs => ?_
  rw [hc hs]
  exact ⟨0, .refl s, rfl⟩

theorem scans_look {c : Reader α} {f : α → Scan β} {g : α → Reader β} {P : β → Nat → Nat → Prop}
    (hc : ∀ {s s' : Cursor} {a : α}, c s = .ok (a, s') → s' = s) (h : ∀ a, Scans (f a) (g a) P) :
    Scans (Recorded.step Mark.passed c >>= f) (c >>= g) P := by
  refine (scans_stay hc).bind ?_
  rintro a n k - ⟨rfl, rfl⟩
  exact (h a).mono fun b n' k' _ hp => by rwa [Nat.zero_add, Nat.zero_add]

theorem scans_offset {f : Nat → Scan β} {g : Nat → Reader β} {P : β → Nat → Nat → Prop}
    (h : ∀ n, Scans (f n) (g n) P) :
    Scans (liftM Reader.offset >>= f) (liftM Reader.offset >>= g) P :=
  scans_look (fun hs => by cases hs; rfl) h

theorem scans_remaining {f : Nat → Scan β} {g : Nat → Reader β} {P : β → Nat → Nat → Prop}
    (h : ∀ n, Scans (f n) (g n) P) :
    Scans (liftM Reader.remaining >>= f) (liftM Reader.remaining >>= g) P :=
  scans_look (fun hs => by cases hs; rfl) h

theorem scans_peek {f : UInt8 → Scan β} {g : UInt8 → Reader β} {P : β → Nat → Nat → Prop}
    (h : ∀ b, Scans (f b) (g b) P) :
    Scans (liftM Reader.peek >>= f) (liftM Reader.peek >>= g) P := by
  refine scans_look (fun {s s' b} hs => ?_) h
  replace hs : Reader.peek s = .ok (b, s') := hs
  unfold Reader.peek at hs
  split at hs
  · cases hs
  · cases hs
    rfl

/-- A check that ends the reading. -/
theorem scans_guard {p : Prop} [Decidable p] {e : Error} {next : Unit → Scan α}
    {next' : Unit → Reader α} {P : α → Nat → Nat → Prop} (h : ¬ p → Scans (next ()) (next' ()) P) :
    Scans (if p then throw e >>= next else next ()) (if p then throw e >>= next' else next' ()) P :=
  scans_ite (fun _ => (scans_throw (P := fun _ _ _ => False) e).bind fun _ _ _ _ h => h.elim) h

theorem scans_pure_bind {a : α} {f : α → Scan β} {g : α → Reader β} {P : β → Nat → Nat → Prop}
    (h : Scans (f a) (g a) P) : Scans (pure a >>= f) (pure a >>= g) P :=
  h

/-! ### Numbers and bytes -/

/-- A reader of numbers takes a byte at least. -/
theorem scans_number {c : Reader α} (hc : Carries id c fun _ => c)
    (h : ∃ e, c ⟨0, []⟩ = .error e) :
    Scans (Recorded.step Mark.passed c) c fun _ n k => n = 0 ∧ 0 < k := by
  refine scans_step (P := fun _ k => 0 < k) fun {s s' a} hs => ?_
  obtain ⟨bytes, hrest, hoffset, hreads⟩ := hc.consumes hs
  refine ⟨bytes.length, .of_append hrest hoffset, List.length_pos_of_ne_nil ?_⟩
  rintro rfl
  obtain ⟨e, he⟩ := h
  cases he.symm.trans (hreads 0 [])

theorem scans_byte : Scans (liftM Reader.byte) (liftM Reader.byte) fun _ n k => n = 0 ∧ 0 < k :=
  scans_number carries_byte ⟨_, rfl⟩

theorem scans_u32 : Scans (liftM Reader.u32) (liftM Reader.u32) fun _ n k => n = 0 ∧ 0 < k :=
  scans_number carries_u32 ⟨_, rfl⟩

theorem scans_bytes (length : Nat) :
    Scans (liftM (Reader.bytes length)) (liftM (Reader.bytes length))
      fun bs n k => n = 0 ∧ bs.length = k := by
  refine scans_step (P := fun (bs : List UInt8) k => bs.length = k) fun {s s' bs} hs => ?_
  obtain ⟨hrest, hoffset, rfl⟩ := bytesOf_eq_ok hs
  exact ⟨bs.length, .of_append hrest hoffset, rfl⟩

/-! ### Names, types and lists -/

theorem scans_name : Scans Reader.name Reader.name fun s n k => n = 0 ∧ s.utf8ByteSize < k := by
  refine scans_offset fun start => ?_
  refine scans_u32.bind ?_
  rintro length n₁ k₁ - ⟨rfl, hlength⟩
  refine scans_remaining fun rest => scans_guard fun _ => ?_
  refine (scans_bytes length.toNat).bind ?_
  rintro bs n₂ k₂ - ⟨rfl, hbs⟩
  cases hs : Utf8.decode bs with
  | error fault => exact scans_throw _
  | ok s =>
    have hsize := Utf8.utf8ByteSize_of_decode hs
    exact scans_pure ⟨rfl, by omega⟩

/-- What a byte means is not read. -/
theorem scans_asValueType (b : UInt8) :
    Scans (liftM (Reader.asValueType b)) (liftM (Reader.asValueType b))
      fun _ n k => n = 0 ∧ k = 0 := by
  refine scans_stay fun {s s' t} hs => ?_
  replace hs : (liftM (ValueType.ofByte b) : Reader ValueType) s = .ok (t, s') := hs
  unfold ValueType.ofByte at hs
  cases h : ValueType.ofByte? b with
  | none =>
    rw [h] at hs
    cases hs
  | some t' =>
    rw [h] at hs
    cases hs
    rfl

theorem scans_valueType : Scans Reader.valueType Reader.valueType fun _ n k => n = 0 ∧ 0 < k := by
  refine scans_offset fun start => ?_
  refine scans_byte.bind ?_
  rintro b n₁ k₁ - ⟨rfl, hb⟩
  refine ((scans_asValueType b).within _).mono ?_
  rintro t n k - ⟨rfl, rfl⟩
  exact ⟨rfl, hb⟩

/-- An element: what is read for it has been counted, apart from its own reading, and there is a
byte for each of these reads. -/
def Counts (reads : α → Nat) (a : α) (n k : Nat) : Prop :=
  reads a ≤ n + 1 ∧ n < k

/-- An element with a payload, for which there are bytes besides. -/
def Pays (reads payload : α → Nat) (a : α) (n k : Nat) : Prop :=
  reads a ≤ n + 1 ∧ n + payload a < k

theorem Scans.pays {r : Scan α} {c : Reader α} {reads : α → Nat} (h : Scans r c (Counts reads)) :
    Scans r c (Pays reads fun _ => 0) :=
  h.mono fun _ _ _ _ ha => ha

theorem scans_items {read : Nat → Scan α} {read' : Nat → Reader α} {reads payload : α → Nat}
    (h : ∀ index, Scans (read index) (read' index) (Pays reads payload)) (count index : Nat) :
    Scans (Reader.items read count index) (Reader.items read' count index)
      fun l n k => (l.map reads).sum ≤ n ∧ n + (l.map payload).sum ≤ k := by
  induction count generalizing index with
  | zero => exact scans_pure ⟨Nat.le_refl 0, Nat.le_refl 0⟩
  | succ count ih =>
    have hread : Scans (Scan.noted (read index)) (read' index) _ :=
      (h index).noted fun a n k ⟨_, hpays⟩ => Nat.lt_of_le_of_lt (Nat.le_add_right ..) hpays
    refine hread.bind ?_
    rintro a _ k₁ - ⟨n₁, rfl, hreads, hpays⟩
    refine (ih (index + 1)).bind ?_
    rintro l n₂ k₂ - ⟨hl, hl'⟩
    refine scans_pure ?_
    rw [List.map_cons, List.sum_cons, List.map_cons, List.sum_cons]
    exact ⟨by omega, by omega⟩

theorem scans_numberedList {read : Nat → Scan α} {read' : Nat → Reader α}
    {reads payload : α → Nat}
    (h : ∀ index, Scans (read index) (read' index) (Pays reads payload)) :
    Scans (Reader.numberedList read) (Reader.numberedList read')
      fun l n k => (l.map reads).sum ≤ n ∧ n + (l.map payload).sum < k := by
  refine scans_u32.bind ?_
  rintro count n₁ k₁ - ⟨rfl, hcount⟩
  refine (scans_items h count.toNat 0).mono ?_
  rintro l n₂ k₂ - ⟨hl, hl'⟩
  exact ⟨by omega, by omega⟩

theorem scans_list {read : Scan α} {read' : Reader α} {reads payload : α → Nat}
    (h : Scans read read' (Pays reads payload)) : Scans (Reader.list read) (Reader.list read')
      fun l n k => (l.map reads).sum ≤ n ∧ n + (l.map payload).sum < k :=
  scans_numberedList fun _ => h

/-- Elements without elements of their own. -/
theorem scans_count {read : Scan α} {read' : Reader α} {payload : α → Nat}
    (h : Scans read read' fun a n k => n = 0 ∧ payload a < k) :
    Scans (Reader.list read) (Reader.list read')
      fun l n k => l.length ≤ n ∧ n + (l.map payload).sum < k := by
  have hpays : Scans read read' (Pays (fun _ => 1) payload) := by
    refine h.mono ?_
    rintro a n k - ⟨rfl, hk⟩
    exact ⟨Nat.le_refl 1, by omega⟩
  refine (scans_list hpays).mono ?_
  rintro l n k - ⟨hn, hl⟩
  refine ⟨?_, hl⟩
  rwa [List.map_const', List.sum_replicate, smul_eq_mul, Nat.mul_one] at hn

/-! ### Instructions -/

theorem scans_zeroByte (what : String) :
    Scans (Reader.zeroByte what) (Reader.zeroByte what) fun _ n k => n = 0 ∧ 0 < k := by
  refine scans_offset fun start => ?_
  refine scans_byte.bind ?_
  rintro b n₁ k₁ - ⟨rfl, hb⟩
  exact scans_ite (fun _ => scans_throw _) fun _ => scans_pure ⟨rfl, hb⟩

theorem scans_blockType : Scans Reader.blockType Reader.blockType fun _ _ _ => True := by
  refine scans_offset fun start => scans_peek fun b => scans_ite (fun _ => ?_) fun _ => ?_
  · exact scans_byte.bind fun b n k _ _ => scans_pure trivial
  · have hnumber : Scans (liftM (Reader.signed 33)) (liftM (Reader.signed 33)) _ :=
      scans_number (carries_signed 33 (by decide)) ⟨_, rfl⟩
    refine hnumber.bind fun n _ _ _ _ => ?_
    refine scans_ite (fun _ => scans_pure trivial) fun _ => ?_
    refine scans_ite (fun _ => scans_pure trivial) fun _ => ?_
    cases ValueType.ofByte? (.ofNat (n + 0x80).toNat) with
    | none => exact scans_throw _
    | some t => exact scans_pure trivial

/-- A single operand that is no list. -/
theorem scans_operand {r : Scan α} {c : Reader α} {P : α → Nat → Nat → Prop} (h : Scans r c P)
    (f : α → Immediate) (hf : ∀ a, (f a).reads = 0) :
    Scans (r >>= fun a => pure (f a)) (c >>= fun a => pure (f a)) fun imm n _ => imm.reads ≤ n := by
  refine h.bind fun a n k _ _ => scans_pure ?_
  rw [hf]
  exact Nat.zero_le _

theorem scans_immediate (op : Opcode) :
    Scans (Reader.immediate op) (Reader.immediate op) fun imm n _ => imm.reads ≤ n := by
  cases op with
  | br | brIf | call | localGet | localSet | localTee | globalGet | globalSet =>
    exact scans_operand scans_u32 _ fun _ => rfl
  | brTable =>
    refine (scans_count scans_u32).bind ?_
    rintro labels n k - ⟨hlabels, -⟩
    refine scans_u32.bind fun default _ _ _ _ => scans_pure ?_
    rw [Immediate.reads]
    omega
  | callIndirect =>
    refine scans_u32.bind fun type _ _ _ _ => ?_
    exact (scans_zeroByte _).bind fun _ _ _ _ _ => scans_pure (Nat.zero_le _)
  | memorySize | memoryGrow =>
    exact (scans_zeroByte _).bind fun _ _ _ _ _ => scans_pure (Nat.zero_le _)
  | const t =>
    cases t with
    | i32 => exact scans_operand (scans_number carries_i32 ⟨_, rfl⟩) _ fun _ => rfl
    | i64 => exact scans_operand (scans_number carries_i64 ⟨_, rfl⟩) _ fun _ => rfl
    | f32 => exact scans_operand (scans_number carries_f32 ⟨_, rfl⟩) _ fun _ => rfl
    | f64 => exact scans_operand (scans_number carries_f64 ⟨_, rfl⟩) _ fun _ => rfl
  | truncSat =>
    refine scans_offset fun start => scans_u32.bind fun code _ _ _ _ => ?_
    cases TruncSat.ofCode? code with
    | none => exact scans_throw _
    | some t => exact scans_pure (Nat.zero_le _)
  | load | loadPart | store | storePart =>
    refine scans_u32.bind fun align _ _ _ _ => ?_
    exact scans_u32.bind fun offset _ _ _ _ => scans_pure (Nat.zero_le _)
  | _ => exact scans_pure (Nat.zero_le _)

/-- For a sequence there is one read more than for its instructions, that of the byte that closes
it. -/
def Closes (p : Expr × Terminator) (n _k : Nat) : Prop :=
  Expr.reads p.1 < n

variable {r : Scan (Expr × Terminator)} {c : Reader (Expr × Terminator)}

theorem Scans.closedBy (h : Scans r c Closes) :
    Scans (Reader.closedBy r) (Reader.closedBy c) fun e n _ => Expr.reads e < n := by
  refine scans_offset fun start => h.bind fun p n k _ hp => ?_
  rcases p with ⟨e, _ | _⟩
  · exact scans_pure hp
  · exact scans_throw _

theorem scans_instrAfter (h : Scans r c Closes) (op : Opcode) :
    Scans (Reader.instrAfter r op) (Reader.instrAfter c op) fun i n _ => i.reads ≤ n + 1 := by
  cases op with
  | block | loop =>
    refine scans_blockType.bind fun type n₁ k₁ _ _ => ?_
    refine h.closedBy.bind fun body n₂ k₂ _ hbody => scans_pure ?_
    rw [Instr.reads]
    omega
  | ifElse =>
    refine scans_blockType.bind fun type n₁ k₁ _ _ => ?_
    refine h.bind fun p n₂ k₂ _ hp => ?_
    rcases p with ⟨thenBody, _ | _⟩
    · replace hp : Expr.reads thenBody < n₂ := hp
      refine scans_pure ?_
      rw [Instr.reads, Expr.reads]
      omega
    · replace hp : Expr.reads thenBody < n₂ := hp
      refine h.closedBy.bind fun elseBody n₃ k₃ _ helse => scans_pure ?_
      rw [Instr.reads]
      omega
  | _ =>
    refine (scans_immediate _).map fun imm n k _ himm => ?_
    rw [Instr.reads]
    omega

/-- What is read for the instruction of a round, if it is one. -/
def roundReads : Terminator ⊕ Instr → Nat :=
  Sum.elim (fun _ => 0) Instr.reads

theorem scans_round (h : Scans r c Closes) :
    Scans (Reader.round r) (Reader.round c) (Counts roundReads) := by
  refine scans_offset fun start => ?_
  refine scans_byte.bind ?_
  rintro b n₁ k₁ - ⟨rfl, hb⟩
  have hclosed (t : Terminator) : roundReads (.inl t) ≤ 0 + 0 + 1 ∧ 0 + 0 < k₁ + 0 :=
    ⟨Nat.zero_le _, hb⟩
  refine scans_ite (fun _ => scans_pure (hclosed _)) fun _ => ?_
  refine scans_ite (fun _ => scans_pure (hclosed _)) fun _ => ?_
  cases Opcode.ofByte? b with
  | none => exact scans_throw _
  | some op =>
    refine (scans_instrAfter h op).bind ?_
    rintro i n₂ k₂ hle hi
    refine scans_pure ⟨?_, by omega⟩
    show i.reads ≤ _
    omega

theorem scans_instrs (fuel : Nat) : Scans (Reader.instrs fuel) (Reader.instrs fuel) Closes := by
  induction fuel with
  | zero => exact scans_offset fun start => scans_throw _
  | succ fuel ih =>
    have hround : Scans (Scan.noted (Reader.round (Scan.instrs fuel)))
        (Reader.round (Reader.instrs fuel)) _ :=
      (scans_round ih).noted fun _ _ _ hp => hp.2
    refine hround.bind ?_
    rintro (t | i) _ k₁ - ⟨n₁, rfl, hp⟩
    · refine scans_pure ?_
      show 0 < n₁ + 1 + 0
      omega
    · refine ih.bind fun p n₂ k₂ _ hrest => scans_pure ?_
      have hi : i.reads ≤ n₁ + 1 := hp.1
      rw [Closes] at hrest ⊢
      rw [Expr.reads]
      omega

theorem scans_closedSequence :
    Scans Reader.closedSequence Reader.closedSequence fun e n _ => Expr.reads e < n :=
  scans_remaining fun rest => (scans_instrs (rest + 1)).closedBy

/-! ### Entries of sections -/

theorem scans_funcType :
    Scans Reader.funcType Reader.funcType (Counts FuncType.reads) := by
  refine scans_offset fun start => ?_
  refine scans_byte.bind ?_
  rintro tag n₁ k₁ - ⟨rfl, htag⟩
  refine scans_guard fun _ => ?_
  refine (scans_count scans_valueType).bind ?_
  rintro params n₂ k₂ - ⟨hparams, hk₂⟩
  refine (scans_count scans_valueType).bind ?_
  rintro results n₃ k₃ - ⟨hresults, hk₃⟩
  refine scans_pure ⟨?_, by omega⟩
  show 1 + params.length + results.length ≤ _
  omega

/-- A byte that has no meaning. -/
theorem scans_refused {r : Scan α} {c : Reader α} {P : α → Nat → Nat → Prop} {e : Error}
    (hr : r = throw e) (hc : c = throw e) : Scans r c P := by
  rw [hr, hc]
  exact scans_throw e

theorem scans_limits : Scans Reader.limits Reader.limits fun _ n k => n = 0 ∧ 0 < k := by
  refine scans_offset fun start => ?_
  refine scans_byte.bind ?_
  rintro flag n₁ k₁ - ⟨rfl, hflag⟩
  by_cases h₀ : flag = 0x00
  · subst h₀
    refine scans_u32.bind ?_
    rintro min n₂ k₂ - ⟨rfl, -⟩
    exact scans_pure ⟨rfl, by omega⟩
  by_cases h₁ : flag = 0x01
  · subst h₁
    refine scans_u32.bind ?_
    rintro min n₂ k₂ - ⟨rfl, -⟩
    refine scans_u32.bind ?_
    rintro max n₃ k₃ - ⟨rfl, -⟩
    exact scans_pure ⟨rfl, by omega⟩
  exact scans_refused (by split <;> first | contradiction | rfl)
    (by split <;> first | contradiction | rfl)

theorem scans_tableType : Scans Reader.tableType Reader.tableType fun _ n k => n = 0 ∧ 0 < k := by
  refine scans_offset fun start => ?_
  refine scans_byte.bind ?_
  rintro element n₁ k₁ - ⟨rfl, helement⟩
  refine scans_guard fun _ => ?_
  refine scans_limits.bind ?_
  rintro limits n₂ k₂ - ⟨rfl, -⟩
  exact scans_pure ⟨rfl, by omega⟩

theorem scans_globalType :
    Scans Reader.globalType Reader.globalType fun _ n k => n = 0 ∧ 0 < k := by
  refine scans_valueType.bind ?_
  rintro type n₁ k₁ - ⟨rfl, htype⟩
  refine scans_offset fun start => ?_
  refine scans_byte.bind ?_
  rintro flag n₂ k₂ - ⟨rfl, -⟩
  by_cases h₀ : flag = 0x00
  · subst h₀
    exact scans_pure ⟨rfl, by omega⟩
  by_cases h₁ : flag = 0x01
  · subst h₁
    exact scans_pure ⟨rfl, by omega⟩
  exact scans_refused (by split <;> first | contradiction | rfl)
    (by split <;> first | contradiction | rfl)

theorem scans_imported :
    Scans Reader.imported Reader.imported fun i n k => n = 0 ∧ i.payload < k := by
  refine scans_name.bind ?_
  rintro module n₁ k₁ - ⟨rfl, hmodule⟩
  refine scans_name.bind ?_
  rintro member n₂ k₂ - ⟨rfl, hmember⟩
  refine scans_offset fun start => ?_
  refine scans_byte.bind ?_
  rintro kind n₃ k₃ - ⟨rfl, -⟩
  have hdesc {r : Scan ImportDesc} {c : Reader ImportDesc}
      (h : Scans r c fun _ n k => n = 0 ∧ 0 < k) :
      Scans (r >>= fun desc => pure (⟨module, member, desc⟩ : Import))
        (c >>= fun desc => pure (⟨module, member, desc⟩ : Import))
        fun i n k => 0 + (0 + (0 + n)) = 0 ∧ i.payload < k₁ + (k₂ + (k₃ + k)) := by
    refine h.bind ?_
    rintro desc n₄ k₄ - ⟨rfl, -⟩
    refine scans_pure ⟨rfl, ?_⟩
    show module.utf8ByteSize + member.utf8ByteSize < _
    omega
  by_cases h₀ : kind = 0x00
  · subst h₀
    exact hdesc (scans_u32.map fun _ _ _ _ h => h)
  by_cases h₁ : kind = 0x01
  · subst h₁
    exact hdesc (scans_tableType.map fun _ _ _ _ h => h)
  by_cases h₂ : kind = 0x02
  · subst h₂
    exact hdesc (scans_limits.map fun _ _ _ _ h => h)
  by_cases h₃ : kind = 0x03
  · subst h₃
    exact hdesc (scans_globalType.map fun _ _ _ _ h => h)
  dsimp only
  exact scans_refused (by split <;> first | contradiction | rfl)
    (by split <;> first | contradiction | rfl)

theorem scans_exported :
    Scans Reader.exported Reader.exported fun e n k => n = 0 ∧ e.payload < k := by
  refine scans_name.bind ?_
  rintro member n₁ k₁ - ⟨rfl, hmember⟩
  refine scans_offset fun start => ?_
  refine scans_byte.bind ?_
  rintro kind n₂ k₂ - ⟨rfl, -⟩
  have hindex (kind : ExternKind) : Scans
      (liftM Reader.u32 >>= fun index => pure (⟨member, kind, index⟩ : Export))
      (liftM Reader.u32 >>= fun index => pure (⟨member, kind, index⟩ : Export))
      fun e n k => 0 + (0 + n) = 0 ∧ e.payload < k₁ + (k₂ + k) := by
    refine scans_u32.bind ?_
    rintro index n₃ k₃ - ⟨rfl, -⟩
    refine scans_pure ⟨rfl, ?_⟩
    show member.utf8ByteSize < _
    omega
  by_cases h₀ : kind = 0x00
  · subst h₀
    exact hindex .func
  by_cases h₁ : kind = 0x01
  · subst h₁
    exact hindex .table
  by_cases h₂ : kind = 0x02
  · subst h₂
    exact hindex .memory
  by_cases h₃ : kind = 0x03
  · subst h₃
    exact hindex .global
  dsimp only
  exact scans_refused (by split <;> first | contradiction | rfl)
    (by split <;> first | contradiction | rfl)

theorem scans_global : Scans Reader.global Reader.global (Counts Global.reads) := by
  refine scans_globalType.bind ?_
  rintro type n₁ k₁ - ⟨rfl, htype⟩
  refine (scans_closedSequence.within _).bind ?_
  rintro init n₂ k₂ hle hinit
  refine scans_pure ⟨?_, by omega⟩
  show 1 + Expr.reads init ≤ _
  omega

theorem scans_element : Scans Reader.element Reader.element (Counts Element.reads) := by
  refine scans_u32.bind ?_
  rintro table n₁ k₁ - ⟨rfl, htable⟩
  refine (scans_closedSequence.within _).bind ?_
  rintro start n₂ k₂ hle hstart
  refine (scans_count scans_u32).bind ?_
  rintro funcs n₃ k₃ hle' ⟨hfuncs, -⟩
  refine scans_pure ⟨?_, by omega⟩
  show 1 + Expr.reads start + funcs.length ≤ _
  omega

theorem scans_data : Scans Reader.data Reader.data (Pays Data.reads Data.payload) := by
  refine scans_u32.bind ?_
  rintro memory n₁ k₁ - ⟨rfl, hmemory⟩
  refine (scans_closedSequence.within _).bind ?_
  rintro start n₂ k₂ hle hstart
  refine scans_u32.bind ?_
  rintro length n₃ k₃ - ⟨rfl, -⟩
  refine (scans_bytes _).bind ?_
  rintro bs n₄ k₄ - ⟨rfl, hbs⟩
  refine scans_pure ⟨?_, ?_⟩
  · show 1 + Expr.reads start ≤ _
    omega
  · show _ + bs.length < _
    omega

theorem scans_locals : Scans Reader.locals Reader.locals fun _ n k => n = 0 ∧ 0 < k := by
  refine scans_u32.bind ?_
  rintro count n₁ k₁ - ⟨rfl, hcount⟩
  refine scans_valueType.bind ?_
  rintro type n₂ k₂ - ⟨rfl, -⟩
  exact scans_pure ⟨rfl, by omega⟩

theorem scans_code : Scans Reader.code Reader.code (Counts Code.reads) := by
  refine scans_u32.bind ?_
  rintro size n₁ k₁ - ⟨rfl, hsize⟩
  refine scans_offset fun start => scans_remaining fun rest => scans_guard fun _ => ?_
  refine (scans_count scans_locals).bind ?_
  rintro runs n₂ k₂ hle ⟨hruns, -⟩
  refine scans_guard fun _ => ?_
  refine scans_closedSequence.bind ?_
  rintro body n₃ k₃ hle' hbody
  refine scans_offset fun stop => scans_guard fun _ => scans_pure ⟨?_, by omega⟩
  show 1 + runs.length + Expr.reads body ≤ _
  omega

/-! ### Sections -/

/-- A module has more than another by what has been read, and by the payload that has been taken. -/
def Gains (m m' : Module) (n k : Nat) : Prop :=
  m'.reads ≤ m.reads + n ∧ n + m'.payload ≤ m.payload + k

theorem Gains.trans {m m' m'' : Module} {n n' k k' : Nat} (h : Gains m m' n k)
    (h' : Gains m' m'' n' k') : Gains m m'' (n + n') (k + k') := by
  obtain ⟨hreads, hpayload⟩ := h
  obtain ⟨hreads', hpayload'⟩ := h'
  exact ⟨by omega, by omega⟩

/-- A field of the module is replaced. -/
theorem scans_filled {r : Scan α} {c : Reader α} {reads payload : α → Nat} {m : Module}
    {put : α → Module} (h : Scans r c fun a n k => reads a ≤ n ∧ n + payload a < k)
    (hreads : ∀ a, (put a).reads ≤ m.reads + reads a)
    (hpayload : ∀ a, (put a).payload ≤ m.payload + payload a) :
    Scans (r >>= fun a => pure (put a)) (c >>= fun a => pure (put a)) (Gains m) := by
  refine h.bind ?_
  rintro a n k - ⟨ha, ha'⟩
  have hr := hreads a
  have hp := hpayload a
  exact scans_pure ⟨by omega, by omega⟩

theorem scans_sectionContent (id : UInt8) (m : Module) :
    Scans (Reader.sectionContent id m) (Reader.sectionContent id m) (Gains m) := by
  by_cases hid : Known id
  -- Imports and exports have names, and data have bytes; the other known sections have no payload.
  · rcases known_cases hid with rfl | rfl | rfl | rfl | rfl | rfl | rfl | rfl | rfl | rfl | rfl
    · refine scans_filled (scans_list scans_funcType.pays) (fun l => ?_)
        fun l => Nat.le_add_right ..
      simp only [Module.reads]
      omega
    · refine scans_filled (scans_count scans_imported) (fun l => ?_) fun l => ?_
      · simp only [Module.reads]
        omega
      · simp only [Module.payload]
        omega
    · refine scans_filled (scans_count scans_u32) (fun l => ?_) fun l => Nat.le_add_right ..
      simp only [Module.reads]
      omega
    · refine scans_filled (scans_count scans_tableType) (fun l => ?_) fun l => Nat.le_add_right ..
      simp only [Module.reads]
      omega
    · refine scans_filled (scans_count scans_limits) (fun l => ?_) fun l => Nat.le_add_right ..
      simp only [Module.reads]
      omega
    · refine scans_filled (scans_list scans_global.pays) (fun l => ?_)
        fun l => Nat.le_add_right ..
      simp only [Module.reads]
      omega
    · refine scans_filled (scans_count scans_exported) (fun l => ?_) fun l => ?_
      · simp only [Module.reads]
        omega
      · simp only [Module.payload]
        omega
    · refine scans_u32.bind ?_
      rintro f n k - ⟨rfl, -⟩
      refine scans_pure ⟨Nat.le_add_right .., ?_⟩
      show 0 + 0 + m.payload ≤ m.payload + (k + 0)
      omega
    · refine scans_filled (scans_list scans_element.pays) (fun l => ?_)
        fun l => Nat.le_add_right ..
      simp only [Module.reads]
      omega
    · refine scans_filled (scans_numberedList fun index => scans_code.pays.within _) (fun l => ?_)
        fun l => Nat.le_add_right ..
      simp only [Module.reads]
      omega
    · refine scans_filled (scans_list scans_data) (fun l => ?_) fun l => ?_
      · simp only [Module.reads]
        omega
      · simp only [Module.payload]
        omega
  · rw [sectionContent_of_unknown hid, sectionContent_of_unknown hid]
    exact scans_offset fun start => scans_throw _

theorem scans_custom (size : Nat) :
    Scans (Reader.custom size) (Reader.custom size) fun x n k => n = 0 ∧ x.payload ≤ k := by
  refine scans_offset fun start => ?_
  refine (scans_name.within _).bind ?_
  rintro title n₁ k₁ - ⟨rfl, htitle⟩
  refine scans_offset fun stop => scans_guard fun _ => ?_
  refine (scans_bytes _).bind ?_
  rintro bs n₂ k₂ - ⟨rfl, hbs⟩
  refine scans_pure ⟨rfl, ?_⟩
  show title.utf8ByteSize + bs.length ≤ _
  omega

/-- A custom section is put after those before. -/
theorem gains_custom {m : Module} {x : Custom} {n k : Nat} (hn : n = 0) (hx : x.payload ≤ k) :
    Gains m { m with customs := m.customs ++ [x] } n k := by
  refine ⟨Nat.le_add_right .., ?_⟩
  simp only [Module.payload, List.map_append, List.sum_append, List.map_singleton,
    List.sum_singleton]
  omega

theorem scans_oneSection (last : UInt8) (m : Module) :
    Scans (Reader.oneSection last m) (Reader.oneSection last m)
      fun p n k => 2 ≤ k ∧ Gains m p.2 n k := by
  refine scans_offset fun header => ?_
  refine scans_byte.bind ?_
  rintro id n₁ k₁ - ⟨rfl, hid⟩
  refine scans_guard fun _ => scans_guard fun _ => ?_
  refine scans_u32.bind ?_
  rintro size n₂ k₂ - ⟨rfl, hsize⟩
  refine scans_offset fun start => scans_remaining fun rest => scans_guard fun _ => ?_
  -- Whatever the content is, what has been read for it is all that is read for the section.
  have hclosed {m' : Module} {n k : Nat} (h : Gains m m' n k) :
      2 ≤ k₁ + (k₂ + (k + 0)) ∧ Gains m m' (0 + (0 + (n + 0))) (k₁ + (k₂ + (k + 0))) := by
    obtain ⟨hreads, hpayload⟩ := h
    exact ⟨by omega, by omega, by omega⟩
  refine scans_ite (fun _ => ?_) fun _ => ?_
  · refine (scans_custom size.toNat).bind ?_
    rintro x n₃ k₃ - ⟨hn₃, hx⟩
    refine scans_pure_bind (scans_offset fun stop => scans_guard fun _ => scans_pure ?_)
    exact hclosed (gains_custom hn₃ hx)
  · refine ((scans_sectionContent id m).within _).bind ?_
    rintro m' n₃ k₃ - hm'
    exact scans_offset fun stop => scans_guard fun _ => scans_pure (hclosed hm')

theorem scans_sections (fuel : Nat) (last : UInt8) (m : Module) :
    Scans (Reader.sections fuel last m) (Reader.sections fuel last m) (Gains m) := by
  induction fuel generalizing last m with
  | zero => exact scans_pure ⟨Nat.le_refl _, by omega⟩
  | succ fuel ih =>
    refine scans_remaining fun rest => ?_
    refine scans_ite (fun _ => scans_pure ⟨Nat.le_refl _, by omega⟩) fun _ => ?_
    refine (scans_oneSection last m).bind ?_
    rintro ⟨last', m'⟩ n₁ k₁ - ⟨-, hm'⟩
    refine (ih last' m').mono ?_
    rintro m'' n₂ k₂ - hm''
    exact hm'.trans hm''

theorem scans_module :
    Scans Reader.module Reader.module fun m n k => m.reads ≤ n ∧ n + m.payload ≤ k := by
  have hfixed : Scans (liftM Reader.u32Fixed) (liftM Reader.u32Fixed)
      fun _ n k => n = 0 ∧ 0 < k :=
    scans_number carries_u32Fixed ⟨_, rfl⟩
  refine hfixed.bind ?_
  rintro found n₁ k₁ - ⟨rfl, -⟩
  refine scans_guard fun _ => hfixed.bind ?_
  rintro found' n₂ k₂ - ⟨rfl, -⟩
  refine scans_guard fun _ => scans_remaining fun rest => ?_
  refine (scans_sections rest customId {}).mono ?_
  rintro m n₃ k₃ - hm
  obtain ⟨hreads, hpayload⟩ : m.reads ≤ 0 + n₃ ∧ n₃ + m.payload ≤ 0 + k₃ := hm
  exact ⟨by omega, by omega⟩

end Wasm.Binary
