import Mathlib.Data.List.Forall2
import Wasm.Proofs.Safety.Decoded
import Wasm.Proofs.Safety.Validated

/-!
# Trimmed code

After `unreachable`, `br`, `br_table` and `return` control goes elsewhere, so what follows one of
them in its sequence is dead.  `Module.Trims` says that a module is another one with dead code cut
off, after any of these instructions and at any depth.  What is left is typed as it was, because
these instructions leave whatever types are asked for; so a trimmed module is still valid.
-/

namespace Wasm

/-! ### Cutting off dead code -/

/-- Control never passes from the instruction to the next one of its sequence. -/
inductive Instr.Transfers : Instr → Prop where
  | unreachable : Transfers (.plain .unreachable .none)
  | br (depth : UInt32) : Transfers (.plain .br (.index depth))
  | brTable (table : List UInt32) (default : UInt32) :
      Transfers (.plain .brTable (.labels table default))
  | ret : Transfers (.plain .ret .none)

mutual
/-- The second instruction is the first one, with dead code cut off in its bodies. -/
inductive Instr.Trims : Instr → Instr → Prop where
  | plain (op : Opcode) (imm : Immediate) : Instr.Trims (.plain op imm) (.plain op imm)
  | block (op : Opcode) (type : BlockType) {body body' : List Instr}
      (h : Expr.Trims body body') : Instr.Trims (.block op type body) (.block op type body')
  | ifElse (op : Opcode) (type : BlockType) {t t' e e' : List Instr}
      (ht : Expr.Trims t t') (he : Expr.Trims e e') :
      Instr.Trims (.ifElse op type t e) (.ifElse op type t' e')

/-- `Trims` for a sequence, in which what follows a transfer of control may be cut off. -/
inductive Expr.Trims : List Instr → List Instr → Prop where
  | nil : Expr.Trims [] []
  | cons {i i' : Instr} {rest rest' : List Instr} (h : Instr.Trims i i')
      (hrest : Expr.Trims rest rest') : Expr.Trims (i :: rest) (i' :: rest')
  | cut {i : Instr} (h : i.Transfers) (rest : List Instr) : Expr.Trims (i :: rest) [i]
end

/-- The same locals, and a trimmed body. -/
structure Code.Trims (c c' : Code) : Prop where
  locals : c'.locals = c.locals
  body : Expr.Trims c.body c'.body

/-- The second module differs from the first one in nothing but trimmed bodies. -/
structure Module.Trims (m m' : Module) : Prop where
  same : m' = { m with codes := m'.codes }
  codes : List.Forall₂ Code.Trims m.codes m'.codes

mutual
theorem Instr.Trims.refl : ∀ i : Instr, Instr.Trims i i
  | .plain op imm => .plain op imm
  | .block op type body => .block op type (Expr.Trims.refl body)
  | .ifElse op type t e => .ifElse op type (Expr.Trims.refl t) (Expr.Trims.refl e)

theorem Expr.Trims.refl : ∀ e : List Instr, Expr.Trims e e
  | [] => .nil
  | i :: rest => .cons (Instr.Trims.refl i) (Expr.Trims.refl rest)
end

theorem Code.Trims.refl (c : Code) : c.Trims c :=
  ⟨rfl, .refl c.body⟩

theorem Module.Trims.refl (m : Module) : m.Trims m :=
  ⟨rfl, List.forall₂_same.mpr fun c _ => .refl c⟩

/-- Everything after one transfer of control is cut off. -/
theorem Expr.trims_append {i : Instr} (h : i.Transfers) (before after : List Instr) :
    Expr.Trims (before ++ i :: after) (before ++ [i]) := by
  induction before with
  | nil => exact .cut h after
  | cons j before ih => exact .cons (.refl j) ih

theorem Instr.Trims.name_eq {i i' : Instr} (h : Instr.Trims i i') : i'.name = i.name := by
  cases h <;> rfl

mutual
/-- Trimmed instructions carry operands that suit them, if they did before. -/
theorem Instr.Trims.suited {i i' : Instr} (h : Instr.Trims i i') (hi : i.Suited) : i'.Suited := by
  cases h with
  | plain => exact hi
  | block _ _ h =>
    cases hi with
    | block hbody => exact .block (h.suited hbody)
    | loop hbody => exact .loop (h.suited hbody)
  | ifElse _ _ ht he =>
    cases hi with
    | ifElse hthen helse => exact .ifElse (ht.suited hthen) (he.suited helse)

theorem Expr.Trims.suited {e e' : List Instr} (h : Expr.Trims e e') (he : Instr.AllSuited e) :
    Instr.AllSuited e' := by
  cases h with
  | nil => exact he
  | cons h hrest =>
    cases he with
    | cons hi hr => exact .cons (h.suited hi) (hrest.suited hr)
  | cut _ rest =>
    cases he with
    | cons hi _ => exact .cons hi .nil
end

/-! ### Types of trimmed code -/

namespace Typing

/-- The context in the module with other bodies. -/
def Context.recode (Γ : Context) (codes : List Code) : Context :=
  { Γ with module := { Γ.module with codes } }

/-- The types of an instruction without a body do not depend on the bodies of the module. -/
theorem HasType.recode {Γ : Context} {op : Opcode} {imm : Immediate} {ps rs : List ValueType}
    (h : HasType Γ (.plain op imm) ps rs) (codes : List Code) :
    HasType (Γ.recode codes) (.plain op imm) ps rs := by
  cases h with
  | unreachable => exact .unreachable
  | nop => exact .nop
  | br hlabel => exact .br hlabel
  | brIf hlabel => exact .brIf hlabel
  | brTable hdefault htable => exact .brTable hdefault htable
  | ret => exact .ret
  | call hfunc hsig => exact .call hfunc hsig
  | callIndirect htable hsig => exact .callIndirect htable hsig
  | drop => exact .drop
  | select => exact .select
  | localGet hlocal => exact .localGet hlocal
  | localSet hlocal => exact .localSet hlocal
  | localTee hlocal => exact .localTee hlocal
  | globalGet hglobal => exact .globalGet hglobal
  | globalSet hglobal hmutable => exact .globalSet hglobal hmutable
  | memorySize hmemory => exact .memorySize hmemory
  | memoryGrow hmemory => exact .memoryGrow hmemory
  | const => exact .const
  | access hwidth hsig hmemory halign => exact .access hwidth hsig hmemory halign
  | operator hwidth hsig => exact .operator hwidth hsig
  | truncSat => exact .truncSat

/-- A transfer of control takes what it needs from any stack and leaves any other one. -/
theorem HasType.of_transfers {Γ : Context} {i : Instr} {ps rs : List ValueType}
    (htransfers : i.Transfers) (h : HasType Γ i ps rs) (ws us : List ValueType) :
    HasType Γ i (ws ++ ps) us := by
  cases htransfers with
  | unreachable => exact .unreachable
  | br =>
    cases h with
    | br hlabel =>
      rw [← List.append_assoc]
      exact .br hlabel
  | brTable =>
    cases h with
    | brTable hdefault htable =>
      rw [← List.append_assoc, ← List.append_assoc]
      exact .brTable hdefault htable
  | ret =>
    cases h with
    | ret =>
      rw [← List.append_assoc]
      exact .ret
    | operator _ hsig => cases hsig

mutual
/-- A trimmed instruction has the type that it had. -/
theorem HasType.trims {Γ : Context} {i i' : Instr} {ps rs : List ValueType}
    (htrims : Instr.Trims i i') (codes : List Code) (h : HasType Γ i ps rs) :
    HasType (Γ.recode codes) i' ps rs := by
  cases htrims with
  | plain => exact h.recode codes
  | block _ _ hbody' =>
    cases h with
    | block hsig hbody => exact .block hsig (SeqHasType.trims hbody' codes hbody)
    | loop hsig hbody => exact .loop hsig (SeqHasType.trims hbody' codes hbody)
  | ifElse _ _ hthen' helse' =>
    cases h with
    | ifElse hsig hthen helse =>
      exact .ifElse hsig (SeqHasType.trims hthen' codes hthen) (SeqHasType.trims helse' codes helse)

/-- A trimmed sequence has the type that it had: where it ends with a transfer of control, this
takes the whole stack and leaves what the end of the sequence asks for. -/
theorem SeqHasType.trims {Γ : Context} {e e' : Expr} {ts us : List ValueType}
    (htrims : Expr.Trims e e') (codes : List Code) (h : SeqHasType Γ e ts us) :
    SeqHasType (Γ.recode codes) e' ts us := by
  cases htrims with
  | nil =>
    obtain rfl := seqHasType_nil_iff.mp h
    exact .nil
  | cons hfirst' hrest' =>
    obtain ⟨ws, ps, rs, rfl, hfirst, hrest⟩ := seqHasType_cons_iff.mp h
    exact .cons (HasType.trims hfirst' codes hfirst) (SeqHasType.trims hrest' codes hrest)
  | cut htransfers =>
    obtain ⟨ws, ps, rs, rfl, hfirst, -⟩ := seqHasType_cons_iff.mp h
    refine seqHasType_cons_iff.mpr ⟨[], ws ++ ps, us, rfl, ?_, .nil⟩
    cases htransfers with
    | unreachable => exact (hfirst.recode codes).of_transfers .unreachable ws us
    | br depth => exact (hfirst.recode codes).of_transfers (.br depth) ws us
    | brTable table default => exact (hfirst.recode codes).of_transfers (.brTable table default) ws us
    | ret => exact (hfirst.recode codes).of_transfers .ret ws us
end

/-- The body of a trimmed function has the type of the function. -/
theorem CodeHasType.trims {m : Module} {type : FuncType} {code code' : Code} (codes : List Code)
    (hcode : code.Trims code') (h : CodeHasType m type code) :
    CodeHasType { m with codes } type code' := by
  have hlocals : code'.localTypes = code.localTypes := by
    rw [Code.localTypes, Code.localTypes, hcode.locals]
  unfold CodeHasType at h ⊢
  rw [hlocals]
  exact SeqHasType.trims hcode.body codes h

end Typing

/-! ### Trimmed modules are valid -/

namespace Validation

theorem eachFrom_of_forall {α : Type} {check : Nat → α → Except Error Unit} {l : List α}
    (h : ∀ index, ∀ a ∈ l, check index a = .ok ()) (index : Nat) :
    eachFrom check index l = .ok () := by
  induction l generalizing index with
  | nil => rfl
  | cons a rest ih =>
    rw [eachFrom, h index a (List.mem_cons_self ..)]
    exact ih (fun index a ha => h index a (List.mem_cons_of_mem _ ha)) (index + 1)

/-- Nothing but the check of the bodies and their count looks at them. -/
theorem structureOf_recode {m : Module} {codes : List Code} (hlength : codes.length = m.codes.length)
    (h : structureOf m = .ok ()) : structureOf { m with codes } = .ok () := by
  have hexports : ∀ es seen, exportsAfter { m with codes } seen es = exportsAfter m seen es := by
    intro es
    induction es with
    | nil => intro seen; rfl
    | cons e rest ih =>
      intro seen
      unfold exportsAfter
      rw [ih]
      rfl
  have hcount : bodyCount { m with codes } = bodyCount m := by
    unfold bodyCount
    rw [hlength]
  unfold structureOf exports at h ⊢
  rw [hexports, hcount]
  exact h

end Validation

/-- The bodies of the trimmed module, each beside the one it comes from. -/
theorem Module.Trims.exists_code {m m' : Module} (h : m.Trims m') {t : UInt32} {code' : Code}
    (hzip : (t, code') ∈ m.functions.zip m'.codes) :
    ∃ code, (t, code) ∈ m.functions.zip m.codes ∧ code.Trims code' := by
  have hcodes := h.codes
  generalize m.functions = functions at hzip ⊢
  generalize m.codes = codes at hcodes ⊢
  generalize m'.codes = codes' at hcodes hzip
  induction hcodes generalizing functions with
  | nil => simp at hzip
  | @cons c c' _ _ hc _ ih =>
    cases functions with
    | nil => simp at hzip
    | cons t' functions =>
      rw [List.zip_cons_cons] at hzip ⊢
      rcases List.mem_cons.mp hzip with heq | hzip
      · cases heq
        exact ⟨c, List.mem_cons_self .., hc⟩
      · obtain ⟨code, hcode, htrims⟩ := ih functions hzip
        exact ⟨code, List.mem_cons_of_mem _ hcode, htrims⟩

/-- A valid module stays valid when dead code is cut off. -/
theorem Module.Trims.valid {m m' : Module} (h : m.Trims m') (hread : Binary.CodesRead m)
    (hvalid : Validation.module m = .ok ()) : Validation.module m' = .ok () := by
  obtain ⟨hstructure, -⟩ := Validation.and_of_seq hvalid
  have hpassed := Validation.passed_of_module hvalid
  have hlength : m'.codes.length = m.codes.length := h.codes.length_eq.symm
  have hbodies : Validation.bodies { m with codes := m'.codes } = .ok () := by
    refine Validation.eachFrom_of_forall (fun index pair hpair => ?_) _
    obtain ⟨t, code'⟩ := pair
    obtain ⟨code, hcode, htrims⟩ := h.exists_code hpair
    have hsuited : Instr.AllSuited code.body := (hread code (List.of_mem_zip hcode).2).suited
    obtain ⟨type, htype, htyped⟩ := hpassed.codeHasType hcode hsuited
    have htype' : ({ m with codes := m'.codes } : Module).types[t.toNat]? = some type := htype
    have hcheck : Validation.function { m with codes := m'.codes } t code' = .ok () :=
      (Typing.function_at_type htype' (htrims.body.suited hsuited)).mpr
        (htyped.trims m'.codes htrims)
    dsimp only
    rw [hcheck]
    rfl
  rw [h.same]
  unfold Validation.module
  rw [Validation.structureOf_recode hlength hstructure]
  exact hbodies

end Wasm
