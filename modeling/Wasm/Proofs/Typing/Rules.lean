import Mathlib.Algebra.Order.Ring.Int
import Wasm.Module
import Wasm.Validation.Signature

/-!
# The type system of bodies

The declarative rules: an instruction takes some types from the top of the operand stack and leaves
others there, and a sequence is typed by putting its instructions one after another, each on top of
whatever the others left below.  Nothing here says how a body is checked; that the check of
`Wasm.Validation.Function` decides exactly these rules is proved in `Typing/Decision`.

Types are listed in the order in which their values were pushed, so the top of the stack is at the
end of a list.

* `HasType Γ i ps rs`: the instruction takes `ps` and leaves `rs`.
* `SeqHasType Γ is ts us`: the sequence leads from a stack of types `ts` to one of types `us`.

What the rules refer to has its own description here: the three forms of a block type
(`BlockType.Denotes`), how many bytes a load or a store touches (`Opcode.Touches`), and the index
spaces, as lists of what is imported and then of what is defined.  The lookups of the program find
just that.
-/

namespace Wasm

/-! ### Block types -/

/-- The signature that a block type stands for: there are three forms. -/
inductive BlockType.Denotes (types : List FuncType) : BlockType → FuncType → Prop
  | empty : Denotes types .empty ⟨[], []⟩
  | value (t : ValueType) : Denotes types (.value t) ⟨[], [t]⟩
  | index {i : UInt32} {sig : FuncType} (h : types[i.toNat]? = some sig) :
      Denotes types (.index i) sig

theorem BlockType.resolve?_eq_some_iff {type : BlockType} {types : List FuncType}
    {sig : FuncType} : type.resolve? types = some sig ↔ type.Denotes types sig := by
  constructor
  · intro h
    cases type with
    | empty =>
      cases h
      exact .empty
    | value t =>
      cases h
      exact .value t
    | index i => exact .index h
  · rintro (_ | _ | h)
    · rfl
    · rfl
    · exact h

/-! ### Loads and stores -/

/-- The loads and the stores, and how many bytes each touches. -/
inductive Opcode.Touches : Opcode → Nat → Prop
  | loadI32 : Touches (.load .i32) 4
  | loadI64 : Touches (.load .i64) 8
  | loadF32 : Touches (.load .f32) 4
  | loadF64 : Touches (.load .f64) 8
  | loadByte (w : Width) (s : Sign) : Touches (.loadPart w .byte s) 1
  | loadHalf (w : Width) (s : Sign) : Touches (.loadPart w .half s) 2
  | loadWord (s : Sign) : Touches (.loadPart .w64 .word s) 4
  | storeI32 : Touches (.store .i32) 4
  | storeI64 : Touches (.store .i64) 8
  | storeF32 : Touches (.store .f32) 4
  | storeF64 : Touches (.store .f64) 8
  | storeByte (w : Width) : Touches (.storePart w .byte) 1
  | storeHalf (w : Width) : Touches (.storePart w .half) 2
  | storeWord : Touches (.storePart .w64 .word) 4

theorem Opcode.accessBytes?_eq_some_iff {op : Opcode} {width : Nat} :
    op.accessBytes? = some width ↔ op.Touches width := by
  constructor
  · intro h
    cases op with
    | load t =>
      cases h
      cases t <;> constructor
    | loadPart w p s =>
      cases h
      cases p <;> constructor
    | store t =>
      cases h
      cases t <;> constructor
    | storePart w p =>
      cases h
      cases p <;> constructor
    | _ => cases h
  · intro h
    cases h <;> rfl

theorem Opcode.accessBytes?_eq_none_iff {op : Opcode} :
    op.accessBytes? = none ↔ ∀ width, ¬op.Touches width := by
  simp only [Option.eq_none_iff_forall_ne_some, ← accessBytes?_eq_some_iff, ne_eq]

/-! ### Index spaces -/

/-- An entry of an index space is an entry of the list of both parts. -/
theorem Module.entry?_eq {α : Type} (select : ImportDesc → Option α) (defined : List α)
    (imports : List Import) (i : Nat) :
    entry? select (fun k => defined[k]?) imports i =
      (imports.filterMap (fun imp => select imp.desc) ++ defined)[i]? := by
  induction imports generalizing i with
  | nil => rfl
  | cons imp rest ih =>
    unfold entry?
    rw [List.filterMap_cons]
    cases select imp.desc with
    | none => exact ih i
    | some a =>
      cases i with
      | zero => rfl
      | succ i => exact ih i

theorem Module.funcTypeIndex?_eq (m : Module) (x : UInt32) :
    m.funcTypeIndex? x = m.funcTypeIndices[x.toNat]? :=
  entry?_eq ..

theorem Module.globalType?_eq (m : Module) (x : UInt32) :
    m.globalType? x = m.globalTypes[x.toNat]? := by
  rw [globalTypes, importedGlobals, ← entry?_eq]
  simp only [List.getElem?_map]
  rfl

theorem Module.funcType?_eq_some_iff {m : Module} {f : UInt32} {sig : FuncType} :
    m.funcType? f = some sig ↔
      ∃ t, m.funcTypeIndices[f.toNat]? = some t ∧ m.types[t.toNat]? = some sig := by
  rw [funcType?, funcTypeIndex?_eq, Option.bind_eq_some_iff]

namespace Typing

/-! ### The rules -/

/-- What the instructions of a body may refer to. -/
structure Context where
  module : Module
  locals : List ValueType
  /-- What a branch to each enclosing block supplies, the innermost block first. -/
  labels : List (List ValueType)
  /-- What a return supplies. -/
  results : List ValueType

/-- The context inside a block whose label supplies the given types. -/
def Context.enter (Γ : Context) (label : List ValueType) : Context :=
  { Γ with labels := label :: Γ.labels }

/-- The context of the body of a function: the body itself is the outermost block. -/
def Context.ofBody (m : Module) (locals results : List ValueType) : Context :=
  ⟨m, locals, [results], results⟩

@[simp] theorem Context.module_enter (Γ : Context) (label : List ValueType) :
    (Γ.enter label).module = Γ.module := rfl

@[simp] theorem Context.locals_enter (Γ : Context) (label : List ValueType) :
    (Γ.enter label).locals = Γ.locals := rfl

@[simp] theorem Context.results_enter (Γ : Context) (label : List ValueType) :
    (Γ.enter label).results = Γ.results := rfl

@[simp] theorem Context.labels_enter (Γ : Context) (label : List ValueType) :
    (Γ.enter label).labels = label :: Γ.labels := rfl

mutual
/-- The types that an instruction takes and leaves. -/
inductive HasType : Context → Instr → List ValueType → List ValueType → Prop where
  | unreachable {Γ : Context} {ts us : List ValueType} :
      HasType Γ (.plain .unreachable .none) ts us
  | nop {Γ : Context} : HasType Γ (.plain .nop .none) [] []
  | block {Γ : Context} {type : BlockType} {sig : FuncType} {body : Expr}
      (hsig : type.Denotes Γ.module.types sig)
      (hbody : SeqHasType (Γ.enter sig.results) body sig.params sig.results) :
      HasType Γ (.block .block type body) sig.params sig.results
  | loop {Γ : Context} {type : BlockType} {sig : FuncType} {body : Expr}
      (hsig : type.Denotes Γ.module.types sig)
      (hbody : SeqHasType (Γ.enter sig.params) body sig.params sig.results) :
      HasType Γ (.block .loop type body) sig.params sig.results
  | ifElse {Γ : Context} {type : BlockType} {sig : FuncType} {thenBody elseBody : Expr}
      (hsig : type.Denotes Γ.module.types sig)
      (hthen : SeqHasType (Γ.enter sig.results) thenBody sig.params sig.results)
      (helse : SeqHasType (Γ.enter sig.results) elseBody sig.params sig.results) :
      HasType Γ (.ifElse .ifElse type thenBody elseBody) (sig.params ++ [.i32]) sig.results
  | br {Γ : Context} {depth : UInt32} {label ts us : List ValueType}
      (hlabel : Γ.labels[depth.toNat]? = some label) :
      HasType Γ (.plain .br (.index depth)) (ts ++ label) us
  | brIf {Γ : Context} {depth : UInt32} {label : List ValueType}
      (hlabel : Γ.labels[depth.toNat]? = some label) :
      HasType Γ (.plain .brIf (.index depth)) (label ++ [.i32]) label
  | brTable {Γ : Context} {table : List UInt32} {default : UInt32} {label ts us : List ValueType}
      (hdefault : Γ.labels[default.toNat]? = some label)
      (htable : ∀ depth ∈ table, Γ.labels[depth.toNat]? = some label) :
      HasType Γ (.plain .brTable (.labels table default)) (ts ++ label ++ [.i32]) us
  | ret {Γ : Context} {ts us : List ValueType} :
      HasType Γ (.plain .ret .none) (ts ++ Γ.results) us
  | call {Γ : Context} {f t : UInt32} {sig : FuncType}
      (hfunc : Γ.module.funcTypeIndices[f.toNat]? = some t)
      (hsig : Γ.module.types[t.toNat]? = some sig) :
      HasType Γ (.plain .call (.index f)) sig.params sig.results
  | callIndirect {Γ : Context} {t : UInt32} {sig : FuncType}
      (htable : 0 < Γ.module.count .table) (hsig : Γ.module.types[t.toNat]? = some sig) :
      HasType Γ (.plain .callIndirect (.typeIndex t)) (sig.params ++ [.i32]) sig.results
  | drop {Γ : Context} {t : ValueType} : HasType Γ (.plain .drop .none) [t] []
  | select {Γ : Context} {t : ValueType} : HasType Γ (.plain .select .none) [t, t, .i32] [t]
  | localGet {Γ : Context} {x : UInt32} {t : ValueType} (hlocal : Γ.locals[x.toNat]? = some t) :
      HasType Γ (.plain .localGet (.index x)) [] [t]
  | localSet {Γ : Context} {x : UInt32} {t : ValueType} (hlocal : Γ.locals[x.toNat]? = some t) :
      HasType Γ (.plain .localSet (.index x)) [t] []
  | localTee {Γ : Context} {x : UInt32} {t : ValueType} (hlocal : Γ.locals[x.toNat]? = some t) :
      HasType Γ (.plain .localTee (.index x)) [t] [t]
  | globalGet {Γ : Context} {x : UInt32} {type : GlobalType}
      (hglobal : Γ.module.globalTypes[x.toNat]? = some type) :
      HasType Γ (.plain .globalGet (.index x)) [] [type.valueType]
  | globalSet {Γ : Context} {x : UInt32} {type : GlobalType}
      (hglobal : Γ.module.globalTypes[x.toNat]? = some type) (hmutable : type.isMutable = true) :
      HasType Γ (.plain .globalSet (.index x)) [type.valueType] []
  | memorySize {Γ : Context} (hmemory : 0 < Γ.module.count .memory) :
      HasType Γ (.plain .memorySize .none) [] [.i32]
  | memoryGrow {Γ : Context} (hmemory : 0 < Γ.module.count .memory) :
      HasType Γ (.plain .memoryGrow .none) [.i32] [.i32]
  | const {Γ : Context} {v : Value} : HasType Γ (.plain (.const v.type) (.value v)) [] [v.type]
  /-- A load or store. -/
  | access {Γ : Context} {op : Opcode} {arg : MemArg} {width : Nat} {sig : FuncType}
      (hwidth : op.Touches width) (hsig : op.signature? = some sig)
      (hmemory : 0 < Γ.module.count .memory) (halign : 2 ^ arg.align.toNat ≤ width) :
      HasType Γ (.plain op (.memArg arg)) sig.params sig.results
  /-- A numeric operator. -/
  | operator {Γ : Context} {op : Opcode} {sig : FuncType}
      (hwidth : ∀ width, ¬op.Touches width) (hsig : op.signature? = some sig) :
      HasType Γ (.plain op .none) sig.params sig.results
  | truncSat {Γ : Context} {t : TruncSat} :
      HasType Γ (.plain .truncSat (.truncSat t)) t.signature.params t.signature.results

/-- The types of the operand stack before and after a sequence. -/
inductive SeqHasType : Context → Expr → List ValueType → List ValueType → Prop where
  | nil {Γ : Context} {ts : List ValueType} : SeqHasType Γ [] ts ts
  /-- The first instruction works on the top of the stack; `ws` is what lies below. -/
  | cons {Γ : Context} {i : Instr} {rest : Expr} {ws ps rs us : List ValueType}
      (hfirst : HasType Γ i ps rs) (hrest : SeqHasType Γ rest (ws ++ rs) us) :
      SeqHasType Γ (i :: rest) (ws ++ ps) us
end

theorem seqHasType_nil_iff {Γ : Context} {ts us : List ValueType} :
    SeqHasType Γ [] ts us ↔ ts = us := by
  constructor
  · intro h
    cases h
    rfl
  · rintro rfl
    exact .nil

theorem seqHasType_cons_iff {Γ : Context} {i : Instr} {rest : Expr} {ts us : List ValueType} :
    SeqHasType Γ (i :: rest) ts us ↔
      ∃ ws ps rs, ts = ws ++ ps ∧ HasType Γ i ps rs ∧ SeqHasType Γ rest (ws ++ rs) us := by
  constructor
  · intro h
    cases h with
    | @cons _ _ _ ws ps rs _ hfirst hrest => exact ⟨ws, ps, rs, rfl, hfirst, hrest⟩
  · rintro ⟨ws, ps, rs, rfl, hfirst, hrest⟩
    exact .cons hfirst hrest

/-- Sequences one after another. -/
theorem SeqHasType.append {Γ : Context} {e e' : Expr} {ts us vs : List ValueType}
    (h : SeqHasType Γ e ts us) (h' : SeqHasType Γ e' us vs) : SeqHasType Γ (e ++ e') ts vs := by
  induction e generalizing ts with
  | nil =>
    obtain rfl := seqHasType_nil_iff.mp h
    exact h'
  | cons i rest ih =>
    obtain ⟨ws, ps, rs, rfl, hfirst, hrest⟩ := seqHasType_cons_iff.mp h
    exact .cons hfirst (ih hrest)

/-- The body of a function has the type of the function: with the parameters and the declared
locals as locals it leads from the empty stack to the results. -/
def CodeHasType (m : Module) (type : FuncType) (code : Code) : Prop :=
  SeqHasType (.ofBody m (type.params ++ code.localTypes) type.results) code.body [] type.results

end Typing

end Wasm
