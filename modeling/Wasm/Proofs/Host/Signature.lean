import Mathlib.Data.List.DropRight
import Mathlib.Data.List.Forall2
import Wasm.Host.Signature

/-!
# The grammar of signatures

A signature is a name, the parameter types and the result types, with an arrow between the two lists
and white space around all parts.  The parser looks for parentheses and takes white space off the
ends of what it finds between them; it accepts exactly what the grammar derives (`Writes`), and
gives the name and the type.  Each of its functions has one lemma that says when it succeeds.  What
keeps the two together is that neither a name nor a list has a parenthesis, so that the first one
found is the right one.
-/

namespace Wasm

namespace Text

/-- The code points that Unicode gives the property `White_Space`. -/
def whiteSpace : List Nat :=
  [0x09, 0x0a, 0x0b, 0x0c, 0x0d, 0x20, 0x85, 0xa0, 0x1680, 0x2000, 0x2001, 0x2002, 0x2003, 0x2004,
    0x2005, 0x2006, 0x2007, 0x2008, 0x2009, 0x200a, 0x2028, 0x2029, 0x202f, 0x205f, 0x3000]

/-- A character of white space. -/
def IsWhiteSpace (c : Char) : Prop :=
  c.toNat ∈ whiteSpace

instance (c : Char) : Decidable (IsWhiteSpace c) :=
  inferInstanceAs (Decidable (c.toNat ∈ whiteSpace))

/-- What the parser takes off the ends of a text is white space. -/
theorem isBlank_iff {c : Char} : isBlank c = true ↔ IsWhiteSpace c := by
  simp only [isBlank, IsWhiteSpace, whiteSpace, List.mem_cons, List.not_mem_nil, Bool.or_eq_true,
    Bool.and_eq_true, decide_eq_true_eq, beq_iff_eq, or_false]
  omega

/-- A run of white space. -/
def Blank (s : List Char) : Prop :=
  ∀ c ∈ s, IsWhiteSpace c

theorem Blank.forall_isBlank {s : List Char} (h : Blank s) : ∀ c ∈ s, isBlank c = true :=
  fun c hc => isBlank_iff.mpr (h c hc)

/-- The text `s` is `t` with white space around it. -/
def Padded (t s : List Char) : Prop :=
  ∃ before after, Blank before ∧ Blank after ∧ s = before ++ t ++ after

/-- A text that is not empty and neither begins nor ends with white space. -/
structure Solid (t : List Char) : Prop where
  ne_nil : t ≠ []
  head : ¬IsWhiteSpace (t.head ne_nil)
  getLast : ¬IsWhiteSpace (t.getLast ne_nil)

variable {s t before after : List Char}

theorem Blank.append (hbefore : Blank before) (hafter : Blank after) : Blank (before ++ after) := by
  intro c hc
  rcases List.mem_append.mp hc with h | h
  · exact hbefore c h
  · exact hafter c h

theorem Padded.append (h : Padded t s) (hbefore : Blank before) (hafter : Blank after) :
    Padded t (before ++ s ++ after) := by
  obtain ⟨before', after', hbefore', hafter', rfl⟩ := h
  refine ⟨before ++ before', after' ++ after, hbefore.append hbefore', hafter'.append hafter, ?_⟩
  simp only [List.append_assoc]

theorem padded_refl (t : List Char) : Padded t t :=
  ⟨[], [], by simp [Blank], by simp [Blank], by simp⟩

/-- A character that is not white space belongs to the text inside. -/
theorem Padded.mem {c : Char} (h : Padded t s) (hc : c ∈ s) (hblank : ¬IsWhiteSpace c) :
    c ∈ t := by
  obtain ⟨before, after, hbefore, hafter, rfl⟩ := h
  simp only [List.mem_append] at hc
  rcases hc with (hc | hc) | hc
  · exact absurd (hbefore c hc) hblank
  · exact hc
  · exact absurd (hafter c hc) hblank

theorem Padded.mem_of_mem {c : Char} (h : Padded t s) (hc : c ∈ t) : c ∈ s := by
  obtain ⟨before, after, -, -, rfl⟩ := h
  simp [hc]

/-- A text without white space. -/
theorem solid_of_forall (hne : t ≠ []) (h : ∀ c ∈ t, ¬IsWhiteSpace c) : Solid t :=
  ⟨hne, h _ (List.head_mem hne), h _ (List.getLast_mem hne)⟩

theorem solid_singleton {c : Char} (h : ¬IsWhiteSpace c) : Solid [c] :=
  ⟨by simp, h, h⟩

/-- It does not matter what is between the first and the last part. -/
theorem Solid.append (ht : Solid t) (hs : Solid s) (inner : List Char) :
    Solid (t ++ (inner ++ s)) := by
  refine ⟨by simp [ht.ne_nil], ?_, ?_⟩
  · rw [List.head_append_left ht.ne_nil]
    exact ht.head
  · rw [List.getLast_append_right (by simp [hs.ne_nil]), List.getLast_append_right hs.ne_nil]
    exact hs.getLast

/-- A text from something solid to a closing parenthesis. -/
theorem Solid.append_paren (h : Solid t) (inner : List Char) :
    Solid (t ++ (inner ++ [')'])) :=
  h.append (solid_singleton (by decide)) inner

theorem Padded.not_blank (h : Padded t s) (ht : Solid t) : ¬Blank s := by
  obtain ⟨before, after, -, -, rfl⟩ := h
  intro hblank
  exact ht.head (hblank _ (by simp [List.head_mem]))

/-! ### Taking white space off -/

theorem exists_trimLeft (s : List Char) : ∃ before, Blank before ∧ s = before ++ trimLeft s :=
  ⟨s.takeWhile isBlank, fun _ hc => isBlank_iff.mp (List.mem_takeWhile_imp hc),
    List.takeWhile_append_dropWhile.symm⟩

theorem trimLeft_append (h : Blank before) (hne : t ≠ []) (ht : ¬IsWhiteSpace (t.head hne)) :
    trimLeft (before ++ t) = t := by
  rw [trimLeft, List.dropWhile_append_of_pos h.forall_isBlank, List.dropWhile_eq_self_iff]
  intro hlength
  rwa [← isBlank_iff, List.head_eq_getElem hne] at ht

theorem exists_trimRight (s : List Char) : ∃ after, Blank after ∧ s = trimRight s ++ after :=
  ⟨s.rtakeWhile isBlank, fun _ hc => isBlank_iff.mp (List.mem_rtakeWhile_imp hc),
    List.rdropWhile_append_rtakeWhile.symm⟩

theorem trimRight_append (h : Blank after) (hne : t ≠ []) (ht : ¬IsWhiteSpace (t.getLast hne)) :
    trimRight (t ++ after) = t := by
  rw [← isBlank_iff] at ht
  have hblank : ∀ c ∈ after.reverse, isBlank c = true := fun c hc =>
    h.forall_isBlank c (List.mem_reverse.mp hc)
  have hself : t.rdropWhile isBlank = t := List.rdropWhile_eq_self_iff.mpr fun _ => ht
  rw [trimRight, List.reverse_append, List.dropWhile_append_of_pos hblank]
  exact hself

theorem padded_trim (s : List Char) : Padded (trim s) s := by
  obtain ⟨before, hbefore, hleft⟩ := exists_trimLeft s
  obtain ⟨after, hafter, hright⟩ := exists_trimRight (trimLeft s)
  refine ⟨before, after, hbefore, hafter, ?_⟩
  rw [List.append_assoc, trim, ← hright, ← hleft]

theorem trim_of_padded (h : Padded t s) (ht : Solid t) : trim s = t := by
  obtain ⟨before, after, hbefore, hafter, rfl⟩ := h
  have hne : t ++ after ≠ [] := by simp [ht.ne_nil]
  have hhead : ¬IsWhiteSpace ((t ++ after).head hne) := by
    rw [List.head_append_left ht.ne_nil]
    exact ht.head
  rw [trim, List.append_assoc, trimLeft_append hbefore hne hhead,
    trimRight_append hafter ht.ne_nil ht.getLast]

theorem trim_eq_iff (ht : Solid t) : trim s = t ↔ Padded t s := by
  constructor
  · rintro rfl
    exact padded_trim s
  · intro h
    exact trim_of_padded h ht

theorem trim_eq_nil_iff : trim s = [] ↔ Blank s := by
  constructor
  · intro h
    obtain ⟨before, after, hbefore, hafter, hs⟩ := padded_trim s
    rw [h, List.append_nil] at hs
    rw [hs]
    exact hbefore.append hafter
  · intro h
    have hleft : trimLeft s = [] := List.dropWhile_eq_nil_iff.mpr h.forall_isBlank
    rw [trim, hleft]
    rfl

end Text

namespace Signature

open Text

/-! ### The grammar -/

/-- The name of a function: some characters, and none of them white space, a parenthesis or a
hyphen. -/
def IsName (name : List Char) : Prop :=
  name ≠ [] ∧ ∀ c ∈ name, ¬IsWhiteSpace c ∧ c ≠ '(' ∧ c ≠ ')' ∧ c ≠ '-'

/-- Items with commas between them, each the name of a type with white space around it. -/
inductive Items : List Char → List ValueType → Prop
  | last {item : List Char} {t : ValueType} : Padded t.name.toList item → Items item [t]
  | more {item rest : List Char} {t : ValueType} {types : List ValueType} :
      Padded t.name.toList item → Items rest types → Items (item ++ ',' :: rest) (t :: types)

/-- The text of a list of types. -/
inductive Lists : List Char → List ValueType → Prop
  | blank {s : List Char} : Blank s → Lists s []
  | items {s : List Char} {types : List ValueType} : Items s types → Lists s types

/-- The text of a signature: the name, the parameters, the arrow and the results. -/
def Writes (text name : List Char) (type : FuncType) : Prop :=
  ∃ head params arrow results tail, IsName name ∧ Padded name head ∧ Lists params type.params ∧
    Padded ['-', '>'] arrow ∧ Lists results type.results ∧ Blank tail ∧
    text = head ++ '(' :: (params ++ ')' :: (arrow ++ '(' :: (results ++ ')' :: tail)))

variable {s name : List Char} {type : FuncType}

theorem IsName.solid (h : IsName name) : Solid name :=
  solid_of_forall h.1 fun c hc => (h.2 c hc).1

/-! ### Lists of types -/

theorem ofName?_eq_some_iff {t : ValueType} : ValueType.ofName? s = some t ↔ s = t.name.toList := by
  constructor
  · intro h
    simp only [ValueType.ofName?] at h
    split_ifs at h with h₁ h₂ h₃ h₄ <;> cases h <;> assumption
  · rintro rfl
    exact ValueType.ofName?_name t

/-- The characters of the names of types. -/
theorem mem_name {t : ValueType} {c : Char} (h : c ∈ t.name.toList) :
    ¬IsWhiteSpace c ∧ c ≠ ',' ∧ c ≠ ')' := by
  have hall : (t.name.toList.all fun c => !IsWhiteSpace c && c != ',' && c != ')') = true := by
    cases t <;> decide
  simpa [and_assoc] using List.all_eq_true.mp hall c h

theorem solid_name (t : ValueType) : Solid t.name.toList :=
  solid_of_forall (by cases t <;> decide) fun _ hc => (mem_name hc).1

theorem readType_eq_ok_iff {item : List Char} {t : ValueType} :
    readType item = .ok t ↔ Padded t.name.toList item := by
  rw [← trim_eq_iff (solid_name t), ← ofName?_eq_some_iff, readType]
  cases ValueType.ofName? (trim item) <;> simp

theorem parts_eq (s : List Char) : parts s = s.splitOn ',' := by
  induction s with
  | nil => rfl
  | cons c rest ih =>
    rw [parts, List.splitOn_cons_eq_if_modifyHead, ih]
    by_cases hc : c = ','
    · simp [hc]
    · cases hrest : rest.splitOn ',' with
      | nil => exact absurd hrest (List.splitOn_ne_nil _ _)
      | cons part more => simp [hc]

theorem mapM_eq_ok_iff {α β ε : Type} {f : α → Except ε β} {as : List α} {bs : List β} :
    as.mapM f = .ok bs ↔ as.Forall₂ (fun a b => f a = .ok b) bs := by
  induction as generalizing bs with
  | nil =>
    rw [List.mapM_nil, List.forall₂_nil_left_iff]
    show Except.ok [] = .ok bs ↔ _
    simp [eq_comm]
  | cons a as ih =>
    rw [List.mapM_cons]
    cases ha : f a with
    | error e => simp [ha, bind, Except.bind, List.forall₂_cons_left_iff]
    | ok b =>
      cases has : as.mapM f with
      | error e => simp [ha, has, ← ih, bind, Except.bind, List.forall₂_cons_left_iff]
      | ok bs' =>
        simp [ha, has, ← ih, bind, Except.bind, pure, Except.pure, List.forall₂_cons_left_iff,
          eq_comm]

theorem notMem_item {item : List Char} {t : ValueType} (h : Padded t.name.toList item) :
    ',' ∉ item ∧ ')' ∉ item := by
  constructor
  · intro hc
    exact (mem_name (h.mem hc (by decide))).2.1 rfl
  · intro hc
    exact (mem_name (h.mem hc (by decide))).2.2 rfl

theorem items_of_forall₂ {items : List (List Char)} {types : List ValueType} (hne : items ≠ [])
    (h : items.Forall₂ (fun item t => Padded t.name.toList item) types) :
    Items ([','].intercalate items) types := by
  induction h with
  | nil => exact absurd rfl hne
  | @cons item t items types hitem hitems ih =>
    cases hitems with
    | nil =>
      rw [List.intercalate_singleton]
      exact .last hitem
    | cons hitem' hitems' =>
      rw [List.intercalate_cons_cons, List.append_assoc]
      exact .more hitem (ih (by simp))

theorem mapM_parts_eq_ok_iff {types : List ValueType} :
    (parts s).mapM readType = .ok types ↔ Items s types := by
  rw [parts_eq, mapM_eq_ok_iff]
  simp only [readType_eq_ok_iff]
  constructor
  · intro h
    have hitems := items_of_forall₂ (List.splitOn_ne_nil _ _) h
    rwa [List.intercalate_splitOn] at hitems
  · intro h
    induction h with
    | last hitem =>
      rw [List.splitOn_eq_singleton (notMem_item hitem).1]
      exact .cons hitem .nil
    | more hitem _ ih =>
      rw [List.splitOn_append_cons_self_of_not_mem (notMem_item hitem).1]
      exact .cons hitem ih

theorem Items.not_blank {types : List ValueType} (h : Items s types) : ¬Blank s := by
  cases h with
  | last hitem => exact hitem.not_blank (solid_name _)
  | more hitem _ =>
    intro hblank
    exact hitem.not_blank (solid_name _) fun c hc => hblank c (List.mem_append_left _ hc)

theorem readTypes_eq_ok_iff {types : List ValueType} :
    readTypes s = .ok types ↔ Lists s types := by
  have hempty : (trim s).isEmpty = true ↔ Blank s := by rw [List.isEmpty_iff, trim_eq_nil_iff]
  rw [readTypes]
  by_cases hblank : Blank s
  · rw [if_pos (hempty.mpr hblank)]
    constructor
    · intro h
      cases h
      exact .blank hblank
    · intro h
      cases h with
      | blank => rfl
      | items h => exact absurd hblank h.not_blank
  · rw [if_neg (hempty.not.mpr hblank), mapM_parts_eq_ok_iff]
    constructor
    · exact .items
    · intro h
      cases h with
      | blank h => exact absurd h hblank
      | items h => exact h

/-- A list ends before the first parenthesis behind it. -/
theorem Lists.notMem {types : List ValueType} (h : Lists s types) : ')' ∉ s := by
  cases h with
  | blank h =>
    intro hc
    exact absurd (h _ hc) (by decide)
  | items h =>
    induction h with
    | last hitem => exact (notMem_item hitem).2
    | more hitem _ ih => simp [(notMem_item hitem).2, ih]

/-! ### The parser -/

theorem splitAt?_eq_some_iff {c : Char} {before after : List Char} :
    splitAt? c s = some (before, after) ↔ c ∉ before ∧ s = before ++ c :: after := by
  induction s generalizing before with
  | nil => simp [splitAt?]
  | cons d s ih =>
    rw [splitAt?]
    by_cases hd : d = c
    · subst hd
      cases before with
      | nil => simp [eq_comm]
      | cons d' before =>
        simp only [if_true, Option.some.injEq, Prod.mk.injEq, reduceCtorEq, false_and, false_iff]
        rintro ⟨hnot, heq⟩
        cases heq
        simp at hnot
    · simp only [if_neg hd, Option.map_eq_some_iff, Prod.exists]
      constructor
      · rintro ⟨before', after', hsplit, heq⟩
        cases heq
        obtain ⟨hnot, rfl⟩ := ih.mp hsplit
        exact ⟨by simp [hnot, Ne.symm hd], rfl⟩
      · rintro ⟨hnot, heq⟩
        cases before with
        | nil =>
          cases heq
          exact absurd rfl hd
        | cons d' before =>
          cases heq
          rw [List.mem_cons, not_or] at hnot
          exact ⟨before, after, ih.mpr ⟨hnot.2, rfl⟩, rfl⟩

theorem between?_eq_some_iff {first last : Char} {list : List Char} :
    between? first last s = some list ↔ s = first :: (list ++ [last]) := by
  cases s with
  | nil => simp [between?]
  | cons c rest =>
    rw [between?]
    constructor
    · intro h
      split_ifs at h with hc
      cases h
      rw [hc.1, List.dropLast_append_getLast? last hc.2]
    · rintro h
      cases h
      simp

theorem results_eq_ok_iff {list : List Char} :
    results s = .ok list ↔ ∃ arrow tail, Padded ['-', '>'] arrow ∧ Blank tail ∧
      s = arrow ++ '(' :: (list ++ ')' :: tail) := by
  constructor
  · intro h
    obtain ⟨before, hbefore, hs⟩ := exists_trimLeft s
    rw [results] at h
    split at h
    case h_1 rest hleft =>
      obtain ⟨before', tail, hbefore', htail, hrest⟩ := padded_trim rest
      split at h
      · rename_i hbetween
        cases h
        rw [between?_eq_some_iff] at hbetween
        refine ⟨_, tail, ⟨before, before', hbefore, hbefore', rfl⟩, htail, ?_⟩
        rw [hs, hleft, hrest, hbetween]
        simp
      · cases h
    case h_2 => cases h
  · rintro ⟨_, tail, ⟨before, after, hbefore, hafter, rfl⟩, htail, rfl⟩
    have hleft : trimLeft (before ++ ['-', '>'] ++ after ++ '(' :: (list ++ ')' :: tail)) =
        '-' :: '>' :: (after ++ '(' :: (list ++ ')' :: tail)) := by
      simp only [List.append_assoc]
      exact trimLeft_append hbefore (by simp) (show ¬IsWhiteSpace '-' by decide)
    have hpadded : Padded ('(' :: (list ++ [')'])) (after ++ '(' :: (list ++ ')' :: tail)) :=
      ⟨after, tail, hafter, htail, by simp⟩
    have hsolid : Solid ('(' :: (list ++ [')'])) :=
      (solid_singleton (c := '(') (by decide)).append_paren list
    rw [results, hleft]
    simp only
    rw [trim_of_padded hpadded hsolid, between?_eq_some_iff.mpr rfl]

theorem isName_iff :
    IsName name ↔ '(' ∉ name ∧ (name.isEmpty || name.any isForbidden) = false := by
  rw [Bool.or_eq_false_iff, List.isEmpty_eq_false_iff, List.any_eq_false]
  simp only [isForbidden, Bool.or_eq_true, isBlank_iff, beq_iff_eq, not_or, IsName]
  constructor
  · rintro ⟨hne, hall⟩
    refine ⟨fun hc => (hall _ hc).2.1 rfl, hne, fun c hc => ?_⟩
    exact ⟨⟨(hall c hc).1, (hall c hc).2.2.1⟩, (hall c hc).2.2.2⟩
  · rintro ⟨hparen, hne, hall⟩
    refine ⟨hne, fun c hc => ⟨(hall c hc).1.1, ?_, (hall c hc).1.2, (hall c hc).2⟩⟩
    rintro rfl
    exact hparen hc

theorem bind_eq_ok_iff {α β ε : Type} {x : Except ε α} {f : α → Except ε β} {b : β} :
    x >>= f = .ok b ↔ ∃ a, x = .ok a ∧ f a = .ok b := by
  cases x <;> simp [bind, Except.bind]

/-- What the parser has found where it succeeds. -/
theorem exists_of_read (h : read s = .ok (name, type)) : ∃ head params rest list,
    trim s = head ++ '(' :: (params ++ ')' :: rest) ∧ IsName name ∧ Padded name head ∧
      Lists params type.params ∧ results rest = .ok list ∧ Lists list type.results := by
  rw [read] at h
  split at h
  case h_1 => cases h
  case h_2 head rest hhead =>
    obtain ⟨hparen, htrim⟩ := splitAt?_eq_some_iff.mp hhead
    dsimp only at h
    split at h
    case isTrue => cases h
    case isFalse hforbidden =>
      split at h
      case h_1 => cases h
      case h_2 params rest' hparams =>
        obtain ⟨-, rfl⟩ := splitAt?_eq_some_iff.mp hparams
        obtain ⟨list, hlist, h⟩ := bind_eq_ok_iff.mp h
        obtain ⟨paramTypes, hparamTypes, h⟩ := bind_eq_ok_iff.mp h
        obtain ⟨resultTypes, hresultTypes, h⟩ := bind_eq_ok_iff.mp h
        cases h
        have hpadded := padded_trim head
        have hname : '(' ∉ trim head := fun hc => hparen (hpadded.mem_of_mem hc)
        exact ⟨head, params, rest', list, htrim,
          isName_iff.mpr ⟨hname, Bool.eq_false_iff.mpr hforbidden⟩, hpadded,
          readTypes_eq_ok_iff.mp hparamTypes, hlist, readTypes_eq_ok_iff.mp hresultTypes⟩

/-- What the parser accepts has the form of a signature: the white space that it takes off the whole
text stands around the name and behind the results. -/
theorem writes_of_read (h : read s = .ok (name, type)) : Writes s name type := by
  obtain ⟨before, after, hbefore, hafter, hs⟩ := padded_trim s
  obtain ⟨head, params, rest, list, htrim, hname, hhead, hparams, hlist, hresults⟩ :=
    exists_of_read h
  obtain ⟨arrow, tail, harrow, htail, rfl⟩ := results_eq_ok_iff.mp hlist
  have hhead' := hhead.append hbefore (show Blank [] by simp [Blank])
  rw [List.append_nil] at hhead'
  refine ⟨before ++ head, params, arrow, list, tail ++ after, hname, hhead', hparams, harrow,
    hresults, htail.append hafter, ?_⟩
  rw [hs, htrim]
  simp

/-- What has the form of a signature is read as one. -/
theorem read_of_writes (h : Writes s name type) : read s = .ok (name, type) := by
  obtain ⟨_, params, arrow, list, tail, hname, ⟨before, after, hbefore, hafter, rfl⟩, hparams,
    harrow, hlist, htail, rfl⟩ := h
  have htrim : trim (before ++ name ++ after ++
      '(' :: (params ++ ')' :: (arrow ++ '(' :: (list ++ ')' :: tail)))) =
      name ++ after ++ '(' :: (params ++ ')' :: (arrow ++ '(' :: (list ++ [')']))) := by
    have hsolid :=
      hname.solid.append_paren (after ++ '(' :: (params ++ ')' :: (arrow ++ '(' :: list)))
    simp only [List.append_assoc, List.cons_append] at hsolid ⊢
    exact trim_of_padded ⟨before, tail, hbefore, htail, by simp⟩ hsolid
  have hparen : '(' ∉ name ++ after := by
    rw [List.mem_append, not_or]
    exact ⟨(isName_iff.mp hname).1, fun hc => absurd (hafter _ hc) (by decide)⟩
  have hname' : trim (name ++ after) = name :=
    trim_of_padded ⟨[], after, by simp [Blank], hafter, rfl⟩ hname.solid
  have hresults : results (arrow ++ '(' :: (list ++ [')'])) = .ok list :=
    results_eq_ok_iff.mpr ⟨arrow, [], harrow, by simp [Blank], rfl⟩
  rw [read, htrim, splitAt?_eq_some_iff.mpr ⟨hparen, rfl⟩]
  simp only [hname', (isName_iff.mp hname).2, splitAt?_eq_some_iff.mpr ⟨hparams.notMem, rfl⟩,
    Bool.false_eq_true, if_false]
  exact bind_eq_ok_iff.mpr ⟨list, hresults, bind_eq_ok_iff.mpr ⟨type.params,
    readTypes_eq_ok_iff.mpr hparams, bind_eq_ok_iff.mpr ⟨type.results,
      readTypes_eq_ok_iff.mpr hlist, rfl⟩⟩⟩

/-! ### Signatures in text -/

theorem toList_typeListText (types : List ValueType) :
    (typeListText types).toList =
      '(' :: ([','].intercalate (types.map fun t => t.name.toList) ++ [')']) := by
  simp [typeListText, String.toList_append, String.toList_intercalate, Function.comp_def]

theorem lists_intercalate (types : List ValueType) :
    Lists ([','].intercalate (types.map fun t => t.name.toList)) types := by
  cases types with
  | nil => exact .blank (by simp [Blank])
  | cons t types =>
    refine .items (items_of_forall₂ (by simp) ?_)
    rw [List.forall₂_map_left_iff, List.forall₂_same]
    intro t _
    exact padded_refl _

/-- A name and a type as they are displayed. -/
theorem writes_text (h : IsName name) (type : FuncType) :
    Writes (name ++ type.text.toList) name type := by
  refine ⟨name, _, ['-', '>'], _, [], h, padded_refl name, lists_intercalate type.params,
    padded_refl _, lists_intercalate type.results, by simp [Blank], ?_⟩
  simp [FuncType.text, toList_typeListText]

theorem parse_eq_ok_iff {text name : String} :
    parse text = .ok (name, type) ↔ Writes text.toList name.toList type := by
  constructor
  · intro h
    rw [parse] at h
    split at h
    · cases h
      rw [String.toList_ofList]
      exact writes_of_read ‹_›
    · cases h
  · intro h
    rw [parse, read_of_writes h]
    simp

/-- **The parser of signatures is exact.**  A text is read as a name and a type exactly if the
grammar derives it for them, and any other text is an invalid signature; what is displayed of a
function is read back. -/
theorem parse_exact :
    (∀ text name type, parse text = .ok (name, type) ↔ Writes text.toList name.toList type) ∧
      (∀ text, (¬∃ name type, Writes text.toList name type) →
        ∃ e, parse text = .error e ∧ e.code = Code.invalidSignature) ∧
      ∀ (name : String) (type : FuncType), IsName name.toList →
        parse (name ++ type.text) = .ok (name, type) := by
  refine ⟨fun text name type => parse_eq_ok_iff, ?_, ?_⟩
  · intro text h
    cases hparse : parse text with
    | ok p =>
      obtain ⟨name, type⟩ := p
      exact absurd ⟨_, _, parse_eq_ok_iff.mp hparse⟩ h
    | error e =>
      refine ⟨e, rfl, ?_⟩
      rw [parse] at hparse
      split at hparse
      · cases hparse
      · cases hparse
        rfl
  · intro name type h
    rw [parse_eq_ok_iff, String.toList_append]
    exact writes_text h type

/-- A name may hold any other character. -/
theorem parse_add : IsName "add.2,π".toList ∧
    parse "add.2,π(i32,i32)->(f64)" = .ok ("add.2,π", ⟨[.i32, .i32], [.f64]⟩) := by
  have hname : IsName "add.2,π".toList := isName_iff.mpr ⟨by decide, by decide⟩
  exact ⟨hname, parse_exact.2.2 "add.2,π" ⟨[.i32, .i32], [.f64]⟩ hname⟩

-- White space may stand around the arrow, but not inside it.
example : ((parse " f ( i32 , f32 ) -> ( ) ").toOption.map Prod.snd = some ⟨[.i32, .f32], []⟩) ∧
    (parse "f(i32)- >()").toOption = none ∧ (parse "f(i32,)->()").toOption = none := by
  decide

end Signature

end Wasm
