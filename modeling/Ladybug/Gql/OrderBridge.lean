import Ladybug.Gql.SortKeyOrder

/-!
# The order of values

A value without objects whose numbers are accepted is classified alike for every caller and has a sort
key; at top level a string is last in the key and needs no end.  The predicates order two values as
their keys are ordered.
-/

namespace Ladybug.Gql

open Except

section

variable {core : Core}

def NumberAccepted (core : Core) (n : JsonNumber core.Double) : Prop :=
  ∃ text, parsedNumberText core n "" = .ok text ∧ Decimal text

mutual

/-- No object at any depth, and only numbers of the set. -/
def JsonVal.Plain (Numbers : JsonNumber core.Double → Prop) : JsonVal core.Double → Prop
  | .num n => Numbers n
  | .arr elements => ElementsPlain Numbers elements
  | .obj _ => False
  | _ => True

def ElementsPlain (Numbers : JsonNumber core.Double → Prop) : List (JsonVal core.Double) → Prop
  | [] => True
  | e :: es => e.Plain Numbers ∧ ElementsPlain Numbers es

end

/-- A number at top level is the text itself, without the spaces around it. -/
def JsonTextAccepted (core : Core) (raw : Bytes) : Prop :=
  match core.stringToJsonNoError raw with
  | none => True
  | some (.num n) => if raw.isEmpty then NumberAccepted core n else Decimal (trimJsonSpace raw)
  | some root => root.Plain (NumberAccepted core)

/-- A value without objects whose numbers are finite and accepted; a list can be serialized. -/
def GqlValue.Accepted : GqlValue core → Prop
  | .json text => JsonTextAccepted core text
  | .string _ => True
  | .bool _ => True
  | .integer _ _ => True
  | .float f => NumberAccepted core (.real (core.toDouble f))
  | .double d => NumberAccepted core (.real d)
  | .list l => core.jsonToString l ≠ [] ∧ JsonTextAccepted core (core.jsonToString l)

def GqlOrderedOperand.Accepted : GqlOrderedOperand core → Prop
  | .number text => Decimal text
  | .array elements => ElementsPlain (NumberAccepted core) elements
  | .object _ => False
  | _ => True

theorem NumberAccepted.text {n : JsonNumber core.Double} (h : NumberAccepted core n) :
    ∃ text, (∀ errorPrefix, parsedNumberText core n errorPrefix = .ok text) ∧ Decimal text := by
  obtain ⟨text, htext, hdecimal⟩ := h
  exact ⟨text, parsedNumberText_anyPrefix htext, hdecimal⟩

theorem numberSortKey_of_decimal {text : Bytes} (h : Decimal text) :
    ∃ key, ∀ errorPrefix, numberSortKey text errorPrefix = .ok key := by
  obtain ⟨parts, hparts⟩ := h.parts
  exact ⟨numberKey parts, fun errorPrefix ↦ numberSortKey_eq_ok.mpr ⟨parts, hparts errorPrefix, rfl⟩⟩

mutual

theorem elementSortKey_of_plain (v : JsonVal core.Double) (h : v.Plain (NumberAccepted core)) :
    ∃ key, ∀ errorPrefix, elementSortKey errorPrefix v = .ok key := by
  cases v with
  | null | bool | str => exact ⟨_, fun _ => rfl⟩
  | obj members => exact absurd h (by unfold JsonVal.Plain; exact id)
  | num n =>
    obtain ⟨text, htext, hdecimal⟩ := h.text
    obtain ⟨key, hkey⟩ := numberSortKey_of_decimal hdecimal
    refine ⟨key, fun errorPrefix => ?_⟩
    exact bind_eq_ok.mpr ⟨text, htext errorPrefix, hkey errorPrefix⟩
  | arr elements =>
    obtain ⟨keys, hkeys⟩ := elementsSortKey_of_plain elements h
    refine ⟨0x63 :: (keys ++ [0x00]), fun errorPrefix => ?_⟩
    unfold elementSortKey
    rw [hkeys errorPrefix]
    rfl

theorem elementsSortKey_of_plain (es : List (JsonVal core.Double))
    (h : ElementsPlain (NumberAccepted core) es) :
    ∃ keys, ∀ errorPrefix, elementsSortKey errorPrefix es = .ok keys := by
  cases es with
  | nil => exact ⟨[], fun _ => rfl⟩
  | cons e es =>
    obtain ⟨key, hkey⟩ := elementSortKey_of_plain e h.1
    obtain ⟨keys, hkeys⟩ := elementsSortKey_of_plain es h.2
    refine ⟨key ++ keys, fun errorPrefix => ?_⟩
    unfold elementsSortKey
    rw [hkey errorPrefix, hkeys errorPrefix]
    rfl

end

variable {operand l r : GqlOrderedOperand core} {x : GqlValue core} {errorPrefix : String}

theorem appendSortKey_of_accepted (h : operand.Accepted) :
    ∃ key, ∀ errorPrefix, appendSortKey operand false errorPrefix = .ok key := by
  cases operand with
  | null | bool | string => exact ⟨_, fun _ => rfl⟩
  | object members => exact h.elim
  | number text => exact numberSortKey_of_decimal h
  | array elements =>
    obtain ⟨keys, hkeys⟩ := elementsSortKey_of_plain elements h
    refine ⟨0x63 :: (keys ++ [0x00]), fun errorPrefix => ?_⟩
    unfold appendSortKey
    simp only [hkeys errorPrefix]
    rfl

theorem classifyJsonText_accepted {raw : Bytes} (h : JsonTextAccepted core raw) :
    ∃ operand : GqlOrderedOperand core,
      (∀ errorPrefix, classifyJsonText raw errorPrefix = .ok operand) ∧ operand.Accepted := by
  unfold JsonTextAccepted at h
  unfold classifyJsonText
  cases hparse : core.stringToJsonNoError raw with
  | none =>
    simp only
    split
    · exact ⟨.bool _, fun _ => rfl, trivial⟩
    · exact ⟨.string raw, fun _ => rfl, trivial⟩
  | some root =>
    rw [hparse] at h
    cases root with
    | null => exact ⟨.null, fun _ => rfl, trivial⟩
    | bool b => exact ⟨.bool b, fun _ => rfl, trivial⟩
    | str text => exact ⟨.string text, fun _ => rfl, trivial⟩
    | arr elements => exact ⟨.array elements, fun _ => rfl, h⟩
    | obj members => exact absurd h (by show ¬JsonVal.Plain _ _; unfold JsonVal.Plain; exact id)
    | num n =>
      simp only at h
      unfold classifyParsedJson
      by_cases hraw : raw.isEmpty = true
      · rw [if_pos hraw] at h
        obtain ⟨text, htext, hdecimal⟩ := h.text
        refine ⟨.number text, fun errorPrefix => ?_, hdecimal⟩
        simp only [hraw, htext errorPrefix]
        rfl
      · rw [if_neg hraw] at h
        obtain ⟨parts, hparts⟩ := h.parts
        refine ⟨.number (trimJsonSpace raw), fun errorPrefix => ?_, h⟩
        simp only [hraw, hparts errorPrefix]
        rfl

theorem classifyOperand_accepted (h : x.Accepted) : ∃ operand : GqlOrderedOperand core,
      (∀ errorPrefix, classifyOperand x errorPrefix = .ok operand) ∧ operand.Accepted := by
  have hreal : ∀ d : core.Double, NumberAccepted core (.real d) →
      ∃ operand : GqlOrderedOperand core, (∀ errorPrefix,
        (realToNumberText core d errorPrefix).map GqlOrderedOperand.number = .ok operand) ∧
          operand.Accepted := by
    intro d hd
    obtain ⟨text, htext, hdecimal⟩ := hd.text
    refine ⟨.number text, fun errorPrefix => ?_, hdecimal⟩
    have hok : realToNumberText core d errorPrefix = .ok text := htext errorPrefix
    rw [hok]
    rfl
  cases x with
  | json text => exact classifyJsonText_accepted h
  | string text => exact ⟨.string text, fun _ => rfl, trivial⟩
  | bool b => exact ⟨.bool b, fun _ => rfl, trivial⟩
  | integer type n => exact ⟨.number (integerText n), fun _ => rfl, integerText_decimal n⟩
  | float f => exact hreal _ h
  | double d => exact hreal d h
  | list l =>
    obtain ⟨hne, h⟩ := h
    obtain ⟨operand, hoperand, haccepted⟩ := classifyJsonText_accepted h
    refine ⟨operand, fun errorPrefix => ?_, haccepted⟩
    unfold classifyOperand
    simp only
    rw [if_neg]
    · exact hoperand errorPrefix
    · rwa [List.isEmpty_iff]

def operandTag (operand : GqlOrderedOperand core) : UInt8 := UInt8.ofNat (0x61 + operand.rank)

theorem compare_operandTag (l r : GqlOrderedOperand core) :
    compare (operandTag l) (operandTag r) = compare l.rank r.rank := by
  cases l <;> cases r <;> rfl

theorem appendSortKey_tag {key : Bytes} (h : appendSortKey operand false errorPrefix = .ok key) :
    ∃ rest, key = operandTag operand :: rest := by
  cases operand with
  | null => exact ⟨[], (ok.inj h).symm⟩
  | bool | string => exact ⟨_, (ok.inj h).symm⟩
  | array elements =>
    obtain ⟨keys, hkeys, rfl⟩ := elementSortKey_arr h
    exact ⟨_, rfl⟩
  | number text =>
    obtain ⟨parts, hparts, rfl⟩ := numberSortKey_eq_ok.mp h
    exact ⟨_, numberKey_eq parts⟩
  | object members => cases h

theorem compareOrderedOperands_of_rank_ne (h : l.rank ≠ r.rank) (errorPrefix : String) :
    compareOrderedOperands l r errorPrefix = .ok (compare l.rank r.rank) := by
  cases l <;> cases r <;> first | rfl | exact absurd rfl h

theorem compareOrderedOperands_key {key key' : Bytes}
    (hl : appendSortKey l false errorPrefix = .ok key)
    (hr : appendSortKey r false errorPrefix = .ok key') (callerPrefix : String) :
    compareOrderedOperands l r callerPrefix = .ok (compare key key') := by
  by_cases hrank : l.rank = r.rank
  · cases l with
    | null =>
      cases r with
      | null =>
        cases hl
        cases hr
        rfl
      | _ => cases hrank
    | bool b =>
      cases r with
      | bool b' =>
        cases hl
        cases hr
        have h := compare_boolKey b b' [] []
        exact congrArg ok (by rw [h]; exact Ordering.then_eq.symm)
      | _ => cases hrank
    | array ls =>
      cases r with
      | array rs =>
        obtain ⟨keys, hkeys, rfl⟩ := elementSortKey_arr hl
        obtain ⟨keys', hkeys', rfl⟩ := elementSortKey_arr hr
        obtain ⟨cmp, hcmp, horder⟩ := compare_elementsSortKey ls rs hkeys hkeys'
        have hvalues : compareJsonValues (.arr ls) (.arr rs) = .ok cmp := hcmp
        unfold compareOrderedOperands
        simp only [hvalues]
        rw [compare_cons_self, horder [] []]
        exact congrArg ok Ordering.then_eq.symm
      | _ => cases hrank
    | string text =>
      cases r with
      | string text' =>
        cases hl
        cases hr
        show ok (compareOperandTexts text text') = ok (compare (0x64 :: text) (0x64 :: text'))
        rw [compare_cons_self, compareOperandTexts_eq]
      | _ => cases hrank
    | number text =>
      cases r with
      | number text' =>
        obtain ⟨cmp, hcmp, horder⟩ := compare_numberSortKey hl hr callerPrefix
        have h := horder [] []
        rw [List.append_nil, List.append_nil] at h
        show compareDecimalTexts text text' callerPrefix = _
        rw [hcmp, h]
        exact congrArg ok Ordering.then_eq.symm
      | _ => cases hrank
    | object members => cases hl
  · rw [compareOrderedOperands_of_rank_ne hrank]
    obtain ⟨rest, rfl⟩ := appendSortKey_tag hl
    obtain ⟨rest', rfl⟩ := appendSortKey_tag hr
    rw [List.compare_cons_cons, compare_operandTag]
    cases hcmp : compare l.rank r.rank with
    | eq => exact absurd (Nat.compare_eq_eq.mp hcmp) hrank
    | lt | gt => rfl

theorem GqlValue.Accepted.key (h : x.Accepted) : ∃ (operand : GqlOrderedOperand core) (key : Bytes),
      (∀ errorPrefix, classifyOperand x errorPrefix = .ok operand) ∧
        ∀ errorPrefix, appendSortKey operand false errorPrefix = .ok key := by
  obtain ⟨operand, hoperand, haccepted⟩ := classifyOperand_accepted h
  obtain ⟨key, hkey⟩ := appendSortKey_of_accepted haccepted
  exact ⟨operand, key, hoperand, hkey⟩

theorem orderPredicate_of_keys {y : GqlValue core} {kx ky : Bytes}
    (hl : ∀ errorPrefix, classifyOperand x errorPrefix = .ok l)
    (hr : ∀ errorPrefix, classifyOperand y errorPrefix = .ok r)
    (hkx : ∀ errorPrefix, appendSortKey l false errorPrefix = .ok kx)
    (hky : ∀ errorPrefix, appendSortKey r false errorPrefix = .ok ky) (op : OrderComparison) :
    orderPredicate op x y = .ok (op.value (compare kx ky)) := by
  unfold orderPredicate
  rw [hl, hr]
  show (compareOrderedOperands l r orderPredicatePrefix >>= fun cmp => .ok (op.value cmp)) = _
  rw [compareOrderedOperands_key (hkx sortKeyPrefix) (hky sortKeyPrefix) orderPredicatePrefix]
  rfl

/-- The byte order of the sort keys of two values is the order of the predicates. -/
theorem sortKey_embeds_order (x y : GqlValue core) (hx : x.Accepted) (hy : y.Accepted) :
    ∃ lhs rhs kx ky, classifyOperand x orderPredicatePrefix = .ok lhs ∧
      classifyOperand y orderPredicatePrefix = .ok rhs ∧
      sortKey x = .ok kx ∧ sortKey y = .ok ky ∧
      compareOrderedOperands lhs rhs orderPredicatePrefix = .ok (compareOperandTexts kx ky) ∧
      ∀ op, orderPredicate op x y = .ok (op.value (compareOperandTexts kx ky)) := by
  obtain ⟨lhs, kx, hlhs, hkx⟩ := hx.key
  obtain ⟨rhs, ky, hrhs, hky⟩ := hy.key
  have hkey : ∀ (v : GqlValue core) (operand : GqlOrderedOperand core) (k : Bytes),
      (∀ errorPrefix, classifyOperand v errorPrefix = .ok operand) →
      (∀ errorPrefix, appendSortKey operand false errorPrefix = .ok k) → sortKey v = .ok k := by
    intro v operand k hv hk
    unfold sortKey
    rw [hv sortKeyPrefix]
    exact hk sortKeyPrefix
  simp only [compareOperandTexts_eq]
  exact ⟨lhs, rhs, kx, ky, hlhs _, hrhs _, hkey x lhs kx hlhs hkx, hkey y rhs ky hrhs hky,
    compareOrderedOperands_key (hkx sortKeyPrefix) (hky sortKeyPrefix) orderPredicatePrefix,
    fun op => orderPredicate_of_keys hlhs hrhs hkx hky op⟩

def Holds (op : OrderComparison) (x y : GqlValue core) : Prop := orderPredicate op x y = .ok true

def GqlValue.document : GqlValue core → Option (JsonVal core.Double)
  | .json text => core.stringToJsonNoError text
  | .list l => core.stringToJsonNoError (core.jsonToString l)
  | _ => none

def GqlValue.NoObject (x : GqlValue core) : Prop :=
  ∀ root ∈ x.document, root.Plain fun _ => True

structure PreorderLaws (x y z : GqlValue core) : Prop where
  decided : ∀ op, ∃ b, orderPredicate op x y = .ok b
  trichotomy : (Holds .LT x y ∧ ¬Holds .EQ x y ∧ ¬Holds .GT x y) ∨
    (¬Holds .LT x y ∧ Holds .EQ x y ∧ ¬Holds .GT x y) ∨
    (¬Holds .LT x y ∧ ¬Holds .EQ x y ∧ Holds .GT x y)
  le : Holds .LE x y ↔ Holds .LT x y ∨ Holds .EQ x y
  ge : Holds .GE x y ↔ Holds .GT x y ∨ Holds .EQ x y
  ne : Holds .NE x y ↔ ¬Holds .EQ x y
  swap : Holds .LT x y ↔ Holds .GT y x
  trans : Holds .LE x y → Holds .LE y z → Holds .LE x z

/-- The predicates are a total preorder on the values that they accept, of any type. -/
theorem orderPredicates_total_preorder (x y z : GqlValue core) (hx : x.Accepted) (hy : y.Accepted)
    (hz : z.Accepted) : PreorderLaws x y z := by
  obtain ⟨l, kx, hl, hkx⟩ := hx.key
  obtain ⟨m, ky, hm, hky⟩ := hy.key
  obtain ⟨r, kz, hr, hkz⟩ := hz.key
  have hxy := orderPredicate_of_keys hl hm hkx hky
  have hyx := orderPredicate_of_keys hm hl hky hkx
  have hyz := orderPredicate_of_keys hm hr hky hkz
  have hxz := orderPredicate_of_keys hl hr hkx hkz
  have hswap : compare ky kx = (compare kx ky).swap := Std.OrientedCmp.eq_swap
  constructor
  · exact fun op => ⟨_, hxy op⟩
  · unfold Holds
    rw [hxy, hxy, hxy]
    cases compare kx ky <;> decide
  · unfold Holds
    rw [hxy, hxy, hxy]
    cases compare kx ky <;> decide
  · unfold Holds
    rw [hxy, hxy, hxy]
    cases compare kx ky <;> decide
  · unfold Holds
    rw [hxy, hxy]
    cases compare kx ky <;> decide
  · unfold Holds
    rw [hxy, hyx, hswap]
    cases compare kx ky <;> decide
  · unfold Holds
    rw [hxy, hyz, hxz]
    have hle : ∀ cmp : Ordering, ok (OrderComparison.LE.value cmp) =
        (ok true : Except String Bool) ↔ cmp.isLE = true := by
      intro cmp
      cases cmp <;> decide
    rw [hle, hle, hle]
    exact Std.TransCmp.isLE_trans

end

def sampleParse (text : Bytes) : Option (JsonVal (Option Int)) :=
  if text = bytesOf "[1,\"a\"]" then some (.arr [.num (.uint 1), .str (bytesOf "a")])
  else if text = bytesOf "9007199254740993.0" then some (.num (.real (some 9007199254740992)))
  else if text = bytesOf "9007199254740992.0" then some (.num (.real (some 9007199254740992)))
  else none

/-- An engine for some texts, whose doubles are integers or not a number. -/
def sampleCore : Core where
  Double := Option Int
  Float := Option Int
  toDouble := id
  isFinite := Option.isSome
  formatDouble d := (d.map integerText).getD (bytesOf "nan")
  stringToJsonNoError := sampleParse
  ListValue := Empty
  jsonToString := Empty.elim

theorem sortKey_embeds_order_sample : let x : GqlValue sampleCore := .json (bytesOf "[1,\"a\"]")
    let y : GqlValue sampleCore := .integer .int64 ⟨-7, by decide⟩
    ∃ lhs rhs kx ky, classifyOperand x orderPredicatePrefix = .ok lhs ∧
      classifyOperand y orderPredicatePrefix = .ok rhs ∧
      sortKey x = .ok kx ∧ sortKey y = .ok ky ∧
      compareOrderedOperands lhs rhs orderPredicatePrefix = .ok (compareOperandTexts kx ky) ∧
      ∀ op, orderPredicate op x y = .ok (op.value (compareOperandTexts kx ky)) := by
  apply sortKey_embeds_order
  · show JsonTextAccepted sampleCore (bytesOf "[1,\"a\"]")
    show JsonVal.Plain _ _
    simp only [JsonVal.Plain, ElementsPlain, and_true]
    exact ⟨integerText 1, rfl, integerText_decimal 1⟩
  · trivial

/-- A double that is not a number is refused by every predicate. -/
theorem orderPredicates_refuse_nan :
    ¬∀ (core : Core) (x y : GqlValue core), x.NoObject → y.NoObject →
      Holds .LT x y ∨ Holds .EQ x y ∨ Holds .GT x y := by
  intro h
  have hobject : (GqlValue.double none : GqlValue sampleCore).NoObject := nofun
  rcases h sampleCore (.double none) (.double none) hobject hobject with h | h | h <;> cases h

theorem orderPredicates_total_preorder_sample :
    PreorderLaws (.json (bytesOf "9007199254740993.0") : GqlValue sampleCore)
      (.double (some 9007199254740992)) (.integer .int64 ⟨-7, by decide⟩) := by
  apply orderPredicates_total_preorder
  · show JsonTextAccepted sampleCore (bytesOf "9007199254740993.0")
    have hnormal : normalizeDecimalText (trimJsonSpace (bytesOf "9007199254740993.0")) "" =
        .ok { sign := 1, digits := bytesOf "9007199254740993", exponent := 16 } := by decide
    exact ⟨_, hnormal⟩
  · have hnormal : normalizeDecimalText (bytesOf "9007199254740992.0") "" =
        .ok { sign := 1, digits := bytesOf "9007199254740992", exponent := 16 } := by decide
    exact ⟨bytesOf "9007199254740992.0", by decide, _, hnormal⟩
  · trivial

end Ladybug.Gql
