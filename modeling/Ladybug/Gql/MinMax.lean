import Ladybug.Base.Merges
import Ladybug.Gql.DocumentOrder

/-!
# `_GQL_MAX` and `_GQL_MIN` on JSON texts

The aggregates parse both texts and compare the documents; the predicates keep the text of a number at
top level.  The two orders agree but for numbers that the parser folds together, and for texts that do
not parse.
-/

namespace Ladybug.Gql

open List Except

section

variable {core : Core}

/-! ## 1. The aggregates -/

def jsonTextSnippet (text : Bytes) : String :=
  ascii (text.take 64) ++ if text.length > 64 then "..." else ""

variable (core) in
def parseJsonText (text : Bytes) : Except String (JsonVal core.Double) :=
  match core.stringToJsonNoError text with
  | none => .error (minMaxPrefix ++ ": invalid JSON value: " ++ jsonTextSnippet text)
  | some root => .ok root

variable (core) in
def compareJsonTexts (lhs rhs : Bytes) : Except String Ordering :=
  if lhs = rhs then .ok .eq
  else do
    let lhsDoc ← parseJsonText core lhs
    let rhsDoc ← parseJsonText core rhs
    compareJsonValues lhsDoc rhsDoc

def wins (isMax : Bool) (cmp : Ordering) : Bool := if isMax then cmp == .gt else cmp == .lt

variable (core) in
def candidateWins (isMax : Bool) (winner candidate : Bytes) : Except String Bool := do
  let cmp ← compareJsonTexts core candidate winner
  return wins isMax cmp

variable (core) in
/-- The state of a column of JSON texts: `none` while no value is stored. -/
def updateSingle (isMax : Bool) (state : Option Bytes) (input : Bytes) :
    Except String (Option Bytes) :=
  match state with
  | none => .ok (some input)
  | some winner => do
      if ← candidateWins core isMax winner input then return some input else return state

variable (core) in
def combine (isMax : Bool) (state other : Option Bytes) : Except String (Option Bytes) :=
  match other with
  | none => .ok state
  | some input =>
    match state with
    | none => .ok other
    | some winner => do
        if ← candidateWins core isMax winner input then return other else return state

variable (core) in
def aggregate (isMax : Bool) (tree : MergeTree Bytes) : Except String (Option Bytes) :=
  tree.run (updateSingle core isMax) (combine core isMax) none

/-! ## 2. The order of texts -/

variable (core) in
def textOrder (lhs rhs : Bytes) : Ordering :=
  match compareJsonTexts core lhs rhs with
  | .ok cmp => cmp
  | .error _ => .eq

theorem textOrder_self (x : Bytes) : textOrder core x x = .eq := by
  unfold textOrder compareJsonTexts
  rw [if_pos rfl]

variable {x y : Bytes} {tree : MergeTree Bytes} {isMax : Bool}

theorem compareJsonTexts_of_ne {cmp : Ordering} (hne : x ≠ y)
    (h : compareJsonTexts core x y = .ok cmp) :
    ∃ u v, core.stringToJsonNoError x = some u ∧ core.stringToJsonNoError y = some v ∧
      compareJsonValues u v = .ok cmp := by
  have hparse : ∀ (z : Bytes) (root : JsonVal core.Double), parseJsonText core z = .ok root →
      core.stringToJsonNoError z = some root := by
    intro z root hz
    unfold parseJsonText at hz
    cases hroot : core.stringToJsonNoError z with
    | none => rw [hroot] at hz; cases hz
    | some r => rw [hroot] at hz; cases hz; rfl
  unfold compareJsonTexts at h
  rw [if_neg hne] at h
  obtain ⟨u, hu, h⟩ := bind_eq_ok.mp h
  obtain ⟨v, hv, h⟩ := bind_eq_ok.mp h
  exact ⟨u, v, hparse x u hu, hparse y v hv, h⟩

theorem textOrder_eq {cmp : Ordering} (h : compareJsonTexts core x y = .ok cmp) :
    textOrder core x y = cmp := by
  unfold textOrder
  rw [h]

variable {texts : List Bytes}

theorem textOrder_ordersOn
    (hok : ∀ x ∈ texts, ∀ y ∈ texts, ∃ cmp, compareJsonTexts core x y = .ok cmp) :
    OrdersOn (· ∈ texts) (textOrder core) := by
  have hswap : ∀ x y, x ∈ texts → y ∈ texts → textOrder core y x = (textOrder core x y).swap := by
    intro x y hx hy
    by_cases hxy : x = y
    · rw [hxy, textOrder_self]
      rfl
    · obtain ⟨cmp, hcmp⟩ := hok x hx y hy
      obtain ⟨cmp', hcmp'⟩ := hok y hy x hx
      obtain ⟨u, v, hu, hv, huv⟩ := compareJsonTexts_of_ne hxy hcmp
      obtain ⟨v', u', hv', hu', hvu⟩ := compareJsonTexts_of_ne (Ne.symm hxy) hcmp'
      rw [hu] at hu'
      rw [hv] at hv'
      cases hu'
      cases hv'
      rw [textOrder_eq hcmp, textOrder_eq hcmp', compareJsonValues_swap u v huv hvu]
  refine ⟨hswap, fun x y z hx hy hz h₁ h₂ => ?_⟩
  by_cases hxy : x = y
  · rwa [hxy]
  by_cases hyz : y = z
  · rwa [← hyz]
  by_cases hxz : x = z
  · rw [hxz, textOrder_self]
    decide
  obtain ⟨xy, hcmpXY⟩ := hok x hx y hy
  obtain ⟨yz, hcmpYZ⟩ := hok y hy z hz
  obtain ⟨xz, hcmpXZ⟩ := hok x hx z hz
  rw [textOrder_eq hcmpXY] at h₁
  rw [textOrder_eq hcmpYZ] at h₂
  rw [textOrder_eq hcmpXZ]
  obtain ⟨u, v, hu, hv, huv⟩ := compareJsonTexts_of_ne hxy hcmpXY
  obtain ⟨v', w, hv', hw, hvw⟩ := compareJsonTexts_of_ne hyz hcmpYZ
  obtain ⟨u', w', hu', hw', huw⟩ := compareJsonTexts_of_ne hxz hcmpXZ
  rw [hu] at hu'
  rw [hv] at hv'
  rw [hw] at hw'
  cases hu'
  cases hv'
  cases hw'
  rw [compareJsonValues_trans u v w huv hvw huw h₁ h₂]
  cases xy with
  | gt => exact absurd rfl h₁
  | lt =>
    show Ordering.lt ≠ .gt
    decide
  | eq => exact h₂

/-! ## 3. The winner -/

/-- The order in which the greater text wins. -/
def directed (isMax : Bool) (c : Bytes → Bytes → Ordering) (x y : Bytes) : Ordering :=
  if isMax then c x y else c y x

theorem directed_ordersOn {S : Bytes → Prop} {c : Bytes → Bytes → Ordering} (h : OrdersOn S c)
    (isMax : Bool) : OrdersOn S (directed isMax c) := by
  cases isMax with
  | true => exact h
  | false => exact h.reverse

theorem candidateWins_eq
    (hok : ∀ x ∈ texts, ∀ y ∈ texts, ∃ cmp, compareJsonTexts core x y = .ok cmp) (isMax : Bool)
    {w : Bytes} (hw : w ∈ texts) (hx : x ∈ texts) :
    candidateWins core isMax w x = .ok (directed isMax (textOrder core) x w == .gt) := by
  obtain ⟨cmp, hcmp⟩ := hok x hx w hw
  have hswap := (textOrder_ordersOn hok).swap x w hx hw
  unfold candidateWins
  rw [hcmp]
  cases isMax with
  | true =>
    show ok (cmp == .gt) = ok (textOrder core x w == .gt)
    rw [textOrder_eq hcmp]
  | false =>
    show ok (cmp == .lt) = ok (textOrder core w x == .gt)
    rw [hswap, textOrder_eq hcmp]
    cases cmp <;> rfl

/-- The state after some texts: the winner among them. -/
def StateOf (c : Bytes → Bytes → Ordering) (items : List Bytes) : Option Bytes → Prop
  | none => items = []
  | some w => Winner c items w

theorem aggregate_winner
    (hok : ∀ x ∈ texts, ∀ y ∈ texts, ∃ cmp, compareJsonTexts core x y = .ok cmp) (isMax : Bool)
    (htree : ∀ x ∈ tree.items, x ∈ texts) (hne : tree.items ≠ []) :
    ∃ w, aggregate core isMax tree = .ok (some w) ∧
      Winner (directed isMax (textOrder core)) tree.items w := by
  have horder := directed_ordersOn (textOrder_ordersOn hok) isMax
  suffices hrun : ∃ s, aggregate core isMax tree = .ok s ∧
      StateOf (directed isMax (textOrder core)) tree.items s by
    obtain ⟨s, hs, hinv⟩ := hrun
    cases s with
    | none => exact absurd hinv hne
    | some w => exact ⟨w, hs, hinv⟩
  refine MergeTree.run_invariant (· ∈ texts) (StateOf (directed isMax (textOrder core)))
    (show StateOf _ [] none from rfl) ?_ ?_ tree htree
  · intro items s x hitems hx hinv
    have hself := horder.winner_self hx
    have hxs : ∀ y ∈ [x], y ∈ texts := fun y hy => by rwa [mem_singleton.mp hy]
    cases s with
    | none =>
      refine ⟨some x, rfl, ?_⟩
      have hnil : items = [] := hinv
      rw [hnil]
      exact hself
    | some w =>
      unfold updateSingle
      simp only [candidateWins_eq hok isMax (hitems w hinv.1) hx]
      cases hcmp : directed isMax (textOrder core) x w with
      | gt => exact ⟨some x, rfl, horder.winner_right hitems hxs hinv hself hcmp⟩
      | lt | eq =>
        refine ⟨some w, rfl, horder.winner_left hitems hxs hinv hself ?_⟩
        rw [hcmp]
        decide
  · intro items items' s s' hitems hitems' hinv hinv'
    cases s' with
    | none =>
      refine ⟨s, rfl, ?_⟩
      have hnil : items' = [] := hinv'
      rw [hnil, append_nil]
      exact hinv
    | some y =>
      cases s with
      | none =>
        refine ⟨some y, rfl, ?_⟩
        have hnil : items = [] := hinv
        rw [hnil, nil_append]
        exact hinv'
      | some w =>
        unfold combine
        simp only [candidateWins_eq hok isMax (hitems w hinv.1) (hitems' y hinv'.1)]
        cases hcmp : directed isMax (textOrder core) y w with
        | gt => exact ⟨some y, rfl, horder.winner_right hitems hitems' hinv hinv' hcmp⟩
        | lt | eq =>
          refine ⟨some w, rfl, horder.winner_left hitems hitems' hinv hinv' ?_⟩
          rw [hcmp]
          decide

/-! ## 4. The predicates on texts -/

variable (core) in
def Comparable (texts : List Bytes) : Prop :=
  ∀ x ∈ texts, ∀ y ∈ texts, ∃ b, orderPredicate .LE (.json x : GqlValue core) (.json y) = .ok b

theorem Comparable.cmp (h : Comparable core texts) (hx : x ∈ texts) (hy : y ∈ texts) :
    ∃ (l r : GqlOrderedOperand core) (cmp : Ordering),
      classifyJsonText x orderPredicatePrefix = .ok l ∧
      classifyJsonText y orderPredicatePrefix = .ok r ∧
      compareOrderedOperands l r orderPredicatePrefix = .ok cmp ∧
      ∀ op, orderPredicate op (.json x : GqlValue core) (.json y) = .ok (op.value cmp) := by
  obtain ⟨b, h⟩ := h x hx y hy
  obtain ⟨l, hl, h⟩ := bind_eq_ok.mp h
  obtain ⟨r, hr, h⟩ := bind_eq_ok.mp h
  obtain ⟨cmp, hcmp, h⟩ := bind_eq_ok.mp h
  refine ⟨l, r, cmp, hl, hr, hcmp, fun op => ?_⟩
  apply bind_eq_ok.mpr
  refine ⟨l, hl, ?_⟩
  apply bind_eq_ok.mpr
  refine ⟨r, hr, ?_⟩
  apply bind_eq_ok.mpr
  exact ⟨cmp, hcmp, rfl⟩

variable (core) in
/-- A number at top level: as it is parsed, and the text that the predicates read. -/
def NumberText (x : Bytes) (n : JsonNumber core.Double) (text : Bytes) : Prop :=
  core.stringToJsonNoError x = some (.num n) ∧
    (classifyJsonText x orderPredicatePrefix : Except String (GqlOrderedOperand core)) =
      .ok (.number text)

/-! ## 5. When the aggregates agree with the predicates -/

variable (core) in
/-- If no value of another kind wins: a number that wins as it is parsed wins as it is written. -/
def FoldingKeeps (isMax : Bool) (texts : List Bytes) : Prop :=
  (∀ x ∈ texts, ∀ root, core.stringToJsonNoError x = some root →
    if isMax then jsonRank root ≤ 4 else 4 ≤ jsonRank root) →
  ∀ x ∈ texts, ∀ m t, NumberText core x m t →
    (∀ y ∈ texts, ∀ n u, NumberText core y n u → ∀ cmp, compareJsonNumbers core m n = .ok cmp →
      wins (!isMax) cmp = false) →
    ∀ y ∈ texts, ∀ n u, NumberText core y n u → ∀ cmp,
      compareDecimalTexts t u orderPredicatePrefix = .ok cmp → wins (!isMax) cmp = false

variable (core) in
structure FoldsFaithfully (texts : List Bytes) : Prop where
  parses : ∀ x ∈ texts, ∃ root, core.stringToJsonNoError x = some root
  ordered : ∀ x ∈ texts, ∀ y ∈ texts, x ≠ y → ∀ m n, core.stringToJsonNoError x = some (.num m) →
    core.stringToJsonNoError y = some (.num n) → ∃ cmp, compareJsonNumbers core m n = .ok cmp
  greatest : FoldingKeeps core true texts
  least : FoldingKeeps core false texts

variable (core) in
/-- The aggregate returns an element that the predicates put at its end of the order. -/
def AgreesAt (isMax : Bool) (texts : List Bytes) (tree : MergeTree Bytes) : Prop :=
  ∃ m ∈ texts, aggregate core isMax tree = .ok (some m) ∧
    ∀ x ∈ texts, Holds (if isMax then .GE else .LE) (.json m : GqlValue core) (.json x)

theorem classifyJsonText_of_parse {root : JsonVal core.Double}
    (h : core.stringToJsonNoError x = some root) (errorPrefix : String) :
    (classifyJsonText x errorPrefix : Except String (GqlOrderedOperand core)) =
      classifyParsedJson root x errorPrefix := by
  unfold classifyJsonText
  rw [h]

theorem compareJsonTexts_ok (hcomp : Comparable core texts)
    (hparses : ∀ x ∈ texts, ∃ root, core.stringToJsonNoError x = some root)
    (hordered : ∀ x ∈ texts, ∀ y ∈ texts, x ≠ y → ∀ m n, core.stringToJsonNoError x =
      some (.num m) → core.stringToJsonNoError y = some (.num n) → ∃ cmp,
      compareJsonNumbers core m n = .ok cmp) :
    ∀ x ∈ texts, ∀ y ∈ texts, ∃ cmp, compareJsonTexts core x y = .ok cmp := by
  intro x hx y hy
  by_cases hxy : x = y
  · refine ⟨.eq, ?_⟩
    unfold compareJsonTexts
    rw [if_pos hxy]
  · obtain ⟨u, hu⟩ := hparses x hx
    obtain ⟨v, hv⟩ := hparses y hy
    have htexts : compareJsonTexts core x y = compareJsonValues u v := by
      unfold compareJsonTexts parseJsonText
      rw [if_neg hxy, hu, hv]
      rfl
    rw [htexts]
    by_cases hnum : jsonRank u = 4 ∧ jsonRank v = 4
    · obtain ⟨m, rfl⟩ := num_of_rank hnum.1
      obtain ⟨n, rfl⟩ := num_of_rank hnum.2
      exact hordered x hx y hy hxy m n hu hv
    · obtain ⟨l, r, cmp, hl, hr, hcmp, _⟩ := hcomp.cmp hx hy
      rw [classifyJsonText_of_parse hu] at hl
      rw [classifyJsonText_of_parse hv] at hr
      exact ⟨cmp, compareJsonValues_of_operands hl hr hnum hcmp⟩

theorem value_of_not_wins {cmp : Ordering} (h : wins (!isMax) cmp = false) :
    (if isMax then OrderComparison.GE else .LE).value cmp = true := by
  revert h
  cases isMax <;> cases cmp <;> decide

theorem wins_swap (isMax : Bool) (cmp : Ordering) : wins isMax cmp.swap = wins (!isMax) cmp := by
  cases isMax <;> cases cmp <;> rfl

theorem not_wins_of_directed
    (hok : ∀ x ∈ texts, ∀ y ∈ texts, ∃ cmp, compareJsonTexts core x y = .ok cmp) {w : Bytes}
    (hw : w ∈ texts) (hx : x ∈ texts) {cmp : Ordering} (hcmp : compareJsonTexts core w x = .ok cmp)
    (h : directed isMax (textOrder core) w x ≠ .lt) : wins (!isMax) cmp = false := by
  have hswap := (textOrder_ordersOn hok).swap w x hw hx
  rw [textOrder_eq hcmp] at hswap
  unfold directed at h
  cases isMax with
  | true =>
    rw [if_pos rfl, textOrder_eq hcmp] at h
    cases cmp with
    | lt => exact absurd rfl h
    | eq | gt => rfl
  | false =>
    rw [if_neg (by decide), hswap] at h
    cases cmp with
    | gt => exact absurd rfl h
    | eq | lt => rfl

theorem Comparable.self (h : Comparable core texts) (hx : x ∈ texts) (isMax : Bool) :
    Holds (if isMax then .GE else .LE) (.json x : GqlValue core) (.json x) := by
  obtain ⟨l, r, cmp, hl, hr, hcmp, hpredicate⟩ := h.cmp hx hx
  rw [hl] at hr
  cases hr
  have hswap := compareOrderedOperands_swap hcmp hcmp
  unfold Holds
  rw [hpredicate]
  cases cmp with
  | eq => cases isMax <;> rfl
  | lt | gt => cases hswap

theorem agreesAt_of_all_eq (hne : texts ≠ []) (hcomp : Comparable core texts)
    (heq : ∀ x ∈ texts, ∀ y ∈ texts, x = y) (htree : tree.items.Perm texts) (isMax : Bool) :
    AgreesAt core isMax texts tree := by
  have hok : ∀ x ∈ texts, ∀ y ∈ texts, ∃ cmp, compareJsonTexts core x y = .ok cmp := by
    intro x hx y hy
    refine ⟨.eq, ?_⟩
    unfold compareJsonTexts
    rw [if_pos (heq x hx y hy)]
  have hitems : tree.items ≠ [] := by
    intro hnil
    rw [hnil] at htree
    exact hne htree.nil_eq.symm
  obtain ⟨w, hrun, hwin⟩ := aggregate_winner hok isMax (fun x hx => htree.mem_iff.mp hx) hitems
  have hw := htree.mem_iff.mp hwin.1
  refine ⟨w, hw, hrun, fun x hx => ?_⟩
  rw [heq x hx w hw]
  exact hcomp.self hw isMax

theorem agreesAt_of_folds (hne : texts ≠ []) (hcomp : Comparable core texts)
    (hfold : FoldsFaithfully core texts) (htree : tree.items.Perm texts) (isMax : Bool) :
    AgreesAt core isMax texts tree := by
  have hok := compareJsonTexts_ok hcomp hfold.parses hfold.ordered
  have hitems : tree.items ≠ [] := by
    intro hnil
    rw [hnil] at htree
    exact hne htree.nil_eq.symm
  obtain ⟨w, hrun, hwin⟩ := aggregate_winner hok isMax (fun x hx => htree.mem_iff.mp hx) hitems
  have hw := htree.mem_iff.mp hwin.1
  obtain ⟨u, hu⟩ := hfold.parses w hw
  -- no document beats the document of the winner
  have hbeats : ∀ y ∈ texts, y ≠ w → ∀ v, core.stringToJsonNoError y = some v →
      ∀ cmp, compareJsonValues u v = .ok cmp → wins (!isMax) cmp = false := by
    intro y hy hyw v hv cmp hcmp
    have htexts : compareJsonTexts core w y = .ok cmp := by
      unfold compareJsonTexts parseJsonText
      rw [if_neg (Ne.symm hyw), hu, hv]
      exact hcmp
    exact not_wins_of_directed hok hw hy htexts (hwin.2 y (htree.mem_iff.mpr hy))
  refine ⟨w, hw, hrun, fun x hx => ?_⟩
  by_cases hxw : x = w
  · rw [hxw]
    exact hcomp.self hw isMax
  · obtain ⟨v, hv⟩ := hfold.parses x hx
    obtain ⟨l, r, cmp, hl, hr, hcmp, hpredicate⟩ := hcomp.cmp hw hx
    have hl' := hl
    have hr' := hr
    rw [classifyJsonText_of_parse hu] at hl'
    rw [classifyJsonText_of_parse hv] at hr'
    unfold Holds
    rw [hpredicate]
    apply congrArg ok
    apply value_of_not_wins
    by_cases hnum : jsonRank u = 4 ∧ jsonRank v = 4
    · -- two numbers: what the parser folded decides
      obtain ⟨t, rfl⟩ := number_of_rank ((classifyParsedJson_rank hl').trans hnum.1)
      obtain ⟨t', rfl⟩ := number_of_rank ((classifyParsedJson_rank hr').trans hnum.2)
      obtain ⟨m, rfl⟩ := num_of_rank hnum.1
      obtain ⟨n, rfl⟩ := num_of_rank hnum.2
      have hkeeps : FoldingKeeps core isMax texts := by
        cases isMax with
        | true => exact hfold.greatest
        | false => exact hfold.least
      refine hkeeps ?_ w hw m t ⟨hu, hl⟩ ?_ x hx n t' ⟨hv, hr⟩ cmp hcmp
      · intro y hy root hroot
        by_cases hrank : 4 = jsonRank root
        · rw [← hrank]
          cases isMax <;> decide
        · have hyw : y ≠ w := by
            intro h
            rw [h, hu] at hroot
            cases hroot
            exact hrank rfl
          have hlose := hbeats y hy hyw root hroot _
            (compareJsonValues_of_rank_ne (l := .num m) hrank)
          have hcases : compare (jsonRank (JsonVal.num m)) (jsonRank root) = .lt ∨
              compare (jsonRank (JsonVal.num m)) (jsonRank root) = .gt := by
            rw [Nat.compare_eq_lt, Nat.compare_eq_gt]
            omega
          rcases hcases with hcases | hcases
          · rw [hcases] at hlose
            cases isMax with
            | true => cases hlose
            | false => exact (Nat.compare_eq_lt.mp hcases).le
          · rw [hcases] at hlose
            cases isMax with
            | true => exact (Nat.compare_eq_gt.mp hcases).le
            | false => cases hlose
      · intro y hy k u' hk o ho
        by_cases hyw : y = w
        · have hsame := hk.1
          rw [hyw, hu] at hsame
          cases hsame
          have hswap := compareJsonNumbers_swap ho ho
          cases o with
          | eq => cases isMax <;> rfl
          | lt | gt => cases hswap
        · exact hbeats y hy hyw _ hk.1 o ho
    · exact hbeats x hx hxw v hv cmp (compareJsonValues_of_operands hl' hr' hnum hcmp)

theorem aggregate_two {rest : List Bytes} {m : Option Bytes}
    (h : aggregate core isMax (MergeTree.ofList (x :: y :: rest)) = .ok m) :
    ∃ cmp, compareJsonTexts core y x = .ok cmp := by
  unfold aggregate at h
  rw [MergeTree.ofList_run, foldlM_cons] at h
  obtain ⟨s, hs, h⟩ := bind_eq_ok.mp h
  cases hs
  obtain ⟨s, hs, h⟩ := bind_eq_ok.mp h
  obtain ⟨b, hb, hs⟩ := bind_eq_ok.mp hs
  obtain ⟨cmp, hcmp, hb⟩ := bind_eq_ok.mp hb
  exact ⟨cmp, hcmp⟩

theorem exists_order (hx : x ∈ texts) (hy : y ∈ texts) (hxy : x ≠ y) :
    ∃ rest, (x :: y :: rest).Perm texts := by
  have hyx : y ∈ texts.erase x := (mem_erase_of_ne (Ne.symm hxy)).mpr hy
  refine ⟨(texts.erase x).erase y, ?_⟩
  exact ((perm_cons_erase hyx).symm.cons x).trans (perm_cons_erase hx).symm

theorem aggregate_first {rest : List Bytes}
    (h : ∀ y ∈ rest, candidateWins core isMax x y = .ok false) :
    aggregate core isMax (MergeTree.ofList (x :: rest)) = .ok (some x) := by
  unfold aggregate
  rw [MergeTree.ofList_run, foldlM_cons]
  show rest.foldlM (updateSingle core isMax) (some x) = _
  induction rest with
  | nil => rfl
  | cons y rest ih =>
    rw [foldlM_cons]
    have hy : updateSingle core isMax (some x) y = .ok (some x) := by
      unfold updateSingle
      simp only [h y mem_cons_self]
      rfl
    rw [hy]
    exact ih fun z hz => h z (mem_cons_of_mem y hz)

theorem compareJsonTexts_of_agrees
    (hagrees : ∀ tree : MergeTree Bytes, tree.items.Perm texts → AgreesAt core true texts tree)
    (hx : x ∈ texts) (hy : y ∈ texts) : ∃ cmp, compareJsonTexts core x y = .ok cmp := by
  by_cases hxy : x = y
  · refine ⟨.eq, ?_⟩
    unfold compareJsonTexts
    rw [if_pos hxy]
  · obtain ⟨rest, hperm⟩ := exists_order hy hx (Ne.symm hxy)
    obtain ⟨m, hm, hrun, _⟩ := hagrees (MergeTree.ofList (y :: x :: rest))
      (by rw [MergeTree.ofList_items]; exact hperm)
    exact aggregate_two hrun

theorem foldingKeeps_of_agrees (hcomp : Comparable core texts)
    (hok : ∀ x ∈ texts, ∀ y ∈ texts, ∃ cmp, compareJsonTexts core x y = .ok cmp)
    (hagrees : ∀ tree : MergeTree Bytes, tree.items.Perm texts → AgreesAt core isMax texts tree) :
    FoldingKeeps core isMax texts := by
  intro hrank x hx m t hnumber hwins y hy n u hnumber' cmp hcmp
  -- the number comes first and stays
  have hkept : ∀ z ∈ texts.erase x, candidateWins core isMax x z = .ok false := by
    intro z hz
    have hz := mem_of_mem_erase hz
    obtain ⟨o, ho⟩ := hok z hz x hx
    unfold candidateWins
    rw [ho]
    apply congrArg ok
    by_cases hzx : z = x
    · unfold compareJsonTexts at ho
      rw [if_pos hzx] at ho
      cases ho
      cases isMax <;> rfl
    · obtain ⟨v, root, hv, hroot, hvalues⟩ := compareJsonTexts_of_ne hzx ho
      rw [hnumber.1] at hroot
      cases hroot
      by_cases hv4 : jsonRank v = 4
      · obtain ⟨k, rfl⟩ := num_of_rank hv4
        obtain ⟨l, r, cmpOperands, hl, hr, _⟩ := hcomp.cmp hz hx
        have hl' := hl
        rw [classifyJsonText_of_parse hv] at hl'
        obtain ⟨u', rfl⟩ := number_of_rank ((classifyParsedJson_rank hl').trans hv4)
        obtain ⟨o', ho'⟩ := hok x hx z hz
        obtain ⟨root, v', hroot, hv', hvalues'⟩ := compareJsonTexts_of_ne (Ne.symm hzx) ho'
        rw [hnumber.1] at hroot
        rw [hv] at hv'
        cases hroot
        cases hv'
        have hlose := hwins z hz k u' ⟨hv, hl⟩ o' hvalues'
        rw [compareJsonNumbers_swap hvalues' hvalues, wins_swap]
        exact hlose
      · have hrankV := hrank z hz v hv
        rw [compareJsonValues_of_rank_ne hv4] at hvalues
        cases hvalues
        cases isMax with
        | true =>
          have hlt : compare (jsonRank v) (jsonRank (JsonVal.num m)) = .lt := by
            rw [Nat.compare_eq_lt]
            exact lt_of_le_of_ne hrankV hv4
          rw [hlt]
          rfl
        | false =>
          have hgt : compare (jsonRank v) (jsonRank (JsonVal.num m)) = .gt := by
            rw [Nat.compare_eq_gt]
            exact lt_of_le_of_ne hrankV (Ne.symm hv4)
          rw [hgt]
          rfl
  have hperm : (MergeTree.ofList (x :: texts.erase x)).items.Perm texts := by
    rw [MergeTree.ofList_items]
    exact (perm_cons_erase hx).symm
  obtain ⟨w, hw, hrun, hholds⟩ := hagrees _ hperm
  rw [aggregate_first hkept] at hrun
  cases hrun
  obtain ⟨l, r, cmp', hl, hr, hcmp', hpredicate⟩ := hcomp.cmp hx hy
  rw [hnumber.2] at hl
  rw [hnumber'.2] at hr
  cases hl
  cases hr
  have hsame : compareDecimalTexts t u orderPredicatePrefix = .ok cmp' := hcmp'
  rw [hcmp] at hsame
  cases hsame
  have hvalue := hholds y hy
  unfold Holds at hvalue
  rw [hpredicate] at hvalue
  revert hvalue
  cases isMax <;> cases cmp <;> decide

/-- On texts that the predicates can compare, the aggregates agree with the predicates for every order
of the updates and every tree of merges if and only if the texts are all the same, or all parse and
the folding of numbers changes no winner. -/
theorem aggregates_agree_iff (texts : List Bytes) (hne : texts ≠ [])
    (hcomp : Comparable core texts) :
    (∀ tree : MergeTree Bytes, tree.items.Perm texts →
      AgreesAt core true texts tree ∧ AgreesAt core false texts tree) ↔
    (∀ x ∈ texts, ∀ y ∈ texts, x = y) ∨ FoldsFaithfully core texts := by
  constructor
  · intro hagrees
    by_cases heq : ∀ x ∈ texts, ∀ y ∈ texts, x = y
    · exact .inl heq
    · right
      have hok : ∀ x ∈ texts, ∀ y ∈ texts, ∃ cmp, compareJsonTexts core x y = .ok cmp :=
        fun x hx y hy => compareJsonTexts_of_agrees (fun tree htree => (hagrees tree htree).1) hx hy
      have hparses : ∀ x ∈ texts, ∃ root, core.stringToJsonNoError x = some root := by
        intro x hx
        -- some other text is compared with this one
        have hother : ∃ y ∈ texts, y ≠ x := by
          by_contra hall
          push Not at hall
          exact heq fun a ha b hb => (hall a ha).trans (hall b hb).symm
        obtain ⟨y, hy, hyx⟩ := hother
        obtain ⟨cmp, hcmp⟩ := hok x hx y hy
        obtain ⟨u, v, hu, hv, _⟩ := compareJsonTexts_of_ne (Ne.symm hyx) hcmp
        exact ⟨u, hu⟩
      constructor
      · exact hparses
      · intro x hx y hy hxy m n hm hn
        obtain ⟨cmp, hcmp⟩ := hok x hx y hy
        obtain ⟨u, v, hu, hv, hvalues⟩ := compareJsonTexts_of_ne hxy hcmp
        rw [hm] at hu
        rw [hn] at hv
        cases hu
        cases hv
        exact ⟨cmp, hvalues⟩
      · exact foldingKeeps_of_agrees hcomp hok fun tree htree => (hagrees tree htree).1
      · exact foldingKeeps_of_agrees hcomp hok fun tree htree => (hagrees tree htree).2
  · intro h tree htree
    rcases h with heq | hfold
    · exact ⟨agreesAt_of_all_eq hne hcomp heq htree true,
        agreesAt_of_all_eq hne hcomp heq htree false⟩
    · exact ⟨agreesAt_of_folds hne hcomp hfold htree true,
        agreesAt_of_folds hne hcomp hfold htree false⟩

end

/-! ## 6. Folded numbers -/

def foldedTexts : List Bytes := [bytesOf "9007199254740992.0", bytesOf "9007199254740993.0"]

theorem foldedTexts_comparable : Comparable sampleCore foldedTexts := by
  unfold Comparable
  decide

/-- The smaller of the two texts comes first and stays the maximum. -/
theorem aggregates_disagree_on_folded_numbers :
    ¬∀ (core : Core) (texts : List Bytes), texts ≠ [] → Comparable core texts →
      ∀ tree : MergeTree Bytes, tree.items.Perm texts →
        AgreesAt core true texts tree ∧ AgreesAt core false texts tree := by
  intro h
  obtain ⟨⟨m, hm, hrun, hholds⟩, _⟩ := h sampleCore foldedTexts (by decide) foldedTexts_comparable
    (MergeTree.ofList foldedTexts) (by rw [MergeTree.ofList_items])
  have hfirst : aggregate sampleCore true (MergeTree.ofList foldedTexts) =
      .ok (some (bytesOf "9007199254740992.0")) := by decide
  rw [hfirst] at hrun
  cases hrun
  have hlt := hholds (bytesOf "9007199254740993.0") (by decide)
  revert hlt
  unfold Holds
  decide

/-- With one number text no number is folded on another. -/
theorem foldingKeeps_of_one {core : Core} {texts : List Bytes} {x₀ : Bytes}
    (h : ∀ x ∈ texts, ∀ n t, NumberText core x n t → x = x₀) (isMax : Bool) :
    FoldingKeeps core isMax texts := by
  intro _ x hx m t hm hwins y hy n u hn cmp hcmp
  cases h x hx m t hm
  cases h y hy n u hn
  cases hm.2.symm.trans hn.2
  obtain ⟨key, key', hkey, hkey', rfl⟩ := compareDecimalTexts_key hcmp
  cases hkey.symm.trans hkey'
  have hself : compare key key = .eq := Std.ReflCmp.compare_self
  rw [hself]
  cases isMax <;> rfl

def mixedTexts : List Bytes := [bytesOf "[1,\"a\"]", bytesOf "9007199254740993.0"]

theorem mixedTexts_number {x : Bytes} (hx : x ∈ mixedTexts) {n : JsonNumber sampleCore.Double}
    (h : sampleCore.stringToJsonNoError x = some (.num n)) : x = bytesOf "9007199254740993.0" := by
  rcases mem_cons.mp hx with rfl | hx
  · have harray : sampleCore.stringToJsonNoError (bytesOf "[1,\"a\"]") = some (.num n) := h
    cases harray
  · exact mem_singleton.mp hx

theorem mixedTexts_folds : FoldsFaithfully sampleCore mixedTexts where
  parses := by
    intro x hx
    rcases mem_cons.mp hx with rfl | hx
    · exact ⟨_, rfl⟩
    · rw [mem_singleton.mp hx]
      exact ⟨_, rfl⟩
  ordered := fun x hx y hy hxy m n hm hn =>
    absurd ((mixedTexts_number hx hm).trans (mixedTexts_number hy hn).symm) hxy
  greatest := foldingKeeps_of_one (fun x hx _ _ h => mixedTexts_number hx h.1) true
  least := foldingKeeps_of_one (fun x hx _ _ h => mixedTexts_number hx h.1) false

theorem aggregates_agree_iff_mixed :
    AgreesAt sampleCore true mixedTexts (MergeTree.ofList mixedTexts) ∧
      AgreesAt sampleCore false mixedTexts (MergeTree.ofList mixedTexts) :=
  (aggregates_agree_iff mixedTexts (by decide) (by unfold Comparable; decide)).mpr
    (.inr mixedTexts_folds) _ (by rw [MergeTree.ofList_items])
end Ladybug.Gql
