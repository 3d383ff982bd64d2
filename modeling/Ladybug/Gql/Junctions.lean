import Ladybug.Gql.PathTerm

/-!
# Junctions of path terms (`gql/src/gql_transformer.cpp`)

Neighbouring node patterns of a path term are one node.  What the patterns demand of it is compared with
what the merged node demands, over the row of patterns that the path term stands for.
-/

namespace Ladybug.GqlPath

open List

section

variable {Cond : Type}

/-! ## 1. Rows of patterns -/

theorem pathTerm_induction {P : PathTerm Cond → Prop} {Q : PathFactor Cond → Prop}
    {R : PathPrimary Cond → Prop} (nil : P .nil) (cons : ∀ f t, Q f → P t → P (.cons f t))
    (primary : ∀ p, R p → Q (.pfPathPrimary p))
    (quantified : ∀ ctx p q, R p → Q (.pfQuantifiedPathPrimary ctx p q))
    (questioned : ∀ p, R p → Q (.pfQuestionedPathPrimary p)) (node : ∀ f, R (.nodePattern f))
    (edge : ∀ e, R (.edgePattern e)) (paren : ∀ s m w t, P t → R (.parenthesized s m w t))
    (alternation : ∀ s m w, R (.parenthesizedAlternation s m w))
    (simplified : R .simplifiedPathPattern) (t : PathTerm Cond) : P t :=
  @PathTerm.rec Cond P Q R nil cons primary quantified questioned node edge paren alternation simplified t

inductive RowItem (Cond : Type) where
  | node (filler : Option (ElementPatternFiller Cond))
  | edge

namespace RowItem

def isEdge : RowItem Cond → Bool
  | node _ => false
  | edge => true

/-- A node that cannot be left to a recursive slot. -/
def hasFiller : RowItem Cond → Bool
  | node filler => (filler.bind (·.elementVariableDeclaration)).isSome ||
      (labelKeyOf filler).isSome || (propsKeyOf filler).isSome
  | edge => false

end RowItem

def isSlot (interior : List (RowItem Cond)) : Prop :=
  interior.countP RowItem.isEdge = 1 ∧ interior.any RowItem.hasFiller = false

instance instDecidableIsSlot (interior : List (RowItem Cond)) : Decidable (isSlot interior) :=
  inferInstanceAs (Decidable (_ ∧ _))

def repeated (qppiUnrollCounts : Nat → Option Nat) (quant : Quantification)
    (interior : List (RowItem Cond)) : List (RowItem Cond) :=
  if isSlot interior then [.node none, .edge, .node none]
  else (List.replicate ((repeatsOf qppiUnrollCounts quant).toOption.getD 0) interior).flatten

mutual

def row (qppiUnrollCounts : Nat → Option Nat) : PathTerm Cond → List (RowItem Cond)
  | .nil => []
  | .cons factor rest => rowOfFactor qppiUnrollCounts factor ++ row qppiUnrollCounts rest

def rowOfFactor (qppiUnrollCounts : Nat → Option Nat) : PathFactor Cond → List (RowItem Cond)
  | .pfPathPrimary primary => rowOfPrimary qppiUnrollCounts none primary
  | .pfQuantifiedPathPrimary ctx primary quantifier =>
    rowOfPrimary qppiUnrollCounts (some (.quantified ctx quantifier)) primary
  | .pfQuestionedPathPrimary primary => rowOfPrimary qppiUnrollCounts (some .questioned) primary

def rowOfPrimary (qppiUnrollCounts : Nat → Option Nat) (quantified : Option Quantification) :
    PathPrimary Cond → List (RowItem Cond)
  | .nodePattern filler => [.node (some filler)]
  | .edgePattern _ => [.edge]
  | .parenthesized _ _ _ term =>
    let interior := row qppiUnrollCounts term
    quantified.elim interior fun quant => repeated qppiUnrollCounts quant interior
  | .parenthesizedAlternation _ _ _ => []
  | .simplifiedPathPattern => []

end

mutual

def fillers : PathTerm Cond → List (ElementPatternFiller Cond)
  | .nil => []
  | .cons factor rest => fillersOfFactor factor ++ fillers rest

def fillersOfFactor : PathFactor Cond → List (ElementPatternFiller Cond)
  | .pfPathPrimary primary => fillersOfPrimary primary
  | .pfQuantifiedPathPrimary _ primary _ => fillersOfPrimary primary
  | .pfQuestionedPathPrimary primary => fillersOfPrimary primary

def fillersOfPrimary : PathPrimary Cond → List (ElementPatternFiller Cond)
  | .nodePattern filler => [filler]
  | .edgePattern _ => []
  | .parenthesized _ _ _ term => fillers term
  | .parenthesizedAlternation _ _ _ => []
  | .simplifiedPathPattern => []

end

/-! ## 2. The events are the row -/

def FlatEvent.item : FlatEvent Cond → RowItem Cond
  | .node event => .node event.nodeFiller
  | .edge _ => .edge

def FlatEvent.Declared : FlatEvent Cond → Prop
  | .node event => event.nodeDeclared = event.nodeFiller.bind (·.elementVariableDeclaration)
  | .edge _ => True

def Follows (events : List (FlatEvent Cond)) (items : List (RowItem Cond)) : Prop :=
  events.map FlatEvent.item = items ∧ ∀ event ∈ events, event.Declared

theorem Follows.append {events events' : List (FlatEvent Cond)} {items items' : List (RowItem Cond)}
    (h : Follows events items) (h' : Follows events' items') :
    Follows (events ++ events') (items ++ items') := by
  refine ⟨?_, ?_⟩
  · rw [map_append, h.1, h'.1]
  · intro event hevent
    rcases mem_append.mp hevent with hevent | hevent
    · exact h.2 event hevent
    · exact h'.2 event hevent

theorem Follows.single {event : FlatEvent Cond} (h : event.Declared) : Follows [event] [event.item] := by
  refine ⟨rfl, ?_⟩
  intro e he
  rw [mem_singleton.mp he]
  exact h

theorem follows_edge (event : EdgeEvent Cond) : Follows [.edge event] [.edge] :=
  @Follows.single Cond (.edge event) trivial

theorem edgesOf_length (events : List (FlatEvent Cond)) :
    (edgesOf events).length = (events.map FlatEvent.item).countP RowItem.isEdge := by
  induction events with
  | nil => rfl
  | cons event events ih =>
    cases event with
    | node event => exact ih
    | edge event =>
      rw [map_cons, countP_cons_of_pos rfl, ← ih]
      rfl

variable {event : FlatEvent Cond} {quantifiedOuter subpathVariable inQuantifiedInterior : Bool}
  {quantified : Option Quantification} {primary : PathPrimary Cond} {found : Prescan}
  {autoLabelIdx autoLabelIdx' : Nat}

theorem hasNodeFiller_eq (h : event.Declared) : hasNodeFiller event = event.item.hasFiller := by
  cases event with
  | node event =>
    show (event.nodeDeclared.isSome || _ || _) = _
    rw [show event.nodeDeclared = _ from h]
    rfl
  | edge event => rfl

variable {events : List (FlatEvent Cond)}

theorem any_hasNodeFiller (h : ∀ event ∈ events, event.Declared) :
    events.any hasNodeFiller = (events.map FlatEvent.item).any RowItem.hasFiller := by
  rw [any_map]
  induction events with
  | nil => rfl
  | cons event events ih =>
    rw [any_cons, any_cons, hasNodeFiller_eq (h event mem_cons_self),
      ih fun e he => h e (mem_cons_of_mem _ he)]
    rfl

theorem copyEvent_follows (rep : Nat) (st : RepState) (h : event.Declared) :
    (copyEvent rep st event).1.item = event.item ∧ (copyEvent rep st event).1.Declared := by
  cases event with
  | edge event =>
    simp only [copyEvent]
    split <;> exact ⟨rfl, trivial⟩
  | node event =>
    simp only [copyEvent]
    split <;> exact ⟨rfl, h⟩

variable {items : List (RowItem Cond)}

theorem copyEvents_follows (rep : Nat) (st : RepState) (h : Follows events items) :
    Follows (copyEvents rep st events).1 items := by
  obtain ⟨rfl, hdeclared⟩ := h
  induction events generalizing st with
  | nil => exact ⟨rfl, hdeclared⟩
  | cons event events ih =>
    obtain ⟨hitem, hevent⟩ := copyEvent_follows rep st (hdeclared event mem_cons_self)
    have hrest := ih (copyEvent rep st event).2 fun e he => hdeclared e (mem_cons_of_mem _ he)
    rw [map_cons, ← hitem]
    exact (Follows.single hevent).append hrest

variable {inner : List (FlatEvent Cond)} {qppiUnrollCounts : Nat → Option Nat}
  {quant : Quantification} {st : FlattenState} {filler : Option (ElementPatternFiller Cond)}
  {acc b : NodeEvent Cond} {wheres : List (Where Cond)}

theorem repeatInterior_follows (h : Follows inner items) (repeats rep : Nat) (st : RepState) :
    Follows (repeatInterior inner repeats rep st).1 (replicate repeats items).flatten := by
  induction repeats generalizing rep st with
  | zero => exact ⟨rfl, fun event hevent => absurd hevent not_mem_nil⟩
  | succ repeats ih =>
    exact (copyEvents_follows rep st h).append (ih (rep + 1) _)

variable {result : List (FlatEvent Cond) × FlattenState}

section

variable (hinner : Follows inner items)
  (h : quantifyInterior qppiUnrollCounts quant inner st = .ok result)

include hinner h

theorem quantifyInterior_cases : (isSlot items ∧ ∃ edge : EdgeEvent Cond, result.1 =
      [.node ⟨none, none, none, false, true⟩, .edge edge, .node ⟨none, none, none, false, true⟩]) ∨
    (¬ isSlot items ∧ ∃ repeats rst, repeatsOf qppiUnrollCounts quant = .ok repeats ∧
      result.1 = (repeatInterior inner repeats 0 rst).1) := by
  have hslot : (edgesOf inner).length = 1 ∧ inner.any hasNodeFiller = false ↔ isSlot items := by
    unfold isSlot
    rw [edgesOf_length, any_hasNodeFiller hinner.2, hinner.1]
  simp only [quantifyInterior] at h
  by_cases hnested : ((edgesOf inner).any fun e => e.range.isSome) = true
  · rw [if_pos hnested] at h
    cases h
  · rw [if_neg hnested] at h
    cases hedge : (edgesOf inner).getLast? with
    | none =>
      rw [hedge] at h
      cases h
    | some edge =>
      rw [hedge] at h
      by_cases hitems : isSlot items
      · simp only [if_pos (hslot.mpr hitems)] at h
        cases h
        exact .inl ⟨hitems, _, rfl⟩
      · simp only [if_neg fun hi => hitems (hslot.mp hi)] at h
        obtain ⟨repeats, hrepeats, h⟩ := bind_eq_ok.mp h
        cases h
        exact .inr ⟨hitems, repeats, _, hrepeats, rfl⟩

theorem quantifyInterior_follows : Follows result.1 (repeated qppiUnrollCounts quant items) := by
  unfold repeated
  rcases quantifyInterior_cases hinner h with ⟨hslot, edge, hevents⟩ | ⟨hslot, repeats, rst, hrepeats, hevents⟩
  · rw [if_pos hslot, hevents]
    have hbare : Follows [@FlatEvent.node Cond ⟨none, none, none, false, true⟩] [.node none] :=
      Follows.single rfl
    exact hbare.append ((follows_edge edge).append hbare)
  · rw [if_neg hslot, hrepeats, hevents]
    exact repeatInterior_follows hinner repeats 0 rst

end

theorem flattenPrimary_parenthesized {pathMode whereClause : Bool} {term : PathTerm Cond}
    {st' : FlattenState}
    (h : flattenPrimary qppiUnrollCounts quantifiedOuter quantified
      (.parenthesized subpathVariable pathMode whereClause term) st = .ok (events, st')) :
    (quantified = none ∧ flatten qppiUnrollCounts quantifiedOuter term st = .ok (events, st')) ∨
      ∃ quant inner st₁, quantified = some quant ∧
        flatten qppiUnrollCounts true term st = .ok (inner, st₁) ∧
        quantifyInterior qppiUnrollCounts quant inner st₁ = .ok (events, st') := by
  cases subpathVariable with
  | true => cases h
  | false =>
    cases pathMode with
    | true => cases h
    | false =>
      cases whereClause with
      | true => cases h
      | false =>
        cases quantified with
        | none => exact .inl ⟨rfl, h⟩
        | some quant =>
          cases quantifiedOuter with
          | true => cases h
          | false =>
            obtain ⟨inner, hinner, h⟩ := bind_eq_ok.mp h
            exact .inr ⟨quant, inner.1, inner.2, rfl, hinner, h⟩

theorem flattenPrimary_alternation {pathMode whereClause : Bool} :
    flattenPrimary qppiUnrollCounts quantifiedOuter quantified
      (.parenthesizedAlternation subpathVariable pathMode whereClause) st ≠ .ok result := by
  intro h
  simp only [flattenPrimary] at h
  repeat' split at h
  all_goals cases h

theorem flatten_follows (qppiUnrollCounts : Nat → Option Nat) (term : PathTerm Cond) :
    ∀ quantifiedOuter st events st',
      flatten qppiUnrollCounts quantifiedOuter term st = .ok (events, st') →
      Follows events (row qppiUnrollCounts term) := by
  refine pathTerm_induction (P := fun term => ∀ quantifiedOuter st events st',
      flatten qppiUnrollCounts quantifiedOuter term st = .ok (events, st') →
      Follows events (row qppiUnrollCounts term))
    (Q := fun factor => ∀ quantifiedOuter st events st',
      flattenFactor qppiUnrollCounts quantifiedOuter factor st = .ok (events, st') →
      Follows events (rowOfFactor qppiUnrollCounts factor))
    (R := fun primary => ∀ quantified quantifiedOuter st events st',
      flattenPrimary qppiUnrollCounts quantifiedOuter quantified primary st = .ok (events, st') →
      Follows events (rowOfPrimary qppiUnrollCounts quantified primary))
    ?_ ?_ ?_ ?_ ?_ ?_ ?_ ?_ ?_ ?_ term
  · intro quantifiedOuter st events st' h
    cases h
    exact ⟨rfl, fun event hevent => absurd hevent not_mem_nil⟩
  · intro factor term ihfactor ihterm quantifiedOuter st events st' h
    obtain ⟨first, hfirst, h⟩ := bind_eq_ok.mp h
    obtain ⟨rest, hrest, h⟩ := bind_eq_ok.mp h
    cases h
    exact (ihfactor _ _ _ _ hfirst).append (ihterm _ _ _ _ hrest)
  · exact fun primary ih => ih none
  · exact fun ctx primary quantifier ih => ih (some (.quantified ctx quantifier))
  · exact fun primary ih => ih (some .questioned)
  · intro filler quantified quantifiedOuter st events st' h
    simp only [flattenPrimary] at h
    by_cases hquantified : quantified.isSome = true
    · rw [if_pos hquantified] at h
      cases h
    · rw [if_neg hquantified] at h
      cases h
      exact Follows.single rfl
  · intro edge quantified quantifiedOuter st events st' h
    cases quantified with
    | none =>
      cases h
      exact follows_edge _
    | some quant =>
      cases quantifiedOuter with
      | true => cases h
      | false =>
        cases h
        exact follows_edge _
  · intro subpathVariable pathMode whereClause term ih quantified quantifiedOuter st events st' h
    rcases flattenPrimary_parenthesized h with ⟨rfl, hflat⟩ | ⟨quant, inner, st₁, rfl, hinner, hquant⟩
    · exact ih _ _ _ _ hflat
    · exact quantifyInterior_follows (ih _ _ _ _ hinner) hquant
  · exact fun _ _ _ _ _ _ _ _ h => absurd h flattenPrimary_alternation
  · intro quantified quantifiedOuter st events st' h
    cases h

/-! ## 3. No pattern is left out -/

def ElementPatternPredicate.whereClause : ElementPatternPredicate Cond → Option Cond
  | .elementPatternWhereClause condition => some condition
  | .elementPropertySpecification _ => none

def whereOf (filler : Option (ElementPatternFiller Cond)) : Option Cond :=
  filler.bind fun f => f.elementPatternPredicate.bind ElementPatternPredicate.whereClause

def Demands (filler : ElementPatternFiller Cond) : Prop :=
  filler.isLabelExpression.isSome = true ∨ filler.elementPatternPredicate.isSome = true

theorem prescanFactor_quantified {ctx : Nat} {quantifier : GraphPatternQuantifier}
    (h : prescanFactor inQuantifiedInterior (.pfQuantifiedPathPrimary ctx primary quantifier) = .ok found) :
    ∃ interior, prescanPrimary true primary = .ok interior := by
  cases inQuantifiedInterior
  all_goals
    obtain ⟨factors, _, h⟩ := bind_eq_ok.mp h
    obtain ⟨interior, hinterior, _⟩ := bind_eq_ok.mp h
    exact ⟨interior, hinterior⟩

theorem prescanFactor_questioned
    (h : prescanFactor inQuantifiedInterior (.pfQuestionedPathPrimary primary) = .ok found) :
    ∃ interior, prescanPrimary true primary = .ok interior := by
  cases inQuantifiedInterior
  all_goals
    obtain ⟨factors, _, h⟩ := bind_eq_ok.mp h
    obtain ⟨interior, hinterior, _⟩ := bind_eq_ok.mp h
    exact ⟨interior, hinterior⟩

theorem prescan_whereOf (term : PathTerm Cond) :
    ∀ found, prescan true term = .ok found → ∀ filler ∈ fillers term, whereOf (some filler) = none := by
  refine pathTerm_induction (P := fun term => ∀ found, prescan true term = .ok found →
      ∀ filler ∈ fillers term, whereOf (some filler) = none)
    (Q := fun factor => ∀ found, prescanFactor true factor = .ok found →
      ∀ filler ∈ fillersOfFactor factor, whereOf (some filler) = none)
    (R := fun primary => ∀ found, prescanPrimary true primary = .ok found →
      ∀ filler ∈ fillersOfPrimary primary, whereOf (some filler) = none)
    ?_ ?_ ?_ ?_ ?_ ?_ ?_ ?_ ?_ ?_ term
  · exact fun found h filler hfiller => absurd hfiller not_mem_nil
  · intro factor term ihfactor ihterm found h filler hfiller
    obtain ⟨a, ha, h⟩ := bind_eq_ok.mp h
    obtain ⟨b, hb, h⟩ := bind_eq_ok.mp h
    rcases mem_append.mp hfiller with hfiller | hfiller
    · exact ihfactor a ha filler hfiller
    · exact ihterm b hb filler hfiller
  · exact fun primary ih => ih
  · intro ctx primary quantifier ih found h
    obtain ⟨interior, hinterior⟩ := prescanFactor_quantified h
    exact ih interior hinterior
  · intro primary ih found h
    obtain ⟨interior, hinterior⟩ := prescanFactor_questioned h
    exact ih interior hinterior
  · intro filler found h other hother
    rw [mem_singleton.mp hother]
    change prescanFiller true filler = .ok found at h
    unfold prescanFiller at h
    show filler.elementPatternPredicate.bind ElementPatternPredicate.whereClause = none
    cases hpredicate : filler.elementPatternPredicate with
    | none => rfl
    | some predicate =>
      cases predicate with
      | elementPatternWhereClause condition =>
        rw [hpredicate] at h
        cases h
      | elementPropertySpecification text => rfl
  · exact fun edge found h filler hfiller => absurd hfiller not_mem_nil
  · exact fun _ _ _ term ih => ih
  · exact fun _ _ _ found h filler hfiller => absurd hfiller not_mem_nil
  · exact fun found h filler hfiller => absurd hfiller not_mem_nil

theorem quantifyMultiHopCount_pos {count : Nat}
    (h : quantifyMultiHopCount quant = .ok (.fixed count)) : 1 ≤ count := by
  unfold quantifyMultiHopCount at h
  repeat' split at h
  all_goals cases h
  all_goals omega

theorem repeatsOf_pos {repeats : Nat} (h : repeatsOf qppiUnrollCounts quant = .ok repeats) :
    1 ≤ repeats := by
  obtain ⟨hops, hhops, h⟩ := bind_eq_ok.mp h
  cases hops with
  | fixed count =>
    cases h
    exact quantifyMultiHopCount_pos hhops
  | unroll =>
    cases quant with
    | questioned => cases h
    | quantified ctx quantifier =>
      simp only at h
      repeat' split at h
      all_goals cases h
      omega

theorem hasFiller_of_demands {filler : ElementPatternFiller Cond} (hwhere : whereOf (some filler) = none)
    (h : Demands filler) : RowItem.hasFiller (.node (some filler)) = true := by
  rcases h with hlabel | hpredicate
  · have hkey : (labelKeyOf (some filler)).isSome = true := by
      show (filler.isLabelExpression.map LabelExpression.text).isSome = true
      rw [Option.isSome_map]
      exact hlabel
    simp only [RowItem.hasFiller, hkey, Bool.or_true, Bool.true_or]
  · have hkey : (propsKeyOf (some filler)).isSome = true := by
      obtain ⟨predicate, hpredicate⟩ := Option.isSome_iff_exists.mp hpredicate
      cases predicate with
      | elementPatternWhereClause condition =>
        have hsome : whereOf (some filler) = some condition := by
          show filler.elementPatternPredicate.bind _ = _
          rw [hpredicate]
          rfl
        rw [hwhere] at hsome
        cases hsome
      | elementPropertySpecification text =>
        show (filler.elementPatternPredicate.bind _).isSome = true
        rw [hpredicate]
        rfl
    simp only [RowItem.hasFiller, hkey, Bool.or_true]

theorem mem_repeated {filler : ElementPatternFiller Cond} (hinner : Follows inner items)
    (h : quantifyInterior qppiUnrollCounts quant inner st = .ok result)
    (hmem : .node (some filler) ∈ items) (hwhere : whereOf (some filler) = none)
    (hdemands : Demands filler) : .node (some filler) ∈ repeated qppiUnrollCounts quant items := by
  have hfiller : RowItem.hasFiller (.node (some filler)) = true := hasFiller_of_demands hwhere hdemands
  have hslot : ¬ isSlot items := by
    intro hslot
    have hnone := any_eq_false.mp hslot.2 _ hmem
    exact hnone hfiller
  have hcases := quantifyInterior_cases hinner h
  obtain ⟨_, repeats, rst, hrepeats, _⟩ := hcases.resolve_left fun hleft => hslot hleft.1
  have hpos := repeatsOf_pos hrepeats
  unfold repeated
  rw [if_neg hslot, hrepeats]
  apply mem_flatten.mpr
  exact ⟨items, mem_replicate.mpr ⟨by
    show repeats ≠ 0
    omega, rfl⟩, hmem⟩

theorem mem_row (qppiUnrollCounts : Nat → Option Nat) (term : PathTerm Cond) :
    ∀ quantifiedOuter found st result, prescan quantifiedOuter term = .ok found →
      flatten qppiUnrollCounts quantifiedOuter term st = .ok result →
      ∀ filler ∈ fillers term, Demands filler → .node (some filler) ∈ row qppiUnrollCounts term := by
  refine pathTerm_induction
    (P := fun term => ∀ quantifiedOuter found st result, prescan quantifiedOuter term = .ok found →
      flatten qppiUnrollCounts quantifiedOuter term st = .ok result →
      ∀ filler ∈ fillers term, Demands filler → .node (some filler) ∈ row qppiUnrollCounts term)
    (Q := fun factor => ∀ quantifiedOuter found st result,
      prescanFactor quantifiedOuter factor = .ok found →
      flattenFactor qppiUnrollCounts quantifiedOuter factor st = .ok result →
      ∀ filler ∈ fillersOfFactor factor, Demands filler →
        .node (some filler) ∈ rowOfFactor qppiUnrollCounts factor)
    (R := fun primary => ∀ quantified quantifiedOuter found st result,
      prescanPrimary (quantified.isSome || quantifiedOuter) primary = .ok found →
      flattenPrimary qppiUnrollCounts quantifiedOuter quantified primary st = .ok result →
      ∀ filler ∈ fillersOfPrimary primary, Demands filler →
        .node (some filler) ∈ rowOfPrimary qppiUnrollCounts quantified primary)
    ?_ ?_ ?_ ?_ ?_ ?_ ?_ ?_ ?_ ?_ term
  · exact fun _ _ _ _ _ _ filler hfiller => absurd hfiller not_mem_nil
  · intro factor term ihfactor ihterm quantifiedOuter found st result hscan h filler hfiller hdemands
    obtain ⟨a, ha, hscan⟩ := bind_eq_ok.mp hscan
    obtain ⟨b, hb, _⟩ := bind_eq_ok.mp hscan
    obtain ⟨first, hfirst, h⟩ := bind_eq_ok.mp h
    obtain ⟨rest, hrest, _⟩ := bind_eq_ok.mp h
    rcases mem_append.mp hfiller with hfiller | hfiller
    · exact mem_append_left _ (ihfactor _ _ _ _ ha hfirst filler hfiller hdemands)
    · exact mem_append_right _ (ihterm _ _ _ _ hb hrest filler hfiller hdemands)
  · exact fun primary ih => ih none
  · intro ctx primary quantifier ih quantifiedOuter found st result hscan
    obtain ⟨interior, hinterior⟩ := prescanFactor_quantified hscan
    exact ih (some (.quantified ctx quantifier)) quantifiedOuter interior st result hinterior
  · intro primary ih quantifiedOuter found st result hscan
    obtain ⟨interior, hinterior⟩ := prescanFactor_questioned hscan
    exact ih (some .questioned) quantifiedOuter interior st result hinterior
  · intro pattern quantified quantifiedOuter found st result _ _ filler hfiller _
    rw [mem_singleton.mp hfiller]
    exact mem_cons_self
  · exact fun _ _ _ _ _ _ _ _ filler hfiller => absurd hfiller not_mem_nil
  · intro subpathVariable pathMode whereClause term ih quantified quantifiedOuter found st result hscan h
      filler hfiller hdemands
    rcases flattenPrimary_parenthesized h with ⟨rfl, hflat⟩ | ⟨quant, inner, st₁, rfl, hinner, hquant⟩
    · exact ih _ _ _ _ hscan hflat filler hfiller hdemands
    · exact mem_repeated (flatten_follows qppiUnrollCounts term _ _ _ _ hinner) hquant
        (ih true found st _ hscan hinner filler hfiller hdemands)
        (prescan_whereOf term found hscan filler hfiller) hdemands
  · exact fun _ _ _ _ _ _ _ _ _ _ filler hfiller => absurd hfiller not_mem_nil
  · exact fun _ _ _ _ _ _ _ filler hfiller => absurd hfiller not_mem_nil

theorem mem_of_mem_repeated {filler : ElementPatternFiller Cond}
    (h : .node (some filler) ∈ repeated qppiUnrollCounts quant items) :
    .node (some filler) ∈ items := by
  unfold repeated at h
  by_cases hslot : isSlot items
  · rw [if_pos hslot] at h
    simp at h
  · rw [if_neg hslot] at h
    obtain ⟨copy, hcopy, hmem⟩ := mem_flatten.mp h
    rw [(mem_replicate.mp hcopy).2] at hmem
    exact hmem

theorem mem_fillers (qppiUnrollCounts : Nat → Option Nat) (term : PathTerm Cond) :
    ∀ filler, .node (some filler) ∈ row qppiUnrollCounts term → filler ∈ fillers term := by
  refine pathTerm_induction
    (P := fun term ↦ ∀ filler, .node (some filler) ∈ row qppiUnrollCounts term → filler ∈ fillers term)
    (Q := fun factor => ∀ filler, .node (some filler) ∈ rowOfFactor qppiUnrollCounts factor →
      filler ∈ fillersOfFactor factor)
    (R := fun primary => ∀ quantified filler,
      .node (some filler) ∈ rowOfPrimary qppiUnrollCounts quantified primary →
      filler ∈ fillersOfPrimary primary)
    ?_ ?_ ?_ ?_ ?_ ?_ ?_ ?_ ?_ ?_ term
  · exact fun filler h => absurd h not_mem_nil
  · intro factor term ihfactor ihterm filler h
    rcases mem_append.mp h with h | h
    · exact mem_append_left _ (ihfactor filler h)
    · exact mem_append_right _ (ihterm filler h)
  · exact fun primary ih => ih none
  · exact fun ctx primary quantifier ih => ih (some (.quantified ctx quantifier))
  · exact fun primary ih => ih (some .questioned)
  · intro pattern quantified filler h
    cases mem_singleton.mp h
    exact mem_cons_self
  · intro edge quantified filler h
    cases mem_singleton.mp h
  · intro subpathVariable pathMode whereClause term ih quantified filler h
    cases quantified with
    | none => exact ih filler h
    | some quant => exact ih filler (mem_of_mem_repeated h)
  · exact fun _ _ _ _ filler h => absurd h not_mem_nil
  · exact fun _ filler h => absurd h not_mem_nil

/-! ## 4. What a run keeps -/

/-- Patterns in front of the first run. -/
def extend (before : List (Option (ElementPatternFiller Cond))) :
    List (List (Option (ElementPatternFiller Cond))) → List (List (Option (ElementPatternFiller Cond)))
  | [] => [before]
  | run :: rest => (before ++ run) :: rest

def runs : List (RowItem Cond) → List (List (Option (ElementPatternFiller Cond)))
  | [] => [[]]
  | .node filler :: items => extend [filler] (runs items)
  | .edge :: items => [] :: runs items

theorem extend_extend (before after : List (Option (ElementPatternFiller Cond)))
    (rest : List (List (Option (ElementPatternFiller Cond)))) :
    extend before (extend after rest) = extend (before ++ after) rest := by
  cases rest with
  | nil => rfl
  | cons run rest =>
    show (before ++ (after ++ run)) :: rest = (before ++ after ++ run) :: rest
    rw [append_assoc]

theorem extend_runs_nil (items : List (RowItem Cond)) : extend [] (runs items) = runs items := by
  cases items with
  | nil => rfl
  | cons item items =>
    cases item with
    | node filler => exact extend_extend [] [filler] (runs items)
    | edge => rfl

/-- A label expression or a property specification: what the merge compares. -/
def hasKey (filler : Option (ElementPatternFiller Cond)) : Bool :=
  (labelKeyOf filler).isSome || (propsKeyOf filler).isSome

/-- The pattern that stands for a run: the first one with a label or properties or, where none has any,
the first one. -/
def kept (run : List (Option (ElementPatternFiller Cond))) : Option (ElementPatternFiller Cond) :=
  ((run.find? hasKey).or run.head?).join

def Agrees (run : List (Option (ElementPatternFiller Cond))) : Prop :=
  ∀ filler ∈ run, hasKey filler = true →
    labelKeyOf filler = labelKeyOf (kept run) ∧ propsKeyOf filler = propsKeyOf (kept run)

theorem kept_single (filler : Option (ElementPatternFiller Cond)) : kept [filler] = filler := by
  unfold kept
  cases h : hasKey filler with
  | true =>
    rw [find?_cons_of_pos h]
    rfl
  | false =>
    rw [find?_cons_of_neg (by rw [h]; exact Bool.false_ne_true)]
    rfl

theorem agrees_single (filler : Option (ElementPatternFiller Cond)) : Agrees [filler] := by
  intro other hother _
  rw [kept_single, mem_singleton.mp hother]
  exact ⟨rfl, rfl⟩

theorem kept_cases (run : List (Option (ElementPatternFiller Cond))) (hrun : run ≠ []) :
    (run.find? hasKey = some (kept run) ∧ hasKey (kept run) = true) ∨
      (run.find? hasKey = none ∧ run.head? = some (kept run) ∧ hasKey (kept run) = false) := by
  unfold kept
  cases hfind : run.find? hasKey with
  | some filler => exact .inl ⟨rfl, find?_some hfind⟩
  | none =>
    cases run with
    | nil => exact absurd rfl hrun
    | cons filler rest =>
      refine .inr ⟨rfl, rfl, ?_⟩
      exact Bool.eq_false_iff.mpr (List.find?_eq_none.mp hfind filler mem_cons_self)

variable {run : List (Option (ElementPatternFiller Cond))}

theorem hasKey_kept (hmem : filler ∈ run) (hkey : hasKey filler = true) :
    hasKey (kept run) = true := by
  rcases kept_cases run (ne_nil_of_mem hmem) with ⟨_, h⟩ | ⟨hnone, _⟩
  · exact h
  · exact absurd hkey (List.find?_eq_none.mp hnone filler hmem)

theorem kept_append (hrun : run ≠ []) (filler : Option (ElementPatternFiller Cond)) :
    kept (run ++ [filler]) =
      if hasKey (kept run) = false ∧ hasKey filler = true then filler else kept run := by
  have happend : kept (run ++ [filler]) =
      (((run.find? hasKey).or ([filler].find? hasKey)).or (run ++ [filler]).head?).join := by
    unfold kept
    rw [find?_append]
  rw [happend, head?_append_of_ne_nil _ hrun]
  rcases kept_cases run hrun with ⟨hfind, hkey⟩ | ⟨hfind, hhead, hkey⟩
  · rw [hfind, if_neg fun h => by rw [hkey] at h; cases h.1]
    rfl
  · rw [hfind, hhead, hkey]
    cases hfiller : hasKey filler with
    | true =>
      rw [find?_cons_of_pos hfiller, if_pos ⟨rfl, rfl⟩]
      rfl
    | false =>
      rw [find?_cons_of_neg (by rw [hfiller]; exact Bool.false_ne_true), if_neg fun h ↦ by cases h.2]
      rfl

theorem hasKey_eq_false :
    hasKey filler = false ↔ labelKeyOf filler = none ∧ propsKeyOf filler = none := by
  unfold hasKey
  rw [Bool.or_eq_false_iff, Option.isSome_eq_false_iff, Option.isSome_eq_false_iff,
    Option.isNone_iff_eq_none, Option.isNone_iff_eq_none]

theorem mergeFillers_cases (h : mergeFillers acc b = .ok filler) :
    (filler = acc.nodeFiller ∧ labelKeyOf acc.nodeFiller = labelKeyOf b.nodeFiller ∧
      propsKeyOf acc.nodeFiller = propsKeyOf b.nodeFiller) ∨
    (filler = b.nodeFiller ∧ hasKey acc.nodeFiller = false ∧ hasKey b.nodeFiller = true) ∨
    (filler = acc.nodeFiller ∧ hasKey b.nodeFiller = false) := by
  simp only [mergeFillers] at h
  by_cases hsame : labelKeyOf acc.nodeFiller = labelKeyOf b.nodeFiller ∧
      propsKeyOf acc.nodeFiller = propsKeyOf b.nodeFiller
  · rw [if_pos hsame] at h
    exact .inl ⟨(Except.ok.inj h).symm, hsame⟩
  · rw [if_neg hsame] at h
    by_cases hacc : labelKeyOf acc.nodeFiller = none ∧ propsKeyOf acc.nodeFiller = none
    · rw [if_pos hacc] at h
      refine .inr (.inl ⟨(Except.ok.inj h).symm, hasKey_eq_false.mpr hacc, ?_⟩)
      rw [← Bool.not_eq_false, hasKey_eq_false]
      intro hb
      exact hsame ⟨hacc.1.trans hb.1.symm, hacc.2.trans hb.2.symm⟩
    · rw [if_neg hacc] at h
      by_cases hb : labelKeyOf b.nodeFiller = none ∧ propsKeyOf b.nodeFiller = none
      · rw [if_pos hb] at h
        exact .inr (.inr ⟨(Except.ok.inj h).symm, hasKey_eq_false.mpr hb⟩)
      · rw [if_neg hb] at h
        split at h
        all_goals cases h

theorem mergeFillers_kept (hrun : run ≠ []) (hacc : acc.nodeFiller = kept run)
    (hagrees : Agrees run) (h : mergeFillers acc b = .ok filler) :
    filler = kept (run ++ [b.nodeFiller]) ∧ Agrees (run ++ [b.nodeFiller]) := by
  have hcases := mergeFillers_cases h
  rw [hacc] at hcases
  have hkept := kept_append hrun b.nodeFiller
  unfold Agrees
  simp only [forall_mem_append, forall_mem_singleton]
  rcases hcases with ⟨rfl, hlabel, hprops⟩ | ⟨rfl, hfirst, hsecond⟩ | ⟨rfl, hsecond⟩
  · -- with equal keys both are keyed or neither is
    have hkey : hasKey (kept run) = hasKey b.nodeFiller := by
      unfold hasKey
      rw [hlabel, hprops]
    rw [if_neg fun hboth => by rw [hkey, hboth.2] at hboth; cases hboth.1] at hkept
    rw [hkept]
    exact ⟨rfl, hagrees, fun _ => ⟨hlabel.symm, hprops.symm⟩⟩
  · rw [if_pos ⟨hfirst, hsecond⟩] at hkept
    rw [hkept]
    refine ⟨rfl, fun other hother hkey => ?_, fun _ => ⟨rfl, rfl⟩⟩
    rw [hasKey_kept hother hkey] at hfirst
    cases hfirst
  · rw [if_neg fun hboth => by rw [hsecond] at hboth; cases hboth.2] at hkept
    rw [hkept]
    refine ⟨rfl, hagrees, fun hkey => ?_⟩
    rw [hsecond] at hkey
    cases hkey

/-! ## 5. What is emitted -/

def Rendered (run : List (Option (ElementPatternFiller Cond))) (slot : NodeSlot)
    (wheres : List (Where Cond)) : Prop :=
  (run = [] ∧ slot = ⟨none, none, none⟩ ∧ wheres = []) ∨
    (run ≠ [] ∧ Agrees run ∧ ∃ event autoLabelIdx autoLabelIdx',
      event.nodeFiller = kept run ∧ renderNode autoLabelIdx event = (slot, wheres, autoLabelIdx'))

/-- The chain and the conditions of a list of runs; a run at the end that is empty has no node. -/
inductive Emitted : List (List (Option (ElementPatternFiller Cond))) → List (Slot Cond) →
    List (Where Cond) → Prop where
  | nil : Emitted [[]] [] []
  | last {run slot wheres} (hrun : run ≠ []) (h : Rendered run slot wheres) :
      Emitted [run] [.node slot] wheres
  | edge {run slot wheres rest chain wheres'} (edge : EdgeSlot Cond) (h : Rendered run slot wheres)
      (hrest : Emitted rest chain wheres') :
      Emitted (run :: rest) (.node slot :: .edge edge :: chain) (wheres ++ wheres')

/-- The node that is held back stands for the patterns since the last edge. -/
def Pending (before : List (Option (ElementPatternFiller Cond))) : Option (NodeEvent Cond) → Prop
  | none => before = []
  | some node => before ≠ [] ∧ Agrees before ∧ node.nodeFiller = kept before

theorem mergeNode_filler {merged : NodeEvent Cond} {aliases : List (Name × Name)}
    (h : mergeNode acc b = .ok (merged, aliases)) : mergeFillers acc b = .ok merged.nodeFiller := by
  obtain ⟨names, _, h⟩ := bind_eq_ok.mp h
  obtain ⟨filler, hfiller, h⟩ := bind_eq_ok.mp h
  cases h
  exact hfiller

theorem emitChain_emitted (events : List (FlatEvent Cond)) :
    ∀ pending nodeAlias autoLabelIdx emission before, Pending before pending →
      emitChain pending nodeAlias autoLabelIdx events = .ok emission →
      Emitted (extend before (runs (events.map FlatEvent.item))) emission.chain emission.wheres := by
  induction events with
  | nil =>
    intro pending nodeAlias autoLabelIdx emission before hpending h
    cases pending with
    | none =>
      cases h
      rw [show before = [] from hpending]
      exact .nil
    | some node =>
      obtain ⟨hrun, hagrees, hkept⟩ := hpending
      cases h
      show Emitted [before ++ []] _ _
      rw [append_nil]
      exact .last hrun (.inr ⟨hrun, hagrees, node, autoLabelIdx, _, hkept, rfl⟩)
  | cons event events ih =>
    intro pending nodeAlias autoLabelIdx emission before hpending h
    cases event with
    | node b =>
      show Emitted (extend before (extend [b.nodeFiller] _)) _ _
      rw [extend_extend]
      cases pending with
      | none =>
        rw [show before = [] from hpending]
        exact ih (some b) nodeAlias autoLabelIdx emission [b.nodeFiller]
          ⟨cons_ne_nil _ _, agrees_single _, (kept_single _).symm⟩ h
      | some node =>
        obtain ⟨hrun, hagrees, hkept⟩ := hpending
        obtain ⟨merged, hmerged, h⟩ := bind_eq_ok.mp h
        obtain ⟨hfiller, hlonger⟩ :=
          mergeFillers_kept hrun hkept hagrees (mergeNode_filler hmerged)
        apply ih (some merged.1) _ _ _ _ _ h
        exact ⟨append_ne_nil_of_left_ne_nil hrun _, hlonger, hfiller⟩
    | edge event =>
      show Emitted ((before ++ []) :: runs (events.map FlatEvent.item)) _ _
      rw [append_nil]
      cases pending with
      | none =>
        obtain ⟨edge, _, h⟩ := bind_eq_ok.mp h
        obtain ⟨rest, hrest, h⟩ := bind_eq_ok.mp h
        cases h
        have htail := ih none nodeAlias _ rest [] rfl hrest
        rw [extend_runs_nil] at htail
        exact .edge edge (.inl ⟨hpending, rfl, rfl⟩) htail
      | some node =>
        obtain ⟨hrun, hagrees, hkept⟩ := hpending
        obtain ⟨edge, _, h⟩ := bind_eq_ok.mp h
        obtain ⟨rest, hrest, h⟩ := bind_eq_ok.mp h
        cases h
        have htail := ih none nodeAlias _ rest [] rfl hrest
        rw [extend_runs_nil] at htail
        exact .edge edge (.inr ⟨hrun, hagrees, node, autoLabelIdx, _, hkept, rfl⟩) htail

/-! ## 6. What is demanded -/

def RequiresLabel (slot : NodeSlot) (wheres : List (Where Cond)) (expr : LabelExpression) : Prop :=
  if expr.isName then slot.label = some expr.text
  else ∃ var, slot.name = some var ∧ .labels expr.tree var ∈ wheres

structure Requires (slot : NodeSlot) (wheres : List (Where Cond)) (filler : ElementPatternFiller Cond) :
    Prop where
  label : ∀ expr, filler.isLabelExpression = some expr → RequiresLabel slot wheres expr
  props : ∀ text, filler.elementPatternPredicate = some (.elementPropertySpecification text) →
    slot.props = some text
  condition : ∀ condition, filler.elementPatternPredicate = some (.elementPatternWhereClause condition) →
    .searchCondition condition ∈ wheres

variable {slot : NodeSlot}

theorem RequiresLabel.mono {wheres' : List (Where Cond)} {expr : LabelExpression}
    (h : RequiresLabel slot wheres expr) (hsub : wheres ⊆ wheres') :
    RequiresLabel slot wheres' expr := by
  unfold RequiresLabel at h ⊢
  by_cases hname : expr.isName = true
  · rw [if_pos hname] at h ⊢
    exact h
  · rw [if_neg hname] at h ⊢
    obtain ⟨var, hvar, hmem⟩ := h
    exact ⟨var, hvar, hsub hmem⟩

def searchConditions (filler : ElementPatternFiller Cond) : List (Where Cond) :=
  (whereOf (some filler)).toList.map Where.searchCondition

theorem mem_searchConditions {filler : ElementPatternFiller Cond} {condition : Cond} :
    .searchCondition condition ∈ searchConditions filler ↔ whereOf (some filler) = some condition := by
  simp [searchConditions]

def renderFiller (own : List (Where Cond)) (autoLabelIdx : Nat) (var : Option Name)
    (filler : ElementPatternFiller Cond) : NodeSlot × List (Where Cond) × Nat :=
  let props := propsKeyOf (some filler)
  match filler.isLabelExpression with
  | none => (⟨var, none, props⟩, own, autoLabelIdx)
  | some expr =>
    if expr.isName then (⟨var, some expr.text, props⟩, own, autoLabelIdx)
    else
      match var with
      | some var => (⟨some var, none, props⟩, .labels expr.tree var :: own, autoLabelIdx)
      | none =>
        let var := generated "_gql_nl" autoLabelIdx
        (⟨some var, none, props⟩, .labels expr.tree var :: own, autoLabelIdx + 1)

theorem renderNode_filler {event : NodeEvent Cond} {filler : ElementPatternFiller Cond}
    (hfiller : event.nodeFiller = some filler) (autoLabelIdx : Nat) :
    renderNode autoLabelIdx event = renderFiller (searchConditions filler) autoLabelIdx
      (event.nodeName.or filler.elementVariableDeclaration) filler := by
  unfold renderNode
  rw [hfiller]
  obtain ⟨var, label, predicate⟩ := filler
  rcases predicate with _ | ⟨condition⟩ | ⟨text⟩ <;> rfl

theorem renderFiller_spec {own : List (Where Cond)} {var : Option Name}
    {filler : ElementPatternFiller Cond}
    (h : renderFiller own autoLabelIdx var filler = (slot, wheres, autoLabelIdx')) :
    (∀ expr, filler.isLabelExpression = some expr → RequiresLabel slot wheres expr) ∧
    slot.props = propsKeyOf (some filler) ∧
    ∀ condition, .searchCondition condition ∈ wheres ↔ .searchCondition condition ∈ own := by
  unfold renderFiller at h
  cases hlabel : filler.isLabelExpression with
  | none =>
    rw [hlabel] at h
    cases h
    exact ⟨fun expr hexpr => (by cases hexpr), rfl, fun _ => Iff.rfl⟩
  | some expr =>
    rw [hlabel] at h
    simp only at h
    unfold RequiresLabel
    by_cases hname : expr.isName = true
    · rw [if_pos hname] at h
      cases h
      refine ⟨?_, rfl, fun _ => Iff.rfl⟩
      intro other hother
      cases hother
      rw [if_pos hname]
    · rw [if_neg hname] at h
      cases var with
      | none =>
        cases h
        refine ⟨?_, rfl, fun _ => by simp⟩
        intro other hother
        cases hother
        rw [if_neg hname]
        exact ⟨_, rfl, mem_cons_self⟩
      | some var =>
        cases h
        refine ⟨?_, rfl, fun _ => by simp⟩
        intro other hother
        cases hother
        rw [if_neg hname]
        exact ⟨var, rfl, mem_cons_self⟩

theorem renderNode_spec {event : NodeEvent Cond}
    (h : renderNode autoLabelIdx event = (slot, wheres, autoLabelIdx')) :
    (∀ filler expr, event.nodeFiller = some filler → filler.isLabelExpression = some expr →
      RequiresLabel slot wheres expr) ∧
    slot.props = propsKeyOf event.nodeFiller ∧
    ∀ condition, .searchCondition condition ∈ wheres ↔ whereOf event.nodeFiller = some condition := by
  cases hfiller : event.nodeFiller with
  | none =>
    simp only [renderNode, hfiller] at h
    cases h
    simp [propsKeyOf, whereOf]
  | some filler =>
    rw [renderNode_filler hfiller] at h
    obtain ⟨hlabel, hprops, hconditions⟩ := renderFiller_spec h
    refine ⟨?_, hprops, fun condition => (hconditions condition).trans mem_searchConditions⟩
    intro other expr hother hexpr
    cases hother
    exact hlabel expr hexpr

theorem kept_nil : kept ([] : List (Option (ElementPatternFiller Cond))) = none := rfl

theorem Rendered.searchCondition (h : Rendered run slot wheres) (condition : Cond) :
    .searchCondition condition ∈ wheres ↔ whereOf (kept run) = some condition := by
  rcases h with ⟨rfl, _, rfl⟩ | ⟨_, _, event, _, _, hkept, hrender⟩
  · rw [kept_nil]
    simp [whereOf]
  · rw [← hkept]
    exact (renderNode_spec hrender).2.2 condition

variable {rest : List (List (Option (ElementPatternFiller Cond)))}

theorem Emitted.searchCondition {chain : List (Slot Cond)} (h : Emitted rest chain wheres)
    (condition : Cond) :
    .searchCondition condition ∈ wheres ↔ ∃ run ∈ rest, whereOf (kept run) = some condition := by
  induction h with
  | nil => simp [kept_nil, whereOf]
  | last _ h => simp [h.searchCondition condition]
  | edge edge h hrest ih =>
    rw [mem_append, h.searchCondition condition, ih, exists_mem_cons_iff]

def nodeSlots (chain : List (Slot Cond)) : List NodeSlot :=
  chain.filterMap fun
    | .node slot => some slot
    | .edge _ => none

theorem Emitted.node {chain : List (Slot Cond)} {wheres : List (Where Cond)}
    (h : Emitted rest chain wheres) {i : Nat} (hrun : rest[i]? = some run) (hne : run ≠ []) :
    ∃ slot own, (nodeSlots chain)[i]? = some slot ∧ Rendered run slot own ∧ own ⊆ wheres := by
  induction h generalizing i with
  | nil =>
    cases i with
    | zero => exact absurd (Option.some.inj hrun).symm hne
    | succ i => cases hrun
  | @last first slot wheres _ hfirst =>
    cases i with
    | zero =>
      cases hrun
      exact ⟨slot, wheres, rfl, hfirst, fun _ h => h⟩
    | succ i => cases hrun
  | @edge first slot wheres rest chain wheres' edge hfirst hrest ih =>
    cases i with
    | zero =>
      cases hrun
      exact ⟨slot, wheres, rfl, hfirst, subset_append_left _ _⟩
    | succ i =>
      obtain ⟨found, own, hfound, hown, hsub⟩ := ih hrun
      exact ⟨found, own, hfound, hown, fun _ h => mem_append_right _ (hsub h)⟩

/-! ## 7. What is lost -/

def ParsedBy (labelExpression : String → LabelTree) (term : PathTerm Cond) : Prop :=
  ∀ filler ∈ fillers term, ∀ expr, filler.isLabelExpression = some expr →
    expr.tree = labelExpression expr.text

def WheresKept (rest : List (List (Option (ElementPatternFiller Cond)))) : Prop :=
  ∀ run ∈ rest, ∀ filler ∈ run, ∀ condition, whereOf filler = some condition →
    ∃ other ∈ rest, whereOf (kept other) = some condition

theorem mem_extend {before : List (Option (ElementPatternFiller Cond))} :
    (∃ run ∈ extend before rest, filler ∈ run) ↔ filler ∈ before ∨ ∃ run ∈ rest, filler ∈ run := by
  cases rest with
  | nil => simp [extend]
  | cons run rest => simp [extend, or_assoc]

theorem mem_runs : (∃ run ∈ runs items, filler ∈ run) ↔ .node filler ∈ items := by
  induction items with
  | nil => simp [runs]
  | cons item items ih =>
    cases item with
    | node other =>
      show (∃ run ∈ extend [other] (runs items), filler ∈ run) ↔ _
      rw [mem_extend, ih, mem_singleton, mem_cons, RowItem.node.injEq]
    | edge =>
      show (∃ run ∈ [] :: runs items, filler ∈ run) ↔ _
      rw [exists_mem_cons_iff, ih, mem_cons]
      simp

theorem kept_mem (hrun : run ≠ []) : kept run ∈ run := by
  rcases kept_cases run hrun with ⟨hfind, _⟩ | ⟨_, hhead, _⟩
  · exact mem_of_find?_eq_some hfind
  · exact mem_of_head? hhead

theorem Rendered.requires {labelExpression : String → LabelTree} {own : List (Where Cond)}
    (hrendered : Rendered run slot own) (hsub : own ⊆ wheres)
    (hparsed : ∀ filler, some filler ∈ run → ∀ expr, filler.isLabelExpression = some expr →
      expr.tree = labelExpression expr.text)
    {filler : ElementPatternFiller Cond} (hmem : some filler ∈ run) :
    (∀ expr, filler.isLabelExpression = some expr → RequiresLabel slot wheres expr) ∧
    ∀ text, filler.elementPatternPredicate = some (.elementPropertySpecification text) →
      slot.props = some text := by
  rcases hrendered with ⟨rfl, _⟩ | ⟨hrun, hagrees, event, _, _, hkept, hrender⟩
  · exact absurd hmem not_mem_nil
  · obtain ⟨hlabel, hprops, _⟩ := renderNode_spec hrender
    rw [hkept] at hlabel hprops
    refine ⟨?_, ?_⟩
    · intro expr hexpr
      have hkey : labelKeyOf (some filler) = some expr.text := by
        show filler.isLabelExpression.map _ = _
        rw [hexpr]
        rfl
      have hsame := (hagrees _ hmem (by unfold hasKey; rw [hkey]; rfl)).1
      rw [hkey] at hsame
      obtain ⟨other, hother, hsame⟩ := Option.bind_eq_some_iff.mp hsame.symm
      obtain ⟨expr', hexpr', htext⟩ := Option.map_eq_some_iff.mp hsame
      have htree : expr'.tree = expr.tree := by
        rw [hparsed filler hmem expr hexpr, hparsed other (hother ▸ kept_mem hrun) expr' hexpr', htext]
      have hsameExpr : expr' = expr := by
        calc expr' = ⟨expr'.text, expr'.tree⟩ := rfl
          _ = ⟨expr.text, expr.tree⟩ := by rw [htext, htree]
      rw [← hsameExpr]
      exact (hlabel other expr' hother hexpr').mono hsub
    · intro text htext
      have hkey : propsKeyOf (some filler) = some text := by
        show filler.elementPatternPredicate.bind _ = _
        rw [htext]
        rfl
      have hsame := (hagrees _ hmem (by unfold hasKey; rw [hkey]; exact Bool.or_true _)).2
      rw [hprops, ← hsame, hkey]

/-- Of the patterns of an accepted path term, those with a label or a predicate are each in a run; and the
node of each run demands all that its patterns demand if and only if no pattern with a `WHERE` gives way
to another one. -/
theorem junction_requirements (labelExpression : String → LabelTree) (qppiUnrollCounts : Nat → Option Nat)
    (autoVarLenIdx autoLabelIdx : Nat) {term : PathTerm Cond} {factors : List UnrollFactor}
    {translation : Translation Cond} (hparsed : ParsedBy labelExpression term)
    (hscan : prescanTerm term = .ok factors)
    (h : translatePathTerm qppiUnrollCounts autoVarLenIdx autoLabelIdx term = .ok translation) :
    (∀ filler ∈ fillers term, Demands filler →
      ∃ run ∈ runs (row qppiUnrollCounts term), some filler ∈ run) ∧
    ((∀ (i : Nat) (run : List (Option (ElementPatternFiller Cond))),
      (runs (row qppiUnrollCounts term))[i]? = some run → ∀ filler, some filler ∈ run →
        ∃ slot, (nodeSlots translation.chain)[i]? = some slot ∧
          Requires slot translation.wheres filler) ↔
      WheresKept (runs (row qppiUnrollCounts term))) := by
  obtain ⟨found, hfound, _⟩ := bind_eq_ok.mp hscan
  obtain ⟨flat, hflat, h⟩ := bind_eq_ok.mp h
  obtain ⟨emission, hemission, h⟩ := bind_eq_ok.mp h
  cases h
  have hfollows := flatten_follows qppiUnrollCounts term _ _ _ _ hflat
  have hemitted := emitChain_emitted flat.1 none [] autoLabelIdx emission [] rfl hemission
  rw [extend_runs_nil, hfollows.1] at hemitted
  refine ⟨?_, ?_, ?_⟩
  · intro filler hfiller hdemands
    exact mem_runs.mpr (mem_row qppiUnrollCounts term _ _ _ _ hfound hflat filler hfiller hdemands)
  · intro hall run hrun filler hfiller condition hwhere
    obtain ⟨f, rfl, hcondition⟩ := Option.bind_eq_some_iff.mp hwhere
    obtain ⟨predicate, hpredicate, hcondition⟩ := Option.bind_eq_some_iff.mp hcondition
    obtain ⟨i, hi⟩ := mem_iff_getElem?.mp hrun
    obtain ⟨slot, _, hrequires⟩ := hall i run hi f hfiller
    cases predicate with
    | elementPropertySpecification text => cases hcondition
    | elementPatternWhereClause c =>
      cases hcondition
      exact (hemitted.searchCondition condition).mp (hrequires.condition condition hpredicate)
  · intro hkept i run hi filler hfiller
    have hrun := List.mem_of_getElem? hi
    obtain ⟨slot, own, hslot, hrendered, hsub⟩ := hemitted.node hi (ne_nil_of_mem hfiller)
    have hwritten : ∀ f, some f ∈ run → ∀ expr, f.isLabelExpression = some expr →
        expr.tree = labelExpression expr.text := by
      intro f hf
      exact hparsed f (mem_fillers qppiUnrollCounts term f (mem_runs.mp ⟨run, hrun, hf⟩))
    obtain ⟨hlabel, hprops⟩ := hrendered.requires hsub hwritten hfiller
    refine ⟨slot, hslot, hlabel, hprops, ?_⟩
    intro condition hpredicate
    apply (hemitted.searchCondition condition).mpr
    apply hkept run hrun (some filler) hfiller condition
    show filler.elementPatternPredicate.bind _ = _
    rw [hpredicate]
    rfl

end

def nodeWhere (var : Name) (condition : Option String) : PathFactor String :=
  .pfPathPrimary (.nodePattern ⟨some var, none, condition.map .elementPatternWhereClause⟩)

def whereInFront : PathTerm String := .cons (nodeWhere "a" (some "a.x = 1")) (.cons (nodeWhere "a" none) .nil)

theorem junction_requirements_inFront : ParsedBy LabelTree.labelName whereInFront ∧
    ∀ (i : Nat) (run : List (Option (ElementPatternFiller String))),
      (runs (row (fun _ => none) whereInFront))[i]? = some run → ∀ filler, some filler ∈ run →
        ∃ slot, (nodeSlots [@Slot.node String ⟨some "a", none, none⟩])[i]? = some slot ∧
          Requires slot [.searchCondition "a.x = 1"] filler := by
  have hparsed : ParsedBy LabelTree.labelName whereInFront := by
    intro filler hfiller expr hexpr
    simp only [whereInFront, nodeWhere, fillers, fillersOfFactor, fillersOfPrimary, cons_append,
      nil_append, mem_cons, not_mem_nil, or_false] at hfiller
    rcases hfiller with rfl | rfl <;> cases hexpr
  refine ⟨hparsed, (@junction_requirements String LabelTree.labelName (fun _ => none) 0 0
    whereInFront [] ⟨[.node ⟨some "a", none, none⟩], [.searchCondition "a.x = 1"], [], 0, 0⟩ hparsed rfl rfl).2.mpr ?_⟩
  intro run hrun filler hfiller condition hwhere
  cases mem_singleton.mp hrun
  rcases mem_cons.mp hfiller with rfl | hfiller
  · exact ⟨_, mem_cons_self, hwhere⟩
  · rw [mem_singleton.mp hfiller] at hwhere
    cases hwhere

def whereBehindSlot : PathTerm String :=
  let bare : PathFactor String := .pfPathPrimary (.nodePattern ⟨none, none, none⟩)
  .cons (nodeWhere "a" none) (.cons (.pfQuantifiedPathPrimary 0
    (.parenthesized false false false (.cons bare (.cons (.pfPathPrimary
      (.edgePattern (.abbreviatedEdgePattern .rightArrow))) (.cons bare .nil))))
    (.generalQuantifier (some "1") (some "3"))) (.cons (nodeWhere "b" (some "b.x = 1")) .nil))

/-- The bare end of a recursive slot stands for the run, and the condition of `b` is lost. -/
theorem where_lost : ¬ ∀ (labelExpression : String → LabelTree) (qppiUnrollCounts : Nat → Option Nat)
    (autoVarLenIdx autoLabelIdx : Nat) (term : PathTerm String) (factors : List UnrollFactor)
    (translation : Translation String), ParsedBy labelExpression term →
    prescanTerm term = .ok factors →
    translatePathTerm qppiUnrollCounts autoVarLenIdx autoLabelIdx term = .ok translation →
    ∀ (i : Nat) (run : List (Option (ElementPatternFiller String))),
      (runs (row qppiUnrollCounts term))[i]? = some run → ∀ filler, some filler ∈ run →
        ∃ slot, (nodeSlots translation.chain)[i]? = some slot ∧
          Requires slot translation.wheres filler := by
  intro h
  have hparsed : ParsedBy LabelTree.labelName whereBehindSlot := by
    intro filler hfiller expr hexpr
    simp only [whereBehindSlot, nodeWhere, fillers, fillersOfFactor, fillersOfPrimary, cons_append,
      nil_append, mem_cons, not_mem_nil, or_false] at hfiller
    rcases hfiller with rfl | rfl | rfl | rfl <;> cases hexpr
  obtain ⟨slot, _, hrequires⟩ := h LabelTree.labelName (fun _ ↦ none) 0 0 whereBehindSlot [] _ hparsed rfl
    rfl 1 _ rfl _ (mem_cons_of_mem _ mem_cons_self)
  exact absurd (hrequires.condition "b.x = 1" rfl) not_mem_nil

end Ladybug.GqlPath
