import Mathlib
import Ladybug.Base.Assignments
import Ladybug.Base.Bytes

/-!
# `SET` statements (`gql/src/gql_transformer.cpp`)

`SET` of GQL evaluates all right-hand sides before it assigns, and `SET` of Cypher assigns item by item.
Where the texts of the items say that one reads what another one writes, the values are first projected
by a `WITH`.
-/

namespace Ladybug.GqlSet

open List

abbrev Name := String

/-! ## 1. Items -/

inductive Ref where
  | property (var name : Name)
  | whole (var : Name)
  deriving DecidableEq

/-- A value expression: its text as it is emitted, what it refers to, and what it makes of that. -/
structure Expr (V : Type) where
  text : String
  refs : List Ref
  value : List V → V

inductive SetItem (V : Type) where
  | setLabelItem
  | setPropertyItem (bindingVariableReference propertyName : Name) (valueExpression : Expr V)
  | setAllPropertiesItem (bindingVariableReference : Name)
      (propertyKeyValuePairList : List (Name × Expr V))

/-! ## 2. Cypher -/

inductive Target where
  | property (var name : Name)
  | properties (var : Name)
  deriving DecidableEq

def Target.var : Target → Name
  | .property var _ => var
  | .properties var => var

inductive Source (V : Type) where
  | expression (value : Expr V)
  | map (pairs : List (Name × Expr V))
  | variable (name : Name)

structure CypherItem (V : Type) where
  target : Target
  source : Source V

/-- The variables that a `WITH` projects, and the expressions with their aliases. -/
structure With (V : Type) where
  vars : List Name
  snapshots : List (Source V × Name)

/-- A `SET`, with a `WITH` in front of it or without one. -/
structure CypherSet (V : Type) where
  withClause : Option (With V)
  items : List (CypherItem V)

/-! ## 3. The translation -/

section

variable {V : Type}

def snapshotName (i : Nat) : Name := "__gql_set" ++ i.repr

structure SetParts (V : Type) where
  directParts : List (CypherItem V)
  snapshotParts : List (Source V × Name)
  assignParts : List (CypherItem V)
  snapshotVars : List Name
  needsSnapshot : Bool

def addSnapshotVar (vars : List Name) (var : Name) : List Name :=
  if var ∈ vars then vars else vars ++ [var]

def occursIn (part text : String) : Bool := decide (part.toList <:+: text.toList)

def readsOther (var : Name) (value : Expr V) : SetItem V → Bool
  | .setPropertyItem otherVar otherName _ =>
    otherVar == var && occursIn (var ++ "." ++ otherName) value.text
  | _ => false

def SetParts.add (parts : SetParts V) (i : Nat) (target : Target) (source : Source V)
    (needsSnapshot : Bool) : SetParts V where
  directParts := parts.directParts ++ [⟨target, source⟩]
  snapshotParts := parts.snapshotParts ++ [(source, snapshotName i)]
  assignParts := parts.assignParts ++ [⟨target, .variable (snapshotName i)⟩]
  snapshotVars := addSnapshotVar parts.snapshotVars target.var
  needsSnapshot := parts.needsSnapshot || needsSnapshot

def addItem (items : List (SetItem V)) (i : Nat) (parts : SetParts V) :
    SetItem V → Except String (SetParts V)
  | .setLabelItem => .error "SET label (labels are table types in LadybugDB)"
  | .setPropertyItem var name value =>
    .ok (parts.add i (.property var name) (.expression value)
      (items.zipIdx.any fun other => other.2 != i && readsOther var value other.1))
  | .setAllPropertiesItem var pairs => .ok (parts.add i (.properties var) (.map pairs) false)

/-- The loop over the items, from index `i` on. -/
def addItems (items : List (SetItem V)) : Nat → List (SetItem V) → SetParts V →
    Except String (SetParts V)
  | _, [], parts => .ok parts
  | i, item :: rest, parts => do
      let parts ← addItem items i parts item
      addItems items (i + 1) rest parts

def translateSetStatement (items : List (SetItem V)) : Except String (CypherSet V) := do
  let parts ← addItems items 0 items ⟨[], [], [], [], false⟩
  if parts.needsSnapshot then .ok ⟨some ⟨parts.snapshotVars, parts.snapshotParts⟩, parts.assignParts⟩
  else .ok ⟨none, parts.directParts⟩

end

/-! ## 4. What the statements do -/

section

variable {V E : Type} [DecidableEq E]

inductive Bound (V E : Type) where
  | element (e : E)
  | value (v : V)
  | properties (pairs : List (Name × V))

/-- What values are made of elements and of maps, and what a field of a value is. -/
structure Engine (V E : Type) where
  null : V
  elementValue : E → (Name → V) → V
  mapValue : List (Name × V) → V
  field : V → Name → V

/-- The values of the properties of the elements. -/
abbrev Graph (V E : Type) := E × Name → V

abbrev Row (V E : Type) := Name → Option (Bound V E)

variable (engine : Engine V E)

def Bound.property (g : Graph V E) (name : Name) : Bound V E → V
  | .element e => g (e, name)
  | .value v => engine.field v name
  | .properties pairs => (pairs.lookup name).getD engine.null

def Bound.whole (g : Graph V E) : Bound V E → V
  | .element e => engine.elementValue e fun name => g (e, name)
  | .value v => v
  | .properties pairs => engine.mapValue pairs

def Ref.eval (row : Row V E) (g : Graph V E) : Ref → V
  | .property var name => (row var).elim engine.null (Bound.property engine g name)
  | .whole var => (row var).elim engine.null (Bound.whole engine g)

def Expr.eval (row : Row V E) (g : Graph V E) (e : Expr V) : V := e.value (e.refs.map (Ref.eval engine row g))

def evalPairs (row : Row V E) (g : Graph V E) (pairs : List (Name × Expr V)) : Bound V E :=
  .properties (pairs.map fun pair => (pair.1, pair.2.eval engine row g))

def Source.eval (row : Row V E) (g : Graph V E) : Source V → Bound V E
  | .expression value => .value (value.eval engine row g)
  | .map pairs => evalPairs engine row g pairs
  | .variable name => (row name).getD (.value engine.null)

def Target.cells (row : Row V E) (target : Target) (cell : E × Name) : Bool :=
  match target, row target.var with
  | .property _ name, some (.element e) => e == cell.1 && name == cell.2
  | .properties _, some (.element e) => e == cell.1
  | _, _ => false

def Target.cellValue (g : Graph V E) (bound : Bound V E) (cell : E × Name) : Target → V
  | .property _ _ => bound.whole engine g
  | .properties _ => bound.property engine g cell.2

def assign (row : Row V E) (target : Target) (source : Graph V E → Bound V E) :
    Assignment (E × Name) V where
  writes := target.cells row
  value := fun g cell => target.cellValue engine g (source g) cell

def CypherItem.assignment (row : Row V E) (item : CypherItem V) : Assignment (E × Name) V :=
  assign engine row item.target fun g => item.source.eval engine row g

def With.project (row : Row V E) (g : Graph V E) (w : With V) : Row V E :=
  fun name => if name ∈ w.vars then row name
    else (w.snapshots.find? fun snapshot ↦ snapshot.2 == name).map fun snapshot ↦ snapshot.1.eval engine row g

/-- A `WITH` that gives one name twice is rejected.  The items of a `SET` are applied from left to right. -/
def exec (row : Row V E) (g : Graph V E) (c : CypherSet V) : Option (Graph V E × Row V E) :=
  match c.withClause with
  | none => some (Assignment.inTurn (c.items.map (CypherItem.assignment engine row)) g, row)
  | some w =>
    if (w.vars ++ w.snapshots.map Prod.snd).Nodup then
      let row' := w.project engine row g
      some (Assignment.inTurn (c.items.map (CypherItem.assignment engine row')) g, row')
    else none

def CypherSet.scopeAfter (c : CypherSet V) (scope : List Name) : List Name :=
  c.withClause.elim scope With.vars

def SetItem.assignment (row : Row V E) : SetItem V → Option (Assignment (E × Name) V)
  | .setLabelItem => none
  | .setPropertyItem var name value =>
    some (assign engine row (.property var name) fun g => .value (value.eval engine row g))
  | .setAllPropertiesItem var pairs =>
    some (assign engine row (.properties var) fun g => evalPairs engine row g pairs)

def assignments (row : Row V E) (items : List (SetItem V)) : List (Assignment (E × Name) V) :=
  items.filterMap (SetItem.assignment engine row)

/-- Every right-hand side is evaluated on the graph before the statement. -/
def simultaneous (row : Row V E) (g : Graph V E) (items : List (SetItem V)) : Graph V E :=
  Assignment.atOnce g (assignments engine row items) g

end

/-! ## 5. What is emitted -/

section

variable {V : Type}

/-- The target and the source of an item that is accepted. -/
def SetItem.part : SetItem V → Option (CypherItem V)
  | .setLabelItem => none
  | .setPropertyItem var name value => some ⟨.property var name, .expression value⟩
  | .setAllPropertiesItem var pairs => some ⟨.properties var, .map pairs⟩

def parts (items : List (SetItem V)) : List (CypherItem V) := items.filterMap SetItem.part

def targets (items : List (SetItem V)) : List Name := (parts items).map fun part => part.target.var

def snapshots (i : Nat) (ps : List (CypherItem V)) : List (Source V × Name) :=
  (ps.zipIdx i).map fun p => (p.1.source, snapshotName p.2)

def assigns (i : Nat) (ps : List (CypherItem V)) : List (CypherItem V) :=
  (ps.zipIdx i).map fun p => ⟨p.1.target, .variable (snapshotName p.2)⟩

def addVars (vars : List Name) (ps : List (CypherItem V)) : List Name :=
  ps.foldl (fun vars p => addSnapshotVar vars p.target.var) vars

def NamesOther (items : List (SetItem V)) (i : Nat) : SetItem V → Prop
  | .setPropertyItem var _ value => ∃ j otherName otherValue, j ≠ i ∧
      items[j]? = some (.setPropertyItem var otherName otherValue) ∧
      (var ++ "." ++ otherName).toList <:+: value.text.toList
  | _ => False

/-- Whether the values are projected first. -/
def NeedsSnapshot (items : List (SetItem V)) : Prop :=
  ∃ i item, items[i]? = some item ∧ NamesOther items i item

theorem readsOther_iff {var : Name} {value : Expr V} {item : SetItem V} :
    readsOther var value item = true ↔ ∃ otherName otherValue,
      item = .setPropertyItem var otherName otherValue ∧
      (var ++ "." ++ otherName).toList <:+: value.text.toList := by
  cases item with
  | setLabelItem | setAllPropertiesItem => simp [readsOther]
  | setPropertyItem other otherName otherValue =>
    simp only [readsOther, occursIn, Bool.and_eq_true, beq_iff_eq, decide_eq_true_eq,
      SetItem.setPropertyItem.injEq]
    constructor
    · rintro ⟨rfl, h⟩
      exact ⟨otherName, otherValue, ⟨rfl, rfl, rfl⟩, h⟩
    · rintro ⟨name, v, ⟨rfl, rfl, rfl⟩, h⟩
      exact ⟨rfl, h⟩

variable {i : Nat} {after : SetParts V} {vars : List Name}

variable {items : List (SetItem V)} {before : SetParts V}

theorem addItem_ok {item : SetItem V} (h : addItem items i before item = .ok after) :
    ∃ part needs, item.part = some part ∧ after = before.add i part.target part.source needs ∧
      (needs = true ↔ NamesOther items i item) := by
  cases item with
  | setLabelItem => cases h
  | setPropertyItem var name value =>
    cases h
    refine ⟨⟨.property var name, .expression value⟩, _, rfl, rfl, ?_⟩
    simp only [any_eq_true, mem_zipIdx_iff_getElem?, Bool.and_eq_true, bne_iff_ne, ne_eq,
      readsOther_iff, Prod.exists, NamesOther]
    constructor
    · rintro ⟨other, j, hother, hj, otherName, otherValue, rfl, htext⟩
      exact ⟨j, otherName, otherValue, hj, hother, htext⟩
    · rintro ⟨j, otherName, otherValue, hj, hother, htext⟩
      exact ⟨_, j, hother, hj, otherName, otherValue, rfl, htext⟩
  | setAllPropertiesItem var pairs =>
    cases h
    exact ⟨⟨.properties var, .map pairs⟩, false, rfl, rfl, by simp [NamesOther]⟩

theorem addItems_ok {rest : List (SetItem V)} (h : addItems items i rest before = .ok after) :
    after.directParts = before.directParts ++ parts rest ∧
    after.snapshotParts = before.snapshotParts ++ snapshots i (parts rest) ∧
    after.assignParts = before.assignParts ++ assigns i (parts rest) ∧
    after.snapshotVars = addVars before.snapshotVars (parts rest) ∧
    (after.needsSnapshot = true ↔ before.needsSnapshot = true ∨
      ∃ k item, rest[k]? = some item ∧ NamesOther items (i + k) item) := by
  induction rest generalizing i before with
  | nil =>
    cases h
    simp [parts, snapshots, assigns, addVars]
  | cons item rest ih =>
    obtain ⟨middle, hitem, h⟩ := bind_eq_ok.mp h
    obtain ⟨part, needs, hpart, rfl, hneeds⟩ := addItem_ok hitem
    obtain ⟨hdirect, hsnapshot, hassign, hvars, hneed⟩ := ih h
    have hparts : parts (item :: rest) = part :: parts rest := filterMap_cons_some hpart
    rw [hparts]
    refine ⟨?_, ?_, ?_, ?_, ?_⟩
    · rw [hdirect]
      show before.directParts ++ [part] ++ parts rest = _
      rw [append_assoc]
      rfl
    · rw [hsnapshot]
      show before.snapshotParts ++ [(part.source, snapshotName i)] ++ _ = _
      rw [append_assoc]
      rfl
    · rw [hassign]
      show before.assignParts ++ [⟨part.target, .variable (snapshotName i)⟩] ++ _ = _
      rw [append_assoc]
      rfl
    · exact hvars
    · rw [hneed]
      show (before.needsSnapshot || needs) = true ∨ _ ↔ _
      rw [Bool.or_eq_true, hneeds, or_assoc]
      apply or_congr_right
      have hindex : ∀ k, i + 1 + k = i + (k + 1) := fun k => by omega
      constructor
      · rintro (hfirst | ⟨k, other, hother, hnames⟩)
        · exact ⟨0, item, rfl, hfirst⟩
        · exact ⟨k + 1, other, hother, hindex k ▸ hnames⟩
      · rintro ⟨k, other, hother, hnames⟩
        cases k with
        | zero =>
          cases hother
          exact .inl hnames
        | succ k => exact .inr ⟨k, other, hother, (hindex k).symm ▸ hnames⟩

theorem parts_length {items rest : List (SetItem V)}
    (h : addItems items i rest before = .ok after) :
    (parts rest).length = rest.length := by
  induction rest generalizing i before with
  | nil => rfl
  | cons item rest ih =>
    obtain ⟨middle, hitem, h⟩ := bind_eq_ok.mp h
    obtain ⟨part, _, hpart, _, _⟩ := addItem_ok hitem
    have hparts : parts (item :: rest) = part :: parts rest := filterMap_cons_some hpart
    rw [hparts, length_cons, length_cons, ih h]

theorem mem_addVars {ps : List (CypherItem V)} {var : Name} :
    var ∈ addVars vars ps ↔ var ∈ vars ∨ var ∈ ps.map fun part => part.target.var := by
  induction ps generalizing vars with
  | nil => simp [addVars]
  | cons part ps ih =>
    show var ∈ addVars (addSnapshotVar vars part.target.var) ps ↔ _
    rw [ih, map_cons, mem_cons]
    unfold addSnapshotVar
    split
    · rename_i hmem
      constructor
      · rintro (h | h)
        · exact .inl h
        · exact .inr (.inr h)
      · rintro (h | rfl | h)
        · exact .inl h
        · exact .inl hmem
        · exact .inr h
    · rw [mem_append, mem_singleton, or_assoc]

theorem addVars_nodup (h : vars.Nodup) (ps : List (CypherItem V)) : (addVars vars ps).Nodup := by
  induction ps generalizing vars with
  | nil => exact h
  | cons part ps ih =>
    show (addVars (addSnapshotVar vars part.target.var) ps).Nodup
    apply ih
    unfold addSnapshotVar
    split
    · exact h
    · rename_i hnew
      exact nodup_append'.mpr ⟨h, nodup_singleton _, disjoint_singleton.mpr hnew⟩

theorem snapshotName_injective : Function.Injective snapshotName := by
  intro i j h
  exact Nat.repr_injective (String.append_right_inj _ |>.mp h)

theorem snapshots_names (i : Nat) (ps : List (CypherItem V)) :
    (snapshots i ps).map Prod.snd = (range' i ps.length).map snapshotName := by
  unfold snapshots
  rw [map_map, ← zipIdx_map_snd i ps, map_map]
  rfl

theorem translateSetStatement_ok {c : CypherSet V} (h : translateSetStatement items = .ok c) :
    (parts items).length = items.length ∧
    ((NeedsSnapshot items ∧ c = ⟨some ⟨addVars [] (parts items), snapshots 0 (parts items)⟩,
      assigns 0 (parts items)⟩) ∨
    (¬ NeedsSnapshot items ∧ c = ⟨none, parts items⟩)) := by
  obtain ⟨after, hafter, h⟩ := bind_eq_ok.mp h
  obtain ⟨hdirect, hsnapshot, hassign, hvars, hneed⟩ := addItems_ok hafter
  have hneed' : after.needsSnapshot = true ↔ NeedsSnapshot items := by
    rw [hneed]
    simp [NeedsSnapshot]
  refine ⟨parts_length hafter, ?_⟩
  by_cases hsnap : after.needsSnapshot = true
  · rw [if_pos hsnap] at h
    refine .inl ⟨hneed'.mp hsnap, ?_⟩
    rw [← Except.ok.inj h, hvars, hsnapshot, hassign]
    rfl
  · rw [if_neg hsnap] at h
    refine .inr ⟨fun hneeds => hsnap (hneed'.mpr hneeds), ?_⟩
    rw [← Except.ok.inj h, hdirect]
    rfl

end

/-! ## 6. Snapshots -/

section

variable {V E : Type} (engine : Engine V E)

theorem withNames_nodup (ps : List (CypherItem V)) :
    (addVars [] ps ++ (snapshots 0 ps).map Prod.snd).Nodup ↔
      ∀ var ∈ ps.map fun part => part.target.var, ∀ i < ps.length, var ≠ snapshotName i := by
  rw [snapshots_names, nodup_append']
  have hsnapshots : ((range' 0 ps.length).map snapshotName).Nodup :=
    List.Nodup.map snapshotName_injective nodup_range'
  constructor
  · rintro ⟨_, _, hdisjoint⟩ var hvar i hi rfl
    apply hdisjoint (mem_addVars.mpr (.inr hvar))
    exact mem_map_of_mem (mem_range'_1.mpr ⟨Nat.zero_le i, by omega⟩)
  · intro h
    refine ⟨addVars_nodup nodup_nil ps, hsnapshots, ?_⟩
    intro name hvar hsnapshot
    obtain ⟨i, hi, rfl⟩ := mem_map.mp hsnapshot
    have hi := (mem_range'_1.mp hi).2
    rcases mem_addVars.mp hvar with hvar | hvar
    · exact absurd hvar not_mem_nil
    · exact h _ hvar i (by omega) rfl

variable {ps : List (CypherItem V)} {i : Nat} {g : Graph V E}

variable {part : CypherItem V}

theorem find_snapshot (k : Nat) (hpart : ps[i]? = some part) :
    (snapshots k ps).find? (fun snapshot => snapshot.2 == snapshotName (k + i)) =
      some (part.source, snapshotName (k + i)) := by
  induction ps generalizing k i with
  | nil => cases hpart
  | cons first ps ih =>
    show ((first.source, snapshotName k) :: snapshots (k + 1) ps).find? _ = _
    cases i with
    | zero =>
      cases hpart
      exact find?_cons_of_pos (beq_self_eq_true _)
    | succ i =>
      have hne : (snapshotName k == snapshotName (k + (i + 1))) = false := by
        apply beq_eq_false_iff_ne.mpr
        intro h
        have := snapshotName_injective h
        omega
      have hindex : k + (i + 1) = k + 1 + i := by omega
      rw [find?_cons_of_neg (by rw [hne]; exact Bool.false_ne_true), hindex]
      exact ih (k + 1) hpart

theorem project_snapshot {row : Row V E}
    (hnodup : (addVars [] ps ++ (snapshots 0 ps).map Prod.snd).Nodup) (hpart : ps[i]? = some part) :
    With.project engine row g ⟨addVars [] ps, snapshots 0 ps⟩ (snapshotName i) =
      some (part.source.eval engine row g) := by
  have hi : i < ps.length := (List.getElem?_eq_some_iff.mp hpart).1
  have hfind := find_snapshot 0 hpart
  rw [Nat.zero_add] at hfind
  have hnot : snapshotName i ∉ addVars [] ps := by
    intro hmem
    rcases mem_addVars.mp hmem with hmem | hmem
    · exact absurd hmem not_mem_nil
    · exact (withNames_nodup ps).mp hnodup _ hmem i hi rfl
  unfold With.project
  rw [if_neg hnot, hfind]
  rfl

theorem project_var {row : Row V E} {w : With V} {var : Name} (h : var ∈ w.vars) :
    w.project engine row g var = row var := if_pos h

theorem cellValue_of_ne_element {bound : Bound V E} (h : ∀ e, bound ≠ .element e) (target : Target)
    (g g' : Graph V E) (cell : E × Name) :
    target.cellValue engine g bound cell = target.cellValue engine g' bound cell := by
  cases bound with
  | element e => exact absurd rfl (h e)
  | value | properties => cases target <;> rfl

theorem eval_ne_element {items : List (SetItem V)} (h : part ∈ parts items) (row : Row V E)
    (g : Graph V E) (e : E) : part.source.eval engine row g ≠ .element e := by
  obtain ⟨item, _, hpart⟩ := mem_filterMap.mp h
  cases item with
  | setLabelItem => cases hpart
  | setPropertyItem | setAllPropertiesItem =>
    cases hpart
    intro h
    cases h

end

section

variable {V E : Type} [DecidableEq E] (engine : Engine V E)

theorem assignments_eq (row : Row V E) (items : List (SetItem V)) :
    assignments engine row items = (parts items).map (CypherItem.assignment engine row) := by
  unfold assignments parts
  rw [map_filterMap]
  apply filterMap_congr
  intro item _
  cases item <;> rfl

variable {g s s' : Graph V E}

variable {row : Row V E}

theorem cells_project {w : With V} {target : Target} (h : target.var ∈ w.vars) :
    target.cells (w.project engine row g) = target.cells row := by
  funext cell
  unfold Target.cells
  rw [project_var engine h]

/-- The assignments of the snapshot form write what the items write, with the values on the graph before
the statement. -/
theorem assigns_atOnce {items : List (SetItem V)}
    (hnodup : (addVars [] (parts items) ++ (snapshots 0 (parts items)).map Prod.snd).Nodup) :
    Assignment.inTurn ((assigns 0 (parts items)).map (CypherItem.assignment engine
        (With.project engine row g ⟨addVars [] (parts items), snapshots 0 (parts items)⟩))) g =
      simultaneous engine row g items := by
  have hsource : ∀ p ∈ (parts items).zipIdx 0, p.1 ∈ parts items ∧
      With.project engine row g ⟨addVars [] (parts items), snapshots 0 (parts items)⟩
        (snapshotName p.2) = some (p.1.source.eval engine row g) := by
    intro p hp
    have hpart := mem_zipIdx_iff_getElem?.mp hp
    exact ⟨List.mem_of_getElem? hpart, project_snapshot engine hnodup hpart⟩
  rw [Assignment.inTurn_of_constant _ g]
  · unfold simultaneous
    rw [assignments_eq, ← zipIdx_map_fst 0 (parts items)]
    unfold assigns
    rw [map_map, map_map, zipIdx_map_fst]
    apply Assignment.atOnce_congr
    intro p hp
    obtain ⟨hmem, hproject⟩ := hsource p hp
    refine ⟨?_, ?_⟩
    · apply cells_project
      exact mem_addVars.mpr (.inr (mem_map.mpr ⟨p.1, hmem, rfl⟩))
    · funext cell
      show p.1.target.cellValue engine g ((With.project engine row g _ (snapshotName p.2)).getD _) cell = _
      rw [hproject]
      rfl
  · intro a ha s s'
    obtain ⟨item, hitem, rfl⟩ := mem_map.mp ha
    obtain ⟨p, hp, rfl⟩ := mem_map.mp hitem
    obtain ⟨hmem, hproject⟩ := hsource p hp
    funext cell
    show p.1.target.cellValue engine s ((With.project engine row g _ (snapshotName p.2)).getD _) cell =
      p.1.target.cellValue engine s' ((With.project engine row g _ (snapshotName p.2)).getD _) cell
    rw [hproject]
    exact cellValue_of_ne_element engine (eval_ne_element engine hmem row g) _ _ _ _

/-! ## 7. When `SET` is simultaneous -/

def Simultaneous (row : Row V E) (g : Graph V E) (items : List (SetItem V)) (scope : List Name)
    (c : CypherSet V) : Prop :=
  ∃ row', exec engine row g c = some (simultaneous engine row g items, row') ∧
    ∀ var ∈ scope, var ∈ c.scopeAfter scope ∧ row' var = row var

/-- What is emitted for a `SET` is the simultaneous assignment just where

* the values are projected first, all variables that are used later are targets, and no target is called
  like a snapshot; or
* they are not, and no right-hand side gets another value through the items before it, where it is the
  last to be assigned. -/
theorem set_simultaneous_iff (row : Row V E) (g : Graph V E) (scope : List Name)
    {items : List (SetItem V)} {c : CypherSet V} (h : translateSetStatement items = .ok c) :
    Simultaneous engine row g items scope c ↔
      (NeedsSnapshot items ∧ (∀ var ∈ scope, var ∈ targets items) ∧
        ∀ var ∈ targets items, ∀ i < items.length, var ≠ snapshotName i) ∨
      (¬ NeedsSnapshot items ∧ Assignment.Undisturbed (assignments engine row items) g) := by
  obtain ⟨hlength, ⟨hneeds, rfl⟩ | ⟨hneeds, rfl⟩⟩ := translateSetStatement_ok h
  · have hvars : ∀ var, var ∈ targets items ↔ var ∈ addVars [] (parts items) := by
      intro var
      rw [mem_addVars, targets]
      simp
    have hnodup := withNames_nodup (parts items)
    rw [hlength] at hnodup
    constructor
    · rintro ⟨row', hexec, hscope⟩
      refine .inl ⟨hneeds, fun var hvar => (hvars var).mpr (hscope var hvar).1, ?_⟩
      apply hnodup.mp
      by_contra hnot
      simp only [exec, if_neg hnot] at hexec
      cases hexec
    · rintro (⟨_, hscope, hnames⟩ | ⟨hnot, _⟩)
      · have hdistinct := hnodup.mpr hnames
        refine ⟨With.project engine row g ⟨addVars [] (parts items), snapshots 0 (parts items)⟩, ?_, ?_⟩
        · simp only [exec, if_pos hdistinct]
          rw [assigns_atOnce engine hdistinct]
        · intro var hvar
          have hmem := (hvars var).mp (hscope var hvar)
          exact ⟨hmem, project_var engine hmem⟩
      · exact absurd hneeds hnot
  · have hexec : exec engine row g ⟨none, parts items⟩ =
        some (Assignment.inTurn (assignments engine row items) g, row) := by
      rw [assignments_eq]
      rfl
    rw [← Assignment.inTurn_eq_atOnce_iff]
    unfold Simultaneous
    rw [hexec]
    constructor
    · rintro ⟨row', h, _⟩
      exact .inr ⟨hneeds, congrArg Prod.fst (Option.some.inj h)⟩
    · rintro (⟨hyes, _⟩ | ⟨_, hsame⟩)
      · exact absurd hyes hneeds
      · refine ⟨row, ?_, fun var hvar => ⟨hvar, rfl⟩⟩
        rw [hsame]
        rfl

def MayWrite : SetItem V → Ref → Prop
  | .setLabelItem, _ => False
  | .setPropertyItem _ name _, .property _ other => name = other
  | .setPropertyItem _ _ _, .whole _ => True
  | .setAllPropertiesItem _ _, _ => True

def SetItem.refs : SetItem V → List Ref
  | .setLabelItem => []
  | .setPropertyItem _ _ value => value.refs
  | .setAllPropertiesItem _ pairs => pairs.flatMap fun pair => pair.2.refs

def Independent (items : List (SetItem V)) : Prop :=
  items.Pairwise fun before item => ∀ ref ∈ item.refs, ¬ MayWrite before ref

theorem cells_of_ne {var name : Name} {cell : E × Name} (h : name ≠ cell.2) :
    (Target.property var name).cells row cell = false := by
  have hname : (name == cell.2) = false := beq_eq_false_iff_ne.mpr h
  unfold Target.cells
  cases hbound : row (Target.property var name).var with
  | none => rfl
  | some bound =>
    cases bound with
    | value | properties => rfl
    | element e => exact (congrArg _ hname).trans (Bool.and_false _)

theorem refEval_congr {before : SetItem V} {b : Assignment (E × Name) V}
    (hb : before.assignment engine row = some b) (hsame : ∀ c, b.writes c = false → s c = s' c)
    {ref : Ref} (href : ¬ MayWrite before ref) :
    ref.eval engine row s = ref.eval engine row s' := by
  cases before with
  | setLabelItem => cases hb
  | setAllPropertiesItem var pairs => exact absurd trivial href
  | setPropertyItem var name value =>
    cases ref with
    | whole other => exact absurd trivial href
    | property other otherName =>
      cases hb
      show (row other).elim _ _ = (row other).elim _ _
      cases row other with
      | none => rfl
      | some bound =>
        cases bound with
        | value | properties => rfl
        | element e =>
          exact hsame _ (cells_of_ne href)

theorem value_congr {item : SetItem V} {a : Assignment (E × Name) V}
    (ha : item.assignment engine row = some a)
    (hrefs : ∀ ref ∈ item.refs, ref.eval engine row s = ref.eval engine row s') :
    a.value s = a.value s' := by
  have hexpr : ∀ e : Expr V, (∀ ref ∈ e.refs, ref.eval engine row s = ref.eval engine row s') →
      e.eval engine row s = e.eval engine row s' :=
    fun e h => congrArg e.value (map_congr_left h)
  cases item with
  | setLabelItem => cases ha
  | setPropertyItem var name value =>
    cases ha
    funext cell
    exact hexpr value hrefs
  | setAllPropertiesItem var pairs =>
    cases ha
    have hpairs : evalPairs engine row s pairs = evalPairs engine row s' pairs := by
      unfold evalPairs
      congr 1
      apply map_congr_left
      intro pair hpair
      rw [hexpr pair.2 fun ref href => hrefs ref (mem_flatMap.mpr ⟨pair, hpair, href⟩)]
    funext cell
    show Bound.property engine s cell.2 (evalPairs engine row s pairs) = _
    rw [hpairs]
    rfl

theorem undisturbed_of_independent (row : Row V E) (g : Graph V E) {items : List (SetItem V)}
    (h : Independent items) : Assignment.Undisturbed (assignments engine row items) g := by
  apply Assignment.undisturbed_of_ignores
  apply pairwise_filterMap.mpr
  apply h.imp
  intro before item hrefs b hb a ha s s' hsame
  exact value_congr engine ha fun ref href => refEval_congr engine hb hsame (hrefs ref href)

end

/-! ## 8. Two statements -/

def numbers : Engine Int Nat := ⟨0, fun _ _ => 0, fun _ => 0, fun _ _ => 0⟩

def numberLiteral (n : Int) (text : String) : Expr Int := ⟨text, [], fun _ => n⟩

def propertyRef (var name : Name) : Expr Int :=
  ⟨var ++ "." ++ name, [.property var name], fun values ↦ values.headD 0⟩

def twoNodes : Row Int Nat := fun name =>
  if name = "n" then some (.element 0) else if name = "m" then some (.element 1) else none

def exchange : List (SetItem Int) :=
  [.setPropertyItem "n" "a" (propertyRef "n" "b"), .setPropertyItem "n" "b" (numberLiteral 99 "99")]

theorem set_simultaneous_exchange : Simultaneous numbers twoNodes (fun _ ↦ 20) exchange ["n"]
      ⟨some ⟨["n"], [(.expression (propertyRef "n" "b"), "__gql_set0"),
        (.expression (numberLiteral 99 "99"), "__gql_set1")]⟩,
        [⟨.property "n" "a", .variable "__gql_set0"⟩, ⟨.property "n" "b", .variable "__gql_set1"⟩]⟩ :=
  (set_simultaneous_iff numbers twoNodes (fun _ ↦ 20) ["n"] (by rfl)).mpr
    (.inl ⟨⟨0, _, rfl, 1, "b", _, by decide, rfl, by decide⟩, by decide, by decide⟩)

def acrossVariables : List (SetItem Int) :=
  [.setPropertyItem "n" "a" (numberLiteral 1 "1"), .setPropertyItem "m" "b" (propertyRef "n" "a")]

/-- The two items are about different variables, and `m.b` gets the new `n.a`. -/
theorem new_value_read : ¬ ∀ (engine : Engine Int Nat) (row : Row Int Nat) (g : Graph Int Nat)
    (items : List (SetItem Int)) (scope : List Name) (c : CypherSet Int),
    translateSetStatement items = .ok c → (∀ var ∈ scope, (row var).isSome = true) →
    Simultaneous engine row g items scope c := by
  intro h
  obtain ⟨row', hexec, _⟩ := h numbers twoNodes (fun _ => 0) acrossVariables [] ⟨none,
    [⟨.property "n" "a", .expression (numberLiteral 1 "1")⟩,
      ⟨.property "m" "b", .expression (propertyRef "n" "a")⟩]⟩ rfl (fun _ hvar ↦ absurd hvar not_mem_nil)
  have hcell := congrFun (Prod.mk.inj (Option.some.inj hexec)).1 (1, "b")
  exact absurd hcell (by decide)

end Ladybug.GqlSet
