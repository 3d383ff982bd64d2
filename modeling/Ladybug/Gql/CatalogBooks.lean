import Ladybug.Gql.CatalogRuns

/-!
# The books of the catalog

Members by logical path, logical paths by physical name, and the registry of graph types are kept in
three maps.  A statement that finds its path taken by another kind, a physical name that two paths
share, and names that differ in letter case only, are what can make them disagree.
-/

namespace Ladybug.GqlCatalog

open Option List

open Markup (ascii)
open Records

/-! ## 1. What agrees -/

/-- The two maps between logical paths and physical names are inverse. -/
def SchemaCatalog.Inverse (catalog : SchemaCatalog) : Prop :=
  ∀ path p : Bytes, (∃ kind, catalog.members[path]? = some ⟨p, kind⟩) ↔
    catalog.physicalToLogical[p]? = some path

def SchemaCatalog.HasType (catalog : SchemaCatalog) (key : Bytes) : Prop :=
  ∃ path p : Bytes, catalog.members[path]? = some ⟨p, .graphType⟩ ∧ upperCopy p = key

structure Books (st : CatalogState) : Prop where
  inverse : st.catalog.Inverse
  types : ∀ key, key ∈ st.registry ↔ st.catalog.HasType key

def SchemaCatalog.TypeElsewhere (catalog : SchemaCatalog) (path key : Bytes) : Prop :=
  ∃ other p : Bytes, other ≠ path ∧ catalog.members[other]? = some ⟨p, .graphType⟩ ∧ upperCopy p = key

/-! ## 2. Statements that keep them -/

/-- No other member has the physical name of a new one; a graph type is created where no graph is;
`DROP GRAPH TYPE` spells the name as its only member does, and `DROP GRAPH` names no graph type. -/
structure KeepsBooks (st : CatalogState) (stmt : CatalogStatement) : Prop where
  oneLine : stmt.OneLine
  tabless : ∀ ref, stmt.typeName = some ref → ∀ text ∈ keptTexts ref, tab ∉ text
  fresh : ∀ ref path, stmt.memberName = some ref → logicalPath ref = .ok path →
    ∀ other found, st.catalog.members[other]? = some found →
      found.physical = nameUnder st.catalog ref path → other = path
  createType : ∀ ctx path, stmt = .createGraphType ctx → logicalPath ctx.parentAndName = .ok path →
    path ∈ st.catalog.members → upperCopy (nameUnder st.catalog ctx.parentAndName path) ∈ st.registry
  copyType : ∀ ctx ref path p, stmt = .createGraph ctx → stmt.typeName = some ref →
    logicalPath ref = .ok path → st.catalog.members[path]? = some ⟨p, .graphType⟩ →
      st.catalog.TypeElsewhere path (upperCopy p)
  dropType : ∀ ifExists ref path, stmt = .dropGraphType ifExists ref → logicalPath ref = .ok path →
    ∀ other p, st.catalog.members[other]? = some ⟨p, .graphType⟩ →
      upperCopy p = upperCopy (nameUnder st.catalog ref path) →
        other = path ∧ p = nameUnder st.catalog ref path
  dropGraph : ∀ ifExists ref path p, stmt = .dropGraph ifExists ref → logicalPath ref = .ok path →
    st.catalog.members[path]? = some ⟨p, .graphType⟩ → p = nameUnder st.catalog ref path →
      st.catalog.TypeElsewhere path (upperCopy p)

/-! ## 3. The two maps -/

theorem addMember_reverse (catalog : SchemaCatalog) (path p q : Bytes) (kind : MemberKind) :
    (catalog.addMember path p kind).physicalToLogical[q]? = if p = q then some path
      else if (catalog.members[path]?.map Member.physical) = some q then none
      else catalog.physicalToLogical[q]? := by
  unfold SchemaCatalog.addMember
  cases hget : catalog.members[path]? with
  | none =>
    rw [getElem?_insert_key, map_none, if_neg (fun h : none = some q => nomatch h)]
  | some old =>
    rw [getElem?_insert_key, getElem?_erase_key, map_some]
    simp only [some.injEq]

variable {catalog catalog' : SchemaCatalog} {path p : Bytes} {ref : ParentAndName}

theorem removeMember_reverse {old : Member} (hget : catalog.members[path]? = some old) (q : Bytes) :
    (catalog.removeMemberByLogical path).physicalToLogical[q]? =
      if old.physical = q then none else catalog.physicalToLogical[q]? := by
  unfold SchemaCatalog.removeMemberByLogical
  rw [hget]
  exact getElem?_erase_key catalog.physicalToLogical old.physical q

variable {kind : MemberKind}

theorem inverse_addMember (h : catalog.Inverse)
    (hfresh : ∀ other found, catalog.members[other]? = some found → found.physical = p → other =
      path) :
    (catalog.addMember path p kind).Inverse := by
  intro l q
  rw [addMember_reverse]
  by_cases hl : path = l
  · have hmember : (catalog.addMember path p kind).members[l]? = some ⟨p, kind⟩ := by
      rw [getElem?_addMember, if_pos hl]
    rw [hmember]
    by_cases hq : p = q
    · rw [if_pos hq, hq, hl]
      exact ⟨fun _ => rfl, fun _ => ⟨kind, rfl⟩⟩
    · rw [if_neg hq]
      have hleft : ¬∃ k, some (⟨p, kind⟩ : Member) = some ⟨q, k⟩ := by
        rintro ⟨k, hk⟩
        injection hk with hk
        injection hk with hpq
        exact hq hpq
      refine ⟨fun hk => absurd hk hleft, fun hback => ?_⟩
      -- the old name of the path is forgotten
      obtain ⟨hold, hback⟩ := ite_none_left_eq_some.mp hback
      rcases (h l q).mpr hback with ⟨k, hk⟩
      rw [hl, hk] at hold
      exact absurd rfl hold
  · have hmember : (catalog.addMember path p kind).members[l]? = catalog.members[l]? := by
      rw [getElem?_addMember, if_neg hl]
    rw [hmember]
    by_cases hq : p = q
    · rw [if_pos hq]
      constructor
      · rintro ⟨k, hk⟩
        exact absurd (hfresh l ⟨q, k⟩ hk hq.symm).symm hl
      · intro hback
        exact absurd (some.inj hback) hl
    · rw [if_neg hq]
      split
      · rename_i hold
        constructor
        · intro hk
          rcases map_eq_some_iff.mp hold with ⟨old, hold, hphysical⟩
          have hback : catalog.physicalToLogical[q]? = some path :=
            (h path q).mp ⟨old.kind, by rw [hold, ← hphysical]⟩
          rw [(h l q).mp hk] at hback
          exact absurd (some.inj hback).symm hl
        · exact fun hback => nomatch hback
      · exact h l q

theorem inverse_removeMember (h : catalog.Inverse) (path : Bytes) :
    (catalog.removeMemberByLogical path).Inverse := by
  cases hget : catalog.members[path]? with
  | none =>
    have hsame : catalog.removeMemberByLogical path = catalog := by
      unfold SchemaCatalog.removeMemberByLogical
      rw [hget]
    rw [hsame]
    exact h
  | some old =>
    have hback : catalog.physicalToLogical[old.physical]? = some path :=
      (h path old.physical).mp ⟨old.kind, hget⟩
    intro l q
    rw [getElem?_removeMember, removeMember_reverse hget]
    by_cases hl : path = l
    · rw [if_pos hl]
      refine ⟨fun ⟨_, hk⟩ => (nomatch hk), fun hq => ?_⟩
      obtain ⟨hne, hq⟩ := ite_none_left_eq_some.mp hq
      rcases (h l q).mpr hq with ⟨k, hk⟩
      rw [← hl, hget] at hk
      injection hk with hk
      rw [hk] at hne
      exact absurd rfl hne
    · rw [if_neg hl]
      by_cases hq : old.physical = q
      · rw [if_pos hq]
        constructor
        · intro hk
          have hpath := (h l q).mp hk
          rw [← hq, hback] at hpath
          exact absurd (some.inj hpath) hl
        · exact fun hk => nomatch hk
      · rw [if_neg hq]
        exact h l q

theorem inverse_load (h : catalog.Inverse) (keep : Bytes → Member → Bool) : SchemaCatalog.Inverse
      { schemas := catalog.schemas
        members := catalog.members.filter keep
        physicalToLogical := reverseOf (catalog.members.filter keep).toList } := by
  have hmem : ∀ entry ∈ (catalog.members.filter keep).toList,
      catalog.members[entry.1]? = some entry.2 := by
    intro entry hentry
    have hget := Std.ExtTreeMap.mem_toList_iff_getElem?_eq_some.mp hentry
    rw [Std.ExtTreeMap.getElem?_filter'] at hget
    exact (filter_eq_some_iff.mp hget).1
  -- two members with one physical name are one member
  have hdistinct : ((catalog.members.filter keep).toList.map
      fun entry => (entry.2.physical, entry.1)).Pairwise fun a b => a.1 ≠ b.1 := by
    rw [pairwise_map]
    have hkeys := pairwise_ne_toList (catalog.members.filter keep)
    apply hkeys.imp_of_mem
    intro a b ha hb hne heq
    have hback := (h a.1 a.2.physical).mp ⟨a.2.kind, hmem a ha⟩
    have heq' : a.2.physical = b.2.physical := heq
    rw [heq', (h b.1 b.2.physical).mp ⟨b.2.kind, hmem b hb⟩] at hback
    have hkey : b.1 = a.1 := some.inj hback
    exact hne (Std.LawfulEqCmp.compare_eq_iff_eq.mpr hkey.symm)
  have hreverse : reverseOf (catalog.members.filter keep).toList =
      ((catalog.members.filter keep).toList.map fun entry => (entry.2.physical, entry.1)).foldl
        (fun m entry => m.insert entry.1 entry.2) ∅ := by
    rw [foldl_map]
    rfl
  intro l q
  rw [hreverse, getElem?_foldl_insert hdistinct, List.mem_map]
  constructor
  · rintro ⟨kind, hk⟩
    exact ⟨(l, ⟨q, kind⟩), Std.ExtTreeMap.mem_toList_iff_getElem?_eq_some.mpr hk, rfl⟩
  · rintro ⟨⟨l', found⟩, hentry, heq⟩
    injection heq with hq hl
    have hget := Std.ExtTreeMap.mem_toList_iff_getElem?_eq_some.mp hentry
    refine ⟨found.kind, ?_⟩
    rw [← hl, ← hq]
    exact hget

/-! ## 4. Steps -/

theorem hasType_addMember (key : Bytes) : (catalog.addMember path p kind).HasType key ↔
      kind = .graphType ∧ upperCopy p = key ∨ catalog.TypeElsewhere path key := by
  constructor
  · rintro ⟨l, q, hget, hkey⟩
    rw [getElem?_addMember] at hget
    by_cases hl : path = l
    · rw [if_pos hl] at hget
      injection hget with hget
      injection hget with hp hkind
      exact .inl ⟨hkind, hp ▸ hkey⟩
    · rw [if_neg hl] at hget
      exact .inr ⟨l, q, Ne.symm hl, hget, hkey⟩
  · rintro (⟨rfl, hkey⟩ | ⟨l, q, hl, hget, hkey⟩)
    · refine ⟨path, p, ?_, hkey⟩
      rw [getElem?_addMember, if_pos rfl]
    · refine ⟨l, q, ?_, hkey⟩
      rw [getElem?_addMember, if_neg (Ne.symm hl)]
      exact hget

theorem hasType_removeMember (key : Bytes) :
    (catalog.removeMemberByLogical path).HasType key ↔ catalog.TypeElsewhere path key := by
  constructor
  · rintro ⟨l, q, hget, hkey⟩
    rw [getElem?_removeMember] at hget
    split at hget
    · cases hget
    · rename_i hl
      exact ⟨l, q, Ne.symm hl, hget, hkey⟩
  · rintro ⟨l, q, hl, hget, hkey⟩
    refine ⟨l, q, ?_, hkey⟩
    rw [getElem?_removeMember, if_neg (Ne.symm hl)]
    exact hget

theorem hasType_cases (catalog : SchemaCatalog) (path key : Bytes) :
    catalog.HasType key ↔ catalog.TypeElsewhere path key ∨
      ∃ p, catalog.members[path]? = some ⟨p, .graphType⟩ ∧ upperCopy p = key := by
  constructor
  · rintro ⟨l, q, hget, hkey⟩
    by_cases hl : l = path
    · exact .inr ⟨q, hl ▸ hget, hkey⟩
    · exact .inl ⟨l, q, hl, hget, hkey⟩
  · rintro (⟨l, q, -, hget, hkey⟩ | ⟨p, hget, hkey⟩)
    · exact ⟨l, q, hget, hkey⟩
    · exact ⟨path, p, hget, hkey⟩

theorem Registers.inverse (h : Registers catalog ref kind path p catalog')
    (hinverse : catalog.Inverse)
    (hfresh : ∀ other found, catalog.members[other]? = some found → found.physical =
      nameUnder catalog ref path → other = path) :
    catalog'.Inverse := by
  rw [h.result]
  split
  · exact hinverse
  · apply inverse_addMember hinverse
    rw [h.name]
    exact hfresh

theorem Forgets.inverse (h : Forgets catalog ref path p catalog') (hinverse : catalog.Inverse) :
    catalog'.Inverse := by
  rcases h.result with ⟨hresult, -⟩ | ⟨hresult, -⟩
  · rw [hresult]
    exact inverse_removeMember hinverse path
  · rw [hresult]
    exact hinverse

theorem Registers.graph_types (h : Registers catalog ref .graph path p catalog') (key : Bytes) :
    catalog'.HasType key ↔ catalog.HasType key := by
  rw [h.result]
  split
  · exact Iff.rfl
  · rename_i hmem
    rw [hasType_addMember, hasType_cases catalog path]
    have hnone := Std.ExtTreeMap.getElem?_eq_none hmem
    constructor
    · rintro (⟨hkind, -⟩ | h)
      · cases hkind
      · exact .inl h
    · rintro (h | ⟨q, hget, -⟩)
      · exact .inr h
      · rw [hnone] at hget
        cases hget

theorem Registers.type_types (h : Registers catalog ref .graphType path p catalog') (key : Bytes) :
    catalog'.HasType key ↔ path ∉ catalog.members ∧ upperCopy p = key ∨ catalog.HasType key := by
  rw [h.result]
  split
  · rename_i hmem
    exact ⟨.inr, fun h => h.resolve_left fun hnew => hnew.1 hmem⟩
  · rename_i hmem
    have hnone := Std.ExtTreeMap.getElem?_eq_none hmem
    rw [hasType_addMember, hasType_cases catalog path]
    constructor
    · rintro (⟨-, hkey⟩ | h)
      · exact .inl ⟨hmem, hkey⟩
      · exact .inr (.inl h)
    · rintro (⟨-, hkey⟩ | h | ⟨q, hget, -⟩)
      · exact .inl ⟨rfl, hkey⟩
      · exact .inr h
      · rw [hnone] at hget
        cases hget

theorem Forgets.dropped (h : Forgets catalog ref path p catalog') (hinverse : catalog.Inverse)
    (hback : ref.parent = none → catalog.physicalToLogical[p]? = some path) {found : Member}
    (hget : catalog.members[path]? = some found) : found.physical = p := by
  cases hparent : ref.parent with
  | none =>
    rcases (hinverse path p).mpr (hback hparent) with ⟨kind, hkind⟩
    rw [hget] at hkind
    exact congrArg Member.physical (some.inj hkind)
  | some parent =>
    have hname := h.name
    unfold nameUnder at hname
    rw [hparent, hget] at hname
    exact hname.symm

section

variable {anyGraphResolver : Option AnyGraphResolver} {st : CatalogState} {t : Translation}

theorem books_createGraph {ctx : CreateGraphStatement} (hb : Books st)
    (hmeets : KeepsBooks st (.createGraph ctx))
    (h : translateCreateGraphStatement st ctx = .ok t) : Books t.state := by
  rcases createGraph_eq_ok h with ⟨htype, h⟩ | ⟨htype, path, p, catalog', cypher, hreg, -, rfl⟩
  · rcases createGraphNamedType_eq_ok h with
      ⟨ref, path, name, spec, hclause, hpath, -, hname, -, -, rfl⟩
    have hmember : ctx.memberName = some ref := by
      unfold CreateGraphStatement.memberName
      rw [if_pos htype, hclause]
    have htypeName : CatalogStatement.typeName (.createGraph ctx) = some ref :=
      (if_pos htype).trans hmember
    constructor
    · apply inverse_addMember hb.inverse
      rw [hname]
      exact hmeets.fresh ref path hmember hpath
    · intro key
      show key ∈ st.registry.insert (upperCopy name) spec ↔
        (st.catalog.addMember path name .graphType).HasType key
      rw [Std.ExtTreeMap.mem_insert, Std.LawfulEqCmp.compare_eq_iff_eq, hasType_addMember, hb.types,
        hasType_cases st.catalog path]
      constructor
      · rintro (hkey | helse | ⟨q, hget, hkey⟩)
        · exact .inl ⟨rfl, hkey⟩
        · exact .inr helse
        · -- the type that was at the path is listed elsewhere too
          exact .inr (hkey ▸ hmeets.copyType ctx ref path q rfl htypeName hpath hget)
      · rintro (⟨-, hkey⟩ | helse)
        · exact .inl hkey
        · exact .inr (.inl helse)
  · have hmember : ctx.memberName = some ctx.parentAndName := by
      unfold CreateGraphStatement.memberName
      rw [if_neg (by rw [htype]; exact Bool.false_ne_true)]
    constructor
    · exact hreg.inverse hb.inverse (hmeets.fresh ctx.parentAndName path hmember hreg.logical)
    · exact fun key => (hb.types key).trans (hreg.graph_types key).symm

theorem books_createGraphType {ctx : CreateGraphTypeStatement} (hb : Books st)
    (hmeets : KeepsBooks st (.createGraphType ctx))
    (h : translateCreateGraphTypeStatement st ctx = .ok t) : Books t.state := by
  rcases createGraphType_eq_ok h with ⟨path, p, catalog', spec, hreg, -, hstate⟩
  have hinverse := hreg.inverse hb.inverse (hmeets.fresh ctx.parentAndName path rfl hreg.logical)
  -- a taken path belongs to a type that the registry knows
  have hknown : path ∈ st.catalog.members → upperCopy p ∈ st.registry := by
    intro hmem
    rw [hreg.name]
    exact hmeets.createType ctx path rfl hreg.logical hmem
  rcases hstate with ⟨rfl, hkey⟩ | rfl
  · refine ⟨hinverse, ?_⟩
    intro key
    rw [show (Translation.quiet { st with catalog := catalog' }).state.catalog.HasType key ↔ _ from
      hreg.type_types key, ← hb.types key]
    constructor
    · exact .inr
    · rintro (⟨-, rfl⟩ | hmem)
      · exact hkey
      · exact hmem
  · refine ⟨hinverse, ?_⟩
    intro key
    rw [show (Translation.quiet ⟨_, catalog'⟩).state.catalog.HasType key ↔ _ from
      hreg.type_types key, ← hb.types key]
    show key ∈ st.registry.insert (upperCopy p) spec ↔ _
    rw [Std.ExtTreeMap.mem_insert, Std.LawfulEqCmp.compare_eq_iff_eq]
    constructor
    · rintro (rfl | hmem)
      · by_cases hpath : path ∈ st.catalog.members
        · exact .inr (hknown hpath)
        · exact .inl ⟨hpath, rfl⟩
      · exact .inr hmem
    · rintro (⟨-, rfl⟩ | hmem)
      · exact .inl rfl
      · exact .inr hmem

theorem books_dropGraphType {ifExists : Bool} {ref : ParentAndName} (hb : Books st)
    (hmeets : KeepsBooks st (.dropGraphType ifExists ref))
    (h : translateDropGraphTypeStatement st ifExists ref = .ok t) : Books t.state := by
  rcases dropGraphType_eq_ok h with ⟨path, p, catalog', hforgets, rfl⟩
  have honly : ∀ other q, st.catalog.members[other]? = some ⟨q, .graphType⟩ →
      upperCopy q = upperCopy p → other = path ∧ q = p := by
    rw [hforgets.name]
    exact hmeets.dropType ifExists ref path rfl hforgets.logical
  refine ⟨hforgets.inverse hb.inverse, ?_⟩
  intro key
  show key ∈ st.registry.erase (upperCopy p) ↔ catalog'.HasType key
  rw [Std.ExtTreeMap.mem_erase, Ne, Std.LawfulEqCmp.compare_eq_iff_eq, hb.types]
  rcases hforgets.result with ⟨hresult, hback⟩ | ⟨hresult, -, hback⟩
  · rw [hresult, hasType_removeMember, hasType_cases st.catalog path]
    constructor
    · rintro ⟨hne, helse | ⟨q, hget, hkey⟩⟩
      · exact helse
      · have hq := hforgets.dropped hb.inverse hback hget
        rw [← hq] at hne
        exact absurd hkey hne
    · rintro ⟨l, q, hl, hget, hkey⟩
      refine ⟨?_, .inl ⟨l, q, hl, hget, hkey⟩⟩
      intro hp
      exact hl (honly l q hget (hkey.trans hp.symm)).1
  · rw [hresult]
    constructor
    · exact fun hkey => hkey.2
    · rintro ⟨l, q, hget, hkey⟩
      refine ⟨?_, ⟨l, q, hget, hkey⟩⟩
      -- the name of the only member with this type leads back to it
      intro hp
      have heq := honly l q hget (hkey.trans hp.symm)
      apply hback
      rw [← heq.1, ← heq.2]
      exact (hb.inverse l q).mp ⟨.graphType, hget⟩

theorem books_dropGraph {ifExists : Bool} {ref : ParentAndName} (hb : Books st)
    (hmeets : KeepsBooks st (.dropGraph ifExists ref))
    (h : translateDropGraphStatement st ifExists ref = .ok t) : Books t.state := by
  rcases dropGraph_eq_ok h with ⟨path, p, catalog', hforgets, rfl⟩
  refine ⟨hforgets.inverse hb.inverse, ?_⟩
  intro key
  rw [hb.types]
  rcases hforgets.result with ⟨hresult, hback⟩ | ⟨hresult, -⟩
  · rw [hresult, hasType_removeMember, hasType_cases st.catalog path]
    constructor
    · rintro (helse | ⟨q, hget, hkey⟩)
      · exact helse
      · have hq : q = p := hforgets.dropped hb.inverse hback hget
        rw [← hkey]
        apply hmeets.dropGraph ifExists ref path q rfl hforgets.logical hget
        rw [hq]
        exact hforgets.name
    · exact .inl
  · rw [hresult]

theorem books_step {stmt : CatalogStatement}
    (h : translateLinearCatalog anyGraphResolver st stmt = .ok t) (hb : Books st)
    (hmeets : KeepsBooks st stmt) : Books t.state := by
  cases stmt with
  | createSchema ifNotExists text =>
    rcases createSchema_eq_ok h with ⟨path, -, ⟨rfl, -⟩ | ⟨rfl, -⟩⟩
    · exact hb
    · exact ⟨hb.inverse, hb.types⟩
  | dropSchema ifExists text =>
    rcases dropSchema_eq_ok h with ⟨path, -, ⟨rfl, -⟩ | ⟨rfl, -⟩⟩
    · exact hb
    · exact ⟨hb.inverse, hb.types⟩
  | createGraph ctx => exact books_createGraph hb hmeets h
  | dropGraph ifExists ref => exact books_dropGraph hb hmeets h
  | createGraphType ctx => exact books_createGraphType hb hmeets h
  | dropGraphType ifExists ref => exact books_dropGraphType hb hmeets h

end

/-! ## 5. Runs -/

def TypesTabless (st : CatalogState) : Prop :=
  ∀ path p : Bytes, st.catalog.members[path]? = some ⟨p, .graphType⟩ → tabless path ⟨p, .graphType⟩

theorem load_typesTabless (data : Bytes) : TypesTabless (loadCatalog data) := by
  intro path p hget
  have hnames : StorableNames (loadCatalog data).catalog := deserializeSchemaCatalog_names data
  have hfields := hnames.members path _ hget
  exact decide_eq_true ⟨hfields.1.tab, hfields.2.tab⟩

theorem typesTabless_step {anyGraphResolver : Option AnyGraphResolver} {data : Bytes}
    {stmt : CatalogStatement} {t : Translation}
    (h : translateLinearCatalog anyGraphResolver (loadCatalog data) stmt = .ok t)
    (hmeets : KeepsBooks (loadCatalog data) stmt) : TypesTabless t.state := by
  intro path p hget
  rcases members_step h hget with hold | hadds
  · exact load_typesTabless data path p hold
  · obtain ⟨ref, -, hpath, -, hp, htype⟩ := hadds.named
    have hkept := hmeets.tabless ref (htype rfl)
    have hp' : p = nameUnder (loadCatalog data).catalog ref path := hp
    have hnames : StorableNames (loadCatalog data).catalog := deserializeSchemaCatalog_names data
    refine decide_eq_true ⟨not_mem_logicalPath (by decide) hkept hpath, ?_⟩
    rw [hp']
    apply not_mem_nameUnder (by decide) (by decide) _ hkept hpath
    exact fun found hfound => (hnames.members path found hfound).2.tab

theorem books_load {st : CatalogState} (hb : Books st) (hst : st.OneLine) (htabs : TypesTabless st) :
    Books (loadCatalog (storeCatalog st)) := by
  have hcatalog : (loadCatalog (storeCatalog st)).catalog = _ := load_catalog hst.lines
  have hkeys : ∀ key ∈ st.registry, tab ∉ key := by
    intro key hkey
    rcases (hb.types key).mp hkey with ⟨path, p, hget, rfl⟩
    apply not_mem_upperCopy (fun _ => toUpper_control (by decide))
    exact (of_decide_eq_true (htabs path p hget)).2
  constructor
  · rw [hcatalog]
    exact inverse_load hb.inverse tabless
  · intro key
    rw [load_keys hst hkeys, hb.types, hcatalog]
    constructor
    · rintro ⟨path, p, hget, hkey⟩
      refine ⟨path, p, ?_, hkey⟩
      rw [Std.ExtTreeMap.getElem?_filter', hget]
      exact filter_some_pos (htabs path p hget)
    · rintro ⟨path, p, hget, hkey⟩
      refine ⟨path, p, ?_, hkey⟩
      have hget' : (st.catalog.members.filter tabless)[path]? = some ⟨p, .graphType⟩ := hget
      rw [Std.ExtTreeMap.getElem?_filter'] at hget'
      exact (filter_eq_some_iff.mp hget').1

theorem not_mem_registry_empty (key : Bytes) : key ∉ (loadCatalog []).registry :=
  Std.ExtTreeMap.not_mem_empty

/-- In every state that steps of this kind reach, the three maps agree. -/
theorem books_kept {data : Bytes} (run : CatalogRun KeepsBooks data) : Books (loadCatalog data) := by
  induction run with
  | empty =>
    constructor
    · intro path p
      exact ⟨fun ⟨_, h⟩ => (nomatch h), fun h => (nomatch h)⟩
    · intro key
      refine ⟨fun h => absurd h (not_mem_registry_empty key), ?_⟩
      rintro ⟨path, p, hget, -⟩
      cases hget
  | call anyGraphResolver run meets accepted ih =>
    have hstep := books_step accepted ih meets
    exact books_load hstep (step_oneLine accepted (load_oneLine _) meets.oneLine)
      (typesTabless_step accepted meets)

def sampleType (name : Bytes) : CreateGraphTypeStatement where
  orReplace := false
  ifNotExists := false
  parentAndName := ⟨name, none, name⟩
  graphTypeSource := .nested (.ok ⟨[⟨ascii "N", [⟨ascii "x", ascii "INT64"⟩]⟩], []⟩)

def sampleTypeState : CatalogState where
  registry := (∅ : GraphTypeRegistry).insert (ascii "T")
    ⟨[⟨ascii "N", [⟨ascii "x", ascii "INT64"⟩]⟩], []⟩
  catalog := SchemaCatalog.empty.addMember (ascii "/t") (ascii "t") .graphType

theorem sampleType_accepted : translateLinearCatalog none (loadCatalog [])
    (.createGraphType (sampleType (ascii "t"))) = .ok (.quiet sampleTypeState) := rfl

theorem keepsBooks_sampleType (hempty : st.catalog.members.isEmpty = true) :
    KeepsBooks st (.createGraphType (sampleType (ascii "t"))) := by
  have hnever : ∀ (k : Bytes) (found : Member), st.catalog.members[k]? ≠ some found := by
    intro k found
    rw [Std.ExtTreeMap.isEmpty_iff.mp hempty, Std.ExtTreeMap.getElem?_empty]
    exact nofun
  constructor
  · constructor
    · intro ref href
      rw [← some.inj href]
      decide
    · exact nofun
    · intro ctx spec hctx hsource
      injection hctx with hctx
      rw [← hctx] at hsource
      injection hsource with hsource
      injection hsource with hsource
      rw [← hsource]
      unfold GraphTypeSpec.OneLine
      decide
  · intro ref href
    rw [← some.inj href]
    decide
  · exact fun ref path _ _ other found h => absurd h (hnever other found)
  · exact fun ctx path _ _ h => absurd (Std.ExtTreeMap.getElem?_eq_some_getElem h) (hnever _ _)
  · exact nofun
  · exact nofun
  · exact nofun

theorem keepsBooks_dropType (ref : ParentAndName)
    (honly : ∀ path, logicalPath ref = .ok path → ∀ other found,
      st.catalog.members[other]? = some found →
        other = path ∧ found.physical = nameUnder st.catalog ref path) :
    KeepsBooks st (.dropGraphType false ref) := by
  refine ⟨⟨nofun, nofun, nofun⟩, nofun, nofun, nofun, nofun, ?_, nofun⟩
  intro ifExists ref' path h hpath other p hget _
  cases h
  exact honly path hpath other _ hget

def sampleName : ParentAndName := ⟨ascii "t", none, ascii "t"⟩

/-- The graph type `t` is dropped, and created again. -/
theorem books_kept_again : ∃ t t' t'', translateLinearCatalog none (loadCatalog [])
        (.createGraphType (sampleType (ascii "t"))) = .ok t ∧
      translateLinearCatalog none (loadCatalog (storeCatalog t.state))
        (.dropGraphType false sampleName) = .ok t' ∧
      translateLinearCatalog none (loadCatalog (storeCatalog t'.state))
        (.createGraphType (sampleType (ascii "t"))) = .ok t'' ∧
      Books (loadCatalog (storeCatalog t''.state)) := by
  refine ⟨_, _, _, sampleType_accepted, rfl, rfl, ?_⟩
  refine books_kept (.call none (.call none (.call none .empty
    (keepsBooks_sampleType ?_) sampleType_accepted) (keepsBooks_dropType sampleName ?_) rfl)
    (keepsBooks_sampleType ?_) rfl)
  · rfl
  · intro path hpath other found hget
    cases hpath
    have hone : (loadCatalog (storeCatalog sampleTypeState)).catalog.members.toList.all
        (fun entry => decide (entry.1 = ascii "/t" ∧ entry.2.physical = ascii "t")) = true := by
      decide +kernel
    have hentry := Std.ExtTreeMap.mem_toList_iff_getElem?_eq_some.mpr hget
    exact of_decide_eq_true (List.all_eq_true.mp hone _ hentry)
  · decide +kernel

/-- `CREATE GRAPH g ANY`, and then a graph type `g`: the type is in the registry, and its path is still
the graph's. -/
theorem type_shares_name_with_graph :
    ∃ t t', translateLinearCatalog none (loadCatalog []) (.createGraph
        ⟨false, false, ⟨ascii "g", none, ascii "g"⟩, .openGraphType, none⟩) = .ok t ∧
      translateLinearCatalog none (loadCatalog (storeCatalog t.state))
        (.createGraphType (sampleType (ascii "g"))) = .ok t' ∧
      ¬Books (loadCatalog (storeCatalog t'.state)) := by
  let st : CatalogState :=
    ⟨(∅ : GraphTypeRegistry).insert (ascii "G") ⟨[⟨ascii "N", [⟨ascii "x", ascii "INT64"⟩]⟩], []⟩,
      SchemaCatalog.empty.addMember (ascii "/g") (ascii "g") .graph⟩
  refine ⟨⟨[.createGraph (ascii "g") true, .emptyResult],
    ⟨∅, SchemaCatalog.empty.addMember (ascii "/g") (ascii "g") .graph⟩, false, ascii "g"⟩, .quiet st,
    rfl, rfl, ?_⟩
  intro h
  have hkey : ascii "G" ∈ (loadCatalog (storeCatalog st)).registry := by decide +kernel
  rcases (h.types (ascii "G")).mp hkey with ⟨path, p, hget, -⟩
  have hgraphs : (loadCatalog (storeCatalog st)).catalog.members.toList.all
      (fun entry => decide (entry.2.kind = .graph)) = true := by decide +kernel
  have hentry := Std.ExtTreeMap.mem_toList_iff_getElem?_eq_some.mpr hget
  have hkind := of_decide_eq_true (List.all_eq_true.mp hgraphs _ hentry)
  cases hkind

end Ladybug.GqlCatalog
