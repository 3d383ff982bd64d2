import Ladybug.Gql.CatalogStatements

/-!
# What a catalog statement can do

For each translator, what an accepted statement found and what it leaves.
-/

namespace Ladybug.GqlCatalog

open Except

open Markup (ascii)

def logicalPath (ref : ParentAndName) : Except Bytes Bytes :=
  match ref.parent with
  | none => .ok (rootLogical ref.name)
  | some parent => qualifiedCatalogPath ref.whole parent ref.name

def nameUnder (catalog : SchemaCatalog) (ref : ParentAndName) (path : Bytes) : Bytes :=
  match ref.parent with
  | none => ref.name
  | some _ => (catalog.members[path]?.map Member.physical).getD (manglePhysical path)

/-- A name that the reserved prefix does not refuse. -/
def Unreserved (ref : ParentAndName) (path : Bytes) : Prop :=
  match ref.parent with
  | none => checkReservedPrefix (stripDelims ref.name) = .ok ()
  | some _ => checkReservedInPath path = .ok ()

variable {catalog catalog' : SchemaCatalog} {path p : Bytes} {ref : ParentAndName}
  {anyGraphResolver : Option AnyGraphResolver} {st : CatalogState} {t : Translation}
  {ifExists : Bool}

variable {kind : MemberKind}

theorem resolvePhysical_eq_ok {create : Bool}
    (h : resolvePhysical catalog path create kind = .ok (p, catalog')) :
    checkReservedInPath path = .ok () ∧
      p = (catalog.members[path]?.map Member.physical).getD (manglePhysical path) ∧
      catalog' = if path ∈ catalog.members ∨ create = false then catalog
        else catalog.addMember path p kind := by
  rcases bind_eq_ok.mp h with ⟨_, hcheck, h⟩
  refine ⟨hcheck, ?_⟩
  cases hget : catalog.members[path]? with
  | some found =>
    rw [hget] at h
    have hmem : path ∈ catalog.members := by
      rw [Std.ExtTreeMap.mem_iff_isSome_getElem?, hget]
      rfl
    have heq := ok.inj h
    rw [Prod.mk.injEq] at heq
    rw [if_pos (.inl hmem)]
    exact ⟨heq.1.symm, heq.2.symm⟩
  | none =>
    rw [hget] at h
    have hmem : path ∉ catalog.members := by
      rw [Std.ExtTreeMap.mem_iff_isSome_getElem?, hget]
      exact Bool.false_ne_true
    cases create with
    | false =>
      have heq := ok.inj h
      rw [Prod.mk.injEq] at heq
      rw [if_pos (.inr rfl)]
      exact ⟨heq.1.symm, heq.2.symm⟩
    | true =>
      have heq := ok.inj h
      rw [Prod.mk.injEq] at heq
      rw [if_neg (by simp [hmem])]
      exact ⟨heq.1.symm, heq.1 ▸ heq.2.symm⟩

structure Registers (catalog : SchemaCatalog) (ref : ParentAndName) (kind : MemberKind)
    (path p : Bytes) (catalog' : SchemaCatalog) : Prop where
  logical : logicalPath ref = .ok path
  unreserved : Unreserved ref path
  name : p = nameUnder catalog ref path
  result : catalog' = if path ∈ catalog.members then catalog else catalog.addMember path p kind

/-- What forgetting a name does: a bare name's member goes only if its physical name leads back to it. -/
structure Forgets (catalog : SchemaCatalog) (ref : ParentAndName) (path p : Bytes)
    (catalog' : SchemaCatalog) : Prop where
  logical : logicalPath ref = .ok path
  unreserved : Unreserved ref path
  name : p = nameUnder catalog ref path
  result : catalog' = catalog.removeMemberByLogical path ∧
      (ref.parent = none → catalog.physicalToLogical[p]? = some path) ∨
    catalog' = catalog ∧ ref.parent = none ∧ catalog.physicalToLogical[p]? ≠ some path

variable {logical : Option Bytes} {ifNotExists : Bool} {ctx : CreateGraphStatement}

theorem register_eq_ok (hpath : qualifiedPath ref = .ok logical)
    (h : registerName catalog logical ref.name kind = .ok (p, catalog')) :
    ∃ path, Registers catalog ref kind path p catalog' := by
  unfold qualifiedPath at hpath
  cases hparent : ref.parent with
  | none =>
    rw [hparent] at hpath
    rw [← ok.inj hpath] at h
    rcases bind_eq_ok.mp h with ⟨_, hcheck, h⟩
    have hregisters : p = ref.name ∧ catalog' = if rootLogical ref.name ∈ catalog.members then catalog
        else catalog.addMember (rootLogical ref.name) p kind := by
      split at h
      · rename_i hmem
        have heq := ok.inj h
        rw [Prod.mk.injEq] at heq
        rw [if_pos hmem]
        exact ⟨heq.1.symm, heq.2.symm⟩
      · rename_i hmem
        have heq := ok.inj h
        rw [Prod.mk.injEq] at heq
        rw [if_neg hmem]
        exact ⟨heq.1.symm, heq.1 ▸ heq.2.symm⟩
    refine ⟨rootLogical ref.name, ?_, ?_, ?_, hregisters.2⟩
    · unfold logicalPath
      rw [hparent]
    · unfold Unreserved
      rw [hparent]
      exact hcheck
    · unfold nameUnder
      rw [hparent]
      exact hregisters.1
  | some parent =>
    rw [hparent] at hpath
    rcases bind_eq_ok.mp hpath with ⟨path, hpath, hlogical⟩
    rw [← ok.inj hlogical] at h
    have hresolved := resolvePhysical_eq_ok h
    refine ⟨path, ?_, ?_, ?_, ?_⟩
    · unfold logicalPath
      rw [hparent]
      exact hpath
    · unfold Unreserved
      rw [hparent]
      exact hresolved.1
    · unfold nameUnder
      rw [hparent]
      exact hresolved.2.1
    · rw [hresolved.2.2]
      simp

theorem forget_eq_ok (hpath : qualifiedPath ref = .ok logical)
    (h : forgetName catalog logical ref.name kind = .ok (p, catalog')) :
    ∃ path, Forgets catalog ref path p catalog' := by
  unfold qualifiedPath at hpath
  cases hparent : ref.parent with
  | none =>
    rw [hparent] at hpath
    rw [← ok.inj hpath] at h
    rcases bind_eq_ok.mp h with ⟨_, hcheck, h⟩
    have hforgets : p = ref.name ∧
        (catalog' = catalog.removeMemberByLogical (rootLogical ref.name) ∧
            (ref.parent = none → catalog.physicalToLogical[p]? = some (rootLogical ref.name)) ∨
          catalog' = catalog ∧ ref.parent = none ∧
            catalog.physicalToLogical[p]? ≠ some (rootLogical ref.name)) := by
      split at h
      · rename_i hback
        have heq := ok.inj h
        rw [Prod.mk.injEq] at heq
        exact ⟨heq.1.symm, .inl ⟨heq.2.symm, fun _ => heq.1 ▸ hback⟩⟩
      · rename_i hback
        have heq := ok.inj h
        rw [Prod.mk.injEq] at heq
        exact ⟨heq.1.symm, .inr ⟨heq.2.symm, hparent, heq.1 ▸ hback⟩⟩
    refine ⟨rootLogical ref.name, ?_, ?_, ?_, hforgets.2⟩
    · unfold logicalPath
      rw [hparent]
    · unfold Unreserved
      rw [hparent]
      exact hcheck
    · unfold nameUnder
      rw [hparent]
      exact hforgets.1
  | some parent =>
    rw [hparent] at hpath
    rcases bind_eq_ok.mp hpath with ⟨path, hpath, hlogical⟩
    rw [← ok.inj hlogical] at h
    rcases bind_eq_ok.mp h with ⟨⟨q, c⟩, hresolve, h⟩
    have hresolved := resolvePhysical_eq_ok hresolve
    have heq := ok.inj h
    rw [Prod.mk.injEq] at heq
    refine ⟨path, ?_, ?_, ?_, .inl ⟨heq.2.symm, fun hp => nomatch hparent.symm.trans hp⟩⟩
    · unfold logicalPath
      rw [hparent]
      exact hpath
    · unfold Unreserved
      rw [hparent]
      exact hresolved.1
    · unfold nameUnder
      rw [hparent, ← heq.1]
      exact hresolved.2.1

theorem graphTypeRefName_eq_ok (h : graphTypeRefName catalog (.catalog ref) = .ok p) :
    ∃ path, logicalPath ref = .ok path ∧ Unreserved ref path ∧ p = nameUnder catalog ref path := by
  unfold graphTypeRefName at h
  unfold logicalPath Unreserved nameUnder
  cases hparent : ref.parent with
  | none =>
    simp only [hparent] at h
    rcases bind_eq_ok.mp h with ⟨_, hcheck, h⟩
    exact ⟨rootLogical ref.name, rfl, hcheck, (ok.inj h).symm⟩
  | some parent =>
    simp only [hparent] at h
    rcases bind_eq_ok.mp h with ⟨path, hpath, h⟩
    rcases bind_eq_ok.mp h with ⟨⟨q, c⟩, hresolve, h⟩
    have hresolved := resolvePhysical_eq_ok hresolve
    refine ⟨path, hpath, hresolved.1, ?_⟩
    rw [← ok.inj h]
    exact hresolved.2.1

variable {text : Bytes}

theorem schemaPathText_eq_ok (h : schemaPathText text = .ok path) :
    path = normalizePathWhitespace text ∧ path.head? = some slash ∧
      checkReservedInPath path = .ok () := by
  unfold schemaPathText at h
  by_cases hhead : (normalizePathWhitespace text).head? = some slash
  · rw [if_neg (fun hne => hne hhead)] at h
    rcases bind_eq_ok.mp h with ⟨_, hcheck, h⟩
    have heq := ok.inj h
    rw [← heq]
    exact ⟨rfl, hhead, hcheck⟩
  · rw [if_pos hhead] at h
    rcases bind_eq_ok.mp h with ⟨_, herror, -⟩
    cases herror

structure SchemaFree (anyGraphResolver : Option AnyGraphResolver) (catalog : SchemaCatalog)
    (path : Bytes) : Prop where
  schema : path ∉ catalog.schemas
  directory : catalog.isDirectory path = false
  member : path ∉ catalog.members
  engine : engineGraphAtLogicalPath anyGraphResolver path = false

theorem not_mem_of_getElem? {m : Std.ExtTreeMap Bytes Member} {k : Bytes} (h : m[k]? = none) :
    k ∉ m := by
  rw [Std.ExtTreeMap.mem_iff_isSome_getElem?, h]
  exact Bool.false_ne_true

def CatalogState.withSchema (st : CatalogState) (path : Bytes) : CatalogState :=
  { st with catalog := { st.catalog with schemas := st.catalog.schemas.insert path } }

def CatalogState.withoutSchema (st : CatalogState) (path : Bytes) : CatalogState :=
  { st with catalog := { st.catalog with schemas := st.catalog.schemas.erase path } }

theorem createSchema_eq_ok
    (h : translateCreateSchemaStatement anyGraphResolver st ifNotExists text = .ok t) :
    ∃ path, schemaPathText text = .ok path ∧
      (t = .quiet st ∧ ifNotExists = true ∧ path ∈ st.catalog.schemas ∨
        t = .quiet (st.withSchema path) ∧ SchemaFree anyGraphResolver st.catalog path) := by
  rcases bind_eq_ok.mp h with ⟨path, hpath, h⟩
  refine ⟨path, hpath, ?_⟩
  split at h
  · rename_i hschema
    cases ifNotExists with
    | true => exact .inl ⟨(ok.inj h).symm, rfl, hschema⟩
    | false => cases h
  · rename_i hschema
    obtain ⟨hdir, h⟩ := guard_eq_ok.mp h
    split at h
    · cases h
    · rename_i hmember
      obtain ⟨hengine, h⟩ := guard_eq_ok.mp h
      refine .inr ⟨(ok.inj h).symm, hschema, ?_, not_mem_of_getElem? hmember, ?_⟩
      · exact Bool.eq_false_iff.mpr hdir
      · exact Bool.eq_false_iff.mpr hengine

theorem createSchema_of_free (hpath : schemaPathText text = .ok path)
    (h : SchemaFree anyGraphResolver st.catalog path) :
    translateCreateSchemaStatement anyGraphResolver st ifNotExists text =
      .ok (.quiet (st.withSchema path)) := by
  unfold translateCreateSchemaStatement
  rw [hpath]
  show (if path ∈ st.catalog.schemas then _ else _) = _
  rw [if_neg h.schema, if_neg (by rw [h.directory]; exact Bool.false_ne_true),
    Std.ExtTreeMap.getElem?_eq_none h.member]
  rw [if_neg (by rw [h.engine]; exact Bool.false_ne_true)]
  rfl

/-- A registered schema can be dropped. -/
structure SchemaDroppable (anyGraphResolver : Option AnyGraphResolver) (catalog : SchemaCatalog)
    (path : Bytes) : Prop where
  schema : path ∈ catalog.schemas
  directory : catalog.isDirectory path = false
  member : path ∉ catalog.members
  engine : engineGraphAtLogicalPath anyGraphResolver path = false
  empty : catalog.hasMembersUnder path = false

theorem dropSchema_eq_ok
    (h : translateDropSchemaStatement anyGraphResolver st ifExists text = .ok t) :
    ∃ path, schemaPathText text = .ok path ∧
      (t = .quiet st ∧ ifExists = true ∧ path ∉ st.catalog.schemas ∨
        t = .quiet (st.withoutSchema path) ∧ SchemaDroppable anyGraphResolver st.catalog path) := by
  rcases bind_eq_ok.mp h with ⟨path, hpath, h⟩
  refine ⟨path, hpath, ?_⟩
  obtain ⟨hdir, h⟩ := guard_eq_ok.mp h
  split at h
  · cases h
  · rename_i hmember
    obtain ⟨hengine, h⟩ := guard_eq_ok.mp h
    split at h
    · rename_i hschema
      cases ifExists with
      | true => exact .inl ⟨(ok.inj h).symm, rfl, hschema⟩
      | false => cases h
    · rename_i hschema
      obtain ⟨hunder, h⟩ := guard_eq_ok.mp h
      refine .inr ⟨(ok.inj h).symm, not_not.mp hschema, ?_, not_mem_of_getElem? hmember, ?_, ?_⟩
      · exact Bool.eq_false_iff.mpr hdir
      · exact Bool.eq_false_iff.mpr hengine
      · exact Bool.eq_false_iff.mpr hunder

theorem dropSchema_of_droppable (hpath : schemaPathText text = .ok path)
    (h : SchemaDroppable anyGraphResolver st.catalog path) :
    translateDropSchemaStatement anyGraphResolver st ifExists text =
      .ok (.quiet (st.withoutSchema path)) := by
  unfold translateDropSchemaStatement
  rw [hpath]
  show (if st.catalog.isDirectory path then _ else _) = _
  rw [if_neg (by rw [h.directory]; exact Bool.false_ne_true),
    Std.ExtTreeMap.getElem?_eq_none h.member]
  rw [if_neg (by rw [h.engine]; exact Bool.false_ne_true), if_neg (not_not.mpr h.schema),
    if_neg (by rw [h.empty]; exact Bool.false_ne_true)]
  rfl

theorem createGraphNamedType_eq_ok (h : createGraphNamedType st ctx = .ok t) :
    ∃ (ref : ParentAndName) (path typeName : Bytes) (spec : GraphTypeSpec),
      ctx.typeClause = .reference (.catalog ref) ∧
      logicalPath ref = .ok path ∧ Unreserved ref path ∧
      typeName = nameUnder st.catalog ref path ∧
      (∃ key : Bytes, st.registry[key]? = some spec) ∧ upperCopy typeName ∉ st.registry ∧
      t = .quiet ⟨st.registry.insert (upperCopy typeName) spec,
        st.catalog.addMember path typeName .graphType⟩ := by
  unfold createGraphNamedType at h
  split at h
  · rename_i ref source hclause hsource
    rcases bind_eq_ok.mp h with ⟨typeName, hname, h⟩
    cases ref with
    | parameter => cases hname
    | catalog ref =>
      rcases graphTypeRefName_eq_ok hname with ⟨path, hpath, hunreserved, htypeName⟩
      rcases bind_eq_ok.mp h with ⟨typeLogical, hlogical, h⟩
      have hpath' : typeLogical.getD (rootLogical typeName) = path := by
        unfold logicalPath at hpath
        unfold nameUnder at htypeName
        simp only [qualifiedPath] at hlogical
        cases hparent : ref.parent with
        | none =>
          rw [hparent] at hlogical hpath htypeName
          rw [← ok.inj hlogical, htypeName]
          exact ok.inj hpath
        | some parent =>
          rw [hparent] at hlogical hpath
          rcases bind_eq_ok.mp hlogical with ⟨path', hpath', hlogical⟩
          have heq : path' = path := ok.inj (hpath'.symm.trans hpath)
          rw [← ok.inj hlogical, heq]
          rfl
      rcases bind_eq_ok.mp h with ⟨other, hother, h⟩
      split at h
      · cases h
      · rename_i spec hspec
        obtain ⟨hfresh, h⟩ := guard_eq_ok.mp h
        rw [hpath'] at h
        exact ⟨ref, path, typeName, spec, hclause, hpath, hunreserved, htypeName,
          ⟨_, hspec⟩, hfresh, (ok.inj h).symm⟩
  · cases h

theorem createGraph_eq_ok (h : translateCreateGraphStatement st ctx = .ok t) :
    iequals ctx.parentAndName.name (ascii "TYPE") = true ∧ createGraphNamedType st ctx = .ok t ∨
      iequals ctx.parentAndName.name (ascii "TYPE") = false ∧
        ∃ path p catalog' cypher, Registers st.catalog ctx.parentAndName .graph path p catalog' ∧
          graphDdl st catalog' p ctx.typeClause = .ok cypher ∧
          t = ⟨cypher, { st with catalog := catalog' }, ctx.ifNotExists, p⟩ := by
  obtain ⟨-, h⟩ := guard_eq_ok.mp h
  rcases bind_eq_ok.mp h with ⟨logical, hlogical, h⟩
  split at h
  · rename_i htype
    exact .inl ⟨htype, h⟩
  · rename_i htype
    obtain ⟨-, h⟩ := guard_eq_ok.mp h
    rcases bind_eq_ok.mp h with ⟨⟨p, catalog'⟩, hregister, h⟩
    rcases bind_eq_ok.mp h with ⟨cypher, hcypher, h⟩
    rcases register_eq_ok hlogical hregister with ⟨path, hregisters⟩
    exact .inr ⟨Bool.eq_false_iff.mpr htype, path, p, catalog', cypher, hregisters, hcypher,
      (ok.inj h).symm⟩

theorem createGraphType_eq_ok {ctx : CreateGraphTypeStatement}
    (h : translateCreateGraphTypeStatement st ctx = .ok t) :
    ∃ path p catalog' spec, Registers st.catalog ctx.parentAndName .graphType path p catalog' ∧
      graphTypeSpecOf st catalog' ctx.graphTypeSource = .ok spec ∧
      (t = .quiet { st with catalog := catalog' } ∧ upperCopy p ∈ st.registry ∨
        t = .quiet ⟨st.registry.insert (upperCopy p) spec, catalog'⟩) := by
  rcases bind_eq_ok.mp h with ⟨logical, hlogical, h⟩
  rcases bind_eq_ok.mp h with ⟨⟨p, catalog'⟩, hregister, h⟩
  rcases bind_eq_ok.mp h with ⟨spec, hspec, h⟩
  rcases register_eq_ok hlogical hregister with ⟨path, hregisters⟩
  refine ⟨path, p, catalog', spec, hregisters, hspec, ?_⟩
  change (if upperCopy p ∈ st.registry ∧ ctx.orReplace = false then _ else _) = _ at h
  split at h
  · rename_i hkey
    split at h
    · exact .inl ⟨(ok.inj h).symm, hkey.1⟩
    · cases h
  · exact .inr (ok.inj h).symm

theorem dropGraphType_eq_ok (h : translateDropGraphTypeStatement st ifExists ref = .ok t) :
    ∃ path p catalog', Forgets st.catalog ref path p catalog' ∧
      t = .quiet ⟨st.registry.erase (upperCopy p), catalog'⟩ := by
  rcases bind_eq_ok.mp h with ⟨logical, hlogical, h⟩
  rcases bind_eq_ok.mp h with ⟨⟨p, catalog'⟩, hforget, h⟩
  rcases forget_eq_ok hlogical hforget with ⟨path, hforgets⟩
  refine ⟨path, p, catalog', hforgets, ?_⟩
  split at h
  · exact (ok.inj h).symm
  · rename_i hkey
    -- erasing a key that is not there changes nothing
    have herase : st.registry.erase (upperCopy p) = st.registry := by
      apply Std.ExtTreeMap.ext_getElem?
      intro k
      rw [Std.ExtTreeMap.getElem?_erase]
      split
      · rename_i hk
        rw [← Std.LawfulEqCmp.compare_eq_iff_eq.mp hk, Std.ExtTreeMap.getElem?_eq_none hkey]
      · rfl
    split at h
    · rw [herase]
      exact (ok.inj h).symm
    · cases h

theorem dropGraph_eq_ok (h : translateDropGraphStatement st ifExists ref = .ok t) :
    ∃ path p catalog', Forgets st.catalog ref path p catalog' ∧
      t = ⟨[.dropGraph ifExists p, .emptyResult], { st with catalog := catalog' }, false, []⟩ := by
  rcases bind_eq_ok.mp h with ⟨logical, hlogical, h⟩
  rcases bind_eq_ok.mp h with ⟨⟨p, catalog'⟩, hforget, h⟩
  rcases forget_eq_ok hlogical hforget with ⟨path, hforgets⟩
  exact ⟨path, p, catalog', hforgets, (ok.inj h).symm⟩

end Ladybug.GqlCatalog
