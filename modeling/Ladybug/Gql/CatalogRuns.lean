import Ladybug.Gql.CatalogRoundTrip
import Ladybug.Gql.CatalogSteps

/-!
# Runs of catalog statements (`gql/src/function/gql_function.cpp`, `bindFunc`)

A call loads the catalog from the slot, translates its statement, and stores the catalog again.  What a
step may add, and what the next call then sees of it.
-/

namespace Ladybug.GqlCatalog

open List Except

open Markup (ascii)
open Records

/-- The contents of the slot that calls reach from an empty one, each call succeeding with the engine
as it then is.  `Meets` restricts the statements, by the state that they are translated in. -/
inductive CatalogRun (Meets : CatalogState → CatalogStatement → Prop) : Bytes → Prop where
  | empty : CatalogRun Meets []
  | call {data : Bytes} {stmt : CatalogStatement} {t : Translation}
      (anyGraphResolver : Option AnyGraphResolver) (run : CatalogRun Meets data)
      (meets : Meets (loadCatalog data) stmt)
      (accepted : translateLinearCatalog anyGraphResolver (loadCatalog data) stmt = .ok t) :
      CatalogRun Meets (storeCatalog t.state)

/-! ## 1. What a step adds -/

def CreateGraphStatement.memberName (ctx : CreateGraphStatement) : Option ParentAndName :=
  if iequals ctx.parentAndName.name (ascii "TYPE") then
    match ctx.typeClause with
    | .reference (.catalog ref) => some ref
    | _ => none
  else some ctx.parentAndName

def CatalogStatement.memberName : CatalogStatement → Option ParentAndName
  | .createGraph ctx => ctx.memberName
  | .createGraphType ctx => some ctx.parentAndName
  | _ => none

def CatalogStatement.typeName : CatalogStatement → Option ParentAndName
  | .createGraph ctx =>
    if iequals ctx.parentAndName.name (ascii "TYPE") then ctx.memberName else none
  | .createGraphType ctx => some ctx.parentAndName
  | _ => none

structure AddsMember (st : CatalogState) (stmt : CatalogStatement) (path : Bytes) (found : Member) :
    Prop where
  named : ∃ ref, stmt.memberName = some ref ∧ logicalPath ref = .ok path ∧ Unreserved ref path ∧
    found.physical = nameUnder st.catalog ref path ∧
    (found.kind = .graphType → stmt.typeName = some ref)

theorem getElem?_addMember (catalog : SchemaCatalog) (path p k : Bytes) (kind : MemberKind) :
    (catalog.addMember path p kind).members[k]? =
      if path = k then some ⟨p, kind⟩ else catalog.members[k]? :=
  getElem?_insert_key catalog.members path k ⟨p, kind⟩

theorem getElem?_removeMember (catalog : SchemaCatalog) (path k : Bytes) :
    (catalog.removeMemberByLogical path).members[k]? =
      if path = k then none else catalog.members[k]? := by
  unfold SchemaCatalog.removeMemberByLogical
  cases hget : catalog.members[path]? with
  | some old => exact getElem?_erase_key catalog.members path k
  | none =>
    by_cases hk : path = k
    · rw [if_pos hk, ← hk]
      exact hget
    · rw [if_neg hk]

theorem removeMember_schemas (catalog : SchemaCatalog) (path : Bytes) :
    (catalog.removeMemberByLogical path).schemas = catalog.schemas := by
  unfold SchemaCatalog.removeMemberByLogical
  split
  · rfl
  · rfl

variable {catalog catalog' : SchemaCatalog} {ref : ParentAndName} {path p : Bytes} {b : UInt8}
  {st : CatalogState} {stmt : CatalogStatement} {anyGraphResolver : Option AnyGraphResolver}
  {t : Translation}

theorem Registers.schemas {kind : MemberKind} (h : Registers catalog ref kind path p catalog') :
    catalog'.schemas = catalog.schemas := by
  rw [h.result]
  split
  · rfl
  · rfl

theorem Registers.members {kind : MemberKind} (h : Registers catalog ref kind path p catalog')
    (k : Bytes) : catalog'.members[k]? = catalog.members[k]? ∨
      k = path ∧ path ∉ catalog.members ∧ catalog'.members[k]? = some ⟨p, kind⟩ := by
  rw [h.result]
  split
  · exact .inl rfl
  · rename_i hmem
    rw [getElem?_addMember]
    by_cases hk : path = k
    · rw [if_pos hk]
      exact .inr ⟨hk.symm, hmem, rfl⟩
    · rw [if_neg hk]
      exact .inl rfl

theorem Forgets.schemas (h : Forgets catalog ref path p catalog') :
    catalog'.schemas = catalog.schemas := by
  rcases h.result with ⟨hresult, -⟩ | ⟨hresult, -⟩
  · rw [hresult, removeMember_schemas]
  · rw [hresult]

variable {found : Member} {x : UInt8} {s : Bytes} {spec : GraphTypeSpec} {reader : GraphTypeReader}

theorem Forgets.members (h : Forgets catalog ref path p catalog') {k : Bytes}
    (hk : catalog'.members[k]? = some found) : catalog.members[k]? = some found := by
  rcases h.result with ⟨hresult, -⟩ | ⟨hresult, -⟩
  · rw [hresult, getElem?_removeMember] at hk
    split at hk
    · cases hk
    · exact hk
  · rw [← hresult]
    exact hk

section

variable {anyGraphResolver : Option AnyGraphResolver} {st : CatalogState} {stmt : CatalogStatement}
  {t : Translation}

section

variable (h : translateLinearCatalog anyGraphResolver st stmt = .ok t)

include h

theorem members_step {k : Bytes} {found : Member} (hk : t.state.catalog.members[k]? = some found) :
    st.catalog.members[k]? = some found ∨ AddsMember st stmt k found := by
  cases stmt with
  | createSchema ifNotExists text =>
    rcases createSchema_eq_ok h with ⟨path, -, ⟨rfl, -⟩ | ⟨rfl, -⟩⟩
    all_goals exact .inl hk
  | dropSchema ifExists text =>
    rcases dropSchema_eq_ok h with ⟨path, -, ⟨rfl, -⟩ | ⟨rfl, -⟩⟩
    all_goals exact .inl hk
  | createGraph ctx =>
    rcases createGraph_eq_ok h with ⟨htype, h⟩ | ⟨htype, path, p, catalog', cypher, hreg, -, rfl⟩
    · rcases createGraphNamedType_eq_ok h with
        ⟨ref, path, name, spec, hclause, hpath, hunreserved, hname, -, -, rfl⟩
      have hk' : (st.catalog.addMember path name .graphType).members[k]? = some found := hk
      rw [getElem?_addMember] at hk'
      by_cases hpk : path = k
      · rw [if_pos hpk, Option.some.injEq] at hk'
        right
        have hmember : ctx.memberName = some ref := by
          unfold CreateGraphStatement.memberName
          rw [if_pos htype, hclause]
        refine ⟨ref, hmember, hpk ▸ hpath, hpk ▸ hunreserved, ?_, fun _ => ?_⟩
        · rw [← hk', ← hpk]
          exact hname
        · exact (if_pos htype).trans hmember
      · rw [if_neg hpk] at hk'
        exact .inl hk'
    · rcases hreg.members k with hsame | ⟨hkp, -, hnew⟩
      · exact .inl (hsame ▸ hk)
      · right
        have hfound : (⟨p, .graph⟩ : Member) = found := Option.some.inj (hnew.symm.trans hk)
        refine ⟨ctx.parentAndName, ?_, hkp ▸ hreg.logical, hkp ▸ hreg.unreserved, ?_, fun hkind ↦ ?_⟩
        · show ctx.memberName = _
          unfold CreateGraphStatement.memberName
          rw [if_neg (by rw [htype]; exact Bool.false_ne_true)]
        · rw [← hfound, hkp]
          exact hreg.name
        · rw [← hfound] at hkind
          cases hkind
  | dropGraph ifExists ref =>
    rcases dropGraph_eq_ok h with ⟨path, p, catalog', hforgets, rfl⟩
    exact .inl (hforgets.members hk)
  | createGraphType ctx =>
    rcases createGraphType_eq_ok h with ⟨path, p, catalog', spec, hreg, -, ⟨rfl, -⟩ | rfl⟩
    all_goals
      rcases hreg.members k with hsame | ⟨hkp, -, hnew⟩
      · exact .inl (hsame ▸ hk)
      · right
        have hfound : (⟨p, .graphType⟩ : Member) = found := Option.some.inj (hnew.symm.trans hk)
        refine ⟨ctx.parentAndName, rfl, hkp ▸ hreg.logical, hkp ▸ hreg.unreserved, ?_, fun _ => rfl⟩
        rw [← hfound, hkp]
        exact hreg.name
  | dropGraphType ifExists ref =>
    rcases dropGraphType_eq_ok h with ⟨path, p, catalog', hforgets, rfl⟩
    exact .inl (hforgets.members hk)

theorem schemas_step :
    t.state.catalog.schemas = st.catalog.schemas ∨
      (∃ ifNotExists text path, stmt = .createSchema ifNotExists text ∧
        schemaPathText text = .ok path ∧ SchemaFree anyGraphResolver st.catalog path ∧
        t.state = st.withSchema path) ∨
      ∃ path, t.state = st.withoutSchema path := by
  cases stmt with
  | createSchema ifNotExists text =>
    rcases createSchema_eq_ok h with ⟨path, hpath, ⟨rfl, -⟩ | ⟨rfl, hfree⟩⟩
    · exact .inl rfl
    · exact .inr (.inl ⟨ifNotExists, text, path, rfl, hpath, hfree, rfl⟩)
  | dropSchema ifExists text =>
    rcases dropSchema_eq_ok h with ⟨path, -, ⟨rfl, -⟩ | ⟨rfl, -⟩⟩
    · exact .inl rfl
    · exact .inr (.inr ⟨path, rfl⟩)
  | createGraph ctx =>
    rcases createGraph_eq_ok h with ⟨-, h⟩ | ⟨-, path, p, catalog', cypher, hreg, -, rfl⟩
    · rcases createGraphNamedType_eq_ok h with ⟨ref, path, name, spec, -, -, -, -, -, -, rfl⟩
      exact .inl rfl
    · exact .inl hreg.schemas
  | dropGraph ifExists ref =>
    rcases dropGraph_eq_ok h with ⟨path, p, catalog', hforgets, rfl⟩
    exact .inl hforgets.schemas
  | createGraphType ctx =>
    rcases createGraphType_eq_ok h with ⟨path, p, catalog', spec, hreg, -, ⟨rfl, -⟩ | rfl⟩
    all_goals exact .inl hreg.schemas
  | dropGraphType ifExists ref =>
    rcases dropGraphType_eq_ok h with ⟨path, p, catalog', hforgets, rfl⟩
    exact .inl hforgets.schemas

end

end

/-! ## 2. The characters of names -/

def keptTexts (ref : ParentAndName) : List Bytes :=
  match ref.parent with
  | none => [ref.name]
  | some parent =>
    if parent.objectNames.isEmpty then [normalizePathWhitespace ref.whole]
    else (parent.schemaReference.toList ++ parent.objectNames ++ [ref.name]).map
      normalizePathWhitespace

theorem mem_of_mem_stripDelims (h : x ∈ stripDelims s) : x ∈ s := by
  unfold stripDelims at h
  split at h
  · exact mem_of_mem_drop (mem_of_mem_take h)
  · exact h

theorem not_mem_appendName (hb : b ≠ slash) {name : Bytes} (hpath : b ∉ path)
    (hname : b ∉ normalizePathWhitespace name) : b ∉ appendName path name := by
  intro h
  rcases mem_append.mp h with h | h
  · unfold withSlash at h
    split at h
    · exact hpath h
    · rcases mem_append.mp h with h | h
      · exact hpath h
      · exact hb (mem_singleton.mp h)
  · exact hname (mem_of_mem_stripDelims h)

theorem not_mem_foldl_appendName (hb : b ≠ slash) {names : List Bytes} (hpath : b ∉ path)
    (hnames : ∀ name ∈ names, b ∉ normalizePathWhitespace name) :
    b ∉ names.foldl appendName path := by
  induction names generalizing path with
  | nil => exact hpath
  | cons name names ih =>
    rw [forall_mem_cons] at hnames
    exact ih (not_mem_appendName hb hpath hnames.1) hnames.2

theorem not_mem_qualifiedCatalogPath (hb : b ≠ slash) {whole finalName : Bytes}
    {parent : CatalogObjectParentReference}
    (h : ∀ text ∈ keptTexts ⟨whole, some parent, finalName⟩, b ∉ text)
    (hpath : qualifiedCatalogPath whole parent finalName = .ok path) : b ∉ path := by
  unfold qualifiedCatalogPath at hpath
  by_cases hempty : parent.objectNames.isEmpty = true
  · have hwhole : b ∉ normalizePathWhitespace whole := by
      apply h
      simp [keptTexts, hempty]
    rw [if_pos hempty] at hpath
    simp only at hpath
    split at hpath
    · cases hpath
    · exact ok.inj hpath ▸ hwhole
  · have hkept : ∀ text ∈ parent.schemaReference.toList ++ parent.objectNames ++ [finalName],
        b ∉ normalizePathWhitespace text := by
      intro text htext
      apply h
      simp only [keptTexts, if_neg hempty]
      exact mem_map_of_mem htext
    rw [if_neg hempty] at hpath
    rcases bind_eq_ok.mp hpath with ⟨root, hroot, hpath⟩
    rw [← ok.inj hpath]
    apply not_mem_appendName hb
    · apply not_mem_foldl_appendName hb
      · unfold dottedRoot at hroot
        split at hroot
        · rw [← ok.inj hroot]
          exact not_mem_nil
        · rename_i text hschema
          obtain ⟨-, hroot⟩ := guard_eq_ok.mp hroot
          obtain ⟨-, hroot⟩ := guard_eq_ok.mp hroot
          rw [← ok.inj hroot]
          exact hkept text (by simp [hschema])
      · exact fun name hname => hkept name (by simp [hname])
    · exact hkept finalName (by simp)

theorem not_mem_logicalPath (hb : b ≠ slash) (h : ∀ text ∈ keptTexts ref, b ∉ text)
    (hpath : logicalPath ref = .ok path) : b ∉ path := by
  obtain ⟨whole, parent, name⟩ := ref
  cases parent with
  | none =>
    rw [← ok.inj hpath]
    intro hmem
    rcases mem_cons.mp hmem with hmem | hmem
    · exact hb hmem
    · exact h name (by simp [keptTexts]) hmem
  | some parent => exact not_mem_qualifiedCatalogPath hb h hpath

theorem mem_of_mem_intercalate {sep : Bytes} {parts : List Bytes} (h : x ∈ sep.intercalate parts) :
    x ∈ sep ∨ ∃ part ∈ parts, x ∈ part := by
  induction parts with
  | nil => exact absurd h not_mem_nil
  | cons first parts ih =>
    cases parts with
    | nil =>
      rw [intercalate_singleton] at h
      exact .inr ⟨first, mem_cons_self, h⟩
    | cons second parts =>
      rw [intercalate_cons_cons, mem_append, mem_append] at h
      rcases h with (h | h) | h
      · exact .inr ⟨first, mem_cons_self, h⟩
      · exact .inl h
      · rcases ih h with h | ⟨part, hpart, hx⟩
        · exact .inl h
        · exact .inr ⟨part, mem_cons_of_mem _ hpart, hx⟩

theorem not_mem_manglePhysical (hb : b ∉ reservedPrefix) (h : b ∉ path) :
    b ∉ manglePhysical path := by
  intro hmem
  rcases mem_append.mp hmem with hmem | hmem
  · exact hb hmem
  · rcases mem_of_mem_intercalate hmem with hmem | ⟨part, hpart, hx⟩
    · have hunder : b ∈ reservedPrefix := by
        have hb' : b = '_'.toUInt8 := by
          simpa [ascii] using hmem
        rw [hb']
        decide
      exact hb hunder
    · exact h (mem_of_mem_splitOn (mem_of_mem_filter hpart) hx)

/-! ## 3. Names without newlines -/

def GraphTypeSpec.OneLine (spec : GraphTypeSpec) : Prop :=
  ∀ l ∈ spec.nodes.map nodeLine ++ spec.edges.map edgeLine, newline ∉ l

/-- What a statement may store holds no newline.  The lexer lets none into a delimited identifier. -/
structure CatalogStatement.OneLine (stmt : CatalogStatement) : Prop where
  name : ∀ ref, stmt.memberName = some ref → ∀ text ∈ keptTexts ref, newline ∉ text
  schema : ∀ ifNotExists text, stmt = .createSchema ifNotExists text →
    newline ∉ normalizePathWhitespace text
  spec : ∀ ctx spec, stmt = .createGraphType ctx → ctx.graphTypeSource = .nested (.ok spec) →
    spec.OneLine

structure CatalogState.OneLine (st : CatalogState) : Prop where
  registry : ∀ (key : Bytes) (spec : GraphTypeSpec), st.registry[key]? = some spec →
    newline ∉ key ∧ spec.OneLine
  schemas : ∀ path ∈ st.catalog.schemas, newline ∉ path
  members : ∀ (path : Bytes) (found : Member), st.catalog.members[path]? = some found →
    newline ∉ path ∧ newline ∉ found.physical

theorem not_mem_nameUnder (hslash : b ≠ slash) (hb : b ∉ reservedPrefix)
    (hmembers : ∀ found : Member, catalog.members[path]? = some found → b ∉ found.physical)
    (h : ∀ text ∈ keptTexts ref, b ∉ text) (hpath : logicalPath ref = .ok path) :
    b ∉ nameUnder catalog ref path := by
  have hmangled := not_mem_manglePhysical hb (not_mem_logicalPath hslash h hpath)
  unfold nameUnder
  split
  · rename_i hparent
    exact h ref.name (by simp [keptTexts, hparent])
  · cases hget : catalog.members[path]? with
    | none => exact hmangled
    | some found => exact hmembers found hget

theorem not_mem_upperCopy (hb : ∀ c, toUpper c = b → c = b) (h : b ∉ s) : b ∉ upperCopy s := by
  intro hmem
  rcases mem_map.mp hmem with ⟨c, hc, heq⟩
  exact h (hb c heq ▸ hc)

theorem toUpper_control {c : UInt8} (hb : b < 0x20) (h : toUpper c = b) : c = b := by
  unfold toUpper at h
  split at h
  · rename_i hc
    simp only [Bool.and_eq_true, decide_eq_true_eq] at hc
    have hle : (0x20 : UInt8) ≤ c := UInt8.le_trans (by decide) hc.1
    have hnat := congrArg UInt8.toNat h
    rw [UInt8.toNat_sub_of_le c 0x20 hle] at hnat
    have hlow : (0x61 : UInt8).toNat ≤ c.toNat := hc.1
    have hhigh : b.toNat < (0x20 : UInt8).toNat := hb
    have h61 : (0x61 : UInt8).toNat = 97 := rfl
    have h20 : (0x20 : UInt8).toNat = 32 := rfl
    omega
  · exact h

theorem AddsMember.newline (h : AddsMember st stmt path found) (hst : st.OneLine)
    (hstmt : stmt.OneLine) : newline ∉ path ∧ newline ∉ found.physical := by
  obtain ⟨ref, hname, hpath, -, hp, -⟩ := h.named
  have hkept := hstmt.name ref hname
  refine ⟨not_mem_logicalPath (by decide) hkept hpath, ?_⟩
  rw [hp]
  apply not_mem_nameUnder (by decide) (by decide) _ hkept hpath
  exact fun found hfound => (hst.members path found hfound).2

section

variable (h : translateLinearCatalog anyGraphResolver st stmt = .ok t)

include h

/-- A type of the registry after a step was one before, or a statement that names a member adds it. -/
theorem registry_step {key : Bytes} (hkey : t.state.registry[key]? = some spec) :
    st.registry[key]? = some spec ∨
      (∃ path p, AddsMember st stmt path ⟨p, .graphType⟩ ∧ key = upperCopy p) ∧
        ((∃ other : Bytes, st.registry[other]? = some spec) ∨
          ∃ ctx, stmt = .createGraphType ctx ∧ ctx.graphTypeSource = .nested (.ok spec)) := by
  cases stmt with
  | createSchema ifNotExists text =>
    rcases createSchema_eq_ok h with ⟨path, -, ⟨rfl, -⟩ | ⟨rfl, -⟩⟩
    all_goals exact .inl hkey
  | dropSchema ifExists text =>
    rcases dropSchema_eq_ok h with ⟨path, -, ⟨rfl, -⟩ | ⟨rfl, -⟩⟩
    all_goals exact .inl hkey
  | createGraph ctx =>
    rcases createGraph_eq_ok h with ⟨htype, h⟩ | ⟨-, path, p, catalog', cypher, -, -, rfl⟩
    · rcases createGraphNamedType_eq_ok h with
        ⟨ref, path, name, found, hclause, hpath, hunreserved, hname, hfound, -, rfl⟩
      have hkey' : (st.registry.insert (upperCopy name) found)[key]? = some spec := hkey
      rw [getElem?_insert_key] at hkey'
      by_cases hk : upperCopy name = key
      · rw [if_pos hk, Option.some.injEq] at hkey'
        right
        have hmember : ctx.memberName = some ref := by
          unfold CreateGraphStatement.memberName
          rw [if_pos htype, hclause]
        have htypeName : CatalogStatement.typeName (.createGraph ctx) = some ref :=
          (if_pos htype).trans hmember
        exact ⟨⟨path, name, ⟨ref, hmember, hpath, hunreserved, hname, fun _ => htypeName⟩, hk.symm⟩,
          .inl (hkey' ▸ hfound)⟩
      · rw [if_neg hk] at hkey'
        exact .inl hkey'
    · exact .inl hkey
  | dropGraph ifExists ref =>
    rcases dropGraph_eq_ok h with ⟨path, p, catalog', -, rfl⟩
    exact .inl hkey
  | createGraphType ctx =>
    rcases createGraphType_eq_ok h with ⟨path, p, catalog', found, hreg, hspec, ⟨rfl, -⟩ | rfl⟩
    · exact .inl hkey
    · have hkey' : (st.registry.insert (upperCopy p) found)[key]? = some spec := hkey
      rw [getElem?_insert_key] at hkey'
      by_cases hk : upperCopy p = key
      · rw [if_pos hk, Option.some.injEq] at hkey'
        rw [hkey'] at hspec
        right
        refine ⟨⟨path, p, ⟨ctx.parentAndName, rfl, hreg.logical, hreg.unreserved, hreg.name,
          fun _ => rfl⟩, hk.symm⟩, ?_⟩
        unfold graphTypeSpecOf at hspec
        split at hspec
        · rename_i specification hsource
          exact .inr ⟨ctx, rfl, hsource.trans (congrArg GraphTypeSource.nested hspec)⟩
        · rcases bind_eq_ok.mp hspec with ⟨other, -, hspec⟩
          split at hspec
          · cases hspec
          · rename_i srcSpec hfind
            exact .inl ⟨upperCopy other, ok.inj hspec ▸ hfind⟩
        · cases hspec
      · rw [if_neg hk] at hkey'
        exact .inl hkey'
  | dropGraphType ifExists ref =>
    rcases dropGraphType_eq_ok h with ⟨path, p, catalog', -, rfl⟩
    have hkey' : (st.registry.erase (upperCopy p))[key]? = some spec := hkey
    rw [getElem?_erase_key] at hkey'
    split at hkey'
    · cases hkey'
    · exact .inl hkey'

theorem step_oneLine (hst : st.OneLine) (hstmt : stmt.OneLine) : t.state.OneLine := by
  constructor
  · intro key spec hkey
    rcases registry_step h hkey with hkey | ⟨⟨path, p, hadds, hupper⟩, hspec⟩
    · exact hst.registry key spec hkey
    · refine ⟨?_, ?_⟩
      · rw [hupper]
        exact not_mem_upperCopy (fun _ => toUpper_control (by decide)) (hadds.newline hst hstmt).2
      · rcases hspec with ⟨other, hother⟩ | ⟨ctx, hctx, hsource⟩
        · exact (hst.registry other spec hother).2
        · exact hstmt.spec ctx spec hctx hsource
  · intro path hpath
    rcases schemas_step h with hsame | ⟨ifNotExists, text, path', hcreate, htext, -, hstate⟩ |
        ⟨path', hstate⟩
    · exact hst.schemas path (hsame ▸ hpath)
    · rw [hstate] at hpath
      rcases Std.ExtTreeSet.mem_insert.mp hpath with heq | hpath
      · rw [← Std.LawfulEqCmp.compare_eq_iff_eq.mp heq, (schemaPathText_eq_ok htext).1]
        exact hstmt.schema ifNotExists text hcreate
      · exact hst.schemas path hpath
    · rw [hstate] at hpath
      exact hst.schemas path (Std.ExtTreeSet.mem_of_mem_erase hpath)
  · intro path found hfound
    rcases members_step h hfound with hold | hadds
    · exact hst.members path found hold
    · exact hadds.newline hst hstmt

end

/-! ## 4. What the next call sees -/

theorem GraphTypeSpec.Storable.oneLine (h : spec.Storable) : spec.OneLine := by
  intro l hl
  have hfield : Field [] := ⟨not_mem_nil, not_mem_nil⟩
  apply h.lines hfield
  exact mem_cons_of_mem _ hl

theorem load_oneLine (data : Bytes) : (loadCatalog data).OneLine := by
  have hregistry : StorableRegistry (loadCatalog data).registry := deserializeGraphTypes_storable data
  have hnames : StorableNames (loadCatalog data).catalog := deserializeSchemaCatalog_names data
  refine ⟨?_, hnames.schemas, ?_⟩
  · intro key spec hkey
    exact ⟨(hregistry key spec hkey).1.newline, (hregistry key spec hkey).2.oneLine⟩
  · intro path found hfound
    exact ⟨(hnames.members path found hfound).1.newline, (hnames.members path found hfound).2.newline⟩

theorem CatalogState.OneLine.lines (h : st.OneLine) : ∀ l ∈ storedLines st, newline ∉ l := by
  intro l hl
  unfold storedLines at hl
  rw [mem_append, mem_flatMap, mem_append, mem_map, mem_map] at hl
  rcases hl with ⟨entry, hentry, hl⟩ | ⟨path, hpath, rfl⟩ | ⟨entry, hentry, rfl⟩
  · have hstored := h.registry _ _ (Std.ExtTreeMap.mem_toList_iff_getElem?_eq_some.mp hentry)
    rcases mem_cons.mp hl with rfl | hl
    · apply newline_not_mem_record
      simp only [forall_mem_cons]
      exact ⟨by decide, hstored.1, fun f hf => absurd hf not_mem_nil⟩
    · exact hstored.2 l hl
  · apply newline_not_mem_record
    simp only [forall_mem_cons]
    exact ⟨by decide, h.schemas path (Std.ExtTreeSet.mem_toList.mp hpath),
      fun f hf => absurd hf not_mem_nil⟩
  · have hstored := h.members _ _ (Std.ExtTreeMap.mem_toList_iff_getElem?_eq_some.mp hentry)
    have hkind : newline ∉ kindLetter entry.2.kind := by
      cases entry.2.kind with
      | graph | graphType => decide
    apply newline_not_mem_record
    simp only [forall_mem_cons]
    exact ⟨by decide, hstored.1, hstored.2, hkind, fun f hf => absurd hf not_mem_nil⟩

/-- The catalog that the next call loads after a step: the members with tabs in their names are gone. -/
theorem load_step {data : Bytes} (hstmt : stmt.OneLine)
    (h : translateLinearCatalog anyGraphResolver (loadCatalog data) stmt = .ok t) :
    (loadCatalog (storeCatalog t.state)).catalog =
      { schemas := t.state.catalog.schemas
        members := t.state.catalog.members.filter tabless
        physicalToLogical := reverseOf (t.state.catalog.members.filter tabless).toList } :=
  load_catalog (step_oneLine h (load_oneLine data) hstmt).lines

theorem readGraphTypeLine_keys (hcurrent : ∀ key, reader.current = some key → key ∈ reader.registry)
    {tag : Bytes} (htab : tab ∉ tag) (hT : tag ≠ ascii "T") (first : Bytes) (rest : List Bytes) :
    (readGraphTypeLine reader (record (tag :: first :: rest))).current = reader.current ∧
      ∀ k, k ∈ (readGraphTypeLine reader (record (tag :: first :: rest))).registry ↔
        k ∈ reader.registry := by
  have hmodify : ∀ f, (reader.modify f).current = reader.current ∧
      ∀ k, k ∈ (reader.modify f).registry ↔ k ∈ reader.registry := by
    intro f
    unfold GraphTypeReader.modify
    cases hkey : reader.current with
    | none => exact ⟨hkey, fun k => Iff.rfl⟩
    | some key =>
      refine ⟨rfl, ?_⟩
      intro k
      rw [Std.ExtTreeMap.mem_insert, Std.LawfulEqCmp.compare_eq_iff_eq]
      constructor
      · rintro (rfl | hk)
        · exact hcurrent _ hkey
        · exact hk
      · exact .inr
  unfold readGraphTypeLine
  rw [splitOn_record_cons htab]
  cases (record (first :: rest)).splitOn tab with
  | nil => exact ⟨rfl, fun k => Iff.rfl⟩
  | cons name fields =>
    simp only
    rw [if_neg hT]
    split
    · exact hmodify _
    · split
      · split
        · exact hmodify _
        · exact ⟨rfl, fun k => Iff.rfl⟩
      · exact ⟨rfl, fun k => Iff.rfl⟩

theorem read_lines_keys {ls : List Bytes}
    (hls : ∀ l ∈ ls, ∃ tag first rest, l = record (tag :: first :: rest) ∧ tab ∉ tag ∧
      tag ≠ ascii "T") (hcurrent : ∀ key, reader.current = some key → key ∈ reader.registry) :
    (ls.foldl readGraphTypeLine reader).current = reader.current ∧
      ∀ k, k ∈ (ls.foldl readGraphTypeLine reader).registry ↔ k ∈ reader.registry := by
  induction ls generalizing reader with
  | nil => exact ⟨rfl, fun k => Iff.rfl⟩
  | cons l ls ih =>
    rw [forall_mem_cons] at hls
    obtain ⟨⟨tag, first, rest, rfl, htab, hT⟩, hls⟩ := hls
    have hline := readGraphTypeLine_keys hcurrent htab hT first rest
    have hcurrent' : ∀ key,
        (readGraphTypeLine reader (record (tag :: first :: rest))).current = some key →
          key ∈ (readGraphTypeLine reader (record (tag :: first :: rest))).registry := by
      intro key hkey
      rw [hline.1] at hkey
      exact (hline.2 key).mpr (hcurrent key hkey)
    have hrest := ih hls hcurrent'
    exact ⟨hrest.1.trans hline.1, fun k => (hrest.2 k).trans (hline.2 k)⟩

theorem read_typeLines_keys {entry : Bytes × GraphTypeSpec} (hkey : Field entry.1)
    (reader : GraphTypeReader) :
    ((typeLines entry).foldl readGraphTypeLine reader).current = some entry.1 ∧
      ∀ k, k ∈ ((typeLines entry).foldl readGraphTypeLine reader).registry ↔
        k = entry.1 ∨ k ∈ reader.registry := by
  have hother : ∀ l ∈ entry.2.nodes.map nodeLine ++ entry.2.edges.map edgeLine,
      ∃ tag first rest, l = record (tag :: first :: rest) ∧ tab ∉ tag ∧ tag ≠ ascii "T" := by
    intro l hl
    rw [mem_append, mem_map, mem_map] at hl
    rcases hl with ⟨n, -, rfl⟩ | ⟨e, -, rfl⟩
    all_goals exact ⟨_, _, _, rfl, by decide, by decide⟩
  have hcurrent : ∀ key, (GraphTypeReader.mk (reader.registry.insert entry.1 ⟨[], []⟩)
      (some entry.1)).current = some key → key ∈ reader.registry.insert entry.1 ⟨[], []⟩ := by
    intro key h
    rw [← Option.some.inj h]
    exact Std.ExtTreeMap.mem_insert_self
  have hread := read_lines_keys hother hcurrent
  unfold typeLines
  rw [foldl_cons, read_typeLine hkey]
  refine ⟨hread.1, fun k => (hread.2 k).trans ?_⟩
  rw [Std.ExtTreeMap.mem_insert, Std.LawfulEqCmp.compare_eq_iff_eq, eq_comm]

theorem load_keys (hst : st.OneLine) (htabs : ∀ key ∈ st.registry, tab ∉ key) (k : Bytes) :
    k ∈ (loadCatalog (storeCatalog st)).registry ↔ k ∈ st.registry := by
  have hfold : ∀ (entries : List (Bytes × GraphTypeSpec)) (reader : GraphTypeReader),
      (∀ entry ∈ entries, Field entry.1) →
        (k ∈ ((entries.flatMap typeLines).foldl readGraphTypeLine reader).registry ↔
          k ∈ entries.map Prod.fst ∨ k ∈ reader.registry) := by
    intro entries
    induction entries with
    | nil => simp
    | cons entry entries ih =>
      intro reader h
      rw [forall_mem_cons] at h
      rw [flatMap_cons, foldl_append, ih _ h.2, (read_typeLines_keys h.1 reader).2 k,
        map_cons, mem_cons]
      grind
  show k ∈ deserializeGraphTypes (storeCatalog st) ↔ _
  unfold deserializeGraphTypes
  rw [storeCatalog_eq, ended, lines_flatMap hst.lines]
  unfold storedLines
  rw [foldl_append, read_catalogLines, hfold]
  · rw [Std.ExtTreeMap.map_fst_toList_eq_keys, Std.ExtTreeMap.mem_keys]
    simp
  · intro entry hentry
    have hget := Std.ExtTreeMap.mem_toList_iff_getElem?_eq_some.mp hentry
    refine ⟨htabs _ ?_, (hst.registry _ _ hget).1⟩
    rw [Std.ExtTreeMap.mem_iff_isSome_getElem?, hget]
    rfl

end Ladybug.GqlCatalog
