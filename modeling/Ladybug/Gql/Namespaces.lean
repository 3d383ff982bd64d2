import Ladybug.Gql.CatalogRuns

/-!
# Schemas, directories, graphs and graph types share one namespace

A path is a directory because a schema lies below it, so a new schema can turn a path that is taken
into a directory, and a new member can take the path of a schema.  Each statement looks at its own path
only.  Steps that do neither keep the four kinds of names apart.
-/

namespace Ladybug.GqlCatalog

open Markup (ascii)
open Records List

inductive Namespace where
  | schema
  | directory
  | graph
  | graphType
  deriving DecidableEq

def SchemaCatalog.Registered (catalog : SchemaCatalog) (path : Bytes) : Namespace → Prop
  | .schema => path ∈ catalog.schemas
  | .directory => catalog.isDirectory path = true
  | .graph => ∃ p, catalog.members[path]? = some ⟨p, .graph⟩
  | .graphType => ∃ p, catalog.members[path]? = some ⟨p, .graphType⟩

def SchemaCatalog.Disjoint (catalog : SchemaCatalog) : Prop :=
  ∀ path a b, catalog.Registered path a → catalog.Registered path b → a = b

variable {catalog : SchemaCatalog} {path data : Bytes} {st : CatalogState}
  {anyGraphResolver : Option AnyGraphResolver}

theorem isDirectory_iff :
    catalog.isDirectory path = true ↔ ∃ schema ∈ catalog.schemas, path ∈ directoriesAbove schema := by
  unfold SchemaCatalog.isDirectory SchemaCatalog.directories
  rw [Std.ExtTreeSet.contains_ofList, contains_eq_mem, decide_eq_true_eq, mem_flatMap]
  simp only [Std.ExtTreeSet.mem_toList]

/-- Members, schemas and directories are apart, whatever the kinds of the members. -/
structure SchemaCatalog.Apart (catalog : SchemaCatalog) : Prop where
  directory : ∀ path ∈ catalog.schemas, catalog.isDirectory path = false
  schema : ∀ path ∈ catalog.members, path ∉ catalog.schemas
  member : ∀ path ∈ catalog.members, catalog.isDirectory path = false

theorem mem_of_getElem? {members : Std.ExtTreeMap Bytes Member} {found : Member}
    (h : members[path]? = some found) : path ∈ members := by
  rw [Std.ExtTreeMap.mem_iff_isSome_getElem?, h]
  rfl

theorem SchemaCatalog.Apart.disjoint (h : catalog.Apart) : catalog.Disjoint := by
  have hone : ∀ path ∈ catalog.members, ∀ a, catalog.Registered path a →
      a = .graph ∨ a = .graphType := by
    intro path hmem a ha
    cases a with
    | schema => exact absurd ha (h.schema path hmem)
    | directory => exact absurd ha (Bool.eq_false_iff.mp (h.member path hmem))
    | graph => exact .inl rfl
    | graphType => exact .inr rfl
  intro path a b ha hb
  by_cases hmem : path ∈ catalog.members
  · rcases hone path hmem a ha with rfl | rfl
    · rcases hone path hmem b hb with rfl | rfl
      · rfl
      · rcases ha with ⟨p, hp⟩
        rcases hb with ⟨q, hq⟩
        rw [hp] at hq
        cases hq
    · rcases hone path hmem b hb with rfl | rfl
      · rcases ha with ⟨p, hp⟩
        rcases hb with ⟨q, hq⟩
        rw [hp] at hq
        cases hq
      · rfl
  · -- without a member the path is a schema or a directory
    have hrest : ∀ a, catalog.Registered path a → a = .schema ∨ a = .directory := by
      intro a ha
      cases a with
      | schema => exact .inl rfl
      | directory => exact .inr rfl
      | graph | graphType => exact absurd (mem_of_getElem? ha.choose_spec) hmem
    rcases hrest a ha with rfl | rfl
    · rcases hrest b hb with rfl | rfl
      · rfl
      · exact absurd hb (Bool.eq_false_iff.mp (h.directory path ha))
    · rcases hrest b hb with rfl | rfl
      · exact absurd ha (Bool.eq_false_iff.mp (h.directory path hb))
      · rfl

/-- A new schema lies below no schema and no member, and a new member's path is neither a schema nor a
directory. -/
structure KeepsNamespaces (st : CatalogState) (stmt : CatalogStatement) : Prop where
  oneLine : stmt.OneLine
  schema : ∀ ifNotExists text, stmt = .createSchema ifNotExists text →
    ∀ above ∈ directoriesAbove (normalizePathWhitespace text),
      above ∉ st.catalog.schemas ∧ above ∉ st.catalog.members
  member : ∀ ref path, stmt.memberName = some ref → logicalPath ref = .ok path →
    path ∉ st.catalog.schemas ∧ st.catalog.isDirectory path = false

theorem apart_withSchema (h : st.catalog.Apart)
    (hfree : SchemaFree anyGraphResolver st.catalog path) (habove : ∀ above ∈ directoriesAbove path,
      above ∉ st.catalog.schemas ∧ above ∉ st.catalog.members) :
    (st.withSchema path).catalog.Apart := by
  have hmem : ∀ s, s ∈ (st.withSchema path).catalog.schemas ↔ path = s ∨ s ∈ st.catalog.schemas := by
    intro s
    show s ∈ st.catalog.schemas.insert path ↔ _
    rw [Std.ExtTreeSet.mem_insert, Std.LawfulEqCmp.compare_eq_iff_eq]
  have hdir : ∀ d, (st.withSchema path).catalog.isDirectory d = true ↔
      d ∈ directoriesAbove path ∨ st.catalog.isDirectory d = true := by
    intro d
    rw [isDirectory_iff, isDirectory_iff]
    grind
  constructor
  · intro s hs
    rw [Bool.eq_false_iff, Ne, hdir]
    intro hd
    rcases (hmem s).mp hs with rfl | hs
    · rcases hd with hd | hd
      · -- a path is not above itself: it is longer than what lies above it
        rcases mem_map.mp hd with ⟨i, hi, htake⟩
        have hlt := mem_range.mp (mem_of_mem_filter hi)
        have hlength := congrArg length htake
        rw [length_take] at hlength
        omega
      · exact absurd hd (Bool.eq_false_iff.mp hfree.directory)
    · rcases hd with hd | hd
      · exact (habove s hd).1 hs
      · exact absurd hd (Bool.eq_false_iff.mp (h.directory s hs))
  · intro m hm hs
    rcases (hmem m).mp hs with rfl | hs
    · exact hfree.member hm
    · exact h.schema m hm hs
  · intro m hm
    rw [Bool.eq_false_iff, Ne, hdir]
    intro hd
    rcases hd with hd | hd
    · exact (habove m hd).2 hm
    · exact absurd hd (Bool.eq_false_iff.mp (h.member m hm))

theorem apart_withoutSchema (h : st.catalog.Apart) : (st.withoutSchema path).catalog.Apart := by
  have hsub : ∀ s ∈ (st.withoutSchema path).catalog.schemas, s ∈ st.catalog.schemas :=
    fun s hs => Std.ExtTreeSet.mem_of_mem_erase hs
  have hdir : ∀ d, st.catalog.isDirectory d = false →
      (st.withoutSchema path).catalog.isDirectory d = false := by
    intro d hd
    rw [Bool.eq_false_iff, Ne, isDirectory_iff]
    rintro ⟨s, hs, hd'⟩
    exact Bool.eq_false_iff.mp hd (isDirectory_iff.mpr ⟨s, hsub s hs, hd'⟩)
  constructor
  · exact fun s hs => hdir s (h.directory s (hsub s hs))
  · exact fun m hm hs => h.schema m hm (hsub m hs)
  · exact fun m hm => hdir m (h.member m hm)

theorem apart_members {catalog' : SchemaCatalog} (h : catalog.Apart)
    (hschemas : catalog'.schemas = catalog.schemas)
    (hmembers : ∀ path ∈ catalog'.members, path ∈ catalog.members ∨
      path ∉ catalog.schemas ∧ catalog.isDirectory path = false) : catalog'.Apart := by
  have hdir : ∀ d, catalog'.isDirectory d = catalog.isDirectory d := by
    intro d
    unfold SchemaCatalog.isDirectory SchemaCatalog.directories
    rw [hschemas]
  constructor
  · intro s hs
    rw [hdir]
    exact h.directory s (hschemas ▸ hs)
  · intro m hm
    rw [hschemas]
    rcases hmembers m hm with hm | hm
    · exact h.schema m hm
    · exact hm.1
  · intro m hm
    rw [hdir]
    rcases hmembers m hm with hm | hm
    · exact h.member m hm
    · exact hm.2

variable {stmt : CatalogStatement} {t : Translation}

section

variable (h : translateLinearCatalog anyGraphResolver st stmt = .ok t)

include h

theorem members_after (hmeets : KeepsNamespaces st stmt) (hpath : path ∈ t.state.catalog.members) :
    path ∈ st.catalog.members ∨
      path ∉ st.catalog.schemas ∧ st.catalog.isDirectory path = false := by
  rw [Std.ExtTreeMap.mem_iff_isSome_getElem?, Option.isSome_iff_exists] at hpath
  rcases hpath with ⟨found, hfound⟩
  rcases members_step h hfound with hold | hadds
  · exact .inl (mem_of_getElem? hold)
  · obtain ⟨ref, hname, hlogical, -, -, -⟩ := hadds.named
    exact .inr (hmeets.member ref path hname hlogical)

theorem apart_step (hst : st.catalog.Apart) (hmeets : KeepsNamespaces st stmt) :
    t.state.catalog.Apart := by
  rcases schemas_step h with hsame | ⟨ifNotExists, text, path, hcreate, htext, hfree, hstate⟩ |
      ⟨path, hstate⟩
  · exact apart_members hst hsame fun path hpath => members_after h hmeets hpath
  · rw [hstate]
    apply apart_withSchema hst hfree
    rw [(schemaPathText_eq_ok htext).1]
    exact hmeets.schema ifNotExists text hcreate
  · rw [hstate]
    exact apart_withoutSchema hst

end

theorem apart_run (run : CatalogRun KeepsNamespaces data) : (loadCatalog data).catalog.Apart := by
  induction run with
  | empty =>
    constructor
    · exact fun path hpath => absurd hpath Std.ExtTreeSet.not_mem_empty
    all_goals exact fun path hpath => absurd hpath Std.ExtTreeMap.not_mem_empty
  | call anyGraphResolver run meets accepted ih =>
    have hstep := apart_step accepted ih meets
    have hload := load_step meets.oneLine accepted
    rw [hload]
    refine apart_members hstep ?_ ?_
    · rfl
    · intro path hpath
      exact .inl (Std.ExtTreeMap.mem_of_mem_filter hpath)

def CreatesBoth (anyGraphResolver : Option AnyGraphResolver) (data p q : Bytes) : Prop :=
  ∃ t, translateLinearCatalog anyGraphResolver (loadCatalog data) (.createSchema false p) = .ok t ∧
    ∃ t', translateLinearCatalog anyGraphResolver (loadCatalog (storeCatalog t.state))
      (.createSchema false q) = .ok t'

def BothKeepNamespaces (anyGraphResolver : Option AnyGraphResolver) (data p q : Bytes) : Prop :=
  KeepsNamespaces (loadCatalog data) (.createSchema false p) ∧
    ∀ t, translateLinearCatalog anyGraphResolver (loadCatalog data) (.createSchema false p) = .ok t →
      KeepsNamespaces (loadCatalog (storeCatalog t.state)) (.createSchema false q)

theorem load_tabless (data : Bytes) :
    (loadCatalog data).catalog.members.filter tabless = (loadCatalog data).catalog.members :=
  filter_tabless (deserializeSchemaCatalog_names data)

theorem load_withSchema {text : Bytes}
    (hmeets : KeepsNamespaces (loadCatalog data) (.createSchema false text))
    (h : translateLinearCatalog anyGraphResolver (loadCatalog data) (.createSchema false text) =
      .ok (.quiet ((loadCatalog data).withSchema path))) :
    (loadCatalog (storeCatalog ((loadCatalog data).withSchema path))).catalog =
      { schemas := (loadCatalog data).catalog.schemas.insert path
        members := (loadCatalog data).catalog.members
        physicalToLogical := reverseOf (loadCatalog data).catalog.members.toList } := by
  have hsame := load_tabless data
  apply (load_step hmeets.oneLine h).trans
  show SchemaCatalog.mk _ ((loadCatalog data).catalog.members.filter tabless)
    (reverseOf ((loadCatalog data).catalog.members.filter tabless).toList) = _
  rw [hsame]
  rfl

theorem createsBoth_swap {p q : Bytes} (hpq : BothKeepNamespaces anyGraphResolver data p q)
    (hqp : KeepsNamespaces (loadCatalog data) (.createSchema false q))
    (h : CreatesBoth anyGraphResolver data p q) : CreatesBoth anyGraphResolver data q p := by
  obtain ⟨t, ht, t', ht'⟩ := h
  rcases createSchema_eq_ok ht with ⟨pathP, hp, ⟨-, hfalse, -⟩ | ⟨rfl, hfreeP⟩⟩
  · exact absurd hfalse Bool.false_ne_true
  have hsecond := hpq.2 _ ht
  have hloadP := load_withSchema hpq.1 ht
  rcases createSchema_eq_ok ht' with ⟨pathQ, hq, ⟨-, hfalse, -⟩ | ⟨-, hfreeQ⟩⟩
  · exact absurd hfalse Bool.false_ne_true
  rw [show (Translation.quiet ((loadCatalog data).withSchema pathP)).state =
    (loadCatalog data).withSchema pathP from rfl, hloadP] at hfreeQ
  have hdirs : ∀ d, (loadCatalog data).catalog.isDirectory d = true → SchemaCatalog.isDirectory
        { schemas := (loadCatalog data).catalog.schemas.insert pathP
          members := (loadCatalog data).catalog.members
          physicalToLogical := reverseOf (loadCatalog data).catalog.members.toList } d = true := by
    intro d hd
    rcases isDirectory_iff.mp hd with ⟨s, hs, hds⟩
    exact isDirectory_iff.mpr ⟨s, Std.ExtTreeSet.mem_insert.mpr (.inr hs), hds⟩
  -- the second path was free before the first schema
  have hfreeQ' : SchemaFree anyGraphResolver (loadCatalog data).catalog pathQ := by
    refine ⟨?_, ?_, hfreeQ.member, hfreeQ.engine⟩
    · exact fun hs => hfreeQ.schema (Std.ExtTreeSet.mem_insert.mpr (.inr hs))
    · rw [Bool.eq_false_iff]
      exact fun hd => Bool.eq_false_iff.mp hfreeQ.directory (hdirs pathQ hd)
  have hcreateQ : translateLinearCatalog anyGraphResolver (loadCatalog data) (.createSchema false q) =
      .ok (.quiet ((loadCatalog data).withSchema pathQ)) := createSchema_of_free hq hfreeQ'
  have hloadQ := load_withSchema hqp hcreateQ
  -- and the first one is still free after the second
  have hfreeP' : SchemaFree anyGraphResolver
      (loadCatalog (storeCatalog ((loadCatalog data).withSchema pathQ))).catalog pathP := by
    rw [hloadQ]
    refine ⟨?_, ?_, hfreeP.member, hfreeP.engine⟩
    · intro hs
      rcases Std.ExtTreeSet.mem_insert.mp hs with heq | hs
      · have heq' := Std.LawfulEqCmp.compare_eq_iff_eq.mp heq
        exact hfreeQ.schema (Std.ExtTreeSet.mem_insert.mpr
          (.inl (Std.LawfulEqCmp.compare_eq_iff_eq.mpr heq'.symm)))
      · exact hfreeP.schema hs
    · rw [Bool.eq_false_iff, Ne, isDirectory_iff]
      rintro ⟨s, hs, hds⟩
      rcases Std.ExtTreeSet.mem_insert.mp hs with heq | hs
      · -- then the first path lies above the second, which the second step rules out
        rw [← Std.LawfulEqCmp.compare_eq_iff_eq.mp heq, (schemaPathText_eq_ok hq).1] at hds
        have habove := (hsecond.schema false q rfl pathP hds).1
        rw [show (Translation.quiet ((loadCatalog data).withSchema pathP)).state =
          (loadCatalog data).withSchema pathP from rfl, hloadP] at habove
        exact habove Std.ExtTreeSet.mem_insert_self
      · exact Bool.eq_false_iff.mp hfreeP.directory (isDirectory_iff.mpr ⟨s, hs, hds⟩)
  exact ⟨_, hcreateQ, _, createSchema_of_free hp hfreeP'⟩

/-- The namespaces are apart; two schemas can be created in both orders or in none; a schema without
members can be dropped, unless the engine has a graph at its path. -/
structure NamespaceLaws (data : Bytes) : Prop where
  disjoint : (loadCatalog data).catalog.Disjoint
  order : ∀ anyGraphResolver p q, BothKeepNamespaces anyGraphResolver data p q →
    BothKeepNamespaces anyGraphResolver data q p →
    (CreatesBoth anyGraphResolver data p q ↔ CreatesBoth anyGraphResolver data q p)
  drop : ∀ anyGraphResolver text path, schemaPathText text = .ok path →
    path ∈ (loadCatalog data).catalog.schemas →
    (loadCatalog data).catalog.hasMembersUnder path = false →
    engineGraphAtLogicalPath anyGraphResolver path = false →
    ∃ t, translateLinearCatalog anyGraphResolver (loadCatalog data) (.dropSchema false text) = .ok t ∧
      path ∉ t.state.catalog.schemas

/-- In every state that steps of this kind reach, the namespaces obey their laws. -/
theorem namespaces_stay_disjoint {data : Bytes} (run : CatalogRun KeepsNamespaces data) :
    NamespaceLaws data := by
  have hapart := apart_run run
  refine ⟨hapart.disjoint, ?_, ?_⟩
  · intro anyGraphResolver p q hpq hqp
    exact ⟨createsBoth_swap hpq hqp.1, createsBoth_swap hqp hpq.1⟩
  · intro anyGraphResolver text path htext hschema hempty hengine
    have hmember : path ∉ (loadCatalog data).catalog.members :=
      fun hmem => hapart.schema path hmem hschema
    refine ⟨_, dropSchema_of_droppable htext
      ⟨hschema, hapart.directory path hschema, hmember, hengine, hempty⟩, ?_⟩
    exact fun hmem => (Std.ExtTreeSet.mem_erase.mp hmem).1 Std.ReflCmp.compare_self

theorem keepsNamespaces_createSchema {st : CatalogState} (text : Bytes)
    (hline : newline ∉ normalizePathWhitespace text)
    (habove : ∀ above ∈ directoriesAbove (normalizePathWhitespace text),
      above ∉ st.catalog.schemas ∧ above ∉ st.catalog.members) :
    KeepsNamespaces st (.createSchema false text) := by
  refine ⟨⟨nofun, ?_, nofun⟩, ?_, nofun⟩
  · intro ifNotExists text' h
    cases h
    exact hline
  · intro ifNotExists text' h
    cases h
    exact habove

theorem keepsNamespaces_dropSchema (st : CatalogState) (text : Bytes) :
    KeepsNamespaces st (.dropSchema false text) := ⟨⟨nofun, nofun, nofun⟩, nofun, nofun⟩

/-- The schema `/a` is dropped before `/a/b` is created. -/
theorem namespaces_stay_disjoint_dropped : ∃ t t' t'', translateLinearCatalog none (loadCatalog [])
        (.createSchema false (ascii "/a")) = .ok t ∧
      translateLinearCatalog none (loadCatalog (storeCatalog t.state))
        (.dropSchema false (ascii "/a")) = .ok t' ∧
      translateLinearCatalog none (loadCatalog (storeCatalog t'.state))
        (.createSchema false (ascii "/a/b")) = .ok t'' ∧
      NamespaceLaws (storeCatalog t''.state) := by
  refine ⟨_, _, _, rfl, rfl, rfl, ?_⟩
  refine namespaces_stay_disjoint (.call none (.call none (.call none .empty
    (keepsNamespaces_createSchema (ascii "/a") ?_ ?_) rfl)
    (keepsNamespaces_dropSchema _ (ascii "/a")) rfl)
    (keepsNamespaces_createSchema (ascii "/a/b") ?_ ?_) rfl)
  · decide
  · have hnone : directoriesAbove (normalizePathWhitespace (ascii "/a")) = [] := by decide
    rw [hnone]
    exact fun above h => absurd h not_mem_nil
  · decide
  · have hone : directoriesAbove (normalizePathWhitespace (ascii "/a/b")) = [ascii "/a"] := by decide
    rw [hone]
    intro above h
    rw [mem_singleton.mp h]
    decide +kernel

/-- `CREATE SCHEMA /a` and then `CREATE SCHEMA /a/b`: now `/a` is a schema and a directory. -/
theorem child_schema_makes_directory :
    ∃ t t', translateLinearCatalog none (loadCatalog []) (.createSchema false (ascii "/a")) = .ok t ∧
      translateLinearCatalog none (loadCatalog (storeCatalog t.state))
        (.createSchema false (ascii "/a/b")) = .ok t' ∧
      ¬(loadCatalog (storeCatalog t'.state)).catalog.Disjoint := by
  refine ⟨_, _, rfl, rfl, ?_⟩
  intro h
  have hschema : ascii "/a" ∈ (loadCatalog (storeCatalog ((loadCatalog (storeCatalog
      (CatalogState.empty.withSchema (ascii "/a")))).withSchema (ascii "/a/b")))).catalog.schemas := by
    decide +kernel
  have hdirectory : (loadCatalog (storeCatalog ((loadCatalog (storeCatalog
      (CatalogState.empty.withSchema (ascii "/a")))).withSchema (ascii "/a/b")))).catalog.isDirectory
        (ascii "/a") = true := by
    decide +kernel
  have hsame : Namespace.schema = Namespace.directory := h (ascii "/a") _ _ hschema hdirectory
  cases hsame

end Ladybug.GqlCatalog
