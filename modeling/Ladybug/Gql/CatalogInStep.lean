import Ladybug.Gql.CatalogRuns
import Ladybug.Gql.GqlCall

/-!
# The catalog and the engine's graphs (`gql/src/function/gql_function.cpp`)

The catalog is stored before the engine runs the Cypher.  Which calls leave each graph member with a
graph of the engine, and each graph that a call created with a member.
-/

namespace Ladybug.GqlCatalog

open List Except

open Markup (ascii)

/-! ## 1. In step -/

def Engine.Denotes (e : Engine) (spelled : Bytes) (g : EngineGraph) : Prop :=
  e.graphName spelled = some (e.fold g.name)

def CatalogState.GraphMember (st : CatalogState) (path p : Bytes) : Prop :=
  st.catalog.members[path]? = some ⟨p, .graph⟩

structure InStep (e : Engine) (sys : System) : Prop where
  exist : ∀ path p, sys.state.GraphMember path p → ∃ g ∈ sys.graphs, e.Denotes p g
  listed : ∀ g ∈ sys.graphs, g.fromCall = true →
    ∃ path p, sys.state.GraphMember path p ∧ e.Denotes p g

def CallResult.GraphStatementFails (r : CallResult) : Prop :=
  r.executed = 0 ∧ ((∃ name any, r.cypher.head? = some (.createGraph name any)) ∨
    ∃ ifExists name, r.cypher.head? = some (.dropGraph ifExists name))

/-- A call leaves the catalog and the engine in step, and has no effect if its statement about a graph
fails. -/
structure KeptInStep (e : Engine) (sys : System) (r : CallResult) : Prop where
  inStep : InStep e r.system
  failed : r.GraphStatementFails → r.system.state = sys.state

/-! ## 2. The condition -/

def ListedElsewhere (e : Engine) (sys : System) (path : Bytes) (g : EngineGraph) : Prop :=
  ∃ path' p, path' ≠ path ∧ sys.state.GraphMember path' p ∧ e.Denotes p g

def Removes (catalog : SchemaCatalog) (ref : ParentAndName) (path : Bytes) : Prop :=
  path ∈ catalog.members ∧
    (ref.parent = none → catalog.physicalToLogical[nameUnder catalog ref path]? = some path)

structure Creates (e : Engine) (graphs : List EngineGraph) (cypher : List CypherStatement)
    (p n : Bytes) : Prop where
  parses : e.accepts (normalizeDelimitedIdents (cypherText cypher)) = true
  reads : e.readName (normalizeDelimitedIdents p) = some n
  fresh : ∀ g ∈ graphs, e.fold g.name ≠ e.fold n

structure Drops (e : Engine) (graphs : List EngineGraph) (ifExists : Bool) (p n : Bytes) : Prop where
  parses : e.accepts (normalizeDelimitedIdents
    (cypherText [.dropGraph ifExists p, .emptyResult])) = true
  reads : e.graphName p = some n
  absent : (∀ g ∈ graphs, e.fold g.name ≠ n) → ifExists = true
  free : ∀ g, graphs.find? (e.hasName n) = some g → e.inUse g = false

def Harmless (e : Engine) (sys : System) (cypher : List CypherStatement) : CatalogStatement → Prop
  | .createSchema .. | .dropSchema .. | .createGraphType .. => True
  | .createGraph ctx =>
    if iequals ctx.parentAndName.name (ascii "TYPE") then
      ∀ ref path, ctx.memberName = some ref → logicalPath ref = .ok path →
        ∀ g ∈ sys.graphs, g.fromCall = true → ListedElsewhere e sys path g
    else
      ∀ path, logicalPath ctx.parentAndName = .ok path →
        let p := nameUnder sys.state.catalog ctx.parentAndName path
        if ctx.ifNotExists ∧ p ≠ [] ∧ sys.graphs.any fun g => decide (g.name = p) then
          path ∈ sys.state.catalog.members ∨ ∃ g ∈ sys.graphs, e.Denotes p g
        else path ∉ sys.state.catalog.members ↔ ∃ n, Creates e sys.graphs cypher p n
  | .dropGraph ifExists ref =>
    ∀ path, logicalPath ref = .ok path → let p := nameUnder sys.state.catalog ref path
      ((∀ n, ¬Drops e sys.graphs ifExists p n) → ¬Removes sys.state.catalog ref path) ∧
      ∀ n, Drops e sys.graphs ifExists p n →
        (∀ path' p', sys.state.GraphMember path' p' → e.graphName p' = some n →
          path' = path ∧ Removes sys.state.catalog ref path) ∧
        (Removes sys.state.catalog ref path → ∀ g ∈ sys.graphs, g.fromCall = true →
          e.fold g.name ≠ n → ListedElsewhere e sys path g)
  | .dropGraphType _ ref =>
    ∀ path, logicalPath ref = .ok path → Removes sys.state.catalog ref path →
      ∀ g ∈ sys.graphs, g.fromCall = true → ListedElsewhere e sys path g

def KeepsInStep (e : Engine) (currentAny : Bool) (sys : System) (stmt : CatalogStatement) : Prop :=
  ∀ t, translateLinearCatalog (some (resolveAnyGraph sys.graphs currentAny)) sys.state stmt = .ok t →
    Harmless e sys t.cypher stmt

/-! ## 3. What the engine does -/

def CypherStatement.aboutGraph : CypherStatement → Bool
  | .createGraph .. => true
  | .dropGraph .. => true
  | _ => false

section

variable {e : Engine} {graphs : List EngineGraph}

theorem execute_quiet {left : List CypherStatement} {stmt : CypherStatement}
    (h : stmt.aboutGraph = false) :
    e.execute graphs left stmt = if e.fails left then none else some graphs := by
  cases stmt with
  | createGraph | dropGraph => cases h
  | useGraph | createNodeTable | createRelTable | emptyResult => rfl

variable {cypher : List CypherStatement} {any ifExists : Bool}

theorem run_quiet (h : ∀ stmt ∈ cypher, stmt.aboutGraph = false) :
    (e.run graphs cypher).1 = graphs := by
  induction cypher with
  | nil => rfl
  | cons stmt rest ih =>
    rw [forall_mem_cons] at h
    unfold Engine.run
    rw [execute_quiet h.1]
    by_cases hfails : e.fails (stmt :: rest) = true
    · rw [if_pos hfails]
    · rw [if_neg hfails]
      exact ih h.2

theorem query_quiet (h : ∀ stmt ∈ cypher, stmt.aboutGraph = false) :
    (e.query graphs cypher).1 = graphs := by
  unfold Engine.query
  split
  · exact run_quiet h
  · rfl

theorem query_emptyResult : (e.query graphs [.emptyResult]).1 = graphs := by
  apply query_quiet
  intro stmt hstmt
  rw [mem_singleton.mp hstmt]
  rfl

variable {n p : Bytes}

theorem any_hasName : graphs.any (e.hasName n) = false ↔ ∀ g ∈ graphs, e.fold g.name ≠ n := by
  simp [any_eq_false, Engine.hasName]

theorem query_creates {rest : List CypherStatement}
    (h : Creates e graphs (.createGraph p any :: rest) p n)
    (hrest : ∀ stmt ∈ rest, stmt.aboutGraph = false) :
    (e.query graphs (.createGraph p any :: rest)).1 = graphs ++ [⟨n, any, true⟩] ∧
      (e.query graphs (.createGraph p any :: rest)).2 ≠ 0 := by
  have hexecute : e.execute graphs (.createGraph p any :: rest) (.createGraph p any) =
      some (graphs ++ [⟨n, any, true⟩]) := by
    simp only [Engine.execute, h.reads]
    rw [if_neg (by rw [any_hasName.mpr h.fresh]; exact Bool.false_ne_true)]
  unfold Engine.query
  rw [if_pos h.parses]
  unfold Engine.run
  rw [hexecute]
  exact ⟨run_quiet hrest, Nat.succ_ne_zero _⟩

theorem query_not_creates {rest : List CypherStatement}
    (h : ∀ n, ¬Creates e graphs (.createGraph p any :: rest) p n) :
    e.query graphs (.createGraph p any :: rest) = (graphs, 0) := by
  unfold Engine.query
  split
  · rename_i hparses
    have hexecute : e.execute graphs (.createGraph p any :: rest) (.createGraph p any) = none := by
      cases hread : e.readName (normalizeDelimitedIdents p) with
      | none => simp only [Engine.execute, hread]
      | some n =>
        simp only [Engine.execute, hread]
        rw [if_pos]
        by_contra hfresh
        exact h n ⟨hparses, hread, any_hasName.mp (Bool.eq_false_iff.mpr hfresh)⟩
    unfold Engine.run
    rw [hexecute]
  · rfl

theorem find_hasName_none (h : graphs.find? (e.hasName n) = none) :
    ∀ g ∈ graphs, e.fold g.name ≠ n := by
  intro g hg hn
  exact List.find?_eq_none.mp h g hg (decide_eq_true hn)

theorem filter_hasName (h : ∀ g ∈ graphs, e.fold g.name ≠ n) :
    (graphs.filter fun g => !e.hasName n g) = graphs := by
  rw [filter_eq_self]
  intro g hg
  simp [Engine.hasName, h g hg]

theorem query_drops (h : Drops e graphs ifExists p n) :
    (e.query graphs [.dropGraph ifExists p, .emptyResult]).1 =
        (graphs.filter fun g => !e.hasName n g) ∧
      (e.query graphs [.dropGraph ifExists p, .emptyResult]).2 ≠ 0 := by
  have hexecute : e.execute graphs [.dropGraph ifExists p, .emptyResult] (.dropGraph ifExists p) =
      some (graphs.filter fun g => !e.hasName n g) := by
    cases hfind : graphs.find? (e.hasName n) with
    | none =>
      have hnone := find_hasName_none hfind
      simp only [Engine.execute, h.reads, hfind]
      rw [if_pos (h.absent hnone), filter_hasName hnone]
    | some g =>
      simp only [Engine.execute, h.reads, hfind]
      rw [if_neg (by rw [h.free g hfind]; exact Bool.false_ne_true)]
  unfold Engine.query
  rw [if_pos h.parses]
  unfold Engine.run
  rw [hexecute]
  refine ⟨run_quiet ?_, Nat.succ_ne_zero _⟩
  intro stmt hstmt
  rw [mem_singleton.mp hstmt]
  rfl

theorem query_not_drops (h : ∀ n, ¬Drops e graphs ifExists p n) :
    e.query graphs [.dropGraph ifExists p, .emptyResult] = (graphs, 0) := by
  unfold Engine.query
  split
  · rename_i hparses
    have hexecute : e.execute graphs [.dropGraph ifExists p, .emptyResult]
        (.dropGraph ifExists p) = none := by
      cases hread : e.graphName p with
      | none => simp only [Engine.execute, hread]
      | some n =>
        cases hfind : graphs.find? (e.hasName n) with
        | none =>
          simp only [Engine.execute, hread, hfind]
          rw [if_neg]
          intro hif
          refine h n ⟨hparses, hread, fun _ => hif, fun g hg => ?_⟩
          rw [hfind] at hg
          cases hg
        | some g =>
          simp only [Engine.execute, hread, hfind]
          rw [if_pos]
          by_contra hfree
          have hmem := mem_of_find?_eq_some hfind
          have hsame : e.hasName n g = true := find?_some hfind
          have hname := of_decide_eq_true hsame
          refine h n ⟨hparses, hread, fun habsent ↦ absurd hname (habsent g hmem), fun g' hg' ↦ ?_⟩
          rw [← Option.some.inj (hfind.symm.trans hg')]
          exact Bool.eq_false_iff.mpr hfree
    unfold Engine.run
    rw [hexecute]
  · rfl

end

/-! ## 4. What a call leaves -/

section

variable {st : CatalogState} {path p : Bytes}

theorem graphMember_removed (k q : Bytes) :
    (⟨st.registry, st.catalog.removeMemberByLogical path⟩ : CatalogState).GraphMember k q ↔
      st.GraphMember k q ∧ k ≠ path := by
  unfold CatalogState.GraphMember
  rw [getElem?_removeMember]
  split
  · rename_i hk
    exact ⟨fun h => (nomatch h), fun h => absurd hk.symm h.2⟩
  · rename_i hk
    exact ⟨fun h => ⟨h, fun heq => hk heq.symm⟩, fun h => h.1⟩

theorem graphMember_type (registry : GraphTypeRegistry) (k q : Bytes) :
    (⟨registry, st.catalog.addMember path p .graphType⟩ : CatalogState).GraphMember k q ↔
      st.GraphMember k q ∧ k ≠ path := by
  unfold CatalogState.GraphMember
  rw [getElem?_addMember]
  split
  · rename_i hk
    refine ⟨fun h => ?_, fun h => absurd hk.symm h.2⟩
    injection h with h
    injection h with hname hkind
    cases hkind
  · rename_i hk
    exact ⟨fun h => ⟨h, fun heq => hk heq.symm⟩, fun h => h.1⟩

theorem graphMember_added (hfree : path ∉ st.catalog.members) (k q : Bytes) :
    (⟨st.registry, st.catalog.addMember path p .graph⟩ : CatalogState).GraphMember k q ↔
      st.GraphMember k q ∨ k = path ∧ q = p := by
  unfold CatalogState.GraphMember
  rw [getElem?_addMember]
  split
  · rename_i hk
    rw [← hk, Std.ExtTreeMap.getElem?_eq_none hfree]
    simp [eq_comm]
  · rename_i hk
    refine ⟨.inl, fun h => ?_⟩
    rcases h with h | ⟨heq, -⟩
    · exact h
    · exact absurd heq.symm hk

theorem CatalogState.GraphMember.mem {k q : Bytes} (h : st.GraphMember k q) : k ∈ st.catalog.members := by
  rw [Std.ExtTreeMap.mem_iff_isSome_getElem?, h]
  rfl

end

section

variable {e : Engine} {sys : System} (sys' : System) (path : Bytes)

theorem inStep_same (h : InStep e sys) (hgraphs : sys'.graphs = sys.graphs)
    (hmembers : ∀ k q, sys'.state.GraphMember k q ↔ sys.state.GraphMember k q) : InStep e sys' := by
  constructor
  · intro k q hk
    rw [hgraphs]
    exact h.exist k q ((hmembers k q).mp hk)
  · intro g hg hcall
    rw [hgraphs] at hg
    rcases h.listed g hg hcall with ⟨k, q, hk, hdenotes⟩
    exact ⟨k, q, (hmembers k q).mpr hk, hdenotes⟩

theorem inStep_lost (h : InStep e sys) (hgraphs : sys'.graphs = sys.graphs)
    (hmembers : ∀ k q, sys'.state.GraphMember k q ↔ sys.state.GraphMember k q ∧ k ≠ path) :
    InStep e sys' ↔ ∀ g ∈ sys.graphs, g.fromCall = true → ListedElsewhere e sys path g := by
  constructor
  · intro h' g hg hcall
    rcases h'.listed g (hgraphs ▸ hg) hcall with ⟨k, q, hk, hdenotes⟩
    exact ⟨k, q, ((hmembers k q).mp hk).2, ((hmembers k q).mp hk).1, hdenotes⟩
  · intro helsewhere
    constructor
    · intro k q hk
      rw [hgraphs]
      exact h.exist k q ((hmembers k q).mp hk).1
    · intro g hg hcall
      rcases helsewhere g (hgraphs ▸ hg) hcall with ⟨k, q, hne, hk, hdenotes⟩
      exact ⟨k, q, (hmembers k q).mpr ⟨hk, hne⟩, hdenotes⟩

theorem inStep_dropped (h : InStep e sys) {n : Bytes} {removes : Prop}
    (hgraphs : sys'.graphs = sys.graphs.filter fun g => !e.hasName n g)
    (hmembers : ∀ k q, sys'.state.GraphMember k q ↔
      sys.state.GraphMember k q ∧ ¬(k = path ∧ removes)) :
    InStep e sys' ↔
      (∀ k q, sys.state.GraphMember k q → e.graphName q = some n → k = path ∧ removes) ∧
        (removes → ∀ g ∈ sys.graphs, g.fromCall = true → e.fold g.name ≠ n →
          ListedElsewhere e sys path g) := by
  have hmem : ∀ g, g ∈ sys'.graphs ↔ g ∈ sys.graphs ∧ e.fold g.name ≠ n := by
    intro g
    rw [hgraphs, mem_filter]
    simp [Engine.hasName]
  constructor
  · intro h'
    refine ⟨fun k q hk hname => ?_, fun hremoves g hg hcall hne => ?_⟩
    · by_contra hstays
      rcases h'.exist k q ((hmembers k q).mpr ⟨hk, hstays⟩) with ⟨g, hg, hdenotes⟩
      exact ((hmem g).mp hg).2 (Option.some.inj (hdenotes.symm.trans hname))
    · rcases h'.listed g ((hmem g).mpr ⟨hg, hne⟩) hcall with ⟨k, q, hk, hdenotes⟩
      have hk := (hmembers k q).mp hk
      exact ⟨k, q, fun heq => hk.2 ⟨heq, hremoves⟩, hk.1, hdenotes⟩
  · rintro ⟨hnamed, helsewhere⟩
    constructor
    · intro k q hk
      have hk := (hmembers k q).mp hk
      rcases h.exist k q hk.1 with ⟨g, hg, hdenotes⟩
      refine ⟨g, (hmem g).mpr ⟨hg, fun hn => hk.2 (hnamed k q hk.1 ?_)⟩, hdenotes⟩
      rw [← hn]
      exact hdenotes
    · intro g hg hcall
      have hg := (hmem g).mp hg
      by_cases hremoves : removes
      · rcases helsewhere hremoves g hg.1 hcall hg.2 with ⟨k, q, hne, hk, hdenotes⟩
        exact ⟨k, q, (hmembers k q).mpr ⟨hk, fun heq => hne heq.1⟩, hdenotes⟩
      · rcases h.listed g hg.1 hcall with ⟨k, q, hk, hdenotes⟩
        exact ⟨k, q, (hmembers k q).mpr ⟨hk, fun heq => hremoves heq.2⟩, hdenotes⟩

variable {g : EngineGraph}

theorem inStep_created (h : InStep e sys) {p : Bytes} (hdenotes : e.Denotes p g)
    (hgraphs : sys'.graphs = sys.graphs ++ [g]) (hmembers : ∀ k q, sys'.state.GraphMember k q ↔
      sys.state.GraphMember k q ∨ k = path ∧ q = p) : InStep e sys' := by
  constructor
  · intro k q hk
    rw [hgraphs]
    rcases (hmembers k q).mp hk with hk | ⟨-, rfl⟩
    · rcases h.exist k q hk with ⟨g', hg', hdenotes'⟩
      exact ⟨g', mem_append_left _ hg', hdenotes'⟩
    · exact ⟨g, mem_append_right _ mem_cons_self, hdenotes⟩
  · intro g' hg' hcall
    rw [hgraphs] at hg'
    rcases mem_append.mp hg' with hg' | hg'
    · rcases h.listed g' hg' hcall with ⟨k, q, hk, hdenotes'⟩
      exact ⟨k, q, (hmembers k q).mpr (.inl hk), hdenotes'⟩
    · rw [mem_singleton.mp hg']
      exact ⟨path, p, (hmembers path p).mpr (.inr ⟨rfl, rfl⟩), hdenotes⟩

theorem not_inStep_unlisted (h : InStep e sys) (hcall : g.fromCall = true)
    (hfresh : ∀ g' ∈ sys.graphs, e.fold g'.name ≠ e.fold g.name)
    (hgraphs : sys'.graphs = sys.graphs ++ [g])
    (hmembers : ∀ k q, sys'.state.GraphMember k q → sys.state.GraphMember k q) :
    ¬InStep e sys' := by
  intro h'
  have hg : g ∈ sys'.graphs := by
    rw [hgraphs]
    exact mem_append_right _ mem_cons_self
  rcases h'.listed g hg hcall with ⟨k, q, hk, hdenotes⟩
  rcases h.exist k q (hmembers k q hk) with ⟨g', hg', hdenotes'⟩
  exact hfresh g' hg' (Option.some.inj (hdenotes'.symm.trans hdenotes))

end

/-! ## 5. The calls -/

variable {catalog : SchemaCatalog} {p : Bytes}

theorem forgets_eq {catalog' : SchemaCatalog} {ref : ParentAndName} {path : Bytes}
    (h : Forgets catalog ref path p catalog') :
    Removes catalog ref path ∧ catalog' = catalog.removeMemberByLogical path ∨
      ¬Removes catalog ref path ∧ catalog' = catalog := by
  rcases h.result with ⟨hresult, hback⟩ | ⟨hresult, hparent, hback⟩
  · by_cases hmem : path ∈ catalog.members
    · exact .inl ⟨⟨hmem, h.name ▸ hback⟩, hresult⟩
    · refine .inr ⟨fun hremoves => hmem hremoves.1, ?_⟩
      rw [hresult]
      unfold SchemaCatalog.removeMemberByLogical
      rw [Std.ExtTreeMap.getElem?_eq_none hmem]
  · refine .inr ⟨fun hremoves => hback ?_, hresult⟩
    rw [h.name]
    exact hremoves.2 hparent

theorem keptInStep_quiet {e : Engine} {sys : System} {r : CallResult}
    (h : ∀ stmt ∈ r.cypher, stmt.aboutGraph = false) : KeptInStep e sys r ↔ InStep e r.system := by
  refine ⟨fun hkept => hkept.inStep, fun hstep => ⟨hstep, fun hfails => ?_⟩⟩
  rcases hfails.2 with ⟨name, any, hhead⟩ | ⟨ifExists, name, hhead⟩
  all_goals exact nomatch h _ (mem_of_head? hhead)

theorem emptyResult_quiet : ∀ stmt ∈ [CypherStatement.emptyResult], stmt.aboutGraph = false := by
  decide

theorem graphDdl_eq_ok {st : CatalogState} {clause : GraphTypeClause}
    {cypher : List CypherStatement} (h : graphDdl st catalog p clause = .ok cypher) :
    ∃ any rest, cypher = .createGraph p any :: rest ∧ ∀ stmt ∈ rest, stmt.aboutGraph = false := by
  have hddl : ∀ spec : GraphTypeSpec, ∃ any rest,
      emitGraphTypeDdl p spec = .createGraph p any :: rest ∧
        ∀ stmt ∈ rest, stmt.aboutGraph = false := by
    intro spec
    refine ⟨false, _, rfl, ?_⟩
    intro stmt hstmt
    have hcases : stmt = .useGraph p ∨ (stmt ∈ spec.nodes.map CypherStatement.createNodeTable ∨
        stmt ∈ (edgeTypeNames spec.edges).map (createRelTable spec.edges)) ∨ stmt = .emptyResult := by
      simpa [or_assoc] using hstmt
    rcases hcases with rfl | (hnode | hname) | rfl
    · rfl
    · rcases mem_map.mp hnode with ⟨node, -, rfl⟩
      rfl
    · rcases mem_map.mp hname with ⟨name, -, rfl⟩
      rfl
    · rfl
  cases clause with
  | openGraphType =>
    rw [← ok.inj h]
    exact ⟨true, _, rfl, emptyResult_quiet⟩
  | likeGraph => cases h
  | reference ref =>
    rcases bind_eq_ok.mp h with ⟨typeName, -, h⟩
    split at h
    · cases h
    · rename_i spec hspec
      rw [← ok.inj h]
      exact hddl spec
  | nested specification =>
    rcases bind_eq_ok.mp h with ⟨spec, -, h⟩
    rw [← ok.inj h]
    exact hddl spec

section

variable {e : Engine} {sys : System} {t : Translation}

/-- What a call leaves, once its statement is translated. -/
def afterTranslation (e : Engine) (sys : System) (t : Translation) : CallResult :=
  ⟨⟨t.state, (e.query sys.graphs (rewriteFunc sys.graphs t)).1⟩, rewriteFunc sys.graphs t,
    (e.query sys.graphs (rewriteFunc sys.graphs t)).2⟩

theorem rewriteFunc_quiet (graphs : List EngineGraph) (st : CatalogState) :
    rewriteFunc graphs (.quiet st) = [.emptyResult] := by
  unfold rewriteFunc Translation.quiet
  rw [if_neg (fun h => Bool.false_ne_true h.1)]

theorem keptInStep_afterQuiet (st : CatalogState) :
    KeptInStep e sys (afterTranslation e sys (.quiet st)) ↔ InStep e ⟨st, sys.graphs⟩ := by
  unfold afterTranslation
  rw [rewriteFunc_quiet, query_emptyResult, keptInStep_quiet emptyResult_quiet]
  rfl

variable {ref : ParentAndName} {path p : Bytes} {catalog' : SchemaCatalog}
  {registry : GraphTypeRegistry}

theorem inStep_registersType (h : InStep e sys)
    (hreg : Registers sys.state.catalog ref .graphType path p catalog') :
    InStep e ⟨⟨registry, catalog'⟩, sys.graphs⟩ := by
  refine inStep_same _ h rfl (fun k q => ?_)
  by_cases hmem : path ∈ sys.state.catalog.members
  · rw [hreg.result, if_pos hmem]
    exact Iff.rfl
  · rw [hreg.result, if_neg hmem, graphMember_type]
    refine ⟨fun hk => hk.1, fun hk => ⟨hk, fun heq => hmem ?_⟩⟩
    rw [← heq]
    exact hk.mem

theorem inStep_createGraph (h : InStep e sys) {ctx : CreateGraphStatement}
    {cypher : List CypherStatement}
    (hreg : Registers sys.state.catalog ctx.parentAndName .graph path p catalog')
    (hcypher : graphDdl sys.state catalog' p ctx.typeClause = .ok cypher) :
    KeptInStep e sys (afterTranslation e sys
        ⟨cypher, { sys.state with catalog := catalog' }, ctx.ifNotExists, p⟩) ↔
      if ctx.ifNotExists ∧ p ≠ [] ∧ sys.graphs.any fun g => decide (g.name = p) then
        path ∈ sys.state.catalog.members ∨ ∃ g ∈ sys.graphs, e.Denotes p g
      else path ∉ sys.state.catalog.members ↔ ∃ n, Creates e sys.graphs cypher p n := by
  have htaken : path ∈ sys.state.catalog.members → catalog' = sys.state.catalog := by
    intro hmem
    rw [hreg.result, if_pos hmem]
  have hmembers : path ∉ sys.state.catalog.members → ∀ k q,
      (⟨sys.state.registry, catalog'⟩ : CatalogState).GraphMember k q ↔
        sys.state.GraphMember k q ∨ k = path ∧ q = p := by
    intro hmem
    rw [hreg.result, if_neg hmem]
    exact graphMember_added hmem
  unfold afterTranslation rewriteFunc
  split
  · -- IF NOT EXISTS finds the graph
    rw [query_emptyResult, keptInStep_quiet emptyResult_quiet]
    constructor
    · intro h'
      by_cases hmem : path ∈ sys.state.catalog.members
      · exact .inl hmem
      · exact .inr (h'.exist path p ((hmembers hmem path p).mpr (.inr ⟨rfl, rfl⟩)))
    · intro hor
      by_cases hmem : path ∈ sys.state.catalog.members
      · rw [htaken hmem]
        exact h
      · rcases hor with htaken | ⟨g, hg, hdenotes⟩
        · exact absurd htaken hmem
        · constructor
          · intro k q hk
            rcases (hmembers hmem k q).mp hk with hk | ⟨-, rfl⟩
            · exact h.exist k q hk
            · exact ⟨g, hg, hdenotes⟩
          · intro g' hg' hcall
            rcases h.listed g' hg' hcall with ⟨k, q, hk, hdenotes'⟩
            exact ⟨k, q, (hmembers hmem k q).mpr (.inl hk), hdenotes'⟩
  · rcases graphDdl_eq_ok hcypher with ⟨any, rest, rfl, hrest⟩
    by_cases hcreates : ∃ n, Creates e sys.graphs (.createGraph p any :: rest) p n
    · have hcreated := hcreates
      rcases hcreates with ⟨n, hcreates⟩
      rcases query_creates hcreates hrest with ⟨hgraphs, hexecuted⟩
      rw [hgraphs]
      refine ⟨fun hkept ↦ iff_of_true (fun hmem ↦ ?_) hcreated, fun hiff ↦ ⟨?_, fun hfails ↦ ?_⟩⟩
      · -- a taken path stays, and nothing lists the new graph
        refine absurd hkept.inStep (not_inStep_unlisted _ h rfl hcreates.fresh rfl (fun k q hk ↦ ?_))
        rw [htaken hmem] at hk
        exact hk
      · refine inStep_created _ path h ?_ rfl (hmembers (hiff.mpr hcreated))
        unfold Engine.Denotes Engine.graphName
        rw [hcreates.reads]
        rfl
      · exact absurd hfails.1 hexecuted
    · rw [query_not_creates (fun n hn => hcreates ⟨n, hn⟩)]
      refine ⟨fun hkept => ⟨fun hmem => ?_, fun hc => absurd hc hcreates⟩, fun hiff => ?_⟩
      · -- the member is there although the statement failed
        have hstate := hkept.failed ⟨rfl, .inl ⟨p, any, rfl⟩⟩
        have hnew := (hmembers hmem path p).mpr (.inr ⟨rfl, rfl⟩)
        have hold : sys.state.GraphMember path p := by
          rw [← hstate]
          exact hnew
        exact absurd hold.mem hmem
      · have hmem : path ∈ sys.state.catalog.members := by
          by_contra hfree
          exact hcreates (hiff.mp hfree)
        rw [htaken hmem]
        exact ⟨h, fun _ => rfl⟩

theorem graphMember_forgets {st : CatalogState} (registry : GraphTypeRegistry)
    (h : Forgets st.catalog ref path p catalog') (k q : Bytes) :
    (⟨registry, catalog'⟩ : CatalogState).GraphMember k q ↔
      st.GraphMember k q ∧ ¬(k = path ∧ Removes st.catalog ref path) := by
  rcases forgets_eq h with ⟨hremoves, hresult⟩ | ⟨hremoves, hresult⟩
  · rw [hresult]
    simp only [hremoves, and_true]
    exact graphMember_removed k q
  · rw [hresult]
    simp only [hremoves, and_false, not_false_eq_true, and_true]
    exact Iff.rfl

section

variable (h : InStep e sys) (hforgets : Forgets sys.state.catalog ref path p catalog')

include h hforgets

theorem inStep_dropGraph {ifExists : Bool} : KeptInStep e sys (afterTranslation e sys
        ⟨[.dropGraph ifExists p, .emptyResult], { sys.state with catalog := catalog' }, false, []⟩) ↔
      ((∀ n, ¬Drops e sys.graphs ifExists p n) → ¬Removes sys.state.catalog ref path) ∧
        ∀ n, Drops e sys.graphs ifExists p n →
          (∀ path' p', sys.state.GraphMember path' p' → e.graphName p' = some n →
            path' = path ∧ Removes sys.state.catalog ref path) ∧
          (Removes sys.state.catalog ref path → ∀ g ∈ sys.graphs, g.fromCall = true →
            e.fold g.name ≠ n → ListedElsewhere e sys path g) := by
  have hmembers := graphMember_forgets sys.state.registry hforgets
  unfold afterTranslation rewriteFunc
  simp only [Bool.false_eq_true, false_and, if_false]
  by_cases hdrops : ∃ n, Drops e sys.graphs ifExists p n
  · rcases hdrops with ⟨n, hdrops⟩
    rcases query_drops hdrops with ⟨hgraphs, hexecuted⟩
    have hiff := inStep_dropped ⟨⟨sys.state.registry, catalog'⟩, _⟩ path h hgraphs hmembers
    constructor
    · intro hkept
      refine ⟨fun hnone => absurd hdrops (hnone n), fun n' hdrops' => ?_⟩
      rw [Option.some.inj (hdrops'.reads.symm.trans hdrops.reads)]
      exact hiff.mp hkept.inStep
    · intro hcond
      exact ⟨hiff.mpr (hcond.2 n hdrops), fun hfails => absurd hfails.1 hexecuted⟩
  · have hnone : ∀ n, ¬Drops e sys.graphs ifExists p n := fun n hn => hdrops ⟨n, hn⟩
    rw [query_not_drops hnone]
    constructor
    · intro hkept
      refine ⟨fun _ hremoves => ?_, fun n hn => absurd hn (hnone n)⟩
      have hstate := hkept.failed ⟨rfl, .inr ⟨ifExists, p, rfl⟩⟩
      rcases forgets_eq hforgets with ⟨-, hresult⟩ | ⟨hnot, -⟩
      · have hcatalog : catalog' = sys.state.catalog := congrArg CatalogState.catalog hstate
        have hmem := hremoves.1
        rw [← hcatalog, hresult, Std.ExtTreeMap.mem_iff_isSome_getElem?, getElem?_removeMember,
          if_pos rfl] at hmem
        cases hmem
      · exact hnot hremoves
    · intro hcond
      rcases forgets_eq hforgets with ⟨hremoves, -⟩ | ⟨-, hresult⟩
      · exact absurd hremoves (hcond.1 hnone)
      · rw [hresult]
        exact ⟨h, fun _ => rfl⟩

theorem inStep_dropGraphType :
    InStep e ⟨⟨registry, catalog'⟩, sys.graphs⟩ ↔ (Removes sys.state.catalog ref path →
        ∀ g ∈ sys.graphs, g.fromCall = true → ListedElsewhere e sys path g) := by
  have hmembers := graphMember_forgets registry hforgets
  by_cases hremoves : Removes sys.state.catalog ref path
  · have hiff := inStep_lost ⟨⟨registry, catalog'⟩, sys.graphs⟩ path h rfl (fun k q => by
        rw [hmembers]
        simp [hremoves])
    exact ⟨fun h' _ => hiff.mp h', fun hcond => hiff.mpr (hcond hremoves)⟩
  · refine ⟨fun _ hr => absurd hr hremoves, fun _ => inStep_same _ h rfl (fun k q => ?_)⟩
    rw [hmembers]
    simp [hremoves]

end

/-- After a call the catalog and the engine are in step, and a failed statement about a graph has had no
effect, if and only if the statement meets the condition. -/
theorem inStep_call (currentAny : Bool) {stmt : CatalogStatement} (h : InStep e sys)
    (ht : translateLinearCatalog (some (resolveAnyGraph sys.graphs currentAny)) sys.state stmt =
      .ok t) :
    KeptInStep e sys (afterTranslation e sys t) ↔ Harmless e sys t.cypher stmt := by
  cases stmt with
  | createSchema ifNotExists text =>
    rcases createSchema_eq_ok ht with ⟨path, -, ⟨rfl, -⟩ | ⟨rfl, -⟩⟩
    · exact iff_of_true ((keptInStep_afterQuiet _).mpr h) trivial
    · exact iff_of_true ((keptInStep_afterQuiet _).mpr
        (inStep_same _ h rfl (fun _ _ => Iff.rfl))) trivial
  | dropSchema ifExists text =>
    rcases dropSchema_eq_ok ht with ⟨path, -, ⟨rfl, -⟩ | ⟨rfl, -⟩⟩
    · exact iff_of_true ((keptInStep_afterQuiet _).mpr h) trivial
    · exact iff_of_true ((keptInStep_afterQuiet _).mpr
        (inStep_same _ h rfl (fun _ _ => Iff.rfl))) trivial
  | createGraph ctx =>
    dsimp only [Harmless]
    rcases createGraph_eq_ok ht with ⟨htype, ht⟩ | ⟨htype, path, p, catalog', cypher, hreg, hddl, rfl⟩
    · rcases createGraphNamedType_eq_ok ht with
        ⟨ref, path, name, spec, hclause, hpath, -, -, -, -, rfl⟩
      have hmember : ctx.memberName = some ref := by
        unfold CreateGraphStatement.memberName
        rw [if_pos htype, hclause]
      have hiff := inStep_lost
        ⟨⟨_, sys.state.catalog.addMember path name .graphType⟩, sys.graphs⟩ path h rfl
        (graphMember_type (sys.state.registry.insert (upperCopy name) spec))
      rw [keptInStep_afterQuiet, if_pos htype, hiff]
      constructor
      · intro hlisted ref' path' href' hpath'
        rw [hmember] at href'
        rw [← Option.some.inj href', hpath] at hpath'
        rw [← ok.inj hpath']
        exact hlisted
      · exact fun hcond => hcond ref path hmember hpath
    · rw [if_neg (by rw [htype]; exact Bool.false_ne_true), inStep_createGraph h hreg hddl, hreg.name]
      constructor
      · intro hcond path' hpath'
        rw [hreg.logical] at hpath'
        rw [← ok.inj hpath']
        exact hcond
      · exact fun hcond => hcond path hreg.logical
  | dropGraph ifExists ref =>
    rcases dropGraph_eq_ok ht with ⟨path, p, catalog', hforgets, rfl⟩
    rw [inStep_dropGraph h hforgets, hforgets.name]
    constructor
    · intro hcond path' hpath'
      rw [hforgets.logical] at hpath'
      rw [← ok.inj hpath']
      exact hcond
    · exact fun hcond => hcond path hforgets.logical
  | createGraphType ctx =>
    rcases createGraphType_eq_ok ht with ⟨path, p, catalog', spec, hreg, -, ⟨rfl, -⟩ | rfl⟩
    · exact iff_of_true ((keptInStep_afterQuiet _).mpr (inStep_registersType h hreg)) trivial
    · exact iff_of_true ((keptInStep_afterQuiet _).mpr (inStep_registersType h hreg)) trivial
  | dropGraphType ifExists ref =>
    rcases dropGraphType_eq_ok ht with ⟨path, p, catalog', hforgets, rfl⟩
    rw [keptInStep_afterQuiet, inStep_dropGraphType h hforgets]
    constructor
    · intro hcond path' hpath'
      rw [hforgets.logical] at hpath'
      rw [← ok.inj hpath']
      exact hcond
    · exact fun hcond => hcond path hforgets.logical

end

/-- For every state in step and every statement, a call keeps the catalog and the engine in step if and
only if it meets the condition. -/
theorem catalog_in_step_iff (e : Engine) (currentAny : Bool) (sys : System) (stmt : CatalogStatement)
    (h : InStep e sys) :
    KeptInStep e sys (callGql e currentAny sys stmt) ↔ KeepsInStep e currentAny sys stmt := by
  unfold KeepsInStep
  cases ht : translateLinearCatalog (some (resolveAnyGraph sys.graphs currentAny)) sys.state stmt with
  | error message =>
    -- a refused statement changes nothing
    have hcall : callGql e currentAny sys stmt = ⟨sys, [], 0⟩ := by
      unfold callGql
      rw [ht]
    rw [hcall]
    refine iff_of_true ⟨h, fun _ => rfl⟩ (fun t ht' => ?_)
    cases ht'
  | ok t =>
    have hcall : callGql e currentAny sys stmt = afterTranslation e sys t := by
      unfold callGql
      rw [ht]
      rfl
    rw [hcall, inStep_call currentAny h ht]
    constructor
    · intro hharmless t' ht'
      rw [← ok.inj ht']
      exact hharmless
    · exact fun hcond => hcond t rfl

/-- An engine that reads plain names, compares them by their upper case, and in which the graphs of the
list `busy` are in use. -/
def plainEngine (busy : List Bytes) : Engine where
  readName := some
  fold := upperCopy
  accepts := fun _ => true
  inUse := fun g => busy.contains g.name
  fails := fun _ => false

def createOpenGraph (name : Bytes) : CatalogStatement :=
  .createGraph ⟨false, false, ⟨name, none, name⟩, .openGraphType, none⟩

theorem inStep_nothing (e : Engine) : InStep e ⟨.empty, []⟩ := by
  constructor
  · intro path p hp
    have hnone : (CatalogState.empty.catalog.members)[path]? = none := Std.ExtTreeMap.getElem?_empty
    exact nomatch hnone.symm.trans hp
  · exact fun g hg => absurd hg not_mem_nil

/-- The graph `g`, created by a call. -/
def oneGraph : System where
  state := ⟨∅, SchemaCatalog.empty.addMember (ascii "/g") (ascii "g") .graph⟩
  graphs := [⟨ascii "g", true, true⟩]

theorem inStep_oneGraph (busy : List Bytes) : InStep (plainEngine busy) oneGraph := by
  have hempty : InStep (plainEngine busy) ⟨.empty, []⟩ := inStep_nothing (plainEngine busy)
  have hfree : ascii "/g" ∉ CatalogState.empty.catalog.members := Std.ExtTreeMap.not_mem_empty
  refine inStep_created oneGraph (ascii "/g") hempty (p := ascii "g") ?_ rfl
    (graphMember_added hfree)
  rfl

theorem keepsInStep_createGraph :
    KeepsInStep (plainEngine []) false oneGraph (createOpenGraph (ascii "h")) := by
  intro t ht
  cases ht
  intro path hpath
  cases hpath
  refine iff_of_true ?_ ⟨ascii "h", by decide +kernel, by decide +kernel, by decide +kernel⟩
  decide +kernel

/-- A second graph is created. -/
theorem catalog_in_step_iff_secondGraph : KeptInStep (plainEngine []) oneGraph
    (callGql (plainEngine []) false oneGraph (createOpenGraph (ascii "h"))) :=
  (catalog_in_step_iff (plainEngine []) false oneGraph (createOpenGraph (ascii "h"))
    (inStep_oneGraph [])).mpr keepsInStep_createGraph

/-- `DROP GRAPH g` while `g` is in use fails and takes the member away, and `CREATE GRAPH G ANY` fails
because of the graph `g` and registers a member. -/
theorem failing_statement_changes_catalog : InStep (plainEngine [ascii "g"]) oneGraph ∧
    ¬KeptInStep (plainEngine [ascii "g"]) oneGraph (callGql (plainEngine [ascii "g"]) false oneGraph
      (.dropGraph false ⟨ascii "g", none, ascii "g"⟩)) ∧
    ¬KeptInStep (plainEngine [ascii "g"]) oneGraph (callGql (plainEngine [ascii "g"]) false oneGraph
      (createOpenGraph (ascii "G"))) := by
  refine ⟨inStep_oneGraph _, fun h => ?_, fun h => ?_⟩
  · have hfails : (callGql (plainEngine [ascii "g"]) false oneGraph
        (.dropGraph false ⟨ascii "g", none, ascii "g"⟩)).GraphStatementFails :=
      ⟨by decide +kernel, .inr ⟨false, ascii "g", by decide +kernel⟩⟩
    have hgone : (callGql (plainEngine [ascii "g"]) false oneGraph
        (.dropGraph false ⟨ascii "g", none, ascii "g"⟩)).system.state.catalog.members.contains
          (ascii "/g") = false := by
      decide +kernel
    rw [h.failed hfails] at hgone
    exact absurd hgone (by decide +kernel)
  · have hfails : (callGql (plainEngine [ascii "g"]) false oneGraph
        (createOpenGraph (ascii "G"))).GraphStatementFails :=
      ⟨by decide +kernel, .inl ⟨ascii "G", true, by decide +kernel⟩⟩
    have hnew : (callGql (plainEngine [ascii "g"]) false oneGraph
        (createOpenGraph (ascii "G"))).system.state.catalog.members.contains (ascii "/G") = true := by
      decide +kernel
    rw [h.failed hfails] at hnew
    exact absurd hnew (by decide +kernel)

end Ladybug.GqlCatalog
