import Ladybug.Gql.CatalogStatements
import Ladybug.Gql.CatalogStorage

/-!
# Storing and loading the catalog

A stored catalog is read back exactly when no name holds a separator of its place.  One direction
follows the readers over the lines that were written; the other says what every text is read as.
-/

namespace Ladybug.GqlCatalog

open List

open Markup (ascii)
open Records

/-! ## 1. Lines and their fields -/

theorem record_cons (tag first : Bytes) (rest : List Bytes) :
    record (tag :: first :: rest) = tag ++ tab :: record (first :: rest) := by
  unfold record
  simp

variable {fields : List Bytes} {p : GraphTypeProp} {spec : GraphTypeSpec} {catalog : SchemaCatalog}
  {st : CatalogState} {line : Bytes}

theorem splitOn_record (hne : fields ≠ []) (h : ∀ f ∈ fields, tab ∉ f) :
    (record fields).splitOn tab = fields := splitOn_intercalate tab h hne

theorem splitOn_record_cons {tag first : Bytes} {rest : List Bytes} (htag : tab ∉ tag) :
    (record (tag :: first :: rest)).splitOn tab = tag :: (record (first :: rest)).splitOn tab := by
  rw [record_cons, splitOn_append_cons_self_of_not_mem htag]

theorem newline_not_mem_record (h : ∀ f ∈ fields, newline ∉ f) : newline ∉ record fields := by
  induction fields with
  | nil => exact not_mem_nil
  | cons f fields ih =>
    rw [forall_mem_cons] at h
    cases fields with
    | nil =>
      show newline ∉ [tab].intercalate [f]
      rw [intercalate_singleton]
      exact h.1
    | cons g fields =>
      rw [record_cons, mem_append, mem_cons, not_or, not_or]
      exact ⟨h.1, by decide, ih h.2⟩

theorem GraphTypeProp.Storable.field (hp : p.Storable) : Field (propField p) := by
  constructor
  · show tab ∉ p.name ++ colon :: p.type
    rw [mem_append, mem_cons, not_or, not_or]
    exact ⟨hp.name.tab, by decide, hp.type.tab⟩
  · show newline ∉ p.name ++ colon :: p.type
    rw [mem_append, mem_cons, not_or, not_or]
    exact ⟨hp.name.newline, by decide, hp.type.newline⟩

variable {props : List GraphTypeProp} {registry : GraphTypeRegistry} {reader : GraphTypeReader}

theorem props_fields (h : ∀ p ∈ props, p.Storable) : ∀ f ∈ props.map propField, Field f := by
  intro f hf
  rcases mem_map.mp hf with ⟨p, hp, rfl⟩
  exact (h p hp).field

theorem readProp_propField (hp : colon ∉ p.name) : readProp (propField p) = some p := by
  have hfind : (propField p).findIdx? (· == colon) = some p.name.length := by
    unfold propField
    rw [findIdx?_append]
    have hnone : p.name.findIdx? (· == colon) = none := by
      rw [findIdx?_eq_none_iff]
      intro x hx
      rw [beq_eq_false_iff_ne]
      intro he
      exact hp (he ▸ hx)
    rw [hnone, findIdx?_cons, if_pos (by simp)]
    simp
  unfold readProp
  rw [hfind, Option.map_some]
  unfold propField
  simp

theorem filterMap_readProp (h : ∀ p ∈ props, p.Storable) :
    (props.map propField).filterMap readProp = props := by
  induction props with
  | nil => rfl
  | cons p props ih =>
    rw [forall_mem_cons] at h
    rw [map_cons, filterMap_cons, readProp_propField h.1.uncut, ih h.2]

/-! ## 2. The reader of graph types -/

theorem splitOn_fields {tag : Bytes} (htag : tab ∉ tag) (h : ∀ f ∈ fields, Field f) :
    (record (tag :: fields)).splitOn tab = tag :: fields := by
  apply splitOn_record (cons_ne_nil _ _)
  rw [forall_mem_cons]
  exact ⟨htag, fun f hf => (h f hf).tab⟩

variable {key : Bytes}

theorem modify_insert (f : GraphTypeSpec → GraphTypeSpec) :
    GraphTypeReader.modify ⟨registry.insert key spec, some key⟩ f =
      ⟨registry.insert key (f spec), some key⟩ := by
  show GraphTypeReader.mk ((registry.insert key spec).insert key
    (f ((registry.insert key spec)[key]?.getD ⟨[], []⟩))) (some key) = _
  rw [Std.ExtTreeMap.getElem?_insert_self]
  congr 1
  apply Std.ExtTreeMap.ext_getElem?
  intro k
  rw [Std.ExtTreeMap.getElem?_insert, Std.ExtTreeMap.getElem?_insert, Std.ExtTreeMap.getElem?_insert]
  split
  · rfl
  · rfl

theorem read_typeLine (hkey : Field key) (reader : GraphTypeReader) :
    readGraphTypeLine reader (record [ascii "T", key]) =
      ⟨reader.registry.insert key ⟨[], []⟩, some key⟩ := by
  have hsplit : (record [ascii "T", key]).splitOn tab = [ascii "T", key] := by
    apply splitOn_fields (by decide)
    simp [hkey]
  unfold readGraphTypeLine
  rw [hsplit]
  simp

theorem read_nodeLine {n : GraphTypeNode} (hn : n.Storable) (reader : GraphTypeReader) :
    readGraphTypeLine reader (nodeLine n) =
      reader.modify fun spec => { spec with nodes := spec.nodes ++ [n] } := by
  have hsplit : (nodeLine n).splitOn tab = ascii "N" :: n.name :: n.props.map propField := by
    apply splitOn_fields (by decide)
    rw [forall_mem_cons]
    exact ⟨hn.name, props_fields hn.props⟩
  unfold readGraphTypeLine
  rw [hsplit]
  simp only [filterMap_readProp hn.props]
  rw [if_neg (by decide), if_pos trivial]

theorem read_edgeLine {e : GraphTypeEdge} (he : e.Storable) (reader : GraphTypeReader) :
    readGraphTypeLine reader (edgeLine e) =
      reader.modify fun spec => { spec with edges := spec.edges ++ [e] } := by
  have hsplit : (edgeLine e).splitOn tab =
      ascii "E" :: e.name :: e.source :: e.target :: e.props.map propField := by
    apply splitOn_fields (by decide)
    simp only [forall_mem_cons]
    exact ⟨he.name, he.source, he.target, props_fields he.props⟩
  unfold readGraphTypeLine
  rw [hsplit]
  simp only [filterMap_readProp he.props]
  rw [if_neg (by decide), if_neg (by decide), if_pos trivial]

theorem read_nodeLines {nodes : List GraphTypeNode} (h : ∀ n ∈ nodes, n.Storable)
    (registry : GraphTypeRegistry) (key : Bytes) (before : List GraphTypeNode) :
    (nodes.map nodeLine).foldl readGraphTypeLine ⟨registry.insert key ⟨before, []⟩, some key⟩ =
      ⟨registry.insert key ⟨before ++ nodes, []⟩, some key⟩ := by
  induction nodes generalizing before with
  | nil => simp
  | cons n nodes ih =>
    rw [forall_mem_cons] at h
    rw [map_cons, foldl_cons, read_nodeLine h.1, modify_insert]
    rw [ih h.2, append_assoc, singleton_append]

theorem read_edgeLines {edges : List GraphTypeEdge} (h : ∀ e ∈ edges, e.Storable)
    (registry : GraphTypeRegistry) (key : Bytes) (nodes : List GraphTypeNode)
    (before : List GraphTypeEdge) :
    (edges.map edgeLine).foldl readGraphTypeLine ⟨registry.insert key ⟨nodes, before⟩, some key⟩ =
      ⟨registry.insert key ⟨nodes, before ++ edges⟩, some key⟩ := by
  induction edges generalizing before with
  | nil => simp
  | cons e edges ih =>
    rw [forall_mem_cons] at h
    rw [map_cons, foldl_cons, read_edgeLine h.1, modify_insert]
    rw [ih h.2, append_assoc, singleton_append]

theorem read_typeLines {entry : Bytes × GraphTypeSpec} (hkey : Field entry.1)
    (hspec : entry.2.Storable) (reader : GraphTypeReader) :
    (typeLines entry).foldl readGraphTypeLine reader =
      ⟨reader.registry.insert entry.1 entry.2, some entry.1⟩ := by
  unfold typeLines
  rw [foldl_cons, foldl_append, read_typeLine hkey, read_nodeLines hspec.nodes,
    read_edgeLines hspec.edges]
  rfl

theorem read_registry {entries : List (Bytes × GraphTypeSpec)}
    (h : ∀ entry ∈ entries, Field entry.1 ∧ entry.2.Storable) (reader : GraphTypeReader) :
    ((entries.flatMap typeLines).foldl readGraphTypeLine reader).registry =
      entries.foldl (fun registry entry => registry.insert entry.1 entry.2) reader.registry := by
  induction entries generalizing reader with
  | nil => rfl
  | cons entry entries ih =>
    rw [forall_mem_cons] at h
    rw [flatMap_cons, foldl_append, read_typeLines h.1.1 h.1.2, ih h.2, foldl_cons]

theorem readGraphTypeLine_other {tag first : Bytes} {rest : List Bytes} (htab : tab ∉ tag)
    (hT : tag ≠ ascii "T") (hN : tag ≠ ascii "N") (hE : tag ≠ ascii "E")
    (reader : GraphTypeReader) :
    readGraphTypeLine reader (record (tag :: first :: rest)) = reader := by
  unfold readGraphTypeLine
  rw [splitOn_record_cons htab]
  cases (record (first :: rest)).splitOn tab with
  | nil => rfl
  | cons name fields =>
    simp only
    rw [if_neg hT, if_neg hN, if_neg hE]

theorem foldl_unchanged {σ : Type} {read : σ → Bytes → σ} {ls : List Bytes}
    (h : ∀ l ∈ ls, ∀ s, read s l = s) (s : σ) : ls.foldl read s = s := by
  induction ls with
  | nil => rfl
  | cons l ls ih =>
    rw [forall_mem_cons] at h
    rw [foldl_cons, h.1, ih h.2]

theorem read_catalogLines (catalog : SchemaCatalog) (reader : GraphTypeReader) :
    (catalog.schemas.toList.map schemaLine ++ catalog.members.toList.map memberLine).foldl
      readGraphTypeLine reader = reader := by
  apply foldl_unchanged
  intro l hl reader
  rw [mem_append, mem_map, mem_map] at hl
  rcases hl with ⟨path, -, rfl⟩ | ⟨entry, -, rfl⟩
  all_goals exact readGraphTypeLine_other (by decide) (by decide) (by decide) (by decide) reader

/-! ## 3. The reader of schemas and members -/

theorem readCatalogLine_schema (path : Bytes) (catalog : SchemaCatalog) :
    readCatalogLine catalog (schemaLine path) =
      { catalog with schemas := catalog.schemas.insert path } := by
  have hline : schemaLine path = 'Z'.toUInt8 :: tab :: path := by
    show 'Z'.toUInt8 :: tab :: [tab].intercalate [path] = _
    rw [intercalate_singleton]
  rw [hline, readCatalogLine, if_neg (fun h => h rfl), if_pos rfl]

theorem memberLine_eq (entry : Bytes × Member) : memberLine entry = 'M'.toUInt8 :: tab ::
      record [entry.1, entry.2.physical, kindLetter entry.2.kind] := by
  rfl

theorem tab_not_mem_kindLetter (kind : MemberKind) : tab ∉ kindLetter kind := by
  cases kind with
  | graph | graphType => decide

theorem readCatalogLine_member (entry : Bytes × Member) (catalog : SchemaCatalog) :
    readCatalogLine catalog (memberLine entry) =
      if tabless entry.1 entry.2 then
        catalog.addMember entry.1 entry.2.physical entry.2.kind
      else catalog := by
  have hkind := tab_not_mem_kindLetter entry.2.kind
  rw [memberLine_eq, readCatalogLine, if_neg (fun h => h rfl), if_neg (by decide), if_pos rfl]
  by_cases hclean : tab ∉ entry.1 ∧ tab ∉ entry.2.physical
  · have hsplit : (record [entry.1, entry.2.physical, kindLetter entry.2.kind]).splitOn tab =
        [entry.1, entry.2.physical, kindLetter entry.2.kind] := by
      apply splitOn_record (cons_ne_nil _ _)
      simp only [forall_mem_cons]
      exact ⟨hclean.1, hclean.2, hkind, fun f hf => absurd hf not_mem_nil⟩
    have ht : tabless entry.1 entry.2 = true := decide_eq_true hclean
    rw [hsplit, if_pos ht]
    show catalog.addMember entry.1 entry.2.physical _ = _
    cases entry.2.kind with
    | graph => rw [if_neg (by decide)]
    | graphType => rw [if_pos (by decide)]
  · have ht : ¬tabless entry.1 entry.2 = true := fun h => hclean (of_decide_eq_true h)
    rw [if_neg ht]
    have hlength : 3 <
        ((record [entry.1, entry.2.physical, kindLetter entry.2.kind]).splitOn tab).length := by
      rw [length_splitOn, record_cons, record_cons]
      simp only [count_append, count_cons_self]
      have hpos : 0 < entry.1.count tab ∨ 0 < entry.2.physical.count tab := by
        rw [count_pos_iff, count_pos_iff]
        by_cases h1 : tab ∈ entry.1
        · exact .inl h1
        · exact .inr (by_contra fun h2 => hclean ⟨h1, h2⟩)
      omega
    match hparts : (record [entry.1, entry.2.physical, kindLetter entry.2.kind]).splitOn tab with
    | [] => rfl
    | [_] => rfl
    | [_, _] => rfl
    | [_, _, _] =>
      rw [hparts] at hlength
      exact absurd hlength (Nat.lt_irrefl 3)
    | _ :: _ :: _ :: _ :: _ => rfl

theorem readCatalogLine_other {letter : UInt8} {rest : Bytes} (hZ : letter ≠ 'Z'.toUInt8)
    (hM : letter ≠ 'M'.toUInt8) (catalog : SchemaCatalog) :
    readCatalogLine catalog (letter :: rest) = catalog := by
  cases rest with
  | nil => rfl
  | cons c rest =>
    rw [readCatalogLine]
    split
    · rfl
    · rfl

theorem read_typeEntries (entries : List (Bytes × GraphTypeSpec)) (catalog : SchemaCatalog) :
    (entries.flatMap typeLines).foldl readCatalogLine catalog = catalog := by
  apply foldl_unchanged
  intro l hl c
  rcases mem_flatMap.mp hl with ⟨entry, -, hl⟩
  unfold typeLines at hl
  rw [mem_cons, mem_append, mem_map, mem_map] at hl
  rcases hl with rfl | ⟨n, -, rfl⟩ | ⟨e, -, rfl⟩
  · rw [record_cons]
    exact readCatalogLine_other (by decide) (by decide) c
  · exact readCatalogLine_other (by decide) (by decide) c
  · exact readCatalogLine_other (by decide) (by decide) c

theorem read_schemas (paths : List Bytes) (catalog : SchemaCatalog) :
    (paths.map schemaLine).foldl readCatalogLine catalog =
      { catalog with
        schemas := paths.foldl (fun schemas path => schemas.insert path) catalog.schemas } := by
  induction paths generalizing catalog with
  | nil => rfl
  | cons path paths ih =>
    rw [map_cons, foldl_cons, readCatalogLine_schema, ih]
    rfl

theorem read_members {entries : List (Bytes × Member)}
    (hdistinct : entries.Pairwise fun a b => ¬compare a.1 b.1 = .eq)
    (hfresh : ∀ entry ∈ entries, entry.1 ∉ catalog.members) :
    (entries.map memberLine).foldl readCatalogLine catalog =
      { catalog with
        members := (entries.filter fun e => tabless e.1 e.2).foldl
          (fun members e => members.insert e.1 e.2) catalog.members
        physicalToLogical := (entries.filter fun e => tabless e.1 e.2).foldl
          (fun reverse e => reverse.insert e.2.physical e.1) catalog.physicalToLogical } := by
  induction entries generalizing catalog with
  | nil => rfl
  | cons entry entries ih =>
    rw [pairwise_cons] at hdistinct
    rw [forall_mem_cons] at hfresh
    rw [map_cons, foldl_cons, readCatalogLine_member]
    by_cases ht : tabless entry.1 entry.2
    · have hnone : catalog.members[entry.1]? = none := Std.ExtTreeMap.getElem?_eq_none hfresh.1
      have hadd : catalog.addMember entry.1 entry.2.physical entry.2.kind =
          { catalog with
            members := catalog.members.insert entry.1 entry.2
            physicalToLogical := catalog.physicalToLogical.insert entry.2.physical entry.1 } := by
        unfold SchemaCatalog.addMember
        rw [hnone]
      rw [if_pos ht, hadd, filter_cons, if_pos ht, foldl_cons, foldl_cons, ih hdistinct.2]
      intro e he hmem
      rcases Std.ExtTreeMap.mem_insert.mp hmem with heq | hmem
      · exact hdistinct.1 e he heq
      · exact hfresh.2 e he hmem
    · rw [if_neg ht, filter_cons, if_neg ht, ih hdistinct.2 hfresh.2]

/-! ## 4. What is loaded -/

/-- Without newlines in the names the schemas come back, and the members whose names hold no tab. -/
theorem load_catalog (hlines : ∀ l ∈ storedLines st, newline ∉ l) :
    deserializeSchemaCatalog (storeCatalog st) =
      { schemas := st.catalog.schemas
        members := st.catalog.members.filter tabless
        physicalToLogical := reverseOf (st.catalog.members.filter tabless).toList } := by
  unfold deserializeSchemaCatalog
  rw [storeCatalog_eq, ended, lines_flatMap hlines]
  unfold storedLines
  rw [foldl_append, foldl_append, read_typeEntries, read_schemas,
    read_members (pairwise_ne_toList _)]
  · show SchemaCatalog.mk (st.catalog.schemas.toList.foldl _ ∅)
      ((st.catalog.members.toList.filter fun e => tabless e.1 e.2).foldl _ ∅)
      ((st.catalog.members.toList.filter fun e => tabless e.1 e.2).foldl _ ∅) = _
    rw [foldl_insert_set, ← Std.ExtTreeMap.toList_filter, foldl_insert_toList]
    rfl
  · intro entry _
    exact Std.ExtTreeMap.not_mem_empty

theorem load_registry (hlines : ∀ l ∈ storedLines st, newline ∉ l)
    (h : StorableRegistry st.registry) : deserializeGraphTypes (storeCatalog st) = st.registry := by
  unfold deserializeGraphTypes
  rw [storeCatalog_eq, ended, lines_flatMap hlines]
  unfold storedLines
  rw [foldl_append, read_catalogLines, read_registry, foldl_insert_toList]
  intro entry hentry
  exact h _ _ (Std.ExtTreeMap.mem_toList_iff_getElem?_eq_some.mp hentry)

theorem GraphTypeSpec.Storable.lines (hkey : Field key) (h : spec.Storable) :
    ∀ l ∈ typeLines (key, spec), newline ∉ l := by
  intro l hl
  unfold typeLines at hl
  rw [mem_cons, mem_append, mem_map, mem_map] at hl
  rcases hl with rfl | ⟨n, hn, rfl⟩ | ⟨e, he, rfl⟩
  · apply newline_not_mem_record
    simp only [forall_mem_cons]
    exact ⟨by decide, hkey.newline, fun f hf => absurd hf not_mem_nil⟩
  · apply newline_not_mem_record
    simp only [forall_mem_cons]
    exact ⟨by decide, (h.nodes n hn).name.newline,
      fun f hf => (props_fields (h.nodes n hn).props f hf).newline⟩
  · apply newline_not_mem_record
    simp only [forall_mem_cons]
    have hedge := h.edges e he
    exact ⟨by decide, hedge.name.newline, hedge.source.newline, hedge.target.newline,
      fun f hf => (props_fields hedge.props f hf).newline⟩

theorem storedLines_newline (hregistry : StorableRegistry st.registry)
    (hnames : StorableNames st.catalog) : ∀ l ∈ storedLines st, newline ∉ l := by
  intro l hl
  unfold storedLines at hl
  rw [mem_append, mem_flatMap, mem_append, mem_map, mem_map] at hl
  rcases hl with ⟨entry, hentry, hl⟩ | ⟨path, hpath, rfl⟩ | ⟨entry, hentry, rfl⟩
  · have hstored := hregistry _ _ (Std.ExtTreeMap.mem_toList_iff_getElem?_eq_some.mp hentry)
    exact hstored.2.lines hstored.1 l hl
  · apply newline_not_mem_record
    simp only [forall_mem_cons]
    exact ⟨by decide, hnames.schemas path (Std.ExtTreeSet.mem_toList.mp hpath),
      fun f hf => absurd hf not_mem_nil⟩
  · have hstored := hnames.members _ _ (Std.ExtTreeMap.mem_toList_iff_getElem?_eq_some.mp hentry)
    have hkind : newline ∉ kindLetter entry.2.kind := by
      cases entry.2.kind with
      | graph | graphType => decide
    apply newline_not_mem_record
    simp only [forall_mem_cons]
    exact ⟨by decide, hstored.1.newline, hstored.2.newline, hkind,
      fun f hf => absurd hf not_mem_nil⟩

theorem filter_tabless (h : StorableNames catalog) :
    catalog.members.filter tabless = catalog.members := by
  apply Std.ExtTreeMap.ext_getElem?
  intro k
  cases hk : catalog.members[k]? with
  | none => simp [hk]
  | some found =>
    have hstored := h.members k found hk
    simp [hk, tabless, hstored.1.tab, hstored.2.tab]

/-! ## 5. What every text is read as -/

theorem field_of_mem_splitOn {part : Bytes} (hline : newline ∉ line) (h : part ∈ line.splitOn tab) :
    Field part := by
  constructor
  · exact not_mem_of_mem_splitOn h
  · exact fun hn => hline (mem_of_mem_splitOn h hn)

theorem readProp_storable {part : Bytes} (hpart : Field part) (h : readProp part = some p) :
    p.Storable := by
  rcases Option.map_eq_some_iff.mp h with ⟨i, hi, rfl⟩
  have hfind := List.findIdx?_eq_some_iff_getElem.mp hi
  constructor
  · constructor
    · exact fun ht => hpart.tab (mem_of_mem_take ht)
    · exact fun ht => hpart.newline (mem_of_mem_take ht)
  · intro hc
    rcases getElem_of_mem hc with ⟨j, hj, hget⟩
    have hj' : j < i := by
      have hlength : (part.take i).length ≤ i := length_take_le i part
      have hshort : j < (part.take i).length := hj
      omega
    have hne := hfind.2.2 j hj'
    rw [getElem_take] at hget
    rw [hget] at hne
    exact hne (beq_self_eq_true _)
  · constructor
    · exact fun ht => hpart.tab (mem_of_mem_drop ht)
    · exact fun ht => hpart.newline (mem_of_mem_drop ht)

theorem filterMap_readProp_storable {parts : List Bytes} (h : ∀ f ∈ parts, Field f) :
    ∀ p ∈ parts.filterMap readProp, p.Storable := by
  intro p hp
  rcases mem_filterMap.mp hp with ⟨part, hpart, hread⟩
  exact readProp_storable (h part hpart) hread

theorem insert_storable (hregistry : StorableRegistry registry) (hkey : Field key)
    (hspec : spec.Storable) : StorableRegistry (registry.insert key spec) := by
  intro k found hk
  rw [getElem?_insert_key] at hk
  by_cases hkk : key = k
  · rw [if_pos hkk, Option.some.injEq] at hk
    exact ⟨hkk ▸ hkey, hk ▸ hspec⟩
  · rw [if_neg hkk] at hk
    exact hregistry k found hk

structure GraphTypeReader.Clean (reader : GraphTypeReader) : Prop where
  registry : StorableRegistry reader.registry
  current : ∀ key, reader.current = some key → Field key

theorem storable_empty : GraphTypeSpec.Storable ⟨[], []⟩ :=
  ⟨fun _ hn => absurd hn not_mem_nil, fun _ he => absurd he not_mem_nil⟩

theorem GraphTypeReader.Clean.modify (h : reader.Clean) {f : GraphTypeSpec → GraphTypeSpec}
    (hf : ∀ spec, spec.Storable → (f spec).Storable) : (reader.modify f).Clean := by
  unfold GraphTypeReader.modify
  cases hcurrent : reader.current with
  | none => exact h
  | some key =>
    have hkey := h.current key hcurrent
    refine ⟨insert_storable h.registry hkey (hf _ ?_), fun k hk => h.current k (hcurrent.trans hk)⟩
    cases hget : reader.registry[key]? with
    | none => exact storable_empty
    | some spec => exact (h.registry key spec hget).2

theorem readGraphTypeLine_clean (h : reader.Clean) (hline : newline ∉ line) :
    (readGraphTypeLine reader line).Clean := by
  have hfields : ∀ part ∈ line.splitOn tab, Field part :=
    fun part hpart => field_of_mem_splitOn hline hpart
  unfold readGraphTypeLine
  split
  · rename_i tag name rest hsplit
    rw [hsplit] at hfields
    simp only [forall_mem_cons] at hfields
    obtain ⟨-, hname, hrest⟩ := hfields
    split
    · exact ⟨insert_storable h.registry hname storable_empty,
        fun key hkey => Option.some.inj hkey ▸ hname⟩
    · split
      · apply h.modify
        intro spec hspec
        refine ⟨?_, hspec.edges⟩
        intro n hn
        rcases mem_append.mp hn with hn | hn
        · exact hspec.nodes n hn
        · rw [mem_singleton.mp hn]
          exact ⟨hname, filterMap_readProp_storable hrest⟩
      · split
        · split
          · rename_i source target props
            simp only [forall_mem_cons] at hrest
            apply h.modify
            intro spec hspec
            refine ⟨hspec.nodes, ?_⟩
            intro e he
            rcases mem_append.mp he with he | he
            · exact hspec.edges e he
            · rw [mem_singleton.mp he]
              exact ⟨hname, hrest.1, hrest.2.1, filterMap_readProp_storable hrest.2.2⟩
          · exact h
        · exact h
  · exact h

theorem deserializeGraphTypes_storable (data : Bytes) :
    StorableRegistry (deserializeGraphTypes data) := by
  have hfold : ∀ (ls : List Bytes) (reader : GraphTypeReader), (∀ l ∈ ls, newline ∉ l) →
      reader.Clean → (ls.foldl readGraphTypeLine reader).Clean := by
    intro ls
    induction ls with
    | nil => exact fun _ _ h => h
    | cons l ls ih =>
      intro reader hls h
      rw [forall_mem_cons] at hls
      exact ih _ hls.2 (readGraphTypeLine_clean h hls.1)
  apply (hfold _ _ (fun l hl => not_mem_of_mem_lines hl) _).registry
  refine ⟨?_, fun _ h => nomatch h⟩
  intro key spec h
  cases h

theorem addMember_names (h : StorableNames catalog) {logical physical : Bytes} (hl : Field logical)
    (hp : Field physical) (kind : MemberKind) :
    StorableNames (catalog.addMember logical physical kind) := by
  refine ⟨h.schemas, ?_⟩
  intro k found hk
  have hk' : (catalog.members.insert logical ⟨physical, kind⟩)[k]? = some found := hk
  rw [getElem?_insert_key] at hk'
  by_cases hkk : logical = k
  · rw [if_pos hkk, Option.some.injEq] at hk'
    rw [← hk', ← hkk]
    exact ⟨hl, hp⟩
  · rw [if_neg hkk] at hk'
    exact h.members k found hk'

theorem readCatalogLine_names (h : StorableNames catalog) (hline : newline ∉ line) :
    StorableNames (readCatalogLine catalog line) := by
  unfold readCatalogLine
  split
  · rename_i letter c rest
    have hrest : newline ∉ rest :=
      fun hn => hline (mem_cons_of_mem _ (mem_cons_of_mem _ hn))
    split
    · exact h
    · split
      · refine ⟨?_, h.members⟩
        intro path hpath
        rcases Std.ExtTreeSet.mem_insert.mp hpath with heq | hpath
        · rw [← Std.LawfulEqCmp.compare_eq_iff_eq.mp heq]
          exact hrest
        · exact h.schemas path hpath
      · split
        · unfold readMember
          split
          · rename_i logical physical kind hsplit
            have hfields : ∀ part ∈ rest.splitOn tab, Field part :=
              fun part hpart => field_of_mem_splitOn hrest hpart
            rw [hsplit] at hfields
            simp only [forall_mem_cons] at hfields
            exact addMember_names h hfields.1 hfields.2.1 _
          · exact h
        · exact h
  · exact h

theorem deserializeSchemaCatalog_names (data : Bytes) :
    StorableNames (deserializeSchemaCatalog data) := by
  have hfold : ∀ (ls : List Bytes) (catalog : SchemaCatalog), (∀ l ∈ ls, newline ∉ l) →
      StorableNames catalog → StorableNames (ls.foldl readCatalogLine catalog) := by
    intro ls
    induction ls with
    | nil => exact fun _ _ h => h
    | cons l ls ih =>
      intro catalog hls h
      rw [forall_mem_cons] at hls
      exact ih _ hls.2 (readCatalogLine_names h hls.1)
  apply hfold _ _ (fun l hl => not_mem_of_mem_lines hl)
  constructor
  · intro path hpath
    exact absurd hpath Std.ExtTreeSet.not_mem_empty
  · intro logical found h
    have h' : (∅ : Std.ExtTreeMap Bytes Member)[logical]? = some found := h
    cases h'

/-! ## 6. The round trip -/

theorem load_storable {st : CatalogState} (hregistry : StorableRegistry st.registry)
    (hnames : StorableNames st.catalog) :
    loadCatalog (storeCatalog st) =
      { registry := st.registry
        catalog := { st.catalog with
          physicalToLogical := reverseOf st.catalog.members.toList } } := by
  have hlines := storedLines_newline hregistry hnames
  show CatalogState.mk _ _ = _
  rw [load_registry hlines hregistry, load_catalog hlines, filter_tabless hnames]

/-- The next call sees the state that this one left exactly when no name holds a separator of its
place, and each physical name leads back to the last of its logical paths. -/
theorem catalog_survives_storage (registry : GraphTypeRegistry) (catalog : SchemaCatalog) :
    let data := serializeGraphTypes registry ++ serializeSchemaCatalog catalog
    (deserializeGraphTypes data = registry ∧ deserializeSchemaCatalog data = catalog) ↔
      Storable ⟨registry, catalog⟩ := by
  show (deserializeGraphTypes (storeCatalog ⟨registry, catalog⟩) = registry ∧
    deserializeSchemaCatalog (storeCatalog ⟨registry, catalog⟩) = catalog) ↔ _
  constructor
  · intro h
    have hregistry : StorableRegistry registry := h.1 ▸ deserializeGraphTypes_storable _
    have hnames : StorableNames catalog := h.2 ▸ deserializeSchemaCatalog_names _
    refine ⟨hregistry, hnames, ?_⟩
    -- the catalog is what was read, and its reverse map was built from its members
    have hload := @load_storable ⟨registry, catalog⟩ hregistry hnames
    have hcatalog := congrArg CatalogState.catalog hload
    have hread : deserializeSchemaCatalog (storeCatalog ⟨registry, catalog⟩) =
        { catalog with physicalToLogical := reverseOf catalog.members.toList } := hcatalog
    rw [h.2] at hread
    exact congrArg SchemaCatalog.physicalToLogical hread
  · intro h
    have hload := @load_storable ⟨registry, catalog⟩ h.registry h.names
    have hreverse : catalog.physicalToLogical = reverseOf catalog.members.toList := h.reverse
    constructor
    · exact congrArg CatalogState.registry hload
    · have hcatalog := congrArg CatalogState.catalog hload
      rw [← hreverse] at hcatalog
      exact hcatalog

/-- `CREATE GRAPH TYPE "a\tb" AS { NODE N }`: the member's line is cut into five parts, and left out. -/
theorem tab_in_type_name_lost : ∃ t, translateLinearCatalog none .empty (.createGraphType
        ⟨false, false, ⟨ascii "\"a\tb\"", none, ascii "\"a\tb\""⟩,
          .nested (.ok ⟨[⟨ascii "N", []⟩], []⟩)⟩) = .ok t ∧
      let data := serializeGraphTypes t.state.registry ++ serializeSchemaCatalog t.state.catalog
      ¬(deserializeGraphTypes data = t.state.registry ∧
        deserializeSchemaCatalog data = t.state.catalog) := by
  refine ⟨_, rfl, ?_⟩
  intro data h
  have hlength := congrArg (fun catalog => catalog.members.toList.length) h.2
  revert hlength
  decide +kernel

end Ladybug.GqlCatalog
