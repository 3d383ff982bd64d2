import Ladybug.Sqlite.ResolverDiff

/-!
# The schema loop

Both resolutions drop the tables no schema names and then work through the schemas.  The work on
one table leaves the operations and the memory of every other table alone, so what a call emits for
a table is what its own round emits (`resolveSchemas_table`).
-/

namespace Ladybug.Sqlite

open Bytes List

/-! ## 1. The operations on one table -/

def OpBatch.upsertsOf (b : OpBatch) (n : String) : List (Int64 × List SqliteValue) :=
  (b.upserts.filter fun o => o.table = n).map RowOp.entry

def OpBatch.deletesOf (b : OpBatch) (n : String) : List RowDelete :=
  b.deletes.filter fun d => d.table = n

variable {n name : String} {fetcher : PageFetcher} {pageSize : Nat} {w w' : Work} {p : UInt32}
  {acc acc' : OpResolver × OpBatch} {st : TableState} {b : OpBatch} {dirty : List UInt32}
  {old : Option TableState} {s : TableSchema}

theorem upsertsOf_append_self (ups : List RowOp) (h : ∀ o ∈ ups, o.table = n) :
    ({ b with upserts := b.upserts ++ ups } : OpBatch).upsertsOf n =
      b.upsertsOf n ++ ups.map RowOp.entry := by
  unfold OpBatch.upsertsOf
  rw [filter_append, map_append, filter_eq_self.mpr fun o ho => decide_eq_true (h o ho)]

theorem deletesOf_append_self (dels : List RowDelete) (h : ∀ d ∈ dels, d.table = n) :
    ({ b with deletes := b.deletes ++ dels } : OpBatch).deletesOf n = b.deletesOf n ++ dels := by
  unfold OpBatch.deletesOf
  rw [filter_append, filter_eq_self.mpr fun d hd => decide_eq_true (h d hd)]

theorem sorted_upsertsOf (b : OpBatch) (n : String) : (b.sorted.upsertsOf n).Perm (b.upsertsOf n) :=
  ((perm_insertionSort opLe b.upserts).filter _).map _

theorem sorted_deletesOf (b : OpBatch) (n : String) : (b.sorted.deletesOf n).Perm (b.deletesOf n) :=
  (perm_insertionSort deleteLe b.deletes).filter _

/-! ## 2. Work on one table leaves the others alone -/

def Work.others (name : String) (w : Work) : List RowOp × List RowDelete :=
  (w.upserts.filter fun o => o.table ≠ name, w.deletes.filter fun d => d.table ≠ name)

theorem others_emitDeletes (name : String) (w : Work) (rowids : List Int64) :
    (w.emitDeletes name rowids).others name = w.others name := by
  have hstep : ∀ (acc : TableState × List RowDelete) r,
      (emitDelete name acc r).2.filter (fun d => d.table ≠ name) =
        acc.2.filter fun d => d.table ≠ name := by
    simp [emitDelete, rowDelete]
  have hfold := foldl_keeps
    (fun acc : TableState × List RowDelete => acc.2.filter fun d => d.table ≠ name) hstep rowids
    (w.state, w.deletes)
  unfold Work.others Work.emitDeletes
  simp only [hfold]

theorem others_emitRows (name : String) (w : Work) (rows : List DecodedRow) :
    (w.emitRows name rows).others name = w.others name := by
  have hnone : (rows.map (rowOp name)).filter (fun o => o.table ≠ name) = [] := by
    rw [filter_eq_nil_iff]
    intro o ho
    obtain ⟨row, -, rfl⟩ := mem_map.mp ho
    simp [rowOp]
  unfold Work.others Work.emitRows
  simp only [filter_append, hnone, append_nil]

theorem others_removePage (name : String) (leaves : List UInt32) (w : Work)
    (e : Sigma fun _ : UInt32 => PageState) :
    (removePage name leaves w e).others name = w.others name := by
  unfold removePage
  split
  · rfl
  · exact others_emitDeletes name w _

theorem others_refreshLeaf (name : String) (p : UInt32) (old : List Int64)
    (decoded : List DecodedRow × UInt64) (w : Work) :
    (refreshLeaf name p old decoded w).others name = w.others name :=
  (others_emitRows name _ decoded.1).trans (others_emitDeletes name _ _)

theorem others_visitLeaf (h : visitLeaf name dirty fetcher pageSize w p = .ok w') :
    w'.others name = w.others name := by
  unfold visitLeaf at h
  split at h
  · split at h
    · cases h
      rfl
    · split at h
      · cases h
        exact others_refreshLeaf name p _ _ w
      · cases h
  · split at h
    · cases h
      exact others_refreshLeaf name p _ _ w
    · cases h

theorem others_loadPage (h : loadPage name fetcher pageSize w p = .ok w') :
    w'.others name = w.others name := by
  obtain ⟨decoded, -, h⟩ := bind_eq_ok.mp h
  cases h
  exact others_emitRows name (w.trackRows decoded.1) decoded.1

theorem others_diffLeaf (h : diffLeaf name fetcher pageSize old w p = .ok w') :
    w'.others name = w.others name := by
  unfold diffLeaf at h
  split at h
  · cases h
  · obtain ⟨bytes, -, h⟩ := bind_eq_ok.mp h
    split at h
    · split at h
      · cases h
        rfl
      · exact others_loadPage h
    · exact others_loadPage h

theorem others_retract (name : String) (w : Work) : (w.retract name).others name = w.others name := by
  unfold Work.others Work.retract
  simp only [filter_filter]
  congr 2
  funext d
  by_cases hd : d.table = name <;> simp [hd]

/-- What `n` has in the memory and the batch is the same before and after. -/
structure SameFor (n : String) (acc acc' : OpResolver × OpBatch) : Prop where
  lookup : acc'.1.tables.lookup n = acc.1.tables.lookup n
  upserts : acc'.2.upsertsOf n = acc.2.upsertsOf n
  deletes : acc'.2.deletesOf n = acc.2.deletesOf n

theorem SameFor.trans {a b c : OpResolver × OpBatch} (h : SameFor n a b) (h' : SameFor n b c) :
    SameFor n a c :=
  ⟨h'.lookup.trans h.lookup, h'.upserts.trans h.upserts, h'.deletes.trans h.deletes⟩

theorem filter_of_others {α : Type} {table : α → String} (hn : n ≠ name) {xs ys : List α}
    (h : xs.filter (fun x => table x ≠ name) = ys.filter fun x => table x ≠ name) :
    xs.filter (fun x => table x = n) = ys.filter fun x => table x = n := by
  have hsub (zs : List α) : zs.filter (fun x => table x = n) =
      (zs.filter fun x => table x ≠ name).filter fun x => table x = n := by
    rw [filter_filter]
    congr 1
    funext x
    by_cases hx : table x = n <;> simp [hx, hn]
  rw [hsub xs, hsub ys, h]

theorem sameFor_of_others (hn : n ≠ name) (hlookup : acc'.1.tables.lookup n = acc.1.tables.lookup n)
    (hups : acc'.2.upserts = w.upserts) (hdels : acc'.2.deletes = w.deletes)
    (h : w.others name = (acc.2.upserts.filter (fun o => o.table ≠ name),
      acc.2.deletes.filter fun d => d.table ≠ name)) : SameFor n acc acc' := by
  obtain ⟨hu, hd⟩ := Prod.mk.injEq .. ▸ h
  refine ⟨hlookup, ?_, ?_⟩
  · unfold OpBatch.upsertsOf
    rw [hups, filter_of_others hn hu]
  · unfold OpBatch.deletesOf
    rw [hdels, filter_of_others hn hd]

/-! ## 3. The rounds of the loop -/

def KeepsOthers (table : TableSchema → OpResolver × OpBatch → Except Halt (OpResolver × OpBatch)) :
    Prop :=
  ∀ s acc acc', table s acc = .ok acc' →
    (∀ n, n ≠ s.name → SameFor n acc acc') ∧ acc'.2.droppedTables = acc.2.droppedTables

theorem skipTable_keeps (s : TableSchema) (acc : OpResolver × OpBatch) :
    (∀ n, n ≠ s.name → SameFor n acc (skipTable s acc)) ∧
      (skipTable s acc).2.droppedTables = acc.2.droppedTables :=
  ⟨fun _ hn => ⟨AList.lookup_erase_ne hn, rfl, rfl⟩, rfl⟩

theorem store_keeps {acc₀ : OpResolver × OpBatch}
    (hlookup : ∀ n, n ≠ name → acc.1.tables.lookup n = acc₀.1.tables.lookup n)
    (hdropped : acc.2.droppedTables = acc₀.2.droppedTables)
    (h : w.others name = (acc₀.2.upserts.filter (fun o => o.table ≠ name),
      acc₀.2.deletes.filter fun d => d.table ≠ name)) :
    (∀ n, n ≠ name → SameFor n acc₀ (w.store name acc)) ∧
      (w.store name acc).2.droppedTables = acc₀.2.droppedTables := by
  refine ⟨fun n hn => sameFor_of_others hn ?_ rfl rfl h, hdropped⟩
  exact (AList.lookup_insert_ne hn).trans (hlookup n hn)

theorem updateTable_keeps (h : updateTable dirty fetcher pageSize s st acc = .ok acc') :
    (∀ n, n ≠ s.name → SameFor n acc acc') ∧ acc'.2.droppedTables = acc.2.droppedTables := by
  unfold updateTable at h
  split at h
  · cases h
  next leaves _ =>
    simp only at h
    split at h
    next w hrun =>
      cases h
      refine store_keeps (fun _ _ => rfl) rfl ?_
      rw [others_retract, foldlM_keeps (Work.others s.name) (fun _ _ _ => others_visitLeaf) hrun,
        foldl_keeps (Work.others s.name) (others_removePage s.name leaves)]
      rfl
    · cases h

theorem rebuildTable_keeps (h : rebuildTable fetcher pageSize s old acc = .ok acc') :
    (∀ n, n ≠ s.name → SameFor n acc acc') ∧ acc'.2.droppedTables = acc.2.droppedTables := by
  have hold : (emitOld s.name old acc.2.deletes).filter (fun d => d.table ≠ s.name) =
      acc.2.deletes.filter fun d => d.table ≠ s.name := by
    cases old with
    | none => rfl
    | some st =>
      exact congrArg Prod.snd (others_emitDeletes s.name ⟨st, acc.2.upserts, acc.2.deletes, []⟩ _)
  unfold rebuildTable at h
  simp only at h
  split at h
  next w hrun =>
    cases h
    obtain ⟨leaves, -, hrun⟩ := bind_eq_ok.mp hrun
    refine store_keeps (fun _ hn => AList.lookup_erase_ne hn) rfl ?_
    rw [foldlM_keeps (Work.others s.name) (fun _ _ _ => others_loadPage) hrun, ← hold]
    rfl
  · cases h

theorem applyTable_keeps (dirty : List UInt32) (fetcher : PageFetcher) (pageSize : Nat) :
    KeepsOthers (applyTable dirty fetcher pageSize) := by
  intro s acc acc' h
  unfold applyTable at h
  split at h
  · cases h
    exact skipTable_keeps s acc
  · split at h
    · split at h
      · exact rebuildTable_keeps h
      · exact updateTable_keeps h
    · exact rebuildTable_keeps h

theorem diffTable_keeps (fetcher : PageFetcher) (pageSize : Nat) (blind : Bool) :
    KeepsOthers (diffTable fetcher pageSize blind) := by
  intro s acc acc' h
  unfold diffTable at h
  split at h
  · cases h
    exact skipTable_keeps s acc
  · simp only at h
    split at h
    · cases h
    next w hrun =>
      cases h
      obtain ⟨leaves, -, hrun⟩ := bind_eq_ok.mp hrun
      have hw := foldlM_keeps (Work.others s.name) (fun _ _ _ => others_diffLeaf) hrun
      refine store_keeps (fun _ _ => rfl) rfl ?_
      cases comparableState acc.1 s blind with
      | none => exact hw
      | some st =>
        rw [others_emitDeletes]
        exact hw

/-! ## 4. Vanished tables -/

def tableDeletes (name : String) (st : TableState) : List RowDelete := (emitTable name st []).2

theorem emitTable_deletes (name : String) (st : TableState) (deletes : List RowDelete) :
    (emitTable name st deletes).2 = deletes ++ tableDeletes name st := by
  have hfold : ∀ (rowids : List Int64) (st : TableState) (deletes : List RowDelete),
      (rowids.foldl (emitDelete name) (st, deletes)).2 =
        deletes ++ (rowids.foldl (emitDelete name) (st, [])).2 := by
    intro rowids
    induction rowids with
    | nil => exact fun st deletes => (append_nil deletes).symm
    | cons r rowids ih =>
      intro st deletes
      have hcons : ∀ dels, (r :: rowids).foldl (emitDelete name) (st, dels) =
          rowids.foldl (emitDelete name) (st.forget r, dels ++ [rowDelete name st r]) :=
        fun _ => rfl
      rw [hcons, hcons, ih (st.forget r), ih (st.forget r) ([] ++ _), append_assoc, nil_append]
  exact hfold _ st deletes

theorem tableDeletes_table : ∀ d ∈ tableDeletes name st, d.table = name := by
  have h := others_emitDeletes name ⟨st, [], [], []⟩ (st.pages.entries.flatMap fun e => e.2.rowids)
  have hnone : (tableDeletes name st).filter (fun d => d.table ≠ name) = [] := congrArg Prod.snd h
  intro d hd
  rw [filter_eq_nil_iff] at hnone
  simpa using hnone d hd

theorem findSchema_eq_none {schemas : List TableSchema} :
    findSchema schemas n = none ↔ ∀ s ∈ schemas, s.name ≠ n := by
  unfold findSchema
  simp

theorem table_entry_iff {tables : Tables} :
    (⟨n, st⟩ : Sigma fun _ : String => TableState) ∈ tables.entries ↔
      tables.lookup n = some st := by
  unfold AList.lookup
  rw [← Option.mem_def, mem_dlookup_iff tables.nodupKeys]

theorem foldl_dropTable (es : List (Sigma fun _ : String => TableState))
    (acc : OpResolver × OpBatch) :
    (∀ n, (es.foldl dropTable acc).1.tables.lookup n =
      if n ∈ es.map Sigma.fst then none else acc.1.tables.lookup n) ∧
    (es.foldl dropTable acc).2 =
      { acc.2 with
        droppedTables := acc.2.droppedTables ++ es.map Sigma.fst
        deletes := acc.2.deletes ++ es.flatMap fun e => tableDeletes e.1 e.2 } := by
  induction es generalizing acc with
  | nil => simp
  | cons e es ih =>
    obtain ⟨hlookup, hbatch⟩ := ih (dropTable acc e)
    refine ⟨?_, ?_⟩
    · intro n
      rw [foldl_cons, hlookup n]
      unfold dropTable
      simp only [map_cons]
      by_cases hn : n = e.1
      · subst hn
        rw [AList.lookup_erase, ite_self, if_pos mem_cons_self]
      · have hmem : n ∈ e.1 :: es.map Sigma.fst ↔ n ∈ es.map Sigma.fst := by
          rw [mem_cons, or_iff_right hn]
        simp only [hmem, AList.lookup_erase_ne hn]
    · rw [foldl_cons, hbatch]
      unfold dropTable
      simp only [emitTable_deletes, map_cons, flatMap_cons, append_assoc, singleton_append]

def vanishedEntries (schemas : List TableSchema) (r : OpResolver) :
    List (Sigma fun _ : String => TableState) :=
  r.tables.entries.filter fun e => findSchema schemas e.1 = none

theorem mem_vanishedEntries {schemas : List TableSchema} {r : OpResolver} :
    (⟨n, st⟩ : Sigma fun _ : String => TableState) ∈ vanishedEntries schemas r ↔
      r.tables.lookup n = some st ∧ findSchema schemas n = none := by
  unfold vanishedEntries
  rw [mem_filter, table_entry_iff, decide_eq_true_iff]

theorem dropVanished_eq (schemas : List TableSchema) (r : OpResolver) :
    (∀ n, (dropVanished schemas r).1.tables.lookup n =
      if findSchema schemas n = none then none else r.tables.lookup n) ∧
    (dropVanished schemas r).2 =
      { droppedTables := (vanishedEntries schemas r).map Sigma.fst
        deletes := (vanishedEntries schemas r).flatMap fun e => tableDeletes e.1 e.2 } := by
  obtain ⟨hlookup, hbatch⟩ := foldl_dropTable (vanishedEntries schemas r) (r, {})
  refine ⟨?_, ?_⟩
  · intro n
    refine (hlookup n).trans ?_
    by_cases hn : findSchema schemas n = none
    · rw [if_pos hn]
      cases hst : r.tables.lookup n with
      | none => rw [ite_self]
      | some st =>
        have hin : n ∈ (vanishedEntries schemas r).map Sigma.fst :=
          mem_map.mpr ⟨⟨n, st⟩, mem_vanishedEntries.mpr ⟨hst, hn⟩, rfl⟩
        rw [if_pos hin]
    · rw [if_neg hn, if_neg]
      intro hin
      obtain ⟨⟨m, st⟩, hmem, rfl⟩ := mem_map.mp hin
      exact hn (mem_vanishedEntries.mp hmem).2
  · refine Eq.trans ?_ (hbatch.trans ?_)
    · rfl
    · simp only [nil_append]

/-! ## 5. What a call emits for a table -/

section

variable {table : TableSchema → OpResolver × OpBatch → Except Halt (OpResolver × OpBatch)}
  {schemas : List TableSchema} {r r' : OpResolver} {batch : OpBatch} {n : String} {s : TableSchema}

theorem foldlM_sameFor (hkeeps : KeepsOthers table) {ss : List TableSchema}
    {acc acc' : OpResolver × OpBatch} (h : ss.foldlM (fun acc s => table s acc) acc = .ok acc')
    (hn : ∀ s ∈ ss, s.name ≠ n) : SameFor n acc acc' := by
  induction ss generalizing acc with
  | nil =>
    cases h
    exact ⟨rfl, rfl, rfl⟩
  | cons s ss ih =>
    rw [foldlM_cons] at h
    obtain ⟨acc₁, hs, h⟩ := bind_eq_ok.mp h
    have hstep := (hkeeps s acc acc₁ hs).1 n fun heq => hn s mem_cons_self heq.symm
    exact hstep.trans (ih h fun x hx => hn x (mem_cons_of_mem s hx))

theorem resolveSchemas_ok_iff : resolveSchemas table schemas r = (.ok batch, r') ↔
    ∃ b, schemas.foldlM (fun acc s => table s acc) (dropVanished schemas r) = .ok (r', b) ∧
      batch = b.sorted := by
  unfold resolveSchemas
  cases hrun : schemas.foldlM (fun acc s => table s acc) (dropVanished schemas r) with
  | error e => simp
  | ok acc =>
    simp only [Prod.mk.injEq, Except.ok.injEq]
    constructor
    · rintro ⟨hb, hr⟩
      exact ⟨acc.2, by rw [← hr], hb.symm⟩
    · rintro ⟨b, hacc, hb⟩
      rw [hacc]
      exact ⟨hb.symm, rfl⟩

theorem dropVanished_kept (hn : findSchema schemas n ≠ none) :
    (dropVanished schemas r).1.tables.lookup n = r.tables.lookup n ∧
      (dropVanished schemas r).2.upsertsOf n = [] ∧
      (dropVanished schemas r).2.deletesOf n = [] := by
  obtain ⟨hlookup, hbatch⟩ := dropVanished_eq schemas r
  refine ⟨by rw [hlookup n, if_neg hn], by rw [hbatch]; rfl, ?_⟩
  rw [hbatch]
  unfold OpBatch.deletesOf
  rw [filter_eq_nil_iff]
  intro d hd
  obtain ⟨⟨m, st⟩, hmem, hd⟩ := mem_flatMap.mp hd
  have htable := tableDeletes_table d hd
  simp only [decide_eq_true_eq]
  rintro rfl
  exact hn (htable ▸ (mem_vanishedEntries.mp hmem).2)

theorem findSchema_ne_none (hs : s ∈ schemas) : findSchema schemas s.name ≠ none := by
  rw [ne_eq, findSchema_eq_none]
  exact fun h => h s hs rfl

section

variable (hkeeps : KeepsOthers table)

include hkeeps

/-- The round of a listed table, from a batch that has nothing on it yet, decides what the call
emits and remembers for it. -/
theorem resolveSchemas_table (hnames : (schemas.map TableSchema.name).Nodup)
    (h : resolveSchemas table schemas r = (.ok batch, r')) (hs : s ∈ schemas) :
    ∃ acc acc', table s acc = .ok acc' ∧ acc.1.tables.lookup s.name = r.tables.lookup s.name ∧
      acc.2.upsertsOf s.name = [] ∧ acc.2.deletesOf s.name = [] ∧
      r'.tables.lookup s.name = acc'.1.tables.lookup s.name ∧
      (batch.upsertsOf s.name).Perm (acc'.2.upsertsOf s.name) ∧
      (batch.deletesOf s.name).Perm (acc'.2.deletesOf s.name) := by
  obtain ⟨b, hrun, rfl⟩ := resolveSchemas_ok_iff.mp h
  obtain ⟨hlookup₀, hups₀, hdels₀⟩ := dropVanished_kept (r := r) (findSchema_ne_none hs)
  obtain ⟨pre, post, hsplit⟩ := append_of_mem hs
  rw [hsplit, map_append, map_cons] at hnames
  have hpre : ∀ x ∈ pre, x.name ≠ s.name := fun x hx heq =>
    (nodup_append.mp hnames).2.2 _ (mem_map_of_mem hx) _ mem_cons_self heq
  have hpost : ∀ x ∈ post, x.name ≠ s.name := fun x hx heq =>
    (nodup_cons.mp (nodup_append.mp hnames).2.1).1 (heq ▸ mem_map_of_mem hx)
  obtain ⟨acc₀, hacc₀⟩ : ∃ acc₀, dropVanished schemas r = acc₀ := ⟨_, rfl⟩
  rw [hacc₀] at hrun hlookup₀ hups₀ hdels₀
  rw [hsplit, foldlM_append] at hrun
  obtain ⟨acc, hfst, hrun⟩ := bind_eq_ok.mp hrun
  rw [foldlM_cons] at hrun
  obtain ⟨acc', hmid, hrun⟩ := bind_eq_ok.mp hrun
  have h₁ := foldlM_sameFor hkeeps hfst hpre
  have h₂ := foldlM_sameFor hkeeps hrun hpost
  exact ⟨acc, acc', hmid, h₁.lookup.trans hlookup₀, h₁.upserts.trans hups₀,
    h₁.deletes.trans hdels₀, h₂.lookup,
    h₂.upserts ▸ sorted_upsertsOf b s.name, h₂.deletes ▸ sorted_deletesOf b s.name⟩

theorem resolveSchemas_succeeds (hnames : (schemas.map TableSchema.name).Nodup)
    (hround : ∀ s ∈ schemas, ∀ acc : OpResolver × OpBatch,
      acc.1.tables.lookup s.name = r.tables.lookup s.name → acc.2.deletesOf s.name = [] →
      ∃ acc', table s acc = .ok acc') :
    ∃ batch r', resolveSchemas table schemas r = (.ok batch, r') := by
  have hloop : ∀ ss, ss <:+ schemas → ∀ acc : OpResolver × OpBatch,
      (∀ s ∈ ss, acc.1.tables.lookup s.name = r.tables.lookup s.name ∧
        acc.2.deletesOf s.name = []) →
      ∃ acc', ss.foldlM (fun acc s => table s acc) acc = .ok acc' := by
    intro ss
    induction ss with
    | nil => exact fun _ acc _ => ⟨acc, rfl⟩
    | cons s ss ih =>
      intro hsuffix acc hacc
      have hsub : s ∈ schemas := hsuffix.subset mem_cons_self
      have hnodup : ((s :: ss).map TableSchema.name).Nodup :=
        hnames.sublist (hsuffix.sublist.map _)
      rw [map_cons, nodup_cons] at hnodup
      obtain ⟨hl, hd⟩ := hacc s mem_cons_self
      obtain ⟨acc₁, hstep⟩ := hround s hsub acc hl hd
      have hrest : ∀ x ∈ ss, acc₁.1.tables.lookup x.name = r.tables.lookup x.name ∧
          acc₁.2.deletesOf x.name = [] := by
        intro x hx
        have hne : x.name ≠ s.name := fun heq => hnodup.1 (heq ▸ mem_map_of_mem hx)
        have hsame := (hkeeps s acc acc₁ hstep).1 x.name hne
        obtain ⟨hlx, hdx⟩ := hacc x (mem_cons_of_mem s hx)
        exact ⟨hsame.lookup.trans hlx, hsame.deletes.trans hdx⟩
      obtain ⟨acc', hrun⟩ := ih ((suffix_cons s ss).trans hsuffix) acc₁ hrest
      refine ⟨acc', ?_⟩
      rw [foldlM_cons, hstep]
      exact hrun
  obtain ⟨⟨r', b⟩, hrun⟩ := hloop schemas suffix_rfl (dropVanished schemas r) fun s hs =>
    let h := dropVanished_kept (r := r) (findSchema_ne_none hs)
    ⟨h.1, h.2.2⟩
  exact ⟨b.sorted, r', resolveSchemas_ok_iff.mpr ⟨b, hrun, rfl⟩⟩

theorem resolveSchemas_vanished (h : resolveSchemas table schemas r = (.ok batch, r'))
    (hn : findSchema schemas n = none) :
    r'.tables.lookup n = none ∧ batch.upsertsOf n = [] ∧
      ∀ d, d ∈ batch.deletesOf n ↔ ∃ st, r.tables.lookup n = some st ∧ d ∈ tableDeletes n st := by
  obtain ⟨b, hrun, rfl⟩ := resolveSchemas_ok_iff.mp h
  have hsame := foldlM_sameFor hkeeps hrun (findSchema_eq_none.mp hn)
  obtain ⟨hlookup, hbatch⟩ := dropVanished_eq schemas r
  have hsl := hsame.lookup
  have hsu := hsame.upserts
  have hsd := hsame.deletes
  rw [hlookup n, if_pos hn] at hsl
  rw [hbatch] at hsu hsd
  refine ⟨hsl, ?_, ?_⟩
  · have hnil := (sorted_upsertsOf b n).trans (Perm.of_eq hsu)
    exact perm_nil.mp hnil
  · intro d
    rw [(sorted_deletesOf b n).mem_iff, hsd]
    unfold OpBatch.deletesOf
    rw [mem_filter, mem_flatMap, decide_eq_true_iff]
    constructor
    · rintro ⟨⟨⟨m, st⟩, hmem, hd⟩, htable⟩
      obtain rfl : m = n := (tableDeletes_table d hd).symm.trans htable
      exact ⟨st, (mem_vanishedEntries.mp hmem).1, hd⟩
    · rintro ⟨st, hst, hd⟩
      exact ⟨⟨⟨n, st⟩, mem_vanishedEntries.mpr ⟨hst, hn⟩, hd⟩, tableDeletes_table d hd⟩

theorem resolveSchemas_dropped (h : resolveSchemas table schemas r = (.ok batch, r')) (n : String) :
    n ∈ batch.droppedTables ↔ findSchema schemas n = none ∧ r.tables.lookup n ≠ none := by
  obtain ⟨b, hrun, rfl⟩ := resolveSchemas_ok_iff.mp h
  have hdropped := foldlM_keeps (fun acc : OpResolver × OpBatch => acc.2.droppedTables)
    (fun acc s acc' hs => (hkeeps s acc acc' hs).2) hrun
  have hmem : n ∈ b.sorted.droppedTables ↔ n ∈ b.droppedTables :=
    (perm_insertionSort (· ≤ ·) b.droppedTables).mem_iff
  rw [(dropVanished_eq schemas r).2] at hdropped
  rw [hmem, hdropped, mem_map]
  constructor
  · rintro ⟨⟨m, st⟩, hin, rfl⟩
    obtain ⟨hst, hfind⟩ := mem_vanishedEntries.mp hin
    rw [hst]
    exact ⟨hfind, Option.some_ne_none st⟩
  · rintro ⟨hfind, hne⟩
    obtain ⟨st, hst⟩ := Option.ne_none_iff_exists'.mp hne
    exact ⟨⟨n, st⟩, mem_vanishedEntries.mpr ⟨hst, hfind⟩, rfl⟩

theorem resolveSchemas_skipped
    (hskips : ∀ s acc, s.withoutRowid = true → table s acc = .ok (skipTable s acc))
    (hnames : (schemas.map TableSchema.name).Nodup)
    (h : resolveSchemas table schemas r = (.ok batch, r')) (hs : s ∈ schemas)
    (hw : s.withoutRowid = true) :
    r'.tables.lookup s.name = none ∧ batch.upsertsOf s.name = [] ∧ batch.deletesOf s.name = [] := by
  obtain ⟨acc, acc', hround, -, hups₀, hdels₀, hlookup, hups, hdels⟩ :=
    resolveSchemas_table hkeeps hnames h hs
  rw [hskips s acc hw] at hround
  cases hround
  refine ⟨?_, ?_, ?_⟩
  · rw [hlookup]
    exact AList.lookup_erase _ _
  · exact perm_nil.mp (hups.trans (Perm.of_eq hups₀))
  · exact perm_nil.mp (hdels.trans (Perm.of_eq hdels₀))

end

theorem applyTable_skips (dirty : List UInt32) (fetcher : PageFetcher) (pageSize : Nat)
    (s : TableSchema) (acc : OpResolver × OpBatch) (hw : s.withoutRowid = true) :
    applyTable dirty fetcher pageSize s acc = .ok (skipTable s acc) := if_pos hw

theorem diffTable_skips (fetcher : PageFetcher) (pageSize : Nat) (blind : Bool)
    (s : TableSchema) (acc : OpResolver × OpBatch) (hw : s.withoutRowid = true) :
    diffTable fetcher pageSize blind s acc = .ok (skipTable s acc) := if_pos hw

theorem resolveSchemas_only (hkeeps : KeepsOthers table)
    (hskips : ∀ s acc, s.withoutRowid = true → table s acc = .ok (skipTable s acc))
    (hnames : (schemas.map TableSchema.name).Nodup)
    (h : resolveSchemas table schemas r = (.ok batch, r')) (n : String)
    (hn : r'.tables.lookup n ≠ none) : ∃ s ∈ schemas, s.name = n ∧ s.withoutRowid = false := by
  by_contra hno
  by_cases hfind : findSchema schemas n = none
  · exact hn (resolveSchemas_vanished hkeeps h hfind).1
  · apply hfind
    rw [findSchema_eq_none]
    rintro s hs rfl
    cases hw : s.withoutRowid with
    | false => exact hno ⟨s, hs, rfl, hw⟩
    | true => exact hn (resolveSchemas_skipped hkeeps hskips hnames h hs hw).1

end

/-! ## 6. The branches -/

section

variable {r r' : OpResolver} {schemas : List TableSchema} {dirty : List UInt32}
  {fetcher : PageFetcher} {pageSize : Nat} {batch : OpBatch} {s : TableSchema} {st₀ : TableState}
  {v : TableView} {name : String}

theorem rowOps_table {pages : List UInt32} : ∀ o ∈ rowOps name v pages, o.table = name := by
  intro o ho
  obtain ⟨p, -, row, -, rfl⟩ := mem_rowOps.mp ho
  rfl

theorem rowDelete_table (st : TableState) (rowids : List Int64) :
    ∀ d ∈ rowids.map (rowDelete name st), d.table = name := by
  intro d hd
  obtain ⟨x, -, rfl⟩ := mem_map.mp hd
  rfl

theorem not_mem_deletesOf {b : OpBatch} {n : String} (h : b.deletesOf n = []) :
    ∀ d ∈ b.deletes, d.table ≠ n := by
  intro d hd heq
  have hmem : d ∈ b.deletesOf n := mem_filter.mpr ⟨hd, decide_eq_true heq⟩
  rw [h] at hmem
  cases hmem

/-- What one table's operations and state come to, given those its round adds. -/
structure Emits (r' : OpResolver) (batch : OpBatch) (name : String) (st : TableState)
    (ups : List RowOp) (dels : List RowDelete) : Prop where
  lookup : r'.tables.lookup name = some st
  upserts : (batch.upsertsOf name).Perm (ups.map RowOp.entry)
  deletes : (batch.deletesOf name).Perm dels

theorem emits_of_round {acc acc' : OpResolver × OpBatch} {st : TableState} {ups : List RowOp}
    {dels : List RowDelete} (hups₀ : acc.2.upsertsOf name = []) (hdels₀ : acc.2.deletesOf name = [])
    (hlookup : r'.tables.lookup name = acc'.1.tables.lookup name)
    (hups : (batch.upsertsOf name).Perm (acc'.2.upsertsOf name))
    (hdels : (batch.deletesOf name).Perm (acc'.2.deletesOf name))
    (hst : acc'.1.tables.lookup name = some st) (hbatch : acc'.2 = { acc.2 with
      upserts := acc.2.upserts ++ ups, deletes := acc.2.deletes ++ dels })
    (hu : ∀ o ∈ ups, o.table = name) (hd : ∀ d ∈ dels, d.table = name) :
    Emits r' batch name st ups dels := by
  rw [hbatch] at hups hdels
  refine ⟨hlookup.trans hst, ?_, ?_⟩
  · have happ := upsertsOf_append_self (b := acc.2) ups hu
    rw [hups₀, nil_append] at happ
    exact hups.trans (Perm.of_eq happ)
  · have happ := deletesOf_append_self (b := acc.2) dels hd
    rw [hdels₀, nil_append] at happ
    exact hdels.trans (Perm.of_eq happ)

theorem lookup_setTable (r : OpResolver) (name : String) (st : TableState) :
    (r.setTable name st).tables.lookup name = some st := AList.lookup_insert _

theorem rebuildDeletes_table (old : Option TableState) :
    ∀ d ∈ rebuildDeletes name old, d.table = name := by
  cases old with
  | none => exact fun d hd => absurd hd not_mem_nil
  | some st => exact rowDelete_table st _

section

variable (hnames : (schemas.map TableSchema.name).Nodup)
  (h : r.applyFrames schemas dirty fetcher pageSize = (.ok batch, r')) (hs : s ∈ schemas)
  (hrowid : s.withoutRowid = false)

include hnames h hs hrowid

theorem applyFrames_same_root (hst : r.tables.lookup s.name = some st₀)
    (hroot : st₀.rootPage = s.rootPage) (hread : ReadsTable fetcher pageSize s.rootPage v)
    (hwf : v.Wf) (hone : OnePage st₀) :
    ∃ st₁ gone, Updated st₀ v dirty (leafHash fetcher pageSize) gone st₁ ∧
      Emits r' batch s.name st₁ (rowOps s.name v (v.leaves.filter (Refreshed st₀ dirty)))
        (gone.map (rowDelete s.name st₀)) := by
  obtain ⟨acc, acc', hround, hlookup, hups₀, hdels₀, hlookup', hups, hdels⟩ :=
    resolveSchemas_table (applyTable_keeps dirty fetcher pageSize) hnames h hs
  have hbranch : applyTable dirty fetcher pageSize s acc =
      updateTable dirty fetcher pageSize s st₀ acc := by
    unfold applyTable
    rw [if_neg (by rw [hrowid]; decide), hlookup, hst]
    exact if_neg (not_not.mpr hroot)
  obtain ⟨st₁, gone, hupd, hok⟩ := updateTable_ok dirty hread hwf hone (not_mem_deletesOf hdels₀)
  rw [hbranch, hok] at hround
  cases hround
  exact ⟨st₁, gone, hupd, emits_of_round hups₀ hdels₀ hlookup' hups hdels
    (lookup_setTable _ _ _) rfl rowOps_table (rowDelete_table st₀ gone)⟩

theorem applyFrames_rebuilt
    (hroot : ∀ st ∈ r.tables.lookup s.name, st.rootPage ≠ s.rootPage)
    (hread : ReadsTable fetcher pageSize s.rootPage v) (hwf : v.Wf)
    (hone : ∀ st ∈ r.tables.lookup s.name, OnePage st) :
    ∃ st₁, Built (TableState.ofSchema s) v (leafHash fetcher pageSize) st₁ ∧
      Emits r' batch s.name st₁ (rowOps s.name v v.leaves)
        (rebuildDeletes s.name (r.tables.lookup s.name)) := by
  obtain ⟨acc, acc', hround, hlookup, hups₀, hdels₀, hlookup', hups, hdels⟩ :=
    resolveSchemas_table (applyTable_keeps dirty fetcher pageSize) hnames h hs
  have hbranch : applyTable dirty fetcher pageSize s acc =
      rebuildTable fetcher pageSize s (r.tables.lookup s.name) acc := by
    unfold applyTable
    rw [if_neg (by rw [hrowid]; decide), hlookup]
    cases hst : r.tables.lookup s.name with
    | none => rfl
    | some st => exact if_pos (hroot st hst)
  obtain ⟨st₁, hbuilt, hok⟩ := rebuildTable_ok acc hread hwf hone
  rw [hbranch, hok] at hround
  cases hround
  exact ⟨st₁, hbuilt, emits_of_round hups₀ hdels₀ hlookup' hups hdels
    (lookup_setTable _ _ _) rfl rowOps_table (rebuildDeletes_table _)⟩

end

theorem comparableState_same (hst : r.tables.lookup s.name = some st₀)
    (hroot : st₀.rootPage = s.rootPage) : comparableState r s false = some st₀ := by
  unfold comparableState
  rw [if_neg (by decide), hst, Option.filter_some, if_pos (decide_eq_true hroot)]

theorem comparableState_other (hroot : ∀ st ∈ r.tables.lookup s.name, st.rootPage ≠ s.rootPage) :
    comparableState r s false = none := by
  unfold comparableState
  rw [if_neg (by decide), Option.filter_eq_none_iff]
  intro st hst
  simpa using hroot st hst

variable {blind : Bool} (hnames : (schemas.map TableSchema.name).Nodup)
  (h : r.fullDiff schemas fetcher pageSize blind = (.ok batch, r')) (hs : s ∈ schemas)
  (hrowid : s.withoutRowid = false)

include hnames h hs hrowid

theorem fullDiff_same_root (hst : comparableState r s blind = some st₀)
    (hread : ReadsTable fetcher pageSize s.rootPage v) (hwf : v.Wf) (hone : OnePage st₀) :
    ∃ st₁ gone, Reconciled (TableState.ofSchema s) st₀ v (leafHash fetcher pageSize) gone st₁ ∧
      Emits r' batch s.name st₁
        (rowOps s.name v (v.leaves.filter (Changed (some st₀) (leafHash fetcher pageSize))))
        (gone.map (rowDelete s.name st₀)) := by
  obtain ⟨acc, acc', hround, hlookup, hups₀, hdels₀, hlookup', hups, hdels⟩ :=
    resolveSchemas_table (diffTable_keeps fetcher pageSize blind) hnames h hs
  have hold : comparableState acc.1 s blind = some st₀ := by
    rw [← hst]
    unfold comparableState
    rw [hlookup]
  obtain ⟨st₁, gone, hrec, hok⟩ := diffTable_same hrowid hold hread hwf hone
  rw [hok] at hround
  cases hround
  exact ⟨st₁, gone, hrec, emits_of_round hups₀ hdels₀ hlookup' hups hdels
    (lookup_setTable _ _ _) rfl rowOps_table (rowDelete_table st₀ gone)⟩

theorem fullDiff_fresh (hst : comparableState r s blind = none)
    (hread : ReadsTable fetcher pageSize s.rootPage v) (hwf : v.Wf) :
    ∃ st₁, Built (TableState.ofSchema s) v (leafHash fetcher pageSize) st₁ ∧
      Emits r' batch s.name st₁ (rowOps s.name v v.leaves) [] := by
  obtain ⟨acc, acc', hround, hlookup, hups₀, hdels₀, hlookup', hups, hdels⟩ :=
    resolveSchemas_table (diffTable_keeps fetcher pageSize blind) hnames h hs
  have hold : comparableState acc.1 s blind = none := by
    rw [← hst]
    unfold comparableState
    rw [hlookup]
  obtain ⟨st₁, hbuilt, hok⟩ := diffTable_fresh hrowid hold hread hwf
  rw [hok] at hround
  cases hround
  exact ⟨st₁, hbuilt, emits_of_round hups₀ hdels₀ hlookup' hups hdels (lookup_setTable _ _ _)
    (by rw [append_nil]) rowOps_table (fun d hd => absurd hd not_mem_nil)⟩

end

end Ladybug.Sqlite
