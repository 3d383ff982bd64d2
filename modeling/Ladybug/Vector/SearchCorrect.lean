import Ladybug.Vector.SearchInvariant

/-!
# When a search is correct

The scan of the rows that are not checkpointed does not look at the mask, and the search in the graph
may already have started from some of them.  The scan of the whole table counts rows in 32 bits.
-/

namespace Ladybug.Vector

open List

structure SearchedTable.Searchable (T : SearchedTable) : Prop where
  rows_lt : T.rows.numTotalRows < 2 ^ 32
  recorded : T.rows.exact = false → ∀ o, T.Eligible o → T.rows.recorded o = true
  unCheckpointed : ∀ o, T.numCheckpointedNodes ≤ o → T.rows.recorded o = true →
    T.isMasked o = true ∧ ¬ T.Seeded o

namespace HNSWSearch

variable {D : Type} [Distance D] (S : HNSWSearch D)

/-! ## Lists of rows -/

structure EligibleRows (rows : List (NodeWithDistance D)) : Prop where
  nodup : (rows.map NodeWithDistance.nodeOffset).Nodup
  eligible : ∀ n ∈ rows, S.Eligible n.nodeOffset

variable {S} {rows rows' : List (NodeWithDistance D)}

theorem EligibleRows.perm (h : S.EligibleRows rows) (hperm : rows'.Perm rows) :
    S.EligibleRows rows' where
  nodup := (hperm.map _).nodup_iff.mpr h.nodup
  eligible := fun n hn => h.eligible n (hperm.mem_iff.mp hn)

theorem EligibleRows.answers (h : S.EligibleRows rows)
    (hsorted : rows.Pairwise fun a b => a.distance ≤ b.distance) :
    S.Answers (rows.take S.query.k) where
  nodup := by
    rw [map_take]
    exact h.nodup.sublist (take_sublist _ _)
  eligible := fun n hn => h.eligible n (mem_of_mem_take hn)
  sorted := hsorted.sublist (take_sublist _ _)
  length_le := length_take_le _ _

theorem EligibleRows.rerank (h : S.EligibleRows rows) :
    S.EligibleRows (S.exactRerankResults rows) := by
  have hmap : S.EligibleRows (rows.map fun n => ⟨n.nodeOffset,
      if S.rows.live n.nodeOffset then S.query.exactMetricFunc n.nodeOffset else ⊤⟩) := by
    refine ⟨?_, ?_⟩
    · rw [map_map]
      exact h.nodup
    · intro n hn
      obtain ⟨n', hn', rfl⟩ := mem_map.mp hn
      exact h.eligible n' hn'
  exact hmap.perm (S.ordering.perm _)

/-! ## The scan of the table -/

def scannedRows (S : HNSWSearch D) (n : Nat) : List (NodeWithDistance D) :=
  ((range n).filter fun o => S.isMasked o && S.scanned o).map fun o => ⟨o, S.scanDistance o⟩

theorem scannedRows_succ (S : HNSWSearch D) (n : Nat) : S.scannedRows (n + 1) =
    if S.isMasked n && S.scanned n then S.scannedRows n ++ [⟨n, S.scanDistance n⟩]
    else S.scannedRows n := by
  unfold scannedRows
  rw [range_succ, filter_append, map_append]
  cases hn : S.isMasked n && S.scanned n with
  | false | true => simp [hn]

theorem searchBruteForce_halts (hlt : S.rows.numTotalRows < 2 ^ 32) :
    Halts S.searchBruteForce (S.ordering.sort (S.scannedRows S.rows.numTotalRows)) := by
  obtain ⟨result, hhalts, hinv⟩ := forU32_halts hlt (fun _ offset result => some (
      if S.isMasked offset.toNat && S.scanned offset.toNat then
        result ++ [⟨offset.toNat, S.scanDistance offset.toNat⟩]
      else result))
    (fun i result => result = S.scannedRows i)
    (fun i result _ hresult => ⟨_, halts_const _, by
      rw [scannedRows_succ, hresult]⟩)
    (s := []) rfl
  rw [← hinv]
  exact hhalts.map _

theorem searchBruteForce_diverges (hle : 2 ^ 32 ≤ S.rows.numTotalRows) :
    Diverges S.searchBruteForce := by
  intro fuel
  unfold searchBruteForce
  rw [forU32_diverges hle]
  rfl

variable {o : Nat}

theorem scanned_live (h : S.scanned o = true) : S.rows.live o = true := by
  unfold scanned at h
  split at h
  · exact h
  · exact S.rows.recorded_live o h

theorem mem_scannedRows {n : NodeWithDistance D} (hn : n ∈ S.scannedRows S.rows.numTotalRows) :
    (S.isMasked n.nodeOffset = true ∧ S.scanned n.nodeOffset = true) ∧
      n.distance = S.scanDistance n.nodeOffset := by
  obtain ⟨o, ho, rfl⟩ := mem_map.mp hn
  exact ⟨Bool.and_eq_true_iff.mp (mem_filter.mp ho).2, rfl⟩

theorem scannedRows_eligible : S.EligibleRows (S.scannedRows S.rows.numTotalRows) where
  nodup := by
    unfold scannedRows
    rw [map_map]
    show (map id _).Nodup
    rw [map_id]
    exact nodup_range.filter _
  eligible := fun n hn =>
    have hscan := (mem_scannedRows hn).1
    ⟨scanned_live hscan.2, hscan.1⟩

theorem take_scan_nearest (hall : ∀ o, S.Eligible o → S.scanned o = true) :
    S.Nearest ((S.ordering.sort (S.scannedRows S.rows.numTotalRows)).take S.query.k) where
  distance := fun n hn =>
    (mem_scannedRows (S.ordering.mem_sort.mp (mem_of_mem_take hn))).2
  nearer := by
    intro o ho hnot
    let sorted := S.ordering.sort (S.scannedRows S.rows.numTotalRows)
    have hmem : (⟨o, S.scanDistance o⟩ : NodeWithDistance D) ∈ sorted := by
      apply S.ordering.mem_sort.mpr
      apply mem_map.mpr
      refine ⟨o, mem_filter.mpr ⟨mem_range.mpr (S.rows.live_lt o ho.1), ?_⟩, rfl⟩
      rw [ho.2, hall o ho]
      rfl
    have hdrop : (⟨o, S.scanDistance o⟩ : NodeWithDistance D) ∈ sorted.drop S.query.k := by
      rw [← take_append_drop S.query.k sorted] at hmem
      rcases mem_append.mp hmem with hin | hin
      · exact absurd (mem_map_of_mem hin) hnot
      · exact hin
    have hsplit := S.ordering.sorted (S.scannedRows S.rows.numTotalRows)
    change sorted.Pairwise _ at hsplit
    rw [← take_append_drop S.query.k sorted, pairwise_append] at hsplit
    refine ⟨?_, fun n hn => hsplit.2.2 n hn _ hdrop⟩
    have hpos := length_pos_of_mem hdrop
    rw [length_drop] at hpos
    show S.query.k ≤ (sorted.take S.query.k).length
    rw [length_take]
    omega

/-! ## The rows that are not checkpointed -/

theorem mem_unCheckpointed : o ∈ S.unCheckpointed ↔
    S.numCheckpointedNodes ≤ o ∧ S.rows.recorded o = true := by
  unfold unCheckpointed
  rw [mem_filter, mem_range'_1]
  constructor
  · exact fun h => ⟨h.1.1, h.2⟩
  · intro h
    have hlt := S.rows.live_lt o (S.rows.recorded_live o h.2)
    exact ⟨⟨h.1, by omega⟩, h.2⟩

variable {result : List (NodeWithDistance D)}

theorem unCheckpointed_eligible (h : S.LayerResult result) (hsearchable : S.Searchable) :
    S.EligibleRows (result ++ S.unCheckpointed.map S.node) where
  nodup := by
    rw [map_append, map_map, nodup_append]
    refine ⟨h.nodup, ?_, ?_⟩
    · show (map id _).Nodup
      rw [map_id]
      exact (nodup_range' _).filter _
    · intro o ho o' ho' heq
      obtain ⟨n, hn, rfl⟩ := mem_map.mp ho
      obtain ⟨o'', hin, rfl⟩ := mem_map.mp ho'
      have hrow := mem_unCheckpointed.mp hin
      have hsource := (h.found n hn).source
      rw [heq] at hsource
      -- the rows found in the graph are checkpointed or starting nodes
      rcases hsource with hlt | hseeded
      · exact absurd hrow.1 (Nat.not_le_of_lt hlt)
      · exact (hsearchable.unCheckpointed o'' hrow.1 hrow.2).2 hseeded
  eligible := by
    intro n hn
    rcases mem_append.mp hn with hfound | hrow
    · have hf := h.found n hfound
      exact ⟨S.rows.recorded_live _ hf.recorded, hf.masked⟩
    · obtain ⟨o, ho, rfl⟩ := mem_map.mp hrow
      have ho' := mem_unCheckpointed.mp ho
      exact ⟨S.rows.recorded_live o ho'.2, (hsearchable.unCheckpointed o ho'.1 ho'.2).1⟩

theorem searchFromUnCheckpointed_eligible (h : S.LayerResult result) (hsearchable : S.Searchable) :
    S.EligibleRows (S.searchFromUnCheckpointed result) ∧
      (S.searchFromUnCheckpointed result).Pairwise fun a b => a.distance ≤ b.distance := by
  have hrows := unCheckpointed_eligible h hsearchable
  unfold searchFromUnCheckpointed
  split
  · refine ⟨⟨h.nodup, fun n hn => ?_⟩, h.sorted⟩
    exact hrows.eligible n (mem_append_left _ hn)
  · exact ⟨hrows.perm (S.ordering.perm _), S.ordering.sorted _⟩

/-! ## Every search of a searchable table -/

theorem search_bruteForce (hmode : S.isBruteForceSearch = true) :
    S.search = fun fuel => (S.searchBruteForce fuel).map (take S.query.k) := by
  funext fuel
  unfold search
  rw [if_pos hmode]

theorem search_graph (hmode : S.isBruteForceSearch = false) :
    S.search = fun fuel => (S.searchFromCheckpointed fuel).bind fun result =>
      (if (S.searchFromUnCheckpointed result).length < S.query.k then S.searchBruteForce fuel
        else some (S.searchFromUnCheckpointed result)).map fun result =>
          (if S.rows.exact then S.exactRerankResults result else result).take S.query.k := by
  funext fuel
  unfold search
  rw [hmode, if_neg Bool.false_ne_true]

theorem correct_of_bruteForce (hsearchable : S.Searchable) (hmode : S.isBruteForceSearch = true) :
    S.Correct := by
  have hscan := searchBruteForce_halts hsearchable.rows_lt
  have hrows := scannedRows_eligible.perm (S.ordering.perm (S.scannedRows S.rows.numTotalRows))
  have hall : ∀ o, S.Eligible o → S.scanned o = true := by
    intro o ho
    unfold scanned
    split
    · exact ho.1
    next hexact => exact hsearchable.recorded (by simpa using hexact) o ho
  refine ⟨_, ?_, hrows.answers (S.ordering.sorted _), fun _ => take_scan_nearest hall⟩
  rw [search_bruteForce hmode]
  exact hscan.map _

theorem correct_of_graph (hsearchable : S.Searchable) (hmode : S.isBruteForceSearch = false) :
    S.Correct := by
  obtain ⟨found, hhalts, hfound⟩ := searchFromCheckpointed_halts S
  obtain ⟨hrows, hsorted⟩ := searchFromUnCheckpointed_eligible hfound hsearchable
  -- the rows before they are ranked again, from the graph or from a scan
  have hresult : ∃ result, Halts (fun fuel ↦ if (S.searchFromUnCheckpointed found).length < S.query.k
        then S.searchBruteForce fuel else some (S.searchFromUnCheckpointed found)) result ∧
      S.EligibleRows result ∧ result.Pairwise fun a b => a.distance ≤ b.distance := by
    split
    · exact ⟨_, searchBruteForce_halts hsearchable.rows_lt,
        scannedRows_eligible.perm (S.ordering.perm _), S.ordering.sorted _⟩
    · exact ⟨_, halts_const _, hrows, hsorted⟩
  obtain ⟨result, hhalts', hrows', hsorted'⟩ := hresult
  let ranked := if S.rows.exact then S.exactRerankResults result else result
  have hranked : S.EligibleRows ranked ∧ ranked.Pairwise fun a b => a.distance ≤ b.distance := by
    show S.EligibleRows (if S.rows.exact then S.exactRerankResults result else result) ∧
      (if S.rows.exact then S.exactRerankResults result else result).Pairwise _
    split
    · exact ⟨hrows'.rerank, S.ordering.sorted _⟩
    · exact ⟨hrows', hsorted'⟩
  refine ⟨ranked.take S.query.k, ?_, hranked.1.answers hranked.2, fun h => ?_⟩
  · rw [search_graph hmode]
    exact hhalts.bind (hhalts'.map _)
  · rw [hmode] at h
    cases h

theorem correct_of_searchable (hsearchable : S.Searchable) : S.Correct := by
  cases hmode : S.isBruteForceSearch with
  | true => exact correct_of_bruteForce hsearchable hmode
  | false => exact correct_of_graph hsearchable hmode

end HNSWSearch

/-! ## Searching for one row -/

section

variable {D : Type} [Distance D]

/-- The distances of a query whose vector is that of row `r`; no other row is near it. -/
def onlyNear (r o : Nat) : D := if o = r then 0 else ⊤

def Probed (r : Nat) (l : List (NodeWithDistance D)) : Prop :=
  ∀ n ∈ l, n.distance = onlyNear r n.nodeOffset

variable {r : Nat} {n : NodeWithDistance D} {l : List (NodeWithDistance D)}

theorem nodeOffset_of_le (hn : n.distance = onlyNear r n.nodeOffset) (hle : n.distance ≤ 0) :
    n.nodeOffset = r := by
  by_contra hne
  unfold onlyNear at hn
  rw [if_neg hne] at hn
  rw [hn] at hle
  exact absurd Distance.zero_lt_top (not_lt_of_ge hle)

theorem distance_of_nodeOffset (hn : n.distance = onlyNear r n.nodeOffset) (heq : n.nodeOffset = r) :
    n.distance = 0 := by
  rw [hn]
  exact if_pos heq

theorem mem_take_one (hprobed : Probed r l) (hsorted : l.Pairwise fun a b ↦ a.distance ≤ b.distance)
    (hmem : r ∈ l.map NodeWithDistance.nodeOffset) :
    r ∈ (l.take 1).map NodeWithDistance.nodeOffset := by
  obtain ⟨n, hn, heq⟩ := mem_map.mp hmem
  have hzero := distance_of_nodeOffset (hprobed n hn) heq
  cases l with
  | nil => cases hn
  | cons a l =>
    have hle : a.distance ≤ 0 := by
      rw [← hzero]
      rcases mem_cons.mp hn with rfl | hin
      · exact le_refl _
      · exact (pairwise_cons.mp hsorted).1 n hin
    have ha := nodeOffset_of_le (hprobed a mem_cons_self) hle
    rw [← ha]
    exact mem_cons_self

theorem not_nodup_take_two (hprobed : Probed r l)
    (hsorted : l.Pairwise fun a b => a.distance ≤ b.distance)
    (hcount : 2 ≤ (l.map NodeWithDistance.nodeOffset).count r) :
    ¬ ((l.take 2).map NodeWithDistance.nodeOffset).Nodup := by
  match l, hprobed, hsorted, hcount with
  | [], _, _, hcount => exact absurd hcount (by simp)
  | [a], _, _, hcount =>
    have hle : [a.nodeOffset].count r ≤ 1 := count_le_length
    exact absurd hcount (Nat.not_le_of_lt (Nat.lt_succ_of_le hle))
  | a :: b :: l, hprobed, hsorted, hcount =>
    have htail := (pairwise_cons.mp hsorted).2
    have hb : b.nodeOffset = r := by
      -- otherwise `r` is at most the first one
      by_contra hne
      have hzero : ((b :: l).map NodeWithDistance.nodeOffset).count r = 0 := by
        apply count_eq_zero.mpr
        intro hin
        have hprobed' : Probed r (b :: l) := fun n hn => hprobed n (mem_cons_of_mem a hn)
        have hfirst := mem_take_one hprobed' htail hin
        exact hne (mem_singleton.mp hfirst).symm
      rw [map_cons, count_cons, hzero] at hcount
      split at hcount <;> omega
    have hbzero := distance_of_nodeOffset (hprobed b (by simp)) hb
    have hale : a.distance ≤ 0 := by
      rw [← hbzero]
      exact (pairwise_cons.mp hsorted).1 b mem_cons_self
    have ha := nodeOffset_of_le (hprobed a mem_cons_self) hale
    intro hnodup
    rw [take_succ_cons, map_cons, nodup_cons] at hnodup
    apply hnodup.1
    rw [ha, ← hb]
    exact mem_cons_self

/-- A graph without edges. -/
def edgeless {n : Nat} (entry : Option Nat) (hentry : ∀ o ∈ entry, o < n) : HNSWLayers n where
  upperEntryPoint := none
  lowerEntryPoint := entry
  upperGraph := fun _ => []
  lowerGraph := fun _ => []
  ml := 1
  upperEntry_lt := fun _ ho => by cases ho
  lowerEntry_lt := hentry
  upper_lt := fun _ _ hw => (not_mem_nil hw).elim
  lower_lt := fun _ _ hw => (not_mem_nil hw).elim

variable (D)

def probe (T : SearchedTable) (entry : Option Nat)
    (hentry : ∀ o ∈ entry, o < T.numCheckpointedNodes) (r k : Nat) (useKnn : Bool) :
    HNSWSearch D where
  toSearchedTable := T
  layers := edgeless entry hentry
  query :=
    { k
      efs := 1
      useKnn
      searchType := .auto
      blindSearchUpSelThreshold := 0
      directedSearchUpSelThreshold := 0
      metricFunc := onlyNear r
      exactMetricFunc := onlyNear r }
  ordering := KeySort.ofMergeSort _

end

namespace HNSWSearch

section

variable {D : Type} [Distance D] {T : SearchedTable} {entry : Option Nat}
  {hentry : ∀ o ∈ entry, o < T.numCheckpointedNodes} {r k : Nat}

theorem probe_mode (useKnn : Bool) : (probe D T entry hentry r k useKnn).isBruteForceSearch = useKnn := by
  show (useKnn || decide (SearchTypeParam.auto = SearchTypeParam.naive)) = useKnn
  rw [decide_eq_false (by decide), Bool.or_false]

theorem expand_nil (S : HNSWSearch D) (s : SearchQueues D) : S.expand [] s = s := by
  unfold HNSWSearch.expand
  cases S.getFilteredSearchType with
  | unfiltered | oneHopFiltered | directedTwoHop | blindTwoHop | navixFiltered | randomFiltered =>
    rfl

variable {s : SearchQueues D}

theorem probe_searchRound {useKnn : Bool} {s' : SearchQueues D}
    (h : (probe D T entry hentry r k useKnn).searchRound s = some s') : s'.results = s.results := by
  obtain ⟨c, _, hc⟩ := Option.map_eq_some_iff.mp h
  rw [← hc]
  -- a candidate has no neighbours
  show ((probe D T entry hentry r k useKnn).expand [] _).results = s.results
  rw [expand_nil]

theorem mem_seed {S : HNSWSearch D} (hrecorded : S.rows.recorded r = true) {seeds : List Nat}
    (hvisited : r ∈ s.visited → S.node r ∈ s.results) (hr : r ∈ seeds ∨ S.node r ∈ s.results) :
    S.node r ∈ (seeds.foldl S.seed s).results := by
  induction seeds generalizing s with
  | nil =>
    rcases hr with hin | hres
    · cases hin
    · exact hres
  | cons x seeds ih =>
    have hkeep : S.node r ∈ s.results → S.node r ∈ (S.seed s x).results := by
      intro hres
      unfold HNSWSearch.seed
      split
      · exact hres
      · split
        · exact hres
        · exact mem_append_left _ hres
    have hself : x = r → S.node r ∈ (S.seed s x).results := by
      intro hxr
      rw [hxr]
      unfold HNSWSearch.seed
      split
      next hin => exact hvisited hin
      · rw [hrecorded]
        exact mem_append_right _ mem_cons_self
    have hstep : r ∈ (S.seed s x).visited → S.node r ∈ (S.seed s x).results := by
      intro hin
      by_cases hxr : x = r
      · exact hself hxr
      · apply hkeep
        apply hvisited
        unfold HNSWSearch.seed at hin
        split at hin
        · exact hin
        · split at hin
          all_goals exact (mem_cons.mp hin).resolve_left (Ne.symm hxr)
    apply ih hstep
    rcases hr with hin | hres
    · rcases mem_cons.mp hin with heq | hrest
      · exact .inr (hself heq.symm)
      · exact .inl hrest
    · exact .inr (hkeep hres)

theorem probe_search {found : List (NodeWithDistance D)}
    (hhalts : Halts (probe D T entry hentry r k false).searchFromCheckpointed found)
    (hfound : (probe D T entry hentry r k false).LayerResult found)
    (hrow : T.rows.numTotalRows ≠ T.numCheckpointedNodes)
    (hlen : k ≤ (found ++ (probe D T entry hentry r k false).unCheckpointed.map
      (probe D T entry hentry r k false).node).length) :
    ∃ ranked, Halts (probe D T entry hentry r k false).search (ranked.take k) ∧
      (ranked.map NodeWithDistance.nodeOffset).Perm (found.map NodeWithDistance.nodeOffset ++
        (probe D T entry hentry r k false).unCheckpointed) ∧
      (ranked.Pairwise fun a b => a.distance ≤ b.distance) ∧ Probed r ranked := by
  let S := probe D T entry hentry r k false
  let rows := S.ordering.sort (found ++ S.unCheckpointed.map S.node)
  have hrows : S.searchFromUnCheckpointed found = rows := if_neg hrow
  have hperm : rows.Perm (found ++ S.unCheckpointed.map S.node) := S.ordering.perm _
  have hoffsets : (rows.map NodeWithDistance.nodeOffset).Perm
      (found.map NodeWithDistance.nodeOffset ++ S.unCheckpointed) := by
    have hmap := hperm.map NodeWithDistance.nodeOffset
    rw [map_append, map_map] at hmap
    have hid : S.unCheckpointed.map (NodeWithDistance.nodeOffset ∘ S.node) = S.unCheckpointed :=
      map_id _
    rw [hid] at hmap
    exact hmap
  have hlive : ∀ n ∈ rows, S.rows.live n.nodeOffset = true ∧
      n.distance = onlyNear r n.nodeOffset := by
    intro n hn
    rcases mem_append.mp (hperm.mem_iff.mp hn) with hin | hin
    · have hf := hfound.found n hin
      exact ⟨S.rows.recorded_live _ hf.recorded, congrArg NodeWithDistance.distance hf.eq⟩
    · obtain ⟨o, ho, rfl⟩ := mem_map.mp hin
      exact ⟨S.rows.recorded_live o (mem_unCheckpointed.mp ho).2, rfl⟩
  have hsearch : Halts S.search
      ((if S.rows.exact then S.exactRerankResults rows else rows).take k) := by
    rw [search_graph (probe_mode false)]
    apply hhalts.bind
    rw [hrows]
    have hnot : ¬ rows.length < (probe D T entry hentry r k false).query.k := by
      rw [hperm.length_eq]
      exact Nat.not_lt_of_le hlen
    simp only [if_neg hnot]
    exact halts_const _
  cases hexact : S.rows.exact with
  | false =>
    rw [hexact] at hsearch
    exact ⟨rows, hsearch, hoffsets, S.ordering.sorted _, fun n hn => (hlive n hn).2⟩
  | true =>
    rw [hexact] at hsearch
    have hranked : (S.exactRerankResults rows).Perm (rows.map fun n => ⟨n.nodeOffset,
        if S.rows.live n.nodeOffset then S.query.exactMetricFunc n.nodeOffset else ⊤⟩) :=
      S.ordering.perm _
    refine ⟨S.exactRerankResults rows, hsearch, ?_, S.ordering.sorted _, ?_⟩
    · have hmap := hranked.map NodeWithDistance.nodeOffset
      rw [map_map] at hmap
      exact hmap.trans hoffsets
    · intro n hn
      obtain ⟨n', hn', rfl⟩ := mem_map.mp (hranked.mem_iff.mp hn)
      rw [if_pos (hlive n' hn').1]
      rfl

theorem probe_seeded {e : Nat} (hentry : ∀ o ∈ some e, o < T.numCheckpointedNodes)
    {mask : SemiMask} (hmask : T.semiMask = some mask) (hrecorded : T.rows.recorded r = true)
    (hr : T.numCheckpointedNodes ≤ r)
    (hseed : r ∈ mask.collectMaskedNodes (FILTERED_SEARCH_INITIAL_CANDIDATES -
      if T.rows.recorded e && T.isMasked e then 1 else 0)) (hk : 0 < k) :
    ∃ found, Halts (probe D T (some e) hentry r k false).searchFromCheckpointed found ∧
      (probe D T (some e) hentry r k false).LayerResult found ∧
      r ∈ found.map NodeWithDistance.nodeOffset := by
  let S := probe D T (some e) hentry r k false
  have he : e < T.numCheckpointedNodes := hentry e rfl
  let start := S.initSearchCandidates (S.initQueues e)
  have hstart : S.node r ∈ start.results := by
    show S.node r ∈ (S.initSearchCandidates (S.initQueues e)).results
    unfold initSearchCandidates
    have hmask' : S.semiMask = some mask := hmask
    rw [hmask']
    rw [initQueues_results_length]
    apply mem_seed hrecorded
    · intro hin
      -- only the entry node is visited so far
      have hvisited : (S.initQueues e).visited = [e] := by
        unfold initQueues
        split <;> rfl
      rw [hvisited, mem_singleton] at hin
      omega
    · exact .inl hseed
  obtain ⟨m, hm⟩ := initSearchCandidates_inv S he
  obtain ⟨s, hloop, m', hinv⟩ := searchLoop_halts hm
  have hresults : s.results = start.results := by
    obtain ⟨f, hf⟩ := hloop
    exact while_inv (fun s => s.results = start.results)
      (fun s s' hs _ hround => (probe_searchRound hround).trans hs) rfl (hf f le_rfl)
  have hsub := popTopK_subperm S s.results k
  have hmem : S.node r ∈ S.popTopK s.results k := by
    have hleast : ∀ n ∈ s.results, n ≠ S.node r → (S.node r).distance < n.distance := by
      intro n hn hne
      have heq := (hinv.found n hn).eq
      have hoffset : n.nodeOffset ≠ r := fun h => hne (by rw [heq, h])
      rw [heq]
      show onlyNear r r < onlyNear r n.nodeOffset
      unfold onlyNear
      rw [if_pos rfl, if_neg hoffset]
      exact Distance.zero_lt_top
    have hshrink := S.ordering.mem_shrinkMax (n := s.results.length) hk (hresults ▸ hstart) hleast
    have hlen := S.ordering.length_shrinkMax_le (k := k) (le_refl s.results.length)
    exact mem_reverse.mpr ((S.ordering.drainMax_perm hlen).mem_iff.mpr hshrink)
  refine ⟨S.popTopK s.results k, hloop.map _, ?_, mem_map_of_mem hmem⟩
  exact
    { nodup := nodup_map_of_subperm hsub hinv.nodup
      found := fun n hn => hinv.found n (hsub.subset hn)
      sorted := popTopK_sorted S _ _ }

def AllCorrect (D : Type) [Distance D] (T : SearchedTable) : Prop :=
  ∀ (layers : HNSWLayers T.numCheckpointedNodes) (query : Query D)
    (ordering : KeySort fun n : NodeWithDistance D => n.distance),
    (HNSWSearch.mk T layers query ordering).Correct

theorem not_mem_none (o : Nat) (h : o ∈ (none : Option Nat)) : o < T.numCheckpointedNodes := by cases h

theorem rows_lt_of_correct (h : AllCorrect D T) : T.rows.numTotalRows < 2 ^ 32 := by
  by_contra hge
  let S := probe D T none not_mem_none 0 1 true
  obtain ⟨result, hhalts, _⟩ : S.Correct := h _ _ _
  apply hhalts.not_diverges
  intro fuel
  show (S.searchBruteForce fuel).map _ = none
  rw [searchBruteForce_diverges (Nat.le_of_not_lt hge) fuel]
  rfl

theorem recorded_of_correct (h : AllCorrect D T) (hexact : T.rows.exact = false) {o : Nat}
    (ho : T.Eligible o) : T.rows.recorded o = true := by
  let S := probe D T none not_mem_none 0 (T.rows.numTotalRows + 1) true
  obtain ⟨result, hhalts, hanswers, hnearest⟩ : S.Correct := h _ _ _
  have hscan := searchBruteForce_halts (S := S) (rows_lt_of_correct h)
  have hresult : result = (S.ordering.sort (S.scannedRows S.rows.numTotalRows)).take S.query.k := by
    exact hhalts.unique (hscan.map _)
  have hin : o ∈ result.map NodeWithDistance.nodeOffset := by
    by_contra hnot
    have hle := ((hnearest (probe_mode true)).nearer o ho hnot).1
    have hsub : ∀ x ∈ result.map NodeWithDistance.nodeOffset, x ∈ range T.rows.numTotalRows := by
      intro x hx
      obtain ⟨n, hn, rfl⟩ := mem_map.mp hx
      exact mem_range.mpr (T.rows.live_lt _ (hanswers.eligible n hn).1)
    have hlen := Nodup.length_le_of_subset hanswers.nodup hsub
    rw [length_map, length_range] at hlen
    have hk : S.query.k = T.rows.numTotalRows + 1 := rfl
    omega
  obtain ⟨n, hn, rfl⟩ := mem_map.mp hin
  rw [hresult] at hn
  have hscanned := (mem_scannedRows (S.ordering.mem_sort.mp (mem_of_mem_take hn))).1.2
  unfold scanned at hscanned
  have hexact' : S.rows.exact = false := hexact
  rw [hexact', if_neg Bool.false_ne_true] at hscanned
  exact hscanned

section

variable (hr : T.numCheckpointedNodes ≤ r) (hrecorded : T.rows.recorded r = true)

include hr hrecorded

theorem ne_of_unCheckpointed : T.rows.numTotalRows ≠ T.numCheckpointedNodes := by
  have hlt := T.rows.live_lt r (T.rows.recorded_live r hrecorded)
  omega

theorem probe_leaks (hmask : T.isMasked r = false) :
    ¬ (probe D T entry hentry r 1 false).Correct := by
  let S := probe D T entry hentry r 1 false
  obtain ⟨found, hfrom, hfound⟩ := searchFromCheckpointed_halts S
  have hmem : r ∈ S.unCheckpointed := mem_unCheckpointed.mpr ⟨hr, hrecorded⟩
  have hlen : 1 ≤ (found ++ S.unCheckpointed.map S.node).length := by
    have hpos := length_pos_of_mem hmem
    rw [length_append, length_map]
    omega
  obtain ⟨ranked, hhalts, hperm, hsorted, hprobed⟩ :=
    probe_search hfrom hfound (ne_of_unCheckpointed hr hrecorded) hlen
  rintro ⟨result, hhalts', hanswers, _⟩
  have hresult : result = ranked.take 1 := hhalts'.unique hhalts
  have hin : r ∈ ranked.map NodeWithDistance.nodeOffset :=
    hperm.mem_iff.mpr (mem_append_right _ hmem)
  obtain ⟨n, hn, heq⟩ := mem_map.mp (mem_take_one hprobed hsorted hin)
  rw [← hresult] at hn
  have heligible := (hanswers.eligible n hn).2
  rw [heq] at heligible
  exact Bool.false_ne_true (hmask.symm.trans heligible)

end

section

variable (h : AllCorrect D T) (hr : T.numCheckpointedNodes ≤ r)
  (hrecorded : T.rows.recorded r = true)

include h hr hrecorded

theorem masked_of_correct : T.isMasked r = true := by
  cases hmask : T.isMasked r with
  | true => rfl
  | false =>
    have hnot : ¬ (probe D T none not_mem_none r 1 false).Correct := probe_leaks hr hrecorded hmask
    exact absurd (h _ _ _) hnot

theorem not_seeded_of_correct : ¬ T.Seeded r := by
  rintro ⟨mask, hmask, e, he, hseed⟩
  have hentry : ∀ o ∈ some e, o < T.numCheckpointedNodes := by
    intro o ho
    cases ho
    exact he
  let S := probe D T (some e) hentry r 2 false
  obtain ⟨found, hhalts, hfound, hin⟩ :=
    probe_seeded (D := D) (k := 2) hentry hmask hrecorded hr hseed (by decide)
  have hmem : r ∈ S.unCheckpointed := mem_unCheckpointed.mpr ⟨hr, hrecorded⟩
  have hfirst : 1 ≤ (found.map NodeWithDistance.nodeOffset).count r := count_pos_iff.mpr hin
  have hsecond : 1 ≤ S.unCheckpointed.count r := count_pos_iff.mpr hmem
  have hlen : 2 ≤ (found ++ S.unCheckpointed.map S.node).length := by
    have hfound' := length_pos_of_mem hin
    have hrows := length_pos_of_mem hmem
    rw [length_map] at hfound'
    rw [length_append, length_map]
    omega
  obtain ⟨ranked, hsearch, hperm, hsorted, hprobed⟩ :=
    probe_search hhalts hfound (ne_of_unCheckpointed hr hrecorded) hlen
  obtain ⟨result, hsearch', hanswers, _⟩ : S.Correct := h _ _ _
  have hresult : result = ranked.take 2 := hsearch'.unique hsearch
  have hcount : 2 ≤ (ranked.map NodeWithDistance.nodeOffset).count r := by
    rw [hperm.count_eq, count_append]
    exact Nat.add_le_add hfirst hsecond
  have hnodup := hanswers.nodup
  rw [hresult] at hnodup
  exact not_nodup_take_two hprobed hsorted hcount hnodup

end

end

/-- Whatever the graph and the query, the searches of a table are correct exactly when it has fewer
than `2 ^ 32` rows, no eligible row lacks the vector that is searched for, and all rows that are not
checkpointed satisfy the mask without a search starting from them. -/
theorem allCorrect_iff (D : Type) [Distance D] (T : SearchedTable) :
    AllCorrect D T ↔ T.Searchable := by
  constructor
  · intro h
    exact
      { rows_lt := rows_lt_of_correct h
        recorded := fun hexact _ ho => recorded_of_correct h hexact ho
        unCheckpointed := fun _ ho hrecorded =>
          ⟨masked_of_correct h ho hrecorded, not_seeded_of_correct h ho hrecorded⟩ }
  · intro h layers query ordering
    exact correct_of_searchable h

end HNSWSearch

/-! ## A row that was just inserted -/

instance : Distance (WithTop Nat) where
  zero_lt_top := WithTop.coe_lt_top 0

def insertedRow : SearchedTable where
  rows :=
    { numTotalRows := 2
      live := fun o => decide (o < 2)
      recorded := fun o => decide (o < 2)
      exact := false
      live_lt := fun _ h => of_decide_eq_true h
      recorded_live := fun _ h => h }
  numCheckpointedNodes := 1
  numCheckpointed_le := by decide
  semiMask := some
    { isMasked := fun o => decide (o = 0)
      getNumMaskedNodes := 1
      collectMaskedNodes := fun n => [0].take n
      collect_masked := fun _ _ ho => decide_eq_true (mem_singleton.mp (mem_of_mem_take ho)) }

theorem insertedRow_entry (o : Nat) (h : o ∈ some 0) : o < insertedRow.numCheckpointedNodes := by
  cases h
  decide

/-- The nearest row to the vector of row 1 is row 1, which the mask excludes. -/
theorem search_returns_unmasked_row :
    ¬ (probe (WithTop Nat) insertedRow (some 0) insertedRow_entry 1 1 false).Correct :=
  HNSWSearch.probe_leaks (le_refl 1) rfl rfl

end Ladybug.Vector
