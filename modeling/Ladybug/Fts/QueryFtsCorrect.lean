import Ladybug.Fts.FtsMaintenance
import Ladybug.Fts.QueryFts

/-!
# The documents that a query scores

Both ways of finding the terms visit the same rows for the same places of the query, so a place is
covered by a document exactly when the document has a term that the query term at this place matches.
-/

namespace Ladybug.Fts

open List

/-! ## 1. The terms of the query -/

section

variable {A : Type} (lib : QueryLibrary A) (config : QueryConfig A)

def stemOf (word : Text) : Text :=
  match config.stemmer with
  | .none => word
  | .algorithm a => lib.sbStemmerStem a word

def TermMatches (word t : Text) : Prop :=
  if hasWildcardPattern word then lib.fullMatch t (wildcardRegex word) = true
  else stemOf lib config word = t

/-- The library stems what it is given: nothing to nothing, and a word without wildcards to one
without. -/
structure StemLaws : Prop where
  nil : ∀ a, lib.sbStemmerStem a [] = []
  plain : ∀ a word, hasWildcardPattern word = false →
    hasWildcardPattern (lib.sbStemmerStem a word) = false

def queryTermOf (word : Text) : Text :=
  if hasWildcardPattern word then word else stemOf lib config word

theorem stemTerms_query (words : List Text) (conjunctive : Bool) :
    stemTerms lib.toTextLibrary config.toFtsConfig words conjunctive true =
      (words.filter fun w => !(conjunctive && isStopWord config.toFtsConfig w)).map
        (queryTermOf lib config) := by
  unfold stemTerms queryTermOf stemOf
  cases hstemmer : config.stemmer with
  | none =>
    simp only [ite_self, map_id']
    cases conjunctive with
    | true => rfl
    | false =>
      simp only [Bool.false_and, Bool.not_false, filter_true]
      rfl
  | algorithm a => rfl

theorem mem_getUniqueTerms {terms : List Text} {t : Text} : t ∈ getUniqueTerms terms ↔ t ∈ terms := by
  have hfold : ∀ (terms seen : List Text),
      t ∈ terms.foldl (fun seen term => if term ∈ seen then seen else seen ++ [term]) seen ↔
        t ∈ seen ∨ t ∈ terms := by
    intro terms
    induction terms with
    | nil => simp
    | cons term terms ih =>
      intro seen
      rw [foldl_cons, ih, mem_cons]
      by_cases hseen : term ∈ seen
      · rw [if_pos hseen]
        constructor
        · rintro (h | h)
          · exact .inl h
          · exact .inr (.inr h)
        · rintro (h | rfl | h)
          · exact .inl h
          · exact .inl hseen
          · exact .inr h
      · rw [if_neg hseen, mem_append, mem_singleton, or_assoc]
  apply (hfold terms []).trans
  simp

theorem matches_queryTermOf (hlib : StemLaws lib) (word t : Text) :
    (vcQueryTerm (queryTermOf lib config word)).matches lib t = true ↔
      TermMatches lib config word t := by
  unfold queryTermOf TermMatches
  by_cases hw : hasWildcardPattern word = true
  · rw [if_pos hw, if_pos hw]
    unfold vcQueryTerm
    rw [if_pos hw]
    rfl
  · have hplain : hasWildcardPattern (stemOf lib config word) = false := by
      unfold stemOf
      split
      · exact Bool.eq_false_iff.mpr hw
      · exact hlib.plain _ word (Bool.eq_false_iff.mpr hw)
    rw [if_neg hw, if_neg hw]
    unfold vcQueryTerm
    rw [hplain]
    exact decide_eq_true_iff

end

/-! ## 2. The matched terms -/

section

variable {A : Type} (lib : QueryLibrary A) (x : FtsIndex Text)

def MatchesAt (queryTerms : List Text) (offset idx : Nat) : Prop :=
  ∃ q t p, queryTerms[idx]? = some q ∧ x.terms.row t = some p ∧ p.1 = offset ∧
    (vcQueryTerm q).matches lib t = true

structure MatchedFor (queryTerms : List Text) (terms : MatchedTerms) : Prop where
  idxs : ∀ offset idx, (∃ term, terms.lookup offset = some term ∧ idx ∈ term.queryTermIdxs) ↔
    MatchesAt lib x queryTerms offset idx
  ne_nil : ∀ offset term, terms.lookup offset = some term → term.queryTermIdxs ≠ []

variable {queryTerms : List Text} {K : Type} {t : KeyedTable K}

theorem matchedFor_gather {visits : List TermVisit}
    (hvisits : ∀ offset idx, (∃ v ∈ visits, v.offset = offset ∧ v.idx = idx) ↔
      MatchesAt lib x queryTerms offset idx) :
    MatchedFor lib x queryTerms (gather addTerm TermVisit.offset visits) := by
  have hlookup : ∀ offset,
      ((gather addTerm TermVisit.offset visits).lookup offset).map MatchedTerm.queryTermIdxs =
        if visits.filter (fun v => v.offset = offset) = [] then none
        else some ((visits.filter fun v => v.offset = offset).map TermVisit.idx) :=
    fun offset => map_lookup_gather addTerm TermVisit.offset (fun _ _ => rfl) visits offset
  have hsome : ∀ offset term, (gather addTerm TermVisit.offset visits).lookup offset = some term →
        term.queryTermIdxs = (visits.filter fun v => v.offset = offset).map TermVisit.idx ∧
          visits.filter (fun v => v.offset = offset) ≠ [] := by
    intro offset term hterm
    have h := hlookup offset
    rw [hterm, Option.map_some] at h
    split at h
    · cases h
    next hne => exact ⟨Option.some.inj h, hne⟩
  constructor
  · intro offset idx
    rw [← hvisits offset idx]
    constructor
    · rintro ⟨term, hterm, hidx⟩
      rw [(hsome offset term hterm).1] at hidx
      obtain ⟨v, hv, hvidx⟩ := mem_map.mp hidx
      obtain ⟨hin, hoffset⟩ := mem_filter.mp hv
      exact ⟨v, hin, of_decide_eq_true hoffset, hvidx⟩
    · rintro ⟨v, hv, hoffset, hidx⟩
      have hin : v ∈ visits.filter fun v => v.offset = offset :=
        mem_filter.mpr ⟨hv, decide_eq_true hoffset⟩
      have h := hlookup offset
      rw [if_neg (ne_nil_of_mem hin)] at h
      obtain ⟨term, hterm, hidxs⟩ := Option.map_eq_some_iff.mp h
      refine ⟨term, hterm, ?_⟩
      rw [hidxs, ← hidx]
      exact mem_map_of_mem hin
  · intro offset term hterm hnil
    obtain ⟨hidxs, hne⟩ := hsome offset term hterm
    rw [hidxs, map_eq_nil_iff] at hnil
    exact hne hnil

theorem mem_rowsOf {keys : List K} {r : K × Nat × Nat} :
    r ∈ rowsOf t keys ↔ r.1 ∈ keys ∧ t.row r.1 = some r.2 := by
  unfold rowsOf
  rw [mem_filterMap]
  constructor
  · rintro ⟨k, hk, hr⟩
    obtain ⟨p, hp, rfl⟩ := Option.map_eq_some_iff.mp hr
    exact ⟨hk, hp⟩
  · rintro ⟨hk, hr⟩
    exact ⟨r.1, hk, Option.map_eq_some_iff.mpr ⟨r.2, hr, rfl⟩⟩

theorem Scan.mem_row (scan : Scan t) {k : K} {p : Nat × Nat} (hp : t.row k = some p) :
    ∃ chunk ∈ scan.chunks, (k, p) ∈ rowsOf t chunk := by
  have hin := (scan.mem_chunks k).mpr (by rw [hp]; rfl)
  obtain ⟨chunk, hchunk, hk⟩ := mem_flatten.mp hin
  exact ⟨chunk, hchunk, mem_rowsOf.mpr ⟨hk, hp⟩⟩

theorem scanTerms_matched (scan : Scan x.terms) (il : Interleaving) (queryTerms : List Text) :
    MatchedFor lib x queryTerms (scanTerms lib x scan il queryTerms) := by
  apply matchedFor_gather
  intro offset idx
  constructor
  · rintro ⟨v, hv, hoffset, hidx⟩
    obtain ⟨chunk, -, hv⟩ := mem_flatMap.mp ((il.perm _ _).mem_iff.mp hv)
    obtain ⟨q, hq, hv⟩ := mem_flatMap.mp hv
    obtain ⟨r, hr, hrv⟩ := mem_map.mp hv
    obtain ⟨hr, hmatch⟩ := mem_filter.mp hr
    have hrow := (mem_rowsOf.mp hr).2
    have hq' := mem_zipIdx_iff_getElem?.mp hq
    rw [getElem?_map] at hq'
    obtain ⟨term, hterm, hvc⟩ := Option.map_eq_some_iff.mp hq'
    subst hrv
    refine ⟨term, r.1, r.2, hidx ▸ hterm, hrow, hoffset, ?_⟩
    rw [hvc]
    exact hmatch
  · rintro ⟨term, t, p, hterm, hrow, hoffset, hmatch⟩
    obtain ⟨chunk, hchunk, hr⟩ := scan.mem_row hrow
    refine ⟨⟨p.1, p.2, idx⟩, (il.perm _ _).mem_iff.mpr ?_, hoffset, rfl⟩
    refine mem_flatMap.mpr ⟨chunk, hchunk, mem_flatMap.mpr ⟨(vcQueryTerm term, idx), ?_, ?_⟩⟩
    · apply mem_zipIdx_iff_getElem?.mpr
      rw [getElem?_map, hterm]
      rfl
    · exact mem_map.mpr ⟨(t, p), mem_filter.mpr ⟨hr, hmatch⟩, rfl⟩

theorem lookupTerms_matched (hplain : queryTerms.any hasWildcardPattern = false) :
    MatchedFor lib x queryTerms (lookupTerms x queryTerms) := by
  have hmatches : ∀ term ∈ queryTerms, ∀ t, (vcQueryTerm term).matches lib t = true ↔ term = t := by
    intro term hterm t
    have hno : hasWildcardPattern term = false := by
      by_contra hw
      rw [any_eq_true.mpr ⟨term, hterm, Bool.eq_true_of_not_eq_false hw⟩] at hplain
      cases hplain
    unfold vcQueryTerm
    rw [hno]
    exact decide_eq_true_iff
  apply matchedFor_gather
  intro offset idx
  constructor
  · rintro ⟨v, hv, hoffset, hidx⟩
    obtain ⟨q, hq, hqv⟩ := mem_filterMap.mp hv
    obtain ⟨p, hp, hpv⟩ := Option.map_eq_some_iff.mp hqv
    have hterm := mem_zipIdx_iff_getElem?.mp hq
    subst hpv
    refine ⟨q.1, q.1, p, hidx ▸ hterm, hp, hoffset, ?_⟩
    exact (hmatches q.1 (mem_of_getElem? hterm) q.1).mpr rfl
  · rintro ⟨term, t, p, hterm, hrow, hoffset, hmatch⟩
    have heq := (hmatches term (mem_of_getElem? hterm) t).mp hmatch
    refine ⟨⟨p.1, p.2, idx⟩, mem_filterMap.mpr ⟨(term, idx), mem_zipIdx_iff_getElem?.mpr hterm, ?_⟩,
      hoffset, rfl⟩
    rw [heq, hrow]
    rfl

theorem getMatchedTerms_matched (scan : Scan x.terms) (il : Interleaving) (queryTerms : List Text) :
    MatchedFor lib x queryTerms (getMatchedTerms lib x scan il queryTerms) := by
  unfold getMatchedTerms
  split
  · exact scanTerms_matched lib x scan il queryTerms
  next hno => exact lookupTerms_matched lib x (Bool.eq_false_iff.mpr hno)

end

/-! ## 3. The documents -/

section

variable {A : Type} (lib : QueryLibrary A) (x : FtsIndex Text)

/-- A document, by its place in the table, has a term for the place `idx` of the query. -/
def Covers (queryTerms : List Text) (docNode idx : Nat) : Prop :=
  ∃ e ∈ x.appearsIn, e.doc = docNode ∧ MatchesAt lib x queryTerms e.term idx

theorem runFTSEdgeCompute_lookup (il : Interleaving) (terms : MatchedTerms) (docNode : Nat) :
    (runFTSEdgeCompute x il terms).lookup docNode =
      if (il.order _ (terms.keys.flatMap (edgeCompute x terms))).filter
          (fun v => v.docNode = docNode) = [] then none
      else some (((il.order _ (terms.keys.flatMap (edgeCompute x terms))).filter
        fun v => v.docNode = docNode).map DocVisit.data) := by
  have hadd : ∀ b v, id (addEdge b v) = (b.map id).getD [] ++ [v.data] := by
    intro b v
    rw [Option.map_id]
    rfl
  have h := map_lookup_gather addEdge DocVisit.docNode hadd
    (il.order _ (terms.keys.flatMap (edgeCompute x terms))) docNode
  rw [Option.map_id] at h
  exact h

theorem mem_edgeVisits (il : Interleaving) (terms : MatchedTerms) {v : DocVisit} :
    v ∈ il.order _ (terms.keys.flatMap (edgeCompute x terms)) ↔
      ∃ e ∈ x.appearsIn, ∃ term, terms.lookup e.term = some term ∧ v = ⟨e.doc, ⟨term, e.tf⟩⟩ := by
  rw [(il.perm _ _).mem_iff, mem_flatMap]
  unfold edgeCompute
  constructor
  · rintro ⟨offset, -, hv⟩
    split at hv
    · cases hv
    next term hterm =>
      obtain ⟨e, he, rfl⟩ := mem_map.mp hv
      obtain ⟨hin, hoffset⟩ := mem_filter.mp he
      exact ⟨e, hin, term, of_decide_eq_true hoffset ▸ hterm, rfl⟩
  · rintro ⟨e, he, term, hterm, rfl⟩
    refine ⟨e.term, AList.mem_keys.mpr (AList.lookup_isSome.mp (by rw [hterm]; rfl)), ?_⟩
    rw [hterm]
    exact mem_map.mpr ⟨e, mem_filter.mpr ⟨he, decide_eq_true rfl⟩, rfl⟩

theorem getElem?_set_covered (covered : List Bool) (idxs : List Nat) (i : Nat) :
    (idxs.foldl (fun covered idx => covered.set idx true) covered)[i]? =
      if i ∈ idxs then covered[i]?.map fun _ => true else covered[i]? := by
  induction idxs generalizing covered with
  | nil => simp
  | cons idx idxs ih =>
    rw [foldl_cons, ih, getElem?_set]
    by_cases hi : idx = i
    · subst hi
      by_cases hlt : idx < covered.length
      · simp [hlt]
      · simp [hlt]
    · simp [hi, Ne.symm hi]

theorem coveredQueryTerms_getElem? (n : Nat) (scoreInfo : List ScoreData) (i : Nat) :
    (coveredQueryTerms n scoreInfo)[i]? =
      if i < n then some (decide (∃ data ∈ scoreInfo, i ∈ data.term.queryTermIdxs)) else none := by
  unfold coveredQueryTerms
  induction scoreInfo using reverseRecOn with
  | nil =>
    rw [foldl_nil, getElem?_replicate]
    simp
  | append_singleton infos data ih =>
    rw [foldl_append, foldl_cons, foldl_nil, getElem?_set_covered, ih]
    by_cases hlt : i < n
    · by_cases hi : i ∈ data.term.queryTermIdxs
      all_goals simp [hlt, hi]
    · simp [hlt]

variable {queryTerms : List Text} {terms : MatchedTerms}

/-- A row is scored when it covers a place, and in a conjunctive query when it covers all of them. -/
theorem write_isSome (il : Interleaving) (hterms : MatchedFor lib x queryTerms terms)
    (conjunctive : Bool) (docNode docsID : Nat) :
    write (runFTSEdgeCompute x il terms) queryTerms.length conjunctive docNode docsID = some docsID ↔
      (∃ idx, Covers lib x queryTerms docNode idx) ∧
        (conjunctive = true → ∀ idx, idx < queryTerms.length → Covers lib x queryTerms docNode idx) := by
  have hcovers : ∀ idx, (∃ v ∈ (il.order _ (terms.keys.flatMap (edgeCompute x terms))).filter
      fun v => v.docNode = docNode, idx ∈ v.data.term.queryTermIdxs) ↔
        Covers lib x queryTerms docNode idx := by
    intro idx
    constructor
    · rintro ⟨v, hv, hidx⟩
      obtain ⟨hv, hdoc⟩ := mem_filter.mp hv
      obtain ⟨e, he, term, hterm, rfl⟩ := (mem_edgeVisits x il terms).mp hv
      exact ⟨e, he, of_decide_eq_true hdoc, (hterms.idxs _ _).mp ⟨term, hterm, hidx⟩⟩
    · rintro ⟨e, he, hdoc, hmatch⟩
      obtain ⟨term, hterm, hidx⟩ := (hterms.idxs _ _).mpr hmatch
      exact ⟨_, mem_filter.mpr
        ⟨(mem_edgeVisits x il terms).mpr ⟨e, he, term, hterm, rfl⟩, decide_eq_true hdoc⟩, hidx⟩
  unfold write
  rw [runFTSEdgeCompute_lookup]
  by_cases hnil : (il.order _ (terms.keys.flatMap (edgeCompute x terms))).filter
      (fun v => v.docNode = docNode) = []
  · rw [if_pos hnil]
    constructor
    · intro h
      cases h
    · rintro ⟨⟨idx, hidx⟩, -⟩
      obtain ⟨v, hv, -⟩ := (hcovers idx).mpr hidx
      rw [hnil] at hv
      cases hv
  · rw [if_neg hnil]
    -- a document that is visited covers a place
    have hsome : ∃ idx, Covers lib x queryTerms docNode idx := by
      obtain ⟨v, hv⟩ := exists_mem_of_ne_nil _ hnil
      obtain ⟨e, he, term, hterm, hve⟩ := (mem_edgeVisits x il terms).mp (mem_filter.mp hv).1
      obtain ⟨idx, hidx⟩ := exists_mem_of_ne_nil _ (hterms.ne_nil _ _ hterm)
      refine ⟨idx, (hcovers idx).mp ⟨v, hv, ?_⟩⟩
      rw [hve]
      exact hidx
    have hall : (coveredQueryTerms queryTerms.length
        (((il.order _ (terms.keys.flatMap (edgeCompute x terms))).filter
          fun v => v.docNode = docNode).map DocVisit.data)).contains false = false ↔
        ∀ idx, idx < queryTerms.length → Covers lib x queryTerms docNode idx := by
      rw [← Bool.not_eq_true, contains_iff_mem, mem_iff_getElem?]
      simp only [coveredQueryTerms_getElem?]
      constructor
      · intro h idx hlt
        by_contra hno
        apply h
        refine ⟨idx, ?_⟩
        rw [if_pos hlt, Option.some.injEq, decide_eq_false_iff_not]
        rintro ⟨data, hdata, hidx⟩
        obtain ⟨v, hv, rfl⟩ := mem_map.mp hdata
        exact hno ((hcovers idx).mp ⟨v, hv, hidx⟩)
      · rintro h ⟨idx, hidx⟩
        split at hidx
        next hlt =>
          obtain ⟨v, hv, hin⟩ := (hcovers idx).mpr (h idx hlt)
          rw [Option.some.injEq, decide_eq_false_iff_not] at hidx
          exact hidx ⟨v.data, mem_map_of_mem hv, hin⟩
        · cases hidx
    show (if (conjunctive && _) = true then none else some docsID) = some docsID ↔ _
    cases conjunctive with
    | false => simp [hsome]
    | true =>
      rw [Bool.true_and, and_iff_right hsome, ← hall]
      simp

theorem mem_scoredDocs (docsScan : Scan x.docs) (il : Interleaving)
    (getSparseFrontierSize : Nat → Nat) (hterms : MatchedFor lib x queryTerms terms)
    (conjunctive : Bool) (docsID : Nat) :
    docsID ∈ scoredDocs x docsScan il getSparseFrontierSize terms queryTerms.length conjunctive ↔
      ∃ p, x.docs.row docsID = some p ∧ (∃ idx, Covers lib x queryTerms p.1 idx) ∧
        (conjunctive = true → ∀ idx, idx < queryTerms.length → Covers lib x queryTerms p.1 idx) := by
  have hwrite : ∀ docNode docsID' id, write (runFTSEdgeCompute x il terms) queryTerms.length conjunctive
      docNode docsID' = some id → id = docsID' := by
    intro docNode docsID' id h
    unfold write at h
    split at h
    · cases h
    · split at h
      · cases h
      · exact (Option.some.inj h).symm
  unfold scoredDocs
  simp only []
  split
  · rw [mem_flatMap]
    constructor
    · rintro ⟨docNode, -, h⟩
      obtain ⟨r, hr, hw⟩ := mem_filterMap.mp h
      have hrow := (mem_rowsOf.mp (mem_filter.mp hr).1).2
      have hid := hwrite _ _ _ hw
      subst hid
      exact ⟨r.2, hrow, (write_isSome lib x il hterms conjunctive r.2.1 r.1).mp hw⟩
    · rintro ⟨p, hp, hscored⟩
      have hw := (write_isSome lib x il hterms conjunctive p.1 docsID).mpr hscored
      obtain ⟨chunk, hchunk, hr⟩ := docsScan.mem_row hp
      refine ⟨p.1, ?_, mem_filterMap.mpr ⟨(docsID, p), mem_filter.mpr ⟨?_, ?_⟩, hw⟩⟩
      · apply AList.mem_keys.mpr
        apply AList.lookup_isSome.mp
        unfold write at hw
        split at hw
        · cases hw
        next hlookup =>
          rw [hlookup]
          rfl
      · exact mem_rowsOf.mpr ⟨mem_flatten_of_mem hchunk (mem_rowsOf.mp hr).1, hp⟩
      · exact decide_eq_true rfl
  · rw [mem_flatMap]
    constructor
    · rintro ⟨chunk, -, h⟩
      obtain ⟨r, hr, hw⟩ := mem_filterMap.mp h
      have hrow := (mem_rowsOf.mp hr).2
      have hid := hwrite _ _ _ hw
      subst hid
      exact ⟨r.2, hrow, (write_isSome lib x il hterms conjunctive r.2.1 r.1).mp hw⟩
    · rintro ⟨p, hp, hscored⟩
      have hw := (write_isSome lib x il hterms conjunctive p.1 docsID).mpr hscored
      obtain ⟨chunk, hchunk, hr⟩ := docsScan.mem_row hp
      exact ⟨chunk, hchunk, mem_filterMap.mpr ⟨(docsID, p), hr, hw⟩⟩

end

/-! ## 4. The answers -/

def Contains (x : FtsIndex Text) (docsID : Nat) (t : Text) : Prop :=
  ∃ p d, x.terms.row t = some p ∧ x.docs.row docsID = some d ∧
    ∃ e ∈ x.appearsIn, e.term = p.1 ∧ e.doc = d.1

section

variable {A : Type} {lib : QueryLibrary A}

/-- A conjunctive query has a word that is not a stop word, and the document has a term for every such
word; another query has a word, a stop word or not, for which the document has a term. -/
def IsAnswer (lib : QueryLibrary A) (config : QueryConfig A) (q : FtsQuery) (x : FtsIndex Text)
    (docsID : Nat) : Prop :=
  if q.conjunctive then
    (∃ w ∈ queryWords lib config q, isStopWord config.toFtsConfig w = false) ∧
      ∀ w ∈ queryWords lib config q, isStopWord config.toFtsConfig w = false →
        ∃ t, Contains x docsID t ∧ TermMatches lib config w t
  else ∃ w ∈ queryWords lib config q, w ≠ [] ∧ ∃ t, Contains x docsID t ∧ TermMatches lib config w t

theorem mem_getQueryTerms (config : QueryConfig A) (q : FtsQuery) {term : Text} :
    term ∈ getQueryTerms lib config q ↔ ∃ w ∈ queryWords lib config q,
      (q.conjunctive = true → isStopWord config.toFtsConfig w = false) ∧
        queryTermOf lib config w = term := by
  unfold getQueryTerms
  rw [stemTerms_query, mem_map]
  constructor
  · rintro ⟨w, hw, heq⟩
    obtain ⟨hin, hkeep⟩ := mem_filter.mp hw
    refine ⟨w, hin, fun hconj => ?_, heq⟩
    rw [hconj, Bool.true_and, Bool.not_eq_true'] at hkeep
    exact hkeep
  · rintro ⟨w, hin, hkeep, heq⟩
    refine ⟨w, mem_filter.mpr ⟨hin, ?_⟩, heq⟩
    cases hconj : q.conjunctive with
    | false => rfl
    | true =>
      rw [hkeep hconj]
      rfl

theorem covers_iff (x : FtsIndex Text) (queryTerms : List Text) {docsID : Nat} {d : Nat × Nat}
    (hd : x.docs.row docsID = some d) (idx : Nat) : Covers lib x queryTerms d.1 idx ↔
      ∃ term, queryTerms[idx]? = some term ∧
        ∃ t, Contains x docsID t ∧ (vcQueryTerm term).matches lib t = true := by
  constructor
  · rintro ⟨e, he, hdoc, term, t, p, hterm, hp, hoffset, hmatch⟩
    exact ⟨term, hterm, t, ⟨p, d, hp, hd, e, he, hoffset.symm, hdoc⟩, hmatch⟩
  · rintro ⟨term, hterm, t, ⟨p, d', hp, hd', e, he, hoffset, hdoc⟩, hmatch⟩
    rw [hd, Option.some.injEq] at hd'
    subst hd'
    exact ⟨e, he, hdoc, term, t, p, hterm, hp, hoffset.symm, hmatch⟩

theorem mem_scoredDocs_iff (x : FtsIndex Text) (docsScan : Scan x.docs) (il : Interleaving)
    (getSparseFrontierSize : Nat → Nat) {queryTerms : List Text} {terms : MatchedTerms}
    (hterms : MatchedFor lib x queryTerms terms) (conjunctive : Bool) (docsID : Nat) :
    docsID ∈ scoredDocs x docsScan il getSparseFrontierSize terms queryTerms.length conjunctive ↔
      (∃ term ∈ queryTerms, ∃ t, Contains x docsID t ∧ (vcQueryTerm term).matches lib t = true) ∧
        (conjunctive = true → ∀ term ∈ queryTerms,
          ∃ t, Contains x docsID t ∧ (vcQueryTerm term).matches lib t = true) := by
  rw [mem_scoredDocs lib x docsScan il getSparseFrontierSize hterms]
  constructor
  · rintro ⟨d, hd, ⟨idx, hidx⟩, hall⟩
    obtain ⟨term, hterm, hmatch⟩ := (covers_iff x queryTerms hd idx).mp hidx
    refine ⟨⟨term, mem_of_getElem? hterm, hmatch⟩, fun hconj term' hterm' => ?_⟩
    obtain ⟨i, hi⟩ := mem_iff_getElem?.mp hterm'
    have hlt := (List.getElem?_eq_some_iff.mp hi).1
    obtain ⟨term'', hterm'', hmatch'⟩ := (covers_iff x queryTerms hd i).mp (hall hconj i hlt)
    rw [hi, Option.some.injEq] at hterm''
    exact hterm'' ▸ hmatch'
  · rintro ⟨⟨term, hterm, t, hcontains, hmatch⟩, hall⟩
    obtain ⟨p, d, hp, hd, hedge⟩ := id hcontains
    obtain ⟨idx, hidx⟩ := mem_iff_getElem?.mp hterm
    refine ⟨d, hd, ⟨idx, (covers_iff x queryTerms hd idx).mpr ⟨term, hidx, t, hcontains, hmatch⟩⟩, ?_⟩
    intro hconj i hlt
    have hi := getElem?_eq_getElem hlt
    exact (covers_iff x queryTerms hd i).mpr ⟨_, hi, hall hconj _ (getElem_mem hlt)⟩

section

variable (hlib : StemLaws lib) (config : QueryConfig A)

include hlib config

theorem mem_queryFts (q : FtsQuery) (r : QueryRun) (docsID : Nat) :
    docsID ∈ queryFts lib config q r ↔ (∃ w ∈ queryWords lib config q,
        (q.conjunctive = true → isStopWord config.toFtsConfig w = false) ∧
          ∃ t, Contains r.index docsID t ∧ TermMatches lib config w t) ∧
        (q.conjunctive = true → ∀ w ∈ queryWords lib config q,
          isStopWord config.toFtsConfig w = false →
            ∃ t, Contains r.index docsID t ∧ TermMatches lib config w t) := by
  unfold queryFts
  rw [mem_scoredDocs_iff r.index r.docsScan r.il r.getSparseFrontierSize
    (getMatchedTerms_matched lib r.index r.termsScan r.il _)]
  simp only [mem_getUniqueTerms, mem_getQueryTerms]
  constructor
  · rintro ⟨⟨term, ⟨w, hw, hkeep, rfl⟩, t, ht, hmatch⟩, hall⟩
    refine ⟨⟨w, hw, hkeep, t, ht, (matches_queryTermOf lib config hlib w t).mp hmatch⟩, ?_⟩
    intro hconj w' hw' hkeep'
    obtain ⟨t', ht', hmatch'⟩ := hall hconj _ ⟨w', hw', fun _ => hkeep', rfl⟩
    exact ⟨t', ht', (matches_queryTermOf lib config hlib w' t').mp hmatch'⟩
  · rintro ⟨⟨w, hw, hkeep, t, ht, hmatch⟩, hall⟩
    refine ⟨⟨_, ⟨w, hw, hkeep, rfl⟩, t, ht, (matches_queryTermOf lib config hlib w t).mpr hmatch⟩, ?_⟩
    rintro hconj _ ⟨w', hw', hkeep', rfl⟩
    obtain ⟨t', ht', hmatch'⟩ := hall hconj w' hw' (hkeep' hconj)
    exact ⟨t', ht', (matches_queryTermOf lib config hlib w' t').mpr hmatch'⟩

theorem termMatches_nil {t : Text} (h : TermMatches lib config [] t) : t = [] := by
  have hstem : stemOf lib config [] = t := h
  rw [← hstem]
  unfold stemOf
  split
  · rfl
  · exact hlib.nil _

/-- An empty part that is not a stop word is not dropped: where no document has the empty term, a
conjunctive query with such a part scores nothing. -/
theorem queryFts_empty_part {q : FtsQuery} (hconj : q.conjunctive = true)
    (hnil : [] ∈ queryWords lib config q) (hstop : isStopWord config.toFtsConfig [] = false)
    {r : QueryRun} (hrow : r.index.terms.row [] = none) (docsID : Nat) :
    docsID ∉ queryFts lib config q r := by
  rw [mem_queryFts hlib]
  rintro ⟨-, hall⟩
  obtain ⟨t, ⟨p, d, hp, -⟩, hmatch⟩ := hall hconj [] hnil hstop
  rw [termMatches_nil hlib config hmatch, hrow] at hp
  cases hp

end

/-- The scored documents are the answers; they depend on the words of the query but not on their order,
nor on the order in which the tables are read, nor on the way in which terms without wildcards are
found. -/
theorem queryFts_answers (hlib : StemLaws lib) (config : QueryConfig A) (q : FtsQuery) (r : QueryRun)
    (hwords : [] ∈ queryWords lib config q → q.conjunctive = false ∧ r.index.terms.row [] = none) :
    (∀ docsID, docsID ∈ queryFts lib config q r ↔ IsAnswer lib config q r.index docsID) ∧
    (∀ (q' : FtsQuery) (r' : QueryRun), q'.conjunctive = q.conjunctive →
      (queryWords lib config q').Perm (queryWords lib config q) → r'.index = r.index →
        ∀ docsID, docsID ∈ queryFts lib config q' r' ↔ docsID ∈ queryFts lib config q r) ∧
    (∀ queryTerms : List Text, queryTerms.any hasWildcardPattern = false → ∀ docsID,
      docsID ∈ scoredDocs r.index r.docsScan r.il r.getSparseFrontierSize
          (scanTerms lib r.index r.termsScan r.il queryTerms) queryTerms.length q.conjunctive ↔
        docsID ∈ scoredDocs r.index r.docsScan r.il r.getSparseFrontierSize
          (lookupTerms r.index queryTerms) queryTerms.length q.conjunctive) := by
  refine ⟨fun docsID ↦ ?_, fun q' r' hconj hperm hindex docsID ↦ ?_, fun queryTerms hplain docsID ↦ ?_⟩
  · rw [mem_queryFts hlib]
    unfold IsAnswer
    cases hconj : q.conjunctive with
    | true =>
      simp only [forall_const]
      constructor
      · rintro ⟨⟨w, hw, hkeep, -⟩, hall⟩
        exact ⟨⟨w, hw, hkeep⟩, hall⟩
      · rintro ⟨⟨w, hw, hkeep⟩, hall⟩
        exact ⟨⟨w, hw, hkeep, hall w hw hkeep⟩, hall⟩
    | false =>
      simp only [Bool.false_eq_true, false_implies, true_and, and_true]
      constructor
      · rintro ⟨w, hw, t, ht, hmatch⟩
        refine ⟨w, hw, ?_, t, ht, hmatch⟩
        rintro rfl
        obtain ⟨p, d, hp, -⟩ := ht
        rw [termMatches_nil hlib config hmatch, (hwords hw).2] at hp
        cases hp
      · rintro ⟨w, hw, -, t, ht, hmatch⟩
        exact ⟨w, hw, t, ht, hmatch⟩
  · rw [mem_queryFts hlib, mem_queryFts hlib, hconj, hindex]
    simp only [hperm.mem_iff]
  · rw [mem_scoredDocs_iff r.index r.docsScan r.il r.getSparseFrontierSize
        (scanTerms_matched lib r.index r.termsScan r.il queryTerms),
      mem_scoredDocs_iff r.index r.docsScan r.il r.getSparseFrontierSize
        (lookupTerms_matched lib r.index hplain)]

end

/-! ## 5. A stop word that is the stem of another word -/

def Scan.ofGroups {K : Type} [DecidableEq K] (keys : List K) (aggregate : K → Nat) :
    Scan (copyGroups keys aggregate) where
  chunks := [keys.dedup]
  mem_chunks := by
    intro k
    unfold copyGroups
    by_cases hk : k ∈ keys
    · simp [hk]
    · simp [hk]

/-- The libraries on texts of small letters and spaces, for words whose stem leaves out a last s. -/
def pluralLibrary : QueryLibrary Unit where
  lower := id
  regexpReplace := fun _ => id
  stem := fun _ t => if t.getLast? = some 115 then t.dropLast else t
  toLower := id
  globalReplace := fun _ => id
  sbStemmerStem := fun _ t => if t.getLast? = some 115 then t.dropLast else t
  split := splitOn 32
  cutForSearch := fun _ text => [text]
  fullMatch := fun t re => decide (t = re)

theorem pluralLibrary_laws : StemLaws pluralLibrary where
  nil := fun _ => rfl
  plain := by
    intro a word hword
    show hasWildcardPattern (if word.getLast? = some 115 then word.dropLast else word) = false
    split
    · unfold hasWildcardPattern at hword ⊢
      rw [any_eq_false] at hword ⊢
      exact fun c hc => hword c (dropLast_subset word hc)
    · exact hword

/-- The word "will" is a stop word. -/
def willConfig : QueryConfig Unit where
  stemmer := .algorithm ()
  stopWords := .table [ascii "will"]
  ignorePattern := "[0-9]+"
  ignorePatternQuery := "[0-9]+"
  tokenizer := .simple
  jiebaDictDir := ""

def indexOf (text : Text) : QueryRun :=
  let bulk := bulkTerms pluralLibrary.toTextLibrary willConfig.toFtsConfig
  let info := appearsInfo bulk [some [some text]]
  { index := (createFTSIndex bulk [some [some text]]).index
    termsScan := Scan.ofGroups (info.map Prod.fst) _
    docsScan := Scan.ofGroups (info.map Prod.snd) _
    il := ⟨fun _ => id, fun _ _ => Perm.refl _⟩
    getSparseFrontierSize := fun n => max 1000 (n / 1000) }

/-- All words of the query are stop words, but the row with the word "wills" is scored. -/
theorem stop_word_scored :
    0 ∈ queryFts pluralLibrary willConfig ⟨ascii "will", false⟩ (indexOf (ascii "wills")) ∧
      ∀ w ∈ queryWords pluralLibrary willConfig ⟨ascii "will", false⟩,
        isStopWord willConfig.toFtsConfig w = true := by
  decide +kernel

/-- A query for two words and the row that has them. -/
theorem queryFts_answers_wills : StemLaws pluralLibrary ∧ (∀ docsID,
      docsID ∈ queryFts pluralLibrary willConfig ⟨ascii "red wills", true⟩ (indexOf (ascii "wills red")) ↔
        IsAnswer pluralLibrary willConfig ⟨ascii "red wills", true⟩
          (indexOf (ascii "wills red")).index docsID) ∧
      0 ∈ queryFts pluralLibrary willConfig ⟨ascii "red wills", true⟩ (indexOf (ascii "wills red")) :=
  ⟨pluralLibrary_laws, (queryFts_answers pluralLibrary_laws willConfig ⟨ascii "red wills", true⟩
    (indexOf (ascii "wills red")) (fun h ↦ absurd h (by decide +kernel))).1, by decide +kernel⟩

end Ladybug.Fts
