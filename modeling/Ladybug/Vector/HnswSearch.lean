import Mathlib.Algebra.Order.Field.Rat
import Ladybug.Base.Loops
import Ladybug.Base.Queues

/-!
# Searching an HNSW index

`OnDiskHNSWIndex::search` with its three sources of rows: the graph of the checkpointed rows, the scan
of the rows that are not checkpointed yet, and the scan of the whole table.
-/

namespace Ladybug.Vector

/-- Distances are finite doubles or the greatest one. -/
class Distance (D : Type) extends LinearOrder D, Zero D, Top D where
  zero_lt_top : (0 : D) < ⊤

structure NodeWithDistance (D : Type) where
  nodeOffset : Nat
  distance : D

/-- The rows of the table for one transaction.  A row is live when the transaction sees it and its
vector is not null; it is recorded when `embeddings`, maybe the quantized ones, has a vector for it.
`exact` says that a quantized index has `exactEmbeddings` as well. -/
structure Rows where
  numTotalRows : Nat
  live : Nat → Bool
  recorded : Nat → Bool
  exact : Bool
  live_lt : ∀ o, live o = true → o < numTotalRows
  recorded_live : ∀ o, recorded o = true → live o = true

structure SemiMask where
  isMasked : Nat → Bool
  getNumMaskedNodes : Nat
  collectMaskedNodes : Nat → List Nat
  collect_masked : ∀ n, ∀ o ∈ collectMaskedNodes n, isMasked o = true

/-- The two layers over the first `numCheckpointedNodes` rows.  A scan of the neighbours of a node
returns chunks; an invalid entry point is `none`. -/
structure HNSWLayers (numCheckpointedNodes : Nat) where
  upperEntryPoint : Option Nat
  lowerEntryPoint : Option Nat
  upperGraph : Nat → List (List Nat)
  lowerGraph : Nat → List (List Nat)
  ml : Int
  upperEntry_lt : ∀ o ∈ upperEntryPoint, o < numCheckpointedNodes
  lowerEntry_lt : ∀ o ∈ lowerEntryPoint, o < numCheckpointedNodes
  upper_lt : ∀ v, ∀ w ∈ (upperGraph v).flatten, w < numCheckpointedNodes
  lower_lt : ∀ v, ∀ w ∈ (lowerGraph v).flatten, w < numCheckpointedNodes

/-- The values of `search_type` that are accepted, in any case. -/
inductive SearchTypeParam where
  | auto
  | navix
  | adaptiveL
  | adaptiveG
  | blind
  | directed
  | oneHop
  | naive
  | random
  deriving DecidableEq

/-- A query vector is its distances to the rows. -/
structure Query (D : Type) where
  k : Nat
  efs : Nat
  useKnn : Bool
  searchType : SearchTypeParam
  blindSearchUpSelThreshold : ℚ
  directedSearchUpSelThreshold : ℚ
  metricFunc : Nat → D
  exactMetricFunc : Nat → D

/-- What a search looks at, apart from the graph and the query. -/
structure SearchedTable where
  rows : Rows
  numCheckpointedNodes : Nat
  numCheckpointed_le : numCheckpointedNodes ≤ rows.numTotalRows
  semiMask : Option SemiMask

structure HNSWSearch (D : Type) [Distance D] extends SearchedTable where
  layers : HNSWLayers numCheckpointedNodes
  query : Query D
  ordering : KeySort (fun n : NodeWithDistance D => n.distance)

def SearchedTable.isMasked (T : SearchedTable) (o : Nat) : Bool :=
  match T.semiMask with
  | none => true
  | some mask => mask.isMasked o

def SearchedTable.Eligible (T : SearchedTable) (o : Nat) : Prop :=
  T.rows.live o = true ∧ T.isMasked o = true

structure SearchQueues (D : Type) where
  candidates : List (NodeWithDistance D)
  results : List (NodeWithDistance D)
  visited : List Nat

inductive SearchType where
  | blindTwoHop
  | directedTwoHop
  | oneHopFiltered
  | unfiltered
  | navixFiltered
  | randomFiltered
  deriving DecidableEq

namespace HNSWSearch

variable {D : Type} [Distance D] (S : HNSWSearch D)

def ef : Nat := max S.query.k S.query.efs

def node (o : Nat) : NodeWithDistance D := ⟨o, S.query.metricFunc o⟩

def improves (results : List (NodeWithDistance D)) (dist : D) : Bool :=
  match S.ordering.topMax? results with
  | none => false
  | some top => dist < top.distance

def processNbrNodeInKNNSearch (s : SearchQueues D) (nbr : Nat) : SearchQueues D :=
  let visited := nbr :: s.visited
  if !S.rows.recorded nbr then { s with visited }
  else if s.results.length < S.ef || S.improves s.results (S.query.metricFunc nbr) then
    let results := if S.ef ≤ s.results.length then S.ordering.popMax s.results else s.results
    { candidates := s.candidates ++ [S.node nbr], results := results ++ [S.node nbr], visited }
  else { s with visited }

def processUnvisitedMasked (s : SearchQueues D) (nbr : Nat) : SearchQueues D :=
  if nbr ∉ s.visited && S.isMasked nbr then S.processNbrNodeInKNNSearch s nbr else s

def oneHopSearch (nbrs : List Nat) (s : SearchQueues D) : SearchQueues D :=
  nbrs.foldl S.processUnvisitedMasked s

def collectFirstHopNbrs (nbrs : List Nat) (s : SearchQueues D) : List Nat :=
  nbrs.filter (· ∉ s.visited)

/-- One neighbour of `collectFirstHopNbrsDirected`, with the candidates for the second hop and the
number of visited neighbours. -/
def collectDirected (t : SearchQueues D × List (NodeWithDistance D) × Int) (nbr : Nat) :
    SearchQueues D × List (NodeWithDistance D) × Int :=
  let (s, secondHop, numVisitedNbrs) := t
  if nbr ∉ s.visited && S.rows.recorded nbr then
    let secondHop := secondHop ++ [S.node nbr]
    if S.isMasked nbr &&
        (s.results.length < S.ef || S.improves s.results (S.query.metricFunc nbr)) then
      let results := if s.results.length = S.ef then S.ordering.popMax s.results else s.results
      ({ candidates := s.candidates ++ [S.node nbr]
         results := results ++ [S.node nbr]
         visited := nbr :: s.visited }, secondHop, numVisitedNbrs + 1)
    else (s, secondHop, numVisitedNbrs)
  else t

def collectFirstHopNbrsDirected (nbrs : List Nat) (s : SearchQueues D) :
    SearchQueues D × List (NodeWithDistance D) × Int :=
  nbrs.foldl S.collectDirected (s, [], 0)

def collectBlind (t : SearchQueues D × List Nat × Int) (nbr : Nat) :
    SearchQueues D × List Nat × Int :=
  let (s, secondHop, numVisitedNbrs) := t
  if nbr ∈ s.visited then t
  else if S.isMasked nbr then
    (S.processNbrNodeInKNNSearch s nbr, secondHop ++ [nbr], numVisitedNbrs + 1)
  else (s, secondHop ++ [nbr], numVisitedNbrs)

def collectFirstHopNbrsBlind (nbrs : List Nat) (s : SearchQueues D) :
    SearchQueues D × List Nat × Int :=
  nbrs.foldl S.collectBlind (s, [], 0)

/-- A chunk of neighbours; the loop breaks when `ml` neighbours have been visited. -/
def secondHopChunk : List Nat → SearchQueues D × Int → SearchQueues D × Int
  | [], t => t
  | nbr :: nbrs, (s, numVisitedNbrs) =>
    if nbr ∉ s.visited && S.isMasked nbr then
      let t := (S.processNbrNodeInKNNSearch s nbr, numVisitedNbrs + 1)
      if S.layers.ml ≤ numVisitedNbrs + 1 then t else secondHopChunk nbrs t
    else secondHopChunk nbrs (s, numVisitedNbrs)

def secondHopChunks : List (List Nat) → SearchQueues D × Int → Bool × SearchQueues D × Int
  | [], t => (true, t)
  | chunk :: chunks, t =>
    if S.layers.ml ≤ t.2 then (false, t) else secondHopChunks chunks (S.secondHopChunk chunk t)

def searchOverSecondHopNbrs (t : SearchQueues D × Int) (cand : Nat) : Bool × SearchQueues D × Int :=
  if S.layers.ml ≤ t.2 then (false, t)
  else if cand ∈ t.1.visited then (true, t)
  else S.secondHopChunks (S.layers.lowerGraph cand)
    ({ t.1 with visited := cand :: t.1.visited }, t.2)

def processSecondHopCandidates : List Nat → SearchQueues D × Int → SearchQueues D
  | [], t => t.1
  | cand :: cands, t =>
    match S.searchOverSecondHopNbrs t cand with
    | (false, t) => t.1
    | (true, t) => processSecondHopCandidates cands t

def directedTwoHopFilteredSearch (nbrs : List Nat) (s : SearchQueues D) : SearchQueues D :=
  let (s, secondHop, numVisitedNbrs) := S.collectFirstHopNbrsDirected nbrs s
  S.processSecondHopCandidates
    ((S.ordering.drainMin secondHop.length secondHop).map NodeWithDistance.nodeOffset)
    (s, numVisitedNbrs)

def blindTwoHopFilteredSearch (nbrs : List Nat) (s : SearchQueues D) : SearchQueues D :=
  let (s, secondHop, numVisitedNbrs) := S.collectFirstHopNbrsBlind nbrs s
  S.processSecondHopCandidates secondHop (s, numVisitedNbrs)

/-- The local selectivity is compared with 0.4; the estimated cost of a full two-hop search is 0.4
times the number of selected neighbours. -/
def navixFilteredSearch (nbrs : List Nat) (s : SearchQueues D) : SearchQueues D :=
  let firstHopNbrs := collectFirstHopNbrs nbrs s
  let filteredNbrs := firstHopNbrs.countP S.isMasked
  if firstHopNbrs = [] then s
  else if 2 * firstHopNbrs.length ≤ 5 * filteredNbrs then
    firstHopNbrs.foldl S.processUnvisitedMasked s
  else if 5 * (firstHopNbrs.length * 2 - filteredNbrs) <
      2 * (firstHopNbrs.length * filteredNbrs + filteredNbrs) then
    S.directedTwoHopFilteredSearch firstHopNbrs s
  else S.blindTwoHopFilteredSearch firstHopNbrs s

/-- A neighbour of the first or the second hop in `randomFilteredSearch`, with the masked neighbours
seen so far. -/
def randomNbr (t : SearchQueues D × List Nat) (nbr : Nat) : SearchQueues D × List Nat :=
  let seen := if S.isMasked nbr then t.2.insert nbr else t.2
  (S.processUnvisitedMasked t.1 nbr, seen)

def randomExplore (numFirstHopNbrs : Nat) : List Nat → SearchQueues D × List Nat → SearchQueues D
  | [], t => t.1
  | nbr :: nbrs, t =>
    if numFirstHopNbrs ≤ t.2.length then t.1
    else if nbr ∈ t.1.visited then randomExplore numFirstHopNbrs nbrs t
    else randomExplore numFirstHopNbrs nbrs ((S.layers.lowerGraph nbr).flatten.foldl S.randomNbr
        ({ t.1 with visited := nbr :: t.1.visited }, t.2))

def randomFilteredSearch (nbrs : List Nat) (s : SearchQueues D) : SearchQueues D :=
  let firstHopNbrs := collectFirstHopNbrs nbrs s
  S.randomExplore firstHopNbrs.length firstHopNbrs (firstHopNbrs.foldl S.randomNbr (s, []))

def getFilteredSearchType : SearchType :=
  match S.semiMask with
  | none => .unfiltered
  | some mask =>
    let bySelectivity : SearchType :=
      -- a quotient by zero is infinite or no number
      if S.rows.numTotalRows = 0 then .oneHopFiltered
      else
        let selectivity : ℚ := mask.getNumMaskedNodes / S.rows.numTotalRows
        if selectivity < S.query.blindSearchUpSelThreshold then .blindTwoHop
        else if selectivity < S.query.directedSearchUpSelThreshold then .directedTwoHop
        else .oneHopFiltered
    match S.query.searchType with
    | .auto => .navixFiltered
    | .navix => .navixFiltered
    | .adaptiveL => .navixFiltered
    | .blind => .blindTwoHop
    | .directed => .directedTwoHop
    | .oneHop => .oneHopFiltered
    | .random => .randomFiltered
    | .adaptiveG => bySelectivity
    | .naive => bySelectivity

def seed (s : SearchQueues D) (candidate : Nat) : SearchQueues D :=
  if candidate ∈ s.visited then s
  else if !S.rows.recorded candidate then { s with visited := candidate :: s.visited }
  else
    { candidates := s.candidates ++ [S.node candidate]
      results := s.results ++ [S.node candidate]
      visited := candidate :: s.visited }

def FILTERED_SEARCH_INITIAL_CANDIDATES : Nat := 10

/-- Every search type but the unfiltered one starts from some nodes of the mask. -/
def initSearchCandidates (s : SearchQueues D) : SearchQueues D :=
  match S.semiMask with
  | none => s
  | some mask =>
    (mask.collectMaskedNodes (FILTERED_SEARCH_INITIAL_CANDIDATES - s.results.length)).foldl S.seed s

def initQueues (entryNode : Nat) : SearchQueues D :=
  if S.rows.recorded entryNode then
    { candidates := [S.node entryNode]
      results := if S.isMasked entryNode then [S.node entryNode] else []
      visited := [entryNode] }
  -- the search goes on from a deleted entry node
  else { candidates := [⟨entryNode, ⊤⟩], results := [], visited := [entryNode] }

/-- The loop ends when the closest candidate does not improve `ef` results. -/
def hasCandidate (s : SearchQueues D) : Bool :=
  match S.ordering.topMin? s.candidates with
  | none => false
  | some c => !(S.ef ≤ s.results.length &&
      match S.ordering.topMax? s.results with
      | none => false
      | some top => top.distance < c.distance)

def expand (nbrs : List Nat) (s : SearchQueues D) : SearchQueues D :=
  match S.getFilteredSearchType with
  | .unfiltered => S.oneHopSearch nbrs s
  | .oneHopFiltered => S.oneHopSearch nbrs s
  | .directedTwoHop => S.directedTwoHopFilteredSearch nbrs s
  | .blindTwoHop => S.blindTwoHopFilteredSearch nbrs s
  | .navixFiltered => S.navixFilteredSearch nbrs s
  | .randomFiltered => S.randomFilteredSearch nbrs s

def searchRound (s : SearchQueues D) : Option (SearchQueues D) :=
  (S.ordering.topMin? s.candidates).map fun c =>
    S.expand (S.layers.lowerGraph c.nodeOffset).flatten
      { s with candidates := S.ordering.popMin s.candidates }

def popTopK (result : List (NodeWithDistance D)) (k : Nat) : List (NodeWithDistance D) :=
  (S.ordering.drainMax k (S.ordering.shrinkMax k result.length result)).reverse

def searchKNNInLayer (entryNode fuel : Nat) : Option (List (NodeWithDistance D)) :=
  (whileLoop S.hasCandidate S.searchRound fuel (S.initSearchCandidates (S.initQueues entryNode))).map
    fun s => S.popTopK s.results S.query.k

structure NearestState (D : Type) where
  currentNodeOffset : Nat
  minDist : D
  lastMinDist : D

def nearerNbr (t : NearestState D) (nbr : Nat) : NearestState D :=
  if S.rows.recorded nbr && S.query.metricFunc nbr < t.minDist then
    { t with currentNodeOffset := nbr, minDist := S.query.metricFunc nbr }
  else t

def nearestRound (t : NearestState D) : NearestState D :=
  (S.layers.upperGraph t.currentNodeOffset).flatten.foldl S.nearerNbr
    { t with lastMinDist := t.minDist }

def searchNNInUpperLayer (fuel : Nat) : Option (Option Nat) :=
  match S.layers.upperEntryPoint with
  | none => some none
  | some entry =>
    let minDist := if S.rows.recorded entry then S.query.metricFunc entry else 0
    (whileLoop (fun t : NearestState D ↦ t.minDist < t.lastMinDist) (fun t ↦ some (S.nearestRound t))
      fuel ⟨entry, minDist, ⊤⟩).map fun t => some t.currentNodeOffset

def isBruteForceSearch : Bool := S.query.useKnn || S.query.searchType = .naive

/-- The vector that the scan of the table reads. -/
def scanned (o : Nat) : Bool := if S.rows.exact then S.rows.live o else S.rows.recorded o

def scanDistance (o : Nat) : D :=
  if S.rows.exact then S.query.exactMetricFunc o else S.query.metricFunc o

/-- `offset` has 32 bits. -/
def searchBruteForce (fuel : Nat) : Option (List (NodeWithDistance D)) :=
  (forU32 S.rows.numTotalRows (fun offset result => some (
      if S.isMasked offset.toNat && S.scanned offset.toNat then
        result ++ [⟨offset.toNat, S.scanDistance offset.toNat⟩]
      else result))
    fuel []).map S.ordering.sort

def searchFromCheckpointed (fuel : Nat) : Option (List (NodeWithDistance D)) :=
  (S.searchNNInUpperLayer fuel).bind fun entryPoint =>
    match entryPoint.or S.layers.lowerEntryPoint with
    | none => some []
    | some entryPoint => S.searchKNNInLayer entryPoint fuel

def unCheckpointed : List Nat :=
  (List.range' S.numCheckpointedNodes (S.rows.numTotalRows - S.numCheckpointedNodes)).filter
    S.rows.recorded

def searchFromUnCheckpointed (result : List (NodeWithDistance D)) : List (NodeWithDistance D) :=
  if S.rows.numTotalRows = S.numCheckpointedNodes then result
  else S.ordering.sort (result ++ S.unCheckpointed.map S.node)

def exactRerankResults (result : List (NodeWithDistance D)) : List (NodeWithDistance D) :=
  S.ordering.sort (result.map fun n =>
    ⟨n.nodeOffset, if S.rows.live n.nodeOffset then S.query.exactMetricFunc n.nodeOffset else ⊤⟩)

def search (fuel : Nat) : Option (List (NodeWithDistance D)) :=
  if S.isBruteForceSearch then
    (S.searchBruteForce fuel).map (List.take S.query.k)
  else
    (S.searchFromCheckpointed fuel).bind fun result =>
      let result := S.searchFromUnCheckpointed result
      (if result.length < S.query.k then S.searchBruteForce fuel else some result).map fun result =>
        (if S.rows.exact then S.exactRerankResults result else result).take S.query.k

/-- Distinct eligible rows, the nearest first, at most `k` of them. -/
structure Answers (result : List (NodeWithDistance D)) : Prop where
  nodup : (result.map NodeWithDistance.nodeOffset).Nodup
  eligible : ∀ n ∈ result, S.Eligible n.nodeOffset
  sorted : result.Pairwise fun a b => a.distance ≤ b.distance
  length_le : result.length ≤ S.query.k

/-- The `k` nearest eligible rows, or all of them. -/
structure Nearest (result : List (NodeWithDistance D)) : Prop where
  distance : ∀ n ∈ result, n.distance = S.scanDistance n.nodeOffset
  nearer : ∀ o, S.Eligible o → o ∉ result.map NodeWithDistance.nodeOffset →
    S.query.k ≤ result.length ∧ ∀ n ∈ result, n.distance ≤ S.scanDistance o

def Correct : Prop :=
  ∃ result, Halts S.search result ∧ S.Answers result ∧ (S.isBruteForceSearch = true → S.Nearest result)

end HNSWSearch

end Ladybug.Vector
