import Ladybug.Base.KeyedMaps
import Ladybug.Fts.FtsTerms

/-!
# Querying the full text search index (`query_fts_index.cpp`)

The words of the query are looked up in the table `terms`, the edges of the terms that are found lead
to their documents, and a document is scored when enough of the words are covered.  The scores are
doubles and not part of the model; neither are the parameters `k`, `b` and `top`, which only change
them and what is done with them.
-/

namespace Ladybug.Fts

/-- The pattern for queries differs from the one for documents by default. -/
structure QueryConfig (A : Type) extends FtsConfig A where
  ignorePatternQuery : String

structure FtsQuery where
  query : Text
  conjunctive : Bool

structure QueryLibrary (A : Type) extends TextLibrary A where
  fullMatch : Text → Text → Bool

section

variable {A : Type} (lib : QueryLibrary A) (config : QueryConfig A) (q : FtsQuery)

def queryWords : List Text :=
  tokenizeString lib.toTextLibrary config.toFtsConfig
    (normalizeQuery lib.toTextLibrary config.ignorePatternQuery q.query true)

def getQueryTerms : List Text :=
  stemTerms lib.toTextLibrary config.toFtsConfig (queryWords lib config q) q.conjunctive true

/-- The first occurrence of every term. -/
def getUniqueTerms (terms : List Text) : List Text :=
  terms.foldl (fun seen term => if term ∈ seen then seen else seen ++ [term]) []

end

structure MatchedTerm where
  df : Nat
  queryTermIdxs : List Nat

abbrev MatchedTerms := AList fun _ : Nat => MatchedTerm

inductive VCQueryTerm where
  | string (term : Text)
  | pattern (re : Text)

def replaceByte (c : UInt8) (replacement text : Text) : Text :=
  text.flatMap fun b => if b = c then replacement else [b]

/-- `RE2::GlobalReplace` with `\*` and `.*`, and then with `\?` and `.`. -/
def wildcardRegex (term : Text) : Text :=
  replaceByte '?'.toNat.toUInt8 (ascii ".") (replaceByte '*'.toNat.toUInt8 (ascii ".*") term)

def vcQueryTerm (term : Text) : VCQueryTerm :=
  if hasWildcardPattern term then .pattern (wildcardRegex term) else .string term

structure Scan {K : Type} (t : KeyedTable K) where
  chunks : List (List K)
  mem_chunks : ∀ k, k ∈ chunks.flatten ↔ (t.row k).isSome

/-- The threads of a computation change a map under a lock, one visit after the other. -/
structure Interleaving where
  order : (α : Type) → List α → List α
  perm : ∀ (α : Type) (xs : List α), (order α xs).Perm xs

structure TermVisit where
  offset : Nat
  df : Nat
  idx : Nat

def addTerm (matchedTerm : Option MatchedTerm) (v : TermVisit) : MatchedTerm where
  df := v.df
  queryTermIdxs := (matchedTerm.map MatchedTerm.queryTermIdxs).getD [] ++ [v.idx]

def rowsOf {K : Type} (t : KeyedTable K) (keys : List K) : List (K × Nat × Nat) :=
  keys.filterMap fun k => (t.row k).map fun r => (k, r)

section

variable {A : Type} (lib : QueryLibrary A) (x : FtsIndex Text)

def VCQueryTerm.matches : VCQueryTerm → Text → Bool
  | .string term, t => decide (term = t)
  | .pattern re, t => lib.fullMatch t re

def matchTermsVertexCompute (queryTerms : List VCQueryTerm) (chunk : List (Text × Nat × Nat)) :
    List TermVisit :=
  queryTerms.zipIdx.flatMap fun q =>
    (chunk.filter fun r => q.1.matches lib r.1).map fun r => ⟨r.2.1, r.2.2, q.2⟩

/-- The table is scanned. -/
def scanTerms (scan : Scan x.terms) (il : Interleaving) (queryTerms : List Text) : MatchedTerms :=
  gather addTerm TermVisit.offset (il.order _ (scan.chunks.flatMap fun chunk =>
    matchTermsVertexCompute lib (queryTerms.map vcQueryTerm) (rowsOf x.terms chunk)))

/-- Every query term is looked up by the primary key. -/
def lookupTerms (queryTerms : List Text) : MatchedTerms :=
  gather addTerm TermVisit.offset (queryTerms.zipIdx.filterMap fun q =>
    (x.terms.row q.1).map fun r => ⟨r.1, r.2, q.2⟩)

def getMatchedTerms (scan : Scan x.terms) (il : Interleaving) (queryTerms : List Text) : MatchedTerms :=
  if queryTerms.any hasWildcardPattern then scanTerms lib x scan il queryTerms
  else lookupTerms x queryTerms

end

structure ScoreData where
  term : MatchedTerm
  tf : Nat

/-- `ScoreInfo` under the offsets of the documents in their table. -/
abbrev Scores := AList fun _ : Nat => List ScoreData

structure DocVisit where
  docNode : Nat
  data : ScoreData

def addEdge (scoreInfo : Option (List ScoreData)) (v : DocVisit) : List ScoreData :=
  scoreInfo.getD [] ++ [v.data]

section

variable (x : FtsIndex Text)

def edgeCompute (terms : MatchedTerms) (boundNode : Nat) : List DocVisit :=
  match terms.lookup boundNode with
  | none => []
  | some term => (x.appearsIn.filter fun e => e.term = boundNode).map fun e => ⟨e.doc, ⟨term, e.tf⟩⟩

def runFTSEdgeCompute (il : Interleaving) (terms : MatchedTerms) : Scores :=
  gather addEdge DocVisit.docNode (il.order _ (terms.keys.flatMap (edgeCompute x terms)))

/-- `std::fill(.., false)`, then every place that a term of the document covers. -/
def coveredQueryTerms (numQueryTerms : Nat) (scoreInfo : List ScoreData) : List Bool :=
  scoreInfo.foldl (fun covered data =>
    data.term.queryTermIdxs.foldl (fun covered idx => covered.set idx true) covered)
    (List.replicate numQueryTerms false)

def write (scores : Scores) (numQueryTerms : Nat) (conjunctive : Bool) (docNode docsID : Nat) :
    Option Nat :=
  match scores.lookup docNode with
  | none => none
  | some scoreInfo =>
    if conjunctive && (coveredQueryTerms numQueryTerms scoreInfo).contains false then none
    else some docsID

/-- The rows that are scored; a scan is made when there are many of them.  The threshold is computed
with doubles from the number of documents. -/
def scoredDocs (docsScan : Scan x.docs) (il : Interleaving) (getSparseFrontierSize : Nat → Nat)
    (terms : MatchedTerms) (numQueryTerms : Nat) (conjunctive : Bool) : List Nat :=
  let scores := runFTSEdgeCompute x il terms
  let vertexCompute (chunk : List (Nat × Nat × Nat)) : List Nat :=
    chunk.filterMap fun r => write scores numQueryTerms conjunctive r.2.1 r.1
  if scores.keys.length < getSparseFrontierSize x.docs.numTotalRows then
    scores.keys.flatMap fun docNode =>
      vertexCompute ((rowsOf x.docs docsScan.chunks.flatten).filter fun r => r.2.1 = docNode)
  else docsScan.chunks.flatMap fun chunk => vertexCompute (rowsOf x.docs chunk)

end

structure QueryRun where
  index : FtsIndex Text
  termsScan : Scan index.terms
  docsScan : Scan index.docs
  il : Interleaving
  getSparseFrontierSize : Nat → Nat

/-- `tableFunc` -/
def queryFts {A : Type} (lib : QueryLibrary A) (config : QueryConfig A) (q : FtsQuery) (r : QueryRun) :
    List Nat :=
  let queryTerms := getUniqueTerms (getQueryTerms lib config q)
  scoredDocs r.index r.docsScan r.il r.getSparseFrontierSize
    (getMatchedTerms lib r.index r.termsScan r.il queryTerms) queryTerms.length q.conjunctive

end Ladybug.Fts
