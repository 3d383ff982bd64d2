import Ladybug.Gql.SourceText

/-!
# Cuts by characters and cuts by bytes (`gql/src/gql_transformer.cpp`)

The indices of the tokens count characters, and the transformer cuts the bytes of the query at them.
When that gives the text of a rule, and when the splices replace what they are meant to.
-/

namespace Ladybug.GqlText

open TextSpans List

/-! ## 1. The loops -/

variable {base hi a b : Nat} {spans : List Splice}

theorem foldr_replaceSpan {out : Bytes} (hlen : out.length = hi - base) (hbase : base ≤ a)
    (h : InOrder a spans hi) :
    spans.foldr (fun s out => replaceSpan base out s) out =
      out.take (a - base) ++ pieces (fun x y => slice out (x - base) (y - base)) a spans hi := by
  induction spans generalizing a with
  | nil =>
    have hle : a ≤ hi := h
    show out = out.take (a - base) ++ slice out (a - base) (hi - base)
    rw [take_slice (by omega), ← hlen, take_length]
  | cons s spans ih =>
    have hstart := h.1
    have hstop := h.2.1
    have hle := h.2.2.le
    rw [foldr_cons, ih (by omega) h.2.2]
    have hinside : ∀ tail : Bytes, ¬(s.start < base ∨ s.stop < s.start ∨
        (out.take (s.stop + 1 - base) ++ tail).length ≤ s.stop - base) := by
      intro tail
      rw [length_append, length_take]
      omega
    unfold replaceSpan
    rw [if_neg (hinside _)]
    have hfront : out.take (s.start - base) =
        out.take (a - base) ++ slice out (a - base) (s.start - base) :=
      (take_slice (by omega)).symm
    have hcut : s.start - base + (s.stop - s.start + 1) = (out.take (s.stop + 1 - base)).length := by
      rw [length_take]
      omega
    rw [hcut, drop_left, take_append_of_le_length (by rw [length_take]; omega),
      take_take, Nat.min_eq_left (by omega), hfront]
    simp only [pieces, append_assoc]

theorem spliceForward_eq {text : Bytes} (hlen : text.length = hi - base) (hbase : base ≤ a)
    (h : InOrder a spans hi) :
    spliceForward text base (a - base) spans =
      pieces (fun x y => slice text (x - base) (y - base)) a spans hi := by
  induction spans generalizing a with
  | nil =>
    show text.drop (a - base) = slice text (a - base) (hi - base)
    unfold slice
    rw [← hlen, ← length_drop, take_length]
  | cons s spans ih =>
    have hstart := h.1
    have hstop := h.2.1
    have hrest := ih (by omega) h.2.2
    rw [show s.stop + 1 - base = s.stop - base + 1 by omega] at hrest
    unfold spliceForward
    rw [hrest]
    rfl

theorem mergeSort_descending {entries : List Splice} (hperm : entries.Perm spans)
    (h : spans.Pairwise fun s t => s.start < t.start) :
    (entries.mergeSort fun a b => decide (b.start ≤ a.start)) = spans.reverse := by
  have hsorted : (entries.mergeSort fun a b => decide (b.start ≤ a.start)).Pairwise
      fun a b => decide (b.start ≤ a.start) = true := by
    apply pairwise_mergeSort
    · intro a b c hab hbc
      simp only [decide_eq_true_eq] at hab hbc ⊢
      omega
    · intro a b
      simp only [Bool.or_eq_true, decide_eq_true_eq]
      omega
  have hreverse : spans.reverse.Pairwise fun a b => decide (b.start ≤ a.start) = true := by
    rw [pairwise_reverse]
    apply h.imp
    intro a b hab
    exact decide_eq_true (Nat.le_of_lt hab)
  refine List.Perm.eq_of_pairwise ?_ hsorted hreverse
    (((mergeSort_perm entries _).trans hperm).trans (reverse_perm spans).symm)
  intro a b ha hb hab hba
  -- no two spans begin at one place
  by_contra hne
  have hdistinct : spans.Pairwise fun s t => s.start ≠ t.start := h.imp Nat.ne_of_lt
  have hsymm : Std.Symm fun s t : Splice => s.start ≠ t.start := ⟨fun _ _ hst => hst.symm⟩
  refine hdistinct.forall (hperm.mem_iff.mp (mem_mergeSort.mp ha)) (mem_reverse.mp hb) hne ?_
  exact Nat.le_antisymm (of_decide_eq_true hba) (of_decide_eq_true hab)

/-! ## 2. Spans of a tree -/

/-- Tokens one after another, from `a` up to, but not including, `b`. -/
def Between (a b : Nat) (tokens : List Token) : Prop :=
  tokens.Pairwise (fun s t => s.stopIndex < t.startIndex) ∧
    ∀ t ∈ tokens, a ≤ t.startIndex ∧ t.startIndex ≤ t.stopIndex ∧ t.stopIndex < b

mutual

/-- What the grammar makes sure of: no rule that is spliced is empty, and `isOrColon` is one token. -/
def Grammatical : ParseTree → Prop
  | .token _ => True
  | .rule kind children =>
    (match kind with
      | .other => True
      | .isOrColon _ => ∃ t, children = [.token t]
      | _ => ParseTree.tokensOf children ≠ []) ∧ GrammaticalOf children

def GrammaticalOf : List ParseTree → Prop
  | [] => True
  | child :: children => Grammatical child ∧ GrammaticalOf children

end

variable {node : ParseTree}

theorem Between.nodes (h : Between a b node.tokens) (hne : node.tokens ≠ []) :
    a ≤ node.startIndex ∧ node.startIndex ≤ node.stopIndex ∧ node.stopIndex + 1 ≤ b := by
  unfold ParseTree.startIndex ParseTree.stopIndex
  cases htokens : node.tokens with
  | nil => exact absurd htokens hne
  | cons first rest =>
    rw [htokens] at h
    have hfirst := h.2 first mem_cons_self
    rcases eq_nil_or_concat' rest with hrest | ⟨front, last, hrest⟩
    · rw [hrest]
      show a ≤ first.startIndex ∧ first.startIndex ≤ first.stopIndex ∧ first.stopIndex + 1 ≤ b
      omega
    · have hmem : last ∈ first :: rest := by
        rw [hrest]
        simp
      have hlast := h.2 last hmem
      have horder := (pairwise_cons.mp h.1).1 last (by rw [hrest]; simp)
      have hget : (first :: rest).getLast? = some last := by
        rw [hrest, ← cons_append, getLast?_concat]
      rw [hget]
      show a ≤ first.startIndex ∧ first.startIndex ≤ last.stopIndex ∧ last.stopIndex + 1 ≤ b
      omega

theorem Between.narrow (h : Between a b node.tokens) (hne : node.tokens ≠ []) :
    Between node.startIndex (node.stopIndex + 1) node.tokens := by
  refine ⟨h.1, fun t ht => ⟨?_, (h.2 t ht).2.1, ?_⟩⟩
  · unfold ParseTree.startIndex
    cases htokens : node.tokens with
    | nil => exact absurd htokens hne
    | cons first rest =>
      rw [htokens] at ht h
      show first.startIndex ≤ t.startIndex
      rcases mem_cons.mp ht with ht | ht
      · rw [ht]
      · have horder := (pairwise_cons.mp h.1).1 t ht
        have hfirst := h.2 first mem_cons_self
        omega
  · unfold ParseTree.stopIndex
    rcases eq_nil_or_concat' node.tokens with hnil | ⟨front, last, hconcat⟩
    · exact absurd hnil hne
    · rw [hconcat] at ht h ⊢
      rw [getLast?_concat]
      show t.stopIndex < last.stopIndex + 1
      rcases mem_append.mp ht with ht | ht
      · have horder := (pairwise_append.mp h.1).2.2 t ht last (mem_singleton.mpr rfl)
        have hlast := h.2 last (by simp)
        omega
      · rw [mem_singleton.mp ht]
        omega

theorem exists_start (h : node.tokens ≠ []) :
    ∃ t ∈ node.tokens, t.startIndex = node.startIndex := by
  unfold ParseTree.startIndex
  cases htokens : node.tokens with
  | nil => exact absurd htokens h
  | cons first rest => exact ⟨first, mem_cons_self, rfl⟩

theorem Between.split {xs ys : List Token} (h : Between a b (xs ++ ys)) (hab : a ≤ b) :
    ∃ m, a ≤ m ∧ m ≤ b ∧ Between a m xs ∧ Between m b ys := by
  rcases pairwise_append.mp h.1 with ⟨hxs, hys, hcross⟩
  rcases eq_nil_or_concat' xs with hnil | ⟨front, last, hconcat⟩
  · refine ⟨a, Nat.le_refl a, hab, ⟨hxs, fun t ht => ?_⟩, hys, fun t ht => ?_⟩
    · rw [hnil] at ht
      exact absurd ht not_mem_nil
    · exact h.2 t (mem_append_right xs ht)
  · have hlast : last ∈ xs := by
      rw [hconcat]
      simp
    have hbounds := h.2 last (mem_append_left ys hlast)
    refine ⟨last.stopIndex + 1, by omega, by omega, ⟨hxs, fun t ht => ?_⟩, hys, fun t ht => ?_⟩
    · have ht' := h.2 t (mem_append_left ys ht)
      rw [hconcat] at ht hxs
      rcases mem_append.mp ht with hfront | hend
      · have := (pairwise_append.mp hxs).2.2 t hfront last (mem_singleton.mpr rfl)
        omega
      · rw [mem_singleton.mp hend]
        omega
    · have ht' := h.2 t (mem_append_right xs ht)
      have := hcross last hlast t ht
      exact ⟨by omega, ht'.2.1, ht'.2.2⟩

def nodeSplice (emitted : ParseTree → Bytes) (node : ParseTree) : Splice :=
  ⟨node.startIndex, node.stopIndex, emitted node⟩

theorem tokens_of_target {anyGraph collectLists : Bool} (h : Grammatical node)
    (htarget : isTarget anyGraph collectLists node.kind = true) : node.tokens ≠ [] := by
  cases node with
  | token t => cases htarget
  | rule kind children =>
    have htarget' : isTarget anyGraph collectLists kind = true := htarget
    cases kind with
    | comparisonExprAlt | labeledPredicate | listValueConstructorByEnumeration => exact h.1
    | aggregateFunction | isOrColon | labelSetSpecification | other => cases htarget'

mutual

theorem collected_inOrder (anyGraph collectLists : Bool) (emitted : ParseTree → Bytes)
    (node : ParseTree) {a b : Nat} (hab : a ≤ b) (h : Between a b node.tokens)
    (hgrammar : Grammatical node) :
    InOrder a ((collectTopRewrites anyGraph collectLists node).map (nodeSplice emitted)) b := by
  cases node with
  | token t => exact hab
  | rule kind children =>
    exact collectedOf_inOrder anyGraph collectLists emitted children hab h hgrammar.2

theorem collectedOf_inOrder (anyGraph collectLists : Bool) (emitted : ParseTree → Bytes)
    (children : List ParseTree) {a b : Nat} (hab : a ≤ b)
    (h : Between a b (ParseTree.tokensOf children)) (hgrammar : GrammaticalOf children) :
    InOrder a ((collectTopRewritesOf anyGraph collectLists children).map (nodeSplice emitted)) b := by
  cases children with
  | nil => exact hab
  | cons child children =>
    rcases h.split hab with ⟨m, ham, hmb, hchild, hrest⟩
    have htail := collectedOf_inOrder anyGraph collectLists emitted children hmb hrest hgrammar.2
    unfold collectTopRewritesOf
    rw [map_append]
    refine InOrder.append ?_ htail
    split
    · rename_i htarget
      have hbounds := hchild.nodes (tokens_of_target hgrammar.1 htarget)
      exact ⟨hbounds.1, hbounds.2.1, hbounds.2.2⟩
    · split
      · exact ham
      · exact collected_inOrder anyGraph collectLists emitted child ham hchild hgrammar.1

end

theorem tokens_of_labelSet {names : Nat} (h : Grammatical node)
    (hkind : node.kind = .labelSetSpecification names) : node.tokens ≠ [] := by
  cases node with
  | token t => cases hkind
  | rule kind children =>
    have hkind' : kind = .labelSetSpecification names := hkind
    rw [hkind'] at h
    exact h.1

theorem tokens_of_isOrColon {is : Bool} (h : Grammatical node) (hkind : node.kind = .isOrColon is) :
    ∃ kind t, node = .rule kind [.token t] := by
  cases node with
  | token t => cases hkind
  | rule kind children =>
    have hkind' : kind = .isOrColon is := hkind
    rw [hkind'] at h
    rcases h.1 with ⟨t, ht⟩
    exact ⟨kind, t, by rw [ht]⟩

mutual

theorem labels_inOrder (joined : ParseTree → Bytes) (node : ParseTree) {a b : Nat} (hab : a ≤ b)
    (h : Between a b node.tokens) (hgrammar : Grammatical node) :
    InOrder a (labelSplices joined node) b := by
  cases node with
  | token t => exact hab
  | rule kind children =>
    exact labelsOf_inOrder joined none children hab h hgrammar.2 (fun s hs => nomatch hs)

theorem labelsOf_inOrder (joined : ParseTree → Bytes) (is : Option Nat) (children : List ParseTree)
    {a b : Nat} (hab : a ≤ b) (h : Between a b (ParseTree.tokensOf children))
    (hgrammar : GrammaticalOf children)
    (his : ∀ s, is = some s → a ≤ s ∧ ∀ t ∈ ParseTree.tokensOf children, s ≤ t.startIndex) :
    InOrder a (labelSplicesOf joined is children) b := by
  cases children with
  | nil => exact hab
  | cons child children =>
    by_cases hioc : child.kind = .isOrColon true
    · -- the child is one token, where the span of the next label set begins
      rcases tokens_of_isOrColon hgrammar.1 hioc with ⟨kind, t, htoken⟩
      have hkind : kind = .isOrColon true := by
        rw [htoken] at hioc
        exact hioc
      have htokens : ParseTree.tokensOf (child :: children) = t :: ParseTree.tokensOf children := by
        rw [htoken]
        rfl
      rw [htokens] at h
      have hfirst := h.2 t mem_cons_self
      have hrest : Between a b (ParseTree.tokensOf children) :=
        ⟨(pairwise_cons.mp h.1).2, fun t' ht' => h.2 t' (mem_cons_of_mem t ht')⟩
      have htail := labelsOf_inOrder joined (some t.startIndex) children hab hrest hgrammar.2
        (fun s hs => by
          rw [← Option.some.inj hs]
          refine ⟨hfirst.1, fun t' ht' => ?_⟩
          have := (pairwise_cons.mp h.1).1 t' ht'
          omega)
      rw [htoken, hkind]
      exact htail
    · rcases h.split hab with ⟨m, ham, hmb, hchild, hrest⟩
      have htail := labelsOf_inOrder joined none children hmb hrest hgrammar.2
        (fun s hs => nomatch hs)
      unfold labelSplicesOf
      rw [if_neg hioc]
      refine InOrder.append ?_ htail
      split
      · rename_i names hkind
        have hbounds := hchild.nodes (tokens_of_labelSet hgrammar.1 hkind)
        split
        · cases is with
          | none => exact ⟨hbounds.1, hbounds.2.1, hbounds.2.2⟩
          | some s =>
            have hs := his s rfl
            have hle : s ≤ child.startIndex := by
              rcases exists_start (tokens_of_labelSet hgrammar.1 hkind) with ⟨t, ht, hstart⟩
              rw [← hstart]
              exact hs.2 t (mem_append_left _ ht)
            exact ⟨hs.1, Nat.le_trans hle hbounds.2.1, hbounds.2.2⟩
        · exact ham
      · exact labels_inOrder joined child ham hchild hgrammar.1

end

/-! ## 3. The cuts of the transformer -/

structure ParsedRule (cs : List Char) where
  tree : ParseTree
  ordered : Between 0 cs.length tree.tokens
  grammatical : Grammatical tree
  nonEmpty : tree.tokens ≠ []

section

variable {cs : List Char} (rule : ParsedRule cs)

/-- The first character of a rule, and the end of its last one. -/
def ParsedRule.start : Nat := rule.tree.startIndex

def ParsedRule.stop : Nat := rule.tree.stopIndex + 1

theorem ParsedRule.bounds : rule.start < rule.stop ∧ rule.stop ≤ cs.length := by
  have h := rule.ordered.nodes rule.nonEmpty
  unfold ParsedRule.start ParsedRule.stop
  omega

def charText (cs : List Char) (a b : Nat) : Bytes := utf8 (slice cs a b)

theorem substr_eq (query : Bytes) (node : ParseTree) (h : node.startIndex ≤ node.stopIndex) :
    substr query node.startIndex (node.stopIndex - node.startIndex + 1) =
      slice query node.startIndex (node.stopIndex + 1) := by
  unfold substr slice
  rw [show node.stopIndex + 1 - node.startIndex = node.stopIndex - node.startIndex + 1 by omega]

theorem exprText_eq : exprText (utf8 cs) rule.tree = slice (utf8 cs) rule.start rule.stop := by
  have hbounds := rule.ordered.nodes rule.nonEmpty
  exact substr_eq (utf8 cs) rule.tree hbounds.2.1

theorem sourceText_eq : sourceText (utf8 cs) rule.tree = slice (utf8 cs) rule.start rule.stop := by
  have hbounds := rule.bounds
  have hlen := length_le_utf8 cs
  unfold ParsedRule.start ParsedRule.stop at hbounds
  unfold sourceText spanText
  rw [if_neg (by rw [List.isEmpty_iff]; exact rule.nonEmpty)]
  rw [if_neg (by omega)]
  exact exprText_eq rule

variable {spans : List Splice}

theorem pieces_slice (h : InOrder rule.start spans rule.stop) :
    pieces (fun x y => slice (slice (utf8 cs) rule.start rule.stop) (x - rule.start)
        (y - rule.start)) rule.start spans rule.stop =
      pieces (slice (utf8 cs)) rule.start spans rule.stop := by
  apply pieces_congr
  intro gap hgap
  have hbounds := h.gap_le gap hgap
  exact slice_slice hbounds.1 hbounds.2.2

theorem length_ruleText : (slice (utf8 cs) rule.start rule.stop).length = rule.stop - rule.start :=
  length_slice (rule.bounds.2.trans (length_le_utf8 cs))

theorem spliceEntries_perm (collected : List ParseTree) :
    (spliceEntries collected).Perm collected := by
  unfold spliceEntries
  have hlabeled : collected.filter isLabeled =
      (collected.filter fun node => !isComparison node).filter isLabeled := by
    rw [filter_filter]
    apply filter_congr
    intro node _
    unfold isLabeled isComparison
    cases node.kind <;> rfl
  have hrest : (collected.filter fun node => !isComparison node && !isLabeled node) =
      (collected.filter fun node => !isComparison node).filter fun node => !isLabeled node := by
    rw [filter_filter]
    apply filter_congr
    intro node _
    exact Bool.and_comm _ _
  rw [hlabeled, hrest, append_assoc]
  exact ((filter_append_perm isLabeled _).append_left _).trans
    (filter_append_perm isComparison collected)

/-- The spans that `emitRewrittenExpr` replaces. -/
def rewrittenSpans (anyGraph collectLists : Bool) (emitted : ParseTree → Bytes) (tree : ParseTree) :
    List Splice :=
  (collectTopRewrites anyGraph collectLists tree).map (nodeSplice emitted)

theorem rewrittenSpans_inOrder (anyGraph collectLists : Bool) (emitted : ParseTree → Bytes) :
    InOrder rule.start (rewrittenSpans anyGraph collectLists emitted rule.tree) rule.stop := by
  apply collected_inOrder anyGraph collectLists emitted rule.tree (Nat.le_of_lt rule.bounds.1)
  · exact rule.ordered.narrow rule.nonEmpty
  · exact rule.grammatical

theorem emitRewrittenExpr_eq {anyGraph collectLists : Bool} {emitted : ParseTree → Bytes}
    (htarget : isTarget anyGraph collectLists rule.tree.kind = false) :
    emitRewrittenExpr (utf8 cs) anyGraph collectLists emitted rule.tree =
      pieces (slice (utf8 cs)) rule.start (rewrittenSpans anyGraph collectLists emitted rule.tree)
        rule.stop := by
  have horder := rewrittenSpans_inOrder rule anyGraph collectLists emitted
  unfold emitRewrittenExpr
  rw [if_neg (by rw [htarget]; exact Bool.false_ne_true)]
  simp only
  unfold rewrittenSpans at horder ⊢
  split
  · rename_i hnone
    rw [List.isEmpty_iff.mp hnone, sourceText_eq]
    rfl
  · rw [sourceText_eq]
    split
    · rename_i hempty
      have hlen := length_ruleText rule
      rw [List.isEmpty_iff.mp hempty] at hlen
      have hbounds := rule.bounds
      rw [length_nil] at hlen
      omega
    · have hperm := (spliceEntries_perm (collectTopRewrites anyGraph collectLists rule.tree)).map
        (nodeSplice emitted)
      rw [show ((spliceEntries (collectTopRewrites anyGraph collectLists rule.tree)).map fun node =>
        (⟨node.startIndex, node.stopIndex, emitted node⟩ : Splice)) =
          (spliceEntries (collectTopRewrites anyGraph collectLists rule.tree)).map
            (nodeSplice emitted) from rfl]
      rw [mergeSort_descending hperm horder.start_lt.2, foldl_reverse]
      have hloop := foldr_replaceSpan (length_ruleText rule) (Nat.le_refl rule.start) horder
      rw [pieces_slice rule horder, Nat.sub_self, take_zero, nil_append] at hloop
      exact hloop

theorem insertText_eq (joined : ParseTree → Bytes) : insertText (utf8 cs) joined rule.tree =
      pieces (slice (utf8 cs)) rule.start (labelSplices joined rule.tree) rule.stop := by
  have horder : InOrder rule.start (labelSplices joined rule.tree) rule.stop :=
    labels_inOrder joined rule.tree (Nat.le_of_lt rule.bounds.1)
      (rule.ordered.narrow rule.nonEmpty) rule.grammatical
  unfold insertText
  simp only
  split
  · rename_i hnone
    rw [List.isEmpty_iff.mp hnone, sourceText_eq]
    rfl
  · rw [sourceText_eq]
    have hsorted : (labelSplices joined rule.tree).Pairwise
        fun a b => decide (a.start ≤ b.start) = true := by
      apply horder.start_lt.2.imp
      intro a b hab
      exact decide_eq_true (Nat.le_of_lt hab)
    have hloop := spliceForward_eq (length_ruleText rule) (Nat.le_refl rule.start) horder
    rw [pieces_slice rule horder, Nat.sub_self] at hloop
    rw [mergeSort_of_pairwise hsorted]
    exact hloop

/-! ## 4. Which cuts are right -/

theorem rewrittenSpans_span (anyGraph collectLists : Bool) (emitted emitted' : ParseTree → Bytes)
    (tree : ParseTree) :
    (rewrittenSpans anyGraph collectLists emitted tree).map Splice.span =
      (rewrittenSpans anyGraph collectLists emitted' tree).map Splice.span := by
  unfold rewrittenSpans
  rw [map_map, map_map]
  rfl

mutual

theorem labelSplices_span (joined joined' : ParseTree → Bytes) (tree : ParseTree) :
    (labelSplices joined tree).map Splice.span = (labelSplices joined' tree).map Splice.span := by
  cases tree with
  | token t => rfl
  | rule kind children => exact labelSplicesOf_span joined joined' none children

theorem labelSplicesOf_span (joined joined' : ParseTree → Bytes) (is : Option Nat)
    (children : List ParseTree) :
    (labelSplicesOf joined is children).map Splice.span =
      (labelSplicesOf joined' is children).map Splice.span := by
  cases children with
  | nil => rfl
  | cons child children =>
    unfold labelSplicesOf
    rw [map_append, map_append, labelSplicesOf_span joined joined' _ children]
    congr 1
    split
    · split
      · cases is with
        | none | some => rfl
      · rfl
    · exact labelSplices_span joined joined' child

end

mutual

theorem labelSplices_marked (tree : ParseTree) :
    ∀ s ∈ labelSplices (fun _ => [noByte]) tree, Marked s := by
  cases tree with
  | token t => exact fun s hs => absurd hs not_mem_nil
  | rule kind children => exact labelSplicesOf_marked none children

theorem labelSplicesOf_marked (is : Option Nat) (children : List ParseTree) :
    ∀ s ∈ labelSplicesOf (fun _ => [noByte]) is children, Marked s := by
  cases children with
  | nil => exact fun s hs => absurd hs not_mem_nil
  | cons child children =>
    intro s hs
    rcases mem_append.mp hs with hs | hs
    · split at hs
      · split at hs
        · cases is with
          | none =>
            rw [mem_singleton.mp hs]
            exact ⟨[], not_mem_nil, rfl⟩
          | some start =>
            rw [mem_singleton.mp hs]
            exact ⟨Markup.ascii ":", by decide, rfl⟩
        · exact absurd hs not_mem_nil
      · exact labelSplices_marked child s hs
    · exact labelSplicesOf_marked _ children s hs

end

/-- `emitRewrittenExpr` by characters. -/
def rewrittenText (anyGraph collectLists : Bool) (emitted : ParseTree → Bytes) : Bytes :=
  if isTarget anyGraph collectLists rule.tree.kind then emitted rule.tree
  else pieces (charText cs) rule.start (rewrittenSpans anyGraph collectLists emitted rule.tree)
    rule.stop

def insertedText (joined : ParseTree → Bytes) : Bytes :=
  pieces (charText cs) rule.start (labelSplices joined rule.tree) rule.stop

structure SpansCut : Prop where
  source : sourceText (utf8 cs) rule.tree = charText cs rule.start rule.stop ↔
    Kept cs rule.start rule.stop
  ctx : ctxText (utf8 cs) rule.tree = charText cs rule.start rule.stop ↔
    Kept cs rule.start rule.stop
  grouping : exprText (utf8 cs) rule.tree = charText cs rule.start rule.stop ↔
    Kept cs rule.start rule.stop
  spliced : ∀ anyGraph collectLists,
    (∀ emitted, emitRewrittenExpr (utf8 cs) anyGraph collectLists emitted rule.tree =
      rewrittenText rule anyGraph collectLists emitted) ↔
    isTarget anyGraph collectLists rule.tree.kind = true ∨ ∀ gap ∈ gaps rule.start
        (rewrittenSpans anyGraph collectLists (fun _ => []) rule.tree) rule.stop,
        Kept cs gap.1 gap.2
  inserted : (∀ joined, insertText (utf8 cs) joined rule.tree = insertedText rule joined) ↔
    ∀ gap ∈ gaps rule.start (labelSplices (fun _ => []) rule.tree) rule.stop, Kept cs gap.1 gap.2

theorem noByte_not_mem_slice (cs : List Char) (x y : Nat) : noByte ∉ slice (utf8 cs) x y := by
  intro h
  exact noByte_not_mem_utf8 cs (mem_of_mem_drop (mem_of_mem_take h))

theorem pieces_iff (horder : InOrder rule.start spans rule.stop) (hmarked : ∀ s ∈ spans, Marked s) :
    pieces (slice (utf8 cs)) rule.start spans rule.stop =
        pieces (charText cs) rule.start spans rule.stop ↔
      ∀ gap ∈ gaps rule.start spans rule.stop, Kept cs gap.1 gap.2 := by
  have hchars : ∀ x y, noByte ∉ charText cs x y := fun x y => noByte_not_mem_utf8 _
  rw [pieces_eq_iff (noByte_not_mem_slice cs) hchars hmarked]
  have hgap : ∀ gap ∈ gaps rule.start spans rule.stop,
      (slice (utf8 cs) gap.1 gap.2 = charText cs gap.1 gap.2 ↔ Kept cs gap.1 gap.2) := by
    intro gap hgap
    have hbounds := horder.gap_le gap hgap
    exact slice_utf8_iff hbounds.2.1 (hbounds.2.2.trans rule.bounds.2)
  exact ⟨fun h gap hmem => (hgap gap hmem).mp (h gap hmem),
    fun h gap hmem => (hgap gap hmem).mpr (h gap hmem)⟩

theorem pieces_of_kept (horder : InOrder rule.start spans rule.stop)
    (hkept : ∀ gap ∈ gaps rule.start spans rule.stop, Kept cs gap.1 gap.2) :
    pieces (slice (utf8 cs)) rule.start spans rule.stop =
      pieces (charText cs) rule.start spans rule.stop := by
  apply pieces_congr
  intro gap hgap
  have hbounds := horder.gap_le gap hgap
  exact (slice_utf8_iff hbounds.2.1 (hbounds.2.2.trans rule.bounds.2)).mpr (hkept gap hgap)

/-- For every query and every rule of its parse tree: the text is cut right, and the splices replace
exactly the spans, just when the characters survive being cut by bytes. -/
theorem spans_cut_iff (cs : List Char) (rule : ParsedRule cs) : SpansCut rule := by
  have hbounds := rule.bounds
  have hwhole : slice (utf8 cs) rule.start rule.stop = charText cs rule.start rule.stop ↔
      Kept cs rule.start rule.stop :=
    slice_utf8_iff (Nat.le_of_lt hbounds.1) hbounds.2
  constructor
  · rw [sourceText_eq]
    exact hwhole
  · show sourceText (utf8 cs) rule.tree = _ ↔ _
    rw [sourceText_eq]
    exact hwhole
  · rw [exprText_eq]
    exact hwhole
  · intro anyGraph collectLists
    cases htarget : isTarget anyGraph collectLists rule.tree.kind with
    | true =>
      -- the whole text is the target's
      refine iff_of_true (fun emitted => ?_) (.inl rfl)
      unfold emitRewrittenExpr rewrittenText
      rw [if_pos htarget, if_pos htarget]
    | false =>
      have hrewritten : ∀ emitted, rewrittenText rule anyGraph collectLists emitted =
          pieces (charText cs) rule.start
            (rewrittenSpans anyGraph collectLists emitted rule.tree) rule.stop := by
        intro emitted
        unfold rewrittenText
        rw [if_neg (by rw [htarget]; exact Bool.false_ne_true)]
      have horder := rewrittenSpans_inOrder rule anyGraph collectLists
      constructor
      · intro h
        right
        have hmarked : ∀ s ∈ rewrittenSpans anyGraph collectLists (fun _ => [noByte]) rule.tree,
            Marked s := by
          intro s hs
          rcases mem_map.mp hs with ⟨node, -, rfl⟩
          exact ⟨[], not_mem_nil, rfl⟩
        have heq := h (fun _ => [noByte])
        rw [emitRewrittenExpr_eq rule htarget, hrewritten, pieces_iff rule (horder _) hmarked] at heq
        rw [gaps_congr (rewrittenSpans_span anyGraph collectLists (fun _ => []) (fun _ => [noByte])
          rule.tree)]
        exact heq
      · rintro (hwhole | hkept)
        · cases hwhole
        · intro emitted
          rw [gaps_congr (rewrittenSpans_span anyGraph collectLists (fun _ => []) emitted
            rule.tree)] at hkept
          rw [emitRewrittenExpr_eq rule htarget, hrewritten]
          exact pieces_of_kept rule (horder emitted) hkept
  · have horder : ∀ joined, InOrder rule.start (labelSplices joined rule.tree) rule.stop :=
      fun joined => labels_inOrder joined rule.tree (Nat.le_of_lt hbounds.1)
        (rule.ordered.narrow rule.nonEmpty) rule.grammatical
    unfold insertedText
    constructor
    · intro h
      have heq := h (fun _ => [noByte])
      rw [insertText_eq, pieces_iff rule (horder _) (labelSplices_marked rule.tree)] at heq
      rw [gaps_congr (labelSplices_span (fun _ => []) (fun _ => [noByte]) rule.tree)]
      exact heq
    · intro hkept joined
      rw [gaps_congr (labelSplices_span (fun _ => []) joined rule.tree)] at hkept
      rw [insertText_eq]
      exact pieces_of_kept rule (horder joined) hkept

end

/-- The query `RETURN 'é', 1`, and the rule of its last item. -/
def accentedQuery : List Char := "RETURN 'é', 1".toList

def lastItem : ParsedRule accentedQuery where
  tree := .rule .other [.token ⟨12, 12⟩]
  ordered := by
    refine ⟨pairwise_singleton _ _, fun t ht => ?_⟩
    rw [mem_singleton.mp ht]
    decide
  grammatical := ⟨trivial, trivial, trivial⟩
  nonEmpty := cons_ne_nil _ _

/-- The text of the last item comes out as the blank before it. -/
theorem span_after_accent_shifted :
    sourceText (utf8 accentedQuery) lastItem.tree = Markup.ascii " " ∧
      charText accentedQuery lastItem.start lastItem.stop = Markup.ascii "1" ∧
      sourceText (utf8 accentedQuery) lastItem.tree ≠
        charText accentedQuery lastItem.start lastItem.stop := by
  decide

end Ladybug.GqlText
