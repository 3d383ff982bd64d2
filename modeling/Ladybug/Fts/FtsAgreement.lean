import Ladybug.Fts.FtsBuild
import Ladybug.Fts.FtsTerms

/-!
# When the two pipelines agree

`getTerms` drops tokens that the bulk statements keep: those of white space, and those of which nothing
is left after stemming.  Without such a token an index that was filled in bulk can be maintained.
-/

namespace Ladybug.Fts

open List

section

variable {A : Type} {lib : TextLibrary A} {config : FtsConfig A}

def bulkTokens (lib : TextLibrary A) (config : FtsConfig A) (text : Text) : List Text :=
  (tokenizeMacro lib config text).filter fun t =>
    decide (t.length > 0) && !(stopWordsTable config.stopWords).contains t

/-- `getTerms` has a term for the token too. -/
def kept (lib : TextLibrary A) (config : FtsConfig A) (t : Text) : Bool :=
  (config.tokenizer != .jieba || !t.all isspace) && !(stem lib config t).isEmpty

def KeepsTokens (lib : TextLibrary A) (config : FtsConfig A) (text : Text) : Prop :=
  ∀ t ∈ tokenizeMacro lib config text, t ≠ [] → t ∉ stopWordsTable config.stopWords →
    (config.tokenizer = .jieba → ∃ c ∈ t, isspace c = false) ∧ stem lib config t ≠ []

theorem isStopWord_eq (config : FtsConfig A) (t : Text) :
    isStopWord config t = (stopWordsTable config.stopWords).contains t := by
  unfold isStopWord
  cases config.stopWords with
  | default | table | file => rfl

theorem stemTerms_eq (h : lib.Agree) (config : FtsConfig A) (ts : List Text) :
    stemTerms lib config ts true false =
      (ts.filter fun t => !(stopWordsTable config.stopWords).contains t).map (stem lib config) := by
  unfold stemTerms
  simp only [isStopWord_eq, Bool.true_and, Bool.false_and, if_true, Bool.false_eq_true, if_false]
  unfold stem
  cases config.stemmer with
  | none => exact (map_id' _).symm
  | algorithm a => exact map_congr_left fun t _ => (h.stem a t).symm

theorem tokenizeString_eq (h : lib.Agree) (config : FtsConfig A) (text : Text) :
    tokenizeString lib config (normalizeQuery lib config.ignorePattern text false) =
      (tokenizeMacro lib config text).filter fun t =>
        config.tokenizer != .jieba || !t.all isspace := by
  have hnorm : normalizeQuery lib config.ignorePattern text false =
      lib.lower (lib.regexpReplace config.ignorePattern text) := by
    rw [h.lower, h.replace]
    rfl
  unfold tokenizeString tokenizeMacro tokenize
  rw [hnorm]
  cases config.tokenizer with
  | simple => exact (filter_true _).symm
  | jieba => rfl

theorem stem_nil (h : lib.Agree) (config : FtsConfig A) : stem lib config [] = [] := by
  unfold stem
  cases config.stemmer with
  | none => rfl
  | algorithm a => exact h.stem_nil a

theorem getTermsOf_eq (h : lib.Agree) (config : FtsConfig A) (text : Text) :
    getTermsOf lib config text =
      ((bulkTokens lib config text).filter (kept lib config)).map (stem lib config) := by
  show (stemTerms lib config (tokenizeString lib config
    (normalizeQuery lib config.ignorePattern text false)) true false).filter _ = _
  rw [stemTerms_eq h, tokenizeString_eq h, filter_map, filter_filter, filter_filter]
  unfold bulkTokens
  rw [filter_filter]
  apply congrArg (map (stem lib config))
  apply filter_congr
  intro t _
  -- the stem of an empty token is empty, so it makes no difference where it is dropped
  by_cases ht : t = []
  · subst ht
    simp [kept, stem_nil h]
  · have hpos : decide (t.length > 0) = true := decide_eq_true (length_pos_iff.mpr ht)
    show (!(stem lib config t).isEmpty && _ && _) = ((_ && !(stem lib config t).isEmpty) && (_ && _))
    rw [hpos, Bool.true_and, Bool.and_right_comm, Bool.and_comm (!(stem lib config t).isEmpty)]

theorem keepsTokens_iff (text : Text) :
    KeepsTokens lib config text ↔ ∀ t ∈ bulkTokens lib config text, kept lib config t = true := by
  have hkept : ∀ t, kept lib config t = true ↔
      (config.tokenizer = .jieba → ∃ c ∈ t, isspace c = false) ∧ stem lib config t ≠ [] := by
    unfold kept
    simp [imp_iff_not_or]
  have hbulk : ∀ t, t ∈ bulkTokens lib config text ↔ t ∈ tokenizeMacro lib config text ∧ t ≠ [] ∧
      t ∉ stopWordsTable config.stopWords := by
    unfold bulkTokens
    simp [length_pos_iff]
  constructor
  · intro h t ht
    obtain ⟨htok, hne, hstop⟩ := (hbulk t).mp ht
    exact (hkept t).mpr (h t htok hne hstop)
  · intro h t htok hne hstop
    exact (hkept t).mp (h t ((hbulk t).mpr ⟨htok, hne, hstop⟩))

theorem perm_iff_keepsTokens (h : lib.Agree) (config : FtsConfig A) (text : Text) :
    (bulkTermsOf lib config text).Perm (getTermsOf lib config text) ↔
      KeepsTokens lib config text := by
  have hbulk : bulkTermsOf lib config text =
      (bulkTokens lib config text).map (stem lib config) := rfl
  rw [hbulk, getTermsOf_eq h, keepsTokens_iff]
  constructor
  · intro hperm
    -- a token that was dropped would be missing in the length
    apply length_filter_eq_length_iff.mp
    have hlength := hperm.length_eq
    rw [length_map, length_map] at hlength
    exact hlength.symm
  · intro hkept
    rw [filter_eq_self.mpr hkept]

theorem bulkTerms_perm {row : List (Option Text)}
    (h : ∀ text, some text ∈ row → (bulkTermsOf lib config text).Perm (getTermsOf lib config text)) :
    (bulkTerms lib config row).Perm (getTerms lib config row) := by
  apply Perm.flatMap_left
  intro text htext
  obtain ⟨c, hc, hsome⟩ := mem_filterMap.mp htext
  exact h text (hsome ▸ hc)

end

section

variable {T : Type} [DecidableEq T] {c c' : Nat → List T} {n : Nat} {x : FtsIndex T}

theorem Exact.perm (h : Exact c n x) (hperm : ∀ o, (c o).Perm (c' o)) : Exact c' n x := by
  have hnil : ∀ o, c' o = [] ↔ c o = [] := by
    intro o
    rw [← perm_nil, ← perm_nil]
    exact ⟨fun hc => (hperm o).trans hc, fun hc => (hperm o).symm.trans hc⟩
  have hmem : ∀ o t, t ∈ c' o ↔ t ∈ c o := fun o t => (hperm o).mem_iff.symm
  have hholders : ∀ t, holders c' n t = holders c n t := by
    intro t
    exact Finset.filter_congr fun o _ => hmem o t
  exact { h with
    bounded := fun o ho => (hnil o).mpr (h.bounded o ho)
    docs := by
      intro o
      rw [h.docs o, (hperm o).length_eq]
      by_cases ho : c o = []
      · rw [if_pos ho, if_pos ((hnil o).mpr ho)]
      · rw [if_neg ho, if_neg (fun ho' => ho ((hnil o).mp ho'))]
    terms := by
      intro t
      rw [h.terms t, hholders]
    mem_appearsIn := by
      intro e
      rw [h.mem_appearsIn]
      simp only [hmem, (hperm _).count_eq] }

end

section

variable {A : Type}

def texts (rows : List (Option (List (Option Text)))) : List Text :=
  (rows.filterMap id).flatMap fun row => row.filterMap id

variable {rows : List (Option (List (Option Text)))}

theorem mem_texts {text : Text} : text ∈ texts rows ↔ ∃ row, some row ∈ rows ∧ some text ∈ row := by
  unfold texts
  simp

theorem createFTSIndex_maintained_getTerms {lib : TextLibrary A} {config : FtsConfig A}
    (h : ∀ text ∈ texts rows, (bulkTermsOf lib config text).Perm (getTermsOf lib config text)) :
    Maintained (getTerms lib config) (createFTSIndex (bulkTerms lib config) rows) := by
  have hbulk := createFTSIndex_maintained (bulkTerms lib config) rows
  refine ⟨hbulk.rows_lt, hbulk.marked, hbulk.mark_le, hbulk.exact.perm ?_⟩
  intro o
  show (content (bulkTerms lib config) (tableOf rows) o).Perm
    (content (getTerms lib config) (tableOf rows) o)
  unfold content
  cases hrow : tableOf rows o with
  | none => exact Perm.refl []
  | some row =>
    have hmem : some row ∈ rows := mem_of_getElem? (Option.join_eq_some_iff.mp hrow)
    exact bulkTerms_perm fun text htext => h text (mem_texts.mpr ⟨row, hmem, htext⟩)

/-- The two pipelines have the same terms for every text of a table, and an index that was filled in
bulk then stays exact in every run of operations, if and only if no text has a token of white space
or with an empty stem (stop words apart). -/
theorem bulk_agrees_iff {lib : TextLibrary A} (hlib : lib.Agree) (config : FtsConfig A)
    (ord : TermOrder Text) (rows : List (Option (List (Option Text)))) :
    ((∀ text ∈ texts rows, (bulkTermsOf lib config text).Perm (getTermsOf lib config text)) ∧
      ∀ ops, ∃ d, runOps (getTerms lib config) ord (createFTSIndex (bulkTerms lib config) rows) ops =
          .ok d ∧
        Exact (content (getTerms lib config) d.table) d.numTotalRows d.index) ↔
      ∀ text ∈ texts rows, KeepsTokens lib config text := by
  constructor
  · intro h text htext
    exact (perm_iff_keepsTokens hlib config text).mp (h.1 text htext)
  · intro h
    have hperm : ∀ text ∈ texts rows,
        (bulkTermsOf lib config text).Perm (getTermsOf lib config text) :=
      fun text htext => (perm_iff_keepsTokens hlib config text).mpr (h text htext)
    refine ⟨hperm, fun ops => ?_⟩
    obtain ⟨d, hrun, hd⟩ := (createFTSIndex_maintained_getTerms hperm).runOps ord ops
    exact ⟨d, hrun, hd.exact⟩

end

/-- The libraries on texts of small letters and spaces; the segmentation keeps the spaces between words
as tokens. -/
def plainLibrary : TextLibrary Unit where
  lower := id
  regexpReplace := fun _ => id
  stem := fun _ => id
  toLower := id
  globalReplace := fun _ => id
  sbStemmerStem := fun _ => id
  split := splitOn 32
  cutForSearch := fun _ text => text.splitBy fun a b => (a == 32) == (b == 32)

theorem plainLibrary_agree : plainLibrary.Agree where
  lower := fun _ => rfl
  replace := fun _ _ => rfl
  stem := fun _ _ => rfl
  stem_nil := fun _ => rfl

def jiebaConfig : FtsConfig Unit where
  stemmer := .none
  stopWords := .table []
  ignorePattern := "[0-9]+"
  tokenizer := .jieba
  jiebaDictDir := "dict"

def ladyBug : Text := [108, 97, 100, 121, 32, 98, 117, 103]

def dedupOrder : TermOrder Text := ⟨dedup, fun _ => Perm.refl _⟩

/-- The bulk statements store the space between two words as a term.  When the row is deleted, the term
is left behind. -/
theorem bulk_stores_white_space : plainLibrary.Agree ∧
    ¬ (bulkTermsOf plainLibrary jiebaConfig ladyBug).Perm
        (getTermsOf plainLibrary jiebaConfig ladyBug) ∧
    ((runOps (getTerms plainLibrary jiebaConfig) dedupOrder
        (createFTSIndex (bulkTerms plainLibrary jiebaConfig) [some [some ladyBug]])
        [.delete [0]]).toOption.map fun d => (d.table 0, (d.index.terms.row [32]).isSome)) =
      some (none, true) := by
  refine ⟨plainLibrary_agree, by decide, by decide⟩

/-- The same text is fine with the simple tokenizer. -/
theorem bulk_agrees_iff_simple :
    plainLibrary.Agree ∧ ∀ ops, ∃ d, runOps (getTerms plainLibrary { jiebaConfig with tokenizer := .simple })
        dedupOrder (createFTSIndex (bulkTerms plainLibrary { jiebaConfig with tokenizer := .simple })
          [some [some ladyBug]]) ops = .ok d ∧
      Exact (content (getTerms plainLibrary { jiebaConfig with tokenizer := .simple }) d.table)
        d.numTotalRows d.index := by
  refine ⟨plainLibrary_agree, ((bulk_agrees_iff plainLibrary_agree _ dedupOrder _).mpr ?_).2⟩
  intro text htext
  have htext' : text = ladyBug := mem_singleton.mp htext
  intro t ht hne hstop
  refine ⟨fun hj => absurd hj nofun, hne⟩

end Ladybug.Fts
