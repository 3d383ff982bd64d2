import Ladybug.Fts.FtsIndex

/-!
# From a text to its terms

The pipeline is written twice: as statements of `CREATE_FTS_INDEX` (`create_fts_index.cpp`), which
fill the index in bulk, and as `getTerms` (`fts_index.cpp`), which maintains it row by row.
-/

namespace Ladybug.Fts

/-- The bytes of a string. -/
abbrev Text := List UInt8

def defaultStopWords : List String :=
  ["a", "a's", "able", "about", "above", "according", "accordingly", "across", "actually",
    "after", "afterwards", "again", "against", "ain't", "all", "allow", "allows", "almost",
    "alone", "along", "already", "also", "although", "always", "am", "among", "amongst", "an",
    "and", "another", "any", "anybody", "anyhow", "anyone", "anything", "anyway", "anyways",
    "anywhere", "apart", "appear", "appreciate", "appropriate", "are", "aren't", "around", "as",
    "aside", "ask", "asking", "associated", "at", "available", "away", "awfully", "b", "be",
    "became", "because", "become", "becomes", "becoming", "been", "before", "beforehand",
    "behind", "being", "believe", "below", "beside", "besides", "best", "better", "between",
    "beyond", "both", "brief", "but", "by", "c", "c'mon", "c's", "came", "can", "can't", "cannot",
    "cant", "cause", "causes", "certain", "certainly", "changes", "clearly", "co", "com", "come",
    "comes", "concerning", "consequently", "consider", "considering", "contain", "containing",
    "contains", "corresponding", "could", "couldn't", "course", "currently", "d", "definitely",
    "described", "despite", "did", "didn't", "different", "do", "does", "doesn't", "doing",
    "don't", "done", "down", "downwards", "during", "e", "each", "edu", "eg", "eight", "either",
    "else", "elsewhere", "enough", "entirely", "especially", "et", "etc", "even", "ever", "every",
    "everybody", "everyone", "everything", "everywhere", "ex", "exactly", "example", "except",
    "f", "far", "few", "fifth", "first", "five", "followed", "following", "follows", "for",
    "former", "formerly", "forth", "four", "from", "further", "furthermore", "g", "get", "gets",
    "getting", "given", "gives", "go", "goes", "going", "gone", "got", "gotten", "greetings", "h",
    "had", "hadn't", "happens", "hardly", "has", "hasn't", "have", "haven't", "having", "he",
    "he's", "hello", "help", "hence", "her", "here", "here's", "hereafter", "hereby", "herein",
    "hereupon", "hers", "herself", "hi", "him", "himself", "his", "hither", "hopefully", "how",
    "howbeit", "however", "i", "i'd", "i'll", "i'm", "i've", "ie", "if", "ignored", "immediate",
    "in", "inasmuch", "inc", "indeed", "indicate", "indicated", "indicates", "inner", "insofar",
    "instead", "into", "inward", "is", "isn't", "it", "it'd", "it'll", "it's", "its", "itself",
    "j", "just", "k", "keep", "keeps", "kept", "know", "knows", "known", "l", "last", "lately",
    "later", "latter", "latterly", "least", "less", "lest", "let", "let's", "like", "liked",
    "likely", "little", "look", "looking", "looks", "ltd", "m", "mainly", "many", "may", "maybe",
    "me", "mean", "meanwhile", "merely", "might", "more", "moreover", "most", "mostly", "much",
    "must", "my", "myself", "n", "name", "namely", "nd", "near", "nearly", "necessary", "need",
    "needs", "neither", "never", "nevertheless", "new", "next", "nine", "no", "nobody", "non",
    "none", "noone", "nor", "normally", "not", "nothing", "novel", "now", "nowhere", "o",
    "obviously", "of", "off", "often", "oh", "ok", "okay", "old", "on", "once", "one", "ones",
    "only", "onto", "or", "other", "others", "otherwise", "ought", "our", "ours", "ourselves",
    "out", "outside", "over", "overall", "own", "p", "particular", "particularly", "per",
    "perhaps", "placed", "please", "plus", "possible", "presumably", "probably", "provides", "q",
    "que", "quite", "qv", "r", "rather", "rd", "re", "really", "reasonably", "regarding",
    "regardless", "regards", "relatively", "respectively", "right", "s", "said", "same", "saw",
    "say", "saying", "says", "second", "secondly", "see", "seeing", "seem", "seemed", "seeming",
    "seems", "seen", "self", "selves", "sensible", "sent", "serious", "seriously", "seven",
    "several", "shall", "she", "should", "shouldn't", "since", "six", "so", "some", "somebody",
    "somehow", "someone", "something", "sometime", "sometimes", "somewhat", "somewhere", "soon",
    "sorry", "specified", "specify", "specifying", "still", "sub", "such", "sup", "sure", "t",
    "t's", "take", "taken", "tell", "tends", "th", "than", "thank", "thanks", "thanx", "that",
    "that's", "thats", "the", "their", "theirs", "them", "themselves", "then", "thence", "there",
    "there's", "thereafter", "thereby", "therefore", "therein", "theres", "thereupon", "these",
    "they", "they'd", "they'll", "they're", "they've", "think", "third", "this", "thorough",
    "thoroughly", "those", "though", "three", "through", "throughout", "thru", "thus", "to",
    "together", "too", "took", "toward", "towards", "tried", "tries", "truly", "try", "trying",
    "twice", "two", "u", "un", "under", "unfortunately", "unless", "unlikely", "until", "unto",
    "up", "upon", "us", "use", "used", "useful", "uses", "using", "usually", "uucp", "v", "value",
    "various", "very", "via", "viz", "vs", "w", "want", "wants", "was", "wasn't", "way", "we",
    "we'd", "we'll", "we're", "we've", "welcome", "well", "went", "were", "weren't", "what",
    "what's", "whatever", "when", "whence", "whenever", "where", "where's", "whereafter",
    "whereas", "whereby", "wherein", "whereupon", "wherever", "whether", "which", "while",
    "whither", "who", "who's", "whoever", "whole", "whom", "whose", "why", "will", "willing",
    "wish", "with", "within", "without", "won't", "wonder", "would", "wouldn't", "x", "y", "yes",
    "yet", "you", "you'd", "you'll", "you're", "you've", "your", "yours", "yourself",
    "yourselves", "z", "zero"]

def ascii (s : String) : Text := s.toList.map fun c => c.toNat.toUInt8

def getDefaultStopWords : List Text := defaultStopWords.map ascii

inductive Tokenizer where
  | simple
  | jieba
  deriving DecidableEq

inductive Stemmer (A : Type) where
  | none
  | algorithm (a : A)
  deriving DecidableEq

inductive StopWordsSource where
  | default
  | table (words : List Text)
  | file (words : List Text)
  deriving DecidableEq

structure FtsConfig (A : Type) where
  stemmer : Stemmer A
  stopWords : StopWordsSource
  ignorePattern : String
  tokenizer : Tokenizer
  jiebaDictDir : String

/-- The functions of other libraries that the pipelines call: the ones of the query language, and the
ones that the extension calls itself. -/
structure TextLibrary (A : Type) where
  lower : Text → Text
  regexpReplace : String → Text → Text
  stem : A → Text → Text
  toLower : Text → Text
  globalReplace : String → Text → Text
  sbStemmerStem : A → Text → Text
  split : Text → List Text
  cutForSearch : String → Text → List Text

/-- The query language and the extension use the same functions, and the stem of nothing is nothing. -/
structure TextLibrary.Agree {A : Type} (lib : TextLibrary A) : Prop where
  lower : ∀ text, lib.lower text = lib.toLower text
  replace : ∀ pattern text, lib.regexpReplace pattern text = lib.globalReplace pattern text
  stem : ∀ a text, lib.stem a text = lib.sbStemmerStem a text
  stem_nil : ∀ a, lib.stem a [] = []

section

variable {A : Type} (lib : TextLibrary A) (config : FtsConfig A)

def stopWordsTable : StopWordsSource → List Text
  | .default => getDefaultStopWords
  | .table words => words
  | .file words => words

def tokenize (text : Text) : List Text :=
  match config.tokenizer with
  | .jieba => lib.cutForSearch config.jiebaDictDir text
  | .simple => lib.split text

def tokenizeMacro (text : Text) : List Text :=
  tokenize lib config (lib.lower (lib.regexpReplace config.ignorePattern text))

def stem (text : Text) : Text :=
  match config.stemmer with
  | .none => text
  | .algorithm a => lib.stem a text

def bulkTermsOf (text : Text) : List Text :=
  ((tokenizeMacro lib config text).filter fun t =>
    decide (t.length > 0) && !(stopWordsTable config.stopWords).contains t).map (stem lib config)

/-- There is one statement for each column; a null column has no tokens. -/
def bulkTerms (row : List (Option Text)) : List Text :=
  (row.filterMap id).flatMap (bulkTermsOf lib config)

/-- Normalise the segments between wildcard characters; the second component is the segment that has
been read. -/
def normalizeSegments (pattern : String) (query : Text) : Text :=
  let normalizeSegment (segment : Text) : Text :=
    if segment = [] then [] else lib.globalReplace pattern segment
  let (result, segment) := query.foldl (fun s c =>
    if c = '*'.toNat.toUInt8 ∨ c = '?'.toNat.toUInt8 then (s.1 ++ normalizeSegment s.2 ++ [c], [])
    else (s.1, s.2 ++ [c])) ([], [])
  result ++ normalizeSegment segment

def normalizeQuery (pattern : String) (query : Text) (protectWildcardChars : Bool) : Text :=
  if protectWildcardChars then lib.toLower (normalizeSegments lib pattern query)
  else lib.toLower (lib.globalReplace pattern query)

def isspace (c : UInt8) : Bool := c = 32 || (decide (9 ≤ c) && decide (c ≤ 13))

def tokenizeString (str : Text) : List Text :=
  match config.tokenizer with
  | .jieba => (lib.cutForSearch config.jiebaDictDir str).filter fun t => !t.all isspace
  | .simple => lib.split str

def isStopWord (term : Text) : Bool :=
  match config.stopWords with
  | .default => getDefaultStopWords.contains term
  | source => (stopWordsTable source).contains term

def hasWildcardPattern (term : Text) : Bool :=
  term.any fun c => c = '*'.toNat.toUInt8 || c = '?'.toNat.toUInt8

def stemTerms (terms : List Text) (isConjunctive isQuery : Bool) : List Text :=
  match config.stemmer with
  | .none => if isConjunctive then terms.filter fun t => !isStopWord config t else terms
  | .algorithm a =>
    (terms.filter fun t => !(isConjunctive && isStopWord config t)).map fun t =>
      if isQuery && hasWildcardPattern t then t else lib.sbStemmerStem a t

def getTermsOf (text : Text) : List Text :=
  let content := normalizeQuery lib config.ignorePattern text false
  (stemTerms lib config (tokenizeString lib config content) true false).filter fun t => !t.isEmpty

def getTerms (row : List (Option Text)) : List Text :=
  (row.filterMap id).flatMap (getTermsOf lib config)

end

end Ladybug.Fts
