import Ladybug.Httpfs.S3Listing

/-!
# What the responses show (`httpfs/src/s3fs.cpp`, `AWSListObjectV2`)

A page shows keys, whose characters it may encode, and the token of the page after it.  Between
them stand other tags and texts, in any order.
-/

namespace Ladybug.S3Glob

open Markup List

/-- A space may be a plus sign, every byte may be its two hexadecimal digits. -/
inductive UrlEncodes : Bytes → Bytes → Prop
  | nil : UrlEncodes [] []
  | plain {c : UInt8} {key encoded : Bytes} :
      c ≠ percent ∧ c ≠ plus ∧ c ≠ lt → UrlEncodes key encoded →
        UrlEncodes (c :: key) (c :: encoded)
  | space {key encoded : Bytes} :
      UrlEncodes key encoded → UrlEncodes (S3Glob.space :: key) (plus :: encoded)
  | hex {c high low : UInt8} {key encoded : Bytes} :
      hexDigit high = some (c.toNat / 16) → hexDigit low = some (c.toNat % 16) →
        UrlEncodes key encoded → UrlEncodes (c :: key) (percent :: high :: low :: encoded)

theorem hexDigit_ne {c : UInt8} {digit : Nat} (h : hexDigit c = some digit) :
    c ≠ plus ∧ c ≠ lt ∧ c ≠ '-'.toUInt8 ∧ isSpace c = false := by
  have hnone : ∀ c, c ∈ [plus, lt, '-'.toUInt8, S3Glob.space, 9, 10, 11, 12, 13] →
      hexDigit c = none := by decide +kernel
  have hnot : ∀ c', c' ∈ [plus, lt, '-'.toUInt8, S3Glob.space, 9, 10, 11, 12, 13] → c ≠ c' := by
    intro c' hc' heq
    rw [← heq] at hc'
    rw [hnone c hc'] at h
    cases h
  refine ⟨hnot _ (by decide), hnot _ (by decide), hnot _ (by decide), ?_⟩
  cases hspace : isSpace c with
  | false => rfl
  | true =>
    unfold isSpace at hspace
    simp only [Bool.or_eq_true, beq_iff_eq, Bool.and_eq_true, decide_eq_true_eq] at hspace
    rcases hspace with heq | ⟨hle, hge⟩
    · exact absurd heq (hnot _ (by decide))
    · -- the control characters from the tab on
      have hle' : 9 ≤ c.toNat := hle
      have hge' : c.toNat ≤ 13 := hge
      have hc : c = UInt8.ofNat c.toNat := (UInt8.ofNat_toNat).symm
      have hcases : c.toNat = 9 ∨ c.toNat = 10 ∨ c.toNat = 11 ∨ c.toNat = 12 ∨ c.toNat = 13 := by
        omega
      rcases hcases with hn | hn | hn | hn | hn
      all_goals
        rw [hn] at hc
        exact absurd hc (hnot _ (by decide))

theorem strtoul16_pair {high low : UInt8} {a b : Nat} (hhigh : hexDigit high = some a)
    (hlow : hexDigit low = some b) : strtoul16 [high, low] = 16 * a + b := by
  obtain ⟨hplus, _, hminus, hspace⟩ := hexDigit_ne hhigh
  unfold strtoul16
  rw [dropWhile_cons_of_neg (by rw [hspace]; decide)]
  simp only [if_neg hminus, if_neg hplus, hexDigits, hhigh, hlow]
  omega

theorem decodeLoop_plain {c : UInt8} (h : c ≠ percent) (rest : Bytes) :
    decodeLoop (c :: rest) = c :: decodeLoop rest := by
  conv_lhs => unfold decodeLoop
  exact if_neg h

theorem decodeLoop_hex (high low : UInt8) (rest : Bytes) :
    decodeLoop (percent :: high :: low :: rest)
      = UInt8.ofNat (strtoul16 [high, low]) :: decodeLoop rest := by
  rw [decodeLoop, if_pos rfl]

theorem UrlEncodes.decode {key encoded : Bytes} (h : UrlEncodes key encoded) :
    decodeURL encoded = key := by
  unfold decodeURL
  induction h with
  | nil => rfl
  | @plain c key encoded hc _ ih =>
    rw [map_cons, if_neg hc.2.1, decodeLoop_plain hc.1, ih]
  | space _ ih =>
    rw [map_cons, if_pos rfl, decodeLoop_plain (by decide), ih]
  | @hex c high low key encoded hhigh hlow _ ih =>
    rw [map_cons, map_cons, map_cons, if_neg (by decide),
      if_neg (hexDigit_ne hhigh).1, if_neg (hexDigit_ne hlow).1, decodeLoop_hex, ih,
      strtoul16_pair hhigh hlow, Nat.div_add_mod, UInt8.ofNat_toNat]

theorem UrlEncodes.no_tag {key encoded : Bytes} (h : UrlEncodes key encoded) : lt ∉ encoded := by
  induction h with
  | nil => exact not_mem_nil
  | plain hc _ ih =>
    simp only [mem_cons, not_or]
    exact ⟨hc.2.2.symm, ih⟩
  | space _ ih =>
    simp only [mem_cons, not_or]
    exact ⟨by decide, ih⟩
  | hex hhigh hlow _ ih =>
    simp only [mem_cons, not_or]
    exact ⟨by decide, (hexDigit_ne hhigh).2.1.symm, (hexDigit_ne hlow).2.1.symm, ih⟩

def keyName : Bytes := ascii "Key"

def closeKeyName : Bytes := ascii "/Key"

def tokenName : Bytes := ascii "NextContinuationToken"

def closeTokenName : Bytes := ascii "/NextContinuationToken"

def commonName : Bytes := ascii "CommonPrefixes"

inductive Item where
  | key (name encoded : Bytes)
  | next (token : Bytes)
  | other (piece : Piece)

def Item.pieces : Item → List Piece
  | .key _ encoded => [.tag keyName, .text encoded, .tag closeKeyName]
  | .next token => [.tag tokenName, .text token, .tag closeTokenName]
  | .other piece => [piece]

def Item.Proper : Item → Prop
  | .key name encoded => name ≠ [] ∧ UrlEncodes name encoded
  | .next token => lt ∉ token
  | .other piece => piece.Proper ∧ piece ∉ [.tag keyName, .tag tokenName, .tag commonName]

def Item.key? : Item → Option Bytes
  | .key name _ => some name
  | _ => none

def Item.next? : Item → Option Bytes
  | .next token => some token
  | _ => none

/-- A response: the keys of a page and at most one token, which is the text between its tags. -/
structure Page where
  items : List Item
  proper : ∀ item ∈ items, item.Proper
  oneToken : (items.filterMap Item.next?).length ≤ 1

def textOf (items : List Item) : Bytes := render (items.flatMap Item.pieces)

def Page.text (page : Page) : Bytes := textOf page.items

def Page.keys (page : Page) : List Bytes := page.items.filterMap Item.key?

/-- No token is the empty text. -/
def Page.next (page : Page) : Bytes := ((page.items.filterMap Item.next?).head?).getD []

/-- From `token` on the server lists these keys, in one page or in many. -/
inductive Lists (answer : Bytes → Except Stop Bytes) : Bytes → List Bytes → Prop
  | last {token : Bytes} (page : Page) :
      answer token = .ok page.text → page.next = [] → Lists answer token page.keys
  | more {token : Bytes} {keys : List Bytes} (page : Page) :
      answer token = .ok page.text → page.next ≠ [] → Lists answer page.next keys →
        Lists answer token (page.keys ++ keys)

theorem Item.pieces_proper {item : Item} (h : item.Proper) :
    ∀ piece ∈ item.pieces, piece.Proper := by
  cases item with
  | key name encoded =>
    intro piece hpiece
    simp only [Item.pieces, mem_cons, not_mem_nil, or_false] at hpiece
    rcases hpiece with rfl | rfl | rfl
    · decide
    · exact h.2.no_tag
    · decide
  | next token =>
    intro piece hpiece
    simp only [Item.pieces, mem_cons, not_mem_nil, or_false] at hpiece
    rcases hpiece with rfl | rfl | rfl
    · decide
    · exact h
    · decide
  | other piece' =>
    intro piece hpiece
    rw [mem_singleton.mp hpiece]
    exact h.1

theorem textOf_cons (item : Item) (items : List Item) :
    textOf (item :: items) = render item.pieces ++ textOf items := render_append _ _

theorem textOf_append (items items' : List Item) :
    textOf (items ++ items') = textOf items ++ textOf items' := by
  unfold textOf
  rw [flatMap_append, render_append]

theorem find_items (name : Bytes) (hname : gt ∉ name) {items : List Item}
    (hproper : ∀ item ∈ items, item.Proper) (hno : ∀ item ∈ items, .tag name ∉ item.pieces)
    (text : Bytes) :
    find (tagText name) (textOf items ++ text)
      = (find (tagText name) text).map ((textOf items).length + ·) := by
  apply find_pieces hname
  · intro piece hpiece
    obtain ⟨item, hitem, hin⟩ := mem_flatMap.mp hpiece
    exact Item.pieces_proper (hproper item hitem) piece hin
  · intro hin
    obtain ⟨item, hitem, htag⟩ := mem_flatMap.mp hin
    exact hno item hitem htag

theorem findFrom_items (name : Bytes) (hname : gt ∉ name) {items : List Item}
    (hproper : ∀ item ∈ items, item.Proper) (hno : ∀ item ∈ items, .tag name ∉ item.pieces)
    (front text : Bytes) :
    findFrom (front ++ (textOf items ++ text)) (tagText name) front.length
      = findFrom (front ++ (textOf items ++ text)) (tagText name)
          (front ++ textOf items).length := by
  rw [findFrom_length, find_items name hname hproper hno, ← append_assoc, findFrom_length,
    Option.map_map]
  congr 1
  funext n
  show front.length + ((textOf items).length + n) = (front ++ textOf items).length + n
  rw [length_append, Nat.add_assoc]

theorem element_found {name close body : Bytes} (hbody : lt ∉ body) (front rest : Bytes)
    {text : Bytes} (htext : text = front ++ (tagText name ++ (body ++ (tagText close ++ rest)))) :
    findFrom text (tagText name) front.length = some front.length
      ∧ findFrom text (tagText close) (front.length + (tagText name).length)
          = some (front.length + (tagText name).length + body.length)
      ∧ between text (front.length + (tagText name).length)
          (front.length + (tagText name).length + body.length) = body := by
  subst htext
  refine ⟨?_, ?_, ?_⟩
  · rw [findFrom_length, find_tag]
    rfl
  · have hfind : find (tagText close) (body ++ (tagText close ++ rest)) = some body.length := by
      rw [show tagText close = lt :: (close ++ [gt]) from rfl, find_skip hbody,
        find_here (prefix_append _ _)]
      rfl
    rw [← append_assoc, ← length_append, findFrom_length, hfind]
    rfl
  · unfold between
    rw [Nat.add_sub_cancel_left, ← append_assoc, ← length_append, drop_left, take_left]

theorem parseKey_skip {text : Bytes} {pos pos' : Nat}
    (h : findFrom text OPEN_KEY_TAG pos = findFrom text OPEN_KEY_TAG pos') (fuel : Nat)
    (result : List Bytes) : parseKey text fuel pos result = parseKey text fuel pos' result := by
  cases fuel with
  | zero => rfl
  | succ fuel =>
    unfold parseKey
    rw [h]

/-- The keys that do not name a directory. -/
def objectKeys (keys : List Bytes) : List Bytes :=
  keys.filter fun key => decide (key.getLast? ≠ some slash)

theorem parseKey_items (items : List Item) (hproper : ∀ item ∈ items, item.Proper)
    (front : Bytes) {text : Bytes} (htext : text = front ++ textOf items) {fuel : Nat}
    (hfuel : items.length < fuel) (result : List Bytes) :
    parseKey text fuel front.length result
      = .ok (result ++ objectKeys (items.filterMap Item.key?)) := by
  induction items generalizing front fuel result with
  | nil =>
    obtain ⟨fuel, rfl⟩ := Nat.exists_eq_add_of_lt hfuel
    have hnone : findFrom text OPEN_KEY_TAG front.length = none := by
      rw [htext, findFrom_length]
      rfl
    unfold parseKey
    simp only [hnone]
    show Except.ok result = Except.ok (result ++ [])
    rw [append_nil]
  | cons item items ih =>
    have hitem := hproper item mem_cons_self
    have hrest : ∀ item' ∈ items, item'.Proper :=
      fun item' hin => hproper item' (mem_cons_of_mem item hin)
    have hlen : items.length + 1 < fuel := hfuel
    rw [textOf_cons] at htext
    cases hkey : item.key? with
    | none =>
      -- the item has no key, and the search starts again after it
      have hno : .tag keyName ∉ item.pieces := by
        cases item with
        | key name encoded => cases hkey
        | next token =>
          simp only [Item.pieces, mem_cons, not_mem_nil, or_false,
            Piece.tag.injEq, reduceCtorEq, false_or]
          decide
        | other piece =>
          intro hin
          exact hitem.2 (mem_singleton.mp hin ▸ by decide)
      have hskip : findFrom text OPEN_KEY_TAG front.length
          = findFrom text OPEN_KEY_TAG (front ++ render item.pieces).length := by
        have h := findFrom_items keyName (by decide)
          (fun i (hi : i ∈ [item]) => mem_singleton.mp hi ▸ hitem)
          (fun i hi => mem_singleton.mp hi ▸ hno) front (textOf items)
        rw [show textOf [item] = render item.pieces by simp [textOf], ← htext] at h
        exact h
      rw [parseKey_skip hskip, filterMap_cons_none hkey]
      exact ih hrest (front ++ render item.pieces) (by rw [htext, append_assoc]) (by omega) result
    | some name =>
      cases item with
      | next | other => cases hkey
      | key name' encoded =>
        have hname : name' = name := Option.some.inj hkey
        subst hname
        obtain ⟨fuel, rfl⟩ : ∃ n, fuel = n + 1 := ⟨fuel - 1, by omega⟩
        have htext' : text = front ++ (tagText keyName
            ++ (encoded ++ (tagText closeKeyName ++ textOf items))) := by
          rw [htext]
          simp [Item.pieces, Piece.render]
        obtain ⟨hopen, hclose, hbetween⟩ := element_found hitem.2.no_tag front _ htext'
        obtain ⟨last, hlast⟩ := Option.ne_none_iff_exists'.mp
          (fun hnone => hitem.1 (List.getLast?_eq_none_iff.mp hnone))
        have hafter : front.length + (tagText keyName).length + encoded.length
            + (tagText closeKeyName).length
            = (front ++ (tagText keyName ++ (encoded ++ tagText closeKeyName))).length := by
          simp only [length_append]
          omega
        have hkeys : objectKeys ((Item.key name' encoded :: items).filterMap Item.key?)
            = (if last ≠ slash then [name'] else []) ++ objectKeys (items.filterMap Item.key?) := by
          rw [filterMap_cons_some hkey]
          unfold objectKeys
          by_cases hdir : last = slash
          · rw [filter_cons_of_neg (by simp [hlast, hdir]), if_neg (not_not.mpr hdir)]
            rfl
          · rw [filter_cons_of_pos (by simp [hlast, hdir]), if_pos hdir]
            rfl
        unfold parseKey
        simp only [show OPEN_KEY_TAG = tagText keyName from rfl, hopen]
        simp only [show CLOSE_KEY_TAG = tagText closeKeyName from rfl, hclose,
          show front.length + 5 = front.length + (tagText keyName).length from rfl, hbetween,
          hitem.2.decode, hlast]
        rw [hafter, ih hrest _ (by rw [htext']; simp only [append_assoc]) (by omega), hkeys]
        by_cases hdir : last = slash
        · simp only [hdir, ne_eq, not_true_eq_false, if_false, nil_append]
        · simp only [hdir, ne_eq, not_false_eq_true, if_true, append_assoc]

theorem Page.parseKey (page : Page) {fuel : Nat} (hfuel : page.items.length < fuel)
    (result : List Bytes) :
    S3Glob.parseKey page.text fuel 0 result = .ok (result ++ objectKeys page.keys) :=
  parseKey_items page.items page.proper [] rfl hfuel result

theorem no_token {item : Item} (hproper : item.Proper) (h : item.next? = none) :
    .tag tokenName ∉ item.pieces := by
  cases item with
  | key name encoded =>
    simp only [Item.pieces, mem_cons, not_mem_nil, or_false, Piece.tag.injEq,
      reduceCtorEq, false_or]
    decide
  | next token => cases h
  | other piece =>
    intro hin
    exact hproper.2 (mem_singleton.mp hin ▸ by decide)

theorem Page.parseToken (page : Page) : parseContinuationToken page.text = .ok page.next := by
  unfold parseContinuationToken
  rw [show OPEN_CONTINUATION_TAG = tagText tokenName from rfl,
    show CLOSE_CONTINUATION_TAG = tagText closeTokenName from rfl]
  cases htokens : page.items.filterMap Item.next? with
  | nil =>
    have hnone : ∀ item ∈ page.items, item.next? = none := filterMap_eq_nil_iff.mp htokens
    have hfind : findFrom page.text (tagText tokenName) 0 = none := by
      have h := find_items tokenName (by decide) page.proper
        (fun item hin => no_token (page.proper item hin) (hnone item hin)) []
      rw [append_nil] at h
      unfold findFrom
      rw [if_pos (Nat.zero_le _), drop_zero]
      show (find (tagText tokenName) (textOf page.items)).map _ = none
      rw [h]
      rfl
    simp only [hfind]
    unfold Page.next
    rw [htokens]
    rfl
  | cons token tokens =>
    obtain ⟨front, item, back, hitems, hfront, hitem, _⟩ :=
      filterMap_eq_cons_iff.mp htokens
    have hproper : ∀ item' ∈ front, item'.Proper :=
      fun item' hin => page.proper item' (by rw [hitems]; simp [hin])
    cases item with
    | key | other => cases hitem
    | next token' =>
      have heq : token' = token := Option.some.inj hitem
      subst heq
      have htoken : lt ∉ token' := page.proper (.next token') (by rw [hitems]; simp)
      have htext : page.text = textOf front ++ (tagText tokenName
          ++ (token' ++ (tagText closeTokenName ++ textOf back))) := by
        unfold Page.text
        rw [hitems, textOf_append, textOf_cons]
        simp [Item.pieces, Piece.render]
      obtain ⟨hopen, hclose, hbetween⟩ := element_found htoken (textOf front) _ htext
      have hfirst : findFrom page.text (tagText tokenName) 0 = some (textOf front).length := by
        rw [← hopen, htext]
        exact findFrom_items tokenName (by decide) hproper
          (fun item hin => no_token (hproper item hin) (hfront item hin)) [] _
      simp only [hfirst, hclose, hbetween]
      unfold Page.next
      rw [htokens]
      rfl

theorem Page.parseCommon (page : Page) (fuel : Nat) :
    parseCommonPrefix page.text (fuel + 1) 0 [] = .ok [] := by
  have hno : ∀ item ∈ page.items, .tag commonName ∉ item.pieces := by
    intro item hin
    have hproper := page.proper item hin
    cases item with
    | key | next =>
      simp only [Item.pieces, mem_cons, not_mem_nil, or_false, Piece.tag.injEq,
        reduceCtorEq, false_or]
      decide
    | other piece =>
      intro hin'
      exact hproper.2 (mem_singleton.mp hin' ▸ by decide)
  have hfind : findFrom page.text OPEN_COMMON_PREFIX_TAG 0 = none := by
    have h := find_items commonName (by decide) page.proper hno []
    rw [append_nil] at h
    unfold findFrom
    rw [if_pos (Nat.zero_le _), drop_zero]
    show (find (tagText commonName) (textOf page.items)).map _ = none
    rw [h]
    rfl
  unfold parseCommonPrefix
  simp only [hfind]

end Ladybug.S3Glob
