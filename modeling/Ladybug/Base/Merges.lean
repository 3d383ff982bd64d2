import Mathlib.Data.List.Basic

/-!
# Partial states and their merges

Items are added to states one at a time and states are merged in any order.  What the additions and
the merges keep holds of the state at the root; a winner under a preorder survives both.
-/

namespace Ladybug

open List

inductive MergeTree (α : Type) where
  | empty
  | add (tree : MergeTree α) (item : α)
  | merge (left right : MergeTree α)

def MergeTree.items {α : Type} : MergeTree α → List α
  | .empty => []
  | .add tree item => tree.items ++ [item]
  | .merge left right => left.items ++ right.items

/-- The state at the root. -/
def MergeTree.run {α σ ε : Type} (update : σ → α → Except ε σ) (combine : σ → σ → Except ε σ)
    (init : σ) : MergeTree α → Except ε σ
  | .empty => .ok init
  | .add tree item => do
      let s ← tree.run update combine init
      update s item
  | .merge left right => do
      let s ← left.run update combine init
      let s' ← right.run update combine init
      combine s s'

variable {α σ ε : Type} {S : α → Prop} {c : α → α → Ordering} {x y : α}

theorem MergeTree.run_invariant {update : σ → α → Except ε σ} {combine : σ → σ → Except ε σ}
    {init : σ} (S : α → Prop) (Inv : List α → σ → Prop) (hinit : Inv [] init)
    (hupdate : ∀ items s x, (∀ y ∈ items, S y) → S x → Inv items s →
      ∃ s', update s x = .ok s' ∧ Inv (items ++ [x]) s')
    (hcombine : ∀ items items' s s', (∀ y ∈ items, S y) → (∀ y ∈ items', S y) → Inv items s →
      Inv items' s' → ∃ s'', combine s s' = .ok s'' ∧ Inv (items ++ items') s'')
    (tree : MergeTree α) (htree : ∀ x ∈ tree.items, S x) :
    ∃ s, tree.run update combine init = .ok s ∧ Inv tree.items s := by
  induction tree with
  | empty => exact ⟨init, rfl, hinit⟩
  | add tree item ih =>
    have hitems : ∀ y ∈ tree.items, S y := fun y hy => htree y (mem_append_left _ hy)
    obtain ⟨s, hs, hinv⟩ := ih hitems
    obtain ⟨s', hs', hinv'⟩ := hupdate _ s item hitems
      (htree item (mem_append_right _ mem_cons_self)) hinv
    refine ⟨s', ?_, hinv'⟩
    rw [MergeTree.run, hs]
    exact hs'
  | merge left right ihl ihr =>
    have hleft : ∀ y ∈ left.items, S y := fun y hy => htree y (mem_append_left _ hy)
    have hright : ∀ y ∈ right.items, S y := fun y hy => htree y (mem_append_right _ hy)
    obtain ⟨s, hs, hinv⟩ := ihl hleft
    obtain ⟨s', hs', hinv'⟩ := ihr hright
    obtain ⟨s'', hs'', hinv''⟩ := hcombine _ _ s s' hleft hright hinv hinv'
    refine ⟨s'', ?_, hinv''⟩
    rw [MergeTree.run, hs, hs']
    exact hs''

def MergeTree.ofList {α : Type} (items : List α) : MergeTree α := items.foldl .add .empty

theorem MergeTree.foldl_add_items (tree : MergeTree α) (items : List α) :
    (items.foldl MergeTree.add tree).items = tree.items ++ items := by
  induction items generalizing tree with
  | nil => exact (append_nil _).symm
  | cons x items ih =>
    rw [foldl_cons, ih]
    show tree.items ++ [x] ++ items = tree.items ++ x :: items
    rw [append_assoc, singleton_append]

theorem MergeTree.ofList_items (items : List α) : (MergeTree.ofList items).items = items := by
  unfold MergeTree.ofList
  rw [MergeTree.foldl_add_items]
  rfl

section

variable (update : σ → α → Except ε σ) (combine : σ → σ → Except ε σ) (init : σ)

include update combine init

theorem MergeTree.foldl_add_run (tree : MergeTree α) (items : List α) :
    (items.foldl MergeTree.add tree).run update combine init =
      tree.run update combine init >>= fun s => items.foldlM update s := by
  induction items generalizing tree with
  | nil =>
    cases htree : tree.run update combine init with
    | error | ok => simp only [foldl_nil, htree]; rfl
  | cons x items ih =>
    rw [foldl_cons, ih, MergeTree.run]
    cases tree.run update combine init with
    | error e => rfl
    | ok s =>
      show (update s x >>= fun s => items.foldlM update s) = foldlM update s (x :: items)
      rw [foldlM_cons]

theorem MergeTree.ofList_run (items : List α) :
    (MergeTree.ofList items).run update combine init = items.foldlM update init := by
  unfold MergeTree.ofList
  rw [MergeTree.foldl_add_run]
  rfl

end

/-- A comparison that is a total preorder on a set. -/
structure OrdersOn {α : Type} (S : α → Prop) (c : α → α → Ordering) : Prop where
  swap : ∀ x y, S x → S y → c y x = (c x y).swap
  trans : ∀ x y z, S x → S y → S z → c x y ≠ .gt → c y z ≠ .gt → c x z ≠ .gt

theorem OrdersOn.not_lt (h : OrdersOn S c) (hx : S x) (hy : S y) : c x y ≠ .lt ↔ c y x ≠ .gt := by
  rw [h.swap x y hx hy]
  cases c x y <;> decide

theorem OrdersOn.reverse (h : OrdersOn S c) : OrdersOn S fun x y => c y x where
  swap := fun x y hx hy => h.swap y x hy hx
  trans := fun x y z hx hy hz hxy hyz => h.trans z y x hz hy hx hyz hxy

def Winner {α : Type} (c : α → α → Ordering) (items : List α) (w : α) : Prop :=
  w ∈ items ∧ ∀ x ∈ items, c w x ≠ .lt

theorem OrdersOn.self (h : OrdersOn S c) (hx : S x) : c x x = .eq := by
  have hswap := h.swap x x hx hx
  cases hc : c x x with
  | eq => rfl
  | lt | gt => rw [hc] at hswap; cases hswap

theorem OrdersOn.winner_self (h : OrdersOn S c) (hx : S x) : Winner c [x] x := by
  refine ⟨mem_cons_self, fun y hy => ?_⟩
  rw [mem_singleton.mp hy, h.self hx]
  decide

theorem OrdersOn.winner_left (h : OrdersOn S c) {xs ys : List α} (hxs : ∀ x ∈ xs, S x)
    (hys : ∀ y ∈ ys, S y) {w : α} (hw : Winner c xs w) (hy : Winner c ys y) (hkept : c y w ≠ .gt) :
    Winner c (xs ++ ys) w := by
  refine ⟨mem_append_left _ hw.1, fun z hz => ?_⟩
  rcases mem_append.mp hz with hz | hz
  · exact hw.2 z hz
  · have hle := (h.not_lt (hys y hy.1) (hys z hz)).mp (hy.2 z hz)
    exact (h.not_lt (hxs w hw.1) (hys z hz)).mpr
      (h.trans z y w (hys z hz) (hys y hy.1) (hxs w hw.1) hle hkept)

theorem OrdersOn.winner_right (h : OrdersOn S c) {xs ys : List α} (hxs : ∀ x ∈ xs, S x)
    (hys : ∀ y ∈ ys, S y) {w : α} (hw : Winner c xs w) (hy : Winner c ys y) (hbeats : c y w = .gt) :
    Winner c (xs ++ ys) y := by
  refine ⟨mem_append_right _ hy.1, fun z hz => ?_⟩
  rcases mem_append.mp hz with hz | hz
  · have hle := (h.not_lt (hxs w hw.1) (hxs z hz)).mp (hw.2 z hz)
    have hwy : c w y ≠ .gt := by
      rw [h.swap y w (hys y hy.1) (hxs w hw.1), hbeats]
      decide
    exact (h.not_lt (hys y hy.1) (hxs z hz)).mpr
      (h.trans z w y (hxs z hz) (hxs w hw.1) (hys y hy.1) hle hwy)
  · exact hy.2 z hz

end Ladybug
