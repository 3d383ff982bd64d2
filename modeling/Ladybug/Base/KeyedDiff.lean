import Mathlib.Data.List.Nodup

/-!
# Keyed collections and their patches

A collection is a partial map from keys to contents.  A patch sets some keys and then erases some;
this file says when a patch turns one collection into another, and when a patch computed for one
keying (`R`) is also right for a second keying (`K`) of the same contents.
-/

namespace Ladybug

open List Function

section

variable {R A : Type} [DecidableEq R]

def setAll (ups : List (R × A)) (m : R → Option A) : R → Option A :=
  ups.foldl (fun m u => update m u.1 (some u.2)) m

def eraseAll (dels : List R) (m : R → Option A) : R → Option A :=
  dels.foldl (fun m r => update m r none) m

/-- The sets, in their order, and then the erasures. -/
def patch (ups : List (R × A)) (dels : List R) (m : R → Option A) : R → Option A :=
  eraseAll dels (setAll ups m)

theorem eraseAll_apply (dels : List R) (m : R → Option A) (r : R) :
    eraseAll dels m r = if r ∈ dels then none else m r := by
  unfold eraseAll
  induction dels generalizing m with
  | nil => simp
  | cons d dels ih =>
    rw [foldl_cons, ih, update_apply]
    by_cases hd : r = d
    · simp [hd]
    · simp [hd]

-- sets that agree with `new` leave `new` on the keys they name
variable {ups : List (R × A)} {r : R} {old : R → Option A}

theorem setAll_apply {new : R → Option A} (hsound : ∀ u ∈ ups, new u.1 = some u.2)
    (m : R → Option A) (r : R) : setAll ups m r = if r ∈ ups.map Prod.fst then new r else m r := by
  unfold setAll
  induction ups generalizing m with
  | nil => simp
  | cons u ups ih =>
    rw [foldl_cons, ih fun x hx => hsound x (mem_cons_of_mem u hx), update_apply, map_cons]
    by_cases hr : r = u.1
    · rw [if_pos hr, hr, hsound u mem_cons_self, ite_self, if_pos mem_cons_self]
    · rw [if_neg hr]
      have hmem : r ∈ u.1 :: ups.map Prod.fst ↔ r ∈ ups.map Prod.fst := by
        rw [mem_cons, or_iff_right hr]
      simp only [hmem]

theorem setAll_of_notMem (h : r ∉ ups.map Prod.fst) (m : R → Option A) : setAll ups m r = m r := by
  unfold setAll
  induction ups generalizing m with
  | nil => rfl
  | cons u ups ih =>
    rw [map_cons, mem_cons, not_or] at h
    rw [foldl_cons, ih h.2, update_of_ne h.1]

-- what is set does not depend on what another key held before
theorem setAll_congr {m m' : R → Option A} (h : m r = m' r) : setAll ups m r = setAll ups m' r := by
  induction ups generalizing m m' with
  | nil => exact h
  | cons u ups ih =>
    apply ih
    show update m u.1 (some u.2) r = update m' u.1 (some u.2) r
    rw [update_apply, update_apply, h]

theorem setAll_eraseAll_comm {dels : List R} (h : ∀ u ∈ ups, u.1 ∉ dels) (m : R → Option A) :
    setAll ups (eraseAll dels m) = eraseAll dels (setAll ups m) := by
  funext r
  rw [eraseAll_apply]
  by_cases hr : r ∈ dels
  · have hset : r ∉ ups.map Prod.fst := by
      intro hmem
      obtain ⟨u, hu, rfl⟩ := mem_map.mp hmem
      exact h u hu hr
    rw [if_pos hr, setAll_of_notMem hset, eraseAll_apply, if_pos hr]
  · rw [if_neg hr]
    apply setAll_congr
    rw [eraseAll_apply, if_neg hr]

/-- The sets `ups` carry `old` to `new` as far as sets can: they are contents of `new`, and where
they are silent `new` keeps what `old` had. -/
structure Covers (old new : R → Option A) (ups : List (R × A)) : Prop where
  sound : ∀ u ∈ ups, new u.1 = some u.2
  complete : ∀ r a, new r = some a → r ∉ ups.map Prod.fst → old r = some a

theorem patch_apply {new : R → Option A} (h : Covers old new ups) (dels : List R) (r : R) :
    patch ups dels old r =
      if r ∈ dels then none else if r ∈ ups.map Prod.fst then new r else old r := by
  rw [patch, eraseAll_apply, setAll_apply h.sound]

/-- A covering patch is right exactly when it erases the keys of `old` that `new` lost, and no
key of `new`. -/
theorem patch_eq_iff {new : R → Option A} (h : Covers old new ups) (dels : List R) :
    patch ups dels old = new ↔
      (∀ r ∈ dels, new r = none) ∧ (∀ r, old r ≠ none → new r = none → r ∈ dels) := by
  constructor
  · intro heq
    constructor
    · intro r hr
      rw [← heq, patch_apply h, if_pos hr]
    · intro r hold hnew
      by_contra hr
      have hpatch := patch_apply h dels r
      rw [heq, hnew, if_neg hr] at hpatch
      by_cases hu : r ∈ ups.map Prod.fst
      · obtain ⟨u, hmem, rfl⟩ := mem_map.mp hu
        rw [h.sound u hmem] at hnew
        cases hnew
      · rw [if_neg hu] at hpatch
        exact hold hpatch.symm
  · rintro ⟨hdels, hlost⟩
    funext r
    rw [patch_apply h]
    by_cases hr : r ∈ dels
    · rw [if_pos hr, hdels r hr]
    rw [if_neg hr]
    by_cases hu : r ∈ ups.map Prod.fst
    · rw [if_pos hu]
    rw [if_neg hu]
    cases hnew : new r with
    | some a => exact h.complete r a hnew hu
    | none =>
      by_contra hold
      exact hr (hlost r hold hnew)

end

section

variable {R A K B : Type} (key : R → A → K) (val : R → A → B)

def Indexes (T : K → Option B) (m : R → Option A) : Prop :=
  ∀ k b, T k = some b ↔ ∃ r a, m r = some a ∧ key r a = k ∧ val r a = b

/-- No two entries of `m` have the same key. -/
def KeyInj (m : R → Option A) : Prop :=
  ∀ r s a b, m r = some a → m s = some b → key r a = key s b → r = s

def rekey (u : R × A) : K × B := (key u.1 u.2, val u.1 u.2)

variable {key val} {old new : R → Option A} {oldK newK : K → Option B}

section

variable (h : Indexes key val newK new)

include h

theorem Indexes.apply {r : R} {a : A} (hr : new r = some a) :
    newK (key r a) = some (val r a) := (h _ _).mpr ⟨r, a, hr, rfl, rfl⟩

theorem Indexes.ne_none {k : K} : newK k ≠ none ↔ ∃ r a, new r = some a ∧ key r a = k := by
  constructor
  · intro hk
    obtain ⟨b, hb⟩ := Option.ne_none_iff_exists'.mp hk
    obtain ⟨r, a, hr, hkey, -⟩ := (h k b).mp hb
    exact ⟨r, a, hr, hkey⟩
  · rintro ⟨r, a, hr, rfl⟩
    rw [h.apply hr]
    exact Option.some_ne_none _

theorem Indexes.unique {newK' : K → Option B} (h' : Indexes key val newK' new) : newK = newK' := by
  funext k
  apply Option.ext
  intro b
  exact (h k b).trans (h' k b).symm

end

theorem exists_indexes (val : R → A → B) (hinj : KeyInj key new) : ∃ T, Indexes key val T new := by
  classical
  refine ⟨fun k => if h : ∃ e : R × A, new e.1 = some e.2 ∧ key e.1 e.2 = k then
    some (val h.choose.1 h.choose.2) else none, ?_⟩
  intro k b
  simp only
  constructor
  · intro hk
    split at hk
    next h =>
      cases hk
      exact ⟨h.choose.1, h.choose.2, h.choose_spec.1, h.choose_spec.2, rfl⟩
    · cases hk
  · rintro ⟨r, a, hr, rfl, rfl⟩
    have h : ∃ e : R × A, new e.1 = some e.2 ∧ key e.1 e.2 = key r a := ⟨(r, a), hr, rfl⟩
    rw [dif_pos h]
    obtain ⟨hnew, hkey⟩ := h.choose_spec
    -- the chosen entry has the key of `r`, so it is the entry of `r`
    have hrow : h.choose.1 = r := hinj _ _ _ _ hnew hr hkey
    have hval : h.choose.2 = a := by
      rw [hrow, hr] at hnew
      exact (Option.some.inj hnew).symm
    rw [hrow, hval]

variable {ups : List (R × A)}

section

variable (h : Covers old new ups) (hold : Indexes key val oldK old)
  (hnew : Indexes key val newK new)

include h hold hnew

theorem Covers.rekey : Covers oldK newK (ups.map (rekey key val)) := by
  constructor
  · intro u hu
    obtain ⟨v, hv, rfl⟩ := mem_map.mp hu
    exact hnew.apply (h.sound v hv)
  · intro k b hk hnot
    obtain ⟨r, a, hr, rfl, rfl⟩ := (hnew k b).mp hk
    apply hold.apply
    apply h.complete r a hr
    intro hmem
    obtain ⟨u, hu, rfl⟩ := mem_map.mp hmem
    have ha := h.sound u hu
    rw [hr] at ha
    cases ha
    apply hnot
    rw [map_map, mem_map]
    exact ⟨u, hu, rfl⟩

/-- Erasures by the keys of `gone` finish a covering patch exactly when the entries whose key `new`
lost are those in `gone`: where the two keyings disagree on an entry, the patch is wrong. -/
theorem rekeyed_patch_iff [DecidableEq K] {dels : List K} {gone : R → Prop} (hinj : KeyInj key old)
    (hdels : ∀ k, k ∈ dels ↔ ∃ r a, old r = some a ∧ gone r ∧ key r a = k) :
    patch (ups.map (rekey key val)) dels oldK = newK ↔
      ∀ r a, old r = some a → (gone r ↔ ∀ s b, new s = some b → key s b ≠ key r a) := by
  rw [patch_eq_iff (h.rekey hold hnew)]
  have hlost : ∀ k, newK k = none ↔ ∀ s b, new s = some b → key s b ≠ k := by
    intro k
    rw [← not_iff_not, ← ne_eq, hnew.ne_none]
    push Not
    exact Iff.rfl
  constructor
  · rintro ⟨herased, hstale⟩ r a hr
    constructor
    · intro hgone
      exact (hlost _).mp (herased _ ((hdels _).mpr ⟨r, a, hr, hgone, rfl⟩))
    · intro hfree
      have hmem := hstale (key r a) (hold.ne_none.mpr ⟨r, a, hr, rfl⟩) ((hlost _).mpr hfree)
      obtain ⟨r', a', hr', hgone, hkey⟩ := (hdels _).mp hmem
      rwa [← hinj r' r a' a hr' hr hkey]
  · intro hall
    constructor
    · intro k hk
      obtain ⟨r, a, hr, hgone, rfl⟩ := (hdels k).mp hk
      exact (hlost _).mpr ((hall r a hr).mp hgone)
    · intro k hk hnone
      obtain ⟨r, a, hr, rfl⟩ := hold.ne_none.mp hk
      exact (hdels _).mpr ⟨r, a, hr, (hall r a hr).mpr ((hlost _).mp hnone), rfl⟩

end

end

end Ladybug
