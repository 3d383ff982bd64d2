import Ladybug.Sqlite.ResolverCalls

/-!
# What the memory knows

The rows a table state tracks, and how one leaf of a full diff is taken over or loaded.
-/

namespace Ladybug.Sqlite

open Bytes

def TableState.Knows (st : TableState) (x : Int64) : Prop := ∃ p, x ∈ trackedOn st p

variable {st st' : TableState} {p : UInt32} {page : PageState} {x : Int64}

theorem trackedOn_insert_self (h : st'.pages = st.pages.insert p page) :
    trackedOn st' p = page.rowids := by
  unfold trackedOn
  rw [h, AList.lookup_insert]

theorem trackedOn_insert_ne {q : UInt32} (h : st'.pages = st.pages.insert p page) (hq : q ≠ p) :
    trackedOn st' q = trackedOn st q := by
  unfold trackedOn
  rw [h, AList.lookup_insert_ne hq]

theorem mem_ofRows_rowids {rows : List DecodedRow} {hash : UInt64} :
    x ∈ (PageState.ofRows rows hash).rowids ↔ x ∈ rows.map DecodedRow.rowid := List.mem_dedup

theorem knows_iff : st.Knows x ↔ x ∈ st.trackedRowids := by
  unfold TableState.Knows TableState.trackedRowids
  rw [List.mem_flatMap]
  constructor
  · rintro ⟨p, hp⟩
    obtain ⟨page, hpage, hx⟩ := mem_trackedOn.mp hp
    exact ⟨⟨p, page⟩, entry_iff_lookup.mpr hpage, hx⟩
  · rintro ⟨e, he, hx⟩
    exact ⟨e.1, mem_trackedOn.mpr ⟨e.2, entry_iff_lookup.mp he, hx⟩⟩

theorem collectLeafPages_nodup {root : UInt32} {f : PageFetcher} {size : Nat}
    {leaves : List UInt32} (h : collectLeafPages root f size = .ok leaves) : leaves.Nodup := by
  unfold collectLeafPages at h
  split at h
  · cases h
  · exact walkPages_nodup List.nodup_nil h

section

variable {name : String} {old : Option TableState} {w w' : Work} {p : UInt32} {f : PageFetcher}
  {size : Nat}

theorem loadPage_deletes (h : loadPage name f size w p = .ok w') : w'.deletes = w.deletes := by
  obtain ⟨decoded, -, h⟩ := bind_eq_ok.mp h
  cases h
  rfl

theorem diffLeaf_cases (h : diffLeaf name f size old w p = .ok w') :
    (∃ st page image bytes, old = some st ∧ st.pages.lookup p = some page ∧ f p = some image ∧
      readSlice image 0 size = .ok bytes ∧ page.imageHash = hashImage bytes ∧
      w' = w.setPages (w.state.pages.insert p page)) ∨
    loadPage name f size w p = .ok w' := by
  unfold diffLeaf at h
  split at h
  · cases h
  next image himage =>
    obtain ⟨bytes, hbytes, h⟩ := bind_eq_ok.mp h
    split at h
    next page hpage =>
      split at h
      next hhash =>
        cases h
        obtain ⟨st, rfl, hst⟩ := Option.bind_eq_some_iff.mp hpage
        exact .inl ⟨st, page, image, bytes, rfl, hst, himage, hbytes, hhash, rfl⟩
      · exact .inr h
    · exact .inr h

theorem diffLeaf_deletes (h : diffLeaf name f size old w p = .ok w') : w'.deletes = w.deletes := by
  rcases diffLeaf_cases h with ⟨_, _, _, _, -, -, -, -, -, rfl⟩ | hload
  · rfl
  · exact loadPage_deletes hload

end

end Ladybug.Sqlite
