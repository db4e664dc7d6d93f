import Mathlib.Data.List.Range
import Mathlib.Data.List.Sort

/-! # Pages of a sorted query

A list is read page by page, each page by a query of its own that sorts by a key and skips what was read.  Rows with
equal keys stand in any order, and in another one at the next query.  The pages cover the list exactly if no page ends
between rows with equal keys.
-/
namespace FragmentMemory.StablePages

variable {α κ : Type*} [LinearOrder κ] {key : α → κ} {rows : List α}

/-- An answer of a query that sorts the rows by the key. -/
structure Arrangement (key : α → κ) (rows : List α) where
  list : List α
  perm : list.Perm rows
  sorted : list.Pairwise fun a b => key a ≤ key b

def page (size offset : ℕ) (answer : List α) : List α := (answer.drop offset).take size

/-- Pages are read until one is not full; the `k`-th query has the answer `answers k`. -/
def readPages (answers : ℕ → List α) (size : ℕ) : ℕ → ℕ → ℕ → List α
  | 0, _, _ => []
  | fuel + 1, k, offset =>
    let rows := page size offset (answers k)
    if rows.length < size then rows else rows ++ readPages answers size fuel (k + 1) (offset + rows.length)

/-- So many rows are exactly those below some key. -/
def CleanCut (key : α → κ) (rows : List α) (m : ℕ) : Prop := ∃ bound, rows.countP (fun a => key a < bound) = m

/-! ## The pages of all queries -/

/-- With enough queries, the pages that are read are all pages up to the first one that is not full. -/
theorem readPages_eq {answers : ℕ → List α} {size n : ℕ} (hsize : 0 < size) (hlength : ∀ k, (answers k).length = n)
    {fuel k : ℕ} (hk : k ≤ n / size) (hfuel : n / size < k + fuel) :
    readPages answers size fuel k (k * size) =
      (List.range' k (n / size + 1 - k)).flatMap fun j => page size (j * size) (answers j) := by
  induction fuel generalizing k with
  | zero => omega
  | succ fuel ih =>
    have hpage : (page size (k * size) (answers k)).length = min size (n - k * size) := by
      rw [page, List.length_take, List.length_drop, hlength]
    have hrange : List.range' k (n / size + 1 - k) = k :: List.range' (k + 1) (n / size - k) := by
      have hcount : n / size + 1 - k = n / size - k + 1 := by omega
      rw [hcount, List.range'_succ]
    simp only [readPages, hrange, List.flatMap_cons]
    by_cases hfull : (k + 1) * size ≤ n
    · have hle : size ≤ n - k * size := by
        rw [Nat.add_mul, Nat.one_mul] at hfull
        omega
      have hnext : k + 1 ≤ n / size := (Nat.le_div_iff_mul_le hsize).mpr hfull
      have hoffset : k * size + size = (k + 1) * size := by rw [Nat.add_mul, Nat.one_mul]
      rw [if_neg (by rw [hpage]; omega), hpage, Nat.min_eq_left hle, hoffset, ih hnext (by omega)]
      have hcount : n / size + 1 - (k + 1) = n / size - k := by omega
      rw [hcount]
    · have hlast : n / size = k := by
        have hlt : n / size < k + 1 := (Nat.div_lt_iff_lt_mul hsize).mpr (by omega)
        omega
      have hshort : n - k * size < size := by
        rw [Nat.add_mul, Nat.one_mul] at hfull
        omega
      rw [if_pos (by rw [hpage]; omega), hlast]
      simp

theorem readPages_eq_flatMap {answers : ℕ → List α} {size n : ℕ} (hsize : 0 < size)
    (hlength : ∀ k, (answers k).length = n)
    {fuel : ℕ} (hfuel : n / size < fuel) :
    readPages answers size fuel 0 0 = (List.range (n / size + 1)).flatMap fun j =>
      page size (j * size) (answers j) := by
  have hpages := @readPages_eq α answers size n hsize hlength fuel 0 (Nat.zero_le _) (by omega)
  rw [Nat.zero_mul, Nat.sub_zero] at hpages
  rw [hpages, List.range_eq_range']

/-! ## Cuts -/

theorem take_countP {l : List α} (hsorted : l.Pairwise fun a b => key a ≤ key b) (bound : κ) :
    l.take (l.countP fun a => key a < bound) = l.filter fun a => key a < bound := by
  induction l with
  | nil => rfl
  | cons a later ih =>
    obtain ⟨hhead, htail⟩ := List.pairwise_cons.mp hsorted
    by_cases ha : key a < bound
    · simp [ha, ih htail]
    · have hnone : ∀ b ∈ later, ¬ key b < bound := by
        intro b hb hlt
        exact ha (lt_of_le_of_lt (hhead b hb) hlt)
      have hempty : (later.filter fun b => key b < bound) = [] := List.filter_eq_nil_iff.mpr (by simpa using hnone)
      have hcount : (later.countP fun b => key b < bound) = 0 := by
        rw [List.countP_eq_length_filter, hempty, List.length_nil]
      simp [ha, hempty, hcount]

/-- Up to a clean cut all answers have the same rows. -/
theorem perm_take {m : ℕ} (hcut : m = 0 ∨ rows.length ≤ m ∨ CleanCut key rows m) (a b : Arrangement key rows) :
    (a.list.take m).Perm (b.list.take m) := by
  have hperm : a.list.Perm b.list := a.perm.trans b.perm.symm
  rcases hcut with rfl | hall | ⟨bound, hcount⟩
  · exact List.Perm.refl _
  · rw [List.take_of_length_le (by rw [a.perm.length_eq]; exact hall), List.take_of_length_le (by rw [b.perm.length_eq]; exact hall)]
    exact hperm
  · have htake : ∀ c : Arrangement key rows, c.list.take m = c.list.filter fun r => key r < bound := by
      intro c
      rw [← take_countP c.sorted bound, c.perm.countP_eq, hcount]
    rw [htake, htake]
    exact hperm.filter _

/-- Between clean cuts all answers have the same page. -/
theorem perm_page {size offset : ℕ} (hstart : offset = 0 ∨ rows.length ≤ offset ∨ CleanCut key rows offset)
    (hend : offset + size = 0 ∨ rows.length ≤ offset + size ∨
      CleanCut key rows (offset + size)) (a b : Arrangement key rows) :
    (page size offset a.list).Perm (page size offset b.list) := by
  have hsplit : ∀ c :
    Arrangement key rows, c.list.take (offset + size) = c.list.take offset ++ page size offset c.list :=
    fun c => List.take_add
  have htake := perm_take hend a b
  rw [hsplit, hsplit] at htake
  have hfront := (perm_take hstart a b).append_right (page size offset b.list)
  exact (List.perm_append_left_iff (a.list.take offset)).mp (htake.trans hfront.symm)

/-! ## Exactly once -/

/-- The pages of one answer are the answer. -/
theorem flatMap_page (size pages : ℕ) (l : List α) :
    ((List.range pages).flatMap fun j => page size (j * size) l) = l.take (pages * size) := by
  induction pages with
  | zero => simp
  | succ pages ih =>
    rw [List.range_succ, List.flatMap_append, ih, Nat.add_mul, Nat.one_mul, List.take_add]
    simp [page]

/-- Where no page ends between equal keys, every row is read exactly once. -/
theorem perm_readPages {size : ℕ} (hsize : 0 < size)
    (hcuts : ∀ k, 0 < k → k * size < rows.length → CleanCut key rows (k * size)) (answers : ℕ → Arrangement key rows)
    {fuel : ℕ} (hfuel : rows.length / size < fuel) :
    (readPages (fun k => (answers k).list) size fuel 0 0).Perm rows := by
  have hcut : ∀ k, k * size = 0 ∨ rows.length ≤ k * size ∨ CleanCut key rows (k * size) := by
    intro k
    rcases Nat.eq_zero_or_pos k with rfl | hpos
    · exact Or.inl (Nat.zero_mul size)
    · by_cases hlt : k * size < rows.length
      · exact Or.inr (Or.inr (hcuts k hpos hlt))
      · exact Or.inr (Or.inl (by omega))
  have hpages : ∀ pages, ((List.range pages).flatMap fun j => page size (j * size) (answers j).list).Perm
      ((List.range pages).flatMap fun j => page size (j * size) (answers 0).list) := by
    intro pages
    induction pages with
    | zero => exact List.Perm.refl _
    | succ pages ih =>
      have hend := hcut (pages + 1)
      rw [Nat.add_mul, Nat.one_mul] at hend
      have hlast := perm_page (hcut pages) hend (answers pages) (answers 0)
      simpa [List.range_succ] using ih.append hlast
  have hlength : ∀ k, ((answers k).list).length = rows.length := fun k => (answers k).perm.length_eq
  rw [readPages_eq_flatMap hsize hlength hfuel]
  refine (hpages _).trans ?_
  have hall : rows.length ≤ (rows.length / size + 1) * size := by
    have hdiv := Nat.lt_div_mul_add hsize (a := rows.length)
    rw [Nat.add_mul, Nat.one_mul]
    omega
  rw [flatMap_page, List.take_of_length_le (by rw [hlength]; exact hall)]
  exact (answers 0).perm

/-! ## Ties -/

/-- The neighbours of a cut that is not clean have equal keys. -/
theorem tie_of_not_cleanCut {front back : List α} {x y : α}
    (hperm : (front ++ x :: y :: back).Perm rows) (hsorted : (front ++ x :: y :: back).Pairwise fun a b => key a ≤ key b)
    (hcut : ¬ CleanCut key rows (front.length + 1)) : key x = key y := by
  obtain ⟨-, htail, hcross⟩ := List.pairwise_append.mp hsorted
  obtain ⟨hx, hlater⟩ := List.pairwise_cons.mp htail
  have hxy := hx y List.mem_cons_self
  by_contra hne
  have hlt : key x < key y := lt_of_le_of_ne hxy hne
  refine hcut ⟨key y, ?_⟩
  have hfront : (front.countP fun a => key a < key y) = front.length := by
    refine List.countP_eq_length.mpr fun a ha => decide_eq_true ?_
    exact lt_of_le_of_lt (hcross a ha x List.mem_cons_self) hlt
  have hback : ((y :: back).countP fun a => key a < key y) = 0 := by
    refine List.countP_eq_zero.mpr fun b hb => ?_
    rcases List.mem_cons.mp hb with rfl | hmem
    · simp
    · have hle := (List.pairwise_cons.mp hlater).1 b hmem
      simpa using hle
  rw [← hperm.countP_eq, List.countP_append, List.countP_cons_of_pos (by simpa using hlt), hfront, hback]

/-- Neighbours with equal keys may stand in the other order. -/
def swapped {front back : List α} {x y : α} (hperm : (front ++ x :: y :: back).Perm rows)
    (hsorted : (front ++ x :: y :: back).Pairwise fun a b => key a ≤ key b) (htie : key x = key y) :
    Arrangement key rows where
  list := front ++ y :: x :: back
  perm := ((List.Perm.swap x y back).append_left front).trans hperm
  sorted := by
    have hkeys : (front ++ y :: x :: back).map key = (front ++ x :: y :: back).map key := by simp [htie]
    have hmap := List.pairwise_map.mpr hsorted
    rw [← hkeys] at hmap
    exact List.pairwise_map.mp hmap

theorem exists_arrangement (key : α → κ) (rows : List α) : Nonempty (Arrangement key rows) := by
  have htotal : Std.Total fun a b : α => key a ≤ key b := ⟨fun a b => le_total (key a) (key b)⟩
  have htrans : IsTrans α fun a b => key a ≤ key b := ⟨fun _ _ _ => le_trans⟩
  exact ⟨⟨rows.insertionSort fun a b => key a ≤ key b, List.perm_insertionSort _ _, List.pairwise_insertionSort _ _⟩⟩

theorem getElem_mem_page {size offset i : ℕ} {l : List α} (hlow : offset ≤ i) (hhigh : i < offset + size)
    (hi : i < l.length) :
    l[i] ∈ page size offset l := by
  have hget : (page size offset l)[i - offset]? = some l[i] := by
    rw [page,
      List.getElem?_take_of_lt (by omega), List.getElem?_drop, Nat.add_sub_cancel' hlow, List.getElem?_eq_getElem hi]
  exact List.mem_of_getElem? hget

theorem exists_neighbours {l : List α} {m : ℕ} (hpos : 0 < m) (hm : m < l.length) :
    ∃ front x y back, l = front ++ x :: y :: back ∧ front.length + 1 = m := by
  have hx : m - 1 < l.length := by omega
  have hnext : m - 1 + 1 = m := by omega
  have hdrop := List.drop_eq_getElem_cons hx
  rw [hnext, List.drop_eq_getElem_cons hm] at hdrop
  refine ⟨l.take (m - 1), l[m - 1], l[m], l.drop (m + 1), ?_, ?_⟩
  · rw [← hdrop, List.take_append_drop]
  · rw [List.length_take]
    omega

/-- When neighbours with equal keys change places after the query of the first one's page, that one is read twice. -/
theorem not_nodup_of_tie {size : ℕ} (hsize : 0 < size) {fuel : ℕ} (hfuel : rows.length / size < fuel) {k : ℕ}
    (hk : 0 < k)
    {front back : List α} {x y : α} (hperm : (front ++ x :: y :: back).Perm rows)
    (hsorted : (front ++ x :: y :: back).Pairwise fun a b => key a ≤ key b) (hfront : front.length + 1 = k * size)
    (htie : key x = key y) :
    ∃ answers : ℕ → Arrangement key rows, ¬ (readPages (fun j => (answers j).list) size fuel 0 0).Nodup := by
  let first : Arrangement key rows := ⟨front ++ x :: y :: back, hperm, hsorted⟩
  let other : Arrangement key rows := swapped hperm hsorted htie
  refine ⟨fun j => if j < k then first else other, fun hnodup => ?_⟩
  have hlengths : ∀ j, (if j < k then first else other).list.length = rows.length :=
    fun j => (if j < k then first else other).perm.length_eq
  have hlength : front.length + 2 + back.length = rows.length := by
    rw [← hperm.length_eq, List.length_append, List.length_cons, List.length_cons]
    omega
  rw [readPages_eq_flatMap hsize hlengths hfuel] at hnodup
  have hdisjoint := (List.nodup_flatMap.mp hnodup).2
  have hlast : k < rows.length / size + 1 := Nat.lt_succ_of_le ((Nat.le_div_iff_mul_le hsize).mpr (by omega))
  have hbefore : k - 1 < k := by omega
  have hpages := (List.pairwise_iff_getElem.mp hdisjoint) (k - 1) k (by rw [List.length_range]; omega)
    (by rw [List.length_range]; exact hlast) hbefore
  simp only [List.getElem_range, Function.onFun, if_pos hbefore, lt_irrefl, if_false] at hpages
  have hstart : (k - 1) * size + size = k * size := by
    rw [← Nat.succ_mul, Nat.succ_eq_add_one, Nat.sub_add_cancel hk]
  have hfirst : x ∈ page size ((k - 1) * size) first.list := by
    have hx : front.length < first.list.length := by
      rw [first.perm.length_eq]
      omega
    have hget : first.list[front.length] = x := by simp [first]
    rw [← hget]
    exact getElem_mem_page (by omega) (by omega) hx
  have hsecond : x ∈ page size (k * size) other.list := by
    have hother : other.list = front ++ y :: x :: back := rfl
    have hx : front.length + 1 < other.list.length := by
      rw [other.perm.length_eq]
      omega
    have hget : other.list[front.length + 1] = x := by simp [hother]
    rw [← hget]
    exact getElem_mem_page (by omega) (by omega) hx
  exact hpages hfirst hsecond

/-- The pages cover the rows once, in whatever order ties stand, exactly if no page ends between equal keys. -/
theorem forall_perm_readPages_iff {size : ℕ} (hsize : 0 < size) (hnodup : rows.Nodup) {fuel : ℕ}
    (hfuel : rows.length / size < fuel) :
    (∀ answers : ℕ → Arrangement key rows, (readPages (fun k => (answers k).list) size fuel 0 0).Perm rows) ↔
      ∀ k, 0 < k → k * size < rows.length → CleanCut key rows (k * size) := by
  constructor
  · intro hall k hk hinside
    by_contra hcut
    obtain ⟨arranged⟩ := exists_arrangement key rows
    have hperm := arranged.perm
    have hsorted := arranged.sorted
    obtain ⟨front, x, y, back, hlist, hfront⟩ :=
      exists_neighbours (Nat.mul_pos hk hsize) (lt_of_lt_of_eq hinside hperm.length_eq.symm)
    rw [hlist] at hperm hsorted
    have htie := tie_of_not_cleanCut hperm hsorted (hfront ▸ hcut)
    obtain ⟨answers, htwice⟩ := not_nodup_of_tie hsize hfuel hk hperm hsorted hfront htie
    exact htwice ((hall answers).nodup_iff.mpr hnodup)
  · intro hcuts answers
    exact perm_readPages hsize hcuts answers hfuel

end FragmentMemory.StablePages
