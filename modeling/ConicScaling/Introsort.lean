/-!
# Introsort

A sort in place: long parts are split at the median of three keys, and a part that does not get
short soon enough is sorted as a heap. Parts of up to sixteen entries are left as they are, for a
final pass of insertions. Insertions keep equal keys in order, so the steps given here decide alone
in which order equal keys end. They only exchange entries.
-/
namespace ConicScaling.Introsort

variable {γ : Type} (key : γ → Nat)

/-- The key at a place, zero beyond the end. -/
def keyAt (a : Array γ) (i : Nat) : Nat := (a[i]?).elim 0 key

/-! ## Partitions -/

/-- The place, among three, that holds the median key. -/
def medianPlace (a : Array γ) (i j k : Nat) : Nat :=
  let (x, y, z) := (keyAt key a i, keyAt key a j, keyAt key a k)
  if x < y then if y < z then j else if x < z then k else i
  else if x < z then i else if y < z then k else j

/-- The first place from `i` on whose key is not below the pivot. -/
def scanUp (a : Array γ) (pivot i : Nat) : Nat :=
  if i < a.size ∧ keyAt key a i < pivot then scanUp a pivot (i + 1) else i
termination_by a.size - i

/-- The last place down from `j` whose key is not above the pivot. -/
def scanDown (a : Array γ) (pivot : Nat) : Nat → Nat
  | 0 => 0
  | j + 1 => if pivot < keyAt key a (j + 1) then scanDown a pivot j else j + 1

theorem scanDown_le (a : Array γ) (pivot j : Nat) : scanDown key a pivot j ≤ j := by
  induction j with
  | zero => simp [scanDown]
  | succ j ih => unfold scanDown; split <;> omega

/-- Exchanges entries of places `i` to `j - 1` until no key above the pivot precedes one below it,
and returns the place where the upper part begins. -/
def partition (pivot : Nat) (a : Array γ) (i j : Nat) : Array γ × Nat :=
  let up := scanUp key a pivot i
  let down := scanDown key a pivot (j - 1)
  if up < down then partition pivot (a.swapIfInBounds up down) (up + 1) down else (a, up)
termination_by j
decreasing_by have := scanDown_le key a pivot (j - 1); omega

/-- Splits the part from `lo` to `hi` at the median of its second, middle and last key. -/
def split (a : Array γ) (lo hi : Nat) : Array γ × Nat :=
  let a := a.swapIfInBounds lo (medianPlace key a (lo + 1) (lo + (hi - lo) / 2) (hi - 1))
  partition key (keyAt key a lo) a (lo + 1) hi

/-! ## Heaps -/

/-- Moves the entry at a node down to a leaf of the heap of `n` entries that starts at `lo`, always
below the greater child. -/
def sink (lo n : Nat) (a : Array γ) (node : Nat) : Array γ × Nat :=
  let left := 2 * node + 1
  if left + 1 < n then
    let child := if keyAt key a (lo + left + 1) < keyAt key a (lo + left) then left else left + 1
    sink lo n (a.swapIfInBounds (lo + node) (lo + child)) child
  else if left < n then (a.swapIfInBounds (lo + node) (lo + left), left)
  else (a, node)
termination_by n - node
decreasing_by grind

/-- Moves the entry at a node up while its parent has a lower key, but not above `top`. -/
def rise (lo top : Nat) (a : Array γ) (node : Nat) : Array γ :=
  let parent := (node - 1) / 2
  if top < node ∧ keyAt key a (lo + parent) < keyAt key a (lo + node) then
    rise lo top (a.swapIfInBounds (lo + node) (lo + parent)) parent
  else a
termination_by node

/-- Gives the entry at a node its place in the heap below it. -/
def settle (lo n : Nat) (a : Array γ) (node : Nat) : Array γ :=
  let (a, leaf) := sink key lo n a node
  rise key lo node a leaf

/-- Sorts the part from `lo` to `hi`, where the greatest key of the rest is moved to its end. -/
def heapSort (a : Array γ) (lo hi : Nat) : Array γ :=
  let n := hi - lo
  let heap := (List.range (n / 2)).reverse.foldl (settle key lo n) a
  (List.range (n - 1)).reverse.foldl
    (fun a k => settle key lo (k + 1) (a.swapIfInBounds lo (lo + (k + 1))) 0) heap

/-! ## The sort -/

/-- Arranges the part from `lo` to `hi`, which may be split as many times as `depth` says. -/
def arrangePart : Nat → Array γ → Nat → Nat → Array γ
  | 0, a, lo, hi => if hi - lo ≤ 16 then a else heapSort key a lo hi
  | depth + 1, a, lo, hi =>
    if hi - lo ≤ 16 then a
    else
      let (a, cut) := split key a lo hi
      arrangePart depth (arrangePart depth a cut hi) lo cut

/-- All but the last pass of the sort. -/
def arrange (a : Array γ) : Array γ := arrangePart key (2 * a.size.log2) a 0 a.size

/-! ## Exchanges only -/

theorem swapIfInBounds_perm (a : Array γ) (i j : Nat) : (a.swapIfInBounds i j).Perm a := by
  rw [Array.swapIfInBounds_def]
  split
  · split
    · exact Array.swap_perm _ _
    · exact .rfl
  · exact .rfl

theorem partition_perm (pivot : Nat) (a : Array γ) (i j : Nat) :
    (partition key pivot a i j).1.Perm a := by
  fun_induction partition key pivot a i j with
  | case1 a i j up down _ ih => exact ih.trans (swapIfInBounds_perm a up down)
  | case2 => exact .rfl

theorem split_perm (a : Array γ) (lo hi : Nat) : (split key a lo hi).1.Perm a :=
  (partition_perm key _ _ _ _).trans (swapIfInBounds_perm a _ _)

theorem sink_perm (lo n : Nat) (a : Array γ) (node : Nat) : (sink key lo n a node).1.Perm a := by
  fun_induction sink key lo n a node with
  | case1 a node right _ child ih => exact ih.trans (swapIfInBounds_perm a _ _)
  | case2 a node => exact swapIfInBounds_perm a _ _
  | case3 => exact .rfl

theorem rise_perm (lo top : Nat) (a : Array γ) (node : Nat) : (rise key lo top a node).Perm a := by
  fun_induction rise key lo top a node with
  | case1 a node parent _ ih => exact ih.trans (swapIfInBounds_perm a _ _)
  | case2 => exact .rfl

theorem settle_perm (lo n : Nat) (a : Array γ) (node : Nat) : (settle key lo n a node).Perm a :=
  (rise_perm key _ _ _ _).trans (sink_perm key lo n a node)

theorem foldl_perm {ι : Type} {step : Array γ → ι → Array γ} (h : ∀ a i, (step a i).Perm a)
    (is : List ι) (a : Array γ) : (is.foldl step a).Perm a := by
  induction is generalizing a with
  | nil => exact .rfl
  | cons i is ih => exact (ih (step a i)).trans (h a i)

theorem heapSort_perm (a : Array γ) (lo hi : Nat) : (heapSort key a lo hi).Perm a :=
  (foldl_perm (fun _ _ => (settle_perm key _ _ _ _).trans (swapIfInBounds_perm _ _ _)) _ _).trans
    (foldl_perm (settle_perm key lo _) _ a)

theorem arrangePart_perm (depth : Nat) (a : Array γ) (lo hi : Nat) :
    (arrangePart key depth a lo hi).Perm a := by
  induction depth generalizing a lo hi with
  | zero =>
    unfold arrangePart
    split
    · exact .rfl
    · exact heapSort_perm key a lo hi
  | succ depth ih =>
    unfold arrangePart
    split
    · exact .rfl
    · exact ((ih _ _ _).trans (ih _ _ _)).trans (split_perm key a lo hi)

theorem arrange_perm (a : Array γ) : (arrange key a).Perm a := arrangePart_perm key _ a _ _

end ConicScaling.Introsort
