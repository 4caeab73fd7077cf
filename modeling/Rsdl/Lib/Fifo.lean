import Mathlib.Data.List.Perm.Basic

/-! Facts about lists used as FIFO queues kept side by side.

`Edit gone new xs ys` says `ys` is `xs` with some of the entries `gone` allows deleted and
entries `new` allows appended at the end: every other entry of `xs` is kept, in its
order, and nothing is inserted before a kept entry. Deleting an allowed entry and
appending are such edits, and edits with the same allowances compose, so any sequence of
them is one; the composition is a counting argument, since an edit cannot keep an entry
outside `gone` by taking it from the appended part. `perm_flatMap_of_agree` says how the
concatenation of a family of queues changes when one of them is replaced. -/
namespace Fifo

variable {α : Type*}

/-- `ys` keeps a subsequence of `xs` that holds every entry outside `gone`, and appends
entries that `new` allows after it. -/
def Edit (gone new : α → Bool) (xs ys : List α) : Prop :=
  ∃ kept added, kept.Sublist xs ∧ (xs.filter fun a => !gone a).Sublist kept ∧
    (∀ a ∈ added, new a = true) ∧ ys = kept ++ added

namespace Edit

variable {gone new : α → Bool}

/-- A subsequence that keeps every entry outside `gone` has exactly those entries outside
`gone`. -/
theorem filter_eq {kept xs : List α} (sub : kept.Sublist xs)
    (keeps : (xs.filter fun a => !gone a).Sublist kept) :
    (kept.filter fun a => !gone a) = xs.filter fun a => !gone a := by
  refine (sub.filter _).antisymm ?_
  simpa [List.filter_filter] using keeps.filter fun a => !gone a

theorem refl (xs : List α) : Edit gone new xs xs :=
  ⟨xs, [], List.Sublist.refl xs, List.filter_sublist, by simp, by simp⟩

theorem trans {xs ys zs : List α} (first : Edit gone new xs ys) (second : Edit gone new ys zs) :
    Edit gone new xs zs := by
  obtain ⟨kept, added, sub, keeps, fresh, rfl⟩ := first
  obtain ⟨kept', added', sub', keeps', fresh', rfl⟩ := second
  obtain ⟨fromKept, fromAdded, rfl, subKept, subAdded⟩ := List.sublist_append_iff.mp sub'
  -- the second edit keeps as many entries outside `gone` as `kept ++ added` has, and
  -- neither part of what it keeps has more than its source, so `fromKept` has all of
  -- those of `kept`
  have fromKeptLe := (subKept.filter fun a => !gone a).length_le
  have fromAddedLe := (subAdded.filter fun a => !gone a).length_le
  have allLe := (keeps'.filter fun a => !gone a).length_le
  simp only [List.filter_filter, Bool.and_self, List.filter_append, List.length_append] at allLe
  have same : (fromKept.filter fun a => !gone a) = kept.filter fun a => !gone a :=
    (subKept.filter _).eq_of_length (by omega)
  refine ⟨fromKept, fromAdded ++ added', subKept.trans sub, ?_, ?_, by simp⟩
  · rw [← filter_eq sub keeps, ← same]
    exact List.filter_sublist
  · intro a member
    rcases List.mem_append.mp member with early | late
    · exact fresh a (subAdded.subset early)
    · exact fresh' a late

/-- Deleting an occurrence of an entry that `gone` allows keeps every other entry. -/
theorem filter_sublist_erase [BEq α] [LawfulBEq α] {a : α} (deletable : gone a = true) :
    ∀ xs : List α, (xs.filter fun b => !gone b).Sublist (xs.erase a)
  | [] => by simp
  | b :: rest => by
    by_cases same : b = a
    · subst b
      simp [deletable]
    · rw [List.erase_cons_tail (by simpa using same)]
      by_cases moved : gone b = true
      · simpa [moved] using (filter_sublist_erase deletable rest).cons b
      · simpa [moved] using (filter_sublist_erase deletable rest).cons_cons b

theorem erase [BEq α] [LawfulBEq α] (xs : List α) {a : α} (deletable : gone a = true) :
    Edit gone new xs (xs.erase a) :=
  ⟨xs.erase a, [], List.erase_sublist, filter_sublist_erase deletable xs, by simp, by simp⟩

end Edit

/-- `idxOf` is the index of the first occurrence. -/
theorem idxOf_first [BEq α] [LawfulBEq α] {xs : List α} {a : α} (member : a ∈ xs) :
    xs[xs.idxOf a]? = some a ∧ ∀ j < xs.idxOf a, xs[j]? ≠ some a := by
  refine ⟨List.getElem?_idxOf member, fun j before found => ?_⟩
  have bound : j < xs.length := Nat.lt_of_lt_of_le before List.idxOf_le_length
  have missed := List.not_of_lt_findIdx (p := (· == a)) (i := j) before
  rw [List.getElem?_eq_getElem bound, Option.some.injEq] at found
  simp [found] at missed

variable {ι : Type*} [DecidableEq ι]

/-- Replacing the member `r` of a duplicate-free family: the new concatenation plus the
old `f r` is a permutation of the old concatenation plus the new `g r`. -/
theorem perm_flatMap_of_agree {rs : List ι} (nodup : rs.Nodup) {f g : ι → List α} {r : ι}
    (member : r ∈ rs) (agree : ∀ x, x ≠ r → g x = f x) :
    (rs.flatMap g ++ f r).Perm (rs.flatMap f ++ g r) := by
  induction rs with
  | nil => simp at member
  | cons y ys ih =>
    obtain ⟨fresh, rest⟩ := List.nodup_cons.mp nodup
    by_cases same : y = r
    · subst y
      have others : ys.flatMap g = ys.flatMap f :=
        List.flatMap_congr fun x inside => agree x fun equal => fresh (equal ▸ inside)
      simp only [List.flatMap_cons, others]
      -- `g r ++ F ++ f r` and `f r ++ F ++ g r` only trade their outer blocks
      exact List.perm_append_comm.trans
        ((List.perm_append_comm.append_left (f r)).trans (by rw [List.append_assoc]))
    · have inside : r ∈ ys := (List.mem_cons.mp member).resolve_left (Ne.symm same)
      simp only [List.flatMap_cons, agree y same, List.append_assoc]
      exact (ih rest inside).append_left (f y)

end Fifo
