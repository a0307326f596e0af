import Gratia.Network.Gossip
import Gratia.Support.Runs

/-!
# Network — Deduplication

What a `DeduplicationCache` remembers.  A quarter of a full cache is evicted at once, the oldest
first, so between three quarters of the capacity and all of it is remembered at any time.
-/

namespace Gratia

open Support
open Std (ExtTreeSet)

namespace DeduplicationCache

variable {c : DeduplicationCache} {m : ℕ} {inserted : List Bytes} {id : Bytes}

/-- The set and the queue hold the same identifiers, each once. -/
structure Consistent (c : DeduplicationCache) : Prop where
  nodup : c.seenOrder.Nodup
  mem_iff : ∀ id, id ∈ c.seenSet ↔ id ∈ c.seenOrder
  size_eq : c.seenSet.size = c.seenOrder.length

theorem Consistent.evict (rounds : ℕ) (h : c.Consistent) : (c.evict rounds).Consistent ∧
    (c.evict rounds).seenOrder = c.seenOrder.drop rounds ∧
    (c.evict rounds).maxEntries = c.maxEntries := by
  induction rounds generalizing c with
  | zero => exact ⟨h, rfl, rfl⟩
  | succ rounds ih =>
    rw [DeduplicationCache.evict]
    split
    next old rest horder =>
      obtain ⟨hold, hrest⟩ := List.nodup_cons.mp (horder ▸ h.nodup)
      rw [horder, List.drop_succ_cons]
      refine ih ⟨hrest, fun id => ?_, ?_⟩
      · rw [ExtTreeSet.mem_erase, ne_eq, Std.compare_eq_iff_eq, h.mem_iff, horder, List.mem_cons]
        grind
      · have hmem : old ∈ c.seenSet := (h.mem_iff old).mpr (horder ▸ List.mem_cons_self)
        rw [ExtTreeSet.size_erase, if_pos (ExtTreeSet.contains_iff_mem.mpr hmem), h.size_eq, horder]
        rfl
    next horder =>
      rw [horder, List.drop_nil]
      simpa [horder] using ih h

def step (s : DeduplicationCache × List Bytes) (id : Bytes) :
    Bool × DeduplicationCache × List Bytes :=
  let (isNew, c) := s.1.checkAndInsert id
  (isNew, c, if isNew then s.2 ++ [id] else s.2)

def after (m : ℕ) (ids : List Bytes) : DeduplicationCache × List Bytes := run step (new m, []) ids

/-- The identifier was never inserted, or the number of others inserted since is `n` at least. -/
def LongAgo (n : ℕ) (inserted : List Bytes) (id : Bytes) : Prop :=
  id ∉ inserted ∨
    ∃ older newer, inserted = older ++ id :: newer ∧ id ∉ newer ∧ n ≤ newer.toFinset.card

/-- The cache is consistent and within its capacity, its queue is the last that was inserted, and
what is not in it was inserted long ago. -/
structure Remembers (m : ℕ) (c : DeduplicationCache) (inserted : List Bytes) : Prop where
  consistent : c.Consistent
  capacity : c.maxEntries = m
  bounded : c.seenOrder.length ≤ m
  last : ∃ gone, inserted = gone ++ c.seenOrder
  longAgo : ∀ id, id ∉ c.seenOrder → LongAgo (m - m / 4) inserted id

theorem LongAgo.append {n : ℕ} {new : Bytes} (h : LongAgo n inserted id) (hne : id ≠ new) :
    LongAgo n (inserted ++ [new]) id := by
  rcases h with h | ⟨older, newer, rfl, hid, hn⟩
  · exact .inl (by simp [h, hne])
  · refine .inr ⟨older, newer ++ [new], by simp, by simp [hid, hne], hn.trans ?_⟩
    exact Finset.card_le_card fun x hx => by simp_all

theorem Remembers.makeRoom (hm : 4 ≤ m) (h : Remembers m c inserted) :
    Remembers m c.makeRoom inserted ∧ c.makeRoom.seenOrder.length < m := by
  obtain ⟨hc, rfl, hlen, ⟨gone, rfl⟩, hago⟩ := h
  unfold DeduplicationCache.makeRoom
  split
  next hfull =>
    rw [hc.size_eq] at hfull
    obtain ⟨hc', horder, hmax⟩ := hc.evict (c.maxEntries / 4)
    refine ⟨⟨hc', hmax, ?_, ⟨gone ++ c.seenOrder.take (c.maxEntries / 4), ?_⟩, fun id hid => ?_⟩, ?_⟩
    · rw [horder, List.length_drop]
      omega
    · rw [horder, List.append_assoc, List.take_append_drop]
    · rw [horder] at hid
      by_cases hmem : id ∈ c.seenOrder
      · -- it is evicted now, and the rest of the queue has come after it
        have hold := hmem
        rw [← List.take_append_drop (c.maxEntries / 4) c.seenOrder, List.mem_append] at hold
        obtain ⟨a, b, hab⟩ := List.append_of_mem (hold.resolve_right hid)
        have hsplit : c.seenOrder = a ++ id :: (b ++ c.seenOrder.drop (c.maxEntries / 4)) := by
          rw [← List.cons_append, ← List.append_assoc, ← hab, List.take_append_drop]
        have hnodup := hc.nodup
        rw [hsplit] at hnodup
        obtain ⟨hnew, hnodup⟩ := List.nodup_cons.mp hnodup.of_append_right
        refine .inr ⟨gone ++ a, b ++ c.seenOrder.drop (c.maxEntries / 4), ?_, hnew, ?_⟩
        · rw [List.append_assoc, ← hsplit]
        · rw [List.toFinset_card_of_nodup hnodup, List.length_append, List.length_drop]
          omega
      · exact hago id hmem
    · rw [horder, List.length_drop]
      omega
  next hfull =>
    exact ⟨⟨hc, rfl, hlen, ⟨gone, rfl⟩, hago⟩, hc.size_eq ▸ Nat.lt_of_not_le hfull⟩

theorem Remembers.step (hm : 4 ≤ m) (h : Remembers m c inserted) (id : Bytes) :
    Remembers m (step (c, inserted) id).2.1 (step (c, inserted) id).2.2 := by
  by_cases hnew : id ∈ c.seenSet
  · simpa [DeduplicationCache.step, checkAndInsert, hnew] using h
  obtain ⟨⟨hc, hmax, -, ⟨gone, hlast⟩, hago⟩, hroom⟩ := h.makeRoom hm
  have hnot : id ∉ c.makeRoom.seenSet := mt mem_makeRoom hnew
  simp only [DeduplicationCache.step, checkAndInsert, ExtTreeSet.contains_iff_mem, hnew, if_false,
    if_true]
  refine ⟨⟨?_, fun x => ?_, ?_⟩, hmax, ?_, ⟨gone, ?_⟩, fun x hx => ?_⟩
  · exact List.concat_eq_append ▸ hc.nodup.concat (mt (hc.mem_iff id).mpr hnot)
  · simp only [ExtTreeSet.mem_insert, Std.compare_eq_iff_eq, hc.mem_iff, List.mem_append,
      List.mem_singleton]
    grind
  · rw [ExtTreeSet.size_insert, if_neg (mt ExtTreeSet.contains_iff_mem.mp hnot), hc.size_eq,
      List.length_append]
    rfl
  · rw [List.length_append]
    exact hroom
  · rw [← List.append_assoc, ← hlast]
  · obtain ⟨hx, hne⟩ := not_or.mp (mt List.mem_append.mpr hx)
    exact (hago x hx).append fun heq => hne (heq ▸ List.mem_cons_self)

/-- **The cache is bounded and remembers what came last.** -/
theorem remembers_recent (m : ℕ) (hm : 4 ≤ m) (ids : List Bytes) :
    let s := after m ids
    (∀ id, id ∈ s.1.seenSet ↔ id ∈ s.1.seenOrder) ∧ s.1.seenOrder.Nodup ∧
      s.1.seenSet.size = s.1.seenOrder.length ∧ s.1.seenOrder.length ≤ m ∧
      ∀ id, (s.1.checkAndInsert id).1 = true → LongAgo (m - m / 4) s.2 id := by
  have hnew : Remembers m (new m) [] :=
    ⟨⟨List.nodup_nil, by simp [new], rfl⟩, rfl, Nat.zero_le m, ⟨[], rfl⟩, by simp [LongAgo]⟩
  have h : Remembers m (after m ids).1 (after m ids).2 :=
    run_induction (fun s => Remembers m s.1 s.2) (fun _ => True) (fun _ id _ h => h.step hm id) ids
      (new m, []) (fun _ _ => trivial) hnew
  refine ⟨h.consistent.mem_iff, h.consistent.nodup, h.consistent.size_eq, h.bounded,
    fun id hid => h.longAgo id fun hmem => ?_⟩
  rw [checkAndInsert_fst.mpr ((h.consistent.mem_iff id).mpr hmem)] at hid
  cases hid

theorem remembers_recent_five : ((after 4 [[1], [2], [3], [4], [5]]).1.checkAndInsert [1]).1 = true ∧
    LongAgo 3 (after 4 [[1], [2], [3], [4], [5]]).2 [1] := by
  have hnew : ((after 4 [[1], [2], [3], [4], [5]]).1.checkAndInsert [1]).1 = true := by
    decide +kernel
  exact ⟨hnew, (remembers_recent 4 (by decide) [[1], [2], [3], [4], [5]]).2.2.2.2 [1] hnew⟩

end DeduplicationCache

end Gratia
